import Kingdom.Blockchain.Contract
import Kingdom.Merkle.Tree

/-!
# The root of a batch

The sidecar and the verification page build the root of a batch with the same function.

* `concat`, `buildMerkleRoot` — two hashes as 64 bytes, and the root.
* `CollisionFree` — the hash has no collision among the inputs of two roots.
* `root_commits` — what the root says of the leaves.
* `root_forgets_count` — how often a leaf comes is not among it.
-/

namespace Blockchain

/-- The bytes of a hash, the first one first. -/
def toBytes (h : Bytes32) : List UInt8 :=
  (List.range 32).map fun i => .ofBitVec (h.extractLsb' (8 * (31 - i)) 8)

/-- `ethers.concat` -/
def concat (a b : Bytes32) : List UInt8 := toBytes a ++ toBytes b

theorem length_toBytes (h : Bytes32) : (toBytes h).length = 32 := by
  rw [toBytes, List.length_map, List.length_range]

theorem toBytes_injective {a b : Bytes32} (h : toBytes a = toBytes b) : a = b := by
  have hbyte : ∀ i < 32, a.extractLsb' (8 * (31 - i)) 8 = b.extractLsb' (8 * (31 - i)) 8 := by
    intro i hi
    have hget := congrArg (·[i]?) h
    simp only [toBytes, List.getElem?_map, List.getElem?_range hi, Option.map_some] at hget
    exact UInt8.ofBitVec.inj (Option.some.inj hget)
  apply BitVec.eq_of_getLsbD_eq
  intro j hj
  -- the bit is in the byte before which there are `31 - j / 8` others
  have hbit := congrArg (·.getLsbD (j % 8)) (hbyte (31 - j / 8) (by omega))
  simp only [BitVec.getLsbD_extractLsb', Nat.mod_lt j (by decide : 0 < 8), decide_true,
    Bool.true_and] at hbit
  rwa [show 8 * (31 - (31 - j / 8)) + j % 8 = j by omega] at hbit

theorem concat_injective {p q : Bytes32 × Bytes32} (h : concat p.1 p.2 = concat q.1 q.2) : p = q := by
  obtain ⟨hfst, hsnd⟩ := List.append_inj h (by rw [length_toBytes, length_toBytes])
  exact Prod.ext (toBytes_injective hfst) (toBytes_injective hsnd)

section Root

variable (keccak256 : List UInt8 → Bytes32)

/-- The hash of two nodes.  The strings that the source sorts are hexadecimal of one length,
and so in the order of the numbers. -/
def hashPair (p : Bytes32 × Bytes32) : Bytes32 := keccak256 (concat p.1 p.2)

/-- The root of the leaves; there is none of an empty list. -/
def buildMerkleRoot (leaves : List Bytes32) : Option Bytes32 := Merkle.build (hashPair keccak256) leaves

/-- What is hashed to build the root. -/
def hashedInputs (leaves : List Bytes32) : List (List UInt8) :=
  (Merkle.hashed (hashPair keccak256) leaves).map fun p => concat p.1 p.2

/-- No two inputs that are hashed for the roots have the same hash. -/
def CollisionFree (l l' : List Bytes32) : Prop :=
  Set.InjOn keccak256 {x | x ∈ hashedInputs keccak256 l ∨ x ∈ hashedInputs keccak256 l'}

variable {keccak256} {l l' : List Bytes32}

theorem CollisionFree.tree (h : CollisionFree keccak256 l l') :
    Merkle.CollisionFree (hashPair keccak256) l l' := by
  intro p hp q hq heq
  exact concat_injective (h (hp.imp (List.mem_map_of_mem) (List.mem_map_of_mem))
    (hq.imp (List.mem_map_of_mem) (List.mem_map_of_mem)) heq)

end Root

/-- **A root commits to the leaves** of a batch of known size: it determines which leaves
there are; and how often each of them comes when none is repeated, or when their number is
a power of two, so that no level is odd. -/
theorem root_commits {keccak256 : List UInt8 → Bytes32} {l l' : List Bytes32}
    (hlength : l.length = l'.length) (hfree : CollisionFree keccak256 l l')
    (h : buildMerkleRoot keccak256 l = buildMerkleRoot keccak256 l') :
    (∀ leaf, leaf ∈ l ↔ leaf ∈ l') ∧ (l.Nodup ∨ (∃ k, l.length = 2 ^ k) → l.Perm l') :=
  ⟨Merkle.build_mem hlength hfree.tree h,
    fun hcount => Merkle.build_perm hlength hcount hfree.tree h⟩

/-- A batch of three. -/
theorem buildMerkleRoot_three (keccak256 : List UInt8 → Bytes32) (a b c : Bytes32) :
    buildMerkleRoot keccak256 [a, b, c] = some (hashPair keccak256
      (Merkle.sorted (hashPair keccak256 (Merkle.sorted a b))
        (hashPair keccak256 (Merkle.sorted c c)))) := by
  rw [buildMerkleRoot, Merkle.build_long _ (by simp),
    Merkle.build_long _ (by simp [Merkle.length_nextLevel]),
    Merkle.build_short _ (by simp [Merkle.length_nextLevel])]
  simp [Merkle.nextLevel, Merkle.padded, Merkle.pairUp]

/-- A batch of two. -/
theorem buildMerkleRoot_two (keccak256 : List UInt8 → Bytes32) (a b : Bytes32) :
    buildMerkleRoot keccak256 [a, b] = some (hashPair keccak256 (Merkle.sorted a b)) := by
  rw [buildMerkleRoot, Merkle.build_long _ (by simp),
    Merkle.build_short _ (by simp [Merkle.length_nextLevel])]
  simp [Merkle.nextLevel, Merkle.padded, Merkle.pairUp]

theorem sorted_comm (a b : Bytes32) : Merkle.sorted a b = Merkle.sorted b a := by
  rw [Merkle.sorted, Merkle.sorted]
  by_cases hab : a ≤ b
  · by_cases hba : b ≤ a
    · rw [if_pos hab, if_pos hba, BitVec.le_antisymm hab hba]
    · rw [if_pos hab, if_neg hba]
  · rw [if_neg hab, if_pos ((BitVec.le_total a b).resolve_left hab)]

/-- A hash for the examples. -/
def exampleHash (bytes : List UInt8) : Bytes32 :=
  bytes.foldl (fun h byte => h * 257 + (byte.toBitVec.setWidth 256)) 1

/-- Two leaves, in both orders. -/
theorem root_commits_example :
    buildMerkleRoot exampleHash [1, 2] = buildMerkleRoot exampleHash [2, 1] ∧
    [(1 : Bytes32), 2].Perm [2, 1] := by
  have hroot : buildMerkleRoot exampleHash [1, 2] = buildMerkleRoot exampleHash [2, 1] := by
    rw [buildMerkleRoot_two, buildMerkleRoot_two, sorted_comm]
  have hinputs : ∀ a b : Bytes32, ∀ x ∈ hashedInputs exampleHash [a, b],
      x = concat (Merkle.sorted a b).1 (Merkle.sorted a b).2 := by
    intro a b x hx
    rw [hashedInputs, Merkle.hashed_long _ (by simp), Merkle.hashed] at hx
    simpa [Merkle.length_nextLevel, Merkle.padded, Merkle.pairUp] using hx
  have hfree : CollisionFree exampleHash [1, 2] [2, 1] := by
    have hone : ∀ x, x ∈ hashedInputs exampleHash [1, 2] ∨ x ∈ hashedInputs exampleHash [2, 1] →
        x = concat (Merkle.sorted 1 2).1 (Merkle.sorted 1 2).2 := by
      rintro x (hx | hx)
      · exact hinputs 1 2 x hx
      · rw [sorted_comm]
        exact hinputs 2 1 x hx
    intro x hx y hy _
    rw [hone x hx, hone y hy]
  have hlength : [(1 : Bytes32), 2].length = [(2 : Bytes32), 1].length := rfl
  exact ⟨hroot, (root_commits hlength hfree hroot).2 (.inr ⟨1, rfl⟩)⟩

/-- **Whatever the hash, two batches of three have the same root**, though a leaf comes
twice in one and once in the other. -/
theorem root_forgets_count : ∃ l l' : List Bytes32, l.length = l'.length ∧ ¬ l.Perm l' ∧
    ∀ keccak256, buildMerkleRoot keccak256 l = buildMerkleRoot keccak256 l' := by
  refine ⟨[1, 1, 2], [2, 2, 1], rfl, by decide, ?_⟩
  intro keccak256
  rw [buildMerkleRoot_three, buildMerkleRoot_three, sorted_comm]

end Blockchain
