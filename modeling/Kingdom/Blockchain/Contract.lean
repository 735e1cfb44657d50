import Mathlib.Algebra.Ring.Nat
import Mathlib.Data.List.Induction
import Mathlib.Logic.Function.Basic

/-!
# The contract

The contract the batches are recorded with: an append-only log of Merkle roots that only
its owner can write to.

* `MessageIntegrity`, `recordBatch` — the storage of the contract and its one function.
* `Chain`, `Chain.run` — the contract and the events it has emitted, over any calls.
* `recordBatch_ok` — when a call succeeds, and all it does then.
* `Chain.successful` — the calls of a sequence that succeed.
* `Recorded` — the invariant: counter, mapping and events say what these calls were.
* `append_only` — what a sequence of calls leaves, and what the next call does.
-/

namespace Blockchain

abbrev UInt256 := BitVec 256

abbrev Bytes32 := BitVec 256

abbrev Address := BitVec 160

/-! ## The contract -/

structure Batch where
  root : Bytes32
  timestamp : UInt256
  messageCount : UInt256
deriving DecidableEq

/-- What a mapping holds where nothing was stored. -/
def Batch.zero : Batch := ⟨0, 0, 0⟩

structure BatchRecorded where
  batchId : UInt256
  root : Bytes32
  timestamp : UInt256
  messageCount : UInt256
  leaves : List Bytes32
deriving DecidableEq

/-- An array of the call data, whose length is a `uint256`. -/
structure Leaves where
  toList : List Bytes32
  length_lt : toList.length < 2 ^ 256

def Leaves.length (leaves : Leaves) : UInt256 := BitVec.ofNat 256 leaves.toList.length

/-- How a call reverts: with an error of the contract, or by the check of an addition. -/
inductive Revert where
  | unauthorized
  | emptyBatch
  | overflow
deriving DecidableEq

structure MessageIntegrity where
  owner : Address
  batches : UInt256 → Batch
  nextBatchId : UInt256

/-- The `constructor`. -/
def MessageIntegrity.deploy (sender : Address) : MessageIntegrity := ⟨sender, fun _ => .zero, 0⟩

/-- A call of `recordBatch` in a transaction of a block. -/
structure Call where
  sender : Address
  timestamp : UInt256
  root : Bytes32
  leaves : Leaves

/-- `nextBatchId++`, which is checked. -/
def increment (n : UInt256) : Except Revert UInt256 :=
  if n = BitVec.allOnes 256 then .error .overflow else .ok (n + 1)

def recordBatch (contract : MessageIntegrity) (call : Call) :
    Except Revert (UInt256 × BatchRecorded × MessageIntegrity) := do
  if call.sender ≠ contract.owner then throw .unauthorized
  if call.leaves.length = 0 then throw .emptyBatch
  let batchId := contract.nextBatchId
  let nextBatchId ← increment contract.nextBatchId
  let batch : Batch := ⟨call.root, call.timestamp, call.leaves.length⟩
  let contract := { contract with
    batches := Function.update contract.batches batchId batch, nextBatchId := nextBatchId }
  return (batchId, ⟨batchId, call.root, call.timestamp, call.leaves.length, call.leaves.toList⟩,
    contract)

/-! ## Sequences of calls -/

/-- The contract, and the events it has emitted. -/
structure Chain where
  contract : MessageIntegrity
  events : List BatchRecorded

/-- A call; one that reverts leaves nothing. -/
def Chain.call (chain : Chain) (call : Call) : Chain :=
  match recordBatch chain.contract call with
  | .ok (_, event, contract) => ⟨contract, chain.events ++ [event]⟩
  | .error _ => chain

def Chain.run (deployer : Address) (calls : List Call) : Chain :=
  calls.foldl Chain.call ⟨.deploy deployer, []⟩

/-- The calls that succeed, one after another. -/
def Chain.successful (chain : Chain) : List Call → List Call
  | [] => []
  | call :: calls =>
      if (recordBatch chain.contract call).isOk then call :: (chain.call call).successful calls
      else (chain.call call).successful calls

/-- What a call records. -/
def Call.batch (call : Call) : Batch := ⟨call.root, call.timestamp, call.leaves.length⟩

/-- The event of a call that is given this id. -/
def Call.event (call : Call) (batchId : UInt256) : BatchRecorded :=
  ⟨batchId, call.root, call.timestamp, call.leaves.length, call.leaves.toList⟩

/-! ## One call -/

theorem Leaves.length_eq_zero {leaves : Leaves} : leaves.length = 0 ↔ leaves.toList = [] := by
  have hlt := leaves.length_lt
  rw [Leaves.length, ← List.length_eq_zero_iff]
  constructor
  · intro h
    have hnat := congrArg BitVec.toNat h
    rwa [BitVec.toNat_ofNat, Nat.mod_eq_of_lt hlt] at hnat
  · intro h
    rw [h]
    rfl

theorem increment_ok {n m : UInt256} : increment n = .ok m ↔ n ≠ BitVec.allOnes 256 ∧ m = n + 1 := by
  rw [increment]
  split_ifs with h
  · simp [h]
  · constructor
    · intro heq
      cases heq
      exact ⟨h, rfl⟩
    · rintro ⟨-, rfl⟩
      rfl

theorem toNat_increment {n : UInt256} (h : n ≠ BitVec.allOnes 256) : (n + 1).toNat = n.toNat + 1 := by
  have hne : n.toNat ≠ 2 ^ 256 - 1 := by
    intro heq
    apply h
    apply BitVec.eq_of_toNat_eq
    rw [heq, BitVec.toNat_allOnes]
  have hlt := n.isLt
  have hone : (1 : UInt256).toNat = 1 := rfl
  rw [BitVec.toNat_add, hone, Nat.mod_eq_of_lt (by omega)]

/-- **When a call succeeds, and all it does then.** -/
theorem recordBatch_ok {contract : MessageIntegrity} {call : Call}
    {r : UInt256 × BatchRecorded × MessageIntegrity} :
    recordBatch contract call = .ok r ↔ call.sender = contract.owner ∧ call.leaves.toList ≠ [] ∧
      contract.nextBatchId ≠ BitVec.allOnes 256 ∧
      r = (contract.nextBatchId, call.event contract.nextBatchId,
        ⟨contract.owner, Function.update contract.batches contract.nextBatchId call.batch,
          contract.nextBatchId + 1⟩) := by
  rw [recordBatch]
  by_cases hsender : call.sender = contract.owner
  · by_cases hempty : call.leaves.length = 0
    · rw [if_neg (not_not.mpr hsender), if_pos hempty]
      constructor
      · intro h
        cases h
      · rintro ⟨-, hne, -⟩
        exact absurd (Leaves.length_eq_zero.mp hempty) hne
    · have hne : call.leaves.toList ≠ [] := fun hnil => hempty (Leaves.length_eq_zero.mpr hnil)
      rw [if_neg (not_not.mpr hsender), if_neg hempty]
      cases hinc : increment contract.nextBatchId with
      | error e =>
          have hlast : contract.nextBatchId = BitVec.allOnes 256 := by
            by_contra hlast
            cases hinc.symm.trans (increment_ok.mpr ⟨hlast, rfl⟩)
          constructor
          · intro h
            cases h
          · rintro ⟨-, -, hnext, -⟩
            exact absurd hlast hnext
      | ok m =>
          obtain ⟨hnext, rfl⟩ := increment_ok.mp hinc
          constructor
          · intro h
            cases h
            exact ⟨hsender, hne, hnext, rfl⟩
          · rintro ⟨-, -, -, rfl⟩
            rfl
  · rw [if_pos hsender]
    constructor
    · intro h
      cases h
    · rintro ⟨h, -⟩
      exact absurd h hsender

/-- A call of the owner with leaves succeeds, until the ids are used up. -/
theorem recordBatch_isOk {contract : MessageIntegrity} {call : Call} :
    (recordBatch contract call).isOk = true ↔ call.sender = contract.owner ∧
      call.leaves.toList ≠ [] ∧ contract.nextBatchId ≠ BitVec.allOnes 256 := by
  constructor
  · intro h
    cases hr : recordBatch contract call with
    | error e =>
        rw [hr] at h
        cases h
    | ok r =>
        obtain ⟨hsender, hne, hnext, -⟩ := recordBatch_ok.mp hr
        exact ⟨hsender, hne, hnext⟩
  · rintro ⟨hsender, hne, hnext⟩
    rw [recordBatch_ok.mpr ⟨hsender, hne, hnext, rfl⟩]
    rfl

/-- When the ids are used up, the addition is what fails. -/
theorem recordBatch_last {contract : MessageIntegrity} {call : Call}
    (hsender : call.sender = contract.owner) (hleaves : call.leaves.length ≠ 0)
    (hlast : contract.nextBatchId = BitVec.allOnes 256) :
    recordBatch contract call = .error .overflow := by
  rw [recordBatch, if_neg (not_not.mpr hsender), if_neg hleaves, increment, if_pos hlast]
  rfl

/-! ## Sequences of calls -/

theorem Chain.successful_append (chain : Chain) (xs ys : List Call) :
    chain.successful (xs ++ ys) = chain.successful xs ++ (xs.foldl call chain).successful ys := by
  induction xs generalizing chain with
  | nil => rfl
  | cons x xs ih =>
      rw [List.cons_append, successful, successful, List.foldl_cons, ih]
      split_ifs <;> rfl

theorem Chain.run_snoc (deployer : Address) (calls : List Call) (c : Call) :
    Chain.run deployer (calls ++ [c]) = (Chain.run deployer calls).call c := by
  rw [run, List.foldl_append, List.foldl_cons, List.foldl_nil, run]

/-- The calls that were successful since the contract was deployed. -/
def recorded (deployer : Address) (calls : List Call) : List Call :=
  Chain.successful ⟨.deploy deployer, []⟩ calls

theorem recorded_snoc (deployer : Address) (calls : List Call) (c : Call) :
    recorded deployer (calls ++ [c]) = recorded deployer calls ++
      if (recordBatch (Chain.run deployer calls).contract c).isOk then [c] else [] := by
  rw [recorded, Chain.successful_append, Chain.successful, Chain.successful]
  rfl

/-- Counter, mapping and events say what the successful calls were. -/
structure Recorded (deployer : Address) (done : List Call) (chain : Chain) : Prop where
  owner : chain.contract.owner = deployer
  counter : chain.contract.nextBatchId.toNat = done.length
  batches : ∀ i, chain.contract.batches i = (done[i.toNat]?.map Call.batch).getD .zero
  events : chain.events = done.mapIdx fun i call => call.event (BitVec.ofNat 256 i)

theorem recorded_deploy (deployer : Address) : Recorded deployer [] ⟨.deploy deployer, []⟩ :=
  ⟨rfl, rfl, fun _ => rfl, rfl⟩

/-- **A successful call** is one more of them. -/
theorem Recorded.call {deployer : Address} {done : List Call} {chain : Chain} {c : Call}
    {r : UInt256 × BatchRecorded × MessageIntegrity} (h : Recorded deployer done chain)
    (hok : recordBatch chain.contract c = .ok r) : Recorded deployer (done ++ [c]) (chain.call c) := by
  obtain ⟨-, -, hnext, rfl⟩ := recordBatch_ok.mp hok
  rw [Chain.call, hok]
  have hid : BitVec.ofNat 256 done.length = chain.contract.nextBatchId := by
    rw [← h.counter, BitVec.ofNat_toNat, BitVec.setWidth_eq]
  refine ⟨h.owner, ?_, ?_, ?_⟩
  · rw [toNat_increment hnext, h.counter, List.length_append, List.length_singleton]
  · intro i
    by_cases hi : i = chain.contract.nextBatchId
    · subst hi
      simp [h.counter]
    · have hne : i.toNat ≠ done.length := by
        intro heq
        apply hi
        rw [← hid, ← heq, BitVec.ofNat_toNat, BitVec.setWidth_eq]
      simp only [Function.update_of_ne hi]
      rw [h.batches i]
      rcases Nat.lt_or_gt_of_ne hne with hlt | hgt
      · rw [List.getElem?_append_left hlt]
      · rw [List.getElem?_eq_none (by omega), List.getElem?_eq_none (by simp; omega)]
  · rw [h.events, List.mapIdx_append, List.mapIdx_singleton, Nat.zero_add, hid]

/-- **The invariant of the contract.** -/
theorem run_recorded (deployer : Address) (calls : List Call) :
    Recorded deployer (recorded deployer calls) (Chain.run deployer calls) := by
  induction calls using List.reverseRecOn with
  | nil => exact recorded_deploy deployer
  | append_singleton calls c ih =>
      rw [recorded_snoc, Chain.run_snoc]
      cases hr : recordBatch (Chain.run deployer calls).contract c with
      | ok r => exact ih.call hr
      | error e =>
          rw [Chain.call, hr]
          change Recorded deployer (recorded deployer calls ++ []) _
          rw [List.append_nil]
          exact ih

/-- What was recorded stays recorded. -/
theorem recorded_append (deployer : Address) (calls more : List Call) :
    recorded deployer calls <+: recorded deployer (calls ++ more) := by
  rw [recorded, recorded, Chain.successful_append]
  exact List.prefix_append _ _

/-- **The contract is an append-only log.**  After any calls the counter is the number of
those that succeeded, the mapping has them in order and nothing after them, and there is
one event for each; no later call changes what was recorded; the next call succeeds when
it is the deployer's, has leaves and the ids are not used up, and leaves everything as it
is when it does not succeed. -/
theorem append_only (deployer : Address) (calls : List Call) :
    let chain := Chain.run deployer calls
    let done := recorded deployer calls
    chain.contract.nextBatchId.toNat = done.length ∧
      (∀ i, i < chain.contract.nextBatchId → ∃ call, done[i.toNat]? = some call ∧
        chain.contract.batches i = ⟨call.root, call.timestamp, call.leaves.length⟩ ∧
        ∀ more, (Chain.run deployer (calls ++ more)).contract.batches i = chain.contract.batches i) ∧
      (∀ i, chain.contract.nextBatchId ≤ i → chain.contract.batches i = .zero) ∧
      chain.events = (done.mapIdx fun i call => call.event (BitVec.ofNat 256 i)) ∧
      ∀ call, ((∃ r, recordBatch chain.contract call = .ok r) ↔ call.sender = deployer ∧
          call.leaves.toList ≠ [] ∧ chain.contract.nextBatchId ≠ BitVec.allOnes 256) ∧
        ∀ e, recordBatch chain.contract call = .error e →
          Chain.run deployer (calls ++ [call]) = chain := by
  intro chain done
  have h : Recorded deployer done chain := run_recorded deployer calls
  refine ⟨h.counter, ?_, ?_, h.events, ?_⟩
  · intro i hi
    have hlt : i.toNat < done.length := by
      rw [← h.counter]
      exact hi
    have hget : done[i.toNat]? = some done[i.toNat] := List.getElem?_eq_getElem hlt
    refine ⟨done[i.toNat], hget, ?_, ?_⟩
    · rw [h.batches i, hget]
      rfl
    · intro more
      obtain ⟨later, hlater⟩ := recorded_append deployer calls more
      rw [(run_recorded deployer (calls ++ more)).batches i, h.batches i, ← hlater,
        List.getElem?_append_left hlt]
  · intro i hi
    have hge : done.length ≤ i.toNat := by
      rw [← h.counter]
      exact hi
    rw [h.batches i, List.getElem?_eq_none hge]
    rfl
  · intro call
    refine ⟨?_, ?_⟩
    · have hok := @recordBatch_isOk chain.contract call
      rw [h.owner] at hok
      rw [← hok]
      cases recordBatch chain.contract call with
      | ok r => exact ⟨fun _ => rfl, fun _ => ⟨r, rfl⟩⟩
      | error e =>
          constructor
          · rintro ⟨r, hr⟩
            cases hr
          · intro hr
            cases hr
    · intro e he
      rw [Chain.run_snoc, Chain.call, he]

/-- A call that the deployer can make. -/
def firstCall (deployer : Address) : Call := ⟨deployer, 0, 0, ⟨[0], by decide⟩⟩

/-- The deployer can record again and again. -/
theorem recorded_replicate (deployer : Address) (n : Nat) (hn : n < 2 ^ 256) :
    (recorded deployer (List.replicate n (firstCall deployer))).length = n := by
  induction n with
  | zero => rfl
  | succ n ih =>
      have hlength := ih (by omega)
      have h := run_recorded deployer (List.replicate n (firstCall deployer))
      have hok : (recordBatch (Chain.run deployer (List.replicate n (firstCall deployer))).contract
          (firstCall deployer)).isOk = true := by
        refine recordBatch_isOk.mpr ⟨h.owner.symm, by simp [firstCall], ?_⟩
        intro hlast
        have hcounter := h.counter
        rw [hlast, hlength, BitVec.toNat_allOnes] at hcounter
        omega
      rw [List.replicate_succ', recorded_snoc, if_pos hok, List.length_append, hlength,
        List.length_singleton]

/-- The deployer's call with leaves fails when the ids are used up. -/
theorem recordBatch_overflow : ∃ (deployer : Address) (calls : List Call) (call : Call),
    call.sender = deployer ∧ call.leaves.toList ≠ [] ∧
      recordBatch (Chain.run deployer calls).contract call = .error .overflow := by
  refine ⟨1, List.replicate (2 ^ 256 - 1) (firstCall 1), firstCall 1, rfl, by simp [firstCall], ?_⟩
  have hlength := recorded_replicate 1 (2 ^ 256 - 1) (by omega)
  have h := run_recorded 1 (List.replicate (2 ^ 256 - 1) (firstCall 1))
  have hlast : (Chain.run 1 (List.replicate (2 ^ 256 - 1) (firstCall 1))).contract.nextBatchId =
      BitVec.allOnes 256 := by
    apply BitVec.eq_of_toNat_eq
    rw [h.counter, hlength, BitVec.toNat_allOnes]
  exact recordBatch_last h.owner.symm (by decide) hlast

end Blockchain
