import Mathlib.Algebra.Ring.Nat
import Mathlib.Data.List.Perm.Lattice
import Mathlib.Data.Set.Function

/-!
# Merkle trees of sorted pairs

A tree over a list of hashes, built level by level: neighbours are sorted and hashed
together, and the last node of an odd level is taken twice.  The root forgets the order of
the leaves, and how often a leaf comes when a level is odd.

* `sorted`, `padded`, `pairUp`, `nextLevel`, `build` — the tree.
* `hashed` — the pairs that are hashed on the way to the root.
* `perm_of_pairs`, `mem_iff_pairs` — what the pairs of a level say of the level.
* `Countable` — levels whose nodes the next level counts: without repetitions, or as many
  as a power of two.
* `build_perm`, `build_mem` — what the root says of the leaves.
-/

namespace Merkle

variable {H : Type}

section Tree

variable [LE H] [DecidableLE H]

/-- A pair, the smaller node first. -/
def sorted (a b : H) : H × H := if a ≤ b then (a, b) else (b, a)

/-- A level of even length: the last node is repeated when there are an odd number. -/
def padded (level : List H) : List H :=
  if level.length % 2 ≠ 0 then level ++ level.getLast?.toList else level

/-- Neighbours, two by two. -/
def pairUp : List H → List (H × H)
  | a :: b :: rest => sorted a b :: pairUp rest
  | _ => []

def nextLevel (hash : H × H → H) (level : List H) : List H := (pairUp (padded level)).map hash

/-! ## Lengths -/

omit [LE H] [DecidableLE H] in
theorem padded_even {level : List H} (h : level.length % 2 = 0) : padded level = level := by
  rw [padded, if_neg (not_not.mpr h)]

omit [LE H] [DecidableLE H] in
/-- An odd level ends with a node, which is repeated. -/
theorem padded_odd {level : List H} (h : level.length % 2 = 1) :
    ∃ init last, level = init ++ [last] ∧ padded level = init ++ [last] ++ [last] := by
  rcases List.eq_nil_or_concat level with rfl | ⟨init, last, rfl⟩
  · simp at h
  · refine ⟨init, last, List.concat_eq_append, ?_⟩
    rw [padded, if_pos (by omega), List.concat_eq_append, List.getLast?_concat, Option.toList_some]

omit [LE H] [DecidableLE H] in
theorem length_padded (level : List H) : (padded level).length = 2 * ((level.length + 1) / 2) := by
  rcases Nat.mod_two_eq_zero_or_one level.length with h | h
  · rw [padded_even h]
    omega
  · obtain ⟨init, last, hlevel, hpadded⟩ := padded_odd h
    rw [hpadded]
    simp only [hlevel, List.length_append, List.length_singleton] at h ⊢
    omega

theorem length_pairUp : ∀ level : List H, (pairUp level).length = level.length / 2
  | [] => by simp [pairUp]
  | [_] => by simp [pairUp]
  | a :: b :: rest => by
      rw [pairUp, List.length_cons, length_pairUp rest, List.length_cons, List.length_cons]
      omega

theorem length_nextLevel (hash : H × H → H) (level : List H) :
    (nextLevel hash level).length = (level.length + 1) / 2 := by
  rw [nextLevel, List.length_map, length_pairUp, length_padded]
  omega

/-- The node that is left when level after level is hashed; a list without nodes has none. -/
def build (hash : H × H → H) (level : List H) : Option H :=
  if 1 < level.length then build hash (nextLevel hash level) else level.head?
termination_by level.length
decreasing_by
  rw [length_nextLevel]
  omega

/-- The pairs that are hashed on the way. -/
def hashed (hash : H × H → H) (level : List H) : List (H × H) :=
  if 1 < level.length then pairUp (padded level) ++ hashed hash (nextLevel hash level) else []
termination_by level.length
decreasing_by
  rw [length_nextLevel]
  omega

/-! ## What the pairs of a level say of it -/

theorem perm_sorted (a b : H) : [(sorted a b).1, (sorted a b).2].Perm [a, b] := by
  rw [sorted]
  split_ifs
  · exact .refl _
  · exact .swap _ _ _

/-- The nodes of the pairs are the nodes of the level. -/
theorem perm_pairUp : ∀ level : List H, level.length % 2 = 0 →
    ((pairUp level).flatMap fun p => [p.1, p.2]).Perm level
  | [], _ => .refl _
  | [_], h => by simp at h
  | a :: b :: rest, h => by
      have hrest : rest.length % 2 = 0 := by
        simp only [List.length_cons] at h
        omega
      rw [pairUp, List.flatMap_cons]
      exact (perm_sorted a b).append (perm_pairUp rest hrest)

theorem padded_perm_of_pairs {l l' : List H}
    (h : (pairUp (padded l)).Perm (pairUp (padded l'))) : (padded l).Perm (padded l') := by
  have heven : ∀ level : List H, (padded level).length % 2 = 0 := by
    intro level
    rw [length_padded]
    omega
  exact (perm_pairUp _ (heven l)).symm.trans
    ((h.flatMap_right _).trans (perm_pairUp _ (heven l')))

omit [LE H] [DecidableLE H] in
theorem mem_padded {level : List H} {x : H} : x ∈ padded level ↔ x ∈ level := by
  rcases Nat.mod_two_eq_zero_or_one level.length with h | h
  · rw [padded_even h]
  · obtain ⟨init, last, hlevel, hpadded⟩ := padded_odd h
    rw [hpadded, hlevel]
    simp

theorem mem_of_mem_pairUp {level : List H} {p : H × H} (hp : p ∈ pairUp level) :
    p.1 ∈ level ∧ p.2 ∈ level := by
  induction level using pairUp.induct with
  | case1 a b rest ih =>
      rw [pairUp, List.mem_cons] at hp
      rcases hp with rfl | hp
      · rw [sorted]
        split_ifs <;> simp
      · exact ⟨List.mem_cons_of_mem _ (List.mem_cons_of_mem _ (ih hp).1),
          List.mem_cons_of_mem _ (List.mem_cons_of_mem _ (ih hp).2)⟩
  | case2 level hshort =>
      have hnil : pairUp level = [] := by
        match level, hshort with
        | [], _ => rfl
        | [_], _ => rfl
        | a :: b :: rest, hshort => exact absurd rfl (hshort a b rest)
      rw [hnil] at hp
      cases hp

/-- A level has the nodes of its pairs. -/
theorem mem_iff_pairs {level : List H} {x : H} :
    x ∈ level ↔ ∃ p ∈ pairUp (padded level), x = p.1 ∨ x = p.2 := by
  have heven : (padded level).length % 2 = 0 := by
    rw [length_padded]
    omega
  rw [← mem_padded, ← (perm_pairUp _ heven).mem_iff, List.mem_flatMap]
  simp only [List.mem_cons, List.not_mem_nil, or_false]

theorem pairUp_append : ∀ {l r : List H}, l.length % 2 = 0 → pairUp (l ++ r) = pairUp l ++ pairUp r
  | [], _, _ => rfl
  | [_], _, h => by simp at h
  | a :: b :: rest, r, h => by
      have hrest : rest.length % 2 = 0 := by
        simp only [List.length_cons] at h
        omega
      rw [List.cons_append, List.cons_append, pairUp, pairUp, pairUp_append hrest, List.cons_append]

theorem nodup_pairUp : ∀ {level : List H}, level.Nodup → (pairUp level).Nodup
  | [], _ => .nil
  | [_], _ => by simp [pairUp]
  | a :: b :: rest, h => by
      rw [List.nodup_cons, List.nodup_cons, List.mem_cons, not_or] at h
      obtain ⟨⟨-, ha⟩, hb, hrest⟩ := h
      rw [pairUp, List.nodup_cons]
      refine ⟨fun hmem => ?_, nodup_pairUp hrest⟩
      have hnodes := (mem_of_mem_pairUp hmem).1
      rw [sorted] at hnodes
      split_ifs at hnodes
      · exact ha hnodes
      · exact hb hnodes

/-- A level without repetitions has pairs without repetitions, the last one included. -/
theorem nodup_pairs {level : List H} (h : level.Nodup) : (pairUp (padded level)).Nodup := by
  rcases Nat.mod_two_eq_zero_or_one level.length with heven | hodd
  · rw [padded_even heven]
    exact nodup_pairUp h
  · obtain ⟨init, last, rfl, hpadded⟩ := padded_odd hodd
    have hinit : init.length % 2 = 0 := by
      rw [List.length_append, List.length_singleton] at hodd
      omega
    obtain ⟨hnodup, -, hlast⟩ := List.nodup_append.mp h
    rw [hpadded, List.append_assoc, pairUp_append hinit]
    refine List.nodup_append.mpr ⟨nodup_pairUp hnodup, by simp [pairUp], ?_⟩
    intro p hp q hq heq
    subst heq
    have hq' : p = sorted last last := by simpa [pairUp] using hq
    have hmem := (mem_of_mem_pairUp hp).1
    rw [hq', sorted, ite_self] at hmem
    exact hlast last hmem last (List.mem_singleton_self _) rfl

/-- **The pairs determine a level up to order**, when it is even or has no repetitions. -/
theorem perm_of_pairs {l l' : List H} (hlength : l.length = l'.length)
    (hl : l.length % 2 = 0 ∨ l.Nodup) (h : (pairUp (padded l)).Perm (pairUp (padded l'))) :
    l.Perm l' := by
  have hperm := padded_perm_of_pairs h
  rcases Nat.mod_two_eq_zero_or_one l.length with heven | hodd
  · rwa [padded_even heven, padded_even (hlength ▸ heven)] at hperm
  · have hnodup : l.Nodup := hl.resolve_left (by omega)
    obtain ⟨init, last, rfl, hpadded⟩ := padded_odd hodd
    obtain ⟨init', last', rfl, hpadded'⟩ := padded_odd (hlength ▸ hodd)
    rw [hpadded, hpadded'] at hperm
    -- the node that comes twice in one comes twice in the other
    have hlast : last' = last := by
      classical
      by_contra hne
      have hcount := hperm.count_eq last'
      have honce := List.nodup_iff_count_le_one.mp hnodup last'
      have hother : List.count last' [last] = 0 := by
        rw [List.count_singleton, if_neg (by simpa using Ne.symm hne)]
      simp only [List.count_append, List.count_singleton_self, hother] at hcount honce
      omega
    rw [hlast] at hperm ⊢
    exact (List.perm_append_right_iff [last]).mp hperm

/-! ## What the root says of the leaves -/

/-- The next level tells how often a node comes: there is no repetition, or there are as
many nodes as a power of two. -/
def Countable (level : List H) : Prop := level.Nodup ∨ ∃ k, level.length = 2 ^ k

/-- No two pairs that are hashed on the way have the same hash. -/
def CollisionFree (hash : H × H → H) (l l' : List H) : Prop :=
  Set.InjOn hash {p | p ∈ hashed hash l ∨ p ∈ hashed hash l'}

theorem build_long (hash : H × H → H) {level : List H} (h : 1 < level.length) :
    build hash level = build hash (nextLevel hash level) := by
  rw [build, if_pos h]

theorem build_short (hash : H × H → H) {level : List H} (h : ¬ 1 < level.length) :
    build hash level = level.head? := by
  rw [build, if_neg h]

/-- Some leaves have a root. -/
theorem exists_build (hash : H × H → H) {level : List H} (h : level ≠ []) :
    ∃ root, build hash level = some root := by
  induction hn : level.length using Nat.strong_induction_on generalizing level with
  | _ n ih =>
      by_cases hlong : 1 < level.length
      · have hlength := length_nextLevel hash level
        rw [build_long hash hlong]
        refine ih _ (by omega) ?_ rfl
        rw [← List.length_pos_iff]
        omega
      · obtain ⟨a, rest, rfl⟩ := List.exists_cons_of_ne_nil h
        exact ⟨a, build_short hash hlong⟩

theorem hashed_long (hash : H × H → H) {level : List H} (h : 1 < level.length) :
    hashed hash level = pairUp (padded level) ++ hashed hash (nextLevel hash level) := by
  rw [hashed, if_pos h]

variable {hash : H × H → H} {l l' : List H}

theorem CollisionFree.pairs (h : CollisionFree hash l l') (hl : 1 < l.length) (hl' : 1 < l'.length) :
    Set.InjOn hash {p | p ∈ pairUp (padded l) ∨ p ∈ pairUp (padded l')} := by
  refine h.mono ?_
  rintro p (hp | hp)
  · exact .inl (hashed_long hash hl ▸ List.mem_append_left _ hp)
  · exact .inr (hashed_long hash hl' ▸ List.mem_append_left _ hp)

theorem CollisionFree.next (h : CollisionFree hash l l') (hl : 1 < l.length) (hl' : 1 < l'.length) :
    CollisionFree hash (nextLevel hash l) (nextLevel hash l') := by
  refine h.mono ?_
  rintro p (hp | hp)
  · exact .inl (hashed_long hash hl ▸ List.mem_append_right _ hp)
  · exact .inr (hashed_long hash hl' ▸ List.mem_append_right _ hp)

theorem Countable.next (h : Countable l) (hl : 1 < l.length)
    (hinj : Set.InjOn hash {p | p ∈ pairUp (padded l)}) : Countable (nextLevel hash l) := by
  rcases h with h | ⟨k, hk⟩
  · exact .inl ((nodup_pairs h).map_on hinj)
  · cases k with
    | zero =>
        rw [hk] at hl
        exact absurd hl (lt_irrefl _)
    | succ k =>
        refine .inr ⟨k, ?_⟩
        rw [length_nextLevel, hk, Nat.pow_succ]
        omega

omit [LE H] [DecidableLE H] in
theorem Countable.even_or_nodup (h : Countable l) (hl : 1 < l.length) :
    l.length % 2 = 0 ∨ l.Nodup := by
  rcases h with h | ⟨k, hk⟩
  · exact .inr h
  · cases k with
    | zero =>
        rw [hk] at hl
        exact absurd hl (lt_irrefl _)
    | succ k =>
        rw [hk, Nat.pow_succ]
        exact .inl (Nat.mul_mod_left _ _)

omit [LE H] [DecidableLE H] in
/-- Lists are as their images are, where the map is injective. -/
theorem perm_of_map {P : Type} {f : P → H} {xs ys : List P}
    (hinj : Set.InjOn f {p | p ∈ xs ∨ p ∈ ys}) (h : (xs.map f).Perm (ys.map f)) : xs.Perm ys := by
  cases xs with
  | nil =>
      have hlength := h.length_eq
      rw [List.map_nil, List.length_nil, List.length_map] at hlength
      rw [List.eq_nil_of_length_eq_zero hlength.symm]
  | cons x xs =>
      have : Nonempty P := ⟨x⟩
      have hback : ∀ zs : List P, (∀ z ∈ zs, z ∈ x :: xs ∨ z ∈ ys) →
          (zs.map f).map (Function.invFunOn f {p | p ∈ x :: xs ∨ p ∈ ys}) = zs := by
        intro zs hzs
        rw [List.map_map]
        refine (List.map_congr_left fun z hz => ?_).trans (List.map_id zs)
        exact hinj.leftInvOn_invFunOn (hzs z hz)
      have hperm := h.map (Function.invFunOn f {p | p ∈ x :: xs ∨ p ∈ ys})
      rwa [hback _ fun z hz => .inl hz, hback _ fun z hz => .inr hz] at hperm

/-- **The root determines the leaves up to order**, when the levels of one of the trees can
be counted. -/
theorem build_perm (hlength : l.length = l'.length) (hl : Countable l)
    (hfree : CollisionFree hash l l') (h : build hash l = build hash l') : l.Perm l' := by
  induction hn : l.length using Nat.strong_induction_on generalizing l l' with
  | _ n ih =>
      by_cases hlong : 1 < l.length
      · have hlong' : 1 < l'.length := hlength ▸ hlong
        have hinj := hfree.pairs hlong hlong'
        have hnext : (nextLevel hash l).Perm (nextLevel hash l') := by
          refine ih (nextLevel hash l).length ?_ ?_ (hl.next hlong (hinj.mono fun _ hp => .inl hp))
            (hfree.next hlong hlong') ?_ rfl
          · rw [length_nextLevel]
            omega
          · rw [length_nextLevel, length_nextLevel, hlength]
          · rwa [build_long hash hlong, build_long hash hlong'] at h
        exact perm_of_pairs hlength (hl.even_or_nodup hlong) (perm_of_map hinj hnext)
      · rw [build_short hash hlong, build_short hash (hlength ▸ hlong)] at h
        rcases l with _ | ⟨a, _ | ⟨b, rest⟩⟩
        · rw [List.eq_nil_of_length_eq_zero hlength.symm]
        · obtain ⟨a', rfl⟩ := List.length_eq_one_iff.mp hlength.symm
          cases h
          exact .refl _
        · simp at hlong

/-- **The root determines which leaves there are.** -/
theorem build_mem (hlength : l.length = l'.length) (hfree : CollisionFree hash l l')
    (h : build hash l = build hash l') (x : H) : x ∈ l ↔ x ∈ l' := by
  induction hn : l.length using Nat.strong_induction_on generalizing l l' x with
  | _ n ih =>
      by_cases hlong : 1 < l.length
      · have hlong' : 1 < l'.length := hlength ▸ hlong
        have hinj := hfree.pairs hlong hlong'
        have hnext : ∀ y, y ∈ nextLevel hash l ↔ y ∈ nextLevel hash l' := by
          intro y
          refine ih (nextLevel hash l).length ?_ ?_ (hfree.next hlong hlong') ?_ y rfl
          · rw [length_nextLevel]
            omega
          · rw [length_nextLevel, length_nextLevel, hlength]
          · rwa [build_long hash hlong, build_long hash hlong'] at h
        have hpairs : ∀ p, p ∈ pairUp (padded l) ↔ p ∈ pairUp (padded l') := by
          intro p
          constructor
          · intro hp
            obtain ⟨q, hq, heq⟩ := List.mem_map.mp ((hnext _).mp (List.mem_map_of_mem hp))
            exact hinj (.inr hq) (.inl hp) heq ▸ hq
          · intro hp
            obtain ⟨q, hq, heq⟩ := List.mem_map.mp ((hnext _).mpr (List.mem_map_of_mem hp))
            exact hinj (.inl hq) (.inr hp) heq ▸ hq
        rw [mem_iff_pairs, mem_iff_pairs]
        exact exists_congr fun p => and_congr_left fun _ => hpairs p
      · rw [build_short hash hlong, build_short hash (hlength ▸ hlong)] at h
        rcases l with _ | ⟨a, _ | ⟨b, rest⟩⟩
        · rw [List.eq_nil_of_length_eq_zero hlength.symm]
        · obtain ⟨a', rfl⟩ := List.length_eq_one_iff.mp hlength.symm
          cases h
          exact Iff.rfl
        · simp at hlong

end Tree

end Merkle
