import Mathlib.Data.List.Chain
import Mathlib.Data.List.Flatten
import Mathlib.Order.Basic

/-!
# Fixed windows and sliding limits

A counter with fixed windows lets the first `n` arrivals of each window through.  A
sliding limit asks for more: no interval shorter than the width of a window may hold
more than `n` of the arrivals that got through.  Times are natural numbers.

* `windows` — the arrivals grouped into windows: one that comes `width` or more after
  the start of the open window starts the next.
* `admitted` — the arrivals a counter lets through.
* `Slides` — the sliding limit.
* `Apart` — what two windows in a row must keep for it.
* `slides_iff` — the sliding limit holds exactly when every two windows in a row keep
  apart: an interval shorter than a window meets no third one.
-/

namespace Limiter

/-- The arrivals `ts` after those of the open window `cur`, which started at `start`. -/
def windows (width : Nat) : Nat → List Nat → List Nat → List (List Nat)
  | _, cur, [] => [cur]
  | start, cur, t :: ts =>
      if start + width ≤ t then cur :: windows width t [t] ts
      else windows width start (cur ++ [t]) ts

/-- The arrivals that get through: the first `n` of each window. -/
def admitted (n : Nat) (ws : List (List Nat)) : List Nat := ws.flatMap (List.take n)

/-- No interval shorter than `width` holds more than `n` of the times. -/
def Slides (width n : Nat) (ts : List Nat) : Prop :=
  ∀ a b, b < a + width → (ts.countP fun t => decide (a ≤ t ∧ t ≤ b)) ≤ n

/-- When the `j`-th arrival of the second window gets through, at most `n - j` of the
first `n` arrivals of the window before it came less than `width` earlier. -/
def Apart (width n : Nat) (w w' : List Nat) : Prop :=
  ∀ j t, (w'.take n)[j]? = some t →
    ((w.take n).countP fun u => decide (t < u + width)) + (j + 1) ≤ n

/-! ## The shape of the windows -/

/-- Each window lies within `width` of its start, and the next one starts after that. -/
def Windowed (width : Nat) : Nat → List (List Nat) → Prop
  | _, [] => True
  | start, w :: ws => w.Pairwise (· ≤ ·) ∧ (∀ t ∈ w, start ≤ t ∧ t < start + width) ∧
      ∃ next, start + width ≤ next ∧ Windowed width next ws

theorem windowed_windows {width : Nat} (hw : 0 < width) {start : Nat} {cur ts : List Nat}
    (hsorted : (cur ++ ts).Pairwise (· ≤ ·)) (hcur : ∀ t ∈ cur, start ≤ t ∧ t < start + width)
    (hts : ∀ t ∈ ts, start ≤ t) : Windowed width start (windows width start cur ts) := by
  induction ts generalizing start cur with
  | nil =>
      rw [List.append_nil] at hsorted
      exact ⟨hsorted, hcur, start + width, le_refl _, trivial⟩
  | cons t ts ih =>
      rw [windows]
      have htail : (t :: ts).Pairwise (· ≤ ·) := (List.pairwise_append.mp hsorted).2.1
      by_cases hnext : start + width ≤ t
      · rw [if_pos hnext]
        refine ⟨(List.pairwise_append.mp hsorted).1, hcur, t, hnext, ih htail ?_ ?_⟩
        · intro u hu
          rw [List.mem_singleton.mp hu]
          omega
        · exact fun u hu => (List.pairwise_cons.mp htail).1 u hu
      · rw [if_neg hnext]
        have hstart : start ≤ t := hts t (List.mem_cons_self ..)
        apply ih
        · simpa using hsorted
        · intro u hu
          rcases List.mem_append.mp hu with hu | hu
          · exact hcur u hu
          · rw [List.mem_singleton.mp hu]
            omega
        · exact fun u hu => hts u (List.mem_cons_of_mem _ hu)

/-- Nothing comes before the start. -/
theorem Windowed.start_le {width start : Nat} {ws : List (List Nat)} (h : Windowed width start ws)
    (n : Nat) : ∀ t ∈ admitted n ws, start ≤ t := by
  induction ws generalizing start with
  | nil =>
      intro t ht
      cases ht
  | cons w ws ih =>
      intro t ht
      obtain ⟨-, hin, next, hnext, hrest⟩ := h
      rcases List.mem_append.mp ht with ht | ht
      · exact (hin t (List.mem_of_mem_take ht)).1
      · have := ih hrest t ht
        omega

/-! ## The sliding limit -/

/-- The last element that satisfies a predicate comes after at least as many elements
as satisfy it before. -/
theorem exists_last {p : Nat → Bool} (l : List Nat) (h : l.countP p ≠ 0) :
    ∃ j t, l[j]? = some t ∧ p t = true ∧ l.countP p ≤ j + 1 := by
  induction l using List.reverseRecOn with
  | nil => simp at h
  | append_singleton l t ih =>
      by_cases ht : p t = true
      · refine ⟨l.length, t, by simp, ht, ?_⟩
        have := List.countP_le_length (p := p) (l := l ++ [t])
        simpa using this
      · rw [List.countP_append, List.countP_singleton, if_neg ht, Nat.add_zero] at h ⊢
        obtain ⟨j, u, hj, hu, hcount⟩ := ih h
        refine ⟨j, u, ?_, hu, hcount⟩
        rw [List.getElem?_append_left (List.getElem?_eq_some_iff.mp hj).1]
        exact hj

theorem countP_take_le {p : Nat → Bool} (n : Nat) (l : List Nat) : (l.take n).countP p ≤ n :=
  List.countP_le_length.trans (List.length_take_le n l)

/-- Two windows in a row, and nothing else, in an interval. -/
theorem Apart.count_le {width n a b : Nat} {w w' : List Nat} (h : Apart width n w w')
    (hab : b < a + width) : ((w.take n).countP fun t => decide (a ≤ t ∧ t ≤ b)) +
      ((w'.take n).countP fun t => decide (a ≤ t ∧ t ≤ b)) ≤ n := by
  by_cases hzero : ((w'.take n).countP fun t => decide (a ≤ t ∧ t ≤ b)) = 0
  · rw [hzero]
    exact countP_take_le n w
  · obtain ⟨j, t, hj, ht, hcount⟩ := exists_last _ hzero
    have hapart := h j t hj
    have hearlier : ((w.take n).countP fun u => decide (a ≤ u ∧ u ≤ b)) ≤
        (w.take n).countP fun u => decide (t < u + width) := by
      apply List.countP_mono_left
      intro u _ hu
      simp only [decide_eq_true_eq] at hu ht ⊢
      omega
    omega

/-- The windows keep the sliding limit when neighbours keep apart. -/
theorem slides_of_apart {width n start : Nat} {ws : List (List Nat)}
    (h : Windowed width start ws) (hchain : ws.IsChain (Apart width n)) :
    Slides width n (admitted n ws) := by
  intro a b hab
  induction ws generalizing start with
  | nil => simp [admitted]
  | cons w ws ih =>
      obtain ⟨-, hin, next, hnext, hrest⟩ := h
      cases ws with
      | nil =>
          rw [admitted, List.flatMap_cons, List.flatMap_nil, List.append_nil]
          exact countP_take_le n w
      | cons w' rest =>
          have htail := ih hrest hchain.tail
          obtain ⟨-, hin', next', hnext', hrest'⟩ := hrest
          simp only [admitted, List.flatMap_cons, List.countP_append] at htail ⊢
          by_cases hlater : ((rest.flatMap (List.take n)).countP
              fun t => decide (a ≤ t ∧ t ≤ b)) = 0
          · rw [hlater, Nat.add_zero]
            exact (List.isChain_cons_cons.mp hchain).1.count_le hab
          · -- a third window is met, so the first one ended too early for the interval
            have hnone : ((w.take n).countP fun t => decide (a ≤ t ∧ t ≤ b)) = 0 := by
              obtain ⟨j, t, hj, ht, -⟩ := exists_last _ hlater
              have htime := hrest'.start_le n t (List.mem_of_getElem? hj)
              apply List.countP_eq_zero.mpr
              intro u hu
              have := (hin u (List.mem_of_mem_take hu)).2
              simp only [decide_eq_true_eq] at ht ⊢
              omega
            rw [hnone, Nat.zero_add]
            exact htail

/-- Two windows in a row that keep the sliding limit keep apart. -/
theorem apart_of_slides {width n start next : Nat} {w w' : List Nat}
    (hin : ∀ t ∈ w, start ≤ t ∧ t < start + width) (hnext : start + width ≤ next)
    (hsorted : w'.Pairwise (· ≤ ·)) (hin' : ∀ t ∈ w', next ≤ t ∧ t < next + width)
    (h : Slides width n (w.take n ++ w'.take n)) : Apart width n w w' := by
  intro j t hj
  obtain ⟨hlt, hget⟩ := List.getElem?_eq_some_iff.mp hj
  have ht := hin' t (List.mem_of_mem_take (List.mem_of_getElem? hj))
  have hcount := h (t + 1 - width) t (by omega)
  rw [List.countP_append] at hcount
  have hearlier : ((w.take n).countP fun u => decide (t < u + width)) ≤
      (w.take n).countP fun u => decide (t + 1 - width ≤ u ∧ u ≤ t) := by
    apply List.countP_mono_left
    intro u hu hclose
    have := (hin u (List.mem_of_mem_take hu)).2
    simp only [decide_eq_true_eq] at hclose ⊢
    omega
  -- the arrivals of the second window up to the `j`-th are all in the interval
  have hown : j + 1 ≤ (w'.take n).countP fun u => decide (t + 1 - width ≤ u ∧ u ≤ t) := by
    have hall : ((w'.take n).take (j + 1)).countP
        (fun u => decide (t + 1 - width ≤ u ∧ u ≤ t)) = j + 1 := by
      rw [List.countP_eq_length.mpr, List.length_take, Nat.min_eq_left hlt]
      intro u hu
      obtain ⟨i, hi, hiu⟩ := List.mem_iff_getElem.mp hu
      rw [List.getElem_take] at hiu
      rw [List.length_take] at hi
      have hle : u ≤ t := by
        rw [← hiu, ← hget]
        rcases Nat.lt_or_ge i j with hij | hij
        · exact (hsorted.sublist (List.take_sublist _ _)).rel_get_of_lt (by simpa using hij)
        · have : i = j := by omega
          subst this
          exact le_refl _
      have hmem := hin' u (List.mem_of_mem_take (List.mem_of_mem_take hu))
      simp only [decide_eq_true_eq]
      omega
    calc j + 1 = _ := hall.symm
      _ ≤ _ := (List.take_sublist _ _).countP_le
  omega

/-- **A counter with fixed windows keeps the sliding limit exactly when every two
windows in a row keep apart.** -/
theorem slides_iff {width n start : Nat} {ws : List (List Nat)} (h : Windowed width start ws) :
    Slides width n (admitted n ws) ↔ ws.IsChain (Apart width n) := by
  refine ⟨fun hslides => ?_, slides_of_apart h⟩
  induction ws generalizing start with
  | nil => exact List.isChain_nil
  | cons w ws ih =>
      obtain ⟨-, hin, next, hnext, hrest⟩ := h
      have htail : Slides width n (admitted n ws) := by
        intro a b hab
        have := hslides a b hab
        rw [admitted, List.flatMap_cons, List.countP_append] at this
        exact le_trans (Nat.le_add_left _ _) this
      cases ws with
      | nil => exact List.isChain_singleton _
      | cons w' rest =>
          refine List.isChain_cons_cons.mpr ⟨?_, ih hrest htail⟩
          obtain ⟨hsorted', hin', -⟩ := hrest
          refine apart_of_slides hin hnext hsorted' hin' fun a b hab => ?_
          have := hslides a b hab
          rw [admitted, List.flatMap_cons, List.flatMap_cons, ← List.append_assoc,
            List.countP_append] at this
          exact le_trans (Nat.le_add_right _ _) this

end Limiter
