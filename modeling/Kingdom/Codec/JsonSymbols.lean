import Kingdom.Codec.JsonRoundTrip

/-!
# The symbols of a JSON value

The strings of a parsed value are made of the symbols of its text and of bytes, and
a printed text is made of the symbols of the value and of bytes.

* `All` — every symbol of a string has a property.
* `Over` — every symbol of every string of a value has it.
* `over_parse`, `all_dump` — both directions.
-/

namespace Codec

open Alphabet

variable {α : Type} {P : α → Prop}

/-- Every symbol of the string has the property. -/
def All (P : α → Prop) (s : List α) : Prop := ∀ a ∈ s, P a

@[simp] theorem all_nil : All P [] := fun _ h => by cases h

@[simp] theorem all_cons {a : α} {s : List α} : All P (a :: s) ↔ P a ∧ All P s := List.forall_mem_cons

@[simp] theorem all_append {s t : List α} : All P (s ++ t) ↔ All P s ∧ All P t :=
  List.forall_mem_append

theorem All.mono {s t : List α} (h : All P t) (hst : ∀ a ∈ s, a ∈ t) : All P s :=
  fun a ha => h a (hst a ha)

namespace Json

mutual

/-- Every symbol of every string of the value has the property. -/
def Over (P : α → Prop) : Json α → Prop
  | .str s => All P s
  | .arr xs => OverElems P xs
  | .obj fs => OverFields P fs
  | .null => True
  | .bool _ => True
  | .unsigned _ => True
  | .integer _ => True
  | .float _ => True

def OverElems (P : α → Prop) : List (Json α) → Prop
  | [] => True
  | x :: xs => Over P x ∧ OverElems P xs

def OverFields (P : α → Prop) : List (Key × Json α) → Prop
  | [] => True
  | (_, v) :: fs => Over P v ∧ OverFields P fs

end

theorem overElems_iff {xs : List (Json α)} : OverElems P xs ↔ ∀ x ∈ xs, Over P x := by
  induction xs with
  | nil => simp [OverElems]
  | cons x xs ih => simp [OverElems, ih]

theorem overFields_iff {fs : List (Key × Json α)} : OverFields P fs ↔ ∀ p ∈ fs, Over P p.2 := by
  induction fs with
  | nil => simp [OverFields]
  | cons p fs ih => simp [OverFields, ih]

theorem over_insertField {k : Key} {v : Json α} {fs : List (Key × Json α)} (hv : Over P v)
    (hfs : OverFields P fs) : OverFields P (insertField k v fs) := by
  rw [overFields_iff] at hfs ⊢
  intro p hp
  rcases mem_insertField hp with rfl | hp
  · exact hv
  · exact hfs p hp

theorem over_mkObj {fs : List (String × Json α)} (h : ∀ p ∈ fs, Over P p.2) : Over P (mkObj fs) := by
  rw [mkObj]
  refine overFields_iff.mpr fun p hp => ?_
  obtain ⟨q, hq, rfl⟩ := List.mem_map.mp (mem_ofFields hp)
  exact h q hq

theorem over_lookup {fs : List (Key × Json α)} {k : Key} {v : Json α} (h : OverFields P fs)
    (hv : lookup k fs = some v) : Over P v := by
  induction fs with
  | nil => cases hv
  | cons p fs ih =>
      obtain ⟨l, u⟩ := p
      simp only [lookup] at hv
      split_ifs at hv
      · cases hv
        exact h.1
      · exact ih h.2 hv

theorem over_get? {j v : Json α} {k : Key} (hj : Over P j) (hv : j.get? k = some v) : Over P v := by
  cases j with
  | obj fs => exact over_lookup hj hv
  | _ => cases hv

/-! ## Printing -/

section Symbols

variable [Alphabet α] (hbyte : ∀ b : UInt8, P (ofByte b))

include hbyte

theorem all_ofBytes (s : List UInt8) : All P (ofBytes s) := by
  intro a ha
  obtain ⟨b, -, rfl⟩ := List.mem_map.mp ha
  exact hbyte b

theorem all_escape {s : List α} (hs : All P s) : All P (escape s) := by
  intro a ha
  obtain ⟨c, hc, ha⟩ := List.mem_flatMap.mp ha
  unfold escapeSym at ha
  split at ha
  · exact all_ofBytes hbyte _ a ha
  · rw [List.mem_singleton.mp ha]
    exact hs c hc

theorem all_dumpString {s t : List α} (h : dumpString s = some t) (hs : All P s) : All P t := by
  unfold dumpString at h
  split_ifs at h
  cases h
  simp [hbyte, all_escape hbyte hs]

mutual

/-- **A printed text has the symbols of the value.** -/
theorem all_dumpWith {w : Option Nat} {d : Nat} : ∀ {j : Json α} {t : List α},
    dumpWith w d j = some t → Over P j → All P t
  | .null, _, h, _ => by
      cases h
      exact all_ofBytes hbyte _
  | .bool true, _, h, _ => by
      cases h
      exact all_ofBytes hbyte _
  | .bool false, _, h, _ => by
      cases h
      exact all_ofBytes hbyte _
  | .unsigned n, _, h, _ => by
      cases h
      exact all_ofBytes hbyte _
  | .integer i, _, h, _ => by
      cases h
      exact all_ofBytes hbyte _
  | .float u, _, h, _ => by
      cases h
      exact all_ofBytes hbyte _
  | .str _, _, h, hover => all_dumpString hbyte h hover
  | .arr [], _, h, _ => by
      cases h
      exact all_ofBytes hbyte _
  | .arr (x :: xs), _, h, hover => by
      simp only [dumpWith, Option.bind_eq_bind, Option.bind_eq_some_iff, Option.some.injEq] at h
      obtain ⟨a, ha, b, hb, rfl⟩ := h
      rw [all_append, all_append]
      exact ⟨⟨all_ofBytes hbyte _, all_dumpWith ha hover.1⟩, all_dumpElems hb hover.2⟩
  | .obj [], _, h, _ => by
      cases h
      exact all_ofBytes hbyte _
  | .obj ((k, v) :: fs), _, h, hover => by
      simp only [dumpWith, Option.bind_eq_bind, Option.bind_eq_some_iff, Option.some.injEq] at h
      obtain ⟨s, -, a, ha, b, hb, rfl⟩ := h
      rw [all_append, all_append]
      exact ⟨⟨all_ofBytes hbyte _, all_dumpWith ha hover.1⟩, all_dumpFields hb hover.2⟩

theorem all_dumpElems {w : Option Nat} {d : Nat} : ∀ {xs : List (Json α)} {t : List α},
    dumpElems w d xs = some t → OverElems P xs → All P t
  | [], _, h, _ => by
      cases h
      exact all_ofBytes hbyte _
  | x :: xs, _, h, hover => by
      simp only [dumpElems, Option.bind_eq_bind, Option.bind_eq_some_iff, Option.some.injEq] at h
      obtain ⟨a, ha, b, hb, rfl⟩ := h
      rw [all_append, all_append]
      exact ⟨⟨all_ofBytes hbyte _, all_dumpWith ha hover.1⟩, all_dumpElems hb hover.2⟩

theorem all_dumpFields {w : Option Nat} {d : Nat} : ∀ {fs : List (Key × Json α)} {t : List α},
    dumpFields w d fs = some t → OverFields P fs → All P t
  | [], _, h, _ => by
      cases h
      exact all_ofBytes hbyte _
  | (k, v) :: fs, _, h, hover => by
      simp only [dumpFields, Option.bind_eq_bind, Option.bind_eq_some_iff, Option.some.injEq] at h
      obtain ⟨s, -, a, ha, b, hb, rfl⟩ := h
      rw [all_append, all_append]
      exact ⟨⟨all_ofBytes hbyte _, all_dumpWith ha hover.1⟩, all_dumpFields hb hover.2⟩

end

theorem all_dump {j : Json α} {t : List α} (h : j.dump = some t) (hj : Over P j) : All P t :=
  all_dumpWith hbyte h hj

/-! ## Parsing -/

omit hbyte in
theorem all_skipWs {s : List α} (hs : All P s) : All P (skipWs s) :=
  hs.mono fun _ ha => (List.dropWhile_sublist _).subset ha

omit hbyte in
theorem all_expect {b : UInt8} {s r : List α} (h : expect b s = some r) (hs : All P s) : All P r := by
  cases s with
  | nil => cases h
  | cons a s =>
      simp only [expect] at h
      split_ifs at h
      cases h
      exact (all_cons.mp hs).2

omit hbyte in
theorem all_expects {bs : List UInt8} {s r : List α} (h : expects bs s = some r) (hs : All P s) :
    All P r := by
  induction bs generalizing s with
  | nil =>
      cases h
      exact hs
  | cons b bs ih =>
      obtain ⟨u, hu, h⟩ := Option.bind_eq_some_iff.mp h
      exact ih h (all_expect hu hs)

omit hbyte in
theorem all_splitQuote : ∀ {s t r : List α}, splitQuote s = some (t, r) → All P s → All P t ∧ All P r
  | [], _, _, h, _ => by cases h
  | a :: s, t, r, h, hs => by
      rw [all_cons] at hs
      rw [splitQuote.eq_def] at h
      simp only at h
      split_ifs at h with hquote hescape
      · cases h
        exact ⟨all_nil, hs.2⟩
      · split at h
        · cases h
        · rename_i e s
          rw [all_cons] at hs
          obtain ⟨⟨t', r'⟩, hsplit, heq⟩ := Option.map_eq_some_iff.mp h
          cases heq
          obtain ⟨ht, hr⟩ := all_splitQuote hsplit hs.2.2
          exact ⟨all_cons.mpr ⟨hs.1, all_cons.mpr ⟨hs.2.1, ht⟩⟩, hr⟩
      · obtain ⟨⟨t', r'⟩, hsplit, heq⟩ := Option.map_eq_some_iff.mp h
        cases heq
        obtain ⟨ht, hr⟩ := all_splitQuote hsplit hs.2
        exact ⟨all_cons.mpr ⟨hs.1, ht⟩, hr⟩

/-- Resolving escapes adds nothing but bytes. -/
theorem all_unescape : ∀ {s t : List α}, unescape s = some t → All P s → All P t
  | [], _, h, _ => by
      cases h
      exact all_nil
  | a :: s, t, h, hs => by
      rw [all_cons] at hs
      rw [unescape.eq_def] at h
      simp only at h
      split at h
      · -- an opaque symbol
        obtain ⟨t', ht', rfl⟩ := Option.map_eq_some_iff.mp h
        exact all_cons.mpr ⟨hs.1, all_unescape ht' hs.2⟩
      · split_ifs at h with h5C h20
        · split at h
          · cases h
          rename_i e s
          rw [all_cons] at hs
          split_ifs at h with h75
          · split at h
            · rename_i h1 h2 h3 h4 s
              simp only [all_cons] at hs
              split at h
              · cases h
              split_ifs at h with hhigh hlow
              · split at h
                · rename_i c u g1 g2 g3 g4 s
                  simp only [all_cons] at hs
                  split at h
                  · cases h
                  split_ifs at h with hsur
                  obtain ⟨t', ht', rfl⟩ := Option.map_eq_some_iff.mp h
                  exact all_append.mpr ⟨all_ofBytes hbyte _, all_unescape ht' (by tauto)⟩
                · cases h
              · obtain ⟨t', ht', rfl⟩ := Option.map_eq_some_iff.mp h
                exact all_append.mpr ⟨all_ofBytes hbyte _, all_unescape ht' (by tauto)⟩
            · cases h
          · split at h
            · cases h
            obtain ⟨t', ht', rfl⟩ := Option.map_eq_some_iff.mp h
            exact all_cons.mpr ⟨hbyte _, all_unescape ht' hs.2.2⟩
        · obtain ⟨t', ht', rfl⟩ := Option.map_eq_some_iff.mp h
          exact all_cons.mpr ⟨hs.1, all_unescape ht' hs.2⟩

theorem all_parseString {s t r : List α} (h : parseString s = some (t, r)) (hs : All P s) :
    All P t ∧ All P r := by
  unfold parseString at h
  split at h
  · cases h
  rename_i raw rest hsplit
  split_ifs at h
  obtain ⟨t', ht', heq⟩ := Option.map_eq_some_iff.mp h
  cases heq
  obtain ⟨hraw, hrest⟩ := all_splitQuote hsplit hs
  exact ⟨all_unescape hbyte ht' hraw, hrest⟩

omit hbyte in
theorem all_spanNumber {s : List α} (hs : All P s) : All P (spanNumber s).2 := by
  induction s with
  | nil => exact all_nil
  | cons a s ih =>
      simp only [spanNumber]
      split
      · split_ifs
        · exact ih (all_cons.mp hs).2
        · exact hs
      · exact hs

variable [FloatFormat]

omit hbyte [Alphabet α] in
theorem over_ofNumber {u : List UInt8} {j : Json α} (h : ofNumber u = some j) : Over P j := by
  unfold ofNumber at h
  split at h
  · cases h
  · split_ifs at h
    all_goals
      first
      | obtain ⟨v, -, rfl⟩ := Option.map_eq_some_iff.mp h
        trivial
      | cases h
        trivial

omit hbyte

mutual

theorem over_parseValue (hbyte : ∀ b : UInt8, P (ofByte b)) :
    ∀ {n : Nat} {s r : List α} {j : Json α},
    parseValue n s = some (j, r) → All P s → Over P j ∧ All P r
  | 0, _, _, _, h, _ => by cases h
  | n + 1, s, r, j, h, hs => by
      rw [parseValue] at h
      split at h
      · cases h
      · rename_i a s' hskip
        have hcons : All P (a :: s') := hskip ▸ all_skipWs hs
        have hs' := (all_cons.mp hcons).2
        split_ifs at h
        · split at h
          · rename_i u hu
            cases h
            exact ⟨trivial, all_expect hu (all_skipWs hs')⟩
          · obtain ⟨p, hp, heq⟩ := Option.map_eq_some_iff.mp h
            cases heq
            have hnone : OverFields P ([] : List (Key × Json α)) := trivial
            exact over_parseField hbyte hnone hp hs'
        · split at h
          · rename_i u hu
            cases h
            exact ⟨trivial, all_expect hu (all_skipWs hs')⟩
          · split at h
            · cases h
            · rename_i v u hv
              obtain ⟨p, hp, heq⟩ := Option.map_eq_some_iff.mp h
              cases heq
              obtain ⟨hover, hu⟩ := over_parseValue hbyte hv hs'
              obtain ⟨hovers, hr⟩ := over_parseElems hbyte hp hu
              exact ⟨⟨hover, hovers⟩, hr⟩
        · obtain ⟨p, hp, heq⟩ := Option.map_eq_some_iff.mp h
          cases heq
          exact all_parseString hbyte hp hs'
        · obtain ⟨u, hu, heq⟩ := Option.map_eq_some_iff.mp h
          cases heq
          exact ⟨trivial, all_expects hu hs'⟩
        · obtain ⟨u, hu, heq⟩ := Option.map_eq_some_iff.mp h
          cases heq
          exact ⟨trivial, all_expects hu hs'⟩
        · obtain ⟨u, hu, heq⟩ := Option.map_eq_some_iff.mp h
          cases heq
          exact ⟨trivial, all_expects hu hs'⟩
        · obtain ⟨v, hv, heq⟩ := Option.map_eq_some_iff.mp h
          cases heq
          exact ⟨over_ofNumber hv, all_spanNumber hcons⟩

theorem over_parseElems (hbyte : ∀ b : UInt8, P (ofByte b)) :
    ∀ {n : Nat} {s r : List α} {xs : List (Json α)},
    parseElems n s = some (xs, r) → All P s → OverElems P xs ∧ All P r
  | 0, _, _, _, h, _ => by cases h
  | n + 1, s, r, xs, h, hs => by
      rw [parseElems] at h
      split at h
      · rename_i u hu
        cases h
        exact ⟨trivial, all_expect hu (all_skipWs hs)⟩
      · split at h
        · cases h
        · rename_i u hu
          have hu' := all_expect hu (all_skipWs hs)
          split at h
          · cases h
          · rename_i v s' hv
            obtain ⟨p, hp, heq⟩ := Option.map_eq_some_iff.mp h
            cases heq
            obtain ⟨hover, hs'⟩ := over_parseValue hbyte hv hu'
            obtain ⟨hovers, hr⟩ := over_parseElems hbyte hp hs'
            exact ⟨⟨hover, hovers⟩, hr⟩

theorem over_parseField (hbyte : ∀ b : UInt8, P (ofByte b)) :
    ∀ {n : Nat} {acc fs : List (Key × Json α)} {s r : List α},
    OverFields P acc → parseField n acc s = some (fs, r) → All P s → OverFields P fs ∧ All P r
  | 0, _, _, _, _, _, h, _ => by cases h
  | n + 1, acc, fs, s, r, hacc, h, hs => by
      rw [parseField] at h
      split at h
      · cases h
      · rename_i k s₁ hk
        obtain ⟨u, hu, hku⟩ := Option.bind_eq_some_iff.mp hk
        have hs₁ := (all_parseString hbyte hku (all_expect hu (all_skipWs hs))).2
        split at h
        · rename_i kb s₂ _ hs₂
          have hs₂' := all_expect hs₂ (all_skipWs hs₁)
          split at h
          · cases h
          · rename_i v s₃ hv
            obtain ⟨hover, hs₃⟩ := over_parseValue hbyte hv hs₂'
            have hacc' := over_insertField (k := kb) hover hacc
            split at h
            · rename_i u' hu'
              cases h
              exact ⟨hacc', all_expect hu' (all_skipWs hs₃)⟩
            · split at h
              · cases h
              · rename_i u' hu'
                exact over_parseField hbyte hacc' h (all_expect hu' (all_skipWs hs₃))
        · cases h

end

include hbyte in
/-- **A parsed value has the symbols of its text.** -/
theorem over_parse {s : List α} {j : Json α} (h : parse s = some j) (hs : All P s) : Over P j := by
  unfold parse at h
  have hbom : All P (skipBom s) := by
    unfold skipBom
    cases hexpects : expects [0xEF, 0xBB, 0xBF] s with
    | none => exact hs
    | some r => exact all_expects hexpects hs
  split at h
  · rename_i j' rest hvalue
    split_ifs at h
    cases h
    exact (over_parseValue hbyte hvalue hbom).1
  · cases h

end Symbols

end Json

end Codec
