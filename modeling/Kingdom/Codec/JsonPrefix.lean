import Kingdom.Codec.JsonRoundTrip

/-!
# Cut texts

A text that was cut short is not taken for another value: an object ends with
its own closing brace, so no proper prefix of its text is JSON.

* `Closed` — the values whose text ends by itself.
* `parseValue_append` — what the parser has read does not depend on what
  follows.
* `parse_prefix` — no proper prefix of the text of an object parses.
* `parse_append` — a text that goes on after a value reads as that value, or as nothing.
-/

namespace Codec

open Alphabet

namespace Json

variable {α : Type} [Alphabet α]

/-! ## Tokens -/

theorem skipWs_append {s : List α} (h : skipWs s ≠ []) (r : List α) :
    skipWs (s ++ r) = skipWs s ++ r := by
  induction s with
  | nil => exact absurd rfl h
  | cons a s ih =>
      simp only [skipWs, List.cons_append, List.dropWhile_cons] at h ⊢ ih
      split_ifs with hw
      · rw [if_pos hw] at h
        exact ih h
      · rfl

theorem expect_append {b : UInt8} {s t : List α} (h : expect b s = some t) (r : List α) :
    expect b (s ++ r) = some (t ++ r) := by
  cases s with
  | nil => cases h
  | cons a s =>
      simp only [expect, List.cons_append] at h ⊢
      split_ifs at h ⊢
      cases h
      rfl

theorem expect_ne_nil {b : UInt8} {s t : List α} (h : expect b s = some t) : s ≠ [] := by
  rintro rfl
  cases h

theorem expect_skipWs_append {b : UInt8} {s t : List α} (h : expect b (skipWs s) = some t)
    (r : List α) : expect b (skipWs (s ++ r)) = some (t ++ r) := by
  rw [skipWs_append (expect_ne_nil h)]
  exact expect_append h r

theorem expect_none_append {b : UInt8} {s : List α} (hne : skipWs s ≠ [])
    (h : expect b (skipWs s) = none) (r : List α) : expect b (skipWs (s ++ r)) = none := by
  rw [skipWs_append hne]
  obtain ⟨a, t, ht⟩ := List.exists_cons_of_ne_nil hne
  rw [ht] at h ⊢
  simp only [expect, List.cons_append] at h ⊢
  split_ifs at h ⊢
  rfl

theorem expects_append {bs : List UInt8} {s t : List α} (h : expects bs s = some t) (r : List α) :
    expects bs (s ++ r) = some (t ++ r) := by
  induction bs generalizing s with
  | nil =>
      cases h
      rfl
  | cons b bs ih =>
      obtain ⟨u, hu, hrest⟩ := Option.bind_eq_some_iff.mp h
      rw [expects, expect_append hu, Option.bind_some]
      exact ih hrest

theorem splitQuote_append : ∀ {s raw rest : List α}, splitQuote s = some (raw, rest) →
    ∀ r : List α, splitQuote (s ++ r) = some (raw, rest ++ r)
  | [], _, _, h, _ => by cases h
  | a :: s, raw, rest, h, r => by
      rw [splitQuote.eq_def] at h
      simp only at h
      rw [List.cons_append, splitQuote.eq_def]
      simp only
      split_ifs at h ⊢ with h22 h5C
      · cases h
        rfl
      · cases s with
        | nil => cases h
        | cons e s =>
            obtain ⟨p, hp, heq⟩ := Option.map_eq_some_iff.mp h
            cases heq
            simp only [List.cons_append]
            rw [splitQuote_append hp]
            rfl
      · obtain ⟨p, hp, heq⟩ := Option.map_eq_some_iff.mp h
        cases heq
        rw [splitQuote_append hp]
        rfl

theorem parseString_append {s t rest : List α} (h : parseString s = some (t, rest)) (r : List α) :
    parseString (s ++ r) = some (t, rest ++ r) := by
  unfold parseString at h ⊢
  split at h
  · cases h
  rename_i raw rest' hsplit
  rw [splitQuote_append hsplit]
  split_ifs at h with hvalid
  obtain ⟨u, hu, heq⟩ := Option.map_eq_some_iff.mp h
  cases heq
  simp [hvalid, hu]

/-- A number token ends where something else follows. -/
theorem spanNumber_more {s : List α} (h : (spanNumber s).2 ≠ []) (r : List α) :
    spanNumber (s ++ r) = ((spanNumber s).1, (spanNumber s).2 ++ r) := by
  induction s with
  | nil => exact absurd rfl h
  | cons a s ih =>
      rw [List.cons_append, spanNumber, spanNumber]
      rw [spanNumber] at h
      split at h
      · rename_i b hb
        split_ifs at h ⊢ with hnum
        · rw [ih h]
        · simp
      · rename_i hb
        simp

/-! ## Values -/

/-- The text of the value ends by itself; a number goes on while digits follow. -/
def Closed : Json α → Prop
  | .unsigned _ => False
  | .integer _ => False
  | .float _ => False
  | _ => True

variable [FloatFormat]

omit [Alphabet α] in
theorem not_closed_ofNumber {t : List UInt8} {v : Json α} (h : ofNumber t = some v) :
    ¬ Closed v := by
  have hfloat : ∀ {v : Json α}, (FloatFormat.canon t).map .float = some v → ¬ Closed v := by
    intro v h
    obtain ⟨u, -, rfl⟩ := Option.map_eq_some_iff.mp h
    exact id
  unfold ofNumber at h
  split at h
  · cases h
  · split_ifs at h
    · exact hfloat h
    · cases h
      exact id
    · exact hfloat h
    · cases h
      exact id
    · exact hfloat h

theorem parseValue_ne_nil {n : Nat} {s : List α} {x : Json α × List α}
    (h : parseValue n s = some x) : skipWs s ≠ [] := by
  intro hnil
  cases n with
  | zero => cases h
  | succ n =>
      rw [parseValue, hnil] at h
      cases h

theorem parseElems_ne_nil {n : Nat} {s : List α} {x : List (Json α) × List α}
    (h : parseElems n s = some x) : skipWs s ≠ [] := by
  intro hnil
  cases n with
  | zero => cases h
  | succ n =>
      rw [parseElems, hnil] at h
      cases h

omit [FloatFormat] in
theorem ne_nil_of_skipWs {s : List α} (h : skipWs s ≠ []) : s ≠ [] := by
  rintro rfl
  exact h rfl

mutual

/-- **What the parser has read does not depend on what follows**, nor on the fuel
that is left. -/
theorem parseValue_append : ∀ {n m : Nat} {s rest : List α} {v : Json α},
    parseValue n s = some (v, rest) → n ≤ m → (rest ≠ [] ∨ Closed v) → ∀ r : List α,
      parseValue m (s ++ r) = some (v, rest ++ r)
  | 0, _, _, _, _, h, _, _, _ => by cases h
  | n + 1, 0, _, _, _, _, hle, _, _ => absurd hle (Nat.not_succ_le_zero n)
  | n + 1, m + 1, s, rest, v, h, hle, hend, r => by
      have hle' : n ≤ m := Nat.le_of_succ_le_succ hle
      rw [parseValue, skipWs_append (parseValue_ne_nil h)]
      rw [parseValue] at h
      split at h
      · cases h
      rename_i a s' hs'
      rw [hs']
      simp only [List.cons_append]
      split_ifs at h ⊢
      · split at h
        · rename_i t ht
          cases h
          rw [expect_skipWs_append ht]
        · rename_i hnone
          obtain ⟨p, hp, heq⟩ := Option.map_eq_some_iff.mp h
          cases heq
          have hne : skipWs s' ≠ [] := by
            intro hnil
            cases n with
            | zero => cases hp
            | succ n =>
                rw [parseField, hnil] at hp
                cases hp
          rw [expect_none_append hne hnone, parseField_append hp hle' r]
          rfl
      · split at h
        · rename_i t ht
          cases h
          rw [expect_skipWs_append ht]
        · rename_i hnone
          split at h
          · cases h
          rename_i v' s'' hv'
          obtain ⟨p, hp, heq⟩ := Option.map_eq_some_iff.mp h
          cases heq
          rw [expect_none_append (parseValue_ne_nil hv') hnone,
            parseValue_append hv' hle' (.inl (ne_nil_of_skipWs (parseElems_ne_nil hp))) r]
          simp only
          rw [parseElems_append hp hle' r]
          rfl
      · obtain ⟨p, hp, heq⟩ := Option.map_eq_some_iff.mp h
        cases heq
        rw [parseString_append hp r]
        rfl
      · obtain ⟨t, ht, heq⟩ := Option.map_eq_some_iff.mp h
        cases heq
        rw [expects_append ht r]
        rfl
      · obtain ⟨t, ht, heq⟩ := Option.map_eq_some_iff.mp h
        cases heq
        rw [expects_append ht r]
        rfl
      · obtain ⟨t, ht, heq⟩ := Option.map_eq_some_iff.mp h
        cases heq
        rw [expects_append ht r]
        rfl
      · change (ofNumber (spanNumber (a :: s')).1).map
          (fun v => (v, (spanNumber (a :: s')).2)) = some (v, rest) at h
        obtain ⟨w, hw, heq⟩ := Option.map_eq_some_iff.mp h
        obtain ⟨rfl, rfl⟩ := Prod.mk.inj heq
        have hrest : (spanNumber (a :: s')).2 ≠ [] :=
          hend.resolve_right (not_closed_ofNumber hw)
        rw [← List.cons_append, spanNumber_more hrest]
        simp only
        rw [hw]
        rfl

theorem parseElems_append : ∀ {n m : Nat} {s rest : List α} {xs : List (Json α)},
    parseElems n s = some (xs, rest) → n ≤ m → ∀ r : List α,
      parseElems m (s ++ r) = some (xs, rest ++ r)
  | 0, _, _, _, _, h, _, _ => by cases h
  | n + 1, 0, _, _, _, _, hle, _ => absurd hle (Nat.not_succ_le_zero n)
  | n + 1, m + 1, s, rest, xs, h, hle, r => by
      have hle' : n ≤ m := Nat.le_of_succ_le_succ hle
      have hne := parseElems_ne_nil h
      rw [parseElems]
      rw [parseElems] at h
      split at h
      · rename_i t ht
        cases h
        rw [expect_skipWs_append ht]
      · rename_i hnone
        rw [expect_none_append hne hnone]
        split at h
        · cases h
        rename_i t ht
        rw [expect_skipWs_append ht]
        split at h
        · cases h
        rename_i v s' hv
        obtain ⟨p, hp, heq⟩ := Option.map_eq_some_iff.mp h
        cases heq
        simp only
        rw [parseValue_append hv hle' (.inl (ne_nil_of_skipWs (parseElems_ne_nil hp))) r]
        simp only
        rw [parseElems_append hp hle' r]
        rfl

theorem parseField_append : ∀ {n m : Nat} {acc fs : List (Key × Json α)} {s rest : List α},
    parseField n acc s = some (fs, rest) → n ≤ m → ∀ r : List α,
      parseField m acc (s ++ r) = some (fs, rest ++ r)
  | 0, _, _, _, _, _, h, _, _ => by cases h
  | n + 1, 0, _, _, _, _, _, hle, _ => absurd hle (Nat.not_succ_le_zero n)
  | n + 1, m + 1, acc, fs, s, rest, h, hle, r => by
      have hle' : n ≤ m := Nat.le_of_succ_le_succ hle
      rw [parseField]
      rw [parseField] at h
      split at h
      · cases h
      rename_i k s' hk
      obtain ⟨u, hu, hku⟩ := Option.bind_eq_some_iff.mp hk
      rw [expect_skipWs_append hu, Option.bind_some, parseString_append hku]
      split at h
      · rename_i kb t hkb ht
        simp only
        rw [hkb, expect_skipWs_append ht]
        split at h
        · cases h
        rename_i v s'' hv
        -- the rest after the value begins with a brace or a comma
        have hne : s'' ≠ [] := by
          rintro rfl
          simp [skipWs, expect] at h
        simp only
        rw [parseValue_append hv hle' (.inl hne) r]
        simp only
        split at h
        · rename_i t' ht'
          cases h
          rw [expect_skipWs_append ht']
        · rename_i hnone
          split at h
          · cases h
          rename_i t' ht'
          rw [expect_none_append (expect_ne_nil ht') hnone, expect_skipWs_append ht']
          exact parseField_append h hle' r
      · cases h

end

/-- **No proper prefix of the text of an object is JSON.** -/
theorem parse_prefix {w : Option Nat} {d : Nat} {fs : List (Key × Json α)} {t s r : List α}
    (h : dumpWith w d (.obj fs) = some t) (hwf : (Json.obj fs).WF) (ht : t = s ++ r)
    (hr : r ≠ []) : parse s = none := by
  by_contra hsome
  obtain ⟨j, hj⟩ := Option.ne_none_iff_exists'.mp hsome
  unfold parse at hj
  split at hj
  · rename_i v rest hv
    split_ifs at hj
    -- the prefix starts with the opening brace
    obtain ⟨t', hbrace⟩ : ∃ t', t = ofByte 0x7B :: t' := by
      cases fs with
      | nil =>
          cases h
          exact ⟨_, rfl⟩
      | cons p fs =>
          obtain ⟨k, v⟩ := p
          simp only [dumpWith, Option.bind_eq_bind, Option.bind_eq_some_iff] at h
          obtain ⟨_, -, _, -, _, -, heq⟩ := h
          cases heq
          exact ⟨_, rfl⟩
    cases s with
    | nil => simp [skipBom, expects, expect, parseValue, skipWs] at hv
    | cons a s =>
        obtain rfl : a = ofByte 0x7B := by
          rw [hbrace] at ht
          exact (List.cons.inj ht).1.symm
        have hbom : skipBom (ofByte 0x7B :: s : List α) = ofByte 0x7B :: s := by
          rw [skipBom, expects, expect_ne (by decide)]
          rfl
        rw [hbom] at hv
        have hclosed : Closed v := by
          rw [parseValue, skipWs_cons (by decide)] at hv
          simp only [toByte_ofByte, if_true] at hv
          split at hv
          · cases hv
            trivial
          · obtain ⟨p, -, heq⟩ := Option.map_eq_some_iff.mp hv
            cases heq
            trivial
        have hsize : (Json.obj fs).size ≤ t.length + 1 := by
          have := size_le_length h hwf
          omega
        have hends : NumberEnds ([] : List α) := numberEnds_nil
        have hfull := parseValue_dumpWith h hwf hsize hends
        have hlen : (ofByte 0x7B :: s).length + 1 ≤ t.length + 1 := by
          rw [ht, List.length_append]
          omega
        have hlong := parseValue_append hv hlen (.inr hclosed) r
        rw [← ht] at hlong
        rw [List.append_nil, hlong] at hfull
        have hnil := (Prod.mk.inj (Option.some.inj hfull)).2
        exact hr (List.append_eq_nil_iff.mp hnil).2
  · cases hj

/-- No value starts with the first byte of a byte order mark. -/
theorem parseValue_bom {n : Nat} {a : α} {s : List α} {x : Json α × List α}
    (h : parseValue n (a :: s) = some x) : Alphabet.toByte a ≠ some 0xEF := by
  intro ha
  cases n with
  | zero => cases h
  | succ n =>
      have hws : skipWs (a :: s) = a :: s := by
        apply List.dropWhile_cons_of_neg
        simp [isWs, ha]
      have hspan : spanNumber (a :: s) = ([], a :: s) := by
        simp [spanNumber, ha, isNumChar, show isDigit 239 = false by decide]
      rw [parseValue, hws] at h
      simp [ha, hspan] at h
      obtain ⟨v, hv, -⟩ := h
      cases hv

/-- **A text that goes on after a value reads as that value, or as nothing.** -/
theorem parse_append {s r : List α} {v v' : Json α} (h : parse s = some v) (hv : Closed v)
    (h' : parse (s ++ r) = some v') : v' = v := by
  unfold parse at h h'
  split at h
  · rename_i u rest hu
    split_ifs at h
    cases h
    have hbom : skipBom (s ++ r) = skipBom s ++ r := by
      unfold skipBom
      cases hs : expects [0xEF, 0xBB, 0xBF] s with
      | some t => rw [expects_append hs]; rfl
      | none =>
          rw [skipBom, hs] at hu
          cases s with
          | nil => cases hu
          | cons a s =>
              have ha := parseValue_bom hu
              simp [expects, expect, ha]
    have hmore := parseValue_append hu (show s.length + 1 ≤ (s ++ r).length + 1 by simp) (.inr hv) r
    rw [hbom, hmore] at h'
    dsimp only at h'
    split_ifs at h'
    exact (Option.some.inj h').symm
  · cases h

end Json

end Codec
