import Kingdom.Codec.JsonRoundTrip

/-!
# What was parsed can be printed

The strings of a parsed value are valid UTF-8, so the printer never throws on
one.

* `run_unescape` — resolving escapes does not change what the UTF-8 automaton
  makes of a string.
* `printable_of_parse` — every string of a parsed value is valid UTF-8.
* `printable_set`, `printable_get?` — and stays so when fields are set and read.
* `validUtf8_dumpWith` — what is printed is valid UTF-8 again.
-/

namespace Codec

open Alphabet

namespace Json

variable {α : Type} [Alphabet α]

/-! ## Escapes -/

/-- A symbol that is an ASCII byte. -/
def IsAscii (a : α) : Prop := ∃ b, toByte a = some b ∧ b < 0x80

theorem stepSym_isAscii {q : Utf8} (hq : q.Sane) {a : α} (ha : IsAscii a) :
    q.stepSym a = if q = .start then some .start else none := by
  obtain ⟨b, hb, hlt⟩ := ha
  simp only [Utf8.stepSym, hb]
  exact Utf8.step_ascii hq hlt

/-- A run that starts with ASCII symbols starts between characters, and is there
again after them. -/
theorem run_isAscii {q r : Utf8} (hq : q.Sane) {a : α} {u s : List α}
    (hu : ∀ c ∈ a :: u, IsAscii c) (h : q.run (a :: u ++ s) = some r) :
    q = .start ∧ Utf8.start.run s = some r := by
  have hafter : ∀ (u : List α), (∀ c ∈ u, IsAscii c) → Utf8.start.run (u ++ s) = Utf8.start.run s := by
    intro u hu
    induction u with
    | nil => rfl
    | cons c u ih =>
        rw [List.cons_append, Utf8.run_cons, stepSym_isAscii (q := .start) trivial (hu c (by simp)),
          if_pos rfl]
        exact ih fun d hd => hu d (by simp [hd])
  rw [List.cons_append, Utf8.run_cons, stepSym_isAscii hq (hu a (by simp))] at h
  by_cases hs : q = .start
  · rw [if_pos hs, Option.bind_some, hafter u fun c hc => hu c (by simp [hc])] at h
    exact ⟨hs, h⟩
  · rw [if_neg hs] at h
    cases h

theorem hexValue_ascii {b : UInt8} {n : Nat} (h : hexValue b = some n) : b < 0x80 ∧ n < 16 := by
  unfold hexValue at h
  simp only [UInt8.le_iff_toNat_le, UInt8.toNat_ofNat] at h
  have hlt : b < 0x80 ↔ b.toNat < 128 := UInt8.lt_iff_toNat_lt
  rw [hlt]
  split_ifs at h <;> cases h <;> omega

/-- Four hexadecimal digits are ASCII and make a number below `0x10000`. -/
theorem hex4_some {a b c d : α} {n : Nat} (h : hex4 a b c d = some n) :
    IsAscii a ∧ IsAscii b ∧ IsAscii c ∧ IsAscii d ∧ n < 0x10000 := by
  have hdigit : ∀ {x : α} {v : Nat}, (toByte x).bind hexValue = some v → IsAscii x ∧ v < 16 := by
    intro x v hx
    obtain ⟨y, hy, hv⟩ := Option.bind_eq_some_iff.mp hx
    exact ⟨⟨y, hy, (hexValue_ascii hv).1⟩, (hexValue_ascii hv).2⟩
  simp only [hex4, Option.bind_eq_bind, Option.bind_eq_some_iff] at h
  obtain ⟨va, ha, vb, hb, vc, hc, vd, hd, hn⟩ := h
  obtain ⟨ha, hva⟩ := hdigit (Option.bind_eq_some_iff.mpr ha)
  obtain ⟨hb, hvb⟩ := hdigit (Option.bind_eq_some_iff.mpr hb)
  obtain ⟨hc, hvc⟩ := hdigit (Option.bind_eq_some_iff.mpr hc)
  obtain ⟨hd, hvd⟩ := hdigit (Option.bind_eq_some_iff.mpr hd)
  refine ⟨ha, hb, hc, hd, ?_⟩
  cases hn
  omega

theorem unescapeByte_ascii {b c : UInt8} (h : unescapeByte b = some c) : b < 0x80 ∧ c < 0x80 := by
  unfold unescapeByte at h
  split_ifs at h <;> cases h <;> subst_vars <;> decide

/-- Text that is valid by itself may stand between two characters. -/
theorem run_valid_append {t s : List α} (ht : validUtf8 t = true) :
    Utf8.start.run (t ++ s) = Utf8.start.run s := by
  rw [Utf8.run_append, validUtf8_iff.mp ht]
  rfl

/-- **Resolving escapes does not change what the automaton makes of a string.** -/
theorem run_unescape : ∀ {s t : List α} {q r : Utf8}, q.Sane → q.run s = some r →
    unescape s = some t → q.run t = some r
  | [], t, q, r, _, hrun, h => by
      cases h
      exact hrun
  | a :: s, t, q, r, hq, hrun, h => by
      rw [unescape.eq_def] at h
      simp only at h
      split at h
      · -- an opaque symbol
        obtain ⟨t', ht', rfl⟩ := Option.map_eq_some_iff.mp h
        rw [Utf8.run_cons] at hrun ⊢
        obtain ⟨q', hstep, hrest⟩ := Option.bind_eq_some_iff.mp hrun
        rw [hstep]
        exact run_unescape (Utf8.sane_stepSym hstep) hrest ht'
      · rename_i b hb
        split_ifs at h with h5C h20
        · have ha : IsAscii a := ⟨b, hb, by rw [h5C]; decide⟩
          split at h
          · cases h
          rename_i e s
          split_ifs at h with h75
          · have he : IsAscii e := ⟨0x75, h75, by decide⟩
            split at h
            · rename_i h1 h2 h3 h4 s
              split at h
              · cases h
              rename_i n hn
              obtain ⟨hh1, hh2, hh3, hh4, hlt⟩ := hex4_some hn
              split_ifs at h with hhigh hlow
              · split at h
                · rename_i c u g1 g2 g3 g4 s
                  split at h
                  · cases h
                  rename_i m hm
                  obtain ⟨hg1, hg2, hg3, hg4, -⟩ := hex4_some hm
                  split_ifs at h with hsur
                  obtain ⟨t', ht', rfl⟩ := Option.map_eq_some_iff.mp h
                  have hc : IsAscii c := ⟨0x5C, hsur.1, by decide⟩
                  have hu : IsAscii u := ⟨0x75, hsur.2.1, by decide⟩
                  obtain ⟨rfl, hrest⟩ := run_isAscii (s := s)
                    (u := [e, h1, h2, h3, h4, c, u, g1, g2, g3, g4]) hq
                    (by simp [ha, he, hh1, hh2, hh3, hh4, hc, hu, hg1, hg2, hg3, hg4]) hrun
                  rw [run_valid_append (validUtf8_utf8Encode (.inr ⟨by omega, by omega⟩))]
                  exact run_unescape (q := .start) trivial hrest ht'
                · cases h
              · obtain ⟨t', ht', rfl⟩ := Option.map_eq_some_iff.mp h
                obtain ⟨rfl, hrest⟩ := run_isAscii (s := s) (u := [e, h1, h2, h3, h4]) hq
                  (by simp [ha, he, hh1, hh2, hh3, hh4]) hrun
                have hscalar : IsScalar n := by
                  unfold IsScalar
                  omega
                rw [run_valid_append (validUtf8_utf8Encode hscalar)]
                exact run_unescape (q := .start) trivial hrest ht'
            · cases h
          · split at h
            · cases h
            rename_i c hc
            obtain ⟨t', ht', rfl⟩ := Option.map_eq_some_iff.mp h
            obtain ⟨y, hy, hyc⟩ := Option.bind_eq_some_iff.mp hc
            obtain ⟨hylt, hclt⟩ := unescapeByte_ascii hyc
            obtain ⟨rfl, hrest⟩ := run_isAscii (s := s) (u := [e]) hq
              (by simp only [List.mem_cons, List.not_mem_nil, or_false]
                  rintro d (rfl | rfl)
                  · exact ha
                  · exact ⟨y, hy, hylt⟩) hrun
            rw [Utf8.run_cons, stepSym_isAscii (q := .start) trivial ⟨c, by simp, hclt⟩, if_pos rfl]
            exact run_unescape (q := .start) trivial hrest ht'
        · obtain ⟨t', ht', rfl⟩ := Option.map_eq_some_iff.mp h
          rw [Utf8.run_cons] at hrun ⊢
          obtain ⟨q', hstep, hrest⟩ := Option.bind_eq_some_iff.mp hrun
          rw [hstep]
          exact run_unescape (Utf8.sane_stepSym hstep) hrest ht'

/-- A parsed string is valid UTF-8. -/
theorem validUtf8_of_parseString {s t rest : List α} (h : parseString s = some (t, rest)) :
    validUtf8 t = true := by
  unfold parseString at h
  split at h
  · cases h
  split_ifs at h with hvalid
  obtain ⟨t', ht', heq⟩ := Option.map_eq_some_iff.mp h
  cases heq
  exact validUtf8_iff.mpr (run_unescape (q := .start) trivial (validUtf8_iff.mp hvalid) ht')

/-! ## Values -/

theorem printable_insertField {k : Key} {v : Json α} {fs : List (Key × Json α)}
    (hk : validUtf8 k = true) (hv : v.Printable) (h : PrintableFields fs) :
    PrintableFields (insertField k v fs) := by
  refine printableFields_iff.mpr fun p hp => ?_
  rcases mem_insertField hp with rfl | hp
  · exact ⟨hk, hv⟩
  · exact printableFields_iff.mp h p hp

theorem printable_set {j v : Json α} {k : Key} (hj : j.Printable) (hk : validUtf8 k = true)
    (hv : v.Printable) : (j.set k v).Printable := by
  cases j with
  | obj fs => exact printable_insertField hk hv hj
  | _ => exact hj

theorem printable_erase {j : Json α} {k : Key} (hj : j.Printable) : (j.erase k).Printable := by
  cases j with
  | obj fs =>
      exact printableFields_iff.mpr fun p hp =>
        printableFields_iff.mp hj p (List.mem_filter.mp hp).1
  | _ => exact hj

theorem printableElems_iff {xs : List (Json α)} : PrintableElems xs ↔ ∀ x ∈ xs, Printable x := by
  induction xs with
  | nil => simp [PrintableElems]
  | cons x xs ih => simp [PrintableElems, ih]

theorem printable_lookup {fs : List (Key × Json α)} {k : Key} {v : Json α}
    (h : PrintableFields fs) (hv : lookup k fs = some v) : v.Printable := by
  induction fs with
  | nil => cases hv
  | cons p fs ih =>
      obtain ⟨l, u⟩ := p
      simp only [lookup] at hv
      split_ifs at hv
      · cases hv
        exact h.2.1
      · exact ih h.2.2 hv

theorem printable_get? {j v : Json α} {k : Key} (hj : j.Printable) (hv : j.get? k = some v) :
    v.Printable := by
  cases j with
  | obj fs => exact printable_lookup hj hv
  | _ => cases hv

variable [FloatFormat]

theorem printable_ofNumber {t : List UInt8} {j : Json α} (h : ofNumber t = some j) :
    j.Printable := by
  have hfloat : ∀ {j : Json α}, (FloatFormat.canon t).map .float = some j → j.Printable := by
    intro j h
    obtain ⟨u, -, rfl⟩ := Option.map_eq_some_iff.mp h
    trivial
  unfold ofNumber at h
  split at h
  · cases h
  · split_ifs at h
    · exact hfloat h
    · cases h
      trivial
    · exact hfloat h
    · cases h
      trivial
    · exact hfloat h

mutual

theorem printable_parseValue : ∀ {n : Nat} {s : List α} {r : Json α × List α},
    parseValue n s = some r → r.1.Printable
  | 0, _, _, h => by cases h
  | n + 1, s, r, h => by
      rw [parseValue] at h
      split at h
      · cases h
      · split_ifs at h
        · split at h
          · cases h
            trivial
          · obtain ⟨p, hp, rfl⟩ := Option.map_eq_some_iff.mp h
            have hnone : PrintableFields ([] : List (Key × Json α)) := trivial
            exact printable_parseField hnone hp
        · split at h
          · cases h
            trivial
          · split at h
            · cases h
            · rename_i v s' hv
              obtain ⟨p, hp, rfl⟩ := Option.map_eq_some_iff.mp h
              exact ⟨printable_parseValue hv, printable_parseElems hp⟩
        · obtain ⟨p, hp, rfl⟩ := Option.map_eq_some_iff.mp h
          exact validUtf8_of_parseString hp
        · obtain ⟨p, -, rfl⟩ := Option.map_eq_some_iff.mp h
          trivial
        · obtain ⟨p, -, rfl⟩ := Option.map_eq_some_iff.mp h
          trivial
        · obtain ⟨p, -, rfl⟩ := Option.map_eq_some_iff.mp h
          trivial
        · obtain ⟨v, hv, rfl⟩ := Option.map_eq_some_iff.mp h
          exact printable_ofNumber hv

theorem printable_parseElems : ∀ {n : Nat} {s : List α} {r : List (Json α) × List α},
    parseElems n s = some r → PrintableElems r.1
  | 0, _, _, h => by cases h
  | n + 1, s, r, h => by
      rw [parseElems] at h
      split at h
      · cases h
        trivial
      · split at h
        · cases h
        · split at h
          · cases h
          · rename_i v s' hv
            obtain ⟨p, hp, rfl⟩ := Option.map_eq_some_iff.mp h
            exact ⟨printable_parseValue hv, printable_parseElems hp⟩

theorem printable_parseField : ∀ {n : Nat} {acc : List (Key × Json α)} {s : List α}
    {r : List (Key × Json α) × List α}, PrintableFields acc → parseField n acc s = some r →
      PrintableFields r.1
  | 0, _, _, _, _, h => by cases h
  | n + 1, acc, s, r, hacc, h => by
      rw [parseField] at h
      split at h
      · cases h
      · rename_i k s' hk
        obtain ⟨u, -, hku⟩ := Option.bind_eq_some_iff.mp hk
        have hvalid := validUtf8_of_parseString hku
        split at h
        · rename_i kb s'' hkb _
          have hkey : validUtf8 kb = true := by
            rw [validUtf8_iff] at hvalid ⊢
            rw [← ofBytes_toBytes hkb, Utf8.run_ofBytes] at hvalid
            exact hvalid
          split at h
          · cases h
          · rename_i v s' hv
            have hacc' := printable_insertField hkey (printable_parseValue hv) hacc
            split at h
            · cases h
              exact hacc'
            · split at h
              · cases h
              · exact printable_parseField hacc' h
        · cases h

end

/-- **What was parsed can be printed.** -/
theorem printable_of_parse {s : List α} {j : Json α} (h : parse s = some j) : j.Printable := by
  unfold parse at h
  split at h
  · rename_i r hr
    split_ifs at h
    cases h
    exact printable_parseValue hr
  · cases h

/-! ## Texts -/

omit [FloatFormat] in
theorem validUtf8_dumpString {s t : List α} (h : dumpString s = some t) : validUtf8 t = true := by
  unfold dumpString at h
  split_ifs at h with hs
  cases h
  have hquote : validUtf8 (ofBytes [0x22] : List α) = true := validUtf8_ascii (by decide +kernel)
  have hesc : validUtf8 (escape s) = true := by
    rw [validUtf8_escape]
    exact hs
  exact validUtf8_append hquote (validUtf8_append hesc hquote)

omit [FloatFormat] in
theorem newline_ascii {w : Option Nat} {d : Nat} : ∀ c ∈ newline w d, c < 0x80 := by
  intro c hc
  unfold newline at hc
  split_ifs at hc
  · rcases List.mem_cons.mp hc with rfl | hc
    · decide
    · rw [List.eq_of_mem_replicate hc]
      decide
  · cases hc

omit [FloatFormat] in
theorem colon_ascii {w : Option Nat} : ∀ c ∈ colon w, c < 0x80 := by
  unfold colon
  split_ifs <;> decide +kernel

omit [FloatFormat] in
theorem dumpInt_ascii {i : Int} : ∀ c ∈ dumpInt i, c < 0x80 := by
  intro c hc
  unfold dumpInt at hc
  split_ifs at hc
  · rcases List.mem_cons.mp hc with rfl | hc
    · decide
    · exact decimal_ascii _ c hc
  · exact decimal_ascii _ c hc

omit [FloatFormat] in
theorem isNumChar_ascii {b : UInt8} (h : isNumChar b = true) : b < 0x80 := by
  simp only [isNumChar, isDigit, Bool.or_eq_true, decide_eq_true_eq, beq_iff_eq] at h
  rcases h with ((((⟨-, h⟩ | rfl) | rfl) | rfl) | rfl) | rfl
  · exact UInt8.lt_of_le_of_lt h (by decide)
  all_goals decide

omit [FloatFormat] in
/-- The text before the first part, and after the last. -/
theorem validUtf8_open {b : UInt8} (hb : b < 0x80) (w : Option Nat) (d : Nat) :
    validUtf8 (ofBytes (b :: newline w d) : List α) = true :=
  validUtf8_ascii (List.forall_mem_cons.mpr ⟨hb, newline_ascii⟩)

omit [FloatFormat] in
theorem validUtf8_close {b : UInt8} (hb : b < 0x80) (w : Option Nat) (d : Nat) :
    validUtf8 (ofBytes (newline w d ++ [b]) : List α) = true :=
  validUtf8_ascii (List.forall_mem_append.mpr ⟨newline_ascii, by simpa using hb⟩)

omit [FloatFormat] in
/-- The text before the value of a field. -/
theorem validUtf8_field {b : UInt8} (hb : b < 0x80) (w : Option Nat) (d : Nat) {k s : List UInt8}
    (h : dumpString k = some s) :
    validUtf8 (ofBytes (b :: newline w d ++ s ++ colon w) : List α) = true := by
  have hkey : validUtf8 (ofBytes s : List α) = true := by
    have := validUtf8_dumpString h
    rw [validUtf8_iff] at this ⊢
    rw [Utf8.run_ofBytes]
    exact this
  rw [ofBytes_append, ofBytes_append]
  exact validUtf8_append (validUtf8_append (validUtf8_open hb w d) hkey)
    (validUtf8_ascii colon_ascii)

mutual

/-- **What is printed is valid UTF-8.** -/
theorem validUtf8_dumpWith {w : Option Nat} {d : Nat} : ∀ {j : Json α} {t : List α},
    dumpWith w d j = some t → j.WF → validUtf8 t = true
  | .null, _, h, _ => by
      cases h
      exact validUtf8_ascii (by decide +kernel)
  | .bool true, _, h, _ => by
      cases h
      exact validUtf8_ascii (by decide +kernel)
  | .bool false, _, h, _ => by
      cases h
      exact validUtf8_ascii (by decide +kernel)
  | .unsigned n, _, h, _ => by
      cases h
      exact validUtf8_ascii (decimal_ascii _)
  | .integer i, _, h, _ => by
      cases h
      exact validUtf8_ascii dumpInt_ascii
  | .float u, _, h, hwf => by
      cases h
      have hnum := (FloatFormat.canon_float hwf).2
      exact validUtf8_ascii fun b hb => isNumChar_ascii (List.all_eq_true.mp hnum b hb)
  | .str _, _, h, _ => validUtf8_dumpString h
  | .arr [], _, h, _ => by
      cases h
      exact validUtf8_ascii (by decide +kernel)
  | .arr (x :: xs), _, h, hwf => by
      simp only [dumpWith, Option.bind_eq_bind, Option.bind_eq_some_iff, Option.some.injEq] at h
      obtain ⟨a, ha, b, hb, rfl⟩ := h
      exact validUtf8_append (validUtf8_append (validUtf8_open (by decide) _ _)
        (validUtf8_dumpWith ha hwf.1)) (validUtf8_dumpElems hb hwf.2)
  | .obj [], _, h, _ => by
      cases h
      exact validUtf8_ascii (by decide +kernel)
  | .obj ((k, v) :: fs), _, h, hwf => by
      simp only [dumpWith, Option.bind_eq_bind, Option.bind_eq_some_iff, Option.some.injEq] at h
      obtain ⟨s, hs, a, ha, b, hb, rfl⟩ := h
      exact validUtf8_append (validUtf8_append (validUtf8_field (by decide) _ _ hs)
        (validUtf8_dumpWith ha hwf.2.1)) (validUtf8_dumpFields hb hwf.2.2)

theorem validUtf8_dumpElems {w : Option Nat} {d : Nat} : ∀ {xs : List (Json α)} {t : List α},
    dumpElems w d xs = some t → WFElems xs → validUtf8 t = true
  | [], _, h, _ => by
      cases h
      exact validUtf8_close (by decide) w d
  | x :: xs, _, h, hwf => by
      simp only [dumpElems, Option.bind_eq_bind, Option.bind_eq_some_iff, Option.some.injEq] at h
      obtain ⟨a, ha, b, hb, rfl⟩ := h
      exact validUtf8_append (validUtf8_append (validUtf8_open (by decide) _ _)
        (validUtf8_dumpWith ha hwf.1)) (validUtf8_dumpElems hb hwf.2)

theorem validUtf8_dumpFields {w : Option Nat} {d : Nat} :
    ∀ {fs : List (Key × Json α)} {t : List α},
      dumpFields w d fs = some t → WFFields fs → validUtf8 t = true
  | [], _, h, _ => by
      cases h
      exact validUtf8_close (by decide) w d
  | (k, v) :: fs, _, h, hwf => by
      simp only [dumpFields, Option.bind_eq_bind, Option.bind_eq_some_iff, Option.some.injEq] at h
      obtain ⟨s, hs, a, ha, b, hb, rfl⟩ := h
      exact validUtf8_append (validUtf8_append (validUtf8_field (by decide) _ _ hs)
        (validUtf8_dumpWith ha hwf.1)) (validUtf8_dumpFields hb hwf.2)

end

end Json

end Codec
