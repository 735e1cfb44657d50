import Kingdom.Codec.Json

/-!
# The tokens of JSON: strings and numbers

What the lexer makes of a printed token, before the grammar is looked at.

* `splitQuote_escape`, `run_escape`, `unescape_escape` — an escaped string ends
  at its own closing quote, is valid UTF-8 exactly when the string is, and
  resolves to the string; `parseString_escape` puts the three together.
* `spanNumber_append`, `ofNumber_decimal`, `ofNumber_dumpInt` — a printed
  number is read as one token with its value.
* `StartsValue`, `skipWs_newline`, `expect_ofByte` — the characters between the
  tokens.
-/

namespace Codec

open Alphabet

namespace Json

/-! ## Hexadecimal digits -/

theorem hexValue_hexDigit {b : UInt8} (h : b < 16) : hexValue (hexDigit b) = some b.toNat := by
  have hall : ∀ n : Fin 16, hexValue (hexDigit (UInt8.ofNat n)) = some n.val := by decide
  have hb : b.toNat < 16 := by simpa [UInt8.lt_iff_toNat_lt] using h
  simpa using hall ⟨b.toNat, hb⟩

theorem hexDigit_plain {b : UInt8} (h : b < 16) :
    hexDigit b ≠ 0x22 ∧ hexDigit b ≠ 0x5C ∧ hexDigit b < 0x80 := by
  unfold hexDigit
  split_ifs <;> grind

/-- The three shapes of an escape: a backslash and a letter, the six characters
of a control character, and the byte itself. -/
theorem escapeByte_cases (b : UInt8) :
    (∃ e, escapeByte b = [0x5C, e] ∧ e ≠ 0x75 ∧ e < 0x80 ∧ unescapeByte e = some b ∧ b < 0x80) ∨
    (escapeByte b = [0x5C, 0x75, 0x30, 0x30, hexDigit (b / 16), hexDigit (b % 16)] ∧ b < 0x20) ∨
    (escapeByte b = [b] ∧ b ≠ 0x22 ∧ b ≠ 0x5C ∧ ¬ b < 0x20) := by
  unfold escapeByte
  split_ifs with h1 h2 h3 h4 h5 h6 h7 h8
  · exact .inl ⟨0x22, by simp [h1, unescapeByte]⟩
  · exact .inl ⟨0x5C, by simp [h2, unescapeByte]⟩
  · exact .inl ⟨0x62, by simp [h3, unescapeByte]⟩
  · exact .inl ⟨0x66, by simp [h4, unescapeByte]⟩
  · exact .inl ⟨0x6E, by simp [h5, unescapeByte]⟩
  · exact .inl ⟨0x72, by simp [h6, unescapeByte]⟩
  · exact .inl ⟨0x74, by simp [h7, unescapeByte]⟩
  · exact .inr (.inl ⟨rfl, h8⟩)
  · exact .inr (.inr ⟨rfl, h1, h2, h8⟩)

theorem escapeByte_ascii {b : UInt8} (hb : b < 0x80) : ∀ c ∈ escapeByte b, c < 0x80 := by
  obtain ⟨e, he, -, he80, -, -⟩ | ⟨he, h20⟩ | ⟨he, -, -, -⟩ := escapeByte_cases b
  · rw [he]
    rintro c hc
    simp only [List.mem_cons, List.not_mem_nil, or_false] at hc
    rcases hc with rfl | rfl
    · decide
    · exact he80
  · have hq := (hexDigit_plain (b := b / 16) (by grind)).2.2
    have hr := (hexDigit_plain (b := b % 16) (by grind)).2.2
    rw [he]
    simp only [List.mem_cons, List.not_mem_nil, or_false]
    rintro c (rfl | rfl | rfl | rfl | rfl | rfl) <;> first | assumption | decide
  · simpa [he] using hb

theorem escapeByte_ne_nil (b : UInt8) : escapeByte b ≠ [] := by
  obtain ⟨e, he, -⟩ | ⟨he, -⟩ | ⟨he, -⟩ := escapeByte_cases b <;> simp [he]

variable {α : Type} [Alphabet α]

/-! ## Escaped strings -/

theorem splitQuote_plain {a : α} (h1 : toByte a ≠ some 0x22) (h2 : toByte a ≠ some 0x5C)
    (r : List α) : splitQuote (a :: r) = (splitQuote r).map fun p => (a :: p.1, p.2) := by
  rw [splitQuote.eq_def]
  simp [h1, h2]

theorem splitQuote_pair (e : α) (r : List α) :
    splitQuote (ofByte 0x5C :: e :: r) =
      (splitQuote r).map fun p => (ofByte 0x5C :: e :: p.1, p.2) := by
  rw [splitQuote.eq_def]
  simp

theorem splitQuote_quote (r : List α) : splitQuote (ofByte 0x22 :: r) = some ([], r) := by
  rw [splitQuote.eq_def]
  simp

theorem escape_cons (a : α) (s : List α) : escape (a :: s) = escapeSym a ++ escape s :=
  List.flatMap_cons ..

/-- An escaped symbol never closes the string. -/
theorem splitQuote_escapeSym (a : α) (r : List α) :
    splitQuote (escapeSym a ++ r) = (splitQuote r).map fun p => (escapeSym a ++ p.1, p.2) := by
  unfold escapeSym
  split
  · rename_i b _
    obtain ⟨e, he, -⟩ | ⟨he, h20⟩ | ⟨he, h1, h2, -⟩ := escapeByte_cases b
    · rw [he]
      exact splitQuote_pair _ r
    · -- the first two characters go together, the four digits are plain
      have hq := hexDigit_plain (b := b / 16) (by grind)
      have hr := hexDigit_plain (b := b % 16) (by grind)
      rw [he]
      simp only [ofBytes_cons, ofBytes_nil, List.cons_append, List.nil_append]
      rw [splitQuote_pair, splitQuote_plain (by simp) (by simp),
        splitQuote_plain (by simp) (by simp), splitQuote_plain (by simp [hq.1]) (by simp [hq.2.1]),
        splitQuote_plain (by simp [hr.1]) (by simp [hr.2.1])]
      simp [Option.map_map, Function.comp_def]
    · rw [he]
      exact splitQuote_plain (by simp [h1]) (by simp [h2]) r
  · rename_i h
    exact splitQuote_plain (by simp [h]) (by simp [h]) r

/-- An escaped string ends at its own closing quote. -/
theorem splitQuote_escape (s rest : List α) :
    splitQuote (escape s ++ ofByte 0x22 :: rest) = some (escape s, rest) := by
  induction s with
  | nil => exact splitQuote_quote rest
  | cons a s ih =>
      rw [escape_cons, List.append_assoc, splitQuote_escapeSym, ih]
      rfl

/-- Escaping a symbol does not change what the UTF-8 automaton makes of it. -/
theorem run_escapeSym {q : Utf8} (hq : q.Sane) (a : α) : q.run (escapeSym a) = q.stepSym a := by
  unfold escapeSym
  split
  · rename_i b hb
    have hstep : q.stepSym a = q.step b := by simp [Utf8.stepSym, hb]
    rw [hstep]
    by_cases h80 : b < 0x80
    · rw [Utf8.step_ascii hq h80]
      obtain ⟨c, cs, hcs⟩ := List.exists_cons_of_ne_nil (escapeByte_ne_nil b)
      have hascii : ∀ d ∈ c :: cs, d < 0x80 := fun d hd => escapeByte_ascii h80 d (by rwa [hcs])
      rw [hcs]
      by_cases hs : q = .start
      · rw [if_pos hs, hs]
        exact Utf8.run_ascii hascii
      · rw [if_neg hs, ofBytes_cons, Utf8.run_cons, Utf8.stepSym_ofByte,
          Utf8.step_ascii hq (hascii c (by simp)), if_neg hs]
        rfl
    · obtain ⟨e, -, -, -, -, hlt⟩ | ⟨-, hlt⟩ | ⟨he, -⟩ := escapeByte_cases b
      · exact absurd hlt h80
      · exact absurd hlt (by grind)
      · rw [he]
        simp [Utf8.run_cons]
  · simp [Utf8.run_cons]

theorem run_escape {q : Utf8} (hq : q.Sane) (s : List α) : q.run (escape s) = q.run s := by
  induction s generalizing q with
  | nil => rfl
  | cons a s ih =>
      rw [escape_cons, Utf8.run_append, run_escapeSym hq, Utf8.run_cons]
      cases hstep : q.stepSym a with
      | none => rfl
      | some r => exact ih (Utf8.sane_stepSym hstep)

theorem validUtf8_escape (s : List α) : validUtf8 (escape s) = validUtf8 s := by
  rw [validUtf8, validUtf8, run_escape (q := .start) trivial]

theorem unescape_plain {a : α} {b : UInt8} (ha : toByte a = some b) (h1 : b ≠ 0x5C)
    (h2 : ¬ b < 0x20) (r : List α) : unescape (a :: r) = (unescape r).map (a :: ·) := by
  rw [unescape.eq_def]
  simp [ha, h1, h2]

theorem unescape_opaque {a : α} (ha : toByte a = none) (r : List α) :
    unescape (a :: r) = (unescape r).map (a :: ·) := by
  rw [unescape.eq_def]
  simp [ha]

theorem unescape_letter {e c : UInt8} (h1 : e ≠ 0x75) (h2 : unescapeByte e = some c)
    (r : List α) :
    unescape (ofByte 0x5C :: ofByte e :: r) = (unescape r).map ((ofByte c : α) :: ·) := by
  rw [unescape.eq_def]
  simp [h1, h2]

theorem unescape_code {h1 h2 h3 h4 : α} {n : Nat} (hn : hex4 h1 h2 h3 h4 = some n)
    (hlow : n < 0xD800) (r : List α) :
    unescape (ofByte 0x5C :: ofByte 0x75 :: h1 :: h2 :: h3 :: h4 :: r) =
      (unescape r).map (ofBytes (utf8Encode n) ++ ·) := by
  rw [unescape.eq_def]
  have hhi : ¬ (0xD800 ≤ n ∧ n < 0xDC00) := by omega
  have hlo : ¬ (0xDC00 ≤ n ∧ n < 0xE000) := by omega
  simp [hn, hhi, hlo]

/-- An escape resolves to the symbol it stands for. -/
theorem unescape_escapeSym (a : α) (r : List α) :
    unescape (escapeSym a ++ r) = (unescape r).map (a :: ·) := by
  unfold escapeSym
  split
  · rename_i b hb
    have ha : ofByte b = a := ofByte_toByte hb
    obtain ⟨e, he, h75, -, hun, -⟩ | ⟨he, h20⟩ | ⟨he, -, h2, h20⟩ := escapeByte_cases b
    · rw [he, ← ha]
      exact unescape_letter h75 hun r
    · have hq := hexValue_hexDigit (b := b / 16) (by grind)
      have hr := hexValue_hexDigit (b := b % 16) (by grind)
      have h0 : hexValue 0x30 = some 0 := by decide
      have hb20 : b.toNat < 0x20 := by simpa [UInt8.lt_iff_toNat_lt] using h20
      have hcode : hex4 (ofByte 0x30 : α) (ofByte 0x30) (ofByte (hexDigit (b / 16)))
          (ofByte (hexDigit (b % 16))) = some b.toNat := by
        simp [hex4, h0, hq, hr, Nat.div_add_mod']
      have henc : utf8Encode b.toNat = [b] := by
        simp [utf8Encode, show b.toNat < 0x80 by omega]
      rw [he]
      simp only [ofBytes_cons, ofBytes_nil, List.cons_append, List.nil_append]
      rw [unescape_code hcode (by omega), henc, ← ha]
      rfl
    · rw [he, ofBytes_cons, ofBytes_nil, ha]
      exact unescape_plain hb h2 h20 r
  · rename_i h
    exact unescape_opaque h r

theorem unescape_escape (s : List α) : unescape (escape s) = some s := by
  induction s with
  | nil => rfl
  | cons a s ih =>
      rw [escape_cons, unescape_escapeSym, ih]
      rfl

/-- **A printed string is read back**, whatever follows its closing quote. -/
theorem parseString_escape {s : List α} (h : validUtf8 s = true) (rest : List α) :
    parseString (escape s ++ ofByte 0x22 :: rest) = some (s, rest) := by
  unfold parseString
  rw [splitQuote_escape]
  simp only [validUtf8_escape, h, if_true, unescape_escape, Option.map_some]

/-! ## Numbers -/

/-- The text that follows does not continue a number token. -/
def NumberEnds (s : List α) : Prop := ∀ a ∈ s.head?, ∀ b, toByte a = some b → isNumChar b = false

theorem numberEnds_nil : NumberEnds ([] : List α) := by simp [NumberEnds]

theorem numberEnds_cons {b : UInt8} (h : isNumChar b = false) (s : List α) :
    NumberEnds (ofByte b :: s : List α) := by
  intro a ha c hc
  simp only [List.head?_cons, Option.mem_def, Option.some.injEq] at ha
  subst ha
  simp only [toByte_ofByte, Option.some.injEq] at hc
  exact hc ▸ h

/-- A printed number is one token. -/
theorem spanNumber_append {t : List UInt8} (ht : t.all isNumChar = true) {rest : List α}
    (hr : NumberEnds rest) : spanNumber (ofBytes t ++ rest) = (t, rest) := by
  induction t with
  | nil =>
      cases rest with
      | nil => rfl
      | cons a r =>
          simp only [ofBytes_nil, List.nil_append, spanNumber]
          split
          · rename_i b hb
            simp [hr a (by simp) b hb]
          · rfl
  | cons b t ih =>
      simp only [List.all_cons, Bool.and_eq_true] at ht
      simp only [ofBytes_cons, List.cons_append, spanNumber, toByte_ofByte, ht.1, if_true,
        ih ht.2]

theorem isNumChar_of_isDigit {b : UInt8} (h : isDigit b = true) : isNumChar b = true := by
  simp [isNumChar, h]

theorem all_isNumChar_decimal (n : Nat) : (decimal n).all isNumChar = true := by
  simp only [List.all_eq_true]
  exact fun b hb => isNumChar_of_isDigit (isDigit_decimal n b hb)

theorem all_isNumChar_dumpInt (i : Int) : (dumpInt i).all isNumChar = true := by
  unfold dumpInt
  split_ifs
  · simp only [List.all_cons, all_isNumChar_decimal, Bool.and_true]
    decide
  · exact all_isNumChar_decimal _

/-- Only zero is written with a leading `0`. -/
theorem decimal_head_zero {n : Nat} (h : (decimal n).head? = some 0x30) : n = 0 := by
  by_contra hn
  exact head_decimal_ne_zero hn h

theorem head_decimal_ne_minus (n : Nat) : (decimal n).head? ≠ some 0x2D := by
  intro h
  have := isDigit_decimal n 0x2D (List.mem_of_mem_head? h)
  simp [isDigit] at this

theorem span_decimal (n : Nat) :
    (decimal n).takeWhile isDigit = decimal n ∧ (decimal n).dropWhile isDigit = [] := by
  simpa using span_digits [] (isDigit_decimal n) (by simp)

theorem decimal_no_leading_zero (n : Nat) :
    ¬ (decimal n = [] ∨ ((decimal n).head? = some 0x30 ∧ (decimal n).length ≠ 1)) := by
  rintro (h | ⟨h, hlen⟩)
  · exact decimal_ne_nil n h
  · rw [decimal_head_zero h] at hlen
    exact hlen rfl

theorem scanNumber_decimal (n : Nat) : scanNumber (decimal n) = some (false, decimal n, false) := by
  have hneg : ((decimal n).head? == some 0x2D) = false := by
    simpa using head_decimal_ne_minus n
  unfold scanNumber
  simp only [hneg, Bool.false_eq_true, if_false, span_decimal n]
  rw [if_neg (decimal_no_leading_zero n), if_pos trivial]

theorem scanNumber_minus_decimal (n : Nat) :
    scanNumber (0x2D :: decimal n) = some (true, decimal n, false) := by
  unfold scanNumber
  simp only [List.head?_cons, BEq.rfl, if_true, List.tail_cons, span_decimal n]
  rw [if_neg (decimal_no_leading_zero n)]

theorem scanNumber_dumpInt (i : Int) : ∃ r, scanNumber (dumpInt i) = some r := by
  unfold dumpInt
  split_ifs
  · exact ⟨_, scanNumber_minus_decimal _⟩
  · exact ⟨_, scanNumber_decimal _⟩

section Values

variable [FloatFormat]

omit [Alphabet α]

/-- A printed `uint64_t` is read back. -/
theorem ofNumber_decimal (n : UInt64) : (ofNumber (decimal n.toNat) : Option (Json α)) =
    some (.unsigned n) := by
  unfold ofNumber
  rw [scanNumber_decimal]
  simp [digitsValue_decimal, n.toNat_lt]

/-- A printed `int64_t` is read back; a non-negative one comes back unsigned. -/
theorem ofNumber_dumpInt (i : Int64) : (ofNumber (dumpInt i.toInt) : Option (Json α)) =
    some (if i.toInt < 0 then .integer i else .unsigned i.toUInt64) := by
  have hlow := i.le_toInt
  have hhigh := i.toInt_lt
  unfold ofNumber dumpInt
  by_cases hneg : i.toInt < 0
  · have habs : (i.toInt.natAbs : Int) = -i.toInt := by omega
    have hle : i.toInt.natAbs ≤ 2 ^ 63 := by omega
    rw [if_pos hneg, if_pos hneg, scanNumber_minus_decimal]
    simp only [Bool.false_eq_true, if_false, if_true, digitsValue_decimal, hle, habs, neg_neg,
      Int64.ofInt_toInt]
  · have habs : (i.toInt.natAbs : Int) = i.toInt := by omega
    have hlt : i.toInt.natAbs < 2 ^ 64 := by omega
    have hle : 0 ≤ i := by simpa [Int64.le_iff_toInt_le] using hneg
    rw [if_neg hneg, if_neg hneg, scanNumber_decimal]
    simp only [Bool.false_eq_true, if_false, digitsValue_decimal, hlt, if_true, Option.some.injEq,
      Json.unsigned.injEq]
    rw [← UInt64.toNat_inj, UInt64.toNat_ofNat_of_lt' hlt, Int64.toNat_toUInt64_of_le hle,
      ← Int64.toNat_toInt]
    omega

/-- A printed double is read back. -/
theorem ofNumber_float {t : List UInt8} (h : FloatFormat.canon t = some t) :
    (ofNumber t : Option (Json α)) = some (.float t) := by
  obtain ⟨⟨neg, ds, hs⟩, -⟩ := FloatFormat.canon_float h
  unfold ofNumber
  rw [hs]
  simp [h]

end Values

/-! ## Blanks and punctuation -/

/-- A byte that can start the text of a value. -/
def StartsValue (b : UInt8) : Prop :=
  b ≠ 0x5D ∧ b ≠ 0xEF ∧ (b == 0x20 || b == 0x09 || b == 0x0A || b == 0x0D) = false

instance (b : UInt8) : Decidable (StartsValue b) :=
  inferInstanceAs (Decidable (b ≠ 0x5D ∧ _))

theorem startsValue_of_isDigit {b : UInt8} (h : isDigit b = true) : StartsValue b := by
  simp only [isDigit, decide_eq_true_eq] at h
  unfold StartsValue
  refine ⟨by grind, by grind, ?_⟩
  · simp only [Bool.or_eq_false_iff, beq_eq_false_iff_ne]
    grind

/-- Number tokens start with a digit or a minus. -/
theorem scanNumber_head {t : List UInt8} {r : Bool × List UInt8 × Bool}
    (h : scanNumber t = some r) : ∃ b t', t = b :: t' ∧ StartsValue b := by
  cases t with
  | nil => simp [scanNumber] at h
  | cons b t =>
      refine ⟨b, t, rfl, ?_⟩
      by_cases hm : b = 0x2D
      · subst hm
        decide
      · by_cases hd : isDigit b = true
        · exact startsValue_of_isDigit hd
        · simp [scanNumber, hm, hd] at h

theorem decimal_head (n : Nat) : ∃ b t, decimal n = b :: t ∧ StartsValue b :=
  scanNumber_head (scanNumber_decimal n)

theorem dumpInt_head (i : Int) : ∃ b t, dumpInt i = b :: t ∧ StartsValue b := by
  unfold dumpInt
  split_ifs
  · exact ⟨0x2D, _, rfl, by decide⟩
  · exact decimal_head _

theorem length_dumpString {s t : List α} (h : dumpString s = some t) : 2 ≤ t.length := by
  unfold dumpString at h
  split_ifs at h
  cases h
  simp

theorem isWs_ofByte (b : UInt8) :
    isWs (ofByte b : α) = (b == 0x20 || b == 0x09 || b == 0x0A || b == 0x0D) := by
  simp [isWs]

theorem skipWs_cons {b : UInt8}
    (h : (b == 0x20 || b == 0x09 || b == 0x0A || b == 0x0D) = false) (s : List α) :
    skipWs (ofByte b :: s) = ofByte b :: s :=
  List.dropWhile_cons_of_neg (by simp [isWs_ofByte, h])

theorem skipWs_blanks {u : List UInt8}
    (h : ∀ b ∈ u, (b == 0x20 || b == 0x09 || b == 0x0A || b == 0x0D) = true) (s : List α) :
    skipWs (ofBytes u ++ s) = skipWs s := by
  induction u with
  | nil => rfl
  | cons b u ih =>
      have hb : isWs (ofByte b : α) = true := by rw [isWs_ofByte, h b (by simp)]
      rw [ofBytes_cons, List.cons_append, skipWs, List.dropWhile_cons_of_pos hb]
      exact ih fun c hc => h c (by simp [hc])

/-- The line break and the indentation are blanks. -/
theorem skipWs_newline (w : Option Nat) (d : Nat) (s : List α) :
    skipWs (ofBytes (newline w d) ++ s) = skipWs s := by
  refine skipWs_blanks (fun b hb => ?_) s
  unfold newline at hb
  split_ifs at hb
  · rcases List.mem_cons.mp hb with rfl | hb
    · decide
    · rw [(List.mem_replicate.mp hb).2]
      decide
  · cases hb

theorem expect_ofByte (b : UInt8) (s : List α) : expect b (ofByte b :: s) = some s := by
  simp [expect]

theorem expect_ne {b c : UInt8} (h : c ≠ b) (s : List α) : expect b (ofByte c :: s) = none := by
  simp [expect, h]

theorem expects_ofBytes (u : List UInt8) (s : List α) : expects u (ofBytes u ++ s) = some s := by
  induction u with
  | nil => rfl
  | cons b u ih => rw [ofBytes_cons, List.cons_append, expects, expect_ofByte, Option.bind_some, ih]

end Json

end Codec
