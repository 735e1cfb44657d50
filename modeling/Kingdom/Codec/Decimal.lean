import Mathlib.Data.Nat.Digits.Lemmas
import Kingdom.Codec.Text

/-!
# Decimal numerals

`std::to_string` and the three readers the program uses: the bare digit run,
`std::from_chars` and `std::stoull`.

* `decimal` — the numeral of a number; `digitsValue_decimal` reads it back.
* `fromChars` — digits only, rejecting overflow; `fromCharsFront` takes those at the front.
* `stoull` — leading blanks and a sign are allowed and what follows the digits
  is ignored; `stoull_decimal` says it inverts `decimal`.
-/

namespace Codec

/-- An ASCII digit. -/
def isDigit (b : UInt8) : Bool := decide (0x30 ≤ b ∧ b ≤ 0x39)

/-- The value of a run of ASCII digits. -/
def digitsValue (s : List UInt8) : Nat := Nat.ofDigits 10 (s.reverse.map fun b => b.toNat - 0x30)

/-- `std::to_string` of a non-negative number. -/
def decimal (n : Nat) : List UInt8 :=
  if n = 0 then [0x30] else ((Nat.digits 10 n).map fun d => UInt8.ofNat (0x30 + d)).reverse

theorem isDigit_ofNat {d : Nat} (h : d < 10) : isDigit (UInt8.ofNat (0x30 + d)) = true := by
  have hd : 0x30 + d < 256 := by omega
  simp only [isDigit, decide_eq_true_eq, le_ofNat_iff hd, ofNat_le_iff hd, UInt8.toNat_ofNat]
  omega

theorem isDigit_decimal (n : Nat) : ∀ b ∈ decimal n, isDigit b = true := by
  intro b hb
  unfold decimal at hb
  split_ifs at hb with h
  · simp only [List.mem_singleton] at hb
    subst hb
    decide
  · simp only [List.mem_reverse, List.mem_map] at hb
    obtain ⟨d, hd, rfl⟩ := hb
    exact isDigit_ofNat (Nat.digits_lt_base (by norm_num) hd)

theorem decimal_ne_nil (n : Nat) : decimal n ≠ [] := by
  unfold decimal
  split_ifs with h
  · simp
  · simpa [Nat.digits_eq_nil_iff_eq_zero] using h

/-- A numeral of more than one digit does not start with `0`. -/
theorem head_decimal_ne_zero {n : Nat} (h : n ≠ 0) : (decimal n).head? ≠ some 0x30 := by
  have hne : Nat.digits 10 n ≠ [] := Nat.digits_ne_nil_iff_ne_zero.mpr h
  have hlast := Nat.getLast_digit_ne_zero 10 h
  have hlt : (Nat.digits 10 n).getLast hne < 10 :=
    Nat.digits_lt_base (by norm_num) (List.getLast_mem hne)
  rw [decimal, if_neg h, List.head?_reverse, List.getLast?_map,
    List.getLast?_eq_some_getLast hne]
  simp only [Option.map_some, ne_eq, Option.some.injEq, ofNat_eq_iff
    (show 0x30 + (Nat.digits 10 n).getLast hne < 256 by omega), UInt8.toNat_ofNat]
  omega

theorem digitsValue_decimal (n : Nat) : digitsValue (decimal n) = n := by
  unfold digitsValue decimal
  split_ifs with h
  · subst h
    rfl
  · rw [List.reverse_reverse, List.map_map]
    have hmap : (Nat.digits 10 n).map ((fun b : UInt8 => b.toNat - 0x30) ∘
        fun d => UInt8.ofNat (0x30 + d)) = Nat.digits 10 n := by
      conv_rhs => rw [← List.map_id (Nat.digits 10 n)]
      refine List.map_congr_left fun d hd => ?_
      have hd10 : d < 10 := Nat.digits_lt_base (by norm_num) hd
      rw [Function.comp_apply, UInt8.toNat_ofNat_of_lt' (show 0x30 + d < 2 ^ 8 by omega)]
      simp
    rw [hmap, Nat.ofDigits_digits]

theorem decimal_injective {m n : Nat} (h : decimal m = decimal n) : m = n := by
  have := congrArg digitsValue h
  simpa [digitsValue_decimal] using this

/-- A numeral is ASCII text. -/
theorem decimal_ascii (n : Nat) : ∀ b ∈ decimal n, b < 0x80 := by
  intro b hb
  have := isDigit_decimal n b hb
  simp only [isDigit, decide_eq_true_eq] at this
  grind

/-- The longest run of digits at the front, and what follows it. -/
theorem span_digits {ds : List UInt8} (rest : List UInt8) (hd : ∀ b ∈ ds, isDigit b = true)
    (hr : ∀ b ∈ rest.head?, isDigit b = false) :
    (ds ++ rest).takeWhile isDigit = ds ∧ (ds ++ rest).dropWhile isDigit = rest := by
  induction ds with
  | nil =>
      cases rest with
      | nil => simp
      | cons b r => simp [hr b (by simp)]
  | cons b ds ih =>
      obtain ⟨h1, h2⟩ := ih fun c hc => hd c (by simp [hc])
      have hb : isDigit b = true := hd b (by simp)
      simp [hb, h1, h2]

/-! ## The readers -/

/-- `std::from_chars` into a `uint64_t`, required to consume the whole text. -/
def fromChars (s : List UInt8) : Option UInt64 :=
  if s ≠ [] ∧ s.all isDigit ∧ digitsValue s < 2 ^ 64 then some (UInt64.ofNat (digitsValue s))
  else none

theorem fromChars_decimal {n : Nat} (h : n < 2 ^ 64) :
    fromChars (decimal n) = some (UInt64.ofNat n) := by
  have hall : (decimal n).all isDigit = true := by
    simpa [List.all_eq_true] using isDigit_decimal n
  rw [fromChars, if_pos ⟨decimal_ne_nil n, hall, by rwa [digitsValue_decimal]⟩,
    digitsValue_decimal]

/-- `std::from_chars` into a `uint64_t`: the digits at the front, whatever follows them. -/
def fromCharsFront (s : List UInt8) : Option UInt64 := fromChars (s.takeWhile isDigit)

theorem fromCharsFront_decimal {n : Nat} (h : n < 2 ^ 64) :
    fromCharsFront (decimal n) = some (UInt64.ofNat n) := by
  have htake : (decimal n).takeWhile isDigit = decimal n := by
    simpa using (span_digits [] (isDigit_decimal n) (by simp)).1
  rw [fromCharsFront, htake, fromChars_decimal h]

/-- The blanks `std::stoull` skips: `isspace` in the C locale. -/
def isSpace (b : UInt8) : Bool := b == 0x20 || decide (0x09 ≤ b ∧ b ≤ 0x0D)

/-- `std::stoull` in base ten: blanks, a sign and digits; the rest is ignored.
A negative value wraps around.  `none` stands for the two exceptions, no digits
and out of range. -/
def stoull (s : List UInt8) : Option UInt64 :=
  let t := s.dropWhile isSpace
  let neg := t.head? == some 0x2D
  let u := if t.head? = some 0x2D ∨ t.head? = some 0x2B then t.tail else t
  let ds := u.takeWhile isDigit
  if ds ≠ [] ∧ digitsValue ds < 2 ^ 64 then
    some (if neg then 0 - UInt64.ofNat (digitsValue ds) else UInt64.ofNat (digitsValue ds))
  else none

theorem isSpace_of_isDigit {b : UInt8} (h : isDigit b = true) : isSpace b = false := by
  simp only [isDigit, decide_eq_true_eq] at h
  simp only [isSpace, Bool.or_eq_false_iff, beq_eq_false_iff_ne, decide_eq_false_iff_not]
  grind

/-- **`std::stoull` inverts `std::to_string`.** -/
theorem stoull_decimal (n : UInt64) : stoull (decimal n.toNat) = some n := by
  obtain ⟨b, r, hbr⟩ : ∃ b r, decimal n.toNat = b :: r :=
    List.exists_cons_of_ne_nil (decimal_ne_nil _)
  have hb : isDigit b = true := isDigit_decimal n.toNat b (by simp [hbr])
  have hdrop : (decimal n.toNat).dropWhile isSpace = decimal n.toNat := by
    rw [hbr, List.dropWhile_cons_of_neg (by simp [isSpace_of_isDigit hb])]
  have hminus : b ≠ 0x2D := by rintro rfl; simp [isDigit] at hb
  have hplus : b ≠ 0x2B := by rintro rfl; simp [isDigit] at hb
  have htake : (decimal n.toNat).takeWhile isDigit = decimal n.toNat := by
    simpa using (span_digits [] (isDigit_decimal n.toNat) (by simp)).1
  have hhead : (decimal n.toNat).head? = some b := by rw [hbr]; rfl
  unfold stoull
  simp only [hdrop, hhead, Option.some.injEq, hminus, hplus, or_self, if_false, htake,
    digitsValue_decimal]
  rw [if_pos ⟨decimal_ne_nil _, n.toNat_lt⟩]
  simp [hminus]

end Codec
