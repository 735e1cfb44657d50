import Mathlib.Data.List.Basic

/-!
# Byte strings over an alphabet

A `std::string` is a list of bytes.  Everything in this folder is written for a
list over an **alphabet**: a type of symbols that contains the 256 bytes and may
contain more.  With the bytes alone the lists are ordinary byte strings; a
symbolic attacker model adds symbols for keys and ciphertexts and reuses the
same parsers and printers.

* `Alphabet` — the symbols, the bytes among them, and the symbols that may stand
  inside a text.
* `lit` — the byte string of a string literal.
* `Utf8.step`, `validUtf8` — the UTF-8 automaton of RFC 3629, one byte at a time.
* `utf8Encode` — the bytes of a code point, with `validUtf8_utf8Encode`.
-/

namespace Codec

/-- An alphabet of string symbols: the bytes, and possibly opaque symbols beside
them. -/
class Alphabet (α : Type) where
  /-- The symbol of a byte. -/
  ofByte : UInt8 → α
  /-- The byte a symbol is, when it is one. -/
  toByte : α → Option UInt8
  /-- Opaque symbols that stand for printable ASCII text. -/
  isText : α → Bool
  toByte_ofByte : ∀ b, toByte (ofByte b) = some b
  ofByte_toByte : ∀ {a b}, toByte a = some b → ofByte b = a

instance : Alphabet UInt8 where
  ofByte b := b
  toByte b := some b
  isText _ := false
  toByte_ofByte _ := rfl
  ofByte_toByte h := (Option.some.inj h).symm

open Alphabet

attribute [simp] Alphabet.toByte_ofByte

section Basics

variable {α : Type} [Alphabet α]

@[simp] theorem toByte_uint8 (b : UInt8) : toByte b = some b := rfl

@[simp] theorem ofByte_uint8 (b : UInt8) : (ofByte b : UInt8) = b := rfl

theorem ofByte_injective {b c : UInt8} (h : (ofByte b : α) = ofByte c) : b = c := by
  have := congrArg toByte h
  simpa using this

/-- Bytes as symbols. -/
def ofBytes (s : List UInt8) : List α := s.map ofByte

/-- The bytes of a string that holds nothing else. -/
def toBytes (s : List α) : Option (List UInt8) := s.mapM toByte

@[simp] theorem ofBytes_nil : (ofBytes [] : List α) = [] := rfl

@[simp] theorem ofBytes_cons (b : UInt8) (s : List UInt8) :
    (ofBytes (b :: s) : List α) = ofByte b :: ofBytes s := rfl

@[simp] theorem ofBytes_append (s t : List UInt8) :
    (ofBytes (s ++ t) : List α) = ofBytes s ++ ofBytes t := by
  simp [ofBytes]

@[simp] theorem length_ofBytes (s : List UInt8) : (ofBytes s : List α).length = s.length := by
  simp [ofBytes]

@[simp] theorem ofBytes_uint8 (s : List UInt8) : (ofBytes s : List UInt8) = s :=
  List.map_id s

@[simp] theorem toBytes_ofBytes (s : List UInt8) : toBytes (ofBytes s : List α) = some s := by
  induction s with
  | nil => rfl
  | cons b s ih =>
      rw [toBytes] at ih
      simp [toBytes, List.mapM_cons, ih]

theorem ofBytes_injective {s t : List UInt8} (h : (ofBytes s : List α) = ofBytes t) : s = t := by
  have := congrArg toBytes h
  simpa using this

theorem ofBytes_toBytes {s : List α} {t : List UInt8} (h : toBytes s = some t) :
    ofBytes t = s := by
  induction s generalizing t with
  | nil =>
      cases h
      rfl
  | cons a s ih =>
      rw [toBytes, List.mapM_cons] at h
      cases ha : toByte a with
      | none => simp [ha] at h
      | some b =>
          cases hs : List.mapM toByte s with
          | none => simp [ha, hs] at h
          | some u =>
              simp only [ha, hs, Option.pure_def, Option.bind_eq_bind, Option.bind_some,
                Option.some.injEq] at h
              subst h
              rw [ofBytes_cons, ih hs, ofByte_toByte ha]

end Basics

/-! ## Code points and literals -/

/-- The UTF-8 bytes of a code point. -/
def utf8Encode (n : Nat) : List UInt8 :=
  if n < 0x80 then [UInt8.ofNat n]
  else if n < 0x800 then [UInt8.ofNat (0xC0 + n / 64), UInt8.ofNat (0x80 + n % 64)]
  else if n < 0x10000 then
    [UInt8.ofNat (0xE0 + n / 4096), UInt8.ofNat (0x80 + n / 64 % 64), UInt8.ofNat (0x80 + n % 64)]
  else
    [UInt8.ofNat (0xF0 + n / 262144), UInt8.ofNat (0x80 + n / 4096 % 64),
      UInt8.ofNat (0x80 + n / 64 % 64), UInt8.ofNat (0x80 + n % 64)]

/-- The bytes of a string literal of the source. -/
def bytes (s : String) : List UInt8 := s.toByteArray.data.toList

/-- A string literal of the source over an alphabet. -/
def lit {α : Type} [Alphabet α] (s : String) : List α := ofBytes (bytes s)

@[simp] theorem lit_uint8 (s : String) : (lit s : List UInt8) = bytes s := ofBytes_uint8 _

/-! ## The UTF-8 automaton -/

/-- Where the UTF-8 automaton stands between two bytes. -/
inductive Utf8 where
  /-- Between two characters. -/
  | start
  /-- Inside a character: the next byte lies between `lo` and `hi`, and `more`
  continuation bytes follow it. -/
  | tail (lo hi : UInt8) (more : Nat)
  deriving DecidableEq, Repr

namespace Utf8

/-- One byte of the automaton; `none` when UTF-8 cannot hold it. -/
def step : Utf8 → UInt8 → Option Utf8
  | .start, b =>
      if b < 0x80 then some .start
      else if 0xC2 ≤ b ∧ b ≤ 0xDF then some (.tail 0x80 0xBF 0)
      else if b = 0xE0 then some (.tail 0xA0 0xBF 1)
      else if b = 0xED then some (.tail 0x80 0x9F 1)
      else if 0xE1 ≤ b ∧ b ≤ 0xEF then some (.tail 0x80 0xBF 1)
      else if b = 0xF0 then some (.tail 0x90 0xBF 2)
      else if 0xF1 ≤ b ∧ b ≤ 0xF3 then some (.tail 0x80 0xBF 2)
      else if b = 0xF4 then some (.tail 0x80 0x8F 2)
      else none
  | .tail lo hi 0, b => if lo ≤ b ∧ b ≤ hi then some .start else none
  | .tail lo hi (n + 1), b => if lo ≤ b ∧ b ≤ hi then some (.tail 0x80 0xBF n) else none

/-- A state the automaton can be in: the bytes a pending character still allows
are continuation bytes. -/
def Sane : Utf8 → Prop
  | .start => True
  | .tail lo _ _ => 0x80 ≤ lo

theorem sane_step {q r : Utf8} {b : UInt8} (h : q.step b = some r) : r.Sane := by
  cases q with
  | start =>
      simp only [step] at h
      split_ifs at h <;> cases h <;> simp [Sane]
  | tail lo hi n =>
      cases n with
      | zero =>
          simp only [step] at h
          split_ifs at h
          cases h
          trivial
      | succ n =>
          simp only [step] at h
          split_ifs at h
          cases h
          simp [Sane]

/-- An ASCII byte is accepted between characters and nowhere else. -/
theorem step_ascii {q : Utf8} (hq : q.Sane) {b : UInt8} (hb : b < 0x80) :
    q.step b = if q = .start then some .start else none := by
  cases q with
  | start => simp [step, hb]
  | tail lo hi n =>
      have hlo : ¬ lo ≤ b := by
        simp only [Sane] at hq
        grind
      cases n <;> simp [step, hlo]

/-- One symbol: a byte moves the automaton, a text symbol may stand between two
characters. -/
def stepSym {α : Type} [Alphabet α] (q : Utf8) (a : α) : Option Utf8 :=
  match toByte a with
  | some b => q.step b
  | none => if isText a ∧ q = .start then some .start else none

/-- The automaton over a string. -/
def run {α : Type} [Alphabet α] (q : Utf8) : List α → Option Utf8
  | [] => some q
  | a :: s => (q.stepSym a).bind fun r => r.run s

section Run

variable {α : Type} [Alphabet α]

@[simp] theorem run_nil (q : Utf8) : q.run ([] : List α) = some q := rfl

theorem run_cons (q : Utf8) (a : α) (s : List α) :
    q.run (a :: s) = (q.stepSym a).bind fun r => r.run s := rfl

@[simp] theorem stepSym_ofByte (q : Utf8) (b : UInt8) :
    q.stepSym (ofByte b : α) = q.step b := by
  simp [stepSym]

theorem run_append (q : Utf8) (s t : List α) :
    q.run (s ++ t) = (q.run s).bind fun r => r.run t := by
  induction s generalizing q with
  | nil => simp
  | cons a s ih =>
      rw [List.cons_append, run_cons, run_cons, Option.bind_assoc]
      congr 1
      funext r
      exact ih r

theorem sane_stepSym {q r : Utf8} {a : α} (h : q.stepSym a = some r) : r.Sane := by
  rw [stepSym] at h
  split at h
  · exact sane_step h
  · split_ifs at h
    cases h
    trivial

/-- Bytes run over an alphabet as they run by themselves. -/
theorem run_ofBytes (q : Utf8) (s : List UInt8) : q.run (ofBytes s : List α) = q.run s := by
  induction s generalizing q with
  | nil => rfl
  | cons b s ih =>
      rw [ofBytes_cons, run_cons, run_cons, stepSym_ofByte, show q.stepSym b = q.step b from rfl]
      congr 1
      funext r
      exact ih r

/-- A run of ASCII bytes between characters stays between characters. -/
theorem run_ascii {s : List UInt8} (hs : ∀ b ∈ s, b < 0x80) :
    Utf8.start.run (ofBytes s : List α) = some .start := by
  induction s with
  | nil => rfl
  | cons b s ih =>
      have hb : Utf8.start.step b = some .start := by simp [step, hs b (by simp)]
      rw [ofBytes_cons, run_cons, stepSym_ofByte, hb]
      exact ih fun c hc => hs c (by simp [hc])

end Run

end Utf8

/-- Is the string valid UTF-8? -/
def validUtf8 {α : Type} [Alphabet α] (s : List α) : Bool := Utf8.start.run s == some .start

theorem validUtf8_iff {α : Type} [Alphabet α] {s : List α} :
    validUtf8 s = true ↔ Utf8.start.run s = some .start := by
  simp [validUtf8]

theorem validUtf8_append {α : Type} [Alphabet α] {s t : List α} (hs : validUtf8 s = true)
    (ht : validUtf8 t = true) : validUtf8 (s ++ t) = true := by
  rw [validUtf8_iff] at *
  rw [Utf8.run_append, hs]
  exact ht

theorem validUtf8_ascii {α : Type} [Alphabet α] {s : List UInt8} (hs : ∀ b ∈ s, b < 0x80) :
    validUtf8 (ofBytes s : List α) = true :=
  validUtf8_iff.mpr (Utf8.run_ascii hs)

/-- A code point of Unicode that is not a surrogate. -/
def IsScalar (n : Nat) : Prop := n < 0xD800 ∨ (0xE000 ≤ n ∧ n < 0x110000)

section Bounds

variable {b : UInt8} {n : Nat}

theorem le_ofNat_iff (h : n < 256) : b ≤ UInt8.ofNat n ↔ b.toNat ≤ n := by
  rw [UInt8.le_iff_toNat_le, UInt8.toNat_ofNat_of_lt' h]

theorem ofNat_le_iff (h : n < 256) : UInt8.ofNat n ≤ b ↔ n ≤ b.toNat := by
  rw [UInt8.le_iff_toNat_le, UInt8.toNat_ofNat_of_lt' h]

theorem ofNat_lt_iff (h : n < 256) : UInt8.ofNat n < b ↔ n < b.toNat := by
  rw [UInt8.lt_iff_toNat_lt, UInt8.toNat_ofNat_of_lt' h]

theorem ofNat_eq_iff (h : n < 256) : UInt8.ofNat n = b ↔ n = b.toNat := by
  rw [← UInt8.toNat_inj, UInt8.toNat_ofNat_of_lt' h]

end Bounds

namespace Utf8

/-- A continuation byte inside the bounds closes the character. -/
theorem step_tail_zero {lo hi : UInt8} {n : Nat} (h : n < 256) (h1 : lo.toNat ≤ n)
    (h2 : n ≤ hi.toNat) : (tail lo hi 0).step (UInt8.ofNat n) = some .start := by
  rw [step, if_pos ⟨(le_ofNat_iff h).mpr h1, (ofNat_le_iff h).mpr h2⟩]

/-- A continuation byte inside the bounds leaves one fewer to come. -/
theorem step_tail_succ {lo hi : UInt8} {n m : Nat} (h : n < 256) (h1 : lo.toNat ≤ n)
    (h2 : n ≤ hi.toNat) :
    (tail lo hi (m + 1)).step (UInt8.ofNat n) = some (.tail 0x80 0xBF m) := by
  rw [step, if_pos ⟨(le_ofNat_iff h).mpr h1, (ofNat_le_iff h).mpr h2⟩]

/-- The state after the first byte of a character of three or four bytes. -/
def afterLead (n : Nat) : Utf8 :=
  if n = 0xE0 then .tail 0xA0 0xBF 1
  else if n = 0xED then .tail 0x80 0x9F 1
  else if n < 0xF0 then .tail 0x80 0xBF 1
  else if n = 0xF0 then .tail 0x90 0xBF 2
  else if n = 0xF4 then .tail 0x80 0x8F 2
  else .tail 0x80 0xBF 2

theorem step_lead {n : Nat} (h1 : 0xE0 ≤ n) (h2 : n ≤ 0xF4) :
    start.step (UInt8.ofNat n) = some (afterLead n) := by
  have hn : n < 256 := by omega
  simp only [step, ofNat_lt_iff hn, le_ofNat_iff hn, ofNat_le_iff hn, ofNat_eq_iff hn, afterLead,
    UInt8.toNat_ofNat]
  split_ifs <;> first | rfl | omega

end Utf8

/-- The encoding of a Unicode scalar value is valid UTF-8. -/
theorem validUtf8_utf8Encode {α : Type} [Alphabet α] {n : Nat} (h : IsScalar n) :
    validUtf8 (ofBytes (utf8Encode n) : List α) = true := by
  have hrun : ∀ (q : Utf8) (b : UInt8) (s : List UInt8),
      q.run (b :: s) = (q.step b).bind fun r => r.run s := fun _ _ _ => rfl
  rw [validUtf8_iff, Utf8.run_ofBytes]
  unfold IsScalar at h
  unfold utf8Encode
  split_ifs with h1 h2 h3
  · rw [hrun, Utf8.step_ascii (q := .start) trivial ((ofNat_lt_iff (by omega)).mpr h1), if_pos rfl]
    rfl
  · have hn : 0xC0 + n / 64 < 256 := by omega
    have hlead : Utf8.start.step (UInt8.ofNat (0xC0 + n / 64)) = some (.tail 0x80 0xBF 0) := by
      rw [Utf8.step, if_neg, if_pos]
      · rw [le_ofNat_iff hn, ofNat_le_iff hn]
        simp only [UInt8.toNat_ofNat]
        omega
      · rw [ofNat_lt_iff hn]
        simp only [UInt8.toNat_ofNat]
        omega
    rw [hrun, hlead, Option.bind_some, hrun,
      Utf8.step_tail_zero (by omega) (by simp) (by simp; omega)]
    rfl
  · rw [hrun, Utf8.step_lead (by omega) (by omega), Option.bind_some]
    have hlead : (Utf8.afterLead (0xE0 + n / 4096)).step (UInt8.ofNat (0x80 + n / 64 % 64)) =
        some (.tail 0x80 0xBF 0) := by
      unfold Utf8.afterLead
      split_ifs <;> first
        | omega
        | exact Utf8.step_tail_succ (by omega) (by simp only [UInt8.toNat_ofNat]; omega)
            (by simp only [UInt8.toNat_ofNat]; omega)
    rw [hrun, hlead, Option.bind_some, hrun,
      Utf8.step_tail_zero (by omega) (by simp) (by simp; omega)]
    rfl
  · rw [hrun, Utf8.step_lead (by omega) (by omega), Option.bind_some]
    have hlead : (Utf8.afterLead (0xF0 + n / 262144)).step (UInt8.ofNat (0x80 + n / 4096 % 64)) =
        some (.tail 0x80 0xBF 1) := by
      unfold Utf8.afterLead
      split_ifs <;> first
        | omega
        | exact Utf8.step_tail_succ (by omega) (by simp only [UInt8.toNat_ofNat]; omega)
            (by simp only [UInt8.toNat_ofNat]; omega)
    rw [hrun, hlead, Option.bind_some, hrun,
      Utf8.step_tail_succ (by omega) (by simp) (by simp; omega), Option.bind_some, hrun,
      Utf8.step_tail_zero (by omega) (by simp) (by simp; omega)]
    rfl

/-- The bytes of a character. -/
theorem utf8EncodeChar_eq (c : Char) : String.utf8EncodeChar c = utf8Encode c.toNat := by
  have hc : c.toNat < 0x110000 := by
    rcases c.valid with h | ⟨-, h⟩
    · exact Nat.lt_trans h (by decide)
    · exact h
  rw [String.utf8EncodeChar, utf8Encode, Char.toNat] at *
  generalize c.val.toNat = v at hc
  split_ifs <;> try omega
  · rfl
  · have hlead : v / 64 % 32 = v / 64 := Nat.mod_eq_of_lt (by omega)
    simp only [hlead, Nat.add_comm]
  · have hlead : v / 4096 % 16 = v / 4096 := Nat.mod_eq_of_lt (by omega)
    simp only [hlead, Nat.add_comm]
  · have hlead : v / 262144 % 8 = v / 262144 := Nat.mod_eq_of_lt (by omega)
    simp only [hlead, Nat.add_comm]

/-- A string literal is valid UTF-8. -/
theorem validUtf8_bytes (s : String) : validUtf8 (bytes s) = true := by
  obtain ⟨chars, hchars⟩ := s.isValidUTF8
  rw [bytes, hchars, List.utf8Encode, List.toList_data_toByteArray]
  clear hchars
  induction chars with
  | nil => rfl
  | cons c cs ih =>
      have hscalar : IsScalar c.toNat := by
        rcases c.valid with h | ⟨h1, h2⟩
        · exact .inl h
        · exact .inr ⟨Nat.succ_le_of_lt h1, h2⟩
      rw [List.flatMap_cons, utf8EncodeChar_eq]
      exact validUtf8_append (by simpa using validUtf8_utf8Encode (α := UInt8) hscalar) ih

theorem validUtf8_lit {α : Type} [Alphabet α] (s : String) :
    validUtf8 (lit s : List α) = true := by
  rw [validUtf8, lit, Utf8.run_ofBytes]
  exact validUtf8_bytes s

end Codec
