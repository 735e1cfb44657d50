import Kingdom.Codec.Text
import Mathlib.Data.List.DropRight
import Mathlib.Tactic.SplitIfs

/-!
# Base64

RFC 4648 base64 in blocks of three bytes, as the library's block functions
produce and read it, and the unpadded URL alphabet on top of it.

* `encodeBlock`, `decodeBlock` — the padded standard alphabet; the decoder reads
  a padding character as six zero bits, so it gives three bytes for every four
  characters.
* `urlEncode`, `urlDecode` — the URL alphabet without padding.
* `urlDecode_urlEncode` — every byte string is read back, for all three residues
  of its length.
* `urlEncode_isUrlChar` — an encoded string is letters, digits, `-` and `_`, so it holds
  no dot.
* `decodeStrict` — the inverse of `encodeBlock`, which takes no other text.
-/

namespace Codec

namespace Base64

/-- The character of a six-bit value. -/
def encodeChar (v : Nat) : UInt8 :=
  if v < 26 then UInt8.ofNat (0x41 + v)
  else if v < 52 then UInt8.ofNat (0x61 + (v - 26))
  else if v < 62 then UInt8.ofNat (0x30 + (v - 52))
  else if v = 62 then 0x2B
  else 0x2F

/-- The six-bit value of a character; the padding character stands for zero. -/
def decodeChar (c : UInt8) : Option Nat :=
  if 0x41 ≤ c ∧ c ≤ 0x5A then some (c.toNat - 0x41)
  else if 0x61 ≤ c ∧ c ≤ 0x7A then some (c.toNat - 0x61 + 26)
  else if 0x30 ≤ c ∧ c ≤ 0x39 then some (c.toNat - 0x30 + 52)
  else if c = 0x2B then some 62
  else if c = 0x2F then some 63
  else if c = 0x3D then some 0
  else none

/-- Padded base64, three bytes at a time. -/
def encodeBlock : List UInt8 → List UInt8
  | [] => []
  | [a] => [encodeChar (a.toNat / 4), encodeChar (a.toNat % 4 * 16), 0x3D, 0x3D]
  | [a, b] =>
      [encodeChar (a.toNat / 4), encodeChar (a.toNat % 4 * 16 + b.toNat / 16),
        encodeChar (b.toNat % 16 * 4), 0x3D]
  | a :: b :: c :: s =>
      encodeChar (a.toNat / 4) :: encodeChar (a.toNat % 4 * 16 + b.toNat / 16) ::
        encodeChar (b.toNat % 16 * 4 + c.toNat / 64) :: encodeChar (c.toNat % 64) :: encodeBlock s

/-- The three bytes of four six-bit values. -/
def joinSextets (v w x y : Nat) : List UInt8 :=
  [UInt8.ofNat (v * 4 + w / 16), UInt8.ofNat (w % 16 * 16 + x / 4), UInt8.ofNat (x % 4 * 64 + y)]

/-- Read padded base64; `none` for a length that is no multiple of four and for
a character outside the alphabet. -/
def decodeBlock : List UInt8 → Option (List UInt8)
  | [] => some []
  | a :: b :: c :: d :: s => do
      let v ← decodeChar a
      let w ← decodeChar b
      let x ← decodeChar c
      let y ← decodeChar d
      let t ← decodeBlock s
      some (joinSextets v w x y ++ t)
  | _ => none

/-- `+` and `/` become `-` and `_`. -/
def toUrlChar (c : UInt8) : UInt8 := if c = 0x2B then 0x2D else if c = 0x2F then 0x5F else c

/-- `-` and `_` become `+` and `/`. -/
def ofUrlChar (c : UInt8) : UInt8 := if c = 0x2D then 0x2B else if c = 0x5F then 0x2F else c

/-- Drop the padding at the end. -/
def stripPadding (s : List UInt8) : List UInt8 := s.rdropWhile (· = 0x3D)

/-- Add padding up to a multiple of four. -/
def addPadding (s : List UInt8) : List UInt8 :=
  s ++ List.replicate ((4 - s.length % 4) % 4) 0x3D

/-- How many of the last two characters are padding. -/
def paddingCount (s : List UInt8) : Nat :=
  (if s.getLast? = some 0x3D then 1 else 0) + (if s.dropLast.getLast? = some 0x3D then 1 else 0)

/-- Base64 in the URL alphabet, without padding. -/
def urlEncode (s : List UInt8) : List UInt8 := stripPadding ((encodeBlock s).map toUrlChar)

/-- Read unpadded base64 in the URL alphabet. -/
def urlDecode (s : List UInt8) : Option (List UInt8) :=
  let padded := addPadding (s.map ofUrlChar)
  match decodeBlock padded with
  | none => none
  | some decoded =>
      if decoded.length < paddingCount padded then none
      else some (decoded.take (decoded.length - paddingCount padded))

/-! ## Characters -/

theorem encodeChar_facts {v : Nat} (h : v < 64) :
    decodeChar (encodeChar v) = some v ∧ ofUrlChar (toUrlChar (encodeChar v)) = encodeChar v ∧
      encodeChar v ≠ 0x3D ∧ toUrlChar (encodeChar v) ≠ 0x3D ∧
      toUrlChar (encodeChar v) ≠ 0x2E := by
  have hall : ∀ n : Fin 64, decodeChar (encodeChar n) = some n.val ∧
      ofUrlChar (toUrlChar (encodeChar n)) = encodeChar n ∧ encodeChar n ≠ 0x3D ∧
      toUrlChar (encodeChar n) ≠ 0x3D ∧ toUrlChar (encodeChar n) ≠ 0x2E := by
    decide
  exact hall ⟨v, h⟩

theorem decodeChar_pad : decodeChar 0x3D = some 0 := by decide

/-- Splitting three bytes into sextets and joining them is the identity. -/
theorem joinSextets_split (a b c : UInt8) :
    joinSextets (a.toNat / 4) (a.toNat % 4 * 16 + b.toNat / 16) (b.toNat % 16 * 4 + c.toNat / 64)
      (c.toNat % 64) = [a, b, c] := by
  have ha := a.toNat_lt
  have hb := b.toNat_lt
  have hc := c.toNat_lt
  unfold joinSextets
  have h1 : a.toNat / 4 * 4 + (a.toNat % 4 * 16 + b.toNat / 16) / 16 = a.toNat := by omega
  have h2 : (a.toNat % 4 * 16 + b.toNat / 16) % 16 * 16 + (b.toNat % 16 * 4 + c.toNat / 64) / 4 =
      b.toNat := by omega
  have h3 : (b.toNat % 16 * 4 + c.toNat / 64) % 4 * 64 + c.toNat % 64 = c.toNat := by omega
  rw [h1, h2, h3, UInt8.ofNat_toNat, UInt8.ofNat_toNat, UInt8.ofNat_toNat]

/-! ## Blocks -/

/-- Every character is one of the 64 that stand for a value. -/
def Plain (s : List UInt8) : Prop := ∀ c ∈ s, ∃ v < 64, c = encodeChar v

/-- Encoded text is plain characters and at most two of padding, and it decodes
to the bytes followed by one zero for each character of padding. -/
theorem encodeBlock_shape (s : List UInt8) :
    ∃ body n, encodeBlock s = body ++ List.replicate n 0x3D ∧ Plain body ∧ n ≤ 2 ∧
      (body.length + n) % 4 = 0 ∧
      decodeBlock (encodeBlock s) = some (s ++ List.replicate n 0) := by
  have hdec : ∀ {v}, v < 64 → decodeChar (encodeChar v) = some v := fun h => (encodeChar_facts h).1
  have hq : ∀ a : UInt8, a.toNat / 4 < 64 := fun a => by have := a.toNat_lt; omega
  have hr : ∀ a b : UInt8, a.toNat % 4 * 16 + b.toNat / 16 < 64 := fun a b => by
    have := b.toNat_lt; omega
  have ht : ∀ b c : UInt8, b.toNat % 16 * 4 + c.toNat / 64 < 64 := fun b c => by
    have := c.toNat_lt; omega
  fun_induction encodeBlock s with
  | case1 => exact ⟨[], 0, rfl, by simp [Plain], by omega, rfl, rfl⟩
  | case2 a =>
      have hr0 := hr a 0
      have hjoin := joinSextets_split a 0 0
      simp only [UInt8.toNat_zero, Nat.zero_div, Nat.add_zero, Nat.zero_mod, Nat.zero_mul]
        at hr0 hjoin
      refine ⟨[encodeChar (a.toNat / 4), encodeChar (a.toNat % 4 * 16)], 2, rfl, ?_, by omega, by simp,
        ?_⟩
      · intro c hc
        simp only [List.mem_cons, List.not_mem_nil, or_false] at hc
        rcases hc with rfl | rfl
        exacts [⟨_, hq a, rfl⟩, ⟨_, hr0, rfl⟩]
      · simp [decodeBlock, hdec (hq a), hdec hr0, decodeChar_pad, hjoin]
  | case3 a b =>
      have ht0 := ht b 0
      have hjoin := joinSextets_split a b 0
      simp only [UInt8.toNat_zero, Nat.zero_div, Nat.add_zero, Nat.zero_mod] at ht0 hjoin
      refine ⟨[encodeChar (a.toNat / 4), encodeChar (a.toNat % 4 * 16 + b.toNat / 16),
        encodeChar (b.toNat % 16 * 4)], 1, rfl, ?_, by omega, by simp, ?_⟩
      · intro c hc
        simp only [List.mem_cons, List.not_mem_nil, or_false] at hc
        rcases hc with rfl | rfl | rfl
        exacts [⟨_, hq a, rfl⟩, ⟨_, hr a b, rfl⟩, ⟨_, ht0, rfl⟩]
      · simp [decodeBlock, hdec (hq a), hdec (hr a b), hdec ht0, decodeChar_pad, hjoin]
  | case4 a b c s ih =>
      obtain ⟨body, n, hs, hbody, hn, hlen, hdecode⟩ := ih
      have hc : c.toNat % 64 < 64 := by omega
      refine ⟨_ :: _ :: _ :: _ :: body, n, by rw [hs]; rfl, ?_, hn, ?_, ?_⟩
      · intro d hd
        simp only [List.mem_cons] at hd
        rcases hd with rfl | rfl | rfl | rfl | hd
        exacts [⟨_, hq a, rfl⟩, ⟨_, hr a b, rfl⟩, ⟨_, ht b c, rfl⟩, ⟨_, hc, rfl⟩, hbody d hd]
      · simp only [List.length_cons]
        omega
      · simp [decodeBlock, hdec (hq a), hdec (hr a b), hdec (ht b c), hdec hc, hdecode,
          joinSextets_split]

theorem Plain.ne_pad {s : List UInt8} (h : Plain s) : ∀ c ∈ s, c ≠ 0x3D := by
  intro c hc
  obtain ⟨v, hv, rfl⟩ := h c hc
  exact (encodeChar_facts hv).2.2.1

theorem Plain.map_ofUrl_toUrl {s : List UInt8} (h : Plain s) :
    (s.map toUrlChar).map ofUrlChar = s := by
  rw [List.map_map]
  refine (List.map_congr_left fun c hc => ?_).trans (List.map_id s)
  obtain ⟨v, hv, rfl⟩ := h c hc
  exact (encodeChar_facts hv).2.1

/-! ## The URL alphabet -/

/-- The padding is cut off whole. -/
theorem stripPadding_append {s : List UInt8} (h : ∀ c ∈ s, c ≠ 0x3D) (n : Nat) :
    stripPadding (s ++ List.replicate n 0x3D) = s := by
  induction n with
  | zero =>
      rw [List.replicate_zero, List.append_nil, stripPadding, List.rdropWhile_eq_self_iff]
      intro hne
      simpa using h _ (List.getLast_mem hne)
  | succ n ih =>
      rw [List.replicate_succ', ← List.append_assoc, stripPadding,
        List.rdropWhile_concat_pos _ _ _ (by simp)]
      exact ih

/-- The padding of an encoded string is counted back. -/
theorem paddingCount_append {s : List UInt8} (h : ∀ c ∈ s, c ≠ 0x3D) {n : Nat} (hn : n ≤ 2) :
    paddingCount (s ++ List.replicate n 0x3D) = n := by
  have hlast : s.getLast? ≠ some 0x3D := fun he => h _ (List.mem_of_getLast? he) rfl
  have hdrop : s.dropLast.getLast? ≠ some 0x3D := fun he =>
    h _ (List.dropLast_subset s (List.mem_of_getLast? he)) rfl
  unfold paddingCount
  match n, hn with
  | 0, _ => simp [hlast, hdrop]
  | 1, _ => simp [hlast]
  | 2, _ =>
      have h2 : s ++ List.replicate 2 0x3D = s ++ [0x3D] ++ [0x3D] := by simp
      rw [h2]
      simp only [List.getLast?_append, List.getLast?_singleton, List.dropLast_concat, if_true,
        Option.some_or]

/-- The URL form of a string is its plain characters in the URL alphabet. -/
theorem urlEncode_shape (s : List UInt8) :
    ∃ body n, encodeBlock s = body ++ List.replicate n 0x3D ∧ Plain body ∧ n ≤ 2 ∧
      (body.length + n) % 4 = 0 ∧
      decodeBlock (encodeBlock s) = some (s ++ List.replicate n 0) ∧
      urlEncode s = body.map toUrlChar := by
  obtain ⟨body, n, hs, hbody, hn, hlen, hdecode⟩ := encodeBlock_shape s
  refine ⟨body, n, hs, hbody, hn, hlen, hdecode, ?_⟩
  have hne : ∀ c ∈ body.map toUrlChar, c ≠ 0x3D := by
    intro c hc
    obtain ⟨d, hd, rfl⟩ := List.mem_map.mp hc
    obtain ⟨v, hv, rfl⟩ := hbody d hd
    exact (encodeChar_facts hv).2.2.2.1
  rw [urlEncode, hs, List.map_append, List.map_replicate, show toUrlChar 0x3D = 0x3D from rfl,
    stripPadding_append hne]

/-- The padding that was cut off is added again. -/
theorem addPadding_urlEncode (s : List UInt8) :
    addPadding ((urlEncode s).map ofUrlChar) = encodeBlock s := by
  obtain ⟨body, n, hs, hbody, hn, hlen, -, henc⟩ := urlEncode_shape s
  have hcount : (4 - body.length % 4) % 4 = n := by omega
  rw [henc, hbody.map_ofUrl_toUrl, addPadding, hcount, hs]

/-- **Every byte string is read back** from its unpadded URL encoding. -/
theorem urlDecode_urlEncode (s : List UInt8) : urlDecode (urlEncode s) = some s := by
  obtain ⟨body, n, hs, hbody, hn, hlen, hdecode, henc⟩ := urlEncode_shape s
  have hcount : paddingCount (encodeBlock s) = n := by
    rw [hs]
    exact paddingCount_append hbody.ne_pad hn
  unfold urlDecode
  simp only [addPadding_urlEncode, hdecode, hcount, List.length_append, List.length_replicate]
  rw [if_neg (by omega), Nat.add_sub_cancel, List.take_left]

/-- A letter, a digit, `-` or `_`. -/
def isUrlChar (c : UInt8) : Bool :=
  decide (0x41 ≤ c ∧ c ≤ 0x5A) || decide (0x61 ≤ c ∧ c ≤ 0x7A) || decide (0x30 ≤ c ∧ c ≤ 0x39) ||
    c == 0x2D || c == 0x5F

/-- The URL form is made of characters of the URL alphabet. -/
theorem urlEncode_isUrlChar (s : List UInt8) : ∀ c ∈ urlEncode s, isUrlChar c = true := by
  obtain ⟨body, n, -, hbody, -, -, -, henc⟩ := urlEncode_shape s
  have hchar : ∀ v : Fin 64, isUrlChar (toUrlChar (encodeChar v)) = true := by decide
  intro c hc
  rw [henc] at hc
  obtain ⟨d, hd, rfl⟩ := List.mem_map.mp hc
  obtain ⟨v, hv, rfl⟩ := hbody d hd
  exact hchar ⟨v, hv⟩

/-- An encoded string holds no dot. -/
theorem urlEncode_no_dot (s : List UInt8) : (0x2E : UInt8) ∉ urlEncode s := by
  intro hdot
  exact absurd (urlEncode_isUrlChar s _ hdot) (by decide)

/-- The URL form is ASCII. -/
theorem urlEncode_ascii (s : List UInt8) : ∀ c ∈ urlEncode s, c < 0x80 := by
  have hascii : ∀ c : UInt8, isUrlChar c = true → c < 0x80 := by
    intro c hc
    simp only [isUrlChar, Bool.or_eq_true, decide_eq_true_eq, beq_iff_eq] at hc
    grind
  intro c hc
  exact hascii c (urlEncode_isUrlChar s c hc)

/-- Four characters for every three bytes, and for what is left of them. -/
theorem length_encodeBlock (s : List UInt8) :
    (encodeBlock s).length = 4 * ((s.length + 2) / 3) := by
  fun_induction encodeBlock s with
  | case1 => rfl
  | case2 a => simp
  | case3 a b => simp
  | case4 a b c s ih =>
      simp only [List.length_cons, ih]
      omega

/-- Three bytes for every four characters. -/
theorem length_decodeBlock {s t : List UInt8} (h : decodeBlock t = some s) :
    s.length = t.length / 4 * 3 := by
  induction t using decodeBlock.induct generalizing s with
  | case1 =>
      cases h
      rfl
  | case2 a b c d t ih =>
      simp only [decodeBlock, Option.bind_eq_bind, Option.bind_eq_some_iff, Option.some.injEq] at h
      obtain ⟨v, -, w, -, x, -, y, -, s', hs', rfl⟩ := h
      rw [List.length_append, ih hs']
      simp only [joinSextets, List.length_cons, List.length_nil]
      omega
  | case3 t h₁ h₂ =>
      unfold decodeBlock at h
      split at h
      · exact absurd rfl h₁
      · exact absurd rfl (h₂ _ _ _ _ _)
      · cases h

/-! ## Strict decoding -/

/-- Read base64 only as it is written. -/
def decodeStrict (t : List UInt8) : Option (List UInt8) :=
  match decodeBlock t with
  | none => none
  | some decoded =>
      let s := decoded.take (decoded.length - paddingCount t)
      if encodeBlock s = t then some s else none

/-- **The strict decoder inverts the encoder**, and takes no other text. -/
theorem decodeStrict_iff {s t : List UInt8} : decodeStrict t = some s ↔ t = encodeBlock s := by
  constructor
  · intro h
    unfold decodeStrict at h
    split at h
    · cases h
    · simp only at h
      split_ifs at h with heq
      cases h
      exact heq.symm
  · rintro rfl
    obtain ⟨body, n, hs, hbody, hn, -, hdecode⟩ := encodeBlock_shape s
    have hcount : paddingCount (encodeBlock s) = n := by
      rw [hs]
      exact paddingCount_append hbody.ne_pad hn
    unfold decodeStrict
    simp only [hdecode, hcount, List.length_append, List.length_replicate, Nat.add_sub_cancel,
      List.take_left, if_true]

/-- Encoded text is ASCII. -/
theorem encodeBlock_ascii (s : List UInt8) : ∀ c ∈ encodeBlock s, c < 0x80 := by
  obtain ⟨body, n, hs, hbody, -⟩ := encodeBlock_shape s
  have hchar : ∀ v : Fin 64, encodeChar v < 0x80 := by decide
  intro c hc
  rw [hs] at hc
  rcases List.mem_append.mp hc with hc | hc
  · obtain ⟨v, hv, rfl⟩ := hbody c hc
    exact hchar ⟨v, hv⟩
  · rw [List.eq_of_mem_replicate hc]
    decide

end Base64

end Codec
