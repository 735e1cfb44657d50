import Kingdom.Server.Jwt
import Mathlib.Data.Int.Basic

/-!
# The base64url functions of `JwtUtils.hh`

`base64UrlEncode` and `base64UrlDecode` as they call the block functions of OpenSSL: with
buffers, with sizes that are an `int`, and with loops over the padding.

* `Evp` — the block functions; `Evp.Rfc4648` says what is relied on.
* `popPadding`, `pushPadding` — the two loops.
* `base64UrlEncode_eq`, `base64UrlDecode_eq` — on inputs of a size that fits they are the
  codec the tokens are modelled with.
* `base64Url_roundTrip` — what was encoded is decoded.
-/

namespace Kds

open Codec

/-! ## The block functions -/

/-- `EVP_EncodeBlock` and `EVP_DecodeBlock`, on an output buffer, an input and its size: the
result, and the buffer after the call. -/
structure Evp where
  encodeBlock : Bytes → Bytes → Int32 → Int32 × Bytes
  decodeBlock : Bytes → Bytes → Int32 → Int32 × Bytes

/-- They implement RFC 4648: on an input and an output of sizes that fit, the start of the
buffer is the output, and the result its size. -/
structure Evp.Rfc4648 (evp : Evp) : Prop where
  encode : ∀ buffer s : Bytes, s.length < 2 ^ 31 →
    (Base64.encodeBlock s).length < 2 ^ 31 → (Base64.encodeBlock s).length ≤ buffer.length →
    ∃ rest, evp.encodeBlock buffer s (Int32.ofNat s.length) =
      (Int32.ofNat (Base64.encodeBlock s).length, Base64.encodeBlock s ++ rest)
  decode : ∀ buffer t s : Bytes, t.length < 2 ^ 31 → Base64.decodeBlock t = some s →
    s.length ≤ buffer.length →
    ∃ rest, evp.decodeBlock buffer t (Int32.ofNat t.length) = (Int32.ofNat s.length, s ++ rest)

/-! ## The loops -/

/-- `while (!encoded.empty() && encoded.back() == '=') encoded.pop_back();` -/
def popPadding (encoded : Bytes) : Bytes :=
  if encoded.getLast? = some 0x3D then popPadding encoded.dropLast else encoded
termination_by encoded.length
decreasing_by
  rename_i h
  cases encoded with
  | nil => cases h
  | cons c s => simp

/-- `while (padded.size() % 4 != 0) padded.push_back('=');` -/
def pushPadding (padded : Bytes) : Bytes :=
  if padded.length % 4 ≠ 0 then pushPadding (padded ++ [0x3D]) else padded
termination_by (4 - padded.length % 4) % 4
decreasing_by
  simp only [List.length_append, List.length_singleton]
  omega

theorem popPadding_eq (s : Bytes) : popPadding s = Base64.stripPadding s := by
  fun_induction popPadding s with
  | case1 s h ih =>
      obtain ⟨t, rfl⟩ := List.getLast?_eq_some_iff.mp h
      rw [ih, List.dropLast_concat, Base64.stripPadding, Base64.stripPadding,
        List.rdropWhile_concat_pos _ _ _ (by simp)]
  | case2 s h =>
      rw [Base64.stripPadding, eq_comm, List.rdropWhile_eq_self_iff]
      intro hne hlast
      rw [decide_eq_true_eq] at hlast
      exact h (by rw [List.getLast?_eq_some_getLast hne, hlast])

theorem pushPadding_eq (s : Bytes) : pushPadding s = Base64.addPadding s := by
  fun_induction pushPadding s with
  | case1 s h ih =>
      have hcount : (4 - s.length % 4) % 4 = (4 - (s.length + 1) % 4) % 4 + 1 := by omega
      rw [ih, Base64.addPadding, Base64.addPadding, List.length_append, List.length_singleton, hcount,
        List.replicate_succ, List.append_assoc]
      rfl
  | case2 s h =>
      have hcount : (4 - s.length % 4) % 4 = 0 := by omega
      rw [Base64.addPadding, hcount, List.replicate_zero, List.append_nil]

/-! ## The functions -/

/-- `resize` -/
def resize (s : Bytes) (n : Nat) : Bytes := s.take n ++ List.replicate (n - s.length) 0

def base64UrlEncode (evp : Evp) (data : Bytes) : Except Exn Bytes :=
  let (encodedSize, encoded) := evp.encodeBlock
    (List.replicate (4 * ((data.length + 2) / 3)) 0) data (Int32.ofNat data.length)
  if encodedSize < 0 then .error (.runtimeError (bytes "failed to base64url-encode JWT data"))
  else .ok (popPadding ((resize encoded encodedSize.toNatClampNeg).map Base64.toUrlChar))

/-- The padding characters among the last two. -/
def countPadding (padded : Bytes) : Nat :=
  (if padded ≠ [] ∧ padded[padded.length - 1]? = some 0x3D then 1 else 0) +
    if 1 < padded.length ∧ padded[padded.length - 2]? = some 0x3D then 1 else 0

def base64UrlDecode (evp : Evp) (encoded : Bytes) : Option Bytes :=
  let padded := pushPadding (encoded.map Base64.ofUrlChar)
  let (decodedSize, decoded) := evp.decodeBlock
    (List.replicate (padded.length / 4 * 3 + 3) 0) padded (Int32.ofNat padded.length)
  if decodedSize < 0 then none
  else
    let padding := countPadding padded
    if decodedSize.toNatClampNeg < padding then none
    else some (resize decoded (decodedSize.toNatClampNeg - padding))

theorem countPadding_eq (s : Bytes) : countPadding s = Base64.paddingCount s := by
  have hlast : (s ≠ [] ∧ s[s.length - 1]? = some 0x3D) ↔ s.getLast? = some 0x3D := by
    rw [List.getLast?_eq_getElem?]
    constructor
    · exact And.right
    · intro h
      refine ⟨?_, h⟩
      rintro rfl
      cases h
  have hsecond : (1 < s.length ∧ s[s.length - 2]? = some 0x3D) ↔
      s.dropLast.getLast? = some 0x3D := by
    rw [List.getLast?_eq_getElem?, List.length_dropLast, List.getElem?_dropLast, Nat.sub_sub]
    by_cases h : 1 < s.length
    · have hlt : s.length - (1 + 1) < s.length - 1 := by omega
      rw [if_pos hlt]
      exact and_iff_right h
    · have hlt : ¬ s.length - (1 + 1) < s.length - 1 := by omega
      rw [if_neg hlt]
      exact iff_of_false (fun h' => h h'.1) (by simp)
  rw [countPadding, Base64.paddingCount, if_congr hlast rfl rfl, if_congr hsecond rfl rfl]

/-! ## The codec of the tokens -/

theorem resize_append (s rest : Bytes) {n : Nat} (hn : n ≤ s.length) :
    resize (s ++ rest) n = s.take n := by
  have hfill : n - (s ++ rest).length = 0 := by
    rw [List.length_append]
    omega
  rw [resize, hfill, List.replicate_zero, List.append_nil, List.take_append_of_le_length hn]

section Codec

variable {evp : Evp}

/-- **The encoder**, on data of a size that fits. -/
theorem base64UrlEncode_eq (h : evp.Rfc4648) {data : Bytes} (hsize : data.length < 2 ^ 30) :
    base64UrlEncode evp data = .ok (Base64.urlEncode data) := by
  have hlength := Base64.length_encodeBlock data
  have hfits : (Base64.encodeBlock data).length < 2 ^ 31 := by omega
  obtain ⟨rest, hcall⟩ := h.encode (List.replicate (4 * ((data.length + 2) / 3)) 0) data (by omega)
    hfits (by rw [List.length_replicate, hlength])
  have hnonneg : ¬ Int32.ofNat (Base64.encodeBlock data).length < 0 :=
    Int32.not_lt.mpr (Int32.zero_le_ofNat_of_lt hfits)
  rw [base64UrlEncode, hcall]
  dsimp only
  rw [if_neg hnonneg, Int32.toNatClampNeg_ofNat_of_lt hfits, resize_append _ _ le_rfl,
    List.take_length, popPadding_eq]
  rfl

/-- **The decoder**, on text that decodes and has a size that fits. -/
theorem base64UrlDecode_eq (h : evp.Rfc4648) {encoded decoded : Bytes}
    (hdecode : Base64.decodeBlock (Base64.addPadding (encoded.map Base64.ofUrlChar)) = some decoded)
    (hsize : (Base64.addPadding (encoded.map Base64.ofUrlChar)).length < 2 ^ 31) :
    base64UrlDecode evp encoded = Base64.urlDecode encoded := by
  have hlength := Base64.length_decodeBlock hdecode
  have hfits : decoded.length < 2 ^ 31 := by omega
  obtain ⟨rest, hcall⟩ := h.decode
    (List.replicate ((Base64.addPadding (encoded.map Base64.ofUrlChar)).length / 4 * 3 + 3) 0) _ _
    hsize hdecode (by rw [List.length_replicate]; omega)
  have hnonneg : ¬ Int32.ofNat decoded.length < 0 :=
    Int32.not_lt.mpr (Int32.zero_le_ofNat_of_lt hfits)
  simp only [base64UrlDecode, Base64.urlDecode, pushPadding_eq, hcall, hdecode]
  rw [if_neg hnonneg, Int32.toNatClampNeg_ofNat_of_lt hfits, countPadding_eq,
    resize_append _ _ (Nat.sub_le ..)]

/-- **The round trip.**  What was encoded is decoded; it is letters, digits, `-` and `_`, so
two inputs have two encodings and none has a dot. -/
theorem base64Url_roundTrip (h : evp.Rfc4648) :
    (∀ x : Bytes, x.length < 2 ^ 30 → ∃ encoded, base64UrlEncode evp x = .ok encoded ∧
      base64UrlDecode evp encoded = some x ∧ (∀ c ∈ encoded, Base64.isUrlChar c = true) ∧
      dot ∉ encoded) ∧
    ∀ x y : Bytes, x.length < 2 ^ 30 → y.length < 2 ^ 30 →
      base64UrlEncode evp x = base64UrlEncode evp y → x = y := by
  constructor
  · intro x hsize
    obtain ⟨body, n, -, -, hn, -, hdecode, -⟩ := Base64.urlEncode_shape x
    have hlength := Base64.length_encodeBlock x
    refine ⟨_, base64UrlEncode_eq h hsize, ?_, Base64.urlEncode_isUrlChar x,
      Base64.urlEncode_no_dot x⟩
    rw [← Base64.addPadding_urlEncode] at hdecode hlength
    rw [base64UrlDecode_eq h hdecode (by omega), Base64.urlDecode_urlEncode]
  · intro x y hx hy heq
    rw [base64UrlEncode_eq h hx, base64UrlEncode_eq h hy] at heq
    have hback := congrArg Base64.urlDecode (Except.ok.inj heq)
    rw [Base64.urlDecode_urlEncode, Base64.urlDecode_urlEncode] at hback
    exact Option.some.inj hback

end Codec

/-- Block functions that write over the start of the buffer, and refuse what is no base64. -/
def plainEvp : Evp where
  encodeBlock buffer s _ :=
    (Int32.ofNat (Base64.encodeBlock s).length,
      Base64.encodeBlock s ++ buffer.drop (Base64.encodeBlock s).length)
  decodeBlock buffer t _ :=
    match Base64.decodeBlock t with
    | some s => (Int32.ofNat s.length, s ++ buffer.drop s.length)
    | none => (-1, buffer)

/-- One byte, which has two characters of padding. -/
theorem base64Url_roundTrip_example : plainEvp.Rfc4648 ∧
    ((∀ x : Bytes, x.length < 2 ^ 30 → ∃ encoded, base64UrlEncode plainEvp x = .ok encoded ∧
      base64UrlDecode plainEvp encoded = some x ∧ (∀ c ∈ encoded, Base64.isUrlChar c = true) ∧
      dot ∉ encoded) ∧
    ∀ x y : Bytes, x.length < 2 ^ 30 → y.length < 2 ^ 30 →
      base64UrlEncode plainEvp x = base64UrlEncode plainEvp y → x = y) := by
  have h : plainEvp.Rfc4648 := by
    constructor
    · intro buffer s _ _ _
      exact ⟨_, rfl⟩
    · intro buffer t s _ hdecode _
      refine ⟨buffer.drop s.length, ?_⟩
      simp only [plainEvp, hdecode]
  exact ⟨h, base64Url_roundTrip h⟩

end Kds
