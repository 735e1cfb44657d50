import Kingdom.Codec.Base64
import Kingdom.Codec.JsonRoundTrip

/-!
# Cryptography of the client

The functions of libsodium and OpenSSL the client calls, as parameters over an
alphabet, and the laws the developments below assume of them.

* `Crypto` — the functions; a failure they report is `none`.
* `LawfulBase64` — base64 is canonical text.
* `LawfulDh`, `LawfulSigning`, `LawfulAead` — both sides of an exchange agree.
* `IdealAead`, `IdealKdf` — nothing else decrypts, and keys tell their inputs
  apart.
* `plainCrypto` — functions on bytes that keep all of these laws, so that they can
  be assumed together.
-/

namespace Kd

open Codec

/-- What the client calls. -/
class Crypto (α : Type) where
  /-- `sodium_bin2base64`, in the original variant. -/
  base64Encode : List α → List α
  /-- `sodium_base642bin`, in the original variant. -/
  base64Decode : List α → Option (List α)
  /-- The public half of a key pair of `crypto_box_keypair`. -/
  boxPublicKey : List α → List α
  /-- `crypto_scalarmult` of a private and a public key. -/
  scalarmult : List α → List α → Option (List α)
  /-- The public half of a key pair of `crypto_sign_keypair`. -/
  signPublicKey : List α → List α
  /-- `crypto_sign_detached`, under a secret key. -/
  signDetached : List α → List α → List α
  /-- `crypto_sign_verify_detached` of a signature, a message and a public key. -/
  signVerifyDetached : List α → List α → List α → Bool
  /-- `crypto_aead_xchacha20poly1305_ietf_encrypt` of a message, associated data,
  a nonce and a key. -/
  aeadEncrypt : List α → List α → List α → List α → List α
  /-- `crypto_aead_xchacha20poly1305_ietf_decrypt` of a ciphertext, associated
  data, a nonce and a key. -/
  aeadDecrypt : List α → List α → List α → List α → Option (List α)
  /-- `crypto_pwhash` of a password and a salt, with its two limits. -/
  pwhash : List α → List α → UInt64 → UInt64 → Option (List α)
  /-- HKDF with SHA-256 of a secret, an info and a salt. -/
  hkdf : List α → List α → List α → Option (List α)

variable (α : Type) [Alphabet α] [Crypto α]

/-- Base64 text is what the encoder prints, and it is text. -/
class LawfulBase64 : Prop where
  decode_iff : ∀ {s t : List α}, Crypto.base64Decode t = some s ↔ t = Crypto.base64Encode s
  validUtf8_encode : ∀ s : List α, validUtf8 (Crypto.base64Encode s) = true

omit [Alphabet α] in
/-- Two key pairs agree on a shared secret. -/
class LawfulDh : Prop where
  length_boxPublicKey : ∀ k : List α, (Crypto.boxPublicKey k).length = 32
  comm : ∀ a b : List α,
    Crypto.scalarmult a (Crypto.boxPublicKey b) = Crypto.scalarmult b (Crypto.boxPublicKey a)
  some : ∀ a b : List α, (Crypto.scalarmult a (Crypto.boxPublicKey b)).isSome = true

omit [Alphabet α] in
/-- A signature verifies under the public half of its key. -/
class LawfulSigning : Prop where
  length_signPublicKey : ∀ k : List α, (Crypto.signPublicKey k).length = 32
  length_signDetached : ∀ m k : List α, (Crypto.signDetached m k).length = 64
  verify : ∀ m k : List α,
    Crypto.signVerifyDetached (Crypto.signDetached m k) m (Crypto.signPublicKey k) = true

omit [Alphabet α] in
/-- What was encrypted decrypts under the same key, nonce and associated data. -/
class LawfulAead : Prop where
  length_encrypt : ∀ m ad n k : List α, 16 ≤ (Crypto.aeadEncrypt m ad n k).length
  decrypt_encrypt : ∀ m ad n k : List α,
    Crypto.aeadDecrypt (Crypto.aeadEncrypt m ad n k) ad n k = some m

omit [Alphabet α] in
/-- The AEAD decrypts only what was encrypted under the same key, nonce and
associated data. -/
class IdealAead : Prop extends LawfulAead α where
  decrypt_only : ∀ {m ad n k m' ad' n' k' : List α},
    Crypto.aeadDecrypt (Crypto.aeadEncrypt m ad n k) ad' n' k' = some m' →
      m' = m ∧ ad' = ad ∧ n' = n ∧ k' = k

omit [Alphabet α] in
/-- The password hash and the key derivation succeed and tell their inputs
apart. -/
class IdealKdf : Prop where
  pwhash_some : ∀ (p s : List α) (ops mem : UInt64), (Crypto.pwhash p s ops mem).isSome = true
  pwhash_inj : ∀ {p s p' s' : List α} {ops mem ops' mem' : UInt64},
    Crypto.pwhash p s ops mem = Crypto.pwhash p' s' ops' mem' → p = p'
  hkdf_some : ∀ x i s : List α, (Crypto.hkdf x i s).isSome = true
  hkdf_inj : ∀ {x i s x' i' s' : List α}, Crypto.hkdf x i s = Crypto.hkdf x' i' s' → x = x'

/-! ## The laws hold together -/

/-- A string cut or filled with zeros to a length. -/
def fit (n : Nat) (s : List UInt8) : List UInt8 := (s ++ List.replicate n 0).take n

@[simp] theorem length_fit (n : Nat) (s : List UInt8) : (fit n s).length = n := by
  simp [fit]

theorem fit_fit (n : Nat) (s : List UInt8) : fit n (fit n s) = fit n s := by
  rw [fit, List.take_append_of_le_length (Nat.le_of_eq (length_fit n s).symm),
    List.take_of_length_le (Nat.le_of_eq (length_fit n s))]

/-- A string with its length before it: the length is the sum of the first bytes, up to one that
is not 255. -/
def frame (s : List UInt8) : List UInt8 :=
  List.replicate (s.length / 255) 255 ++ UInt8.ofNat (s.length % 255) :: s

/-- Read a length and what follows it. -/
def readLength : List UInt8 → Option (Nat × List UInt8)
  | [] => none
  | b :: r => if b = 255 then (readLength r).map fun p => (255 + p.1, p.2) else some (b.toNat, r)

/-- Read a framed string and what follows it. -/
def unframe (c : List UInt8) : Option (List UInt8 × List UInt8) :=
  (readLength c).map fun p => p.2.splitAt p.1

theorem readLength_replicate (q : Nat) {b : Nat} (h : b < 255) (r : List UInt8) :
    readLength (List.replicate q 255 ++ UInt8.ofNat b :: r) = some (255 * q + b, r) := by
  have hb : (UInt8.ofNat b).toNat = b := UInt8.toNat_ofNat_of_lt' (h.trans (by decide))
  induction q with
  | zero =>
      have hne : UInt8.ofNat b ≠ 255 := by
        intro heq
        rw [heq] at hb
        exact absurd hb (by simpa using h.ne')
      simp [readLength, hne, hb]
  | succ q ih =>
      rw [List.replicate_succ, List.cons_append, readLength, if_pos rfl, ih, Option.map_some,
        Nat.mul_succ]
      simp only [Option.some.injEq, Prod.mk.injEq, and_true]
      omega

theorem unframe_frame (s r : List UInt8) : unframe (frame s ++ r) = some (s, r) := by
  rw [frame, List.append_assoc, List.cons_append, unframe,
    readLength_replicate _ (Nat.mod_lt _ (by decide)), Nat.div_add_mod, Option.map_some,
    List.splitAt_eq, List.take_left, List.drop_left]

theorem frame_append_inj {s t r u : List UInt8} (h : frame s ++ r = frame t ++ u) :
    s = t ∧ r = u := by
  have := congrArg unframe h
  rw [unframe_frame, unframe_frame] at this
  exact Prod.mk.inj (Option.some.inj this)

/-- The four inputs of an encryption, framed, in sixteen bytes or more. -/
def sealed (m ad n k : List UInt8) : List UInt8 :=
  frame m ++ (frame ad ++ (frame n ++ (frame k ++ List.replicate 16 0)))

theorem sealed_inj {m ad n k m' ad' n' k' : List UInt8} (h : sealed m ad n k = sealed m' ad' n' k') :
    m = m' ∧ ad = ad' ∧ n = n' ∧ k = k' := by
  obtain ⟨h1, h⟩ := frame_append_inj h
  obtain ⟨h2, h⟩ := frame_append_inj h
  obtain ⟨h3, h⟩ := frame_append_inj h
  exact ⟨h1, h2, h3, (frame_append_inj h).1⟩

/-- Functions with all the laws of the ideal ones, and none of their secrecy. -/
@[reducible] def plainCrypto : Crypto UInt8 where
  base64Encode := Base64.encodeBlock
  base64Decode := Base64.decodeStrict
  boxPublicKey := fit 32
  scalarmult a b := some ((fit 32 a).zipWith (· ^^^ ·) (fit 32 b))
  signPublicKey := fit 32
  signDetached m k := fit 64 (fit 32 k ++ m)
  signVerifyDetached sig m pk := sig == fit 64 (pk ++ m)
  aeadEncrypt := sealed
  aeadDecrypt c ad n k := do
    let (m, _) ← unframe c
    if c = sealed m ad n k then some m else none
  pwhash p s _ _ := some (frame p ++ frame s)
  hkdf x i s := some (frame x ++ (frame i ++ frame s))

theorem lawfulBase64_plain : @LawfulBase64 UInt8 _ plainCrypto := by
  let := plainCrypto
  refine ⟨Base64.decodeStrict_iff, fun s => ?_⟩
  have := validUtf8_ascii (α := UInt8) (Base64.encodeBlock_ascii s)
  rwa [ofBytes_uint8] at this

theorem lawfulDh_plain : @LawfulDh UInt8 plainCrypto := by
  let := plainCrypto
  refine ⟨length_fit 32, fun a b => ?_, fun a b => rfl⟩
  simp only [Crypto.scalarmult, Crypto.boxPublicKey, fit_fit, Option.some.injEq]
  exact List.zipWith_comm_of_comm fun x y => UInt8.xor_comm x y

theorem lawfulSigning_plain : @LawfulSigning UInt8 plainCrypto := by
  let := plainCrypto
  refine ⟨length_fit 32, fun m k => length_fit 64 _, fun m k => ?_⟩
  simp [Crypto.signVerifyDetached, Crypto.signDetached, Crypto.signPublicKey]

theorem lawfulAead_plain : @LawfulAead UInt8 plainCrypto := by
  let := plainCrypto
  refine ⟨fun m ad n k => ?_, fun m ad n k => ?_⟩
  · simp only [Crypto.aeadEncrypt, sealed, List.length_append, List.length_replicate]
    omega
  · simp [Crypto.aeadDecrypt, Crypto.aeadEncrypt, sealed, unframe_frame]

theorem idealAead_plain : @IdealAead UInt8 plainCrypto := by
  let := plainCrypto
  have := lawfulAead_plain
  refine ⟨fun h => ?_⟩
  simp only [Crypto.aeadDecrypt, Crypto.aeadEncrypt, Option.bind_eq_bind,
    Option.bind_eq_some_iff] at h
  obtain ⟨p, -, h⟩ := h
  split_ifs at h with heq
  cases h
  obtain ⟨h1, h2, h3, h4⟩ := sealed_inj heq
  exact ⟨h1.symm, h2.symm, h3.symm, h4.symm⟩

theorem idealKdf_plain : @IdealKdf UInt8 plainCrypto := by
  let := plainCrypto
  refine ⟨fun _ _ _ _ => rfl, fun h => ?_, fun _ _ _ => rfl, fun h => ?_⟩
  · exact (frame_append_inj (Option.some.inj h)).1
  · exact (frame_append_inj (Option.some.inj h)).1

end Kd
