import Kingdom.Client.Crypto
import Mathlib.SetTheory.Cardinal.Order

/-!
# Symbolic cryptography

An alphabet with symbols for keys, shared secrets, signatures and ciphertexts beside
the bytes, and the functions of libsodium and OpenSSL over it: each is a
free constructor, up to what the two ends of an exchange have in common.

* `Symbol` — the symbols; a key of 32 bytes is a string of 32 of them.
* `symbolicCrypto` — the functions.
* `lawfulBase64_sym`, `lawfulDh_sym`, `lawfulSigning_sym`, `idealAead_sym`,
  `idealKdf_sym` — they keep the laws the client relies on.
* `boxPublicKey_inj` — public keys tell private ones apart.
-/

namespace Kd

open Codec

/-! ## Symbols -/

/-- A byte, or a part of what a key, a random value or a cryptographic function
makes.  The number at the end says which byte of the result it is. -/
inductive Symbol where
  | byte (b : UInt8)
  /-- Random bytes: nonces and salts. -/
  | random (n i : Nat)
  /-- The secret half of a key pair. -/
  | privateKey (n i : Nat)
  /-- A piece of a text a user wrote. -/
  | text (n : Nat)
  | boxPublic (k : List Symbol) (i : Nat)
  /-- The secret two key pairs share. -/
  | shared (k l : List Symbol) (i : Nat)
  /-- The product of a private key and of what is no public key. -/
  | product (k p : List Symbol) (i : Nat)
  | signPublic (k : List Symbol) (i : Nat)
  | signature (m k : List Symbol) (i : Nat)
  | sealed (m ad n k : List Symbol) (i : Nat)
  | stretched (p s : List Symbol) (ops mem : UInt64) (i : Nat)
  | derived (x info salt : List Symbol) (i : Nat)
  /-- The base64 text of a string that holds more than bytes. -/
  | base64 (s : List Symbol)

namespace Symbol

noncomputable instance instDecidableEq : DecidableEq Symbol := Classical.decEq Symbol

instance instAlphabet : Alphabet Symbol where
  ofByte := .byte
  toByte
    | .byte b => some b
    | _ => none
  isText
    | .base64 _ => true
    | .text _ => true
    | _ => false
  toByte_ofByte _ := rfl
  ofByte_toByte := by
    intro a b h
    cases a <;> simp at h
    rw [h]

/-- The string of the first symbols of a result. -/
def block (f : Nat → Symbol) (n : Nat) : List Symbol := (List.range n).map f

@[simp] theorem length_block (f : Nat → Symbol) (n : Nat) : (block f n).length = n := by
  simp [block]

theorem mem_block {f : Nat → Symbol} {n : Nat} {a : Symbol} : a ∈ block f n ↔ ∃ i < n, f i = a := by
  simp [block]

/-- The length and the first symbol of a block. -/
theorem block_inj {f g : Nat → Symbol} {m n : Nat} (hm : 0 < m) (h : block f m = block g n) :
    m = n ∧ f 0 = g 0 := by
  have hlen : m = n := by simpa using congrArg List.length h
  have hhead := congrArg (fun s => s[0]?) h
  subst hlen
  refine ⟨rfl, ?_⟩
  simpa [block, List.getElem?_range hm] using hhead

/-- Two keys in an order that does not depend on which comes first. -/
noncomputable def ordered (k l : List Symbol) : List Symbol × List Symbol :=
  open Classical in if WellOrderingRel k l then (k, l) else (l, k)

theorem ordered_comm (k l : List Symbol) : ordered k l = ordered l k := by
  unfold ordered
  rcases trichotomous_of WellOrderingRel k l with h | rfl | h
  · rw [if_pos h, if_neg (asymm_of WellOrderingRel h)]
  · rfl
  · rw [if_neg (asymm_of WellOrderingRel h), if_pos h]

theorem ordered_eq (k l : List Symbol) : ordered k l = (k, l) ∨ ordered k l = (l, k) := by
  unfold ordered
  split_ifs
  · exact .inl rfl
  · exact .inr rfl

end Symbol

open Kd.Symbol

/-! ## The functions -/

/-- The string a function was applied to, if the string is a result of it. -/
noncomputable def preimage {β : Type} (f : β → List Symbol) (t : List Symbol) : Option β :=
  open Classical in if h : ∃ s, t = f s then some h.choose else none

theorem preimage_eq_some {β : Type} {f : β → List Symbol} (hf : Function.Injective f) {t : List Symbol}
    {s : β} : preimage f t = some s ↔ t = f s := by
  unfold preimage
  split_ifs with h
  · rw [Option.some.injEq]
    constructor
    · rintro rfl
      exact h.choose_spec
    · rintro rfl
      exact (hf h.choose_spec).symm
  · constructor
    · intro h'
      cases h'
    · intro h'
      exact (h ⟨s, h'⟩).elim

/-- Base64, in the original variant: bytes as ever, anything else as one symbol. -/
def symBase64 (s : List Symbol) : List Symbol :=
  match toBytes s with
  | some b => ofBytes (Base64.encodeBlock b)
  | none => [.base64 s]

def symBoxPublicKey (k : List Symbol) : List Symbol := block (.boxPublic k) 32

def symSignPublicKey (k : List Symbol) : List Symbol := block (.signPublic k) 32

/-- `crypto_scalarmult`: two key pairs agree on a secret. -/
noncomputable def symScalarmult (k p : List Symbol) : List Symbol :=
  match preimage symBoxPublicKey p with
  | some l => block (.shared (ordered k l).1 (ordered k l).2) 32
  | none => block (.product k p) 32

def symSignDetached (m k : List Symbol) : List Symbol := block (.signature m k) 64

def symAeadEncrypt (m ad n k : List Symbol) : List Symbol := block (.sealed m ad n k) (m.length + 16)

noncomputable instance symbolicCrypto : Crypto Symbol where
  base64Encode := symBase64
  base64Decode := preimage symBase64
  boxPublicKey := symBoxPublicKey
  scalarmult k p := some (symScalarmult k p)
  signPublicKey := symSignPublicKey
  signDetached := symSignDetached
  signVerifyDetached sig m pk :=
    open Classical in decide (∃ k, pk = symSignPublicKey k ∧ sig = symSignDetached m k)
  aeadEncrypt := symAeadEncrypt
  aeadDecrypt c ad n k := preimage (fun m => symAeadEncrypt m ad n k) c
  pwhash p s ops mem := some (block (.stretched p s ops mem) 32)
  hkdf x info salt := some (block (.derived x info salt) 32)

/-! ## The laws -/

theorem boxPublicKey_inj {k l : List Symbol}
    (h : Crypto.boxPublicKey k = (Crypto.boxPublicKey l : List Symbol)) : k = l := by
  cases (block_inj (by decide) h).2
  rfl

theorem aeadEncrypt_inj {m ad n k m' ad' n' k' : List Symbol}
    (h : Crypto.aeadEncrypt m ad n k = (Crypto.aeadEncrypt m' ad' n' k' : List Symbol)) :
    m = m' ∧ ad = ad' ∧ n = n' ∧ k = k' := by
  cases (block_inj (by omega) h).2
  exact ⟨rfl, rfl, rfl, rfl⟩

theorem base64Encode_inj {s t : List Symbol}
    (h : Crypto.base64Encode s = (Crypto.base64Encode t : List Symbol)) : s = t := by
  have h' : symBase64 s = symBase64 t := h
  unfold symBase64 at h'
  cases hs : toBytes s with
  | some b =>
      cases ht : toBytes t with
      | some c =>
          rw [hs, ht] at h'
          have hbc : c = b := by
            have := Base64.decodeStrict_iff.mpr (ofBytes_injective h')
            rw [Base64.decodeStrict_iff.mpr rfl] at this
            exact (Option.some.inj this).symm
          rw [← ofBytes_toBytes hs, ← ofBytes_toBytes ht, hbc]
      | none =>
          rw [hs, ht] at h'
          cases (toBytes_ofBytes _).symm.trans (congrArg toBytes h')
  | none =>
      cases ht : toBytes t with
      | some c =>
          rw [hs, ht] at h'
          cases (toBytes_ofBytes _).symm.trans (congrArg toBytes h').symm
      | none =>
          rw [hs, ht] at h'
          cases h'
          rfl

instance lawfulBase64_sym : LawfulBase64 Symbol where
  decode_iff := preimage_eq_some fun _ _ => base64Encode_inj
  validUtf8_encode s := by
    change validUtf8 (symBase64 s) = true
    unfold symBase64
    split
    · exact validUtf8_ascii (Base64.encodeBlock_ascii _)
    · rfl

theorem scalarmult_boxPublicKey (k l : List Symbol) :
    Crypto.scalarmult k (Crypto.boxPublicKey l) =
      some (block (.shared (ordered k l).1 (ordered k l).2) 32) := by
  have hpre : preimage symBoxPublicKey (symBoxPublicKey l) = some l :=
    (preimage_eq_some fun _ _ => boxPublicKey_inj).mpr rfl
  change some (symScalarmult k (symBoxPublicKey l)) = _
  rw [symScalarmult, hpre]

instance lawfulDh_sym : LawfulDh Symbol where
  length_boxPublicKey _ := length_block _ _
  comm a b := by rw [scalarmult_boxPublicKey, scalarmult_boxPublicKey, ordered_comm]
  some _ _ := rfl

theorem signVerifyDetached_iff {sig m pk : List Symbol} :
    Crypto.signVerifyDetached sig m pk = true ↔
      ∃ k, pk = Crypto.signPublicKey k ∧ sig = Crypto.signDetached m k :=
  @decide_eq_true_iff _ (Classical.propDecidable _)

instance lawfulSigning_sym : LawfulSigning Symbol where
  length_signPublicKey _ := length_block _ _
  length_signDetached _ _ := length_block _ _
  verify _ k := signVerifyDetached_iff.mpr ⟨k, rfl, rfl⟩

theorem aeadDecrypt_eq_some {c ad n k m : List Symbol} :
    Crypto.aeadDecrypt c ad n k = some m ↔ c = Crypto.aeadEncrypt m ad n k :=
  preimage_eq_some fun _ _ h => (aeadEncrypt_inj h).1

instance idealAead_sym : IdealAead Symbol where
  length_encrypt m ad n k := by
    change 16 ≤ (block _ _).length
    rw [length_block]
    omega
  decrypt_encrypt _ _ _ _ := aeadDecrypt_eq_some.mpr rfl
  decrypt_only h := by
    obtain ⟨rfl, rfl, rfl, rfl⟩ := aeadEncrypt_inj (aeadDecrypt_eq_some.mp h)
    exact ⟨rfl, rfl, rfl, rfl⟩

instance idealKdf_sym : IdealKdf Symbol where
  pwhash_some _ _ _ _ := rfl
  pwhash_inj h := by
    cases (block_inj (by decide) (Option.some.inj h)).2
    rfl
  hkdf_some _ _ _ := rfl
  hkdf_inj h := by
    cases (block_inj (by decide) (Option.some.inj h)).2
    rfl

end Kd
