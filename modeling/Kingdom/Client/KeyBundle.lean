import Kingdom.Client.Effects

/-!
# Key bundles

The bundle of public keys a user publishes, and the checks of the client on the
bundle of another user.

* `LocalPreKey`, `LocalIdentityKey` — a user's own keys.
* `publicBundle` — what the user publishes, with `signSignedPreKey`.
* `validateBundle` — what the client accepts, with `verifySignedPreKeySignature`.
* `BundleFields`, `validateBundle_ok` — the fields of an accepted bundle.
-/

namespace Kd

open Codec Process

variable {α : Type}

/-! ## Constants -/

def kBundleAlgorithm : String := "KD-X3DH-BUNDLE-V1"
def kSignedPreKeySignatureInfo : String := "kd-x3dh-signed-prekey-signature-v1"

/-! ## Keys -/

/-- A prekey: the public half is kept as it is published. -/
structure LocalPreKey (α : Type) where
  id : UInt64
  privateKey : List α
  publicKey : List α

/-- The keys of a user who is logged in. -/
structure LocalIdentityKey (α : Type) where
  publicKey : List α
  privateKey : List α
  signingPublicKey : List α
  signingSecretKey : List α
  signedPreKey : LocalPreKey α
  oneTimePreKeys : List (LocalPreKey α)
  keyFilePath : Bytes

section Bundles

variable [Alphabet α] [Crypto α]

/-! ## Base64 fields -/

/-- `base64Decode` -/
def base64Decode (encoded : List α) (fieldName : String) : Except Exn (List α) :=
  orThrow (bytes "Invalid base64 field: " ++ bytes fieldName) (Crypto.base64Decode encoded)

/-- `base64DecodeArray<n>` -/
def base64DecodeArray (n : Nat) (encoded : List α) (fieldName : String) : Except Exn (List α) := do
  let decoded ← base64Decode encoded fieldName
  ensure (decoded.length = n)
    (.runtimeError (bytes "Unexpected decoded size for field: " ++ bytes fieldName))
  return decoded

/-- `base64Encode` -/
def base64Encode (data : List α) : List α := Crypto.base64Encode data

/-! ## The signed prekey -/

/-- The eight bytes of `appendUint64Le`. -/
def uint64Le (value : UInt64) : Bytes :=
  (List.range 8).map fun i => (value >>> (UInt64.ofNat i * 8)).toUInt8

def signedPreKeySignatureInput (signedPreKeyId : UInt64) (signedPreKeyPublicKey : List α) :
    Except Exn (List α) := do
  let publicKey ← base64Decode signedPreKeyPublicKey "signedPreKey.publicKey"
  return lit kSignedPreKeySignatureInfo ++ ofBytes (uint64Le signedPreKeyId) ++ publicKey

def signSignedPreKey (signedPreKeyId : UInt64) (signedPreKeyPublicKey signingSk : List α) :
    Except Exn (List α) := do
  let input ← signedPreKeySignatureInput signedPreKeyId signedPreKeyPublicKey
  return base64Encode (Crypto.signDetached input signingSk)

variable [FloatFormat]

def verifySignedPreKeySignature (bundle : Json α) : Except Exn Unit := do
  let signingKey ← base64DecodeArray 32 (← getString (← at' bundle "signingKey")) "signingKey"
  let signedPreKey ← at' bundle "signedPreKey"
  let signature ← base64DecodeArray 64 (← getString (← at' signedPreKey "signature"))
    "signedPreKey.signature"
  let input ← signedPreKeySignatureInput (← getUInt64 (← at' signedPreKey "id"))
    (← getString (← at' signedPreKey "publicKey"))
  ensure (Crypto.signVerifyDetached signature input signingKey)
    (.runtimeError (bytes "Signed prekey signature verification failed"))

/-! ## Validation -/

/-- `parseJson` -/
def parseJson (text : List α) (label : String) : Except Exn (Json α) :=
  orThrow (bytes "Invalid JSON in " ++ bytes label)
    ((Json.parse text).filter fun parsed => parsed.isObject)

/-- Is the field there, and does it read as the value? -/
def fieldIs {β : Type} [DecidableEq β] (get : Json α → Except Exn β) (j : Json α) (k : String)
    (b : β) : Except Exn Bool :=
  match j.get? (bytes k) with
  | none => .ok false
  | some v => (get v).map fun a => decide (a = b)

def validateBundle [DecidableEq α] (bundle : Json α) : Except Exn Unit := do
  let unsupported := .runtimeError (bytes "Unsupported or incomplete X3DH key bundle")
  ensure (← fieldIs getInt bundle "version" 1) unsupported
  ensure (← fieldIs getString bundle "algorithm" (lit kBundleAlgorithm)) unsupported
  ensure (bundle.contains (bytes "identityKey") ∧ bundle.contains (bytes "signingKey") ∧
    bundle.contains (bytes "signedPreKey") ∧ bundle.contains (bytes "oneTimePreKeys")) unsupported
  let _ ← base64DecodeArray 32 (← getString (← at' bundle "identityKey")) "identityKey"
  let _ ← base64DecodeArray 32 (← getString (← at' bundle "signingKey")) "signingKey"
  let _ ← base64DecodeArray 32
    (← getString (← at' (← at' bundle "signedPreKey") "publicKey")) "signedPreKey.publicKey"
  verifySignedPreKeySignature bundle

/-! ## The fields of an accepted bundle -/

/-- What a bundle says. -/
structure BundleFields (α : Type) where
  identityKey : List α
  signingKey : List α
  signedPreKeyId : UInt64
  signedPreKey : List α
  signature : List α

/-- The bundle has these fields. -/
structure BundleFields.Of (f : BundleFields α) (bundle : Json α) : Prop where
  version : ∃ v, bundle.get? (bytes "version") = some v ∧ v.int? = some 1
  algorithm : bundle.get? (bytes "algorithm") = some (.str (lit kBundleAlgorithm))
  identityKey : bundle.get? (bytes "identityKey") = some (.str f.identityKey)
  signingKey : bundle.get? (bytes "signingKey") = some (.str f.signingKey)
  signedPreKey : ∃ spk id, bundle.get? (bytes "signedPreKey") = some spk ∧
    spk.get? (bytes "id") = some id ∧ id.uint64? = some f.signedPreKeyId ∧
    spk.get? (bytes "publicKey") = some (.str f.signedPreKey) ∧
    spk.get? (bytes "signature") = some (.str f.signature)
  oneTimePreKeys : bundle.contains (bytes "oneTimePreKeys") = true

/-- The text decodes to that many symbols. -/
def Decodes (n : Nat) (encoded decoded : List α) : Prop :=
  Crypto.base64Decode encoded = some decoded ∧ decoded.length = n

/-- The keys have their lengths, and the signing key has signed the prekey. -/
def BundleFields.Valid (f : BundleFields α) : Prop :=
  (∃ key, Decodes 32 f.identityKey key) ∧
    ∃ signingKey signedPreKey signature, Decodes 32 f.signingKey signingKey ∧
      Decodes 32 f.signedPreKey signedPreKey ∧ Decodes 64 f.signature signature ∧
      Crypto.signVerifyDetached signature
        (lit kSignedPreKeySignatureInfo ++ ofBytes (uint64Le f.signedPreKeyId) ++ signedPreKey)
        signingKey = true

omit [FloatFormat] [Alphabet α] in
theorem base64DecodeArray_ok {n : Nat} {encoded decoded : List α} {field : String} :
    base64DecodeArray n encoded field = .ok decoded ↔ Decodes n encoded decoded := by
  simp only [base64DecodeArray, base64Decode, bind_ok, orThrow_ok, ensure_ok, Decodes]
  constructor
  · rintro ⟨d, hd, -, hlen, h⟩
    cases h
    exact ⟨hd, hlen⟩
  · rintro ⟨hd, hlen⟩
    exact ⟨decoded, hd, (), hlen, rfl⟩

omit [FloatFormat] [Alphabet α] [Crypto α] in
theorem getString_ok {j : Json α} {s : List α} : getString j = .ok s ↔ j = .str s := by
  cases j <;> simp [getString, orJsonError, Json.str?]

omit [Alphabet α] [Crypto α] in
theorem getUInt64_ok {j : Json α} {n : UInt64} : getUInt64 j = .ok n ↔ j.uint64? = some n :=
  orJsonError_ok

omit [FloatFormat] [Alphabet α] [Crypto α] in
theorem at'_ok {j v : Json α} {k : String} : at' j k = .ok v ↔ j.get? (bytes k) = some v :=
  orJsonError_ok

omit [FloatFormat] [Alphabet α] [Crypto α] in
theorem fieldIs_ok {β : Type} [DecidableEq β] {get : Json α → Except Exn β} {j : Json α}
    {k : String} {b : β} :
    fieldIs get j k b = .ok true ↔ ∃ v, j.get? (bytes k) = some v ∧ get v = .ok b := by
  unfold fieldIs
  cases j.get? (bytes k) with
  | none => simp
  | some v =>
      cases hv : get v with
      | error e => simp [hv, Except.map]
      | ok a => simp [hv, Except.map]

theorem verifySignedPreKeySignature_ok {bundle : Json α} :
    verifySignedPreKeySignature bundle = .ok () ↔
      ∃ signingKey key spk signature sig id preKeyId publicKey preKey,
        bundle.get? (bytes "signingKey") = some (.str signingKey) ∧ Decodes 32 signingKey key ∧
        bundle.get? (bytes "signedPreKey") = some spk ∧
        spk.get? (bytes "signature") = some (.str signature) ∧ Decodes 64 signature sig ∧
        spk.get? (bytes "id") = some id ∧ id.uint64? = some preKeyId ∧
        spk.get? (bytes "publicKey") = some (.str publicKey) ∧
        Crypto.base64Decode publicKey = some preKey ∧
        Crypto.signVerifyDetached sig
          (lit kSignedPreKeySignatureInfo ++ ofBytes (uint64Le preKeyId) ++ preKey) key = true := by
  simp only [verifySignedPreKeySignature, signedPreKeySignatureInput, base64Decode, bind_ok,
    ensure_ok, at'_ok, getString_ok, getUInt64_ok, orThrow_ok, base64DecodeArray_ok, pure_ok]
  constructor
  · rintro ⟨_, hsk, signingKey, rfl, key, hkey, spk, hspk, _, hsig, signature, rfl, sig, hsigd, id,
      hid, preKeyId, hpreKeyId, _, hpub, publicKey, rfl, _, ⟨preKey, hpreKey, rfl⟩, hverify⟩
    exact ⟨signingKey, key, spk, signature, sig, id, preKeyId, publicKey, preKey, hsk, hkey, hspk,
      hsig, hsigd, hid, hpreKeyId, hpub, hpreKey, hverify⟩
  · rintro ⟨signingKey, key, spk, signature, sig, id, preKeyId, publicKey, preKey, hsk, hkey, hspk,
      hsig, hsigd, hid, hpreKeyId, hpub, hpreKey, hverify⟩
    exact ⟨_, hsk, signingKey, rfl, key, hkey, spk, hspk, _, hsig, signature, rfl, sig, hsigd, id,
      hid, preKeyId, hpreKeyId, _, hpub, publicKey, rfl, _, ⟨preKey, hpreKey, rfl⟩, hverify⟩

omit [FloatFormat] [Crypto α] [Alphabet α] in
theorem contains_of_get? {j v : Json α} {k : Key} (h : j.get? k = some v) : j.contains k = true := by
  rw [Json.contains, h]
  rfl

/-- **The bundles the client accepts.** -/
theorem validateBundle_ok [DecidableEq α] {bundle : Json α} :
    validateBundle bundle = .ok () ↔ ∃ f : BundleFields α, f.Of bundle ∧ f.Valid := by
  simp only [validateBundle, bind_ok, ensure_ok, at'_ok, getString_ok, base64DecodeArray_ok,
    verifySignedPreKeySignature_ok]
  constructor
  · rintro ⟨_, hversion, -, rfl, _, halgorithm, -, rfl, -, ⟨-, -, -, hone⟩, h⟩
    obtain ⟨_, hik, identityKey, rfl, ik, hikd, _, -, _, -, _, -, h⟩ := h
    obtain ⟨spk, hspk, _, hpub, publicKey, rfl, preKey, hpreKey, h⟩ := h
    obtain ⟨signingKey, key, spk', signature, sig, id, preKeyId, publicKey', preKey', hsk, hkey,
      hspk', hsig, hsigd, hid, hpreKeyId, hpub', hpreKey', hverify⟩ := h
    rw [hspk'] at hspk
    cases hspk
    rw [hpub'] at hpub
    cases hpub
    rw [hpreKey.1] at hpreKey'
    cases hpreKey'
    obtain ⟨v, hv, hv1⟩ := fieldIs_ok.mp hversion
    obtain ⟨_, halg, hstr⟩ := fieldIs_ok.mp halgorithm
    rw [getString_ok] at hstr
    refine ⟨⟨identityKey, signingKey, preKeyId, publicKey, signature⟩,
      ⟨⟨v, hv, orJsonError_ok.mp hv1⟩, by rw [halg, hstr], hik, hsk,
        ⟨spk, id, hspk', hid, hpreKeyId, hpub', hsig⟩, hone⟩,
      ⟨ik, hikd⟩, key, preKey, sig, hkey, hpreKey, hsigd, hverify⟩
  · rintro ⟨f, hof, ⟨ik, hik⟩, key, preKey, sig, hkey, hpreKey, hsig, hverify⟩
    obtain ⟨v, hv, hv1⟩ := hof.version
    obtain ⟨spk, id, hspk, hid, hpreKeyId, hpub, hsignature⟩ := hof.signedPreKey
    exact ⟨true, fieldIs_ok.mpr ⟨v, hv, orJsonError_ok.mpr hv1⟩, (), rfl, true,
      fieldIs_ok.mpr ⟨_, hof.algorithm, getString_ok.mpr rfl⟩, (), rfl, (),
      ⟨contains_of_get? hof.identityKey, contains_of_get? hof.signingKey, contains_of_get? hspk,
        hof.oneTimePreKeys⟩, _, hof.identityKey, _, rfl, ik, hik, _, hof.signingKey, _, rfl, key,
      hkey, spk, hspk, _, hpub, _, rfl, preKey, hpreKey, _, key, spk, _, sig, id, _, _, preKey,
      hof.signingKey, hkey, hspk, hsignature, hsig, hid, hpreKeyId, hpub, hpreKey.1, hverify⟩

end Bundles

/-! ## Publication -/

section Publication

variable [Alphabet α] [Crypto α]

/-- A one-time prekey as it is published. -/
def LocalPreKey.json (k : LocalPreKey α) : Json α :=
  .mkObj [("id", .unsigned k.id), ("publicKey", .str k.publicKey)]

def publicBundle (identity : LocalIdentityKey α) : Except Exn (Json α) := do
  let signature ← signSignedPreKey identity.signedPreKey.id identity.signedPreKey.publicKey
    identity.signingSecretKey
  return .mkObj [("version", .unsigned 1), ("algorithm", .str (lit kBundleAlgorithm)),
    ("identityKey", .str identity.publicKey), ("signingKey", .str identity.signingPublicKey),
    ("signedPreKey", .mkObj [("id", .unsigned identity.signedPreKey.id),
      ("publicKey", .str identity.signedPreKey.publicKey), ("signature", .str signature)]),
    ("oneTimePreKeys", .arr (identity.oneTimePreKeys.map LocalPreKey.json))]

end Publication

end Kd
