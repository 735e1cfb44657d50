import Kingdom.Client.RoundTrip

/-!
# What the signature of a prekey is bound to

The bytes that are signed are a label, the id in eight bytes and the decoded prekey, without
a separator between them.

* `uint64Le_injective` — the eight bytes of an id are those of no other.
* `signatureInput_inj` — with prekeys of one length, neither are the bytes that are signed.
* `signature_binds` — for the bundles the client accepts, and what it signs is accepted.
-/

namespace Kd

open Codec Process

/-! ## The eight bytes of an id -/

/-- Numbers with the same digits up to a place are the same up to that place. -/
theorem mod_pow_eq_of_digits {base a b : Nat} (k : Nat)
    (h : ∀ i < k, a / base ^ i % base = b / base ^ i % base) : a % base ^ k = b % base ^ k := by
  induction k with
  | zero => rw [pow_zero, Nat.mod_one, Nat.mod_one]
  | succ k ih =>
      have hlow : a % base ^ k = b % base ^ k := by
        apply ih
        intro i hi
        exact h i (by omega)
      rw [Nat.mod_pow_succ, Nat.mod_pow_succ, hlow, h k (by omega)]

/-- Each byte is a digit in base 256. -/
theorem toNat_uint64Le (value : UInt64) {i : Nat} (hi : i < 8) :
    (value >>> (UInt64.ofNat i * 8)).toUInt8.toNat = value.toNat / 256 ^ i % 256 := by
  have hshift : (UInt64.ofNat i * 8).toNat % 64 = 8 * i := by
    rw [UInt64.toNat_mul, UInt64.toNat_ofNat']
    show i % 2 ^ 64 * 8 % 2 ^ 64 % 64 = 8 * i
    omega
  rw [UInt64.toNat_toUInt8, UInt64.toNat_shiftRight, hshift, Nat.shiftRight_eq_div_pow, pow_mul]
  norm_num

theorem uint64Le_injective {a b : UInt64} (h : uint64Le a = uint64Le b) : a = b := by
  have hbytes : ∀ i < 8, (a >>> (UInt64.ofNat i * 8)).toUInt8 =
      (b >>> (UInt64.ofNat i * 8)).toUInt8 := by
    intro i hi
    exact List.map_inj_left.mp h i (List.mem_range.mpr hi)
  have hmod : a.toNat % 256 ^ 8 = b.toNat % 256 ^ 8 := by
    apply mod_pow_eq_of_digits
    intro i hi
    rw [← toNat_uint64Le a hi, ← toNat_uint64Le b hi, hbytes i hi]
  have ha := a.toNat_lt
  have hb := b.toNat_lt
  apply UInt64.toNat_inj.mp
  omega

theorem length_uint64Le (value : UInt64) : (uint64Le value).length = 8 := by
  rw [uint64Le, List.length_map, List.length_range]

section Signature

variable {α : Type} [Alphabet α] [Crypto α]

/-! ## The bytes that are signed -/

theorem signedPreKeySignatureInput_eq {publicKey key : List α} (signedPreKeyId : UInt64)
    (hkey : Crypto.base64Decode publicKey = some key) :
    signedPreKeySignatureInput signedPreKeyId publicKey =
      .ok (lit kSignedPreKeySignatureInfo ++ ofBytes (uint64Le signedPreKeyId) ++ key) := by
  rw [signedPreKeySignatureInput, base64Decode, hkey]
  rfl

/-- **The bytes that are signed say the id and the prekey**, whatever its length is. -/
theorem signatureInput_inj {publicKey publicKey' key key' input : List α} {id id' : UInt64}
    (hkey : Crypto.base64Decode publicKey = some key)
    (hkey' : Crypto.base64Decode publicKey' = some key')
    (h : signedPreKeySignatureInput id publicKey = .ok input)
    (h' : signedPreKeySignatureInput id' publicKey' = .ok input) : id = id' ∧ key = key' := by
  rw [signedPreKeySignatureInput_eq id hkey] at h
  rw [signedPreKeySignatureInput_eq id' hkey'] at h'
  have heq := Except.ok.inj (h.trans h'.symm)
  rw [List.append_assoc, List.append_assoc] at heq
  -- the label is the same, and the eight bytes after it end at the same place
  have hrest := List.append_cancel_left heq
  have hlength : (ofBytes (uint64Le id) : List α).length =
      (ofBytes (uint64Le id') : List α).length := by
    rw [length_ofBytes, length_ofBytes, length_uint64Le, length_uint64Le]
  obtain ⟨hid, hkeys⟩ := List.append_inj hrest hlength
  exact ⟨uint64Le_injective (ofBytes_injective hid), hkeys⟩

/-! ## Signing and verifying -/

variable [FloatFormat]

/-- The bundle carries the prekey and a signature of it, for this signing key. -/
structure CarriesSignature (bundle : Json α) (signingKey : List α) (signedPreKeyId : UInt64)
    (publicKey signature : List α) : Prop where
  signingKey : bundle.get? (bytes "signingKey") = some (.str signingKey)
  signedPreKey : ∃ spk id, bundle.get? (bytes "signedPreKey") = some spk ∧
    spk.get? (bytes "id") = some id ∧ id.uint64? = some signedPreKeyId ∧
    spk.get? (bytes "publicKey") = some (.str publicKey) ∧
    spk.get? (bytes "signature") = some (.str signature)

/-- **What was signed is verified**, in every bundle that carries it. -/
theorem verify_sign [LawfulBase64 α] [LawfulSigning α] {bundle : Json α}
    {publicKey signingSk signature : List α} {signedPreKeyId : UInt64}
    (hsign : signSignedPreKey signedPreKeyId publicKey signingSk = .ok signature)
    (h : CarriesSignature bundle (base64Encode (Crypto.signPublicKey signingSk)) signedPreKeyId
      publicKey signature) : verifySignedPreKeySignature bundle = .ok () := by
  obtain ⟨spk, id, hspk, hid, hpreKeyId, hpublicKey, hsignature⟩ := h.signedPreKey
  simp only [signSignedPreKey, signedPreKeySignatureInput, base64Decode, bind_ok, orThrow_ok,
    pure_ok] at hsign
  obtain ⟨input, ⟨key, hkey, rfl⟩, rfl⟩ := hsign
  exact verifySignedPreKeySignature_ok.mpr ⟨_, _, spk, _, _, id, signedPreKeyId, publicKey, key,
    h.signingKey, decodes_encode (LawfulSigning.length_signPublicKey _), hspk, hsignature,
    decodes_encode (LawfulSigning.length_signDetached _ _), hid, hpreKeyId, hpublicKey, hkey,
    LawfulSigning.verify _ _⟩

/-- The prekey of a bundle that is accepted decodes to 32 bytes. -/
theorem BundleFields.Of.decodes [DecidableEq α] {f : BundleFields α} {bundle : Json α}
    (h : f.Of bundle) (hvalid : validateBundle bundle = .ok ()) :
    ∃ key, Decodes 32 f.signedPreKey key := by
  obtain ⟨f', hof, -, -, key, -, -, hkey, -⟩ := validateBundle_ok.mp hvalid
  obtain ⟨spk, id, hspk, -, -, hpublicKey, -⟩ := h.signedPreKey
  obtain ⟨spk', id', hspk', -, -, hpublicKey', -⟩ := hof.signedPreKey
  cases hspk.symm.trans hspk'
  have hsame := Json.str.inj (Option.some.inj (hpublicKey.symm.trans hpublicKey'))
  exact ⟨key, hsame ▸ hkey⟩

/-- **The signature binds both fields.**  Two bundles that are accepted and have the same
bytes to sign have the same id and the same prekey; and what a client signs it also
accepts. -/
theorem signature_binds [DecidableEq α] [LawfulBase64 α] [LawfulSigning α] :
    (∀ (bundle bundle' : Json α) (f f' : BundleFields α) (input : List α),
      validateBundle bundle = .ok () → validateBundle bundle' = .ok () → f.Of bundle → f'.Of bundle' →
      signedPreKeySignatureInput f.signedPreKeyId f.signedPreKey = .ok input →
      signedPreKeySignatureInput f'.signedPreKeyId f'.signedPreKey = .ok input →
      f.signedPreKeyId = f'.signedPreKeyId ∧
        ∃ key, Decodes 32 f.signedPreKey key ∧ Decodes 32 f'.signedPreKey key) ∧
    ∀ (signedPreKeyId : UInt64) (publicKey key signingSk : List α),
      Crypto.base64Decode publicKey = some key →
      ∃ signature, signSignedPreKey signedPreKeyId publicKey signingSk = .ok signature ∧
        ∀ bundle, CarriesSignature bundle (base64Encode (Crypto.signPublicKey signingSk)) signedPreKeyId
          publicKey signature → verifySignedPreKeySignature bundle = .ok () := by
  constructor
  · intro bundle bundle' f f' input hvalid hvalid' hof hof' hinput hinput'
    obtain ⟨key, hkey⟩ := hof.decodes hvalid
    obtain ⟨key', hkey'⟩ := hof'.decodes hvalid'
    obtain ⟨hid, rfl⟩ := signatureInput_inj hkey.1 hkey'.1 hinput hinput'
    exact ⟨hid, key, hkey, hkey'⟩
  · intro signedPreKeyId publicKey key signingSk hkey
    obtain ⟨signature, hsign⟩ : ∃ signature,
        signSignedPreKey signedPreKeyId publicKey signingSk = .ok signature := by
      rw [signSignedPreKey, signedPreKeySignatureInput_eq _ hkey]
      exact ⟨_, rfl⟩
    exact ⟨signature, hsign, fun bundle h => verify_sign hsign h⟩

end Signature

/-- One prekey in the bundles of two users, whose signing keys differ. -/
theorem signature_binds_example : letI := plainFloats; letI := plainCrypto;
    ∃ (bundle bundle' : Json UInt8) (f f' : BundleFields UInt8), f.Of bundle ∧ f'.Of bundle' ∧
      f.signingKey ≠ f'.signingKey ∧ f.signedPreKeyId = f'.signedPreKeyId ∧
        ∃ key, Decodes 32 f.signedPreKey key ∧ Decodes 32 f'.signedPreKey key := by
  have hkeys : letI := plainCrypto;
      (base64Encode (Crypto.signPublicKey (List.replicate 64 (0 : UInt8)))) ≠
      base64Encode (Crypto.signPublicKey (List.replicate 64 1)) := by decide +kernel
  let := plainFloats
  let := plainCrypto
  have := lawfulBase64_plain
  have := lawfulDh_plain
  have := lawfulSigning_plain
  let other : LocalIdentityKey UInt8 := { zeroIdentity 7 [] [] with
    signingSecretKey := List.replicate 64 1
    signingPublicKey := base64Encode (Crypto.signPublicKey (List.replicate 64 1)) }
  have hmade := made_zeroIdentity 7 [] [] (by decide)
  have hother : other.Made :=
    { hmade with signingLength := List.length_replicate, signingPublicKey := rfl }
  obtain ⟨bundle, hbundle⟩ := exists_publicBundle hmade
  obtain ⟨bundle', hbundle'⟩ := exists_publicBundle hother
  obtain ⟨signature, -, hof⟩ := of_publicBundle hbundle
  obtain ⟨signature', -, hof'⟩ := of_publicBundle hbundle'
  have hinput := signedPreKeySignatureInput_eq 7
    (decodes_encode (LawfulDh.length_boxPublicKey (List.replicate 32 (0 : UInt8)))).1
  exact ⟨bundle, bundle', _, _, hof, hof', hkeys, signature_binds.1 _ _ _ _ _
    (validateBundle_publicBundle hmade hbundle) (validateBundle_publicBundle hother hbundle') hof hof'
    hinput hinput⟩

end Kd
