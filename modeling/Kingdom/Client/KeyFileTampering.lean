import Kingdom.Client.KeyStoreRoundTrip

/-!
# A key file someone else has changed

The private keys of a key file are encrypted under the password; the bundle beside them is
not, and its signature is by a key it names itself.

* `CarriesKeys`, `UnforgedKeys` — the ciphertext of a key file, and the files of someone who
  does not know the password.
* `AuthenticKeys` — what an identity is to be: the keys of the signup, in pairs.
* `NamesKeys` — the bundle names the public keys of the signup.
* `loadedKeys_authentic_iff` — a login on a changed file gives authentic keys exactly when
  the bundle names them.
-/

namespace Kd

open Codec Process Storage Prog

variable {α : Type} [Alphabet α] [Crypto α] [FloatFormat]

/-! ## The files of an attacker -/

/-- The text is a key file with this nonce and ciphertext. -/
def CarriesKeys (text nonce ciphertext : List α) : Prop :=
  ∃ file j n c, Json.parse text = some file ∧ file.get? (bytes "privateMaterial") = some j ∧
    j.get? (bytes "nonce") = some (.str n) ∧ Decodes 24 n nonce ∧
    j.get? (bytes "ciphertext") = some (.str c) ∧ Crypto.base64Decode c = some ciphertext

/-- The text of someone who does not know the password: what it carries decrypts under a key
of the user only when the original file carries it. -/
def UnforgedKeys (username password original text : List α) : Prop :=
  ∀ nonce ciphertext salt ops mem key plaintext, CarriesKeys text nonce ciphertext →
    keyEncryptionKey password salt ops mem = .ok key →
    Crypto.aeadDecrypt ciphertext username nonce key = some plaintext →
    CarriesKeys original nonce ciphertext

/-- The keys are those that were generated, and the public halves belong to the private
ones. -/
structure AuthenticKeys (generated k : LocalIdentityKey α) : Prop where
  publicHalf : k.publicKey = base64Encode (Crypto.boxPublicKey k.privateKey)
  signingPublicHalf : k.signingPublicKey = base64Encode (Crypto.signPublicKey k.signingSecretKey)
  publicKey : k.publicKey = generated.publicKey
  privateKey : k.privateKey = generated.privateKey
  signingPublicKey : k.signingPublicKey = generated.signingPublicKey
  signingSecretKey : k.signingSecretKey = generated.signingSecretKey

/-- The bundle in the file names the public keys of the identity. -/
def NamesKeys (generated : LocalIdentityKey α) (text : List α) : Prop :=
  ∃ file bundle, Json.parse text = some file ∧
    file.get? (bytes "publicKeyBundle") = some bundle ∧
    bundle.get? (bytes "identityKey") = some (.str generated.publicKey) ∧
    bundle.get? (bytes "signingKey") = some (.str generated.signingPublicKey)

section Open

variable [DecidableEq α] {username password original text : List α}
  {identity k : LocalIdentityKey α} {file body : Json α} {keyPath : Bytes}

/-- A file that opens carries what was decrypted of it. -/
theorem carriesKeys_of_open {material : Json α} (hparse : Json.parse text = some body)
    (h : openPrivateMaterial keyPath username password body = .ok material) :
    ∃ nonce ciphertext salt ops mem key plaintext, CarriesKeys text nonce ciphertext ∧
      keyEncryptionKey password salt ops mem = .ok key ∧
      Crypto.aeadDecrypt ciphertext username nonce key = some plaintext ∧
      parseJson plaintext "privateMaterial" = .ok material := by
  rw [openPrivateMaterial] at h
  obtain ⟨j, hj, h⟩ := bind_ok.mp h
  -- the names of the algorithms, and the salt
  iterate 17 obtain ⟨_, -, h⟩ := bind_ok.mp h
  obtain ⟨salt, -, h⟩ := bind_ok.mp h
  obtain ⟨n, hn, h⟩ := bind_ok.mp h
  obtain ⟨nText, hnText, h⟩ := bind_ok.mp h
  obtain ⟨nonce, hnonce, h⟩ := bind_ok.mp h
  obtain ⟨c, hc, h⟩ := bind_ok.mp h
  obtain ⟨cText, hcText, h⟩ := bind_ok.mp h
  obtain ⟨ciphertext, hciphertext, h⟩ := bind_ok.mp h
  obtain ⟨_, -, h⟩ := bind_ok.mp h
  obtain ⟨ops, -, h⟩ := bind_ok.mp h
  obtain ⟨_, -, h⟩ := bind_ok.mp h
  obtain ⟨mem, -, h⟩ := bind_ok.mp h
  obtain ⟨key, hkey, h⟩ := bind_ok.mp h
  obtain ⟨plaintext, hplaintext, hmaterial⟩ := bind_ok.mp h
  obtain rfl := getString_ok.mp hnText
  obtain rfl := getString_ok.mp hcText
  exact ⟨nonce, ciphertext, salt, ops, mem, key, plaintext,
    ⟨body, j, nText, cText, hparse, at'_ok.mp hj, at'_ok.mp hn, base64DecodeArray_ok.mp hnonce,
      at'_ok.mp hc, orThrow_ok.mp hciphertext⟩, hkey, orThrow_ok.mp hplaintext, hmaterial⟩

variable [LawfulBase64 α]

omit [DecidableEq α] in
/-- The ciphertext of the file a signup has written. -/
theorem IsKeyFile.carriesKeys (hkey : IsKeyFile username password identity file)
    (hparse : Json.parse original = some body)
    (hfields : ∀ k ∈ keyFileFields, body.get? k = (recorded file []).get? k)
    {nonce ciphertext : List α} (h : CarriesKeys original nonce ciphertext) :
    ∃ nonce₀ key privateMaterial, (encryptedPrivateMaterial identity).dump = some privateMaterial ∧
      ciphertext = Crypto.aeadEncrypt privateMaterial username nonce₀ key := by
  obtain ⟨bundle, salt, nonce₀, key, privateMaterial, -, -, -, -, hdump, hfile⟩ := hkey.exists_eq
  obtain ⟨body', j, n, c, hparse', hj, hn, hnonce, hc, hciphertext⟩ := h
  obtain rfl : body' = body := Option.some.inj (hparse'.symm.trans hparse)
  have hmaterial : body'.get? (bytes "privateMaterial") = some (.mkObj
      [("algorithm", .str (lit "XChaCha20-Poly1305")),
        ("ciphertext", .str (base64Encode (Crypto.aeadEncrypt privateMaterial username nonce₀ key))),
        ("nonce", .str (base64Encode nonce₀))]) := by
    rw [hfields _ (by decide), hkey.get?_recorded, if_neg (by decide), hfile]
    simp +decide [newKeyFile, Json.get?_mkObj, Json.lookup]
  obtain rfl := Option.some.inj (hj.symm.trans hmaterial)
  obtain rfl : base64Encode (Crypto.aeadEncrypt privateMaterial username nonce₀ key) = c := by
    simpa +decide [Json.get?_mkObj, Json.lookup] using hc
  exact ⟨nonce₀, key, privateMaterial, hdump, Option.some.inj
    (hciphertext.symm.trans (LawfulBase64.decode_iff.mpr rfl))⟩

/-- **The private keys of a changed file** are those of the signup, and the public ones those
its bundle names. -/
theorem openKeyFile_tampered [IdealAead α] (hkey : IsKeyFile username password identity file)
    {originalBody : Json α} (horiginal : Json.parse original = some originalBody)
    (hfields : ∀ k ∈ keyFileFields, originalBody.get? k = (recorded file []).get? k)
    (hunforged : UnforgedKeys username password original text) (hparse : Json.parse text = some body)
    (h : openKeyFile keyPath username password body = .ok k) :
    k.privateKey = identity.privateKey ∧ k.signingSecretKey = identity.signingSecretKey ∧
      ∃ bundle, body.get? (bytes "publicKeyBundle") = some bundle ∧
        bundle.get? (bytes "identityKey") = some (.str k.publicKey) ∧
        bundle.get? (bytes "signingKey") = some (.str k.signingPublicKey) := by
  obtain ⟨bundle, material, hbundle, hmaterial, hidentity⟩ := openKeyFile_ok h
  obtain ⟨nonce, ciphertext, salt, ops, mem, key, plaintext, hcarries, hkdf, hplaintext, hjson⟩ :=
    carriesKeys_of_open hparse hmaterial
  obtain ⟨nonce₀, key₀, privateMaterial, hdump, rfl⟩ := hkey.carriesKeys horiginal hfields
    (hunforged _ _ _ _ _ _ _ hcarries hkdf hplaintext)
  obtain ⟨rfl, -, -, -⟩ := IdealAead.decrypt_only hplaintext
  obtain rfl := Except.ok.inj (hjson.symm.trans (parseJson_material hdump))
  obtain ⟨-, hpublic, hsigning, ⟨t, ht, hprivateKey⟩, t', ht', hsecretKey⟩ :=
    identityOf_ok hidentity
  have hmade := hkey.made
  have hprivate : at' (encryptedPrivateMaterial identity) "identityPrivateKey" =
        .ok (.str (base64Encode identity.privateKey)) ∧
      at' (encryptedPrivateMaterial identity) "signingSecretKey" =
        .ok (.str (base64Encode identity.signingSecretKey)) := by
    simp +decide [encryptedPrivateMaterial, at'_mkObj, Json.lookup, orJsonError]
  cases ht.symm.trans hprivate.1
  cases ht'.symm.trans hprivate.2
  have hidentityKey := Except.ok.inj
    (hprivateKey.symm.trans (base64DecodeArray_encode hmade.length _))
  have hsigningKey := Except.ok.inj
    (hsecretKey.symm.trans (base64DecodeArray_encode hmade.signingLength _))
  exact ⟨hidentityKey, hsigningKey, bundle, at'_ok.mp hbundle, at'_ok.mp hpublic,
    at'_ok.mp hsigning⟩

end Open

/-! ## Logging in -/

section Login

variable [DecidableEq α] [LawfulBase64 α] [IdealAead α] [IdealKdf α] {home : Bytes}
  {username password : List α} {fs₀ fs₁ : Files Bytes α} {log : CallLog (Op α) Op.Res}
  {x : Except Exn (RegistrationKeyMaterial α)}

/-- **Whose keys a login gives** on a key file that someone without the password has put in
the place of the one a signup wrote: the private keys are those of the signup, and the
identity is authentic exactly when the bundle in the file names its public keys. -/
theorem loadedKeys_authentic_iff (hhome : home ≠ []) (hvalid : validUtf8 username = true)
    (habsent : fs₀ (keyFile home username) = none)
    (hsignup : (createForSignup home username password).Runs (logged (onFiles fun _ => False))
      (⟨fs₀, ()⟩, []) (some x) (⟨fs₁, ()⟩, log)) :
    ∃ generated original, keyPairs log = generated.keyPairs ∧ generated.Made ∧
      fs₁ (keyFile home username) = some original ∧
      ∀ text, UnforgedKeys username password original text → ∀ k w,
        (loadForLogin home username password).Runs (onFiles fun _ => False)
          ⟨Function.update fs₁ (keyFile home username) (some text), ()⟩ (some (.ok k)) w →
        k.privateKey = generated.privateKey ∧ k.signingSecretKey = generated.signingSecretKey ∧
          (AuthenticKeys generated k ↔ NamesKeys generated text) := by
  obtain ⟨identity, bundle, file, _, rfl, -, hpairs, hsigned⟩ :=
    (ensures_createForSignup_all hhome hvalid habsent
      fun salt => exists_keyEncryptionKey password salt _ _).of_runs hsignup
  obtain ⟨original, originalBody, horiginal, hparse₀, hfields⟩ := hsigned.holds
  have hkey := hsigned.isKeyFile
  refine ⟨identity, original, hpairs, hkey.made, horiginal, ?_⟩
  intro text hunforged k w hlogin
  obtain ⟨-, hiff⟩ := (ensures_loadForLogin_text (I := fun _ => True) trivial).of_runs hlogin
  obtain ⟨-, text', body, htext, hparse, hopen⟩ := (hiff k).mp rfl
  have htext' : Function.update fs₁ (keyFile home username) (some text) (keyFile home username) =
      some text' := htext
  rw [Function.update_self] at htext'
  cases htext'
  obtain ⟨hprivate, hsecret, bundle', hbundle, hidentityKey, hsigningKey⟩ :=
    openKeyFile_tampered hkey hparse₀ hfields hunforged hparse hopen
  refine ⟨hprivate, hsecret, ?_⟩
  have hmade := hkey.made
  constructor
  · intro h
    exact ⟨body, bundle', hparse, hbundle, h.publicKey ▸ hidentityKey,
      h.signingPublicKey ▸ hsigningKey⟩
  · rintro ⟨body', bundle'', hparse', hbundle', hpublic, hsigning⟩
    obtain rfl : body = body' := Option.some.inj (hparse.symm.trans hparse')
    obtain rfl : bundle' = bundle'' := Option.some.inj (hbundle.symm.trans hbundle')
    have hpublicKey : k.publicKey = identity.publicKey :=
      Json.str.inj (Option.some.inj (hidentityKey.symm.trans hpublic))
    have hsigningPublicKey : k.signingPublicKey = identity.signingPublicKey :=
      Json.str.inj (Option.some.inj (hsigningKey.symm.trans hsigning))
    exact ⟨by rw [hpublicKey, hprivate, hmade.publicKey],
      by rw [hsigningPublicKey, hsecret, hmade.signingPublicKey], hpublicKey, hprivate,
      hsigningPublicKey, hsecret⟩

end Login

/-! ## The bundle of somebody else -/

section Transplant

variable [DecidableEq α] [LawfulBase64 α] [LawfulDh α] [LawfulSigning α] [LawfulAead α]
  {home : Bytes} {username password : List α} {fs fs₀ : Files Bytes α}
  {identity other : LocalIdentityKey α} {file bundle : Json α}

/-- **A key file with the bundle of another identity opens**: it gives the private keys of the
one and the public keys of the other. -/
theorem exists_transplanted (hhome : home ≠ []) (hvalid : validUtf8 username = true)
    (hsigned : SignedUp home username password identity bundle file fs₀ fs) (hother : other.Made) :
    ∃ original text k w, fs (keyFile home username) = some original ∧
      UnforgedKeys username password original text ∧
      (loadForLogin home username password).Runs (onFiles fun _ => False)
        ⟨Function.update fs (keyFile home username) (some text), ()⟩ (some (.ok k)) w ∧
      k.privateKey = identity.privateKey ∧ k.publicKey = other.publicKey := by
  have hkey := hsigned.isKeyFile
  obtain ⟨original, body, horiginal, hparse, hfields⟩ := hsigned.holds
  obtain ⟨_, salt, nonce, key, privateMaterial, -, hsalt, hnonce, hkdf, hdump, hfile⟩ :=
    hkey.exists_eq
  obtain ⟨otherBundle, hbundle⟩ := exists_publicBundle hother
  let ciphertext := Crypto.aeadEncrypt privateMaterial username nonce key
  let changed := newKeyFile username otherBundle ciphertext nonce salt
  obtain ⟨text, htext⟩ : ∃ text, jsonFileText changed = .ok text := by
    cases htext : jsonFileText changed with
    | ok text => exact ⟨text, rfl⟩
    | error e =>
        have hinvalid := validUtf8_of_newKeyFile (printable_publicBundle hother hbundle) htext
        rw [hvalid] at hinvalid
        cases hinvalid
  have hchanged : Json.parse text = some changed := by
    rw [parse_text (wf_newKeyFile (wf_publicBundle hbundle)) htext,
      norm_newKeyFile (norm_publicBundle hbundle)]
  have hmaterial : changed.get? (bytes "privateMaterial") = body.get? (bytes "privateMaterial") := by
    rw [hfields _ (by decide), hkey.get?_recorded, if_neg (by decide), hfile]
    simp +decide [changed, ciphertext, newKeyFile, Json.get?_mkObj, Json.lookup]
  have hopen : openKeyFile (keyFile home username) username password (recorded changed []) =
      .ok _ := openKeyFile_newKeyFile (keyFile home username) hkey.made
    (validateBundle_publicBundle hother hbundle) (publicBundle_keys hbundle).1
    (publicBundle_keys hbundle).2 hsalt hnonce hkdf hdump rfl []
  rw [recorded_newKeyFile] at hopen
  obtain ⟨x, w, hrun⟩ := exists_runs (onFiles_total fun _ => False)
    (loadForLogin home username password)
    ⟨Function.update fs (keyFile home username) (some text), ()⟩
  obtain ⟨-, hiff⟩ := (ensures_loadForLogin_text (I := fun _ => True) trivial).of_runs hrun
  obtain rfl := (hiff _).mpr ⟨hhome, text, changed, Function.update_self .., hchanged, hopen⟩
  refine ⟨original, text, _, w, horiginal, ?_, hrun, rfl, rfl⟩
  intro nonce' ciphertext' salt' ops mem key' plaintext hcarries _ _
  obtain ⟨file', j, n, c, hparse', hj, hrest⟩ := hcarries
  obtain rfl : changed = file' := Option.some.inj (hchanged.symm.trans hparse')
  exact ⟨body, j, n, c, hparse, hmaterial ▸ hj, hrest⟩

end Transplant

omit [FloatFormat] in
/-- Somebody has the public key of another private key. -/
theorem exists_otherKeys {identity : LocalIdentityKey UInt8} : letI := plainCrypto; identity.Made →
    ∃ other : LocalIdentityKey UInt8, other.Made ∧
      other.publicKey ≠ base64Encode (Crypto.boxPublicKey identity.privateKey) := by
  let := plainCrypto
  have := lawfulBase64_plain
  intro hmade
  obtain ⟨private', hlength, hne⟩ : ∃ private' : List UInt8, private'.length = 32 ∧
      private' ≠ identity.privateKey := by
    by_cases hzero : identity.privateKey = List.replicate 32 0
    · refine ⟨List.replicate 32 1, by decide, ?_⟩
      rw [hzero]
      decide
    · exact ⟨List.replicate 32 0, by decide, fun h => hzero h.symm⟩
  refine ⟨{ identity with
    publicKey := base64Encode (Crypto.boxPublicKey private')
    privateKey := private' }, { hmade with length := hlength, publicKey := rfl }, fun h => hne ?_⟩
  have hkeys : fit 32 private' = fit 32 identity.privateKey := by
    have hdecode : Crypto.base64Decode (Crypto.base64Encode (Crypto.boxPublicKey private')) =
        Crypto.base64Decode (Crypto.base64Encode (Crypto.boxPublicKey identity.privateKey)) :=
      congrArg _ h
    rw [LawfulBase64.decode_iff.mpr rfl, LawfulBase64.decode_iff.mpr rfl] at hdecode
    exact Option.some.inj hdecode
  have hfit : ∀ s : List UInt8, s.length = 32 → fit 32 s = s := by
    intro s hs
    rw [fit, List.take_append_of_le_length (Nat.le_of_eq hs.symm), List.take_of_length_le
      (Nat.le_of_eq hs)]
  rwa [hfit _ hlength, hfit _ hmade.length] at hkeys

omit [FloatFormat] in
/-- The bundle of somebody else is put in the file: a login gives the private key of the signup,
and the identity is not authentic. -/
theorem loadedKeys_authentic_iff_example : letI := plainFloats; letI := plainCrypto;
    ∃ (generated k : LocalIdentityKey UInt8) (fs : Files Bytes UInt8) (log : _) (x : _)
      (text : List UInt8) (w : _),
      (createForSignup (bytes "/home/a") (bytes "a") (bytes "p")).Runs
        (logged (onFiles fun _ => False)) (⟨fun _ => none, ()⟩, []) (some x) (⟨fs, ()⟩, log) ∧
      keyPairs log = generated.keyPairs ∧
      (loadForLogin (bytes "/home/a") (bytes "a") (bytes "p")).Runs (onFiles fun _ => False)
        ⟨Function.update fs (keyFile (bytes "/home/a") (bytes "a")) (some text), ()⟩ (some (.ok k)) w ∧
      k.privateKey = generated.privateKey ∧ ¬ AuthenticKeys generated k ∧
        ¬ NamesKeys generated text := by
  let := plainFloats
  let := plainCrypto
  have := lawfulBase64_plain
  have := lawfulDh_plain
  have := lawfulSigning_plain
  have := idealAead_plain
  have := idealKdf_plain
  obtain ⟨x, ⟨⟨fs, ⟨⟩⟩, log⟩, hsignup⟩ := Prog.exists_runs
    (logged_total (onFiles_total fun _ => False))
    (createForSignup (bytes "/home/a") (bytes "a") (bytes "p"))
    ((⟨fun _ => none, ()⟩ : World UInt8 Unit), [])
  obtain ⟨generated, original, hpairs, -, horiginal, hlogins⟩ :=
    loadedKeys_authentic_iff (by decide) (by decide) rfl hsignup
  obtain ⟨identity, bundle, file, _, -, -, -, hsigned⟩ :=
    (ensures_createForSignup_all (by decide) (by decide) rfl
      fun salt => exists_keyEncryptionKey (bytes "p") salt _ _).of_runs hsignup
  obtain ⟨other, hother, hne⟩ := exists_otherKeys hsigned.isKeyFile.made
  obtain ⟨original', text, k, w, horiginal', hunforged, hlogin, hprivate, hpublic⟩ :=
    exists_transplanted (by decide) (by decide) hsigned hother
  obtain rfl := Option.some.inj (horiginal.symm.trans horiginal')
  obtain ⟨hgenerated, -, hiff⟩ := hlogins text hunforged k w hlogin
  have hnot : ¬ AuthenticKeys generated k := by
    intro h
    refine hne ?_
    rw [← hpublic, ← hprivate]
    exact h.publicHalf
  exact ⟨generated, k, fs, log, x, text, w, hsignup, hpairs, hlogin, hgenerated, hnot,
    fun hnames => hnot (hiff.mpr hnames)⟩

omit [FloatFormat] in
/-- A file in which the key of somebody else stands beside the user's own private key. -/
theorem not_authenticKeys : letI := plainFloats; letI := plainCrypto;
    ∃ (generated k : LocalIdentityKey UInt8) (fs : Files Bytes UInt8) (log : _) (x : _)
      (original text : List UInt8) (w : _),
      (createForSignup (bytes "/home/a") (bytes "a") (bytes "p")).Runs
        (logged (onFiles fun _ => False)) (⟨fun _ => none, ()⟩, []) (some x) (⟨fs, ()⟩, log) ∧
      keyPairs log = generated.keyPairs ∧
      fs (keyFile (bytes "/home/a") (bytes "a")) = some original ∧
      UnforgedKeys (bytes "a") (bytes "p") original text ∧
      (loadForLogin (bytes "/home/a") (bytes "a") (bytes "p")).Runs (onFiles fun _ => False)
        ⟨Function.update fs (keyFile (bytes "/home/a") (bytes "a")) (some text), ()⟩ (some (.ok k)) w ∧
      k.publicKey ≠ base64Encode (Crypto.boxPublicKey k.privateKey) := by
  let := plainFloats
  let := plainCrypto
  have := lawfulBase64_plain
  have := lawfulDh_plain
  have := lawfulSigning_plain
  have := lawfulAead_plain
  have := idealKdf_plain
  obtain ⟨x, ⟨⟨fs, ⟨⟩⟩, log⟩, hsignup⟩ := Prog.exists_runs
    (logged_total (onFiles_total fun _ => False))
    (createForSignup (bytes "/home/a") (bytes "a") (bytes "p"))
    ((⟨fun _ => none, ()⟩ : World UInt8 Unit), [])
  obtain ⟨identity, bundle, file, _, -, -, hpairs, hsigned⟩ :=
    (ensures_createForSignup_all (by decide) (by decide) rfl
      fun salt => exists_keyEncryptionKey (bytes "p") salt _ _).of_runs hsignup
  obtain ⟨other, hother, hne⟩ := exists_otherKeys hsigned.isKeyFile.made
  obtain ⟨original, text, k, w, horiginal, hunforged, hlogin, hprivate, hpublic⟩ :=
    exists_transplanted (by decide) (by decide) hsigned hother
  refine ⟨identity, k, fs, log, x, original, text, w, hsignup, hpairs, horiginal, hunforged, hlogin,
    fun h => hne ?_⟩
  rwa [hprivate, hpublic] at h

end Kd
