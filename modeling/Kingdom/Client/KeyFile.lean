import Kingdom.Client.LocalKeyStore

/-!
# The key file of a user

What `createForSignup` writes, what later calls and failures on the way leave of it,
and what `loadForLogin` makes of that.

* `Made` — keys as they are generated.
* `IsKeyFile` — the key file of an identity; `recorded` is the file with some
  prekeys recorded as used.
* `Holds` — what a file system holds of it: its text, or the start of it.
* `openKeyFile_recorded` — a login with the password of the signup gives the keys
  made there, without the prekeys recorded as used.
* `ensures_createForSignup`, `ensures_loadForLogin` — the two functions.
-/

namespace Kd

open Codec Process Storage Prog

variable {α : Type} [Alphabet α] [Crypto α]

/-! ## Keys as they are made -/

/-- The public half belongs to the private one. -/
structure LocalPreKey.Made (k : LocalPreKey α) : Prop where
  length : k.privateKey.length = 32
  publicKey : k.publicKey = base64Encode (Crypto.boxPublicKey k.privateKey)

/-- The public halves belong to the private ones, and the prekeys have ids of their
own. -/
structure LocalIdentityKey.Made (k : LocalIdentityKey α) : Prop where
  length : k.privateKey.length = 32
  publicKey : k.publicKey = base64Encode (Crypto.boxPublicKey k.privateKey)
  signingLength : k.signingSecretKey.length = 64
  signingPublicKey : k.signingPublicKey = base64Encode (Crypto.signPublicKey k.signingSecretKey)
  signedPreKey : k.signedPreKey.Made
  oneTimePreKeys : ∀ x ∈ k.oneTimePreKeys, x.Made
  distinct : (k.oneTimePreKeys.map (·.id)).Nodup

section Making

variable {σ : Type} {mayFail : FileOp Bytes α → Prop}
  {net : HttpRequest α → σ → Option (HttpResponse α) → σ → Prop} {I : World α σ → Prop}
  {w : World α σ}

omit [Alphabet α] in
theorem ensures_makePreKey {id : UInt64} (hI : I w) :
    (makePreKey id).Ensures (exec mayFail net) I w fun x w' => w' = w ∧
      ∃ k : LocalPreKey α, x = .ok k ∧ k.id = id ∧ k.Made := by
  rw [makePreKey, ensures_bind, ensures_boxKeypair]
  exact ⟨hI, fun r hr => ⟨hI, rfl, _, rfl, rfl, hr, rfl⟩⟩

omit [Alphabet α] in
theorem ensures_makePreKeys (hI : I w) (ids : List UInt64) :
    (makePreKeys ids).Ensures (exec mayFail net) I w fun x w' => w' = w ∧
      ∃ ks : List (LocalPreKey α), x = .ok ks ∧ ks.map (·.id) = ids ∧ ∀ k ∈ ks, k.Made := by
  induction ids with
  | nil => exact ⟨hI, rfl, [], rfl, rfl, by simp⟩
  | cons id ids ih =>
      rw [makePreKeys, ensures_bind]
      refine ensures_mono (ensures_makePreKey hI) ?_
      rintro _ _ ⟨rfl, k, rfl, hid, hk⟩
      simp only
      rw [ensures_bind]
      refine ensures_mono ih ?_
      rintro _ _ ⟨rfl, ks, rfl, hids, hks⟩
      refine ⟨hI, rfl, k :: ks, rfl, by rw [List.map_cons, hid, hids], ?_⟩
      intro x hx
      rcases List.mem_cons.mp hx with rfl | hx
      · exact hk
      · exact hks x hx

/-- The ids of the prekeys of a new user. -/
def firstIds : List UInt64 := (List.range kOneTimePreKeyBatchSize).map fun i => UInt64.ofNat i + 1

omit [Alphabet α] in
/-- **New keys are as they should be.** -/
theorem ensures_newIdentity (hI : I w) :
    newIdentity.Ensures (exec mayFail net) I w fun x w' => w' = w ∧
      ∃ k : LocalIdentityKey α, x = .ok k ∧ k.Made ∧ k.oneTimePreKeys.map (·.id) = firstIds := by
  rw [newIdentity, ensures_bind, ensures_boxKeypair]
  refine ⟨hI, fun priv hpriv => ?_⟩
  simp only
  rw [ensures_bind, ensures_signKeypair]
  refine ⟨hI, fun sign hsign => ?_⟩
  simp only
  rw [ensures_bind]
  refine ensures_mono (ensures_makePreKey hI) ?_
  rintro _ _ ⟨rfl, spk, rfl, -, hspk⟩
  simp only
  rw [ensures_bind]
  refine ensures_mono (ensures_makePreKeys hI _) ?_
  rintro _ _ ⟨rfl, ks, rfl, hids, hks⟩
  exact ⟨hI, rfl, _, rfl, ⟨hpriv, rfl, hsign, rfl, hspk, hks, by rw [hids]; decide⟩, hids⟩

omit [Alphabet α] in
theorem only_makePreKeys {P : Op α → Prop} (h : P .boxKeypair) (ids : List UInt64) :
    (makePreKeys ids : Action α (List (LocalPreKey α))).Only P := by
  induction ids with
  | nil => trivial
  | cons id ids ih =>
      exact only_bind (only_bind (only_op h) fun _ => trivial) fun _ => only_bind ih fun _ => trivial

omit [Alphabet α] in
/-- New keys are key pairs, and nothing else is used for them. -/
theorem only_newIdentity {P : Op α → Prop} (hbox : P .boxKeypair) (hsign : P .signKeypair) :
    (newIdentity : Action α (LocalIdentityKey α)).Only P := by
  refine only_bind (only_op hbox) fun _ => only_bind (only_op hsign) fun _ => ?_
  refine only_bind (only_bind (only_op hbox) fun _ => trivial) fun _ => ?_
  exact only_bind (only_makePreKeys hbox _) fun _ => trivial

end Making

/-! ## The file -/

/-- The field of the prekeys recorded as used. -/
abbrev usedField : Key := bytes "usedOneTimePreKeyIds"

/-- A file with these prekeys recorded as used. -/
def recorded (file : Json α) (used : List UInt64) : Json α :=
  file.set usedField (.arr (used.map .unsigned))

/-- The key file `createForSignup` makes for an identity. -/
structure IsKeyFile (username password : List α) (identity : LocalIdentityKey α) (file : Json α) :
    Prop where
  made : identity.Made
  ids : identity.oneTimePreKeys.map (·.id) = firstIds
  exists_eq : ∃ bundle salt nonce key privateMaterial, publicBundle identity = .ok bundle ∧
    salt.length = 16 ∧ nonce.length = 24 ∧
    keyEncryptionKey password salt kKdfOpsLimit kKdfMemLimit = .ok key ∧
    (encryptedPrivateMaterial identity).dump = some privateMaterial ∧
    file = newKeyFile username bundle (Crypto.aeadEncrypt privateMaterial username nonce key)
      nonce salt

omit [Alphabet α] in
theorem norm_encryptedPrivateMaterial (identity : LocalIdentityKey α) :
    (encryptedPrivateMaterial identity).norm = encryptedPrivateMaterial identity := by
  have hkeys : identity.oneTimePreKeys.map (Json.norm ∘ LocalPreKey.privateJson) =
      identity.oneTimePreKeys.map LocalPreKey.privateJson := by
    refine List.map_congr_left fun k _ => ?_
    simp [LocalPreKey.privateJson, Json.norm_mkObj, Json.norm]
  simp [encryptedPrivateMaterial, LocalPreKey.privateJson, Json.norm_mkObj, Json.norm,
    Json.normElems_eq_map, hkeys]

theorem norm_publicBundle {identity : LocalIdentityKey α} {bundle : Json α}
    (h : publicBundle identity = .ok bundle) : bundle.norm = bundle := by
  simp only [publicBundle, bind_ok, pure_ok] at h
  obtain ⟨signature, -, rfl⟩ := h
  have hkeys : identity.oneTimePreKeys.map (Json.norm ∘ LocalPreKey.json) =
      identity.oneTimePreKeys.map LocalPreKey.json := by
    refine List.map_congr_left fun k _ => ?_
    simp [LocalPreKey.json, Json.norm_mkObj, Json.norm]
  simp [Json.norm_mkObj, Json.norm, Json.normElems_eq_map, hkeys]

theorem norm_newKeyFile {username bundle ciphertext nonce salt : _} (h : bundle.norm = bundle) :
    (newKeyFile username bundle ciphertext nonce salt : Json α).norm =
      newKeyFile username bundle ciphertext nonce salt := by
  simp [newKeyFile, Json.norm_mkObj, Json.norm, Json.normElems, h]

/-- Nothing is recorded in a new file. -/
theorem recorded_newKeyFile (username : List α) (bundle : Json α) (ciphertext nonce salt : List α) :
    recorded (newKeyFile username bundle ciphertext nonce salt) [] =
      newKeyFile username bundle ciphertext nonce salt :=
  Json.set_mkObj [_, _, _, _, _] "usedOneTimePreKeyIds" (.arr []) (.arr [])

section Files

variable [FloatFormat]

theorem wf_publicBundle {identity : LocalIdentityKey α} {bundle : Json α}
    (h : publicBundle identity = .ok bundle) : bundle.WF := by
  simp only [publicBundle, bind_ok, pure_ok] at h
  obtain ⟨signature, -, rfl⟩ := h
  refine Json.wf_mkObj ?_
  simp only [List.mem_cons, List.not_mem_nil, or_false, forall_eq_or_imp, forall_eq, Json.WF,
    true_and]
  refine ⟨Json.wf_mkObj (by simp [Json.WF]), Json.wfElems_iff.mpr ?_⟩
  intro x hx
  obtain ⟨k, -, rfl⟩ := List.mem_map.mp hx
  exact Json.wf_mkObj (by simp [Json.WF])

omit [Alphabet α] in
theorem wf_encryptedPrivateMaterial (identity : LocalIdentityKey α) :
    (encryptedPrivateMaterial identity).WF := by
  refine Json.wf_mkObj ?_
  simp only [List.mem_cons, List.not_mem_nil, or_false, forall_eq_or_imp, forall_eq, Json.WF,
    true_and]
  refine ⟨Json.wf_mkObj (by simp [Json.WF]), Json.wfElems_iff.mpr ?_⟩
  intro x hx
  obtain ⟨k, -, rfl⟩ := List.mem_map.mp hx
  exact Json.wf_mkObj (by simp [Json.WF])

theorem wf_newKeyFile {username : List α} {bundle : Json α} {ciphertext nonce salt : List α}
    (h : bundle.WF) : (newKeyFile username bundle ciphertext nonce salt).WF := by
  refine Json.wf_mkObj ?_
  simp only [List.mem_cons, List.not_mem_nil, or_false, forall_eq_or_imp, forall_eq, Json.WF,
    true_and, Json.WFElems, and_true]
  exact ⟨h, Json.wf_mkObj (by simp [Json.WF]),
    Json.wf_mkObj (by simp [Json.WF, Json.wf_mkObj])⟩

omit [Crypto α] in
/-- A list of ids is a value the parser gives back. -/
theorem recordedList (used : List UInt64) : (Json.arr (used.map .unsigned) : Json α).WF ∧
    (Json.arr (used.map .unsigned) : Json α).Printable ∧
    (Json.arr (used.map .unsigned) : Json α).norm = .arr (used.map .unsigned) := by
  refine ⟨Json.wfElems_iff.mpr (by simp [Json.WF]), Json.printableElems_iff.mpr (by
    simp [Json.Printable]), ?_⟩
  simp [Json.norm, Json.normElems_eq_map, Function.comp_def]

variable {username password : List α} {identity : LocalIdentityKey α} {file : Json α}

/-- A key file and what is recorded in it are values the parser gives back. -/
theorem IsKeyFile.recorded_norm (h : IsKeyFile username password identity file)
    (used : List UInt64) : (recorded file used).isObject = true ∧ (recorded file used).WF ∧
      (recorded file used).norm = recorded file used := by
  obtain ⟨bundle, salt, nonce, key, privateMaterial, hbundle, -, -, -, -, rfl⟩ := h.exists_eq
  obtain ⟨hwf, -, hnorm⟩ := recordedList (α := α) used
  refine ⟨Json.isObject_set (Json.isObject_mkObj _),
    Json.wf_set (wf_newKeyFile (wf_publicBundle hbundle)) hwf, ?_⟩
  rw [recorded, Json.norm_set, norm_newKeyFile (norm_publicBundle hbundle), hnorm]

omit [FloatFormat] in
theorem IsKeyFile.recorded_nil (h : IsKeyFile username password identity file) :
    recorded file [] = file := by
  obtain ⟨bundle, salt, nonce, key, privateMaterial, -, -, -, -, -, rfl⟩ := h.exists_eq
  exact recorded_newKeyFile ..

omit [FloatFormat] in
/-- The fields of a file with some prekeys recorded. -/
theorem IsKeyFile.get?_recorded (h : IsKeyFile username password identity file)
    (used : List UInt64) (k : Key) : (recorded file used).get? k =
      if k = usedField then some (.arr (used.map .unsigned)) else file.get? k := by
  obtain ⟨bundle, salt, nonce, key, privateMaterial, -, -, -, -, -, rfl⟩ := h.exists_eq
  have hobj : (newKeyFile username bundle (Crypto.aeadEncrypt privateMaterial username nonce key)
      nonce salt).isObject = true := Json.isObject_mkObj _
  rw [recorded, Json.get?_set hobj]
  simp only [eq_comm]

/-! ## Logging in -/

section Login

variable [LawfulBase64 α]

omit [FloatFormat] in
theorem base64Decode_encode (data : List α) (field : String) :
    base64Decode (base64Encode data) field = .ok data := by
  rw [base64Decode, orThrow_ok]
  exact LawfulBase64.decode_iff.mpr rfl

omit [FloatFormat] in
theorem base64DecodeArray_encode {n : Nat} {data : List α} (h : data.length = n) (field : String) :
    base64DecodeArray n (base64Encode data) field = .ok data :=
  base64DecodeArray_ok.mpr ⟨LawfulBase64.decode_iff.mpr rfl, h⟩

omit [FloatFormat] in
theorem decodes_encode {n : Nat} {data : List α} (h : data.length = n) :
    Decodes n (base64Encode data) data := ⟨LawfulBase64.decode_iff.mpr rfl, h⟩

omit [LawfulBase64 α] in
/-- The fields of a bundle that is published. -/
theorem of_publicBundle {bundle : Json α} (h : publicBundle identity = .ok bundle) :
    ∃ signature, signSignedPreKey identity.signedPreKey.id identity.signedPreKey.publicKey
        identity.signingSecretKey = .ok signature ∧
      BundleFields.Of ⟨identity.publicKey, identity.signingPublicKey, identity.signedPreKey.id,
        identity.signedPreKey.publicKey, signature⟩ bundle := by
  simp only [publicBundle, bind_ok, pure_ok] at h
  obtain ⟨signature, hsign, rfl⟩ := h
  refine ⟨signature, hsign, ?_⟩
  constructor
  all_goals simp +decide [Json.get?_mkObj, Json.lookup, Json.contains, Json.int?, Json.uint64?]

/-- **The bundle of keys as they are made is accepted.** -/
theorem validateBundle_publicBundle [DecidableEq α] [LawfulDh α] [LawfulSigning α]
    {bundle : Json α} (hmade : identity.Made) (h : publicBundle identity = .ok bundle) :
    validateBundle bundle = .ok () := by
  obtain ⟨signature, hsign, hof⟩ := of_publicBundle h
  simp only [signSignedPreKey, signedPreKeySignatureInput, hmade.signedPreKey.publicKey,
    base64Decode_encode, bind_ok, pure_ok, Except.ok.injEq] at hsign
  obtain ⟨input, ⟨_, rfl, rfl⟩, hsig⟩ := hsign
  refine validateBundle_ok.mpr ⟨_, hof, ⟨Crypto.boxPublicKey identity.privateKey, ?_⟩,
    Crypto.signPublicKey identity.signingSecretKey,
    Crypto.boxPublicKey identity.signedPreKey.privateKey, _, ?_, ?_, ?_, LawfulSigning.verify _ _⟩
  · exact hmade.publicKey ▸ decodes_encode (LawfulDh.length_boxPublicKey _)
  · exact hmade.signingPublicKey ▸ decodes_encode (LawfulSigning.length_signPublicKey _)
  · exact hmade.signedPreKey.publicKey ▸ decodes_encode (LawfulDh.length_boxPublicKey _)
  · exact hsig ▸ decodes_encode (LawfulSigning.length_signDetached _ _)

/-- The prekeys a file holds, without those it records as used. -/
theorem loadPreKeys_privateJson (used : List UInt64) {keys : List (LocalPreKey α)}
    (h : ∀ k ∈ keys, k.Made) : loadPreKeys used (keys.map LocalPreKey.privateJson) =
      .ok (keys.filter (·.id ∉ used)) := by
  induction keys with
  | nil => rfl
  | cons k keys ih =>
      have hid : at' k.privateJson "id" = .ok (.unsigned k.id) := at'_ok.mpr (by
        simp +decide [LocalPreKey.privateJson, Json.get?_mkObj, Json.lookup])
      have hpublic : at' k.privateJson "publicKey" = .ok (.str k.publicKey) := at'_ok.mpr (by
        simp +decide [LocalPreKey.privateJson, Json.get?_mkObj, Json.lookup])
      have hprivate : at' k.privateJson "privateKey" = .ok (.str (base64Encode k.privateKey)) :=
        at'_ok.mpr (by simp +decide [LocalPreKey.privateJson, Json.get?_mkObj, Json.lookup])
      have hmade := h k List.mem_cons_self
      have hkeys := ih fun x hx => h x (List.mem_cons_of_mem _ hx)
      rw [List.map_cons, loadPreKeys]
      refine bind_ok.mpr ⟨_, hid, bind_ok.mpr ⟨k.id, rfl, ?_⟩⟩
      by_cases hused : k.id ∈ used
      · rw [if_pos hused, List.filter_cons_of_neg (by simpa using hused)]
        exact hkeys
      · rw [if_neg hused, List.filter_cons_of_pos (by simpa using hused)]
        refine bind_ok.mpr ⟨_, hpublic, bind_ok.mpr ⟨k.publicKey, rfl, ?_⟩⟩
        refine bind_ok.mpr ⟨_, hprivate, bind_ok.mpr ⟨_, rfl, ?_⟩⟩
        exact bind_ok.mpr ⟨_, base64DecodeArray_encode hmade.length _, bind_ok.mpr ⟨_, hkeys, rfl⟩⟩

variable [DecidableEq α]

/-- What opening a file under a password comes to: the key is derived and the private keys
decrypted under it. -/
theorem openPrivateMaterial_newKeyFile (keyPath : Bytes) {bundle : Json α}
    {salt nonce ciphertext : List α} (hsalt : salt.length = 16) (hnonce : nonce.length = 24)
    (hfile : file = newKeyFile username bundle ciphertext nonce salt) (used : List UInt64)
    (password : List α) :
    openPrivateMaterial keyPath username password (recorded file used) = (do
      let key ← keyEncryptionKey password salt kKdfOpsLimit kKdfMemLimit
      let plaintext ← orThrow (bytes "Failed to decrypt local private key for user: " ++
        (toBytes username).getD []) (Crypto.aeadDecrypt ciphertext username nonce key)
      parseJson plaintext "privateMaterial") := by
  have hget : ∀ k ≠ usedField, (recorded file used).get? k = file.get? k := by
    intro k hk
    rw [hfile, recorded, newKeyFile, Json.get?_set (Json.isObject_mkObj _), if_neg hk.symm]
  have hprivate : at' (recorded file used) "privateMaterial" = .ok (.mkObj
      [("algorithm", .str (lit "XChaCha20-Poly1305")), ("ciphertext", .str (base64Encode ciphertext)),
        ("nonce", .str (base64Encode nonce))]) := by
    rw [at'_ok, hget _ (by decide), hfile]
    simp +decide [newKeyFile, Json.get?_mkObj, Json.lookup]
  have hkdf : at' (recorded file used) "kdf" = .ok (.mkObj
      [("algorithm", .str (lit kKdfHkdfAlgorithm)),
        ("hkdf", .mkObj [("digest", .str (lit "SHA-256")), ("info", .str (lit kKeyEncryptionInfo))]),
        ("salt", .str (base64Encode salt)), ("opsLimit", .unsigned kKdfOpsLimit),
        ("memLimit", .unsigned kKdfMemLimit)]) := by
    rw [at'_ok, hget _ (by decide), hfile]
    simp +decide [newKeyFile, Json.get?_mkObj, Json.lookup]
  simp +decide [openPrivateMaterial, hprivate, hkdf, at'_mkObj, Json.lookup, orJsonError,
    getString, getUInt64, getUnsignedLongLong, Json.str?, Json.uint64?, Json.unsignedLongLong?,
    ensure, base64DecodeArray_encode hsalt, base64DecodeArray_encode hnonce, base64Decode_encode]

omit [LawfulBase64 α] [DecidableEq α] in
/-- The private keys read back as they are printed. -/
theorem parseJson_material {privateMaterial : List α}
    (h : (encryptedPrivateMaterial identity).dump = some privateMaterial) :
    parseJson privateMaterial "privateMaterial" = .ok (encryptedPrivateMaterial identity) := by
  rw [parseJson, orThrow_ok, Json.parse_dump h (wf_encryptedPrivateMaterial identity),
    norm_encryptedPrivateMaterial]
  exact Option.filter_some_pos (Json.isObject_mkObj _)

/-- The keys of a login: those of the signup, without the prekeys recorded as used. -/
def LocalIdentityKey.unused (identity : LocalIdentityKey α) (used : List UInt64)
    (keyFilePath : Bytes) : LocalIdentityKey α :=
  { identity with
    oneTimePreKeys := identity.oneTimePreKeys.filter (·.id ∉ used)
    keyFilePath := keyFilePath }

omit [FloatFormat] [LawfulBase64 α] [DecidableEq α] [Alphabet α] in
theorem LocalIdentityKey.Made.unused (h : identity.Made) (used : List UInt64) (path : Bytes) :
    (identity.unused used path).Made where
  length := h.length
  publicKey := h.publicKey
  signingLength := h.signingLength
  signingPublicKey := h.signingPublicKey
  signedPreKey := h.signedPreKey
  oneTimePreKeys x hx := h.oneTimePreKeys x (List.mem_filter.mp hx).1
  distinct := h.distinct.sublist (List.filter_sublist.map _)

omit [LawfulBase64 α] [DecidableEq α] [FloatFormat] [Crypto α] [Alphabet α] in
theorem mapM_getUInt64 [FloatFormat] (used : List UInt64) :
    (used.map (Json.unsigned : UInt64 → Json α)).mapM getUInt64 = .ok used := by
  induction used with
  | nil => rfl
  | cons id used ih =>
      rw [List.map_cons, List.mapM_cons, ih]
      rfl

omit [FloatFormat] [LawfulBase64 α] [DecidableEq α] in
theorem recordedIds_recorded [FloatFormat] (h : IsKeyFile username password identity file)
    (used : List UInt64) : recordedIds (recorded file used) = .ok used := by
  rw [recordedIds, h.get?_recorded used, if_pos rfl]
  exact mapM_getUInt64 used

/-- What a key file gives under its password: the private keys are those that were
encrypted, and the two public ones those of the bundle beside them. -/
theorem openKeyFile_newKeyFile [LawfulAead α] (keyPath : Bytes) {bundle : Json α}
    {salt nonce key privateMaterial publicKey signingPublicKey : List α} (hmade : identity.Made)
    (hvalid : validateBundle bundle = .ok ())
    (hpublicKey : at' bundle "identityKey" = .ok (.str publicKey))
    (hsigningPublicKey : at' bundle "signingKey" = .ok (.str signingPublicKey))
    (hsalt : salt.length = 16) (hnonce : nonce.length = 24)
    (hkey : keyEncryptionKey password salt kKdfOpsLimit kKdfMemLimit = .ok key)
    (hdump : (encryptedPrivateMaterial identity).dump = some privateMaterial)
    (hfile : file = newKeyFile username bundle (Crypto.aeadEncrypt privateMaterial username nonce key)
      nonce salt) (used : List UInt64) :
    openKeyFile keyPath username password (recorded file used) =
      .ok { identity.unused used keyPath with
        publicKey := publicKey
        signingPublicKey := signingPublicKey } := by
  have hget : ∀ k, (recorded file used).get? k =
      if k = usedField then some (.arr (used.map .unsigned)) else file.get? k := by
    intro k
    rw [hfile, recorded, newKeyFile, Json.get?_set (Json.isObject_mkObj _)]
    simp only [eq_comm]
  have hmaterial : openPrivateMaterial keyPath username password (recorded file used) =
      .ok (encryptedPrivateMaterial identity) := by
    rw [openPrivateMaterial_newKeyFile keyPath hsalt hnonce hfile, hkey, ok_bind,
      LawfulAead.decrypt_encrypt, orThrow, Option.elim_some, ok_bind, parseJson_material hdump]
  have hused : recordedIds (recorded file used) = .ok used := by
    rw [recordedIds, hget, if_pos rfl]
    exact mapM_getUInt64 used
  have hkeys := loadPreKeys_privateJson used hmade.oneTimePreKeys
  have hversion : fieldIs getInt (recorded file used) "version" 2 = .ok true := by
    refine fieldIs_ok.mpr ⟨.unsigned 2, ?_, rfl⟩
    rw [hget, if_neg (by decide), hfile]
    simp +decide [newKeyFile, Json.get?_mkObj, Json.lookup]
  have husername : fieldIs getString (recorded file used) "username" username = .ok true := by
    refine fieldIs_ok.mpr ⟨.str username, ?_, rfl⟩
    rw [hget, if_neg (by decide), hfile]
    simp +decide [newKeyFile, Json.get?_mkObj, Json.lookup]
  have hcontains : (recorded file used).contains (bytes "publicKeyBundle") ∧
      (recorded file used).contains (bytes "privateMaterial") ∧
      (recorded file used).contains (bytes "kdf") := by
    simp only [Json.contains, hget]
    simp +decide [hfile, newKeyFile, Json.get?_mkObj, Json.lookup]
  have hbundle : at' (recorded file used) "publicKeyBundle" = .ok bundle := by
    rw [at'_ok, hget, if_neg (by decide), hfile]
    simp +decide [newKeyFile, Json.get?_mkObj, Json.lookup]
  simp only [openKeyFile, hversion, husername, hbundle, hvalid, hmaterial, ok_bind, ensure,
    if_pos hcontains, if_true]
  simp +decide [identityOf, hpublicKey, hsigningPublicKey, encryptedPrivateMaterial,
    LocalPreKey.privateJson, at'_mkObj, Json.lookup, orJsonError, getString, getUInt64, Json.str?,
    Json.uint64?, Json.elements, hused, base64DecodeArray_encode hmade.length,
    base64DecodeArray_encode hmade.signingLength, base64DecodeArray_encode hmade.signedPreKey.length]
  rw [hkeys]
  rfl

omit [FloatFormat] [LawfulBase64 α] [DecidableEq α] in
/-- The public keys of a bundle. -/
theorem publicBundle_keys {bundle : Json α} (h : publicBundle identity = .ok bundle) :
    at' bundle "identityKey" = .ok (.str identity.publicKey) ∧
      at' bundle "signingKey" = .ok (.str identity.signingPublicKey) := by
  simp only [publicBundle, bind_ok, pure_ok] at h
  obtain ⟨signature, -, rfl⟩ := h
  simp +decide [at'_mkObj, Json.lookup, orJsonError]

/-- **What a key file gives to a user who logs in with the password of the signup.** -/
theorem openKeyFile_recorded [LawfulDh α] [LawfulSigning α] [LawfulAead α] (keyPath : Bytes)
    (h : IsKeyFile username password identity file) (used : List UInt64) :
    openKeyFile keyPath username password (recorded file used) =
      .ok (identity.unused used keyPath) := by
  obtain ⟨bundle, salt, nonce, key, privateMaterial, hbundle, hsalt, hnonce, hkey, hdump, hfile⟩ :=
    h.exists_eq
  obtain ⟨hpublicKey, hsigningPublicKey⟩ := publicBundle_keys hbundle
  exact openKeyFile_newKeyFile keyPath h.made (validateBundle_publicBundle h.made hbundle) hpublicKey
    hsigningPublicKey hsalt hnonce hkey hdump hfile used

end Login

/-! ## What a file system holds of it -/

/-- The text of the file with these prekeys recorded, or the start of it. -/
def Holds (path : Bytes) (file : Json α) (used : List UInt64) (fs : Files Bytes α) : Prop :=
  ∃ t, t <+: (jsonFileText (recorded file used)).toOption.getD [] ∧ fs path = some t

omit [Crypto α] [FloatFormat] in
/-- Writing the file leaves what it held, or holds the new text or the start of it. -/
theorem Holds.of_cut {path : Bytes} {used : List UInt64} {fs fs' : Files Bytes α}
    (h : Partial path (recorded file used) fs fs') : fs' = fs ∨ Holds path file used fs' := by
  rcases h with rfl | ⟨t, ht, rfl⟩
  · exact .inl rfl
  · exact .inr ⟨t, ht, Function.update_self ..⟩

omit [Crypto α] [FloatFormat] in
theorem Holds.of_written {whole : Prop} {path : Bytes} {used : List UInt64}
    {fs fs' : Files Bytes α} (h : Written whole path (recorded file used) fs fs') :
    Holds path file used fs' := by
  obtain ⟨text, t, htext, ht, -, rfl⟩ := h
  refine ⟨t, ?_, Function.update_self ..⟩
  rw [htext]
  exact ht

/-- Whatever is read of it, it is the whole file or no JSON. -/
theorem Holds.jsonOfFile {path : Bytes} {used : List UInt64} {fs : Files Bytes α}
    (h : Holds path file used fs) (hkey : IsKeyFile username password identity file)
    (openError parseError : String) {r : Option (List α)}
    (hr : r = fs path ∨ r = none ∨ ∃ text n, fs path = some text ∧ r = some (text.take n)) :
    (∃ e, jsonOfFile openError parseError path r = .error e) ∨
      ((fs path).bind Json.parse = some (recorded file used) ∧
        jsonOfFile openError parseError path r = .ok (recorded file used)) := by
  obtain ⟨t, ht, hpath⟩ := h
  obtain ⟨hobj, hwf, hnorm⟩ := hkey.recorded_norm used
  have hstart : r = none ∨ ∃ s, s <+: t ∧ r = some s := by
    rcases hr with rfl | rfl | ⟨t', n, ht', rfl⟩
    · exact .inr ⟨t, List.prefix_rfl, hpath⟩
    · exact .inl rfl
    · rw [hpath] at ht'
      cases ht'
      exact .inr ⟨t.take n, List.take_prefix n t, rfl⟩
  rcases hstart with rfl | ⟨s, hs, rfl⟩
  · exact .inl ⟨_, rfl⟩
  · rw [Kd.jsonOfFile]
    have hread : ∀ t, t <+: (jsonFileText (recorded file used)).toOption.getD [] →
        Json.parse t = some (recorded file used) ∨ ∀ s, s <+: t → Json.parse s = none := by
      intro t ht
      cases htext : jsonFileText (recorded file used) with
      | ok text =>
          rw [htext] at ht
          exact hnorm ▸ parse_start hobj hwf htext ht
      | error e =>
          rw [htext] at ht
          obtain rfl := List.prefix_nil.mp ht
          refine .inr fun s hs => ?_
          obtain rfl := List.prefix_nil.mp hs
          rfl
    rcases hread t ht with hwhole | hnone
    · rcases hread s (hs.trans ht) with hsome | hnone
      · refine .inr ⟨?_, ?_⟩
        · rw [hpath, Option.bind_some, hwhole]
        · rw [hsome]
          rfl
      · exact .inl ⟨_, by rw [hnone s List.prefix_rfl]; rfl⟩
    · exact .inl ⟨_, by rw [hnone s hs]; rfl⟩

section Rules

variable {σ : Type} {mayFail : FileOp Bytes α → Prop}
  {net : HttpRequest α → σ → Option (HttpResponse α) → σ → Prop} {I : World α σ → Prop}
  {w : World α σ} {path : Bytes} {used : List UInt64}

/-- Reading the key file gives the whole file or an exception. -/
theorem ensures_readKeyFile {Q : Except Exn (Json α) → World α σ → Prop} (hI : I w)
    (hkey : IsKeyFile username password identity file) (hholds : Holds path file used w.files)
    (hok : (w.files path).bind Json.parse = some (recorded file used) →
      Q (.ok (recorded file used)) w) (herr : ∀ e, Q (.error e) w) :
    (readKeyFile path).Ensures (exec mayFail net) I w Q := by
  have hread : ∀ r, (r = w.files path ∨ r = none ∨
      ∃ text n, w.files path = some text ∧ r = some (text.take n)) →
      Q (jsonOfFile "Failed to open local key file for reading: "
        "Local key file is not valid JSON: " path r) w := by
    intro r hr
    rcases hholds.jsonOfFile hkey _ _ hr with ⟨e, he⟩ | ⟨hparse, heq⟩
    · rw [he]
      exact herr e
    · rw [heq]
      exact hok hparse
  exact ensures_readJsonFile hI (hread _ (.inl rfl)) fun t _ ht => hread t (.inr ht)

/-- A login leaves the files as they are, whoever logs in. -/
theorem loadForLogin_files [DecidableEq α] {home : Bytes} (hI : I w) :
    (loadForLogin home username password).Ensures (exec mayFail net) I w fun _ w' => w' = w := by
  rw [loadForLogin, ensures_bind, ensures_ofExcept]
  refine ⟨hI, ?_⟩
  cases defaultKeyPath home username with
  | error e => rfl
  | ok path =>
      simp only
      rw [ensures_bind]
      refine ensures_readJsonFile hI ?_ fun t _ _ => ?_
      all_goals
        split
        · exact ensures_ofExcept.mpr ⟨hI, rfl⟩
        · rfl

/-- **With the password of the signup it gives what is left of the keys.** -/
theorem ensures_loadForLogin [DecidableEq α] [LawfulBase64 α] [LawfulDh α] [LawfulSigning α]
    [LawfulAead α] {home : Bytes} (hI : I w)
    (hkey : IsKeyFile username password identity file)
    (hholds : Holds (keyFile home username) file used w.files) :
    (loadForLogin home username password).Ensures (exec mayFail net) I w fun x w' => w' = w ∧
      ∀ k, x = .ok k → k = identity.unused used (keyFile home username) := by
  rw [loadForLogin, ensures_bind, ensures_ofExcept]
  refine ⟨hI, ?_⟩
  cases hpath : defaultKeyPath home username with
  | error e => exact ⟨rfl, fun k h => by cases h⟩
  | ok path =>
      obtain rfl := eq_keyFile hpath
      simp only
      rw [ensures_bind]
      refine ensures_readKeyFile hI hkey hholds (fun _ => ?_) fun e => ⟨rfl, fun k h => by cases h⟩
      simp only
      rw [ensures_ofExcept, openKeyFile_recorded _ hkey]
      exact ⟨hI, rfl, fun k h => (Except.ok.inj h).symm⟩

omit [Alphabet α] [Crypto α] in
theorem alreadyRecorded_unsigned (id : UInt64) (used : List UInt64) :
    alreadyRecorded id (used.map (Json.unsigned : UInt64 → Json α)) = .ok (decide (id ∈ used)) := by
  induction used with
  | nil => rfl
  | cons u used ih =>
      rw [List.map_cons, alreadyRecorded]
      refine bind_ok.mpr ⟨u, rfl, ?_⟩
      by_cases h : u = id
      · have hmem : id ∈ u :: used := by simp [h]
        rw [if_pos h, decide_eq_true hmem]
        rfl
      · have h' : id ≠ u := fun he => h he.symm
        simp [h, h', ih]

/-- **Recording a prekey** leaves the file as it was or a start of its new text.  When
no failure is reported, the file was read and its new text written. -/
theorem ensures_recordUsed (hkey : IsKeyFile username password identity file)
    (hholds : Holds path file used w.files) {id : UInt64} (hid : id ∉ used) :
    (recordUsed path id).Ensures (exec mayFail net)
      (fun w' => Partial path (recorded file (used ++ [id])) w.files w'.files) w fun x w' =>
        (x = .ok () → (w.files path).bind Json.parse = some (recorded file used) ∧
          Written (Closes mayFail path) path (recorded file (used ++ [id])) w.files w'.files) := by
  obtain ⟨hobj, -, -⟩ := hkey.recorded_norm used
  have hself : asObject (recorded file used) = .ok (recorded file used) := by
    cases hfile : recorded file used with
    | obj fs => rfl
    | _ => rw [hfile] at hobj; cases hobj
  have harr : (((recorded file used).get? usedField).bind Json.arr?).getD [] =
      used.map Json.unsigned := by
    rw [hkey.get?_recorded, if_pos rfl]
    rfl
  have hset : (recorded file used).set usedField
      (.arr (used.map Json.unsigned ++ [.unsigned id])) = recorded file (used ++ [id]) := by
    rw [recorded, recorded, Json.set_set, List.map_append, List.map_singleton]
  rw [recordUsed, ensures_bind]
  refine ensures_readKeyFile (.inl rfl) hkey hholds (fun hparse => ?_) fun e h => by cases h
  simp only
  rw [ensures_bind, ensures_ofExcept, hself]
  refine ⟨.inl rfl, ?_⟩
  simp only
  rw [harr, ensures_bind, ensures_ofExcept, alreadyRecorded_unsigned]
  refine ⟨.inl rfl, ?_⟩
  simp only [decide_eq_false hid, Bool.false_eq_true, if_false]
  rw [hset]
  refine ensures_writeInPlace (fun fs h => h) (fun text htext _ => ⟨hparse, .full htext⟩) ?_ ?_
  · intro e _ h
    cases h
  · intro _ x fs _ hwritten h
    exact ⟨hparse, hwritten h⟩

end Rules

/-! ## Signing up -/

section Signup

omit [Crypto α] [FloatFormat] in
theorem keyFile_ne_nil (home : Bytes) (username : List α) : keyFile home username ≠ [] := by
  unfold keyFile pathAppend
  split
  all_goals simp +decide

variable [LawfulBase64 α]

omit [FloatFormat] in
theorem printable_publicBundle {bundle : Json α} (hmade : identity.Made)
    (h : publicBundle identity = .ok bundle) : bundle.Printable := by
  have hbase64 : ∀ data : List α, (Json.str (base64Encode data)).Printable :=
    LawfulBase64.validUtf8_encode
  simp only [publicBundle, signSignedPreKey, bind_ok, pure_ok] at h
  obtain ⟨signature, ⟨input, -, rfl⟩, rfl⟩ := h
  refine Json.printable_mkObj ?_
  simp only [List.mem_cons, List.not_mem_nil, or_false, forall_eq_or_imp, forall_eq]
  refine ⟨trivial, validUtf8_lit _, hmade.publicKey ▸ hbase64 _,
    hmade.signingPublicKey ▸ hbase64 _, Json.printable_mkObj ?_, Json.printableElems_iff.mpr ?_⟩
  · simp only [List.mem_cons, List.not_mem_nil, or_false, forall_eq_or_imp, forall_eq]
    exact ⟨trivial, hmade.signedPreKey.publicKey ▸ hbase64 _, hbase64 _⟩
  · intro x hx
    obtain ⟨k, hk, rfl⟩ := List.mem_map.mp hx
    refine Json.printable_mkObj ?_
    simp only [List.mem_cons, List.not_mem_nil, or_false, forall_eq_or_imp, forall_eq]
    exact ⟨trivial, (hmade.oneTimePreKeys k hk).publicKey ▸ hbase64 _⟩

omit [FloatFormat] in
theorem exists_publicBundle (hmade : identity.Made) : ∃ bundle, publicBundle identity = .ok bundle := by
  simp only [publicBundle, signSignedPreKey, signedPreKeySignatureInput,
    hmade.signedPreKey.publicKey, base64Decode_encode, ok_bind]
  exact ⟨_, rfl⟩

/-- The bundle of keys as they are made can be read back. -/
theorem exists_bundle [DecidableEq α] [LawfulDh α] [LawfulSigning α] (hmade : identity.Made)
    (label : String) : ∃ bundle text, validUtf8 text = true ∧ parseJson text label = .ok bundle ∧
      validateBundle bundle = .ok () ∧
      bundle.get? (bytes "identityKey") = some (.str identity.publicKey) := by
  obtain ⟨bundle, hbundle⟩ := exists_publicBundle hmade
  obtain ⟨text, htext⟩ := Json.exists_dump (printable_publicBundle hmade hbundle)
  have hvalid := validateBundle_publicBundle hmade hbundle
  have hwf := wf_publicBundle hbundle
  have hparse := Json.parse_dump htext hwf
  rw [norm_publicBundle hbundle] at hparse
  simp only [publicBundle, bind_ok, pure_ok] at hbundle
  obtain ⟨signature, -, rfl⟩ := hbundle
  refine ⟨_, text, Json.validUtf8_dumpWith htext hwf, ?_, hvalid, ?_⟩
  · rw [parseJson, orThrow_ok, hparse]
    exact Option.filter_some_pos (Json.isObject_mkObj _)
  · simp +decide [Json.get?_mkObj, Json.lookup]

omit [FloatFormat] in
theorem printable_encryptedPrivateMaterial (hmade : identity.Made) :
    (encryptedPrivateMaterial identity).Printable := by
  have hbase64 : ∀ data : List α, (Json.str (base64Encode data)).Printable :=
    LawfulBase64.validUtf8_encode
  have hkey : ∀ k : LocalPreKey α, k.Made → k.privateJson.Printable := by
    intro k hk
    refine Json.printable_mkObj ?_
    simp only [List.mem_cons, List.not_mem_nil, or_false, forall_eq_or_imp, forall_eq]
    exact ⟨trivial, hk.publicKey ▸ hbase64 _, hbase64 _⟩
  refine Json.printable_mkObj ?_
  simp only [List.mem_cons, List.not_mem_nil, or_false, forall_eq_or_imp, forall_eq]
  refine ⟨hbase64 _, hbase64 _, hkey _ hmade.signedPreKey, Json.printableElems_iff.mpr ?_⟩
  intro x hx
  obtain ⟨k, hk, rfl⟩ := List.mem_map.mp hx
  exact hkey k (hmade.oneTimePreKeys k hk)

omit [FloatFormat] in
/-- Only the username can keep a key file from being printed. -/
theorem validUtf8_of_newKeyFile {bundle : Json α} {ciphertext nonce salt : List α} {e : Exn}
    (hbundle : bundle.Printable)
    (h : jsonFileText (newKeyFile username bundle ciphertext nonce salt) = .error e) :
    validUtf8 username = false := by
  have hbase64 : ∀ data : List α, (Json.str (base64Encode data)).Printable :=
    LawfulBase64.validUtf8_encode
  have hlit : ∀ s : String, (Json.str (lit s : List α)).Printable := fun s => validUtf8_lit s
  by_contra hvalid
  rw [Bool.not_eq_false] at hvalid
  have hprint : (newKeyFile username bundle ciphertext nonce salt).Printable := by
    refine Json.printable_mkObj ?_
    simp only [List.mem_cons, List.not_mem_nil, or_false, forall_eq_or_imp, forall_eq]
    refine ⟨trivial, hvalid, hbundle, Json.printable_mkObj ?_, Json.printable_mkObj ?_, trivial⟩
    · simp only [List.mem_cons, List.not_mem_nil, or_false, forall_eq_or_imp, forall_eq]
      exact ⟨hlit _, hbase64 _, hbase64 _⟩
    · simp only [List.mem_cons, List.not_mem_nil, or_false, forall_eq_or_imp, forall_eq]
      refine ⟨hlit _, Json.printable_mkObj ?_, hbase64 _, trivial, trivial⟩
      simp only [List.mem_cons, List.not_mem_nil, or_false, forall_eq_or_imp, forall_eq]
      exact ⟨hlit _, hlit _⟩
  obtain ⟨t, ht⟩ := Json.exists_dumpWith (some 2) 0 hprint
  rw [jsonFileText, ht] at h
  cases h

variable {σ : Type} {mayFail : FileOp Bytes α → Prop}
  {net : HttpRequest α → σ → Option (HttpResponse α) → σ → Prop} {I : World α σ → Prop}
  {w : World α σ} {home : Bytes}

/-- What makes a signup throw before it has written anything. -/
def SignupRefused (mayFail : FileOp Bytes α → Prop) (home : Bytes) (username password : List α)
    (fs : Files Bytes α) : Prop :=
  home = [] ∨ (fs (keyFile home username)).isSome = true ∨ (∃ o, mayFail o) ∨
    ∃ salt e, keyEncryptionKey password salt kKdfOpsLimit kKdfMemLimit = .error e

/-- What a signup does with the keys it has made. -/
def storeIdentity (username password : List α) (keyPath : Bytes) (identity : LocalIdentityKey α) :
    Action α (RegistrationKeyMaterial α) := do
  let salt ← perform (.random 16)
  let key ← Prog.ofExcept (keyEncryptionKey password salt kKdfOpsLimit kKdfMemLimit)
  let nonce ← perform (.random 24)
  let privateMaterial ← Prog.ofExcept (orJsonError (encryptedPrivateMaterial identity).dump)
  let ciphertext := Crypto.aeadEncrypt privateMaterial username nonce key
  let bundle ← Prog.ofExcept (publicBundle identity)
  writeKeyFile keyPath (newKeyFile username bundle ciphertext nonce salt)
  let publicKeyBundle ← Prog.ofExcept (orJsonError bundle.dump)
  return ⟨publicKeyBundle, keyPath⟩

omit [FloatFormat] [LawfulBase64 α] in
/-- A signup makes keys and stores them, unless there is a file already. -/
theorem createForSignup_eq : createForSignup home username password = (do
    let keyPath ← Prog.ofExcept (defaultKeyPath home username)
    if ← fileExists keyPath then
      Prog.fail (.runtimeError (bytes "Local key file already exists: " ++ keyPath))
    else newIdentity >>= storeIdentity username password keyPath) := rfl

omit [FloatFormat] in
/-- **What is written of new keys.**  Once the file is open only a username without text
throws. -/
theorem ensures_storeIdentity {Q : Except Exn (RegistrationKeyMaterial α) → World α σ → Prop}
    {path : Bytes} (hI : I w) (hmade : identity.Made)
    (hids : identity.oneTimePreKeys.map (·.id) = firstIds)
    (hwrite : ∀ file, IsKeyFile username password identity file → ∀ fs,
      Partial path file w.files fs → I { w with files := fs })
    (hkdf : ∀ salt e, keyEncryptionKey password salt kKdfOpsLimit kKdfMemLimit = .error e →
      Q (.error e) w)
    (hdump : validUtf8 username = false → ∀ e,
      Q (.error e) { w with files := Function.update w.files path (some []) })
    (hok : ∀ file text bundle publicKeyBundle, IsKeyFile username password identity file →
      jsonFileText file = .ok text → publicBundle identity = .ok bundle →
      bundle.dump = some publicKeyBundle →
      Q (.ok ⟨publicKeyBundle, path⟩) { w with files := Function.update w.files path (some text) })
    (hfail : (∃ o, mayFail o) → ∀ file x fs, IsKeyFile username password identity file →
      Partial path file w.files fs →
      (∀ m, x = .ok m → Written (Closes mayFail path) path file w.files fs) →
      Q x { w with files := fs }) :
    (storeIdentity username password path identity).Ensures (exec mayFail net) I w Q := by
  obtain ⟨privateMaterial, hmaterial⟩ := Json.exists_dump (printable_encryptedPrivateMaterial hmade)
  obtain ⟨bundle, hbundle⟩ := exists_publicBundle hmade
  rw [storeIdentity, ensures_bind, ensures_random]
  refine ⟨hI, fun salt hsalt => ?_⟩
  simp only
  rw [ensures_bind, ensures_ofExcept]
  refine ⟨hI, ?_⟩
  cases hkey : keyEncryptionKey password salt kKdfOpsLimit kKdfMemLimit with
  | error e => exact hkdf salt e hkey
  | ok key =>
      simp only
      rw [ensures_bind, ensures_random]
      refine ⟨hI, fun nonce hnonce => ?_⟩
      simp only [hmaterial, hbundle]
      have hfile : IsKeyFile username password identity (newKeyFile username bundle
          (Crypto.aeadEncrypt privateMaterial username nonce key) nonce salt) :=
        ⟨hmade, hids, bundle, salt, nonce, key, privateMaterial, hbundle, hsalt, hnonce, hkey,
          hmaterial, rfl⟩
      have hprint := printable_publicBundle hmade hbundle
      obtain ⟨publicKeyBundle, hdumped⟩ := Json.exists_dump hprint
      -- the bundle always has a text, so nothing is thrown after the file
      have hreturn : ∀ fs, I { w with files := fs } →
          Q (.ok ⟨publicKeyBundle, path⟩) { w with files := fs } →
          (Prog.ofExcept (orJsonError bundle.dump) >>= fun publicKeyBundle =>
            (Pure.pure ⟨publicKeyBundle, path⟩ : Action α (RegistrationKeyMaterial α))).Ensures
            (exec mayFail net) I { w with files := fs } Q := by
        intro fs hfs hQ
        rw [hdumped]
        exact ⟨hfs, hQ⟩
      have hstep := hwrite _ hfile
      rw [ensures_bind, ensures_ofExcept]
      refine ⟨hI, ?_⟩
      simp only [orJsonError, Option.elim_some]
      rw [ensures_bind, ensures_ofExcept]
      refine ⟨hI, ?_⟩
      simp only
      rw [ensures_bind]
      refine ensures_writeInPlace hstep (fun text htext => ?_) (fun e herr => ?_)
        fun hmay x fs hcut hwritten => ?_
      · have hfull : Written (Closes mayFail path) path _ w.files _ := .full htext
        exact hreturn _ (hstep _ hfull.partial') (hok _ text bundle _ hfile htext hbundle hdumped)
      · exact hdump (validUtf8_of_newKeyFile hprint herr) e
      · cases x with
        | ok _ =>
            exact hreturn _ (hstep _ hcut) (hfail hmay _ _ _ hfile hcut fun _ _ => hwritten rfl)
        | error e => exact hfail hmay _ _ _ hfile hcut fun _ h => by cases h

omit [FloatFormat] in
/-- **What a signup writes.**  An exception may come before the file is opened, or
because the username has no text. -/
theorem ensures_createForSignup
    {Q : Except Exn (RegistrationKeyMaterial α) → World α σ → Prop}
    (hI : I w)
    (hwrite : w.files (keyFile home username) = none → ∀ identity file,
      IsKeyFile username password identity file → ∀ fs,
      Partial (keyFile home username) file w.files fs → I { w with files := fs })
    (hbefore : ∀ e, SignupRefused mayFail home username password w.files → Q (.error e) w)
    (hdump : w.files (keyFile home username) = none → validUtf8 username = false → ∀ e,
      Q (.error e) { w with files := Function.update w.files (keyFile home username) (some []) })
    (hok : w.files (keyFile home username) = none → ∀ identity file text bundle publicKeyBundle,
      IsKeyFile username password identity file → jsonFileText file = .ok text →
      publicBundle identity = .ok bundle → bundle.dump = some publicKeyBundle →
      Q (.ok ⟨publicKeyBundle, keyFile home username⟩)
        { w with files := Function.update w.files (keyFile home username) (some text) })
    (hfail : (∃ o, mayFail o) → w.files (keyFile home username) = none →
      ∀ identity file x fs, IsKeyFile username password identity file →
      Partial (keyFile home username) file w.files fs →
      (∀ m, x = .ok m →
        Written (Closes mayFail (keyFile home username)) (keyFile home username) file w.files fs) →
      Q x { w with files := fs }) :
    (createForSignup home username password).Ensures (exec mayFail net) I w Q := by
  rw [createForSignup_eq, ensures_bind, ensures_ofExcept]
  refine ⟨hI, ?_⟩
  cases hpath : defaultKeyPath home username with
  | error e =>
      refine hbefore e (.inl ?_)
      by_contra hhome
      cases (defaultKeyPath_ok hhome).symm.trans hpath
  | ok path =>
      obtain rfl := eq_keyFile hpath
      simp only
      rw [ensures_bind]
      refine ensures_fileExists hI ?_ fun hmay => hbefore _ (.inr (.inr (.inl ⟨_, hmay⟩)))
      cases hnone : w.files (keyFile home username) with
      | some text => exact ⟨hI, hbefore _ (.inr (.inl (by rw [hnone]; rfl)))⟩
      | none =>
          simp only [Option.isSome_none, Bool.false_eq_true, if_false]
          rw [ensures_bind]
          refine ensures_mono (ensures_newIdentity hI) ?_
          rintro _ w' ⟨hw, identity, rfl, hmade, hids⟩
          subst w'
          exact ensures_storeIdentity hI hmade hids (hwrite hnone identity)
            (fun salt e herr => hbefore e (.inr (.inr (.inr ⟨salt, e, herr⟩)))) (hdump hnone)
            (hok hnone identity) fun hmay => hfail hmay hnone identity

end Signup

/-! ## When nothing fails -/

section Reliable

/-- The fields the key store reads of its file. -/
def keyFileFields : List Key :=
  ["version", "username", "publicKeyBundle", "privateMaterial", "kdf", "usedOneTimePreKeyIds"].map
    bytes

/-- The file has the fields of a key file with these prekeys recorded.  It may have
others: a user may have the name the pins are kept under. -/
def HoldsAll (path : Bytes) (file : Json α) (used : List UInt64) (fs : Files Bytes α) : Prop :=
  ∃ text body, fs path = some text ∧ Json.parse text = some body ∧
    ∀ k ∈ keyFileFields, body.get? k = (recorded file used).get? k

theorem HoldsAll.of_text {path : Bytes} {used : List UInt64} {fs : Files Bytes α} {text : List α}
    (hkey : IsKeyFile username password identity file)
    (htext : jsonFileText (recorded file used) = .ok text) (hpath : fs path = some text) :
    HoldsAll path file used fs := by
  obtain ⟨-, hwf, hnorm⟩ := hkey.recorded_norm used
  exact ⟨text, _, hpath, parse_text hwf htext, fun k _ => by rw [hnorm]⟩

/-- Only these fields count. -/
theorem openKeyFile_congr [DecidableEq α] {a b : Json α} {keyPath : Bytes}
    (h : ∀ k ∈ keyFileFields, a.get? k = b.get? k) :
    openKeyFile keyPath username password a = openKeyFile keyPath username password b := by
  have hfield : ∀ {β : Type} [DecidableEq β] (get : Json α → Except Exn β) (k : String) (v : β),
      bytes k ∈ keyFileFields → fieldIs get a k v = fieldIs get b k v := by
    intro β _ get k v hk
    rw [fieldIs, fieldIs, h _ hk]
  have hat : ∀ k : String, bytes k ∈ keyFileFields → at' a k = at' b k := by
    intro k hk
    rw [at', at', h _ hk]
  have hcontains : ∀ k ∈ keyFileFields, a.contains k = b.contains k := by
    intro k hk
    rw [Json.contains, Json.contains, h k hk]
  have hmaterial : openPrivateMaterial keyPath username password a =
      openPrivateMaterial keyPath username password b := by
    rw [openPrivateMaterial, openPrivateMaterial, hat "privateMaterial" (by decide),
      hat "kdf" (by decide)]
  have hidentity : identityOf keyPath a = identityOf keyPath b := by
    funext bundle privateMaterial
    rw [identityOf, identityOf, recordedIds, recordedIds, h _ (by decide)]
  rw [openKeyFile, openKeyFile, hfield getInt "version" 2 (by decide),
    hfield getString "username" username (by decide), hcontains (bytes "publicKeyBundle") (by decide),
    hcontains (bytes "privateMaterial") (by decide), hcontains (bytes "kdf") (by decide),
    hat "publicKeyBundle" (by decide), hmaterial, hidentity]

omit [Alphabet α] in
/-- What the keys of an identity are read from. -/
theorem identityOf_ok {keyPath : Bytes} {bundle material : Json α} {k : LocalIdentityKey α}
    (h : identityOf keyPath file bundle material = .ok k) :
    k.keyFilePath = keyPath ∧ at' bundle "identityKey" = .ok (.str k.publicKey) ∧
      at' bundle "signingKey" = .ok (.str k.signingPublicKey) ∧
      (∃ t, at' material "identityPrivateKey" = .ok (.str t) ∧
        base64DecodeArray 32 t "identityPrivateKey" = .ok k.privateKey) ∧
      ∃ t, at' material "signingSecretKey" = .ok (.str t) ∧
        base64DecodeArray 64 t "signingSecretKey" = .ok k.signingSecretKey := by
  rw [identityOf] at h
  obtain ⟨_, hpublic, h⟩ := bind_ok.mp h
  obtain ⟨publicKey, hpublicText, h⟩ := bind_ok.mp h
  obtain ⟨_, hprivate, h⟩ := bind_ok.mp h
  obtain ⟨t, hprivateText, h⟩ := bind_ok.mp h
  obtain ⟨privateKey, hprivateKey, h⟩ := bind_ok.mp h
  obtain ⟨_, hsigning, h⟩ := bind_ok.mp h
  obtain ⟨signingPublicKey, hsigningText, h⟩ := bind_ok.mp h
  obtain ⟨_, hsecret, h⟩ := bind_ok.mp h
  obtain ⟨t', hsecretText, h⟩ := bind_ok.mp h
  obtain ⟨signingSecretKey, hsecretKey, h⟩ := bind_ok.mp h
  -- the signed prekey and the one-time prekeys
  iterate 11 obtain ⟨_, -, h⟩ := bind_ok.mp h
  rw [getString_ok.mp hpublicText] at hpublic
  rw [getString_ok.mp hprivateText] at hprivate
  rw [getString_ok.mp hsigningText] at hsigning
  rw [getString_ok.mp hsecretText] at hsecret
  cases pure_ok.mp h
  exact ⟨rfl, hpublic, hsigning, ⟨t, hprivate, hprivateKey⟩, t', hsecret, hsecretKey⟩

/-- A file that opens has a bundle and private keys that decrypt, and gives the identity that
is in them. -/
theorem openKeyFile_ok [DecidableEq α] {keyPath : Bytes} {k : LocalIdentityKey α}
    (h : openKeyFile keyPath username password file = .ok k) :
    ∃ bundle material, at' file "publicKeyBundle" = .ok bundle ∧
      openPrivateMaterial keyPath username password file = .ok material ∧
      identityOf keyPath file bundle material = .ok k := by
  rw [openKeyFile] at h
  -- the version, the name and the fields that must be there
  iterate 5 obtain ⟨_, -, h⟩ := bind_ok.mp h
  obtain ⟨bundle, hbundle, h⟩ := bind_ok.mp h
  obtain ⟨_, -, h⟩ := bind_ok.mp h
  obtain ⟨material, hmaterial, h⟩ := bind_ok.mp h
  exact ⟨bundle, material, hbundle, hmaterial, h⟩

/-- Programs that use the files only. -/
abbrev onFiles (mayFail : FileOp Bytes α → Prop) :
    (o : Op α) → World α Unit → o.Res → World α Unit → Prop :=
  exec mayFail fun _ _ r _ => r = none

omit [Crypto α] [FloatFormat] in
theorem onFiles_total (mayFail : FileOp Bytes α → Prop) (o : Op α) (w : World α Unit) :
    ∃ r w', onFiles mayFail o w r w' :=
  ⟨_, _, @exec_answer _ _ _ _ _ (fun _ s => (none, s)) (fun _ _ => rfl) o w⟩

variable {σ : Type} {net : HttpRequest α → σ → Option (HttpResponse α) → σ → Prop}
  {I : World α σ → Prop} {w : World α σ} {path home : Bytes} {used : List UInt64}

/-- **A login succeeds.** -/
theorem ensures_loadForLogin_all [DecidableEq α] [LawfulBase64 α] [LawfulDh α] [LawfulSigning α]
    [LawfulAead α] (hI : I w) (hhome : home ≠ [])
    (hkey : IsKeyFile username password identity file)
    (hholds : HoldsAll (keyFile home username) file used w.files) :
    (loadForLogin home username password).Ensures (exec (fun _ => False) net) I w fun x w' =>
      w' = w ∧ x = .ok (identity.unused used (keyFile home username)) := by
  obtain ⟨text, body, hpath, hparse, hfields⟩ := hholds
  rw [loadForLogin, ensures_bind, ensures_ofExcept, defaultKeyPath_ok hhome]
  refine ⟨hI, ?_⟩
  simp only
  rw [ensures_bind]
  refine ensures_readJsonFile hI ?_ fun _ h => h.elim
  rw [hpath, jsonOfFile, hparse, orThrow, Option.elim_some]
  simp only
  rw [ensures_ofExcept, openKeyFile_congr hfields, openKeyFile_recorded _ hkey]
  exact ⟨hI, rfl, rfl⟩

/-- **What a login returns** is what the text of the key file opens to. -/
theorem ensures_loadForLogin_text [DecidableEq α] (hI : I w) :
    (loadForLogin home username password).Ensures (exec (fun _ => False) net) I w fun x w' =>
      w' = w ∧ ∀ k, x = .ok k ↔ home ≠ [] ∧ ∃ text body,
        w.files (keyFile home username) = some text ∧ Json.parse text = some body ∧
        openKeyFile (keyFile home username) username password body = .ok k := by
  rw [loadForLogin, ensures_bind, ensures_ofExcept]
  refine ⟨hI, ?_⟩
  by_cases hhome : home = []
  · rw [defaultKeyPath, ensure, if_neg (by simpa using hhome)]
    exact ⟨rfl, fun k => iff_of_false (by simp) fun h => h.1 hhome⟩
  · rw [defaultKeyPath_ok hhome]
    dsimp only
    rw [ensures_bind]
    refine ensures_readJsonFile hI ?_ fun _ h => h.elim
    cases htext : w.files (keyFile home username) with
    | none => exact ⟨rfl, fun k => iff_of_false (by simp) (by simp)⟩
    | some text =>
        cases hbody : (Json.parse text : Option (Json α)) with
        | none =>
            rw [jsonOfFile, hbody]
            exact ⟨rfl, fun k => iff_of_false (by simp) (by simp [hbody])⟩
        | some body =>
            rw [jsonOfFile, hbody]
            refine ensures_ofExcept.mpr ⟨hI, rfl, fun k => ?_⟩
            simp [hhome, hbody]

/-- **Recording a prekey succeeds**, and leaves the other fields of the file. -/
theorem ensures_recordUsed_all (hkey : IsKeyFile username password identity file)
    (hholds : HoldsAll path file used w.files) {id : UInt64} (hid : id ∉ used) :
    (recordUsed path id).Ensures (exec (fun _ => False) net) (fun _ => True) w fun x w' =>
      x = .ok () ∧ HoldsAll path file (used ++ [id]) w'.files ∧
        (∀ p ≠ path, w'.files p = w.files p) ∧ w'.server = w.server ∧
        ∀ k ∉ keyFileFields, ((w'.files path).bind Json.parse).bind (·.get? k) =
          (((w.files path).bind Json.parse).bind (·.get? k)).map Json.norm := by
  obtain ⟨text, body, hpath, hparse, hfields⟩ := hholds
  obtain ⟨hwf, hprint, hnorm⟩ := recordedList (α := α) (used ++ [id])
  have hused : body.get? usedField = some (.arr (used.map .unsigned)) := by
    rw [hfields _ (by decide), hkey.get?_recorded, if_pos rfl]
  have hobj := Json.isObject_of_get? hused
  have hself : asObject body = .ok body := by
    cases body with
    | obj fs => rfl
    | _ => cases hobj
  have harr : ((body.get? usedField).bind Json.arr?).getD [] = used.map Json.unsigned := by
    rw [hused]
    rfl
  have hlist : used.map (Json.unsigned : UInt64 → Json α) ++ [.unsigned id] =
      (used ++ [id]).map Json.unsigned := by simp
  rw [recordUsed, ensures_bind]
  refine ensures_readJsonFile trivial ?_ fun _ h => h.elim
  rw [hpath, jsonOfFile, hparse, orThrow, Option.elim_some]
  simp only
  rw [ensures_bind, ensures_ofExcept, hself]
  refine ⟨trivial, ?_⟩
  simp only
  rw [harr, hlist, ensures_bind, ensures_ofExcept, alreadyRecorded_unsigned]
  refine ⟨trivial, ?_⟩
  simp only [decide_eq_false hid, Bool.false_eq_true, if_false]
  have hwf' := Json.wf_set (k := usedField) (Json.wf_of_parse hparse) hwf
  have hget : ∀ k, (body.set usedField (.arr ((used ++ [id]).map Json.unsigned))).norm.get? k =
      if usedField = k then some (.arr ((used ++ [id]).map Json.unsigned))
      else (body.get? k).map Json.norm := by
    intro k
    rw [Json.get?_norm, Json.get?_set hobj]
    split_ifs with hk
    · rw [Option.map_some, hnorm]
    · rfl
  refine ensures_writeInPlace (fun _ _ => trivial) (fun text' htext' => ?_) (fun e herr => ?_) ?_
  · refine ⟨rfl, ⟨text', _, Function.update_self .., parse_text hwf' htext', fun k hk => ?_⟩,
      fun p hp => Function.update_of_ne hp .., rfl, fun k hk => ?_⟩
    · obtain ⟨-, -, hfile⟩ := hkey.recorded_norm used
      rw [hget, hkey.get?_recorded]
      by_cases hkused : k = usedField
      · rw [if_pos hkused.symm, if_pos hkused]
      · rw [if_neg fun h => hkused h.symm, if_neg hkused, hfields k hk, ← Json.get?_norm, hfile,
          hkey.get?_recorded, if_neg hkused]
    · have hkused : usedField ≠ k := by
        rintro rfl
        exact hk (by decide)
      simp only [Function.update_self, Option.bind_some, parse_text hwf' htext', hget, if_neg hkused,
        hparse]
  · obtain ⟨t, ht⟩ := Json.exists_dumpWith (some 2) 0 (Json.printable_set (k := usedField)
      (Json.printable_of_parse hparse) (validUtf8_bytes _) hprint)
    rw [jsonFileText, ht] at herr
    cases herr
  · rintro ⟨o, ho⟩
    exact ho.elim

/-- **A signup succeeds** for a new username that has a text. -/
theorem exists_signup [LawfulBase64 α] (home : Bytes) (username password : List α)
    (fs : Files Bytes α) (hhome : home ≠ []) (husername : validUtf8 username = true)
    (hnone : fs (keyFile home username) = none)
    (hkdf : ∀ salt, ∃ key, keyEncryptionKey password salt kKdfOpsLimit kKdfMemLimit = .ok key) :
    ∃ material identity file fs', (createForSignup home username password).Runs
        (onFiles fun _ => False) ⟨fs, ()⟩ (some (.ok material)) ⟨fs', ()⟩ ∧
      IsKeyFile username password identity file ∧
      HoldsAll (keyFile home username) file [] fs' := by
  obtain ⟨x, w', hrun⟩ := Prog.exists_runs (onFiles_total fun _ => False)
    (createForSignup home username password) ⟨fs, ()⟩
  have hspec := Prog.Ensures.of_runs (ensures_createForSignup (I := fun _ => True)
    (Q := fun x w' => ∃ material identity file, x = .ok material ∧
      IsKeyFile username password identity file ∧
      HoldsAll (keyFile home username) file [] w'.files)
    trivial (fun _ _ _ _ _ _ => trivial) ?_ ?_ ?_ ?_) hrun
  · obtain ⟨material, identity, file, rfl, hkey, hholds⟩ := hspec
    exact ⟨material, identity, file, w'.files, hrun, hkey, hholds⟩
  · rintro e (hempty | hsome | ⟨o, ho⟩ | ⟨salt, e', herr⟩)
    · exact absurd hempty hhome
    · change (fs (keyFile home username)).isSome = true at hsome
      rw [hnone] at hsome
      cases hsome
    · exact ho.elim
    · obtain ⟨key, hkey⟩ := hkdf salt
      rw [hkey] at herr
      cases herr
  · intro _ hinvalid
    rw [husername] at hinvalid
    cases hinvalid
  · intro _ identity file text bundle publicKeyBundle hkey htext _ _
    exact ⟨_, identity, file, rfl, hkey,
      .of_text hkey (hkey.recorded_nil.symm ▸ htext) (Function.update_self ..)⟩
  · rintro ⟨o, ho⟩
    exact ho.elim

end Reliable

end Files

end Kd
