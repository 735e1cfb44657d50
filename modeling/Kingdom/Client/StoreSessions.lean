import Kingdom.Client.KeyFile
import Kingdom.Client.MessageStore
import Kingdom.Process.History

/-!
# Sessions of the message store

The encrypted file is a map from message ids to plaintexts, over any number of sessions
one after another, and closed to every other password and username.

* `IsStore` — contents that can be printed and read back; what the calls do to the
  plaintexts in them.
* `Sealed` — a file that holds the contents of a store, encrypted under its key.
* `openEnvelope_sealed` — the same key and username open it, and nothing else does.
* `OpenedWith` — a store that was opened with a username and a password.
* `StoreRun` — sessions one after another on a file that was not there at first.
* `store_refines_map` — every call of a run does what the map says.
-/

namespace Kd

open Codec Process Storage Prog

variable {α : Type}

/-! ## The contents -/

theorem get?_messages {contents : Json α} (h : (messagesOf contents).isObject = true) :
    contents.get? (bytes "messages") = some (messagesOf contents) := by
  rw [messagesOf] at h ⊢
  cases hm : contents.get? (bytes "messages") with
  | none =>
      rw [hm] at h
      cases h
  | some m => rfl

theorem messagesOf_set {contents m : Json α} (h : contents.isObject = true) :
    messagesOf (contents.set (bytes "messages") m) = m := by
  rw [messagesOf, Json.get?_set h, if_pos rfl]
  rfl

theorem normalizeStore_eq {contents : Json α} (h : (messagesOf contents).isObject = true) :
    normalizeStore contents = contents := by
  rw [normalizeStore, get?_messages h, Option.any_some, if_pos h]

theorem messagesOf_norm (contents : Json α) :
    messagesOf contents.norm = (messagesOf contents).norm := by
  rw [messagesOf, messagesOf, Json.get?_norm]
  cases contents.get? (bytes "messages") <;> rfl

/-- Printing contents and reading them back keeps the plaintexts. -/
theorem plaintextOf_norm (contents : Json α) (id : UInt64) :
    plaintextOf contents.norm id = plaintextOf contents id := by
  rw [plaintextOf, plaintextOf, messagesOf_norm, Json.get?_norm]
  cases (messagesOf contents).get? (decimal id.toNat) with
  | none => rfl
  | some record =>
      rw [Option.map_some, Option.bind_some, Option.bind_some, Json.get?_norm]
      cases record.get? (bytes "plaintext") with
      | none => rfl
      | some p => exact Json.str?_norm p

theorem plaintextOf_emptyStore (id : UInt64) : plaintextOf (emptyStore : Json α) id = none := by
  have hmessages : messagesOf (emptyStore : Json α) = .obj [] := by
    simp +decide [messagesOf, emptyStore, Json.get?_mkObj, Json.lookup]
  rw [plaintextOf, hmessages]
  rfl

theorem validUtf8_decimal (n : Nat) : validUtf8 (decimal n) = true := by
  have h := validUtf8_ascii (α := UInt8) (decimal_ascii n)
  rwa [ofBytes_uint8] at h

theorem decimal_id_inj {a b : UInt64} : decimal a.toNat = decimal b.toNat ↔ a = b := by
  constructor
  · intro h
    exact UInt64.toNat_inj.mp (decimal_injective h)
  · rintro rfl
    rfl

variable [Alphabet α] [FloatFormat]

/-- Contents the store can print and read back. -/
structure IsStore (contents : Json α) : Prop where
  object : contents.isObject = true
  messages : (messagesOf contents).isObject = true
  wf : contents.WF
  printable : contents.Printable

theorem isStore_emptyStore : IsStore (emptyStore : Json α) := by
  refine ⟨Json.isObject_mkObj _, ?_, Json.wf_mkObj ?_, Json.printable_mkObj ?_⟩
  · simp +decide [messagesOf, emptyStore, Json.get?_mkObj, Json.lookup, Json.isObject]
  · simp [Json.WF, Json.WFFields, Json.Sorted]
  · simp [Json.Printable, Json.PrintableFields]

/-- Saving a message sets its plaintext and no other. -/
theorem plaintextOf_withPlaintext {contents : Json α} (h : IsStore contents)
    (r : PlaintextRecord α) (id : UInt64) : plaintextOf (withPlaintext contents r) id =
      if id = r.messageId then some r.plaintext else plaintextOf contents id := by
  rw [plaintextOf, withPlaintext, messagesOf_set h.object, Json.get?_set h.messages]
  simp only [decimal_id_inj]
  by_cases hid : id = r.messageId
  · rw [if_pos hid.symm, if_pos hid]
    simp +decide [PlaintextRecord.json, Json.get?_mkObj, Json.lookup, Json.str?]
  · rw [if_neg fun he => hid he.symm, if_neg hid, plaintextOf]

/-- Deleting a message forgets its plaintext and no other. -/
theorem plaintextOf_withoutPlaintext {contents : Json α} (h : IsStore contents)
    (deleted id : UInt64) : plaintextOf (withoutPlaintext contents deleted) id =
      if id = deleted then none else plaintextOf contents id := by
  rw [plaintextOf, withoutPlaintext, messagesOf_set h.object, Json.get?_erase]
  simp only [decimal_id_inj]
  by_cases hid : id = deleted
  · rw [if_pos hid, if_pos hid]
    rfl
  · rw [if_neg hid, if_neg hid, plaintextOf]

/-- Contents with other messages are contents. -/
theorem IsStore.setMessages {contents m : Json α} (h : IsStore contents) (hm : m.isObject = true)
    (hwf : m.WF) (hprint : m.Printable) : IsStore (contents.set (bytes "messages") m) where
  object := Json.isObject_set h.object
  messages := by
    rw [messagesOf_set h.object]
    exact hm
  wf := Json.wf_set h.wf hwf
  printable := Json.printable_set h.printable (validUtf8_bytes _) hprint

theorem IsStore.messages_wf {contents : Json α} (h : IsStore contents) :
    (messagesOf contents).WF ∧ (messagesOf contents).Printable :=
  ⟨Json.wf_get? h.wf (get?_messages h.messages),
    Json.printable_get? h.printable (get?_messages h.messages)⟩

theorem IsStore.withPlaintext {contents : Json α} (h : IsStore contents) {r : PlaintextRecord α}
    (hvalid : validUtf8 r.plaintext = true) : IsStore (withPlaintext contents r) := by
  obtain ⟨hwf, hprint⟩ := h.messages_wf
  refine h.setMessages (Json.isObject_set h.messages) (Json.wf_set hwf (Json.wf_mkObj ?_))
    (Json.printable_set hprint (validUtf8_decimal _) (Json.printable_mkObj ?_))
  · simp [Json.WF]
  · simp [Json.Printable, hvalid]

theorem IsStore.withoutPlaintext {contents : Json α} (h : IsStore contents) (id : UInt64) :
    IsStore (withoutPlaintext contents id) := by
  obtain ⟨hwf, hprint⟩ := h.messages_wf
  refine h.setMessages ?_ (Json.wf_erase hwf) (Json.printable_erase hprint)
  have hobj := h.messages
  cases hm : messagesOf contents with
  | obj fs => rfl
  | _ => rw [hm] at hobj; cases hobj

/-- Contents that were printed and read back are contents. -/
theorem IsStore.norm {contents : Json α} (h : IsStore contents) : IsStore contents.norm := by
  obtain ⟨text, htext⟩ := Json.exists_dumpWith (some 2) 0 h.printable
  have hparse : Json.parse text = some contents.norm := Json.parse_dumpWith htext h.wf
  refine ⟨?_, ?_, Json.wf_of_parse hparse, Json.printable_of_parse hparse⟩
  · rw [Json.isObject_norm]
    exact h.object
  · rw [messagesOf_norm, Json.isObject_norm]
    exact h.messages

/-! ## The file -/

section Envelope

variable [Crypto α]

omit [FloatFormat] in
theorem norm_storeEnvelope (store : MessageStore α) (nonce ciphertext : List α) :
    (storeEnvelope store nonce ciphertext).norm = storeEnvelope store nonce ciphertext := by
  simp [storeEnvelope, Json.norm_mkObj, Json.norm]

theorem wf_storeEnvelope (store : MessageStore α) (nonce ciphertext : List α) :
    (storeEnvelope store nonce ciphertext).WF := by
  refine Json.wf_mkObj ?_
  simp only [List.mem_cons, List.not_mem_nil, or_false, forall_eq_or_imp, forall_eq, Json.WF,
    true_and, and_true]
  exact Json.wf_mkObj (by simp [Json.WF, Json.wf_mkObj])

omit [FloatFormat] in
theorem exists_storeText [LawfulBase64 α] (store : MessageStore α) (nonce ciphertext : List α) :
    ∃ text, jsonFileText (storeEnvelope store nonce ciphertext) = .ok text := by
  have hbase64 : ∀ data : List α, (Json.str (base64Encode data)).Printable :=
    LawfulBase64.validUtf8_encode
  have hlit : ∀ s : String, (Json.str (lit s : List α)).Printable := fun s => validUtf8_lit s
  have hprint : (storeEnvelope store nonce ciphertext).Printable := by
    refine Json.printable_mkObj ?_
    simp only [List.mem_cons, List.not_mem_nil, or_false, forall_eq_or_imp, forall_eq]
    refine ⟨trivial, hlit _, Json.printable_mkObj ?_, hbase64 _, hbase64 _⟩
    simp only [List.mem_cons, List.not_mem_nil, or_false, forall_eq_or_imp, forall_eq]
    refine ⟨hlit _, Json.printable_mkObj ?_, hbase64 _, trivial, trivial⟩
    simp only [List.mem_cons, List.not_mem_nil, or_false, forall_eq_or_imp, forall_eq]
    exact ⟨hlit _, hlit _⟩
  obtain ⟨t, ht⟩ := Json.exists_dumpWith (some 2) 0 hprint
  exact ⟨t ++ ofBytes [0x0A], by rw [jsonFileText, ht]; rfl⟩

/-- The text holds the contents, encrypted as the store does it. -/
structure Sealed (store : MessageStore α) (contents : Json α) (text : List α) : Prop where
  exists_eq : ∃ nonce plaintextText, nonce.length = 24 ∧
    contents.dumpWith (some 2) 0 = some plaintextText ∧
    jsonFileText (storeEnvelope store nonce (Crypto.aeadEncrypt plaintextText
      (cacheAssociatedData store.username) nonce store.encryptionKey)) = .ok text

omit [FloatFormat] [Crypto α] in
theorem cacheAssociatedData_inj {u v : List α} (h : cacheAssociatedData u = cacheAssociatedData v) :
    u = v := by
  rw [cacheAssociatedData, cacheAssociatedData] at h
  exact List.cons_inj_right _ |>.mp (List.append_cancel_left h)

variable [DecidableEq α] [LawfulBase64 α]

/-- The envelope opens to what its ciphertext decrypts to. -/
theorem openEnvelope_storeEnvelope (reader store : MessageStore α) {nonce ciphertext : List α}
    (hnonce : nonce.length = 24) (hlen : 16 ≤ ciphertext.length) :
    openEnvelope reader (storeEnvelope store nonce ciphertext) = (do
      let plaintext ← orThrow (bytes "Failed to decrypt local message store: " ++ reader.storePath)
        (Crypto.aeadDecrypt ciphertext (cacheAssociatedData reader.username) nonce
          reader.encryptionKey)
      let parsed ← orThrow (bytes "Decrypted local message store is not valid JSON: " ++
        reader.storePath) ((Json.parse plaintext).filter fun parsed => parsed.isObject)
      return normalizeStore parsed) := by
  simp +decide [openEnvelope, storeEnvelope, valueOr, Json.get?_mkObj, Json.lookup, getInt, getString,
    Json.int?, Json.str?, orJsonError, ensure, Json.contains, at'_mkObj,
    base64DecodeArray_encode hnonce, base64Decode_encode, hlen]
  congr 1
  funext plaintext
  cases (Json.parse plaintext : Option (Json α)) with
  | none => rfl
  | some parsed => by_cases hobj : parsed.isObject = true <;> simp [Option.filter, hobj, orThrow]

variable {store reader : MessageStore α} {contents : Json α} {text : List α}

omit [DecidableEq α] [LawfulBase64 α] in
theorem Sealed.parse (h : Sealed store contents text) : ∃ nonce plaintextText,
    nonce.length = 24 ∧ contents.dumpWith (some 2) 0 = some plaintextText ∧
      Json.parse text = some (storeEnvelope store nonce (Crypto.aeadEncrypt plaintextText
        (cacheAssociatedData store.username) nonce store.encryptionKey)) := by
  obtain ⟨nonce, plaintextText, hnonce, hdump, htext⟩ := h.exists_eq
  refine ⟨nonce, plaintextText, hnonce, hdump, ?_⟩
  rw [parse_text (wf_storeEnvelope ..) htext, norm_storeEnvelope]

/-- **The same username and key open a store**, as its contents were printed. -/
theorem openEnvelope_sealed [LawfulAead α] {envelope : Json α} (h : Sealed store contents text)
    (hparse : Json.parse text = some envelope) (hcontents : IsStore contents)
    (husername : reader.username = store.username)
    (hkey : reader.encryptionKey = store.encryptionKey) :
    openEnvelope reader envelope = .ok contents.norm := by
  obtain ⟨nonce, plaintextText, hnonce, hdump, henvelope⟩ := h.parse
  cases hparse.symm.trans henvelope
  have hback : Json.parse plaintextText = some contents.norm :=
    Json.parse_dumpWith hdump hcontents.wf
  rw [openEnvelope_storeEnvelope _ _ hnonce (LawfulAead.length_encrypt _ _ _ _), husername, hkey,
    LawfulAead.decrypt_encrypt, orThrow, Option.elim_some, ok_bind, hback,
    Option.filter_some_pos hcontents.norm.object, orThrow, Option.elim_some, ok_bind,
    normalizeStore_eq hcontents.norm.messages]
  rfl

/-- **Nothing else opens it.** -/
theorem openEnvelope_closed [IdealAead α] {envelope : Json α} (h : Sealed store contents text)
    (hparse : Json.parse text = some envelope)
    (hother : ¬ (reader.username = store.username ∧ reader.encryptionKey = store.encryptionKey)) :
    ∃ e, openEnvelope reader envelope = .error e := by
  obtain ⟨nonce, plaintextText, hnonce, -, henvelope⟩ := h.parse
  cases hparse.symm.trans henvelope
  rw [openEnvelope_storeEnvelope _ _ hnonce (LawfulAead.length_encrypt _ _ _ _)]
  cases hdecrypt : Crypto.aeadDecrypt (Crypto.aeadEncrypt plaintextText
      (cacheAssociatedData store.username) nonce store.encryptionKey)
      (cacheAssociatedData reader.username) nonce reader.encryptionKey with
  | none => exact ⟨_, rfl⟩
  | some m =>
      obtain ⟨-, hasso, -, hkey⟩ := IdealAead.decrypt_only hdecrypt
      exact absurd ⟨cacheAssociatedData_inj hasso, hkey⟩ hother

omit [DecidableEq α] in
/-- The parameters its key is derived with. -/
theorem storedKdfParams_sealed (h : Sealed store contents text) (hsalt : store.salt.length = 16)
    (salt : List α) : storedKdfParams salt (parseJsonLenient (some text)) =
      .ok ⟨store.salt, store.opsLimit, store.memLimit⟩ := by
  obtain ⟨nonce, plaintextText, -, -, henvelope⟩ := h.parse
  have hobj : (storeEnvelope store nonce (Crypto.aeadEncrypt plaintextText
      (cacheAssociatedData store.username) nonce store.encryptionKey)).isObject = true :=
    Json.isObject_mkObj _
  rw [parseJsonLenient, Option.bind_some, henvelope]
  simp only [hobj, if_true]
  simp +decide [storedKdfParams, storeEnvelope, valueOr, Json.get?_mkObj, Json.lookup, getInt,
    getUInt64, getUnsignedLongLong, Json.int?, Json.uint64?, Json.unsignedLongLong?, orJsonError,
    base64DecodeArray_encode hsalt]

omit [DecidableEq α] [LawfulBase64 α] in
/-- It is no store of version 1. -/
theorem version_sealed (h : Sealed store contents text) :
    valueOr getInt (parseJsonLenient (some text)) "version" 1 = .ok 2 := by
  obtain ⟨nonce, plaintextText, -, -, henvelope⟩ := h.parse
  have hobj : (storeEnvelope store nonce (Crypto.aeadEncrypt plaintextText
      (cacheAssociatedData store.username) nonce store.encryptionKey)).isObject = true :=
    Json.isObject_mkObj _
  rw [parseJsonLenient, Option.bind_some, henvelope]
  simp only [hobj, if_true]
  simp +decide [storeEnvelope, valueOr, Json.get?_mkObj, Json.lookup, getInt, Json.int?, orJsonError]

/-! ## One call -/

/-- The store was opened on the file with this username and password. -/
structure OpenedWith (path : Bytes) (username password : List α) (store : MessageStore α) : Prop where
  storePath : store.storePath = path
  username : store.username = username
  encryptedAtRest : store.encryptedAtRest = true
  salt : store.salt.length = 16
  encryptionKey : deriveCacheEncryptionKey password ⟨store.salt, store.opsLimit, store.memLimit⟩ =
    .ok store.encryptionKey

/-- The keys of two stores are derived with the same parameters. -/
def SameParams (store store' : MessageStore α) : Prop :=
  store.salt = store'.salt ∧ store.opsLimit = store'.opsLimit ∧ store.memLimit = store'.memLimit

omit [FloatFormat] [DecidableEq α] [LawfulBase64 α] in
/-- Two passwords never derive the same key. -/
theorem deriveCacheEncryptionKey_inj [IdealKdf α] {password password' key : List α}
    {params params' : StoreKdfParams α} (h : deriveCacheEncryptionKey password params = .ok key)
    (h' : deriveCacheEncryptionKey password' params' = .ok key) : password = password' := by
  simp only [deriveCacheEncryptionKey, deriveKey, bind_ok, orThrow_ok] at h h'
  obtain ⟨secret, hsecret, hkey⟩ := h
  obtain ⟨secret', hsecret', hkey'⟩ := h'
  obtain rfl : secret = secret' := IdealKdf.hkdf_inj (hkey.trans hkey'.symm)
  exact IdealKdf.pwhash_inj (hsecret.trans hsecret'.symm)

omit [FloatFormat] [DecidableEq α] [LawfulBase64 α] in
theorem exists_deriveCacheEncryptionKey [IdealKdf α] (password : List α)
    (params : StoreKdfParams α) : ∃ key, deriveCacheEncryptionKey password params = .ok key := by
  obtain ⟨secret, hsecret⟩ := Option.isSome_iff_exists.mp
    (IdealKdf.pwhash_some password params.salt params.opsLimit params.memLimit)
  obtain ⟨key, hkey⟩ := Option.isSome_iff_exists.mp
    (IdealKdf.hkdf_some secret (lit kCacheEncryptionInfo) params.salt)
  refine ⟨key, ?_⟩
  rw [deriveCacheEncryptionKey, hsecret, orThrow, Option.elim_some, ok_bind, deriveKey, hkey]
  rfl

omit [FloatFormat] [DecidableEq α] [LawfulBase64 α] in
/-- **Two stores with the same parameters have the same username and key** when they were
opened with the same credentials, and only then. -/
theorem OpenedWith.same_iff [IdealKdf α] {path : Bytes} {username password username' password' : List α}
    (h : OpenedWith path username password reader) (h' : OpenedWith path username' password' store)
    (hparams : SameParams reader store) : reader.username = store.username ∧
      reader.encryptionKey = store.encryptionKey ↔ (username, password) = (username', password') := by
  obtain ⟨hsalt, hops, hmem⟩ := hparams
  have hkey := h.encryptionKey
  have hkey' := h'.encryptionKey
  rw [hsalt, hops, hmem] at hkey
  constructor
  · rintro ⟨husername, hsame⟩
    rw [hsame] at hkey
    rw [← h.username, ← h'.username, husername, deriveCacheEncryptionKey_inj hkey hkey']
  · intro hcredentials
    cases hcredentials
    exact ⟨h.username.trans h'.username.symm, Except.ok.inj (hkey.symm.trans hkey')⟩

variable {σ : Type} {net : HttpRequest α → σ → Option (HttpResponse α) → σ → Prop}
  {w : World α σ} {path : Bytes} {username password : List α}

omit [DecidableEq α] [LawfulBase64 α] in
/-- Opening a file that is not there. -/
theorem ensures_encryptedAtPath_absent [IdealKdf α] {I : World α σ → Prop} (hI : I w)
    (hnone : w.files path = none) :
    (encryptedAtPath path username password).Ensures (exec (fun _ => False) net) I w
      fun x w' => w' = w ∧ ∃ store, x = .ok store ∧ OpenedWith path username password store := by
  rw [encryptedAtPath, ensures_bind, kdfParamsForStore, ensures_bind, ensures_random]
  refine ⟨hI, fun salt hsalt => ?_⟩
  simp only
  rw [ensures_bind]
  refine ensures_fileExists hI ?_ fun h => h.elim
  rw [hnone]
  simp only [Option.isSome_none, Bool.false_eq_true, if_false]
  refine ⟨hI, ?_⟩
  simp only
  rw [ensures_bind, ensures_ofExcept]
  refine ⟨hI, ?_⟩
  obtain ⟨key, hkey⟩ := exists_deriveCacheEncryptionKey password
    (⟨salt, kCacheKdfOpsLimit, kCacheKdfMemLimit⟩ : StoreKdfParams α)
  rw [hkey]
  simp only
  rw [ensures_bind]
  refine ensures_fileExists hI ?_ fun h => h.elim
  rw [hnone]
  exact ⟨hI, rfl, _, rfl, rfl, rfl, rfl, hsalt, hkey⟩

omit [DecidableEq α] in
/-- Opening a file that is sealed, with whatever password. -/
theorem ensures_encryptedAtPath_sealed [IdealKdf α] {I : World α σ → Prop} (hI : I w)
    (htext : w.files path = some text) (hsealed : Sealed store contents text)
    (hsalt : store.salt.length = 16) :
    (encryptedAtPath path username password).Ensures (exec (fun _ => False) net) I w
      fun x w' => w' = w ∧ ∃ opened, x = .ok opened ∧ OpenedWith path username password opened ∧
        SameParams opened store := by
  rw [encryptedAtPath, ensures_bind, kdfParamsForStore, ensures_bind, ensures_random]
  refine ⟨hI, fun salt _ => ?_⟩
  simp only
  rw [ensures_bind]
  refine ensures_fileExists hI ?_ fun h => h.elim
  rw [htext]
  simp only [Option.isSome_some, if_true]
  rw [ensures_bind]
  refine ensures_readFile hI ?_ fun _ h => h.elim
  rw [htext]
  simp only
  rw [ensures_ofExcept, storedKdfParams_sealed hsealed hsalt]
  refine ⟨hI, ?_⟩
  simp only
  rw [ensures_bind, ensures_ofExcept]
  refine ⟨hI, ?_⟩
  obtain ⟨key, hkey⟩ := exists_deriveCacheEncryptionKey password
    (⟨store.salt, store.opsLimit, store.memLimit⟩ : StoreKdfParams α)
  rw [hkey]
  simp only
  rw [ensures_bind]
  refine ensures_fileExists hI ?_ fun h => h.elim
  rw [htext]
  simp only [Option.isSome_some, if_true]
  rw [ensures_bind]
  refine ensures_readFile hI ?_ fun _ h => h.elim
  rw [htext]
  simp only
  rw [ensures_bind, migrate, version_sealed hsealed]
  exact ⟨hI, hI, rfl, _, rfl, ⟨rfl, rfl, rfl, hsalt, hkey⟩, rfl, rfl, rfl⟩

omit [LawfulBase64 α] in
/-- Reading a file that is not there. -/
theorem ensures_readStore_absent (hpath : path ≠ []) (hstore : store.storePath = path)
    (hnone : w.files path = none) :
    (readStore_ store).Ensures (exec (fun _ => False) net) (fun _ => True) w
      fun x w' => w' = w ∧ x = .ok emptyStore := by
  rw [readStore_, hstore, if_neg hpath, ensures_bind]
  refine ensures_fileExists trivial ?_ fun h => h.elim
  rw [hnone]
  exact ⟨trivial, rfl, rfl⟩

omit [LawfulBase64 α] in
/-- Reading a file that is sealed. -/
theorem ensures_readStore_sealed (hpath : path ≠ [])
    (hreader : OpenedWith path username password reader)
    (htext : w.files path = some text) (hsealed : Sealed store contents text) :
    (readStore_ reader).Ensures (exec (fun _ => False) net) (fun _ => True) w
      fun x w' => w' = w ∧ ∃ envelope, Json.parse text = some envelope ∧
        x = openEnvelope reader envelope := by
  obtain ⟨nonce, plaintextText, -, -, henvelope⟩ := hsealed.parse
  have hobj : (storeEnvelope store nonce (Crypto.aeadEncrypt plaintextText
      (cacheAssociatedData store.username) nonce store.encryptionKey)).isObject = true :=
    Json.isObject_mkObj _
  rw [readStore_, hreader.storePath, if_neg hpath, ensures_bind]
  refine ensures_fileExists trivial ?_ fun h => h.elim
  rw [htext]
  simp only [Option.isSome_some, if_true, hreader.encryptedAtRest]
  rw [ensures_bind]
  refine ensures_readFile trivial ?_ fun _ h => h.elim
  rw [htext]
  simp only
  rw [ensures_ofExcept]
  refine ⟨trivial, rfl, _, henvelope, ?_⟩
  simp only [parseJsonStrict, jsonOfFile, orThrow, henvelope, Option.elim_some, ok_bind, ensure, hobj,
    if_true]
  rfl

omit [FloatFormat] [DecidableEq α] in
/-- Writing leaves a file that is sealed. -/
theorem ensures_writeStore (hpath : path ≠ []) (hstore : store.storePath = path)
    (hatRest : store.encryptedAtRest = true) (hprint : contents.Printable) :
    (writeStore_ store contents).Ensures (exec (fun _ => False) net) (fun _ => True) w
      fun x w' => x = .ok () ∧ ∃ text, Sealed store contents text ∧ w'.files path = some text := by
  obtain ⟨plaintextText, hdump⟩ := Json.exists_dumpWith (some 2) 0 hprint
  rw [writeStore_, if_pos hatRest, ensures_bind, ensures_random]
  refine ⟨trivial, fun nonce hnonce => ?_⟩
  simp only [hstore]
  rw [ensures_bind, ensures_ofExcept, sealStore, hdump]
  refine ⟨trivial, ?_⟩
  refine ensures_writeJsonFile hpath (fun _ _ => trivial) (fun text htext => ?_) (fun e he => ?_)
    fun h => ?_
  · exact ⟨rfl, text, ⟨nonce, plaintextText, hnonce, hdump, htext⟩, moved_self _ _ _⟩
  · obtain ⟨text, htext⟩ := exists_storeText store nonce (Crypto.aeadEncrypt plaintextText
      (cacheAssociatedData store.username) nonce store.encryptionKey)
    cases htext.symm.trans he
  · obtain ⟨_, ho⟩ := h
    exact ho.elim

end Envelope

/-! ## Runs -/

/-- A call of a store. -/
inductive StoreOp (α : Type) where
  | get (messageId : UInt64)
  | save (r : PlaintextRecord α)
  | delete (messageId : UInt64)

namespace StoreOp

/-- What it does to a map. -/
def effect : StoreOp α → (UInt64 → Option (List α)) → UInt64 → Option (List α)
  | get _, m => m
  | save r, m => Function.update m r.messageId (some r.plaintext)
  | delete id, m => Function.update m id none

/-- What it returns of a map. -/
def result : StoreOp α → (UInt64 → Option (List α)) → Option (List α)
  | get id, m => m id
  | _, _ => none

def writes : StoreOp α → Bool
  | get _ => false
  | _ => true

/-- It saves this plaintext for the message. -/
def Saves (id : UInt64) (t : List α) : StoreOp α → Prop
  | save r => r.messageId = id ∧ r.plaintext = t
  | _ => False

/-- It saves or deletes the message. -/
def Changes (id : UInt64) : StoreOp α → Prop
  | save r => r.messageId = id
  | delete id' => id' = id
  | get _ => False

/-- What is saved is valid UTF-8. -/
def Valid : StoreOp α → Prop
  | save r => validUtf8 r.plaintext = true
  | _ => True

/-- The call, on a store. -/
def run [Crypto α] [DecidableEq α] (store : MessageStore α) :
    StoreOp α → Action α (Option (List α))
  | get id => getPlaintext store id
  | save r => do
      savePlaintext store r
      return none
  | delete id => do
      deletePlaintext store id
      return none

omit [Alphabet α] [FloatFormat] in
/-- After a call a map has what it saves, and what it had of the other messages. -/
theorem effect_iff (op : StoreOp α) (m : UInt64 → Option (List α)) (id : UInt64) (t : List α) :
    op.effect m id = some t ↔ (m id = some t ∧ ¬ op.Changes id) ∨ op.Saves id t := by
  cases op with
  | get _ => simp [effect, Changes, Saves]
  | save r =>
      by_cases hid : r.messageId = id
      · subst hid
        simp [effect, Changes, Saves]
      · simp [effect, Changes, Saves, Function.update_of_ne (Ne.symm hid), hid]
  | delete id' =>
      by_cases hid : id' = id
      · subst hid
        simp [effect, Changes, Saves]
      · simp [effect, Changes, Saves, Function.update_of_ne (Ne.symm hid), hid]

end StoreOp

/-- A store that is open, and the username and password it was opened with. -/
structure StoreSession (α : Type) where
  credentials : List α × List α
  store : MessageStore α

/-- A call that has ended. -/
structure StoreCall (α : Type) where
  credentials : List α × List α
  op : StoreOp α
  outcome : Except Exn (Option (List α))
  filesBefore : Files Bytes α
  filesAfter : Files Bytes α

/-- Sessions one after another on a file that was not there at first: the calls that
were made, the session that is open and the files. -/
inductive StoreRun [Crypto α] [DecidableEq α] (path : Bytes) :
    List (StoreCall α) → Option (StoreSession α) → Files Bytes α → Prop where
  | start {fs} (habsent : fs path = none) : StoreRun path [] none fs
  | opened {log session fs username password x fs'} (h : StoreRun path log session fs)
      (hopen : (encryptedAtPath path username password).Runs (onFiles fun _ => False) ⟨fs, ()⟩
        (some x) ⟨fs', ()⟩) :
      StoreRun path log (x.toOption.map fun store => ⟨(username, password), store⟩) fs'
  | call {log s fs op outcome fs'} (h : StoreRun path log (some s) fs) (hvalid : op.Valid)
      (hcall : (op.run s.store).Runs (onFiles fun _ => False) ⟨fs, ()⟩ (some outcome) ⟨fs', ()⟩) :
      StoreRun path (log ++ [⟨s.credentials, op, outcome, fs, fs'⟩]) (some s) fs'

/-- No call has written with other credentials before any did with these. -/
def Admitted (log : List (StoreCall α)) (credentials : List α × List α) : Prop :=
  ∀ c ∈ log.find? (·.op.writes), c.credentials = credentials

/-- The map that the calls made with these credentials leave. -/
def saved [DecidableEq α] (credentials : List α × List α) (log : List (StoreCall α)) :
    UInt64 → Option (List α) :=
  (log.filter (·.credentials = credentials)).foldl (fun m c => c.op.effect m) fun _ => none

section Saved

variable [DecidableEq α] {log : List (StoreCall α)} {c : StoreCall α}
  {credentials : List α × List α}

omit [Alphabet α] [FloatFormat] in
theorem saved_snoc_self : saved c.credentials (log ++ [c]) = c.op.effect (saved c.credentials log) := by
  rw [saved, saved, List.filter_append, List.filter_cons_of_pos (by simp), List.filter_nil,
    List.foldl_append, List.foldl_cons, List.foldl_nil]

omit [Alphabet α] [FloatFormat] in
theorem saved_snoc_other (h : c.credentials ≠ credentials) :
    saved credentials (log ++ [c]) = saved credentials log := by
  rw [saved, saved, List.filter_append, List.filter_cons_of_neg (by simpa using h), List.filter_nil,
    List.append_nil]

omit [Alphabet α] [FloatFormat] in
/-- **A message has its last plaintext**, unless it was deleted after that. -/
theorem saved_iff (id : UInt64) (t : List α) : saved credentials log id = some t ↔
    Since (fun c => c.credentials = credentials ∧ c.op.Saves id t)
      (fun c => c.credentials = credentials ∧ c.op.Changes id) log := by
  induction log using List.reverseRecOn with
  | nil =>
      constructor
      · intro h
        cases h
      · intro h
        exact absurd h since_nil
  | append_singleton log c ih =>
      rw [since_snoc, ← ih]
      by_cases hc : c.credentials = credentials
      · subst hc
        rw [saved_snoc_self, StoreOp.effect_iff]
        simp
      · rw [saved_snoc_other hc]
        simp [hc]

omit [Alphabet α] [FloatFormat] in
theorem saved_of_reads (h : ∀ c ∈ log, c.op.writes = false) :
    saved credentials log = fun _ => none := by
  induction log using List.reverseRecOn with
  | nil => rfl
  | append_singleton log c ih =>
      have hlog := ih fun c' hc' => h c' (List.mem_append_left _ hc')
      by_cases hc : c.credentials = credentials
      · subst hc
        have hread := h c (by simp)
        rw [saved_snoc_self, hlog]
        cases hop : c.op with
        | get id => rfl
        | save r =>
            rw [hop] at hread
            cases hread
        | delete id =>
            rw [hop] at hread
            cases hread
      · rw [saved_snoc_other hc, hlog]

end Saved

/-! ## The map -/

section Steps

variable [Crypto α] [DecidableEq α]

/-- The store of a session is one that its credentials opened. -/
def StoreSession.Opened (path : Bytes) (s : StoreSession α) : Prop :=
  OpenedWith path s.credentials.1 s.credentials.2 s.store

/-- The invariant of a run. -/
inductive StoreInv (path : Bytes) (log : List (StoreCall α)) (session : Option (StoreSession α))
    (fs : Files Bytes α) : Prop where
  /-- Nothing was written, … -/
  | absent (hreads : ∀ c ∈ log, c.op.writes = false) (hfs : fs path = none)
      (hsession : ∀ s ∈ session, s.Opened path)
  /-- … or the file is sealed with the credentials of the first call that wrote, and holds
  what was saved with them. -/
  | stored (first : StoreCall α) (owner : StoreSession α) (contents : Json α) (text : List α)
      (hfirst : log.find? (·.op.writes) = some first)
      (hcredentials : first.credentials = owner.credentials) (howner : owner.Opened path)
      (hcontents : IsStore contents) (hsaved : plaintextOf contents = saved owner.credentials log)
      (hsealed : Sealed owner.store contents text) (hfs : fs path = some text)
      (hsession : ∀ s ∈ session, s.Opened path ∧ SameParams s.store owner.store)

/-- The call does what the map says, or it is refused. -/
def StoreCall.Correct (before : List (StoreCall α)) (c : StoreCall α) : Prop :=
  (Admitted before c.credentials → c.outcome = .ok (c.op.result (saved c.credentials before))) ∧
    (¬ Admitted before c.credentials →
      (∃ e, c.outcome = .error e) ∧ c.filesAfter = c.filesBefore)

variable [LawfulBase64 α] {σ : Type} {net : HttpRequest α → σ → Option (HttpResponse α) → σ → Prop}
  {w : World α σ} {path : Bytes} {store : MessageStore α} {contents : Json α}
  {log : List (StoreCall α)} {session : Option (StoreSession α)} {s : StoreSession α}
  {op : StoreOp α} {outcome : Except Exn (Option (List α))} {fs fs' : Files Bytes α}

omit [DecidableEq α] in
/-- Reading the contents and writing others. -/
theorem ensures_rewrite [DecidableEq α] (f : Json α → Json α) (hpath : path ≠ [])
    (hstore : store.storePath = path) (hatRest : store.encryptedAtRest = true)
    (hprint : (f contents).Printable)
    (hread : (readStore_ store).Ensures (exec (fun _ => False) net) (fun _ => True) w
      fun x w' => w' = w ∧ x = .ok contents) :
    (do let contents ← readStore_ store
        writeStore_ store (f contents) : Action α Unit).Ensures (exec (fun _ => False) net)
      (fun _ => True) w fun x w' => x = .ok () ∧
        ∃ text, Sealed store (f contents) text ∧ w'.files path = some text := by
  rw [ensures_bind]
  refine ensures_mono hread fun x w' hx => ?_
  obtain ⟨rfl, rfl⟩ := hx
  exact ensures_writeStore hpath hstore hatRest hprint

/-- **One call on contents that can be read.** -/
theorem ensures_storeOp (hpath : path ≠ []) (hstore : store.storePath = path)
    (hatRest : store.encryptedAtRest = true) (hcontents : IsStore contents) (hvalid : op.Valid)
    (hread : (readStore_ store).Ensures (exec (fun _ => False) net) (fun _ => True) w
      fun x w' => w' = w ∧ x = .ok contents) :
    (op.run store).Ensures (exec (fun _ => False) net) (fun _ => True) w fun x w' =>
      x = .ok (op.result (plaintextOf contents)) ∧
      (op.writes = false → w' = w) ∧
      (op.writes = true → ∃ contents' text, IsStore contents' ∧
        plaintextOf contents' = op.effect (plaintextOf contents) ∧
        Sealed store contents' text ∧ w'.files path = some text) := by
  cases op with
  | get id =>
      rw [StoreOp.run, getPlaintext, ensures_bind]
      refine ensures_mono hread fun x w' hx => ?_
      obtain ⟨rfl, rfl⟩ := hx
      exact ⟨trivial, rfl, fun _ => rfl, fun h => by cases h⟩
  | save r =>
      have hstored := hcontents.withPlaintext hvalid
      rw [StoreOp.run, savePlaintext, ensures_bind]
      refine ensures_mono (ensures_rewrite (withPlaintext · r) hpath hstore hatRest hstored.printable
        hread) fun x w' hx => ?_
      obtain ⟨rfl, text, hsealed, htext⟩ := hx
      refine ⟨trivial, rfl, (fun h => by cases h), fun _ => ⟨_, text, hstored, ?_, hsealed, htext⟩⟩
      funext id
      rw [plaintextOf_withPlaintext hcontents, StoreOp.effect, Function.update_apply]
  | delete id =>
      have hstored := hcontents.withoutPlaintext id
      rw [StoreOp.run, deletePlaintext, ensures_bind]
      refine ensures_mono (ensures_rewrite (withoutPlaintext · id) hpath hstore hatRest
        hstored.printable hread) fun x w' hx => ?_
      obtain ⟨rfl, text, hsealed, htext⟩ := hx
      refine ⟨trivial, rfl, (fun h => by cases h), fun _ => ⟨_, text, hstored, ?_, hsealed, htext⟩⟩
      funext id'
      rw [plaintextOf_withoutPlaintext hcontents, StoreOp.effect, Function.update_apply]

omit [LawfulBase64 α] in
/-- A call on a file that cannot be read is refused, and changes nothing. -/
theorem ensures_storeOp_refused (hread : (readStore_ store).Ensures (exec (fun _ => False) net)
      (fun _ => True) w fun x w' => w' = w ∧ ∃ e, x = .error e) :
    (op.run store).Ensures (exec (fun _ => False) net) (fun _ => True) w
      fun x w' => w' = w ∧ ∃ e, x = .error e := by
  have hrewrite : ∀ f : Json α → Json α, (do
      let contents ← readStore_ store
      writeStore_ store (f contents) : Action α Unit).Ensures (exec (fun _ => False) net)
        (fun _ => True) w fun x w' => w' = w ∧ ∃ e, x = .error e := by
    intro f
    rw [ensures_bind]
    refine ensures_mono hread fun x w' hx => ?_
    obtain ⟨rfl, e, rfl⟩ := hx
    exact ⟨rfl, e, rfl⟩
  cases op with
  | get id =>
      rw [StoreOp.run, getPlaintext, ensures_bind]
      refine ensures_mono hread fun x w' hx => ?_
      obtain ⟨rfl, e, rfl⟩ := hx
      exact ⟨rfl, e, rfl⟩
  | save r =>
      rw [StoreOp.run, savePlaintext, ensures_bind]
      refine ensures_mono (hrewrite (withPlaintext · r)) fun x w' hx => ?_
      obtain ⟨rfl, e, rfl⟩ := hx
      exact ⟨rfl, e, rfl⟩
  | delete id =>
      rw [StoreOp.run, deletePlaintext, ensures_bind]
      refine ensures_mono (hrewrite (withoutPlaintext · id)) fun x w' hx => ?_
      obtain ⟨rfl, e, rfl⟩ := hx
      exact ⟨rfl, e, rfl⟩

omit [Alphabet α] [FloatFormat] [Crypto α] [DecidableEq α] [LawfulBase64 α] in
/-- The credentials of the first call that wrote stay the same. -/
theorem find?_snoc {c : StoreCall α} (h : Admitted log c.credentials) (hwrites : c.op.writes = true) :
    ∃ first, (log ++ [c]).find? (·.op.writes) = some first ∧ first.credentials = c.credentials := by
  rw [List.find?_append]
  cases hfind : log.find? (·.op.writes) with
  | none => exact ⟨c, by simp [hwrites], rfl⟩
  | some first => exact ⟨first, rfl, h first hfind⟩

omit [Alphabet α] [FloatFormat] [Crypto α] [LawfulBase64 α] in
theorem saved_read {c : StoreCall α} (hread : c.op.writes = false) :
    saved c.credentials (log ++ [c]) = saved c.credentials log := by
  rw [saved_snoc_self]
  cases hop : c.op with
  | get id => rfl
  | save r =>
      rw [hop] at hread
      cases hread
  | delete id =>
      rw [hop] at hread
      cases hread

/-- **A call keeps the invariant, and does what the map says.** -/
theorem StoreInv.call [IdealAead α] [IdealKdf α] (hpath : path ≠ [])
    (h : StoreInv path log (some s) fs) (hvalid : op.Valid)
    (hcall : (op.run s.store).Runs (onFiles fun _ => False) ⟨fs, ()⟩ (some outcome) ⟨fs', ()⟩) :
    StoreInv path (log ++ [⟨s.credentials, op, outcome, fs, fs'⟩]) (some s) fs' ∧
      StoreCall.Correct log ⟨s.credentials, op, outcome, fs, fs'⟩ := by
  let c : StoreCall α := ⟨s.credentials, op, outcome, fs, fs'⟩
  change StoreInv path (log ++ [c]) (some s) fs' ∧ c.Correct log
  cases h with
  | absent hreads hfs hsession =>
      have hs : OpenedWith path s.credentials.1 s.credentials.2 s.store := hsession s rfl
      have hadmitted : Admitted log s.credentials := by
        intro first hfirst
        have hwrites := List.find?_some hfirst
        rw [hreads first (List.mem_of_find?_eq_some hfirst)] at hwrites
        cases hwrites
      have hempty : plaintextOf (emptyStore : Json α) = saved s.credentials log := by
        rw [saved_of_reads hreads]
        funext id
        exact plaintextOf_emptyStore id
      obtain ⟨hout, hread, hwrite⟩ := Prog.Ensures.of_runs (ensures_storeOp hpath hs.storePath
        hs.encryptedAtRest isStore_emptyStore hvalid
        (ensures_readStore_absent hpath hs.storePath hfs)) hcall
      rw [hempty] at hout hwrite
      refine ⟨?_, fun _ => hout, fun hno => absurd hadmitted hno⟩
      cases hwrites : op.writes with
      | false =>
          cases hread hwrites
          refine .absent ?_ hfs hsession
          intro c' hc'
          rcases List.mem_append.mp hc' with hc' | hc'
          · exact hreads c' hc'
          · rw [List.mem_singleton.mp hc']
            exact hwrites
      | true =>
          obtain ⟨contents, text, hcontents, hplaintexts, hsealed, htext⟩ := hwrite hwrites
          obtain ⟨first, hfirst, hcredentials⟩ := find?_snoc (c := c) hadmitted hwrites
          refine .stored first s contents text hfirst hcredentials hs hcontents ?_ hsealed htext ?_
          · exact hplaintexts.trans (saved_snoc_self (c := c)).symm
          · rintro _ ⟨⟩
            exact ⟨hs, rfl, rfl, rfl⟩
  | stored first owner contents text hfirst hcredentials howner hcontents hsaved hsealed hfs
      hsession =>
      obtain ⟨hs, hparams⟩ := hsession s rfl
      have hread : (readStore_ s.store).Ensures (exec (fun _ => False) fun _ _ r _ => r = none)
          (fun _ => True) ⟨fs, ()⟩ fun x w' => w' = ⟨fs, ()⟩ ∧ ∃ envelope,
            Json.parse text = some envelope ∧ x = openEnvelope s.store envelope :=
        ensures_readStore_sealed hpath hs hfs hsealed
      have hsame := OpenedWith.same_iff hs howner hparams
      by_cases hcred : s.credentials = owner.credentials
      · -- the same credentials read what was saved
        obtain ⟨husername, hkey⟩ := hsame.mpr hcred
        have hadmitted : Admitted log c.credentials := by
          intro first' hfirst'
          cases hfirst.symm.trans hfirst'
          exact hcredentials.trans hcred.symm
        have hplaintexts : plaintextOf contents.norm = saved s.credentials log := by
          rw [hcred, ← hsaved]
          funext id
          exact plaintextOf_norm contents id
        have hopens : (readStore_ s.store).Ensures (onFiles fun _ => False) (fun _ => True) ⟨fs, ()⟩
            fun x w' => w' = ⟨fs, ()⟩ ∧ x = .ok contents.norm := by
          refine ensures_mono hread fun x w' hx => ?_
          obtain ⟨hw, envelope, hparse, rfl⟩ := hx
          exact ⟨hw, openEnvelope_sealed hsealed hparse hcontents husername hkey⟩
        obtain ⟨hout, hkept, hwrite⟩ := Prog.Ensures.of_runs (ensures_storeOp hpath hs.storePath
          hs.encryptedAtRest hcontents.norm hvalid hopens) hcall
        rw [hplaintexts] at hout hwrite
        refine ⟨?_, fun _ => hout, fun hno => absurd hadmitted hno⟩
        cases hwrites : op.writes with
        | false =>
            cases hkept hwrites
            refine .stored first owner contents text ?_ hcredentials howner hcontents ?_ hsealed hfs
              hsession
            · rw [List.find?_append, hfirst]
              rfl
            · rw [hsaved, ← hcred]
              exact (saved_read (c := c) hwrites).symm
        | true =>
            obtain ⟨contents', text', hcontents', heffect, hsealed', htext'⟩ := hwrite hwrites
            obtain ⟨first', hfirst', hcredentials'⟩ := find?_snoc (c := c) hadmitted hwrites
            refine .stored first' s contents' text' hfirst' hcredentials' hs hcontents' ?_ hsealed'
              htext' ?_
            · exact heffect.trans (saved_snoc_self (c := c)).symm
            · rintro _ ⟨⟩
              exact ⟨hs, rfl, rfl, rfl⟩
      · -- all others are refused
        have hrefused : ¬ Admitted log c.credentials := by
          intro hadmitted
          exact hcred ((hadmitted first hfirst).symm.trans hcredentials)
        have hcloses : (readStore_ s.store).Ensures (onFiles fun _ => False) (fun _ => True)
            ⟨fs, ()⟩ fun x w' => w' = ⟨fs, ()⟩ ∧ ∃ e, x = .error e := by
          refine ensures_mono hread fun x w' hx => ?_
          obtain ⟨hw, envelope, hparse, rfl⟩ := hx
          exact ⟨hw, openEnvelope_closed hsealed hparse fun h => hcred (hsame.mp h)⟩
        obtain ⟨hw, hthrows⟩ := Prog.Ensures.of_runs (ensures_storeOp_refused hcloses) hcall
        cases hw
        refine ⟨.stored first owner contents text ?_ hcredentials howner hcontents ?_ hsealed hfs
          hsession, fun hyes => absurd hyes hrefused, fun _ => ⟨hthrows, rfl⟩⟩
        · rw [List.find?_append, hfirst]
          rfl
        · rw [hsaved, saved_snoc_other hcred]

/-- **Opening a store succeeds**, and keeps the invariant. -/
theorem StoreInv.opened [IdealAead α] [IdealKdf α] {username password : List α}
    {x : Except Exn (MessageStore α)} (h : StoreInv path log session fs)
    (hopen : (encryptedAtPath path username password).Runs (onFiles fun _ => False) ⟨fs, ()⟩
      (some x) ⟨fs', ()⟩) :
    fs' = fs ∧ (∃ store, x = .ok store) ∧
      StoreInv path log (x.toOption.map fun store => ⟨(username, password), store⟩) fs' := by
  cases h with
  | absent hreads hfs hsession =>
      obtain ⟨hw, store, rfl, hopened⟩ :=
        Prog.Ensures.of_runs (ensures_encryptedAtPath_absent (I := fun _ => True) trivial hfs) hopen
      cases hw
      refine ⟨rfl, ⟨store, rfl⟩, .absent hreads hfs ?_⟩
      rintro _ ⟨⟩
      exact hopened
  | stored first owner contents text hfirst hcredentials howner hcontents hsaved hsealed hfs
      hsession =>
      obtain ⟨hw, store, rfl, hopened⟩ := Prog.Ensures.of_runs
        (ensures_encryptedAtPath_sealed (I := fun _ => True) trivial hfs hsealed howner.salt) hopen
      cases hw
      refine ⟨rfl, ⟨store, rfl⟩, .stored first owner contents text hfirst hcredentials howner
        hcontents hsaved hsealed hfs ?_⟩
      rintro _ ⟨⟩
      exact hopened

/-- **The invariant of a run**, and what each of its calls has done. -/
theorem StoreRun.inv [IdealAead α] [IdealKdf α] (hpath : path ≠ [])
    (h : StoreRun path log session fs) : StoreInv path log session fs ∧
      ∀ before c after, log = before ++ c :: after → c.Correct before := by
  induction h with
  | start habsent =>
      refine ⟨.absent (by simp) habsent (by simp), ?_⟩
      intro before c after hnil
      simp at hnil
  | opened _ hopen ih => exact ⟨(ih.1.opened hopen).2.2, ih.2⟩
  | call _ hvalid hcall ih =>
      obtain ⟨hinv, hcorrect⟩ := ih.1.call hpath hvalid hcall
      exact ⟨hinv, forall_split_snoc ih.2 hcorrect⟩

/-- A session can be opened on the file … -/
theorem StoreRun.exists_opened [IdealAead α] [IdealKdf α] (hpath : path ≠ [])
    (h : StoreRun path log session fs) (credentials : List α × List α) :
    ∃ store, StoreRun path log (some ⟨credentials, store⟩) fs := by
  obtain ⟨x, ⟨fs', _⟩, hopen⟩ := Prog.exists_runs (onFiles_total fun _ => False)
    (encryptedAtPath path credentials.1 credentials.2) ⟨fs, ()⟩
  obtain ⟨rfl, ⟨store, rfl⟩, -⟩ := (h.inv hpath).1.opened hopen
  exact ⟨store, h.opened hopen⟩

omit [LawfulBase64 α] in
/-- … and every call on it ends. -/
theorem StoreRun.exists_call (h : StoreRun path log (some s) fs) (op : StoreOp α)
    (hvalid : op.Valid) : ∃ outcome fs',
      StoreRun path (log ++ [⟨s.credentials, op, outcome, fs, fs'⟩]) (some s) fs' := by
  obtain ⟨outcome, ⟨fs', _⟩, hcall⟩ := Prog.exists_runs (onFiles_total fun _ => False)
    (op.run s.store) ⟨fs, ()⟩
  exact ⟨outcome, fs', h.call hvalid hcall⟩

end Steps

/-- **The message store is a map**, over any number of sessions: a call returns what the
map of its credentials has, which is the plaintext saved last and not deleted since; it
is refused, and changes no file, once a store was written with other credentials.  Opening
a store succeeds and changes no file. -/
theorem store_refines_map [Crypto α] [DecidableEq α] [LawfulBase64 α] [IdealAead α] [IdealKdf α]
    {path : Bytes} {before after : List (StoreCall α)} {c : StoreCall α}
    {session : Option (StoreSession α)} {fs : Files Bytes α} (hpath : path ≠ [])
    (h : StoreRun path (before ++ c :: after) session fs) :
    (Admitted before c.credentials → c.outcome = .ok (c.op.result (saved c.credentials before))) ∧
      (∀ id t, saved c.credentials before id = some t ↔
        Since (fun c' => c'.credentials = c.credentials ∧ c'.op.Saves id t)
          (fun c' => c'.credentials = c.credentials ∧ c'.op.Changes id) before) ∧
      (¬ Admitted before c.credentials →
        (∃ e, c.outcome = .error e) ∧ c.filesAfter = c.filesBefore) ∧
      ∀ username password x fs', (encryptedAtPath path username password).Runs
        (onFiles fun _ => False) ⟨fs, ()⟩ (some x) ⟨fs', ()⟩ → (∃ store, x = .ok store) ∧ fs' = fs := by
  obtain ⟨hinv, hcorrect⟩ := h.inv hpath
  obtain ⟨hadmitted, hrefused⟩ := hcorrect before c after rfl
  refine ⟨hadmitted, fun id t => saved_iff id t, hrefused, ?_⟩
  intro username password x fs' hopen
  obtain ⟨hfs, hok, -⟩ := hinv.opened hopen
  exact ⟨hok, hfs⟩

omit [Alphabet α] [FloatFormat] in
/-- A message is saved in one session, read in the next, and closed to another password. -/
theorem store_refines_map_example : letI := plainFloats; letI := plainCrypto;
    ∃ (c₁ c₂ c₃ : StoreCall UInt8) (session : Option (StoreSession UInt8)) (fs : Files Bytes UInt8),
      StoreRun (bytes "/m.json") [c₁, c₂, c₃] session fs ∧
      [c₁, c₂, c₃].map (·.credentials.2) = [bytes "p", bytes "p", bytes "q"] ∧
      c₁.outcome = .ok none ∧ c₂.outcome = .ok (some (bytes "hello")) ∧
      (∃ e, c₃.outcome = .error e) ∧ c₃.filesAfter = c₃.filesBefore := by
  let := plainFloats
  let := plainCrypto
  have := lawfulBase64_plain
  have := idealAead_plain
  have := idealKdf_plain
  have hpath : bytes "/m.json" ≠ [] := by decide
  have hstart : StoreRun (bytes "/m.json") [] none (fun _ => none : Files Bytes UInt8) := .start rfl
  obtain ⟨s₁, hopen₁⟩ := hstart.exists_opened hpath (bytes "a", bytes "p")
  obtain ⟨x₁, fs₁, hcall₁⟩ := hopen₁.exists_call (.save ⟨7, 1, 2, 3, bytes "hello"⟩)
    (by unfold StoreOp.Valid; decide +kernel)
  obtain ⟨s₂, hopen₂⟩ := hcall₁.exists_opened hpath (bytes "a", bytes "p")
  obtain ⟨x₂, fs₂, hcall₂⟩ := hopen₂.exists_call (.get 7) trivial
  obtain ⟨s₃, hopen₃⟩ := hcall₂.exists_opened hpath (bytes "a", bytes "q")
  obtain ⟨x₃, fs₃, hcall₃⟩ := hopen₃.exists_call (.get 7) trivial
  let c₁ : StoreCall UInt8 :=
    ⟨(bytes "a", bytes "p"), .save ⟨7, 1, 2, 3, bytes "hello"⟩, x₁, fun _ => none, fs₁⟩
  let c₂ : StoreCall UInt8 := ⟨(bytes "a", bytes "p"), .get 7, x₂, fs₁, fs₂⟩
  let c₃ : StoreCall UInt8 := ⟨(bytes "a", bytes "q"), .get 7, x₃, fs₂, fs₃⟩
  have hrun₁ : StoreRun (bytes "/m.json") ([] ++ c₁ :: []) _ fs₁ := hcall₁
  have hrun₂ : StoreRun (bytes "/m.json") ([c₁] ++ c₂ :: []) _ fs₂ := hcall₂
  have hrun₃ : StoreRun (bytes "/m.json") ([c₁, c₂] ++ c₃ :: []) _ fs₃ := hcall₃
  obtain ⟨hfirst, -⟩ := store_refines_map hpath hrun₁
  obtain ⟨hsecond, -⟩ := store_refines_map hpath hrun₂
  obtain ⟨-, -, hthird, -⟩ := store_refines_map hpath hrun₃
  refine ⟨c₁, c₂, c₃, _, _, hrun₃, rfl, hfirst (by simp [Admitted]), ?_, hthird ?_⟩
  · rw [hsecond (by simp [Admitted, c₁, c₂])]
    simp [saved, c₁, c₂, StoreOp.effect, StoreOp.result]
  · simp +decide [Admitted, c₁, c₂, c₃, StoreOp.writes]

end Kd
