import Kingdom.Client.LocalKeyStore

/-!
# The message store

The plaintexts a user has read, in a file encrypted under the user's password.  Each
call reads the file, decrypts it, and writes it again when it changes something.

* `MessageStore`, `encryptedAtPath` — a store, opened on a file.  A store of version 1,
  which is not encrypted, is encrypted then.
* `readStore_`, `writeStore_` — the file; `openEnvelope` and `sealStore` are the parts
  that have no effects.
* `getPlaintext`, `savePlaintext`, `deletePlaintext` — the calls; `plaintextOf`,
  `withPlaintext` and `withoutPlaintext` are what they do to the contents.
-/

namespace Kd

open Codec Process Storage

variable {α : Type}

/-! ## Constants -/

def kCacheKdfOpsLimit : UInt64 := 3
def kCacheKdfMemLimit : UInt64 := 268435456
def kCacheKdfAlgorithm : String := "Argon2id+HKDF-SHA256"
def kCacheEncryptionAlgorithm : String := "XChaCha20-Poly1305"
def kCacheEncryptionInfo : String := "kd-message-cache-encryption-v1"
def kCacheAssociatedDataPrefix : String := "kingdom-message-cache-v2"

section Store

variable [Alphabet α]

/-! ## The contents -/

def emptyStore : Json α := .mkObj [("version", .unsigned 1), ("messages", .obj [])]

/-- `parseJsonFileLenient`, on what was read: anything but an object is an empty store. -/
def parseJsonLenient [FloatFormat] (text : Option (List α)) : Json α :=
  match text.bind Json.parse with
  | some parsed => if parsed.isObject then parsed else emptyStore
  | none => emptyStore

/-- `parseJsonFileStrict`, on what was read. -/
def parseJsonStrict [FloatFormat] (path : Bytes) (text : Option (List α)) : Except Exn (Json α) := do
  let parsed ← jsonOfFile "Failed to open local message store for reading: "
    "Local message store is not valid JSON: " path text
  ensure (parsed.isObject = true)
    (.runtimeError (bytes "Local message store is not valid JSON: " ++ path))
  return parsed

def normalizeStore (store : Json α) : Json α :=
  if (store.get? (bytes "messages")).any Json.isObject then store
  else store.set (bytes "messages") (.obj [])

/-- `store["messages"]` -/
def messagesOf (store : Json α) : Json α := (store.get? (bytes "messages")).getD .null

/-- The plaintext a store has for a message. -/
def plaintextOf (store : Json α) (messageId : UInt64) : Option (List α) :=
  ((messagesOf store).get? (decimal messageId.toNat)).bind fun record =>
    (record.get? (bytes "plaintext")).bind Json.str?

/-- What a store keeps of a message. -/
structure PlaintextRecord (α : Type) where
  messageId : UInt64
  conversationId : UInt64
  senderId : UInt64
  timestamp : UInt64
  plaintext : List α

def PlaintextRecord.json (r : PlaintextRecord α) : Json α :=
  .mkObj [("messageId", .unsigned r.messageId), ("conversationId", .unsigned r.conversationId),
    ("senderId", .unsigned r.senderId), ("timestamp", .unsigned r.timestamp),
    ("plaintext", .str r.plaintext)]

/-- The store with a message. -/
def withPlaintext (store : Json α) (r : PlaintextRecord α) : Json α :=
  store.set (bytes "messages") ((messagesOf store).set (decimal r.messageId.toNat) r.json)

/-- The store without a message. -/
def withoutPlaintext (store : Json α) (messageId : UInt64) : Json α :=
  store.set (bytes "messages") ((messagesOf store).erase (decimal messageId.toNat))

/-! ## The file -/

/-- Write a JSON file: first beside its place, and then it is moved there.  A path that is
empty names no file. -/
def writeJsonFile (path : Bytes) (body : Json α) : Action α Unit :=
  if path = [] then return ()
  else do
    orFail .filesystemError (← perform (.file (.createDirectories path)))
    let tmpPath := path ++ bytes ".tmp"
    writeText "Failed to open local message store for writing: "
      "Failed to write local message store: " tmpPath path body
    orFail .filesystemError (← perform (.file (.rename tmpPath path)))
    let _ ← perform (.file (.setPermissions path))
    return ()

def cacheAssociatedData (username : List α) : List α :=
  lit kCacheAssociatedDataPrefix ++ (Alphabet.ofByte 0 :: username)

structure StoreKdfParams (α : Type) where
  salt : List α
  opsLimit : UInt64
  memLimit : UInt64
  deriving DecidableEq

/-- A store on a file; its key is derived once. -/
structure MessageStore (α : Type) where
  storePath : Bytes
  username : List α
  encryptionKey : List α
  salt : List α
  opsLimit : UInt64
  memLimit : UInt64
  encryptedAtRest : Bool

variable [Crypto α]

def deriveCacheEncryptionKey (password : List α) (params : StoreKdfParams α) :
    Except Exn (List α) := do
  let argon2Secret ← orThrow (bytes "Failed to derive message-cache encryption secret")
    (Crypto.pwhash password params.salt params.opsLimit params.memLimit)
  deriveKey argon2Secret (lit kCacheEncryptionInfo) params.salt

/-- What the file of a store holds. -/
def storeEnvelope (store : MessageStore α) (nonce ciphertext : List α) : Json α :=
  .mkObj [("version", .unsigned 2), ("algorithm", .str (lit kCacheEncryptionAlgorithm)),
    ("kdf", .mkObj [("algorithm", .str (lit kCacheKdfAlgorithm)),
      ("hkdf", .mkObj [("digest", .str (lit "SHA-256")), ("info", .str (lit kCacheEncryptionInfo))]),
      ("salt", .str (base64Encode store.salt)), ("opsLimit", .unsigned store.opsLimit),
      ("memLimit", .unsigned store.memLimit)]),
    ("nonce", .str (base64Encode nonce)), ("ciphertext", .str (base64Encode ciphertext))]

/-- Encrypt the contents of a store. -/
def sealStore (store : MessageStore α) (nonce : List α) (contents : Json α) : Except Exn (Json α) := do
  let plaintextText ← orJsonError (contents.dumpWith (some 2) 0)
  return storeEnvelope store nonce (Crypto.aeadEncrypt plaintextText
    (cacheAssociatedData store.username) nonce store.encryptionKey)

def writeStore_ (store : MessageStore α) (contents : Json α) : Action α Unit :=
  if store.encryptedAtRest then do
    let nonce ← perform (.random 24)
    let envelope ← Prog.ofExcept (sealStore store nonce contents)
    writeJsonFile store.storePath envelope
  else writeJsonFile store.storePath contents

variable [FloatFormat]

/-- The parameters a file says its key is derived with; a file that does not say so is
given a salt of its own. -/
def storedKdfParams (salt : List α) (parsed : Json α) : Except Exn (StoreKdfParams α) := do
  let version ← valueOr getInt parsed "version" 1
  let kdf := (parsed.get? (bytes "kdf")).getD .null
  match version == 2, kdf.get? (bytes "salt") with
  | true, some (.str encoded) => do
      let salt ← base64DecodeArray 16 encoded "kdf.salt"
      let opsLimit ← valueOr getUnsignedLongLong kdf "opsLimit" kCacheKdfOpsLimit
      let memLimit ← valueOr getUInt64 kdf "memLimit" kCacheKdfMemLimit
      return ⟨salt, opsLimit, memLimit⟩
  | _, _ => return ⟨salt, kCacheKdfOpsLimit, kCacheKdfMemLimit⟩

def kdfParamsForStore (path : Bytes) : Action α (StoreKdfParams α) := do
  let salt ← perform (.random 16)
  if ← fileExists path then
    let text ← readFile path
    Prog.ofExcept (storedKdfParams salt (parseJsonLenient text))
  else return ⟨salt, kCacheKdfOpsLimit, kCacheKdfMemLimit⟩

/-- Encrypt what was read of a file of version 1. -/
def migrate (store : MessageStore α) (text : Option (List α)) : Action α Unit := do
  let parsed := parseJsonLenient text
  let version ← Prog.ofExcept (valueOr getInt parsed "version" 1)
  if version = 1 then writeStore_ store (normalizeStore parsed)
  else return ()

def encryptedAtPath (storePath : Bytes) (username password : List α) :
    Action α (MessageStore α) := do
  let params ← kdfParamsForStore storePath
  let key ← Prog.ofExcept (deriveCacheEncryptionKey password params)
  let store : MessageStore α :=
    ⟨storePath, username, key, params.salt, params.opsLimit, params.memLimit, true⟩
  if ← fileExists storePath then
    let text ← readFile storePath
    migrate store text
    return store
  else return store

variable [DecidableEq α]

/-- Decrypt the contents of a store. -/
def openEnvelope (store : MessageStore α) (envelope : Json α) : Except Exn (Json α) := do
  let failure (what : String) : Exn := .runtimeError (bytes what ++ store.storePath)
  if (← valueOr getInt envelope "version" 1) = 1 then return normalizeStore envelope
  let unsupported := failure "Unsupported local message store format: "
  ensure ((← valueOr getInt envelope "version" 0) = 2) unsupported
  ensure ((← valueOr getString envelope "algorithm" []) = lit kCacheEncryptionAlgorithm) unsupported
  ensure (envelope.contains (bytes "kdf") ∧ envelope.contains (bytes "nonce") ∧
    envelope.contains (bytes "ciphertext")) unsupported
  let unsupported := failure "Unsupported local message store crypto parameters: "
  let kdf ← at' envelope "kdf"
  ensure ((← valueOr getString kdf "algorithm" []) = lit kCacheKdfAlgorithm) unsupported
  ensure (kdf.contains (bytes "hkdf")) unsupported
  let hkdf ← at' kdf "hkdf"
  ensure ((← valueOr getString hkdf "digest" []) = lit "SHA-256") unsupported
  ensure ((← valueOr getString hkdf "info" []) = lit kCacheEncryptionInfo) unsupported
  let nonce ← base64DecodeArray 24 (← getString (← at' envelope "nonce")) "nonce"
  let ciphertext ← base64Decode (← getString (← at' envelope "ciphertext")) "ciphertext"
  ensure (16 ≤ ciphertext.length) (failure "Local message store ciphertext is too short: ")
  let plaintext ← orThrow (bytes "Failed to decrypt local message store: " ++ store.storePath)
    (Crypto.aeadDecrypt ciphertext (cacheAssociatedData store.username) nonce store.encryptionKey)
  let invalid := failure "Decrypted local message store is not valid JSON: "
  match Json.parse plaintext with
  | none => .error invalid
  | some parsed =>
      ensure (parsed.isObject = true) invalid
      return normalizeStore parsed

def readStore_ (store : MessageStore α) : Action α (Json α) :=
  if store.storePath = [] then return emptyStore
  else do
    if ← fileExists store.storePath then
      let text ← readFile store.storePath
      if store.encryptedAtRest then
        Prog.ofExcept (do openEnvelope store (← parseJsonStrict store.storePath text))
      else return normalizeStore (parseJsonLenient text)
    else return emptyStore

def getPlaintext (store : MessageStore α) (messageId : UInt64) : Action α (Option (List α)) := do
  let contents ← readStore_ store
  return plaintextOf contents messageId

def savePlaintext (store : MessageStore α) (r : PlaintextRecord α) : Action α Unit := do
  let contents ← readStore_ store
  writeStore_ store (withPlaintext contents r)

def deletePlaintext (store : MessageStore α) (messageId : UInt64) : Action α Unit := do
  let contents ← readStore_ store
  writeStore_ store (withoutPlaintext contents messageId)

end Store

/-! ## What writing does to the files -/

section Rules

open Prog

variable [Alphabet α] {σ : Type} {mayFail : FileOp Bytes α → Prop}
  {net : HttpRequest α → σ → Option (HttpResponse α) → σ → Prop} {I : World α σ → Prop}
  {w : World α σ} {path : Bytes} {body : Json α}

/-- The place a file is written at before it is moved. -/
abbrev tmpOf (path : Bytes) : Bytes := path ++ bytes ".tmp"

theorem tmpOf_ne (path : Bytes) : tmpOf path ≠ path := by
  intro h
  have := congrArg List.length h
  simp +decide [tmpOf] at this

/-- The file has its new text, and nothing is left beside it. -/
def moved (path : Bytes) (text : List α) (fs : Files Bytes α) : Files Bytes α :=
  Function.update (Function.update fs (tmpOf path) none) path (some text)

omit [Alphabet α] in
theorem moved_self (path : Bytes) (text : List α) (fs : Files Bytes α) :
    moved path text fs path = some text := Function.update_self ..

/-- What the files may be while a file is written: something is beside it, or it has a
start of its new text, the whole text unless a write has failed unnoticed. -/
inductive Moving (mayFail : FileOp Bytes α → Prop) (path : Bytes) (body : Json α)
    (fs : Files Bytes α) : Files Bytes α → Prop where
  | same : Moving mayFail path body fs fs
  | beside {t} : Moving mayFail path body fs (Function.update fs (tmpOf path) (some t))
  | moved {text t} (htext : jsonFileText body = .ok text) (ht : t <+: text)
      (hfull : (∀ s, ¬ mayFail (.write (tmpOf path) s)) → t = text) :
      Moving mayFail path body fs (moved path t fs)

theorem Moving.of_cut {fs fs' : Files Bytes α} (h : Partial (tmpOf path) body fs fs') :
    Moving mayFail path body fs fs' := by
  rcases h with rfl | ⟨t, -, rfl⟩
  · exact .same
  · exact .beside

/-- **Writing a file beside its place** leaves the old file until the new one is whole,
unless a write fails unnoticed. -/
theorem ensures_writeJsonFile {Q : Except Exn Unit → World α σ → Prop} (hpath : path ≠ [])
    (hI : ∀ fs, Moving mayFail path body w.files fs → I { w with files := fs })
    (hok : ∀ text, jsonFileText body = .ok text →
      Q (.ok ()) { w with files := moved path text w.files })
    (hdump : ∀ e, jsonFileText body = .error e →
      Q (.error e) { w with files := Function.update w.files (tmpOf path) (some []) })
    (hfail : (∃ o, mayFail o) → ∀ x fs, Moving mayFail path body w.files fs →
      (x = .ok () → ∃ text t, jsonFileText body = .ok text ∧ t <+: text ∧
        ((∀ s, ¬ mayFail (.write (tmpOf path) s)) → t = text) ∧ fs = moved path t w.files) →
      Q x { w with files := fs }) :
    (writeJsonFile path body).Ensures (exec mayFail net) I w Q := by
  have hstart : I w := hI w.files .same
  rw [writeJsonFile, if_neg hpath, ensures_bind, ensures_file]
  refine ⟨hstart, fun r fs hexec => ?_⟩
  rcases hexec with ⟨rfl, rfl⟩ | ⟨hmay, rfl, rfl⟩
  · simp only [FileOp.answer, FileOp.effect, orFail_true, pure_bind']
    refine ⟨hstart, ?_⟩
    rw [ensures_bind]
    -- the file is moved once it has been written beside
    have hmove : ∀ text t, jsonFileText body = .ok text → t <+: text →
        ((∀ s, ¬ mayFail (.write (tmpOf path) s)) → t = text) →
        (t = text ∨ ∃ o, mayFail o) →
        (do orFail .filesystemError (← perform (.file (.rename (tmpOf path) path)))
            let _ ← perform (.file (.setPermissions path))
            return () : Action α Unit).Ensures (exec mayFail net) I
          { w with files := Function.update w.files (tmpOf path) (some t) } Q := by
      intro text t htext ht hfull hor
      have hmoving : Moving mayFail path body w.files
          (Function.update w.files (tmpOf path) (some t)) := .beside
      have hbeside := hI _ hmoving
      have hmoved : Moving mayFail path body w.files (moved path t w.files) :=
        .moved htext ht hfull
      have hend : Q (.ok ()) { w with files := moved path t w.files } := by
        rcases hor with rfl | hmay
        · exact hok t htext
        · exact hfail hmay _ _ hmoved fun _ => ⟨text, t, htext, ht, hfull, rfl⟩
      rw [ensures_bind, ensures_file]
      refine ⟨hbeside, fun r fs hexec => ?_⟩
      rcases hexec with ⟨rfl, rfl⟩ | ⟨hmay, rfl, rfl⟩
      · simp only [FileOp.answer, FileOp.effect, Function.update_self, Option.isSome_some, if_true,
          Function.update_idem, orFail_true, pure_bind']
        refine ⟨hI _ hmoved, ?_⟩
        rw [ensures_bind, ensures_file]
        refine ⟨hI _ hmoved, fun r fs hexec => ?_⟩
        rcases hexec with ⟨rfl, rfl⟩ | ⟨-, rfl, rfl⟩
        · exact ⟨hI _ hmoved, hI _ hmoved, hend⟩
        · exact ⟨hI _ hmoved, hI _ hmoved, hend⟩
      · simp only [orFail_false, fail_bind]
        exact ⟨hbeside, hbeside, hfail ⟨_, hmay⟩ _ _ .beside fun h => by cases h⟩
    refine ensures_writeText (fun fs hfs => hI fs (.of_cut hfs)) (fun text htext => ?_) hdump
      fun hmay x fs hfs hwritten => ?_
    · exact hmove text text htext List.prefix_rfl (fun _ => rfl) (.inl rfl)
    · cases x with
      | ok _ =>
          obtain ⟨text, t, htext, ht, hfull, rfl⟩ := hwritten rfl
          exact hmove text t htext ht hfull (.inr hmay)
      | error e => exact hfail hmay _ fs (.of_cut hfs) fun h => by cases h
  · refine ⟨hstart, ?_⟩
    simp only [orFail_false, fail_bind]
    exact ⟨hstart, hfail ⟨_, hmay⟩ _ _ .same fun h => by cases h⟩

end Rules

end Kd
