import Kingdom.Client.KeyBundle
import Kingdom.Codec.JsonValid

/-!
# The local key store

The keys of a user: made at signup, kept in a file under a password, loaded at
login, and used to encrypt messages to other users and to decrypt theirs.

* `createForSignup`, `loadForLogin` — the key file.
* `encryptMessage`, `decryptMessage` — X3DH messages, with `deriveX3dhKey` and
  `associatedData`.
* `eraseOneTimePreKey` — a one-time prekey is forgotten in memory and recorded as
  used in the file.
* `sealMessage`, `openMessage` — the parts of the two that have no effects.
-/

namespace Kd

open Codec Process Storage

variable {α : Type}

/-! ## Constants -/

def kKdfOpsLimit : UInt64 := 3
def kKdfMemLimit : UInt64 := 268435456
def kKdfHkdfAlgorithm : String := "Argon2id+HKDF-SHA256"
def kKeyEncryptionInfo : String := "kd-key-encryption-v1"
def kPayloadAlgorithm : String := "KD-X3DH-XCHACHA20POLY1305-V1"
def kX3dhHkdfInfo : String := "kd-x3dh-message-key-v1"
def kX3dhHkdfSalt : String := "kd-x3dh-session-salt-v1"
def kOneTimePreKeyBatchSize : Nat := 20

section Keys

variable [Alphabet α] [Crypto α]

/-! ## Key agreement -/

/-- `deriveKey`: HKDF with SHA-256. -/
def deriveKey (secret info salt : List α) : Except Exn (List α) :=
  orThrow (bytes "Failed to derive HKDF key") (Crypto.hkdf secret info salt)

def dh (privateKey publicKeyB64 : List α) (label : String) : Except Exn (List α) := do
  let publicKey ← base64DecodeArray 32 publicKeyB64 label
  orThrow (bytes "X25519 DH failed for " ++ bytes label) (Crypto.scalarmult privateKey publicKey)

def deriveX3dhKey (dhOutputs : List (List α)) : Except Exn (List α) :=
  deriveKey dhOutputs.flatten (lit kX3dhHkdfInfo) (lit kX3dhHkdfSalt)

/-- The number or `null`. -/
def optionalId (id : Option UInt64) : Json α := id.elim .null .unsigned

def associatedData (conversationId senderId recipientId : UInt64)
    (senderIdentityPublicKey senderEphemeralPublicKey recipientIdentityPublicKey : List α)
    (signedPreKeyId : UInt64) (oneTimePreKeyId : Option UInt64) : Json α :=
  .mkObj [("version", .unsigned 1), ("algorithm", .str (lit kPayloadAlgorithm)),
    ("conversationId", .unsigned conversationId), ("senderId", .unsigned senderId),
    ("recipientId", .unsigned recipientId),
    ("senderIdentityPublicKey", .str senderIdentityPublicKey),
    ("senderEphemeralPublicKey", .str senderEphemeralPublicKey),
    ("recipientIdentityPublicKey", .str recipientIdentityPublicKey),
    ("signedPreKeyId", .unsigned signedPreKeyId), ("oneTimePreKeyId", optionalId oneTimePreKeyId)]

/-! ## The key file -/

/-- Letters, digits, `-` and `_` stay, anything else becomes `_`. -/
def sanitizedUsername (username : List α) : Bytes :=
  let value := username.map fun a =>
    match Alphabet.toByte a with
    | some chr =>
        if (0x61 ≤ chr ∧ chr ≤ 0x7A) ∨ (0x41 ≤ chr ∧ chr ≤ 0x5A) ∨ (0x30 ≤ chr ∧ chr ≤ 0x39) ∨
          chr = 0x2D ∨ chr = 0x5F then chr else 0x5F
    | none => 0x5F
  if value = [] then bytes "user" else value

/-- The key file of a user, below the home directory. -/
def keyFile (home : Bytes) (username : List α) : Bytes :=
  pathAppend home (bytes ".kingdom/keys/" ++ (sanitizedUsername username ++ bytes ".json"))

/-- `defaultKeyPath_` -/
def defaultKeyPath (home : Bytes) (username : List α) : Except Exn Bytes := do
  ensure (home ≠ []) (.runtimeError (bytes "HOME is not set; cannot choose local key file path"))
  return keyFile home username

omit [Crypto α] in
theorem defaultKeyPath_ok {home : Bytes} {username : List α} (hhome : home ≠ []) :
    defaultKeyPath home username = .ok (keyFile home username) := by
  rw [defaultKeyPath, ensure, if_pos hhome]
  rfl

omit [Crypto α] in
theorem eq_keyFile {home path : Bytes} {username : List α}
    (h : defaultKeyPath home username = .ok path) : keyFile home username = path := by
  simp only [defaultKeyPath, bind_ok, pure_ok] at h
  obtain ⟨-, -, h⟩ := h
  exact h

/-- The file access of the key store. -/
def writeKeyFile (path : Bytes) (body : Json α) : Action α Unit :=
  writeInPlace "Failed to open local key file for writing: " "Failed to write local key file: "
    path body

def makePreKey (preKeyId : UInt64) : Action α (LocalPreKey α) := do
  let privateKey ← perform .boxKeypair
  return ⟨preKeyId, privateKey, base64Encode (Crypto.boxPublicKey privateKey)⟩

/-- Prekeys with these ids. -/
def makePreKeys : List UInt64 → Action α (List (LocalPreKey α))
  | [] => return []
  | id :: ids => do
      let key ← makePreKey id
      let keys ← makePreKeys ids
      return key :: keys

/-- A prekey with its private half. -/
def LocalPreKey.privateJson (k : LocalPreKey α) : Json α :=
  .mkObj [("id", .unsigned k.id), ("publicKey", .str k.publicKey),
    ("privateKey", .str (base64Encode k.privateKey))]

def encryptedPrivateMaterial (identity : LocalIdentityKey α) : Json α :=
  .mkObj [("identityPrivateKey", .str (base64Encode identity.privateKey)),
    ("signingSecretKey", .str (base64Encode identity.signingSecretKey)),
    ("signedPreKey", identity.signedPreKey.privateJson),
    ("oneTimePreKeys", .arr (identity.oneTimePreKeys.map LocalPreKey.privateJson))]

/-- The key that encrypts the private keys of a file. -/
def keyEncryptionKey (password salt : List α) (opsLimit memLimit : UInt64) :
    Except Exn (List α) := do
  let argon2Secret ← orThrow (bytes "Failed to derive local key-encryption secret")
    (Crypto.pwhash password salt opsLimit memLimit)
  deriveKey argon2Secret (lit kKeyEncryptionInfo) (base64Encode salt)

/-- What the key file of a new user holds. -/
def newKeyFile (username : List α) (bundle : Json α) (ciphertext nonce salt : List α) : Json α :=
  .mkObj [("version", .unsigned 2), ("username", .str username), ("publicKeyBundle", bundle),
    ("privateMaterial", .mkObj [("algorithm", .str (lit "XChaCha20-Poly1305")),
      ("ciphertext", .str (base64Encode ciphertext)), ("nonce", .str (base64Encode nonce))]),
    ("kdf", .mkObj [("algorithm", .str (lit kKdfHkdfAlgorithm)),
      ("hkdf", .mkObj [("digest", .str (lit "SHA-256")), ("info", .str (lit kKeyEncryptionInfo))]),
      ("salt", .str (base64Encode salt)), ("opsLimit", .unsigned kKdfOpsLimit),
      ("memLimit", .unsigned kKdfMemLimit)]),
    ("usedOneTimePreKeyIds", .arr [])]

/-- What a new user registers with. -/
structure RegistrationKeyMaterial (α : Type) where
  publicKeyBundle : List α
  keyFilePath : Bytes

/-- New keys, not yet in a file. -/
def newIdentity : Action α (LocalIdentityKey α) := do
  let privateKey ← perform .boxKeypair
  let signingSecretKey ← perform .signKeypair
  let signedPreKey ← makePreKey 1
  let oneTimePreKeys ← makePreKeys
    ((List.range kOneTimePreKeyBatchSize).map fun i => UInt64.ofNat i + 1)
  return ⟨base64Encode (Crypto.boxPublicKey privateKey), privateKey,
    base64Encode (Crypto.signPublicKey signingSecretKey), signingSecretKey, signedPreKey,
    oneTimePreKeys, []⟩

def createForSignup (home : Bytes) (username password : List α) :
    Action α (RegistrationKeyMaterial α) := do
  let keyPath ← Prog.ofExcept (defaultKeyPath home username)
  if ← fileExists keyPath then
    Prog.fail (.runtimeError (bytes "Local key file already exists: " ++ keyPath))
  else
    let identity ← newIdentity
    let salt ← perform (.random 16)
    let key ← Prog.ofExcept (keyEncryptionKey password salt kKdfOpsLimit kKdfMemLimit)
    let nonce ← perform (.random 24)
    let privateMaterial ← Prog.ofExcept (orJsonError (encryptedPrivateMaterial identity).dump)
    let ciphertext := Crypto.aeadEncrypt privateMaterial username nonce key
    let bundle ← Prog.ofExcept (publicBundle identity)
    writeKeyFile keyPath (newKeyFile username bundle ciphertext nonce salt)
    let publicKeyBundle ← Prog.ofExcept (orJsonError bundle.dump)
    return ⟨publicKeyBundle, keyPath⟩

variable [FloatFormat] [DecidableEq α]

/-- The prekeys of a file that are not recorded as used. -/
def loadPreKeys (usedIds : List UInt64) : List (Json α) → Except Exn (List (LocalPreKey α))
  | [] => .ok []
  | preKeyJson :: rest => do
      let preKeyId ← getUInt64 (← at' preKeyJson "id")
      if preKeyId ∈ usedIds then loadPreKeys usedIds rest
      else
        let publicKey ← getString (← at' preKeyJson "publicKey")
        let privateKey ← base64DecodeArray 32 (← getString (← at' preKeyJson "privateKey"))
          "oneTimePreKey.privateKey"
        let keys ← loadPreKeys usedIds rest
        return ⟨preKeyId, privateKey, publicKey⟩ :: keys

/-- The prekey ids a file records as used. -/
def recordedIds (file : Json α) : Except Exn (List UInt64) :=
  match file.get? (bytes "usedOneTimePreKeyIds") with
  | some (.arr used) => used.mapM getUInt64
  | _ => .ok []

/-- The private keys of a file, decrypted. -/
def openPrivateMaterial (keyPath : Bytes) (username password : List α) (file : Json α) :
    Except Exn (Json α) := do
  let unsupported := .runtimeError (bytes "Unsupported local key file crypto parameters: " ++ keyPath)
  let privateJson ← at' file "privateMaterial"
  let kdfJson ← at' file "kdf"
  ensure ((← getString (← at' privateJson "algorithm")) = lit "XChaCha20-Poly1305") unsupported
  ensure ((← getString (← at' kdfJson "algorithm")) = lit kKdfHkdfAlgorithm) unsupported
  ensure ((← getString (← at' (← at' kdfJson "hkdf") "digest")) = lit "SHA-256") unsupported
  ensure ((← getString (← at' (← at' kdfJson "hkdf") "info")) = lit kKeyEncryptionInfo) unsupported
  let salt ← base64DecodeArray 16 (← getString (← at' kdfJson "salt")) "kdf.salt"
  let nonce ← base64DecodeArray 24 (← getString (← at' privateJson "nonce")) "privateMaterial.nonce"
  let ciphertext ← base64Decode (← getString (← at' privateJson "ciphertext"))
    "privateMaterial.ciphertext"
  let key ← keyEncryptionKey password salt (← getUnsignedLongLong (← at' kdfJson "opsLimit"))
    (← getUInt64 (← at' kdfJson "memLimit"))
  let plaintext ← orThrow (bytes "Failed to decrypt local private key for user: " ++
    (toBytes username).getD []) (Crypto.aeadDecrypt ciphertext username nonce key)
  parseJson plaintext "privateMaterial"

/-- The keys in a file, once its private keys are decrypted. -/
def identityOf (keyPath : Bytes) (file bundle privateMaterial : Json α) :
    Except Exn (LocalIdentityKey α) := do
  let publicKey ← getString (← at' bundle "identityKey")
  let privateKey ← base64DecodeArray 32 (← getString (← at' privateMaterial "identityPrivateKey"))
    "identityPrivateKey"
  let signingPublicKey ← getString (← at' bundle "signingKey")
  let signingSecretKey ← base64DecodeArray 64
    (← getString (← at' privateMaterial "signingSecretKey")) "signingSecretKey"
  let signedPreKey ← at' privateMaterial "signedPreKey"
  let signedPreKeyId ← getUInt64 (← at' signedPreKey "id")
  let signedPreKeyPublicKey ← getString (← at' signedPreKey "publicKey")
  let signedPreKeyPrivateKey ← base64DecodeArray 32 (← getString (← at' signedPreKey "privateKey"))
    "signedPreKey.privateKey"
  let usedIds ← recordedIds file
  let oneTimePreKeys ← loadPreKeys usedIds (← at' privateMaterial "oneTimePreKeys").elements
  return ⟨publicKey, privateKey, signingPublicKey, signingSecretKey,
    ⟨signedPreKeyId, signedPreKeyPrivateKey, signedPreKeyPublicKey⟩, oneTimePreKeys, keyPath⟩

/-- What a key file gives to a user who logs in. -/
def openKeyFile (keyPath : Bytes) (username password : List α) (file : Json α) :
    Except Exn (LocalIdentityKey α) := do
  let unsupported := .runtimeError (bytes "Unsupported local key file format: " ++ keyPath)
  ensure (← fieldIs getInt file "version" 2) unsupported
  ensure (← fieldIs getString file "username" username) unsupported
  ensure (file.contains (bytes "publicKeyBundle") ∧ file.contains (bytes "privateMaterial") ∧
    file.contains (bytes "kdf")) unsupported
  let bundle ← at' file "publicKeyBundle"
  validateBundle bundle
  let privateMaterial ← openPrivateMaterial keyPath username password file
  identityOf keyPath file bundle privateMaterial

/-- Read the key file. -/
def readKeyFile (path : Bytes) : Action α (Json α) :=
  readJsonFile "Failed to open local key file for reading: " "Local key file is not valid JSON: "
    path

def loadForLogin (home : Bytes) (username password : List α) : Action α (LocalIdentityKey α) := do
  let keyPath ← Prog.ofExcept (defaultKeyPath home username)
  let file ← readKeyFile keyPath
  Prog.ofExcept (openKeyFile keyPath username password file)

/-! ## Encryption -/

/-- What a sender needs of a recipient's bundle. -/
structure RecipientKeys (α : Type) where
  identityKey : List α
  signedPreKeyId : UInt64
  signedPreKey : List α
  /-- The id and the key of the first one-time prekey. -/
  oneTimePreKey : Option (UInt64 × List α)

/-- The keys of a bundle the client accepts. -/
def recipientKeys (recipientBundleJson : List α) : Except Exn (RecipientKeys α) := do
  let recipientBundle ← parseJson recipientBundleJson "recipientBundle"
  validateBundle recipientBundle
  let identityKey ← getString (← at' recipientBundle "identityKey")
  let signedPreKey ← at' recipientBundle "signedPreKey"
  let signedPreKeyId ← getUInt64 (← at' signedPreKey "id")
  let signedPreKeyPublicKey ← getString (← at' signedPreKey "publicKey")
  match ← at' recipientBundle "oneTimePreKeys" with
  | .arr (first :: _) =>
      let id ← getUInt64 (← at' first "id")
      let publicKey ← getString (← at' first "publicKey")
      return ⟨identityKey, signedPreKeyId, signedPreKeyPublicKey, some (id, publicKey)⟩
  | _ => return ⟨identityKey, signedPreKeyId, signedPreKeyPublicKey, none⟩

/-- The sender's side of the key agreement. -/
def senderKey (senderPrivateKey ephemeralPrivate : List α) (keys : RecipientKeys α) :
    Except Exn (List α) := do
  let dh1 ← dh senderPrivateKey keys.signedPreKey "recipient.signedPreKey"
  let dh2 ← dh ephemeralPrivate keys.identityKey "recipient.identityKey"
  let dh3 ← dh ephemeralPrivate keys.signedPreKey "recipient.signedPreKey"
  match keys.oneTimePreKey with
  | none => deriveX3dhKey [dh1, dh2, dh3]
  | some (_, publicKey) =>
      let dh4 ← dh ephemeralPrivate publicKey "recipient.oneTimePreKey"
      deriveX3dhKey [dh1, dh2, dh3, dh4]

/-- A payload with these fields. -/
def payloadJson (senderPublicKey ephemeralPublicKey : List α) (signedPreKeyId : UInt64)
    (oneTimePreKeyId : Option UInt64) (nonce ciphertext : List α) : Json α :=
  .mkObj [("version", .unsigned 1), ("algorithm", .str (lit kPayloadAlgorithm)),
    ("senderIdentityPublicKey", .str senderPublicKey),
    ("senderEphemeralPublicKey", .str ephemeralPublicKey),
    ("signedPreKeyId", .unsigned signedPreKeyId), ("oneTimePreKeyId", optionalId oneTimePreKeyId),
    ("nonce", .str (base64Encode nonce)), ("ciphertext", .str (base64Encode ciphertext))]

/-- Encrypt under a message key. -/
def sealMessage (plaintext senderPublicKey ephemeralPublicKey : List α) (keys : RecipientKeys α)
    (conversationId senderId recipientId : UInt64) (messageKey nonce : List α) :
    Except Exn (List α) := do
  let oneTimePreKeyId := keys.oneTimePreKey.map (·.1)
  let aad ← orJsonError (associatedData conversationId senderId recipientId senderPublicKey
    ephemeralPublicKey keys.identityKey keys.signedPreKeyId oneTimePreKeyId).dump
  orJsonError (payloadJson senderPublicKey ephemeralPublicKey keys.signedPreKeyId oneTimePreKeyId
    nonce (Crypto.aeadEncrypt plaintext aad nonce messageKey)).dump

def encryptMessage (plaintext : List α) (sender : LocalIdentityKey α)
    (recipientBundleJson : List α) (conversationId senderId recipientId : UInt64) :
    Action α (List α) := do
  let keys ← Prog.ofExcept (recipientKeys recipientBundleJson)
  let ephemeralPrivate ← perform .boxKeypair
  let ephemeralPublicKey := base64Encode (Crypto.boxPublicKey ephemeralPrivate)
  let messageKey ← Prog.ofExcept (senderKey sender.privateKey ephemeralPrivate keys)
  let nonce ← perform (.random 24)
  Prog.ofExcept (sealMessage plaintext sender.publicKey ephemeralPublicKey keys conversationId
    senderId recipientId messageKey nonce)

/-! ## Decryption -/

/-- The one-time prekey a payload names, out of those the recipient has. -/
def selectOneTimePreKey (payload : Json α) (keys : List (LocalPreKey α)) :
    Except Exn (Option (LocalPreKey α)) := do
  match ← at' payload "oneTimePreKeyId" with
  | .null => return none
  | id =>
      let preKeyId ← getUInt64 id
      let key ← orThrow (bytes "One-time prekey is missing or already used")
        (keys.find? (·.id = preKeyId))
      return some key

/-- The recipient's side of the key agreement. -/
def recipientKey (recipient : LocalIdentityKey α) (senderIdentityKey senderEphemeralKey : List α)
    (oneTimePreKey : Option (LocalPreKey α)) : Except Exn (List α) := do
  let dh1 ← dh recipient.signedPreKey.privateKey senderIdentityKey "sender.identityKey"
  let dh2 ← dh recipient.privateKey senderEphemeralKey "sender.ephemeralKey"
  let dh3 ← dh recipient.signedPreKey.privateKey senderEphemeralKey "sender.ephemeralKey"
  match oneTimePreKey with
  | none => deriveX3dhKey [dh1, dh2, dh3]
  | some key =>
      let dh4 ← dh key.privateKey senderEphemeralKey "sender.ephemeralKey"
      deriveX3dhKey [dh1, dh2, dh3, dh4]

/-- Check a payload against the bundle of its sender: the payload, and the sender's
identity key. -/
def checkSender (payload senderBundleJson : List α) : Except Exn (Json α × List α) := do
  let payloadJson ← parseJson payload "message payload"
  let unsupported := .runtimeError (bytes "Unsupported message payload version")
  ensure ((← getInt (← at' payloadJson "version")) = 1) unsupported
  ensure ((← getString (← at' payloadJson "algorithm")) = lit kPayloadAlgorithm) unsupported
  let senderBundle ← parseJson senderBundleJson "senderBundle"
  validateBundle senderBundle
  let senderIdentityKey ← getString (← at' payloadJson "senderIdentityPublicKey")
  ensure ((← getString (← at' senderBundle "identityKey")) = senderIdentityKey)
    (.runtimeError (bytes "Sender identity key does not match pinned bundle"))
  return (payloadJson, senderIdentityKey)

/-- What a recipient agrees on with a sender. -/
structure Agreement (α : Type) where
  senderEphemeralKey : List α
  signedPreKeyId : UInt64
  oneTimePreKey : Option (LocalPreKey α)
  messageKey : List α

/-- The key agreement of a payload. -/
def agree (payloadJson : Json α) (recipient : LocalIdentityKey α) (senderIdentityKey : List α) :
    Except Exn (Agreement α) := do
  let senderEphemeralKey ← getString (← at' payloadJson "senderEphemeralPublicKey")
  let signedPreKeyId ← getUInt64 (← at' payloadJson "signedPreKeyId")
  ensure (recipient.signedPreKey.id = signedPreKeyId)
    (.runtimeError (bytes "Recipient signed prekey is missing"))
  let oneTimePreKey ← selectOneTimePreKey payloadJson recipient.oneTimePreKeys
  let messageKey ← recipientKey recipient senderIdentityKey senderEphemeralKey oneTimePreKey
  return ⟨senderEphemeralKey, signedPreKeyId, oneTimePreKey, messageKey⟩

/-- Decrypt what a payload carries. -/
def openCiphertext (payloadJson associatedData : Json α) (messageKey : List α) :
    Except Exn (List α) := do
  let nonce ← base64DecodeArray 24 (← getString (← at' payloadJson "nonce")) "payload.nonce"
  let ciphertext ← base64Decode (← getString (← at' payloadJson "ciphertext")) "payload.ciphertext"
  ensure (16 ≤ ciphertext.length) (.runtimeError (bytes "Ciphertext too short"))
  let aad ← orJsonError associatedData.dump
  orThrow (bytes "Decryption failed") (Crypto.aeadDecrypt ciphertext aad nonce messageKey)

/-- The plaintext of a payload, and the id of the one-time prekey it was encrypted
under. -/
def openMessage (payload : List α) (recipient : LocalIdentityKey α) (senderBundleJson : List α)
    (conversationId senderId recipientId : UInt64) : Except Exn (List α × Option UInt64) := do
  let (payloadJson, senderIdentityKey) ← checkSender payload senderBundleJson
  let agreed ← agree payloadJson recipient senderIdentityKey
  let oneTimePreKeyId := agreed.oneTimePreKey.map (·.id)
  let plaintext ← openCiphertext payloadJson
    (associatedData conversationId senderId recipientId senderIdentityKey
      agreed.senderEphemeralKey recipient.publicKey agreed.signedPreKeyId oneTimePreKeyId)
    agreed.messageKey
  return (plaintext, oneTimePreKeyId)

/-- Is the id among those a file records?  A record that is no number makes the search
throw. -/
def alreadyRecorded (preKeyId : UInt64) : List (Json α) → Except Exn Bool
  | [] => .ok false
  | usedId :: rest => do
      if (← getUInt64 usedId) = preKeyId then return true
      alreadyRecorded preKeyId rest

/-- The file as an object, which `null` can become. -/
def asObject : Json α → Except Exn (Json α)
  | .obj fs => .ok (.obj fs)
  | .null => .ok (.obj [])
  | _ => .error .jsonError

/-- Record a prekey as used in the key file. -/
def recordUsed (path : Bytes) (preKeyId : UInt64) : Action α Unit := do
  let body ← readKeyFile path
  let file ← Prog.ofExcept (asObject body)
  let used := ((file.get? (bytes "usedOneTimePreKeyIds")).bind Json.arr?).getD []
  if ← Prog.ofExcept (alreadyRecorded preKeyId used) then return ()
  else
    writeKeyFile path (file.set (bytes "usedOneTimePreKeyIds") (.arr (used ++ [.unsigned preKeyId])))

/-- Forget a one-time prekey, first in memory and then in the file.  The key is gone
from memory even when the file cannot be written. -/
def eraseOneTimePreKey (identity : LocalIdentityKey α) (preKeyId : UInt64) :
    Action α (LocalIdentityKey α × Except Exn Unit) :=
  if identity.oneTimePreKeys.any (·.id = preKeyId) then
    let erased := { identity with
      oneTimePreKeys := identity.oneTimePreKeys.eraseP (·.id = preKeyId) }
    if identity.keyFilePath = [] then return (erased, .ok ())
    else do
      let recorded ← Prog.attempt (recordUsed identity.keyFilePath preKeyId)
      return (erased, recorded)
  else return (identity, .error (.runtimeError (bytes "One-time prekey is missing or already used")))

/-- Decrypt a payload; the recipient's keys change when a one-time prekey was used. -/
def decryptMessage (payload : List α) (recipient : LocalIdentityKey α) (senderBundleJson : List α)
    (conversationId senderId recipientId : UInt64) :
    Action α (LocalIdentityKey α × Except Exn (List α)) :=
  match openMessage payload recipient senderBundleJson conversationId senderId recipientId with
  | .error e => return (recipient, .error e)
  | .ok (plaintext, none) => return (recipient, .ok plaintext)
  | .ok (plaintext, some oneTimePreKeyId) => do
      let (recipient, erased) ← eraseOneTimePreKey recipient oneTimePreKeyId
      return (recipient, erased.map fun _ => plaintext)

def oneTimePreKeyIdFromPayload (payload : List α) : Except Exn (Option UInt64) := do
  let payloadJson ← parseJson payload "message payload"
  match payloadJson.get? (bytes "oneTimePreKeyId") with
  | none => return none
  | some .null => return none
  | some id => return some (← getUInt64 id)

end Keys

end Kd
