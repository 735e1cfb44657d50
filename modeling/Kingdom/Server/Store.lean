import Kingdom.Codec.JsonRoundTrip
import Kingdom.Server.Jwt
import Mathlib.Data.List.Sort

/-!
# The store

The five tables of the PostgreSQL schema and the transactions of `Database.cc`.
A table is the list of its rows in the order they were inserted, and an `Int64`
is a `BIGINT`: the casts of the source, `static_cast<int64_t>` and
`as<uint64_t>`, are `bigint` and `toUInt64`.

* `Store` — the tables and the last value of each id sequence.
* `nextval`, `addAccess`, `Store.insertAccess`, `Store.backfill` — the pieces of the
  transactions.
* `Database.createUser` … `Database.isMessageSender` — one function for each
  method of `Database`.  A function that throws has rolled back, so it returns
  no store.
-/

namespace Kds

open Codec

/-- `static_cast<int64_t>` of an id. -/
def bigint (u : UInt64) : Int64 := u.toInt64

@[simp] theorem toUInt64_bigint (u : UInt64) : (bigint u).toUInt64 = u := by simp [bigint]

@[simp] theorem bigint_toUInt64 (x : Int64) : bigint x.toUInt64 = x := by simp [bigint]

/-- The cast of ids loses nothing. -/
@[simp] theorem bigint_inj {u v : UInt64} : bigint u = bigint v ↔ u = v := by
  constructor
  · intro h
    rw [← toUInt64_bigint u, h, toUInt64_bigint]
  · rintro rfl
    rfl

/-! ## Tables -/

structure UserRow where
  id : Int64
  username : Bytes
  passwordHash : Bytes
  publicKey : Bytes
  deriving DecidableEq, Repr

structure ConversationRow where
  id : Int64
  name : Bytes
  createdAt : Int64
  deriving DecidableEq, Repr

structure ParticipantRow where
  conversationId : Int64
  userId : Int64
  deriving DecidableEq, Repr

structure MessageRow where
  id : Int64
  conversationId : Int64
  senderId : Int64
  payload : Bytes
  timestamp : Int64
  blockchainDigest : Bytes
  deriving DecidableEq, Repr

structure AccessRow where
  messageId : Int64
  userId : Int64
  grantedBy : Int64
  revokedAt : Option Int64
  deriving DecidableEq, Repr

/-- The tables, and the last id each sequence has handed out. -/
structure Store where
  users : List UserRow
  conversations : List ConversationRow
  participants : List ParticipantRow
  messages : List MessageRow
  access : List AccessRow
  userSeq : Nat
  conversationSeq : Nat
  messageSeq : Nat
  deriving DecidableEq, Repr

/-- The database after its tables were created. -/
def Store.empty : Store := ⟨[], [], [], [], [], 0, 0, 0⟩

/-- A user as `getUserByUsername` returns it. -/
structure User where
  id : UInt64
  username : Bytes
  passwordHash : Bytes
  publicKey : Bytes
  deriving DecidableEq, Repr

/-- `kd::Conversation` -/
structure Conversation where
  id : UInt64
  name : Bytes
  participantIds : List UInt64
  createdAt : UInt64
  deriving DecidableEq, Repr

/-- `kd::Message` -/
structure Message where
  id : UInt64
  senderId : UInt64
  conversationId : UInt64
  payload : Bytes
  timestamp : UInt64
  blockchainDigest : Bytes
  deriving DecidableEq, Repr

/-! ## Pieces of the transactions -/

/-- The text of the failure when a constraint of the schema is violated. -/
def constraintViolation : Exn := .runtimeError (bytes "constraint violation")

/-- The next value of a sequence; PostgreSQL throws when `BIGINT` is exhausted. -/
def nextval (seq : Nat) : Except Exn Int64 :=
  if seq + 1 < 2 ^ 63 then .ok (Int64.ofNat (seq + 1)) else .error constraintViolation

/-- A `REFERENCES` clause. -/
def checkReference (holds : Bool) : Except Exn Unit :=
  if holds then .ok () else .error constraintViolation

/-- `as<uint64_t>`, which throws on a negative value. -/
def asUInt64 (x : Int64) : Except Exn UInt64 :=
  if x < 0 then .error .logicError else .ok x.toUInt64

/-- A row of `message_access` that conflicts with no other is added. -/
def addAccess (access : List AccessRow) (row : AccessRow) : List AccessRow :=
  if access.any fun a => a.messageId = row.messageId ∧ a.userId = row.userId then access
  else access ++ [row]

namespace Store

def hasUser (s : Store) (id : Int64) : Bool := s.users.any (·.id = id)

def hasConversation (s : Store) (id : Int64) : Bool := s.conversations.any (·.id = id)

/-- Is the user a participant of the conversation? -/
def hasParticipant (s : Store) (conversationId userId : Int64) : Bool :=
  s.participants.any fun p => p.conversationId = conversationId ∧ p.userId = userId

/-- The participants of a conversation. -/
def participantsOf (s : Store) (conversationId : Int64) : List Int64 :=
  (s.participants.filter (·.conversationId = conversationId)).map (·.userId)

/-- `INSERT INTO message_access … ON CONFLICT (message_id, user_id) DO NOTHING`, for
each of the rows in turn. -/
def insertAccess (s : Store) (rows : List AccessRow) : Store :=
  { s with access := rows.foldl addAccess s.access }

/-- The rows that grant a message to every participant of a conversation. -/
def accessRows (s : Store) (messageId conversationId grantedBy : Int64) : List AccessRow :=
  (s.participantsOf conversationId).map fun u => ⟨messageId, u, grantedBy, none⟩

/-- The data backfill of `initSchema_`: every message is granted to every
participant of its conversation. -/
def backfill (s : Store) : Store :=
  s.insertAccess (s.messages.flatMap fun m => s.accessRows m.id m.conversationId m.senderId)

end Store

/-! ## The methods of `Database` -/

namespace Database

/-- `initSchema_`: the tables exist already, so only the backfill changes rows. -/
def initSchema_ (s : Store) : Store := s.backfill

def createUser (s : Store) (username passwordHash publicKey : Bytes) :
    Except Exn (UInt64 × Store) := do
  let id ← nextval s.userSeq
  if s.users.any (·.username = username) then
    throw (.runtimeError (bytes "Username already taken"))
  return (id.toUInt64, { s with
    users := s.users ++ [⟨id, username, passwordHash, publicKey⟩]
    userSeq := s.userSeq + 1 })

def getUserByUsername (s : Store) (username : Bytes) : Option User :=
  (s.users.find? (·.username = username)).map fun u =>
    ⟨u.id.toUInt64, u.username, u.passwordHash, u.publicKey⟩

def getAllUsers (s : Store) : List (UInt64 × Bytes) :=
  (s.users.insertionSort fun u v => u.id ≤ v.id).map fun u => (u.id.toUInt64, u.username)

def getUserPublicKey (s : Store) (userId : UInt64) : Option Bytes :=
  (s.users.find? (·.id = bigint userId)).map (·.publicKey)

def usersExist (s : Store) (userIds : List UInt64) : Bool :=
  userIds.all fun u => s.hasUser (bigint u)

section Bundle

variable [FloatFormat]

/-- `key.is_object() && key.contains("id") && key["id"].get<uint64_t>() == preKeyId` -/
def isPreKey (preKeyId : UInt64) (key : Json UInt8) : Except Exn Bool :=
  match key.get? (bytes "id") with
  | none => .ok false
  | some j => (j.uint64?).elim (.error .jsonError) fun id => .ok (id = preKeyId)

/-- `remove_if` with a predicate that may throw. -/
def removeIf (p : Json UInt8 → Except Exn Bool) : List (Json UInt8) → Except Exn (List (Json UInt8))
  | [] => .ok []
  | x :: xs => do
      let drop ← p x
      let rest ← removeIf p xs
      return if drop then rest else x :: rest

/-- `UPDATE users SET public_key = … WHERE id = …` -/
def setPublicKey (s : Store) (userId : Int64) (publicKey : Bytes) : Store :=
  { s with users := s.users.map fun u =>
      if u.id = userId then { u with publicKey := publicKey } else u }

/-- `consumeOneTimePreKeyInTransaction`; `none` when it returns false. -/
def consumeOneTimePreKeyInTransaction (s : Store) (userId preKeyId : UInt64) :
    Except Exn (Option Store) :=
  match getUserPublicKey s userId with
  | none => .ok none
  | some text =>
      match Json.parse text with
      | none => .ok none
      | some bundle =>
          match (bundle.get? (bytes "oneTimePreKeys")).bind Json.arr? with
          | none => .ok none
          | some oneTimePreKeys => do
              let kept ← removeIf (isPreKey preKeyId) oneTimePreKeys
              if kept.length = oneTimePreKeys.length then return none
              match (bundle.set (bytes "oneTimePreKeys") (.arr kept)).dump with
              | none => throw .jsonError
              | some text => return some (setPublicKey s (bigint userId) text)

end Bundle

def createConversation (s : Store) (now : Int64) (name : Bytes) (participantIds : List UInt64) :
    Except Exn (UInt64 × Store) := do
  let id ← nextval s.conversationSeq
  let rows := participantIds.map fun u => (⟨id, bigint u⟩ : ParticipantRow)
  -- the primary key of the rows and their references to users
  checkReference rows.Nodup
  checkReference (usersExist s participantIds)
  return (id.toUInt64, { s with
    conversations := s.conversations ++ [⟨id, name, now⟩]
    participants := s.participants ++ rows
    conversationSeq := s.conversationSeq + 1 })

def getConversationsByUserId (s : Store) (userId : UInt64) : Except Exn (List Conversation) :=
  (s.conversations.filter fun c => s.hasParticipant c.id (bigint userId)).mapM fun c => do
    let createdAt ← asUInt64 c.createdAt
    return ⟨c.id.toUInt64, c.name, (s.participantsOf c.id).map (·.toUInt64), createdAt⟩

section CreateMessage

variable [FloatFormat]

/-- The one-time prekey step of `createMessage`. -/
def consumeForMessage (s : Store) (senderId : UInt64) (recipientId oneTimePreKeyId : Option UInt64) :
    Except Exn Store :=
  match recipientId, oneTimePreKeyId with
  | some recipient, some preKey =>
      if recipient ≠ senderId then do
        match ← consumeOneTimePreKeyInTransaction s recipient preKey with
        | none => throw (.runtimeError (bytes "one-time prekey not found"))
        | some s => return s
      else return s
  | _, _ => return s

/-- The rows of `message_access` a new message gets. -/
def grantedRows (s : Store) (msgId conversationId senderId : Int64) (recipientId : Option Int64) :
    List AccessRow :=
  match recipientId with
  | some recipient =>
      if recipient ≠ senderId then
        [⟨msgId, senderId, senderId, none⟩, ⟨msgId, recipient, senderId, none⟩]
      else [⟨msgId, senderId, senderId, none⟩]
  | none => s.accessRows msgId conversationId senderId

def createMessage (s : Store) (conversationId senderId : UInt64) (payload : Bytes)
    (timestamp : UInt64) (recipientId oneTimePreKeyId : Option UInt64) :
    Except Exn (UInt64 × Store) := do
  let s ← consumeForMessage s senderId recipientId oneTimePreKeyId
  let msgId ← nextval s.messageSeq
  checkReference (s.hasConversation (bigint conversationId))
  checkReference (s.hasUser (bigint senderId))
  checkReference (recipientId.all fun r => s.hasUser (bigint r))
  let row : MessageRow :=
    ⟨msgId, bigint conversationId, bigint senderId, payload, bigint timestamp, []⟩
  let s : Store := { s with messages := s.messages ++ [row], messageSeq := s.messageSeq + 1 }
  return (msgId.toUInt64, s.insertAccess
    (grantedRows s msgId (bigint conversationId) (bigint senderId) (recipientId.map bigint)))

end CreateMessage

/-- A row of `messages` as a `kd::Message`. -/
def toMessage (m : MessageRow) : Except Exn Message := do
  let timestamp ← asUInt64 m.timestamp
  return ⟨m.id.toUInt64, m.senderId.toUInt64, m.conversationId.toUInt64, m.payload, timestamp,
    m.blockchainDigest⟩

/-- The rows of the join in `getMessagesByConversationIdForUser`. -/
def visibleRows (s : Store) (conversationId userId : Int64) : List MessageRow :=
  (s.messages.flatMap fun m =>
    (s.access.filter fun a => a.messageId = m.id ∧ m.conversationId = conversationId ∧
      a.userId = userId ∧ a.revokedAt = none).map fun _ => m).insertionSort
        fun m n => m.timestamp ≤ n.timestamp

def getMessagesByConversationIdForUser (s : Store) (conversationId userId : UInt64) :
    Except Exn (List Message) :=
  (visibleRows s (bigint conversationId) (bigint userId)).mapM toMessage

/-- The row `deleteMessage` deletes. -/
def isOwnMessage (conversationId messageId senderId : UInt64) (m : MessageRow) : Bool :=
  m.id = bigint messageId ∧ m.conversationId = bigint conversationId ∧
    m.senderId = bigint senderId

/-- The rows of `message_access` go with their message. -/
def deleteMessage (s : Store) (conversationId messageId senderId : UInt64) : Bool × Store :=
  let deleted := s.messages.filter (isOwnMessage conversationId messageId senderId)
  (deleted.length == 1,
    { s with
      messages := s.messages.filter fun m => !isOwnMessage conversationId messageId senderId m
      access := s.access.filter fun a => !deleted.any (·.id = a.messageId) })

/-- The `WHERE` clause of `revokeMessageAccess`. -/
def isRevocable (s : Store) (conversationId messageId senderId targetUserId : UInt64)
    (a : AccessRow) : Bool :=
  a.messageId = bigint messageId ∧ a.userId = bigint targetUserId ∧ a.userId ≠ bigint senderId ∧
    a.revokedAt = none ∧ s.messages.any fun m => isOwnMessage conversationId messageId senderId m

def revokeMessageAccess (s : Store) (conversationId messageId senderId targetUserId
    revokedAt : UInt64) : Bool × Store :=
  let revocable := isRevocable s conversationId messageId senderId targetUserId
  ((s.access.filter revocable).length == 1,
    { s with access := s.access.map fun a =>
      if revocable a then { a with revokedAt := some (bigint revokedAt) } else a })

def updateMessageBlockchainDigest (s : Store) (msgId : UInt64) (digest : Bytes) : Store :=
  { s with messages := s.messages.map fun m =>
    if m.id = bigint msgId then { m with blockchainDigest := digest } else m }

def getPendingBlockchainMessages (s : Store) : List (UInt64 × Bytes) :=
  (s.messages.filter fun m => (bytes "pending:").isPrefixOf m.blockchainDigest).map fun m =>
    (m.id.toUInt64, m.blockchainDigest.drop (bytes "pending:").length)

def isParticipant (s : Store) (conversationId userId : UInt64) : Bool :=
  s.hasParticipant (bigint conversationId) (bigint userId)

def isMessageSender (s : Store) (conversationId messageId senderId : UInt64) : Bool :=
  s.messages.any (isOwnMessage conversationId messageId senderId)

end Database

end Kds
