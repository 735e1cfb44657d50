import Kingdom.Client.LocalPaths
import Kingdom.Client.MessageStore
import Kingdom.Process.Simulation

/-!
# The main window

The window of the desktop client shows the messages of a conversation, sends messages and
forwards them.  It is a program that calls the library and changes what it shows.

* `Message`, `messageOf` — a message as the server sends it.
* `Session`, `Window` — what a login leaves, and what the window keeps in memory.
* `Call`, `Call.run` — the calls of the window, and what each of them does.
* `decryptPlaintext`, `loadMessages`, `onSend`, `onForward` — the functions of the window.
* `WindowRun` — the sessions of one user on one machine, with the log of the calls.  The
  server answers as it likes.
-/

namespace Kd

open Codec Process Storage

variable {α β : Type}

/-! ## Messages -/

/-- `kd::Message` -/
structure Message (α : Type) where
  id : UInt64
  senderId : UInt64
  conversationId : UInt64
  payload : List α
  timestamp : UInt64
  blockchainDigest : List α

/-- `get<kd::Message>()` -/
def messageOf [FloatFormat] (j : Json α) : Except Exn (Message α) := do
  let id ← getUInt64 (← at' j "id")
  let senderId ← getUInt64 (← at' j "senderId")
  let conversationId ← getUInt64 (← at' j "conversationId")
  let payload ← getString (← at' j "payload")
  let timestamp ← getUInt64 (← at' j "timestamp")
  let blockchainDigest ← getString (← at' j "blockchainDigest")
  return ⟨id, senderId, conversationId, payload, timestamp, blockchainDigest⟩

/-- The messages by their timestamps.  The comparison is not called on a single element,
and an object is no range that can be sorted; an element without a timestamp, on which the
operator is undefined, is taken to throw. -/
def sortByTimestamp [FloatFormat] : Json α → Except Exn (List (Json α))
  | .arr [msg] => .ok [msg]
  | .arr msgs => do
      let keyed ← msgs.mapM fun msg => do return (← getUInt64 (← at' msg "timestamp"), msg)
      return (keyed.mergeSort fun lhs rhs => lhs.1 ≤ rhs.1).map (·.2)
  | .obj (_ :: _) => .error .jsonError
  | msgs => .ok msgs.elements

section Requests

variable [Alphabet α] [FloatFormat]

/-- The path of the messages of a conversation. -/
def messagesPath (conversationId : UInt64) : Bytes :=
  bytes "/conversations/" ++ decimal conversationId.toNat ++ bytes "/messages"

/-- `Client::getMessages` -/
def getMessages (client : Client α) (conversationId : UInt64) : Action α (Json α) := do
  match ← perform (.http ⟨bytes "GET", messagesPath conversationId, client.authToken, []⟩) with
  | none => Prog.fail (connectError client)
  | some res =>
      if res.status = 200 then Prog.ofExcept (orJsonError (Json.parse res.body))
      else Prog.fail (statusError res)

/-- `Client::sendMessage`, with a recipient. -/
def sendMessage (client : Client α) (conversationId senderId recipientId : UInt64)
    (payload : List α) : Action α (Json α) := do
  let body : Json α := .mkObj [("senderId", .unsigned senderId),
    ("recipientId", .unsigned recipientId), ("payload", .str payload)]
  let text ← Prog.ofExcept (orJsonError body.dump)
  match ← perform (.http ⟨bytes "POST", messagesPath conversationId, client.authToken, text⟩) with
  | none => Prog.fail (connectError client)
  | some res =>
      if res.status = 200 ∨ res.status = 201 then Prog.ofExcept (orJsonError (Json.parse res.body))
      else Prog.fail (statusError res)

end Requests

/-! ## The window -/

/-- What a login leaves. -/
structure Session (α : Type) where
  home : Bytes
  client : Client α
  userId : UInt64
  username : List α
  messageStore : MessageStore α

structure DisplayedMessage (α : Type) where
  message : Message α
  plaintext : List α
  forwardable : Bool

/-- What the window keeps in memory; `publicKeyCache` is that of its message store. -/
structure Window (α : Type) where
  identityKey : LocalIdentityKey α
  publicKeyCache : UInt64 → Option (List α)
  userCache : UInt64 → Option (List α)
  activeConversationId : Option UInt64
  activeRecipientId : Option UInt64
  visibleMessages : List (DisplayedMessage α)

/-- The calls of the window. -/
inductive Call (α : Type) where
  /-- Read the fields of the window. -/
  | fields
  | clearMessages
  /-- Show a message; `view` is the conversation whose messages are on display. -/
  | appendMessageToView (view : UInt64) (message : Message α) (sender text : List α)
      (forwardable : Bool)
  | cachePublicKey (userId : UInt64) (publicKey : List α)
  | getMessages (conversationId : UInt64)
  | getPublicKey (userId : UInt64)
  | sendMessage (conversationId recipientId : UInt64) (payload : List α)
  | encryptMessage (plaintext recipientPk : List α) (conversationId recipientId : UInt64)
  /-- Decrypt the payload of a message, in the context that the message says. -/
  | decryptMessage (message : Message α) (senderPk : List α) (recipientId : UInt64)
  | getPlaintext (messageId : UInt64)
  | savePlaintext (r : PlaintextRecord α)

/-- What a call returns. -/
abbrev Call.Ret : Call α → Type
  | .fields => Window α
  | .getMessages _ => Json α
  | .getPublicKey _ => List α
  | .sendMessage .. => Json α
  | .encryptMessage .. => List α
  | .decryptMessage .. => List α
  | .getPlaintext _ => Option (List α)
  | .clearMessages => Unit
  | .appendMessageToView .. => Unit
  | .cachePublicKey .. => Unit
  | .savePlaintext _ => Unit

/-- How a call ends. -/
abbrev Call.Res (c : Call α) : Type := Except Exn c.Ret

/-- A function of the window. -/
abbrev WindowM (α β : Type) := Prog (Call α) Call.Res Exn β

/-- The calls that were made. -/
abbrev WindowLog (α : Type) := CallLog (Call α) Call.Res

def call (c : Call α) : WindowM α c.Ret := Prog.op c >>= Prog.ofExcept

section Calls

variable [Alphabet α] [Crypto α] [FloatFormat] [DecidableEq α]

/-- **What a call does**: the window after it, and how it ends. -/
def Call.run (s : Session α) (window : Window α) : (c : Call α) → Action α (Window α × c.Res)
  | .fields => return (window, .ok window)
  | .clearMessages => return ({ window with visibleMessages := [] }, .ok ())
  | .appendMessageToView _ message _ text forwardable => return ({ window with
      visibleMessages := window.visibleMessages ++ [⟨message, text, forwardable⟩] }, .ok ())
  | .cachePublicKey userId publicKey => return ({ window with
      publicKeyCache := Function.update window.publicKeyCache userId (some publicKey) }, .ok ())
  | .getMessages conversationId => do
      return (window, ← Prog.attempt (Kd.getMessages s.client conversationId))
  | .getPublicKey userId => do
      return (window, ← Prog.attempt (Kd.getPublicKey s.client s.home userId))
  | .sendMessage conversationId recipientId payload => do
      return (window,
        ← Prog.attempt (Kd.sendMessage s.client conversationId s.userId recipientId payload))
  | .encryptMessage plaintext recipientPk conversationId recipientId => do
      return (window, ← Prog.attempt (Kd.encryptMessage plaintext window.identityKey recipientPk
        conversationId s.userId recipientId))
  | .decryptMessage message senderPk recipientId => do
      let (identityKey, plaintext) ← Kd.decryptMessage message.payload window.identityKey senderPk
        message.conversationId message.senderId recipientId
      return ({ window with identityKey }, plaintext)
  | .getPlaintext messageId => do
      return (window, ← Prog.attempt (Kd.getPlaintext s.messageStore messageId))
  | .savePlaintext r => do
      return (window, ← Prog.attempt (Kd.savePlaintext s.messageStore r))

/-- The meaning of the calls, on the world and the window. -/
def Call.exec {σ : Type} (mayFail : FileOp Bytes α → Prop)
    (net : HttpRequest α → σ → Option (HttpResponse α) → σ → Prop) (s : Session α) (c : Call α)
    (d : World α σ × Window α) (r : c.Res) (d' : World α σ × Window α) : Prop :=
  (c.run s d.2).Runs (Kd.exec mayFail net) d.1 (some (.ok (d'.2, r))) d'.1

end Calls

/-! ## The functions of the window -/

/-- The plaintext of a message: from the store, or decrypted and then saved. -/
def decryptPlaintext (msg : Message α) (recipientId : UInt64) : WindowM α (Option (List α)) := do
  match ← call (.getPlaintext msg.id) with
  | some cached => return some cached
  | none =>
      (do
        let cachedPk := (← call .fields).publicKeyCache msg.senderId
        let senderPk ← match cachedPk with
          | some publicKey => pure publicKey
          | none => call (.getPublicKey msg.senderId)
        call (.cachePublicKey msg.senderId senderPk)
        let plaintext ← call (.decryptMessage msg senderPk recipientId)
        call (.savePlaintext ⟨msg.id, msg.conversationId, msg.senderId, msg.timestamp, plaintext⟩)
        return some plaintext : WindowM α (Option (List α))).tryCatch fun _ => return none

section Functions

variable [Alphabet α]

/-- Show a message with its plaintext, or say that there is none. -/
def showText (view : UInt64) (msg : Message α) (senderLabel : List α) :
    Option (List α) → WindowM α Unit
  | some text => call (.appendMessageToView view msg senderLabel text true)
  | none => call (.appendMessageToView view msg senderLabel (lit "[decryption failed]") false)

def usernameFor (userCache : UInt64 → Option (List α)) (userId : UInt64) : List α :=
  (userCache userId).getD (lit "User " ++ ofBytes (decimal userId.toNat))

variable [FloatFormat]

/-- One turn of the loop in `loadMessages`. -/
def showMessage (s : Session α) (view outgoingRecipient : UInt64) (msgJson : Json α) :
    WindowM α Unit := do
  let msg ← Prog.ofExcept (messageOf msgJson)
  if msg.senderId = s.userId then
    match ← call (.getPlaintext msg.id) with
    | some cached => showText view msg s.username (some cached)
    | none => do
        let plaintext ← decryptPlaintext msg outgoingRecipient
        showText view msg s.username plaintext
  else do
    let senderLabel := usernameFor (← call .fields).userCache msg.senderId
    let plaintext ← decryptPlaintext msg s.userId
    showText view msg senderLabel plaintext

def showMessages (s : Session α) (view outgoingRecipient : UInt64) : List (Json α) → WindowM α Unit
  | [] => return ()
  | msgJson :: rest => do
      showMessage s view outgoingRecipient msgJson
      showMessages s view outgoingRecipient rest

def loadMessages (s : Session α) (conversationId : UInt64) : WindowM α Unit := do
  call .clearMessages
  (do
    let msgs ← call (.getMessages conversationId)
    let sorted ← Prog.ofExcept (sortByTimestamp msgs)
    let outgoingRecipient := (← call .fields).activeRecipientId.getD s.userId
    showMessages s conversationId outgoingRecipient sorted : WindowM α Unit).tryCatch
      fun _ => return ()

/-- Post a payload, and save its plaintext under what the server replies. -/
def postAndSave (conversationId recipientId : UInt64) (payload text : List α) :
    WindowM α (Message α) := do
  let sentJson ← call (.sendMessage conversationId recipientId payload)
  let sentMsg ← Prog.ofExcept (messageOf sentJson)
  call (.savePlaintext ⟨sentMsg.id, sentMsg.conversationId, sentMsg.senderId, sentMsg.timestamp, text⟩)
  return sentMsg

/-- Send the text in the input field, without the blanks around it. -/
def onSend (s : Session α) (text : List α) : WindowM α Unit := do
  let window ← call .fields
  match window.activeConversationId, window.activeRecipientId with
  | some convId, some recipientId =>
      if text = [] then return ()
      else
        (do
          let recipientPk ← call (.getPublicKey recipientId)
          let payload ← call (.encryptMessage text recipientPk convId recipientId)
          let sentMsg ← postAndSave convId recipientId payload text
          call (.appendMessageToView convId sentMsg s.username text true) : WindowM α Unit).tryCatch
            fun _ => return ()
  | _, _ => return ()

structure ForwardTarget (α : Type) where
  userId : UInt64
  conversationId : UInt64
  publicKey : List α

/-- Forward the message with this id to the target that was chosen. -/
def onForward (messageId : UInt64) (target : ForwardTarget α) : WindowM α Unit := do
  let window ← call .fields
  match window.visibleMessages.find? (·.message.id = messageId) with
  | none => return ()
  | some displayed =>
      if displayed.forwardable then
        (do
          let payload ← call (.encryptMessage displayed.plaintext target.publicKey
            target.conversationId target.userId)
          let _ ← postAndSave target.conversationId target.userId payload displayed.plaintext
          return () : WindowM α Unit).tryCatch fun _ => return ()
      else return ()

/-- What the user, or the timer of the window, has it do. -/
inductive WindowAction (α : Type) where
  | load (conversationId : UInt64)
  | send (text : List α)
  | forward (messageId : UInt64) (target : ForwardTarget α)

def WindowAction.prog (s : Session α) : WindowAction α → WindowM α Unit
  | .load conversationId => loadMessages s conversationId
  | .send text => onSend s text
  | .forward messageId target => onForward messageId target

end Functions

/-! ## Logging in -/

section Login

variable [Alphabet α]

/-- The message store of a user, below the home directory. -/
def storeFile (home : Bytes) (username : List α) : Bytes :=
  pathAppend home (bytes ".kingdom/messages/" ++ (sanitizedUsername username ++ bytes ".json"))

/-- `defaultStorePath` -/
def defaultStorePath (home : Bytes) (username : List α) : Except Exn Bytes := do
  ensure (home ≠ []) (.runtimeError (bytes "HOME environment variable not set"))
  return storeFile home username

variable [Crypto α] [FloatFormat] [DecidableEq α]

def encryptedForUser (home : Bytes) (username password : List α) : Action α (MessageStore α) := do
  let storePath ← Prog.ofExcept (defaultStorePath home username)
  encryptedAtPath storePath username password

/-- What the login window does with the server's answer to a login or a signup, and the
window that it opens. -/
def openSession (client : Client α) (home : Bytes) (username password : List α)
    (userJson : Json α) : Action α (Session α × Window α) := do
  let token ← Prog.ofExcept (orThrow (bytes "Server response missing token.")
    (userJson.get? (bytes "token")))
  let token ← Prog.ofExcept (getString token)
  let identityKey ← loadForLogin home username password
  let messageStore ← encryptedForUser home username password
  let userId ← Prog.ofExcept (do getUInt64 (← at' userJson "id"))
  let name ← Prog.ofExcept (do getString (← at' userJson "username"))
  return (⟨home, { client with authToken := token }, userId, name, messageStore⟩,
    ⟨identityKey, fun _ => none, fun _ => none, none, none, []⟩)

/-! ## Runs -/

/-- The sessions of one user on one machine, one after another: the log of the calls, the
session that is open with its window, and the world.  The sessions are all of the user `me`.
The process may stop between two calls, or in one, where `mayStop` allows it after the calls
behind. -/
inductive WindowRun {σ : Type} (mayFail : FileOp Bytes α → Prop)
    (net : HttpRequest α → σ → Option (HttpResponse α) → σ → Prop)
    (mayStop : WindowLog α → Option (Call α) → Prop) (home : Bytes) (username password : List α)
    (me : UInt64) : WindowLog α → Option (Session α × Window α) → World α σ → Prop where
  | start {w} (habsent : w.files (storeFile home username) = none) :
      WindowRun mayFail net mayStop home username password me [] none w
  | login {log desk w client userJson s window w'}
      (h : WindowRun mayFail net mayStop home username password me log desk w)
      (hlogin : (openSession client home username password userJson).Runs (exec mayFail net) w
        (some (.ok (s, window))) w') (hme : s.userId = me) :
      WindowRun mayFail net mayStop home username password me log (some (s, window)) w'
  /-- A login that fails, or does not end. -/
  | noLogin {log desk w client userJson x w'}
      (h : WindowRun mayFail net mayStop home username password me log desk w)
      (hlogin : (openSession client home username password userJson).Runs (exec mayFail net) w
        x w') :
      WindowRun mayFail net mayStop home username password me log none w'
  | act {log s window w} {action : WindowAction α} {x log' window' w'}
      (h : WindowRun mayFail net mayStop home username password me log (some (s, window)) w)
      (hrun : (action.prog s).Runs (logged (Call.exec mayFail net s)) ((w, window), log) (some x)
        ((w', window'), log')) :
      WindowRun mayFail net mayStop home username password me log' (some (s, window')) w'
  /-- The process stops between two calls, … -/
  | stopped {log s window w} {action : WindowAction α} {log' window' w'}
      (h : WindowRun mayFail net mayStop home username password me log (some (s, window)) w)
      (hrun : (action.prog s).Runs (logged (Call.exec mayFail net s)) ((w, window), log) none
        ((w', window'), log')) (hstop : mayStop log' none) :
      WindowRun mayFail net mayStop home username password me log' none w'
  /-- … or in a call. -/
  | killed {log s window w} {action : WindowAction α} {log' window' w'} {c : Call α} {w''}
      (h : WindowRun mayFail net mayStop home username password me log (some (s, window)) w)
      (hreach : (action.prog s).Reaches (logged (Call.exec mayFail net s)) ((w, window), log) c
        ((w', window'), log'))
      (hcall : (c.run s window').Runs (exec mayFail net) w' none w'') (hstop : mayStop log' (some c)) :
      WindowRun mayFail net mayStop home username password me log' none w''
  /-- What the window does beside: the lists of users and of conversations, its dialogs, and the
  pins they make. -/
  | aside {log s window w} {window' : Window α} {w'}
      (h : WindowRun mayFail net mayStop home username password me log (some (s, window)) w)
      (hkeys : window'.identityKey = window.identityKey)
      (hfiles : ∀ p ≠ knownKeysFile home, w'.files p = w.files p) :
      WindowRun mayFail net mayStop home username password me log (some (s, window')) w'
  | logout {log desk w w'}
      (h : WindowRun mayFail net mayStop home username password me log desk w)
      (hfiles : w'.files = w.files) :
      WindowRun mayFail net mayStop home username password me log none w'

end Login

end Kd
