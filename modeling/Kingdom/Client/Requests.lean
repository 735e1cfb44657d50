import Kingdom.Client.Account
import Kingdom.Client.MainWindow

/-!
# Requests of the library

The functions of `kd::Client` that send one request and return the JSON of its response,
and the two that also change the token of the client.

* `request` — send a request, and read a response that has one of the statuses expected.
* `getHealth` … `revokeMessageAccess` — the functions.
* `login`, `logout` — those that set and clear the token.
* `ApiCall`, `ApiCall.run` — a call of one of the functions, with its arguments.
-/

namespace Kd

open Codec Process

variable {α : Type} [Alphabet α] [FloatFormat]

/-! ## One request -/

/-- Send a request; a response with one of these statuses holds JSON. -/
def request (client : Client α) (expected : List Nat) (req : HttpRequest α) : Action α (Json α) := do
  match ← perform (.http req) with
  | none => Prog.fail (connectError client)
  | some res =>
      if res.status ∈ expected then Prog.ofExcept (orJsonError (Json.parse res.body))
      else Prog.fail (statusError res)

/-- A `POST` of a JSON body. -/
def postJson (client : Client α) (expected : List Nat) (path : Bytes) (body : Json α) :
    Action α (Json α) := do
  let text ← Prog.ofExcept (orJsonError body.dump)
  request client expected ⟨bytes "POST", path, client.authToken, text⟩

/-- `Client::getHealth` -/
def getHealth (client : Client α) : Action α (Json α) :=
  request client [200] ⟨bytes "GET", bytes "/health", [], []⟩

/-- `Client::getInfo` -/
def getInfo (client : Client α) : Action α (Json α) :=
  request client [200] ⟨bytes "GET", bytes "/", [], []⟩

/-- The path of the conversations of a user. -/
def conversationsPath (userId : UInt64) : Bytes :=
  bytes "/users/" ++ decimal userId.toNat ++ bytes "/conversations"

/-- `Client::getConversations` -/
def getConversations (client : Client α) (userId : UInt64) : Action α (Json α) :=
  request client [200] ⟨bytes "GET", conversationsPath userId, client.authToken, []⟩

/-- `Client::getUsers` -/
def getUsers (client : Client α) : Action α (Json α) :=
  request client [200] ⟨bytes "GET", bytes "/users", client.authToken, []⟩

/-- `Client::createConversation` -/
def createConversation (client : Client α) (name : List α) (participantIds : List UInt64) :
    Action α (Json α) :=
  postJson client [200, 201] (bytes "/conversations")
    (.mkObj [("name", .str name), ("participantIds", .arr (participantIds.map .unsigned))])

/-- `Client::sendMessage`, without a recipient. -/
def sendMessageToAll (client : Client α) (conversationId senderId : UInt64) (payload : List α) :
    Action α (Json α) :=
  postJson client [200, 201] (messagesPath conversationId)
    (.mkObj [("senderId", .unsigned senderId), ("payload", .str payload)])

/-- The path of a message. -/
def messagePath (conversationId messageId : UInt64) : Bytes :=
  bytes "/conversations/" ++ decimal conversationId.toNat ++ bytes "/messages/" ++
    decimal messageId.toNat

/-- `Client::deleteMessage` -/
def deleteMessage (client : Client α) (conversationId messageId : UInt64) : Action α (Json α) :=
  request client [200] ⟨bytes "DELETE", messagePath conversationId messageId, client.authToken, []⟩

/-- The path of the access of a user to a message. -/
def accessPath (conversationId messageId targetUserId : UInt64) : Bytes :=
  bytes "/conversations/" ++ decimal conversationId.toNat ++ bytes "/messages/" ++
    decimal messageId.toNat ++ bytes "/access/" ++ decimal targetUserId.toNat

/-- `Client::revokeMessageAccess` -/
def revokeMessageAccess (client : Client α) (conversationId messageId targetUserId : UInt64) :
    Action α (Json α) :=
  request client [200]
    ⟨bytes "DELETE", accessPath conversationId messageId targetUserId, client.authToken, []⟩

theorem getMessages_eq (client : Client α) (conversationId : UInt64) :
    getMessages client conversationId =
      request client [200] ⟨bytes "GET", messagesPath conversationId, client.authToken, []⟩ := by
  unfold getMessages request
  congr 1
  funext res
  cases res with
  | none => rfl
  | some res => simp only [List.mem_singleton]

theorem sendMessage_eq (client : Client α) (conversationId senderId recipientId : UInt64)
    (payload : List α) : sendMessage client conversationId senderId recipientId payload =
      postJson client [200, 201] (messagesPath conversationId)
        (.mkObj [("senderId", .unsigned senderId), ("recipientId", .unsigned recipientId),
          ("payload", .str payload)]) := by
  unfold sendMessage postJson request
  dsimp only
  congr 1
  funext text
  congr 1
  funext res
  cases res with
  | none => rfl
  | some res => simp only [List.mem_cons, List.not_mem_nil, or_false]

/-! ## The token -/

/-- `Client::login`.  The client changes with the token, also when an exception follows. -/
def login (client : Client α) (username password : List α) :
    Action α (Client α × Except Exn (Json α)) := do
  let body : Json α := .mkObj [("username", .str username), ("password", .str password)]
  match body.dump with
  | none => return (client, .error .jsonError)
  | some text =>
      match ← perform (.http ⟨bytes "POST", bytes "/login", [], text⟩) with
      | none => return (client, .error (connectError client))
      | some res =>
          if res.status = 200 then
            match orJsonError (Json.parse res.body) with
            | .error e => return (client, .error e)
            | .ok response =>
                match storeToken client response with
                | .error e => return (client, .error e)
                | .ok client' => return (client', .ok response)
          else return (client, .error (statusError res))

/-- `Client::logout`: the token is cleared before the response is read. -/
def logout (client : Client α) : Action α (Client α × Except Exn (Json α)) := do
  match ← perform (.http ⟨bytes "POST", bytes "/logout", client.authToken, ofBytes (bytes "{}")⟩) with
  | none => return (client, .error (connectError client))
  | some res =>
      if res.status = 200 then
        return ({ client with authToken := [] }, orJsonError (Json.parse res.body))
      else return (client, .error (statusError res))

/-! ## Calls -/

/-- A call of a function that returns the JSON of a response. -/
inductive ApiCall (α : Type) where
  | getHealth
  | getInfo
  | getConversations (userId : UInt64)
  | getUsers
  | createConversation (name : List α) (participantIds : List UInt64)
  | sendMessageToAll (conversationId senderId : UInt64) (payload : List α)
  | sendMessage (conversationId senderId recipientId : UInt64) (payload : List α)
  | deleteMessage (conversationId messageId : UInt64)
  | revokeMessageAccess (conversationId messageId targetUserId : UInt64)
  | getMessages (conversationId : UInt64)

/-- What each of the calls does. -/
def ApiCall.run (client : Client α) : ApiCall α → Action α (Json α)
  | .getHealth => Kd.getHealth client
  | .getInfo => Kd.getInfo client
  | .getConversations userId => Kd.getConversations client userId
  | .getUsers => Kd.getUsers client
  | .createConversation name participantIds => Kd.createConversation client name participantIds
  | .sendMessageToAll conversationId senderId payload =>
      Kd.sendMessageToAll client conversationId senderId payload
  | .sendMessage conversationId senderId recipientId payload =>
      Kd.sendMessage client conversationId senderId recipientId payload
  | .deleteMessage conversationId messageId => Kd.deleteMessage client conversationId messageId
  | .revokeMessageAccess conversationId messageId targetUserId =>
      Kd.revokeMessageAccess client conversationId messageId targetUserId
  | .getMessages conversationId => Kd.getMessages client conversationId

end Kd
