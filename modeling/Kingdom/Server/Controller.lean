import Kingdom.Server.Machine

/-!
# The request handlers

The security filter chain and the handlers of `Controller.cc`, each as a program
over the operations of the server machine: what the source does between two
locks is pure, and every call of the database, the blacklist, the clocks or the
sidecar is one call of the program.

* `endpointOf` — the routing table.
* `filterChain` — the three security predicates, in order.
* `handleSignup_` … `handleListConversationMessages_` — the handlers.
* `serve` — the filter chain, then the route.
* `resolverRound` — one round of the blockchain resolver thread.
* `serverProgram` — what each task of the server runs.

A C++ exception is a failure of the program; `respond` turns those that leave a
handler into the library's answer 500.
-/

namespace Kds

open Codec Process

/-- A program of the server. -/
abbrev Server := Prog Op Res Exn

/-- An HTTP response; the headers that are always the same are left out. -/
structure Response where
  status : Nat
  body : Bytes
  deriving DecidableEq, Repr

/-! ## Helpers -/

/-- Call an operation. -/
def perform (o : Op) : Server (Res o) := Prog.op o

/-- A call that answers or throws. -/
def attempt {α : Type} (p : Server (Except Exn α)) : Server α := p >>= Prog.ofExcept

/-- A conversion of the JSON library, which throws when it does not apply. -/
def jsonGet {α : Type} (x : Option α) : Server α := Prog.ofExcept (x.elim (.error .jsonError) .ok)

/-- `body[key]`, where the key is known to be there. -/
def field (body : Json UInt8) (key : String) : Json UInt8 := (body.get? (bytes key)).getD .null

/-- `set_content(body.dump(), …)` under a status. -/
def reply (status : Nat) (body : Json UInt8) : Server Response := do
  let text ← jsonGet body.dump
  return ⟨status, text⟩

/-- `{"error": text}` under a status. -/
def replyError (status : Nat) (text : String) : Server Response :=
  reply status (.mkObj [("error", .str (bytes text))])

/-- `std::from_chars` over a whole path part. -/
def parseId (s : Bytes) : Option UInt64 := fromChars s

/-- `static_cast<uint64_t>(…count())` of the system clock in milliseconds. -/
def nowMillis : Server UInt64 := perform .epochMillis

def usernameRequired : String := "username must be 1–64 characters"

/-- `isValidSignupPassword` -/
def isValidSignupPassword (password : Bytes) : Bool :=
  12 ≤ password.length ∧ password.length ≤ 72 ∧
    password.any (fun c => 0x41 ≤ c ∧ c ≤ 0x5A) ∧ password.any isDigit

/-! ## Routes -/

/-- The routes of the server, with the parts of the path they match. -/
inductive Endpoint where
  | signup
  | login
  | logout
  | createConversation
  | createMessage (conv : Bytes)
  | deleteMessage (conv msg : Bytes)
  | revokeMessageAccess (conv msg user : Bytes)
  | health
  | listUsers
  | api
  | publicKey (id : Bytes)
  | listUserConversations (id : Bytes)
  | listConversationMessages (conv : Bytes)
  deriving DecidableEq, Repr

/-- The parts of a path between its slashes. -/
def pathParts (path : Bytes) : List Bytes := path.splitOn 0x2F

/-- `(\d+)` -/
def isDigits (s : Bytes) : Bool := s ≠ [] ∧ s.all isDigit

/-- The `POST` routes. -/
def postRoute : List Bytes → Option Endpoint
  | [[], p] =>
      if p = bytes "signup" then some .signup
      else if p = bytes "login" then some .login
      else if p = bytes "logout" then some .logout
      else if p = bytes "conversations" then some .createConversation
      else none
  | [[], conversations, conv, messages] =>
      if conversations = bytes "conversations" ∧ isDigits conv ∧ messages = bytes "messages" then
        some (.createMessage conv)
      else none
  | _ => none

/-- The `DELETE` routes. -/
def deleteRoute : List Bytes → Option Endpoint
  | [[], conversations, conv, messages, msg] =>
      if conversations = bytes "conversations" ∧ isDigits conv ∧ messages = bytes "messages" ∧
          isDigits msg then
        some (.deleteMessage conv msg)
      else none
  | [[], conversations, conv, messages, msg, access, user] =>
      if conversations = bytes "conversations" ∧ isDigits conv ∧ messages = bytes "messages" ∧
          isDigits msg ∧ access = bytes "access" ∧ isDigits user then
        some (.revokeMessageAccess conv msg user)
      else none
  | _ => none

/-- The `GET` routes. -/
def getRoute : List Bytes → Option Endpoint
  | [[], p] =>
      if p = bytes "health" then some .health
      else if p = bytes "users" then some .listUsers
      else if p = bytes "api" then some .api
      else none
  | [[], first, id, last] =>
      if first = bytes "users" ∧ isDigits id ∧ last = bytes "public-key" then some (.publicKey id)
      else if first = bytes "users" ∧ isDigits id ∧ last = bytes "conversations" then
        some (.listUserConversations id)
      else if first = bytes "conversations" ∧ isDigits id ∧ last = bytes "messages" then
        some (.listConversationMessages id)
      else none
  | _ => none

/-- The route of a request; the library serves `HEAD` like `GET`. -/
def endpointOf (method path : Bytes) : Option Endpoint :=
  if method = bytes "POST" then postRoute (pathParts path)
  else if method = bytes "DELETE" then deleteRoute (pathParts path)
  else if method = bytes "GET" ∨ method = bytes "HEAD" then getRoute (pathParts path)
  else none

section Programs

variable [Primitives] [FloatFormat] (cfg : Config)

/-- The controller's `oneTimePreKeyIdFromPayload`. -/
def oneTimePreKeyIdFromPayload (payload : Bytes) : Option UInt64 :=
  ((Json.parse payload : Option (Json UInt8)).bind fun j => j.get? (bytes "oneTimePreKeyId")).bind
    fun id => if id.isNumberUnsigned then id.uint64? else none

/-! ## Tokens -/

/-- `verifiedJwtPayload` with the clock it reads. -/
def verifyToken (token : Bytes) : Server (Option (Json UInt8)) := do
  let now ← perform .epochSeconds
  Prog.ofExcept (verifiedJwtPayload now token cfg.jwtSecret)

/-- `Controller::authenticatedUserId_` with the clock it reads. -/
def authenticatedUserId (req : Request) : Server (Option UInt64) := do
  match bearerToken req with
  | none => return none
  | some token =>
      let payload ← verifyToken cfg token
      return payload.bind payloadUserId

/-- `createSession_` with the clock it reads. -/
def createSession (userId : UInt64) (username : Bytes) : Server Bytes := do
  let issuedAt ← perform .epochSeconds
  Prog.ofExcept (createSession_ cfg.jwtSecret cfg.jwtTtlSeconds issuedAt userId username)

/-! ## The security filter chain -/

/-- An error of the filter chain. -/
structure SecurityError where
  message : String
  httpStatusCode : Nat

/-- `ValidateSenderAuthenticity` -/
def validateSenderAuthenticity (req : Request) : Server (Option SecurityError) := do
  if req.method ≠ bytes "POST" then return none
  match (Json.parse req.body : Option (Json UInt8)) with
  | none => return none
  | some body =>
      if ¬ body.contains (bytes "senderId") then return none
      match bearerToken req with
      | none => return none
      | some token =>
          match ← verifyToken cfg token with
          | none => return none
          | some payload =>
              match payloadUserId payload, (field body "senderId").uint64? with
              | some authenticatedUserId, some senderId =>
                  if authenticatedUserId ≠ senderId then
                    return some ⟨"sender ID does not match authenticated user", 403⟩
                  return none
              | _, _ => return none

/-- Does the text contain the pattern? -/
def containsText (pattern : Bytes) (s : Bytes) : Bool := s.tails.any pattern.isPrefixOf

/-- `ValidateUntampered` -/
def validateUntampered (req : Request) : Option SecurityError :=
  if req.method ≠ bytes "POST" ∧ req.method ≠ bytes "PUT" then none
  else if req.contentType = [] ∨ ¬ containsText (bytes "application/json") req.contentType then
    some ⟨"Content-Type must be application/json", 400⟩
  else none

/-- The paths that need no token. -/
def isPublicPath (path : Bytes) : Bool :=
  [bytes "/login", bytes "/signup", bytes "/health", bytes "/", bytes "/api"].contains path ||
    match pathParts path with
    | [root, users, id, publicKey] =>
        root = [] ∧ users = bytes "users" ∧ isDigits id ∧ publicKey = bytes "public-key"
    | _ => false

/-- `ValidateAuthenticated` -/
def validateAuthenticated (req : Request) : Server (Option SecurityError) := do
  if isPublicPath req.path then return none
  match bearerToken req with
  | none => return some ⟨"authentication required", 401⟩
  | some token =>
      match ← verifyToken cfg token with
      | none => return some ⟨"invalid or expired session token", 401⟩
      | some _ =>
          let revoked ← perform (.isRevoked token)
          if revoked then return some ⟨"session has been revoked", 401⟩
          return none

/-- `SecurityFilterChain::Execute` with the predicates of the controller. -/
def filterChain (req : Request) : Server (Option SecurityError) := do
  match ← validateSenderAuthenticity cfg req with
  | some e => return some e
  | none =>
      match validateUntampered req with
      | some e => return some e
      | none => validateAuthenticated cfg req

/-! ## Accounts -/

/-- The `try` block of `handleSignup_`, with the call of `createSession_` left open. -/
def signupUser (createSession : UInt64 → Bytes → Server Bytes)
    (username password publicKey : Bytes) : Server Response :=
  Prog.tryCatch
    (do
      let passwordHash ← attempt (perform (.hashPassword password))
      let newUserId ← attempt (perform (.createUser username passwordHash publicKey))
      let sessionToken ← createSession newUserId username
      reply 201 (.mkObj [("id", .unsigned newUserId), ("username", .str username),
        ("publicKey", .str publicKey), ("token", .str sessionToken),
        ("sessionToken", .str sessionToken)]))
    fun e =>
      match e with
      | .runtimeError what => reply 409 (.mkObj [("error", .str what)])
      | e => Prog.fail e

/-- `handleSignup_`, with that call left open. -/
def handleSignupWith (createSession : UInt64 → Bytes → Server Bytes) (req : Request) :
    Server Response := do
  let limited ← perform (.isRateLimited req.remoteAddr)
  if limited then return ← replyError 429 "too many requests"
  match (Json.parse req.body : Option (Json UInt8)) with
  | none => replyError 400 "username, password, and publicKey required"
  | some body =>
      if ¬ body.contains (bytes "username") ∨ ¬ body.contains (bytes "password") ∨
          ¬ body.contains (bytes "publicKey") then
        return ← replyError 400 "username, password, and publicKey required"
      let username ← jsonGet (field body "username").str?
      let password ← jsonGet (field body "password").str?
      let publicKey ← jsonGet (field body "publicKey").str?
      if username = [] ∨ 64 < username.length then return ← replyError 400 usernameRequired
      if ¬ isValidSignupPassword password then
        return ← replyError 400
          "password must be 12–72 characters and include at least one uppercase letter and one number"
      if publicKey = [] ∨ 8192 < publicKey.length then
        return ← replyError 400 "publicKey must be 1–8192 characters"
      signupUser createSession username password publicKey

def handleSignup_ : Request → Server Response := handleSignupWith (createSession cfg)

def handleLogin_ (req : Request) : Server Response := do
  let limited ← perform (.isRateLimited req.remoteAddr)
  if limited then return ← replyError 429 "too many requests"
  match (Json.parse req.body : Option (Json UInt8)) with
  | none => replyError 400 "username and password required"
  | some body =>
      if ¬ body.contains (bytes "username") ∨ ¬ body.contains (bytes "password") then
        return ← replyError 400 "username and password required"
      let username ← jsonGet (field body "username").str?
      let password ← jsonGet (field body "password").str?
      if username = [] ∨ 64 < username.length then return ← replyError 400 usernameRequired
      if password = [] ∨ 72 < password.length then
        return ← replyError 400 "password must be 1–72 characters"
      match ← attempt (perform (.getUserByUsername username)) with
      | none => replyError 401 "invalid username or password"
      | some user =>
          if ¬ Primitives.pwhashVerify user.passwordHash password then
            return ← replyError 401 "invalid username or password"
          let sessionToken ← createSession cfg user.id user.username
          reply 200 (.mkObj [("id", .unsigned user.id), ("username", .str user.username),
            ("token", .str sessionToken), ("sessionToken", .str sessionToken)])

def handleLogout_ (req : Request) : Server Response := do
  if let some token := bearerToken req then
    perform (.revoke token)
  reply 200 (.mkObj [("status", .str (bytes "success")), ("message", .str (bytes "Logged out"))])

/-! ## Conversations -/

def conversationJson (c : Conversation) : Json UInt8 :=
  .mkObj [("id", .unsigned c.id), ("name", .str c.name),
    ("participantIds", .arr (c.participantIds.map .unsigned)), ("createdAt", .unsigned c.createdAt)]

def messageJson (m : Message) : Json UInt8 :=
  .mkObj [("id", .unsigned m.id), ("senderId", .unsigned m.senderId),
    ("conversationId", .unsigned m.conversationId), ("payload", .str m.payload),
    ("timestamp", .unsigned m.timestamp), ("blockchainDigest", .str m.blockchainDigest)]

def handleCreateConversation_ (req : Request) : Server Response := do
  match ← authenticatedUserId cfg req with
  | none => replyError 401 "login required"
  | some authenticatedUserId =>
      match (Json.parse req.body : Option (Json UInt8)) with
      | none => replyError 400 "name and participantIds required"
      | some body =>
          if ¬ body.contains (bytes "name") ∨ ¬ body.contains (bytes "participantIds") then
            return ← replyError 400 "name and participantIds required"
          let name ← jsonGet (field body "name").str?
          if name = [] ∨ 128 < name.length then
            return ← replyError 400 "name must be 1–128 characters"
          let entries ← jsonGet (field body "participantIds").arr?
          let participantIds ← jsonGet (entries.mapM Json.uint64?)
          if participantIds = [] ∨ 50 < participantIds.length then
            return ← replyError 400 "participantIds must contain 1–50 users"
          if ¬ participantIds.Nodup then
            return ← replyError 400 "participantIds must not contain duplicates"
          if ¬ participantIds.contains authenticatedUserId then
            return ← replyError 400 "conversation creator must be a participant"
          let exist ← attempt (perform (.usersExist participantIds))
          if ¬ exist then
            return ← replyError 400 "participantIds must reference existing users"
          let newConvId ← attempt (perform (.createConversation name participantIds))
          reply 201 (.mkObj [("id", .unsigned newConvId), ("name", .str name)])

def handleListUserConversations_ (req : Request) (idPart : Bytes) : Server Response := do
  match ← authenticatedUserId cfg req with
  | none => replyError 401 "login required"
  | some authenticatedUserId =>
      match parseId idPart with
      | none => replyError 400 "invalid user id"
      | some userId =>
          if authenticatedUserId ≠ userId then return ← replyError 403 "forbidden"
          let convs ← attempt (perform (.getConversationsByUserId userId))
          reply 200 (.arr (convs.map conversationJson))

/-! ## Messages -/

/-- The sidecar's part of `handleCreateMessage_`: the digest it leaves, empty
when the sidecar fails. -/
def recordOnBlockchain (convId msgId : UInt64) (payload : Bytes) : Server Bytes :=
  Prog.tryCatch
    (do
      let sidecarBody ← jsonGet (Json.mkObj [("conversationId", .unsigned convId),
        ("msgId", .unsigned msgId), ("ciphertext", .str payload)] : Json UInt8).dump
      match ← perform (.sidecar (bytes "/record") sidecarBody) with
      | some (200, answer) =>
          let sidecarJson ← jsonGet (Json.parse answer : Option (Json UInt8))
          let pendingId ← jsonGet (field sidecarJson "pendingId").str?
          let digest := bytes "pending:" ++ pendingId
          -- `blockchainDigest` is assigned by now, and an error of the update is only logged
          let _ ← perform (.updateMessageBlockchainDigest msgId digest)
          return digest
      | _ => return [])
    fun _ => return []

/-- `recipientId`, when the body gives one that is not null. -/
def recipientOf (body : Json UInt8) : Server (Option UInt64) :=
  if (field body "recipientId").isNull then return none
  else do
    let recipient ← jsonGet (field body "recipientId").uint64?
    return some recipient

/-- Is the recipient, when there is one, a participant? -/
def isRecipient (convId : UInt64) : Option UInt64 → Server Bool
  | none => return true
  | some recipient => attempt (perform (.isParticipant convId recipient))

/-- The end of `handleCreateMessage_`: the message is stored and given to the sidecar. -/
def storeMessage (convId senderId : UInt64) (payload : Bytes) (recipientId : Option UInt64) :
    Server Response := do
  let now ← nowMillis
  match ← perform (.createMessage convId senderId payload now recipientId
      (oneTimePreKeyIdFromPayload payload)) with
  | .error (.runtimeError what) => reply 409 (.mkObj [("error", .str what)])
  | .error e => Prog.fail e
  | .ok msgId =>
      let digest ← recordOnBlockchain convId msgId payload
      reply 201 (messageJson ⟨msgId, senderId, convId, payload, now, digest⟩)

def handleCreateMessage_ (req : Request) (convPart : Bytes) : Server Response := do
  match parseId convPart with
  | none => replyError 400 "invalid conversation id"
  | some convId =>
      match (Json.parse req.body : Option (Json UInt8)) with
      | none => replyError 400 "senderId and payload required"
      | some body =>
          if ¬ body.contains (bytes "senderId") ∨ ¬ body.contains (bytes "payload") then
            return ← replyError 400 "senderId and payload required"
          let senderId ← jsonGet (field body "senderId").uint64?
          let payload ← jsonGet (field body "payload").str?
          let recipientId ← recipientOf body
          if payload = [] ∨ 65536 < payload.length then
            return ← replyError 400 "payload must be 1–65536 characters"
          match ← authenticatedUserId cfg req with
          | none => replyError 401 "login required"
          | some authenticatedUserId =>
              if authenticatedUserId ≠ senderId then
                return ← replyError 403 "session user cannot send as another user"
              let participant ← attempt (perform (.isParticipant convId authenticatedUserId))
              if ¬ participant then return ← replyError 403 "forbidden"
              let recipient ← isRecipient convId recipientId
              if ¬ recipient then
                return ← replyError 400 "recipient must be a conversation participant"
              storeMessage convId senderId payload recipientId

def handleDeleteMessage_ (req : Request) (convPart messagePart : Bytes) : Server Response := do
  match ← authenticatedUserId cfg req with
  | none => replyError 401 "login required"
  | some authenticatedUserId =>
      match parseId convPart, parseId messagePart with
      | some convId, some messageId =>
          let participant ← attempt (perform (.isParticipant convId authenticatedUserId))
          if ¬ participant then return ← replyError 403 "forbidden"
          let deleted ← attempt (perform (.deleteMessage convId messageId authenticatedUserId))
          if ¬ deleted then return ← replyError 404 "message not found"
          reply 200 (.mkObj [("status", .str (bytes "deleted")), ("messageId", .unsigned messageId)])
      | _, _ => replyError 400 "invalid id"

def handleRevokeMessageAccess_ (req : Request) (convPart messagePart userPart : Bytes) :
    Server Response := do
  match ← authenticatedUserId cfg req with
  | none => replyError 401 "login required"
  | some authenticatedUserId =>
      match parseId convPart, parseId messagePart, parseId userPart with
      | some convId, some messageId, some targetUserId =>
          let participant ← attempt (perform (.isParticipant convId authenticatedUserId))
          if ¬ participant then return ← replyError 403 "forbidden"
          let target ← attempt (perform (.isParticipant convId targetUserId))
          if ¬ target then return ← replyError 403 "forbidden"
          let own ← attempt (perform (.isMessageSender convId messageId authenticatedUserId))
          if ¬ own then return ← replyError 403 "only the sender can revoke access"
          let now ← nowMillis
          let revoked ← attempt (perform
            (.revokeMessageAccess convId messageId authenticatedUserId targetUserId now))
          if ¬ revoked then return ← replyError 404 "message access not found"
          reply 200 (.mkObj [("status", .str (bytes "revoked")), ("messageId", .unsigned messageId),
            ("userId", .unsigned targetUserId)])
      | _, _, _ => replyError 400 "invalid id"

def handleListConversationMessages_ (req : Request) (convPart : Bytes) : Server Response := do
  match ← authenticatedUserId cfg req with
  | none => replyError 401 "login required"
  | some authenticatedUserId =>
      match parseId convPart with
      | none => replyError 400 "invalid conversation id"
      | some convId =>
          let participant ← attempt (perform (.isParticipant convId authenticatedUserId))
          if ¬ participant then return ← replyError 403 "forbidden"
          let msgs ← attempt
            (perform (.getMessagesByConversationIdForUser convId authenticatedUserId))
          reply 200 (.arr (msgs.map messageJson))

/-! ## The other routes -/

/-- `userController_` -/
def handleListUsers : Server Response := do
  let users ← attempt (perform .getAllUsers)
  reply 200 (.arr (users.map fun u => .mkObj [("id", .unsigned u.1), ("username", .str u.2)]))

/-- `publicKeyController_` -/
def handlePublicKey (idPart : Bytes) : Server Response := do
  match parseId idPart with
  | none => replyError 400 "invalid user id"
  | some userId =>
      match ← attempt (perform (.getUserPublicKey userId)) with
      | none => replyError 404 "user not found"
      | some publicKey =>
          reply 200 (.mkObj [("userId", .unsigned userId), ("publicKey", .str publicKey)])

/-- The handler of each endpoint. -/
def handle (req : Request) : Endpoint → Server Response
  | .signup => handleSignup_ cfg req
  | .login => handleLogin_ cfg req
  | .logout => handleLogout_ req
  | .createConversation => handleCreateConversation_ cfg req
  | .createMessage conv => handleCreateMessage_ cfg req conv
  | .deleteMessage conv msg => handleDeleteMessage_ cfg req conv msg
  | .revokeMessageAccess conv msg user => handleRevokeMessageAccess_ cfg req conv msg user
  | .health => reply 200 (.mkObj [("status", .str (bytes "ok"))])
  | .listUsers => handleListUsers
  | .api => reply 200 (.mkObj [("name", .str (bytes "Kingdom Server")), ("version", .str cfg.version)])
  | .publicKey id => handlePublicKey id
  | .listUserConversations id => handleListUserConversations_ cfg req id
  | .listConversationMessages conv => handleListConversationMessages_ cfg req conv

/-- The handler of a request; there is none for a path that matches no route. -/
def route (req : Request) : Server Response :=
  match endpointOf req.method req.path with
  | some e => handle cfg req e
  | none => return ⟨404, []⟩

/-- The filter chain, then the route.  The library runs the chain before the
routing, when it may not have read the body yet: the chain sees `seen` in its
place. -/
def serve (req : Request) (seen : Bytes) : Server Response := do
  match ← filterChain cfg { req with body := seen } with
  | some e => replyError e.httpStatusCode e.message
  | none => route cfg req

/-- The answer of the library: an exception that leaves a handler gives 500, and
the error handler of `registerNotFoundHandler_` writes the body of every 404. -/
def respond (req : Request) (seen : Bytes) : Server Response := do
  let res ← (serve cfg req seen).tryCatch fun _ => return ⟨500, []⟩
  if res.status = 404 then
    (reply 404 (.mkObj [("error", .str (bytes "Not Found")), ("status", .unsigned 404)])).tryCatch
      fun _ => return ⟨500, []⟩
  else return res

/-! ## The blockchain resolver -/

/-- What the resolver does with one pending message. -/
def resolveOne (msgId : UInt64) (pendingId : Bytes) : Server Unit :=
  Prog.tryCatch
    (do
      match ← perform (.sidecar (bytes "/pending/" ++ pendingId) []) with
      | some (200, answer) =>
          let json ← jsonGet (Json.parse answer : Option (Json UInt8))
          let resolvedStatus ← jsonGet (field json "status").str?
          if resolvedStatus = bytes "confirmed" then
            let txHash ← jsonGet (field json "txHash").str?
            attempt (perform (.updateMessageBlockchainDigest msgId txHash))
          else if resolvedStatus = bytes "failed" then
            attempt (perform (.updateMessageBlockchainDigest msgId []))
          else return ()
      | _ => return ())
    fun _ => return ()

def resolveAll : List (UInt64 × Bytes) → Server Unit
  | [] => return ()
  | (msgId, pendingId) :: rest => do
      resolveOne msgId pendingId
      resolveAll rest

/-- One round of the resolver thread. -/
def resolverRound : Server Unit := do
  let pending ← attempt (perform .getPendingBlockchainMessages)
  resolveAll pending

/-! ## Tasks -/

/-- What the server runs: a request, whose filter chain sees `seen` for its body,
or a round of the resolver. -/
inductive Task where
  | request (req : Request) (seen : Bytes)
  | resolver

/-- The program of a task; the resolver answers nobody. -/
def serverProgram : Task → Server (Option Response)
  | .request req seen => some <$> respond cfg req seen
  | .resolver => do
      resolverRound
      return none

end Programs

end Kds
