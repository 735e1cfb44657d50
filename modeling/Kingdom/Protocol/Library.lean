import Kingdom.Protocol.Network

/-!
# The library and the server

A function of the client library that returns has had its effect on the server: among all
the requests that the server works on while the function runs, one makes the call the
function is for, with the arguments of the function, and the function returns what that
call returned.

* `Done` — what each function of the library is for, in calls of the database.
* `api_refines` — the functions refine the operations of the database.
* `login_refines`, `logout_refines` — the token of the client is issued and revoked.
-/

namespace Protocol

open Codec Process Kds

/-- **What a function of the library is for**, in the calls that the server makes for it and
the JSON it returns. -/
def Done [Primitives] [FloatFormat] (cfg : Config) (token : Kds.Bytes) (calls : CallLog Op Res) :
    Kd.ApiCall UInt8 → Json UInt8 → Prop
  | .getHealth, j => OnlyReads calls ∧ j = .mkObj [("status", .str (bytes "ok"))]
  -- the server has no route for `/`
  | .getInfo, _ => False
  | .getConversations userId, j => OnlyReads calls ∧ Belongs cfg token userId ∧
      ∃ cs, ⟨.getConversationsByUserId userId, .ok cs⟩ ∈ calls ∧ j = .arr (cs.map conversationJson)
  | .getUsers, j => OnlyReads calls ∧ ∃ users, ⟨.getAllUsers, .ok users⟩ ∈ calls ∧
      j = .arr (users.map fun u => .mkObj [("id", .unsigned u.1), ("username", .str u.2)])
  | .createConversation name participantIds, j => ∃ u c, Belongs cfg token u ∧
      u ∈ participantIds ∧ updates calls = [⟨.createConversation name participantIds, .ok c⟩] ∧
        j = .mkObj [("id", .unsigned c), ("name", .str name)]
  | .sendMessageToAll conversationId senderId payload, j => ∃ m now digest,
      Belongs cfg token senderId ∧ updates calls = [⟨.createMessage conversationId senderId payload
        now none (oneTimePreKeyIdFromPayload payload), .ok m⟩] ∧
        j = messageJson ⟨m, senderId, conversationId, payload, now, digest⟩
  | .sendMessage conversationId senderId recipientId payload, j => ∃ m now digest,
      Belongs cfg token senderId ∧ updates calls = [⟨.createMessage conversationId senderId payload
        now (some recipientId) (oneTimePreKeyIdFromPayload payload), .ok m⟩] ∧
        j = messageJson ⟨m, senderId, conversationId, payload, now, digest⟩
  | .deleteMessage conversationId messageId, j => ∃ u, Belongs cfg token u ∧
      updates calls = [⟨.deleteMessage conversationId messageId u, .ok true⟩] ∧
        j = .mkObj [("status", .str (bytes "deleted")), ("messageId", .unsigned messageId)]
  | .revokeMessageAccess conversationId messageId targetUserId, j => ∃ u now, Belongs cfg token u ∧
      updates calls =
        [⟨.revokeMessageAccess conversationId messageId u targetUserId now, .ok true⟩] ∧
        j = .mkObj [("status", .str (bytes "revoked")), ("messageId", .unsigned messageId),
          ("userId", .unsigned targetUserId)]
  | .getMessages conversationId, j => OnlyReads calls ∧ ∃ u ms, Belongs cfg token u ∧
      ⟨.isParticipant conversationId u, .ok true⟩ ∈ calls ∧
        ⟨.getMessagesByConversationIdForUser conversationId u, .ok ms⟩ ∈ calls ∧
          j = .arr (ms.map messageJson)

/-! ## Refinement -/

section Refinement

variable [Primitives] [FloatFormat] {cfg : Config} {tick : Clock → Clock → Prop}
  {mayFail : Storage.FileOp Kds.Bytes UInt8 → Prop} {w w' : Kd.World UInt8 Serving}

/-- Between the two worlds the server has handled a request, with calls of which `P` holds, and
the files are as they were. -/
def Effect (cfg : Config) (tick : Clock → Clock → Prop) (w w' : Kd.World UInt8 Serving)
    (P : CallLog Op Res → Prop) : Prop :=
  w'.files = w.files ∧ ∃ tr req calls res, w'.server.trace = w.server.trace ++ tr ∧
    Handled cfg tick w.server.system tr w'.server.system req calls res ∧ P calls

/-- A function that sends one request and returns the JSON of its response. -/
theorem effect_of_request {client : Kd.Client UInt8} {expected : List Nat}
    {req : Kd.HttpRequest UInt8} {P : CallLog Op Res → Prop} {j : Json UInt8}
    (hn : w.server.Reached cfg tick) (hexpected : ∀ s ∈ expected, s = 200 ∨ s = 201)
    (h : (Kd.request client expected req).Runs (Kd.exec mayFail (online cfg tick)) w
      (some (.ok j)) w')
    (hP : ∀ calls, Fulfilled cfg req calls j → P calls) : Effect cfg tick w w' P := by
  obtain ⟨hfiles, hok⟩ := ensures_request.of_runs h
  obtain ⟨tr, calls, res, htrace, hhandled, hstatus, hj⟩ := hok j rfl
  exact ⟨hfiles, tr, req, calls, res, htrace, hhandled,
    hP calls (fulfilled_of_handled hn hhandled (hexpected _ hstatus) hj)⟩

/-- The same of a function that posts a body. -/
theorem effect_of_post {client : Kd.Client UInt8} {path : Kds.Bytes} {body : Json UInt8}
    {P : CallLog Op Res → Prop} {j : Json UInt8} (hn : w.server.Reached cfg tick)
    (h : (Kd.postJson client [200, 201] path body).Runs (Kd.exec mayFail (online cfg tick)) w
      (some (.ok j)) w')
    (hP : ∀ text calls, body.dump = some text →
      Fulfilled cfg ⟨bytes "POST", path, client.authToken, text⟩ calls j → P calls) :
    Effect cfg tick w w' P := by
  unfold Kd.postJson at h
  cases hdump : body.dump with
  | none =>
      rw [hdump] at h
      cases h
  | some text =>
      rw [hdump] at h
      exact effect_of_request hn (by simp) h fun calls => hP text calls hdump

/-- **The functions of the library refine the operations of the database.** -/
theorem api_refines {client : Kd.Client UInt8} {call : Kd.ApiCall UInt8} {j : Json UInt8}
    (hn : w.server.Reached cfg tick)
    (h : (call.run client).Runs (Kd.exec mayFail (online cfg tick)) w (some (.ok j)) w') :
    Effect cfg tick w w' fun calls => Done cfg client.authToken calls call j := by
  cases call with
  | getHealth =>
      refine effect_of_request hn (by simp) h fun calls hf => ?_
      obtain ⟨addr, e, he, hreported⟩ := hf.reported
      cases he.symm.trans (by decide : endpointOf (bytes "GET") (bytes "/health") = some .health)
      cases hreported
      exact ⟨hf.reads fun _ => readsOnly_of_get, rfl⟩
  | getInfo =>
      refine effect_of_request hn (by simp) h fun calls hf => ?_
      obtain ⟨addr, e, he, -⟩ := hf.reported
      cases he.symm.trans (by decide : endpointOf (bytes "GET") (bytes "/") = none)
  | getConversations userId =>
      refine effect_of_request hn (by simp) h fun calls hf => ?_
      obtain ⟨addr, e, he, hreported⟩ := hf.reported
      cases he.symm.trans (endpointOf_conversations userId)
      cases hreported with
      | listUserConversations hpart hu hsaid =>
          cases hpart.symm.trans (parseId_idPart userId)
          exact ⟨hf.reads fun _ => readsOnly_of_get, belongs_of_bears hu, _, hsaid, rfl⟩
  | getUsers =>
      refine effect_of_request hn (by simp) h fun calls hf => ?_
      obtain ⟨addr, e, he, hreported⟩ := hf.reported
      cases he.symm.trans (by decide : endpointOf (bytes "GET") (bytes "/users") = some .listUsers)
      cases hreported with
      | listUsers hsaid => exact ⟨hf.reads fun _ => readsOnly_of_get, _, hsaid, rfl⟩
  | createConversation name participantIds =>
      refine effect_of_post hn h fun text calls hdump hf => ?_
      obtain ⟨addr, e, he, hreported⟩ := hf.reported
      cases he.symm.trans (by decide : endpointOf (bytes "POST") (bytes "/conversations") =
        some .createConversation)
      cases hreported with
      | createConversation hname hids hu hmem hsaid =>
          rw [posts_of_dump (Json.wf_mkObj (by simp [Json.WF, Json.wfElems_iff])) hdump] at hname hids
          simp +decide only [field, Json.norm_mkObj, Json.norm, Json.get?_mkObj, Json.lookup,
            List.map_cons, List.map_nil, List.reverse_cons, List.reverse_nil, List.nil_append,
            List.cons_append, if_true, if_false, Option.getD_some, idsOf_unsigned] at hname hids
          cases hname
          cases hids
          exact ⟨_, _, belongs_of_bears hu, hmem, updates_eq hf.once hsaid rfl, rfl⟩
  | sendMessageToAll conversationId senderId payload =>
      refine effect_of_post hn h fun text calls hdump hf => ?_
      obtain ⟨addr, e, he, hreported⟩ := hf.reported
      cases he.symm.trans (endpointOf_createMessage conversationId)
      cases hreported with
      | createMessage hpart hfields hu hsaid =>
          cases hpart.symm.trans (parseId_idPart conversationId)
          cases fields_sendMessageToAll hdump hfields
          exact ⟨_, _, _, belongs_of_bears hu, updates_eq hf.once hsaid rfl, rfl⟩
  | sendMessage conversationId senderId recipientId payload =>
      rw [Kd.ApiCall.run, Kd.sendMessage_eq] at h
      refine effect_of_post hn h fun text calls hdump hf => ?_
      obtain ⟨addr, e, he, hreported⟩ := hf.reported
      cases he.symm.trans (endpointOf_createMessage conversationId)
      cases hreported with
      | createMessage hpart hfields hu hsaid =>
          cases hpart.symm.trans (parseId_idPart conversationId)
          cases fields_sendMessage hdump hfields
          exact ⟨_, _, _, belongs_of_bears hu, updates_eq hf.once hsaid rfl, rfl⟩
  | deleteMessage conversationId messageId =>
      refine effect_of_request hn (by simp) h fun calls hf => ?_
      obtain ⟨addr, e, he, hreported⟩ := hf.reported
      cases he.symm.trans (endpointOf_deleteMessage conversationId messageId)
      cases hreported with
      | deleteMessage hconv hmessage hu hsaid =>
          cases hconv.symm.trans (parseId_idPart conversationId)
          cases hmessage.symm.trans (parseId_idPart messageId)
          exact ⟨_, belongs_of_bears hu, updates_eq hf.once hsaid rfl, rfl⟩
  | revokeMessageAccess conversationId messageId targetUserId =>
      refine effect_of_request hn (by simp) h fun calls hf => ?_
      obtain ⟨addr, e, he, hreported⟩ := hf.reported
      cases he.symm.trans (endpointOf_revokeMessageAccess conversationId messageId targetUserId)
      cases hreported with
      | revokeMessageAccess hconv hmessage htarget hu hsaid =>
          cases hconv.symm.trans (parseId_idPart conversationId)
          cases hmessage.symm.trans (parseId_idPart messageId)
          cases htarget.symm.trans (parseId_idPart targetUserId)
          exact ⟨_, _, belongs_of_bears hu, updates_eq hf.once hsaid rfl, rfl⟩
  | getMessages conversationId =>
      rw [Kd.ApiCall.run, Kd.getMessages_eq] at h
      refine effect_of_request hn (by simp) h fun calls hf => ?_
      obtain ⟨addr, e, he, hreported⟩ := hf.reported
      cases he.symm.trans (endpointOf_messages conversationId)
      cases hreported with
      | listConversationMessages hpart hu hparticipant hsaid =>
          cases hpart.symm.trans (parseId_idPart conversationId)
          exact ⟨hf.reads fun _ => readsOnly_of_get, _, _, belongs_of_bears hu, hparticipant, hsaid,
            rfl⟩

/-! ## Tokens -/

/-- The calls have found the user of this name, whose password verifies, and have opened the
session of the token for that user. -/
def LoggedIn (cfg : Config) (username password token : Kds.Bytes) (calls : CallLog Op Res) : Prop :=
  OnlyReads calls ∧ ∃ user now, ⟨.getUserByUsername username, .ok (some user)⟩ ∈ calls ∧
    Primitives.pwhashVerify user.passwordHash password = true ∧ ⟨.epochSeconds, now⟩ ∈ calls ∧
      createSession_ cfg.jwtSecret cfg.jwtTtlSeconds now user.id user.username = .ok token

/-- **A login that returns** leaves the client with the token of a session that the server has
opened for the user of this name, whose password verifies. -/
theorem login_refines {client client' : Kd.Client UInt8} {username password : Kds.Bytes}
    {j : Json UInt8} (hn : w.server.Reached cfg tick)
    (h : (Kd.login client username password).Runs (Kd.exec mayFail (online cfg tick)) w
      (some (.ok (client', .ok j))) w') :
    client' = { client with authToken := client'.authToken } ∧
      Effect cfg tick w w' (LoggedIn cfg username password client'.authToken) := by
  have hensures : (Kd.login client username password).Ensures (Kd.exec mayFail (online cfg tick))
      (fun _ => True) w fun x v => v.files = w.files ∧ ∀ client' j, x = .ok (client', .ok j) →
        ∃ text tr calls res, (Json.mkObj [("username", .str username),
          ("password", .str password)]).dump = some text ∧ v.server.trace = w.server.trace ++ tr ∧
            Handled cfg tick w.server.system tr v.server.system
              ⟨bytes "POST", bytes "/login", [], text⟩ calls res ∧ res.status = 200 ∧
              Json.parse res.body = some j ∧ Kd.storeToken client j = .ok client' := by
    unfold Kd.login
    dsimp only
    cases hdump : (Json.mkObj [("username", .str username), ("password", .str password)]).dump with
    | none => exact ⟨trivial, rfl, by rintro _ _ ⟨⟩⟩
    | some text =>
        rw [Prog.ensures_bind, Kd.ensures_http]
        refine ⟨trivial, fun r n hnet => ⟨trivial, ?_⟩⟩
        obtain ⟨tr, htrace, -, hhandled⟩ := hnet
        cases r with
        | none => exact ⟨trivial, rfl, by rintro _ _ ⟨⟩⟩
        | some res =>
            obtain ⟨calls, hhandled⟩ := hhandled res rfl
            dsimp only
            split
            · rename_i hstatus
              split
              · exact ⟨trivial, rfl, by rintro _ _ ⟨⟩⟩
              · rename_i response hparse
                split
                · exact ⟨trivial, rfl, by rintro _ _ ⟨⟩⟩
                · rename_i stored hstore
                  refine ⟨trivial, rfl, ?_⟩
                  rintro _ _ ⟨⟩
                  exact ⟨text, tr, calls, res, rfl, htrace, hhandled, hstatus,
                    Kd.orJsonError_ok.mp hparse, hstore⟩
            · exact ⟨trivial, rfl, by rintro _ _ ⟨⟩⟩
  obtain ⟨hfiles, hok⟩ := hensures.of_runs h
  obtain ⟨text, tr, calls, res, hdump, htrace, hhandled, hstatus, hparse, hstore⟩ := hok _ _ rfl
  have hf := fulfilled_of_handled hn hhandled (.inl hstatus) hparse
  have hendpoint : endpointOf (bytes "POST") (bytes "/login") = some .login := by decide
  obtain ⟨addr, e, he, hreported⟩ := hf.reported
  cases he.symm.trans hendpoint
  have hreads : OnlyReads calls := hf.reads fun e he' => by
    cases he'.symm.trans hendpoint
    trivial
  cases hreported with
  | login husername hpassword huser hverify hclock htoken =>
      have hwf : (Json.mkObj [("username", .str username), ("password", .str password)]).WF :=
        Json.wf_mkObj (by simp [Json.WF])
      rw [posts_of_dump hwf hdump] at husername hpassword
      simp +decide only [field, Json.norm_mkObj, Json.norm, Json.get?_mkObj, Json.lookup,
        List.map_cons, List.map_nil, List.reverse_cons, List.reverse_nil, List.nil_append,
        List.cons_append, if_true, if_false, Option.getD_some] at husername hpassword
      cases husername
      cases hpassword
      rw [Kd.storeToken] at hstore
      simp +decide only [Json.get?_mkObj, Json.lookup, List.map_cons, List.map_nil,
        List.reverse_cons, List.reverse_nil, List.nil_append, List.cons_append, if_true,
        if_false] at hstore
      cases hstore
      exact ⟨rfl, hfiles, tr, _, calls, res, htrace, hhandled, hreads, _, _, huser, hverify, hclock,
        htoken⟩

/-- The calls have revoked the token, unless it is empty, and have only read besides. -/
def SignedOut (token : Kds.Bytes) (calls : CallLog Op Res) : Prop :=
  (token ≠ [] → ⟨.revoke token, ()⟩ ∈ calls) ∧
    ∀ c ∈ calls, c.1.IsRead ∨ token ≠ [] ∧ c.1 = .revoke token

/-- **A logout that returns** has revoked the token and nothing else, and the client has it no
more. -/
theorem logout_refines {client client' : Kd.Client UInt8} {j : Json UInt8}
    (hn : w.server.Reached cfg tick)
    (h : (Kd.logout client).Runs (Kd.exec mayFail (online cfg tick)) w
      (some (.ok (client', .ok j))) w') :
    client' = { client with authToken := [] } ∧
      Effect cfg tick w w' (SignedOut client.authToken) := by
  have hensures : (Kd.logout client).Ensures (Kd.exec mayFail (online cfg tick))
      (fun _ => True) w fun x v => v.files = w.files ∧ ∀ client' j, x = .ok (client', .ok j) →
        client' = { client with authToken := [] } ∧ ∃ tr calls res,
          v.server.trace = w.server.trace ++ tr ∧ Handled cfg tick w.server.system tr
            v.server.system ⟨bytes "POST", bytes "/logout", client.authToken, bytes "{}"⟩ calls res ∧
              res.status = 200 ∧ Json.parse res.body = some j := by
    rw [Kd.logout, Prog.ensures_bind, Kd.ensures_http]
    refine ⟨trivial, fun r n hnet => ⟨trivial, ?_⟩⟩
    obtain ⟨tr, htrace, -, hhandled⟩ := hnet
    cases r with
    | none => exact ⟨trivial, rfl, by rintro _ _ ⟨⟩⟩
    | some res =>
        obtain ⟨calls, hhandled⟩ := hhandled res rfl
        rw [ofBytes_uint8] at hhandled
        dsimp only
        split
        · rename_i hstatus
          refine ⟨trivial, rfl, fun client' j hj => ?_⟩
          injection hj with hj
          injection hj with hclient hj
          exact ⟨hclient.symm, tr, calls, res, htrace, hhandled, hstatus,
            Kd.orJsonError_ok.mp hj⟩
        · exact ⟨trivial, rfl, by rintro _ _ ⟨⟩⟩
  obtain ⟨hfiles, hok⟩ := hensures.of_runs h
  obtain ⟨hclient, tr, calls, res, htrace, hhandled, hstatus, hparse⟩ := hok _ _ rfl
  have hf := fulfilled_of_handled hn hhandled (.inl hstatus) hparse
  have hendpoint : endpointOf (bytes "POST") (bytes "/logout") = some .logout := by decide
  obtain ⟨addr, e, he, hreported⟩ := hf.reported
  cases he.symm.trans hendpoint
  refine ⟨hclient, hfiles, tr, _, calls, res, htrace, hhandled, fun htoken => ?_,
    hf.logout hendpoint⟩
  cases hreported with
  | logout hrevoked =>
      refine hrevoked client.authToken ?_
      simp [bearerToken, received, htoken]

end Refinement

/-! ## A message that is sent -/

/-- The server after Alice, Bob and Carol share a conversation. -/
theorem reached_directedState : ∃ n : Serving, n.system.state = directedState ∧
    @Serving.Reached examplePrimitives plainFloats exampleConfig (fun _ _ => True) n := by
  obtain ⟨tr, ths, hrun, -⟩ := run_directedState
  let _ := examplePrimitives
  let _ := plainFloats
  exact Serving.exists_reached hrun

/-- What Alice posts to send Carol a message. -/
def forCarol : Json UInt8 :=
  .mkObj [("senderId", .unsigned 1), ("recipientId", .unsigned 3),
    ("payload", .str (bytes "for Carol"))]

/-- The responses to this message and to a logout. -/
theorem directedState_serves : letI := examplePrimitives; letI := plainFloats;
    forCarol.dump = some (forCarol.dump.getD []) ∧
      (serveOne exampleConfig directedState (received ⟨bytes "POST", Kd.messagesPath 1, aliceToken,
        forCarol.dump.getD []⟩ [])).1.map (fun res =>
          (res.status, (Json.parse res.body : Option (Json UInt8)).isSome)) = some (201, true) ∧
      (serveOne exampleConfig directedState (received ⟨bytes "POST", bytes "/logout", aliceToken,
        bytes "{}"⟩ [])).1.map (fun res =>
          (res.status, (Json.parse res.body : Option (Json UInt8)).isSome)) = some (200, true) := by
  decide +kernel

/-- Alice sends Carol a message. -/
theorem api_refines_example : ∃ (w w' : Kd.World UInt8 Serving) (j : Json UInt8),
    @Effect examplePrimitives plainFloats exampleConfig (fun _ _ => True) w w' fun calls =>
      @Done examplePrimitives plainFloats exampleConfig aliceToken calls
        (.sendMessage 1 1 3 (bytes "for Carol")) j := by
  let _ := examplePrimitives
  let _ := plainFloats
  let client : Kd.Client UInt8 := ⟨bytes "http://localhost", [], aliceToken⟩
  obtain ⟨n, hstate, hn⟩ := reached_directedState
  obtain ⟨hdump, hserve, -⟩ := directedState_serves
  obtain ⟨res, hres, hanswer⟩ := Option.map_eq_some_iff.mp hserve
  obtain ⟨j, hj⟩ := Option.isSome_iff_exists.mp (congrArg Prod.snd hanswer)
  rw [← hstate] at hres
  obtain ⟨n', honline, -⟩ := @online_of_serveOne _ _ _ (fun _ _ => True) _ _ _ hres
  have hruns : ((Kd.ApiCall.sendMessage 1 1 3 (bytes "for Carol")).run client).Runs
      (Kd.exec (fun _ => False) (online exampleConfig fun _ _ => True)) ⟨fun _ => none, n⟩
        (some (.ok j)) ⟨fun _ => none, n'⟩ := by
    rw [Kd.ApiCall.run, Kd.sendMessage_eq, Kd.postJson, ← forCarol, hdump]
    have hstatus : res.status = 201 := congrArg Prod.fst hanswer
    exact runs_request honline (by simp [hstatus]) hj
  exact ⟨_, _, j, api_refines hn hruns⟩

/-- Primitives under which a password is its own hash. -/
@[reducible] def loginPrimitives : Primitives :=
  { examplePrimitives with pwhashVerify := fun hash password => hash == password }

/-- The server after Alice has signed up. -/
def signedUpState : ServerState :=
  (@session loginPrimitives plainFloats exampleConfig (.initial 1000000)
    [exampleSignup "alice" (bytes "a")]).2

theorem reached_signedUpState : ∃ n : Serving, n.system.state = signedUpState ∧
    @Serving.Reached loginPrimitives plainFloats exampleConfig (fun _ _ => True) n := by
  obtain ⟨tr, hrun, -, -⟩ := @run_session loginPrimitives plainFloats exampleConfig
    (fun _ _ => True) [exampleSignup "alice" (bytes "a")] (.initial 1000000) []
  rw [← signedUpState] at hrun
  let _ := loginPrimitives
  let _ := plainFloats
  exact Serving.exists_reached hrun

/-- Alice logs in. -/
theorem login_refines_example : ∃ (client' : Kd.Client UInt8) (w w' : Kd.World UInt8 Serving),
    client' = { (⟨bytes "http://localhost", [], []⟩ : Kd.Client UInt8) with
      authToken := client'.authToken } ∧
    @Effect loginPrimitives plainFloats exampleConfig (fun _ _ => True) w w'
      (@LoggedIn loginPrimitives exampleConfig (bytes "alice") (bytes "Password12345")
        client'.authToken) := by
  let _ := loginPrimitives
  let _ := plainFloats
  let client : Kd.Client UInt8 := ⟨bytes "http://localhost", [], []⟩
  let body : Json UInt8 :=
    .mkObj [("username", .str (bytes "alice")), ("password", .str (bytes "Password12345"))]
  let req : Kd.HttpRequest UInt8 := ⟨bytes "POST", bytes "/login", [], body.dump.getD []⟩
  obtain ⟨n, hstate, hn⟩ := reached_signedUpState
  have hdump : body.dump = some (body.dump.getD []) := by decide +kernel
  have hserve : ((serveOne exampleConfig signedUpState (received req [])).1.map fun res =>
      (res.status, (Json.parse res.body : Option (Json UInt8)).map fun j =>
        (Kd.storeToken client j).toOption.isSome)) = some (200, some true) := by
    decide +kernel
  obtain ⟨res, hres, hanswer⟩ := Option.map_eq_some_iff.mp hserve
  have hstatus : res.status = 200 := congrArg Prod.fst hanswer
  obtain ⟨j, hj, hstored⟩ := Option.map_eq_some_iff.mp (congrArg Prod.snd hanswer)
  rw [← hstate] at hres
  obtain ⟨n', honline, -⟩ := @online_of_serveOne _ _ _ (fun _ _ => True) _ _ _ hres
  cases hstore : Kd.storeToken client j with
  | error e => simp [hstore, Except.toOption] at hstored
  | ok client' =>
      have hruns : (Kd.login client (bytes "alice") (bytes "Password12345")).Runs
          (Kd.exec (fun _ => False) (online exampleConfig fun _ _ => True)) ⟨fun _ => none, n⟩
            (some (.ok (client', .ok j))) ⟨fun _ => none, n'⟩ := by
        simp only [Kd.login, body] at hdump ⊢
        rw [hdump]
        refine .call ⟨n', honline, rfl⟩ ?_
        simp only [Prog.bind, hstatus, if_true, hj, Kd.orJsonError, Option.elim_some, hstore]
        exact .pure
      exact ⟨client', _, _, login_refines hn hruns⟩

/-- Alice logs out. -/
theorem logout_refines_example : ∃ (client' : Kd.Client UInt8) (w w' : Kd.World UInt8 Serving),
    client' = { (⟨bytes "http://localhost", [], aliceToken⟩ : Kd.Client UInt8) with
      authToken := [] } ∧
    @Effect examplePrimitives plainFloats exampleConfig (fun _ _ => True) w w'
      (SignedOut aliceToken) ∧ aliceToken ≠ [] := by
  let _ := examplePrimitives
  let _ := plainFloats
  let client : Kd.Client UInt8 := ⟨bytes "http://localhost", [], aliceToken⟩
  obtain ⟨n, hstate, hn⟩ := reached_directedState
  obtain ⟨-, -, hserve⟩ := directedState_serves
  obtain ⟨res, hres, hanswer⟩ := Option.map_eq_some_iff.mp hserve
  have hstatus : res.status = 200 := congrArg Prod.fst hanswer
  obtain ⟨j, hj⟩ := Option.isSome_iff_exists.mp (congrArg Prod.snd hanswer)
  rw [← hstate] at hres
  obtain ⟨n', honline, -⟩ := @online_of_serveOne _ _ _ (fun _ _ => True) _ _ _ hres
  have hruns : (Kd.logout client).Runs
      (Kd.exec (fun _ => False) (online exampleConfig fun _ _ => True)) ⟨fun _ => none, n⟩
        (some (.ok ({ client with authToken := [] }, .ok j))) ⟨fun _ => none, n'⟩ := by
    rw [Kd.logout, ofBytes_uint8]
    refine .call ⟨n', honline, rfl⟩ ?_
    simp only [Prog.bind, hstatus, if_true, hj, Kd.orJsonError, Option.elim_some]
    exact .pure
  obtain ⟨hclient, heffect⟩ := logout_refines hn hruns
  exact ⟨_, _, _, hclient, heffect, by decide +kernel⟩

end Protocol
