import Kingdom.Server.NewSession

/-!
# What an answer reports

A request that is answered 200 or 201 has made the call its endpoint is for, with the
arguments that are in its path, its body and its token, and the body of the response says
what that call returned.

* `Bears` — the request carries a token of a user.
* `Reported` — the call behind a response, and the JSON of the response; one case for each
  endpoint.
* `reports_signup` … `reports_listConversationMessages` — the handlers, one by one.
* `gives_respond` — every answer of the server.
* `reported_of_done` — so does every request a run has answered.
-/

namespace Kds

open Codec Process

/-- The statuses of a request that succeeded. -/
def Success (res : Response) : Prop := res.status = 200 ∨ res.status = 201

instance (res : Response) : Decidable (Success res) := inferInstanceAs (Decidable (_ ∨ _))

section Definitions

variable [Primitives] [FloatFormat] (cfg : Config) (req : Request)

/-- The request carries a token that verifies, for this user. -/
def Bears (u : UInt64) : Prop :=
  ∃ token now payload, bearerToken req = some token ∧
    verifiedJwtPayload now token cfg.jwtSecret = .ok (some payload) ∧ payloadUserId payload = some u

/-- The field of the body that the request posts. -/
def Posts {β : Type} (get : Json UInt8 → Option β) (key : String) (b : β) : Prop :=
  ∃ body : Json UInt8, Json.parse req.body = some body ∧ get (field body key) = some b

/-- The ids in a JSON array. -/
def idsOf (j : Json UInt8) : Option (List UInt64) := (j.arr?).bind fun es => es.mapM Json.uint64?

/-- **What an endpoint has called**, and the JSON it answers.  `said` holds of the calls that
were made and what they returned. -/
inductive Reported (said : (o : Op) → Res o → Prop) : Endpoint → Json UInt8 → Prop where
  | signup {username password hash publicKey : Bytes} {id now : UInt64} {token : Bytes}
      (husername : Posts req Json.str? "username" username)
      (hpassword : Posts req Json.str? "password" password)
      (hkey : Posts req Json.str? "publicKey" publicKey)
      (hhash : said (.hashPassword password) (.ok hash))
      (huser : said (.createUser username hash publicKey) (.ok id))
      (hclock : said .epochSeconds now)
      (htoken : createSession_ cfg.jwtSecret cfg.jwtTtlSeconds now id username = .ok token) :
      Reported said .signup (.mkObj [("id", .unsigned id), ("username", .str username),
        ("publicKey", .str publicKey), ("token", .str token), ("sessionToken", .str token)])
  | login {username password token : Bytes} {user : User} {now : UInt64}
      (husername : Posts req Json.str? "username" username)
      (hpassword : Posts req Json.str? "password" password)
      (huser : said (.getUserByUsername username) (.ok (some user)))
      (hverify : Primitives.pwhashVerify user.passwordHash password = true)
      (hclock : said .epochSeconds now)
      (htoken : createSession_ cfg.jwtSecret cfg.jwtTtlSeconds now user.id user.username =
        .ok token) :
      Reported said .login (.mkObj [("id", .unsigned user.id), ("username", .str user.username),
        ("token", .str token), ("sessionToken", .str token)])
  | logout (hrevoked : ∀ token, bearerToken req = some token → said (.revoke token) ()) :
      Reported said .logout (.mkObj [("status", .str (bytes "success")),
        ("message", .str (bytes "Logged out"))])
  | createConversation {name : Bytes} {ids : List UInt64} {u c : UInt64}
      (hname : Posts req Json.str? "name" name) (hids : Posts req idsOf "participantIds" ids)
      (hu : Bears cfg req u) (hmem : u ∈ ids)
      (hsaid : said (.createConversation name ids) (.ok c)) :
      Reported said .createConversation (.mkObj [("id", .unsigned c), ("name", .str name)])
  | createMessage {part digest : Bytes} {c m now : UInt64} {f : MessageFields}
      (hpart : parseId part = some c) (hf : f.Of req.body) (hu : Bears cfg req f.senderId)
      (hsaid : said (.createMessage c f.senderId f.payload now f.recipientId
        (oneTimePreKeyIdFromPayload f.payload)) (.ok m)) :
      Reported said (.createMessage part)
        (messageJson ⟨m, f.senderId, c, f.payload, now, digest⟩)
  | deleteMessage {convPart messagePart : Bytes} {c m u : UInt64} (hconv : parseId convPart = some c)
      (hmessage : parseId messagePart = some m) (hu : Bears cfg req u)
      (hsaid : said (.deleteMessage c m u) (.ok true)) :
      Reported said (.deleteMessage convPart messagePart)
        (.mkObj [("status", .str (bytes "deleted")), ("messageId", .unsigned m)])
  | revokeMessageAccess {convPart messagePart userPart : Bytes} {c m u target now : UInt64}
      (hconv : parseId convPart = some c) (hmessage : parseId messagePart = some m)
      (htarget : parseId userPart = some target) (hu : Bears cfg req u)
      (hsaid : said (.revokeMessageAccess c m u target now) (.ok true)) :
      Reported said (.revokeMessageAccess convPart messagePart userPart)
        (.mkObj [("status", .str (bytes "revoked")), ("messageId", .unsigned m),
          ("userId", .unsigned target)])
  | health : Reported said .health (.mkObj [("status", .str (bytes "ok"))])
  | listUsers {users : List (UInt64 × Bytes)} (hsaid : said .getAllUsers (.ok users)) :
      Reported said .listUsers
        (.arr (users.map fun u => .mkObj [("id", .unsigned u.1), ("username", .str u.2)]))
  | api : Reported said .api
      (.mkObj [("name", .str (bytes "Kingdom Server")), ("version", .str cfg.version)])
  | publicKey {part key : Bytes} {u : UInt64} (hpart : parseId part = some u)
      (hsaid : said (.getUserPublicKey u) (.ok (some key))) :
      Reported said (.publicKey part)
        (.mkObj [("userId", .unsigned u), ("publicKey", .str key)])
  | listUserConversations {part : Bytes} {u : UInt64} {cs : List Conversation}
      (hpart : parseId part = some u) (hu : Bears cfg req u)
      (hsaid : said (.getConversationsByUserId u) (.ok cs)) :
      Reported said (.listUserConversations part) (.arr (cs.map conversationJson))
  | listConversationMessages {part : Bytes} {c u : UInt64} {ms : List Message}
      (hpart : parseId part = some c) (hu : Bears cfg req u)
      (hparticipant : said (.isParticipant c u) (.ok true))
      (hsaid : said (.getMessagesByConversationIdForUser c u) (.ok ms)) :
      Reported said (.listConversationMessages part) (.arr (ms.map messageJson))

end Definitions

/-- Calls that were made among more calls. -/
theorem Reported.mono [Primitives] [FloatFormat] {cfg : Config} {req : Request}
    {said said' : (o : Op) → Res o → Prop} (hle : ∀ o r, said o r → said' o r) {e : Endpoint}
    {j : Json UInt8} (h : Reported cfg req said e j) : Reported cfg req said' e j := by
  cases h with
  | signup h1 h2 h3 h4 h5 h6 h7 =>
      exact .signup h1 h2 h3 (hle _ _ h4) (hle _ _ h5) (hle _ _ h6) h7
  | login h1 h2 h3 h4 h5 h6 => exact .login h1 h2 (hle _ _ h3) h4 (hle _ _ h5) h6
  | logout h => exact .logout fun token ht => hle _ _ (h token ht)
  | createConversation h1 h2 h3 h4 h5 => exact .createConversation h1 h2 h3 h4 (hle _ _ h5)
  | createMessage h1 h2 h3 h4 => exact .createMessage h1 h2 h3 (hle _ _ h4)
  | deleteMessage h1 h2 h3 h4 => exact .deleteMessage h1 h2 h3 (hle _ _ h4)
  | revokeMessageAccess h1 h2 h3 h4 h5 => exact .revokeMessageAccess h1 h2 h3 h4 (hle _ _ h5)
  | health => exact .health
  | listUsers h => exact .listUsers (hle _ _ h)
  | api => exact .api
  | publicKey h1 h2 => exact .publicKey h1 (hle _ _ h2)
  | listUserConversations h1 h2 h3 => exact .listUserConversations h1 h2 (hle _ _ h3)
  | listConversationMessages h1 h2 h3 h4 =>
      exact .listConversationMessages h1 h2 (hle _ _ h3) (hle _ _ h4)

/-- The JSON of a response. -/
theorem Reported.wf [Primitives] [FloatFormat] {cfg : Config} {req : Request}
    {said : (o : Op) → Res o → Prop} {e : Endpoint} {j : Json UInt8}
    (h : Reported cfg req said e j) : j.WF := by
  have hobj : ∀ {fs : List (String × Json UInt8)}, (∀ p ∈ fs, p.2.WF) → (Json.mkObj fs).WF :=
    fun hfs => Json.wf_mkObj hfs
  have harr : ∀ {xs : List (Json UInt8)}, (∀ x ∈ xs, x.WF) → (Json.arr xs).WF :=
    fun hxs => Json.wfElems_iff.mpr hxs
  cases h with
  | listUsers =>
      refine harr fun x hx => ?_
      obtain ⟨u, -, rfl⟩ := List.mem_map.mp hx
      exact hobj (by simp [Json.WF])
  | listUserConversations =>
      refine harr fun x hx => ?_
      obtain ⟨c, -, rfl⟩ := List.mem_map.mp hx
      refine hobj ?_
      simp only [List.forall_mem_cons, Json.WF]
      refine ⟨trivial, trivial, Json.wfElems_iff.mpr fun y hy => ?_, trivial, List.forall_mem_nil _⟩
      obtain ⟨u, -, rfl⟩ := List.mem_map.mp hy
      trivial
  | listConversationMessages =>
      refine harr fun x hx => ?_
      obtain ⟨m, -, rfl⟩ := List.mem_map.mp hx
      exact hobj (by simp [Json.WF])
  | _ => exact hobj (by simp [Json.WF])

theorem norm_messageJson (m : Message) : (messageJson m).norm = messageJson m := by
  simp [messageJson, Json.norm_mkObj, Json.norm]

/-- A response of the server reads as what was written. -/
theorem Reported.norm [Primitives] [FloatFormat] {cfg : Config} {req : Request}
    {said : (o : Op) → Res o → Prop}
    {e : Endpoint} {j : Json UInt8} (h : Reported cfg req said e j) : j.norm = j := by
  cases h with
  | listUsers => simp [Json.norm, Json.normElems_eq_map, Json.norm_mkObj, Function.comp_def]
  | listUserConversations =>
      simp [Json.norm, Json.normElems_eq_map, Json.norm_mkObj, conversationJson, Function.comp_def]
  | listConversationMessages =>
      simp [Json.norm, Json.normElems_eq_map, norm_messageJson, Function.comp_def]
  | createMessage => exact norm_messageJson _
  | _ => simp [Json.norm_mkObj, Json.norm]

/-! ## The handlers -/

section Handlers

variable [Primitives] [FloatFormat] {cfg : Config} {tick : Clock → Clock → Prop} {req : Request}
  {past : Events}

/-- A handler whose good answers report what it has called. -/
abbrev Reports (cfg : Config) (tick : Clock → Clock → Prop) (req : Request) (past : Events)
    (p : Server Response) (e : Endpoint) : Prop :=
  Gives cfg tick (fun _ _ _ => True) past p fun past res =>
    Success res → ∃ j, Reported cfg req (Said past) e j ∧ j.dump = some res.body

/-- An answer of another status reports nothing. -/
theorem reports_failure {status : Nat} {j : Json UInt8} {e : Endpoint}
    (h : status ≠ 200 ∧ status ≠ 201) : Reports cfg tick req past (reply status j) e :=
  gives_reply fun _ _ hs => (Or.elim hs h.1 h.2).elim

theorem reports_error {status : Nat} {text : String} {e : Endpoint}
    (h : status ≠ 200 ∧ status ≠ 201) : Reports cfg tick req past (replyError status text) e :=
  reports_failure h

/-- An answer that reports. -/
theorem reports_reply {status : Nat} {j : Json UInt8} {e : Endpoint}
    (h : Reported cfg req (Said past) e j) : Reports cfg tick req past (reply status j) e :=
  gives_reply fun _ htext _ => ⟨j, h, htext⟩

omit [Primitives] in
/-- A part of a handler that does not decide what is reported. -/
theorem gives_any {α : Type} {p : Server α} :
    Gives cfg tick (fun _ _ _ => True) past p fun _ _ => True :=
  ⟨wp_mono wp_true fun _ _ _ _ _ => trivial⟩

/-- What a part of a handler gives, whatever it may call. -/
theorem gives_of_handles (req : Request) {α : Type} {p : Server α} {P : Events → α → Prop}
    (h : Handles cfg tick req past p P) : Gives cfg tick (fun _ _ _ => True) past p P :=
  ⟨wp_weaken h.wp fun _ _ _ _ => trivial⟩

/-- The user of a token. -/
theorem gives_authenticatedUserId :
    Gives cfg tick (fun _ _ _ => True) past (authenticatedUserId cfg req) fun _ r =>
      ∀ u, r = some u → Bears cfg req u := by
  unfold authenticatedUserId
  cases htoken : bearerToken req with
  | none => exact Yields.pure nofun
  | some token =>
      refine Yields.bind (P := fun _ r => ∃ now, verifiedJwtPayload now token cfg.jwtSecret = .ok r) ?_
        fun more r hr => Yields.pure fun u hu => ?_
      · refine Yields.op_bind (fun _ _ => trivial) fun s now s' _ _ => ?_
        cases hv : verifiedJwtPayload now token cfg.jwtSecret with
        | error e => exact Yields.fail
        | ok r => exact Yields.pure ⟨now, hv⟩
      · obtain ⟨now, hv⟩ := hr
        obtain ⟨payload, rfl, hpu⟩ := Option.bind_eq_some_iff.mp hu
        exact ⟨token, now, payload, htoken, hv, hpu⟩

/-- The token of a session that is opened. -/
theorem gives_createSession {userId : UInt64} {username : Bytes} :
    Gives cfg tick (fun _ _ _ => True) past (createSession cfg userId username) fun past token =>
      ∃ now, Said past .epochSeconds now ∧
        createSession_ cfg.jwtSecret cfg.jwtTtlSeconds now userId username = .ok token := by
  refine Yields.op_bind (fun _ _ => trivial) fun s now s' _ _ => ?_
  cases htoken : createSession_ cfg.jwtSecret cfg.jwtTtlSeconds now userId username with
  | ok token => exact Yields.pure ⟨now, said_last past _ _ s s', htoken⟩
  | error e => exact Yields.fail

theorem reports_signup : Reports cfg tick req past (handleSignup_ cfg req) .signup := by
  refine Yields.op_bind (fun _ _ => trivial) fun s limited s' _ _ => ?_
  split
  · exact reports_error (by decide)
  split
  · exact reports_error (by decide)
  rename_i body hbody
  split
  · exact reports_error (by decide)
  refine gives_jsonGet fun username husername => gives_jsonGet fun password hpassword =>
    gives_jsonGet fun publicKey hkey => ?_
  split
  · exact reports_error (by decide)
  split
  · exact reports_error (by decide)
  split
  · exact reports_error (by decide)
  refine Yields.tryCatch (gives_attempt (gives_perform (fun _ _ => trivial)
    fun s₁ r s₂ _ _ hash hr => ?_)) fun more e => ?_
  · subst hr
    refine gives_attempt (gives_perform (fun _ _ => trivial) fun s₃ r s₄ _ _ id hr => ?_)
    subst hr
    refine Yields.bind gives_createSession fun more token htoken => reports_reply ?_
    obtain ⟨now, hnow, htoken⟩ := htoken
    exact .signup ⟨body, hbody, husername⟩ ⟨body, hbody, hpassword⟩ ⟨body, hbody, hkey⟩
      (((said_last _ _ _ s₁ s₂).append _).append more) ((said_last _ _ _ s₃ s₄).append more) hnow
      htoken
  · cases e with
    | runtimeError what => exact reports_failure (by decide)
    | jsonError => exact Yields.fail
    | logicError => exact Yields.fail

theorem reports_login : Reports cfg tick req past (handleLogin_ cfg req) .login := by
  refine Yields.op_bind (fun _ _ => trivial) fun s limited s' _ _ => ?_
  split
  · exact reports_error (by decide)
  split
  · exact reports_error (by decide)
  rename_i body hbody
  split
  · exact reports_error (by decide)
  refine gives_jsonGet fun username husername => gives_jsonGet fun password hpassword => ?_
  split
  · exact reports_error (by decide)
  split
  · exact reports_error (by decide)
  refine gives_attempt (gives_perform (fun _ _ => trivial) fun s₁ r s₂ _ _ user hr => ?_)
  subst hr
  cases user with
  | none => exact reports_error (by decide)
  | some user =>
      dsimp only
      split
      · exact reports_error (by decide)
      rename_i hverify
      refine Yields.bind gives_createSession fun more token htoken => reports_reply ?_
      obtain ⟨now, hnow, htoken⟩ := htoken
      exact .login ⟨body, hbody, husername⟩ ⟨body, hbody, hpassword⟩
        ((said_last _ _ _ s₁ s₂).append more) (by simpa using hverify) hnow htoken

theorem reports_logout : Reports cfg tick req past (handleLogout_ req) .logout := by
  unfold handleLogout_
  cases hbearer : bearerToken req with
  | none => exact reports_reply (.logout fun _ ht => by cases hbearer.symm.trans ht)
  | some token =>
      refine Yields.op_bind (fun _ _ => trivial) fun s r s' _ _ => reports_reply (.logout ?_)
      intro token' ht
      cases hbearer.symm.trans ht
      exact said_last past (.revoke token) () s s'

theorem reports_createConversation :
    Reports cfg tick req past (handleCreateConversation_ cfg req) .createConversation := by
  refine Yields.bind gives_authenticatedUserId fun more r hr => ?_
  cases r with
  | none => exact reports_error (by decide)
  | some u =>
      dsimp only
      split
      · exact reports_error (by decide)
      rename_i body hbody
      split
      · exact reports_error (by decide)
      refine gives_jsonGet fun name hname => ?_
      split
      · exact reports_error (by decide)
      refine gives_jsonGet fun entries hentries => gives_jsonGet fun ids hids => ?_
      split
      · exact reports_error (by decide)
      split
      · exact reports_error (by decide)
      split
      · exact reports_error (by decide)
      rename_i hmem
      refine gives_attempt (gives_perform (fun _ _ => trivial) fun _ _ _ _ _ exist _ => ?_)
      split
      · exact reports_error (by decide)
      refine gives_attempt (gives_perform (fun _ _ => trivial) fun s r s' _ _ c hr' => ?_)
      subst hr'
      refine reports_reply (.createConversation ⟨body, hbody, hname⟩ ⟨body, hbody, ?_⟩ (hr u rfl)
        (by simpa using hmem) (said_last _ _ _ s s'))
      rw [idsOf, hentries, Option.bind_some, hids]

theorem reports_createMessage (convPart : Bytes) :
    Reports cfg tick req past (handleCreateMessage_ cfg req convPart) (.createMessage convPart) := by
  unfold handleCreateMessage_
  split
  · exact reports_error (by decide)
  rename_i c hc
  split
  · exact reports_error (by decide)
  rename_i body hbody
  split
  · exact reports_error (by decide)
  refine gives_jsonGet fun senderId hsender => gives_jsonGet fun text htext => ?_
  refine Yields.bind (gives_of_handles req (handles_recipientOf body)) fun more recipient hrec => ?_
  split
  · exact reports_error (by decide)
  refine Yields.bind gives_authenticatedUserId fun more₁ r hr => ?_
  cases r with
  | none => exact reports_error (by decide)
  | some u =>
      dsimp only
      split
      · exact reports_error (by decide)
      rename_i hsame
      obtain rfl : u = senderId := by simpa using hsame
      refine gives_attempt (gives_perform (fun _ _ => trivial) fun _ _ _ _ _ participant _ => ?_)
      split
      · exact reports_error (by decide)
      refine Yields.bind gives_any fun more₂ b _ => ?_
      split
      · exact reports_error (by decide)
      refine Yields.op_bind (fun _ _ => trivial) fun s₁ now s₂ _ _ => ?_
      refine Yields.op_bind (fun _ _ => trivial) fun s r' s' _ _ => ?_
      cases r' with
      | error e =>
          cases e with
          | runtimeError what => exact reports_failure (by decide)
          | jsonError => exact Yields.fail
          | logicError => exact Yields.fail
      | ok m =>
          refine Yields.bind gives_any fun more₃ digest _ => reports_reply ?_
          exact .createMessage (f := ⟨u, text, recipient⟩) hc
            ⟨body, hbody, hsender, htext, hrec.2⟩ (hr u rfl) ((said_last _ _ _ s s').append more₃)

theorem reports_deleteMessage (convPart messagePart : Bytes) :
    Reports cfg tick req past (handleDeleteMessage_ cfg req convPart messagePart)
      (.deleteMessage convPart messagePart) := by
  refine Yields.bind gives_authenticatedUserId fun more r hr => ?_
  cases r with
  | none => exact reports_error (by decide)
  | some u =>
      dsimp only
      split
      · rename_i c m hc hm
        refine gives_attempt (gives_perform (fun _ _ => trivial) fun _ _ _ _ _ participant _ => ?_)
        split
        · exact reports_error (by decide)
        refine gives_attempt (gives_perform (fun _ _ => trivial) fun s r' s' _ _ deleted hr' => ?_)
        subst hr'
        split
        · exact reports_error (by decide)
        rename_i hdeleted
        obtain rfl : deleted = true := by simpa using hdeleted
        exact reports_reply (.deleteMessage hc hm (hr u rfl) (said_last _ _ _ s s'))
      · exact reports_error (by decide)

theorem reports_revokeMessageAccess (convPart messagePart userPart : Bytes) :
    Reports cfg tick req past (handleRevokeMessageAccess_ cfg req convPart messagePart userPart)
      (.revokeMessageAccess convPart messagePart userPart) := by
  refine Yields.bind gives_authenticatedUserId fun more r hr => ?_
  cases r with
  | none => exact reports_error (by decide)
  | some u =>
      dsimp only
      split
      · rename_i c m target hc hm htarget
        refine gives_attempt (gives_perform (fun _ _ => trivial) fun _ _ _ _ _ participant _ => ?_)
        split
        · exact reports_error (by decide)
        refine gives_attempt (gives_perform (fun _ _ => trivial) fun _ _ _ _ _ reader _ => ?_)
        split
        · exact reports_error (by decide)
        refine gives_attempt (gives_perform (fun _ _ => trivial) fun _ _ _ _ _ own _ => ?_)
        split
        · exact reports_error (by decide)
        refine Yields.op_bind (fun _ _ => trivial) fun _ now _ _ _ => ?_
        refine gives_attempt (gives_perform (fun _ _ => trivial) fun s r' s' _ _ revoked hr' => ?_)
        subst hr'
        split
        · exact reports_error (by decide)
        rename_i hrevoked
        obtain rfl : revoked = true := by simpa using hrevoked
        exact reports_reply (.revokeMessageAccess hc hm htarget (hr u rfl) (said_last _ _ _ s s'))
      · exact reports_error (by decide)

theorem reports_listUsers : Reports cfg tick req past handleListUsers .listUsers := by
  refine gives_attempt (gives_perform (fun _ _ => trivial) fun s r s' _ _ users hr => ?_)
  subst hr
  exact reports_reply (.listUsers (said_last _ _ _ s s'))

theorem reports_publicKey (idPart : Bytes) :
    Reports cfg tick req past (handlePublicKey idPart) (.publicKey idPart) := by
  unfold handlePublicKey
  split
  · exact reports_error (by decide)
  rename_i u hu
  refine gives_attempt (gives_perform (fun _ _ => trivial) fun s r s' _ _ found hr => ?_)
  subst hr
  cases found with
  | none => exact reports_error (by decide)
  | some key => exact reports_reply (.publicKey hu (said_last _ _ _ s s'))

theorem reports_listUserConversations (idPart : Bytes) :
    Reports cfg tick req past (handleListUserConversations_ cfg req idPart)
      (.listUserConversations idPart) := by
  refine Yields.bind gives_authenticatedUserId fun more r hr => ?_
  cases r with
  | none => exact reports_error (by decide)
  | some u =>
      dsimp only
      split
      · exact reports_error (by decide)
      rename_i userId hid
      split
      · exact reports_error (by decide)
      rename_i hsame
      obtain rfl : u = userId := by simpa using hsame
      refine gives_attempt (gives_perform (fun _ _ => trivial) fun s r' s' _ _ convs hr' => ?_)
      subst hr'
      exact reports_reply (.listUserConversations hid (hr u rfl) (said_last _ _ _ s s'))

theorem reports_listConversationMessages (convPart : Bytes) :
    Reports cfg tick req past (handleListConversationMessages_ cfg req convPart)
      (.listConversationMessages convPart) := by
  refine Yields.bind gives_authenticatedUserId fun more r hr => ?_
  cases r with
  | none => exact reports_error (by decide)
  | some u =>
      dsimp only
      split
      · exact reports_error (by decide)
      rename_i c hc
      refine gives_attempt (gives_perform (fun _ _ => trivial) fun s₁ r₁ s₂ _ _ participant hr₁ => ?_)
      subst hr₁
      split
      · exact reports_error (by decide)
      rename_i hparticipant
      obtain rfl : participant = true := by simpa using hparticipant
      refine gives_attempt (gives_perform (fun _ _ => trivial) fun s r' s' _ _ msgs hr' => ?_)
      subst hr'
      exact reports_reply (.listConversationMessages hc (hr u rfl)
        ((said_last _ _ _ s₁ s₂).append _) (said_last _ _ _ s s'))

/-- Every handler reports what it has called. -/
theorem reports_handle (e : Endpoint) : Reports cfg tick req past (handle cfg req e) e := by
  cases e with
  | signup => exact reports_signup
  | login => exact reports_login
  | logout => exact reports_logout
  | createConversation => exact reports_createConversation
  | createMessage conv => exact reports_createMessage conv
  | deleteMessage conv msg => exact reports_deleteMessage conv msg
  | revokeMessageAccess conv msg user => exact reports_revokeMessageAccess conv msg user
  | health => exact reports_reply .health
  | listUsers => exact reports_listUsers
  | api => exact reports_reply .api
  | publicKey id => exact reports_publicKey id
  | listUserConversations id => exact reports_listUserConversations id
  | listConversationMessages conv => exact reports_listConversationMessages conv

end Handlers

/-! ## The server -/

section Runs

variable [Primitives] [FloatFormat] {cfg : Config} {tick : Clock → Clock → Prop} {req : Request}

/-- A good answer of the server, with the calls behind it. -/
def Reporting (cfg : Config) (req : Request) (past : Events) (res : Response) : Prop :=
  Success res → ∃ e, endpointOf req.method req.path = some e ∧
    ∃ j, Reported cfg req (Said past) e j ∧ j.dump = some res.body

theorem reporting_of_error {past : Events} {res : Response} (h : 400 ≤ res.status) :
    Reporting cfg req past res := by
  intro hs
  rcases hs with hs | hs <;> omega

theorem gives_serve (seen : Bytes) : Gives cfg tick (fun _ _ _ => True) [] (serve cfg req seen)
    (Reporting cfg req) := by
  refine Yields.bind (gives_of_handles req (handles_filterChain quiet_nil seen)) fun more r hr => ?_
  cases r with
  | some e => exact gives_reply fun _ _ => reporting_of_error hr.2
  | none =>
      dsimp only
      unfold route
      split
      · rename_i e he
        exact (reports_handle e).mono fun _ res hres hs => ⟨e, he, hres hs⟩
      · exact Yields.pure (reporting_of_error (by decide))

theorem gives_respond (seen : Bytes) : Gives cfg tick (fun _ _ _ => True) []
    (respond cfg req seen) (Reporting cfg req) := by
  refine Yields.bind (Yields.tryCatch (gives_serve seen) fun _ _ =>
    Yields.pure (reporting_of_error (by decide))) fun more res hres => ?_
  split
  · exact Yields.tryCatch (gives_reply fun _ _ => reporting_of_error (show 400 ≤ 404 by decide))
      fun _ _ => Yields.pure (reporting_of_error (by decide))
  · exact Yields.pure hres

/-- What holds when a task has ended: its answer reports. -/
def ReportingTask (cfg : Config) : Task → Events → Except Exn (Option Response) → Prop
  | .request req _, past, x => ∀ res, x = .ok (some res) → Reporting cfg req past res
  | .resolver, _, _ => True

theorem reportingTask_ok (t : Task) :
    wp (serverMachine cfg tick) storeShared (fun _ _ _ => True) [] (serverProgram cfg t)
      (ReportingTask cfg t) := by
  cases t with
  | resolver => exact wp_mono wp_true fun _ _ _ => trivial
  | request req seen =>
      have h : Gives cfg tick (fun _ _ _ => True) [] (serverProgram cfg (.request req seen))
          fun past x => ∀ res, x = some res → Reporting cfg req past res :=
        Yields.bind (gives_respond seen) fun more res hres => Yields.pure (by
          rintro res' ⟨⟩
          exact hres)
      exact wp_mono h.wp fun more x hx res hres => hx (some res) hres res rfl

/-- **Every request that a run has answered well** has made the call of its endpoint, and the
response says what that call returned. -/
theorem reported_of_done {clock : Clock} {tr : ServerTrace} {w : ServerSystem}
    (h : ServerRun cfg tick ⟨.initial clock, []⟩ tr w) {req : Request} {seen : Bytes}
    {past : Events} {res : Response}
    (hth : (⟨.request req seen, past, .pure (some res)⟩ : ServerThread) ∈ w.threads) :
    Reporting cfg req past res := by
  let C := (serverContract cfg tick).also (ReportingTask cfg) reportingTask_ok
  have hinit : C.inv (.initial clock) := storeInv_empty
  exact (Contract.post_of_done (Contract.sound_run (Contract.sound_init hinit) h) hth rfl).2.2 res rfl

end Runs

end Kds
