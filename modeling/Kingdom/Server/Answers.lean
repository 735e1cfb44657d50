import Kingdom.Server.BundleReads
import Kingdom.Server.Outcomes

/-!
# Which requests are answered

The handlers check that the fields of a body are there and then convert them; a
conversion that does not apply throws through the handler, and the library answers 500.

* `Proper` — a response with a status of the 200s or the 400s, and no exception.
* `Admits`, `ReadsToken` — what the security filter chain lets through, and when it
  verifies the token of a request.
* `FieldsRead` — the conversions of a handler that it comes to apply.
* `proper_iff` — a request is answered exactly when they do.
-/

namespace Kds

open Codec Process

/-- A status of the 200s or the 400s. -/
def ProperStatus (status : Nat) : Prop :=
  (200 ≤ status ∧ status < 300) ∨ (400 ≤ status ∧ status < 500)

instance (status : Nat) : Decidable (ProperStatus status) := inferInstanceAs (Decidable (_ ∨ _))

/-- A response with such a status, and no exception. -/
def Proper (x : Except Exn Response) : Prop := ∃ res, x = .ok res ∧ ProperStatus res.status

/-! ## What a request must look like -/

/-- The field is a string. -/
def IsText (body : Json UInt8) (key : String) : Prop := (field body key).str?.isSome = true

/-- The field is a number. -/
def IsId [FloatFormat] (body : Json UInt8) (key : String) : Prop :=
  (field body key).uint64?.isSome = true

/-- The recipient the body names: none, or a number. -/
def RecipientIs [FloatFormat] (body : Json UInt8) (recipient : Option UInt64) : Prop :=
  ((field body "recipientId").isNull = true ∧ recipient = none) ∨
    ((field body "recipientId").isNull = false ∧
      ∃ r, (field body "recipientId").uint64? = some r ∧ recipient = some r)

/-- The body the filter chain sees names a sender. -/
def NamesSender [FloatFormat] (seen : Bytes) : Prop :=
  ∃ body, (Json.parse seen : Option (Json UInt8)) = some body ∧
    body.contains (bytes "senderId") = true

section Conditions

variable [Primitives] [FloatFormat] (cfg : Config) (s : ServerState) (req : Request)

/-- A token is verified without an exception, if there is one. -/
def TokenReads : Prop :=
  ∀ token, bearerToken req = some token →
    ∃ payload, verifiedJwtPayload (epochSeconds s.clock) token cfg.jwtSecret = .ok payload

/-- The filter chain verifies the token of the request. -/
def ReadsToken (seen : Bytes) : Prop :=
  NamesSender seen ∨ (validateUntampered req = none ∧ isPublicPath req.path = false)

/-- The body the filter chain sees names no other sender than the user of the token. -/
def SenderAuthentic (seen : Bytes) : Prop :=
  ∀ body token payload user sender, (Json.parse seen : Option (Json UInt8)) = some body →
    body.contains (bytes "senderId") = true → bearerToken req = some token →
    verifiedJwtPayload (epochSeconds s.clock) token cfg.jwtSecret = .ok (some payload) →
    payloadUserId payload = some user → (field body "senderId").uint64? = some sender →
    user = sender

/-- The request carries a token that verifies and is not revoked. -/
def TokenAccepted : Prop :=
  ∃ token payload, bearerToken req = some token ∧
    verifiedJwtPayload (epochSeconds s.clock) token cfg.jwtSecret = .ok (some payload) ∧
    TokenBlacklist.contains token
      (TokenBlacklist.pruneExpired_ (epochSeconds s.clock) s.tokens) = false

/-- The filter chain lets the request through. -/
def Admits (seen : Bytes) : Prop :=
  SenderAuthentic cfg s req seen ∧ validateUntampered req = none ∧
    (isPublicPath req.path = true ∨ TokenAccepted cfg s req)

/-- The limiter refuses the request. -/
def Limited : Prop :=
  (isRateLimited_ cfg.rateLimitMaxRequests s.steadyClock req.remoteAddr s.rateLimitMap).1 = true

/-- The body is a text with these fields. -/
def BodyHas (keys : List String) (body : Json UInt8) : Prop :=
  (Json.parse req.body : Option (Json UInt8)) = some body ∧
    ∀ key ∈ keys, body.contains (bytes key) = true

/-- The conversions `handleSignup_` comes to apply. -/
def SignupReads : Prop :=
  ¬ Limited cfg s req → ∀ body, BodyHas req ["username", "password", "publicKey"] body →
    IsText body "username" ∧ IsText body "password" ∧ IsText body "publicKey"

/-- The conversions `handleLogin_` comes to apply. -/
def LoginReads : Prop :=
  ¬ Limited cfg s req → ∀ body, BodyHas req ["username", "password"] body →
    IsText body "username" ∧ IsText body "password"

/-- The user of the request. -/
def UserIs (user : UInt64) : Prop :=
  authenticatedUserId_ cfg.jwtSecret (epochSeconds s.clock) req = .ok (some user)

/-- The conversions `handleCreateConversation_` comes to apply: the participants only
after a name of a good length. -/
def CreateConversationReads : Prop :=
  ∀ user body, UserIs cfg s req user → BodyHas req ["name", "participantIds"] body →
    ∃ name, (field body "name").str? = some name ∧ (name ≠ [] → name.length ≤ 128 →
      ∃ entries, (field body "participantIds").arr? = some entries ∧
        (entries.mapM Json.uint64?).isSome = true)

/-- The message that `handleCreateMessage_` is asked to create, up to the checks of the
sender and the participants. -/
structure AsksFor (convPart : Bytes) (conv sender : UInt64) (payload : Bytes)
    (recipient : Option UInt64) : Prop where
  convId : parseId convPart = some conv
  fields : ∃ body, BodyHas req ["senderId", "payload"] body ∧
    (field body "senderId").uint64? = some sender ∧ (field body "payload").str? = some payload ∧
    RecipientIs body recipient
  length : payload ≠ [] ∧ payload.length ≤ 65536
  user : UserIs cfg s req sender
  participant : Database.isParticipant s.store conv sender = true
  recipients : ∀ r, recipient = some r → Database.isParticipant s.store conv r = true

/-- The conversions `handleCreateMessage_` comes to apply, those of `createMessage`
included. -/
def CreateMessageReads (convPart : Bytes) : Prop :=
  (∀ conv body, parseId convPart = some conv → BodyHas req ["senderId", "payload"] body →
    IsId body "senderId" ∧ IsText body "payload" ∧ ∃ recipient, RecipientIs body recipient) ∧
  ∀ conv sender payload recipient user preKey text,
    AsksFor cfg s req convPart conv sender payload recipient →
    NeedsPreKey sender payload recipient user preKey →
    Database.getUserPublicKey s.store user = some text → IdsRead text

/-- The conversions the handler of a request comes to apply. -/
def FieldsRead : Endpoint → Prop
  | .signup => SignupReads cfg s req
  | .login => LoginReads cfg s req
  | .createConversation => CreateConversationReads cfg s req
  | .createMessage conv => CreateMessageReads cfg s req conv
  | _ => True

end Conditions

/-! ## The handlers -/

section Handlers

variable {answer : (o : Op) → ServerState → Res o × ServerState} {s : ServerState}

theorem proper_reply {body : Json UInt8} (h : body.Printable) {status : Nat}
    (hs : ProperStatus status) : Proper ((reply status body).eval answer s).1 := by
  have hreply : ∃ text, (reply status body).eval answer s = (.ok ⟨status, text⟩, s) :=
    eval_reply h status
  obtain ⟨text, htext⟩ := hreply
  rw [htext]
  exact ⟨_, rfl, hs⟩

theorem proper_replyError {text : String} {status : Nat} (hs : ProperStatus status) :
    Proper ((replyError status text).eval answer s).1 :=
  proper_reply (printable_error (validUtf8_bytes text)) hs

theorem not_proper_error (e : Exn) : ¬ Proper (.error e) := by
  rintro ⟨res, hres, -⟩
  cases hres

/-- A conversion and what follows it. -/
theorem proper_jsonGet_iff {α : Type} {x : Option α} {f : α → Server Response} :
    Proper ((jsonGet x >>= f).eval answer s).1 ↔ ∃ a, x = some a ∧ Proper ((f a).eval answer s).1 := by
  rw [eval_jsonGet_bind]
  cases x with
  | none =>
      refine iff_of_false (not_proper_error _) ?_
      rintro ⟨a, ha, -⟩
      cases ha
  | some a => simp

/-- The text a field of a parsed body holds is valid UTF-8. -/
theorem validUtf8_field_text [FloatFormat] {t : Bytes} {body : Json UInt8} {key : String}
    {text : Bytes} (hbody : (Json.parse t : Option (Json UInt8)) = some body)
    (htext : (field body key).str? = some text) : validUtf8 text = true := by
  unfold field at htext
  cases hget : body.get? (bytes key) with
  | none =>
      rw [hget] at htext
      cases htext
  | some j =>
      rw [hget, Option.getD_some] at htext
      have hprintable := Json.printable_get? (Json.printable_of_parse hbody) hget
      cases j with
      | str t =>
          cases htext
          exact hprintable
      | _ => cases htext

end Handlers

section Fields

variable [FloatFormat] {req : Request}

theorem not_bodyHas_of_none {keys : List String} {body : Json UInt8}
    (h : (Json.parse req.body : Option (Json UInt8)) = none) : ¬ BodyHas req keys body := by
  rintro ⟨hparse, -⟩
  rw [h] at hparse
  cases hparse

/-- The body a request has, if it has all the fields. -/
theorem bodyHas_iff {keys : List String} {body body' : Json UInt8}
    (h : (Json.parse req.body : Option (Json UInt8)) = some body) :
    BodyHas req keys body' ↔ body' = body ∧ ∀ key ∈ keys, body.contains (bytes key) = true := by
  unfold BodyHas
  rw [h, Option.some.injEq, eq_comm]
  constructor
  · rintro ⟨rfl, hkeys⟩
    exact ⟨rfl, hkeys⟩
  · rintro ⟨rfl, hkeys⟩
    exact ⟨rfl, hkeys⟩

end Fields

/-! ## Accounts -/

section Accounts

variable [Primitives] [FloatFormat] {cfg : Config} {s : ServerState} {req : Request}

/-- The outcomes when the database and the signature do not fail. -/
def Outcomes.reliable (hash : Bytes → Option Bytes)
    (sidecar : Bytes → Bytes → Option (Nat × Bytes)) : Outcomes :=
  ⟨hash, .done, .done, true, sidecar⟩

omit [Primitives] [FloatFormat] in
/-- Creating a user throws one of two texts. -/
theorem createUser_error {st : Store} {username hash publicKey : Bytes} {e : Exn}
    (h : Database.createUser st username hash publicKey = .error e) :
    e = constraintViolation ∨ e = .runtimeError (bytes "Username already taken") := by
  unfold Database.createUser at h
  by_cases hseq : st.userSeq + 1 < 2 ^ 63
  · rw [nextval, if_pos hseq] at h
    by_cases htaken : st.users.any (·.username = username) = true
    · simp only [htaken, if_true, bind, Except.bind] at h
      exact Or.inr (Except.error.inj h).symm
    · simp [htaken, bind, Except.bind, pure, Except.pure] at h
  · rw [nextval, if_neg hseq] at h
    exact Or.inl (Except.error.inj h).symm

/-- The `try` block answers a runtime error whose text is valid UTF-8. -/
theorem proper_signupUser {username password publicKey : Bytes} (husername : validUtf8 username = true)
    (hkey : validUtf8 publicKey = true) (hash : Bytes → Option Bytes)
    (sidecar : Bytes → Bytes → Option (Nat × Bytes)) :
    Proper ((signupUser (createSession cfg) username password publicKey).eval
      (answerAs cfg (.reliable hash sidecar)) s).1 := by
  have herror : ∀ what, validUtf8 what = true →
      Proper ((reply 409 (.mkObj [("error", .str what)])).eval
        (answerAs cfg (.reliable hash sidecar)) s).1 :=
    fun what hwhat => proper_reply (printable_error hwhat) (by decide)
  have hhashed : (perform (.hashPassword password)).eval (answerAs cfg (.reliable hash sidecar)) s =
      (.ok ((hash password).elim (.error (.runtimeError (bytes "Failed to hash password"))) .ok),
        s) := rfl
  unfold signupUser
  rw [Prog.eval_tryCatch, eval_attempt_bind, hhashed]
  cases hash password with
  | none => exact herror _ (validUtf8_bytes _)
  | some passwordHash =>
      have hcreated : (perform (.createUser username passwordHash publicKey)).eval
          (answerAs cfg (.reliable hash sidecar)) s =
          (.ok (commit (Database.createUser s.store username passwordHash publicKey) s).1,
            (commit (Database.createUser s.store username passwordHash publicKey) s).2) := rfl
      dsimp only [Option.elim_some]
      rw [eval_attempt_bind, hcreated]
      cases hcreate : Database.createUser s.store username passwordHash publicKey with
      | error e =>
          rcases createUser_error hcreate with rfl | rfl
          · exact herror _ (validUtf8_bytes _)
          · exact herror _ (validUtf8_bytes _)
      | ok created =>
          obtain ⟨userId, st⟩ := created
          obtain ⟨token, htoken, heval⟩ : ∃ token, validUtf8 token = true ∧
              (createSession cfg userId username).eval (answerAs cfg (.reliable hash sidecar))
                { s with store := st } = (.ok token, { s with store := st }) :=
            eval_createSession cfg rfl husername userId
          have hbody : (Json.mkObj [("id", .unsigned userId), ("username", .str username),
              ("publicKey", .str publicKey), ("token", .str token),
              ("sessionToken", .str token)] : Json UInt8).Printable :=
            Json.printable_mkObj (by simp [Json.Printable, husername, hkey, htoken])
          obtain ⟨text, htext⟩ := @eval_reply (answerAs cfg (.reliable hash sidecar))
            { s with store := st } _ hbody 201
          dsimp only [commit]
          rw [Prog.eval_bind, heval]
          dsimp only
          rw [htext]
          exact ⟨_, rfl, (by decide : ProperStatus 201)⟩

/-- **Signup.** -/
theorem proper_signup_iff (hash : Bytes → Option Bytes)
    (sidecar : Bytes → Bytes → Option (Nat × Bytes)) :
    Proper ((handleSignup_ cfg req).eval (answerAs cfg (.reliable hash sidecar)) s).1 ↔
      SignupReads cfg s req := by
  unfold handleSignup_ handleSignupWith
  rw [eval_perform_bind]
  by_cases hlimited : Limited cfg s req
  · have hanswer : (answerAs cfg (.reliable hash sidecar) (.isRateLimited req.remoteAddr) s).1 =
        true := hlimited
    rw [if_pos hanswer]
    exact iff_of_true (proper_replyError (by decide)) fun h => absurd hlimited h
  · have hanswer : ¬ (answerAs cfg (.reliable hash sidecar) (.isRateLimited req.remoteAddr) s).1 =
        true := hlimited
    rw [if_neg hanswer]
    cases hparse : (Json.parse req.body : Option (Json UInt8)) with
    | none =>
        exact iff_of_true (proper_replyError (by decide))
          fun _ _ hbody => absurd hbody (not_bodyHas_of_none hparse)
    | some body =>
        dsimp only
        split
        · rename_i hmissing
          refine iff_of_true (proper_replyError (by decide)) fun _ body' hbody => ?_
          obtain ⟨-, hkeys⟩ := (bodyHas_iff hparse).mp hbody
          simp [hkeys] at hmissing
        · rename_i hthere
          have hbody : BodyHas req ["username", "password", "publicKey"] body :=
            (bodyHas_iff hparse).mpr ⟨rfl, by simpa [and_assoc] using hthere⟩
          simp only [proper_jsonGet_iff]
          constructor
          · rintro ⟨username, husername, password, hpassword, publicKey, hkey, -⟩ - body' hbody'
            obtain ⟨rfl, -⟩ := (bodyHas_iff hparse).mp hbody'
            simp [IsText, husername, hpassword, hkey]
          · intro h
            obtain ⟨husername, hpassword, hkey⟩ := h hlimited body hbody
            obtain ⟨username, husername⟩ := Option.isSome_iff_exists.mp husername
            obtain ⟨password, hpassword⟩ := Option.isSome_iff_exists.mp hpassword
            obtain ⟨publicKey, hkey⟩ := Option.isSome_iff_exists.mp hkey
            refine ⟨username, husername, password, hpassword, publicKey, hkey, ?_⟩
            split
            · exact proper_replyError (by decide)
            split
            · exact proper_replyError (by decide)
            split
            · exact proper_replyError (by decide)
            exact proper_signupUser (validUtf8_field_text hparse husername)
              (validUtf8_field_text hparse hkey) hash sidecar

omit [Primitives] [FloatFormat] in
/-- A user found by name has that name. -/
theorem username_of_found {st : Store} {username : Bytes} {user : User}
    (h : Database.getUserByUsername st username = some user) : user.username = username := by
  obtain ⟨row, hrow, rfl⟩ := Option.map_eq_some_iff.mp h
  simpa using List.find?_some hrow

/-- **Login.** -/
theorem proper_login_iff (hash : Bytes → Option Bytes)
    (sidecar : Bytes → Bytes → Option (Nat × Bytes)) :
    Proper ((handleLogin_ cfg req).eval (answerAs cfg (.reliable hash sidecar)) s).1 ↔
      LoginReads cfg s req := by
  unfold handleLogin_
  rw [eval_perform_bind]
  by_cases hlimited : Limited cfg s req
  · have hanswer : (answerAs cfg (.reliable hash sidecar) (.isRateLimited req.remoteAddr) s).1 =
        true := hlimited
    rw [if_pos hanswer]
    exact iff_of_true (proper_replyError (by decide)) fun h => absurd hlimited h
  · have hanswer : ¬ (answerAs cfg (.reliable hash sidecar) (.isRateLimited req.remoteAddr) s).1 =
        true := hlimited
    rw [if_neg hanswer]
    generalize (answerAs cfg (.reliable hash sidecar) (.isRateLimited req.remoteAddr) s).2 = s₁
    cases hparse : (Json.parse req.body : Option (Json UInt8)) with
    | none =>
        exact iff_of_true (proper_replyError (by decide))
          fun _ _ hbody => absurd hbody (not_bodyHas_of_none hparse)
    | some body =>
        dsimp only
        split
        · rename_i hmissing
          refine iff_of_true (proper_replyError (by decide)) fun _ body' hbody => ?_
          obtain ⟨-, hkeys⟩ := (bodyHas_iff hparse).mp hbody
          simp [hkeys] at hmissing
        · rename_i hthere
          have hbody : BodyHas req ["username", "password"] body :=
            (bodyHas_iff hparse).mpr ⟨rfl, by simpa using hthere⟩
          simp only [proper_jsonGet_iff]
          constructor
          · rintro ⟨username, husername, password, hpassword, -⟩ - body' hbody'
            obtain ⟨rfl, -⟩ := (bodyHas_iff hparse).mp hbody'
            simp [IsText, husername, hpassword]
          · intro h
            obtain ⟨husername, hpassword⟩ := h hlimited body hbody
            obtain ⟨username, husername⟩ := Option.isSome_iff_exists.mp husername
            obtain ⟨password, hpassword⟩ := Option.isSome_iff_exists.mp hpassword
            refine ⟨username, husername, password, hpassword, ?_⟩
            split
            · exact proper_replyError (by decide)
            split
            · exact proper_replyError (by decide)
            have hfound : (perform (.getUserByUsername username)).eval
                (answerAs cfg (.reliable hash sidecar)) s₁ =
                (.ok (.ok (Database.getUserByUsername s₁.store username)), s₁) := rfl
            rw [eval_attempt_bind, hfound]
            cases hget : Database.getUserByUsername s₁.store username with
            | none => exact proper_replyError (by decide)
            | some user =>
                dsimp only
                split
                · exact proper_replyError (by decide)
                have hname : validUtf8 user.username = true := by
                  rw [username_of_found hget]
                  exact validUtf8_field_text hparse husername
                obtain ⟨token, htoken, heval⟩ : ∃ token, validUtf8 token = true ∧
                    (createSession cfg user.id user.username).eval
                      (answerAs cfg (.reliable hash sidecar)) s₁ = (.ok token, s₁) :=
                  eval_createSession cfg rfl hname user.id
                rw [Prog.eval_bind, heval]
                exact proper_reply
                  (Json.printable_mkObj (by simp [Json.Printable, hname, htoken])) (by decide)

end Accounts

/-! ## Conversations -/

section Conversations

variable [Primitives] [FloatFormat] {cfg : Config} {s : ServerState} {req : Request}
  {hash : Bytes → Option Bytes} {sidecar : Bytes → Bytes → Option (Nat × Bytes)}

/-- The handlers read the user of the request from its token. -/
theorem eval_authenticatedUserId (out : Outcomes) :
    (authenticatedUserId cfg req).eval (answerAs cfg out) s =
      (authenticatedUserId_ cfg.jwtSecret (epochSeconds s.clock) req, s) := by
  unfold authenticatedUserId authenticatedUserId_
  cases bearerToken req with
  | none => rfl
  | some token =>
      have hclock : answerAs cfg out .epochSeconds s = (epochSeconds s.clock, s) := rfl
      dsimp only
      rw [Prog.eval_bind, verifyToken, eval_perform_bind, Prog.eval_ofExcept, hclock]
      dsimp only
      cases verifiedJwtPayload (epochSeconds s.clock) token cfg.jwtSecret <;> rfl

/-- A token that verifies without an exception gives a user or none. -/
theorem exists_user (h : TokenReads cfg s req) :
    ∃ user, authenticatedUserId_ cfg.jwtSecret (epochSeconds s.clock) req = .ok user := by
  unfold authenticatedUserId_
  cases hbearer : bearerToken req with
  | none => exact ⟨none, rfl⟩
  | some token =>
      obtain ⟨payload, hpayload⟩ := h token hbearer
      dsimp only
      rw [hpayload]
      exact ⟨_, rfl⟩

omit [Primitives] [FloatFormat] in
/-- A conversation of existing users is created while the sequence lasts. -/
theorem exists_createConversation {st : Store} (now : Int64) (name : Bytes) {ids : List UInt64}
    (hroom : st.conversationSeq + 1 < 2 ^ 63) (hnodup : ids.Nodup)
    (hexist : Database.usersExist st ids = true) :
    ∃ id st', Database.createConversation st now name ids = .ok (id, st') := by
  unfold Database.createConversation
  have hrows : (ids.map fun u => (⟨Int64.ofNat (st.conversationSeq + 1), bigint u⟩ :
      ParticipantRow)).Nodup := by
    apply hnodup.map
    intro a b hab
    exact bigint_inj.mp (ParticipantRow.mk.inj hab).2
  rw [nextval, if_pos hroom]
  simp only [bind, Except.bind, checkReference, hrows, hexist, decide_true, if_true]
  exact ⟨_, _, rfl⟩

/-- **Creating a conversation.** -/
theorem proper_createConversation_iff (hroom : s.store.conversationSeq + 1 < 2 ^ 63)
    (htoken : TokenReads cfg s req) :
    Proper ((handleCreateConversation_ cfg req).eval (answerAs cfg (.reliable hash sidecar)) s).1 ↔
      CreateConversationReads cfg s req := by
  obtain ⟨user, huser⟩ := exists_user htoken
  unfold handleCreateConversation_
  rw [Prog.eval_bind, eval_authenticatedUserId, huser]
  cases user with
  | none =>
      refine iff_of_true (proper_replyError (by decide)) fun user body hbody => ?_
      rw [UserIs, huser] at hbody
      cases hbody
  | some user =>
      cases hparse : (Json.parse req.body : Option (Json UInt8)) with
      | none =>
          exact iff_of_true (proper_replyError (by decide))
            fun _ _ _ hbody => absurd hbody (not_bodyHas_of_none hparse)
      | some body =>
          dsimp only
          split
          · rename_i hmissing
            refine iff_of_true (proper_replyError (by decide)) fun _ body' _ hbody => ?_
            obtain ⟨-, hkeys⟩ := (bodyHas_iff hparse).mp hbody
            simp [hkeys] at hmissing
          · rename_i hthere
            have hbody : BodyHas req ["name", "participantIds"] body :=
              (bodyHas_iff hparse).mpr ⟨rfl, by simpa using hthere⟩
            rw [proper_jsonGet_iff]
            constructor
            · rintro ⟨name, hname, hrest⟩ user' body' - hbody'
              obtain ⟨rfl, -⟩ := (bodyHas_iff hparse).mp hbody'
              refine ⟨name, hname, fun hne hlength => ?_⟩
              rw [if_neg (by simp [hne, hlength])] at hrest
              obtain ⟨entries, hentries, hrest⟩ := proper_jsonGet_iff.mp hrest
              obtain ⟨ids, hids, -⟩ := proper_jsonGet_iff.mp hrest
              exact ⟨entries, hentries, by simp [hids]⟩
            · intro h
              obtain ⟨name, hname, hids⟩ := h user body huser hbody
              refine ⟨name, hname, ?_⟩
              split
              · exact proper_replyError (by decide)
              rename_i hlength
              simp only [not_or, not_lt] at hlength
              obtain ⟨entries, hentries, hids⟩ := hids hlength.1 hlength.2
              obtain ⟨ids, hids⟩ := Option.isSome_iff_exists.mp hids
              refine proper_jsonGet_iff.mpr ⟨entries, hentries, proper_jsonGet_iff.mpr ⟨ids, hids, ?_⟩⟩
              split
              · exact proper_replyError (by decide)
              split
              · exact proper_replyError (by decide)
              rename_i hnodup
              split
              · exact proper_replyError (by decide)
              have hread : (perform (.usersExist ids)).eval (answerAs cfg (.reliable hash sidecar)) s =
                  (.ok (.ok (Database.usersExist s.store ids)), s) := rfl
              rw [eval_attempt_bind, hread]
              dsimp only
              split
              · exact proper_replyError (by decide)
              rename_i hexist
              obtain ⟨id, st, hcreate⟩ := exists_createConversation
                (bigint (epochMillis s.clock)) name hroom (by simpa using hnodup)
                (by simpa using hexist)
              have hcreated : (perform (.createConversation name ids)).eval
                  (answerAs cfg (.reliable hash sidecar)) s =
                  (.ok (commit (Database.createConversation s.store
                      (bigint (epochMillis s.clock)) name ids) s).1,
                    (commit (Database.createConversation s.store
                      (bigint (epochMillis s.clock)) name ids) s).2) := rfl
              rw [eval_attempt_bind, hcreated, hcreate]
              exact proper_reply (Json.printable_mkObj
                (by simp [Json.Printable, validUtf8_field_text hparse hname])) (by decide)

end Conversations

/-! ## Messages -/

section Messages

variable [Primitives] [FloatFormat] {cfg : Config} {s : ServerState} {req : Request}
  {hash : Bytes → Option Bytes} {sidecar : Bytes → Bytes → Option (Nat × Bytes)}

omit [Primitives] [FloatFormat] in
/-- A failure of the sidecar's part leaves the digest empty. -/
theorem eval_tryCatch_digest {answer : (o : Op) → ServerState → Res o × ServerState}
    {p : Server Bytes}
    (h : ∀ digest s', p.eval answer s = (.ok digest, s') → validUtf8 digest = true) :
    ∃ digest s', validUtf8 digest = true ∧
      (p.tryCatch fun _ => return []).eval answer s = (.ok digest, s') := by
  rw [Prog.eval_tryCatch]
  cases heval : p.eval answer s with
  | mk x s' =>
      cases x with
      | ok digest => exact ⟨digest, s', h digest s' heval, rfl⟩
      | error e => exact ⟨[], s', rfl, rfl⟩

omit [Primitives] in
/-- The sidecar's part gives a digest that can be printed, whatever the sidecar answers. -/
theorem eval_recordOnBlockchain (out : Outcomes) (convId msgId : UInt64) (payload : Bytes) :
    ∃ digest s', validUtf8 digest = true ∧
      (recordOnBlockchain convId msgId payload).eval (answerAs cfg out) s = (.ok digest, s') := by
  apply eval_tryCatch_digest
  intro digest s' heval
  rw [eval_jsonGet_bind] at heval
  split at heval
  · rw [eval_perform_bind] at heval
    split at heval
    · rw [eval_jsonGet_bind] at heval
      split at heval
      · rename_i sidecarJson hparse
        rw [eval_jsonGet_bind] at heval
        split at heval
        · rename_i pendingId hpending
          rw [eval_perform_bind] at heval
          cases heval
          exact validUtf8_append (validUtf8_bytes "pending:")
            (validUtf8_field_text hparse hpending)
        · cases heval
      · cases heval
    · cases heval
      rfl
  · cases heval

omit [Primitives] in
/-- A message is stored and answered, unless an id of the bundle stops it. -/
theorem proper_storeMessage_iff {convId sender : UInt64} {payload : Bytes}
    {recipient : Option UInt64} (hpayload : validUtf8 payload = true) :
    Proper ((storeMessage convId sender payload recipient).eval
        (answerAs cfg (.reliable hash sidecar)) s).1 ↔
      BundleReads s.store sender payload recipient := by
  have hcreated : ∀ now, (perform (.createMessage convId sender payload now recipient
        (oneTimePreKeyIdFromPayload payload))).eval (answerAs cfg (.reliable hash sidecar)) s =
      (.ok (commit (Database.createMessage s.store convId sender payload now recipient
        (oneTimePreKeyIdFromPayload payload)) s).1,
        (commit (Database.createMessage s.store convId sender payload now recipient
          (oneTimePreKeyIdFromPayload payload)) s).2) := fun _ => rfl
  have hclock : (nowMillis).eval (answerAs cfg (.reliable hash sidecar)) s =
      (.ok (epochMillis s.clock), s) := rfl
  -- a text of the server's own, or a stored message, gets an answer
  have hrest : ∀ st, Database.consumeForMessage s.store sender recipient
        (oneTimePreKeyIdFromPayload payload) = .ok st ∨
      Database.consumeForMessage s.store sender recipient (oneTimePreKeyIdFromPayload payload) =
        .error (.runtimeError (bytes "one-time prekey not found")) →
      Proper ((storeMessage convId sender payload recipient).eval
        (answerAs cfg (.reliable hash sidecar)) s).1 := by
    intro st hst
    unfold storeMessage
    rw [Prog.eval_bind, hclock]
    dsimp only
    rw [Prog.eval_bind, hcreated]
    rcases hst with hst | hst
    · cases hcreate : Database.createMessage s.store convId sender payload (epochMillis s.clock)
          recipient (oneTimePreKeyIdFromPayload payload) with
      | error e =>
          rw [createMessage_error hst hcreate]
          exact proper_reply (printable_error (validUtf8_bytes _)) (by decide)
      | ok created =>
          obtain ⟨msgId, st'⟩ := created
          obtain ⟨digest, s', hdigest, heval⟩ : ∃ digest s', validUtf8 digest = true ∧
              (recordOnBlockchain convId msgId payload).eval
                (answerAs cfg (.reliable hash sidecar)) { s with store := st' } = (.ok digest, s') :=
            eval_recordOnBlockchain _ convId msgId payload
          dsimp only [commit]
          rw [Prog.eval_bind, heval]
          exact proper_reply
            (Json.printable_mkObj (by simp [Json.Printable, hpayload, hdigest])) (by decide)
    · rw [createMessage_of_consume_error hst]
      exact proper_reply (printable_error (validUtf8_bytes _)) (by decide)
  by_cases hreads : BundleReads s.store sender payload recipient
  · refine iff_of_true ?_ hreads
    by_cases hmissing : PreKeyMissing s.store sender payload recipient
    · exact hrest s.store (Or.inr (consumeForMessage_missing hreads hmissing))
    · obtain ⟨st, hst⟩ := exists_consumeForMessage hreads hmissing
      exact hrest st (Or.inl hst)
  · refine iff_of_false ?_ hreads
    unfold storeMessage
    rw [Prog.eval_bind, hclock]
    dsimp only
    rw [Prog.eval_bind, hcreated,
      createMessage_of_consume_error (consumeForMessage_unread hreads)]
    exact not_proper_error _

omit [Primitives] in
theorem RecipientIs.unique {body : Json UInt8} {r r' : Option UInt64} (h : RecipientIs body r)
    (h' : RecipientIs body r') : r = r' := by
  unfold RecipientIs at h h'
  grind

omit [Primitives] in
theorem proper_recipientOf_iff {answer : (o : Op) → ServerState → Res o × ServerState}
    {body : Json UInt8} {f : Option UInt64 → Server Response} :
    Proper ((recipientOf body >>= f).eval answer s).1 ↔
      ∃ recipient, RecipientIs body recipient ∧ Proper ((f recipient).eval answer s).1 := by
  unfold recipientOf RecipientIs
  cases hnull : (field body "recipientId").isNull with
  | true => simp
  | false =>
      cases hid : (field body "recipientId").uint64? with
      | none =>
          refine iff_of_false (not_proper_error _) ?_
          rintro ⟨recipient, ⟨h, -⟩ | ⟨-, r, hr, -⟩, -⟩
          · cases h
          · cases hr
      | some r =>
          constructor
          · intro h
            exact ⟨some r, Or.inr ⟨rfl, r, rfl, rfl⟩, h⟩
          · rintro ⟨recipient, ⟨h, -⟩ | ⟨-, r', hr, rfl⟩, hf⟩
            · cases h
            · cases hr
              exact hf

omit [Primitives] in
theorem eval_isRecipient (out : Outcomes) (convId : UInt64) (recipient : Option UInt64) :
    (isRecipient convId recipient).eval (answerAs cfg out) s =
      (.ok (recipient.all fun r => Database.isParticipant s.store convId r), s) := by
  cases recipient <;> rfl

/-- **Creating a message.** -/
theorem proper_createMessage_iff (convPart : Bytes) (htoken : TokenReads cfg s req) :
    Proper ((handleCreateMessage_ cfg req convPart).eval
        (answerAs cfg (.reliable hash sidecar)) s).1 ↔ CreateMessageReads cfg s req convPart := by
  obtain ⟨user, huser⟩ := exists_user htoken
  unfold handleCreateMessage_
  cases hconv : parseId convPart with
  | none =>
      refine iff_of_true (proper_replyError (by decide)) ⟨?_, ?_⟩
      · rintro conv body hconv' -
        cases hconv.symm.trans hconv'
      · rintro conv sender payload recipient user preKey text hasks - -
        cases hconv.symm.trans hasks.convId
  | some conv =>
  cases hparse : (Json.parse req.body : Option (Json UInt8)) with
  | none =>
      refine iff_of_true (proper_replyError (by decide)) ⟨?_, ?_⟩
      · exact fun _ _ _ hbody => absurd hbody (not_bodyHas_of_none hparse)
      · rintro conv sender payload recipient user preKey text hasks - -
        obtain ⟨body, hbody, -⟩ := hasks.fields
        exact absurd hbody (not_bodyHas_of_none hparse)
  | some body =>
  dsimp only
  split
  · rename_i hmissing
    have hnot : ∀ body', ¬ BodyHas req ["senderId", "payload"] body' := by
      intro body' hbody
      obtain ⟨-, hkeys⟩ := (bodyHas_iff hparse).mp hbody
      simp [hkeys] at hmissing
    refine iff_of_true (proper_replyError (by decide)) ⟨?_, ?_⟩
    · exact fun _ body' _ hbody => absurd hbody (hnot body')
    · rintro conv sender payload recipient user preKey text hasks - -
      obtain ⟨body', hbody, -⟩ := hasks.fields
      exact absurd hbody (hnot body')
  rename_i hthere
  have hbody : BodyHas req ["senderId", "payload"] body :=
    (bodyHas_iff hparse).mpr ⟨rfl, by simpa using hthere⟩
  have hpart : ∀ user, (perform (.isParticipant conv user)).eval
      (answerAs cfg (.reliable hash sidecar)) s =
      (.ok (.ok (Database.isParticipant s.store conv user)), s) := fun _ => rfl
  simp only [proper_jsonGet_iff, proper_recipientOf_iff]
  constructor
  · rintro ⟨sender, hsender, payload, hpayload, recipient, hrecipient, hrest⟩
    refine ⟨?_, ?_⟩
    · rintro conv' body' - hbody'
      obtain ⟨rfl, -⟩ := (bodyHas_iff hparse).mp hbody'
      exact ⟨by simp [IsId, hsender], by simp [IsText, hpayload], recipient, hrecipient⟩
    · intro conv' sender' payload' recipient' user' preKey text hasks hneeds htext
      obtain rfl : conv = conv' := Option.some.inj (hconv.symm.trans hasks.convId)
      obtain ⟨body', hbody', hsender', hpayload', hrecipient'⟩ := hasks.fields
      obtain ⟨rfl, -⟩ := (bodyHas_iff hparse).mp hbody'
      obtain rfl : sender = sender' := Option.some.inj (hsender.symm.trans hsender')
      obtain rfl : payload = payload' := Option.some.inj (hpayload.symm.trans hpayload')
      obtain rfl : recipient = recipient' := hrecipient.unique hrecipient'
      have hall : (recipient.all fun r => Database.isParticipant s.store conv r) = true := by
        cases recipient with
        | none => rfl
        | some r => exact hasks.recipients r rfl
      rw [if_neg (by simpa using hasks.length), Prog.eval_bind, eval_authenticatedUserId,
        hasks.user] at hrest
      dsimp only at hrest
      rw [if_neg (by simp), eval_attempt_bind, hpart, hasks.participant] at hrest
      dsimp only at hrest
      rw [if_neg (by simp), Prog.eval_bind, eval_isRecipient, hall] at hrest
      dsimp only at hrest
      rw [if_neg (by simp)] at hrest
      exact (proper_storeMessage_iff (validUtf8_field_text hparse hpayload)).mp hrest user' preKey
        text hneeds htext
  · rintro ⟨htyped, hids⟩
    obtain ⟨hsender, hpayload, recipient, hrecipient⟩ := htyped conv body hconv hbody
    obtain ⟨sender, hsender⟩ := Option.isSome_iff_exists.mp hsender
    obtain ⟨payload, hpayload⟩ := Option.isSome_iff_exists.mp hpayload
    refine ⟨sender, hsender, payload, hpayload, recipient, hrecipient, ?_⟩
    split
    · exact proper_replyError (by decide)
    rename_i hlength
    rw [Prog.eval_bind, eval_authenticatedUserId, huser]
    cases user with
    | none => exact proper_replyError (by decide)
    | some user =>
        dsimp only
        split
        · exact proper_replyError (by decide)
        rename_i hsame
        obtain rfl : user = sender := not_not.mp hsame
        rw [eval_attempt_bind, hpart]
        dsimp only
        split
        · exact proper_replyError (by decide)
        rename_i hparticipant
        rw [Prog.eval_bind, eval_isRecipient]
        dsimp only
        split
        · exact proper_replyError (by decide)
        rename_i hrecipients
        apply (proper_storeMessage_iff (validUtf8_field_text hparse hpayload)).mpr
        intro user' preKey text hneeds htext
        refine hids conv user payload recipient user' preKey text ?_ hneeds htext
        refine ⟨hconv, ⟨body, hbody, hsender, hpayload, hrecipient⟩, by simpa using hlength, huser,
          by simpa using hparticipant, ?_⟩
        rintro r rfl
        simpa using hrecipients

end Messages

/-! ## The filter chain -/

section Chain

variable [Primitives] [FloatFormat] {cfg : Config} {s : ServerState} {req : Request}

theorem eval_verifyToken (out : Outcomes) (token : Bytes) :
    (verifyToken cfg token).eval (answerAs cfg out) s =
      (verifiedJwtPayload (epochSeconds s.clock) token cfg.jwtSecret, s) := by
  have hclock : answerAs cfg out .epochSeconds s = (epochSeconds s.clock, s) := rfl
  rw [verifyToken, eval_perform_bind, Prog.eval_ofExcept, hclock]

/-- An error of the filter chain is in the 400s. -/
def SecurityError.Proper (e : SecurityError) : Prop :=
  400 ≤ e.httpStatusCode ∧ e.httpStatusCode < 500

theorem exists_throws (h : ¬ TokenReads cfg s req) :
    ∃ token e, bearerToken req = some token ∧
      verifiedJwtPayload (epochSeconds s.clock) token cfg.jwtSecret = .error e := by
  simp only [TokenReads, not_forall] at h
  obtain ⟨token, htoken, hnone⟩ := h
  cases hverified : verifiedJwtPayload (epochSeconds s.clock) token cfg.jwtSecret with
  | error e => exact ⟨token, e, htoken, hverified⟩
  | ok payload => exact absurd ⟨payload, hverified⟩ hnone

/-- The first predicate, when the body the chain sees names a sender. -/
theorem eval_validateSenderAuthenticity (out : Outcomes) {seen : Bytes}
    (hpost : req.method = bytes "POST") (hread : NamesSender seen → TokenReads cfg s req) :
    ∃ r, (validateSenderAuthenticity cfg { req with body := seen }).eval (answerAs cfg out) s =
        (.ok r, s) ∧ (∀ e, r = some e → e.Proper) ∧
      (r = none ↔ SenderAuthentic cfg s req seen) := by
  unfold validateSenderAuthenticity
  rw [if_neg (by simpa using hpost)]
  cases hparse : (Json.parse seen : Option (Json UInt8)) with
  | none =>
      refine ⟨none, rfl, by simp, iff_of_true rfl ?_⟩
      rintro body token payload user sender hbody
      cases hparse.symm.trans hbody
  | some body =>
      dsimp only
      split
      · rename_i hmissing
        refine ⟨none, rfl, by simp, iff_of_true rfl ?_⟩
        rintro body' token payload user sender hbody hnames
        cases hparse.symm.trans hbody
        exact absurd hnames hmissing
      rename_i hnames
      rw [not_not] at hnames
      have htokens := hread ⟨body, hparse, hnames⟩
      cases hbearer : bearerToken req with
      | none =>
          have : bearerToken { req with body := seen } = none := hbearer
          rw [this]
          refine ⟨none, rfl, by simp, iff_of_true rfl ?_⟩
          rintro body' token payload user sender - - htoken
          cases hbearer.symm.trans htoken
      | some token =>
          have : bearerToken { req with body := seen } = some token := hbearer
          obtain ⟨verified, hverified⟩ := htokens token hbearer
          rw [this]
          dsimp only
          rw [Prog.eval_bind, eval_verifyToken, hverified]
          cases verified with
          | none =>
              refine ⟨none, rfl, by simp, iff_of_true rfl ?_⟩
              rintro body' token' payload user sender - - htoken hpayload
              cases hbearer.symm.trans htoken
              cases hverified.symm.trans hpayload
          | some payload =>
              have hauthentic : SenderAuthentic cfg s req seen ↔ ∀ user sender,
                  payloadUserId payload = some user →
                  (field body "senderId").uint64? = some sender → user = sender := by
                constructor
                · exact fun h user sender => h body token payload user sender hparse hnames hbearer
                    hverified
                · rintro h body' token' payload' user sender hbody - htoken hpayload
                  cases hparse.symm.trans hbody
                  cases hbearer.symm.trans htoken
                  cases hverified.symm.trans hpayload
                  exact h user sender
              rw [hauthentic]
              dsimp only
              split
              · rename_i user sender huser hsender
                by_cases hsame : user = sender
                · rw [if_neg (by simpa using hsame)]
                  refine ⟨none, rfl, by simp, iff_of_true rfl ?_⟩
                  intro user' sender' huser' hsender'
                  cases huser.symm.trans huser'
                  cases hsender.symm.trans hsender'
                  exact hsame
                · rw [if_pos hsame]
                  refine ⟨_, rfl, ?_, iff_of_false (by simp) fun h => hsame (h _ _ huser hsender)⟩
                  rintro e ⟨⟩
                  exact ⟨by decide, by decide⟩
              · rename_i hnone
                exact ⟨none, rfl, by simp, iff_of_true rfl fun user sender huser hsender =>
                  absurd hsender (hnone user sender huser)⟩

/-- It throws where the token does. -/
theorem eval_validateSenderAuthenticity_throws (out : Outcomes) {seen : Bytes}
    (hpost : req.method = bytes "POST") (hnames : NamesSender seen) (h : ¬ TokenReads cfg s req) :
    ∃ e, (validateSenderAuthenticity cfg { req with body := seen }).eval (answerAs cfg out) s =
      (.error e, s) := by
  obtain ⟨body, hparse, hnames⟩ := hnames
  obtain ⟨token, e, hbearer, hverified⟩ := exists_throws h
  have htoken : bearerToken { req with body := seen } = some token := hbearer
  unfold validateSenderAuthenticity
  rw [if_neg (by simpa using hpost), hparse]
  dsimp only
  rw [if_neg (by simpa using hnames), htoken]
  dsimp only
  rw [Prog.eval_bind, eval_verifyToken, hverified]
  exact ⟨e, rfl⟩

/-- The third predicate. -/
theorem eval_validateAuthenticated (out : Outcomes) (seen : Bytes)
    (hread : isPublicPath req.path = false → TokenReads cfg s req) :
    ∃ r tokens, (validateAuthenticated cfg { req with body := seen }).eval (answerAs cfg out) s =
        (.ok r, { s with tokens := tokens }) ∧ (∀ e, r = some e → e.Proper) ∧
      (r = none ↔ isPublicPath req.path = true ∨ TokenAccepted cfg s req) := by
  unfold validateAuthenticated
  cases hpath : isPublicPath req.path with
  | true =>
      rw [if_pos rfl]
      exact ⟨none, s.tokens, rfl, by simp, iff_of_true rfl (Or.inl rfl)⟩
  | false =>
      have htokens := hread hpath
      rw [if_neg (by simp)]
      cases hbearer : bearerToken req with
      | none =>
          have htoken : bearerToken { req with body := seen } = none := hbearer
          rw [htoken]
          refine ⟨_, s.tokens, rfl, ?_, iff_of_false (by simp) ?_⟩
          · rintro e ⟨⟩
            exact ⟨by decide, by decide⟩
          · rintro (hpublic | ⟨token, payload, htoken, -⟩)
            · cases hpublic
            · cases hbearer.symm.trans htoken
      | some token =>
          have htoken : bearerToken { req with body := seen } = some token := hbearer
          obtain ⟨verified, hverified⟩ := htokens token hbearer
          rw [htoken]
          dsimp only
          rw [Prog.eval_bind, eval_verifyToken, hverified]
          cases verified with
          | none =>
              refine ⟨_, s.tokens, rfl, ?_, iff_of_false (by simp) ?_⟩
              · rintro e ⟨⟩
                exact ⟨by decide, by decide⟩
              · rintro (hpublic | ⟨token', payload, htoken', hpayload, -⟩)
                · cases hpublic
                · cases hbearer.symm.trans htoken'
                  cases hverified.symm.trans hpayload
          | some payload =>
              have hrevoked : answerAs cfg out (.isRevoked token) s =
                  (TokenBlacklist.contains token
                      (TokenBlacklist.pruneExpired_ (epochSeconds s.clock) s.tokens),
                    { s with tokens :=
                      TokenBlacklist.pruneExpired_ (epochSeconds s.clock) s.tokens }) := rfl
              have haccepted : TokenAccepted cfg s req ↔ TokenBlacklist.contains token
                  (TokenBlacklist.pruneExpired_ (epochSeconds s.clock) s.tokens) = false := by
                constructor
                · rintro ⟨token', payload', htoken', -, hlist⟩
                  cases hbearer.symm.trans htoken'
                  exact hlist
                · exact fun hlist => ⟨token, payload, hbearer, hverified, hlist⟩
              dsimp only
              rw [eval_perform_bind, hrevoked, haccepted]
              dsimp only
              cases TokenBlacklist.contains token
                  (TokenBlacklist.pruneExpired_ (epochSeconds s.clock) s.tokens) with
              | true =>
                  refine ⟨_, _, rfl, ?_, iff_of_false (by simp) (by simp)⟩
                  rintro e ⟨⟩
                  exact ⟨by decide, by decide⟩
              | false => exact ⟨none, _, rfl, by simp, iff_of_true rfl (Or.inr rfl)⟩

theorem eval_validateAuthenticated_throws (out : Outcomes) (seen : Bytes)
    (hpath : isPublicPath req.path = false) (h : ¬ TokenReads cfg s req) :
    ∃ e, (validateAuthenticated cfg { req with body := seen }).eval (answerAs cfg out) s =
      (.error e, s) := by
  obtain ⟨token, e, hbearer, hverified⟩ := exists_throws h
  have htoken : bearerToken { req with body := seen } = some token := hbearer
  unfold validateAuthenticated
  rw [if_neg (by simp [hpath]), htoken]
  dsimp only
  rw [Prog.eval_bind, eval_verifyToken, hverified]
  exact ⟨e, rfl⟩

omit [Primitives] [FloatFormat] in
/-- An error of the second predicate is a bad request. -/
theorem proper_validateUntampered {e : SecurityError} (h : validateUntampered req = some e) :
    e.Proper := by
  unfold validateUntampered at h
  split_ifs at h
  cases h
  exact ⟨by decide, by decide⟩

/-- **The filter chain** lets a request through or answers an error of the 400s. -/
theorem eval_filterChain (out : Outcomes) {seen : Bytes} (hpost : req.method = bytes "POST")
    (hread : ReadsToken req seen → TokenReads cfg s req) :
    ∃ r tokens, (filterChain cfg { req with body := seen }).eval (answerAs cfg out) s =
        (.ok r, { s with tokens := tokens }) ∧ (∀ e, r = some e → e.Proper) ∧
      (r = none ↔ Admits cfg s req seen) := by
  have huntampered : validateUntampered { req with body := seen } = validateUntampered req := rfl
  obtain ⟨r, hr, hproper, hnone⟩ :=
    eval_validateSenderAuthenticity out hpost fun h => hread (Or.inl h)
  unfold filterChain Admits
  rw [Prog.eval_bind, hr]
  cases r with
  | some e =>
      exact ⟨some e, s.tokens, rfl, hproper, iff_of_false (by simp) fun h => by
        cases hnone.mpr h.1⟩
  | none =>
      dsimp only
      rw [huntampered]
      cases hcontent : validateUntampered req with
      | some e =>
          refine ⟨some e, s.tokens, rfl, ?_, iff_of_false (by simp) fun h => by cases h.2.1⟩
          rintro e' ⟨⟩
          exact proper_validateUntampered hcontent
      | none =>
          obtain ⟨r, tokens, hr, hproper, hnone'⟩ :=
            eval_validateAuthenticated out seen fun h => hread (Or.inr ⟨hcontent, h⟩)
          refine ⟨r, tokens, hr, hproper, hnone'.trans ?_⟩
          exact ⟨fun h => ⟨hnone.mp rfl, rfl, h⟩, fun h => h.2.2⟩

/-- It throws where it reads a token that does not verify. -/
theorem eval_filterChain_throws (out : Outcomes) {seen : Bytes} (hpost : req.method = bytes "POST")
    (hread : ReadsToken req seen) (h : ¬ TokenReads cfg s req) :
    ∃ e s', (filterChain cfg { req with body := seen }).eval (answerAs cfg out) s =
      (.error e, s') := by
  have huntampered : validateUntampered { req with body := seen } = validateUntampered req := rfl
  unfold filterChain
  by_cases hnames : NamesSender seen
  · obtain ⟨e, he⟩ := eval_validateSenderAuthenticity_throws out hpost hnames h
    rw [Prog.eval_bind, he]
    exact ⟨e, s, rfl⟩
  · obtain ⟨hcontent, hpath⟩ := hread.resolve_left hnames
    have htokens : NamesSender seen → TokenReads cfg s req := fun hn => absurd hn hnames
    obtain ⟨r, hr, -, hnone⟩ := eval_validateSenderAuthenticity out hpost htokens
    have hr' : r = none := by
      refine hnone.mpr ?_
      rintro body token payload user sender hbody hsender
      exact absurd ⟨body, hbody, hsender⟩ hnames
    subst hr'
    obtain ⟨e, he⟩ := eval_validateAuthenticated_throws out seen hpath h
    rw [Prog.eval_bind, hr]
    dsimp only
    rw [huntampered, hcontent]
    exact ⟨e, s, he⟩

end Chain

/-! ## Requests -/

section Requests

variable [Primitives] [FloatFormat] {cfg : Config} {s : ServerState} {req : Request}

/-- The endpoints whose handlers read a body. -/
def Endpoint.ReadsBody : Endpoint → Prop
  | .signup | .login | .createConversation | .createMessage _ => True
  | _ => False

omit [Primitives] [FloatFormat] in
/-- They are all reached by `POST`. -/
theorem post_of_readsBody {e : Endpoint} (h : endpointOf req.method req.path = some e)
    (he : e.ReadsBody) : req.method = bytes "POST" := by
  have hdelete : ∀ parts, deleteRoute parts ≠ some e := by
    intro parts hroute
    unfold deleteRoute at hroute
    split at hroute
    · split_ifs at hroute
      cases hroute
      exact he
    · split_ifs at hroute
      cases hroute
      exact he
    · cases hroute
  have hget : ∀ parts, getRoute parts ≠ some e := by
    intro parts hroute
    unfold getRoute at hroute
    split at hroute
    · split_ifs at hroute <;> cases hroute <;> exact he
    · split_ifs at hroute <;> cases hroute <;> exact he
    · cases hroute
  unfold endpointOf at h
  split_ifs at h with hpost hdel hgetMethod
  · exact hpost
  · exact absurd h (hdelete _)
  · exact absurd h (hget _)

/-- The handler of such a request. -/
theorem proper_handle_iff {e : Endpoint} (he : e.ReadsBody)
    (hroom : s.store.conversationSeq + 1 < 2 ^ 63) (hash : Bytes → Option Bytes)
    (sidecar : Bytes → Bytes → Option (Nat × Bytes)) (htoken : e.NeedsToken → TokenReads cfg s req) :
    Proper ((handle cfg req e).eval (answerAs cfg (.reliable hash sidecar)) s).1 ↔
      FieldsRead cfg s req e := by
  cases e with
  | signup => exact proper_signup_iff hash sidecar
  | login => exact proper_login_iff hash sidecar
  | createConversation => exact proper_createConversation_iff hroom (htoken trivial)
  | createMessage conv => exact proper_createMessage_iff conv (htoken trivial)
  | _ => exact he.elim

/-- What a message is asked for does not depend on the revoked tokens. -/
theorem AsksFor.tokens {convPart : Bytes} {conv sender : UInt64} {payload : Bytes}
    {recipient : Option UInt64} (h : AsksFor cfg s req convPart conv sender payload recipient)
    (tokens : TokenMap) :
    AsksFor cfg { s with tokens := tokens } req convPart conv sender payload recipient :=
  ⟨h.convId, h.fields, h.length, h.user, h.participant, h.recipients⟩

/-- Neither do the conversions. -/
theorem fieldsRead_tokens (e : Endpoint) (tokens : TokenMap) :
    FieldsRead cfg { s with tokens := tokens } req e ↔ FieldsRead cfg s req e := by
  cases e with
  | createMessage conv =>
      apply and_congr Iff.rfl
      constructor
      · intro h conv sender payload recipient user preKey text hasks
        exact h conv sender payload recipient user preKey text (hasks.tokens tokens)
      · intro h conv sender payload recipient user preKey text hasks
        exact h conv sender payload recipient user preKey text (hasks.tokens s.tokens)
  | _ => exact Iff.rfl

/-- **Which requests are answered.**  While the database does not fail and its sequences
last, a request to one of the four handlers gets a proper response exactly when its token,
if the filter chain reads it, verifies without an exception, and the conversions its handler
comes to apply do. -/
theorem proper_iff {e : Endpoint} (h : endpointOf req.method req.path = some e) (he : e.ReadsBody)
    (hroom : s.store.conversationSeq + 1 < 2 ^ 63) (seen : Bytes) (hash : Bytes → Option Bytes)
    (sidecar : Bytes → Bytes → Option (Nat × Bytes)) :
    Proper ((serve cfg req seen).eval (answerAs cfg (.reliable hash sidecar)) s).1 ↔
      (ReadsToken req seen → TokenReads cfg s req) ∧
        (Admits cfg s req seen → FieldsRead cfg s req e) := by
  have hpost := post_of_readsBody h he
  unfold serve
  rw [Prog.eval_bind]
  by_cases hread : ReadsToken req seen → TokenReads cfg s req
  · obtain ⟨r, tokens, hr, hproper, hnone⟩ :=
      eval_filterChain (.reliable hash sidecar) hpost hread
    rw [hr]
    cases r with
    | some e' =>
        refine iff_of_true (proper_replyError (Or.inr (hproper e' rfl))) ⟨hread, fun hadmits => ?_⟩
        cases hnone.mpr hadmits
    | none =>
        have hadmits := hnone.mp rfl
        have htoken : e.NeedsToken → TokenReads cfg s req := fun hneeds =>
          hread (Or.inr ⟨hadmits.2.1, not_public (needsTokenPath_of_endpoint h hneeds)⟩)
        have hhandle := @proper_handle_iff _ _ cfg { s with tokens := tokens } req e he hroom hash
          sidecar htoken
        dsimp only
        rw [route, h]
        refine hhandle.trans ⟨fun hfields => ⟨hread, fun _ => ?_⟩, fun hfields => ?_⟩
        · exact (fieldsRead_tokens e tokens).mp hfields
        · exact (fieldsRead_tokens e tokens).mpr (hfields.2 hadmits)
  · refine iff_of_false ?_ fun hiff => hread hiff.1
    obtain ⟨hreads, htoken⟩ := Classical.not_imp.mp hread
    obtain ⟨error, s', herror⟩ :=
      eval_filterChain_throws (.reliable hash sidecar) hpost hreads htoken
    rw [herror]
    exact not_proper_error _

end Requests

/-- Alice signs up and is answered. -/
theorem proper_iff_example :
    Proper ((@serve examplePrimitives plainFloats exampleConfig
      (exampleSignup "alice" (bytes "a")) []).eval
        (@answerAs plainFloats exampleConfig (.reliable some fun _ _ => none))
        (.initial 1000000)).1 := by
  have hnames : ((@Json.parse UInt8 _ plainFloats []).map fun b => b.contains (bytes "senderId")) =
      none := by decide +kernel
  have hpublic : isPublicPath (exampleSignup "alice" (bytes "a")).path = true := by decide +kernel
  have hbody : ((@Json.parse UInt8 _ plainFloats (exampleSignup "alice" (bytes "a")).body).map
      fun b => ((field b "username").str?.isSome, (field b "password").str?.isSome,
        (field b "publicKey").str?.isSome)) = some (true, true, true) := by decide +kernel
  have hroute : endpointOf (exampleSignup "alice" (bytes "a")).method
      (exampleSignup "alice" (bytes "a")).path = some .signup := by decide +kernel
  let _ := examplePrimitives
  let _ := plainFloats
  refine (proper_iff hroute trivial (by decide +kernel) [] some fun _ _ => none).mpr ⟨?_, ?_⟩
  · rintro (⟨body, hparse, -⟩ | ⟨-, hpath⟩)
    · rw [hparse] at hnames
      cases hnames
    · cases hpublic.symm.trans hpath
  · rintro - - body ⟨hparse, -⟩
    rw [hparse] at hbody
    obtain ⟨h₁, h₂⟩ := Prod.mk.inj (Option.some.inj hbody)
    obtain ⟨h₂, h₃⟩ := Prod.mk.inj h₂
    exact ⟨h₁, h₂, h₃⟩

/-- A signup whose username is a number. -/
def numberSignup : Request :=
  examplePost [] "/signup" [("username", .unsigned 1),
    ("password", .str (bytes "Password12345")), ("publicKey", .str (bytes "a"))]

/-- **A request that is not answered.** -/
theorem not_proper_numberSignup :
    ¬ Proper ((@serve examplePrimitives plainFloats exampleConfig numberSignup
      numberSignup.body).eval (@answerAs plainFloats exampleConfig
        (.reliable some fun _ _ => none)) (.initial 1000000)).1 := by
  have h : ((@serve examplePrimitives plainFloats exampleConfig numberSignup
      numberSignup.body).eval (@answerAs plainFloats exampleConfig (.reliable some fun _ _ => none))
      (.initial 1000000)).1.toOption.isSome = false := by decide +kernel
  rintro ⟨res, hres, -⟩
  rw [hres] at h
  cases h

end Kds
