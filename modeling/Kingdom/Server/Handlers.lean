import Kingdom.Server.Contract

/-!
# The handlers keep their contract

Each handler is verified by itself, for any changes other requests make between
two of its calls.

* `handles_filterChain` — what the filter chain lets through on a path that is
  not public.
* `handles_createConversation` … `handles_listConversationMessages` — the
  handlers that work under a token.
* `serverContract` — the contract of the server programs.
-/

namespace Kds

open Codec Process

section Handlers

variable [Primitives] [FloatFormat] {cfg : Config} {tick : Clock → Clock → Prop} {req : Request}
  {past : Events} {α β : Type}

/-- A handler, verified for the calls a request may make. -/
abbrev Handles (cfg : Config) (tick : Clock → Clock → Prop) (req : Request) {α : Type}
    (past : Events) (p : Server α) (P : Events → α → Prop) : Prop :=
  Gives cfg tick (RequestPre cfg req) past p P

/-! ## Rules -/

/-- An error says nothing about an answer of another status. -/
theorem handles_replyError {status n : Nat} {text : String} {P : Events → Response → Prop}
    (h : status ≠ n) :
    Handles cfg tick req past (replyError status text) fun past res => res.status = n → P past res :=
  gives_reply fun _ _ hs => absurd hs h

/-- A call that writes nothing and needs nothing. -/
theorem handles_read {o : Op} {P : Events → Res o → Prop} (hq : Quiet past)
    (ho : o.isWrite = false) (hpre : ∀ past s, RequestPre cfg req past o s)
    (h : ∀ s r s', exec cfg o s r s' → P (past ++ [⟨o, r, s, s'⟩]) r) :
    Handles cfg tick req past (perform o) fun past r => Quiet past ∧ P past r :=
  gives_perform (fun s _ => hpre past s) fun s r s' _ hexec => ⟨hq.snoc ho r s s', h s r s' hexec⟩

omit [Primitives] in
/-- A participant that was found stays one. -/
theorem participant_of_said {s : ServerState} {c u : UInt64}
    (hs : Past (serverMachine cfg tick) storeShared past s)
    (h : Said past (.isParticipant c u) (.ok true)) :
    Database.isParticipant s.store c u = true := by
  obtain ⟨s₀, s₁, hmem⟩ := h
  obtain ⟨hinv, ⟨hpost, hr⟩, hrely⟩ := hs.2 _ hmem
  rcases hr with hr | ⟨what, hr⟩
  · have hevolves : Evolves s₀.store s.store := by
      rw [show s₁ = s₀ from hpost] at hrely
      exact hrely
    exact hevolves.participant hinv (Except.ok.inj hr).symm
  · cases hr

/-- `isParticipant`, and what follows when it holds. -/
theorem handles_isParticipant (hq : Quiet past) {c u : UInt64} :
    Handles cfg tick req past (perform (.isParticipant c u)) fun past r =>
      Quiet past ∧ ∀ b, r = .ok b → b = true → Said past (.isParticipant c u) (.ok true) :=
  handles_read hq rfl (fun _ _ => trivial) fun s r s' _ b hr hb => ⟨s, s', by rw [hr, hb]; simp⟩

/-- The time a handler reads fits a `BIGINT`. -/
theorem handles_nowMillis (hq : Quiet past) :
    Handles cfg tick req past nowMillis fun past now => Quiet past ∧ now.toNat < 2 ^ 63 :=
  handles_read hq rfl (fun _ _ => trivial) fun s now s' hexec => by
    have hlt := s.clock.isLt
    rw [hexec.1, epochMillis, UInt64.toNat_ofNat_of_lt' (hlt.trans (by decide))]
    exact hlt

/-! ## Tokens -/

theorem handles_verifyToken (hq : Quiet past) (token : Bytes) :
    Handles cfg tick req past (verifyToken cfg token) fun past r =>
      Quiet past ∧ ∀ payload, r = some payload → ∃ now, Said past .epochSeconds now ∧
        verifiedJwtPayload now token cfg.jwtSecret = .ok (some payload) := by
  refine Yields.op_bind (fun s _ => trivial) fun s now s' _ _ => ?_
  cases hv : verifiedJwtPayload now token cfg.jwtSecret with
  | error e => exact Yields.fail
  | ok r =>
      refine Yields.pure ⟨hq.snoc rfl now s s', ?_⟩
      rintro payload rfl
      exact ⟨now, said_last past _ _ s s', hv⟩

/-- A user the handler finds in the token is the one the filter chain admitted. -/
theorem handles_authenticatedUserId (hq : Quiet past) {payload : Json UInt8}
    (h : Admitted cfg req past payload) :
    Handles cfg tick req past (authenticatedUserId cfg req) fun past r =>
      Quiet past ∧ ∀ u, r = some u → AdmittedAs cfg req past u := by
  obtain ⟨token, now, htoken, hnow, hverified, hrevoked⟩ := h
  unfold authenticatedUserId
  simp only [htoken]
  refine Yields.bind (handles_verifyToken hq token) fun more r hr => Yields.pure ⟨hr.1, ?_⟩
  intro u hu
  obtain ⟨p, hp, hpu⟩ := Option.bind_eq_some_iff.mp hu
  obtain ⟨now', -, hv⟩ := hr.2 p hp
  -- the two verifications of the token see the same payload
  have hsame : p = payload := by
    have h1 := signedPayload_of_verified hv
    rw [signedPayload_of_verified hverified] at h1
    exact (Option.some.inj (Except.ok.inj h1)).symm
  exact ⟨payload, ⟨token, now, htoken, hnow.append more, hverified, hrevoked.append more⟩,
    hsame ▸ hpu⟩

/-- What the filter chain, or one of its predicates, says of a request. -/
def Chained (cfg : Config) (req : Request) (past : Events) : Option SecurityError → Prop
  | some e => 400 ≤ e.httpStatusCode
  | none => isPublicPath req.path = false → ∃ payload, Admitted cfg req past payload

/-- The first predicate calls nothing but the clock. -/
theorem handles_validateSenderAuthenticity (hq : Quiet past) (req' : Request) :
    Handles cfg tick req past (validateSenderAuthenticity cfg req') fun past r =>
      Quiet past ∧ ∀ e, r = some e → 400 ≤ e.httpStatusCode := by
  unfold validateSenderAuthenticity
  split
  · exact Yields.pure ⟨hq, nofun⟩
  cases Json.parse req'.body with
  | none => exact Yields.pure ⟨hq, nofun⟩
  | some body =>
      dsimp only
      split
      · exact Yields.pure ⟨hq, nofun⟩
      cases bearerToken req' with
      | none => exact Yields.pure ⟨hq, nofun⟩
      | some token =>
          refine Yields.bind (handles_verifyToken hq token) fun more r hr => ?_
          cases r with
          | none => exact Yields.pure ⟨hr.1, nofun⟩
          | some payload =>
              dsimp only
              split
              · split
                · refine Yields.pure ⟨hr.1, ?_⟩
                  rintro e ⟨⟩
                  decide
                · exact Yields.pure ⟨hr.1, nofun⟩
              · exact Yields.pure ⟨hr.1, nofun⟩

/-- What `ValidateAuthenticated` lets through on a path that is not public. -/
theorem handles_validateAuthenticated (hq : Quiet past) (seen : Bytes) :
    Handles cfg tick req past (validateAuthenticated cfg { req with body := seen }) fun past r =>
      Quiet past ∧ Chained cfg req past r := by
  unfold validateAuthenticated
  split
  · rename_i hpublic
    refine Yields.pure ⟨hq, fun h => ?_⟩
    rw [show isPublicPath req.path = true from hpublic] at h
    cases h
  · cases htoken : bearerToken { req with body := seen } with
    | none => exact Yields.pure ⟨hq, show 400 ≤ 401 by decide⟩
    | some token =>
        refine Yields.bind (handles_verifyToken hq token) fun more r hr => ?_
        cases r with
        | none => exact Yields.pure ⟨hr.1, show 400 ≤ 401 by decide⟩
        | some payload =>
            obtain ⟨now, hnow, hv⟩ := hr.2 payload rfl
            refine Yields.op_bind (fun s _ => trivial) fun s revoked s' _ _ => ?_
            cases revoked with
            | true => exact Yields.pure ⟨hr.1.snoc rfl _ s s', show 400 ≤ 401 by decide⟩
            | false =>
                exact Yields.pure ⟨hr.1.snoc rfl _ s s', fun _ => ⟨payload, token, now, htoken,
                  hnow.append _, hv, said_last _ _ _ s s'⟩⟩

/-- What the filter chain lets through on a path that is not public. -/
theorem handles_filterChain (hq : Quiet past) (seen : Bytes) :
    Handles cfg tick req past (filterChain cfg { req with body := seen }) fun past r =>
      Quiet past ∧ Chained cfg req past r := by
  refine Yields.bind (handles_validateSenderAuthenticity hq _) fun more r hr => ?_
  cases r with
  | some e => exact Yields.pure ⟨hr.1, hr.2 e rfl⟩
  | none =>
      dsimp only
      split
      · rename_i e he
        refine Yields.pure ⟨hr.1, ?_⟩
        unfold validateUntampered at he
        split at he
        · cases he
        split at he
        · cases he
          exact show 400 ≤ 400 from le_rfl
        · cases he
      · exact handles_validateAuthenticated hr.1 seen

/-! ## Messages -/

theorem handles_deleteMessage (hq : Quiet past) {payload : Json UInt8}
    (h : Admitted cfg req past payload) (convPart messagePart : Bytes) :
    Handles cfg tick req past (handleDeleteMessage_ cfg req convPart messagePart) fun past res =>
      res.status = 200 → ∃ c m u, parseId convPart = some c ∧ parseId messagePart = some m ∧
        AdmittedAs cfg req past u ∧ Said past (.deleteMessage c m u) (.ok true) := by
  refine Yields.bind (handles_authenticatedUserId hq h) fun more r hr => ?_
  cases r with
  | none =>
      dsimp only
      exact handles_replyError (by decide)
  | some u =>
      obtain ⟨hq₁, hu⟩ := hr
      replace hu := hu u rfl
      dsimp only
      split
      · rename_i c m hc hm
        refine gives_attempt (Yields.mono (handles_isParticipant hq₁) fun more₂ r hpart b hb => ?_)
        split
        · exact handles_replyError (by decide)
        rename_i hb'
        have hp := hpart.2 b hb (by simpa using hb')
        refine gives_attempt (gives_perform (fun s hs => ?_) fun s r s' _ _ b' hr' => ?_)
        · exact ⟨hpart.1, hu.append more₂, participant_of_said hs hp⟩
        · subst hr'
          split
          · exact handles_replyError (by decide)
          rename_i hdel
          refine gives_reply fun text _ _ => ⟨c, m, u, hc, hm, ?_, s, s', ?_⟩
          · exact (hu.append more₂).append _
          · simp [show b' = true by simpa using hdel]
      · exact handles_replyError (by decide)

theorem handles_revokeMessageAccess (hq : Quiet past) {payload : Json UInt8}
    (h : Admitted cfg req past payload) (convPart messagePart userPart : Bytes) :
    Handles cfg tick req past (handleRevokeMessageAccess_ cfg req convPart messagePart userPart)
      fun past res => res.status = 200 → ∃ c m target u now, parseId convPart = some c ∧
        parseId messagePart = some m ∧ parseId userPart = some target ∧
        AdmittedAs cfg req past u ∧
        Said past (.revokeMessageAccess c m u target now) (.ok true) := by
  refine Yields.bind (handles_authenticatedUserId hq h) fun more r hr => ?_
  cases r with
  | none =>
      dsimp only
      exact handles_replyError (by decide)
  | some u =>
      obtain ⟨hq₁, hu⟩ := hr
      replace hu := hu u rfl
      dsimp only
      split
      · rename_i c m target hc hm htarget
        refine gives_attempt (Yields.mono (handles_isParticipant hq₁) fun more₂ r hpart b hb => ?_)
        split
        · exact handles_replyError (by decide)
        rename_i hb'
        have hp := hpart.2 b hb (by simpa using hb')
        refine gives_attempt
          (Yields.mono (handles_isParticipant hpart.1) fun more₃ r hpart' b₂ hb₂ => ?_)
        split
        · exact handles_replyError (by decide)
        rename_i hb₂'
        have hp' := hpart'.2 b₂ hb₂ (by simpa using hb₂')
        refine gives_attempt (Yields.mono
          (handles_read (P := fun _ _ => True) hpart'.1 rfl (fun _ _ => trivial)
            fun _ _ _ _ => trivial) fun more₄ r hown b₃ _ => ?_)
        split
        · exact handles_replyError (by decide)
        refine Yields.bind (handles_nowMillis hown.1) fun more₅ now hnow => ?_
        have hu' := (((hu.append more₂).append more₃).append more₄).append more₅
        refine gives_attempt (gives_perform (fun s hs => ?_) fun s r s' _ _ b₄ hr' => ?_)
        · exact ⟨hnow.1, hu',
            participant_of_said hs (((hp.append more₃).append more₄).append more₅),
            participant_of_said hs ((hp'.append more₄).append more₅)⟩
        · subst hr'
          split
          · exact handles_replyError (by decide)
          rename_i hdone
          refine gives_reply fun text _ _ => ⟨c, m, target, u, now, hc, hm, htarget, ?_, s, s', ?_⟩
          · exact hu'.append _
          · simp [show b₄ = true by simpa using hdone]
      · exact handles_replyError (by decide)

theorem handles_listConversationMessages (hq : Quiet past) {payload : Json UInt8}
    (h : Admitted cfg req past payload) (convPart : Bytes) :
    Handles cfg tick req past (handleListConversationMessages_ cfg req convPart) fun past res =>
      res.status = 200 → ∃ c u msgs, parseId convPart = some c ∧ AdmittedAs cfg req past u ∧
        Said past (.isParticipant c u) (.ok true) ∧
        Said past (.getMessagesByConversationIdForUser c u) (.ok msgs) ∧
        (Json.arr (msgs.map messageJson)).dump = some res.body := by
  refine Yields.bind (handles_authenticatedUserId hq h) fun more r hr => ?_
  cases r with
  | none =>
      dsimp only
      exact handles_replyError (by decide)
  | some u =>
      obtain ⟨hq₁, hu⟩ := hr
      replace hu := hu u rfl
      dsimp only
      split
      · exact handles_replyError (by decide)
      · rename_i c hc
        refine gives_attempt (Yields.mono (handles_isParticipant hq₁) fun more₂ r hpart b hb => ?_)
        split
        · exact handles_replyError (by decide)
        rename_i hb'
        have hp := hpart.2 b hb (by simpa using hb')
        refine gives_attempt (gives_perform (fun s _ => trivial) fun s r s' _ _ msgs hr' => ?_)
        subst hr'
        refine gives_reply fun text htext _ =>
          ⟨c, u, msgs, hc, (hu.append more₂).append _, hp.append _, ⟨s, s', ?_⟩, htext⟩
        simp

/-- The sidecar's part calls for the message that was created only. -/
theorem handles_recordOnBlockchain {c m : UInt64} {payload : Bytes}
    (h : CreatedOnly cfg req past m) (hcreated : JustCreated past c m payload) :
    Handles cfg tick req past (recordOnBlockchain c m payload) fun _ _ => True := by
  refine Yields.tryCatch (gives_jsonGet fun body hbody => Yields.op_bind
    (fun _ _ => ⟨rfl, c, m, payload, h, hcreated, hbody⟩) fun s r s' _ _ => ?_)
    fun more e => Yields.pure trivial
  split
  · rename_i answer _
    refine gives_jsonGet fun j hj => gives_jsonGet fun pendingId hid =>
      Yields.op_bind (fun s₁ _ => ?_) fun s₁ r₁ s₂ _ _ => Yields.pure trivial
    exact ⟨h.snoc rfl _ s s', past, c, payload, body, answer, s, s', hcreated, hbody, rfl, j,
      pendingId, hj, hid, rfl⟩
  · exact Yields.pure trivial

/-- The recipient, as `MessageFields.Of` has it. -/
theorem handles_recipientOf (body : Json UInt8) :
    Handles cfg tick req past (recipientOf body) fun past' r => past' = past ∧
      ((field body "recipientId").isNull = true ∧ r = none ∨
        (field body "recipientId").isNull = false ∧
          ∃ u, (field body "recipientId").uint64? = some u ∧ r = some u) := by
  unfold recipientOf
  split
  · rename_i hnull
    exact Yields.pure ⟨rfl, .inl ⟨hnull, rfl⟩⟩
  · rename_i hnull
    refine gives_jsonGet fun u hu => Yields.pure ⟨rfl, .inr ⟨?_, u, hu, rfl⟩⟩
    simpa using hnull

theorem handles_isRecipient (hq : Quiet past) {c : UInt64} (recipient : Option UInt64) :
    Handles cfg tick req past (isRecipient c recipient) fun past b => Quiet past ∧
      (b = true → ∀ r ∈ recipient, Said past (.isParticipant c r) (.ok true)) := by
  cases recipient with
  | none => exact Yields.pure ⟨hq, by simp⟩
  | some r =>
      refine Yields.bind (handles_isParticipant hq) fun more x hx => ?_
      cases x with
      | error e => exact Yields.fail
      | ok b =>
          refine Yields.pure ⟨hx.1, fun hb r' hr' => ?_⟩
          cases hr'
          exact hx.2 b rfl hb

theorem handles_createMessage (hq : Quiet past) {payload : Json UInt8}
    (h : Admitted cfg req past payload) (convPart : Bytes) :
    Handles cfg tick req past (handleCreateMessage_ cfg req convPart) fun past res =>
      res.status = 201 → ∃ c f timestamp m, parseId convPart = some c ∧
        MessageFields.Of f req.body ∧ AdmittedAs cfg req past f.senderId ∧
        Said past (.createMessage c f.senderId f.payload timestamp f.recipientId
          (oneTimePreKeyIdFromPayload f.payload)) (.ok m) := by
  unfold handleCreateMessage_
  split
  · exact handles_replyError (by decide)
  rename_i c hc
  split
  · exact handles_replyError (by decide)
  rename_i body hbody
  split
  · exact handles_replyError (by decide)
  refine gives_jsonGet fun senderId hsender => gives_jsonGet fun text htext => ?_
  refine Yields.bind (handles_recipientOf body) fun more recipient hrecipient => ?_
  obtain ⟨hmore, hrecipient⟩ := hrecipient
  rw [hmore]
  split
  · exact handles_replyError (by decide)
  rename_i hlength
  refine Yields.bind (handles_authenticatedUserId hq h) fun more₁ r hr => ?_
  cases r with
  | none =>
      dsimp only
      exact handles_replyError (by decide)
  | some u =>
      obtain ⟨hq₁, hu⟩ := hr
      replace hu := hu u rfl
      dsimp only
      split
      · exact handles_replyError (by decide)
      rename_i hsame
      obtain rfl : u = senderId := by simpa using hsame
      refine gives_attempt (Yields.mono (handles_isParticipant hq₁) fun more₂ r hpart b hb => ?_)
      split
      · exact handles_replyError (by decide)
      rename_i hb'
      have hp := hpart.2 b hb (by simpa using hb')
      refine Yields.bind (handles_isRecipient hpart.1 recipient) fun more₃ b₂ hrec => ?_
      split
      · exact handles_replyError (by decide)
      rename_i hb₂
      have hp' := hrec.2 (by simpa using hb₂)
      refine Yields.bind (handles_nowMillis hrec.1) fun more₄ now hnow => ?_
      have hu' := ((hu.append more₂).append more₃).append more₄
      refine Yields.op_bind (fun s hs => ?_) fun s r s' hs _ => ?_
      · refine ⟨hnow.1, hu', participant_of_said hs ((hp.append more₃).append more₄),
          fun r hr => participant_of_said hs ((hp' r hr).append more₄), ?_, hnow.2, rfl⟩
        simp only [not_or, not_lt] at hlength
        exact ⟨List.length_pos_of_ne_nil hlength.1, hlength.2⟩
      · cases r with
        | error e =>
            cases e with
            | runtimeError what =>
                exact gives_reply fun _ _ hs => absurd (show 409 = 201 from hs) (by decide)
            | jsonError => exact Yields.fail
            | logicError => exact Yields.fail
        | ok m =>
            refine Yields.bind (handles_recordOnBlockchain ?_
              ⟨_, u, now, recipient, _, s, s', rfl⟩) fun more₅ digest _ => ?_
            · exact ⟨_, c, u, text, now, recipient, _, s, s', [], rfl, hnow.1, quiet_nil,
                hu'.append _, participant_of_said hs ((hp.append more₃).append more₄)⟩
            · refine gives_reply fun _ _ _ => ⟨c, ⟨u, text, recipient⟩, now, m, hc,
                ⟨body, hbody, hsender, htext, hrecipient⟩, (hu'.append _).append _, ?_⟩
              exact (said_last _ _ _ s s').append more₅

/-! ## Conversations and accounts -/

theorem handles_createConversation (hq : Quiet past) {payload : Json UInt8}
    (h : Admitted cfg req past payload) :
    Handles cfg tick req past (handleCreateConversation_ cfg req) fun _ _ => True := by
  refine Yields.bind (handles_authenticatedUserId hq h) fun more r hr => ?_
  cases r with
  | none =>
      dsimp only
      exact gives_reply fun _ _ => trivial
  | some u =>
      obtain ⟨hq₁, hu⟩ := hr
      replace hu := hu u rfl
      dsimp only
      split
      · exact gives_reply fun _ _ => trivial
      split
      · exact gives_reply fun _ _ => trivial
      refine gives_jsonGet fun name _ => ?_
      split
      · exact gives_reply fun _ _ => trivial
      refine gives_jsonGet fun entries _ => gives_jsonGet fun ids _ => ?_
      split
      · exact gives_reply fun _ _ => trivial
      rename_i hlength
      split
      · exact gives_reply fun _ _ => trivial
      rename_i hnodup
      split
      · exact gives_reply fun _ _ => trivial
      rename_i hmem
      refine gives_attempt (Yields.mono
        (handles_read (P := fun _ _ => True) hq₁ rfl (fun _ _ => trivial) fun _ _ _ _ => trivial)
        fun more₂ r hexist b _ => ?_)
      split
      · exact gives_reply fun _ _ => trivial
      refine gives_attempt (gives_perform (fun s _ => ?_) fun s r s' _ _ b' _ =>
        gives_reply fun _ _ => trivial)
      simp only [not_or, not_lt] at hlength
      exact ⟨hexist.1, by simpa using hnodup, ⟨List.length_pos_of_ne_nil hlength.1, hlength.2⟩, u,
        by simpa using hmem, hu.append more₂⟩

theorem handles_listUserConversations (hq : Quiet past) {payload : Json UInt8}
    (h : Admitted cfg req past payload) (idPart : Bytes) :
    Handles cfg tick req past (handleListUserConversations_ cfg req idPart) fun _ _ => True := by
  refine Yields.bind (handles_authenticatedUserId hq h) fun more r hr => ?_
  cases r with
  | none =>
      dsimp only
      exact gives_reply fun _ _ => trivial
  | some u =>
      dsimp only
      split
      · exact gives_reply fun _ _ => trivial
      split
      · exact gives_reply fun _ _ => trivial
      exact gives_attempt (gives_perform (fun _ _ => trivial) fun _ _ _ _ _ _ _ =>
        gives_reply fun _ _ => trivial)

/-- A session that is opened, and the response that carries its token. -/
theorem handles_createSession {userId : UInt64} {username : Bytes} {status : Nat}
    {body : Bytes → Json UInt8} (hwf : ∀ token, (body token).WF)
    (htoken : ∀ token, field (body token).norm "token" = .str token) :
    Handles cfg tick req past
      (do let sessionToken ← createSession cfg userId username
          reply status (body sessionToken))
      fun past res => ∀ token, tokenOf res.body = some token → OpenedSession cfg past token := by
  refine Yields.bind (P := fun past token => OpenedSession cfg past token) ?_
    fun more token hopened => ?_
  · refine Yields.op_bind (fun _ _ => trivial) fun s now s' _ _ => ?_
    cases htoken : createSession_ cfg.jwtSecret cfg.jwtTtlSeconds now userId username with
    | ok token =>
        exact Yields.pure ⟨⟨now, userId, username⟩, said_last past .epochSeconds now s s', htoken⟩
    | error e => exact Yields.fail
  · refine gives_reply fun text htext token' hof => ?_
    rw [tokenOf, Json.parse_dump htext (hwf token), Option.bind_some, htoken] at hof
    cases hof
    exact hopened

theorem handles_signup (hq : Quiet past) (h : endpointOf req.method req.path = some .signup) :
    Handles cfg tick req past (handleSignup_ cfg req) fun past res =>
      res.status = 201 → ∀ token, tokenOf res.body = some token → OpenedSession cfg past token := by
  refine Yields.op_bind (fun _ _ => trivial) fun s limited s' _ _ => ?_
  have hq₁ := hq.snoc (o := .isRateLimited req.remoteAddr) rfl limited s s'
  split
  · exact handles_replyError (by decide)
  split
  · exact handles_replyError (by decide)
  split
  · exact handles_replyError (by decide)
  refine gives_jsonGet fun username _ => gives_jsonGet fun password _ => gives_jsonGet
    fun publicKey _ => ?_
  split
  · exact handles_replyError (by decide)
  split
  · exact handles_replyError (by decide)
  split
  · exact handles_replyError (by decide)
  refine Yields.tryCatch (gives_attempt (Yields.mono
    (handles_read (P := fun _ _ => True) hq₁ rfl (fun _ _ => trivial) fun _ _ _ _ => trivial)
    fun more r hhash hash _ => gives_attempt (gives_perform (fun _ _ => ⟨h, hhash.1⟩)
      fun s₁ r₁ s₂ _ _ id _ => ?_))) fun more e => ?_
  · refine (handles_createSession (fun token => Json.wf_mkObj ?_) fun token => ?_).mono
      fun _ _ hopened _ => hopened
    · simp [Json.WF]
    · simp +decide [field, Json.norm_mkObj, Json.norm, Json.get?_mkObj, Json.lookup]
  · cases e with
    | runtimeError what => exact gives_reply fun _ _ hs => absurd hs (by decide : ¬ (409 : Nat) = 201)
    | jsonError => exact Yields.fail
    | logicError => exact Yields.fail

theorem handles_login : Handles cfg tick req past (handleLogin_ cfg req) fun past res =>
    res.status = 200 → ∀ token, tokenOf res.body = some token → OpenedSession cfg past token := by
  refine Yields.op_bind (fun _ _ => trivial) fun s limited s' _ _ => ?_
  split
  · exact handles_replyError (by decide)
  split
  · exact handles_replyError (by decide)
  split
  · exact handles_replyError (by decide)
  refine gives_jsonGet fun username _ => gives_jsonGet fun password _ => ?_
  split
  · exact handles_replyError (by decide)
  split
  · exact handles_replyError (by decide)
  refine gives_attempt (gives_perform (fun _ _ => trivial) fun s₁ r s₂ _ _ user _ => ?_)
  cases user with
  | none => exact handles_replyError (by decide)
  | some user =>
      dsimp only
      split
      · exact handles_replyError (by decide)
      refine (handles_createSession (fun token => Json.wf_mkObj ?_) fun token => ?_).mono
        fun _ _ hopened _ => hopened
      · simp [Json.WF]
      · simp +decide [field, Json.norm_mkObj, Json.norm, Json.get?_mkObj, Json.lookup]

theorem handles_logout (h : endpointOf req.method req.path = some .logout) :
    Handles cfg tick req past (handleLogout_ req) fun _ _ => True := by
  unfold handleLogout_
  cases hbearer : bearerToken req with
  | none => exact gives_reply fun _ _ => trivial
  | some token =>
      exact Yields.op_bind (fun _ _ => ⟨h, hbearer⟩) fun _ _ _ _ _ => gives_reply fun _ _ => trivial

theorem handles_listUsers : Handles cfg tick req past handleListUsers fun _ _ => True :=
  gives_attempt (gives_perform (fun _ _ => trivial) fun _ _ _ _ _ _ _ =>
    gives_reply fun _ _ => trivial)

theorem handles_publicKey (idPart : Bytes) :
    Handles cfg tick req past (handlePublicKey idPart) fun _ _ => True := by
  unfold handlePublicKey
  split
  · exact gives_reply fun _ _ => trivial
  refine gives_attempt (gives_perform (fun _ _ => trivial) fun _ _ _ _ _ x _ => ?_)
  cases x with
  | none => exact gives_reply fun _ _ => trivial
  | some publicKey => exact gives_reply fun _ _ => trivial

/-! ## Routes -/

/-- The endpoints that work under a token. -/
def Endpoint.NeedsToken : Endpoint → Prop
  | .createConversation => True
  | .createMessage _ => True
  | .deleteMessage .. => True
  | .revokeMessageAccess .. => True
  | .listUserConversations _ => True
  | .listConversationMessages _ => True
  | _ => False

/-- **Every handler keeps its contract**, when the filter chain has admitted the
request or its endpoint needs no token. -/
theorem handles_handle (hq : Quiet past) (e : Endpoint)
    (he : endpointOf req.method req.path = some e)
    (h : e.NeedsToken → ∃ payload, Admitted cfg req past payload) :
    Handles cfg tick req past (handle cfg req e) fun past res => Answered cfg req past res := by
  cases e with
  | signup => exact (handles_signup hq he).mono fun _ _ hres => by simpa only [Answered, he]
  | login => exact handles_login.mono fun _ _ hres => by simpa only [Answered, he]
  | logout => exact (handles_logout he).mono fun _ _ _ => by simp [Answered, he]
  | health => exact gives_reply fun _ _ => by simp [Answered, he]
  | api => exact gives_reply fun _ _ => by simp [Answered, he]
  | listUsers => exact handles_listUsers.mono fun _ _ _ => by simp [Answered, he]
  | publicKey id => exact (handles_publicKey id).mono fun _ _ _ => by simp [Answered, he]
  | createConversation =>
      obtain ⟨payload, hp⟩ := h trivial
      exact (handles_createConversation hq hp).mono fun _ _ _ => by simp [Answered, he]
  | listUserConversations id =>
      obtain ⟨payload, hp⟩ := h trivial
      exact (handles_listUserConversations hq hp id).mono fun _ _ _ => by simp [Answered, he]
  | createMessage conv =>
      obtain ⟨payload, hp⟩ := h trivial
      exact (handles_createMessage hq hp conv).mono fun _ _ hres => by simpa only [Answered, he]
  | deleteMessage conv msg =>
      obtain ⟨payload, hp⟩ := h trivial
      exact (handles_deleteMessage hq hp conv msg).mono fun _ _ hres => by
        simpa only [Answered, he]
  | revokeMessageAccess conv msg user =>
      obtain ⟨payload, hp⟩ := h trivial
      exact (handles_revokeMessageAccess hq hp conv msg user).mono fun _ _ hres => by
        simpa only [Answered, he]
  | listConversationMessages conv =>
      obtain ⟨payload, hp⟩ := h trivial
      exact (handles_listConversationMessages hq hp conv).mono fun _ _ hres => by
        simpa only [Answered, he]

/-- The paths of the endpoints that need a token. -/
def NeedsTokenPath (parts : List Bytes) : Prop :=
  (∃ rest, parts = [] :: bytes "conversations" :: rest) ∨
    ∃ id, parts = [[], bytes "users", id, bytes "conversations"]

omit [Primitives] [FloatFormat] in
theorem needsTokenPath_of_endpoint {method path : Bytes} {e : Endpoint}
    (he : endpointOf method path = some e) (h : e.NeedsToken) :
    NeedsTokenPath (pathParts path) := by
  unfold endpointOf at he
  split at he
  · unfold postRoute at he
    split at he
    · rename_i p hp
      split at he
      · cases he; cases h
      split at he
      · cases he; cases h
      split at he
      · cases he; cases h
      split at he
      · rename_i hc
        exact .inl ⟨[], by rw [hp, hc]⟩
      · cases he
    · rename_i c conv ms hp
      split at he
      · rename_i hc
        exact .inl ⟨_, by rw [hp, hc.1]⟩
      · cases he
    · cases he
  split at he
  · unfold deleteRoute at he
    split at he
    · rename_i hp
      split at he
      · rename_i hc
        exact .inl ⟨_, by rw [hp, hc.1]⟩
      · cases he
    · rename_i hp
      split at he
      · rename_i hc
        exact .inl ⟨_, by rw [hp, hc.1]⟩
      · cases he
    · cases he
  split at he
  · unfold getRoute at he
    split at he
    · split at he
      · cases he; cases h
      split at he
      · cases he; cases h
      split at he
      · cases he; cases h
      · cases he
    · rename_i first id last hp
      split at he
      · cases he; cases h
      split at he
      · rename_i hc
        exact .inr ⟨id, by rw [hp, hc.1, hc.2.2]⟩
      split at he
      · rename_i hc
        exact .inl ⟨_, by rw [hp, hc.1]⟩
      · cases he
    · cases he
  · cases he

omit [Primitives] [FloatFormat] in
/-- **No endpoint that needs a token is on a public path.** -/
theorem not_public {path : Bytes} (h : NeedsTokenPath (pathParts path)) :
    isPublicPath path = false := by
  have hne : bytes "users" ≠ bytes "conversations" := by decide
  have hne' : bytes "conversations" ≠ bytes "public-key" := by decide
  unfold isPublicPath
  rw [Bool.or_eq_false_iff]
  constructor
  · rw [Bool.eq_false_iff]
    intro hmem
    simp only [List.contains_iff_mem, List.mem_cons, List.not_mem_nil, or_false] at hmem
    have hparts : (pathParts path)[1]? ≠ some (bytes "conversations") ∧
        (pathParts path).length ≠ 4 := by
      rcases hmem with rfl | rfl | rfl | rfl | rfl <;> decide
    rcases h with ⟨rest, h⟩ | ⟨id, h⟩
    · exact hparts.1 (by rw [h]; rfl)
    · exact hparts.2 (by rw [h]; rfl)
  · rcases h with ⟨rest, h⟩ | ⟨id, h⟩
    · rw [h]
      split
      · rename_i heq
        cases heq
        simp [hne.symm]
      · rfl
    · rw [h]
      simp [hne']

/-- An error says nothing about the calls behind it. -/
theorem answered_of_error {res : Response} (h : 400 ≤ res.status) : Answered cfg req past res := by
  unfold Answered
  split <;> first | trivial | (intro hs; omega)

theorem handles_error {status : Nat} {text : String} (h : 400 ≤ status) :
    Handles cfg tick req past (replyError status text) fun past res => Answered cfg req past res :=
  gives_reply fun _ _ => answered_of_error h

theorem handles_serve (seen : Bytes) :
    Handles cfg tick req [] (serve cfg req seen) fun past res => Answered cfg req past res := by
  refine Yields.bind (handles_filterChain quiet_nil seen) fun more r hr => ?_
  obtain ⟨hq, hr⟩ := hr
  cases r with
  | some e => exact handles_error hr
  | none =>
      dsimp only
      unfold route
      split
      · rename_i e he
        exact handles_handle hq e he fun h => hr (not_public (needsTokenPath_of_endpoint he h))
      · exact Yields.pure (answered_of_error (by decide))

theorem handles_respond (seen : Bytes) :
    Handles cfg tick req [] (respond cfg req seen) fun past res => Answered cfg req past res := by
  refine Yields.bind (Yields.tryCatch (handles_serve seen) fun _ _ =>
    Yields.pure (answered_of_error (by decide))) fun more res hres => ?_
  split
  · exact Yields.tryCatch (gives_reply fun _ _ =>
      answered_of_error (show 400 ≤ 404 by decide)) fun _ _ =>
      Yields.pure (answered_of_error (by decide))
  · exact Yields.pure hres

/-! ## The resolver -/

/-- The resolver's own calls. -/
abbrev Resolves (cfg : Config) (tick : Clock → Clock → Prop) (past : Events) (p : Server α) : Prop :=
  Gives cfg tick (Pre cfg .resolver) past p fun _ _ => True

theorem resolves_update {m : UInt64} {digest : Bytes} (h : Resolved past m digest) :
    Resolves cfg tick past (attempt (perform (.updateMessageBlockchainDigest m digest))) :=
  Yields.bind (P := fun _ _ => True)
    (gives_perform (fun _ _ => .inr (.inr ⟨m, digest, rfl, h⟩)) fun _ _ _ _ _ => trivial)
    fun more r _ => by
      cases r with
      | ok a => exact Yields.pure trivial
      | error e => exact Yields.fail

theorem resolves_one {m : UInt64} {pendingId : Bytes} {pending : List (UInt64 × Bytes)}
    (hpending : Said past .getPendingBlockchainMessages (.ok pending))
    (hmem : (m, pendingId) ∈ pending) : Resolves cfg tick past (resolveOne m pendingId) := by
  refine Yields.tryCatch (Yields.op_bind (fun _ _ => .inl ⟨_, rfl⟩) fun s r s' _ _ => ?_)
    fun more e => Yields.pure trivial
  split
  · rename_i answer _
    have hanswer := said_last past (.sidecar (bytes "/pending/" ++ pendingId) [])
      (some (200, answer)) s s'
    refine gives_jsonGet fun json hjson => gives_jsonGet fun status hstatus => ?_
    split
    · rename_i hconfirmed
      subst hconfirmed
      exact gives_jsonGet fun txHash htx => resolves_update
        ⟨pending, pendingId, answer, hpending.append _, hmem, hanswer, json, hjson, .inl ⟨hstatus, htx⟩⟩
    split
    · rename_i hfailed
      subst hfailed
      exact resolves_update
        ⟨pending, pendingId, answer, hpending.append _, hmem, hanswer, json, hjson, .inr ⟨hstatus, rfl⟩⟩
    · exact Yields.pure trivial
  · exact Yields.pure trivial

theorem resolves_all {pending rest : List (UInt64 × Bytes)}
    (hpending : Said past .getPendingBlockchainMessages (.ok pending))
    (hrest : ∀ p ∈ rest, p ∈ pending) : Resolves cfg tick past (resolveAll rest) := by
  induction rest generalizing past with
  | nil => exact Yields.pure trivial
  | cons p rest ih =>
      obtain ⟨m, pendingId⟩ := p
      exact Yields.bind (resolves_one hpending (hrest _ (by simp))) fun more _ _ =>
        ih (hpending.append more) fun q hq => hrest q (List.mem_cons_of_mem _ hq)

theorem resolves_round : Resolves cfg tick past resolverRound := by
  refine gives_attempt (gives_perform (fun _ _ => .inr (.inl rfl)) fun s r s' _ _ pending hr => ?_)
  subst hr
  exact resolves_all (said_last past _ _ s s') fun _ h => h

end Handlers

/-! ## The contract -/

section Contract

variable [Primitives] [FloatFormat] (cfg : Config) (tick : Clock → Clock → Prop)

/-- What the server's programs are promised and promise, whatever the clocks do. -/
def serverContract : Contract (serverMachine cfg tick) (serverProgram cfg) where
  toShared := storeShared
  pre := Pre cfg
  post := Post cfg
  rely_refl s := evolves_refl s.store
  rely_trans := evolves_trans
  exec_ok hs hpre h := exec_ok cfg hs.1 hpre h
  env_ok hinv h := environment_ok hinv h
  restart_ok := by
    intro s s' hinv h
    rw [show s' = restartServer s from h]
    exact storeInv_initSchema_ hinv
  prog_ok t := by
    cases t with
    | request req seen =>
        have h : Handles cfg tick req [] (serverProgram cfg (.request req seen)) fun past x =>
            ∀ res, x = some res → Answered cfg req past res :=
          Yields.bind (handles_respond seen) fun more res hres => Yields.pure (by
            rintro res' ⟨⟩
            exact hres)
        exact wp_mono h.wp fun more x hx res hres => hx (some res) hres res rfl
    | resolver =>
        have h : Resolves cfg tick [] (serverProgram cfg .resolver) :=
          Yields.bind resolves_round fun more _ _ => Yields.pure trivial
        exact wp_mono h.wp fun _ _ _ => trivial

end Contract

end Kds
