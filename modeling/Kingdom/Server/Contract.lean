import Kingdom.Server.Controller
import Kingdom.Server.StoreInv

/-!
# What the handlers may call

The assertions of the server's contract: the store invariant, what is never
undone, what holds at each call that writes, and what an answer says about the
calls behind it.

* `Admitted` — the filter chain saw a token that verifies and is not revoked.
* `Pre` — what holds when a handler calls an operation.
* `Answered` — what a request that was answered has called.
* `Wrote`, `exec_store` — the calls that change the store.
* `exec_ok`, `environment_ok` — calls and the environment keep the invariant.
-/

namespace Kds

open Codec Process

/-- The events of a server program. -/
abbrev Events := List (Event Op Res ServerState)

variable [Primitives] [FloatFormat] (cfg : Config)

/-! ## Assertions -/

/-- The calls that may change the store. -/
def Op.isWrite : Op → Bool
  | .createUser .. => true
  | .createConversation .. => true
  | .createMessage .. => true
  | .deleteMessage .. => true
  | .revokeMessageAccess .. => true
  | .updateMessageBlockchainDigest .. => true
  | _ => false

/-- None of the events may have changed the store. -/
def Quiet (past : Events) : Prop := ∀ e ∈ past, e.op.isWrite = false

/-- What is known of the shared state: the store invariant, and what is never
undone. -/
def storeShared : Shared ServerState where
  inv s := StoreInv s.store
  rely s s' := Evolves s.store s'.store

/-- The request carried a token that verified and was not revoked. -/
def Admitted (req : Request) (past : Events) (payload : Json UInt8) : Prop :=
  ∃ token now, bearerToken req = some token ∧ Said past .epochSeconds now ∧
    verifiedJwtPayload now token cfg.jwtSecret = .ok (some payload) ∧
    Said past (.isRevoked token) false

/-- The request carried such a token for the user `u`. -/
def AdmittedAs (req : Request) (past : Events) (u : UInt64) : Prop :=
  ∃ payload, Admitted cfg req past payload ∧ payloadUserId payload = some u

/-- The fields of a create-message request, as the handler reads them. -/
structure MessageFields where
  senderId : UInt64
  payload : Bytes
  recipientId : Option UInt64

/-- The body of a create-message request has these fields. -/
def MessageFields.Of (f : MessageFields) (body : Bytes) : Prop :=
  ∃ j : Json UInt8, Json.parse body = some j ∧
    (field j "senderId").uint64? = some f.senderId ∧ (field j "payload").str? = some f.payload ∧
    ((field j "recipientId").isNull = true ∧ f.recipientId = none ∨
      (field j "recipientId").isNull = false ∧
        ∃ r, (field j "recipientId").uint64? = some r ∧ f.recipientId = some r)

/-- The request created the message `m` for its user, and wrote nothing else. -/
def CreatedOnly (req : Request) (past : Events) (m : UInt64) : Prop :=
  ∃ before c sender payload timestamp recipient preKey s s' after,
    past = before ++
      ⟨.createMessage c sender payload timestamp recipient preKey, .ok m, s, s'⟩ :: after ∧
    Quiet before ∧ Quiet after ∧ AdmittedAs cfg req past sender ∧
    Database.isParticipant s.store c sender = true

/-- The last call of the request has created the message. -/
def JustCreated (past : Events) (c m : UInt64) (payload : Bytes) : Prop :=
  ∃ before sender timestamp recipient preKey s s', past =
    before ++ [⟨.createMessage c sender payload timestamp recipient preKey, .ok m, s, s'⟩]

/-- What the sidecar is asked to record of a message. -/
def recordBody (c m : UInt64) (payload : Bytes) : Option Bytes :=
  (Json.mkObj [("conversationId", .unsigned c), ("msgId", .unsigned m),
    ("ciphertext", .str payload)] : Json UInt8).dump

/-- The last call of the request has asked the sidecar to record the message it had just
created, and this is the digest for its answer. -/
def DigestOf (past : Events) (m : UInt64) (digest : Bytes) : Prop :=
  ∃ created c payload body answer s s', JustCreated created c m payload ∧
    recordBody c m payload = some body ∧
    past = created ++ [⟨.sidecar (bytes "/record") body, some (200, answer), s, s'⟩] ∧
    ∃ (j : Json UInt8) (pendingId : Bytes), Json.parse answer = some j ∧
      (field j "pendingId").str? = some pendingId ∧ digest = bytes "pending:" ++ pendingId

/-- The resolver has found the message pending, and this is the digest for what the
sidecar answered of it. -/
def Resolved (past : Events) (m : UInt64) (digest : Bytes) : Prop :=
  ∃ pending pendingId answer, Said past .getPendingBlockchainMessages (.ok pending) ∧
    (m, pendingId) ∈ pending ∧
    Said past (.sidecar (bytes "/pending/" ++ pendingId) []) (some (200, answer)) ∧
    ∃ j : Json UInt8, Json.parse answer = some j ∧
      ((field j "status").str? = some (bytes "confirmed") ∧ (field j "txHash").str? = some digest ∨
        (field j "status").str? = some (bytes "failed") ∧ digest = [])

/-- The token in the body of a response. -/
def tokenOf (body : Bytes) : Option Bytes :=
  (Json.parse body : Option (Json UInt8)).bind fun j => (field j "token").str?

/-- The request has issued the token. -/
def OpenedSession (past : Events) (token : Bytes) : Prop :=
  ∃ c : SessionCall, Said past .epochSeconds c.issuedAt ∧
    c.Returned cfg.jwtSecret cfg.jwtTtlSeconds token

/-- What holds when a request calls an operation. -/
def RequestPre (req : Request) (past : Events) (o : Op) (s : ServerState) : Prop :=
  match o with
  | .revoke token => endpointOf req.method req.path = some .logout ∧ bearerToken req = some token
  | .createUser .. => endpointOf req.method req.path = some .signup ∧ Quiet past
  | .createConversation _ ids => Quiet past ∧ ids.Nodup ∧ (1 ≤ ids.length ∧ ids.length ≤ 50) ∧
      ∃ u ∈ ids, AdmittedAs cfg req past u
  | .createMessage c sender payload timestamp recipient preKey =>
      Quiet past ∧ AdmittedAs cfg req past sender ∧
      Database.isParticipant s.store c sender = true ∧
      (∀ r ∈ recipient, Database.isParticipant s.store c r = true) ∧
      (1 ≤ payload.length ∧ payload.length ≤ 65536) ∧ timestamp.toNat < 2 ^ 63 ∧
      preKey = oneTimePreKeyIdFromPayload payload
  | .deleteMessage c _ sender =>
      Quiet past ∧ AdmittedAs cfg req past sender ∧
        Database.isParticipant s.store c sender = true
  | .revokeMessageAccess c _ sender target _ =>
      Quiet past ∧ AdmittedAs cfg req past sender ∧
        Database.isParticipant s.store c sender = true ∧
        Database.isParticipant s.store c target = true
  | .updateMessageBlockchainDigest m digest => CreatedOnly cfg req past m ∧ DigestOf past m digest
  | .sidecar path body => path = bytes "/record" ∧ ∃ c m payload, CreatedOnly cfg req past m ∧
      JustCreated past c m payload ∧ recordBody c m payload = some body
  | _ => True

/-- What holds when a task calls an operation; the resolver writes digests only. -/
def Pre : Task → Events → Op → ServerState → Prop
  | .request req _, past, o, s => RequestPre cfg req past o s
  | .resolver, past, o, _ =>
      (∃ pendingId, o = .sidecar (bytes "/pending/" ++ pendingId) []) ∨
        o = .getPendingBlockchainMessages ∨
        ∃ m digest, o = .updateMessageBlockchainDigest m digest ∧ Resolved past m digest

/-- What a request that was answered has called. -/
def Answered (req : Request) (past : Events) (res : Response) : Prop :=
  match endpointOf req.method req.path with
  | some .signup => res.status = 201 → ∀ token, tokenOf res.body = some token →
      OpenedSession cfg past token
  | some .login => res.status = 200 → ∀ token, tokenOf res.body = some token →
      OpenedSession cfg past token
  | some (.createMessage conv) => res.status = 201 →
      ∃ c f timestamp m, parseId conv = some c ∧ MessageFields.Of f req.body ∧
        AdmittedAs cfg req past f.senderId ∧
        Said past (.createMessage c f.senderId f.payload timestamp f.recipientId
          (oneTimePreKeyIdFromPayload f.payload)) (.ok m)
  | some (.deleteMessage conv msg) => res.status = 200 →
      ∃ c m u, parseId conv = some c ∧ parseId msg = some m ∧ AdmittedAs cfg req past u ∧
        Said past (.deleteMessage c m u) (.ok true)
  | some (.revokeMessageAccess conv msg user) => res.status = 200 →
      ∃ c m target u now, parseId conv = some c ∧ parseId msg = some m ∧
        parseId user = some target ∧ AdmittedAs cfg req past u ∧
        Said past (.revokeMessageAccess c m u target now) (.ok true)
  | some (.listConversationMessages conv) => res.status = 200 →
      ∃ c u msgs, parseId conv = some c ∧ AdmittedAs cfg req past u ∧
        Said past (.isParticipant c u) (.ok true) ∧
        Said past (.getMessagesByConversationIdForUser c u) (.ok msgs) ∧
        (Json.arr (msgs.map messageJson)).dump = some res.body
  | _ => True

/-- What holds when a task ends. -/
def Post : Task → Events → Except Exn (Option Response) → Prop
  | .request req _, past, x => ∀ res, x = .ok (some res) → Answered cfg req past res
  | .resolver, _, _ => True

section Facts

variable {cfg} {req : Request} {past : Events}

omit [Primitives] [FloatFormat] in
theorem quiet_nil : Quiet [] := by simp [Quiet]

omit [Primitives] [FloatFormat] in
theorem Quiet.snoc (h : Quiet past) {o : Op} (ho : o.isWrite = false) (r : Res o)
    (s s' : ServerState) : Quiet (past ++ [⟨o, r, s, s'⟩]) := by
  intro e he
  rcases List.mem_append.mp he with he | he
  · exact h e he
  · rw [List.mem_singleton.mp he]
    exact ho

theorem Admitted.append {payload : Json UInt8} (h : Admitted cfg req past payload)
    (more : Events) : Admitted cfg req (past ++ more) payload := by
  obtain ⟨token, now, h1, h2, h3, h4⟩ := h
  exact ⟨token, now, h1, h2.append more, h3, h4.append more⟩

theorem AdmittedAs.append {u : UInt64} (h : AdmittedAs cfg req past u) (more : Events) :
    AdmittedAs cfg req (past ++ more) u := by
  obtain ⟨payload, h1, h2⟩ := h
  exact ⟨payload, h1.append more, h2⟩

/-- A call that writes nothing keeps it so. -/
theorem CreatedOnly.snoc {m : UInt64} (h : CreatedOnly cfg req past m) {o : Op}
    (ho : o.isWrite = false) (r : Res o) (s s' : ServerState) :
    CreatedOnly cfg req (past ++ [⟨o, r, s, s'⟩]) m := by
  obtain ⟨before, c, sender, payload, timestamp, recipient, preKey, s₀, s₁, after, rfl, h1, h2, h3,
    h4⟩ := h
  exact ⟨before, c, sender, payload, timestamp, recipient, preKey, s₀, s₁, _, by simp, h1,
    h2.snoc ho r s s', h3.append _, h4⟩

end Facts

/-! ## Programs that yield -/

section Rules

variable {cfg} {tick : Clock → Clock → Prop} {pre : Events → Op → ServerState → Prop}
  {past : Events} {α β : Type}

/-- `Yields` on the server machine. -/
abbrev Gives (cfg : Config) (tick : Clock → Clock → Prop) (pre : Events → Op → ServerState → Prop)
    (past : Events) (p : Server α) (P : Events → α → Prop) : Prop :=
  Yields (serverMachine cfg tick) storeShared pre past p P

omit [Primitives] in
theorem gives_perform {o : Op} {P : Events → Res o → Prop}
    (hpre : ∀ s, Past (serverMachine cfg tick) storeShared past s → pre past o s)
    (h : ∀ s r s', Past (serverMachine cfg tick) storeShared past s → exec cfg o s r s' →
      P (past ++ [⟨o, r, s, s'⟩]) r) :
    Gives cfg tick pre past (perform o) P :=
  ⟨⟨hpre, fun s r s' hs hexec => (Yields.pure (h s r s' hs hexec)).wp⟩⟩

omit [Primitives] in
/-- A call that may throw, and what follows its answer. -/
theorem gives_attempt {p : Server (Except Exn α)} {f : α → Server β} {P : Events → β → Prop}
    (h : Gives cfg tick pre past p fun past r => ∀ a, r = .ok a → Gives cfg tick pre past (f a) P) :
    Gives cfg tick pre past (attempt p >>= f) P := by
  refine Yields.bind (P := fun past a => Gives cfg tick pre past (f a) P) ?_ fun more a ha => ha
  refine Yields.bind h fun more r hr => ?_
  cases r with
  | ok a => exact Yields.pure (hr a rfl)
  | error e => exact Yields.fail

omit [Primitives] in
theorem gives_jsonGet {x : Option α} {f : α → Server β} {P : Events → β → Prop}
    (h : ∀ a, x = some a → Gives cfg tick pre past (f a) P) :
    Gives cfg tick pre past (jsonGet x >>= f) P := by
  cases x with
  | none => exact Yields.fail
  | some a => exact h a rfl

omit [Primitives] in
theorem gives_reply {status : Nat} {body : Json UInt8} {P : Events → Response → Prop}
    (h : ∀ text, body.dump = some text → P past ⟨status, text⟩) :
    Gives cfg tick pre past (reply status body) P :=
  gives_jsonGet fun text ht => Yields.pure (h text ht)

end Rules

/-! ## What a call does to the store -/

section Writes

variable {s s' : ServerState} {α : Type}

omit [Primitives] [FloatFormat] in
theorem Transaction.of_ok {d : Bool} {f : Except Exn (α × Store)} {x : α}
    (h : Transaction d f s (.ok x) s') :
    f = .ok (x, s'.store) ∧ s' = { s with store := s'.store } := by
  rcases h with ⟨y, st, hf, rfl, hr | ⟨-, what, hr⟩⟩ | ⟨e, hr, -⟩
  · cases hr
    exact ⟨hf, rfl⟩
  · cases hr
  · cases hr

omit [Primitives] [FloatFormat] in
/-- A transaction that throws is rolled back, unless its commit is in doubt. -/
theorem Transaction.of_error {d : Bool} {f : Except Exn (α × Store)} {e : Exn}
    (h : Transaction d f s (.error e) s') :
    s' = s ∨ d = true ∧ ∃ x, f = .ok (x, s'.store) ∧ s' = { s with store := s'.store } := by
  rcases h with ⟨y, st, hf, rfl, hr | ⟨hd, -⟩⟩ | ⟨e, -, -, rfl⟩
  · cases hr
  · exact .inr ⟨hd, y, hf, rfl⟩
  · exact .inl rfl

omit [Primitives] [FloatFormat] in
/-- Where no commit is in doubt, a transaction that throws is rolled back. -/
theorem Transaction.of_throw {d : Bool} (hdoubt : d = false) {f : Except Exn (α × Store)} {e : Exn}
    (h : Transaction d f s (.error e) s') : s' = s := by
  rcases h.of_error with h | ⟨hd, -⟩
  · exact h
  · rw [hdoubt] at hd
    cases hd

omit [Primitives] [FloatFormat] in
/-- A transaction leaves the store, or writes what it is for; it answers that, unless its
commit is in doubt. -/
theorem Transaction.store {d : Bool} {f : Except Exn (α × Store)} {r : Except Exn α}
    (h : Transaction d f s r s') :
    s'.store = s.store ∨ ∃ x, f = .ok (x, s'.store) ∧ (d = false → r = .ok x) := by
  rcases h with ⟨x, st, hf, rfl, hr | ⟨hd, -⟩⟩ | ⟨e, -, -, rfl⟩
  · exact .inr ⟨x, hf, fun _ => hr⟩
  · exact .inr ⟨x, hf, fun hd' => by rw [hd'] at hd; cases hd⟩
  · exact .inl rfl

omit [Primitives] [FloatFormat] in
/-- A transaction touches nothing but the store. -/
theorem Transaction.frame {d : Bool} {f : Except Exn (α × Store)} {r : Except Exn α}
    (h : Transaction d f s r s') : s' = { s with store := s'.store } := by
  rcases h with ⟨x, st, -, rfl, -⟩ | ⟨e, -, -, rfl⟩
  · rfl
  · rfl

/-- The calls that change the store, with what they answered. -/
inductive Wrote (now : Int64) : (o : Op) → Res o → Store → Store → Prop where
  | createUser {name hash key id st st'} (h : Database.createUser st name hash key = .ok (id, st')) :
      Wrote now (.createUser name hash key) (.ok id) st st'
  | createConversation {name ids id st st'}
      (h : Database.createConversation st now name ids = .ok (id, st')) :
      Wrote now (.createConversation name ids) (.ok id) st st'
  | createMessage {c sender payload timestamp recipient preKey id st st'}
      (h : Database.createMessage st c sender payload timestamp recipient preKey = .ok (id, st')) :
      Wrote now (.createMessage c sender payload timestamp recipient preKey) (.ok id) st st'
  | deleteMessage {c m sender b st st'} (h : Database.deleteMessage st c m sender = (b, st')) :
      Wrote now (.deleteMessage c m sender) (.ok b) st st'
  | revokeMessageAccess {c m sender target at' b st st'}
      (h : Database.revokeMessageAccess st c m sender target at' = (b, st')) :
      Wrote now (.revokeMessageAccess c m sender target at') (.ok b) st st'
  | updateMessageBlockchainDigest {m digest st st'}
      (h : Database.updateMessageBlockchainDigest st m digest = st') :
      Wrote now (.updateMessageBlockchainDigest m digest) (.ok ()) st st'

variable {cfg}

omit [Primitives] in
/-- A call that does not write leaves the store alone. -/
theorem exec_read {o : Op} {r : Res o} (ho : o.isWrite = false) (h : exec cfg o s r s') :
    s'.store = s.store := by
  cases o with
  | epochSeconds => rw [h.2]
  | epochMillis => rw [h.2]
  | revoke token => rw [show s' = _ from h]
  | isRevoked token => rw [h.1]
  | isRateLimited ip => rw [h.2]
  | hashPassword password => rw [h.1]
  | getUserByUsername name => rw [h.1]
  | getAllUsers => rw [h.1]
  | getUserPublicKey u => rw [h.1]
  | usersExist us => rw [h.1]
  | getConversationsByUserId u => rw [h.1]
  | getMessagesByConversationIdForUser c u => rw [h.1]
  | getPendingBlockchainMessages => rw [h.1]
  | isParticipant c u => rw [h.1]
  | isMessageSender c m u => rw [h.1]
  | sidecar path body => rw [show s' = s from h]
  | _ => cases ho

omit [Primitives] in
/-- Only the blacklist and the rate limiter touch more than the store. -/
theorem exec_touches {o : Op} {r : Res o} (h : exec cfg o s r s') :
    (∃ t, o = .revoke t ∧
      s' = { s with tokens := TokenBlacklist.revoke (epochSeconds s.clock) t s.tokens }) ∨
    (∃ t, o = .isRevoked t ∧
      s' = { s with tokens := TokenBlacklist.pruneExpired_ (epochSeconds s.clock) s.tokens }) ∨
    (∃ ip, o = .isRateLimited ip ∧ s' = { s with
      rateLimitMap := (isRateLimited_ cfg.rateLimitMaxRequests s.steadyClock ip s.rateLimitMap).2 }) ∨
    s' = { s with store := s'.store } := by
  cases o with
  | revoke t => exact .inl ⟨t, rfl, h⟩
  | isRevoked t => exact .inr (.inl ⟨t, rfl, h.1⟩)
  | isRateLimited ip => exact .inr (.inr (.inl ⟨ip, rfl, h.2⟩))
  | epochSeconds | epochMillis => exact .inr (.inr (.inr (by rw [h.2])))
  | sidecar path body => exact .inr (.inr (.inr (by rw [show s' = s from h])))
  | createUser | createConversation | createMessage | deleteMessage | revokeMessageAccess
  | updateMessageBlockchainDigest => exact .inr (.inr (.inr (Transaction.frame h)))
  | _ => exact .inr (.inr (.inr (by rw [h.1])))

omit [Primitives] in
/-- **Every call leaves the store alone or is one of the six that write**, and these answer
what they have written, unless the commit is in doubt. -/
theorem exec_store {o : Op} {r : Res o} (h : exec cfg o s r s') :
    s'.store = s.store ∨ ∃ r', Wrote (bigint (epochMillis s.clock)) o r' s.store s'.store ∧
      (cfg.inDoubt = false → r = r') := by
  cases o with
  | createUser name hash key =>
      rcases Transaction.store h with h | ⟨id, hf, hr⟩
      · exact .inl h
      · exact .inr ⟨.ok id, .createUser hf, hr⟩
  | createConversation name ids =>
      rcases Transaction.store h with h | ⟨id, hf, hr⟩
      · exact .inl h
      · exact .inr ⟨.ok id, .createConversation hf, hr⟩
  | createMessage c sender payload timestamp recipient preKey =>
      rcases Transaction.store h with h | ⟨id, hf, hr⟩
      · exact .inl h
      · exact .inr ⟨.ok id, .createMessage hf, hr⟩
  | deleteMessage c m sender =>
      rcases Transaction.store h with h | ⟨b, hf, hr⟩
      · exact .inl h
      · exact .inr ⟨.ok b, .deleteMessage (Except.ok.inj hf), hr⟩
  | revokeMessageAccess c m sender target at' =>
      rcases Transaction.store h with h | ⟨b, hf, hr⟩
      · exact .inl h
      · exact .inr ⟨.ok b, .revokeMessageAccess (Except.ok.inj hf), hr⟩
  | updateMessageBlockchainDigest m digest =>
      rcases Transaction.store h with h | ⟨u, hf, hr⟩
      · exact .inl h
      · exact .inr ⟨.ok (), .updateMessageBlockchainDigest
          (congrArg Prod.snd (Except.ok.inj hf)), hr⟩
  | _ => exact .inl (exec_read rfl h)

omit [Primitives] in
/-- Where no commit is in doubt, a call that has written answers it. -/
theorem exec_store_answered {o : Op} {r : Res o} (hdoubt : cfg.inDoubt = false)
    (h : exec cfg o s r s') :
    s'.store = s.store ∨ Wrote (bigint (epochMillis s.clock)) o r s.store s'.store := by
  rcases exec_store h with heq | ⟨r', hw, hr⟩
  · exact .inl heq
  · exact .inr (hr hdoubt ▸ hw)

end Writes

/-! ## The store invariant is kept -/

/-- A call keeps the store invariant and undoes nothing, when it is made where
its precondition holds. -/
theorem exec_ok {t : Task} {past : Events} {o : Op} {s s' : ServerState} {r : Res o}
    (hinv : StoreInv s.store) (hpre : Pre cfg t past o s) (h : exec cfg o s r s') :
    StoreInv s'.store ∧ Evolves s.store s'.store := by
  rcases exec_store h with heq | ⟨r', hw, -⟩
  · rw [heq]
    exact ⟨hinv, evolves_refl _⟩
  · -- only requests write, but for the digests of the resolver
    cases t with
    | resolver =>
        rcases hpre with ⟨pendingId, rfl⟩ | rfl | ⟨m, digest, rfl, -⟩
        · cases hw
        · cases hw
        · cases hw with
          | updateMessageBlockchainDigest hd =>
              rw [← hd]
              exact ⟨storeInv_updateMessageBlockchainDigest hinv _ _,
                evolves_updateMessageBlockchainDigest _ _ _⟩
    | request req seen =>
        cases hw with
        | createUser hc => exact ⟨storeInv_createUser hinv hc, evolves_createUser hc⟩
        | createConversation hc =>
            obtain ⟨-, hnodup, hcount, -⟩ := hpre
            exact ⟨storeInv_createConversation hinv hc hnodup hcount,
              evolves_createConversation hinv hc⟩
        | createMessage hc =>
            obtain ⟨-, -, hsender, hrecipient, hpayload, htime, -⟩ := hpre
            exact ⟨storeInv_createMessage hinv hc hsender hrecipient hpayload htime,
              evolves_createMessage hc⟩
        | deleteMessage hd =>
            rw [show s'.store = _ from (congrArg Prod.snd hd).symm]
            exact ⟨storeInv_deleteMessage hinv _ _ _, evolves_deleteMessage _ _ _ _⟩
        | revokeMessageAccess hr =>
            rw [show s'.store = _ from (congrArg Prod.snd hr).symm]
            exact ⟨storeInv_revokeMessageAccess hinv _ _ _ _ _,
              evolves_revokeMessageAccess _ _ _ _ _ _⟩
        | updateMessageBlockchainDigest hd =>
            rw [← hd]
            exact ⟨storeInv_updateMessageBlockchainDigest hinv _ _,
              evolves_updateMessageBlockchainDigest _ _ _⟩

omit [Primitives] [FloatFormat] in
theorem environment_ok {tick : Clock → Clock → Prop} {s s' : ServerState}
    (hinv : StoreInv s.store) (h : Environment tick s s') :
    StoreInv s'.store ∧ Evolves s.store s'.store := by
  cases h with
  | clock => exact ⟨hinv, evolves_refl _⟩
  | steadyClock => exact ⟨hinv, evolves_refl _⟩
  | skipIds hu hc hm hu' hc' hm' =>
      exact ⟨storeInv_skip hinv hu hc hm hu' hc' hm',
        { evolves_refl s.store with
          userSeq := hu
          conversationSeq := hc
          messageSeq := hm
          messages := fun m hm _ => ⟨m, hm, rfl⟩ }⟩

end Kds
