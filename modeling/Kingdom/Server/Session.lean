import Kingdom.Process.Eval
import Kingdom.Process.History
import Kingdom.Server.Safety

/-!
# Sessions

The server run on one request after another, with a database that never fails
and a sidecar that is down, so that whole sessions can be computed.

* `answer` — the answers of that server; `exec_answer` says they are among those
  of the machine.
* `session` — the responses to a list of requests and the state they leave.
* `run_session` — the run of the server behind a session.
* `directedSession` — a session in which one of three users is left out of a
  message, with the store it leaves.
-/

namespace Kds

open Codec Process

/-- A transaction that is not disturbed. -/
def commit {α : Type} (f : Except Exn (α × Store)) (s : ServerState) :
    Except Exn α × ServerState :=
  match f with
  | .ok (x, st) => (.ok x, { s with store := st })
  | .error e => (.error e, s)

theorem transaction_commit {α : Type} (d : Bool) (f : Except Exn (α × Store)) (s : ServerState) :
    Transaction d f s (commit f s).1 (commit f s).2 := by
  cases f with
  | ok p => exact .inl ⟨p.1, p.2, rfl, rfl, .inl rfl⟩
  | error e => exact .inr ⟨e, rfl, .inl rfl, rfl⟩

section Answers

variable [FloatFormat] (cfg : Config)

/-- The answers when the database and the hash do not fail and the sidecar is down. -/
def answer : (o : Op) → ServerState → Res o × ServerState
  | .epochSeconds, s => (Kds.epochSeconds s.clock, s)
  | .epochMillis, s => (Kds.epochMillis s.clock, s)
  | .revoke token, s =>
      ((), { s with tokens := TokenBlacklist.revoke (Kds.epochSeconds s.clock) token s.tokens })
  | .isRevoked token, s =>
      let tokens := TokenBlacklist.pruneExpired_ (Kds.epochSeconds s.clock) s.tokens
      (TokenBlacklist.contains token tokens, { s with tokens := tokens })
  | .isRateLimited ip, s =>
      let r := isRateLimited_ cfg.rateLimitMaxRequests s.steadyClock ip s.rateLimitMap
      (r.1, { s with rateLimitMap := r.2 })
  | .hashPassword password, s => (.ok password, s)
  | .createUser username hash publicKey, s =>
      commit (Database.createUser s.store username hash publicKey) s
  | .getUserByUsername username, s => (.ok (Database.getUserByUsername s.store username), s)
  | .getAllUsers, s => (.ok (Database.getAllUsers s.store), s)
  | .getUserPublicKey u, s => (.ok (Database.getUserPublicKey s.store u), s)
  | .usersExist us, s => (.ok (Database.usersExist s.store us), s)
  | .createConversation name ids, s =>
      commit (Database.createConversation s.store (bigint (Kds.epochMillis s.clock)) name ids) s
  | .getConversationsByUserId u, s => (Database.getConversationsByUserId s.store u, s)
  | .createMessage c sender payload timestamp recipient preKey, s =>
      commit (Database.createMessage s.store c sender payload timestamp recipient preKey) s
  | .getMessagesByConversationIdForUser c u, s =>
      (Database.getMessagesByConversationIdForUser s.store c u, s)
  | .deleteMessage c m sender, s => commit (.ok (Database.deleteMessage s.store c m sender)) s
  | .revokeMessageAccess c m sender target at', s =>
      commit (.ok (Database.revokeMessageAccess s.store c m sender target at')) s
  | .updateMessageBlockchainDigest m digest, s =>
      commit (.ok ((), Database.updateMessageBlockchainDigest s.store m digest)) s
  | .getPendingBlockchainMessages, s => (.ok (Database.getPendingBlockchainMessages s.store), s)
  | .isParticipant c u, s => (.ok (Database.isParticipant s.store c u), s)
  | .isMessageSender c m sender, s => (.ok (Database.isMessageSender s.store c m sender), s)
  | .sidecar _ _, s => (none, s)

/-- The answers are among those of the machine. -/
theorem exec_answer (o : Op) (s : ServerState) :
    exec cfg o s (answer cfg o s).1 (answer cfg o s).2 := by
  cases o with
  | epochSeconds => exact ⟨rfl, rfl⟩
  | epochMillis => exact ⟨rfl, rfl⟩
  | revoke token => rfl
  | isRevoked token => exact ⟨rfl, rfl⟩
  | isRateLimited ip => exact ⟨rfl, rfl⟩
  | hashPassword password => exact ⟨rfl, .inl ⟨password, rfl⟩⟩
  | createUser name hash key => exact transaction_commit _ _ s
  | createConversation name ids => exact transaction_commit _ _ s
  | createMessage c sender payload timestamp recipient preKey => exact transaction_commit _ _ s
  | deleteMessage c m sender => exact transaction_commit _ _ s
  | revokeMessageAccess c m sender target at' => exact transaction_commit _ _ s
  | updateMessageBlockchainDigest m digest => exact transaction_commit _ _ s
  | sidecar path body => rfl
  | _ => exact ⟨rfl, .inl rfl⟩

end Answers

/-! ## Sessions -/

section Session

variable [Primitives] [FloatFormat] (cfg : Config)

/-- The response to a request, and the state it leaves; a request whose program
fails has no response. -/
def serveOne (s : ServerState) (req : Request) : Option Response × ServerState :=
  let r := (serverProgram cfg (.request req req.body)).eval (answer cfg) s
  (r.1.toOption.join, r.2)

/-- The responses to a list of requests, and the state they leave. -/
def session (s : ServerState) : List Request → List (Option Response) × ServerState
  | [] => ([], s)
  | req :: reqs =>
      let r := serveOne cfg s req
      let rest := session r.2 reqs
      (r.1 :: rest.1, rest.2)

/-- The programs that answered them. -/
def sessionThreads (s : ServerState) :
    List Request → List (Thread Op Res Exn ServerState (Option Response) Task)
  | [] => []
  | req :: reqs =>
      let p := serverProgram cfg (.request req req.body)
      ⟨.request req req.body, p.events (answer cfg) s, Prog.ended (p.eval (answer cfg) s).1⟩ ::
        sessionThreads (serveOne cfg s req).2 reqs

theorem task_sessionThreads (s : ServerState) (reqs : List Request) :
    (sessionThreads cfg s reqs).map (·.task) = reqs.map fun req => .request req req.body := by
  induction reqs generalizing s with
  | nil => rfl
  | cons req reqs ih => rw [sessionThreads, List.map_cons, List.map_cons, ih]

/-- Some request of the session makes a call of which `P` holds, in the state it is made in. -/
def sessionCalls (P : ServerState → (o : Op) → Res o → Prop) [∀ s o r, Decidable (P s o r)]
    (s : ServerState) (reqs : List Request) : Bool :=
  (sessionThreads cfg s reqs).any fun th => th.past.any fun e => P e.pre e.op e.res

variable {cfg} {tick : Clock → Clock → Prop}

/-- **A session is a run of the server**, with a step for each call it makes. -/
theorem run_session (reqs : List Request) (s : ServerState)
    (ths : List (Thread Op Res Exn ServerState (Option Response) Task)) :
    ∃ tr, ServerRun cfg tick ⟨s, ths⟩ tr
        ⟨(session cfg s reqs).2, ths ++ sessionThreads cfg s reqs⟩ ∧
      (∀ x ∈ tr, x.2 ≠ .restart) ∧
      ∀ (P : ServerState → (o : Op) → Res o → Prop) [∀ s o r, Decidable (P s o r)],
        sessionCalls cfg P s reqs = true ↔ ∃ x ∈ tr, x.2.IsCall (P x.1.state) := by
  have hanswer : ∀ o s, (serverMachine cfg tick).exec o s (answer cfg o s).1 (answer cfg o s).2 :=
    exec_answer cfg
  induction reqs generalizing s ths with
  | nil =>
      refine ⟨[], ?_, by simp, ?_⟩
      · simpa [sessionThreads] using .nil _
      · intro P _
        simp [sessionCalls, sessionThreads]
  | cons req reqs ih =>
      obtain ⟨tr₁, h₁, hsteps⟩ := Run.eval hanswer (.request req req.body) s ths
      obtain ⟨tr₂, h₂, hone, hcalls⟩ := ih (serveOne cfg s req).2 (ths ++ [_])
      rw [List.append_assoc, List.singleton_append] at h₂
      have hrun : ServerRun cfg tick _ (tr₁ ++ tr₂) _ := h₁.append h₂
      have hstep : ∀ Q : ServerState × Label Op Res Task → Prop, (∃ x ∈ tr₁, Q (x.1.state, x.2)) ↔
          Q (s, .start (.request req req.body)) ∨
            ∃ e ∈ (serverProgram cfg (.request req req.body)).events (answer cfg) s,
              Q (e.pre, .call ths.length e.op e.res) := by
        intro Q
        have hmap : (∃ x ∈ tr₁, Q (x.1.state, x.2)) ↔
            ∃ p ∈ tr₁.map (fun x => (x.1.state, x.2)), Q p := by
          simp only [List.mem_map, exists_exists_and_eq_and]
        rw [hmap, hsteps]
        simp only [List.mem_cons, List.mem_map, exists_eq_or_imp, exists_exists_and_eq_and]
      refine ⟨tr₁ ++ tr₂, hrun, List.forall_mem_append.mpr ⟨?_, hone⟩, ?_⟩
      · intro x hx hrestart
        simpa using (hstep (·.2 = .restart)).mp ⟨x, hx, hrestart⟩
      · intro P _
        rw [sessionCalls, sessionThreads, List.any_cons, Bool.or_eq_true, ← sessionCalls, hcalls]
        simp only [List.mem_append, or_and_right, exists_or, hstep fun p => p.2.IsCall (P p.1)]
        simp [Label.IsCall]

end Session

/-! ## Example requests -/

/-- A body with these fields. -/
def exampleBody (fields : List (String × Json UInt8)) : Bytes := ((Json.mkObj fields).dump).getD []

/-- A `POST` of these fields under a token. -/
def examplePost (token : Bytes) (path : String) (fields : List (String × Json UInt8)) : Request :=
  ⟨bytes "POST", bytes path, bytes "Bearer " ++ token, bytes "application/json", bytes "127.0.0.1",
    exampleBody fields⟩

/-- Sign up with a published bundle. -/
def exampleSignup (name : String) (publicKey : Bytes) : Request :=
  examplePost [] "/signup" [("username", .str (bytes name)),
    ("password", .str (bytes "Password12345")), ("publicKey", .str publicKey)]

/-- Requests one after another, each with the number of its calls. -/
def requestMoves (reqs : List (Request × Nat)) : List (Move Task) :=
  (reqs.zipIdx.map fun p =>
    .start (.request p.1.1 p.1.1.body) :: List.replicate p.1.2 (.call p.2)).flatten

/-- The token user 1 was issued at second 1000. -/
def aliceToken : Bytes :=
  exampleInput 1 (bytes "alice") ++ dot ::
    @signJwtInput examplePrimitives (exampleInput 1 (bytes "alice")) exampleSecret

/-! ## A session of three users -/

/-- Alice, Bob and Carol share a conversation, and Alice sends a message to Bob. -/
def directedSession : List Request :=
  [exampleSignup "alice" (bytes "a"), exampleSignup "bob" (bytes "b"),
    exampleSignup "carol" (bytes "c"),
    examplePost aliceToken "/conversations" [("name", .str (bytes "team")),
      ("participantIds", .arr [.unsigned 1, .unsigned 2, .unsigned 3])],
    examplePost aliceToken "/conversations/1/messages" [("senderId", .unsigned 1),
      ("payload", .str (bytes "for Bob")), ("recipientId", .unsigned 2)]]

/-- The server after `directedSession`. -/
def directedState : ServerState :=
  (@session examplePrimitives plainFloats exampleConfig (.initial 1000000) directedSession).2

/-- Its tables: Carol has no access row. -/
def directedStore : Store where
  users := [⟨1, bytes "alice", bytes "Password12345", bytes "a"⟩,
    ⟨2, bytes "bob", bytes "Password12345", bytes "b"⟩,
    ⟨3, bytes "carol", bytes "Password12345", bytes "c"⟩]
  conversations := [⟨1, bytes "team", 1000000⟩]
  participants := [⟨1, 1⟩, ⟨1, 2⟩, ⟨1, 3⟩]
  messages := [⟨1, 1, 1, bytes "for Bob", 1000000, []⟩]
  access := [⟨1, 1, 1, none⟩, ⟨1, 2, 1, none⟩]
  userSeq := 3
  conversationSeq := 1
  messageSeq := 1

/-- What the session leaves, and two of the calls it makes. -/
theorem directedSession_eval : letI := examplePrimitives; letI := plainFloats;
    directedState.store = directedStore ∧
      sessionCalls exampleConfig (fun _ o r => Kind.user.created o r = some 3) (.initial 1000000)
        directedSession = true ∧
      sessionCalls exampleConfig (fun _ o r => Kind.message.created o r = some 1) (.initial 1000000)
        directedSession = true := by
  decide +kernel

theorem store_directedState : directedState.store = directedStore := directedSession_eval.1

theorem run_directedState : ∃ tr ths, @ServerRun examplePrimitives plainFloats exampleConfig
    (fun _ _ => True) ⟨.initial 1000000, []⟩ tr ⟨directedState, ths⟩ ∧
      (∀ x ∈ tr, x.2 ≠ .restart) ∧
      ∀ (P : ServerState → (o : Op) → Res o → Prop) [∀ s o r, Decidable (P s o r)],
        @sessionCalls examplePrimitives plainFloats exampleConfig P _ (.initial 1000000)
          directedSession = true ↔ ∃ x ∈ tr, x.2.IsCall (P x.1.state) := by
  let _ := examplePrimitives
  let _ := plainFloats
  obtain ⟨tr, hrun, hone, hcalls⟩ := run_session directedSession (.initial 1000000) []
  rw [directedState]
  exact ⟨tr, _, hrun, hone, hcalls⟩

theorem mem_issuedIds {k : Kind} {tr : ServerTrace} {id : UInt64} :
    id ∈ issuedIds k tr ↔ ∃ x ∈ tr, x.2.IsCall fun o r => k.created o r = some id := by
  rw [issuedIds, List.mem_filterMap]
  refine exists_congr fun x => and_congr_right fun _ => ?_
  cases x.2 <;> simp [Kind.issued, Label.IsCall]

/-- The tables hold what the invariant is about, and three users have got ids. -/
theorem store_invariant_example : letI := examplePrimitives; letI := plainFloats; ∃ tr w,
    ServerRun exampleConfig (fun _ _ => True) ⟨.initial 1000000, []⟩ tr w ∧
      w.state.store = directedStore ∧ 3 ∈ issuedIds .user tr ∧ 1 ∈ issuedIds .message tr ∧
      StoreInv directedStore ∧ ∀ k, (issuedIds k tr).Nodup := by
  let _ := examplePrimitives
  let _ := plainFloats
  obtain ⟨hstore, huser, hmessage⟩ := directedSession_eval
  obtain ⟨tr, ths, hrun, -, hcalls⟩ := run_directedState
  have hinv := store_invariant hrun
  refine ⟨tr, ⟨directedState, ths⟩, hrun, hstore, mem_issuedIds.mpr ((hcalls _).mp huser),
    mem_issuedIds.mpr ((hcalls _).mp hmessage), ?_, hinv.2⟩
  rw [← hstore]
  exact hinv.1

end Kds
