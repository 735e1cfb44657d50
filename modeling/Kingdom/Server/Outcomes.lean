import Kingdom.Server.Bundle
import Kingdom.Server.Session

/-!
# A request under every outcome of its steps

One request runs alone, and each step that can fail has an outcome of its own: the
hash of a password, the two transactions that write for the request, the sidecar and
the signature of a token.

* `Commit` — how a transaction ends; the connection may be lost while the server waits
  for the answer to its commit.
* `Outcomes`, `answerAs` — the answers under given outcomes; `exec_answerAs` says they are
  among those of the machine; it must allow a commit in doubt if one is.
* `createSessionAs` — `createSession_` when `HMAC` succeeds or fails.
* `eval_reply` and the lemmas after it — what the helpers of the handlers return.
-/

namespace Kds

open Codec Process

/-- How a transaction ends. -/
inductive Commit where
  /-- Every statement runs, and the commit is acknowledged. -/
  | done
  /-- A statement or the commit fails, and nothing is written. -/
  | failed (what : Bytes)
  /-- The connection is lost after the commit. -/
  | inDoubt (what : Bytes)

/-- A transaction that ends so. -/
def Commit.apply {α : Type} (f : Except Exn (α × Store)) (s : ServerState) :
    Commit → Except Exn α × ServerState
  | .done => commit f s
  | .failed what => (.error (.runtimeError what), s)
  | .inDoubt what =>
      match f with
      | .ok (_, st) => (.error (.runtimeError what), { s with store := st })
      | .error e => (.error e, s)

/-- The outcomes of the steps that can fail. -/
structure Outcomes where
  /-- `crypto_pwhash_str` -/
  hash : Bytes → Option Bytes
  createUser : Commit
  createMessage : Commit
  /-- Does `HMAC` succeed? -/
  signs : Bool
  sidecar : Bytes → Bytes → Option (Nat × Bytes)

section Answers

variable [FloatFormat] (cfg : Config)

/-- The answers under these outcomes; the other operations do not fail. -/
def answerAs (out : Outcomes) : (o : Op) → ServerState → Res o × ServerState
  | .hashPassword password, s =>
      ((out.hash password).elim (.error (.runtimeError (bytes "Failed to hash password"))) .ok, s)
  | .createUser username hash publicKey, s =>
      out.createUser.apply (Database.createUser s.store username hash publicKey) s
  | .createMessage c sender payload timestamp recipient preKey, s =>
      out.createMessage.apply
        (Database.createMessage s.store c sender payload timestamp recipient preKey) s
  | .sidecar path body, s => (out.sidecar path body, s)
  | o, s => answer cfg o s

variable {cfg}

omit [FloatFormat] in
theorem Commit.transaction {α : Type} (f : Except Exn (α × Store)) (s : ServerState) {c : Commit}
    {d : Bool} (h : ∀ what, c = .inDoubt what → d = true) :
    Transaction d f s (c.apply f s).1 (c.apply f s).2 := by
  cases c with
  | done => exact transaction_commit d f s
  | failed what => exact .inr ⟨_, rfl, .inr ⟨what, rfl⟩, rfl⟩
  | inDoubt what =>
      cases f with
      | ok p => exact .inl ⟨p.1, p.2, rfl, rfl, .inr ⟨h what rfl, what, rfl⟩⟩
      | error e => exact .inr ⟨e, rfl, .inl rfl, rfl⟩

/-- These are answers of the machine, where a commit is in doubt only if it may be. -/
theorem exec_answerAs {out : Outcomes}
    (huser : ∀ what, out.createUser = .inDoubt what → cfg.inDoubt = true)
    (hmessage : ∀ what, out.createMessage = .inDoubt what → cfg.inDoubt = true) (o : Op)
    (s : ServerState) :
    exec cfg o s (answerAs cfg out o s).1 (answerAs cfg out o s).2 := by
  cases o with
  | hashPassword password =>
      refine ⟨rfl, ?_⟩
      show (∃ hash, Option.elim (out.hash password) _ _ = _) ∨ Option.elim (out.hash password) _ _ = _
      cases out.hash password with
      | none => exact Or.inr rfl
      | some hash => exact Or.inl ⟨hash, rfl⟩
  | createUser username hash publicKey => exact Commit.transaction _ s huser
  | createMessage c sender payload timestamp recipient preKey =>
      exact Commit.transaction _ s hmessage
  | sidecar path body => rfl
  | _ => exact exec_answer cfg _ s

end Answers

/-! ## What the helpers return -/

section Helpers

variable {answer : (o : Op) → ServerState → Res o × ServerState} {s : ServerState}

theorem eval_reply {body : Json UInt8} (h : body.Printable) (status : Nat) :
    ∃ text, (reply status body).eval answer s = (.ok ⟨status, text⟩, s) := by
  obtain ⟨text, htext⟩ := Json.exists_dump h
  refine ⟨text, ?_⟩
  rw [reply, jsonGet, htext]
  rfl

theorem printable_error {what : Bytes} (h : validUtf8 what = true) :
    (Json.mkObj [("error", .str what)] : Json UInt8).Printable := by
  apply Json.printable_mkObj
  intro p hp
  rw [List.mem_singleton.mp hp]
  exact h

theorem eval_jsonGet_bind {α β : Type} (x : Option α) (f : α → Server β) :
    (jsonGet x >>= f).eval answer s =
      match x with
      | some a => (f a).eval answer s
      | none => (.error .jsonError, s) := by
  cases x <;> rfl

theorem eval_perform_bind {β : Type} (o : Op) (f : Res o → Server β) :
    (perform o >>= f).eval answer s = (f (answer o s).1).eval answer (answer o s).2 := rfl

theorem eval_attempt_bind {α β : Type} (p : Server (Except Exn α)) (f : α → Server β) :
    (attempt p >>= f).eval answer s =
      match p.eval answer s with
      | (.ok (.ok a), s') => (f a).eval answer s'
      | (.ok (.error e), s') => (.error e, s')
      | (.error e, s') => (.error e, s') := by
  rw [Prog.eval_bind, attempt, Prog.eval_bind]
  cases p.eval answer s with
  | mk x s' =>
      cases x with
      | error e => rfl
      | ok y => cases y <;> rfl

end Helpers

section Sessions

variable [Primitives] [FloatFormat] (cfg : Config)

omit [FloatFormat] in
/-- A token is ASCII text. -/
theorem validUtf8_token {secret : Bytes} {ttl issuedAt userId : UInt64} {username token : Bytes}
    (h : createSession_ secret ttl issuedAt userId username = .ok token) :
    validUtf8 token = true := by
  obtain ⟨header, payload, -, -, rfl⟩ := createSession_ok h
  have hdot : dot < 0x80 := by decide
  have hascii : ∀ c ∈ signingInput header payload ++
      dot :: signJwtInput (signingInput header payload) secret, c < 0x80 := by
    intro c hc
    simp only [signingInput, signJwtInput, List.append_assoc, List.cons_append, List.mem_append,
      List.mem_cons] at hc
    rcases hc with hc | rfl | hc | rfl | hc
    exacts [Base64.urlEncode_ascii _ c hc, hdot, Base64.urlEncode_ascii _ c hc, hdot,
      Base64.urlEncode_ascii _ c hc]
  simpa using validUtf8_ascii (α := UInt8) hascii

omit [FloatFormat] in
/-- A session is created for a name that is valid UTF-8. -/
theorem eval_createSession {answer : (o : Op) → ServerState → Res o × ServerState}
    {s : ServerState} {username : Bytes} (hclock : (answer .epochSeconds s).2 = s)
    (h : validUtf8 username = true) (userId : UInt64) :
    ∃ token, validUtf8 token = true ∧
      (createSession cfg userId username).eval answer s = (.ok token, s) := by
  obtain ⟨token, htoken⟩ := createSession_utf8 h cfg.jwtSecret cfg.jwtTtlSeconds
    (answer .epochSeconds s).1 userId
  refine ⟨token, validUtf8_token htoken, ?_⟩
  rw [createSession, eval_perform_bind, Prog.eval_ofExcept, htoken, hclock]

/-- `createSession_` when `HMAC`, its last step, succeeds or fails. -/
def createSessionAs (signs : Bool) (userId : UInt64) (username : Bytes) : Server Bytes := do
  let issuedAt ← perform .epochSeconds
  let sessionToken ← Prog.ofExcept
    (createSession_ cfg.jwtSecret cfg.jwtTtlSeconds issuedAt userId username)
  if signs then return sessionToken else Prog.fail (.runtimeError (bytes "failed to sign JWT"))

omit [FloatFormat] in
theorem createSessionAs_true (userId : UInt64) (username : Bytes) :
    createSessionAs cfg true userId username = createSession cfg userId username := by
  refine congrArg (Prog.call Op.epochSeconds) (funext fun issuedAt => ?_)
  show (Prog.ofExcept (createSession_ cfg.jwtSecret cfg.jwtTtlSeconds issuedAt userId username) >>=
    fun sessionToken => Prog.pure sessionToken) = Prog.ofExcept _
  cases createSession_ cfg.jwtSecret cfg.jwtTtlSeconds issuedAt userId username <;> rfl

omit [FloatFormat] in
/-- A signature that fails is the last thing to happen. -/
theorem eval_createSessionAs_false {answer : (o : Op) → ServerState → Res o × ServerState}
    {s s' : ServerState} {userId : UInt64} {username token : Bytes}
    (h : (createSession cfg userId username).eval answer s = (.ok token, s')) :
    (createSessionAs cfg false userId username).eval answer s =
      (.error (.runtimeError (bytes "failed to sign JWT")), s') := by
  rw [createSession, eval_perform_bind, Prog.eval_ofExcept] at h
  obtain ⟨htoken, rfl⟩ := Prod.mk.inj h
  rw [createSessionAs, eval_perform_bind, Prog.eval_bind, Prog.eval_ofExcept, htoken]
  rfl

end Sessions

end Kds
