import Kingdom.Server.Answers

/-!
# Which requests are answered 409

A signup and the creation of a message answer 409 in one `catch` of
`std::runtime_error`, whatever threw it.

* `Conflicts` — the answer is 409.
* `AsksToSignUp`, `RejectedAsTaken`, `SignupConflict` — a signup that passes the checks,
  an insert that violates the uniqueness of the names, and what a 409 is to say about it.
* `messageConflict_iff` — when the creation of a message is answered 409.
* `conflict_iff` — the outcomes under which 409 means a conflict and nothing else.
-/

namespace Kds

open Codec Process

/-- The answer is 409. -/
def Conflicts (x : Except Exn Response) : Prop := ∃ res, x = .ok res ∧ res.status = 409

theorem not_conflicts_error (e : Exn) : ¬ Conflicts (.error e) := by
  rintro ⟨res, h, -⟩
  cases h

theorem not_conflicts_ok {res : Response} (h : res.status ≠ 409) : ¬ Conflicts (.ok res) := by
  rintro ⟨res', hres, hstatus⟩
  cases hres
  exact h hstatus

theorem conflicts_of_status {x : Except Exn Response}
    (h : x.toOption.map (·.status) = some 409) : Conflicts x := by
  cases x with
  | error e => cases h
  | ok res => exact ⟨res, rfl, Option.some.inj h⟩

theorem dump_error {what : Bytes} (h : validUtf8 what = false) :
    (Json.mkObj [("error", .str what)] : Json UInt8).dump = none := by
  have hobj : (Json.mkObj [("error", .str what)] : Json UInt8) =
      .obj [(bytes "error", .str what)] := by
    simp [Json.mkObj, Json.ofFields, Json.insertField]
  simp [hobj, Json.dump, Json.dumpWith, Json.dumpFields, Json.dumpString, h]

/-- The text of an exception is answered when it is UTF-8; `dump` throws otherwise. -/
theorem conflicts_reply_iff {answer : (o : Op) → ServerState → Res o × ServerState}
    {s : ServerState} {what : Bytes} :
    Conflicts ((reply 409 (.mkObj [("error", .str what)])).eval answer s).1 ↔
      validUtf8 what = true := by
  cases h : validUtf8 what with
  | true =>
      have hreply : ∃ text, (reply 409 (.mkObj [("error", .str what)])).eval answer s =
          (.ok ⟨409, text⟩, s) := eval_reply (printable_error h) 409
      obtain ⟨text, htext⟩ := hreply
      rw [htext]
      exact iff_of_true ⟨_, rfl, rfl⟩ rfl
  | false =>
      rw [reply, eval_jsonGet_bind, dump_error h]
      exact iff_of_false (not_conflicts_error _) (by simp)

/-! ## Signup -/

section Signup

variable [Primitives] [FloatFormat]

/-- A signup that passes the rate limit and the checks of the fields. -/
structure AsksToSignUp (cfg : Config) (s : ServerState) (req : Request)
    (username password publicKey : Bytes) : Prop where
  limit : ¬ Limited cfg s req
  fields : ∃ body, BodyHas req ["username", "password", "publicKey"] body ∧
    (field body "username").str? = some username ∧
    (field body "password").str? = some password ∧
    (field body "publicKey").str? = some publicKey
  username : username ≠ [] ∧ username.length ≤ 64
  password : isValidSignupPassword password = true
  publicKey : publicKey ≠ [] ∧ publicKey.length ≤ 8192

/-- The insert of the user was rejected because the name is taken. -/
def RejectedAsTaken (out : Outcomes) (st : Store) (username password publicKey : Bytes) : Prop :=
  ∃ hash, out.hash password = some hash ∧ (∀ what, out.createUser ≠ .failed what) ∧
    Database.createUser st username hash publicKey =
      .error (.runtimeError (bytes "Username already taken"))

/-- **409 means a conflict**, for a signup: it is answered exactly when the insert was
rejected because the name is taken, and never when a user was created. -/
def SignupConflict (out : Outcomes) (s : ServerState) (username password publicKey : Bytes)
    (x : Except Exn Response × ServerState) : Prop :=
  (Conflicts x.1 ↔ RejectedAsTaken out s.store username password publicKey) ∧
    (Conflicts x.1 → x.2.store.users = s.store.users)

/-- A row of the store has the name. -/
def Taken (st : Store) (username : Bytes) : Prop := ∃ u ∈ st.users, u.username = username

/-- The sequence of the users has an id left. -/
def UserRoom (st : Store) : Prop := st.userSeq + 1 < 2 ^ 63

/-- The outcomes of a signup under which 409 means a conflict: the password is hashed;
the insert is executed, and unless the name is taken it is committed, acknowledged, and
the token is signed. -/
def SignupOutcome (out : Outcomes) (st : Store) (username password : Bytes) : Prop :=
  (out.hash password).isSome = true ∧
    match out.createUser with
    | .done => UserRoom st ∧ (Taken st username ∨ out.signs = true)
    | .failed what => validUtf8 what = false
    | .inDoubt what => UserRoom st ∧ (Taken st username ∨ validUtf8 what = false)

end Signup

/-! ## What the database does -/

/-- A statement that throws ends the transaction the same way. -/
theorem Commit.apply_error {α : Type} {c : Commit} (hc : ∀ what, c ≠ .failed what) (e : Exn)
    (s : ServerState) : c.apply (.error e : Except Exn (α × Store)) s = (.error e, s) := by
  cases c with
  | failed what => exact absurd rfl (hc what)
  | done => rfl
  | inDoubt what => rfl

section Users

variable {st : Store} {username hash publicKey : Bytes}

theorem createUser_full (h : ¬ UserRoom st) :
    Database.createUser st username hash publicKey = .error constraintViolation := by
  have hseq : nextval st.userSeq = .error constraintViolation := if_neg h
  rw [Database.createUser, hseq]
  rfl

theorem createUser_taken (hroom : UserRoom st) (h : Taken st username) :
    Database.createUser st username hash publicKey =
      .error (.runtimeError (bytes "Username already taken")) := by
  have hany : st.users.any (·.username = username) = true := by
    obtain ⟨u, hu, hname⟩ := h
    exact List.any_eq_true.mpr ⟨u, hu, by simpa using hname⟩
  have hseq : nextval st.userSeq = .ok (Int64.ofNat (st.userSeq + 1)) := if_pos hroom
  rw [Database.createUser, hseq]
  simp only [hany, if_true]
  rfl

theorem createUser_new (hash publicKey : Bytes) (hroom : UserRoom st)
    (h : ¬ Taken st username) :
    ∃ id row, Database.createUser st username hash publicKey =
      .ok (id, { st with users := st.users ++ [row], userSeq := st.userSeq + 1 }) := by
  have hany : st.users.any (·.username = username) = false := by
    simpa [Taken] using h
  have hseq : nextval st.userSeq = .ok (Int64.ofNat (st.userSeq + 1)) := if_pos hroom
  rw [Database.createUser, hseq]
  simp only [hany]
  exact ⟨_, _, rfl⟩

/-- The insert is rejected as a duplicate exactly when an id is left and the name is taken. -/
theorem createUser_taken_iff :
    Database.createUser st username hash publicKey =
      .error (.runtimeError (bytes "Username already taken")) ↔ UserRoom st ∧ Taken st username := by
  by_cases hroom : UserRoom st
  · by_cases htaken : Taken st username
    · exact iff_of_true (createUser_taken hroom htaken) ⟨hroom, htaken⟩
    · obtain ⟨id, row, hnew⟩ := createUser_new hash publicKey hroom htaken
      rw [hnew]
      exact iff_of_false (by simp) fun h => htaken h.2
  · rw [createUser_full hroom]
    refine iff_of_false ?_ fun h => hroom h.1
    intro h
    have := Exn.runtimeError.inj (Except.error.inj h)
    exact absurd this (by decide +kernel)

end Users

section Signup

variable [Primitives] [FloatFormat] {cfg : Config} {s : ServerState} {req : Request}
  {out : Outcomes} {username password publicKey : Bytes}

omit [Primitives] in
theorem eval_signupUser_unhashed (createSession : UInt64 → Bytes → Server Bytes)
    (h : out.hash password = none) :
    (signupUser createSession username password publicKey).eval (answerAs cfg out) s =
      (reply 409 (.mkObj [("error", .str (bytes "Failed to hash password"))])).eval
        (answerAs cfg out) s := by
  have hhashed : (perform (.hashPassword password)).eval (answerAs cfg out) s =
      (.ok ((out.hash password).elim (.error (.runtimeError (bytes "Failed to hash password"))) .ok),
        s) := rfl
  unfold signupUser
  rw [Prog.eval_tryCatch, eval_attempt_bind, hhashed, h]
  rfl

omit [Primitives] in
/-- An insert that throws is answered with the text of the exception. -/
theorem eval_signupUser_error (createSession : UInt64 → Bytes → Server Bytes) {hash what : Bytes}
    {s' : ServerState} (h : out.hash password = some hash)
    (hinsert : out.createUser.apply (Database.createUser s.store username hash publicKey) s =
      (.error (.runtimeError what), s')) :
    (signupUser createSession username password publicKey).eval (answerAs cfg out) s =
      (reply 409 (.mkObj [("error", .str what)])).eval (answerAs cfg out) s' := by
  have hhashed : (perform (.hashPassword password)).eval (answerAs cfg out) s =
      (.ok ((out.hash password).elim (.error (.runtimeError (bytes "Failed to hash password"))) .ok),
        s) := rfl
  have hcreated : (perform (.createUser username hash publicKey)).eval (answerAs cfg out) s =
      (.ok (out.createUser.apply (Database.createUser s.store username hash publicKey) s).1,
        (out.createUser.apply (Database.createUser s.store username hash publicKey) s).2) := rfl
  unfold signupUser
  rw [Prog.eval_tryCatch, eval_attempt_bind, hhashed, h]
  dsimp only [Option.elim_some]
  rw [eval_attempt_bind, hcreated, hinsert]

/-- After an acknowledged insert only the signature can fail. -/
theorem eval_signupUser_ok {hash : Bytes} {userId : UInt64} {s' : ServerState}
    (husername : validUtf8 username = true) (hkey : validUtf8 publicKey = true)
    (h : out.hash password = some hash)
    (hinsert : out.createUser.apply (Database.createUser s.store username hash publicKey) s =
      (.ok userId, s')) :
    ∃ res, (signupUser (createSessionAs cfg out.signs) username password publicKey).eval
        (answerAs cfg out) s = (.ok res, s') ∧ (res.status = 409 ↔ out.signs = false) := by
  have hhashed : (perform (.hashPassword password)).eval (answerAs cfg out) s =
      (.ok ((out.hash password).elim (.error (.runtimeError (bytes "Failed to hash password"))) .ok),
        s) := rfl
  have hcreated : (perform (.createUser username hash publicKey)).eval (answerAs cfg out) s =
      (.ok (out.createUser.apply (Database.createUser s.store username hash publicKey) s).1,
        (out.createUser.apply (Database.createUser s.store username hash publicKey) s).2) := rfl
  obtain ⟨token, htoken, heval⟩ : ∃ token, validUtf8 token = true ∧
      (createSession cfg userId username).eval (answerAs cfg out) s' = (.ok token, s') :=
    eval_createSession cfg rfl husername userId
  unfold signupUser
  rw [Prog.eval_tryCatch, eval_attempt_bind, hhashed, h]
  dsimp only [Option.elim_some]
  rw [eval_attempt_bind, hcreated, hinsert]
  dsimp only
  rw [Prog.eval_bind]
  cases hsigns : out.signs with
  | true =>
      have hbody : (Json.mkObj [("id", .unsigned userId), ("username", .str username),
          ("publicKey", .str publicKey), ("token", .str token),
          ("sessionToken", .str token)] : Json UInt8).Printable :=
        Json.printable_mkObj (by simp [Json.Printable, husername, hkey, htoken])
      obtain ⟨text, htext⟩ := @eval_reply (answerAs cfg out) s' _ hbody 201
      rw [createSessionAs_true, heval]
      dsimp only
      rw [htext]
      exact ⟨_, rfl, by simp⟩
  | false =>
      obtain ⟨text, htext⟩ : ∃ text,
          (reply 409 (.mkObj [("error", .str (bytes "failed to sign JWT"))])).eval
            (answerAs cfg out) s' = (.ok ⟨409, text⟩, s') :=
        eval_reply (printable_error (validUtf8_bytes _)) 409
      rw [eval_createSessionAs_false cfg heval]
      exact ⟨_, htext, by simp⟩

/-- An exception of the insert, answered in the state it leaves. -/
theorem signupConflict_of_error {hash what : Bytes} {s' : ServerState}
    (h : out.hash password = some hash)
    (hinsert : out.createUser.apply (Database.createUser s.store username hash publicKey) s =
      (.error (.runtimeError what), s')) :
    SignupConflict out s username password publicKey
        ((signupUser (createSessionAs cfg out.signs) username password publicKey).eval
          (answerAs cfg out) s) ↔
      (validUtf8 what = true ↔ RejectedAsTaken out s.store username password publicKey) ∧
        (validUtf8 what = true → s'.store.users = s.store.users) := by
  have hstate : ((reply 409 (.mkObj [("error", .str what)])).eval (answerAs cfg out) s').2 = s' := by
    rw [reply, eval_jsonGet_bind]
    split <;> rfl
  rw [SignupConflict, eval_signupUser_error _ h hinsert, conflicts_reply_iff, hstate]

/-- **Signup**, after the checks. -/
theorem signupConflict_iff (husername : validUtf8 username = true)
    (hkey : validUtf8 publicKey = true) :
    SignupConflict out s username password publicKey
        ((signupUser (createSessionAs cfg out.signs) username password publicKey).eval
          (answerAs cfg out) s) ↔
      SignupOutcome out s.store username password := by
  cases hhash : out.hash password with
  | none =>
      have hrejected : ¬ RejectedAsTaken out s.store username password publicKey := by
        rintro ⟨hash, hsome, -⟩
        cases hhash.symm.trans hsome
      have hconflict : Conflicts ((signupUser (createSessionAs cfg out.signs) username password
          publicKey).eval (answerAs cfg out) s).1 := by
        rw [eval_signupUser_unhashed _ hhash]
        exact conflicts_reply_iff.mpr (validUtf8_bytes _)
      refine iff_of_false (fun h => hrejected (h.1.mp hconflict)) fun h => ?_
      have hsome := h.1
      rw [hhash] at hsome
      cases hsome
  | some hash =>
      have hrejected : RejectedAsTaken out s.store username password publicKey ↔
          (∀ what, out.createUser ≠ .failed what) ∧ UserRoom s.store ∧ Taken s.store username := by
        unfold RejectedAsTaken
        rw [hhash]
        simp [createUser_taken_iff]
      unfold SignupOutcome
      rw [hhash]
      by_cases hfailed : ∀ what, out.createUser ≠ .failed what
      · by_cases hroom : UserRoom s.store
        · by_cases htaken : Taken s.store username
          · have hinsert : out.createUser.apply
                (Database.createUser s.store username hash publicKey) s =
                (.error (.runtimeError (bytes "Username already taken")), s) := by
              rw [createUser_taken hroom htaken]
              exact Commit.apply_error hfailed _ s
            rw [signupConflict_of_error hhash hinsert, hrejected]
            cases hcommit : out.createUser with
            | failed what => exact absurd hcommit (hfailed what)
            | done => simp [hroom, htaken, validUtf8_bytes]
            | inDoubt what => simp [hroom, htaken, validUtf8_bytes]
          · obtain ⟨id, row, hnew⟩ := createUser_new hash publicKey hroom htaken
            cases hcommit : out.createUser with
            | failed what => exact absurd hcommit (hfailed what)
            | done =>
                have hinsert : out.createUser.apply
                    (Database.createUser s.store username hash publicKey) s =
                    commit (Database.createUser s.store username hash publicKey) s := by
                  rw [hcommit]
                  rfl
                obtain ⟨res, hres, hstatus⟩ := eval_signupUser_ok husername hkey hhash
                  (hinsert.trans (congrArg (fun f => commit f s) hnew))
                have hconflicts : Conflicts (.ok res) ↔ out.signs = false := by
                  rw [← hstatus]
                  exact ⟨fun ⟨_, h, hs⟩ => by cases h; exact hs, fun h => ⟨res, rfl, h⟩⟩
                rw [SignupConflict, hres, hrejected, hconflicts]
                cases out.signs <;> simp [hroom, htaken]
            | inDoubt what =>
                have hinsert : out.createUser.apply
                    (Database.createUser s.store username hash publicKey) s =
                    (.error (.runtimeError what), { s with store := { s.store with
                      users := s.store.users ++ [row], userSeq := s.store.userSeq + 1 } }) := by
                  rw [hcommit, hnew]
                  rfl
                rw [signupConflict_of_error hhash hinsert, hrejected]
                simp [hroom, htaken]
        · have hinsert : out.createUser.apply
              (Database.createUser s.store username hash publicKey) s =
              (.error constraintViolation, s) := by
            rw [createUser_full hroom]
            exact Commit.apply_error hfailed _ s
          rw [signupConflict_of_error hhash hinsert, hrejected]
          cases hcommit : out.createUser with
          | failed what => exact absurd hcommit (hfailed what)
          | done => simp [hroom, validUtf8_bytes]
          | inDoubt what => simp [hroom, validUtf8_bytes]
      · obtain ⟨what, hcommit⟩ : ∃ what, out.createUser = .failed what := by simpa using hfailed
        have hinsert : out.createUser.apply (Database.createUser s.store username hash publicKey)
            s = (.error (.runtimeError what), s) := by
          rw [hcommit]
          rfl
        rw [signupConflict_of_error hhash hinsert, hrejected, hcommit]
        simp
end Signup

/-! ## Creating a message -/

section Messages

variable [FloatFormat]

/-- The sequence of the messages has an id left. -/
def MessageRoom (st : Store) : Prop := st.messageSeq + 1 < 2 ^ 63

/-- The outcomes of the transaction of a message under which 409 means a conflict: it is
executed, committed and acknowledged, unless a prekey is missing from a bundle that reads. -/
def MessageOutcome (out : Outcomes) (st : Store) (sender : UInt64) (payload : Bytes)
    (recipient : Option UInt64) : Prop :=
  match out.createMessage with
  | .failed what => validUtf8 what = true ↔ PreKeyMissing st sender payload recipient
  | .done =>
      (PreKeyMissing st sender payload recipient → BundleReads st sender payload recipient) ∧
        (¬ PreKeyMissing st sender payload recipient →
          BundleReads st sender payload recipient → MessageRoom st)
  | .inDoubt what =>
      (PreKeyMissing st sender payload recipient → BundleReads st sender payload recipient) ∧
        (¬ PreKeyMissing st sender payload recipient →
          BundleReads st sender payload recipient → MessageRoom st ∧ validUtf8 what = false)

/-- The references of a message that the participant checks found. -/
structure Referenced (st : Store) (conv sender : UInt64) (recipient : Option UInt64) : Prop where
  conversation : st.hasConversation (bigint conv) = true
  sender : st.hasUser (bigint sender) = true
  recipient : (recipient.all fun r => st.hasUser (bigint r)) = true

variable {cfg : Config} {s : ServerState} {out : Outcomes} {st : Store} {conv sender : UInt64}
  {payload : Bytes} {recipient : Option UInt64}

omit [FloatFormat] in
theorem Referenced.of_participants (hinv : StoreInv st)
    (hsender : Database.isParticipant st conv sender = true)
    (hrecipient : ∀ r, recipient = some r → Database.isParticipant st conv r = true) :
    Referenced st conv sender recipient := by
  have hrefs : ∀ u, Database.isParticipant st conv u = true →
      st.hasConversation (bigint conv) = true ∧ st.hasUser (bigint u) = true :=
    fun u hu => hinv.participantRefs _ (hasParticipant_iff.mp hu)
  refine ⟨(hrefs sender hsender).1, (hrefs sender hsender).2, ?_⟩
  cases recipient with
  | none => rfl
  | some r => exact (hrefs r (hrecipient r rfl)).2

theorem createMessage_full {timestamp : UInt64} (hreads : BundleReads st sender payload recipient)
    (hmissing : ¬ PreKeyMissing st sender payload recipient) (h : ¬ MessageRoom st) :
    Database.createMessage st conv sender payload timestamp recipient
      (oneTimePreKeyIdFromPayload payload) = .error constraintViolation := by
  obtain ⟨st', hst⟩ := exists_consumeForMessage hreads hmissing
  have hseq : nextval st'.messageSeq = .error constraintViolation := by
    rw [(consumeForMessage_ok hst).1]
    exact if_neg h
  rw [Database.createMessage, hst]
  simp only [bind, Except.bind, hseq]

/-- A message that passed the checks is stored. -/
theorem exists_createMessage (timestamp : UInt64)
    (hreads : BundleReads st sender payload recipient)
    (hmissing : ¬ PreKeyMissing st sender payload recipient) (hroom : MessageRoom st)
    (h : Referenced st conv sender recipient) :
    ∃ id st', Database.createMessage st conv sender payload timestamp recipient
      (oneTimePreKeyIdFromPayload payload) = .ok (id, st') := by
  obtain ⟨st', hst⟩ := exists_consumeForMessage hreads hmissing
  obtain ⟨hsame, husers⟩ := consumeForMessage_ok hst
  have hseq : nextval st'.messageSeq = .ok (Int64.ofNat (st'.messageSeq + 1)) := by
    rw [hsame]
    exact if_pos hroom
  have hconversation : st'.hasConversation (bigint conv) = true := by
    rw [hsame]
    exact h.conversation
  have huser : ∀ i, st'.hasUser i = st.hasUser i := husers.hasUser
  have hcheck : ∀ {holds : Bool}, holds = true → checkReference holds = .ok () :=
    fun hholds => if_pos hholds
  rw [Database.createMessage, hst]
  simp only [bind, Except.bind, hseq, hcheck hconversation, huser, hcheck h.sender,
    hcheck h.recipient]
  exact ⟨_, _, rfl⟩

/-- The answer is that of the transaction. -/
theorem eval_storeMessage (convId : UInt64) (payload : Bytes) (recipient : Option UInt64) :
    (storeMessage convId sender payload recipient).eval (answerAs cfg out) s =
      match out.createMessage.apply (Database.createMessage s.store convId sender payload
        (epochMillis s.clock) recipient (oneTimePreKeyIdFromPayload payload)) s with
      | (.error (.runtimeError what), s') =>
          (reply 409 (.mkObj [("error", .str what)])).eval (answerAs cfg out) s'
      | (.error e, s') => (.error e, s')
      | (.ok msgId, s') =>
          (do
            let digest ← recordOnBlockchain convId msgId payload
            reply 201 (messageJson ⟨msgId, sender, convId, payload, epochMillis s.clock,
              digest⟩)).eval (answerAs cfg out) s' := by
  have hclock : (nowMillis).eval (answerAs cfg out) s = (.ok (epochMillis s.clock), s) := rfl
  have hcreated : (perform (.createMessage convId sender payload (epochMillis s.clock) recipient
        (oneTimePreKeyIdFromPayload payload))).eval (answerAs cfg out) s =
      (.ok (out.createMessage.apply (Database.createMessage s.store convId sender payload
        (epochMillis s.clock) recipient (oneTimePreKeyIdFromPayload payload)) s).1,
        (out.createMessage.apply (Database.createMessage s.store convId sender payload
          (epochMillis s.clock) recipient (oneTimePreKeyIdFromPayload payload)) s).2) := rfl
  unfold storeMessage
  rw [Prog.eval_bind, hclock]
  dsimp only
  rw [Prog.eval_bind, hcreated]
  generalize out.createMessage.apply _ s = r
  obtain ⟨x, s'⟩ := r
  cases x with
  | ok msgId => rfl
  | error e => cases e <;> rfl

/-- A message that is stored is answered 201. -/
theorem not_conflicts_created {msgId timestamp : UInt64} (hpayload : validUtf8 payload = true) :
    ¬ Conflicts ((do
        let digest ← recordOnBlockchain conv msgId payload
        reply 201 (messageJson ⟨msgId, sender, conv, payload, timestamp, digest⟩)).eval
          (answerAs cfg out) s).1 := by
  obtain ⟨digest, s', hdigest, heval⟩ : ∃ digest s', validUtf8 digest = true ∧
      (recordOnBlockchain conv msgId payload).eval (answerAs cfg out) s = (.ok digest, s') :=
    eval_recordOnBlockchain out conv msgId payload
  rw [Prog.eval_bind, heval]
  dsimp only
  have hbody : (messageJson ⟨msgId, sender, conv, payload, timestamp, digest⟩).Printable :=
    Json.printable_mkObj (by simp [Json.Printable, hpayload, hdigest])
  obtain ⟨text, htext⟩ := @eval_reply (answerAs cfg out) s' _ hbody 201
  rw [htext]
  exact not_conflicts_ok (by simp)

/-- **Creating a message**, after the checks. -/
theorem messageConflict_iff (hpayload : validUtf8 payload = true)
    (h : Referenced s.store conv sender recipient) :
    (Conflicts ((storeMessage conv sender payload recipient).eval (answerAs cfg out) s).1 ↔
        PreKeyMissing s.store sender payload recipient) ↔
      MessageOutcome out s.store sender payload recipient := by
  rw [eval_storeMessage, MessageOutcome]
  by_cases hfailed : ∀ what, out.createMessage ≠ .failed what
  · by_cases hreads : BundleReads s.store sender payload recipient
    · by_cases hmissing : PreKeyMissing s.store sender payload recipient
      · rw [createMessage_of_consume_error (consumeForMessage_missing hreads hmissing),
          Commit.apply_error hfailed]
        dsimp only
        rw [conflicts_reply_iff]
        cases hcommit : out.createMessage with
        | failed what => exact absurd hcommit (hfailed what)
        | done => simp [hreads, hmissing, validUtf8_bytes]
        | inDoubt what => simp [hreads, hmissing, validUtf8_bytes]
      · by_cases hroom : MessageRoom s.store
        · obtain ⟨id, st', hst⟩ := exists_createMessage (epochMillis s.clock) hreads hmissing
            hroom h
          rw [hst]
          cases hcommit : out.createMessage with
          | failed what => exact absurd hcommit (hfailed what)
          | done =>
              have hnot : ¬ Conflicts ((do
                  let digest ← recordOnBlockchain conv id payload
                  reply 201 (messageJson ⟨id, sender, conv, payload, epochMillis s.clock,
                    digest⟩)).eval (answerAs cfg out) { s with store := st' }).1 :=
                not_conflicts_created hpayload
              exact iff_of_true (iff_of_false hnot hmissing) (by simp [hmissing, hroom])
          | inDoubt what =>
              simp only [Commit.apply]
              rw [conflicts_reply_iff]
              simp [hmissing, hreads, hroom]
        · rw [createMessage_full hreads hmissing hroom, Commit.apply_error hfailed]
          simp only [constraintViolation]
          rw [conflicts_reply_iff]
          cases hcommit : out.createMessage with
          | failed what => exact absurd hcommit (hfailed what)
          | done => simp [hreads, hmissing, hroom, validUtf8_bytes]
          | inDoubt what => simp [hreads, hmissing, hroom, validUtf8_bytes]
    · rw [createMessage_of_consume_error (consumeForMessage_unread hreads),
        Commit.apply_error hfailed]
      dsimp only
      have hnot : ¬ Conflicts (.error .jsonError) := not_conflicts_error _
      cases hcommit : out.createMessage with
      | failed what => exact absurd hcommit (hfailed what)
      | done => simp [hreads, hnot]
      | inDoubt what => simp [hreads, hnot]
  · obtain ⟨what, hcommit⟩ : ∃ what, out.createMessage = .failed what := by simpa using hfailed
    rw [hcommit]
    dsimp only [Commit.apply]
    rw [conflicts_reply_iff]

end Messages

/-! ## Requests -/

section Requests

variable [Primitives] [FloatFormat] {cfg : Config} {s : ServerState} {req : Request}

omit [Primitives] in
/-- A signup that passes the checks comes to the `try` block. -/
theorem eval_handleSignupWith (createSession : UInt64 → Bytes → Server Bytes) (out : Outcomes)
    {username password publicKey : Bytes}
    (h : AsksToSignUp cfg s req username password publicKey) :
    (handleSignupWith createSession req).eval (answerAs cfg out) s =
      (signupUser createSession username password publicKey).eval (answerAs cfg out)
        (answerAs cfg out (.isRateLimited req.remoteAddr) s).2 := by
  obtain ⟨body, hbody, husername, hpassword, hkey⟩ := h.fields
  have hlimited : ¬ (answerAs cfg out (.isRateLimited req.remoteAddr) s).1 = true := h.limit
  have hthere : body.contains (bytes "username") = true ∧ body.contains (bytes "password") = true ∧
      body.contains (bytes "publicKey") = true := by
    simpa using hbody.2
  unfold handleSignupWith
  rw [eval_perform_bind, if_neg hlimited, hbody.1]
  dsimp only
  rw [if_neg (by simp [hthere]), husername, hpassword, hkey, eval_jsonGet_bind]
  dsimp only
  rw [eval_jsonGet_bind]
  dsimp only
  rw [eval_jsonGet_bind]
  dsimp only
  rw [if_neg (by simpa using h.username), if_neg (by simp [h.password]),
    if_neg (by simpa using h.publicKey)]

/-- A message that passes the checks comes to `createMessage`. -/
theorem eval_handleCreateMessage (out : Outcomes) {convPart : Bytes} {conv sender : UInt64}
    {payload : Bytes} {recipient : Option UInt64}
    (h : AsksFor cfg s req convPart conv sender payload recipient) :
    (handleCreateMessage_ cfg req convPart).eval (answerAs cfg out) s =
      (storeMessage conv sender payload recipient).eval (answerAs cfg out) s := by
  obtain ⟨body, hbody, hsender, hpayload, hrecipient⟩ := h.fields
  have hthere : body.contains (bytes "senderId") = true ∧ body.contains (bytes "payload") = true := by
    simpa using hbody.2
  have hpart : (perform (.isParticipant conv sender)).eval (answerAs cfg out) s =
      (.ok (.ok (Database.isParticipant s.store conv sender)), s) := rfl
  have hall : (recipient.all fun r => Database.isParticipant s.store conv r) = true := by
    cases recipient with
    | none => rfl
    | some r => exact h.recipients r rfl
  have hrecipientOf : (recipientOf body).eval (answerAs cfg out) s = (.ok recipient, s) := by
    unfold recipientOf
    rcases hrecipient with ⟨hnull, rfl⟩ | ⟨hnull, r, hr, rfl⟩
    · rw [if_pos hnull]
      rfl
    · rw [if_neg (by simp [hnull]), hr]
      rfl
  unfold handleCreateMessage_
  rw [h.convId]
  dsimp only
  rw [hbody.1]
  dsimp only
  rw [if_neg (by simp [hthere]), hsender, hpayload, eval_jsonGet_bind]
  dsimp only
  rw [eval_jsonGet_bind]
  dsimp only
  rw [Prog.eval_bind, hrecipientOf]
  dsimp only
  rw [if_neg (by simpa using h.length), Prog.eval_bind, eval_authenticatedUserId, h.user]
  dsimp only
  rw [if_neg (by simp), eval_attempt_bind, hpart, h.participant]
  dsimp only
  rw [if_neg (by simp), Prog.eval_bind, eval_isRecipient, hall]
  dsimp only
  rw [if_neg (by simp)]

/-- **409 means a conflict and nothing else** exactly under these outcomes: for every
state the server reaches and every request that passes the checks of its handler. -/
theorem conflict_iff {tick : Clock → Clock → Prop} {clock : Clock} {tr : ServerTrace}
    {w : ServerSystem} (hrun : ServerRun cfg tick ⟨.initial clock, []⟩ tr w) (out : Outcomes) :
    (∀ username password publicKey, AsksToSignUp cfg w.state req username password publicKey →
      (SignupConflict out w.state username password publicKey
          ((handleSignupWith (createSessionAs cfg out.signs) req).eval (answerAs cfg out) w.state) ↔
        SignupOutcome out w.state.store username password)) ∧
    ∀ convPart conv sender payload recipient,
      AsksFor cfg w.state req convPart conv sender payload recipient →
      ((Conflicts ((handleCreateMessage_ cfg req convPart).eval (answerAs cfg out) w.state).1 ↔
          PreKeyMissing w.state.store sender payload recipient) ↔
        MessageOutcome out w.state.store sender payload recipient) := by
  constructor
  · intro username password publicKey h
    obtain ⟨body, hbody, husername, -, hkey⟩ := h.fields
    rw [eval_handleSignupWith _ out h]
    exact signupConflict_iff (validUtf8_field_text hbody.1 husername)
      (validUtf8_field_text hbody.1 hkey)
  · intro convPart conv sender payload recipient h
    obtain ⟨body, hbody, -, hpayload, -⟩ := h.fields
    have hinv : StoreInv w.state.store := (sound_of_run storeInv_empty hrun).1
    rw [eval_handleCreateMessage out h]
    exact messageConflict_iff (validUtf8_field_text hbody.1 hpayload)
      (.of_participants hinv h.participant h.recipients)

end Requests

/-- Alice signs up, and is not answered 409. -/
theorem conflict_iff_example :
    SignupConflict (.reliable some fun _ _ => none) (.initial 1000000) (bytes "alice")
      (bytes "Password12345") (bytes "a")
      ((@handleSignupWith plainFloats (@createSessionAs examplePrimitives exampleConfig true)
        (exampleSignup "alice" (bytes "a"))).eval
          (@answerAs plainFloats exampleConfig (.reliable some fun _ _ => none))
          (.initial 1000000)) := by
  have hparse : ((@Json.parse UInt8 _ plainFloats (exampleSignup "alice" (bytes "a")).body).map
      fun b => ((["username", "password", "publicKey"].all fun key => b.contains (bytes key)),
        (field b "username").str?, (field b "password").str?, (field b "publicKey").str?)) =
      some (true, some (bytes "alice"), some (bytes "Password12345"), some (bytes "a")) := by
    decide +kernel
  have hlimit : ¬ Limited exampleConfig (.initial 1000000) (exampleSignup "alice" (bytes "a")) := by
    unfold Limited
    decide +kernel
  have husername : bytes "alice" ≠ [] ∧ (bytes "alice").length ≤ 64 := by decide +kernel
  have hpassword : isValidSignupPassword (bytes "Password12345") = true := by decide +kernel
  have hkey : bytes "a" ≠ [] ∧ (bytes "a").length ≤ 8192 := by decide +kernel
  let _ := examplePrimitives
  let _ := plainFloats
  obtain ⟨body, hbody, hfields⟩ := Option.map_eq_some_iff.mp hparse
  obtain ⟨hkeys, hfields⟩ := Prod.mk.inj hfields
  obtain ⟨hfield₁, hfields⟩ := Prod.mk.inj hfields
  obtain ⟨hfield₂, hfield₃⟩ := Prod.mk.inj hfields
  have hrun : ServerRun exampleConfig (· ≤ ·) ⟨.initial 1000000, []⟩ [] ⟨.initial 1000000, []⟩ :=
    .nil _
  refine ((conflict_iff hrun (.reliable some fun _ _ => none)).1 _ _ _ ?_).mpr ?_
  · exact ⟨hlimit, ⟨body, ⟨hbody, by simpa using hkeys⟩, hfield₁, hfield₂, hfield₃⟩, husername,
      hpassword, hkey⟩
  · have hroom : UserRoom (ServerState.initial 1000000).store := by
      unfold UserRoom
      decide
    exact ⟨rfl, hroom, Or.inr rfl⟩

/-- **A signup answered 409 that created its user**: the signature of the token failed. -/
theorem not_signupConflict :
    ¬ SignupConflict ⟨some, .done, .done, false, fun _ _ => none⟩ (.initial 1000000)
      (bytes "alice") (bytes "Password12345") (bytes "a")
      ((@handleSignupWith plainFloats (@createSessionAs examplePrimitives exampleConfig false)
        (exampleSignup "alice" (bytes "a"))).eval
          (@answerAs plainFloats exampleConfig ⟨some, .done, .done, false, fun _ _ => none⟩)
          (.initial 1000000)) := by
  have h : (((@handleSignupWith plainFloats (@createSessionAs examplePrimitives exampleConfig false)
        (exampleSignup "alice" (bytes "a"))).eval
          (@answerAs plainFloats exampleConfig ⟨some, .done, .done, false, fun _ _ => none⟩)
          (.initial 1000000)).1.toOption.map (·.status),
      ((@handleSignupWith plainFloats (@createSessionAs examplePrimitives exampleConfig false)
        (exampleSignup "alice" (bytes "a"))).eval
          (@answerAs plainFloats exampleConfig ⟨some, .done, .done, false, fun _ _ => none⟩)
          (.initial 1000000)).2.store.users.length) = (some 409, 1) := by decide +kernel
  obtain ⟨hstatus, husers⟩ := Prod.mk.inj h
  intro hconflict
  rw [hconflict.2 (conflicts_of_status hstatus)] at husers
  cases husers

end Kds
