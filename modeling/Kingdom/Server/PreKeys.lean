import Kingdom.Process.History
import Kingdom.Server.Bundle
import Kingdom.Server.Session

/-!
# One-time prekeys on the server

A published one-time prekey is used up by the first message that is stored for
its owner under it.

* `Offered` — what a user's bundle offers; `offered_step` says it only shrinks.
* `StoredFor`, `Commits` — a message is stored for a user under one of the prekeys, and the
  call answers it or its commit is in doubt.
* `commits_step` — the bundle drops the prekey in the same step.
* `prekey_stored_once` — no prekey is used up twice, in any run.
* `create_in_doubt` — a call that throws has stored its message.
-/

namespace Kds

open Codec Process

/-! ## What a bundle offers -/

section Offered

variable [FloatFormat]

/-- The bundle the user publishes offers the prekey. -/
def Offered (r k : UInt64) (s : Store) : Prop :=
  ∃ text, Database.getUserPublicKey s r = some text ∧ PublishedOffers k text

omit [FloatFormat] in
/-- A new user does not replace one that is there. -/
theorem getUserPublicKey_append {s : Store} {r : UInt64} (hr : s.hasUser (bigint r) = true)
    (row : UserRow) (seq : Nat) :
    Database.getUserPublicKey { s with users := s.users ++ [row], userSeq := seq } r =
      Database.getUserPublicKey s r := by
  have hfound : (s.users.find? fun u => decide (u.id = bigint r)).isSome = true := by
    rw [List.find?_isSome]
    simpa [Store.hasUser] using hr
  obtain ⟨u, hu⟩ := Option.isSome_iff_exists.mp hfound
  simp [Database.getUserPublicKey, List.find?_append, hu]

/-- A call never makes the bundle of a user offer more. -/
theorem offered_exec {cfg : Config} {o : Op} {res : Res o} {s s' : ServerState} {r k : UInt64}
    (hr : s.store.hasUser (bigint r) = true) (h : exec cfg o s res s')
    (hoffered : Offered r k s'.store) : Offered r k s.store := by
  have hsame : s'.store.users = s.store.users → Offered r k s.store := by
    intro heq
    obtain ⟨text, htext, hoffers⟩ := hoffered
    rw [Database.getUserPublicKey, heq] at htext
    exact ⟨text, htext, hoffers⟩
  rcases exec_store h with heq | ⟨res', hw, -⟩
  · exact hsame (congrArg Store.users heq)
  · generalize s'.store = st' at hw hsame hoffered
    generalize s.store = st at hw hsame hr
    cases hw with
    | createUser hc =>
        obtain ⟨-, -, rfl⟩ := createUser_ok hc
        obtain ⟨text, htext, hoffers⟩ := hoffered
        rw [getUserPublicKey_append hr] at htext
        exact ⟨text, htext, hoffers⟩
    | createConversation hc =>
        obtain ⟨-, -, rfl⟩ := createConversation_ok hc
        exact hsame rfl
    | createMessage hc =>
        obtain ⟨t, hconsume, -, -, rfl⟩ := createMessage_ok hc
        obtain ⟨text, htext, hoffers⟩ := hoffered
        replace htext : Database.getUserPublicKey t r = some text := htext
        rcases consumeForMessage_drops hconsume with
          ⟨u, j, old, new, -, -, -, hold, rfl, hdrops, -⟩ | ⟨-, rfl⟩
        · rw [getUserPublicKey_setPublicKey] at htext
          by_cases hru : r = u
          · rw [if_pos hru, hru, hold] at htext
            cases htext
            rw [hru]
            exact ⟨old, hold, hdrops.offers hoffers⟩
          · rw [if_neg hru] at htext
            exact ⟨text, htext, hoffers⟩
        · exact ⟨text, htext, hoffers⟩
    | deleteMessage hd =>
        cases hd
        exact hsame rfl
    | revokeMessageAccess hv =>
        cases hv
        exact hsame rfl
    | updateMessageBlockchainDigest hd =>
        cases hd
        exact hsame rfl

end Offered

/-! ## Messages stored under a prekey -/

section Stored

variable [FloatFormat]

/-- A message is stored for `r`, from someone else, whose payload names the
one-time prekey `k` to the server. -/
def StoredFor (r k : UInt64) : (o : Op) → Res o → Prop
  | .createMessage _ sender payload _ recipient _, .ok _ =>
      recipient = some r ∧ r ≠ sender ∧ oneTimePreKeyIdFromPayload payload = some k
  | _, _ => False

/-- A call commits a message for `r`, from someone else, whose payload names the
one-time prekey `k` to the server, whatever it answers. -/
def Commits (r k : UInt64) (s s' : Store) : Op → Prop
  | .createMessage _ sender payload _ recipient _ =>
      recipient = some r ∧ r ≠ sender ∧ oneTimePreKeyIdFromPayload payload = some k ∧
        s'.messages ≠ s.messages
  | _ => False

/-- The bundle of the user loses the entries of one prekey it offered, and no
other user changes. -/
def LosesPreKey (r k : UInt64) (s s' : Store) : Prop :=
  ∃ text text', Database.getUserPublicKey s r = some text ∧ PublishedOffers k text ∧
    Drops k text text' ∧ s'.users = (Database.setPublicKey s (bigint r) text').users

theorem LosesPreKey.not_offered {r k : UInt64} {s s' : Store} (h : LosesPreKey r k s s') :
    ¬ Offered r k s' := by
  obtain ⟨text, text', htext, -, hdrops, husers⟩ := h
  intro hoffered
  obtain ⟨new, hnew, hoffers⟩ := hoffered
  have hget : Database.getUserPublicKey s' r =
      Database.getUserPublicKey (Database.setPublicKey s (bigint r) text') r := by
    rw [Database.getUserPublicKey, husers, Database.getUserPublicKey]
  rw [hget, getUserPublicKey_setPublicKey, if_pos rfl, htext] at hnew
  cases hnew
  exact hdrops.not_offers hoffers

theorem LosesPreKey.hasUser {r k : UInt64} {s s' : Store} (h : LosesPreKey r k s s') :
    s'.hasUser (bigint r) = true := by
  obtain ⟨text, text', htext, -, -, husers⟩ := h
  obtain ⟨row, hrow, -⟩ := Option.map_eq_some_iff.mp htext
  have hid : row.id = bigint r := by simpa using List.find?_some hrow
  have hthere : s.hasUser (bigint r) = true :=
    hasUser_iff.mpr ⟨row, List.mem_of_find?_eq_some hrow, hid⟩
  have hsame : SameUsers s.users s'.users := by
    rw [husers]
    exact sameUsers_setPublicKey s (bigint r) text'
  rw [← hthere]
  exact hsame.hasUser _

/-- A user whose bundle is not rewritten loses nothing. -/
theorem not_losesPreKey {r k : UInt64} {s s' : Store}
    (h : Database.getUserPublicKey s' r = Database.getUserPublicKey s r) :
    ¬ LosesPreKey r k s s' := by
  intro hloses
  have hnot := hloses.not_offered
  obtain ⟨text, text', htext, hoffers, -⟩ := hloses
  exact hnot ⟨text, h.trans htext, hoffers⟩

/-- **A message takes a prekey from another user** exactly when it is stored for that
user under that prekey. -/
theorem losesPreKey_createMessage {s s' : Store} {conversationId senderId timestamp m : UInt64}
    {payload : Bytes} {recipientId preKeyId : Option UInt64} {r k : UInt64} (hne : r ≠ senderId)
    (h : Database.createMessage s conversationId senderId payload timestamp recipientId preKeyId =
      .ok (m, s')) :
    LosesPreKey r k s s' ↔ recipientId = some r ∧ preKeyId = some k := by
  obtain ⟨t, hconsume, -, -, hstore⟩ := createMessage_ok h
  have husers : s'.users = t.users := by
    rw [hstore]
    rfl
  have hkey : ∀ u, Database.getUserPublicKey s' u = Database.getUserPublicKey t u := by
    intro u
    rw [Database.getUserPublicKey, husers, Database.getUserPublicKey]
  rcases consumeForMessage_drops hconsume with
    ⟨u, j, text, text', rfl, rfl, -, htext, ht, hdrops, hoffers⟩ | ⟨hnone, rfl⟩
  · constructor
    · intro hloses
      have hu : u = r := by
        by_contra hne
        refine not_losesPreKey ?_ hloses
        rw [hkey, ht, getUserPublicKey_setPublicKey, if_neg fun h => hne h.symm]
      subst hu
      refine ⟨rfl, ?_⟩
      by_contra hj
      have hnot := hloses.not_offered
      obtain ⟨old, -, hold, hoffered, -⟩ := hloses
      rw [htext] at hold
      cases hold
      refine hnot ⟨text', ?_, hdrops.offers_other (fun h => hj (h ▸ rfl)) hoffered⟩
      rw [hkey, ht, getUserPublicKey_setPublicKey, if_pos rfl, htext, Option.map_some]
    · rintro ⟨hr, hk⟩
      cases hr
      cases hk
      exact ⟨text, text', htext, hoffers, hdrops, by rw [husers, ht]⟩
  · constructor
    · intro hloses
      exact absurd hloses (not_losesPreKey (hkey r))
    · rintro ⟨rfl, rfl⟩
      exact absurd (hnone r rfl hne) (by simp)

end Stored

/-! ## Runs -/

section Runs

variable [Primitives] [FloatFormat] {cfg : Config} {tick : Clock → Clock → Prop}
  {w w' : ServerSystem} {l : Label Op Res Task} {r k : UInt64}

/-- No step makes the bundle of a user offer more. -/
theorem offered_step (h : ServerStep cfg tick w l w')
    (hr : w.state.store.hasUser (bigint r) = true) (hoffered : Offered r k w'.state.store) :
    Offered r k w.state.store := by
  cases h with
  | start t => exact hoffered
  | call hget hexec => exact offered_exec hr hexec hoffered
  | env henv =>
      cases henv with
      | clock => exact hoffered
      | steadyClock => exact hoffered
      | skipIds => exact hoffered
  | @restart s s' ths hrestart =>
      rw [show s' = restartServer s from hrestart] at hoffered
      exact hoffered

/-- **A message is committed under a prekey only while the prekey is offered**, and
the bundle drops the prekey in the same step. -/
theorem commits_step (hw : (serverContract cfg tick).Sound w) (h : ServerStep cfg tick w l w')
    (hl : l.IsCall fun o _ => Commits r k w.state.store w'.state.store o) :
    LosesPreKey r k w.state.store w'.state.store := by
  cases l with
  | call i o res =>
      obtain ⟨th, -, -, hpre, hexec⟩ := Contract.pre_of_call hw h
      cases o with
      | createMessage c sender payload timestamp recipient preKey =>
          obtain ⟨rfl, hne, hread, hnew⟩ := hl
          -- the handler passes on what it read from the payload
          have hkey : preKey = some k := by
            cases htask : th.task with
            | resolver =>
                rw [htask] at hpre
                rcases hpre with ⟨path, hop⟩ | hop | ⟨m, digest, hop, -⟩ <;> cases hop
            | request req seen =>
                rw [htask] at hpre
                obtain ⟨-, -, -, -, -, -, hkey⟩ := hpre
                rw [hkey, hread]
          rcases Transaction.store hexec with hsame | ⟨id, hcommit, -⟩
          · exact absurd (congrArg Store.messages hsame) hnew
          · exact (losesPreKey_createMessage hne hcommit).mpr ⟨rfl, hkey⟩
      | _ => exact hl.elim
  | _ => exact hl.elim

/-- A call that answers an id has committed its message. -/
theorem commits_of_stored (h : ServerStep cfg tick w l w') (hl : l.IsCall (StoredFor r k)) :
    l.IsCall fun o _ => Commits r k w.state.store w'.state.store o := by
  cases h with
  | @call s s' ths i t past o p res hget hexec =>
      cases o with
      | createMessage c sender payload timestamp recipient preKey =>
          cases res with
          | error e => exact hl.elim
          | ok id =>
              obtain ⟨hr, hne, hread⟩ := hl
              obtain ⟨u, -, -, -, hstore⟩ := createMessage_ok (Transaction.of_ok hexec).1
              refine ⟨hr, hne, hread, ?_⟩
              rw [hstore]
              simp [Store.insertAccess]
      | _ => exact hl.elim
  | _ => exact hl.elim

theorem storedFor_step (hw : (serverContract cfg tick).Sound w) (h : ServerStep cfg tick w l w')
    (hl : l.IsCall (StoredFor r k)) : LosesPreKey r k w.state.store w'.state.store :=
  commits_step hw h (commits_of_stored h hl)

/-- No step loses a user. -/
theorem hasUser_step (hw : (serverContract cfg tick).Sound w) (h : ServerStep cfg tick w l w')
    (hr : w.state.store.hasUser (bigint r) = true) : w'.state.store.hasUser (bigint r) = true := by
  by_cases hl : l = .restart
  · subst hl
    cases h with
    | @restart s s' ths hrestart =>
        rw [show s' = restartServer s from hrestart]
        exact hr
  · have hevolves := Contract.rely_of_step hw h hl
    exact hevolves.users _ hr

/-- What was used up is never offered again. -/
theorem not_offered_run {tr : ServerTrace} (hw : (serverContract cfg tick).Sound w)
    (h : ServerRun cfg tick w tr w') (hr : w.state.store.hasUser (bigint r) = true)
    (hnot : ¬ Offered r k w.state.store) :
    w'.state.store.hasUser (bigint r) = true ∧ ¬ Offered r k w'.state.store := by
  induction h with
  | nil => exact ⟨hr, hnot⟩
  | snoc hrun hstep ih =>
      obtain ⟨huser, hgone⟩ := ih
      have hsound := Contract.sound_run hw hrun
      exact ⟨hasUser_step hsound hstep huser,
        fun hoffered => hgone (offered_step hstep huser hoffered)⟩

theorem not_offered_of_stored {clock : Clock} {tr : ServerTrace}
    (h : ServerRun cfg tick ⟨.initial clock, []⟩ tr w)
    (hstored : ∃ x ∈ tr, x.2.IsCall (StoredFor r k)) :
    ¬ Offered r k w.state.store := by
  obtain ⟨⟨v, l⟩, hx, hl⟩ := hstored
  obtain ⟨before, after, rfl⟩ := List.append_of_mem hx
  obtain ⟨v', hbefore, hstep, hafter⟩ := h.split
  have hsound := sound_of_run storeInv_empty hbefore
  have hloses := storedFor_step hsound hstep hl
  exact (not_offered_run (Contract.sound_step hsound hstep) hafter hloses.hasUser
    hloses.not_offered).2

/-- **A prekey is used up once, together with the message.**  In every run, a
message is committed for another user under a prekey only while the bundle offers the
prekey; the bundle then loses the entries of that prekey and keeps the rest, and no later
step commits a message under it.  A call that throws changes nothing, or its commit was in
doubt and it has written all that a call writes which returns. -/
theorem prekey_stored_once {clock : Clock} {tr : ServerTrace}
    (h : ServerRun cfg tick ⟨.initial clock, []⟩ tr w) (hstep : ServerStep cfg tick w l w') :
    (∀ r k, l.IsCall (fun o _ => Commits r k w.state.store w'.state.store o) →
      LosesPreKey r k w.state.store w'.state.store ∧
        ∀ tr' v l' v', ServerRun cfg tick w' tr' v → ServerStep cfg tick v l' v' →
          ¬ l'.IsCall fun o _ => Commits r k v.state.store v'.state.store o) ∧
    ∀ i c sender payload timestamp recipient preKey e,
      l = .call i (.createMessage c sender payload timestamp recipient preKey) (.error e) →
        w'.state.store = w.state.store ∨ cfg.inDoubt = true ∧ ∃ id,
          Database.createMessage w.state.store c sender payload timestamp recipient preKey =
            .ok (id, w'.state.store) := by
  have hsound := sound_of_run storeInv_empty h
  refine ⟨fun r k hl => ?_, ?_⟩
  · have hloses := commits_step hsound hstep hl
    refine ⟨hloses, fun tr' v l' v' hrun hlater hl' => ?_⟩
    have hsound' := Contract.sound_step hsound hstep
    obtain ⟨text, -, htext, hoffers, -, -⟩ := commits_step (Contract.sound_run hsound' hrun) hlater hl'
    exact (not_offered_run hsound' hrun hloses.hasUser hloses.not_offered).2 ⟨text, htext, hoffers⟩
  · rintro i c sender payload timestamp recipient preKey e rfl
    obtain ⟨th, -, -, -, hexec⟩ := Contract.pre_of_call hsound hstep
    rcases Transaction.of_error hexec with hsame | ⟨hdoubt, id, hcommit, -⟩
    · exact .inl (congrArg ServerState.store hsame)
    · exact .inr ⟨hdoubt, id, hcommit⟩

end Runs

/-! ## A session that uses up a prekey -/

instance (r k : UInt64) (o : Op) (res : Res o) [FloatFormat] : Decidable (StoredFor r k o res) :=
  match o, res with
  | .createMessage .., .ok _ => inferInstanceAs (Decidable (_ ∧ _ ∧ _))
  | .createMessage .., .error _ => isFalse id
  | .epochSeconds, _ | .epochMillis, _ | .revoke .., _ | .isRevoked .., _ => isFalse id
  | .isRateLimited .., _ | .hashPassword .., _ | .createUser .., _ => isFalse id
  | .getUserByUsername .., _ | .getAllUsers, _ | .getUserPublicKey .., _ => isFalse id
  | .usersExist .., _ | .createConversation .., _ | .getConversationsByUserId .., _ => isFalse id
  | .getMessagesByConversationIdForUser .., _ | .deleteMessage .., _ => isFalse id
  | .revokeMessageAccess .., _ | .updateMessageBlockchainDigest .., _ => isFalse id
  | .getPendingBlockchainMessages, _ | .isParticipant .., _ | .isMessageSender .., _ => isFalse id
  | .sidecar .., _ => isFalse id

/-- A bundle that offers one prekey. -/
def exampleBundle (preKeyId : UInt64) : Bytes :=
  exampleBody [("oneTimePreKeys", .arr [.mkObj [("id", .unsigned preKeyId)]])]

/-- Alice and Bob share a conversation, and Alice sends Bob a message under the
prekey he offers. -/
def preKeySession : List Request :=
  [exampleSignup "alice" (bytes "a"), exampleSignup "bob" (exampleBundle 5),
    examplePost aliceToken "/conversations" [("name", .str (bytes "team")),
      ("participantIds", .arr [.unsigned 1, .unsigned 2])],
    examplePost aliceToken "/conversations/1/messages" [("senderId", .unsigned 1),
      ("payload", .str (exampleBody [("oneTimePreKeyId", .unsigned 5)])),
      ("recipientId", .unsigned 2)]]

/-- Bob's bundle loses the prekey with the message that was stored under it. -/
theorem prekey_stored_once_example : ∃ tr w l w',
    @ServerRun examplePrimitives plainFloats exampleConfig (· ≤ ·) ⟨.initial 1000000, []⟩ tr w ∧
      @ServerStep examplePrimitives plainFloats exampleConfig (· ≤ ·) w l w' ∧
      l.IsCall (@StoredFor plainFloats 2 5) ∧
      @LosesPreKey plainFloats 2 5 w.state.store w'.state.store ∧
      ∀ tr' v l' v', @ServerRun examplePrimitives plainFloats exampleConfig (· ≤ ·) w' tr' v →
        @ServerStep examplePrimitives plainFloats exampleConfig (· ≤ ·) v l' v' →
          ¬ l'.IsCall fun o _ => @Commits plainFloats 2 5 v.state.store v'.state.store o := by
  let _ := examplePrimitives
  let _ := plainFloats
  have hcall : sessionCalls exampleConfig (fun _ => StoredFor 2 5) (.initial 1000000) preKeySession =
      true := by decide +kernel
  obtain ⟨tr, hrun, -, hcalls⟩ := run_session preKeySession (.initial 1000000) []
  obtain ⟨⟨w, l⟩, hmem, hl⟩ := (hcalls _).mp hcall
  obtain ⟨before, after, rfl⟩ := List.append_of_mem hmem
  obtain ⟨w', hto, hstep, -⟩ := hrun.split
  have h := (prekey_stored_once hto hstep).1 2 5 (commits_of_stored hstep hl)
  exact ⟨before, w, l, w', hto, hstep, hl, h.1, h.2⟩

/-! ## A commit in doubt -/

/-- The configuration of the example, where commits may be in doubt. -/
def doubtfulConfig : Config := { exampleConfig with inDoubt := true }

/-- The server of `preKeySession` when Alice's message is about to be stored. -/
def beforeMessage : ServerSystem :=
  letI := examplePrimitives
  letI := plainFloats
  (System.moves (answer doubtfulConfig) (serverProgram doubtfulConfig) ⟨.initial 1000000, []⟩
    (requestMoves (preKeySession.zip [4, 4, 5, 7]))).2

/-- The call that stores it. -/
def messageCall : Op :=
  .createMessage 1 1 (exampleBody [("oneTimePreKeyId", .unsigned 5)]) 1000000 (some 2) (some 5)

theorem run_beforeMessage : letI := examplePrimitives; letI := plainFloats; ∃ tr,
    ServerRun doubtfulConfig (· ≤ ·) ⟨.initial 1000000, []⟩ tr beforeMessage := by
  let _ := examplePrimitives
  let _ := plainFloats
  rw [beforeMessage]
  exact ⟨_, Run.moves (fun o s => exec_answer doubtfulConfig o s) _ _⟩

/-- The call is the next one of the fourth request, and its transaction writes three tables. -/
theorem beforeMessage_eval :
    beforeMessage.threads[3]?.bind (fun th => th.prog.next?) = some messageCall ∧
      letI := plainFloats
      (Database.createMessage beforeMessage.state.store 1 1
        (exampleBody [("oneTimePreKeyId", .unsigned 5)]) 1000000 (some 2) (some 5)).toOption.any
          (fun p => p.2.users ≠ beforeMessage.state.store.users ∧
            p.2.messages ≠ beforeMessage.state.store.messages ∧
            p.2.access ≠ beforeMessage.state.store.access) = true := by
  decide +kernel

/-- **A call that throws has stored its message and taken the prekey**, when its commit was in
doubt. -/
theorem create_in_doubt : letI := examplePrimitives; letI := plainFloats; ∃ tr w w' e,
    ServerRun doubtfulConfig (· ≤ ·) ⟨.initial 1000000, []⟩ tr w ∧
      ServerStep doubtfulConfig (· ≤ ·) w (.call 3 messageCall (.error e)) w' ∧
      w'.state.store.users ≠ w.state.store.users ∧
      w'.state.store.messages ≠ w.state.store.messages ∧
      w'.state.store.access ≠ w.state.store.access := by
  obtain ⟨hnext, hwrites⟩ := beforeMessage_eval
  obtain ⟨tr, hrun⟩ := run_beforeMessage
  obtain ⟨w, hw⟩ : ∃ w, beforeMessage = w := ⟨_, rfl⟩
  rw [hw] at hnext hwrites hrun
  let _ := examplePrimitives
  let _ := plainFloats
  obtain ⟨task, past, k, hget⟩ := exists_call_of_next hnext
  cases hcreate : Database.createMessage w.state.store 1 1
      (exampleBody [("oneTimePreKeyId", .unsigned 5)]) 1000000 (some 2) (some 5) with
  | error e =>
      rw [hcreate] at hwrites
      cases hwrites
  | ok p =>
      rw [hcreate] at hwrites
      have hexec : exec doubtfulConfig messageCall w.state
          (.error (.runtimeError (bytes "connection lost"))) { w.state with store := p.2 } :=
        .inl ⟨p.1, p.2, hcreate, rfl, .inr ⟨rfl, _, rfl⟩⟩
      refine ⟨tr, w, _, _, hrun, .call hget hexec, ?_⟩
      exact of_decide_eq_true hwrites

end Kds
