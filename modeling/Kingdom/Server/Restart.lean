import Kingdom.Server.Visibility

/-!
# What a restart shows

`initSchema_` runs a data backfill each time the server starts: it grants every
message to every participant of its conversation who has no access row for it.
A message that was sent to one recipient leaves the other participants without
such a row, and so the next restart shows it to them.

* `KeepsViews` — running `initSchema_` changes no listing.
* `Covered` — every participant has an access row, revoked or not;
  `keepsViews_iff`.
* `PassesOver` — the calls that leave a participant without one.
* `keepsViews_iff_none_passed_over` — the runs in which every restart keeps the
  views.
-/

namespace Kds

open Codec Process

/-- Running `initSchema_` leaves every listing as it is. -/
def KeepsViews (s : Store) : Prop :=
  ∀ c u, Database.getMessagesByConversationIdForUser (Database.initSchema_ s) c u =
    Database.getMessagesByConversationIdForUser s c u

/-- Every participant of a message's conversation has an access row for it. -/
def Covered (s : Store) : Prop :=
  ∀ m ∈ s.messages, ∀ u, s.hasParticipant m.conversationId u = true →
    ∃ a ∈ s.access, a.messageId = m.id ∧ a.userId = u

/-! ## One restart -/

section State

variable {s : Store}

/-- Rows that conflict are not inserted. -/
theorem foldl_addAccess_covered {access rows : List AccessRow}
    (h : ∀ row ∈ rows, ∃ a ∈ access, a.key = row.key) : rows.foldl addAccess access = access := by
  induction rows with
  | nil => rfl
  | cons row rows ih =>
      obtain ⟨a, ha, hkey⟩ := h row (by simp)
      have hconflict : addAccess access row = access := by
        refine if_pos (List.any_eq_true.mpr ⟨a, ha, ?_⟩)
        simpa [AccessRow.key] using hkey
      rw [List.foldl_cons, hconflict]
      exact ih fun r hr => h r (by simp [hr])

/-- The backfill of a covered store inserts nothing. -/
theorem initSchema_covered (h : Covered s) : Database.initSchema_ s = s := by
  have hrows : ∀ row ∈ s.messages.flatMap fun m => s.accessRows m.id m.conversationId m.senderId,
      ∃ a ∈ s.access, a.key = row.key := by
    intro row hrow
    obtain ⟨m, hm, hrow⟩ := List.mem_flatMap.mp hrow
    obtain ⟨heq, hp⟩ := mem_accessRows.mp hrow
    obtain ⟨a, ha, ham, hau⟩ := h m hm row.userId hp
    exact ⟨a, ha, by rw [AccessRow.key, AccessRow.key, ham, hau, heq]⟩
  rw [Database.initSchema_, Store.backfill, Store.insertAccess, foldl_addAccess_covered hrows]

/-- **A restart keeps the views exactly when every participant is covered.** -/
theorem keepsViews_iff (h : StoreInv s) : KeepsViews s ↔ Covered s := by
  constructor
  · intro hviews m hm u hp
    by_contra hnone
    -- the backfill grants the message to the participant who has no row
    have hrow : (⟨m.id, u, m.senderId, none⟩ : AccessRow) ∈
        s.messages.flatMap fun m => s.accessRows m.id m.conversationId m.senderId :=
      List.mem_flatMap.mpr ⟨m, hm, mem_accessRows.mpr ⟨rfl, hp⟩⟩
    have hgranted : (Database.initSchema_ s).Granted m.id u := by
      obtain ⟨b, hb, hkey⟩ := covered_addRows hrow s.access
      have hbm : b.messageId = m.id := congrArg Prod.fst hkey
      have hbu : b.userId = u := congrArg Prod.snd hkey
      rcases mem_addRows hb with hold | ⟨hnew, -⟩
      · exact absurd ⟨b, hold, hbm, hbu⟩ hnone
      · obtain ⟨n, -, hn⟩ := List.mem_flatMap.mp hnew
        exact ⟨b, hb, hbm, hbu, by rw [(mem_accessRows.mp hn).1]⟩
    have hsees : Sees (Database.initSchema_ s) m.conversationId.toUInt64 u.toUInt64 m.id.toUInt64
        m.senderId.toUInt64 := by
      refine ⟨⟨m, hm, ?_⟩, ?_⟩
      · simp
      · simpa using hgranted
    obtain ⟨hpart, msgs, hmsgs, hin⟩ := (lists_iff (storeInv_initSchema_ h)).mpr ⟨_, hsees⟩
    rw [hviews] at hmsgs
    obtain ⟨sender, -, a, ha, ham, hau, -⟩ := (lists_iff h).mp ⟨hpart, msgs, hmsgs, hin⟩
    exact hnone ⟨a, ha, by simpa using ham, by simpa using hau⟩
  · intro hc c u
    rw [initSchema_covered hc]

end State

/-! ## Calls -/

/-- The call sends a message to one participant past another. -/
def PassesOver (s : Store) : (o : Op) → Res o → Prop
  | .createMessage c sender _ _ (some r) _, .ok _ =>
      ∃ u, Database.isParticipant s c u = true ∧ u ≠ sender ∧ u ≠ r
  | _, _ => False

section Calls

variable [FloatFormat] {s s' : Store}

theorem covered_createMessage {c sender timestamp id : UInt64} {payload : Bytes}
    {recipient preKey : Option UInt64} (h : StoreInv s) (hc : Covered s)
    (hok : Database.createMessage s c sender payload timestamp recipient preKey = .ok (id, s')) :
    Covered s' ↔ ∀ r ∈ recipient, ∀ u, Database.isParticipant s c u = true →
      u = sender ∨ u = r := by
  have haccess := access_createMessage h hok
  obtain ⟨t, -, hid, -, rfl⟩ := createMessage_ok hok
  have hfresh := h.messageIds.fresh hid
  constructor
  · rintro hcov r rfl u hp
    obtain ⟨a, ha, ham, hau⟩ := hcov _ (List.mem_append_right _ (List.mem_singleton_self _))
      (bigint u) hp
    rcases (haccess a).mp ha with hold | hnew
    · obtain ⟨n, hn, hnid, -⟩ := h.accessRefs a hold
      exact absurd (List.mem_map.mpr ⟨n, hn, hnid.trans ham⟩) hfresh
    · have hwho := (mem_grantedRows.mp hnew).2
      rw [hau] at hwho
      exact hwho.imp bigint_inj.mp bigint_inj.mp
  · intro hall m hm u hp
    rcases List.mem_append.mp hm with hm | hm
    · obtain ⟨a, ha, hrow⟩ := hc m hm u hp
      exact ⟨a, (haccess a).mpr (.inl ha), hrow⟩
    · rw [List.mem_singleton.mp hm] at hp ⊢
      replace hp : s.hasParticipant (bigint c) u = true := hp
      refine ⟨⟨bigint id, u, bigint sender, none⟩,
        (haccess _).mpr (.inr (mem_grantedRows.mpr ⟨rfl, ?_⟩)), rfl, rfl⟩
      cases recipient with
      | none => exact hp
      | some r =>
          have hwho := hall r rfl u.toUInt64 (by simpa [Database.isParticipant] using hp)
          exact hwho.imp (fun e => by rw [← e]; simp) (fun e => by rw [← e]; simp)

omit [FloatFormat] in
theorem covered_deleteMessage (hc : Covered s) (h : StoreInv s) (c m sender : UInt64) :
    Covered (Database.deleteMessage s c m sender).2 := by
  intro row hrow u hp
  obtain ⟨hrow, hkept⟩ := List.mem_filter.mp hrow
  obtain ⟨a, ha, ham, hau⟩ := hc row hrow u hp
  refine ⟨a, List.mem_filter.mpr ⟨ha, ?_⟩, ham, hau⟩
  simp only [Bool.not_eq_true', List.any_eq_false, List.mem_filter, decide_eq_true_eq, and_imp]
  intro n hn hdel hnid
  rw [h.message_eq hn hrow (hnid.trans ham)] at hdel
  simp [hdel] at hkept

omit [FloatFormat] in
theorem covered_revokeMessageAccess (hc : Covered s) (c m sender target now : UInt64) :
    Covered (Database.revokeMessageAccess s c m sender target now).2 := by
  intro row hrow u hp
  obtain ⟨a, ha, ham, hau⟩ := hc row hrow u hp
  by_cases hra : Database.isRevocable s c m sender target a = true
  · exact ⟨_, List.mem_map.mpr ⟨a, ha, if_pos hra⟩, ham, hau⟩
  · exact ⟨_, List.mem_map.mpr ⟨a, ha, if_neg hra⟩, ham, hau⟩

omit [FloatFormat] in
theorem covered_updateMessageBlockchainDigest (hc : Covered s) (m : UInt64) (digest : Bytes) :
    Covered (Database.updateMessageBlockchainDigest s m digest) := by
  intro row hrow u hp
  obtain ⟨row₀, hrow₀, rfl⟩ := List.mem_map.mp hrow
  obtain ⟨a, ha, ham, hau⟩ := hc row₀ hrow₀ u (by split_ifs at hp <;> exact hp)
  refine ⟨a, ha, ?_, hau⟩
  split_ifs <;> exact ham

omit [FloatFormat] in
/-- A new conversation has no messages yet. -/
theorem covered_createConversation {now : Int64} {name : Bytes} {ids : List UInt64} {id : UInt64}
    (hc : Covered s) (h : StoreInv s)
    (hok : Database.createConversation s now name ids = .ok (id, s')) : Covered s' := by
  have hevolves := evolves_createConversation h hok
  obtain ⟨-, -, rfl⟩ := createConversation_ok hok
  intro m hm u hp
  have hconv := h.conversation_of_participant (h.messageRefs m hm)
  exact hc m hm u ((hevolves.participants _ _ hconv).mp hp)

/-- **One call keeps every participant covered unless it passes one over.** -/
theorem covered_exec {cfg : Config} {o : Op} {r : Res o} {s s' : ServerState}
    (hdoubt : cfg.inDoubt = false) (hs : StoreInv s.store) (hc : Covered s.store)
    (h : exec cfg o s r s') :
    Covered s'.store ↔ ¬ PassesOver s.store o r := by
  have hkeep : Covered s'.store → ¬ PassesOver s.store o r →
      (Covered s'.store ↔ ¬ PassesOver s.store o r) := fun h1 h2 => ⟨fun _ => h2, fun _ => h1⟩
  cases o with
  | createUser name hash key =>
      cases r with
      | error e => exact hkeep (by rw [Transaction.of_throw hdoubt h]; exact hc) id
      | ok id =>
          obtain ⟨-, -, hstore⟩ := createUser_ok (Transaction.of_ok h).1
          exact hkeep (by rw [hstore]; exact hc) (by simp [PassesOver])
  | createConversation name ids =>
      cases r with
      | error e => exact hkeep (by rw [Transaction.of_throw hdoubt h]; exact hc) id
      | ok id =>
          exact hkeep (covered_createConversation hc hs (Transaction.of_ok h).1)
            (by simp [PassesOver])
  | createMessage c sender payload timestamp recipient preKey =>
      cases r with
      | error e =>
          refine hkeep (by rw [Transaction.of_throw hdoubt h]; exact hc) ?_
          cases recipient <;> simp [PassesOver]
      | ok id =>
          rw [covered_createMessage hs hc (Transaction.of_ok h).1]
          cases recipient with
          | none => simp [PassesOver]
          | some r => simp [PassesOver, or_iff_not_imp_left]
  | deleteMessage c m sender =>
      cases r with
      | error e => exact hkeep (by rw [Transaction.of_throw hdoubt h]; exact hc) id
      | ok b =>
          have hdel := congrArg Prod.snd (Except.ok.inj (Transaction.of_ok h).1)
          refine hkeep ?_ (by simp [PassesOver])
          rw [show s'.store = _ from hdel.symm]
          exact covered_deleteMessage hc hs c m sender
  | revokeMessageAccess c m sender target now =>
      cases r with
      | error e => exact hkeep (by rw [Transaction.of_throw hdoubt h]; exact hc) id
      | ok b =>
          have hrev := congrArg Prod.snd (Except.ok.inj (Transaction.of_ok h).1)
          refine hkeep ?_ (by simp [PassesOver])
          rw [show s'.store = _ from hrev.symm]
          exact covered_revokeMessageAccess hc c m sender target now
  | updateMessageBlockchainDigest m digest =>
      cases r with
      | error e => exact hkeep (by rw [Transaction.of_throw hdoubt h]; exact hc) id
      | ok b =>
          have hdig := congrArg Prod.snd (Except.ok.inj (Transaction.of_ok h).1)
          refine hkeep ?_ (by simp [PassesOver])
          rw [show s'.store = _ from hdig.symm]
          exact covered_updateMessageBlockchainDigest hc m digest
  | _ => exact hkeep (by rw [exec_read rfl h]; exact hc) (by simp [PassesOver])

end Calls

/-! ## Whole runs -/

section Runs

variable [Primitives] [FloatFormat] {cfg : Config} {tick : Clock → Clock → Prop}

/-- One step keeps every participant covered unless it passes one over; a restart
of a covered store changes nothing. -/
theorem covered_step {w w' : ServerSystem} {l : Label Op Res Task} (hdoubt : cfg.inDoubt = false)
    (hw : StoreInv w.state.store) (hc : Covered w.state.store) (h : ServerStep cfg tick w l w') :
    Covered w'.state.store ↔ ¬ l.IsCall (PassesOver w.state.store) := by
  cases h with
  | start t => simpa [Label.IsCall] using hc
  | call hget hexec => exact covered_exec hdoubt hw hc hexec
  | env henv =>
      simp only [Label.IsCall, not_false_eq_true, iff_true]
      cases henv with
      | clock => exact hc
      | steadyClock => exact hc
      | skipIds => exact hc
  | @restart s s' ths hrestart =>
      simp only [Label.IsCall, not_false_eq_true, iff_true]
      rw [show s' = restartServer s from hrestart]
      simpa only [restartServer, initSchema_covered hc] using hc

theorem covered_run {clock : Clock} {tr : ServerTrace} {w : ServerSystem}
    (hdoubt : cfg.inDoubt = false) (h : ServerRun cfg tick ⟨.initial clock, []⟩ tr w) :
    (∀ v ∈ tr.map Prod.fst ++ [w], Covered v.state.store) ↔
      ∀ x ∈ tr, ¬ x.2.IsCall (PassesOver x.1.state.store) := by
  induction h with
  | nil => simp [Covered, ServerState.initial, Store.empty]
  | @snoc tr v l u hrun hstep ih =>
      rw [List.map_append, List.map_singleton, List.forall_mem_append, ih, List.forall_mem_append,
        List.forall_mem_singleton, List.forall_mem_singleton]
      refine and_congr_right fun hnone => ?_
      exact covered_step hdoubt (sound_of_run storeInv_empty hrun).1 (ih.mpr hnone v (by simp)) hstep

/-- **Every restart keeps the views in exactly the runs that pass nobody over**:
a restart in some reached state changes a listing as soon as a message was sent
to one recipient past another participant of its conversation. -/
theorem keepsViews_iff_none_passed_over {clock : Clock} {tr : ServerTrace} {w : ServerSystem}
    (hdoubt : cfg.inDoubt = false) (h : ServerRun cfg tick ⟨.initial clock, []⟩ tr w) :
    (∀ v ∈ tr.map Prod.fst ++ [w], KeepsViews v.state.store) ↔
      ∀ x ∈ tr, ¬ x.2.IsCall (PassesOver x.1.state.store) := by
  rw [← covered_run hdoubt h]
  have hinv : ∀ v ∈ tr.map Prod.fst ++ [w], StoreInv v.state.store := by
    intro v hv
    rcases List.mem_append.mp hv with hv | hv
    · obtain ⟨x, hx, rfl⟩ := List.mem_map.mp hv
      obtain ⟨before, after, rfl⟩ := List.append_of_mem hx
      obtain ⟨-, hrun, -, -⟩ := h.split
      exact (sound_of_run storeInv_empty hrun).1
    · rw [List.mem_singleton.mp hv]
      exact (sound_of_run storeInv_empty h).1
  exact forall₂_congr fun v hv => keepsViews_iff (hinv v hv)

end Runs

/-! ## A message that was not for everybody -/

/-- The listing of conversation 1 by Carol. -/
def carolsView (s : Store) : List Bytes :=
  match Database.getMessagesByConversationIdForUser s 1 3 with
  | .ok msgs => msgs.map (·.payload)
  | .error _ => []

theorem not_keepsViews_directedStore : carolsView directedStore = [] ∧
    carolsView (Database.initSchema_ directedStore) = [bytes "for Bob"] ∧
    ¬ KeepsViews directedStore := by
  have hbefore : carolsView directedStore = [] := by decide
  have hafter : carolsView (Database.initSchema_ directedStore) = [bytes "for Bob"] := by decide
  refine ⟨hbefore, hafter, ?_⟩
  intro hkeeps
  rw [carolsView, hkeeps 1 3] at hafter
  rw [carolsView, hafter] at hbefore
  cases hbefore

/-- Carol does not see Alice's message to Bob, until the server restarts. -/
theorem directed_message_revealed :
    ∃ tr ths s, @ServerRun examplePrimitives plainFloats exampleConfig (fun _ _ => True)
      ⟨.initial 1000000, []⟩ tr ⟨s, ths⟩ ∧ carolsView s.store = [] ∧
        carolsView (Database.initSchema_ s.store) = [bytes "for Bob"] ∧ ¬ KeepsViews s.store := by
  obtain ⟨tr, ths, hrun, -⟩ := run_directedState
  refine ⟨tr, ths, directedState, hrun, ?_⟩
  rw [store_directedState]
  exact not_keepsViews_directedStore

/-- Alice's message to Bob passes Carol over. -/
theorem directed_message_passes_over :
    ∃ tr w, @ServerRun examplePrimitives plainFloats exampleConfig (fun _ _ => True)
      ⟨.initial 1000000, []⟩ tr w ∧ ∃ x ∈ tr, x.2.IsCall (PassesOver x.1.state.store) := by
  obtain ⟨tr, ths, hrun, -⟩ := run_directedState
  refine ⟨tr, _, hrun, ?_⟩
  by_contra hnone
  have hviews := (@keepsViews_iff_none_passed_over examplePrimitives plainFloats _ _ _ _ _ rfl hrun).mpr
    (by simpa using hnone)
  have hend := hviews ⟨directedState, ths⟩ (by simp)
  rw [store_directedState] at hend
  exact not_keepsViews_directedStore.2.2 hend

end Kds
