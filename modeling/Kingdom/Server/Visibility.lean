import Kingdom.Process.History
import Kingdom.Server.Session

/-!
# Who sees a message

A listing is a function of the history of the run: who was granted the message
when it was created, and what was revoked or deleted since.

* `Lists` — a listing of a conversation by a user contains a message.
* `Sees` — the same as rows of the two tables; `lists_iff`.
* `Creates`, `Withdraws` — the calls that grant and those that end it.
* `sees_exec` — what one call does to it.
* `lists_iff_granted_since` — the listing over whole runs of one process.
-/

namespace Kds

open Codec Process

/-- A listing of the conversation by the user contains the message. -/
def Lists (s : Store) (c u m : UInt64) : Prop :=
  Database.isParticipant s c u = true ∧
    ∃ msgs, Database.getMessagesByConversationIdForUser s c u = .ok msgs ∧ ∃ x ∈ msgs, x.id = m

/-- The user holds an access to the message, which is `sender`'s and in the
conversation. -/
def Sees (s : Store) (c u m sender : UInt64) : Prop :=
  (∃ row ∈ s.messages, row.id = bigint m ∧ row.conversationId = bigint c ∧
    row.senderId = bigint sender) ∧ s.Granted (bigint m) (bigint u)

/-! ## Listings -/

section Listings

variable {s : Store}

/-- A row as the listing shows it. -/
def MessageRow.view (m : MessageRow) : Message :=
  ⟨m.id.toUInt64, m.senderId.toUInt64, m.conversationId.toUInt64, m.payload, m.timestamp.toUInt64,
    m.blockchainDigest⟩

theorem toMessage_ok {m : MessageRow} (h : 0 ≤ m.timestamp.toInt) :
    Database.toMessage m = .ok m.view := by
  have hneg : ¬ m.timestamp < 0 := by
    rw [Int64.lt_iff_toInt_lt]
    simpa using h
  simp [Database.toMessage, asUInt64, hneg, MessageRow.view, bind, Except.bind, pure, Except.pure]

theorem mapM_toMessage {rows : List MessageRow} (h : ∀ m ∈ rows, 0 ≤ m.timestamp.toInt) :
    rows.mapM Database.toMessage = .ok (rows.map MessageRow.view) := by
  induction rows with
  | nil => rfl
  | cons m rows ih =>
      rw [List.mapM_cons, toMessage_ok (h m (by simp)), ih fun n hn => h n (by simp [hn])]
      rfl

theorem mem_visibleRows {c u : Int64} {m : MessageRow} :
    m ∈ Database.visibleRows s c u ↔
      m ∈ s.messages ∧ m.conversationId = c ∧ s.Granted m.id u := by
  simp only [Database.visibleRows, List.mem_insertionSort, List.mem_flatMap, List.mem_map,
    List.mem_filter, decide_eq_true_eq, Store.Granted]
  constructor
  · intro h
    obtain ⟨n, hn, a, ⟨ha, hrow⟩, rfl⟩ := h
    exact ⟨hn, hrow.2.1, a, ha, hrow.1, hrow.2.2.1, hrow.2.2.2⟩
  · intro h
    obtain ⟨hm, hc, a, ha, ham, hau, hrev⟩ := h
    exact ⟨m, hm, a, ⟨ha, ham, hc, hau, hrev⟩, rfl⟩

/-- The listing never throws, for every stored time fits. -/
theorem getMessages_ok (h : StoreInv s) (c u : UInt64) :
    Database.getMessagesByConversationIdForUser s c u =
      .ok ((Database.visibleRows s (bigint c) (bigint u)).map MessageRow.view) :=
  mapM_toMessage fun m hm => h.timestamps m (mem_visibleRows.mp hm).1

/-- **A listing shows exactly the messages the user holds an access to.** -/
theorem lists_iff (h : StoreInv s) {c u m : UInt64} :
    Lists s c u m ↔ ∃ sender, Sees s c u m sender := by
  simp only [Lists, getMessages_ok h, Except.ok.injEq, exists_eq_left', List.mem_map,
    exists_exists_and_eq_and, mem_visibleRows, Sees]
  constructor
  · intro hl
    obtain ⟨-, row, ⟨hrow, hc, hgranted⟩, hid⟩ := hl
    have hid' : row.id = bigint m := by rw [← hid, MessageRow.view, bigint_toUInt64]
    exact ⟨row.senderId.toUInt64, ⟨row, hrow, hid', hc, by simp⟩, hid' ▸ hgranted⟩
  · intro hs
    obtain ⟨sender, ⟨row, hrow, hid, hc, -⟩, hgranted⟩ := hs
    refine ⟨?_, row, ⟨hrow, hc, hid.symm ▸ hgranted⟩, by rw [MessageRow.view, hid]; simp⟩
    -- an access row belongs to a participant
    obtain ⟨a, ha, ham, hau, -⟩ := hgranted
    obtain ⟨n, hn, hnid, -, hp⟩ := h.accessRefs a ha
    rw [h.message_eq hn hrow (hnid.trans (ham.trans hid.symm)), hc, hau] at hp
    exact hp

end Listings

/-! ## What the operations do -/

/-- Who is granted a message that is created in this state. -/
def GrantedAt (s : Store) (c sender : UInt64) (recipient : Option UInt64) (u : UInt64) : Prop :=
  match recipient with
  | some r => u = sender ∨ u = r
  | none => Database.isParticipant s c u = true

section Operations

variable {s s' : Store} {c u m sender : UInt64}

theorem sees_createMessage [FloatFormat] {c' sender' timestamp id : UInt64} {payload : Bytes}
    {recipient preKey : Option UInt64} (h : StoreInv s)
    (hok : Database.createMessage s c' sender' payload timestamp recipient preKey = .ok (id, s')) :
    Sees s' c u m sender ↔ Sees s c u m sender ∨
      (m = id ∧ c = c' ∧ sender = sender' ∧ GrantedAt s c' sender' recipient u) := by
  have haccess := access_createMessage h hok
  obtain ⟨t, -, hid, -, rfl⟩ := createMessage_ok hok
  have hfresh := h.messageIds.fresh hid
  have hnew : (∃ a ∈ Database.grantedRows s (bigint id) (bigint c') (bigint sender')
      (recipient.map bigint), a.messageId = bigint m ∧ a.userId = bigint u ∧ a.revokedAt = none) ↔
      m = id ∧ GrantedAt s c' sender' recipient u := by
    constructor
    · intro hg
      obtain ⟨a, ha, ham, hau, -⟩ := hg
      obtain ⟨heq, hwho⟩ := mem_grantedRows.mp ha
      rw [heq] at ham
      refine ⟨(bigint_inj.mp ham).symm, ?_⟩
      rw [hau] at hwho
      cases recipient with
      | none => exact hwho
      | some r => exact hwho.imp bigint_inj.mp bigint_inj.mp
    · intro hg
      obtain ⟨rfl, hg⟩ := hg
      refine ⟨⟨bigint m, bigint u, bigint sender', none⟩, mem_grantedRows.mpr ⟨rfl, ?_⟩, rfl, rfl,
        rfl⟩
      cases recipient with
      | none => exact hg
      | some r => exact hg.imp bigint_inj.mpr bigint_inj.mpr
  constructor
  · intro hs
    obtain ⟨⟨row, hrow, hrid, hrc, hrs⟩, a, ha, ham, hau, hrev⟩ := hs
    rcases (haccess a).mp ha with ha | ha
    · obtain ⟨n, hn, hnid, -⟩ := h.accessRefs a ha
      rcases List.mem_append.mp hrow with hrow | hrow
      · exact .inl ⟨⟨row, hrow, hrid, hrc, hrs⟩, a, ha, ham, hau, hrev⟩
      · -- an access row from before is not of the new message
        rw [List.mem_singleton.mp hrow] at hrid
        exact absurd (List.mem_map.mpr ⟨n, hn, hnid.trans (ham.trans hrid.symm)⟩) hfresh
    · obtain ⟨rfl, hg⟩ := hnew.mp ⟨a, ha, ham, hau, hrev⟩
      rcases List.mem_append.mp hrow with hrow | hrow
      · exact absurd (List.mem_map.mpr ⟨row, hrow, hrid⟩) hfresh
      · rw [List.mem_singleton.mp hrow] at hrc hrs
        exact .inr ⟨rfl, (bigint_inj.mp hrc).symm, (bigint_inj.mp hrs).symm, hg⟩
  · intro hs
    rcases hs with ⟨⟨row, hrow, hrest⟩, a, ha, hgrant⟩ | ⟨rfl, rfl, rfl, hg⟩
    · exact ⟨⟨row, List.mem_append_left _ hrow, hrest⟩, a, (haccess a).mpr (.inl ha), hgrant⟩
    · obtain ⟨a, ha, hgrant⟩ := hnew.mpr ⟨rfl, hg⟩
      exact ⟨⟨_, List.mem_append_right _ (List.mem_singleton_self _), rfl, rfl, rfl⟩, a,
        (haccess a).mpr (.inr ha), hgrant⟩

theorem isOwnMessage_iff {row : MessageRow} :
    Database.isOwnMessage c m sender row = true ↔
      row.id = bigint m ∧ row.conversationId = bigint c ∧ row.senderId = bigint sender := by
  simp [Database.isOwnMessage]

/-- Rows with pairwise different keys that all have one key are at most one. -/
theorem length_filter_eq_one {α β : Type} [DecidableEq β] {l : List α} {key : α → β} {p : α → Bool}
    (h : (l.map key).Nodup) {k : β} (hp : ∀ a ∈ l, p a = true → key a = k) :
    (l.filter p).length = 1 ↔ ∃ a ∈ l, p a = true := by
  have hle : (l.filter p).length ≤ 1 := by
    have hnodup : ((l.filter p).map key).Nodup := h.sublist (List.filter_sublist.map key)
    have hall : ∀ b ∈ (l.filter p).map key, b = k := by
      intro b hb
      obtain ⟨a, ha, rfl⟩ := List.mem_map.mp hb
      exact hp a (List.mem_of_mem_filter ha) (List.of_mem_filter ha)
    have hrep := List.eq_replicate_of_mem hall
    rw [hrep, List.nodup_replicate] at hnodup
    simpa using hnodup
  rw [show (∃ a ∈ l, p a = true) ↔ 0 < (l.filter p).length by
    rw [List.length_pos_iff_exists_mem]; simp [List.mem_filter]]
  omega

theorem deleteMessage_answer (h : StoreInv s) {c' m' sender' : UInt64} :
    (Database.deleteMessage s c' m' sender').1 = true ↔
      ∃ row ∈ s.messages, Database.isOwnMessage c' m' sender' row = true := by
  simp only [Database.deleteMessage, beq_iff_eq]
  exact length_filter_eq_one h.messageIds.nodup fun row _ hrow => (isOwnMessage_iff.mp hrow).1

/-- A message that was deleted is seen by nobody. -/
theorem sees_deleteMessage (h : StoreInv s) {c' m' sender' : UInt64} :
    Sees (Database.deleteMessage s c' m' sender').2 c u m sender ↔ Sees s c u m sender ∧
      ¬ ((Database.deleteMessage s c' m' sender').1 = true ∧ c' = c ∧ m' = m ∧
        sender' = sender) := by
  rw [deleteMessage_answer h]
  constructor
  · intro hs
    obtain ⟨⟨row, hrow, hrest⟩, a, ha, hgrant⟩ := hs
    obtain ⟨hrow, hkept⟩ := List.mem_filter.mp hrow
    refine ⟨⟨⟨row, hrow, hrest⟩, a, List.mem_of_mem_filter ha, hgrant⟩, ?_⟩
    intro hdel
    obtain ⟨-, rfl, rfl, rfl⟩ := hdel
    rw [isOwnMessage_iff.mpr hrest] at hkept
    cases hkept
  · intro hs
    obtain ⟨⟨⟨row, hrow, hrest⟩, a, ha, hgrant⟩, hnot⟩ := hs
    -- the row that was deleted would be this one
    have hkept : ∀ n ∈ s.messages, n.id = bigint m →
        Database.isOwnMessage c' m' sender' n = false := by
      intro n hn hnid
      rw [Bool.eq_false_iff]
      intro hown
      rw [h.message_eq hn hrow (hnid.trans hrest.1.symm)] at hown
      obtain ⟨h1, h2, h3⟩ := isOwnMessage_iff.mp hown
      exact hnot ⟨⟨row, hrow, hown⟩, bigint_inj.mp (h2.symm.trans hrest.2.1),
        bigint_inj.mp (h1.symm.trans hrest.1), bigint_inj.mp (h3.symm.trans hrest.2.2)⟩
    refine ⟨⟨row, List.mem_filter.mpr ⟨hrow, by simp [hkept row hrow hrest.1]⟩, hrest⟩, a,
      List.mem_filter.mpr ⟨ha, ?_⟩, hgrant⟩
    simp only [Bool.not_eq_true', List.any_eq_false, List.mem_filter, decide_eq_true_eq, and_imp]
    intro n hn hown hnid
    rw [hkept n hn (hnid.trans hgrant.1)] at hown
    cases hown

theorem revokeMessageAccess_answer (h : StoreInv s) {c' m' sender' target now : UInt64} :
    (Database.revokeMessageAccess s c' m' sender' target now).1 = true ↔
      ∃ a ∈ s.access, Database.isRevocable s c' m' sender' target a = true := by
  simp only [Database.revokeMessageAccess, beq_iff_eq]
  refine length_filter_eq_one (k := (bigint m', bigint target)) h.accessKeys ?_
  intro a _ ha
  simp only [Database.isRevocable, Bool.decide_and, Bool.and_eq_true, decide_eq_true_eq] at ha
  rw [AccessRow.key, ha.1, ha.2.1]

/-- A revoke that succeeds hides the message from its target, and from nobody
else. -/
theorem sees_revokeMessageAccess (h : StoreInv s) {c' m' sender' target now : UInt64} :
    Sees (Database.revokeMessageAccess s c' m' sender' target now).2 c u m sender ↔
      Sees s c u m sender ∧
      ¬ ((Database.revokeMessageAccess s c' m' sender' target now).1 = true ∧ c' = c ∧ m' = m ∧
        sender' = sender ∧ target = u) := by
  rw [revokeMessageAccess_answer h]
  have hrevocable : ∀ a : AccessRow, Database.isRevocable s c' m' sender' target a = true ↔
      a.messageId = bigint m' ∧ a.userId = bigint target ∧ a.userId ≠ bigint sender' ∧
        a.revokedAt = none ∧
        ∃ row ∈ s.messages, Database.isOwnMessage c' m' sender' row = true := by
    intro a
    simp [Database.isRevocable]
  constructor
  · intro hs
    obtain ⟨hrow, b, hb, hbm, hbu, hrev⟩ := hs
    obtain ⟨a, ha, rfl⟩ := List.mem_map.mp hb
    by_cases hra : Database.isRevocable s c' m' sender' target a = true
    · simp [hra] at hrev
    · rw [if_neg hra] at hbm hbu hrev
      refine ⟨⟨hrow, a, ha, hbm, hbu, hrev⟩, ?_⟩
      intro hdone
      obtain ⟨⟨b, hb, hrb⟩, rfl, rfl, rfl, rfl⟩ := hdone
      -- the row that was revoked is this one
      obtain ⟨h1, h2, h3⟩ := (hrevocable b).mp hrb
      rw [h.access_eq hb ha (by rw [AccessRow.key, AccessRow.key, h1, h2, hbm, hbu])] at hrb
      exact hra hrb
  · intro hs
    obtain ⟨⟨⟨row, hrow, hrest⟩, a, ha, ham, hau, hrev⟩, hnot⟩ := hs
    refine ⟨⟨row, hrow, hrest⟩, a, List.mem_map.mpr ⟨a, ha, if_neg ?_⟩, ham, hau, hrev⟩
    intro hra
    obtain ⟨h1, h2, -, -, n, hn, hown⟩ := (hrevocable a).mp hra
    obtain ⟨h3, h4, h5⟩ := isOwnMessage_iff.mp hown
    have hmid : bigint m' = bigint m := h1.symm.trans ham
    rw [h.message_eq hn hrow (h3.trans (hmid.trans hrest.1.symm))] at h4 h5
    exact hnot ⟨⟨a, ha, hra⟩, bigint_inj.mp (h4.symm.trans hrest.2.1), bigint_inj.mp hmid,
      bigint_inj.mp (h5.symm.trans hrest.2.2), bigint_inj.mp (h2.symm.trans hau)⟩

/-- A digest changes nothing of what is seen. -/
theorem sees_updateMessageBlockchainDigest {m' : UInt64} {digest : Bytes} :
    Sees (Database.updateMessageBlockchainDigest s m' digest) c u m sender ↔
      Sees s c u m sender := by
  unfold Sees
  refine and_congr_left fun _ => ?_
  constructor
  · intro hs
    obtain ⟨n, hn, hrest⟩ := hs
    obtain ⟨row, hrow, rfl⟩ := List.mem_map.mp hn
    refine ⟨row, hrow, ?_⟩
    split_ifs at hrest <;> exact hrest
  · intro hs
    obtain ⟨row, hrow, hrest⟩ := hs
    by_cases hid : row.id = bigint m'
    · exact ⟨_, List.mem_map.mpr ⟨row, hrow, if_pos hid⟩, hrest⟩
    · exact ⟨_, List.mem_map.mpr ⟨row, hrow, if_neg hid⟩, hrest⟩

/-- What is seen depends on the messages and their access rows only. -/
theorem sees_congr (hm : s'.messages = s.messages) (ha : s'.access = s.access) :
    Sees s' c u m sender ↔ Sees s c u m sender := by
  simp only [Sees, Store.Granted, hm, ha]

end Operations

/-! ## Calls -/

/-- The call created the message, and granted it to the user. -/
def Creates (s : Store) (c u m sender : UInt64) : (o : Op) → Res o → Prop
  | .createMessage c' sender' _ _ recipient _, r =>
      r = .ok m ∧ c = c' ∧ sender = sender' ∧ GrantedAt s c' sender' recipient u
  | _, _ => False

/-- The call deleted the sender's message, or revoked the user's access to it. -/
def Withdraws (c u m sender : UInt64) : (o : Op) → Res o → Prop
  | .deleteMessage c' m' sender', r => r = .ok true ∧ c' = c ∧ m' = m ∧ sender' = sender
  | .revokeMessageAccess c' m' sender' target _, r =>
      r = .ok true ∧ c' = c ∧ m' = m ∧ sender' = sender ∧ target = u
  | _, _ => False

/-- **What one call does to what is seen.** -/
theorem sees_exec [FloatFormat] {cfg : Config} {o : Op} {r : Res o} {s s' : ServerState}
    {c u m sender : UInt64} (hdoubt : cfg.inDoubt = false) (hs : StoreInv s.store)
    (h : exec cfg o s r s') :
    Sees s'.store c u m sender ↔
      (Sees s.store c u m sender ∧ ¬ Withdraws c u m sender o r) ∨
        Creates s.store c u m sender o r := by
  have hsame : s' = s → ¬ Withdraws c u m sender o r → ¬ Creates s.store c u m sender o r →
      (Sees s'.store c u m sender ↔
        (Sees s.store c u m sender ∧ ¬ Withdraws c u m sender o r) ∨
          Creates s.store c u m sender o r) := by
    intro heq hw hc
    rw [heq]
    simp [hw, hc]
  cases o with
  | createUser name hash key =>
      cases r with
      | error e => exact hsame (Transaction.of_throw hdoubt h) id id
      | ok id =>
          obtain ⟨-, -, hstore⟩ := createUser_ok (Transaction.of_ok h).1
          have hseen : Sees s'.store c u m sender ↔ Sees s.store c u m sender :=
            sees_congr (by rw [hstore]) (by rw [hstore])
          rw [hseen]
          simp [Withdraws, Creates]
  | createConversation name ids =>
      cases r with
      | error e => exact hsame (Transaction.of_throw hdoubt h) id id
      | ok id =>
          obtain ⟨-, -, hstore⟩ := createConversation_ok (Transaction.of_ok h).1
          have hseen : Sees s'.store c u m sender ↔ Sees s.store c u m sender :=
            sees_congr (by rw [hstore]) (by rw [hstore])
          rw [hseen]
          simp [Withdraws, Creates]
  | createMessage c' sender' payload timestamp recipient preKey =>
      cases r with
      | error e => exact hsame (Transaction.of_throw hdoubt h) id (by simp [Creates])
      | ok id =>
          rw [sees_createMessage hs (Transaction.of_ok h).1]
          simp [Withdraws, Creates, eq_comm]
  | deleteMessage c' m' sender' =>
      cases r with
      | error e => exact hsame (Transaction.of_throw hdoubt h) (by simp [Withdraws]) id
      | ok b =>
          have hdel := Except.ok.inj (Transaction.of_ok h).1
          have hseen := @sees_deleteMessage s.store c u m sender hs c' m' sender'
          rw [hdel] at hseen
          rw [hseen]
          simp [Withdraws, Creates]
  | revokeMessageAccess c' m' sender' target now =>
      cases r with
      | error e => exact hsame (Transaction.of_throw hdoubt h) (by simp [Withdraws]) id
      | ok b =>
          have hrev := Except.ok.inj (Transaction.of_ok h).1
          have hseen := @sees_revokeMessageAccess s.store c u m sender hs c' m' sender' target now
          rw [hrev] at hseen
          rw [hseen]
          simp [Withdraws, Creates]
  | updateMessageBlockchainDigest m' digest =>
      cases r with
      | error e => exact hsame (Transaction.of_throw hdoubt h) id id
      | ok b =>
          have hdig : Database.updateMessageBlockchainDigest s.store m' digest = s'.store :=
            congrArg Prod.snd (Except.ok.inj (Transaction.of_ok h).1)
          rw [← hdig, sees_updateMessageBlockchainDigest]
          simp [Withdraws, Creates]
  | _ =>
      rw [exec_read rfl h]
      simp [Withdraws, Creates]

/-! ## What was withdrawn stays so -/

section Withdrawn

variable {c u m sender : UInt64}

/-- What is seen of an old message was seen before. -/
theorem sees_of_evolves {s s' : Store} (h : Evolves s s') (hm : (bigint m).toInt ≤ s.messageSeq)
    (hs : Sees s' c u m sender) : Sees s c u m sender := by
  obtain ⟨⟨row, hrow, hid, hc, hsender⟩, hgranted⟩ := hs
  obtain ⟨row₀, hrow₀, heq⟩ := h.messages row hrow (by rw [hid]; exact hm)
  rw [heq] at hid hc hsender
  exact ⟨⟨row₀, hrow₀, hid, hc, hsender⟩, h.granted _ _ hm hgranted⟩

/-- A call that withdrew a message did so to a message of its sender. -/
theorem own_of_withdraws [FloatFormat] {cfg : Config} {o : Op} {r : Res o} {s s' : ServerState}
    (hs : StoreInv s.store) (h : exec cfg o s r s') (hw : Withdraws c u m sender o r) :
    (∃ row ∈ s.store.messages, row.id = bigint m ∧ row.senderId = bigint sender) ∧
      s'.store.messageSeq = s.store.messageSeq := by
  unfold Withdraws at hw
  split at hw
  · obtain ⟨rfl, rfl, rfl, rfl⟩ := hw
    have hdel := Except.ok.inj (Transaction.of_ok h).1
    obtain ⟨row, hrow, hown⟩ := (deleteMessage_answer hs).mp (congrArg Prod.fst hdel)
    have hseq := congrArg (fun p => p.2.messageSeq) hdel
    exact ⟨⟨row, hrow, (isOwnMessage_iff.mp hown).1, (isOwnMessage_iff.mp hown).2.2⟩, hseq.symm⟩
  · obtain ⟨rfl, rfl, rfl, rfl, rfl⟩ := hw
    have hrev := Except.ok.inj (Transaction.of_ok h).1
    obtain ⟨a, -, ha⟩ := (revokeMessageAccess_answer hs).mp (congrArg Prod.fst hrev)
    simp only [Database.isRevocable, Bool.decide_and, Bool.and_eq_true, decide_eq_true_eq,
      List.any_eq_true] at ha
    obtain ⟨-, -, -, -, row, hrow, hown⟩ := ha
    have hseq := congrArg (fun p => p.2.messageSeq) hrev
    exact ⟨⟨row, hrow, (isOwnMessage_iff.mp hown).1, (isOwnMessage_iff.mp hown).2.2⟩, hseq.symm⟩
  · cases hw

/-- **What a call has withdrawn is not seen again** in any later state. -/
theorem not_sees_of_withdraws [FloatFormat] {cfg : Config} {o : Op} {r : Res o}
    {s s' : ServerState} {later : Store} (hdoubt : cfg.inDoubt = false) (hs : StoreInv s.store)
    (h : exec cfg o s r s') (hw : Withdraws c u m sender o r) (hlater : Evolves s'.store later)
    (sender' : UInt64) :
    ¬ Sees later c u m sender' := by
  intro hsees
  obtain ⟨⟨row, hrow, hid, hsender⟩, hseq⟩ := own_of_withdraws hs h hw
  have hle : (bigint m).toInt ≤ s'.store.messageSeq := by
    rw [← hid, hseq]
    exact (hs.messageIds.bound _ (List.mem_map_of_mem hrow)).2
  have hthere := (sees_exec hdoubt hs h).mp (sees_of_evolves hlater hle hsees)
  rcases hthere with ⟨⟨⟨row', hrow', hid', -, hsender'⟩, -⟩, hnot⟩ | hc
  · -- the message has one sender
    have hsame : sender' = sender := by
      rw [hs.message_eq hrow' hrow (hid'.trans hid.symm), hsender] at hsender'
      exact (bigint_inj.mp hsender').symm
    exact hnot (hsame ▸ hw)
  · unfold Withdraws at hw
    split at hw
    · exact hc
    · exact hc
    · exact hw

end Withdrawn

/-! ## Whole runs -/

section Runs

variable [Primitives] [FloatFormat] {cfg : Config} {tick : Clock → Clock → Prop}

/-- What one step does to what is seen, unless the server restarts. -/
theorem sees_step {w w' : ServerSystem} {l : Label Op Res Task} {c u m sender : UInt64}
    (hdoubt : cfg.inDoubt = false) (hw : StoreInv w.state.store) (h : ServerStep cfg tick w l w')
    (hl : l ≠ .restart) :
    Sees w'.state.store c u m sender ↔
      (Sees w.state.store c u m sender ∧ ¬ l.IsCall (Withdraws c u m sender)) ∨
        l.IsCall (Creates w.state.store c u m sender) := by
  cases h with
  | start t => simp [Label.IsCall]
  | call hget hexec => exact sees_exec hdoubt hw hexec
  | @env s s' ths henv =>
      cases henv with
      | clock => simp [Label.IsCall]
      | steadyClock => simp [Label.IsCall]
      | @skipIds u' c' m' =>
          have hseen : Sees { s.store with
              userSeq := u', conversationSeq := c', messageSeq := m' } c u m sender ↔
                Sees s.store c u m sender := sees_congr rfl rfl
          simpa [Label.IsCall] using hseen
  | restart => exact absurd rfl hl

/-- A request that was answered with success has withdrawn the message. -/
def WithdrawnBy (req : Request) (res : Response) (c u m : UInt64) : Prop :=
  res.status = 200 ∧ ∃ conv msg, parseId conv = some c ∧ parseId msg = some m ∧
    (endpointOf req.method req.path = some (.deleteMessage conv msg) ∨
      ∃ user, endpointOf req.method req.path = some (.revokeMessageAccess conv msg user) ∧
        parseId user = some u)

theorem withdraws_of_answered {req : Request} {past : Events} {res : Response} {c u m : UInt64}
    (h : Answered cfg req past res) (hres : WithdrawnBy req res c u m) :
    ∃ sender o r, Withdraws c u m sender o r ∧ Said past o r := by
  obtain ⟨hstatus, conv, msg, hc, hm, he⟩ := hres
  rcases he with he | ⟨user, he, hu⟩
  · simp only [Answered, he] at h
    obtain ⟨c', m', sender, hc', hm', -, hsaid⟩ := h hstatus
    rw [hc] at hc'
    rw [hm] at hm'
    cases hc'
    cases hm'
    exact ⟨sender, .deleteMessage c m sender, .ok true, ⟨rfl, rfl, rfl, rfl⟩, hsaid⟩
  · simp only [Answered, he] at h
    obtain ⟨c', m', target, sender, now, hc', hm', hu', -, hsaid⟩ := h hstatus
    rw [hc] at hc'
    rw [hm] at hm'
    rw [hu] at hu'
    cases hc'
    cases hm'
    cases hu'
    exact ⟨sender, .revokeMessageAccess c m sender u now, .ok true, ⟨rfl, rfl, rfl, rfl, rfl⟩, hsaid⟩

/-- **A listing is what the run says.**  From any moment of a run on, and as long
as the server does not restart, a listing of `c` by `u` contains `m` exactly when
`u` takes part in `c` and either saw the message from the start or was granted it
by the request that created it, and since then its sender has neither deleted it
nor revoked the access of `u`.  So what a request was told it has withdrawn is
in no later listing. -/
theorem lists_iff_granted_since {clock : Clock} {tr₀ tr : ServerTrace} {w₀ w : ServerSystem}
    (hdoubt : cfg.inDoubt = false) (h₀ : ServerRun cfg tick ⟨.initial clock, []⟩ tr₀ w₀)
    (h : ServerRun cfg tick w₀ tr w)
    (hone : ∀ x ∈ tr, x.2 ≠ .restart) (c u m : UInt64) :
    (Lists w.state.store c u m ↔ Database.isParticipant w.state.store c u = true ∧
      ∃ sender,
        (Sees w₀.state.store c u m sender ∧ ∀ x ∈ tr, ¬ x.2.IsCall (Withdraws c u m sender)) ∨
        Since (fun x => x.2.IsCall (Creates x.1.state.store c u m sender))
          (fun x => x.2.IsCall (Withdraws c u m sender)) tr) ∧
    ∀ th ∈ w.threads, ∀ req seen res, th.task = .request req seen → th.prog = .pure (some res) →
      WithdrawnBy req res c u m → ¬ Lists w.state.store c u m := by
  have hsound : ∀ {tr' v}, ServerRun cfg tick w₀ tr' v → (serverContract cfg tick).Sound v :=
    fun hr => sound_of_run storeInv_empty (h₀.append hr)
  have hhistory : ∀ sender, Sees w.state.store c u m sender ↔
      (Sees w₀.state.store c u m sender ∧ ∀ x ∈ tr, ¬ x.2.IsCall (Withdraws c u m sender)) ∨
        Since (fun x => x.2.IsCall (Creates x.1.state.store c u m sender))
          (fun x => x.2.IsCall (Withdraws c u m sender)) tr := by
    intro sender
    apply Run.since h
    intro tr' v l v' hr hs hmem
    exact sees_step hdoubt (hsound hr).1 hs (hone _ hmem)
  refine ⟨?_, ?_⟩
  · simp only [← hhistory]
    constructor
    · intro hl
      exact ⟨hl.1, (lists_iff (hsound h).1).mp hl⟩
    · intro hl
      exact (lists_iff (hsound h).1).mpr hl.2
  · intro th hth req seen res htask hprog hres hl
    obtain ⟨hpast, hpost⟩ := Contract.post_of_done (hsound h) hth hprog
    rw [htask] at hpost
    obtain ⟨sender, o, r, hw, s₁, s₂, hmem⟩ := withdraws_of_answered (hpost res rfl) hres
    obtain ⟨hinv, hexec, hlater⟩ := hpast.2 _ hmem
    obtain ⟨sender', hsees⟩ := (lists_iff (hsound h).1).mp hl
    exact not_sees_of_withdraws hdoubt hinv hexec hw hlater sender' hsees

end Runs

/-- Bob's listing holds Alice's message, so a step of the session granted it. -/
theorem lists_iff_granted_since_example :
    ∃ tr w, @ServerRun examplePrimitives plainFloats exampleConfig (fun _ _ => True)
      ⟨.initial 1000000, []⟩ tr w ∧
      ∃ sender, Since (fun x => x.2.IsCall (Creates x.1.state.store 1 2 1 sender))
        (fun x => x.2.IsCall (Withdraws 1 2 1 sender)) tr := by
  obtain ⟨tr, ths, hrun, hone, -⟩ := run_directedState
  have hiff := (@lists_iff_granted_since examplePrimitives plainFloats _ _ _ _ _ _ _ rfl (.nil _)
    hrun hone 1 2 1).1
  have hlists : Lists directedStore 1 2 1 := by
    refine ⟨by decide, [⟨1, 1, 1, bytes "for Bob", 1000000, []⟩], by decide, _,
      List.mem_singleton_self _, rfl⟩
  rw [store_directedState] at hiff
  obtain ⟨-, sender, hsince⟩ := hiff.mp hlists
  refine ⟨tr, _, hrun, sender, hsince.resolve_left ?_⟩
  intro hstart
  obtain ⟨⟨row, hrow, -⟩, -⟩ := hstart.1
  simp [ServerState.initial, Store.empty] at hrow

end Kds
