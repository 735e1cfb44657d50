import Kingdom.Server.Bundle
import Kingdom.Server.Visibility

/-!
# What a request may change

Every change a request makes to the store is one its user is entitled to, and
nothing else changes with it.

* `Change` — the changes a request may make for its user, each with all it
  leaves alone.
* `Untouched` — nothing of a conversation changes.
* `KeepsKeys` — no user loses more than the entries of one prekey id.
* `authority_bounded` — every call of every request, in every run.
-/

namespace Kds

open Codec Process

section Definitions

variable [FloatFormat]

/-- None of the events changed the store. -/
def Unchanged (past : Events) : Prop := ∀ e ∈ past, e.post.store = e.pre.store

/-- The users after a message of `u` in `c`: at most one other participant's
bundle loses the entries of one prekey id. -/
def BundleChange (s : Store) (c u : UInt64) (users : List UserRow) : Prop :=
  users = s.users ∨ ∃ r k text text', r ≠ u ∧ Database.isParticipant s c r = true ∧
    Database.getUserPublicKey s r = some text ∧ Drops k text text' ∧
    users = (Database.setPublicKey s (bigint r) text').users

/-- What one call of a request of `u` may change; but for the digest of a message
the request has just created, it is the only change of the request. -/
inductive Change (u : UInt64) (past : Events) (s s' : Store) : Prop where
  | conversation {id : UInt64} {now : Int64} {name : Bytes} {ids : List UInt64}
      (honly : Unchanged past) (hu : u ∈ ids)
      (h : s' = { s with
        conversations := s.conversations ++ [⟨bigint id, name, now⟩]
        participants := s.participants ++ ids.map fun v => ⟨bigint id, bigint v⟩
        conversationSeq := s.conversationSeq + 1 })
  | message {id c timestamp : UInt64} {payload : Bytes} {users : List UserRow}
      {access : List AccessRow} (honly : Unchanged past)
      (hu : Database.isParticipant s c u = true) (husers : BundleChange s c u users)
      (hold : ∀ a ∈ s.access, a ∈ access)
      (hnew : ∀ a ∈ access, a ∈ s.access ∨ a = ⟨bigint id, a.userId, bigint u, none⟩ ∧
        s.hasParticipant (bigint c) a.userId = true)
      (h : s' = { s with
        users := users
        messages := s.messages ++ [newMessage id c u payload timestamp]
        access := access
        messageSeq := s.messageSeq + 1 })
  | digest {before after : Events} {m c timestamp : UInt64} {payload digest : Bytes}
      {recipient preKey : Option UInt64} {s₀ s₁ : ServerState}
      (hpast : past = before ++
        ⟨.createMessage c u payload timestamp recipient preKey, .ok m, s₀, s₁⟩ :: after)
      (hbefore : Unchanged before) (hafter : Unchanged after)
      (hown : ∀ row ∈ s.messages, row.id = bigint m →
        row.senderId = bigint u ∧ row.conversationId = bigint c)
      (hu : Database.isParticipant s c u = true)
      (h : s' = { s with messages := s.messages.map fun row =>
        if row.id = bigint m then { row with blockchainDigest := digest } else row })
  | delete {row : MessageRow} (honly : Unchanged past) (hrow : row ∈ s.messages)
      (hown : row.senderId = bigint u)
      (h : s' = { s with
        messages := s.messages.filter fun n => n.id ≠ row.id
        access := s.access.filter fun a => a.messageId ≠ row.id })
  | revoke {row : MessageRow} {target now : UInt64} (honly : Unchanged past)
      (hrow : row ∈ s.messages) (hown : row.senderId = bigint u) (hother : target ≠ u)
      (h : s' = { s with access := s.access.map fun a =>
        if a.messageId = row.id ∧ a.userId = bigint target ∧ a.revokedAt = none then
          { a with revokedAt := some (bigint now) }
        else a })

/-- Nothing of the conversation changes. -/
structure Untouched (c : UInt64) (s s' : Store) : Prop where
  participants : s'.participantsOf (bigint c) = s.participantsOf (bigint c)
  messages : ∀ row, row.conversationId = bigint c → (row ∈ s'.messages ↔ row ∈ s.messages)
  access : ∀ a, (∃ row ∈ s.messages, row.id = a.messageId ∧ row.conversationId = bigint c) →
    (a ∈ s'.access ↔ a ∈ s.access)

/-- Every user is still there, under the same name and password, and with the
same bundle but for the entries of one prekey id. -/
def KeepsKeys (s s' : Store) : Prop :=
  ∀ row ∈ s.users, ∃ text, { row with publicKey := text } ∈ s'.users ∧
    (text = row.publicKey ∨ ∃ k, Drops k row.publicKey text)

end Definitions

/-! ## Each change -/

section Changes

variable [FloatFormat] {s s' : Store}

theorem keepsKeys_of_users (h : ∀ row ∈ s.users, row ∈ s'.users) : KeepsKeys s s' := by
  intro row hrow
  exact ⟨row.publicKey, h row hrow, .inl rfl⟩

theorem keepsKeys_setPublicKey {r k : UInt64} {text text' : Bytes} (h : StoreInv s)
    (htext : Database.getUserPublicKey s r = some text) (hdrops : Drops k text text') :
    KeepsKeys s (Database.setPublicKey s (bigint r) text') := by
  intro row hrow
  by_cases hid : row.id = bigint r
  · obtain ⟨found, hfound, rfl⟩ := Option.map_eq_some_iff.mp htext
    have hsame : found = row := by
      have hfid : found.id = bigint r := by simpa using List.find?_some hfound
      exact List.inj_on_of_nodup_map h.userIds.nodup (List.mem_of_find?_eq_some hfound) hrow
        (hfid.trans hid.symm)
    refine ⟨text', List.mem_map.mpr ⟨row, hrow, if_pos hid⟩, .inr ⟨k, ?_⟩⟩
    rw [← hsame]
    exact hdrops
  · exact ⟨row.publicKey, List.mem_map.mpr ⟨row, hrow, if_neg hid⟩, .inl rfl⟩

omit [FloatFormat] in
/-- A change of other conversations only. -/
theorem untouched_refl (c : UInt64) (s : Store) : Untouched c s s :=
  ⟨rfl, fun _ _ => Iff.rfl, fun _ _ => Iff.rfl⟩

omit [FloatFormat] in
/-- The store before and after a conversation was created, seen from another. -/
theorem untouched_createConversation {now : Int64} {name : Bytes} {ids : List UInt64}
    {id c : UInt64} (h : StoreInv s)
    (hok : Database.createConversation s now name ids = .ok (id, s')) (hne : c ≠ id) :
    Untouched c s s' := by
  have hparts := participantsOf_createConversation h hok (bigint c)
  rw [if_neg fun heq => hne (bigint_inj.mp heq)] at hparts
  obtain ⟨-, -, rfl⟩ := createConversation_ok hok
  exact ⟨hparts, fun _ _ => Iff.rfl, fun _ _ => Iff.rfl⟩

/-- The store before and after a message was created, seen from another
conversation. -/
theorem untouched_createMessage {c c' sender timestamp id : UInt64} {payload : Bytes}
    {recipient preKey : Option UInt64} (h : StoreInv s)
    (hok : Database.createMessage s c' sender payload timestamp recipient preKey = .ok (id, s'))
    (hne : c ≠ c') : Untouched c s s' := by
  have haccess := access_createMessage h hok
  obtain ⟨t, -, hid, -, rfl⟩ := createMessage_ok hok
  have hfresh := h.messageIds.fresh hid
  refine ⟨rfl, ?_, ?_⟩
  · intro row hrow
    refine List.mem_append.trans (or_iff_left ?_)
    intro hnew
    rw [List.mem_singleton.mp hnew] at hrow
    exact hne (bigint_inj.mp hrow).symm
  · intro a hold
    obtain ⟨row, hrow, hrid, -⟩ := hold
    refine (haccess a).trans (or_iff_left ?_)
    intro hnew
    rw [(mem_grantedRows.mp hnew).1] at hrid
    exact hfresh (List.mem_map.mpr ⟨row, hrow, hrid⟩)

omit [FloatFormat] in
theorem untouched_deleteMessage {c c' m sender : UInt64} (h : StoreInv s) (hne : c ≠ c') :
    Untouched c s (Database.deleteMessage s c' m sender).2 := by
  have hother : ∀ row : MessageRow, row.conversationId = bigint c →
      Database.isOwnMessage c' m sender row = false := by
    intro row hrow
    rw [Bool.eq_false_iff]
    intro hown
    simp only [Database.isOwnMessage, Bool.decide_and, Bool.and_eq_true, decide_eq_true_eq] at hown
    exact hne (bigint_inj.mp (hrow.symm.trans hown.2.1))
  refine ⟨rfl, ?_, ?_⟩
  · intro row hrow
    refine List.mem_filter.trans (and_iff_left ?_)
    rw [hother row hrow]
    rfl
  · intro a hold
    obtain ⟨row, hrow, hrid, hrc⟩ := hold
    refine List.mem_filter.trans (and_iff_left ?_)
    simp only [Bool.not_eq_true', List.any_eq_false, List.mem_filter, decide_eq_true_eq, and_imp]
    intro n hn hown hnid
    rw [h.message_eq hn hrow (hnid.trans hrid.symm), hother row hrc] at hown
    cases hown

omit [FloatFormat] in
theorem untouched_revokeMessageAccess {c c' m sender target now : UInt64} (h : StoreInv s)
    (hne : c ≠ c') :
    Untouched c s (Database.revokeMessageAccess s c' m sender target now).2 := by
  refine ⟨rfl, fun _ _ => Iff.rfl, ?_⟩
  -- a row that is revoked belongs to a message of the other conversation
  have hother : ∀ a : AccessRow, (∃ row ∈ s.messages, row.id = a.messageId ∧
      row.conversationId = bigint c) →
        ¬ Database.isRevocable s c' m sender target a = true := by
    intro a hold hra
    obtain ⟨row, hrow, hrid, hrc⟩ := hold
    simp only [Database.isRevocable, Database.isOwnMessage, Bool.decide_and, Bool.and_eq_true,
      decide_eq_true_eq, List.any_eq_true] at hra
    obtain ⟨ham, -, -, -, n, hn, hnid, hnc, -⟩ := hra
    rw [h.message_eq hn hrow (hnid.trans (ham.symm.trans hrid.symm))] at hnc
    exact hne (bigint_inj.mp (hrc.symm.trans hnc))
  intro a hold
  constructor
  · intro ha
    obtain ⟨b, hb, hba⟩ := List.mem_map.mp ha
    by_cases hrb : Database.isRevocable s c' m sender target b = true
    · rw [if_pos hrb] at hba
      have hmid : b.messageId = a.messageId := by rw [← hba]
      exact absurd hrb (hother b (by rw [hmid]; exact hold))
    · rw [if_neg hrb] at hba
      exact hba ▸ hb
  · intro ha
    exact List.mem_map.mpr ⟨a, ha, if_neg (hother a hold)⟩

omit [FloatFormat] in
theorem untouched_updateMessageBlockchainDigest {c c' m : UInt64} {digest : Bytes}
    (hm : ∀ row ∈ s.messages, row.id = bigint m → row.conversationId = bigint c') (hne : c ≠ c') :
    Untouched c s (Database.updateMessageBlockchainDigest s m digest) := by
  refine ⟨rfl, ?_, fun _ _ => Iff.rfl⟩
  intro row hrow
  constructor
  · intro hr
    obtain ⟨n, hn, hnr⟩ := List.mem_map.mp hr
    by_cases hid : n.id = bigint m
    · rw [if_pos hid] at hnr
      have hnc : n.conversationId = row.conversationId := by rw [← hnr]
      exact absurd (bigint_inj.mp (hrow.symm.trans (hnc.symm.trans (hm n hn hid)))) hne
    · rw [if_neg hid] at hnr
      exact hnr ▸ hn
  · intro hr
    refine List.mem_map.mpr ⟨row, hr, if_neg ?_⟩
    intro hid
    exact hne (bigint_inj.mp (hrow.symm.trans (hm row hr hid)))

end Changes

/-! ## One call of a request -/

section Calls

variable [Primitives] [FloatFormat] {cfg : Config} {tick : Clock → Clock → Prop} {req : Request}
  {past : Events} {s s' : ServerState}

omit [Primitives] in
theorem unchanged_of_quiet {before : Events} (hpast : Past (serverMachine cfg tick) storeShared past s)
    (hsub : ∀ e ∈ before, e ∈ past) (h : Quiet before) : Unchanged before := by
  intro e he
  exact exec_read (h e he) (hpast.2 e (hsub e he)).2.1

omit [Primitives] in
/-- Creating a message is a change of its sender. -/
theorem change_createMessage {c sender timestamp id : UInt64} {payload : Bytes}
    {recipient preKey : Option UInt64} {s s' : Store} (h : StoreInv s) (honly : Unchanged past)
    (hu : Database.isParticipant s c sender = true)
    (hrecipient : ∀ r ∈ recipient, Database.isParticipant s c r = true)
    (hok : Database.createMessage s c sender payload timestamp recipient preKey = .ok (id, s')) :
    Change sender past s s' := by
  have haccess := access_createMessage h hok
  obtain ⟨t, ht, -, -, hs'⟩ := createMessage_ok hok
  have husers : BundleChange s c sender t.users := by
    rcases consumeForMessage_drops ht with ⟨r, k, text, text', rfl, -, hne, htext, rfl, hdrops, -⟩ |
      ⟨-, rfl⟩
    · exact .inr ⟨r, k, text, text', hne, hrecipient r rfl, htext, hdrops, rfl⟩
    · exact .inl rfl
  have heq : s' = { s with
      users := t.users
      messages := s.messages ++ [newMessage id c sender payload timestamp]
      access := s'.access
      messageSeq := s.messageSeq + 1 } := by
    rw [hs']
    rfl
  refine .message honly hu husers ?_ ?_ heq
  · intro a ha
    exact (haccess a).mpr (.inl ha)
  · intro a ha
    refine ((haccess a).mp ha).imp_right ?_
    intro hnew
    obtain ⟨heq, hwho⟩ := mem_grantedRows.mp hnew
    refine ⟨heq, ?_⟩
    cases recipient with
    | none => exact hwho
    | some r =>
        rcases hwho with hw | hw
        · rw [hw]
          exact hu
        · rw [hw]
          exact hrecipient r rfl

omit [Primitives] in
/-- Deleting is a change of the sender, when it deletes something. -/
theorem change_deleteMessage {c m sender : UInt64} {s : Store} (h : StoreInv s)
    (honly : Unchanged past) (hchange : (Database.deleteMessage s c m sender).2 ≠ s) :
    Change sender past s (Database.deleteMessage s c m sender).2 := by
  by_cases hrow : ∃ row ∈ s.messages, Database.isOwnMessage c m sender row = true
  · obtain ⟨row, hrow, hown⟩ := hrow
    obtain ⟨hid, hconv, hsender⟩ := isOwnMessage_iff.mp hown
    have hiff : ∀ n ∈ s.messages, Database.isOwnMessage c m sender n = true ↔ n.id = row.id := by
      intro n hn
      constructor
      · intro hn'
        rw [(isOwnMessage_iff.mp hn').1, hid]
      · intro hn'
        rw [h.message_eq hn hrow hn']
        exact hown
    refine Change.delete honly hrow hsender ?_
    simp only [Database.deleteMessage]
    congr 1
    · refine List.filter_congr ?_
      intro n hn
      rw [Bool.eq_iff_iff]
      simp [← hiff n hn]
    · refine List.filter_congr ?_
      intro a _
      rw [Bool.eq_iff_iff]
      simp only [Bool.not_eq_true', List.any_eq_false, List.mem_filter, decide_eq_true_eq, and_imp,
        ne_eq]
      constructor
      · intro hall hmid
        exact hall row hrow hown hmid.symm
      · intro hmid n hn hown' hnid
        exact hmid (hnid.symm.trans ((hiff n hn).mp hown'))
  · refine absurd ?_ hchange
    have hnone : ∀ n ∈ s.messages, Database.isOwnMessage c m sender n = false := by
      intro n hn
      rw [Bool.eq_false_iff]
      exact fun hown => hrow ⟨n, hn, hown⟩
    have hdeleted : s.messages.filter (Database.isOwnMessage c m sender) = [] := by
      refine List.filter_eq_nil_iff.mpr ?_
      intro n hn
      simp [hnone n hn]
    simp only [Database.deleteMessage, hdeleted]
    rw [List.filter_eq_self.mpr fun n hn => by simp [hnone n hn],
      List.filter_eq_self.mpr fun a _ => by simp]

omit [Primitives] in
/-- Revoking is a change of the sender, when it revokes something. -/
theorem change_revokeMessageAccess {c m sender target now : UInt64} {s : Store}
    (honly : Unchanged past)
    (hchange : (Database.revokeMessageAccess s c m sender target now).2 ≠ s) :
    Change sender past s (Database.revokeMessageAccess s c m sender target now).2 := by
  by_cases hany : ∃ a ∈ s.access, Database.isRevocable s c m sender target a = true
  · obtain ⟨b, hb, hrb⟩ := hany
    have hiff : ∀ a : AccessRow, Database.isRevocable s c m sender target a = true ↔
        a.messageId = bigint m ∧ a.userId = bigint target ∧ a.userId ≠ bigint sender ∧
          a.revokedAt = none ∧
          ∃ row ∈ s.messages, Database.isOwnMessage c m sender row = true := by
      intro a
      simp [Database.isRevocable]
    obtain ⟨hbm, hbu, hbs, hbr, row, hrow, hown⟩ := (hiff b).mp hrb
    obtain ⟨hid, -, hsender⟩ := isOwnMessage_iff.mp hown
    have hother : target ≠ sender := by
      intro heq
      exact hbs (by rw [hbu, heq])
    have hsame : ∀ a : AccessRow, Database.isRevocable s c m sender target a = true ↔
        a.messageId = row.id ∧ a.userId = bigint target ∧ a.revokedAt = none := by
      intro a
      rw [hiff, hid]
      constructor
      · intro hra
        exact ⟨hra.1, hra.2.1, hra.2.2.2.1⟩
      · intro hra
        exact ⟨hra.1, hra.2.1, by rw [hra.2.1, ← hbu]; exact hbs, hra.2.2, row, hrow, hown⟩
    have heq : (Database.revokeMessageAccess s c m sender target now).2 = { s with
        access := s.access.map fun a =>
          if a.messageId = row.id ∧ a.userId = bigint target ∧ a.revokedAt = none then
            { a with revokedAt := some (bigint now) }
          else a } := by
      simp only [Database.revokeMessageAccess, hsame]
    exact .revoke honly hrow hsender hother heq
  · refine absurd ?_ hchange
    have hself : s.access.map (fun a => if Database.isRevocable s c m sender target a = true then
        { a with revokedAt := some (bigint now) } else a) = s.access.map id := by
      refine List.map_congr_left ?_
      intro a ha
      exact if_neg fun hra => hany ⟨a, ha, hra⟩
    simp only [Database.revokeMessageAccess, hself, List.map_id]

/-- A message the request has created is still its user's, in a conversation the
user takes part in. -/
theorem created_of_past (hpast : Past (serverMachine cfg tick) storeShared past s) {m : UInt64}
    (h : CreatedOnly cfg req past m) :
    ∃ u c, AdmittedAs cfg req past u ∧ Database.isParticipant s.store c u = true ∧
      (∀ row ∈ s.store.messages, row.id = bigint m →
        row.senderId = bigint u ∧ row.conversationId = bigint c) ∧
      ∀ digest, Change u past s.store
        (Database.updateMessageBlockchainDigest s.store m digest) := by
  obtain ⟨before, c, u, payload, timestamp, recipient, preKey, s₀, s₁, after, rfl, hbefore, hafter,
    hadmitted, hpart₀⟩ := h
  obtain ⟨hinv₀, hexec, hlater⟩ := hpast.2 ⟨.createMessage c u payload timestamp recipient preKey,
    .ok m, s₀, s₁⟩ (by simp)
  have hok : Database.createMessage s₀.store c u payload timestamp recipient preKey =
      .ok (m, s₁.store) := (Transaction.of_ok hexec).1
  obtain ⟨t, -, hid, -, hs₁⟩ := createMessage_ok hok
  have hseq : (bigint m).toInt ≤ s₁.store.messageSeq := by
    have := (nextval_ok hid).1
    rw [hs₁]
    simp only [Store.insertAccess]
    omega
  have hrow : ∀ row ∈ s.store.messages, row.id = bigint m →
      row.senderId = bigint u ∧ row.conversationId = bigint c := by
    intro row hrow hrid
    obtain ⟨row₀, hrow₀, heq⟩ := hlater.messages row hrow (by rw [hrid]; exact hseq)
    rw [heq] at hrid ⊢
    rw [hs₁] at hrow₀
    rcases List.mem_append.mp hrow₀ with hold | hnew
    · exact absurd (List.mem_map.mpr ⟨row₀, hold, hrid⟩) (hinv₀.messageIds.fresh hid)
    · rw [List.mem_singleton.mp hnew]
      exact ⟨rfl, rfl⟩
  have hpart : Database.isParticipant s.store c u = true :=
    (evolves_trans (evolves_createMessage hok) hlater).participant hinv₀ hpart₀
  refine ⟨u, c, hadmitted, hpart, hrow, fun digest => ?_⟩
  exact .digest rfl (unchanged_of_quiet hpast (by simp +contextual) hbefore)
    (unchanged_of_quiet hpast (by simp +contextual) hafter) hrow hpart rfl

/-- What one call of a request may do: a signup adds a user, and any other change
is one of the user the request was admitted for; nothing of a conversation
changes unless that user takes part in it, and no user's keys change. -/
structure Bounded (cfg : Config) (req : Request) (past : Events) (s s' : Store) : Prop where
  change : s' ≠ s →
    (endpointOf req.method req.path = some .signup ∧
      ∃ row, s' = { s with users := s.users ++ [row], userSeq := s.userSeq + 1 }) ∨
    ∃ u, AdmittedAs cfg req past u ∧ Change u past s s'
  untouched : ∀ c, (∀ u, AdmittedAs cfg req past u → Database.isParticipant s' c u = false) →
    Untouched c s s'
  keys : KeepsKeys s s'

theorem bounded_exec {o : Op} {r : Res o}
    (hpast : Past (serverMachine cfg tick) storeShared past s) (hpre : RequestPre cfg req past o s)
    (h : exec cfg o s r s') : Bounded cfg req past s.store s'.store := by
  have hinv : StoreInv s.store := hpast.1
  rcases exec_store h with hsame | ⟨r', hw, -⟩
  · rw [hsame]
    exact ⟨fun hne => absurd rfl hne, fun c _ => untouched_refl c _,
      keepsKeys_of_users fun _ hrow => hrow⟩
  · cases hw with
    | createUser hc =>
        obtain ⟨-, -, hs'⟩ := createUser_ok hc
        refine ⟨fun _ => .inl ⟨hpre.1, _, hs'⟩, ?_, ?_⟩
        · intro c _
          rw [hs']
          exact ⟨rfl, fun _ _ => Iff.rfl, fun _ _ => Iff.rfl⟩
        · rw [hs']
          exact keepsKeys_of_users fun row hrow => List.mem_append_left _ hrow
    | @createConversation name ids id _ _ hc =>
        obtain ⟨hquiet, -, -, u, hu, hadmitted⟩ := hpre
        have honly := unchanged_of_quiet hpast (fun _ he => he) hquiet
        obtain ⟨-, -, hs'⟩ := createConversation_ok hc
        refine ⟨fun _ => .inr ⟨u, hadmitted, .conversation honly hu hs'⟩, ?_, ?_⟩
        · intro c hnone
          by_cases hne : c = id
          · have hin : Database.isParticipant s'.store c u = true := by
              rw [hs', hne]
              exact hasParticipant_iff.mpr
                (List.mem_append_right _ (List.mem_map.mpr ⟨u, hu, rfl⟩))
            rw [hnone u hadmitted] at hin
            cases hin
          · exact untouched_createConversation hinv hc hne
        · rw [hs']
          exact keepsKeys_of_users fun row hrow => hrow
    | @createMessage c' sender payload timestamp recipient preKey id _ _ hc =>
        obtain ⟨hquiet, hadmitted, hsender, hrecipient, -⟩ := hpre
        have honly := unchanged_of_quiet hpast (fun _ he => he) hquiet
        refine ⟨fun _ => .inr ⟨sender, hadmitted,
          change_createMessage hinv honly hsender hrecipient hc⟩, ?_, ?_⟩
        · intro c hnone
          refine untouched_createMessage hinv hc ?_
          rintro rfl
          have hstill : s'.store.hasParticipant (bigint c) (bigint sender) = true :=
            (evolves_createMessage hc).participant hinv hsender
          rw [show s'.store.hasParticipant (bigint c) (bigint sender) = false from
            hnone sender hadmitted] at hstill
          cases hstill
        · obtain ⟨t, ht, -, -, hs'⟩ := createMessage_ok hc
          have husers : s'.store.users = t.users := by rw [hs']; rfl
          have hkeeps : KeepsKeys s.store t := by
            rcases consumeForMessage_drops ht with ⟨r, k, text, text', -, -, -, htext, rfl, hdrops,
              -⟩ | ⟨-, rfl⟩
            · exact keepsKeys_setPublicKey hinv htext hdrops
            · exact keepsKeys_of_users fun _ hrow => hrow
          intro row hrow
          obtain ⟨text, hmem, hrest⟩ := hkeeps row hrow
          exact ⟨text, husers ▸ hmem, hrest⟩
    | @deleteMessage c' m sender b _ _ hd =>
        obtain ⟨hquiet, hadmitted, hpart⟩ := hpre
        have honly := unchanged_of_quiet hpast (fun _ he => he) hquiet
        have hs' : s'.store = (Database.deleteMessage s.store c' m sender).2 := by rw [hd]
        rw [hs']
        refine ⟨fun hne => .inr ⟨sender, hadmitted, change_deleteMessage hinv honly hne⟩, ?_,
          keepsKeys_of_users fun _ hrow => hrow⟩
        intro c hnone
        refine untouched_deleteMessage hinv ?_
        rintro rfl
        rw [show Database.isParticipant s.store c sender = false from hnone sender hadmitted] at hpart
        cases hpart
    | @revokeMessageAccess c' m sender target now b _ _ hr =>
        obtain ⟨hquiet, hadmitted, hpart, -⟩ := hpre
        have honly := unchanged_of_quiet hpast (fun _ he => he) hquiet
        have hs' : s'.store = (Database.revokeMessageAccess s.store c' m sender target now).2 := by
          rw [hr]
        rw [hs']
        refine ⟨fun hne => .inr ⟨sender, hadmitted, change_revokeMessageAccess honly hne⟩, ?_,
          keepsKeys_of_users fun _ hrow => hrow⟩
        intro c hnone
        refine untouched_revokeMessageAccess hinv ?_
        rintro rfl
        rw [show Database.isParticipant s.store c sender = false from hnone sender hadmitted] at hpart
        cases hpart
    | @updateMessageBlockchainDigest m digest _ _ hd =>
        obtain ⟨u, c', hadmitted, hpart, hown, hchange⟩ := created_of_past hpast hpre.1
        rw [← hd]
        refine ⟨fun _ => .inr ⟨u, hadmitted, hchange digest⟩, ?_,
          keepsKeys_of_users fun _ hrow => hrow⟩
        intro c hnone
        refine untouched_updateMessageBlockchainDigest (fun row hrow hid => (hown row hrow hid).2) ?_
        rintro rfl
        rw [show Database.isParticipant s.store c u = false from hnone u hadmitted] at hpart
        cases hpart

end Calls

/-! ## Whole runs -/

/-- **The authority of a request is bounded**, in every state of every run and
whatever the other requests do between its calls. -/
theorem authority_bounded [Primitives] [FloatFormat] {cfg : Config} {tick : Clock → Clock → Prop}
    {clock : Clock} {tr : ServerTrace} {w w' : ServerSystem} {i : Nat} {o : Op} {r : Res o}
    {th : Thread Op Res Exn ServerState (Option Response) Task} {req : Request} {seen : Bytes}
    (h : ServerRun cfg tick ⟨.initial clock, []⟩ tr w)
    (hstep : ServerStep cfg tick w (.call i o r) w') (hth : w.threads[i]? = some th)
    (htask : th.task = .request req seen) :
    Bounded cfg req th.past w.state.store w'.state.store := by
  obtain ⟨th', hth', hpast, hpre, hexec⟩ :=
    Contract.pre_of_call (sound_of_run storeInv_empty h) hstep
  rw [hth] at hth'
  cases hth'
  rw [htask] at hpre
  exact bounded_exec hpast hpre hexec

/-- The server of `directedSession` when Alice's message to Bob is about to be stored. -/
def beforeDirected : ServerSystem :=
  letI := examplePrimitives
  letI := plainFloats
  (System.moves (answer exampleConfig) (serverProgram exampleConfig) ⟨.initial 1000000, []⟩
    (requestMoves (directedSession.zip [4, 4, 4, 5, 7]))).2

/-- The endpoint that the request of a task asks for. -/
def endpointOfTask : Task → Option Endpoint
  | .request req _ => endpointOf req.method req.path
  | .resolver => none

/-- The call that stores it. -/
def directedCall : Op := .createMessage 1 1 (bytes "for Bob") 1000000 (some 2) none

theorem run_beforeDirected : letI := examplePrimitives; letI := plainFloats; ∃ tr,
    ServerRun exampleConfig (· ≤ ·) ⟨.initial 1000000, []⟩ tr beforeDirected := by
  let _ := examplePrimitives
  let _ := plainFloats
  rw [beforeDirected]
  exact ⟨_, Run.moves (fun o s => exec_answer exampleConfig o s) _ _⟩

/-- The call is the next one of the fifth request, and it writes a message. -/
theorem beforeDirected_eval :
    beforeDirected.threads[4]?.bind (fun th => th.prog.next?) = some directedCall ∧
      beforeDirected.threads[4]?.bind (fun th => endpointOfTask th.task) =
        some (.createMessage (bytes "1")) ∧
      letI := plainFloats
      (answer exampleConfig directedCall beforeDirected.state).2.store.messages ≠
        beforeDirected.state.store.messages := by
  decide +kernel

/-- It adds a message, and its request was admitted for a user who may do that. -/
theorem authority_bounded_example : letI := examplePrimitives; letI := plainFloats;
    ∃ tr w th req seen r w', ServerRun exampleConfig (· ≤ ·) ⟨.initial 1000000, []⟩ tr w ∧
      w.threads[4]? = some th ∧ th.task = .request req seen ∧
      ServerStep exampleConfig (· ≤ ·) w (.call 4 directedCall r) w' ∧
      w'.state.store.messages ≠ w.state.store.messages ∧
      Bounded exampleConfig req th.past w.state.store w'.state.store ∧
      ∃ u, AdmittedAs exampleConfig req th.past u ∧
        Change u th.past w.state.store w'.state.store := by
  obtain ⟨hnext, hroute, hnew⟩ := beforeDirected_eval
  obtain ⟨tr, hrun⟩ := run_beforeDirected
  obtain ⟨w, hw⟩ : ∃ w, beforeDirected = w := ⟨_, rfl⟩
  rw [hw] at hnext hroute hnew hrun
  let _ := examplePrimitives
  let _ := plainFloats
  obtain ⟨task, past, k, hget⟩ := exists_call_of_next hnext
  rw [hget, Option.bind_some] at hroute
  cases task with
  | resolver => cases hroute
  | request req seen =>
      have hstep : ServerStep exampleConfig (· ≤ ·) w (.call 4 directedCall _) _ :=
        .call hget (exec_answer exampleConfig directedCall w.state)
      have hbounded := authority_bounded hrun hstep hget rfl
      refine ⟨_, _, _, req, _, _, _, hrun, hget, rfl, hstep, hnew, hbounded, ?_⟩
      rcases hbounded.change fun heq => hnew (congrArg Store.messages heq) with ⟨hsignup, -⟩ | hchange
      · cases hroute.symm.trans hsignup
      · exact hchange

end Kds
