import Kingdom.Server.Store

/-!
# The store invariant

What every state of the database satisfies, and that each transaction keeps it.

* `Issued` — the ids of a table: distinct, and handed out by its sequence.
* `StoreInv` — ids, references, one access row for each message and user, the
  number of participants and the size of payloads, and the sender's own access.
* `Evolves` — what is never undone: users, conversations and their participants,
  and every field of a message but its digest.
* `storeInv_createMessage` and its siblings — one preservation lemma and one
  evolution lemma for each transaction that writes.
-/

namespace Kds

open Codec

/-! ## Ids from a sequence -/

/-- The ids were handed out by a sequence that stands at `seq`. -/
structure Issued (ids : List Int64) (seq : Nat) : Prop where
  nodup : ids.Nodup
  bound : ∀ i ∈ ids, 0 < i.toInt ∧ i.toInt ≤ seq
  fits : seq < 2 ^ 63

theorem issued_nil : Issued [] 0 := ⟨List.nodup_nil, by simp, by decide⟩

theorem toInt_ofNat {n : Nat} (h : n < 2 ^ 63) : (Int64.ofNat n).toInt = n :=
  Int64.toInt_ofNat_of_lt h

/-- What `nextval` hands out. -/
theorem nextval_ok {seq : Nat} {id : Int64} (h : nextval seq = .ok id) :
    id.toInt = (seq : Int) + 1 ∧ seq + 1 < 2 ^ 63 := by
  unfold nextval at h
  split_ifs at h with hlt
  cases h
  exact ⟨by rw [toInt_ofNat hlt]; push_cast; rfl, hlt⟩

/-- A new id is not among the old ones. -/
theorem Issued.fresh {ids : List Int64} {seq : Nat} {id : Int64} (h : Issued ids seq)
    (hid : nextval seq = .ok id) : id ∉ ids := by
  intro hmem
  have := (h.bound id hmem).2
  have := (nextval_ok hid).1
  omega

theorem Issued.append {ids : List Int64} {seq : Nat} {id : Int64} (h : Issued ids seq)
    (hid : nextval seq = .ok id) : Issued (ids ++ [id]) (seq + 1) := by
  obtain ⟨hval, hfits⟩ := nextval_ok hid
  refine ⟨?_, fun i hi => ?_, hfits⟩
  · rw [List.nodup_append_comm]
    exact List.nodup_cons.mpr ⟨h.fresh hid, h.nodup⟩
  · rcases List.mem_append.mp hi with hi | hi
    · have := h.bound i hi
      push_cast
      omega
    · rw [List.mem_singleton.mp hi, hval]
      push_cast
      omega

theorem Issued.sublist {ids ids' : List Int64} {seq : Nat} (h : Issued ids seq)
    (hsub : ids'.Sublist ids) : Issued ids' seq :=
  ⟨h.nodup.sublist hsub, fun i hi => h.bound i (hsub.subset hi), h.fits⟩

/-- The sequence may skip values. -/
theorem Issued.skip {ids : List Int64} {seq seq' : Nat} (h : Issued ids seq) (hle : seq ≤ seq')
    (hfits : seq' < 2 ^ 63) : Issued ids seq' := by
  refine ⟨h.nodup, fun i hi => ?_, hfits⟩
  have := h.bound i hi
  omega

/-- A time that fits a `BIGINT` is stored as it is. -/
theorem bigint_nonneg {u : UInt64} (h : u.toNat < 2 ^ 63) : 0 ≤ (bigint u).toInt := by
  have hu : bigint u = Int64.ofNat u.toNat := by
    rw [← UInt64.toInt64_ofNat', UInt64.ofNat_toNat, bigint]
  rw [hu, toInt_ofNat h]
  exact Int.natCast_nonneg _

/-! ## The invariant -/

/-- The primary key of `message_access`. -/
def AccessRow.key (a : AccessRow) : Int64 × Int64 := (a.messageId, a.userId)

/-- What every state of the store satisfies. -/
structure StoreInv (s : Store) : Prop where
  userIds : Issued (s.users.map (·.id)) s.userSeq
  usernames : (s.users.map (·.username)).Nodup
  conversationIds : Issued (s.conversations.map (·.id)) s.conversationSeq
  messageIds : Issued (s.messages.map (·.id)) s.messageSeq
  participants : s.participants.Nodup
  participantRefs : ∀ p ∈ s.participants,
    s.hasConversation p.conversationId = true ∧ s.hasUser p.userId = true
  participantCount : ∀ c ∈ s.conversations,
    1 ≤ (s.participantsOf c.id).length ∧ (s.participantsOf c.id).length ≤ 50
  messageRefs : ∀ m ∈ s.messages, s.hasParticipant m.conversationId m.senderId = true
  payloads : ∀ m ∈ s.messages, 1 ≤ m.payload.length ∧ m.payload.length ≤ 65536
  timestamps : ∀ m ∈ s.messages, 0 ≤ m.timestamp.toInt
  accessKeys : (s.access.map AccessRow.key).Nodup
  accessRefs : ∀ a ∈ s.access, ∃ m ∈ s.messages, m.id = a.messageId ∧ a.grantedBy = m.senderId ∧
    s.hasParticipant m.conversationId a.userId = true
  ownAccess : ∀ m ∈ s.messages, ∃ a ∈ s.access,
    a.messageId = m.id ∧ a.userId = m.senderId ∧ a.revokedAt = none

theorem storeInv_empty : StoreInv .empty where
  userIds := issued_nil
  usernames := List.nodup_nil
  conversationIds := issued_nil
  messageIds := issued_nil
  participants := List.nodup_nil
  participantRefs := by simp [Store.empty]
  participantCount := by simp [Store.empty]
  messageRefs := by simp [Store.empty]
  payloads := by simp [Store.empty]
  timestamps := by simp [Store.empty]
  accessKeys := List.nodup_nil
  accessRefs := by simp [Store.empty]
  ownAccess := by simp [Store.empty]

section Lookups

variable {s : Store}

theorem hasUser_iff {id : Int64} : s.hasUser id = true ↔ ∃ u ∈ s.users, u.id = id := by
  simp [Store.hasUser]

theorem hasConversation_iff {id : Int64} :
    s.hasConversation id = true ↔ ∃ c ∈ s.conversations, c.id = id := by
  simp [Store.hasConversation]

theorem hasParticipant_iff {c u : Int64} :
    s.hasParticipant c u = true ↔ (⟨c, u⟩ : ParticipantRow) ∈ s.participants := by
  simp only [Store.hasParticipant, List.any_eq_true, decide_eq_true_eq]
  constructor
  · rintro ⟨⟨c', u'⟩, hp, rfl, rfl⟩
    exact hp
  · exact fun h => ⟨⟨c, u⟩, h, rfl, rfl⟩

theorem mem_participantsOf {c u : Int64} :
    u ∈ s.participantsOf c ↔ s.hasParticipant c u = true := by
  rw [hasParticipant_iff]
  simp only [Store.participantsOf, List.mem_map, List.mem_filter, decide_eq_true_eq]
  constructor
  · rintro ⟨⟨c', u'⟩, ⟨hp, rfl⟩, rfl⟩
    exact hp
  · exact fun h => ⟨⟨c, u⟩, ⟨h, rfl⟩, rfl⟩

theorem StoreInv.conversation_of_participant (h : StoreInv s) {c u : Int64}
    (hp : s.hasParticipant c u = true) : s.hasConversation c = true :=
  (h.participantRefs _ (hasParticipant_iff.mp hp)).1

theorem StoreInv.user_of_participant (h : StoreInv s) {c u : Int64}
    (hp : s.hasParticipant c u = true) : s.hasUser u = true :=
  (h.participantRefs _ (hasParticipant_iff.mp hp)).2

/-- Messages are told apart by their ids. -/
theorem StoreInv.message_eq (h : StoreInv s) {m n : MessageRow} (hm : m ∈ s.messages)
    (hn : n ∈ s.messages) (hid : m.id = n.id) : m = n :=
  List.inj_on_of_nodup_map h.messageIds.nodup hm hn hid

theorem StoreInv.access_eq (h : StoreInv s) {a b : AccessRow} (ha : a ∈ s.access)
    (hb : b ∈ s.access) (hkey : a.key = b.key) : a = b :=
  List.inj_on_of_nodup_map h.accessKeys ha hb hkey

end Lookups

/-! ## Access rows that are added -/

section Access

variable {access rows : List AccessRow}

theorem addAccess_cases (access : List AccessRow) (row : AccessRow) :
    (addAccess access row = access ∧ ∃ a ∈ access, a.key = row.key) ∨
      (addAccess access row = access ++ [row] ∧ ∀ a ∈ access, a.key ≠ row.key) := by
  unfold addAccess
  split_ifs with h
  · simp only [List.any_eq_true, decide_eq_true_eq] at h
    obtain ⟨a, ha, h1, h2⟩ := h
    exact .inl ⟨rfl, a, ha, by rw [AccessRow.key, AccessRow.key, h1, h2]⟩
  · simp only [List.any_eq_true, decide_eq_true_eq, not_exists, not_and] at h
    refine .inr ⟨rfl, fun a ha hkey => ?_⟩
    exact h a ha (congrArg Prod.fst hkey) (congrArg Prod.snd hkey)

/-- Rows that are there stay, and every other row is one of the added ones. -/
theorem mem_addRows {a : AccessRow} (h : a ∈ rows.foldl addAccess access) :
    a ∈ access ∨ (a ∈ rows ∧ ∀ b ∈ access, b.key ≠ a.key) := by
  induction rows generalizing access with
  | nil => exact .inl h
  | cons row rows ih =>
      rcases ih h with hmem | ⟨hmem, hfresh⟩
      · rcases addAccess_cases access row with ⟨heq, -⟩ | ⟨heq, hnew⟩
        · exact .inl (heq ▸ hmem)
        · rw [heq] at hmem
          rcases List.mem_append.mp hmem with hmem | hmem
          · exact .inl hmem
          · rw [List.mem_singleton.mp hmem]
            exact .inr ⟨List.mem_cons_self, hnew⟩
      · refine .inr ⟨List.mem_cons_of_mem _ hmem, fun b hb => hfresh b ?_⟩
        rcases addAccess_cases access row with ⟨heq, -⟩ | ⟨heq, -⟩
        · rwa [heq]
        · rw [heq]
          exact List.mem_append_left _ hb

theorem subset_addRows (access rows : List AccessRow) :
    access ⊆ rows.foldl addAccess access := by
  induction rows generalizing access with
  | nil => exact List.Subset.refl _
  | cons row rows ih =>
      refine List.Subset.trans ?_ (ih _)
      rcases addAccess_cases access row with ⟨heq, -⟩ | ⟨heq, -⟩
      · rw [heq]
        exact List.Subset.refl _
      · rw [heq]
        exact List.subset_append_left _ _

/-- Every added row's key is there afterwards. -/
theorem covered_addRows {row : AccessRow} (h : row ∈ rows) (access : List AccessRow) :
    ∃ a ∈ rows.foldl addAccess access, a.key = row.key := by
  induction rows generalizing access with
  | nil => cases h
  | cons r rows ih =>
      rcases List.mem_cons.mp h with rfl | h
      · rcases addAccess_cases access row with ⟨heq, a, ha, hkey⟩ | ⟨heq, -⟩
        · exact ⟨a, subset_addRows (addAccess access row) rows (by rwa [heq]), hkey⟩
        · exact ⟨row, subset_addRows (addAccess access row) rows (by rw [heq]; simp), rfl⟩
      · exact ih h _

theorem nodup_addRows (h : (access.map AccessRow.key).Nodup) :
    ((rows.foldl addAccess access).map AccessRow.key).Nodup := by
  induction rows generalizing access with
  | nil => exact h
  | cons row rows ih =>
      refine ih ?_
      rcases addAccess_cases access row with ⟨heq, -⟩ | ⟨heq, hnew⟩
      · rwa [heq]
      · rw [heq, List.map_append, List.nodup_append_comm]
        refine List.nodup_cons.mpr ⟨fun hmem => ?_, h⟩
        obtain ⟨a, ha, hkey⟩ := List.mem_map.mp hmem
        exact hnew a ha hkey

end Access

theorem mem_accessRows {s : Store} {messageId conversationId grantedBy : Int64} {a : AccessRow} :
    a ∈ s.accessRows messageId conversationId grantedBy ↔
      a = ⟨messageId, a.userId, grantedBy, none⟩ ∧
        s.hasParticipant conversationId a.userId = true := by
  simp only [Store.accessRows, List.mem_map]
  constructor
  · rintro ⟨u, hu, rfl⟩
    exact ⟨rfl, mem_participantsOf.mp hu⟩
  · rintro ⟨ha, hp⟩
    exact ⟨a.userId, mem_participantsOf.mpr hp, ha.symm⟩

/-- Rows granted by the senders to participants keep the invariant. -/
theorem storeInv_insertAccess {s : Store} (h : StoreInv s) {rows : List AccessRow}
    (hrows : ∀ a ∈ rows, ∃ m ∈ s.messages, m.id = a.messageId ∧ a.grantedBy = m.senderId ∧
      s.hasParticipant m.conversationId a.userId = true) :
    StoreInv (s.insertAccess rows) :=
  { h with
    accessKeys := nodup_addRows h.accessKeys
    accessRefs := fun a ha => (mem_addRows ha).elim (h.accessRefs a) fun ha => hrows a ha.1
    ownAccess := fun m hm => by
      obtain ⟨a, ha, hown⟩ := h.ownAccess m hm
      exact ⟨a, subset_addRows _ _ ha, hown⟩ }

/-- **Restarting keeps the invariant.** -/
theorem storeInv_initSchema_ {s : Store} (h : StoreInv s) : StoreInv (Database.initSchema_ s) := by
  refine storeInv_insertAccess h fun a ha => ?_
  obtain ⟨m, hm, ha⟩ := List.mem_flatMap.mp ha
  obtain ⟨heq, hp⟩ := mem_accessRows.mp ha
  rw [heq]
  exact ⟨m, hm, rfl, rfl, hp⟩

/-! ## What is never undone -/

/-- The user holds an access to the message that is not revoked. -/
def Store.Granted (s : Store) (messageId userId : Int64) : Prop :=
  ∃ a ∈ s.access, a.messageId = messageId ∧ a.userId = userId ∧ a.revokedAt = none

/-- What a later store has in common with an earlier one.  No access to a message
that was created before comes back. -/
structure Evolves (s s' : Store) : Prop where
  users : ∀ id, s.hasUser id = true → s'.hasUser id = true
  conversations : ∀ id, s.hasConversation id = true → s'.hasConversation id = true
  participants : ∀ c u, s.hasConversation c = true →
    (s'.hasParticipant c u = true ↔ s.hasParticipant c u = true)
  userSeq : s.userSeq ≤ s'.userSeq
  conversationSeq : s.conversationSeq ≤ s'.conversationSeq
  messageSeq : s.messageSeq ≤ s'.messageSeq
  messages : ∀ m ∈ s'.messages, m.id.toInt ≤ s.messageSeq →
    ∃ m₀ ∈ s.messages, m = { m₀ with blockchainDigest := m.blockchainDigest }
  granted : ∀ (m u : Int64), m.toInt ≤ s.messageSeq → s'.Granted m u → s.Granted m u

theorem evolves_refl (s : Store) : Evolves s s where
  users := fun _ h => h
  conversations := fun _ h => h
  participants := fun _ _ _ => Iff.rfl
  userSeq := Nat.le_refl _
  conversationSeq := Nat.le_refl _
  messageSeq := Nat.le_refl _
  messages := fun m hm _ => ⟨m, hm, rfl⟩
  granted := fun _ _ _ h => h

theorem evolves_trans {s t u : Store} (h : Evolves s t) (h' : Evolves t u) : Evolves s u where
  users := fun id hid => h'.users id (h.users id hid)
  conversations := fun id hid => h'.conversations id (h.conversations id hid)
  participants := fun c v hc =>
    (h'.participants c v (h.conversations c hc)).trans (h.participants c v hc)
  userSeq := h.userSeq.trans h'.userSeq
  conversationSeq := h.conversationSeq.trans h'.conversationSeq
  messageSeq := h.messageSeq.trans h'.messageSeq
  messages := fun m hm hle => by
    obtain ⟨m₁, hm₁, heq₁⟩ := h'.messages m hm (by have := h.messageSeq; omega)
    obtain ⟨m₀, hm₀, heq₀⟩ := h.messages m₁ hm₁ (by rw [heq₁] at hle; exact hle)
    exact ⟨m₀, hm₀, by rw [heq₁, heq₀]⟩
  granted := fun m u hle hg => by
    have hle' : m.toInt ≤ t.messageSeq := by
      have := h.messageSeq
      omega
    exact h.granted m u hle (h'.granted m u hle' hg)

/-- A participant stays one. -/
theorem Evolves.participant {s s' : Store} (h : Evolves s s') (hs : StoreInv s) {c u : Int64}
    (hp : s.hasParticipant c u = true) : s'.hasParticipant c u = true :=
  (h.participants c u (hs.conversation_of_participant hp)).mpr hp

/-! ## Users -/

/-- What `createUser` does when it returns. -/
theorem createUser_ok {s s' : Store} {username passwordHash publicKey : Bytes} {id : UInt64}
    (h : Database.createUser s username passwordHash publicKey = .ok (id, s')) :
    nextval s.userSeq = .ok (bigint id) ∧ (∀ u ∈ s.users, u.username ≠ username) ∧
      s' = { s with
        users := s.users ++ [⟨bigint id, username, passwordHash, publicKey⟩]
        userSeq := s.userSeq + 1 } := by
  unfold Database.createUser at h
  cases hid : nextval s.userSeq with
  | error e => rw [hid] at h; cases h
  | ok i =>
      rw [hid] at h
      by_cases hany : s.users.any (·.username = username) = true
      · simp [hany, bind, Except.bind] at h
      · simp only [hany] at h
        cases h
        refine ⟨by rw [bigint_toUInt64], ?_, by rw [bigint_toUInt64]⟩
        simpa using hany

theorem storeInv_createUser {s s' : Store} (h : StoreInv s)
    {username passwordHash publicKey : Bytes} {id : UInt64}
    (hok : Database.createUser s username passwordHash publicKey = .ok (id, s')) :
    StoreInv s' := by
  obtain ⟨hid, hname, rfl⟩ := createUser_ok hok
  have huser : ∀ i, s.hasUser i = true →
      (s.users ++ [(⟨bigint id, username, passwordHash, publicKey⟩ : UserRow)]).any (·.id = i) =
        true := by
    intro i hi
    rw [List.any_append, show s.users.any (·.id = i) = true from hi, Bool.true_or]
  exact { h with
    userIds := by
      rw [List.map_append]
      exact h.userIds.append hid
    usernames := by
      rw [List.map_append, List.nodup_append_comm]
      refine List.nodup_cons.mpr ⟨fun hmem => ?_, h.usernames⟩
      obtain ⟨u, hu, heq⟩ := List.mem_map.mp hmem
      exact hname u hu heq
    participantRefs := fun p hp =>
      ⟨(h.participantRefs p hp).1, huser _ (h.participantRefs p hp).2⟩ }

theorem evolves_createUser {s s' : Store} {username passwordHash publicKey : Bytes} {id : UInt64}
    (hok : Database.createUser s username passwordHash publicKey = .ok (id, s')) :
    Evolves s s' := by
  obtain ⟨-, -, rfl⟩ := createUser_ok hok
  exact { evolves_refl s with
    users := fun i hi => by
      simp only [Store.hasUser, List.any_append] at hi ⊢
      rw [hi, Bool.true_or]
    userSeq := Nat.le_succ _
    messages := fun m hm _ => ⟨m, hm, rfl⟩ }

/-- What the users table looks like but for the public keys. -/
def SameUsers (users users' : List UserRow) : Prop :=
  users'.map (fun u => (u.id, u.username, u.passwordHash)) =
    users.map fun u => (u.id, u.username, u.passwordHash)

theorem sameUsers_refl (users : List UserRow) : SameUsers users users := rfl

theorem SameUsers.ids {users users' : List UserRow} (h : SameUsers users users') :
    users'.map (·.id) = users.map (·.id) := by
  have := congrArg (List.map Prod.fst) h
  simpa [SameUsers, Function.comp_def] using this

theorem SameUsers.usernames {users users' : List UserRow} (h : SameUsers users users') :
    users'.map (·.username) = users.map (·.username) := by
  have := congrArg (List.map fun u : Int64 × Bytes × Bytes => u.2.1) h
  simpa [SameUsers, Function.comp_def] using this

theorem SameUsers.hasUser {s : Store} {users' : List UserRow} (h : SameUsers s.users users')
    (i : Int64) : users'.any (·.id = i) = s.hasUser i := by
  have hany : ∀ l : List UserRow, l.any (·.id = i) = (l.map (·.id)).any (· = i) := by
    intro l
    rw [List.any_map]
    rfl
  rw [Store.hasUser, hany, hany, h.ids]

theorem storeInv_sameUsers {s : Store} (h : StoreInv s) {users' : List UserRow}
    (hsame : SameUsers s.users users') : StoreInv { s with users := users' } :=
  { h with
    userIds := by
      simp only [hsame.ids]
      exact h.userIds
    usernames := by
      simp only [hsame.usernames]
      exact h.usernames
    participantRefs := fun p hp =>
      ⟨(h.participantRefs p hp).1, (hsame.hasUser p.userId).trans (h.participantRefs p hp).2⟩ }

theorem sameUsers_setPublicKey (s : Store) (id : Int64) (publicKey : Bytes) :
    SameUsers s.users (Database.setPublicKey s id publicKey).users := by
  simp only [SameUsers, Database.setPublicKey, List.map_map]
  refine List.map_congr_left fun u _ => ?_
  simp only [Function.comp_apply]
  split_ifs <;> rfl

/-! ## Conversations -/

/-- What `createConversation` does when it returns. -/
theorem createConversation_ok {s s' : Store} {now : Int64} {name : Bytes} {ids : List UInt64}
    {id : UInt64} (h : Database.createConversation s now name ids = .ok (id, s')) :
    nextval s.conversationSeq = .ok (bigint id) ∧ (∀ u ∈ ids, s.hasUser (bigint u) = true) ∧
      s' = { s with
        conversations := s.conversations ++ [⟨bigint id, name, now⟩]
        participants := s.participants ++ ids.map fun u => ⟨bigint id, bigint u⟩
        conversationSeq := s.conversationSeq + 1 } := by
  unfold Database.createConversation at h
  cases hid : nextval s.conversationSeq with
  | error e => rw [hid] at h; cases h
  | ok i =>
      rw [hid] at h
      simp only [bind, Except.bind, checkReference] at h
      split_ifs at h with h1 h2
      · cases h
        refine ⟨by rw [bigint_toUInt64], ?_, by rw [bigint_toUInt64]⟩
        simpa [Database.usersExist] using h2

section CreateConversation

variable {s s' : Store} {now : Int64} {name : Bytes} {ids : List UInt64} {id : UInt64}

/-- The new conversation has exactly the given participants, and the others keep
theirs. -/
theorem participantsOf_createConversation (h : StoreInv s)
    (hok : Database.createConversation s now name ids = .ok (id, s')) (c : Int64) :
    s'.participantsOf c = if c = bigint id then ids.map bigint else s.participantsOf c := by
  obtain ⟨hid, -, rfl⟩ := createConversation_ok hok
  have hfresh := h.conversationIds.fresh hid
  simp only [Store.participantsOf, List.filter_append, List.map_append]
  split_ifs with hc
  · have hold : s.participants.filter (fun p => decide (p.conversationId = c)) = [] := by
      refine List.filter_eq_nil_iff.mpr fun p hp => ?_
      obtain ⟨row, hrow, heq⟩ := hasConversation_iff.mp (h.participantRefs p hp).1
      simp only [decide_eq_true_eq]
      rintro rfl
      exact hfresh (List.mem_map.mpr ⟨row, hrow, heq.trans hc⟩)
    rw [hold, hc, List.filter_eq_self.mpr (by simp)]
    simp [Function.comp_def]
  · have hnew : (ids.map fun u => (⟨bigint id, bigint u⟩ : ParticipantRow)).filter
        (fun p => decide (p.conversationId = c)) = [] := by
      refine List.filter_eq_nil_iff.mpr fun p hp => ?_
      obtain ⟨u, -, rfl⟩ := List.mem_map.mp hp
      simpa using fun h' : bigint id = c => hc h'.symm
    rw [hnew]
    simp

theorem hasParticipant_createConversation
    (hok : Database.createConversation s now name ids = .ok (id, s')) {c u : Int64}
    (hp : s.hasParticipant c u = true) : s'.hasParticipant c u = true := by
  obtain ⟨-, -, rfl⟩ := createConversation_ok hok
  exact hasParticipant_iff.mpr (List.mem_append_left _ (hasParticipant_iff.mp hp))

theorem storeInv_createConversation (h : StoreInv s)
    (hok : Database.createConversation s now name ids = .ok (id, s')) (hnodup : ids.Nodup)
    (hcount : 1 ≤ ids.length ∧ ids.length ≤ 50) : StoreInv s' := by
  have hparts := participantsOf_createConversation h hok
  have hmono := fun {c u : Int64} => hasParticipant_createConversation (c := c) (u := u) hok
  obtain ⟨hid, husers, rfl⟩ := createConversation_ok hok
  have hfresh := h.conversationIds.fresh hid
  exact { h with
    conversationIds := by
      rw [List.map_append]
      exact h.conversationIds.append hid
    participants := by
      refine List.Nodup.append h.participants ?_ ?_
      · refine hnodup.map fun u v huv => ?_
        simpa using huv
      · intro p hp hnew
        obtain ⟨u, -, rfl⟩ := List.mem_map.mp hnew
        obtain ⟨row, hrow, heq⟩ := hasConversation_iff.mp (h.participantRefs _ hp).1
        exact hfresh (List.mem_map.mpr ⟨row, hrow, heq⟩)
    participantRefs := fun p hp => by
      rcases List.mem_append.mp hp with hp | hp
      · refine ⟨?_, (h.participantRefs p hp).2⟩
        obtain ⟨row, hrow, heq⟩ := hasConversation_iff.mp (h.participantRefs p hp).1
        exact hasConversation_iff.mpr ⟨row, List.mem_append_left _ hrow, heq⟩
      · obtain ⟨u, hu, rfl⟩ := List.mem_map.mp hp
        exact ⟨hasConversation_iff.mpr ⟨_, List.mem_append_right _ (List.mem_singleton_self _), rfl⟩,
          husers u hu⟩
    participantCount := fun c hc => by
      rw [hparts c.id]
      rcases List.mem_append.mp hc with hc | hc
      · have hne : c.id ≠ bigint id := fun he => hfresh (he ▸ List.mem_map_of_mem hc)
        rw [if_neg hne]
        exact h.participantCount c hc
      · rw [List.mem_singleton.mp hc, if_pos rfl, List.length_map]
        exact hcount
    messageRefs := fun m hm => hmono (h.messageRefs m hm)
    accessRefs := fun a ha => by
      obtain ⟨m, hm, h1, h2, h3⟩ := h.accessRefs a ha
      exact ⟨m, hm, h1, h2, hmono h3⟩ }

theorem evolves_createConversation (h : StoreInv s)
    (hok : Database.createConversation s now name ids = .ok (id, s')) : Evolves s s' := by
  have hparts := participantsOf_createConversation h hok
  obtain ⟨hid, -, rfl⟩ := createConversation_ok hok
  have hfresh := h.conversationIds.fresh hid
  exact { evolves_refl s with
    conversations := fun i hi => by
      simp only [Store.hasConversation, List.any_append] at hi ⊢
      rw [hi, Bool.true_or]
    participants := fun c u hc => by
      have hne : c ≠ bigint id := by
        rintro rfl
        obtain ⟨row, hrow, heq⟩ := hasConversation_iff.mp hc
        exact hfresh (List.mem_map.mpr ⟨row, hrow, heq⟩)
      rw [← mem_participantsOf, ← mem_participantsOf, hparts c, if_neg hne]
    conversationSeq := Nat.le_succ _
    messages := fun m hm _ => ⟨m, hm, rfl⟩ }

end CreateConversation

/-! ## Messages -/

section CreateMessage

variable [FloatFormat] {s s' : Store}

/-- Consuming a one-time prekey changes nothing but public keys. -/
theorem consumeOneTimePreKey_ok {userId preKeyId : UInt64}
    (h : Database.consumeOneTimePreKeyInTransaction s userId preKeyId = .ok (some s')) :
    ∃ text, s' = Database.setPublicKey s (bigint userId) text := by
  unfold Database.consumeOneTimePreKeyInTransaction at h
  split at h
  · cases h
  · split at h
    · cases h
    · split at h
      · cases h
      · rename_i keys _
        cases hkept : Database.removeIf (Database.isPreKey preKeyId) keys with
        | error e => rw [hkept] at h; cases h
        | ok kept =>
            rw [hkept] at h
            simp only [bind, Except.bind] at h
            split_ifs at h
            · cases h
            · split at h
              · cases h
              · cases h
                exact ⟨_, rfl⟩

theorem consumeForMessage_ok {senderId : UInt64} {recipientId preKeyId : Option UInt64}
    (h : Database.consumeForMessage s senderId recipientId preKeyId = .ok s') :
    s' = { s with users := s'.users } ∧ SameUsers s.users s'.users := by
  unfold Database.consumeForMessage at h
  split at h
  · rename_i recipient preKey
    split_ifs at h
    · cases hc : Database.consumeOneTimePreKeyInTransaction s recipient preKey with
      | error e => rw [hc] at h; cases h
      | ok r =>
          rw [hc] at h
          cases r with
          | none => cases h
          | some t =>
              cases h
              obtain ⟨text, rfl⟩ := consumeOneTimePreKey_ok hc
              exact ⟨rfl, sameUsers_setPublicKey s _ text⟩
    · cases h
      exact ⟨rfl, sameUsers_refl _⟩
  · cases h
    exact ⟨rfl, sameUsers_refl _⟩

/-- The row of a message that was just created. -/
def newMessage (id conversationId senderId : UInt64) (payload : Bytes) (timestamp : UInt64) :
    MessageRow :=
  ⟨bigint id, bigint conversationId, bigint senderId, payload, bigint timestamp, []⟩

/-- What `createMessage` does when it returns. -/
theorem createMessage_ok {conversationId senderId timestamp id : UInt64} {payload : Bytes}
    {recipientId preKeyId : Option UInt64}
    (h : Database.createMessage s conversationId senderId payload timestamp recipientId preKeyId =
      .ok (id, s')) :
    ∃ t, Database.consumeForMessage s senderId recipientId preKeyId = .ok t ∧
      nextval s.messageSeq = .ok (bigint id) ∧
      s.hasConversation (bigint conversationId) = true ∧
      s' = Store.insertAccess { s with
          users := t.users
          messages := s.messages ++ [newMessage id conversationId senderId payload timestamp]
          messageSeq := s.messageSeq + 1 }
        (Database.grantedRows s (bigint id) (bigint conversationId) (bigint senderId)
          (recipientId.map bigint)) := by
  unfold Database.createMessage at h
  cases hc : Database.consumeForMessage s senderId recipientId preKeyId with
  | error e => rw [hc] at h; cases h
  | ok t =>
      obtain ⟨users, rfl⟩ : ∃ users, t = { s with users := users } :=
        ⟨t.users, (consumeForMessage_ok hc).1⟩
      rw [hc] at h
      simp only [bind, Except.bind] at h
      cases hid : nextval s.messageSeq with
      | error e => rw [hid] at h; cases h
      | ok i =>
          rw [hid] at h
          simp only [checkReference] at h
          split_ifs at h with h1 h2 h3
          cases h
          refine ⟨_, rfl, by rw [bigint_toUInt64], h1, ?_⟩
          rw [bigint_toUInt64, newMessage, bigint_toUInt64]
          rfl

omit [FloatFormat] in
/-- Who is granted a new message: the sender and the recipient when there is one,
otherwise every participant. -/
theorem mem_grantedRows {msgId conversationId senderId : Int64} {recipientId : Option Int64}
    {a : AccessRow} :
    a ∈ Database.grantedRows s msgId conversationId senderId recipientId ↔
      a = ⟨msgId, a.userId, senderId, none⟩ ∧
        match recipientId with
        | some recipient => a.userId = senderId ∨ a.userId = recipient
        | none => s.hasParticipant conversationId a.userId = true := by
  cases recipientId with
  | none => exact mem_accessRows
  | some recipient =>
      simp only [Database.grantedRows]
      split_ifs with hne
      · simp only [List.mem_cons, List.not_mem_nil, or_false]
        constructor
        · rintro (rfl | rfl)
          · exact ⟨rfl, .inl rfl⟩
          · exact ⟨rfl, .inr rfl⟩
        · rintro ⟨ha, hu | hu⟩
          · exact .inl (by rw [ha, hu])
          · exact .inr (by rw [ha, hu])
      · rw [not_not] at hne
        rw [List.mem_singleton, hne, or_self]
        constructor
        · rintro rfl
          exact ⟨rfl, rfl⟩
        · rintro ⟨ha, hu⟩
          rw [ha, hu]

/-- The access rows after a message was created: those before, and the granted
ones, for the new message has none yet. -/
theorem access_createMessage {conversationId senderId timestamp id : UInt64} {payload : Bytes}
    {recipientId preKeyId : Option UInt64} (h : StoreInv s)
    (hok : Database.createMessage s conversationId senderId payload timestamp recipientId preKeyId =
      .ok (id, s')) (a : AccessRow) :
    a ∈ s'.access ↔ a ∈ s.access ∨
      a ∈ Database.grantedRows s (bigint id) (bigint conversationId) (bigint senderId)
        (recipientId.map bigint) := by
  obtain ⟨t, -, hid, -, rfl⟩ := createMessage_ok hok
  have hfresh := h.messageIds.fresh hid
  constructor
  · exact fun ha => (mem_addRows ha).imp_right fun ha => ha.1
  · rintro (ha | ha)
    · exact subset_addRows s.access _ ha
    · obtain ⟨b, hb, hkey⟩ := covered_addRows ha s.access
      -- a row with this key is not an old one, so it is a granted one, and those agree
      rcases mem_addRows hb with hold | ⟨hnew, -⟩
      · obtain ⟨m, hm, hmid, -⟩ := h.accessRefs b hold
        have hbid : b.messageId = bigint id :=
          (congrArg Prod.fst hkey).trans (by rw [AccessRow.key, (mem_grantedRows.mp ha).1])
        exact absurd (List.mem_map.mpr ⟨m, hm, hmid.trans hbid⟩) hfresh
      · have hb' := (mem_grantedRows.mp hnew).1
        have ha' := (mem_grantedRows.mp ha).1
        have hab : b = a := by
          rw [hb', ha', show b.userId = a.userId from congrArg Prod.snd hkey]
        exact hab ▸ hb

/-- **Creating a message keeps the invariant**, when its sender and its recipient
take part in the conversation. -/
theorem storeInv_createMessage {conversationId senderId timestamp id : UInt64} {payload : Bytes}
    {recipientId preKeyId : Option UInt64} (h : StoreInv s)
    (hok : Database.createMessage s conversationId senderId payload timestamp recipientId preKeyId =
      .ok (id, s'))
    (hsender : s.hasParticipant (bigint conversationId) (bigint senderId) = true)
    (hrecipient : ∀ r ∈ recipientId,
      s.hasParticipant (bigint conversationId) (bigint r) = true)
    (hpayload : 1 ≤ payload.length ∧ payload.length ≤ 65536) (htime : timestamp.toNat < 2 ^ 63) :
    StoreInv s' := by
  have haccess := access_createMessage h hok
  obtain ⟨t, ht, hid, hconv, rfl⟩ := createMessage_ok hok
  have hsame := (consumeForMessage_ok ht).2
  have hbase := storeInv_sameUsers h hsame
  exact { hbase with
    messageIds := by
      rw [Store.insertAccess, List.map_append]
      exact h.messageIds.append hid
    messageRefs := fun m hm => by
      rcases List.mem_append.mp hm with hm | hm
      · exact h.messageRefs m hm
      · rw [List.mem_singleton.mp hm]
        exact hsender
    payloads := fun m hm => by
      rcases List.mem_append.mp hm with hm | hm
      · exact h.payloads m hm
      · rw [List.mem_singleton.mp hm]
        exact hpayload
    timestamps := fun m hm => by
      rcases List.mem_append.mp hm with hm | hm
      · exact h.timestamps m hm
      · rw [List.mem_singleton.mp hm]
        exact bigint_nonneg htime
    accessKeys := nodup_addRows h.accessKeys
    accessRefs := fun a ha => by
      rcases (haccess a).mp ha with ha | ha
      · obtain ⟨m, hm, hrefs⟩ := h.accessRefs a ha
        exact ⟨m, List.mem_append_left _ hm, hrefs⟩
      · obtain ⟨heq, hwho⟩ := mem_grantedRows.mp ha
        refine ⟨_, List.mem_append_right _ (List.mem_singleton_self _), by rw [heq]; rfl,
          by rw [heq]; rfl, ?_⟩
        cases recipientId with
        | none => exact hwho
        | some r =>
            rcases hwho with hu | hu
            · rw [hu]
              exact hsender
            · rw [hu]
              exact hrecipient r rfl
    ownAccess := fun m hm => by
      rcases List.mem_append.mp hm with hm | hm
      · obtain ⟨a, ha, hown⟩ := h.ownAccess m hm
        exact ⟨a, (haccess a).mpr (.inl ha), hown⟩
      · rw [List.mem_singleton.mp hm]
        refine ⟨⟨bigint id, bigint senderId, bigint senderId, none⟩,
          (haccess _).mpr (.inr (mem_grantedRows.mpr ⟨rfl, ?_⟩)), rfl, rfl, rfl⟩
        cases recipientId with
        | none => exact hsender
        | some r => exact .inl rfl }

theorem evolves_createMessage {conversationId senderId timestamp id : UInt64} {payload : Bytes}
    {recipientId preKeyId : Option UInt64}
    (hok : Database.createMessage s conversationId senderId payload timestamp recipientId preKeyId =
      .ok (id, s')) : Evolves s s' := by
  obtain ⟨t, ht, hid, -, rfl⟩ := createMessage_ok hok
  have hsame := (consumeForMessage_ok ht).2
  exact { evolves_refl s with
    users := fun i hi => (hsame.hasUser i).trans hi
    messageSeq := Nat.le_succ _
    messages := fun m hm hle => by
      rcases List.mem_append.mp hm with hm | hm
      · exact ⟨m, hm, rfl⟩
      · rw [List.mem_singleton.mp hm] at hle
        have := (nextval_ok hid).1
        simp only [newMessage] at hle
        omega
    granted := fun m u hle hg => by
      obtain ⟨a, ha, ham, hau, hrev⟩ := hg
      rcases mem_addRows ha with hold | ⟨hnew, -⟩
      · exact ⟨a, hold, ham, hau, hrev⟩
      · -- a row that was added is one of the new message
        have hid' : a.messageId = bigint id := by rw [(mem_grantedRows.mp hnew).1]
        have := (nextval_ok hid).1
        rw [← ham, hid'] at hle
        omega }

end CreateMessage

section Updates

variable {s : Store}

theorem storeInv_deleteMessage (h : StoreInv s) (conversationId messageId senderId : UInt64) :
    StoreInv (Database.deleteMessage s conversationId messageId senderId).2 :=
  { h with
    messageIds := h.messageIds.sublist (List.Sublist.map _ List.filter_sublist)
    messageRefs := fun m hm => h.messageRefs m (List.mem_of_mem_filter hm)
    payloads := fun m hm => h.payloads m (List.mem_of_mem_filter hm)
    timestamps := fun m hm => h.timestamps m (List.mem_of_mem_filter hm)
    accessKeys := h.accessKeys.sublist (List.Sublist.map _ List.filter_sublist)
    accessRefs := fun a ha => by
      obtain ⟨ha, hkept⟩ := List.mem_filter.mp ha
      obtain ⟨m, hm, hid, hrefs⟩ := h.accessRefs a ha
      refine ⟨m, List.mem_filter.mpr ⟨hm, ?_⟩, hid, hrefs⟩
      simp only [Bool.not_eq_true', List.any_eq_false, List.mem_filter, decide_eq_true_eq,
        and_imp] at hkept
      simpa using fun hown => hkept m hm hown hid
    ownAccess := fun m hm => by
      obtain ⟨hm, hkept⟩ := List.mem_filter.mp hm
      obtain ⟨a, ha, hid, hown⟩ := h.ownAccess m hm
      refine ⟨a, List.mem_filter.mpr ⟨ha, ?_⟩, hid, hown⟩
      simp only [Bool.not_eq_true', List.any_eq_false, List.mem_filter, decide_eq_true_eq, and_imp]
      intro n hn hdel hnid
      -- the deleted row with this id would be the row `m` that is kept
      rw [h.message_eq hn hm (hnid.trans hid)] at hdel
      simp [hdel] at hkept }

theorem evolves_deleteMessage (s : Store) (conversationId messageId senderId : UInt64) :
    Evolves s (Database.deleteMessage s conversationId messageId senderId).2 :=
  { evolves_refl s with
    messages := fun m hm _ => ⟨m, List.mem_of_mem_filter hm, rfl⟩
    granted := fun m u _ hg => by
      obtain ⟨a, ha, hrow⟩ := hg
      exact ⟨a, List.mem_of_mem_filter ha, hrow⟩ }

/-- Revoking changes no key and no row of the sender. -/
theorem storeInv_revokeMessageAccess (h : StoreInv s)
    (conversationId messageId senderId targetUserId revokedAt : UInt64) :
    StoreInv (Database.revokeMessageAccess s conversationId messageId senderId targetUserId
      revokedAt).2 :=
  { h with
    accessKeys := by
      have hkeys : ∀ a : AccessRow, (if Database.isRevocable s conversationId messageId senderId
          targetUserId a then { a with revokedAt := some (bigint revokedAt) } else a).key =
            a.key := by
        intro a
        split_ifs <;> rfl
      simp only [Database.revokeMessageAccess, List.map_map]
      exact (congrArg List.Nodup (List.map_congr_left fun a _ => hkeys a)).mpr h.accessKeys
    accessRefs := fun b hb => by
      obtain ⟨a, ha, rfl⟩ := List.mem_map.mp hb
      obtain ⟨m, hm, hrefs⟩ := h.accessRefs a ha
      refine ⟨m, hm, ?_⟩
      split_ifs
      · exact hrefs
      · exact hrefs
    ownAccess := fun m hm => by
      obtain ⟨a, ha, hid, huser, hrev⟩ := h.ownAccess m hm
      refine ⟨a, List.mem_map.mpr ⟨a, ha, if_neg ?_⟩, hid, huser, hrev⟩
      -- a revocable row belongs to another user than the sender of its message
      simp only [Database.isRevocable, Bool.decide_and, Bool.and_eq_true, decide_eq_true_eq,
        List.any_eq_true, Database.isOwnMessage, not_and, not_exists]
      rintro hmid - hne - n hn hnid - hnsender
      have hnm : n = m := h.message_eq hn hm (hnid.trans (hmid.symm.trans hid))
      rw [hnm] at hnsender
      exact hne (huser.trans hnsender) }

theorem evolves_revokeMessageAccess (s : Store)
    (conversationId messageId senderId targetUserId revokedAt : UInt64) :
    Evolves s (Database.revokeMessageAccess s conversationId messageId senderId targetUserId
      revokedAt).2 :=
  { evolves_refl s with
    messages := fun m hm _ => ⟨m, hm, rfl⟩
    granted := fun m u _ hg => by
      obtain ⟨b, hb, hbm, hbu, hrev⟩ := hg
      obtain ⟨a, ha, rfl⟩ := List.mem_map.mp hb
      split_ifs at hbm hbu hrev
      · exact ⟨a, ha, hbm, hbu, hrev⟩ }

theorem storeInv_updateMessageBlockchainDigest (h : StoreInv s) (msgId : UInt64) (digest : Bytes) :
    StoreInv (Database.updateMessageBlockchainDigest s msgId digest) := by
  have hback : ∀ n ∈ (Database.updateMessageBlockchainDigest s msgId digest).messages,
      ∃ m ∈ s.messages, n = { m with blockchainDigest := n.blockchainDigest } := by
    intro n hn
    obtain ⟨m, hm, rfl⟩ := List.mem_map.mp hn
    refine ⟨m, hm, ?_⟩
    split_ifs <;> rfl
  have hforth : ∀ m ∈ s.messages, ∃ d,
      { m with blockchainDigest := d } ∈
        (Database.updateMessageBlockchainDigest s msgId digest).messages := by
    intro m hm
    by_cases hid : m.id = bigint msgId
    · exact ⟨digest, List.mem_map.mpr ⟨m, hm, if_pos hid⟩⟩
    · exact ⟨m.blockchainDigest, List.mem_map.mpr ⟨m, hm, if_neg hid⟩⟩
  exact { h with
    messageIds := by
      have hids : (Database.updateMessageBlockchainDigest s msgId digest).messages.map (·.id) =
          s.messages.map (·.id) := by
        simp only [Database.updateMessageBlockchainDigest, List.map_map]
        refine List.map_congr_left fun m _ => ?_
        simp only [Function.comp_apply]
        split_ifs <;> rfl
      rw [hids]
      exact h.messageIds
    messageRefs := fun n hn => by
      obtain ⟨m, hm, heq⟩ := hback n hn
      rw [heq]
      exact h.messageRefs m hm
    payloads := fun n hn => by
      obtain ⟨m, hm, heq⟩ := hback n hn
      rw [heq]
      exact h.payloads m hm
    timestamps := fun n hn => by
      obtain ⟨m, hm, heq⟩ := hback n hn
      rw [heq]
      exact h.timestamps m hm
    accessRefs := fun a ha => by
      obtain ⟨m, hm, hrefs⟩ := h.accessRefs a ha
      obtain ⟨d, hd⟩ := hforth m hm
      exact ⟨_, hd, hrefs⟩
    ownAccess := fun n hn => by
      obtain ⟨m, hm, heq⟩ := hback n hn
      rw [heq]
      exact h.ownAccess m hm }

theorem evolves_updateMessageBlockchainDigest (s : Store) (msgId : UInt64) (digest : Bytes) :
    Evolves s (Database.updateMessageBlockchainDigest s msgId digest) :=
  { evolves_refl s with
    messages := fun n hn _ => by
      obtain ⟨m, hm, rfl⟩ := List.mem_map.mp hn
      refine ⟨m, hm, ?_⟩
      split_ifs <;> rfl }

/-- Sequences may skip values, as they do when a transaction is rolled back. -/
theorem storeInv_skip (h : StoreInv s) {userSeq conversationSeq messageSeq : Nat}
    (hu : s.userSeq ≤ userSeq) (hc : s.conversationSeq ≤ conversationSeq)
    (hm : s.messageSeq ≤ messageSeq) (hu' : userSeq < 2 ^ 63) (hc' : conversationSeq < 2 ^ 63)
    (hm' : messageSeq < 2 ^ 63) :
    StoreInv { s with
      userSeq := userSeq, conversationSeq := conversationSeq, messageSeq := messageSeq } :=
  { h with
    userIds := h.userIds.skip hu hu'
    conversationIds := h.conversationIds.skip hc hc'
    messageIds := h.messageIds.skip hm hm' }

end Updates

end Kds
