import Kingdom.Blockchain.Pipeline
import Kingdom.Server.NewSession

/-!
# Digests are sound

Whatever the sidecar, the ledger and the programs of the server do, and in whatever order: a
message that holds the hash of a transaction is recorded by it, no entry is in two batches,
and the hash of a transaction is never replaced.

* `Creating`, `Seen` — a handler that has not written a digest yet, and a message that the
  resolver has found pending.
* `DigestInv` — what ties these to the digests; `digestInv_step` — every step keeps it, and
  keeps the digests that are final.
* `DigestsSound`, `digests_sound` — the digests of every run.
-/

namespace Blockchain

open Codec Process Kds

/-- The server's programs and the pipeline they run on. -/
abbrev PipelineSystem := System Op Res Exn Pipeline (Option Response) Task

abbrev PipelineTrace := Trace Op Res Exn Pipeline (Option Response) Task

/-! ## Who writes digests -/

/-- A message was created, and nothing was written since. -/
def Unwritten (past : Events) (m : UInt64) : Prop :=
  ∃ before after o r s s', Kind.message.created o r = some m ∧
    past = before ++ ⟨o, r, s, s'⟩ :: after ∧ Quiet after

/-- The program has created the message, and has not written its digest. -/
def Creating (w : PipelineSystem) (i : Nat) (m : UInt64) : Prop :=
  ∃ th, w.threads[i]? = some th ∧ Unwritten (serverEvents th.past) m

/-- A program has found the message pending under this id. -/
def Seen (w : PipelineSystem) (m : UInt64) (pendingId : Bytes) : Prop :=
  ∃ th ∈ w.threads, Found th.past m pendingId

theorem unwritten_snoc {past : Events} {e : Event Op Res ServerState} {m : UInt64}
    (h : Unwritten (past ++ [e]) m) :
    Kind.message.created e.op e.res = some m ∨ Unwritten past m ∧ e.op.isWrite = false := by
  obtain ⟨before, after, o, r, s, s', hcreated, heq, hquiet⟩ := h
  rcases List.eq_nil_or_concat after with rfl | ⟨init, last, rfl⟩
  · obtain ⟨-, hlast⟩ := List.append_inj' heq rfl
    obtain rfl := List.singleton_inj.mp hlast
    exact .inl hcreated
  · rw [List.concat_eq_append, ← List.cons_append, ← List.append_assoc] at heq
    obtain ⟨rfl, hlast⟩ := List.append_inj' heq rfl
    obtain rfl := List.singleton_inj.mp hlast
    refine .inr ⟨⟨before, init, o, r, s, s', hcreated, rfl, ?_⟩, hquiet _ (by simp)⟩
    exact fun x hx => hquiet x (by simp [hx])

theorem unwritten_of_createdOnly [Primitives] [FloatFormat] {cfg : Config} {req : Request}
    {past : Events} {m : UInt64} (h : CreatedOnly cfg req past m) : Unwritten past m := by
  obtain ⟨before, c, sender, payload, timestamp, recipient, preKey, s, s', after, rfl, -, hquiet,
    -⟩ := h
  exact ⟨before, after, _, _, s, s', rfl, rfl, hquiet⟩

theorem found_snoc {past : PipelineEvents} {e : Event Op Res Pipeline} {m : UInt64} {pendingId : Bytes}
    (h : Found (past ++ [e]) m pendingId) :
    Found past m pendingId ∨ Found [e] m pendingId := by
  obtain ⟨pending, ⟨s, s', he⟩, hmem⟩ := h
  rcases List.mem_append.mp he with he | he
  · exact .inl ⟨pending, ⟨s, s', he⟩, hmem⟩
  · exact .inr ⟨pending, ⟨s, s', he⟩, hmem⟩

section Digests

variable [Primitives] [FloatFormat] {keccak256 : List UInt8 → Bytes32} {cfg : Config}
  {tick : Clock → Clock → Prop} {wallet : Address} {allowed : Act → Pipeline → Prop}
  {w w' : PipelineSystem} {i : Nat} {o : Op} {r : Res o}

/-- A step of the pipeline. -/
abbrev PipelineStep (keccak256 : List UInt8 → Bytes32) (cfg : Config) (tick : Clock → Clock → Prop)
    (wallet : Address) (allowed : Act → Pipeline → Prop) :
    PipelineSystem → Label Op Res Task → PipelineSystem → Prop :=
  Step (pipelineMachine keccak256 cfg tick wallet allowed) (serverProgram cfg)

/-- A run of the pipeline. -/
abbrev PipelineRun (keccak256 : List UInt8 → Bytes32) (cfg : Config) (tick : Clock → Clock → Prop)
    (wallet : Address) (allowed : Act → Pipeline → Prop) :
    PipelineSystem → PipelineTrace → PipelineSystem → Prop :=
  Run (pipelineMachine keccak256 cfg tick wallet allowed) (serverProgram cfg)

/-- What a call makes of the programs that have not written a digest. -/
theorem creating_call {j : Nat} {m : UInt64}
    (h : PipelineStep keccak256 cfg tick wallet allowed w (.call i o r) w')
    (hcreating : Creating w' j m) :
    j = i ∧ Kind.message.created o r = some m ∨
      Creating w j m ∧ (j = i → o.isWrite = false) := by
  cases h with
  | @call s s' ths i t past o k r hget hexec =>
      obtain ⟨th, hth, hunwritten⟩ := hcreating
      by_cases hj : j = i
      · subst hj
        have hth' : th = ⟨t, past ++ [⟨o, r, s, s'⟩], k r⟩ := by
          have hlt := (List.getElem?_eq_some_iff.mp hget).1
          rw [List.getElem?_set_self hlt] at hth
          exact (Option.some.inj hth).symm
        rw [hth', serverEvents, List.map_append] at hunwritten
        rcases unwritten_snoc hunwritten with hcreated | ⟨hold, hwrite⟩
        · exact .inl ⟨rfl, hcreated⟩
        · exact .inr ⟨⟨_, hget, hold⟩, fun _ => hwrite⟩
      · rw [List.getElem?_set_ne (Ne.symm hj)] at hth
        exact .inr ⟨⟨th, hth, hunwritten⟩, fun h => absurd h hj⟩

/-- What a call makes of the messages that were found pending. -/
theorem seen_call {m : UInt64} {pendingId : Bytes}
    (h : PipelineStep keccak256 cfg tick wallet allowed w (.call i o r) w')
    (hseen : Seen w' m pendingId) :
    Seen w m pendingId ∨ o.isWrite = false ∧ ∃ row ∈ w.state.server.store.messages,
      row.id = bigint m ∧ row.blockchainDigest = bytes "pending:" ++ pendingId := by
  cases h with
  | @call s s' ths i t past o k r hget hexec =>
      obtain ⟨th, hth, hfound⟩ := hseen
      rcases List.mem_or_eq_of_mem_set hth with hth | rfl
      · exact .inl ⟨th, hth, hfound⟩
      · rcases found_snoc hfound with hfound | ⟨pending, ⟨s₀, s₁, he⟩, hmem⟩
        · exact .inl ⟨_, List.mem_of_getElem? hget, hfound⟩
        · cases List.mem_singleton.mp he
          obtain ⟨server, ⟨-, hanswer⟩, -⟩ := hexec
          rcases hanswer with hanswer | ⟨what, hanswer⟩
          · cases hanswer
            exact .inr ⟨rfl, mem_getPending.mp hmem⟩
          · cases hanswer

/-- A message after a call. -/
theorem rowAfter_call (h : PipelineStep keccak256 cfg tick wallet allowed w (.call i o r) w')
    {row : MessageRow} (hrow : row ∈ w'.state.server.store.messages) :
    RowAfter w.state.server.store row o := by
  cases h with
  | call hget hexec => exact row_after (projects_server.exec hexec) hrow

/-- The contract of the server's programs on the pipeline, with its parameters found. -/
abbrev Sound (keccak256 : List UInt8 → Bytes32) (cfg : Config) (tick : Clock → Clock → Prop)
    (wallet : Address) (allowed : Act → Pipeline → Prop) (w : PipelineSystem) : Prop :=
  (pipelineContract keccak256 cfg tick wallet allowed).Sound w

/-- What a program has created has an id of the sequence. -/
theorem creating_bound {m : UInt64} (hw : Sound keccak256 cfg tick wallet allowed w)
    (h : Creating w i m) : (bigint m).toInt ≤ w.state.server.store.messageSeq := by
  obtain ⟨th, hth, before, after, o, r, s, s', hcreated, heq, -⟩ := h
  have hpast := projects_server.past (hw.2 th (List.mem_of_getElem? hth)).1
  have hmem : (⟨o, r, s, s'⟩ : Event Op Res ServerState) ∈ serverEvents th.past := by
    rw [heq]
    simp
  obtain ⟨-, hexec, hevolves⟩ := hpast.2 _ hmem
  have hbound := (created_bound hcreated hexec).2
  have hseq := hevolves.messageSeq
  simp only [Kind.seq] at hbound
  dsimp only at hseq
  omega

theorem seen_bound {m : UInt64} {pendingId : Bytes}
    (hw : Sound keccak256 cfg tick wallet allowed w) (h : Seen w m pendingId) :
    (bigint m).toInt ≤ w.state.server.store.messageSeq := by
  obtain ⟨th, hth, hfound⟩ := h
  obtain ⟨-, -, -, hbound, -⟩ := found_entry (hw.2 th hth).1 hfound
  exact hbound

/-- **Who writes a digest**: the program that has created the message, or one that has found
it pending and knows how its batch ended. -/
theorem writer_call {m : UInt64} {digest : Bytes} {r : Res (.updateMessageBlockchainDigest m digest)}
    (hw : Sound keccak256 cfg tick wallet allowed w)
    (h : PipelineStep keccak256 cfg tick wallet allowed w
      (.call i (.updateMessageBlockchainDigest m digest) r) w') :
    Creating w i m ∨ ∃ pendingId, Seen w m pendingId ∧ Settles w.state.record pendingId digest := by
  obtain ⟨th, hth, hpast, hpre, -⟩ := Contract.pre_of_call hw h
  obtain ⟨task, past, p⟩ := th
  cases task with
  | request req seen => exact .inl ⟨_, hth, unwritten_of_createdOnly hpre.1⟩
  | resolver =>
      rcases hpre with ⟨id, hop⟩ | hop | ⟨m', digest', hop, hresolved⟩
      · cases hop
      · cases hop
      · cases hop
        obtain ⟨pendingId, hfound, hsettles⟩ := resolved_settles hpast hresolved
        exact .inr ⟨pendingId, ⟨_, List.mem_of_getElem? hth, hfound⟩, hsettles⟩

end Digests

/-! ## The invariant -/

/-- No handler writes a digest after the resolver, and the resolver writes what it must. -/
structure DigestInv (w : PipelineSystem) : Prop where
  one : ∀ {i j m}, Creating w i m → Creating w j m → i = j
  empty : ∀ {i m}, Creating w i m → ∀ row ∈ w.state.server.store.messages, row.id = bigint m →
    row.blockchainDigest = []
  unseen : ∀ {i m pendingId}, Creating w i m → ¬ Seen w m pendingId
  seen : ∀ {m pendingId}, Seen w m pendingId → ∀ row ∈ w.state.server.store.messages,
    row.id = bigint m → row.blockchainDigest = bytes "pending:" ++ pendingId ∨
      Settles w.state.record pendingId row.blockchainDigest
  same : ∀ {m pendingId pendingId'}, Seen w m pendingId → Seen w m pendingId' → pendingId = pendingId'

theorem digestInv_init (s : Pipeline) : DigestInv ⟨s, []⟩ where
  one := by rintro i j m ⟨th, hth, -⟩; simp at hth
  empty := by rintro i m ⟨th, hth, -⟩; simp at hth
  unseen := by rintro i m pendingId ⟨th, hth, -⟩; simp at hth
  seen := by rintro m pendingId ⟨th, hth, -⟩; simp at hth
  same := by rintro m pendingId pendingId' ⟨th, hth, -⟩; simp at hth

/-- A step that calls nothing. -/
theorem DigestInv.quiet {w w' : PipelineSystem} (h : DigestInv w)
    (hcreating : ∀ {i m}, Creating w' i m → Creating w i m)
    (hseen : ∀ {m pendingId}, Seen w' m pendingId → Seen w m pendingId)
    (hrows : w'.state.server.store.messages = w.state.server.store.messages)
    (hsettled : w.state.record.settled ⊆ w'.state.record.settled) : DigestInv w' where
  one hi hj := h.one (hcreating hi) (hcreating hj)
  empty hi := by
    rw [hrows]
    exact h.empty (hcreating hi)
  unseen hi hp := h.unseen (hcreating hi) (hseen hp)
  seen hp row hrow hid := by
    rw [hrows] at hrow
    exact (h.seen (hseen hp) row hrow hid).imp id fun hs => hs.mono hsettled
  same hp hp' := h.same (hseen hp) (hseen hp')

section Steps

variable [Primitives] [FloatFormat] {keccak256 : List UInt8 → Bytes32} {cfg : Config}
  {tick : Clock → Clock → Prop} {wallet : Address} {allowed : Act → Pipeline → Prop}
  {w w' : PipelineSystem} {i : Nat} {o : Op} {r : Res o}

/-- A message that is created has no older one of its id. -/
theorem fresh_call {m : UInt64} (h : PipelineStep keccak256 cfg tick wallet allowed w (.call i o r) w')
    (hcreated : Kind.message.created o r = some m) :
    (w.state.server.store.messageSeq : Int) < (bigint m).toInt := by
  cases h with
  | call hget hexec => exact (created_bound hcreated (projects_server.exec hexec)).1

/-- The messages have different ids. -/
theorem row_unique (hw : Sound keccak256 cfg tick wallet allowed w) {row row' : MessageRow}
    (hrow : row ∈ w.state.server.store.messages) (hrow' : row' ∈ w.state.server.store.messages)
    (hid : row.id = row'.id) : row = row' :=
  List.inj_on_of_nodup_map hw.1.message.store.messageIds.nodup hrow hrow' hid

theorem row_bound (hw : Sound keccak256 cfg tick wallet allowed w) {row : MessageRow}
    (hrow : row ∈ w.state.server.store.messages) :
    row.id.toInt ≤ w.state.server.store.messageSeq :=
  (hw.1.message.store.messageIds.bound _ (List.mem_map_of_mem hrow)).2

/-- What is recorded does not change with a call of the server's. -/
theorem settled_call (hw : Sound keccak256 cfg tick wallet allowed w)
    (h : PipelineStep keccak256 cfg tick wallet allowed w (.call i o r) w') :
    w.state.record.settled ⊆ w'.state.record.settled :=
  (Contract.rely_of_step hw h (by simp)).2.2

theorem digestInv_call (hw : Sound keccak256 cfg tick wallet allowed w) (hinv : DigestInv w)
    (h : PipelineStep keccak256 cfg tick wallet allowed w (.call i o r) w') : DigestInv w' where
  one := by
    intro j k m hj hk
    rcases creating_call h hj with ⟨rfl, hcreated⟩ | ⟨hj, -⟩
    · rcases creating_call h hk with ⟨rfl, -⟩ | ⟨hk, -⟩
      · rfl
      · have hfresh := fresh_call h hcreated
        have hbound := creating_bound hw hk
        omega
    · rcases creating_call h hk with ⟨rfl, hcreated⟩ | ⟨hk, -⟩
      · have hfresh := fresh_call h hcreated
        have hbound := creating_bound hw hj
        omega
      · exact hinv.one hj hk
  empty := by
    intro j m hj row hrow hid
    cases rowAfter_call h hrow with
    | kept hkept =>
        rcases creating_call h hj with ⟨rfl, hcreated⟩ | ⟨hj, -⟩
        · have hfresh := fresh_call h hcreated
          have hbound := row_bound hw hkept
          rw [hid] at hbound
          omega
        · exact hinv.empty hj row hkept hid
    | created _ hdigest => exact hdigest
    | @digest m' digest row₀ hrow₀ hid₀ heq =>
        obtain rfl : m' = m := by
          rw [heq] at hid
          exact bigint_inj.mp (hid₀.symm.trans hid)
        rcases creating_call h hj with ⟨-, hcreated⟩ | ⟨hj, hwrite⟩
        · cases hcreated
        · rcases writer_call hw h with hi | ⟨pendingId, hseen, -⟩
          · cases hwrite (hinv.one hj hi)
          · exact absurd hseen (hinv.unseen hj)
  unseen := by
    intro j m pendingId hj hseen
    rcases seen_call h hseen with hseen | ⟨hwrite, row, hrow, hid, hdigest⟩
    · rcases creating_call h hj with ⟨rfl, hcreated⟩ | ⟨hj, -⟩
      · have hfresh := fresh_call h hcreated
        have hbound := seen_bound hw hseen
        omega
      · exact hinv.unseen hj hseen
    · rcases creating_call h hj with ⟨rfl, hcreated⟩ | ⟨hj, -⟩
      · have hfresh := fresh_call h hcreated
        have hbound := row_bound hw hrow
        rw [hid] at hbound
        omega
      · rw [hinv.empty hj row hrow hid] at hdigest
        cases hdigest
  seen := by
    intro m pendingId hseen row hrow hid
    have hmono := settled_call hw h
    rcases seen_call h hseen with hseen | ⟨hwrite, row', hrow', hid', hdigest'⟩
    · cases rowAfter_call h hrow with
      | kept hkept => exact (hinv.seen hseen row hkept hid).imp id fun hs => hs.mono hmono
      | created hfresh hdigest =>
          have hbound := seen_bound hw hseen
          rw [← hid] at hbound
          omega
      | @digest m' digest row₀ hrow₀ hid₀ heq =>
          subst heq
          obtain rfl : m' = m := bigint_inj.mp (hid₀.symm.trans hid)
          rcases writer_call hw h with hi | ⟨pendingId', hseen', hsettles⟩
          · exact absurd hseen (hinv.unseen hi)
          · obtain rfl := hinv.same hseen hseen'
            exact .inr (hsettles.mono hmono)
    · cases rowAfter_call h hrow with
      | kept hkept =>
          obtain rfl := row_unique hw hkept hrow' (hid.trans hid'.symm)
          exact .inl hdigest'
      | created => cases hwrite
      | digest => cases hwrite
  same := by
    intro m pendingId pendingId' hp hp'
    rcases seen_call h hp with hp | ⟨-, row, hrow, hid, hdigest⟩
    · rcases seen_call h hp' with hp' | ⟨-, row, hrow, hid, hdigest⟩
      · exact hinv.same hp hp'
      · rcases hinv.seen hp row hrow hid with hpending | ⟨result, -, htext⟩
        · exact pending_inj (hpending.symm.trans hdigest)
        · rw [hdigest] at htext
          exact absurd (List.prefix_append _ _) htext.not_pending
    · rcases seen_call h hp' with hp' | ⟨-, row', hrow', hid', hdigest'⟩
      · rcases hinv.seen hp' row hrow hid with hpending | ⟨result, -, htext⟩
        · exact pending_inj (hdigest.symm.trans hpending)
        · rw [hdigest] at htext
          exact absurd (List.prefix_append _ _) htext.not_pending
      · obtain rfl := row_unique hw hrow hrow' (hid.trans hid'.symm)
        exact pending_inj (hdigest.symm.trans hdigest')

/-- **Every step keeps the invariant.** -/
theorem digestInv_step {l : Label Op Res Task} (hw : Sound keccak256 cfg tick wallet allowed w)
    (hinv : DigestInv w) (h : PipelineStep keccak256 cfg tick wallet allowed w l w') :
    DigestInv w' := by
  cases h with
  | @start s ths t =>
      refine hinv.quiet ?_ ?_ rfl (List.Subset.refl _)
      · rintro i m ⟨th, hth, hunwritten⟩
        by_cases hi : i < ths.length
        · rw [List.getElem?_append_left hi] at hth
          exact ⟨th, hth, hunwritten⟩
        · have hmem := List.mem_of_getElem? hth
          rw [List.getElem?_append_right (Nat.le_of_not_lt hi)] at hth
          rw [List.mem_singleton.mp (List.mem_of_getElem? hth)] at hunwritten
          obtain ⟨before, after, o, r, s, s', -, hnil, -⟩ := hunwritten
          simp [serverEvents] at hnil
      · rintro m pendingId ⟨th, hth, hfound⟩
        rcases List.mem_append.mp hth with hth | hth
        · exact ⟨th, hth, hfound⟩
        · rw [List.mem_singleton.mp hth] at hfound
          obtain ⟨pending, ⟨s, s', hnil⟩, -⟩ := hfound
          cases hnil
  | call hget hexec => exact digestInv_call hw hinv (.call hget hexec)
  | @env s s' ths henv =>
      refine hinv.quiet id id ?_ (pipelineInv_env hw.1 henv).2.2.2
      rcases henv with ⟨server, henv, rfl⟩ | ⟨act, -, hmove⟩
      · cases henv <;> rfl
      · cases hmove <;> rfl
  | restart hrestart => exact digestInv_init _

/-- A digest that is neither empty nor that of a pending message. -/
def Final (digest : Bytes) : Prop := digest ≠ [] ∧ ¬ bytes "pending:" <+: digest

/-- **A call keeps the digests that are final.** -/
theorem final_call (hw : Sound keccak256 cfg tick wallet allowed w) (hinv : DigestInv w)
    (h : PipelineStep keccak256 cfg tick wallet allowed w (.call i o r) w') {row row' : MessageRow}
    (hrow : row ∈ w.state.server.store.messages) (hrow' : row' ∈ w'.state.server.store.messages)
    (hid : row'.id = row.id) (hfinal : Final row.blockchainDigest) :
    row'.blockchainDigest = row.blockchainDigest := by
  cases rowAfter_call h hrow' with
  | kept hkept => rw [row_unique hw hkept hrow hid]
  | created hfresh hdigest =>
      have hbound := row_bound hw hrow
      rw [← hid] at hbound
      omega
  | @digest m digest row₀ hrow₀ hid₀ heq =>
      subst heq
      obtain rfl := row_unique hw hrow hrow₀ hid.symm
      rcases writer_call hw h with hi | ⟨pendingId, hseen, hsettles⟩
      · exact absurd (hinv.empty hi row hrow hid₀) hfinal.1
      · rcases hinv.seen hseen row hrow hid₀ with hpending | hsettled
        · exact absurd (hpending ▸ List.prefix_append _ _) hfinal.2
        · exact hsettles.unique hw.1.sidecar hsettled

/-- What later states have in common with an earlier one: ids are not used again, and final
digests stay. -/
structure Keeps (s s' : Store) : Prop where
  messageSeq : s.messageSeq ≤ s'.messageSeq
  messages : ∀ row' ∈ s'.messages, row'.id.toInt ≤ s.messageSeq → ∃ row ∈ s.messages, row'.id = row.id
  final : ∀ row ∈ s.messages, ∀ row' ∈ s'.messages, row'.id = row.id → Final row.blockchainDigest →
    row'.blockchainDigest = row.blockchainDigest

omit [Primitives] [FloatFormat] in
theorem Keeps.trans {s t u : Store} (hs : StoreInv s) (h : Keeps s t) (h' : Keeps t u) : Keeps s u where
  messageSeq := h.messageSeq.trans h'.messageSeq
  messages := by
    intro row'' hrow'' hle
    have hseq := h.messageSeq
    obtain ⟨row', hrow', hid'⟩ := h'.messages row'' hrow'' (by omega)
    obtain ⟨row, hrow, hid⟩ := h.messages row' hrow' (by rw [← hid']; exact hle)
    exact ⟨row, hrow, hid'.trans hid⟩
  final := by
    intro row hrow row'' hrow'' hid hfinal
    have hbound := (hs.messageIds.bound _ (List.mem_map_of_mem hrow)).2
    have hseq := h.messageSeq
    obtain ⟨row', hrow', hid'⟩ := h'.messages row'' hrow'' (by rw [hid]; omega)
    have hdigest := h.final row hrow row' hrow' (hid'.symm.trans hid) hfinal
    rw [← hdigest]
    exact h'.final row' hrow' row'' hrow'' hid' (by rw [hdigest]; exact hfinal)

omit [Primitives] [FloatFormat] in
/-- A step that writes no digest. -/
theorem keeps_of_messages {s s' : Store} (hs : StoreInv s) (hseq : s.messageSeq ≤ s'.messageSeq)
    (h : s'.messages = s.messages) : Keeps s s' where
  messageSeq := hseq
  messages := by
    intro row' hrow' _
    rw [h] at hrow'
    exact ⟨row', hrow', rfl⟩
  final := by
    intro row hrow row' hrow' hid _
    rw [h] at hrow'
    rw [List.inj_on_of_nodup_map hs.messageIds.nodup hrow' hrow hid]

/-- **Every step keeps the digests that are final.** -/
theorem keeps_step {l : Label Op Res Task} (hw : Sound keccak256 cfg tick wallet allowed w)
    (hinv : DigestInv w) (h : PipelineStep keccak256 cfg tick wallet allowed w l w') :
    Keeps w.state.server.store w'.state.server.store := by
  have hs := hw.1.message.store
  have hstep := h
  cases h with
  | start t => exact keeps_of_messages hs (Nat.le_refl _) rfl
  | call hget hexec =>
      have hevolves := (Contract.rely_of_step hw hstep (by simp)).1
      refine ⟨hevolves.messageSeq, ?_, fun row hrow row' hrow' => final_call hw hinv hstep hrow hrow'⟩
      intro row' hrow' hle
      obtain ⟨row, hrow, heq⟩ := hevolves.messages row' hrow' hle
      exact ⟨row, hrow, by rw [heq]⟩
  | env henv =>
      have hevolves := (Contract.rely_of_step hw hstep (by simp)).1
      refine keeps_of_messages hs hevolves.messageSeq ?_
      rcases henv with ⟨server, henv, rfl⟩ | ⟨act, -, hmove⟩
      · cases henv <;> rfl
      · cases hmove <;> rfl
  | restart hrestart =>
      rw [show _ = _ from hrestart]
      exact keeps_of_messages hs (Nat.le_refl _) rfl

end Steps

/-! ## Runs -/

/-- What is said of the digests of a run: the hash of a transaction stands for one that was
mined with the hash of the payload among its leaves, an id is in one batch at most, and the
hash of a transaction stays. -/
structure DigestsSound (keccak256 : List UInt8 → Bytes32) (tr : PipelineTrace) (w : PipelineSystem) :
    Prop where
  recorded : ∀ row ∈ w.state.server.store.messages, Final row.blockchainDigest →
    ∃ txHash event, (txHash, event) ∈ w.state.ledger.mined ∧
      row.blockchainDigest = txText txHash ∧ keccak256 row.payload ∈ event.leaves
  once : (w.state.record.submitted.flatten.map (·.pendingId)).Nodup
  final : ∀ x ∈ tr, ∀ row ∈ x.1.state.server.store.messages,
    ∀ row' ∈ w.state.server.store.messages, row'.id = row.id → Final row.blockchainDigest →
      row'.blockchainDigest = row.blockchainDigest

/-- The transaction behind a final digest. -/
theorem PipelineInv.recorded {keccak256 : List UInt8 → Bytes32} {s : Pipeline}
    (h : PipelineInv keccak256 s) {row : MessageRow} (hrow : row ∈ s.server.store.messages)
    (hfinal : Final row.blockchainDigest) :
    ∃ txHash event, (txHash, event) ∈ s.ledger.mined ∧ row.blockchainDigest = txText txHash ∧
      keccak256 row.payload ∈ event.leaves := by
  rcases h.message.digests row hrow with hempty | ⟨entry, hentry, hrecords, hpending | hsettles⟩
  · exact absurd hempty hfinal.1
  · exact absurd (hpending ▸ List.prefix_append _ _) hfinal.2
  · obtain ⟨result, hsettled, htext⟩ := hsettles
    generalize hdigest : row.blockchainDigest = digest at htext hfinal
    cases htext with
    | confirmed =>
        obtain ⟨event, hmined, hleaf⟩ := h.ledger.confirmed entry hentry _ _ hsettled
        exact ⟨_, event, hmined, rfl, hrecords.leaf ▸ hleaf⟩
    | failed => exact absurd rfl hfinal.1

theorem pipelineInv_initial (keccak256 : List UInt8 → Bytes32) (clock : Clock) (deployer : Address) :
    PipelineInv keccak256 (.initial clock deployer) where
  sidecar := ⟨by simp [Pipeline.initial], by simp [Pipeline.initial, Sidecar.start],
    by simp [Pipeline.initial, Sidecar.start],
    by simp [Pipeline.initial, Sidecar.start, Sidecar.open], by simp [Pipeline.initial],
    by simp [Pipeline.initial, Sidecar.start]⟩
  ledger := ⟨by simp [Pipeline.initial], by simp [Pipeline.initial], by simp [Pipeline.initial],
    by simp [Pipeline.initial, Sidecar.start], by simp [Pipeline.initial]⟩
  message := ⟨storeInv_empty, by simp [Pipeline.initial], by simp [Pipeline.initial],
    by simp [Pipeline.initial, ServerState.initial, Store.empty]⟩

section Runs

variable [Primitives] [FloatFormat] {keccak256 : List UInt8 → Bytes32} {cfg : Config}
  {tick : Clock → Clock → Prop} {wallet : Address} {allowed : Act → Pipeline → Prop}

/-- **The digests of every run are sound**, whatever fails and in whatever order it runs. -/
theorem digests_sound {clock : Clock} {deployer : Address} {tr : PipelineTrace} {w : PipelineSystem}
    (h : PipelineRun keccak256 cfg tick wallet allowed ⟨.initial clock deployer, []⟩ tr w) :
    DigestsSound keccak256 tr w := by
  have hall : Sound keccak256 cfg tick wallet allowed w ∧ DigestInv w ∧
      ∀ x ∈ tr, StoreInv x.1.state.server.store ∧
        Keeps x.1.state.server.store w.state.server.store := by
    induction h with
    | nil => exact ⟨Contract.sound_init (pipelineInv_initial _ _ _), digestInv_init _, by simp⟩
    | @snoc tr v l u hrun hstep ih =>
        obtain ⟨hsound, hinv, hkeeps⟩ := ih
        have hlast := keeps_step hsound hinv hstep
        refine ⟨Contract.sound_step hsound hstep, digestInv_step hsound hinv hstep, ?_⟩
        intro x hx
        rcases List.mem_append.mp hx with hx | hx
        · exact ⟨(hkeeps x hx).1, (hkeeps x hx).2.trans (hkeeps x hx).1 hlast⟩
        · rw [List.mem_singleton.mp hx]
          exact ⟨hsound.1.message.store, hlast⟩
  obtain ⟨hsound, -, hkeeps⟩ := hall
  refine ⟨fun row hrow => hsound.1.recorded hrow, ?_, fun x hx => (hkeeps x hx).2.final⟩
  exact hsound.1.sidecar.issued.sublist
    (((List.sublist_append_left _ _).trans hsound.1.sidecar.batches).map _)

end Runs

/-! ## A message on its way to the ledger -/

def exampleUuid : Bytes := bytes "9b1deb4d-3b7d-4bad-9bdd-2b0d7b3dcb6d"

/-- The hash of the text of the example; of others it says nothing. -/
def exampleKeccak (text : List UInt8) : Bytes32 :=
  if text = bytes "hello" then 0x1c8aff950685c2ed4bc3174f3472287b56d9517b9c948127319a09a7a36deac8
  else 0

/-- The answers when the database does not fail and the sidecar has one id to give. -/
def pipelineAnswer [FloatFormat] (cfg : Config) : (o : Op) → Pipeline → Res o × Pipeline
  | .sidecar path body, s =>
      if path = bytes "/record" ∧ s.record.issued.length = 0 then
        (some (postRecord exampleKeccak exampleUuid body s.sidecar).1,
          s.post exampleKeccak exampleUuid body)
      else if path = bytes "/pending/" ++ exampleUuid then
        (some (getPending exampleUuid s.sidecar), s)
      else (none, s)
  | o, s => ((answer cfg o s.server).1, { s with server := (answer cfg o s.server).2 })

theorem pipelineExec_answer [FloatFormat] (cfg : Config) (o : Op) (s : Pipeline) :
    pipelineExec exampleKeccak cfg o s (pipelineAnswer cfg o s).1 (pipelineAnswer cfg o s).2 := by
  cases o with
  | sidecar path body =>
      simp only [pipelineAnswer]
      split_ifs with hrecord hpending
      · refine .record hrecord.1 (by unfold IsUuid; decide +kernel) ?_ (by simp)
        rw [List.length_eq_zero_iff.mp hrecord.2]
        simp
      · exact .pending hpending (by simp)
      · exact .unreachable
  | _ => exact ⟨_, exec_answer cfg _ s.server, rfl⟩

/-- Alice signs up, opens a conversation with herself, and sends a message. -/
def helloSession : List (Request × Nat) :=
  [(exampleSignup "alice" (bytes "a"), 4),
    (examplePost aliceToken "/conversations" [("name", .str (bytes "notes")),
      ("participantIds", .arr [.unsigned 1])], 7),
    (examplePost aliceToken "/conversations/1/messages" [("senderId", .unsigned 1),
      ("payload", .str (bytes "hello"))], 12)]

/-- The pipeline when she has her answer. -/
def helloRun : PipelineTrace × PipelineSystem :=
  letI := examplePrimitives
  letI := plainFloats
  System.moves (pipelineAnswer exampleConfig) (serverProgram exampleConfig)
    ⟨.initial 1000000 0, []⟩ (requestMoves helloSession)

/-- The entry is of message `m`. -/
def QueueEntry.isOf (entry : QueueEntry) (m : UInt64) : Bool :=
  match entry.msgId with
  | .unsigned n => n = m
  | _ => false

theorem msgId_of_isOf {entry : QueueEntry} {m : UInt64} (h : entry.isOf m = true) :
    entry.msgId = .unsigned m := by
  unfold QueueEntry.isOf at h
  split at h
  · rename_i n heq
    rw [heq, of_decide_eq_true h]
  · cases h

/-- The transaction of its batch. -/
def helloTx : Tx := ⟨7, 0, exampleKeccak (bytes "hello"), ⟨[exampleKeccak (bytes "hello")], by decide⟩⟩

/-- The batch is taken, sent, mined and settled. -/
def recordHello (s : Pipeline) : Pipeline :=
  let contract := s.ledger.contract
  let batchId := contract.nextBatchId
  let call := helloTx.call 1000
  (((((s.take.send helloTx).await 0 ⟨s.sidecar.queue, .submitting (some 7)⟩).await 0
    ⟨s.sidecar.queue, .waiting 7⟩).mine helloTx (call.event batchId)
      ⟨contract.owner, Function.update contract.batches batchId call.batch, batchId + 1⟩).settle 0
        s.sidecar.queue (.confirmed 7 batchId))

/-- The resolver reads the result. -/
def resolveHello : PipelineTrace × PipelineSystem :=
  letI := examplePrimitives
  letI := plainFloats
  System.moves (pipelineAnswer exampleConfig) (serverProgram exampleConfig)
    ⟨recordHello helloRun.2.state, helloRun.2.threads⟩ (.start .resolver :: List.replicate 3 (.call 3))

/-- What Alice leaves: her message has an entry in the queue, and nothing was sent. -/
structure HelloState (s : Pipeline) : Prop where
  messages : s.server.store.messages =
    [⟨1, 1, 1, bytes "hello", 1000000, bytes "pending:" ++ exampleUuid⟩]
  queue : s.sidecar.queue.map (fun entry => (entry.isOf 1, entry.pendingId, entry.leaf)) =
    [(true, exampleUuid, exampleKeccak (bytes "hello"))]
  flushes : s.sidecar.flushes = []
  sent : s.ledger.sent = []
  owner : s.ledger.contract.owner = 0
  nextBatchId : s.ledger.contract.nextBatchId = 0

theorem HelloState.leaves {s : Pipeline} (h : HelloState s) :
    s.sidecar.queue.map (·.leaf) = [exampleKeccak (bytes "hello")] := by
  have hqueue := congrArg (List.map (·.2.2)) h.queue
  rwa [List.map_map] at hqueue

/-- Both runs, computed: the message is queued, and it ends with the hash of its transaction. -/
theorem helloSession_eval :
    helloRun.2.state.server.store.messages =
        [⟨1, 1, 1, bytes "hello", 1000000, bytes "pending:" ++ exampleUuid⟩] ∧
      helloRun.2.state.sidecar.queue.map (fun entry => (entry.isOf 1, entry.pendingId, entry.leaf)) =
        [(true, exampleUuid, exampleKeccak (bytes "hello"))] ∧
      helloRun.2.state.sidecar.flushes.length = 0 ∧ helloRun.2.state.ledger.sent.length = 0 ∧
      helloRun.2.state.ledger.contract.owner = 0 ∧
      helloRun.2.state.ledger.contract.nextBatchId = 0 ∧
      resolveHello.2.state.server.store.messages.map (·.blockchainDigest) = [txText 7] := by
  decide +kernel

theorem run_helloRun {allowed : Act → Pipeline → Prop} : letI := examplePrimitives; letI := plainFloats;
    ∃ tr s ths, helloRun = (tr, ⟨s, ths⟩) ∧ HelloState s ∧
      PipelineRun exampleKeccak exampleConfig (· ≤ ·) 0 allowed ⟨.initial 1000000 0, []⟩ tr
        ⟨s, ths⟩ := by
  let := examplePrimitives
  let := plainFloats
  obtain ⟨hmessages, hqueue, hflushes, hsent, howner, hnext, -⟩ := helloSession_eval
  have hrun : PipelineRun exampleKeccak exampleConfig (· ≤ ·) 0 allowed ⟨.initial 1000000 0, []⟩
      helloRun.1 helloRun.2 := by
    rw [helloRun]
    exact Run.moves (fun o s => pipelineExec_answer exampleConfig o s) _ _
  generalize helloRun = run at hmessages hqueue hflushes hsent howner hnext hrun
  obtain ⟨tr, s, ths⟩ := run
  exact ⟨tr, s, ths, rfl, ⟨hmessages, hqueue, List.length_eq_zero_iff.mp hflushes,
    List.length_eq_zero_iff.mp hsent, howner, hnext⟩, hrun⟩

/-- A step that the sidecar or the ledger takes. -/
theorem run_move [Primitives] [FloatFormat] {keccak256 : List UInt8 → Bytes32} {cfg : Config}
    {tick : Clock → Clock → Prop} {wallet : Address} {allowed : Act → Pipeline → Prop}
    {w : PipelineSystem} {s s' : Pipeline}
    {ths : List (Thread Op Res Exn Pipeline (Option Response) Task)} {act : Act}
    (h : ∃ tr, PipelineRun keccak256 cfg tick wallet allowed w tr ⟨s, ths⟩)
    (hallowed : allowed act s) (hmove : Move keccak256 wallet s act s') :
    ∃ tr, PipelineRun keccak256 cfg tick wallet allowed w tr ⟨s', ths⟩ := by
  obtain ⟨tr, hrun⟩ := h
  exact ⟨_, hrun.snoc (.env (.inr ⟨act, hallowed, hmove⟩))⟩

theorem run_record [Primitives] [FloatFormat] {cfg : Config} {tick : Clock → Clock → Prop}
    {allowed : Act → Pipeline → Prop} {w : PipelineSystem} {s : Pipeline}
    {ths : List (Thread Op Res Exn Pipeline (Option Response) Task)}
    (h : ∃ tr, PipelineRun exampleKeccak cfg tick 0 allowed w tr ⟨s, ths⟩)
    (hallowed : ∀ act s', (∀ i, act ≠ .failed i) → act ≠ .restart → s'.server = s.server →
      allowed act s')
    (hhello : HelloState s) :
    ∃ tr, PipelineRun exampleKeccak cfg tick 0 allowed w tr ⟨recordHello s, ths⟩ := by
  have hroot : buildMerkleRoot exampleKeccak helloTx.leaves.toList = some helloTx.root := by
    simp [buildMerkleRoot, helloTx, Merkle.build]
  have hfresh : ∀ tx ∈ s.take.ledger.sent, tx.hash ≠ helloTx.hash := by
    simp [Pipeline.take, hhello.sent]
  have hget : s.take.sidecar.flushes[0]? = some ⟨s.sidecar.queue, .submitting none⟩ := by
    simp [Pipeline.take, hhello.flushes]
  have hget' : ((s.take.send helloTx).await 0
      ⟨s.sidecar.queue, .submitting (some 7)⟩).sidecar.flushes[0]? =
        some ⟨s.sidecar.queue, .submitting (some 7)⟩ := by
    simp [Pipeline.await, Pipeline.send, Pipeline.take, hhello.flushes]
  have hleaves := hhello.leaves
  have hne : s.sidecar.queue ≠ [] := by
    intro hnil
    rw [hnil] at hleaves
    cases hleaves
  have htake := run_move h (hallowed _ _ (by simp) (by simp) rfl) (.take hne)
  have hbroadcast := run_move htake (hallowed _ _ (by simp) (by simp) rfl)
    (Move.broadcast (i := 0) hget hfresh rfl hleaves.symm hroot)
  have hsubmitted := run_move hbroadcast (hallowed _ _ (by simp) (by simp) rfl)
    (Move.submitted (i := 0) hget')
  have hcall : recordBatch s.ledger.contract (helloTx.call 1000) = .ok (s.ledger.contract.nextBatchId,
      (helloTx.call 1000).event s.ledger.contract.nextBatchId, ⟨s.ledger.contract.owner,
        Function.update s.ledger.contract.batches s.ledger.contract.nextBatchId
          (helloTx.call 1000).batch,
        s.ledger.contract.nextBatchId + 1⟩) :=
    recordBatch_ok.mpr ⟨hhello.owner.symm, by simp [helloTx, Tx.call],
      by rw [hhello.nextBatchId]; decide, rfl⟩
  have hmine := run_move hsubmitted (hallowed _ _ (by simp) (by simp) rfl)
    (.mine (List.mem_append_right _ (List.mem_singleton_self _)) hcall)
  change ∃ tr, PipelineRun exampleKeccak cfg tick 0 allowed w tr ⟨Pipeline.settle _ 0
    s.sidecar.queue (.confirmed 7
      ((helloTx.call 1000).event s.ledger.contract.nextBatchId).batchId), ths⟩
  refine run_move hmine (hallowed _ _ (by simp) (by simp) rfl)
    (.confirmed (h := 7) ?_ (List.mem_append_right _ (List.mem_singleton_self _)))
  simp [Pipeline.await, Pipeline.send, Pipeline.take, Pipeline.mine, Pipeline.drop, hhello.flushes]

theorem run_resolveHello : letI := examplePrimitives; letI := plainFloats;
    ∃ tr, PipelineRun exampleKeccak exampleConfig (· ≤ ·) 0 (fun _ _ => True)
      ⟨.initial 1000000 0, []⟩ tr resolveHello.2 := by
  let := examplePrimitives
  let := plainFloats
  obtain ⟨tr, s, ths, heq, hhello, hrun⟩ := run_helloRun
  obtain ⟨tr', hrecord⟩ := run_record ⟨tr, hrun⟩ (fun _ _ _ _ _ => trivial) hhello
  rw [resolveHello, heq]
  exact ⟨_, hrecord.append (Run.moves (fun o s => pipelineExec_answer exampleConfig o s) _ _)⟩

/-- The message ends with the hash of its transaction. -/
theorem digests_sound_example : letI := examplePrimitives; letI := plainFloats; ∃ tr w,
    PipelineRun exampleKeccak exampleConfig (· ≤ ·) 0 (fun _ _ => True) ⟨.initial 1000000 0, []⟩ tr w ∧
      w.state.server.store.messages.map (·.blockchainDigest) = [txText 7] ∧
      DigestsSound exampleKeccak tr w := by
  let := examplePrimitives
  let := plainFloats
  obtain ⟨tr, hrun⟩ := run_resolveHello
  exact ⟨tr, _, hrun, helloSession_eval.2.2.2.2.2.2, digests_sound hrun⟩

end Blockchain
