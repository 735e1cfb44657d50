import Kingdom.Blockchain.Digests

/-!
# Messages that were queued reach the ledger

A message whose text the sidecar has queued is accounted for as long as the sidecar does not
restart with it, its batch does not fail, and its digest is stored before its batch ends.

* `OnChain` — the leaf of an entry was mined, and the digest of the message says so, or that
  it is pending.
* `Accounted` — every message that was queued is still waited for, or on the chain.
* `Careful` — what a step of the sidecar must not meet.
* `accounted` — the runs that keep every message accounted for, and the steps that do.
* `not_accounted` — a call that fails loses a message.
-/

namespace Blockchain

open Codec Process Kds

variable (keccak256 : List UInt8 → Bytes32)

/-- The leaf of the entry was mined, and the message has the hash of that transaction, or is
pending. -/
def OnChain (s : Pipeline) (entry : QueueEntry) (row : MessageRow) : Prop :=
  ∃ txHash event, (txHash, event) ∈ s.ledger.mined ∧ entry.leaf ∈ event.leaves ∧
    (row.blockchainDigest = txText txHash ∨ bytes "pending:" <+: row.blockchainDigest)

/-- Every message that was queued is in the queue, in a batch that has not ended, or on the
chain; and no message on the chain is reported as failed. -/
structure Accounted (s : Pipeline) : Prop where
  kept : ∀ entry ∈ s.record.issued, ∀ row ∈ s.server.store.messages, Records keccak256 entry row →
    entry ∈ s.sidecar.queue ∨ (∃ flush ∈ s.sidecar.flushes, entry ∈ flush.batch) ∨
      OnChain s entry row
  reported : ∀ entry ∈ s.record.issued, ∀ row ∈ s.server.store.messages,
    Records keccak256 entry row → (∃ p ∈ s.ledger.mined, entry.leaf ∈ p.2.leaves) →
      ∀ error, s.sidecar.pendingResults entry.pendingId ≠ some (.failed error)

/-- When a step of the sidecar loses no message: it restarts with nothing that is not on the
chain, only batches of deleted messages fail, and a batch ends when the digests of its
messages were stored. -/
def Careful : Act → Pipeline → Prop
  | .restart, s => ∀ entry ∈ s.sidecar.open, ∀ row ∈ s.server.store.messages,
      Records keccak256 entry row → OnChain s entry row
  | .confirmed i, s => ∀ flush ∈ s.sidecar.flushes[i]?, ∀ entry ∈ flush.batch,
      ∀ row ∈ s.server.store.messages, Records keccak256 entry row → row.blockchainDigest ≠ []
  | .failed i, s => ∀ flush ∈ s.sidecar.flushes[i]?, ∀ entry ∈ flush.batch,
      ∀ row ∈ s.server.store.messages, ¬ Records keccak256 entry row
  | _, _ => True

/-! ## The invariant -/

/-- No message was lost, and no batch of a message has failed. -/
structure CareInv (s : Pipeline) : Prop where
  kept : ∀ entry ∈ s.record.issued, ∀ row ∈ s.server.store.messages, Records keccak256 entry row →
    entry ∈ s.sidecar.open ∨ OnChain s entry row
  failed : ∀ entry ∈ s.record.issued, ∀ error,
    (entry.pendingId, .failed error) ∈ s.record.settled →
      ∀ row ∈ s.server.store.messages, ¬ Records keccak256 entry row

variable {keccak256} {s s' : Pipeline}

theorem mem_open {s : Sidecar} {entry : QueueEntry} :
    entry ∈ s.open ↔ entry ∈ s.queue ∨ ∃ flush ∈ s.flushes, entry ∈ flush.batch := by
  rw [Sidecar.open, List.mem_append, List.mem_flatMap, or_comm]

/-- What the invariant says of the sidecar's answers. -/
theorem CareInv.all_accounted (h : CareInv keccak256 s) (hinv : PipelineInv keccak256 s) :
    Accounted keccak256 s where
  kept := by
    intro entry hentry row hrow hrecords
    rw [← or_assoc, ← mem_open]
    exact h.kept entry hentry row hrow hrecords
  reported := by
    intro entry hentry row hrow hrecords _ error hfailed
    rcases hinv.sidecar.results _ _ hfailed with hpending | hsettled
    · cases hpending
    · exact h.failed entry hentry error hsettled row hrow hrecords

/-- A mined leaf stays, when the digest is still no empty one. -/
theorem onChain_of_mined (hinv : PipelineInv keccak256 s) {entry : QueueEntry} {row : MessageRow}
    (hrow : row ∈ s.server.store.messages) (hrecords : Records keccak256 entry row)
    (hdigest : row.blockchainDigest ≠ []) {txHash : Bytes32} {event : BatchRecorded}
    (hmined : (txHash, event) ∈ s.ledger.mined) (hleaf : entry.leaf ∈ event.leaves) :
    OnChain s entry row := by
  by_cases hpending : bytes "pending:" <+: row.blockchainDigest
  · exact ⟨txHash, event, hmined, hleaf, .inr hpending⟩
  · obtain ⟨txHash', event', hmined', htext, hleaf'⟩ := hinv.recorded hrow ⟨hdigest, hpending⟩
    exact ⟨txHash', event', hmined', hrecords.leaf ▸ hleaf', .inl htext⟩

/-! ## Steps of the sidecar and of the ledger -/

theorem OnChain.mono {entry : QueueEntry} {row : MessageRow} (h : OnChain s entry row)
    (hmined : s.ledger.mined ⊆ s'.ledger.mined) : OnChain s' entry row := by
  obtain ⟨txHash, event, hmem, hleaf, hdigest⟩ := h
  exact ⟨txHash, event, hmined hmem, hleaf, hdigest⟩

/-- A step after which the same entries are waited for. -/
theorem CareInv.mono (h : CareInv keccak256 s)
    (hopen : ∀ entry ∈ s.sidecar.open, entry ∈ s'.sidecar.open)
    (hrows : s'.server.store.messages = s.server.store.messages)
    (hrecord : s'.record.issued = s.record.issued)
    (hsettled : s'.record.settled = s.record.settled) (hmined : s.ledger.mined ⊆ s'.ledger.mined) :
    CareInv keccak256 s' where
  kept := by
    intro entry hentry row hrow hrecords
    rw [hrecord] at hentry
    rw [hrows] at hrow
    exact (h.kept entry hentry row hrow hrecords).imp (hopen entry) fun hon => hon.mono hmined
  failed := by
    intro entry hentry error herror row hrow
    rw [hrecord] at hentry
    rw [hsettled] at herror
    rw [hrows] at hrow
    exact h.failed entry hentry error herror row hrow

theorem careInv_enqueue {entry : QueueEntry} (h : CareInv keccak256 s)
    (hinv : PipelineInv keccak256 s) (hfresh : ∀ e ∈ s.record.issued, e.pendingId ≠ entry.pendingId) :
    CareInv keccak256 (s.enqueue entry) where
  kept := by
    intro e he row hrow hrecords
    rw [mem_open]
    rcases List.mem_append.mp he with he | he
    · rcases h.kept e he row hrow hrecords with hopen | hon
      · rcases mem_open.mp hopen with hqueue | hflush
        · exact .inl (.inl (List.mem_append_left _ hqueue))
        · exact .inl (.inr hflush)
      · exact .inr hon
    · exact .inl (.inl (List.mem_append_right _ he))
  failed := by
    intro e he error herror
    rcases List.mem_append.mp he with he | he
    · exact h.failed e he error herror
    · rw [List.mem_singleton.mp he] at herror
      obtain ⟨e', he', hid⟩ := hinv.sidecar.settled _ herror
      exact absurd hid (hfresh e' he')

theorem careInv_post [FloatFormat] {pendingId body : Bytes} (h : CareInv keccak256 s)
    (hinv : PipelineInv keccak256 s) (hfresh : ∀ e ∈ s.record.issued, e.pendingId ≠ pendingId) :
    CareInv keccak256 (s.post keccak256 pendingId body) := by
  rcases post_cases keccak256 s pendingId body with ⟨json, c, m, text, -, -, -, -, hpost⟩ | ⟨-, hpost⟩
  · rw [hpost]
    exact careInv_enqueue h hinv hfresh
  · rw [hpost]
    exact h

/-- The entries that are waited for after a batch has ended. -/
theorem open_settle {i : Nat} {flush : Flush} {entry : QueueEntry} (result : PendingResult)
    (hget : s.sidecar.flushes[i]? = some flush) (h : entry ∈ s.sidecar.open) :
    entry ∈ (s.settle i flush.batch result).sidecar.open ∨ entry ∈ flush.batch := by
  rw [mem_open] at h ⊢
  rcases h with hqueue | ⟨flush', hflush', hmem⟩
  · exact .inl (.inl hqueue)
  · obtain ⟨hi, rfl⟩ := List.getElem?_eq_some_iff.mp hget
    rcases List.mem_cons.mp ((List.getElem_cons_eraseIdx_perm hi).mem_iff.mpr hflush') with rfl | hrest
    · exact .inr hmem
    · exact .inl (.inr ⟨flush', hrest, hmem⟩)

/-- **A step that is careful loses no message.** -/
theorem careInv_move [FloatFormat] {wallet : Address} {act : Act} (h : CareInv keccak256 s)
    (hinv : PipelineInv keccak256 s) (hmove : Move keccak256 wallet s act s')
    (hcare : Careful keccak256 act s) : CareInv keccak256 s' := by
  cases hmove with
  | arrive hbody huuid hfresh =>
      exact (careInv_post h hinv hfresh).mono (fun _ hopen => hopen) rfl rfl rfl (List.Subset.refl _)
  | take hqueue =>
      refine h.mono (fun entry hopen => ?_) rfl rfl rfl (List.Subset.refl _)
      rwa [open_take]
  | @broadcast i batch tx hflush hfresh hsender hleaves hroot =>
      have hopen : ((s.send tx).await i ⟨batch, .submitting (some tx.hash)⟩).sidecar.open =
          s.sidecar.open := open_await (s := s.send tx) hflush rfl
      refine h.mono (fun entry hmem => ?_) rfl rfl rfl (List.Subset.refl _)
      rwa [hopen]
  | @submitted i batch txHash hflush =>
      have hopen : (s.await i ⟨batch, .waiting txHash⟩).sidecar.open = s.sidecar.open :=
        open_await hflush rfl
      refine h.mono (fun entry hmem => ?_) rfl rfl rfl (List.Subset.refl _)
      rwa [hopen]
  | @confirmed i batch txHash event hflush hmined =>
      refine ⟨fun entry hentry row hrow hrecords => ?_,
    fun entry hentry error herror => ?_⟩
      · rcases h.kept entry hentry row hrow hrecords with hopen | hon
        · rcases open_settle (.confirmed txHash event.batchId) hflush hopen with hopen | hbatch
          · exact .inl hopen
          · have hleaves := hinv.ledger.leaves (List.mem_of_getElem? hflush) hmined
            refine .inr (onChain_of_mined hinv hrow hrecords ?_ hmined ?_)
            · exact hcare _ hflush entry hbatch row hrow hrecords
            · rw [hleaves]
              exact List.mem_map_of_mem hbatch
        · exact .inr hon
      · rcases List.mem_append.mp herror with herror | herror
        · exact h.failed entry hentry error herror
        · obtain ⟨e, -, heq⟩ := List.mem_map.mp herror
          cases (Prod.mk.inj heq).2
  | @failed i flush error hflush =>
      refine ⟨fun entry hentry row hrow hrecords => ?_,
    fun entry hentry error' herror => ?_⟩
      · rcases h.kept entry hentry row hrow hrecords with hopen | hon
        · rcases open_settle (.failed error) hflush hopen with hopen | hbatch
          · exact .inl hopen
          · exact absurd hrecords (hcare flush hflush entry hbatch row hrow)
        · exact .inr hon
      · rcases List.mem_append.mp herror with herror | herror
        · exact h.failed entry hentry error' herror
        · obtain ⟨e, he, heq⟩ := List.mem_map.mp herror
          have hissued := hinv.sidecar.mem_issued (List.mem_of_getElem? hflush) he
          obtain rfl := hinv.sidecar.unique hissued hentry (Prod.mk.inj heq).1
          exact hcare flush hflush e he
  | restart =>
      refine ⟨fun entry hentry row hrow hrecords => .inr ?_, h.failed⟩
      rcases h.kept entry hentry row hrow hrecords with hopen | hon
      · exact hcare entry hopen row hrow hrecords
      · exact hon
  | otherTx hfresh => exact h.mono (fun _ hopen => hopen) rfl rfl rfl (List.Subset.refl _)
  | mine htx hcall => exact h.mono (fun _ hopen => hopen) rfl rfl rfl (List.subset_append_left _ _)
  | drop => exact h.mono (fun _ hopen => hopen) rfl rfl rfl (List.Subset.refl _)

/-- An entry of a batch that has ended is waited for no longer. -/
theorem not_open_settle {i : Nat} {flush : Flush} {result : PendingResult} {entry : QueueEntry}
    (hinv : PipelineInv keccak256 (s.settle i flush.batch result)) (hentry : entry ∈ flush.batch) :
    entry ∉ (s.settle i flush.batch result).sidecar.open := by
  intro hopen
  have honce := List.disjoint_of_nodup_append hinv.sidecar.once
  refine honce (a := entry.pendingId) ?_ (List.mem_map_of_mem hopen)
  exact List.mem_map.mpr ⟨(entry.pendingId, result), List.mem_append_right _
    (List.mem_map.mpr ⟨entry, hentry, rfl⟩), rfl⟩

/-- **A step that loses no message was careful.** -/
theorem careful_of_accounted [FloatFormat] {wallet : Address} {act : Act}
    (hinv : PipelineInv keccak256 s)
    (hmove : Move keccak256 wallet s act s') (h : Accounted keccak256 s') :
    Careful keccak256 act s := by
  have hinv' := (pipelineInv_move hinv hmove).1
  cases hmove with
  | @confirmed i batch txHash event hflush hmined =>
      intro flush hget entry hentry row hrow hrecords hempty
      obtain rfl : _ = flush := Option.some.inj (hflush.symm.trans hget)
      have hissued := hinv.sidecar.mem_issued (List.mem_of_getElem? hflush) hentry
      rcases h.kept entry hissued row hrow hrecords with hqueue | hopen |
        ⟨txHash', event', -, -, hdigest⟩
      · exact not_open_settle hinv' hentry (mem_open.mpr (.inl hqueue))
      · exact not_open_settle hinv' hentry (mem_open.mpr (.inr hopen))
      · rw [hempty] at hdigest
        rcases hdigest with hdigest | hdigest
        · cases hdigest
        · exact absurd hdigest (by decide)
  | @failed i flush' error hflush =>
      intro flush hget entry hentry row hrow hrecords
      obtain rfl : _ = flush := Option.some.inj (hflush.symm.trans hget)
      have hissued := hinv.sidecar.mem_issued (List.mem_of_getElem? hflush) hentry
      rcases h.kept entry hissued row hrow hrecords with hqueue | hopen |
        ⟨txHash, event, hmined, hleaf, -⟩
      · exact not_open_settle hinv' hentry (mem_open.mpr (.inl hqueue))
      · exact not_open_settle hinv' hentry (mem_open.mpr (.inr hopen))
      · refine h.reported entry hissued row hrow hrecords ⟨_, hmined, hleaf⟩ error ?_
        simp only [Pipeline.settle, results_settle]
        rw [if_pos (List.mem_map_of_mem hentry)]
  | restart =>
      intro entry hopen row hrow hrecords
      rcases h.kept entry (hinv.sidecar.open_issued hopen) row hrow hrecords with hqueue | hflush | hon
      · cases hqueue
      · obtain ⟨flush, hflush, -⟩ := hflush
        cases hflush
      · exact hon
  | _ => trivial

/-! ## Steps of the server -/

section Steps

variable [Primitives] [FloatFormat] {cfg : Config} {tick : Clock → Clock → Prop} {wallet : Address}
  {allowed : Act → Pipeline → Prop} {w w' : PipelineSystem} {i : Nat} {o : Op} {r : Res o}

omit [Primitives] [FloatFormat] in
/-- An entry is of a message that is older than those to come. -/
theorem records_bound {entry : QueueEntry} {row : MessageRow} (hinv : PipelineInv keccak256 s)
    (hentry : entry ∈ s.record.issued) (hrecords : Records keccak256 entry row) :
    row.id.toInt ≤ s.server.store.messageSeq := by
  obtain ⟨m, payload, hmsg, -, hcreated⟩ := hinv.message.issued entry hentry
  have hid : Json.unsigned (α := UInt8) row.id.toUInt64 = .unsigned m := hrecords.msgId.symm.trans hmsg
  have hbound := hcreated.bound
  rwa [← Json.unsigned.inj hid, bigint_toUInt64] at hbound

/-- **What a new digest is**: that of a pending message, or of one whose batch has ended. -/
theorem digest_written {m : UInt64} {digest : Bytes} {r : Res (.updateMessageBlockchainDigest m digest)}
    (hw : Sound keccak256 cfg tick wallet allowed w)
    (h : PipelineStep keccak256 cfg tick wallet allowed w
      (.call i (.updateMessageBlockchainDigest m digest) r) w') :
    bytes "pending:" <+: digest ∨ ∃ entry ∈ w.state.record.issued,
      Settles w.state.record entry.pendingId digest ∧
        ∀ row ∈ w.state.server.store.messages, row.id = bigint m → Records keccak256 entry row := by
  obtain ⟨⟨task, past, p⟩, hth, hpast, hpre, -⟩ := Contract.pre_of_call hw h
  cases task with
  | request req seen =>
      obtain ⟨entry, -, -, hdigest, -⟩ := digestOf_entry hpast hpre.2
      exact .inl (hdigest ▸ List.prefix_append _ _)
  | resolver =>
      rcases hpre with ⟨id, hop⟩ | hop | ⟨m', digest', hop, hresolved⟩
      · cases hop
      · cases hop
      · cases hop
        obtain ⟨pendingId, hfound, hsettles⟩ := resolved_settles hpast hresolved
        obtain ⟨entry, hentry, rfl, -, hrecords⟩ := found_entry hpast hfound
        exact .inr ⟨entry, hentry, hsettles, hrecords⟩

/-- A call that reaches nothing but the server. -/
theorem careInv_server {server : ServerState} (hw : Sound keccak256 cfg tick wallet allowed w)
    (hinv : CareInv keccak256 w.state)
    (h : PipelineStep keccak256 cfg tick wallet allowed w (.call i o r) w')
    (hstate : w'.state = { w.state with server := server }) : CareInv keccak256 w'.state := by
  have hissued : w'.state.record.issued = w.state.record.issued := by rw [hstate]
  have hsettled : w'.state.record.settled = w.state.record.settled := by rw [hstate]
  have hopen : w'.state.sidecar.open = w.state.sidecar.open := by rw [hstate]
  have hmined : w'.state.ledger.mined = w.state.ledger.mined := by rw [hstate]
  -- no entry is of a message that was not there before
  have hfresh : ∀ {entry : QueueEntry} {row : MessageRow},
      (w.state.server.store.messageSeq : Int) < row.id.toInt → entry ∈ w.state.record.issued →
        ¬ Records keccak256 entry row := by
    intro entry row hid hentry hrecords
    have hbound := records_bound hw.1 hentry hrecords
    omega
  refine ⟨fun entry hentry row hrow hrecords => ?_,
    fun entry hentry error herror row hrow hrecords => ?_⟩
  · rw [hissued] at hentry
    rw [hopen]
    cases rowAfter_call h hrow with
    | kept hkept =>
        exact (hinv.kept entry hentry row hkept hrecords).imp id fun hon =>
          hon.mono (by rw [hmined]; exact List.Subset.refl _)
    | created hid => exact absurd hrecords (hfresh hid hentry)
    | @digest m digest row₀ hrow₀ hid heq =>
        subst heq
        have hrecords₀ : Records keccak256 entry row₀ := ⟨hrecords.msgId, hrecords.leaf⟩
        rcases hinv.kept entry hentry row₀ hrow₀ hrecords₀ with hwaits | ⟨txHash, event, hmem, hleaf, -⟩
        · exact .inl hwaits
        · refine .inr ?_
          rw [OnChain, hmined]
          rcases digest_written hw h with hpending | ⟨e, he, ⟨result, hmemr, htext⟩, hof⟩
          · exact ⟨txHash, event, hmem, hleaf, .inr hpending⟩
          · have hsame := hof row₀ hrow₀ hid
            cases htext with
            | confirmed =>
                obtain ⟨event', hmem', hleaf'⟩ := hw.1.ledger.confirmed e he _ _ hmemr
                refine ⟨_, event', hmem', ?_, .inl rfl⟩
                rw [hrecords₀.leaf, ← hsame.leaf]
                exact hleaf'
            | failed => exact absurd hsame (hinv.failed e he _ hmemr row₀ hrow₀)
  · rw [hissued] at hentry
    rw [hsettled] at herror
    cases rowAfter_call h hrow with
    | kept hkept => exact hinv.failed entry hentry error herror row hkept hrecords
    | created hid => exact hfresh hid hentry hrecords
    | @digest m digest row₀ hrow₀ hid heq =>
        subst heq
        exact hinv.failed entry hentry error herror row₀ hrow₀ ⟨hrecords.msgId, hrecords.leaf⟩

/-- **Every step keeps every message accounted for**, when the sidecar's are careful. -/
theorem careInv_step {l : Label Op Res Task}
    (hw : Sound keccak256 cfg tick wallet (Careful keccak256) w)
    (hinv : CareInv keccak256 w.state)
    (h : PipelineStep keccak256 cfg tick wallet (Careful keccak256) w l w') :
    CareInv keccak256 w'.state := by
  have hstep := h
  cases h with
  | start t => exact hinv
  | @call s s' ths i t past o k r hget hexec =>
      cases o with
      | sidecar path body =>
          cases hexec with
          | unreachable => exact hinv
          | late => exact hinv.mono (fun _ hopen => hopen) rfl rfl rfl (List.Subset.refl _)
          | record hpath huuid hfresh hr => exact careInv_post hinv hw.1 hfresh
          | pending => exact hinv
      | _ =>
          obtain ⟨server, -, hstate⟩ := hexec
          exact careInv_server hw hinv hstep hstate
  | env henv =>
      rcases henv with ⟨server, henv, rfl⟩ | ⟨act, hcare, hmove⟩
      · refine hinv.mono (fun _ hopen => hopen) ?_ rfl rfl (List.Subset.refl _)
        cases henv <;> rfl
      · exact careInv_move hinv hw.1 hmove hcare
  | restart hrestart =>
      rw [show _ = _ from hrestart]
      exact hinv.mono (fun _ hopen => hopen) rfl rfl rfl (List.Subset.refl _)

/-- **The runs that lose no message.**  When every step of the sidecar is careful, every
message is accounted for; and the next step that is not careful loses one. -/
theorem accounted {clock : Clock} {deployer : Address} {tr : PipelineTrace}
    (h : PipelineRun keccak256 cfg tick wallet (Careful keccak256) ⟨.initial clock deployer, []⟩ tr w) :
    Accounted keccak256 w.state ∧ ∀ act s', Move keccak256 wallet w.state act s' →
      (Accounted keccak256 s' ↔ Careful keccak256 act w.state) := by
  have hall : Sound keccak256 cfg tick wallet (Careful keccak256) w ∧ CareInv keccak256 w.state := by
    induction h with
    | nil =>
        refine ⟨Contract.sound_init (pipelineInv_initial _ _ _), ?_, ?_⟩ <;> simp [Pipeline.initial]
    | snoc hrun hstep ih => exact ⟨Contract.sound_step ih.1 hstep, careInv_step ih.1 ih.2 hstep⟩
  obtain ⟨hsound, hinv⟩ := hall
  refine ⟨hinv.all_accounted hsound.1, fun act s' hmove => ?_⟩
  constructor
  · exact careful_of_accounted hsound.1 hmove
  · intro hcare
    exact (careInv_move hinv hsound.1 hmove hcare).all_accounted (pipelineInv_move hsound.1 hmove).1

end Steps

/-! ## A call that fails -/

/-- The message of the example is recorded: its batch is sent, mined and settled. -/
theorem accounted_example : letI := examplePrimitives; letI := plainFloats; ∃ tr w,
    PipelineRun exampleKeccak exampleConfig (· ≤ ·) 0 (Careful exampleKeccak)
        ⟨.initial 1000000 0, []⟩ tr w ∧ w.state.sidecar.queue = [] ∧
      (∃ p ∈ w.state.ledger.mined, exampleKeccak (bytes "hello") ∈ p.2.leaves) ∧
      Accounted exampleKeccak w.state := by
  let := examplePrimitives
  let := plainFloats
  obtain ⟨tr₀, s, ths, -, hhello, hrun₀⟩ := run_helloRun
  -- the digest of the only message was stored before
  have hcareful : ∀ act s', (∀ i, act ≠ .failed i) → act ≠ .restart →
      s'.server = s.server → Careful exampleKeccak act s' := by
    intro act s' hfailed hrestart hserver
    cases act with
    | confirmed i =>
        intro flush _ entry _ row hrow _
        rw [hserver, hhello.messages] at hrow
        rw [List.mem_singleton.mp hrow]
        decide
    | failed i => exact absurd rfl (hfailed i)
    | restart => exact absurd rfl hrestart
    | _ => trivial
  obtain ⟨tr, hrun⟩ := run_record ⟨tr₀, hrun₀⟩ hcareful hhello
  refine ⟨tr, _, hrun, rfl, ⟨_, List.mem_append_right _ (List.mem_singleton_self _), ?_⟩,
    (accounted hrun).1⟩
  exact List.mem_singleton_self _

/-- **A message is lost** when the call of `recordBatch` fails. -/
theorem not_accounted : letI := examplePrimitives; letI := plainFloats;
    ¬ ∀ tr w, PipelineRun exampleKeccak exampleConfig (· ≤ ·) 0 (fun _ _ => True)
      ⟨.initial 1000000 0, []⟩ tr w → Accounted exampleKeccak w.state := by
  let := examplePrimitives
  let := plainFloats
  intro h
  obtain ⟨tr₀, s, ths, -, hhello, hrun⟩ := @run_helloRun fun _ _ => True
  obtain ⟨entry, hqueue, hof⟩ := List.map_eq_singleton_iff.mp hhello.queue
  obtain ⟨hmsg, hentry⟩ := Prod.mk.inj hof
  have hleaf := (Prod.mk.inj hentry).2
  obtain ⟨tr, htake⟩ := run_move ⟨tr₀, hrun⟩ trivial
    (.take fun hnil => by rw [hnil] at hqueue; cases hqueue)
  have hget : s.take.sidecar.flushes[0]? = some ⟨s.sidecar.queue, .submitting none⟩ := by
    simp [Pipeline.take, hhello.flushes]
  have hmove : Move exampleKeccak 0 s.take (.failed 0)
      (s.take.settle 0 s.sidecar.queue (.failed (bytes "timeout"))) := .failed hget
  obtain ⟨tr', hfailed⟩ := run_move ⟨tr, htake⟩ trivial hmove
  have hsound : Sound exampleKeccak exampleConfig (· ≤ ·) 0 (fun _ _ => True) _ :=
    Contract.sound_run (Contract.sound_init (pipelineInv_initial exampleKeccak 1000000 0)) htake
  have hcareful := careful_of_accounted hsound.1 hmove (h _ _ hfailed) _ hget entry
    (by rw [hqueue]; exact List.mem_singleton_self _)
  refine hcareful _ (hhello.messages ▸ List.mem_singleton_self _) ⟨msgId_of_isOf hmsg, hleaf⟩

end Blockchain
