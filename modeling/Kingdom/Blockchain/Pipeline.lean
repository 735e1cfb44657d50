import Kingdom.Blockchain.Contract
import Kingdom.Blockchain.Sidecar
import Kingdom.Process.Projection

/-!
# The pipeline keeps its invariant

What ties a message to its entry in the queue, the entry to its batch, the batch to its
transaction, and the transaction to the digest of the message.

* `PipelineInv` — the invariant, and `pipelineInv_post` … `pipelineInv_env` — one lemma
  for each thing that can happen.
* `Created`, `Records` — a message that was created, and an entry of it.
* `Stands` — what a digest stands for.
* `digestOf_entry`, `resolved_settles`, `found_entry` — what a handler and the resolver know
  when they write a digest.
* `pipelineContract` — the server's programs keep the invariant.
-/

namespace Blockchain

open Codec Process Kds

/-! ## Answers of the sidecar -/

section Answers

variable [FloatFormat]

theorem parse_nil : (Json.parse ([] : Bytes) : Option (Json UInt8)) = none := rfl

/-- What is read from an answer is what was answered. -/
theorem parse_respondJson {status : Nat} {body json : Json UInt8} (hwf : body.WF)
    (h : Json.parse (respondJson status body).2 = some json) : json = body.norm := by
  cases hdump : body.dump with
  | none =>
      rw [respondJson, hdump, Option.getD_none, parse_nil] at h
      cases h
  | some text =>
      rw [respondJson, hdump, Option.getD_some, Json.parse_dump hdump hwf] at h
      exact (Option.some.inj h).symm

/-- An entry was queued. -/
def Pipeline.enqueue (s : Pipeline) (entry : QueueEntry) : Pipeline :=
  { s with
    sidecar := { s.sidecar with
      queue := s.sidecar.queue ++ [entry]
      pendingResults :=
        Function.update s.sidecar.pendingResults entry.pendingId (some .pending) }
    record := { s.record with issued := s.record.issued ++ [entry] } }

variable (keccak256 : List UInt8 → Bytes32)

/-- **A request to record queues an entry**, or it is refused and nothing happens. -/
theorem post_cases (s : Pipeline) (pendingId body : Bytes) :
    (∃ json conversationId msgId ciphertext, Json.parse body = some json ∧
        json.get? (bytes "msgId") = some msgId ∧
        json.get? (bytes "ciphertext") = some (.str ciphertext) ∧
        (postRecord keccak256 pendingId body s.sidecar).1 =
          respondJson 200 (.mkObj [("pendingId", .str pendingId)]) ∧
        s.post keccak256 pendingId body =
          s.enqueue ⟨pendingId, conversationId, msgId, keccak256 ciphertext⟩) ∨
      (postRecord keccak256 pendingId body s.sidecar).1.1 ≠ 200 ∧
        s.post keccak256 pendingId body = s := by
  have hrefused : ∀ answer : Nat × Bytes, answer.1 ≠ 200 →
      postRecord keccak256 pendingId body s.sidecar = (answer, s.sidecar) →
      (postRecord keccak256 pendingId body s.sidecar).1.1 ≠ 200 ∧
        s.post keccak256 pendingId body = s := by
    intro answer hne heq
    simp [Pipeline.post, heq, hne]
  by_cases hlimit : kBodyLimit < body.length
  · exact .inr (hrefused (errorPage 413) (by decide) (by rw [postRecord, if_pos hlimit]))
  cases hparse : (Json.parse body : Option (Json UInt8)) with
  | none =>
      refine .inr (hrefused (errorPage 400) (by decide) ?_)
      rw [postRecord, if_neg hlimit, hparse]
  | some json =>
      have hrecord : postRecord keccak256 pendingId body s.sidecar =
          postRecord keccak256 pendingId body s.sidecar := rfl
      conv_rhs at hrecord => rw [postRecord, if_neg hlimit, hparse]
      simp only at hrecord
      split at hrecord
      · rename_i conversationId msgId hconversation hmsg
        split_ifs at hrecord with hfalsy
        · exact .inr (hrefused _ (by simp [respondJson]) hrecord)
        split at hrecord
        · rename_i ciphertext hciphertext
          refine .inl ⟨json, conversationId, msgId, ciphertext, rfl, hmsg, hciphertext, ?_, ?_⟩
          · rw [hrecord]
          · simp [Pipeline.post, Pipeline.enqueue, hrecord]
        · exact .inr (hrefused _ (by simp [errorPage]) hrecord)
      · exact .inr (hrefused _ (by simp [respondJson]) hrecord)

/-- The entry that a request to record the message queues. -/
theorem post_message {c m : UInt64} {payload body : Bytes} (hbody : recordBody c m payload = some body)
    (s : Pipeline) (pendingId : Bytes) :
    (∃ conversationId,
        (postRecord keccak256 pendingId body s.sidecar).1 =
          respondJson 200 (.mkObj [("pendingId", .str pendingId)]) ∧
        s.post keccak256 pendingId body =
          s.enqueue ⟨pendingId, conversationId, .unsigned m, keccak256 payload⟩) ∨
      (postRecord keccak256 pendingId body s.sidecar).1.1 ≠ 200 ∧
        s.post keccak256 pendingId body = s := by
  have hwf : (Json.mkObj [("conversationId", .unsigned c), ("msgId", .unsigned m),
      ("ciphertext", .str payload)] : Json UInt8).WF := Json.wf_mkObj (by simp [Json.WF])
  rcases post_cases keccak256 s pendingId body with
    ⟨json, conversationId, msgId, ciphertext, hparse, hmsg, hciphertext, hanswer, hpost⟩ | h
  · refine .inl ⟨conversationId, hanswer, ?_⟩
    obtain rfl := Option.some.inj (hparse.symm.trans (Json.parse_dump hbody hwf))
    have h1 : msgId = .unsigned m := by
      have h : (Json.mkObj [("conversationId", .unsigned c), ("msgId", .unsigned m),
          ("ciphertext", .str payload)] : Json UInt8).norm.get? (bytes "msgId") =
            some (.unsigned m) := by
        simp +decide [Json.norm_mkObj, Json.norm, Json.get?_mkObj, Json.lookup]
      exact Option.some.inj (hmsg.symm.trans h)
    have h2 : ciphertext = payload := by
      have h : (Json.mkObj [("conversationId", .unsigned c), ("msgId", .unsigned m),
          ("ciphertext", .str payload)] : Json UInt8).norm.get? (bytes "ciphertext") =
            some (.str payload) := by
        simp +decide [Json.norm_mkObj, Json.norm, Json.get?_mkObj, Json.lookup]
      cases hciphertext.symm.trans h
      rfl
    rw [hpost, h1, h2]
  · exact .inr h

/-- The id in the answer to a request to record. -/
theorem pendingId_respondJson {pendingId id : Bytes} {json : Json UInt8}
    (h : Json.parse (respondJson 200 (.mkObj [("pendingId", .str pendingId)])).2 = some json)
    (hid : (field json "pendingId").str? = some id) : id = pendingId := by
  rw [parse_respondJson (Json.wf_mkObj (by simp [Json.WF])) h] at hid
  simpa [field, Json.norm_mkObj, Json.norm, Json.get?_mkObj, Json.lookup, Json.str?] using hid.symm

/-- What the resolver makes of the result of a batch. -/
inductive PendingResult.Text : PendingResult → Bytes → Prop where
  | confirmed {txHash : Bytes32} {batchId : UInt256} :
      Text (.confirmed txHash batchId) (txText txHash)
  | failed {error : Bytes} : Text (.failed error) []

/-- The digest in the answer to a request for a result. -/
theorem text_respondJson {result : PendingResult} {digest : Bytes} {json : Json UInt8}
    (h : Json.parse (respondJson 200 result.json).2 = some json)
    (hdigest : (field json "status").str? = some (bytes "confirmed") ∧
        (field json "txHash").str? = some digest ∨
      (field json "status").str? = some (bytes "failed") ∧ digest = []) :
    result.Text digest := by
  have hwf : result.json.WF := by
    cases result <;> exact Json.wf_mkObj (by simp [Json.WF])
  rw [parse_respondJson hwf h] at hdigest
  cases result with
  | pending =>
      revert hdigest
      simp +decide [PendingResult.json, field, Json.norm_mkObj, Json.norm, Json.get?_mkObj,
        Json.lookup, Json.str?]
  | confirmed txHash batchId =>
      have htext : txText txHash = digest := by
        revert hdigest
        simp +decide [PendingResult.json, field, Json.norm_mkObj, Json.norm, Json.get?_mkObj,
          Json.lookup, Json.str?]
      rw [← htext]
      exact .confirmed
  | failed error =>
      have htext : digest = [] := by
        revert hdigest
        simp +decide [PendingResult.json, field, Json.norm_mkObj, Json.norm, Json.get?_mkObj,
          Json.lookup, Json.str?]
      rw [htext]
      exact .failed

end Answers

/-! ## Digests -/

/-- What the resolver makes of the result of the batch with this id. -/
def Settles (record : Record) (pendingId digest : Bytes) : Prop :=
  ∃ result, (pendingId, result) ∈ record.settled ∧ result.Text digest

theorem PendingResult.Text.not_pending {result : PendingResult} {digest : Bytes}
    (h : result.Text digest) : ¬ bytes "pending:" <+: digest := by
  intro hprefix
  cases h with
  | @confirmed txHash batchId =>
      have htext : bytes "0x" <+: txText txHash := List.prefix_append _ _
      have hhead := List.prefix_of_prefix_length_le htext hprefix (by decide)
      exact absurd hhead (by decide)
  | failed => exact absurd hprefix (by decide)

theorem PendingResult.Text.unique {result : PendingResult} {digest digest' : Bytes}
    (h : result.Text digest) (h' : result.Text digest') : digest = digest' := by
  cases h with
  | confirmed =>
      cases h'
      rfl
  | failed =>
      cases h'
      rfl

/-- Two digests of pending messages. -/
theorem pending_inj {pendingId pendingId' : Bytes}
    (h : bytes "pending:" ++ pendingId = bytes "pending:" ++ pendingId') : pendingId = pendingId' :=
  List.append_cancel_left h

/-- An entry of the queue that is of this message. -/
structure Records (keccak256 : List UInt8 → Bytes32) (entry : QueueEntry) (row : MessageRow) :
    Prop where
  msgId : entry.msgId = .unsigned row.id.toUInt64
  leaf : entry.leaf = keccak256 row.payload

variable (keccak256 : List UInt8 → Bytes32)

/-- A digest is empty, or stands for an entry of the message: as long as its batch has not
ended, or for how it ended. -/
def Stands (record : Record) (row : MessageRow) (digest : Bytes) : Prop :=
  digest = [] ∨ ∃ entry ∈ record.issued, Records keccak256 entry row ∧
    (digest = bytes "pending:" ++ entry.pendingId ∨ Settles record entry.pendingId digest)

/-! ## Messages that were created -/

/-- The message was created with this payload. -/
structure Created (s : Store) (m : UInt64) (payload : Bytes) : Prop where
  bound : (bigint m).toInt ≤ s.messageSeq
  payload : ∀ row ∈ s.messages, row.id = bigint m → row.payload = payload

theorem Created.evolves {s s' : Store} {m : UInt64} {payload : Bytes} (h : Created s m payload)
    (hevolves : Evolves s s') : Created s' m payload where
  bound := by
    have hbound := h.bound
    have hseq := hevolves.messageSeq
    omega
  payload := by
    intro row hrow hid
    obtain ⟨row₀, hrow₀, heq⟩ := hevolves.messages row hrow (by rw [hid]; exact h.bound)
    rw [heq] at hid ⊢
    exact h.payload row₀ hrow₀ hid

theorem created_of_createMessage [FloatFormat] {s s' : Store} {c sender m timestamp : UInt64}
    {payload : Bytes}
    {recipient preKey : Option UInt64} (hs : StoreInv s)
    (h : Database.createMessage s c sender payload timestamp recipient preKey = .ok (m, s')) :
    Created s' m payload := by
  obtain ⟨t, -, hnext, -, rfl⟩ := createMessage_ok h
  refine ⟨?_, ?_⟩
  · have hval := (nextval_ok hnext).1
    simp only [Store.insertAccess]
    omega
  · intro row hrow hid
    rcases List.mem_append.mp hrow with hrow | hrow
    · have hfresh := hs.messageIds.fresh hnext
      exact absurd (List.mem_map.mpr ⟨row, hrow, hid⟩) hfresh
    · rw [List.mem_singleton.mp hrow]
      rfl

/-- The entry is of a message that was created. -/
def OfMessage (s : Store) (entry : QueueEntry) : Prop :=
  ∃ m payload, entry.msgId = .unsigned m ∧ entry.leaf = keccak256 payload ∧ Created s m payload

/-- The request is to record a message that was created. -/
def RecordsMessage (s : Store) (body : Bytes) : Prop :=
  ∃ c m payload, recordBody c m payload = some body ∧ Created s m payload

theorem OfMessage.evolves {s s' : Store} {entry : QueueEntry} (h : OfMessage keccak256 s entry)
    (hevolves : Evolves s s') : OfMessage keccak256 s' entry := by
  obtain ⟨m, payload, h1, h2, h3⟩ := h
  exact ⟨m, payload, h1, h2, h3.evolves hevolves⟩

theorem RecordsMessage.evolves {s s' : Store} {body : Bytes} (h : RecordsMessage s body)
    (hevolves : Evolves s s') : RecordsMessage s' body := by
  obtain ⟨c, m, payload, h1, h2⟩ := h
  exact ⟨c, m, payload, h1, h2.evolves hevolves⟩

/-! ## The invariant -/

/-- The transaction that a `flushBatch` has sent. -/
def Stage.txHash? : Stage → Option Bytes32
  | .submitting sent => sent
  | .waiting txHash => some txHash

/-- The entries that are still in a batch, or in the queue. -/
def Sidecar.open (s : Sidecar) : List QueueEntry := s.flushes.flatMap (·.batch) ++ s.queue

/-- What holds of the sidecar and of what it has done. -/
structure SidecarInv (s : Sidecar) (record : Record) : Prop where
  issued : (record.issued.map (·.pendingId)).Nodup
  batches : (record.submitted.flatten ++ s.queue).Sublist record.issued
  flushes : ∀ flush ∈ s.flushes, flush.batch ∈ record.submitted
  once : (record.settled.map (·.1) ++ s.open.map (·.pendingId)).Nodup
  settled : ∀ p ∈ record.settled, ∃ entry ∈ record.issued, entry.pendingId = p.1
  results : ∀ pendingId result, s.pendingResults pendingId = some result →
    result = .pending ∨ (pendingId, result) ∈ record.settled

/-- What holds of the ledger, and what ties the batches to it. -/
structure LedgerInv (ledger : Ledger) (flushes : List Flush) (record : Record) : Prop where
  sent : (ledger.sent.map (·.hash)).Nodup
  pool : ∀ tx ∈ ledger.pool, tx ∈ ledger.sent
  mined : ∀ p ∈ ledger.mined, ∃ tx ∈ ledger.sent, tx.hash = p.1 ∧ p.2.leaves = tx.leaves.toList
  flushes : ∀ flush ∈ flushes, ∀ h ∈ flush.stage.txHash?,
    ∃ tx ∈ ledger.sent, tx.hash = h ∧ tx.leaves.toList = flush.batch.map (·.leaf)
  confirmed : ∀ entry ∈ record.issued, ∀ h batchId,
    (entry.pendingId, .confirmed h batchId) ∈ record.settled →
      ∃ event, (h, event) ∈ ledger.mined ∧ entry.leaf ∈ event.leaves

/-- What holds of the messages, and what ties them to the entries. -/
structure MessageInv (s : Store) (posts : List Bytes) (record : Record) : Prop where
  store : StoreInv s
  issued : ∀ entry ∈ record.issued, OfMessage keccak256 s entry
  posts : ∀ body ∈ posts, RecordsMessage s body
  digests : ∀ row ∈ s.messages, Stands keccak256 record row row.blockchainDigest

structure PipelineInv (s : Pipeline) : Prop where
  sidecar : SidecarInv s.sidecar s.record
  ledger : LedgerInv s.ledger s.sidecar.flushes s.record
  message : MessageInv keccak256 s.server.store s.posts s.record

section Facts

variable {s : Sidecar} {record : Record}

/-- A batch holds entries that were queued. -/
theorem SidecarInv.mem_issued (h : SidecarInv s record) {flush : Flush} (hflush : flush ∈ s.flushes)
    {entry : QueueEntry} (hentry : entry ∈ flush.batch) : entry ∈ record.issued := by
  apply h.batches.subset
  exact List.mem_append_left _ (List.mem_flatten.mpr ⟨_, h.flushes flush hflush, hentry⟩)

theorem SidecarInv.open_issued (h : SidecarInv s record) {entry : QueueEntry}
    (hentry : entry ∈ s.open) : entry ∈ record.issued := by
  rcases List.mem_append.mp hentry with hentry | hentry
  · obtain ⟨flush, hflush, hmem⟩ := List.mem_flatMap.mp hentry
    exact h.mem_issued hflush hmem
  · exact h.batches.subset (List.mem_append_right _ hentry)

/-- An id names one entry. -/
theorem SidecarInv.unique (h : SidecarInv s record) {e e' : QueueEntry} (he : e ∈ record.issued)
    (he' : e' ∈ record.issued) (heq : e.pendingId = e'.pendingId) : e = e' :=
  List.inj_on_of_nodup_map h.issued he he' heq

/-- A batch ends in one way. -/
theorem SidecarInv.settled_unique (h : SidecarInv s record) {pendingId : Bytes}
    {r r' : PendingResult} (hr : (pendingId, r) ∈ record.settled)
    (hr' : (pendingId, r') ∈ record.settled) : r = r' :=
  (Prod.mk.inj (List.inj_on_of_nodup_map h.once.of_append_left hr hr' rfl)).2

theorem Settles.unique (h : SidecarInv s record) {pendingId digest digest' : Bytes}
    (hd : Settles record pendingId digest) (hd' : Settles record pendingId digest') :
    digest = digest' := by
  obtain ⟨result, hmem, htext⟩ := hd
  obtain ⟨result', hmem', htext'⟩ := hd'
  obtain rfl := h.settled_unique hmem hmem'
  exact htext.unique htext'

theorem Settles.mono {record' : Record} {pendingId digest : Bytes}
    (h : Settles record pendingId digest) (hsub : record.settled ⊆ record'.settled) :
    Settles record' pendingId digest := by
  obtain ⟨result, hmem, htext⟩ := h
  exact ⟨result, hsub hmem, htext⟩

theorem Stands.mono {record' : Record} {row : MessageRow} {digest : Bytes}
    (h : Stands keccak256 record row digest) (hissued : record.issued ⊆ record'.issued)
    (hsettled : record.settled ⊆ record'.settled) : Stands keccak256 record' row digest := by
  rcases h with h | ⟨entry, hentry, hrecords, hdigest⟩
  · exact .inl h
  · exact .inr ⟨entry, hissued hentry, hrecords, hdigest.imp id fun h => h.mono hsettled⟩

end Facts

/-! ## What can happen -/

section Sidecar

variable {s : Pipeline}

theorem sidecarInv_enqueue {entry : QueueEntry} (h : SidecarInv s.sidecar s.record)
    (hfresh : ∀ e ∈ s.record.issued, e.pendingId ≠ entry.pendingId) :
    SidecarInv (s.enqueue entry).sidecar (s.enqueue entry).record where
  issued := by
    rw [Pipeline.enqueue, List.map_append, List.nodup_append_comm]
    refine List.nodup_cons.mpr ⟨?_, h.issued⟩
    intro hmem
    obtain ⟨e, he, heq⟩ := List.mem_map.mp hmem
    exact hfresh e he heq
  batches := by
    rw [Pipeline.enqueue, ← List.append_assoc]
    exact h.batches.append_right _
  flushes := h.flushes
  once := by
    have hid : entry.pendingId ∉ s.record.settled.map (·.1) ++ s.sidecar.open.map (·.pendingId) := by
      intro hmem
      rcases List.mem_append.mp hmem with hmem | hmem
      · obtain ⟨p, hp, heq⟩ := List.mem_map.mp hmem
        obtain ⟨e, he, hpe⟩ := h.settled p hp
        exact hfresh e he (hpe.trans heq)
      · obtain ⟨e, he, heq⟩ := List.mem_map.mp hmem
        exact hfresh e (h.open_issued he) heq
    have hopen : (s.enqueue entry).sidecar.open = s.sidecar.open ++ [entry] := by
      simp [Pipeline.enqueue, Sidecar.open]
    rw [hopen, List.map_append, ← List.append_assoc, List.nodup_append_comm]
    exact List.nodup_cons.mpr ⟨hid, h.once⟩
  settled := by
    intro p hp
    obtain ⟨e, he, heq⟩ := h.settled p hp
    exact ⟨e, List.mem_append_left _ he, heq⟩
  results := by
    intro pendingId result hresult
    simp only [Pipeline.enqueue, Function.update_apply] at hresult
    split_ifs at hresult with hid
    · exact .inl (Option.some.inj hresult).symm
    · exact h.results pendingId result hresult

theorem open_take : s.take.sidecar.open = s.sidecar.open := by simp [Pipeline.take, Sidecar.open]

theorem sidecarInv_take (h : SidecarInv s.sidecar s.record) :
    SidecarInv s.take.sidecar s.take.record where
  issued := h.issued
  batches := by simpa [Pipeline.take] using h.batches
  flushes := by
    intro flush hflush
    rcases List.mem_append.mp hflush with hflush | hflush
    · exact List.mem_append_left _ (h.flushes flush hflush)
    · rw [List.mem_singleton.mp hflush]
      exact List.mem_append_right _ (List.mem_singleton_self _)
  once := by
    rw [open_take]
    exact h.once
  settled := h.settled
  results := h.results

/-- A `flushBatch` that has come further holds the same batch. -/
theorem batches_set {flushes : List Flush} {i : Nat} {flush flush' : Flush}
    (hget : flushes[i]? = some flush) (hbatch : flush'.batch = flush.batch) :
    (flushes.set i flush').map (·.batch) = flushes.map (·.batch) := by
  obtain ⟨hi, rfl⟩ := List.getElem?_eq_some_iff.mp hget
  have hmap : i < (flushes.map (·.batch)).length := by rwa [List.length_map]
  have hset := List.set_getElem_self hmap
  rwa [List.getElem_map, ← hbatch, ← List.map_set] at hset

theorem open_await {i : Nat} {flush flush' : Flush} (hget : s.sidecar.flushes[i]? = some flush)
    (hbatch : flush'.batch = flush.batch) : (s.await i flush').sidecar.open = s.sidecar.open := by
  rw [Sidecar.open, Sidecar.open, List.flatMap_def, List.flatMap_def, Pipeline.await,
    batches_set hget hbatch]

theorem sidecarInv_await {i : Nat} {flush flush' : Flush} (h : SidecarInv s.sidecar s.record)
    (hget : s.sidecar.flushes[i]? = some flush) (hbatch : flush'.batch = flush.batch) :
    SidecarInv (s.await i flush').sidecar s.record where
  issued := h.issued
  batches := h.batches
  flushes := by
    intro f hf
    rcases List.mem_or_eq_of_mem_set hf with hf | rfl
    · exact h.flushes f hf
    · rw [hbatch]
      exact h.flushes flush (List.mem_of_getElem? hget)
  once := by
    rw [open_await hget hbatch]
    exact h.once
  settled := h.settled
  results := h.results

/-- The results after a batch has ended. -/
theorem results_settle (batch : List QueueEntry) (result : PendingResult)
    (results : Bytes → Option PendingResult) (pendingId : Bytes) :
    batch.foldl (fun (results : Bytes → Option PendingResult) entry =>
        Function.update results entry.pendingId (some result)) results pendingId =
      if pendingId ∈ batch.map (·.pendingId) then some result else results pendingId := by
  induction batch generalizing results with
  | nil => simp
  | cons entry batch ih =>
      rw [List.foldl_cons, ih]
      by_cases hmem : pendingId ∈ batch.map (·.pendingId)
      · simp [hmem]
      · by_cases hid : pendingId = entry.pendingId
        · simp [hid]
        · simp [hmem, hid]

theorem sidecarInv_settle {i : Nat} {flush : Flush} (result : PendingResult)
    (h : SidecarInv s.sidecar s.record) (hget : s.sidecar.flushes[i]? = some flush) :
    SidecarInv (s.settle i flush.batch result).sidecar (s.settle i flush.batch result).record where
  issued := h.issued
  batches := h.batches
  flushes := fun f hf => h.flushes f (List.mem_of_mem_eraseIdx hf)
  once := by
    obtain ⟨hi, rfl⟩ := List.getElem?_eq_some_iff.mp hget
    refine (List.Perm.nodup_iff ?_).mpr h.once
    have hflushes := (List.getElem_cons_eraseIdx_perm hi).flatMap_right (fun f : Flush => f.batch)
    rw [List.flatMap_cons] at hflushes
    have hopen := ((hflushes.append_right s.sidecar.queue).map (·.pendingId)).append_left
      (s.record.settled.map (·.1))
    rw [List.append_assoc, List.map_append, ← List.append_assoc] at hopen
    simpa [Pipeline.settle, Sidecar.open, List.map_map, Function.comp_def] using hopen
  settled := by
    intro p hp
    rcases List.mem_append.mp hp with hp | hp
    · exact h.settled p hp
    · obtain ⟨entry, hentry, rfl⟩ := List.mem_map.mp hp
      exact ⟨entry, h.mem_issued (List.mem_of_getElem? hget) hentry, rfl⟩
  results := by
    intro pendingId r hr
    simp only [Pipeline.settle, results_settle] at hr
    split_ifs at hr with hmem
    · obtain ⟨entry, hentry, rfl⟩ := List.mem_map.mp hmem
      rw [← Option.some.inj hr]
      exact .inr (List.mem_append_right _ (List.mem_map.mpr ⟨entry, hentry, rfl⟩))
    · exact (h.results pendingId r hr).imp id fun h => List.mem_append_left _ h

theorem sidecarInv_restart (h : SidecarInv s.sidecar s.record) : SidecarInv .start s.record where
  issued := h.issued
  batches := by
    rw [Sidecar.start, List.append_nil]
    exact (List.sublist_append_left _ _).trans h.batches
  flushes := by simp [Sidecar.start]
  once := by simpa [Sidecar.start, Sidecar.open] using h.once.of_append_left
  settled := h.settled
  results := by simp [Sidecar.start]

end Sidecar

section Ledger

variable {s : Pipeline}

theorem ledgerInv_enqueue {entry : QueueEntry}
    (h : LedgerInv s.ledger s.sidecar.flushes s.record) (hside : SidecarInv s.sidecar s.record)
    (hfresh : ∀ e ∈ s.record.issued, e.pendingId ≠ entry.pendingId) :
    LedgerInv s.ledger s.sidecar.flushes (s.enqueue entry).record where
  sent := h.sent
  pool := h.pool
  mined := h.mined
  flushes := h.flushes
  confirmed := by
    intro e he txHash batchId hsettled
    rcases List.mem_append.mp he with he | he
    · exact h.confirmed e he txHash batchId hsettled
    · rw [List.mem_singleton.mp he] at hsettled
      obtain ⟨e', he', heq⟩ := hside.settled _ hsettled
      exact absurd heq (hfresh e' he')

theorem ledgerInv_take (h : LedgerInv s.ledger s.sidecar.flushes s.record) :
    LedgerInv s.ledger s.take.sidecar.flushes s.take.record where
  sent := h.sent
  pool := h.pool
  mined := h.mined
  flushes := by
    intro flush hflush txHash hstage
    rcases List.mem_append.mp hflush with hflush | hflush
    · exact h.flushes flush hflush txHash hstage
    · rw [List.mem_singleton.mp hflush] at hstage
      cases hstage
  confirmed := h.confirmed

/-- A new transaction. -/
theorem ledgerInv_send {tx : Tx} (h : LedgerInv s.ledger s.sidecar.flushes s.record)
    (hfresh : ∀ tx' ∈ s.ledger.sent, tx'.hash ≠ tx.hash) :
    LedgerInv (s.send tx).ledger s.sidecar.flushes s.record where
  sent := by
    rw [Pipeline.send, List.map_append, List.nodup_append_comm]
    refine List.nodup_cons.mpr ⟨?_, h.sent⟩
    intro hmem
    obtain ⟨tx', htx', heq⟩ := List.mem_map.mp hmem
    exact hfresh tx' htx' heq
  pool := by
    intro tx' htx'
    rcases List.mem_append.mp htx' with htx' | htx'
    · exact List.mem_append_left _ (h.pool tx' htx')
    · exact List.mem_append_right _ htx'
  mined := by
    intro p hp
    obtain ⟨tx', htx', heq⟩ := h.mined p hp
    exact ⟨tx', List.mem_append_left _ htx', heq⟩
  flushes := by
    intro flush hflush txHash hstage
    obtain ⟨tx', htx', heq⟩ := h.flushes flush hflush txHash hstage
    exact ⟨tx', List.mem_append_left _ htx', heq⟩
  confirmed := h.confirmed

/-- A `flushBatch` that has come further, with a transaction of its batch. -/
theorem ledgerInv_await {i : Nat} {flush : Flush}
    (h : LedgerInv s.ledger s.sidecar.flushes s.record)
    (htx : ∀ txHash ∈ flush.stage.txHash?, ∃ tx ∈ s.ledger.sent,
      tx.hash = txHash ∧ tx.leaves.toList = flush.batch.map (·.leaf)) :
    LedgerInv s.ledger (s.await i flush).sidecar.flushes s.record where
  sent := h.sent
  pool := h.pool
  mined := h.mined
  flushes := by
    intro f hf txHash hstage
    rcases List.mem_or_eq_of_mem_set hf with hf | rfl
    · exact h.flushes f hf txHash hstage
    · exact htx txHash hstage
  confirmed := h.confirmed

/-- The leaves of a batch are in the event of its transaction. -/
theorem LedgerInv.leaves (h : LedgerInv s.ledger s.sidecar.flushes s.record)
    {batch : List QueueEntry} {txHash : Bytes32} {event : BatchRecorded}
    (hflush : (⟨batch, .waiting txHash⟩ : Flush) ∈ s.sidecar.flushes)
    (hmined : (txHash, event) ∈ s.ledger.mined) : event.leaves = batch.map (·.leaf) := by
  obtain ⟨tx, htx, hhash, hleaves⟩ := h.flushes _ hflush txHash rfl
  obtain ⟨tx', htx', hhash', hevent⟩ := h.mined _ hmined
  obtain rfl := List.inj_on_of_nodup_map h.sent htx htx' (hhash.trans hhash'.symm)
  exact hevent.trans hleaves

theorem ledgerInv_settle {i : Nat} {flush : Flush} {result : PendingResult}
    (h : LedgerInv s.ledger s.sidecar.flushes s.record) (hside : SidecarInv s.sidecar s.record)
    (hget : s.sidecar.flushes[i]? = some flush)
    (hresult : ∀ txHash batchId, result = .confirmed txHash batchId →
      ∃ event, (txHash, event) ∈ s.ledger.mined ∧ event.leaves = flush.batch.map (·.leaf)) :
    LedgerInv s.ledger (s.settle i flush.batch result).sidecar.flushes
      (s.settle i flush.batch result).record where
  sent := h.sent
  pool := h.pool
  mined := h.mined
  flushes := fun f hf => h.flushes f (List.mem_of_mem_eraseIdx hf)
  confirmed := by
    intro entry hentry txHash batchId hsettled
    rcases List.mem_append.mp hsettled with hsettled | hsettled
    · exact h.confirmed entry hentry txHash batchId hsettled
    · obtain ⟨e, he, heq⟩ := List.mem_map.mp hsettled
      obtain ⟨hid, rfl⟩ := Prod.mk.inj heq
      obtain ⟨event, hmined, hleaves⟩ := hresult txHash batchId rfl
      have hissued := hside.mem_issued (List.mem_of_getElem? hget) he
      obtain rfl := hside.unique hissued hentry hid
      exact ⟨event, hmined, by rw [hleaves]; exact List.mem_map_of_mem he⟩

theorem ledgerInv_restart (h : LedgerInv s.ledger s.sidecar.flushes s.record) :
    LedgerInv s.ledger Sidecar.start.flushes s.record :=
  { h with flushes := by simp [Sidecar.start] }

theorem ledgerInv_drop {tx : Tx} (h : LedgerInv s.ledger s.sidecar.flushes s.record) :
    LedgerInv (s.drop tx).ledger s.sidecar.flushes s.record :=
  { h with pool := fun tx' htx' => h.pool tx' (List.mem_of_mem_filter htx') }

theorem ledgerInv_mine {tx : Tx} {timestamp id : UInt256} {event : BatchRecorded}
    {contract : MessageIntegrity} (h : LedgerInv s.ledger s.sidecar.flushes s.record)
    (htx : tx ∈ s.ledger.pool)
    (hcall : recordBatch s.ledger.contract (tx.call timestamp) = .ok (id, event, contract)) :
    LedgerInv (s.mine tx event contract).ledger s.sidecar.flushes s.record where
  sent := h.sent
  pool := fun tx' htx' => h.pool tx' (List.mem_of_mem_filter htx')
  mined := by
    intro p hp
    rcases List.mem_append.mp hp with hp | hp
    · exact h.mined p hp
    · rw [List.mem_singleton.mp hp]
      obtain ⟨-, -, -, hr⟩ := recordBatch_ok.mp hcall
      obtain ⟨-, hr⟩ := Prod.mk.inj hr
      obtain ⟨rfl, -⟩ := Prod.mk.inj hr
      exact ⟨tx, h.pool tx htx, rfl, rfl⟩
  flushes := h.flushes
  confirmed := by
    intro entry hentry txHash batchId hsettled
    obtain ⟨e, hmined, hleaf⟩ := h.confirmed entry hentry txHash batchId hsettled
    exact ⟨e, List.mem_append_left _ hmined, hleaf⟩

end Ledger

section Message

variable {keccak256} {s : Store} {posts : List Bytes} {record : Record}

/-- More entries of messages, and more results. -/
theorem messageInv_record {record' : Record} (h : MessageInv keccak256 s posts record)
    (hissued : record.issued ⊆ record'.issued) (hsettled : record.settled ⊆ record'.settled)
    (hnew : ∀ entry ∈ record'.issued, entry ∈ record.issued ∨ OfMessage keccak256 s entry) :
    MessageInv keccak256 s posts record' where
  store := h.store
  issued := fun entry hentry => (hnew entry hentry).elim (h.issued entry) id
  posts := h.posts
  digests := fun row hrow => (h.digests row hrow).mono keccak256 hissued hsettled

/-- The store has changed. -/
theorem messageInv_store {s' : Store} (h : MessageInv keccak256 s posts record) (hs : StoreInv s')
    (hevolves : Evolves s s') (hrows : ∀ row ∈ s'.messages,
      row ∈ s.messages ∨ Stands keccak256 record row row.blockchainDigest) :
    MessageInv keccak256 s' posts record where
  store := hs
  issued := fun entry hentry => (h.issued entry hentry).evolves keccak256 hevolves
  posts := fun body hbody => (h.posts body hbody).evolves hevolves
  digests := fun row hrow => (hrows row hrow).elim (h.digests row) id

/-- A restart adds nothing but access rows. -/
theorem messageInv_restart (h : MessageInv keccak256 s posts record) :
    MessageInv keccak256 (Database.initSchema_ s) posts record where
  store := storeInv_initSchema_ h.store
  issued := by
    intro entry hentry
    obtain ⟨m, payload, hmsg, hleaf, hcreated⟩ := h.issued entry hentry
    exact ⟨m, payload, hmsg, hleaf, hcreated.bound, hcreated.payload⟩
  posts := by
    intro body hbody
    obtain ⟨c, m, payload, htext, hcreated⟩ := h.posts body hbody
    exact ⟨c, m, payload, htext, hcreated.bound, hcreated.payload⟩
  digests := h.digests

end Message

/-! ## What the programs may rely on -/

variable [FloatFormat] (cfg : Config) (tick : Clock → Clock → Prop) (wallet : Address)
  (allowed : Act → Pipeline → Prop)

/-- What is known of the pipeline: its invariant, and what is never undone. -/
def pipelineShared : Shared Pipeline where
  inv := PipelineInv keccak256
  rely s s' := Evolves s.server.store s'.server.store ∧ s.record.issued ⊆ s'.record.issued ∧
    s.record.settled ⊆ s'.record.settled

variable {keccak256 cfg tick wallet allowed} {s s' : Pipeline}

/-- An entry of a message is queued. -/
theorem pipelineInv_post {pendingId body : Bytes} (h : PipelineInv keccak256 s)
    (hfresh : ∀ entry ∈ s.record.issued, entry.pendingId ≠ pendingId)
    (hbody : RecordsMessage s.server.store body) :
    PipelineInv keccak256 (s.post keccak256 pendingId body) ∧
      (pipelineShared keccak256).rely s (s.post keccak256 pendingId body) := by
  obtain ⟨c, m, payload, htext, hcreated⟩ := hbody
  rcases post_message keccak256 htext s pendingId with ⟨conversationId, -, hpost⟩ | ⟨-, hpost⟩
  · rw [hpost]
    have hissued : s.record.issued ⊆ s.record.issued ++
        [⟨pendingId, conversationId, .unsigned m, keccak256 payload⟩] :=
      List.subset_append_left _ _
    refine ⟨⟨sidecarInv_enqueue h.sidecar hfresh, ledgerInv_enqueue h.ledger h.sidecar hfresh,
      messageInv_record h.message hissued (List.Subset.refl _) ?_⟩,
      evolves_refl _, hissued, List.Subset.refl _⟩
    intro entry hentry
    rcases List.mem_append.mp hentry with hentry | hentry
    · exact .inl hentry
    · rw [List.mem_singleton.mp hentry]
      exact .inr ⟨m, payload, rfl, rfl, hcreated⟩
  · rw [hpost]
    exact ⟨h, evolves_refl _, List.Subset.refl _, List.Subset.refl _⟩

omit [FloatFormat] in
/-- The end of a batch. -/
theorem pipelineInv_settle {i : Nat} {flush : Flush} {result : PendingResult}
    (h : PipelineInv keccak256 s) (hget : s.sidecar.flushes[i]? = some flush)
    (hresult : ∀ txHash batchId, result = .confirmed txHash batchId →
      ∃ event, (txHash, event) ∈ s.ledger.mined ∧ event.leaves = flush.batch.map (·.leaf)) :
    PipelineInv keccak256 (s.settle i flush.batch result) ∧
      (pipelineShared keccak256).rely s (s.settle i flush.batch result) := by
  have hsettled : s.record.settled ⊆ (s.settle i flush.batch result).record.settled :=
    List.subset_append_left _ _
  exact ⟨⟨sidecarInv_settle result h.sidecar hget, ledgerInv_settle h.ledger h.sidecar hget hresult,
    messageInv_record h.message (List.Subset.refl _) hsettled fun entry hentry => .inl hentry⟩,
    evolves_refl _, List.Subset.refl _, hsettled⟩

/-- **What the sidecar and the ledger do keeps the invariant.** -/
theorem pipelineInv_move {act : Act} (h : PipelineInv keccak256 s)
    (hmove : Move keccak256 wallet s act s') :
    PipelineInv keccak256 s' ∧ (pipelineShared keccak256).rely s s' := by
  have hrely : (pipelineShared keccak256).rely s s :=
    ⟨evolves_refl _, List.Subset.refl _, List.Subset.refl _⟩
  cases hmove with
  | arrive hbody huuid hfresh =>
      obtain ⟨hinv, hrely'⟩ := pipelineInv_post h hfresh (h.message.posts _ hbody)
      refine ⟨⟨hinv.sidecar, hinv.ledger, { hinv.message with posts := ?_ }⟩, hrely'⟩
      exact fun body hbody' => h.message.posts body (List.mem_of_mem_erase hbody')
  | take hqueue =>
      exact ⟨⟨sidecarInv_take h.sidecar, ledgerInv_take h.ledger, messageInv_record h.message
        (List.Subset.refl _) (List.Subset.refl _) fun entry hentry => .inl hentry⟩, hrely⟩
  | broadcast hflush hfresh hsender hleaves hroot =>
      refine ⟨⟨sidecarInv_await h.sidecar hflush rfl,
        ledgerInv_await (ledgerInv_send h.ledger hfresh) ?_, h.message⟩, hrely⟩
      rintro txHash ⟨⟩
      exact ⟨_, List.mem_append_right _ (List.mem_singleton_self _), rfl, hleaves⟩
  | submitted hflush =>
      refine ⟨⟨sidecarInv_await h.sidecar hflush rfl, ledgerInv_await h.ledger ?_, h.message⟩, hrely⟩
      exact fun txHash hstage => h.ledger.flushes _ (List.mem_of_getElem? hflush) txHash hstage
  | confirmed hflush hmined =>
      refine pipelineInv_settle h hflush fun txHash batchId heq => ?_
      cases heq
      exact ⟨_, hmined, h.ledger.leaves (List.mem_of_getElem? hflush) hmined⟩
  | failed hflush => exact pipelineInv_settle h hflush fun txHash batchId heq => by cases heq
  | restart =>
      exact ⟨⟨sidecarInv_restart (s := s) h.sidecar, ledgerInv_restart (s := s) h.ledger, h.message⟩,
        hrely⟩
  | otherTx hfresh => exact ⟨⟨h.sidecar, ledgerInv_send h.ledger hfresh, h.message⟩, hrely⟩
  | mine htx hcall => exact ⟨⟨h.sidecar, ledgerInv_mine h.ledger htx hcall, h.message⟩, hrely⟩
  | drop => exact ⟨⟨h.sidecar, ledgerInv_drop h.ledger, h.message⟩, hrely⟩

/-! ## What the server knows -/

/-- What is known of the server on the pipeline is what is known of it alone. -/
theorem projects_server : Projects (pipelineMachine keccak256 cfg tick wallet allowed)
    (pipelineShared keccak256) (serverMachine cfg tick) storeShared (·.server) where
  exec := by
    intro o s r s' h
    cases o with
    | sidecar path body =>
        cases h with
        | unreachable => rfl
        | late => rfl
        | record => rfl
        | pending => rfl
    | _ =>
        obtain ⟨server, hexec, rfl⟩ := h
        exact hexec
  inv := fun h => h.message.store
  rely := fun h => h.1

/-- The events of a server program on the pipeline. -/
abbrev PipelineEvents := List (Event Op Res Pipeline)

/-- The events as the server sees them. -/
def serverEvents (past : PipelineEvents) : Events := past.map (Event.map (·.server))

omit [FloatFormat] in
/-- The two requests have different paths. -/
theorem record_ne_pending (pendingId : Bytes) : bytes "/record" ≠ bytes "/pending/" ++ pendingId := by
  intro h
  have hsecond := congrArg (·[1]?) h
  rw [List.getElem?_append_left (by decide)] at hsecond
  revert hsecond
  decide

section Known

variable {past : PipelineEvents}

/-- The message that a request has created. -/
theorem created_of_said {c sender m timestamp : UInt64} {payload : Bytes}
    {recipient preKey : Option UInt64}
    (hpast : Past (serverMachine cfg tick) storeShared (serverEvents past) s.server)
    (h : Said (serverEvents past)
      (.createMessage c sender payload timestamp recipient preKey) (.ok m)) :
    Created s.server.store m payload := by
  obtain ⟨s₀, s₁, hmem⟩ := h
  obtain ⟨hinv, hexec, hrely⟩ := hpast.2 _ hmem
  exact (created_of_createMessage hinv (Transaction.of_ok hexec).1).evolves hrely

/-- **The entry behind the digest of a handler.** -/
theorem digestOf_entry {m : UInt64} {digest : Bytes}
    (hpast : Past (pipelineMachine keccak256 cfg tick wallet allowed) (pipelineShared keccak256) past s)
    (h : DigestOf (serverEvents past) m digest) :
    ∃ entry ∈ s.record.issued, entry.msgId = .unsigned m ∧
      digest = bytes "pending:" ++ entry.pendingId ∧
      ∃ payload, entry.leaf = keccak256 payload ∧ Created s.server.store m payload := by
  obtain ⟨created, c, payload, body, answer, s₀, s₁, ⟨before, sender, timestamp, recipient, preKey,
    t, t', rfl⟩, hbody, hevents, json, pendingId, hparse, hid, rfl⟩ := h
  have hsaid : Said (serverEvents past)
      (.createMessage c sender payload timestamp recipient preKey) (.ok m) :=
    ⟨t, t', by rw [hevents]; simp⟩
  have hcreated := created_of_said (projects_server.past hpast) hsaid
  have hmem : (⟨.sidecar (bytes "/record") body, some (200, answer), s₀, s₁⟩ : Event Op Res _) ∈
      serverEvents past := by
    rw [hevents]
    simp
  obtain ⟨⟨o, r, u, u'⟩, he, heq⟩ := List.mem_map.mp hmem
  cases heq
  obtain ⟨hinv, hexec, hrely⟩ := hpast.2 _ he
  dsimp only at hinv hexec hrely
  cases hexec with
  | pending hpath => exact absurd hpath (record_ne_pending _)
  | @record id _ hpath huuid hfresh hr =>
      have hanswer := hr _ rfl
      rcases post_message keccak256 hbody u id with ⟨conversationId, h200, hpost⟩ | ⟨hne, -⟩
      · rw [h200] at hanswer
        rw [show answer = _ from congrArg Prod.snd hanswer] at hparse
        obtain rfl := pendingId_respondJson hparse hid
        rw [hpost] at hrely
        refine ⟨_, hrely.2.1 (List.mem_append_right _ (List.mem_singleton_self _)), rfl, rfl, ?_⟩
        exact ⟨payload, rfl, hcreated⟩
      · rw [← hanswer] at hne
        exact absurd rfl hne

/-- The resolver has found the message pending under this id. -/
def Found (past : PipelineEvents) (m : UInt64) (pendingId : Bytes) : Prop :=
  ∃ pending, Said past .getPendingBlockchainMessages (.ok pending) ∧ (m, pendingId) ∈ pending

omit [FloatFormat] in
theorem mem_getPending {st : Store} {m : UInt64} {pendingId : Bytes} :
    (m, pendingId) ∈ Database.getPendingBlockchainMessages st ↔
      ∃ row ∈ st.messages, row.id = bigint m ∧
        row.blockchainDigest = bytes "pending:" ++ pendingId := by
  rw [Database.getPendingBlockchainMessages, List.mem_map]
  constructor
  · rintro ⟨row, hrow, heq⟩
    obtain ⟨hrow, hprefix⟩ := List.mem_filter.mp hrow
    obtain ⟨rfl, rfl⟩ := Prod.mk.inj heq
    obtain ⟨rest, hrest⟩ := List.isPrefixOf_iff_prefix.mp hprefix
    refine ⟨row, hrow, (bigint_toUInt64 row.id).symm, ?_⟩
    rw [← hrest, List.drop_left]
  · rintro ⟨row, hrow, hid, hdigest⟩
    refine ⟨row, List.mem_filter.mpr ⟨hrow, ?_⟩, ?_⟩
    · rw [hdigest]
      exact List.isPrefixOf_iff_prefix.mpr (List.prefix_append _ _)
    · rw [hid, hdigest, List.drop_left, toUInt64_bigint]

/-- **The entry behind a message that was found pending.** -/
theorem found_entry {m : UInt64} {pendingId : Bytes}
    (hpast : Past (pipelineMachine keccak256 cfg tick wallet allowed) (pipelineShared keccak256) past s)
    (h : Found past m pendingId) :
    ∃ entry ∈ s.record.issued, entry.pendingId = pendingId ∧
      (bigint m).toInt ≤ s.server.store.messageSeq ∧
      ∀ row ∈ s.server.store.messages, row.id = bigint m → Records keccak256 entry row := by
  obtain ⟨pending, ⟨s₀, s₁, he⟩, hmem⟩ := h
  obtain ⟨hinv, hexec, hevolves, hissued, -⟩ := hpast.2 _ he
  dsimp only at hinv hexec hevolves hissued
  obtain ⟨server, ⟨rfl, hanswer⟩, rfl⟩ := hexec
  rcases hanswer with hanswer | ⟨what, hanswer⟩
  · cases hanswer
    obtain ⟨row₀, hrow₀, hid₀, hdigest⟩ := mem_getPending.mp hmem
    have hbound := (hinv.message.store.messageIds.bound _ (List.mem_map_of_mem hrow₀)).2
    rw [hid₀] at hbound
    have hentry : ∃ entry ∈ s₀.record.issued, entry.pendingId = pendingId ∧
        Records keccak256 entry row₀ := by
      rcases hinv.message.digests row₀ hrow₀ with hempty | ⟨entry, hentry, hrecords, hstands⟩
      · rw [hempty] at hdigest
        cases hdigest
      · rcases hstands with hpending | ⟨result, -, htext⟩
        · exact ⟨entry, hentry, pending_inj (hpending.symm.trans hdigest), hrecords⟩
        · rw [hdigest] at htext
          exact absurd (List.prefix_append _ _) htext.not_pending
    obtain ⟨entry, hentry, hpending, hrecords⟩ := hentry
    refine ⟨entry, hissued hentry, hpending, hbound.trans (by exact_mod_cast hevolves.messageSeq), ?_⟩
    intro row hrow hid
    obtain ⟨row₁, hrow₁, heq⟩ := hevolves.messages row hrow (by rw [hid]; exact hbound)
    have hsame : row₁ = row₀ := by
      refine List.inj_on_of_nodup_map hinv.message.store.messageIds.nodup hrow₁ hrow₀ ?_
      rw [hid₀, ← hid, heq]
    rw [heq, hsame]
    exact ⟨hrecords.msgId, hrecords.leaf⟩
  · cases hanswer

/-- **The result behind the digest of the resolver.** -/
theorem resolved_settles {m : UInt64} {digest : Bytes}
    (hpast : Past (pipelineMachine keccak256 cfg tick wallet allowed) (pipelineShared keccak256) past s)
    (h : Resolved (serverEvents past) m digest) :
    ∃ pendingId, Found past m pendingId ∧ Settles s.record pendingId digest := by
  obtain ⟨pending, pendingId, answer, hsaid, hmem, hanswer, json, hparse, hdigest⟩ := h
  refine ⟨pendingId, ⟨pending, said_map.mp hsaid, hmem⟩, ?_⟩
  obtain ⟨s₀, s₁, he⟩ := said_map.mp hanswer
  obtain ⟨hinv, hexec, hevolves, hissued, hsettled⟩ := hpast.2 _ he
  dsimp only at hinv hexec hsettled
  cases hexec with
  | record hpath => exact absurd hpath.symm (record_ne_pending _)
  | @pending id _ hpath hr =>
      obtain rfl := List.append_cancel_left hpath
      have hget := hr _ rfl
      rw [getPending] at hget
      cases hresult : s₀.sidecar.pendingResults pendingId with
      | none =>
          rw [hresult] at hget
          cases hget
      | some result =>
          rw [hresult] at hget
          rw [show answer = _ from congrArg Prod.snd hget] at hparse
          have htext := text_respondJson hparse hdigest
          rcases hinv.sidecar.results pendingId result hresult with rfl | hmem
          · cases htext
          · exact ⟨result, hsettled hmem, htext⟩

end Known

/-! ## What a call does to a digest -/

/-- A message after a call: it was there before, or was created, or has a new digest. -/
inductive RowAfter (st : Store) (row : MessageRow) : Op → Prop where
  | kept {o : Op} (h : row ∈ st.messages) : RowAfter st row o
  | created {c sender timestamp : UInt64} {payload : Bytes} {recipient preKey : Option UInt64}
      (hfresh : (st.messageSeq : Int) < row.id.toInt) (hdigest : row.blockchainDigest = []) :
      RowAfter st row (.createMessage c sender payload timestamp recipient preKey)
  | digest {m : UInt64} {digest : Bytes} {row₀ : MessageRow} (hrow₀ : row₀ ∈ st.messages)
      (hid : row₀.id = bigint m) (heq : row = { row₀ with blockchainDigest := digest }) :
      RowAfter st row (.updateMessageBlockchainDigest m digest)

theorem row_after {o : Op} {s s' : ServerState} {r : Res o} (h : Kds.exec cfg o s r s')
    {row : MessageRow} (hrow : row ∈ s'.store.messages) : RowAfter s.store row o := by
  rcases exec_store h with heq | ⟨r', hw, -⟩
  · rw [heq] at hrow
    exact .kept hrow
  · cases hw with
    | createUser hc =>
        obtain ⟨-, -, heq⟩ := createUser_ok hc
        rw [heq] at hrow
        exact .kept hrow
    | createConversation hc =>
        obtain ⟨-, -, heq⟩ := createConversation_ok hc
        rw [heq] at hrow
        exact .kept hrow
    | createMessage hc =>
        obtain ⟨t, -, hnext, -, heq⟩ := createMessage_ok hc
        rw [heq] at hrow
        rcases List.mem_append.mp hrow with hrow | hrow
        · exact .kept hrow
        · have hval := (nextval_ok hnext).1
          rw [List.mem_singleton.mp hrow]
          exact .created (by simp only [newMessage]; omega) rfl
    | deleteMessage hd =>
        rw [show s'.store = _ from (congrArg Prod.snd hd).symm] at hrow
        exact .kept (List.mem_of_mem_filter hrow)
    | revokeMessageAccess hr =>
        rw [show s'.store = _ from (congrArg Prod.snd hr).symm] at hrow
        exact .kept hrow
    | updateMessageBlockchainDigest hd =>
        rw [← hd] at hrow
        obtain ⟨row₀, hrow₀, heq⟩ := List.mem_map.mp hrow
        split_ifs at heq with hid
        · exact .digest hrow₀ hid heq.symm
        · exact .kept (heq ▸ hrow₀)

variable [Primitives]

/-- **A call keeps the invariant**, when it is made where its precondition holds. -/
theorem pipelineInv_exec {t : Task} {past : PipelineEvents} {o : Op} {r : Res o}
    (hpast : Past (pipelineMachine keccak256 cfg tick wallet allowed) (pipelineShared keccak256) past s)
    (hpre : Kds.Pre cfg t (serverEvents past) o s.server)
    (h : pipelineExec keccak256 cfg o s r s') :
    PipelineInv keccak256 s' ∧ (pipelineShared keccak256).rely s s' := by
  have hinv : PipelineInv keccak256 s := hpast.1
  have hrely : (pipelineShared keccak256).rely s s :=
    ⟨evolves_refl _, List.Subset.refl _, List.Subset.refl _⟩
  have hserver : ∀ server, Kds.exec cfg o s.server r server →
      PipelineInv keccak256 { s with server := server } ∧
        (pipelineShared keccak256).rely s { s with server := server } := by
    intro server hexec
    obtain ⟨hstore, hevolves⟩ := Kds.exec_ok cfg hinv.message.store hpre hexec
    refine ⟨⟨hinv.sidecar, hinv.ledger, messageInv_store hinv.message hstore hevolves ?_⟩,
      hevolves, List.Subset.refl _, List.Subset.refl _⟩
    intro row hrow
    cases row_after hexec hrow with
    | kept hkept => exact .inl hkept
    | created hfresh hdigest => exact .inr (.inl hdigest)
    | @digest m digest row₀ hrow₀ hid heq =>
        subst heq
        refine .inr ?_
        cases t with
        | request req seen =>
            obtain ⟨entry, hentry, hmsg, hdigest, payload, hleaf, hcreated⟩ :=
              digestOf_entry hpast hpre.2
            refine .inr ⟨entry, hentry, ⟨?_, ?_⟩, .inl hdigest⟩
            · rw [hmsg, hid, toUInt64_bigint]
            · rw [hleaf, hcreated.payload row₀ hrow₀ hid]
        | resolver =>
            rcases hpre with ⟨id, hop⟩ | hop | ⟨m', digest', hop, hresolved⟩
            · cases hop
            · cases hop
            · cases hop
              obtain ⟨pendingId, hfound, hsettles⟩ := resolved_settles hpast hresolved
              obtain ⟨entry, hentry, rfl, -, hrecords⟩ := found_entry hpast hfound
              obtain ⟨hmsg, hleaf⟩ := hrecords row₀ hrow₀ hid
              exact .inr ⟨entry, hentry, ⟨hmsg, hleaf⟩, .inr hsettles⟩
  cases o with
  | sidecar path body =>
      have hbody : path = bytes "/record" → RecordsMessage s.server.store body := by
        intro hpath
        cases t with
        | request req seen =>
            obtain ⟨-, c, m, payload, -, hcreated, hbody⟩ := hpre
            obtain ⟨before, sender, timestamp, recipient, preKey, t, t', hevents⟩ := hcreated
            have hsaid : Said (serverEvents past)
                (.createMessage c sender payload timestamp recipient preKey) (.ok m) :=
              ⟨t, t', by rw [hevents]; simp⟩
            exact ⟨c, m, payload, hbody, created_of_said (projects_server.past hpast) hsaid⟩
        | resolver =>
            rcases hpre with ⟨id, hop⟩ | hop | ⟨m', digest', hop, -⟩
            · cases hop
              exact absurd hpath.symm (record_ne_pending _)
            · cases hop
            · cases hop
      cases h with
      | unreachable => exact ⟨hinv, hrely⟩
      | late hpath =>
          refine ⟨⟨hinv.sidecar, hinv.ledger, { hinv.message with posts := ?_ }⟩, hrely⟩
          intro b hb
          rcases List.mem_cons.mp hb with rfl | hb
          · exact hbody hpath
          · exact hinv.message.posts b hb
      | record hpath huuid hfresh hr => exact pipelineInv_post hinv hfresh (hbody hpath)
      | pending hpath hr => exact ⟨hinv, hrely⟩
  | _ =>
      obtain ⟨server, hexec, rfl⟩ := h
      exact hserver server hexec

omit [Primitives] in
/-- **What happens by itself keeps the invariant.** -/
theorem pipelineInv_env (h : PipelineInv keccak256 s)
    (henv : (pipelineMachine keccak256 cfg tick wallet allowed).env s s') :
    PipelineInv keccak256 s' ∧ (pipelineShared keccak256).rely s s' := by
  rcases henv with ⟨server, henv, rfl⟩ | ⟨act, -, hmove⟩
  · obtain ⟨hstore, hevolves⟩ := environment_ok h.message.store henv
    refine ⟨⟨h.sidecar, h.ledger, messageInv_store h.message hstore hevolves fun row hrow => .inl ?_⟩,
      hevolves, List.Subset.refl _, List.Subset.refl _⟩
    cases henv with
    | clock => exact hrow
    | steadyClock => exact hrow
    | skipIds => exact hrow
  · exact pipelineInv_move h hmove

variable (keccak256 cfg tick wallet allowed)

/-- What the server's programs are promised and promise on the pipeline. -/
def pipelineContract :
    Contract (pipelineMachine keccak256 cfg tick wallet allowed) (serverProgram cfg) where
  toShared := pipelineShared keccak256
  pre t past o s := Kds.Pre cfg t (serverEvents past) o s.server
  post t past x := Post cfg t (serverEvents past) x
  rely_refl s := ⟨evolves_refl _, List.Subset.refl _, List.Subset.refl _⟩
  rely_trans h h' := ⟨evolves_trans h.1 h'.1, List.Subset.trans h.2.1 h'.2.1,
    List.Subset.trans h.2.2 h'.2.2⟩
  exec_ok hpast hpre h := pipelineInv_exec hpast hpre h
  env_ok hinv h := pipelineInv_env hinv h
  restart_ok := by
    intro s s' hinv h
    rw [show s' = _ from h]
    exact ⟨hinv.sidecar, hinv.ledger, messageInv_restart hinv.message⟩
  prog_ok t := wp_map projects_server ((serverContract cfg tick).prog_ok t)

end Blockchain
