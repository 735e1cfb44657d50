import Kingdom.Blockchain.Digests

/-!
# The verification page

The page takes a pasted text and a transaction, and says whether the text was recorded in
it.  Texts are strings of UTF-16 code units.

* `trim`, `fieldValue` — what the page makes of a field before it reads it.
* `Receipt`, `batchOf` — a transaction that was mined, and its event.
* `verify` — the page.
* `RecordedIn` — a batch of payloads that the owner of the contract has recorded.
* `recordedIn_of_flush` — in a run of the pipeline the batches of the sidecar are recorded so.
* `verified_iff` — the page confirms exactly the payloads, as far as the fields keep them.
-/

namespace Blockchain

/-- A JavaScript string. -/
abbrev Text := List UInt16

/-! ## Fields -/

/-- White space and line terminators, as `trim` has them. -/
def isSpace (c : UInt16) : Bool :=
  c.toNat ∈ [0x09, 0x0A, 0x0B, 0x0C, 0x0D, 0x20, 0xA0, 0x1680, 0x2028, 0x2029, 0x202F, 0x205F,
    0x3000, 0xFEFF] ∨ 0x2000 ≤ c.toNat ∧ c.toNat ≤ 0x200A

def trim (s : Text) : Text := ((s.dropWhile isSpace).reverse.dropWhile isSpace).reverse

/-- What a `textarea` has of a text: every line ends with a line feed. -/
def normalizeNewlines : Text → Text
  | 0x0D :: 0x0A :: rest => 0x0A :: normalizeNewlines rest
  | 0x0D :: rest => 0x0A :: normalizeNewlines rest
  | c :: rest => c :: normalizeNewlines rest
  | [] => []

/-- The text the page reads from the field for the message. -/
def fieldValue (pasted : Text) : Text := trim (normalizeNewlines pasted)

/-! ## Transactions -/

/-- A log of a transaction; one of another kind has no event. -/
structure Log where
  address : Address
  event : Option BatchRecorded

structure Receipt where
  logs : List Log

/-- The first event of the contract. -/
def batchOf (contractAddress : Address) (receipt : Receipt) : Option BatchRecorded :=
  receipt.logs.findSome? fun log => if log.address = contractAddress then log.event else none

/-! ## The page -/

inductive Verdict where
  | error
  | verified
  | tampered
deriving DecidableEq

section Page

variable (keccak256 : List UInt8 → Bytes32) (toUtf8Bytes : Text → Option (List UInt8))

/-- The hash of a text, when it has an encoding. -/
def leafOf (s : Text) : Option Bytes32 := (toUtf8Bytes s).map keccak256

/-- The page, with the receipts that the providers find. -/
def verify (contractAddress : Address) (receiptOf : Text → Option Receipt)
    (pasted txField : Text) : Verdict :=
  let ciphertext := fieldValue pasted
  let txHash := trim txField
  if ciphertext = [] ∨ txHash = [] then .error
  else match receiptOf txHash with
    | none => .error
    | some receipt =>
        match batchOf contractAddress receipt with
        | none => .error
        | some event =>
            match leafOf keccak256 toUtf8Bytes ciphertext with
            | none => .error
            | some computedLeaf =>
                -- an event without leaves has no root to rebuild, and the comparison throws
                match buildMerkleRoot keccak256 event.leaves with
                | none => .error
                | some recomputedRoot =>
                    if event.leaves.contains computedLeaf ∧ recomputedRoot = event.root then .verified
                    else .tampered

/-- The transaction is one of the owner's in which these payloads were recorded, with the
root the sidecar builds. -/
structure RecordedIn (contractAddress : Address) (receipt : Receipt) (payloads : List Text) : Prop where
  exists_call : ∃ contract call id event contract',
    recordBatch contract call = .ok (id, event, contract') ∧
    payloads.mapM (leafOf keccak256 toUtf8Bytes) = some call.leaves.toList ∧
    buildMerkleRoot keccak256 call.leaves.toList = some call.root ∧
    receipt.logs.filter (·.address = contractAddress) = [⟨contractAddress, some event⟩]

end Page

/-! ## Batches of the sidecar -/

section Batches

open Codec Process Kds

/-- What the ledger has of the batches: a mined transaction was a call that did not revert,
and that of a batch has its hashes and the root the sidecar builds. -/
structure BatchInv (keccak256 : List UInt8 → Bytes32) (ledger : Ledger) (flushes : List Flush) :
    Prop where
  mined : ∀ p ∈ ledger.mined, ∃ tx ∈ ledger.sent, tx.hash = p.1 ∧ ∃ contract timestamp id contract',
    recordBatch contract (tx.call timestamp) = .ok (id, p.2, contract')
  flushes : ∀ flush ∈ flushes, ∀ h ∈ flush.stage.txHash?, ∃ tx ∈ ledger.sent, tx.hash = h ∧
    tx.leaves.toList = flush.batch.map (·.leaf) ∧
      buildMerkleRoot keccak256 tx.leaves.toList = some tx.root

variable {keccak256 : List UInt8 → Bytes32} {s s' : Pipeline}

/-- Another list of batches, each of which is an old one or has a transaction of its own. -/
theorem BatchInv.await {flushes : List Flush} (h : BatchInv keccak256 s.ledger s.sidecar.flushes)
    (hnew : ∀ flush ∈ flushes, flush ∈ s.sidecar.flushes ∨ ∀ h ∈ flush.stage.txHash?,
      ∃ tx ∈ s.ledger.sent, tx.hash = h ∧ tx.leaves.toList = flush.batch.map (·.leaf) ∧
        buildMerkleRoot keccak256 tx.leaves.toList = some tx.root) :
    BatchInv keccak256 s.ledger flushes :=
  ⟨h.mined, fun flush hflush => (hnew flush hflush).elim (h.flushes flush) id⟩

theorem BatchInv.send (h : BatchInv keccak256 s.ledger s.sidecar.flushes) (tx : Tx) :
    BatchInv keccak256 (s.send tx).ledger s.sidecar.flushes where
  mined := by
    intro p hp
    obtain ⟨tx', htx', hcall⟩ := h.mined p hp
    exact ⟨tx', List.mem_append_left _ htx', hcall⟩
  flushes := by
    intro flush hflush txHash hstage
    obtain ⟨tx', htx', hbatch⟩ := h.flushes flush hflush txHash hstage
    exact ⟨tx', List.mem_append_left _ htx', hbatch⟩

theorem flushes_post [FloatFormat] (pendingId body : Bytes) :
    (s.post keccak256 pendingId body).sidecar.flushes = s.sidecar.flushes := by
  rcases post_cases keccak256 s pendingId body with ⟨_, _, _, _, -, -, -, -, hpost⟩ | ⟨-, hpost⟩ <;>
    rw [hpost]
  rfl

/-- **What the sidecar and the ledger do keeps this.** -/
theorem batchInv_move [FloatFormat] {wallet : Address} {act : Act} (hinv : PipelineInv keccak256 s)
    (h : BatchInv keccak256 s.ledger s.sidecar.flushes) (hmove : Move keccak256 wallet s act s') :
    BatchInv keccak256 s'.ledger s'.sidecar.flushes := by
  cases hmove with
  | arrive =>
      refine h.await fun flush hflush => .inl ?_
      rwa [flushes_post] at hflush
  | take =>
      refine h.await fun flush hflush => ?_
      rcases List.mem_append.mp hflush with hflush | hflush
      · exact .inl hflush
      · rw [List.mem_singleton.mp hflush]
        exact .inr fun _ hstage => by cases hstage
  | broadcast _ _ _ hleaves hroot =>
      refine (h.send _).await (s := s.send _) fun flush hflush => ?_
      rcases List.mem_or_eq_of_mem_set hflush with hflush | rfl
      · exact .inl hflush
      · refine .inr ?_
        rintro _ ⟨⟩
        exact ⟨_, List.mem_append_right _ (List.mem_singleton_self _), rfl, hleaves, hroot⟩
  | submitted hget =>
      refine h.await fun flush hflush => ?_
      rcases List.mem_or_eq_of_mem_set hflush with hflush | rfl
      · exact .inl hflush
      · exact .inr fun txHash hstage => h.flushes _ (List.mem_of_getElem? hget) txHash hstage
  | confirmed => exact h.await fun flush hflush => .inl (List.mem_of_mem_eraseIdx hflush)
  | failed => exact h.await fun flush hflush => .inl (List.mem_of_mem_eraseIdx hflush)
  | restart => exact h.await fun flush hflush => by simp [Sidecar.start] at hflush
  | otherTx => exact h.send _
  | @mine tx timestamp id event contract htx hcall =>
      refine ⟨fun p hp => ?_, h.flushes⟩
      rcases List.mem_append.mp hp with hp | hp
      · exact h.mined p hp
      · rw [List.mem_singleton.mp hp]
        exact ⟨tx, hinv.ledger.pool tx htx, rfl, _, _, _, _, hcall⟩
  | drop => exact ⟨h.mined, h.flushes⟩

/-- In every run of the pipeline the batches are recorded as the sidecar sends them. -/
theorem batchInv_run [Primitives] [FloatFormat] {cfg : Config} {tick : Clock → Clock → Prop}
    {wallet : Address} {allowed : Act → Pipeline → Prop} {clock : Clock} {deployer : Address}
    {tr : PipelineTrace} {w : PipelineSystem}
    (h : PipelineRun keccak256 cfg tick wallet allowed ⟨.initial clock deployer, []⟩ tr w) :
    Sound keccak256 cfg tick wallet allowed w ∧
      BatchInv keccak256 w.state.ledger w.state.sidecar.flushes := by
  induction h with
  | nil =>
      refine ⟨Contract.sound_init (pipelineInv_initial _ _ _), ?_, ?_⟩ <;>
        simp [Pipeline.initial, Sidecar.start]
  | snoc hrun hstep ih =>
      obtain ⟨hsound, hinv⟩ := ih
      refine ⟨Contract.sound_step hsound hstep, ?_⟩
      cases hstep with
      | start t => exact hinv
      | @call s s' ths i t past o k r hget hexec =>
          cases o with
          | sidecar path body =>
              cases hexec with
              | unreachable => exact hinv
              | late => exact hinv
              | record =>
                  refine hinv.await (s := s) fun flush hflush => .inl ?_
                  rwa [flushes_post] at hflush
              | pending => exact hinv
          | _ =>
              obtain ⟨server, -, rfl⟩ := hexec
              exact hinv
      | env henv =>
          rcases henv with ⟨server, -, rfl⟩ | ⟨act, -, hmove⟩
          · exact hinv
          · exact batchInv_move hsound.1 hinv hmove
      | restart hrestart =>
          rw [show _ = _ from hrestart]
          exact hinv

/-- **The batches of the sidecar are recorded**: the transaction of a batch, when it has been
mined, is one in which the payloads of the batch were recorded. -/
theorem recordedIn_of_flush [Primitives] [FloatFormat] {cfg : Config} {tick : Clock → Clock → Prop}
    {wallet : Address} {allowed : Act → Pipeline → Prop} {clock : Clock} {deployer : Address}
    {tr : PipelineTrace} {w : PipelineSystem}
    (h : PipelineRun keccak256 cfg tick wallet allowed ⟨.initial clock deployer, []⟩ tr w)
    {flush : Flush} (hflush : flush ∈ w.state.sidecar.flushes) {txHash : Bytes32}
    (hstage : txHash ∈ flush.stage.txHash?) {event : BatchRecorded}
    (hmined : (txHash, event) ∈ w.state.ledger.mined) {toUtf8Bytes : Text → Option (List UInt8)}
    {payloads : List Text}
    (hpayloads : payloads.mapM (leafOf keccak256 toUtf8Bytes) = some (flush.batch.map (·.leaf)))
    {contractAddress : Address} {receipt : Receipt}
    (hlogs : receipt.logs.filter (·.address = contractAddress) = [⟨contractAddress, some event⟩]) :
    RecordedIn keccak256 toUtf8Bytes contractAddress receipt payloads := by
  obtain ⟨hsound, hinv⟩ := batchInv_run h
  obtain ⟨tx, htx, hhash, hleaves, hroot⟩ := hinv.flushes flush hflush txHash hstage
  obtain ⟨tx', htx', hhash', contract, timestamp, id, contract', hcall⟩ := hinv.mined _ hmined
  obtain rfl := List.inj_on_of_nodup_map hsound.1.ledger.sent htx htx' (hhash.trans hhash'.symm)
  exact ⟨contract, tx.call timestamp, id, event, contract', hcall, hpayloads.trans
    (congrArg some hleaves.symm), hroot, hlogs⟩

end Batches

/-! ## What the page confirms -/

section Confirms

variable {keccak256 : List UInt8 → Bytes32} {toUtf8Bytes : Text → Option (List UInt8)}
  {contractAddress : Address} {receipt : Receipt} {payloads : List Text}

theorem batchOf_filter (logs : List Log) : batchOf contractAddress ⟨logs⟩ =
    batchOf contractAddress ⟨logs.filter (·.address = contractAddress)⟩ := by
  induction logs with
  | nil => rfl
  | cons log logs ih =>
      simp only [batchOf] at ih ⊢
      by_cases h : log.address = contractAddress
      · rw [List.filter_cons_of_pos (by simpa using h), List.findSome?_cons, List.findSome?_cons, ih]
      · rw [List.filter_cons_of_neg (by simpa using h), List.findSome?_cons, if_neg h]
        exact ih

/-- The event the page finds has the hashes of the payloads, and their root. -/
theorem RecordedIn.batchOf (h : RecordedIn keccak256 toUtf8Bytes contractAddress receipt payloads) :
    ∃ event, batchOf contractAddress receipt = some event ∧
      payloads.mapM (leafOf keccak256 toUtf8Bytes) = some event.leaves ∧
      buildMerkleRoot keccak256 event.leaves = some event.root := by
  obtain ⟨contract, call, id, event, contract', hok, hleaves, hroot, hlogs⟩ := h.exists_call
  obtain ⟨-, -, -, hr⟩ := recordBatch_ok.mp hok
  cases hr
  refine ⟨call.event contract.nextBatchId, ?_, hleaves, hroot⟩
  obtain ⟨logs⟩ := receipt
  rw [batchOf_filter, hlogs, Blockchain.batchOf]
  simp

theorem mem_leaves {leaves : List Bytes32} {leaf : Bytes32}
    (h : payloads.mapM (leafOf keccak256 toUtf8Bytes) = some leaves) :
    leaf ∈ leaves ↔ ∃ p ∈ payloads, leafOf keccak256 toUtf8Bytes p = some leaf := by
  induction payloads generalizing leaves with
  | nil =>
      cases h
      simp
  | cons p payloads ih =>
      rw [List.mapM_cons, Option.bind_eq_bind, Option.bind_eq_some_iff] at h
      obtain ⟨a, ha, h⟩ := h
      obtain ⟨as, has, h⟩ := Option.bind_eq_some_iff.mp h
      cases h
      rw [List.mem_cons, ih has]
      simp only [List.mem_cons, exists_eq_or_imp, ha, Option.some.injEq]
      exact or_congr_left eq_comm

/-- Every payload of a batch has a hash. -/
theorem exists_leaf {leaves : List Bytes32} {p : Text} (hp : p ∈ payloads)
    (h : payloads.mapM (leafOf keccak256 toUtf8Bytes) = some leaves) :
    ∃ leaf, leafOf keccak256 toUtf8Bytes p = some leaf := by
  induction payloads generalizing leaves with
  | nil => cases hp
  | cons q payloads ih =>
      rw [List.mapM_cons, Option.bind_eq_bind, Option.bind_eq_some_iff] at h
      obtain ⟨a, ha, h⟩ := h
      obtain ⟨as, has, -⟩ := Option.bind_eq_some_iff.mp h
      rcases List.mem_cons.mp hp with rfl | hp
      · exact ⟨a, ha⟩
      · exact ih hp has

end Confirms

theorem normalizeNewlines_eq {s : Text} (h : 0x0D ∉ s) : normalizeNewlines s = s := by
  induction s with
  | nil => rfl
  | cons c rest ih =>
      rw [List.mem_cons, not_or] at h
      obtain ⟨hc, hrest⟩ := h
      rw [normalizeNewlines, ih hrest]
      · intro rest' hcr
        exact absurd hcr.symm hc
      · intro hcr
        exact absurd hcr.symm hc

theorem dropWhile_isSpace {s : Text} (h : ∀ c ∈ s.head?, isSpace c = false) :
    s.dropWhile isSpace = s := by
  cases s with
  | nil => rfl
  | cons c rest => rw [List.dropWhile_cons, h c rfl, if_neg (by decide)]

/-- A text without carriage returns, and without white space around it, is kept by the
field. -/
theorem fieldValue_eq {s : Text} (hreturn : 0x0D ∉ s) (hfirst : ∀ c ∈ s.head?, isSpace c = false)
    (hlast : ∀ c ∈ s.getLast?, isSpace c = false) : fieldValue s = s := by
  rw [fieldValue, normalizeNewlines_eq hreturn, trim, dropWhile_isSpace hfirst,
    dropWhile_isSpace (by rwa [List.head?_reverse]), List.reverse_reverse]

/-- **The page confirms a text exactly when what its field keeps of the text is a payload
that was recorded in the transaction.**  A payload without carriage returns and without
white space around it is confirmed as it is. -/
theorem verified_iff {keccak256 : List UInt8 → Bytes32} {toUtf8Bytes : Text → Option (List UInt8)}
    {contractAddress : Address} {receiptOf : Text → Option Receipt} {receipt : Receipt}
    {payloads : List Text} {txField : Text} (pasted : Text)
    (hutf8 : ∀ s t b, toUtf8Bytes s = some b → toUtf8Bytes t = some b → s = t)
    (hkeccak : ∀ p ∈ payloads, ∀ b c, toUtf8Bytes p = some b →
      toUtf8Bytes (fieldValue pasted) = some c → keccak256 b = keccak256 c → b = c)
    (hpayloads : ∀ p ∈ payloads, p ≠ []) (htx : trim txField ≠ [])
    (hreceipt : receiptOf (trim txField) = some receipt)
    (hrecorded : RecordedIn keccak256 toUtf8Bytes contractAddress receipt payloads) :
    (verify keccak256 toUtf8Bytes contractAddress receiptOf pasted txField = .verified ↔
      fieldValue pasted ∈ payloads) ∧
    (pasted ∈ payloads → 0x0D ∉ pasted → (∀ c ∈ pasted.head?, isSpace c = false) →
      (∀ c ∈ pasted.getLast?, isSpace c = false) →
      verify keccak256 toUtf8Bytes contractAddress receiptOf pasted txField = .verified) := by
  obtain ⟨event, hbatch, hleaves, hroot⟩ := hrecorded.batchOf
  suffices hiff : verify keccak256 toUtf8Bytes contractAddress receiptOf pasted txField = .verified ↔
      fieldValue pasted ∈ payloads by
    refine ⟨hiff, fun hmem hreturn hfirst hlast => hiff.mpr ?_⟩
    rw [fieldValue_eq hreturn hfirst hlast]
    exact hmem
  constructor
  · intro h
    rw [verify] at h
    split_ifs at h with hempty
    simp only [hreceipt, hbatch] at h
    cases hleaf : leafOf keccak256 toUtf8Bytes (fieldValue pasted) with
    | none =>
        simp only [hleaf] at h
        cases h
    | some leaf =>
        simp only [hleaf, hroot] at h
        split_ifs at h with hpass
        obtain ⟨p, hp, hpleaf⟩ := (mem_leaves hleaves).mp (by simpa using hpass.1)
        obtain ⟨c, hc, hcleaf⟩ := Option.map_eq_some_iff.mp hleaf
        obtain ⟨b, hb, hbleaf⟩ := Option.map_eq_some_iff.mp hpleaf
        obtain rfl : b = c := hkeccak p hp b c hb hc (hbleaf.trans hcleaf.symm)
        rwa [hutf8 _ _ _ hc hb]
  · intro h
    have hnonempty : ¬ (fieldValue pasted = [] ∨ trim txField = []) := by
      rintro (hnil | hnil)
      · exact hpayloads _ h hnil
      · exact htx hnil
    obtain ⟨leaf, hleaf⟩ := exists_leaf h hleaves
    rw [verify, if_neg hnonempty]
    simp only [hreceipt, hbatch, hleaf, hroot]
    have hfound : leaf ∈ event.leaves := (mem_leaves hleaves).mpr ⟨_, h, hleaf⟩
    rw [if_pos ⟨by simpa using hfound, trivial⟩]

/-! ## Examples -/

/-- The encoding of texts of ASCII characters. -/
def asciiBytes (s : Text) : Option (List UInt8) :=
  if s.all (·.toNat < 0x80) then some (s.map (·.toUInt8)) else none

def exampleOwner : Address := 1

/-- The hashes of some payloads, which are not too many for one call. -/
def exampleLeaves (payloads : List Text) (h : payloads.length < 2 ^ 256) : Leaves :=
  ⟨payloads.map fun p => exampleHash (p.map (·.toUInt8)), by simpa using h⟩

/-- The call that records them. -/
def exampleCall (payloads : List Text) (h : payloads.length < 2 ^ 256) : Call :=
  let leaves := exampleLeaves payloads h
  ⟨exampleOwner, 0, (buildMerkleRoot exampleHash leaves.toList).getD 0, leaves⟩

/-- A transaction in which they were recorded. -/
def exampleReceipt (payloads : List Text) (h : payloads.length < 2 ^ 256) : Receipt :=
  ⟨[⟨2, some ((exampleCall payloads h).event 0)⟩]⟩

theorem mapM_leafOf_ascii {payloads : List Text} (h : ∀ p ∈ payloads, p.all (·.toNat < 0x80) = true) :
    payloads.mapM (leafOf exampleHash asciiBytes) =
      some (payloads.map fun p => exampleHash (p.map (·.toUInt8))) := by
  induction payloads with
  | nil => rfl
  | cons p payloads ih =>
      have hp : leafOf exampleHash asciiBytes p = some (exampleHash (p.map (·.toUInt8))) := by
        simp [leafOf, asciiBytes, h p (List.mem_cons_self ..)]
      rw [List.mapM_cons, hp, ih fun q hq => h q (List.mem_cons_of_mem _ hq)]
      rfl

theorem exampleReceipt_recorded {payloads : List Text} (hlength : payloads.length < 2 ^ 256)
    (hne : payloads ≠ []) (h : ∀ p ∈ payloads, p.all (·.toNat < 0x80) = true) :
    RecordedIn exampleHash asciiBytes 2 (exampleReceipt payloads hlength) payloads := by
  let call := exampleCall payloads hlength
  refine ⟨.deploy exampleOwner, call, 0, call.event 0, ⟨exampleOwner,
    Function.update (fun _ => .zero) 0 call.batch, 1⟩, ?_, ?_, ?_, ?_⟩
  · exact recordBatch_ok.mpr ⟨rfl, by simpa [call, exampleCall, exampleLeaves] using hne, by decide,
      rfl⟩
  · exact mapM_leafOf_ascii h
  · obtain ⟨root, hroot⟩ := Merkle.exists_build (hashPair exampleHash)
      (show (exampleLeaves payloads hlength).toList ≠ [] by simpa [exampleLeaves] using hne)
    have hbuild : buildMerkleRoot exampleHash (exampleLeaves payloads hlength).toList = some root :=
      hroot
    simp only [call, exampleCall, hbuild, Option.getD_some]
  · rfl

theorem toUInt8_injective {c d : UInt16} (hc : c.toNat < 0x80) (hd : d.toNat < 0x80)
    (h : c.toUInt8 = d.toUInt8) : c = d := by
  have hnat := congrArg UInt8.toNat h
  rw [UInt16.toNat_toUInt8, UInt16.toNat_toUInt8] at hnat
  exact UInt16.toNat_inj.mp (by omega)

theorem asciiBytes_injective (s t : Text) (b : List UInt8) (hs : asciiBytes s = some b)
    (ht : asciiBytes t = some b) : s = t := by
  rw [asciiBytes] at hs ht
  split_ifs at hs ht with hsmall htmall
  rw [List.all_eq_true] at hsmall htmall
  have heq : s.map (·.toUInt8) = t.map (·.toUInt8) := Option.some.inj (hs.trans ht.symm)
  clear hs ht
  induction s generalizing t with
  | nil => exact (List.map_eq_nil_iff.mp heq.symm).symm
  | cons c s ih =>
      cases t with
      | nil => cases heq
      | cons d t =>
          rw [List.map_cons, List.map_cons, List.cons.injEq] at heq
          have hc : c.toNat < 0x80 := by simpa using hsmall c (by simp)
          have hd : d.toNat < 0x80 := by simpa using htmall d (by simp)
          rw [toUInt8_injective hc hd heq.1, ih t (fun x hx => hsmall x (by simp [hx]))
            (fun x hx => htmall x (by simp [hx])) heq.2]

theorem batchOf_exampleReceipt (payloads : List Text) (h : payloads.length < 2 ^ 256) :
    batchOf 2 (exampleReceipt payloads h) = some ((exampleCall payloads h).event 0) := by
  simp [batchOf, exampleReceipt]

/-- A payload of three that is pasted with a blank before it is confirmed. -/
theorem verified_iff_example : verify exampleHash asciiBytes 2
    (fun _ => some (exampleReceipt [[0x61], [0x62], [0x63]] (by decide))) [0x20, 0x62] [0x30] =
      .verified := by
  have hfield : fieldValue [0x20, 0x62] = [0x62] := by decide
  refine (verified_iff [0x20, 0x62] asciiBytes_injective ?_ (by simp) (by decide) rfl
    (exampleReceipt_recorded (by decide) (by simp) (by decide))).1.mpr (by rw [hfield]; simp)
  intro p hp b c hb hc heq
  rw [hfield] at hc
  cases hc
  simp only [List.mem_cons, List.not_mem_nil, or_false] at hp
  rcases hp with rfl | rfl | rfl <;> cases hb
  · exact absurd heq (by decide)
  · rfl
  · exact absurd heq (by decide)

/-- **A payload that starts with a blank is not confirmed, and another text is.** -/
theorem page_trims :
    (RecordedIn exampleHash asciiBytes 2 (exampleReceipt [[0x20, 0x61]] (by decide))
        [[0x20, 0x61]] ∧
      verify exampleHash asciiBytes 2 (fun _ => some (exampleReceipt [[0x20, 0x61]] (by decide)))
        [0x20, 0x61] [0x30] = .tampered) ∧
    RecordedIn exampleHash asciiBytes 2 (exampleReceipt [[0x61]] (by decide)) [[0x61]] ∧
      verify exampleHash asciiBytes 2 (fun _ => some (exampleReceipt [[0x61]] (by decide)))
        [0x20, 0x61] [0x30] = .verified := by
  have hfield : fieldValue [0x20, 0x61] = [0x61] := by decide
  have hleaf : leafOf exampleHash asciiBytes [0x61] = some (exampleHash [0x61]) := by decide
  have hroot : ∀ leaf : Bytes32, buildMerkleRoot exampleHash [leaf] = some leaf := by
    intro leaf
    rw [buildMerkleRoot, Merkle.build_short _ (by simp)]
    rfl
  have hevent : ∀ payload : Text, (exampleCall [payload] (by simp)).event 0 =
      ⟨0, exampleHash (payload.map (·.toUInt8)), 0, 1, [exampleHash (payload.map (·.toUInt8))]⟩ := by
    intro payload
    simp [exampleCall, exampleLeaves, Call.event, hroot, Leaves.length]
  refine ⟨⟨exampleReceipt_recorded (by decide) (by simp) (by decide), ?_⟩,
    exampleReceipt_recorded (by decide) (by simp) (by decide), ?_⟩
  · rw [verify, if_neg (by decide)]
    simp only [hfield, hleaf, batchOf_exampleReceipt, hevent, hroot]
    exact if_neg fun h => by revert h; decide
  · rw [verify, if_neg (by decide)]
    simp only [hfield, hleaf, batchOf_exampleReceipt, hevent, hroot]
    exact if_pos (by decide)

end Blockchain
