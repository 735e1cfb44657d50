import Kingdom.Blockchain.MerkleRoot
import Kingdom.Server.Handlers

/-!
# The sidecar

A process beside the server that queues the hashes of new messages and sends them to the
contract in batches.

* `Sidecar`, `postRecord`, `getPending` — its memory and its two requests.
* `Ledger` — the contract, the transactions that were sent and those that were mined.
* `Flush` — a `flushBatch` that waits, for its transaction to be sent or to be mined.
* `Record` — what has happened: every entry that was queued, every batch that was sent and
  how it ended.  No process reads it.
* `Pipeline`, `Act`, `Move` — the server, the sidecar and the ledger, and what the last two
  do by themselves.
* `pipelineMachine` — the server's programs, with this sidecar.
-/

namespace Blockchain

open Codec Process Kds

/-! ## The sidecar -/

structure QueueEntry where
  pendingId : Bytes
  conversationId : Json UInt8
  msgId : Json UInt8
  leaf : Bytes32

inductive PendingResult where
  | pending
  | confirmed (txHash : Bytes32) (batchId : UInt256)
  | failed (error : Bytes)

/-- Where a `flushBatch` waits: for `recordBatch`, whose transaction may have been sent, or
for `tx.wait`. -/
inductive Stage where
  | submitting (sent : Option Bytes32)
  | waiting (txHash : Bytes32)

structure Flush where
  batch : List QueueEntry
  stage : Stage

structure Sidecar where
  queue : List QueueEntry
  pendingResults : Bytes → Option PendingResult
  flushes : List Flush

/-- The sidecar when it starts. -/
def Sidecar.start : Sidecar := ⟨[], fun _ => none, []⟩

/-- The text of a transaction hash. -/
def txText (h : Bytes32) : Bytes :=
  bytes "0x" ++ (List.range 64).map fun i =>
    let digit := (h.extractLsb' (4 * (63 - i)) 4).toNat
    if digit < 10 then 48 + UInt8.ofNat digit else 87 + UInt8.ofNat digit

def PendingResult.json : PendingResult → Json UInt8
  | pending => .mkObj [("status", .str (bytes "pending"))]
  | confirmed txHash batchId => .mkObj [("status", .str (bytes "confirmed")),
      ("txHash", .str (txText txHash)), ("batchId", .str (decimal batchId.toNat))]
  | failed error => .mkObj [("status", .str (bytes "failed")), ("error", .str error)]

/-- `res.status(status).json(body)` -/
def respondJson (status : Nat) (body : Json UInt8) : Nat × Bytes := (status, body.dump.getD [])

def errorJson (text : String) : Json UInt8 := .mkObj [("error", .str (bytes text))]

/-- The largest body `express.json` takes. -/
def kBodyLimit : Nat := 102400

/-- The page `express` answers an error with.  Nobody reads its text. -/
def errorPage (status : Nat) : Nat × Bytes := (status, [])

/-- `!value` -/
def isFalsy : Option (Json UInt8) → Bool
  | none => true
  | some .null => true
  | some (.bool b) => !b
  | some (.unsigned n) => n == 0
  | some (.float text) => text == bytes "0.0" || text == bytes "-0.0"
  | some (.str s) => s.isEmpty
  | _ => false

variable (keccak256 : List UInt8 → Bytes32)

/-- The handler of `POST /record`, with the id that `randomUUID` gives. -/
def postRecord [FloatFormat] (pendingId body : Bytes) (s : Sidecar) : (Nat × Bytes) × Sidecar :=
  if kBodyLimit < body.length then (errorPage 413, s)
  else match (Json.parse body : Option (Json UInt8)) with
    | none => (errorPage 400, s)
    | some json =>
        let missing := (respondJson 400
          (errorJson "conversationId, msgId and ciphertext are required"), s)
        match json.get? (bytes "conversationId"), json.get? (bytes "msgId") with
        | some conversationId, some msgId =>
            if isFalsy (json.get? (bytes "ciphertext")) then missing
            else match json.get? (bytes "ciphertext") with
              | some (.str ciphertext) =>
                  let leaf := keccak256 ciphertext
                  (respondJson 200 (.mkObj [("pendingId", .str pendingId)]), { s with
                    queue := s.queue ++ [⟨pendingId, conversationId, msgId, leaf⟩]
                    pendingResults := Function.update s.pendingResults pendingId (some .pending) })
              -- `toUtf8Bytes` takes nothing but strings
              | _ => (errorPage 500, s)
        | _, _ => missing

/-- The handler of `GET /pending/:id`. -/
def getPending (pendingId : Bytes) (s : Sidecar) : Nat × Bytes :=
  match s.pendingResults pendingId with
  | none => respondJson 404 (errorJson "unknown pendingId")
  | some result => respondJson 200 result.json

/-- The text of an id of `randomUUID`: digits, letters `a` to `f`, and hyphens. -/
def IsUuid (id : Bytes) : Prop :=
  id.length = 36 ∧ ∀ b ∈ id, b = 45 ∨ (48 ≤ b ∧ b ≤ 57) ∨ (97 ≤ b ∧ b ≤ 102)

/-! ## The ledger -/

/-- A transaction that calls `recordBatch`. -/
structure Tx where
  hash : Bytes32
  sender : Address
  root : Bytes32
  leaves : Leaves

def Tx.call (tx : Tx) (timestamp : UInt256) : Call := ⟨tx.sender, timestamp, tx.root, tx.leaves⟩

/-- The contract, the transactions that were sent, and the events of those that were mined
without being reverted. -/
structure Ledger where
  contract : MessageIntegrity
  sent : List Tx
  pool : List Tx
  mined : List (Bytes32 × BatchRecorded)

/-! ## The pipeline -/

/-- What has happened. -/
structure Record where
  /-- Every entry that was queued. -/
  issued : List QueueEntry
  /-- Every batch that `recordBatch` was called with. -/
  submitted : List (List QueueEntry)
  /-- Every id whose batch has ended, with the result that was stored. -/
  settled : List (Bytes × PendingResult)

structure Pipeline where
  server : ServerState
  sidecar : Sidecar
  /-- The requests to record that are on their way though the server waits no longer. -/
  posts : List Bytes
  ledger : Ledger
  record : Record

/-- Before anything has happened. -/
def Pipeline.initial (clock : Clock) (deployer : Address) : Pipeline :=
  ⟨.initial clock, .start, [], ⟨.deploy deployer, [], [], []⟩, ⟨[], [], []⟩⟩

/-- The sidecar handles a request to record. -/
def Pipeline.post [FloatFormat] (s : Pipeline) (pendingId body : Bytes) : Pipeline :=
  { s with
    sidecar := (postRecord keccak256 pendingId body s.sidecar).2
    record := { s.record with issued := s.record.issued ++
      (postRecord keccak256 pendingId body s.sidecar).2.queue.drop s.sidecar.queue.length } }

/-- `flushBatch` takes the queue. -/
def Pipeline.take (s : Pipeline) : Pipeline :=
  { s with
    sidecar := { s.sidecar with
      queue := []
      flushes := s.sidecar.flushes ++ [⟨s.sidecar.queue, .submitting none⟩] }
    record := { s.record with submitted := s.record.submitted ++ [s.sidecar.queue] } }

/-- A `flushBatch` has come to another place where it waits. -/
def Pipeline.await (s : Pipeline) (i : Nat) (flush : Flush) : Pipeline :=
  { s with sidecar := { s.sidecar with flushes := s.sidecar.flushes.set i flush } }

/-- The end of a `flushBatch`: every id of its batch has the result. -/
def Pipeline.settle (s : Pipeline) (i : Nat) (batch : List QueueEntry) (result : PendingResult) :
    Pipeline :=
  { s with
    sidecar := { s.sidecar with
      pendingResults := batch.foldl
        (fun results entry => Function.update results entry.pendingId (some result))
        s.sidecar.pendingResults
      flushes := s.sidecar.flushes.eraseIdx i }
    record := { s.record with
      settled := s.record.settled ++ batch.map fun entry => (entry.pendingId, result) } }

/-- A transaction is sent. -/
def Pipeline.send (s : Pipeline) (tx : Tx) : Pipeline :=
  { s with ledger := { s.ledger with sent := s.ledger.sent ++ [tx], pool := s.ledger.pool ++ [tx] } }

/-- A transaction leaves the pool. -/
def Pipeline.drop (s : Pipeline) (tx : Tx) : Pipeline :=
  { s with ledger := { s.ledger with pool := s.ledger.pool.filter (·.hash ≠ tx.hash) } }

/-- A transaction is mined. -/
def Pipeline.mine (s : Pipeline) (tx : Tx) (event : BatchRecorded) (contract : MessageIntegrity) :
    Pipeline :=
  { s.drop tx with ledger := { (s.drop tx).ledger with
    contract := contract
    mined := s.ledger.mined ++ [(tx.hash, event)] } }

/-- What the sidecar and the ledger do by themselves; `i` is the place of a `flushBatch`. -/
inductive Act where
  | arrive
  | take
  | broadcast (i : Nat)
  | submitted (i : Nat)
  | confirmed (i : Nat)
  | failed (i : Nat)
  | restart
  | otherTx
  | mine
  | drop

inductive Move [FloatFormat] (wallet : Address) (s : Pipeline) : Act → Pipeline → Prop where
  /-- A request that was given up by the server arrives. -/
  | arrive {body pendingId : Bytes} (hbody : body ∈ s.posts) (huuid : IsUuid pendingId)
      (hfresh : ∀ entry ∈ s.record.issued, entry.pendingId ≠ pendingId) :
      Move wallet s .arrive { s.post keccak256 pendingId body with posts := s.posts.erase body }
  /-- `flushBatch` takes the queue and calls `recordBatch`. -/
  | take (hqueue : s.sidecar.queue ≠ []) : Move wallet s .take s.take
  /-- The transaction of `recordBatch` is sent; its hash is a new one. -/
  | broadcast {i : Nat} {batch : List QueueEntry} {tx : Tx}
      (hflush : s.sidecar.flushes[i]? = some ⟨batch, .submitting none⟩)
      (hfresh : ∀ tx' ∈ s.ledger.sent, tx'.hash ≠ tx.hash) (hsender : tx.sender = wallet)
      (hleaves : tx.leaves.toList = batch.map (·.leaf))
      (hroot : buildMerkleRoot keccak256 tx.leaves.toList = some tx.root) :
      Move wallet s (.broadcast i) ((s.send tx).await i ⟨batch, .submitting (some tx.hash)⟩)
  /-- `await contract.recordBatch(…)` has its transaction. -/
  | submitted {i : Nat} {batch : List QueueEntry} {h : Bytes32}
      (hflush : s.sidecar.flushes[i]? = some ⟨batch, .submitting (some h)⟩) :
      Move wallet s (.submitted i) (s.await i ⟨batch, .waiting h⟩)
  /-- `await tx.wait()` has its receipt: the transaction was mined. -/
  | confirmed {i : Nat} {batch : List QueueEntry} {h : Bytes32} {event : BatchRecorded}
      (hflush : s.sidecar.flushes[i]? = some ⟨batch, .waiting h⟩)
      (hmined : (h, event) ∈ s.ledger.mined) :
      Move wallet s (.confirmed i) (s.settle i batch (.confirmed h event.batchId))
  /-- One of the two has thrown, for whatever reason. -/
  | failed {i : Nat} {flush : Flush} {error : Bytes}
      (hflush : s.sidecar.flushes[i]? = some flush) :
      Move wallet s (.failed i) (s.settle i flush.batch (.failed error))
  /-- The process ends and starts again. -/
  | restart : Move wallet s .restart { s with sidecar := .start }
  /-- Anyone sends a transaction. -/
  | otherTx {tx : Tx} (hfresh : ∀ tx' ∈ s.ledger.sent, tx'.hash ≠ tx.hash) :
      Move wallet s .otherTx (s.send tx)
  /-- A transaction that is waiting is mined, and does not revert … -/
  | mine {tx : Tx} {timestamp id : UInt256} {event : BatchRecorded} {contract : MessageIntegrity}
      (htx : tx ∈ s.ledger.pool)
      (hcall : recordBatch s.ledger.contract (tx.call timestamp) = .ok (id, event, contract)) :
      Move wallet s .mine (s.mine tx event contract)
  /-- … or it is reverted, or dropped. -/
  | drop {tx : Tx} : Move wallet s .drop (s.drop tx)

/-- A request to the sidecar.  It may not arrive, or late, and its answer may be lost. -/
inductive Ask [FloatFormat] (path body : Bytes) (s : Pipeline) :
    Option (Nat × Bytes) → Pipeline → Prop where
  | unreachable : Ask path body s none s
  | late (hpath : path = bytes "/record") : Ask path body s none { s with posts := body :: s.posts }
  | record {pendingId : Bytes} {r : Option (Nat × Bytes)} (hpath : path = bytes "/record")
      (huuid : IsUuid pendingId) (hfresh : ∀ entry ∈ s.record.issued, entry.pendingId ≠ pendingId)
      (hr : ∀ answer ∈ r, answer = (postRecord keccak256 pendingId body s.sidecar).1) :
      Ask path body s r (s.post keccak256 pendingId body)
  | pending {pendingId : Bytes} {r : Option (Nat × Bytes)}
      (hpath : path = bytes "/pending/" ++ pendingId)
      (hr : ∀ answer ∈ r, answer = getPending pendingId s.sidecar) : Ask path body s r s

variable [FloatFormat] (cfg : Config) (tick : Clock → Clock → Prop) (wallet : Address)

/-- A call of the server, with this sidecar. -/
def pipelineExec : (o : Op) → Pipeline → Res o → Pipeline → Prop
  | .sidecar path body, s, r, s' => Ask keccak256 path body s r s'
  | o, s, r, s' => ∃ server, Kds.exec cfg o s.server r server ∧ s' = { s with server := server }

/-- The server's programs, with this sidecar and this ledger, which do nothing that is not
allowed. -/
def pipelineMachine (allowed : Act → Pipeline → Prop) : Machine Op Res Pipeline where
  exec := pipelineExec keccak256 cfg
  env s s' := (∃ server, Environment tick s.server server ∧ s' = { s with server := server }) ∨
    ∃ act, allowed act s ∧ Move keccak256 wallet s act s'
  restart s s' := s' = { s with server := restartServer s.server }

end Blockchain
