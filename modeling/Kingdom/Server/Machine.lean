import Kingdom.Process.Interleave
import Kingdom.Server.Store

/-!
# The server machine

The state the request handlers share, and the operations they call on it.  Every
method of `Database` runs under one mutex in one transaction, and so do the token
blacklist and the rate limiter, so each of them is one step.

* `TokenBlacklist` — the revoked tokens, pruned on every call.
* `isRateLimited_` — the counters of the rate limiter.
* `ServerState`, `Op`, `exec` — the shared state and the meaning of each
  operation.  A call of the database may always fail with a `std::runtime_error`;
  its transaction is rolled back then, or, where commits may be in doubt, may have been
  committed all the same.  The sidecar answers anything.
* `serverMachine` — with the steps of the environment: the clocks move, a rolled
  back transaction leaves a gap in a sequence, and the server restarts.
-/

namespace Kds

open Codec Process

/-! ## The token blacklist -/

/-- `tokens_`: the revoked tokens and when they expire. -/
abbrev TokenMap := List (Bytes × UInt64)

namespace TokenBlacklist

/-- `pruneExpired_` -/
def pruneExpired_ (now : UInt64) (tokens : TokenMap) : TokenMap :=
  tokens.filter fun p => ¬ p.2 ≤ now

/-- `expiryFromToken_` -/
def expiryFromToken_ [FloatFormat] (token : Bytes) : Option UInt64 := do
  let (_, rest) ← splitDot token
  let (payloadPart, _) ← splitDot rest
  let payloadBody ← Base64.urlDecode payloadPart
  let payload ← (Json.parse payloadBody : Option (Json UInt8))
  let exp ← payload.get? (bytes "exp")
  if exp.isNumberUnsigned then exp.uint64? else none

/-- `tokens_[token] = expiry` -/
def assign (token : Bytes) (expiry : UInt64) (tokens : TokenMap) : TokenMap :=
  (token, expiry) :: tokens.filter fun p => p.1 ≠ token

def revoke [FloatFormat] (now : UInt64) (token : Bytes) (tokens : TokenMap) : TokenMap :=
  assign token ((expiryFromToken_ token).getD now) (pruneExpired_ now tokens)

/-- `tokens_.contains(token)` -/
def contains (token : Bytes) (tokens : TokenMap) : Bool := tokens.any fun p => p.1 = token

end TokenBlacklist

/-! ## The rate limiter -/

/-- The requests of one address in its current window; times are nanoseconds. -/
structure RateLimitEntry where
  count : Nat
  windowStart : Nat
  deriving DecidableEq, Repr

def secondsToNanos (n : Nat) : Nat := n * 1000000000

/-- `Controller::isRateLimited_` at the steady time `now`. -/
def isRateLimited_ (maxRequests : Int) (now : Nat) (ipAddr : Bytes)
    (entries : List (Bytes × RateLimitEntry)) : Bool × List (Bytes × RateLimitEntry) :=
  let kept := entries.filter fun p => ¬ secondsToNanos 300 < now - p.2.windowStart
  let entry := ((kept.find? fun p => p.1 = ipAddr).map (·.2)).getD ⟨0, 0⟩
  let entry := if secondsToNanos 60 ≤ now - entry.windowStart then ⟨0, now⟩ else entry
  let entry : RateLimitEntry := ⟨entry.count + 1, entry.windowStart⟩
  (decide (maxRequests < (entry.count : Int)),
    (ipAddr, entry) :: kept.filter fun p => p.1 ≠ ipAddr)

/-! ## State and operations -/

/-- What `configure` reads from the environment, the version of the build, and what may
happen to the connection of the database. -/
structure Config where
  jwtSecret : Bytes
  jwtTtlSeconds : UInt64
  rateLimitMaxRequests : Int
  version : Bytes
  /-- May the connection be lost between a commit and its answer?  The call throws then,
  and what it has written stays. -/
  inDoubt : Bool

/-- `system_clock`, in milliseconds since the epoch. -/
abbrev Clock := Fin (2 ^ 63)

instance neZero_bigint : NeZero (2 ^ 63) := ⟨by decide⟩

/-- `epochSeconds` -/
def epochSeconds (c : Clock) : UInt64 := UInt64.ofNat (c.val / 1000)

/-- The milliseconds since the epoch as a `uint64_t`. -/
def epochMillis (c : Clock) : UInt64 := UInt64.ofNat c.val

/-- The state the handlers share. -/
structure ServerState where
  store : Store
  tokens : TokenMap
  rateLimitMap : List (Bytes × RateLimitEntry)
  clock : Clock
  steadyClock : Nat

/-- The server after its first start on an empty database. -/
def ServerState.initial (clock : Clock) : ServerState := ⟨.empty, [], [], clock, 0⟩

inductive Op where
  | epochSeconds
  | epochMillis
  | revoke (token : Bytes)
  | isRevoked (token : Bytes)
  | isRateLimited (ipAddr : Bytes)
  | hashPassword (password : Bytes)
  | createUser (username passwordHash publicKey : Bytes)
  | getUserByUsername (username : Bytes)
  | getAllUsers
  | getUserPublicKey (userId : UInt64)
  | usersExist (userIds : List UInt64)
  | createConversation (name : Bytes) (participantIds : List UInt64)
  | getConversationsByUserId (userId : UInt64)
  | createMessage (conversationId senderId : UInt64) (payload : Bytes) (timestamp : UInt64)
      (recipientId oneTimePreKeyId : Option UInt64)
  | getMessagesByConversationIdForUser (conversationId userId : UInt64)
  | deleteMessage (conversationId messageId senderId : UInt64)
  | revokeMessageAccess (conversationId messageId senderId targetUserId revokedAt : UInt64)
  | updateMessageBlockchainDigest (msgId : UInt64) (digest : Bytes)
  | getPendingBlockchainMessages
  | isParticipant (conversationId userId : UInt64)
  | isMessageSender (conversationId messageId senderId : UInt64)
  | sidecar (path body : Bytes)
  deriving DecidableEq

/-- What each operation answers. -/
abbrev Res : Op → Type
  | .epochSeconds => UInt64
  | .epochMillis => UInt64
  | .revoke _ => Unit
  | .isRevoked _ => Bool
  | .isRateLimited _ => Bool
  | .hashPassword _ => Except Exn Bytes
  | .createUser .. => Except Exn UInt64
  | .getUserByUsername _ => Except Exn (Option User)
  | .getAllUsers => Except Exn (List (UInt64 × Bytes))
  | .getUserPublicKey _ => Except Exn (Option Bytes)
  | .usersExist _ => Except Exn Bool
  | .createConversation .. => Except Exn UInt64
  | .getConversationsByUserId _ => Except Exn (List Conversation)
  | .createMessage .. => Except Exn UInt64
  | .getMessagesByConversationIdForUser .. => Except Exn (List Message)
  | .deleteMessage .. => Except Exn Bool
  | .revokeMessageAccess .. => Except Exn Bool
  | .updateMessageBlockchainDigest .. => Except Exn Unit
  | .getPendingBlockchainMessages => Except Exn (List (UInt64 × Bytes))
  | .isParticipant .. => Except Exn Bool
  | .isMessageSender .. => Except Exn Bool
  | .sidecar .. => Option (Nat × Bytes)

/-- A transaction is committed and answers, or throws and is rolled back; the
connection may fail at any time.  A commit in doubt throws too. -/
def Transaction {α : Type} (inDoubt : Bool) (f : Except Exn (α × Store)) (s : ServerState)
    (r : Except Exn α) (s' : ServerState) : Prop :=
  (∃ x st, f = .ok (x, st) ∧ s' = { s with store := st } ∧
    (r = .ok x ∨ inDoubt = true ∧ ∃ what, r = .error (.runtimeError what))) ∨
    ∃ e, r = .error e ∧ ((f.map Prod.fst = .error e) ∨ ∃ what, e = .runtimeError what) ∧ s' = s

/-- A transaction that only reads. -/
def Query {α : Type} (f : Except Exn α) (s : ServerState) (r : Except Exn α) (s' : ServerState) :
    Prop :=
  s' = s ∧ (r = f ∨ ∃ what, r = .error (.runtimeError what))

variable [FloatFormat] (cfg : Config)

/-- The meaning of the operations. -/
def exec : (o : Op) → ServerState → Res o → ServerState → Prop
  | .epochSeconds, s, r, s' => r = Kds.epochSeconds s.clock ∧ s' = s
  | .epochMillis, s, r, s' => r = Kds.epochMillis s.clock ∧ s' = s
  | .revoke token, s, _, s' =>
      s' = { s with tokens := TokenBlacklist.revoke (Kds.epochSeconds s.clock) token s.tokens }
  | .isRevoked token, s, r, s' =>
      s' = { s with tokens := TokenBlacklist.pruneExpired_ (Kds.epochSeconds s.clock) s.tokens } ∧
        r = TokenBlacklist.contains token s'.tokens
  | .isRateLimited ip, s, r, s' =>
      r = (isRateLimited_ cfg.rateLimitMaxRequests s.steadyClock ip s.rateLimitMap).1 ∧
        s' = { s with rateLimitMap :=
          (isRateLimited_ cfg.rateLimitMaxRequests s.steadyClock ip s.rateLimitMap).2 }
  | .hashPassword _, s, r, s' => s' = s ∧ ((∃ hash, r = .ok hash) ∨
      r = .error (.runtimeError (bytes "Failed to hash password")))
  | .createUser username hash publicKey, s, r, s' =>
      Transaction cfg.inDoubt (Database.createUser s.store username hash publicKey) s r s'
  | .getUserByUsername username, s, r, s' =>
      Query (.ok (Database.getUserByUsername s.store username)) s r s'
  | .getAllUsers, s, r, s' => Query (.ok (Database.getAllUsers s.store)) s r s'
  | .getUserPublicKey u, s, r, s' => Query (.ok (Database.getUserPublicKey s.store u)) s r s'
  | .usersExist us, s, r, s' => Query (.ok (Database.usersExist s.store us)) s r s'
  | .createConversation name ids, s, r, s' =>
      Transaction cfg.inDoubt
        (Database.createConversation s.store (bigint (Kds.epochMillis s.clock)) name ids) s r s'
  | .getConversationsByUserId u, s, r, s' =>
      Query (Database.getConversationsByUserId s.store u) s r s'
  | .createMessage c sender payload timestamp recipient preKey, s, r, s' =>
      Transaction cfg.inDoubt
        (Database.createMessage s.store c sender payload timestamp recipient preKey) s r s'
  | .getMessagesByConversationIdForUser c u, s, r, s' =>
      Query (Database.getMessagesByConversationIdForUser s.store c u) s r s'
  | .deleteMessage c m sender, s, r, s' =>
      Transaction cfg.inDoubt (.ok (Database.deleteMessage s.store c m sender)) s r s'
  | .revokeMessageAccess c m sender target at', s, r, s' =>
      Transaction cfg.inDoubt (.ok (Database.revokeMessageAccess s.store c m sender target at')) s r s'
  | .updateMessageBlockchainDigest m digest, s, r, s' =>
      Transaction cfg.inDoubt (.ok ((), Database.updateMessageBlockchainDigest s.store m digest)) s r s'
  | .getPendingBlockchainMessages, s, r, s' =>
      Query (.ok (Database.getPendingBlockchainMessages s.store)) s r s'
  | .isParticipant c u, s, r, s' => Query (.ok (Database.isParticipant s.store c u)) s r s'
  | .isMessageSender c m sender, s, r, s' =>
      Query (.ok (Database.isMessageSender s.store c m sender)) s r s'
  | .sidecar .., s, _, s' => s' = s

/-- What happens by itself between two calls. -/
inductive Environment (tick : Clock → Clock → Prop) (s : ServerState) : ServerState → Prop where
  | clock {c} (h : tick s.clock c) : Environment tick s { s with clock := c }
  | steadyClock {n} (h : s.steadyClock ≤ n) : Environment tick s { s with steadyClock := n }
  /-- A rolled-back transaction has used up values of a sequence. -/
  | skipIds {u c m} (hu : s.store.userSeq ≤ u) (hc : s.store.conversationSeq ≤ c)
      (hm : s.store.messageSeq ≤ m) (hu' : u < 2 ^ 63) (hc' : c < 2 ^ 63) (hm' : m < 2 ^ 63) :
      Environment tick s
        { s with store := { s.store with userSeq := u, conversationSeq := c, messageSeq := m } }

/-- The process ends and starts again: the constructor of `Database` runs
`initSchema_`, and what was only in memory is gone. -/
def restartServer (s : ServerState) : ServerState :=
  { s with store := Database.initSchema_ s.store, tokens := [], rateLimitMap := [] }

/-- The machine the handlers run on; `tick` says how the system clock may move. -/
def serverMachine (tick : Clock → Clock → Prop) : Machine Op Res ServerState where
  exec := exec cfg
  env := Environment tick
  restart s s' := s' = restartServer s

end Kds
