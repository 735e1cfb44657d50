import Kingdom.Client.RoundTrip

/-!
# When a call of `decryptMessage` that throws changes nothing

The checks of `decryptMessage` come before any change.  The prekey is taken from memory
before the key file is read and written, though, and an exception in there leaves the
message without its key.

* `OpensUnder` — the payloads that open under a one-time prekey of the recipient.
* `Atomic` — a call that throws leaves the keys in memory and the key file.
* `decryptMessage_atomic_iff` — the calls of which this is true.
-/

namespace Kd

open Codec Process Storage Prog

variable {α : Type} [Alphabet α] [Crypto α] [FloatFormat] [DecidableEq α]

/-- The payload is a message of the owner of the bundle, in this context, under this
one-time prekey of the recipient. -/
def OpensUnder (payload : List α) (recipient : LocalIdentityKey α) (senderBundle : List α)
    (conversationId senderId recipientId id : UInt64) : Prop :=
  ∃ payloadJson f bundle oneTimePreKey plaintext,
    parseJson payload "message payload" = .ok payloadJson ∧ PayloadFields.Of f payloadJson ∧
    parseJson senderBundle "senderBundle" = .ok bundle ∧ validateBundle bundle = .ok () ∧
    bundle.get? (bytes "identityKey") = some (.str f.senderIdentityKey) ∧
    Opens f recipient conversationId senderId recipientId oneTimePreKey plaintext ∧
    f.oneTimePreKeyId = some id

/-- A call that throws leaves the keys in memory and the key file as they were. -/
def Atomic {σ : Type} (mayFail : FileOp Bytes α → Prop)
    (net : HttpRequest α → σ → Option (HttpResponse α) → σ → Prop) (w : World α σ)
    (payload : List α) (recipient : LocalIdentityKey α) (senderBundle : List α)
    (conversationId senderId recipientId : UInt64) : Prop :=
  ∀ x w', (decryptMessage payload recipient senderBundle conversationId senderId recipientId).Runs
      (exec mayFail net) w (some x) w' →
    ∃ recipient' outcome, x = .ok (recipient', outcome) ∧ ∀ e, outcome = .error e →
      recipient' = recipient ∧
        w'.files recipient.keyFilePath = w.files recipient.keyFilePath

variable {σ : Type} {mayFail : FileOp Bytes α → Prop}
  {net : HttpRequest α → σ → Option (HttpResponse α) → σ → Prop} {w : World α σ}
  {payload senderBundle : List α} {recipient : LocalIdentityKey α}
  {conversationId senderId recipientId : UInt64}

theorem opensUnder_iff {id : UInt64} :
    OpensUnder payload recipient senderBundle conversationId senderId recipientId id ↔
      ∃ plaintext, openMessage payload recipient senderBundle conversationId senderId recipientId =
        .ok (plaintext, some id) := by
  simp only [openMessage_ok]
  constructor
  · rintro ⟨j, f, bundle, key, plaintext, hj, hof, hbundle, hvalid, hik, hopens, hid⟩
    exact ⟨plaintext, j, f, bundle, key, hj, hof, hbundle, hvalid, hik, hopens, hid.symm⟩
  · rintro ⟨plaintext, j, f, bundle, key, hj, hof, hbundle, hvalid, hik, hopens, hid⟩
    exact ⟨j, f, bundle, key, plaintext, hj, hof, hbundle, hvalid, hik, hopens, hid.symm⟩

/-- A call that makes no change is atomic. -/
theorem atomic_of_return (outcome : Except Exn (List α))
    (h : decryptMessage payload recipient senderBundle conversationId senderId recipientId =
      .pure (recipient, outcome)) :
    Atomic mayFail net w payload recipient senderBundle conversationId senderId recipientId := by
  intro x w' hrun
  rw [h] at hrun
  cases hrun
  exact ⟨recipient, outcome, rfl, fun _ _ => ⟨rfl, rfl⟩⟩

omit [Alphabet α] [Crypto α] [FloatFormat] [DecidableEq α] in
/-- Keys without a prekey they had are other keys. -/
theorem eraseP_ne {id : UInt64} (h : ∃ x ∈ recipient.oneTimePreKeys, x.id = id) :
    { recipient with oneTimePreKeys := recipient.oneTimePreKeys.eraseP (·.id = id) } ≠
      recipient := by
  intro heq
  obtain ⟨x, hx, hid⟩ := h
  have hsmaller : (recipient.oneTimePreKeys.eraseP (·.id = id)).length =
      recipient.oneTimePreKeys.length - 1 := List.length_eraseP_of_mem hx (by simpa using hid)
  have hlength : (recipient.oneTimePreKeys.eraseP (·.id = id)).length =
      recipient.oneTimePreKeys.length := congrArg (fun k => k.oneTimePreKeys.length) heq
  have hpos := List.length_pos_of_mem hx
  omega

/-- **A call that takes a prekey is atomic exactly when it cannot throw.** -/
theorem atomic_opened_iff {plaintext : List α} {id : UInt64}
    (hopen : openMessage payload recipient senderBundle conversationId senderId recipientId =
      .ok (plaintext, some id)) :
    Atomic mayFail net w payload recipient senderBundle conversationId senderId recipientId ↔
      recipient.keyFilePath = [] ∨ Recordable mayFail recipient.keyFilePath w.files id := by
  have hne := eraseP_ne ((openMessage_preKey hopen).2 id rfl)
  have hruns : Atomic mayFail net w payload recipient senderBundle conversationId senderId
      recipientId ↔
      (decryptMessage payload recipient senderBundle conversationId senderId recipientId).Ensures
        (exec mayFail net) (fun _ => True) w fun x w' => ∃ recipient' outcome,
          x = .ok (recipient', outcome) ∧ ∀ e, outcome = .error e → recipient' = recipient ∧
            w'.files recipient.keyFilePath = w.files recipient.keyFilePath := by
    rw [ensures_iff]
    constructor
    · rintro h x w' hrun
      refine ⟨trivial, ?_⟩
      rintro y rfl
      exact h y w' hrun
    · intro h x w' hrun
      exact (h (some x) w' hrun).2 x rfl
  rw [hruns, ensures_decryptMessage_opened hopen]
  by_cases hpath : recipient.keyFilePath = []
  · simp [hpath]
  · simp only [hpath, if_false, false_or]
    have hreturns : (recordUsed recipient.keyFilePath id).Ensures (exec mayFail net) (fun _ => True) w
        (fun x _ => x = .ok ()) ↔ Recordable mayFail recipient.keyFilePath w.files id :=
      recordUsed_returns_iff
    rw [← hreturns]
    constructor
    · intro h
      refine ensures_mono h ?_
      rintro x w' ⟨recipient', outcome, hx, hatomic⟩
      cases x with
      | ok _ => rfl
      | error e =>
          cases hx
          exact absurd (hatomic e rfl).1 hne
    · intro h
      refine ensures_mono h ?_
      rintro _ w' rfl
      exact ⟨_, _, rfl, fun e he => by cases he⟩

/-- **A call that throws changes nothing unless the payload opens under a one-time prekey and
the key file cannot take the record of it**: then the prekey is lost in memory, and the file
may be cut. -/
theorem decryptMessage_atomic_iff (mayFail : FileOp Bytes α → Prop)
    (net : HttpRequest α → σ → Option (HttpResponse α) → σ → Prop) (w : World α σ)
    (payload : List α) (recipient : LocalIdentityKey α) (senderBundle : List α)
    (conversationId senderId recipientId : UInt64) :
    Atomic mayFail net w payload recipient senderBundle conversationId senderId recipientId ↔
      ∀ id, OpensUnder payload recipient senderBundle conversationId senderId recipientId id →
        recipient.keyFilePath = [] ∨ Recordable mayFail recipient.keyFilePath w.files id := by
  simp only [opensUnder_iff]
  cases hopen : openMessage payload recipient senderBundle conversationId senderId recipientId with
  | error e =>
      refine iff_of_true (atomic_of_return (.error e) ?_) ?_
      · rw [decryptMessage, hopen]
        rfl
      · rintro id ⟨plaintext, h⟩
        cases h
  | ok r =>
      obtain ⟨plaintext, id⟩ := r
      cases id with
      | none =>
          refine iff_of_true (atomic_of_return (.ok plaintext) ?_) ?_
          · rw [decryptMessage, hopen]
            rfl
          · rintro id ⟨plaintext, h⟩
            cases h
      | some id =>
          rw [atomic_opened_iff hopen]
          constructor
          · rintro h id' ⟨plaintext', heq⟩
            cases heq
            exact h
          · intro h
            exact h id ⟨plaintext, rfl⟩

omit [FloatFormat] in
/-- A read of the key file that fails costs the prekey, whatever the file holds. -/
theorem decryptMessage_not_atomic : letI := plainFloats; letI := plainCrypto;
    ∃ payload senderBundle : List UInt8, ∀ fs : Files Bytes UInt8,
      ¬ Atomic (· = .read (bytes "/k")) (fun _ _ r (_ : Unit) => r = none) ⟨fs, ()⟩ payload
        (zeroIdentity 1 [5] (bytes "/k")) senderBundle 1 2 3 := by
  let := plainFloats
  let := plainCrypto
  have := lawfulBase64_plain
  have := lawfulDh_plain
  have := lawfulSigning_plain
  have := lawfulAead_plain
  have hs := made_zeroIdentity 1 [] [] (by decide)
  have hr := made_zeroIdentity 1 [5] (bytes "/k") (by decide)
  obtain ⟨_, recipientBundle, -, -, hbundle⟩ := exists_publishes hr (List.Sublist.refl _)
  obtain ⟨_, senderBundle, -, -, hsender⟩ := exists_publishes hs (List.Sublist.refl _)
  obtain ⟨x, w, hrun⟩ := exists_runs (onFiles_total fun _ => False)
    (encryptMessage (bytes "hello") (zeroIdentity 1 [] []) recipientBundle 1 2 3)
    ⟨fun _ => none, ()⟩
  obtain ⟨-, payload, -, hopen⟩ := Ensures.of_runs
    (ensures_encryptMessage (fun _ _ _ => rfl) hs hr (List.Sublist.refl _) hbundle hsender) hrun
  refine ⟨payload, senderBundle, fun fs hatomic => ?_⟩
  rcases (atomic_opened_iff hopen).mp hatomic with hpath | hrecord
  · cases hpath
  · exact hrecord.read rfl

end Kd
