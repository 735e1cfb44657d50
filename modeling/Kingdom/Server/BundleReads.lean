import Kingdom.Codec.JsonValid
import Kingdom.Server.Bundle
import Kingdom.Server.Controller

/-!
# The conversions of a bundle

Creating a message may have to take a one-time prekey out of the recipient's bundle.
The bundle is text another user published, and the ids in it are converted to numbers
without a check.

* `NeedsPreKey`, `Available` — a message has to take a prekey, and the bundle offers it.
* `PreKeyMissing`, `BundleReads` — it has to take one that is not there; the bundle reads.
* `IdsRead` — every entry of the bundle that has an id has a number.
* `consume_error`, `consume_ok` — the transaction throws a JSON exception where an id
  does not read, and says elsewhere whether the prekey was available.
* `createMessage_error` — what else `createMessage` throws.
-/

namespace Kds

open Codec

section Definitions

variable [FloatFormat]

/-- The entry has no id, or a number for it. -/
def IdReads (key : Json UInt8) : Prop :=
  ∀ id, key.get? (bytes "id") = some id → id.uint64?.isSome = true

/-- So have all entries of a published list of one-time prekeys. -/
def IdsRead (text : Bytes) : Prop :=
  ∀ bundle keys, (Json.parse text : Option (Json UInt8)) = some bundle →
    bundle.get? oneTimePreKeysKey = some (.arr keys) → ∀ key ∈ keys, IdReads key

/-- The message has to consume this prekey of this user. -/
def NeedsPreKey (sender : UInt64) (payload : Bytes) (recipient : Option UInt64)
    (user preKey : UInt64) : Prop :=
  recipient = some user ∧ oneTimePreKeyIdFromPayload payload = some preKey ∧ user ≠ sender

/-- The published bundle of the user offers the prekey. -/
def Available (st : Store) (user preKey : UInt64) : Prop :=
  ∃ text, Database.getUserPublicKey st user = some text ∧ PublishedOffers preKey text

/-- The message has to consume a prekey that is not available. -/
def PreKeyMissing (st : Store) (sender : UInt64) (payload : Bytes) (recipient : Option UInt64) :
    Prop :=
  ∃ user preKey, NeedsPreKey sender payload recipient user preKey ∧ ¬ Available st user preKey

/-- The bundle it has to take a prekey from reads. -/
def BundleReads (st : Store) (sender : UInt64) (payload : Bytes) (recipient : Option UInt64) :
    Prop :=
  ∀ user preKey text, NeedsPreKey sender payload recipient user preKey →
    Database.getUserPublicKey st user = some text → IdsRead text

end Definitions

/-! ## Taking a prekey out of a bundle -/

section PreKeys

variable [FloatFormat] {st : Store} {user preKey : UInt64}

theorem isPreKey_ok (preKey : UInt64) {key : Json UInt8} (h : IdReads key) :
    ∃ b, Database.isPreKey preKey key = .ok b := by
  unfold Database.isPreKey
  cases hid : key.get? (bytes "id") with
  | none => exact ⟨false, rfl⟩
  | some id =>
      obtain ⟨n, hn⟩ := Option.isSome_iff_exists.mp (h id hid)
      exact ⟨decide (n = preKey), by simp [hn]⟩

theorem isPreKey_error {key : Json UInt8} (h : ¬ IdReads key) :
    Database.isPreKey preKey key = .error .jsonError := by
  unfold IdReads at h
  simp only [not_forall] at h
  obtain ⟨id, hid, hn⟩ := h
  have hnone : id.uint64? = none := by simpa using hn
  unfold Database.isPreKey
  rw [hid]
  simp [hnone]

/-- `remove_if` looks at every entry. -/
theorem removeIf_reads (preKey : UInt64) {keys : List (Json UInt8)}
    (h : ∀ key ∈ keys, IdReads key) :
    ∃ kept, Database.removeIf (Database.isPreKey preKey) keys = .ok kept := by
  induction keys with
  | nil => exact ⟨[], rfl⟩
  | cons key keys ih =>
      obtain ⟨b, hb⟩ := isPreKey_ok preKey (h key (List.mem_cons_self ..))
      obtain ⟨kept, hkept⟩ := ih fun k hk => h k (List.mem_cons_of_mem _ hk)
      refine ⟨if b then kept else key :: kept, ?_⟩
      rw [Database.removeIf, hb, hkept]
      rfl

theorem removeIf_error {keys : List (Json UInt8)} (h : ¬ ∀ key ∈ keys, IdReads key) :
    Database.removeIf (Database.isPreKey preKey) keys = .error .jsonError := by
  induction keys with
  | nil => exact absurd (by simp) h
  | cons key keys ih =>
      rw [Database.removeIf]
      by_cases hkey : IdReads key
      · obtain ⟨b, hb⟩ := isPreKey_ok preKey hkey
        have hrest : ¬ ∀ k ∈ keys, IdReads k := by
          intro hall
          refine h fun k hk => ?_
          rcases List.mem_cons.mp hk with rfl | hk
          · exact hkey
          · exact hall k hk
        rw [hb, ih hrest]
        rfl
      · rw [isPreKey_error hkey]
        rfl

/-- An id that is not a number stops the transaction. -/
theorem consume_error {text : Bytes} (htext : Database.getUserPublicKey st user = some text)
    (h : ¬ IdsRead text) :
    Database.consumeOneTimePreKeyInTransaction st user preKey = .error .jsonError := by
  unfold IdsRead at h
  simp only [not_forall] at h
  obtain ⟨bundle, keys, hparse, hkeys, key, hkey, hid⟩ := h
  have hall : ¬ ∀ key ∈ keys, IdReads key := fun hall => hid (hall key hkey)
  have harr : (bundle.get? (bytes "oneTimePreKeys")).bind Json.arr? = some keys := by
    rw [show bundle.get? (bytes "oneTimePreKeys") = some (.arr keys) from hkeys]
    rfl
  unfold Database.consumeOneTimePreKeyInTransaction
  rw [htext]
  simp only [hparse, harr, removeIf_error hall]
  rfl

/-- Without one, the transaction says whether the prekey was available. -/
theorem consume_ok (preKey : UInt64)
    (h : ∀ text, Database.getUserPublicKey st user = some text → IdsRead text) :
    ∃ r, Database.consumeOneTimePreKeyInTransaction st user preKey = .ok r ∧
      (r.isSome = true ↔ Available st user preKey) := by
  have hok : ∃ r, Database.consumeOneTimePreKeyInTransaction st user preKey = .ok r := by
    unfold Database.consumeOneTimePreKeyInTransaction
    split
    · exact ⟨none, rfl⟩
    rename_i text htext
    split
    · exact ⟨none, rfl⟩
    rename_i bundle hparse
    split
    · exact ⟨none, rfl⟩
    rename_i keys hkeys
    obtain ⟨field, hfield, harr⟩ := Option.bind_eq_some_iff.mp hkeys
    obtain rfl : field = .arr keys := by
      cases field <;> cases harr
      rfl
    obtain ⟨kept, hkept⟩ := removeIf_reads preKey (h text htext bundle keys hparse hfield)
    have hprintable := Json.printable_of_parse hparse
    have hfields := Json.printable_get? hprintable hfield
    have hkeptPrintable : (Json.arr kept).Printable := by
      rw [removeIf_ok hkept]
      refine Json.printableElems_iff.mpr fun entry hentry => ?_
      exact Json.printableElems_iff.mp hfields entry (List.mem_of_mem_filter hentry)
    obtain ⟨text', htext'⟩ := Json.exists_dump
      (Json.printable_set hprintable (validUtf8_bytes "oneTimePreKeys") hkeptPrintable)
    simp only [hkept, bind, Except.bind]
    split
    · exact ⟨none, rfl⟩
    · rw [htext']
      exact ⟨_, rfl⟩
  obtain ⟨r, hr⟩ := hok
  refine ⟨r, hr, ?_⟩
  cases r with
  | some st' =>
      obtain ⟨text, -, htext, -, -, hoffers⟩ := consumeOneTimePreKey_drops hr
      exact iff_of_true rfl ⟨text, htext, hoffers⟩
  | none =>
      refine iff_of_false (by simp) ?_
      rintro ⟨text, htext, bundle, keys, hparse, hkeys, entry, hentry, hoffers⟩
      exact not_offers_of_refused hr htext hparse hkeys entry hentry hoffers

omit [FloatFormat] in
/-- A reference that does not hold violates a constraint. -/
theorem checkReference_error {holds : Bool} {e : Exn} (h : checkReference holds = .error e) :
    e = constraintViolation := by
  unfold checkReference at h
  split at h
  · cases h
  · exact (Except.error.inj h).symm

/-- The step of `createMessage` that takes the prekey. -/
theorem consumeForMessage_eq (st : Store) {sender : UInt64} {payload : Bytes}
    {recipient : Option UInt64} (h : NeedsPreKey sender payload recipient user preKey) :
    Database.consumeForMessage st sender recipient (oneTimePreKeyIdFromPayload payload) =
      (Database.consumeOneTimePreKeyInTransaction st user preKey).bind fun r =>
        match r with
        | none => .error (.runtimeError (bytes "one-time prekey not found"))
        | some st' => .ok st' := by
  obtain ⟨hrecipient, hpreKey, hne⟩ := h
  rw [hrecipient, hpreKey, Database.consumeForMessage]
  simp only [ne_eq, hne, not_false_eq_true, if_true]
  cases Database.consumeOneTimePreKeyInTransaction st user preKey with
  | error e => rfl
  | ok r => cases r <;> rfl

/-- A message that needs no prekey takes none. -/
theorem consumeForMessage_none {sender : UInt64} {payload : Bytes} {recipient : Option UInt64}
    (h : ∀ user preKey, ¬ NeedsPreKey sender payload recipient user preKey) :
    Database.consumeForMessage st sender recipient (oneTimePreKeyIdFromPayload payload) =
      .ok st := by
  unfold Database.consumeForMessage
  split
  · rename_i user preKey hpreKey
    by_cases hne : user = sender
    · simp [hne]
      rfl
    · exact absurd ⟨rfl, hpreKey, hne⟩ (h user preKey)
  · rfl

section Messages

variable {sender : UInt64} {payload : Bytes} {recipient : Option UInt64}

theorem consumeForMessage_unread (h : ¬ BundleReads st sender payload recipient) :
    Database.consumeForMessage st sender recipient (oneTimePreKeyIdFromPayload payload) =
      .error .jsonError := by
  unfold BundleReads at h
  simp only [not_forall] at h
  obtain ⟨user, preKey, text, hneeds, htext, hids⟩ := h
  rw [consumeForMessage_eq st hneeds, consume_error htext hids]
  rfl

theorem consumeForMessage_missing (hreads : BundleReads st sender payload recipient)
    (h : PreKeyMissing st sender payload recipient) :
    Database.consumeForMessage st sender recipient (oneTimePreKeyIdFromPayload payload) =
      .error (.runtimeError (bytes "one-time prekey not found")) := by
  obtain ⟨user, preKey, hneeds, havailable⟩ := h
  obtain ⟨r, hr, hsome⟩ := consume_ok preKey fun text => hreads user preKey text hneeds
  have hnone : r = none := by
    cases r with
    | none => rfl
    | some st' => exact absurd (hsome.mp rfl) havailable
  rw [consumeForMessage_eq st hneeds, hr, hnone]
  rfl

/-- Otherwise the step is done. -/
theorem exists_consumeForMessage (hreads : BundleReads st sender payload recipient)
    (h : ¬ PreKeyMissing st sender payload recipient) :
    ∃ st', Database.consumeForMessage st sender recipient (oneTimePreKeyIdFromPayload payload) =
      .ok st' := by
  by_cases hneeds : ∃ user preKey, NeedsPreKey sender payload recipient user preKey
  · obtain ⟨user, preKey, hneeds⟩ := hneeds
    obtain ⟨r, hr, hsome⟩ := consume_ok preKey fun text => hreads user preKey text hneeds
    cases r with
    | none =>
        have havailable : ¬ Available st user preKey := fun h => by cases hsome.mpr h
        exact absurd ⟨user, preKey, hneeds, havailable⟩ h
    | some st' =>
        refine ⟨st', ?_⟩
        rw [consumeForMessage_eq st hneeds, hr]
        rfl
  · exact ⟨st, consumeForMessage_none fun user preKey h => hneeds ⟨user, preKey, h⟩⟩

end Messages

/-- After the step that takes the prekey only the schema can refuse the message. -/
theorem createMessage_error {c sender now : UInt64} {payload : Bytes}
    {recipient preKeyId : Option UInt64} {st' : Store} {e : Exn}
    (hconsume : Database.consumeForMessage st sender recipient preKeyId = .ok st')
    (h : Database.createMessage st c sender payload now recipient preKeyId = .error e) :
    e = constraintViolation := by
  unfold Database.createMessage at h
  rw [hconsume] at h
  simp only [bind, Except.bind] at h
  split at h
  · rename_i e' hseq
    unfold nextval at hseq
    split at hseq
    · cases hseq
    · cases h
      exact (Except.error.inj hseq).symm
  split at h
  · rename_i e' he
    cases h
    exact checkReference_error he
  split at h
  · rename_i e' he
    cases h
    exact checkReference_error he
  split at h
  · rename_i e' he
    cases h
    exact checkReference_error he
  cases h

theorem createMessage_of_consume_error {c sender now : UInt64} {payload : Bytes}
    {recipient preKeyId : Option UInt64} {e : Exn}
    (hconsume : Database.consumeForMessage st sender recipient preKeyId = .error e) :
    Database.createMessage st c sender payload now recipient preKeyId = .error e := by
  unfold Database.createMessage
  rw [hconsume]
  rfl

end PreKeys

end Kds
