import Kingdom.Server.StoreInv

/-!
# Published bundles

A user publishes a bundle of keys at signup, as JSON text, and the server takes
one-time prekeys out of it.

* `Offers` — an entry of the bundle offers a one-time prekey.
* `Drops` — a bundle loses the entries of one prekey id and keeps every other
  field; a value is kept up to `Json.norm`, as it is printed and read again.
* `consumeOneTimePreKey_drops` — that is all the server ever does to a bundle.
* `consumeForMessage_drops` — for the message it is done for.
-/

namespace Kds

open Codec

/-- The field the one-time prekeys are published in. -/
def oneTimePreKeysKey : Key := bytes "oneTimePreKeys"

section Bundles

variable [FloatFormat]

/-- The entry offers the prekey with this id. -/
def Offers (preKeyId : UInt64) (entry : Json UInt8) : Prop :=
  Database.isPreKey preKeyId entry = .ok true

instance (preKeyId : UInt64) (entry : Json UInt8) : Decidable (Offers preKeyId entry) :=
  match h : Database.isPreKey preKeyId entry with
  | .ok true => .isTrue h
  | .ok false => .isFalse fun h' => by rw [Offers, h] at h'; cases h'
  | .error _ => .isFalse fun h' => by rw [Offers, h] at h'; cases h'

/-- Printing an entry and reading it again does not change what it offers. -/
theorem offers_norm {preKeyId : UInt64} {entry : Json UInt8} :
    Offers preKeyId entry.norm ↔ Offers preKeyId entry := by
  unfold Offers Database.isPreKey
  rw [Json.get?_norm]
  cases entry.get? (bytes "id") with
  | none => rfl
  | some j =>
      simp only [Option.map_some]
      rw [Json.uint64?_norm]

/-- The published text offers the prekey. -/
def PublishedOffers (preKeyId : UInt64) (text : Bytes) : Prop :=
  ∃ bundle keys, Json.parse text = some bundle ∧
    bundle.get? oneTimePreKeysKey = some (.arr keys) ∧ ∃ entry ∈ keys, Offers preKeyId entry

/-- The text loses the entries of one prekey id and nothing else. -/
def Drops (preKeyId : UInt64) (text text' : Bytes) : Prop :=
  ∃ bundle bundle' keys, Json.parse text = some bundle ∧ Json.parse text' = some bundle' ∧
    bundle.get? oneTimePreKeysKey = some (.arr keys) ∧
    bundle'.get? oneTimePreKeysKey =
      some (.arr ((keys.filter fun entry => ¬ Offers preKeyId entry).map Json.norm)) ∧
    ∀ key, key ≠ oneTimePreKeysKey → bundle'.get? key = (bundle.get? key).map Json.norm

/-- What was dropped is not offered any more. -/
theorem Drops.not_offers {preKeyId : UInt64} {text text' : Bytes} (h : Drops preKeyId text text') :
    ¬ PublishedOffers preKeyId text' := by
  obtain ⟨bundle, bundle', keys, -, hparse', -, hkeys', -⟩ := h
  intro hoffers
  obtain ⟨b, ks, hb, hks, entry, hentry, hoffer⟩ := hoffers
  rw [hparse'] at hb
  cases hb
  rw [hkeys'] at hks
  cases hks
  obtain ⟨e, he, rfl⟩ := List.mem_map.mp hentry
  have hnot := List.of_mem_filter he
  rw [offers_norm] at hoffer
  simp [hoffer] at hnot

/-- What is offered after a drop was offered before. -/
theorem Drops.offers {preKeyId other : UInt64} {text text' : Bytes} (h : Drops preKeyId text text')
    (hoffers : PublishedOffers other text') : PublishedOffers other text := by
  obtain ⟨bundle, bundle', keys, hparse, hparse', hkeys, hkeys', -⟩ := h
  obtain ⟨b, ks, hb, hks, entry, hentry, hoffer⟩ := hoffers
  rw [hparse'] at hb
  cases hb
  rw [hkeys'] at hks
  cases hks
  obtain ⟨e, he, rfl⟩ := List.mem_map.mp hentry
  exact ⟨bundle, keys, hparse, hkeys, e, List.mem_of_mem_filter he, offers_norm.mp hoffer⟩

/-- A drop keeps what other prekeys offer. -/
theorem Drops.offers_other {preKeyId other : UInt64} {text text' : Bytes}
    (h : Drops preKeyId text text') (hne : other ≠ preKeyId) (hoffers : PublishedOffers other text) :
    PublishedOffers other text' := by
  obtain ⟨bundle, bundle', keys, hparse, hparse', hkeys, hkeys', -⟩ := h
  obtain ⟨b, ks, hb, hks, entry, hentry, hoffer⟩ := hoffers
  rw [hparse] at hb
  cases hb
  rw [hkeys] at hks
  cases hks
  have hkept : ¬ Offers preKeyId entry := by
    intro hother
    unfold Offers Database.isPreKey at hoffer hother
    cases hid : entry.get? (bytes "id") with
    | none => simp [hid] at hoffer
    | some j =>
        cases hj : j.uint64? with
        | none => simp [hid, hj] at hoffer
        | some id =>
            simp only [hid, hj, Option.elim_some, Except.ok.injEq, decide_eq_true_eq] at hoffer hother
            exact hne (hoffer.symm.trans hother)
  refine ⟨bundle', _, hparse', hkeys', entry.norm, ?_, offers_norm.mpr hoffer⟩
  exact List.mem_map_of_mem (List.mem_filter.mpr ⟨hentry, by simpa using hkept⟩)

/-! ## The transaction -/

/-- `remove_if` keeps the entries that do not offer the prekey. -/
theorem removeIf_ok {preKeyId : UInt64} {entries kept : List (Json UInt8)}
    (h : Database.removeIf (Database.isPreKey preKeyId) entries = .ok kept) :
    kept = entries.filter fun entry => ¬ Offers preKeyId entry := by
  induction entries generalizing kept with
  | nil =>
      cases h
      rfl
  | cons entry entries ih =>
      rw [Database.removeIf] at h
      cases hd : Database.isPreKey preKeyId entry with
      | error e =>
          rw [hd] at h
          cases h
      | ok drop =>
          rw [hd] at h
          cases hrest : Database.removeIf (Database.isPreKey preKeyId) entries with
          | error e =>
              rw [hrest] at h
              cases h
          | ok rest =>
              rw [hrest] at h
              cases h
              rw [ih hrest]
              cases drop with
              | true => simp [Offers, hd]
              | false => simp [Offers, hd]

omit [FloatFormat] in
/-- The bundle of one user after that of another was rewritten. -/
theorem getUserPublicKey_setPublicKey (s : Store) (r u : UInt64) (text : Bytes) :
    Database.getUserPublicKey (Database.setPublicKey s (bigint u) text) r =
      if r = u then (Database.getUserPublicKey s r).map fun _ => text
      else Database.getUserPublicKey s r := by
  have hid : (fun row : UserRow => decide (row.id = bigint r)) ∘
      (fun row => if row.id = bigint u then { row with publicKey := text } else row) =
        fun row => decide (row.id = bigint r) := by
    funext row
    by_cases h : row.id = bigint u <;> simp [h]
  rw [Database.getUserPublicKey, Database.setPublicKey, List.find?_map, hid, Option.map_map,
    Database.getUserPublicKey]
  cases hfind : s.users.find? fun row => decide (row.id = bigint r) with
  | none => simp
  | some row =>
      have hrow : row.id = bigint r := by simpa using List.find?_some hfind
      by_cases h : r = u <;> simp [hrow, h]

/-- **The server changes a bundle by dropping one prekey id**, which the bundle
offered. -/
theorem consumeOneTimePreKey_drops {s s' : Store} {userId preKeyId : UInt64}
    (h : Database.consumeOneTimePreKeyInTransaction s userId preKeyId = .ok (some s')) :
    ∃ text text', Database.getUserPublicKey s userId = some text ∧
      s' = Database.setPublicKey s (bigint userId) text' ∧ Drops preKeyId text text' ∧
      PublishedOffers preKeyId text := by
  unfold Database.consumeOneTimePreKeyInTransaction at h
  split at h
  · cases h
  rename_i text htext
  split at h
  · cases h
  rename_i bundle hbundle
  split at h
  · cases h
  rename_i keys hkeys
  obtain ⟨field, hfield, harr⟩ := Option.bind_eq_some_iff.mp hkeys
  obtain rfl : field = .arr keys := by
    cases field <;> cases harr
    rfl
  replace hfield : bundle.get? oneTimePreKeysKey = some (.arr keys) := hfield
  cases hkept : Database.removeIf (Database.isPreKey preKeyId) keys with
  | error e =>
      rw [hkept] at h
      cases h
  | ok kept =>
      rw [hkept] at h
      simp only [bind, Except.bind] at h
      split_ifs at h with hlength
      · cases h
      split at h
      · cases h
      rename_i text' hdump
      cases h
      have hfilter := removeIf_ok hkept
      have hobj : bundle.isObject = true := Json.isObject_of_get? hfield
      have hwf : bundle.WF := Json.wf_of_parse hbundle
      have hwf' : (bundle.set oneTimePreKeysKey (.arr kept)).WF := by
        refine Json.wf_set hwf (Json.wfElems_iff.mpr ?_)
        intro x hx
        rw [hfilter] at hx
        have hkeysWF : (Json.arr keys).WF := Json.wf_get? hwf hfield
        exact Json.wfElems_iff.mp hkeysWF x (List.mem_of_mem_filter hx)
      have hparse' : Json.parse text' =
          some (bundle.set oneTimePreKeysKey (.arr kept)).norm := Json.parse_dump hdump hwf'
      refine ⟨text, text', htext, rfl, ⟨bundle, _, keys, hbundle, hparse', hfield, ?_, ?_⟩, bundle,
        keys, hbundle, hfield, ?_⟩
      · rw [Json.get?_norm, Json.get?_set hobj, if_pos rfl, hfilter, Option.map_some, Json.norm,
          Json.normElems_eq_map]
      · intro key hkey
        rw [Json.get?_norm, Json.get?_set hobj, if_neg (Ne.symm hkey)]
      · -- some entry was removed, for the array got shorter
        by_contra hnone
        refine hlength ?_
        rw [hfilter, List.filter_eq_self.mpr]
        intro entry hentry
        simpa using fun ho : Offers preKeyId entry => hnone ⟨entry, hentry, ho⟩

/-- A bundle that is left as it was offers no such prekey. -/
theorem not_offers_of_refused {s : Store} {userId preKeyId : UInt64} {text : Bytes}
    {bundle : Json UInt8} {keys : List (Json UInt8)}
    (h : Database.consumeOneTimePreKeyInTransaction s userId preKeyId = .ok none)
    (htext : Database.getUserPublicKey s userId = some text) (hparse : Json.parse text = some bundle)
    (hkeys : bundle.get? oneTimePreKeysKey = some (.arr keys)) :
    ∀ entry ∈ keys, ¬ Offers preKeyId entry := by
  have harr : (bundle.get? (bytes "oneTimePreKeys")).bind Json.arr? = some keys := by
    rw [show bundle.get? (bytes "oneTimePreKeys") = some (.arr keys) from hkeys]
    rfl
  rw [Database.consumeOneTimePreKeyInTransaction, htext] at h
  simp only [hparse, harr] at h
  cases hkept : Database.removeIf (Database.isPreKey preKeyId) keys with
  | error e =>
      rw [hkept] at h
      cases h
  | ok kept =>
      rw [hkept] at h
      simp only [bind, Except.bind] at h
      split_ifs at h with hlength
      · intro entry hentry
        rw [removeIf_ok hkept] at hlength
        simpa using List.length_filter_eq_length_iff.mp hlength entry hentry
      · split at h <;> cases h

/-- What the one-time prekey step of a message does: the recipient's bundle drops
the prekey of the message, when there are both. -/
theorem consumeForMessage_drops {s s' : Store} {senderId : UInt64}
    {recipientId preKeyId : Option UInt64}
    (h : Database.consumeForMessage s senderId recipientId preKeyId = .ok s') :
    (∃ r k text text', recipientId = some r ∧ preKeyId = some k ∧ r ≠ senderId ∧
      Database.getUserPublicKey s r = some text ∧
      s' = Database.setPublicKey s (bigint r) text' ∧ Drops k text text' ∧
      PublishedOffers k text) ∨
    ((∀ r ∈ recipientId, r ≠ senderId → preKeyId = none) ∧ s' = s) := by
  unfold Database.consumeForMessage at h
  split at h
  · rename_i r k
    split_ifs at h with hne
    · cases hc : Database.consumeOneTimePreKeyInTransaction s r k with
      | error e =>
          rw [hc] at h
          cases h
      | ok x =>
          rw [hc] at h
          cases x with
          | none => cases h
          | some t =>
              cases h
              obtain ⟨text, text', htext, hs, hdrops, hoffers⟩ := consumeOneTimePreKey_drops hc
              exact .inl ⟨r, k, text, text', rfl, rfl, hne, htext, hs, hdrops, hoffers⟩
    · cases h
      refine .inr ⟨?_, rfl⟩
      rintro r' ⟨⟩ hr'
      exact absurd hr' hne
  · rename_i hnone
    cases h
    refine .inr ⟨?_, rfl⟩
    intro r hr _
    cases hk : preKeyId with
    | none => rfl
    | some k => exact absurd hk (hnone r k hr)

end Bundles

end Kds
