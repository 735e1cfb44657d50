import Kingdom.Client.KeyBundle
import Kingdom.Client.Pins
import Kingdom.Server.Bundle

/-!
# Rewritten bundles

The server prints a user's bundle again each time it takes a one-time prekey out
of it; the contacts of the user validate it and compare it with their pins.

* `Consumed` — one-time prekeys taken out of the bundle of one user.
* `Rewritten` — the bundle keeps every field but the list of one-time prekeys,
  which loses entries.
* `consumed_rewritten` — that is all any number of consumptions do.
* `rewrites_invisible` — so validation and pinning see no difference.
-/

namespace Protocol

open Codec Kd

section Rewrites

variable [FloatFormat]

/-- One-time prekeys the server was asked to take out of a user's bundle, one
transaction each. -/
inductive Consumed (userId : UInt64) (s₀ : Kds.Store) : List UInt64 → Kds.Store → Prop where
  | nil : Consumed userId s₀ [] s₀
  | snoc {ids s preKeyId taken} (h : Consumed userId s₀ ids s)
      (htxn : Kds.Database.consumeOneTimePreKeyInTransaction s userId preKeyId = .ok taken) :
      Consumed userId s₀ (ids ++ [preKeyId]) (taken.getD s)

/-- The entry offers none of these prekeys. -/
def OffersNone (ids : List UInt64) (entry : Json UInt8) : Prop := ∀ k ∈ ids, ¬ Kds.Offers k entry

instance (ids : List UInt64) (entry : Json UInt8) : Decidable (OffersNone ids entry) :=
  inferInstanceAs (Decidable (∀ k ∈ ids, _))

/-- The bundle without the entries of some one-time prekeys, as it reads after it was
printed. -/
structure Rewritten (ids : List UInt64) (bundle bundle' : Json UInt8) : Prop where
  fields : ∀ key, key ≠ Kds.oneTimePreKeysKey →
    (bundle'.get? key).map Json.norm = (bundle.get? key).map Json.norm
  contains : bundle'.contains Kds.oneTimePreKeysKey = bundle.contains Kds.oneTimePreKeysKey
  keys : ∀ keys, bundle.get? Kds.oneTimePreKeysKey = some (.arr keys) →
    ∃ keys', bundle'.get? Kds.oneTimePreKeysKey = some (.arr keys') ∧
      keys'.map Json.norm = (keys.filter fun entry => OffersNone ids entry).map Json.norm

theorem Rewritten.refl (bundle : Json UInt8) : Rewritten [] bundle bundle where
  fields _ _ := rfl
  contains := rfl
  keys keys h := by
    refine ⟨keys, h, ?_⟩
    rw [List.filter_eq_self.mpr (by simp [OffersNone])]

omit [FloatFormat] in
/-- Filtering entries commutes with printing them. -/
theorem map_norm_filter {p : Json UInt8 → Bool} (hp : ∀ entry, p entry.norm = p entry)
    (keys : List (Json UInt8)) :
    (keys.filter p).map Json.norm = (keys.map Json.norm).filter p := by
  rw [List.filter_map]
  congr 1
  exact List.filter_congr fun entry _ => (hp entry).symm

/-- One more prekey is dropped. -/
theorem Rewritten.drop {ids : List UInt64} {preKeyId : UInt64} {bundle : Json UInt8}
    {text text' : Kds.Bytes} {bundle' : Json UInt8} (h : Rewritten ids bundle bundle')
    (hparse : Json.parse text = some bundle') (hdrops : Kds.Drops preKeyId text text') :
    ∃ bundle'', Json.parse text' = some bundle'' ∧
      Rewritten (ids ++ [preKeyId]) bundle bundle'' := by
  obtain ⟨b, bundle'', keys', hb, hparse'', hkeys', hkeys'', hfields⟩ := hdrops
  obtain rfl : b = bundle' := Option.some.inj (hb.symm.trans hparse)
  refine ⟨bundle'', hparse'', fun key hkey => ?_, ?_, fun keys hkeys => ?_⟩
  · rw [hfields key hkey, Option.map_map, ← h.fields key hkey]
    congr 1
    funext v
    exact Json.norm_norm v
  · rw [← h.contains, Json.contains, hkeys'', Json.contains, hkeys']
    rfl
  · obtain ⟨keys₁, hkeys₁, heq⟩ := h.keys keys hkeys
    obtain rfl : keys₁ = keys' := by
      rw [hkeys'] at hkeys₁
      cases hkeys₁
      rfl
    refine ⟨_, hkeys'', ?_⟩
    have hone : ∀ entry : Json UInt8, decide (¬ Kds.Offers preKeyId entry.norm) =
        decide (¬ Kds.Offers preKeyId entry) := by
      intro entry
      simp only [Kds.offers_norm]
    have hall : ∀ entry : Json UInt8, decide (OffersNone (ids ++ [preKeyId]) entry) =
        (decide (¬ Kds.Offers preKeyId entry) && decide (OffersNone ids entry)) := by
      intro entry
      rw [← Bool.decide_and, decide_eq_decide, OffersNone, List.forall_mem_append,
        List.forall_mem_singleton]
      exact and_comm
    calc ((keys₁.filter fun entry => ¬ Kds.Offers preKeyId entry).map Json.norm).map Json.norm
        = (keys₁.filter fun entry => ¬ Kds.Offers preKeyId entry).map Json.norm := by
          rw [List.map_map]
          exact List.map_congr_left fun v _ => Json.norm_norm v
      _ = (keys₁.map Json.norm).filter fun entry => ¬ Kds.Offers preKeyId entry :=
          map_norm_filter hone keys₁
      _ = ((keys.filter fun entry => OffersNone ids entry).filter
            fun entry => ¬ Kds.Offers preKeyId entry).map Json.norm := by
          rw [heq, ← map_norm_filter hone]
      _ = (keys.filter fun entry => OffersNone (ids ++ [preKeyId]) entry).map Json.norm := by
          rw [List.filter_filter]
          simp only [hall]

/-- A prekey that is not offered is not there to drop. -/
theorem Rewritten.refuse {ids : List UInt64} {preKeyId : UInt64} {bundle bundle' : Json UInt8}
    (h : Rewritten ids bundle bundle')
    (hnone : ∀ keys, bundle'.get? Kds.oneTimePreKeysKey = some (.arr keys) →
      ∀ entry ∈ keys, ¬ Kds.Offers preKeyId entry) : Rewritten (ids ++ [preKeyId]) bundle bundle' where
  fields := h.fields
  contains := h.contains
  keys keys hkeys := by
    obtain ⟨keys', hkeys', heq⟩ := h.keys keys hkeys
    refine ⟨keys', hkeys', heq.trans (congrArg (List.map Json.norm) ?_)⟩
    refine List.filter_congr fun entry hentry => decide_eq_decide.mpr ?_
    rw [OffersNone, OffersNone, List.forall_mem_append, List.forall_mem_singleton]
    refine ⟨fun hids => ⟨hids, fun hoffers => ?_⟩, fun hall => hall.1⟩
    -- the entry is still there, as it was printed
    have hmem : entry.norm ∈ keys'.map Json.norm := by
      rw [heq]
      exact List.mem_map_of_mem (List.mem_filter.mpr ⟨hentry, decide_eq_true hids⟩)
    obtain ⟨entry', hentry', hnorm⟩ := List.mem_map.mp hmem
    refine hnone keys' hkeys' entry' hentry' ?_
    rw [← Kds.offers_norm, hnorm, Kds.offers_norm]
    exact hoffers

/-- **What any number of consumptions make of a bundle.** -/
theorem consumed_rewritten {userId : UInt64} {s₀ s : Kds.Store} {ids : List UInt64}
    (h : Consumed userId s₀ ids s) {text : Kds.Bytes} {bundle : Json UInt8}
    (htext : Kds.Database.getUserPublicKey s₀ userId = some text)
    (hparse : Json.parse text = some bundle) :
    ∃ text' bundle', Kds.Database.getUserPublicKey s userId = some text' ∧
      Json.parse text' = some bundle' ∧ Rewritten ids bundle bundle' := by
  induction h with
  | nil => exact ⟨text, bundle, htext, hparse, .refl bundle⟩
  | @snoc ids s preKeyId taken hrun htxn ih =>
      obtain ⟨text', bundle', htext', hparse', hrewritten⟩ := ih
      cases taken with
      | none =>
          exact ⟨text', bundle', htext', hparse', hrewritten.refuse fun keys hkeys =>
            Kds.not_offers_of_refused htxn htext' hparse' hkeys⟩
      | some s' =>
          obtain ⟨t, text'', ht, rfl, hdrops, -⟩ := Kds.consumeOneTimePreKey_drops htxn
          obtain rfl : t = text' := Option.some.inj (ht.symm.trans htext')
          obtain ⟨bundle'', hparse'', hrewritten'⟩ := hrewritten.drop hparse' hdrops
          refine ⟨text'', bundle'', ?_, hparse'', hrewritten'⟩
          rw [Option.getD_some, Kds.getUserPublicKey_setPublicKey, if_pos rfl, htext']
          rfl

/-! ## What the client sees -/

variable [Crypto UInt8]

omit [FloatFormat] [Crypto UInt8] in
/-- A value that prints as a string is that string. -/
theorem eq_str_of_norm {v : Json UInt8} {t : Kd.Bytes} (h : v.norm = (Json.str t).norm) :
    v = .str t := by
  have hstr : v.str? = some t := by rw [← Json.str?_norm, h]; rfl
  cases v <;> cases hstr
  rfl

omit [FloatFormat] [Crypto UInt8] in
/-- A field of a value that prints as another. -/
theorem get?_of_norm {j j' v : Json UInt8} {key : Key}
    (h : (j'.get? key).map Json.norm = (j.get? key).map Json.norm) (hv : j.get? key = some v) :
    ∃ v', j'.get? key = some v' ∧ v'.norm = v.norm := by
  rw [hv] at h
  exact Option.map_eq_some_iff.mp h

omit [Crypto UInt8] in
/-- **A rewritten bundle has the fields it had.** -/
theorem Rewritten.of {ids : List UInt64} {bundle bundle' : Json UInt8}
    (h : Rewritten ids bundle bundle') {f : BundleFields UInt8} (hf : f.Of bundle) :
    f.Of bundle' := by
  have hstr : ∀ {key : Key} {t : Kd.Bytes}, key ≠ Kds.oneTimePreKeysKey →
      bundle.get? key = some (.str t) → bundle'.get? key = some (.str t) := by
    intro key t hkey ht
    obtain ⟨v', hv', hnorm⟩ := get?_of_norm (h.fields key hkey) ht
    rw [hv', eq_str_of_norm hnorm]
  refine ⟨?_, hstr (by decide) hf.algorithm, hstr (by decide) hf.identityKey,
    hstr (by decide) hf.signingKey, ?_, h.contains.trans hf.oneTimePreKeys⟩
  · obtain ⟨v, hv, hone⟩ := hf.version
    obtain ⟨v', hv', hnorm⟩ := get?_of_norm (h.fields _ (by decide)) hv
    refine ⟨v', hv', ?_⟩
    rw [← Json.int?_norm, hnorm, Json.int?_norm, hone]
  · obtain ⟨spk, id, hspk, hid, hidv, hpub, hsig⟩ := hf.signedPreKey
    obtain ⟨spk', hspk', hnorm⟩ := get?_of_norm (h.fields _ (by decide)) hspk
    have hfield : ∀ key, (spk'.get? key).map Json.norm = (spk.get? key).map Json.norm := by
      intro key
      rw [← Json.get?_norm, hnorm, Json.get?_norm]
    obtain ⟨id', hid', hidn⟩ := get?_of_norm (hfield _) hid
    obtain ⟨pub', hpub', hpubn⟩ := get?_of_norm (hfield _) hpub
    obtain ⟨sig', hsig', hsign⟩ := get?_of_norm (hfield _) hsig
    refine ⟨spk', id', hspk', hid', ?_, ?_, ?_⟩
    · rw [← Json.uint64?_norm, hidn, Json.uint64?_norm, hidv]
    · rw [hpub', eq_str_of_norm hpubn]
    · rw [hsig', eq_str_of_norm hsign]

omit [Crypto UInt8] in
/-- The anchor of a bundle is made of two of its fields. -/
theorem anchorFields_of {text : Kd.Bytes} {bundle : Json UInt8} {f : BundleFields UInt8}
    (hparse : Json.parse text = some bundle) (hf : f.Of bundle) :
    anchorFields text = some (f.identityKey, f.signingKey) := by
  simp [anchorFields, hparse, hf.identityKey, hf.signingKey, Json.str?]

/-- **Rewriting a bundle is invisible to validation and pinning**: a valid bundle
stays valid and keeps its anchor and its fields, and its one-time prekeys are the
ones it had without those that were taken, in their order. -/
theorem rewrites_invisible {userId : UInt64} {s₀ s : Kds.Store} {ids : List UInt64}
    {text : Kd.Bytes} {bundle : Json UInt8} {label : String} (h : Consumed userId s₀ ids s)
    (htext : Kds.Database.getUserPublicKey s₀ userId = some text)
    (hparse : parseJson text label = .ok bundle) (hvalid : validateBundle bundle = .ok ()) :
    ∃ text' bundle', Kds.Database.getUserPublicKey s userId = some text' ∧
      parseJson text' label = .ok bundle' ∧ validateBundle bundle' = .ok () ∧
      pinningAnchor text' = pinningAnchor text ∧
      (∃ f : BundleFields UInt8, f.Of bundle ∧ f.Of bundle') ∧ Rewritten ids bundle bundle' := by
  obtain ⟨hparse', hobj⟩ := Option.filter_eq_some_iff.mp (orThrow_ok.mp hparse)
  obtain ⟨f, hf, hfvalid⟩ := validateBundle_ok.mp hvalid
  obtain ⟨text', bundle', htext', hparse'', hrewritten⟩ := consumed_rewritten h htext hparse'
  have hf' := hrewritten.of hf
  refine ⟨text', bundle', htext', orThrow_ok.mpr ?_, validateBundle_ok.mpr ⟨f, hf', hfvalid⟩,
    pinningAnchor_congr (anchorFields_of hparse'' hf') (anchorFields_of hparse' hf), ⟨f, hf, hf'⟩,
    hrewritten⟩
  exact Option.filter_eq_some_iff.mpr ⟨hparse'', Json.isObject_of_get? hf'.algorithm⟩

end Rewrites

/-! ## A bundle with two one-time prekeys -/

/-- The bundle of a user with the keys made of zeros. -/
def exampleBundleText : Kd.Bytes :=
  letI := plainCrypto
  let key (id : UInt64) : LocalPreKey UInt8 := ⟨id, fit 32 [], base64Encode (fit 32 [])⟩
  let identity : LocalIdentityKey UInt8 := ⟨base64Encode (fit 32 []), fit 32 [],
    base64Encode (fit 32 []), fit 64 [], key 1, [key 7, key 8], []⟩
  ((publicBundle identity).toOption.bind Json.dump).getD []

/-- A server with one user, who publishes it. -/
def exampleBundleStore : Kds.Store :=
  { Kds.Store.empty with users := [⟨1, bytes "bob", bytes "p", exampleBundleText⟩], userSeq := 1 }

/-- The server after it took prekey 7. -/
def exampleBundleTaken : Kds.Store :=
  letI := plainFloats
  ((Kds.Database.consumeOneTimePreKeyInTransaction exampleBundleStore 1 7).toOption.join).getD
    exampleBundleStore

/-- What the example computes: the two consumptions, and the bundle before and after them. -/
theorem exampleBundle_eval : letI := plainCrypto; letI := plainFloats;
    Kds.Database.consumeOneTimePreKeyInTransaction exampleBundleStore 1 7 =
        .ok (some exampleBundleTaken) ∧
      Kds.Database.consumeOneTimePreKeyInTransaction exampleBundleTaken 1 9 = .ok none ∧
      Kds.Database.getUserPublicKey exampleBundleStore 1 = some exampleBundleText ∧
      Kds.Database.getUserPublicKey exampleBundleTaken 1 ≠ some exampleBundleText ∧
      (parseJson exampleBundleText "bundle" >>= validateBundle) = .ok () := by
  decide +kernel

/-- The server takes prekey 7, and is then asked for one that is not there. -/
theorem rewrites_invisible_example : letI := plainCrypto; letI := plainFloats;
    ∃ s text' bundle', Consumed 1 exampleBundleStore [7, 9] s ∧ text' ≠ exampleBundleText ∧
      Kds.Database.getUserPublicKey s 1 = some text' ∧ parseJson text' "bundle" = .ok bundle' ∧
      validateBundle bundle' = .ok () ∧ pinningAnchor text' = pinningAnchor exampleBundleText := by
  let := plainCrypto
  let := plainFloats
  obtain ⟨h7, h9, htext, hchanged, hbundle⟩ := exampleBundle_eval
  have hrun : Consumed 1 exampleBundleStore [7, 9] exampleBundleTaken := (Consumed.nil.snoc h7).snoc h9
  obtain ⟨bundle, hparse, hvalid⟩ := bind_ok.mp hbundle
  obtain ⟨text', bundle', htext', hparse', hvalid', hanchor, -⟩ :=
    rewrites_invisible hrun htext hparse hvalid
  refine ⟨exampleBundleTaken, text', bundle', hrun, ?_, htext', hparse', hvalid', hanchor⟩
  rintro rfl
  exact hchanged htext'

end Protocol
