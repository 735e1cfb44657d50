import Kingdom.Client.KeyFile

/-!
# Encrypted messages

The two ends of a message: what `encryptMessage` puts into a payload, and when
`decryptMessage` opens one.

* `PayloadFields` — what a payload says, read as `decryptMessage` reads it.
* `openMessage_ok` — the payloads that open.
-/

namespace Kd

open Codec Process Storage

variable {α : Type} [Alphabet α] [Crypto α] [FloatFormat]

/-! ## The fields of a payload -/

/-- What a payload says; nonce and ciphertext are decoded. -/
structure PayloadFields (α : Type) where
  senderIdentityKey : List α
  senderEphemeralKey : List α
  signedPreKeyId : UInt64
  oneTimePreKeyId : Option UInt64
  nonce : List α
  ciphertext : List α

/-- The value names this prekey, or none. -/
def NamesPreKey (v : Json α) : Option UInt64 → Prop
  | none => v = .null
  | some id => v.uint64? = some id

/-- The payload has these fields. -/
structure PayloadFields.Of (f : PayloadFields α) (payload : Json α) : Prop where
  version : ∃ v, payload.get? (bytes "version") = some v ∧ v.int? = some 1
  algorithm : payload.get? (bytes "algorithm") = some (.str (lit kPayloadAlgorithm))
  senderIdentityKey :
    payload.get? (bytes "senderIdentityPublicKey") = some (.str f.senderIdentityKey)
  senderEphemeralKey :
    payload.get? (bytes "senderEphemeralPublicKey") = some (.str f.senderEphemeralKey)
  signedPreKeyId : ∃ v, payload.get? (bytes "signedPreKeyId") = some v ∧
    v.uint64? = some f.signedPreKeyId
  oneTimePreKeyId : ∃ v, payload.get? (bytes "oneTimePreKeyId") = some v ∧
    NamesPreKey v f.oneTimePreKeyId
  nonce : ∃ s, payload.get? (bytes "nonce") = some (.str s) ∧ Decodes 24 s f.nonce
  ciphertext : ∃ s, payload.get? (bytes "ciphertext") = some (.str s) ∧
    Crypto.base64Decode s = some f.ciphertext ∧ 16 ≤ f.ciphertext.length

omit [Crypto α] [Alphabet α] in
/-- **The prekey a payload names is the one the recipient takes.** -/
theorem selectOneTimePreKey_ok {payload : Json α} {keys : List (LocalPreKey α)}
    {key : Option (LocalPreKey α)} :
    selectOneTimePreKey payload keys = .ok key ↔
      ∃ v id, payload.get? (bytes "oneTimePreKeyId") = some v ∧ NamesPreKey v id ∧
        id = key.map (·.id) ∧ ∀ k ∈ key, keys.find? (fun x => x.id = k.id) = some k := by
  simp only [selectOneTimePreKey, bind_ok, at'_ok]
  constructor
  · rintro ⟨v, hv, h⟩
    split at h
    · cases h
      exact ⟨_, none, hv, rfl, rfl, by simp⟩
    · simp only [bind_ok, getUInt64_ok, orThrow_ok, pure_ok] at h
      obtain ⟨id, hid, k, hfind, rfl⟩ := h
      have hkid : k.id = id := by simpa using List.find?_some hfind
      refine ⟨v, some id, hv, hid, by rw [Option.map_some, hkid], ?_⟩
      rintro _ ⟨⟩
      rw [hkid]
      exact hfind
  · rintro ⟨v, id, hv, hnames, rfl, hkey⟩
    refine ⟨v, hv, ?_⟩
    cases key with
    | none =>
        obtain rfl : v = .null := hnames
        rfl
    | some k =>
        have hid : v.uint64? = some k.id := hnames
        split
        · cases hid
        · simp only [bind_ok, getUInt64_ok, orThrow_ok, pure_ok]
          exact ⟨k.id, hid, k, hkey k rfl, rfl⟩

omit [Crypto α] in
theorem parseJson_ok {text : List α} {label : String} {j : Json α} :
    parseJson text label = .ok j ↔ Json.parse text = some j ∧ j.isObject = true := by
  rw [parseJson, orThrow_ok, Option.filter_eq_some_iff]

theorem wf_payloadJson (senderPublicKey ephemeralPublicKey : List α) (signedPreKeyId : UInt64)
    (oneTimePreKeyId : Option UInt64) (nonce ciphertext : List α) :
    (payloadJson senderPublicKey ephemeralPublicKey signedPreKeyId oneTimePreKeyId nonce
      ciphertext).WF := by
  have hid : (optionalId oneTimePreKeyId : Json α).WF := by
    cases oneTimePreKeyId <;> trivial
  refine Json.wf_mkObj ?_
  simp [Json.WF, hid]

/-- The fields of a payload that was printed. -/
theorem payloadFields_of [LawfulBase64 α] {f : PayloadFields α} {text : List α} (label : String)
    (hnonce : f.nonce.length = 24) (hciphertext : 16 ≤ f.ciphertext.length)
    (h : (payloadJson f.senderIdentityKey f.senderEphemeralKey f.signedPreKeyId f.oneTimePreKeyId
      f.nonce f.ciphertext).dump = some text) :
    ∃ j, parseJson text label = .ok j ∧ f.Of j := by
  have hid : (optionalId f.oneTimePreKeyId : Json α).norm = optionalId f.oneTimePreKeyId ∧
      NamesPreKey (optionalId f.oneTimePreKeyId : Json α) f.oneTimePreKeyId := by
    cases f.oneTimePreKeyId with
    | none => exact ⟨rfl, rfl⟩
    | some id => exact ⟨rfl, rfl⟩
  have hnorm : (payloadJson f.senderIdentityKey f.senderEphemeralKey f.signedPreKeyId
      f.oneTimePreKeyId f.nonce f.ciphertext).norm = payloadJson f.senderIdentityKey
        f.senderEphemeralKey f.signedPreKeyId f.oneTimePreKeyId f.nonce f.ciphertext := by
    simp [payloadJson, Json.norm_mkObj, Json.norm, hid.1]
  refine ⟨_, parseJson_ok.mpr ⟨Json.parse_dump h (wf_payloadJson _ _ _ _ _ _), ?_⟩, ?_⟩
  · rw [Json.isObject_norm]
    exact Json.isObject_mkObj _
  · rw [hnorm]
    refine ⟨⟨.unsigned 1, ?_, rfl⟩, ?_, ?_, ?_, ⟨.unsigned f.signedPreKeyId, ?_, rfl⟩,
      ⟨_, ?_, hid.2⟩, ⟨_, ?_, decodes_encode hnonce⟩,
      ⟨_, ?_, LawfulBase64.decode_iff.mpr rfl, hciphertext⟩⟩
    all_goals
      rw [payloadJson, Json.get?_mkObj]
      simp +decide [Json.lookup, base64Encode]

omit [Crypto α] [Alphabet α] in
/-- A value names one prekey, or none. -/
theorem NamesPreKey.unique {v : Json α} {id id' : Option UInt64} (h : NamesPreKey v id)
    (h' : NamesPreKey v id') : id = id' := by
  cases id with
  | none =>
      obtain rfl : v = .null := h
      cases id' with
      | none => rfl
      | some n => cases h'
  | some m =>
      cases id' with
      | none =>
          obtain rfl : v = .null := h'
          cases h
      | some n => exact Eq.trans (Eq.symm h) h'

/-- What a payload says is determined by it. -/
theorem PayloadFields.Of.unique {f f' : PayloadFields α} {payload : Json α} (h : f.Of payload)
    (h' : f'.Of payload) : f = f' := by
  obtain ⟨sik, sek, spk, id, nonce, ciphertext⟩ := f
  obtain ⟨sik', sek', spk', id', nonce', ciphertext'⟩ := f'
  obtain ⟨-, -, hsik, hsek, ⟨v, hv, hspk⟩, ⟨u, hu, hid⟩, ⟨s, hs, hnonce⟩, t, ht, hciphertext, -⟩ := h
  obtain ⟨-, -, hsik', hsek', ⟨v', hv', hspk'⟩, ⟨u', hu', hid'⟩, ⟨s', hs', hnonce'⟩, t', ht',
    hciphertext', -⟩ := h'
  have hsik := hsik.symm.trans hsik'
  have hsek := hsek.symm.trans hsek'
  cases hv.symm.trans hv'
  cases hu.symm.trans hu'
  cases hs.symm.trans hs'
  cases ht.symm.trans ht'
  cases hsik
  cases hsek
  cases hspk.symm.trans hspk'
  cases hid.unique hid'
  cases hnonce.1.symm.trans hnonce'.1
  cases hciphertext.symm.trans hciphertext'
  rfl

omit [Crypto α] in
/-- **Associated data tells contexts apart.** -/
theorem associatedData_inj {conversationId senderId recipientId conversationId' senderId'
    recipientId' signedPreKeyId signedPreKeyId' : UInt64} {id id' : Option UInt64}
    {sender ephemeral recipient sender' ephemeral' recipient' text : List α}
    (h : (associatedData conversationId senderId recipientId sender ephemeral recipient
      signedPreKeyId id).dump = some text)
    (h' : (associatedData conversationId' senderId' recipientId' sender' ephemeral' recipient'
      signedPreKeyId' id').dump = some text) :
    conversationId = conversationId' ∧ senderId = senderId' ∧ recipientId = recipientId' ∧
      sender = sender' ∧ ephemeral = ephemeral' ∧ recipient = recipient' ∧
      signedPreKeyId = signedPreKeyId' ∧ id = id' := by
  have hid : ∀ id : Option UInt64, (optionalId id : Json α).WF ∧
      (optionalId id : Json α).norm = optionalId id := by
    intro id
    cases id <;> exact ⟨trivial, rfl⟩
  have hwf : ∀ (c s r k : UInt64) (i : Option UInt64) (x y z : List α),
      (associatedData c s r x y z k i).WF := by
    intro c s r k i x y z
    refine Json.wf_mkObj ?_
    simp [Json.WF, (hid i).1]
  have hnorm : ∀ (c s r k : UInt64) (i : Option UInt64) (x y z : List α),
      (associatedData c s r x y z k i).norm = associatedData c s r x y z k i := by
    intro c s r k i x y z
    simp [associatedData, Json.norm_mkObj, Json.norm, (hid i).2]
  have heq := Json.dump_inj h h' (hwf ..) (hwf ..)
  rw [hnorm, hnorm] at heq
  have hget : ∀ key, (associatedData conversationId senderId recipientId sender ephemeral recipient
      signedPreKeyId id).get? (bytes key) = (associatedData conversationId' senderId' recipientId'
        sender' ephemeral' recipient' signedPreKeyId' id').get? (bytes key) := by
    intro key
    rw [heq]
  have hlast : (optionalId id : Json α) = optionalId id' := by
    simpa +decide [associatedData, Json.get?_mkObj, Json.lookup] using hget "oneTimePreKeyId"
  refine ⟨?_, ?_, ?_, ?_, ?_, ?_, ?_, ?_⟩
  · simpa +decide [associatedData, Json.get?_mkObj, Json.lookup] using hget "conversationId"
  · simpa +decide [associatedData, Json.get?_mkObj, Json.lookup] using hget "senderId"
  · simpa +decide [associatedData, Json.get?_mkObj, Json.lookup] using hget "recipientId"
  · simpa +decide [associatedData, Json.get?_mkObj, Json.lookup] using
      hget "senderIdentityPublicKey"
  · simpa +decide [associatedData, Json.get?_mkObj, Json.lookup] using
      hget "senderEphemeralPublicKey"
  · simpa +decide [associatedData, Json.get?_mkObj, Json.lookup] using
      hget "recipientIdentityPublicKey"
  · simpa +decide [associatedData, Json.get?_mkObj, Json.lookup] using hget "signedPreKeyId"
  · cases id <;> cases id' <;> cases hlast <;> rfl

/-- The message key of a recipient and the context it is bound to open the
ciphertext. -/
structure Opens (f : PayloadFields α) (recipient : LocalIdentityKey α)
    (conversationId senderId recipientId : UInt64) (oneTimePreKey : Option (LocalPreKey α))
    (plaintext : List α) : Prop where
  signedPreKeyId : recipient.signedPreKey.id = f.signedPreKeyId
  oneTimePreKeyId : f.oneTimePreKeyId = oneTimePreKey.map (·.id)
  found : ∀ k ∈ oneTimePreKey, recipient.oneTimePreKeys.find? (fun x => x.id = k.id) = some k
  decrypted : ∃ messageKey aad,
    recipientKey recipient f.senderIdentityKey f.senderEphemeralKey oneTimePreKey = .ok messageKey ∧
    (associatedData conversationId senderId recipientId f.senderIdentityKey f.senderEphemeralKey
      recipient.publicKey f.signedPreKeyId f.oneTimePreKeyId).dump = some aad ∧
    Crypto.aeadDecrypt f.ciphertext aad f.nonce messageKey = some plaintext

theorem checkSender_ok [DecidableEq α] {payload senderBundle senderIdentityKey : List α}
    {payloadJson : Json α} :
    checkSender payload senderBundle = .ok (payloadJson, senderIdentityKey) ↔
      parseJson payload "message payload" = .ok payloadJson ∧
      (∃ v, payloadJson.get? (bytes "version") = some v ∧ v.int? = some 1) ∧
      payloadJson.get? (bytes "algorithm") = some (.str (lit kPayloadAlgorithm)) ∧
      payloadJson.get? (bytes "senderIdentityPublicKey") = some (.str senderIdentityKey) ∧
      ∃ bundle, parseJson senderBundle "senderBundle" = .ok bundle ∧
        validateBundle bundle = .ok () ∧
        bundle.get? (bytes "identityKey") = some (.str senderIdentityKey) := by
  simp only [checkSender, bind_ok, ensure_ok, at'_ok, getString_ok, pure_ok, Prod.mk.injEq]
  constructor
  · rintro ⟨_, hj, v, hv, _, hv1, -, rfl, _, halg, _, rfl, -, rfl, bundle, hbundle, _, hvalid, _,
      hik, _, rfl, _, hbik, _, rfl, -, rfl, rfl, rfl⟩
    exact ⟨hj, ⟨v, hv, orJsonError_ok.mp hv1⟩, halg, hik, bundle, hbundle, hvalid, hbik⟩
  · rintro ⟨hj, ⟨v, hv, hv1⟩, halg, hik, bundle, hbundle, hvalid, hbik⟩
    exact ⟨_, hj, v, hv, 1, orJsonError_ok.mpr hv1, (), rfl, _, halg, _, rfl, (), rfl, bundle,
      hbundle, (), hvalid, _, hik, _, rfl, _, hbik, _, rfl, (), rfl, rfl, rfl⟩

theorem agree_ok {payloadJson : Json α} {recipient : LocalIdentityKey α}
    {senderIdentityKey : List α} {agreed : Agreement α} :
    agree payloadJson recipient senderIdentityKey = .ok agreed ↔
      payloadJson.get? (bytes "senderEphemeralPublicKey") =
        some (.str agreed.senderEphemeralKey) ∧
      (∃ v, payloadJson.get? (bytes "signedPreKeyId") = some v ∧
        v.uint64? = some agreed.signedPreKeyId) ∧
      recipient.signedPreKey.id = agreed.signedPreKeyId ∧
      selectOneTimePreKey payloadJson recipient.oneTimePreKeys = .ok agreed.oneTimePreKey ∧
      recipientKey recipient senderIdentityKey agreed.senderEphemeralKey agreed.oneTimePreKey =
        .ok agreed.messageKey := by
  simp only [agree, bind_ok, ensure_ok, at'_ok, getString_ok, getUInt64_ok, pure_ok]
  constructor
  · rintro ⟨_, hek, _, rfl, v, hspk, _, hspkid, -, hid, _, hselect, _, hkey, rfl⟩
    exact ⟨hek, ⟨v, hspk, hspkid⟩, hid, hselect, hkey⟩
  · rintro ⟨hek, ⟨v, hspk, hspkid⟩, hid, hselect, hkey⟩
    exact ⟨_, hek, _, rfl, v, hspk, _, hspkid, (), hid, _, hselect, _, hkey, rfl⟩

omit [FloatFormat] in
theorem openCiphertext_ok {payloadJson aadJson : Json α} {messageKey plaintext : List α} :
    openCiphertext payloadJson aadJson messageKey = .ok plaintext ↔
      ∃ s nonce t ciphertext aad, payloadJson.get? (bytes "nonce") = some (.str s) ∧
        Decodes 24 s nonce ∧ payloadJson.get? (bytes "ciphertext") = some (.str t) ∧
        Crypto.base64Decode t = some ciphertext ∧ 16 ≤ ciphertext.length ∧
        aadJson.dump = some aad ∧
        Crypto.aeadDecrypt ciphertext aad nonce messageKey = some plaintext := by
  simp only [openCiphertext, bind_ok, ensure_ok, at'_ok, getString_ok, orThrow_ok, orJsonError_ok,
    base64DecodeArray_ok, base64Decode]
  constructor
  · rintro ⟨_, hns, s, rfl, nonce, hnonce, _, hct, t, rfl, ciphertext, hcd, -, hlen, aad, haad, hm⟩
    exact ⟨s, nonce, t, ciphertext, aad, hns, hnonce, hct, hcd, hlen, haad, hm⟩
  · rintro ⟨s, nonce, t, ciphertext, aad, hns, hnonce, hct, hcd, hlen, haad, hm⟩
    exact ⟨_, hns, s, rfl, nonce, hnonce, _, hct, t, rfl, ciphertext, hcd, (), hlen, aad, haad, hm⟩

/-- **The payloads that open.** -/
theorem openMessage_ok [DecidableEq α] {payload senderBundle plaintext : List α}
    {recipient : LocalIdentityKey α} {conversationId senderId recipientId : UInt64}
    {id : Option UInt64} :
    openMessage payload recipient senderBundle conversationId senderId recipientId =
        .ok (plaintext, id) ↔
      ∃ payloadJson f bundle oneTimePreKey, parseJson payload "message payload" = .ok payloadJson ∧
        PayloadFields.Of f payloadJson ∧ parseJson senderBundle "senderBundle" = .ok bundle ∧
        validateBundle bundle = .ok () ∧
        bundle.get? (bytes "identityKey") = some (.str f.senderIdentityKey) ∧
        Opens f recipient conversationId senderId recipientId oneTimePreKey plaintext ∧
        id = f.oneTimePreKeyId := by
  simp only [openMessage, bind_ok, Prod.exists, checkSender_ok, agree_ok, selectOneTimePreKey_ok,
    openCiphertext_ok, pure_ok, Prod.mk.injEq]
  constructor
  · rintro ⟨j, ik, ⟨hj, hversion, halg, hik, bundle, hbundle, hvalid, hbik⟩, agreed,
      ⟨hek, hspk, hid, ⟨v, _, hv, hnames, rfl, hfound⟩, hkey⟩, m,
      ⟨s, nonce, t, ct, aad, hns, hnonce, hct, hcd, hlen, haad, hm⟩, rfl, rfl⟩
    have hopens : Opens ⟨ik, agreed.senderEphemeralKey, agreed.signedPreKeyId,
        agreed.oneTimePreKey.map (·.id), nonce, ct⟩ recipient conversationId senderId recipientId
        agreed.oneTimePreKey m := ⟨hid, rfl, hfound, agreed.messageKey, aad, hkey, haad, hm⟩
    exact ⟨j, _, bundle, agreed.oneTimePreKey, hj, ⟨hversion, halg, hik, hek, hspk, ⟨v, hv, hnames⟩,
      ⟨s, hns, hnonce⟩, t, hct, hcd, hlen⟩, hbundle, hvalid, hbik, hopens, rfl⟩
  · rintro ⟨j, f, bundle, key, hj, hof, hbundle, hvalid, hbik, hopens, rfl⟩
    obtain ⟨v, hv, hnames⟩ := hof.oneTimePreKeyId
    obtain ⟨s, hns, hnonce⟩ := hof.nonce
    obtain ⟨t, hct, hcd, hlen⟩ := hof.ciphertext
    obtain ⟨messageKey, aad, hkey, haad, hm⟩ := hopens.decrypted
    have hkeyId := hopens.oneTimePreKeyId
    rw [hkeyId] at hnames haad
    exact ⟨j, f.senderIdentityKey,
      ⟨hj, hof.version, hof.algorithm, hof.senderIdentityKey, bundle, hbundle, hvalid, hbik⟩,
      ⟨f.senderEphemeralKey, f.signedPreKeyId, key, messageKey⟩,
      ⟨hof.senderEphemeralKey, hof.signedPreKeyId, hopens.signedPreKeyId,
        ⟨v, _, hv, hnames, rfl, hopens.found⟩, hkey⟩, plaintext,
      ⟨s, f.nonce, t, f.ciphertext, aad, hns, hnonce, hct, hcd, hlen, haad, hm⟩, rfl, hkeyId.symm⟩

/-! ## Both ends agree -/

section Agreeing

variable [LawfulBase64 α] [LawfulDh α]

omit [FloatFormat] in
/-- The secret of two key pairs. -/
theorem dh_eq (a b : List α) (label : String) :
    dh a (base64Encode (Crypto.boxPublicKey b)) label =
      orThrow (bytes "X25519 DH failed for " ++ bytes label)
        (Crypto.scalarmult a (Crypto.boxPublicKey b)) := by
  rw [dh, base64DecodeArray_encode (LawfulDh.length_boxPublicKey b), ok_bind]

omit [FloatFormat] in
/-- It is the same on both sides. -/
theorem dh_comm {a b s : List α} {label : String} (label' : String)
    (h : dh a (base64Encode (Crypto.boxPublicKey b)) label = .ok s) :
    dh b (base64Encode (Crypto.boxPublicKey a)) label' = .ok s := by
  rw [dh_eq, orThrow_ok] at h ⊢
  rw [← h]
  exact LawfulDh.comm b a

/-- What the sender knows of a recipient is true. -/
structure RecipientKeys.Match (keys : RecipientKeys α) (recipient : LocalIdentityKey α) : Prop where
  identityKey : keys.identityKey = recipient.publicKey
  signedPreKeyId : keys.signedPreKeyId = recipient.signedPreKey.id
  signedPreKey : keys.signedPreKey = recipient.signedPreKey.publicKey
  oneTimePreKey : ∀ p ∈ keys.oneTimePreKey, ∃ k ∈ recipient.oneTimePreKeys, p = (k.id, k.publicKey)

omit [FloatFormat] [LawfulBase64 α] [LawfulDh α] [Alphabet α] [Crypto α] in
/-- A prekey is found under its id. -/
theorem find?_id {keys : List (LocalPreKey α)} (h : (keys.map (·.id)).Nodup) {k : LocalPreKey α}
    (hk : k ∈ keys) : keys.find? (fun x => x.id = k.id) = some k := by
  induction keys with
  | nil => cases hk
  | cons x keys ih =>
      rw [List.map_cons, List.nodup_cons] at h
      rcases List.mem_cons.mp hk with rfl | hk
      · exact List.find?_cons_of_pos (by simp)
      · have hne : x.id ≠ k.id := fun he => h.1 (he ▸ List.mem_map_of_mem hk)
        rw [List.find?_cons_of_neg (by simpa using hne)]
        exact ih h.2 hk

omit [FloatFormat] in
/-- **Sender and recipient derive the same message key.** -/
theorem recipientKey_of_senderKey {sender recipient : LocalIdentityKey α}
    {keys : RecipientKeys α} {ephemeral messageKey : List α} (hs : sender.Made)
    (hr : recipient.Made) (hmatch : keys.Match recipient)
    (h : senderKey sender.privateKey ephemeral keys = .ok messageKey) :
    ∃ key : Option (LocalPreKey α), keys.oneTimePreKey = key.map (fun k => (k.id, k.publicKey)) ∧
      (∀ k ∈ key, recipient.oneTimePreKeys.find? (fun x => x.id = k.id) = some k) ∧
      recipientKey recipient sender.publicKey (base64Encode (Crypto.boxPublicKey ephemeral)) key =
        .ok messageKey := by
  simp only [senderKey, bind_ok, hmatch.signedPreKey, hmatch.identityKey, hr.publicKey,
    hr.signedPreKey.publicKey] at h
  obtain ⟨s1, h1, s2, h2, s3, h3, h⟩ := h
  have h1' := dh_comm "sender.identityKey" h1
  have h2' := dh_comm "sender.ephemeralKey" h2
  have h3' := dh_comm "sender.ephemeralKey" h3
  simp only [recipientKey, bind_ok, hs.publicKey]
  cases hone : keys.oneTimePreKey with
  | none =>
      rw [hone] at h
      exact ⟨none, rfl, by simp, s1, h1', s2, h2', s3, h3', h⟩
  | some p =>
      obtain ⟨k, hk, rfl⟩ := hmatch.oneTimePreKey p hone
      rw [hone] at h
      simp only [bind_ok, (hr.oneTimePreKeys k hk).publicKey] at h
      obtain ⟨s4, h4, h⟩ := h
      refine ⟨some k, rfl, ?_, s1, h1', s2, h2', s3, h3', ?_⟩
      · rintro _ ⟨⟩
        exact find?_id hr.distinct hk
      · exact bind_ok.mpr ⟨s4, dh_comm "sender.ephemeralKey" h4, h⟩

omit [FloatFormat] [LawfulBase64 α] [LawfulDh α] [Crypto α] in
theorem printable_optionalId (id : Option UInt64) : (optionalId id : Json α).Printable := by
  cases id <;> trivial

omit [FloatFormat] [LawfulDh α] in
theorem printable_base64 (data : List α) : (Json.str (base64Encode data)).Printable :=
  LawfulBase64.validUtf8_encode data

omit [FloatFormat] [LawfulDh α] [LawfulBase64 α] [Crypto α] in
theorem printable_associatedData (conversationId senderId recipientId signedPreKeyId : UInt64)
    (id : Option UInt64) {senderPublicKey ephemeralPublicKey recipientPublicKey : List α}
    (hsender : validUtf8 senderPublicKey = true) (hephemeral : validUtf8 ephemeralPublicKey = true)
    (hrecipient : validUtf8 recipientPublicKey = true) :
    (associatedData conversationId senderId recipientId senderPublicKey ephemeralPublicKey
      recipientPublicKey signedPreKeyId id).Printable := by
  rw [associatedData]
  refine Json.printable_mkObj ?_
  simp [Json.Printable, validUtf8_lit, hsender, hephemeral, hrecipient, printable_optionalId]

omit [FloatFormat] [LawfulDh α] in
theorem printable_payloadJson (signedPreKeyId : UInt64) (id : Option UInt64)
    (nonce ciphertext : List α) {senderPublicKey ephemeralPublicKey : List α}
    (hsender : validUtf8 senderPublicKey = true)
    (hephemeral : validUtf8 ephemeralPublicKey = true) :
    (payloadJson senderPublicKey ephemeralPublicKey signedPreKeyId id nonce ciphertext).Printable := by
  rw [payloadJson]
  refine Json.printable_mkObj ?_
  have hnonce := printable_base64 nonce
  have hciphertext := printable_base64 ciphertext
  simp only [Json.Printable] at hnonce hciphertext
  simp [Json.Printable, validUtf8_lit, hsender, hephemeral, printable_optionalId, hnonce, hciphertext]

omit [FloatFormat] [LawfulDh α] in
/-- A message for keys with a text is printed. -/
theorem exists_sealMessage (plaintext : List α) (keys : RecipientKeys α)
    (conversationId senderId recipientId : UInt64) (messageKey nonce : List α)
    {senderPublicKey ephemeralPublicKey : List α} (hsender : validUtf8 senderPublicKey = true)
    (hephemeral : validUtf8 ephemeralPublicKey = true)
    (hidentity : validUtf8 keys.identityKey = true) :
    ∃ payload, sealMessage plaintext senderPublicKey ephemeralPublicKey keys conversationId senderId
      recipientId messageKey nonce = .ok payload := by
  obtain ⟨aad, haad⟩ := Json.exists_dump (printable_associatedData conversationId senderId
    recipientId keys.signedPreKeyId (keys.oneTimePreKey.map (·.1)) hsender hephemeral hidentity)
  obtain ⟨payload, hpayload⟩ := Json.exists_dump (printable_payloadJson keys.signedPreKeyId
    (keys.oneTimePreKey.map (·.1)) nonce (Crypto.aeadEncrypt plaintext aad nonce messageKey) hsender
    hephemeral)
  refine ⟨payload, ?_⟩
  simp only [sealMessage, bind_ok, orJsonError_ok]
  exact ⟨aad, haad, hpayload⟩

omit [FloatFormat] in
/-- A sender derives a key for a recipient. -/
theorem exists_senderKey {recipient : LocalIdentityKey α} {keys : RecipientKeys α}
    (hr : recipient.Made) (hmatch : keys.Match recipient)
    (hhkdf : ∀ x i s : List α, (Crypto.hkdf x i s).isSome = true) (privateKey ephemeral : List α) :
    ∃ messageKey, senderKey privateKey ephemeral keys = .ok messageKey := by
  have hdh : ∀ (a b : List α) (label : String),
      ∃ s, dh a (base64Encode (Crypto.boxPublicKey b)) label = .ok s := by
    intro a b label
    obtain ⟨s, hs⟩ := Option.isSome_iff_exists.mp (LawfulDh.some a b)
    exact ⟨s, by rw [dh_eq, hs]; rfl⟩
  have hderive : ∀ outputs : List (List α), ∃ key, deriveX3dhKey outputs = .ok key := by
    intro outputs
    obtain ⟨key, hkey⟩ := Option.isSome_iff_exists.mp
      (hhkdf outputs.flatten (lit kX3dhHkdfInfo) (lit kX3dhHkdfSalt))
    exact ⟨key, by rw [deriveX3dhKey, deriveKey, hkey]; rfl⟩
  rw [senderKey, hmatch.signedPreKey, hmatch.identityKey, hr.publicKey, hr.signedPreKey.publicKey]
  obtain ⟨s1, h1⟩ := hdh privateKey recipient.signedPreKey.privateKey "recipient.signedPreKey"
  obtain ⟨s2, h2⟩ := hdh ephemeral recipient.privateKey "recipient.identityKey"
  obtain ⟨s3, h3⟩ := hdh ephemeral recipient.signedPreKey.privateKey "recipient.signedPreKey"
  simp only [h1, h2, h3, ok_bind]
  cases hone : keys.oneTimePreKey with
  | none => exact hderive _
  | some p =>
      obtain ⟨k, hk, rfl⟩ := hmatch.oneTimePreKey p hone
      simp only [(hr.oneTimePreKeys k hk).publicKey]
      obtain ⟨s4, h4⟩ := hdh ephemeral k.privateKey "recipient.oneTimePreKey"
      rw [h4, ok_bind]
      exact hderive _

/-- **What was encrypted for a recipient opens**, in its own context. -/
theorem openMessage_sealMessage [DecidableEq α] [LawfulAead α]
    {sender recipient : LocalIdentityKey α} {keys : RecipientKeys α}
    {ephemeral messageKey nonce plaintext payload senderBundle : List α} {bundle : Json α}
    {conversationId senderId recipientId : UInt64} (hs : sender.Made) (hr : recipient.Made)
    (hmatch : keys.Match recipient)
    (hkey : senderKey sender.privateKey ephemeral keys = .ok messageKey)
    (hnonce : nonce.length = 24)
    (hseal : sealMessage plaintext sender.publicKey (base64Encode (Crypto.boxPublicKey ephemeral))
      keys conversationId senderId recipientId messageKey nonce = .ok payload)
    (hbundle : parseJson senderBundle "senderBundle" = .ok bundle)
    (hvalid : validateBundle bundle = .ok ())
    (hik : bundle.get? (bytes "identityKey") = some (.str sender.publicKey)) :
    openMessage payload recipient senderBundle conversationId senderId recipientId =
      .ok (plaintext, keys.oneTimePreKey.map (·.1)) := by
  obtain ⟨key, hone, hfind, hrkey⟩ := recipientKey_of_senderKey hs hr hmatch hkey
  simp only [sealMessage, bind_ok, orJsonError_ok] at hseal
  obtain ⟨aad, haad, hdump⟩ := hseal
  let f : PayloadFields α := ⟨sender.publicKey, base64Encode (Crypto.boxPublicKey ephemeral),
    keys.signedPreKeyId, keys.oneTimePreKey.map (·.1), nonce,
    Crypto.aeadEncrypt plaintext aad nonce messageKey⟩
  obtain ⟨j, hparse, hof⟩ := payloadFields_of (f := f) "message payload" hnonce
    (LawfulAead.length_encrypt plaintext aad nonce messageKey) hdump
  have hopens : Opens f recipient conversationId senderId recipientId key plaintext := by
    refine ⟨hmatch.signedPreKeyId.symm, ?_, hfind, messageKey, aad, hrkey, ?_,
      LawfulAead.decrypt_encrypt plaintext aad nonce messageKey⟩
    · change keys.oneTimePreKey.map (·.1) = _
      rw [hone, Option.map_map]
      rfl
    · rw [← hmatch.identityKey]
      exact haad
  exact openMessage_ok.mpr ⟨j, f, bundle, key, hparse, hof, hbundle, hvalid, hik, hopens, rfl⟩

end Agreeing

end Kd
