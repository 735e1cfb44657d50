import Kingdom.Client.PreKeyUse
import Kingdom.Client.RoundTrip
import Kingdom.Protocol.Attack

/-!
# Who sent a message

What `decryptMessage` returns was given to `encryptMessage` by the owner of the sender's
identity key, for this recipient and in this context, whatever an attacker who controls
the server and the network does.

* `encryptedBy` — what the calls of `encryptMessage` encrypted.
* `Attack.exists_call` — a payload that opens was sealed in one of the calls.
* `sender_authenticated` — so for `decryptMessage`, which throws when a part of a payload
  or its context is changed.
-/

namespace Kd

open Codec Process Prog Storage Kd.Symbol

variable [FloatFormat]

/-- What the calls encrypted. -/
def encryptedBy (calls : List Encryption) : Encrypted := fun m ad n k =>
  ∃ c ∈ calls, ∃ keys, c.Computes keys k ad ∧ c.plaintext = m ∧ c.nonce = n

section Authentication

variable {A : Attacker} {mayFail : FileOp Bytes Symbol → Prop}
  {users : Set (LocalIdentityKey Symbol)} {seen : Set (List Symbol)}
  {log : CallLog (Op Symbol) Op.Res} {fetches : List Fetch} {calls : List Encryption}

/-- The fields of a call's payload. -/
noncomputable def Encryption.payloadFields (c : Encryption) (keys : RecipientKeys Symbol)
    (messageKey aad : List Symbol) : PayloadFields Symbol :=
  ⟨c.sender.publicKey, base64Encode (Crypto.boxPublicKey c.ephemeral), keys.signedPreKeyId,
    keys.oneTimePreKey.map (·.1), c.nonce, Crypto.aeadEncrypt c.plaintext aad c.nonce messageKey⟩

/-- The fields of a payload that was sent. -/
theorem Encryption.Computes.fields {c : Encryption} {keys : RecipientKeys Symbol}
    {messageKey aad : List Symbol} (h : c.Computes keys messageKey aad)
    (hnonce : ∃ name, c.nonce = block (.random name) 24) {j : Json Symbol}
    {f : PayloadFields Symbol} (hj : parseJson c.payload "message payload" = .ok j)
    (hof : f.Of j) :
    f = c.payloadFields keys messageKey aad := by
  obtain ⟨name, hname⟩ := hnonce
  have hlength : c.nonce.length = 24 := by rw [hname, length_block]
  obtain ⟨j', hj', hof'⟩ := payloadFields_of (f := c.payloadFields keys messageKey aad)
    "message payload" hlength (LawfulAead.length_encrypt _ _ _ _) h.printed
  rw [hj] at hj'
  cases hj'
  exact hof.unique hof'

/-- **A payload that opens was sealed in a call**, with the nonce and the associated data it
opens with. -/
theorem Attack.exists_call (h : Attack A mayFail users seen log fetches calls)
    (hmade : ∀ user ∈ users, user.Made) {ownerKey : List Symbol}
    (howner : A.Lacks ownerKey) {recipient : LocalIdentityKey Symbol} (hhidden : recipient.Hidden A)
    {payload plaintext : List Symbol} (hpayload : Derives A seen payload) {j : Json Symbol}
    {f : PayloadFields Symbol} {key : Option (LocalPreKey Symbol)}
    {conversationId senderId recipientId : UInt64}
    (hj : parseJson payload "message payload" = .ok j) (hof : f.Of j)
    (hsender : f.senderIdentityKey = base64Encode (Crypto.boxPublicKey ownerKey))
    (hopens : Opens f recipient conversationId senderId recipientId key plaintext) :
    ∃ c ∈ calls, ∃ keys messageKey aad, c.Computes keys messageKey aad ∧
      c.plaintext = plaintext ∧ c.nonce = f.nonce ∧
      f.ciphertext = Crypto.aeadEncrypt plaintext aad f.nonce messageKey ∧
      (associatedData conversationId senderId recipientId f.senderIdentityKey f.senderEphemeralKey
        recipient.publicKey f.signedPreKeyId f.oneTimePreKeyId).dump = some aad := by
  obtain ⟨messageKey, aad, hkey, haad, hdecrypt⟩ := hopens.decrypted
  have hciphertext := aeadDecrypt_eq_some.mp hdecrypt
  -- the texts are no secrets here, and the attacker may as well know them
  have hseen : ∀ s ∈ seen, All (MayKnow A.knowing (encryptedBy calls)) s :=
    h.knowing.mayKnow hmade (fun c hc keys _ _ hcomputes => ⟨c, hc, keys, hcomputes, rfl, rfl⟩)
      fun seen c _ hseen hplaintext _ _ _ _ _ _ _ a ha => by
        rcases hplaintext a ha with ⟨n, rfl⟩ | hderives
        · exact Set.notMem_empty n
        · exact mayKnow_of_derives hseen hderives a List.mem_cons_self
  -- the ciphertext is a string of the payload
  have hmay : All (MayKnow A.knowing (encryptedBy calls)) f.ciphertext := by
    have hover := Json.over_parse mayKnow_byte (parseJson_ok.mp hj).1
      (mayKnow_of_derives hseen hpayload.knowing)
    obtain ⟨s, hs, hdecode, -⟩ := hof.ciphertext
    have hs : All (MayKnow A.knowing (encryptedBy calls)) s := Json.over_get? hover hs
    rw [LawfulBase64.decode_iff.mp hdecode] at hs
    exact mayKnow_base64Encode.mp hs
  rw [hciphertext] at hmay
  rcases (mayKnow_aeadEncrypt.mp hmay).2 with hknown | ⟨c, hc, keys, hcomputes, hm, hn⟩
  · -- the key of the recipient takes a secret of two keys the attacker lacks
    exfalso
    simp only [recipientKey, bind_ok, hsender] at hkey
    obtain ⟨dh1, hdh1, dh2, -, dh3, -, hkey⟩ := hkey
    have hsecret := not_mayKnow_dh (A := A.knowing) (E := encryptedBy calls) hhidden.signedPreKey
      howner hdh1
    cases key with
    | none => exact hsecret ((mayKnow_deriveX3dhKey hkey).mp hknown dh1 List.mem_cons_self)
    | some k =>
        simp only [bind_ok] at hkey
        obtain ⟨dh4, -, hkey⟩ := hkey
        exact hsecret ((mayKnow_deriveX3dhKey hkey).mp hknown dh1 List.mem_cons_self)
  · exact ⟨c, hc, keys, messageKey, aad, hcomputes, hm, hn, hciphertext, haad⟩

/-! ## Calls of `decryptMessage` -/

/-- The call was made for this recipient in this context. -/
structure Encryption.For (c : Encryption) (recipient : LocalIdentityKey Symbol)
    (conversationId senderId recipientId : UInt64) : Prop where
  conversationId : c.conversationId = conversationId
  senderId : c.senderId = senderId
  recipientId : c.recipientId = recipientId
  identityKey : ∃ keys, recipientKeys c.bundle = .ok keys ∧ keys.identityKey = recipient.publicKey

/-- The call names these prekeys of the recipient. -/
def Encryption.Names (c : Encryption) (signedPreKeyId : UInt64)
    (oneTimePreKeyId : Option UInt64) : Prop :=
  ∃ keys, recipientKeys c.bundle = .ok keys ∧ keys.signedPreKeyId = signedPreKeyId ∧
    keys.oneTimePreKey.map (·.1) = oneTimePreKeyId

/-- A call of `decryptMessage` returns what opens. -/
theorem openMessage_of_decryptMessage {σ : Type} {mayFail : FileOp Bytes Symbol → Prop}
    {net : HttpRequest Symbol → σ → Option (HttpResponse Symbol) → σ → Prop} {w w' : World Symbol σ}
    {payload senderBundle plaintext : List Symbol} {recipient recipient' : LocalIdentityKey Symbol}
    {conversationId senderId recipientId : UInt64}
    (h : (decryptMessage payload recipient senderBundle conversationId senderId recipientId).Runs
      (exec mayFail net) w (some (.ok (recipient', .ok plaintext))) w') :
    ∃ id, openMessage payload recipient senderBundle conversationId senderId recipientId =
      .ok (plaintext, id) := by
  cases hopen : openMessage payload recipient senderBundle conversationId senderId recipientId with
  | error e =>
      rw [decryptMessage, hopen] at h
      cases h
  | ok r =>
      obtain ⟨opened, id⟩ := r
      refine ⟨id, ?_⟩
      suffices heq : opened = plaintext by rw [heq]
      cases id with
      | none =>
          rw [decryptMessage, hopen] at h
          cases h
          rfl
      | some id =>
          have hensures : (decryptMessage payload recipient senderBundle conversationId senderId
              recipientId).Ensures (exec mayFail net) (fun _ => True) w
                fun x _ => ∀ r m, x = .ok (r, .ok m) → opened = m :=
            (ensures_decryptMessage_opened hopen).mpr (by
              have hmap : ∀ (x : Except Exn Unit) (r r' : LocalIdentityKey Symbol) (m : List Symbol),
                  (.ok (r, x.map fun _ => opened) : Except Exn (LocalIdentityKey Symbol ×
                    Except Exn (List Symbol))) = .ok (r', .ok m) → opened = m := by
                intro x r r' m heq
                cases x with
                | ok u =>
                    cases heq
                    rfl
                | error e => cases heq
              dsimp only
              split_ifs
              · exact hmap (.ok ()) _
              · exact ensures_mono (ensures_true _ _) fun x _ _ => hmap x _)
          exact hensures.of_runs h recipient' plaintext rfl

/-- A call of `decryptMessage` that does not return throws, and changes no keys. -/
theorem throws_of_not_open {σ : Type} {mayFail : FileOp Bytes Symbol → Prop}
    {net : HttpRequest Symbol → σ → Option (HttpResponse Symbol) → σ → Prop} {w w' : World Symbol σ}
    {payload senderBundle : List Symbol} {recipient : LocalIdentityKey Symbol}
    {conversationId senderId recipientId : UInt64}
    {x : Except Exn (LocalIdentityKey Symbol × Except Exn (List Symbol))}
    (hopen : ∀ r, openMessage payload recipient senderBundle conversationId senderId recipientId ≠
      .ok r)
    (h : (decryptMessage payload recipient senderBundle conversationId senderId recipientId).Runs
      (exec mayFail net) w (some x) w') : ∃ e, x = .ok (recipient, .error e) := by
  cases heq : openMessage payload recipient senderBundle conversationId senderId recipientId with
  | error e =>
      rw [decryptMessage, heq] at h
      cases h
      exact ⟨e, rfl⟩
  | ok r => exact (hopen r heq).elim

/-- **What opens is what a call sealed**: its fields are those of the call's payload, and the
call was made by the owner of the pinned key, for this recipient in this context. -/
theorem Attack.call_of_openMessage (h : Attack A mayFail users seen log fetches calls)
    (hmade : ∀ user ∈ users, user.Made) {ownerKey : List Symbol}
    (howner : A.Lacks ownerKey) {recipient : LocalIdentityKey Symbol} (hhidden : recipient.Hidden A)
    {payload senderBundle plaintext : List Symbol} {conversationId senderId recipientId : UInt64}
    {id : Option UInt64}
    (hpinned : (anchorFields senderBundle).map (·.1) =
      some (base64Encode (Crypto.boxPublicKey ownerKey)))
    (hpayload : Derives A seen payload)
    (hopen : openMessage payload recipient senderBundle conversationId senderId recipientId =
      .ok (plaintext, id)) :
    ∃ c ∈ calls, ∃ keys messageKey aad j, c.Computes keys messageKey aad ∧
      parseJson payload "message payload" = .ok j ∧ (c.payloadFields keys messageKey aad).Of j ∧
      c.sender.privateKey = ownerKey ∧ c.plaintext = plaintext ∧
      c.For recipient conversationId senderId recipientId ∧
      c.Names recipient.signedPreKey.id id := by
  obtain ⟨j, f, bundle, key, hj, hof, hbundle, -, hik, hopens, rfl⟩ := openMessage_ok.mp hopen
  have hsender : f.senderIdentityKey = base64Encode (Crypto.boxPublicKey ownerKey) := by
    obtain ⟨p, hp, hpinned⟩ := Option.map_eq_some_iff.mp hpinned
    simp only [anchorFields, (parseJson_ok.mp hbundle).1, hik, Option.bind_eq_bind, Option.bind_some,
      Json.str?, Option.bind_eq_some_iff] at hp
    obtain ⟨signingKey, -, hp⟩ := hp
    cases hp
    exact hpinned
  obtain ⟨c, hc, keys, messageKey, aad, hcomputes, rfl, hnonce, hciphertext, haad⟩ :=
    h.exists_call hmade howner hhidden hpayload hj hof hsender hopens
  obtain ⟨hconversation, hsenderId, hrecipientId, hsik, hsek, hidentity, hspk, hone⟩ :=
    associatedData_inj hcomputes.context haad
  have hfields : f = c.payloadFields keys messageKey aad := by
    obtain ⟨sik, sek, spk, one, nonce, ciphertext⟩ := f
    simp only at hsik hsek hspk hone hnonce hciphertext
    rw [Encryption.payloadFields, hsik, hsek, hspk, hone, hnonce, hciphertext]
  obtain ⟨hsenderMade, -⟩ := h.sent hc
  have howner : c.sender.privateKey = ownerKey := by
    rw [hsenderMade.publicKey, hsender] at hsik
    exact boxPublicKey_inj (base64Encode_inj hsik)
  refine ⟨c, hc, keys, messageKey, aad, j, hcomputes, hj, hfields ▸ hof, howner, rfl,
    ⟨hconversation, hsenderId, hrecipientId, keys, hcomputes.recipient, hidentity⟩, keys,
    hcomputes.recipient, ?_, hone⟩
  rw [hspk, hopens.signedPreKeyId]

/-- **Who sent a message.**  In a run in which the attacker controls the server and the network,
lacks the private key behind the pinned identity key and those of the recipient, let it make
any payload.  If `decryptMessage` returns a plaintext, then the
owner of the identity key called `encryptMessage` with it, in this context, for the identity
key and the prekeys of this recipient.  If the payload has its nonce, its ciphertext or its
ephemeral key from one that was sent, and anything else or the context is not as it was,
`decryptMessage` throws. -/
theorem sender_authenticated (h : Attack A mayFail users seen log fetches calls)
    (hmade : ∀ user ∈ users, user.Made) {ownerKey : List Symbol}
    (howner : A.Lacks ownerKey) {recipient : LocalIdentityKey Symbol} (hhidden : recipient.Hidden A)
    {payload senderBundle : List Symbol} {conversationId senderId recipientId : UInt64}
    (hpinned : (anchorFields senderBundle).map (·.1) =
      some (base64Encode (Crypto.boxPublicKey ownerKey)))
    (hpayload : Derives A seen payload) :
    (∀ (σ : Type) (mayFail' : FileOp Bytes Symbol → Prop)
        (net : HttpRequest Symbol → σ → Option (HttpResponse Symbol) → σ → Prop)
        (w w' : World Symbol σ) (recipient' : LocalIdentityKey Symbol) (plaintext : List Symbol),
      (decryptMessage payload recipient senderBundle conversationId senderId recipientId).Runs
        (exec mayFail' net) w (some (.ok (recipient', .ok plaintext))) w' →
      ∃ id, oneTimePreKeyIdFromPayload payload = .ok id ∧
        (∀ k ∈ id, ∃ x ∈ recipient.oneTimePreKeys, x.id = k) ∧
        ∃ c ∈ calls, c.sender.privateKey = ownerKey ∧ c.plaintext = plaintext ∧
          c.For recipient conversationId senderId recipientId ∧
          c.Names recipient.signedPreKey.id id) ∧
    ∀ c ∈ calls, ∀ (j j' : Json Symbol) (f f' : PayloadFields Symbol),
      parseJson c.payload "message payload" = .ok j → f.Of j →
      parseJson payload "message payload" = .ok j' → f'.Of j' →
      f'.nonce = f.nonce ∨ f'.ciphertext = f.ciphertext ∨
        f'.senderEphemeralKey = f.senderEphemeralKey →
      ¬ (f' = f ∧ c.For recipient conversationId senderId recipientId) →
      ∀ (σ : Type) (mayFail' : FileOp Bytes Symbol → Prop)
          (net : HttpRequest Symbol → σ → Option (HttpResponse Symbol) → σ → Prop)
          (w w' : World Symbol σ)
          (x : Except Exn (LocalIdentityKey Symbol × Except Exn (List Symbol))),
        (decryptMessage payload recipient senderBundle conversationId senderId recipientId).Runs
          (exec mayFail' net) w (some x) w' → ∃ e, x = .ok (recipient, .error e) := by
  constructor
  · intro σ mayFail' net w w' recipient' plaintext hrun
    obtain ⟨id, hopen⟩ := openMessage_of_decryptMessage hrun
    obtain ⟨hid, hmem⟩ := openMessage_preKey hopen
    obtain ⟨c, hc, -, -, -, -, -, -, -, hcall⟩ :=
      h.call_of_openMessage hmade howner hhidden hpinned hpayload hopen
    exact ⟨id, hid, hmem, c, hc, hcall⟩
  · intro c hc j j' f f' hj hof hj' hof' hkept hchanged σ mayFail' net w w' x
    refine throws_of_not_open fun r hopen => hchanged ?_
    obtain ⟨plaintext, id⟩ := r
    obtain ⟨d, hd, keys, messageKey, aad, j'', hcomputes, hj'', hofd, -, -, hfor, -⟩ :=
      h.call_of_openMessage hmade howner hhidden hpinned hpayload hopen
    rw [hj'] at hj''
    cases hj''
    obtain rfl := hof'.unique hofd
    obtain ⟨-, ⟨_, hdrawn⟩, keys', messageKey', aad', hcomputes'⟩ := h.sent hc
    -- one of the values drawn for the payload is the same, and so are the calls
    obtain rfl : d = c := by
      apply h.fresh.distinct d hd c hc
      rw [hcomputes'.fields hdrawn.nonce hj hof] at hkept
      rcases hkept with hnonce | hciphertext | hephemeral
      · exact .inl hnonce
      · exact .inl (aeadEncrypt_inj hciphertext).2.2.1
      · exact .inr (boxPublicKey_inj (base64Encode_inj hephemeral))
    exact ⟨(hcomputes.fields hdrawn.nonce hj hof).symm, hfor⟩

end Authentication

omit [FloatFormat] in
/-- A message that is delivered as it was sent. -/
theorem sender_authenticated_example : letI := plainFloats;
    ∃ (users : Set (LocalIdentityKey Symbol)) (seen : Set (List Symbol))
      (log : CallLog (Op Symbol) Op.Res) (fetches : List Fetch) (calls : List Encryption)
      (payload senderBundle : List Symbol) (recipient' : LocalIdentityKey Symbol),
      Attack ⟨{100}, ∅⟩ (fun _ => False) users seen log fetches calls ∧ payload ∈ seen ∧
        (decryptMessage payload (exampleUser 10) senderBundle 1 2 3).Runs (onFiles fun _ => False)
          ⟨fun _ => none, ()⟩ (some (.ok (recipient', .ok (lit "hello")))) ⟨fun _ => none, ()⟩ ∧
        ∃ c ∈ calls, c.sender.privateKey = (exampleUser 0).privateKey ∧ c.plaintext = lit "hello" ∧
          c.For (exampleUser 10) 1 2 3 ∧ c.Names 1 (some 5) := by
  let := plainFloats
  let A : Attacker := ⟨{100}, ∅⟩
  let users : Set (LocalIdentityKey Symbol) := {exampleUser 0, exampleUser 10}
  have hmade : ∀ user ∈ users, user.Made := by
    rintro user (rfl | rfl)
    · exact made_exampleUser 0
    · exact made_exampleUser 10
  have halice : exampleUser 0 ∈ users := .inl rfl
  have hbob : exampleUser 10 ∈ users := .inr rfl
  have hname : 20 ∉ A.owns := by decide
  obtain ⟨senderBundle, -, hsender, hpinned⟩ := exists_published (hmade _ halice) halice
  obtain ⟨bundle, hseen, hbundle, -⟩ := exists_published (hmade _ hbob) hbob
  obtain ⟨c, hcs, hcp, hcb, -, -, -, -, hrun, hopen⟩ := exists_encryption (hmade _ halice)
    (hmade _ hbob) hbundle (lit "hello") 1 2 3 none (fun _ => False)
    ⟨fun _ => none, published users⟩ hname List.not_mem_nil List.not_mem_nil
  have hattack := Attack.encrypt .start (hcs ▸ made_exampleUser 0) (hcb ▸ .observe hseen)
    (hcp ▸ .bytes _) hrun
  have hopen := hopen senderBundle hsender
  -- the recipient has no key file
  have hdecrypt : ∃ recipient', (decryptMessage c.payload (exampleUser 10) senderBundle 1 2 3).Runs
      (onFiles fun _ => False) ⟨fun _ => none, ()⟩ (some (.ok (recipient', .ok (lit "hello"))))
        ⟨fun _ => none, ()⟩ := by
    rw [decryptMessage, hopen]
    exact ⟨_, .pure⟩
  obtain ⟨recipient', hdecrypt⟩ := hdecrypt
  obtain ⟨id, hid, -, hcall⟩ := (sender_authenticated hattack hmade
    ⟨0, 32, by decide, by decide, rfl⟩ (hidden_exampleUser (by decide)) (by rw [hpinned]; rfl)
    (.observe (Set.mem_insert _ _))).1 _ _ _ _ _ _ _ hdecrypt
  obtain rfl : id = some 5 := by
    rw [(openMessage_preKey hopen).1] at hid
    exact (Except.ok.inj hid).symm
  exact ⟨users, _, _, _, _, c.payload, senderBundle, recipient', hattack, Set.mem_insert _ _, hdecrypt,
    hcall⟩

end Kd
