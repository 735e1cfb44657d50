import Kingdom.Protocol.Attack

/-!
# Secret messages

What is encrypted for a user whose keys are pinned stays secret to an attacker who
controls the server and the network, whatever bundles it makes up.

* `Encryption.Secret` — a call encrypts a text that is secret to the attacker.
* `RecipientKeys.publicKeys` — the keys of the recipient a message key is agreed with.
* `not_mayKnow_senderKey_of_mem` — the message key takes a secret with each of them, and so
  with the pinned identity key.
* `message_stays_secret` — so no secret text is ever derived, and no bundle under whose key
  it would be is accepted.
-/

namespace Kd

open Codec Process Prog Storage Kd.Symbol

variable [FloatFormat]

/-- The call encrypts a text that is secret to the attacker. -/
def Encryption.Secret (A : Attacker) (c : Encryption) : Prop :=
  ∃ n ∈ A.secrets, .text n ∈ c.plaintext

/-- The sender had the keys of the recipient pinned. -/
def Encryption.Pinned (c : Encryption) (recipient : LocalIdentityKey Symbol) : Prop :=
  c.pin.bind anchorFields = some (recipient.publicKey, recipient.signingPublicKey)

/-! ## The key of a message -/

/-- An accepted bundle with a pinned anchor has the pinned identity key. -/
theorem identityKey_of_pinned {bundle pin : List Symbol} {fields : List Symbol × List Symbol}
    {keys : RecipientKeys Symbol} (hanchor : pinningAnchor bundle = .ok pin)
    (hfields : anchorFields pin = some fields) (hkeys : recipientKeys bundle = .ok keys) :
    keys.identityKey = fields.1 := by
  rw [anchorFields_pinningAnchor hanchor] at hfields
  simp only [recipientKeys, bind_ok, at'_ok, getString_ok] at hkeys
  obtain ⟨j, hj, -, -, _, hik, identityKey, rfl, spk, -, _, -, id, -, _, -, signedPreKey, -, one, -,
    hkeys⟩ := hkeys
  simp only [anchorFields, (parseJson_ok.mp hj).1, hik, Option.bind_eq_bind, Option.bind_some,
    Json.str?, Option.bind_eq_some_iff] at hfields
  obtain ⟨signingKey, -, hfields⟩ := hfields
  cases hfields
  split at hkeys
  · simp only [bind_ok] at hkeys
    obtain ⟨_, -, _, -, _, -, _, -, hkeys⟩ := hkeys
    cases hkeys
    rfl
  · cases hkeys
    rfl

/-- The keys of the recipient a message key is agreed with. -/
def RecipientKeys.publicKeys {α : Type} (keys : RecipientKeys α) : List (List α) :=
  keys.identityKey :: keys.signedPreKey :: (keys.oneTimePreKey.map (·.2)).toList

omit [FloatFormat] in
/-- **One key the attacker lacks is enough**: the message key takes the secret of the
ephemeral key with each key of the recipient. -/
theorem not_mayKnow_senderKey_of_mem {A : Attacker} {E : Encrypted}
    {privateKey ephemeral owner messageKey : List Symbol} {keys : RecipientKeys Symbol}
    (hephemeral : A.Lacks ephemeral)
    (howner : A.Lacks owner) (hkey : base64Encode (Crypto.boxPublicKey owner) ∈ keys.publicKeys)
    (h : senderKey privateKey ephemeral keys = .ok messageKey) :
    ¬ All (MayKnow A E) messageKey := by
  have hsecret : ∀ {label : String} {s : List Symbol},
      dh ephemeral (base64Encode (Crypto.boxPublicKey owner)) label = .ok s →
        ¬ All (MayKnow A E) s := fun hs => not_mayKnow_dh hephemeral howner hs
  simp only [senderKey, bind_ok] at h
  obtain ⟨dh1, -, dh2, hdh2, dh3, hdh3, h⟩ := h
  simp only [RecipientKeys.publicKeys, List.mem_cons] at hkey
  intro hknown
  split at h
  · rename_i hnone
    rw [mayKnow_deriveX3dhKey h] at hknown
    rcases hkey with hkey | hkey | hkey
    · exact hsecret (hkey ▸ hdh2) (hknown dh2 (by simp))
    · exact hsecret (hkey ▸ hdh3) (hknown dh3 (by simp))
    · rw [hnone] at hkey
      cases hkey
  · rename_i publicKey hsome
    simp only [bind_ok] at h
    obtain ⟨dh4, hdh4, h⟩ := h
    rw [mayKnow_deriveX3dhKey h] at hknown
    rcases hkey with hkey | hkey | hkey
    · exact hsecret (hkey ▸ hdh2) (hknown dh2 (by simp))
    · exact hsecret (hkey ▸ hdh3) (hknown dh3 (by simp))
    · rw [hsome] at hkey
      obtain rfl := List.mem_singleton.mp hkey
      exact hsecret hdh4 (hknown dh4 (by simp))

omit [FloatFormat] in
/-- **The key of a message takes a secret with the identity key of the recipient**, and so it
is unknown whatever the prekeys are. -/
theorem not_mayKnow_senderKey {A : Attacker} {E : Encrypted}
    {privateKey ephemeral ownerKey messageKey : List Symbol} {keys : RecipientKeys Symbol}
    (hephemeral : A.Lacks ephemeral) (howner : A.Lacks ownerKey)
    (hkeys : keys.identityKey = base64Encode (Crypto.boxPublicKey ownerKey))
    (h : senderKey privateKey ephemeral keys = .ok messageKey) :
    ¬ All (MayKnow A E) messageKey := by
  have hmem : base64Encode (Crypto.boxPublicKey ownerKey) ∈ keys.publicKeys := by
    rw [← hkeys]
    exact List.mem_cons_self
  exact not_mayKnow_senderKey_of_mem hephemeral howner hmem h

/-! ## Secret texts -/

/-- **Secret messages.**  In a run in which the attacker controls the server and the network and
lacks the identity private key of the recipient, let the secret texts be encrypted only with
the keys of the recipient pinned.  Then nothing the attacker can derive has
a secret text in it.  And when `getPublicKey` accepts a bundle against this pin and
`encryptMessage` accepts it too, the attacker cannot derive the key of a message. -/
theorem message_stays_secret {A : Attacker} {mayFail : FileOp Bytes Symbol → Prop}
    {users : Set (LocalIdentityKey Symbol)} {seen : Set (List Symbol)}
    {log : CallLog (Op Symbol) Op.Res} {fetches : List Fetch} {calls : List Encryption}
    (h : Attack A mayFail users seen log fetches calls) (hmade : ∀ user ∈ users, user.Made)
    {recipient : LocalIdentityKey Symbol} (hrecipient : recipient.Made)
    (hprivate : A.Lacks recipient.privateKey)
    (honly : ∀ c ∈ calls, c.Secret A → c.Pinned recipient) :
    (∀ s, Derives A seen s → ∀ n ∈ A.secrets, .text n ∉ s) ∧
    ∀ (σ : Type) (mayFail' : FileOp Bytes Symbol → Prop)
      (net : HttpRequest Symbol → σ → Option (HttpResponse Symbol) → σ → Prop)
      (client : Client Symbol) (home : Bytes) (userId : UInt64) (w w' : World Symbol σ)
      (bundle : List Symbol) (keys : RecipientKeys Symbol)
      (privateKey ephemeral messageKey : List Symbol),
      (pinned home w.files userId).bind anchorFields =
        some (recipient.publicKey, recipient.signingPublicKey) →
      (getPublicKey client home userId).Runs (exec mayFail' net) w (some (.ok bundle)) w' →
      recipientKeys bundle = .ok keys → A.Lacks ephemeral →
      senderKey privateKey ephemeral keys = .ok messageKey → ¬ Derives A seen messageKey := by
  have hunknown : ∀ {pin : Option (List Symbol)} {bundle : List Symbol} {keys : RecipientKeys Symbol}
      {privateKey ephemeral messageKey : List Symbol},
      pin.bind anchorFields = some (recipient.publicKey, recipient.signingPublicKey) →
      (∀ p, pin = some p → pinningAnchor bundle = .ok p) → recipientKeys bundle = .ok keys →
      A.Lacks ephemeral → senderKey privateKey ephemeral keys = .ok messageKey →
      ¬ All (MayKnow A fun _ _ _ _ => True) messageKey := by
    intro pin bundle keys privateKey ephemeral messageKey hpin hanchor hkeys hephemeral hkey
    obtain ⟨pin, rfl, hfields⟩ := Option.bind_eq_some_iff.mp hpin
    have hidentity : keys.identityKey = base64Encode (Crypto.boxPublicKey recipient.privateKey) := by
      rw [identityKey_of_pinned (hanchor pin rfl) hfields hkeys, hrecipient.publicKey]
    exact not_mayKnow_senderKey hephemeral hprivate hidentity hkey
  have hseen : ∀ s ∈ seen, All (MayKnow A fun _ _ _ _ => True) s := by
    refine h.mayKnow hmade (fun _ _ _ _ _ _ => trivial) ?_
    intro seen c hc hseen hplaintext hanchor hephemeral keys messageKey aad hcomputes hknown
    by_cases hsecret : c.Secret A
    · exact (hunknown (honly c hc hsecret) hanchor hcomputes.recipient hephemeral
        hcomputes.agreement hknown).elim
    · intro a ha
      rcases hplaintext a ha with ⟨n, rfl⟩ | hderives
      · exact fun hn => hsecret ⟨n, hn, ha⟩
      · exact mayKnow_of_derives hseen hderives a List.mem_cons_self
  constructor
  · intro s hs n hn hmem
    exact mayKnow_of_derives hseen hs (.text n) hmem hn
  · intro σ mayFail' net client home userId w w' bundle keys privateKey ephemeral messageKey hpin hrun
      hkeys hephemeral hkey hderives
    have hanchor : ∀ p, pinned home w.files userId = some p → pinningAnchor bundle = .ok p :=
      fun p hp => (ensures_getPublicKey_pinned hp).of_runs hrun bundle rfl
    exact hunknown hpin hanchor hkeys hephemeral hkey (mayKnow_of_derives hseen hderives)

omit [FloatFormat] in
/-- A text that is sent to a recipient with a pin. -/
theorem message_stays_secret_example : letI := plainFloats;
    ∃ (users : Set (LocalIdentityKey Symbol)) (seen : Set (List Symbol))
      (log : CallLog (Op Symbol) Op.Res) (fetches : List Fetch) (calls : List Encryption),
      Attack ⟨{100}, {0}⟩ (fun _ => False) users seen log fetches calls ∧
        (∃ c ∈ calls, c.payload ∈ seen ∧ c.plaintext = [.text 0] ∧ c.Pinned (exampleUser 10)) ∧
        ∀ s, Derives ⟨{100}, {0}⟩ seen s → .text 0 ∉ s := by
  let := plainFloats
  let A : Attacker := ⟨{100}, {0}⟩
  let users : Set (LocalIdentityKey Symbol) := {exampleUser 0, exampleUser 10}
  have hmade : ∀ user ∈ users, user.Made := by
    rintro user (rfl | rfl)
    · exact made_exampleUser 0
    · exact made_exampleUser 10
  have halice : exampleUser 0 ∈ users := .inl rfl
  have hbob : exampleUser 10 ∈ users := .inr rfl
  obtain ⟨seen, log, fetches, c, hattack, hpayload, hcp, -, hpinned⟩ :=
    exists_send (A := A) (Set.finite_singleton 100) hmade halice hbob 0
  have honly : ∀ d ∈ [c], d.Secret A → d.Pinned (exampleUser 10) := by
    intro d hd _
    rwa [List.mem_singleton.mp hd]
  have hsecret := (message_stays_secret hattack hmade (made_exampleUser 10)
    ⟨10, 32, by decide, by decide, rfl⟩ honly).1
  exact ⟨users, _, _, _, _, hattack, ⟨c, List.mem_cons_self, hpayload, hcp, hpinned⟩,
    fun s hs => hsecret s hs 0 rfl⟩

end Kd
