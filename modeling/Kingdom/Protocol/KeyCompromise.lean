import Kingdom.Protocol.MessageSecrecy

/-!
# Compromised keys

Which messages an attacker reads who has come by some of the private keys of the
users, now or later.  A message key is agreed with three keys of the recipient: the
identity key, the signed prekey and, when the bundle lists one, a one-time prekey.

* `Encryption.Readable` — the attacker has the private half of each of these keys.
* `derives_senderKey` — then it computes the message key.
* `Encryption.derives_plaintext` — and decrypts the payload.
* `text_derived_iff` — so exactly the texts of the readable messages are lost.  The keys
  of the sender do not matter, and a one-time prekey protects its message when the other
  two keys are lost.
-/

namespace Kd

open Codec Process Prog Storage Kd.Symbol

variable [FloatFormat]

/-! ## The keys of a message -/

/-- The key is the public half of a key pair that was generated. -/
def IsPublicKey (key : List Symbol) : Prop :=
  ∃ n len, 0 < len ∧ key = base64Encode (Crypto.boxPublicKey (block (.privateKey n) len))

/-- The key is the public half of a private key the attacker owns. -/
def Attacker.Opens (A : Attacker) (key : List Symbol) : Prop :=
  ∃ n ∈ A.owns, ∃ len, key = base64Encode (Crypto.boxPublicKey (block (.privateKey n) len))

/-- The recipient of the call is somebody with key pairs. -/
def Encryption.Addressed (c : Encryption) : Prop :=
  ∀ keys, recipientKeys c.bundle = .ok keys → ∀ key ∈ keys.publicKeys, IsPublicKey key

/-- The attacker has the private half of every key the message key is agreed with. -/
def Encryption.Readable (A : Attacker) (c : Encryption) : Prop :=
  ∃ keys, recipientKeys c.bundle = .ok keys ∧ ∀ key ∈ keys.publicKeys, A.Opens key

variable {A : Attacker} {E : Encrypted} {seen : Set (List Symbol)}
  {privateKey ephemeral messageKey : List Symbol} {keys : RecipientKeys Symbol}

/-! ## What the private keys open -/

omit [FloatFormat] in
theorem derives_block {n : Nat} (hn : n ∈ A.owns) (len : Nat) :
    Derives A seen (block (.privateKey n) len) := by
  refine derives_of_all fun a ha => ?_
  obtain ⟨i, -, rfl⟩ := mem_block.mp ha
  exact .own hn i

omit [FloatFormat] in
/-- With its private key, the secret a key shares with any other. -/
theorem derives_dh {a key s : List Symbol} {label : String} (hkey : A.Opens key)
    (h : dh a key label = .ok s) : Derives A seen s := by
  obtain ⟨n, hn, len, rfl⟩ := hkey
  rw [dh_eq, orThrow_ok, LawfulDh.comm] at h
  exact .scalarmult (derives_block hn len) (.boxPublicKey a) h

omit [FloatFormat] in
theorem derives_deriveX3dhKey {outputs : List (List Symbol)} {key : List Symbol}
    (h : deriveX3dhKey outputs = .ok key) (houtputs : ∀ s ∈ outputs, Derives A seen s) :
    Derives A seen key := by
  rw [deriveX3dhKey, deriveKey, orThrow_ok] at h
  refine .hkdf ?_ (.bytes _) (.bytes _) h
  refine derives_of_all fun a ha => ?_
  obtain ⟨s, hs, ha⟩ := List.mem_flatten.mp ha
  exact (houtputs s hs).all a ha

omit [FloatFormat] in
/-- **With all the private keys of the recipient** the attacker computes the message key, as
the recipient does. -/
theorem derives_senderKey (hkeys : ∀ key ∈ keys.publicKeys, A.Opens key)
    (h : senderKey privateKey ephemeral keys = .ok messageKey) : Derives A seen messageKey := by
  simp only [RecipientKeys.publicKeys, List.forall_mem_cons] at hkeys
  obtain ⟨hidentity, hsigned, hone⟩ := hkeys
  simp only [senderKey, bind_ok] at h
  obtain ⟨dh1, hdh1, dh2, hdh2, dh3, hdh3, h⟩ := h
  have h1 : Derives A seen dh1 := derives_dh hsigned hdh1
  have h2 : Derives A seen dh2 := derives_dh hidentity hdh2
  have h3 : Derives A seen dh3 := derives_dh hsigned hdh3
  split at h
  · refine derives_deriveX3dhKey h ?_
    simp only [List.forall_mem_cons]
    exact ⟨h1, h2, h3, List.forall_mem_nil _⟩
  · rename_i publicKey hsome
    simp only [bind_ok] at h
    obtain ⟨dh4, hdh4, h⟩ := h
    have hopens : A.Opens publicKey := hone _ (by rw [hsome]; exact List.mem_singleton_self _)
    have h4 : Derives A seen dh4 := derives_dh hopens hdh4
    refine derives_deriveX3dhKey h ?_
    simp only [List.forall_mem_cons]
    exact ⟨h1, h2, h3, h4, List.forall_mem_nil _⟩

/-- Whoever has a payload and its key has the text. -/
theorem Encryption.Computes.derives_plaintext {c : Encryption} {aad : List Symbol}
    (h : c.Computes keys messageKey aad) (hnonce : c.nonce.length = 24)
    (hpayload : Derives A seen c.payload) (hkey : Derives A seen messageKey) :
    Derives A seen c.plaintext := by
  let f : PayloadFields Symbol := ⟨c.sender.publicKey,
    base64Encode (Crypto.boxPublicKey c.ephemeral), keys.signedPreKeyId,
    keys.oneTimePreKey.map (·.1), c.nonce, Crypto.aeadEncrypt c.plaintext aad c.nonce messageKey⟩
  have hlength : 16 ≤ f.ciphertext.length := LawfulAead.length_encrypt _ _ _ _
  obtain ⟨j, hj, hf⟩ := payloadFields_of (f := f) "message payload" hnonce hlength h.printed
  obtain ⟨s, hs, hdecode, -⟩ := hf.ciphertext
  -- every part of a payload can be taken out of it
  have hover : Json.Over (fun a => Derives A seen [a]) j :=
    Json.over_parse (fun b => .bytes [b]) (parseJson_ok.mp hj).1 hpayload.all
  have hciphertext : Derives A seen s := derives_of_all (Json.over_get? hover hs)
  exact .aeadDecrypt (.base64Decode hciphertext hdecode) hkey (aeadDecrypt_eq_some.mpr rfl)

section Runs

variable {mayFail : FileOp Bytes Symbol → Prop} {users : Set (LocalIdentityKey Symbol)}
  {log : CallLog (Op Symbol) Op.Res} {fetches : List Fetch} {calls : List Encryption}

/-- Every payload was sent. -/
theorem Attack.payload_mem (h : Attack A mayFail users seen log fetches calls) {c : Encryption}
    (hc : c ∈ calls) : c.payload ∈ seen := by
  induction h with
  | start => cases hc
  | fetch _ _ hrun ih =>
      rw [server_getPublicKey hrun]
      exact Set.mem_insert_of_mem _ (Set.mem_insert_of_mem _ (ih hc))
  | encrypt _ _ _ _ hrun ih =>
      obtain ⟨rfl, -⟩ := Encryption.computes_of_runs hrun
      rcases List.mem_append.mp hc with hc | hc
      · exact Set.mem_insert_of_mem _ (ih hc)
      · rw [List.mem_singleton.mp hc]
        exact Set.mem_insert _ _
  | send _ _ _ _ hrun ih =>
      obtain ⟨rfl, -⟩ := Encryption.computes_of_runs hrun
      rcases List.mem_append.mp hc with hc | hc
      · exact Set.mem_insert_of_mem _ (ih hc)
      · rw [List.mem_singleton.mp hc]
        exact Set.mem_insert _ _

/-- **A readable message is read.** -/
theorem Attack.derives_plaintext (h : Attack A mayFail users seen log fetches calls)
    {c : Encryption} (hc : c ∈ calls) (hreadable : c.Readable A) : Derives A seen c.plaintext := by
  obtain ⟨-, ⟨_, hdrawn⟩, keys, messageKey, aad, hcomputes⟩ := h.sent hc
  obtain ⟨keys', hkeys', hopens⟩ := hreadable
  obtain rfl : keys = keys' := Except.ok.inj (hcomputes.recipient.symm.trans hkeys')
  obtain ⟨name, hnonce⟩ := hdrawn.nonce
  have hlength : c.nonce.length = 24 := hnonce ▸ length_block _ _
  exact hcomputes.derives_plaintext hlength (.observe (h.payload_mem hc))
    (derives_senderKey hopens hcomputes.agreement)

/-- A key that is no key of the attacker's belongs to somebody else. -/
theorem Encryption.Addressed.exists_lacks {c : Encryption} (h : c.Addressed)
    (hkeys : recipientKeys c.bundle = .ok keys) (hreadable : ¬ c.Readable A) :
    ∃ owner, A.Lacks owner ∧ base64Encode (Crypto.boxPublicKey owner) ∈ keys.publicKeys := by
  by_contra hnone
  simp only [not_exists, not_and] at hnone
  refine hreadable ⟨keys, hkeys, fun key hkey => ?_⟩
  obtain ⟨n, len, hlen, rfl⟩ := h keys hkeys key hkey
  by_cases hn : n ∈ A.owns
  · exact ⟨n, hn, len, rfl⟩
  · exact (hnone _ ⟨n, len, hn, hlen, rfl⟩ hkey).elim

/-! ## Exactly the readable messages are lost -/

/-- **What compromised keys give away.**  In a run in which the attacker controls the server
and the network and owns any private keys, let a secret text be encrypted only for
recipients with key pairs of their own.  Then the attacker can derive the text if and only if
it was encrypted in a message for which it owns the private half of each key of
the recipient: identity key, signed prekey and, when one was used, one-time prekey. -/
theorem text_derived_iff (h : Attack A mayFail users seen log fetches calls)
    (hmade : ∀ user ∈ users, user.Made) {n : Nat} (hn : n ∈ A.secrets)
    (haddressed : ∀ c ∈ calls, .text n ∈ c.plaintext → c.Addressed) :
    (∃ s, Derives A seen s ∧ .text n ∈ s) ↔ ∃ c ∈ calls, .text n ∈ c.plaintext ∧ c.Readable A := by
  constructor
  · rintro ⟨s, hs, hmem⟩
    by_contra hnone
    simp only [not_exists, not_and] at hnone
    -- the attacker may know every other text
    let A' : Attacker := { A with secrets := {n} }
    have hsub : A'.secrets ⊆ A.secrets := Set.singleton_subset_iff.mpr hn
    have hseen : ∀ s ∈ seen, All (MayKnow A' fun _ _ _ _ => True) s := by
      refine (h.telling hsub).mayKnow hmade (fun _ _ _ _ _ _ => trivial) ?_
      intro seen c hc hseen hplaintext _ hephemeral keys messageKey aad hcomputes hknown
      by_cases htext : .text n ∈ c.plaintext
      · obtain ⟨owner, howner, hkey⟩ := (haddressed c hc htext).exists_lacks hcomputes.recipient
          (hnone c hc htext)
        exact (not_mayKnow_senderKey_of_mem hephemeral howner hkey hcomputes.agreement hknown).elim
      · intro a ha
        rcases hplaintext a ha with ⟨m, rfl⟩ | hderives
        · intro hm
          exact htext (Set.mem_singleton_iff.mp hm ▸ ha)
        · exact mayKnow_of_derives hseen hderives a List.mem_cons_self
    have howns : A.owns ⊆ A'.owns := subset_rfl
    have hderives : Derives A' seen s := hs.mono howns hsub subset_rfl
    exact mayKnow_of_derives hseen hderives (.text n) hmem rfl
  · rintro ⟨c, hc, hmem, hreadable⟩
    exact ⟨c.plaintext, h.derives_plaintext hc hreadable, hmem⟩

end Runs

/-! ## Two attackers -/

/-- The keys of a bundle of `exampleUser 10`. -/
theorem publicKeys_example {bundle key : List Symbol} {keys : RecipientKeys Symbol}
    (hbundle : Publishes bundle (exampleUser 10) (exampleUser 10).oneTimePreKeys)
    (hkeys : recipientKeys bundle = .ok keys) : key ∈ keys.publicKeys ↔
      ∃ n ∈ [10, 12, 13], key = base64Encode (Crypto.boxPublicKey (block (.privateKey n) 32)) := by
  rw [recipientKeys_of_publishes hbundle] at hkeys
  obtain rfl := Except.ok.inj hkeys
  simp [RecipientKeys.publicKeys, keysOf, exampleUser]

omit [FloatFormat] in
/-- The one-time prekey keeps a message secret when the identity key and the signed prekey of
its recipient are lost; when it is lost too, the message is. -/
theorem text_derived_example : letI := plainFloats;
    (∃ (users : Set (LocalIdentityKey Symbol)) (seen : Set (List Symbol))
      (log : CallLog (Op Symbol) Op.Res) (fetches : List Fetch) (c : Encryption),
      Attack ⟨{10, 12}, {0}⟩ (fun _ => False) users seen log fetches [c] ∧
        .text 0 ∈ c.plaintext ∧ ¬ ∃ s, Derives ⟨{10, 12}, {0}⟩ seen s ∧ .text 0 ∈ s) ∧
    ∃ (users : Set (LocalIdentityKey Symbol)) (seen : Set (List Symbol))
      (log : CallLog (Op Symbol) Op.Res) (fetches : List Fetch) (c : Encryption),
      Attack ⟨{10, 12, 13}, {0}⟩ (fun _ => False) users seen log fetches [c] ∧
        .text 0 ∈ c.plaintext ∧ ∃ s, Derives ⟨{10, 12, 13}, {0}⟩ seen s ∧ .text 0 ∈ s := by
  let := plainFloats
  let users : Set (LocalIdentityKey Symbol) := {exampleUser 0, exampleUser 10}
  have hmade : ∀ user ∈ users, user.Made := by
    rintro user (rfl | rfl)
    · exact made_exampleUser 0
    · exact made_exampleUser 10
  have halice : exampleUser 0 ∈ users := .inl rfl
  have hbob : exampleUser 10 ∈ users := .inr rfl
  have haddressed : ∀ {c : Encryption},
      Publishes c.bundle (exampleUser 10) (exampleUser 10).oneTimePreKeys → c.Addressed := by
    intro c hbundle keys hkeys key hkey
    obtain ⟨n, -, rfl⟩ := (publicKeys_example hbundle hkeys).mp hkey
    exact ⟨n, 32, by decide, rfl⟩
  constructor
  · let A : Attacker := ⟨{10, 12}, {0}⟩
    obtain ⟨seen, log, fetches, c, hattack, -, hcp, hbundle, -⟩ :=
      exists_send (A := A) (Set.toFinite _) hmade halice hbob 0
    have htext : .text 0 ∈ c.plaintext := hcp ▸ List.mem_singleton_self _
    have hiff := text_derived_iff hattack hmade (n := 0) rfl
      fun d hd _ => List.mem_singleton.mp hd ▸ haddressed hbundle
    refine ⟨users, seen, log, fetches, c, hattack, htext, fun hderived => ?_⟩
    obtain ⟨d, hd, -, keys, hkeys, hopens⟩ := hiff.mp hderived
    rw [List.mem_singleton.mp hd] at hkeys
    -- the attacker does not own the one-time prekey
    obtain ⟨n, hn, len, hkey⟩ := hopens _ ((publicKeys_example hbundle hkeys).mpr ⟨13, by simp, rfl⟩)
    obtain ⟨-, hname⟩ := block_inj (by decide) (boxPublicKey_inj (base64Encode_inj hkey))
    cases hname
    simp [A] at hn
  · let A : Attacker := ⟨{10, 12, 13}, {0}⟩
    obtain ⟨seen, log, fetches, c, hattack, -, hcp, hbundle, -⟩ :=
      exists_send (A := A) (Set.toFinite _) hmade halice hbob 0
    have htext : .text 0 ∈ c.plaintext := hcp ▸ List.mem_singleton_self _
    have hiff := text_derived_iff hattack hmade (n := 0) rfl
      fun d hd _ => List.mem_singleton.mp hd ▸ haddressed hbundle
    refine ⟨users, seen, log, fetches, c, hattack, htext, hiff.mpr ⟨c, List.mem_singleton_self _, htext,
      _, recipientKeys_of_publishes hbundle, fun key hkey => ?_⟩⟩
    obtain ⟨n, hn, rfl⟩ := (publicKeys_example hbundle (recipientKeys_of_publishes hbundle)).mp hkey
    exact ⟨n, by simpa [A] using hn, 32, rfl⟩

end Kd
