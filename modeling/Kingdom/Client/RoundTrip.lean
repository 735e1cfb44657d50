import Kingdom.Client.PreKeyUse

/-!
# A message is read as it was written

`encryptMessage` for a recipient, then `decryptMessage` by that recipient: the
plaintext comes back, and one prekey is used up.

* `Recordable` — the key file can take the record of a prekey; `recordUsed_returns_iff`.
* `Publishes` — a bundle that lists some of the prekeys of a user.
* `decrypt_encrypt` — the round trip, for identities of any shape.
-/

namespace Kd

open Codec Process Storage Prog

variable {α : Type} [Alphabet α] [Crypto α] [FloatFormat]

/-! ## Recording a prekey -/

/-- The prekeys a key file lists as used. -/
def usedIn (file : Json α) : List (Json α) := ((file.get? usedField).bind Json.arr?).getD []

/-- The file operations of a record that is written, of which each can throw when it
fails. -/
def recordOps (path : Bytes) (text : List α) : List (FileOp Bytes α) :=
  [.createDirectories path, .truncate path, .put path text, .setPermissions path]

/-- The key file can take the record of a prekey: it is read, it is a JSON object whose
list holds numbers, and it is written unless it has the record already. -/
structure Recordable (mayFail : FileOp Bytes α → Prop) (path : Bytes) (fs : Files Bytes α)
    (id : UInt64) : Prop where
  read : ¬ mayFail (.read path)
  file : ∃ text body file, fs path = some text ∧ Json.parse text = some body ∧
    asObject body = .ok file ∧ (alreadyRecorded id (usedIn file) = .ok true ∨
      alreadyRecorded id (usedIn file) = .ok false ∧ ∀ text',
        jsonFileText (file.set usedField (.arr (usedIn file ++ [.unsigned id]))) = .ok text' →
          ∀ o ∈ recordOps path text', ¬ mayFail o)

section Recording

variable {σ : Type} {mayFail : FileOp Bytes α → Prop}
  {net : HttpRequest α → σ → Option (HttpResponse α) → σ → Prop} {w : World α σ} {path : Bytes}

omit [Alphabet α] [Crypto α] [FloatFormat] in
/-- A stream that is closed: nothing is returned but what was known before. -/
theorem returns_of_close {x : Except Exn Unit} {text : List α}
    (h : (do let _ ← perform (.file (.close path text))
             Prog.ofExcept x : Action α Unit).Ensures (exec mayFail net) (fun _ => True) w
      fun y _ => y = .ok ()) : x = .ok () := by
  rw [ensures_bind, ensures_file] at h
  exact (ensures_ofExcept.mp (h.2 _ _ (.inl ⟨rfl, rfl⟩)).2).2

omit [Crypto α] [FloatFormat] in
/-- **A JSON file is written without an exception when no step of it can fail.** -/
theorem writeInPlace_returns_iff {openError writeError : String} {body : Json α} {text : List α}
    (htext : jsonFileText body = .ok text) :
    (writeInPlace openError writeError path body).Ensures (exec mayFail net) (fun _ => True) w
        (fun x _ => x = .ok ()) ↔ ∀ o ∈ recordOps path text, ¬ mayFail o := by
  rw [writeInPlace, ensures_bind, ensures_file, recordOps]
  simp only [List.mem_cons, List.not_mem_nil, or_false, forall_eq_or_imp, forall_eq, true_and]
  constructor
  · intro h
    have hdirs : ¬ mayFail (.createDirectories path) := by
      intro hfail
      cases (h false w.files (.inr ⟨hfail, rfl, rfl⟩)).2
    have h := h true w.files (.inl ⟨rfl, rfl⟩)
    simp only [orFail_true, pure_bind'] at h
    rw [ensures_bind, ensures_file] at h
    obtain ⟨-, h⟩ := h
    have htruncate : ¬ mayFail (.truncate path) := by
      intro hfail
      cases (h false w.files (.inr ⟨hfail, rfl, rfl⟩)).2.2
    have h := (h true _ (.inl ⟨rfl, rfl⟩)).2
    simp only [orFail_true, pure_bind', htext] at h
    rw [ensures_bind, ensures_ofExcept] at h
    have h := h.2
    simp only at h
    rw [ensures_bind, ensures_file] at h
    obtain ⟨-, h⟩ := h
    have hput : ¬ mayFail (.put path text) := by
      intro hfail
      have h := (h ⟨0, 0⟩ _ (.inr ⟨hfail, Nat.le_refl _, Nat.zero_le _, rfl⟩)).2
      -- a stream that takes nothing has not taken the whole text
      have hlength : ¬ 0 = text.length := by
        have hpos := List.length_pos_iff.mpr (jsonFileText_ne_nil htext)
        omega
      simp only [if_neg hlength] at h
      cases returns_of_close h
    have h := (h ⟨0, text.length⟩ _ (.inl ⟨rfl, rfl⟩)).2
    simp only [if_true] at h
    rw [restrictPermissions, ensures_bind, ensures_bind, ensures_file] at h
    have hperm : ¬ mayFail (.setPermissions path) := by
      intro hfail
      cases returns_of_close (h.2 false _ (.inr ⟨hfail, rfl, rfl⟩)).2.2
    exact ⟨hdirs, htruncate, hput, hperm⟩
  · rintro ⟨hdirs, htruncate, hput, hperm⟩ r fs hexec
    obtain ⟨rfl, rfl⟩ := FileOp.exec_reliable hdirs hexec
    simp only [FileOp.answer, FileOp.effect, orFail_true, pure_bind']
    rw [ensures_bind, ensures_file]
    refine ⟨trivial, fun r fs hexec => ⟨trivial, ?_⟩⟩
    obtain ⟨rfl, rfl⟩ := FileOp.exec_reliable htruncate hexec
    simp only [FileOp.answer, FileOp.effect, orFail_true, pure_bind', htext]
    rw [ensures_bind, ensures_ofExcept]
    refine ⟨trivial, ?_⟩
    simp only
    rw [ensures_bind, ensures_file]
    refine ⟨trivial, fun r fs hexec => ⟨trivial, ?_⟩⟩
    obtain ⟨rfl, rfl⟩ := FileOp.exec_reliable hput hexec
    simp only [FileOp.answer, if_true]
    rw [restrictPermissions, ensures_bind, ensures_bind, ensures_file]
    refine ⟨trivial, fun r fs hexec => ⟨trivial, ?_⟩⟩
    obtain ⟨rfl, rfl⟩ := FileOp.exec_reliable hperm hexec
    refine ⟨trivial, ?_⟩
    simp only
    rw [ensures_bind, ensures_file]
    exact ⟨trivial, fun r fs hexec => ⟨trivial, ensures_ofExcept.mpr ⟨trivial, rfl⟩⟩⟩

omit [Crypto α] in
/-- The file of a record can be printed. -/
theorem exists_recordText {text : List α} {body file : Json α} (id : UInt64)
    (hparse : Json.parse text = some body) (hfile : asObject body = .ok file) :
    ∃ text', jsonFileText (file.set usedField (.arr (usedIn file ++ [.unsigned id]))) =
      .ok text' := by
  have hbody : body.Printable := Json.printable_of_parse hparse
  have hprint : file.Printable := by
    cases body with
    | obj fs =>
        cases hfile
        exact hbody
    | null =>
        cases hfile
        exact trivial
    | _ => cases hfile
  have hused : Json.PrintableElems (usedIn file) := by
    unfold usedIn
    cases hget : file.get? usedField with
    | none => exact trivial
    | some v =>
        have hv := Json.printable_get? hprint hget
        cases v with
        | arr xs => exact hv
        | _ => exact trivial
  have hlist : (Json.arr (usedIn file ++ [.unsigned id])).Printable := by
    refine Json.printableElems_iff.mpr fun x hx => ?_
    rcases List.mem_append.mp hx with hx | hx
    · exact Json.printableElems_iff.mp hused x hx
    · rw [List.mem_singleton.mp hx]
      trivial
  obtain ⟨t, ht⟩ := Json.exists_dumpWith (some 2) 0
    (Json.printable_set hprint (validUtf8_bytes "usedOneTimePreKeyIds") hlist)
  exact ⟨_, by rw [jsonFileText, ht]; rfl⟩

omit [Crypto α] in
/-- **A prekey is recorded without an exception exactly when the file can take it.** -/
theorem recordUsed_returns_iff {id : UInt64} :
    (recordUsed path id).Ensures (exec mayFail net) (fun _ => True) w (fun x _ => x = .ok ()) ↔
      Recordable mayFail path w.files id := by
  constructor
  · intro h
    simp only [recordUsed, readKeyFile, readJsonFile, readFile, ensures_bind, ensures_ofExcept,
      true_and] at h
    rw [ensures_file] at h
    obtain ⟨-, h⟩ := h
    have hread : ¬ mayFail (.read path) := by
      intro hfail
      cases (h none w.files (.inr ⟨hfail, .inl rfl, rfl⟩)).2
    have h := (h (w.files path) w.files (.inl ⟨rfl, rfl⟩)).2
    cases htext : w.files path with
    | none =>
        rw [htext] at h
        cases h
    | some text =>
        cases hparse : Json.parse text with
        | none =>
            simp [htext, jsonOfFile, hparse, orThrow] at h
        | some body =>
            simp only [htext, jsonOfFile, hparse, orThrow, Option.elim_some] at h
            cases hfile : asObject body with
            | error e => simp [hfile] at h
            | ok file =>
                have hlist : ((file.get? (bytes "usedOneTimePreKeyIds")).bind Json.arr?).getD [] =
                    usedIn file := rfl
                simp only [hfile, hlist] at h
                cases hused : alreadyRecorded id (usedIn file) with
                | error e => simp [hused] at h
                | ok b =>
                    refine ⟨hread, text, body, file, htext, hparse, hfile, ?_⟩
                    cases b with
                    | true => exact .inl hused
                    | false =>
                        refine .inr ⟨hused, fun text' htext' => ?_⟩
                        simp only [hused] at h
                        exact (writeInPlace_returns_iff htext').mp h
  · rintro ⟨hread, text, body, file, htext, hparse, hfile, hused⟩
    rw [recordUsed, ensures_bind]
    refine ensures_readJsonFile trivial ?_ fun _ hfail => absurd hfail hread
    rw [htext, jsonOfFile, hparse, orThrow, Option.elim_some]
    simp only
    rw [ensures_bind, ensures_ofExcept, hfile]
    refine ⟨trivial, ?_⟩
    change (Prog.ofExcept (alreadyRecorded id (usedIn file)) >>= _).Ensures _ _ _ _
    rcases hused with hused | ⟨hused, hwrite⟩
    · rw [ensures_bind, ensures_ofExcept, hused]
      exact ⟨trivial, trivial, rfl⟩
    · rw [ensures_bind, ensures_ofExcept, hused]
      refine ⟨trivial, ?_⟩
      obtain ⟨text', htext'⟩ := exists_recordText id hparse hfile
      exact (writeInPlace_returns_iff htext').mpr (hwrite text' htext')

omit [Alphabet α] [Crypto α] in
/-- A search among numbers has an answer. -/
theorem exists_alreadyRecorded (id : UInt64) {used : List (Json α)} {ids : List UInt64}
    (h : used.mapM getUInt64 = .ok ids) : ∃ b, alreadyRecorded id used = .ok b := by
  induction used generalizing ids with
  | nil => exact ⟨false, rfl⟩
  | cons v used ih =>
      rw [List.mapM_cons] at h
      obtain ⟨n, hn, h⟩ := bind_ok.mp h
      obtain ⟨ns, hns, -⟩ := bind_ok.mp h
      rw [alreadyRecorded, hn, ok_bind]
      by_cases hid : n = id
      · exact ⟨true, if_pos hid⟩
      · rw [if_neg hid]
        exact ih hns

/-- The key file of a user who is logged in, if there is one: a JSON object whose list of
used prekeys, when it is a list, holds numbers. -/
def KeyFileReady (path : Bytes) (fs : Files Bytes α) : Prop :=
  path = [] ∨ ∃ text file ids, fs path = some text ∧ Json.parse text = some file ∧
    file.isObject = true ∧ recordedIds file = .ok ids

omit [Crypto α] in
/-- When nothing fails, such a file takes any record. -/
theorem KeyFileReady.recordable {fs : Files Bytes α} (h : KeyFileReady path fs)
    (hpath : path ≠ []) (id : UInt64) : Recordable (fun _ => False) path fs id := by
  obtain hempty | ⟨text, file, ids, htext, hparse, hobj, hids⟩ := h
  · exact absurd hempty hpath
  · have hself : asObject file = .ok file := by
      cases file with
      | obj fs => rfl
      | _ => cases hobj
    have hlist : ∃ ids, (usedIn file).mapM getUInt64 = .ok ids := by
      unfold recordedIds at hids
      unfold usedIn
      cases hget : file.get? usedField with
      | none => exact ⟨[], rfl⟩
      | some v =>
          cases v with
          | arr xs =>
              rw [hget] at hids
              exact ⟨ids, hids⟩
          | _ => exact ⟨[], rfl⟩
    obtain ⟨ids', hids'⟩ := hlist
    obtain ⟨b, hb⟩ := exists_alreadyRecorded id hids'
    refine ⟨not_false, text, file, file, htext, hparse, hself, ?_⟩
    cases b with
    | true => exact .inl hb
    | false => exact .inr ⟨hb, fun _ _ _ _ => not_false⟩

/-- **What `decryptMessage` does with a payload that opens under a prekey**: it takes the
prekey from memory, and records it if there is a key file. -/
theorem ensures_decryptMessage_opened [DecidableEq α] {payload senderBundle plaintext : List α}
    {k : LocalIdentityKey α} {conversationId senderId recipientId id : UInt64}
    (hopen : openMessage payload k senderBundle conversationId senderId recipientId =
      .ok (plaintext, some id))
    {Q : Except Exn (LocalIdentityKey α × Except Exn (List α)) → World α σ → Prop} :
    (decryptMessage payload k senderBundle conversationId senderId recipientId).Ensures
        (exec mayFail net) (fun _ => True) w Q ↔
      let erased := { k with oneTimePreKeys := k.oneTimePreKeys.eraseP (·.id = id) }
      if k.keyFilePath = [] then Q (.ok (erased, .ok plaintext)) w
      else (recordUsed k.keyFilePath id).Ensures (exec mayFail net) (fun _ => True) w
        fun x w' => Q (.ok (erased, x.map fun _ => plaintext)) w' := by
  obtain ⟨-, hmem⟩ := openMessage_preKey hopen
  obtain ⟨x, hx, hxid⟩ := hmem id rfl
  have hany : k.oneTimePreKeys.any (·.id = id) = true :=
    List.any_eq_true.mpr ⟨x, hx, by simpa using hxid⟩
  rw [decryptMessage, hopen]
  simp only
  rw [eraseOneTimePreKey, if_pos hany]
  by_cases hpath : k.keyFilePath = []
  · rw [if_pos hpath, if_pos hpath]
    exact ⟨fun h => h.2, fun h => ⟨trivial, h⟩⟩
  · rw [if_neg hpath, if_neg hpath, ensures_bind, ensures_bind, ensures_attempt]
    constructor
    · intro h
      exact ensures_mono h fun x w' hx => hx.2.2
    · intro h
      exact ensures_mono h fun x w' hx => ⟨trivial, trivial, hx⟩

end Recording

/-! ## Bundles that list some prekeys -/

/-- A text that says of a user what the user publishes, and lists these one-time
prekeys. -/
def Publishes [DecidableEq α] (text : List α) (identity : LocalIdentityKey α)
    (keys : List (LocalPreKey α)) : Prop :=
  ∃ bundle listed, Json.parse text = some bundle ∧ validateBundle bundle = .ok () ∧
    bundle.get? (bytes "identityKey") = some (.str identity.publicKey) ∧
    (∃ spk id, bundle.get? (bytes "signedPreKey") = some spk ∧ spk.get? (bytes "id") = some id ∧
      id.uint64? = some identity.signedPreKey.id ∧
      spk.get? (bytes "publicKey") = some (.str identity.signedPreKey.publicKey)) ∧
    bundle.get? (bytes "oneTimePreKeys") = some (.arr listed) ∧
    List.Forall₂ (fun (j : Json α) (k : LocalPreKey α) => (∃ id, j.get? (bytes "id") = some id ∧
      id.uint64? = some k.id) ∧ j.get? (bytes "publicKey") = some (.str k.publicKey)) listed keys

section Bundles

variable [DecidableEq α] {identity : LocalIdentityKey α} {keys : List (LocalPreKey α)}
  {text : List α}

theorem Publishes.exists_bundle (h : Publishes text identity keys) (label : String) :
    ∃ bundle, parseJson text label = .ok bundle ∧ validateBundle bundle = .ok () ∧
      bundle.get? (bytes "identityKey") = some (.str identity.publicKey) := by
  obtain ⟨bundle, -, hparse, hvalid, hik, -⟩ := h
  exact ⟨bundle, parseJson_ok.mpr ⟨hparse, Json.isObject_of_get? hik⟩, hvalid, hik⟩

/-- What `publicBundle` makes of a user with these prekeys is such a text. -/
theorem exists_publishes [LawfulBase64 α] [LawfulDh α] [LawfulSigning α] (h : identity.Made)
    (hkeys : keys.Sublist identity.oneTimePreKeys) :
    ∃ bundle text, publicBundle { identity with oneTimePreKeys := keys } = .ok bundle ∧
      bundle.dump = some text ∧ Publishes text identity keys := by
  have hmade : ({ identity with oneTimePreKeys := keys } : LocalIdentityKey α).Made :=
    { h with
      oneTimePreKeys := fun x hx => h.oneTimePreKeys x (hkeys.subset hx)
      distinct := h.distinct.sublist (hkeys.map _) }
  obtain ⟨bundle, hbundle⟩ := exists_publicBundle hmade
  obtain ⟨text, htext⟩ := Json.exists_dump (printable_publicBundle hmade hbundle)
  refine ⟨bundle, text, hbundle, htext, bundle, keys.map LocalPreKey.json, ?_,
    validateBundle_publicBundle hmade hbundle, ?_⟩
  · rw [Json.parse_dump htext (wf_publicBundle hbundle), norm_publicBundle hbundle]
  · simp only [publicBundle, bind_ok, pure_ok] at hbundle
    obtain ⟨signature, -, rfl⟩ := hbundle
    have hspk : ∀ s : List α, (Json.mkObj [("id", .unsigned identity.signedPreKey.id),
        ("publicKey", .str identity.signedPreKey.publicKey), ("signature", .str s)]).get?
          (bytes "publicKey") = some (.str identity.signedPreKey.publicKey) := by
      intro s
      simp +decide [Json.get?_mkObj, Json.lookup]
    refine ⟨by simp +decide [Json.get?_mkObj, Json.lookup],
      ⟨_, .unsigned identity.signedPreKey.id, by simp +decide [Json.get?_mkObj, Json.lookup]; rfl,
        by simp +decide [Json.get?_mkObj, Json.lookup], rfl, hspk _⟩,
      by simp +decide [Json.get?_mkObj, Json.lookup], ?_⟩
    rw [List.forall₂_map_left_iff]
    refine List.forall₂_same.mpr fun k _ => ⟨⟨.unsigned k.id, ?_, rfl⟩, ?_⟩
    all_goals simp +decide [LocalPreKey.json, Json.get?_mkObj, Json.lookup]

/-- The keys a sender reads of such a text. -/
def keysOf (identity : LocalIdentityKey α) (keys : List (LocalPreKey α)) : RecipientKeys α :=
  ⟨identity.publicKey, identity.signedPreKey.id, identity.signedPreKey.publicKey,
    keys.head?.map fun k => (k.id, k.publicKey)⟩

theorem recipientKeys_of_publishes (h : Publishes text identity keys) :
    recipientKeys text = .ok (keysOf identity keys) := by
  obtain ⟨bundle, listed, hparse, hvalid, hik, ⟨spk, id, hspk, hid, hidn, hpub⟩, hone, hlisted⟩ := h
  have hobj := Json.isObject_of_get? hik
  simp only [recipientKeys, bind_ok, at'_ok, getString_ok, getUInt64_ok]
  refine ⟨bundle, parseJson_ok.mpr ⟨hparse, hobj⟩, (), hvalid, _, hik, _, rfl, spk, hspk, id, hid,
    _, hidn, _, hpub, _, rfl, _, hone, ?_⟩
  cases hlisted with
  | nil => rfl
  | cons hk _ =>
      obtain ⟨⟨id, hid, hidn⟩, hpub⟩ := hk
      simp only [bind_ok, at'_ok, getString_ok, getUInt64_ok]
      exact ⟨id, hid, _, hidn, _, hpub, _, rfl, rfl⟩

end Bundles

/-! ## The round trip -/

section RoundTrip

variable [DecidableEq α] [LawfulBase64 α] [LawfulDh α]

omit [Alphabet α] [Crypto α] [DecidableEq α] [FloatFormat] [LawfulBase64 α] [LawfulDh α] in
/-- What is listed belongs to the recipient. -/
theorem match_keysOf {recipient : LocalIdentityKey α} {keys : List (LocalPreKey α)}
    (h : keys.Sublist recipient.oneTimePreKeys) : (keysOf recipient keys).Match recipient := by
  refine ⟨rfl, rfl, rfl, fun p hp => ?_⟩
  cases keys with
  | nil => cases hp
  | cons k keys =>
      cases hp
      exact ⟨k, h.subset List.mem_cons_self, rfl⟩

/-- The keys of a recipient after a message for the first of these prekeys, or for none. -/
def LocalIdentityKey.afterFirst (recipient : LocalIdentityKey α) :
    List (LocalPreKey α) → LocalIdentityKey α
  | [] => recipient
  | key :: _ => recipient.without key.id

variable {sender recipient : LocalIdentityKey α} {keys others : List (LocalPreKey α)}
  {senderBundle recipientBundle plaintext : List α} {conversationId senderId recipientId : UInt64}

/-- **Every encryption for a recipient opens**, under the first prekey listed. -/
theorem ensures_encryptMessage [LawfulAead α]
    (hhkdf : ∀ x i s : List α, (Crypto.hkdf x i s).isSome = true)
    (hs : sender.Made) (hr : recipient.Made) (hkeys : keys.Sublist recipient.oneTimePreKeys)
    (hbundle : Publishes recipientBundle recipient keys)
    (hsender : Publishes senderBundle sender others) {σ : Type}
    {mayFail : FileOp Bytes α → Prop}
    {net : HttpRequest α → σ → Option (HttpResponse α) → σ → Prop} {w : World α σ} :
    (encryptMessage plaintext sender recipientBundle conversationId senderId recipientId).Ensures
      (exec mayFail net) (fun _ => True) w fun x w' => w' = w ∧ ∃ payload, x = .ok payload ∧
        openMessage payload recipient senderBundle conversationId senderId recipientId =
          .ok (plaintext, keys.head?.map (·.id)) := by
  have hmatch := match_keysOf hkeys
  obtain ⟨bundle, hparse, hvalid, hik⟩ := hsender.exists_bundle "senderBundle"
  rw [encryptMessage, recipientKeys_of_publishes hbundle, ensures_bind, ensures_ofExcept]
  refine ⟨trivial, ?_⟩
  simp only
  rw [ensures_bind, ensures_boxKeypair]
  refine ⟨trivial, fun ephemeral _ => ?_⟩
  obtain ⟨messageKey, hkey⟩ := exists_senderKey hr hmatch hhkdf sender.privateKey ephemeral
  simp only [hkey]
  rw [ensures_bind, ensures_ofExcept]
  refine ⟨trivial, ?_⟩
  simp only
  rw [ensures_bind, ensures_random]
  refine ⟨trivial, fun nonce hnonce => ?_⟩
  have hsenderText : validUtf8 sender.publicKey = true := hs.publicKey ▸ LawfulBase64.validUtf8_encode _
  have hrecipientText : validUtf8 recipient.publicKey = true :=
    hr.publicKey ▸ LawfulBase64.validUtf8_encode _
  obtain ⟨payload, hpayload⟩ := exists_sealMessage plaintext (keysOf recipient keys) conversationId
    senderId recipientId messageKey nonce hsenderText
    (LawfulBase64.validUtf8_encode (Crypto.boxPublicKey ephemeral)) hrecipientText
  have hopen := openMessage_sealMessage hs hr hmatch hkey hnonce hpayload hparse hvalid hik
  simp only
  rw [ensures_ofExcept]
  refine ⟨trivial, rfl, payload, hpayload, ?_⟩
  rw [hopen, keysOf, Option.map_map]
  rfl

/-- **A message is read as it was written**, by a recipient with or without a key file; it
uses up exactly the first prekey its bundle listed.  The bundle may list any of the prekeys
the recipient has left. -/
theorem decrypt_encrypt [LawfulAead α]
    (hhkdf : ∀ x i s : List α, (Crypto.hkdf x i s).isSome = true) (plaintext : List α)
    (conversationId senderId recipientId : UInt64) (fs : Files Bytes α) (hs : sender.Made)
    (hr : recipient.Made) (hkeys : keys.Sublist recipient.oneTimePreKeys)
    (hbundle : Publishes recipientBundle recipient keys)
    (hsender : Publishes senderBundle sender others)
    (hfile : KeyFileReady recipient.keyFilePath fs) :
    let exchange := do
      let payload ← encryptMessage plaintext sender recipientBundle conversationId senderId
        recipientId
      decryptMessage payload recipient senderBundle conversationId senderId recipientId
    (∃ x w, exchange.Runs (onFiles fun _ => False) ⟨fs, ()⟩ (some x) w) ∧
      ∀ x w, exchange.Runs (onFiles fun _ => False) ⟨fs, ()⟩ (some x) w →
        x = .ok (recipient.afterFirst keys, .ok plaintext) := by
  intro exchange
  refine ⟨exists_runs (onFiles_total _) exchange _, fun x w hrun => ?_⟩
  refine Ensures.of_runs (I := fun _ => True) (Q := fun x _ =>
    x = .ok (recipient.afterFirst keys, .ok plaintext)) (ensures_bind.mpr (ensures_mono
      (ensures_encryptMessage hhkdf hs hr hkeys hbundle hsender) ?_)) hrun
  rintro _ _ ⟨rfl, payload, rfl, hopen⟩
  simp only
  cases keys with
  | nil =>
      rw [decryptMessage, hopen]
      exact ⟨trivial, rfl⟩
  | cons key keys =>
      have herased : ({ recipient with
          oneTimePreKeys := recipient.oneTimePreKeys.eraseP (·.id = key.id) }) =
            recipient.without key.id := by
        rw [LocalIdentityKey.without, eraseP_eq_filter hr.distinct]
      refine (ensures_decryptMessage_opened hopen).mpr ?_
      simp only
      rw [herased]
      by_cases hpath : recipient.keyFilePath = []
      · rw [if_pos hpath]
        rfl
      · rw [if_neg hpath]
        refine ensures_mono (recordUsed_returns_iff.mpr (hfile.recordable hpath key.id)) ?_
        rintro _ _ rfl
        rfl

end RoundTrip

/-! ## An example -/

/-- A user whose private keys are all zero. -/
def zeroIdentity (signedPreKeyId : UInt64) (ids : List UInt64) (path : Bytes) :
    LocalIdentityKey UInt8 :=
  letI := plainCrypto
  let key := List.replicate 32 0
  let publicKey := base64Encode (Crypto.boxPublicKey key)
  let signingKey := List.replicate 64 0
  ⟨publicKey, key, base64Encode (Crypto.signPublicKey signingKey), signingKey,
    ⟨signedPreKeyId, key, publicKey⟩, ids.map fun id => ⟨id, key, publicKey⟩, path⟩

omit [FloatFormat] in
theorem made_zeroIdentity (signedPreKeyId : UInt64) (ids : List UInt64) (path : Bytes)
    (h : ids.Nodup) : letI := plainCrypto; (zeroIdentity signedPreKeyId ids path).Made := by
  let := plainCrypto
  refine ⟨List.length_replicate, rfl, List.length_replicate, rfl, ⟨List.length_replicate, rfl⟩, ?_,
    ?_⟩
  · intro x hx
    obtain ⟨id, -, rfl⟩ := List.mem_map.mp hx
    exact ⟨List.length_replicate, rfl⟩
  · have hids : (zeroIdentity signedPreKeyId ids path).oneTimePreKeys.map (·.id) = ids := by
      rw [zeroIdentity, List.map_map]
      exact List.map_id ids
    rw [hids]
    exact h

omit [FloatFormat] in
/-- The bundle lists the second of two prekeys. -/
theorem decrypt_encrypt_example : letI := plainFloats; letI := plainCrypto;
    ∃ (recipientBundle senderBundle : List UInt8) (x : _) (w : _),
      (encryptMessage (bytes "hello") (zeroIdentity 1 [] []) recipientBundle 1 2 3 >>= fun payload =>
        decryptMessage payload (zeroIdentity 7 [5, 6] []) senderBundle 1 2 3).Runs
          (onFiles fun _ => False) ⟨fun _ => none, ()⟩ (some x) w ∧
        x = .ok (zeroIdentity 7 [5] [], .ok (bytes "hello")) := by
  let := plainFloats
  let := plainCrypto
  have := lawfulBase64_plain
  have := lawfulDh_plain
  have := lawfulSigning_plain
  have := lawfulAead_plain
  have hs := made_zeroIdentity 1 [] [] (by decide)
  have hr := made_zeroIdentity 7 [5, 6] [] (by decide)
  have hkeys : ((zeroIdentity 7 [5, 6] []).oneTimePreKeys.drop 1).Sublist
      (zeroIdentity 7 [5, 6] []).oneTimePreKeys := List.drop_sublist 1 _
  obtain ⟨_, recipientBundle, -, -, hbundle⟩ := exists_publishes hr hkeys
  obtain ⟨_, senderBundle, -, -, hsender⟩ := exists_publishes hs (List.Sublist.refl _)
  obtain ⟨⟨x, w, hrun⟩, hall⟩ := decrypt_encrypt (fun _ _ _ => rfl) (bytes "hello") 1 2 3
    (fun _ => none) hs hr hkeys hbundle hsender (.inl rfl)
  exact ⟨recipientBundle, senderBundle, x, w, hrun, hall x w hrun⟩

end Kd
