import Kingdom.Client.StoreSessions

/-!
# What an attacker can make a store return

The file of a store is replaced between calls by someone who does not know the password.
What it encrypts is authentic; a file of version 1 is not encrypted, though, and the store
reads one whenever it finds it.

* `Carries`, `Unforged` — the ciphertexts of a text, and those an attacker can have: what
  decrypts under a key of the user was written by the user.
* `AtRestRun` — the sessions of the user and the replacements of the attacker.
* `AuthenticAtRest` — what a session on a file of version 2 returns was saved.
* `authentic_of_encrypted` — this holds while no call reads a file of version 1.
-/

namespace Kd

open Codec Process Storage Prog

variable {α : Type} [Alphabet α] [FloatFormat]

/-! ## The texts of an attacker -/

/-- A store of version 1, as the store takes it: a JSON object that says so or says nothing
of its version. -/
def ReadsAsVersion1 (text : List α) : Prop :=
  ∃ j, Json.parse text = some j ∧ j.isObject = true ∧ valueOr getInt j "version" 1 = .ok 1

section Texts

variable [Crypto α]

/-- The text is an envelope with this nonce and ciphertext. -/
def Carries (text nonce ciphertext : List α) : Prop :=
  ∃ j n c, Json.parse text = some j ∧ j.get? (bytes "nonce") = some (.str n) ∧
    Decodes 24 n nonce ∧ j.get? (bytes "ciphertext") = some (.str c) ∧
    Crypto.base64Decode c = some ciphertext

/-- The text of someone who does not know the password: what it carries decrypts under a
key of the user only when the user has written it. -/
def Unforged (username password : List α) (written : List (List α)) (text : List α) : Prop :=
  ∀ nonce ciphertext params key plaintext, Carries text nonce ciphertext →
    deriveCacheEncryptionKey password params = .ok key →
    Crypto.aeadDecrypt ciphertext (cacheAssociatedData username) nonce key = some plaintext →
    ∃ t ∈ written, Carries t nonce ciphertext

end Texts

/-! ## Runs -/

/-- A session of the user, and the files when it was opened. -/
structure AtRestSession (α : Type) where
  path : Bytes
  store : MessageStore α
  opened : Files Bytes α

/-- The file was in version 2 form when the session was opened. -/
def AtRestSession.OnVersion2 (s : AtRestSession α) : Prop :=
  ∃ text j v, s.opened s.path = some text ∧ Json.parse text = some j ∧
    j.get? (bytes "version") = some v ∧ v.int? = some 2

/-- A call that has ended. -/
structure AtRestCall (α : Type) where
  session : AtRestSession α
  op : StoreOp α
  outcome : Except Exn (Option (List α))

/-- What a step of the user leaves in the file, when it changes it. -/
def leftBy [DecidableEq α] (path : Bytes) (fs fs' : Files Bytes α) : List (List α) :=
  if fs' path = fs path then [] else (fs' path).toList

/-- Sessions of one user, any number at a time, and an attacker who replaces files between
the calls: the calls that were made, the texts they wrote, the sessions and the files.
Every call finds a file that `finds` allows. -/
inductive AtRestRun [Crypto α] [DecidableEq α] (finds : List α → Prop) (username password : List α) :
    List (AtRestCall α) → List (List α) → List (AtRestSession α) → Files Bytes α → Prop where
  | start {fs} (hfs : ∀ p text, fs p = some text → Unforged username password [] text) :
      AtRestRun finds username password [] [] [] fs
  | opened {log written sessions fs path x fs'}
      (h : AtRestRun finds username password log written sessions fs)
      (hfinds : ∀ text, fs path = some text → finds text)
      (hopen : (encryptedAtPath path username password).Runs (onFiles fun _ => False) ⟨fs, ()⟩
        (some x) ⟨fs', ()⟩) :
      AtRestRun finds username password log (written ++ leftBy path fs fs')
        (sessions ++ (x.toOption.map fun store => ⟨path, store, fs⟩).toList) fs'
  | call {log written sessions fs s op outcome fs'}
      (h : AtRestRun finds username password log written sessions fs) (hs : s ∈ sessions)
      (hfinds : ∀ text, fs s.path = some text → finds text)
      (hcall : (op.run s.store).Runs (onFiles fun _ => False) ⟨fs, ()⟩ (some outcome) ⟨fs', ()⟩) :
      AtRestRun finds username password (log ++ [⟨s, op, outcome⟩])
        (written ++ leftBy s.path fs fs') sessions fs'
  | attack {log written sessions fs fs'}
      (h : AtRestRun finds username password log written sessions fs)
      (hfs : ∀ p text, fs' p = some text → Unforged username password written text) :
      AtRestRun finds username password log written sessions fs'

/-- The plaintext was saved for the message. -/
def SavedIn (log : List (AtRestCall α)) (id : UInt64) (t : List α) : Prop :=
  ∃ c ∈ log, c.op.Saves id t ∧ c.outcome = .ok none

/-- What a session that was opened on a file of version 2 returns was saved before. -/
def AuthenticAtRest (log : List (AtRestCall α)) : Prop :=
  ∀ before c after, log = before ++ c :: after → c.session.OnVersion2 →
    ∀ id t, c.op = .get id → c.outcome = .ok (some t) → SavedIn before id t

/-! ## Contents -/

/-- Contents that read back as they are printed. -/
structure IsContents (contents : Json α) : Prop where
  object : contents.isObject = true
  messages : (messagesOf contents).isObject = true
  wf : contents.WF

theorem IsStore.isContents {contents : Json α} (h : IsStore contents) : IsContents contents :=
  ⟨h.object, h.messages, h.wf⟩

theorem IsContents.read {contents : Json α} (h : IsContents contents) {text : List α}
    (hdump : contents.dumpWith (some 2) 0 = some text) :
    Json.parse text = some contents.norm ∧ IsStore contents.norm := by
  have hparse : Json.parse text = some contents.norm := Json.parse_dumpWith hdump h.wf
  refine ⟨hparse, ?_, ?_, Json.wf_of_parse hparse, Json.printable_of_parse hparse⟩
  · rw [Json.isObject_norm]
    exact h.object
  · rw [messagesOf_norm, Json.isObject_norm]
    exact h.messages

/-- What a call does to the contents. -/
def StoreOp.rewrite : StoreOp α → Json α → Json α
  | get _, contents => contents
  | save r, contents => withPlaintext contents r
  | delete id, contents => withoutPlaintext contents id

theorem IsStore.rewrite {contents : Json α} (h : IsStore contents) (op : StoreOp α) :
    IsContents (op.rewrite contents) := by
  cases op with
  | get _ => exact h.isContents
  | save r =>
      have hset : ((messagesOf contents).set (decimal r.messageId.toNat) r.json).isObject = true :=
        Json.isObject_set h.messages
      refine ⟨Json.isObject_set h.object, ?_, ?_⟩
      · rw [StoreOp.rewrite, Kd.withPlaintext, messagesOf_set h.object]
        exact hset
      · exact Json.wf_set h.wf (Json.wf_set h.messages_wf.1 (Json.wf_mkObj (by simp [Json.WF])))
  | delete id => exact (h.withoutPlaintext id).isContents

theorem plaintextOf_rewrite {contents : Json α} (h : IsStore contents) (op : StoreOp α) :
    plaintextOf (op.rewrite contents) = op.effect (plaintextOf contents) := by
  funext id
  cases op with
  | get _ => rfl
  | save r =>
      rw [StoreOp.rewrite, plaintextOf_withPlaintext h, StoreOp.effect, Function.update_apply]
  | delete id' =>
      rw [StoreOp.rewrite, plaintextOf_withoutPlaintext h, StoreOp.effect, Function.update_apply]

/-! ## What a call reads -/

section Calls

variable [Crypto α] [DecidableEq α]

/-- **What an envelope that opens carries.** -/
theorem openEnvelope_ok {store : MessageStore α} {envelope contents : Json α}
    (h : openEnvelope store envelope = .ok contents)
    (hversion : valueOr getInt envelope "version" 1 ≠ .ok 1) :
    ∃ n nonce c ciphertext plaintext parsed, envelope.get? (bytes "nonce") = some (.str n) ∧
      Decodes 24 n nonce ∧ envelope.get? (bytes "ciphertext") = some (.str c) ∧
      Crypto.base64Decode c = some ciphertext ∧
      Crypto.aeadDecrypt ciphertext (cacheAssociatedData store.username) nonce
        store.encryptionKey = some plaintext ∧
      Json.parse plaintext = some parsed ∧ contents = normalizeStore parsed := by
  rw [openEnvelope] at h
  obtain ⟨v, hv, h⟩ := bind_ok.mp h
  have hv1 : v ≠ 1 := by
    rintro rfl
    exact hversion hv
  rw [if_neg hv1] at h
  -- the version, the names of the algorithms and the fields that must be there
  iterate 14 obtain ⟨_, -, h⟩ := bind_ok.mp h
  obtain ⟨_, hn, h⟩ := bind_ok.mp h
  obtain ⟨n, hnText, h⟩ := bind_ok.mp h
  obtain ⟨nonce, hnonce, h⟩ := bind_ok.mp h
  obtain ⟨_, hc, h⟩ := bind_ok.mp h
  obtain ⟨c, hcText, h⟩ := bind_ok.mp h
  obtain ⟨ciphertext, hciphertext, h⟩ := bind_ok.mp h
  obtain ⟨_, -, h⟩ := bind_ok.mp h
  obtain ⟨plaintext, hplaintext, h⟩ := bind_ok.mp h
  rw [getString_ok.mp hnText] at hn
  rw [getString_ok.mp hcText] at hc
  cases hparse : Json.parse plaintext with
  | none =>
      rw [hparse] at h
      cases h
  | some parsed =>
      rw [hparse] at h
      simp only [bind_ok, pure_ok] at h
      obtain ⟨_, -, rfl⟩ := h
      exact ⟨n, nonce, c, ciphertext, plaintext, parsed, at'_ok.mp hn,
        base64DecodeArray_ok.mp hnonce, at'_ok.mp hc, orThrow_ok.mp hciphertext,
        orThrow_ok.mp hplaintext, hparse, rfl⟩

variable {σ : Type} {net : HttpRequest α → σ → Option (HttpResponse α) → σ → Prop}
  {w : World α σ} {store : MessageStore α} {path : Bytes} {username password : List α}

/-- Reading a store: nothing, or what the file opens to. -/
theorem ensures_readStore_opens (hatRest : store.encryptedAtRest = true) :
    (readStore_ store).Ensures (exec (fun _ => False) net) (fun _ => True) w fun x w' => w' = w ∧
      ∀ contents, x = .ok contents → contents = emptyStore ∨ ∃ text envelope,
        w.files store.storePath = some text ∧ Json.parse text = some envelope ∧
          envelope.isObject = true ∧ openEnvelope store envelope = .ok contents := by
  rw [readStore_]
  by_cases hpath : store.storePath = []
  · rw [if_pos hpath]
    exact ⟨trivial, rfl, fun contents h => .inl (Except.ok.inj h).symm⟩
  · rw [if_neg hpath, ensures_bind]
    refine ensures_fileExists trivial ?_ fun h => h.elim
    cases htext : w.files store.storePath with
    | none => exact ⟨trivial, rfl, fun contents h => .inl (Except.ok.inj h).symm⟩
    | some text =>
        simp only [Option.isSome_some, if_true, hatRest]
        rw [ensures_bind]
        refine ensures_readFile trivial ?_ fun _ h => h.elim
        simp only
        rw [ensures_ofExcept]
        refine ⟨trivial, rfl, fun contents h => .inr ?_⟩
        obtain ⟨envelope, hstrict, hopen⟩ := bind_ok.mp h
        simp only [parseJsonStrict, htext, jsonOfFile, bind_ok, orThrow_ok, ensure_ok, pure_ok]
          at hstrict
        obtain ⟨_, hparse, _, hobj, rfl⟩ := hstrict
        exact ⟨text, _, rfl, hparse, hobj, hopen⟩

omit [FloatFormat] [DecidableEq α] in
/-- Writing a store: the files stay, or its file is sealed. -/
theorem ensures_writeStore_seals [LawfulBase64 α] {contents : Json α}
    (hatRest : store.encryptedAtRest = true) :
    (writeStore_ store contents).Ensures (exec (fun _ => False) net) (fun _ => True) w fun x w' =>
      w'.files = w.files ∨ x = .ok () ∧ ∃ text, Sealed store contents text ∧
        w'.files = moved store.storePath text w.files := by
  rw [writeStore_, if_pos hatRest, ensures_bind, ensures_random]
  refine ⟨trivial, fun nonce hnonce => ?_⟩
  simp only
  rw [ensures_bind, ensures_ofExcept, sealStore]
  refine ⟨trivial, ?_⟩
  cases hdump : contents.dumpWith (some 2) 0 with
  | none => exact .inl rfl
  | some plaintextText =>
      by_cases hpath : store.storePath = []
      · change (writeJsonFile store.storePath _).Ensures _ _ _ _
        rw [writeJsonFile, if_pos hpath]
        exact ⟨trivial, .inl rfl⟩
      · refine ensures_writeJsonFile hpath (fun _ _ => trivial) (fun text htext => ?_)
          (fun e he => ?_) ?_
        · exact .inr ⟨rfl, text, ⟨nonce, plaintextText, hnonce, hdump, htext⟩, rfl⟩
        · obtain ⟨text, htext⟩ := exists_storeText store nonce (Crypto.aeadEncrypt plaintextText
            (cacheAssociatedData store.username) nonce store.encryptionKey)
          cases htext.symm.trans he
        · rintro ⟨_, ho⟩
          exact ho.elim

/-- **A call returns what it reads, or rewrites it.** -/
theorem ensures_storeOp_rewrites [LawfulBase64 α] {P : Json α → Prop} (op : StoreOp α)
    (hatRest : store.encryptedAtRest = true)
    (hread : (readStore_ store).Ensures (exec (fun _ => False) net) (fun _ => True) w
      fun x w' => w' = w ∧ ∀ contents, x = .ok contents → P contents) :
    (op.run store).Ensures (exec (fun _ => False) net) (fun _ => True) w fun x w' =>
      (w'.files = w.files ∧ ∀ id t, op = .get id → x = .ok (some t) →
        ∃ contents, P contents ∧ plaintextOf contents id = some t) ∨
      x = .ok none ∧ ∃ contents text, P contents ∧ Sealed store (op.rewrite contents) text ∧
        w'.files = moved store.storePath text w.files := by
  have hrewrite : ∀ f : Json α → Json α, (do
      let contents ← readStore_ store
      writeStore_ store (f contents) : Action α Unit).Ensures (exec (fun _ => False) net)
        (fun _ => True) w fun x w' => w'.files = w.files ∨ x = .ok () ∧ ∃ contents text,
          P contents ∧ Sealed store (f contents) text ∧
            w'.files = moved store.storePath text w.files := by
    intro f
    rw [ensures_bind]
    refine ensures_mono hread ?_
    rintro x _ ⟨rfl, hP⟩
    cases x with
    | error e => exact .inl rfl
    | ok contents =>
        refine ensures_mono (ensures_writeStore_seals hatRest) ?_
        rintro x w' (hfiles | ⟨rfl, text, hsealed, hfiles⟩)
        · exact .inl hfiles
        · exact .inr ⟨rfl, contents, text, hP contents rfl, hsealed, hfiles⟩
  cases op with
  | get id =>
      rw [StoreOp.run, getPlaintext, ensures_bind]
      refine ensures_mono hread ?_
      rintro x _ ⟨rfl, hP⟩
      cases x with
      | error e => exact .inl ⟨rfl, fun id t _ h => by cases h⟩
      | ok contents =>
          refine ⟨trivial, .inl ⟨rfl, ?_⟩⟩
          rintro _ t ⟨⟩ h
          exact ⟨contents, hP contents rfl, Except.ok.inj h⟩
  | save r =>
      rw [StoreOp.run, savePlaintext, ensures_bind]
      refine ensures_mono (hrewrite (withPlaintext · r)) ?_
      rintro x w' (hfiles | ⟨rfl, contents, text, hP, hsealed, hfiles⟩)
      · cases x with
        | error e => exact .inl ⟨hfiles, fun id t h => by cases h⟩
        | ok _ => exact ⟨trivial, .inl ⟨hfiles, fun id t h => by cases h⟩⟩
      · exact ⟨trivial, .inr ⟨rfl, contents, text, hP, hsealed, hfiles⟩⟩
  | delete id =>
      rw [StoreOp.run, deletePlaintext, ensures_bind]
      refine ensures_mono (hrewrite (withoutPlaintext · id)) ?_
      rintro x w' (hfiles | ⟨rfl, contents, text, hP, hsealed, hfiles⟩)
      · cases x with
        | error e => exact .inl ⟨hfiles, fun id t h => by cases h⟩
        | ok _ => exact ⟨trivial, .inl ⟨hfiles, fun id t h => by cases h⟩⟩
      · exact ⟨trivial, .inr ⟨rfl, contents, text, hP, hsealed, hfiles⟩⟩

omit [Alphabet α] [DecidableEq α] in
theorem storedKdfParams_salt {salt : List α} {parsed : Json α} {params : StoreKdfParams α}
    (hsalt : salt.length = 16) (h : storedKdfParams salt parsed = .ok params) :
    params.salt.length = 16 := by
  rw [storedKdfParams] at h
  obtain ⟨version, -, h⟩ := bind_ok.mp h
  simp only at h
  split at h
  · simp only [bind_ok, base64DecodeArray_ok, pure_ok] at h
    obtain ⟨salt', hsalt', _, -, _, -, rfl⟩ := h
    exact hsalt'.2
  · cases h
    exact hsalt

omit [DecidableEq α] in
theorem ensures_kdfParamsForStore :
    (kdfParamsForStore path).Ensures (exec (fun _ => False) net) (fun _ => True) w fun x w' =>
      w' = w ∧ ∀ params : StoreKdfParams α, x = .ok params → params.salt.length = 16 := by
  rw [kdfParamsForStore, ensures_bind, ensures_random]
  refine ⟨trivial, fun salt hsalt => ?_⟩
  simp only
  rw [ensures_bind]
  refine ensures_fileExists trivial ?_ fun h => h.elim
  cases w.files path with
  | none =>
      refine ⟨trivial, rfl, ?_⟩
      rintro _ ⟨⟩
      exact hsalt
  | some text =>
      simp only [Option.isSome_some, if_true]
      rw [ensures_bind]
      refine ensures_readFile trivial ?_ fun _ h => h.elim
      simp only
      rw [ensures_ofExcept]
      exact ⟨trivial, rfl, fun params h => storedKdfParams_salt hsalt h⟩

omit [DecidableEq α] in
/-- **Opening a store that is not of version 1**: the files stay, or a file without an object
is replaced by an empty store. -/
theorem ensures_encryptedAtPath_encrypted [LawfulBase64 α]
    (hfinds : ∀ text, w.files path = some text → ¬ ReadsAsVersion1 text) :
    (encryptedAtPath path username password).Ensures (exec (fun _ => False) net) (fun _ => True) w
      fun x w' => (w'.files = w.files ∨ ∃ store text, OpenedWith path username password store ∧
        Sealed store emptyStore text ∧ w'.files = moved path text w.files) ∧
        ∀ store, x = .ok store → OpenedWith path username password store := by
  rw [encryptedAtPath, ensures_bind]
  refine ensures_mono ensures_kdfParamsForStore ?_
  rintro x w' ⟨hw, hsalt⟩
  obtain rfl : w = w' := hw.symm
  cases x with
  | error e => exact ⟨.inl rfl, fun store h => by cases h⟩
  | ok params =>
      simp only
      rw [ensures_bind, ensures_ofExcept]
      refine ⟨trivial, ?_⟩
      cases hkey : deriveCacheEncryptionKey password params with
      | error e => exact ⟨.inl rfl, fun store h => by cases h⟩
      | ok key =>
          have hopened : OpenedWith path username password ⟨path, username, key, params.salt,
              params.opsLimit, params.memLimit, true⟩ :=
            ⟨rfl, rfl, rfl, hsalt params rfl, hkey⟩
          have hreturn : ∀ store : MessageStore α, OpenedWith path username password store →
              ∀ store', (Except.ok store : Except Exn (MessageStore α)) = .ok store' →
                OpenedWith path username password store' := by
            rintro store hstore _ ⟨⟩
            exact hstore
          simp only
          rw [ensures_bind]
          refine ensures_fileExists trivial ?_ fun h => h.elim
          cases htext : w.files path with
          | none => exact ⟨trivial, .inl rfl, hreturn _ hopened⟩
          | some text =>
              simp only [Option.isSome_some, if_true]
              rw [ensures_bind]
              refine ensures_readFile trivial ?_ fun _ h => h.elim
              simp only
              rw [ensures_bind, migrate, ensures_bind, ensures_ofExcept, htext]
              refine ⟨trivial, ?_⟩
              by_cases hobj : ∃ j, Json.parse text = some j ∧ j.isObject = true
              · -- an object is not of version 1
                obtain ⟨j, hparse, hobj⟩ := hobj
                have hlenient : parseJsonLenient (some text) = j := by
                  rw [parseJsonLenient, Option.bind_some, hparse]
                  exact if_pos hobj
                rw [hlenient]
                cases hversion : valueOr getInt j "version" 1 with
                | error e => exact ⟨.inl rfl, fun store h => by cases h⟩
                | ok v =>
                    have hv : v ≠ 1 := by
                      rintro rfl
                      exact hfinds text htext ⟨j, hparse, hobj, hversion⟩
                    simp only [hv, if_false]
                    exact ⟨trivial, trivial, .inl rfl, hreturn _ hopened⟩
              · have hlenient : parseJsonLenient (some text) = (emptyStore : Json α) := by
                  rw [parseJsonLenient, Option.bind_some]
                  cases hparse : Json.parse text with
                  | none => rfl
                  | some j => exact if_neg fun h => hobj ⟨j, hparse, h⟩
                have hversion : valueOr getInt (emptyStore : Json α) "version" 1 = .ok 1 := by
                  simp +decide [valueOr, emptyStore, Json.get?_mkObj, Json.lookup, getInt,
                    Json.int?, orJsonError]
                rw [hlenient, hversion]
                simp only [if_true]
                rw [normalizeStore_eq isStore_emptyStore.messages]
                refine ensures_mono (ensures_writeStore_seals hopened.encryptedAtRest) ?_
                rintro x w' (hfiles | ⟨rfl, text', hsealed, hfiles⟩)
                · cases x with
                  | error e => exact ⟨.inl hfiles, fun store h => by cases h⟩
                  | ok _ => exact ⟨trivial, .inl hfiles, hreturn _ hopened⟩
                · exact ⟨trivial, .inr ⟨_, text', hopened, hsealed, hfiles⟩, hreturn _ hopened⟩

end Calls

/-! ## The invariant -/

section Steps

variable [Crypto α] [DecidableEq α]

/-- A text that a store of the user wrote, with contents that were saved. -/
def Honest (username password : List α) (log : List (AtRestCall α)) (text : List α) : Prop :=
  ∃ path store contents, OpenedWith path username password store ∧ IsContents contents ∧
    (∀ id t, plaintextOf contents id = some t → SavedIn log id t) ∧ Sealed store contents text

/-- The invariant of a run. -/
structure AtRestInv (username password : List α) (log : List (AtRestCall α))
    (written : List (List α)) (sessions : List (AtRestSession α)) (fs : Files Bytes α) : Prop where
  texts : ∀ t ∈ written, Honest username password log t
  files : ∀ p text, fs p = some text → Unforged username password written text
  sessions : ∀ s ∈ sessions, OpenedWith s.path username password s.store

variable {username password : List α} {log log' : List (AtRestCall α)}
  {written written' : List (List α)} {sessions : List (AtRestSession α)} {fs fs' : Files Bytes α}
  {path : Bytes} {text : List α} {store : MessageStore α}

omit [Alphabet α] [FloatFormat] [Crypto α] [DecidableEq α] in
theorem SavedIn.append {id : UInt64} {t : List α} (h : SavedIn log id t) :
    SavedIn (log ++ log') id t := by
  obtain ⟨c, hc, hsaves⟩ := h
  exact ⟨c, List.mem_append_left _ hc, hsaves⟩

omit [DecidableEq α] in
theorem Honest.append (h : Honest username password log text) :
    Honest username password (log ++ log') text := by
  obtain ⟨path, store, contents, hopened, hcontents, hsaved, hsealed⟩ := h
  exact ⟨path, store, contents, hopened, hcontents, fun id t ht => (hsaved id t ht).append, hsealed⟩

omit [DecidableEq α] in
theorem Unforged.append (h : Unforged username password written text) :
    Unforged username password (written ++ written') text := by
  intro nonce ciphertext params key plaintext hcarries hkey hdecrypt
  obtain ⟨t, ht, hcarried⟩ := h nonce ciphertext params key plaintext hcarries hkey hdecrypt
  exact ⟨t, List.mem_append_left _ ht, hcarried⟩

omit [DecidableEq α] in
/-- **What a sealed text carries.** -/
theorem Sealed.carries [LawfulBase64 α] {contents : Json α} {nonce ciphertext : List α}
    (h : Sealed store contents text) (hcarries : Carries text nonce ciphertext) :
    ∃ plaintextText, contents.dumpWith (some 2) 0 = some plaintextText ∧
      ciphertext = Crypto.aeadEncrypt plaintextText (cacheAssociatedData store.username) nonce
        store.encryptionKey := by
  obtain ⟨nonce', plaintextText, hnonce, hdump, henvelope⟩ := h.parse
  obtain ⟨j, n, c, hparse, hn, hdn, hc, hdc⟩ := hcarries
  cases henvelope.symm.trans hparse
  have hget : (storeEnvelope store nonce' (Crypto.aeadEncrypt plaintextText
      (cacheAssociatedData store.username) nonce' store.encryptionKey)).get? (bytes "nonce") =
        some (.str (base64Encode nonce')) ∧
      (storeEnvelope store nonce' (Crypto.aeadEncrypt plaintextText
        (cacheAssociatedData store.username) nonce' store.encryptionKey)).get?
          (bytes "ciphertext") = some (.str (base64Encode (Crypto.aeadEncrypt plaintextText
            (cacheAssociatedData store.username) nonce' store.encryptionKey))) := by
    constructor
    all_goals simp +decide [storeEnvelope, Json.get?_mkObj, Json.lookup]
  rw [hget.1] at hn
  cases hn
  rw [hget.2] at hc
  cases hc
  have hsame := hdn.1
  rw [base64Encode, LawfulBase64.decode_iff.mpr rfl] at hsame
  cases hsame
  rw [base64Encode, LawfulBase64.decode_iff.mpr rfl] at hdc
  cases hdc
  exact ⟨plaintextText, hdump, rfl⟩

/-- **What opens was saved**: the ciphertext is one that a store of the user wrote. -/
theorem AtRestInv.opens [LawfulBase64 α] [IdealAead α] {envelope contents : Json α}
    (h : AtRestInv username password log written sessions fs)
    (hstore : OpenedWith path username password store) (htext : fs path = some text)
    (hparse : Json.parse text = some envelope)
    (hversion : valueOr getInt envelope "version" 1 ≠ .ok 1)
    (hopen : openEnvelope store envelope = .ok contents) :
    IsStore contents ∧ ∀ id t, plaintextOf contents id = some t → SavedIn log id t := by
  obtain ⟨n, nonce, c, ciphertext, plaintext, parsed, hn, hnonce, hc, hciphertext, hdecrypt,
    hparsed, rfl⟩ := openEnvelope_ok hopen hversion
  rw [hstore.username] at hdecrypt
  obtain ⟨t, ht, hcarries⟩ := h.files path text htext nonce ciphertext _ _ plaintext
    ⟨envelope, n, c, hparse, hn, hnonce, hc, hciphertext⟩ hstore.encryptionKey hdecrypt
  obtain ⟨path', store', contents', hstore', hcontents', hsaved, hsealed⟩ := h.texts t ht
  obtain ⟨plaintextText, hdump, rfl⟩ := hsealed.carries hcarries
  obtain ⟨rfl, -⟩ := IdealAead.decrypt_only hdecrypt
  obtain ⟨hread, hisStore⟩ := hcontents'.read hdump
  cases hread.symm.trans hparsed
  rw [normalizeStore_eq hisStore.messages]
  refine ⟨hisStore, fun id p hp => hsaved id p ?_⟩
  rw [plaintextOf_norm] at hp
  exact hp

/-- What a step leaves is unforged. -/
theorem unforged_moved (h : ∀ p t, fs p = some t → Unforged username password written t)
    (path : Bytes) (text : List α) (p : Bytes) (t : List α) (ht : moved path text fs p = some t) :
    Unforged username password (written ++ leftBy path fs (moved path text fs)) t := by
  by_cases hp : p = path
  · subst hp
    rw [moved_self] at ht
    cases ht
    by_cases hsame : moved p text fs p = fs p
    · rw [moved_self] at hsame
      exact (h p text hsame.symm).append
    · intro nonce ciphertext params key plaintext hcarries _ _
      refine ⟨text, List.mem_append_right _ ?_, hcarries⟩
      rw [leftBy, if_neg hsame, moved_self]
      exact List.mem_singleton_self text
  · rw [moved, Function.update_of_ne hp] at ht
    by_cases htmp : p = tmpOf path
    · subst htmp
      rw [Function.update_self] at ht
      cases ht
    · rw [Function.update_of_ne htmp] at ht
      exact (h p t ht).append

omit [Alphabet α] [FloatFormat] [Crypto α] in
theorem mem_leftBy {t : List α} (h : t ∈ leftBy path fs fs') : fs' path = some t := by
  rw [leftBy] at h
  split_ifs at h
  · cases h
  · exact Option.mem_toList.mp h

omit [Alphabet α] [FloatFormat] [Crypto α] in
theorem leftBy_self : leftBy path fs fs = [] := if_pos rfl

/-- A step that seals a file, or leaves all files. -/
theorem AtRestInv.step {log' : List (AtRestCall α)} {sessions' : List (AtRestSession α)}
    (h : AtRestInv username password log written sessions fs)
    (hsessions : ∀ s ∈ sessions', OpenedWith s.path username password s.store)
    (hfiles : fs' = fs ∨ ∃ text, Honest username password (log ++ log') text ∧
      fs' = moved path text fs) :
    AtRestInv username password (log ++ log') (written ++ leftBy path fs fs') sessions' fs' := by
  rcases hfiles with rfl | ⟨text, htext, rfl⟩
  · rw [leftBy_self, List.append_nil]
    exact ⟨fun t ht => (h.texts t ht).append, h.files, hsessions⟩
  · refine ⟨fun t ht => ?_, unforged_moved h.files path text, hsessions⟩
    rcases List.mem_append.mp ht with ht | ht
    · exact (h.texts t ht).append
    · have hleft := mem_leftBy ht
      rw [moved_self] at hleft
      cases hleft
      exact htext

/-- What a call reads was saved, or is empty. -/
theorem AtRestInv.reads [LawfulBase64 α] [IdealAead α]
    (h : AtRestInv username password log written sessions fs)
    (hstore : OpenedWith path username password store)
    (hfinds : ∀ text, fs path = some text → ¬ ReadsAsVersion1 text) {σ : Type}
    {net : HttpRequest α → σ → Option (HttpResponse α) → σ → Prop} {server : σ} :
    (readStore_ store).Ensures (exec (fun _ => False) net) (fun _ => True) ⟨fs, server⟩
      fun x w' => w' = ⟨fs, server⟩ ∧ ∀ contents, x = .ok contents → IsStore contents ∧
        ∀ id t, plaintextOf contents id = some t → SavedIn log id t := by
  refine ensures_mono (ensures_readStore_opens hstore.encryptedAtRest) ?_
  rintro x w' ⟨rfl, hopens⟩
  refine ⟨rfl, fun contents hx => ?_⟩
  rcases hopens contents hx with rfl | ⟨text, envelope, htext, hparse, hobj, hopen⟩
  · refine ⟨isStore_emptyStore, fun id t ht => ?_⟩
    rw [plaintextOf_emptyStore] at ht
    cases ht
  · rw [hstore.storePath] at htext
    exact h.opens hstore htext hparse
      (fun hversion => hfinds text htext ⟨envelope, hparse, hobj, hversion⟩) hopen

/-- **A call keeps the invariant**, and what it returns was saved. -/
theorem AtRestInv.call [LawfulBase64 α] [IdealAead α] {s : AtRestSession α} {op : StoreOp α}
    {outcome : Except Exn (Option (List α))}
    (h : AtRestInv username password log written sessions fs) (hs : s ∈ sessions)
    (hfinds : ∀ text, fs s.path = some text → ¬ ReadsAsVersion1 text)
    (hcall : (op.run s.store).Runs (onFiles fun _ => False) ⟨fs, ()⟩ (some outcome) ⟨fs', ()⟩) :
    AtRestInv username password (log ++ [⟨s, op, outcome⟩]) (written ++ leftBy s.path fs fs')
        sessions fs' ∧
      ∀ id t, op = .get id → outcome = .ok (some t) → SavedIn log id t := by
  have hstore := h.sessions s hs
  have hspec := (ensures_storeOp_rewrites op hstore.encryptedAtRest
    (h.reads hstore hfinds)).of_runs hcall
  rcases hspec with ⟨hfiles, hget⟩ | ⟨hout, contents, text, ⟨hisStore, hsaved⟩, hsealed, hfiles⟩
  · refine ⟨h.step h.sessions (.inl hfiles), fun id t hop hout => ?_⟩
    obtain ⟨contents, ⟨-, hsaved⟩, hplaintext⟩ := hget id t hop hout
    exact hsaved id t hplaintext
  · subst hout
    refine ⟨h.step h.sessions (.inr ⟨text, ?_, ?_⟩), fun id t _ hout => by cases hout⟩
    · refine ⟨s.path, s.store, op.rewrite contents, hstore, hisStore.rewrite op, fun id t ht => ?_,
        hsealed⟩
      rw [plaintextOf_rewrite hisStore, StoreOp.effect_iff] at ht
      rcases ht with ⟨hold, -⟩ | hsaves
      · exact (hsaved id t hold).append
      · exact ⟨⟨s, op, .ok none⟩, by simp, hsaves, rfl⟩
    · rw [← hstore.storePath]
      exact hfiles

/-- **Opening a store keeps the invariant.** -/
theorem AtRestInv.opened [LawfulBase64 α] {x : Except Exn (MessageStore α)}
    (h : AtRestInv username password log written sessions fs)
    (hfinds : ∀ text, fs path = some text → ¬ ReadsAsVersion1 text)
    (hopen : (encryptedAtPath path username password).Runs (onFiles fun _ => False) ⟨fs, ()⟩
      (some x) ⟨fs', ()⟩) :
    AtRestInv username password log (written ++ leftBy path fs fs')
      (sessions ++ (x.toOption.map fun store => ⟨path, store, fs⟩).toList) fs' := by
  obtain ⟨hfiles, hopened⟩ := (ensures_encryptedAtPath_encrypted hfinds).of_runs hopen
  have hsessions : ∀ s ∈ sessions ++ (x.toOption.map fun store => (⟨path, store, fs⟩ :
      AtRestSession α)).toList, OpenedWith s.path username password s.store := by
    intro s hs
    rcases List.mem_append.mp hs with hs | hs
    · exact h.sessions s hs
    · cases x with
      | error e => cases hs
      | ok store =>
          rw [List.mem_singleton.mp hs]
          exact hopened store rfl
  have hleft : fs' = fs ∨ ∃ text, Honest username password (log ++ []) text ∧
      fs' = moved path text fs := by
    rcases hfiles with hfiles | ⟨store, text, hstore, hsealed, hfiles⟩
    · exact .inl hfiles
    · refine .inr ⟨text, ⟨path, store, emptyStore, hstore, isStore_emptyStore.isContents, ?_,
        hsealed⟩, hfiles⟩
      intro id t ht
      rw [plaintextOf_emptyStore] at ht
      cases ht
  have hstep := h.step hsessions hleft
  rw [List.append_nil] at hstep
  exact hstep

/-- **The invariant holds in every run** whose calls find no file of version 1, and what they
return was saved. -/
theorem atRestInv_run [LawfulBase64 α] [IdealAead α]
    (h : AtRestRun (fun text => ¬ ReadsAsVersion1 text) username password log written sessions fs) :
    AtRestInv username password log written sessions fs ∧ AuthenticAtRest log := by
  induction h with
  | start hfs =>
      refine ⟨⟨by simp, hfs, by simp⟩, ?_⟩
      intro before c after hnil
      simp at hnil
  | opened _ hfinds hopen ih => exact ⟨ih.1.opened hfinds hopen, ih.2⟩
  | call _ hs hfinds hcall ih =>
      obtain ⟨hinv, hsaved⟩ := ih.1.call hs hfinds hcall
      exact ⟨hinv, forall_split_snoc ih.2 fun _ => hsaved⟩
  | attack _ hfs ih => exact ⟨⟨ih.1.texts, hfs, ih.1.sessions⟩, ih.2⟩

/-- **What sessions return was saved** as long as no call, opening a store included, finds a
file of version 1. -/
theorem authentic_of_encrypted [LawfulBase64 α] [IdealAead α]
    (h : AtRestRun (fun text => ¬ ReadsAsVersion1 text) username password log written sessions fs) :
    AuthenticAtRest log :=
  (atRestInv_run h).2

end Steps

/-! ## Two sessions -/

/-- The message that the user of the examples saves. -/
def savedRecord : PlaintextRecord UInt8 := ⟨7, 1, 2, 3, bytes "hello"⟩

omit [Alphabet α] [FloatFormat] in
/-- A user saves a message in one session, and opens another. -/
theorem exists_second_session : letI := plainFloats; letI := plainCrypto;
    ∀ finds : List UInt8 → Prop,
      (∀ (store : MessageStore UInt8) contents text, Sealed store contents text → finds text) →
      ∃ (first second : AtRestSession UInt8) (written : List (List UInt8)) (fs : Files Bytes UInt8)
        (contents : Json UInt8) (text : List UInt8),
        AtRestRun finds (bytes "a") (bytes "p") [⟨first, .save savedRecord, .ok none⟩] written
          [first, second] fs ∧
        second.path = bytes "/m.json" ∧ second.OnVersion2 ∧
        OpenedWith (bytes "/m.json") (bytes "a") (bytes "p") second.store ∧
        Sealed second.store contents text ∧ IsStore contents ∧
        plaintextOf contents 7 = some (bytes "hello") ∧ fs (bytes "/m.json") = some text := by
  let := plainFloats
  let := plainCrypto
  have := lawfulBase64_plain
  have := idealAead_plain
  have := idealKdf_plain
  intro finds hsealedFinds
  have hpath : bytes "/m.json" ≠ [] := by decide
  have hvalid : (StoreOp.save savedRecord).Valid := by
    unfold StoreOp.Valid
    decide +kernel
  have hstart : AtRestRun finds (bytes "a") (bytes "p") [] [] []
      (fun _ => none : Files Bytes UInt8) := .start fun _ _ h => by cases h
  -- the first session
  obtain ⟨x, ⟨fs, _⟩, hopen⟩ := exists_runs (onFiles_total fun _ => False)
    (encryptedAtPath (bytes "/m.json") (bytes "a") (bytes "p")) ⟨fun _ => none, ()⟩
  obtain ⟨hw, store, rfl, hopened⟩ :=
    Ensures.of_runs (ensures_encryptedAtPath_absent (I := fun _ => True) trivial rfl) hopen
  cases hw
  have hfirst := hstart.opened (fun _ h => by cases h) hopen
  let first : AtRestSession UInt8 := ⟨bytes "/m.json", store, fun _ => none⟩
  obtain ⟨outcome, ⟨fs, _⟩, hcall⟩ := exists_runs (onFiles_total fun _ => False)
    ((StoreOp.save savedRecord).run store) ⟨fun _ => none, ()⟩
  obtain ⟨rfl, -, hwrites⟩ := Ensures.of_runs (ensures_storeOp hpath hopened.storePath
    hopened.encryptedAtRest isStore_emptyStore hvalid
    (ensures_readStore_absent hpath hopened.storePath rfl)) hcall
  obtain ⟨contents, text, hcontents, hplaintexts, hsealed, htext⟩ := hwrites rfl
  have hmem : first ∈ [] ++ [first] := List.mem_append_right _ (List.mem_singleton_self first)
  have hsaved := hfirst.call hmem (fun _ h => by cases h) hcall
  -- the second session, on a file of version 2
  obtain ⟨x, ⟨fs', _⟩, hopen'⟩ := exists_runs (onFiles_total fun _ => False)
    (encryptedAtPath (bytes "/m.json") (bytes "a") (bytes "p")) ⟨fs, ()⟩
  obtain ⟨hw, store', rfl, hopened', hparams⟩ :=
    Ensures.of_runs (ensures_encryptedAtPath_sealed (I := fun _ => True) trivial htext hsealed
      hopened.salt) hopen'
  cases hw
  have hsecond := hsaved.opened (fun text' h => by
    cases htext.symm.trans h
    exact hsealedFinds _ _ _ hsealed) hopen'
  obtain ⟨husername, hkey⟩ := (OpenedWith.same_iff hopened' hopened hparams).mpr rfl
  obtain ⟨nonce, plaintextText, hnonce, hdump, hfile⟩ := hsealed.exists_eq
  have hsealed' : Sealed store' contents text := by
    refine ⟨nonce, plaintextText, hnonce, hdump, ?_⟩
    rw [storeEnvelope, hparams.1, hparams.2.1, hparams.2.2, husername, hkey]
    exact hfile
  refine ⟨first, ⟨bytes "/m.json", store', fs⟩, _, fs, contents, text, hsecond, rfl, ?_, hopened',
    hsealed', hcontents, ?_, htext⟩
  · obtain ⟨nonce, plaintextText, -, -, hparse⟩ := hsealed.parse
    refine ⟨text, _, .unsigned 2, htext, hparse, ?_, rfl⟩
    simp +decide [storeEnvelope, Json.get?_mkObj, Json.lookup]
  · rw [hplaintexts]
    rfl

omit [FloatFormat] in
theorem not_readsAsVersion1_of_sealed [Crypto α] [FloatFormat] {store : MessageStore α}
    {contents : Json α} {text : List α} (h : Sealed store contents text) :
    ¬ ReadsAsVersion1 text := by
  rintro ⟨j, hparse, hobj, hone⟩
  have htwo := version_sealed h
  rw [parseJsonLenient, Option.bind_some, hparse] at htwo
  simp only [hobj, if_true] at htwo
  rw [hone] at htwo
  exact absurd (Except.ok.inj htwo) (by decide)

omit [Alphabet α] [FloatFormat] in
/-- Somebody takes the file away and puts it back, and the second session reads what the first
one saved. -/
theorem authentic_of_encrypted_example : letI := plainFloats; letI := plainCrypto;
    ∃ (log : List (AtRestCall UInt8)) (c : AtRestCall UInt8) (written : _) (sessions : _) (fs : _),
      AtRestRun (fun text => ¬ ReadsAsVersion1 text) (bytes "a") (bytes "p") (log ++ [c]) written
        sessions fs ∧ c.session.OnVersion2 ∧ c.op = .get 7 ∧
        c.outcome = .ok (some (bytes "hello")) ∧ AuthenticAtRest (log ++ [c]) := by
  let := plainFloats
  let := plainCrypto
  have := lawfulBase64_plain
  have := idealAead_plain
  obtain ⟨first, second, written, fs, contents, text, hrun, hpath, hversion, hopened, hsealed,
    hcontents, hplaintext, htext⟩ := exists_second_session (fun text => ¬ ReadsAsVersion1 text)
      fun _ _ _ => not_readsAsVersion1_of_sealed
  have hne : bytes "/m.json" ≠ [] := by decide
  have haway : AtRestRun (fun text => ¬ ReadsAsVersion1 text) (bytes "a") (bytes "p") _ written
      [first, second] fun _ => none := hrun.attack fun _ _ h => by cases h
  have hback := haway.attack (atRestInv_run hrun).1.files
  obtain ⟨outcome, ⟨fs', _⟩, hcall⟩ := exists_runs (onFiles_total fun _ => False)
    ((StoreOp.get 7).run second.store) ⟨fs, ()⟩
  have hread : (readStore_ second.store).Ensures (onFiles fun _ => False) (fun _ => True) ⟨fs, ()⟩
      fun x w' => w' = ⟨fs, ()⟩ ∧ x = .ok contents.norm := by
    refine ensures_mono (ensures_readStore_sealed hne hopened htext hsealed) ?_
    rintro x w' ⟨hw, envelope, hparse, rfl⟩
    exact ⟨hw, openEnvelope_sealed hsealed hparse hcontents rfl rfl⟩
  obtain ⟨rfl, -⟩ := Ensures.of_runs (ensures_storeOp hne hopened.storePath
    hopened.encryptedAtRest hcontents.norm (show (StoreOp.get 7).Valid from trivial) hread) hcall
  have hwhole := hback.call (by simp) (fun text' h => by
    rw [hpath] at h
    cases htext.symm.trans h
    exact not_readsAsVersion1_of_sealed hsealed) hcall
  refine ⟨_, _, _, _, _, hwhole, hversion, rfl, ?_, authentic_of_encrypted hwhole⟩
  rw [StoreOp.result, plaintextOf_norm, hplaintext]

/-- A store reads a file of version 1 as it stands. -/
theorem ensures_readStore_version1 [Crypto α] [DecidableEq α] {store : MessageStore α}
    {text : List α} {contents : Json α} {fs : Files Bytes α} (hpath : store.storePath ≠ [])
    (hatRest : store.encryptedAtRest = true) (htext : fs store.storePath = some text)
    (hparse : Json.parse text = some contents) (hobj : contents.isObject = true)
    (hmessages : (messagesOf contents).isObject = true)
    (hversion : valueOr getInt contents "version" 1 = .ok 1) :
    (readStore_ store).Ensures (onFiles fun _ => False) (fun _ => True) ⟨fs, ()⟩
      fun x w' => w' = ⟨fs, ()⟩ ∧ x = .ok contents := by
  rw [readStore_, if_neg hpath, ensures_bind]
  refine ensures_fileExists trivial ?_ fun h => h.elim
  simp only [htext, Option.isSome_some, if_true, hatRest]
  rw [ensures_bind]
  refine ensures_readFile trivial ?_ fun _ h => h.elim
  simp only [htext]
  rw [ensures_ofExcept]
  have hstrict : parseJsonStrict store.storePath (some text) = .ok contents := by
    simp only [parseJsonStrict, jsonOfFile, hparse, orThrow, Option.elim_some, ok_bind, ensure, hobj,
      if_true]
    rfl
  refine ⟨trivial, rfl, ?_⟩
  rw [hstrict, ok_bind, openEnvelope, hversion, ok_bind, if_pos rfl, normalizeStore_eq hmessages]
  rfl

omit [Alphabet α] [FloatFormat] in
/-- **A session on a file of version 2 returns what an attacker put there**, in a file of
version 1. -/
theorem not_authentic_with_version1 : letI := plainFloats; letI := plainCrypto;
    ∃ (log : List (AtRestCall UInt8)) (written : _) (sessions : _) (fs : _),
      AtRestRun (fun _ => True) (bytes "a") (bytes "p") log written sessions fs ∧
        ¬ AuthenticAtRest log := by
  let := plainFloats
  let := plainCrypto
  have := lawfulBase64_plain
  obtain ⟨first, second, written, fs, -, -, hrun, hpath, hversion, hopened, -⟩ :=
    exists_second_session (fun _ => True) fun _ _ _ _ => trivial
  -- a file of version 1 with a message that was never saved
  let forged : Json UInt8 := withPlaintext emptyStore ⟨8, 1, 2, 3, bytes "forged"⟩
  have hforged : IsStore forged := isStore_emptyStore.withPlaintext (by decide +kernel)
  obtain ⟨t, ht⟩ := Json.exists_dumpWith (some 2) 0 hforged.printable
  have htext : jsonFileText forged = .ok (t ++ ofBytes [0x0A]) := by
    rw [jsonFileText, ht]
    rfl
  have hparse := parse_text hforged.wf htext
  have hget : ∀ k, forged.get? k = if bytes "messages" = k
      then some ((messagesOf (emptyStore : Json UInt8)).set (decimal 8)
        (PlaintextRecord.json ⟨8, 1, 2, 3, bytes "forged"⟩))
      else (emptyStore : Json UInt8).get? k := fun k =>
    Json.get?_set isStore_emptyStore.object (bytes "messages") k
  have hone : valueOr getInt forged.norm "version" 1 = .ok 1 := by
    rw [valueOr, if_pos hforged.norm.object, Json.get?_norm, hget, if_neg (by decide)]
    simp +decide [emptyStore, Json.get?_mkObj, Json.lookup, Json.norm, getInt, Json.int?, orJsonError]
  let fs' : Files Bytes UInt8 := fun p =>
    if p = bytes "/m.json" then some (t ++ ofBytes [0x0A]) else none
  have hunforged : ∀ p text, fs' p = some text →
      Unforged (bytes "a") (bytes "p") written text := by
    intro p text h
    simp only [fs'] at h
    split_ifs at h
    cases h
    rintro nonce ciphertext params key plaintext ⟨j, n, c, hj, hn, -⟩ - -
    cases hparse.symm.trans hj
    rw [Json.get?_norm, hget, if_neg (by decide)] at hn
    simp +decide [emptyStore, Json.get?_mkObj, Json.lookup] at hn
  have hattack := hrun.attack hunforged
  obtain ⟨outcome, ⟨fs'', _⟩, hcall⟩ := exists_runs (onFiles_total fun _ => False)
    ((StoreOp.get 8).run second.store) ⟨fs', ()⟩
  have hstorePath : second.store.storePath ≠ [] := by
    rw [hopened.storePath]
    decide
  have hfile : fs' second.store.storePath = some (t ++ ofBytes [0x0A]) := by
    rw [hopened.storePath]
    exact if_pos rfl
  obtain ⟨rfl, -⟩ := Ensures.of_runs (ensures_storeOp hstorePath rfl
    hopened.encryptedAtRest hforged.norm (show (StoreOp.get 8).Valid from trivial)
    (ensures_readStore_version1 hstorePath hopened.encryptedAtRest hfile hparse
      hforged.norm.object hforged.norm.messages hone)) hcall
  have hwhole := hattack.call (by simp) (fun _ _ => trivial) hcall
  refine ⟨_, _, _, _, hwhole, fun hauthentic => ?_⟩
  have hresult : (StoreOp.get 8).result (plaintextOf forged.norm) = some (bytes "forged") := by
    rw [StoreOp.result, plaintextOf_norm, plaintextOf_withPlaintext isStore_emptyStore]
    exact if_pos rfl
  obtain ⟨c, hc, hsaves, -⟩ := hauthentic _ _ [] rfl hversion 8 (bytes "forged") rfl
    (by rw [hresult])
  rw [List.mem_singleton.mp hc] at hsaves
  exact absurd hsaves.1 (by decide)

end Kd
