import Kingdom.Client.StoreSessions
import Kingdom.Process.Logged

/-!
# What opening a store does to its file

`encryptedAtPath` encrypts a store of version 1.  It reads the file leniently, though: a
file that does not open, or does not parse, or has no version, is taken for an empty store
of version 1, and that is written over it.

* `IsVersion1`, `HasVersion` — what the text of a file says of its version.
* `Kept` — the file stays, unless it was read as a store of version 1.
* `opening_keeps_iff` — the files of which this is true.
-/

namespace Kd

open Codec Process Storage Prog

variable {α : Type} [Alphabet α] [FloatFormat]

/-- The text is a JSON object that has this as its version. -/
def HasVersion (text : List α) (v : Json α) : Prop :=
  ∃ j, Json.parse text = some j ∧ j.isObject = true ∧ j.get? (bytes "version") = some v

/-- The text is a store of version 1. -/
def IsVersion1 (text : List α) : Prop := ∃ v, HasVersion text v ∧ v.int? = some 1

/-- Opening the store leaves its file as it was, or some read of the file has answered the
whole text and that is a store of version 1. -/
def Kept [Crypto α] (mayFail : FileOp Bytes α → Prop) (path : Bytes) (username password : List α)
    (fs : Files Bytes α) (content : List α) : Prop :=
  ∀ x fs' log, (encryptedAtPath path username password).Runs (logged (onFiles mayFail))
      (⟨fs, ()⟩, []) (some x) (⟨fs', ()⟩, log) →
    fs' path = some content ∨
      (⟨.file (.read path), some content⟩ : Σ o : Op α, o.Res) ∈ log ∧ IsVersion1 content

/-! ## The version of what was read -/

omit [Alphabet α] in
theorem version_emptyStore : valueOr getInt (emptyStore : Json α) "version" 1 = .ok 1 := by
  simp +decide [valueOr, emptyStore, Json.get?_mkObj, Json.lookup, getInt, Json.int?, orJsonError]

/-- A text without a version is taken for a store of version 1. -/
theorem version_of_not_hasVersion {text : List α} (h : ∀ v, ¬ HasVersion text v) :
    valueOr getInt (parseJsonLenient (some text)) "version" 1 = .ok 1 := by
  rw [parseJsonLenient, Option.bind_some]
  cases hparse : Json.parse text with
  | none => exact version_emptyStore
  | some j =>
      simp only
      by_cases hobj : j.isObject = true
      · rw [if_pos hobj, valueOr, if_pos hobj]
        cases hv : j.get? (bytes "version") with
        | none => rfl
        | some v => exact absurd ⟨j, hparse, hobj, hv⟩ (h v)
      · rw [if_neg hobj]
        exact version_emptyStore

theorem isVersion1_of_version {text : List α} {v : Json α} (h : HasVersion text v)
    (hversion : valueOr getInt (parseJsonLenient (some text)) "version" 1 = .ok 1) :
    IsVersion1 text := by
  obtain ⟨j, hparse, hobj, hv⟩ := h
  rw [parseJsonLenient, Option.bind_some, hparse] at hversion
  simp only [hobj, if_true] at hversion
  rw [valueOr, if_pos hobj, hv, Option.elim_some] at hversion
  exact ⟨v, ⟨j, hparse, hobj, hv⟩, orJsonError_ok.mp hversion⟩

section Opening

variable [Crypto α]

omit [Alphabet α] in
/-- The key of a store that is taken for version 1 has the parameters of a new store. -/
theorem storedKdfParams_version1 {parsed : Json α} (salt : List α)
    (h : valueOr getInt parsed "version" 1 = .ok 1) :
    storedKdfParams salt parsed = .ok ⟨salt, kCacheKdfOpsLimit, kCacheKdfMemLimit⟩ := by
  rw [storedKdfParams, h]
  rfl

variable {σ : Type} {mayFail : FileOp Bytes α → Prop}
  {net : HttpRequest α → σ → Option (HttpResponse α) → σ → Prop} {w : World α σ} {path : Bytes}
  {username password : List α}

omit [Alphabet α] [FloatFormat] [Crypto α] in
theorem ensures_fileExists_files :
    (fileExists path).Ensures (exec mayFail net) (fun _ => True) w fun _ w' => w' = w :=
  ensures_fileExists trivial rfl fun _ => rfl

theorem ensures_kdfParamsForStore_files :
    (kdfParamsForStore path).Ensures (exec mayFail net) (fun _ => True) w fun _ w' => w' = w := by
  rw [kdfParamsForStore, ensures_bind, ensures_random]
  refine ⟨trivial, fun salt _ => ?_⟩
  simp only
  rw [ensures_bind]
  refine ensures_mono ensures_fileExists_files ?_
  rintro x _ rfl
  cases x with
  | error e => rfl
  | ok b =>
      cases b with
      | false => exact ⟨trivial, rfl⟩
      | true =>
          simp only [if_true]
          rw [ensures_bind]
          refine ensures_readFile trivial ?_ fun t _ _ => ?_
          · exact ensures_ofExcept.mpr ⟨trivial, rfl⟩
          · exact ensures_ofExcept.mpr ⟨trivial, rfl⟩

omit [FloatFormat] [Crypto α] in
/-- Writing a file makes file operations, and no read. -/
theorem only_writeJsonFile {P : Op α → Prop} (h : ∀ o, (∀ q, o ≠ .read q) → P (.file o))
    (body : Json α) : (writeJsonFile path body).Only P := by
  unfold writeJsonFile
  split
  · trivial
  · refine only_bind (only_op (h _ (by simp))) fun b => only_bind (only_orFail _ b) fun _ => ?_
    refine only_bind (only_writeText (h _ (by simp)) (fun _ => h _ (by simp)) _ _ _) fun _ => ?_
    refine only_bind (only_op (h _ (by simp))) fun b => only_bind (only_orFail _ b) fun _ => ?_
    exact only_bind (only_op (h _ (by simp))) fun _ => trivial

omit [FloatFormat] [Crypto α] in
theorem only_writeJsonFile_unread (body : Json α) :
    (writeJsonFile path body).Only fun o => o ≠ .file (.read path) :=
  only_writeJsonFile (fun _ ho heq => ho path (Op.file.inj heq)) body

/-! ## Files that stay -/

/-- **A file that can be read and has a version stays**, unless it is of version 1. -/
theorem kept_of_hasVersion {fs : Files Bytes α} {content : List α} {v : Json α}
    (hcontent : fs path = some content) (hread : ¬ mayFail (.read path))
    (hversion : HasVersion content v) : Kept mayFail path username password fs content := by
  suffices h : (encryptedAtPath path username password).Ensures (logged (onFiles mayFail))
      (fun _ => True) (⟨fs, ()⟩, []) fun _ s' => s'.1.files path = some content ∨
        (⟨.file (.read path), some content⟩ : Σ o : Op α, o.Res) ∈ s'.2 ∧ IsVersion1 content from
    fun x fs' log hrun => h.of_runs hrun
  rw [encryptedAtPath, ensures_bind]
  refine ensures_mono (ensures_logged.mpr ensures_kdfParamsForStore_files) ?_
  rintro x ⟨_, log⟩ rfl
  cases x with
  | error e => exact .inl hcontent
  | ok params =>
      simp only
      rw [ensures_bind, ensures_ofExcept]
      refine ⟨trivial, ?_⟩
      cases deriveCacheEncryptionKey password params with
      | error e => exact .inl hcontent
      | ok key =>
          simp only
          rw [ensures_bind]
          refine ensures_mono (ensures_logged.mpr ensures_fileExists_files) ?_
          rintro x ⟨_, log⟩ rfl
          cases x with
          | error e => exact .inl hcontent
          | ok b =>
              cases b with
              | false => exact ⟨trivial, .inl hcontent⟩
              | true =>
                  simp only [if_true]
                  rw [ensures_bind, readFile, perform, ensures_logged_op]
                  refine ⟨trivial, ?_⟩
                  rintro r _ ⟨fs', hexec, rfl⟩
                  obtain ⟨rfl, rfl⟩ := FileOp.exec_reliable hread hexec
                  refine ⟨trivial, ?_⟩
                  simp only [FileOp.answer, hcontent]
                  rw [ensures_bind, migrate, ensures_bind, ensures_ofExcept]
                  refine ⟨trivial, ?_⟩
                  cases hnumber : valueOr getInt (parseJsonLenient (some content)) "version" 1 with
                  | error e => exact .inl hcontent
                  | ok n =>
                      by_cases hn : n = 1
                      · -- the read is in the log, and stays there
                        subst hn
                        simp only [if_true]
                        refine ensures_mono ((only_true _).ensures_log _ _) ?_
                        rintro x ⟨w', log'⟩ ⟨more, rfl, -⟩
                        have hkept : (⟨.file (.read path), some content⟩ : Σ o : Op α, o.Res) ∈
                            (log ++ [⟨.file (.read path), some content⟩]) ++ more := by simp
                        have hone := isVersion1_of_version hversion hnumber
                        cases x with
                        | error e => exact .inr ⟨hkept, hone⟩
                        | ok _ => exact ⟨trivial, .inr ⟨hkept, hone⟩⟩
                      · simp only [hn, if_false]
                        exact ⟨trivial, trivial, .inl hcontent⟩

theorem ensures_migrate_empty {store : MessageStore α} (hpath : store.storePath = [])
    (hatRest : store.encryptedAtRest = true) (t : Option (List α)) :
    (do migrate store t
        return store : Action α (MessageStore α)).Ensures (exec mayFail net) (fun _ => True) w
      fun _ w' => w' = w := by
  rw [ensures_bind, migrate, ensures_bind, ensures_ofExcept]
  refine ⟨trivial, ?_⟩
  cases valueOr getInt (parseJsonLenient t) "version" 1 with
  | error e => rfl
  | ok n =>
      by_cases hn : n = 1
      · simp only [hn, if_true]
        rw [writeStore_, if_pos hatRest, ensures_bind, ensures_random]
        refine ⟨trivial, fun nonce _ => ?_⟩
        simp only [hpath]
        rw [ensures_bind, ensures_ofExcept]
        refine ⟨trivial, ?_⟩
        cases sealStore store nonce (normalizeStore (parseJsonLenient t)) with
        | error e => rfl
        | ok envelope => exact ⟨trivial, trivial, rfl⟩
      · simp only [hn, if_false]
        exact ⟨trivial, trivial, rfl⟩

/-- An empty path is never written. -/
theorem kept_of_empty {fs : Files Bytes α} {content : List α} (hcontent : fs [] = some content) :
    Kept mayFail [] username password fs content := by
  suffices h : (encryptedAtPath [] username password).Ensures (onFiles mayFail) (fun _ => True)
      ⟨fs, ()⟩ fun _ w' => w' = ⟨fs, ()⟩ from by
    intro x fs' log hrun
    cases (ensures_logged.mpr h).of_runs hrun
    exact .inl hcontent
  rw [encryptedAtPath, ensures_bind]
  refine ensures_mono ensures_kdfParamsForStore_files ?_
  rintro x _ rfl
  cases x with
  | error e => rfl
  | ok params =>
      simp only
      rw [ensures_bind, ensures_ofExcept]
      refine ⟨trivial, ?_⟩
      cases deriveCacheEncryptionKey password params with
      | error e => rfl
      | ok key =>
          simp only
          rw [ensures_bind]
          refine ensures_mono ensures_fileExists_files ?_
          rintro x _ rfl
          cases x with
          | error e => rfl
          | ok b =>
              cases b with
              | false => exact ⟨trivial, rfl⟩
              | true =>
                  simp only [if_true]
                  rw [ensures_bind]
                  refine ensures_readFile trivial ?_ fun t _ _ => ?_
                  · exact ensures_migrate_empty rfl rfl _
                  · exact ensures_migrate_empty rfl rfl _

/-! ## Files that are lost -/

variable {fs : Files Bytes α} {content : List α} {t : Option (List α)}

/-- The store that an opening makes of a file without a version. -/
def versionlessStore (path : Bytes) (username salt key : List α) : MessageStore α :=
  ⟨path, username, key, salt, kCacheKdfOpsLimit, kCacheKdfMemLimit, true⟩

/-- An opening that takes what it reads for a store of version 1 comes to write it, with
no read answered but these. -/
theorem ensures_write_of_kept {salt key : List α} (hsalt : salt.length = 16)
    (hkey : deriveCacheEncryptionKey password ⟨salt, kCacheKdfOpsLimit, kCacheKdfMemLimit⟩ = .ok key)
    (hcontent : fs path = some content)
    (hread : (FileOp.read path).Exec mayFail fs t fs)
    (hversion : valueOr getInt (parseJsonLenient t) "version" 1 = .ok 1)
    (hkept : Kept mayFail path username password fs content) :
    ∃ log : CallLog (Op α) Op.Res,
      (∀ r : Option (List α), (⟨.file (.read path), r⟩ : Σ o : Op α, o.Res) ∈ log → r = t) ∧
      (writeStore_ (versionlessStore path username salt key)
        (normalizeStore (parseJsonLenient t))).Ensures (logged (onFiles mayFail)) (fun _ => True)
          (⟨fs, ()⟩, log) fun _ s' => s'.1.files path = some content ∨
            (⟨.file (.read path), some content⟩ : Σ o : Op α, o.Res) ∈ s'.2 ∧
              IsVersion1 content := by
  have hexists : (FileOp.exists path).Exec mayFail fs (some true) fs :=
    .inl ⟨by rw [FileOp.answer, hcontent]; rfl, rfl⟩
  have h : (encryptedAtPath path username password).Ensures (logged (onFiles mayFail))
      (fun _ => True) (⟨fs, ()⟩, []) fun _ s' => s'.1.files path = some content ∨
        (⟨.file (.read path), some content⟩ : Σ o : Op α, o.Res) ∈ s'.2 ∧ IsVersion1 content := by
    refine ensures_iff.mpr fun x s' hrun => ⟨trivial, ?_⟩
    rintro y rfl
    exact hkept y _ _ hrun
  rw [encryptedAtPath, ensures_bind, kdfParamsForStore, ensures_bind, perform,
    ensures_logged_op] at h
  have h := (h.2 salt ⟨fs, ()⟩ ⟨hsalt, rfl⟩).2
  simp only at h
  rw [ensures_bind, fileExists, ensures_bind, perform, ensures_logged_op] at h
  have h := (h.2 (some true) ⟨fs, ()⟩ ⟨fs, hexists, rfl⟩).2.2
  simp only [if_true] at h
  rw [ensures_bind, readFile, perform, ensures_logged_op] at h
  have h := (h.2 t ⟨fs, ()⟩ ⟨fs, hread, rfl⟩).2
  simp only at h
  rw [ensures_ofExcept, storedKdfParams_version1 salt hversion] at h
  have h := h.2
  simp only at h
  rw [ensures_bind, ensures_ofExcept, hkey] at h
  have h := h.2
  simp only at h
  rw [ensures_bind, ensures_bind, ensures_logged_op] at h
  have h := (h.2 (some true) ⟨fs, ()⟩ ⟨fs, hexists, rfl⟩).2.2
  simp only [if_true] at h
  rw [ensures_bind, ensures_logged_op] at h
  have h := (h.2 t ⟨fs, ()⟩ ⟨fs, hread, rfl⟩).2
  simp only at h
  rw [ensures_bind, migrate, ensures_bind, ensures_ofExcept, hversion] at h
  have h := h.2
  simp only [if_true] at h
  refine ⟨_, ?_, ensures_mono h fun x s' hx => ?_⟩
  · intro r hr
    simpa using hr
  · cases x with
    | ok _ => exact hx.2
    | error e => exact hx

omit [Alphabet α] [FloatFormat] [Crypto α] in
/-- What happens when nothing fails can happen. -/
theorem reliable_onFiles (mayFail : FileOp Bytes α → Prop) (o : Op α) (w : World α Unit) (r : o.Res)
    (w' : World α Unit) (h : onFiles (fun _ => False) o w r w') : onFiles mayFail o w r w' := by
  cases o with
  | file o =>
      obtain ⟨fs', hfile, hw⟩ := h
      exact ⟨fs', hfile.imp id fun h => h.1.elim, hw⟩
  | _ => exact h

omit [Crypto α] in
/-- What was read leniently can be written. -/
theorem printable_normalizeStore_parseJsonLenient (t : Option (List α)) :
    (normalizeStore (parseJsonLenient t)).Printable := by
  have hempty : (Json.obj [] : Json α).Printable := trivial
  have hparsed : (parseJsonLenient t).Printable := by
    unfold parseJsonLenient
    cases hj : t.bind Json.parse with
    | none => exact isStore_emptyStore.printable
    | some j =>
        obtain ⟨text, -, hparse⟩ := Option.bind_eq_some_iff.mp hj
        simp only
        split
        · exact Json.printable_of_parse hparse
        · exact isStore_emptyStore.printable
  unfold normalizeStore
  split
  · exact hparsed
  · exact Json.printable_set hparsed (validUtf8_bytes "messages") hempty

omit [FloatFormat] in
/-- Two texts with different nonces differ. -/
theorem storeText_inj [LawfulBase64 α] [FloatFormat] {store : MessageStore α}
    {nonce nonce' ciphertext ciphertext' text : List α}
    (h : jsonFileText (storeEnvelope store nonce ciphertext) = .ok text)
    (h' : jsonFileText (storeEnvelope store nonce' ciphertext') = .ok text) : nonce = nonce' := by
  have hparse := parse_text (wf_storeEnvelope ..) h
  rw [parse_text (wf_storeEnvelope ..) h', norm_storeEnvelope, norm_storeEnvelope] at hparse
  have hget : ∀ n c : List α, (storeEnvelope store n c).get? (bytes "nonce") =
      some (.str (base64Encode n)) := by
    intro n c
    simp +decide [storeEnvelope, Json.get?_mkObj, Json.lookup]
  have hfield := congrArg (fun j => j.bind (·.get? (bytes "nonce"))) hparse
  simp only [Option.bind_some, hget, Option.some.injEq, Json.str.injEq] at hfield
  have hdecode := LawfulBase64.decode_iff.mpr (show base64Encode nonce' = _ from rfl)
  rw [base64Encode, base64Encode] at hfield
  have hback : Crypto.base64Decode (Crypto.base64Encode nonce') = some nonce :=
    LawfulBase64.decode_iff.mpr hfield
  rw [LawfulBase64.decode_iff.mpr rfl] at hback
  exact (Option.some.inj hback).symm

/-- **A file that an opening cannot read as a store of version 1 is written over**, when it
is taken for one. -/
theorem not_kept [LawfulBase64 α] (hpath : path ≠ [])
    (hderive : ∀ salt : List α, ∃ key,
      deriveCacheEncryptionKey password ⟨salt, kCacheKdfOpsLimit, kCacheKdfMemLimit⟩ = .ok key)
    (hcontent : fs path = some content) (hread : (FileOp.read path).Exec mayFail fs t fs)
    (hversion : valueOr getInt (parseJsonLenient t) "version" 1 = .ok 1)
    (hnot : ¬ (t = some content ∧ IsVersion1 content)) :
    ¬ Kept mayFail path username password fs content := by
  intro hkept
  let salt : List α := List.replicate 16 (Alphabet.ofByte 0)
  obtain ⟨key, hkey⟩ := hderive salt
  obtain ⟨log, hlog, h⟩ := ensures_write_of_kept List.length_replicate hkey hcontent hread hversion
    hkept
  obtain ⟨plaintextText, hdump⟩ := Json.exists_dumpWith (some 2) 0
    (printable_normalizeStore_parseJsonLenient t)
  let store := versionlessStore path username salt key
  -- with any nonce, the file would have to be what it was
  have hsame : ∀ nonce : List α, nonce.length = 24 →
      jsonFileText (storeEnvelope store nonce (Crypto.aeadEncrypt plaintextText
        (cacheAssociatedData username) nonce key)) = .ok content := by
    intro nonce hnonce
    obtain ⟨text, htext⟩ := exists_storeText store nonce (Crypto.aeadEncrypt plaintextText
      (cacheAssociatedData username) nonce key)
    have h := h
    rw [writeStore_, versionlessStore, if_pos rfl, ensures_bind, perform, ensures_logged_op] at h
    have h := (h.2 nonce ⟨fs, ()⟩ ⟨hnonce, rfl⟩).2
    simp only at h
    rw [ensures_bind, ensures_ofExcept, sealStore, hdump] at h
    have h := h.2
    change (writeJsonFile path (storeEnvelope store nonce (Crypto.aeadEncrypt plaintextText
      (cacheAssociatedData username) nonce key))).Ensures _ _ _ _ at h
    have hwrite : (writeJsonFile path (storeEnvelope store nonce (Crypto.aeadEncrypt plaintextText
        (cacheAssociatedData username) nonce key))).Ensures (onFiles fun _ => False)
          (fun _ => True) ⟨fs, ()⟩ fun _ w => w.files path = some text := by
      refine ensures_writeJsonFile hpath (fun _ _ => trivial) (fun text' htext' => ?_)
        (fun e he => ?_) ?_
      · cases htext.symm.trans htext'
        exact moved_self ..
      · cases htext.symm.trans he
      · rintro ⟨_, ho⟩
        exact ho.elim
    have hall := ((h.of_le (logged_mono (reliable_onFiles mayFail))).and
      ((only_writeJsonFile_unread _).ensures_log _ _)).and (ensures_logged.mpr hwrite)
    obtain ⟨x, s', -, ⟨hend, more, hmore, hreads⟩, hfile⟩ :=
      hall.exists_of_total (logged_total (onFiles_total _))
    rcases hend with hend | ⟨hmem, hone⟩
    · rw [hfile] at hend
      cases hend
      exact htext
    · -- no read has answered the text of a store of version 1
      rw [hmore] at hmem
      rcases List.mem_append.mp hmem with hmem | hmem
      · rcases List.mem_append.mp hmem with hmem | hmem
        · exact absurd ⟨(hlog _ hmem).symm, hone⟩ hnot
        · simp at hmem
      · exact absurd rfl (hreads _ hmem)
  have hzero := hsame (List.replicate 24 (Alphabet.ofByte 0)) List.length_replicate
  have hone := hsame (List.replicate 24 (Alphabet.ofByte 1)) List.length_replicate
  have hnonces := storeText_inj hzero hone
  have hbyte := (List.replicate_right_inj (by decide : 24 ≠ 0)).mp hnonces
  exact absurd (ofByte_injective hbyte) (by decide)

/-- **Opening a store keeps its file exactly when the file can be read without failure and
has a version.**  An empty path is never written. -/
theorem opening_keeps_iff [LawfulBase64 α] (username : List α)
    (hderive : ∀ salt : List α, ∃ key,
      deriveCacheEncryptionKey password ⟨salt, kCacheKdfOpsLimit, kCacheKdfMemLimit⟩ = .ok key)
    (hcontent : fs path = some content) : Kept mayFail path username password fs content ↔
      path = [] ∨ ¬ mayFail (.read path) ∧ ∃ v, HasVersion content v := by
  constructor
  · intro hkept
    by_contra hno
    obtain ⟨hpath, hno⟩ := not_or.mp hno
    by_cases hfail : mayFail (.read path)
    · refine not_kept hpath hderive hcontent (.inr ⟨hfail, .inl rfl, rfl⟩) version_emptyStore ?_ hkept
      rintro ⟨hnone, -⟩
      cases hnone
    · have hversion : ∀ v, ¬ HasVersion content v := fun v hv => hno ⟨hfail, v, hv⟩
      refine not_kept hpath hderive hcontent (t := some content) (.inl ⟨hcontent.symm, rfl⟩)
        (version_of_not_hasVersion hversion) ?_ hkept
      rintro ⟨-, v, hv, -⟩
      exact hversion v hv
  · rintro (rfl | ⟨hread, v, hv⟩)
    · exact kept_of_empty hcontent
    · exact kept_of_hasVersion hcontent hread hv

end Opening

omit [Alphabet α] [FloatFormat] in
/-- A file of version 2 is kept, also under another password. -/
theorem opening_keeps_example : letI := plainFloats; letI := plainCrypto;
    ∃ (store : MessageStore UInt8) (content : List UInt8),
      jsonFileText (storeEnvelope store (List.replicate 24 0) (List.replicate 16 0)) = .ok content ∧
      Kept (fun _ => False) (bytes "/m.json") (bytes "a") (bytes "p") (fun _ => some content)
        content := by
  let := plainFloats
  let := plainCrypto
  have := lawfulBase64_plain
  let store : MessageStore UInt8 := versionlessStore (bytes "/m.json") (bytes "a") [] []
  obtain ⟨content, hcontent⟩ := exists_storeText store (List.replicate 24 0) (List.replicate 16 0)
  refine ⟨store, content, hcontent, ?_⟩
  refine Iff.mpr (opening_keeps_iff (bytes "a") (fun salt => ⟨_, rfl⟩) rfl) ?_
  refine .inr ⟨not_false, .unsigned 2, _, parse_text (wf_storeEnvelope ..) hcontent, ?_, ?_⟩
  · rw [Json.isObject_norm]
    exact Json.isObject_mkObj _
  · rw [norm_storeEnvelope]
    simp +decide [storeEnvelope, Json.get?_mkObj, Json.lookup]

omit [Alphabet α] [FloatFormat] in
/-- A text that does not parse is lost, although nothing fails. -/
theorem opening_loses_unparsable : letI := plainFloats; letI := plainCrypto;
    ¬ Kept (fun _ => False) (bytes "/m.json") (bytes "a") (bytes "p")
      (fun _ => some (bytes "\x7b")) (bytes "\x7b") := by
  let := plainFloats
  let := plainCrypto
  have := lawfulBase64_plain
  have hversion : ∀ v, ¬ HasVersion (bytes "\x7b") v := by
    rintro v ⟨j, hparse, -⟩
    have hnone : Json.parse (bytes "\x7b") = none := by decide +kernel
    rw [hnone] at hparse
    cases hparse
  refine not_kept (t := some (bytes "\x7b")) (by decide) (fun salt => ⟨_, rfl⟩) rfl (.inl ⟨rfl, rfl⟩)
    (version_of_not_hasVersion hversion) ?_
  rintro ⟨-, v, hv, -⟩
  exact hversion v hv

end Kd
