import Kingdom.Client.StoreOpening

/-!
# Stores of version 1

A store of version 1 is encrypted when it is opened.  What the user gets of it is what the
store gave before, now and whenever it is opened again.

* `IsVersion1Store` — a JSON object without a version or with version 1.
* `plainStore` — a store that is not encrypted, on the same file.
* `draws` — the random bytes a run has drawn.
* `Reopened` — openings and reads after the first opening, any number of them.
* `Migrated` — what the first opening leaves of a store of version 1.
* `IsEnvelope` — what the file then says without its key.
* `migration_keeps_messages` — every read gives what the plain store gave.
-/

namespace Kd

open Codec Process Storage Prog

variable {α : Type} [Alphabet α] [FloatFormat]

/-! ## Stores of version 1 -/

/-- The text is a store of version 1: a JSON object that says so, or says nothing of its
version. -/
def IsVersion1Store (text : List α) (contents : Json α) : Prop :=
  Json.parse text = some contents ∧ contents.isObject = true ∧
    ∀ v, contents.get? (bytes "version") = some v → v.int? = some 1

/-- A store that is not encrypted. -/
def plainStore (storePath : Bytes) : MessageStore α :=
  ⟨storePath, [], List.replicate 32 (Alphabet.ofByte 0), List.replicate 16 (Alphabet.ofByte 0), 0, 0,
    false⟩

section Contents

variable {text : List α} {contents : Json α}

theorem IsVersion1Store.parseJsonLenient (h : IsVersion1Store text contents) :
    parseJsonLenient (some text) = contents := by
  obtain ⟨hparse, hobj, -⟩ := h
  rw [Kd.parseJsonLenient, Option.bind_some, hparse]
  exact if_pos hobj

theorem IsVersion1Store.version (h : IsVersion1Store text contents) :
    valueOr getInt contents "version" 1 = .ok 1 := by
  obtain ⟨-, hobj, hversion⟩ := h
  rw [valueOr, if_pos hobj]
  cases hv : contents.get? (bytes "version") with
  | none => rfl
  | some v => exact orJsonError_ok.mpr (hversion v hv)

/-- Once normalised it can be printed and read back. -/
theorem IsVersion1Store.isStore (h : IsVersion1Store text contents) :
    IsStore (normalizeStore contents) := by
  obtain ⟨hparse, hobj, -⟩ := h
  have hwf := Json.wf_of_parse hparse
  have hprint := Json.printable_of_parse hparse
  by_cases hmessages : (contents.get? (bytes "messages")).any Json.isObject = true
  · rw [normalizeStore, if_pos hmessages]
    refine ⟨hobj, ?_, hwf, hprint⟩
    rw [messagesOf]
    cases hm : contents.get? (bytes "messages") with
    | none =>
        rw [hm] at hmessages
        cases hmessages
    | some m =>
        rw [hm] at hmessages
        exact hmessages
  · rw [normalizeStore, if_neg hmessages]
    refine ⟨Json.isObject_set hobj, ?_, Json.wf_set hwf ?_,
      Json.printable_set hprint (validUtf8_bytes _) trivial⟩
    · rw [messagesOf_set hobj]
      rfl
    · exact ⟨List.Pairwise.nil, trivial⟩

end Contents

section Opening

variable [Crypto α] {path : Bytes} {username password : List α}

/-! ## Openings and reads -/

/-- The random bytes a run has drawn, in their order. -/
def draws (log : CallLog (Op α) Op.Res) : List (List α) :=
  log.filterMap fun
    | ⟨.random _, r⟩ => some r
    | _ => none

/-- Openings and reads, after an opening has returned this store and left these files: the
openings, what the reads have returned and the files. -/
inductive Reopened [DecidableEq α] (path : Bytes) (username password : List α)
    (first : MessageStore α) (fs₁ : Files Bytes α) : List (Except Exn (MessageStore α)) →
      List (UInt64 × Except Exn (Option (List α))) → Files Bytes α → Prop where
  | start : Reopened path username password first fs₁ [.ok first] [] fs₁
  | opened {openings reads fs x fs'}
      (h : Reopened path username password first fs₁ openings reads fs)
      (hopen : (encryptedAtPath path username password).Runs (onFiles fun _ => False) ⟨fs, ()⟩
        (some x) ⟨fs', ()⟩) :
      Reopened path username password first fs₁ (openings ++ [x]) reads fs'
  | read {openings reads fs store id x fs'}
      (h : Reopened path username password first fs₁ openings reads fs)
      (hstore : .ok store ∈ openings)
      (hread : (getPlaintext store id).Runs (onFiles fun _ => False) ⟨fs, ()⟩ (some x) ⟨fs', ()⟩) :
      Reopened path username password first fs₁ openings (reads ++ [(id, x)]) fs'

/-- Reading the message gives this, and changes nothing. -/
def Gives [DecidableEq α] (store : MessageStore α) (fs : Files Bytes α) (id : UInt64)
    (t : Option (List α)) : Prop :=
  ∀ x fs', (getPlaintext store id).Runs (onFiles fun _ => False) ⟨fs, ()⟩ (some x) ⟨fs', ()⟩ →
    x = .ok t ∧ fs' = fs

/-- A store that reads these contents gives their plaintexts. -/
theorem gives_of_read [DecidableEq α] {store : MessageStore α} {fs : Files Bytes α}
    {contents : Json α} (id : UInt64)
    (h : (readStore_ store).Ensures (onFiles fun _ => False) (fun _ => True) ⟨fs, ()⟩
      fun x w' => w' = ⟨fs, ()⟩ ∧ x = .ok contents) :
    Gives store fs id (plaintextOf contents id) := by
  suffices hget : (getPlaintext store id).Ensures (onFiles fun _ => False) (fun _ => True) ⟨fs, ()⟩
      fun x w' => w' = ⟨fs, ()⟩ ∧ x = .ok (plaintextOf contents id) by
    intro x fs' hrun
    obtain ⟨hw, hx⟩ := hget.of_runs hrun
    cases hw
    exact ⟨hx, rfl⟩
  rw [getPlaintext, ensures_bind]
  apply ensures_mono h
  rintro x _ ⟨rfl, rfl⟩
  exact ⟨trivial, rfl, rfl⟩

/-! ## The plain store -/

/-- The plain store gives the plaintexts of the file. -/
theorem gives_plainStore [DecidableEq α] {fs : Files Bytes α} {text : List α} {contents : Json α}
    (hpath : path ≠ []) (htext : fs path = some text) (h : IsVersion1Store text contents)
    (id : UInt64) : Gives (plainStore path) fs id (plaintextOf (normalizeStore contents) id) := by
  apply gives_of_read
  rw [readStore_, plainStore, if_neg hpath, ensures_bind]
  apply ensures_fileExists trivial ?_ fun h => h.elim
  simp only [htext, Option.isSome_some, if_true]
  rw [ensures_bind]
  apply ensures_readFile trivial ?_ fun _ h => h.elim
  simp only [htext, Bool.false_eq_true, if_false, h.parseJsonLenient]
  exact ⟨trivial, rfl, rfl⟩

/-! ## The first opening -/

variable [LawfulBase64 α]

/-- What an opening leaves of a store of version 1: the store it has returned, and the file,
sealed with the random bytes that were drawn. -/
structure Migrated (path : Bytes) (username password : List α) (contents : Json α)
    (drawn : List (List α)) (fs : Files Bytes α) (store : MessageStore α) (text : List α) : Prop where
  opened : OpenedWith path username password store
  params : (store.opsLimit, store.memLimit) = (kCacheKdfOpsLimit, kCacheKdfMemLimit)
  file : fs path = some text
  sealedFile : Sealed store (normalizeStore contents) text
  drawn : ∃ nonce ciphertext, drawn = [store.salt, nonce] ∧
    Json.parse text = some (storeEnvelope store nonce ciphertext)

omit [Alphabet α] [FloatFormat] [Crypto α] [LawfulBase64 α] in
theorem draws_append (log more : CallLog (Op α) Op.Res) :
    draws (log ++ more) = draws log ++ draws more := List.filterMap_append ..

omit [Alphabet α] [FloatFormat] [Crypto α] [LawfulBase64 α] in
/-- A program that only uses files draws nothing. -/
theorem ensures_draws {β : Type} {p : Action α β} {mayFail : FileOp Bytes α → Prop}
    {w : World α Unit} {log : CallLog (Op α) Op.Res} {Q : Except Exn β → World α Unit → Prop}
    (hfiles : p.Only fun o => ∃ f, o = .file f)
    (h : p.Ensures (onFiles mayFail) (fun _ => True) w Q) :
    p.Ensures (logged (onFiles mayFail)) (fun _ => True) (w, log) fun x s' =>
      Q x s'.1 ∧ draws s'.2 = draws log := by
  apply ensures_mono ((ensures_logged.mpr h).and (hfiles.ensures_log w log))
  rintro x ⟨w', log'⟩ ⟨hx, more, rfl, hmore⟩
  refine ⟨hx, ?_⟩
  have hnone : draws more = [] := by
    apply List.filterMap_eq_nil_iff.mpr
    rintro ⟨o, r⟩ hc
    obtain ⟨f, rfl⟩ := hmore _ hc
    rfl
  rw [draws_append, hnone, List.append_nil]

/-- **Opening a store of version 1** encrypts it. -/
theorem ensures_encryptedAtPath_version1 [IdealKdf α] {fs : Files Bytes α} {text : List α}
    {contents : Json α} (hpath : path ≠ []) (htext : fs path = some text)
    (h : IsVersion1Store text contents) :
    (encryptedAtPath path username password).Ensures (logged (onFiles fun _ => False))
      (fun _ => True) (⟨fs, ()⟩, []) fun x s' => ∃ store text', x = .ok store ∧
        Migrated path username password contents (draws s'.2) s'.1.files store text' := by
  have hexists : ∀ log : CallLog (Op α) Op.Res, (fileExists path).Ensures
      (logged (onFiles fun _ => False)) (fun _ => True) (⟨fs, ()⟩, log)
      fun x s' => (x = .ok true ∧ s'.1 = ⟨fs, ()⟩) ∧ draws s'.2 = draws log := by
    intro log
    refine ensures_draws (Q := fun x w => x = .ok true ∧ w = ⟨fs, ()⟩)
      (only_fileExists ⟨_, rfl⟩) ?_
    apply ensures_fileExists trivial ?_ fun h => h.elim
    simp [htext]
  have hread : ∀ log : CallLog (Op α) Op.Res, (readFile path : Action α _).Ensures
      (logged (onFiles fun _ => False)) (fun _ => True) (⟨fs, ()⟩, log)
      fun x s' => (x = .ok (some text) ∧ s'.1 = ⟨fs, ()⟩) ∧ draws s'.2 = draws log := by
    intro log
    refine ensures_draws (Q := fun x w => x = .ok (some text) ∧ w = ⟨fs, ()⟩) (only_op ⟨_, rfl⟩) ?_
    apply ensures_readFile trivial ?_ fun _ h => h.elim
    simp [htext]
  rw [encryptedAtPath, ensures_bind, kdfParamsForStore, ensures_bind, perform, ensures_logged_op]
  refine ⟨trivial, ?_⟩
  rintro salt _ ⟨hsalt, rfl⟩
  refine ⟨trivial, ?_⟩
  dsimp only
  rw [ensures_bind]
  apply ensures_mono (hexists _)
  rintro _ ⟨_, log⟩ ⟨⟨rfl, rfl⟩, hlog⟩
  simp only [if_true]
  rw [ensures_bind]
  apply ensures_mono (hread _)
  rintro _ ⟨_, log'⟩ ⟨⟨rfl, rfl⟩, hlog'⟩
  dsimp only at hlog hlog' ⊢
  rw [h.parseJsonLenient, storedKdfParams_version1 salt h.version, ensures_ofExcept]
  refine ⟨trivial, ?_⟩
  dsimp only
  -- the key is derived with the parameters of a new store
  obtain ⟨key, hkey⟩ := exists_deriveCacheEncryptionKey password
    (⟨salt, kCacheKdfOpsLimit, kCacheKdfMemLimit⟩ : StoreKdfParams α)
  rw [ensures_bind, ensures_ofExcept, hkey]
  refine ⟨trivial, ?_⟩
  dsimp only
  rw [ensures_bind]
  apply ensures_mono (hexists _)
  rintro _ ⟨_, log₂⟩ ⟨⟨rfl, rfl⟩, hlog₂⟩
  simp only [if_true]
  rw [ensures_bind]
  apply ensures_mono (hread _)
  rintro _ ⟨_, log₃⟩ ⟨⟨rfl, rfl⟩, hlog₃⟩
  dsimp only at hlog₂ hlog₃ ⊢
  have hsaltDrawn : draws log₃ = [salt] := by
    rw [hlog₃, hlog₂, hlog', hlog]
    rfl
  rw [ensures_bind, migrate, ensures_bind, ensures_ofExcept, h.parseJsonLenient, h.version]
  refine ⟨trivial, ?_⟩
  simp only [if_true]
  rw [writeStore_, if_pos rfl, ensures_bind, perform, ensures_logged_op]
  refine ⟨trivial, ?_⟩
  rintro nonce _ ⟨hnonce, rfl⟩
  refine ⟨trivial, ?_⟩
  obtain ⟨plaintextText, hdump⟩ := Json.exists_dumpWith (some 2) 0 h.isStore.printable
  let store : MessageStore α :=
    ⟨path, username, key, salt, kCacheKdfOpsLimit, kCacheKdfMemLimit, true⟩
  let ciphertext := Crypto.aeadEncrypt plaintextText (cacheAssociatedData username) nonce key
  obtain ⟨text', htext'⟩ := exists_storeText store nonce ciphertext
  dsimp only
  rw [ensures_bind, ensures_ofExcept, sealStore, hdump]
  refine ⟨trivial, ?_⟩
  change (writeJsonFile path (storeEnvelope store nonce ciphertext)).Ensures _ _ _ _
  have hwrite : (writeJsonFile path (storeEnvelope store nonce ciphertext)).Ensures
      (onFiles fun _ => False) (fun _ => True) ⟨fs, ()⟩ fun x w =>
        x = .ok () ∧ w.files path = some text' := by
    apply ensures_writeJsonFile hpath (fun _ _ => trivial)
    · rintro text'' htext''
      cases htext'.symm.trans htext''
      exact ⟨rfl, moved_self ..⟩
    · intro e he
      cases htext'.symm.trans he
    · rintro ⟨_, ho⟩
      exact ho.elim
  apply ensures_mono (ensures_draws (only_writeJsonFile (fun o _ => ⟨o, rfl⟩) _) hwrite)
  rintro _ ⟨w', log₄⟩ ⟨⟨rfl, hfile⟩, hlog₄⟩
  dsimp only at hfile hlog₄ ⊢
  refine ⟨trivial, store, text', rfl, ⟨rfl, rfl, rfl, hsalt, hkey⟩, rfl, hfile,
    ⟨nonce, plaintextText, hnonce, hdump, htext'⟩, nonce, ciphertext, ?_, ?_⟩
  · rw [hlog₄, draws_append, hsaltDrawn]
    rfl
  · rw [parse_text (wf_storeEnvelope ..) htext', norm_storeEnvelope]

/-! ## Every opening and every read -/

section Again

variable [DecidableEq α] {fs₁ fs : Files Bytes α} {first store : MessageStore α} {text : List α}
  {contents : Json α} {drawn : List (List α)} {openings : List (Except Exn (MessageStore α))}
  {reads : List (UInt64 × Except Exn (Option (List α)))}

/-- A store that was opened on the file with the parameters of the first. -/
structure SameStore (path : Bytes) (username password : List α) (first store : MessageStore α) :
    Prop where
  opened : OpenedWith path username password store
  same : SameParams store first

/-- Such a store gives the plaintexts the file had when it was not encrypted. -/
theorem SameStore.gives [LawfulAead α] [IdealKdf α] (hpath : path ≠ [])
    (hstore : SameStore path username password first store)
    (hfirst : Migrated path username password contents drawn fs first text)
    (hcontents : IsStore (normalizeStore contents)) (id : UInt64) :
    Gives store fs id (plaintextOf (normalizeStore contents) id) := by
  rw [← plaintextOf_norm]
  apply gives_of_read
  apply ensures_mono (ensures_readStore_sealed hpath hstore.opened hfirst.file hfirst.sealedFile)
  rintro x w' ⟨rfl, envelope, hparse, rfl⟩
  obtain ⟨husername, hkey⟩ := (hstore.opened.same_iff hfirst.opened hstore.same).mpr rfl
  exact ⟨rfl, openEnvelope_sealed hfirst.sealedFile hparse hcontents husername hkey⟩

/-- What is true of any number of openings and reads. -/
structure ReopenedInv (path : Bytes) (username password : List α) (first : MessageStore α)
    (contents : Json α) (fs₁ : Files Bytes α) (openings : List (Except Exn (MessageStore α)))
    (reads : List (UInt64 × Except Exn (Option (List α)))) (fs : Files Bytes α) : Prop where
  files : fs = fs₁
  openings : ∀ x ∈ openings, ∃ store, x = .ok store ∧
    SameStore path username password first store
  reads : ∀ r ∈ reads, r.2 = .ok (plaintextOf (normalizeStore contents) r.1)

theorem Reopened.inv [LawfulAead α] [IdealKdf α] (hpath : path ≠ [])
    (hfirst : Migrated path username password contents drawn fs₁ first text)
    (hcontents : IsStore (normalizeStore contents))
    (h : Reopened path username password first fs₁ openings reads fs) :
    ReopenedInv path username password first contents fs₁ openings reads fs := by
  induction h with
  | start =>
      refine ⟨rfl, ?_, by simp⟩
      intro x hx
      exact ⟨first, List.mem_singleton.mp hx, hfirst.opened, rfl, rfl, rfl⟩
  | opened _ hopen ih =>
      obtain rfl := ih.files
      obtain ⟨hw, store, rfl, hopened, hsame⟩ := (ensures_encryptedAtPath_sealed
        (I := fun _ => True) trivial hfirst.file hfirst.sealedFile hfirst.opened.salt).of_runs hopen
      cases hw
      refine ⟨rfl, ?_, ih.reads⟩
      intro x hx
      rcases List.mem_append.mp hx with hx | hx
      · exact ih.openings x hx
      · exact ⟨store, List.mem_singleton.mp hx, hopened, hsame⟩
  | read _ hstore hread ih =>
      obtain rfl := ih.files
      obtain ⟨_, hok, hsame⟩ := ih.openings _ hstore
      cases hok
      obtain ⟨rfl, rfl⟩ := hsame.gives hpath hfirst hcontents _ _ _ hread
      refine ⟨rfl, ih.openings, ?_⟩
      intro r hr
      rcases List.mem_append.mp hr with hr | hr
      · exact ih.reads r hr
      · rw [List.mem_singleton.mp hr]

end Again

/-! ## Migration -/

/-- The text is an envelope of version 2.  Besides its ciphertext it says what was drawn, and
nothing of what it holds. -/
def IsEnvelope (salt nonce text : List α) : Prop :=
  ∃ envelope, Json.parse text = some envelope ∧ envelope.isObject = true ∧
    envelope.get? (bytes "version") = some (.unsigned 2) ∧
    ∀ name, name ≠ bytes "ciphertext" → envelope.get? name =
      (storeEnvelope (versionlessStore [] [] salt []) nonce []).get? name

omit [FloatFormat] [LawfulBase64 α] in
/-- Two envelopes with the same parameters and nonce differ in their ciphertext only. -/
theorem get?_storeEnvelope {store store' : MessageStore α} (h : SameParams store store')
    (nonce ciphertext ciphertext' : List α) {name : Bytes} (hname : name ≠ bytes "ciphertext") :
    (storeEnvelope store nonce ciphertext).get? name =
      (storeEnvelope store' nonce ciphertext').get? name := by
  obtain ⟨hsalt, hops, hmem⟩ := h
  simp [storeEnvelope, Json.get?_mkObj, Json.lookup, hsalt, hops, hmem, hname.symm]

omit [LawfulBase64 α] in
theorem Migrated.isEnvelope {contents : Json α} {drawn : List (List α)} {fs : Files Bytes α}
    {store : MessageStore α} {text : List α}
    (h : Migrated path username password contents drawn fs store text) :
    ∃ salt nonce, drawn = [salt, nonce] ∧ IsEnvelope salt nonce text := by
  obtain ⟨nonce, ciphertext, hdrawn, hparse⟩ := h.drawn
  refine ⟨store.salt, nonce, hdrawn, _, hparse, Json.isObject_mkObj _, ?_, ?_⟩
  · simp +decide [storeEnvelope, Json.get?_mkObj, Json.lookup]
  · intro name hname
    have hsame : SameParams store (versionlessStore [] [] store.salt []) :=
      ⟨rfl, Prod.mk.inj h.params⟩
    exact get?_storeEnvelope hsame nonce ciphertext [] hname

/-- **Migration keeps every message**: the store that an opening returns gives what the plain
store gave, and so does every store that is opened after it, without a change of the file. -/
theorem migration_keeps_messages [DecidableEq α] [LawfulAead α] [IdealKdf α] {fs : Files Bytes α}
    {text : List α} {contents : Json α} (hpath : path ≠ []) (htext : fs path = some text)
    (h : IsVersion1Store text contents) (username password : List α) :
    ∃ messages : UInt64 → Option (List α),
      (∀ id, Gives (plainStore path) fs id (messages id)) ∧
      ∀ x fs₁ log, (encryptedAtPath path username password).Runs (logged (onFiles fun _ => False))
          (⟨fs, ()⟩, []) (some x) (⟨fs₁, ()⟩, log) →
        ∃ store, x = .ok store ∧ (∀ id, Gives store fs₁ id (messages id)) ∧
          (∃ text₁ salt nonce, fs₁ path = some text₁ ∧ draws log = [salt, nonce] ∧
            IsEnvelope salt nonce text₁) ∧
          ∀ openings reads fs₂, Reopened path username password store fs₁ openings reads fs₂ →
            fs₂ = fs₁ ∧ (∀ y ∈ openings, ∃ store₂, y = .ok store₂) ∧
              ∀ r ∈ reads, r.2 = .ok (messages r.1) := by
  refine ⟨plaintextOf (normalizeStore contents), gives_plainStore hpath htext h, ?_⟩
  intro x fs₁ log hrun
  obtain ⟨store, text₁, rfl, hmigrated⟩ :=
    (ensures_encryptedAtPath_version1 hpath htext h).of_runs hrun
  obtain ⟨salt, nonce, hdrawn, henvelope⟩ := hmigrated.isEnvelope
  have hfirst : SameStore path username password store store := ⟨hmigrated.opened, rfl, rfl, rfl⟩
  refine ⟨store, rfl, fun id => hfirst.gives hpath hmigrated h.isStore id,
    ⟨text₁, salt, nonce, hmigrated.file, hdrawn, henvelope⟩, ?_⟩
  intro openings reads fs₂ hreopened
  have hinv := hreopened.inv hpath hmigrated h.isStore
  refine ⟨hinv.files, ?_, hinv.reads⟩
  intro y hy
  obtain ⟨store₂, hok, -⟩ := hinv.openings y hy
  exact ⟨store₂, hok⟩

end Opening

omit [Alphabet α] [FloatFormat] in
/-- A store of version 1 with a message in it. -/
theorem migration_keeps_messages_example : letI := plainFloats; letI := plainCrypto;
    ∃ (text : List UInt8) (contents : Json UInt8), IsVersion1Store text contents ∧
      plaintextOf contents 7 = some (bytes "hello") ∧
      ∃ messages : UInt64 → Option (List UInt8),
        (∀ id, Gives (plainStore (bytes "/m.json")) (fun _ => some text) id (messages id)) ∧
        ∀ x fs₁ log, (encryptedAtPath (bytes "/m.json") (bytes "a") (bytes "p")).Runs
            (logged (onFiles fun _ => False)) (⟨fun _ => some text, ()⟩, []) (some x)
            (⟨fs₁, ()⟩, log) →
          ∃ store, x = .ok store ∧ (∀ id, Gives store fs₁ id (messages id)) ∧
            (∃ text₁ salt nonce, fs₁ (bytes "/m.json") = some text₁ ∧ draws log = [salt, nonce] ∧
              IsEnvelope salt nonce text₁) ∧
            ∀ openings reads fs₂,
              Reopened (bytes "/m.json") (bytes "a") (bytes "p") store fs₁ openings reads fs₂ →
                fs₂ = fs₁ ∧ (∀ y ∈ openings, ∃ store₂, y = .ok store₂) ∧
                  ∀ r ∈ reads, r.2 = .ok (messages r.1) := by
  let := plainFloats
  let := plainCrypto
  have := lawfulBase64_plain
  have := lawfulAead_plain
  have := idealKdf_plain
  let r : PlaintextRecord UInt8 := ⟨7, 1, 2, 3, bytes "hello"⟩
  have hstore : IsStore (withPlaintext emptyStore r) :=
    isStore_emptyStore.withPlaintext (validUtf8_bytes _)
  obtain ⟨t, ht⟩ := Json.exists_dumpWith (some 2) 0 hstore.printable
  have hversion : IsVersion1Store t (withPlaintext emptyStore r).norm := by
    refine ⟨Json.parse_dumpWith ht hstore.wf, hstore.norm.object, ?_⟩
    intro v hv
    rw [Json.get?_norm, withPlaintext, Json.get?_set isStore_emptyStore.object,
      if_neg (by decide)] at hv
    simp +decide [emptyStore, Json.get?_mkObj, Json.lookup, Json.norm] at hv
    subst hv
    rfl
  have hpath : bytes "/m.json" ≠ [] := by decide
  refine ⟨t, _, hversion, ?_, migration_keeps_messages hpath (by rfl) hversion _ _⟩
  rw [plaintextOf_norm, plaintextOf_withPlaintext isStore_emptyStore]
  exact if_pos rfl

end Kd
