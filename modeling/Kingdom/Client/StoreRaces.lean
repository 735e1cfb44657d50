import Kingdom.Client.PinRaces
import Kingdom.Client.StoreAuthenticity

/-!
# Message stores of several sessions

Sessions with one file read it, change its contents and move a new file into its place,
without a lock, and each has the salt it found or drew when it opened the store.

* `StoreTask`, `storeProg` — the calls of all sessions, interleaved at their file
  operations.
* `NothingLost` — every call returns, and a message that was saved is shown until it is
  saved again or deleted.
* `Unhindered` — no call reads a file under other parameters than its own, writes beside
  the file at the same time as another one, or replaces a file it has not read.
* `nothing_lost` — nothing is lost in every run of such steps.
* `second_session_fails` — two stores that were opened before there was a file.
-/

namespace Kd

open Codec Process Storage

variable {α : Type} [Alphabet α] [Crypto α] [FloatFormat] [DecidableEq α]

/-! ## Sessions -/

/-- `encryptedAtPath` has returned the store. -/
def OpenedBy (path : Bytes) (username password : List α) (store : MessageStore α) : Prop :=
  ∃ fs fs', (encryptedAtPath path username password).Runs (onFiles fun _ => False) ⟨fs, ()⟩
    (some (.ok store)) ⟨fs', ()⟩

/-- A call of a session. -/
structure StoreTask (path : Bytes) (username password : List α) where
  store : MessageStore α
  opened : OpenedBy path username password store
  op : StoreOp α
  valid : op.Valid

variable {path : Bytes} {username password : List α}

/-- What a call runs. -/
def storeProg (t : StoreTask path username password) : Action α (Option (List α)) :=
  t.op.run t.store

/-- The calls that were started, and the files. -/
abbrev StoreSystem (path : Bytes) (username password : List α) :=
  System (Op α) Op.Res Exn (World α Unit) (Option (List α)) (StoreTask path username password)

/-- A call that was started. -/
abbrev StoreThread (path : Bytes) (username password : List α) :=
  Thread (Op α) Op.Res Exn (World α Unit) (Option (List α)) (StoreTask path username password)

/-- The steps of a run. -/
abbrev StoreTrace (path : Bytes) (username password : List α) :=
  Trace (Op α) Op.Res Exn (World α Unit) (Option (List α)) (StoreTask path username password)

/-- One step, with the system it is taken in. -/
abbrev StoreStep (path : Bytes) (username password : List α) :=
  StoreSystem path username password × Label (Op α) Op.Res (StoreTask path username password)

/-- The run of calls on one machine. -/
abbrev StoreRaces (s : World α Unit) (tr : StoreTrace path username password)
    (w : StoreSystem path username password) : Prop :=
  Run (pinMachine α) storeProg ⟨s, []⟩ tr w

/-! ## The property and the condition -/

/-- With the step a call moves the file it has written into its place. -/
def Replaces (path : Bytes) (i : Nat) (op : StoreOp α) (y : StoreStep path username password) : Prop :=
  y.2 = .call i (.file (.rename (tmpOf path) path)) true ∧
    ∃ th, y.1.threads[i]? = some th ∧ th.task.op = op

/-- A call has ended so with the step. -/
def Ends (y : StoreStep path username password) (op : StoreOp α)
    (x : Except Exn (Option (List α))) : Prop :=
  ∃ i t past o k r, y.1.threads[i]? = some ⟨t, past, .call o k⟩ ∧ y.2 = .call i o r ∧
    (k r).result? = some x ∧ t.op = op

/-- The plaintext of a message after some steps: the one saved last and not deleted since,
or the one the file had when nothing has changed it. -/
def Shown (m₀ : UInt64 → Option (List α)) (tr : StoreTrace path username password) (id : UInt64)
    (t : List α) : Prop :=
  (m₀ id = some t ∧ ∀ y ∈ tr, ¬ ∃ i op, Replaces path i op y ∧ op.Changes id) ∨
    Since (fun y => ∃ i op, Replaces path i op y ∧ op.Saves id t)
      (fun y => ∃ i op, Replaces path i op y ∧ op.Changes id) tr

/-- **Two sessions lose nothing**: no call fails, one that saves or deletes has moved its
file into place when it returns, and one that gets a message returns the plaintext that
was saved last. -/
structure NothingLost (m₀ : UInt64 → Option (List α)) (tr : StoreTrace path username password)
    (w : StoreSystem path username password) : Prop where
  returned : ∀ th ∈ w.threads, ∀ x, th.prog.result? = some x → ∃ a, x = .ok a
  stored : ∀ i th x, w.threads[i]? = some th → th.prog.result? = some x →
    th.task.op.writes = true → ∃ y ∈ tr, Replaces path i th.task.op y
  shown : ∀ before y after id x, tr = before ++ y :: after → Ends y (.get id) x →
    ∃ a, x = .ok a ∧ ∀ t, a = some t ↔ Shown m₀ before id t

/-- The operation reads the file. -/
def Op.reads (path : Bytes) : Op α → Bool
  | .file (.read p) => p == path
  | _ => false

/-- The operation moves another file into its place. -/
def Op.moves (path : Bytes) : Op α → Bool
  | .file (.rename _ q) => q == path
  | _ => false

/-- The call has a file beside: it has opened it, and not yet moved it. -/
def Beside (path : Bytes) (past : PinPast α) : Prop :=
  past.getLast?.any (fun e => e.op.opens (tmpOf path) || e.op.writes (tmpOf path)) = true

/-- The file says that its key is derived with the parameters of the store. -/
def SameKdf (store : MessageStore α) (text : List α) : Prop :=
  storedKdfParams store.salt (parseJsonLenient (some text)) =
    .ok ⟨store.salt, store.opsLimit, store.memLimit⟩

/-- The step does not read a file under other parameters, open a file beside while another
call has one there, or replace a file that its call has not found. -/
def Unhindered (y : StoreStep path username password) : Prop :=
  match y.2 with
  | .call i o _ => ∀ th ∈ y.1.threads[i]?,
      (o.reads path = true → ∀ text ∈ y.1.state.files path, SameKdf th.task.store text) ∧
      (o.opens (tmpOf path) = true → ∀ th' ∈ y.1.threads, ¬ Beside path th'.past) ∧
      (o.moves path = true → Found path th.past (y.1.state.files path))
  | _ => True

/-! ## What a file holds -/

/-- What a store reads of the file. -/
def readOf (store : MessageStore α) : Option (List α) → Except Exn (Json α)
  | none => .ok emptyStore
  | some text => do openEnvelope store (← parseJsonStrict store.storePath (some text))

/-- There is no file yet, or a store that was opened so has sealed these plaintexts in it. -/
inductive StoreFile (path : Bytes) (username password : List α) :
    Option (List α) → (UInt64 → Option (List α)) → Prop where
  | absent : StoreFile path username password none fun _ => none
  | stored {owner contents text} (howner : OpenedWith path username password owner)
      (hcontents : IsStore contents) (hsealed : Sealed owner contents text) :
      StoreFile path username password (some text) (plaintextOf contents)

/-- The store can read the file. -/
def Readable (store : MessageStore α) (file : Option (List α)) : Prop :=
  ∃ contents, readOf store file = .ok contents ∧ IsStore contents

section Files

variable [LawfulBase64 α] {store : MessageStore α} {file : Option (List α)}
  {m : UInt64 → Option (List α)}

/-- **A store reads what its parameters have sealed.** -/
theorem StoreFile.reads [LawfulAead α] (h : StoreFile path username password file m)
    (hstore : OpenedWith path username password store)
    (hkdf : ∀ text, file = some text → SameKdf store text) :
    ∃ contents, readOf store file = .ok contents ∧ IsStore contents ∧ plaintextOf contents = m := by
  cases h with
  | absent =>
      refine ⟨emptyStore, rfl, isStore_emptyStore, ?_⟩
      funext id
      exact plaintextOf_emptyStore id
  | @stored owner contents text howner hcontents hsealed =>
      have hparams := hkdf text rfl
      rw [SameKdf, storedKdfParams_sealed hsealed howner.salt] at hparams
      have hkey : store.encryptionKey = owner.encryptionKey := by
        have h := hstore.encryptionKey
        rw [← Except.ok.inj hparams, howner.encryptionKey] at h
        exact (Except.ok.inj h).symm
      obtain ⟨nonce, plaintextText, -, -, henvelope⟩ := hsealed.parse
      have hobj : (storeEnvelope owner nonce (Crypto.aeadEncrypt plaintextText
          (cacheAssociatedData owner.username) nonce owner.encryptionKey)).isObject = true :=
        Json.isObject_mkObj _
      have hopens : openEnvelope store (storeEnvelope owner nonce (Crypto.aeadEncrypt plaintextText
          (cacheAssociatedData owner.username) nonce owner.encryptionKey)) = .ok contents.norm :=
        openEnvelope_sealed hsealed henvelope hcontents
          (hstore.username.trans howner.username.symm) hkey
      refine ⟨contents.norm, ?_, hcontents.norm, ?_⟩
      · simp only [readOf, parseJsonStrict, jsonOfFile, orThrow, henvelope, Option.elim_some, ok_bind,
          ensure, hobj, if_true]
        exact hopens
      · funext id
        exact plaintextOf_norm contents id

omit [LawfulBase64 α] [DecidableEq α] in
/-- Opening a store derives its key with the parameters it keeps. -/
theorem OpenedBy.openedWith (h : OpenedBy path username password store) :
    OpenedWith path username password store := by
  obtain ⟨fs, fs', hruns⟩ := h
  suffices hspec : (encryptedAtPath path username password).Ensures (onFiles fun _ => False)
      (fun _ => True) ⟨fs, ()⟩ fun x _ => ∀ store, x = .ok store →
        OpenedWith path username password store from hspec.of_runs hruns store rfl
  rw [encryptedAtPath, Prog.ensures_bind]
  refine Prog.ensures_mono ensures_kdfParamsForStore ?_
  rintro x w ⟨-, hsalt⟩
  cases x with
  | error e => exact fun store h => by cases h
  | ok params =>
      simp only
      rw [Prog.ensures_bind, Prog.ensures_ofExcept]
      refine ⟨trivial, ?_⟩
      cases hkey : deriveCacheEncryptionKey password params with
      | error e => exact fun store h => by cases h
      | ok key =>
          have hreturn : ∀ store' : MessageStore α, (Except.ok ⟨path, username, key, params.salt,
              params.opsLimit, params.memLimit, true⟩ : Except Exn (MessageStore α)) = .ok store' →
                OpenedWith path username password store' := by
            rintro _ ⟨⟩
            exact ⟨rfl, rfl, rfl, hsalt params rfl, hkey⟩
          simp only
          rw [Prog.ensures_bind]
          -- whatever the file turns out to hold, the store is returned
          refine Prog.ensures_mono (Prog.ensures_true _ _) fun found w _ => ?_
          cases found with
          | error e => exact fun store h => by cases h
          | ok found =>
              cases found with
              | false => exact ⟨trivial, hreturn⟩
              | true =>
                  simp only [if_true]
                  rw [Prog.ensures_bind]
                  refine Prog.ensures_mono (Prog.ensures_true _ _) fun text w _ => ?_
                  cases text with
                  | error e => exact fun store h => by cases h
                  | ok text =>
                      simp only
                      rw [Prog.ensures_bind]
                      refine Prog.ensures_mono (Prog.ensures_true _ _) fun done w _ => ?_
                      cases done with
                      | error e => exact fun store h => by cases h
                      | ok _ => exact ⟨trivial, hreturn⟩

end Files

/-! ## What a call does -/

/-- Whether a file was moved into its place. -/
def moved? (path : Bytes) : Event (Op α) Op.Res (World α Unit) → Option Bool
  | ⟨.file (.rename _ q), r, _, _⟩ => if q = path then some r else none
  | _ => none

/-- The file is never taken away. -/
def storeShared (path : Bytes) : Shared (World α Unit) :=
  ⟨fun _ => True, fun s s' => (s.files path).isSome = true → (s'.files path).isSome = true⟩

/-- The call has written the contents it has found, as it changes them. -/
def Rewrote (t : StoreTask path username password) (past : PinPast α) (text : List α) : Prop :=
  ∃ contents, Sealed t.store (t.op.rewrite contents) text ∧
    ∀ file, Found path past file → readOf t.store file = .ok contents

/-- What holds when a call does an operation. -/
def StorePre (t : StoreTask path username password) (past : PinPast α) : Op α → World α Unit → Prop
  | .file (.exists p), _ => p = path ∧ ¬ Beside path past
  | .file (.read p), s => p = path ∧ ¬ Beside path past ∧ (s.files path).isSome = true
  | .file (.createDirectories _), _ => ¬ Beside path past
  | .file (.setPermissions _), _ => ¬ Beside path past
  | .random _, _ => ¬ Beside path past
  | .file (.truncate p), _ => p = tmpOf path ∧ ¬ Beside path past
  | .file (.write p _), _ => p = tmpOf path ∧ past.getLast?.any (·.op.opens p) = true
  | .file (.rename p q), _ => p = tmpOf path ∧ q = path ∧ t.op.writes = true ∧
      ∃ before e text, past = before ++ [e] ∧ e.op = .file (.write p text) ∧ Rewrote t past text
  | _, _ => False

/-- What a call has done when it ends. -/
structure StorePost (t : StoreTask path username password) (past : PinPast α)
    (x : Except Exn (Option (List α))) : Prop where
  /-- It fails on a file it cannot read, or when it cannot move its own. -/
  failed : ∀ e, x = .error e → (∃ file, Found path past file ∧ ¬ Readable t.store file) ∨
    ∃ e ∈ past, moved? path e = some false
  replaced : t.op.writes = true → ∀ a, x = .ok a → ∃ e ∈ past, moved? path e = some true
  /-- It returns what it has seen last. -/
  got : ∀ id, t.op = .get id → ∃ before e file, past = before ++ [e] ∧ saw path e = some file ∧
    x = (readOf t.store file).map (plaintextOf · id)

section Calls

variable {t : StoreTask path username password} {past : PinPast α}
  {e : Event (Op α) Op.Res (World α Unit)}

omit [Alphabet α] [Crypto α] [FloatFormat] [DecidableEq α] in
theorem beside_snoc : Beside path (past ++ [e]) ↔
    (e.op.opens (tmpOf path) || e.op.writes (tmpOf path)) = true := by
  simp [Beside]

omit [Alphabet α] [Crypto α] [FloatFormat] [DecidableEq α] in
theorem not_beside_snoc (hopens : e.op.opens (tmpOf path) = false)
    (hwrites : e.op.writes (tmpOf path) = false) : ¬ Beside path (past ++ [e]) := by
  rw [beside_snoc, hopens, hwrites]
  exact Bool.false_ne_true

omit [Alphabet α] [Crypto α] [FloatFormat] [DecidableEq α] in
theorem found_quiet {file : Option (List α)} (he : saw path e = none)
    (h : Found path (past ++ [e]) file) : Found path past file := by
  rcases found_snoc.mp h with h | h
  · exact h
  · rw [he] at h
    cases h

omit [Alphabet α] [Crypto α] [FloatFormat] [DecidableEq α] in
/-- A call that draws random bytes. -/
theorem wp_random_bind {β : Type} {S : Shared (World α Unit)}
    {pre : PinPast α → Op α → World α Unit → Prop} {n : Nat} {f : List α → Action α β}
    {Q : PinPast α → Except Exn β → Prop} (hpre : ∀ s, pre past (.random n) s)
    (h : ∀ (s : World α Unit) r, r.length = n →
      wp (pinMachine α) S pre (past ++ [⟨.random n, r, s, s⟩]) (f r) Q) :
    wp (pinMachine α) S pre past (perform (.random n) >>= f) Q := by
  refine ⟨fun s _ => hpre s, ?_⟩
  rintro s r s' - ⟨hlen, rfl⟩
  exact h s' r hlen

/-- A call looks whether there is a file, and reads it. -/
theorem wp_readStore (hpath : path ≠ []) (hstore : OpenedWith path username password t.store)
    {Q : PinPast α → Except Exn (Json α) → Prop}
    (h : ∀ past e file, saw path e = some file →
      (∀ file', Found path (past ++ [e]) file' → file' = file) →
      ¬ Beside path (past ++ [e]) →
      Q (past ++ [e]) (readOf t.store file)) :
    wp (pinMachine α) (storeShared path) (StorePre t) [] (readStore_ t.store) Q := by
  have hstart : ¬ Beside path ([] : PinPast α) := by simp [Beside]
  rw [readStore_, hstore.storePath, if_neg hpath, wp_bind, fileExists]
  refine wp_file_bind (fun _ _ => ⟨rfl, hstart⟩) fun s hs => ?_
  rw [List.nil_append]
  cases hfile : s.files path with
  | none =>
      have hans : (FileOp.exists path).answer s.files = some false := by
        simp [FileOp.answer, hfile]
      rw [hans]
      refine h [] _ none (by simp [saw]) ?_ (not_beside_snoc rfl rfl)
      intro file' hfound
      simpa [Found, saw, eq_comm] using hfound
  | some text₀ =>
      have hans : (FileOp.exists path).answer s.files = some true := by
        simp [FileOp.answer, hfile]
      rw [hans]
      simp only [hstore.encryptedAtRest, if_true]
      change wp _ _ _ _ (readFile _ >>= _) _
      rw [readFile]
      -- the file is still there
      have hthere : ∀ s', Past (pinMachine α) (storeShared path)
          [⟨.file (.exists path), some true, s,
            { s with files := (FileOp.exists path).effect s.files }⟩]
          s' → (s'.files path).isSome = true := by
        intro s' hpast
        refine (hpast.2 _ (List.mem_singleton_self _)).2.2 ?_
        change (s.files path).isSome = true
        rw [hfile]
        rfl
      refine wp_file_bind (fun s' hs' => ⟨rfl, ?_, hthere s' hs'⟩) fun s' hs' => ?_
      · exact @not_beside_snoc _ _ [] _ rfl rfl
      · obtain ⟨text, htext⟩ := Option.isSome_iff_exists.mp (hthere s' hs')
        have hans' : (FileOp.read path).answer s'.files = some text := htext
        rw [hans', wp_ofExcept]
        have hread : readOf t.store (some text) =
            (do openEnvelope t.store (← parseJsonStrict path (some text))) := by
          rw [readOf, hstore.storePath]
        rw [← hread]
        refine h [_] _ (some text) (by simp [saw]) ?_ (not_beside_snoc rfl rfl)
        intro file' hfound
        simpa [Found, saw, eq_comm] using hfound

variable [LawfulBase64 α]

omit [Crypto α] [DecidableEq α] [LawfulBase64 α] in
theorem IsStore.rewriteValid {contents : Json α} (h : IsStore contents)
    {op : StoreOp α} (hvalid : op.Valid) : IsStore (op.rewrite contents) := by
  cases op with
  | get id => exact h
  | save r => exact h.withPlaintext hvalid
  | delete id => exact h.withoutPlaintext id

/-- A call writes a file beside and moves it. -/
theorem wp_writeStore (hpath : path ≠ []) (hstore : OpenedWith path username password t.store)
    (hwrites : t.op.writes = true) {file : Option (List α)} {contents : Json α}
    (hfound : Found path past file) (honly : ∀ file', Found path past file' → file' = file)
    (hread : readOf t.store file = .ok contents) (hbeside : ¬ Beside path past) :
    wp (pinMachine α) (storeShared path) (StorePre t) past
      (writeStore_ t.store (t.op.rewrite contents)) fun past' x =>
        (∀ e, x = .error e → (∃ file, Found path past' file ∧ ¬ Readable t.store file) ∨
          ∃ e ∈ past', moved? path e = some false) ∧
        (∀ a, x = .ok a → ∃ e ∈ past', moved? path e = some true) := by
  rw [writeStore_, if_pos hstore.encryptedAtRest]
  refine wp_random_bind (fun _ => hbeside) fun s nonce hnonce => ?_
  rw [wp_bind, wp_ofExcept, sealStore]
  cases hdump : (t.op.rewrite contents).dumpWith (some 2) 0 with
  | none =>
      -- contents that a store has read can be printed
      refine ⟨fun e _ => .inl ⟨file, found_snoc.mpr (.inl hfound), ?_⟩, fun a h => by cases h⟩
      rintro ⟨contents', hread', hcontents⟩
      rw [hread] at hread'
      obtain rfl := Except.ok.inj hread'
      obtain ⟨plaintextText, h⟩ := Json.exists_dumpWith (some 2) 0
        (hcontents.rewriteValid t.valid).printable
      rw [hdump] at h
      cases h
  | some plaintextText =>
      obtain ⟨text, htext⟩ := exists_storeText t.store nonce (Crypto.aeadEncrypt plaintextText
        (cacheAssociatedData t.store.username) nonce t.store.encryptionKey)
      have hsealed : Sealed t.store (t.op.rewrite contents) text :=
        ⟨nonce, plaintextText, hnonce, hdump, htext⟩
      change wp _ _ _ _ (writeJsonFile t.store.storePath _) _
      rw [writeJsonFile, hstore.storePath, if_neg hpath]
      refine wp_file_bind (fun _ _ => not_beside_snoc rfl rfl) fun s₁ _ => ?_
      simp only [FileOp.answer, orFail_true, Prog.pure_bind']
      rw [wp_bind, writeText]
      refine wp_file_bind (fun _ _ => ⟨rfl, not_beside_snoc rfl rfl⟩) fun s₂ _ => ?_
      simp only [FileOp.answer, orFail_true, Prog.pure_bind']
      rw [wp_bind, wp_ofExcept, htext]
      refine wp_file_bind (fun _ _ => ⟨rfl, by simp [Op.opens]⟩) fun s₃ _ => ?_
      simp only [FileOp.answer, orFail_true]
      refine wp_file_bind (fun _ _ => ⟨rfl, rfl, hwrites, _, _, text, rfl, rfl, contents, hsealed, ?_⟩)
        fun s₄ _ => ?_
      · intro file' hfile'
        rw [honly file' (found_quiet rfl (found_quiet rfl (found_quiet rfl (found_quiet rfl hfile'))))]
        exact hread
      · cases hans : (FileOp.rename (tmpOf path) path).answer s₄.files with
        | false =>
            refine ⟨fun e _ => .inr ⟨_, List.mem_append_right _ (List.mem_singleton_self _), ?_⟩,
              fun a h => by cases h⟩
            simp [moved?]
        | true =>
            simp only [orFail_true, Prog.pure_bind']
            refine wp_file_bind (fun _ _ => not_beside_snoc rfl ?_) fun s₅ _ =>
              ⟨(fun e h => by cases h), fun a _ => ?_⟩
            · simp [Op.writes]
            · exact ⟨_, List.mem_append_left _ (List.mem_append_right _ (List.mem_singleton_self _)),
                by simp [moved?]⟩

/-- A call that saves or deletes. -/
theorem wp_rewrite (hpath : path ≠ []) (hstore : OpenedWith path username password t.store)
    (hwrites : t.op.writes = true) :
    wp (pinMachine α) (storeShared path) (StorePre t) []
      (do let contents ← readStore_ t.store
          writeStore_ t.store (t.op.rewrite contents) : Action α Unit) fun past x =>
        (∀ e, x = .error e → (∃ file, Found path past file ∧ ¬ Readable t.store file) ∨
          ∃ e ∈ past, moved? path e = some false) ∧
        (∀ a, x = .ok a → ∃ e ∈ past, moved? path e = some true) := by
  rw [wp_bind]
  refine wp_readStore hpath hstore fun past e file hsaw honly hbeside => ?_
  have hfound : Found path (past ++ [e]) file := found_snoc.mpr (.inr hsaw)
  cases hread : readOf t.store file with
  | error e' =>
      refine ⟨fun _ _ => .inl ⟨file, hfound, ?_⟩, fun a h => by cases h⟩
      rintro ⟨contents, hcontents, -⟩
      rw [hread] at hcontents
      cases hcontents
  | ok contents => exact wp_writeStore hpath hstore hwrites hfound honly hread hbeside

/-- **The operations of a call**: it reads the file, and what it writes are the contents
it has read, with its own change. -/
theorem wp_storeProg (hpath : path ≠ []) (t : StoreTask path username password) :
    wp (pinMachine α) (storeShared path) (StorePre t) [] (storeProg t) (StorePost t) := by
  have hstore := t.opened.openedWith
  have hwrite : t.op.writes = true →
      wp (pinMachine α) (storeShared path) (StorePre t) []
        ((do let contents ← readStore_ t.store
             writeStore_ t.store (t.op.rewrite contents) : Action α Unit) >>= fun _ =>
          (Prog.pure none : Action α (Option (List α)))) (StorePost t) := by
    intro hwrites
    rw [wp_bind]
    refine wp_mono (wp_rewrite hpath hstore hwrites) fun more x hx => ?_
    obtain ⟨hfailed, hdone⟩ := hx
    have hget : ∀ id, t.op ≠ .get id := by
      intro id hop
      rw [hop] at hwrites
      cases hwrites
    cases x with
    | error e =>
        exact ⟨fun e' _ => hfailed e rfl, (fun _ a h => by cases h), fun id hop => absurd hop (hget id)⟩
    | ok _ =>
        exact ⟨(fun e h => by cases h), fun _ _ _ => hdone () rfl, fun id hop => absurd hop (hget id)⟩
  rw [storeProg]
  cases hop : t.op with
  | get id =>
      rw [StoreOp.run, getPlaintext, wp_bind]
      refine wp_readStore hpath hstore fun past e file hsaw _ _ => ?_
      have hfound : Found path (past ++ [e]) file := found_snoc.mpr (.inr hsaw)
      have hreads : t.op.writes = true → False := by
        intro hwrites
        rw [hop] at hwrites
        cases hwrites
      have hgot : ∀ x, x = (readOf t.store file).map (plaintextOf · id) → ∀ id', t.op = .get id' →
          ∃ before e' file, past ++ [e] = before ++ [e'] ∧ saw path e' = some file ∧
            x = (readOf t.store file).map (plaintextOf · id') := by
        intro x hx id' hop'
        cases hop.symm.trans hop'
        exact ⟨past, e, file, rfl, hsaw, hx⟩
      cases hread : readOf t.store file with
      | error e' =>
          refine ⟨fun _ _ => .inl ⟨file, hfound, ?_⟩, fun h => (hreads h).elim, hgot _ ?_⟩
          · rintro ⟨contents, hcontents, -⟩
            rw [hread] at hcontents
            cases hcontents
          · rw [hread]
            rfl
      | ok contents =>
          refine ⟨(fun _ h => by cases h), fun h => (hreads h).elim, hgot _ ?_⟩
          rw [hread]
          rfl
  | save r =>
      rw [hop] at hwrite
      exact hwrite rfl
  | delete id =>
      rw [hop] at hwrite
      exact hwrite rfl

end Calls

/-- What the calls of all sessions keep to. -/
def storeContract [LawfulBase64 α] (hpath : path ≠ []) :
    Contract (pinMachine α) (@storeProg α _ _ _ _ path username password) where
  toShared := storeShared path
  pre := StorePre
  post := StorePost
  rely_refl _ h := h
  rely_trans h h' hs := h' (h hs)
  exec_ok := by
    intro t past o s r s' _ hpre hexec
    refine ⟨trivial, fun hthere => ?_⟩
    cases o with
    | file o =>
        obtain ⟨fs, hfs, rfl⟩ := hexec
        obtain ⟨-, rfl⟩ := FileOp.exec_reliable id hfs
        have hne : path ≠ tmpOf path := (tmpOf_ne path).symm
        cases o with
        | «exists» p => exact hthere
        | read p => exact hthere
        | createDirectories p => exact hthere
        | setPermissions p => exact hthere
        | put | close => exact hpre.elim
        | truncate p =>
            obtain ⟨rfl, -⟩ := hpre
            simpa [FileOp.effect, Function.update_of_ne hne] using hthere
        | write p text =>
            obtain ⟨rfl, -⟩ := hpre
            simpa [FileOp.effect, Function.update_of_ne hne] using hthere
        | rename p q =>
            obtain ⟨rfl, rfl, -⟩ := hpre
            simp only [FileOp.effect]
            split_ifs with hsome
            · simpa using hsome
            · exact hthere
        | remove p => exact hpre.elim
    | random n =>
        obtain ⟨-, rfl⟩ := hexec
        exact hthere
    | boxKeypair => exact hpre.elim
    | signKeypair => exact hpre.elim
    | http req => exact hpre.elim
  env_ok _ h := h.elim
  restart_ok _ h := h.elim
  prog_ok := wp_storeProg hpath

/-! ## All sessions -/

/-- What a call has put beside the file so far. -/
def besideText (past : PinPast α) : List α :=
  match past.getLast? with
  | some ⟨.file (.write _ text), _, _, _⟩ => text
  | _ => []

/-- **What holds between the steps**, of the plaintexts that are in the file. -/
structure RaceInv (m₀ : UInt64 → Option (List α)) (tr : StoreTrace path username password)
    (w : StoreSystem path username password) (m : UInt64 → Option (List α)) : Prop where
  file : StoreFile path username password (w.state.files path) m
  shown : ∀ id t, m id = some t ↔ Shown m₀ tr id t
  /-- What a call has seen of the file it could read. -/
  found : ∀ th ∈ w.threads, ∀ file, Found path th.past file →
    Readable th.task.store file ∧ ∀ text, file = some text → SameKdf th.task.store text
  moved : ∀ th ∈ w.threads, ∀ e ∈ th.past, moved? path e ≠ some false
  replaced : ∀ i th, w.threads[i]? = some th → ∀ e ∈ th.past, moved? path e = some true →
    ∃ y ∈ tr, Replaces path i th.task.op y
  /-- Only one call has a file beside, with what it has written. -/
  beside : ∀ (i : Nat) (th : StoreThread path username password), w.threads[i]? = some th →
    Beside path th.past → (∀ (j : Nat) (th' : StoreThread path username password),
      w.threads[j]? = some th' → Beside path th'.past → j = i) ∧
      w.state.files (tmpOf path) = some (besideText th.past)

section Steps

variable {m₀ m m' : UInt64 → Option (List α)} {tr : StoreTrace path username password}
  {y : StoreStep path username password} {s s' : World α Unit}
  {ths : List (StoreThread path username password)}
  {i : Nat} {t : StoreTask path username password} {past : PinPast α} {o : Op α} {r : o.Res}
  {k : o.Res → Action α (Option (List α))}

omit [DecidableEq α] in
theorem Replaces.unique {j : Nat} {op op' : StoreOp α} (h : Replaces path i op y)
    (h' : Replaces path j op' y) : op' = op := by
  obtain ⟨hlabel, th, hth, rfl⟩ := h
  obtain ⟨hlabel', th', hth', rfl⟩ := h'
  rw [hlabel] at hlabel'
  cases hlabel'
  rw [hth] at hth'
  cases hth'
  rfl

omit [DecidableEq α] in
/-- A step that replaces no file shows what was shown. -/
theorem shown_quiet (hy : ∀ i op, ¬ Replaces path i op y) (id : UInt64) (p : List α) :
    Shown m₀ (tr ++ [y]) id p ↔ Shown m₀ tr id p := by
  have hno : ∀ P : StoreOp α → Prop, ¬ ∃ i op, Replaces path i op y ∧ P op := by
    rintro P ⟨i, op, h, -⟩
    exact hy i op h
  simp only [Shown, since_snoc, hno, not_false_eq_true, and_true, or_false, List.forall_mem_append,
    List.mem_singleton, forall_eq]

omit [DecidableEq α] in
/-- A step that replaces the file shows what its call saves. -/
theorem shown_replace {op : StoreOp α} (hy : Replaces path i op y) (id : UInt64) (p : List α) :
    Shown m₀ (tr ++ [y]) id p ↔ (Shown m₀ tr id p ∧ ¬ op.Changes id) ∨ op.Saves id p := by
  have hop : ∀ P : StoreOp α → Prop, (∃ i op, Replaces path i op y ∧ P op) ↔ P op := by
    intro P
    constructor
    · rintro ⟨j, op', h, hP⟩
      rwa [hy.unique h] at hP
    · intro hP
      exact ⟨i, op, hy, hP⟩
  simp only [Shown, since_snoc, hop, List.forall_mem_append, List.mem_singleton, forall_eq]
  rw [← and_assoc, or_and_right, or_assoc]

omit [Alphabet α] [Crypto α] [FloatFormat] [DecidableEq α] in
theorem saw_exists {p : Bytes} {r : Option Bool} {file : Option (List α)}
    (h : saw path ⟨.file (.exists p), r, s, s'⟩ = some file) : file = none := by
  cases r with
  | none => cases h
  | some b =>
      cases b with
      | true => cases h
      | false =>
          simp only [saw] at h
          split_ifs at h
          exact (Option.some.inj h).symm

omit [Alphabet α] [Crypto α] [FloatFormat] [DecidableEq α] in
theorem saw_read {p : Bytes} {r file : Option (List α)}
    (h : saw path ⟨.file (.read p), r, s, s'⟩ = some file) : file = r := by
  cases r with
  | none => cases h
  | some text =>
      simp only [saw] at h
      split_ifs at h
      exact (Option.some.inj h).symm

omit [Alphabet α] [Crypto α] [FloatFormat] [DecidableEq α] in
/-- What a call sees of the file is what it holds. -/
theorem saw_eq {file : Option (List α)} (hexec : (pinMachine α).exec o s r s')
    (h : saw path ⟨o, r, s, s'⟩ = some file) : file = s.files path := by
  cases o with
  | file o =>
      obtain ⟨fs, hfs, rfl⟩ := hexec
      obtain ⟨rfl, rfl⟩ := FileOp.exec_reliable id hfs
      cases o with
      | «exists» p =>
          obtain rfl := saw_exists h
          simp only [FileOp.answer] at h
          cases hp : s.files p with
          | none =>
              simp only [hp, saw, Option.isSome_none] at h
              split_ifs at h with hpath
              rw [← hpath, hp]
          | some text =>
              rw [hp] at h
              cases h
      | read p =>
          obtain rfl := saw_read h
          cases hp : (FileOp.read p).answer s.files with
          | none =>
              rw [hp] at h
              cases h
          | some text =>
              simp only [hp, saw] at h
              split_ifs at h with hpath
              rw [← hpath]
              exact hp.symm
      | _ => cases h
  | _ => cases h

/-- One call does an operation, and the others stay as they are. -/
theorem RaceInv.call (hinv : RaceInv m₀ tr ⟨s, ths⟩ m) (hth : ths[i]? = some ⟨t, past, .call o k⟩)
    (hfile : StoreFile path username password (s'.files path) m')
    (hshown : ∀ id p, m' id = some p ↔ Shown m₀ (tr ++ [(⟨s, ths⟩, .call i o r)]) id p)
    (hsaw : ∀ file, saw path ⟨o, r, s, s'⟩ = some file →
      Readable t.store file ∧ ∀ text, file = some text → SameKdf t.store text)
    (hmoved : moved? path ⟨o, r, s, s'⟩ ≠ some false)
    (hreplaced : moved? path ⟨o, r, s, s'⟩ = some true →
      Replaces path i t.op (⟨s, ths⟩, .call i o r))
    (hbeside : Beside path (past ++ [⟨o, r, s, s'⟩]) →
      (∀ j th', ths[j]? = some th' → Beside path th'.past → j = i) ∧
        s'.files (tmpOf path) = some (besideText (past ++ [⟨o, r, s, s'⟩])))
    (hothers : ∀ j th', j ≠ i → ths[j]? = some th' → Beside path th'.past →
      s'.files (tmpOf path) = s.files (tmpOf path)) :
    RaceInv m₀ (tr ++ [(⟨s, ths⟩, .call i o r)])
      ⟨s', ths.set i ⟨t, past ++ [⟨o, r, s, s'⟩], k r⟩⟩ m' := by
  have hi : i < ths.length := (List.getElem?_eq_some_iff.mp hth).1
  have hmem := List.mem_of_getElem? hth
  refine ⟨hfile, hshown, fun th hth' file hfound => ?_, fun th hth' e he => ?_,
    fun j th hj e he htrue => ?_, fun j th hj hopen => ?_⟩
  · rcases List.mem_or_eq_of_mem_set hth' with hth' | rfl
    · exact hinv.found th hth' file hfound
    · rcases found_snoc.mp hfound with hfound | hlast
      · exact hinv.found _ hmem file hfound
      · exact hsaw file hlast
  · rcases List.mem_or_eq_of_mem_set hth' with hth' | rfl
    · exact hinv.moved th hth' e he
    · rcases List.mem_append.mp he with he | he
      · exact hinv.moved _ hmem e he
      · rw [List.mem_singleton.mp he]
        exact hmoved
  · by_cases hij : i = j
    · subst hij
      rw [List.getElem?_set_self hi] at hj
      cases hj
      rcases List.mem_append.mp he with he | he
      · obtain ⟨y, hy, hrep⟩ := hinv.replaced i _ hth e he htrue
        exact ⟨y, List.mem_append_left _ hy, hrep⟩
      · rw [List.mem_singleton.mp he] at htrue
        exact ⟨_, List.mem_append_right _ (List.mem_singleton_self _), hreplaced htrue⟩
    · rw [List.getElem?_set_ne hij] at hj
      obtain ⟨y, hy, hrep⟩ := hinv.replaced j th hj e he htrue
      exact ⟨y, List.mem_append_left _ hy, hrep⟩
  · by_cases hij : i = j
    · subst hij
      rw [List.getElem?_set_self hi] at hj
      cases hj
      obtain ⟨honly, htext⟩ := hbeside hopen
      refine ⟨fun j th' hj hopen' => ?_, htext⟩
      by_contra hne
      rw [List.getElem?_set_ne (Ne.symm hne)] at hj
      exact hne (honly j th' hj hopen')
    · rw [List.getElem?_set_ne hij] at hj
      obtain ⟨honly, htext⟩ := hinv.beside j th hj hopen
      refine ⟨fun j' th' hj' hopen' => ?_, ?_⟩
      · by_cases hij' : i = j'
        · subst hij'
          rw [List.getElem?_set_self hi] at hj'
          cases hj'
          exact ((hbeside hopen').1 j th hj hopen).symm
        · rw [List.getElem?_set_ne hij'] at hj'
          exact honly j' th' hj' hopen'
      · exact (hothers j th (Ne.symm hij) hj hopen).trans htext

/-- A call that neither changes the file nor one beside it. -/
theorem RaceInv.quiet (hinv : RaceInv m₀ tr ⟨s, ths⟩ m)
    (hth : ths[i]? = some ⟨t, past, .call o k⟩) (hfiles : s'.files = s.files)
    (hsaw : ∀ file, saw path ⟨o, r, s, s'⟩ = some file →
      Readable t.store file ∧ ∀ text, file = some text → SameKdf t.store text)
    (hmoved : moved? path ⟨o, r, s, s'⟩ = none) (hopens : o.opens (tmpOf path) = false)
    (hwrites : o.writes (tmpOf path) = false) :
    RaceInv m₀ (tr ++ [(⟨s, ths⟩, .call i o r)])
      ⟨s', ths.set i ⟨t, past ++ [⟨o, r, s, s'⟩], k r⟩⟩ m := by
  refine hinv.call hth ?_ (fun id p => ?_) hsaw (by simp [hmoved]) (by simp [hmoved]) (fun h => ?_)
    (fun _ _ _ _ _ => by rw [hfiles])
  · rw [hfiles]
    exact hinv.file
  · rw [shown_quiet, hinv.shown]
    rintro j op ⟨hlabel, -⟩
    cases hlabel
    simp [moved?] at hmoved
  · exact absurd h (not_beside_snoc hopens hwrites)

/-- A call that changes the file beside, and no other has one there. -/
theorem RaceInv.aside (hinv : RaceInv m₀ tr ⟨s, ths⟩ m)
    (hth : ths[i]? = some ⟨t, past, .call o k⟩) (hfiles : s'.files path = s.files path)
    (htext : s'.files (tmpOf path) = some (besideText (past ++ [⟨o, r, s, s'⟩])))
    (hsaw : saw path ⟨o, r, s, s'⟩ = none) (hmoved : moved? path ⟨o, r, s, s'⟩ = none)
    (honly : ∀ j th', ths[j]? = some th' → Beside path th'.past → j = i) :
    RaceInv m₀ (tr ++ [(⟨s, ths⟩, .call i o r)])
      ⟨s', ths.set i ⟨t, past ++ [⟨o, r, s, s'⟩], k r⟩⟩ m := by
  refine hinv.call hth ?_ (fun id p => ?_) (fun file h => ?_) (by simp [hmoved]) (by simp [hmoved])
    (fun _ => ⟨honly, htext⟩) (fun j th' hne hj hopen => absurd (honly j th' hj hopen) hne)
  · rw [hfiles]
    exact hinv.file
  · rw [shown_quiet, hinv.shown]
    rintro j op ⟨hlabel, -⟩
    cases hlabel
    simp [moved?] at hmoved
  · rw [hsaw] at h
    cases h

variable [LawfulBase64 α] [LawfulAead α]

/-- **A call moves its file into place**: it holds what was shown, with the change of the
call. -/
theorem RaceInv.replace {q : Bytes} {r : Bool} {k : Bool → Action α (Option (List α))}
    (hinv : RaceInv m₀ tr ⟨s, ths⟩ m)
    (hth : ths[i]? = some ⟨t, past, .call (.file (.rename (tmpOf q) q)) k⟩) (hq : q = path)
    {before : PinPast α} {e : Event (Op α) Op.Res (World α Unit)} {text : List α}
    (hpast : past = before ++ [e]) (he : e.op = .file (.write (tmpOf q) text))
    (hrewrote : Rewrote t past text) (hfound : Found path past (s.files path))
    (hr : r = (FileOp.rename (tmpOf q) q).answer s.files)
    (hs' : s' = { s with files := (FileOp.rename (tmpOf q) q).effect s.files }) :
    RaceInv m₀ (tr ++ [(⟨s, ths⟩, .call i (.file (.rename (tmpOf q) q)) r)])
      ⟨s', ths.set i ⟨t, past ++ [⟨.file (.rename (tmpOf q) q), r, s, s'⟩], k r⟩⟩
      (t.op.effect m) := by
  subst hq
  have hstore := t.opened.openedWith
  have hopen : Beside q past := by
    rw [hpast, beside_snoc, he]
    simp [Op.writes]
  obtain ⟨honly, htext⟩ := hinv.beside i _ hth hopen
  have htext' : besideText past = text := by
    obtain ⟨o', r', s₁, s₂⟩ := e
    cases he
    simp [besideText, hpast]
  have hsome : s.files (tmpOf q) = some text := htext.trans (congrArg some htext')
  have htrue : r = true := by
    rw [hr, FileOp.answer, hsome]
    rfl
  subst htrue
  have hfiles : s'.files q = some text := by
    rw [hs']
    simp only [FileOp.effect, hsome, Option.isSome_some, if_true]
    exact Function.update_self ..
  have hrep : Replaces q i t.op
      ((⟨s, ths⟩, .call i (.file (.rename (tmpOf q) q)) true) : StoreStep q username password) :=
    ⟨rfl, _, hth, rfl⟩
  -- the file is as the call has found it
  obtain ⟨contents, hsealed, hread⟩ := hrewrote
  obtain ⟨contents', hread', hcontents, hplaintexts⟩ := hinv.file.reads hstore
    (hinv.found _ (List.mem_of_getElem? hth) _ hfound).2
  rw [hread _ hfound] at hread'
  obtain rfl := Except.ok.inj hread'
  refine hinv.call hth ?_ (fun id p => ?_) (fun file h => by cases h) (by simp [moved?])
    (fun _ => hrep) (fun h => ?_) (fun j th' hne hj hopen' => absurd (honly j th' hj hopen') hne)
  · rw [hfiles, ← hplaintexts, ← plaintextOf_rewrite hcontents]
    exact .stored hstore (hcontents.rewriteValid t.valid) hsealed
  · rw [shown_replace hrep, ← hinv.shown, StoreOp.effect_iff]
  · exact absurd h (not_beside_snoc rfl rfl)

/-- **A step keeps the invariant.** -/
theorem raceInv_step (hpath : path ≠ []) {w w' : StoreSystem path username password}
    {l : Label (Op α) Op.Res (StoreTask path username password)} (hinv : RaceInv m₀ tr w m)
    (hsound : (storeContract hpath).Sound w) (hstep : Step (pinMachine α) storeProg w l w')
    (hcond : Unhindered (w, l)) : ∃ m', RaceInv m₀ (tr ++ [(w, l)]) w' m' := by
  cases hstep with
  | @start s ths t =>
      have hold : ∀ th ∈ ths ++ [⟨t, [], storeProg t⟩], th.past ≠ [] → th ∈ ths := by
        intro th hmem hpast
        rcases List.mem_append.mp hmem with hmem | hmem
        · exact hmem
        · rw [List.mem_singleton.mp hmem] at hpast
          exact absurd rfl hpast
      have hold' : ∀ (j : Nat) (th : StoreThread path username password),
          (ths ++ [⟨t, [], storeProg t⟩])[j]? = some th → th.past ≠ [] → ths[j]? = some th := by
        intro j th hj hpast
        rw [List.getElem?_append] at hj
        split_ifs at hj with hlt
        · exact hj
        · rw [List.mem_singleton.mp (List.mem_of_getElem? hj)] at hpast
          exact absurd rfl hpast
      have hbegun : ∀ {past : PinPast α}, Beside path past → past ≠ [] := by
        rintro past hopen rfl
        simp [Beside] at hopen
      refine ⟨m, hinv.file, fun id p => ?_, fun th hmem file hfound => ?_, fun th hmem e he => ?_,
        fun j th hj e he htrue => ?_, fun j th hj hopen => ?_⟩
      · rw [shown_quiet, hinv.shown]
        rintro j op ⟨hlabel, -⟩
        cases hlabel
      · obtain ⟨e, he, -⟩ := id hfound
        exact hinv.found th (hold th hmem (List.ne_nil_of_mem he)) file hfound
      · exact hinv.moved th (hold th hmem (List.ne_nil_of_mem he)) e he
      · obtain ⟨y, hy, hrep⟩ :=
          hinv.replaced j th (hold' j th hj (List.ne_nil_of_mem he)) e he htrue
        exact ⟨y, List.mem_append_left _ hy, hrep⟩
      · obtain ⟨honly, htext⟩ := hinv.beside j th (hold' j th hj (hbegun hopen)) hopen
        exact ⟨fun j' th' hj' hopen' => honly j' th' (hold' j' th' hj' (hbegun hopen')) hopen', htext⟩
  | @call s s' ths i t past o k r hth hexec =>
      obtain ⟨hpast, hpre, -⟩ := hsound.2 _ (List.mem_of_getElem? hth)
      have hpre := hpre s hpast
      have hstore := t.opened.openedWith
      cases o with
      | file o =>
          obtain ⟨fs, hfs, rfl⟩ := hexec
          obtain ⟨hr, rfl⟩ := FileOp.exec_reliable id hfs
          have hne : path ≠ tmpOf path := (tmpOf_ne path).symm
          obtain ⟨hkdf, halone, hfinds⟩ := hcond _ hth
          cases o with
          | «exists» p =>
              obtain ⟨rfl, -⟩ := hpre
              refine ⟨m, hinv.quiet hth rfl (fun file hsaw => ?_) rfl rfl rfl⟩
              obtain rfl := saw_exists hsaw
              exact ⟨⟨emptyStore, rfl, isStore_emptyStore⟩, fun text h => by cases h⟩
          | read p =>
              obtain ⟨rfl, -, -⟩ := hpre
              refine ⟨m, hinv.quiet hth rfl (fun file hsaw => ?_) rfl rfl rfl⟩
              have hfile : file = s.files p := (saw_read hsaw).trans hr
              have hsame : ∀ text, file = some text → SameKdf t.store text := by
                intro text htext
                exact hkdf (by simp [Op.reads]) text (hfile.symm.trans htext)
              rw [hfile] at hsame ⊢
              obtain ⟨contents, hread, hcontents, -⟩ := hinv.file.reads hstore hsame
              exact ⟨⟨contents, hread, hcontents⟩, hsame⟩
          | createDirectories p => exact ⟨m, hinv.quiet hth rfl (by simp [saw]) rfl rfl rfl⟩
          | setPermissions p => exact ⟨m, hinv.quiet hth rfl (by simp [saw]) rfl rfl rfl⟩
          | put | close => exact hpre.elim
          | truncate p =>
              obtain ⟨rfl, -⟩ := hpre
              refine ⟨m, hinv.aside hth (Function.update_of_ne hne _ _) ?_ rfl rfl ?_⟩
              · simp [besideText, FileOp.effect]
              · intro j th' hj hopen
                exact absurd hopen (halone (by simp [Op.opens]) th' (List.mem_of_getElem? hj))
          | write p text =>
              obtain ⟨rfl, hopens⟩ := hpre
              obtain ⟨e, he⟩ : ∃ e, past.getLast? = some e := by
                cases he : past.getLast? with
                | none =>
                    rw [he] at hopens
                    cases hopens
                | some e => exact ⟨e, rfl⟩
              rw [he, Option.any_some] at hopens
              have hopen : Beside path past := by
                rw [Beside, he, Option.any_some, hopens]
                rfl
              obtain ⟨honly, hempty⟩ := hinv.beside i _ hth hopen
              refine ⟨m, hinv.aside hth (Function.update_of_ne hne _ _) ?_ rfl rfl honly⟩
              have hnothing : besideText past = [] := by
                obtain ⟨o', r', s₁, s₂⟩ := e
                rw [besideText, he]
                cases o' with
                | file o' =>
                    cases o' with
                    | write p' text' => cases hopens
                    | _ => rfl
                | _ => rfl
              have hempty' : s.files (tmpOf path) = some [] := hempty.trans (congrArg some hnothing)
              simp [besideText, FileOp.effect, hempty']
          | rename p q =>
              obtain ⟨rfl, rfl, -, before, e, text, hpast', he, hrewrote⟩ := hpre
              exact ⟨_, hinv.replace hth rfl hpast' he hrewrote (hfinds (by simp [Op.moves])) hr rfl⟩
          | remove p => exact hpre.elim
      | random n =>
          obtain ⟨-, rfl⟩ := hexec
          exact ⟨m, hinv.quiet hth rfl (by simp [saw]) rfl rfl rfl⟩
      | boxKeypair => exact hpre.elim
      | signKeypair => exact hpre.elim
      | http req => exact hpre.elim
  | env h => exact h.elim
  | restart h => exact h.elim

/-- **A call that gets a message returns what is shown.** -/
theorem shown_step (hpath : path ≠ []) {w w' : StoreSystem path username password}
    {l : Label (Op α) Op.Res (StoreTask path username password)} (hinv : RaceInv m₀ tr w m)
    (hinv' : RaceInv m₀ (tr ++ [(w, l)]) w' m') (hsound' : (storeContract hpath).Sound w')
    (hstep : Step (pinMachine α) storeProg w l w') {id : UInt64} {x : Except Exn (Option (List α))}
    (hends : Ends (w, l) (.get id) x) : x = .ok (m id) := by
  obtain ⟨i, t, past, o, k, r, hth, hl, hresult, hop⟩ := hends
  cases hstep with
  | start t' => cases hl
  | @call s s' ths i' t' past' o' k' r' hth' hexec =>
      cases hl
      cases hth'.symm.trans hth
      have hi : i < ths.length := (List.getElem?_eq_some_iff.mp hth).1
      have hmem : (⟨t, past ++ [⟨o, r, s, s'⟩], k r⟩ : StoreThread path username password) ∈
          ths.set i ⟨t, past ++ [⟨o, r, s, s'⟩], k r⟩ := List.mem_set hi _
      have hpost := wp_result hresult (hsound'.2 _ hmem).2
      obtain ⟨before, e, file, hlast, hsaw, rfl⟩ := hpost.got id hop
      obtain ⟨rfl, he⟩ := List.append_inj' hlast rfl
      cases he
      -- it has seen the file as it is
      have hfile : file = s.files path := saw_eq hexec hsaw
      have hsame := (hinv'.found _ hmem file (found_snoc.mpr (.inr hsaw))).2
      rw [hfile] at hsame ⊢
      obtain ⟨contents, hread, -, hplaintexts⟩ := hinv.file.reads t.opened.openedWith hsame
      rw [hread, ← hplaintexts]
      rfl
  | env h => exact h.elim
  | restart h => exact h.elim

/-- **Nothing is lost** in every run whose steps are all unhindered, on a file that is
absent at first or a store of the same username and password. -/
theorem nothing_lost (hpath : path ≠ []) {w : StoreSystem path username password}
    (hfile : StoreFile path username password (s.files path) m₀) (h : StoreRaces s tr w)
    (hcond : ∀ y ∈ tr, Unhindered y) : NothingLost m₀ tr w := by
  have hsound : ∀ {tr : StoreTrace path username password} {v}, StoreRaces s tr v →
      (storeContract hpath).Sound v :=
    fun hrun => Contract.sound_run (Contract.sound_init trivial) hrun
  have hall : (∃ m, RaceInv m₀ tr w m) ∧ ∀ before y after, tr = before ++ y :: after →
      ∀ id x, Ends y (.get id) x → ∃ a, x = .ok a ∧ ∀ p, a = some p ↔ Shown m₀ before id p := by
    induction h with
    | nil =>
        refine ⟨⟨m₀, hfile, fun id p => ?_, by simp, by simp, by simp, by simp⟩, ?_⟩
        · simp [Shown, since_nil]
        · intro before y after hnil
          simp at hnil
    | @snoc tr v l u hrun hstep ih =>
        obtain ⟨⟨m, hinv⟩, hshown⟩ := ih fun y hy => hcond y (List.mem_append_left _ hy)
        obtain ⟨m', hinv'⟩ := raceInv_step hpath hinv (hsound hrun) hstep (hcond _ (by simp))
        refine ⟨⟨m', hinv'⟩, forall_split_snoc hshown fun id x hends => ?_⟩
        refine ⟨m id, ?_, fun p => hinv.shown id p⟩
        exact shown_step hpath hinv hinv' (hsound (hrun.snoc hstep)) hstep hends
  obtain ⟨⟨m, hinv⟩, hshown⟩ := hall
  have hpost : ∀ th ∈ w.threads, ∀ x, th.prog.result? = some x → StorePost th.task th.past x :=
    fun th hmem x hx => wp_result hx ((hsound h).2 th hmem).2
  have hreturned : ∀ th ∈ w.threads, ∀ x, th.prog.result? = some x → ∃ a, x = .ok a := by
    intro th hmem x hx
    cases x with
    | ok a => exact ⟨a, rfl⟩
    | error e =>
        rcases (hpost th hmem _ hx).failed e rfl with ⟨file, hfound, hunreadable⟩ | ⟨ev, hev, hfalse⟩
        · exact absurd (hinv.found th hmem file hfound).1 hunreadable
        · exact absurd hfalse (hinv.moved th hmem ev hev)
  refine ⟨hreturned, fun i th x hth hx hwrites => ?_,
    fun before y after id x heq => hshown before y after heq id x⟩
  have hmem := List.mem_of_getElem? hth
  obtain ⟨a, rfl⟩ := hreturned th hmem x hx
  obtain ⟨e, he, htrue⟩ := (hpost th hmem _ hx).replaced hwrites a rfl
  exact hinv.replaced i th hth e he htrue

end Steps

/-! ## Two sessions -/

instance (path : Bytes) (past : PinPast α) : Decidable (Beside path past) :=
  inferInstanceAs (Decidable (_ = true))

instance (store : MessageStore α) (text : List α) : Decidable (SameKdf store text) :=
  inferInstanceAs (Decidable (_ = _))

instance : (y : StoreStep path username password) → Decidable (Unhindered y)
  | ⟨w, .call i o _⟩ => inferInstanceAs (Decidable (∀ th ∈ w.threads[i]?,
      (o.reads path = true → ∀ text ∈ w.state.files path, SameKdf th.task.store text) ∧
      (o.opens (tmpOf path) = true → ∀ th' ∈ w.threads, ¬ Beside path th'.past) ∧
      (o.moves path = true → Found path th.past (w.state.files path))))
  | ⟨_, .start _⟩ => .isTrue trivial
  | ⟨_, .env⟩ => .isTrue trivial
  | ⟨_, .restart⟩ => .isTrue trivial

omit [DecidableEq α] in
/-- Opening a file that is not there draws a salt, and any may be drawn. -/
theorem openedBy_absent (path : Bytes) (username : List α) {password salt key : List α}
    (hsalt : salt.length = 16)
    (hkey : deriveCacheEncryptionKey password ⟨salt, kCacheKdfOpsLimit, kCacheKdfMemLimit⟩ = .ok key) :
    OpenedBy path username password
      ⟨path, username, key, salt, kCacheKdfOpsLimit, kCacheKdfMemLimit, true⟩ := by
  refine ⟨fun _ => none, fun _ => none, ?_⟩
  have hexists : onFiles (fun _ => False) (.file (.exists path)) ⟨fun _ => none, ()⟩ (some false)
      (⟨fun _ => none, ()⟩ : World α Unit) := ⟨_, .inl ⟨rfl, rfl⟩, rfl⟩
  refine .call ⟨hsalt, rfl⟩ (.call hexists ?_)
  change Prog.Runs _ (Prog.ofExcept _ >>= _) _ _ _
  rw [hkey]
  exact .call hexists .pure

/-- A store of the examples, with the salt it has drawn. -/
def exampleStore (salt : UInt8) : MessageStore UInt8 :=
  letI := plainCrypto
  ⟨bytes "/m.json", bytes "a", frame (frame (bytes "p") ++ frame (List.replicate 16 salt)) ++
    (frame (bytes kCacheEncryptionInfo) ++ frame (List.replicate 16 salt)),
    List.replicate 16 salt, kCacheKdfOpsLimit, kCacheKdfMemLimit, true⟩

omit [FloatFormat] in
theorem openedBy_exampleStore (salt : UInt8) : letI := plainFloats; letI := plainCrypto;
    OpenedBy (bytes "/m.json") (bytes "a") (bytes "p") (exampleStore salt) := by
  let := plainFloats
  let := plainCrypto
  exact openedBy_absent _ _ List.length_replicate rfl

/-- A session with the salt it has drawn saves the message 7, or gets it. -/
def exampleTask (salt : UInt8) (saves : Bool) : letI := plainFloats; letI := plainCrypto;
    StoreTask (bytes "/m.json") (bytes "a") (bytes "p") :=
  letI := plainFloats
  letI := plainCrypto
  if saves then ⟨exampleStore salt, openedBy_exampleStore salt, .save savedRecord, by
    unfold StoreOp.Valid
    decide +kernel⟩
  else ⟨exampleStore salt, openedBy_exampleStore salt, .get 7, trivial⟩

/-- Calls of sessions, on a file that is not there at first. -/
def storeMoves (moves : List (Move (UInt8 × Bool))) : letI := plainFloats; letI := plainCrypto;
    StoreTrace (bytes "/m.json") (bytes "a") (bytes "p") ×
      StoreSystem (bytes "/m.json") (bytes "a") (bytes "p") :=
  letI := plainFloats
  letI := plainCrypto
  System.moves (answer fun _ s => (none, s)) storeProg ⟨⟨fun _ => none, ()⟩, []⟩
    (moves.map fun
      | .start (salt, saves) => .start (exampleTask salt saves)
      | .call i => .call i)

omit [FloatFormat] in
theorem run_storeMoves (moves : List (Move (UInt8 × Bool))) :
    letI := plainFloats; letI := plainCrypto;
    StoreRaces ⟨fun _ => none, ()⟩ (storeMoves moves).1 (storeMoves moves).2 := by
  let := plainFloats
  let := plainCrypto
  refine Run.moves (fun o s => ?_) _ _
  change exec _ (fun _ _ _ _ => True) o s _ _
  exact exec_answer (fun _ _ => trivial) o s

/-- A session saves the message while another one looks for it, and again after that. -/
def saveAndGet : List (Move (UInt8 × Bool)) :=
  [.start (0, true), .start (0, false), .call 0, .call 1] ++ List.replicate 6 (.call 0) ++
    [.start (0, false), .call 2, .call 2]

omit [FloatFormat] in
theorem saveAndGet_eval : letI := plainFloats; letI := plainCrypto;
    (∀ y ∈ (storeMoves saveAndGet).1, Unhindered y) ∧
      (storeMoves saveAndGet).2.threads[2]?.bind (·.prog.result?) =
        some (.ok (some (bytes "hello"))) := by
  decide +kernel

omit [FloatFormat] in
/-- The other session, with the same salt, finds the message when it looks again. -/
theorem nothing_lost_example : letI := plainFloats; letI := plainCrypto;
    ∃ (tr : StoreTrace (bytes "/m.json") (bytes "a") (bytes "p"))
      (w : StoreSystem (bytes "/m.json") (bytes "a") (bytes "p")),
      StoreRaces ⟨fun _ => none, ()⟩ tr w ∧
      w.threads[2]?.bind (·.prog.result?) = some (.ok (some (bytes "hello"))) ∧
      NothingLost (fun _ => none) tr w := by
  let := plainFloats
  let := plainCrypto
  have := lawfulBase64_plain
  have := lawfulAead_plain
  obtain ⟨hunhindered, hfound⟩ := saveAndGet_eval
  exact ⟨_, _, run_storeMoves saveAndGet, hfound,
    nothing_lost (by decide) .absent (run_storeMoves saveAndGet) hunhindered⟩

/-- A session saves the message, and one with another salt looks for it. -/
def openedApart : List (Move (UInt8 × Bool)) :=
  .start (0, true) :: List.replicate 7 (.call 0) ++ [.start (1, false), .call 1, .call 1]

omit [FloatFormat] in
/-- **A second session fails** when both stores were opened before there was a file: each
has drawn a salt, and the file has the salt of the one that saved first. -/
theorem second_session_fails : letI := plainFloats; letI := plainCrypto;
    ¬ ∀ (tr : StoreTrace (bytes "/m.json") (bytes "a") (bytes "p"))
      (w : StoreSystem (bytes "/m.json") (bytes "a") (bytes "p")),
      StoreRaces ⟨fun _ => none, ()⟩ tr w → NothingLost (fun _ => none) tr w := by
  let := plainFloats
  let := plainCrypto
  intro h
  have hlost := h _ _ (run_storeMoves openedApart)
  have hfails : (storeMoves openedApart).2.threads[1]?.bind (·.prog.result?) =
      some (.error (.runtimeError (bytes "Failed to decrypt local message store: /m.json"))) := by
    decide +kernel
  obtain ⟨th, hth, hresult⟩ := Option.bind_eq_some_iff.mp hfails
  obtain ⟨a, ha⟩ := hlost.returned th (List.mem_of_getElem? hth) _ hresult
  cases ha

end Kd
