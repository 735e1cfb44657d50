import Kingdom.Client.PreKeyUse
import Kingdom.Process.Logged

/-!
# What an interrupted write leaves of a key file

Both writers of the key file open it with truncation and write it in place, through a
stream that is closed after everything else.  Until then the file is empty, or holds a
part of its text.

* `LoginSucceeds`, `SignupSucceeds` — what the two functions do when nothing fails.
* `openKeyFile_norm`, `exists_openKeyFile_record` — a file that opened still opens
  after one more prekey is recorded in it.
* `Truncated`, `Complete` — a run has opened the file for writing; it has put the whole
  new text into it.
* `Progress` — what the file holds at each point of a write.
* `putLog`, `complete_putLog_close` — the log of a write, and when it says that all is there.
* `ensures_writeInPlace_logged` — a write, with its log.
* `keyFile_kept_iff` — the runs that leave the file as it was or whole.
-/

namespace Kd

open Codec Process Storage Prog

variable {α : Type}

/-! ## Files that are read back -/

section Norm

variable [FloatFormat]

omit [FloatFormat] in
theorem at'_norm_bind {β : Type} (j : Json α) (k : String) (f : Json α → Except Exn β) :
    (at' j.norm k >>= f) = at' j k >>= fun v => f v.norm := by
  rw [at', at', Json.get?_norm]
  cases j.get? (bytes k) <;> rfl

omit [FloatFormat] in
theorem getString_norm (j : Json α) : getString j.norm = getString j := by
  rw [getString, getString, Json.str?_norm]

theorem getUInt64_norm (j : Json α) : getUInt64 j.norm = getUInt64 j := by
  rw [getUInt64, getUInt64, Json.uint64?_norm]

theorem getUnsignedLongLong_norm (j : Json α) :
    getUnsignedLongLong j.norm = getUnsignedLongLong j := by
  rw [getUnsignedLongLong, getUnsignedLongLong, Json.unsignedLongLong?_norm]

theorem getInt_norm (j : Json α) : getInt j.norm = getInt j := by
  rw [getInt, getInt, Json.int?_norm]

omit [FloatFormat] in
theorem contains_norm (j : Json α) (k : Key) : j.norm.contains k = j.contains k := by
  rw [Json.contains, Json.contains, Json.get?_norm, Option.isSome_map]

omit [FloatFormat] in
theorem fieldIs_norm {β : Type} [DecidableEq β] {get : Json α → Except Exn β}
    (hget : ∀ v : Json α, get v.norm = get v) (j : Json α) (k : String) (b : β) :
    fieldIs get j.norm k b = fieldIs get j k b := by
  rw [fieldIs, fieldIs, Json.get?_norm]
  cases j.get? (bytes k) with
  | none => rfl
  | some v => simp only [Option.map_some, hget]

variable [Alphabet α] [Crypto α] [DecidableEq α]

theorem validateBundle_norm (bundle : Json α) : validateBundle bundle.norm = validateBundle bundle := by
  simp only [validateBundle, verifySignedPreKeySignature, at'_norm_bind, getString_norm,
    getUInt64_norm, contains_norm, fieldIs_norm getInt_norm, fieldIs_norm getString_norm]

omit [Alphabet α] [Crypto α] [DecidableEq α] in
theorem recordedIds_norm (file : Json α) : recordedIds file.norm = recordedIds file := by
  rw [recordedIds, recordedIds, Json.get?_norm]
  cases file.get? (bytes "usedOneTimePreKeyIds") with
  | none => rfl
  | some used =>
      cases used with
      | arr xs =>
          simp only [Option.map_some, Json.norm, Json.normElems_eq_map]
          induction xs with
          | nil => rfl
          | cons x xs ih => simp only [List.map_cons, List.mapM_cons, getUInt64_norm, ih]
      | integer i =>
          by_cases hi : i.toInt < 0 <;> simp [Json.norm, hi]
      | _ => rfl

/-- **What a key file gives does not depend on how its numbers are written.** -/
theorem openKeyFile_norm (keyPath : Bytes) (username password : List α) (file : Json α) :
    openKeyFile keyPath username password file.norm =
      openKeyFile keyPath username password file := by
  simp only [openKeyFile, openPrivateMaterial, identityOf, at'_norm_bind, getString_norm,
    getUInt64_norm, getUnsignedLongLong_norm, contains_norm, fieldIs_norm getInt_norm,
    fieldIs_norm getString_norm, validateBundle_norm, recordedIds_norm]

end Norm

/-! ## One more recorded prekey -/

section Recording

variable [FloatFormat]

theorem exists_recordedIds {file : Json α} {used : List UInt64} (hobj : file.isObject = true)
    (h : recordedIds file = .ok used) (id : UInt64) :
    ∃ used', used ⊆ used' ∧ recordedIds (file.set usedField
      (.arr (((file.get? usedField).bind Json.arr?).getD [] ++ [.unsigned id]))) = .ok used' := by
  have hset : ∀ xs : List (Json α), recordedIds (file.set usedField (.arr xs)) =
      xs.mapM getUInt64 := by
    intro xs
    rw [recordedIds, Json.get?_set hobj, if_pos rfl]
  have hid : [(Json.unsigned id : Json α)].mapM getUInt64 = .ok [id] := rfl
  rw [hset]
  cases hused : file.get? usedField with
  | none =>
      rw [recordedIds, hused] at h
      cases h
      exact ⟨[id], by simp, hid⟩
  | some v =>
      rw [recordedIds, hused] at h
      cases v with
      | arr xs =>
          have hxs : xs.mapM getUInt64 = .ok used := h
          refine ⟨used ++ [id], by simp, ?_⟩
          show (xs ++ [Json.unsigned id]).mapM getUInt64 = _
          rw [List.mapM_append, hxs, hid]
          rfl
      | _ =>
          cases h
          exact ⟨[id], by simp, hid⟩

variable [Alphabet α] [Crypto α] [DecidableEq α] {file : Json α} {keyPath : Bytes}
  {username password : List α} {k : LocalIdentityKey α}

omit [Alphabet α] [DecidableEq α] in
/-- More recorded prekeys leave fewer to load. -/
theorem exists_loadPreKeys {used used' : List UInt64} (h : used ⊆ used') {keys : List (Json α)}
    {ks : List (LocalPreKey α)} (hkeys : loadPreKeys used keys = .ok ks) :
    ∃ ks', loadPreKeys used' keys = .ok ks' := by
  induction keys generalizing ks with
  | nil => exact ⟨[], rfl⟩
  | cons key keys ih =>
      rw [loadPreKeys] at hkeys ⊢
      refine exists_bind hkeys fun _ hkeys => exists_bind hkeys fun id hkeys => ?_
      by_cases hused : id ∈ used
      · rw [if_pos hused] at hkeys
        rw [if_pos (h hused)]
        exact ih hkeys
      · rw [if_neg hused] at hkeys
        by_cases hused' : id ∈ used'
        · rw [if_pos hused']
          -- the key was loaded before the others
          iterate 5 obtain ⟨_, -, hkeys⟩ := bind_ok.mp hkeys
          obtain ⟨_, hrest, -⟩ := bind_ok.mp hkeys
          exact ih hrest
        · rw [if_neg hused']
          iterate 5 refine exists_bind hkeys fun _ hkeys => ?_
          obtain ⟨_, hrest, -⟩ := bind_ok.mp hkeys
          obtain ⟨ks', hks'⟩ := ih hrest
          exact ⟨_, bind_ok.mpr ⟨ks', hks', rfl⟩⟩

/-- **A file that opens still opens when a prekey is recorded in it.** -/
theorem exists_openKeyFile_record (hobj : file.isObject = true)
    (h : openKeyFile keyPath username password file = .ok k) (id : UInt64) :
    ∃ k', openKeyFile keyPath username password (file.set usedField
      (.arr (((file.get? usedField).bind Json.arr?).getD [] ++ [.unsigned id]))) = .ok k' := by
  generalize hlist : Json.arr (((file.get? usedField).bind Json.arr?).getD [] ++ [.unsigned id]) =
    list
  have hget : ∀ key, usedField ≠ key → (file.set usedField list).get? key = file.get? key := by
    intro key hne
    rw [Json.get?_set hobj, if_neg hne]
  have hat : ∀ key : String, usedField ≠ bytes key → at' (file.set usedField list) key =
      at' file key := by
    intro key hne
    rw [at', at', hget _ hne]
  have hfield : ∀ {β : Type} [DecidableEq β] (get : Json α → Except Exn β) (key : String) (b : β),
      usedField ≠ bytes key → fieldIs get (file.set usedField list) key b =
        fieldIs get file key b := by
    intro β _ get key b hne
    rw [fieldIs, fieldIs, hget _ hne]
  have hcontains : ∀ key, usedField ≠ key → (file.set usedField list).contains key =
      file.contains key := by
    intro key hne
    rw [Json.contains, Json.contains, hget _ hne]
  have hmaterial : openPrivateMaterial keyPath username password (file.set usedField list) =
      openPrivateMaterial keyPath username password file := by
    rw [openPrivateMaterial, openPrivateMaterial, hat "privateMaterial" (by decide),
      hat "kdf" (by decide)]
  rw [openKeyFile, hfield getInt "version" 2 (by decide),
    hfield getString "username" username (by decide),
    hcontains (bytes "publicKeyBundle") (by decide),
    hcontains (bytes "privateMaterial") (by decide), hcontains (bytes "kdf") (by decide),
    hat "publicKeyBundle" (by decide), hmaterial]
  rw [openKeyFile] at h
  -- up to the identity nothing else is read
  iterate 8 refine exists_bind h fun _ h => ?_
  rw [identityOf] at h ⊢
  -- the keys of the identity and the signed prekey
  iterate 18 refine exists_bind h fun _ h => ?_
  obtain ⟨used, hused, h⟩ := bind_ok.mp h
  obtain ⟨used', hsub, hused'⟩ := exists_recordedIds hobj hused id
  rw [hlist] at hused'
  obtain ⟨keysJson, hkeysJson, h⟩ := bind_ok.mp h
  obtain ⟨keys, hkeys, -⟩ := bind_ok.mp h
  obtain ⟨keys', hkeys'⟩ := exists_loadPreKeys hsub hkeys
  exact ⟨_, bind_ok.mpr ⟨used', hused', bind_ok.mpr ⟨keysJson, hkeysJson,
    bind_ok.mpr ⟨keys', hkeys', rfl⟩⟩⟩⟩

end Recording

/-! ## What the two functions do when nothing fails -/

section Succeeds

variable [Alphabet α] [Crypto α]

/-- With nothing failing the signup returns. -/
def SignupSucceeds (home : Bytes) (username password : List α) (fs : Files Bytes α) : Prop :=
  ∃ m w, (createForSignup home username password).Runs (onFiles fun _ => False) ⟨fs, ()⟩
    (some (.ok m)) w

/-- With nothing failing the login returns. -/
def LoginSucceeds [FloatFormat] [DecidableEq α] (home : Bytes) (username password : List α)
    (fs : Files Bytes α) : Prop :=
  ∃ k w, (loadForLogin home username password).Runs (onFiles fun _ => False) ⟨fs, ()⟩
    (some (.ok k)) w

variable {home : Bytes} {username password : List α} {fs fs' : Files Bytes α}

/-- A signup does not go over a key file that exists. -/
theorem SignupSucceeds.absent (h : SignupSucceeds home username password fs) :
    fs (keyFile home username) = none := by
  obtain ⟨m, w, hrun⟩ := h
  have hensures : (createForSignup home username password).Ensures (onFiles fun _ => False)
      (fun _ => True) ⟨fs, ()⟩ fun x _ => (∃ m, x = .ok m) → fs (keyFile home username) = none := by
    rw [createForSignup, ensures_bind, ensures_ofExcept]
    refine ⟨trivial, ?_⟩
    cases hpath : defaultKeyPath home username with
    | error e => exact fun ⟨m, hm⟩ => by cases hm
    | ok path =>
        obtain rfl := eq_keyFile hpath
        simp only
        rw [ensures_bind]
        refine ensures_fileExists trivial ?_ fun h => h.elim
        cases hnone : fs (keyFile home username) with
        | none => exact ensures_mono (ensures_true _ _) fun _ _ _ _ => rfl
        | some text =>
            have hsome : (fs (keyFile home username)).isSome = true := by simp [hnone]
            dsimp only
            rw [if_pos hsome]
            exact ⟨trivial, fun ⟨m, hm⟩ => by cases hm⟩
  exact hensures.of_runs hrun ⟨m, rfl⟩

variable [FloatFormat] [DecidableEq α]

/-- A login reads the key file and opens what it holds. -/
theorem loginSucceeds_iff : LoginSucceeds home username password fs ↔
    home ≠ [] ∧ ∃ text body k, fs (keyFile home username) = some text ∧
      Json.parse text = some body ∧
      openKeyFile (keyFile home username) username password body = .ok k := by
  constructor
  · rintro ⟨k, w, hrun⟩
    obtain ⟨-, hiff⟩ := (ensures_loadForLogin_text (I := fun _ => True) trivial).of_runs hrun
    obtain ⟨hhome, text, body, htext, hbody, hopen⟩ := (hiff k).mp rfl
    exact ⟨hhome, text, body, k, htext, hbody, hopen⟩
  · rintro ⟨hhome, text, body, k, htext, hbody, hopen⟩
    obtain ⟨x, w, hrun⟩ := exists_runs (onFiles_total fun _ => False)
      (loadForLogin home username password) ⟨fs, ()⟩
    obtain ⟨-, hiff⟩ := (ensures_loadForLogin_text (I := fun _ => True) trivial).of_runs hrun
    obtain rfl := (hiff k).mpr ⟨hhome, text, body, htext, hbody, hopen⟩
    exact ⟨k, w, hrun⟩

end Succeeds

/-! ## Writing in place, with a log -/

/-- The run has opened the file for writing. -/
def Truncated (path : Bytes) (log : CallLog (Op α) Op.Res) : Prop :=
  (⟨.file (.truncate path), true⟩ : Σ o : Op α, o.Res) ∈ log

/-- The effect opens a file for writing, or writes it. -/
def Op.Stores (path : Bytes) : Op α → Prop
  | .file (.truncate p) => p = path
  | .file (.put p _) => p = path
  | .file (.close p _) => p = path
  | _ => False

/-- The stream of the file has taken a whole text. -/
def tookAll (path : Bytes) : (Σ o : Op α, o.Res) → Prop
  | ⟨.file (.put p text), r⟩ => p = path ∧ r.taken = text.length
  | _ => False

/-- It has put a whole text into the file at once. -/
def reachedAll (path : Bytes) : (Σ o : Op α, o.Res) → Prop
  | ⟨.file (.put p text), r⟩ => p = path ∧ r.reached = text.length
  | _ => False

/-- It was closed, with all it had taken in the file. -/
def closedAll (path : Bytes) : (Σ o : Op α, o.Res) → Prop
  | ⟨.file (.close p text), n⟩ => p = path ∧ n = text.length
  | _ => False

/-- The run has put a whole text into the file. -/
def Complete (path : Bytes) (log : CallLog (Op α) Op.Res) : Prop :=
  (∃ e ∈ log, reachedAll path e) ∨ (∃ e ∈ log, tookAll path e) ∧ ∃ e ∈ log, closedAll path e

/-- A part of a new text, or nothing. -/
def Part (new : List α → Prop) (t : List α) : Prop :=
  t = [] ∨ ∃ text, new text ∧ t <+: text ∧ t ≠ text

/-- What the file holds at each point of a write: what it held, which has been looked at
before the file is opened, then a part of a new text, and then all of it. -/
inductive Progress (path : Bytes) (old : Option (List α) → Prop) (new : List α → Prop)
    (fs : Files Bytes α) : Files Bytes α → CallLog (Op α) Op.Res → Prop where
  | before {log} (h : ¬ Truncated path log) : Progress path old new fs fs log
  | part {t log} (hold : old (fs path)) (ht : Part new t) (h : Truncated path log)
      (hpart : ¬ Complete path log) :
      Progress path old new fs (Function.update fs path (some t)) log
  | written {text log} (hold : old (fs path)) (hnew : new text) (h : Truncated path log)
      (hall : Complete path log) :
      Progress path old new fs (Function.update fs path (some text)) log

section Logged

variable {σ : Type} {mayFail : FileOp Bytes α → Prop}
  {net : HttpRequest α → σ → Option (HttpResponse α) → σ → Prop} {w : World α σ}
  {log : CallLog (Op α) Op.Res} {path : Bytes} {old : Option (List α) → Prop}
  {new : List α → Prop}

/-- A run that has not come to the file. -/
theorem not_truncated (hlog : ∀ e ∈ log, ¬ e.1.Stores path) : ¬ Truncated path log :=
  fun h => hlog _ h rfl

theorem stores_of_all {e : Σ o : Op α, o.Res}
    (h : reachedAll path e ∨ tookAll path e ∨ closedAll path e) : e.1.Stores path := by
  obtain ⟨o, r⟩ := e
  cases o with
  | file o =>
      cases o with
      | put => exact h.elim (·.1) fun h => h.elim (·.1) False.elim
      | close => exact h.elim False.elim fun h => h.elim False.elim (·.1)
      | _ => exact h.elim False.elim fun h => h.elim False.elim False.elim
  | _ => exact h.elim False.elim fun h => h.elim False.elim False.elim

/-- Effects that do not store do not count. -/
theorem exists_stores_append (hlog : ∀ e ∈ log, ¬ e.1.Stores path)
    {P : (Σ o : Op α, o.Res) → Prop} (hP : ∀ e, P e → e.1.Stores path)
    (tail : CallLog (Op α) Op.Res) : (∃ e ∈ log ++ tail, P e) ↔ ∃ e ∈ tail, P e := by
  constructor
  · rintro ⟨e, he, hPe⟩
    exact ⟨e, (List.mem_append.mp he).resolve_left fun hmem => hlog e hmem (hP e hPe), hPe⟩
  · rintro ⟨e, he, hPe⟩
    exact ⟨e, List.mem_append_right _ he, hPe⟩

/-- What comes before the file is opened does not matter for what has been written. -/
theorem complete_append (hlog : ∀ e ∈ log, ¬ e.1.Stores path) (tail : CallLog (Op α) Op.Res) :
    Complete path (log ++ tail) ↔ Complete path tail := by
  rw [Complete, Complete, exists_stores_append hlog fun e h => stores_of_all (.inl h),
    exists_stores_append hlog fun e h => stores_of_all (.inr (.inl h)),
    exists_stores_append hlog fun e h => stores_of_all (.inr (.inr h))]

theorem not_complete_truncate (hlog : ∀ e ∈ log, ¬ e.1.Stores path) :
    ¬ Complete path (log ++ [⟨.file (.truncate path), true⟩]) := by
  rw [complete_append hlog]
  simp [Complete, reachedAll, tookAll]

section Stream

variable {text : List α} {r : Taken} {more : CallLog (Op α) Op.Res}

/-- The run has opened the file, has handed the text to the stream and has gone on. -/
def putLog (path : Bytes) (log : CallLog (Op α) Op.Res) (text : List α) (r : Taken)
    (more : CallLog (Op α) Op.Res) : CallLog (Op α) Op.Res :=
  log ++ (⟨.file (.truncate path), true⟩ :: ⟨.file (.put path text), r⟩ :: more)

theorem truncated_putLog : Truncated path (putLog path log text r more) :=
  List.mem_append_right _ (List.mem_cons_self ..)

theorem complete_putLog_append (hlog : ∀ e ∈ log, ¬ e.1.Stores path)
    (hmore : ∀ e ∈ more, ¬ e.1.Stores path) (tail : CallLog (Op α) Op.Res) :
    Complete path (putLog path log text r (more ++ tail)) ↔
      (r.reached = text.length ∨ ∃ e ∈ tail, reachedAll path e) ∨
        (r.taken = text.length ∨ ∃ e ∈ tail, tookAll path e) ∧ ∃ e ∈ tail, closedAll path e := by
  rw [putLog, complete_append hlog, Complete]
  simp only [List.exists_mem_cons_iff,
    exists_stores_append hmore fun e h => stores_of_all (.inl h),
    exists_stores_append hmore fun e h => stores_of_all (.inr (.inl h)),
    exists_stores_append hmore fun e h => stores_of_all (.inr (.inr h))]
  simp [reachedAll, tookAll, closedAll]

/-- The text is there before the stream is closed. -/
theorem complete_putLog (hlog : ∀ e ∈ log, ¬ e.1.Stores path)
    (hmore : ∀ e ∈ more, ¬ e.1.Stores path) (hr : r.reached ≤ r.taken)
    (htaken : r.taken ≤ text.length) :
    Complete path (putLog path log text r more) ↔ text.length ≤ r.reached := by
  rw [← List.append_nil more, complete_putLog_append hlog hmore]
  simp only [List.not_mem_nil, false_and, exists_false, and_false, or_false]
  omega

/-- And when it is closed. -/
theorem complete_putLog_close (hlog : ∀ e ∈ log, ¬ e.1.Stores path)
    (hmore : ∀ e ∈ more, ¬ e.1.Stores path) (hr : r.reached ≤ r.taken)
    (htaken : r.taken ≤ text.length) {k : Nat} (hk : k ≤ r.taken) :
    Complete path (putLog path log text r
      (more ++ [⟨.file (.close path (text.take r.taken)), k⟩])) ↔ text.length ≤ max k r.reached := by
  rw [complete_putLog_append hlog hmore]
  simp only [List.mem_singleton, exists_eq_left, reachedAll, tookAll, closedAll, List.length_take,
    true_and, or_false]
  show r.reached = text.length ∨ r.taken = text.length ∧ k = min r.taken text.length ↔ _
  omega

/-- While the file is open it has the start of the text that the log tells. -/
theorem Progress.of_take {fs : Files Bytes α} (hold : old (fs path)) (hnew : new text) {n : Nat}
    (htruncated : Truncated path log) (hcomplete : Complete path log ↔ text.length ≤ n) :
    Progress path old new fs (Function.update fs path (some (text.take n))) log := by
  by_cases hn : text.length ≤ n
  · rw [List.take_of_length_le hn]
    exact .written hold hnew htruncated (hcomplete.mpr hn)
  · refine .part hold (.inr ⟨text, hnew, List.take_prefix n text, ?_⟩) htruncated fun h =>
      hn (hcomplete.mp h)
    intro h
    exact hn (List.take_eq_self_iff _ |>.mp h)

end Stream

theorem ensures_logged_file {o : FileOp Bytes α} {I : World α σ × CallLog (Op α) Op.Res → Prop}
    {Q : Except Exn o.Res → World α σ × CallLog (Op α) Op.Res → Prop} :
    (perform (.file o)).Ensures (logged (exec mayFail net)) I (w, log) Q ↔ I (w, log) ∧
      ∀ r fs, o.Exec mayFail w.files r fs →
        I ({ w with files := fs }, log ++ [⟨.file o, r⟩]) ∧
          Q (.ok r) ({ w with files := fs }, log ++ [⟨.file o, r⟩]) := by
  rw [perform, ensures_logged_op]
  refine and_congr_right fun _ => forall_congr' fun r => ?_
  constructor
  · intro h fs hexec
    exact h _ ⟨fs, hexec, rfl⟩
  · rintro h _ ⟨fs, hexec, rfl⟩
    exact h fs hexec

/-- What a program does before the file is opened. -/
theorem ensures_before {β : Type} {p : Action α β} {Q : Except Exn β → World α σ → Prop}
    (honly : p.Only fun o => ¬ o.Stores path) {fs : Files Bytes α}
    (h : p.Ensures (exec mayFail net) (fun w' => w'.files = fs) w Q)
    (hlog : ∀ e ∈ log, ¬ e.1.Stores path) :
    p.Ensures (logged (exec mayFail net)) (fun s => Progress path old new fs s.1.files s.2) (w, log)
      fun x s => Q x s.1 ∧ s.1.files = fs ∧ ∀ e ∈ s.2, ¬ e.1.Stores path := by
  have hinv : ∀ {w : World α σ} {log : CallLog (Op α) Op.Res}, w.files = fs →
      (∀ e ∈ log, ¬ e.1.Stores path) → Progress path old new fs w.files log := by
    rintro w log rfl hlog
    exact .before (not_truncated hlog)
  induction p generalizing w log with
  | pure a => exact ⟨hinv h.1 hlog, h.2, h.1, hlog⟩
  | fail e => exact ⟨hinv h.1 hlog, h.2, h.1, hlog⟩
  | call o k ih =>
      refine ⟨hinv h.1 hlog, ?_⟩
      rintro r ⟨w', log'⟩ ⟨hexec, rfl⟩
      refine ih r (honly.2 r) (h.2 r w' hexec) fun e he => ?_
      rcases List.mem_append.mp he with he | he
      · exact hlog e he
      · rw [List.mem_singleton.mp he]
        exact honly.1

variable [Alphabet α]

section InPlace

variable {text : List α} {fs : Files Bytes α}
  {Q : Except Exn Unit → World α σ × CallLog (Op α) Op.Res → Prop}

omit [Alphabet α] in
/-- **Closing the stream** writes what it has taken. -/
theorem ensures_close_logged {r : Taken} {more : CallLog (Op α) Op.Res} {x : Except Exn Unit}
    (hlog : ∀ e ∈ log, ¬ e.1.Stores path) (hmore : ∀ e ∈ more, ¬ e.1.Stores path)
    (hold : old (fs path)) (hnew : new text) (hr : r.reached ≤ r.taken)
    (htaken : r.taken ≤ text.length) (hx : x = .ok () → r.taken = text.length)
    (hQ : ∀ s, Progress path old new fs s.1.files s.2 →
      (Closes mayFail path → x = .ok () → Complete path s.2) → Q x s) :
    (do let _ ← perform (.file (.close path (text.take r.taken)))
        Prog.ofExcept x : Action α Unit).Ensures (logged (exec mayFail net))
      (fun s => Progress path old new fs s.1.files s.2)
      ({ w with files := Function.update fs path (some (text.take r.reached)) },
        putLog path log text r more) Q := by
  rw [ensures_bind, ensures_logged_file]
  refine ⟨.of_take hold hnew truncated_putLog (complete_putLog hlog hmore hr htaken), ?_⟩
  intro (k : Nat) fs' hexec
  obtain ⟨hk, rfl, hor⟩ := hexec.close_start htaken
  have hall := complete_putLog_close hlog hmore hr htaken hk
  have hdone := Progress.of_take hold hnew truncated_putLog hall
  rw [putLog, List.append_assoc, List.cons_append, List.cons_append]
  refine ⟨hdone, ensures_ofExcept.mpr ⟨hdone, hQ _ hdone fun hcloses hok => hall.mpr ?_⟩⟩
  have hfull := hor.resolve_right (hcloses _)
  have hlength := hx hok
  omega

omit [Alphabet α] in
/-- **Writing to the open file**: the text is handed to the stream, the permissions are set, and
the stream is closed. -/
theorem ensures_put_logged {writeError : String} (hlog : ∀ e ∈ log, ¬ e.1.Stores path)
    (hold : old (fs path)) (hnew : new text)
    (hQ : ∀ x s, Progress path old new fs s.1.files s.2 →
      (Closes mayFail path → x = .ok () → Complete path s.2) → Q x s) :
    (do let out ← perform (.file (.put path text))
        let result ← (if out.taken = text.length then restrictPermissions path
          else Pure.pure (.error (.runtimeError (bytes writeError ++ path))))
        let _ ← perform (.file (.close path (text.take out.taken)))
        Prog.ofExcept result : Action α Unit).Ensures (logged (exec mayFail net))
      (fun s => Progress path old new fs s.1.files s.2)
      ({ w with files := Function.update fs path (some []) },
        log ++ [⟨.file (.truncate path), true⟩]) Q := by
  have hopen : Progress path old new fs (Function.update fs path (some []))
      (log ++ [⟨.file (.truncate path), true⟩]) :=
    .part hold (.inl rfl) (List.mem_append_right _ (List.mem_singleton_self _))
      (not_complete_truncate hlog)
  rw [ensures_bind, ensures_logged_file]
  refine ⟨hopen, fun (r : Taken) fs' hexec => ?_⟩
  obtain ⟨hr, htaken, rfl, -⟩ := hexec.put_start
  have hstill : ∀ more : CallLog (Op α) Op.Res, (∀ e ∈ more, ¬ e.1.Stores path) →
      Progress path old new fs (Function.update fs path (some (text.take r.reached)))
        (putLog path log text r more) := fun more hmore =>
    .of_take hold hnew truncated_putLog (complete_putLog hlog hmore hr htaken)
  have hbuffered := hstill [] (by simp)
  simp only [List.append_assoc, List.cons_append, List.nil_append]
  refine ⟨hbuffered, ?_⟩
  rw [ensures_bind]
  by_cases htook : r.taken = text.length
  · rw [if_pos htook, restrictPermissions, ensures_bind, ensures_logged_file]
    refine ⟨hbuffered, fun ok fs' hexec => ?_⟩
    obtain rfl : fs' = Function.update fs path (some (text.take r.reached)) := by
      rcases hexec with ⟨-, rfl⟩ | ⟨-, -, rfl⟩
      · rfl
      · rfl
    have hperms : ∀ e ∈ [(⟨.file (.setPermissions path), ok⟩ : Σ o : Op α, o.Res)],
        ¬ e.1.Stores path := by
      simp [Op.Stores]
    have hset := hstill _ hperms
    simp only [List.append_assoc, List.cons_append, List.nil_append]
    exact ⟨hset, hset, ensures_close_logged hlog hperms hold hnew hr htaken (fun _ => htook) (hQ _)⟩
  · rw [if_neg htook]
    exact ⟨hbuffered, ensures_close_logged hlog (by simp) hold hnew hr htaken (fun h => by cases h)
      (hQ _)⟩

/-- **Writing a JSON file in place**, with what has been put into the file at each point.
A write that reports no failure is complete, unless closing the file fails. -/
theorem ensures_writeInPlace_logged {openError writeError : String} {body : Json α}
    (hlog : ∀ e ∈ log, ¬ e.1.Stores path) (hold : old (w.files path))
    (hnew : ∀ text, jsonFileText body = .ok text → new text)
    (hQ : ∀ x s, Progress path old new w.files s.1.files s.2 →
      (Closes mayFail path → x = .ok () → Complete path s.2) → Q x s) :
    (writeInPlace openError writeError path body).Ensures (logged (exec mayFail net))
      (fun s => Progress path old new w.files s.1.files s.2) (w, log) Q := by
  have hclosed : Progress path old new w.files w.files log := .before (not_truncated hlog)
  rw [writeInPlace, ensures_bind, ensures_logged_file]
  refine ⟨hclosed, fun dirs fs hexec => ?_⟩
  obtain rfl : fs = w.files := by
    rcases hexec with ⟨-, rfl⟩ | ⟨-, -, rfl⟩
    · rfl
    · rfl
  have hlog₁ : ∀ e ∈ log ++ [(⟨.file (.createDirectories path), dirs⟩ : Σ o : Op α, o.Res)],
      ¬ e.1.Stores path := by
    intro e he
    rcases List.mem_append.mp he with he | he
    · exact hlog e he
    · rw [List.mem_singleton.mp he]
      exact id
  have hdirs : Progress path old new w.files w.files _ := .before (not_truncated hlog₁)
  refine ⟨hdirs, ?_⟩
  dsimp only
  generalize log ++ [(⟨.file (.createDirectories path), dirs⟩ : Σ o : Op α, o.Res)] = log₁
    at hlog₁ hdirs ⊢
  rw [ensures_bind]
  cases dirs with
  | false => exact ⟨hdirs, hQ _ _ hdirs fun _ h => by cases h⟩
  | true =>
  refine ⟨hdirs, ?_⟩
  dsimp only
  rw [ensures_bind, ensures_logged_file]
  refine ⟨hdirs, fun opened fs hexec => ?_⟩
  cases opened with
  | false =>
      have hfs : fs = w.files := by
        rcases hexec with ⟨hr, -⟩ | ⟨-, -, rfl⟩
        · cases hr
        · rfl
      subst hfs
      have hfailed : ¬ Truncated path (log₁ ++ [⟨.file (.truncate path), false⟩]) := by
        intro h
        rcases List.mem_append.mp h with h | h
        · exact not_truncated hlog₁ h
        · cases List.mem_singleton.mp h
      exact ⟨.before hfailed, .before hfailed, hQ _ _ (.before hfailed) fun _ h => by cases h⟩
  | true =>
  have hfs : fs = Function.update w.files path (some []) := by
    rcases hexec with ⟨-, rfl⟩ | ⟨-, hr, -⟩
    · rfl
    · cases hr
  subst hfs
  have hopen : Progress path old new w.files (Function.update w.files path (some []))
      (log₁ ++ [⟨.file (.truncate path), true⟩]) :=
    .part hold (.inl rfl) (List.mem_append_right _ (List.mem_singleton_self _))
      (not_complete_truncate hlog₁)
  refine ⟨hopen, ?_⟩
  simp only [orFail_true, pure_bind']
  rw [ensures_bind, ensures_ofExcept]
  refine ⟨hopen, ?_⟩
  cases htext : jsonFileText body with
  | error e => exact hQ _ _ hopen fun _ h => by cases h
  | ok text => exact ensures_put_logged hlog₁ hold (hnew text htext) hQ

end InPlace

end Logged

/-! ## Signing up -/

section Signup

variable [Alphabet α] [Crypto α]

/-- The complete content of a new key file. -/
def SignupText (username password text : List α) : Prop :=
  ∃ identity file, IsKeyFile username password identity file ∧ jsonFileText file = .ok text

variable {σ : Type} {mayFail : FileOp Bytes α → Prop}
  {net : HttpRequest α → σ → Option (HttpResponse α) → σ → Prop} {w : World α σ}
  {home : Bytes} {username password : List α}

/-- **What a signup leaves of the key file** at each point.  One that returns has written
it, unless closing it has failed. -/
theorem ensures_createForSignup_logged :
    (createForSignup home username password).Ensures (logged (exec mayFail net))
      (fun s => Progress (keyFile home username) (· = none) (SignupText username password)
        w.files s.1.files s.2) (w, []) fun x s => Closes mayFail (keyFile home username) →
          ∀ m, x = .ok m → Complete (keyFile home username) s.2 := by
  have hnil : ∀ e ∈ ([] : CallLog (Op α) Op.Res), ¬ e.1.Stores (keyFile home username) := by simp
  rw [createForSignup, ensures_bind, ensures_ofExcept]
  refine ⟨.before (not_truncated hnil), ?_⟩
  cases hpath : defaultKeyPath home username with
  | error e => exact fun _ m h => by cases h
  | ok path =>
  obtain rfl := eq_keyFile hpath
  dsimp only
  rw [ensures_bind]
  have hexists : (fileExists (keyFile home username)).Ensures (exec mayFail net)
      (fun w' => w'.files = w.files) w fun x w' => w' = w ∧
        (x = .ok false → w.files (keyFile home username) = none) := by
    refine ensures_fileExists rfl ⟨rfl, fun h => ?_⟩ fun _ => ⟨rfl, fun h => by cases h⟩
    exact Option.isNone_iff_eq_none.mp (by simpa using Except.ok.inj h)
  refine ensures_mono (ensures_before (only_bind (only_op id) fun r => by
    cases r <;> trivial) hexists hnil) ?_
  rintro x ⟨w', log⟩ ⟨⟨hw, habsent⟩, -, hlog⟩
  dsimp only at hw hlog
  subst w'
  cases x with
  | error e => exact fun _ m h => by cases h
  | ok found =>
  cases found with
  | true => exact ⟨.before (not_truncated hlog), fun _ m h => by cases h⟩
  | false =>
  have habsent := habsent rfl
  simp only [Bool.false_eq_true, if_false]
  rw [ensures_bind]
  refine ensures_mono (ensures_before (only_newIdentity id id)
    (ensures_newIdentity rfl) hlog) ?_
  rintro _ ⟨w', log⟩ ⟨⟨hw, identity, rfl, hmade, hids⟩, -, hlog⟩
  dsimp only at hw hlog
  subst w'
  dsimp only
  have hrandom : ∀ n, (perform (.random n)).Ensures (exec mayFail net)
      (fun w' => w'.files = w.files) w fun x w' => w' = w ∧
        ∃ r : List α, x = .ok r ∧ r.length = n :=
    fun n => ensures_random.mpr ⟨rfl, fun r hr => ⟨rfl, r, rfl, hr⟩⟩
  rw [ensures_bind]
  refine ensures_mono (ensures_before (only_op id) (hrandom 16) hlog) ?_
  rintro _ ⟨w', log⟩ ⟨⟨hw, salt, rfl, hsalt⟩, -, hlog⟩
  dsimp only at hw hlog
  subst w'
  dsimp only
  rw [ensures_bind, ensures_ofExcept]
  refine ⟨.before (not_truncated hlog), ?_⟩
  cases hkey : keyEncryptionKey password salt kKdfOpsLimit kKdfMemLimit with
  | error e => exact fun _ m h => by cases h
  | ok key =>
  dsimp only
  rw [ensures_bind]
  refine ensures_mono (ensures_before (only_op id) (hrandom 24) hlog) ?_
  rintro _ ⟨w', log⟩ ⟨⟨hw, nonce, rfl, hnonce⟩, -, hlog⟩
  dsimp only at hw hlog
  subst w'
  dsimp only
  rw [ensures_bind, ensures_ofExcept]
  refine ⟨.before (not_truncated hlog), ?_⟩
  cases hmaterial : orJsonError (encryptedPrivateMaterial identity).dump with
  | error e => exact fun _ m h => by cases h
  | ok privateMaterial =>
  dsimp only
  rw [ensures_bind, ensures_ofExcept]
  refine ⟨.before (not_truncated hlog), ?_⟩
  cases hbundle : publicBundle identity with
  | error e => exact fun _ m h => by cases h
  | ok bundle =>
  dsimp only
  have hfile : IsKeyFile username password identity (newKeyFile username bundle
      (Crypto.aeadEncrypt privateMaterial username nonce key) nonce salt) :=
    ⟨hmade, hids, bundle, salt, nonce, key, privateMaterial, hbundle, hsalt, hnonce, hkey,
      orJsonError_ok.mp hmaterial, rfl⟩
  rw [ensures_bind, writeKeyFile]
  refine ensures_writeInPlace_logged hlog habsent (fun text htext => ⟨_, _, hfile, htext⟩)
    fun x s hs hcomplete => ?_
  cases x with
  | error e => exact fun _ m h => by cases h
  | ok _ =>
      dsimp only
      rw [ensures_bind, ensures_ofExcept]
      refine ⟨hs, ?_⟩
      cases orJsonError bundle.dump with
      | error e => exact fun _ m h => by cases h
      | ok publicKeyBundle => exact ⟨hs, fun hcloses _ _ => hcomplete hcloses rfl⟩

end Signup

/-! ## Recording a prekey -/

section Erase

variable [Alphabet α] [Crypto α] [FloatFormat]

/-- The complete content with the prekey recorded, made of what was read of the file. -/
def RecordText (id : UInt64) (old : Option (List α)) (text : List α) : Prop :=
  ∃ content t body file, old = some content ∧ t <+: content ∧ Json.parse t = some body ∧
    asObject body = .ok file ∧ jsonFileText (file.set usedField
      (.arr (((file.get? usedField).bind Json.arr?).getD [] ++ [.unsigned id]))) = .ok text

variable {σ : Type} {mayFail : FileOp Bytes α → Prop}
  {net : HttpRequest α → σ → Option (HttpResponse α) → σ → Prop} {w : World α σ} {path : Bytes}
  {id : UInt64}

omit [Crypto α] in
/-- **What recording a prekey leaves of the key file** at each point. -/
theorem ensures_recordUsed_logged :
    (recordUsed path id : Action α Unit).Ensures (logged (exec mayFail net))
      (fun s => Progress path (fun old => ∃ content, old = some content ∧ content ≠ [])
        (RecordText id (w.files path)) w.files s.1.files s.2) (w, []) fun _ _ => True := by
  have hnil : ∀ e ∈ ([] : CallLog (Op α) Op.Res), ¬ e.1.Stores path := by simp
  have hread : (readKeyFile path).Ensures (exec mayFail net) (fun w' => w'.files = w.files) w
      fun x w' => w' = w ∧ ∀ body, x = .ok body → ∃ content t, w.files path = some content ∧
        t <+: content ∧ Json.parse t = some body := by
    refine ensures_readJsonFile rfl ⟨rfl, fun body h => ?_⟩ fun t _ ht => ⟨rfl, fun body h => ?_⟩
    · cases htext : w.files path with
      | none =>
          rw [htext] at h
          cases h
      | some content =>
          rw [htext] at h
          exact ⟨content, content, rfl, List.prefix_rfl, orThrow_ok.mp h⟩
    · rcases ht with rfl | ⟨content, n, hcontent, rfl⟩
      · cases h
      · exact ⟨content, content.take n, hcontent, List.take_prefix n content, orThrow_ok.mp h⟩
  rw [recordUsed, ensures_bind]
  refine ensures_mono (ensures_before (only_bind (only_op (by exact fun h => h)) fun _ =>
    only_ofExcept _) hread hnil) ?_
  rintro x ⟨w', log⟩ ⟨⟨hw, hbody⟩, -, hlog⟩
  dsimp only at hw hlog
  subst w'
  cases x with
  | error e => trivial
  | ok body =>
  obtain ⟨content, t, hcontent, ht, hparse⟩ := hbody body rfl
  have hold : ∃ content, w.files path = some content ∧ content ≠ [] := by
    refine ⟨content, hcontent, ?_⟩
    rintro rfl
    rw [List.prefix_nil.mp ht] at hparse
    cases hparse
  dsimp only
  rw [ensures_bind, ensures_ofExcept]
  refine ⟨.before (not_truncated hlog), ?_⟩
  cases hfile : asObject body with
  | error e => trivial
  | ok file =>
  dsimp only
  rw [ensures_bind, ensures_ofExcept]
  refine ⟨.before (not_truncated hlog), ?_⟩
  cases alreadyRecorded id (((file.get? (bytes "usedOneTimePreKeyIds")).bind Json.arr?).getD [])
    with
  | error e => trivial
  | ok found =>
  cases found with
  | true => exact ⟨.before (not_truncated hlog), trivial⟩
  | false =>
  exact ensures_writeInPlace_logged hlog hold
    (fun text htext => ⟨content, t, body, file, hcontent, ht, hparse, hfile, htext⟩)
    fun _ _ _ _ => trivial

omit [Crypto α] in
/-- The same for `eraseOneTimePreKey`. -/
theorem ensures_eraseOneTimePreKey_logged (identity : LocalIdentityKey α) :
    (eraseOneTimePreKey identity id).Ensures (logged (exec mayFail net))
      (fun s => Progress identity.keyFilePath (fun old => ∃ content, old = some content ∧ content ≠ [])
        (RecordText id (w.files identity.keyFilePath)) w.files s.1.files s.2) (w, [])
      fun _ _ => True := by
  have hnil : Progress identity.keyFilePath (fun old => ∃ content, old = some content ∧ content ≠ [])
      (RecordText id (w.files identity.keyFilePath)) w.files w.files ([] : CallLog (Op α) Op.Res) :=
    .before (not_truncated (by simp))
  rw [eraseOneTimePreKey]
  by_cases hany : identity.oneTimePreKeys.any (·.id = id) = true
  · rw [if_pos hany]
    by_cases hpath : identity.keyFilePath = []
    · rw [if_pos hpath]
      exact ⟨hnil, trivial⟩
    · rw [if_neg hpath, ensures_bind, ensures_attempt]
      refine ensures_mono ensures_recordUsed_logged.withInv ?_
      exact fun _ _ h => ⟨h.1, trivial⟩
  · rw [if_neg hany]
    exact ⟨hnil, trivial⟩

end Erase

/-! ## A run that is stopped -/

section Cut

variable [Alphabet α] [Crypto α] [FloatFormat] [DecidableEq α] {path : Bytes} {id : UInt64}
  {text : List α} {body file : Json α} {fs : Files Bytes α}

omit [Crypto α] [DecidableEq α] in
/-- Recording a prekey can stop where the file has just been opened. -/
theorem exists_recordUsed_cut (mayFail : FileOp Bytes α → Prop) (htext : fs path = some text)
    (hparse : Json.parse text = some body) (hfile : asObject body = .ok file)
    (hnew : alreadyRecorded id (((file.get? usedField).bind Json.arr?).getD []) = .ok false) :
    ∃ log, (recordUsed path id).Runs (logged (onFiles mayFail)) (⟨fs, ()⟩, []) none
      (⟨Function.update fs path (some []), ()⟩, log) := by
  let cut := writeKeyFile path (file.set usedField
    (.arr (((file.get? usedField).bind Json.arr?).getD [] ++ [.unsigned id])))
  have hcall : ∃ k : Option (List α) → Action α Unit,
      recordUsed path id = .call (.file (.read path)) k ∧ k (some text) = cut := by
    refine ⟨_, rfl, ?_⟩
    show ((Prog.ofExcept (jsonOfFile _ _ path (some text)) >>= fun body => _) : Action α Unit) = _
    rw [jsonOfFile, hparse]
    show ((Prog.ofExcept (asObject body) >>= fun file => _) : Action α Unit) = _
    rw [hfile]
    show ((Prog.ofExcept (alreadyRecorded id _) >>= fun found => _) : Action α Unit) = _
    rw [hnew]
    rfl
  obtain ⟨k, hk, hcut⟩ := hcall
  rw [hk]
  let log : CallLog (Op α) Op.Res :=
    [⟨.file (.read path), some text⟩, ⟨.file (.createDirectories path), true⟩]
  have hread : logged (onFiles mayFail) (.file (.read path)) (⟨fs, ()⟩, []) (some text)
      (⟨fs, ()⟩, log.take 1) := ⟨⟨_, .inl ⟨htext.symm, rfl⟩, rfl⟩, rfl⟩
  have hdirs : logged (onFiles mayFail) (.file (.createDirectories path)) (⟨fs, ()⟩, log.take 1)
      true (⟨fs, ()⟩, log) := ⟨⟨_, .inl ⟨rfl, rfl⟩, rfl⟩, rfl⟩
  refine ⟨log ++ [⟨.file (.truncate path), true⟩], .call hread ?_⟩
  rw [hcut]
  refine .call hdirs ?_
  exact .call ⟨⟨_, .inl ⟨rfl, rfl⟩, rfl⟩, rfl⟩ .stop

omit [Crypto α] [DecidableEq α] in
/-- The same for `eraseOneTimePreKey`. -/
theorem exists_erase_cut (mayFail : FileOp Bytes α → Prop) {identity : LocalIdentityKey α}
    (hany : identity.oneTimePreKeys.any (·.id = id) = true) (hpath : identity.keyFilePath ≠ [])
    (htext : fs identity.keyFilePath = some text)
    (hparse : Json.parse text = some body) (hfile : asObject body = .ok file)
    (hnew : alreadyRecorded id (((file.get? usedField).bind Json.arr?).getD []) = .ok false) :
    ∃ x log fs', (eraseOneTimePreKey identity id).Runs (logged (onFiles mayFail)) (⟨fs, ()⟩, []) x
      (⟨fs', ()⟩, log) ∧ fs' identity.keyFilePath = some [] := by
  by_contra hnone
  obtain ⟨log, hcut⟩ := exists_recordUsed_cut mayFail htext hparse hfile hnew
  have hensures : (eraseOneTimePreKey identity id).Ensures (logged (onFiles mayFail))
      (fun s => s.1.files identity.keyFilePath ≠ some []) (⟨fs, ()⟩, []) fun _ _ => True :=
    ensures_iff.mpr fun x s' hrun => ⟨fun h => hnone ⟨x, s'.2, s'.1.files, hrun, h⟩,
      fun _ _ => trivial⟩
  rw [eraseOneTimePreKey, if_pos hany, if_neg hpath, ensures_bind, ensures_attempt] at hensures
  exact (ensures_iff.mp hensures _ _ hcut).1 (Function.update_self ..)

end Cut

/-- The first prekey of a user is being recorded when the client stops. -/
theorem exists_stopped_erase : letI := plainFloats; letI := plainCrypto;
    ∃ (identity : LocalIdentityKey UInt8) (fs fs' : Files Bytes UInt8) (x : _) (log : _),
      LoginSucceeds (bytes "/home/a") (bytes "a") (bytes "p") fs ∧
      (eraseOneTimePreKey identity 1).Runs (logged (onFiles fun _ => False)) (⟨fs, ()⟩, []) x
        (⟨fs', ()⟩, log) ∧
      ¬ LoginSucceeds (bytes "/home/a") (bytes "a") (bytes "p") fs' := by
  let := plainFloats
  let := plainCrypto
  have := lawfulBase64_plain
  have := lawfulDh_plain
  have := lawfulSigning_plain
  have := lawfulAead_plain
  obtain ⟨material, identity, file, fs, hsignup, hkey, hholds⟩ :=
    exists_signup (bytes "/home/a") (bytes "a") (bytes "p") (fun _ => none) (by decide) (by decide)
      rfl fun salt => ⟨_, rfl⟩
  obtain ⟨x, w, hlogin⟩ := Prog.exists_runs (onFiles_total fun _ => False)
    (loadForLogin (bytes "/home/a") (bytes "a") (bytes "p")) ⟨fs, ()⟩
  obtain ⟨rfl, rfl⟩ := Prog.Ensures.of_runs
    (ensures_loadForLogin_all (I := fun _ => True) trivial (by decide) hkey hholds) hlogin
  have hsucceeds : LoginSucceeds (bytes "/home/a") (bytes "a") (bytes "p") fs := ⟨_, _, hlogin⟩
  obtain ⟨text, body, htext, hparse, hfields⟩ := hholds
  -- the file has the fields of the one the signup wrote, which records no prekey
  have hused : body.get? usedField = some (.arr []) := by
    rw [hfields _ (by decide), hkey.get?_recorded, if_pos rfl, List.map_nil]
  have hself : asObject body = .ok body := by
    cases body with
    | obj fs => rfl
    | _ => cases hused
  have hnew : alreadyRecorded 1 (((body.get? usedField).bind Json.arr?).getD []) = .ok false := by
    rw [hused]
    rfl
  have hany : (identity.unused [] (keyFile (bytes "/home/a") (bytes "a"))).oneTimePreKeys.any
      (·.id = 1) = true := by
    have hmem : (1 : UInt64) ∈ identity.oneTimePreKeys.map (·.id) := by
      rw [hkey.ids]
      decide
    obtain ⟨key, hkeymem, hkeyid⟩ := List.mem_map.mp hmem
    exact List.any_eq_true.mpr ⟨key, by simpa [LocalIdentityKey.unused] using hkeymem,
      decide_eq_true hkeyid⟩
  obtain ⟨x, log, fs', hrun, hempty⟩ := exists_erase_cut (fun _ => False) hany
    (by exact keyFile_ne_nil (bytes "/home/a") (bytes "a")) htext hparse hself hnew
  have hlost : ¬ LoginSucceeds (bytes "/home/a") (bytes "a") (bytes "p") fs' := by
    intro h
    obtain ⟨-, text', body', k, htext', hparse', -⟩ := loginSucceeds_iff.mp h
    obtain rfl : text' = [] := Option.some.inj (htext'.symm.trans hempty)
    cases hparse'
  exact ⟨_, fs, fs', x, log, hsucceeds, hrun, hlost⟩

/-! ## What is kept -/

/-- The file is as it was, or holds a complete new text. -/
def Whole (path : Bytes) (new : List α → Prop) (fs fs' : Files Bytes α) : Prop :=
  fs' path = fs path ∨ ∃ text, new text ∧ fs' path = some text

/-- A write leaves the file whole exactly when it has put all of its text into the file
once it has opened it. -/
theorem Progress.whole_iff {path : Bytes} {old : Option (List α) → Prop} {new : List α → Prop}
    {fs fs' : Files Bytes α} {log : CallLog (Op α) Op.Res}
    (hpart : old (fs path) → ∀ t, Part new t → fs path ≠ some t ∧ ¬ new t)
    (h : Progress path old new fs fs' log) :
    Whole path new fs fs' ↔ (Truncated path log → Complete path log) := by
  cases h with
  | before hlog => exact iff_of_true (.inl rfl) fun hopened => absurd hopened hlog
  | part hold ht hopened hcut =>
      refine iff_of_false ?_ fun h => hcut (h hopened)
      obtain ⟨hsame, hnew⟩ := hpart hold _ ht
      rintro (hfile | ⟨text, htext, hfile⟩)
      · rw [Function.update_self] at hfile
        exact hsame hfile.symm
      · rw [Function.update_self] at hfile
        exact hnew (Option.some.inj hfile ▸ htext)
  | written _ htext _ hall => exact iff_of_true (.inr ⟨_, htext, Function.update_self ..⟩) fun _ => hall

section Kept

/-- A key file in which a prekey is recorded. -/
theorem wf_addUsed [FloatFormat] {file : Json α} (hwf : file.WF) (id : UInt64) : (file.set usedField
    (.arr (((file.get? usedField).bind Json.arr?).getD [] ++ [.unsigned id]))).WF := by
  refine Json.wf_set hwf (Json.wfElems_iff.mpr fun v hv => ?_)
  rcases List.mem_append.mp hv with hv | hv
  · cases hused : file.get? usedField with
    | none =>
        rw [hused] at hv
        cases hv
    | some used =>
        have hwfUsed := Json.wf_get? hwf hused
        rw [hused] at hv
        cases used with
        | arr xs => exact Json.wfElems_iff.mp hwfUsed v hv
        | _ => cases hv
  · rw [List.mem_singleton.mp hv]
    trivial

theorem asObject_ok [FloatFormat] {body file : Json α} (h : asObject body = .ok file) :
    file.isObject = true ∧ (body.isObject = true → file = body) ∧ (body.WF → file.WF) := by
  cases body with
  | obj fs =>
      cases h
      exact ⟨rfl, fun _ => rfl, id⟩
  | null =>
      cases h
      exact ⟨rfl, nofun, fun _ => ⟨List.Pairwise.nil, trivial⟩⟩
  | _ => cases h

/-- The text of a record starts with no text it was made of. -/
theorem RecordText.ne_start [Alphabet α] [FloatFormat] {id : UInt64} {content text t : List α}
    (h : RecordText id (some content) text) (ht : t <+: text) : content ≠ t := by
  rintro rfl
  obtain ⟨content', s, body, file, hcontent, hs, hparse, hfile, htext⟩ := h
  cases hcontent
  obtain ⟨hobj, hself, hwf⟩ := asObject_ok hfile
  have hwf' := wf_addUsed (hwf (Json.wf_of_parse hparse)) id
  rcases parse_start (Json.isObject_set hobj) hwf' htext (hs.trans ht) with hnew | hnone
  · -- what was read would be what is written, with one prekey more in its list
    obtain rfl := Option.some.inj (hparse.symm.trans hnew)
    obtain hsame := hself (by rw [Json.isObject_norm, Json.isObject_set hobj])
    have hused := congrArg (fun j : Json α => ((j.get? usedField).bind Json.arr?).getD []) hsame
    have hlength := congrArg List.length hused
    simp [Json.get?_norm, Json.get?_set hobj, Json.norm, Json.normElems_eq_map, Json.arr?] at hlength
  · rw [hnone s List.prefix_rfl] at hparse
    cases hparse

/-- No part of a record is a record. -/
theorem RecordText.not_part [Alphabet α] [FloatFormat] {id : UInt64} {old : Option (List α)}
    {t : List α} (ht : Part (RecordText id old) t) : ¬ RecordText id old t := by
  rintro ⟨content, s, body, file, -, -, hparse, hfile, htext⟩
  rcases ht with rfl | ⟨text, ⟨content', s', body', file', -, -, hparse', hfile', htext'⟩, hpre, hne⟩
  · exact jsonFileText_ne_nil htext rfl
  · obtain ⟨-, -, hwf⟩ := asObject_ok hfile
    obtain ⟨hobj', -, hwf'⟩ := asObject_ok hfile'
    exact jsonFileText_ne_start (Json.isObject_set hobj')
      (wf_addUsed (hwf' (Json.wf_of_parse hparse')) id) htext' hpre hne
      (wf_addUsed (hwf (Json.wf_of_parse hparse)) id) htext

variable [Alphabet α] [Crypto α] [FloatFormat] [DecidableEq α]

/-- What a run of `createForSignup` is to keep: the key file is absent or complete, every
login that succeeded still does, and a signup that did not return can be made again. -/
structure SignupKept (home : Bytes) (username password : List α) (fs : Files Bytes α)
    (x : Option (Except Exn (RegistrationKeyMaterial α))) (fs' : Files Bytes α) : Prop where
  whole : Whole (keyFile home username) (SignupText username password) fs fs'
  logins : ∀ home' (username' password' : List α), LoginSucceeds home' username' password' fs →
    LoginSucceeds home' username' password' fs'
  retry : (∀ m, x ≠ some (.ok m)) → SignupSucceeds home username password fs →
    SignupSucceeds home username password fs'

/-- What a run of `eraseOneTimePreKey` is to keep: the key file is as it was or complete,
and every login that succeeded still does. -/
structure EraseKept (path : Bytes) (id : UInt64) (fs fs' : Files Bytes α) : Prop where
  whole : Whole path (RecordText id (fs path)) fs fs'
  logins : ∀ home (username password : List α), LoginSucceeds home username password fs →
    LoginSucceeds home username password fs'

variable {home path : Bytes} {username password : List α} {fs fs' : Files Bytes α}
  {log : CallLog (Op α) Op.Res} {id : UInt64}

theorem LoginSucceeds.congr (h : LoginSucceeds home username password fs)
    (hfile : fs' (keyFile home username) = fs (keyFile home username)) :
    LoginSucceeds home username password fs' := by
  rw [loginSucceeds_iff] at h ⊢
  rw [hfile]
  exact h

/-- A login succeeds with the file that was read and a prekey recorded in it. -/
theorem LoginSucceeds.record {text : List α} (h : LoginSucceeds home username password fs)
    (htext : RecordText id (fs (keyFile home username)) text) :
    LoginSucceeds home username password
      (Function.update fs (keyFile home username) (some text)) := by
  obtain ⟨hhome, content, body, k, hcontent, hparse, hopen⟩ := loginSucceeds_iff.mp h
  obtain ⟨content', t, body', file, hcontent', ⟨r, rfl⟩, hparse', hfile, htext⟩ := htext
  obtain rfl : content = t ++ r := Option.some.inj (hcontent.symm.trans hcontent')
  have hclosed : Json.Closed body' := by
    cases body' <;> trivial
  obtain rfl := Json.parse_append hparse' hclosed hparse
  have hobj : body.isObject = true := by
    obtain ⟨bundle, -, hbundle, -⟩ := openKeyFile_ok hopen
    exact Json.isObject_of_get? (at'_ok.mp hbundle)
  obtain rfl : file = body := by
    cases body with
    | obj fields => exact (Except.ok.inj hfile).symm
    | _ => cases hobj
  have hwf := Json.wf_of_parse hparse
  obtain ⟨k', hk'⟩ := exists_openKeyFile_record hobj hopen id
  refine loginSucceeds_iff.mpr ⟨hhome, text, _, k', Function.update_self ..,
    parse_text (wf_addUsed hwf id) htext, ?_⟩
  rw [openKeyFile_norm]
  exact hk'

omit [DecidableEq α] in
/-- No part of the file of a signup is the file of a signup. -/
theorem SignupText.not_part {t : List α} (ht : Part (SignupText username password) t) :
    ¬ SignupText username password t := by
  rintro ⟨identity, file, hkey, htext⟩
  rcases ht with rfl | ⟨text, ⟨identity', file', hkey', htext'⟩, hpre, hne⟩
  · exact jsonFileText_ne_nil htext rfl
  · obtain ⟨hobj, hwf, -⟩ := hkey'.recorded_norm []
    obtain ⟨-, hwf', -⟩ := hkey.recorded_norm []
    rw [hkey'.recorded_nil] at hobj hwf
    rw [hkey.recorded_nil] at hwf'
    exact jsonFileText_ne_start hobj hwf htext' hpre hne hwf' htext

theorem signupKept_iff {x : Option (Except Exn (RegistrationKeyMaterial α))}
    (h : Progress (keyFile home username) (· = none) (SignupText username password) fs fs' log) :
    SignupKept home username password fs x fs' ↔
      (Truncated (keyFile home username) log → Complete (keyFile home username) log) ∧
      ((∀ m, x ≠ some (.ok m)) → SignupSucceeds home username password fs →
        ¬ Truncated (keyFile home username) log) := by
  have hwhole := h.whole_iff fun habsent t ht =>
    ⟨by simp [habsent], SignupText.not_part ht⟩
  constructor
  · intro hkept
    refine ⟨hwhole.mp hkept.whole, fun hx hsucceeds hopened => ?_⟩
    have habsent := (hkept.retry hx hsucceeds).absent
    cases h with
    | before hlog => exact hlog hopened
    | part => simp at habsent
    | written => simp at habsent
  · rintro ⟨hall, hretry⟩
    refine ⟨hwhole.mpr hall, fun home' username' password' hlogin => ?_, fun hx hsucceeds => ?_⟩
    · -- no login has read the file of this user, which was absent
      have hother : fs (keyFile home username) = none →
          keyFile home' username' ≠ keyFile home username := by
        intro habsent heq
        obtain ⟨-, text, body, k, htext, -⟩ := loginSucceeds_iff.mp hlogin
        rw [heq, habsent] at htext
        cases htext
      cases h with
      | before => exact hlogin
      | part hold => exact hlogin.congr (Function.update_of_ne (hother hold) ..)
      | written hold => exact hlogin.congr (Function.update_of_ne (hother hold) ..)
    · cases h with
      | before => exact hsucceeds
      | part _ _ hopened => exact absurd hopened (hretry hx hsucceeds)
      | written _ _ hopened => exact absurd hopened (hretry hx hsucceeds)

theorem eraseKept_iff (h : Progress path (fun old => ∃ content, old = some content ∧ content ≠ [])
    (RecordText id (fs path)) fs fs' log) :
    EraseKept path id fs fs' ↔ (Truncated path log → Complete path log) := by
  have hwhole := h.whole_iff fun ⟨content, hcontent, hne⟩ t ht =>
    ⟨fun hsome => by
      obtain rfl : content = t := Option.some.inj (hcontent.symm.trans hsome)
      rcases ht with rfl | ⟨text, htext, hpre, -⟩
      · exact hne rfl
      · rw [hcontent] at htext
        exact htext.ne_start hpre rfl, RecordText.not_part ht⟩
  refine ⟨fun hkept => hwhole.mp hkept.whole, fun hall => ⟨hwhole.mpr hall, ?_⟩⟩
  intro home username password hlogin
  cases h with
  | before => exact hlogin
  | part _ _ hopened hcut => exact absurd (hall hopened) hcut
  | written _ htext =>
      by_cases hpath : keyFile home username = path
      · subst hpath
        exact hlogin.record htext
      · exact hlogin.congr (Function.update_of_ne hpath ..)

/-- **What an interrupted call leaves of the key file.**  The file is whole, and every
login that succeeded still does, exactly when the run has put the whole new text into
the file once it has opened it; a signup that did not return can be made again exactly
when it has not come to open the file. -/
theorem keyFile_kept_iff (mayFail : FileOp Bytes α → Prop) (fs fs' : Files Bytes α)
    (log : CallLog (Op α) Op.Res) :
    (∀ home (username password : List α) x,
      (createForSignup home username password).Runs (logged (onFiles mayFail)) (⟨fs, ()⟩, []) x
        (⟨fs', ()⟩, log) →
      (SignupKept home username password fs x fs' ↔
        (Truncated (keyFile home username) log → Complete (keyFile home username) log) ∧
        ((∀ m, x ≠ some (.ok m)) → SignupSucceeds home username password fs →
          ¬ Truncated (keyFile home username) log))) ∧
    ∀ (identity : LocalIdentityKey α) id x,
      (eraseOneTimePreKey identity id).Runs (logged (onFiles mayFail)) (⟨fs, ()⟩, []) x
        (⟨fs', ()⟩, log) →
      (EraseKept identity.keyFilePath id fs fs' ↔
        (Truncated identity.keyFilePath log → Complete identity.keyFilePath log)) := by
  constructor
  · intro home username password x hrun
    exact signupKept_iff (ensures_iff.mp ensures_createForSignup_logged _ _ hrun).1
  · intro identity id x hrun
    exact eraseKept_iff (ensures_iff.mp (ensures_eraseOneTimePreKey_logged identity) _ _ hrun).1

end Kept

/-- A signup that nothing stops, and a prekey that is being recorded when the client stops. -/
theorem keyFile_kept_iff_example : letI := plainFloats; letI := plainCrypto;
    (∃ (x : Except Exn (RegistrationKeyMaterial UInt8)) (fs' : Files Bytes UInt8) (log : _),
      (createForSignup (bytes "/home/a") (bytes "a") (bytes "p")).Runs
        (logged (onFiles fun _ => False)) (⟨fun _ => none, ()⟩, []) (some x) (⟨fs', ()⟩, log) ∧
      SignupKept (bytes "/home/a") (bytes "a") (bytes "p") (fun _ => none) (some x) fs') ∧
    ∃ (identity : LocalIdentityKey UInt8) (fs fs' : Files Bytes UInt8) (x : _) (log : _),
      (eraseOneTimePreKey identity 1).Runs (logged (onFiles fun _ => False)) (⟨fs, ()⟩, []) x
        (⟨fs', ()⟩, log) ∧
      Truncated identity.keyFilePath log ∧ ¬ Complete identity.keyFilePath log := by
  let := plainFloats
  let := plainCrypto
  have := lawfulBase64_plain
  constructor
  · obtain ⟨material, identity, file, fs, hsignup, -⟩ :=
      exists_signup (bytes "/home/a") (bytes "a") (bytes "p") (fun _ => none) (by decide)
        (by decide) rfl fun salt => ⟨_, rfl⟩
    obtain ⟨log, hrun⟩ := hsignup.logged []
    have hcomplete := (ensures_iff.mp ensures_createForSignup_logged _ _ hrun).2 _ rfl
    exact ⟨.ok material, fs, log, hrun, ((keyFile_kept_iff _ _ _ _).1 _ _ _ _ hrun).mpr
      ⟨fun _ => hcomplete (fun _ h => h) material rfl, fun h => absurd rfl (h material)⟩⟩
  · obtain ⟨identity, fs, fs', x, log, hsucceeds, hrun, hlost⟩ := exists_stopped_erase
    have hiff := (keyFile_kept_iff (fun _ => False) fs fs' log).2 identity 1 x hrun
    have hcut : ¬ (Truncated identity.keyFilePath log → Complete identity.keyFilePath log) :=
      fun h => hlost ((hiff.mpr h).logins _ _ _ hsucceeds)
    exact ⟨identity, fs, fs', x, log, hrun, Classical.not_imp.mp hcut⟩

/-- **The client stops while a prekey is being recorded**, and the user cannot log in any more. -/
theorem keyFile_not_kept : letI := plainFloats; letI := plainCrypto;
    ∃ (identity : LocalIdentityKey UInt8) (fs fs' : Files Bytes UInt8) (x : _) (log : _),
      LoginSucceeds (bytes "/home/a") (bytes "a") (bytes "p") fs ∧
      (eraseOneTimePreKey identity 1).Runs (logged (onFiles fun _ => False)) (⟨fs, ()⟩, []) x
        (⟨fs', ()⟩, log) ∧
      ¬ EraseKept identity.keyFilePath 1 fs fs' ∧
      ¬ LoginSucceeds (bytes "/home/a") (bytes "a") (bytes "p") fs' := by
  let := plainFloats
  let := plainCrypto
  obtain ⟨identity, fs, fs', x, log, hsucceeds, hrun, hlost⟩ := exists_stopped_erase
  exact ⟨identity, fs, fs', x, log, hsucceeds, hrun,
    fun hkept => hlost (hkept.logins _ _ _ hsucceeds), hlost⟩

end Kd
