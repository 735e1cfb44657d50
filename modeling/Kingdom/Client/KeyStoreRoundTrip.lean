import Kingdom.Client.KeyFile
import Kingdom.Process.Logged

/-!
# The key store gives back the keys it made

A signup makes keys, publishes a bundle and writes the key file; every later login with its
password gives the same keys, without the one-time prekeys erased since, and every login
with another password throws.

* `keyPairs` — the key pairs a run has generated, read off its log.
* `EraseRun` — logins and erased prekeys after a signup, when nothing fails.
* `openKeyFile_wrong` — another password opens nothing.
* `keyStore_roundTrip` — the round trip over every such run.
-/

namespace Kd

open Codec Process Storage Prog

variable {α : Type} [Alphabet α] [Crypto α]

/-! ## The keys that are generated -/

/-- A call that generates a key pair. -/
def IsKeyPair : Op α → Prop
  | .boxKeypair => True
  | .signKeypair => True
  | _ => False

instance : DecidablePred (IsKeyPair (α := α))
  | .boxKeypair => isTrue trivial
  | .signKeypair => isTrue trivial
  | .file _ => isFalse id
  | .random _ => isFalse id
  | .http _ => isFalse id

/-- The key pairs generated in a run, in order. -/
def keyPairs (log : CallLog (Op α) Op.Res) : CallLog (Op α) Op.Res :=
  log.filter fun c => IsKeyPair c.1

/-- The call that made a prekey. -/
def LocalPreKey.keyPair (k : LocalPreKey α) : Σ o : Op α, o.Res := ⟨.boxKeypair, k.privateKey⟩

/-- The calls that made the keys of an identity. -/
def LocalIdentityKey.keyPairs (k : LocalIdentityKey α) : CallLog (Op α) Op.Res :=
  ⟨.boxKeypair, k.privateKey⟩ :: ⟨.signKeypair, k.signingSecretKey⟩ :: k.signedPreKey.keyPair ::
    k.oneTimePreKeys.map LocalPreKey.keyPair

section Making

variable {σ : Type} {mayFail : FileOp Bytes α → Prop}
  {net : HttpRequest α → σ → Option (HttpResponse α) → σ → Prop} {w : World α σ}
  {log : CallLog (Op α) Op.Res}

omit [Alphabet α] in
theorem ensures_makePreKey_logged (id : UInt64) :
    (makePreKey id).Ensures (logged (exec mayFail net)) (fun _ => True) (w, log) fun x s =>
      s.1 = w ∧ ∃ k : LocalPreKey α, x = .ok k ∧ k.id = id ∧ k.Made ∧ s.2 = log ++ [k.keyPair] := by
  rw [makePreKey, ensures_bind, perform, ensures_logged_op]
  refine ⟨trivial, ?_⟩
  rintro r _ ⟨hr, rfl⟩
  exact ⟨trivial, trivial, rfl, _, rfl, rfl, ⟨hr, rfl⟩, rfl⟩

omit [Alphabet α] in
theorem ensures_makePreKeys_logged (ids : List UInt64) (log : CallLog (Op α) Op.Res) :
    (makePreKeys ids).Ensures (logged (exec mayFail net)) (fun _ => True) (w, log) fun x s =>
      s.1 = w ∧ ∃ ks : List (LocalPreKey α), x = .ok ks ∧ ks.map (·.id) = ids ∧
        (∀ k ∈ ks, k.Made) ∧ s.2 = log ++ ks.map LocalPreKey.keyPair := by
  induction ids generalizing log with
  | nil => exact ⟨trivial, rfl, [], rfl, rfl, by simp, by simp⟩
  | cons id ids ih =>
      rw [makePreKeys, ensures_bind]
      refine ensures_mono (ensures_makePreKey_logged id) ?_
      rintro _ ⟨w', log'⟩ ⟨hw, k, rfl, hid, hk, hlog⟩
      dsimp only at hw hlog
      subst w' log'
      dsimp only
      rw [ensures_bind]
      refine ensures_mono (ih (log ++ [k.keyPair])) ?_
      rintro _ ⟨w', log'⟩ ⟨hw, ks, rfl, hids, hks, hlog⟩
      refine ⟨trivial, hw, k :: ks, rfl, by rw [List.map_cons, hid, hids], ?_, ?_⟩
      · intro x hx
        rcases List.mem_cons.mp hx with rfl | hx
        · exact hk
        · exact hks x hx
      · rw [hlog, List.append_assoc]
        rfl

omit [Alphabet α] in
/-- **The keys of an identity are the key pairs that were generated.** -/
theorem ensures_newIdentity_logged :
    newIdentity.Ensures (logged (exec mayFail net)) (fun _ => True) (w, log) fun x s =>
      s.1 = w ∧ ∃ k : LocalIdentityKey α, x = .ok k ∧ k.Made ∧
        k.oneTimePreKeys.map (·.id) = firstIds ∧ s.2 = log ++ k.keyPairs := by
  rw [newIdentity, ensures_bind, perform, ensures_logged_op]
  refine ⟨trivial, ?_⟩
  rintro priv _ ⟨hpriv, rfl⟩
  refine ⟨trivial, ?_⟩
  dsimp only
  rw [ensures_bind, perform, ensures_logged_op]
  refine ⟨trivial, ?_⟩
  rintro sign _ ⟨hsign, rfl⟩
  refine ⟨trivial, ?_⟩
  dsimp only
  rw [ensures_bind]
  refine ensures_mono (ensures_makePreKey_logged 1) ?_
  rintro _ ⟨w', log'⟩ ⟨hw, spk, rfl, -, hspk, hlog⟩
  dsimp only at hw hlog
  subst w' log'
  dsimp only
  rw [ensures_bind]
  refine ensures_mono (ensures_makePreKeys_logged _ _) ?_
  rintro _ ⟨w', log'⟩ ⟨hw, ks, rfl, hids, hks, hlog⟩
  dsimp only at hw hlog
  subst w' log'
  refine ⟨trivial, rfl, _, rfl, ⟨hpriv, rfl, hsign, rfl, hspk, hks, ?_⟩, hids, ?_⟩
  · rw [hids]
    decide
  · simp [LocalIdentityKey.keyPairs]

/-- Storing the keys generates none. -/
theorem only_storeIdentity (username password : List α) (path : Bytes)
    (identity : LocalIdentityKey α) :
    (storeIdentity username password path identity).Only fun o => ¬ IsKeyPair o := by
  refine only_bind (only_op id) fun salt => only_bind (only_ofExcept _) fun key => ?_
  refine only_bind (only_op id) fun nonce => only_bind (only_ofExcept _) fun privateMaterial => ?_
  refine only_bind (only_ofExcept _) fun bundle => ?_
  refine only_bind (only_writeInPlace id id (fun _ => id) id (fun _ => id) _ _ _) fun _ => ?_
  exact only_bind (only_ofExcept _) fun _ => trivial

omit [Alphabet α] [Crypto α] in
theorem keyPairs_append (log log' : CallLog (Op α) Op.Res) :
    keyPairs (log ++ log') = keyPairs log ++ keyPairs log' := List.filter_append ..

omit [Alphabet α] [Crypto α] in
theorem keyPairs_of_none {log : CallLog (Op α) Op.Res} (h : ∀ c ∈ log, ¬ IsKeyPair c.1) :
    keyPairs log = [] := by
  refine List.filter_eq_nil_iff.mpr fun c hc => ?_
  simpa using h c hc

omit [Alphabet α] [Crypto α] in
theorem keyPairs_keyPairs (k : LocalIdentityKey α) : Kd.keyPairs k.keyPairs = k.keyPairs := by
  refine List.filter_eq_self.mpr fun c hc => ?_
  simp only [LocalIdentityKey.keyPairs, List.mem_cons, List.mem_map] at hc
  rcases hc with rfl | rfl | rfl | ⟨x, -, rfl⟩ <;> rfl

end Making

/-! ## A signup when nothing fails -/

section Signup

variable [LawfulBase64 α] {σ : Type}
  {net : HttpRequest α → σ → Option (HttpResponse α) → σ → Prop} {w : World α σ} {home : Bytes}
  {username password : List α}

/-- What a signup leaves: the keys it generated, their bundle and their file. -/
structure SignedUp [FloatFormat] (home : Bytes) (username password : List α)
    (identity : LocalIdentityKey α) (bundle file : Json α) (fs fs' : Files Bytes α) : Prop where
  homeSet : home ≠ []
  absent : fs (keyFile home username) = none
  isKeyFile : IsKeyFile username password identity file
  publicBundle : publicBundle identity = .ok bundle
  holds : HoldsAll (keyFile home username) file [] fs'
  others : ∀ path ≠ keyFile home username, fs' path = fs path

variable [FloatFormat]

/-- **How a signup ends** when nothing fails: it has stored the keys it generated and published
their bundle, or it throws. -/
theorem ensures_createForSignup_ends :
    (createForSignup home username password).Ensures (logged (exec (fun _ => False) net))
      (fun _ => True) (w, []) fun x s => (∃ identity bundle file text,
        x = .ok ⟨text, keyFile home username⟩ ∧ bundle.dump = some text ∧
        keyPairs s.2 = identity.keyPairs ∧
        SignedUp home username password identity bundle file w.files s.1.files) ∨
        (∃ e, x = .error e) ∧ (SignupRefused (fun _ => False) home username password w.files ∨
          validUtf8 username = false) := by
  rw [createForSignup_eq, ensures_bind, ensures_ofExcept]
  refine ⟨trivial, ?_⟩
  by_cases hhome : home = []
  · rw [defaultKeyPath, ensure, if_neg (by simpa using hhome)]
    exact .inr ⟨⟨_, rfl⟩, .inl (.inl hhome)⟩
  rw [defaultKeyPath_ok hhome]
  dsimp only
  rw [ensures_bind, fileExists, ensures_bind, perform, ensures_logged_op]
  refine ⟨trivial, ?_⟩
  rintro r w' ⟨fs, hexec, rfl⟩
  obtain ⟨rfl, rfl⟩ := FileOp.exec_reliable id hexec
  refine ⟨trivial, trivial, ?_⟩
  simp only [FileOp.answer, FileOp.effect]
  by_cases hsome : (w.files (keyFile home username)).isSome = true
  · rw [if_pos hsome]
    exact ⟨trivial, .inr ⟨⟨_, rfl⟩, .inl (.inr (.inl hsome))⟩⟩
  rw [if_neg hsome, ensures_bind]
  refine ensures_mono ensures_newIdentity_logged ?_
  rintro _ ⟨w', log⟩ ⟨hw, identity, rfl, hmade, hids, hlog⟩
  dsimp only at hw hlog
  subst w' log
  dsimp only
  refine ensures_mono (((only_storeIdentity username password (keyFile home username)
    identity).ensures_log w _).and (ensures_logged.mpr (ensures_storeIdentity (I := fun _ => True)
      (Q := fun x w' => (∃ bundle file text, x = .ok ⟨text, keyFile home username⟩ ∧
        bundle.dump = some text ∧
        SignedUp home username password identity bundle file w.files w'.files) ∨
        (∃ e, x = .error e) ∧ (SignupRefused (fun _ => False) home username password w.files ∨
          validUtf8 username = false))
      trivial hmade hids (fun _ _ _ _ => trivial) ?_ ?_ ?_ ?_))) ?_
  · exact fun salt e herr => .inr ⟨⟨e, rfl⟩, .inl (.inr (.inr (.inr ⟨salt, e, herr⟩)))⟩
  · exact fun hinvalid e => .inr ⟨⟨e, rfl⟩, .inr hinvalid⟩
  · intro file text bundle publicKeyBundle hfile htext hbundle hdump
    refine .inl ⟨bundle, file, _, rfl, hdump, hhome,
      Option.not_isSome_iff_eq_none.mp hsome, hfile, hbundle, ?_, ?_⟩
    · exact .of_text hfile (hfile.recorded_nil.symm ▸ htext) (Function.update_self ..)
    · exact fun path hpath => Function.update_of_ne hpath ..
  · rintro ⟨_, h⟩
    exact h.elim
  · rintro x ⟨w', log⟩ ⟨⟨more, hlog, hmore⟩, ⟨bundle, file, text, rfl, hdump, hsigned⟩ | hrefused⟩
    · refine .inl ⟨identity, bundle, file, text, rfl, hdump, ?_, hsigned⟩
      dsimp only at hlog
      subst log
      rw [keyPairs_append, keyPairs_append, keyPairs_of_none hmore, keyPairs_keyPairs,
        List.append_nil]
      rfl
    · exact .inr hrefused

/-- **A signup stores the keys it generates** and publishes their bundle. -/
theorem ensures_createForSignup_all (hhome : home ≠ []) (hvalid : validUtf8 username = true)
    (habsent : w.files (keyFile home username) = none)
    (hkdf : ∀ salt, ∃ key, keyEncryptionKey password salt kKdfOpsLimit kKdfMemLimit = .ok key) :
    (createForSignup home username password).Ensures (logged (exec (fun _ => False) net))
      (fun _ => True) (w, []) fun x s => ∃ identity bundle file text,
        x = .ok ⟨text, keyFile home username⟩ ∧ bundle.dump = some text ∧
        keyPairs s.2 = identity.keyPairs ∧
        SignedUp home username password identity bundle file w.files s.1.files := by
  refine ensures_mono ensures_createForSignup_ends ?_
  rintro x s (hok | ⟨-, (hempty | hsome | ⟨o, ho⟩ | ⟨salt, e, herr⟩) | hinvalid⟩)
  · exact hok
  · exact absurd hempty hhome
  · rw [habsent] at hsome
    cases hsome
  · exact ho.elim
  · obtain ⟨key, hkey⟩ := hkdf salt
    rw [hkey] at herr
    cases herr
  · rw [hvalid] at hinvalid
    cases hinvalid

end Signup

/-! ## Erased prekeys -/

section Erase

variable [FloatFormat] {σ : Type} {net : HttpRequest α → σ → Option (HttpResponse α) → σ → Prop}
  {w : World α σ} {username password : List α} {identity : LocalIdentityKey α} {file : Json α}
  {path : Bytes} {used : List UInt64} {id : UInt64}

/-- A prekey that is recorded already is not recorded again. -/
theorem ensures_recordUsed_again (hkey : IsKeyFile username password identity file)
    (hholds : HoldsAll path file used w.files) (hid : id ∈ used) :
    (recordUsed path id).Ensures (exec (fun _ => False) net) (fun _ => True) w fun x w' =>
      x = .ok () ∧ w' = w := by
  obtain ⟨text, body, hpath, hparse, hfields⟩ := hholds
  have hused : body.get? usedField = some (.arr (used.map .unsigned)) := by
    rw [hfields _ (by decide), hkey.get?_recorded, if_pos rfl]
  have hself : asObject body = .ok body := by
    cases body with
    | obj fs => rfl
    | _ => cases hused
  have hfound : alreadyRecorded id (((body.get? usedField).bind Json.arr?).getD []) = .ok true := by
    rw [hused, Option.bind_some, Json.arr?, Option.getD_some, alreadyRecorded_unsigned,
      decide_eq_true hid]
  rw [recordUsed, ensures_bind]
  refine ensures_readJsonFile trivial ?_ fun _ h => h.elim
  rw [hpath, jsonOfFile, hparse, orThrow, Option.elim_some]
  dsimp only
  rw [ensures_bind, ensures_ofExcept, hself]
  refine ⟨trivial, ?_⟩
  dsimp only
  rw [ensures_bind, ensures_ofExcept, hfound]
  exact ⟨trivial, trivial, rfl, rfl⟩

/-- **Erasing a prekey** that is in memory records its id; nothing else is recorded. -/
theorem ensures_eraseOneTimePreKey_all (hkey : IsKeyFile username password identity file)
    {k : LocalIdentityKey α} (hne : k.keyFilePath ≠ [])
    (hholds : HoldsAll k.keyFilePath file used w.files) :
    (eraseOneTimePreKey k id).Ensures (exec (fun _ => False) net) (fun _ => True) w fun x w' =>
      ∃ k' r, x = .ok (k', r) ∧ k'.keyFilePath = k.keyFilePath ∧
        ((r = .ok () ∧ (∃ x ∈ k.oneTimePreKeys, x.id = id) ∧ ∃ used',
          HoldsAll k.keyFilePath file used' w'.files ∧
            ∀ i, i ∈ used' ↔ i ∈ used ∨ i = id) ∨
          (∃ e, r = .error e) ∧ (∀ x ∈ k.oneTimePreKeys, x.id ≠ id) ∧ w'.files = w.files) := by
  rw [eraseOneTimePreKey]
  by_cases hany : k.oneTimePreKeys.any (·.id = id) = true
  · obtain ⟨key, hmem, hid⟩ := List.any_eq_true.mp hany
    have hmemory : ∃ x ∈ k.oneTimePreKeys, x.id = id := ⟨key, hmem, of_decide_eq_true hid⟩
    rw [if_pos hany, if_neg hne, ensures_bind, ensures_attempt]
    by_cases hused : id ∈ used
    · refine ensures_mono (ensures_recordUsed_again hkey hholds hused) ?_
      rintro _ _ ⟨rfl, rfl⟩
      refine ⟨trivial, _, _, rfl, rfl, .inl ⟨rfl, hmemory, used, hholds, fun i => ?_⟩⟩
      constructor
      · exact .inl
      · rintro (hi | rfl)
        · exact hi
        · exact hused
    · refine ensures_mono (ensures_recordUsed_all hkey hholds hused) ?_
      rintro _ w' ⟨rfl, hholds', -⟩
      refine ⟨trivial, _, _, rfl, rfl, .inl ⟨rfl, hmemory, _, hholds', fun i => ?_⟩⟩
      simp
  · rw [if_neg hany]
    refine ⟨trivial, _, _, rfl, rfl, .inr ⟨⟨_, rfl⟩, fun x hx hid => hany ?_, rfl⟩⟩
    exact List.any_eq_true.mpr ⟨x, hx, decide_eq_true hid⟩

end Erase

/-! ## Another password -/

section Wrong

/-- The key of a file tells the passwords apart. -/
theorem keyEncryptionKey_inj [IdealKdf α] {password password' salt salt' key : List α}
    {ops mem ops' mem' : UInt64} (h : keyEncryptionKey password salt ops mem = .ok key)
    (h' : keyEncryptionKey password' salt' ops' mem' = .ok key) : password = password' := by
  simp only [keyEncryptionKey, deriveKey, bind_ok, orThrow_ok] at h h'
  obtain ⟨secret, hsecret, hkey⟩ := h
  obtain ⟨secret', hsecret', hkey'⟩ := h'
  obtain rfl : secret = secret' := IdealKdf.hkdf_inj (hkey.trans hkey'.symm)
  exact IdealKdf.pwhash_inj (hsecret.trans hsecret'.symm)

theorem exists_keyEncryptionKey [IdealKdf α] (password salt : List α) (ops mem : UInt64) :
    ∃ key, keyEncryptionKey password salt ops mem = .ok key := by
  obtain ⟨secret, hsecret⟩ := Option.isSome_iff_exists.mp (IdealKdf.pwhash_some password salt ops mem)
  obtain ⟨key, hkey⟩ := Option.isSome_iff_exists.mp
    (IdealKdf.hkdf_some secret (lit kKeyEncryptionInfo) (base64Encode salt))
  refine ⟨key, bind_ok.mpr ⟨secret, orThrow_ok.mpr hsecret, orThrow_ok.mpr hkey⟩⟩

variable [FloatFormat] [LawfulBase64 α] [IdealAead α] [IdealKdf α] [DecidableEq α]
  {username password password' : List α} {identity : LocalIdentityKey α} {file : Json α}

/-- **Another password opens nothing.** -/
theorem openKeyFile_wrong (keyPath : Bytes) (hkey : IsKeyFile username password identity file)
    (used : List UInt64) (hne : password' ≠ password) :
    ∃ e, openKeyFile keyPath username password' (recorded file used) = .error e := by
  cases hopen : openKeyFile keyPath username password' (recorded file used) with
  | error e => exact ⟨e, rfl⟩
  | ok k =>
      obtain ⟨bundle, salt, nonce, key, privateMaterial, -, hsalt, hnonce, hkdf, -, hfile⟩ :=
        hkey.exists_eq
      obtain ⟨-, material, -, hmaterial, -⟩ := openKeyFile_ok hopen
      rw [openPrivateMaterial_newKeyFile keyPath hsalt hnonce hfile used password'] at hmaterial
      simp only [bind_ok, orThrow_ok] at hmaterial
      obtain ⟨key', hkdf', plaintext, hplaintext, -⟩ := hmaterial
      obtain ⟨-, -, -, rfl⟩ := IdealAead.decrypt_only hplaintext
      exact absurd (keyEncryptionKey_inj hkdf' hkdf) hne

variable {σ : Type} {net : HttpRequest α → σ → Option (HttpResponse α) → σ → Prop} {w : World α σ}
  {home : Bytes} {used : List UInt64}

theorem ensures_loadForLogin_wrong (hhome : home ≠ [])
    (hkey : IsKeyFile username password identity file)
    (hholds : HoldsAll (keyFile home username) file used w.files) (hne : password' ≠ password) :
    (loadForLogin home username password').Ensures (exec (fun _ => False) net) (fun _ => True) w
      fun x w' => w' = w ∧ ∃ e, x = .error e := by
  obtain ⟨text, body, hpath, hparse, hfields⟩ := hholds
  obtain ⟨e, he⟩ := openKeyFile_wrong (keyFile home username) hkey used hne
  rw [loadForLogin, ensures_bind, ensures_ofExcept, defaultKeyPath_ok hhome]
  refine ⟨trivial, ?_⟩
  dsimp only
  rw [ensures_bind]
  refine ensures_readJsonFile trivial ?_ fun _ h => h.elim
  rw [hpath, jsonOfFile, hparse, orThrow, Option.elim_some]
  dsimp only
  rw [ensures_ofExcept, openKeyFile_congr hfields, he]
  exact ⟨trivial, rfl, e, rfl⟩

end Wrong

/-! ## Logins and erased prekeys -/

section Run

variable [FloatFormat] [DecidableEq α]

/-- What a user does with the key file after a signup, when nothing fails: the identities in
memory, the ids of the prekeys erased from them, and the files. -/
inductive EraseRun (home : Bytes) (username password : List α) (fs₀ : Files Bytes α) :
    List (LocalIdentityKey α) → List UInt64 → Files Bytes α → Prop where
  | start : EraseRun home username password fs₀ [] [] fs₀
  | login {loaded erased fs k fs'} (h : EraseRun home username password fs₀ loaded erased fs)
      (hlogin : (loadForLogin home username password).Runs (onFiles fun _ => False) ⟨fs, ()⟩
        (some (.ok k)) ⟨fs', ()⟩) :
      EraseRun home username password fs₀ (loaded ++ [k]) erased fs'
  | erase {before k after erased fs id k' fs'}
      (h : EraseRun home username password fs₀ (before ++ k :: after) erased fs)
      (hcall : (eraseOneTimePreKey k id).Runs (onFiles fun _ => False) ⟨fs, ()⟩
        (some (.ok (k', .ok ()))) ⟨fs', ()⟩) :
      EraseRun home username password fs₀ (before ++ k' :: after) (erased ++ [id]) fs'
  /-- The prekey was not in memory. -/
  | missing {before k after erased fs id k' e fs'}
      (h : EraseRun home username password fs₀ (before ++ k :: after) erased fs)
      (hcall : (eraseOneTimePreKey k id).Runs (onFiles fun _ => False) ⟨fs, ()⟩
        (some (.ok (k', .error e))) ⟨fs', ()⟩) :
      EraseRun home username password fs₀ (before ++ k' :: after) erased fs'

/-- The invariant of such a run: the file records exactly the erased ids. -/
def EraseInv (path : Bytes) (file : Json α) (loaded : List (LocalIdentityKey α))
    (erased : List UInt64) (fs : Files Bytes α) : Prop :=
  (∃ used, HoldsAll path file used fs ∧ ∀ id, id ∈ used ↔ id ∈ erased) ∧
    ∀ k ∈ loaded, k.keyFilePath = path

omit [Alphabet α] [Crypto α] [FloatFormat] [DecidableEq α] in
/-- Only which ids are recorded counts. -/
theorem LocalIdentityKey.unused_congr (identity : LocalIdentityKey α) {used used' : List UInt64}
    (h : ∀ id, id ∈ used ↔ id ∈ used') (path : Bytes) :
    identity.unused used path = identity.unused used' path := by
  simp only [LocalIdentityKey.unused, h]

variable {home : Bytes} {username password : List α} {identity : LocalIdentityKey α}
  {file : Json α} {fs₀ fs : Files Bytes α} {loaded : List (LocalIdentityKey α)}
  {erased : List UInt64}

omit [DecidableEq α] in
/-- What an erase leaves of the invariant. -/
theorem EraseInv.erase {path : Bytes} {before after : List (LocalIdentityKey α)}
    {k k' : LocalIdentityKey α} {id : UInt64} {r : Except Exn Unit} {fs' : Files Bytes α}
    (hkey : IsKeyFile username password identity file) (hpath : path ≠ [])
    (h : EraseInv path file (before ++ k :: after) erased fs)
    (hcall : (eraseOneTimePreKey k id).Runs (onFiles fun _ => False) ⟨fs, ()⟩ (some (.ok (k', r)))
      ⟨fs', ()⟩) :
    EraseInv path file (before ++ k' :: after) (if r = .ok () then erased ++ [id] else erased) fs' := by
  obtain ⟨⟨used, hholds, hused⟩, hpaths⟩ := h
  have hk : k.keyFilePath = path := hpaths k (by simp)
  subst hk
  obtain ⟨_, _, heq, hpath', hend⟩ := (ensures_eraseOneTimePreKey_all hkey hpath hholds).of_runs hcall
  cases heq
  have hpaths' : ∀ x ∈ before ++ k' :: after, x.keyFilePath = k.keyFilePath := by
    intro x hx
    simp only [List.mem_append, List.mem_cons] at hx
    rcases hx with hx | rfl | hx
    · exact hpaths x (by simp [hx])
    · exact hpath'
    · exact hpaths x (by simp [hx])
  refine ⟨?_, hpaths'⟩
  rcases hend with ⟨rfl, -, used', hholds', hused'⟩ | ⟨⟨e, rfl⟩, -, hfs⟩
  · refine ⟨used', hholds', fun i => ?_⟩
    rw [hused', hused, if_pos rfl, List.mem_append, List.mem_singleton]
  · rw [if_neg (by simp)]
    dsimp only at hfs
    subst fs'
    exact ⟨used, hholds, hused⟩

variable [LawfulBase64 α] [LawfulDh α] [LawfulSigning α]

/-- **The invariant holds in every run.** -/
theorem eraseInv_run [LawfulAead α] (hhome : home ≠ [])
    (hkey : IsKeyFile username password identity file)
    (hholds : HoldsAll (keyFile home username) file [] fs₀)
    (h : EraseRun home username password fs₀ loaded erased fs) :
    EraseInv (keyFile home username) file loaded erased fs := by
  induction h with
  | start => exact ⟨⟨[], hholds, fun _ => Iff.rfl⟩, by simp⟩
  | login _ hlogin ih =>
      obtain ⟨⟨used, hholds, hused⟩, hpaths⟩ := ih
      obtain ⟨hw, hk⟩ := (ensures_loadForLogin_all (I := fun _ => True) trivial hhome hkey
        hholds).of_runs hlogin
      cases hw
      cases hk
      refine ⟨⟨used, hholds, hused⟩, fun x hx => ?_⟩
      rcases List.mem_append.mp hx with hx | hx
      · exact hpaths x hx
      · rw [List.mem_singleton.mp hx]
        rfl
  | erase _ hcall ih => exact ih.erase hkey (keyFile_ne_nil _ _) hcall
  | missing _ hcall ih =>
      have hinv := ih.erase hkey (keyFile_ne_nil _ _) hcall
      rwa [if_neg (by simp)] at hinv

/-- **The key store gives back what it made.**  When nothing fails, a signup returns the
bundle of the keys it has generated, which is accepted; and after every sequence of logins
and erased prekeys a login with the password gives these keys, without exactly the prekeys
erased, and a login with another password throws. -/
theorem keyStore_roundTrip [IdealAead α] [IdealKdf α] {x : Except Exn (RegistrationKeyMaterial α)}
    {log : CallLog (Op α) Op.Res} {fs₁ : Files Bytes α} (hhome : home ≠ [])
    (hvalid : validUtf8 username = true) (habsent : fs₀ (keyFile home username) = none)
    (hsignup : (createForSignup home username password).Runs (logged (onFiles fun _ => False))
      (⟨fs₀, ()⟩, []) (some x) (⟨fs₁, ()⟩, log)) :
    ∃ material bundle identity, x = .ok material ∧
      parseJson material.publicKeyBundle "bundle" = .ok bundle ∧ validateBundle bundle = .ok () ∧
      keyPairs log = identity.keyPairs ∧ identity.Made ∧
      identity.oneTimePreKeys.map (·.id) = firstIds ∧ publicBundle identity = .ok bundle ∧
      ∀ loaded erased fs, EraseRun home username password fs₁ loaded erased fs →
        (∀ y w, (loadForLogin home username password).Runs (onFiles fun _ => False) ⟨fs, ()⟩
          (some y) w → y = .ok { identity with
            oneTimePreKeys := identity.oneTimePreKeys.filter (·.id ∉ erased)
            keyFilePath := keyFile home username }) ∧
        ∀ password' ≠ password, ∀ y w, (loadForLogin home username password').Runs
          (onFiles fun _ => False) ⟨fs, ()⟩ (some y) w → ∃ e, y = .error e := by
  obtain ⟨identity, bundle, file, text, rfl, hdump, hpairs, hsigned⟩ :=
    (ensures_createForSignup_all hhome hvalid habsent
      fun salt => exists_keyEncryptionKey password salt _ _).of_runs hsignup
  have hkey := hsigned.isKeyFile
  have hparse : parseJson text "bundle" = .ok bundle := by
    rw [parseJson, orThrow_ok, Json.parse_dump hdump (wf_publicBundle hsigned.publicBundle),
      norm_publicBundle hsigned.publicBundle]
    refine Option.filter_some_pos ?_
    have hbundle := hsigned.publicBundle
    simp only [publicBundle, bind_ok, pure_ok] at hbundle
    obtain ⟨-, -, rfl⟩ := hbundle
    exact Json.isObject_mkObj _
  refine ⟨_, bundle, identity, rfl, hparse, validateBundle_publicBundle hkey.made
    hsigned.publicBundle, hpairs, hkey.made, hkey.ids, hsigned.publicBundle, ?_⟩
  intro loaded erased fs hrun
  obtain ⟨⟨used, hholds, hused⟩, -⟩ := eraseInv_run hhome hkey hsigned.holds hrun
  constructor
  · intro y w hlogin
    obtain ⟨-, rfl⟩ := (ensures_loadForLogin_all (I := fun _ => True) trivial hhome hkey
      hholds).of_runs hlogin
    rw [identity.unused_congr hused]
    rfl
  · intro password' hne y w hlogin
    exact ((ensures_loadForLogin_wrong hhome hkey hholds hne).of_runs hlogin).2

end Run

/-- A user signs up, logs in, uses up the first prekey, logs in again and mistypes the password. -/
theorem keyStore_roundTrip_example : letI := plainFloats; letI := plainCrypto;
    ∃ (identity k k' : LocalIdentityKey UInt8) (fs fs' : Files Bytes UInt8) (log : _) (x : _),
      (createForSignup (bytes "/home/a") (bytes "a") (bytes "p")).Runs
        (logged (onFiles fun _ => False)) (⟨fun _ => none, ()⟩, []) (some x) (⟨fs, ()⟩, log) ∧
      keyPairs log = identity.keyPairs ∧
      EraseRun (bytes "/home/a") (bytes "a") (bytes "p") fs [k, k'] [1] fs' ∧
      k' = { identity with
        oneTimePreKeys := identity.oneTimePreKeys.filter (·.id ∉ [1])
        keyFilePath := keyFile (bytes "/home/a") (bytes "a") } ∧
      ∃ e w, (loadForLogin (bytes "/home/a") (bytes "a") (bytes "q")).Runs (onFiles fun _ => False)
        ⟨fs', ()⟩ (some (.error e)) w := by
  let := plainFloats
  let := plainCrypto
  have := lawfulBase64_plain
  have := lawfulDh_plain
  have := lawfulSigning_plain
  have := idealAead_plain
  have := idealKdf_plain
  let fs₀ : Files Bytes UInt8 := fun _ => none
  have habsent : fs₀ (keyFile (bytes "/home/a") (bytes "a")) = none := rfl
  obtain ⟨x, ⟨⟨fs, ⟨⟩⟩, log⟩, hsignup⟩ := Prog.exists_runs
    (logged_total (onFiles_total fun _ => False))
    (createForSignup (bytes "/home/a") (bytes "a") (bytes "p"))
    ((⟨fs₀, ()⟩ : World UInt8 Unit), [])
  obtain ⟨material, bundle, identity, -, -, -, hpairs, -, hids, -, hlogins⟩ :=
    keyStore_roundTrip (by decide) (by decide) habsent hsignup
  obtain ⟨y, ⟨fs₁, ⟨⟩⟩, hlogin⟩ := Prog.exists_runs (onFiles_total fun _ => False)
    (loadForLogin (bytes "/home/a") (bytes "a") (bytes "p")) (⟨fs, ()⟩ : World UInt8 Unit)
  have hy := (hlogins _ _ _ .start).1 _ _ hlogin
  obtain ⟨k₁, hk₁⟩ : ∃ k₁ : LocalIdentityKey UInt8, k₁ = { identity with
    oneTimePreKeys := identity.oneTimePreKeys.filter (·.id ∉ [])
    keyFilePath := keyFile (bytes "/home/a") (bytes "a") } := ⟨_, rfl⟩
  rw [← hk₁] at hy
  subst hy
  have hfirst := EraseRun.start.login hlogin
  have hpath : k₁.keyFilePath = keyFile (bytes "/home/a") (bytes "a") := by rw [hk₁]
  -- the prekey is in memory, so that the erase succeeds
  obtain ⟨_, _, file, _, -, -, -, hsigned⟩ :=
    (ensures_createForSignup_all (by decide) (by decide) habsent
      fun salt => exists_keyEncryptionKey (bytes "p") salt _ _).of_runs hsignup
  obtain ⟨⟨used, hholds, -⟩, -⟩ := eraseInv_run (by decide) hsigned.isKeyFile hsigned.holds hfirst
  obtain ⟨z, ⟨fs₂, ⟨⟩⟩, herase⟩ := Prog.exists_runs (onFiles_total fun _ => False)
    (eraseOneTimePreKey k₁ 1) (⟨fs₁, ()⟩ : World UInt8 Unit)
  rw [← hpath] at hholds
  obtain ⟨k, r, rfl, -, hend⟩ := (ensures_eraseOneTimePreKey_all hsigned.isKeyFile
    (by rw [hpath]; exact keyFile_ne_nil _ _) hholds).of_runs herase
  obtain rfl : r = .ok () := by
    rcases hend with ⟨hok, -⟩ | ⟨-, hmissing, -⟩
    · exact hok
    · have hmem : (1 : UInt64) ∈ identity.oneTimePreKeys.map (·.id) := by
        rw [hids]
        decide
      obtain ⟨key, hkey, hid⟩ := List.mem_map.mp hmem
      exact absurd hid (hmissing key (by simpa [hk₁] using hkey))
  have hsecond : EraseRun _ _ _ fs ([] ++ k :: []) ([] ++ [1]) fs₂ := EraseRun.erase hfirst herase
  -- it is gone at the next login
  obtain ⟨y, ⟨fs', ⟨⟩⟩, hlogin'⟩ := Prog.exists_runs (onFiles_total fun _ => False)
    (loadForLogin (bytes "/home/a") (bytes "a") (bytes "p")) (⟨fs₂, ()⟩ : World UInt8 Unit)
  obtain rfl := (hlogins _ _ _ hsecond).1 _ _ hlogin'
  have hthird := hsecond.login hlogin'
  obtain ⟨z, w, hwrong⟩ := Prog.exists_runs (onFiles_total fun _ => False)
    (loadForLogin (bytes "/home/a") (bytes "a") (bytes "q")) (⟨fs', ()⟩ : World UInt8 Unit)
  obtain ⟨e, rfl⟩ := (hlogins _ _ _ hthird).2 _ (by decide) _ _ hwrong
  exact ⟨identity, k, _, fs, fs', log, x, hsignup, hpairs, hthird, rfl, e, w, hwrong⟩

end Kd
