import Kingdom.Client.KeyStoreRoundTrip
import Kingdom.Client.Pins

/-!
# The local files of two users

The key files of all users and the file of the pins are in one directory, and the name of a
key file is the username with most characters replaced.

* `keyFile_eq_iff`, `keyFile_eq_knownKeysFile` — which names share a file.
* `ensures_leaves`, `ensures_on` — a program that works on one file leaves the others.
* `ensures_on_congr` — what it does depends on that file only.
* `Independent` — two users sign up from one home directory, and both log in.
* `independent_iff` — this is so exactly when the replaced names differ, and neither is that
  of the file of the pins.
-/

namespace Kd

open Codec Process Storage Prog

variable {α : Type} [Alphabet α]

/-! ## Paths -/

theorem pathAppend_inj {p q q' : Bytes} (h : pathAppend p q = pathAppend p q') : q = q' := by
  unfold pathAppend at h
  split at h
  · exact List.append_cancel_left h
  · exact List.tail_eq_of_cons_eq (List.append_cancel_left h)

/-- Key files are told apart by the names after the replacement. -/
theorem keyFile_eq_iff {home : Bytes} {username username' : List α} :
    keyFile home username = keyFile home username' ↔
      sanitizedUsername username = sanitizedUsername username' := by
  constructor
  · intro h
    exact List.append_cancel_right (List.append_cancel_left (pathAppend_inj h))
  · intro h
    rw [keyFile, keyFile, h]

/-- One name is that of the file of the pins. -/
theorem keyFile_eq_knownKeysFile {home : Bytes} {username : List α} :
    keyFile home username = knownKeysFile home ↔
      sanitizedUsername username = bytes "known_keys" := by
  have hpins : bytes ".kingdom/keys/known_keys.json" =
      bytes ".kingdom/keys/" ++ (bytes "known_keys" ++ bytes ".json") := by decide
  rw [knownKeysFile, hpins]
  constructor
  · intro h
    exact List.append_cancel_right (List.append_cancel_left (pathAppend_inj h))
  · intro h
    rw [keyFile, h]

/-! ## Programs on one file -/

/-- The effect is on no other file. -/
def Op.On (path : Bytes) : Op α → Prop
  | .file o => o.On path
  | _ => True

section On

variable {β σ : Type} {mayFail : FileOp Bytes α → Prop}
  {net : HttpRequest α → σ → Option (HttpResponse α) → σ → Prop} {path : Bytes} {p : Action α β}

/-- The effect reads a file, or is on another one. -/
def Op.Leaves (path : Bytes) : Op α → Prop
  | .file (.exists _) => True
  | .file (.read _) => True
  | .file o => ∃ q ≠ path, o.On q
  | _ => True

omit [Alphabet α] in
theorem Op.On.leaves {o : Op α} {q : Bytes} (h : o.On q) (hq : q ≠ path) : o.Leaves path := by
  cases o with
  | file o => cases o <;> first | trivial | exact ⟨q, hq, h⟩
  | random | boxKeypair | signKeypair | http => trivial

omit [Alphabet α] in
theorem Op.Leaves.exec {o : Op α} {w w' : World α σ} {r : o.Res} (h : o.Leaves path)
    (hexec : exec mayFail net o w r w') : w'.files path = w.files path := by
  cases o with
  | file o =>
      obtain ⟨fs, hfs, rfl⟩ := hexec
      cases o with
      | «exists» | read => rcases hfs with ⟨-, rfl⟩ | ⟨-, -, rfl⟩ <;> rfl
      | createDirectories | truncate | write | put | close | rename | setPermissions | remove =>
          obtain ⟨q, hq, hon⟩ := h
          exact hfs.other hon hq.symm
  | random | boxKeypair | signKeypair =>
      obtain ⟨-, rfl⟩ := hexec
      rfl
  | http =>
      obtain ⟨s, -, rfl⟩ := hexec
      rfl

omit [Alphabet α] in
/-- **A program of such effects leaves the file.** -/
theorem ensures_leaves (h : p.Only (Op.Leaves path)) (w : World α σ) :
    p.Ensures (exec mayFail net) (fun w' => w'.files path = w.files path) w
      fun _ w' => w'.files path = w.files path :=
  h.ensures_same (fun w => w.files path) (fun _ _ _ _ ho hexec => ho.exec hexec) w

omit [Alphabet α] in
theorem only_leaves {q : Bytes} (h : p.Only (Op.On q)) (hq : q ≠ path) :
    p.Only (Op.Leaves path) :=
  only_mono h fun _ ho => ho.leaves hq

omit [Alphabet α] in
/-- **A program on one file leaves the others.** -/
theorem ensures_on (h : p.Only (Op.On path)) {q : Bytes} (hq : q ≠ path) (w : World α σ) :
    p.Ensures (exec mayFail net) (fun w' => w'.files q = w.files q) w
      fun _ w' => w'.files q = w.files q :=
  ensures_leaves (only_leaves h hq.symm) w

omit [Alphabet α] in
theorem ensures_others (h : p.Only (Op.On path)) (w : World α σ) :
    p.Ensures (exec mayFail net) (fun _ => True) w fun _ w' => ∀ q ≠ path, w'.files q = w.files q := by
  refine ensures_iff.mpr fun x w' hrun => ⟨trivial, fun y hy q hq => ?_⟩
  subst hy
  exact (ensures_on h hq w).of_runs hrun

omit [Alphabet α] in
/-- **What it does depends on that file only.** -/
theorem ensures_on_congr (h : p.Only (Op.On path)) {Q : Except Exn β → Option (List α) → Prop}
    {w w' : World α σ} (hfile : w'.files path = w.files path) (hserver : w'.server = w.server)
    (hensures : p.Ensures (exec mayFail net) (fun _ => True) w fun x w => Q x (w.files path)) :
    p.Ensures (exec mayFail net) (fun _ => True) w' fun x w => Q x (w.files path) := by
  induction p generalizing w w' with
  | pure a =>
      refine ⟨trivial, ?_⟩
      dsimp only
      rw [hfile]
      exact hensures.2
  | fail e =>
      refine ⟨trivial, ?_⟩
      dsimp only
      rw [hfile]
      exact hensures.2
  | call o k ih =>
      refine ⟨trivial, fun r w'' hexec => ?_⟩
      cases o with
      | file o =>
          obtain ⟨fs, hfs, rfl⟩ := hexec
          obtain ⟨gs, hgs, heq⟩ := FileOp.Exec.congr hfs h.1 hfile.symm
          have hexec : exec mayFail net (.file o) w r { w with files := gs } := ⟨gs, hgs, rfl⟩
          exact ih r (h.2 r) (w := { w with files := gs }) heq.symm hserver (hensures.2 r _ hexec)
      | random | boxKeypair | signKeypair =>
          obtain ⟨hr, rfl⟩ := hexec
          exact ih r (h.2 r) hfile hserver (hensures.2 r w ⟨hr, rfl⟩)
      | http req =>
          obtain ⟨s, hs, rfl⟩ := hexec
          rw [hserver] at hs
          have hexec : exec mayFail net (.http req) w r { w with server := s } := ⟨s, hs, rfl⟩
          exact ih r (h.2 r) (w := { w with server := s }) hfile rfl (hensures.2 r _ hexec)

omit [Alphabet α] in
/-- How its runs can end depends on that file only. -/
theorem runs_on_congr (h : p.Only (Op.On path)) {R : Except Exn β → Prop} {fs fs' : Files Bytes α}
    (hfile : fs' path = fs path)
    (hruns : ∀ x w, p.Runs (onFiles mayFail) ⟨fs, ()⟩ (some x) w → R x) :
    ∀ x w, p.Runs (onFiles mayFail) ⟨fs', ()⟩ (some x) w → R x := by
  have hensures : p.Ensures (onFiles mayFail) (fun _ => True) ⟨fs, ()⟩ fun x _ => R x := by
    refine ensures_iff.mpr fun x w hrun => ⟨trivial, fun y hy => ?_⟩
    subst hy
    exact hruns y w hrun
  have hensures' : p.Ensures (onFiles mayFail) (fun _ => True) ⟨fs', ()⟩ fun x _ => R x :=
    ensures_on_congr (Q := fun x _ => R x) (w := ⟨fs, ()⟩) h hfile rfl hensures
  exact fun x w hrun => hensures'.of_runs hrun

end On

section Calls

variable [Crypto α]

omit [Crypto α] in
theorem only_writeInPlace_on {path : Bytes} (openError writeError : String) (body : Json α) :
    (writeInPlace openError writeError path body).Only (Op.On path) :=
  only_writeInPlace (by exact rfl) (by exact rfl) (fun _ => by exact rfl) (by exact rfl)
    (fun _ => by exact rfl) _ _ _

/-- **A signup works on the key file only.** -/
theorem only_createForSignup (home : Bytes) (username password : List α) :
    (createForSignup home username password).Only (Op.On (keyFile home username)) := by
  rw [createForSignup_eq]
  by_cases hhome : home = []
  · rw [defaultKeyPath, ensure, if_neg (by simpa using hhome)]
    trivial
  rw [defaultKeyPath_ok hhome]
  refine only_bind (p := fileExists (keyFile home username)) (only_fileExists (by exact rfl))
    fun found => ?_
  cases found with
  | true => trivial
  | false =>
      refine only_bind (only_newIdentity trivial trivial) fun identity => ?_
      refine only_bind (only_op trivial) fun salt => only_bind (only_ofExcept _) fun key => ?_
      refine only_bind (only_op trivial) fun nonce => only_bind (only_ofExcept _) fun _ => ?_
      refine only_bind (only_ofExcept _) fun bundle => ?_
      refine only_bind (only_writeInPlace_on _ _ _) fun _ => ?_
      exact only_bind (only_ofExcept _) fun _ => trivial

/-- **A login reads the key file only.** -/
theorem only_loadForLogin [FloatFormat] [DecidableEq α] (home : Bytes) (username password : List α) :
    (loadForLogin home username password).Only (Op.On (keyFile home username)) := by
  rw [loadForLogin]
  by_cases hhome : home = []
  · rw [defaultKeyPath, ensure, if_neg (by simpa using hhome)]
    trivial
  rw [defaultKeyPath_ok hhome]
  exact only_bind (p := readKeyFile (keyFile home username)) (only_readJsonFile (by exact rfl) _ _)
    fun _ => only_ofExcept _

omit [Crypto α] in
/-- Pinning a key calls nothing but the file of the pins. -/
theorem only_pinPublicKey [FloatFormat] [DecidableEq α] {P : Op α → Prop} {home : Bytes}
    (hP : ∀ o : FileOp Bytes α, o.On (knownKeysFile home) → P (.file o)) (userId : UInt64)
    (publicKey : List α) : (pinPublicKey home userId publicKey).Only P := by
  rw [pinPublicKey]
  by_cases hhome : home = []
  · rw [knownKeysPath, ensure, if_neg (by simpa using hhome)]
    trivial
  have hpath : knownKeysPath home = .ok (knownKeysFile home) := by
    rw [knownKeysPath, ensure, if_pos hhome]
    rfl
  rw [hpath]
  refine only_bind (p := readKnownKeys (knownKeysFile home)) ?_ fun known => ?_
  · refine only_bind (only_fileExists (hP _ rfl)) fun found => ?_
    cases found with
    | false => trivial
    | true =>
        exact only_bind (only_readJsonFile (hP _ rfl) _ _) fun _ =>
          only_bind (only_ofExcept _) fun _ => trivial
  · refine only_bind (only_ofExcept _) fun anchor => ?_
    cases known.get? (decimal userId.toNat) with
    | none =>
        exact only_bind (only_writeInPlace (hP _ rfl) (hP _ rfl) (fun _ => hP _ rfl) (hP _ rfl)
          (fun _ => hP _ rfl) _ _ _) fun _ => trivial
    | some pin =>
        exact only_bind (only_ofExcept _) fun _ => only_bind (only_ofExcept _) fun _ => trivial

omit [Crypto α] in
/-- **Pinning works on the file of the pins only.** -/
theorem only_getPublicKey [FloatFormat] [DecidableEq α] (client : Client α) (home : Bytes)
    (userId : UInt64) : (getPublicKey client home userId).Only (Op.On (knownKeysFile home)) := by
  refine only_bind (only_op trivial) fun response => ?_
  cases response with
  | none => trivial
  | some res =>
      dsimp only
      by_cases hstatus : res.status = 200
      · rw [if_pos hstatus]
        exact only_bind (only_ofExcept _) fun publicKey =>
          only_pinPublicKey (fun _ ho => ho) userId publicKey
      · rw [if_neg hstatus]
        trivial

end Calls

/-! ## Two users in one home directory -/

section Users

variable [Crypto α] [FloatFormat] [DecidableEq α]

/-- Alone the signup returns, whatever it generates. -/
def SignupWorks (home : Bytes) (username password : List α) (fs : Files Bytes α) : Prop :=
  ∀ x w, (createForSignup home username password).Runs (onFiles fun _ => False) ⟨fs, ()⟩ (some x) w →
    ∃ material, x = .ok material

/-- A login gives these keys. -/
def LoadsOwn (home : Bytes) (username password : List α) (k : LocalIdentityKey α)
    (fs : Files Bytes α) : Prop :=
  ∀ x w, (loadForLogin home username password).Runs (onFiles fun _ => False) ⟨fs, ()⟩ (some x) w →
    x = .ok { k with keyFilePath := keyFile home username }

/-- A signup, with the log of what it generated. -/
abbrev SignupRun (home : Bytes) (username password : List α) (fs : Files Bytes α)
    (x : Except Exn (RegistrationKeyMaterial α)) (fs' : Files Bytes α)
    (log : CallLog (Op α) Op.Res) : Prop :=
  (createForSignup home username password).Runs (logged (onFiles fun _ => False)) (⟨fs, ()⟩, [])
    (some x) (⟨fs', ()⟩, log)

/-- One user signs up and then another, with keys pinned in between and afterwards: both
signups return, each login gives the keys its own signup generated, and no key file is the
file of the pins. -/
structure Independent (home : Bytes) (username password username' password' : List α)
    (fs₀ : Files Bytes α) : Prop where
  notPins : keyFile home username ≠ knownKeysFile home
  notPins' : keyFile home username' ≠ knownKeysFile home
  signups : ∀ x fs₁ log pins fs₂ x' fs₃ log' pins' fs₄,
    SignupRun home username password fs₀ x fs₁ log → PinRun home fs₁ pins fs₂ →
    SignupRun home username' password' fs₂ x' fs₃ log' → PinRun home fs₃ pins' fs₄ →
    ∃ material material' k k', x = .ok material ∧ x' = .ok material' ∧
      keyPairs log = k.keyPairs ∧ keyPairs log' = k'.keyPairs ∧
      LoadsOwn home username password k fs₄ ∧ LoadsOwn home username' password' k' fs₄

variable {home : Bytes} {username password username' password' : List α} {fs fs' : Files Bytes α}

omit [DecidableEq α] [FloatFormat] in
/-- Whether a signup works depends on its own key file only. -/
theorem SignupWorks.congr (h : SignupWorks home username password fs)
    (hfile : fs' (keyFile home username) = fs (keyFile home username)) :
    SignupWorks home username password fs' :=
  runs_on_congr (only_createForSignup home username password) hfile h

/-- So does what a login gives. -/
theorem LoadsOwn.congr {k : LocalIdentityKey α} (h : LoadsOwn home username password k fs)
    (hfile : fs' (keyFile home username) = fs (keyFile home username)) :
    LoadsOwn home username password k fs' :=
  runs_on_congr (only_loadForLogin home username password) hfile h

omit [Crypto α] in
/-- Pinning leaves the other files. -/
theorem PinRun.other {pins : List (PinCall α)} (h : PinRun home fs pins fs') {path : Bytes}
    (hpath : path ≠ knownKeysFile home) : fs' path = fs path := by
  induction h with
  | nil => rfl
  | snoc _ hcall ih =>
      exact ((ensures_on (only_getPublicKey _ _ _) hpath _).of_runs hcall).trans ih

variable [LawfulBase64 α] [LawfulDh α] [LawfulSigning α] [LawfulAead α]

/-- **A signup that works** generates the keys that its user can load, and leaves the other
files. -/
theorem SignupWorks.run {x : Except Exn (RegistrationKeyMaterial α)}
    {log : CallLog (Op α) Op.Res} (h : SignupWorks home username password fs)
    (hrun : SignupRun home username password fs x fs' log) :
    ∃ material k, x = .ok material ∧ keyPairs log = k.keyPairs ∧
      LoadsOwn home username password k fs' ∧ (fs' (keyFile home username)).isSome = true ∧
      ∀ path ≠ keyFile home username, fs' path = fs path := by
  have hensures : (createForSignup home username password).Ensures (onFiles fun _ => False)
      (fun _ => True) ⟨fs, ()⟩ fun x _ => ∃ material, x = .ok material := by
    refine ensures_iff.mpr fun x w hrun => ⟨trivial, fun y hy => ?_⟩
    subst hy
    exact h y w hrun
  obtain ⟨material, rfl⟩ := (ensures_logged.mpr hensures).of_runs hrun
  obtain ⟨k, bundle, file, text, -, -, hpairs, hsigned⟩ | ⟨⟨e, herr⟩, -⟩ :=
    ensures_createForSignup_ends.of_runs hrun
  · refine ⟨material, k, rfl, hpairs, fun x w hlogin => ?_, ?_, hsigned.others⟩
    · obtain ⟨-, rfl⟩ := (ensures_loadForLogin_all (I := fun _ => True) trivial hsigned.homeSet
        hsigned.isKeyFile hsigned.holds).of_runs hlogin
      simp [LocalIdentityKey.unused]
    · obtain ⟨text, body, htext, -⟩ := hsigned.holds
      dsimp only at htext
      rw [htext]
      rfl
  · cases herr

omit [FloatFormat] [DecidableEq α] [LawfulDh α] [LawfulSigning α] [LawfulAead α] in
/-- Every username that is text can sign up where it has no file. -/
theorem signupWorks [FloatFormat] [IdealKdf α] (hhome : home ≠ []) (hvalid : validUtf8 username = true)
    (habsent : fs (keyFile home username) = none) : SignupWorks home username password fs := by
  intro x w hrun
  obtain ⟨log, hlogged⟩ := hrun.logged []
  obtain ⟨k, bundle, file, text, rfl, -⟩ := (ensures_createForSignup_all hhome hvalid habsent
    fun salt => exists_keyEncryptionKey password salt _ _).of_runs hlogged
  exact ⟨_, rfl⟩

/-- Two users with different files do not disturb each other. -/
theorem independent_of_ne (h : SignupWorks home username password fs)
    (h' : SignupWorks home username' password' fs)
    (hne : sanitizedUsername username ≠ sanitizedUsername username')
    (hpins : sanitizedUsername username ≠ bytes "known_keys")
    (hpins' : sanitizedUsername username' ≠ bytes "known_keys") :
    Independent home username password username' password' fs := by
  have hfile : keyFile home username ≠ keyFile home username' := fun h => hne (keyFile_eq_iff.mp h)
  have hpin : keyFile home username ≠ knownKeysFile home := fun h =>
    hpins (keyFile_eq_knownKeysFile.mp h)
  have hpin' : keyFile home username' ≠ knownKeysFile home := fun h =>
    hpins' (keyFile_eq_knownKeysFile.mp h)
  refine ⟨hpin, hpin', ?_⟩
  intro x fs₁ log pins fs₂ x' fs₃ log' pins' fs₄ hsignup hpinned hsignup' hpinned'
  obtain ⟨material, k, rfl, hlog, hloads, -, hother⟩ := h.run hsignup
  -- the second user's file is still what it was
  have hsecond : SignupWorks home username' password' fs₂ := h'.congr (by
    rw [hpinned.other hpin', hother _ hfile.symm])
  obtain ⟨material', k', rfl, hlog', hloads', -, hother'⟩ := hsecond.run hsignup'
  refine ⟨material, material', k, k', rfl, rfl, hlog, hlog', hloads.congr ?_,
    hloads'.congr (hpinned'.other hpin')⟩
  rw [hpinned'.other hpin, hother' _ hfile, hpinned.other hpin]

/-- A user whose file is that of another cannot sign up after the other. -/
theorem not_independent_of_eq (h : SignupWorks home username password fs)
    (hsame : keyFile home username = keyFile home username') :
    ¬ Independent home username password username' password' fs := by
  intro hone
  obtain ⟨x, ⟨⟨fs₁, ⟨⟩⟩, log⟩, hsignup⟩ := exists_runs (logged_total (onFiles_total fun _ => False))
    (createForSignup home username password) ((⟨fs, ()⟩ : World α Unit), [])
  obtain ⟨x', ⟨⟨fs₂, ⟨⟩⟩, log'⟩, hsignup'⟩ := exists_runs
    (logged_total (onFiles_total fun _ => False))
    (createForSignup home username' password') ((⟨fs₁, ()⟩ : World α Unit), [])
  obtain ⟨material, k, rfl, -, -, hsome, -⟩ := h.run hsignup
  obtain ⟨_, material', _, _, -, rfl, -⟩ := hone.signups _ _ _ _ _ _ _ _ _ _ hsignup (.nil fs₁)
    hsignup' (.nil fs₂)
  -- a signup that returns has found no file
  obtain ⟨k', bundle, file, text, -, -, -, hsigned⟩ | ⟨⟨e, herr⟩, -⟩ :=
    ensures_createForSignup_ends.of_runs hsignup'
  · have habsent : fs₁ (keyFile home username') = none := hsigned.absent
    rw [← hsame] at habsent
    rw [habsent] at hsome
    cases hsome
  · cases herr

/-- **Two users are independent** exactly when the names of their key files differ from each
other and from that of the file of the pins. -/
theorem independent_iff (h : SignupWorks home username password fs)
    (h' : SignupWorks home username' password' fs) :
    (Independent home username password username' password' fs ∧
      Independent home username' password' username password fs) ↔
      sanitizedUsername username ≠ sanitizedUsername username' ∧
        sanitizedUsername username ≠ bytes "known_keys" ∧
        sanitizedUsername username' ≠ bytes "known_keys" := by
  constructor
  · rintro ⟨hone, -⟩
    refine ⟨fun hsame => ?_, fun hpins => hone.notPins (keyFile_eq_knownKeysFile.mpr hpins),
      fun hpins => hone.notPins' (keyFile_eq_knownKeysFile.mpr hpins)⟩
    exact not_independent_of_eq h (keyFile_eq_iff.mpr hsame) hone
  · rintro ⟨hne, hpins, hpins'⟩
    exact ⟨independent_of_ne h h' hne hpins hpins', independent_of_ne h' h hne.symm hpins' hpins⟩

end Users

/-- Two users with names that differ in a letter. -/
theorem independent_iff_example : letI := plainFloats; letI := plainCrypto;
    Independent (bytes "/home/a") (bytes "a") (bytes "p") (bytes "b" : List UInt8) (bytes "q")
      (fun _ => none) ∧
    Independent (bytes "/home/a") (bytes "b") (bytes "q") (bytes "a" : List UInt8) (bytes "p")
      (fun _ => none) := by
  let := plainFloats
  let := plainCrypto
  have := lawfulBase64_plain
  have := lawfulDh_plain
  have := lawfulSigning_plain
  have := lawfulAead_plain
  have := idealKdf_plain
  exact (independent_iff (signupWorks (by decide) (by decide) rfl)
    (signupWorks (by decide) (by decide) rfl)).mpr (by decide)

/-- Two users whose names differ where one has a blank and the other an underscore. -/
theorem not_independent : letI := plainFloats; letI := plainCrypto;
    SignupWorks (bytes "/home/a") (bytes "a b" : List UInt8) (bytes "p") (fun _ => none) ∧
    SignupWorks (bytes "/home/a") (bytes "a_b" : List UInt8) (bytes "q") (fun _ => none) ∧
    ¬ Independent (bytes "/home/a") (bytes "a b") (bytes "p") (bytes "a_b" : List UInt8) (bytes "q")
      (fun _ => none) := by
  let := plainFloats
  let := plainCrypto
  have := lawfulBase64_plain
  have := lawfulDh_plain
  have := lawfulSigning_plain
  have := lawfulAead_plain
  have := idealKdf_plain
  have hworks : SignupWorks (bytes "/home/a") (bytes "a b" : List UInt8) (bytes "p") fun _ => none :=
    signupWorks (by decide) (by decide) rfl
  exact ⟨hworks, signupWorks (by decide) (by decide) rfl,
    not_independent_of_eq hworks (keyFile_eq_iff.mpr (by decide))⟩

end Kd
