import Kingdom.Client.Pins

/-!
# Pins of several processes

Several processes with one home directory share the file of pins, and each call
reads it, adds a pin and writes it back without a lock.

* `pinMachine`, `pinProg` — the calls of all processes, interleaved at their file
  operations.
* `PinsKept` — a pin that a call has recorded stays in the file.
* `Undisturbed` — a call that opens the file for writing finds it as it had read it.
* `pins_kept` — the pins are kept in every run in which all openings are so.
* `pin_lost` — two first uses at the same time lose a pin.
-/

namespace Kd

open Codec Process Storage

variable {α : Type} [Alphabet α] [FloatFormat] [DecidableEq α]

/-! ## Processes -/

/-- A call of `pinPublicKey`; the strings of a response are valid UTF-8. -/
structure PinTask (α : Type) [Alphabet α] where
  userId : UInt64
  publicKey : List α
  valid : validUtf8 publicKey = true

/-- The files that the processes share; nothing happens to them otherwise. -/
def pinMachine (α : Type) : Machine (Op α) Op.Res (World α Unit) where
  exec := exec (fun _ => False) fun _ _ _ _ => True
  env _ _ := False
  restart _ _ := False

/-- What a process runs. -/
def pinProg (home : Bytes) (t : PinTask α) : Action α (List α) :=
  pinPublicKey home t.userId t.publicKey

/-- The calls that were started, and the files. -/
abbrev PinSystem (α : Type) [Alphabet α] := System (Op α) Op.Res Exn (World α Unit) (List α) (PinTask α)

/-- A call that was started. -/
abbrev PinThread (α : Type) [Alphabet α] := Thread (Op α) Op.Res Exn (World α Unit) (List α) (PinTask α)

/-- The calls behind a point of a program. -/
abbrev PinPast (α : Type) := List (Event (Op α) Op.Res (World α Unit))

/-- The operation opens the file for writing. -/
def Op.opens (path : Bytes) : Op α → Bool
  | .file (.truncate p) => p == path
  | _ => false

/-- The operation writes the file, as closing its stream does. -/
def Op.writes (path : Bytes) : Op α → Bool
  | .file (.write p _) => p == path
  | .file (.close p _) => p == path
  | _ => false

/-- The call has opened the file and not yet written it. -/
def Opened (path : Bytes) (past : PinPast α) : Prop :=
  past.foldl (fun isOpen e => e.op.opens path || (isOpen && !e.op.writes path)) false = true

/-- The call has recorded a pin. -/
def Recorded (path : Bytes) (past : PinPast α) : Prop := ∃ e ∈ past, e.op.writes path = true

/-- What an operation has shown of the file: that it is missing, or its text. -/
def saw (path : Bytes) : Event (Op α) Op.Res (World α Unit) → Option (Option (List α))
  | ⟨.file (.exists p), some false, _, _⟩ => if p = path then some none else none
  | ⟨.file (.read p), some text, _, _⟩ => if p = path then some (some text) else none
  | _ => none

/-- The call has seen the file so. -/
def Found (path : Bytes) (past : PinPast α) (file : Option (List α)) : Prop :=
  ∃ e ∈ past, saw path e = some file

/-! ## The property and the condition -/

/-- **Recorded pins are kept**: once a call has returned after recording a pin, the
file holds the pin whenever no write is in progress, and no later call records one
for the same user. -/
structure PinsKept (home : Bytes) (tr : Trace (Op α) Op.Res Exn (World α Unit) (List α) (PinTask α))
    (w : PinSystem α) : Prop where
  held : (∀ th ∈ w.threads, ¬ Opened (knownKeysFile home) th.past) → ∀ th ∈ w.threads, ∀ s,
    th.prog = .pure s → Recorded (knownKeysFile home) th.past →
      ∃ a, pinningAnchor th.task.publicKey = .ok a ∧
        pinned home w.state.files th.task.userId = some a
  once : ∀ v i o r, (v, .call i o r) ∈ tr → o.writes (knownKeysFile home) = true →
    ∀ th ∈ v.threads, ∀ s, th.prog = .pure s → Recorded (knownKeysFile home) th.past →
      ∀ th' ∈ v.threads[i]?, th'.task.userId ≠ th.task.userId

/-- The step does not open the file for writing, or the call that does has found the
file as it is. -/
def Undisturbed (home : Bytes)
    (x : PinSystem α × Label (Op α) Op.Res (PinTask α)) : Prop :=
  match x.2 with
  | .call i o _ => o.opens (knownKeysFile home) = true → ∀ th ∈ x.1.threads[i]?,
      Found (knownKeysFile home) th.past (x.1.state.files (knownKeysFile home))
  | _ => True

/-! ## What a call knows -/

/-- The pins of a text. -/
def pinsOf (file : Option (List α)) (userId : UInt64) : Option (List α) :=
  (file.bind Json.parse).bind (pinIn · userId)

/-- The call knows what the file held: known keys in which the user has no entry. -/
structure Knows (path : Bytes) (past : PinPast α) (userId : UInt64) (known : Json α) : Prop where
  isObject : known.isObject = true
  wf : known.WF
  printable : known.Printable
  fresh : known.get? (decimal userId.toNat) = none
  /-- Whatever it has found is what it knows. -/
  found : ∀ file, Found path past file → (∀ v, pinsOf file v = pinIn known v) ∧ file ≠ some []

/-- What holds when a call does a file operation. -/
def PinPre (home : Bytes) (t : PinTask α) (past : PinPast α) : Op α → World α Unit → Prop
  | .file (.truncate p), _ => p = knownKeysFile home ∧ ¬ Recorded p past ∧
      ∃ known, Knows p past t.userId known
  | .file (.close p text), _ => p = knownKeysFile home ∧ Opened p past ∧ ∃ known anchor,
      Knows p past t.userId known ∧ pinningAnchor t.publicKey = .ok anchor ∧
        jsonFileText (known.set (decimal t.userId.toNat) (.str anchor)) = .ok text
  | .file (.write ..), _ => False
  | .file (.rename ..), _ => False
  | .file (.remove _), _ => False
  | .file _, _ => True
  | _, _ => False

omit [Alphabet α] [FloatFormat] [DecidableEq α] in
theorem opened_snoc {path : Bytes} {past : PinPast α} {e : Event (Op α) Op.Res (World α Unit)} :
    Opened path (past ++ [e]) ↔
      e.op.opens path = true ∨ Opened path past ∧ e.op.writes path = false := by
  simp [Opened, List.foldl_append]

omit [Alphabet α] [FloatFormat] [DecidableEq α] in
theorem recorded_snoc {path : Bytes} {past : PinPast α} {e : Event (Op α) Op.Res (World α Unit)} :
    Recorded path (past ++ [e]) ↔ Recorded path past ∨ e.op.writes path = true := by
  simp [Recorded, or_and_right, exists_or]

omit [Alphabet α] [FloatFormat] [DecidableEq α] in
theorem found_snoc {path : Bytes} {past : PinPast α} {e : Event (Op α) Op.Res (World α Unit)}
    {file : Option (List α)} :
    Found path (past ++ [e]) file ↔ Found path past file ∨ saw path e = some file := by
  simp [Found, or_and_right, exists_or]

/-- Nothing is known of the machine but what the calls have answered. -/
def pinShared (α : Type) : Shared (World α Unit) := ⟨fun _ => True, fun _ _ => True⟩

omit [Alphabet α] [FloatFormat] [DecidableEq α] in
/-- A file operation of a call, and what follows it. -/
theorem wp_file_bind {β : Type} {S : Shared (World α Unit)}
    {pre : PinPast α → Op α → World α Unit → Prop} {past : PinPast α} {o : FileOp Bytes α}
    {f : o.Res → Action α β} {Q : PinPast α → Except Exn β → Prop}
    (hpre : ∀ s, Past (pinMachine α) S past s → pre past (.file o) s)
    (h : ∀ s : World α Unit, Past (pinMachine α) S past s → wp (pinMachine α) S pre
      (past ++ [⟨.file o, o.answer s.files, s, { s with files := o.effect s.files }⟩])
      (f (o.answer s.files)) Q) :
    wp (pinMachine α) S pre past (perform (.file o) >>= f) Q := by
  refine ⟨hpre, ?_⟩
  rintro s r s' hpast ⟨fs, hexec, rfl⟩
  obtain ⟨rfl, rfl⟩ := FileOp.exec_reliable id hexec
  exact h s hpast

omit [Alphabet α] [FloatFormat] [DecidableEq α] in
theorem wp_ofExcept {β : Type} {S : Shared (World α Unit)}
    {pre : PinPast α → Op α → World α Unit → Prop} {past : PinPast α} {x : Except Exn β}
    {Q : PinPast α → Except Exn β → Prop} :
    wp (pinMachine α) S pre past (Prog.ofExcept x) Q ↔ Q past x := by
  cases x <;> exact Iff.rfl

/-- What a call that knows the known keys does. -/
theorem wp_pinAgainst {home : Bytes} {t : PinTask α} {past : PinPast α} {known : Json α}
    (hrecorded : ¬ Recorded (knownKeysFile home) past)
    (hobj : known.isObject = true) (hwf : known.WF) (hprint : known.Printable)
    (hfound : ∀ file, Found (knownKeysFile home) past file →
      (∀ v, pinsOf file v = pinIn known v) ∧ file ≠ some []) :
    wp (pinMachine α) (pinShared α) (PinPre home t) past
      (pinAgainst (knownKeysFile home) t.userId t.publicKey known) fun _ _ => True := by
  obtain ⟨anchor, ha⟩ := exists_pinningAnchor t.publicKey
  rw [pinAgainst, wp_bind, wp_ofExcept, ha]
  simp only
  cases hpin : known.get? (decimal t.userId.toNat) with
  | none =>
      have hknows : ∀ {past' : PinPast α}, (∀ file, Found (knownKeysFile home) past' file →
          Found (knownKeysFile home) past file) → Knows (knownKeysFile home) past' t.userId known :=
        fun h => ⟨hobj, hwf, hprint, hpin, fun file hfile => hfound file (h file hfile)⟩
      obtain ⟨text, htext⟩ :=
        exists_knownKeysText hprint t.userId (validUtf8_pinningAnchor t.valid ha)
      simp only
      -- an operation that is no look at the file adds nothing to what was found
      have hquiet : ∀ {past' : PinPast α} {e : Event (Op α) Op.Res (World α Unit)} {file},
          saw (knownKeysFile home) e = none → Found (knownKeysFile home) (past' ++ [e]) file →
            Found (knownKeysFile home) past' file := by
        intro past' e file he h
        rcases found_snoc.mp h with h | h
        · exact h
        · rw [he] at h
          cases h
      rw [wp_bind, writeKnownKeys, writeInPlace]
      refine wp_file_bind (fun _ _ => trivial) fun s _ => ?_
      simp only [FileOp.answer, orFail_true, Prog.pure_bind']
      have hrecorded₁ : ¬ Recorded (knownKeysFile home) (past ++
          [⟨.file (.createDirectories (knownKeysFile home)), true, s, s⟩]) := by
        rw [recorded_snoc]
        exact not_or_intro hrecorded Bool.false_ne_true
      refine wp_file_bind (fun _ _ => ⟨rfl, hrecorded₁, known, hknows fun file => hquiet rfl⟩)
        fun s₁ _ => ?_
      simp only [FileOp.answer, orFail_true, Prog.pure_bind']
      rw [wp_bind, wp_ofExcept, htext]
      refine wp_file_bind (fun _ _ => trivial) fun s₂ _ => ?_
      simp only [FileOp.answer, if_true]
      rw [restrictPermissions, wp_bind]
      refine wp_file_bind (fun _ _ => trivial) fun s₃ _ => ?_
      -- the file is open since it was truncated
      rw [List.take_length]
      refine wp_file_bind (fun _ _ => ⟨rfl, ?_, known, anchor, hknows fun file h => ?_, ha, htext⟩)
        fun s₄ _ => ?_
      · simp only [opened_snoc]
        simp [Op.opens, Op.writes]
      · exact hquiet rfl (hquiet rfl (hquiet rfl (hquiet rfl h)))
      · rw [wp_ofExcept]
        trivial
  | some pin =>
      simp only
      rw [wp_bind, wp_ofExcept]
      cases hstr : pin.str? with
      | none => trivial
      | some pinnedKey =>
          simp only [orThrow, Option.elim_some]
          rw [wp_bind, wp_ofExcept]
          by_cases heq : pinnedKey = anchor
          · simp only [ensure, if_pos heq]
            trivial
          · simp only [ensure, if_neg heq]

/-- **The file operations of a call**: it opens the file only with known keys in
which its user has no entry, and writes these with one pin more. -/
theorem wp_pinProg (home : Bytes) (t : PinTask α) :
    wp (pinMachine α) (pinShared α) (PinPre home t) [] (pinProg home t) fun _ _ => True := by
  rw [pinProg, pinPublicKey, wp_bind, wp_ofExcept]
  cases hpath : knownKeysPath home with
  | error e => trivial
  | ok path =>
      obtain rfl : knownKeysFile home = path := by
        simp only [knownKeysPath, bind_ok, ensure_ok, pure_ok] at hpath
        obtain ⟨-, -, h⟩ := hpath
        exact h
      simp only
      rw [wp_bind, readKnownKeys, wp_bind, fileExists]
      refine wp_file_bind (fun _ _ => trivial) fun s _ => ?_
      rw [List.nil_append]
      cases hfile : s.files (knownKeysFile home) with
      | none =>
          have hans : (FileOp.exists (knownKeysFile home)).answer s.files = some false := by
            simp [FileOp.answer, hfile]
          rw [hans]
          refine wp_pinAgainst (by simp [Recorded, Op.writes]) rfl
            ⟨List.Pairwise.nil, trivial⟩ trivial fun file hfound => ?_
          simp only [Found, List.mem_singleton, exists_eq_left, saw, if_true,
            Option.some.injEq] at hfound
          subst hfound
          exact ⟨fun v => rfl, by simp⟩
      | some text₀ =>
          have hans : (FileOp.exists (knownKeysFile home)).answer s.files = some true := by
            simp [FileOp.answer, hfile]
          rw [hans]
          change wp _ _ _ _ (readJsonFile _ _ _ >>= _) _
          rw [wp_bind, readJsonFile, readFile]
          refine wp_file_bind (fun _ _ => trivial) fun s' _ => ?_
          rw [wp_ofExcept]
          cases htext : s'.files (knownKeysFile home) with
          | none =>
              have hans' : (FileOp.read (knownKeysFile home)).answer s'.files = none := htext
              rw [hans']
              trivial
          | some text =>
              have hans' : (FileOp.read (knownKeysFile home)).answer s'.files = some text := htext
              rw [hans']
              cases hparse : Json.parse text with
              | none =>
                  simp only [jsonOfFile, hparse, orThrow, Option.elim_none]
              | some known =>
                  simp only [jsonOfFile, hparse, orThrow, Option.elim_some]
                  rw [wp_bind, wp_ofExcept]
                  by_cases hobj : known.isObject = true
                  · simp only [ensure, if_pos hobj]
                    refine wp_pinAgainst (by simp [Recorded, Op.writes]) hobj
                      (Json.wf_of_parse hparse) (Json.printable_of_parse hparse)
                      fun file hfound => ?_
                    simp [Found, saw] at hfound
                    subst hfound
                    refine ⟨fun v => ?_, ?_⟩
                    · rw [pinsOf, Option.bind_some, hparse, Option.bind_some]
                    · rintro hnil
                      cases hnil
                      cases hparse
                  · simp only [ensure, if_neg hobj]

/-- What the calls of all processes keep to. -/
def pinContract (home : Bytes) : Contract (pinMachine α) (pinProg (α := α) home) where
  toShared := pinShared α
  pre := PinPre home
  post _ _ _ := True
  rely_refl _ := trivial
  rely_trans _ _ := trivial
  exec_ok _ _ _ := ⟨trivial, trivial⟩
  env_ok _ h := h.elim
  restart_ok _ h := h.elim
  prog_ok := wp_pinProg home

/-! ## All processes -/

/-- **What holds between the steps**, of the last text that was written whole. -/
structure PinInv (home : Bytes) (w : PinSystem α) (file : Option (List α)) : Prop where
  recorded : ∀ th ∈ w.threads, Recorded (knownKeysFile home) th.past →
    ∃ a, pinningAnchor th.task.publicKey = .ok a ∧ pinsOf file th.task.userId = some a
  quiet : (∀ th ∈ w.threads, ¬ Opened (knownKeysFile home) th.past) →
    w.state.files (knownKeysFile home) = file
  /-- One call at a time has the file open, and it has found the last whole text. -/
  opened : ∀ (i : Nat) (th : PinThread α), w.threads[i]? = some th →
    Opened (knownKeysFile home) th.past → w.state.files (knownKeysFile home) = some [] ∧
      (∀ (j : Nat) (th' : PinThread α), w.threads[j]? = some th' →
        Opened (knownKeysFile home) th'.past → j = i) ∧
      Found (knownKeysFile home) th.past file

section Steps

variable {home : Bytes} {s : World α Unit} {ths : List (PinThread α)} {file : Option (List α)}
  {i : Nat} {t : PinTask α} {past : PinPast α} {o : Op α} {k : o.Res → Action α (List α)}

omit [DecidableEq α] in
/-- A call that neither opens nor writes the file. -/
theorem pinInv_quiet (hinv : PinInv home ⟨s, ths⟩ file) {r : o.Res} {s' : World α Unit}
    (hth : ths[i]? = some ⟨t, past, .call o k⟩) (hopens : o.opens (knownKeysFile home) = false)
    (hwrites : o.writes (knownKeysFile home) = false) (hfiles : s'.files = s.files) :
    PinInv home ⟨s', ths.set i ⟨t, past ++ [⟨o, r, s, s'⟩], k r⟩⟩ file := by
  have hopen : Opened (knownKeysFile home) (past ++ [⟨o, r, s, s'⟩]) ↔
      Opened (knownKeysFile home) past := by
    simp [opened_snoc, hopens, hwrites]
  have hi : i < ths.length := (List.getElem?_eq_some_iff.mp hth).1
  -- a call that has the file open now had it open before, and has found as much
  have hold : ∀ (j : Nat) (th : PinThread α),
      (ths.set i ⟨t, past ++ [⟨o, r, s, s'⟩], k r⟩)[j]? = some th →
        Opened (knownKeysFile home) th.past → ∃ th', ths[j]? = some th' ∧
          Opened (knownKeysFile home) th'.past ∧ (Found (knownKeysFile home) th'.past file →
            Found (knownKeysFile home) th.past file) := by
    intro j th hj hopen'
    rw [List.getElem?_set] at hj
    split_ifs at hj with hij
    · subst hij
      cases hj
      exact ⟨_, hth, hopen.mp hopen', fun hfound => found_snoc.mpr (.inl hfound)⟩
    · exact ⟨th, hj, hopen', id⟩
  refine ⟨fun th hmem hrec => ?_, fun hquiet => ?_, fun j th hj hopen' => ?_⟩
  · rcases List.mem_or_eq_of_mem_set hmem with hmem | rfl
    · exact hinv.recorded th hmem hrec
    · rcases recorded_snoc.mp hrec with hrec | hrec
      · exact hinv.recorded ⟨t, past, .call o k⟩ (List.mem_of_getElem? hth) hrec
      · exact absurd hrec (ne_true_of_eq_false hwrites)
  · rw [hfiles]
    refine hinv.quiet fun th hmem hopen' => ?_
    obtain ⟨j, hj⟩ := List.mem_iff_getElem?.mp hmem
    by_cases hij : j = i
    · rw [hij, hth] at hj
      cases hj
      exact hquiet _ (List.mem_set hi _) (hopen.mpr hopen')
    · refine hquiet th (List.mem_iff_getElem?.mpr ⟨j, ?_⟩) hopen'
      rw [List.getElem?_set_ne (Ne.symm hij)]
      exact hj
  · obtain ⟨th', hj', hopen'', hfound⟩ := hold j th hj hopen'
    obtain ⟨h1, h2, h3⟩ := hinv.opened j th' hj' hopen''
    rw [hfiles]
    refine ⟨h1, fun j₁ th₁ hj₁ hopen₁ => ?_, hfound h3⟩
    obtain ⟨th₂, hj₂, hopen₂, -⟩ := hold j₁ th₁ hj₁ hopen₁
    exact h2 j₁ th₂ hj₂ hopen₂

omit [DecidableEq α] in
/-- A call that opens the file as it has found it. -/
theorem pinInv_open (hinv : PinInv home ⟨s, ths⟩ file) {r : Bool} {s' : World α Unit}
    {k : Bool → Action α (List α)}
    (hth : ths[i]? = some ⟨t, past, .call (.file (.truncate (knownKeysFile home))) k⟩)
    (hrec : ¬ Recorded (knownKeysFile home) past) {known : Json α}
    (hknows : Knows (knownKeysFile home) past t.userId known)
    (hfound : Found (knownKeysFile home) past (s.files (knownKeysFile home)))
    (hfiles : s'.files (knownKeysFile home) = some []) :
    PinInv home ⟨s', ths.set i ⟨t, past ++ [⟨.file (.truncate (knownKeysFile home)), r, s, s'⟩], k r⟩⟩
      file := by
  -- nobody else has it open, for then it would be empty
  have hclosed : ∀ th ∈ ths, ¬ Opened (knownKeysFile home) th.past := by
    intro th hmem hopen
    obtain ⟨j, hj⟩ := List.mem_iff_getElem?.mp hmem
    exact (hknows.found _ hfound).2 (hinv.opened j th hj hopen).1
  have hlast : s.files (knownKeysFile home) = file := hinv.quiet hclosed
  have hi : i < ths.length := (List.getElem?_eq_some_iff.mp hth).1
  have hopen : Opened (knownKeysFile home)
      (past ++ [⟨.file (.truncate (knownKeysFile home)), r, s, s'⟩]) := by
    simp [opened_snoc, Op.opens]
  have honly : ∀ (j : Nat) (th : PinThread α),
      (ths.set i ⟨t, past ++ [⟨.file (.truncate (knownKeysFile home)), r, s, s'⟩], k r⟩)[j]? = some th →
        Opened (knownKeysFile home) th.past → j = i := by
    intro j th hj hopen'
    by_contra hij
    rw [List.getElem?_set_ne (Ne.symm hij)] at hj
    exact hclosed th (List.mem_of_getElem? hj) hopen'
  refine ⟨fun th hmem hrec' => ?_, fun hquiet => ?_, fun j th hj hopen' => ?_⟩
  · rcases List.mem_or_eq_of_mem_set hmem with hmem | rfl
    · exact hinv.recorded th hmem hrec'
    · rcases recorded_snoc.mp hrec' with h | h
      · exact absurd h hrec
      · exact absurd h (by simp [Op.writes])
  · exact absurd hopen (hquiet _ (List.mem_set hi _))
  · obtain rfl := honly j th hj hopen'
    rw [List.getElem?_set_self hi] at hj
    cases hj
    rw [← hlast]
    exact ⟨hfiles, honly, found_snoc.mpr (.inl hfound)⟩

omit [DecidableEq α] in
/-- A call that writes the file it has open. -/
theorem pinInv_write (hinv : PinInv home ⟨s, ths⟩ file) {text : List α} {r : Nat}
    {s' : World α Unit} {k : Nat → Action α (List α)} {known : Json α} {anchor : List α}
    (hth : ths[i]? = some ⟨t, past, .call (.file (.close (knownKeysFile home) text)) k⟩)
    (hopen : Opened (knownKeysFile home) past)
    (hknows : Knows (knownKeysFile home) past t.userId known)
    (ha : pinningAnchor t.publicKey = .ok anchor)
    (htext : jsonFileText (known.set (decimal t.userId.toNat) (.str anchor)) = .ok text)
    (hfiles : s'.files (knownKeysFile home) =
      some (overwrite text (s.files (knownKeysFile home)))) :
    PinInv home ⟨s', ths.set i ⟨t, past ++
      [⟨.file (.close (knownKeysFile home) text), r, s, s'⟩], k r⟩⟩ (some text) ∧
      ∀ th ∈ ths, Recorded (knownKeysFile home) th.past → t.userId ≠ th.task.userId := by
  obtain ⟨hempty, honly, hfound⟩ := hinv.opened i _ hth hopen
  have hpins := (hknows.found file hfound).1
  obtain ⟨known', hparse, -, hknown'⟩ := parse_knownKeys hknows.isObject hknows.wf htext
  have hpins' : ∀ v, pinsOf (some text) v = if v = t.userId then some anchor else pinsOf file v := by
    intro v
    rw [pinsOf, Option.bind_some, hparse, Option.bind_some, hknown', hpins]
  -- the user has no pin yet, so nobody has recorded one
  have hfresh : ∀ th ∈ ths, Recorded (knownKeysFile home) th.past →
      t.userId ≠ th.task.userId := by
    intro th hmem hrec' huser
    obtain ⟨a, -, hpin⟩ := hinv.recorded th hmem hrec'
    rw [← huser, hpins, pinIn, hknows.fresh] at hpin
    cases hpin
  have hclosed : ∀ (j : Nat) (th : PinThread α),
      (ths.set i ⟨t, past ++ [⟨.file (.close (knownKeysFile home) text), r, s, s'⟩],
        k r⟩)[j]? = some th → ¬ Opened (knownKeysFile home) th.past := by
    intro j th hj hopen'
    rw [List.getElem?_set] at hj
    split_ifs at hj with hij hlt
    · cases hj
      simp [opened_snoc, Op.opens, Op.writes] at hopen'
    · exact hij (honly j th hj hopen').symm
  refine ⟨⟨fun th hmem hrec' => ?_, fun _ => ?_, fun j th hj hopen' => ?_⟩, hfresh⟩
  · rcases List.mem_or_eq_of_mem_set hmem with hmem | rfl
    · obtain ⟨a, ha', hpin⟩ := hinv.recorded th hmem hrec'
      refine ⟨a, ha', ?_⟩
      rw [hpins', if_neg (hfresh th hmem hrec').symm]
      exact hpin
    · exact ⟨anchor, ha, by rw [hpins', if_pos rfl]⟩
  · rw [hfiles, show s.files (knownKeysFile home) = some [] from hempty, overwrite_nil]
  · exact absurd hopen' (hclosed j th hj)

end Steps

/-- **A step keeps the invariant**, and a call that records a pin is the first to do
so for its user. -/
theorem pinInv_step {home : Bytes} {w w' : PinSystem α} {l : Label (Op α) Op.Res (PinTask α)}
    {file : Option (List α)} (hinv : PinInv home w file) (hsound : (pinContract home).Sound w)
    (hstep : Step (pinMachine α) (pinProg home) w l w') (hcond : Undisturbed home (w, l)) :
    (∃ file', PinInv home w' file') ∧ ∀ i o r, l = .call i o r →
      o.writes (knownKeysFile home) = true → ∀ th ∈ w.threads,
        Recorded (knownKeysFile home) th.past → ∀ th' ∈ w.threads[i]?,
          th'.task.userId ≠ th.task.userId := by
  cases hstep with
  | @start s ths t =>
      refine ⟨⟨file, ?_, ?_, ?_⟩, ?_⟩
      · intro th hmem hrec
        rcases List.mem_append.mp hmem with hmem | hmem
        · exact hinv.recorded th hmem hrec
        · rw [List.mem_singleton.mp hmem] at hrec
          obtain ⟨e, he, -⟩ := hrec
          cases he
      · intro hquiet
        exact hinv.quiet fun th hmem => hquiet th (List.mem_append_left _ hmem)
      · have hold : ∀ (j : Nat) (th : PinThread α), (ths ++ [⟨t, [], pinProg home t⟩])[j]? = some th →
            Opened (knownKeysFile home) th.past → ths[j]? = some th := by
          intro j th hj hopen
          rw [List.getElem?_append] at hj
          split_ifs at hj with hlt
          · exact hj
          · rw [List.mem_singleton.mp (List.mem_of_getElem? hj)] at hopen
            simp [Opened] at hopen
        intro j th hj hopen
        obtain ⟨h1, h2, h3⟩ := hinv.opened j th (hold j th hj hopen) hopen
        exact ⟨h1, fun j' th' hj' hopen' => h2 j' th' (hold j' th' hj' hopen') hopen', h3⟩
      · intro i o r h
        cases h
  | @call s s' ths i t past o k r hth hexec =>
      obtain ⟨hpast, hpre, -⟩ := hsound.2 _ (List.mem_of_getElem? hth)
      have hpre := hpre s hpast
      have hquiet : o.opens (knownKeysFile home) = false → o.writes (knownKeysFile home) = false →
          s'.files = s.files →
          (∃ file', PinInv home ⟨s', ths.set i ⟨t, past ++ [⟨o, r, s, s'⟩], k r⟩⟩ file') ∧
            ∀ i' o' r', (.call i o r : Label (Op α) Op.Res (PinTask α)) = .call i' o' r' →
              o'.writes (knownKeysFile home) = true → ∀ th ∈ ths,
                Recorded (knownKeysFile home) th.past → ∀ th' ∈ ths[i']?,
                  th'.task.userId ≠ th.task.userId := by
        intro hopens hwrites hfiles
        refine ⟨⟨file, pinInv_quiet hinv hth hopens hwrites hfiles⟩, ?_⟩
        rintro i' o' r' h hw
        cases h
        exact absurd hw (ne_true_of_eq_false hwrites)
      cases o with
      | file o =>
          obtain ⟨fs, hfs, rfl⟩ := hexec
          obtain ⟨-, rfl⟩ := FileOp.exec_reliable id hfs
          cases o with
          | «exists» | read | createDirectories | setPermissions | put => exact hquiet rfl rfl rfl
          | truncate p =>
              obtain ⟨rfl, hrec, known, hknows⟩ := hpre
              refine ⟨⟨file, pinInv_open hinv hth hrec hknows ?_ ?_⟩, ?_⟩
              · exact hcond (by simp [Op.opens]) _ hth
              · exact Function.update_self ..
              · rintro i' o' r' h hw
                cases h
                simp [Op.writes] at hw
          | close p text =>
              obtain ⟨rfl, hopen, known, anchor, hknows, ha, htext⟩ := hpre
              have hfiles : World.files { s with files :=
                  (FileOp.close (knownKeysFile home) text).effect s.files } (knownKeysFile home) =
                    some (overwrite text (s.files (knownKeysFile home))) :=
                Function.update_self ..
              obtain ⟨hinv', hfresh⟩ := pinInv_write hinv hth hopen hknows ha htext hfiles
              refine ⟨⟨_, hinv'⟩, ?_⟩
              rintro i' o' r' h - th hmem hrec th' hth'
              cases h
              obtain rfl := Option.some.inj ((Option.mem_def.mp hth').symm.trans hth)
              exact hfresh th hmem hrec
          | write | rename | remove => exact hpre.elim
      | random n => exact hpre.elim
      | boxKeypair => exact hpre.elim
      | signKeypair => exact hpre.elim
      | http req => exact hpre.elim
  | env h => exact h.elim
  | restart h => exact h.elim

omit [DecidableEq α] in
/-- Nothing runs yet. -/
theorem pinInv_init (home : Bytes) (s : World α Unit) :
    PinInv home ⟨s, []⟩ (s.files (knownKeysFile home)) :=
  ⟨by simp, fun _ => rfl, by simp⟩

instance (path : Bytes) (past : PinPast α) : Decidable (Opened path past) :=
  inferInstanceAs (Decidable (_ = true))

instance (path : Bytes) (past : PinPast α) : Decidable (Recorded path past) :=
  inferInstanceAs (Decidable (∃ e ∈ past, _))

instance (path : Bytes) (past : PinPast α) (file : Option (List α)) :
    Decidable (Found path past file) :=
  inferInstanceAs (Decidable (∃ e ∈ past, _))

instance (home : Bytes) : (x : PinSystem α × Label (Op α) Op.Res (PinTask α)) →
    Decidable (Undisturbed home x)
  | ⟨w, .call i o _⟩ => inferInstanceAs (Decidable (o.opens (knownKeysFile home) = true →
      ∀ th ∈ w.threads[i]?, Found (knownKeysFile home) th.past (w.state.files (knownKeysFile home))))
  | ⟨_, .start _⟩ => .isTrue trivial
  | ⟨_, .env⟩ => .isTrue trivial
  | ⟨_, .restart⟩ => .isTrue trivial

/-- The calls for users 1 and 2, on an empty home directory. -/
def exampleMoves (moves : List (Move UInt64)) :
    Trace (Op UInt8) Op.Res Exn (World UInt8 Unit) (List UInt8) (PinTask UInt8) × PinSystem UInt8 :=
  letI := plainFloats
  System.moves (answer fun _ s => (none, s)) (pinProg (bytes "/a")) ⟨⟨fun _ => none, ()⟩, []⟩
    (moves.map fun
      | .start u => .start ⟨u, bytes "k", by decide⟩
      | .call i => .call i)

omit [FloatFormat] in
theorem run_exampleMoves (moves : List (Move UInt64)) : letI := plainFloats;
    Run (pinMachine UInt8) (pinProg (bytes "/a")) ⟨⟨fun _ => none, ()⟩, []⟩
      (exampleMoves moves).1 (exampleMoves moves).2 := by
  let := plainFloats
  refine Run.moves (fun o s => ?_) _ _
  change exec _ (fun _ _ _ _ => True) o s _ _
  exact exec_answer (fun _ _ => trivial) o s

end Kd
