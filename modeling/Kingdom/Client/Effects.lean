import Kingdom.Client.Crypto
import Kingdom.Codec.JsonPrefix
import Kingdom.Process.Logged
import Kingdom.Storage.Files

/-!
# Effects of the client

What the client does beside computing: it reads and writes files, draws random
bytes and key pairs, and sends HTTP requests.

* `Exn` — its exceptions.
* `Op`, `Action` — the effects, and the programs that have them.
* `readJsonFile`, `writeInPlace` — the file access the modules of the library
  share, with the texts of their errors as parameters.
* `World`, `exec` — the files and the network a program runs on; `answer` is one
  way to run it.
* `ensures_readJsonFile`, `ensures_writeInPlace` — what the file access does, also
  when an operation fails or the process stops on the way.
-/

namespace Kd

open Codec Process Storage

/-- Paths and other strings that hold nothing but bytes. -/
abbrev Bytes := List UInt8

/-- The exceptions of the client: `std::runtime_error` with its text, those of
the JSON library, and those of `std::filesystem`. -/
inductive Exn where
  | runtimeError (what : Bytes)
  | jsonError
  | filesystemError
  deriving DecidableEq, Repr

/-- An HTTP request; a client that is not logged in sends an empty token. -/
structure HttpRequest (α : Type) where
  method : Bytes
  path : Bytes
  authToken : List α
  body : List α

/-- An HTTP response. -/
structure HttpResponse (α : Type) where
  status : Nat
  body : List α

/-- The effects of the client. -/
inductive Op (α : Type) where
  | file (o : FileOp Bytes α)
  | random (n : Nat)
  | boxKeypair
  | signKeypair
  | http (req : HttpRequest α)

/-- What an effect answers: random bytes, the private half of a key pair, or the
response when there is one. -/
abbrev Op.Res {α : Type} : Op α → Type
  | .file o => o.Res
  | .random _ => List α
  | .boxKeypair => List α
  | .signKeypair => List α
  | .http _ => Option (HttpResponse α)

/-- A function of the client. -/
abbrev Action (α β : Type) := Prog (Op α) Op.Res Exn β

variable {α β : Type}

/-- Have one effect. -/
def perform (o : Op α) : Action α o.Res := Prog.op o

/-- Answer, or throw a `std::runtime_error`. -/
def orThrow (what : Bytes) (x : Option β) : Except Exn β := x.elim (.error (.runtimeError what)) .ok

/-- Answer, or throw an exception of the JSON library. -/
def orJsonError (x : Option β) : Except Exn β := x.elim (.error .jsonError) .ok

/-- Throw unless the condition holds. -/
def ensure (holds : Prop) [Decidable holds] (e : Exn) : Except Exn Unit :=
  if holds then .ok () else .error e

/-- A computation with exceptions returns when its steps do. -/
theorem bind_ok {γ : Type} {x : Except Exn β} {f : β → Except Exn γ} {c : γ} :
    (x >>= f) = .ok c ↔ ∃ b, x = .ok b ∧ f b = .ok c := by
  cases x with
  | ok b =>
      constructor
      · intro h
        exact ⟨b, rfl, h⟩
      · rintro ⟨b', h, h'⟩
        cases h
        exact h'
  | error e =>
      constructor
      · intro h
        cases h
      · rintro ⟨b', h, -⟩
        cases h

/-- A computation that goes on in another way still succeeds, when what follows does. -/
theorem exists_bind {γ δ : Type} {x : Except Exn β} {f : β → Except Exn γ} {g : β → Except Exn δ}
    {c : γ} (h : (x >>= f) = .ok c) (hnext : ∀ b, f b = .ok c → ∃ d, g b = .ok d) :
    ∃ d, (x >>= g) = .ok d := by
  obtain ⟨b, hb, hf⟩ := bind_ok.mp h
  obtain ⟨d, hd⟩ := hnext b hf
  exact ⟨d, bind_ok.mpr ⟨b, hb, hd⟩⟩

@[simp] theorem ok_bind {γ : Type} (b : β) (f : β → Except Exn γ) :
    ((Except.ok b : Except Exn β) >>= f) = f b := rfl

@[simp] theorem error_bind {γ : Type} (e : Exn) (f : β → Except Exn γ) :
    ((Except.error e : Except Exn β) >>= f) = .error e := rfl

theorem pure_ok {b c : β} : (pure b : Except Exn β) = .ok c ↔ b = c := by
  constructor
  · intro h
    exact Except.ok.inj h
  · intro h
    exact congrArg Except.ok h

theorem orThrow_ok {what : Bytes} {x : Option β} {b : β} : orThrow what x = .ok b ↔ x = some b := by
  cases x <;> simp [orThrow]

theorem orJsonError_ok {x : Option β} {b : β} : orJsonError x = .ok b ↔ x = some b := by
  cases x <;> simp [orJsonError]

theorem ensure_ok {holds : Prop} [Decidable holds] {e : Exn} {u : Unit} :
    ensure holds e = .ok u ↔ holds := by
  by_cases h : holds <;> simp [ensure, h]

/-! ## JSON access -/

section Access

/-- `at(k)` -/
def at' (j : Json α) (k : String) : Except Exn (Json α) := orJsonError (j.get? (bytes k))

theorem at'_mkObj (fs : List (String × Json α)) (k : String) : at' (.mkObj fs) k =
    orJsonError (Json.lookup (bytes k) (fs.map fun p => (bytes p.1, p.2)).reverse) := by
  rw [at', Json.get?_mkObj]

/-- `get<std::string>()` -/
def getString (j : Json α) : Except Exn (List α) := orJsonError j.str?

variable [FloatFormat]

/-- `get<uint64_t>()` -/
def getUInt64 (j : Json α) : Except Exn UInt64 := orJsonError j.uint64?

/-- `get<unsigned long long>()` -/
def getUnsignedLongLong (j : Json α) : Except Exn UInt64 := orJsonError j.unsignedLongLong?

/-- `get<int>()` -/
def getInt (j : Json α) : Except Exn Int32 := orJsonError j.int?

/-- `value(k, d)` of an object, with a conversion. -/
def valueOr {β : Type} (get : Json α → Except Exn β) (j : Json α) (k : String) (d : β) :
    Except Exn β :=
  if j.isObject then (j.get? (bytes k)).elim (.ok d) get else .error .jsonError

end Access

/-! ## Files -/

section Files

/-- `p / q`, for a relative path `q`. -/
def pathAppend (p q : Bytes) : Bytes :=
  if p = [] ∨ p.getLast? = some 0x2F then p ++ q else p ++ 0x2F :: q

/-- `std::filesystem::exists` -/
def fileExists (path : Bytes) : Action α Bool := do
  match ← perform (.file (.exists path)) with
  | some b => return b
  | none => Prog.fail .filesystemError

/-- Read a whole file, which may fail to open. -/
def readFile (path : Bytes) : Action α (Option (List α)) := perform (.file (.read path))

/-- Throw when a step of the file system has failed. -/
def orFail (e : Exn) (ok : Bool) : Action α Unit := if ok then return () else Prog.fail e

theorem orFail_true (e : Exn) : orFail e true = (.pure () : Action α Unit) := rfl

theorem orFail_false (e : Exn) : orFail e false = (.fail e : Action α Unit) := rfl

variable [Alphabet α]

/-- What a file holds; it may not open for reading, or hold no JSON. -/
def jsonOfFile [FloatFormat] (openError parseError : String) (path : Bytes) :
    Option (List α) → Except Exn (Json α)
  | none => .error (.runtimeError (bytes openError ++ path))
  | some text => orThrow (bytes parseError ++ path) (Json.parse text)

/-- Read a JSON file. -/
def readJsonFile [FloatFormat] (openError parseError : String) (path : Bytes) :
    Action α (Json α) := do
  let text ← readFile path
  Prog.ofExcept (jsonOfFile openError parseError path text)

/-- The text of a JSON file: indented by two, with a line break at its end. -/
def jsonFileText (body : Json α) : Except Exn (List α) :=
  orJsonError ((Json.dumpWith (some 2) 0 body).map (· ++ ofBytes [0x0A]))

/-- The text of a JSON file ends with a line break. -/
theorem jsonFileText_ne_nil {body : Json α} {text : List α}
    (h : jsonFileText body = .ok text) : text ≠ [] := by
  obtain ⟨d, -, rfl⟩ := Option.map_eq_some_iff.mp (orJsonError_ok.mp h)
  simp [ofBytes]

/-- A JSON file reads as what was written. -/
theorem parse_text [FloatFormat] {body : Json α} {text : List α} (hwf : body.WF)
    (h : jsonFileText body = .ok text) : Json.parse text = some body.norm := by
  obtain ⟨d, hd, rfl⟩ := Option.map_eq_some_iff.mp (orJsonError_ok.mp h)
  exact Json.parse_dumpWith_blanks hd hwf (u := [0x0A]) (by simp)

/-- **What the start of a JSON file reads as**: the whole value, or nothing, and then
a shorter start gives nothing either. -/
theorem parse_start [FloatFormat] {body : Json α} {text t : List α} (hobj : body.isObject = true)
    (hwf : body.WF) (h : jsonFileText body = .ok text) (ht : t <+: text) :
    Json.parse t = some body.norm ∨ ∀ s, s <+: t → Json.parse s = none := by
  have hwhole := parse_text hwf h
  obtain ⟨d, hd, rfl⟩ := Option.map_eq_some_iff.mp (orJsonError_ok.mp h)
  rcases List.prefix_concat_iff.mp ht with rfl | ⟨r, hr⟩
  · exact .inl hwhole
  · by_cases hnil : r = []
    · subst hnil
      rw [List.append_nil] at hr
      subst hr
      exact .inl (Json.parse_dumpWith hd hwf)
    · cases body with
      | obj fs =>
          refine .inr ?_
          rintro s ⟨r', rfl⟩
          rw [List.append_assoc] at hr
          exact Json.parse_prefix hd hwf hr.symm (by simp [hnil])
      | _ => cases hobj

/-- **A start of the text of a JSON file is the text of no other.** -/
theorem jsonFileText_ne_start [FloatFormat] {body body' : Json α} {text t : List α}
    (hobj : body.isObject = true) (hwf : body.WF) (h : jsonFileText body = .ok text)
    (ht : t <+: text) (hne : t ≠ text) (hwf' : body'.WF) : jsonFileText body' ≠ .ok t := by
  intro h'
  obtain ⟨d, hd, rfl⟩ := Option.map_eq_some_iff.mp (orJsonError_ok.mp h)
  obtain ⟨d', hd', rfl⟩ := Option.map_eq_some_iff.mp (orJsonError_ok.mp h')
  obtain ⟨r, hr⟩ := (List.prefix_concat_iff.mp ht).resolve_left hne
  rw [List.append_assoc] at hr
  have hwhole := Json.parse_dumpWith hd' hwf'
  cases body with
  | obj fs =>
      rw [Json.parse_prefix hd hwf hr.symm (by simp [ofBytes])] at hwhole
      cases hwhole
  | _ => cases hobj

/-- Open a file for writing, which empties it, and write a JSON value. -/
def writeText (openError writeError : String) (file path : Bytes) (body : Json α) :
    Action α Unit := do
  orFail (.runtimeError (bytes openError ++ path)) (← perform (.file (.truncate file)))
  let text ← Prog.ofExcept (jsonFileText body)
  orFail (.runtimeError (bytes writeError ++ path)) (← perform (.file (.write file text)))

/-- Restrict a file to its owner. -/
def restrictPermissions (path : Bytes) : Action α (Except Exn Unit) := do
  return ensure ((← perform (.file (.setPermissions path))) = true) .filesystemError

/-- Write a JSON file in place.  The stream is closed when it goes out of scope, after
the permissions and whatever is thrown, and a failure to close it goes unnoticed. -/
def writeInPlace (openError writeError : String) (path : Bytes) (body : Json α) :
    Action α Unit := do
  orFail .filesystemError (← perform (.file (.createDirectories path)))
  orFail (.runtimeError (bytes openError ++ path)) (← perform (.file (.truncate path)))
  let text ← Prog.ofExcept (jsonFileText body)
  let out ← perform (.file (.put path text))
  let result ← (if out.taken = text.length then restrictPermissions path
    else pure (.error (.runtimeError (bytes writeError ++ path))))
  let _ ← perform (.file (.close path (text.take out.taken)))
  Prog.ofExcept result

end Files

/-! ## The world -/

/-- The files of a machine, and what is behind its network. -/
structure World (α σ : Type) where
  files : Files Bytes α
  server : σ

/-- The meaning of the effects: `mayFail` says which file operations may fail and
`net` what the network answers.  Where no file operation may fail, the paths that are written
have a directory part: `create_directories` of the empty path throws. -/
def exec {σ : Type} (mayFail : FileOp Bytes α → Prop)
    (net : HttpRequest α → σ → Option (HttpResponse α) → σ → Prop) :
    (o : Op α) → World α σ → o.Res → World α σ → Prop
  | .file o, w, r, w' => ∃ fs, o.Exec mayFail w.files r fs ∧ w' = { w with files := fs }
  | .random n, w, r, w' => r.length = n ∧ w' = w
  | .boxKeypair, w, r, w' => r.length = 32 ∧ w' = w
  | .signKeypair, w, r, w' => r.length = 64 ∧ w' = w
  | .http req, w, r, w' => ∃ s, net req w.server r s ∧ w' = { w with server := s }

/-- The answers of a machine on which nothing fails, and every key and every random
byte is zero. -/
def answer [Alphabet α] {σ : Type} (net : HttpRequest α → σ → Option (HttpResponse α) × σ) :
    (o : Op α) → World α σ → o.Res × World α σ
  | .file o, w => (o.answer w.files, { w with files := o.effect w.files })
  | .random n, w => (List.replicate n (Alphabet.ofByte 0), w)
  | .boxKeypair, w => (List.replicate 32 (Alphabet.ofByte 0), w)
  | .signKeypair, w => (List.replicate 64 (Alphabet.ofByte 0), w)
  | .http req, w => ((net req w.server).1, { w with server := (net req w.server).2 })

theorem exec_answer [Alphabet α] {σ : Type} {mayFail : FileOp Bytes α → Prop}
    {net : HttpRequest α → σ → Option (HttpResponse α) → σ → Prop}
    {net' : HttpRequest α → σ → Option (HttpResponse α) × σ}
    (hnet : ∀ req s, net req s (net' req s).1 (net' req s).2) (o : Op α) (w : World α σ) :
    exec mayFail net o w (answer net' o w).1 (answer net' o w).2 := by
  cases o with
  | file o => exact ⟨_, .inl ⟨rfl, rfl⟩, rfl⟩
  | random n => exact ⟨List.length_replicate, rfl⟩
  | boxKeypair => exact ⟨List.length_replicate, rfl⟩
  | signKeypair => exact ⟨List.length_replicate, rfl⟩
  | http req => exact ⟨_, hnet req w.server, rfl⟩

/-! ## What the effects do -/

section Rules

open Prog

variable {σ : Type} {mayFail : FileOp Bytes α → Prop}
  {net : HttpRequest α → σ → Option (HttpResponse α) → σ → Prop} {I : World α σ → Prop}
  {w : World α σ}

theorem ensures_file {o : FileOp Bytes α} {Q : Except Exn o.Res → World α σ → Prop} :
    (perform (.file o)).Ensures (exec mayFail net) I w Q ↔ I w ∧ ∀ r fs,
      o.Exec mayFail w.files r fs → I { w with files := fs } ∧ Q (.ok r) { w with files := fs } := by
  rw [perform, ensures_op]
  refine and_congr_right fun _ => forall_congr' fun r => ?_
  constructor
  · intro h fs hexec
    exact h _ ⟨fs, hexec, rfl⟩
  · rintro h _ ⟨fs, hexec, rfl⟩
    exact h fs hexec

/-- An effect that draws a value changes nothing. -/
theorem ensures_draw {o : Op α} {P : o.Res → Prop} {Q : Except Exn o.Res → World α σ → Prop}
    (ho : ∀ w r w', exec mayFail net o w r w' ↔ P r ∧ w' = w) :
    (perform o).Ensures (exec mayFail net) I w Q ↔ I w ∧ ∀ r, P r → Q (.ok r) w := by
  rw [perform, ensures_op]
  refine and_congr_right fun hI => forall_congr' fun r => ?_
  simp only [ho]
  constructor
  · intro h hr
    exact (h w ⟨hr, rfl⟩).2
  · rintro h _ ⟨hr, rfl⟩
    exact ⟨hI, h hr⟩

theorem ensures_boxKeypair {Q : Except Exn (List α) → World α σ → Prop} :
    (perform .boxKeypair).Ensures (exec mayFail net) I w Q ↔
      I w ∧ ∀ r : List α, r.length = 32 → Q (.ok r) w := ensures_draw fun _ _ _ => Iff.rfl

theorem ensures_signKeypair {Q : Except Exn (List α) → World α σ → Prop} :
    (perform .signKeypair).Ensures (exec mayFail net) I w Q ↔
      I w ∧ ∀ r : List α, r.length = 64 → Q (.ok r) w := ensures_draw fun _ _ _ => Iff.rfl

theorem ensures_random {n : Nat} {Q : Except Exn (List α) → World α σ → Prop} :
    (perform (.random n)).Ensures (exec mayFail net) I w Q ↔
      I w ∧ ∀ r : List α, r.length = n → Q (.ok r) w := ensures_draw fun _ _ _ => Iff.rfl

theorem ensures_http {req : HttpRequest α}
    {Q : Except Exn (Option (HttpResponse α)) → World α σ → Prop} :
    (perform (.http req)).Ensures (exec mayFail net) I w Q ↔ I w ∧ ∀ r s,
      net req w.server r s → I { w with server := s } ∧ Q (.ok r) { w with server := s } := by
  rw [perform, ensures_op]
  refine and_congr_right fun _ => forall_congr' fun r => ?_
  constructor
  · intro h s hnet
    exact h _ ⟨s, hnet, rfl⟩
  · rintro h _ ⟨s, hnet, rfl⟩
    exact h s hnet

/-- Looking for a file changes nothing. -/
theorem ensures_fileExists {path : Bytes} {Q : Except Exn Bool → World α σ → Prop} (hI : I w)
    (hok : Q (.ok (w.files path).isSome) w)
    (herr : mayFail (.exists path) → Q (.error .filesystemError) w) :
    (fileExists path).Ensures (exec mayFail net) I w Q := by
  rw [fileExists, ensures_bind, ensures_file]
  refine ⟨hI, fun r fs hexec => ?_⟩
  rcases hexec with ⟨rfl, rfl⟩ | ⟨hfail, rfl, rfl⟩
  · exact ⟨hI, hI, hok⟩
  · exact ⟨hI, hI, herr hfail⟩

/-- Reading a file changes nothing; a read that fails may have seen a part of it. -/
theorem ensures_readFile {path : Bytes} {Q : Except Exn (Option (List α)) → World α σ → Prop}
    (hI : I w) (hok : Q (.ok (w.files path)) w)
    (herr : ∀ t, mayFail (.read path) →
      (t = none ∨ ∃ text n, w.files path = some text ∧ t = some (text.take n)) → Q (.ok t) w) :
    (readFile path).Ensures (exec mayFail net) I w Q := by
  rw [readFile, ensures_file]
  refine ⟨hI, fun r fs hexec => ?_⟩
  rcases hexec with ⟨rfl, rfl⟩ | ⟨hfail, hr, rfl⟩
  · exact ⟨hI, hok⟩
  · exact ⟨hI, herr r hfail hr⟩

theorem ensures_orFail {e : Exn} {ok : Bool} {Q : Except Exn Unit → World α σ → Prop} :
    (orFail e ok).Ensures (exec mayFail net) I w Q ↔
      I w ∧ Q (if ok then .ok () else .error e) w := by
  cases ok <;> exact Iff.rfl

variable [Alphabet α]

/-- Reading a JSON file changes nothing. -/
theorem ensures_readJsonFile [FloatFormat] {openError parseError : String} {path : Bytes}
    {Q : Except Exn (Json α) → World α σ → Prop} (hI : I w)
    (hok : Q (jsonOfFile openError parseError path (w.files path)) w)
    (herr : ∀ t, mayFail (.read path) →
      (t = none ∨ ∃ text n, w.files path = some text ∧ t = some (text.take n)) →
        Q (jsonOfFile openError parseError path t) w) :
    (readJsonFile openError parseError path).Ensures (exec mayFail net) I w Q := by
  rw [readJsonFile, ensures_bind]
  refine ensures_readFile hI ?_ fun t hfail ht => ?_
  · exact ensures_ofExcept.mpr ⟨hI, hok⟩
  · exact ensures_ofExcept.mpr ⟨hI, herr t hfail ht⟩

/-- What a file may hold while a JSON value is written to it, and when that fails
on the way: nothing new, or the start of its text. -/
def Partial (path : Bytes) (body : Json α) (fs fs' : Files Bytes α) : Prop :=
  fs' = fs ∨ ∃ t, t <+: (jsonFileText body).toOption.getD [] ∧
    fs' = Function.update fs path (some t)

theorem Partial.empty {path : Bytes} {body : Json α} {fs : Files Bytes α} :
    Partial path body fs (Function.update fs path (some [])) :=
  .inr ⟨[], List.nil_prefix, rfl⟩

/-- What a file holds when writing a JSON value to it has reported no failure: its
text, or the start of it when that has failed unnoticed, which it does not when the
text is sure to be `whole`. -/
def Written (whole : Prop) (path : Bytes) (body : Json α) (fs fs' : Files Bytes α) : Prop :=
  ∃ text t, jsonFileText body = .ok text ∧ t <+: text ∧ (whole → t = text) ∧
    fs' = Function.update fs path (some t)

/-- A stream of the file is closed without failure. -/
def Closes (mayFail : FileOp Bytes α → Prop) (path : Bytes) : Prop :=
  ∀ text, ¬ mayFail (.close path text)

variable {whole : Prop}

theorem Written.partial' {path : Bytes} {body : Json α} {fs fs' : Files Bytes α}
    (h : Written whole path body fs fs') : Partial path body fs fs' := by
  obtain ⟨text, t, htext, hpre, -, rfl⟩ := h
  refine .inr ⟨t, ?_, rfl⟩
  rw [htext]
  exact hpre

theorem Written.full {path : Bytes} {body : Json α} {fs : Files Bytes α} {text : List α}
    (h : jsonFileText body = .ok text) :
    Written whole path body fs (Function.update fs path (some text)) :=
  ⟨text, text, h, List.prefix_rfl, fun _ => rfl, rfl⟩

theorem Written.take {path : Bytes} {body : Json α} {fs : Files Bytes α} {text : List α}
    (h : jsonFileText body = .ok text) (hcut : ¬ whole) (n : Nat) :
    Written whole path body fs (Function.update fs path (some (text.take n))) :=
  ⟨text, text.take n, h, List.take_prefix n text, fun hall => absurd hall hcut, rfl⟩

variable {Q : Except Exn Unit → World α σ → Prop}

/-- Opening a file and writing it. -/
theorem ensures_writeText {openError writeError : String} {file path : Bytes} {body : Json α}
    (hI : ∀ fs, Partial file body w.files fs → I { w with files := fs })
    (hok : ∀ text, jsonFileText body = .ok text →
      Q (.ok ()) { w with files := Function.update w.files file (some text) })
    (hdump : ∀ e, jsonFileText body = .error e →
      Q (.error e) { w with files := Function.update w.files file (some []) })
    (hfail : (∃ o, mayFail o) → ∀ x fs, Partial file body w.files fs →
      (x = .ok () → Written (∀ s, ¬ mayFail (.write file s)) file body w.files fs) →
      Q x { w with files := fs }) :
    (writeText openError writeError file path body).Ensures (exec mayFail net) I w Q := by
  have hstart : I w := hI w.files (.inl rfl)
  rw [writeText, ensures_bind, ensures_file]
  refine ⟨hstart, fun r fs hexec => ?_⟩
  rcases hexec with ⟨rfl, rfl⟩ | ⟨hmay, rfl, rfl⟩
  · have hopen := hI _ Partial.empty
    refine ⟨hopen, ?_⟩
    simp only [FileOp.answer, FileOp.effect, orFail_true, pure_bind']
    rw [ensures_bind, ensures_ofExcept]
    refine ⟨hopen, ?_⟩
    cases htext : jsonFileText body with
    | error e => exact hdump e htext
    | ok text =>
        simp only
        rw [ensures_bind, ensures_file]
        refine ⟨hopen, fun r fs hexec => ?_⟩
        rcases hexec with ⟨rfl, rfl⟩ | ⟨hmay, n, rfl⟩
        · simp only [FileOp.answer, FileOp.effect, Function.update_self, Function.update_idem,
            overwrite_nil]
          have hfull : Written (∀ s, ¬ mayFail (.write file s)) file body w.files _ := .full htext
          refine ⟨hI _ hfull.partial', ?_⟩
          rw [ensures_orFail]
          exact ⟨hI _ hfull.partial', hok text htext⟩
        · have hwritten : Written (∀ s, ¬ mayFail (.write file s)) file body w.files _ :=
            .take htext (fun hno => hno _ hmay) n
          simp only [Function.update_self, Function.update_idem, overwrite_nil]
          refine ⟨hI _ hwritten.partial', ?_⟩
          rw [ensures_orFail]
          exact ⟨hI _ hwritten.partial', hfail ⟨_, hmay⟩ _ _ hwritten.partial' fun _ => hwritten⟩
  · refine ⟨hstart, ?_⟩
    simp only [orFail_false, fail_bind]
    exact ⟨hstart, hfail ⟨_, hmay⟩ _ _ (.inl rfl) fun h => by cases h⟩

omit [Alphabet α] in
/-- A stream that is closed: the file has the start of the text it had, or more. -/
theorem ensures_close {path : Bytes} {text : List α} {reached taken : Nat} {x : Except Exn Unit}
    {fs : Files Bytes α} (hreached : reached ≤ taken) (htaken : taken ≤ text.length)
    (hI : ∀ n, I { w with files := Function.update fs path (some (text.take n)) })
    (hQ : ∀ n, n = taken ∨ mayFail (.close path (text.take taken)) →
      Q x { w with files := Function.update fs path (some (text.take n)) }) :
    (do let _ ← perform (.file (.close path (text.take taken)))
        Prog.ofExcept x : Action α Unit).Ensures (exec mayFail net) I
      { w with files := Function.update fs path (some (text.take reached)) } Q := by
  rw [ensures_bind, ensures_file]
  refine ⟨hI reached, fun (k : Nat) fs' hexec => ?_⟩
  obtain ⟨-, rfl, hor⟩ := hexec.close_start htaken
  refine ⟨hI _, ensures_ofExcept.mpr ⟨hI _, hQ _ (hor.imp_left fun hk => ?_)⟩⟩
  rw [hk, Nat.max_eq_left hreached]

/-- **Writing a JSON file in place** leaves it as it was, or a start of the new text;
when nothing fails the whole text is there. -/
theorem ensures_writeInPlace {openError writeError : String} {path : Bytes} {body : Json α}
    (hI : ∀ fs, Partial path body w.files fs → I { w with files := fs })
    (hok : ∀ text, jsonFileText body = .ok text →
      Q (.ok ()) { w with files := Function.update w.files path (some text) })
    (hdump : ∀ e, jsonFileText body = .error e →
      Q (.error e) { w with files := Function.update w.files path (some []) })
    (hfail : (∃ o, mayFail o) → ∀ x fs, Partial path body w.files fs →
      (x = .ok () → Written (Closes mayFail path) path body w.files fs) →
      Q x { w with files := fs }) :
    (writeInPlace openError writeError path body).Ensures (exec mayFail net) I w Q := by
  have hstart : I w := hI w.files (.inl rfl)
  rw [writeInPlace, ensures_bind, ensures_file]
  refine ⟨hstart, fun r fs hexec => ?_⟩
  rcases hexec with ⟨rfl, rfl⟩ | ⟨hmay, rfl, rfl⟩
  case inr =>
    exact ⟨hstart, hstart, hfail ⟨_, hmay⟩ _ _ (.inl rfl) fun h => by cases h⟩
  refine ⟨hstart, ?_⟩
  simp only [FileOp.answer, FileOp.effect, orFail_true, pure_bind']
  rw [ensures_bind, ensures_file]
  refine ⟨hstart, fun r fs hexec => ?_⟩
  rcases hexec with ⟨rfl, rfl⟩ | ⟨hmay, rfl, rfl⟩
  case inr =>
    exact ⟨hstart, hstart, hfail ⟨_, hmay⟩ _ _ (.inl rfl) fun h => by cases h⟩
  have hopen := hI _ Partial.empty
  refine ⟨hopen, ?_⟩
  simp only [FileOp.answer, FileOp.effect, orFail_true, pure_bind']
  rw [ensures_bind, ensures_ofExcept]
  refine ⟨hopen, ?_⟩
  cases htext : jsonFileText body with
  | error e => exact hdump e htext
  | ok text =>
  dsimp only
  have hpart : ∀ n, Partial path body w.files (Function.update w.files path (some (text.take n))) := by
    intro n
    refine .inr ⟨text.take n, ?_, rfl⟩
    rw [htext]
    exact List.take_prefix n text
  have hstep := fun n => hI _ (hpart n)
  -- the stream is closed at last, whatever it has taken
  have hclose : ∀ reached taken x, reached ≤ taken → taken ≤ text.length →
      (x = .ok () → taken = text.length) → (x = .ok () ∧ taken = text.length) ∨ (∃ o, mayFail o) →
      (do let _ ← perform (.file (.close path (text.take taken)))
          Prog.ofExcept x : Action α Unit).Ensures (exec mayFail net) I
        { w with files := Function.update w.files path (some (text.take reached)) } Q := by
    intro reached taken x hreached htaken hx hor
    refine ensures_close hreached htaken hstep fun n hn => ?_
    by_cases hmay : mayFail (.close path (text.take taken))
    · exact hfail ⟨_, hmay⟩ _ _ (hpart n) fun _ => .take htext (fun hno => hno _ hmay) n
    · obtain rfl := hn.resolve_right hmay
      rcases hor with ⟨rfl, rfl⟩ | hmay
      · rw [List.take_length]
        exact hok text htext
      · refine hfail hmay _ _ (hpart n) fun h => ?_
        rw [hx h, List.take_length]
        exact .full htext
  rw [ensures_bind, ensures_file]
  refine ⟨hopen, fun r fs hexec => ?_⟩
  obtain ⟨hr, hlen, rfl, hor⟩ := hexec.put_start
  refine ⟨hstep _, ?_⟩
  dsimp only
  rw [ensures_bind]
  by_cases htaken : r.taken = text.length
  · rw [if_pos htaken, restrictPermissions, ensures_bind, ensures_file]
    refine ⟨hstep _, fun ok fs hexec => ?_⟩
    rcases hexec with ⟨rfl, rfl⟩ | ⟨hmay, rfl, rfl⟩
    · exact ⟨hstep _, hstep _, hclose _ _ _ hr hlen (fun _ => htaken) (.inl ⟨rfl, htaken⟩)⟩
    · exact ⟨hstep _, hstep _, hclose _ _ _ hr hlen (fun h => by cases h) (.inr ⟨_, hmay⟩)⟩
  · rw [if_neg htaken]
    exact ⟨hstep _, hclose _ _ _ hr hlen (fun h => by cases h)
      (.inr ⟨_, hor.resolve_left htaken⟩)⟩

end Rules

/-! ## The effects a program uses -/

section Uses

open Prog

variable {P : Op α → Prop} {path : Bytes}

theorem only_orFail (e : Exn) (ok : Bool) : (orFail e ok : Action α Unit).Only P := by
  cases ok <;> trivial

theorem only_fileExists (h : P (.file (.exists path))) : (fileExists path).Only P :=
  only_bind (only_op h) fun r => by cases r <;> trivial

theorem only_readJsonFile [Alphabet α] [FloatFormat] (h : P (.file (.read path)))
    (openError parseError : String) : (readJsonFile openError parseError path).Only P :=
  only_bind (only_op h) fun _ => only_ofExcept _

theorem only_writeText [Alphabet α] {file : Bytes} (hopen : P (.file (.truncate file)))
    (hwrite : ∀ text, P (.file (.write file text))) (openError writeError : String)
    (body : Json α) : (writeText openError writeError file path body).Only P := by
  refine only_bind (only_op hopen) fun r => only_bind (only_orFail _ r) fun _ => ?_
  exact only_bind (only_ofExcept _) fun _ => only_bind (only_op (hwrite _)) fun r => only_orFail _ r

theorem only_writeInPlace [Alphabet α] (hdirs : P (.file (.createDirectories path)))
    (hopen : P (.file (.truncate path))) (hput : ∀ text, P (.file (.put path text)))
    (hperms : P (.file (.setPermissions path))) (hclose : ∀ text, P (.file (.close path text)))
    (openError writeError : String) (body : Json α) :
    (writeInPlace openError writeError path body).Only P := by
  refine only_bind (only_op hdirs) fun r => only_bind (only_orFail _ r) fun _ => ?_
  refine only_bind (only_op hopen) fun r => only_bind (only_orFail _ r) fun _ => ?_
  refine only_bind (only_ofExcept _) fun text => only_bind (only_op (hput text)) fun out => ?_
  refine only_bind ?_ fun x => only_bind (only_op (hclose _)) fun _ => only_ofExcept x
  split_ifs with htaken
  · exact only_bind (only_op hperms) fun _ => trivial
  · trivial

end Uses

end Kd
