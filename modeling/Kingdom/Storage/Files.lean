import Mathlib.Logic.Function.Basic
import Mathlib.Data.List.Basic

/-!
# Files

A file system as a program sees it: texts under paths, and the operations that
read and change them.  Any operation may fail.  A write that fails has put a
prefix of its text into the file, and goes unnoticed when the text was still in a
buffer; a read that fails on the way has seen a prefix of the file.  A stream that
stays open hands on what it has taken when it is closed, or a part of it before.

* `Files` — the text of each file that exists.
* `Taken` — what a stream has done with a text.
* `FileOp`, `FileOp.Res` — the operations and their answers.
* `FileOp.effect`, `FileOp.answer` — what an operation does when it succeeds.
* `FileOp.Fault` — what it may do otherwise.
* `FileOp.Exec` — the two together, with what may fail as a parameter.
* `FileOp.On` — operations on one file, which leave the others and depend on no other.
-/

namespace Storage

/-- The files that exist, with their texts. -/
abbrev Files (P α : Type) := P → Option (List α)

/-- How much of a text a stream has put into its file, and how much it has taken. -/
structure Taken where
  reached : Nat
  taken : Nat

/-- Operations on files. -/
inductive FileOp (P α : Type) where
  | exists (p : P)
  | read (p : P)
  /-- Create the directories above a path.  It fails above a bare file name, which has none:
  paths without a directory part belong to what may fail. -/
  | createDirectories (p : P)
  /-- Open for writing; the file is empty then. -/
  | truncate (p : P)
  /-- Write to the start of an open file, and close it. -/
  | write (p : P) (text : List α)
  /-- Hand a text to the stream of an open file, which keeps it in a buffer. -/
  | put (p : P) (text : List α)
  /-- Close the stream of a file, with the text it has taken: it is in the file then,
  from the start. -/
  | close (p : P) (text : List α)
  | rename (p q : P)
  | setPermissions (p : P)
  | remove (p : P)

variable {P α : Type}

/-- What an operation answers: whether a file is there, its text, how much of a text
has been written, or whether the operation succeeded.  The existence of a file may be
impossible to find out. -/
abbrev FileOp.Res : FileOp P α → Type
  | .exists _ => Option Bool
  | .read _ => Option (List α)
  | .put .. => Taken
  | .close .. => Nat
  | _ => Bool

/-- A text written over the start of another. -/
def overwrite (text : List α) (old : Option (List α)) : List α :=
  text ++ (old.getD []).drop text.length

@[simp] theorem overwrite_nil (text : List α) : overwrite text (some []) = text := by
  simp [overwrite]

/-- A part of a text written over a part of it. -/
theorem overwrite_take (text : List α) (k n : Nat) :
    overwrite (text.take k) (some (text.take n)) = text.take (max k n) := by
  rw [overwrite, Option.getD_some, List.length_take]
  rcases Nat.le_total k n with hkn | hnk
  · rw [Nat.max_eq_right hkn]
    by_cases hk : k ≤ text.length
    · rw [Nat.min_eq_left hk]
      conv_rhs => rw [← List.take_append_drop k (text.take n), List.take_take, Nat.min_eq_left hkn]
    · have hle : text.length ≤ k := Nat.le_of_not_le hk
      rw [Nat.min_eq_right hle, List.take_of_length_le hle,
        List.take_of_length_le (Nat.le_trans hle hkn),
        List.drop_length, List.append_nil]
  · rw [Nat.max_eq_left hnk, List.drop_of_length_le, List.append_nil]
    rw [List.length_take]
    omega

variable [DecidableEq P]

/-- The files after an operation that succeeds. -/
def FileOp.effect : FileOp P α → Files P α → Files P α
  | .truncate p, fs => Function.update fs p (some [])
  | .write p text, fs => Function.update fs p (some (overwrite text (fs p)))
  | .close p text, fs => Function.update fs p (some (overwrite text (fs p)))
  | .rename p q, fs =>
      if (fs p).isSome then Function.update (Function.update fs p none) q (fs p) else fs
  | .remove p, fs => Function.update fs p none
  | _, fs => fs

/-- The answer of an operation that succeeds; only a file that exists can be
renamed. -/
def FileOp.answer : (o : FileOp P α) → Files P α → o.Res
  | .exists p, fs => some (fs p).isSome
  | .read p, fs => fs p
  | .createDirectories _, _ => true
  | .truncate _, _ => true
  | .write .., _ => true
  | .put _ text, _ => ⟨0, text.length⟩
  | .close _ text, _ => text.length
  | .rename p _, fs => (fs p).isSome
  | .setPermissions _, _ => true
  | .remove _, _ => true

/-- What an operation that fails may answer and leave.  A stream may take a part of a
text only, and may have put some of it into the file before it is closed. -/
def FileOp.Fault : (o : FileOp P α) → Files P α → o.Res → Files P α → Prop
  | .exists _, fs, r, fs' => r = none ∧ fs' = fs
  | .read p, fs, r, fs' => (r = none ∨ ∃ text n, fs p = some text ∧ r = some (text.take n)) ∧ fs' = fs
  | .write p text, fs, _, fs' =>
      ∃ n, fs' = Function.update fs p (some (overwrite (text.take n) (fs p)))
  | .put p text, fs, r, fs' => r.reached ≤ r.taken ∧ r.taken ≤ text.length ∧
      fs' = Function.update fs p (some (overwrite (text.take r.reached) (fs p)))
  | .close p text, fs, r, fs' => r ≤ text.length ∧
      fs' = Function.update fs p (some (overwrite (text.take r) (fs p)))
  | .createDirectories _, fs, r, fs' => r = false ∧ fs' = fs
  | .truncate _, fs, r, fs' => r = false ∧ fs' = fs
  | .rename .., fs, r, fs' => r = false ∧ fs' = fs
  | .setPermissions _, fs, r, fs' => r = false ∧ fs' = fs
  | .remove _, fs, r, fs' => r = false ∧ fs' = fs

/-- The operation succeeds, or fails where it may. -/
def FileOp.Exec (mayFail : FileOp P α → Prop) (o : FileOp P α) (fs : Files P α) (r : o.Res)
    (fs' : Files P α) : Prop :=
  (r = o.answer fs ∧ fs' = o.effect fs) ∨ (mayFail o ∧ o.Fault fs r fs')

/-- An operation that may not fail. -/
theorem FileOp.exec_reliable {mayFail : FileOp P α → Prop} {o : FileOp P α} {fs fs' : Files P α}
    {r : o.Res} (ho : ¬ mayFail o) (h : o.Exec mayFail fs r fs') :
    r = o.answer fs ∧ fs' = o.effect fs := by
  rcases h with h | ⟨hfail, -⟩
  · exact h
  · exact absurd hfail ho

/-! ## Operations on one file -/

/-- The operation reads and changes no other file. -/
def FileOp.On (p : P) : FileOp P α → Prop
  | .exists q => q = p
  | .read q => q = p
  | .createDirectories q => q = p
  | .truncate q => q = p
  | .write q _ => q = p
  | .put q _ => q = p
  | .close q _ => q = p
  | .rename .. => False
  | .setPermissions q => q = p
  | .remove q => q = p

variable {mayFail : FileOp P α → Prop} {o : FileOp P α} {fs fs' : Files P α} {r : o.Res} {p : P}

/-- The other files stay as they are. -/
theorem FileOp.Exec.other (h : o.Exec mayFail fs r fs') (ho : o.On p) {q : P} (hq : q ≠ p) :
    fs' q = fs q := by
  cases o with
  | rename => exact ho.elim
  | «exists» | read | createDirectories | setPermissions =>
      rcases h with ⟨-, rfl⟩ | ⟨-, -, rfl⟩ <;> rfl
  | truncate =>
      obtain rfl := ho
      rcases h with ⟨-, rfl⟩ | ⟨-, -, rfl⟩
      · exact Function.update_of_ne hq ..
      · rfl
  | write =>
      obtain rfl := ho
      rcases h with ⟨-, rfl⟩ | ⟨-, n, rfl⟩ <;> exact Function.update_of_ne hq ..
  | put =>
      obtain rfl := ho
      rcases h with ⟨-, rfl⟩ | ⟨-, -, -, rfl⟩
      · rfl
      · exact Function.update_of_ne hq ..
  | close =>
      obtain rfl := ho
      rcases h with ⟨-, rfl⟩ | ⟨-, -, rfl⟩ <;> exact Function.update_of_ne hq ..
  | remove =>
      obtain rfl := ho
      rcases h with ⟨-, rfl⟩ | ⟨-, -, rfl⟩
      · exact Function.update_of_ne hq ..
      · rfl

/-- A text that is handed to the stream of an empty file: some of it is in the file then, and at
least as much in the stream. -/
theorem FileOp.Exec.put_start {text : List α} {r : Taken}
    (h : (FileOp.put p text).Exec mayFail (Function.update fs p (some [])) r fs') :
    r.reached ≤ r.taken ∧ r.taken ≤ text.length ∧
      fs' = Function.update fs p (some (text.take r.reached)) ∧
      (r.taken = text.length ∨ mayFail (.put p text)) := by
  rcases h with ⟨rfl, rfl⟩ | ⟨hmay, hr, hlen, rfl⟩
  · exact ⟨Nat.zero_le _, Nat.le_refl _, rfl, .inl rfl⟩
  · refine ⟨hr, hlen, ?_, .inr hmay⟩
    rw [Function.update_self, Function.update_idem, overwrite_nil]

/-- The stream of a file that holds the start of a text is closed with a longer start of it: the
file holds as much of it as before, or more. -/
theorem FileOp.Exec.close_start {text : List α} {reached taken k : Nat} (htaken : taken ≤ text.length)
    (h : (FileOp.close p (text.take taken)).Exec mayFail
      (Function.update fs p (some (text.take reached))) k fs') :
    k ≤ taken ∧ fs' = Function.update fs p (some (text.take (max k reached))) ∧
      (k = taken ∨ mayFail (.close p (text.take taken))) := by
  have hlength : (text.take taken).length = taken := by
    rw [List.length_take, Nat.min_eq_left htaken]
  rcases h with ⟨rfl, rfl⟩ | ⟨hmay, hk, rfl⟩
  · refine ⟨Nat.le_of_eq hlength, ?_, .inl hlength⟩
    simp only [answer, effect, Function.update_self, Function.update_idem, overwrite_take, hlength]
  · rw [hlength] at hk
    refine ⟨hk, ?_, .inr hmay⟩
    rw [Function.update_self, Function.update_idem, List.take_take, Nat.min_eq_left hk,
      overwrite_take]

/-- What it does depends on the one file only. -/
theorem FileOp.Exec.congr (h : o.Exec mayFail fs r fs') (ho : o.On p) {gs : Files P α}
    (heq : gs p = fs p) : ∃ gs', o.Exec mayFail gs r gs' ∧ gs' p = fs' p := by
  cases o with
  | rename => exact ho.elim
  | «exists» =>
      obtain rfl := ho
      rcases h with ⟨rfl, rfl⟩ | ⟨hmay, rfl, rfl⟩
      · exact ⟨gs, .inl ⟨by simp [answer, heq], rfl⟩, heq⟩
      · exact ⟨gs, .inr ⟨hmay, rfl, rfl⟩, heq⟩
  | read =>
      obtain rfl := ho
      rcases h with ⟨rfl, rfl⟩ | ⟨hmay, hr, rfl⟩
      · exact ⟨gs, .inl ⟨heq.symm, rfl⟩, heq⟩
      · exact ⟨gs, .inr ⟨hmay, by rwa [heq], rfl⟩, heq⟩
  | createDirectories | setPermissions =>
      rcases h with ⟨rfl, rfl⟩ | ⟨hmay, rfl, rfl⟩
      · exact ⟨gs, .inl ⟨rfl, rfl⟩, heq⟩
      · exact ⟨gs, .inr ⟨hmay, rfl, rfl⟩, heq⟩
  | truncate =>
      obtain rfl := ho
      rcases h with ⟨rfl, rfl⟩ | ⟨hmay, rfl, rfl⟩
      · exact ⟨_, .inl ⟨rfl, rfl⟩, by simp [effect]⟩
      · exact ⟨gs, .inr ⟨hmay, rfl, rfl⟩, heq⟩
  | write =>
      obtain rfl := ho
      rcases h with ⟨rfl, rfl⟩ | ⟨hmay, n, rfl⟩
      · exact ⟨_, .inl ⟨rfl, rfl⟩, by simp [effect, heq]⟩
      · exact ⟨_, .inr ⟨hmay, n, rfl⟩, by simp [heq]⟩
  | put =>
      obtain rfl := ho
      rcases h with ⟨rfl, rfl⟩ | ⟨hmay, hr, hlen, rfl⟩
      · exact ⟨gs, .inl ⟨rfl, rfl⟩, heq⟩
      · exact ⟨_, .inr ⟨hmay, hr, hlen, rfl⟩, by simp [heq]⟩
  | close =>
      obtain rfl := ho
      rcases h with ⟨rfl, rfl⟩ | ⟨hmay, hlen, rfl⟩
      · exact ⟨_, .inl ⟨rfl, rfl⟩, by simp [effect, heq]⟩
      · exact ⟨_, .inr ⟨hmay, hlen, rfl⟩, by simp [heq]⟩
  | remove =>
      obtain rfl := ho
      rcases h with ⟨rfl, rfl⟩ | ⟨hmay, rfl, rfl⟩
      · exact ⟨_, .inl ⟨rfl, rfl⟩, by simp [effect]⟩
      · exact ⟨gs, .inr ⟨hmay, rfl, rfl⟩, heq⟩

end Storage
