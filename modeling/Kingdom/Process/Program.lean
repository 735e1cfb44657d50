import Mathlib.Logic.Basic

/-!
# Programs that call operations

A program is a finite tree of calls to named operations, with exceptions.  It
says nothing about what the operations do: a *machine* gives them a meaning as
steps on a shared state, and `Process.Interleave` runs many programs against one
machine.

* `Prog` — results, exceptions and calls, with `bind`, `tryCatch` and `op`.
* `Event` — an answered call, with the shared state before and after it.
* `wp` — the weakest precondition of a program that runs among others: between
  two of its calls the state may change as `Shared.rely` allows.
* `wp_bind`, `wp_tryCatch`, `wp_mono`, `wp_weaken`, `wp_and`, `wp_true` — its rules.
* `Yields` — the postcondition of the normal results only, where an exception
  needs no account; `Yields.bind`, `Yields.op`, `Yields.tryCatch` are the rules
  the handlers are verified with.
-/

namespace Process

/-- A program over the operations `Op`, whose answers have the types `Res`. -/
inductive Prog (Op : Type) (Res : Op → Type) (E : Type) (α : Type) where
  | pure (a : α)
  | fail (e : E)
  | call (o : Op) (k : Res o → Prog Op Res E α)

namespace Prog

variable {Op : Type} {Res : Op → Type} {E α β γ : Type}

def bind : Prog Op Res E α → (α → Prog Op Res E β) → Prog Op Res E β
  | .pure a, f => f a
  | .fail e, _ => .fail e
  | .call o k, f => .call o fun r => (k r).bind f

/-- Run a handler on the exception of a program. -/
def tryCatch : Prog Op Res E α → (E → Prog Op Res E α) → Prog Op Res E α
  | .pure a, _ => .pure a
  | .fail e, h => h e
  | .call o k, h => .call o fun r => (k r).tryCatch h

/-- Call an operation that always answers. -/
def op (o : Op) : Prog Op Res E (Res o) := .call o .pure

/-- Answer or throw. -/
def ofExcept : Except E α → Prog Op Res E α
  | .ok a => .pure a
  | .error e => .fail e

instance : Monad (Prog Op Res E) where
  pure := .pure
  bind := bind

@[simp] theorem pure_eq (a : α) : (Pure.pure a : Prog Op Res E α) = .pure a := rfl

@[simp] theorem pure_bind' (a : α) (f : α → Prog Op Res E β) :
    ((Prog.pure a : Prog Op Res E α) >>= f) = f a := rfl

@[simp] theorem fail_bind (e : E) (f : α → Prog Op Res E β) :
    ((Prog.fail e : Prog Op Res E α) >>= f) = .fail e := rfl

@[simp] theorem call_bind (o : Op) (k : Res o → Prog Op Res E α) (f : α → Prog Op Res E β) :
    (Prog.call o k >>= f) = .call o fun r => k r >>= f := rfl

end Prog

/-! ## Machines and events -/

/-- A meaning for operations: the steps of a shared state. -/
structure Machine (Op : Type) (Res : Op → Type) (σ : Type) where
  /-- `exec o s r s'`: called in `s`, the operation may answer `r` and leave `s'`. -/
  exec : (o : Op) → σ → Res o → σ → Prop
  /-- Steps the environment takes by itself. -/
  env : σ → σ → Prop
  /-- Restarts, which end every program that is running. -/
  restart : σ → σ → Prop

/-- What the programs know of the state they share. -/
structure Shared (σ : Type) where
  /-- What holds of the state at every moment. -/
  inv : σ → Prop
  /-- How the state may have changed between two moments. -/
  rely : σ → σ → Prop

/-- An answered call. -/
structure Event (Op : Type) (Res : Op → Type) (σ : Type) where
  op : Op
  res : Res op
  pre : σ
  post : σ

variable {Op : Type} {Res : Op → Type} {E σ α β : Type}

/-- The operation was called and answered so. -/
def Said (past : List (Event Op Res σ)) (o : Op) (r : Res o) : Prop :=
  ∃ s s', (⟨o, r, s, s'⟩ : Event Op Res σ) ∈ past

theorem Said.append {past : List (Event Op Res σ)} {o : Op} {r : Res o} (h : Said past o r)
    (more : List (Event Op Res σ)) : Said (past ++ more) o r := by
  obtain ⟨s, s', hmem⟩ := h
  exact ⟨s, s', List.mem_append_left more hmem⟩

theorem said_last (past : List (Event Op Res σ)) (o : Op) (r : Res o) (s s' : σ) :
    Said (past ++ [⟨o, r, s, s'⟩]) o r :=
  ⟨s, s', by simp⟩

/-- The events are steps of the machine, and the state `s` may come after them. -/
def Past (M : Machine Op Res σ) (S : Shared σ) (past : List (Event Op Res σ)) (s : σ) : Prop :=
  S.inv s ∧ ∀ e ∈ past, S.inv e.pre ∧ M.exec e.op e.pre e.res e.post ∧ S.rely e.post s

/-! ## The weakest precondition -/

section WP

variable (M : Machine Op Res σ) (S : Shared σ) (pre : List (Event Op Res σ) → Op → σ → Prop)

/-- The program, with the events of `past` behind it, calls an operation only
where `pre` holds, and ends as `Q` says. -/
def wp : List (Event Op Res σ) → Prog Op Res E α →
    (List (Event Op Res σ) → Except E α → Prop) → Prop
  | past, .pure a, Q => Q past (.ok a)
  | past, .fail e, Q => Q past (.error e)
  | past, .call o k, Q =>
      (∀ s, Past M S past s → pre past o s) ∧
        ∀ s r s', Past M S past s → M.exec o s r s' → wp (past ++ [⟨o, r, s, s'⟩]) (k r) Q

variable {M S pre}

@[simp] theorem wp_pure {past : List (Event Op Res σ)} {a : α}
    {Q : List (Event Op Res σ) → Except E α → Prop} :
    wp M S pre past (Prog.pure a) Q ↔ Q past (.ok a) := Iff.rfl

@[simp] theorem wp_fail {past : List (Event Op Res σ)} {e : E}
    {Q : List (Event Op Res σ) → Except E α → Prop} :
    wp M S pre past (Prog.fail e) Q ↔ Q past (.error e) := Iff.rfl

/-- One call: its precondition now, and the rest of the program after every
answer. -/
theorem wp_call {past : List (Event Op Res σ)} {o : Op} {k : Res o → Prog Op Res E α}
    {Q : List (Event Op Res σ) → Except E α → Prop} :
    wp M S pre past (.call o k) Q ↔ (∀ s, Past M S past s → pre past o s) ∧
      ∀ s r s', Past M S past s → M.exec o s r s' → wp M S pre (past ++ [⟨o, r, s, s'⟩]) (k r) Q :=
  Iff.rfl

/-- A weaker postcondition, on the events that come after the ones behind. -/
theorem wp_mono {past : List (Event Op Res σ)} {p : Prog Op Res E α}
    {Q Q' : List (Event Op Res σ) → Except E α → Prop} (h : wp M S pre past p Q)
    (hQ : ∀ more x, Q (past ++ more) x → Q' (past ++ more) x) : wp M S pre past p Q' := by
  induction p generalizing past with
  | pure a => simpa using hQ [] (.ok a) (by simpa using h)
  | fail e => simpa using hQ [] (.error e) (by simpa using h)
  | call o k ih =>
      refine ⟨h.1, fun s r s' hs hexec => ih r (h.2 s r s' hs hexec) fun more x hx => ?_⟩
      have := hQ (⟨o, r, s, s'⟩ :: more) x
      rw [List.append_assoc] at hx ⊢
      exact this hx

/-- A weaker precondition for the calls. -/
theorem wp_weaken {pre' : List (Event Op Res σ) → Op → σ → Prop} {past : List (Event Op Res σ)}
    {p : Prog Op Res E α} {Q : List (Event Op Res σ) → Except E α → Prop}
    (h : wp M S pre past p Q) (hpre : ∀ past o s, pre past o s → pre' past o s) :
    wp M S pre' past p Q := by
  induction p generalizing past with
  | pure a => exact h
  | fail e => exact h
  | call o k ih =>
      exact ⟨fun s hs => hpre _ o s (h.1 s hs), fun s r s' hs hexec => ih r (h.2 s r s' hs hexec)⟩

/-- Two facts about the end of a program, each with its own precondition. -/
theorem wp_and {pre' : List (Event Op Res σ) → Op → σ → Prop} {past : List (Event Op Res σ)}
    {p : Prog Op Res E α} {Q Q' : List (Event Op Res σ) → Except E α → Prop}
    (h : wp M S pre past p Q) (h' : wp M S pre' past p Q') :
    wp M S pre past p fun past x => Q past x ∧ Q' past x := by
  induction p generalizing past with
  | pure a => exact ⟨h, h'⟩
  | fail e => exact ⟨h, h'⟩
  | call o k ih =>
      exact ⟨h.1, fun s r s' hs hexec => ih r (h.2 s r s' hs hexec) (h'.2 s r s' hs hexec)⟩

/-- Two preconditions for the calls. -/
theorem wp_and_pre {pre' : List (Event Op Res σ) → Op → σ → Prop} {past : List (Event Op Res σ)}
    {p : Prog Op Res E α} {Q : List (Event Op Res σ) → Except E α → Prop}
    (h : wp M S pre past p Q) (h' : wp M S pre' past p fun _ _ => True) :
    wp M S (fun past o s => pre past o s ∧ pre' past o s) past p Q := by
  induction p generalizing past with
  | pure a => exact h
  | fail e => exact h
  | call o k ih =>
      exact ⟨fun s hs => ⟨h.1 s hs, h'.1 s hs⟩,
        fun s r s' hs hexec => ih r (h.2 s r s' hs hexec) (h'.2 s r s' hs hexec)⟩

/-- Nothing is asked of a program that may call anything and end anyhow. -/
theorem wp_true {past : List (Event Op Res σ)} {p : Prog Op Res E α} :
    wp M S (fun _ _ _ => True) past p fun _ _ => True := by
  induction p generalizing past with
  | pure a => trivial
  | fail e => trivial
  | call o k ih => exact ⟨fun _ _ => trivial, fun s r s' _ _ => ih r⟩

/-- Sequencing: the second program starts where the first one ends. -/
theorem wp_bind {past : List (Event Op Res σ)} {p : Prog Op Res E α} {f : α → Prog Op Res E β}
    {Q : List (Event Op Res σ) → Except E β → Prop} :
    wp M S pre past (p >>= f) Q ↔ wp M S pre past p fun past x =>
      match x with
      | .ok a => wp M S pre past (f a) Q
      | .error e => Q past (.error e) := by
  induction p generalizing past with
  | pure a => exact Iff.rfl
  | fail e => exact Iff.rfl
  | call o k ih =>
      rw [Prog.call_bind, wp_call, wp_call]
      exact and_congr_right fun _ => forall_congr' fun s => forall_congr' fun r =>
        forall_congr' fun s' => imp_congr_right fun _ => imp_congr_right fun _ => ih r

theorem wp_tryCatch {past : List (Event Op Res σ)} {p : Prog Op Res E α}
    {h : E → Prog Op Res E α} {Q : List (Event Op Res σ) → Except E α → Prop} :
    wp M S pre past (p.tryCatch h) Q ↔ wp M S pre past p fun past x =>
      match x with
      | .ok a => Q past (.ok a)
      | .error e => wp M S pre past (h e) Q := by
  induction p generalizing past with
  | pure a => exact Iff.rfl
  | fail e => exact Iff.rfl
  | call o k ih =>
      rw [Prog.tryCatch, wp_call, wp_call]
      exact and_congr_right fun _ => forall_congr' fun s => forall_congr' fun r =>
        forall_congr' fun s' => imp_congr_right fun _ => imp_congr_right fun _ => ih r

/-! ## Normal results -/

variable (M S pre) in
/-- A program that returns normally leaves `P`. -/
structure Yields (past : List (Event Op Res σ)) (p : Prog Op Res E α)
    (P : List (Event Op Res σ) → α → Prop) : Prop where
  wp : wp M S pre past p fun past x => ∀ a, x = .ok a → P past a

namespace Yields

variable {past : List (Event Op Res σ)} {p : Prog Op Res E α}
  {P : List (Event Op Res σ) → α → Prop}

theorem pure {a : α} (h : P past a) :
    Yields M S pre past (Prog.pure a : Prog Op Res E α) P := by
  refine ⟨?_⟩
  rintro b hb
  cases hb
  exact h

theorem fail {e : E} : Yields M S pre past (Prog.fail e : Prog Op Res E α) P := by
  refine ⟨?_⟩
  rintro b hb
  cases hb

/-- A weaker postcondition, on the events that come after the ones behind. -/
theorem mono {P' : List (Event Op Res σ) → α → Prop} (h : Yields M S pre past p P)
    (hP : ∀ more a, P (past ++ more) a → P' (past ++ more) a) : Yields M S pre past p P' :=
  ⟨wp_mono h.wp fun more _ hx a ha => hP more a (hx a ha)⟩

/-- Sequencing: the second program starts after some more events. -/
theorem bind {f : α → Prog Op Res E β} {P' : List (Event Op Res σ) → β → Prop}
    (h : Yields M S pre past p P)
    (hf : ∀ more a, P (past ++ more) a → Yields M S pre (past ++ more) (f a) P') :
    Yields M S pre past (p >>= f) P' := by
  refine ⟨wp_bind.mpr (wp_mono h.wp fun more x hx => ?_)⟩
  cases x with
  | ok a => exact (hf more a (hx a rfl)).wp
  | error e =>
      rintro b hb
      cases hb

/-- A call and what follows it. -/
theorem op_bind {o : Op} {f : Res o → Prog Op Res E β} {P' : List (Event Op Res σ) → β → Prop}
    (hpre : ∀ s, Past M S past s → pre past o s)
    (hf : ∀ s r s', Past M S past s → M.exec o s r s' →
      Yields M S pre (past ++ [⟨o, r, s, s'⟩]) (f r) P') :
    Yields M S pre past (Prog.op o >>= f) P' :=
  ⟨⟨hpre, fun s r s' hs hexec => (hf s r s' hs hexec).wp⟩⟩

/-- A handler that always leaves `P`. -/
theorem tryCatch {h : E → Prog Op Res E α} (hp : Yields M S pre past p P)
    (hh : ∀ more e, Yields M S pre (past ++ more) (h e) P) :
    Yields M S pre past (p.tryCatch h) P := by
  refine ⟨wp_tryCatch.mpr (wp_mono hp.wp fun more x hx => ?_)⟩
  cases x with
  | ok a => exact hx
  | error e => exact (hh more e).wp

end Yields

end WP

end Process
