import Kingdom.Process.Eval

/-!
# Programs that run alone

One program at a time runs on a machine whose operations may fail, and the
process may stop between any two of its calls.

* `Prog.Runs` — a program runs to its result, or is stopped on the way.
* `Prog.Ensures` — the program passes only through states of an invariant and
  ends as a postcondition says; `ensures_iff` compares it with the runs.
* `ensures_bind`, `ensures_tryCatch`, `ensures_mono` — its rules.
* `exists_runs` — a machine that always answers lets every program end.
* `runs_eval` — what `Prog.eval` computes is the end of a run.
-/

namespace Process

variable {Op : Type} {Res : Op → Type} {E σ α β : Type}

namespace Prog

/-- Ask for an exception as a value. -/
def attempt (p : Prog Op Res E α) : Prog Op Res E (Except E α) :=
  (p >>= fun a => .pure (.ok a)).tryCatch fun e => .pure (.error e)

variable (exec : (o : Op) → σ → Res o → σ → Prop)

/-- A program runs to its result, or stops before it has one. -/
inductive Runs : Prog Op Res E α → σ → Option (Except E α) → σ → Prop where
  | pure {a s} : Runs (.pure a) s (some (.ok a)) s
  | fail {e s} : Runs (.fail e) s (some (.error e)) s
  | stop {p s} : Runs p s none s
  | call {o k s r s' x s''} (hexec : exec o s r s') (h : Runs (k r) s' x s'') :
      Runs (.call o k) s x s''

/-- Run from `s`, the program passes only through states of `I` and ends as `Q`
says. -/
def Ensures (I : σ → Prop) : Prog Op Res E α → σ → (Except E α → σ → Prop) → Prop
  | .pure a, s, Q => I s ∧ Q (.ok a) s
  | .fail e, s, Q => I s ∧ Q (.error e) s
  | .call o k, s, Q => I s ∧ ∀ r s', exec o s r s' → (k r).Ensures I s' Q

variable {exec} {I : σ → Prop}

@[simp] theorem ensures_pure {a : α} {s : σ} {Q : Except E α → σ → Prop} :
    Ensures exec I (.pure a : Prog Op Res E α) s Q ↔ I s ∧ Q (.ok a) s := Iff.rfl

@[simp] theorem ensures_fail {e : E} {s : σ} {Q : Except E α → σ → Prop} :
    Ensures exec I (.fail e : Prog Op Res E α) s Q ↔ I s ∧ Q (.error e) s := Iff.rfl

theorem ensures_call {o : Op} {k : Res o → Prog Op Res E α} {s : σ}
    {Q : Except E α → σ → Prop} :
    Ensures exec I (.call o k) s Q ↔
      I s ∧ ∀ r s', exec o s r s' → (k r).Ensures exec I s' Q := Iff.rfl

theorem ensures_op {o : Op} {s : σ} {Q : Except E (Res o) → σ → Prop} :
    Ensures exec I (op o) s Q ↔ I s ∧ ∀ r s', exec o s r s' → I s' ∧ Q (.ok r) s' := Iff.rfl

/-- A program that passes through the invariant starts in it. -/
theorem Ensures.start {p : Prog Op Res E α} {s : σ} {Q : Except E α → σ → Prop}
    (h : p.Ensures exec I s Q) : I s := by
  cases p with
  | pure a => exact h.1
  | fail e => exact h.1
  | call o k => exact h.1

theorem ensures_mono {p : Prog Op Res E α} {s : σ} {Q Q' : Except E α → σ → Prop}
    (h : p.Ensures exec I s Q) (hQ : ∀ x s', Q x s' → Q' x s') : p.Ensures exec I s Q' := by
  induction p generalizing s with
  | pure a => exact ⟨h.1, hQ _ _ h.2⟩
  | fail e => exact ⟨h.1, hQ _ _ h.2⟩
  | call o k ih => exact ⟨h.1, fun r s' hexec => ih r (h.2 r s' hexec)⟩

/-- Every program passes through some states and ends somehow. -/
theorem ensures_true (p : Prog Op Res E α) (s : σ) :
    p.Ensures exec (fun _ => True) s fun _ _ => True := by
  induction p generalizing s with
  | pure a => exact ⟨trivial, trivial⟩
  | fail e => exact ⟨trivial, trivial⟩
  | call o k ih => exact ⟨trivial, fun r s' _ => ih r s'⟩

/-- A weaker invariant. -/
theorem ensures_weaken {I' : σ → Prop} {p : Prog Op Res E α} {s : σ} {Q : Except E α → σ → Prop}
    (h : p.Ensures exec I s Q) (hI : ∀ s', I s' → I' s') : p.Ensures exec I' s Q := by
  induction p generalizing s with
  | pure a => exact ⟨hI _ h.1, h.2⟩
  | fail e => exact ⟨hI _ h.1, h.2⟩
  | call o k ih => exact ⟨hI _ h.1, fun r s' hexec => ih r (h.2 r s' hexec)⟩

/-- Sequencing: the second program starts where the first one ends. -/
theorem ensures_bind {p : Prog Op Res E α} {f : α → Prog Op Res E β} {s : σ}
    {Q : Except E β → σ → Prop} :
    (p >>= f).Ensures exec I s Q ↔ p.Ensures exec I s fun x s' =>
      match x with
      | .ok a => (f a).Ensures exec I s' Q
      | .error e => Q (.error e) s' := by
  induction p generalizing s with
  | pure a => exact ⟨fun h => ⟨h.start, h⟩, fun h => h.2⟩
  | fail e => exact Iff.rfl
  | call o k ih =>
      rw [call_bind, ensures_call, ensures_call]
      exact and_congr_right fun _ => forall_congr' fun r => forall_congr' fun s' =>
        imp_congr_right fun _ => ih r

theorem ensures_tryCatch {p : Prog Op Res E α} {h : E → Prog Op Res E α} {s : σ}
    {Q : Except E α → σ → Prop} :
    (p.tryCatch h).Ensures exec I s Q ↔ p.Ensures exec I s fun x s' =>
      match x with
      | .ok a => Q (.ok a) s'
      | .error e => (h e).Ensures exec I s' Q := by
  induction p generalizing s with
  | pure a => exact Iff.rfl
  | fail e => exact ⟨fun h => ⟨h.start, h⟩, fun h => h.2⟩
  | call o k ih =>
      rw [tryCatch, ensures_call, ensures_call]
      exact and_congr_right fun _ => forall_congr' fun r => forall_congr' fun s' =>
        imp_congr_right fun _ => ih r

/-- The invariant holds at the end too. -/
theorem Ensures.withInv {p : Prog Op Res E α} {s : σ} {Q : Except E α → σ → Prop}
    (h : p.Ensures exec I s Q) : p.Ensures exec I s fun x s' => I s' ∧ Q x s' := by
  induction p generalizing s with
  | pure a => exact ⟨h.1, h.1, h.2⟩
  | fail e => exact ⟨h.1, h.1, h.2⟩
  | call o k ih => exact ⟨h.1, fun r s' hexec => ih r (h.2 r s' hexec)⟩

theorem ensures_attempt {p : Prog Op Res E α} {s : σ} {Q : Except E (Except E α) → σ → Prop} :
    p.attempt.Ensures exec I s Q ↔ p.Ensures exec I s fun x s' => Q (.ok x) s' := by
  rw [attempt, ensures_tryCatch, ensures_bind]
  constructor
  · intro h
    refine ensures_mono h fun x s' hx => ?_
    cases x with
    | ok a => exact hx.2
    | error e => exact hx.2
  · intro h
    refine ensures_mono h.withInv fun x s' hx => ?_
    cases x with
    | ok a => exact hx
    | error e => exact hx

theorem ensures_ofExcept {x : Except E α} {s : σ} {Q : Except E α → σ → Prop} :
    (ofExcept x : Prog Op Res E α).Ensures exec I s Q ↔ I s ∧ Q x s := by
  cases x <;> exact Iff.rfl

/-- **The rules say what the runs do.** -/
theorem ensures_iff {p : Prog Op Res E α} {s : σ} {Q : Except E α → σ → Prop} :
    p.Ensures exec I s Q ↔
      ∀ x s', p.Runs exec s x s' → I s' ∧ ∀ y, x = some y → Q y s' := by
  constructor
  · intro h x s' hrun
    induction hrun with
    | pure => exact ⟨h.1, fun y hy => Option.some.inj hy ▸ h.2⟩
    | fail => exact ⟨h.1, fun y hy => Option.some.inj hy ▸ h.2⟩
    | stop => exact ⟨h.start, fun y hy => by cases hy⟩
    | call hexec _ ih => exact ih (h.2 _ _ hexec)
  · intro h
    induction p generalizing s with
    | pure a => exact ⟨(h _ _ .pure).1, (h _ _ .pure).2 _ rfl⟩
    | fail e => exact ⟨(h _ _ .fail).1, (h _ _ .fail).2 _ rfl⟩
    | call o k ih =>
        refine ⟨(h _ _ .stop).1, fun r s' hexec => ih r fun x s'' hrun => ?_⟩
        exact h x s'' (.call hexec hrun)

/-- The end of a run that was not stopped. -/
theorem Ensures.of_runs {p : Prog Op Res E α} {s s' : σ} {x : Except E α}
    {Q : Except E α → σ → Prop} (h : p.Ensures exec I s Q) (hrun : p.Runs exec s (some x) s') :
    Q x s' :=
  (ensures_iff.mp h _ _ hrun).2 x rfl

/-- A machine that always answers lets every program end. -/
theorem exists_runs (hexec : ∀ o s, ∃ r s', exec o s r s') (p : Prog Op Res E α) (s : σ) :
    ∃ x s', p.Runs exec s (some x) s' := by
  induction p generalizing s with
  | pure a => exact ⟨_, _, .pure⟩
  | fail e => exact ⟨_, _, .fail⟩
  | call o k ih =>
      obtain ⟨r, s', hr⟩ := hexec o s
      obtain ⟨x, s'', hrun⟩ := ih r s'
      exact ⟨x, s'', .call hr hrun⟩

/-- What a program computes with the answers of a deterministic machine is the end
of a run. -/
theorem runs_eval {answer : (o : Op) → σ → Res o × σ}
    (hexec : ∀ o s, exec o s (answer o s).1 (answer o s).2) (p : Prog Op Res E α) (s : σ) :
    p.Runs exec s (some (p.eval answer s).1) (p.eval answer s).2 := by
  induction p generalizing s with
  | pure a => exact .pure
  | fail e => exact .fail
  | call o k ih => exact .call (hexec o s) (ih _ _)

end Prog

end Process
