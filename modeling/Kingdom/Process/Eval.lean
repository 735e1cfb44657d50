import Kingdom.Process.Interleave

/-!
# Running one program after another

A machine that always has an answer can be run: `Prog.eval` takes a program from
its start to its end, and what it computes is the end of a run of the system.

* `Prog.result?` — the result of a program that has ended; `Prog.after` — the program
  after one answered call.
* `Prog.eval`, `Prog.events` — the result of a program that runs alone, the state it
  leaves and the calls it makes.
* `Prog.eval_bind`, `Prog.eval_tryCatch` — its rules.
* `Run.eval` — the run behind it, with a step for each of these calls.
* `System.moves`, `Run.moves` — the run of a schedule that says which program makes
  the next call.
-/

namespace Process

variable {Op : Type} {Res : Op → Type} {E σ α Task : Type}

/-- Run a program alone, with the answers of a deterministic machine. -/
def Prog.eval (answer : (o : Op) → σ → Res o × σ) : Prog Op Res E α → σ → Except E α × σ
  | .pure a, s => (.ok a, s)
  | .fail e, s => (.error e, s)
  | .call o k, s => (k (answer o s).1).eval answer (answer o s).2

section Rules

variable {β : Type} {answer : (o : Op) → σ → Res o × σ}

@[simp] theorem Prog.eval_pure (a : α) (s : σ) :
    (Prog.pure a : Prog Op Res E α).eval answer s = (.ok a, s) := rfl

@[simp] theorem Prog.eval_fail (e : E) (s : σ) :
    (Prog.fail e : Prog Op Res E α).eval answer s = (.error e, s) := rfl

@[simp] theorem Prog.eval_op (o : Op) (s : σ) :
    (Prog.op o : Prog Op Res E (Res o)).eval answer s = (.ok (answer o s).1, (answer o s).2) := rfl

@[simp] theorem Prog.eval_ofExcept (x : Except E α) (s : σ) :
    (Prog.ofExcept x : Prog Op Res E α).eval answer s = (x, s) := by
  cases x <;> rfl

/-- Sequencing: the second program starts where the first one ends. -/
theorem Prog.eval_bind (p : Prog Op Res E α) (f : α → Prog Op Res E β) (s : σ) :
    (p >>= f).eval answer s =
      match p.eval answer s with
      | (.ok a, s') => (f a).eval answer s'
      | (.error e, s') => (.error e, s') := by
  induction p generalizing s with
  | pure a => rfl
  | fail e => rfl
  | call o k ih => exact ih _ _

theorem Prog.eval_tryCatch (p : Prog Op Res E α) (h : E → Prog Op Res E α) (s : σ) :
    (p.tryCatch h).eval answer s =
      match p.eval answer s with
      | (.ok a, s') => (.ok a, s')
      | (.error e, s') => (h e).eval answer s' := by
  induction p generalizing s with
  | pure a => rfl
  | fail e => rfl
  | call o k ih => exact ih _ _

end Rules

/-- The calls it makes. -/
def Prog.events (answer : (o : Op) → σ → Res o × σ) :
    Prog Op Res E α → σ → List (Event Op Res σ)
  | .pure _, _ => []
  | .fail _, _ => []
  | .call o k, s =>
      ⟨o, (answer o s).1, s, (answer o s).2⟩ :: (k (answer o s).1).events answer (answer o s).2

/-- A program that has ended. -/
def Prog.ended : Except E α → Prog Op Res E α
  | .ok a => .pure a
  | .error e => .fail e

/-- The result of a program that has ended. -/
def Prog.result? : Prog Op Res E α → Option (Except E α)
  | .pure a => some (.ok a)
  | .fail e => some (.error e)
  | .call .. => none

/-- The next call of a program. -/
def Prog.next? : Prog Op Res E α → Option Op
  | .call o _ => some o
  | _ => none

/-- The program after an answered call. -/
def Prog.after [DecidableEq Op] (o : Op) (r : Res o) : Prog Op Res E α → Option (Prog Op Res E α)
  | .call o' k => if h : o = o' then some (k (h ▸ r)) else none
  | _ => none

@[simp] theorem Prog.after_call [DecidableEq Op] {o : Op} {r : Res o} {k : Res o → Prog Op Res E α} :
    (Prog.call o k).after o r = some (k r) := by
  simp [Prog.after]

/-- A thread whose next call this is. -/
theorem exists_call_of_next {ths : List (Thread Op Res E σ α Task)} {i : Nat} {o : Op}
    (h : ths[i]?.bind (fun th => th.prog.next?) = some o) :
    ∃ t past k, ths[i]? = some ⟨t, past, .call o k⟩ := by
  obtain ⟨⟨t, past, p⟩, hget, hnext⟩ := Option.bind_eq_some_iff.mp h
  cases p with
  | call o' k =>
      cases hnext
      exact ⟨t, past, k, hget⟩
  | pure a => cases hnext
  | fail e => cases hnext

theorem Prog.eq_pure {p : Prog Op Res E α} {a : α} (h : p.result? = some (.ok a)) : p = .pure a := by
  cases p with
  | pure b =>
      cases h
      rfl
  | fail e => cases h
  | call o k => cases h

variable {M : Machine Op Res σ} {prog : Task → Prog Op Res E α}
  {answer : (o : Op) → σ → Res o × σ}

/-- A program that has ended has its postcondition. -/
theorem wp_result {S : Shared σ} {pre : List (Event Op Res σ) → Op → σ → Prop}
    {past : List (Event Op Res σ)} {p : Prog Op Res E α} {x : Except E α}
    {Q : List (Event Op Res σ) → Except E α → Prop} (hx : p.result? = some x)
    (h : wp M S pre past p Q) : Q past x := by
  cases p with
  | pure a =>
      cases hx
      exact h
  | fail e =>
      cases hx
      exact h
  | call o k => cases hx

/-- The last thread of a system can run to its end. -/
theorem Run.eval_last (h : ∀ o s, M.exec o s (answer o s).1 (answer o s).2) (t : Task)
    (ths : List (Thread Op Res E σ α Task)) (p : Prog Op Res E α) :
    ∀ (past : List (Event Op Res σ)) (s : σ), ∃ tr,
      Run M prog ⟨s, ths ++ [⟨t, past, p⟩]⟩ tr ⟨(p.eval answer s).2,
        ths ++ [⟨t, past ++ p.events answer s, Prog.ended (p.eval answer s).1⟩]⟩ ∧
      tr.map (fun x => (x.1.state, x.2)) =
        (p.events answer s).map fun e => (e.pre, .call ths.length e.op e.res) := by
  induction p with
  | pure a =>
      intro past s
      refine ⟨[], ?_, rfl⟩
      rw [Prog.events, List.append_nil]
      exact .nil _
  | fail e =>
      intro past s
      refine ⟨[], ?_, rfl⟩
      rw [Prog.events, List.append_nil]
      exact .nil _
  | call o k ih =>
      intro past s
      obtain ⟨tr, hrun, hsteps⟩ := ih (answer o s).1
        (past ++ [⟨o, (answer o s).1, s, (answer o s).2⟩]) (answer o s).2
      rw [List.append_assoc] at hrun
      have hget : (ths ++ [(⟨t, past, .call o k⟩ : Thread Op Res E σ α Task)])[ths.length]? =
          some ⟨t, past, .call o k⟩ := by simp
      have hstep : Step M prog _ _ _ := Step.call hget (h o s)
      simp only [List.set_append_right _ _ (Nat.le_refl _), Nat.sub_self, List.set_cons_zero]
        at hstep
      refine ⟨_, (Run.snoc (.nil _) hstep).append hrun, ?_⟩
      rw [List.map_append, hsteps, Prog.events, List.map_cons]
      rfl

/-- **What a program computes alone is the end of a run.** -/
theorem Run.eval (h : ∀ o s, M.exec o s (answer o s).1 (answer o s).2) (t : Task) (s : σ)
    (ths : List (Thread Op Res E σ α Task)) :
    ∃ tr, Run M prog ⟨s, ths⟩ tr ⟨((prog t).eval answer s).2, ths ++
        [⟨t, (prog t).events answer s, Prog.ended ((prog t).eval answer s).1⟩]⟩ ∧
      tr.map (fun x => (x.1.state, x.2)) = (s, .start t) ::
        ((prog t).events answer s).map fun e => (e.pre, .call ths.length e.op e.res) := by
  obtain ⟨tr, hrun, hsteps⟩ := Run.eval_last h t ths (prog t) [] s
  refine ⟨_, (Run.snoc (.nil _) (.start t)).append hrun, ?_⟩
  rw [List.map_append, hsteps]
  rfl

/-! ## Schedules -/

/-- Start a program, or let one that was started make its next call. -/
inductive Move (Task : Type) where
  | start (t : Task)
  | call (i : Nat)

/-- The run of a schedule; a program that has ended makes no call. -/
def System.moves (answer : (o : Op) → σ → Res o × σ) (prog : Task → Prog Op Res E α) :
    System Op Res E σ α Task → List (Move Task) → Trace Op Res E σ α Task × System Op Res E σ α Task
  | w, [] => ([], w)
  | w, .start t :: ms =>
      let rest := System.moves answer prog ⟨w.state, w.threads ++ [⟨t, [], prog t⟩]⟩ ms
      ((w, .start t) :: rest.1, rest.2)
  | w, .call i :: ms =>
      match w.threads[i]? with
      | some ⟨t, past, .call o k⟩ =>
          let r := answer o w.state
          let rest := System.moves answer prog
            ⟨r.2, w.threads.set i ⟨t, past ++ [⟨o, r.1, w.state, r.2⟩], k r.1⟩⟩ ms
          ((w, .call i o r.1) :: rest.1, rest.2)
      | _ => System.moves answer prog w ms

/-- **A schedule is a run.** -/
theorem Run.moves (h : ∀ o s, M.exec o s (answer o s).1 (answer o s).2)
    (ms : List (Move Task)) (w : System Op Res E σ α Task) :
    Run M prog w (w.moves answer prog ms).1 (w.moves answer prog ms).2 := by
  induction ms generalizing w with
  | nil => exact .nil w
  | cons m ms ih =>
      cases m with
      | start t => exact (Run.snoc (.nil _) (.start t)).append (ih _)
      | call i =>
          rw [System.moves]
          split
          · rename_i t past o k hget
            exact (Run.snoc (.nil _) (.call hget (h o w.state))).append (ih _)
          · exact ih w

end Process
