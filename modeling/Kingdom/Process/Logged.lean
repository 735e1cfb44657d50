import Kingdom.Process.Sequential

/-!
# Runs with a log of their calls

A machine that writes down every call and its answer, beside the state it works on.

* `logged` — the machine with its log.
* `ensures_logged` — the log changes nothing of what a program does.
* `Prog.Only` — the calls a program can make; `Prog.Only.ensures_log` says what it adds
  to the log.
-/

namespace Process

variable {Op : Type} {Res : Op → Type} {E σ α β : Type}

/-- The calls that were made, with their answers. -/
abbrev CallLog (Op : Type) (Res : Op → Type) := List (Σ o : Op, Res o)

/-- The machine with a log. -/
def logged (exec : (o : Op) → σ → Res o → σ → Prop) (o : Op) (s : σ × CallLog Op Res) (r : Res o)
    (s' : σ × CallLog Op Res) : Prop :=
  exec o s.1 r s'.1 ∧ s'.2 = s.2 ++ [⟨o, r⟩]

theorem logged_total {exec : (o : Op) → σ → Res o → σ → Prop}
    (h : ∀ o s, ∃ r s', exec o s r s') (o : Op) (s : σ × CallLog Op Res) :
    ∃ r s', logged exec o s r s' := by
  obtain ⟨r, s', hexec⟩ := h o s.1
  exact ⟨r, (s', s.2 ++ [⟨o, r⟩]), hexec, rfl⟩

theorem logged_mono {exec exec' : (o : Op) → σ → Res o → σ → Prop}
    (h : ∀ o s r s', exec' o s r s' → exec o s r s') (o : Op) (s : σ × CallLog Op Res) (r : Res o)
    (s' : σ × CallLog Op Res) (hexec : logged exec' o s r s') : logged exec o s r s' :=
  ⟨h o s.1 r s'.1 hexec.1, hexec.2⟩

namespace Prog

variable {exec : (o : Op) → σ → Res o → σ → Prop} {I : σ → Prop}

/-- **The log changes nothing**: a program does with it what it does without. -/
theorem ensures_logged {p : Prog Op Res E α} {s : σ} {log : CallLog Op Res}
    {Q : Except E α → σ → Prop} :
    p.Ensures (logged exec) (fun s => I s.1) (s, log) (fun x s' => Q x s'.1) ↔
      p.Ensures exec I s Q := by
  induction p generalizing s log with
  | pure a => exact Iff.rfl
  | fail e => exact Iff.rfl
  | call o k ih =>
      rw [ensures_call, ensures_call]
      refine and_congr_right fun _ => forall_congr' fun r => ?_
      constructor
      · intro h s' hexec
        exact (ih r).mp (h (s', log ++ [⟨o, r⟩]) ⟨hexec, rfl⟩)
      · rintro h ⟨s', log'⟩ ⟨hexec, -⟩
        exact (ih r).mpr (h s' hexec)

/-- A run with its log. -/
theorem Runs.logged {p : Prog Op Res E α} {s s' : σ} {x : Option (Except E α)}
    (h : p.Runs exec s x s') (log : CallLog Op Res) :
    ∃ log', p.Runs (logged exec) (s, log) x (s', log') := by
  induction h generalizing log with
  | pure => exact ⟨log, .pure⟩
  | fail => exact ⟨log, .fail⟩
  | stop => exact ⟨log, .stop⟩
  | @call o k s r s' x s'' hexec _ ih =>
      obtain ⟨log', hrun⟩ := ih (log ++ [⟨o, r⟩])
      exact ⟨log', .call ⟨hexec, rfl⟩ hrun⟩

theorem ensures_logged_op {o : Op} {s : σ} {log : CallLog Op Res} {I : σ × CallLog Op Res → Prop}
    {Q : Except E (Res o) → σ × CallLog Op Res → Prop} :
    (op o).Ensures (logged exec) I (s, log) Q ↔ I (s, log) ∧ ∀ r s', exec o s r s' →
      I (s', log ++ [⟨o, r⟩]) ∧ Q (.ok r) (s', log ++ [⟨o, r⟩]) := by
  rw [ensures_op]
  refine and_congr_right fun _ => forall_congr' fun r => ?_
  constructor
  · intro h s' hexec
    exact h (s', log ++ [⟨o, r⟩]) ⟨hexec, rfl⟩
  · rintro h ⟨s', log'⟩ ⟨hexec, rfl⟩
    exact h s' hexec

/-- A run of a machine that takes fewer steps. -/
theorem Runs.of_le {exec' : (o : Op) → σ → Res o → σ → Prop} {p : Prog Op Res E α} {s s' : σ}
    {x : Option (Except E α)} (h : p.Runs exec' s x s')
    (hle : ∀ o s r s', exec' o s r s' → exec o s r s') : p.Runs exec s x s' := by
  induction h with
  | pure => exact .pure
  | fail => exact .fail
  | stop => exact .stop
  | call hexec _ ih => exact .call (hle _ _ _ _ hexec) ih

/-- Two facts about the end of a run. -/
theorem Ensures.and {p : Prog Op Res E α} {s : σ} {Q Q' : Except E α → σ → Prop}
    (h : p.Ensures exec I s Q) (h' : p.Ensures exec I s Q') :
    p.Ensures exec I s fun x s' => Q x s' ∧ Q' x s' := by
  induction p generalizing s with
  | pure a => exact ⟨h.1, h.2, h'.2⟩
  | fail e => exact ⟨h.1, h.2, h'.2⟩
  | call o k ih => exact ⟨h.1, fun r s' hexec => ih r (h.2 r s' hexec) (h'.2 r s' hexec)⟩

/-- A program that can end does so as all its runs do. -/
theorem Ensures.exists_of_total {p : Prog Op Res E α} {s : σ} {Q : Except E α → σ → Prop}
    (h : p.Ensures exec I s Q) (hexec : ∀ o s, ∃ r s', exec o s r s') :
    ∃ x s', p.Runs exec s (some x) s' ∧ Q x s' := by
  obtain ⟨x, s', hrun⟩ := exists_runs hexec p s
  exact ⟨x, s', hrun, h.of_runs hrun⟩

/-! ## The calls of a program -/

/-- All calls of the program are of this kind. -/
def Only (P : Op → Prop) : Prog Op Res E α → Prop
  | .pure _ => True
  | .fail _ => True
  | .call o k => P o ∧ ∀ r, (k r).Only P

variable {P : Op → Prop}

theorem only_true (p : Prog Op Res E α) : p.Only fun _ => True := by
  induction p with
  | pure a => trivial
  | fail e => trivial
  | call o k ih => exact ⟨trivial, ih⟩

/-- Such calls may be all that is asked of a program. -/
theorem wp_of_only {M : Machine Op Res σ} {S : Shared σ}
    {pre : List (Event Op Res σ) → Op → σ → Prop} {p : Prog Op Res E α} (h : p.Only P)
    (hpre : ∀ past o s, P o → pre past o s) (past : List (Event Op Res σ)) :
    wp M S pre past p fun _ _ => True := by
  induction p generalizing past with
  | pure a => trivial
  | fail e => trivial
  | call o k ih => exact ⟨fun s _ => hpre past o s h.1, fun s r s' _ _ => ih r (h.2 r) _⟩

/-- What a program does on one machine it does on another that takes fewer steps, as far as
the calls of the program go. -/
theorem Ensures.of_only {exec' : (o : Op) → σ → Res o → σ → Prop} {p : Prog Op Res E α} {s : σ}
    {Q : Except E α → σ → Prop} (h : p.Ensures exec I s Q) (hp : p.Only P)
    (hle : ∀ o s r s', P o → exec' o s r s' → exec o s r s') : p.Ensures exec' I s Q := by
  induction p generalizing s with
  | pure a => exact h
  | fail e => exact h
  | call o k ih =>
      exact ⟨h.1, fun r s' hexec => ih r (h.2 r s' (hle _ _ _ _ hp.1 hexec)) (hp.2 r)⟩

/-- **What no call of the program changes stays.** -/
theorem Only.ensures_same {γ : Type} {p : Prog Op Res E α} (h : p.Only P) (f : σ → γ)
    (hP : ∀ o s r s', P o → exec o s r s' → f s' = f s) (s : σ) :
    p.Ensures exec (fun s' => f s' = f s) s fun _ s' => f s' = f s := by
  have hinv : ∀ {s' : σ}, f s' = f s →
      p.Ensures exec (fun s' => f s' = f s) s' fun _ s' => f s' = f s := by
    induction p with
    | pure a => exact fun hs => ⟨hs, hs⟩
    | fail e => exact fun hs => ⟨hs, hs⟩
    | call o k ih =>
        exact fun hs => ⟨hs, fun r s'' hexec => ih r (h.2 r) ((hP _ _ _ _ h.1 hexec).trans hs)⟩
  exact hinv rfl

theorem Ensures.of_le {exec' : (o : Op) → σ → Res o → σ → Prop} {p : Prog Op Res E α} {s : σ}
    {Q : Except E α → σ → Prop} (h : p.Ensures exec I s Q)
    (hle : ∀ o s r s', exec' o s r s' → exec o s r s') : p.Ensures exec' I s Q :=
  h.of_only (only_true p) fun o s r s' _ => hle o s r s'

theorem only_mono {Q : Op → Prop} {p : Prog Op Res E α} (h : p.Only P) (hPQ : ∀ o, P o → Q o) :
    p.Only Q := by
  induction p with
  | pure | fail => trivial
  | call o k ih => exact ⟨hPQ o h.1, fun r => ih r (h.2 r)⟩

/-- A machine that answers these calls lets the program end. -/
theorem Only.exists_runs {p : Prog Op Res E α} (h : p.Only P)
    (hexec : ∀ o s, P o → ∃ r s', exec o s r s') (s : σ) : ∃ x s', p.Runs exec s (some x) s' := by
  induction p generalizing s with
  | pure a => exact ⟨_, _, .pure⟩
  | fail e => exact ⟨_, _, .fail⟩
  | call o k ih =>
      obtain ⟨r, s', hr⟩ := hexec o s h.1
      obtain ⟨x, s'', hrun⟩ := ih r (h.2 r) s'
      exact ⟨x, s'', .call hr hrun⟩

theorem only_op {o : Op} (h : P o) : (op o : Prog Op Res E (Res o)).Only P := ⟨h, fun _ => trivial⟩

theorem only_bind {p : Prog Op Res E α} {f : α → Prog Op Res E β} (hp : p.Only P)
    (hf : ∀ a, (f a).Only P) : (p >>= f).Only P := by
  induction p with
  | pure a => exact hf a
  | fail e => trivial
  | call o k ih => exact ⟨hp.1, fun r => ih r (hp.2 r)⟩

theorem only_tryCatch {p : Prog Op Res E α} {handler : E → Prog Op Res E α} (hp : p.Only P)
    (hhandler : ∀ e, (handler e).Only P) : (p.tryCatch handler).Only P := by
  induction p with
  | pure => trivial
  | fail e => exact hhandler e
  | call o k ih => exact ⟨hp.1, fun r => ih r (hp.2 r)⟩

theorem only_attempt {p : Prog Op Res E α} (h : p.Only P) : p.attempt.Only P := by
  induction p with
  | pure | fail => trivial
  | call o k ih => exact ⟨h.1, fun r => ih r (h.2 r)⟩

theorem only_ofExcept (x : Except E α) : (ofExcept x : Prog Op Res E α).Only P := by
  cases x <;> trivial

/-- **What a program adds to the log** is of the kind of its calls. -/
theorem Only.ensures_log {p : Prog Op Res E α} (h : p.Only P) (s : σ) (log : CallLog Op Res) :
    p.Ensures (logged exec) (fun _ => True) (s, log) fun _ s' =>
      ∃ more, s'.2 = log ++ more ∧ ∀ c ∈ more, P c.1 := by
  induction p generalizing s log with
  | pure a => exact ⟨trivial, [], (List.append_nil log).symm, by simp⟩
  | fail e => exact ⟨trivial, [], (List.append_nil log).symm, by simp⟩
  | call o k ih =>
      refine ⟨trivial, ?_⟩
      rintro r ⟨s', log'⟩ ⟨-, rfl⟩
      refine ensures_mono (ih r (h.2 r) s' (log ++ [⟨o, r⟩])) ?_
      rintro x s'' ⟨more, heq, hmore⟩
      refine ⟨⟨o, r⟩ :: more, by rw [heq, List.append_assoc]; rfl, fun c hc => ?_⟩
      rcases List.mem_cons.mp hc with rfl | hc
      · exact h.1
      · exact hmore c hc

end Prog

end Process
