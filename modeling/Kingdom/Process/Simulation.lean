import Kingdom.Process.History
import Kingdom.Process.Logged

/-!
# Machines that stand for others

A machine on simple states may stand for one on the states a program really has, and a run
whose calls all meet a condition is a run of a machine that makes no others.

* `Simulates` — every step of a machine is a step of another, on related states;
  `Runs.simulate` — and so is every run.
* `Reaches` — a program comes to a call.
* `AllMeet`, `restricted` — the logs that meet a condition, and the machine that writes only
  such logs; `Runs.restrict` — a run with such a log is one of that machine.
-/

namespace Process

variable {Op : Type} {Res : Op → Type} {E σ τ α : Type}

/-- Every step of one machine is a step of the other, and keeps the states related. -/
structure Simulates (exec : (o : Op) → σ → Res o → σ → Prop)
    (exec' : (o : Op) → τ → Res o → τ → Prop) (R : σ → τ → Prop) : Prop where
  step : ∀ {o s r s' t}, exec o s r s' → R s t → ∃ t', exec' o t r t' ∧ R s' t'

/-- The log meets the condition, which is about a call and the calls before it. -/
def AllMeet (P : CallLog Op Res → (o : Op) → Res o → Prop) (log : CallLog Op Res) : Prop :=
  ∀ before o r after, log = before ++ ⟨o, r⟩ :: after → P before o r

/-- The machine with a log that makes only the calls that meet the condition. -/
def restricted (exec : (o : Op) → σ → Res o → σ → Prop)
    (P : CallLog Op Res → (o : Op) → Res o → Prop) (o : Op) (s : σ × CallLog Op Res) (r : Res o)
    (s' : σ × CallLog Op Res) : Prop :=
  logged exec o s r s' ∧ P s.2 o r

namespace Prog

variable {exec : (o : Op) → σ → Res o → σ → Prop} {exec' : (o : Op) → τ → Res o → τ → Prop}
  {R : σ → τ → Prop} {p : Prog Op Res E α}

/-! ## Simulation -/

/-- **A run of one machine is a run of the other.** -/
theorem Runs.simulate {s s' : σ} {x : Option (Except E α)} (h : p.Runs exec s x s')
    (hsim : Simulates exec exec' R) {t : τ} (hR : R s t) :
    ∃ t', p.Runs exec' t x t' ∧ R s' t' := by
  induction h generalizing t with
  | pure => exact ⟨t, .pure, hR⟩
  | fail => exact ⟨t, .fail, hR⟩
  | stop => exact ⟨t, .stop, hR⟩
  | call hexec _ ih =>
      obtain ⟨t₁, hstep, hR₁⟩ := hsim.step hexec hR
      obtain ⟨t', hrun, hR'⟩ := ih hR₁
      exact ⟨t', .call hstep hrun, hR'⟩

/-- The two machines write the same log. -/
theorem simulates_logged (h : Simulates exec exec' R) :
    Simulates (logged exec) (logged exec') fun s t => R s.1 t.1 ∧ s.2 = t.2 where
  step := by
    rintro o ⟨s, log⟩ r ⟨s', log'⟩ ⟨t, _⟩ ⟨hexec, hlog⟩ ⟨hR, rfl⟩
    obtain ⟨t', hstep, hR'⟩ := h.step hexec hR
    exact ⟨(t', log'), ⟨hstep, hlog⟩, hR', rfl⟩

/-! ## Calls a program comes to -/

/-- From one state the program comes to a call in another. -/
inductive Reaches (exec : (o : Op) → σ → Res o → σ → Prop) :
    Prog Op Res E α → σ → Op → σ → Prop where
  | here {o k s} : Reaches exec (.call o k) s o s
  | next {o k s r s' o' s''} (hexec : exec o s r s') (h : Reaches exec (k r) s' o' s'') :
      Reaches exec (.call o k) s o' s''

/-- The program may have been stopped there. -/
theorem Reaches.runs {s s' : σ} {o : Op} (h : p.Reaches exec s o s') : p.Runs exec s none s' := by
  induction h with
  | here => exact .stop
  | next hexec _ ih => exact .call hexec ih

/-! ## Conditions on the log -/

variable {P : CallLog Op Res → (o : Op) → Res o → Prop}

/-- A run adds to its log. -/
theorem Runs.prefix_log {s s' : σ × CallLog Op Res} {x : Option (Except E α)}
    (h : p.Runs (Process.logged exec) s x s') : s.2 <+: s'.2 := by
  induction h with
  | pure | fail | stop => exact List.prefix_rfl
  | call hexec _ ih =>
      rw [hexec.2] at ih
      exact (List.prefix_append _ _).trans ih

/-- **A run whose log meets the condition** makes only calls that do. -/
theorem Runs.restrict {s s' : σ × CallLog Op Res} {x : Option (Except E α)}
    (h : p.Runs (Process.logged exec) s x s') (hmeet : AllMeet P s'.2) :
    p.Runs (restricted exec P) s x s' := by
  induction h with
  | pure => exact .pure
  | fail => exact .fail
  | stop => exact .stop
  | @call o k s r s₁ x s' hexec hrun ih =>
      obtain ⟨after, hlog⟩ := hrun.prefix_log
      rw [hexec.2, List.append_assoc] at hlog
      exact .call ⟨hexec, hmeet s.2 o r after hlog.symm⟩ (ih hmeet)

end Prog

/-- The start of a log that meets the condition meets it. -/
theorem AllMeet.of_prefix {P : CallLog Op Res → (o : Op) → Res o → Prop}
    {log log' : CallLog Op Res} (h : AllMeet P log') (hcut : log <+: log') : AllMeet P log := by
  obtain ⟨more, rfl⟩ := hcut
  rintro before o r after rfl
  exact h before o r (after ++ more) (by rw [List.append_assoc]; rfl)

/-- One more call that meets the condition. -/
theorem AllMeet.snoc {P : CallLog Op Res → (o : Op) → Res o → Prop} {log : CallLog Op Res} {o : Op}
    {r : Res o} (h : AllMeet P log) (hlast : P log o r) : AllMeet P (log ++ [⟨o, r⟩]) := by
  intro before o' r' after hlog
  exact forall_split_snoc (P := fun before y => P before y.1 y.2)
    (fun before y after hlog => h before y.1 y.2 after hlog) hlast before ⟨o', r'⟩ after hlog

/-- More calls that meet it, whatever was before them. -/
theorem AllMeet.append {P : CallLog Op Res → (o : Op) → Res o → Prop} {log more : CallLog Op Res}
    (h : AllMeet P log) (hmore : ∀ e ∈ more, ∀ before, P before e.1 e.2) : AllMeet P (log ++ more) := by
  induction more generalizing log with
  | nil =>
      rw [List.append_nil]
      exact h
  | cons e more ih =>
      have hlast : AllMeet P (log ++ [e]) := h.snoc (hmore e List.mem_cons_self log)
      rw [List.append_cons]
      exact ih hlast fun e' he' => hmore e' (List.mem_cons_of_mem _ he')

end Process
