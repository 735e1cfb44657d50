import Kingdom.Process.Program
import Mathlib.Data.List.Basic

/-!
# Interleaved programs

Any number of programs run against one machine.  A step starts a program, lets
one of the running programs make its next call, lets the environment move, or
restarts the machine and drops every program.

* `Step`, `Run` — steps and finite runs; a run keeps each state it left and the
  label of the step it took there.
* `Contract` — an invariant, the changes programs may rely on, a precondition for
  every call and a postcondition for every program, with what has to be checked:
  one obligation for each operation and one weakest precondition for each
  program.
* `Contract.sound_run` — in every run the invariant holds, and every running
  program is still as its contract says; `Contract.pre_of_call` reads off the
  precondition at each call of a run.
-/

namespace Process

variable {Op : Type} {Res : Op → Type} {E σ α Task : Type}

/-- A running program, and the calls it has made. -/
structure Thread (Op : Type) (Res : Op → Type) (E σ α Task : Type) where
  task : Task
  past : List (Event Op Res σ)
  prog : Prog Op Res E α

/-- The shared state and the programs that were started. -/
structure System (Op : Type) (Res : Op → Type) (E σ α Task : Type) where
  state : σ
  threads : List (Thread Op Res E σ α Task)

/-- What a step does. -/
inductive Label (Op : Type) (Res : Op → Type) (Task : Type) where
  | start (t : Task)
  | call (i : Nat) (o : Op) (r : Res o)
  | env
  | restart

section Semantics

variable (M : Machine Op Res σ) (prog : Task → Prog Op Res E α)

/-- One step of the system. -/
inductive Step : System Op Res E σ α Task → Label Op Res Task →
    System Op Res E σ α Task → Prop where
  | start {s ths} (t : Task) : Step ⟨s, ths⟩ (.start t) ⟨s, ths ++ [⟨t, [], prog t⟩]⟩
  | call {s s' ths} {i : Nat} {t past o k} {r : Res o} (hth : ths[i]? = some ⟨t, past, .call o k⟩)
      (hexec : M.exec o s r s') :
      Step ⟨s, ths⟩ (.call i o r) ⟨s', ths.set i ⟨t, past ++ [⟨o, r, s, s'⟩], k r⟩⟩
  | env {s s' ths} (h : M.env s s') : Step ⟨s, ths⟩ .env ⟨s', ths⟩
  | restart {s s' ths} (h : M.restart s s') : Step ⟨s, ths⟩ .restart ⟨s', []⟩

/-- The states a run left, and the label of the step it took there. -/
abbrev Trace (Op : Type) (Res : Op → Type) (E σ α Task : Type) :=
  List (System Op Res E σ α Task × Label Op Res Task)

/-- A finite run. -/
inductive Run : System Op Res E σ α Task → Trace Op Res E σ α Task →
    System Op Res E σ α Task → Prop where
  | nil (w) : Run w [] w
  | snoc {w tr v l u} (h : Run w tr v) (hstep : Step M prog v l u) : Run w (tr ++ [(v, l)]) u

variable {M prog}

theorem Run.append {w v u : System Op Res E σ α Task} {tr tr' : Trace Op Res E σ α Task}
    (h : Run M prog w tr v) (h' : Run M prog v tr' u) : Run M prog w (tr ++ tr') u := by
  induction h' with
  | nil => simpa using h
  | snoc _ hstep ih =>
      rw [← List.append_assoc]
      exact .snoc ih hstep

/-- A run cut at one of its steps. -/
theorem Run.split {w u : System Op Res E σ α Task} {tr tr' : Trace Op Res E σ α Task}
    {v : System Op Res E σ α Task} {l : Label Op Res Task}
    (h : Run M prog w (tr ++ (v, l) :: tr') u) :
    ∃ v', Run M prog w tr v ∧ Step M prog v l v' ∧ Run M prog v' tr' u := by
  generalize hfull : tr ++ (v, l) :: tr' = full at h
  induction h generalizing tr' with
  | nil => simp at hfull
  | @snoc tr₀ v₀ l₀ u hrun hstep ih =>
      rcases List.eq_nil_or_concat tr' with rfl | ⟨init, last, rfl⟩
      · obtain ⟨rfl, hlast⟩ := List.append_inj' hfull rfl
        cases hlast
        exact ⟨u, hrun, hstep, .nil u⟩
      · rw [List.concat_eq_append, ← List.cons_append, ← List.append_assoc] at hfull
        obtain ⟨hinit, hlast⟩ := List.append_inj' hfull rfl
        cases hlast
        obtain ⟨v', h1, h2, h3⟩ := ih hinit
        rw [List.concat_eq_append]
        exact ⟨v', h1, h2, .snoc h3 hstep⟩

end Semantics

/-! ## Contracts -/

/-- What is promised about the programs of a system, and what makes it true. -/
structure Contract (M : Machine Op Res σ) (prog : Task → Prog Op Res E α) extends Shared σ where
  /-- What holds when a program makes a call. -/
  pre : Task → List (Event Op Res σ) → Op → σ → Prop
  /-- What holds when a program ends. -/
  post : Task → List (Event Op Res σ) → Except E α → Prop
  rely_refl : ∀ s, rely s s
  rely_trans : ∀ {s u v}, rely s u → rely u v → rely s v
  exec_ok : ∀ {t past o s r s'}, Past M toShared past s → pre t past o s → M.exec o s r s' →
    inv s' ∧ rely s s'
  env_ok : ∀ {s s'}, inv s → M.env s s' → inv s' ∧ rely s s'
  restart_ok : ∀ {s s'}, inv s → M.restart s s' → inv s'
  prog_ok : ∀ t, wp M toShared (pre t) [] (prog t) (post t)

namespace Contract

variable {M : Machine Op Res σ} {prog : Task → Prog Op Res E α} (C : Contract M prog)

/-- A thread is as its contract says, in a shared state. -/
def SoundThread (s : σ) (th : Thread Op Res E σ α Task) : Prop :=
  Past M C.toShared th.past s ∧ wp M C.toShared (C.pre th.task) th.past th.prog (C.post th.task)

/-- The invariant holds and every thread is as its contract says. -/
def Sound (w : System Op Res E σ α Task) : Prop :=
  C.inv w.state ∧ ∀ th ∈ w.threads, C.SoundThread w.state th

variable {C}

/-- A change of the state that programs rely on keeps a thread sound. -/
theorem SoundThread.change {s s' : σ} {th : Thread Op Res E σ α Task} (h : C.SoundThread s th)
    (hinv : C.inv s') (hrely : C.rely s s') : C.SoundThread s' th := by
  obtain ⟨⟨-, hpast⟩, hwp⟩ := h
  refine ⟨⟨hinv, fun e he => ?_⟩, hwp⟩
  obtain ⟨h1, h2, h3⟩ := hpast e he
  exact ⟨h1, h2, C.rely_trans h3 hrely⟩

/-- **Every step keeps the system sound.** -/
theorem sound_step {w w' : System Op Res E σ α Task} {l : Label Op Res Task}
    (hw : C.Sound w) (h : Step M prog w l w') : C.Sound w' := by
  obtain ⟨hinv, hths⟩ := hw
  cases h with
  | start t =>
      refine ⟨hinv, fun th hth => ?_⟩
      rcases List.mem_append.mp hth with hth | hth
      · exact hths th hth
      · rw [List.mem_singleton.mp hth]
        exact ⟨⟨hinv, by simp⟩, C.prog_ok t⟩
  | @call s s' ths i t past o k r hget hexec =>
      obtain ⟨hpast, hpre, hnext⟩ := hths _ (List.mem_of_getElem? hget)
      obtain ⟨hinv', hrely⟩ := C.exec_ok hpast (hpre s hpast) hexec
      refine ⟨hinv', fun th hth => ?_⟩
      rcases List.mem_or_eq_of_mem_set hth with hth | rfl
      · exact (hths th hth).change hinv' hrely
      · refine ⟨⟨hinv', fun e he => ?_⟩, hnext s r s' hpast hexec⟩
        rcases List.mem_append.mp he with he | he
        · obtain ⟨h1, h2, h3⟩ := hpast.2 e he
          exact ⟨h1, h2, C.rely_trans h3 hrely⟩
        · rw [List.mem_singleton.mp he]
          exact ⟨hinv, hexec, C.rely_refl s'⟩
  | env henv =>
      obtain ⟨hinv', hrely⟩ := C.env_ok hinv henv
      exact ⟨hinv', fun th hth => (hths th hth).change hinv' hrely⟩
  | restart hrestart => exact ⟨C.restart_ok hinv hrestart, by simp⟩

/-- **Every run keeps the system sound.** -/
theorem sound_run {w w' : System Op Res E σ α Task} {tr : Trace Op Res E σ α Task}
    (hw : C.Sound w) (h : Run M prog w tr w') : C.Sound w' := by
  induction h with
  | nil => exact hw
  | snoc _ hstep ih => exact sound_step ih hstep

/-- A step changes the state as programs rely on, unless it is a restart. -/
theorem rely_of_step {w w' : System Op Res E σ α Task} {l : Label Op Res Task}
    (hw : C.Sound w) (h : Step M prog w l w') (hl : l ≠ .restart) :
    C.rely w.state w'.state := by
  cases h with
  | start t => exact C.rely_refl _
  | call hget hexec =>
      obtain ⟨hpast, hpre, -⟩ := hw.2 _ (List.mem_of_getElem? hget)
      exact (C.exec_ok hpast (hpre _ hpast) hexec).2
  | env henv => exact (C.env_ok hw.1 henv).2
  | restart => exact absurd rfl hl

/-- A system in which nothing runs is sound when its state is. -/
theorem sound_init {s : σ} (h : C.inv s) : C.Sound ⟨s, []⟩ := ⟨h, by simp⟩

/-- The precondition holds wherever a call is made. -/
theorem pre_of_call {w w' : System Op Res E σ α Task} {i : Nat} {o : Op} {r : Res o}
    (hw : C.Sound w) (h : Step M prog w (.call i o r) w') :
    ∃ th, w.threads[i]? = some th ∧ Past M C.toShared th.past w.state ∧
      C.pre th.task th.past o w.state ∧ M.exec o w.state r w'.state := by
  cases h with
  | call hget hexec =>
      obtain ⟨hpast, hpre, -⟩ := hw.2 _ (List.mem_of_getElem? hget)
      exact ⟨_, hget, hpast, hpre _ hpast, hexec⟩

/-- The postcondition holds of every program that has ended. -/
theorem post_of_done {w : System Op Res E σ α Task} {th : Thread Op Res E σ α Task} {a : α}
    (hw : C.Sound w) (hth : th ∈ w.threads) (hdone : th.prog = .pure a) :
    Past M C.toShared th.past w.state ∧ C.post th.task th.past (.ok a) := by
  obtain ⟨hpast, hwp⟩ := hw.2 th hth
  rw [hdone] at hwp
  exact ⟨hpast, hwp⟩

/-- The contract, with one more fact about how the programs end. -/
def also (C : Contract M prog) (post : Task → List (Event Op Res σ) → Except E α → Prop)
    (h : ∀ t, wp M C.toShared (fun _ _ _ => True) [] (prog t) (post t)) : Contract M prog :=
  { C with
    post := fun t past x => C.post t past x ∧ post t past x
    prog_ok := fun t => wp_and (C.prog_ok t) (h t) }

/-- The contract, with one more fact about the calls. -/
def alsoCalls (C : Contract M prog) (pre : Task → List (Event Op Res σ) → Op → σ → Prop)
    (h : ∀ t, wp M C.toShared (pre t) [] (prog t) fun _ _ => True) : Contract M prog :=
  { C with
    pre := fun t past o s => C.pre t past o s ∧ pre t past o s
    exec_ok := fun hs hpre hexec => C.exec_ok hs hpre.1 hexec
    prog_ok := fun t => wp_and_pre (C.prog_ok t) (h t) }

end Contract

end Process
