import Kingdom.Process.Interleave
import Kingdom.Process.Logged

/-!
# What a run remembers

Facts about a state that are fixed by the steps behind it: granted by some step,
and not ended by any step after that one.

* `Since` — the temporal operator over a list, with its rule for one more step.
* `forall_split_snoc` — what holds of every step after the ones before it.
* `Label.IsCall` — a step that is a call of some kind.
* `records` — what the calls of a run put on record, in order.
* `Run.since` — a fact that every step keeps, grants or ends holds exactly as the
  run says.
* `Prog.Runs.keeps` — what every call keeps, a program keeps.
* `callsOf`, `callLog` — the calls of a program, in the run and behind the program.
* `Run.thread`, `Run.only` — a program that goes on in a run makes its calls there, and only
  calls of its kind; `Run.event`, the steps behind a program.
* `Met` — a program that was there at some time.
* `Served` — a task that was started and has ended in a run, with the calls it made;
  `Served.eval` — one that has run alone.
-/

namespace Process

variable {τ : Type}

/-- Some element grants, and none after it ends. -/
def Since (grants ends : τ → Prop) (tr : List τ) : Prop :=
  ∃ before x after, tr = before ++ x :: after ∧ grants x ∧ ∀ y ∈ after, ¬ ends y

theorem since_nil {grants ends : τ → Prop} : ¬ Since grants ends [] := by
  intro h
  obtain ⟨before, x, after, hnil, -⟩ := h
  simp at hnil

/-- One more element keeps the fact unless it ends it, or grants it anew. -/
theorem since_snoc {grants ends : τ → Prop} {tr : List τ} {x : τ} :
    Since grants ends (tr ++ [x]) ↔ (Since grants ends tr ∧ ¬ ends x) ∨ grants x := by
  constructor
  · intro h
    obtain ⟨before, y, after, heq, hy, hafter⟩ := h
    rcases List.eq_nil_or_concat after with rfl | ⟨init, last, rfl⟩
    · obtain ⟨-, hlast⟩ := List.append_inj' heq rfl
      cases hlast
      exact .inr hy
    · rw [List.concat_eq_append, ← List.cons_append, ← List.append_assoc] at heq
      obtain ⟨htr, hlast⟩ := List.append_inj' heq rfl
      cases hlast
      exact .inl ⟨⟨before, y, init, htr, hy, fun z hz => hafter z (by simp [hz])⟩,
        hafter x (by simp)⟩
  · intro h
    rcases h with ⟨⟨before, y, after, rfl, hy, hafter⟩, hx⟩ | hx
    · refine ⟨before, y, after ++ [x], by simp, hy, ?_⟩
      intro z hz
      rcases List.mem_append.mp hz with hz | hz
      · exact hafter z hz
      · rw [List.mem_singleton.mp hz]
        exact hx
    · exact ⟨tr, x, [], rfl, hx, by simp⟩

/-- What holds of every element after the ones before it also holds with one more. -/
theorem forall_split_snoc {P : List τ → τ → Prop} {tr : List τ} {x : τ}
    (h : ∀ before y after, tr = before ++ y :: after → P before y) (hx : P tr x) :
    ∀ before y after, tr ++ [x] = before ++ y :: after → P before y := by
  intro before y after heq
  rcases List.eq_nil_or_concat after with rfl | ⟨init, last, rfl⟩
  · obtain ⟨rfl, hlast⟩ := List.append_inj' heq rfl
    cases hlast
    exact hx
  · rw [List.concat_eq_append, ← List.cons_append, ← List.append_assoc] at heq
    obtain ⟨htr, -⟩ := List.append_inj' heq rfl
    exact h before y init htr

variable {Op : Type} {Res : Op → Type} {E σ α Task : Type} {M : Machine Op Res σ}
  {prog : Task → Prog Op Res E α}

/-- **A fact that every step keeps, grants or ends** holds at the end of a run
when it held at its start and no step ended it, or since a step granted it. -/
theorem Run.since {P : System Op Res E σ α Task → Prop}
    {grants ends : System Op Res E σ α Task × Label Op Res Task → Prop}
    {w w' : System Op Res E σ α Task} {tr : Trace Op Res E σ α Task} (h : Run M prog w tr w')
    (hstep : ∀ {tr' v l v'}, Run M prog w tr' v → Step M prog v l v' → (v, l) ∈ tr →
      (P v' ↔ (P v ∧ ¬ ends (v, l)) ∨ grants (v, l))) :
    P w' ↔ (P w ∧ ∀ x ∈ tr, ¬ ends x) ∨ Since grants ends tr := by
  induction h with
  | nil => simp [since_nil]
  | @snoc tr v l u hrun hlast ih =>
      have hprefix : P v ↔ (P w ∧ ∀ x ∈ tr, ¬ ends x) ∨ Since grants ends tr :=
        ih fun hr hs hmem => hstep hr hs (List.mem_append_left _ hmem)
      rw [hstep hrun hlast (by simp), hprefix, since_snoc]
      rw [List.forall_mem_append, List.forall_mem_singleton, ← and_assoc, or_and_right, or_assoc]

/-- The step is a call of which `P` holds. -/
def Label.IsCall (P : (o : Op) → Res o → Prop) : Label Op Res Task → Prop
  | .call _ o r => P o r
  | _ => False

theorem Label.IsCall.mono {P Q : (o : Op) → Res o → Prop} {l : Label Op Res Task} (hl : l.IsCall P)
    (h : ∀ o r, P o r → Q o r) : l.IsCall Q := by
  cases l with
  | call i o r => exact h o r hl
  | _ => exact hl

/-- What a step puts on record, when it is a call. -/
def Label.record {β : Type} (f : (o : Op) → Res o → Option β) : Label Op Res Task → Option β
  | .call _ o r => f o r
  | _ => none

/-- What the calls of a run put on record, in order. -/
def records {β : Type} (f : (o : Op) → Res o → Option β) (tr : Trace Op Res E σ α Task) : List β :=
  tr.filterMap fun x => x.2.record f

theorem mem_records {β : Type} {f : (o : Op) → Res o → Option β} {tr : Trace Op Res E σ α Task}
    {b : β} : b ∈ records f tr ↔ ∃ x ∈ tr, x.2.IsCall fun o r => f o r = some b := by
  rw [records, List.mem_filterMap]
  refine exists_congr fun x => and_congr_right fun _ => ?_
  cases x.2 <;> simp [Label.record, Label.IsCall]

theorem records_append {β : Type} (f : (o : Op) → Res o → Option β)
    (tr tr' : Trace Op Res E σ α Task) : records f (tr ++ tr') = records f tr ++ records f tr' :=
  List.filterMap_append

theorem records_snoc {β : Type} (f : (o : Op) → Res o → Option β) (tr : Trace Op Res E σ α Task)
    (w : System Op Res E σ α Task) (l : Label Op Res Task) :
    records f (tr ++ [(w, l)]) = records f tr ++ (l.record f).toList := by
  rw [records_append, records, records, List.filterMap_cons]
  cases l.record f <;> rfl

/-- **What every call keeps**, a program keeps. -/
theorem Prog.Runs.keeps {exec : (o : Op) → σ → Res o → σ → Prop} {I : σ → Prop}
    {p : Prog Op Res E α} {s s' : σ} {x : Option (Except E α)} (h : p.Runs exec s x s')
    (hI : ∀ o s r s', I s → exec o s r s' → I s') (hs : I s) : I s' := by
  induction h with
  | call hexec _ ih => exact ih (hI _ _ _ _ hs hexec)
  | _ => exact hs

/-! ## The programs of a run -/

/-- The calls of the thread `i`, with their answers, in order. -/
def callsOf (i : Nat) (tr : Trace Op Res E σ α Task) : CallLog Op Res :=
  tr.filterMap fun x =>
    match x.2 with
    | .call j o r => if j = i then some ⟨o, r⟩ else none
    | _ => none

theorem mem_callsOf {i : Nat} {tr : Trace Op Res E σ α Task} {o : Op} {r : Res o} :
    ⟨o, r⟩ ∈ callsOf i tr ↔ ∃ v, (v, .call i o r) ∈ tr := by
  rw [callsOf, List.mem_filterMap]
  constructor
  · rintro ⟨⟨v, l⟩, hx, hl⟩
    cases l with
    | call j o' r' =>
        dsimp only at hl
        split_ifs at hl with hj
        cases hl
        exact ⟨v, hj ▸ hx⟩
    | _ => cases hl
  · rintro ⟨v, hx⟩
    exact ⟨_, hx, if_pos rfl⟩

/-- The calls behind a program, with their answers. -/
def callLog (past : List (Event Op Res σ)) : CallLog Op Res := past.map fun e => ⟨e.op, e.res⟩

theorem said_iff_mem_callLog {past : List (Event Op Res σ)} {o : Op} {r : Res o} :
    Said past o r ↔ ⟨o, r⟩ ∈ callLog past := by
  constructor
  · rintro ⟨s, s', he⟩
    exact List.mem_map.mpr ⟨_, he, rfl⟩
  · intro h
    obtain ⟨⟨o', r', s, s'⟩, he, heq⟩ := List.mem_map.mp h
    cases heq
    exact ⟨s, s', he⟩

/-- **A program goes on where it is** while nothing restarts: its calls are the steps that
the run has taken for it. -/
theorem Run.thread {w w' : System Op Res E σ α Task} {tr : Trace Op Res E σ α Task}
    (h : Run M prog w tr w') (hone : ∀ x ∈ tr, x.2 ≠ .restart) {i : Nat}
    {th : Thread Op Res E σ α Task} (hth : w.threads[i]? = some th) :
    ∃ more p, w'.threads[i]? = some ⟨th.task, th.past ++ more, p⟩ ∧ callLog more = callsOf i tr := by
  induction h with
  | nil => exact ⟨[], th.prog, by simpa using hth, rfl⟩
  | @snoc tr v l u _ hstep ih =>
      obtain ⟨more, p, hv, hcalls⟩ := ih fun x hx => hone x (List.mem_append_left _ hx)
      rw [callsOf, List.filterMap_append, ← callsOf]
      cases hstep with
      | @start s ths t =>
          have hlt : i < ths.length := (List.getElem?_eq_some_iff.mp hv).1
          exact ⟨more, p, by rwa [List.getElem?_append_left hlt], by simpa using hcalls⟩
      | @call s s' ths j t past o k r hget hexec =>
          by_cases hij : j = i
          · subst hij
            obtain ⟨rfl, rfl, rfl⟩ : t = th.task ∧ past = th.past ++ more ∧ p = .call o k := by
              cases hget.symm.trans hv
              exact ⟨rfl, rfl, rfl⟩
            refine ⟨more ++ [⟨o, r, s, s'⟩], k r, ?_, ?_⟩
            · rw [List.getElem?_set_self (List.getElem?_eq_some_iff.mp hget).1, List.append_assoc]
            · rw [callLog, List.map_append, ← callLog, hcalls]
              simp
          · refine ⟨more, p, by rwa [List.getElem?_set_ne hij], ?_⟩
            simpa [hij] using hcalls
      | env => exact ⟨more, p, hv, by simpa using hcalls⟩
      | restart => exact absurd rfl (hone _ (List.mem_append_right _ List.mem_cons_self))

/-- A program of one kind of calls makes no others in a run. -/
theorem Run.only {P : Op → Prop} {t : Task} (ht : (prog t).Only P) {s : σ}
    {w : System Op Res E σ α Task} {tr : Trace Op Res E σ α Task} (h : Run M prog ⟨s, []⟩ tr w) :
    ∀ th ∈ w.threads, th.task = t → th.prog.Only P ∧ ∀ e ∈ th.past, P e.op := by
  induction h with
  | nil => simp
  | @snoc tr v l u _ hstep ih =>
      cases hstep with
      | @start s ths t' =>
          intro th hth htask
          rcases List.mem_append.mp hth with hth | hth
          · exact ih th hth htask
          · rw [List.mem_singleton.mp hth] at htask ⊢
            subst htask
            exact ⟨ht, fun e he => by cases he⟩
      | @call s₀ s₁ ths j t' past o k r hget hexec =>
          intro th hth htask
          rcases List.mem_or_eq_of_mem_set hth with hth | rfl
          · exact ih th hth htask
          · obtain ⟨⟨ho, hk⟩, hpast⟩ := ih _ (List.mem_of_getElem? hget) htask
            refine ⟨hk r, fun e he => ?_⟩
            rcases List.mem_append.mp he with he | he
            · exact hpast e he
            · rw [List.mem_singleton.mp he]
              exact ho
      | env => exact ih
      | restart => simp

/-- **The calls behind a program are steps of the run**, taken by the same task. -/
theorem Run.event {s : σ} {w : System Op Res E σ α Task} {tr : Trace Op Res E σ α Task}
    (h : Run M prog ⟨s, []⟩ tr w) {th : Thread Op Res E σ α Task} (hth : th ∈ w.threads)
    {e : Event Op Res σ} (he : e ∈ th.past) : ∃ v i th₀, (v, .call i e.op e.res) ∈ tr ∧
      v.state = e.pre ∧ v.threads[i]? = some th₀ ∧ th₀.task = th.task := by
  induction h generalizing th with
  | nil => cases hth
  | @snoc tr v l u _ hstep ih =>
      have hold : ∀ th ∈ v.threads, e ∈ th.past → ∃ v' i th₀,
          (v', .call i e.op e.res) ∈ tr ++ [(v, l)] ∧ v'.state = e.pre ∧
            v'.threads[i]? = some th₀ ∧ th₀.task = th.task := by
        intro th hth he
        obtain ⟨v', i, th₀, hx, hrest⟩ := ih hth he
        exact ⟨v', i, th₀, List.mem_append_left _ hx, hrest⟩
      cases hstep with
      | @start s ths t =>
          rcases List.mem_append.mp hth with hth | hth
          · exact hold th hth he
          · rw [List.mem_singleton.mp hth] at he
            cases he
      | @call s s' ths i t past o k r hget hexec =>
          rcases List.mem_or_eq_of_mem_set hth with hth | rfl
          · exact hold th hth he
          · rcases List.mem_append.mp he with he | he
            · exact hold ⟨t, past, .call o k⟩ (List.mem_of_getElem? hget) he
            · rw [List.mem_singleton.mp he]
              exact ⟨_, i, _, List.mem_append_right _ List.mem_cons_self, rfl, hget, rfl⟩
      | env => exact hold th hth he
      | restart => cases hth

/-- The program was there at the end of the run, or at one of its steps. -/
def Met (tr : Trace Op Res E σ α Task) (w : System Op Res E σ α Task)
    (th : Thread Op Res E σ α Task) : Prop :=
  th ∈ w.threads ∨ ∃ x ∈ tr, th ∈ x.1.threads

/-- Such a program is there at the end of a first part of the run. -/
theorem Run.met {w₀ w : System Op Res E σ α Task} {tr : Trace Op Res E σ α Task}
    (h : Run M prog w₀ tr w) {th : Thread Op Res E σ α Task} (hmet : Met tr w th) :
    ∃ tr' v, Run M prog w₀ tr' v ∧ tr' <+: tr ∧ th ∈ v.threads := by
  rcases hmet with hth | ⟨⟨v, l⟩, hx, hth⟩
  · exact ⟨tr, w, h, List.prefix_rfl, hth⟩
  · obtain ⟨before, after, rfl⟩ := List.append_of_mem hx
    obtain ⟨v', hbefore, -, -⟩ := h.split
    exact ⟨before, v, hbefore, List.prefix_append _ _, hth⟩

/-- The task was started in the run, and has ended in it with this result after these
calls. -/
def Served (M : Machine Op Res σ) (prog : Task → Prog Op Res E α) (w : System Op Res E σ α Task)
    (tr : Trace Op Res E σ α Task) (w' : System Op Res E σ α Task) (t : Task)
    (calls : CallLog Op Res) (a : α) : Prop :=
  Run M prog w tr w' ∧ ∃ before v after, tr = before ++ (v, .start t) :: after ∧
    (∀ x ∈ after, x.2 ≠ .restart) ∧ callsOf v.threads.length after = calls ∧
    ∃ past, w'.threads[v.threads.length]? = some ⟨t, past, .pure a⟩

/-- The program that has ended, with its calls behind it. -/
theorem Served.done {w w' : System Op Res E σ α Task} {tr : Trace Op Res E σ α Task} {t : Task}
    {calls : CallLog Op Res} {a : α} (h : Served M prog w tr w' t calls a) :
    ∃ past, callLog past = calls ∧ (⟨t, past, .pure a⟩ : Thread Op Res E σ α Task) ∈ w'.threads := by
  obtain ⟨hrun, before, v, after, rfl, hone, hcalls, past, hth⟩ := h
  obtain ⟨v', -, hstep, hafter⟩ := hrun.split
  cases hstep with
  | start t =>
      obtain ⟨more, p, hget, hmore⟩ := hafter.thread hone (List.getElem?_concat_length ..)
      cases hth.symm.trans hget
      exact ⟨_, by rw [List.nil_append, hmore, hcalls], List.mem_of_getElem? hth⟩

/-- A task that runs alone to its end is served. -/
theorem Served.eval {answer : (o : Op) → σ → Res o × σ}
    (h : ∀ o s, M.exec o s (answer o s).1 (answer o s).2) (t : Task) (s : σ)
    (ths : List (Thread Op Res E σ α Task)) {a : α} (ha : ((prog t).eval answer s).1 = .ok a) :
    ∃ tr w', Served M prog ⟨s, ths⟩ tr w' t (callLog ((prog t).events answer s)) a ∧
      w'.state = ((prog t).eval answer s).2 := by
  obtain ⟨tr, hrun, hsteps⟩ := Run.eval_last h t ths (prog t) [] s
  have hone : ∀ x ∈ tr, x.2 ≠ .restart := by
    intro x hx
    have hstep : (x.1.state, x.2) ∈ tr.map fun x => (x.1.state, x.2) := List.mem_map_of_mem hx
    rw [hsteps] at hstep
    obtain ⟨e, -, he⟩ := List.mem_map.mp hstep
    rw [← (Prod.mk.inj he).2]
    simp
  obtain ⟨more, p, hget, hcalls⟩ := hrun.thread hone (List.getElem?_concat_length ..)
  rw [List.getElem?_concat_length] at hget
  cases hget
  have hwhole := (Run.snoc (.nil _) (.start t)).append hrun
  refine ⟨_, _, ⟨hwhole, [], ⟨s, ths⟩, tr, rfl, hone, hcalls.symm,
    (prog t).events answer s, ?_⟩, rfl⟩
  rw [List.getElem?_concat_length, ha]
  rfl

end Process
