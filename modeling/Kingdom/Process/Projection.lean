import Kingdom.Process.Interleave

/-!
# Machines with more state

A machine may do what another does and more, on a state that holds the other's.  What was
proved of the programs of the smaller machine holds of them on the larger one.

* `Event.map` — the events as the smaller machine sees them.
* `Projects` — every call of one machine is a call of the other, under a map of the states,
  and what is known of the states is known of their images.
* `wp_map` — a weakest precondition of the smaller machine is one of the larger.
-/

namespace Process

variable {Op : Type} {Res : Op → Type} {E σ τ α : Type}

def Event.map (f : τ → σ) (e : Event Op Res τ) : Event Op Res σ := ⟨e.op, e.res, f e.pre, f e.post⟩

theorem said_map {f : τ → σ} {past : List (Event Op Res τ)} {o : Op} {r : Res o} :
    Said (past.map (Event.map f)) o r ↔ Said past o r := by
  constructor
  · rintro ⟨s, s', hmem⟩
    obtain ⟨⟨o', r', t, t'⟩, ht, heq⟩ := List.mem_map.mp hmem
    cases heq
    exact ⟨t, t', ht⟩
  · rintro ⟨t, t', hmem⟩
    exact ⟨f t, f t', List.mem_map.mpr ⟨_, hmem, rfl⟩⟩

/-- The machine `N` on the states `τ` does what `M` does on their images. -/
structure Projects (N : Machine Op Res τ) (T : Shared τ) (M : Machine Op Res σ) (S : Shared σ)
    (f : τ → σ) : Prop where
  exec : ∀ {o s r s'}, N.exec o s r s' → M.exec o (f s) r (f s')
  inv : ∀ {s}, T.inv s → S.inv (f s)
  rely : ∀ {s s'}, T.rely s s' → S.rely (f s) (f s')

variable {N : Machine Op Res τ} {T : Shared τ} {M : Machine Op Res σ} {S : Shared σ} {f : τ → σ}

theorem Projects.past (h : Projects N T M S f) {past : List (Event Op Res τ)} {s : τ}
    (hpast : Past N T past s) : Past M S (past.map (Event.map f)) (f s) := by
  refine ⟨h.inv hpast.1, ?_⟩
  intro e he
  obtain ⟨e', he', rfl⟩ := List.mem_map.mp he
  obtain ⟨hinv, hexec, hrely⟩ := hpast.2 e' he'
  exact ⟨h.inv hinv, h.exec hexec, h.rely hrely⟩

/-- **What holds of a program on the smaller machine holds on the larger.** -/
theorem wp_map (h : Projects N T M S f) {pre : List (Event Op Res σ) → Op → σ → Prop}
    {Q : List (Event Op Res σ) → Except E α → Prop} {p : Prog Op Res E α}
    {past : List (Event Op Res τ)} (hwp : wp M S pre (past.map (Event.map f)) p Q) :
    wp N T (fun past o s => pre (past.map (Event.map f)) o (f s)) past p
      fun past x => Q (past.map (Event.map f)) x := by
  induction p generalizing past with
  | pure a => exact hwp
  | fail e => exact hwp
  | call o k ih =>
      refine ⟨fun s hs => hwp.1 _ (h.past hs), fun s r s' hs hexec => ih r ?_⟩
      rw [List.map_append]
      exact hwp.2 _ r _ (h.past hs) (h.exec hexec)

end Process
