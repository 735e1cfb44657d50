import Kingdom.Server.Handlers

/-!
# The store over whole runs

The store invariant in every state a server reaches, whatever requests it is
sent, however their calls interleave, and through any number of restarts.

* `sound_of_run` — every reached state is sound for `serverContract`.
* `Kind`, `issuedIds` — the ids a run has handed out.
* `store_invariant` — the invariant holds and no id is handed out twice.
-/

namespace Kds

open Codec Process

/-- The server: its state and the requests it works on. -/
abbrev ServerSystem := System Op Res Exn ServerState (Option Response) Task

/-- The states of a run and the labels of its steps. -/
abbrev ServerTrace := Trace Op Res Exn ServerState (Option Response) Task

section Runs

variable [Primitives] [FloatFormat] (cfg : Config) (tick : Clock → Clock → Prop)

/-- A run of the server. -/
abbrev ServerRun (w : ServerSystem) (tr : ServerTrace) (w' : ServerSystem) : Prop :=
  Run (serverMachine cfg tick) (serverProgram cfg) w tr w'

/-- A step of the server. -/
abbrev ServerStep (w : ServerSystem) (l : Label Op Res Task) (w' : ServerSystem) : Prop :=
  Step (serverMachine cfg tick) (serverProgram cfg) w l w'

variable {cfg tick}

/-- A run that starts with a good store stays sound. -/
theorem sound_of_run {s : ServerState} {tr : ServerTrace} {w : ServerSystem} (hs : StoreInv s.store)
    (h : ServerRun cfg tick ⟨s, []⟩ tr w) : (serverContract cfg tick).Sound w :=
  Contract.sound_run (Contract.sound_init hs) h

end Runs

/-! ## Ids -/

/-- What has an id. -/
inductive Kind where
  | user
  | conversation
  | message

/-- The last id a sequence has handed out. -/
def Kind.seq : Kind → Store → Nat
  | .user, s => s.userSeq
  | .conversation, s => s.conversationSeq
  | .message, s => s.messageSeq

/-- The id of what a call created. -/
def Kind.created : Kind → (o : Op) → Res o → Option UInt64
  | .user, .createUser .., .ok id => some id
  | .conversation, .createConversation .., .ok id => some id
  | .message, .createMessage .., .ok id => some id
  | _, _, _ => none

/-- The id a step handed out. -/
def Kind.issued (k : Kind) : Label Op Res Task → Option UInt64
  | .call _ o r => k.created o r
  | _ => none

/-- The ids of a kind that a run has handed out. -/
def issuedIds (k : Kind) (tr : ServerTrace) : List UInt64 := tr.filterMap fun x => k.issued x.2

/-- What was created in a state got an id above the sequence there. -/
theorem created_bound [FloatFormat] {cfg : Config} {k : Kind} {o : Op} {r : Res o} {id : UInt64}
    {s s' : ServerState} (hid : k.created o r = some id) (h : exec cfg o s r s') :
    (k.seq s.store : Int) < (bigint id).toInt ∧ (bigint id).toInt ≤ k.seq s'.store := by
  unfold Kind.created at hid
  split at hid
  · cases hid
    obtain ⟨hnext, -, hs⟩ := createUser_ok (Transaction.of_ok h).1
    have hval := (nextval_ok hnext).1
    rw [Kind.seq, Kind.seq, hs]
    exact ⟨by omega, by push_cast; omega⟩
  · cases hid
    obtain ⟨hnext, -, hs⟩ := createConversation_ok (Transaction.of_ok h).1
    have hval := (nextval_ok hnext).1
    rw [Kind.seq, Kind.seq, hs]
    exact ⟨by omega, by push_cast; omega⟩
  · cases hid
    obtain ⟨t, -, hnext, -, hs⟩ := createMessage_ok (Transaction.of_ok h).1
    have hval := (nextval_ok hnext).1
    rw [Kind.seq, Kind.seq, hs]
    exact ⟨by omega, by simp only [Store.insertAccess]; push_cast; omega⟩
  · cases hid

section Issuing

variable [Primitives] [FloatFormat] {cfg : Config} {tick : Clock → Clock → Prop}

/-- A step hands out ids above the sequence, and never turns it back. -/
theorem step_issued {w w' : ServerSystem} {l : Label Op Res Task}
    (hw : (serverContract cfg tick).Sound w) (h : ServerStep cfg tick w l w') (k : Kind) :
    k.seq w.state.store ≤ k.seq w'.state.store ∧ ∀ id, k.issued l = some id →
      (k.seq w.state.store : Int) < (bigint id).toInt ∧
        (bigint id).toInt ≤ k.seq w'.state.store := by
  have hmono : l ≠ .restart → k.seq w.state.store ≤ k.seq w'.state.store := by
    intro hl
    have hevolves := Contract.rely_of_step hw h hl
    cases k with
    | user => exact hevolves.userSeq
    | conversation => exact hevolves.conversationSeq
    | message => exact hevolves.messageSeq
  cases h with
  | start t => exact ⟨hmono (by simp), by simp [Kind.issued]⟩
  | call hget hexec => exact ⟨hmono (by simp), fun id hid => created_bound hid hexec⟩
  | env henv => exact ⟨hmono (by simp), by simp [Kind.issued]⟩
  | restart hrestart =>
      refine ⟨?_, by simp [Kind.issued]⟩
      rw [show _ = restartServer _ from hrestart]
      cases k <;> exact Nat.le_refl _

/-- What a run has handed out lies below the sequence, and nothing twice. -/
theorem run_issued {s : ServerState} {tr : ServerTrace} {w : ServerSystem} (hs : StoreInv s.store)
    (h : ServerRun cfg tick ⟨s, []⟩ tr w) (k : Kind) :
    (∀ id ∈ issuedIds k tr, (bigint id).toInt ≤ k.seq w.state.store) ∧ (issuedIds k tr).Nodup := by
  induction h with
  | nil => simp [issuedIds]
  | @snoc tr v l u hrun hstep ih =>
      obtain ⟨hbound, hnodup⟩ := ih
      obtain ⟨hmono, hnew⟩ := step_issued (sound_of_run hs hrun) hstep k
      have hold : ∀ id ∈ issuedIds k tr, (bigint id).toInt ≤ k.seq u.state.store := fun id hid => by
        have := hbound id hid
        omega
      simp only [issuedIds, List.filterMap_append, List.filterMap_cons, List.filterMap_nil]
      cases hl : k.issued l with
      | none =>
          simp only [List.append_nil]
          exact ⟨hold, hnodup⟩
      | some id =>
          obtain ⟨hlt, hle⟩ := hnew id hl
          refine ⟨fun i hi => ?_, ?_⟩
          · rcases List.mem_append.mp hi with hi | hi
            · exact hold i hi
            · rw [List.mem_singleton.mp hi]
              exact hle
          · rw [List.nodup_append_comm]
            refine List.nodup_cons.mpr ⟨fun hmem => ?_, hnodup⟩
            have := hbound id hmem
            omega

/-- **The store invariant holds in every state the server reaches**, and no id of
a user, a conversation or a message is ever handed out twice. -/
theorem store_invariant {clock : Clock} {tr : ServerTrace} {w : ServerSystem}
    (h : ServerRun cfg tick ⟨.initial clock, []⟩ tr w) :
    StoreInv w.state.store ∧ ∀ k, (issuedIds k tr).Nodup :=
  ⟨(sound_of_run storeInv_empty h).1, fun k => (run_issued storeInv_empty h k).2⟩

end Issuing

/-- A configuration for examples. -/
def exampleConfig : Config := ⟨exampleSecret, 3600, 30, bytes "0.1.0", false⟩

end Kds
