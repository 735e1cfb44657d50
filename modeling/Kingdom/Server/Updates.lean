import Kingdom.Process.History
import Kingdom.Server.NewSession

/-!
# What a request updates

A request changes what users have stored by one call at the most, and a request that only
reads changes nothing, however the requests of a run interleave.

* `Op.isUpdate`, `updates` — the calls that change what users have stored.
* `updates_once` — a request makes one of them at the most.
* `only_reads`, `only_logout` — the requests of the `GET` routes and of `/login` make none, and
  a logout makes no other than to revoke its token.
-/

namespace Kds

open Codec Process

/-- The calls that change what users have stored; a digest is no part of it. -/
def Op.isUpdate : Op → Bool
  | .updateMessageBlockchainDigest .. => false
  | o => o.isWrite

theorem Op.isWrite_of_isUpdate {o : Op} (h : o.isUpdate = true) : o.isWrite = true := by
  cases o with
  | updateMessageBlockchainDigest => cases h
  | _ => exact h

/-- The updates among the calls of a request. -/
def updates (calls : CallLog Op Res) : CallLog Op Res := calls.filter fun c => c.1.isUpdate

/-- One of them is all of them when there is one at the most. -/
theorem updates_eq {calls : CallLog Op Res} (h : (updates calls).length ≤ 1) {o : Op} {r : Res o}
    (hmem : ⟨o, r⟩ ∈ calls) (ho : o.isUpdate = true) : updates calls = [⟨o, r⟩] := by
  have hfilter : (⟨o, r⟩ : Σ o : Op, Res o) ∈ updates calls :=
    List.mem_filter.mpr ⟨hmem, ho⟩
  match hu : updates calls with
  | [] => rw [hu] at hfilter; cases hfilter
  | [c] => rw [hu, List.mem_singleton] at hfilter; rw [hfilter]
  | c :: d :: rest => rw [hu] at h; simp at h

/-! ## One update -/

section Once

variable [Primitives] [FloatFormat] {cfg : Config} {tick : Clock → Clock → Prop}

/-- Before an update a request has written nothing. -/
theorem quiet_of_pre {t : Task} {past : Events} {o : Op} {s : ServerState}
    (hpre : Pre cfg t past o s) (ho : o.isUpdate = true) : Quiet past := by
  cases t with
  | resolver =>
      rcases hpre with ⟨pendingId, rfl⟩ | rfl | ⟨m, digest, rfl, -⟩ <;> cases ho
  | request req seen =>
      cases o with
      | createUser => exact hpre.2
      | createConversation => exact hpre.1
      | createMessage => exact hpre.1
      | deleteMessage => exact hpre.1
      | revokeMessageAccess => exact hpre.1
      | _ => cases ho

omit [Primitives] [FloatFormat] in
theorem updates_of_quiet {past : Events} (h : Quiet past) : updates (callLog past) = [] := by
  refine List.filter_eq_nil_iff.mpr fun c hc => ?_
  obtain ⟨e, he, rfl⟩ := List.mem_map.mp hc
  intro hupdate
  cases (h e he).symm.trans (Op.isWrite_of_isUpdate hupdate)

/-- **A request makes one update at the most**, in every run. -/
theorem updates_once {s : ServerState} {tr : ServerTrace} {w : ServerSystem}
    (hs : StoreInv s.store) (h : ServerRun cfg tick ⟨s, []⟩ tr w) :
    ∀ th ∈ w.threads, (updates (callLog th.past)).length ≤ 1 := by
  induction h with
  | nil => simp
  | @snoc tr v l u hrun hstep ih =>
      have hsound := sound_of_run hs hrun
      cases hstep with
      | @start s₀ ths t =>
          intro th hth
          rcases List.mem_append.mp hth with hth | hth
          · exact ih th hth
          · rw [List.mem_singleton.mp hth]
            exact Nat.zero_le 1
      | @call s₀ s₁ ths i t past o k r hget hexec =>
          intro th hth
          rcases List.mem_or_eq_of_mem_set hth with hth | rfl
          · exact ih th hth
          · have hmem := List.mem_of_getElem? hget
            obtain ⟨hpast, hpre, -⟩ := hsound.2 _ hmem
            rw [callLog, List.map_append, ← callLog, updates, List.filter_append, ← updates]
            by_cases ho : o.isUpdate = true
            · rw [updates_of_quiet (quiet_of_pre (hpre _ hpast) ho), List.nil_append]
              exact List.length_filter_le _ _
            · have hold := ih _ hmem
              simpa [ho] using hold
      | env => exact ih
      | restart => simp

end Once

/-! ## Reads -/

section Reads

variable [Primitives] [FloatFormat] {cfg : Config} {P : Op → Prop}

/-- The call leaves the store and the tokens that were revoked. -/
def Op.IsRead (o : Op) : Prop := o.isWrite = false ∧ ∀ token, o ≠ .revoke token

omit [Primitives] [FloatFormat] in
theorem only_perform {o : Op} (h : P o) : (perform o).Only P := Prog.only_op h

omit [Primitives] [FloatFormat] in
theorem only_attempt {α : Type} {p : Server (Except Exn α)} (h : p.Only P) :
    (attempt p).Only P := Prog.only_bind h fun x => Prog.only_ofExcept x

omit [Primitives] [FloatFormat] in
theorem only_reply (status : Nat) (body : Json UInt8) : (reply status body).Only P :=
  Prog.only_bind (Prog.only_ofExcept _) fun _ => trivial

theorem only_verifyToken (hP : ∀ o, o.IsRead → P o) (token : Bytes) :
    (verifyToken cfg token).Only P :=
  Prog.only_bind (only_perform (hP _ ⟨rfl, by simp⟩)) fun _ => Prog.only_ofExcept _

theorem only_authenticatedUserId (hP : ∀ o, o.IsRead → P o) (req : Request) :
    (authenticatedUserId cfg req).Only P := by
  unfold authenticatedUserId
  split
  · trivial
  · exact Prog.only_bind (only_verifyToken hP _) fun _ => trivial

/-- The filter chain reads. -/
theorem only_filterChain (hP : ∀ o, o.IsRead → P o) (req : Request) :
    (filterChain cfg req).Only P := by
  refine Prog.only_bind ?_ fun r => ?_
  · unfold validateSenderAuthenticity
    split
    · trivial
    split
    · trivial
    split
    · trivial
    split
    · trivial
    refine Prog.only_bind (only_verifyToken hP _) fun r => ?_
    split
    · trivial
    split
    · split <;> trivial
    · trivial
  · split
    · trivial
    split
    · trivial
    unfold validateAuthenticated
    split
    · trivial
    split
    · trivial
    refine Prog.only_bind (only_verifyToken hP _) fun r => ?_
    split
    · trivial
    · exact Prog.only_bind (only_perform (hP _ ⟨rfl, by simp⟩)) fun b => by split <;> trivial

/-- The endpoints of the `GET` routes, and that of `/login`. -/
def Endpoint.ReadsOnly : Endpoint → Prop
  | .login | .health | .listUsers | .api | .publicKey _ | .listUserConversations _
  | .listConversationMessages _ => True
  | _ => False

omit [Primitives] [FloatFormat] in
theorem readsOnly_of_get {path : Bytes} {e : Endpoint}
    (h : endpointOf (bytes "GET") path = some e) : e.ReadsOnly := by
  rw [endpointOf, if_neg (by decide), if_neg (by decide), if_pos (by decide)] at h
  unfold getRoute at h
  split at h
  · split at h
    · cases h; trivial
    split at h
    · cases h; trivial
    split at h
    · cases h; trivial
    · cases h
  · split at h
    · cases h; trivial
    split at h
    · cases h; trivial
    split at h
    · cases h; trivial
    · cases h
  · cases h

theorem only_handle (hP : ∀ o, o.IsRead → P o) (req : Request) {e : Endpoint} (he : e.ReadsOnly) :
    (handle cfg req e).Only P := by
  cases e with
  | login =>
      refine Prog.only_bind (only_perform (hP _ ⟨rfl, by simp⟩)) fun limited => ?_
      split
      · exact only_reply _ _
      split
      · exact only_reply _ _
      split
      · exact only_reply _ _
      refine Prog.only_bind (Prog.only_ofExcept _) fun username =>
        Prog.only_bind (Prog.only_ofExcept _) fun password => ?_
      split
      · exact only_reply _ _
      split
      · exact only_reply _ _
      refine Prog.only_bind (only_attempt (only_perform (hP _ ⟨rfl, by simp⟩))) fun r => ?_
      split
      · exact only_reply _ _
      split
      · exact only_reply _ _
      · exact Prog.only_bind (Prog.only_bind (only_perform (hP _ ⟨rfl, by simp⟩)) fun _ =>
          Prog.only_ofExcept _) fun _ => only_reply _ _
  | health => exact only_reply _ _
  | api => exact only_reply _ _
  | listUsers =>
      exact Prog.only_bind (only_attempt (only_perform (hP _ ⟨rfl, by simp⟩))) fun _ => only_reply _ _
  | publicKey id =>
      show (handlePublicKey id).Only P
      unfold handlePublicKey
      split
      · exact only_reply _ _
      refine Prog.only_bind (only_attempt (only_perform (hP _ ⟨rfl, by simp⟩))) fun r => ?_
      split
      · exact only_reply _ _
      · exact only_reply _ _
  | listUserConversations id =>
      refine Prog.only_bind (only_authenticatedUserId hP req) fun r => ?_
      split
      · exact only_reply _ _
      split
      · exact only_reply _ _
      split
      · exact only_reply _ _
      · exact Prog.only_bind (only_attempt (only_perform (hP _ ⟨rfl, by simp⟩))) fun _ =>
          only_reply _ _
  | listConversationMessages conv =>
      refine Prog.only_bind (only_authenticatedUserId hP req) fun r => ?_
      split
      · exact only_reply _ _
      split
      · exact only_reply _ _
      refine Prog.only_bind (only_attempt (only_perform (hP _ ⟨rfl, by simp⟩))) fun b => ?_
      split
      · exact only_reply _ _
      · exact Prog.only_bind (only_attempt (only_perform (hP _ ⟨rfl, by simp⟩))) fun _ =>
          only_reply _ _
  | _ => cases he

/-- What the filter chain and the handler of a request call, its program calls. -/
theorem only_request (hP : ∀ o, o.IsRead → P o) {req : Request}
    (h : ∀ e, endpointOf req.method req.path = some e → (handle cfg req e).Only P) (seen : Bytes) :
    (serverProgram cfg (.request req seen)).Only P := by
  refine Prog.only_bind (Prog.only_bind (Prog.only_tryCatch ?_ fun _ => trivial) fun res => ?_)
    fun _ => trivial
  · refine Prog.only_bind (only_filterChain hP _) fun r => ?_
    split
    · exact only_reply _ _
    · unfold route
      split
      · rename_i e he
        exact h e he
      · trivial
  · split
    · exact Prog.only_tryCatch (only_reply _ _) fun _ => trivial
    · trivial

/-- **A request of these endpoints only reads.** -/
theorem only_reads {req : Request} (h : ∀ e, endpointOf req.method req.path = some e → e.ReadsOnly)
    (seen : Bytes) : (serverProgram cfg (.request req seen)).Only Op.IsRead :=
  only_request (fun _ ho => ho) (fun e he => only_handle (fun _ ho => ho) req (h e he)) seen

/-- **A logout revokes its token** and only reads besides. -/
theorem only_logout {req : Request} (h : endpointOf req.method req.path = some .logout)
    (seen : Bytes) : (serverProgram cfg (.request req seen)).Only fun o =>
      o.IsRead ∨ ∃ token, bearerToken req = some token ∧ o = .revoke token := by
  refine only_request (fun _ ho => .inl ho) (fun e he => ?_) seen
  cases he.symm.trans h
  show (handleLogout_ req).Only _
  unfold handleLogout_
  cases htoken : bearerToken req with
  | none => exact only_reply _ _
  | some token =>
      exact Prog.only_bind (only_perform (.inr ⟨token, rfl, rfl⟩)) fun _ => only_reply _ _

end Reads

end Kds
