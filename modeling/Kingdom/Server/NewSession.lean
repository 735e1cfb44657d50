import Kingdom.Server.Logout

/-!
# New sessions

Whether a session that was just opened can be used.  A session is its token, and the text
of a token is made of the user and the second it is issued in, so two sessions of a user
may have one token and a new session may have one that was revoked.

* `sessionOf`, `returnedBy` — the token that a signup or a login is answered with.
* `SessionsUsable` — a token verifies until it expires, and is refused as revoked only
  after a logout of this session and no other.
* `Apart` — the step returns no token that was revoked or is about to be, and logs out
  one session at most.
* `sessions_usable` — sessions are usable in every run of such steps.
* `new_session_refused` — a login in the second of a logout.
-/

namespace Kds

open Codec Process

/-! ## Sessions of a run -/

/-- A request or a round of the resolver that was started. -/
abbrev ServerThread := Thread Op Res Exn ServerState (Option Response) Task

/-- The token of the session that a request was answered with. -/
def sessionOf [FloatFormat] : Task → Server (Option Response) → Option Bytes
  | .request req _, .pure (some res) =>
      match endpointOf req.method req.path with
      | some .signup => if res.status = 201 then tokenOf res.body else none
      | some .login => if res.status = 200 then tokenOf res.body else none
      | _ => none
  | _, _ => none

/-- The token of the session that the step opens. -/
def returnedBy [FloatFormat] (x : ServerSystem × Label Op Res Task) : Option Bytes :=
  match x.2 with
  | .call i o r => x.1.threads[i]?.bind fun th => (th.prog.after o r).bind (sessionOf th.task)
  | _ => none

/-- The token that a logout request carries. -/
def loggedOut : Task → Option Bytes
  | .request req _ =>
      if endpointOf req.method req.path = some .logout then bearerToken req else none
  | .resolver => none

/-- The token with which the step makes a logout. -/
def logoutBy (x : ServerSystem × Label Op Res Task) : Option Bytes :=
  match x.2 with
  | .start t => loggedOut t
  | _ => none

/-- One session at most has the token. -/
def OnlyOne [FloatFormat] (token : Bytes) (w : ServerSystem) : Prop :=
  w.threads.Pairwise fun th th' =>
    ¬ (sessionOf th.task th.prog = some token ∧ sessionOf th'.task th'.prog = some token)

/-- A logout that carried the token of the session was made after the session was
returned, when no other session had the token. -/
def LoggedOut [FloatFormat] (tr : ServerTrace) (j : Nat) (th : ServerThread) (token : Bytes) : Prop :=
  ∃ v t, (v, .start t) ∈ tr ∧ loggedOut t = some token ∧ v.threads[j]? = some th ∧ OnlyOne token v

/-- **Sessions can be used, each by itself**: the token that was returned verifies until it
expires, and where the blacklist refuses it the session was logged out. -/
structure SessionsUsable [Primitives] [FloatFormat] (cfg : Config) (tr : ServerTrace)
    (w : ServerSystem) : Prop where
  verified : ∀ th ∈ w.threads, ∀ token, sessionOf th.task th.prog = some token →
    ∃ expiry, TokenBlacklist.expiryFromToken_ token = some expiry ∧ ∀ now ≤ expiry,
      ∃ payload, verifiedJwtPayload now token cfg.jwtSecret = .ok (some payload)
  accepted : ∀ before u i token after, tr = before ++ (u, .call i (.isRevoked token) true) :: after →
    ∀ (j : Nat) (th : ServerThread), u.threads[j]? = some th →
      sessionOf th.task th.prog = some token → LoggedOut before j th token

/-- The check would refuse the token. -/
def Revoked (token : Bytes) (s : ServerState) : Prop :=
  TokenBlacklist.contains token
    (TokenBlacklist.pruneExpired_ (epochSeconds s.clock) s.tokens) = true

/-- The step returns no token that is revoked or carried by a logout under way, and makes no
logout with a token that two sessions have. -/
structure Apart [FloatFormat] (x : ServerSystem × Label Op Res Task) : Prop where
  returned : ∀ token ∈ returnedBy x, ¬ Revoked token x.1.state ∧
    ∀ th ∈ x.1.threads, th.prog.result? = none → loggedOut th.task ≠ some token
  logout : ∀ token ∈ logoutBy x, OnlyOne token x.1

/-! ## The invariant -/

section Runs

variable [Primitives] [FloatFormat] {cfg : Config} {tr : ServerTrace} {w w' : ServerSystem}
  {token : Bytes}

/-- Every session with the token was logged out by itself. -/
def Excused (tr : ServerTrace) (w : ServerSystem) (token : Bytes) : Prop :=
  ∀ (j : Nat) (th : ServerThread), w.threads[j]? = some th →
    sessionOf th.task th.prog = some token → LoggedOut tr j th token

/-- **What holds between the steps**: the sessions of a token that is revoked or about to be
were logged out. -/
structure SessionInv (tr : ServerTrace) (w : ServerSystem) : Prop where
  pending : ∀ th ∈ w.threads, th.prog.result? = none → ∀ token ∈ loggedOut th.task,
    Excused tr w token
  revoked : ∀ token, Revoked token w.state → Excused tr w token

omit [Primitives] in
/-- Only a signup and a login open sessions. -/
theorem endpoint_of_session {req : Request} {seen : Bytes} {p : Server (Option Response)}
    (h : sessionOf (.request req seen) p = some token) :
    endpointOf req.method req.path = some .signup ∨ endpointOf req.method req.path = some .login := by
  cases p with
  | fail e => cases h
  | call o k => cases h
  | pure a =>
      cases a with
      | none => cases h
      | some res =>
          simp only [sessionOf] at h
          split at h
          · rename_i hroute
            exact .inl hroute
          · rename_i hroute
            exact .inr hroute
          · cases h

/-- A session was answered with a token that its request has issued. -/
theorem openedSession_of_session {tick : Clock → Clock → Prop}
    (hsound : (serverContract cfg tick).Sound w) {th : ServerThread} (hth : th ∈ w.threads)
    (h : sessionOf th.task th.prog = some token) : OpenedSession cfg th.past token := by
  obtain ⟨task, past, prog⟩ := th
  have hpost := (hsound.2 _ hth).2
  cases task with
  | resolver => cases h
  | request req seen =>
      cases prog with
      | fail e => cases h
      | call o k => cases h
      | pure a =>
          cases a with
          | none => cases h
          | some res =>
              have hpost : Post cfg (.request req seen) past (.ok (some res)) := hpost
              have hanswered := hpost res rfl
              unfold Answered at hanswered
              simp only [sessionOf] at h
              split at h
              · rename_i hroute
                rw [hroute] at hanswered
                split_ifs at h with hstatus
                exact hanswered hstatus token h
              · rename_i hroute
                rw [hroute] at hanswered
                split_ifs at h with hstatus
                exact hanswered hstatus token h
              · cases h

omit [Primitives] in
theorem Excused.keep {x : ServerSystem × Label Op Res Task} (h : Excused tr w token)
    (hold : ∀ (j : Nat) (th : ServerThread), w'.threads[j]? = some th →
      sessionOf th.task th.prog = some token → w.threads[j]? = some th) :
    Excused (tr ++ [x]) w' token := by
  intro j th hj hsession
  obtain ⟨v, t, hmem, hout, hv, hone⟩ := h j th (hold j th hj hsession) hsession
  exact ⟨v, t, List.mem_append_left _ hmem, hout, hv, hone⟩

omit [Primitives] in
/-- A call brings no token to the blacklist but the one it revokes. -/
theorem revoked_exec {s s' : ServerState} {o : Op} {r : Res o} (h : exec cfg o s r s')
    (hrevoked : Revoked token s') : Revoked token s ∨ o = .revoke token := by
  obtain ⟨hclock, htokens⟩ := tokens_exec h
  unfold Revoked at hrevoked ⊢
  simp only [TokenBlacklist.contains, List.any_eq_true, decide_eq_true_eq, mem_pruneExpired]
    at hrevoked ⊢
  obtain ⟨p, ⟨hmem, hlive⟩, hp⟩ := hrevoked
  rw [hclock] at hlive
  rcases htokens with heq | heq | ⟨t, rfl, heq⟩
  · rw [heq] at hmem
    exact .inl ⟨p, ⟨hmem, hlive⟩, hp⟩
  · rw [heq] at hmem
    exact .inl ⟨p, mem_pruneExpired.mp hmem, hp⟩
  · rw [heq] at hmem
    rcases List.mem_cons.mp hmem with hnew | hold
    · rw [hnew] at hp
      exact .inr (congrArg Op.revoke hp)
    · exact .inl ⟨p, mem_pruneExpired.mp (List.mem_of_mem_filter hold), hp⟩

omit [Primitives] [FloatFormat] in
/-- A token that the check would refuse later is on the blacklist now. -/
theorem revoked_of_clock {s : ServerState} {c : Clock} (hle : s.clock ≤ c)
    (h : Revoked token { s with clock := c }) : Revoked token s := by
  unfold Revoked at h ⊢
  simp only [TokenBlacklist.contains, List.any_eq_true, decide_eq_true_eq, mem_pruneExpired] at h ⊢
  obtain ⟨p, ⟨hmem, hlive⟩, hp⟩ := h
  exact ⟨p, ⟨hmem, UInt64.lt_of_le_of_lt (epochSeconds_mono hle) hlive⟩, hp⟩

/-- A request is started. -/
theorem SessionInv.start {s : ServerState} {ths : List ServerThread} {t : Task}
    (hinv : SessionInv tr ⟨s, ths⟩)
    (hsound : (serverContract cfg (· ≤ ·)).Sound ⟨s, ths ++ [⟨t, [], serverProgram cfg t⟩]⟩)
    (hapart : Apart (⟨s, ths⟩, (.start t : Label Op Res Task))) :
    SessionInv (tr ++ [(⟨s, ths⟩, .start t)]) ⟨s, ths ++ [⟨t, [], serverProgram cfg t⟩]⟩ := by
  -- what is started has returned nothing yet
  have hold : ∀ token (j : Nat) (th : ServerThread),
      (ths ++ [⟨t, [], serverProgram cfg t⟩])[j]? = some th →
        sessionOf th.task th.prog = some token → ths[j]? = some th := by
    intro token j th hj hsession
    rw [List.getElem?_append] at hj
    split_ifs at hj with hlt
    · exact hj
    · have hth := List.mem_singleton.mp (List.mem_of_getElem? hj)
      obtain ⟨c, ⟨s₀, s₁, hmem⟩, -⟩ := openedSession_of_session hsound
        (List.mem_append_right _ (List.mem_of_getElem? hj)) hsession
      rw [hth] at hmem
      cases hmem
  refine ⟨fun th hmem hrunning token htoken => ?_, fun token hrevoked => ?_⟩
  · rcases List.mem_append.mp hmem with hmem | hmem
    · exact (hinv.pending th hmem hrunning token htoken).keep (hold token)
    · rw [List.mem_singleton.mp hmem] at htoken
      intro j th' hj hsession
      exact ⟨⟨s, ths⟩, t, List.mem_append_right _ (List.mem_singleton_self _), htoken,
        hold token j th' hj hsession, hapart.logout token htoken⟩
  · exact (hinv.revoked token hrevoked).keep (hold token)

/-- A request makes a call. -/
theorem SessionInv.call {s s' : ServerState} {ths : List ServerThread} {i : Nat} {t : Task}
    {past : Events} {o : Op} {r : Res o} {k : Res o → Server (Option Response)}
    (hinv : SessionInv tr ⟨s, ths⟩) (hsound : (serverContract cfg (· ≤ ·)).Sound ⟨s, ths⟩)
    (hth : ths[i]? = some ⟨t, past, .call o k⟩) (hexec : exec cfg o s r s')
    (hapart : Apart (⟨s, ths⟩, (.call i o r : Label Op Res Task))) :
    SessionInv (tr ++ [(⟨s, ths⟩, .call i o r)])
      ⟨s', ths.set i ⟨t, past ++ [⟨o, r, s, s'⟩], k r⟩⟩ := by
  have hmem := List.mem_of_getElem? hth
  have hi : i < ths.length := (List.getElem?_eq_some_iff.mp hth).1
  obtain ⟨hpast, hpre, -⟩ := hsound.2 _ hmem
  have hpre := hpre s hpast
  have hreturned : ∀ token, sessionOf t (k r) = some token →
      token ∈ returnedBy (⟨s, ths⟩, (.call i o r : Label Op Res Task)) := by
    intro token h
    simp only [returnedBy, hth, Option.bind_some, Prog.after_call]
    exact h
  -- only a logout revokes, and it is under way
  have hrevokes : ∀ token, o = .revoke token → loggedOut t = some token ∧ ∀ token',
      sessionOf t (k r) ≠ some token' := by
    rintro token rfl
    cases t with
    | resolver =>
        rcases hpre with ⟨pendingId, h⟩ | h | ⟨m, digest, h, -⟩
        · cases h
        · cases h
        · cases h
    | request req seen =>
        obtain ⟨hroute, hbearer⟩ := hpre
        refine ⟨by rw [loggedOut, if_pos hroute, hbearer], fun token' h => ?_⟩
        rcases endpoint_of_session h with hroute' | hroute'
        · cases hroute.symm.trans hroute'
        · cases hroute.symm.trans hroute'
  have hunder : ∀ token, loggedOut t = some token → Excused tr ⟨s, ths⟩ token :=
    fun token h => hinv.pending _ hmem rfl token h
  have hrunning : ∀ th ∈ ths.set i ⟨t, past ++ [⟨o, r, s, s'⟩], k r⟩, th.prog.result? = none →
      ∃ th' ∈ ths, th'.prog.result? = none ∧ th'.task = th.task := by
    intro th hth' hnone
    rcases List.mem_or_eq_of_mem_set hth' with hth' | rfl
    · exact ⟨th, hth', hnone, rfl⟩
    · exact ⟨_, hmem, rfl, rfl⟩
  have hexcused : ∀ token, Excused tr ⟨s, ths⟩ token → sessionOf t (k r) ≠ some token →
      Excused (tr ++ [(⟨s, ths⟩, .call i o r)])
        ⟨s', ths.set i ⟨t, past ++ [⟨o, r, s, s'⟩], k r⟩⟩ token := by
    intro token h hno
    refine h.keep fun j th hj hsession => ?_
    by_cases hij : i = j
    · subst hij
      rw [List.getElem?_set_self hi] at hj
      cases hj
      exact absurd hsession hno
    · rwa [List.getElem?_set_ne hij] at hj
  refine ⟨fun th hth' hnone token htoken => ?_, fun token hrevoked => ?_⟩
  · obtain ⟨th', hth'', hnone', htask⟩ := hrunning th hth' hnone
    rw [← htask] at htoken
    refine hexcused token (hinv.pending th' hth'' hnone' token htoken) fun hsession => ?_
    exact (hapart.returned token (hreturned token hsession)).2 th' hth'' hnone' htoken
  · rcases revoked_exec hexec hrevoked with hold | hrevoke
    · refine hexcused token (hinv.revoked token hold) fun hsession => ?_
      exact (hapart.returned token (hreturned token hsession)).1 hold
    · obtain ⟨hout, hno⟩ := hrevokes token hrevoke
      exact hexcused token (hunder token hout) (hno token)

/-- Where the check refuses a token, it is on the blacklist. -/
theorem revoked_of_check {tick : Clock → Clock → Prop} {i : Nat}
    (h : ServerStep cfg tick w (.call i (.isRevoked token) true) w') : Revoked token w.state := by
  cases h with
  | call hget hexec =>
      obtain ⟨hs', hr⟩ := hexec
      rw [hs'] at hr
      exact hr.symm

/-- **A step keeps the invariant.** -/
theorem sessionInv_step {l : Label Op Res Task} (hinv : SessionInv tr w)
    (hsound : (serverContract cfg (· ≤ ·)).Sound w) (h : ServerStep cfg (· ≤ ·) w l w')
    (hapart : Apart (w, l)) : SessionInv (tr ++ [(w, l)]) w' := by
  have hsound' := Contract.sound_step hsound h
  cases h with
  | start t => exact hinv.start hsound' hapart
  | call hget hexec => exact hinv.call hsound hget hexec hapart
  | @env s s' ths henv =>
      have hkeep : ∀ token, Excused tr ⟨s, ths⟩ token →
          Excused (tr ++ [(⟨s, ths⟩, .env)]) ⟨s', ths⟩ token := fun token h => h.keep fun _ _ hj _ => hj
      refine ⟨fun th hmem hnone token htoken => hkeep token (hinv.pending th hmem hnone token htoken),
        fun token hrevoked => hkeep token (hinv.revoked token ?_)⟩
      cases henv with
      | clock hle => exact revoked_of_clock hle hrevoked
      | steadyClock => exact hrevoked
      | skipIds => exact hrevoked
  | @restart s s' ths hrestart =>
      refine ⟨by simp, fun token _ j th hj => ?_⟩
      simp at hj

/-- **New sessions are usable** in every run of steps that keep sessions apart, with a clock
that never goes back. -/
theorem sessions_usable {clock : Clock} (h : ServerRun cfg (· ≤ ·) ⟨.initial clock, []⟩ tr w)
    (hapart : ∀ x ∈ tr, Apart x) : SessionsUsable cfg tr w := by
  have hsound : ∀ {tr : ServerTrace} {w : ServerSystem},
      ServerRun cfg (· ≤ ·) ⟨.initial clock, []⟩ tr w → (serverContract cfg (· ≤ ·)).Sound w :=
    fun h => sound_of_run storeInv_empty h
  refine ⟨fun th hth token hsession => ?_, ?_⟩
  · obtain ⟨c, -, hreturned⟩ := openedSession_of_session (hsound h) hth hsession
    refine ⟨_, expiryFromToken_issued hreturned, fun now hnow => ?_⟩
    rw [verifiedJwtPayload_createSession hreturned, if_neg (UInt64.not_lt.mpr hnow)]
    exact ⟨_, rfl⟩
  · have hall : SessionInv tr w ∧ ∀ before y after, tr = before ++ y :: after →
        ∀ u i token, y = (u, .call i (.isRevoked token) true) → Excused before u token := by
      clear hsound
      induction h with
      | nil =>
          refine ⟨⟨by simp, fun token hrevoked => ?_⟩, ?_⟩
          · cases hrevoked
          · intro before y after hnil
            simp at hnil
      | @snoc tr v l u hrun hstep ih =>
          obtain ⟨hinv, hexcused⟩ := ih fun x hx => hapart x (List.mem_append_left _ hx)
          have hapart' : Apart (v, l) := hapart _ (by simp)
          refine ⟨sessionInv_step hinv (sound_of_run storeInv_empty hrun) hstep hapart',
            forall_split_snoc hexcused ?_⟩
          rintro u i token ⟨⟩
          exact hinv.revoked token (revoked_of_check hstep)
    intro before u i token after heq
    exact hall.2 before _ after heq u i token rfl

end Runs

/-! ## Sessions within a second -/

instance (token : Bytes) (s : ServerState) : Decidable (Revoked token s) :=
  inferInstanceAs (Decidable (_ = true))

instance [FloatFormat] (token : Bytes) (w : ServerSystem) : Decidable (OnlyOne token w) :=
  inferInstanceAs (Decidable (List.Pairwise _ _))

instance [FloatFormat] (x : ServerSystem × Label Op Res Task) : Decidable (Apart x) :=
  decidable_of_iff ((∀ token ∈ returnedBy x, ¬ Revoked token x.1.state ∧
      ∀ th ∈ x.1.threads, th.prog.result?.isNone = true → loggedOut th.task ≠ some token) ∧
    ∀ token ∈ logoutBy x, OnlyOne token x.1)
    ⟨fun h => ⟨by simpa using h.1, h.2⟩, fun h => ⟨by simpa using h.returned, h.logout⟩⟩

/-- Primitives for which a password is its own hash. -/
@[reducible] def loginPrimitives : Primitives :=
  { examplePrimitives with pwhashVerify := fun hash password => hash == password }

/-- The run of these requests on a server that is new at second 1000. -/
def requestRun (reqs : List (Request × Nat)) : ServerTrace × ServerSystem :=
  letI := loginPrimitives
  letI := plainFloats
  System.moves (answer exampleConfig) (serverProgram exampleConfig) ⟨.initial 1000000, []⟩
    (requestMoves reqs)

theorem run_requestRun (reqs : List (Request × Nat)) : letI := loginPrimitives; letI := plainFloats;
    ServerRun exampleConfig (· ≤ ·) ⟨.initial 1000000, []⟩ (requestRun reqs).1 (requestRun reqs).2 := by
  let := loginPrimitives
  let := plainFloats
  exact Run.moves (fun o s => exec_answer exampleConfig o s) _ _

/-- Alice signs up, logs out, and is refused the list of users. -/
def oneSession : List (Request × Nat) :=
  [(exampleSignup "alice" (bytes "a"), 4), (examplePost aliceToken "/logout" [], 3),
    (exampleGet aliceToken "/users", 2)]

theorem oneSession_eval : letI := plainFloats;
    (∀ x ∈ (requestRun oneSession).1, Apart x) ∧
      (requestRun oneSession).2.threads[0]?.bind (fun th => sessionOf th.task th.prog) =
        some aliceToken := by
  decide +kernel

/-- Her session is refused because it was logged out. -/
theorem sessions_usable_example : letI := loginPrimitives; letI := plainFloats; ∃ tr w,
    ServerRun exampleConfig (· ≤ ·) ⟨.initial 1000000, []⟩ tr w ∧
      w.threads[0]?.bind (fun th => sessionOf th.task th.prog) = some aliceToken ∧
      SessionsUsable exampleConfig tr w := by
  let := loginPrimitives
  let := plainFloats
  obtain ⟨hapart, hsession⟩ := oneSession_eval
  exact ⟨_, _, run_requestRun oneSession, hsession,
    sessions_usable (run_requestRun oneSession) hapart⟩

/-- Alice signs up and logs out, logs in, and is refused the list. -/
def secondSession : List (Request × Nat) :=
  [(exampleSignup "alice" (bytes "a"), 4), (examplePost aliceToken "/logout" [], 3),
    (examplePost [] "/login" [("username", .str (bytes "alice")),
      ("password", .str (bytes "Password12345"))], 3), (exampleGet aliceToken "/users", 2)]

/-- The token that the step refuses as revoked. -/
def refusal (x : ServerSystem × Label Op Res Task) : Option Bytes :=
  match x.2 with
  | .call _ (.isRevoked token) true => some token
  | _ => none

theorem secondSession_eval : letI := plainFloats;
    (requestRun secondSession).1.getLast?.map (fun x =>
        (refusal x, x.1.threads[2]?.bind fun th => sessionOf th.task th.prog)) =
          some (some aliceToken, some aliceToken) ∧
      ∀ x ∈ (requestRun secondSession).1, logoutBy x = some aliceToken → x.1.threads.length ≤ 2 := by
  decide +kernel

/-- **A new session is refused** when the user has logged out in the second of the login. -/
theorem new_session_refused : letI := loginPrimitives; letI := plainFloats; ¬ ∀ tr w,
    ServerRun exampleConfig (· ≤ ·) ⟨.initial 1000000, []⟩ tr w →
    SessionsUsable exampleConfig tr w := by
  obtain ⟨hlast, hlogouts⟩ := secondSession_eval
  let := loginPrimitives
  let := plainFloats
  intro h
  have husable := h _ _ (run_requestRun secondSession)
  obtain ⟨⟨u, l⟩, hx, hpair⟩ := Option.map_eq_some_iff.mp hlast
  obtain ⟨hrefusal, hsession⟩ := Prod.mk.inj hpair
  obtain ⟨th, hth, htoken⟩ := Option.bind_eq_some_iff.mp hsession
  obtain ⟨before, hbefore⟩ := List.getLast?_eq_some_iff.mp hx
  unfold refusal at hrefusal
  split at hrefusal
  · rename_i i token hl
    cases hrefusal
    cases hl
    -- the session was not there yet when Alice logged out
    obtain ⟨v, t, hmem, hout, hv, -⟩ := husable.accepted before u i aliceToken []
      hbefore 2 th hth htoken
    have hlen := hlogouts (v, .start t) (by rw [hbefore]; exact List.mem_append_left _ hmem) hout
    rw [List.getElem?_eq_none hlen] at hv
    cases hv
  · cases hrefusal

end Kds
