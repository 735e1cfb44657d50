import Kingdom.Process.History
import Kingdom.Server.Session

/-!
# Logging out

What the token blacklist does over a run of one server process, with a clock that
never goes back.

The verifier accepts a token up to and including its expiry second, and the
blacklist forgets it from that second on, so a token that was revoked is let
through again by a check made in its expiry second.

* `Checks`, `LetsThrough` — the blacklist check of `ValidateAuthenticated`;
  `validateAuthenticated_calls` says it is its last call.
* `Blacklisted` — a revoked token is remembered until it expires.
* `let_through_iff_expired` — when a token is let through after it was revoked.
-/

namespace Kds

open Codec Process

/-! ## The check -/

/-- The call puts the token on the blacklist. -/
def Revokes (token : Bytes) : (o : Op) → Res o → Prop
  | .revoke t, _ => t = token
  | _, _ => False

/-- The call looks the token up in the blacklist. -/
def Checks (token : Bytes) : (o : Op) → Res o → Prop
  | .isRevoked t, _ => t = token
  | _, _ => False

/-- `ValidateAuthenticated` lets a request under the token through: its last call
found the token not revoked. -/
def LetsThrough (token : Bytes) : (o : Op) → Res o → Prop
  | .isRevoked t, revoked => t = token ∧ revoked = false
  | _, _ => False

section Check

variable [Primitives] [FloatFormat]

/-- On a path that is not public the predicate reads the clock to verify the
token, and lets the request through when the blacklist does not hold it. -/
theorem validateAuthenticated_calls {cfg : Config} {req : Request} {token : Bytes}
    (hpath : isPublicPath req.path = false) (htoken : bearerToken req = some token) :
    validateAuthenticated cfg req = Prog.call .epochSeconds fun now =>
      match verifiedJwtPayload now token cfg.jwtSecret with
      | .error e => .fail e
      | .ok none => .pure (some ⟨"invalid or expired session token", 401⟩)
      | .ok (some _) => Prog.call (.isRevoked token) fun revoked =>
          .pure (if revoked = true then some ⟨"session has been revoked", 401⟩ else none) := by
  unfold validateAuthenticated
  rw [if_neg (by simp [hpath]), htoken]
  refine congrArg (Prog.call Op.epochSeconds) (funext fun now => ?_)
  cases hv : verifiedJwtPayload now token cfg.jwtSecret with
  | error e => simp [Prog.bind, Prog.ofExcept, hv]
  | ok r =>
      cases r with
      | none => simp [Prog.bind, Prog.ofExcept, hv]
      | some payload =>
          simp only [Prog.bind, Prog.ofExcept, hv]
          refine congrArg (Prog.call (Op.isRevoked token)) (funext fun revoked => ?_)
          cases revoked <;> rfl

/-- The blacklist reads the expiry of an issued token. -/
theorem expiryFromToken_issued {secret token : Bytes} {ttl : UInt64} {c : SessionCall}
    (h : c.Returned secret ttl token) :
    TokenBlacklist.expiryFromToken_ token = some (c.issuedAt + ttl) := by
  obtain ⟨header, payload, -, hp, rfl⟩ := createSession_ok h
  have hpayload := Json.parse_dump hp (wf_jwtPayload c.issuedAt ttl c.userId c.username)
  rw [norm_jwtPayload, jwtPayload_eq] at hpayload
  have hfirst : splitDot (signingInput header payload ++
      dot :: signJwtInput (signingInput header payload) secret) =
        some (Base64.urlEncode header, Base64.urlEncode payload ++
          dot :: signJwtInput (signingInput header payload) secret) := by
    rw [signingInput, List.append_assoc, List.cons_append]
    exact splitDot_append (Base64.urlEncode_no_dot _) _
  simp only [TokenBlacklist.expiryFromToken_, hfirst,
    splitDot_append (Base64.urlEncode_no_dot payload), Base64.urlDecode_urlEncode, hpayload,
    Option.bind_eq_bind, Option.bind_some]
  rfl

end Check

/-! ## The blacklist over a run -/

section Blacklist

variable {token : Bytes} {expiry : UInt64}

/-- The token is remembered with its expiry, or has expired. -/
def Blacklisted (token : Bytes) (expiry : UInt64) (s : ServerState) : Prop :=
  (token, expiry) ∈ s.tokens ∨ expiry ≤ epochSeconds s.clock

/-- The token is remembered under no other expiry. -/
def ExpiresAt (token : Bytes) (expiry : UInt64) (s : ServerState) : Prop :=
  ∀ p ∈ s.tokens, p.1 = token → p.2 = expiry

theorem epochSeconds_mono {c c' : Clock} (h : c ≤ c') : epochSeconds c ≤ epochSeconds c' := by
  have hle : c.val / 1000 ≤ c'.val / 1000 := Nat.div_le_div_right h
  have hlt : c'.val / 1000 < 2 ^ 64 := by
    have := c'.isLt
    omega
  rw [epochSeconds, epochSeconds, UInt64.le_iff_toNat_le, UInt64.toNat_ofNat_of_lt' hlt,
    UInt64.toNat_ofNat_of_lt' (hle.trans_lt hlt)]
  exact hle

theorem mem_pruneExpired {now : UInt64} {tokens : TokenMap} {p : Bytes × UInt64} :
    p ∈ TokenBlacklist.pruneExpired_ now tokens ↔ p ∈ tokens ∧ now < p.2 := by
  simp [TokenBlacklist.pruneExpired_, List.mem_filter]

/-- Pruning forgets a token only when it has expired. -/
theorem blacklisted_prune {s : ServerState} (h : Blacklisted token expiry s) :
    (token, expiry) ∈ TokenBlacklist.pruneExpired_ (epochSeconds s.clock) s.tokens ∨
      expiry ≤ epochSeconds s.clock := by
  by_cases hexp : expiry ≤ epochSeconds s.clock
  · exact .inr hexp
  · exact .inl (mem_pruneExpired.mpr ⟨h.resolve_right hexp, UInt64.not_le.mp hexp⟩)

/-- What the check answers: the token is on the blacklist until it expires. -/
theorem contains_prune {s : ServerState} (h : Blacklisted token expiry s)
    (hexp : ExpiresAt token expiry s) :
    TokenBlacklist.contains token
      (TokenBlacklist.pruneExpired_ (epochSeconds s.clock) s.tokens) = true ↔
        epochSeconds s.clock < expiry := by
  simp only [TokenBlacklist.contains, List.any_eq_true, decide_eq_true_eq]
  constructor
  · intro hin
    obtain ⟨p, hp, hpt⟩ := hin
    obtain ⟨hmem, hlt⟩ := mem_pruneExpired.mp hp
    rw [hexp p hmem hpt] at hlt
    exact hlt
  · intro hlt
    have hmem := h.resolve_right (UInt64.not_le.mpr hlt)
    exact ⟨_, mem_pruneExpired.mpr ⟨hmem, hlt⟩, rfl⟩

variable [FloatFormat] {cfg : Config} {s s' : ServerState}

/-- Revoking the token puts it on the blacklist. -/
theorem blacklisted_revoke (hexpiry : TokenBlacklist.expiryFromToken_ token = some expiry)
    (s : ServerState) :
    Blacklisted token expiry
      { s with tokens := TokenBlacklist.revoke (epochSeconds s.clock) token s.tokens } := by
  refine .inl ?_
  simp [TokenBlacklist.revoke, TokenBlacklist.assign, hexpiry]

/-- No call but a revoke or a check touches the blacklist, and none the clock. -/
theorem tokens_exec {o : Op} {r : Res o} (h : exec cfg o s r s') :
    s'.clock = s.clock ∧ (s'.tokens = s.tokens ∨
      s'.tokens = TokenBlacklist.pruneExpired_ (epochSeconds s.clock) s.tokens ∨
      ∃ t, o = .revoke t ∧
        s'.tokens = TokenBlacklist.revoke (epochSeconds s.clock) t s.tokens) := by
  rcases exec_touches h with ⟨t, rfl, hs'⟩ | ⟨t, -, hs'⟩ | ⟨ip, -, hs'⟩ | hs'
  · rw [hs']
    exact ⟨rfl, .inr (.inr ⟨t, rfl, rfl⟩)⟩
  · rw [hs']
    exact ⟨rfl, .inr (.inl rfl)⟩
  · rw [hs']
    exact ⟨rfl, .inl rfl⟩
  · rw [hs']
    exact ⟨rfl, .inl rfl⟩

/-- **A call forgets a revoked token only when it has expired.** -/
theorem blacklisted_exec {o : Op} {r : Res o}
    (hexpiry : TokenBlacklist.expiryFromToken_ token = some expiry)
    (h : exec cfg o s r s') (hb : Blacklisted token expiry s) : Blacklisted token expiry s' := by
  obtain ⟨hclock, htokens⟩ := tokens_exec h
  unfold Blacklisted
  rw [hclock]
  rcases htokens with heq | heq | ⟨t, -, heq⟩
  · rw [heq]
    exact hb
  · rw [heq]
    exact blacklisted_prune hb
  · rw [heq]
    by_cases ht : t = token
    · rw [ht]
      exact (blacklisted_revoke hexpiry s)
    · refine (blacklisted_prune hb).imp_left fun hmem => ?_
      refine List.mem_cons_of_mem _ (List.mem_filter.mpr ⟨hmem, ?_⟩)
      simpa using fun heq : token = t => ht heq.symm

theorem expiresAt_exec {o : Op} {r : Res o}
    (hexpiry : TokenBlacklist.expiryFromToken_ token = some expiry)
    (h : exec cfg o s r s') (he : ExpiresAt token expiry s) : ExpiresAt token expiry s' := by
  obtain ⟨-, htokens⟩ := tokens_exec h
  intro p hp hpt
  rcases htokens with heq | heq | ⟨t, -, heq⟩
  · rw [heq] at hp
    exact he p hp hpt
  · rw [heq] at hp
    exact he p (mem_pruneExpired.mp hp).1 hpt
  · rw [heq] at hp
    rcases List.mem_cons.mp hp with hnew | hold
    · rw [hnew] at hpt ⊢
      obtain rfl : t = token := hpt
      simp [hexpiry]
    · exact he p (mem_pruneExpired.mp (List.mem_of_mem_filter hold)).1 hpt

end Blacklist

section Runs

variable [Primitives] [FloatFormat] {cfg : Config} {token : Bytes} {expiry : UInt64}

theorem blacklisted_step {w w' : ServerSystem} {l : Label Op Res Task}
    (hexpiry : TokenBlacklist.expiryFromToken_ token = some expiry)
    (h : ServerStep cfg (· ≤ ·) w l w') (hl : l ≠ .restart)
    (hb : Blacklisted token expiry w.state) : Blacklisted token expiry w'.state := by
  cases h with
  | start t => exact hb
  | call hget hexec => exact blacklisted_exec hexpiry hexec hb
  | env henv =>
      cases henv with
      | clock hle => exact hb.imp_right fun he => UInt64.le_trans he (epochSeconds_mono hle)
      | steadyClock => exact hb
      | skipIds => exact hb
  | restart => exact absurd rfl hl

theorem expiresAt_step {w w' : ServerSystem} {l : Label Op Res Task}
    (hexpiry : TokenBlacklist.expiryFromToken_ token = some expiry)
    (h : ServerStep cfg (· ≤ ·) w l w') (he : ExpiresAt token expiry w.state) :
    ExpiresAt token expiry w'.state := by
  cases h with
  | start t => exact he
  | call hget hexec => exact expiresAt_exec hexpiry hexec he
  | env henv =>
      cases henv with
      | clock => exact he
      | steadyClock => exact he
      | skipIds => exact he
  | @restart s s' ths hrestart =>
      rw [show s' = restartServer s from hrestart]
      intro p hp
      cases hp

theorem expiresAt_run {w w' : ServerSystem} {tr : ServerTrace}
    (hexpiry : TokenBlacklist.expiryFromToken_ token = some expiry)
    (h : ServerRun cfg (· ≤ ·) w tr w') (he : ExpiresAt token expiry w.state) :
    ExpiresAt token expiry w'.state := by
  induction h with
  | nil => exact he
  | snoc _ hstep ih => exact expiresAt_step hexpiry hstep ih

theorem blacklisted_run {w w' : ServerSystem} {tr : ServerTrace}
    (hexpiry : TokenBlacklist.expiryFromToken_ token = some expiry)
    (h : ServerRun cfg (· ≤ ·) w tr w') (hone : ∀ x ∈ tr, x.2 ≠ .restart)
    (hb : Blacklisted token expiry w.state) : Blacklisted token expiry w'.state := by
  induction h with
  | nil => exact hb
  | snoc _ hstep ih =>
      rw [List.forall_mem_append, List.forall_mem_singleton] at hone
      exact blacklisted_step hexpiry hstep hone.2 (ih hone.1)

/-- The clock never goes back. -/
theorem clock_le_of_step {w w' : ServerSystem} {l : Label Op Res Task}
    (h : ServerStep cfg (· ≤ ·) w l w') : w.state.clock ≤ w'.state.clock := by
  cases h with
  | start t => exact Nat.le_refl _
  | call hget hexec => exact le_of_eq (tokens_exec hexec).1.symm
  | env henv =>
      cases henv with
      | clock hle => exact hle
      | steadyClock => exact Nat.le_refl _
      | skipIds => exact Nat.le_refl _
  | @restart s s' ths hrestart =>
      show s.clock ≤ s'.clock
      rw [show s' = restartServer s from hrestart]
      exact Nat.le_refl _

theorem clock_le_of_run {w w' : ServerSystem} {tr : ServerTrace}
    (h : ServerRun cfg (· ≤ ·) w tr w') : ∀ x ∈ tr, x.1.state.clock ≤ w'.state.clock := by
  induction h with
  | nil => simp
  | @snoc tr v l u _ hstep ih =>
      intro x hx
      refine le_trans ?_ (clock_le_of_step hstep)
      rcases List.mem_append.mp hx with hx | hx
      · exact ih x hx
      · rw [List.mem_singleton.mp hx]

/-- From its revocation on the token is on the blacklist. -/
theorem revokes_step {w w' : ServerSystem} {l : Label Op Res Task}
    (hexpiry : TokenBlacklist.expiryFromToken_ token = some expiry)
    (h : ServerStep cfg (· ≤ ·) w l w') (hl : l.IsCall (Revokes token)) :
    Blacklisted token expiry w'.state := by
  cases h with
  | start t => exact hl.elim
  | env henv => exact hl.elim
  | restart => exact hl.elim
  | @call s s' ths i t past o k r hget hexec =>
      cases o with
      | revoke t =>
          obtain rfl : t = token := hl
          rw [show s' = _ from hexec]
          exact blacklisted_revoke hexpiry s
      | _ => exact hl.elim

/-- A check made after the token was revoked lets it through when it has expired. -/
theorem letsThrough_step {w w' : ServerSystem} {l : Label Op Res Task}
    (h : ServerStep cfg (· ≤ ·) w l w') (hb : Blacklisted token expiry w.state)
    (he : ExpiresAt token expiry w.state) :
    l.IsCall (LetsThrough token) ↔
      l.IsCall (Checks token) ∧ expiry ≤ epochSeconds w.state.clock := by
  cases h with
  | start t => simp [Label.IsCall]
  | env henv => simp [Label.IsCall]
  | restart => simp [Label.IsCall]
  | @call s s' ths i t past o k r hget hexec =>
      cases o with
      | isRevoked t =>
          simp only [Label.IsCall, LetsThrough, Checks]
          refine and_congr_right ?_
          rintro rfl
          have hanswer := contains_prune hb he
          obtain ⟨hs', hr⟩ := hexec
          rw [hr, hs', ← Bool.not_eq_true, hanswer, UInt64.not_lt]
      | _ => simp [Label.IsCall, LetsThrough, Checks]

/-- **A revoked token is let through again by exactly the checks made when it has
expired.**  The verifier still accepts it in its expiry second, and so logging
out is final in exactly the runs in which no request under the token is checked
at that second or later. -/
theorem let_through_iff_expired {clock : Clock} {tr₁ tr₂ : ServerTrace} {v w : ServerSystem}
    {l : Label Op Res Task} {c : SessionCall}
    (hissued : c.Returned cfg.jwtSecret cfg.jwtTtlSeconds token)
    (h : ServerRun cfg (· ≤ ·) ⟨.initial clock, []⟩ (tr₁ ++ (v, l) :: tr₂) w)
    (hl : l.IsCall (Revokes token)) (hone : ∀ x ∈ tr₂, x.2 ≠ .restart) :
    (∀ x ∈ tr₂, ¬ x.2.IsCall (LetsThrough token)) ↔
      ∀ x ∈ tr₂, x.2.IsCall (Checks token) →
        epochSeconds x.1.state.clock < c.issuedAt + cfg.jwtTtlSeconds := by
  have hexpiry := expiryFromToken_issued hissued
  obtain ⟨v', h₁, hrevoke, h₂⟩ := h.split
  have hstart : ExpiresAt token (c.issuedAt + cfg.jwtTtlSeconds) v'.state := by
    refine expiresAt_step hexpiry hrevoke (expiresAt_run hexpiry h₁ ?_)
    intro p hp
    cases hp
  have hrevoked : Blacklisted token (c.issuedAt + cfg.jwtTtlSeconds) v'.state :=
    revokes_step hexpiry hrevoke hl
  refine forall₂_congr fun x hx => ?_
  obtain ⟨before, after, rfl⟩ := List.append_of_mem hx
  obtain ⟨x', hto, hstep, -⟩ := h₂.split
  have hbefore : ∀ y ∈ before, y.2 ≠ .restart := by
    intro y hy
    exact hone y (List.mem_append_left _ hy)
  have hiff := letsThrough_step hstep (blacklisted_run hexpiry hto hbefore hrevoked)
    (expiresAt_run hexpiry hto hstart)
  rw [hiff, not_and, UInt64.not_le]

end Runs

/-! ## A session that logs out -/

instance (token : Bytes) (o : Op) (r : Res o) : Decidable (Revokes token o r) := by
  cases o <;> first | exact inferInstanceAs (Decidable (_ = _)) | exact isFalse id

instance (token : Bytes) (o : Op) (r : Res o) : Decidable (Checks token o r) := by
  cases o <;> first | exact inferInstanceAs (Decidable (_ = _)) | exact isFalse id

instance (token : Bytes) (o : Op) (r : Res o) : Decidable (LetsThrough token o r) := by
  cases o <;> first | exact inferInstanceAs (Decidable (_ = _ ∧ _ = _)) | exact isFalse id

/-- Alice signs up and logs out. -/
def logoutSession : List Request :=
  [exampleSignup "alice" (bytes "a"), examplePost aliceToken "/logout" []]

theorem returned_aliceToken :
    @SessionCall.Returned examplePrimitives exampleSecret 3600 exampleCall aliceToken := by
  have h : (@createSession_ examplePrimitives exampleSecret 3600 1000 1 (bytes "alice")).toOption =
      some aliceToken := by decide +kernel
  unfold SessionCall.Returned exampleCall
  cases hc : @createSession_ examplePrimitives exampleSecret 3600 1000 1 (bytes "alice") with
  | error e => simp [hc, Except.toOption] at h
  | ok tok =>
      rw [hc] at h
      exact congrArg Except.ok (Option.some.inj h)

/-- A `GET` under a token. -/
def exampleGet (token : Bytes) (path : String) : Request :=
  ⟨bytes "GET", bytes path, bytes "Bearer " ++ token, [], bytes "127.0.0.1", []⟩

/-- The server after `logoutSession`. -/
def logoutState : ServerState :=
  (@session examplePrimitives plainFloats exampleConfig (.initial 1000000) logoutSession).2

/-- What the examples need of it: the token is revoked, a check at once finds it and one at the
second at which it expires lets it through. -/
theorem logoutSession_eval : letI := examplePrimitives; letI := plainFloats;
    sessionCalls exampleConfig (fun _ => Revokes aliceToken) (.initial 1000000) logoutSession = true ∧
      sessionCalls exampleConfig (fun _ => Checks aliceToken) logoutState
        [exampleGet aliceToken "/users"] = true ∧
      (session exampleConfig logoutState [exampleGet aliceToken "/users"]).2.clock = 1000000 ∧
      logoutState.clock ≤ 4600000 ∧
      sessionCalls exampleConfig (fun _ => LetsThrough aliceToken) { logoutState with clock := 4600000 }
        [exampleGet aliceToken "/users"] = true := by
  decide +kernel

/-- The run of the session, cut where the token is revoked. -/
theorem run_logoutSession : ∃ tr₁ tr₂ v l ths,
    @ServerRun examplePrimitives plainFloats exampleConfig (· ≤ ·) ⟨.initial 1000000, []⟩
      (tr₁ ++ (v, l) :: tr₂) ⟨logoutState, ths⟩ ∧
      l.IsCall (Revokes aliceToken) ∧ ∀ x ∈ tr₂, x.2 ≠ .restart := by
  let _ := examplePrimitives
  let _ := plainFloats
  obtain ⟨tr, hrun, hone, hcalls⟩ :=
    run_session logoutSession (.initial 1000000) []
  obtain ⟨⟨v, l⟩, hmem, hl⟩ := (hcalls _).mp logoutSession_eval.1
  obtain ⟨tr₁, tr₂, rfl⟩ := List.append_of_mem hmem
  rw [logoutState]
  refine ⟨tr₁, tr₂, v, l, _, hrun, hl, ?_⟩
  intro x hx
  exact hone x (by simp [hx])

/-- Alice's token is checked again at once, and is not let through. -/
theorem let_through_iff_expired_example : ∃ tr₁ tr₂ v l w,
    @ServerRun examplePrimitives plainFloats exampleConfig (· ≤ ·) ⟨.initial 1000000, []⟩
      (tr₁ ++ (v, l) :: tr₂) w ∧ l.IsCall (Revokes aliceToken) ∧
      (∃ x ∈ tr₂, x.2.IsCall (Checks aliceToken)) ∧
      ∀ x ∈ tr₂, ¬ x.2.IsCall (LetsThrough aliceToken) := by
  let _ := examplePrimitives
  let _ := plainFloats
  obtain ⟨tr₁, tr₂, v, l, ths, hrun, hl, hone⟩ := run_logoutSession
  obtain ⟨-, hcall, hclock, -⟩ := logoutSession_eval
  obtain ⟨tr₃, hafter, hone', hcalls⟩ :=
    run_session [exampleGet aliceToken "/users"] logoutState ths
  obtain ⟨x, hx, hchecks⟩ := (hcalls _).mp hcall
  obtain ⟨out, hout⟩ :
      ∃ out, session exampleConfig logoutState [exampleGet aliceToken "/users"] = out :=
    ⟨_, rfl⟩
  rw [hout] at hclock hafter
  have hfull := hrun.append hafter
  rw [List.append_assoc, List.cons_append] at hfull
  refine ⟨tr₁, tr₂ ++ tr₃, v, l, _, hfull, hl, ⟨x, List.mem_append_right _ hx, hchecks⟩, ?_⟩
  have hrestart : ∀ x ∈ tr₂ ++ tr₃, x.2 ≠ .restart := List.forall_mem_append.mpr ⟨hone, hone'⟩
  refine (let_through_iff_expired returned_aliceToken hfull hl hrestart).mpr ?_
  intro y hy _
  have hmem : y ∈ tr₁ ++ (v, l) :: (tr₂ ++ tr₃) :=
    List.mem_append_right _ (List.mem_cons_of_mem _ hy)
  have hle := clock_le_of_run hfull y hmem
  dsimp only at hle
  rw [hclock] at hle
  exact UInt64.lt_of_le_of_lt (epochSeconds_mono hle) (by decide +kernel)

/-- **A session that logged out is let through again.**  The clock reaches the
second at which Alice's token expires: the blacklist has forgotten the token and
the verifier still accepts it. -/
theorem revoked_token_let_through : ∃ tr₁ tr₂ v l w,
    @SessionCall.Returned examplePrimitives exampleConfig.jwtSecret exampleConfig.jwtTtlSeconds
      exampleCall aliceToken ∧
    @ServerRun examplePrimitives plainFloats exampleConfig (· ≤ ·) ⟨.initial 1000000, []⟩
      (tr₁ ++ (v, l) :: tr₂) w ∧ l.IsCall (Revokes aliceToken) ∧ (∀ x ∈ tr₂, x.2 ≠ .restart) ∧
      ∃ x ∈ tr₂, x.2.IsCall (LetsThrough aliceToken) := by
  let _ := examplePrimitives
  let _ := plainFloats
  obtain ⟨tr₁, tr₂, v, l, ths, hrun, hl, hone⟩ := run_logoutSession
  obtain ⟨-, -, -, hclock, hcall⟩ := logoutSession_eval
  obtain ⟨tr₃, hafter, hone', hcalls⟩ :=
    run_session [exampleGet aliceToken "/users"] { logoutState with clock := 4600000 } ths
  obtain ⟨x, hx, hthrough⟩ := (hcalls _).mp hcall
  have hfull := (Run.snoc hrun (.env (.clock hclock))).append hafter
  simp only [List.append_assoc, List.cons_append] at hfull
  refine ⟨tr₁, _, v, l, _, returned_aliceToken, hfull, hl, ?_, x, by simp [hx], hthrough⟩
  intro y hy
  rcases List.mem_append.mp hy with hy | hy
  · exact hone y hy
  · rcases List.mem_cons.mp hy with rfl | hy
    · simp
    · exact hone' y hy

end Kds
