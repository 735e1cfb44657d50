import Kingdom.Server.Machine

/-!
# The lifetime of a token

`configure` reads the lifetime of the tokens from `KD_JWT_TTL_SECONDS` with
`std::stoull` and refuses zero; `createSession_` adds it to the clock without a
check.

* `jwtTtlSeconds` — what `configure` makes of the variable.
* `Lives` — a token whose `exp` is after its `iat`, and which is accepted in the second
  it was issued in.
* `lives_iff` — an issued token lives exactly when the addition does not wrap.
* `lives_of_clock` — no lifetime of at most `2 ^ 63` seconds wraps.
-/

namespace Kds

open Codec

/-- `kDefaultJwtTtlSeconds` -/
def defaultJwtTtlSeconds : UInt64 := 3600

/-- The part of `configure` that reads `KD_JWT_TTL_SECONDS`; `std::stoull` throws a
logic error. -/
def jwtTtlSeconds (jwtTtlEnv : Option Bytes) : Except Exn UInt64 := do
  let jwtTtlSeconds ← match jwtTtlEnv with
    | some text => (stoull text).elim (.error .logicError) .ok
    | none => .ok defaultJwtTtlSeconds
  if jwtTtlSeconds = 0 then
    throw (.runtimeError (bytes "KD_JWT_TTL_SECONDS must be greater than zero"))
  return jwtTtlSeconds

/-- `configure` accepts no lifetime of zero. -/
theorem jwtTtlSeconds_ne_zero {jwtTtlEnv : Option Bytes} {ttl : UInt64}
    (h : jwtTtlSeconds jwtTtlEnv = .ok ttl) : ttl ≠ 0 := by
  rintro rfl
  cases jwtTtlEnv with
  | none => exact absurd (Except.ok.inj h) (by decide)
  | some text =>
      cases htext : stoull text with
      | none => simp [jwtTtlSeconds, htext, bind, Except.bind] at h
      | some read =>
          simp only [jwtTtlSeconds, htext, Option.elim_some, bind, Except.bind] at h
          split_ifs at h with hzero
          exact hzero (Except.ok.inj h)

/-- Every other lifetime is accepted, also one written with a sign. -/
theorem jwtTtlSeconds_some {text : Bytes} {ttl : UInt64} (h : stoull text = some ttl)
    (hne : ttl ≠ 0) : jwtTtlSeconds (some text) = .ok ttl := by
  simp only [jwtTtlSeconds, h, Option.elim_some, bind, Except.bind, if_neg hne]
  rfl

/-- The sum of two times is behind the first one exactly when it wraps. -/
theorem lt_add_iff (a : UInt64) {b : UInt64} (hne : b ≠ 0) :
    a < a + b ↔ a.toNat + b.toNat < 2 ^ 64 := by
  have hpos : 0 < b.toNat := by
    apply Nat.pos_of_ne_zero
    exact fun hzero => hne (UInt64.toNat_inj.mp (by simpa using hzero))
  have ha := a.toNat_lt
  have hb := b.toNat_lt
  rw [UInt64.lt_iff_toNat_lt, UInt64.toNat_add]
  constructor
  · intro hlt
    by_contra hwrap
    rw [Nat.mod_eq_sub_mod (by omega), Nat.mod_eq_of_lt (by omega)] at hlt
    omega
  · intro hfit
    rw [Nat.mod_eq_of_lt hfit]
    omega

section Lifetime

variable [Primitives] [FloatFormat]

/-- The token carries an `iat` of `issuedAt` and a later `exp`, and is accepted in that
second. -/
def Lives (secret : Bytes) (issuedAt : UInt64) (tok : Bytes) : Prop :=
  ∃ payload exp, signedPayload tok secret = .ok (some payload) ∧
    payload.get? (bytes "iat") = some (.unsigned issuedAt) ∧
    payload.get? (bytes "exp") = some (.unsigned exp) ∧ issuedAt < exp ∧
    verifiedJwtPayload issuedAt tok secret = .ok (some payload)

/-- An issued token lives when its expiry is after its issue. -/
theorem lives_iff_lt {secret : Bytes} {ttl issuedAt userId : UInt64} {username tok : Bytes}
    (htok : createSession_ secret ttl issuedAt userId username = .ok tok) :
    Lives secret issuedAt tok ↔ issuedAt < issuedAt + ttl := by
  have hsigned := signedPayload_createSession htok
  have hexp : (jwtPayload issuedAt ttl userId username).get? (bytes "exp") =
      some (.unsigned (issuedAt + ttl)) := by
    rw [jwtPayload_eq]
    rfl
  have hiat : (jwtPayload issuedAt ttl userId username).get? (bytes "iat") =
      some (.unsigned issuedAt) := by
    rw [jwtPayload_eq]
    rfl
  constructor
  · rintro ⟨payload, exp, hpayload, -, hexp', hlater, -⟩
    rw [hsigned] at hpayload
    cases hpayload
    rw [hexp] at hexp'
    cases hexp'
    exact hlater
  · intro hlater
    refine ⟨_, _, hsigned, hiat, hexp, hlater, ?_⟩
    have hnot : ¬ issuedAt + ttl < issuedAt := fun hlt => UInt64.lt_asymm hlater hlt
    rw [verifiedJwtPayload_createSession htok, if_neg hnot]

/-- **An issued token lives exactly when its expiry does not wrap.** -/
theorem lives_iff {jwtTtlEnv : Option Bytes} {secret : Bytes} {ttl issuedAt userId : UInt64}
    {username tok : Bytes} (hconfigured : jwtTtlSeconds jwtTtlEnv = .ok ttl)
    (htok : createSession_ secret ttl issuedAt userId username = .ok tok) :
    Lives secret issuedAt tok ↔ issuedAt.toNat + ttl.toNat < 2 ^ 64 :=
  (lives_iff_lt htok).trans (lt_add_iff issuedAt (jwtTtlSeconds_ne_zero hconfigured))

/-- Tokens live on every clock when their lifetime is at most `2 ^ 63` seconds. -/
theorem lives_of_clock {jwtTtlEnv : Option Bytes} {secret : Bytes} {ttl userId : UInt64}
    {username tok : Bytes} {c : Clock} (hconfigured : jwtTtlSeconds jwtTtlEnv = .ok ttl)
    (hshort : ttl.toNat ≤ 2 ^ 63)
    (htok : createSession_ secret ttl (epochSeconds c) userId username = .ok tok) :
    Lives secret (epochSeconds c) tok := by
  apply (lives_iff_lt htok).mpr
  apply (lt_add_iff _ (jwtTtlSeconds_ne_zero hconfigured)).mpr
  have hclock : (epochSeconds c).toNat ≤ c.val := by
    rw [epochSeconds, UInt64.toNat_ofNat']
    exact (Nat.mod_le _ _).trans (Nat.div_le_self _ _)
  have := c.isLt
  omega

end Lifetime

/-- A lifetime of an hour, at second 1000. -/
theorem lives_iff_example : letI := examplePrimitives; letI := plainFloats;
    ∃ tok, createSession_ exampleSecret 3600 1000 1 (bytes "alice") = .ok tok ∧
      (Lives exampleSecret 1000 tok ↔ UInt64.toNat 1000 + UInt64.toNat 3600 < 2 ^ 64) := by
  let := examplePrimitives
  let := plainFloats
  obtain ⟨tok, htok⟩ := createSession_utf8 (validUtf8_bytes "alice") exampleSecret 3600 1000 1
  exact ⟨tok, htok, lives_iff (show jwtTtlSeconds none = .ok 3600 from rfl) htok⟩

/-- A lifetime of `-1` is accepted, and its tokens expire before they are issued. -/
theorem not_lives : letI := examplePrimitives; letI := plainFloats;
    ¬ ∀ (jwtTtlEnv : Option Bytes) (secret : Bytes) (ttl issuedAt userId : UInt64)
      (username tok : Bytes), jwtTtlSeconds jwtTtlEnv = .ok ttl →
        createSession_ secret ttl issuedAt userId username = .ok tok → Lives secret issuedAt tok := by
  let := examplePrimitives
  let := plainFloats
  intro h
  have hconfigured : jwtTtlSeconds (some (bytes "-1")) = .ok 18446744073709551615 :=
    jwtTtlSeconds_some (by decide +kernel) (by decide)
  obtain ⟨tok, htok⟩ :=
    createSession_utf8 (validUtf8_bytes "alice") exampleSecret 18446744073709551615 1000 1
  have hlater := (lives_iff_lt htok).mp (h _ _ _ _ _ _ _ hconfigured htok)
  exact absurd hlater (by decide)

end Kds
