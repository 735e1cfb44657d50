import Kingdom.Codec.Base64
import Kingdom.Codec.JsonRoundTrip

/-!
# Session tokens

The JSON web tokens of the server: `JwtUtils.hh` and the two functions of the
controller that issue a token and read its user.

* `Exn` — the exceptions the server code tells apart.
* `Request` — an HTTP request, with the two headers that are read.
* `signJwtInput`, `verifiedJwtPayload`, `createSession_`, `authenticatedUserId_`.
* `verifiedJwtPayload_createSession` — what the verifier makes of an issued token.
* `accepts_iff_issued` — under an unforgeable signature nothing but an issued
  token is ever accepted.
-/

namespace Kds

open Codec

abbrev Bytes := List UInt8

/-- The exceptions of the server: `std::runtime_error` with its text (every
database failure is one), those of the JSON library, and other logic errors. -/
inductive Exn where
  | runtimeError (what : Bytes)
  | jsonError
  | logicError
  deriving DecidableEq, Repr

/-- An HTTP request as far as the server reads it; a missing header is empty. -/
structure Request where
  method : Bytes
  path : Bytes
  authorization : Bytes
  contentType : Bytes
  remoteAddr : Bytes
  body : Bytes

/-- The primitives of OpenSSL and libsodium the server calls. -/
class Primitives where
  /-- `HMAC(EVP_sha256(), key, input)` -/
  hmacSha256 : Bytes → Bytes → Bytes
  /-- `crypto_pwhash_str_verify(hash, password) == 0` -/
  pwhashVerify : Bytes → Bytes → Bool

/-! ## Dots and headers -/

def dot : UInt8 := 0x2E

/-- The text before the first dot and the text after it. -/
def splitDot (s : Bytes) : Option (Bytes × Bytes) :=
  if dot ∈ s then some (s.takeWhile (· ≠ dot), (s.dropWhile (· ≠ dot)).tail) else none

/-- The three parts of a token, cut at its two dots. -/
def splitToken (token : Bytes) : Option (Bytes × Bytes × Bytes) := do
  let (header, rest) ← splitDot token
  let (payload, signature) ← splitDot rest
  if dot ∈ signature then none else some (header, payload, signature)

/-- `bearerToken` -/
def bearerToken (req : Request) : Option Bytes :=
  if req.authorization.length ≤ (bytes "Bearer ").length ∨
      ¬ (bytes "Bearer ").isPrefixOf req.authorization then none
  else some (req.authorization.drop (bytes "Bearer ").length)

/-! ## The parts of a token -/

/-- The header of every token. -/
def jwtHeader : Json UInt8 := .mkObj [("alg", .str (bytes "HS256")), ("typ", .str (bytes "JWT"))]

/-- The payload of a token issued at `issuedAt`. -/
def jwtPayload (issuedAt ttl userId : UInt64) (username : Bytes) : Json UInt8 :=
  .mkObj [("sub", .str (decimal userId.toNat)), ("username", .str username),
    ("iat", .unsigned issuedAt), ("exp", .unsigned (issuedAt + ttl))]

/-- What is signed: the encoded header and payload. -/
def signingInput (header payload : Bytes) : Bytes :=
  Base64.urlEncode header ++ dot :: Base64.urlEncode payload

/-- `header.value("alg", "")` -/
def algOf (header : Json UInt8) : Except Exn Bytes :=
  if header.isObject then
    match header.get? (bytes "alg") with
    | none => .ok []
    | some j => (j.str?).elim (.error .jsonError) .ok
  else .error .jsonError

/-- The user a verified payload names: `std::stoull` of its `sub`, none when
that throws. -/
def payloadUserId (payload : Json UInt8) : Option UInt64 :=
  (payload.get? (bytes "sub")).bind fun j => j.str?.bind stoull

section Tokens

variable [Primitives]

/-- `signJwtInput` -/
def signJwtInput (signingInput secret : Bytes) : Bytes :=
  Base64.urlEncode (Primitives.hmacSha256 secret signingInput)

variable [FloatFormat]

/-- The payload of a token with the right signature and algorithm. -/
def signedPayload (token secret : Bytes) : Except Exn (Option (Json UInt8)) :=
  match splitToken token with
  | none => .ok none
  | some (headerPart, payloadPart, signature) =>
      if signature = signJwtInput (headerPart ++ dot :: payloadPart) secret then
        match Base64.urlDecode headerPart, Base64.urlDecode payloadPart with
        | some headerBody, some payloadBody =>
            match (Json.parse headerBody : Option (Json UInt8)), Json.parse payloadBody with
            | some header, some payload => do
                let alg ← algOf header
                return if alg = bytes "HS256" then some payload else none
            | _, _ => .ok none
        | _, _ => .ok none
      else .ok none

/-- `payload.contains("exp")` and the comparison with the clock. -/
def unexpired (now : UInt64) (payload : Json UInt8) : Except Exn Bool :=
  match payload.get? (bytes "exp") with
  | none => .ok false
  | some j => (j.uint64?).elim (.error .jsonError) fun exp => .ok (¬ exp < now)

/-- `verifiedJwtPayload`, with the clock read at `now`. -/
def verifiedJwtPayload (now : UInt64) (token secret : Bytes) :
    Except Exn (Option (Json UInt8)) := do
  match ← signedPayload token secret with
  | none => return none
  | some payload => return if ← unexpired now payload then some payload else none

/-- `Controller::createSession_` at the time `issuedAt`; `dump` throws on a
username that is not valid UTF-8. -/
def createSession_ (secret : Bytes) (ttl issuedAt userId : UInt64) (username : Bytes) :
    Except Exn Bytes :=
  match jwtHeader.dump, (jwtPayload issuedAt ttl userId username).dump with
  | some header, some payload =>
      .ok (signingInput header payload ++ dot :: signJwtInput (signingInput header payload) secret)
  | _, _ => .error .jsonError

/-- `Controller::authenticatedUserId_`, with the clock read at `now`. -/
def authenticatedUserId_ (secret : Bytes) (now : UInt64) (req : Request) :
    Except Exn (Option UInt64) :=
  match bearerToken req with
  | none => .ok none
  | some token => do
      let payload ← verifiedJwtPayload now token secret
      return payload.bind payloadUserId

end Tokens

/-! ## Cutting a token at its dots -/

theorem splitDot_append {a : Bytes} (ha : dot ∉ a) (b : Bytes) :
    splitDot (a ++ dot :: b) = some (a, b) := by
  have hall : ∀ c ∈ a, decide (c ≠ dot) = true := by
    rintro c hc
    simpa using fun he : c = dot => ha (he ▸ hc)
  rw [splitDot, if_pos (by simp), List.takeWhile_append_of_pos hall,
    List.dropWhile_append_of_pos hall]
  simp

theorem eq_of_splitDot {s a b : Bytes} (h : splitDot s = some (a, b)) :
    s = a ++ dot :: b ∧ dot ∉ a := by
  unfold splitDot at h
  split_ifs at h with hmem
  cases h
  have hne : s.dropWhile (· ≠ dot) ≠ [] := by
    rw [Ne, List.dropWhile_eq_nil_iff]
    intro hall
    simpa using hall dot hmem
  obtain ⟨c, r, hcr⟩ := List.exists_cons_of_ne_nil hne
  have hc : c = dot := by
    have hhead : (s.dropWhile (· ≠ dot)).head hne = c := by simp only [hcr, List.head_cons]
    have hnot := List.head_dropWhile_not (· ≠ dot) hne
    rw [hhead] at hnot
    simpa using hnot
  refine ⟨?_, ?_⟩
  · conv_lhs => rw [← List.takeWhile_append_dropWhile (p := (· ≠ dot)) (l := s)]
    rw [hcr, hc]
    rfl
  · intro hdot
    simpa using List.mem_takeWhile_imp hdot

theorem splitToken_append {h p s : Bytes} (hh : dot ∉ h) (hp : dot ∉ p) (hs : dot ∉ s) :
    splitToken (h ++ dot :: p ++ dot :: s) = some (h, p, s) := by
  unfold splitToken
  rw [List.append_assoc, List.cons_append, splitDot_append hh]
  simp only [Option.bind_eq_bind, Option.bind_some, splitDot_append hp, if_neg hs]

theorem eq_of_splitToken {token h p s : Bytes} (hsplit : splitToken token = some (h, p, s)) :
    token = h ++ dot :: p ++ dot :: s := by
  unfold splitToken at hsplit
  simp only [Option.bind_eq_bind, Option.bind_eq_some_iff] at hsplit
  obtain ⟨⟨h', rest⟩, h1, ⟨p', s'⟩, h2, h3⟩ := hsplit
  simp only at h2 h3
  split_ifs at h3
  cases h3
  rw [(eq_of_splitDot h1).1, (eq_of_splitDot h2).1]
  simp

/-! ## The parts of an issued token -/

/-- The payload with its fields in order. -/
theorem jwtPayload_eq (issuedAt ttl userId : UInt64) (username : Bytes) :
    jwtPayload issuedAt ttl userId username =
      .obj [(bytes "exp", .unsigned (issuedAt + ttl)), (bytes "iat", .unsigned issuedAt),
        (bytes "sub", .str (decimal userId.toNat)), (bytes "username", .str username)] := by
  simp only [jwtPayload, Json.mkObj, Json.ofFields, List.map_cons, List.map_nil, List.foldl_cons,
    List.foldl_nil]
  rfl

theorem jwtHeader_eq : jwtHeader =
    .obj [(bytes "alg", .str (bytes "HS256")), (bytes "typ", .str (bytes "JWT"))] := by
  simp only [jwtHeader, Json.mkObj, Json.ofFields, List.map_cons, List.map_nil, List.foldl_cons,
    List.foldl_nil]
  rfl

theorem norm_jwtPayload (issuedAt ttl userId : UInt64) (username : Bytes) :
    (jwtPayload issuedAt ttl userId username).norm = jwtPayload issuedAt ttl userId username := by
  simp only [jwtPayload_eq, Json.norm, Json.normFields]

theorem norm_jwtHeader : jwtHeader.norm = jwtHeader := by
  simp only [jwtHeader_eq, Json.norm, Json.normFields]

theorem algOf_jwtHeader : algOf jwtHeader = .ok (bytes "HS256") := by
  rw [jwtHeader_eq]
  rfl

theorem payloadUserId_jwtPayload (issuedAt ttl userId : UInt64) (username : Bytes) :
    payloadUserId (jwtPayload issuedAt ttl userId username) = some userId := by
  have hsub : (jwtPayload issuedAt ttl userId username).get? (bytes "sub") =
      some (.str (decimal userId.toNat)) := by
    rw [jwtPayload_eq]
    rfl
  rw [payloadUserId, hsub]
  exact stoull_decimal userId

section Issued

variable [FloatFormat]

theorem wf_jwtHeader : jwtHeader.WF := Json.wf_mkObj (by simp [Json.WF])

theorem wf_jwtPayload (issuedAt ttl userId : UInt64) (username : Bytes) :
    (jwtPayload issuedAt ttl userId username).WF := Json.wf_mkObj (by simp [Json.WF])

theorem unexpired_jwtPayload (now issuedAt ttl userId : UInt64) (username : Bytes) :
    unexpired now (jwtPayload issuedAt ttl userId username) = .ok (¬ issuedAt + ttl < now) := by
  rw [jwtPayload_eq]
  rfl

variable [Primitives]

omit [FloatFormat] in
/-- What `createSession_` returns. -/
theorem createSession_ok {secret : Bytes} {ttl issuedAt userId : UInt64} {username tok : Bytes}
    (h : createSession_ secret ttl issuedAt userId username = .ok tok) :
    ∃ header payload, jwtHeader.dump = some header ∧
      (jwtPayload issuedAt ttl userId username).dump = some payload ∧
      tok = signingInput header payload ++ dot :: signJwtInput (signingInput header payload) secret
      := by
  unfold createSession_ at h
  split at h
  · rename_i header payload hh hp
    exact ⟨header, payload, hh, hp, (Except.ok.inj h).symm⟩
  · cases h

/-- An issued token is signed, and carries its payload. -/
theorem signedPayload_createSession {secret : Bytes} {ttl issuedAt userId : UInt64}
    {username tok : Bytes} (h : createSession_ secret ttl issuedAt userId username = .ok tok) :
    signedPayload tok secret = .ok (some (jwtPayload issuedAt ttl userId username)) := by
  obtain ⟨header, payload, hh, hp, rfl⟩ := createSession_ok h
  have hsplit : splitToken (signingInput header payload ++
      dot :: signJwtInput (signingInput header payload) secret) =
        some (Base64.urlEncode header, Base64.urlEncode payload,
          signJwtInput (signingInput header payload) secret) :=
    splitToken_append (Base64.urlEncode_no_dot _) (Base64.urlEncode_no_dot _)
      (Base64.urlEncode_no_dot _)
  have hheader := Json.parse_dump hh wf_jwtHeader
  have hpayload := Json.parse_dump hp (wf_jwtPayload issuedAt ttl userId username)
  rw [norm_jwtHeader] at hheader
  rw [norm_jwtPayload] at hpayload
  unfold signedPayload
  rw [hsplit]
  simp only [signingInput, if_true, Base64.urlDecode_urlEncode, hheader, hpayload, algOf_jwtHeader]
  rfl

/-- **An issued token verifies until it expires**, and gives back its payload. -/
theorem verifiedJwtPayload_createSession {secret : Bytes} {ttl issuedAt userId : UInt64}
    {username tok : Bytes} (h : createSession_ secret ttl issuedAt userId username = .ok tok)
    (now : UInt64) :
    verifiedJwtPayload now tok secret =
      .ok (if issuedAt + ttl < now then none
        else some (jwtPayload issuedAt ttl userId username)) := by
  unfold verifiedJwtPayload
  rw [signedPayload_createSession h]
  simp only [bind, Except.bind, unexpired_jwtPayload]
  by_cases hexp : issuedAt + ttl < now <;> simp [hexp] <;> rfl

/-- What a verified token carries does not depend on the time. -/
theorem signedPayload_of_verified {now : UInt64} {tok secret : Bytes} {payload : Json UInt8}
    (h : verifiedJwtPayload now tok secret = .ok (some payload)) :
    signedPayload tok secret = .ok (some payload) := by
  unfold verifiedJwtPayload at h
  cases hs : signedPayload tok secret with
  | error e => rw [hs] at h; cases h
  | ok r =>
      rw [hs] at h
      cases r with
      | none => cases h
      | some p =>
          simp only [bind, Except.bind] at h
          cases hexp : unexpired now p with
          | error e => rw [hexp] at h; cases h
          | ok b =>
              rw [hexp] at h
              cases b with
              | false => cases h
              | true =>
                  cases h
                  rfl

/-! ## Exact acceptance -/

/-- One call of `createSession_`. -/
structure SessionCall where
  issuedAt : UInt64
  userId : UInt64
  username : Bytes

omit [FloatFormat] in
/-- The token a call returned, when it returned one. -/
def SessionCall.Returned (secret : Bytes) (ttl : UInt64) (c : SessionCall) (tok : Bytes) : Prop :=
  createSession_ secret ttl c.issuedAt c.userId c.username = .ok tok

/-- The signing inputs the calls of a run signed. -/
def SignedIn (ttl : UInt64) (run : List SessionCall) (input : Bytes) : Prop :=
  ∃ c ∈ run, ∃ header payload, jwtHeader.dump = some header ∧
    (jwtPayload c.issuedAt ttl c.userId c.username).dump = some payload ∧
    input = signingInput header payload

/-- The string forges no signature: where it carries the signature of an input,
the run signed that input. -/
def Unforged (secret : Bytes) (ttl : UInt64) (run : List SessionCall) (tok : Bytes) : Prop :=
  ∀ input, tok = input ++ dot :: signJwtInput input secret → SignedIn ttl run input

omit [FloatFormat] in
/-- A username in UTF-8 always gets a token. -/
theorem createSession_utf8 {username : Bytes} (h : validUtf8 username = true) (secret : Bytes)
    (ttl issuedAt userId : UInt64) :
    ∃ tok, createSession_ secret ttl issuedAt userId username = .ok tok := by
  have hdigits : validUtf8 (decimal userId.toNat) = true := by
    simpa using validUtf8_ascii (α := UInt8) (decimal_ascii userId.toNat)
  have hheader : ∃ t, jwtHeader.dump = some t :=
    Json.exists_dump (Json.printable_mkObj (by simp [Json.Printable, validUtf8_bytes]))
  have hpayload : ∃ t, (jwtPayload issuedAt ttl userId username).dump = some t :=
    Json.exists_dump (Json.printable_mkObj (by simp [Json.Printable, h, hdigits]))
  obtain ⟨t, ht⟩ := hheader
  obtain ⟨u, hu⟩ := hpayload
  exact ⟨_, by rw [createSession_, ht, hu]⟩

/-- A token whose signature is right is one the run issued. -/
theorem issued_of_verified {secret tok : Bytes} {ttl now : UInt64} {run : List SessionCall}
    (hun : Unforged secret ttl run tok) {payload : Json UInt8}
    (h : verifiedJwtPayload now tok secret = .ok (some payload)) :
    ∃ c ∈ run, c.Returned secret ttl tok := by
  have h := signedPayload_of_verified h
  unfold signedPayload at h
  split at h
  · cases h
  · rename_i header body signature hsplit
    split_ifs at h with hsig
    · have htok := eq_of_splitToken hsplit
      rw [hsig] at htok
      obtain ⟨c, hc, hd, pd, hh, hp, hinput⟩ := hun _ htok
      refine ⟨c, hc, ?_⟩
      rw [SessionCall.Returned, createSession_, hh, hp, htok, hinput]
    · cases h

omit [FloatFormat] in
/-- A text ends with only one signature. -/
theorem signed_inj {secret a b : Bytes}
    (h : a ++ dot :: signJwtInput a secret = b ++ dot :: signJwtInput b secret) : a = b := by
  have hnodot : ∀ i : Bytes, dot ∉ (signJwtInput i secret).reverse := fun i hd =>
    Base64.urlEncode_no_dot _ (List.mem_reverse.mp hd)
  have hrev : ∀ i : Bytes, splitDot (i ++ dot :: signJwtInput i secret).reverse =
      some ((signJwtInput i secret).reverse, i.reverse) := by
    intro i
    rw [List.reverse_append, List.reverse_cons, List.append_assoc]
    exact splitDot_append (hnodot i) i.reverse
  have := hrev a
  rw [h, hrev b] at this
  exact List.reverse_injective (congrArg Prod.snd (Option.some.inj this)).symm

omit [FloatFormat] in
/-- An issued token forges nothing. -/
theorem unforged_of_returned {secret tok : Bytes} {ttl : UInt64} {run : List SessionCall}
    {c : SessionCall} (hc : c ∈ run) (h : c.Returned secret ttl tok) :
    Unforged secret ttl run tok := by
  obtain ⟨header, payload, hh, hp, htok⟩ := createSession_ok h
  intro input hinput
  exact ⟨c, hc, header, payload, hh, hp, signed_inj (hinput.symm.trans htok)⟩

/-- **Nothing but an issued token is accepted, and it is accepted exactly until
it expires.**  It then names the user its `createSession_` call was given. -/
theorem accepts_iff_issued {secret : Bytes} {ttl : UInt64} {run : List SessionCall}
    (hname : ∀ c ∈ run, validUtf8 c.username = true)
    (hiat : ∀ c ∈ run, c.issuedAt.toNat + ttl.toNat < 2 ^ 64) :
    (∀ c ∈ run, ∃ tok, c.Returned secret ttl tok) ∧
    ∀ (tok : Bytes) (now : UInt64), Unforged secret ttl run tok →
      ((∃ payload, verifiedJwtPayload now tok secret = .ok (some payload)) ↔
        ∃ c ∈ run, c.Returned secret ttl tok ∧ now.toNat ≤ c.issuedAt.toNat + ttl.toNat) ∧
      ∀ c ∈ run, c.Returned secret ttl tok → now.toNat ≤ c.issuedAt.toNat + ttl.toNat →
        ∀ req, bearerToken req = some tok →
          authenticatedUserId_ secret now req = .ok (some c.userId) := by
  refine ⟨fun c hc => createSession_utf8 (hname c hc) _ _ _ _, fun tok now hun => ?_⟩
  have hexp : ∀ c ∈ run, c.issuedAt + ttl < now ↔ ¬ now.toNat ≤ c.issuedAt.toNat + ttl.toNat := by
    intro c hc
    rw [UInt64.lt_iff_toNat_lt, UInt64.toNat_add, Nat.mod_eq_of_lt (hiat c hc)]
    omega
  refine ⟨⟨?_, ?_⟩, ?_⟩
  · rintro ⟨payload, h⟩
    obtain ⟨c, hc, hret⟩ := issued_of_verified hun h
    refine ⟨c, hc, hret, ?_⟩
    rw [verifiedJwtPayload_createSession hret now] at h
    by_contra hlate
    rw [if_pos ((hexp c hc).mpr hlate)] at h
    cases h
  · rintro ⟨c, hc, hret, hle⟩
    have hnot : ¬ c.issuedAt + ttl < now := fun h => (hexp c hc).mp h hle
    exact ⟨_, by rw [verifiedJwtPayload_createSession hret now, if_neg hnot]⟩
  · intro c hc hret hle req hreq
    have hnot : ¬ c.issuedAt + ttl < now := fun h => (hexp c hc).mp h hle
    rw [authenticatedUserId_, hreq]
    simp only [verifiedJwtPayload_createSession hret now, if_neg hnot]
    exact congrArg Except.ok (payloadUserId_jwtPayload _ _ _ _)

end Issued

/-! ## One issued token -/

/-- A signing secret of the shortest length the server starts with. -/
def exampleSecret : Bytes := bytes "0123456789abcdef" ++ bytes "0123456789abcdef"

/-- What is signed when a user logs in at second 1000 with a time to live of an
hour. -/
def exampleInput (userId : UInt64) (username : Bytes) : Bytes :=
  signingInput (jwtHeader.dump.getD []) ((jwtPayload 1000 3600 userId username).dump.getD [])

/-- The digests of these inputs under `exampleSecret`, for three users. -/
def exampleDigests : List (UInt64 × Bytes × Bytes) :=
  [(1, bytes "alice",
      [66, 121, 127, 0, 149, 8, 35, 61, 162, 16, 104, 208, 213, 199, 201, 65, 119, 44, 237, 221,
        125, 133, 119, 22, 37, 192, 124, 155, 110, 136, 234, 38]),
    (2, bytes "bob",
      [233, 117, 37, 88, 229, 136, 183, 161, 232, 179, 192, 255, 106, 133, 225, 40, 45, 22, 54, 46,
        56, 161, 136, 138, 142, 72, 99, 171, 8, 81, 156, 242]),
    (3, bytes "carol",
      [192, 118, 204, 101, 128, 157, 133, 41, 67, 187, 113, 43, 5, 159, 23, 215, 200, 192, 107, 38,
        210, 50, 43, 98, 47, 11, 119, 205, 192, 124, 64, 190])]

/-- Primitives that know these digests. -/
@[reducible] def examplePrimitives : Primitives where
  hmacSha256 key input :=
    if key = exampleSecret then
      ((exampleDigests.find? fun d => exampleInput d.1 d.2.1 = input).map (·.2.2)).getD []
    else []
  pwhashVerify _ _ := false

/-- User 1 logs in at second 1000 with a time to live of an hour. -/
def exampleCall : SessionCall := ⟨1000, 1, bytes "alice"⟩

/-- The token of `exampleCall` is accepted at second 4600 and no longer at 4601. -/
theorem accepts_iff_issued_example :
    ∃ tok, @SessionCall.Returned examplePrimitives exampleSecret 3600 exampleCall tok ∧
      (∃ payload, @verifiedJwtPayload examplePrimitives plainFloats 4600 tok exampleSecret =
        .ok (some payload)) ∧
      ¬ ∃ payload, @verifiedJwtPayload examplePrimitives plainFloats 4601 tok exampleSecret =
        .ok (some payload) := by
  let _ := examplePrimitives
  let _ := plainFloats
  have hname : ∀ c ∈ [exampleCall], validUtf8 c.username = true := by
    simp [exampleCall, validUtf8_bytes]
  have hiat : ∀ c ∈ [exampleCall], c.issuedAt.toNat + UInt64.toNat 3600 < 2 ^ 64 := by
    simp [exampleCall]
  have h := @accepts_iff_issued _ _ exampleSecret 3600 [exampleCall] hname hiat
  obtain ⟨tok, htok⟩ := h.1 exampleCall (by simp)
  have hun : Unforged exampleSecret 3600 [exampleCall] tok :=
    unforged_of_returned (c := exampleCall) (by simp) htok
  refine ⟨tok, htok, (h.2 tok 4600 hun).1.mpr ⟨exampleCall, by simp, htok, by decide⟩,
    fun hacc => ?_⟩
  obtain ⟨c, hc, -, hle⟩ := (h.2 tok 4601 hun).1.mp hacc
  rw [List.mem_singleton.mp hc] at hle
  exact absurd hle (by decide)

end Kds
