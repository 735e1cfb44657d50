import Kingdom.Client.KeyFile
import Kingdom.Client.Pins

/-!
# Signing up

A signup commits twice: the client writes the key file, and the server adds the
user.  Between the two is one request, which may be lost on its way there or back.

* `signup` — the function of the client.
* `Exchange` — what becomes of its request: whether the server creates the user, and
  what reaches the client.
* `SignupEnd`, `ensures_signup` — every way a signup can end, with what it leaves in
  the file and in the table.
* `KeepsKeys` — a registered user has the keys, and a refused one no key file.
* `signup_keeps_keys` — exactly when a signup does that.
-/

namespace Kd

open Codec Process Storage Prog

variable {α : Type} [Alphabet α]

/-! ## The client -/

/-- Take the session token of a response, where there is one. -/
def storeToken (client : Client α) (response : Json α) : Except Exn (Client α) :=
  match response.get? (bytes "token") with
  | some token => do return { client with authToken := ← getString token }
  | none =>
      match response.get? (bytes "sessionToken") with
      | some token => do return { client with authToken := ← getString token }
      | none => .ok client

/-- The response of a signup that succeeded, with the path of the key file. -/
def acceptSignup [FloatFormat] (client : Client α) (keyFilePath : Bytes) (text : List α) :
    Client α × Except Exn (Json α) :=
  match Json.parse text with
  | none => (client, .error .jsonError)
  | some response =>
      match storeToken client response with
      | .error e => (client, .error e)
      | .ok client => (client, do
          return (← asObject response).set (bytes "localKeyFile") (.str (ofBytes keyFilePath)))

/-- The request body of a signup. -/
def signupBody (username password publicKeyBundle : List α) : Json α :=
  .mkObj [("username", .str username), ("password", .str password),
    ("publicKey", .str publicKeyBundle)]

/-- `Client::signup`.  The client changes with the token, also when an exception follows. -/
def signup [Crypto α] [FloatFormat] (client : Client α) (home : Bytes)
    (username password : List α) : Action α (Client α × Except Exn (Json α)) := do
  match ← Prog.attempt (createForSignup home username password) with
  | .error e => return (client, .error e)
  | .ok keyMaterial =>
      match (signupBody username password keyMaterial.publicKeyBundle).dump with
      | none => return (client, .error .jsonError)
      | some body =>
          match ← perform (.http ⟨bytes "POST", bytes "/signup", [], body⟩) with
          | some res =>
              if res.status = 200 ∨ res.status = 201 then
                return acceptSignup client keyMaterial.keyFilePath res.body
              else do
                let _ ← perform (.file (.remove keyMaterial.keyFilePath))
                return (client, .error (statusError res))
          | none => do
              let _ ← perform (.file (.remove keyMaterial.keyFilePath))
              return (client, .error (connectError client))

/-! ## The exchange -/

/-- What becomes of a signup request: whether the server creates the user, and the
response that reaches the client, if any. -/
structure Exchange (α : Type) where
  created : Bool
  response : Option (HttpResponse α)

variable [FloatFormat]

/-- The public key a signup request carries. -/
def postedKey (body : List α) : Option (List α) := do
  let body ← Json.parse body
  (← body.get? (bytes "publicKey")).str?

/-- The exchange, on the public keys of the users table. -/
def Exchange.net (x : Exchange α) (req : HttpRequest α) (users : List (List α))
    (r : Option (HttpResponse α)) (users' : List (List α)) : Prop :=
  r = x.response ∧
    users' = users ++ if x.created then (postedKey req.body).toList else []

/-- A response body `signup` returns. -/
structure Accepted (text : List α) : Prop where
  exists_response : ∃ response : Json α, Json.parse text = some response ∧
    (response.isObject = true ∨ response.isNull = true) ∧
    ∀ token, (response.get? (bytes "token")).or (response.get? (bytes "sessionToken")) = some token →
      ∃ s, token = .str s

/-- The status of a response to a signup that succeeded. -/
def HttpResponse.Success (res : HttpResponse α) : Prop := res.status = 200 ∨ res.status = 201

/-- The response tells the client what the server did: a user that was created is
reported, and a success that is reported for no user can at least be read. -/
structure Exchange.Tells (x : Exchange α) : Prop where
  created : x.created = true → ∃ res ∈ x.response, res.Success
  notCreated : x.created = false → ∀ res ∈ x.response, res.Success → Accepted res.body

/-- A signup throws. -/
def Throws (x : Except Exn (Client α × Except Exn (Json α))) : Prop :=
  ∀ client response, x ≠ .ok (client, .ok response)

omit [FloatFormat] [Alphabet α] in
theorem storeToken_ok {client : Client α} {response : Json α} :
    (∃ client', storeToken client response = .ok client') ↔
      ∀ token, (response.get? (bytes "token")).or (response.get? (bytes "sessionToken")) =
        some token → ∃ s, token = .str s := by
  have hstr : ∀ token : Json α,
      (∃ client', (do return { client with authToken := ← getString token } : Except Exn (Client α)) =
        .ok client') ↔ ∃ s, token = .str s := by
    intro token
    cases token <;> simp [getString, Json.str?, orJsonError]
  rw [storeToken]
  cases response.get? (bytes "token") with
  | some token => simpa using hstr token
  | none =>
      cases response.get? (bytes "sessionToken") with
      | some token => simpa using hstr token
      | none => simp

/-- The responses that are returned. -/
theorem acceptSignup_ok {client : Client α} {keyFilePath : Bytes} {text : List α} :
    Throws (.ok (acceptSignup client keyFilePath text)) ↔ ¬ Accepted text := by
  have hthrows : ∀ y : Client α × Except Exn (Json α),
      Throws (.ok y) ↔ ¬ ∃ response, y.2 = .ok response := by
    rintro ⟨client', y⟩
    constructor
    · rintro h ⟨response, hy⟩
      exact h client' response (by rw [show y = .ok response from hy])
    · intro h client'' response hy
      cases hy
      exact h ⟨response, rfl⟩
  rw [hthrows, not_iff_not, acceptSignup]
  cases hparse : (Json.parse text : Option (Json α)) with
  | none =>
      constructor
      · rintro ⟨_, h⟩
        cases h
      · rintro ⟨_, h, -⟩
        rw [hparse] at h
        cases h
  | some response =>
      have hobj : (∃ j, asObject response = .ok j) ↔
          response.isObject = true ∨ response.isNull = true := by
        cases response <;> simp [asObject, Json.isObject, Json.isNull]
      have haccepted : Accepted text ↔ (response.isObject = true ∨ response.isNull = true) ∧
          ∃ client', storeToken client response = .ok client' := by
        rw [storeToken_ok]
        constructor
        · rintro ⟨_, h, hrest⟩
          rw [hparse] at h
          cases h
          exact hrest
        · intro h
          exact ⟨response, hparse, h⟩
      rw [haccepted, ← hobj]
      simp only
      cases hstore : storeToken client response with
      | error e => simp
      | ok client' =>
          cases hj : asObject response with
          | error e => simp
          | ok j => simp

/-! ## How a signup ends -/

section Ends

variable [Crypto α] {mayFail : FileOp Bytes α → Prop} {home : Bytes} {username password : List α}
  {w : World α (List (List α))}

/-- The key file holds the private keys of a bundle. -/
def HoldsKeysOf (home : Bytes) (username password key : List α) (fs : Files Bytes α) : Prop :=
  ∃ identity file bundle, IsKeyFile username password identity file ∧
    publicBundle identity = .ok bundle ∧ bundle.dump = some key ∧
    HoldsAll (keyFile home username) file [] fs

/-- There is a place for a key file, and none is there. -/
def NoKeyFile (home : Bytes) (username : List α) (fs : Files Bytes α) : Prop :=
  home ≠ [] ∧ fs (keyFile home username) = none

/-- The ways a signup can end when no file operation fails. -/
inductive SignupEnd (home : Bytes) (username password : List α) (x : Exchange α)
    (w : World α (List (List α))) :
    Except Exn (Client α × Except Exn (Json α)) → World α (List (List α)) → Prop where
  /-- It throws before it has written anything. -/
  | refused {r} (hthrows : Throws r)
      (hrefused : SignupRefused (fun _ => False) home username password w.files) :
      SignupEnd home username password x w r w
  /-- It throws at a string that is no text, and leaves a file. -/
  | noText {r text} (hthrows : Throws r) (hnone : NoKeyFile home username w.files)
      (hinvalid : ¬ (validUtf8 username = true ∧ validUtf8 password = true)) :
      SignupEnd home username password x w r
        { w with files := Function.update w.files (keyFile home username) (some text) }
  /-- The server reports success. -/
  | kept {client key res fs} (hnone : NoKeyFile home username w.files)
      (hvalid : validUtf8 username = true ∧ validUtf8 password = true)
      (hres : x.response = some res) (hsuccess : res.Success)
      (hfs : HoldsKeysOf home username password key fs) (hchanged : fs ≠ w.files) :
      SignupEnd home username password x w
        (.ok (acceptSignup client (keyFile home username) res.body))
        ⟨fs, w.server ++ if x.created then [key] else []⟩
  /-- It does not, and the key file is removed. -/
  | removed {r key} (hthrows : Throws r) (hnone : NoKeyFile home username w.files)
      (hvalid : validUtf8 username = true ∧ validUtf8 password = true)
      (hres : ∀ res ∈ x.response, ¬ res.Success) :
      SignupEnd home username password x w r
        ⟨w.files, w.server ++ if x.created then [key] else []⟩

omit [Crypto α] in
theorem parse_signupBody {key body : List α}
    (h : (signupBody username password key).dump = some body) :
    ∃ j, Json.parse body = some j ∧
      j.get? (bytes "username") = some (.str username) ∧
      j.get? (bytes "password") = some (.str password) ∧
      j.get? (bytes "publicKey") = some (.str key) := by
  have hwf : (signupBody username password key).WF := Json.wf_mkObj (by simp [Json.WF])
  refine ⟨_, Json.parse_dump h hwf, ?_, ?_, ?_⟩
  all_goals simp +decide [signupBody, Json.get?_norm, Json.get?_mkObj, Json.lookup, Json.norm]

omit [Crypto α] in
/-- The body of a signup has a text when its strings have. -/
theorem signupBody_dump {key : List α} (hkey : validUtf8 key = true) :
    (∃ body, (signupBody username password key).dump = some body) ↔
      validUtf8 username = true ∧ validUtf8 password = true := by
  constructor
  · rintro ⟨body, hbody⟩
    obtain ⟨j, hparse, husername, hpassword, -⟩ := parse_signupBody hbody
    have hprint := Json.printable_of_parse hparse
    exact ⟨Json.printable_get? hprint husername, Json.printable_get? hprint hpassword⟩
  · rintro ⟨husername, hpassword⟩
    refine Json.exists_dump (Json.printable_mkObj ?_)
    simp [Json.Printable, husername, hpassword, hkey]

omit [Crypto α] in
theorem postedKey_signupBody {key body : List α}
    (h : (signupBody username password key).dump = some body) : postedKey body = some key := by
  obtain ⟨j, hparse, -, -, hkey⟩ := parse_signupBody h
  rw [postedKey, hparse]
  change (j.get? (bytes "publicKey")).bind Json.str? = some key
  rw [hkey]
  rfl

/-- **Every way a signup can end.** -/
theorem ensures_signup [LawfulBase64 α] (client : Client α) (x : Exchange α) :
    (signup client home username password).Ensures (exec (fun _ => False) x.net) (fun _ => True) w
      (SignupEnd home username password x w) := by
  rw [signup, ensures_bind, ensures_attempt]
  by_cases hhome : home = []
  · subst hhome
    rw [createForSignup, ensures_bind, ensures_ofExcept]
    exact ⟨trivial, trivial, .refused (fun _ _ h => by cases h) (.inl rfl)⟩
  refine ensures_createForSignup trivial (fun _ _ _ _ _ _ => trivial) ?_ ?_ ?_ ?_
  · intro e hrefused
    exact ⟨trivial, .refused (fun _ _ h => by cases h) hrefused⟩
  · intro hnone hinvalid e
    refine ⟨trivial, .noText (fun _ _ h => by cases h) ⟨hhome, hnone⟩ fun h => ?_⟩
    rw [hinvalid] at h
    cases h.1
  · intro hnone identity file text bundle key hkey htext hbundle hdump
    have hholds : HoldsKeysOf home username password key
        (Function.update w.files (keyFile home username) (some text)) :=
      ⟨identity, file, bundle, hkey, hbundle, hdump,
        .of_text hkey (hkey.recorded_nil.symm ▸ htext) (Function.update_self ..)⟩
    have hchanged : Function.update w.files (keyFile home username) (some text) ≠ w.files := by
      intro h
      have := congrFun h (keyFile home username)
      rw [Function.update_self, hnone] at this
      cases this
    have hremove : Function.update (Function.update w.files (keyFile home username) (some text))
        (keyFile home username) none = w.files := by
      rw [Function.update_idem, ← hnone, Function.update_eq_self]
    have hvalid := @signupBody_dump _ _ _ username password _
      (Json.validUtf8_dumpWith hdump (wf_publicBundle hbundle))
    simp only
    cases hbody : (signupBody username password key).dump with
    | none =>
        refine ⟨trivial, .noText (fun _ _ h => by cases h) ⟨hhome, hnone⟩ fun h => ?_⟩
        obtain ⟨body, h'⟩ := hvalid.mpr h
        rw [hbody] at h'
        cases h'
    | some body =>
        have hvalid := hvalid.mp ⟨body, hbody⟩
        simp only
        rw [ensures_bind, ensures_http]
        refine ⟨trivial, fun r users hnet => ⟨trivial, ?_⟩⟩
        obtain ⟨rfl, rfl⟩ := hnet
        simp only [postedKey_signupBody hbody, Option.toList_some]
        cases hres : x.response with
        | none =>
            simp only
            rw [ensures_bind, ensures_file]
            refine ⟨trivial, fun r fs hexec => ⟨trivial, trivial, ?_⟩⟩
            obtain ⟨-, rfl⟩ := FileOp.exec_reliable (fun h => h) hexec
            simp only [FileOp.effect, hremove]
            exact .removed (fun _ _ h => by cases h) ⟨hhome, hnone⟩ hvalid (by simp [hres])
        | some res =>
            simp only
            by_cases hsuccess : res.status = 200 ∨ res.status = 201
            · rw [if_pos hsuccess]
              exact ⟨trivial, .kept ⟨hhome, hnone⟩ hvalid hres hsuccess hholds hchanged⟩
            · rw [if_neg hsuccess, ensures_bind, ensures_file]
              refine ⟨trivial, fun r fs hexec => ⟨trivial, trivial, ?_⟩⟩
              obtain ⟨-, rfl⟩ := FileOp.exec_reliable (fun h => h) hexec
              simp only [FileOp.effect, hremove]
              refine .removed (fun _ _ h => by cases h) ⟨hhome, hnone⟩ hvalid ?_
              rw [hres]
              rintro _ ⟨⟩
              exact hsuccess
  · rintro ⟨o, ho⟩
    exact ho.elim

/-! ## A registered user has the keys -/

/-- The row a signup adds to the table has its private keys in the key file, and a signup
that throws without adding one leaves the files as they were. -/
structure KeepsKeys (home : Bytes) (username password : List α) (w : World α (List (List α)))
    (r : Except Exn (Client α × Except Exn (Json α))) (w' : World α (List (List α))) : Prop where
  registered : ∀ key, w'.server = w.server ++ [key] →
    HoldsKeysOf home username password key w'.files
  refused : Throws r → w'.server = w.server → w'.files = w.files

/-- The strings of a signup are texts, and the response tells what the server did. -/
structure SignupTells (username password : List α) (x : Exchange α) : Prop where
  username : validUtf8 username = true
  password : validUtf8 password = true
  tells : x.Tells

variable {x : Exchange α} {r : Except Exn (Client α × Except Exn (Json α))}
  {w' : World α (List (List α))}

theorem SignupEnd.keepsKeys (h : SignupEnd home username password x w r w')
    (htells : NoKeyFile home username w.files → SignupTells username password x) :
    KeepsKeys home username password w r w' := by
  cases h with
  | refused hthrows hrefused =>
      refine ⟨fun key hkey => ?_, fun _ _ => rfl⟩
      have := congrArg List.length hkey
      simp at this
  | noText hthrows hnone hinvalid =>
      exact absurd ⟨(htells hnone).username, (htells hnone).password⟩ hinvalid
  | kept hnone hvalid hres hsuccess hfs hchanged =>
      refine ⟨fun key hkey => ?_, fun hthrows hsame => ?_⟩
      · cases hcreated : x.created with
        | false => simp [hcreated] at hkey
        | true =>
            simp only [hcreated, if_true, List.append_cancel_left_eq, List.cons.injEq,
              and_true] at hkey
            exact hkey ▸ hfs
      · cases hcreated : x.created with
        | false =>
            exact absurd ((htells hnone).tells.notCreated hcreated _ hres hsuccess)
              (acceptSignup_ok.mp hthrows)
        | true => simp [hcreated] at hsame
  | removed hthrows hnone hvalid hres =>
      refine ⟨fun key hkey => ?_, fun _ _ => rfl⟩
      cases hcreated : x.created with
      | false => simp [hcreated] at hkey
      | true =>
          obtain ⟨res, hmem, hsuccess⟩ := (htells hnone).tells.created hcreated
          exact absurd hsuccess (hres res hmem)

theorem SignupEnd.tells (h : SignupEnd home username password x w r w')
    (hkdf : ∀ salt, ∃ key, keyEncryptionKey password salt kKdfOpsLimit kKdfMemLimit = .ok key)
    (hkeeps : KeepsKeys home username password w r w') (hnone : NoKeyFile home username w.files) :
    SignupTells username password x := by
  cases h with
  | refused hthrows hrefused =>
      exfalso
      rcases hrefused with hhome | hsome | ⟨o, ho⟩ | ⟨salt, e, herr⟩
      · exact hnone.1 hhome
      · rw [hnone.2] at hsome
        cases hsome
      · exact ho
      · obtain ⟨key, hkey⟩ := hkdf salt
        rw [hkey] at herr
        cases herr
  | noText hthrows _ hinvalid =>
      have hsame := congrFun (hkeeps.refused hthrows rfl) (keyFile home username)
      rw [hnone.2] at hsame
      simp at hsame
  | kept _ hvalid hres hsuccess hfs hchanged =>
      refine ⟨hvalid.1, hvalid.2, fun _ => ⟨_, hres, hsuccess⟩, fun hcreated res hmem _ => ?_⟩
      cases hres.symm.trans hmem
      by_contra hrejected
      exact hchanged (hkeeps.refused (acceptSignup_ok.mpr hrejected) (by simp [hcreated]))
  | removed hthrows _ hvalid hres =>
      refine ⟨hvalid.1, hvalid.2, fun hcreated => ?_, fun _ res hmem hsuccess =>
        absurd hsuccess (hres res hmem)⟩
      obtain ⟨_, _, _, _, _, _, text, _, htext, -⟩ := hkeeps.registered _ (by rw [hcreated]; rfl)
      rw [hnone.2] at htext
      cases htext

/-- **A registered account has its keys exactly when the response tells the client what
the server did**: whatever the server does with the request and whatever reaches the
client. -/
theorem signup_keeps_keys [LawfulBase64 α] {client : Client α} {fs : Files Bytes α}
    {users : List (List α)}
    (hrun : (signup client home username password).Runs (exec (fun _ => False) x.net) ⟨fs, users⟩
      (some r) w') :
    ((NoKeyFile home username fs → SignupTells username password x) →
      KeepsKeys home username password ⟨fs, users⟩ r w') ∧
    ((∀ salt, ∃ key, keyEncryptionKey password salt kKdfOpsLimit kKdfMemLimit = .ok key) →
      KeepsKeys home username password ⟨fs, users⟩ r w' →
      NoKeyFile home username fs → SignupTells username password x) := by
  have hend := (ensures_signup client x).of_runs hrun
  constructor
  · intro htells
    exact hend.keepsKeys htells
  · intro hkdf hkeeps hnone
    exact hend.tells hkdf hkeeps hnone

/-- A new user whose strings are texts reaches the server. -/
theorem exists_signup_runs [LawfulBase64 α] (client : Client α) (x : Exchange α)
    (hnone : NoKeyFile home username w.files)
    (hvalid : validUtf8 username = true ∧ validUtf8 password = true)
    (hkdf : ∀ salt, ∃ key, keyEncryptionKey password salt kKdfOpsLimit kKdfMemLimit = .ok key) :
    ∃ key r w', (signup client home username password).Runs (exec (fun _ => False) x.net) w
        (some r) w' ∧ w'.server = w.server ++ (if x.created then [key] else []) ∧
      ((∃ res ∈ x.response, res.Success) ∨ Throws r ∧ w'.files = w.files) := by
  have htotal : ∀ (o : Op α) (w : World α (List (List α))),
      ∃ r w', exec (fun _ => False) x.net o w r w' := by
    intro o w
    exact ⟨_, _, @exec_answer _ _ _ _ _ (fun req users => (x.response,
      users ++ if x.created then (postedKey req.body).toList else [])) (fun _ _ => ⟨rfl, rfl⟩) o w⟩
  obtain ⟨r, w', hrun⟩ := Prog.exists_runs htotal (signup client home username password) w
  have hend := (ensures_signup client x).of_runs hrun
  cases hend with
  | refused hthrows hrefused =>
      rcases hrefused with hhome | hsome | ⟨o, ho⟩ | ⟨salt, e, herr⟩
      · exact absurd hhome hnone.1
      · rw [hnone.2] at hsome
        cases hsome
      · exact ho.elim
      · obtain ⟨key, hkey⟩ := hkdf salt
        rw [hkey] at herr
        cases herr
  | noText _ _ hinvalid => exact absurd hvalid hinvalid
  | kept _ _ hres hsuccess => exact ⟨_, _, _, hrun, rfl, .inl ⟨_, hres, hsuccess⟩⟩
  | removed hthrows => exact ⟨_, _, _, hrun, rfl, .inr ⟨hthrows, rfl⟩⟩

end Ends

omit [FloatFormat] in
/-- The server creates the user and says so. -/
theorem signup_keeps_keys_example : letI := plainFloats; letI := plainCrypto;
    ∃ key r w',
      (signup (⟨[], [], []⟩ : Client UInt8) (bytes "/home/a") (bytes "a") (bytes "Password1234")).Runs
        (exec (fun _ => False) (Exchange.net ⟨true, some ⟨201, bytes "null"⟩⟩)) ⟨fun _ => none, []⟩
        (some r) w' ∧ w'.server = [key] ∧
      HoldsKeysOf (bytes "/home/a") (bytes "a") (bytes "Password1234") key w'.files := by
  let := plainFloats
  let := plainCrypto
  have := lawfulBase64_plain
  have hnone : NoKeyFile (bytes "/home/a") (bytes "a") (fun _ => none : Files Bytes UInt8) :=
    ⟨by decide, rfl⟩
  obtain ⟨key, r, w', hrun, hserver, -⟩ := exists_signup_runs
    (w := (⟨fun _ => none, []⟩ : World UInt8 (List (List UInt8)))) ⟨[], [], []⟩
    ⟨true, some ⟨201, bytes "null"⟩⟩ hnone ⟨by decide, by decide⟩ (fun _ => ⟨_, rfl⟩ :
      ∀ salt, ∃ key, keyEncryptionKey (bytes "Password1234" : List UInt8) salt _ _ = .ok key)
  have htells : SignupTells (bytes "a") (bytes "Password1234")
      (⟨true, some ⟨201, bytes "null"⟩⟩ : Exchange UInt8) :=
    ⟨by decide, by decide, fun _ => ⟨_, rfl, .inr rfl⟩, fun h => by cases h⟩
  exact ⟨key, r, w', hrun, hserver, ((signup_keeps_keys hrun).1 fun _ => htells).registered key hserver⟩

omit [FloatFormat] in
/-- The server creates the user, and its response is lost. -/
theorem signup_loses_keys : letI := plainFloats; letI := plainCrypto;
    ∃ key r w',
      (signup (⟨[], [], []⟩ : Client UInt8) (bytes "/home/a") (bytes "a") (bytes "Password1234")).Runs
        (exec (fun _ => False) (Exchange.net ⟨true, none⟩)) ⟨fun _ => none, []⟩ (some r) w' ∧
      w'.server = [key] ∧ w'.files (keyFile (bytes "/home/a") (bytes "a")) = none ∧
      ¬ KeepsKeys (bytes "/home/a") (bytes "a") (bytes "Password1234") ⟨fun _ => none, []⟩ r w' := by
  let := plainFloats
  let := plainCrypto
  have := lawfulBase64_plain
  have hnone : NoKeyFile (bytes "/home/a") (bytes "a") (fun _ => none : Files Bytes UInt8) :=
    ⟨by decide, rfl⟩
  obtain ⟨key, r, w', hrun, hserver, hend⟩ := exists_signup_runs
    (w := (⟨fun _ => none, []⟩ : World UInt8 (List (List UInt8)))) ⟨[], [], []⟩
    ⟨true, none⟩ hnone ⟨by decide, by decide⟩ (fun _ => ⟨_, rfl⟩ :
      ∀ salt, ∃ key, keyEncryptionKey (bytes "Password1234" : List UInt8) salt _ _ = .ok key)
  rcases hend with ⟨res, hres, -⟩ | ⟨-, hfiles⟩
  · cases hres
  · refine ⟨key, r, w', hrun, hserver, by rw [hfiles], fun hkeeps => ?_⟩
    obtain ⟨_, _, _, _, _, _, text, _, htext, -⟩ := hkeeps.registered key hserver
    rw [hfiles] at htext
    cases htext

end Kd
