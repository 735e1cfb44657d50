import Kingdom.Client.Effects
import Kingdom.Codec.JsonValid
import Kingdom.Codec.Decimal

/-!
# Trust on first use

The first public key the server gives for a user is pinned in a file, and every
later one has to be the same in the parts that identify the user.

* `pinningAnchor`, `readKnownKeys`, `writeKnownKeys`, `pinPublicKey`,
  `getPublicKey` — the functions of the client.
* `pinned` — the pin a file system holds for a user.
* `anchorFields_pinningAnchor`, `pinningAnchor_congr` — an anchor says which keys a bundle names.
* `PinRun` — the calls one process makes; `pins_stable` — the pins of a run are
  stable whatever the server answers.
-/

namespace Kd

open Codec Process Storage

variable {α : Type} [Alphabet α] [FloatFormat]

/-! ## The client -/

/-- A client of the server; it has an empty token while it is not logged in. -/
structure Client (α : Type) where
  baseUrl : Bytes
  caCertPath : Bytes
  authToken : List α

/-- What is thrown when there is no response. -/
def connectError (client : Client α) : Exn :=
  if client.caCertPath = [] ∧ (bytes "https://").isPrefixOf client.baseUrl then
    .runtimeError (bytes ("TLS certificate verification failed — no CA certificate provided. Use " ++
      "--ca-cert to specify one."))
  else .runtimeError (bytes "Failed to connect to server at " ++ client.baseUrl)

/-- What is thrown at a response whose status is another than expected. -/
def statusError (res : HttpResponse α) : Exn :=
  .runtimeError (bytes "Server returned status " ++ decimal res.status)

/-- The file that holds the pins, below the home directory. -/
def knownKeysFile (home : Bytes) : Bytes :=
  pathAppend home (bytes ".kingdom/keys/known_keys.json")

/-- The home directory comes from the environment; it is empty when it is not set. -/
def knownKeysPath (home : Bytes) : Except Exn Bytes := do
  ensure (home ≠ []) (.runtimeError (bytes "HOME is not set; cannot choose known keys file path"))
  return knownKeysFile home

def readKnownKeys (path : Bytes) : Action α (Json α) := do
  if ← fileExists path then
    let body ← readJsonFile "Failed to open known keys file for reading: "
      "Known keys file is not valid JSON object: " path
    Prog.ofExcept (ensure (body.isObject = true)
      (.runtimeError (bytes "Known keys file is not valid JSON object: " ++ path)))
    return body
  else
    return .obj []

def writeKnownKeys (path : Bytes) (knownKeys : Json α) : Action α Unit :=
  writeInPlace "Failed to open known keys file for writing: " "Failed to write known keys file: "
    path knownKeys

/-- The two fields that identify a user, or the whole string when it has none. -/
def pinningAnchor (publicKey : List α) : Except Exn (List α) :=
  match Json.parse publicKey with
  | none => .ok publicKey
  | some bundle =>
      match bundle.get? (bytes "identityKey"), bundle.get? (bytes "signingKey") with
      | some identityKey, some signingKey =>
          orJsonError (Json.mkObj [("identityKey", identityKey), ("signingKey", signingKey)]).dump
      | _, _ => .ok publicKey

variable [DecidableEq α]

/-- Pin the key at the first use, and compare it with the pin at later ones. -/
def pinAgainst (path : Bytes) (userId : UInt64) (publicKey : List α) (knownKeys : Json α) :
    Action α (List α) := do
  let key := decimal userId.toNat
  let anchor ← Prog.ofExcept (pinningAnchor publicKey)
  match knownKeys.get? key with
  | none =>
      writeKnownKeys path (knownKeys.set key (.str anchor))
      return publicKey
  | some pin =>
      let pinnedKey ← Prog.ofExcept (orThrow (bytes "Known keys file has invalid entry for user " ++
        key ++ bytes ": " ++ path) pin.str?)
      Prog.ofExcept (ensure (pinnedKey = anchor) (.runtimeError
        (bytes "WARNING: identity key changed for user " ++ key ++
          bytes (". Refusing to use the server-provided key because it does not match the key " ++
            "pinned in ") ++ path)))
      return publicKey

def pinPublicKey (home : Bytes) (userId : UInt64) (publicKey : List α) : Action α (List α) := do
  let path ← Prog.ofExcept (knownKeysPath home)
  let knownKeys ← readKnownKeys path
  pinAgainst path userId publicKey knownKeys

/-- The key in the body of a response. -/
def publicKeyOf (body : List α) : Except Exn (List α) := do
  let body ← orJsonError (Json.parse body)
  orThrow (bytes "Server public-key response is missing publicKey")
    ((body.get? (bytes "publicKey")).bind Json.str?)

/-- `Client::getPublicKey` -/
def getPublicKey (client : Client α) (home : Bytes) (userId : UInt64) : Action α (List α) := do
  let path := bytes "/users/" ++ decimal userId.toNat ++ bytes "/public-key"
  match ← perform (.http ⟨bytes "GET", path, client.authToken, []⟩) with
  | none => Prog.fail (connectError client)
  | some res =>
      if res.status = 200 then
        let publicKey ← Prog.ofExcept (publicKeyOf res.body)
        pinPublicKey home userId publicKey
      else Prog.fail (statusError res)

/-! ## Anchors -/

/-- The two strings that identify a user. -/
def anchorFields (publicKey : List α) : Option (List α × List α) := do
  let bundle ← Json.parse publicKey
  let identityKey ← (bundle.get? (bytes "identityKey")).bind Json.str?
  let signingKey ← (bundle.get? (bytes "signingKey")).bind Json.str?
  return (identityKey, signingKey)

omit [DecidableEq α] in
/-- Every string has an anchor. -/
theorem exists_pinningAnchor (s : List α) : ∃ a, pinningAnchor s = .ok a := by
  unfold pinningAnchor
  split
  · exact ⟨s, rfl⟩
  · rename_i bundle hbundle
    have hprint := Json.printable_of_parse hbundle
    split
    · rename_i ik sk hik hsk
      obtain ⟨t, ht⟩ := Json.exists_dump (j := .mkObj [("identityKey", ik), ("signingKey", sk)])
        (Json.printable_mkObj (by
          simp [Json.printable_get? hprint hik, Json.printable_get? hprint hsk]))
      exact ⟨t, by rw [ht]; rfl⟩
    · exact ⟨s, rfl⟩

omit [DecidableEq α] in
/-- **An anchor has the fields of the string it was made from.** -/
theorem anchorFields_pinningAnchor {s a : List α} (h : pinningAnchor s = .ok a) :
    anchorFields a = anchorFields s := by
  unfold pinningAnchor at h
  split at h
  · cases h
    rfl
  · rename_i bundle hbundle
    split at h
    · rename_i ik sk hik hsk
      have hwf := Json.wf_of_parse hbundle
      have hparse := Json.parse_dump (orJsonError_ok.mp h) (Json.wf_mkObj (by
        simp [Json.wf_get? hwf hik, Json.wf_get? hwf hsk]))
      simp only [anchorFields, hparse, hbundle, hik, hsk, Json.get?_norm, Option.bind_eq_bind,
        Option.bind_some]
      have h1 : (Json.mkObj [("identityKey", ik), ("signingKey", sk)]).get? (bytes "identityKey") =
          some ik := by
        rw [Json.get?_mkObj]
        simp +decide [Json.lookup]
      have h2 : (Json.mkObj [("identityKey", ik), ("signingKey", sk)]).get? (bytes "signingKey") =
          some sk := by
        rw [Json.get?_mkObj]
        simp +decide [Json.lookup]
      simp only [h1, h2, Option.map_some, Option.bind_some, Json.str?_norm]
    · cases h
      rfl

omit [DecidableEq α] in
/-- The fields of a user determine the anchor. -/
theorem pinningAnchor_congr {s s' : List α} {p : List α × List α} (h : anchorFields s = some p)
    (h' : anchorFields s' = some p) : pinningAnchor s = pinningAnchor s' := by
  have key : ∀ {s : List α}, anchorFields s = some p → pinningAnchor s = orJsonError
      (Json.mkObj [("identityKey", .str p.1), ("signingKey", .str p.2)]).dump := by
    intro s h
    simp only [anchorFields, Option.bind_eq_bind, Option.bind_eq_some_iff] at h
    obtain ⟨bundle, hbundle, ik, ⟨jik, hik, hs1⟩, sk, ⟨jsk, hsk, hs2⟩, hp⟩ := h
    cases hp
    obtain rfl : jik = .str ik := by cases jik <;> simp_all [Json.str?]
    obtain rfl : jsk = .str sk := by cases jsk <;> simp_all [Json.str?]
    rw [pinningAnchor, hbundle]
    simp only [hik, hsk]
  rw [key h, key h']

omit [DecidableEq α] in
/-- An anchor of valid UTF-8 is valid UTF-8. -/
theorem validUtf8_pinningAnchor {s a : List α} (hs : validUtf8 s = true)
    (h : pinningAnchor s = .ok a) : validUtf8 a = true := by
  unfold pinningAnchor at h
  split at h
  · cases h
    exact hs
  · rename_i bundle hbundle
    split at h
    · rename_i ik sk hik hsk
      have hwf := Json.wf_of_parse hbundle
      refine Json.validUtf8_dumpWith (orJsonError_ok.mp h) (Json.wf_mkObj ?_)
      simp [Json.wf_get? hwf hik, Json.wf_get? hwf hsk]
    · cases h
      exact hs

/-! ## The file of pins -/

section KnownKeys

omit [DecidableEq α]

/-- The pins of a file of known keys. -/
def pinIn (known : Json α) (userId : UInt64) : Option (List α) :=
  (known.get? (decimal userId.toNat)).bind Json.str?

/-- The pin a user has in the file. -/
def pinned (home : Bytes) (fs : Files Bytes α) (userId : UInt64) : Option (List α) :=
  ((fs (knownKeysFile home)).bind Json.parse).bind (pinIn · userId)

omit [FloatFormat] in
/-- The decimal ids tell the users apart. -/
theorem userKey_inj {u v : UInt64} (h : decimal u.toNat = decimal v.toNat) : u = v :=
  UInt64.toNat_inj.mp (decimal_injective h)

/-- **A file that was written with one more pin** holds that pin and the ones it had. -/
theorem parse_knownKeys {known : Json α} {u : UInt64} {anchor text : List α}
    (hobj : known.isObject = true) (hwf : known.WF)
    (h : jsonFileText (known.set (decimal u.toNat) (.str anchor)) = .ok text) :
    ∃ known', Json.parse text = some known' ∧ known'.isObject = true ∧
      ∀ v, pinIn known' v = if v = u then some anchor else pinIn known v := by
  obtain ⟨t, ht, rfl⟩ := Option.map_eq_some_iff.mp (orJsonError_ok.mp h)
  refine ⟨_, Json.parse_dumpWith_blanks ht (Json.wf_set hwf trivial) (by simp), ?_, fun v => ?_⟩
  · rw [Json.isObject_norm, Json.isObject_set hobj]
  · rw [pinIn, Json.get?_norm, Json.get?_set hobj]
    by_cases hv : v = u
    · subst hv
      simp [Json.norm, Json.str?]
    · have hkey : decimal u.toNat ≠ decimal v.toNat := fun he => hv (userKey_inj he).symm
      rw [if_neg hkey, if_neg hv, pinIn]
      cases known.get? (decimal v.toNat) with
      | none => rfl
      | some pin => simp [Json.str?_norm]

omit [FloatFormat] in
/-- A pin of valid UTF-8 can be written. -/
theorem exists_knownKeysText {known : Json α} (hprint : known.Printable) (u : UInt64)
    {anchor : List α} (ha : validUtf8 anchor = true) :
    ∃ text, jsonFileText (known.set (decimal u.toNat) (.str anchor)) = .ok text := by
  have hkey : validUtf8 (decimal u.toNat) = true := by
    have := validUtf8_ascii (α := UInt8) (decimal_ascii u.toNat)
    rwa [ofBytes_uint8] at this
  obtain ⟨t, ht⟩ := Json.exists_dumpWith (some 2) 0
    (Json.printable_set hprint hkey (show (Json.str anchor).Printable from ha))
  exact ⟨_, by rw [jsonFileText, ht]; rfl⟩

end KnownKeys

/-! ## Calls of one process -/

section Reliable

open Prog

variable {σ : Type} {net : HttpRequest α → σ → Option (HttpResponse α) → σ → Prop}
  {I : World α σ → Prop} {w : World α σ}

omit [DecidableEq α] in
theorem ensures_readKnownKeys {path : Bytes} {Q : Except Exn (Json α) → World α σ → Prop}
    (hI : I w) (hmissing : w.files path = none → Q (.ok (.obj [])) w)
    (hread : ∀ text known, w.files path = some text → Json.parse text = some known →
      known.isObject = true → Q (.ok known) w)
    (herr : ∀ e, Q (.error e) w) :
    (readKnownKeys path).Ensures (exec (fun _ => False) net) I w Q := by
  rw [readKnownKeys, ensures_bind]
  refine ensures_fileExists hI ?_ (fun h => h.elim)
  cases htext : w.files path with
  | none => exact ⟨hI, hmissing htext⟩
  | some text =>
      simp only [Option.isSome_some, if_true]
      rw [ensures_bind]
      refine ensures_readJsonFile hI ?_ (fun _ h => h.elim)
      rw [htext]
      cases hparse : Json.parse text with
      | none =>
          simp only [jsonOfFile, hparse, orThrow, Option.elim_none]
          exact herr _
      | some known =>
          simp only [jsonOfFile, hparse, orThrow, Option.elim_some]
          rw [ensures_bind, ensures_ofExcept]
          refine ⟨hI, ?_⟩
          by_cases hobj : known.isObject = true
          · simp only [ensure, if_pos hobj]
            exact ⟨hI, hread text known htext hparse hobj⟩
          · simp only [ensure, if_neg hobj]
            exact herr _

/-- What a call of `pinPublicKey` does to the pins of a file system. -/
structure Pinning (home : Bytes) (userId : UInt64) (publicKey : List α) (fs : Files Bytes α)
    (x : Except Exn (List α)) (fs' : Files Bytes α) : Prop where
  /-- What is returned was given, and its anchor is the pin. -/
  returned : ∀ s, x = .ok s → s = publicKey ∧ ∃ a, pinningAnchor s = .ok a ∧
    pinned home fs' userId = some a
  /-- A file that holds a pin of the user stays as it is. -/
  kept : ∀ pin, pinned home fs userId = some pin → fs' = fs
  /-- The pins of the others stay as they are. -/
  others : ∀ v ≠ userId, pinned home fs' v = pinned home fs v

omit [DecidableEq α] in
/-- A call that leaves the files as they are and throws. -/
theorem pinning_error {home : Bytes} {userId : UInt64} {publicKey : List α} {fs : Files Bytes α}
    (e : Exn) : Pinning home userId publicKey fs (.error e) fs where
  returned := by
    intro s h
    cases h
  kept _ _ := rfl
  others _ _ := rfl

/-- What follows once the known keys are read. -/
theorem ensures_pinAgainst {home : Bytes} {userId : UInt64} {publicKey : List α} {known : Json α}
    (hvalid : validUtf8 publicKey = true) (hobj : known.isObject = true) (hwf : known.WF)
    (hprint : known.Printable) (hpins : ∀ v, pinned home w.files v = pinIn known v) :
    (pinAgainst (knownKeysFile home) userId publicKey known).Ensures (exec (fun _ => False) net)
      (fun _ => True) w fun x w' => Pinning home userId publicKey w.files x w'.files := by
  obtain ⟨anchor, ha⟩ := exists_pinningAnchor publicKey
  rw [pinAgainst, ensures_bind, ensures_ofExcept, ha]
  refine ⟨trivial, ?_⟩
  simp only
  cases hpin : known.get? (decimal userId.toNat) with
  | none =>
      have hfirst : pinned home w.files userId = none := by rw [hpins, pinIn, hpin]; rfl
      obtain ⟨text, htext⟩ :=
        exists_knownKeysText hprint userId (validUtf8_pinningAnchor hvalid ha)
      obtain ⟨known', hparse, -, hknown'⟩ := parse_knownKeys hobj hwf htext
      simp only
      rw [ensures_bind]
      refine ensures_writeInPlace (fun _ _ => trivial) (fun text' htext' => ?_) ?_ ?_
      · obtain rfl : text' = text := Except.ok.inj (htext'.symm.trans htext)
        have hpins' : ∀ v, pinned home (Function.update w.files (knownKeysFile home) (some text')) v =
            if v = userId then some anchor else pinned home w.files v := by
          intro v
          rw [pinned, Function.update_self, Option.bind_some, hparse, Option.bind_some, hknown',
            hpins]
        refine ⟨trivial, ?_, ?_, ?_⟩
        · intro s hs
          cases hs
          exact ⟨rfl, anchor, ha, by rw [hpins', if_pos rfl]⟩
        · intro pin h
          rw [hfirst] at h
          cases h
        · intro v hv
          rw [hpins', if_neg hv]
      · intro e herr
        rw [htext] at herr
        cases herr
      · rintro ⟨o, ho⟩
        exact ho.elim
  | some pin =>
      simp only
      rw [ensures_bind, ensures_ofExcept]
      refine ⟨trivial, ?_⟩
      cases hstr : pin.str? with
      | none => exact pinning_error _
      | some pinnedKey =>
          simp only [orThrow, Option.elim_some]
          rw [ensures_bind, ensures_ofExcept]
          refine ⟨trivial, ?_⟩
          by_cases heq : pinnedKey = anchor
          · simp only [ensure, if_pos heq]
            refine ⟨trivial, ?_, fun _ _ => rfl, fun _ _ => rfl⟩
            intro s hs
            cases hs
            refine ⟨rfl, anchor, ha, ?_⟩
            rw [hpins, pinIn, hpin, Option.bind_some, hstr, heq]
          · simp only [ensure, if_neg heq]
            exact pinning_error _

/-- **One call of `pinPublicKey`**, when the file operations succeed. -/
theorem ensures_pinPublicKey {home : Bytes} {userId : UInt64} {publicKey : List α}
    (hvalid : validUtf8 publicKey = true) :
    (pinPublicKey home userId publicKey).Ensures (exec (fun _ => False) net) (fun _ => True) w
      fun x w' => Pinning home userId publicKey w.files x w'.files := by
  rw [pinPublicKey, ensures_bind, ensures_ofExcept]
  refine ⟨trivial, ?_⟩
  cases hpath : knownKeysPath home with
  | error e => exact pinning_error e
  | ok path =>
      obtain rfl : knownKeysFile home = path := by
        simp only [knownKeysPath, bind_ok, ensure_ok, pure_ok] at hpath
        obtain ⟨-, -, h⟩ := hpath
        exact h
      simp only
      rw [ensures_bind]
      refine ensures_readKnownKeys trivial (fun hmissing => ?_) (fun text known htext hparse hobj => ?_)
        fun e => pinning_error e
      · refine ensures_pinAgainst hvalid rfl ⟨List.Pairwise.nil, trivial⟩ trivial fun v => ?_
        rw [pinned, hmissing]
        rfl
      · refine ensures_pinAgainst hvalid hobj (Json.wf_of_parse hparse)
          (Json.printable_of_parse hparse) fun v => ?_
        rw [pinned, htext, Option.bind_some, hparse, Option.bind_some]

/-- The key a response supplies. -/
def supplied (response : Option (HttpResponse α)) : Option (List α) := do
  let res ← response
  if res.status = 200 then (publicKeyOf res.body).toOption else none

omit [DecidableEq α] in
theorem validUtf8_publicKeyOf {body s : List α} (h : publicKeyOf body = .ok s) :
    validUtf8 s = true := by
  simp only [publicKeyOf, bind_ok, orJsonError_ok, orThrow_ok, Option.bind_eq_some_iff] at h
  obtain ⟨j, hj, v, hv, hs⟩ := h
  have hprint := Json.printable_get? (Json.printable_of_parse hj) hv
  cases v with
  | str t =>
      cases hs
      exact hprint
  | _ => cases hs

/-- **One call of `getPublicKey`**, with the response it gets. -/
theorem ensures_getPublicKey {client : Client α} {home : Bytes} {userId : UInt64}
    {response : Option (HttpResponse α)} :
    (getPublicKey client home userId).Ensures (exec (fun _ => False) fun _ _ r _ => r = response)
      (fun _ => True) w fun x w' => ∃ publicKey,
        (∀ s, supplied response = some s ∨ x = .ok s → supplied response = some publicKey) ∧
          Pinning home userId publicKey w.files x w'.files := by
  have hfailed : ∀ {e : Exn} {server : σ}, supplied response = none →
      ∃ publicKey, (∀ s, supplied response = some s ∨ (.error e : Except Exn (List α)) = .ok s →
        supplied response = some publicKey) ∧
          Pinning home userId publicKey w.files (.error e) (World.mk w.files server).files := by
    intro e server hnone
    refine ⟨[], fun s hs => ?_, pinning_error e⟩
    rcases hs with hs | hs
    · rw [hnone] at hs
      cases hs
    · cases hs
  rw [getPublicKey, ensures_bind, ensures_http]
  refine ⟨trivial, ?_⟩
  rintro r server rfl
  refine ⟨trivial, ?_⟩
  cases r with
  | none => exact ⟨trivial, hfailed rfl⟩
  | some res =>
      simp only
      by_cases hstatus : res.status = 200
      · rw [if_pos hstatus, ensures_bind, ensures_ofExcept]
        refine ⟨trivial, ?_⟩
        cases hkey : publicKeyOf res.body with
        | error e =>
            refine hfailed ?_
            simp only [supplied, Option.bind_eq_bind, Option.bind_some, if_pos hstatus, hkey]
            rfl
        | ok publicKey =>
            refine ensures_mono (ensures_pinPublicKey (validUtf8_publicKeyOf hkey)) fun x w' h => ?_
            refine ⟨publicKey, fun s _ => ?_, h⟩
            simp only [supplied, Option.bind_eq_bind, Option.bind_some, if_pos hstatus, hkey]
            rfl
      · rw [if_neg hstatus]
        refine ⟨trivial, hfailed ?_⟩
        simp only [supplied, Option.bind_eq_bind, Option.bind_some, if_neg hstatus]

/-- **On first contact the key that the server supplies is pinned and returned.** -/
theorem ensures_getPublicKey_first {client : Client α} {home : Bytes} {userId : UInt64}
    {response : Option (HttpResponse α)} {publicKey : List α} (hhome : home ≠ [])
    (hmissing : w.files (knownKeysFile home) = none) (hsupplied : supplied response = some publicKey)
    (hnet : ∀ r s', net ⟨bytes "GET", bytes "/users/" ++ decimal userId.toNat ++
      bytes "/public-key", client.authToken, []⟩ w.server r s' → r = response) :
    (getPublicKey client home userId).Ensures (exec (fun _ => False) net) (fun _ => True) w
      fun x _ => x = .ok publicKey := by
  obtain ⟨res, rfl, hres⟩ := Option.bind_eq_some_iff.mp hsupplied
  split_ifs at hres with hstatus
  have hkey : publicKeyOf res.body = .ok publicKey := by
    cases h : publicKeyOf res.body with
    | error e =>
        rw [h] at hres
        cases hres
    | ok s =>
        rw [h] at hres
        cases hres
        rfl
  have hpath : knownKeysPath home = .ok (knownKeysFile home) := by
    rw [knownKeysPath, ensure, if_pos hhome]
    rfl
  obtain ⟨anchor, ha⟩ := exists_pinningAnchor publicKey
  rw [getPublicKey, ensures_bind, ensures_http]
  refine ⟨trivial, fun r server hr => ⟨trivial, ?_⟩⟩
  obtain rfl := hnet r server hr
  simp only
  rw [if_pos hstatus, ensures_bind, ensures_ofExcept, hkey]
  refine ⟨trivial, ?_⟩
  simp only
  rw [pinPublicKey, ensures_bind, ensures_ofExcept, hpath]
  refine ⟨trivial, ?_⟩
  simp only
  rw [ensures_bind, readKnownKeys, ensures_bind]
  refine ensures_fileExists trivial ?_ fun h => h.elim
  rw [hmissing]
  refine ⟨trivial, ?_⟩
  simp only
  rw [pinAgainst, ensures_bind, ensures_ofExcept, ha]
  refine ⟨trivial, ?_⟩
  -- there are no pins, and the first one is written
  have hget : (Json.obj [] : Json α).get? (decimal userId.toNat) = none := rfl
  simp only [hget]
  have hprint : (Json.obj [] : Json α).Printable := trivial
  obtain ⟨text, htext⟩ := exists_knownKeysText hprint userId
    (validUtf8_pinningAnchor (validUtf8_publicKeyOf hkey) ha)
  rw [ensures_bind]
  refine ensures_writeInPlace (fun _ _ => trivial) (fun _ _ => ⟨trivial, rfl⟩) ?_ ?_
  · intro e herr
    rw [htext] at herr
    cases herr
  · rintro ⟨o, ho⟩
    exact ho.elim

end Reliable

/-! ## A pin that is there -/

section Unreliable

open Prog

variable {σ : Type} {mayFail : FileOp Bytes α → Prop}
  {net : HttpRequest α → σ → Option (HttpResponse α) → σ → Prop} {w : World α σ}

omit [DecidableEq α] in
/-- The known keys that are read are those of the file, whatever fails. -/
theorem ensures_readKnownKeys_of_parse {path : Bytes} {text : List α} {known : Json α}
    (htext : w.files path = some text) (hparse : Json.parse text = some known) :
    (readKnownKeys path).Ensures (exec mayFail net) (fun _ => True) w fun x w' =>
      w' = w ∧ ∀ known', x = .ok known' → known' = known := by
  -- what is read is the start of the text, and an object ends by itself
  have hstart : ∀ {start rest : List α} {openError parseError : String} {body : Json α},
      start ++ rest = text → jsonOfFile openError parseError path (some start) = .ok body →
        body.isObject = true → body = known := by
    rintro start rest openError parseError body rfl hbody hobj
    have hclosed : Json.Closed body := by
      cases body with
      | obj fs => trivial
      | _ => cases hobj
    exact (Json.parse_append (orThrow_ok.mp hbody) hclosed hparse).symm
  have hread : ∀ openError parseError : String, (readJsonFile openError parseError path).Ensures
      (exec mayFail net) (fun _ => True) w fun x w' =>
        w' = w ∧ ∀ body, x = .ok body → body.isObject = true → body = known := by
    intro openError parseError
    refine ensures_readJsonFile trivial ?_ fun t _ ht => ?_
    · rw [htext]
      exact ⟨rfl, fun body => hstart (List.append_nil text)⟩
    · rcases ht with rfl | ⟨text', n, htext', rfl⟩
      · exact ⟨rfl, fun _ h => by cases h⟩
      · rw [htext] at htext'
        cases htext'
        exact ⟨rfl, fun body => hstart (List.take_append_drop n text)⟩
  rw [readKnownKeys, ensures_bind]
  refine ensures_fileExists trivial ?_ fun _ => ⟨rfl, fun _ h => by cases h⟩
  rw [htext]
  simp only [Option.isSome_some, if_true]
  rw [ensures_bind]
  refine ensures_mono (hread _ _) ?_
  rintro x w' ⟨rfl, hx⟩
  cases x with
  | error e => exact ⟨rfl, fun _ h => by cases h⟩
  | ok body =>
      simp only
      rw [ensures_bind, ensures_ofExcept]
      refine ⟨trivial, ?_⟩
      by_cases hobj : body.isObject = true
      · simp only [ensure, if_pos hobj]
        refine ⟨trivial, rfl, fun known' h => ?_⟩
        obtain rfl : body = known' := Except.ok.inj h
        exact hx body rfl hobj
      · simp only [ensure, if_neg hobj]
        exact ⟨trivial, fun _ h => by cases h⟩

/-- **A key that is returned has the anchor that was pinned**, whatever fails. -/
theorem ensures_getPublicKey_pinned {client : Client α} {home : Bytes} {userId : UInt64}
    {pin : List α} (hpin : pinned home w.files userId = some pin) :
    (getPublicKey client home userId).Ensures (exec mayFail net) (fun _ => True) w fun x _ =>
      ∀ s, x = .ok s → pinningAnchor s = .ok pin := by
  obtain ⟨known, hknown, hpin⟩ := Option.bind_eq_some_iff.mp hpin
  obtain ⟨text, htext, hparse⟩ := Option.bind_eq_some_iff.mp hknown
  obtain ⟨v, hget, hv⟩ := Option.bind_eq_some_iff.mp hpin
  rw [getPublicKey, ensures_bind, ensures_http]
  refine ⟨trivial, fun r server _ => ⟨trivial, ?_⟩⟩
  cases r with
  | none => exact ⟨trivial, fun _ h => by cases h⟩
  | some res =>
      simp only
      by_cases hstatus : res.status = 200
      · rw [if_pos hstatus, ensures_bind, ensures_ofExcept]
        refine ⟨trivial, ?_⟩
        cases publicKeyOf res.body with
        | error e => exact fun _ h => by cases h
        | ok publicKey =>
            simp only
            rw [pinPublicKey, ensures_bind, ensures_ofExcept]
            refine ⟨trivial, ?_⟩
            cases hpath : knownKeysPath home with
            | error e => exact fun _ h => by cases h
            | ok path =>
                obtain rfl : knownKeysFile home = path := by
                  simp only [knownKeysPath, bind_ok, ensure_ok, pure_ok] at hpath
                  obtain ⟨-, -, h⟩ := hpath
                  exact h
                simp only
                rw [ensures_bind]
                refine ensures_mono (ensures_readKnownKeys_of_parse htext hparse) ?_
                rintro x w' ⟨rfl, hx⟩
                cases x with
                | error e => exact fun _ h => by cases h
                | ok known' =>
                    obtain rfl := hx known' rfl
                    obtain ⟨anchor, ha⟩ := exists_pinningAnchor publicKey
                    simp only
                    rw [pinAgainst, ensures_bind, ensures_ofExcept, ha]
                    refine ⟨trivial, ?_⟩
                    simp only [hget]
                    rw [ensures_bind, ensures_ofExcept, hv]
                    refine ⟨trivial, ?_⟩
                    simp only [orThrow, Option.elim_some]
                    rw [ensures_bind, ensures_ofExcept]
                    refine ⟨trivial, ?_⟩
                    by_cases heq : pin = anchor
                    · simp only [ensure, if_pos heq]
                      refine ⟨trivial, fun s hs => ?_⟩
                      obtain rfl : publicKey = s := Except.ok.inj hs
                      rw [heq, ha]
                    · simp only [ensure, if_neg heq]
                      exact fun _ h => by cases h
      · rw [if_neg hstatus]
        exact ⟨trivial, fun _ h => by cases h⟩

/-- **A key with the anchor that was pinned is returned**, when nothing fails. -/
theorem ensures_pinPublicKey_again {home : Bytes} {userId : UInt64} {publicKey pin : List α}
    {known : Json α} {text : List α} (hhome : home ≠ [])
    (htext : w.files (knownKeysFile home) = some text) (hparse : Json.parse text = some known)
    (hobj : known.isObject = true) (hpin : pinIn known userId = some pin)
    (ha : pinningAnchor publicKey = .ok pin) :
    (pinPublicKey home userId publicKey).Ensures (exec (fun _ => False) net) (fun _ => True) w
      fun x _ => x = .ok publicKey := by
  obtain ⟨v, hget, hv⟩ := Option.bind_eq_some_iff.mp hpin
  have hpath : knownKeysPath home = .ok (knownKeysFile home) := by
    rw [knownKeysPath, ensure, if_pos hhome]
    rfl
  rw [pinPublicKey, ensures_bind, ensures_ofExcept, hpath]
  refine ⟨trivial, ?_⟩
  simp only
  rw [ensures_bind, readKnownKeys, ensures_bind]
  refine ensures_fileExists trivial ?_ fun h => h.elim
  rw [htext]
  simp only [Option.isSome_some, if_true]
  rw [ensures_bind]
  refine ensures_readJsonFile trivial ?_ fun _ h => h.elim
  rw [htext]
  simp only [jsonOfFile, hparse, orThrow, Option.elim_some]
  rw [ensures_bind, ensures_ofExcept]
  refine ⟨trivial, ?_⟩
  simp only [ensure, if_pos hobj]
  refine ⟨trivial, ?_⟩
  simp only
  rw [pinAgainst, ensures_bind, ensures_ofExcept, ha]
  refine ⟨trivial, ?_⟩
  simp only [hget]
  rw [ensures_bind, ensures_ofExcept, hv]
  refine ⟨trivial, ?_⟩
  simp only [orThrow, Option.elim_some]
  rw [ensures_bind, ensures_ofExcept]
  refine ⟨trivial, ?_⟩
  simp only [ensure, if_true]
  exact ⟨trivial, rfl⟩

end Unreliable

/-! ## Runs of one process -/

/-- A call of `getPublicKey`: the response it got, the files before and after it,
and how it ended. -/
structure PinCall (α : Type) where
  userId : UInt64
  response : Option (HttpResponse α)
  before : Files Bytes α
  after : Files Bytes α
  outcome : Except Exn (List α)

/-- The calls one process makes, to a server that answers as it likes and with file
operations that succeed. -/
inductive PinRun (home : Bytes) : Files Bytes α → List (PinCall α) → Files Bytes α → Prop where
  | nil (fs) : PinRun home fs [] fs
  | snoc {fs log before after client userId response outcome} (h : PinRun home fs log before)
      (hcall : (getPublicKey client home userId).Runs
        (exec (fun _ => False) fun _ _ r _ => r = response) ⟨before, ()⟩ (some outcome)
        ⟨after, ()⟩) :
      PinRun home fs (log ++ [⟨userId, response, before, after, outcome⟩]) after

/-- The pins of a run are stable. -/
structure PinsStable (home : Bytes) (log : List (PinCall α)) : Prop where
  /-- A returned string was supplied, and its anchor is recorded as the user's pin. -/
  returned : ∀ c ∈ log, ∀ s, c.outcome = .ok s → supplied c.response = some s ∧
    ∃ a, pinningAnchor s = .ok a ∧ pinned home c.after c.userId = some a
  /-- After that, what is returned for the user has the same anchor, and a string with
  another one makes the call throw and leaves the files unchanged. -/
  later : log.Pairwise fun c c' => c'.userId = c.userId → ∀ s, c.outcome = .ok s →
    (∀ s', c'.outcome = .ok s' → pinningAnchor s' = pinningAnchor s) ∧
      ∀ s', supplied c'.response = some s' → pinningAnchor s' ≠ pinningAnchor s →
        (∃ e, c'.outcome = .error e) ∧ c'.after = c'.before
  /-- A call for one user leaves the pins of the others. -/
  others : ∀ c ∈ log, ∀ v ≠ c.userId, pinned home c.after v = pinned home c.before v

/-- A call of a run, as `ensures_getPublicKey` has it. -/
theorem pinCall_spec {home : Bytes} {client : Client α} {userId : UInt64}
    {response : Option (HttpResponse α)} {before after : Files Bytes α}
    {outcome : Except Exn (List α)}
    (h : (getPublicKey client home userId).Runs
      (exec (fun _ => False) fun _ _ r _ => r = response) ⟨before, ()⟩ (some outcome) ⟨after, ()⟩) :
    ∃ publicKey, (∀ s, supplied response = some s ∨ outcome = .ok s →
      supplied response = some publicKey) ∧ Pinning home userId publicKey before outcome after :=
  Prog.Ensures.of_runs ensures_getPublicKey h

/-- **What was returned for a user stays the pin.** -/
theorem pinned_of_returned {home : Bytes} {fs₀ fs : Files Bytes α} {log : List (PinCall α)}
    (h : PinRun home fs₀ log fs) : ∀ c ∈ log, ∀ s, c.outcome = .ok s →
      ∃ a, pinningAnchor s = .ok a ∧ pinned home fs c.userId = some a := by
  induction h with
  | nil => simp
  | @snoc log before after client userId response outcome _ hcall ih =>
      obtain ⟨publicKey, -, hpin⟩ := pinCall_spec hcall
      intro c hc s hs
      rcases List.mem_append.mp hc with hc | hc
      · obtain ⟨a, ha, hpinned⟩ := ih c hc s hs
        refine ⟨a, ha, ?_⟩
        by_cases hu : c.userId = userId
        · rw [hu] at hpinned ⊢
          rw [hpin.kept a hpinned]
          exact hpinned
        · rw [hpin.others c.userId hu]
          exact hpinned
      · rw [List.mem_singleton.mp hc] at hs ⊢
        obtain ⟨-, a, ha, hpinned⟩ := hpin.returned s hs
        exact ⟨a, ha, hpinned⟩

/-- **Pins are stable against a server that answers as it likes**, and anchors tell
the identifying fields of a user apart. -/
theorem pins_stable {home : Bytes} {fs₀ fs : Files Bytes α} {log : List (PinCall α)}
    (h : PinRun home fs₀ log fs) : PinsStable home log ∧
      (∀ (s s' : List α) (p p' : List α × List α), anchorFields s = some p →
        anchorFields s' = some p' → (pinningAnchor s = pinningAnchor s' ↔ p = p')) ∧
      ∀ (s s' : List α) (p : List α × List α), anchorFields s = some p →
        anchorFields s' = none → pinningAnchor s ≠ pinningAnchor s' := by
  refine ⟨?_, ?_, ?_⟩
  · induction h with
    | nil => exact ⟨by simp, .nil, by simp⟩
    | @snoc log before after client userId response outcome hrun hcall ih =>
        obtain ⟨publicKey, hkey, hpin⟩ := pinCall_spec hcall
        refine ⟨?_, ?_, ?_⟩
        · rintro c hc s hs
          rcases List.mem_append.mp hc with hc | hc
          · exact ih.returned c hc s hs
          · rw [List.mem_singleton.mp hc] at hs ⊢
            obtain ⟨rfl, a, ha, hpinned⟩ := hpin.returned s hs
            exact ⟨hkey s (.inr hs), a, ha, hpinned⟩
        · refine List.pairwise_append.mpr ⟨ih.later, List.pairwise_singleton _ _, ?_⟩
          intro c hc c' hc' huser s hs
          rw [List.mem_singleton.mp hc'] at huser ⊢
          obtain ⟨a, ha, hpinned⟩ := pinned_of_returned hrun c hc s hs
          simp only at huser
          rw [← huser] at hpinned
          have hsame := hpin.kept a hpinned
          have hreturned : ∀ s', outcome = .ok s' → pinningAnchor s' = pinningAnchor s := by
            intro s' hs'
            obtain ⟨-, a', ha', hpinned'⟩ := hpin.returned s' hs'
            rw [hsame, hpinned] at hpinned'
            rw [ha', ha, Option.some.inj hpinned']
          refine ⟨hreturned, fun s' hs' hne => ⟨?_, hsame⟩⟩
          simp only at hs' ⊢
          cases houtcome : outcome with
          | error e => exact ⟨e, rfl⟩
          | ok t =>
              obtain ⟨rfl, -⟩ := hpin.returned t houtcome
              have ht : t = s' := Option.some.inj ((hkey s' (.inl hs')).symm.trans hs')
              exact absurd (hreturned t houtcome) (ht ▸ hne)
        · rintro c hc v hv
          rcases List.mem_append.mp hc with hc | hc
          · exact ih.others c hc v hv
          · rw [List.mem_singleton.mp hc] at hv ⊢
            exact hpin.others v hv
  · intro s s' p p' hp hp'
    constructor
    · intro heq
      obtain ⟨a, ha⟩ := exists_pinningAnchor s
      have h1 := anchorFields_pinningAnchor ha
      have h2 := anchorFields_pinningAnchor (heq.symm.trans ha)
      rw [h1, hp] at h2
      rw [hp'] at h2
      exact Option.some.inj h2
    · rintro rfl
      exact pinningAnchor_congr hp hp'
  · intro s s' p hp hp' heq
    obtain ⟨a, ha⟩ := exists_pinningAnchor s
    have h1 := anchorFields_pinningAnchor ha
    have h2 := anchorFields_pinningAnchor (heq.symm.trans ha)
    rw [h1, hp, hp'] at h2
    cases h2

/-- The response that supplies a key. -/
def keyResponse (publicKey : Bytes) : Option (HttpResponse UInt8) :=
  some ⟨200, ((Json.mkObj [("publicKey", .str publicKey)]).dump).getD []⟩

/-- A call that gets this response. -/
def exampleCall (before : Files Bytes UInt8) (userId : UInt64) (publicKey : Bytes) :
    Except Exn Bytes × World UInt8 Unit :=
  letI := plainFloats
  (getPublicKey ⟨bytes "http://localhost", [], []⟩ (bytes "/home/a") userId).eval
    (answer fun _ s => (keyResponse publicKey, s)) ⟨before, ()⟩

omit [FloatFormat] in
/-- The server gives user 5 one identity, and another one later. -/
theorem pins_stable_example : letI := plainFloats; ∃ log : List (PinCall UInt8),
    log.map (·.outcome.toOption) =
      [some (bytes "\x7b\"identityKey\":\"a\",\"signingKey\":\"b\",\"signedPreKey\":1\x7d"),
        none] ∧ PinsStable (bytes "/home/a") log := by
  let := plainFloats
  let key (a : String) :=
    bytes ("\x7b\"identityKey\":\"" ++ a ++ "\",\"signingKey\":\"b\",\"signedPreKey\":1\x7d")
  let first := exampleCall (fun _ => none) 5 (key "a")
  let second := exampleCall first.2.files 5 (key "c")
  have hrun : ∀ (before : Files Bytes UInt8) (publicKey : Bytes),
      (getPublicKey ⟨bytes "http://localhost", [], []⟩ (bytes "/home/a") 5).Runs
        (exec (fun _ => False) fun _ _ r _ => r = keyResponse publicKey) ⟨before, ()⟩
        (some (exampleCall before 5 publicKey).1) (exampleCall before 5 publicKey).2 :=
    fun before publicKey => Prog.runs_eval (exec_answer fun _ _ => rfl) _ _
  refine ⟨_, ?_, (pins_stable (((PinRun.nil (fun _ => none)).snoc (hrun _ (key "a"))).snoc
    (hrun first.2.files (key "c")))).1⟩
  decide +kernel

end Kd
