import Kingdom.Client.LocalPaths
import Kingdom.Protocol.BundleRewrites
import Kingdom.Protocol.Network
import Kingdom.Server.BundleHistory

/-!
# Fetching the bundles of others

A client pins the keys of every user it talks to, while the server takes one-time prekeys out
of the bundles it hands out.

* `LosesAll.anchorFields` — a bundle that has lost prekeys names the keys it named.
* `GivesOut` — what an honest server hands out for a user.
* `HonestPins` — a file of pins that holds nothing else.
* `Fetches` — the calls of one client, with whatever happens in between.
* `no_false_alarm` — against an honest server the client never warns of a changed key.
-/

namespace Protocol

open Codec Process Storage Kds

/-! ## Bundles that have lost prekeys -/

section Bundles

variable [FloatFormat]

/-- The keys a bundle names are not among what it loses. -/
theorem anchorFields_of_drops {k : UInt64} {text text' : Kds.Bytes} (h : Drops k text text') :
    Kd.anchorFields text' = Kd.anchorFields text := by
  obtain ⟨bundle, bundle', keys, hparse, hparse', -, -, hfields⟩ := h
  have hstr : ∀ key, key ≠ oneTimePreKeysKey →
      (bundle'.get? key).bind Json.str? = (bundle.get? key).bind Json.str? := by
    intro key hkey
    rw [hfields key hkey]
    cases bundle.get? key with
    | none => rfl
    | some v => exact Json.str?_norm v
  simp only [Kd.anchorFields, hparse, hparse', Option.bind_eq_bind, Option.bind_some,
    hstr _ (show bytes "identityKey" ≠ oneTimePreKeysKey by decide),
    hstr _ (show bytes "signingKey" ≠ oneTimePreKeysKey by decide)]

theorem LosesAll.anchorFields {ids : List UInt64} {text text' : Kds.Bytes}
    (h : LosesAll ids text text') : Kd.anchorFields text' = Kd.anchorFields text := by
  induction h with
  | nil => rfl
  | snoc _ _ hdrops ih => rw [anchorFields_of_drops hdrops, ih]

end Bundles

/-! ## What an honest server hands out -/

section Serving

variable [Primitives] [FloatFormat] {cfg : Config} {tick : Clock → Clock → Prop}

/-- What the server hands out for a user: the one bundle that was published at the signup,
after it has lost the first few of the prekeys that the run takes. -/
def GivesOut (tr : ServerTrace) (u : UInt64) (text' : Kds.Bytes) : Prop :=
  ∃ text ids, signups u tr = [text] ∧ ids <+: takenKeys u tr ∧ LosesAll ids text text'

/-- A user signs up once. -/
theorem signups_append {clock : Clock} {tr tr' : ServerTrace} {w : ServerSystem}
    (hdoubt : cfg.inDoubt = false) (h : ServerRun cfg tick ⟨.initial clock, []⟩ (tr ++ tr') w)
    {u : UInt64} {text : Kds.Bytes} (htext : signups u tr = [text]) :
    signups u (tr ++ tr') = [text] := by
  have hhistory := bundle_history hdoubt h u
  have happend : signups u (tr ++ tr') = [text] ++ signups u tr' := by
    rw [signups, records_append, ← signups, htext, signups]
  rw [happend] at hhistory ⊢
  generalize takenKeys u (tr ++ tr') = ids at hhistory
  generalize Database.getUserPublicKey w.state.store u = bundle at hhistory
  generalize signups u tr' = more at hhistory ⊢
  cases hhistory
  rfl

theorem GivesOut.append {clock : Clock} {tr tr' : ServerTrace} {w : ServerSystem}
    (hdoubt : cfg.inDoubt = false) (h : ServerRun cfg tick ⟨.initial clock, []⟩ (tr ++ tr') w)
    {u : UInt64} {text' : Kds.Bytes} (hgives : GivesOut tr u text') : GivesOut (tr ++ tr') u text' := by
  obtain ⟨text, ids, htext, hids, hloses⟩ := hgives
  refine ⟨text, ids, signups_append hdoubt h htext, ?_, hloses⟩
  rw [takenKeys, records_append]
  exact hids.trans (List.prefix_append _ _)

/-- What `getUserPublicKey` answers in a run. -/
theorem givesOut_of_fetched {clock : Clock} {tr : ServerTrace} {w : ServerSystem}
    (hdoubt : cfg.inDoubt = false) (h : ServerRun cfg tick ⟨.initial clock, []⟩ tr w)
    {u : UInt64} {text' : Kds.Bytes} (hfetched : ∃ x ∈ tr, x.2.IsCall (Fetched u (some text'))) :
    GivesOut tr u text' := by
  obtain ⟨⟨v, l⟩, hx, hl⟩ := hfetched
  obtain ⟨before, after, rfl⟩ := List.append_of_mem hx
  have hhistory := fetched_history hdoubt h hl
  refine GivesOut.append hdoubt h ?_
  generalize htexts : signups u before = texts at hhistory
  generalize hkeys : takenKeys u before = ids at hhistory
  cases hhistory with
  | some hloses => exact ⟨_, ids, htexts, hkeys ▸ List.prefix_rfl, hloses⟩

/-- **A response to a request for a bundle** supplies what the server hands out. -/
theorem givesOut_of_handled {n : Serving} {tr : ServerTrace} {v : ServerSystem}
    (hdoubt : cfg.inDoubt = false) (hn : n.Reached cfg tick) {u : UInt64} {token : Kds.Bytes}
    {calls : CallLog Op Res} {res : Kd.HttpResponse UInt8} (h : Handled cfg tick n.system tr v
      ⟨bytes "GET", bytes "/users/" ++ decimal u.toNat ++ bytes "/public-key", token, []⟩ calls res)
    (hok : res.status = 200) :
    ∃ text', Kd.publicKeyOf res.body = .ok text' ∧ GivesOut (n.trace ++ tr) u text' := by
  obtain ⟨clock, hrun⟩ := hn
  obtain ⟨addr, seen, hserved⟩ := h
  have hwhole := hrun.append hserved.1
  obtain ⟨past, hpast, hth⟩ := hserved.done
  obtain ⟨e, he, j, hreported, hdump⟩ := reported_of_done hwhole hth (.inl hok)
  cases (endpointOf_publicKey u).symm.trans he
  have hparse := Json.parse_dump hdump hreported.wf
  rw [hreported.norm] at hparse
  cases hreported with
  | @publicKey part key u' hpart hsaid =>
      cases (parseId_idPart u).symm.trans hpart
      refine ⟨key, ?_, givesOut_of_fetched hdoubt hwhole ?_⟩
      · simp only [Kd.publicKeyOf, Kd.bind_ok, Kd.orJsonError_ok, Kd.orThrow_ok]
        refine ⟨_, hparse, ?_⟩
        simp +decide [Json.get?_mkObj, Json.lookup, Json.str?]
      · -- the call is a step of the run
        have hcall := said_iff_mem_callLog.mp hsaid
        rw [hpast] at hcall
        obtain ⟨-, before, v₀, after, rfl, -, hcalls, -⟩ := hserved
        rw [← hcalls] at hcall
        obtain ⟨x, hx⟩ := mem_callsOf.mp hcall
        exact ⟨_, List.mem_append_right _ (List.mem_append_right _ (List.mem_cons_of_mem _ hx)),
          rfl, rfl⟩

end Serving

/-! ## The file of pins -/

section Pins

open Prog

variable [FloatFormat]

/-- The users who have signed up have published bundles that name their keys. -/
def Identified (tr : ServerTrace) : Prop :=
  ∀ u, ∀ text ∈ signups u tr, ∃ p, Kd.anchorFields text = some p

/-- Every pin is the anchor of the bundle that the user published. -/
structure HonestPins (tr : ServerTrace) (known : Json UInt8) : Prop where
  isObject : known.isObject = true
  pin : ∀ u pin, known.get? (decimal u.toNat) = some pin → ∃ anchor text, pin = .str anchor ∧
    signups u tr = [text] ∧ Kd.pinningAnchor text = .ok anchor

/-- The file of known keys is missing, or all its pins are honest. -/
def HonestFile (home : Kds.Bytes) (tr : ServerTrace) (fs : Files Kds.Bytes UInt8) : Prop :=
  ∀ text, fs (Kd.knownKeysFile home) = some text →
    ∃ known, Json.parse text = some known ∧ HonestPins tr known

/-- One more honest pin, and the file that is written then. -/
theorem HonestPins.set {tr : ServerTrace} {known : Json UInt8} (h : HonestPins tr known)
    (hwf : known.WF) {u : UInt64} {text anchor fileText : Kds.Bytes} (hsignup : signups u tr = [text])
    (ha : Kd.pinningAnchor text = .ok anchor)
    (hfile : Kd.jsonFileText (known.set (decimal u.toNat) (.str anchor)) = .ok fileText) :
    ∃ known', Json.parse fileText = some known' ∧ HonestPins tr known' := by
  obtain ⟨t, ht, rfl⟩ := Option.map_eq_some_iff.mp (Kd.orJsonError_ok.mp hfile)
  refine ⟨_, Json.parse_dumpWith_blanks ht (Json.wf_set hwf trivial) (by simp), ?_, ?_⟩
  · rw [Json.isObject_norm, Json.isObject_set h.isObject]
  · intro v pin hpin
    rw [Json.get?_norm, Json.get?_set h.isObject] at hpin
    by_cases hv : decimal u.toNat = decimal v.toNat
    · obtain rfl := Kd.userKey_inj hv
      rw [if_pos hv] at hpin
      cases hpin
      exact ⟨anchor, text, rfl, hsignup, ha⟩
    · rw [if_neg hv] at hpin
      obtain ⟨old, hold, rfl⟩ := Option.map_eq_some_iff.mp hpin
      obtain ⟨a, t', rfl, hsignup', ha'⟩ := h.pin v old hold
      exact ⟨a, t', rfl, hsignup', ha'⟩

variable {σ : Type} {net : Kd.HttpRequest UInt8 → σ → Option (Kd.HttpResponse UInt8) → σ → Prop}
  {w : Kd.World UInt8 σ} {home : Kds.Bytes} {tr : ServerTrace}

/-- Reading an honest file. -/
theorem ensures_readKnownKeys_honest (h : HonestFile home tr w.files) :
    (Kd.readKnownKeys (Kd.knownKeysFile home)).Ensures (Kd.exec (fun _ => False) net)
      (fun _ => True) w fun x w' => w' = w ∧
        ∃ known, x = .ok known ∧ HonestPins tr known ∧ known.WF ∧ known.Printable := by
  rw [Kd.readKnownKeys, ensures_bind]
  refine Kd.ensures_fileExists trivial ?_ fun hfail => hfail.elim
  cases htext : w.files (Kd.knownKeysFile home) with
  | none =>
      refine ⟨trivial, rfl, .obj [], rfl, ⟨rfl, ?_⟩, ⟨List.Pairwise.nil, trivial⟩, trivial⟩
      intro u pin hpin
      cases hpin
  | some text =>
      obtain ⟨known, hparse, hhonest⟩ := h text htext
      simp only [Option.isSome_some, if_true]
      rw [ensures_bind]
      refine Kd.ensures_readJsonFile trivial ?_ fun _ hfail => hfail.elim
      rw [htext]
      simp only [Kd.jsonOfFile, hparse, Kd.orThrow, Option.elim_some]
      rw [ensures_bind, ensures_ofExcept]
      refine ⟨trivial, ?_⟩
      simp only [Kd.ensure, if_pos hhonest.isObject]
      exact ⟨trivial, rfl, known, rfl, hhonest, Json.wf_of_parse hparse,
        Json.printable_of_parse hparse⟩

/-- **A key with the anchor from the signup is accepted**, whether it is pinned already or not. -/
theorem ensures_pinPublicKey_honest (hhome : home ≠ []) (h : HonestFile home tr w.files) {u : UInt64}
    {text text' : Kds.Bytes} (hsignup : signups u tr = [text])
    (ha : Kd.pinningAnchor text' = Kd.pinningAnchor text) (hvalid : validUtf8 text' = true) :
    (Kd.pinPublicKey home u text').Ensures (Kd.exec (fun _ => False) net) (fun _ => True) w
      fun x w' => x = .ok text' ∧ HonestFile home tr w'.files := by
  have hpath : Kd.knownKeysPath home = .ok (Kd.knownKeysFile home) := by
    rw [Kd.knownKeysPath, Kd.ensure, if_pos hhome]
    rfl
  obtain ⟨anchor, hanchor⟩ := Kd.exists_pinningAnchor text'
  rw [Kd.pinPublicKey, ensures_bind, ensures_ofExcept, hpath]
  refine ⟨trivial, ?_⟩
  simp only
  rw [ensures_bind]
  refine ensures_mono (ensures_readKnownKeys_honest h) ?_
  rintro _ _ ⟨rfl, known, rfl, hhonest, hwf, hprint⟩
  simp only
  rw [Kd.pinAgainst, ensures_bind, ensures_ofExcept, hanchor]
  refine ⟨trivial, ?_⟩
  simp only
  cases hpin : known.get? (decimal u.toNat) with
  | none =>
      obtain ⟨fileText, hfile⟩ :=
        Kd.exists_knownKeysText hprint u (Kd.validUtf8_pinningAnchor hvalid hanchor)
      simp only
      rw [ensures_bind]
      refine Kd.ensures_writeInPlace (fun _ _ => trivial) (fun t ht => ?_) (fun e herr => ?_) ?_
      · refine ⟨trivial, rfl, fun t' ht' => ?_⟩
        simp only [Function.update_self, Option.some.injEq] at ht'
        subst ht'
        exact hhonest.set hwf hsignup (ha ▸ hanchor) ht
      · rw [hfile] at herr
        cases herr
      · rintro ⟨o, ho⟩
        exact ho.elim
  | some pin =>
      obtain ⟨a, t, rfl, hsignup', ha'⟩ := hhonest.pin u pin hpin
      -- the pin is the anchor of the same signup
      cases hsignup.symm.trans hsignup'
      cases (ha' ▸ ha ▸ hanchor : Except.ok a = Except.ok anchor)
      simp only [Json.str?]
      rw [ensures_bind, ensures_ofExcept]
      refine ⟨trivial, ?_⟩
      simp only [Kd.orThrow, Option.elim_some]
      rw [ensures_bind, ensures_ofExcept]
      refine ⟨trivial, ?_⟩
      simp only [Kd.ensure, if_true]
      exact ⟨trivial, rfl, h⟩

end Pins

/-! ## The calls of one client -/

section Clients

open Prog

variable [Primitives] [FloatFormat] {cfg : Config} {tick : Clock → Clock → Prop} {home : Kds.Bytes}

/-- How a fetch ends: with what the server hands out, or there was no response or one of another
status. -/
def FetchEnd (client : Kd.Client UInt8) (tr : ServerTrace) (u : UInt64)
    (x : Except Kd.Exn Kds.Bytes) : Prop :=
  (∃ text', x = .ok text' ∧ GivesOut tr u text') ∨ x = .error (Kd.connectError client) ∨
    ∃ res : Kd.HttpResponse UInt8, res.status ≠ 200 ∧ x = .error (Kd.statusError res)

theorem HonestFile.append {clock : Clock} {tr tr' : ServerTrace} {w : ServerSystem}
    (hdoubt : cfg.inDoubt = false) (h : ServerRun cfg tick ⟨.initial clock, []⟩ (tr ++ tr') w)
    {fs : Files Kds.Bytes UInt8} (hfile : HonestFile home tr fs) : HonestFile home (tr ++ tr') fs := by
  intro text htext
  obtain ⟨known, hparse, hhonest⟩ := hfile text htext
  refine ⟨known, hparse, hhonest.isObject, fun u pin hpin => ?_⟩
  obtain ⟨anchor, t, rfl, hsignup, ha⟩ := hhonest.pin u pin hpin
  exact ⟨anchor, t, rfl, signups_append hdoubt h hsignup, ha⟩

theorem FetchEnd.append {clock : Clock} {tr tr' : ServerTrace} {w : ServerSystem}
    (hdoubt : cfg.inDoubt = false) (h : ServerRun cfg tick ⟨.initial clock, []⟩ (tr ++ tr') w)
    {client : Kd.Client UInt8} {u : UInt64} {x : Except Kd.Exn Kds.Bytes}
    (hend : FetchEnd client tr u x) :
    FetchEnd client (tr ++ tr') u x := by
  rcases hend with ⟨text', hx, hgives⟩ | hend
  · exact .inl ⟨text', hx, hgives.append hdoubt h⟩
  · exact .inr hend

omit [Primitives] in
/-- What the server hands out has the anchor of what the user published. -/
theorem GivesOut.anchor {tr : ServerTrace} {u : UInt64} {text' : Kds.Bytes} (h : GivesOut tr u text')
    (hid : Identified tr) : ∃ text, signups u tr = [text] ∧
      Kd.pinningAnchor text' = Kd.pinningAnchor text := by
  obtain ⟨text, ids, hsignup, -, hloses⟩ := h
  obtain ⟨p, hp⟩ := hid u text (hsignup ▸ List.mem_cons_self)
  exact ⟨text, hsignup, Kd.pinningAnchor_congr ((LosesAll.anchorFields hloses).trans hp) hp⟩

/-- **One call of `getPublicKey`**, against an honest server that works on meanwhile. -/
theorem ensures_getPublicKey_honest {client : Kd.Client UInt8} {w : Kd.World UInt8 Serving}
    {u : UInt64} (hdoubt : cfg.inDoubt = false) (hhome : home ≠ [])
    (hn : w.server.Reached cfg tick) (hfile : HonestFile home w.server.trace w.files) :
    (Kd.getPublicKey client home u).Ensures (Kd.exec (fun _ => False) (online cfg tick))
      (fun _ => True) w fun x v => Identified v.server.trace →
        HonestFile home v.server.trace v.files ∧ FetchEnd client v.server.trace u x := by
  rw [Kd.getPublicKey, ensures_bind, Kd.ensures_http]
  refine ⟨trivial, fun r n hnet => ⟨trivial, ?_⟩⟩
  obtain ⟨tr, htrace, hrun, hhandled⟩ := hnet
  obtain ⟨clock, hbefore⟩ := hn
  have hwhole := hbefore.append hrun
  have hfile' : HonestFile home n.trace w.files := htrace ▸ hfile.append hdoubt hwhole
  cases r with
  | none => exact ⟨trivial, fun _ => ⟨hfile', .inr (.inl rfl)⟩⟩
  | some res =>
      simp only
      by_cases hstatus : res.status = 200
      · obtain ⟨calls, hcalls⟩ := hhandled res rfl
        obtain ⟨text', hkey, hgives⟩ := givesOut_of_handled hdoubt ⟨clock, hbefore⟩ hcalls hstatus
        rw [← htrace] at hgives
        rw [if_pos hstatus, ensures_bind, ensures_ofExcept, hkey]
        refine ⟨trivial, ?_⟩
        simp only
        -- pinning is no business of the server
        have hfiles : (Kd.pinPublicKey home u text').Only fun o : Kd.Op UInt8 => ∃ f, o = .file f :=
          Kd.only_pinPublicKey (fun f _ => ⟨f, rfl⟩) u text'
        have hserver : (Kd.pinPublicKey home u text').Ensures
            (Kd.exec (fun _ => False) (online cfg tick)) (fun v => v.server = n) ⟨w.files, n⟩
            fun _ v => v.server = n := by
          refine hfiles.ensures_same Kd.World.server (fun o s r s' ho hexec => ?_) ⟨w.files, n⟩
          obtain ⟨f, rfl⟩ := ho
          obtain ⟨fs, -, rfl⟩ := hexec
          rfl
        by_cases hid : Identified n.trace
        · obtain ⟨text, hsignup, hanchor⟩ := hgives.anchor hid
          have hpin : (Kd.pinPublicKey home u text').Ensures
              (Kd.exec (fun _ => False) (online cfg tick)) (fun _ => True) ⟨w.files, n⟩
              fun x v => x = .ok text' ∧ HonestFile home n.trace v.files :=
            ensures_pinPublicKey_honest (w := ⟨w.files, n⟩) hhome hfile' hsignup hanchor
              (Kd.validUtf8_publicKeyOf hkey)
          refine ensures_mono (hpin.and (ensures_weaken hserver fun _ _ => trivial)) ?_
          rintro x v ⟨⟨rfl, hfile''⟩, hv⟩
          rw [hv]
          exact fun _ => ⟨hfile'', .inl ⟨text', rfl, hgives⟩⟩
        · refine ensures_mono (ensures_weaken hserver fun _ _ => trivial) fun x v hv => ?_
          rw [hv]
          exact fun h => absurd h hid
      · rw [if_neg hstatus]
        exact ⟨trivial, fun _ => ⟨hfile', .inr (.inr ⟨res, hstatus, rfl⟩)⟩⟩

/-- A fetch of a client, and how it ended. -/
structure Fetch where
  client : Kd.Client UInt8
  userId : UInt64
  outcome : Except Kd.Exn Kds.Bytes

variable (cfg tick home) in
/-- The fetches on one home directory, one after another; in between the server works on, and
so does the rest of the client on its other files. -/
inductive Fetches (w : Kd.World UInt8 Serving) : List Fetch → Kd.World UInt8 Serving → Prop where
  | nil : Fetches w [] w
  | fetch {log v v' client u x} (h : Fetches w log v)
      (hcall : (Kd.getPublicKey client home u).Runs (Kd.exec (fun _ => False) (online cfg tick)) v
        (some x) v') : Fetches w (log ++ [⟨client, u, x⟩]) v'
  | meanwhile {log v v' tr} (h : Fetches w log v) (htrace : v'.server.trace = v.server.trace ++ tr)
      (hrun : ServerRun cfg tick v.server.system tr v'.server.system)
      (hfile : v'.files (Kd.knownKeysFile home) = v.files (Kd.knownKeysFile home)) :
      Fetches w log v'

omit [Primitives] in
theorem Identified.of_append {tr tr' : ServerTrace} (h : Identified (tr ++ tr')) : Identified tr := by
  intro u text htext
  refine h u text ?_
  rw [signups, records_append]
  exact List.mem_append_left _ htext

/-- What holds all along. -/
theorem fetches_honest {w w' : Kd.World UInt8 Serving} {log : List Fetch}
    (hdoubt : cfg.inDoubt = false) (hhome : home ≠ []) (hn : w.server.Reached cfg tick)
    (hfirst : w.files (Kd.knownKeysFile home) = none)
    (h : Fetches cfg tick home w log w') : w'.server.Reached cfg tick ∧ (Identified w'.server.trace →
      HonestFile home w'.server.trace w'.files ∧
        ∀ c ∈ log, FetchEnd c.client w'.server.trace c.userId c.outcome) := by
  induction h with
  | nil =>
      refine ⟨hn, fun _ => ⟨fun text htext => ?_, by simp⟩⟩
      rw [hfirst] at htext
      cases htext
  | @fetch log v v' client u x _ hcall ih =>
      obtain ⟨⟨clock, hbefore⟩, hhonest⟩ := ih
      obtain ⟨tr, htrace, hrun⟩ := progress_of_runs hcall
      have hwhole := hbefore.append hrun
      refine ⟨⟨clock, by rwa [htrace]⟩, fun hid => ?_⟩
      obtain ⟨hpins, hends⟩ := hhonest (Identified.of_append (htrace ▸ hid))
      obtain ⟨hpins', hend⟩ :=
        (ensures_getPublicKey_honest hdoubt hhome ⟨clock, hbefore⟩ hpins).of_runs hcall hid
      refine ⟨hpins', fun c hc => ?_⟩
      rcases List.mem_append.mp hc with hc | hc
      · rw [htrace]
        exact (hends c hc).append hdoubt hwhole
      · rw [List.mem_singleton.mp hc]
        exact hend
  | @meanwhile log v v' tr _ htrace hrun hfile ih =>
      obtain ⟨⟨clock, hbefore⟩, hhonest⟩ := ih
      have hwhole := hbefore.append hrun
      rw [htrace]
      refine ⟨⟨clock, by rwa [htrace]⟩, fun hid => ?_⟩
      obtain ⟨hpins, hends⟩ := hhonest hid.of_append
      refine ⟨HonestFile.append hdoubt hwhole fun text htext => hpins text (hfile ▸ htext),
        fun c hc => ?_⟩
      exact (hends c hc).append hdoubt hwhole

/-- **Against an honest server the client never warns of a changed key.**  While users publish
bundles that name their keys, and the server takes prekeys out of them in any order, a client
that starts without pins, knows its home directory and has files that work gets for every fetch
what is left of the one bundle that the user published, or finds no server, or a response of
another status. -/
theorem no_false_alarm {w w' : Kd.World UInt8 Serving} {log : List Fetch}
    (hdoubt : cfg.inDoubt = false) (hhome : home ≠ []) (hn : w.server.Reached cfg tick)
    (hfirst : w.files (Kd.knownKeysFile home) = none)
    (hid : Identified w'.server.trace) (h : Fetches cfg tick home w log w') :
    ∀ c ∈ log, FetchEnd c.client w'.server.trace c.userId c.outcome :=
  ((fetches_honest hdoubt hhome hn hfirst h).2 hid).2

/-- What the users publish can be seen in the store. -/
theorem identified_of_users {clock : Clock} {tr : ServerTrace} {w : ServerSystem}
    (hdoubt : cfg.inDoubt = false) (h : ServerRun cfg tick ⟨.initial clock, []⟩ tr w)
    (hall : ∀ row ∈ w.state.store.users, (Kd.anchorFields row.publicKey).isSome = true) :
    Identified tr := by
  intro u text htext
  have hhistory := bundle_history hdoubt h u
  cases hbundle : Database.getUserPublicKey w.state.store u with
  | none =>
      rw [hbundle] at hhistory
      generalize signups u tr = texts at hhistory htext
      generalize takenKeys u tr = ids at hhistory
      cases hhistory
      cases htext
  | some text' =>
      rw [hbundle] at hhistory
      generalize signups u tr = texts at hhistory htext
      generalize takenKeys u tr = ids at hhistory
      cases hhistory with
      | some hloses =>
          obtain ⟨row, hrow, rfl⟩ := Option.map_eq_some_iff.mp hbundle
          rw [List.mem_singleton.mp htext, ← LosesAll.anchorFields hloses]
          exact Option.isSome_iff_exists.mp (hall row (List.mem_of_find?_eq_some hrow))

end Clients

/-! ## A bundle that is fetched after it has lost a prekey -/

/-- A bundle that names two keys and offers one prekey. -/
def namedBundle (preKeyId : UInt64) : Kds.Bytes :=
  exampleBody [("identityKey", .str (bytes "ik")), ("signingKey", .str (bytes "sk")),
    ("oneTimePreKeys", .arr [.mkObj [("id", .unsigned preKeyId)]])]

/-- Alice sends Bob a message under the prekey he offers. -/
def fetchSession : List Request :=
  [exampleSignup "alice" (namedBundle 7), exampleSignup "bob" (namedBundle 5),
    examplePost aliceToken "/conversations" [("name", .str (bytes "team")),
      ("participantIds", .arr [.unsigned 1, .unsigned 2])],
    examplePost aliceToken "/conversations/1/messages" [("senderId", .unsigned 1),
      ("payload", .str (exampleBody [("oneTimePreKeyId", .unsigned 5)])),
      ("recipientId", .unsigned 2)]]

/-- The server then. -/
def fetchState : ServerState :=
  (@session examplePrimitives plainFloats exampleConfig (.initial 1000000) fetchSession).2

theorem reached_fetchState : ∃ n : Serving, n.system.state = fetchState ∧
    @Serving.Reached examplePrimitives plainFloats exampleConfig (fun _ _ => True) n := by
  obtain ⟨tr, hrun, -, -⟩ := @run_session examplePrimitives plainFloats exampleConfig
    (fun _ _ => True) fetchSession (.initial 1000000) []
  rw [← fetchState] at hrun
  let _ := examplePrimitives
  let _ := plainFloats
  exact Serving.exists_reached hrun

/-- Alice fetches Bob's bundle, which is not the one he published any more. -/
theorem no_false_alarm_example : letI := examplePrimitives; letI := plainFloats;
    ∃ (client : Kd.Client UInt8) (w w' : Kd.World UInt8 Serving) (text' : Kds.Bytes),
      Fetches exampleConfig (fun _ _ => True) (bytes "/home/a") w [⟨client, 2, .ok text'⟩] w' ∧
        GivesOut w'.server.trace 2 text' ∧ text' ≠ namedBundle 5 := by
  let _ := examplePrimitives
  let _ := plainFloats
  let client : Kd.Client UInt8 := ⟨bytes "http://localhost", [], aliceToken⟩
  let req : Kd.HttpRequest UInt8 := ⟨bytes "GET",
    bytes "/users/" ++ decimal (2 : UInt64).toNat ++ bytes "/public-key", aliceToken, []⟩
  obtain ⟨n, hstate, hn⟩ := reached_fetchState
  have hserve : ∃ res, (serveOne exampleConfig fetchState (received req [])).1 = some res ∧
      (∃ text', Kd.supplied (some (⟨res.status, res.body⟩ : Kd.HttpResponse UInt8)) = some text' ∧
        text' ≠ namedBundle 5) ∧
      ∀ row ∈ (serveOne exampleConfig fetchState (received req [])).2.store.users,
        (Kd.anchorFields row.publicKey).isSome = true := by
    have hall : (((serveOne exampleConfig fetchState (received req [])).1.bind fun res =>
        Kd.supplied (some (⟨res.status, res.body⟩ : Kd.HttpResponse UInt8))).filter
          fun key => key ≠ namedBundle 5).isSome ∧
      ∀ row ∈ (serveOne exampleConfig fetchState (received req [])).2.store.users,
        (Kd.anchorFields row.publicKey).isSome = true := by
      decide +kernel
    obtain ⟨text', htext'⟩ := Option.isSome_iff_exists.mp hall.1
    obtain ⟨hbind, hne⟩ := Option.filter_eq_some_iff.mp htext'
    obtain ⟨res, hres, hsupplied⟩ := Option.bind_eq_some_iff.mp hbind
    exact ⟨res, hres, ⟨text', hsupplied, of_decide_eq_true hne⟩, hall.2⟩
  obtain ⟨res, hres, ⟨text', hsupplied, hne⟩, husers⟩ := hserve
  rw [← hstate] at hres husers
  obtain ⟨n', honline, hstate'⟩ := @online_of_serveOne _ _ _ (fun _ _ => True) _ _ _ hres
  obtain ⟨x, w', honce, hcall, hserver⟩ :=
    exists_runs_once honline (Kd.getPublicKey client (bytes "/home/a") 2) fun _ => none
  -- the first key that is supplied is pinned and returned
  obtain rfl : x = .ok text' :=
    (Kd.ensures_getPublicKey_first (w := ⟨fun _ => none, n⟩) (by decide) rfl hsupplied
      fun r m hnet => (hnet.1 ⟨rfl, rfl⟩).1).of_runs honce
  have hfetches := Fetches.nil.fetch (w := ⟨fun _ => none, n⟩) hcall
  have hid : Identified w'.server.trace := by
    obtain ⟨tr, htrace, hrun, -⟩ := honline
    obtain ⟨clock, hbefore⟩ := hn
    have hid' : Identified (n.trace ++ tr) :=
      identified_of_users rfl (hbefore.append hrun) (hstate' ▸ husers)
    rcases hserver with hserver | hserver
    · rw [hserver]
      exact hid'.of_append
    · rw [hserver, htrace]
      exact hid'
  have hend := no_false_alarm rfl (by decide) hn rfl hid hfetches _ List.mem_cons_self
  rcases hend with ⟨text, heq, hgives⟩ | hno | ⟨other, -, hno⟩
  · cases heq
    exact ⟨client, _, w', text', hfetches, hgives, hne⟩
  · cases hno
  · cases hno

end Protocol
