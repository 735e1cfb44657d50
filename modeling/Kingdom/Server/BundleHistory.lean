import Kingdom.Server.PreKeys

/-!
# The history of a bundle

What the server tells of a user is what the user published at the signup, without the
entries of the one-time prekeys that stored messages took out of it since.

* `signups`, `takenKeys` — the bundles a run publishes for a user, and the prekeys it takes
  out of them.
* `LosesAll` — a bundle loses the entries of some prekeys, one id at a time.
* `BundleStep`, `bundle_step` — what a step does to the bundle of a user.
* `bundle_history` — the bundle of a user is what its history says.
* `offered_iff` — which prekeys a user still offers, and that none is taken twice.
* `fetched_history` — what `getUserPublicKey` has answered.
-/

namespace Kds

open Codec Process

/-! ## What a run says of a user -/

/-- The bundle a call publishes for the user `r`. -/
def signupOf (r : UInt64) : (o : Op) → Res o → Option Bytes
  | .createUser _ _ publicKey, .ok id => if id = r then some publicKey else none
  | _, _ => none

/-- The one-time prekey of the user `r` that a call takes: someone else has stored a message
for `r` under it. -/
def takenOf (r : UInt64) : (o : Op) → Res o → Option UInt64
  | .createMessage _ sender _ _ recipient preKey, .ok _ =>
      if recipient = some r ∧ r ≠ sender then preKey else none
  | _, _ => none

/-- The bundles that were published for `r`. -/
def signups (r : UInt64) (tr : ServerTrace) : List Bytes := records (signupOf r) tr

/-- The prekeys of `r` that were taken, in order. -/
def takenKeys (r : UInt64) (tr : ServerTrace) : List UInt64 := records (takenOf r) tr

section History

variable [FloatFormat]

/-- The bundle loses the entries of these prekeys, each of which it offers until then. -/
inductive LosesAll : List UInt64 → Bytes → Bytes → Prop where
  | nil {text} : LosesAll [] text text
  | snoc {ids k text text' text''} (h : LosesAll ids text text') (hoffers : PublishedOffers k text')
      (hdrops : Drops k text' text'') : LosesAll (ids ++ [k]) text text''

/-- What is offered after the losses: what was offered before and is not among them. -/
theorem LosesAll.offers_iff {ids : List UInt64} {text text' : Bytes} (h : LosesAll ids text text')
    {k : UInt64} : PublishedOffers k text' ↔ PublishedOffers k text ∧ k ∉ ids := by
  induction h with
  | nil => simp
  | @snoc ids j text t text' hloses hoffers hdrops ih =>
      rw [List.mem_append, List.mem_singleton, not_or, ← and_assoc, ← ih]
      constructor
      · intro hk
        refine ⟨hdrops.offers hk, ?_⟩
        rintro rfl
        exact hdrops.not_offers hk
      · rintro ⟨hk, hne⟩
        exact hdrops.offers_other hne hk

/-- Nothing is lost twice, and only what was offered is lost. -/
theorem LosesAll.nodup {ids : List UInt64} {text text' : Bytes} (h : LosesAll ids text text') :
    ids.Nodup ∧ ∀ k ∈ ids, PublishedOffers k text := by
  induction h with
  | nil => simp
  | @snoc ids j text t text' hloses hoffers hdrops ih =>
      obtain ⟨hnodup, hall⟩ := ih
      obtain ⟨hj, hnot⟩ := hloses.offers_iff.mp hoffers
      refine ⟨?_, ?_⟩
      · rw [List.nodup_append_comm]
        exact List.nodup_cons.mpr ⟨hnot, hnodup⟩
      · intro k hk
        rcases List.mem_append.mp hk with hk | hk
        · exact hall k hk
        · rw [List.mem_singleton.mp hk]
          exact hj

/-! ## One step -/

/-- What a step may do to the bundle of the user `r`. -/
inductive BundleStep (r : UInt64) (l : Label Op Res Task) : Option Bytes → Option Bytes → Prop where
  | same {bundle} (hsignup : l.record (signupOf r) = none) (htaken : l.record (takenOf r) = none) :
      BundleStep r l bundle bundle
  | published {text} (hsignup : l.record (signupOf r) = some text)
      (htaken : l.record (takenOf r) = none) :
      BundleStep r l none (some text)
  | drops {k text text'} (hsignup : l.record (signupOf r) = none)
      (htaken : l.record (takenOf r) = some k)
      (hoffers : PublishedOffers k text) (hdrops : Drops k text text') :
      BundleStep r l (some text) (some text')

omit [FloatFormat] in
/-- No user has an id that was not handed out. -/
theorem getUserPublicKey_fresh {st : Store} (h : StoreInv st) {id : UInt64}
    (hid : nextval st.userSeq = .ok (bigint id)) : Database.getUserPublicKey st id = none := by
  rw [Database.getUserPublicKey, Option.map_eq_none_iff, List.find?_eq_none]
  intro u hu heq
  have hnodup := (h.userIds.append hid).nodup
  rw [List.nodup_append_comm] at hnodup
  refine (List.nodup_cons.mp hnodup).1 (List.mem_map.mpr ⟨u, hu, ?_⟩)
  simpa using heq

omit [FloatFormat] in
theorem getUserPublicKey_of_users {st st' : Store} (h : st'.users = st.users) {r : UInt64} :
    Database.getUserPublicKey st' r = Database.getUserPublicKey st r := by
  rw [Database.getUserPublicKey, h, Database.getUserPublicKey]

/-- Users are only written by `createUser` and `createMessage`. -/
theorem users_of_call {cfg : Config} {o : Op} {res : Res o} {s s' : ServerState}
    (h : exec cfg o s res s') (huser : ∀ username hash key, o ≠ .createUser username hash key)
    (hmessage : ∀ c sender payload timestamp recipient preKey,
      o ≠ .createMessage c sender payload timestamp recipient preKey) :
    s'.store.users = s.store.users := by
  rcases exec_store h with heq | ⟨res', hwrote, -⟩
  · rw [heq]
  · cases hwrote with
    | createUser => exact (huser _ _ _ rfl).elim
    | createMessage => exact (hmessage _ _ _ _ _ _ rfl).elim
    | createConversation hc => rw [(createConversation_ok hc).2.2]
    | deleteMessage hd => exact congrArg (fun x => x.2.users) hd.symm
    | revokeMessageAccess hv => exact congrArg (fun x => x.2.users) hv.symm
    | updateMessageBlockchainDigest hd => rw [← hd, Database.updateMessageBlockchainDigest]

/-- **A call publishes the first bundle of a user, takes one prekey out of it or leaves it.** -/
theorem bundle_call {cfg : Config} {o : Op} {res : Res o} {s s' : ServerState} {r : UInt64} {i : Nat}
    (hdoubt : cfg.inDoubt = false) (hinv : StoreInv s.store) (h : exec cfg o s res s') :
    BundleStep r (.call i o res)
      (Database.getUserPublicKey s.store r) (Database.getUserPublicKey s'.store r) := by
  cases o with
  | createUser username hash publicKey =>
      cases res with
      | error e =>
          rw [Transaction.of_throw hdoubt h]
          exact .same rfl rfl
      | ok id =>
          obtain ⟨hid, -, hstore⟩ := createUser_ok (Transaction.of_ok h).1
          have hfresh := getUserPublicKey_fresh hinv hid
          have hnew : Database.getUserPublicKey s'.store r =
              (Database.getUserPublicKey s.store r).or (if id = r then some publicKey else none) := by
            rw [hstore, Database.getUserPublicKey, List.find?_append, Option.map_or]
            by_cases hr : id = r
            · simp [Database.getUserPublicKey, hr]
            · have hne : bigint id ≠ bigint r := fun heq => hr (bigint_inj.mp heq)
              simp [Database.getUserPublicKey, hr, hne]
          rw [hnew]
          by_cases hr : id = r
          · subst hr
            rw [hfresh, if_pos rfl, Option.none_or]
            exact .published (by simp [Label.record, signupOf]) rfl
          · rw [if_neg hr, Option.or_none]
            exact .same (by simp [Label.record, signupOf, hr]) rfl
  | createMessage c sender payload timestamp recipient preKey =>
      cases res with
      | error e =>
          rw [Transaction.of_throw hdoubt h]
          exact .same rfl rfl
      | ok m =>
          obtain ⟨t, hconsume, -, -, hstore⟩ := createMessage_ok (Transaction.of_ok h).1
          have hkey : Database.getUserPublicKey s'.store r = Database.getUserPublicKey t r := by
            rw [hstore]
            rfl
          rw [hkey]
          rcases consumeForMessage_drops hconsume with
            ⟨u, k, old, new, rfl, rfl, hne, hold, rfl, hdrops, hoffers⟩ | ⟨hnone, rfl⟩
          · rw [getUserPublicKey_setPublicKey]
            by_cases hr : r = u
            · subst hr
              rw [if_pos rfl, hold]
              exact .drops rfl (by simp [Label.record, takenOf, hne]) hoffers hdrops
            · rw [if_neg hr]
              exact .same rfl (by simp [Label.record, takenOf, Ne.symm hr])
          · refine .same rfl ?_
            rw [Label.record, takenOf]
            split_ifs with hr
            · exact hnone r hr.1 hr.2
            · rfl
  | _ =>
      rw [getUserPublicKey_of_users (users_of_call h (by simp) (by simp))]
      exact .same rfl rfl

/-! ## Every run -/

variable [Primitives] {cfg : Config} {tick : Clock → Clock → Prop} {w w' : ServerSystem} {r : UInt64}

/-- **A step does no more to a bundle than its call says.** -/
theorem bundle_step {l : Label Op Res Task} (hdoubt : cfg.inDoubt = false)
    (hinv : StoreInv w.state.store) (h : ServerStep cfg tick w l w') :
    BundleStep r l (Database.getUserPublicKey w.state.store r)
      (Database.getUserPublicKey w'.state.store r) := by
  cases h with
  | start t => exact .same rfl rfl
  | call hget hexec => exact bundle_call hdoubt hinv hexec
  | env henv => cases henv <;> exact .same rfl rfl
  | @restart s s' ths hrestart =>
      rw [show s' = restartServer s from hrestart]
      exact .same rfl rfl

/-- What the server tells of a user, by the bundles that were published for the user and the
prekeys that were taken since. -/
inductive BundleOf : List Bytes → List UInt64 → Option Bytes → Prop where
  | none : BundleOf [] [] none
  | some {ids text text'} (h : LosesAll ids text text') : BundleOf [text] ids (some text')

/-- **The bundle of a user is what its history says**: a user signs up once, and the bundle is
the one from the signup, without the prekeys that messages were stored under since. -/
theorem bundle_history {clock : Clock} {tr : ServerTrace} (hdoubt : cfg.inDoubt = false)
    (h : ServerRun cfg tick ⟨.initial clock, []⟩ tr w) (r : UInt64) :
    BundleOf (signups r tr) (takenKeys r tr) (Database.getUserPublicKey w.state.store r) := by
  induction h with
  | nil => exact .none
  | @snoc tr v l u hrun hstep ih =>
      have hone := bundle_step (r := r) hdoubt (sound_of_run storeInv_empty hrun).1 hstep
      rw [signups, takenKeys, records_snoc, records_snoc, ← signups, ← takenKeys]
      generalize Database.getUserPublicKey v.state.store r = old at ih hone
      generalize Database.getUserPublicKey u.state.store r = new at hone ⊢
      generalize signups r tr = texts at ih ⊢
      generalize takenKeys r tr = ids at ih ⊢
      cases hone with
      | same hsignup htaken => simpa [hsignup, htaken] using ih
      | published hsignup htaken =>
          cases ih with
          | none => simpa [hsignup, htaken] using .some .nil
      | drops hsignup htaken hoffers hdrops =>
          cases ih with
          | some hloses => simpa [hsignup, htaken] using .some (hloses.snoc hoffers hdrops)

/-- **No prekey is given out twice**: the prekeys of a user that were taken were all published
at the signup, each was taken once, and the others are still offered. -/
theorem offered_iff {clock : Clock} {tr : ServerTrace} (hdoubt : cfg.inDoubt = false)
    (h : ServerRun cfg tick ⟨.initial clock, []⟩ tr w) {text : Bytes} (htext : text ∈ signups r tr) :
    (takenKeys r tr).Nodup ∧ (∀ k ∈ takenKeys r tr, PublishedOffers k text) ∧
      ∀ k, Offered r k w.state.store ↔ PublishedOffers k text ∧ k ∉ takenKeys r tr := by
  have hhistory := bundle_history hdoubt h r
  unfold Offered
  generalize Database.getUserPublicKey w.state.store r = bundle at hhistory ⊢
  generalize signups r tr = texts at hhistory htext
  generalize takenKeys r tr = ids at hhistory ⊢
  cases hhistory with
  | none => cases htext
  | some hloses =>
      rw [List.mem_singleton.mp htext]
      refine ⟨hloses.nodup.1, hloses.nodup.2, fun k => ?_⟩
      rw [← hloses.offers_iff]
      simp

/-- A call of `getUserPublicKey` for `r` answers this. -/
def Fetched (r : UInt64) (bundle : Option Bytes) : (o : Op) → Res o → Prop
  | .getUserPublicKey u, .ok text => u = r ∧ text = bundle
  | _, _ => False

/-- **Every answer about a bundle is what the history says at that time.** -/
theorem fetched_history {clock : Clock} {before after : ServerTrace} {v : ServerSystem}
    {l : Label Op Res Task} {bundle : Option Bytes} (hdoubt : cfg.inDoubt = false)
    (h : ServerRun cfg tick ⟨.initial clock, []⟩ (before ++ (v, l) :: after) w)
    (hl : l.IsCall (Fetched r bundle)) : BundleOf (signups r before) (takenKeys r before) bundle := by
  obtain ⟨v', hbefore, hstep, -⟩ := Run.split h
  cases hstep with
  | @call s s' ths i t past o k res hget hexec =>
      cases o with
      | getUserPublicKey u =>
          cases res with
          | error e => exact hl.elim
          | ok text =>
              obtain ⟨rfl, rfl⟩ := hl
              rcases hexec.2 with hread | ⟨what, hread⟩
              · cases hread
                exact bundle_history hdoubt hbefore u
              · cases hread
      | _ => exact hl.elim
  | _ => exact hl.elim

end History

/-! ## The session that uses up a prekey -/

/-- Bob publishes the prekey, and the message takes it. -/
theorem preKeySession_eval : letI := examplePrimitives; letI := plainFloats;
    sessionCalls exampleConfig (fun _ o res => signupOf 2 o res = some (exampleBundle 5))
        (.initial 1000000) preKeySession = true ∧
      sessionCalls exampleConfig (fun _ o res => takenOf 2 o res = some 5) (.initial 1000000)
        preKeySession = true := by
  decide +kernel

/-- Bob offers prekey 5 at his signup, and not after the message that takes it. -/
theorem offered_iff_example : letI := examplePrimitives; letI := plainFloats;
    ∃ tr w, ServerRun exampleConfig (· ≤ ·) ⟨.initial 1000000, []⟩ tr w ∧
      exampleBundle 5 ∈ signups 2 tr ∧ 5 ∈ takenKeys 2 tr ∧ (takenKeys 2 tr).Nodup ∧
      PublishedOffers 5 (exampleBundle 5) ∧ ¬ Offered 2 5 w.state.store := by
  let _ := examplePrimitives
  let _ := plainFloats
  obtain ⟨hsigns, htakes⟩ := preKeySession_eval
  obtain ⟨tr, hrun, -, hcalls⟩ := run_session preKeySession (.initial 1000000) []
  have hsignup : exampleBundle 5 ∈ signups 2 tr := mem_records.mpr ((hcalls _).mp hsigns)
  have htaken : 5 ∈ takenKeys 2 tr := mem_records.mpr ((hcalls _).mp htakes)
  obtain ⟨hnodup, hall, hiff⟩ := offered_iff rfl hrun hsignup
  refine ⟨tr, _, hrun, hsignup, htaken, hnodup, hall 5 htaken, ?_⟩
  intro hoffered
  exact ((hiff 5).mp hoffered).2 htaken

end Kds
