import Kingdom.Client.PreKeyUse
import Kingdom.Protocol.Delivery

/-!
# Prekeys the server takes and prekeys the recipient uses

The server takes a one-time prekey out of a bundle when it stores a message, and the
recipient erases one when it decrypts the message.  Both read its id from the payload,
each with a reader of its own.

* `Takes` — the client's reader: `decryptMessage` takes the prekey with this id.
* `Covered` — the request names its recipient, and the server's reader reads the id.
* `StoredBy` — the transaction of a request that was answered 201.
* `Erases` — a message of a run makes its recipient erase a prekey.
* `prekey_consumed` — a transaction takes the prekey exactly when it is covered, and in
  a run of covered messages no bundle offers a prekey that was erased.
-/

namespace Protocol

open Codec Kd Process

section Readers

variable [FloatFormat]

/-- The selection of `decryptMessage` takes the prekey with this id, from a recipient
who has it. -/
def Takes (payload : Kds.Bytes) (k : UInt64) : Prop :=
  ∃ j keys key, parseJson payload "message payload" = .ok j ∧
    selectOneTimePreKey j keys = .ok (some key) ∧ key.id = k

/-- The client takes any number for an id. -/
theorem takes_iff {payload : Kds.Bytes} {k : UInt64} : Takes payload k ↔
    ∃ j v, Json.parse payload = some j ∧ j.get? (bytes "oneTimePreKeyId") = some v ∧
      v.uint64? = some k := by
  constructor
  · rintro ⟨j, keys, key, hj, hselect, rfl⟩
    obtain ⟨v, id, hv, hnames, rfl, -⟩ := selectOneTimePreKey_ok.mp hselect
    exact ⟨j, v, (parseJson_ok.mp hj).1, hv, hnames⟩
  · rintro ⟨j, v, hj, hv, hk⟩
    have hfound : ∀ key ∈ some (⟨k, [], []⟩ : LocalPreKey UInt8),
        [⟨k, [], []⟩].find? (fun x => x.id = key.id) = some key := by
      rintro _ ⟨⟩
      simp
    exact ⟨j, [⟨k, [], []⟩], ⟨k, [], []⟩, parseJson_ok.mpr ⟨hj, Json.isObject_of_get? hv⟩,
      selectOneTimePreKey_ok.mpr ⟨v, some k, hv, hk, rfl, hfound⟩, rfl⟩

/-- The server reads an id only where the client reads the same one. -/
theorem takes_of_read {payload : Kds.Bytes} {k : UInt64}
    (h : Kds.oneTimePreKeyIdFromPayload payload = some k) : Takes payload k := by
  obtain ⟨v, hv, hread⟩ := Option.bind_eq_some_iff.mp h
  obtain ⟨j, hj, hv⟩ := Option.bind_eq_some_iff.mp hv
  refine takes_iff.mpr ⟨j, v, hj, hv, ?_⟩
  split_ifs at hread
  exact hread

/-- A payload names one prekey. -/
theorem Takes.unique {payload : Kds.Bytes} {k k' : UInt64} (h : Takes payload k)
    (h' : Takes payload k') : k = k' := by
  obtain ⟨j, v, hj, hv, hk⟩ := takes_iff.mp h
  obtain ⟨j', v', hj', hv', hk'⟩ := takes_iff.mp h'
  rw [hj] at hj'
  cases hj'
  rw [hv] at hv'
  cases hv'
  rw [hk] at hk'
  exact Option.some.inj hk'

/-- A message that opens under a prekey takes it. -/
theorem takes_of_openMessage [Crypto UInt8] {payload senderBundle plaintext : Kds.Bytes}
    {recipient : LocalIdentityKey UInt8} {conversationId senderId recipientId k : UInt64}
    (h : openMessage payload recipient senderBundle conversationId senderId recipientId =
      .ok (plaintext, some k)) : Takes payload k := by
  obtain ⟨hid, -⟩ := openMessage_preKey h
  simp only [Kd.oneTimePreKeyIdFromPayload, bind_ok] at hid
  obtain ⟨j, hj, hid⟩ := hid
  split at hid
  · cases hid
  · cases hid
  · rename_i v _ hv
    simp only [bind_ok, getUInt64_ok, pure_ok] at hid
    obtain ⟨id, hread, heq⟩ := hid
    cases heq
    exact takes_iff.mpr ⟨j, v, (parseJson_ok.mp hj).1, hv, hread⟩

/-- The request names the recipient, and the payload writes the id as an unsigned
integer. -/
structure Covered (recipientId : Option UInt64) (payload : Kds.Bytes) (r k : UInt64) : Prop where
  recipient : recipientId = some r
  unsigned : Kds.oneTimePreKeyIdFromPayload payload = some k

end Readers

/-! ## Messages of a run -/

section Runs

variable [FloatFormat]

/-- The transaction of a create-message request. -/
structure StoredBy (req : Kds.Request) (conv : Kds.Bytes) (past : Kds.Events) (c : UInt64)
    (f : Kds.MessageFields) (s s' : Kds.ServerState) : Prop where
  conversation : Kds.parseId conv = some c
  fields : f.Of req.body
  event : ∃ timestamp m,
    (⟨.createMessage c f.senderId f.payload timestamp f.recipientId
      (Kds.oneTimePreKeyIdFromPayload f.payload), .ok m, s, s'⟩ : Event Kds.Op Kds.Res
        Kds.ServerState) ∈ past

/-- The call stores a message that `decryptMessage` opens for the participant `r` with its
prekey `k`, given some of the keys that `r` holds; it erases the prekey then. -/
def Opened [Crypto UInt8] (held : UInt64 → LocalIdentityKey UInt8 → Prop) (s : Kds.Store)
    (r k : UInt64) : (o : Kds.Op) → Kds.Res o → Prop
  | .createMessage c sender payload _ _ _, .ok _ =>
      Kds.Database.isParticipant s c r = true ∧
        ∃ keys senderBundle plaintext, held r keys ∧
          openMessage payload keys senderBundle c sender r = .ok (plaintext, some k)
  | _, _ => False

/-- A message of the run makes `r` erase its prekey `k`. -/
def Erases [Crypto UInt8] (held : UInt64 → LocalIdentityKey UInt8 → Prop) (tr : Kds.ServerTrace)
    (r k : UInt64) : Prop :=
  ∃ x ∈ tr, x.2.IsCall (Opened held x.1.state.store r k)

/-- A message is covered for everyone it makes erase a prekey, and its sender is not one of
them. -/
def CoversOpened [Crypto UInt8] (held : UInt64 → LocalIdentityKey UInt8 → Prop) (s : Kds.Store) :
    (o : Kds.Op) → Kds.Res o → Prop
  | .createMessage c sender payload timestamp recipient preKey, .ok m =>
      ∀ r k, Opened held s r k (.createMessage c sender payload timestamp recipient preKey) (.ok m) →
        r ≠ sender ∧ Covered recipient payload r k
  | _, _ => True

variable [Kds.Primitives] [Crypto UInt8] {cfg : Kds.Config} {tick : Kds.Clock → Kds.Clock → Prop}
  {clock : Kds.Clock} {tr : Kds.ServerTrace} {w : Kds.ServerSystem}
  {held : UInt64 → LocalIdentityKey UInt8 → Prop}

omit [Crypto UInt8] in
/-- A request that was answered 201 has stored a message. -/
theorem storedBy_of_answered (h : Kds.ServerRun cfg tick ⟨.initial clock, []⟩ tr w)
    {th : Thread Kds.Op Kds.Res Kds.Exn Kds.ServerState (Option Kds.Response) Kds.Task}
    {req : Kds.Request} {seen conv : Kds.Bytes} {res : Kds.Response} (hth : th ∈ w.threads)
    (htask : th.task = .request req seen) (hdone : th.prog = .pure (some res))
    (hroute : Kds.endpointOf req.method req.path = some (.createMessage conv))
    (hstatus : res.status = 201) : ∃ c f s s', StoredBy req conv th.past c f s s' := by
  obtain ⟨-, hpost⟩ := Contract.post_of_done (Kds.sound_of_run Kds.storeInv_empty h) hth hdone
  rw [htask] at hpost
  have hanswered := hpost res rfl
  simp only [Kds.Answered, hroute] at hanswered
  obtain ⟨c, f, timestamp, m, hc, hf, -, s, s', hmem⟩ := hanswered hstatus
  exact ⟨c, f, s, s', hc, hf, timestamp, m, hmem⟩

omit [Crypto UInt8] in
/-- **The transaction takes the prekey of another user exactly when it is covered.** -/
theorem StoredBy.losesPreKey (h : Kds.ServerRun cfg tick ⟨.initial clock, []⟩ tr w)
    {th : Thread Kds.Op Kds.Res Kds.Exn Kds.ServerState (Option Kds.Response) Kds.Task}
    (hth : th ∈ w.threads) {req : Kds.Request} {conv : Kds.Bytes} {c : UInt64}
    {f : Kds.MessageFields} {s s' : Kds.ServerState} (hstored : StoredBy req conv th.past c f s s')
    {r k : UInt64} (hne : r ≠ f.senderId) :
    Kds.LosesPreKey r k s.store s'.store ↔ Covered f.recipientId f.payload r k := by
  obtain ⟨timestamp, m, hmem⟩ := hstored.event
  have hpast := ((Kds.sound_of_run Kds.storeInv_empty h).2 th hth).1
  obtain ⟨-, hexec, -⟩ := hpast.2 _ hmem
  rw [Kds.losesPreKey_createMessage hne (Kds.Transaction.of_ok hexec).1]
  exact ⟨fun hcovered => ⟨hcovered.1, hcovered.2⟩, fun hcovered => ⟨hcovered.1, hcovered.2⟩⟩

/-- In a run of covered messages, what is erased is not offered. -/
theorem not_offered_of_erases (h : Kds.ServerRun cfg tick ⟨.initial clock, []⟩ tr w)
    (hcovers : ∀ x ∈ tr, ∀ i o res, x.2 = .call i o res → CoversOpened held x.1.state.store o res)
    {r k : UInt64} (herases : Erases held tr r k) : ¬ Kds.Offered r k w.state.store := by
  obtain ⟨⟨v, l⟩, hx, hcall⟩ := herases
  refine Kds.not_offered_of_stored h ⟨_, hx, ?_⟩
  cases l with
  | call i o res =>
      have hcovered := hcovers _ hx i o res rfl
      cases o with
      | createMessage c sender payload timestamp recipient preKey =>
          cases res with
          | error e => exact hcall.elim
          | ok m =>
              obtain ⟨hne, hrecipient, hunsigned⟩ := hcovered r k hcall
              exact ⟨hrecipient, hne, hunsigned⟩
      | _ => exact hcall.elim
  | _ => exact hcall.elim

/-- **A prekey a recipient will use is taken out of its bundle exactly when the request
names the recipient and the payload writes the id as an unsigned integer**: this holds of
every request that was answered 201.  While all messages are so covered for the keys that the
participants hold, no bundle offers a prekey that its owner has erased. -/
theorem prekey_consumed (h : Kds.ServerRun cfg tick ⟨.initial clock, []⟩ tr w) :
    (∀ th ∈ w.threads, ∀ req seen conv res, th.task = .request req seen →
      th.prog = .pure (some res) →
      Kds.endpointOf req.method req.path = some (.createMessage conv) → res.status = 201 →
      ∃ c f s s', StoredBy req conv th.past c f s s' ∧
        ∀ r k, r ≠ f.senderId → Kds.Database.isParticipant s.store c r = true →
          Takes f.payload k →
          (Kds.LosesPreKey r k s.store s'.store ↔ Covered f.recipientId f.payload r k)) ∧
    (∀ held : UInt64 → LocalIdentityKey UInt8 → Prop,
      (∀ x ∈ tr, ∀ i o res, x.2 = .call i o res → CoversOpened held x.1.state.store o res) →
      ∀ r k, Erases held tr r k → ¬ Kds.Offered r k w.state.store) := by
  constructor
  · intro th hth req seen conv res htask hdone hroute hstatus
    obtain ⟨c, f, s, s', hstored⟩ := storedBy_of_answered h hth htask hdone hroute hstatus
    exact ⟨c, f, s, s', hstored, fun r k hne _ _ => hstored.losesPreKey h hth hne⟩
  · intro held hcovers r k herases
    exact not_offered_of_erases h hcovers herases

end Runs

/-! ## A session that stores two messages under one prekey -/

section Examples

/-- Post a message that names Bob's prekey 5. -/
def preKeyMessage (recipient : List (String × Json UInt8)) : Kds.Request :=
  Kds.examplePost Kds.aliceToken "/conversations/1/messages" ([("senderId", .unsigned 1),
    ("payload", .str (Kds.exampleBody [("oneTimePreKeyId", .unsigned 5)]))] ++ recipient)

/-- Alice and Bob share a conversation; Alice sends a message under Bob's prekey without
naming him, and another that names him. -/
def consumptionSession : List Kds.Request :=
  [Kds.exampleSignup "alice" (bytes "a"), Kds.exampleSignup "bob" (Kds.exampleBundle 5),
    Kds.examplePost Kds.aliceToken "/conversations" [("name", .str (bytes "team")),
      ("participantIds", .arr [.unsigned 1, .unsigned 2])],
    preKeyMessage [], preKeyMessage [("recipientId", .unsigned 2)]]

/-- The status a request was answered with, and whether Bob was in the conversation at each
of its calls. -/
def statusOf (th : Thread Kds.Op Kds.Res Kds.Exn Kds.ServerState (Option Kds.Response) Kds.Task) :
    Nat × Bool :=
  (match th.prog with
    | .pure (some res) => res.status
    | _ => 0, th.past.all fun e => Kds.Database.isParticipant e.pre.store 1 2)

theorem consumptionSession_status : ((@Kds.sessionThreads Kds.examplePrimitives plainFloats
    Kds.exampleConfig (.initial 1000000) consumptionSession).drop 3).map statusOf =
      [(201, true), (201, true)] := by decide +kernel

/-- Both messages are stored. -/
theorem consumptionSession_stored {n : Nat} {req : Kds.Request}
    (hreq : (consumptionSession.drop 3)[n]? = some req) :
    ∃ tr w th res, @Kds.ServerRun Kds.examplePrimitives plainFloats Kds.exampleConfig
        (fun _ _ => True) ⟨.initial 1000000, []⟩ tr w ∧ th ∈ w.threads ∧
      th.task = .request req req.body ∧ th.prog = .pure (some res) ∧ res.status = 201 ∧
      ∀ e ∈ th.past, Kds.Database.isParticipant e.pre.store 1 2 = true := by
  let := Kds.examplePrimitives
  let := plainFloats
  obtain ⟨tr, hrun, -, -⟩ := @Kds.run_session _ _ Kds.exampleConfig (fun _ _ => True)
    consumptionSession (.initial 1000000) []
  have htasks := Kds.task_sessionThreads Kds.exampleConfig (.initial 1000000) consumptionSession
  have hstatus := consumptionSession_status
  rw [List.nil_append] at hrun
  generalize Kds.sessionThreads Kds.exampleConfig (.initial 1000000) consumptionSession = ths
    at hrun htasks hstatus
  have htask : ((ths.drop 3)[n]?).map (·.task) = some (.request req req.body) := by
    rw [← List.getElem?_map, List.map_drop, htasks, ← List.map_drop, List.getElem?_map, hreq]
    rfl
  obtain ⟨th, hth, htask⟩ := Option.map_eq_some_iff.mp htask
  have hmem := List.mem_of_getElem? hth
  have hanswer : statusOf th = (201, true) := by
    have hall : ∀ x ∈ (ths.drop 3).map statusOf, x = (201, true) := by
      rw [hstatus]
      simp
    exact hall _ (List.mem_map_of_mem hmem)
  obtain ⟨hcode, hparticipant⟩ := Prod.mk.inj hanswer
  split at hcode
  · rename_i res hprog
    exact ⟨tr, _, th, res, hrun, List.mem_of_mem_drop hmem, htask, hprog, hcode,
      List.all_eq_true.mp hparticipant⟩
  · cases hcode

/-- Their payload. -/
def preKeyPayload : Kds.Bytes := Kds.exampleBody [("oneTimePreKeyId", .unsigned 5)]

theorem read_preKeyPayload :
    @Kds.oneTimePreKeyIdFromPayload plainFloats preKeyPayload = some 5 := by decide +kernel

theorem fields_of_preKeyMessage {f : Kds.MessageFields} {body : Kds.Bytes}
    {recipient : Option UInt64} (h : @Kds.MessageFields.Of plainFloats f body)
    (hbody : letI := plainFloats
      (Json.parse body : Option (Json UInt8)).map (fun j => ((Kds.field j "senderId").uint64?,
        (Kds.field j "payload").str?, (Kds.field j "recipientId").isNull,
        (Kds.field j "recipientId").uint64?)) =
      some (some 1, some preKeyPayload, recipient.isNone, recipient)) :
    f = ⟨1, preKeyPayload, recipient⟩ := by
  obtain ⟨j, hparse, hsender, hpayload, hrecipient⟩ := h
  rw [hparse, Option.map_some, Option.some.injEq, Prod.mk.injEq, Prod.mk.injEq, Prod.mk.injEq] at hbody
  obtain ⟨h1, h2, h3, h4⟩ := hbody
  obtain ⟨senderId, payload, recipientId⟩ := f
  obtain rfl : 1 = senderId := Option.some.inj (h1.symm.trans hsender)
  obtain rfl : preKeyPayload = payload := Option.some.inj (h2.symm.trans hpayload)
  rcases hrecipient with ⟨hnull, rfl⟩ | ⟨hnull, r, hr, rfl⟩
  · rw [h3, Option.isNone_iff_eq_none] at hnull
    rw [hnull]
  · rw [h4] at hr
    rw [hr]

/-- The keys of Bob at his signup; of others the examples hold none. -/
def bobHolds (r : UInt64) (keys : LocalIdentityKey UInt8) : Prop :=
  r = 2 ∧ keys = zeroIdentity 1 firstIds []

/-- A letter of Alice's is covered: it opens for Bob alone, under the prekey the server reads. -/
theorem coversOpened_aliceLetter {l : Letter} {messageId : UInt64} {text : String} {ids : List UInt64}
    (hl : l = aliceLetter messageId text ids) (hids : ids.Nodup) (hne : ids ≠ []) {s : Kds.Store}
    {o : Kds.Op} {res : Kds.Res o} (hletter : letterOf o res = some l) :
    letI := plainFloats; letI := plainCrypto; CoversOpened bobHolds s o res := by
  let := plainFloats
  let := plainCrypto
  obtain ⟨hread, -⟩ := aliceLetter_encrypted messageId text ids hids
  rw [List.head?_eq_some_head hne, ← hl] at hread
  cases o with
  | createMessage c sender payload timestamp recipient preKey =>
      cases res with
      | error e => cases hletter
      | ok m =>
          obtain rfl := Option.some.inj hletter
          obtain ⟨-, -, hsender, -, hrecipient⟩ := Letter.mk.inj hl
          rintro r k ⟨-, keys, senderBundle, plaintext, ⟨rfl, -⟩, hopen⟩
          obtain rfl := (takes_of_openMessage hopen).unique (takes_of_read hread)
          exact ⟨by rw [hsender]; decide, hrecipient, hread⟩
  | _ => cases hletter

/-- Bob opens the first letter, under his first prekey. -/
theorem opened_firstLetter {s : Kds.Store} (hs : Kds.Database.isParticipant s 1 2 = true)
    {o : Kds.Op} {res : Kds.Res o} (hletter : letterOf o res = some firstLetter) :
    letI := plainFloats; letI := plainCrypto; Opened bobHolds s 2 1 o res := by
  let := plainFloats
  let := plainCrypto
  have := lawfulBase64_plain
  have := lawfulDh_plain
  have := lawfulSigning_plain
  have := lawfulAead_plain
  obtain ⟨-, v, hencrypt⟩ := aliceLetter_encrypted 1 "hi" firstIds (by decide)
  obtain ⟨-, payload, hok, hopen⟩ := (ensures_encryptMessage (fun _ _ _ => rfl)
    (made_zeroIdentity 1 [] [] List.nodup_nil) (made_zeroIdentity 1 firstIds [] (by decide))
    (List.Sublist.refl _) (publishes_zeroBundle (by decide))
    (publishes_zeroBundle List.nodup_nil)).of_runs hencrypt
  cases o with
  | createMessage c sender stored timestamp recipient preKey =>
      cases res with
      | error e => cases hletter
      | ok m =>
          obtain ⟨-, rfl, rfl, rfl, -⟩ := Letter.mk.inj (Option.some.inj hletter)
          rw [← Except.ok.inj hok] at hopen
          exact ⟨hs, _, _, _, ⟨rfl, rfl⟩, hopen⟩
  | _ => cases hletter

/-- Every message of the two letters is covered. -/
theorem coversOpened_letters {tr : Kds.ServerTrace}
    (hletters : ∀ l, l ∈ letters tr ↔ l = firstLetter ∨ l = secondLetter) :
    letI := plainFloats; letI := plainCrypto;
    ∀ x ∈ tr, ∀ i o res, x.2 = .call i o res → CoversOpened bobHolds x.1.state.store o res := by
  intro x hx i o res hlabel
  cases hl : letterOf o res with
  | none =>
      cases o with
      | createMessage c sender payload timestamp recipient preKey =>
          cases res with
          | error e => trivial
          | ok m => cases hl
      | _ => trivial
  | some l =>
      have hmem : l ∈ letters tr := mem_records.mpr ⟨x, hx, by rw [hlabel]; exact hl⟩
      rcases (hletters l).mp hmem with hfirst | hsecond
      · exact coversOpened_aliceLetter hfirst (by decide) (by decide) hl
      · exact coversOpened_aliceLetter hsecond (by decide) (by decide) hl

/-- Alice names Bob, and his bundle loses the prekey.  In the run of the two letters that she
encrypts for him, his bundle does not offer the prekey that the first one makes him erase. -/
theorem prekey_consumed_example : letI := plainFloats; letI := Kds.examplePrimitives;
    letI := plainCrypto;
    (∃ tr w th c f s s',
      Kds.ServerRun Kds.exampleConfig (fun _ _ => True) ⟨.initial 1000000, []⟩ tr w ∧
      th ∈ w.threads ∧
      StoredBy (preKeyMessage [("recipientId", .unsigned 2)]) (bytes "1") th.past c f s s' ∧
      Takes f.payload 5 ∧ Kds.LosesPreKey 2 5 s.store s'.store) ∧
    ∃ tr w, Kds.ServerRun Kds.exampleConfig (fun _ _ => True) ⟨.initial 1000000, []⟩ tr w ∧
      Erases bobHolds tr 2 1 ∧ ¬ Kds.Offered 2 1 w.state.store := by
  let := plainFloats
  let := Kds.examplePrimitives
  let := plainCrypto
  refine ⟨?_, ?_⟩
  · obtain ⟨tr, w, th, res, hrun, hth, htask, hprog, hstatus, hparticipant⟩ :=
      consumptionSession_stored (n := 1) rfl
    obtain ⟨c, f, s, s', hstored, hloses⟩ := (prekey_consumed hrun).1 th hth _ _ (bytes "1") res htask
      hprog (by decide) hstatus
    have hfields : f = ⟨1, preKeyPayload, some 2⟩ :=
      fields_of_preKeyMessage hstored.fields (by decide +kernel)
    obtain ⟨timestamp, m, hmem⟩ := hstored.event
    obtain rfl : 1 = c := Option.some.inj
      ((by decide : Kds.parseId (bytes "1") = some 1).symm.trans hstored.conversation)
    have htakes : Takes f.payload 5 := hfields ▸ takes_of_read read_preKeyPayload
    refine ⟨tr, w, th, 1, f, s, s', hrun, hth, hstored, htakes, (hloses 2 5 ?_ ?_ htakes).mpr ?_⟩
    · rw [hfields]
      decide
    · exact hparticipant _ hmem
    · rw [hfields]
      exact ⟨rfl, read_preKeyPayload⟩
  · obtain ⟨tr, w, hrun, -, -, -, hletters, x, hx, hstored⟩ := letterSession_run
    have herases : Erases bobHolds tr 2 1 :=
      ⟨x, hx, hstored.mono fun o res h => opened_firstLetter h.2 h.1⟩
    exact ⟨tr, w, hrun, herases,
      (prekey_consumed hrun).2 bobHolds (coversOpened_letters hletters) 2 1 herases⟩

/-- Alice names nobody: her message is stored, Bob will use his prekey, and his bundle goes
on offering it. -/
theorem prekey_not_consumed : letI := plainFloats; letI := Kds.examplePrimitives;
    ∃ tr w th res c f s s',
      Kds.ServerRun Kds.exampleConfig (fun _ _ => True) ⟨.initial 1000000, []⟩ tr w ∧
      th ∈ w.threads ∧ th.prog = .pure (some res) ∧ res.status = 201 ∧
      StoredBy (preKeyMessage []) (bytes "1") th.past c f s s' ∧ 2 ≠ f.senderId ∧
      Kds.Database.isParticipant s.store c 2 = true ∧ Takes f.payload 5 ∧
      ¬ Kds.LosesPreKey 2 5 s.store s'.store := by
  let := plainFloats
  let := Kds.examplePrimitives
  obtain ⟨tr, w, th, res, hrun, hth, htask, hprog, hstatus, hparticipant⟩ :=
    consumptionSession_stored (n := 0) rfl
  have hroute : Kds.endpointOf (preKeyMessage []).method (preKeyMessage []).path =
      some (.createMessage (bytes "1")) := by decide
  obtain ⟨c, f, s, s', hstored⟩ := storedBy_of_answered hrun hth htask hprog hroute hstatus
  have hfields : f = ⟨1, preKeyPayload, none⟩ :=
    fields_of_preKeyMessage hstored.fields (by decide +kernel)
  have hne : 2 ≠ f.senderId := by
    rw [hfields]
    decide
  obtain ⟨timestamp, m, hmem⟩ := hstored.event
  obtain rfl : 1 = c := Option.some.inj
    ((by decide : Kds.parseId (bytes "1") = some 1).symm.trans hstored.conversation)
  refine ⟨tr, w, th, res, 1, f, s, s', hrun, hth, hprog, hstatus, hstored, hne,
    hparticipant _ hmem, hfields ▸ takes_of_read read_preKeyPayload, fun hloses => ?_⟩
  have hcovered := (hstored.losesPreKey hrun hth hne).mp hloses
  have hrecipient := hcovered.recipient
  rw [hfields] at hrecipient
  cases hrecipient

end Examples

end Protocol
