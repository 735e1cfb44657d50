import Kingdom.Client.KeyStoreRoundTrip
import Kingdom.Client.RoundTrip
import Kingdom.Protocol.Fetches
import Kingdom.Server.PreKeys

/-!
# Letters and their delivery

Somebody fetches the bundle of a user, encrypts a message with it and has the server store it.
The user has logged in many times and has read other messages meanwhile.  The first time it
reads this one, the text comes back.

* `publishes_of_losesAll` — a bundle that has lost prekeys publishes the others.
* `openMessage_unused` — a message opens for a user who has lost other prekeys.
* `ensures_encryptMessage_names` — the server reads the prekey that a payload was made for.
* `Letter`, `letters` — the messages that the server has stored; `letter_unique`, one for each
  prekey.
* `Mailbox` — the sessions of a user, the letters read in them and the files.
* `mailbox_inv` — a prekey is gone only when a letter that was stored for it has been read.
* `openMessage_letter` — it opens in every session that still has its prekey.
* `letter_read` — a letter that was not read before is read as it was written.
-/

namespace Protocol

open Codec Process Prog Storage Kds

/-! ## Bundles that have lost prekeys -/

section Bundles

variable [FloatFormat] [Kd.Crypto UInt8] {identity : Kd.LocalIdentityKey UInt8}
  {keys : List (Kd.LocalPreKey UInt8)} {text text' : Kds.Bytes}

omit [Kd.Crypto UInt8] in
/-- An entry offers the prekey with its id. -/
theorem offers_iff_id {k : UInt64} {entry v : Json UInt8} {id : UInt64}
    (hid : entry.get? (bytes "id") = some v) (hidn : v.uint64? = some id) :
    Offers k entry ↔ id = k := by
  rw [Offers, Database.isPreKey, hid]
  simp [hidn]

/-- **A bundle publishes what it has not lost.** -/
theorem publishes_of_drops {k : UInt64} (h : Kd.Publishes text identity keys)
    (hdrops : Drops k text text') : Kd.Publishes text' identity (keys.filter (·.id ≠ k)) := by
  obtain ⟨bundle, listed, hparse, hvalid, hik, ⟨spk, id, hspk, hid, hidn, hpub⟩, hone, hlisted⟩ := h
  obtain ⟨bundle', hparse', hrewritten⟩ := (Rewritten.refl bundle).drop hparse hdrops
  obtain ⟨f, hf, hfvalid⟩ := Kd.validateBundle_ok.mp hvalid
  obtain ⟨b, b', listed', hb, hb', hone', hone'', hfields⟩ := hdrops
  cases hparse.symm.trans hb
  cases hparse'.symm.trans hb'
  cases hone.symm.trans hone'
  have hid' : id.norm.uint64? = some identity.signedPreKey.id := by rw [Json.uint64?_norm, hidn]
  refine ⟨bundle', _, hparse', Kd.validateBundle_ok.mpr ⟨f, hrewritten.of hf, hfvalid⟩, ?_,
    ⟨spk.norm, id.norm, ?_, ?_, hid', ?_⟩, hone'', ?_⟩
  · rw [hfields _ (by decide), hik]
    rfl
  · rw [hfields _ (by decide), hspk]
    rfl
  · rw [Json.get?_norm, hid]
    rfl
  · rw [Json.get?_norm, hpub]
    rfl
  · rw [List.forall₂_map_left_iff]
    refine (List.rel_filter ?_ hlisted).imp ?_
    · rintro entry key ⟨⟨v, hv, hvn⟩, -⟩
      have hoffers := offers_iff_id (k := k) hv hvn
      simp [hoffers]
    · rintro entry key ⟨⟨v, hv, hvn⟩, hpublic⟩
      refine ⟨⟨v.norm, ?_, by rw [Json.uint64?_norm, hvn]⟩, ?_⟩
      · rw [Json.get?_norm, hv]
        rfl
      · rw [Json.get?_norm, hpublic]
        rfl

/-- **What is left of a bundle publishes the prekeys that were not taken.** -/
theorem publishes_of_losesAll {ids : List UInt64} (h : Kd.Publishes text identity keys)
    (hloses : LosesAll ids text text') :
    Kd.Publishes text' identity (keys.filter (·.id ∉ ids)) := by
  induction hloses with
  | nil => simpa using h
  | @snoc ids k text t text' _ _ hdrops ih =>
      have heq : keys.filter (fun x => x.id ∉ ids ++ [k]) =
          (keys.filter fun x => x.id ∉ ids).filter fun x => x.id ≠ k := by
        rw [List.filter_filter]
        exact List.filter_congr fun x _ => by simp [and_comm]
      rw [heq]
      exact publishes_of_drops (ih h) hdrops

end Bundles

/-! ## One message -/

section Messages

variable [FloatFormat] [Kd.Crypto UInt8] {identity : Kd.LocalIdentityKey UInt8}
  {payload senderBundle plaintext path : Kds.Bytes} {c s r : UInt64}

/-- **A message opens for a user who has lost other prekeys.** -/
theorem openMessage_unused {used : List UInt64} {id : Option UInt64}
    (hdistinct : (identity.oneTimePreKeys.map (·.id)).Nodup) (hid : ∀ k ∈ id, k ∉ used)
    (h : Kd.openMessage payload identity senderBundle c s r = .ok (plaintext, id)) :
    Kd.openMessage payload (identity.unused used path) senderBundle c s r = .ok (plaintext, id) := by
  obtain ⟨j, f, bundle, key, hj, hof, hbundle, hvalid, hik, hopens, rfl⟩ := Kd.openMessage_ok.mp h
  refine Kd.openMessage_ok.mpr ⟨j, f, bundle, key, hj, hof, hbundle, hvalid, hik, ?_, rfl⟩
  refine { hopens with found := fun k hk => ?_ }
  have hmem := List.mem_of_find?_eq_some (hopens.found k hk)
  have hnot : k.id ∉ used := hid k.id (by rw [hopens.oneTimePreKeyId]; exact Option.mem_map_of_mem _ hk)
  have hkept : (identity.oneTimePreKeys.filter (·.id ∉ used)).Sublist identity.oneTimePreKeys :=
    List.filter_sublist
  exact Kd.find?_id (hdistinct.sublist (hkept.map _)) (List.mem_filter.mpr ⟨hmem, by simpa using hnot⟩)

omit [FloatFormat] [Kd.Crypto UInt8] in
theorem norm_optionalId (id : Option UInt64) :
    (Kd.optionalId id : Json UInt8).norm = Kd.optionalId id := by
  cases id <;> rfl

/-- The server reads the id that the payload was made with. -/
theorem oneTimePreKeyIdFromPayload_dump {sender ephemeral nonce ciphertext : Kds.Bytes}
    {signedPreKeyId : UInt64} {id : Option UInt64}
    (h : (Kd.payloadJson sender ephemeral signedPreKeyId id nonce ciphertext).dump = some payload) :
    Kds.oneTimePreKeyIdFromPayload payload = id := by
  have hparse := Json.parse_dump h (Kd.wf_payloadJson _ _ _ _ _ _)
  have hget : (Kd.payloadJson sender ephemeral signedPreKeyId id nonce ciphertext).norm.get?
      (bytes "oneTimePreKeyId") = some (Kd.optionalId id) := by
    rw [Json.get?_norm, Kd.payloadJson, Json.get?_mkObj]
    simp +decide [Json.lookup, norm_optionalId]
  rw [Kds.oneTimePreKeyIdFromPayload, hparse, Option.bind_some, hget, Option.bind_some]
  cases id <;> rfl

/-- **The server reads the prekey that a payload was made for.** -/
theorem ensures_encryptMessage_names {sender : Kd.LocalIdentityKey UInt8} {bundle : Kds.Bytes}
    {keys : Kd.RecipientKeys UInt8} (hkeys : Kd.recipientKeys bundle = .ok keys) {σ : Type}
    {mayFail : FileOp Kds.Bytes UInt8 → Prop}
    {net : Kd.HttpRequest UInt8 → σ → Option (Kd.HttpResponse UInt8) → σ → Prop}
    {w : Kd.World UInt8 σ} :
    (Kd.encryptMessage plaintext sender bundle c s r).Ensures (Kd.exec mayFail net)
      (fun _ => True) w fun x _ => ∀ payload, x = .ok payload →
        Kds.oneTimePreKeyIdFromPayload payload = keys.oneTimePreKey.map (·.1) := by
  rw [Kd.encryptMessage, hkeys, ensures_bind, ensures_ofExcept]
  refine ⟨trivial, ?_⟩
  simp only
  rw [ensures_bind, Kd.ensures_boxKeypair]
  refine ⟨trivial, fun ephemeral _ => ?_⟩
  simp only
  rw [ensures_bind, ensures_ofExcept]
  refine ⟨trivial, ?_⟩
  cases hkey : Kd.senderKey sender.privateKey ephemeral keys with
  | error e => simp
  | ok messageKey =>
      simp only
      rw [ensures_bind, Kd.ensures_random]
      refine ⟨trivial, fun nonce _ => ?_⟩
      simp only
      rw [ensures_ofExcept]
      refine ⟨trivial, fun payload hseal => ?_⟩
      simp only [Kd.sealMessage, Kd.bind_ok, Kd.orJsonError_ok] at hseal
      obtain ⟨aad, -, hdump⟩ := hseal
      exact oneTimePreKeyIdFromPayload_dump hdump

end Messages

/-! ## Letters -/

/-- A message that the server has stored. -/
structure Letter where
  messageId : UInt64
  conversationId : UInt64
  senderId : UInt64
  payload : Kds.Bytes
  recipientId : Option UInt64
  deriving DecidableEq

/-- The letter that a call stores. -/
def letterOf : (o : Kds.Op) → Kds.Res o → Option Letter
  | .createMessage c sender payload _ recipient _, .ok m => some ⟨m, c, sender, payload, recipient⟩
  | _, _ => none

/-- The letters of a run, in order. -/
def letters (tr : ServerTrace) : List Letter := records letterOf tr

section Letters

variable [FloatFormat]

/-- The letter is for `r`, from someone else, and the server reads this prekey in it. -/
structure Letter.For (l : Letter) (r k : UInt64) : Prop where
  recipientId : l.recipientId = some r
  ne : r ≠ l.senderId
  preKey : Kds.oneTimePreKeyIdFromPayload l.payload = some k

theorem storedFor_of_letter {o : Kds.Op} {res : Kds.Res o} {l : Letter} {r k : UInt64}
    (h : letterOf o res = some l) (hfor : l.For r k) : StoredFor r k o res := by
  cases o with
  | createMessage c sender payload timestamp recipient preKey =>
      cases res with
      | error e => cases h
      | ok m =>
          cases h
          exact ⟨hfor.recipientId, hfor.ne, hfor.preKey⟩
  | _ => cases h

variable [Primitives] {cfg : Config} {tick : Clock → Clock → Prop} {clock : Clock}
  {tr : ServerTrace} {w : ServerSystem} {r k : UInt64}

/-- A prekey that a letter was stored for is not offered again. -/
theorem not_offered_of_letter (h : ServerRun cfg tick ⟨.initial clock, []⟩ tr w) {l : Letter}
    (hl : l ∈ letters tr) (hfor : l.For r k) : ¬ Offered r k w.state.store := by
  obtain ⟨x, hx, hcall⟩ := mem_records.mp hl
  refine not_offered_of_stored h ⟨x, hx, ?_⟩
  cases hlabel : x.2 with
  | call i o res =>
      rw [hlabel] at hcall
      exact storedFor_of_letter hcall hfor
  | _ =>
      rw [hlabel] at hcall
      exact hcall.elim

/-- **No two letters of a run are for one prekey.** -/
theorem letter_unique (h : ServerRun cfg tick ⟨.initial clock, []⟩ tr w) {a b : Letter}
    (ha : a ∈ letters tr) (hb : b ∈ letters tr) (hfa : a.For r k) (hfb : b.For r k) : a = b := by
  induction h with
  | nil => cases ha
  | @snoc tr v l u hrun hstep ih =>
      -- the prekey of a new letter was offered, so no letter before was for it
      have hnew : ∀ x y : Letter, l.record letterOf = some x → x.For r k → y ∈ letters tr →
          ¬ y.For r k := by
        intro x y hx hfx hy hfy
        have hcall : l.IsCall (StoredFor r k) := by
          cases l with
          | call i o res => exact storedFor_of_letter hx hfx
          | _ => cases hx
        obtain ⟨text, -, htext, hoffers, -⟩ :=
          storedFor_step (sound_of_run storeInv_empty hrun) hstep hcall
        exact not_offered_of_letter hrun hy hfy ⟨text, htext, hoffers⟩
      rw [letters, records_snoc, List.mem_append, Option.mem_toList] at ha hb
      rcases ha with ha | ha
      · rcases hb with hb | hb
        · exact ih ha hb
        · exact absurd hfa (hnew b a hb hfb ha)
      · rcases hb with hb | hb
        · exact absurd hfb (hnew a b ha hfa hb)
        · exact Option.some.inj (ha.symm.trans hb)

end Letters

/-! ## The sessions of a user -/

section Mailboxes

variable [FloatFormat] [Kd.Crypto UInt8]

/-- What a user `r` has done when no file operation fails: the bundle of its signup, its
sessions, the ids of the letters of `tr` that it has read, and the files.  Sessions go on side
by side. -/
inductive Mailbox (home username password : Kds.Bytes) (tr : ServerTrace) (r : UInt64) :
    Kds.Bytes → List (Kd.LocalIdentityKey UInt8) → List UInt64 → Files Kds.Bytes UInt8 → Prop where
  | signup {fs₀ material fs}
      (hsignup : (Kd.createForSignup home username password).Runs (Kd.onFiles fun _ => False)
        ⟨fs₀, ()⟩ (some (.ok material)) ⟨fs, ()⟩) :
      Mailbox home username password tr r material.publicKeyBundle [] [] fs
  | login {bundle sessions read fs k fs'}
      (h : Mailbox home username password tr r bundle sessions read fs)
      (hlogin : (Kd.loadForLogin home username password).Runs (Kd.onFiles fun _ => False) ⟨fs, ()⟩
        (some (.ok k)) ⟨fs', ()⟩) :
      Mailbox home username password tr r bundle (sessions ++ [k]) read fs'
  /-- A letter is read, or not, in one of the sessions.  When it opens under a prekey the
  server has read this prekey in it, for this user. -/
  | read {bundle before k after read fs l senderBundle recipientId k' outcome fs'}
      (h : Mailbox home username password tr r bundle (before ++ k :: after) read fs)
      (hl : l ∈ letters tr)
      (hfor : ∀ plaintext id, Kd.openMessage l.payload k senderBundle l.conversationId l.senderId
        recipientId = .ok (plaintext, some id) → l.For r id)
      (hcall : (Kd.decryptMessage l.payload k senderBundle l.conversationId l.senderId
        recipientId).Runs (Kd.onFiles fun _ => False) ⟨fs, ()⟩ (some (.ok (k', outcome))) ⟨fs', ()⟩) :
      Mailbox home username password tr r bundle (before ++ k' :: after) (read ++ [l.messageId]) fs'

/-- A letter that was read was stored for each of these prekeys. -/
def ReadFor (tr : ServerTrace) (r : UInt64) (read used : List UInt64) : Prop :=
  ∀ id ∈ used, ∃ l ∈ letters tr, l.For r id ∧ l.messageId ∈ read

omit [Kd.Crypto UInt8] in
theorem ReadFor.mono {tr : ServerTrace} {r : UInt64} {read more used : List UInt64}
    (h : ReadFor tr r read used) : ReadFor tr r (read ++ more) used := by
  intro id hid
  obtain ⟨l, hl, hfor, hread⟩ := h id hid
  exact ⟨l, hl, hfor, List.mem_append_left _ hread⟩

omit [Kd.Crypto UInt8] in
theorem ReadFor.snoc {tr : ServerTrace} {r k : UInt64} {read used : List UInt64} {l : Letter}
    (h : ReadFor tr r read used) (hl : l ∈ letters tr) (hfor : l.For r k) :
    ReadFor tr r (read ++ [l.messageId]) (used ++ [k]) := by
  intro id hid
  rcases List.mem_append.mp hid with hid | hid
  · exact h.mono id hid
  · rw [List.mem_singleton.mp hid]
    exact ⟨l, hl, hfor, by simp⟩

/-- The invariant of a mailbox: the file and every session hold the keys of the signup, less
prekeys for which letters were read. -/
structure MailboxInv (path : Kds.Bytes) (identity : Kd.LocalIdentityKey UInt8) (file : Json UInt8)
    (tr : ServerTrace) (r : UInt64) (sessions : List (Kd.LocalIdentityKey UInt8))
    (read : List UInt64) (fs : Files Kds.Bytes UInt8) : Prop where
  holds : ∃ used, Kd.HoldsAll path file used fs ∧ ReadFor tr r read used
  sessions : ∀ k ∈ sessions, ∃ used, k = identity.unused used path ∧ ReadFor tr r read used

omit [FloatFormat] [Kd.Crypto UInt8] in
theorem unused_without (identity : Kd.LocalIdentityKey UInt8) (used : List UInt64)
    (path : Kds.Bytes) (id : UInt64) :
    (identity.unused used path).without id = identity.unused (used ++ [id]) path := by
  simp only [Kd.LocalIdentityKey.without, Kd.LocalIdentityKey.unused, List.filter_filter]
  congr 1
  exact List.filter_congr fun x _ => by simp [and_comm]

section Steps

variable {σ : Type} {net : Kd.HttpRequest UInt8 → σ → Option (Kd.HttpResponse UInt8) → σ → Prop}
  {v : Kd.World UInt8 σ} {home username password path : Kds.Bytes}
  {identity : Kd.LocalIdentityKey UInt8} {file : Json UInt8} {recorded : List UInt64}

/-- A prekey is recorded, whether it was before or not. -/
theorem ensures_recordUsed_any (hkey : Kd.IsKeyFile username password identity file)
    (hholds : Kd.HoldsAll path file recorded v.files) (id : UInt64) :
    (Kd.recordUsed path id).Ensures (Kd.exec (fun _ => False) net) (fun _ => True) v fun x v' =>
      x = .ok () ∧ ∃ recorded', Kd.HoldsAll path file recorded' v'.files ∧
        ∀ i ∈ recorded', i ∈ recorded ∨ i ∈ [id] := by
  by_cases hid : id ∈ recorded
  · refine ensures_mono (Kd.ensures_recordUsed_again hkey hholds hid) ?_
    rintro x _ ⟨rfl, rfl⟩
    exact ⟨rfl, recorded, hholds, fun i hi => .inl hi⟩
  · refine ensures_mono (Kd.ensures_recordUsed_all hkey hholds hid) ?_
    rintro x v' ⟨rfl, hholds', -⟩
    exact ⟨rfl, recorded ++ [id], hholds', fun i hi => List.mem_append.mp hi⟩

/-- **Reading in a session**: what the message opens to is returned, and the prekey it opens
under is gone from the session and recorded in the file. -/
theorem ensures_decryptMessage_session (hkey : Kd.IsKeyFile username password identity file)
    (hpath : path ≠ []) (hholds : Kd.HoldsAll path file recorded v.files) (used : List UInt64)
    {payload senderBundle : Kds.Bytes} {c s r : UInt64}
    {opened : Except Kd.Exn (Kds.Bytes × Option UInt64)}
    (hopen : Kd.openMessage payload (identity.unused used path) senderBundle c s r = opened) :
    (Kd.decryptMessage payload (identity.unused used path) senderBundle c s r).Ensures
      (Kd.exec (fun _ => False) net) (fun _ => True) v fun x v' => ∃ more,
        x = .ok (identity.unused (used ++ more) path, opened.map Prod.fst) ∧
        (∃ recorded', Kd.HoldsAll path file recorded' v'.files ∧
          ∀ i ∈ recorded', i ∈ recorded ∨ i ∈ more) ∧
        ∀ i ∈ more, ∃ plaintext, opened = .ok (plaintext, some i) := by
  have hsame : identity.unused (used ++ []) path = identity.unused used path := by
    rw [List.append_nil]
  have hrecorded : ∃ recorded', Kd.HoldsAll path file recorded' v.files ∧
      ∀ i ∈ recorded', i ∈ recorded ∨ i ∈ ([] : List UInt64) :=
    ⟨recorded, hholds, fun i hi => .inl hi⟩
  cases opened with
  | error e =>
      rw [Kd.decryptMessage, hopen]
      exact ⟨trivial, [], by rw [hsame]; rfl, hrecorded, by simp⟩
  | ok result =>
      obtain ⟨plaintext, id⟩ := result
      cases id with
      | none =>
          rw [Kd.decryptMessage, hopen]
          exact ⟨trivial, [], by rw [hsame]; rfl, hrecorded, by simp⟩
      | some id =>
          have hnodup := (hkey.made.unused used path).distinct
          refine (Kd.ensures_decryptMessage_opened hopen).mpr ?_
          have hfile : (identity.unused used path).keyFilePath ≠ [] := hpath
          simp only
          rw [if_neg hfile]
          refine ensures_mono (ensures_recordUsed_any hkey hholds id) ?_
          rintro x v' ⟨rfl, hrecorded'⟩
          refine ⟨[id], ?_, hrecorded', fun i hi => ⟨plaintext, ?_⟩⟩
          · rw [← unused_without, Kd.LocalIdentityKey.without, Kd.eraseP_eq_filter hnodup]
            rfl
          · rw [List.mem_singleton.mp hi]

end Steps

section Runs

variable [Kd.LawfulBase64 UInt8] [Kd.LawfulDh UInt8] [Kd.LawfulSigning UInt8] [Kd.LawfulAead UInt8]
  {home username password bundle : Kds.Bytes} {tr : ServerTrace} {r : UInt64}
  {sessions : List (Kd.LocalIdentityKey UInt8)} {read : List UInt64}
  {fs : Files Kds.Bytes UInt8}

/-- **The invariant holds of every mailbox**: its user has the keys whose bundle was published,
less prekeys for which letters were read. -/
theorem mailbox_inv (h : Mailbox home username password tr r bundle sessions read fs) :
    ∃ identity file, home ≠ [] ∧ Kd.IsKeyFile username password identity file ∧
      Kd.Publishes bundle identity identity.oneTimePreKeys ∧
      MailboxInv (Kd.keyFile home username) identity file tr r sessions read fs := by
  induction h with
  | signup hsignup =>
      obtain ⟨log, hsignup⟩ := hsignup.logged []
      rcases Kd.ensures_createForSignup_ends.of_runs hsignup with
        ⟨identity, bundle, file, text, heq, hdump, -, hsigned⟩ | ⟨⟨e, heq⟩, -⟩
      · cases heq
        obtain ⟨bundle', text', hbundle', hdump', hpublishes⟩ :=
          Kd.exists_publishes hsigned.isKeyFile.made (List.Sublist.refl _)
        cases hsigned.publicBundle.symm.trans hbundle'
        cases hdump.symm.trans hdump'
        exact ⟨identity, file, hsigned.homeSet, hsigned.isKeyFile, hpublishes,
          ⟨[], hsigned.holds, by simp [ReadFor]⟩, by simp⟩
      · cases heq
  | login _ hlogin ih =>
      obtain ⟨identity, file, hhome, hkey, hpublishes, ⟨recorded, hholds, hrecorded⟩, hsessions⟩ := ih
      obtain ⟨hw, hk⟩ := (Kd.ensures_loadForLogin_all (I := fun _ => True) trivial hhome hkey
        hholds).of_runs hlogin
      cases hw
      cases hk
      refine ⟨identity, file, hhome, hkey, hpublishes, ⟨recorded, hholds, hrecorded⟩, ?_⟩
      intro x hx
      rcases List.mem_append.mp hx with hx | hx
      · exact hsessions x hx
      · exact ⟨recorded, List.mem_singleton.mp hx, hrecorded⟩
  | @read bundle before k after read fs l senderBundle _ k' outcome fs' _ hl hfor hcall ih =>
      obtain ⟨identity, file, hhome, hkey, hpublishes, ⟨recorded, hholds, hrecorded⟩, hsessions⟩ := ih
      obtain ⟨used, rfl, hused⟩ := hsessions k (by simp)
      obtain ⟨more, heq, ⟨recorded', hholds', hsub⟩, hopened⟩ :=
        (ensures_decryptMessage_session hkey (Kd.keyFile_ne_nil _ _) hholds used rfl).of_runs
          hcall
      cases heq
      -- the letter itself was stored for the prekey it opened under
      have hmore : ∀ i ∈ more, l.For r i := by
        intro i hi
        obtain ⟨plaintext, hopen⟩ := hopened i hi
        exact hfor plaintext i hopen
      have hread : ∀ {ids ids' : List UInt64}, ReadFor tr r read ids →
          (∀ i ∈ ids', i ∈ ids ∨ i ∈ more) → ReadFor tr r (read ++ [l.messageId]) ids' := by
        intro ids ids' hids hids' i hi
        rcases hids' i hi with hi | hi
        · exact hids.mono i hi
        · exact ⟨l, hl, hmore i hi, by simp⟩
      refine ⟨identity, file, hhome, hkey, hpublishes, ⟨recorded', hholds', hread hrecorded hsub⟩, ?_⟩
      intro x hx
      simp only [List.mem_append, List.mem_cons] at hx
      have hkept : ∀ y ∈ before ++ identity.unused used (Kd.keyFile home username) :: after,
          ∃ used, y = identity.unused used (Kd.keyFile home username) ∧
            ReadFor tr r (read ++ [l.messageId]) used := by
        intro y hy
        obtain ⟨ids, hids, hreadFor⟩ := hsessions y hy
        exact ⟨ids, hids, hreadFor.mono⟩
      rcases hx with hx | rfl | hx
      · exact hkept x (by simp [hx])
      · exact ⟨used ++ more, rfl, hread hused fun i hi => List.mem_append.mp hi⟩
      · exact hkept x (by simp [hx])

end Runs

end Mailboxes

/-! ## Delivery -/

section Delivery

variable [FloatFormat] [Primitives] [Kd.Crypto UInt8] [Kd.LawfulBase64 UInt8] [Kd.LawfulDh UInt8]
  [Kd.LawfulSigning UInt8] [Kd.LawfulAead UInt8] {cfg : Config} {tick : Clock → Clock → Prop}
  {clock : Clock} {tr : ServerTrace} {w : ServerSystem}

omit [Primitives] [Kd.LawfulBase64 UInt8] [Kd.LawfulDh UInt8] [Kd.LawfulSigning UInt8]
  [Kd.LawfulAead UInt8] in
/-- What the server hands out publishes what is left of what the user published. -/
theorem GivesOut.publishes {u : UInt64} {text text' : Kds.Bytes} {identity : Kd.LocalIdentityKey UInt8}
    {keys : List (Kd.LocalPreKey UInt8)} (h : GivesOut tr u text') (htext : text ∈ signups u tr)
    (hpublishes : Kd.Publishes text identity keys) :
    ∃ ids : List UInt64, Kd.Publishes text' identity (keys.filter (·.id ∉ ids)) := by
  obtain ⟨t, ids, hsignup, -, hloses⟩ := h
  rw [hsignup, List.mem_singleton] at htext
  exact ⟨ids, publishes_of_losesAll (htext ▸ hpublishes) hloses⟩

omit [Kd.Crypto UInt8] [Kd.LawfulBase64 UInt8] [Kd.LawfulDh UInt8] [Kd.LawfulSigning UInt8]
  [Kd.LawfulAead UInt8] in
/-- At first the server hands out what the user published. -/
theorem givesOut_published (hdoubt : cfg.inDoubt = false)
    (h : ServerRun cfg tick ⟨.initial clock, []⟩ tr w) {u : UInt64} {text : Kds.Bytes}
    (htext : text ∈ signups u tr) : GivesOut tr u text := by
  have hhistory := bundle_history hdoubt h u
  have hone : signups u tr = [text] := by
    generalize signups u tr = texts at hhistory htext
    generalize takenKeys u tr = ids at hhistory
    generalize Database.getUserPublicKey w.state.store u = bundle at hhistory
    cases hhistory with
    | none => cases htext
    | some _ => rw [List.mem_singleton.mp htext]
  exact ⟨text, [], hone, List.nil_prefix, .nil⟩

omit [Primitives] [Kd.LawfulSigning UInt8] in
/-- **What was encrypted for a user opens** in every session that still has its prekey, the one
that the server reads in it. -/
theorem openMessage_letter (hhkdf : ∀ x i s : Kds.Bytes, (Kd.Crypto.hkdf x i s).isSome = true)
    {r : UInt64} {identity sender : Kd.LocalIdentityKey UInt8} {others : List (Kd.LocalPreKey UInt8)}
    {bundle published fetched senderBundle plaintext payload : Kds.Bytes} {c s : UInt64}
    (hmade : identity.Made) (hlists : Kd.Publishes bundle identity identity.oneTimePreKeys)
    (hsignup : bundle ∈ signups r tr) (hsender : sender.Made)
    (hpublishes : Kd.Publishes published sender others) (hpublished : published ∈ signups s tr)
    (hfetched : GivesOut tr r fetched) {σ : Type} {mayFail : FileOp Kds.Bytes UInt8 → Prop}
    {net : Kd.HttpRequest UInt8 → σ → Option (Kd.HttpResponse UInt8) → σ → Prop}
    {v v' : Kd.World UInt8 σ}
    (hencrypt : (Kd.encryptMessage plaintext sender fetched c s r).Runs (Kd.exec mayFail net) v
      (some (.ok payload)) v')
    (hbundle : GivesOut tr s senderBundle) (used : List UInt64)
    (hunused : ∀ k, Kds.oneTimePreKeyIdFromPayload payload = some k → k ∉ used) (path : Kds.Bytes) :
    Kd.openMessage payload (identity.unused used path) senderBundle c s r =
      .ok (plaintext, Kds.oneTimePreKeyIdFromPayload payload) := by
  obtain ⟨ids, hlisted⟩ := hfetched.publishes hsignup hlists
  obtain ⟨_, hsenderListed⟩ := hbundle.publishes hpublished hpublishes
  have hkept : (identity.oneTimePreKeys.filter (·.id ∉ ids)).Sublist identity.oneTimePreKeys :=
    List.filter_sublist
  obtain ⟨-, _, heq, hopen⟩ := (Kd.ensures_encryptMessage hhkdf hsender hmade hkept hlisted
    hsenderListed).of_runs hencrypt
  cases heq
  have hnames := (ensures_encryptMessage_names (Kd.recipientKeys_of_publishes hlisted)).of_runs
    hencrypt _ rfl
  have hid : Kds.oneTimePreKeyIdFromPayload payload =
      (identity.oneTimePreKeys.filter (·.id ∉ ids)).head?.map (·.id) := by
    rw [hnames, Kd.keysOf, Option.map_map]
    rfl
  rw [hid]
  exact openMessage_unused hmade.distinct (fun k hk => hunused k (hid.trans hk)) hopen

/-- **A letter is delivered.**  The server works with everybody; a user signs up, logs in and
reads letters.  Whoever encrypts a message for the user with a bundle that the server hands out
for it, and has the server store it, is read as the message was written: in every session of
the user, the first time this letter is read. -/
theorem letter_read (hhkdf : ∀ x i s : Kds.Bytes, (Kd.Crypto.hkdf x i s).isSome = true)
    (hrun : ServerRun cfg tick ⟨.initial clock, []⟩ tr w) {l : Letter} (hl : l ∈ letters tr)
    {r : UInt64} (hr : l.recipientId = some r) (hne : r ≠ l.senderId)
    {home username password bundle : Kds.Bytes} {sessions : List (Kd.LocalIdentityKey UInt8)}
    {read : List UInt64} {fs : Files Kds.Bytes UInt8}
    (hmailbox : Mailbox home username password tr r bundle sessions read fs)
    (hsignup : bundle ∈ signups r tr) (hunread : l.messageId ∉ read)
    {sender : Kd.LocalIdentityKey UInt8} {others : List (Kd.LocalPreKey UInt8)}
    {published fetched senderBundle plaintext : Kds.Bytes} (hsender : sender.Made)
    (hpublishes : Kd.Publishes published sender others) (hpublished : published ∈ signups l.senderId tr)
    (hfetched : GivesOut tr r fetched) {σ : Type} {mayFail : FileOp Kds.Bytes UInt8 → Prop}
    {net : Kd.HttpRequest UInt8 → σ → Option (Kd.HttpResponse UInt8) → σ → Prop}
    {v v' : Kd.World UInt8 σ}
    (hencrypt : (Kd.encryptMessage plaintext sender fetched l.conversationId l.senderId r).Runs
      (Kd.exec mayFail net) v (some (.ok l.payload)) v')
    (hbundle : GivesOut tr l.senderId senderBundle) {k : Kd.LocalIdentityKey UInt8}
    (hk : k ∈ sessions) :
    let decrypt := Kd.decryptMessage l.payload k senderBundle l.conversationId l.senderId r
    (∃ x v, decrypt.Runs (Kd.onFiles fun _ => False) ⟨fs, ()⟩ (some x) v) ∧
      ∀ x v, decrypt.Runs (Kd.onFiles fun _ => False) ⟨fs, ()⟩ (some x) v →
        ∃ k', x = .ok (k', .ok plaintext) := by
  intro decrypt
  refine ⟨Prog.exists_runs (Kd.onFiles_total fun _ => False) decrypt _, ?_⟩
  intro x v hdecrypt
  obtain ⟨identity, file, -, hkey, hpublishes', ⟨recorded, hholds, -⟩, hsessions⟩ :=
    mailbox_inv hmailbox
  obtain ⟨used, rfl, hused⟩ := hsessions k hk
  -- no letter for its prekey was read before
  have hunused : ∀ i, Kds.oneTimePreKeyIdFromPayload l.payload = some i → i ∉ used := by
    intro i hpreKey hmem
    obtain ⟨b, hb, hfor, hread⟩ := hused i hmem
    have hsame := letter_unique hrun hl hb ⟨hr, hne, hpreKey⟩ hfor
    exact hunread (hsame ▸ hread)
  have hopen := openMessage_letter hhkdf hkey.made hpublishes' hsignup hsender hpublishes hpublished
    hfetched hencrypt hbundle used hunused (Kd.keyFile home username)
  obtain ⟨more, rfl, -⟩ := (ensures_decryptMessage_session hkey (Kd.keyFile_ne_nil _ _) hholds used
    hopen).of_runs hdecrypt
  exact ⟨_, rfl⟩

end Delivery

/-! ## Two letters from Alice to Bob -/

/-- The bundle of a user whose private keys are all zero. -/
def zeroBundle (ids : List UInt64) : Kds.Bytes :=
  letI := plainFloats
  letI := Kd.plainCrypto
  ((Kd.publicBundle (Kd.zeroIdentity 1 ids [])).toOption.bind Json.dump).getD []

theorem publishes_zeroBundle {ids : List UInt64} (h : ids.Nodup) :
    letI := plainFloats; letI := Kd.plainCrypto
    Kd.Publishes (zeroBundle ids) (Kd.zeroIdentity 1 ids [])
      (Kd.zeroIdentity 1 ids []).oneTimePreKeys := by
  let := plainFloats
  let := Kd.plainCrypto
  have := Kd.lawfulBase64_plain
  have := Kd.lawfulDh_plain
  have := Kd.lawfulSigning_plain
  obtain ⟨bundle, text, hbundle, htext, hpublishes⟩ :=
    Kd.exists_publishes (Kd.made_zeroIdentity 1 ids [] h) (List.Sublist.refl _)
  have heq : zeroBundle ids = text := by
    rw [zeroBundle, show Kd.publicBundle (Kd.zeroIdentity 1 ids []) = .ok bundle from hbundle]
    exact congrArg (·.getD []) htext
  rw [heq]
  exact hpublishes

/-- Bob signs up, and all keys are zero. -/
def bobSignup : Except Kd.Exn (Kd.RegistrationKeyMaterial UInt8) × Kd.World UInt8 Unit :=
  letI := plainFloats
  letI := Kd.plainCrypto
  (Kd.createForSignup (bytes "/home/b") (bytes "bob") (bytes "p")).eval
    (Kd.answer fun _ s => (none, s)) ⟨fun _ => none, ()⟩

theorem newIdentity_eval : letI := plainFloats; letI := Kd.plainCrypto;
    (Kd.newIdentity : Kd.Action UInt8 (Kd.LocalIdentityKey UInt8)).eval
      (Kd.answer fun _ s => (none, s)) (⟨fun _ => none, ()⟩ : Kd.World UInt8 Unit) =
        (.ok (Kd.zeroIdentity 1 Kd.firstIds []), ⟨fun _ => none, ()⟩) := rfl

theorem bobSignup_eq : letI := plainFloats; letI := Kd.plainCrypto;
    bobSignup = (Kd.storeIdentity (bytes "bob") (bytes "p") (Kd.keyFile (bytes "/home/b") (bytes "bob"))
      (Kd.zeroIdentity 1 Kd.firstIds [])).eval (Kd.answer fun _ s => (none, s))
        ⟨fun _ => none, ()⟩ := by
  let := plainFloats
  let := Kd.plainCrypto
  have hexists :
      (Kd.fileExists (Kd.keyFile (bytes "/home/b") (bytes "bob")) : Kd.Action UInt8 Bool).eval
      (Kd.answer fun _ s => (none, s)) (⟨fun _ => none, ()⟩ : Kd.World UInt8 Unit) =
        (.ok false, ⟨fun _ => none, ()⟩) := rfl
  rw [bobSignup, Kd.createForSignup_eq, eval_bind, eval_ofExcept, Kd.defaultKeyPath_ok (by decide)]
  simp only [eval_bind, hexists, newIdentity_eval, Bool.false_eq_true, if_false]

theorem answer_onFiles (o : Kd.Op UInt8) (w : Kd.World UInt8 Unit) : Kd.onFiles (fun _ => False) o w
    (Kd.answer (fun _ s => (none, s)) o w).1 (Kd.answer (fun _ s => (none, s)) o w).2 :=
  Kd.exec_answer (fun _ _ => rfl) o w

/-- What Bob's signup leaves. -/
theorem exists_bobSignup : letI := plainFloats; letI := Kd.plainCrypto;
    ∃ material fs, material.publicKeyBundle = zeroBundle Kd.firstIds ∧
      (Kd.createForSignup (bytes "/home/b") (bytes "bob") (bytes "p")).Runs
        (Kd.onFiles fun _ => False) ⟨fun _ => none, ()⟩ (some (.ok material)) ⟨fs, ()⟩ := by
  let := plainFloats
  let := Kd.plainCrypto
  have := Kd.lawfulBase64_plain
  have hrun : (Kd.createForSignup (bytes "/home/b") (bytes "bob") (bytes "p")).Runs
      (Kd.onFiles fun _ => False) ⟨fun _ => none, ()⟩ (some bobSignup.1) bobSignup.2 :=
    runs_eval answer_onFiles _ _
  have hstore : (Kd.storeIdentity (bytes "bob") (bytes "p")
      (Kd.keyFile (bytes "/home/b") (bytes "bob")) (Kd.zeroIdentity 1 Kd.firstIds [])).Runs
        (Kd.onFiles fun _ => False) ⟨fun _ => none, ()⟩ (some bobSignup.1) bobSignup.2 := by
    rw [bobSignup_eq]
    exact runs_eval answer_onFiles _ _
  obtain ⟨⟨outcome, fs, ⟨⟩⟩, heq⟩ : ∃ result, bobSignup = result := ⟨_, rfl⟩
  rw [heq] at hrun hstore
  have hmade := Kd.made_zeroIdentity 1 Kd.firstIds [] (by decide)
  have hok : ∃ material, outcome = .ok material ∧
      material.publicKeyBundle = zeroBundle Kd.firstIds := by
    refine Ensures.of_runs (Kd.ensures_storeIdentity (I := fun _ => True) (σ := Unit)
      (Q := fun x _ => ∃ material : Kd.RegistrationKeyMaterial UInt8, x = .ok material ∧
        material.publicKeyBundle = zeroBundle Kd.firstIds)
      trivial hmade ?_ (fun _ _ _ _ => trivial) ?_ ?_ ?_ ?_) hstore
    · rfl
    · intro salt e herr
      cases herr
    · intro hinvalid
      exact absurd hinvalid (by decide)
    · intro file text bundle publicKeyBundle _ _ hbundle hdump
      refine ⟨_, rfl, ?_⟩
      rw [zeroBundle, show Kd.publicBundle (Kd.zeroIdentity 1 Kd.firstIds []) = .ok bundle from hbundle]
      exact (congrArg (·.getD []) hdump).symm
    · rintro ⟨_, h⟩
      exact h.elim
  obtain ⟨material, rfl, hbundle⟩ := hok
  exact ⟨material, fs, hbundle, hrun⟩

/-- What Alice encrypts for Bob, with the keys of a bundle that lists these prekeys. -/
def aliceEncrypts (text : String) (ids : List UInt64) : Except Kd.Exn Kds.Bytes :=
  letI := plainFloats
  letI := Kd.plainCrypto
  let alice : Kd.LocalIdentityKey UInt8 := Kd.zeroIdentity 1 [] []
  let bob : Kd.LocalIdentityKey UInt8 := Kd.zeroIdentity 1 ids []
  let keys := Kd.keysOf bob bob.oneTimePreKeys
  let ephemeral := List.replicate 32 (0 : UInt8)
  (Kd.senderKey alice.privateKey ephemeral keys).bind fun messageKey =>
    Kd.sealMessage (bytes text) alice.publicKey
      (Kd.base64Encode (Kd.Crypto.boxPublicKey ephemeral)) keys 1 1 2 messageKey
      (List.replicate 24 0)

/-- The letter that the server stores. -/
def aliceLetter (messageId : UInt64) (text : String) (ids : List UInt64) : Letter :=
  ⟨messageId, 1, 1, (aliceEncrypts text ids).toOption.getD [], some 2⟩

theorem aliceEncrypts_eval (text : String) {ids : List UInt64} (h : ids.Nodup) :
    letI := plainFloats; letI := Kd.plainCrypto;
    (Kd.encryptMessage (bytes text) (Kd.zeroIdentity 1 [] []) (zeroBundle ids) 1 1 2).eval
      (Kd.answer fun _ s => (none, s)) (⟨fun _ => none, ()⟩ : Kd.World UInt8 Unit) =
        (aliceEncrypts text ids, ⟨fun _ => none, ()⟩) := by
  let := plainFloats
  let := Kd.plainCrypto
  have hzeros : (Kd.perform .boxKeypair : Kd.Action UInt8 (List UInt8)).eval
      (Kd.answer fun _ s => (none, s)) (⟨fun _ => none, ()⟩ : Kd.World UInt8 Unit) =
        (.ok (List.replicate 32 0), ⟨fun _ => none, ()⟩) := rfl
  rw [Kd.encryptMessage, Kd.recipientKeys_of_publishes (publishes_zeroBundle h), aliceEncrypts]
  simp only [eval_bind, eval_ofExcept, hzeros]
  cases Kd.senderKey (Kd.zeroIdentity 1 [] []).privateKey (List.replicate 32 (0 : UInt8))
    (Kd.keysOf (Kd.zeroIdentity 1 ids []) (Kd.zeroIdentity 1 ids []).oneTimePreKeys) with
  | error e => rfl
  | ok messageKey => rfl

/-- The run behind it, and the prekey that the server reads in it. -/
theorem aliceLetter_encrypted (messageId : UInt64) (text : String) (ids : List UInt64)
    (h : ids.Nodup) : letI := plainFloats; letI := Kd.plainCrypto;
    Kds.oneTimePreKeyIdFromPayload (aliceLetter messageId text ids).payload = ids.head? ∧
      ∃ v, (Kd.encryptMessage (bytes text) (Kd.zeroIdentity 1 [] []) (zeroBundle ids) 1 1 2).Runs
        (Kd.onFiles fun _ => False) ⟨fun _ => none, ()⟩
          (some (.ok (aliceLetter messageId text ids).payload)) v := by
  let := plainFloats
  let := Kd.plainCrypto
  have := Kd.lawfulBase64_plain
  have := Kd.lawfulDh_plain
  have := Kd.lawfulAead_plain
  have hrun := runs_eval answer_onFiles
    (Kd.encryptMessage (bytes text) (Kd.zeroIdentity 1 [] []) (zeroBundle ids) 1 1 2)
    ⟨fun _ => none, ()⟩
  rw [aliceEncrypts_eval text h] at hrun
  rw [aliceLetter]
  obtain ⟨outcome, heq⟩ : ∃ outcome, aliceEncrypts text ids = outcome := ⟨_, rfl⟩
  rw [heq] at hrun ⊢
  obtain ⟨-, payload, hok, -⟩ := (Kd.ensures_encryptMessage (fun _ _ _ => rfl)
    (Kd.made_zeroIdentity 1 [] [] (by decide)) (Kd.made_zeroIdentity 1 ids [] h)
    (List.Sublist.refl _) (publishes_zeroBundle h) (publishes_zeroBundle List.nodup_nil)).of_runs hrun
  cases hok
  refine ⟨?_, _, hrun⟩
  have hnames := (ensures_encryptMessage_names
    (Kd.recipientKeys_of_publishes (publishes_zeroBundle h))).of_runs hrun _ rfl
  refine hnames.trans ?_
  cases ids <;> rfl

/-- Alice's first letter, and one with the bundle that is left then. -/
def firstLetter : Letter := aliceLetter 1 "hi" Kd.firstIds

def secondLetter : Letter := aliceLetter 2 "again" (Kd.firstIds.drop 1)

/-- Both sign up, and Alice sends Bob both letters. -/
def letterSession : List Request :=
  let message (l : Letter) := examplePost aliceToken "/conversations/1/messages"
    [("senderId", .unsigned 1), ("payload", .str l.payload), ("recipientId", .unsigned 2)]
  [exampleSignup "alice" (zeroBundle []), exampleSignup "bob" (zeroBundle Kd.firstIds),
    examplePost aliceToken "/conversations" [("name", .str (bytes "team")),
      ("participantIds", .arr [.unsigned 1, .unsigned 2])],
    message firstLetter, exampleGet aliceToken "/users/2/public-key", message secondLetter]

instance (r : UInt64) (bundle : Option Kds.Bytes) (o : Kds.Op) (res : Kds.Res o) :
    Decidable (Fetched r bundle o res) :=
  match o, res with
  | .getUserPublicKey _, .ok _ => inferInstanceAs (Decidable (_ ∧ _))
  | .getUserPublicKey _, .error _ => isFalse id
  | .epochSeconds, _ | .epochMillis, _ | .revoke .., _ | .isRevoked .., _ => isFalse id
  | .isRateLimited .., _ | .hashPassword .., _ | .createUser .., _ => isFalse id
  | .getUserByUsername .., _ | .getAllUsers, _ | .createMessage .., _ => isFalse id
  | .usersExist .., _ | .createConversation .., _ | .getConversationsByUserId .., _ => isFalse id
  | .getMessagesByConversationIdForUser .., _ | .deleteMessage .., _ => isFalse id
  | .revokeMessageAccess .., _ | .updateMessageBlockchainDigest .., _ => isFalse id
  | .getPendingBlockchainMessages, _ | .isParticipant .., _ | .isMessageSender .., _ => isFalse id
  | .sidecar .., _ => isFalse id

/-- What the session does: both bundles are published, the letters are stored for Bob, no other
is, and what is left of his bundle is fetched. -/
theorem letterSession_eval : letI := examplePrimitives; letI := plainFloats;
    sessionCalls exampleConfig (fun _ o res => signupOf 1 o res = some (zeroBundle []))
        (.initial 1000000) letterSession = true ∧
      sessionCalls exampleConfig (fun _ o res => signupOf 2 o res = some (zeroBundle Kd.firstIds))
        (.initial 1000000) letterSession = true ∧
      sessionCalls exampleConfig (fun s o res => letterOf o res = some firstLetter ∧
          Database.isParticipant s.store 1 2 = true) (.initial 1000000) letterSession = true ∧
      sessionCalls exampleConfig (fun _ o res => letterOf o res = some secondLetter)
        (.initial 1000000) letterSession = true ∧
      sessionCalls exampleConfig (fun _ o res =>
          ∃ l ∈ letterOf o res, l ≠ firstLetter ∧ l ≠ secondLetter)
        (.initial 1000000) letterSession = false ∧
      sessionCalls exampleConfig
        (fun _ o res => Fetched 2 (some (zeroBundle (Kd.firstIds.drop 1))) o res)
        (.initial 1000000) letterSession = true := by
  decide +kernel

/-- The run of the session. -/
theorem letterSession_run : letI := examplePrimitives; letI := plainFloats;
    ∃ tr w, ServerRun exampleConfig (fun _ _ => True) ⟨.initial 1000000, []⟩ tr w ∧
      zeroBundle [] ∈ signups 1 tr ∧ zeroBundle Kd.firstIds ∈ signups 2 tr ∧
      GivesOut tr 2 (zeroBundle (Kd.firstIds.drop 1)) ∧
      (∀ l, l ∈ letters tr ↔ l = firstLetter ∨ l = secondLetter) ∧
      ∃ x ∈ tr, x.2.IsCall fun o res => letterOf o res = some firstLetter ∧
        Database.isParticipant x.1.state.store 1 2 = true := by
  let := examplePrimitives
  let := plainFloats
  obtain ⟨tr, hrun, -, hcalls⟩ := run_session letterSession (.initial 1000000) []
  obtain ⟨halice, hbob, hfirst, hsecond, hother, hfetched⟩ := letterSession_eval
  have hfirst' := (hcalls _).mp hfirst
  refine ⟨tr, _, hrun, mem_records.mpr ((hcalls _).mp halice), mem_records.mpr ((hcalls _).mp hbob),
    givesOut_of_fetched rfl hrun ((hcalls _).mp hfetched), fun l => ?_, hfirst'⟩
  rw [letters, mem_records]
  constructor
  · rintro ⟨x, hx, hl⟩
    by_contra hne
    rw [not_or] at hne
    refine absurd ((hcalls _).mpr ⟨x, hx, hl.mono fun o res heq => ?_⟩) (by rw [hother]; decide)
    exact ⟨l, heq, hne⟩
  · rintro (rfl | rfl)
    · obtain ⟨x, hx, hl⟩ := hfirst'
      exact ⟨x, hx, hl.mono fun o res h => h.1⟩
    · exact (hcalls _).mp hsecond

/-- Bob logs in, reads what Alice has written first, and then her second letter. -/
theorem letter_read_example : letI := examplePrimitives; letI := plainFloats; letI := Kd.plainCrypto;
    ∃ tr w bundle k fs x v,
      ServerRun exampleConfig (fun _ _ => True) ⟨.initial 1000000, []⟩ tr w ∧
      Mailbox (bytes "/home/b") (bytes "bob") (bytes "p") tr 2 bundle [k] [1] fs ∧
      (Kd.decryptMessage secondLetter.payload k (zeroBundle []) 1 1 2).Runs
        (Kd.onFiles fun _ => False) ⟨fs, ()⟩ (some x) v ∧ ∃ k', x = .ok (k', .ok (bytes "again")) := by
  let := examplePrimitives
  let := plainFloats
  let := Kd.plainCrypto
  have := Kd.lawfulBase64_plain
  have := Kd.lawfulDh_plain
  have := Kd.lawfulSigning_plain
  have := Kd.lawfulAead_plain
  obtain ⟨tr, w, hrun, halice, hbob, hfetched, hletters, -⟩ := letterSession_run
  have hsender := Kd.made_zeroIdentity 1 [] [] List.nodup_nil
  have hpublished := publishes_zeroBundle List.nodup_nil
  have hgives := givesOut_published rfl hrun halice
  -- Bob's keys
  obtain ⟨material, fs, hbundle, hsignup⟩ := exists_bobSignup
  have hmailbox : Mailbox _ _ _ tr 2 _ _ _ _ := .signup hsignup
  rw [hbundle] at hmailbox
  obtain ⟨identity, file, hhome, hkey, hlists, ⟨recorded, hholds, hrecorded⟩, -⟩ :=
    mailbox_inv hmailbox
  obtain ⟨y, ⟨fs', ⟨⟩⟩, hlogin⟩ := exists_runs (Kd.onFiles_total fun _ => False)
    (Kd.loadForLogin (bytes "/home/b") (bytes "bob") (bytes "p")) ⟨fs, ()⟩
  obtain ⟨-, rfl⟩ := (Kd.ensures_loadForLogin_all (I := fun _ => True) trivial hhome hkey
    hholds).of_runs hlogin
  have hsession : Mailbox _ _ _ tr 2 _ ([] ++ _ :: []) [] fs' := hmailbox.login hlogin
  -- the first letter
  obtain ⟨hread, v₁, hencrypt⟩ := aliceLetter_encrypted 1 "hi" Kd.firstIds (by decide)
  obtain ⟨⟨x₁, ⟨fs₁, ⟨⟩⟩, hdecrypt⟩, hall⟩ := letter_read (fun _ _ _ => rfl) hrun
    ((hletters _).mpr (.inl rfl)) rfl (by decide) hsession hbob List.not_mem_nil hsender hpublished
    halice (givesOut_published rfl hrun hbob) hencrypt hgives List.mem_cons_self
  obtain ⟨k, rfl⟩ := hall _ _ hdecrypt
  have hfresh : ∀ id, Kds.oneTimePreKeyIdFromPayload firstLetter.payload = some id →
      id ∉ recorded := by
    intro id _ hmem
    obtain ⟨l, -, -, hnone⟩ := hrecorded id hmem
    cases hnone
  have hopen := openMessage_letter (fun _ _ _ => rfl) hkey.made hlists hbob hsender hpublished halice
    (givesOut_published rfl hrun hbob) hencrypt hgives recorded hfresh
    (Kd.keyFile (bytes "/home/b") (bytes "bob"))
  have hfirst : Mailbox (bytes "/home/b") (bytes "bob") (bytes "p") tr 2 (zeroBundle Kd.firstIds)
      ([] ++ k :: []) ([] ++ [firstLetter.messageId]) fs₁ := by
    refine Mailbox.read hsession ((hletters firstLetter).mpr (.inl rfl)) ?_ hdecrypt
    intro plaintext id heq
    exact ⟨rfl, by decide, (Prod.mk.inj (Except.ok.inj (hopen.symm.trans heq))).2⟩
  -- the second letter
  obtain ⟨-, v₂, hencrypt₂⟩ := aliceLetter_encrypted 2 "again" (Kd.firstIds.drop 1) (by decide)
  obtain ⟨⟨x, v, hdecrypt₂⟩, hall₂⟩ := letter_read (fun _ _ _ => rfl) hrun
    ((hletters _).mpr (.inr rfl)) rfl (by decide) hfirst hbob
    (by change secondLetter.messageId ∉ [firstLetter.messageId]; decide) hsender hpublished
    halice hfetched hencrypt₂ hgives List.mem_cons_self
  exact ⟨tr, w, _, k, fs₁, x, v, hrun, hfirst, hdecrypt₂, hall₂ x v hdecrypt₂⟩

end Protocol
