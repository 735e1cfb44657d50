import Kingdom.Client.KeyFile
import Kingdom.Client.Messages

/-!
# A one-time prekey is used once

The keys of a user over any number of sessions: in each one the list in memory
shrinks, and between them the key file says what is left.  Any operation on the file
may fail, and the process may stop.

* `Decrypting` — what one call of `decryptMessage` does to the keys and the file.
* `KeyRun` — the logins and calls that follow a signup.
* `KeyInv` — the invariant of a run: what was returned is recorded, and what is in
  memory is not.
* `prekey_used_once` — no two calls of a run return plaintexts for one prekey, and a
  call that returns one uses up its prekey and no other.
-/

namespace Kd

open Codec Process Storage Prog

variable {α : Type} [Alphabet α] [Crypto α] [FloatFormat] [DecidableEq α]

/-! ## One call -/

/-- The keys without a one-time prekey. -/
def LocalIdentityKey.without (k : LocalIdentityKey α) (id : UInt64) : LocalIdentityKey α :=
  { k with oneTimePreKeys := k.oneTimePreKeys.filter (·.id ≠ id) }

omit [Alphabet α] [Crypto α] [FloatFormat] [DecidableEq α] in
/-- Taking out the first prekey with an id takes out every one. -/
theorem eraseP_eq_filter {keys : List (LocalPreKey α)} (h : (keys.map (·.id)).Nodup)
    (id : UInt64) : keys.eraseP (·.id = id) = keys.filter (·.id ≠ id) := by
  induction keys with
  | nil => rfl
  | cons k keys ih =>
      rw [List.map_cons, List.nodup_cons] at h
      by_cases hk : k.id = id
      · have hrest : keys.filter (·.id ≠ id) = keys := by
          refine List.filter_eq_self.mpr fun x hx => ?_
          have hne : x.id ≠ id := fun he => h.1 (hk ▸ he ▸ List.mem_map_of_mem hx)
          simpa using hne
        rw [List.eraseP_cons_of_pos (by simpa using hk), List.filter_cons_of_neg (by simpa using hk),
          hrest]
      · rw [List.eraseP_cons_of_neg (by simpa using hk), List.filter_cons_of_pos (by simpa using hk),
          ih h.2]

/-- **What a payload that opens says of its prekey**: it names it, and the recipient
has it. -/
theorem openMessage_preKey {payload senderBundle plaintext : List α}
    {recipient : LocalIdentityKey α} {conversationId senderId recipientId : UInt64}
    {id : Option UInt64}
    (h : openMessage payload recipient senderBundle conversationId senderId recipientId =
      .ok (plaintext, id)) :
    oneTimePreKeyIdFromPayload payload = .ok id ∧
      ∀ k ∈ id, ∃ x ∈ recipient.oneTimePreKeys, x.id = k := by
  obtain ⟨j, f, bundle, key, hj, hof, -, -, -, hopens, rfl⟩ := openMessage_ok.mp h
  obtain ⟨v, hv, hnames⟩ := hof.oneTimePreKeyId
  refine ⟨?_, fun k hk => ?_⟩
  · rw [oneTimePreKeyIdFromPayload, hj, ok_bind, hv]
    cases hid : f.oneTimePreKeyId with
    | none =>
        rw [hid] at hnames
        obtain rfl : v = .null := hnames
        rfl
    | some k =>
        rw [hid] at hnames
        have hk : v.uint64? = some k := hnames
        split
        · rename_i heq
          cases heq
        · rename_i heq
          cases heq
          cases hk
        · rename_i heq
          cases heq
          exact bind_ok.mpr ⟨k, getUInt64_ok.mpr hk, rfl⟩
  · rw [hopens.oneTimePreKeyId] at hk
    obtain ⟨x, hx, rfl⟩ := Option.map_eq_some_iff.mp hk
    exact ⟨x, List.mem_of_find?_eq_some (hopens.found x hx), rfl⟩

/-- What a call of `decryptMessage` does with keys whose file records `used`: it uses
no prekey and changes nothing, or it takes one from memory and records it. -/
inductive Decrypting (mayFail : FileOp Bytes α → Prop) (path : Bytes) (file : Json α)
    (used : List UInt64) (payload : List α) (k : LocalIdentityKey α) (fs : Files Bytes α) :
    LocalIdentityKey α → Except Exn (List α) → Files Bytes α → Prop where
  | unchanged {outcome}
      (hid : ∀ m, outcome = .ok m → oneTimePreKeyIdFromPayload payload = .ok none) :
      Decrypting mayFail path file used payload k fs k outcome fs
  | erased {id outcome fs'} (hid : oneTimePreKeyIdFromPayload payload = .ok (some id))
      (hmem : ∃ x ∈ k.oneTimePreKeys, x.id = id)
      (hcut : Partial path (recorded file (used ++ [id])) fs fs')
      (hok : ∀ m, outcome = .ok m → (fs path).bind Json.parse = some (recorded file used) ∧
        Written (Closes mayFail path) path (recorded file (used ++ [id])) fs fs') :
      Decrypting mayFail path file used payload k fs (k.without id) outcome fs'

section Call

variable {σ : Type} {mayFail : FileOp Bytes α → Prop}
  {net : HttpRequest α → σ → Option (HttpResponse α) → σ → Prop} {w : World α σ}
  {username password : List α} {identity : LocalIdentityKey α} {file : Json α} {path : Bytes}
  {used : List UInt64}

/-- What the file may hold while prekeys are recorded in it. -/
def Recording (path : Bytes) (file : Json α) (used : List UInt64) (fs fs' : Files Bytes α) : Prop :=
  ∃ id, Partial path (recorded file (used ++ [id])) fs fs'

/-- **One call of `decryptMessage`.** -/
theorem ensures_decryptMessage {payload senderBundle : List α} {k : LocalIdentityKey α}
    {conversationId senderId recipientId : UInt64}
    (hkey : IsKeyFile username password identity file) (hholds : Holds path file used w.files)
    (hpath : path ≠ []) (hk : k.keyFilePath = path) (hnodup : (k.oneTimePreKeys.map (·.id)).Nodup)
    (hfresh : ∀ x ∈ k.oneTimePreKeys, x.id ∉ used) :
    (decryptMessage payload k senderBundle conversationId senderId recipientId).Ensures
      (exec mayFail net) (fun w' => Recording path file used w.files w'.files) w fun x w' =>
        ∃ k' outcome, x = .ok (k', outcome) ∧
          Decrypting mayFail path file used payload k w.files k' outcome w'.files := by
  subst hk
  have hstart : Recording k.keyFilePath file used w.files w.files := ⟨0, .inl rfl⟩
  rw [decryptMessage]
  cases hopen : openMessage payload k senderBundle conversationId senderId recipientId with
  | error e => exact ⟨hstart, k, _, rfl, .unchanged fun m h => by cases h⟩
  | ok r =>
      obtain ⟨plaintext, id⟩ := r
      obtain ⟨hid, hmem⟩ := openMessage_preKey hopen
      cases id with
      | none => exact ⟨hstart, k, _, rfl, .unchanged fun m _ => hid⟩
      | some id =>
          obtain ⟨x, hx, hxid⟩ := hmem id rfl
          have hunused : id ∉ used := hxid ▸ hfresh x hx
          have hany : k.oneTimePreKeys.any (·.id = id) = true :=
            List.any_eq_true.mpr ⟨x, hx, by simpa using hxid⟩
          have hwithout : { k with oneTimePreKeys := k.oneTimePreKeys.eraseP (·.id = id) } =
              k.without id := by
            rw [LocalIdentityKey.without, eraseP_eq_filter hnodup]
          simp only
          rw [eraseOneTimePreKey, if_pos hany, if_neg hpath, hwithout, ensures_bind, ensures_bind,
            ensures_attempt]
          refine ensures_weaken (ensures_mono (ensures_recordUsed hkey hholds hunused).withInv ?_) ?_
          · rintro y w' ⟨hcut, hy⟩
            refine ⟨⟨id, hcut⟩, ⟨id, hcut⟩, _, _, rfl,
              .erased hid ⟨x, hx, hxid⟩ hcut fun m hm => hy ?_⟩
            cases y with
            | ok _ => rfl
            | error e => cases hm
          · intro w' h
            exact ⟨id, h⟩

/-- **A message that opens is decrypted** when nothing fails, and its prekey recorded. -/
theorem ensures_decryptMessage_all {payload senderBundle plaintext : List α}
    {k : LocalIdentityKey α} {conversationId senderId recipientId id : UInt64}
    (hkey : IsKeyFile username password identity file) (hholds : HoldsAll path file used w.files)
    (hpath : path ≠ []) (hk : k.keyFilePath = path) (hnodup : (k.oneTimePreKeys.map (·.id)).Nodup)
    (hfresh : ∀ x ∈ k.oneTimePreKeys, x.id ∉ used)
    (hopen : openMessage payload k senderBundle conversationId senderId recipientId =
      .ok (plaintext, some id)) :
    (decryptMessage payload k senderBundle conversationId senderId recipientId).Ensures
      (exec (fun _ => False) net) (fun _ => True) w fun x w' =>
        x = .ok (k.without id, .ok plaintext) ∧ HoldsAll path file (used ++ [id]) w'.files ∧
        (∀ p ≠ path, w'.files p = w.files p) ∧ w'.server = w.server ∧
        ∀ k ∉ keyFileFields, ((w'.files path).bind Json.parse).bind (·.get? k) =
          (((w.files path).bind Json.parse).bind (·.get? k)).map Json.norm := by
  subst hk
  obtain ⟨-, hmem⟩ := openMessage_preKey hopen
  obtain ⟨x, hx, hxid⟩ := hmem id rfl
  have hunused : id ∉ used := hxid ▸ hfresh x hx
  have hany : k.oneTimePreKeys.any (·.id = id) = true :=
    List.any_eq_true.mpr ⟨x, hx, by simpa using hxid⟩
  have hwithout : { k with oneTimePreKeys := k.oneTimePreKeys.eraseP (·.id = id) } =
      k.without id := by
    rw [LocalIdentityKey.without, eraseP_eq_filter hnodup]
  rw [decryptMessage, hopen]
  simp only
  rw [eraseOneTimePreKey, if_pos hany, if_neg hpath, hwithout, ensures_bind, ensures_bind,
    ensures_attempt]
  refine ensures_mono (ensures_recordUsed_all hkey hholds hunused) ?_
  rintro _ w' ⟨rfl, hrest⟩
  exact ⟨trivial, trivial, rfl, hrest⟩

end Call

/-! ## Runs -/

/-- A call of `decryptMessage` that has ended. -/
structure DecryptCall (α : Type) where
  payload : List α
  /-- The keys in memory. -/
  before : LocalIdentityKey α
  after : LocalIdentityKey α
  /-- The file operations that could fail during the call. -/
  mayFail : FileOp Bytes α → Prop
  filesBefore : Files Bytes α
  filesAfter : Files Bytes α
  outcome : Except Exn (List α)

/-- The payload carries the prekey, and a plaintext was returned. -/
def DecryptCall.Returned (c : DecryptCall α) (id : UInt64) : Prop :=
  oneTimePreKeyIdFromPayload c.payload = .ok (some id) ∧ ∃ m, c.outcome = .ok m

/-- The calls of one user after a signup, one session at a time: the calls that ended,
the keys in memory and the files.  Whatever may fail does so, or not, in each of the
calls. -/
inductive KeyRun (home : Bytes) (username password : List α) :
    List (DecryptCall α) → Option (LocalIdentityKey α) → Files Bytes α → Prop where
  | signup {mayFail fs₀ material fs}
      (h : (createForSignup home username password).Runs (onFiles mayFail) ⟨fs₀, ()⟩
        (some (.ok material)) ⟨fs, ()⟩) :
      KeyRun home username password [] none fs
  | logout {log session fs} (h : KeyRun home username password log session fs) :
      KeyRun home username password log none fs
  | login {log session fs mayFail k fs'} (h : KeyRun home username password log session fs)
      (hlogin : (loadForLogin home username password).Runs (onFiles mayFail) ⟨fs, ()⟩
        (some (.ok k)) ⟨fs', ()⟩) :
      KeyRun home username password log (some k) fs'
  /-- A login that fails or does not end, with whatever username and password. -/
  | noLogin {log session fs mayFail username' password' x fs'}
      (h : KeyRun home username password log session fs)
      (hlogin : (loadForLogin home username' password').Runs (onFiles mayFail) ⟨fs, ()⟩ x
        ⟨fs', ()⟩) (hx : ∀ k, x ≠ some (.ok k)) :
      KeyRun home username password log session fs'
  | decrypt {log k fs mayFail payload senderBundle conversationId senderId recipientId k' outcome
      fs'} (h : KeyRun home username password log (some k) fs)
      (hcall : (decryptMessage payload k senderBundle conversationId senderId recipientId).Runs
        (onFiles mayFail) ⟨fs, ()⟩ (some (.ok (k', outcome))) ⟨fs', ()⟩) :
      KeyRun home username password
        (log ++ [⟨payload, k, k', mayFail, fs, fs', outcome⟩]) (some k') fs'
  /-- The process stops during a call. -/
  | stop {log k fs mayFail payload senderBundle conversationId senderId recipientId fs'}
      (h : KeyRun home username password log (some k) fs)
      (hcall : (decryptMessage payload k senderBundle conversationId senderId recipientId).Runs
        (onFiles mayFail) ⟨fs, ()⟩ none ⟨fs', ()⟩) :
      KeyRun home username password log none fs'

/-- What a call that returned a plaintext for a prekey has used up: the prekey in
memory, and exactly its id is new among those recorded in the file.  The file may have
been cut only when closing it failed, which goes unnoticed. -/
structure UsesUp (path : Bytes) (id : UInt64) (c : DecryptCall α) : Prop where
  inMemory : (∃ x ∈ c.before.oneTimePreKeys, x.id = id) ∧ c.after = c.before.without id
  inFile : ∃ before after text t used,
    (c.filesBefore path).bind Json.parse = some before ∧ recordedIds before = .ok used ∧
    id ∉ used ∧ Json.parse text = some after ∧ recordedIds after = .ok (used ++ [id]) ∧
    (∀ key ≠ usedField, after.get? key = before.get? key) ∧ t <+: text ∧
    (Closes c.mayFail path → t = text) ∧
    c.filesAfter = Function.update c.filesBefore path (some t)

/-- The invariant of a run. -/
structure KeyInv (path : Bytes) (file : Json α) (used : List UInt64) (log : List (DecryptCall α))
    (session : Option (LocalIdentityKey α)) (fs : Files Bytes α) : Prop where
  holds : Holds path file used fs
  /-- What was returned is recorded … -/
  returned : ∀ c ∈ log, ∀ id, c.Returned id → id ∈ used
  /-- … and what is in memory is not. -/
  session : ∀ k ∈ session, k.keyFilePath = path ∧ (k.oneTimePreKeys.map (·.id)).Nodup ∧
    ∀ x ∈ k.oneTimePreKeys, x.id ∉ used

section Steps

variable {username password : List α} {identity : LocalIdentityKey α} {file : Json α}
  {path : Bytes} {used : List UInt64} {log : List (DecryptCall α)}
  {session : Option (LocalIdentityKey α)} {fs fs' : Files Bytes α}

omit [Crypto α] [DecidableEq α] in
/-- A session that ends, and one that goes on with the same files. -/
theorem KeyInv.endSession (h : KeyInv path file used log session fs) :
    KeyInv path file used log none fs :=
  ⟨h.holds, h.returned, fun _ hk => by cases hk⟩

omit [Crypto α] [DecidableEq α] in
/-- A file that may have been written to, without a call that returned. -/
theorem KeyInv.stopped (h : KeyInv path file used log session fs)
    (hfs : Recording path file used fs fs') : ∃ used', KeyInv path file used' log none fs' := by
  obtain ⟨id, hcut⟩ := hfs
  rcases Holds.of_cut hcut with rfl | hholds
  · exact ⟨used, h.endSession⟩
  · exact ⟨used ++ [id], hholds,
      fun c hc id' hret => List.mem_append_left _ (h.returned c hc id' hret), fun _ hk => by cases hk⟩

omit [DecidableEq α] in
/-- A login starts with what is not recorded. -/
theorem KeyInv.login (h : KeyInv path file used log session fs) (hmade : identity.Made) :
    KeyInv path file used log (some (identity.unused used path)) fs := by
  refine ⟨h.holds, h.returned, ?_⟩
  rintro _ ⟨⟩
  refine ⟨rfl, ?_, fun x hx => by simpa using (List.mem_filter.mp hx).2⟩
  exact hmade.distinct.sublist (List.filter_sublist.map _)

omit [DecidableEq α] in
/-- **A call of `decryptMessage` keeps the invariant**; when it returns a plaintext for
a prekey, no call before it did, and it uses the prekey up. -/
theorem KeyInv.decrypt {mayFail : FileOp Bytes α → Prop} {payload : List α}
    {k k' : LocalIdentityKey α} {outcome : Except Exn (List α)}
    (hkey : IsKeyFile username password identity file)
    (h : KeyInv path file used log (some k) fs)
    (hcall : Decrypting mayFail path file used payload k fs k' outcome fs') :
    let c : DecryptCall α := ⟨payload, k, k', mayFail, fs, fs', outcome⟩
    (∃ used', KeyInv path file used' (log ++ [c]) (some k') fs') ∧
      ∀ id, c.Returned id → (∀ c' ∈ log, ¬ c'.Returned id) ∧ UsesUp path id c := by
  obtain ⟨hpath, hnodup, hfresh⟩ := h.session k rfl
  -- the log grows by a call that returned, if at all, for a prekey recorded in `used'`
  have hlog : ∀ used' : List UInt64, (∀ id ∈ used, id ∈ used') →
      (∀ id, oneTimePreKeyIdFromPayload payload = .ok (some id) → (∃ m, outcome = .ok m) →
        id ∈ used') →
      ∀ c ∈ log ++ [⟨payload, k, k', mayFail, fs, fs', outcome⟩], ∀ id, c.Returned id →
        id ∈ used' := by
    intro used' hsub hnew c hc id hret
    rcases List.mem_append.mp hc with hc | hc
    · exact hsub id (h.returned c hc id hret)
    · rw [List.mem_singleton.mp hc] at hret
      exact hnew id hret.1 hret.2
  cases hcall with
  | unchanged hid =>
      have hnever : ∀ id, oneTimePreKeyIdFromPayload payload = .ok (some id) →
          ¬ ∃ m, outcome = .ok m := by
        rintro id hsome ⟨m, hm⟩
        have hnone := hid m hm
        rw [hsome] at hnone
        cases hnone
      refine ⟨⟨used, h.holds, hlog used (fun _ h => h) ?_, h.session⟩, ?_⟩
      · intro id hsome hok
        exact absurd hok (hnever id hsome)
      · intro id hret
        exact absurd hret.2 (hnever id hret.1)
  | @erased id _ _ hid hmem hcut hok =>
      obtain ⟨x, hx, rfl⟩ := hmem
      have hunused : x.id ∉ used := hfresh x hx
      have hsame : ∀ id, oneTimePreKeyIdFromPayload payload = .ok (some id) → id = x.id := by
        intro id hsome
        rw [hid] at hsome
        cases hsome
        rfl
      have hsession : ∀ used' : List UInt64, (∀ y ∈ (k.without x.id).oneTimePreKeys, y.id ∉ used') →
          ∀ k'' ∈ some (k.without x.id), k''.keyFilePath = path ∧
            (k''.oneTimePreKeys.map (·.id)).Nodup ∧ ∀ y ∈ k''.oneTimePreKeys, y.id ∉ used' := by
        rintro used' hused' _ ⟨⟩
        exact ⟨hpath, hnodup.sublist (List.filter_sublist.map _), hused'⟩
      have hold : ∀ y ∈ (k.without x.id).oneTimePreKeys, y.id ∉ used :=
        fun y hy => hfresh y (List.mem_filter.mp hy).1
      have hnew : ∀ y ∈ (k.without x.id).oneTimePreKeys, y.id ∉ used ++ [x.id] := by
        intro y hy hin
        rcases List.mem_append.mp hin with hin | hin
        · exact hold y hy hin
        · have hne := (List.mem_filter.mp hy).2
          rw [List.mem_singleton.mp hin] at hne
          simp at hne
      have hrecorded : Holds path file (used ++ [x.id]) fs' →
          ∃ used', KeyInv path file used'
            (log ++ [⟨payload, k, k.without x.id, mayFail, fs, fs', outcome⟩])
            (some (k.without x.id)) fs' := by
        intro hholds
        refine ⟨used ++ [x.id], hholds, hlog _ (fun id h => List.mem_append_left _ h) ?_,
          hsession _ hnew⟩
        intro id hsome _
        rw [hsame id hsome]
        exact List.mem_append_right _ (List.mem_singleton_self _)
      refine ⟨?_, ?_⟩
      · cases houtcome : outcome with
        | ok m =>
            have hwritten := (hok m houtcome).2
            exact houtcome ▸ hrecorded (Holds.of_written hwritten)
        | error e =>
            subst houtcome
            rcases Holds.of_cut hcut with rfl | hholds
            · refine ⟨used, h.holds, hlog used (fun _ h => h) ?_, hsession _ hold⟩
              rintro id - ⟨m, hm⟩
              cases hm
            · exact hrecorded hholds
      · rintro id ⟨hsome, m, hm⟩
        obtain rfl := hsame id hsome
        obtain ⟨hparse, text, t, htext, ht, hfull, hfs⟩ := hok m hm
        obtain ⟨-, hwf, hnorm⟩ := hkey.recorded_norm (used ++ [x.id])
        refine ⟨fun c' hc' hret => hunused (h.returned c' hc' _ hret), ⟨⟨x, hx, rfl⟩, rfl⟩,
          recorded file used, recorded file (used ++ [x.id]), text, t, used, hparse,
          recordedIds_recorded hkey used, hunused, ?_, recordedIds_recorded hkey _, ?_, ht, hfull,
          hfs⟩
        · rw [parse_text hwf htext, hnorm]
        · intro key hne
          rw [hkey.get?_recorded, hkey.get?_recorded, if_neg hne, if_neg hne]

end Steps

/-- **A one-time prekey decrypts at most once**, over any number of sessions and
whatever fails; and a call that returns a plaintext for a prekey uses up this one and no
other. -/
theorem prekey_used_once [LawfulBase64 α] [LawfulDh α] [LawfulSigning α] [LawfulAead α]
    {home : Bytes} {username password : List α} {log : List (DecryptCall α)}
    {session : Option (LocalIdentityKey α)} {fs : Files Bytes α}
    (h : KeyRun home username password log session fs) :
    (log.Pairwise fun c c' => ∀ id, c.Returned id → ¬ c'.Returned id) ∧
      ∀ c ∈ log, ∀ id, c.Returned id → UsesUp (keyFile home username) id c := by
  suffices hinv : ∃ identity file used, IsKeyFile username password identity file ∧
      KeyInv (keyFile home username) file used log session fs ∧
      (log.Pairwise fun c c' => ∀ id, c.Returned id → ¬ c'.Returned id) ∧
        ∀ c ∈ log, ∀ id, c.Returned id → UsesUp (keyFile home username) id c by
    obtain ⟨-, -, -, -, -, hresult⟩ := hinv
    exact hresult
  induction h with
  | @signup mayFail fs₀ material fs hrun =>
      have hsignup := Prog.Ensures.of_runs (ensures_createForSignup (I := fun _ => True)
        (Q := fun x w => ∀ m, x = .ok m → ∃ identity file,
          IsKeyFile username password identity file ∧
            Holds (keyFile home username) file [] w.files)
        trivial (fun _ _ _ _ _ _ => trivial) (fun e _ m h => by cases h)
        (fun _ _ e m h => by cases h) ?_ ?_) hrun
      · obtain ⟨identity, file, hkey, hholds⟩ := hsignup material rfl
        exact ⟨identity, file, [], hkey, ⟨hholds, by simp, by simp⟩, .nil, by simp⟩
      · intro _ identity file text bundle publicKeyBundle hkey htext _ _ m _
        have hfull : Written (Closes mayFail (keyFile home username))
          (keyFile home username) file fs₀ _ := .full htext
        exact ⟨identity, file, hkey, Holds.of_written (hkey.recorded_nil.symm ▸ hfull)⟩
      · intro _ _ identity file x fs hkey _ hwritten m hm
        exact ⟨identity, file, hkey, Holds.of_written (hkey.recorded_nil.symm ▸ hwritten m hm)⟩
  | logout _ ih =>
      obtain ⟨identity, file, used, hkey, hinv, hresult⟩ := ih
      exact ⟨identity, file, used, hkey, hinv.endSession, hresult⟩
  | login _ hlogin ih =>
      obtain ⟨identity, file, used, hkey, hinv, hresult⟩ := ih
      obtain ⟨hw, hk⟩ := Prog.Ensures.of_runs
        (ensures_loadForLogin (I := fun _ => True) trivial hkey hinv.holds) hlogin
      cases hw
      rw [hk _ rfl]
      exact ⟨identity, file, used, hkey, hinv.login hkey.made, hresult⟩
  | noLogin _ hlogin _ ih =>
      obtain ⟨identity, file, used, hkey, hinv, hresult⟩ := ih
      have hw := (Prog.ensures_iff.mp (loadForLogin_files rfl) _ _ hlogin).1
      cases hw
      exact ⟨identity, file, used, hkey, hinv, hresult⟩
  | decrypt _ hcall ih =>
      obtain ⟨identity, file, used, hkey, hinv, honce, huses⟩ := ih
      obtain ⟨hpath, hnodup, hfresh⟩ := hinv.session _ rfl
      obtain ⟨k', outcome, hx, hdec⟩ := Prog.Ensures.of_runs
        (ensures_decryptMessage hkey hinv.holds (keyFile_ne_nil home username) hpath hnodup hfresh)
        hcall
      cases hx
      obtain ⟨⟨used', hinv'⟩, hnew⟩ := hinv.decrypt hkey hdec
      refine ⟨identity, file, used', hkey, hinv', ?_, ?_⟩
      · refine List.pairwise_append.mpr ⟨honce, List.pairwise_singleton _ _, ?_⟩
        intro c hc c' hc' id hret hret'
        rw [List.mem_singleton.mp hc'] at hret'
        exact (hnew id hret').1 c hc hret
      · intro c hc id hret
        rcases List.mem_append.mp hc with hc | hc
        · exact huses c hc id hret
        · rw [List.mem_singleton.mp hc] at hret ⊢
          exact (hnew id hret).2
  | stop _ hcall ih =>
      obtain ⟨identity, file, used, hkey, hinv, hresult⟩ := ih
      obtain ⟨hpath, hnodup, hfresh⟩ := hinv.session _ rfl
      have hfs := (Prog.ensures_iff.mp (ensures_decryptMessage hkey hinv.holds
        (keyFile_ne_nil home username) hpath hnodup hfresh) _ _ hcall).1
      obtain ⟨used', hinv'⟩ := hinv.stopped hfs
      exact ⟨identity, file, used', hkey, hinv', hresult⟩

omit [FloatFormat] in
/-- A user who has signed up and logged in gets the same payload twice. -/
theorem prekey_used_once_example : letI := plainFloats; letI := plainCrypto;
    ∃ log : List (DecryptCall UInt8), log.map (·.outcome.toOption) = [some (bytes "hello"), none] ∧
      (log.Pairwise fun c c' => ∀ id, c.Returned id → ¬ c'.Returned id) ∧
      ∀ c ∈ log, ∀ id, c.Returned id → UsesUp (keyFile (bytes "/home/a") (bytes "a")) id c := by
  let := plainFloats
  let := plainCrypto
  have := lawfulBase64_plain
  have := lawfulDh_plain
  have := lawfulSigning_plain
  have := lawfulAead_plain
  obtain ⟨material, identity, file, fs, hsignup, hkey, hholds⟩ :=
    exists_signup (bytes "/home/a") (bytes "a") (bytes "p") (fun _ => none) (by decide) (by decide)
      rfl fun salt => ⟨_, rfl⟩
  obtain ⟨x, w, hlogin⟩ := Prog.exists_runs (onFiles_total fun _ => False)
    (loadForLogin (bytes "/home/a") (bytes "a") (bytes "p")) ⟨fs, ()⟩
  obtain ⟨rfl, rfl⟩ := Prog.Ensures.of_runs
    (ensures_loadForLogin_all (I := fun _ => True) trivial (by decide) hkey hholds) hlogin
  -- a payload for the first prekey
  obtain ⟨key, hmem⟩ : ∃ key, key ∈ identity.oneTimePreKeys := by
    refine List.exists_mem_of_ne_nil _ fun hnil => ?_
    have hids := hkey.ids
    rw [hnil] at hids
    exact absurd hids (by decide)
  have hmade := hkey.made.unused [] (keyFile (bytes "/home/a") (bytes "a"))
  let keys : RecipientKeys UInt8 := ⟨identity.publicKey, identity.signedPreKey.id,
    identity.signedPreKey.publicKey, some (key.id, key.publicKey)⟩
  have hmatch : keys.Match (identity.unused [] (keyFile (bytes "/home/a") (bytes "a"))) := by
    refine ⟨rfl, rfl, rfl, ?_⟩
    rintro _ ⟨⟩
    exact ⟨key, by simpa [LocalIdentityKey.unused] using hmem, rfl⟩
  have hvalid : validUtf8 identity.publicKey = true :=
    hkey.made.publicKey ▸ LawfulBase64.validUtf8_encode _
  obtain ⟨messageKey, hmessageKey⟩ :=
    exists_senderKey hmade hmatch (fun _ _ _ => rfl) identity.privateKey []
  obtain ⟨payload, hpayload⟩ := exists_sealMessage (bytes "hello") keys 1 2 3 messageKey
    (List.replicate 24 0) hvalid (LawfulBase64.validUtf8_encode (Crypto.boxPublicKey [])) hvalid
  obtain ⟨bundle, text, -, hbundle, haccepted, hidentity⟩ := exists_bundle hkey.made "senderBundle"
  have hopen := openMessage_sealMessage hkey.made hmade hmatch hmessageKey
    List.length_replicate hpayload hbundle haccepted hidentity
  -- it is decrypted once
  obtain ⟨x, w', hfirst⟩ := Prog.exists_runs (onFiles_total fun _ => False)
    (decryptMessage payload (identity.unused [] (keyFile (bytes "/home/a") (bytes "a"))) text 1 2 3)
    ⟨fs, ()⟩
  obtain ⟨rfl, -⟩ := Prog.Ensures.of_runs (ensures_decryptMessage_all hkey hholds
    (keyFile_ne_nil _ _) rfl hmade.distinct (by simp) hopen) hfirst
  -- and refused after that
  let left := (identity.unused [] (keyFile (bytes "/home/a") (bytes "a"))).without key.id
  obtain ⟨e, he⟩ : ∃ e, openMessage payload left text 1 2 3 = .error e := by
    cases hagain : openMessage payload left text 1 2 3 with
    | error e => exact ⟨e, rfl⟩
    | ok r =>
        obtain ⟨hid, hkeys⟩ := openMessage_preKey hagain
        have hsame : r.2 = some key.id := Except.ok.inj (hid.symm.trans (openMessage_preKey hopen).1)
        obtain ⟨y, hy, hyid⟩ := hkeys key.id hsame
        have hne := (List.mem_filter.mp hy).2
        simp [hyid] at hne
  have hsecond : (decryptMessage payload left text 1 2 3).Runs (onFiles fun _ => False) w'
      (some (.ok (left, .error e))) w' := by
    rw [decryptMessage, he]
    exact .pure
  have hrun := (((KeyRun.signup hsignup).login hlogin).decrypt hfirst).decrypt hsecond
  exact ⟨_, rfl, prekey_used_once hrun⟩

end Kd
