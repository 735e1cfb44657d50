import Kingdom.Client.MainWindow
import Kingdom.Client.StoreAuthenticity

/-!
# The cache of the window

Seen from the window its message store is a map of the records that were saved, on every
machine where no operation on the file of the store fails, whatever the server answers.

* `StoreFileOp` — the operations on the file of the store.
* `only_run` — every call but `savePlaintext` leaves the file of the store.
* `Records`, `cacheExec` — the store as a map, and the meaning of the calls on it; `records`
  is the map that a log leaves.
* `CacheFile`, `Shows` — a file that holds the map, and a window on such a file.
* `simulates_cacheExec` — the map stands for the files.
* `WindowRun.inv` — what the programs keep on the map holds of every run;
  `WindowRun.holds_records` — the store holds what the log has saved.
-/

namespace Kd

open Codec Process Storage Prog

variable {α β : Type}

/-! ## The paths -/

section Paths

variable [Alphabet α]

theorem messages_ne_keys (x y : Bytes) :
    bytes ".kingdom/messages/" ++ x ≠ bytes ".kingdom/keys/" ++ y := by
  intro h
  have hstart := congrArg (List.take 10) h
  rw [List.take_append_of_le_length (by decide), List.take_append_of_le_length (by decide)] at hstart
  exact absurd hstart (by decide)

theorem storeFile_ne_keyFile (home : Bytes) (username username' : List α) :
    keyFile home username' ≠ storeFile home username := by
  intro h
  exact messages_ne_keys _ _ (pathAppend_inj h).symm

theorem storeTmp_ne_keyFile (home : Bytes) (username username' : List α) :
    keyFile home username' ≠ storeFile home username ++ bytes ".tmp" := by
  have htmp : storeFile home username ++ bytes ".tmp" = pathAppend home (bytes ".kingdom/messages/" ++
      (sanitizedUsername username ++ bytes ".json" ++ bytes ".tmp")) := by
    rw [storeFile, pathAppend, pathAppend]
    split_ifs <;> simp
  rw [htmp]
  intro h
  exact messages_ne_keys _ _ (pathAppend_inj h).symm

theorem storeFile_ne_knownKeysFile (home : Bytes) (username : List α) :
    knownKeysFile home ≠ storeFile home username := by
  have hpins : bytes ".kingdom/keys/known_keys.json" =
      bytes ".kingdom/keys/" ++ bytes "known_keys.json" := by decide
  intro h
  rw [knownKeysFile, hpins] at h
  exact messages_ne_keys _ _ (pathAppend_inj h).symm

theorem storeFile_ne_nil (home : Bytes) (username : List α) : storeFile home username ≠ [] := by
  rw [storeFile, pathAppend]
  split <;> simp +decide

end Paths

/-! ## The operations on the store -/

/-- The operation is on the file of the store, or on the one that is written first. -/
def StoreFileOp (path : Bytes) (o : FileOp Bytes α) : Prop :=
  o.On path ∨ o.On (path ++ bytes ".tmp") ∨ o = .rename (path ++ bytes ".tmp") path

/-- The effect is no operation on another file. -/
def Op.OnStore (path : Bytes) : Op α → Prop
  | .file o => StoreFileOp path o
  | _ => True

/-- Where no operation on the store fails, it does what it does where none does. -/
theorem Op.OnStore.reliable {σ : Type} {mayFail : FileOp Bytes α → Prop}
    {net : HttpRequest α → σ → Option (HttpResponse α) → σ → Prop} {path : Bytes}
    (hmayFail : ∀ o, mayFail o → ¬ StoreFileOp path o) (o : Op α) (w : World α σ) (r : o.Res)
    (w' : World α σ) (ho : o.OnStore path) (hexec : exec mayFail net o w r w') :
    exec (fun _ => False) net o w r w' := by
  cases o with
  | file o =>
      obtain ⟨fs, hfs, rfl⟩ := hexec
      exact ⟨fs, .inl (FileOp.exec_reliable (fun h => hmayFail o h ho) hfs), rfl⟩
  | random | boxKeypair | signKeypair | http => exact hexec

/-- It leaves every other file. -/
theorem Op.OnStore.exec {o : Op α} {path q : Bytes} (h : o.OnStore path) (hq : q ≠ path)
    (htmp : q ≠ path ++ bytes ".tmp") {σ : Type} {mayFail : FileOp Bytes α → Prop}
    {net : HttpRequest α → σ → Option (HttpResponse α) → σ → Prop} {w w' : World α σ} {r : o.Res}
    (hexec : exec mayFail net o w r w') : w'.files q = w.files q := by
  cases o with
  | file o =>
      obtain ⟨fs, hfs, rfl⟩ := hexec
      rcases h with hon | hon | rfl
      · exact hfs.other hon hq
      · exact hfs.other hon htmp
      · rcases hfs with ⟨-, rfl⟩ | ⟨-, -, rfl⟩
        · rw [FileOp.effect]
          split_ifs
          · exact (Function.update_of_ne hq ..).trans (Function.update_of_ne htmp ..)
          · rfl
        · rfl
  | random | boxKeypair | signKeypair =>
      obtain ⟨-, rfl⟩ := hexec
      rfl
  | http =>
      obtain ⟨s, -, rfl⟩ := hexec
      rfl

theorem only_fileExists_onStore (path : Bytes) : (fileExists path).Only (Op.OnStore (α := α) path) :=
  only_fileExists (.inl (by exact rfl))

theorem only_readFile_onStore (path : Bytes) : (readFile path).Only (Op.OnStore (α := α) path) :=
  only_op (.inl (by exact rfl))

/-! ## The calls leave the file of the store -/

section Calls

variable [Alphabet α] [Crypto α] [FloatFormat] [DecidableEq α]

omit [Crypto α] [DecidableEq α] in
theorem only_recordUsed (path : Bytes) (preKeyId : UInt64) :
    (recordUsed path preKeyId : Action α Unit).Only (Op.On path) := by
  refine only_bind (only_readJsonFile (by exact rfl) _ _) fun body => ?_
  refine only_bind (only_ofExcept _) fun file => only_bind (only_ofExcept _) fun recorded => ?_
  cases recorded with
  | true => trivial
  | false => exact only_writeInPlace_on _ _ _

omit [Crypto α] [FloatFormat] [DecidableEq α] in
theorem only_writeJsonFile_onStore (path : Bytes) (body : Json α) :
    (writeJsonFile path body).Only (Op.OnStore path) := by
  unfold writeJsonFile
  split
  · trivial
  · have hpath : ∀ {o : FileOp Bytes α}, o.On path → Op.OnStore path (.file o) := .inl
    have htmp : ∀ {o : FileOp Bytes α}, o.On (path ++ bytes ".tmp") → Op.OnStore path (.file o) :=
      fun h => .inr (.inl h)
    refine only_bind (only_op (hpath rfl)) fun b => only_bind (only_orFail _ b) fun _ => ?_
    refine only_bind (only_writeText (htmp rfl) (fun _ => htmp rfl) _ _ _) fun _ => ?_
    refine only_bind (only_op (.inr (.inr rfl))) fun b => only_bind (only_orFail _ b) fun _ => ?_
    exact only_bind (only_op (hpath rfl)) fun _ => trivial

theorem only_readStore {P : Op α → Prop} {store : MessageStore α}
    (hexists : P (.file (.exists store.storePath))) (hread : P (.file (.read store.storePath))) :
    (readStore_ store).Only P := by
  rw [readStore_]
  by_cases hpath : store.storePath = []
  · rw [if_pos hpath]
    trivial
  · rw [if_neg hpath]
    refine only_bind (only_fileExists hexists) fun found => ?_
    cases found with
    | false => trivial
    | true =>
        refine only_bind (only_op hread) fun text => ?_
        split_ifs
        · exact only_ofExcept _
        · trivial

theorem only_readStore_onStore (store : MessageStore α) :
    (readStore_ store).Only (Op.OnStore store.storePath) :=
  only_readStore (.inl rfl) (.inl rfl)

omit [FloatFormat] [DecidableEq α] in
theorem only_writeStore_onStore (store : MessageStore α) (contents : Json α) :
    (writeStore_ store contents).Only (Op.OnStore store.storePath) := by
  rw [writeStore_]
  split_ifs
  · refine only_bind (only_op trivial) fun nonce => only_bind (only_ofExcept _) fun envelope => ?_
    exact only_writeJsonFile_onStore _ _
  · exact only_writeJsonFile_onStore _ _

/-- **Reading and saving plaintexts works on the file of the store**, … -/
theorem only_getPlaintext_onStore (store : MessageStore α) (id : UInt64) :
    (getPlaintext store id).Only (Op.OnStore store.storePath) :=
  only_bind (only_readStore_onStore store) fun _ => trivial

theorem only_savePlaintext_onStore (store : MessageStore α) (r : PlaintextRecord α) :
    (savePlaintext store r).Only (Op.OnStore store.storePath) :=
  only_bind (only_readStore_onStore store) fun _ => only_writeStore_onStore store _

omit [DecidableEq α] in
/-- … and so does opening it. -/
theorem only_encryptedAtPath_onStore (path : Bytes) (username password : List α) :
    (encryptedAtPath path username password).Only (Op.OnStore path) := by
  refine only_bind (p := kdfParamsForStore path) ?_ fun params =>
    only_bind (only_ofExcept _) fun key => only_bind (only_fileExists_onStore path) fun found => ?_
  · refine only_bind (only_op trivial) fun salt =>
      only_bind (only_fileExists_onStore path) fun found => ?_
    cases found with
    | false => trivial
    | true => exact only_bind (only_readFile_onStore path) fun text => only_ofExcept _
  · cases found with
    | false => trivial
    | true =>
        refine only_bind (only_readFile_onStore path) fun text => only_bind ?_ fun _ => trivial
        refine only_bind (only_ofExcept _) fun version => ?_
        split_ifs
        · exact only_writeStore_onStore ⟨path, username, key, _, _, _, true⟩ _
        · trivial

/-- **Decrypting a message works on the key file only**, … -/
theorem only_decryptMessage (payload senderBundle : List α) (k : LocalIdentityKey α)
    (conversationId senderId recipientId : UInt64) :
    (decryptMessage payload k senderBundle conversationId senderId recipientId).Only
      (Op.On k.keyFilePath) := by
  rw [decryptMessage]
  split
  · trivial
  · trivial
  · rename_i id _
    refine only_bind ?_ fun _ => trivial
    rw [eraseOneTimePreKey]
    split_ifs
    · trivial
    · exact only_bind (only_attempt (only_recordUsed _ id)) fun _ => trivial
    · trivial

/-- … and it ends with keys that have its path. -/
theorem keyFilePath_decryptMessage {σ : Type} {mayFail : FileOp Bytes α → Prop}
    {net : HttpRequest α → σ → Option (HttpResponse α) → σ → Prop} {w : World α σ}
    (payload senderBundle : List α) (k : LocalIdentityKey α)
    (conversationId senderId recipientId : UInt64) :
    (decryptMessage payload k senderBundle conversationId senderId recipientId).Ensures
      (exec mayFail net) (fun _ => True) w
      fun x _ => ∃ k' y, x = .ok (k', y) ∧ k'.keyFilePath = k.keyFilePath := by
  rw [decryptMessage]
  split
  · exact ⟨trivial, _, _, rfl, rfl⟩
  · exact ⟨trivial, _, _, rfl, rfl⟩
  · rw [ensures_bind, eraseOneTimePreKey]
    split_ifs
    · exact ⟨trivial, trivial, _, _, rfl, rfl⟩
    · rw [ensures_bind, ensures_attempt]
      exact ensures_mono (ensures_true _ _) fun x w' _ => ⟨trivial, trivial, _, _, rfl, rfl⟩
    · exact ⟨trivial, trivial, _, _, rfl, rfl⟩

/-- **Every call but `savePlaintext` leaves the file of the store**, … -/
theorem only_run {s : Session α} {window : Window α} {path : Bytes} {c : Call α}
    (hpins : knownKeysFile s.home ≠ path) (hkeys : window.identityKey.keyFilePath ≠ path)
    (hc : ∀ r, c ≠ .savePlaintext r) : (c.run s window).Only (Op.Leaves path) := by
  have hreturn : ∀ {γ : Type} {p : Action α γ} (f : Except Exn γ → Window α × c.Res),
      p.Only (Op.Leaves path) →
        (do let x ← Prog.attempt p
            return f x : Action α (Window α × c.Res)).Only (Op.Leaves path) :=
    fun f hp => only_bind (only_attempt hp) fun _ => trivial
  cases c with
  | fields | clearMessages | appendMessageToView | cachePublicKey => trivial
  | getMessages conversationId =>
      refine hreturn _ (only_bind (only_op trivial) fun res => ?_)
      cases res with
      | none => trivial
      | some res =>
          dsimp only
          split_ifs
          · exact only_ofExcept _
          · trivial
  | getPublicKey userId => exact hreturn _ (only_leaves (only_getPublicKey _ _ _) hpins)
  | sendMessage conversationId recipientId payload =>
      refine hreturn _ (only_bind (only_ofExcept _) fun text =>
        only_bind (only_op trivial) fun res => ?_)
      cases res with
      | none => trivial
      | some res =>
          dsimp only
          split_ifs
          · exact only_ofExcept _
          · trivial
  | encryptMessage plaintext recipientPk conversationId recipientId =>
      refine hreturn _ (only_bind (only_ofExcept _) fun keys =>
        only_bind (only_op trivial) fun key => ?_)
      refine only_bind (only_ofExcept _) fun messageKey => only_bind (only_op trivial) fun nonce => ?_
      exact only_ofExcept _
  | decryptMessage message senderPk recipientId =>
      exact only_bind (only_leaves (only_decryptMessage _ _ _ _ _ _) hkeys) fun _ => trivial
  | getPlaintext messageId =>
      exact hreturn _ (only_bind (only_readStore trivial trivial) fun _ => trivial)
  | savePlaintext r => exact absurd rfl (hc r)

/-- … and every call ends, and leaves the path of the key file. -/
theorem keyFilePath_run {σ : Type} {mayFail : FileOp Bytes α → Prop}
    {net : HttpRequest α → σ → Option (HttpResponse α) → σ → Prop} {w : World α σ} (s : Session α)
    (window : Window α) (c : Call α) :
    (c.run s window).Ensures (exec mayFail net) (fun _ => True) w fun x _ =>
      ∃ window' r, x = .ok (window', r) ∧
        window'.identityKey.keyFilePath = window.identityKey.keyFilePath := by
  have hreturn : ∀ {γ : Type} (p : Action α γ) (f : Except Exn γ → c.Res),
      (do let x ← Prog.attempt p
          return (window, f x) : Action α (Window α × c.Res)).Ensures (exec mayFail net)
        (fun _ => True) w fun x _ => ∃ window' r, x = .ok (window', r) ∧
          window'.identityKey.keyFilePath = window.identityKey.keyFilePath := by
    intro γ p f
    rw [ensures_bind, ensures_attempt]
    exact ensures_mono (ensures_true _ _) fun x w' _ => ⟨trivial, _, _, rfl, rfl⟩
  cases c with
  | fields | clearMessages | appendMessageToView | cachePublicKey =>
      exact ⟨trivial, _, _, rfl, rfl⟩
  | getMessages | getPublicKey | sendMessage | encryptMessage | getPlaintext | savePlaintext =>
      exact hreturn _ _
  | decryptMessage message senderPk recipientId =>
      rw [Call.run, ensures_bind]
      refine ensures_mono (keyFilePath_decryptMessage message.payload senderPk window.identityKey
        message.conversationId message.senderId recipientId) ?_
      rintro _ w' ⟨k', y, rfl, hkeys⟩
      exact ⟨trivial, _, _, rfl, hkeys⟩

/-- Where the network answers, so do the calls. -/
theorem Call.exec_total {σ : Type} {mayFail : FileOp Bytes α → Prop}
    {net : HttpRequest α → σ → Option (HttpResponse α) → σ → Prop}
    (htotal : ∀ o (w : World α σ), ∃ r w', Kd.exec mayFail net o w r w') (s : Session α) (c : Call α)
    (d : World α σ × Window α) : ∃ r d', Call.exec mayFail net s c d r d' := by
  have hends : (c.run s d.2).Ensures (Kd.exec mayFail net) (fun _ => True) d.1 _ :=
    keyFilePath_run s d.2 c
  obtain ⟨_, w', hrun, window', r, rfl, -⟩ := hends.exists_of_total htotal
  exact ⟨r, (w', window'), hrun⟩

/-! ## The store as a map -/

/-- The records that were saved, by message ids. -/
abbrev Records (α : Type) := UInt64 → Option (PlaintextRecord α)

def Records.plaintexts (m : Records α) : UInt64 → Option (List α) := fun id => (m id).map (·.plaintext)

/-- The meaning of the calls on the map.  A plaintext that is not valid UTF-8 cannot be saved. -/
def cacheExec : (c : Call α) → Records α → c.Res → Records α → Prop
  | .getPlaintext id, m, r, m' => r = .ok (m.plaintexts id) ∧ m' = m
  | .savePlaintext record, m, r, m' =>
      if validUtf8 record.plaintext then
        r = .ok () ∧ m' = Function.update m record.messageId (some record)
      else (∃ e, r = .error e) ∧ m' = m
  | _, m, _, m' => m' = m

/-- The record a call has saved. -/
def savedBy : (c : Call α) → c.Res → Option (PlaintextRecord α)
  | .savePlaintext r, .ok _ => some r
  | _, _ => none

/-- The records that the calls of a log have saved, the last one of each message. -/
def records (log : WindowLog α) : Records α :=
  log.foldl (fun m e => match savedBy e.1 e.2 with
    | some r => Function.update m r.messageId (some r)
    | none => m) fun _ => none

/-- What `decryptPlaintext` returns for a message, and what it leaves of the records. -/
inductive Plaintext (m : Records α) (msg : Message α) :
    Except Exn (Option (List α)) → Records α → Prop where
  | cached {r} (h : m msg.id = some r) : Plaintext m msg (.ok (some r.plaintext)) m
  | fresh {text} (h : m msg.id = none) : Plaintext m msg (.ok (some text))
      (Function.update m msg.id
        (some ⟨msg.id, msg.conversationId, msg.senderId, msg.timestamp, text⟩))
  | failed {x} (hx : ∀ text, x ≠ .ok (some text)) : Plaintext m msg x m

/-- There is no file yet, or a store with such parameters has sealed the records in it. -/
inductive CacheFile (path : Bytes) (username password : List α) (params : MessageStore α → Prop) :
    Option (List α) → Records α → Prop where
  | absent : CacheFile path username password params none fun _ => none
  | stored {owner contents text m} (howner : OpenedWith path username password owner)
      (hparams : params owner) (hcontents : IsStore contents) (hsealed : Sealed owner contents text)
      (hrecords : plaintextOf contents = Records.plaintexts m) :
      CacheFile path username password params (some text) m

/-- The window is on a file that holds the records. -/
structure Shows {σ : Type} (path : Bytes) (username password : List α) (s : Session α)
    (d : World α σ × Window α) (m : Records α) : Prop where
  store : OpenedWith path username password s.messageStore
  pins : knownKeysFile s.home ≠ path
  keys : d.2.identityKey.keyFilePath ≠ path
  file : CacheFile path username password (SameParams s.messageStore) (d.1.files path) m

section Map

variable {c : Call α} {r : c.Res} {m m' : Records α} {log : WindowLog α}

omit [Alphabet α] [Crypto α] [FloatFormat] [DecidableEq α] in
theorem records_snoc (log : WindowLog α) (c : Call α) (r : c.Res) : records (log ++ [⟨c, r⟩]) =
    match savedBy c r with
    | some record => Function.update (records log) record.messageId (some record)
    | none => records log := by
  rw [records, List.foldl_append]
  rfl

omit [Crypto α] [FloatFormat] [DecidableEq α] in
/-- The map has what its log has saved. -/
theorem records_step (h : cacheExec c m r m') (hm : m = records log) :
    m' = records (log ++ [⟨c, r⟩]) := by
  rw [records_snoc, ← hm]
  cases c with
  | savePlaintext record =>
      rw [cacheExec] at h
      split_ifs at h
      · obtain ⟨rfl, rfl⟩ := h
        rfl
      · obtain ⟨⟨e, rfl⟩, rfl⟩ := h
        rfl
  | getPlaintext id => exact h.2
  | _ => exact h

variable {P : WindowLog α → (c : Call α) → c.Res → Prop} {I : Records α × WindowLog α → Prop}

omit [Crypto α] [FloatFormat] [DecidableEq α] in
/-- One call of the window, on the map, … -/
theorem ensures_windowCall {Q : Except Exn c.Ret → Records α × WindowLog α → Prop} (hI : I (m, log))
    (h : ∀ r m', cacheExec c m r m' → P log c r →
      I (m', log ++ [⟨c, r⟩]) ∧ Q r (m', log ++ [⟨c, r⟩])) :
    (call c).Ensures (restricted cacheExec P) I (m, log) Q := by
  rw [call, ensures_bind, ensures_op]
  refine ⟨hI, ?_⟩
  rintro r ⟨m', _⟩ ⟨⟨hexec, rfl⟩, hP⟩
  have hend := h r m' hexec hP
  exact ⟨hend.1, ensures_ofExcept.mpr hend⟩

omit [Crypto α] [FloatFormat] [DecidableEq α] in
/-- … and what follows it. -/
theorem ensures_windowCall_bind {f : c.Ret → WindowM α β}
    {Q : Except Exn β → Records α × WindowLog α → Prop} (hI : I (m, log))
    (hok : ∀ a m', cacheExec c m (.ok a) m' → P log c (.ok a) →
      (f a).Ensures (restricted cacheExec P) I (m', log ++ [⟨c, .ok a⟩]) Q)
    (herr : ∀ e m', cacheExec c m (.error e) m' →
      I (m', log ++ [⟨c, .error e⟩]) ∧ Q (.error e) (m', log ++ [⟨c, .error e⟩])) :
    (call c >>= f).Ensures (restricted cacheExec P) I (m, log) Q := by
  rw [ensures_bind]
  refine ensures_windowCall hI fun r m' hexec hP => ?_
  cases r with
  | ok a => exact ⟨(hok a m' hexec hP).start, hok a m' hexec hP⟩
  | error e => exact herr e m' hexec

omit [Crypto α] [FloatFormat] [DecidableEq α] in
theorem ensures_records {p : WindowM α β} (hm : m = records log) :
    p.Ensures (restricted cacheExec P) (fun d => d.1 = records d.2) (m, log)
      fun _ d => d.1 = records d.2 := by
  induction p generalizing m log with
  | pure | fail => exact ⟨hm, hm⟩
  | call c k ih =>
      refine ⟨hm, ?_⟩
      rintro r ⟨m', _⟩ ⟨⟨hexec, rfl⟩, -⟩
      exact ih r (records_step hexec hm)

end Map

section Store

variable [LawfulBase64 α] [IdealAead α] [IdealKdf α] {σ : Type}
  {net : HttpRequest α → σ → Option (HttpResponse α) → σ → Prop} {w : World α σ} {path : Bytes}
  {username password : List α} {store : MessageStore α} {m : Records α}
  {mayFail : FileOp Bytes α → Prop}

omit [Crypto α] [FloatFormat] [DecidableEq α] [LawfulBase64 α] [IdealAead α] [IdealKdf α] in
theorem validUtf8_plaintextOf {contents : Json α} (h : contents.Printable) {id : UInt64} {t : List α}
    (ht : plaintextOf contents id = some t) : validUtf8 t = true := by
  obtain ⟨record, hrecord, hplaintext⟩ := Option.bind_eq_some_iff.mp ht
  obtain ⟨v, hv, hstr⟩ := Option.bind_eq_some_iff.mp hplaintext
  have hmessages : (messagesOf contents).Printable := by
    rw [messagesOf]
    cases hget : contents.get? (bytes "messages") with
    | none => trivial
    | some messages => exact Json.printable_get? h hget
  have hprint := Json.printable_get? (Json.printable_get? hmessages hrecord) hv
  cases v with
  | str s =>
      cases hstr
      exact hprint
  | _ => cases hstr

omit [DecidableEq α] [LawfulBase64 α] [IdealAead α] [IdealKdf α] in
theorem CacheFile.validUtf8 {params : MessageStore α → Prop} {file : Option (List α)}
    (h : CacheFile path username password params file m) {id : UInt64} {t : List α}
    (ht : m.plaintexts id = some t) : Codec.validUtf8 t = true := by
  cases h with
  | absent => cases ht
  | stored _ _ hcontents _ hrecords => exact validUtf8_plaintextOf hcontents.printable (hrecords ▸ ht)

/-- **A store reads the records of its file.** -/
theorem CacheFile.reads (h : CacheFile path username password (SameParams store) (w.files path) m)
    (hpath : path ≠ []) (hstore : OpenedWith path username password store)
    (net : HttpRequest α → σ → Option (HttpResponse α) → σ → Prop) :
    ∃ contents, IsStore contents ∧ plaintextOf contents = m.plaintexts ∧
      (readStore_ store).Ensures (exec (fun _ => False) net) (fun _ => True) w
        fun x w' => w' = w ∧ x = .ok contents := by
  generalize hfile : w.files path = file at h
  cases h with
  | absent =>
      refine ⟨emptyStore, isStore_emptyStore, ?_, ensures_readStore_absent hpath hstore.storePath hfile⟩
      funext id
      exact plaintextOf_emptyStore id
  | @stored owner contents text _ howner hparams hcontents hsealed hrecords =>
      obtain ⟨husername, hkey⟩ := (OpenedWith.same_iff hstore howner hparams).mpr rfl
      refine ⟨contents.norm, hcontents.norm, ?_, ?_⟩
      · rw [← hrecords]
        funext id
        exact plaintextOf_norm contents id
      · refine ensures_mono (ensures_readStore_sealed hpath hstore hfile hsealed) ?_
        rintro x w' ⟨hw, envelope, hparse, rfl⟩
        exact ⟨hw, openEnvelope_sealed hsealed hparse hcontents husername hkey⟩

/-- Reading a plaintext. -/
theorem ensures_getPlaintext
    (h : CacheFile path username password (SameParams store) (w.files path) m) (hpath : path ≠ [])
    (hstore : OpenedWith path username password store) (id : UInt64) :
    (getPlaintext store id).Ensures (exec (fun _ => False) net) (fun _ => True) w
      fun x w' => w' = w ∧ x = .ok (m.plaintexts id) := by
  obtain ⟨contents, -, hplaintexts, hread⟩ := h.reads hpath hstore net
  rw [getPlaintext, ensures_bind]
  refine ensures_mono hread ?_
  rintro x w' ⟨rfl, rfl⟩
  exact ⟨trivial, rfl, by rw [← hplaintexts]⟩

/-- **Saving a plaintext** adds its record, or throws and leaves the file. -/
theorem ensures_savePlaintext
    (h : CacheFile path username password (SameParams store) (w.files path) m) (hpath : path ≠ [])
    (hstore : OpenedWith path username password store) (r : PlaintextRecord α) :
    (savePlaintext store r).Ensures (exec (fun _ => False) net) (fun _ => True) w fun x w' =>
      ∃ m', cacheExec (.savePlaintext r) m x m' ∧
        CacheFile path username password (SameParams store) (w'.files path) m' := by
  obtain ⟨contents, hcontents, hplaintexts, hread⟩ := h.reads hpath hstore net
  have hrewrite := hcontents.rewrite (.save r)
  have hafter : plaintextOf (withPlaintext contents r) =
      Records.plaintexts (Function.update m r.messageId (some r)) := by
    funext id
    rw [plaintextOf_withPlaintext hcontents, hplaintexts, Records.plaintexts, Records.plaintexts,
      Function.update_apply]
    split_ifs <;> rfl
  cases hvalid : validUtf8 r.plaintext with
  | true =>
      have hstored := hcontents.withPlaintext hvalid
      refine ensures_mono (ensures_rewrite (withPlaintext · r) hpath hstore.storePath
        hstore.encryptedAtRest hstored.printable hread) ?_
      rintro x w' ⟨rfl, text, hsealed, htext⟩
      refine ⟨Function.update m r.messageId (some r), ?_, ?_⟩
      · simp [cacheExec, hvalid]
      · rw [htext]
        exact .stored hstore ⟨rfl, rfl, rfl⟩ hstored hsealed hafter
  | false =>
      -- such contents cannot be printed, for what is printed reads back as valid text
      have hdump : (withPlaintext contents r).dumpWith (some 2) 0 = none := by
        cases hdump : (withPlaintext contents r).dumpWith (some 2) 0 with
        | none => rfl
        | some text =>
            obtain ⟨-, hread⟩ := hrewrite.read hdump
            have hplaintext : plaintextOf (withPlaintext contents r).norm r.messageId =
                some r.plaintext := by
              rw [plaintextOf_norm, plaintextOf_withPlaintext hcontents, if_pos rfl]
            rw [validUtf8_plaintextOf hread.printable hplaintext] at hvalid
            cases hvalid
      rw [savePlaintext, ensures_bind]
      refine ensures_mono hread ?_
      rintro x w' ⟨rfl, rfl⟩
      dsimp only
      rw [writeStore_, if_pos hstore.encryptedAtRest, ensures_bind, ensures_random]
      refine ⟨trivial, fun nonce _ => ?_⟩
      dsimp only
      rw [ensures_bind, ensures_ofExcept, sealStore, hdump]
      refine ⟨trivial, m, ?_, h⟩
      simp [cacheExec, hvalid]

omit [DecidableEq α] [LawfulBase64 α] [IdealAead α] [IdealKdf α] in
theorem CacheFile.any {params : MessageStore α → Prop} {file : Option (List α)}
    (h : CacheFile path username password params file m) :
    CacheFile path username password (fun _ => True) file m := by
  cases h with
  | absent => exact .absent
  | stored howner _ hcontents hsealed hrecords =>
      exact .stored howner trivial hcontents hsealed hrecords

/-- **The map stands for the files**: what a call does to the window and its file, it does to
the map. -/
theorem simulates_cacheExec (hmayFail : ∀ o, mayFail o → ¬ StoreFileOp path o) (hpath : path ≠ [])
    (s : Session α) : Simulates (Call.exec mayFail net s) cacheExec
      (Shows (σ := σ) path username password s) where
  step := by
    rintro c ⟨w, window⟩ r ⟨w', window'⟩ m hexec hshows
    have hkeys : window'.identityKey.keyFilePath ≠ path := by
      obtain ⟨_, _, ⟨⟩, hpath⟩ := (keyFilePath_run s window c).of_runs hexec
      rw [hpath]
      exact hshows.keys
    have hleaves : ∀ m', cacheExec c m r m' → m' = m → (∀ record, c ≠ .savePlaintext record) →
        ∃ m', cacheExec c m r m' ∧ Shows path username password s (w', window') m' := by
      rintro _ hcache rfl hc
      have hfile := (ensures_leaves (only_run hshows.pins hshows.keys hc) w).of_runs hexec
      refine ⟨_, hcache, hshows.store, hshows.pins, hkeys, ?_⟩
      dsimp only
      rw [hfile]
      exact hshows.file
    cases c with
    | getPlaintext id =>
        have hspec : ((Call.getPlaintext id).run s window).Ensures (Kd.exec mayFail net)
            (fun _ => True) w fun x _ => x = .ok (window, .ok (m.plaintexts id)) := by
          rw [Call.run, ensures_bind, ensures_attempt]
          have honly := only_getPlaintext_onStore s.messageStore id
          rw [hshows.store.storePath] at honly
          refine ensures_mono ((ensures_getPlaintext hshows.file hpath hshows.store id).of_only honly
            (Op.OnStore.reliable hmayFail)) ?_
          rintro x w' ⟨-, rfl⟩
          exact ⟨trivial, rfl⟩
        have hend := hspec.of_runs hexec
        cases hend
        exact hleaves m ⟨rfl, rfl⟩ rfl fun _ h => by cases h
    | savePlaintext record =>
        have hspec : ((Call.savePlaintext record).run s window).Ensures
            (Kd.exec mayFail net) (fun _ => True) w fun x w' => ∀ window' r,
              x = .ok (window', r) → ∃ m', cacheExec (.savePlaintext record) m r m' ∧
                CacheFile path username password (SameParams s.messageStore) (w'.files path) m' := by
          rw [Call.run, ensures_bind, ensures_attempt]
          have honly := only_savePlaintext_onStore s.messageStore record
          rw [hshows.store.storePath] at honly
          refine ensures_mono ((ensures_savePlaintext hshows.file hpath hshows.store record).of_only
            honly (Op.OnStore.reliable hmayFail)) ?_
          intro x w' hx
          refine ⟨trivial, ?_⟩
          rintro _ _ ⟨⟩
          exact hx
        obtain ⟨m', hcache, hfile⟩ := hspec.of_runs hexec window' r rfl
        exact ⟨m', hcache, hshows.store, hshows.pins, hkeys, hfile⟩
    | _ => exact hleaves m rfl rfl fun _ h => by cases h

/-! ## Logging in -/

omit [LawfulBase64 α] [IdealAead α] [IdealKdf α] in
/-- The keys of a login keep the path of the file they were read from. -/
theorem keyFilePath_openKeyFile {keyPath : Bytes} {file : Json α} {k : LocalIdentityKey α}
    (h : openKeyFile keyPath username password file = .ok k) : k.keyFilePath = keyPath := by
  obtain ⟨bundle, material, -, -, hidentity⟩ := openKeyFile_ok h
  exact (identityOf_ok hidentity).1

omit [DecidableEq α] [IdealAead α] in
/-- Opening the store of the user. -/
theorem CacheFile.ensures_encryptedAtPath {params : MessageStore α → Prop} {I : World α σ → Prop}
    (hI : I w) (h : CacheFile path username password params (w.files path) m) :
    (encryptedAtPath path username password).Ensures (exec (fun _ => False) net) I w fun x w' =>
      w' = w ∧ ∀ store, x = .ok store → OpenedWith path username password store ∧
        CacheFile path username password (SameParams store) (w.files path) m := by
  generalize hfile : w.files path = file at h
  cases h with
  | absent =>
      refine ensures_mono (ensures_encryptedAtPath_absent hI hfile) ?_
      rintro x w' ⟨hw, store, rfl, hopened⟩
      refine ⟨hw, ?_⟩
      rintro _ ⟨⟩
      exact ⟨hopened, .absent⟩
  | stored howner _ hcontents hsealed hrecords =>
      refine ensures_mono (ensures_encryptedAtPath_sealed hI hfile hsealed howner.salt) ?_
      rintro x w' ⟨hw, store, rfl, hopened, hparams⟩
      refine ⟨hw, ?_⟩
      rintro _ ⟨⟩
      exact ⟨hopened, .stored howner hparams hcontents hsealed hrecords⟩

variable {home : Bytes}

omit [LawfulBase64 α] [IdealAead α] [IdealKdf α] in
/-- A login that works has read its keys from the key file. -/
theorem ensures_loadForLogin_opened {I : World α σ → Prop} (hI : I w) :
    (loadForLogin home username password).Ensures (exec mayFail net) I w fun x w' => w' = w ∧
      ∀ k, x = .ok k → home ≠ [] ∧
        ∃ file, openKeyFile (keyFile home username) username password file = .ok k := by
  refine Ensures.and (loadForLogin_files hI) ?_
  rw [loadForLogin, ensures_bind, ensures_ofExcept]
  refine ⟨hI, ?_⟩
  cases hpath : defaultKeyPath home username with
  | error e => rintro _ ⟨⟩
  | ok path =>
      have hhome : home ≠ [] := by
        rintro rfl
        cases hpath
      obtain rfl := eq_keyFile hpath
      dsimp only
      rw [ensures_bind]
      refine ensures_readJsonFile hI ?_ fun t _ _ => ?_
      all_goals
        split
        · rename_i file _
          exact ensures_ofExcept.mpr ⟨hI, fun k hk => ⟨hhome, file, hk⟩⟩
        · rintro _ ⟨⟩

omit [IdealAead α] in
/-- **A login finds the records that were saved**, and leaves the files. -/
theorem ensures_openSession (hmayFail : ∀ o, mayFail o → ¬ StoreFileOp (storeFile home username) o)
    {client : Client α} {userJson : Json α} {I : World α σ → Prop} (hI : I w)
    (h : CacheFile (storeFile home username) username password (fun _ => True)
      (w.files (storeFile home username)) m) :
    (openSession client home username password userJson).Ensures (exec mayFail net) I w
      fun x w' => w' = w ∧ ∀ s window, x = .ok (s, window) →
        Shows (storeFile home username) username password s (w', window) m := by
  have herror : ∀ {e : Exn} {w' : World α σ}, w' = w → w' = w ∧ ∀ s window,
      (.error e : Except Exn (Session α × Window α)) = .ok (s, window) →
        Shows (storeFile home username) username password s (w', window) m := by
    intro e w' hw
    refine ⟨hw, ?_⟩
    rintro _ _ ⟨⟩
  have hpure : ∀ {γ : Type} {x : Except Exn γ} {f : γ → Action α (Session α × Window α)}
      {Q : Except Exn (Session α × Window α) → World α σ → Prop},
      (∀ e, Q (.error e) w) → (∀ a, x = .ok a → (f a).Ensures (exec mayFail net) I w Q) →
        (Prog.ofExcept x >>= f).Ensures (exec mayFail net) I w Q := by
    intro γ x f Q hQ hf
    rw [ensures_bind, ensures_ofExcept]
    cases x with
    | error e => exact ⟨hI, hQ e⟩
    | ok a => exact ⟨hI, hf a rfl⟩
  rw [openSession]
  refine hpure (fun e => herror rfl) fun token _ => hpure (fun e => herror rfl) fun token _ => ?_
  rw [ensures_bind]
  refine ensures_mono (ensures_loadForLogin_opened hI) ?_
  rintro x _ ⟨rfl, hlogin⟩
  cases x with
  | error e => exact herror rfl
  | ok k =>
      obtain ⟨hhome, file, hopen⟩ := hlogin k rfl
      have hstorePath : defaultStorePath home username = .ok (storeFile home username) := by
        rw [defaultStorePath, ensure, if_pos hhome]
        rfl
      dsimp only
      rw [ensures_bind, encryptedForUser, hstorePath]
      refine ensures_mono ((h.ensures_encryptedAtPath hI).of_only
        (only_encryptedAtPath_onStore _ _ _) (Op.OnStore.reliable hmayFail)) ?_
      rintro y _ ⟨rfl, hstore⟩
      cases y with
      | error e => exact herror rfl
      | ok store =>
          obtain ⟨hopened, hfile⟩ := hstore store rfl
          dsimp only
          refine hpure (fun e => herror rfl) fun userId _ =>
            hpure (fun e => herror rfl) fun name _ => ?_
          refine ⟨hI, rfl, ?_⟩
          rintro _ _ ⟨⟩
          refine ⟨hopened, storeFile_ne_knownKeysFile home username, ?_, hfile⟩
          dsimp only
          rw [keyFilePath_openKeyFile hopen]
          exact storeFile_ne_keyFile home username username

/-! ## Runs -/

/-- What a machine is in after a run of the window: the records, and the window that is open. -/
structure WindowRun.Holds (home : Bytes) (username password : List α) (me : UInt64)
    (desk : Option (Session α × Window α)) (w : World α σ) (m : Records α) : Prop where
  file : CacheFile (storeFile home username) username password (fun _ => True)
    (w.files (storeFile home username)) m
  desk : ∀ s window, desk = some (s, window) → s.userId = me ∧
    Shows (storeFile home username) username password s (w, window) m

variable {mayStop : WindowLog α → Option (Call α) → Prop} {me : UInt64} {log : WindowLog α}
  {desk : Option (Session α × Window α)} {P : WindowLog α → (c : Call α) → c.Res → Prop}
  {Inv : WindowLog α → Records α → Prop}

omit [DecidableEq α] [LawfulBase64 α] [IdealAead α] [IdealKdf α] in
theorem WindowRun.Holds.closed (h : WindowRun.Holds home username password me desk w m)
    {w' : World α σ} (hfile : w'.files (storeFile home username) = w.files (storeFile home username)) :
    WindowRun.Holds home username password me none w' m := by
  refine ⟨hfile ▸ h.file, ?_⟩
  rintro _ _ ⟨⟩

omit [DecidableEq α] [LawfulBase64 α] [IdealAead α] [IdealKdf α] in
theorem WindowRun.Holds.shown {s : Session α} {window : Window α} (hme : s.userId = me)
    (h : Shows (storeFile home username) username password s (w, window) m) :
    WindowRun.Holds home username password me (some (s, window)) w m := by
  refine ⟨h.file.any, ?_⟩
  rintro _ _ ⟨⟩
  exact ⟨hme, h⟩

/-- **What the functions of the window keep on the map holds of every run** whose calls meet the
condition, and which does not stop while a plaintext is saved. -/
theorem WindowRun.inv (hmayFail : ∀ o, mayFail o → ¬ StoreFileOp (storeFile home username) o)
    (hsave : ∀ log r, ¬ mayStop log (some (.savePlaintext r)))
    (hstart : Inv [] fun _ => none)
    (hact : ∀ (s : Session α) (action : WindowAction α) log m, s.userId = me → Inv log m →
      (action.prog s).Ensures (restricted cacheExec P)
        (fun d => ∀ c, mayStop d.2 c → Inv d.2 d.1) (m, log) fun _ d => Inv d.2 d.1)
    (h : WindowRun mayFail net mayStop home username password me log desk w)
    (hmeet : AllMeet P log) :
    ∃ m, WindowRun.Holds home username password me desk w m ∧ Inv log m := by
  have hne := storeFile_ne_nil home username
  -- a run of a function is one on the map, and its calls meet the condition
  have hmap : ∀ {s : Session α} {window window' : Window α} {action : WindowAction α} {x}
      {log log' : WindowLog α} {w w' : World α σ} {m : Records α}, s.userId = me → Inv log m →
      Shows (storeFile home username) username password s (w, window) m →
      (action.prog s).Runs (logged (Call.exec mayFail net s)) ((w, window), log) x
        ((w', window'), log') → AllMeet P log' →
      ∃ m', Shows (storeFile home username) username password s (w', window') m' ∧
        (∀ c, mayStop log' c → Inv log' m') ∧ (∀ y, x = some y → Inv log' m') := by
    intro s window window' action x log log' w w' m hme hinv hshows hrun hmeet
    obtain ⟨⟨m', _⟩, hrun', hshows', rfl⟩ := hrun.simulate
      (simulates_logged (simulates_cacheExec hmayFail hne s)) (t := (m, log)) ⟨hshows, rfl⟩
    have hspec := ensures_iff.mp (hact s action log m hme hinv) _ _ (hrun'.restrict hmeet)
    exact ⟨m', hshows', hspec.1, fun y hy => hspec.2 y hy⟩
  induction h with
  | start habsent =>
      refine ⟨fun _ => none, ⟨habsent ▸ .absent, ?_⟩, hstart⟩
      rintro _ _ ⟨⟩
  | login _ hlogin hme ih =>
      obtain ⟨m, hholds, hinv⟩ := ih hmeet
      obtain ⟨rfl, hshows⟩ :=
        (ensures_openSession (I := fun _ => True) hmayFail trivial hholds.file).of_runs
        hlogin
      exact ⟨m, .shown hme (hshows _ _ rfl), hinv⟩
  | @noLogin log desk w client userJson x w' _ hlogin ih =>
      obtain ⟨m, hholds, hinv⟩ := ih hmeet
      have hspec := ensures_iff.mp
        (ensures_openSession (I := fun w' => w' = w) hmayFail rfl hholds.file) _ _ hlogin
      exact ⟨m, hholds.closed (congrArg (fun w : World α σ => w.files _) hspec.1), hinv⟩
  | act _ hrun ih =>
      obtain ⟨m, hholds, hinv⟩ := ih (hmeet.of_prefix hrun.prefix_log)
      obtain ⟨hme, hshows⟩ := hholds.desk _ _ rfl
      obtain ⟨m', hshows', -, hend⟩ := hmap hme hinv hshows hrun hmeet
      exact ⟨m', .shown hme hshows', hend _ rfl⟩
  | stopped _ hrun hstop ih =>
      obtain ⟨m, hholds, hinv⟩ := ih (hmeet.of_prefix hrun.prefix_log)
      obtain ⟨hme, hshows⟩ := hholds.desk _ _ rfl
      obtain ⟨m', hshows', hinv', -⟩ := hmap hme hinv hshows hrun hmeet
      exact ⟨m', (Holds.shown hme hshows').closed rfl, hinv' none hstop⟩
  | @killed log s window w action log' window' w' c w'' _ hreach hcall hstop ih =>
      obtain ⟨m, hholds, hinv⟩ := ih (hmeet.of_prefix hreach.runs.prefix_log)
      obtain ⟨hme, hshows⟩ := hholds.desk _ _ rfl
      obtain ⟨m', hshows', hinv', -⟩ := hmap hme hinv hshows hreach.runs hmeet
      have hc : ∀ r, c ≠ .savePlaintext r := by
        rintro r rfl
        exact hsave _ _ hstop
      have hfile := (ensures_iff.mp
        (ensures_leaves (only_run hshows'.pins hshows'.keys hc) w') _ _ hcall).1
      exact ⟨m', (Holds.shown hme hshows').closed hfile, hinv' _ hstop⟩
  | @aside log s window w window' w' _ hkeys hfiles ih =>
      obtain ⟨m, hholds, hinv⟩ := ih hmeet
      obtain ⟨hme, hshows⟩ := hholds.desk _ _ rfl
      refine ⟨m, .shown hme ⟨hshows.store, hshows.pins, ?_, ?_⟩, hinv⟩
      · dsimp only
        rw [hkeys]
        exact hshows.keys
      · dsimp only
        rw [hfiles _ (storeFile_ne_knownKeysFile home username).symm]
        exact hshows.file
  | logout _ hfiles ih =>
      obtain ⟨m, hholds, hinv⟩ := ih hmeet
      exact ⟨m, hholds.closed (congrFun hfiles _), hinv⟩

/-- **The store holds what was saved**, the last text of each message, after every run. -/
theorem WindowRun.holds_records
    (hmayFail : ∀ o, mayFail o → ¬ StoreFileOp (storeFile home username) o)
    (hsave : ∀ log r, ¬ mayStop log (some (.savePlaintext r)))
    (h : WindowRun mayFail net mayStop home username password me log desk w) :
    WindowRun.Holds home username password me desk w (records log) := by
  have hact : ∀ (s : Session α) (action : WindowAction α) log (m : Records α), s.userId = me →
      m = records log → (action.prog s).Ensures (restricted cacheExec fun _ _ _ => True)
        (fun d => ∀ c, mayStop d.2 c → d.1 = records d.2) (m, log) fun _ d => d.1 = records d.2 :=
    fun s action log m _ hm => ensures_weaken (ensures_records hm) fun d hd c _ => hd
  obtain ⟨m, hholds, rfl⟩ := h.inv hmayFail hsave (by rfl) hact
    fun _ _ _ _ _ => trivial
  exact hholds

end Store

end Calls

end Kd
