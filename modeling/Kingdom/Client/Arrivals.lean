import Kingdom.Client.MessageCache
import Kingdom.Client.PreKeyUse

/-!
# Messages that arrive

A session whose files are in order opens a message that was sealed for its user, when the
server serves it.

* `RecordedUsed` — a one-time prekey is recorded as used in the key file.
* `Arrives` — a message that the session can open, and the sender's key at the server.
* `Arrives.ensures_decryptPlaintext` — it is decrypted, its prekey is recorded, and its text
  comes back when it can be saved.
* `Arrives.ensures_loadMessages` — it is shown in the view for which it is served.
* `WasRead`, `WasShown` — what is left after it was decrypted, and shown.
* `exists_arrival` — every text can arrive at a user who has signed up.
-/

namespace Kd

open Codec Process Storage Prog

variable {α β : Type}

/-! ## Calls with a known end -/

/-- The server answers every request in one way. -/
abbrev answering {σ : Type} (respond : HttpRequest α → Option (HttpResponse α)) :
    HttpRequest α → σ → Option (HttpResponse α) → σ → Prop := fun req _ r _ => r = respond req

theorem answering_total {σ : Type} [Alphabet α] {mayFail : FileOp Bytes α → Prop}
    (respond : HttpRequest α → Option (HttpResponse α)) (o : Op α) (w : World α σ) :
    ∃ r w', exec mayFail (answering respond) o w r w' :=
  ⟨_, _, @exec_answer _ _ _ _ _ (fun req s => (respond req, s)) (fun _ _ => rfl) o w⟩

section Calls

variable [Alphabet α] [Crypto α] [FloatFormat] [DecidableEq α] {σ : Type}
  {mayFail : FileOp Bytes α → Prop} {net : HttpRequest α → σ → Option (HttpResponse α) → σ → Prop}
  {s : Session α} {w : World α σ} {window v : Window α} {log : WindowLog α} {c : Call α}
  {Q : Except Exn β → (World α σ × Window α) × WindowLog α → Prop}

/-- A call of the window on the files. -/
theorem ensures_call {Q : c.Res → (World α σ × Window α) × WindowLog α → Prop}
    {R : c.Res → World α σ → Prop}
    (hcall : (c.run s window).Ensures (exec mayFail net) (fun _ => True) w fun x w' =>
      ∃ r, x = .ok (v, r) ∧ R r w')
    (hend : ∀ r w', R r w' → Q r ((w', v), log ++ [⟨c, r⟩])) :
    (call c).Ensures (logged (Call.exec mayFail net s)) (fun _ => True) ((w, window), log) Q := by
  rw [call, ensures_bind, ensures_op]
  refine ⟨trivial, ?_⟩
  rintro r ⟨⟨w', v'⟩, _⟩ ⟨hexec, rfl⟩
  obtain ⟨_, ⟨⟩, hR⟩ := hcall.of_runs hexec
  exact ⟨trivial, ensures_ofExcept.mpr ⟨trivial, hend r w' hR⟩⟩

/-- A call that returns, and what follows it. -/
theorem ensures_call_ok {f : c.Ret → WindowM α β} {R : World α σ → Prop} {a : c.Ret}
    (hcall : (c.run s window).Ensures (exec mayFail net) (fun _ => True) w fun x w' =>
      x = .ok (v, .ok a) ∧ R w')
    (hnext : ∀ w', R w' → (f a).Ensures (logged (Call.exec mayFail net s))
      (fun _ => True) ((w', v), log ++ [⟨c, .ok a⟩]) Q) :
    (call c >>= f).Ensures (logged (Call.exec mayFail net s)) (fun _ => True) ((w, window), log) Q := by
  rw [ensures_bind]
  refine ensures_call (R := fun r w' => r = .ok a ∧ R w')
    (ensures_mono hcall fun x w' hx => ⟨_, hx.1, rfl, hx.2⟩) ?_
  rintro _ w' ⟨rfl, hw'⟩
  exact hnext w' hw'

omit [Alphabet α] [Crypto α] [FloatFormat] [DecidableEq α] in
/-- A call of the library that returns. -/
theorem ensures_attempt_ok {γ : Type} {p : Action α γ} {R : World α σ → Prop} {a : γ}
    (h : p.Ensures (exec mayFail net) (fun _ => True) w fun x w' => x = .ok a ∧ R w') :
    (do return (window, ← Prog.attempt p) : Action α (Window α × Except Exn γ)).Ensures
      (exec mayFail net) (fun _ => True) w fun x w' => x = .ok (window, .ok a) ∧ R w' := by
  rw [ensures_bind, ensures_attempt]
  refine ensures_mono h ?_
  rintro _ w' ⟨rfl, hw'⟩
  exact ⟨trivial, rfl, hw'⟩

omit [Crypto α] [DecidableEq α] in
/-- The messages that are served. -/
theorem ensures_getMessages {client : Client α} {conversationId : UInt64} {body : List α} {j : Json α}
    (hnet : ∀ req r s', net req w.server r s' → req.path = messagesPath conversationId →
      r = some ⟨200, body⟩) (hparse : Json.parse body = some j) :
    (Kd.getMessages client conversationId).Ensures (exec mayFail net) (fun _ => True) w
      fun x w' => x = .ok j ∧ w'.files = w.files := by
  rw [Kd.getMessages, ensures_bind, ensures_http]
  refine ⟨trivial, fun r server hr => ⟨trivial, ?_⟩⟩
  obtain rfl := hnet _ r server hr rfl
  simp only [if_true]
  rw [ensures_ofExcept, hparse]
  exact ⟨trivial, rfl, rfl⟩

end Calls

/-! ## A message that can be opened -/

/-- The key file says that the one-time prekey is used. -/
def RecordedUsed [FloatFormat] [Alphabet α] (path : Bytes) (preKeyId : UInt64)
    (fs : Files Bytes α) : Prop :=
  ∃ text body used, fs path = some text ∧ Json.parse text = some body ∧
    recordedIds body = .ok used ∧ preKeyId ∈ used

theorem HoldsAll.recordedUsed [FloatFormat] [Alphabet α] [Crypto α] {path : Bytes}
    {username password : List α} {identity : LocalIdentityKey α} {file : Json α} {used : List UInt64}
    {fs : Files Bytes α} {id : UInt64} (hkey : IsKeyFile username password identity file)
    (h : HoldsAll path file used fs) (hid : id ∈ used) : RecordedUsed path id fs := by
  obtain ⟨text, body, htext, hparse, hfields⟩ := h
  refine ⟨text, body, used, htext, hparse, ?_, hid⟩
  rw [recordedIds, hfields usedField (by decide), ← recordedIds, recordedIds_recorded hkey]

/-- What a call has decrypted. -/
def decryptedBy : (c : Call α) → c.Res → Option (Message α × Except Exn (List α))
  | .decryptMessage message _ _, r => some (message, r)
  | _, _ => none

/-- The log decrypts this message only, to this text. -/
def DecryptsOnly (msg : Message α) (t : List α) (log : WindowLog α) : Prop :=
  ∀ e ∈ log, ∀ p, decryptedBy e.1 e.2 = some p → p = (msg, .ok t)

theorem decryptsOnly_snoc {msg : Message α} {t : List α} {log : WindowLog α}
    {e : Σ c : Call α, c.Res} : DecryptsOnly msg t (log ++ [e]) ↔ DecryptsOnly msg t log ∧
      ∀ p, decryptedBy e.1 e.2 = some p → p = (msg, .ok t) := by
  simp only [DecryptsOnly, List.forall_mem_append, List.forall_mem_singleton]

/-- The call asks the server for messages, or sends one. -/
def Call.Asks : Call α → Prop
  | .getMessages _ => True
  | .sendMessage .. => True
  | _ => False

theorem only_call {P : Call α → Prop} {c : Call α} (h : P c) : (call c).Only P :=
  only_bind (only_op h) fun _ => only_ofExcept _

theorem only_decryptPlaintext (msg : Message α) (recipientId : UInt64) :
    (decryptPlaintext msg recipientId).Only fun c => ¬ c.Asks := by
  have hquiet : ∀ {c : Call α}, ¬ c.Asks → (call c).Only fun c => ¬ c.Asks :=
    fun h => only_call h
  refine only_bind (hquiet not_false) fun cached => ?_
  cases cached with
  | some cached => trivial
  | none =>
      refine only_tryCatch (only_bind (hquiet not_false) fun window => ?_) fun _ => trivial
      have hrest : ∀ senderPk, (do
          call (.cachePublicKey msg.senderId senderPk)
          let plaintext ← call (.decryptMessage msg senderPk recipientId)
          call (.savePlaintext
            ⟨msg.id, msg.conversationId, msg.senderId, msg.timestamp, plaintext⟩)
          return some plaintext : WindowM α (Option (List α))).Only fun c => ¬ c.Asks :=
        fun senderPk => only_bind (hquiet not_false) fun _ => only_bind (hquiet not_false) fun _ =>
          only_bind (hquiet not_false) fun _ => trivial
      cases window.publicKeyCache msg.senderId with
      | some publicKey => exact hrest publicKey
      | none => exact only_bind (hquiet not_false) hrest

theorem only_showText [Alphabet α] (view : UInt64) (msg : Message α) (senderLabel : List α)
    (text : Option (List α)) : (showText view msg senderLabel text).Only fun c => ¬ c.Asks := by
  cases text <;> exact only_call not_false

theorem only_showMessages [Alphabet α] [FloatFormat] (s : Session α) (view outgoingRecipient : UInt64)
    (msgs : List (Json α)) :
    (showMessages s view outgoingRecipient msgs).Only fun c => ¬ c.Asks := by
  induction msgs with
  | nil => trivial
  | cons msgJson rest ih =>
      refine only_bind (only_bind (only_ofExcept _) fun msg => ?_) fun _ => ih
      split_ifs
      · refine only_bind (only_call not_false) fun cached => ?_
        cases cached with
        | some cached => exact only_showText _ _ _ _
        | none => exact only_bind (only_decryptPlaintext _ _) fun _ => only_showText _ _ _ _
      · exact only_bind (only_call not_false) fun _ =>
          only_bind (only_decryptPlaintext _ _) fun _ => only_showText _ _ _ _

section Arrival

variable [Alphabet α] [Crypto α] [FloatFormat] [DecidableEq α] {σ : Type}

/-- A message that the session can open with one of its one-time prekeys, from a sender it has
not met, whose key the server has. -/
structure Arrives (respond : HttpRequest α → Option (HttpResponse α)) (s : Session α)
    (w : World α σ) (window : Window α) (msg : Message α) (t : List α) (preKeyId : UInt64) : Prop where
  home : s.home ≠ []
  unpinned : w.files (knownKeysFile s.home) = none
  uncached : window.publicKeyCache msg.senderId = none
  keyFile : window.identityKey.keyFilePath ≠ []
  notPins : window.identityKey.keyFilePath ≠ knownKeysFile s.home
  distinct : (window.identityKey.oneTimePreKeys.map (·.id)).Nodup
  keys : ∃ username password identity file used, IsKeyFile username password identity file ∧
    HoldsAll window.identityKey.keyFilePath file used w.files ∧
      ∀ x ∈ window.identityKey.oneTimePreKeys, x.id ∉ used
  opens : ∃ senderPk, (∀ req, req.path = bytes "/users/" ++ decimal msg.senderId.toNat ++
      bytes "/public-key" → supplied (respond req) = some senderPk) ∧
    openMessage msg.payload window.identityKey senderPk msg.conversationId msg.senderId s.userId =
      .ok (t, some preKeyId)

/-- What is left after the message was decrypted. -/
structure WasRead (s : Session α) (msg : Message α) (t : List α) (preKeyId : UInt64)
    (keyPath : Bytes) (d : (World α σ × Window α) × WindowLog α) : Prop where
  decrypted : ∃ senderPk,
    (⟨.decryptMessage msg senderPk s.userId, .ok t⟩ : Σ c : Call α, c.Res) ∈ d.2
  only : DecryptsOnly msg t d.2
  recorded : RecordedUsed keyPath preKeyId d.1.1.files

variable [LawfulBase64 α] [IdealAead α] [IdealKdf α]
  {respond : HttpRequest α → Option (HttpResponse α)} {s : Session α} {w : World α σ}
  {window : Window α} {msg : Message α} {t : List α} {preKeyId : UInt64} {log : WindowLog α}
  {username password : List α} {path : Bytes} {m : Records α}

/-- **A message that arrives is decrypted once**, and its prekey is used up; its text is
returned when it can be saved. -/
theorem Arrives.ensures_decryptPlaintext (h : Arrives respond s w window msg t preKeyId)
    (hshows : Shows path username password s (w, window) m) (hpath : path ≠ [])
    (htmp : window.identityKey.keyFilePath ≠ path ++ bytes ".tmp") (hnone : m msg.id = none)
    (honly : DecryptsOnly msg t log) :
    (decryptPlaintext msg s.userId).Ensures
      (logged (Call.exec (fun _ => False) (answering respond) s)) (fun _ => True) ((w, window), log)
      fun x d => x = .ok (if validUtf8 t then some t else none) ∧
        WasRead s msg t preKeyId window.identityKey.keyFilePath d := by
  obtain ⟨senderPk, hsupplied, hopen⟩ := h.opens
  obtain ⟨_, _, identity, file, used, hkey, hholds, hfresh⟩ := h.keys
  rw [decryptPlaintext]
  refine ensures_call_ok (v := window) (R := fun w' => w = w') (a := none) ?_ ?_
  · refine ensures_attempt_ok (ensures_mono
      (ensures_getPlaintext hshows.file hpath hshows.store msg.id) ?_)
    rintro x w' ⟨rfl, rfl⟩
    rw [Records.plaintexts, hnone]
    exact ⟨rfl, rfl⟩
  rintro _ rfl
  dsimp only
  rw [ensures_tryCatch]
  refine ensures_mono (Q := fun x d =>
    (if validUtf8 t then x = .ok (some t) else ∃ e, x = .error e) ∧
      WasRead s msg t preKeyId window.identityKey.keyFilePath d) ?_ ?_
  · refine ensures_call_ok (v := window) (R := fun w' => w = w') (a := window)
      ⟨trivial, rfl, rfl⟩ ?_
    rintro _ rfl
    rw [h.uncached]
    -- the sender's key is fetched and pinned
    refine ensures_call_ok (c := .getPublicKey msg.senderId) (v := window) (a := senderPk)
      (R := fun w₁ => ∀ p ≠ knownKeysFile s.home, w₁.files p = w.files p) ?_ ?_
    · refine ensures_attempt_ok (Ensures.and ?_ ?_)
      · exact ensures_getPublicKey_first h.home h.unpinned (hsupplied ⟨bytes "GET", bytes "/users/" ++
          decimal msg.senderId.toNat ++ bytes "/public-key", s.client.authToken, []⟩ rfl)
          fun r server hr => hr
      · exact ensures_others (only_getPublicKey _ _ _) w
    intro w₁ hw₁
    refine ensures_call_ok (v := { window with
      publicKeyCache := Function.update window.publicKeyCache msg.senderId (some senderPk) })
      (R := fun w' => w₁ = w') (a := ()) ⟨trivial, rfl, rfl⟩ ?_
    rintro _ rfl
    -- the message is decrypted, and its prekey recorded
    refine ensures_call_ok (v := { window with
      publicKeyCache := Function.update window.publicKeyCache msg.senderId (some senderPk)
      identityKey := window.identityKey.without preKeyId })
      (R := fun w₂ => HoldsAll window.identityKey.keyFilePath file (used ++ [preKeyId]) w₂.files ∧
        w₂.files path = w.files path) (a := t) ?_ ?_
    · rw [Call.run, ensures_bind]
      refine ensures_mono (ensures_decryptMessage_all hkey ?_ h.keyFile rfl h.distinct hfresh hopen) ?_
      · obtain ⟨text, body, htext, hbody⟩ := hholds
        exact ⟨text, body, (hw₁ _ h.notPins).trans htext, hbody⟩
      · rintro _ w₂ ⟨rfl, hholds₂, hother, -⟩
        exact ⟨trivial, rfl, hholds₂,
          (hother path hshows.keys.symm).trans (hw₁ path hshows.pins.symm)⟩
    rintro w₂ ⟨hholds₂, hfile₂⟩
    -- its text is saved when that is possible
    rw [ensures_bind]
    refine ensures_call (v := { window with
      publicKeyCache := Function.update window.publicKeyCache msg.senderId (some senderPk)
      identityKey := window.identityKey.without preKeyId })
      (R := fun r w₃ => (if validUtf8 t then r = .ok () else ∃ e, r = .error e) ∧
        w₃.files window.identityKey.keyFilePath = w₂.files window.identityKey.keyFilePath) ?_ ?_
    · rw [Call.run, ensures_bind, ensures_attempt]
      have hframe := only_savePlaintext_onStore s.messageStore
        ⟨msg.id, msg.conversationId, msg.senderId, msg.timestamp, t⟩
      rw [hshows.store.storePath] at hframe
      refine ensures_mono (Ensures.and (ensures_savePlaintext (hfile₂.symm ▸ hshows.file) hpath
        hshows.store _) (ensures_weaken (hframe.ensures_same
        (fun w => w.files window.identityKey.keyFilePath)
        (fun _ _ _ _ ho hexec => ho.exec hshows.keys htmp hexec) w₂) fun _ _ => trivial)) ?_
      rintro r w₃ ⟨⟨m', hcache, -⟩, hsame⟩
      refine ⟨trivial, r, rfl, ?_, hsame⟩
      simp only [cacheExec] at hcache
      split_ifs at hcache ⊢ with hvalid
      · exact hcache.1
      · exact hcache.1
    · rintro r w₃ ⟨hr, hsame⟩
      have hread : ∀ log', log' = log ++ [⟨.getPlaintext msg.id, .ok none⟩] ++
          [⟨.fields, .ok window⟩] ++ [⟨.getPublicKey msg.senderId, .ok senderPk⟩] ++
          [⟨.cachePublicKey msg.senderId senderPk, .ok ()⟩] ++
          [⟨.decryptMessage msg senderPk s.userId, .ok t⟩] ++
          [⟨.savePlaintext ⟨msg.id, msg.conversationId, msg.senderId, msg.timestamp, t⟩, r⟩] →
          ∀ window₃, WasRead s msg t preKeyId window.identityKey.keyFilePath
            ((w₃, window₃), log') := by
        rintro _ rfl window₃
        refine ⟨⟨senderPk, by simp⟩, ?_, ?_⟩
        · simp only [decryptsOnly_snoc]
          simp [honly, decryptedBy]
        · obtain ⟨text, body, htext, hbody⟩ := hholds₂
          exact HoldsAll.recordedUsed hkey ⟨text, body, hsame.trans htext, hbody⟩ (by simp)
      split_ifs at hr with hvalid
      · subst hr
        refine ⟨trivial, ?_, hread _ rfl _⟩
        rw [if_pos hvalid]
      · obtain ⟨e, rfl⟩ := hr
        refine ⟨?_, hread _ rfl _⟩
        rw [if_neg hvalid]
        exact ⟨e, rfl⟩
  · rintro x ⟨⟨w', window'⟩, log'⟩ ⟨hx, hread⟩
    split_ifs at hx with hvalid
    · subst hx
      exact ⟨by rw [if_pos hvalid], hread⟩
    · obtain ⟨e, rfl⟩ := hx
      exact ⟨trivial, by rw [if_neg hvalid], hread⟩

omit [DecidableEq α] [LawfulBase64 α] [IdealAead α] [IdealKdf α] in
/-- Only the files, the keys and the cached public keys matter. -/
theorem Arrives.congr [DecidableEq α] (h : Arrives respond s w window msg t preKeyId)
    {w' : World α σ} {window' : Window α} (hfiles : w'.files = w.files)
    (hkeys : window'.identityKey = window.identityKey)
    (hcache : window'.publicKeyCache = window.publicKeyCache) :
    Arrives respond s w' window' msg t preKeyId := by
  obtain ⟨files, server⟩ := w
  obtain ⟨files', server'⟩ := w'
  obtain rfl : files' = files := hfiles
  refine ⟨h.home, h.unpinned, ?_, ?_, ?_, ?_, ?_, ?_⟩
  · rw [hcache]
    exact h.uncached
  all_goals rw [hkeys]
  · exact h.keyFile
  · exact h.notPins
  · exact h.distinct
  · exact h.keys
  · exact h.opens

/-- The server serves the message, alone, in a view. -/
def Served (respond : HttpRequest α → Option (HttpResponse α)) (view : UInt64) (msg : Message α)
    (msgJson : Json α) : Prop :=
  ∃ body, Json.parse body = some (.arr [msgJson]) ∧ messageOf msgJson = .ok msg ∧
    ∀ req, req.path = messagesPath view → respond req = some ⟨200, body⟩

/-- What is left after a load in which the message was served. -/
structure WasShown (s : Session α) (view : UInt64) (msg : Message α) (msgJson : Json α) (t : List α)
    (preKeyId : UInt64) (keyPath : Bytes) (log : WindowLog α)
    (d : (World α σ × Window α) × WindowLog α) : Prop where
  read : WasRead s msg t preKeyId keyPath d
  shown : validUtf8 t = true → ∃ before label,
    d.2 = before ++ [⟨.appendMessageToView view msg label t true, .ok ()⟩]
  log_eq : ∃ more, d.2 = log ++ [⟨.clearMessages, .ok ()⟩] ++
    [⟨.getMessages view, .ok (.arr [msgJson])⟩] ++ more ∧ ∀ e ∈ more, ¬ e.1.Asks

/-- **The message is shown** in the view for which the server serves it. -/
theorem Arrives.ensures_loadMessages (h : Arrives respond s w window msg t preKeyId)
    (hshows : Shows path username password s (w, window) m) (hpath : path ≠ [])
    (htmp : window.identityKey.keyFilePath ≠ path ++ bytes ".tmp") (hnone : m msg.id = none)
    (honly : DecryptsOnly msg t log) (hother : msg.senderId ≠ s.userId) {view : UInt64}
    {msgJson : Json α} (hserved : Served respond view msg msgJson) :
    (loadMessages s view).Ensures (logged (Call.exec (fun _ => False) (answering respond) s))
      (fun _ => True) ((w, window), log) fun x d => x = .ok () ∧
        WasShown s view msg msgJson t preKeyId window.identityKey.keyFilePath log d := by
  obtain ⟨body, hparse, hmsg, hrespond⟩ := hserved
  rw [loadMessages]
  refine ensures_call_ok (v := { window with visibleMessages := [] })
    (R := fun w' => w = w') (a := ()) ⟨trivial, rfl, rfl⟩ ?_
  rintro _ rfl
  rw [ensures_tryCatch]
  refine ensures_mono (Q := fun x d => x = .ok () ∧
    WasShown s view msg msgJson t preKeyId window.identityKey.keyFilePath log d) ?_ ?_
  · refine ensures_call_ok (v := { window with visibleMessages := [] })
      (R := fun w' => w'.files = w.files) (a := .arr [msgJson]) (ensures_attempt_ok
        (ensures_getMessages (fun req r s' hr hreq => hr.trans (hrespond req hreq)) hparse)) ?_
    intro w₁ hw₁
    have h₁ : Arrives respond s w₁ { window with visibleMessages := [] } msg t preKeyId :=
      h.congr hw₁ rfl rfl
    have hshows₁ : Shows path username password s (w₁, { window with visibleMessages := [] }) m :=
      ⟨hshows.store, hshows.pins, hshows.keys, hw₁ ▸ hshows.file⟩
    rw [ensures_bind, ensures_ofExcept, sortByTimestamp]
    refine ⟨trivial, ?_⟩
    -- after the answer nothing more is asked
    have hquiet : (do
        let outgoingRecipient := (← call .fields).activeRecipientId.getD s.userId
        showMessages s view outgoingRecipient [msgJson] : WindowM α Unit).Only fun c => ¬ c.Asks :=
      only_bind (only_call not_false) fun _ => only_showMessages _ _ _ _
    refine ensures_mono (Q := fun x d => (x = .ok () ∧
      WasRead s msg t preKeyId window.identityKey.keyFilePath d ∧ (validUtf8 t = true →
        ∃ before label, d.2 = before ++ [⟨.appendMessageToView view msg label t true, .ok ()⟩])) ∧
          ∃ more, d.2 = log ++ [⟨.clearMessages, .ok ()⟩] ++
            [⟨.getMessages view, .ok (.arr [msgJson])⟩] ++ more ∧ ∀ e ∈ more, ¬ e.1.Asks)
      (Ensures.and ?_ (hquiet.ensures_log _ _)) ?_
    · refine ensures_call_ok (v := { window with visibleMessages := [] })
        (R := fun w' => w₁ = w') (a := { window with visibleMessages := [] }) ⟨trivial, rfl, rfl⟩ ?_
      rintro _ rfl
      rw [showMessages, ensures_bind, showMessage, ensures_bind, ensures_ofExcept, hmsg]
      refine ⟨trivial, ?_⟩
      dsimp only
      rw [if_neg hother]
      refine ensures_call_ok (v := { window with visibleMessages := [] })
        (R := fun w' => w₁ = w') (a := { window with visibleMessages := [] }) ⟨trivial, rfl, rfl⟩ ?_
      rintro _ rfl
      rw [ensures_bind]
      have honly₁ : ∀ log', log' = log ++ [⟨.clearMessages, .ok ()⟩] ++
          [⟨.getMessages view, .ok (.arr [msgJson])⟩] ++
          [⟨.fields, .ok { window with visibleMessages := [] }⟩] ++
          [⟨.fields, .ok { window with visibleMessages := [] }⟩] → DecryptsOnly msg t log' := by
        rintro _ rfl
        simp only [decryptsOnly_snoc]
        simp [honly, decryptedBy]
      refine ensures_mono (h₁.ensures_decryptPlaintext hshows₁ hpath htmp hnone (honly₁ _ rfl)) ?_
      rintro x ⟨⟨w₂, window₂⟩, log₂⟩ ⟨rfl, hread⟩
      dsimp only
      have hshown : ∀ {e : Σ c : Call α, c.Res} {window₃},
          (∀ p, decryptedBy e.1 e.2 = some p → p = (msg, .ok t)) →
          WasRead s msg t preKeyId window.identityKey.keyFilePath ((w₂, window₃), log₂ ++ [e]) := by
        intro e window₃ he
        obtain ⟨senderPk, hdecrypted⟩ := hread.decrypted
        exact ⟨⟨senderPk, List.mem_append_left _ hdecrypted⟩,
          decryptsOnly_snoc.mpr ⟨hread.only, he⟩, hread.recorded⟩
      by_cases hvalid : validUtf8 t = true
      · rw [if_pos hvalid]
        refine ensures_call (R := fun r w' => r = .ok () ∧ w₂ = w') ⟨trivial, .ok (), rfl, rfl, rfl⟩ ?_
        rintro _ _ ⟨rfl, rfl⟩
        refine ⟨trivial, rfl, hshown ?_, fun _ => ⟨log₂, _, rfl⟩⟩
        rintro _ ⟨⟩
      · rw [if_neg hvalid]
        refine ensures_call (R := fun r w' => r = .ok () ∧ w₂ = w') ⟨trivial, .ok (), rfl, rfl, rfl⟩ ?_
        rintro _ _ ⟨rfl, rfl⟩
        refine ⟨trivial, rfl, hshown ?_, fun h => absurd h hvalid⟩
        rintro _ ⟨⟩
    · rintro x d ⟨⟨hx, hread, hshown⟩, hlog⟩
      exact ⟨hx, hread, hshown, hlog⟩
  · rintro x ⟨d, log'⟩ ⟨rfl, hend⟩
    exact ⟨rfl, hend⟩

/-! ## Every text can arrive -/

variable [LawfulDh α] [LawfulSigning α] {home : Bytes} {identity : LocalIdentityKey α} {file : Json α}
  {used : List UInt64}

/-- **The first login** after a signup opens a window with the keys of the user. -/
theorem ensures_openSession_first (hhome : home ≠ []) (hkey : IsKeyFile username password identity file)
    (hholds : HoldsAll (keyFile home username) file used w.files)
    (habsent : w.files (storeFile home username) = none)
    (net : HttpRequest α → σ → Option (HttpResponse α) → σ → Prop) (client : Client α) (me : UInt64) :
    (openSession client home username password (.mkObj [("token", .str []), ("id", .unsigned me),
      ("username", .str username)])).Ensures (exec (fun _ => False) net) (fun _ => True) w fun x w' =>
        w' = w ∧ ∃ s window, x = .ok (s, window) ∧ s.home = home ∧ s.userId = me ∧
          window.identityKey = identity.unused used (keyFile home username) ∧
          window.publicKeyCache = fun _ => none := by
  have htoken : (Json.mkObj [("token", .str []), ("id", .unsigned me), ("username", .str username)] :
      Json α).get? (bytes "token") = some (.str []) := by
    simp +decide [Json.get?_mkObj, Json.lookup]
  have hid : (do getUInt64 (← at' (Json.mkObj [("token", .str []), ("id", .unsigned me),
      ("username", .str username)] : Json α) "id")) = .ok me := by
    simp +decide [at'_mkObj, Json.lookup, orJsonError]
    rfl
  have hname : (do getString (← at' (Json.mkObj [("token", .str []), ("id", .unsigned me),
      ("username", .str username)] : Json α) "username")) = .ok username := by
    simp +decide [at'_mkObj, Json.lookup, orJsonError]
    rfl
  have hstorePath : defaultStorePath home username = .ok (storeFile home username) := by
    rw [defaultStorePath, ensure, if_pos hhome]
    rfl
  rw [openSession, htoken, ensures_bind, ensures_ofExcept]
  refine ⟨trivial, ?_⟩
  dsimp only [orThrow, Option.elim_some]
  have hstr : getString (.str [] : Json α) = .ok [] := rfl
  rw [ensures_bind, ensures_ofExcept, hstr]
  refine ⟨trivial, ?_⟩
  dsimp only
  rw [ensures_bind]
  refine ensures_mono (ensures_loadForLogin_all trivial hhome hkey hholds) ?_
  rintro _ _ ⟨rfl, rfl⟩
  dsimp only
  rw [ensures_bind, encryptedForUser, hstorePath]
  refine ensures_mono (ensures_encryptedAtPath_absent trivial habsent) ?_
  rintro _ _ ⟨rfl, store, rfl, -⟩
  dsimp only
  rw [hid, hname]
  exact ⟨trivial, rfl, _, _, rfl, rfl, rfl, rfl, rfl⟩

omit [Alphabet α] [Crypto α] [DecidableEq α] [LawfulBase64 α] [IdealAead α] [IdealKdf α]
  [LawfulDh α] [LawfulSigning α] in
/-- A message reads back from the text of an answer. -/
theorem messageOf_norm (msg : Message α) :
    messageOf (Json.mkObj [("id", .unsigned msg.id), ("senderId", .unsigned msg.senderId),
      ("conversationId", .unsigned msg.conversationId), ("payload", .str msg.payload),
      ("timestamp", .unsigned msg.timestamp),
      ("blockchainDigest", .str msg.blockchainDigest)]).norm = .ok msg := by
  simp +decide [messageOf, at', Json.get?_norm, Json.get?_mkObj, Json.lookup, orJsonError]
  rfl

omit [DecidableEq α] in
/-- A payload for one of the keys of a user, from someone else. -/
theorem exists_payload {sender : LocalIdentityKey α} {k : LocalIdentityKey α} [DecidableEq α]
    (hsender : sender.Made) (hk : k.Made) {key : LocalPreKey α} (hkey : key ∈ k.oneTimePreKeys)
    (t : List α) (conversationId senderId recipientId : UInt64) :
    ∃ payload bundle, validUtf8 payload = true ∧ validUtf8 bundle = true ∧
      openMessage payload k bundle conversationId senderId recipientId = .ok (t, some key.id) := by
  have hvalid : ∀ {k : LocalIdentityKey α}, k.Made → validUtf8 k.publicKey = true := fun hk =>
    hk.publicKey ▸ LawfulBase64.validUtf8_encode _
  let keys : RecipientKeys α := ⟨k.publicKey, k.signedPreKey.id, k.signedPreKey.publicKey,
    some (key.id, key.publicKey)⟩
  have hmatch : keys.Match k := by
    refine ⟨rfl, rfl, rfl, ?_⟩
    rintro _ ⟨⟩
    exact ⟨key, hkey, rfl⟩
  obtain ⟨messageKey, hmessageKey⟩ :=
    exists_senderKey hk hmatch IdealKdf.hkdf_some sender.privateKey []
  obtain ⟨payload, hpayload⟩ := exists_sealMessage t keys conversationId senderId recipientId
    messageKey (List.replicate 24 (Alphabet.ofByte 0)) (hvalid hsender)
    (LawfulBase64.validUtf8_encode (Crypto.boxPublicKey [])) (hvalid hk)
  obtain ⟨bundle, text, htext, hbundle, haccepted, hidentity⟩ := exists_bundle hsender "senderBundle"
  have hopen := openMessage_sealMessage hsender hk hmatch hmessageKey List.length_replicate hpayload
    hbundle haccepted hidentity
  refine ⟨payload, text, ?_, htext, hopen⟩
  simp only [sealMessage, bind_ok, orJsonError_ok] at hpayload
  obtain ⟨aad, -, hdump⟩ := hpayload
  exact Json.validUtf8_dumpWith hdump (wf_payloadJson _ _ _ _ _ _)

/-- **Every text can arrive**, at a user who has signed up and logged in, in any conversation and
view. -/
theorem exists_arrival (hhome : home ≠ []) (hvalid : validUtf8 username = true)
    (hpins : sanitizedUsername username ≠ bytes "known_keys") (password : List α)
    (me msgId senderId conversationId view : UInt64) (t : List α) :
    ∃ (respond : HttpRequest α → Option (HttpResponse α)) (s : Session α) (window : Window α)
      (w : World α Unit) (msg : Message α) (preKeyId : UInt64),
      (∀ mayStop, WindowRun (fun _ => False) (answering respond) mayStop home username password me []
        (some (s, window)) w) ∧ s.userId = me ∧
      window.identityKey.keyFilePath = keyFile home username ∧
      msg.id = msgId ∧ msg.senderId = senderId ∧ msg.conversationId = conversationId ∧
      oneTimePreKeyIdFromPayload msg.payload = .ok (some preKeyId) ∧
      Arrives respond s w window msg t preKeyId ∧ ∃ msgJson, Served respond view msg msgJson := by
  -- the user and the sender sign up
  obtain ⟨material, identity, file, fs, hsignup, hkey, hholds⟩ :=
    exists_signup home username password (fun _ => none) hhome hvalid rfl
      fun salt => exists_keyEncryptionKey password salt _ _
  obtain ⟨_, sender, _, _, -, hsender, -⟩ :=
    exists_signup home ([] : List α) [] (fun _ => none) hhome rfl rfl
      fun salt => exists_keyEncryptionKey [] salt _ _
  have hother : ∀ p ≠ keyFile home username, fs p = none :=
    (ensures_others (only_createForSignup home username password) _).of_runs hsignup
  have habsent : fs (storeFile home username) = none :=
    hother _ (storeFile_ne_keyFile home username username).symm
  -- a message for the first prekey, and the answers of the server
  obtain ⟨key, hmem⟩ : ∃ key, key ∈ identity.oneTimePreKeys := by
    refine List.exists_mem_of_ne_nil _ fun hnil => ?_
    have hids := hkey.ids
    rw [hnil, List.map_nil] at hids
    exact absurd hids.symm (by decide)
  have hmade := hkey.made.unused [] (keyFile home username)
  have hunused : key ∈ (identity.unused [] (keyFile home username)).oneTimePreKeys := by
    simpa [LocalIdentityKey.unused] using hmem
  obtain ⟨payload, bundle, hpayload, hbundle, hopen⟩ := exists_payload hsender.made hmade
    hunused t conversationId senderId me
  let msg : Message α := ⟨msgId, senderId, conversationId, payload, 0, []⟩
  let msgJson : Json α := .mkObj [("id", .unsigned msg.id), ("senderId", .unsigned msg.senderId),
    ("conversationId", .unsigned msg.conversationId), ("payload", .str msg.payload),
    ("timestamp", .unsigned msg.timestamp), ("blockchainDigest", .str msg.blockchainDigest)]
  have hmsg : messageOf msgJson.norm = .ok msg := messageOf_norm msg
  obtain ⟨body, hparse⟩ : ∃ body, Json.parse body = some (.arr [msgJson.norm]) := by
    have hempty : validUtf8 ([] : List α) = true := rfl
    have hprint : msgJson.Printable :=
      Json.printable_mkObj (by simp [Json.Printable, msg, hpayload, hempty])
    have hwf : msgJson.WF := Json.wf_mkObj (by simp [Json.WF])
    obtain ⟨body, hbody⟩ := Json.exists_dump (j := .arr [msgJson]) ⟨hprint, trivial⟩
    exact ⟨body, Json.parse_dump hbody ⟨hwf, trivial⟩⟩
  obtain ⟨keyBody, hkeyBody⟩ : ∃ keyBody, publicKeyOf keyBody = .ok bundle := by
    have hprint : (Json.mkObj [("publicKey", .str bundle)]).Printable :=
      Json.printable_mkObj (by simp [Json.Printable, hbundle])
    obtain ⟨keyBody, hkeyBody⟩ := Json.exists_dump hprint
    refine ⟨keyBody, ?_⟩
    rw [publicKeyOf, Json.parse_dump hkeyBody (Json.wf_mkObj (by simp [Json.WF]))]
    simp +decide [orJsonError, Json.get?_norm, Json.get?_mkObj, Json.lookup, orThrow]
    rfl
  let respond : HttpRequest α → Option (HttpResponse α) := fun req =>
    if req.path = messagesPath view then some ⟨200, body⟩ else some ⟨200, keyBody⟩
  -- the user logs in
  obtain ⟨_, w, hlogin, hw, s, window, rfl, hs, hme, hkeys, hcache⟩ :=
    (ensures_openSession_first (w := ⟨fs, ()⟩) hhome hkey hholds habsent (answering respond)
      ⟨[], [], []⟩ me).exists_of_total (answering_total respond)
  have hsupplied : ∀ req, req.path = bytes "/users/" ++ decimal senderId.toNat ++
      bytes "/public-key" → supplied (respond req) = some bundle := by
    intro req hreq
    have hne : req.path ≠ messagesPath view := by
      rw [hreq, messagesPath, List.append_assoc, List.append_assoc]
      intro h
      have hstart := congrArg (List.take 2) h
      rw [List.take_append_of_le_length (by decide),
        List.take_append_of_le_length (by decide)] at hstart
      exact absurd hstart (by decide)
    simp [respond, if_neg hne, supplied, hkeyBody, Except.toOption]
  refine ⟨respond, s, window, w, msg, key.id, fun mayStop => .login (.start ?_) hlogin hme, hme, ?_,
    rfl, rfl, rfl, (openMessage_preKey hopen).1, ?_, _, body, hparse, hmsg, fun req hreq => if_pos hreq⟩
  · exact habsent
  · rw [hkeys]
    rfl
  · obtain rfl : w = ⟨fs, ()⟩ := hw
    have hpin : knownKeysFile home ≠ keyFile home username := fun h =>
      hpins (keyFile_eq_knownKeysFile.mp h.symm)
    refine ⟨hs ▸ hhome, ?_, ?_, ?_, ?_, ?_, ?_, bundle, hsupplied, ?_⟩
    · rw [hs]
      exact hother _ hpin
    · rw [hcache]
    all_goals rw [hkeys]
    · exact keyFile_ne_nil home username
    · rw [hs]
      exact hpin.symm
    · exact hmade.distinct
    · exact ⟨username, password, identity, file, [], hkey, hholds, by simp⟩
    · rw [hme]
      exact hopen

/-- **Every text can be shown**, in a view of the server's choice. -/
theorem exists_shown (hhome : home ≠ []) (hvalid : validUtf8 username = true)
    (hpins : sanitizedUsername username ≠ bytes "known_keys") (password : List α)
    {me senderId : UInt64} (hother : senderId ≠ me) (msgId conversationId view : UInt64) (t : List α)
    (mayStop : WindowLog α → Option (Call α) → Prop) :
    ∃ (respond : HttpRequest α → Option (HttpResponse α)) (s : Session α) (window : Window α)
      (w : World α Unit) (msg : Message α) (msgJson : Json α) (preKeyId : UInt64) (log : WindowLog α),
      WindowRun (fun _ => False) (answering respond) mayStop home username password me log
        (some (s, window)) w ∧ s.userId = me ∧
      msg.id = msgId ∧ msg.senderId = senderId ∧ msg.conversationId = conversationId ∧
      messageOf msgJson = .ok msg ∧ oneTimePreKeyIdFromPayload msg.payload = .ok (some preKeyId) ∧
      WasShown s view msg msgJson t preKeyId (keyFile home username) [] ((w, window), log) := by
  obtain ⟨respond, s, window, w, msg, preKeyId, hlogin, hme, hkeys, hid, hsender, hconversation,
    hpayload, harrives, msgJson, hserved⟩ :=
    exists_arrival hhome hvalid hpins password me msgId senderId conversationId view t
  have hholds := (hlogin fun _ _ => False).holds_records (fun _ h => h.elim) fun _ _ h => h
  have hshows := (hholds.desk s window rfl).2
  obtain ⟨_, ⟨⟨w', window'⟩, log⟩, hrun, rfl, hshown⟩ :=
    (harrives.ensures_loadMessages hshows (storeFile_ne_nil home username)
      (hkeys ▸ storeTmp_ne_keyFile home username username) rfl
      (by simp [DecryptsOnly] : DecryptsOnly msg t [])
      (hsender ▸ hme ▸ hother) hserved).exists_of_total
      (logged_total (Call.exec_total (answering_total respond) s))
  have hload : ((WindowAction.load view).prog s).Runs _ _ _ _ := hrun
  obtain ⟨body, -, hmsg, -⟩ := hserved
  exact ⟨respond, s, window', w', msg, msgJson, preKeyId, log, (hlogin mayStop).act hload, hme, hid,
    hsender, hconversation,
    hmsg, hpayload, hkeys ▸ hshown⟩

end Arrival

end Kd
