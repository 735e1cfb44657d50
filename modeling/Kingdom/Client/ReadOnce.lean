import Kingdom.Client.Arrivals

/-!
# Messages that can be read again

The one-time prekey of a message is used up when it is decrypted, so that its text can be had
again from the cache of the window only.

* `ReadOnce` — a message was decrypted, and its prekey is recorded as used.
* `ReadableAgain` — `decryptPlaintext` returns its text from then on.
* `SafeStop`, `CallSafe` — where the process may stop, and what may be decrypted and replied.
* `ReadInv` — the invariant: the cache has every text that was decrypted.
* `readable_again` — with such stops and calls every run keeps the texts.
-/

namespace Kd

open Codec Process Storage Prog

variable {α β : Type}

/-! ## The property -/

/-- A call of `decryptMessage` has returned the text for a message with this id. -/
def DecryptedAs (log : WindowLog α) (id : UInt64) (t : List α) : Prop :=
  ∃ message senderPk recipientId, message.id = id ∧
    (⟨.decryptMessage message senderPk recipientId, .ok t⟩ : Σ c : Call α, c.Res) ∈ log

section Property

variable [Alphabet α] [FloatFormat] {σ : Type}

/-- The message was authenticated, and its one-time prekey is recorded as used. -/
def ReadOnce (home : Bytes) (username : List α) (log : WindowLog α) (fs : Files Bytes α) (id : UInt64)
    (t : List α) : Prop :=
  ∃ message senderPk recipientId preKeyId, message.id = id ∧
    (⟨.decryptMessage message senderPk recipientId, .ok t⟩ : Σ c : Call α, c.Res) ∈ log ∧
    oneTimePreKeyIdFromPayload message.payload = .ok (some preKeyId) ∧
    RecordedUsed (keyFile home username) preKeyId fs

/-- **Every call of `decryptPlaintext` returns the text** of a message that was read. -/
def ReadableAgain [Crypto α] [DecidableEq α]
    (net : HttpRequest α → σ → Option (HttpResponse α) → σ → Prop) (home : Bytes) (username : List α)
    (log : WindowLog α) (desk : Option (Session α × Window α)) (w : World α σ) : Prop :=
  ∀ s window id t, desk = some (s, window) → ReadOnce home username log w.files id t →
    ∀ msg recipientId x d, msg.id = id →
      (decryptPlaintext msg recipientId).Runs (Call.exec (fun _ => False) net s) (w, window)
        (some x) d → x = .ok (some t)

/-! ## The condition -/

/-- The process may stop here: no text has just been decrypted, and the process is not in a call
that decrypts or saves one. -/
def SafeStop (log : WindowLog α) (c : Option (Call α)) : Prop :=
  (∀ message senderPk recipientId t,
    log.getLast? ≠ some ⟨.decryptMessage message senderPk recipientId, .ok t⟩) ∧
  (∀ message senderPk recipientId, c ≠ some (.decryptMessage message senderPk recipientId)) ∧
  ∀ r, c ≠ some (.savePlaintext r)

/-- What is decrypted is valid UTF-8, and the reply to a message that is sent does not name one
that was decrypted. -/
def CallSafe (before : WindowLog α) : (c : Call α) → c.Res → Prop
  | .decryptMessage .., .ok t => validUtf8 t = true
  | .sendMessage .., .ok sent => ∀ msg, messageOf sent = .ok msg → ∀ t, ¬ DecryptedAs before msg.id t
  | _, _ => True

/-- A call that asks nothing, and decrypts a valid text if any. -/
theorem callSafe_of_decrypts {before : WindowLog α} {msg : Message α} {t : List α}
    {e : Σ c : Call α, c.Res} (hasks : ¬ e.1.Asks)
    (honly : ∀ p, decryptedBy e.1 e.2 = some p → p = (msg, .ok t)) (ht : validUtf8 t = true) :
    CallSafe before e.1 e.2 := by
  obtain ⟨c, r⟩ := e
  cases c with
  | decryptMessage message senderPk recipientId =>
      obtain rfl : r = .ok t := (Prod.ext_iff.mp (honly (message, r) rfl)).2
      exact ht
  | sendMessage => exact absurd trivial hasks
  | _ => trivial

end Property

/-! ## The invariant -/

/-- The cache has every text that was decrypted. -/
def ReadInv (log : WindowLog α) (m : Records α) : Prop :=
  ∀ id t, DecryptedAs log id t → m.plaintexts id = some t

/-- A call that neither decrypts nor saves a text. -/
def Call.Calm : Call α → Prop
  | .decryptMessage .. => False
  | .savePlaintext _ => False
  | _ => True

section Steps

variable {log : WindowLog α} {m m' : Records α} {c : Call α} {r : c.Res}

/-- A call that returns no decrypted text adds none. -/
theorem DecryptedAs.of_snoc {id : UInt64} {t : List α} (h : DecryptedAs (log ++ [⟨c, r⟩]) id t) :
    DecryptedAs log id t ∨ ∃ message senderPk recipientId, message.id = id ∧
      (⟨c, r⟩ : Σ c : Call α, c.Res) = ⟨.decryptMessage message senderPk recipientId, .ok t⟩ := by
  obtain ⟨message, senderPk, recipientId, hid, hmem⟩ := h
  rcases List.mem_append.mp hmem with hmem | hmem
  · exact .inl ⟨message, senderPk, recipientId, hid, hmem⟩
  · exact .inr ⟨message, senderPk, recipientId, hid, (List.mem_singleton.mp hmem).symm⟩

theorem ReadInv.calm (h : ReadInv log m) (hc : c.Calm) : ReadInv (log ++ [⟨c, r⟩]) m := by
  intro id t hread
  rcases hread.of_snoc with hread | ⟨message, senderPk, recipientId, -, heq⟩
  · exact h id t hread
  · cases heq
    exact hc.elim

theorem calm_exec [Alphabet α] (hc : c.Calm) (hexec : cacheExec c m r m') : m' = m := by
  cases c with
  | savePlaintext _ => exact hc.elim
  | decryptMessage => exact hc.elim
  | getPlaintext id => exact hexec.2
  | _ => exact hexec

/-- **Saving a text** keeps the others, and a text that was decrypted is saved as it is. -/
theorem ReadInv.save [Alphabet α] {record : PlaintextRecord α} {u : Unit}
    (hother : ∀ id t, DecryptedAs log id t → id ≠ record.messageId → m.plaintexts id = some t)
    (hsame : ∀ t, DecryptedAs log record.messageId t → t = record.plaintext)
    (hexec : cacheExec (.savePlaintext record) m (.ok u) m') :
    ReadInv (log ++ [⟨.savePlaintext record, .ok u⟩]) m' := by
  rw [cacheExec] at hexec
  split_ifs at hexec
  · obtain ⟨-, rfl⟩ := hexec
    intro id t hread
    rcases hread.of_snoc with hread | ⟨message, senderPk, recipientId, -, heq⟩
    · by_cases hid : id = record.messageId
      · subst hid
        rw [Records.plaintexts, Function.update_self, Option.map_some, hsame t hread]
      · have hkept := hother id t hread hid
        rw [Records.plaintexts, Function.update_of_ne hid]
        exact hkept
    · cases heq
  · obtain ⟨⟨e, he⟩, -⟩ := hexec
    cases he

/-- A save that throws leaves everything. -/
theorem ReadInv.unsaved [Alphabet α] (h : ReadInv log m) {record : PlaintextRecord α} {e : Exn}
    (hexec : cacheExec (.savePlaintext record) m (.error e) m') :
    m' = m ∧ ReadInv (log ++ [⟨.savePlaintext record, .error e⟩]) m := by
  rw [cacheExec] at hexec
  split_ifs at hexec
  · cases hexec.1
  · refine ⟨hexec.2, fun id t hread => ?_⟩
    rcases hread.of_snoc with hread | ⟨message, senderPk, recipientId, -, heq⟩
    · exact h id t hread
    · cases heq

/-- The invariant, on a state of the map with its log, … -/
abbrev ReadAt (d : Records α × WindowLog α) : Prop := ReadInv d.2 d.1

/-- … and where the process may stop. -/
abbrev ReadStop (d : Records α × WindowLog α) : Prop := ∀ c, SafeStop d.2 c → ReadInv d.2 d.1

theorem ReadInv.stop (h : ReadInv log m) : ReadStop (m, log) := fun _ _ => h

variable [Alphabet α] [FloatFormat] {Q : Except Exn β → Records α × WindowLog α → Prop}

/-- A calm call and what follows it. -/
theorem ensures_calm {f : c.Ret → WindowM α β} (h : ReadInv log m) (hc : c.Calm)
    (hok : ∀ a, cacheExec c m (.ok a) m → ReadInv (log ++ [⟨c, .ok a⟩]) m → CallSafe log c (.ok a) →
      (f a).Ensures (restricted cacheExec CallSafe) ReadStop (m, log ++ [⟨c, .ok a⟩]) Q)
    (herr : ∀ e log', ReadInv log' m → Q (.error e) (m, log')) :
    (call c >>= f).Ensures (restricted cacheExec CallSafe) ReadStop (m, log) Q := by
  refine ensures_windowCall_bind h.stop (fun a m' hexec hP => ?_) fun e m' hexec => ?_
  · obtain rfl := calm_exec hc hexec
    exact hok a hexec (h.calm hc) hP
  · obtain rfl := calm_exec hc hexec
    exact ⟨(h.calm hc).stop, herr e _ (h.calm hc)⟩

/-- **`decryptPlaintext` keeps the invariant**: it decrypts no message that the cache has, and
saves what it decrypts. -/
theorem ensures_decryptPlaintext_read {msg : Message α} {recipientId : UInt64} (h : ReadInv log m) :
    (decryptPlaintext msg recipientId).Ensures (restricted cacheExec CallSafe) ReadStop (m, log)
      fun _ d => ReadAt d := by
  rw [decryptPlaintext]
  refine ensures_calm h trivial (fun cached hexec h₁ _ => ?_) fun e log' h' => h'
  cases hcached : m.plaintexts msg.id with
  | some text =>
      obtain ⟨heq, -⟩ := hexec
      obtain rfl : cached = some text := (Except.ok.inj heq).trans hcached
      exact ⟨h₁.stop, h₁⟩
  | none =>
      obtain ⟨heq, -⟩ := hexec
      obtain rfl : cached = none := (Except.ok.inj heq).trans hcached
      rw [ensures_tryCatch]
      refine ensures_mono (Q := fun _ d => ReadAt d) ?_ ?_
      · refine ensures_calm h₁ trivial (fun window _ h₂ _ => ?_) fun e log' h' => h'
        -- the rest, once the sender's key is there
        have hrest : ∀ senderPk log₂, ReadInv log₂ m →
            (do call (.cachePublicKey msg.senderId senderPk)
                let plaintext ← call (.decryptMessage msg senderPk recipientId)
                call (.savePlaintext
                  ⟨msg.id, msg.conversationId, msg.senderId, msg.timestamp, plaintext⟩)
                return some plaintext : WindowM α (Option (List α))).Ensures
              (restricted cacheExec CallSafe) ReadStop (m, log₂) fun _ d => ReadAt d := by
          intro senderPk log₂ h₂
          refine ensures_calm h₂ trivial (fun _ _ h₃ _ => ?_) fun e log' h' => h'
          refine ensures_windowCall_bind h₃.stop (fun plaintext m₄ hexec hsafe => ?_)
            fun e m₄ hexec => ?_
          · obtain rfl : m₄ = m := hexec
            have hvalid : validUtf8 plaintext = true := hsafe
            -- between the two calls the process does not stop
            have hstop : ReadStop (m₄, log₂ ++ [⟨.cachePublicKey msg.senderId senderPk, .ok ()⟩] ++
                [⟨.decryptMessage msg senderPk recipientId, .ok plaintext⟩]) := by
              intro c hc
              refine absurd ?_ (hc.1 msg senderPk recipientId plaintext)
              exact List.getLast?_concat
            have hfresh : ∀ t, DecryptedAs (log₂ ++
                [⟨.cachePublicKey msg.senderId senderPk, .ok ()⟩] ++
                [⟨.decryptMessage msg senderPk recipientId, .ok plaintext⟩]) msg.id t →
                  t = plaintext := by
              intro t hread
              rcases hread.of_snoc with hread | ⟨_, _, _, -, heq⟩
              · have hsome := h₃ _ _ hread
                rw [hcached] at hsome
                cases hsome
              · cases heq
                rfl
            have hothers : ∀ id t, DecryptedAs (log₂ ++
                [⟨.cachePublicKey msg.senderId senderPk, .ok ()⟩] ++
                [⟨.decryptMessage msg senderPk recipientId, .ok plaintext⟩]) id t → id ≠ msg.id →
                  m₄.plaintexts id = some t := by
              intro id t hread hid
              rcases hread.of_snoc with hread | ⟨_, _, _, hid', heq⟩
              · exact h₃ id t hread
              · cases heq
                exact absurd hid'.symm hid
            refine ensures_windowCall_bind hstop (fun _ m₅ hexec _ => ?_) fun e m₅ hexec => ?_
            · have h₅ := ReadInv.save hothers hfresh hexec
              exact ⟨h₅.stop, h₅⟩
            · rw [cacheExec, if_pos hvalid] at hexec
              cases hexec.1
          · obtain rfl : m₄ = m := hexec
            have h₄ : ReadInv (log₂ ++ [⟨.cachePublicKey msg.senderId senderPk, .ok ()⟩] ++
                [⟨.decryptMessage msg senderPk recipientId, .error e⟩]) m₄ := by
              intro id t hread
              rcases hread.of_snoc with hread | ⟨_, _, _, -, heq⟩
              · exact h₃ id t hread
              · cases heq
            exact ⟨h₄.stop, h₄⟩
        cases hkey : window.publicKeyCache msg.senderId with
        | some publicKey => exact hrest publicKey _ h₂
        | none =>
            exact ensures_calm (c := .getPublicKey msg.senderId) h₂ trivial
              (fun publicKey _ h₃ _ => hrest publicKey _ h₃) fun e log' h' => h'
      · rintro x ⟨m₂, log₂⟩ h₂
        cases x with
        | ok a => exact h₂
        | error e => exact ⟨h₂.stop, h₂⟩

theorem ensures_showText_read {view : UInt64} {msg : Message α} {senderLabel : List α}
    {text : Option (List α)} (h : ReadInv log m) :
    (showText view msg senderLabel text).Ensures (restricted cacheExec CallSafe) ReadStop (m, log)
      fun _ d => ReadAt d := by
  have hshow : ∀ text forwardable, (call (.appendMessageToView view msg senderLabel text
      forwardable)).Ensures (restricted cacheExec CallSafe) ReadStop (m, log) fun _ d => ReadAt d := by
    intro text forwardable
    refine ensures_windowCall h.stop fun r m' hexec _ => ?_
    obtain rfl : m' = m := hexec
    have h' : ReadInv (log ++ [⟨.appendMessageToView view msg senderLabel text forwardable, r⟩]) m' :=
      h.calm trivial
    exact ⟨h'.stop, h'⟩
  cases text with
  | none => exact hshow _ _
  | some text => exact hshow _ _

variable {s : Session α} {view outgoingRecipient : UInt64}

/-- One turn of the loop keeps the invariant, … -/
theorem ensures_showMessage_read {msgJson : Json α} (h : ReadInv log m) :
    (showMessage s view outgoingRecipient msgJson).Ensures (restricted cacheExec CallSafe) ReadStop
      (m, log) fun _ d => ReadAt d := by
  -- a message is decrypted, if need be, and shown
  have hrest : ∀ (msg : Message α) senderLabel recipientId log₁, ReadInv log₁ m →
      (do let plaintext ← decryptPlaintext msg recipientId
          showText view msg senderLabel plaintext : WindowM α Unit).Ensures
        (restricted cacheExec CallSafe) ReadStop (m, log₁) fun _ d => ReadAt d := by
    intro msg senderLabel recipientId log₁ h₁
    rw [ensures_bind]
    refine ensures_mono (ensures_decryptPlaintext_read h₁) ?_
    rintro x ⟨m₂, log₂⟩ h₂
    cases x with
    | error e => exact h₂
    | ok plaintext => exact ensures_showText_read h₂
  rw [showMessage, ensures_bind, ensures_ofExcept]
  refine ⟨h.stop, ?_⟩
  cases messageOf msgJson with
  | error e => exact h
  | ok msg =>
      dsimp only
      split_ifs
      · refine ensures_calm h trivial (fun cached _ h₁ _ => ?_) fun e log' h' => h'
        cases cached with
        | some cached => exact ensures_showText_read h₁
        | none => exact hrest msg _ _ _ h₁
      · exact ensures_calm h trivial (fun window _ h₁ _ => hrest msg _ _ _ h₁) fun e log' h' => h'

/-- … and so does the whole loop, by induction on the messages that are left. -/
theorem ensures_showMessages_read {msgs : List (Json α)} (h : ReadInv log m) :
    (showMessages s view outgoingRecipient msgs).Ensures (restricted cacheExec CallSafe) ReadStop
      (m, log) fun _ d => ReadAt d := by
  induction msgs generalizing log m with
  | nil => exact ⟨h.stop, h⟩
  | cons msgJson rest ih =>
      rw [showMessages, ensures_bind]
      refine ensures_mono (ensures_showMessage_read h) ?_
      rintro x ⟨m', log'⟩ h'
      cases x with
      | error e => exact h'
      | ok _ => exact ih h'

/-- What is thrown in a function of the window is shown to the user. -/
theorem ensures_caught {p : WindowM α Unit} (h : p.Ensures (restricted cacheExec CallSafe) ReadStop
    (m, log) fun _ d => ReadAt d) : (p.tryCatch fun _ => return ()).Ensures
      (restricted cacheExec CallSafe) ReadStop (m, log) fun _ d => ReadAt d := by
  rw [ensures_tryCatch]
  refine ensures_mono h ?_
  rintro x ⟨m', log'⟩ h'
  cases x with
  | ok _ => exact h'
  | error e => exact ⟨ReadInv.stop h', h'⟩

theorem ensures_loadMessages_read (h : ReadInv log m) :
    (loadMessages s view).Ensures (restricted cacheExec CallSafe) ReadStop (m, log)
      fun _ d => ReadAt d := by
  rw [loadMessages]
  refine ensures_calm h trivial (fun _ _ h₁ _ => ensures_caught ?_) fun e log' h' => h'
  refine ensures_calm h₁ trivial (fun msgs _ h₂ _ => ?_) fun e log' h' => h'
  rw [ensures_bind, ensures_ofExcept]
  refine ⟨h₂.stop, ?_⟩
  cases sortByTimestamp msgs with
  | error e => exact h₂
  | ok sorted =>
      exact ensures_calm h₂ trivial (fun window _ h₃ _ => ensures_showMessages_read h₃)
        fun e log' h' => h'

/-- What is posted is saved under an id that no message has which was decrypted. -/
theorem ensures_postAndSave_read {conversationId recipientId : UInt64} {payload text : List α}
    (h : ReadInv log m) :
    (postAndSave conversationId recipientId payload text).Ensures (restricted cacheExec CallSafe)
      ReadStop (m, log) fun _ d => ReadAt d := by
  rw [postAndSave]
  refine ensures_calm h trivial (fun sentJson _ h₁ hreply => ?_) fun e log' h' => h'
  rw [ensures_bind, ensures_ofExcept]
  refine ⟨h₁.stop, ?_⟩
  cases hsent : messageOf sentJson with
  | error e => exact h₁
  | ok sentMsg =>
      have hunread : ∀ t, ¬ DecryptedAs (log ++
          [⟨.sendMessage conversationId recipientId payload, .ok sentJson⟩]) sentMsg.id t := by
        intro t hread
        rcases hread.of_snoc with hread | ⟨_, _, _, -, heq⟩
        · exact hreply sentMsg hsent t hread
        · cases heq
      refine ensures_windowCall_bind h₁.stop (fun _ m₂ hexec _ => ?_) fun e m₂ hexec => ?_
      · have h₂ := ReadInv.save (fun id t hread _ => h₁ id t hread)
          (fun t hread => absurd hread (hunread t)) hexec
        exact ⟨h₂.stop, h₂⟩
      · obtain ⟨rfl, h₂⟩ := h₁.unsaved hexec
        exact ⟨h₂.stop, h₂⟩

theorem ensures_onSend_read {text : List α} (h : ReadInv log m) :
    (onSend s text).Ensures (restricted cacheExec CallSafe) ReadStop (m, log)
      fun _ d => ReadAt d := by
  rw [onSend]
  refine ensures_calm h trivial (fun window _ h₁ _ => ?_) fun e log' h' => h'
  split
  · rename_i convId recipientId _ _
    split_ifs
    · exact ⟨h₁.stop, h₁⟩
    · refine ensures_caught ?_
      refine ensures_calm h₁ trivial (fun recipientPk _ h₂ _ => ?_) fun e log' h' => h'
      refine ensures_calm h₂ trivial (fun payload _ h₃ _ => ?_) fun e log' h' => h'
      rw [ensures_bind]
      refine ensures_mono (ensures_postAndSave_read h₃) ?_
      rintro x ⟨m', log'⟩ h'
      cases x with
      | error e => exact h'
      | ok sentMsg =>
          have hshow : (showText convId sentMsg s.username (some text)).Ensures _ _ _ _ :=
            ensures_showText_read h'
          exact hshow
  · exact ⟨h₁.stop, h₁⟩

theorem ensures_onForward_read {messageId : UInt64} {target : ForwardTarget α} (h : ReadInv log m) :
    (onForward messageId target).Ensures (restricted cacheExec CallSafe) ReadStop (m, log)
      fun _ d => ReadAt d := by
  rw [onForward]
  refine ensures_calm h trivial (fun window _ h₁ _ => ?_) fun e log' h' => h'
  split
  · exact ⟨h₁.stop, h₁⟩
  · split_ifs
    · refine ensures_caught ?_
      refine ensures_calm h₁ trivial (fun payload _ h₂ _ => ?_) fun e log' h' => h'
      rw [ensures_bind]
      refine ensures_mono (ensures_postAndSave_read h₂) ?_
      rintro x ⟨m', log'⟩ h'
      cases x with
      | error e => exact h'
      | ok _ => exact ⟨ReadInv.stop h', h'⟩
    · exact ⟨h₁.stop, h₁⟩

/-- **What the user does keeps the invariant.** -/
theorem ensures_action_read (action : WindowAction α) (h : ReadInv log m) :
    (action.prog s).Ensures (restricted cacheExec CallSafe) ReadStop (m, log)
      fun _ d => ReadAt d := by
  cases action with
  | load conversationId => exact ensures_loadMessages_read h
  | send text => exact ensures_onSend_read h
  | forward messageId target => exact ensures_onForward_read h

omit [FloatFormat] in
/-- A call on the map, and what follows it. -/
theorem ensures_cacheCall {f : c.Ret → WindowM α β} {Q : Except Exn β → Records α → Prop}
    (hok : ∀ a m', cacheExec c m (.ok a) m' → (f a).Ensures cacheExec (fun _ => True) m' Q)
    (herr : ∀ e m', cacheExec c m (.error e) m' → Q (.error e) m') :
    (call c >>= f).Ensures cacheExec (fun _ => True) m Q := by
  rw [ensures_bind, call, ensures_bind, ensures_op]
  refine ⟨trivial, fun r m' hexec => ⟨trivial, ensures_ofExcept.mpr ⟨trivial, ?_⟩⟩⟩
  cases r with
  | ok a => exact hok a m' hexec
  | error e => exact herr e m' hexec

omit [FloatFormat] in
/-- A text the cache has is returned. -/
theorem ensures_decryptPlaintext_cached {msg : Message α} {recipientId : UInt64} {t : List α}
    (h : m.plaintexts msg.id = some t) :
    (decryptPlaintext msg recipientId).Ensures cacheExec (fun _ => True) m
      fun x _ => x = .ok (some t) := by
  rw [decryptPlaintext]
  refine ensures_cacheCall ?_ ?_
  · rintro _ _ ⟨hcached, rfl⟩
    obtain rfl := (Except.ok.inj hcached).trans h
    exact ⟨trivial, rfl⟩
  · rintro e _ ⟨he, -⟩
    cases he

omit [FloatFormat] in
/-- A text that is returned was in the cache, or is valid UTF-8. -/
theorem ensures_decryptPlaintext_valid {msg : Message α} {recipientId : UInt64} {t : List α}
    (hcached : m.plaintexts msg.id ≠ some t) (hvalid : validUtf8 t = false) :
    (decryptPlaintext msg recipientId).Ensures cacheExec (fun _ => True) m
      fun x _ => x ≠ .ok (some t) := by
  rw [decryptPlaintext]
  refine ensures_cacheCall ?_ ?_
  · rintro cached _ ⟨heq, rfl⟩
    cases cached with
    | some text =>
        refine ⟨trivial, ?_⟩
        rintro ⟨⟩
        exact hcached (Except.ok.inj heq).symm
    | none =>
        rw [ensures_tryCatch]
        refine ensures_mono (Q := fun x _ => x ≠ .ok (some t)) ?_ ?_
        · refine ensures_cacheCall (fun window m₁ _ => ?_) (by rintro _ _ _ ⟨⟩)
          have hrest : ∀ senderPk m₂, (do
              call (.cachePublicKey msg.senderId senderPk)
              let plaintext ← call (.decryptMessage msg senderPk recipientId)
              call (.savePlaintext
                ⟨msg.id, msg.conversationId, msg.senderId, msg.timestamp, plaintext⟩)
              return some plaintext : WindowM α (Option (List α))).Ensures cacheExec
                (fun _ => True) m₂ fun x _ => x ≠ .ok (some t) := by
            intro senderPk m₂
            refine ensures_cacheCall (fun _ m₃ _ => ?_) (by rintro _ _ _ ⟨⟩)
            refine ensures_cacheCall (fun plaintext m₄ _ => ?_) (by rintro _ _ _ ⟨⟩)
            refine ensures_cacheCall (fun _ m₅ hexec => ⟨trivial, ?_⟩) (by rintro _ _ _ ⟨⟩)
            rintro ⟨⟩
            rw [cacheExec, if_neg (by simp [hvalid])] at hexec
            obtain ⟨⟨e, he⟩, -⟩ := hexec
            cases he
          cases window.publicKeyCache msg.senderId with
          | some publicKey => exact hrest publicKey m₁
          | none =>
              exact ensures_cacheCall (c := .getPublicKey msg.senderId)
                (fun publicKey m₂ _ => hrest publicKey m₂) (by rintro _ _ _ ⟨⟩)
        · rintro x m' hx
          cases x with
          | ok _ => exact hx
          | error e =>
              refine ⟨trivial, ?_⟩
              rintro ⟨⟩
  · rintro e _ ⟨he, -⟩
    cases he

end Steps

/-! ## Runs -/

section Runs

variable [Alphabet α] [Crypto α] [FloatFormat] [DecidableEq α] [LawfulBase64 α] [IdealAead α]
  [IdealKdf α] {σ : Type} {net : HttpRequest α → σ → Option (HttpResponse α) → σ → Prop}
  {home : Bytes} {username password : List α} {me : UInt64} {log : WindowLog α}
  {desk : Option (Session α × Window α)} {w : World α σ}

/-- **What was read once can be read again**, in every run in which the process does not stop
while a text is on its way into the cache, every text is valid UTF-8, and no reply names a
message that was decrypted. -/
theorem readable_again (hsafe : AllMeet CallSafe log)
    (h : WindowRun (fun _ => False) net SafeStop home username password me log desk w) :
    ReadableAgain net home username log desk w := by
  have hact : ∀ (s : Session α) (action : WindowAction α) log m, s.userId = me → ReadInv log m →
      (action.prog s).Ensures (restricted cacheExec CallSafe)
        (fun d => ∀ c, SafeStop d.2 c → ReadInv d.2 d.1) (m, log) fun _ d => ReadInv d.2 d.1 :=
    fun s action log m _ hinv => ensures_action_read action hinv
  obtain ⟨m, hholds, hinv⟩ := h.inv (fun _ h => h.elim) (fun _ r hstop => hstop.2.2 r rfl)
    (by rintro id t ⟨_, _, _, -, hmem⟩; cases hmem) hact hsafe
  rintro s window id t hdesk ⟨message, senderPk, recipientId, preKeyId, hid, hmem, -, -⟩ msg
    recipientId' x d hmsg hrun
  obtain ⟨-, hshows⟩ := hholds.desk s window hdesk
  obtain ⟨m', hrun', -⟩ := hrun.simulate
    (simulates_cacheExec (fun _ h => h.elim) (storeFile_ne_nil home username) s) hshows
  have hcached : m.plaintexts msg.id = some t :=
    hinv _ t ⟨message, senderPk, recipientId, hid.trans hmsg.symm, hmem⟩
  exact (ensures_decryptPlaintext_cached hcached).of_runs hrun'

end Runs

/-- A text that can be saved is shown, and can be read again. -/
theorem readable_again_example : letI := plainFloats; letI := plainCrypto;
    ∃ (net : HttpRequest UInt8 → Unit → Option (HttpResponse UInt8) → Unit → Prop)
      (log : WindowLog UInt8) (desk : Option (Session UInt8 × Window UInt8)) (w : World UInt8 Unit),
      desk ≠ none ∧ ReadOnce (bytes "/home/a") (bytes "a") log w.files 7 (bytes "hello") ∧
        ReadableAgain net (bytes "/home/a") (bytes "a") log desk w := by
  let := plainFloats
  let := plainCrypto
  have := lawfulBase64_plain
  have := lawfulDh_plain
  have := lawfulSigning_plain
  have := idealAead_plain
  have := idealKdf_plain
  have hhome : bytes "/home/a" ≠ [] := by decide
  have hvalid : validUtf8 (bytes "a" : List UInt8) = true := by decide
  have hother : (2 : UInt64) ≠ 1 := by decide
  obtain ⟨respond, s, window, w, msg, msgJson, preKeyId, log, hrun, -, hid, -, -, -, hpayload,
    hshown⟩ := exists_shown hhome hvalid (by decide) (bytes "p") hother 7 1 1
      (bytes "hello" : List UInt8) SafeStop
  obtain ⟨senderPk, hdecrypted⟩ := hshown.read.decrypted
  obtain ⟨more, hlog, hquiet⟩ := hshown.log_eq
  have hsafe : AllMeet CallSafe log := by
    have hdone : log = _ := hlog
    rw [hdone]
    refine AllMeet.append (AllMeet.snoc (AllMeet.snoc ?_ trivial) trivial) fun e he before => ?_
    · intro before c r after h
      cases before <;> cases h
    · have honly := hshown.read.only e (by rw [hlog]; exact List.mem_append_right _ he)
      exact callSafe_of_decrypts (hquiet e he) honly (by decide)
  exact ⟨answering respond, log, some (s, window), w, Option.some_ne_none _,
    ⟨msg, senderPk, s.userId, preKeyId, hid, hdecrypted, hpayload, hshown.read.recorded⟩,
    readable_again hsafe hrun⟩

/-- The text is a byte that is not valid UTF-8. -/
theorem not_readable_again : letI := plainFloats; letI := plainCrypto;
    ¬ ∀ (net : HttpRequest UInt8 → Unit → Option (HttpResponse UInt8) → Unit → Prop)
      (log : WindowLog UInt8) (desk : Option (Session UInt8 × Window UInt8)) (w : World UInt8 Unit),
      WindowRun (fun _ => False) net (fun _ _ => False) (bytes "/home/a") (bytes "a") (bytes "p") 1
        log desk w → ReadableAgain net (bytes "/home/a") (bytes "a") log desk w := by
  let := plainFloats
  let := plainCrypto
  have := lawfulBase64_plain
  have := lawfulDh_plain
  have := lawfulSigning_plain
  have := idealAead_plain
  have := idealKdf_plain
  intro hall
  have hhome : bytes "/home/a" ≠ [] := by decide
  have hvalid : validUtf8 (bytes "a" : List UInt8) = true := by decide
  have hother : (2 : UInt64) ≠ 1 := by decide
  obtain ⟨respond, s, window, w, msg, msgJson, preKeyId, log, hrun, -, hid, -, -, -, hpayload,
    hshown⟩ := exists_shown hhome hvalid (by decide) (bytes "p") hother 7 1 1 ([0xFF] : List UInt8)
      fun _ _ => False
  have hholds := hrun.holds_records (fun _ h => h.elim) fun _ _ h => h
  obtain ⟨-, hshows⟩ := hholds.desk s window rfl
  obtain ⟨senderPk, hdecrypted⟩ := hshown.read.decrypted
  have hread : ReadOnce (bytes "/home/a") (bytes "a" : List UInt8) log w.files msg.id [0xFF] :=
    ⟨msg, senderPk, s.userId, preKeyId, rfl, hdecrypted, hpayload, hshown.read.recorded⟩
  -- the message is decrypted once more
  obtain ⟨x, d, hagain⟩ := exists_runs (Call.exec_total (answering_total respond) s)
    (decryptPlaintext msg 1) (w, window)
  have hend := hall _ log _ w hrun s window msg.id [0xFF] rfl hread msg 1 x d rfl hagain
  -- but the cache cannot have its text
  obtain ⟨m', hrun', -⟩ := hagain.simulate
    (simulates_cacheExec (fun _ h => h.elim) (storeFile_ne_nil _ _) s) hshows
  have hcached : (records log).plaintexts msg.id ≠ some [0xFF] := fun h =>
    absurd (hshows.file.validUtf8 h) (by decide)
  exact (ensures_decryptPlaintext_valid hcached (by decide)).of_runs hrun' hend

end Kd
