import Kingdom.Client.Arrivals

/-!
# Where a displayed message comes from

The window shows a text under the name of its sender.  It decrypts the message for that, in
the context the server says, or takes the text from its cache, where texts are looked up by
the message id alone.

* `Decrypted` — a call of `decryptMessage` has returned a text in a context.
* `OriginAuthentic` — what is shown of another user was decrypted in the context of the
  conversation on display, of that user and of the session user.
* `Consistent`, `ServerConsistent` — the answers that do not confuse the cache.
* `displayed_origin` — with such answers, what is shown is authentic in every run.
-/

namespace Kd

open Codec Process Storage Prog

variable {α β : Type}

/-! ## The property -/

/-- A call of `decryptMessage` has returned the text in this context. -/
def Decrypted (log : WindowLog α) (conversationId senderId recipientId : UInt64)
    (text : List α) : Prop :=
  ∃ message senderPk, message.conversationId = conversationId ∧ message.senderId = senderId ∧
    (⟨.decryptMessage message senderPk recipientId, .ok text⟩ : Σ c : Call α, c.Res) ∈ log

/-- The call shows nothing of another user but what was decrypted in the context of the
conversation on display, of that user and of `me`. -/
def ShowsAuthentic (me : UInt64) (before : WindowLog α) (c : Call α) : Prop :=
  ∀ view message sender text, c = .appendMessageToView view message sender text true →
    message.senderId ≠ me → Decrypted before view message.senderId me text

/-- **What a run shows is authentic.** -/
def OriginAuthentic (me : UInt64) (log : WindowLog α) : Prop :=
  AllMeet (fun before c _ => ShowsAuthentic me before c) log

/-! ## The answers -/

section Answers

variable [FloatFormat]

/-- The messages among some JSON values. -/
def messagesIn (msgs : List (Json α)) : List (Message α) :=
  msgs.filterMap fun msgJson => (messageOf msgJson).toOption

/-- A message of another user: the record the cache has of its id names the conversation on
display and the sender; without a record, the message names that conversation. -/
def Fits (me view : UInt64) (m : Records α) (msg : Message α) : Prop :=
  msg.senderId ≠ me →
    match m msg.id with
    | some r => r.conversationId = view ∧ r.senderId = msg.senderId
    | none => msg.conversationId = view

/-- The messages of one answer fit the cache, and those with one id have one sender. -/
structure Consistent (me view : UInt64) (m : Records α) (msgs : List (Message α)) : Prop where
  fits : ∀ msg ∈ msgs, Fits me view m msg
  senders : ∀ msg ∈ msgs, ∀ msg' ∈ msgs, msg.id = msg'.id → msg.senderId = msg'.senderId

/-- The answer to a request for messages is consistent, and the reply to a message that is sent
names the session user as its sender. -/
def ServerConsistent (me : UInt64) (before : WindowLog α) : (c : Call α) → c.Res → Prop
  | .getMessages view, .ok msgs => Consistent me view (records before) (messagesIn msgs.elements)
  | .sendMessage .., .ok sent => ∀ msg, messageOf sent = .ok msg → msg.senderId = me
  | _, _ => True

theorem serverConsistent_quiet {me : UInt64} {before : WindowLog α} {c : Call α} {r : c.Res}
    (h : ¬ c.Asks) : ServerConsistent me before c r := by
  cases c with
  | getMessages | sendMessage => exact absurd trivial h
  | _ => trivial

omit [FloatFormat] in
theorem mem_of_mapM {f : Json α → Except Exn (UInt64 × Json α)}
    (hf : ∀ x y, f x = .ok y → y.2 = x) : ∀ {xs : List (Json α)} {ys : List (UInt64 × Json α)},
      xs.mapM f = .ok ys → ∀ y ∈ ys, y.2 ∈ xs := by
  intro xs
  induction xs with
  | nil =>
      intro ys h
      cases h
      simp
  | cons x xs ih =>
      intro ys h y hy
      rw [List.mapM_cons] at h
      simp only [bind_ok, pure_ok] at h
      obtain ⟨z, hz, zs, hzs, rfl⟩ := h
      rcases List.mem_cons.mp hy with rfl | hy
      · rw [hf x y hz]
        exact List.mem_cons_self
      · exact List.mem_cons_of_mem _ (ih hzs y hy)

/-- Sorting the messages adds none. -/
theorem mem_of_sortByTimestamp {msgs : Json α} {sorted : List (Json α)}
    (h : sortByTimestamp msgs = .ok sorted) : ∀ x ∈ sorted, x ∈ msgs.elements := by
  unfold sortByTimestamp at h
  split at h
  · cases h
    exact fun x hx => hx
  · rename_i msgs _
    simp only [bind_ok, pure_ok] at h
    obtain ⟨keyed, hkeyed, rfl⟩ := h
    intro x hx
    obtain ⟨y, hy, rfl⟩ := List.mem_map.mp hx
    refine mem_of_mapM ?_ hkeyed y (List.mem_mergeSort.mp hy)
    intro x y hxy
    simp only [bind_ok, pure_ok] at hxy
    obtain ⟨_, -, _, -, rfl⟩ := hxy
    rfl
  · cases h
  · cases h
    exact fun x hx => hx

theorem Consistent.mono {me view : UInt64} {m : Records α} {msgs msgs' : List (Json α)}
    (h : Consistent me view m (messagesIn msgs)) (hsub : ∀ x ∈ msgs', x ∈ msgs) :
    Consistent me view m (messagesIn msgs') := by
  have hmem : ∀ msg ∈ messagesIn msgs', msg ∈ messagesIn msgs := by
    intro msg hmsg
    obtain ⟨x, hx, hparse⟩ := List.mem_filterMap.mp hmsg
    exact List.mem_filterMap.mpr ⟨x, hsub x hx, hparse⟩
  exact ⟨fun msg hmsg => h.fits msg (hmem msg hmsg),
    fun msg hmsg msg' hmsg' => h.senders msg (hmem msg hmsg) msg' (hmem msg' hmsg')⟩

omit [FloatFormat] in
/-- **The answer stays consistent** while its messages are decrypted and saved. -/
theorem Consistent.next {me view : UInt64} {m m' : Records α} {msg : Message α}
    {rest : List (Message α)} {x : Except Exn (Option (List α))}
    (h : Consistent me view m (msg :: rest)) (hx : Plaintext m msg x m') :
    Consistent me view m' rest := by
  have hkeep : Consistent me view m rest :=
    ⟨fun msg' hmsg' => h.fits msg' (List.mem_cons_of_mem _ hmsg'),
      fun a ha b hb => h.senders a (List.mem_cons_of_mem _ ha) b (List.mem_cons_of_mem _ hb)⟩
  cases hx with
  | cached _ => exact hkeep
  | failed _ => exact hkeep
  | @fresh text hnone =>
      refine ⟨fun msg' hmsg' hother => ?_, hkeep.senders⟩
      by_cases hid : msg'.id = msg.id
      · have hsender := h.senders msg' (List.mem_cons_of_mem _ hmsg') msg List.mem_cons_self hid
        have hfits := h.fits msg List.mem_cons_self (hsender ▸ hother)
        rw [hnone] at hfits
        rw [hid, Function.update_self]
        exact ⟨hfits, hsender.symm⟩
      · have hfits := hkeep.fits msg' hmsg' hother
        rw [Function.update_of_ne hid]
        exact hfits

end Answers

/-! ## The invariant -/

/-- A call that neither saves nor shows a message. -/
def Call.Quiet : Call α → Prop
  | .savePlaintext _ => False
  | .appendMessageToView .. => False
  | _ => True

/-- What holds of the log and the records: what was saved or shown of another user was decrypted
in the context it is saved or shown under. -/
structure OriginInv (me : UInt64) (log : WindowLog α) (m : Records α) : Prop where
  records : m = Kd.records log
  saved : ∀ id r, m id = some r → r.senderId ≠ me →
    Decrypted log r.conversationId r.senderId me r.plaintext
  shown : OriginAuthentic me log

section Steps

variable {me : UInt64} {log : WindowLog α} {m m' : Records α} {c : Call α} {r : c.Res}

theorem Decrypted.snoc {conversationId senderId recipientId : UInt64} {text : List α}
    (h : Decrypted log conversationId senderId recipientId text) (c : Call α) (r : c.Res) :
    Decrypted (log ++ [⟨c, r⟩]) conversationId senderId recipientId text := by
  obtain ⟨message, senderPk, hconversation, hsender, hmem⟩ := h
  exact ⟨message, senderPk, hconversation, hsender, List.mem_append_left _ hmem⟩

theorem savedBy_some {record : PlaintextRecord α} (h : savedBy c r = some record) :
    c = .savePlaintext record := by
  unfold savedBy at h
  split at h
  · cases h
    rfl
  · cases h

/-- **One call keeps the invariant**: what it saves and what it shows was decrypted. -/
theorem OriginInv.step [Alphabet α] (h : OriginInv me log m) (hexec : cacheExec c m r m')
    (hsave : ∀ record, c = .savePlaintext record → record.senderId ≠ me →
      Decrypted log record.conversationId record.senderId me record.plaintext)
    (hshow : ShowsAuthentic me log c) : OriginInv me (log ++ [⟨c, r⟩]) m' := by
  have hrecords := records_step hexec h.records
  refine ⟨hrecords, fun id record hrecord hother => ?_, h.shown.snoc hshow⟩
  have hold : m id = some record →
      Decrypted (log ++ [⟨c, r⟩]) record.conversationId record.senderId me record.plaintext :=
    fun hm => (h.saved id record hm hother).snoc c r
  rw [hrecords, records_snoc, ← h.records] at hrecord
  cases hsaved : savedBy c r with
  | none =>
      rw [hsaved] at hrecord
      exact hold hrecord
  | some record' =>
      rw [hsaved] at hrecord
      by_cases hid : id = record'.messageId
      · subst hid
        simp only [Function.update_self, Option.some.injEq] at hrecord
        subst hrecord
        exact (hsave record' (savedBy_some hsaved) hother).snoc c r
      · simp only [Function.update_of_ne hid] at hrecord
        exact hold hrecord

theorem quiet_exec [Alphabet α] (hc : c.Quiet) (hexec : cacheExec c m r m') : m' = m := by
  cases c with
  | savePlaintext _ => exact hc.elim
  | appendMessageToView => exact hc.elim
  | getPlaintext id => exact hexec.2
  | _ => exact hexec

theorem OriginInv.quiet [Alphabet α] (h : OriginInv me log m) (hc : c.Quiet)
    (hexec : cacheExec c m r m') : OriginInv me (log ++ [⟨c, r⟩]) m' := by
  refine h.step hexec ?_ ?_
  · rintro record rfl
    exact hc.elim
  · rintro view message sender text rfl
    exact hc.elim

variable {P : WindowLog α → (c : Call α) → c.Res → Prop}
  {Q : Except Exn β → Records α × WindowLog α → Prop} [Alphabet α]

/-- The invariant, on a state of the map with its log. -/
abbrev OriginAt (me : UInt64) (d : Records α × WindowLog α) : Prop := OriginInv me d.2 d.1

/-- A quiet call and what follows it. -/
theorem ensures_quiet {f : c.Ret → WindowM α β} (h : OriginInv me log m) (hc : c.Quiet)
    (hok : ∀ a, OriginInv me (log ++ [⟨c, .ok a⟩]) m → P log c (.ok a) →
      (f a).Ensures (restricted cacheExec P) (OriginAt me) (m, log ++ [⟨c, .ok a⟩]) Q)
    (herr : ∀ e log', OriginInv me log' m → Q (.error e) (m, log')) :
    (call c >>= f).Ensures (restricted cacheExec P) (OriginAt me) (m, log) Q := by
  refine ensures_windowCall_bind h (fun a m' hexec hP => ?_) fun e m' hexec => ?_
  · obtain rfl := quiet_exec hc hexec
    exact hok a (h.quiet hc hexec) hP
  · obtain rfl := quiet_exec hc hexec
    exact ⟨h.quiet hc hexec, herr e _ (h.quiet hc hexec)⟩

/-- What decrypting and saving leaves, when it throws and when it does not. -/
def Saving (me : UInt64) (m : Records α) (msg : Message α) (x : Except Exn (Option (List α)))
    (d : Records α × WindowLog α) : Prop :=
  OriginAt me d ∧ (∀ a, x = .ok a → Plaintext m msg (.ok a) d.1) ∧ ∀ e, x = .error e → d.1 = m

/-- **`decryptPlaintext` keeps the invariant.**  A message of another user is decrypted for
`me`. -/
theorem ensures_decryptPlaintext_origin {msg : Message α} {recipientId : UInt64}
    (h : OriginInv me log m) (hto : msg.senderId ≠ me → recipientId = me) :
    (decryptPlaintext msg recipientId).Ensures (restricted cacheExec P) (OriginAt me) (m, log)
      fun x d => OriginAt me d ∧ Plaintext m msg x d.1 := by
  have hthrow : ∀ e log', OriginInv me log' m → Saving me m msg (.error e) (m, log') := by
    refine fun e log' h' => ⟨h', ?_, fun _ _ => rfl⟩
    rintro _ ⟨⟩
  rw [decryptPlaintext]
  refine ensures_windowCall_bind h (fun cached m' hexec _ => ?_) fun e m' hexec => ?_
  · have h₁ := h.quiet (c := .getPlaintext msg.id) trivial hexec
    obtain ⟨hcached, rfl⟩ := hexec
    cases Except.ok.inj hcached
    cases hrecord : m' msg.id with
    | some record =>
        have hplaintext : m'.plaintexts msg.id = some record.plaintext := by
          rw [Records.plaintexts, hrecord, Option.map_some]
        rw [hplaintext] at h₁ ⊢
        exact ⟨h₁, h₁, .cached hrecord⟩
    | none =>
        have hplaintext : m'.plaintexts msg.id = none := by
          rw [Records.plaintexts, hrecord, Option.map_none]
        rw [hplaintext] at h₁ ⊢
        dsimp only
        rw [ensures_tryCatch]
        refine ensures_mono (Q := Saving me m' msg) ?_ ?_
        · refine ensures_quiet h₁ trivial (fun window h₂ _ => ?_) hthrow
          -- the rest, once the sender's key is there
          have hrest : ∀ senderPk log₂, OriginInv me log₂ m' →
              (do call (.cachePublicKey msg.senderId senderPk)
                  let plaintext ← call (.decryptMessage msg senderPk recipientId)
                  call (.savePlaintext
                    ⟨msg.id, msg.conversationId, msg.senderId, msg.timestamp, plaintext⟩)
                  return some plaintext : WindowM α (Option (List α))).Ensures
                (restricted cacheExec P) (OriginAt me) (m', log₂) (Saving me m' msg) := by
            intro senderPk log₂ h₂
            refine ensures_quiet h₂ trivial (fun _ h₃ _ => ?_) hthrow
            refine ensures_quiet h₃ trivial (fun plaintext h₄ _ => ?_) hthrow
            have hsave : ∀ record, (.savePlaintext ⟨msg.id, msg.conversationId, msg.senderId,
                msg.timestamp, plaintext⟩ : Call α) = .savePlaintext record → record.senderId ≠ me →
                  Decrypted (log₂ ++ [⟨.cachePublicKey msg.senderId senderPk, .ok ()⟩] ++
                    [⟨.decryptMessage msg senderPk recipientId, .ok plaintext⟩])
                    record.conversationId record.senderId me record.plaintext := by
              rintro _ ⟨⟩ hother
              obtain rfl := hto hother
              exact ⟨msg, senderPk, rfl, rfl, List.mem_append_right _ (List.mem_singleton_self _)⟩
            refine ensures_windowCall_bind h₄ (fun _ m₅ hexec _ => ?_) fun e m₅ hexec => ?_
            all_goals
              have h₅ := h₄.step hexec hsave (by rintro _ _ _ _ ⟨⟩)
              simp only [cacheExec] at hexec
              split_ifs at hexec
            · obtain ⟨-, rfl⟩ := hexec
              refine ⟨h₅, h₅, ?_, by rintro _ ⟨⟩⟩
              rintro _ ⟨⟩
              exact .fresh hrecord
            · obtain ⟨⟨e, he⟩, -⟩ := hexec
              cases he
            · obtain ⟨he, -⟩ := hexec
              cases he
            · obtain ⟨-, rfl⟩ := hexec
              exact ⟨h₅, hthrow _ _ h₅⟩
          cases hkey : window.publicKeyCache msg.senderId with
          | some publicKey => exact hrest publicKey _ h₂
          | none =>
              exact ensures_quiet (c := .getPublicKey msg.senderId) h₂ trivial
                (fun publicKey h₃ _ => hrest publicKey _ h₃) hthrow
        · rintro x ⟨m₂, log₂⟩ ⟨h₂, hok, herr⟩
          cases x with
          | ok a => exact ⟨h₂, hok a rfl⟩
          | error e =>
              obtain rfl : m₂ = m' := herr e rfl
              exact ⟨h₂, h₂, .failed (by simp)⟩
  · obtain ⟨he, -⟩ := hexec
    cases he

/-- Showing a text. -/
theorem ensures_showText_origin {view : UInt64} {msg : Message α} {senderLabel : List α}
    {text : Option (List α)} (h : OriginInv me log m)
    (htext : ∀ t, text = some t → msg.senderId ≠ me → Decrypted log view msg.senderId me t) :
    (showText view msg senderLabel text).Ensures (restricted cacheExec P) (OriginAt me) (m, log)
      fun _ d => OriginAt me d ∧ d.1 = m := by
  cases text with
  | none =>
      refine ensures_windowCall h fun r m' hexec _ => ?_
      have h' := h.step (r := r) hexec (by rintro _ ⟨⟩) (by rintro _ _ _ _ ⟨⟩)
      exact ⟨h', h', hexec⟩
  | some t =>
      refine ensures_windowCall h fun r m' hexec _ => ?_
      have h' := h.step (r := r) hexec (by rintro _ ⟨⟩) (by
        rintro _ _ _ _ ⟨⟩ hother
        exact htext t rfl hother)
      exact ⟨h', h', hexec⟩

variable [FloatFormat] {s : Session α} {view outgoingRecipient : UInt64}

/-- **One turn of the loop**: what is shown of another user was decrypted in the context of the
view, and the messages that are left fit the cache. -/
theorem ensures_showMessage_origin (hme : s.userId = me) {msgJson : Json α} {rest : List (Json α)}
    (h : OriginInv me log m) (hconsistent : Consistent me view m (messagesIn (msgJson :: rest))) :
    (showMessage s view outgoingRecipient msgJson).Ensures (restricted cacheExec P) (OriginAt me)
      (m, log) fun x d => OriginAt me d ∧ (x = .ok () → Consistent me view d.1 (messagesIn rest)) := by
  rw [showMessage, ensures_bind, ensures_ofExcept]
  refine ⟨h, ?_⟩
  cases hmsg : messageOf msgJson with
  | error e => exact ⟨h, by rintro ⟨⟩⟩
  | ok msg =>
      have hcons : Consistent me view m (msg :: messagesIn rest) := by
        simpa [messagesIn, hmsg, Except.toOption] using hconsistent
      have hthrow : ∀ e log', OriginInv me log' m → OriginAt me (m, log') ∧
          ((.error e : Except Exn Unit) = .ok () → Consistent me view m (messagesIn rest)) :=
        fun e log' h' => ⟨h', by rintro ⟨⟩⟩
      dsimp only
      by_cases hmine : msg.senderId = s.userId
      · -- a message of the session user
        have hvacuous : ∀ {p : Prop}, msg.senderId ≠ me → p := fun hother =>
          absurd (hmine.trans hme) hother
        rw [if_pos hmine]
        refine ensures_quiet h trivial (fun cached h₁ _ => ?_) hthrow
        cases cached with
        | some cached =>
            refine ensures_mono (ensures_showText_origin h₁ fun _ _ => hvacuous) ?_
            rintro x ⟨m', log'⟩ ⟨h', rfl⟩
            exact ⟨h', fun _ => hcons.next (.failed (x := .ok none) (by simp))⟩
        | none =>
            dsimp only
            rw [ensures_bind]
            refine ensures_mono (ensures_decryptPlaintext_origin h₁ hvacuous) ?_
            rintro x ⟨m', log'⟩ ⟨h', hplaintext⟩
            cases x with
            | error e => exact ⟨h', by rintro ⟨⟩⟩
            | ok plaintext =>
                refine ensures_mono (ensures_showText_origin h' fun _ _ => hvacuous) ?_
                rintro x ⟨m'', log''⟩ ⟨h'', rfl⟩
                exact ⟨h'', fun _ => hcons.next hplaintext⟩
      · -- a message of another user
        have hother : msg.senderId ≠ me := hme ▸ hmine
        rw [if_neg hmine]
        refine ensures_quiet h trivial (fun window h₁ _ => ?_) hthrow
        rw [ensures_bind]
        refine ensures_mono (ensures_decryptPlaintext_origin h₁ fun _ => hme) ?_
        rintro x ⟨m', log'⟩ ⟨h', hplaintext⟩
        cases x with
        | error e => exact ⟨h', by rintro ⟨⟩⟩
        | ok plaintext =>
            refine ensures_mono (ensures_showText_origin h' ?_) ?_
            · rintro text rfl -
              have hfits := hcons.fits msg List.mem_cons_self hother
              cases hplaintext with
              | @cached record hrecord =>
                  rw [hrecord] at hfits
                  obtain ⟨hview, hsender⟩ := hfits
                  have hsaved := h'.saved msg.id record hrecord (hsender ▸ hother)
                  rwa [hview, hsender] at hsaved
              | fresh hnone =>
                  rw [hnone] at hfits
                  have hsaved := h'.saved msg.id _ (Function.update_self ..) hother
                  dsimp only at hsaved
                  rwa [hfits] at hsaved
              | failed hx => exact absurd rfl (hx text)
            · rintro x ⟨m'', log''⟩ ⟨h'', rfl⟩
              exact ⟨h'', fun _ => hcons.next hplaintext⟩

/-- The whole loop, by induction on the messages that are left. -/
theorem ensures_showMessages_origin (hme : s.userId = me) {msgs : List (Json α)}
    (h : OriginInv me log m) (hconsistent : Consistent me view m (messagesIn msgs)) :
    (showMessages s view outgoingRecipient msgs).Ensures (restricted cacheExec P) (OriginAt me)
      (m, log) fun _ d => OriginAt me d := by
  induction msgs generalizing log m with
  | nil => exact ⟨h, h⟩
  | cons msgJson rest ih =>
      rw [showMessages, ensures_bind]
      refine ensures_mono (ensures_showMessage_origin hme h hconsistent) ?_
      rintro x ⟨m', log'⟩ ⟨h', hrest⟩
      cases x with
      | error e => exact h'
      | ok _ => exact ih h' (hrest rfl)

/-- `loadMessages`: an answer that is consistent fits the cache, sorted or not. -/
theorem ensures_loadMessages_origin (hme : s.userId = me) (h : OriginInv me log m) :
    (loadMessages s view).Ensures (restricted cacheExec (ServerConsistent me)) (OriginAt me)
      (m, log) fun _ d => OriginAt me d := by
  rw [loadMessages]
  refine ensures_quiet h trivial (fun _ h₁ _ => ?_) fun e log' h' => h'
  rw [ensures_tryCatch]
  refine ensures_mono (Q := fun _ d => OriginAt me d) ?_ ?_
  · refine ensures_quiet h₁ trivial (fun msgs h₂ hanswer => ?_) fun e log' h' => h'
    have hconsistent : Consistent me view m (messagesIn msgs.elements) := by
      rw [h₁.records]
      exact hanswer
    rw [ensures_bind, ensures_ofExcept]
    refine ⟨h₂, ?_⟩
    cases hsorted : sortByTimestamp msgs with
    | error e => exact h₂
    | ok sorted =>
        refine ensures_quiet h₂ trivial (fun window h₃ _ => ?_) fun e log' h' => h'
        exact ensures_showMessages_origin hme h₃ (hconsistent.mono (mem_of_sortByTimestamp hsorted))
  · rintro x ⟨m', log'⟩ h'
    cases x with
    | ok _ => exact h'
    | error e => exact ⟨h', h'⟩

/-- What is posted is saved under the session user. -/
theorem ensures_postAndSave_origin {conversationId recipientId : UInt64} {payload text : List α}
    (h : OriginInv me log m) :
    (postAndSave conversationId recipientId payload text).Ensures
      (restricted cacheExec (ServerConsistent me)) (OriginAt me) (m, log)
      fun x d => OriginAt me d ∧ ∀ sentMsg, x = .ok sentMsg → sentMsg.senderId = me := by
  have hthrow : ∀ e (log' : WindowLog α) m', OriginInv me log' m' → OriginAt me (m', log') ∧
      ∀ sentMsg, (.error e : Except Exn (Message α)) = .ok sentMsg → sentMsg.senderId = me := by
    refine fun e log' m' h' => ⟨h', ?_⟩
    rintro _ ⟨⟩
  rw [postAndSave]
  refine ensures_quiet h trivial (fun sentJson h₁ hreply => ?_) fun e log' h' => hthrow e log' _ h'
  rw [ensures_bind, ensures_ofExcept]
  refine ⟨h₁, ?_⟩
  cases hsent : messageOf sentJson with
  | error e => exact hthrow e _ _ h₁
  | ok sentMsg =>
      have hsender : sentMsg.senderId = me := hreply sentMsg hsent
      refine ensures_windowCall_bind h₁ (fun _ m' hexec _ => ?_) fun e m' hexec => ?_
      all_goals
        have h₂ := h₁.step hexec (by
          rintro _ ⟨⟩ hother
          exact absurd hsender hother) (by rintro _ _ _ _ ⟨⟩)
      · refine ⟨h₂, h₂, ?_⟩
        rintro _ ⟨⟩
        exact hsender
      · exact ⟨h₂, hthrow e _ _ h₂⟩

/-- `onSend` shows what it has sent, under the session user. -/
theorem ensures_onSend_origin {text : List α} (h : OriginInv me log m) :
    (onSend s text).Ensures (restricted cacheExec (ServerConsistent me)) (OriginAt me) (m, log)
      fun _ d => OriginAt me d := by
  rw [onSend]
  refine ensures_quiet h trivial (fun window h₁ _ => ?_) fun e log' h' => h'
  split
  · rename_i convId recipientId _ _
    split_ifs
    · exact ⟨h₁, h₁⟩
    · rw [ensures_tryCatch]
      refine ensures_mono (Q := fun _ d => OriginAt me d) ?_ ?_
      · refine ensures_quiet h₁ trivial (fun recipientPk h₂ _ => ?_) fun e log' h' => h'
        refine ensures_quiet h₂ trivial (fun payload h₃ _ => ?_) fun e log' h' => h'
        rw [ensures_bind]
        refine ensures_mono (ensures_postAndSave_origin h₃) ?_
        rintro x ⟨m', log'⟩ ⟨h', hsender⟩
        cases x with
        | error e => exact h'
        | ok sentMsg =>
            refine ensures_windowCall h' fun r m'' hexec _ => ?_
            have h'' := h'.step (r := r) hexec (by rintro _ ⟨⟩) (by
              rintro _ _ _ _ ⟨⟩ hother
              exact absurd (hsender sentMsg rfl) hother)
            exact ⟨h'', h''⟩
      · rintro x ⟨m', log'⟩ h'
        cases x with
        | ok _ => exact h'
        | error e => exact ⟨h', h'⟩
  · exact ⟨h₁, h₁⟩

/-- `onForward` shows nothing. -/
theorem ensures_onForward_origin {messageId : UInt64} {target : ForwardTarget α}
    (h : OriginInv me log m) :
    (onForward messageId target).Ensures (restricted cacheExec (ServerConsistent me)) (OriginAt me)
      (m, log) fun _ d => OriginAt me d := by
  rw [onForward]
  refine ensures_quiet h trivial (fun window h₁ _ => ?_) fun e log' h' => h'
  split
  · exact ⟨h₁, h₁⟩
  · rename_i displayed _
    split_ifs
    · rw [ensures_tryCatch]
      refine ensures_mono (Q := fun _ d => OriginAt me d) ?_ ?_
      · refine ensures_quiet h₁ trivial (fun payload h₂ _ => ?_) fun e log' h' => h'
        rw [ensures_bind]
        refine ensures_mono (ensures_postAndSave_origin h₂) ?_
        rintro x ⟨m', log'⟩ ⟨h', -⟩
        cases x with
        | error e => exact h'
        | ok _ => exact ⟨h', h'⟩
      · rintro x ⟨m', log'⟩ h'
        cases x with
        | ok _ => exact h'
        | error e => exact ⟨h', h'⟩
    · exact ⟨h₁, h₁⟩

/-- **What the user does keeps the invariant.** -/
theorem ensures_action_origin (hme : s.userId = me) (action : WindowAction α)
    (h : OriginInv me log m) :
    (action.prog s).Ensures (restricted cacheExec (ServerConsistent me)) (OriginAt me) (m, log)
      fun _ d => OriginAt me d := by
  cases action with
  | load conversationId => exact ensures_loadMessages_origin hme h
  | send text => exact ensures_onSend_origin h
  | forward messageId target => exact ensures_onForward_origin h

end Steps

theorem originInv_nil (me : UInt64) : OriginInv (α := α) me [] fun _ => none where
  records := rfl
  saved := by rintro _ _ ⟨⟩
  shown := by
    intro before c r after hlog
    cases before <;> cases hlog

/-! ## Runs -/

section Runs

variable [Alphabet α] [Crypto α] [FloatFormat] [DecidableEq α] [LawfulBase64 α] [IdealAead α]
  [IdealKdf α] {σ : Type} {net : HttpRequest α → σ → Option (HttpResponse α) → σ → Prop}
  {mayFail : FileOp Bytes α → Prop} {home : Bytes} {username password : List α} {me : UInt64}
  {log : WindowLog α}
  {desk : Option (Session α × Window α)} {w : World α σ}
  {mayStop : WindowLog α → Option (Call α) → Prop}

/-- **Where a displayed message comes from**: while the server's answers are consistent, every
text that is shown as another user's was decrypted in the context of the conversation on
display, of that user and of the session user. -/
theorem displayed_origin (hmayFail : ∀ o, mayFail o → ¬ StoreFileOp (storeFile home username) o)
    (hsave : ∀ log r, ¬ mayStop log (some (.savePlaintext r)))
    (hserver : AllMeet (ServerConsistent me) log)
    (h : WindowRun mayFail net mayStop home username password me log desk w) :
    OriginAuthentic me log := by
  have hact : ∀ (s : Session α) (action : WindowAction α) log m, s.userId = me →
      OriginInv me log m → (action.prog s).Ensures (restricted cacheExec (ServerConsistent me))
        (fun d => ∀ c, mayStop d.2 c → OriginInv me d.2 d.1) (m, log)
        fun _ d => OriginInv me d.2 d.1 :=
    fun s action log m hme hinv =>
      ensures_weaken (ensures_action_origin hme action hinv) fun d hd c _ => hd
  obtain ⟨m, -, hinv⟩ := h.inv hmayFail hsave (originInv_nil me) hact hserver
  exact hinv.shown

end Runs

/-- A message of conversation 1 is served in the view of that conversation. -/
theorem displayed_origin_example : letI := plainFloats; letI := plainCrypto;
    ∃ (net : HttpRequest UInt8 → Unit → Option (HttpResponse UInt8) → Unit → Prop)
      (log : WindowLog UInt8) (desk : Option (Session UInt8 × Window UInt8)) (w : World UInt8 Unit),
      WindowRun (fun _ => False) net (fun _ _ => False) (bytes "/home/a") (bytes "a") (bytes "p") 1
        log desk w ∧
      (∃ msg label, msg.senderId = 2 ∧
        (⟨.appendMessageToView 1 msg label (bytes "hello") true, .ok ()⟩ : Σ c : Call UInt8, c.Res) ∈
          log) ∧
      OriginAuthentic 1 log := by
  let := plainFloats
  let := plainCrypto
  have := lawfulBase64_plain
  have := lawfulDh_plain
  have := lawfulSigning_plain
  have := idealAead_plain
  have := idealKdf_plain
  have hhome : bytes "/home/a" ≠ [] := by decide
  have hvalid : validUtf8 (bytes "a" : List UInt8) = true := by decide
  have hother : (2 : UInt64) ≠ 1 := by decide
  obtain ⟨respond, s, window, w, msg, msgJson, preKeyId, log, hrun, hme, -, hsender, hconversation,
    hmsg, -, hshown⟩ := exists_shown hhome hvalid (by decide) (bytes "p") hother 7 1 1
      (bytes "hello") fun _ _ => False
  obtain ⟨before, label, hlast⟩ := hshown.shown (by decide)
  obtain ⟨more, hlog, hquiet⟩ := hshown.log_eq
  have hanswer : ServerConsistent 1 ([] ++ [⟨.clearMessages, .ok ()⟩]) (.getMessages 1)
      (.ok (.arr [msgJson])) := by
    have hmessages : messagesIn [msgJson] = [msg] := by
      simp [messagesIn, hmsg, Except.toOption]
    refine ⟨?_, ?_⟩
    all_goals
      simp only [Json.elements, hmessages, List.mem_singleton]
      rintro _ rfl
    · exact fun _ => hconversation
    · rintro _ rfl -
      rfl
  have hserver : AllMeet (ServerConsistent 1) log := by
    have hdone : log = _ := hlog
    rw [hdone]
    refine AllMeet.append (AllMeet.snoc (AllMeet.snoc ?_ trivial) hanswer) fun e he before => ?_
    · intro before c r after h
      cases before <;> cases h
    · exact serverConsistent_quiet (hquiet e he)
  refine ⟨answering respond, log, some (s, window), w, hrun, ⟨msg, label, hsender, ?_⟩,
    displayed_origin (fun _ h => h.elim) (fun _ _ h => h) hserver hrun⟩
  have hdone : log = _ := hlast
  rw [hdone]
  exact List.mem_append_right _ List.mem_cons_self

/-- A message of conversation 1 is served in the view of conversation 5. -/
theorem not_displayed_origin : letI := plainFloats; letI := plainCrypto;
    ¬ ∀ (net : HttpRequest UInt8 → Unit → Option (HttpResponse UInt8) → Unit → Prop)
      (log : WindowLog UInt8) (desk : Option (Session UInt8 × Window UInt8)) (w : World UInt8 Unit),
      WindowRun (fun _ => False) net (fun _ _ => False) (bytes "/home/a") (bytes "a") (bytes "p") 1
        log desk w → OriginAuthentic 1 log := by
  let := plainFloats
  let := plainCrypto
  have := lawfulBase64_plain
  have := lawfulDh_plain
  have := lawfulSigning_plain
  have := idealAead_plain
  have := idealKdf_plain
  intro hall
  have hhome : bytes "/home/a" ≠ [] := by decide
  have hvalid : validUtf8 (bytes "a" : List UInt8) = true := by decide
  have hother : (2 : UInt64) ≠ 1 := by decide
  obtain ⟨respond, s, window, w, msg, msgJson, preKeyId, log, hrun, -, -, hsender, hconversation,
    -, -, hshown⟩ := exists_shown hhome hvalid (by decide) (bytes "p") hother 7 1 5
      (bytes "hello") fun _ _ => False
  obtain ⟨before, label, hlast⟩ := hshown.shown (by decide)
  have horigin := hall _ log _ w hrun before _ _ [] hlast 5 msg label (bytes "hello") rfl
    (by rw [hsender]; decide)
  -- nothing was decrypted but the message of conversation 1
  obtain ⟨message, senderPk, hmessage, -, hmem⟩ := horigin
  have hmem' : (⟨.decryptMessage message senderPk 1, .ok (bytes "hello")⟩ :
      Σ c : Call UInt8, c.Res) ∈ log := by
    have hdone : log = _ := hlast
    rw [hdone]
    exact List.mem_append_left _ hmem
  obtain ⟨rfl, -⟩ := Prod.ext_iff.mp (hshown.read.only _ hmem' _ rfl)
  rw [hconversation] at hmessage
  exact absurd hmessage (by decide)

end Kd
