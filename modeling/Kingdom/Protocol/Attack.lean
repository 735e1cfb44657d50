import Kingdom.Client.LocalPaths
import Kingdom.Client.RoundTrip
import Kingdom.Process.Simulation
import Kingdom.Symbolic.Knowledge

/-!
# Messages under an attacker

The server and the network are one attacker, who sees what the users send and answers
what it likes.  Users ask for bundles and encrypt any number of messages under new keys.

* `Attacker.net`, `Attacker.machine` — what the effects of the client mean to a user then.
* `Encryption` — a call of `encryptMessage`; `Encryption.Computes` — the keys and the context it
  encrypts under.
* `Attack` — what the attacker has seen after some calls of `getPublicKey` and of
  `encryptMessage`, in any order.
* `Attack.anchored` — a bundle that was fetched has the anchor that was pinned.
* `Attack.mayKnow` — a bound on what the attacker has seen.
-/

namespace Kd

open Codec Process Prog Storage Kd.Symbol

variable [FloatFormat]

/-! ## The machine of a user -/

/-- The attacker reads every request, and answers with what it can derive. -/
def Attacker.net (A : Attacker) (req : HttpRequest Symbol) (seen : Set (List Symbol))
    (response : Option (HttpResponse Symbol)) (seen' : Set (List Symbol)) : Prop :=
  seen' = insert req.authToken (insert req.body seen) ∧
    ∀ res ∈ response, Derives A seen' res.body

/-- Keys and random values are new ones, and no key is one of the attacker's. -/
def Attacker.Draws (A : Attacker) (log : CallLog (Op Symbol) Op.Res) :
    (o : Op Symbol) → o.Res → Prop
  | .file _, _ => True
  | .http _, _ => True
  | .random n, r => (∃ name, r = block (.random name) n) ∧ ⟨.random n, r⟩ ∉ log
  | .boxKeypair, r => (∃ name ∉ A.owns, r = block (.privateKey name) 32) ∧ ⟨.boxKeypair, r⟩ ∉ log
  | .signKeypair, r => (∃ name ∉ A.owns, r = block (.privateKey name) 64) ∧ ⟨.signKeypair, r⟩ ∉ log

/-- What a user's machine does. -/
def Attacker.machine (A : Attacker) (mayFail : FileOp Bytes Symbol → Prop) :
    (o : Op Symbol) → World Symbol (Set (List Symbol)) × CallLog (Op Symbol) Op.Res → o.Res →
      World Symbol (Set (List Symbol)) × CallLog (Op Symbol) Op.Res → Prop :=
  restricted (exec mayFail A.net) A.Draws

/-! ## Calls -/

/-- A call of `getPublicKey`: the user it asks for, the pin the caller has for this user, and
how it ended. -/
structure Fetch where
  userId : UInt64
  pin : Option (List Symbol)
  outcome : Except Exn (List Symbol)

/-- A call of `encryptMessage`: what it is given, the pin the sender had for the
recipient when the bundle comes from `getPublicKey`, what it draws and what it returns. -/
structure Encryption where
  sender : LocalIdentityKey Symbol
  plaintext : List Symbol
  bundle : List Symbol
  conversationId : UInt64
  senderId : UInt64
  recipientId : UInt64
  pin : Option (List Symbol)
  ephemeral : List Symbol
  nonce : List Symbol
  payload : List Symbol

/-- The call itself. -/
noncomputable def Encryption.encrypt (c : Encryption) : Action Symbol (List Symbol) :=
  encryptMessage c.plaintext c.sender c.bundle c.conversationId c.senderId c.recipientId

/-- What it draws. -/
def Encryption.draws (c : Encryption) : CallLog (Op Symbol) Op.Res :=
  [⟨.boxKeypair, c.ephemeral⟩, ⟨.random 24, c.nonce⟩]

/-- The keys of the recipient, the message key and the associated data of a call. -/
structure Encryption.Computes (c : Encryption) (keys : RecipientKeys Symbol)
    (messageKey aad : List Symbol) : Prop where
  recipient : recipientKeys c.bundle = .ok keys
  agreement : senderKey c.sender.privateKey c.ephemeral keys = .ok messageKey
  context : (associatedData c.conversationId c.senderId c.recipientId c.sender.publicKey
    (base64Encode (Crypto.boxPublicKey c.ephemeral)) keys.identityKey keys.signedPreKeyId
    (keys.oneTimePreKey.map (·.1))).dump = some aad
  printed : (payloadJson c.sender.publicKey (base64Encode (Crypto.boxPublicKey c.ephemeral))
    keys.signedPreKeyId (keys.oneTimePreKey.map (·.1)) c.nonce
    (Crypto.aeadEncrypt c.plaintext aad c.nonce messageKey)).dump = some c.payload

/-- The values of a call are drawn as they should be, after a log. -/
structure Encryption.Drawn (A : Attacker) (log : CallLog (Op Symbol) Op.Res) (c : Encryption) :
    Prop where
  ephemeral : ∃ name ∉ A.owns, c.ephemeral = block (.privateKey name) 32
  nonce : ∃ name, c.nonce = block (.random name) 24
  newEphemeral : ⟨.boxKeypair, c.ephemeral⟩ ∉ log
  newNonce : ⟨.random 24, c.nonce⟩ ∉ log

variable {A : Attacker} {mayFail : FileOp Bytes Symbol → Prop}

omit [FloatFormat] in
theorem ensures_machine_op {o : Op Symbol} {w : World Symbol (Set (List Symbol))}
    {log : CallLog (Op Symbol) Op.Res}
    {Q : Except Exn o.Res → World Symbol (Set (List Symbol)) × CallLog (Op Symbol) Op.Res → Prop} :
    (perform o).Ensures (A.machine mayFail) (fun _ => True) (w, log) Q ↔
      ∀ r w', exec mayFail A.net o w r w' → A.Draws log o r →
        Q (.ok r) (w', log ++ [⟨o, r⟩]) := by
  rw [perform, ensures_op]
  constructor
  · rintro ⟨-, h⟩ r w' hexec hdraws
    exact (h r (w', log ++ [⟨o, r⟩]) ⟨⟨hexec, rfl⟩, hdraws⟩).2
  · intro h
    refine ⟨trivial, ?_⟩
    rintro r ⟨w', log'⟩ ⟨⟨hexec, rfl⟩, hdraws⟩
    exact ⟨trivial, h r w' hexec hdraws⟩

omit [FloatFormat] in
/-- What holds without the log holds with it. -/
theorem ensures_machine {β : Type} {p : Action Symbol β} {w : World Symbol (Set (List Symbol))}
    {log : CallLog (Op Symbol) Op.Res} {Q : Except Exn β → World Symbol (Set (List Symbol)) → Prop}
    (h : p.Ensures (exec mayFail A.net) (fun _ => True) w Q) :
    p.Ensures (A.machine mayFail) (fun _ => True) (w, log) fun x s' => Q x s'.1 :=
  (ensures_logged.mpr h).of_le fun _ _ _ _ hstep => hstep.1

/-- **What a call of `encryptMessage` does on this machine**: it draws two values, and its
payload carries the plaintext under the keys computed from them. -/
theorem Encryption.computes_of_runs {c : Encryption} {w w' : World Symbol (Set (List Symbol))}
    {log : CallLog (Op Symbol) Op.Res}
    (h : c.encrypt.Runs (A.machine mayFail) (w, log) (some (.ok c.payload)) (w', log ++ c.draws)) :
    w' = w ∧ c.Drawn A log ∧ ∃ keys messageKey aad, c.Computes keys messageKey aad := by
  have hensures : c.encrypt.Ensures (A.machine mayFail) (fun _ => True) (w, log) fun x s' =>
      ∀ payload, x = .ok payload → s'.1 = w ∧ ∃ ephemeral nonce keys messageKey aad,
        s'.2 = log ++ [⟨.boxKeypair, ephemeral⟩, ⟨.random 24, nonce⟩] ∧
        Encryption.Drawn A log { c with ephemeral := ephemeral, nonce := nonce } ∧
        Encryption.Computes { c with ephemeral := ephemeral, nonce := nonce, payload := payload } keys
          messageKey aad := by
    rw [Encryption.encrypt, encryptMessage, ensures_bind, ensures_ofExcept]
    refine ⟨trivial, ?_⟩
    cases hkeys : recipientKeys c.bundle with
    | error e => exact fun _ h => by cases h
    | ok keys =>
        simp only
        rw [ensures_bind, ensures_machine_op]
        rintro ephemeral w₁ ⟨-, rfl⟩ ⟨hephemeral, hnewEphemeral⟩
        simp only
        rw [ensures_bind, ensures_ofExcept]
        refine ⟨trivial, ?_⟩
        cases hkey : senderKey c.sender.privateKey ephemeral keys with
        | error e => exact fun _ h => by cases h
        | ok messageKey =>
            simp only
            rw [ensures_bind, ensures_machine_op]
            rintro nonce w₂ ⟨-, rfl⟩ ⟨hnonce, hnewNonce⟩
            simp only
            rw [ensures_ofExcept]
            refine ⟨trivial, fun payload hpayload => ?_⟩
            simp only [sealMessage, bind_ok, orJsonError_ok] at hpayload
            obtain ⟨aad, haad, hdump⟩ := hpayload
            refine ⟨rfl, ephemeral, nonce, keys, messageKey, aad, List.append_assoc _ _ _,
              ⟨hephemeral, hnonce, hnewEphemeral, fun hmem => hnewNonce ?_⟩,
              ⟨hkeys, hkey, haad, hdump⟩⟩
            exact List.mem_append_left _ hmem
  obtain ⟨hw, ephemeral, nonce, keys, messageKey, aad, hlog, hdrawn, hcomputes⟩ :=
    hensures.of_runs h c.payload rfl
  have hdraws := List.append_cancel_left hlog
  simp only [Encryption.draws, List.cons.injEq, Sigma.mk.injEq, heq_eq_eq, true_and, and_true] at hdraws
  obtain ⟨rfl, rfl⟩ := hdraws
  exact ⟨hw, hdrawn, keys, messageKey, aad, hcomputes⟩

/-! ## Runs -/

/-- The attacker has none of the private keys of the user. -/
structure LocalIdentityKey.Hidden (A : Attacker) (user : LocalIdentityKey Symbol) : Prop where
  privateKey : A.Lacks user.privateKey
  signingSecretKey : A.Lacks user.signingSecretKey
  signedPreKey : A.Lacks user.signedPreKey.privateKey
  oneTimePreKeys : ∀ k ∈ user.oneTimePreKeys, A.Lacks k.privateKey

/-- What `getPublicKey` tells the attacker is the token of the client. -/
theorem server_getPublicKey {client : Client Symbol} {home : Bytes} {userId : UInt64}
    {x : Except Exn (List Symbol)} {w w' : World Symbol (Set (List Symbol))}
    {log log' : CallLog (Op Symbol) Op.Res}
    (h : (getPublicKey client home userId).Runs (A.machine mayFail) (w, log) (some x) (w', log')) :
    w'.server = insert client.authToken (insert [] w.server) := by
  have hensures : (getPublicKey client home userId).Ensures (A.machine mayFail) (fun _ => True)
      (w, log) fun _ s' => s'.1.server = insert client.authToken (insert [] w.server) := by
    rw [getPublicKey, ensures_bind, ensures_machine_op]
    rintro response _ ⟨seen, ⟨rfl, -⟩, rfl⟩ -
    cases response with
    | none => exact ⟨trivial, rfl⟩
    | some res =>
        simp only
        by_cases hstatus : res.status = 200
        · rw [if_pos hstatus, ensures_bind, ensures_ofExcept]
          refine ⟨trivial, ?_⟩
          cases publicKeyOf res.body with
          | error e => rfl
          | ok publicKey =>
              -- pinning is no business of the network
              have hfiles : (pinPublicKey home userId publicKey).Only
                  fun o : Op Symbol => ∃ f, o = .file f :=
                only_pinPublicKey (fun f _ => ⟨f, rfl⟩) userId publicKey
              have hsame : ∀ s, (pinPublicKey home userId publicKey).Ensures (A.machine mayFail)
                  (fun s' => s'.1.server = s.1.server) s fun _ s' => s'.1.server = s.1.server := by
                refine hfiles.ensures_same
                  (fun s : World Symbol (Set (List Symbol)) × CallLog (Op Symbol) Op.Res =>
                    s.1.server) ?_
                rintro o s r s' ⟨f, rfl⟩ ⟨⟨⟨fs, -, hs⟩, -⟩, -⟩
                simp only [hs]
              exact ensures_weaken (hsame _) fun _ _ => trivial
        · rw [if_neg hstatus]
          exact ⟨trivial, rfl⟩
  exact hensures.of_runs h

/-- The bundles of the users, as they publish them. -/
def published (users : Set (LocalIdentityKey Symbol)) : Set (List Symbol) :=
  {text | ∃ user ∈ users, ∃ bundle, publicBundle user = .ok bundle ∧ bundle.dump = some text}

/-- What a user may write: texts of its own, and what the attacker could have told it. -/
def Composed (A : Attacker) (seen : Set (List Symbol)) (plaintext : List Symbol) : Prop :=
  ∀ a ∈ plaintext, (∃ n, a = .text n) ∨ Derives A seen [a]

/-- What the attacker has seen, the log of what was drawn, and the calls of `getPublicKey`
and of `encryptMessage` that were made. -/
inductive Attack (A : Attacker) (mayFail : FileOp Bytes Symbol → Prop)
    (users : Set (LocalIdentityKey Symbol)) :
    Set (List Symbol) → CallLog (Op Symbol) Op.Res → List Fetch → List Encryption → Prop where
  | start : Attack A mayFail users (published users) [] [] []
  /-- A user asks for a bundle. -/
  | fetch {seen log fetches calls client home fs userId x w log'}
      (h : Attack A mayFail users seen log fetches calls)
      (htoken : Derives A seen client.authToken)
      (hrun : (getPublicKey client home userId).Runs (A.machine mayFail) (⟨fs, seen⟩, log) (some x)
        (w, log')) :
      Attack A mayFail users w.server log' (fetches ++ [⟨userId, pinned home fs userId, x⟩]) calls
  /-- A user encrypts what the attacker likes under a bundle it likes, and sends the payload. -/
  | encrypt {seen log fetches calls} {c : Encryption} {fs w}
      (h : Attack A mayFail users seen log fetches calls) (hsender : c.sender.Made)
      (hbundle : Derives A seen c.bundle) (hplaintext : Derives A seen c.plaintext)
      (hrun : c.encrypt.Runs (A.machine mayFail) (⟨fs, seen⟩, log) (some (.ok c.payload))
        (w, log ++ c.draws)) :
      Attack A mayFail users (insert c.payload w.server) (log ++ c.draws) fetches (calls ++ [c])
  /-- A user encrypts any text under a bundle it asked for, and sends the payload. -/
  | send {seen log fetches calls} {c : Encryption} {fs w}
      (h : Attack A mayFail users seen log fetches calls) (hsender : c.sender.Made)
      (hfetch : ⟨c.recipientId, c.pin, .ok c.bundle⟩ ∈ fetches)
      (hplaintext : Composed A seen c.plaintext)
      (hrun : c.encrypt.Runs (A.machine mayFail) (⟨fs, seen⟩, log) (some (.ok c.payload))
        (w, log ++ c.draws)) :
      Attack A mayFail users (insert c.payload w.server) (log ++ c.draws) fetches (calls ++ [c])

section Runs

variable {users : Set (LocalIdentityKey Symbol)} {seen : Set (List Symbol)}
  {log : CallLog (Op Symbol) Op.Res} {fetches : List Fetch} {calls : List Encryption}

/-- An attacker from whom fewer texts are kept can do what it did. -/
theorem Attack.telling (h : Attack A mayFail users seen log fetches calls) {secrets : Set Nat}
    (hsub : secrets ⊆ A.secrets) :
    Attack { A with secrets := secrets } mayFail users seen log fetches calls := by
  let A' : Attacker := { A with secrets := secrets }
  have howns : A.owns ⊆ A'.owns := subset_rfl
  have hderives : ∀ {seen s}, Derives A seen s → Derives A' seen s :=
    fun hs => hs.mono howns hsub subset_rfl
  have hmachine : ∀ (o : Op Symbol)
      (s : World Symbol (Set (List Symbol)) × CallLog (Op Symbol) Op.Res) (r : o.Res)
      (s' : World Symbol (Set (List Symbol)) × CallLog (Op Symbol) Op.Res),
      A.machine mayFail o s r s' → A'.machine mayFail o s r s' := by
    rintro o s r s' ⟨⟨hexec, hlog⟩, hdraws⟩
    cases o with
    | http req =>
        obtain ⟨seen', ⟨hseen, hres⟩, hs⟩ := hexec
        exact ⟨⟨⟨seen', ⟨hseen, fun res hr => hderives (hres res hr)⟩, hs⟩, hlog⟩, hdraws⟩
    | _ => exact ⟨⟨hexec, hlog⟩, hdraws⟩
  induction h with
  | start => exact .start
  | fetch _ htoken hrun ih => exact .fetch ih (hderives htoken) (hrun.of_le hmachine)
  | encrypt _ hsender hbundle hplaintext hrun ih =>
      exact .encrypt ih hsender (hderives hbundle) (hderives hplaintext) (hrun.of_le hmachine)
  | send _ hsender hfetch hplaintext hrun ih =>
      exact .send ih hsender hfetch (fun a ha => (hplaintext a ha).imp_right hderives)
        (hrun.of_le hmachine)

/-- Knowing every text, the attacker can do what it did. -/
theorem Attack.knowing (h : Attack A mayFail users seen log fetches calls) :
    Attack A.knowing mayFail users seen log fetches calls :=
  h.telling (Set.empty_subset _)

/-- A bundle that was fetched has the anchor that was pinned. -/
theorem Attack.anchored (h : Attack A mayFail users seen log fetches calls) {f : Fetch}
    (hf : f ∈ fetches) {pin bundle : List Symbol} (hpin : f.pin = some pin)
    (hbundle : f.outcome = .ok bundle) : pinningAnchor bundle = .ok pin := by
  induction h with
  | start => cases hf
  | fetch _ _ hrun ih =>
      rcases List.mem_append.mp hf with hf | hf
      · exact ih hf
      · rw [List.mem_singleton.mp hf] at hpin hbundle
        exact (ensures_machine (ensures_getPublicKey_pinned hpin)).of_runs hrun bundle hbundle
  | encrypt _ _ _ _ _ ih => exact ih hf
  | send _ _ _ _ _ ih => exact ih hf

/-- Every call was made by a user with keys of its own, and computed what a call computes. -/
theorem Attack.sent (h : Attack A mayFail users seen log fetches calls) {c : Encryption}
    (hc : c ∈ calls) :
    c.sender.Made ∧ (∃ log, c.Drawn A log) ∧
      ∃ keys messageKey aad, c.Computes keys messageKey aad := by
  induction h with
  | start => cases hc
  | encrypt _ hsender _ _ hrun ih =>
      rcases List.mem_append.mp hc with hc | hc
      · exact ih hc
      · rw [List.mem_singleton.mp hc]
        obtain ⟨-, hdrawn, hcomputes⟩ := Encryption.computes_of_runs hrun
        exact ⟨hsender, ⟨_, hdrawn⟩, hcomputes⟩
  | fetch _ _ _ ih => exact ih hc
  | send _ hsender _ _ hrun ih =>
      rcases List.mem_append.mp hc with hc | hc
      · exact ih hc
      · rw [List.mem_singleton.mp hc]
        obtain ⟨-, hdrawn, hcomputes⟩ := Encryption.computes_of_runs hrun
        exact ⟨hsender, ⟨_, hdrawn⟩, hcomputes⟩

/-- The log holds what the calls drew, and no two of them drew the same. -/
structure Fresh (log : CallLog (Op Symbol) Op.Res) (calls : List Encryption) : Prop where
  logged : ∀ c ∈ calls, ∀ e ∈ c.draws, e ∈ log
  distinct : ∀ c ∈ calls, ∀ d ∈ calls, c.nonce = d.nonce ∨ c.ephemeral = d.ephemeral → c = d

omit [FloatFormat] in
/-- One more call. -/
theorem Fresh.snoc {c : Encryption} (h : Fresh log calls) (hdrawn : c.Drawn A log) :
    Fresh (log ++ c.draws) (calls ++ [c]) := by
  have hold := h.logged
  have hnew : ∀ d ∈ calls, ¬ (d.nonce = c.nonce ∨ d.ephemeral = c.ephemeral) := by
    rintro d hd (heq | heq)
    · exact hdrawn.newNonce (heq ▸ hold d hd _ (List.mem_cons_of_mem _ List.mem_cons_self))
    · exact hdrawn.newEphemeral (heq ▸ hold d hd _ List.mem_cons_self)
  constructor
  · intro d hd e he
    rcases List.mem_append.mp hd with hd | hd
    · exact List.mem_append_left _ (hold d hd e he)
    · rw [List.mem_singleton.mp hd] at he
      exact List.mem_append_right _ he
  · intro d hd d' hd' heq
    rcases List.mem_append.mp hd with hd | hd <;> rcases List.mem_append.mp hd' with hd' | hd'
    · exact h.distinct d hd d' hd' heq
    · rw [List.mem_singleton.mp hd'] at heq
      exact (hnew d hd heq).elim
    · rw [List.mem_singleton.mp hd] at heq
      exact (hnew d' hd' (heq.imp Eq.symm Eq.symm)).elim
    · rw [List.mem_singleton.mp hd, List.mem_singleton.mp hd']

/-- **The calls draw new values.** -/
theorem Attack.fresh (h : Attack A mayFail users seen log fetches calls) : Fresh log calls := by
  induction h with
  | start => exact ⟨fun _ h => (List.not_mem_nil h).elim, fun _ h => (List.not_mem_nil h).elim⟩
  | fetch _ _ hrun ih =>
      have hlogged : Runs (logged (exec mayFail A.net)) _ _ _ _ := hrun.of_le fun _ _ _ _ h => h.1
      exact ⟨fun c hc e he => hlogged.prefix_log.subset (ih.logged c hc e he), ih.distinct⟩
  | encrypt _ _ _ _ hrun ih => exact ih.snoc (Encryption.computes_of_runs hrun).2.1
  | send _ _ _ _ hrun ih => exact ih.snoc (Encryption.computes_of_runs hrun).2.1

end Runs

/-! ## What the attacker has seen -/

section Bound

variable {E : Encrypted}

omit [FloatFormat] in
/-- A message key takes all the secrets it is made from. -/
theorem mayKnow_deriveX3dhKey {outputs : List (List Symbol)} {key : List Symbol}
    (h : deriveX3dhKey outputs = .ok key) :
    All (MayKnow A E) key ↔ ∀ s ∈ outputs, All (MayKnow A E) s := by
  rw [deriveX3dhKey, deriveKey, orThrow_ok] at h
  rw [mayKnow_hkdf h]
  constructor
  · intro hall s hs
    exact hall.mono fun a ha => List.mem_flatten_of_mem hs ha
  · intro hall a ha
    obtain ⟨s, hs, ha⟩ := List.mem_flatten.mp ha
    exact hall s hs a ha

omit [FloatFormat] in
/-- A secret of two keys the attacker lacks. -/
theorem not_mayKnow_dh {a b s : List Symbol} {label : String} (ha : A.Lacks a) (hb : A.Lacks b)
    (h : dh a (base64Encode (Crypto.boxPublicKey b)) label = .ok s) : ¬ All (MayKnow A E) s := by
  rw [dh_eq, orThrow_ok] at h
  intro hs
  rcases mayKnow_shared h hs with hs | hs
  · exact ha.not_mayKnow hs
  · exact hb.not_mayKnow hs

omit [FloatFormat] in
theorem mayKnow_base64_boxPublicKey (k : List Symbol) :
    All (MayKnow A E) (base64Encode (Crypto.boxPublicKey k)) :=
  mayKnow_base64Encode.mpr (mayKnow_boxPublicKey k)

omit [FloatFormat] in
/-- A bundle holds public keys, and a signature. -/
theorem mayKnow_published {users : Set (LocalIdentityKey Symbol)} (hmade : ∀ user ∈ users, user.Made) :
    ∀ s ∈ published users, All (MayKnow A E) s := by
  rintro text ⟨user, huser, bundle, hbundle, htext⟩
  have hmade := hmade user huser
  simp only [publicBundle, signSignedPreKey, bind_ok, pure_ok] at hbundle
  obtain ⟨_, ⟨input, -, rfl⟩, rfl⟩ := hbundle
  have hsignature : All (MayKnow A E)
      (base64Encode (Crypto.signDetached input user.signingSecretKey)) :=
    mayKnow_base64Encode.mpr (mayKnow_signDetached _ _)
  have hsigning : All (MayKnow A E) user.signingPublicKey :=
    hmade.signingPublicKey ▸ mayKnow_base64Encode.mpr (mayKnow_signPublicKey _)
  refine Json.all_dump mayKnow_byte htext (Json.over_mkObj ?_)
  simp only [List.forall_mem_cons, Json.Over]
  refine ⟨trivial, Json.all_ofBytes mayKnow_byte _, ?_, hsigning, Json.over_mkObj ?_, ?_,
    List.forall_mem_nil _⟩
  · exact hmade.publicKey ▸ mayKnow_base64_boxPublicKey _
  · simp only [List.forall_mem_cons, Json.Over]
    exact ⟨trivial, hmade.signedPreKey.publicKey ▸ mayKnow_base64_boxPublicKey _, hsignature,
      List.forall_mem_nil _⟩
  · refine Json.overElems_iff.mpr fun j hj => ?_
    obtain ⟨key, hkey, rfl⟩ := List.mem_map.mp hj
    refine Json.over_mkObj ?_
    simp only [List.forall_mem_cons, Json.Over]
    exact ⟨trivial, (hmade.oneTimePreKeys key hkey).publicKey ▸ mayKnow_base64_boxPublicKey _,
      List.forall_mem_nil _⟩

/-- **A payload may be seen**, when whoever has its key may read it. -/
theorem Encryption.Computes.mayKnow_payload {c : Encryption} {keys : RecipientKeys Symbol}
    {messageKey aad : List Symbol} (h : c.Computes keys messageKey aad) (hsender : c.sender.Made)
    (hnonce : ∃ name, c.nonce = block (.random name) 24)
    (hencrypted : E c.plaintext aad c.nonce messageKey)
    (hsafe : All (MayKnow A E) messageKey → All (MayKnow A E) c.plaintext) :
    All (MayKnow A E) c.payload := by
  obtain ⟨name, hnonce⟩ := hnonce
  have hnonce' : All (MayKnow A E) (base64Encode c.nonce) :=
    mayKnow_base64Encode.mpr (hnonce ▸ all_block fun _ => trivial)
  have hciphertext : All (MayKnow A E)
      (base64Encode (Crypto.aeadEncrypt c.plaintext aad c.nonce messageKey)) :=
    mayKnow_base64Encode.mpr (mayKnow_aeadEncrypt.mpr ⟨hsafe, .inr hencrypted⟩)
  refine Json.all_dump mayKnow_byte h.printed (Json.over_mkObj ?_)
  simp only [List.forall_mem_cons, Json.Over]
  refine ⟨trivial, Json.all_ofBytes mayKnow_byte _, ?_, mayKnow_base64_boxPublicKey _, trivial, ?_,
    hnonce', hciphertext, List.forall_mem_nil _⟩
  · exact hsender.publicKey ▸ mayKnow_base64_boxPublicKey _
  · cases keys.oneTimePreKey <;> trivial

/-- **A bound on all the attacker has seen**: it stays, when in every call for a recipient
whose bundle was asked for, whoever has the key may read the text. -/
theorem Attack.mayKnow {users : Set (LocalIdentityKey Symbol)} {seen : Set (List Symbol)}
    {log : CallLog (Op Symbol) Op.Res} {fetches : List Fetch} {calls : List Encryption}
    (h : Attack A mayFail users seen log fetches calls) (hmade : ∀ user ∈ users, user.Made)
    (hencrypted : ∀ c ∈ calls, ∀ keys messageKey aad, c.Computes keys messageKey aad →
      E c.plaintext aad c.nonce messageKey)
    (hsend : ∀ (seen : Set (List Symbol)) (c : Encryption), c ∈ calls →
      (∀ s ∈ seen, All (MayKnow A E) s) → Composed A seen c.plaintext →
      (∀ pin, c.pin = some pin → pinningAnchor c.bundle = .ok pin) → A.Lacks c.ephemeral →
      ∀ keys messageKey aad, c.Computes keys messageKey aad → All (MayKnow A E) messageKey →
        All (MayKnow A E) c.plaintext) :
    ∀ s ∈ seen, All (MayKnow A E) s := by
  induction h with
  | start => exact mayKnow_published hmade
  | fetch _ htoken hrun ih =>
      have hseen := ih hencrypted hsend
      rw [server_getPublicKey hrun]
      exact Set.forall_mem_insert.mpr ⟨mayKnow_of_derives hseen htoken,
        Set.forall_mem_insert.mpr ⟨all_nil, hseen⟩⟩
  | @encrypt seen log fetches calls c fs w h hsender _ hplaintext hrun ih =>
      have hc : c ∈ calls ++ [c] := List.mem_append_right _ List.mem_cons_self
      have hseen := ih (fun d hd => hencrypted d (List.mem_append_left _ hd))
        fun s d hd => hsend s d (List.mem_append_left _ hd)
      obtain ⟨rfl, hdrawn, keys, messageKey, aad, hcomputes⟩ := Encryption.computes_of_runs hrun
      refine Set.forall_mem_insert.mpr ⟨?_, hseen⟩
      exact hcomputes.mayKnow_payload hsender hdrawn.nonce (hencrypted c hc _ _ _ hcomputes)
        fun _ => mayKnow_of_derives hseen hplaintext
  | @send seen log fetches calls c fs w h hsender hfetch hplaintext hrun ih =>
      have hc : c ∈ calls ++ [c] := List.mem_append_right _ List.mem_cons_self
      have hseen := ih (fun d hd => hencrypted d (List.mem_append_left _ hd))
        fun s d hd => hsend s d (List.mem_append_left _ hd)
      obtain ⟨rfl, hdrawn, keys, messageKey, aad, hcomputes⟩ := Encryption.computes_of_runs hrun
      obtain ⟨name, hname, hephemeral⟩ := hdrawn.ephemeral
      refine Set.forall_mem_insert.mpr ⟨?_, hseen⟩
      exact hcomputes.mayKnow_payload hsender hdrawn.nonce (hencrypted c hc _ _ _ hcomputes)
        (hsend seen c hc hseen hplaintext (fun pin hpin => h.anchored hfetch hpin rfl)
          ⟨name, 32, hname, by decide, hephemeral⟩ _ _ _ hcomputes)

end Bound

/-! ## Examples -/

/-- A user with one one-time prekey; the private keys have names from `n` on. -/
noncomputable def exampleUser (n : Nat) : LocalIdentityKey Symbol :=
  let key (i : Nat) := block (.privateKey (n + i)) 32
  ⟨base64Encode (Crypto.boxPublicKey (key 0)), key 0,
    base64Encode (Crypto.signPublicKey (block (.privateKey (n + 1)) 64)),
    block (.privateKey (n + 1)) 64,
    ⟨1, key 2, base64Encode (Crypto.boxPublicKey (key 2))⟩,
    [⟨5, key 3, base64Encode (Crypto.boxPublicKey (key 3))⟩], []⟩

omit [FloatFormat] in
theorem made_exampleUser (n : Nat) : (exampleUser n).Made where
  length := length_block _ _
  publicKey := rfl
  signingLength := length_block _ _
  signingPublicKey := rfl
  signedPreKey := ⟨length_block _ _, rfl⟩
  oneTimePreKeys := by
    intro x hx
    rw [List.mem_singleton.mp hx]
    exact ⟨length_block _ _, rfl⟩
  distinct := List.nodup_singleton _

omit [FloatFormat] in
theorem hidden_exampleUser {A : Attacker} {n : Nat} (h : ∀ i < 4, n + i ∉ A.owns) :
    (exampleUser n).Hidden A where
  privateKey := ⟨n + 0, 32, h 0 (by decide), by decide, rfl⟩
  signingSecretKey := ⟨n + 1, 64, h 1 (by decide), by decide, rfl⟩
  signedPreKey := ⟨n + 2, 32, h 2 (by decide), by decide, rfl⟩
  oneTimePreKeys := by
    intro k hk
    rw [List.mem_singleton.mp hk]
    exact ⟨n + 3, 32, h 3 (by decide), by decide, rfl⟩

/-- **A user can encrypt for another** whose bundle lists its prekey, and the message opens. -/
theorem exists_encryption {sender recipient : LocalIdentityKey Symbol} (hs : sender.Made)
    (hr : recipient.Made) {bundle : List Symbol}
    (hbundle : Publishes bundle recipient recipient.oneTimePreKeys) (plaintext : List Symbol)
    (conversationId senderId recipientId : UInt64) (pin : Option (List Symbol))
    (mayFail : FileOp Bytes Symbol → Prop) (w : World Symbol (Set (List Symbol)))
    {log : CallLog (Op Symbol) Op.Res} {name : Nat} (hname : name ∉ A.owns)
    (hephemeral : ⟨.boxKeypair, block (.privateKey name) 32⟩ ∉ log)
    (hnonce : ⟨.random 24, block (.random name) 24⟩ ∉ log) :
    ∃ c : Encryption, c.sender = sender ∧ c.plaintext = plaintext ∧ c.bundle = bundle ∧
      c.conversationId = conversationId ∧ c.senderId = senderId ∧ c.recipientId = recipientId ∧
      c.pin = pin ∧
      c.encrypt.Runs (A.machine mayFail) (w, log) (some (.ok c.payload)) (w, log ++ c.draws) ∧
      ∀ senderBundle, Publishes senderBundle sender sender.oneTimePreKeys →
        openMessage c.payload recipient senderBundle conversationId senderId recipientId =
          .ok (plaintext, recipient.oneTimePreKeys.head?.map (·.id)) := by
  have hkeys := recipientKeys_of_publishes hbundle
  have hmatch := match_keysOf (List.Sublist.refl recipient.oneTimePreKeys)
  let ephemeral := block (.privateKey name) 32
  let nonce := block (.random name) 24
  obtain ⟨messageKey, hkey⟩ := exists_senderKey hr hmatch IdealKdf.hkdf_some sender.privateKey ephemeral
  have hsenderText : validUtf8 sender.publicKey = true := hs.publicKey ▸ LawfulBase64.validUtf8_encode _
  have hrecipientText : validUtf8 recipient.publicKey = true :=
    hr.publicKey ▸ LawfulBase64.validUtf8_encode _
  obtain ⟨payload, hpayload⟩ := exists_sealMessage plaintext (keysOf recipient recipient.oneTimePreKeys)
    conversationId senderId recipientId messageKey nonce hsenderText
    (LawfulBase64.validUtf8_encode (Crypto.boxPublicKey ephemeral)) hrecipientText
  refine ⟨⟨sender, plaintext, bundle, conversationId, senderId, recipientId, pin, ephemeral, nonce,
    payload⟩, rfl, rfl, rfl, rfl, rfl, rfl, rfl, ?_, fun senderBundle hsender => ?_⟩
  · rw [Encryption.encrypt, encryptMessage, hkeys]
    let log₁ := log ++ [⟨.boxKeypair, ephemeral⟩]
    have hkeypair : A.machine mayFail .boxKeypair (w, log) ephemeral (w, log₁) :=
      ⟨⟨⟨length_block _ _, rfl⟩, rfl⟩, ⟨name, hname, rfl⟩, hephemeral⟩
    have hrandom : A.machine mayFail (.random 24) (w, log₁) nonce
      (w, log₁ ++ [⟨.random 24, nonce⟩]) := by
      refine ⟨⟨⟨length_block _ _, rfl⟩, rfl⟩, ⟨name, rfl⟩, ?_⟩
      simp only [log₁, List.mem_append, List.mem_singleton, Sigma.mk.injEq, reduceCtorEq, false_and,
        or_false]
      exact hnonce
    refine .call hkeypair ?_
    change (Prog.ofExcept (senderKey sender.privateKey ephemeral
      (keysOf recipient recipient.oneTimePreKeys)) >>= _).Runs _ _ _ _
    rw [hkey]
    refine .call hrandom ?_
    change (Prog.ofExcept (sealMessage plaintext sender.publicKey
      (Crypto.base64Encode (Crypto.boxPublicKey ephemeral)) (keysOf recipient recipient.oneTimePreKeys)
      conversationId senderId recipientId messageKey nonce)).Runs _ _ _ _
    rw [hpayload]
    simp only [log₁, List.append_assoc]
    exact .pure
  · obtain ⟨bundle, hparse, hvalid, hik⟩ := hsender.exists_bundle "senderBundle"
    rw [openMessage_sealMessage hs hr hmatch hkey (length_block _ _) hpayload hparse hvalid hik,
      keysOf, Option.map_map]
    rfl

/-- The bundle a user publishes, and what is pinned of it. -/
theorem exists_published {users : Set (LocalIdentityKey Symbol)} {user : LocalIdentityKey Symbol}
    (hmade : user.Made) (huser : user ∈ users) :
    ∃ text ∈ published users, Publishes text user user.oneTimePreKeys ∧
      anchorFields text = some (user.publicKey, user.signingPublicKey) := by
  obtain ⟨bundle, text, hbundle, htext, hpublishes⟩ :=
    exists_publishes hmade (List.Sublist.refl user.oneTimePreKeys)
  refine ⟨text, ⟨user, huser, bundle, hbundle, htext⟩, hpublishes, ?_⟩
  rw [anchorFields, Json.parse_dump htext (wf_publicBundle hbundle), norm_publicBundle hbundle]
  simp only [publicBundle, bind_ok, pure_ok] at hbundle
  obtain ⟨signature, -, rfl⟩ := hbundle
  simp +decide [Json.get?_mkObj, Json.lookup, Json.str?]

omit [FloatFormat] in
/-- There are always names left for a new key and a new nonce. -/
theorem exists_new_name (hfinite : A.owns.Finite) (log : CallLog (Op Symbol) Op.Res) :
    ∃ name ∉ A.owns, ⟨.boxKeypair, block (.privateKey name) 32⟩ ∉ log ∧
      ⟨.random 24, block (.random name) 24⟩ ∉ log := by
  let key (name : Nat) : (o : Op Symbol) × o.Res := ⟨.boxKeypair, block (.privateKey name) 32⟩
  let nonce (name : Nat) : (o : Op Symbol) × o.Res := ⟨.random 24, block (.random name) 24⟩
  have hkey : Function.Injective key := by
    intro m n h
    simpa [key, block, List.range_succ] using h
  have hnonce : Function.Injective nonce := by
    intro m n h
    simpa [nonce, block, List.range_succ] using h
  have hlog := List.finite_toSet log
  obtain ⟨name, hname⟩ := ((hfinite.union (hlog.preimage hkey.injOn)).union
    (hlog.preimage hnonce.injOn)).exists_notMem
  simp only [Set.mem_union, not_or] at hname
  exact ⟨name, hname.1.1, hname.1.2, hname.2⟩

/-- **A user can fetch a bundle it has pinned**, when the attacker serves it. -/
theorem Attack.exists_fetch {users : Set (LocalIdentityKey Symbol)} {seen : Set (List Symbol)}
    {log : CallLog (Op Symbol) Op.Res} {fetches : List Fetch} {calls : List Encryption}
    (h : Attack A (fun _ => False) users seen log fetches calls) {bundle : List Symbol}
    (hbundle : Derives A seen bundle) (hvalid : validUtf8 bundle = true) (userId : UInt64) :
    ∃ seen' log' pin, pinningAnchor bundle = .ok pin ∧ Attack A (fun _ => False) users seen' log'
      (fetches ++ [⟨userId, some pin, .ok bundle⟩]) calls := by
  obtain ⟨pin, hpin⟩ := exists_pinningAnchor bundle
  -- the file of pins
  let home := bytes "/home/user"
  have hempty : (Json.obj [] : Json Symbol).Printable ∧ (Json.obj [] : Json Symbol).WF :=
    ⟨trivial, List.Pairwise.nil, trivial⟩
  obtain ⟨text, htext⟩ := exists_knownKeysText hempty.1 userId (validUtf8_pinningAnchor hvalid hpin)
  obtain ⟨known, hparse, hobj, hpins⟩ := parse_knownKeys rfl hempty.2 htext
  have hknown : pinIn known userId = some pin := by rw [hpins, if_pos rfl]
  let fs : Files Bytes Symbol := fun _ => some text
  have hpinned : pinned home fs userId = some pin := by
    rw [pinned, Option.bind_some, hparse, Option.bind_some, hknown]
  -- the response
  let response : Json Symbol := .mkObj [("publicKey", .str bundle)]
  have hwf : response.WF := Json.wf_mkObj (by simp [Json.WF])
  obtain ⟨body, hbody⟩ := Json.exists_dump (j := response) (Json.printable_mkObj (by
    simpa [Json.Printable] using hvalid))
  have hpublic : publicKeyOf body = .ok bundle := by
    rw [publicKeyOf, Json.parse_dump hbody hwf]
    simp +decide [response, Json.get?_norm, Json.get?_mkObj, Json.lookup, Json.norm, Json.str?,
      orJsonError, orThrow]
  let seen' : Set (List Symbol) := insert [] (insert [] seen)
  have hderives : Derives A seen' body := by
    have hsub : seen ⊆ seen' := fun s hs => .inr (.inr hs)
    refine derives_of_all (Json.all_dump (fun b => .bytes [b]) hbody (Json.over_mkObj ?_))
    simpa [Json.Over] using (hbundle.mono subset_rfl subset_rfl hsub).all
  -- the run
  have hfiles : (pinPublicKey home userId bundle).Only fun o : Op Symbol => ∃ f, o = .file f :=
    only_pinPublicKey (fun f _ => ⟨f, rfl⟩) userId bundle
  let client : Client Symbol := ⟨[], [], []⟩
  let path := bytes "/users/" ++ decimal userId.toNat ++ bytes "/public-key"
  let request : HttpRequest Symbol := ⟨bytes "GET", path, [], []⟩
  let log₁ := log ++ [⟨.http request, some ⟨200, body⟩⟩]
  have htotal : ∀ (o : Op Symbol) s, (∃ f, o = .file f) →
      ∃ r s', A.machine (fun _ => False) o s r s' := by
    rintro o ⟨⟨files, server⟩, log⟩ ⟨f, rfl⟩
    exact ⟨_, (⟨_, server⟩, _), ⟨⟨_, .inl ⟨rfl, rfl⟩, rfl⟩, rfl⟩, trivial⟩
  obtain ⟨x, ⟨w, log'⟩, hrun⟩ := hfiles.exists_runs htotal (⟨fs, seen'⟩, log₁)
  have hhome : home ≠ [] := by decide +kernel
  have hagain : (pinPublicKey home userId bundle).Ensures (exec (fun _ => False) A.net) (fun _ => True)
      ⟨fs, seen'⟩ fun x _ => x = .ok bundle :=
    ensures_pinPublicKey_again hhome rfl hparse hobj hknown hpin
  obtain rfl : x = .ok bundle := (ensures_machine hagain).of_runs hrun
  have hget : (getPublicKey client home userId).Runs (A.machine fun _ => False) (⟨fs, seen⟩, log)
      (some (.ok bundle)) (w, log') := by
    have hresponse : ∀ res ∈ some (⟨200, body⟩ : HttpResponse Symbol), Derives A seen' res.body := by
      rintro res ⟨⟩
      exact hderives
    have hhttp : A.machine (fun _ => False) (.http request) (⟨fs, seen⟩, log) (some ⟨200, body⟩)
        (⟨fs, seen'⟩, log₁) := ⟨⟨⟨seen', ⟨rfl, hresponse⟩, rfl⟩, rfl⟩, trivial⟩
    refine .call hhttp ?_
    change (Prog.ofExcept (publicKeyOf body) >>= pinPublicKey home userId).Runs _ _ _ _
    rw [hpublic]
    exact hrun
  have hfetch := Attack.fetch h (.bytes []) hget
  rw [hpinned] at hfetch
  exact ⟨w.server, log', pin, hpin, hfetch⟩

/-- **A user can send a message to another** under the bundle the other published. -/
theorem exists_send {users : Set (LocalIdentityKey Symbol)} (hfinite : A.owns.Finite)
    (hmade : ∀ user ∈ users, user.Made) {sender recipient : LocalIdentityKey Symbol}
    (hsender : sender ∈ users) (hrecipient : recipient ∈ users) (n : Nat) :
    ∃ seen log fetches c, Attack A (fun _ => False) users seen log fetches [c] ∧
      c.payload ∈ seen ∧ c.plaintext = [.text n] ∧
      Publishes c.bundle recipient recipient.oneTimePreKeys ∧
      c.pin.bind anchorFields = some (recipient.publicKey, recipient.signingPublicKey) := by
  -- the bundle of the recipient is fetched with a pin
  obtain ⟨bundle, hpublished, hbundle, hfields⟩ := exists_published (hmade _ hrecipient) hrecipient
  have hvalid : validUtf8 bundle = true := by
    obtain ⟨user, -, j, hj, hdump⟩ := hpublished
    exact Json.validUtf8_dumpWith hdump (wf_publicBundle hj)
  have hstart : Attack A (fun _ => False) users (published users) [] [] [] := .start
  obtain ⟨seen, log, pin, hpin, hfetch⟩ := hstart.exists_fetch (.observe hpublished) hvalid 3
  -- and a message is encrypted under it
  obtain ⟨name, hname, hkey, hnonce⟩ := exists_new_name hfinite log
  obtain ⟨c, hcs, hcp, hcb, -, -, hcr, hcpin, hrun, -⟩ := exists_encryption (hmade _ hsender)
    (hmade _ hrecipient) hbundle [.text n] 1 2 3 (some pin) (fun _ => False) ⟨fun _ => none, seen⟩
    hname hkey hnonce
  have hattack := Attack.send hfetch (hcs ▸ hmade _ hsender) (by rw [hcr, hcpin, hcb]; simp)
    (by rw [hcp]; exact fun a ha => .inl ⟨n, List.mem_singleton.mp ha⟩) hrun
  refine ⟨_, _, _, c, hattack, Set.mem_insert _ _, hcp, hcb ▸ hbundle, ?_⟩
  rw [hcpin, Option.bind_some, anchorFields_pinningAnchor hpin, hfields]

end Kd
