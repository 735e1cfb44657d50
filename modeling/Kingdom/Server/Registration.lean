import Kingdom.Server.BundleHistory
import Kingdom.Server.Reports
import Kingdom.Server.Updates

/-!
# Who acts for a user

A user is registered with a name and the hash of a password, and from then on the table of
users says so.  A token that counts for the user was returned to the signup itself, or to
a login that has posted the same name and a password with this hash.

* `Registering` — what holds when a request calls `createUser`; `registerContract`.
* `Registers` — the step that registers a user; `registered_of_row`, a row of the table has one;
  `registers_unique`, with one name and one hash.
* `records hashOf`, `IdealHashes` — the hashes of a run, each verified by its password only.
* `PostsAccount`, `session_posts` — a request that was answered with a token of the user has
  posted the name and the password.
* `Op.ActsFor`, `acts_with_password` — so whoever acts for a user carries a token that was
  given for the password.
-/

namespace Kds

open Codec Process

variable [Primitives] [FloatFormat] {cfg : Config} {tick : Clock → Clock → Prop}

/-! ## Signing up -/

section Signup

variable {req : Request} {seen : Bytes} {past : Events}

omit [Primitives] in
/-- What holds when a task registers a user: it is a request that has posted the name and
the password, and this is the hash of the password. -/
def Registering (t : Task) (past : Events) : Op → Prop
  | .createUser username hash _ => ∃ req seen password, t = .request req seen ∧
      Posts req Json.str? "username" username ∧ Posts req Json.str? "password" password ∧
      Said past (.hashPassword password) (.ok hash)
  | _ => True

omit [Primitives] in
theorem registering_of_read {t : Task} {o : Op} (h : o.IsRead) : Registering t past o := by
  cases o with
  | createUser => cases h.1
  | _ => trivial

omit [Primitives] in
/-- Nothing is asked of a program that reads. -/
theorem gives_of_reads {t : Task} {α : Type} {p : Server α} (h : p.Only Op.IsRead) :
    Gives cfg tick (fun past o _ => Registering t past o) past p fun _ _ => True :=
  ⟨wp_mono (Prog.wp_of_only h (fun _ _ _ => registering_of_read) past) fun _ _ _ _ _ => trivial⟩

omit [Primitives] in
theorem registering_reply {t : Task} (status : Nat) (j : Json UInt8) :
    Gives cfg tick (fun past o _ => Registering t past o) past (reply status j) fun _ _ => True :=
  gives_reply fun _ _ => trivial

theorem registering_signup : Gives cfg tick (fun past o _ => Registering (.request req seen) past o)
    past (handleSignup_ cfg req) fun _ _ => True := by
  refine Yields.op_bind (fun _ _ => trivial) fun s limited s' _ _ => ?_
  split
  · exact registering_reply _ _
  split
  · exact registering_reply _ _
  rename_i body hbody
  split
  · exact registering_reply _ _
  refine gives_jsonGet fun username husername => gives_jsonGet fun password hpassword =>
    gives_jsonGet fun publicKey _ => ?_
  split
  · exact registering_reply _ _
  split
  · exact registering_reply _ _
  split
  · exact registering_reply _ _
  refine Yields.tryCatch (gives_attempt (gives_perform (fun _ _ => trivial)
    fun s₁ r s₂ _ _ hash hr => ?_)) fun more e => ?_
  · subst hr
    have hposts : Registering (.request req seen) (past ++ [⟨.isRateLimited req.remoteAddr, limited,
        s, s'⟩] ++ [⟨.hashPassword password, .ok hash, s₁, s₂⟩])
        (.createUser username hash publicKey) :=
      ⟨req, seen, password, rfl, ⟨body, hbody, husername⟩, ⟨body, hbody, hpassword⟩,
        said_last _ _ _ s₁ s₂⟩
    refine gives_attempt (gives_perform (fun _ _ => hposts) fun s₃ r s₄ _ _ id hr => ?_)
    refine Yields.bind (gives_of_reads ?_) fun more token _ => registering_reply _ _
    exact Prog.only_bind (only_perform ⟨rfl, by simp⟩) fun _ => Prog.only_ofExcept _
  · cases e with
    | runtimeError what => exact registering_reply _ _
    | jsonError => exact Yields.fail
    | logicError => exact Yields.fail

theorem registering_ok (t : Task) : wp (serverMachine cfg tick) storeShared
    (fun past o _ => Registering t past o) [] (serverProgram cfg t) fun _ _ => True := by
  -- only a signup calls `createUser`
  have hother : (∀ req seen, t = .request req seen →
      endpointOf req.method req.path ≠ some .signup) → wp (serverMachine cfg tick) storeShared
        (fun past o _ => Registering t past o) [] (serverProgram cfg t) fun _ _ => True := by
    intro hroute
    refine wp_mono (wp_weaken ((serverContract cfg tick).prog_ok t) fun past o s hpre => ?_)
      fun _ _ _ => trivial
    cases o with
    | createUser username hash publicKey =>
        cases t with
        | resolver => rcases hpre with ⟨_, hop⟩ | hop | ⟨_, _, hop, -⟩ <;> cases hop
        | request req seen => exact absurd hpre.1 (hroute req seen rfl)
    | _ => trivial
  cases t with
  | resolver => exact hother nofun
  | request req seen =>
      by_cases hroute : endpointOf req.method req.path = some .signup
      · have hserve : Gives cfg tick (fun past o _ => Registering (.request req seen) past o) []
            (serve cfg req seen) fun _ _ => True := by
          refine Yields.bind (gives_of_reads (only_filterChain (fun _ ho => ho) _)) fun more r _ => ?_
          cases r with
          | some e => exact registering_reply _ _
          | none =>
              dsimp only
              rw [route, hroute]
              exact registering_signup
        have hrespond : Gives cfg tick (fun past o _ => Registering (.request req seen) past o) []
            (respond cfg req seen) fun _ _ => True := by
          refine Yields.bind (Yields.tryCatch hserve fun _ _ => Yields.pure trivial)
            fun more res _ => ?_
          split
          · exact Yields.tryCatch (registering_reply _ _) fun _ _ => Yields.pure trivial
          · exact Yields.pure trivial
        have hprogram : Gives cfg tick (fun past o _ => Registering (.request req seen) past o) []
            (serverProgram cfg (.request req seen)) fun _ _ => True :=
          Yields.bind hrespond fun _ _ _ => Yields.pure trivial
        exact wp_mono hprogram.wp fun _ _ _ => trivial
      · refine hother fun req' seen' heq => ?_
        cases heq
        exact hroute

variable (cfg tick) in
/-- The contract of the server, with what is known of a signup. -/
def registerContract : Contract (serverMachine cfg tick) (serverProgram cfg) :=
  (serverContract cfg tick).alsoCalls (fun t past o _ => Registering t past o) registering_ok

end Signup

/-! ## Registered users -/

section Registered

variable {clock : Clock} {tr : ServerTrace} {w w' : ServerSystem} {l : Label Op Res Task}

/-- The step registers the user `u`: its request has posted this name and this password, and
the hash of the password is stored. -/
def Registers (x : ServerSystem × Label Op Res Task) (u : UInt64)
    (username password hash : Bytes) : Prop :=
  ∃ i publicKey th req seen, x.2 = .call i (.createUser username hash publicKey) (.ok u) ∧
    x.1.threads[i]? = some th ∧ th.task = .request req seen ∧
    Posts req Json.str? "username" username ∧ Posts req Json.str? "password" password ∧
    Said th.past (.hashPassword password) (.ok hash)

/-- **Every call of `createUser` that succeeds registers a user.** -/
theorem registers_of_call (h : ServerRun cfg tick ⟨.initial clock, []⟩ tr w) {i : Nat}
    {username hash publicKey : Bytes} {u : UInt64}
    (hstep : ServerStep cfg tick w (.call i (.createUser username hash publicKey) (.ok u)) w') :
    ∃ password, Registers (w, .call i (.createUser username hash publicKey) (.ok u)) u username
      password hash := by
  have hinit : (registerContract cfg tick).inv (.initial clock) := storeInv_empty
  obtain ⟨th, hth, -, hpre, -⟩ :=
    Contract.pre_of_call (Contract.sound_run (Contract.sound_init hinit) h) hstep
  obtain ⟨req, seen, password, htask, husername, hpassword, hsaid⟩ := hpre.2
  exact ⟨password, i, publicKey, th, req, seen, rfl, hth, htask, husername, hpassword, hsaid⟩

/-- A step registers a user, or the table of users is as before but for the bundles. -/
theorem users_step (hdoubt : cfg.inDoubt = false) (h : ServerStep cfg tick w l w') :
    SameUsers w.state.store.users w'.state.store.users ∨
      ∃ i username hash publicKey u, l = .call i (.createUser username hash publicKey) (.ok u) ∧
        w'.state.store.users = w.state.store.users ++ [⟨bigint u, username, hash, publicKey⟩] := by
  cases h with
  | start t => exact .inl (sameUsers_refl _)
  | @call s s' ths i t past o k r hget hexec =>
      rcases exec_store_answered hdoubt hexec with heq | hwrote
      · exact .inl (by rw [heq]; exact sameUsers_refl _)
      · cases hwrote with
        | createUser hc => exact .inr ⟨i, _, _, _, _, rfl, by rw [(createUser_ok hc).2.2]⟩
        | createMessage hc =>
            obtain ⟨t, hconsume, -, -, hstore⟩ := createMessage_ok hc
            rw [hstore]
            exact .inl (consumeForMessage_ok hconsume).2
        | createConversation hc =>
            rw [(createConversation_ok hc).2.2]
            exact .inl (sameUsers_refl _)
        | deleteMessage hd =>
            rw [show s'.store.users = s.store.users from congrArg (fun x => x.2.users) hd.symm]
            exact .inl (sameUsers_refl _)
        | revokeMessageAccess hv =>
            rw [show s'.store.users = s.store.users from congrArg (fun x => x.2.users) hv.symm]
            exact .inl (sameUsers_refl _)
        | updateMessageBlockchainDigest hd =>
            rw [← hd]
            exact .inl (sameUsers_refl _)
  | env henv => cases henv <;> exact .inl (sameUsers_refl _)
  | @restart s s' ths hrestart =>
      rw [show s' = restartServer s from hrestart]
      exact .inl (sameUsers_refl _)

omit [Primitives] [FloatFormat] in
/-- The same rows, in the columns that a signup writes. -/
theorem SameUsers.mem {users users' : List UserRow} (h : SameUsers users users') {row : UserRow}
    (hrow : row ∈ users') : ∃ old ∈ users, old.id = row.id ∧ old.username = row.username ∧
      old.passwordHash = row.passwordHash := by
  have hmem : (row.id, row.username, row.passwordHash) ∈
      users'.map fun u => (u.id, u.username, u.passwordHash) := List.mem_map_of_mem hrow
  rw [show users'.map (fun u => (u.id, u.username, u.passwordHash)) = _ from h] at hmem
  obtain ⟨old, hold, heq⟩ := List.mem_map.mp hmem
  rw [Prod.mk.injEq, Prod.mk.injEq] at heq
  exact ⟨old, hold, heq⟩

/-- **Every row of the table of users was registered by a step of the run.** -/
theorem registered_of_row (hdoubt : cfg.inDoubt = false)
    (h : ServerRun cfg tick ⟨.initial clock, []⟩ tr w) {row : UserRow}
    (hrow : row ∈ w.state.store.users) :
    ∃ x ∈ tr, ∃ u password, bigint u = row.id ∧
      Registers x u row.username password row.passwordHash := by
  induction h generalizing row with
  | nil => cases hrow
  | @snoc tr v l w' hrun hstep ih =>
      have hold : ∀ old ∈ v.state.store.users, ∃ x ∈ tr ++ [(v, l)], ∃ u password,
          bigint u = old.id ∧ Registers x u old.username password old.passwordHash := by
        intro old hmem
        obtain ⟨x, hx, hrest⟩ := ih hmem
        exact ⟨x, List.mem_append_left _ hx, hrest⟩
      rcases users_step hdoubt hstep with hsame | ⟨i, username, hash, publicKey, u, rfl, husers⟩
      · obtain ⟨old, hmem, hid, hname, hhash⟩ := hsame.mem hrow
        rw [← hid, ← hname, ← hhash]
        exact hold old hmem
      · rw [husers] at hrow
        rcases List.mem_append.mp hrow with hrow | hrow
        · exact hold row hrow
        · rw [List.mem_singleton.mp hrow]
          obtain ⟨password, hregisters⟩ := registers_of_call hrun hstep
          exact ⟨_, List.mem_append_right _ List.mem_cons_self, u, password, rfl, hregisters⟩

theorem users_of_register {i : Nat} {username hash publicKey : Bytes} {u : UInt64}
    (h : ServerStep cfg tick w (.call i (.createUser username hash publicKey) (.ok u)) w') :
    w'.state.store.users = w.state.store.users ++ [⟨bigint u, username, hash, publicKey⟩] := by
  cases h with
  | call hget hexec => rw [(createUser_ok (Transaction.of_ok hexec).1).2.2]

/-- A user who was registered has a row, with the name and the hash from the signup. -/
theorem row_of_registered (hdoubt : cfg.inDoubt = false)
    (h : ServerRun cfg tick ⟨.initial clock, []⟩ tr w)
    {x : ServerSystem × Label Op Res Task} (hx : x ∈ tr) {u : UInt64}
    {username password hash : Bytes} (hregisters : Registers x u username password hash) :
    ∃ row ∈ w.state.store.users, row.id = bigint u ∧ row.username = username ∧
      row.passwordHash = hash := by
  induction h with
  | nil => cases hx
  | @snoc tr v l w' hrun hstep ih =>
      rcases List.mem_append.mp hx with hx | hx
      · obtain ⟨row, hrow, hid, hname, hhash⟩ := ih hx
        rcases users_step hdoubt hstep with hsame | ⟨i, name, hash', publicKey, u', -, husers⟩
        · obtain ⟨new, hnew, hid', hname', hhash'⟩ := SameUsers.mem hsame.symm hrow
          exact ⟨new, hnew, hid'.trans hid, hname'.trans hname, hhash'.trans hhash⟩
        · exact ⟨row, husers ▸ List.mem_append_left _ hrow, hid, hname, hhash⟩
      · rw [List.mem_singleton.mp hx] at hregisters
        obtain ⟨i, publicKey, th, req, seen, heq, -⟩ := hregisters
        dsimp only at heq
        subst heq
        exact ⟨_, by rw [users_of_register hstep]; exact List.mem_concat_self, rfl, rfl, rfl⟩

/-- **A user is registered with one name and one hash.** -/
theorem registers_unique (hdoubt : cfg.inDoubt = false)
    (h : ServerRun cfg tick ⟨.initial clock, []⟩ tr w)
    {x y : ServerSystem × Label Op Res Task} (hx : x ∈ tr) (hy : y ∈ tr) {u : UInt64}
    {username password hash username' password' hash' : Bytes}
    (hregisters : Registers x u username password hash)
    (hregisters' : Registers y u username' password' hash') : username = username' ∧ hash = hash' := by
  obtain ⟨row, hrow, hid, rfl, rfl⟩ := row_of_registered hdoubt h hx hregisters
  obtain ⟨row', hrow', hid', rfl, rfl⟩ := row_of_registered hdoubt h hy hregisters'
  have hinv : StoreInv w.state.store := (sound_of_run storeInv_empty h).1
  obtain rfl : row = row' :=
    List.inj_on_of_nodup_map hinv.userIds.nodup hrow hrow' (hid.trans hid'.symm)
  exact ⟨rfl, rfl⟩

end Registered

/-! ## Passwords -/

section Passwords

variable {clock : Clock} {tr : ServerTrace} {w : ServerSystem}

/-- The password that a call hashes, and the hash. -/
def hashOf : (o : Op) → Res o → Option (Bytes × Bytes)
  | .hashPassword password, .ok hash => some (password, hash)
  | _, _ => none

/-- The hashes that are made in the run are verified by their own passwords only. -/
def IdealHashes (tr : ServerTrace) : Prop :=
  ∀ made ∈ records hashOf tr, ∀ password,
    Primitives.pwhashVerify made.2 password = true → password = made.1

omit [FloatFormat] in
theorem IdealHashes.of_part {tr' : ServerTrace} (h : IdealHashes tr) (hpart : tr' <+: tr) :
    IdealHashes tr' := by
  obtain ⟨more, rfl⟩ := hpart
  intro made hmade
  exact h made (by rw [records_append]; exact List.mem_append_left _ hmade)

/-- The hash of a registered user was made from the password of the signup. -/
theorem hashed_of_registers (h : ServerRun cfg tick ⟨.initial clock, []⟩ tr w)
    {x : ServerSystem × Label Op Res Task} (hx : x ∈ tr) {u : UInt64}
    {username password hash : Bytes} (hregisters : Registers x u username password hash) :
    (password, hash) ∈ records hashOf tr := by
  obtain ⟨v, l⟩ := x
  obtain ⟨i, publicKey, th, req, seen, -, hget, -, -, -, s, s', hmem⟩ := hregisters
  obtain ⟨before, after, rfl⟩ := List.append_of_mem hx
  obtain ⟨v', hbefore, -, -⟩ := h.split
  obtain ⟨v₀, i₀, th₀, hcall, -, -, -⟩ := hbefore.event (List.mem_of_getElem? hget) hmem
  have hhash : (password, hash) ∈ records hashOf before := mem_records.mpr ⟨_, hcall, rfl⟩
  rw [records_append]
  exact List.mem_append_left _ hhash

end Passwords

/-! ## Sessions -/

section Sessions

variable {clock : Clock} {tr : ServerTrace} {w w' : ServerSystem}

omit [Primitives] in
/-- A session was opened by a good answer to a signup or to a login. -/
theorem answer_of_session {t : Task} {p : Server (Option Response)} {token : Bytes}
    (h : sessionOf t p = some token) : ∃ req seen res, t = .request req seen ∧ p = .pure (some res) ∧
      Success res ∧ tokenOf res.body = some token ∧
      (endpointOf req.method req.path = some .signup ∨
        endpointOf req.method req.path = some .login) := by
  unfold sessionOf at h
  split at h
  · rename_i req seen res
    split at h
    · rename_i hroute
      split_ifs at h with hstatus
      exact ⟨req, seen, res, rfl, rfl, .inr hstatus, h, .inl hroute⟩
    · rename_i hroute
      split_ifs at h with hstatus
      exact ⟨req, seen, res, rfl, rfl, .inl hstatus, h, .inr hroute⟩
    · cases h
  · cases h

omit [Primitives] [FloatFormat] in
/-- The token in the answer to a signup or a login. -/
theorem token_of_answer (fs : List (String × Json UInt8)) {issued token : Bytes}
    (h : (field (.mkObj (fs ++ [("token", .str issued), ("sessionToken", .str issued)]))
      "token").str? = some token) : issued = token := by
  rw [field, Json.get?_mkObj, List.map_append, List.reverse_append] at h
  simp +decide only [Json.lookup, List.map_cons, List.map_nil, List.reverse_cons, List.reverse_nil,
    List.nil_append, List.cons_append, if_true, if_false, Option.getD_some, Json.str?,
    Option.some.injEq] at h
  exact h

/-- A token verifies for the user it was made for. -/
theorem user_of_token {issuedAt now userId u : UInt64} {username token : Bytes} {payload : Json UInt8}
    (htoken : createSession_ cfg.jwtSecret cfg.jwtTtlSeconds issuedAt userId username = .ok token)
    (hverified : verifiedJwtPayload now token cfg.jwtSecret = .ok (some payload))
    (hu : payloadUserId payload = some u) : u = userId := by
  rw [verifiedJwtPayload_createSession htoken] at hverified
  split_ifs at hverified with hexpired
  · cases hverified
  · cases hverified
    rw [payloadUserId_jwtPayload] at hu
    exact (Option.some.inj hu).symm

/-- The request has posted the name and the password that the user was registered with. -/
def PostsAccount (tr : ServerTrace) (u : UInt64) (t : Task) : Prop :=
  ∃ req seen username password, t = .request req seen ∧
    Posts req Json.str? "username" username ∧ Posts req Json.str? "password" password ∧
    ∃ x ∈ tr, ∃ hash, Registers x u username password hash

omit [Primitives] in
theorem PostsAccount.of_part {tr' : ServerTrace} {u : UInt64} {t : Task}
    (h : PostsAccount tr' u t) (hpart : tr' <+: tr) : PostsAccount tr u t := by
  obtain ⟨req, seen, username, password, ht, husername, hpassword, x, hx, hregisters⟩ := h
  exact ⟨req, seen, username, password, ht, husername, hpassword, x, hpart.subset hx, hregisters⟩

/-- The signup has. -/
theorem posts_of_signup (h : ServerRun cfg tick ⟨.initial clock, []⟩ tr w) {th : ServerThread}
    (hth : th ∈ w.threads) {username hash publicKey : Bytes} {u : UInt64}
    (huser : Said th.past (.createUser username hash publicKey) (.ok u)) :
    PostsAccount tr u th.task := by
  obtain ⟨s, s', hmem⟩ := huser
  obtain ⟨v, i, th₀, hx, -, hget, htask⟩ := h.event hth hmem
  obtain ⟨before, after, rfl⟩ := List.append_of_mem hx
  obtain ⟨v', hbefore, hstep, -⟩ := h.split
  obtain ⟨password, hregisters⟩ := registers_of_call hbefore hstep
  obtain ⟨i', publicKey', th₁, req, seen, hlabel, hget', htask', husername, hpassword, -⟩ :=
    id hregisters
  -- it is the same request
  injection hlabel with hi
  subst hi
  obtain rfl : th₀ = th₁ := Option.some.inj (hget.symm.trans hget')
  exact ⟨req, seen, username, password, htask.symm.trans htask', husername, hpassword, _, hx, hash,
    hregisters⟩

/-- A user that was found has a row. -/
theorem row_of_found {i : Nat} {username : Bytes} {user : User}
    (h : ServerStep cfg tick w (.call i (.getUserByUsername username) (.ok (some user))) w') :
    ∃ row ∈ w.state.store.users, row.id = bigint user.id ∧ row.username = username ∧
      row.passwordHash = user.passwordHash := by
  cases h with
  | call hget hexec =>
      obtain ⟨-, hfound | ⟨what, herror⟩⟩ := hexec
      · obtain ⟨row, hrow, rfl⟩ := Option.map_eq_some_iff.mp (Except.ok.inj hfound).symm
        exact ⟨row, List.mem_of_find?_eq_some hrow, (bigint_toUInt64 _).symm,
          by simpa using List.find?_some hrow, rfl⟩
      · cases herror

/-- A login that was let in has. -/
theorem posts_of_login (hdoubt : cfg.inDoubt = false)
    (h : ServerRun cfg tick ⟨.initial clock, []⟩ tr w) (hideal : IdealHashes tr)
    {req : Request} {seen : Bytes} {past : Events} {p : Server (Option Response)}
    (hth : (⟨.request req seen, past, p⟩ : ServerThread) ∈ w.threads)
    {username password : Bytes} {user : User} (husername : Posts req Json.str? "username" username)
    (hpassword : Posts req Json.str? "password" password)
    (huser : Said past (.getUserByUsername username) (.ok (some user)))
    (hverify : Primitives.pwhashVerify user.passwordHash password = true) :
    PostsAccount tr user.id (.request req seen) := by
  obtain ⟨s, s', hmem⟩ := huser
  obtain ⟨v, i, th, hx, -, -, -⟩ := h.event hth hmem
  obtain ⟨before, after, rfl⟩ := List.append_of_mem hx
  obtain ⟨v', hbefore, hstep, -⟩ := h.split
  obtain ⟨row, hrow, hid, rfl, hhash⟩ := row_of_found hstep
  obtain ⟨x, hxmem, u, registered, hu, hregisters⟩ := registered_of_row hdoubt hbefore hrow
  obtain rfl : u = user.id := bigint_inj.mp (hu.trans hid)
  -- the hash is the one of the signup, so the password is too
  have hmade := hashed_of_registers hbefore hxmem hregisters
  have hbeforeIdeal : IdealHashes before := hideal.of_part (List.prefix_append _ _)
  obtain rfl : password = registered := hbeforeIdeal _ hmade password (by rw [← hverify, hhash])
  exact ⟨req, seen, row.username, password, rfl, husername, hpassword, x,
    List.mem_append_left _ hxmem, row.passwordHash, hregisters⟩

/-- **A token that counts for a user was returned to the user**: to the signup, or to a login
with the password. -/
theorem session_posts (hdoubt : cfg.inDoubt = false)
    (h : ServerRun cfg tick ⟨.initial clock, []⟩ tr w) (hideal : IdealHashes tr)
    {th : ServerThread} (hth : th ∈ w.threads) {token : Bytes}
    (hsession : sessionOf th.task th.prog = some token) {now u : UInt64} {payload : Json UInt8}
    (hverified : verifiedJwtPayload now token cfg.jwtSecret = .ok (some payload))
    (hu : payloadUserId payload = some u) : PostsAccount tr u th.task := by
  obtain ⟨task, past, prog⟩ := th
  obtain ⟨req, seen, res, rfl, rfl, hsuccess, htoken, hroute⟩ := answer_of_session hsession
  obtain ⟨e, he, j, hreported, hdump⟩ := reported_of_done h hth hsuccess
  have hparse := Json.parse_dump hdump hreported.wf
  rw [hreported.norm] at hparse
  rw [tokenOf, hparse, Option.bind_some] at htoken
  cases hreported with
  | signup _ _ _ _ huser _ hcreated =>
      obtain rfl := token_of_answer [_, _, _] htoken
      obtain rfl := user_of_token hcreated hverified hu
      exact posts_of_signup h hth huser
  | login husername hpassword huser hverify _ hcreated =>
      obtain rfl := token_of_answer [_, _] htoken
      obtain rfl := user_of_token hcreated hverified hu
      exact posts_of_login hdoubt h hideal hth husername hpassword huser hverify
  | _ => rcases hroute with hroute | hroute <;> cases he.symm.trans hroute

end Sessions

/-! ## Acting for a user -/

section Acting

variable {clock : Clock} {tr : ServerTrace} {w : ServerSystem}

/-- The call changes what the user has sent. -/
def Op.ActsFor (u : UInt64) : Op → Prop
  | .createMessage _ sender .. => sender = u
  | .deleteMessage _ _ sender => sender = u
  | .revokeMessageAccess _ _ sender .. => sender = u
  | _ => False

/-- Only a request with a token of the user makes such a call. -/
theorem admitted_of_acts {t : Task} {past : Events} {o : Op} {s : ServerState} {u : UInt64}
    (h : Pre cfg t past o s) (hacts : o.ActsFor u) :
    ∃ req seen, t = .request req seen ∧ AdmittedAs cfg req past u := by
  cases t with
  | resolver => rcases h with ⟨_, rfl⟩ | rfl | ⟨_, _, rfl, -⟩ <;> cases hacts
  | request req seen =>
      refine ⟨req, seen, rfl, ?_⟩
      cases o with
      | createMessage => cases hacts; exact h.2.1
      | deleteMessage => cases hacts; exact h.2.1
      | revokeMessageAccess => cases hacts; exact h.2.1
      | _ => cases hacts

/-- **Acting for a user takes the password.**  Whoever creates, deletes or revokes a message of
a user carries a token of the user, and every request that was ever answered with this token
has posted the name and the password that the user was registered with. -/
theorem acts_with_password (hdoubt : cfg.inDoubt = false)
    (h : ServerRun cfg tick ⟨.initial clock, []⟩ tr w)
    (hideal : IdealHashes tr) {v : ServerSystem} {i : Nat} {o : Op} {r : Res o} {u : UInt64}
    (hcall : (v, .call i o r) ∈ tr) (hacts : o.ActsFor u) :
    ∃ th req seen token, v.threads[i]? = some th ∧ th.task = .request req seen ∧
      bearerToken req = some token ∧ Bears cfg req u ∧
      ∀ session, Met tr w session → sessionOf session.task session.prog = some token →
        PostsAccount tr u session.task := by
  obtain ⟨before, after, rfl⟩ := List.append_of_mem hcall
  obtain ⟨v', hbefore, hstep, -⟩ := h.split
  obtain ⟨th, hget, -, hpre, -⟩ := Contract.pre_of_call (sound_of_run storeInv_empty hbefore) hstep
  obtain ⟨req, seen, htask, payload, ⟨token, now, htoken, -, hverified, -⟩, hu⟩ :=
    admitted_of_acts hpre hacts
  refine ⟨th, req, seen, token, hget, htask, htoken, ⟨token, now, payload, htoken, hverified, hu⟩, ?_⟩
  intro session hmet hsession
  obtain ⟨tr', v₀, hrun, hpart, hth⟩ := h.met hmet
  exact (session_posts hdoubt hrun (hideal.of_part hpart) hth hsession hverified hu).of_part hpart

end Acting

/-- Alice signs up, logs in, and posts a message in a conversation. -/
def accountSession : List (Request × Nat) :=
  [(exampleSignup "alice" (bytes "a"), 4),
    (examplePost [] "/login" [("username", .str (bytes "alice")),
      ("password", .str (bytes "Password12345"))], 3),
    (examplePost aliceToken "/conversations" [("name", .str (bytes "team")),
      ("participantIds", .arr [.unsigned 1])], 6),
    (examplePost aliceToken "/conversations/1/messages" [("senderId", .unsigned 1),
      ("payload", .str (bytes "note"))], 12)]

/-- The token that a request carries. -/
def bearerOf : Task → Option Bytes
  | .request req _ => bearerToken req
  | .resolver => none

/-- The sender of the message that the step creates, and the token of its request. -/
def postedBy (x : ServerSystem × Label Op Res Task) : Option (UInt64 × Bytes) :=
  match x.2 with
  | .call i (.createMessage _ sender ..) _ =>
      (x.1.threads[i]?.bind fun th => bearerOf th.task).map (sender, ·)
  | _ => none

omit [Primitives] [FloatFormat] in
/-- What the session does: it posts with her token, hashes her password and answers two requests
with the token. -/
theorem accountSession_eval : letI := plainFloats;
    (requestRun accountSession).1.any (fun x => postedBy x = some (1, aliceToken)) = true ∧
      records hashOf (requestRun accountSession).1 =
        [(bytes "Password12345", bytes "Password12345")] ∧
      ((requestRun accountSession).2.threads.take 2).map (fun th => sessionOf th.task th.prog) =
        [some aliceToken, some aliceToken] := by
  decide +kernel

omit [Primitives] [FloatFormat] in
/-- Both requests that were answered with the token of the post have posted her password. -/
theorem acts_with_password_example : letI := loginPrimitives; letI := plainFloats;
    ∃ tr w, ServerRun exampleConfig (· ≤ ·) ⟨.initial 1000000, []⟩ tr w ∧
      (∃ x ∈ tr, x.2.IsCall fun o _ => o.ActsFor 1) ∧
      (w.threads.take 2).map (fun th => sessionOf th.task th.prog) =
        [some aliceToken, some aliceToken] ∧
      ∀ th ∈ w.threads.take 2, PostsAccount tr 1 th.task := by
  obtain ⟨hpost, hhashes, hsessions⟩ := accountSession_eval
  let := loginPrimitives
  let := plainFloats
  have hideal : IdealHashes (requestRun accountSession).1 := by
    intro made hmade password hverify
    rw [hhashes, List.mem_singleton] at hmade
    subst hmade
    exact (eq_of_beq hverify).symm
  obtain ⟨⟨v, l⟩, hx, hcheck⟩ := List.any_eq_true.mp hpost
  have hposted : postedBy (v, l) = some (1, aliceToken) := of_decide_eq_true hcheck
  unfold postedBy at hposted
  split at hposted
  · rename_i i c sender payload timestamp recipient preKey r hl
    obtain ⟨bearer, hbearer, hpair⟩ := Option.map_eq_some_iff.mp hposted
    cases hl
    cases hpair
    obtain ⟨th, req, seen, token, hget, htask, htoken, -, hposts⟩ :=
      acts_with_password rfl (run_requestRun accountSession) hideal hx rfl
    rw [hget, Option.bind_some, htask] at hbearer
    obtain rfl : token = aliceToken := Option.some.inj (htoken.symm.trans hbearer)
    refine ⟨_, _, run_requestRun accountSession, ⟨_, hx, rfl⟩, hsessions, ?_⟩
    intro session hmem
    refine hposts session (.inl (List.mem_of_mem_take hmem)) ?_
    have hsession := List.mem_map_of_mem (f := fun th : ServerThread => sessionOf th.task th.prog) hmem
    rw [hsessions] at hsession
    simpa using hsession
  · cases hposted

end Kds
