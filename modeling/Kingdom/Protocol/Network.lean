import Kingdom.Client.Requests
import Kingdom.Server.Reports
import Kingdom.Server.Updates

/-!
# The network between the library and the server

A request that the client library sends is one of the requests that the server works on.
The server reads the paths and the bodies that the library writes, and when it answers 200
or 201 the library has what the call behind the answer returned.

* `received` — a request of the library as the server sees it.
* `Serving`, `online` — a server behind the network, with the run it has made.
* `endpointOf_…`, `fields_…` — the server reads the paths and bodies that the library writes.
* `progress_of_runs` — the server meanwhile.
* `Fulfilled`, `ensures_request` — what the library knows of a request that succeeded.
* `online_of_serveOne`, `exists_runs_once`, `runs_request` — a request that goes through.
-/

namespace Protocol

open Codec Process Kds

/-! ## The network -/

/-- A request of the library as the server sees it. -/
def received (req : Kd.HttpRequest UInt8) (addr : Kds.Bytes) : Request where
  method := req.method
  path := req.path
  authorization := if req.authToken = [] then [] else bytes "Bearer " ++ req.authToken
  contentType := if req.method = bytes "POST" then bytes "application/json" else []
  remoteAddr := addr
  body := req.body

/-- A server behind the network: the run it has made, and where that has left it. -/
structure Serving where
  trace : ServerTrace
  system : ServerSystem

section Network

variable [Primitives] [FloatFormat] (cfg : Config) (tick : Clock → Clock → Prop)

/-- The server has been started with an empty store. -/
def Serving.Reached (n : Serving) : Prop :=
  ∃ clock, ServerRun cfg tick ⟨.initial clock, []⟩ n.trace n.system

variable {cfg tick} in
theorem Serving.exists_reached {clock : Clock} {tr : ServerTrace} {s : ServerState}
    {ths : List ServerThread} (h : ServerRun cfg tick ⟨.initial clock, []⟩ tr ⟨s, ths⟩) :
    ∃ n : Serving, n.system.state = s ∧ n.Reached cfg tick :=
  ⟨⟨tr, ⟨s, ths⟩⟩, rfl, clock, h⟩

/-- In this part of its run the server has received the request, from some address, has made
these calls for it and has answered it. -/
def Handled (w : ServerSystem) (tr : ServerTrace) (w' : ServerSystem)
    (req : Kd.HttpRequest UInt8) (calls : CallLog Op Res) (res : Kd.HttpResponse UInt8) : Prop :=
  ∃ addr seen, Served (serverMachine cfg tick) (serverProgram cfg) w tr w'
    (.request (received req addr) seen) calls (some ⟨res.status, res.body⟩)

/-- The network: the server works on, for any clients; when there is a response, the server
has handled the request meanwhile. -/
def online (req : Kd.HttpRequest UInt8) (n : Serving) (r : Option (Kd.HttpResponse UInt8))
    (n' : Serving) : Prop :=
  ∃ tr, n'.trace = n.trace ++ tr ∧ ServerRun cfg tick n.system tr n'.system ∧
    ∀ res ∈ r, ∃ calls, Handled cfg tick n.system tr n'.system req calls res

/-- The token verifies, for this user. -/
def Belongs (token : Kds.Bytes) (u : UInt64) : Prop :=
  ∃ now payload, verifiedJwtPayload now token cfg.jwtSecret = .ok (some payload) ∧
    payloadUserId payload = some u

end Network

/-! ## Paths -/

section Paths

/-- An id in a path. -/
abbrev idPart (id : UInt64) : Kds.Bytes := decimal id.toNat

theorem isDigits_idPart (id : UInt64) : isDigits (idPart id) = true := by
  unfold isDigits
  simp only [decide_eq_true_eq, Bool.decide_and, Bool.and_eq_true]
  exact ⟨decimal_ne_nil _, List.all_eq_true.mpr (isDigit_decimal _)⟩

theorem parseId_idPart (id : UInt64) : parseId (idPart id) = some id := by
  rw [parseId, idPart, fromChars_decimal id.toNat_lt, UInt64.ofNat_toNat]

theorem slash_notMem_idPart (id : UInt64) : (0x2F : UInt8) ∉ idPart id := by
  intro h
  exact absurd (isDigit_decimal _ _ h) (by decide)

/-- A path of these parts. -/
def pathOf (parts : List Kds.Bytes) : Kds.Bytes := parts.flatMap fun part => 0x2F :: part

theorem pathParts_pathOf {part : Kds.Bytes} {parts : List Kds.Bytes} :
    (∀ p ∈ part :: parts, (0x2F : UInt8) ∉ p) →
      pathParts (part ++ pathOf parts) = part :: parts := by
  induction parts generalizing part with
  | nil =>
      intro h
      simpa [pathOf, pathParts] using List.splitOn_eq_singleton (h part (by simp))
  | cons next rest ih =>
      intro h
      have hpath : part ++ pathOf (next :: rest) = part ++ 0x2F :: (next ++ pathOf rest) := by
        simp [pathOf]
      rw [hpath, pathParts, List.splitOn_append_cons_self_of_not_mem (h part (by simp)), ← pathParts,
        ih fun p hp => h p (List.mem_cons_of_mem _ hp)]

theorem conversationsPath_eq (u : UInt64) :
    Kd.conversationsPath u = pathOf [bytes "users", idPart u, bytes "conversations"] := by
  have h : bytes "/users/" = 0x2F :: (bytes "users" ++ [0x2F]) := by decide
  have h' : bytes "/conversations" = 0x2F :: bytes "conversations" := by decide
  simp [Kd.conversationsPath, pathOf, h, h']

theorem conversationPath_eq (c : UInt64) (rest : List Kds.Bytes) :
    bytes "/conversations/" ++ idPart c ++ bytes "/messages" ++ pathOf rest =
      pathOf (bytes "conversations" :: idPart c :: bytes "messages" :: rest) := by
  have h : bytes "/conversations/" = 0x2F :: (bytes "conversations" ++ [0x2F]) := by decide
  have h' : bytes "/messages" = 0x2F :: bytes "messages" := by decide
  simp [pathOf, h, h']

theorem messagesPath_eq (c : UInt64) :
    Kd.messagesPath c = pathOf [bytes "conversations", idPart c, bytes "messages"] := by
  simpa [pathOf, Kd.messagesPath] using conversationPath_eq c []

theorem messagePath_eq (c m : UInt64) : Kd.messagePath c m =
    pathOf [bytes "conversations", idPart c, bytes "messages", idPart m] := by
  have h : bytes "/messages/" = bytes "/messages" ++ [0x2F] := by decide
  rw [← conversationPath_eq, Kd.messagePath, h]
  simp [pathOf]

theorem accessPath_eq (c m u : UInt64) : Kd.accessPath c m u = pathOf
    [bytes "conversations", idPart c, bytes "messages", idPart m, bytes "access", idPart u] := by
  have h : bytes "/messages/" = bytes "/messages" ++ [0x2F] := by decide
  have h' : bytes "/access/" = 0x2F :: (bytes "access" ++ [0x2F]) := by decide
  rw [← conversationPath_eq, Kd.accessPath, h, h']
  simp [pathOf]

theorem publicKeyPath_eq (u : UInt64) : bytes "/users/" ++ decimal u.toNat ++ bytes "/public-key" =
    pathOf [bytes "users", idPart u, bytes "public-key"] := by
  have h : bytes "/users/" = 0x2F :: (bytes "users" ++ [0x2F]) := by decide
  have h' : bytes "/public-key" = 0x2F :: bytes "public-key" := by decide
  simp [pathOf, h, h']

/-- The parts of a path whose parts hold no slash. -/
theorem pathParts_of {path : Kds.Bytes} {parts : List Kds.Bytes} (hpath : path = pathOf parts)
    (h : ∀ p ∈ parts, (0x2F : UInt8) ∉ p) : pathParts path = [] :: parts := by
  rw [hpath]
  refine @pathParts_pathOf [] _ fun p hp => ?_
  rcases List.mem_cons.mp hp with rfl | hp
  · exact List.not_mem_nil
  · exact h p hp

theorem endpointOf_conversations (u : UInt64) :
    endpointOf (bytes "GET") (Kd.conversationsPath u) = some (.listUserConversations (idPart u)) := by
  rw [endpointOf, if_neg (by decide), if_neg (by decide), if_pos (by decide),
    pathParts_of (conversationsPath_eq u) (by simp +decide [slash_notMem_idPart u])]
  simp +decide [getRoute, isDigits_idPart]

theorem endpointOf_messages (c : UInt64) :
    endpointOf (bytes "GET") (Kd.messagesPath c) = some (.listConversationMessages (idPart c)) := by
  rw [endpointOf, if_neg (by decide), if_neg (by decide), if_pos (by decide),
    pathParts_of (messagesPath_eq c) (by simp +decide [slash_notMem_idPart c])]
  simp +decide [getRoute, isDigits_idPart]

theorem endpointOf_createMessage (c : UInt64) :
    endpointOf (bytes "POST") (Kd.messagesPath c) = some (.createMessage (idPart c)) := by
  rw [endpointOf, if_pos rfl,
    pathParts_of (messagesPath_eq c) (by simp +decide [slash_notMem_idPart c])]
  simp [postRoute, isDigits_idPart]

theorem endpointOf_deleteMessage (c m : UInt64) :
    endpointOf (bytes "DELETE") (Kd.messagePath c m) =
      some (.deleteMessage (idPart c) (idPart m)) := by
  rw [endpointOf, if_neg (by decide), if_pos rfl, pathParts_of (messagePath_eq c m)
    (by simp +decide [slash_notMem_idPart c, slash_notMem_idPart m])]
  simp [deleteRoute, isDigits_idPart]

theorem endpointOf_revokeMessageAccess (c m u : UInt64) :
    endpointOf (bytes "DELETE") (Kd.accessPath c m u) =
      some (.revokeMessageAccess (idPart c) (idPart m) (idPart u)) := by
  rw [endpointOf, if_neg (by decide), if_pos rfl, pathParts_of (accessPath_eq c m u)
    (by simp +decide [slash_notMem_idPart c, slash_notMem_idPart m, slash_notMem_idPart u])]
  simp [deleteRoute, isDigits_idPart]

theorem endpointOf_publicKey (u : UInt64) :
    endpointOf (bytes "GET") (bytes "/users/" ++ decimal u.toNat ++ bytes "/public-key") =
      some (.publicKey (idPart u)) := by
  rw [endpointOf, if_neg (by decide), if_neg (by decide), if_pos (by decide),
    pathParts_of (publicKeyPath_eq u) (by simp +decide [slash_notMem_idPart u])]
  simp +decide [getRoute, isDigits_idPart]

end Paths

/-! ## Bodies -/

section Bodies

variable [FloatFormat]

/-- The server reads what the library has posted. -/
theorem posts_of_dump {β : Type} {get : Json UInt8 → Option β} {key : String} {b : β}
    {body : Json UInt8} {req : Request} (hwf : body.WF) (hdump : body.dump = some req.body) :
    Posts req get key b ↔ get (field body.norm key) = some b := by
  have hparse := Json.parse_dump hdump hwf
  constructor
  · rintro ⟨body', hbody', hget⟩
    cases hparse.symm.trans hbody'
    exact hget
  · exact fun h => ⟨_, hparse, h⟩

theorem idsOf_unsigned (ids : List UInt64) :
    idsOf (.arr (Json.normElems (ids.map Json.unsigned))) = some ids := by
  have hmap : ∀ xs : List UInt64, (xs.map Json.unsigned).mapM
      (Json.uint64? (α := UInt8)) = some xs := by
    intro xs
    induction xs with
    | nil => rfl
    | cons x xs ih =>
        rw [List.map_cons, List.mapM_cons, ih]
        rfl
  rw [Json.normElems_eq_map, List.map_map]
  exact hmap ids

/-- The fields of a message that the library posts for one recipient. -/
theorem fields_sendMessage {senderId recipientId : UInt64} {payload text : Kds.Bytes}
    {f : MessageFields} (hdump : (Json.mkObj [("senderId", .unsigned senderId),
      ("recipientId", .unsigned recipientId), ("payload", .str payload)]).dump = some text)
    (h : f.Of text) : f = ⟨senderId, payload, some recipientId⟩ := by
  obtain ⟨j, hj, hsender, hpayload, hrecipient⟩ := h
  cases (Json.parse_dump hdump (Json.wf_mkObj (by simp [Json.WF]))).symm.trans hj
  simp +decide only [field, Json.norm_mkObj, Json.norm, Json.get?_mkObj, Json.lookup,
    List.map_cons, List.map_nil, List.reverse_cons, List.reverse_nil, List.nil_append,
    List.cons_append, if_true, if_false, Option.getD_some] at hsender hpayload hrecipient
  obtain ⟨sender, p, r⟩ := f
  cases hsender
  cases hpayload
  rcases hrecipient with ⟨hnull, -⟩ | ⟨-, id, hid, rfl⟩
  · cases hnull
  · cases hid
    rfl

/-- Those of a message that it posts for all participants. -/
theorem fields_sendMessageToAll {senderId : UInt64} {payload text : Kds.Bytes} {f : MessageFields}
    (hdump : (Json.mkObj [("senderId", .unsigned senderId), ("payload", .str payload)]).dump =
      some text) (h : f.Of text) : f = ⟨senderId, payload, none⟩ := by
  obtain ⟨j, hj, hsender, hpayload, hrecipient⟩ := h
  cases (Json.parse_dump hdump (Json.wf_mkObj (by simp [Json.WF]))).symm.trans hj
  simp +decide only [field, Json.norm_mkObj, Json.norm, Json.get?_mkObj, Json.lookup,
    List.map_cons, List.map_nil, List.reverse_cons, List.reverse_nil, List.nil_append,
    List.cons_append, if_true, if_false, Option.getD_some,
    Option.getD_none] at hsender hpayload hrecipient
  obtain ⟨sender, p, r⟩ := f
  cases hsender
  cases hpayload
  rcases hrecipient with ⟨-, rfl⟩ | ⟨hnull, -⟩
  · rfl
  · cases hnull

omit [FloatFormat] in
/-- The token in the header is the one the library has sent. -/
theorem bearerToken_received {req : Kd.HttpRequest UInt8} {addr token : Kds.Bytes}
    (h : bearerToken (received req addr) = some token) :
    req.authToken ≠ [] ∧ req.authToken = token := by
  unfold bearerToken received at h
  by_cases hempty : req.authToken = []
  · simp [hempty] at h
  · simp only [hempty, if_false] at h
    split at h
    · cases h
    · simp only [List.drop_left', Option.some.injEq] at h
      exact ⟨hempty, h⟩

theorem belongs_of_bears [Primitives] {cfg : Config} {req : Kd.HttpRequest UInt8} {addr : Kds.Bytes}
    {u : UInt64}
    (h : Bears cfg (received req addr) u) : Belongs cfg req.authToken u := by
  obtain ⟨token, now, payload, htoken, hverified, hu⟩ := h
  obtain ⟨-, rfl⟩ := bearerToken_received htoken
  exact ⟨now, payload, hverified, hu⟩

end Bodies

/-! ## Requests that succeed -/

section Requests

variable [Primitives] [FloatFormat] {cfg : Config} {tick : Clock → Clock → Prop}
  {mayFail : Storage.FileOp Kds.Bytes UInt8 → Prop} {w : Kd.World UInt8 Serving}

/-- Whatever the client does, the server only works on. -/
theorem progress_of_runs {β : Type} {p : Kd.Action UInt8 β} {w' : Kd.World UInt8 Serving}
    {x : Option (Except Kd.Exn β)} (h : p.Runs (Kd.exec mayFail (online cfg tick)) w x w') :
    ∃ tr, w'.server.trace = w.server.trace ++ tr ∧
      ServerRun cfg tick w.server.system tr w'.server.system := by
  refine h.keeps (I := fun v => ∃ tr, v.server.trace = w.server.trace ++ tr ∧
    ServerRun cfg tick w.server.system tr v.server.system) (fun o s r s' hs hexec => ?_)
    ⟨[], (List.append_nil _).symm, .nil _⟩
  cases o with
  | http req =>
      obtain ⟨n, ⟨tr', htrace', hrun', -⟩, rfl⟩ := hexec
      obtain ⟨tr, htrace, hrun⟩ := hs
      exact ⟨tr ++ tr', by rw [htrace', htrace, List.append_assoc], hrun.append hrun'⟩
  | file f =>
      obtain ⟨fs, -, rfl⟩ := hexec
      exact hs
  | _ => rwa [hexec.2]

/-- None of the calls changes anything. -/
def OnlyReads (calls : CallLog Op Res) : Prop := ∀ c ∈ calls, c.1.IsRead

/-- What is known of a request that the server has answered well. -/
structure Fulfilled (cfg : Config) (req : Kd.HttpRequest UInt8) (calls : CallLog Op Res)
    (j : Json UInt8) : Prop where
  once : (updates calls).length ≤ 1
  reads : (∀ e, endpointOf req.method req.path = some e → e.ReadsOnly) → OnlyReads calls
  logout : endpointOf req.method req.path = some .logout → ∀ c ∈ calls, c.1.IsRead ∨
    req.authToken ≠ [] ∧ c.1 = .revoke req.authToken
  reported : ∃ addr e, endpointOf req.method req.path = some e ∧
    Reported cfg (received req addr) (fun o r => ⟨o, r⟩ ∈ calls) e j

theorem fulfilled_of_handled {n : Serving} {tr : ServerTrace} {v : ServerSystem}
    (hn : n.Reached cfg tick) {req : Kd.HttpRequest UInt8} {calls : CallLog Op Res}
    {res : Kd.HttpResponse UInt8} (h : Handled cfg tick n.system tr v req calls res)
    (hok : res.status = 200 ∨ res.status = 201) {j : Json UInt8} (hj : Json.parse res.body = some j) :
    Fulfilled cfg req calls j := by
  obtain ⟨clock, hrun⟩ := hn
  obtain ⟨addr, seen, hserved⟩ := h
  have hwhole := hrun.append hserved.1
  obtain ⟨past, rfl, hth⟩ := hserved.done
  obtain ⟨e, he, j', hreported, hdump⟩ := reported_of_done hwhole hth hok
  have hparse := Json.parse_dump hdump hreported.wf
  rw [hreported.norm] at hparse
  cases hparse.symm.trans hj
  refine ⟨updates_once storeInv_empty hwhole _ hth, fun hreadsOnly c hc => ?_, fun hroute c hc => ?_,
    addr, e, he, hreported.mono fun o r hsaid => said_iff_mem_callLog.mp hsaid⟩
  · obtain ⟨-, hreads⟩ := Run.only (only_reads hreadsOnly seen) hwhole _ hth rfl
    obtain ⟨ev, hev, rfl⟩ := List.mem_map.mp hc
    exact hreads ev hev
  · have hlogout : endpointOf (received req addr).method (received req addr).path = some .logout :=
      hroute
    obtain ⟨-, hcalls⟩ := Run.only (only_logout hlogout seen) hwhole _ hth rfl
    obtain ⟨ev, hev, rfl⟩ := List.mem_map.mp hc
    refine (hcalls ev hev).imp_right ?_
    rintro ⟨token, htoken, hop⟩
    obtain ⟨hne, rfl⟩ := bearerToken_received htoken
    exact ⟨hne, hop⟩

/-- One request of the library. -/
theorem ensures_request {client : Kd.Client UInt8} {expected : List Nat}
    {req : Kd.HttpRequest UInt8} :
    (Kd.request client expected req).Ensures (Kd.exec mayFail (online cfg tick)) (fun _ => True) w
      fun x v => v.files = w.files ∧ ∀ j, x = .ok j → ∃ tr calls res,
        v.server.trace = w.server.trace ++ tr ∧
          Handled cfg tick w.server.system tr v.server.system req calls res ∧
            res.status ∈ expected ∧ Json.parse res.body = some j := by
  rw [Kd.request, Prog.ensures_bind, Kd.ensures_http]
  refine ⟨trivial, fun r n hnet => ⟨trivial, ?_⟩⟩
  obtain ⟨tr, htrace, hrun, hhandled⟩ := hnet
  cases r with
  | none => exact ⟨trivial, rfl, nofun⟩
  | some res =>
      obtain ⟨calls, hhandled⟩ := hhandled res rfl
      dsimp only
      split
      · rename_i hstatus
        rw [Prog.ensures_ofExcept]
        exact ⟨trivial, rfl, fun j hj => ⟨tr, calls, res, htrace, hhandled, hstatus,
          Kd.orJsonError_ok.mp hj⟩⟩
      · exact ⟨trivial, rfl, nofun⟩

end Requests

/-! ## Requests that go through -/

section Answers

variable [Primitives] [FloatFormat] {cfg : Config} {tick : Clock → Clock → Prop}

/-- A server that works on nothing else answers what its program computes. -/
theorem online_of_serveOne {n : Serving} {req : Kd.HttpRequest UInt8} {res : Response}
    (h : (serveOne cfg n.system.state (received req [])).1 = some res) :
    ∃ n', online cfg tick req n (some ⟨res.status, res.body⟩) n' ∧
      n'.system.state = (serveOne cfg n.system.state (received req [])).2 := by
  let task : Task := .request (received req []) req.body
  have hresult : ((serverProgram cfg task).eval (answer cfg) n.system.state).1.toOption.join =
      some res := h
  have hok : ((serverProgram cfg task).eval (answer cfg) n.system.state).1 = .ok (some res) := by
    cases hr : ((serverProgram cfg task).eval (answer cfg) n.system.state).1 with
    | error e =>
        rw [hr] at hresult
        cases hresult
    | ok r =>
        rw [hr] at hresult
        exact congrArg Except.ok hresult
  obtain ⟨tr, v, hserved, hstate⟩ := Process.Served.eval (M := serverMachine cfg tick)
    (exec_answer cfg) task n.system.state n.system.threads hok
  refine ⟨⟨n.trace ++ tr, v⟩, ⟨tr, rfl, hserved.1, ?_⟩, hstate⟩
  rintro _ ⟨⟩
  exact ⟨_, [], req.body, hserved⟩

/-- A network that answers one request, once. -/
def answersOnce (req : Kd.HttpRequest UInt8) (n : Serving) (res : Kd.HttpResponse UInt8)
    (n' : Serving) (req' : Kd.HttpRequest UInt8) (m : Serving) (r : Option (Kd.HttpResponse UInt8))
    (m' : Serving) : Prop :=
  (req' = req ∧ m = n → r = some res ∧ m' = n') ∧ (¬ (req' = req ∧ m = n) → r = none ∧ m' = m)

/-- A program runs on when the server answers one request of it. -/
theorem exists_runs_once {n n' : Serving} {req : Kd.HttpRequest UInt8} {res : Kd.HttpResponse UInt8}
    (h : online cfg tick req n (some res) n') {β : Type} (p : Kd.Action UInt8 β)
    (files : Storage.Files Kds.Bytes UInt8) : ∃ x w,
      p.Runs (Kd.exec (fun _ => False) (answersOnce req n res n')) ⟨files, n⟩ (some x) w ∧
        p.Runs (Kd.exec (fun _ => False) (online cfg tick)) ⟨files, n⟩ (some x) w ∧
          (w.server = n ∨ w.server = n') := by
  have htotal : ∀ (o : Kd.Op UInt8) (w : Kd.World UInt8 Serving),
      ∃ r w', Kd.exec (fun _ => False) (answersOnce req n res n') o w r w' := by
    intro o w
    cases o with
    | http req' =>
        by_cases hreq : req' = req ∧ w.server = n
        · exact ⟨some res, _, n', ⟨fun _ => ⟨rfl, rfl⟩, fun hno => absurd hreq hno⟩, rfl⟩
        · exact ⟨none, _, w.server, ⟨fun hyes => absurd hyes hreq, fun _ => ⟨rfl, rfl⟩⟩, rfl⟩
    | file f => exact ⟨_, _, _, .inl ⟨rfl, rfl⟩, rfl⟩
    | random k => exact ⟨List.replicate k 0, _, List.length_replicate, rfl⟩
    | boxKeypair => exact ⟨List.replicate 32 0, _, List.length_replicate, rfl⟩
    | signKeypair => exact ⟨List.replicate 64 0, _, List.length_replicate, rfl⟩
  obtain ⟨x, w, hrun⟩ := Prog.exists_runs htotal p ⟨files, n⟩
  refine ⟨x, w, hrun, hrun.of_le fun o s r s' hexec => ?_, ?_⟩
  · cases o with
    | http req' =>
        obtain ⟨m, ⟨hyes, hno⟩, rfl⟩ := hexec
        by_cases hreq : req' = req ∧ s.server = n
        · obtain ⟨rfl, rfl⟩ := hyes hreq
          obtain ⟨rfl, hs⟩ := hreq
          exact ⟨_, hs ▸ h, rfl⟩
        · obtain ⟨rfl, rfl⟩ := hno hreq
          exact ⟨_, ⟨[], (List.append_nil _).symm, .nil _, nofun⟩, rfl⟩
    | _ => exact hexec
  · refine hrun.keeps (I := fun w => w.server = n ∨ w.server = n') (fun o s r s' hs hexec => ?_)
      (.inl rfl)
    cases o with
    | http req' =>
        obtain ⟨m, ⟨hyes, hno⟩, rfl⟩ := hexec
        by_cases hreq : req' = req ∧ s.server = n
        · exact .inr (hyes hreq).2
        · obtain ⟨-, rfl⟩ := hno hreq
          exact hs
    | file f =>
        obtain ⟨fs, -, rfl⟩ := hexec
        exact hs
    | _ => rwa [hexec.2]

/-- A response of a status that is expected is returned. -/
theorem runs_request {mayFail : Storage.FileOp Kds.Bytes UInt8 → Prop} {client : Kd.Client UInt8}
    {expected : List Nat} {req : Kd.HttpRequest UInt8} {n n' : Serving}
    {res : Kd.HttpResponse UInt8} {files : Storage.Files Kds.Bytes UInt8} {j : Json UInt8}
    (h : online cfg tick req n (some res) n') (hstatus : res.status ∈ expected)
    (hj : Json.parse res.body = some j) :
    (Kd.request client expected req).Runs (Kd.exec mayFail (online cfg tick)) ⟨files, n⟩
      (some (.ok j)) ⟨files, n'⟩ := by
  refine .call ⟨n', h, rfl⟩ ?_
  simp only [Prog.bind, hstatus, if_true, hj]
  exact .pure

end Answers

end Protocol
