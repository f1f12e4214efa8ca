import SimpleDfs.Mserv.Attempts

/-!
Contract: what the handlers of a meta server do to the book of its attempts.

Owns: `Ledger`, its entries, and the entries that a request and the end of a
call make.

Does not own: any property of a run.
-/

set_option autoImplicit false

namespace SimpleDfs.Mserv

open SimpleDfs.Library

/-! ## What is sent -/

section

variable {Name : Type}

/-- The calls to some peers for a request. -/
def callsTo (request : Nat) (callback : CreateCallback) (fname : Name) (peers : List CreatePeer) :
    List (RpcCall Name) :=
  peers.map fun peer =>
    { request := request, peer := peer, callback := callback, fname := fname, ending := none }

/-- The calls that one body starts. -/
theorem sendAll_calls (server : CreateServer Name) (peers : List CreatePeer)
    {body : CreateBody Name} {callback : CreateCallback} {fname : Name}
    (isCall : body.call = some (callback, fname)) (request : Nat) :
    (server.sendAll peers body).out.filterMap (rpcCallOf request) =
      server.out.filterMap (rpcCallOf request) ++ callsTo request callback fname peers := by
  unfold CreateServer.sendAll callsTo
  dsimp only
  rw [List.filterMap_append, List.filterMap_map, ← List.filterMap_eq_map]
  congr 2
  funext peer
  unfold Function.comp rpcCallOf
  dsimp only
  rw [isCall]
  rfl

theorem sendAll_noCalls (server : CreateServer Name) (peers : List CreatePeer)
    {body : CreateBody Name} (noCall : body.call = none) (request : Nat) :
    (server.sendAll peers body).out.filterMap (rpcCallOf request) =
      server.out.filterMap (rpcCallOf request) := by
  unfold CreateServer.sendAll
  dsimp only
  rw [List.filterMap_append, List.filterMap_map]
  refine (congrArg (_ ++ ·) (List.filterMap_eq_nil_iff.mpr ?_)).trans (List.append_nil _)
  intro peer _
  unfold Function.comp rpcCallOf
  dsimp only
  rw [noCall]
  rfl

theorem sendAll_noReplies (server : CreateServer Name) (peers : List CreatePeer)
    {body : CreateBody Name} (noReply : ∀ reqId md, body ≠ .created reqId md) (request : Nat) :
    (server.sendAll peers body).out.filterMap (clientReplyOf request) =
      server.out.filterMap (clientReplyOf request) := by
  unfold CreateServer.sendAll
  dsimp only
  rw [List.filterMap_append, List.filterMap_map]
  refine (congrArg (_ ++ ·) (List.filterMap_eq_nil_iff.mpr ?_)).trans (List.append_nil _)
  intro peer _
  unfold Function.comp clientReplyOf
  dsimp only
  split
  next => exact absurd rfl (noReply _ _)
  next => rfl

end

/-! ## The book -/

/-- The attempts: the history of the world and the records of
`file_creating`. -/
structure Ledger (Name : Type) where
  requests : List (ClientRequest Name)
  owner : Name → Nat
  records : Name → Option Creating
  calls : List (RpcCall Name)
  icreated : List Nat
  replies : List (ClientReply Name)

section

variable {Name : Type} [DecidableEq Name]

def AttemptWorld.ledger (world : AttemptWorld Name) : Ledger Name where
  requests := world.requests
  owner := world.owner
  records := world.server.fileCreating
  calls := world.calls
  icreated := world.icreated
  replies := world.replies

namespace Ledger

/-- A request arrives. -/
def arrive (ledger : Ledger Name) (request : ClientRequest Name) : Ledger Name :=
  { ledger with requests := ledger.requests ++ [request] }

/-- A client is told, if it is connected. -/
def tell (ledger : Ledger Name) (connected : Bool) (reply : ClientReply Name) : Ledger Name :=
  { ledger with replies := ledger.replies ++ if connected then [reply] else [] }

/-- A request becomes an attempt and asks some peers. -/
def openAttempt (ledger : Ledger Name) (request : ClientRequest Name) (size : FileSize)
    (peers : List CreatePeer) : Ledger Name :=
  { ledger with
    requests := ledger.requests ++ [request]
    owner := Function.update ledger.owner request.fname ledger.requests.length
    records := Function.update ledger.records request.fname
      (some
        { size := size, clientId := request.clientId, reqId := request.reqId
          ncheck := peers.length })
    calls := ledger.calls ++ callsTo ledger.requests.length .checkAuthBack request.fname peers }

/-- A call ends. -/
def finish (ledger : Ledger Name) (index : Nat) (call : RpcCall Name) (ending : CallEnding) :
    Ledger Name :=
  { ledger with calls := ledger.calls.set index { call with ending := some ending } }

/-- An answer is counted in the record of its name. -/
def count (ledger : Ledger Name) (fname : Name) (creating : Creating) : Ledger Name :=
  { ledger with
    records := Function.update ledger.records fname
      (some { creating with ncheck := creating.ncheck - 1 }) }

/-- The attempt on a name is created and sends metadata to some peers. -/
def create (ledger : Ledger Name) (fname : Name) (creating : Creating) (peers : List CreatePeer) :
    Ledger Name :=
  { ledger with
    records := Function.update ledger.records fname (some { creating with ncheck := peers.length })
    calls := ledger.calls ++ callsTo (ledger.owner fname) .sendMdBack fname peers
    icreated := ledger.icreated ++ [ledger.owner fname] }

/-- The record of a name is deleted. -/
def close (ledger : Ledger Name) (fname : Name) : Ledger Name :=
  { ledger with records := Function.update ledger.records fname none }

/-- The number of calls for the name that are outstanding. -/
def outstanding (ledger : Ledger Name) (fname : Name) : Nat :=
  ledger.calls.countP (awaits fname)

end Ledger

/-! ## What the handlers do -/

/-- The servers `icreate` sends the metadata of a name to: none if an old record
fails its assertion. -/
def targets (around : Surroundings) (server : CreateServer Name) (fname : Name) :
    List CreatePeer :=
  match newFileDesc server fname with
  | none => []
  | some (fdesc, _) => metadataPeers around server (newFileMetaMetaData around server fname fdesc)

/-- What a handler leaves in `file_creating` and notes: the calls and the replies
it makes, whichever request it makes them for, and its calls of `icreate`. -/
structure Notes (before after : CreateServer Name) (records : Name → Option Creating)
    (calls : Nat → List (RpcCall Name)) (icreated : List Name)
    (replies : Nat → List (ClientReply Name)) : Prop where
  records : after.fileCreating = records
  calls : ∀ request, after.out.filterMap (rpcCallOf request) =
    before.out.filterMap (rpcCallOf request) ++ calls request
  icreated : after.icreated = before.icreated ++ icreated
  replies : ∀ request, after.out.filterMap (clientReplyOf request) =
    before.out.filterMap (clientReplyOf request) ++ replies request

/-- Nothing is called or told. -/
def nothing {β : Type} : Nat → List β := fun _ => []

omit [DecidableEq Name] in
theorem Notes.refl (server : CreateServer Name) :
    Notes server server server.fileCreating nothing [] nothing :=
  ⟨rfl, fun _ => (List.append_nil _).symm, (List.append_nil _).symm,
    fun _ => (List.append_nil _).symm⟩

omit [DecidableEq Name] in
theorem Notes.trans {before middle after : CreateServer Name}
    {records later : Name → Option Creating} {calls more : Nat → List (RpcCall Name)}
    {icreated created : List Name} {replies told : Nat → List (ClientReply Name)}
    (first : Notes before middle records calls icreated replies)
    (second : Notes middle after later more created told) :
    Notes before after later (fun request => calls request ++ more request) (icreated ++ created)
      fun request => replies request ++ told request := by
  refine ⟨second.records, ?_, ?_, ?_⟩
  · intro request
    rw [second.calls, first.calls, List.append_assoc]
  · rw [second.icreated, first.icreated, List.append_assoc]
  · intro request
    rw [second.replies, first.replies, List.append_assoc]

theorem notes_setCreating (server : CreateServer Name) (fname : Name)
    (creating : Option Creating) :
    Notes server (server.setCreating fname creating)
      (Function.update server.fileCreating fname creating) nothing [] nothing :=
  ⟨rfl, fun _ => (List.append_nil _).symm, (List.append_nil _).symm,
    fun _ => (List.append_nil _).symm⟩

omit [DecidableEq Name] in
theorem notes_sendAll (server : CreateServer Name) (peers : List CreatePeer)
    {body : CreateBody Name} {callback : CreateCallback} {fname : Name}
    (isCall : body.call = some (callback, fname)) :
    Notes server (server.sendAll peers body) server.fileCreating
      (fun request => callsTo request callback fname peers) [] nothing := by
  refine ⟨rfl, sendAll_calls server peers isCall, (List.append_nil _).symm, ?_⟩
  intro request
  refine (sendAll_noReplies server peers ?_ request).trans (List.append_nil _).symm
  rintro reqId md rfl
  cases isCall

omit [DecidableEq Name] in
/-- A client that may be gone is told that its file was not created. -/
theorem notes_fail (around : Surroundings) (server : CreateServer Name) (reqId clientId : Nat) :
    Notes server (icreateFailToClient around server reqId clientId) server.fileCreating nothing []
      fun request =>
        if around.clientActive clientId then
          [{ request := request, clientId := clientId, reqId := reqId, md := none }]
        else [] := by
  unfold icreateFailToClient
  split
  · exact ⟨rfl, fun _ => List.filterMap_append, (List.append_nil _).symm,
      fun _ => List.filterMap_append⟩
  · exact Notes.refl server

omit [DecidableEq Name] in
/-- A client that may be gone gets the metadata of its file. -/
theorem notes_suc (around : Surroundings) (server : CreateServer Name) (fname : Name)
    (creating : Creating) (md : FileMetaData Name) :
    Notes server (icreateSucToClient around server fname creating md) server.fileCreating nothing []
      fun request =>
        if around.clientActive creating.clientId then
          [{ request := request, clientId := creating.clientId, reqId := creating.reqId
             md := some md }]
        else [] := by
  unfold icreateSucToClient
  split
  · exact ⟨rfl, fun _ => List.filterMap_append, (List.append_nil _).symm,
      fun _ => List.filterMap_append⟩
  · exact Notes.refl server

theorem notes_icreate (around : Surroundings) (server : CreateServer Name) (fname : Name)
    (creating : Creating) (counted : creating.ncheck = 0)
    (record : server.fileCreating fname = some creating) :
    Notes server (icreate around server fname creating)
      (Function.update server.fileCreating fname
        (some { creating with ncheck := (targets around server fname).length }))
      (fun request => callsTo request .sendMdBack fname (targets around server fname)) [fname]
      nothing := by
  have sameDesc : newFileDesc { server with icreated := server.icreated ++ [fname] } fname =
      newFileDesc server fname := rfl
  unfold icreate icreateFmmd targets
  dsimp only
  rw [sameDesc]
  cases newFileDesc server fname with
  | none =>
      -- the failed assertion leaves the record of this name as it was
      have unchanged : some { creating with ncheck := (0 : Int) } = server.fileCreating fname := by
        rw [record, ← counted]
      refine ⟨?_, fun _ => (List.append_nil _).symm, rfl, fun _ => (List.append_nil _).symm⟩
      show server.fileCreating =
        Function.update server.fileCreating fname (some { creating with ncheck := 0 })
      rw [unchanged, Function.update_eq_self]
  | some created =>
      obtain ⟨fdesc, fileId⟩ := created
      refine ⟨rfl, ?_, rfl, ?_⟩
      · intro request
        show List.filterMap (rpcCallOf request) (CreateServer.sendAll _ _ (.createMetadata _)).out = _
        rw [sendAll_calls _ _ rfl]
        show List.filterMap (rpcCallOf request)
          (CreateServer.sendAll _ _ (.createMetaMetaData _)).out ++ _ = _
        rw [sendAll_noCalls _ _ rfl]
        rfl
      · intro request
        show List.filterMap (clientReplyOf request)
          (CreateServer.sendAll _ _ (.createMetadata _)).out = _
        rw [sendAll_noReplies _ _ fun _ _ impossible => by cases impossible]
        show List.filterMap (clientReplyOf request)
          (CreateServer.sendAll _ _ (.createMetaMetaData _)).out = _
        rw [sendAll_noReplies _ _ fun _ _ impossible => by cases impossible]
        exact (List.append_nil _).symm

/-- The servers asked about a name. -/
def askedPeers (around : Surroundings) (server : CreateServer Name) : List CreatePeer :=
  (around.mservs.filter fun serv => serv.id != server.id).map fun serv => .mserv serv.id

/-- What a request enters into the book. -/
inductive RequestEntry (around : Surroundings) (world : AttemptWorld Name)
    (request : ClientRequest Name) (size : FileSize) : Ledger Name → Prop where
  | refused (cannot : icheckCanCreate around world.server world.server.id request.fname = false) :
      RequestEntry around world request size
        ((world.ledger.arrive request).tell (around.clientActive request.clientId)
          { request := world.requests.length, clientId := request.clientId
            reqId := request.reqId, md := none })
  | asks (can : icheckCanCreate around world.server world.server.id request.fname = true)
      (others : askedPeers around world.server ≠ []) :
      RequestEntry around world request size
        (world.ledger.openAttempt request size (askedPeers around world.server))
  | creates (can : icheckCanCreate around world.server world.server.id request.fname = true)
      (alone : askedPeers around world.server = []) :
      RequestEntry around world request size
        ((world.ledger.openAttempt request size []).create request.fname
          { size := size, clientId := request.clientId, reqId := request.reqId, ncheck := 0 }
          (targets around world.server request.fname))

/-- What the end of a call enters into the book. -/
inductive AnswerEntry (around : Surroundings) (world : AttemptWorld Name) (index : Nat)
    (call : RpcCall Name) (ending : CallEnding) : Ledger Name → Prop where
  | stray (closed : world.server.fileCreating call.fname = none) :
      AnswerEntry around world index call ending (world.ledger.finish index call ending)
  | failed (creating : Creating) (record : world.server.fileCreating call.fname = some creating)
      (refuses : call.callback = .checkAuthBack → ending.accepts = false) :
      AnswerEntry around world index call ending
        (((world.ledger.finish index call ending).tell (around.clientActive creating.clientId)
          { request := world.owner call.fname, clientId := creating.clientId
            reqId := creating.reqId, md := none }).close call.fname)
  | counted (creating : Creating) (record : world.server.fileCreating call.fname = some creating)
      (accepts : call.callback = .checkAuthBack → ending.accepts = true)
      (more : creating.ncheck ≠ 1) :
      AnswerEntry around world index call ending
        ((world.ledger.finish index call ending).count call.fname creating)
  | creates (creating : Creating) (record : world.server.fileCreating call.fname = some creating)
      (isCheck : call.callback = .checkAuthBack) (accepts : ending.accepts = true)
      (last : creating.ncheck = 1) :
      AnswerEntry around world index call ending
        (((world.ledger.finish index call ending).count call.fname creating).create call.fname
          { creating with ncheck := creating.ncheck - 1 } (targets around world.server call.fname))
  | succeeded (creating : Creating) (record : world.server.fileCreating call.fname = some creating)
      (isMd : call.callback = .sendMdBack) (last : creating.ncheck = 1)
      (md : FileMetaData Name) :
      AnswerEntry around world index call ending
        (((world.ledger.finish index call ending).tell (around.clientActive creating.clientId)
          { request := world.owner call.fname, clientId := creating.clientId
            reqId := creating.reqId, md := some md }).close call.fname)

omit [DecidableEq Name] in
/-- The book after a handler that notes these. -/
theorem ledger_act (world : AttemptWorld Name) (request : Nat)
    (handler : CreateServer Name → CreateServer Name) {records : Name → Option Creating}
    {calls : Nat → List (RpcCall Name)} {icreated : List Name}
    {replies : Nat → List (ClientReply Name)}
    (notes : Notes world.server.settled (handler world.server.settled) records calls icreated
      replies) :
    (world.act request handler).ledger =
      { requests := world.requests
        owner := world.owner
        records := records
        calls := world.calls ++ calls request
        icreated := world.icreated ++ icreated.map fun _ => request
        replies := world.replies ++ replies request } := by
  unfold AttemptWorld.act AttemptWorld.ledger
  dsimp only
  rw [notes.records, notes.calls, notes.icreated, notes.replies]
  rfl

theorem RequestEntry.of_eq {around : Surroundings} {world : AttemptWorld Name}
    {request : ClientRequest Name} {size : FileSize} {ledger after : Ledger Name}
    (entry : RequestEntry around world request size ledger) (same : after = ledger) :
    RequestEntry around world request size after :=
  same ▸ entry

theorem AnswerEntry.of_eq {around : Surroundings} {world : AttemptWorld Name} {index : Nat}
    {call : RpcCall Name} {ending : CallEnding} {ledger after : Ledger Name}
    (entry : AnswerEntry around world index call ending ledger) (same : after = ledger) :
    AnswerEntry around world index call ending after :=
  same ▸ entry

omit [DecidableEq Name] in
theorem targets_congr (around : Surroundings) {server other : CreateServer Name} {fname : Name}
    (id : other.id = server.id) (fileId : other.fileId = server.fileId)
    (recorded : other.fileMetaMetadata = server.fileMetaMetadata) :
    targets around other fname = targets around server fname := by
  obtain ⟨_, _, _, _, _, _, _, _, _⟩ := server
  obtain ⟨_, _, _, _, _, _, _, _, _⟩ := other
  cases id
  cases fileId
  cases recorded
  rfl

section Request

variable {around : Surroundings} {server : CreateServer Name} {fname : Name}
  (clientId reqId : Nat) (size : FileSize)

theorem notes_create_cannot (cannot : icheckCanCreate around server server.id fname = false) :
    Notes server (sCoreMservCreate around server clientId reqId fname size) server.fileCreating
      nothing [] fun request =>
        if around.clientActive clientId then
          [{ request := request, clientId := clientId, reqId := reqId, md := none }]
        else [] := by
  unfold sCoreMservCreate
  rw [cannot]
  exact notes_fail around server reqId clientId

/-- The record of a new attempt. -/
def opened (clientId reqId : Nat) (size : FileSize) (peers : List CreatePeer) : Creating where
  size := size
  clientId := clientId
  reqId := reqId
  ncheck := peers.length

theorem notes_create_asks (can : icheckCanCreate around server server.id fname = true)
    (others : askedPeers around server ≠ []) :
    Notes server (sCoreMservCreate around server clientId reqId fname size)
      (Function.update server.fileCreating fname
        (some (opened clientId reqId size (askedPeers around server))))
      (fun request => callsTo request .checkAuthBack fname (askedPeers around server)) [] nothing := by
  have asked : ((around.mservs.filter fun serv => serv.id != server.id).length : Int) ≠ 0 := by
    intro none
    apply others
    exact List.map_eq_nil_iff.mpr (List.length_eq_zero_iff.mp (Int.ofNat_eq_zero.mp none))
  have record : opened clientId reqId size (askedPeers around server) =
      { size := size, clientId := clientId, reqId := reqId
        ncheck := (around.mservs.filter fun serv => serv.id != server.id).length } := by
    unfold opened askedPeers
    rw [List.length_map]
  unfold sCoreMservCreate
  rw [can, record]
  simp only [Bool.not_true, Bool.false_eq_true, if_false]
  rw [if_neg asked]
  exact (notes_setCreating server fname _).trans (notes_sendAll _ _ rfl)

theorem notes_create_alone (can : icheckCanCreate around server server.id fname = true)
    (alone : askedPeers around server = []) :
    Notes server (sCoreMservCreate around server clientId reqId fname size)
      (Function.update server.fileCreating fname
        (some (opened clientId reqId size (targets around server fname))))
      (fun request => callsTo request .sendMdBack fname (targets around server fname)) [fname]
      nothing := by
  have asked : (around.mservs.filter fun serv => serv.id != server.id) = [] :=
    List.map_eq_nil_iff.mp alone
  unfold sCoreMservCreate
  rw [can, asked]
  have none : (([] : List ActiveServ).length : Int) = 0 := rfl
  simp only [Bool.not_true, Bool.false_eq_true, if_false, List.map_nil]
  rw [if_pos none]
  let waiting := (server.setCreating fname
    (some { size := size, clientId := clientId, reqId := reqId, ncheck := 0 })).sendAll []
      (.checkAuth fname)
  have sends := (notes_setCreating server fname
    (some { size := size, clientId := clientId, reqId := reqId, ncheck := 0 })).trans
      (@notes_sendAll Name _ [] (.checkAuth fname) _ _ rfl)
  have creates := notes_icreate around waiting fname
    { size := size, clientId := clientId, reqId := reqId, ncheck := 0 } rfl
      (Function.update_self _ _ _)
  have same : targets around waiting fname = targets around server fname :=
    targets_congr around rfl rfl rfl
  rw [same] at creates
  have both := sends.trans creates
  have records : Function.update waiting.fileCreating fname
      (some { size := size, clientId := clientId, reqId := reqId
              ncheck := ((targets around server fname).length : Int) }) =
      Function.update server.fileCreating fname
        (some (opened clientId reqId size (targets around server fname))) :=
    Function.update_idem _ _ _
  exact records ▸ both

end Request

theorem requestEntry_step (around : Surroundings) (world : AttemptWorld Name)
    (request : ClientRequest Name) (size : FileSize) :
    RequestEntry around world request size
      ((world.arrive around request).act world.requests.length fun server =>
        sCoreMservCreate around server request.clientId request.reqId request.fname size).ledger := by
  have owner : (world.arrive around request).owner =
      if icheckCanCreate around world.server world.server.id request.fname then
        Function.update world.owner request.fname world.requests.length
      else world.owner := rfl
  have server : (world.arrive around request).server.settled = world.server.settled := rfl
  cases can : icheckCanCreate around world.server world.server.id request.fname with
  | false =>
      have notes := @notes_create_cannot Name _ around world.server.settled request.fname
        request.clientId request.reqId size can
      refine (RequestEntry.refused can).of_eq
        ((ledger_act (world.arrive around request) _ _ (server ▸ notes)).trans ?_)
      rw [owner, can]
      unfold Ledger.tell nothing
      simp only [List.map_nil, List.append_nil]
      rfl
  | true =>
      by_cases alone : askedPeers around world.server = []
      · have notes := @notes_create_alone Name _ around world.server.settled request.fname
          request.clientId request.reqId size can alone
        refine (RequestEntry.creates can alone).of_eq
          ((ledger_act (world.arrive around request) _ _ (server ▸ notes)).trans ?_)
        rw [owner, can]
        unfold Ledger.create Ledger.openAttempt nothing callsTo
        simp only [Function.update_self, Function.update_idem, List.map_cons, List.map_nil,
          List.append_nil]
        rfl
      · have notes := @notes_create_asks Name _ around world.server.settled request.fname
          request.clientId request.reqId size can alone
        refine (RequestEntry.asks can alone).of_eq
          ((ledger_act (world.arrive around request) _ _ (server ▸ notes)).trans ?_)
        rw [owner, can]
        unfold nothing
        simp only [List.map_nil, List.append_nil]
        rfl

/-- The test of `irpc_check_auth_back`. -/
theorem CallEnding.any_ret (ending : CallEnding) :
    (ending.ret.any fun value => decide (value ≤ 0)) = !ending.accepts :=
  (Bool.not_not _).symm

section Answer

variable {around : Surroundings} {server : CreateServer Name} {call : RpcCall Name}
  {ending : CallEnding} {creating : Creating}

theorem notes_stray (closed : server.fileCreating call.fname = none) :
    Notes server (runCallback around server call ending) server.fileCreating nothing [] nothing := by
  unfold runCallback irpcCheckAuthBack irpcSendMdBack
  rw [closed]
  cases call.callback <;> exact Notes.refl server

/-- A failed attempt is told to its client and closed. -/
theorem notes_failed (around : Surroundings) (server : CreateServer Name) (creating : Creating)
    (fname : Name) :
    Notes server
      ((icreateFailToClient around server creating.reqId creating.clientId).setCreating fname none)
      (Function.update server.fileCreating fname none) nothing [] fun request =>
        if around.clientActive creating.clientId then
          [{ request := request, clientId := creating.clientId, reqId := creating.reqId
             md := none }]
        else [] := by
  have fails := notes_fail around server creating.reqId creating.clientId
  have both := fails.trans (notes_setCreating _ fname none)
  rw [fails.records] at both
  simp only [nothing, List.append_nil] at both
  exact both

theorem notes_checkAuth_refused (record : server.fileCreating call.fname = some creating)
    (isCheck : call.callback = .checkAuthBack) (refuses : ending.accepts = false) :
    Notes server (runCallback around server call ending)
      (Function.update server.fileCreating call.fname none) nothing [] fun request =>
        if around.clientActive creating.clientId then
          [{ request := request, clientId := creating.clientId, reqId := creating.reqId
             md := none }]
        else [] := by
  unfold runCallback irpcCheckAuthBack
  rw [isCheck, record]
  dsimp only
  rw [CallEnding.any_ret, refuses, Bool.not_false, if_pos rfl]
  exact notes_failed around server creating call.fname

theorem notes_checkAuth_counted (record : server.fileCreating call.fname = some creating)
    (isCheck : call.callback = .checkAuthBack) (accepts : ending.accepts = true)
    (more : creating.ncheck ≠ 1) :
    Notes server (runCallback around server call ending)
      (Function.update server.fileCreating call.fname
        (some { creating with ncheck := creating.ncheck - 1 })) nothing [] nothing := by
  unfold runCallback irpcCheckAuthBack
  rw [isCheck, record]
  dsimp only
  rw [CallEnding.any_ret, accepts, if_neg (by decide), if_neg (by omega)]
  exact notes_setCreating server call.fname _

theorem notes_checkAuth_creates (record : server.fileCreating call.fname = some creating)
    (isCheck : call.callback = .checkAuthBack) (accepts : ending.accepts = true)
    (last : creating.ncheck = 1) :
    Notes server (runCallback around server call ending)
      (Function.update server.fileCreating call.fname
        (some { creating with ncheck := (targets around server call.fname).length }))
      (fun request => callsTo request .sendMdBack call.fname (targets around server call.fname))
      [call.fname] nothing := by
  unfold runCallback irpcCheckAuthBack
  rw [isCheck, record]
  dsimp only
  rw [CallEnding.any_ret, accepts, if_neg (by decide), if_pos (by omega)]
  let waiting := server.setCreating call.fname
    (some { creating with ncheck := creating.ncheck - 1 })
  have creates := notes_icreate around waiting call.fname
    { creating with ncheck := creating.ncheck - 1 } (by dsimp only; omega)
      (Function.update_self _ _ _)
  have same : targets around waiting call.fname = targets around server call.fname :=
    targets_congr around rfl rfl rfl
  rw [same] at creates
  have both := (notes_setCreating server call.fname
    (some { creating with ncheck := creating.ncheck - 1 })).trans creates
  have records : Function.update waiting.fileCreating call.fname
      (some { creating with ncheck := ((targets around server call.fname).length : Int) }) =
      Function.update server.fileCreating call.fname
        (some { creating with ncheck := (targets around server call.fname).length }) :=
    Function.update_idem _ _ _
  exact records ▸ both

theorem notes_sendMd_forgotten (record : server.fileCreating call.fname = some creating)
    (isMd : call.callback = .sendMdBack) (noMd : server.fileMetadata call.fname = none) :
    Notes server (runCallback around server call ending)
      (Function.update server.fileCreating call.fname none) nothing [] fun request =>
        if around.clientActive creating.clientId then
          [{ request := request, clientId := creating.clientId, reqId := creating.reqId
             md := none }]
        else [] := by
  unfold runCallback irpcSendMdBack
  rw [isMd, record]
  dsimp only
  rw [noMd]
  exact notes_failed around server creating call.fname

theorem notes_sendMd_counted (record : server.fileCreating call.fname = some creating)
    (isMd : call.callback = .sendMdBack) {md : FileMetaData Name}
    (isFile : server.fileMetadata call.fname = some md) (more : creating.ncheck ≠ 1) :
    Notes server (runCallback around server call ending)
      (Function.update server.fileCreating call.fname
        (some { creating with ncheck := creating.ncheck - 1 })) nothing [] nothing := by
  unfold runCallback irpcSendMdBack
  rw [isMd, record]
  dsimp only
  rw [isFile]
  dsimp only
  rw [if_neg (by omega)]
  exact notes_setCreating server call.fname _

theorem notes_sendMd_succeeded (record : server.fileCreating call.fname = some creating)
    (isMd : call.callback = .sendMdBack) {md : FileMetaData Name}
    (isFile : server.fileMetadata call.fname = some md) (last : creating.ncheck = 1) :
    Notes server (runCallback around server call ending)
      (Function.update server.fileCreating call.fname none) nothing [] fun request =>
        if around.clientActive creating.clientId then
          [{ request := request, clientId := creating.clientId, reqId := creating.reqId
             md := some md }]
        else [] := by
  unfold runCallback irpcSendMdBack
  rw [isMd, record]
  dsimp only
  rw [isFile]
  dsimp only
  rw [if_pos (by omega)]
  have tells := notes_suc around server call.fname
    { creating with ncheck := creating.ncheck - 1 } md
  have both := tells.trans (notes_setCreating _ call.fname none)
  rw [tells.records] at both
  simp only [nothing, List.append_nil] at both
  exact both

end Answer

/-- The book after a callback that notes these. -/
theorem ledger_callback {around : Surroundings} {world : AttemptWorld Name} {index : Nat}
    {call : RpcCall Name} {ending : CallEnding} {records : Name → Option Creating}
    {calls : Nat → List (RpcCall Name)} {icreated : List Name}
    {replies : Nat → List (ClientReply Name)}
    (notes : Notes world.server.settled (runCallback around world.server.settled call ending)
      records calls icreated replies) :
    ((world.finish index call ending).act (world.owner call.fname) fun server =>
        runCallback around server call ending).ledger =
      { requests := world.requests
        owner := world.owner
        records := records
        calls := (world.ledger.finish index call ending).calls ++ calls (world.owner call.fname)
        icreated := world.icreated ++ icreated.map fun _ => world.owner call.fname
        replies := world.replies ++ replies (world.owner call.fname) } :=
  ledger_act (world.finish index call ending) (world.owner call.fname)
    (fun server => runCallback around server call ending) notes

theorem answerEntry_step (around : Surroundings) (world : AttemptWorld Name) (index : Nat)
    (call : RpcCall Name) (ending : CallEnding) :
    AnswerEntry around world index call ending
      ((world.finish index call ending).act (world.owner call.fname) fun server =>
        runCallback around server call ending).ledger := by
  cases record : world.server.fileCreating call.fname with
  | none =>
      refine (AnswerEntry.stray record).of_eq ((ledger_callback (notes_stray record)).trans ?_)
      simp only [nothing, List.map_nil, List.append_nil]
      rfl
  | some creating =>
      cases isCall : call.callback with
      | checkAuthBack =>
          cases accepts : ending.accepts with
          | false =>
              refine (AnswerEntry.failed creating record fun _ => accepts).of_eq
                ((ledger_callback (notes_checkAuth_refused record isCall accepts)).trans ?_)
              simp only [nothing, List.map_nil, List.append_nil]
              rfl
          | true =>
              by_cases last : creating.ncheck = 1
              · refine (AnswerEntry.creates creating record isCall accepts last).of_eq
                  ((ledger_callback (notes_checkAuth_creates record isCall accepts last)).trans ?_)
                unfold Ledger.create Ledger.count
                simp only [nothing, List.map_cons, List.map_nil, List.append_nil,
                  Function.update_idem]
                rfl
              · refine (AnswerEntry.counted creating record (fun _ => accepts) last).of_eq
                  ((ledger_callback (notes_checkAuth_counted record isCall accepts last)).trans ?_)
                simp only [nothing, List.map_nil, List.append_nil]
                rfl
      | sendMdBack =>
          have notCheck : ∀ accepts : Bool, call.callback = .checkAuthBack →
              ending.accepts = accepts := by
            intro _ isCheck
            rw [isCall] at isCheck
            cases isCheck
          cases isFile : world.server.fileMetadata call.fname with
          | none =>
              refine (AnswerEntry.failed creating record (notCheck false)).of_eq
                ((ledger_callback (notes_sendMd_forgotten record isCall isFile)).trans ?_)
              simp only [nothing, List.map_nil, List.append_nil]
              rfl
          | some md =>
              by_cases last : creating.ncheck = 1
              · have notes := @notes_sendMd_succeeded Name _ around world.server.settled call ending
                  creating record isCall md isFile last
                refine (AnswerEntry.succeeded creating record isCall last md).of_eq
                  ((ledger_callback notes).trans ?_)
                simp only [nothing, List.map_nil, List.append_nil]
                rfl
              · refine (AnswerEntry.counted creating record (notCheck true) last).of_eq
                  ((ledger_callback (notes_sendMd_counted record isCall isFile last)).trans ?_)
                simp only [nothing, List.map_nil, List.append_nil]
                rfl

/-- **What a step enters into the book**: a request, the end of a call, or
nothing. -/
theorem entry_of_step {world after : AttemptWorld Name} {event : AttemptEvent Name}
    (stepped : world.step event = some after) :
    (∃ around clientId reqId fname size, event = .request around clientId reqId fname size ∧
      RequestEntry around world { clientId := clientId, reqId := reqId, fname := fname } size
        after.ledger) ∨
    (∃ around index ending call, event = .answer around index ending ∧
      world.calls[index]? = some call ∧ call.ending = none ∧
      AnswerEntry around world index call ending after.ledger) ∨
    after.ledger = world.ledger := by
  unfold AttemptWorld.step at stepped
  split at stepped
  · cases stepped
  · cases event with
    | request around clientId reqId fname size =>
        cases Option.some.inj stepped
        exact Or.inl ⟨around, clientId, reqId, fname, size, rfl, requestEntry_step around world _ size⟩
    | answer around index ending =>
        dsimp only at stepped
        cases found : world.calls[index]? with
        | none =>
            rw [found] at stepped
            cases stepped
        | some call =>
            rw [found] at stepped
            dsimp only at stepped
            split at stepped
            next outstanding =>
              cases Option.some.inj stepped
              exact Or.inr (Or.inl ⟨around, index, ending, call, rfl, found, outstanding,
                answerEntry_step around world index call ending⟩)
            next => cases stepped
    | checkAuth around src fname =>
        cases Option.some.inj stepped
        exact Or.inr (Or.inr rfl)
    | metadata src md =>
        cases Option.some.inj stepped
        exact Or.inr (Or.inr rfl)
    | metaMetaData around mmd =>
        cases Option.some.inj stepped
        exact Or.inr (Or.inr rfl)

/-! ## The calls of the book -/

namespace Ledger

variable {ledger : Ledger Name} {index : Nat} {call : RpcCall Name} {ending : CallEnding}

omit [DecidableEq Name] in
theorem mem_finish {other : RpcCall Name}
    (member : other ∈ (ledger.finish index call ending).calls) :
    other ∈ ledger.calls ∨ other = { call with ending := some ending } :=
  List.mem_or_eq_of_mem_set member

/-- A call that has ended is not outstanding any more. -/
theorem outstanding_finish (found : ledger.calls[index]? = some call) (isOpen : call.ending = none)
    (ending : CallEnding) (fname : Name) :
    (ledger.finish index call ending).outstanding fname + (if call.fname = fname then 1 else 0) =
      ledger.outstanding fname := by
  obtain ⟨inside, isCall⟩ := List.getElem?_eq_some_iff.mp found
  have ended : awaits fname { call with ending := some ending } = false :=
    decide_eq_false fun both => by cases both.2
  have was : awaits fname ledger.calls[index] = decide (call.fname = fname) := by
    unfold awaits
    rw [isCall, isOpen]
    simp
  unfold outstanding finish
  dsimp only
  rw [List.countP_set inside, ended, was]
  by_cases same : call.fname = fname
  · have positive : 0 < ledger.calls.countP (awaits fname) := by
      refine List.countP_pos_iff.mpr ⟨call, List.mem_of_getElem? found, ?_⟩
      exact decide_eq_true ⟨same, isOpen⟩
    simp only [same, decide_true, if_true, Bool.false_eq_true, if_false]
    omega
  · simp [same]

theorem outstanding_callsTo (calls : List (RpcCall Name)) (request : Nat)
    (callback : CreateCallback) (fname other : Name) (peers : List CreatePeer) :
    (calls ++ callsTo request callback fname peers).countP (awaits other) =
      calls.countP (awaits other) + if fname = other then peers.length else 0 := by
  rw [List.countP_append]
  congr 1
  unfold callsTo
  rw [List.countP_map]
  split
  next same =>
    rw [List.countP_eq_length.mpr ?_]
    exact fun _ _ => decide_eq_true ⟨same, rfl⟩
  next different =>
    rw [List.countP_eq_zero]
    exact fun _ _ holds => different (of_decide_eq_true holds).1

omit [DecidableEq Name] in
theorem mem_callsTo {request : Nat} {callback : CreateCallback} {fname : Name}
    {peers : List CreatePeer} {other : RpcCall Name}
    (member : other ∈ callsTo request callback fname peers) :
    other.request = request ∧ other.callback = callback ∧ other.fname = fname ∧
      other.ending = none := by
  obtain ⟨peer, _, rfl⟩ := List.mem_map.mp member
  exact ⟨rfl, rfl, rfl, rfl⟩

omit [DecidableEq Name] in
theorem mem_tell {connected : Bool} {reply other : ClientReply Name}
    (member : other ∈ (ledger.tell connected reply).replies) :
    other ∈ ledger.replies ∨ other = reply := by
  refine (List.mem_append.mp member).imp_right fun told => ?_
  cases connected with
  | false => cases told
  | true => exact List.mem_singleton.mp told

omit [DecidableEq Name] in
/-- A number of a request stays one when another request comes. -/
theorem below_concat {requests : List (ClientRequest Name)} {number : Nat}
    (below : number < requests.length) (last : ClientRequest Name) :
    number < (requests ++ [last]).length := by
  rw [List.length_append]
  exact Nat.lt_add_right _ below

/-- A record of the table with one entry replaced. -/
theorem record_of_update {records : Name → Option Creating} {fname other : Name}
    {new : Option Creating} {creating : Creating}
    (record : Function.update records fname new other = some creating) :
    other = fname ∧ new = some creating ∨ other ≠ fname ∧ records other = some creating := by
  by_cases same : other = fname
  · rw [same, Function.update_self] at record
    exact Or.inl ⟨same, record⟩
  · rw [Function.update_of_ne same] at record
    exact Or.inr ⟨same, record⟩

/-- Nothing is outstanding for a name. -/
theorem none_awaits {fname : Name} (nothing : ledger.outstanding fname = 0) {other : RpcCall Name}
    (member : other ∈ ledger.calls) (named : other.fname = fname) : other.ending ≠ none := by
  intro isOpen
  exact List.countP_eq_zero.mp nothing other member (decide_eq_true ⟨named, isOpen⟩)

end Ledger

end

end SimpleDfs.Mserv
