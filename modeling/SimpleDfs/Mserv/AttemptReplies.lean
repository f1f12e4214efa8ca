import SimpleDfs.Mserv.AttemptLedger

/-!
Contract: a create request is answered once, and its record is deleted.

Owns: when `icreate` finds a server for the metadata, the condition that it
does, the invariant of the book under it, and its preservation.

Does not own: which answers an attempt is decided by.
-/

set_option autoImplicit false

namespace SimpleDfs.Mserv

open SimpleDfs.Library

section

variable {Name : Type}

/-- The replies sent for a request. -/
def repliesTo (replies : List (ClientReply Name)) (number : Nat) : List (ClientReply Name) :=
  replies.filter fun reply => reply.request == number

/-- The attempt of a request stands in `file_creating`. -/
def IsOpen (ledger : Ledger Name) (number : Nat) (fname : Name) : Prop :=
  ledger.owner fname = number ∧ ledger.records fname ≠ none

/-- One reply has been sent for a request, to its client and under its id. -/
def AnsweredOnce (replies : List (ClientReply Name)) (number : Nat)
    (request : ClientRequest Name) : Prop :=
  ∃ md, repliesTo replies number =
    [{ request := number, clientId := request.clientId, reqId := request.reqId, md := md }]

/-- A request either waits for its reply or has got it. -/
structure Booked (ledger : Ledger Name) : Prop where
  owned : ∀ fname creating, ledger.records fname = some creating →
    ledger.requests[ledger.owner fname]? =
      some { clientId := creating.clientId, reqId := creating.reqId, fname := fname }
  replied : ∀ reply ∈ ledger.replies, reply.request < ledger.requests.length
  answered : ∀ number request, ledger.requests[number]? = some request →
    IsOpen ledger number request.fname ∧ repliesTo ledger.replies number = [] ∨
      ¬ IsOpen ledger number request.fname ∧ AnsweredOnce ledger.replies number request

section

variable {ledger : Ledger Name} {index : Nat} {call : RpcCall Name} {ending : CallEnding}
  {request : ClientRequest Name} {fname : Name} {creating : Creating}

/-- Another request's reply. -/
theorem repliesTo_concat_ne (replies : List (ClientReply Name)) {reply : ClientReply Name}
    {number : Nat} (other : reply.request ≠ number) :
    repliesTo (replies ++ [reply]) number = repliesTo replies number := by
  have dropped : repliesTo [reply] number = [] :=
    List.filter_cons_of_neg fun same => other (beq_iff_eq.mp same)
  exact (List.filter_append _ _).trans
    ((congrArg (repliesTo replies number ++ ·) dropped).trans (List.append_nil _))

theorem repliesTo_concat_eq (replies : List (ClientReply Name)) {reply : ClientReply Name}
    {number : Nat} (own : reply.request = number) :
    repliesTo (replies ++ [reply]) number = repliesTo replies number ++ [reply] := by
  have kept : repliesTo [reply] number = [reply] := List.filter_cons_of_pos (beq_iff_eq.mpr own)
  exact (List.filter_append _ _).trans (congrArg (repliesTo replies number ++ ·) kept)

theorem Booked.owner_below (booked : Booked ledger) (record : ledger.records fname = some creating) :
    ledger.owner fname < ledger.requests.length :=
  (List.getElem?_eq_some_iff.mp (booked.owned fname creating record)).1

/-- A request of a list with one more. -/
theorem request_concat {requests : List (ClientRequest Name)} {last found : ClientRequest Name}
    {number : Nat} (isRequest : (requests ++ [last])[number]? = some found) :
    requests[number]? = some found ∨ number = requests.length ∧ found = last := by
  have inside := (List.getElem?_eq_some_iff.mp isRequest).1
  rw [List.length_append, List.length_singleton] at inside
  rcases Nat.lt_succ_iff_lt_or_eq.mp inside with below | rfl
  · rw [List.getElem?_append_left below] at isRequest
    exact Or.inl isRequest
  · rw [List.getElem?_concat_length] at isRequest
    exact Or.inr ⟨rfl, (Option.some.inj isRequest).symm⟩

theorem request_append {requests : List (ClientRequest Name)} {last found : ClientRequest Name}
    {number : Nat} (isRequest : requests[number]? = some found) :
    (requests ++ [last])[number]? = some found := by
  rw [List.getElem?_append_left (List.getElem?_eq_some_iff.mp isRequest).1]
  exact isRequest

theorem repliesTo_new {replies : List (ClientReply Name)} {number : Nat}
    (below : ∀ reply ∈ replies, reply.request < number) : repliesTo replies number = [] := by
  refine List.filter_eq_nil_iff.mpr ?_
  intro reply member same
  exact Nat.ne_of_lt (below reply member) (beq_iff_eq.mp same)

/-! ## A request -/

theorem Booked.refuse (booked : Booked ledger) :
    Booked ((ledger.arrive request).tell true
      { request := ledger.requests.length, clientId := request.clientId, reqId := request.reqId
        md := none }) := by
  refine ⟨?_, ?_, ?_⟩
  · exact fun fname creating record => request_append (booked.owned fname creating record)
  · intro reply member
    rcases Ledger.mem_tell member with earlier | rfl
    · exact Ledger.below_concat (booked.replied reply earlier) request
    · show ledger.requests.length < (ledger.requests ++ [request]).length
      rw [List.length_append]
      exact Nat.lt_succ_self _
  · intro number found isRequest
    unfold AnsweredOnce Ledger.tell
    dsimp only
    rw [if_pos rfl]
    rcases request_concat isRequest with old | ⟨rfl, rfl⟩
    · have below := (List.getElem?_eq_some_iff.mp old).1
      rw [repliesTo_concat_ne _ (Nat.ne_of_gt below)]
      exact booked.answered number found old
    · right
      refine ⟨?_, none, ?_⟩
      · rintro ⟨isOwner, present⟩
        obtain ⟨creating, record⟩ := Option.ne_none_iff_exists'.mp present
        exact Nat.ne_of_lt (booked.owner_below record) isOwner
      · rw [repliesTo_concat_eq _ rfl]
        show repliesTo ledger.replies ledger.requests.length ++ _ = _
        rw [repliesTo_new booked.replied]
        rfl

variable [DecidableEq Name]

/-- A record waits for calls that are outstanding. -/
def Waits (ledger : Ledger Name) (fname : Name) : Prop :=
  ∀ creating, ledger.records fname = some creating →
    0 < creating.ncheck ∧ creating.ncheck ≤ ledger.outstanding fname

theorem Booked.openAttempt (booked : Booked ledger) (size : FileSize) (peers : List CreatePeer)
    (closed : ledger.records request.fname = none) :
    Booked (ledger.openAttempt request size peers) := by
  have recordThere : ∀ fname, fname ≠ request.fname →
      (ledger.openAttempt request size peers).records fname = ledger.records fname :=
    fun fname different => Function.update_of_ne different _ _
  have ownerThere : ∀ fname, fname ≠ request.fname →
      (ledger.openAttempt request size peers).owner fname = ledger.owner fname :=
    fun fname different => Function.update_of_ne different _ _
  have ownerHere : (ledger.openAttempt request size peers).owner request.fname =
      ledger.requests.length := Function.update_self _ _ _
  have recordHere : (ledger.openAttempt request size peers).records request.fname =
      some { size := size, clientId := request.clientId, reqId := request.reqId
             ncheck := peers.length } := Function.update_self _ _ _
  refine ⟨?_, ?_, ?_⟩
  · intro fname creating record
    rcases Ledger.record_of_update record with ⟨rfl, isNew⟩ | ⟨different, old⟩
    · rw [ownerHere, ← Option.some.inj isNew]
      exact List.getElem?_concat_length
    · rw [ownerThere fname different]
      exact request_append (booked.owned fname creating old)
  · exact fun reply member => Ledger.below_concat (booked.replied reply member) request
  · intro number found isRequest
    unfold IsOpen
    rcases request_concat isRequest with old | ⟨rfl, rfl⟩
    · have below := (List.getElem?_eq_some_iff.mp old).1
      by_cases same : found.fname = request.fname
      · rcases booked.answered number found old with ⟨⟨_, present⟩, _⟩ | ⟨_, once⟩
        · rw [same] at present
          exact absurd closed present
        · refine Or.inr ⟨?_, once⟩
          rw [same, ownerHere]
          exact fun both => Nat.ne_of_gt below both.1
      · rw [ownerThere _ same, recordThere _ same]
        exact booked.answered number found old
    · refine Or.inl ⟨⟨ownerHere, ?_⟩, repliesTo_new booked.replied⟩
      rw [recordHere]
      exact Option.some_ne_none _

/-! ## The end of a call -/

/-- A record gets another count. -/
theorem Booked.recount (booked : Booked ledger) {after : Ledger Name} (creating' : Creating)
    (record : ledger.records fname = some creating) (clientId : creating'.clientId = creating.clientId)
    (reqId : creating'.reqId = creating.reqId) (requests : after.requests = ledger.requests)
    (owner : after.owner = ledger.owner) (replies : after.replies = ledger.replies)
    (records : after.records = Function.update ledger.records fname (some creating')) :
    Booked after := by
  refine ⟨?_, ?_, ?_⟩
  · intro other found isFound
    rw [records] at isFound
    rw [requests, owner]
    rcases Ledger.record_of_update isFound with ⟨rfl, isNew⟩ | ⟨_, old⟩
    · rw [← Option.some.inj isNew, clientId, reqId]
      exact booked.owned other creating record
    · exact booked.owned other found old
  · rw [requests, replies]
    exact booked.replied
  · intro number found isRequest
    have present : after.records found.fname ≠ none ↔ ledger.records found.fname ≠ none := by
      rw [records]
      by_cases same : found.fname = fname
      · rw [same, Function.update_self, record]
        exact iff_of_true (Option.some_ne_none _) (Option.some_ne_none _)
      · rw [Function.update_of_ne same]
    unfold IsOpen
    rw [present, owner, replies]
    exact booked.answered number found (requests ▸ isRequest)

theorem Booked.create (booked : Booked ledger) (record : ledger.records fname = some creating)
    {creating' : Creating} (clientId : creating'.clientId = creating.clientId)
    (reqId : creating'.reqId = creating.reqId) (peers : List CreatePeer) :
    Booked (ledger.create fname creating' peers) :=
  booked.recount { creating' with ncheck := peers.length } record clientId reqId rfl rfl rfl rfl

/-- The client of a record is told and the record is deleted. -/
theorem Booked.closes (booked : Booked ledger) (record : ledger.records fname = some creating)
    (md : Option (FileMetaData Name)) :
    Booked ((ledger.tell true
      { request := ledger.owner fname, clientId := creating.clientId, reqId := creating.reqId
        md := md }).close fname) := by
  refine ⟨?_, ?_, ?_⟩
  · intro other found isFound
    rcases Ledger.record_of_update isFound with ⟨_, impossible⟩ | ⟨_, old⟩
    · cases impossible
    · exact booked.owned other found old
  · intro reply member
    rcases Ledger.mem_tell member with earlier | rfl
    · exact booked.replied reply earlier
    · exact booked.owner_below record
  · intro number found isRequest
    have before := booked.answered number found isRequest
    unfold AnsweredOnce IsOpen Ledger.tell Ledger.close
    dsimp only
    rw [if_pos rfl]
    by_cases own : ledger.owner fname = number
    · -- the request that owns the record gets its reply
      have isOwner : found =
          { clientId := creating.clientId, reqId := creating.reqId, fname := fname } := by
        have owned := booked.owned fname creating record
        rw [own] at owned
        exact Option.some.inj (isRequest.symm.trans owned)
      rw [isOwner] at before ⊢
      dsimp only at before ⊢
      rw [repliesTo_concat_eq _ own, Function.update_self]
      rcases before with ⟨_, silent⟩ | ⟨notOpen, _⟩
      · refine Or.inr ⟨fun both => both.2 rfl, md, ?_⟩
        rw [silent, own]
        rfl
      · refine absurd ⟨own, ?_⟩ notOpen
        rw [record]
        exact Option.some_ne_none _
    · rw [repliesTo_concat_ne _ own]
      by_cases same : found.fname = fname
      · rcases before with ⟨isOpen, _⟩ | ⟨_, once⟩
        · rw [same] at isOpen
          exact absurd isOpen.1 own
        · refine Or.inr ⟨?_, once⟩
          rw [same]
          exact fun both => own both.1
      · rw [Function.update_of_ne same]
        exact before

/-! ## What a record waits for -/

/-- Other names do not see new calls. -/
theorem waits_callsTo {after : Ledger Name} {number : Nat} {callback : CreateCallback} {other : Name}
    {peers : List CreatePeer} (waits : Waits ledger fname) (different : fname ≠ other)
    (records : after.records fname = ledger.records fname)
    (calls : after.calls = ledger.calls ++ callsTo number callback other peers) :
    Waits after fname := by
  intro creating record
  rw [records] at record
  unfold Ledger.outstanding
  rw [calls, Ledger.outstanding_callsTo, if_neg (Ne.symm different)]
  exact waits creating record

/-- A record that has just made some calls. -/
theorem waits_new {after : Ledger Name} {number : Nat} {callback : CreateCallback}
    {peers : List CreatePeer} (some : peers ≠ [])
    (records : after.records fname = Option.some creating) (ncheck : creating.ncheck = peers.length)
    (calls : after.calls = ledger.calls ++ callsTo number callback fname peers) :
    Waits after fname := by
  intro creating' record
  rw [records] at record
  unfold Ledger.outstanding
  rw [calls, Ledger.outstanding_callsTo, if_pos rfl, ← Option.some.inj record, ncheck]
  have positive := List.length_pos_iff.mpr some
  omega

theorem waits_finish (waits : Waits ledger fname) (found : ledger.calls[index]? = some call)
    (isOpen : call.ending = none) (different : fname ≠ call.fname) :
    Waits (ledger.finish index call ending) fname := by
  intro creating record
  have same := Ledger.outstanding_finish found isOpen ending fname
  rw [if_neg (Ne.symm different), Nat.add_zero] at same
  rw [same]
  exact waits creating record

/-- A counted answer. -/
theorem waits_count (waits : Waits ledger call.fname) (found : ledger.calls[index]? = some call)
    (isOpen : call.ending = none) (record : ledger.records call.fname = some creating)
    (more : creating.ncheck ≠ 1) :
    Waits ((ledger.finish index call ending).count call.fname creating) call.fname := by
  intro creating' here
  obtain ⟨positive, few⟩ := waits creating record
  have one := Ledger.outstanding_finish found isOpen ending call.fname
  rw [if_pos rfl] at one
  rcases Ledger.record_of_update here with ⟨_, isNew⟩ | ⟨different, _⟩
  · rw [← Option.some.inj isNew]
    show 0 < creating.ncheck - 1 ∧ creating.ncheck - 1 ≤
      ((ledger.finish index call ending).outstanding call.fname : Int)
    omega
  · exact absurd rfl different

/-! ## Runs -/

/-- A client is connected when it asks, and when an answer to its attempt
comes. -/
def clientConnected (world : AttemptWorld Name) : AttemptEvent Name → Bool
  | .request around clientId _ _ _ => around.clientActive clientId
  | .answer around index _ =>
      world.calls[index]?.all fun call =>
        (world.server.fileCreating call.fname).all fun creating =>
          around.clientActive creating.clientId
  | _ => true

/-- Whenever `icreate` is called, it finds a server for the metadata. -/
def findsTarget (world : AttemptWorld Name) : AttemptEvent Name → Bool
  | .request around _ _ fname _ =>
      !icheckCanCreate around world.server world.server.id fname ||
        askedPeers around world.server != [] || targets around world.server fname != []
  | .answer around index ending =>
      world.calls[index]?.all fun call =>
        (world.server.fileCreating call.fname).all fun creating =>
          !(call.callback == .checkAuthBack && ending.accepts && creating.ncheck == 1) ||
            targets around world.server call.fname != []
  | _ => true

/-- The look-ups agree with the tables of active servers, which hold other
servers with ids of 16 bits. -/
structure Tables (around : Surroundings) (server : Nat) : Prop where
  mservActive : ∀ id, around.mservActive id = true ↔ ∃ serv ∈ around.mservs, serv.id = id
  dservActive : ∀ id, around.dservActive id = true ↔ ∃ serv ∈ around.dservs, serv.id = id
  small : ∀ serv ∈ around.mservs, serv.id < 2 ^ 16
  other : ∀ serv ∈ around.mservs, serv.id ≠ server

theorem selectMserv_chosen {mservs : List ActiveServ} (some : mservs ≠ []) :
    1 < (selectMserv mservs).1 ∧ ∃ serv ∈ mservs, (selectMserv mservs).2.2 = serv.id := by
  cases mservs with
  | nil => exact absurd rfl some
  | cons first rest =>
      unfold selectMserv
      rw [List.foldl_cons]
      refine List.foldlRecOn (motive := fun chosen : Nat × Nat × Int =>
        1 < chosen.1 ∧ ∃ serv ∈ first :: rest, chosen.2.2 = serv.id) rest _ ?_ ?_
      · exact ⟨Nat.lt_succ_self 1, first, List.mem_cons_self, rfl⟩
      · rintro ⟨nmserv, minMem, mservId⟩ chosen serv member
        dsimp only at chosen ⊢
        split
        · exact ⟨Nat.lt_succ_of_lt chosen.1, serv, List.mem_cons_of_mem _ member, rfl⟩
        · exact chosen

theorem selectDserv_chosen {dservs : List ActiveServ} (some : dservs ≠ []) :
    0 < (selectDserv dservs).ndserv ∧ (selectDserv dservs).first ∈ dservs := by
  cases dservs with
  | nil => exact absurd rfl some
  | cons first rest =>
      unfold selectDserv
      rw [List.foldl_cons]
      refine List.foldlRecOn (motive := fun chosen : SelectedDserv =>
        0 < chosen.ndserv ∧ chosen.first ∈ first :: rest) rest _ ?_ ?_
      · exact ⟨Nat.one_pos, List.mem_cons_self⟩
      · intro found chosen serv member
        split
        · exact ⟨Nat.succ_pos _, List.mem_cons_of_mem _ member⟩
        · split
          · split
            · exact ⟨Nat.succ_pos _, List.mem_cons_of_mem _ member⟩
            · exact ⟨Nat.succ_pos _, chosen.2⟩
          · exact chosen

omit [DecidableEq Name] in
theorem metadataPeers_eq_nil_iff {around : Surroundings} {server : CreateServer Name}
    (tables : Tables around server.id) (fdesc : FileDesc) :
    metadataPeers around server (newFileMetaMetaData around server fname fdesc) = [] ↔
      around.mservs = [] ∧ around.dservs = [] := by
  constructor
  · intro none
    obtain ⟨noMserv, noDserv⟩ := List.append_eq_nil_iff.mp none
    constructor
    · by_contra some
      obtain ⟨many, serv, member, isChosen⟩ := selectMserv_chosen some
      have small := tables.small serv member
      have chosen : ((selectMserv around.mservs).2.2 % 2 ^ 16).toNat = serv.id := by
        rw [isChosen]
        omega
      have kept := List.filter_eq_nil_iff.mp (List.map_eq_nil_iff.mp noMserv) serv.id (by
        unfold newFileMetaMetaData
        dsimp only
        rw [if_pos many, chosen]
        exact List.mem_cons_of_mem _ List.mem_cons_self)
      apply kept
      rw [(tables.mservActive serv.id).mpr ⟨serv, member, rfl⟩]
      exact bne_iff_ne.mpr (tables.other serv member)
    · by_contra some
      obtain ⟨positive, member⟩ := selectDserv_chosen some
      have kept := List.filter_eq_nil_iff.mp (List.map_eq_nil_iff.mp noDserv)
        (selectDserv around.dservs).first.id (by
          obtain ⟨few, isFew⟩ : ∃ few, min (selectDserv around.dservs).ndserv 2 = few + 1 :=
            ⟨min (selectDserv around.dservs).ndserv 2 - 1, by omega⟩
          rw [isFew, List.take_succ_cons]
          exact List.mem_cons_self)
      exact kept ((tables.dservActive _).mpr ⟨_, member, rfl⟩)
  · rintro ⟨noMserv, noDserv⟩
    refine List.append_eq_nil_iff.mpr ⟨?_, ?_⟩
    · rw [List.map_eq_nil_iff, List.filter_eq_nil_iff]
      intro id _ kept
      obtain ⟨serv, member, _⟩ := (tables.mservActive id).mp (Bool.and_eq_true_iff.mp kept).1
      rw [noMserv] at member
      cases member
    · rw [noDserv]
      rfl

omit [DecidableEq Name] in
/-- `icreate` finds a server unless an old record stops it or no server is
connected. -/
theorem targets_eq_nil_iff {around : Surroundings} {server : CreateServer Name}
    (tables : Tables around server.id) :
    targets around server fname = [] ↔
      newFileDesc server fname = none ∨ around.mservs = [] ∧ around.dservs = [] := by
  unfold targets
  cases newFileDesc server fname with
  | none => exact iff_of_true rfl (Or.inl rfl)
  | some created =>
      obtain ⟨fdesc, fileId⟩ := created
      dsimp only
      rw [metadataPeers_eq_nil_iff tables]
      exact ⟨Or.inr, fun either => either.resolve_left fun impossible => by cases impossible⟩

omit [DecidableEq Name] in
/-- Only a name that is not being created can be created. -/
theorem closed_of_can {around : Surroundings} {server : CreateServer Name}
    (can : icheckCanCreate around server server.id fname = true) :
    server.fileCreating fname = none := by
  unfold icheckCanCreate at can
  cases record : server.fileCreating fname with
  | none => rfl
  | some creating =>
      rw [record] at can
      exact absurd (of_decide_eq_true can) (Nat.lt_irrefl _)

/-- The invariant of the book. -/
structure Settling (ledger : Ledger Name) : Prop where
  booked : Booked ledger
  waits : ∀ fname, Waits ledger fname

theorem Settling.afterRequest {around : Surroundings} {world : AttemptWorld Name} {size : FileSize}
    {after : Ledger Name} (settling : Settling world.ledger)
    (connected : around.clientActive request.clientId = true)
    (found : icheckCanCreate around world.server world.server.id request.fname = true →
      askedPeers around world.server = [] → targets around world.server request.fname ≠ [])
    (entry : RequestEntry around world request size after) : Settling after := by
  cases entry with
  | refused cannot =>
      rw [connected]
      exact ⟨settling.booked.refuse, settling.waits⟩
  | asks can others =>
      refine ⟨settling.booked.openAttempt size _ (closed_of_can can), ?_⟩
      intro fname
      by_cases same : fname = request.fname
      · rw [same]
        exact waits_new others (Function.update_self _ _ _) rfl rfl
      · exact waits_callsTo (settling.waits fname) same (Function.update_of_ne same _ _) rfl
  | creates can alone =>
      have opened := settling.booked.openAttempt size [] (closed_of_can can)
      refine ⟨opened.create (Function.update_self _ _ _) rfl rfl _, ?_⟩
      intro fname
      by_cases same : fname = request.fname
      · rw [same]
        exact waits_new (found can alone) (Function.update_self _ _ _) rfl rfl
      · have before : Waits (world.ledger.openAttempt request size []) fname :=
          waits_callsTo (settling.waits fname) same (Function.update_of_ne same _ _) rfl
        exact waits_callsTo before same (Function.update_of_ne same _ _) rfl

theorem Settling.afterAnswer {around : Surroundings} {world : AttemptWorld Name} {after : Ledger Name}
    (settling : Settling world.ledger) (found : world.ledger.calls[index]? = some call)
    (isOpen : call.ending = none)
    (decided : ∀ creating, world.server.fileCreating call.fname = some creating →
      around.clientActive creating.clientId = true ∧
        (call.callback = .checkAuthBack → ending.accepts = true → creating.ncheck = 1 →
          targets around world.server call.fname ≠ []))
    (entry : AnswerEntry around world index call ending after) : Settling after := by
  have finished : Booked (world.ledger.finish index call ending) :=
    ⟨settling.booked.owned, settling.booked.replied, settling.booked.answered⟩
  have others : ∀ fname, fname ≠ call.fname → Waits (world.ledger.finish index call ending) fname :=
    fun fname different => waits_finish (settling.waits fname) found isOpen different
  have close : ∀ connected reply fname,
      Waits (((world.ledger.finish index call ending).tell connected reply).close call.fname)
        fname := by
    intro connected reply fname creating record
    rcases Ledger.record_of_update record with ⟨_, impossible⟩ | ⟨different, old⟩
    · cases impossible
    · exact others fname different creating old
  cases entry with
  | stray closed =>
      refine ⟨finished, ?_⟩
      intro fname
      by_cases same : fname = call.fname
      · intro creating record
        rw [same] at record
        exact absurd (closed.symm.trans record) (Option.some_ne_none creating).symm
      · exact others fname same
  | failed creating record refuses =>
      rw [(decided creating record).1]
      exact ⟨finished.closes record none, close _ _⟩
  | counted creating record accepts more =>
      refine ⟨finished.recount { creating with ncheck := creating.ncheck - 1 } record rfl rfl rfl rfl
        rfl rfl, ?_⟩
      intro fname
      by_cases same : fname = call.fname
      · rw [same]
        exact waits_count (settling.waits call.fname) found isOpen record more
      · intro creating' here
        exact others fname same creating' ((Function.update_of_ne same _ _).symm.trans here)
  | creates creating record isCheck accepts last =>
      have counted : Booked ((world.ledger.finish index call ending).count call.fname creating) :=
        finished.recount { creating with ncheck := creating.ncheck - 1 } record rfl rfl rfl rfl rfl rfl
      refine ⟨counted.create (Function.update_self _ _ _) rfl rfl _, ?_⟩
      intro fname
      by_cases same : fname = call.fname
      · rw [same]
        exact waits_new ((decided creating record).2 isCheck accepts last)
          (Function.update_self _ _ _) rfl rfl
      · refine waits_callsTo (others fname same) same ?_ rfl
        exact (Function.update_of_ne same _ _).trans (Function.update_of_ne same _ _)
  | succeeded creating record isMd last md =>
      rw [(decided creating record).1]
      exact ⟨finished.closes record (some md), close _ _⟩

theorem settling_step {world after : AttemptWorld Name} {event : AttemptEvent Name}
    (settling : Settling world.ledger) (connected : clientConnected world event = true)
    (finds : findsTarget world event = true)
    (stepped : world.step event = some after) : Settling after.ledger := by
  rcases entry_of_step stepped with ⟨around, clientId, reqId, fname, size, rfl, entry⟩ |
    ⟨around, index, ending, call, rfl, found, isOpen, entry⟩ | same
  · refine settling.afterRequest connected ?_ entry
    intro can alone
    unfold findsTarget at finds
    dsimp only at finds
    rw [can, alone] at finds
    exact bne_iff_ne.mp finds
  · refine settling.afterAnswer found isOpen ?_ entry
    intro creating record
    unfold clientConnected at connected
    unfold findsTarget at finds
    dsimp only at connected finds
    rw [found, Option.all_some, record, Option.all_some] at connected finds
    refine ⟨connected, ?_⟩
    intro isCheck accepts last
    rw [isCheck, accepts, last] at finds
    exact bne_iff_ne.mp finds
  · exact same ▸ settling

/-- One reply has been sent for each request for the name, and `file_creating`
has no entry for it. -/
def Settled (world : AttemptWorld Name) (fname : Name) : Prop :=
  world.server.fileCreating fname = none ∧
    ∀ number request, world.requests[number]? = some request → request.fname = fname →
      AnsweredOnce world.replies number request

end

end

/-! ## Runs of one server -/

/-- Only a data server and the clients are connected. -/
def oneDserv : Surroundings where
  mservs := []
  dservs := [⟨1, 1⟩]
  mservActive := fun _ => false
  dservActive := fun id => id == 1
  clientActive := fun _ => true
  strayFlags := 0
  freshFlags := 0
  freshMservs := fun _ => 0
  blockNum := fun _ => 1

/-- File 7 is created; a second request for it is refused. -/
def twoReplies : AttemptWorld Nat :=
  (attemptSystem Nat).outcome (startedMserv 1)
    [.request oneDserv 4 1 7 ⟨0, 0⟩, .answer oneDserv 0 (.answered 1),
      .request oneDserv 5 1 7 ⟨0, 0⟩]

/-- A client asks a server that is connected to no other. -/
def noTarget : AttemptWorld Nat :=
  (attemptSystem Nat).outcome (startedMserv 1)
    [.request { oneDserv with dservs := [], dservActive := fun _ => false } 4 1 7 ⟨0, 0⟩]

end SimpleDfs.Mserv
