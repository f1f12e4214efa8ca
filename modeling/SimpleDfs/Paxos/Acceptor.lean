import SimpleDfs.Common.Id
import SimpleDfs.Library.Table
import SimpleDfs.Paxos.Topic
import Mathlib.Data.BitVec
import Mathlib.Data.List.Find
import Mathlib.Data.List.Induction

/-!
Contract: the state of the Paxos layer and its acceptor
(`core/s_core_paxos.h`, `core/s_core_paxos.c`).

Owns: `struct s_paxos` and the records in its tables, `iaccept`,
`ireceive_request`, `ireceive_refresh_accept` and `ireceive_learn_request`,
with the answers they give.

The iteration order of the hash tables, and the start that
`ireceive_refresh_accept` leaves uninitialised, are arguments (`Layout`).

Does not own: learning, proposals, the bytes of a packet.
-/

set_option autoImplicit false

namespace SimpleDfs.Paxos

open SimpleDfs.Common
open SimpleDfs.Library

/-- A proposed value, a C `int`. -/
abbrev Value := BitVec 32

/-- `S_PAXOS_PROPOSAL_ADD`, `_RM`, `_NORMAL`. -/
inductive ProposalType where
  | add
  | rm
  | normal
  deriving DecidableEq, Repr

/-- `struct s_paxos_version`; `nserv` is the length of `servs`. -/
structure PaxosVersion where
  version : Int
  servs : List Nat
  deriving DecidableEq, Repr

def PaxosVersion.nserv (version : PaxosVersion) : Nat :=
  version.servs.length

/-- `struct s_paxos_accept`, also the form in which an entry travels. -/
structure PaxosAccept where
  topic : Topic
  id : SId
  value : Value
  deriving DecidableEq, Repr

/-- `struct s_paxos_learn`, in the list of its topic. -/
structure PaxosLearn where
  value : Value
  servId : Nat
  id : SId
  deriving DecidableEq, Repr

/-- `struct s_paxos`.  `id` numbers the next proposal. -/
structure SPaxos where
  version : PaxosVersion
  responseVersion : Int
  response : Table Topic SId
  accept : Table Topic (List PaxosAccept)
  learn : Table Topic (List PaxosLearn)
  backup : Table Nat (List PaxosAccept)
  id : Nat
  learnReqCount : Int

/-- `s_paxos_create`: server 1 is the whole of version 1, everybody else knows
no version. -/
def sPaxosCreate (servId : Nat) : SPaxos where
  version :=
    if servId = 1 then { version := 1, servs := [1] } else { version := 0, servs := [] }
  responseVersion := 0
  response := ∅
  accept := ∅
  learn := ∅
  backup := ∅
  id := 1
  learnReqCount := 0

/-- What a handler's result can depend on besides its arguments: the order in
which a hash table lists its keys, and the start of the backup scan for entry
number `n` of a packet. -/
structure Layout where
  topics : IterOrder Topic
  servers : IterOrder Nat
  dummy : Nat → Nat

/-- The layout that lists the newest key first and scans every backup. -/
def Layout.natural : Layout where
  topics := IterOrder.natural
  servers := IterOrder.natural
  dummy := fun _ => 0

/-- The accept list of a topic. -/
def SPaxos.accepts (paxos : SPaxos) (topic : Topic) : List PaxosAccept :=
  (paxos.accept.lookup topic).getD []

/-- `s_paxos_is_in`. -/
def sPaxosIsIn (paxos : SPaxos) (serv : Nat) : Bool :=
  paxos.version.servs.contains serv

/-! ## Accepting -/

/-- The loop of `iaccept`: raise the id of the entry with this value, or append
an entry. -/
def acceptInto (topic : Topic) (id : SId) (value : Value) : List PaxosAccept → List PaxosAccept
  | [] => [{ topic := topic, id := id, value := value }]
  | accept :: rest =>
      if accept.topic = topic ∧ accept.value = value then
        (if sIdGt id accept.id then { accept with id := id } else accept) :: rest
      else
        accept :: acceptInto topic id value rest

/-- The promise that refuses `id`. -/
def promiseRefuses (paxos : SPaxos) (topic : Topic) (id : SId) : Bool :=
  match paxos.response.lookup topic with
  | none => false
  | some pid => sIdGt pid id

/-- `iaccept`.  A version that is not positive is not checked. -/
def iaccept (paxos : SPaxos) (topic : Topic) (id : SId) (value : Value) (version : Int) : SPaxos :=
  let v := igetNewVersion topic
  if version > 0 ∧ version ≠ paxos.version.version then paxos
  else if version > 0 ∧ version < paxos.responseVersion ∧ v < paxos.responseVersion then paxos
  else if promiseRefuses paxos topic id then paxos
  else
    { paxos with
      accept := paxos.accept.insert topic (acceptInto topic id value (paxos.accepts topic)) }

/-! ## Prepare requests -/

/-- The body of a PAXOS_REQUEST. -/
structure PrepareRequest where
  topic : Topic
  id : SId
  value : Value
  type : ProposalType
  theServ : Nat
  version : PaxosVersion
  deriving DecidableEq, Repr

/-- The answer to a PAXOS_REQUEST.  `report` is present for
`S_PAXOS_RESPONSE_VALUE`; the lists are empty where the type of the request
does not ask for them. -/
inductive PrepareReply where
  | badVersion
  | promise (report : Option (SId × Value)) (backup : List PaxosAccept)
      (accepts : List (Topic × List PaxosAccept))
  deriving DecidableEq, Repr

/-- The scan of `ireceive_request` for the greatest accepted id below the
request's. -/
def prepareReport (id : SId) (accepts : List PaxosAccept) : SId × Value :=
  accepts.foldl
    (fun best accept =>
      if sIdGt id accept.id && sIdGt accept.id best.1 then (accept.id, accept.value) else best)
    (⟨0, 0⟩, -1)

/-- The scan keeps the first of the visible entries with the greatest id. -/
theorem prepareReport_first (id : SId) (accepts : List PaxosAccept) :
    (∀ accept ∈ accepts, accept.id < id → accept.id ≤ (prepareReport id accepts).1) ∧
      (prepareReport id accepts = (⟨0, 0⟩, -1) ∨
        ⟨0, 0⟩ < (prepareReport id accepts).1 ∧ (prepareReport id accepts).1 < id ∧
        ∃ accept, accepts.find? (fun accept => accept.id == (prepareReport id accepts).1) =
            some accept ∧
          prepareReport id accepts = (accept.id, accept.value)) := by
  induction accepts using List.reverseRecOn with
  | nil => exact ⟨fun _ member => absurd member List.not_mem_nil, Or.inl rfl⟩
  | append_singleton accepts last inductionHypothesis =>
      obtain ⟨covers, origin⟩ := inductionHypothesis
      have turn : prepareReport id (accepts ++ [last]) =
          if sIdGt id last.id && sIdGt last.id (prepareReport id accepts).1 then
            (last.id, last.value) else prepareReport id accepts := by
        rw [prepareReport, List.foldl_append]
        rfl
      rw [turn]
      split
      next raised =>
        rw [Bool.and_eq_true, sIdGt_iff, sIdGt_iff] at raised
        have zero : (⟨0, 0⟩ : SId) ≤ (prepareReport id accepts).1 := by
          rcases origin with same | ⟨positive, _⟩
          · rw [same]
          · exact positive.le
        refine ⟨?_, Or.inr ⟨zero.trans_lt raised.2, raised.1, last, ?_, rfl⟩⟩
        · intro accept member below
          rcases List.mem_append.mp member with old | new
          · exact (covers accept old below).trans raised.2.le
          · rw [List.mem_singleton.mp new]
        · rw [List.find?_append, List.find?_eq_none.mpr]
          · simp
          · intro accept member
            rw [beq_iff_eq]
            intro same
            have low := covers accept member (same ▸ raised.1)
            rw [same] at low
            exact absurd raised.2 (not_lt.mpr low)
      next passed =>
        rw [Bool.and_eq_true, sIdGt_iff, sIdGt_iff] at passed
        constructor
        · intro accept member below
          rcases List.mem_append.mp member with old | new
          · exact covers accept old below
          · rw [List.mem_singleton.mp new] at below ⊢
            exact not_lt.mp fun above => passed ⟨below, above⟩
        · rcases origin with same | ⟨positive, below, accept, found, same⟩
          · exact Or.inl same
          · refine Or.inr ⟨positive, below, accept, ?_, same⟩
            rw [List.find?_append, found]
            rfl

/-- Save the response: a promise only grows. -/
def savePromise (response : Table Topic SId) (topic : Topic) (id : SId) : Table Topic SId :=
  match response.lookup topic with
  | none => response.insert topic id
  | some pid => if sIdGt id pid then response.insert topic id else response

/-- `ireceive_request`.  The request is decoded into a proposal of its own,
which takes a number. -/
def ireceiveRequest (layout : Layout) (paxos : SPaxos) (request : PrepareRequest) :
    SPaxos × PrepareReply :=
  let paxos := { paxos with id := paxos.id + 1 }
  if paxos.version.version ≠ request.version.version then (paxos, .badVersion)
  else
    let best := prepareReport request.id (paxos.accepts request.topic)
    let report := if best.2.toInt < 0 then none else some best
    let backup :=
      if request.type = .rm then (paxos.backup.lookup request.theServ).getD [] else []
    let accepts :=
      if request.type ≠ .normal then
        (layout.topics.arrange paxos.accept.keys).map fun topic => (topic, paxos.accepts topic)
      else []
    let responseVersion :=
      if request.type ≠ .normal then igetNewVersion request.topic else paxos.responseVersion
    ({ paxos with
        responseVersion := responseVersion
        response := savePromise paxos.response request.topic request.id },
      .promise report backup accepts)

/-- The request changes none of the tables, nor the version. -/
theorem ireceiveRequest_tables (layout : Layout) (paxos : SPaxos) (request : PrepareRequest) :
    (ireceiveRequest layout paxos request).1.accept = paxos.accept ∧
      (ireceiveRequest layout paxos request).1.learn = paxos.learn ∧
      (ireceiveRequest layout paxos request).1.version = paxos.version := by
  unfold ireceiveRequest
  dsimp only
  split <;> exact ⟨rfl, rfl, rfl⟩

/-! ## Refreshing the accept table -/

/-- What `idump_learn` writes: the version and the majority values. -/
structure Dump where
  version : PaxosVersion
  entries : List PaxosAccept
  deriving DecidableEq, Repr

/-- The scan of `ireceive_refresh_accept` over one accept list: entries before
the first with the listed value are removed; without one the listed entry is
appended. -/
def refreshInto (entry : PaxosAccept) (accepts : List PaxosAccept) : List PaxosAccept :=
  match accepts.dropWhile fun accept => decide (accept.value ≠ entry.value) with
  | [] => [entry]
  | kept => kept

/-- The scan over the backups of the servers in `visited`. -/
def refreshBackup (entry : PaxosAccept) (backup : Table Nat (List PaxosAccept)) :
    List Nat → Table Nat (List PaxosAccept)
  | [] => backup
  | serv :: visited =>
      let kept := ((backup.lookup serv).getD []).filter fun accept =>
        !(accept.topic == entry.topic && accept.value != entry.value)
      refreshBackup entry (backup.insert serv kept) visited

/-- One entry of a REFRESH_ACCEPT packet. -/
def refreshEntry (layout : Layout) (paxos : SPaxos) (number : Nat) (entry : PaxosAccept) : SPaxos :=
  { paxos with
    accept := paxos.accept.insert entry.topic (refreshInto entry (paxos.accepts entry.topic))
    backup := refreshBackup entry paxos.backup
      ((layout.servers.arrange paxos.backup.keys).drop (layout.dummy number)) }

/-- The entry loop of `ireceive_refresh_accept`. -/
def refreshLoop (layout : Layout) : SPaxos → Nat → List PaxosAccept → SPaxos
  | paxos, _, [] => paxos
  | paxos, number, entry :: rest =>
      refreshLoop layout (refreshEntry layout paxos number entry) (number + 1) rest

/-- `ireceive_refresh_accept`; the flag is whether it answers. -/
def ireceiveRefreshAccept (layout : Layout) (paxos : SPaxos) (dump : Dump) : SPaxos × Bool :=
  if dump.version.version ≠ paxos.version.version then (paxos, false)
  else (refreshLoop layout paxos 0 dump.entries, true)

/-! ## Learn requests -/

/-- The answer to a LEARN_REQUEST: the version asked for and the whole accept
table. -/
structure LearnReply where
  version : Int
  entries : List PaxosAccept
  deriving DecidableEq, Repr

/-- `ireceive_learn_request`. -/
def ireceiveLearnRequest (layout : Layout) (paxos : SPaxos) (version : Int) : LearnReply where
  version := version
  entries := (layout.topics.arrange paxos.accept.keys).flatMap paxos.accepts

end SimpleDfs.Paxos
