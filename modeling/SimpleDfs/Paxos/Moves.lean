import SimpleDfs.Paxos.Effects

/-!
Contract: what a server can do in one handler, as a chain of moves.

Owns: `Move`, and for every handler of the Paxos layer the moves it makes.
The count of a prepare response is not a move: a handler of responses is shown
to make its moves after that count.

Does not own: what the moves preserve.
-/

set_option autoImplicit false

namespace SimpleDfs.Paxos

open SimpleDfs.Common
open SimpleDfs.Library

/-- The prepare calls of a proposal that are pending. -/
def Core.preparing (core : Core) (key : Nat) : List RpcCall :=
  core.calls.filter fun call => call.callback == .receiveResponse key

/-- More than half of the members of the proposal's version have been counted. -/
def PaxosProposal.pastMajority (p : PaxosProposal) : Prop :=
  p.response.count > p.version.nserv / 2

instance (p : PaxosProposal) : Decidable p.pastMajority :=
  inferInstanceAs (Decidable (_ > _))

/-- A body that is no call, no ACCEPT and no answer to a prepare or learn
request. -/
def PaxosBody.isNotice : PaxosBody → Bool
  | .addMe => true
  | .rpcBack _ .done => true
  | _ => false

/-- The proposal a callback is for. -/
def Callback.proposal : Callback → Option Nat
  | .receiveResponse key => some key
  | .addNewServOk key => some key
  | .refreshAcceptBack key => some key
  | .receiveLearn => none

/-- The request loop of a proposal has reached a member: nothing but prepare
calls to other members has happened to the proposal. -/
structure Asking (core : Core) (key : Nat) (p : PaxosProposal) (serv : Nat) : Prop where
  found : core.proposals.lookup key = some p
  member : serv ∈ p.version.servs
  unasked : ∀ call ∈ core.preparing key, call.peer ≠ serv
  allPending : (core.preparing key).length = p.response.nsent
  uncounted : p.response.count = 0
  onlyAsked : ∀ call ∈ core.calls, call.callback.proposal = some key →
    call.callback = .receiveResponse key

section

variable (second : Nat → Prop) (created : PaxosProposal → Prop)

/-- One move of a server.  `second` holds of the proposals that may enter their
second phase without a majority counted here, `created` of new ones. -/
inductive Move : Core → Core → Prop where
  | state (core : Core) (paxos : SPaxos) (active : Nat → Bool) (reported : List PaxosAccept)
      (aborted : Bool) (numbers : core.paxos.id ≤ paxos.id)
      (members : core.paxos.version.servs.Nodup → paxos.version.servs.Nodup) :
      Move core
        { core with paxos := paxos, active := active, reported := reported, aborted := aborted }
  | refer (core : Core) (key : Nat) (p : PaxosProposal) (refCount : Nat)
      (found : core.proposals.lookup key = some p) :
      Move core
        { core with proposals := core.proposals.insert key { p with refCount := refCount } }
  | recount (core : Core) (key : Nat) (p : PaxosProposal) (count : Int)
      (found : core.proposals.lookup key = some p) (removal : p.type = .rm)
      (answered : p.response.count = p.response.nsent) :
      Move core
        { core with
          proposals := core.proposals.insert key
            { p with response := { p.response with count := count } } }
  | create (core : Core) (p : PaxosProposal) (allowed : created p)
      (named : p.id = ⟨core.id, core.paxos.id⟩) (version : p.version = core.paxos.version)
      (fresh : p.response = { nsent := 0, count := 0, maxId := ⟨0, 0⟩, value := -1 }) :
      Move core
        { core with
          paxos := { core.paxos with id := core.paxos.id + 1 }
          proposals := core.proposals.insert core.paxos.id p }
  | request (core : Core) (key : Nat) (p : PaxosProposal) (serv : Nat)
      (asking : Asking core key p serv) : Move core (sendRequest key p.request core serv)
  | learnCall (core : Core) (serv : Nat) (version : Int) :
      Move core (core.rpcCall serv (fun req => .learnRequest req version) .receiveLearn)
  | addCall (core : Core) (key : Nat) (p : PaxosProposal) (serv : Nat) (dump : Dump)
      (found : core.proposals.lookup key = some p) (addition : p.type = .add)
      (answered : p.response.count = p.version.nserv) (version : dump.version = core.paxos.version) :
      Move core (core.rpcCall serv (fun req => .addAccept req dump) (.addNewServOk key))
  | refreshCall (core : Core) (key : Nat) (p : PaxosProposal) (serv : Nat) (dump : Dump)
      (found : core.proposals.lookup key = some p) (removal : p.type = .rm)
      (answered : p.response.count = p.response.nsent) :
      Move core (core.rpcCall serv (fun req => .refreshAccept req dump) (.refreshAcceptBack key))
  | accept (core : Core) (key : Nat) (p : PaxosProposal) (serv : Nat)
      (found : core.proposals.lookup key = some p)
      (cleared : p.type = .normal ∧ p.pastMajority ∨ p.type ≠ .normal ∧ second key) :
      Move core (core.send serv (.accept p.topic p.id p.value p.version.version))
  | notify (core : Core) (serv : Nat) (body : PaxosBody) (notice : body.isNotice = true) :
      Move core (core.send serv body)

/-- A chain of moves. -/
abbrev Moves : Core → Core → Prop :=
  Relation.ReflTransGen (Move second created)

end

section

variable {second : Nat → Prop} {created : PaxosProposal → Prop}

/-- The moves of a loop over the members. -/
theorem moves_forMembers (core : Core) (body : Core → Nat → Core) (P : Core → Prop)
    (turn : ∀ core serv, P core →
      Moves second created core (body core serv) ∧ P (body core serv))
    (start : P core) :
    Moves second created core (core.forMembers body) ∧ P (core.forMembers body) := by
  apply core.forMembers_keeps (fun after => Moves second created core after ∧ P after) body
  · intro after serv facts
    have next := turn after serv facts.2
    exact ⟨facts.1.trans next.1, next.2⟩
  · exact ⟨Relation.ReflTransGen.refl, start⟩

theorem moves_grab (core : Core) (key : Nat) :
    Moves second created core (sPaxosProposalGrab core key) := by
  unfold sPaxosProposalGrab Core.modifyProposal
  split
  · exact Relation.ReflTransGen.refl
  next p found => exact Relation.ReflTransGen.single (Move.refer core key p _ found)

theorem moves_drop (core : Core) (key : Nat) :
    Moves second created core (sPaxosProposalDrop core key) := by
  unfold sPaxosProposalDrop
  split
  · exact Relation.ReflTransGen.refl
  next p found =>
    split
    · exact Relation.ReflTransGen.single (Move.refer core key p _ found)
    · apply Relation.ReflTransGen.single
      exact Move.state core core.paxos core.active core.reported true le_rfl id

/-- A broadcast of ACCEPT. -/
theorem moves_sendAccept (core : Core) (key : Nat) (p : PaxosProposal)
    (found : core.proposals.lookup key = some p)
    (cleared : p.type = .normal ∧ p.pastMajority ∨ p.type ≠ .normal ∧ second key) :
    Moves second created core (sendAccept core p) := by
  have loop := moves_forMembers core
    (fun core serv => core.send serv (.accept p.topic p.id p.value p.version.version))
    (fun after => after.proposals.lookup key = some p)
    (fun after serv kept => And.intro
      (Relation.ReflTransGen.single
        (@Move.accept second created after key p serv kept cleared)) kept)
    found
  exact loop.1

/-! ## Starting a proposal -/

/-- A prepare call is pending once it is made. -/
theorem preparing_sendRequest (core : Core) (key : Nat) (request : PrepareRequest) (serv : Nat) :
    (sendRequest key request core serv).preparing key =
      core.preparing key ++
        [{ req := core.reqId, peer := serv, callback := .receiveResponse key }] := by
  rw [sendRequest_eq]
  unfold Core.preparing
  rw [List.filter_append]
  simp

/-- The request loop of `s_paxos_start` over the members still to be asked. -/
theorem moves_sendRequests (key : Nat) (request : PrepareRequest) (servs : List Nat) :
    ∀ (core : Core) (p : PaxosProposal), p.request = request → servs.Nodup →
      (∀ serv ∈ servs, Asking core key p serv) →
      Moves second created core
        (servs.foldl
          (fun core serv => if core.active serv then sendRequest key request core serv else core)
          core) := by
  induction servs with
  | nil => exact fun core p _ _ _ => Relation.ReflTransGen.refl
  | cons serv rest inductionHypothesis =>
      intro core p same distinct asking
      have distinctRest := List.nodup_cons.mp distinct
      have here := asking serv List.mem_cons_self
      have askingRest := fun other member => asking other (List.mem_cons_of_mem serv member)
      rw [List.foldl_cons]
      split
      · have foundNext := lookup_sendRequest core p.request serv here.found
        have pending := preparing_sendRequest core key p.request serv
        have ask := @Move.request second created core key p serv here
        have calls : ∀ call ∈ (sendRequest key p.request core serv).calls,
            call ∈ core.calls ∨ call.callback = .receiveResponse key := by
          intro call member
          rw [sendRequest_eq] at member
          rcases List.mem_append.mp member with old | new
          · exact Or.inl old
          · rw [List.mem_singleton.mp new]
            exact Or.inr rfl
        rw [same] at ask pending foundNext calls
        apply Relation.ReflTransGen.head ask
        apply inductionHypothesis _
          { p with
            refCount := p.refCount + 1
            response := { p.response with nsent := p.response.nsent + 1 } } same distinctRest.2
        intro other member
        have before := askingRest other member
        refine ⟨foundNext, before.member, ?_, ?_, before.uncounted, ?_⟩
        · intro call waiting
          rw [pending] at waiting
          rcases List.mem_append.mp waiting with old | new
          · exact before.unasked call old
          · rw [List.mem_singleton.mp new]
            intro equal
            exact distinctRest.1 ((show serv = other from equal) ▸ member)
        · have counted := before.allPending
          rw [pending, List.length_append, List.length_singleton]
          push_cast
          omega
        · intro call member isKey
          rcases calls call member with old | new
          · exact before.onlyAsked call old isKey
          · exact new
      · exact inductionHypothesis core p same distinctRest.2 askingRest

/-- The proposal `s_paxos_start` creates. -/
def startedProposal (core : Core) (topic : Topic) (value : Value) (type : ProposalType)
    (theServ : Nat) : PaxosProposal where
  refCount := 1
  version := core.paxos.version
  topic := topic
  value :=
    if type = .add ∧ sPaxosIsIn core.paxos theServ then value
    else proposalValue core.paxos value type theServ
  type := type
  theServ := theServ
  id := ⟨core.id, core.paxos.id⟩
  response := { nsent := 0, count := 0, maxId := ⟨0, 0⟩, value := -1 }

theorem moves_sPaxosStart (core : Core) (topic : Topic) (value : Value) (type : ProposalType)
    (theServ : Nat) (distinct : core.paxos.version.servs.Nodup)
    (unused : ∀ call ∈ core.calls, call.callback.proposal ≠ some core.paxos.id)
    (allowed : created (startedProposal core topic value type theServ)) :
    Moves second created core (sPaxosStart core topic value type theServ) := by
  unfold sPaxosStart
  split
  · exact Relation.ReflTransGen.refl
  · dsimp only [sPaxosProposalCreate]
    have create := @Move.create second created core (startedProposal core topic value type theServ)
      allowed rfl rfl rfl
    split
    next known =>
      have inGroup : type = .add ∧ sPaxosIsIn core.paxos theServ = true := known
      unfold startedProposal at create
      rw [if_pos inGroup] at create
      exact Relation.ReflTransGen.single create
    next unknown =>
      have outside : ¬ (type = .add ∧ sPaxosIsIn core.paxos theServ = true) := unknown
      unfold startedProposal at create
      rw [if_neg outside] at create
      apply Relation.ReflTransGen.head create
      apply Relation.ReflTransGen.trans _ (moves_drop _ _)
      unfold Core.forMembers
      apply moves_sendRequests core.paxos.id _ _ _ _ rfl distinct
      intro serv member
      have none : core.preparing core.paxos.id = [] := by
        apply List.filter_eq_nil_iff.mpr
        intro call pending waiting
        apply unused call pending
        rw [beq_iff_eq.mp waiting]
        rfl
      refine ⟨AList.lookup_insert _, member, ?_, ?_, rfl, ?_⟩
      · intro call waiting
        have old : call ∈ core.preparing core.paxos.id := waiting
        rw [none] at old
        exact absurd old List.not_mem_nil
      · exact congrArg (fun calls => ((List.length calls : Nat) : Int)) none
      · exact fun call pending isKey => absurd isKey (unused call pending)

theorem moves_sPaxosLearnAll (core : Core) : Moves second created core (sPaxosLearnAll core) := by
  unfold sPaxosLearnAll
  have clear := @Move.state second created core { core.paxos with learn := ∅ } core.active
    core.reported core.aborted le_rfl id
  apply Relation.ReflTransGen.head clear
  have loop := @moves_forMembers second created
    { core with paxos := { core.paxos with learn := ∅ } }
    (fun after serv => after.rpcCall serv
      (fun req => .learnRequest req core.paxos.version.version) .receiveLearn)
    (fun _ => True)
    (fun after serv _ => And.intro (Relation.ReflTransGen.single (Move.learnCall after serv _)) trivial)
    trivial
  apply loop.1.tail
  exact Move.state _ _ _ _ _ le_rfl id

/-! ## Prepare responses -/

/-- A call that takes a share in its proposal. -/
theorem grab_spec (core : Core) (key : Nat) (p : PaxosProposal)
    (found : core.proposals.lookup key = some p) :
    (sPaxosProposalGrab core key).proposals.lookup key =
      some { p with refCount := p.refCount + 1 } := by
  unfold sPaxosProposalGrab
  rw [Core.modifyProposal_eq]
  dsimp only [Core.writtenProposals]
  rw [found]
  exact AList.lookup_insert _

theorem moves_addAnswered (layout : Layout) (core : Core) (key : Nat) (p : PaxosProposal)
    (found : core.proposals.lookup key = some p) (addition : p.type = .add) :
    Moves second created core (addAnswered layout core key p) := by
  unfold addAnswered
  split
  next answered =>
    split
    · exact Relation.ReflTransGen.refl
    · split
      · have prune := @Move.state second created core (idumpLearn layout core.paxos).1 core.active
          core.reported core.aborted le_rfl id
        apply Relation.ReflTransGen.head prune
        dsimp only
        apply Relation.ReflTransGen.trans (moves_grab _ key)
        have grabbed := grab_spec { core with paxos := (idumpLearn layout core.paxos).1 } key p found
        have call := @Move.addCall second created _ key _ p.theServ
          (idumpLearn layout core.paxos).2 grabbed addition answered
          (by rw [sPaxosProposalGrab_paxos]; rfl)
        apply Relation.ReflTransGen.head call
        exact moves_drop _ key
      · exact Relation.ReflTransGen.refl
  next => exact moves_drop core key

theorem moves_rmAnswered (layout : Layout) (core : Core) (key : Nat) (p : PaxosProposal)
    (found : core.proposals.lookup key = some p) (removal : p.type = .rm) :
    Moves second created core (rmAnswered layout core key p) := by
  unfold rmAnswered
  split
  next answered =>
    split
    · exact Relation.ReflTransGen.refl
    · have prune := @Move.state second created core (idumpLearn layout core.paxos).1 core.active
        core.reported core.aborted le_rfl id
      apply Relation.ReflTransGen.head prune
      dsimp only
      -- every refresh call leaves the counters of the proposal alone
      have loop := @moves_forMembers second created
        { core with paxos := (idumpLearn layout core.paxos).1 }
        (sendRefresh key (idumpLearn layout core.paxos).2)
        (fun after => ∃ p, after.proposals.lookup key = some p ∧ p.type = .rm ∧
          p.response.count = p.response.nsent)
        (by
          intro after serv facts
          obtain ⟨q, foundNow, removalNow, answeredNow⟩ := facts
          have grabbed := grab_spec after key q foundNow
          have call := @Move.refreshCall second created _ key _ serv
            (idumpLearn layout core.paxos).2 grabbed removalNow answeredNow
          exact ⟨(moves_grab after key).tail call, _, grabbed, removalNow, answeredNow⟩)
        ⟨p, found, removal, answered⟩
      obtain ⟨asked, q, foundNow, removalNow, answeredNow⟩ := loop
      apply Relation.ReflTransGen.trans asked
      apply Relation.ReflTransGen.trans _ (moves_drop _ key)
      unfold Core.modifyProposal
      rw [foundNow]
      exact Relation.ReflTransGen.single (Move.recount _ key q _ foundNow removalNow answeredNow)
  next => exact moves_drop core key

end

/-! ## Numbers and members -/

/-- Proposal numbers are not given out twice, and members stay distinct. -/
structure Grows (before after : SPaxos) : Prop where
  numbers : before.id ≤ after.id
  members : before.version.servs.Nodup → after.version.servs.Nodup

theorem valueServs_nodup (value : Value) : (valueServs value).Nodup :=
  List.nodup_range.filter _

theorem Grows.of_same {before after : SPaxos} (numbers : after.id = before.id)
    (version : after.version = before.version) : Grows before after :=
  ⟨numbers.ge, fun distinct => version ▸ distinct⟩

theorem learnerClosed_grows (layout : Layout) (coreId : Nat) :
    LearnerClosed layout coreId Grows where
  refl := fun _ => Grows.of_same rfl rfl
  trans := fun early late =>
    ⟨early.numbers.trans late.numbers, fun distinct => late.members (early.members distinct)⟩
  learn := fun _ _ _ => Grows.of_same rfl rfl
  check := by
    intro paxos
    rcases icheckNewVersion_eq layout coreId paxos with same | ⟨value, accept, same⟩
    · rw [same]
      exact Grows.of_same rfl rfl
    · rw [same]
      exact ⟨le_rfl, fun _ => valueServs_nodup value⟩

/-! ## Callbacks -/

/-- What a proposal becomes when a reply to one of its prepare calls counts. -/
def PaxosProposal.counted (p : PaxosProposal) (reply : Option PrepareReply) :
    Option PaxosProposal :=
  let more := { p with response := { p.response with count := p.response.count + 1 } }
  match reply with
  | some .badVersion => none
  | none => if p.type = .normal then none else some more
  | some (.promise report _ _) =>
      some (if p.type = .normal then p.countResponse report else more.noteReport report)

/-- The proposal a reply is counted for. -/
def noteResponse (core : Core) (key : Nat) (reply : Option PrepareReply) : Core :=
  match core.proposals.lookup key with
  | none => core
  | some p =>
      match p.counted reply with
      | none => core
      | some q => { core with proposals := core.proposals.insert key q }

/-- What a callback counts before it makes its moves. -/
def noteCallback (core : Core) (callback : Callback) (reply : Option RpcReply) : Core :=
  match callback, reply with
  | .receiveResponse key, none => noteResponse core key none
  | .receiveResponse key, some (.prepare reply) => noteResponse core key (some reply)
  | .refreshAcceptBack key, _ =>
      core.modifyProposal key fun p =>
        { p with response := { p.response with count := p.response.count - 1 } }
  | _, _ => core

section

variable {second : Nat → Prop} {created : PaxosProposal → Prop}

theorem moves_paxos (core : Core) (paxos : SPaxos) (grown : Grows core.paxos paxos) :
    Moves second created core { core with paxos := paxos } :=
  Relation.ReflTransGen.single
    (Move.state core paxos core.active core.reported core.aborted grown.numbers grown.members)

/-- A report is noted in the response part only. -/
theorem noteReport_type (p : PaxosProposal) (report : Option (SId × Value)) :
    (p.noteReport report).type = p.type := by
  unfold PaxosProposal.noteReport
  split
  · rfl
  · split <;> rfl

theorem moves_ireceiveResponseAdd (layout : Layout) (core : Core) (servFrom key : Nat)
    (p : PaxosProposal) (reply : Option PrepareReply)
    (found : core.proposals.lookup key = some p) (addition : p.type = .add) :
    Moves second created (noteResponse core key reply)
      (ireceiveResponseAdd layout core servFrom key p reply) := by
  have notNormal : p.type ≠ .normal := fun normal => nomatch addition.symm.trans normal
  have learnt := (learnerClosed_grows layout core.id).calls
  unfold noteResponse PaxosProposal.counted ireceiveResponseAdd
  rw [found]
  dsimp only
  cases reply with
  | none =>
      rw [if_neg notNormal]
      exact moves_addAnswered layout _ key _ (AList.lookup_insert _) addition
  | some reply =>
      cases reply with
      | badVersion => exact moves_drop core key
      | promise report backup accepts =>
          dsimp only
          rw [if_neg notNormal]
          have grown := learnt.ilearnTable servFrom accepts core.paxos
          refine Relation.ReflTransGen.trans (moves_paxos _ _ ?_)
            (moves_addAnswered layout _ key _ (AList.lookup_insert _) ?_)
          · exact grown
          · rw [noteReport_type]
            exact addition

theorem moves_ireceiveResponseRm (layout : Layout) (core : Core) (servFrom key : Nat)
    (p : PaxosProposal) (reply : Option PrepareReply)
    (found : core.proposals.lookup key = some p) (removal : p.type = .rm) :
    Moves second created (noteResponse core key reply)
      (ireceiveResponseRm layout core servFrom key p reply) := by
  have notNormal : p.type ≠ .normal := fun normal => nomatch removal.symm.trans normal
  have learnt := (learnerClosed_grows layout core.id).calls
  unfold noteResponse PaxosProposal.counted ireceiveResponseRm
  rw [found]
  dsimp only
  cases reply with
  | none =>
      rw [if_neg notNormal]
      exact moves_rmAnswered layout _ key _ (AList.lookup_insert _) removal
  | some reply =>
      cases reply with
      | badVersion => exact moves_drop core key
      | promise report backup accepts =>
          dsimp only
          rw [if_neg notNormal]
          have grown := fun servId table => learnt.trans
            (learnt.ilearnTable servId table core.paxos) (learnt.ilearnTable servFrom accepts _)
          refine Relation.ReflTransGen.trans (moves_paxos _ _ ?_)
            (moves_rmAnswered layout _ key _ (AList.lookup_insert _) ?_)
          · exact grown _ _
          · rw [noteReport_type]
            exact removal

theorem moves_iresponse (core : Core) (key : Nat) (p : PaxosProposal)
    (report : Option (SId × Value)) (normal : p.type = .normal) :
    Moves second created
      { core with proposals := core.proposals.insert key (p.countResponse report) }
      (iresponse core key p report) := by
  unfold iresponse
  dsimp only
  split
  next past =>
    have sameType : (p.countResponse report).type = .normal := by
      unfold PaxosProposal.countResponse
      dsimp only
      split
      · exact normal
      · split <;> exact normal
    exact moves_sendAccept _ key _ (AList.lookup_insert _) (Or.inl ⟨sameType, past⟩)
  next => exact Relation.ReflTransGen.refl

theorem moves_ireceiveResponse (layout : Layout) (core : Core) (servFrom key : Nat)
    (reply : Option PrepareReply) :
    Moves second created (noteResponse core key reply)
      (ireceiveResponse layout core servFrom key reply) := by
  unfold ireceiveResponse
  cases found : core.proposals.lookup key with
  | none =>
      unfold noteResponse
      rw [found]
  | some p =>
      dsimp only
      split
      next addition => exact moves_ireceiveResponseAdd layout core servFrom key p reply found addition
      next removal => exact moves_ireceiveResponseRm layout core servFrom key p reply found removal
      next normal =>
        unfold noteResponse PaxosProposal.counted
        rw [found]
        dsimp only
        cases reply with
        | none =>
            rw [if_pos normal]
            exact moves_drop core key
        | some reply =>
            cases reply with
            | badVersion => exact moves_drop core key
            | promise report backup accepts =>
                dsimp only
                rw [if_pos normal]
                exact (moves_iresponse core key p report normal).trans (moves_drop _ key)

/-- A callback counts first and then makes its moves.  Only the callbacks of
ADD_ACCEPT and REFRESH_ACCEPT calls start a second phase without counting a
majority. -/
theorem moves_runCallback (layout : Layout) (core : Core) (call : RpcCall)
    (reply : Option RpcReply)
    (phase : ∀ key p, core.proposals.lookup key = some p →
      call.callback = .addNewServOk key ∨
        call.callback = .refreshAcceptBack key ∧ p.response.count = 1 →
      p.type ≠ .normal ∧ second key) :
    Moves second created (noteCallback core call.callback reply)
      (runCallback layout core call reply) := by
  unfold runCallback
  split
  next key isResponse =>
    rw [isResponse]
    exact moves_ireceiveResponse layout core call.peer key none
  next key reply isResponse =>
    rw [isResponse]
    exact moves_ireceiveResponse layout core call.peer key (some reply)
  next key reply other isResponse =>
    rw [isResponse]
    cases reply with
    | prepare reply => exact absurd rfl (other reply)
    | learn reply => exact Relation.ReflTransGen.refl
    | done => exact Relation.ReflTransGen.refl
  next key isOk =>
    rw [isOk]
    unfold iaddNewServOk
    split
    · exact Relation.ReflTransGen.refl
    next p found => exact moves_sendAccept core key p found (Or.inr (phase key p found (Or.inl isOk)))
  next key isBack =>
    rw [isBack]
    unfold noteCallback irefreshAcceptBack
    dsimp only
    unfold Core.modifyProposal
    cases found : core.proposals.lookup key with
    | none => exact Relation.ReflTransGen.refl
    | some p =>
        dsimp only
        split
        next last =>
          have before : p.response.count = 1 := by omega
          exact moves_sendAccept _ key _ (AList.lookup_insert _)
            (Or.inr (phase key p found (Or.inr ⟨isBack, before⟩)))
        next => exact Relation.ReflTransGen.refl
  next isLearn =>
    rw [isLearn]
    have grown := (learnerClosed_grows layout core.id).calls.ireceiveLearn call.peer core.paxos none
    apply Relation.ReflTransGen.single
    exact Move.state core _ core.active _ core.aborted grown.numbers grown.members
  next reply isLearn =>
    rw [isLearn]
    have grown :=
      (learnerClosed_grows layout core.id).calls.ireceiveLearn call.peer core.paxos (some reply)
    apply Relation.ReflTransGen.single
    exact Move.state core _ core.active _ core.aborted grown.numbers grown.members
  next isLearn =>
    rw [isLearn]
    exact Relation.ReflTransGen.refl

/-! ## Packets that are no replies -/

theorem grows_iaccept (paxos : SPaxos) (topic : Topic) (id : SId) (value : Value)
    (version : Int) : Grows paxos (iaccept paxos topic id value version) := by
  obtain ⟨accept, same⟩ := iaccept_eq paxos topic id value version
  rw [same]
  exact Grows.of_same rfl rfl

theorem moves_addAccept (layout : Layout) (core : Core) (src req : Nat) (dump : Dump)
    (distinct : dump.version.servs.Nodup) :
    Moves second created core (dispatch layout core src (.addAccept req dump)) := by
  have grown : Grows core.paxos (ireceiveAddAccept core.paxos dump) := by
    obtain ⟨accept, same⟩ := acceptLoop_eq dump.entries { core.paxos with version := dump.version }
    unfold ireceiveAddAccept
    rw [same]
    exact ⟨le_rfl, fun _ => distinct⟩
  apply (moves_paxos core _ grown).tail
  exact Move.notify _ src (.rpcBack req .done) rfl

theorem moves_refreshAccept (layout : Layout) (core : Core) (src req : Nat) (dump : Dump) :
    Moves second created core (dispatch layout core src (.refreshAccept req dump)) := by
  have grown : Grows core.paxos (ireceiveRefreshAccept layout core.paxos dump).1 := by
    unfold ireceiveRefreshAccept
    split
    · exact Grows.of_same rfl rfl
    · obtain ⟨accept, backup, same⟩ := refreshLoop_eq layout dump.entries 0 core.paxos
      rw [same]
      exact Grows.of_same rfl rfl
  unfold dispatch
  dsimp only
  split
  · exact Relation.ReflTransGen.refl
  next paxos accepted =>
    rw [accepted] at grown
    apply (moves_paxos core paxos grown).tail
    exact Move.notify _ src (.rpcBack req .done) rfl

end

end SimpleDfs.Paxos
