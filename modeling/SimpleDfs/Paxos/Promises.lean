import SimpleDfs.Paxos.Effects

/-!
Contract: an acceptor keeps its promises.  One server is run on any sequence of
packets and events; a refresh of the accept table is the only handler that
records a proposal below an answered one.

Owns: the comparison of two states of `struct s_paxos` under the promises of
the first, that each handler but the refresh honours it, and the run of one
acceptor.

Does not own: the other servers.
-/

set_option autoImplicit false

namespace SimpleDfs.Paxos

open SimpleDfs.Common
open SimpleDfs.Library

/-! ## Honouring the promises of a state -/

/-- No promise is forgotten, and below a promise nothing new is recorded. -/
structure Honours (before after : SPaxos) : Prop where
  raised : ∀ topic pid, before.response.lookup topic = some pid →
    ∃ later, after.response.lookup topic = some later ∧ pid ≤ later
  respected : ∀ topic pid, before.response.lookup topic = some pid →
    ∀ entry ∈ after.accepts topic, entry.id < pid → entry ∈ before.accepts topic

/-- Changes elsewhere honour every promise. -/
theorem Honours.of_same {before after : SPaxos} (response : after.response = before.response)
    (accept : after.accept = before.accept) : Honours before after := by
  constructor
  · intro topic pid promised
    rw [response]
    exact ⟨pid, promised, le_rfl⟩
  · intro topic pid promised entry recorded below
    unfold SPaxos.accepts at recorded ⊢
    rw [← accept]
    exact recorded

theorem Honours.refl (paxos : SPaxos) : Honours paxos paxos :=
  Honours.of_same rfl rfl

theorem Honours.trans {first second third : SPaxos} (early : Honours first second)
    (late : Honours second third) : Honours first third := by
  constructor
  · intro topic pid promised
    obtain ⟨middle, found, above⟩ := early.raised topic pid promised
    obtain ⟨last, foundLast, aboveLast⟩ := late.raised topic middle found
    exact ⟨last, foundLast, above.trans aboveLast⟩
  · intro topic pid promised entry recorded below
    obtain ⟨middle, found, above⟩ := early.raised topic pid promised
    have recordedMiddle := late.respected topic middle found entry recorded (below.trans_le above)
    exact early.respected topic pid promised entry recordedMiddle below

theorem honours_iaccept (paxos : SPaxos) (topic : Topic) (id : SId) (value : Value)
    (version : Int) : Honours paxos (iaccept paxos topic id value version) := by
  unfold iaccept
  dsimp only
  split
  · exact Honours.refl paxos
  · split
    · exact Honours.refl paxos
    · split
      · exact Honours.refl paxos
      next kept =>
        constructor
        · intro other pid promised
          exact ⟨pid, promised, le_rfl⟩
        · intro other pid promised entry recorded below
          rw [accepts_insert] at recorded
          split at recorded
          next same =>
            rcases mem_acceptInto recorded with old | new
            · exact same ▸ old
            · -- the promise let this id through
              rw [same] at promised
              rw [promiseRefuses, promised, Bool.not_eq_true, sIdGt_eq_false] at kept
              rw [new] at below
              exact absurd below (not_lt_of_ge kept)
          next => exact recorded

theorem honours_acceptLoop (entries : List PaxosAccept) (paxos : SPaxos) :
    Honours paxos (acceptLoop paxos entries) := by
  induction entries generalizing paxos with
  | nil => exact Honours.refl paxos
  | cons entry rest inductionHypothesis =>
      exact (honours_iaccept paxos _ _ _ _).trans (inductionHypothesis _)

theorem honours_ireceiveAddAccept (paxos : SPaxos) (dump : Dump) :
    Honours paxos (ireceiveAddAccept paxos dump) := by
  have versioned : Honours paxos { paxos with version := dump.version } :=
    Honours.of_same rfl rfl
  exact versioned.trans (honours_acceptLoop dump.entries _)

theorem honours_icheckNewVersion (layout : Layout) (coreId : Nat) (paxos : SPaxos) :
    Honours paxos (icheckNewVersion layout coreId paxos) := by
  unfold icheckNewVersion
  dsimp only
  split
  · exact Honours.refl paxos
  · split
    · exact Honours.refl paxos
    · have versioned : ∀ version, Honours paxos { paxos with version := version } :=
        fun version => Honours.of_same rfl rfl
      exact (versioned _).trans (honours_iaccept _ _ _ _ _)

theorem learnerClosed_honours (layout : Layout) (coreId : Nat) :
    LearnerClosed layout coreId Honours where
  refl := Honours.refl
  trans := Honours.trans
  learn := fun _ _ _ => Honours.of_same rfl rfl
  check := honours_icheckNewVersion layout coreId

/-- A promise only grows. -/
theorem savePromise_lookup (response : Table Topic SId) (topic : Topic) (id : SId) :
    ∃ pid, (savePromise response topic id).lookup topic = some pid ∧ id ≤ pid := by
  unfold savePromise
  split
  · exact ⟨id, AList.lookup_insert _, le_rfl⟩
  next pid found =>
    split
    · exact ⟨id, AList.lookup_insert _, le_rfl⟩
    next kept =>
      rw [Bool.not_eq_true, sIdGt_eq_false] at kept
      exact ⟨pid, found, kept⟩

theorem savePromise_raises (response : Table Topic SId) (topic : Topic) (id : SId)
    {other : Topic} {pid : SId} (promised : response.lookup other = some pid) :
    ∃ later, (savePromise response topic id).lookup other = some later ∧ pid ≤ later := by
  by_cases same : other = topic
  · subst same
    unfold savePromise
    rw [promised]
    dsimp only
    split
    next above =>
      rw [sIdGt_iff] at above
      exact ⟨id, AList.lookup_insert _, above.le⟩
    next => exact ⟨pid, promised, le_rfl⟩
  · refine ⟨pid, ?_, le_rfl⟩
    unfold savePromise
    split
    · rw [AList.lookup_insert_ne same, promised]
    · split
      · rw [AList.lookup_insert_ne same, promised]
      · exact promised

theorem honours_ireceiveRequest (layout : Layout) (paxos : SPaxos) (request : PrepareRequest) :
    Honours paxos (ireceiveRequest layout paxos request).1 := by
  unfold ireceiveRequest
  dsimp only
  split
  · exact Honours.of_same rfl rfl
  · constructor
    · intro topic pid promised
      exact savePromise_raises paxos.response request.topic request.id promised
    · intro topic pid promised entry recorded below
      exact recorded

/-- A request of the acceptor's version leaves a promise at or above its id. -/
theorem promised_of_ireceiveRequest (layout : Layout) (paxos : SPaxos) (request : PrepareRequest)
    (sameVersion : paxos.version.version = request.version.version) :
    ∃ pid, (ireceiveRequest layout paxos request).1.response.lookup request.topic = some pid ∧
      request.id ≤ pid := by
  unfold ireceiveRequest
  dsimp only
  rw [if_neg (not_not_intro sameVersion)]
  exact savePromise_lookup paxos.response request.topic request.id

/-! ## Handlers -/

theorem honours_finishCall (layout : Layout) (core : Core) (peer req : Nat)
    (reply : Option RpcReply) :
    Honours core.paxos (finishCall layout core peer req reply).paxos :=
  (learnerClosed_honours layout core.id).calls.finishCall peer req reply

theorem honours_sPaxosStart (core : Core) (topic : Topic) (value : Value) (type : ProposalType)
    (theServ : Nat) : Honours core.paxos (sPaxosStart core topic value type theServ).paxos := by
  obtain ⟨id, _, same⟩ := sPaxosStart_paxos core topic value type theServ
  rw [same]
  exact Honours.of_same rfl rfl

/-- Every packet but a refresh is handled under the promises given before. -/
theorem honours_dispatch (layout : Layout) (core : Core) (src : Nat) (body : PaxosBody)
    (notRefresh : ∀ req dump, body ≠ .refreshAccept req dump) :
    Honours core.paxos (dispatch layout core src body).paxos := by
  cases body with
  | request req request => exact honours_ireceiveRequest layout core.paxos request
  | accept topic id value version => exact honours_iaccept core.paxos topic id value version
  | learnRequest req version => exact Honours.refl _
  | addMe => exact honours_sPaxosStart core _ _ _ _
  | addAccept req dump => exact honours_ireceiveAddAccept core.paxos dump
  | refreshAccept req dump => exact absurd rfl (notRefresh req dump)
  | rpcBack req reply => exact honours_finishCall layout core src req (some reply)

/-! ## Refreshing -/

theorem mem_refreshLoop (layout : Layout) (entries : List PaxosAccept) (number : Nat)
    (paxos : SPaxos) (topic : Topic) {entry : PaxosAccept}
    (member : entry ∈ (refreshLoop layout paxos number entries).accepts topic) :
    entry ∈ paxos.accepts topic ∨ entry ∈ entries := by
  induction entries generalizing paxos number with
  | nil => exact Or.inl member
  | cons head rest inductionHypothesis =>
      rw [refreshLoop] at member
      rcases inductionHypothesis (number + 1) (refreshEntry layout paxos number head) member with
        recorded | listed
      · have written : entry ∈ ({ paxos with
            accept := paxos.accept.insert head.topic
              (refreshInto head (paxos.accepts head.topic)) } : SPaxos).accepts topic := recorded
        rw [accepts_insert] at written
        split at written
        next same =>
          rcases mem_refreshInto written with old | new
          · exact Or.inl (same ▸ old)
          · exact Or.inr (new ▸ List.mem_cons_self)
        next => exact Or.inl written
      · exact Or.inr (List.mem_cons_of_mem head listed)

/-- A refresh changes no promise and records only what it lists. -/
theorem mem_ireceiveRefreshAccept (layout : Layout) (paxos : SPaxos) (dump : Dump) (topic : Topic)
    {entry : PaxosAccept}
    (member : entry ∈ (ireceiveRefreshAccept layout paxos dump).1.accepts topic) :
    entry ∈ paxos.accepts topic ∨
      dump.version.version = paxos.version.version ∧ entry ∈ dump.entries := by
  unfold ireceiveRefreshAccept at member
  split at member
  · exact Or.inl member
  next sameVersion =>
    rcases mem_refreshLoop layout dump.entries 0 paxos topic member with old | listed
    · exact Or.inl old
    · exact Or.inr ⟨not_not.mp sameVersion, listed⟩

theorem ireceiveRefreshAccept_response (layout : Layout) (paxos : SPaxos) (dump : Dump) :
    (ireceiveRefreshAccept layout paxos dump).1.response = paxos.response := by
  unfold ireceiveRefreshAccept
  split
  · rfl
  · obtain ⟨accept, backup, same⟩ := refreshLoop_eq layout dump.entries 0 paxos
    rw [same]

theorem dispatch_refreshAccept_paxos (layout : Layout) (core : Core) (src req : Nat)
    (dump : Dump) : (dispatch layout core src (.refreshAccept req dump)).paxos =
      (ireceiveRefreshAccept layout core.paxos dump).1 := by
  by_cases sameVersion : dump.version.version = core.paxos.version.version
  · simp [dispatch, ireceiveRefreshAccept, sameVersion]
  · simp [dispatch, ireceiveRefreshAccept, sameVersion]

/-! ## One acceptor -/

/-- A server, and the prepare requests it has answered with a promise. -/
structure Acceptor where
  core : Core
  answered : List (Topic × SId)

/-- What can reach one server: any packet from anybody, the end of one of its
calls without a reply, its own proposals and learning, and a change of a
connection. -/
inductive AcceptorEvent where
  | receive (src : Nat) (body : PaxosBody) (layout : Layout)
  | expire (peer req : Nat) (layout : Layout)
  | start (topic : Topic) (value : Value)
  | checkLeave
  | learnAll
  | connection (peer : Nat) (established : Bool)

def Acceptor.step (state : Acceptor) : AcceptorEvent → Option Acceptor
  | .receive src body layout =>
      some {
        core := dispatch layout state.core src body
        answered := state.answered ++
          (promiseOf state.core { src := src, dst := state.core.id, body := body }).map
            fun promise => (promise.topic, promise.id) }
  | .expire peer req layout => some { state with core := finishCall layout state.core peer req none }
  | .start topic value => some { state with core := sPaxosStart state.core topic value .normal 0 }
  | .checkLeave => some { state with core := sPaxosCheckLeave state.core }
  | .learnAll => some { state with core := sPaxosLearnAll state.core }
  | .connection peer established =>
      some { state with
        core := { state.core with active := Function.update state.core.active peer established } }

/-- Runs of one server from its creation. -/
def acceptorSystem : System Acceptor AcceptorEvent where
  init := fun state => ∃ id active, state = { core := createCore id active, answered := [] }
  step := Acceptor.step

/-- The refresh of the accept table. -/
def AcceptorEvent.isRefresh : AcceptorEvent → Bool
  | .receive _ (.refreshAccept _ _) _ => true
  | _ => false

theorem honours_acceptorStep {state after : Acceptor} {event : AcceptorEvent}
    (stepped : state.step event = some after) (notRefresh : event.isRefresh = false) :
    Honours state.core.paxos after.core.paxos := by
  cases event with
  | receive src body layout =>
      cases stepped
      apply honours_dispatch
      intro req dump same
      rw [same] at notRefresh
      cases notRefresh
  | expire peer req layout =>
      cases stepped
      exact honours_finishCall layout state.core peer req none
  | start topic value =>
      cases stepped
      exact honours_sPaxosStart state.core topic value .normal 0
  | checkLeave =>
      cases stepped
      obtain ⟨id, _, same⟩ := sPaxosCheckLeave_paxos state.core
      rw [same]
      exact Honours.of_same rfl rfl
  | learnAll =>
      cases stepped
      obtain ⟨count, same⟩ := sPaxosLearnAll_paxos state.core
      rw [same]
      exact Honours.of_same rfl rfl
  | connection peer established =>
      cases stepped
      exact Honours.refl _

/-- No event lowers a promise. -/
theorem raised_acceptorStep {state after : Acceptor} {event : AcceptorEvent}
    (stepped : state.step event = some after) {topic : Topic} {pid : SId}
    (promised : state.core.paxos.response.lookup topic = some pid) :
    ∃ later, after.core.paxos.response.lookup topic = some later ∧ pid ≤ later := by
  cases refresh : event.isRefresh with
  | false => exact (honours_acceptorStep stepped refresh).raised topic pid promised
  | true =>
      unfold AcceptorEvent.isRefresh at refresh
      split at refresh
      next src req dump layout =>
        cases stepped
        rw [dispatch_refreshAccept_paxos, ireceiveRefreshAccept_response]
        exact ⟨pid, promised, le_rfl⟩
      next => cases refresh

/-- Each answered request is promised at its id or above. -/
def Acceptor.KeepsAnswers (state : Acceptor) : Prop :=
  ∀ topic id, (topic, id) ∈ state.answered →
    ∃ pid, state.core.paxos.response.lookup topic = some pid ∧ id ≤ pid

/-- The answers a server gives are promises of the state it reaches. -/
theorem promised_of_promiseOf (layout : Layout) (core : Core) (src : Nat) (body : PaxosBody)
    {promise : Promise}
    (given : promise ∈ promiseOf core { src := src, dst := core.id, body := body }) :
    ∃ pid, (dispatch layout core src body).paxos.response.lookup promise.topic = some pid ∧
      promise.id ≤ pid := by
  unfold promiseOf at given
  split at given
  next req request same =>
    simp only at same
    split at given
    next sameVersion =>
      rw [List.mem_singleton.mp given, same]
      exact promised_of_ireceiveRequest layout core.paxos request sameVersion
    next => exact absurd given List.not_mem_nil
  next => exact absurd given List.not_mem_nil

theorem keepsAnswers_step {state after : Acceptor} {event : AcceptorEvent}
    (keeps : state.KeepsAnswers) (stepped : state.step event = some after) :
    after.KeepsAnswers := by
  have kept : ∀ topic id, (topic, id) ∈ state.answered →
      ∃ pid, after.core.paxos.response.lookup topic = some pid ∧ id ≤ pid := by
    intro topic id answered
    obtain ⟨pid, promised, above⟩ := keeps topic id answered
    obtain ⟨later, found, raised⟩ := raised_acceptorStep stepped promised
    exact ⟨later, found, above.trans raised⟩
  intro topic id answered
  cases event with
  | receive src body layout =>
      cases stepped
      rcases List.mem_append.mp answered with old | new
      · exact kept topic id old
      · obtain ⟨promise, given, same⟩ := List.mem_map.mp new
        obtain ⟨rfl, rfl⟩ := Prod.mk.inj same
        exact promised_of_promiseOf layout state.core src body given
  | expire peer req layout =>
      cases stepped
      exact kept topic id answered
  | start topic value =>
      cases stepped
      exact kept _ id answered
  | checkLeave =>
      cases stepped
      exact kept topic id answered
  | learnAll =>
      cases stepped
      exact kept topic id answered
  | connection peer established =>
      cases stepped
      exact kept topic id answered

theorem keepsAnswers_of_reachable {state : Acceptor} (reached : acceptorSystem.Reachable state) :
    state.KeepsAnswers := by
  apply reached.invariant Acceptor.KeepsAnswers
  · intro start initial topic id answered
    obtain ⟨server, active, rfl⟩ := initial
    exact absurd answered List.not_mem_nil
  · intro before event after _ keeps _ stepped
    exact keepsAnswers_step keeps stepped

/-- **Promises are kept outside a refresh.**  A proposal that an acceptor
records below a request it has answered was recorded before, or the event is a
refresh under the acceptor's version that lists it. -/
theorem recorded_below_answer {state after : Acceptor}
    (reached : acceptorSystem.Reachable state) (event : AcceptorEvent)
    (stepped : acceptorSystem.step state event = some after) {topic : Topic} {id : SId}
    (answered : (topic, id) ∈ state.answered) {entry : PaxosAccept}
    (recorded : entry ∈ after.core.paxos.accepts topic) (below : entry.id < id) :
    entry ∈ state.core.paxos.accepts topic ∨
      ∃ src req dump layout, event = .receive src (.refreshAccept req dump) layout ∧
        dump.version.version = state.core.paxos.version.version ∧ entry ∈ dump.entries := by
  obtain ⟨pid, promised, above⟩ := keepsAnswers_of_reachable reached topic id answered
  cases refresh : event.isRefresh with
  | false =>
      left
      have honoured := honours_acceptorStep stepped refresh
      exact honoured.respected topic pid promised entry recorded (below.trans_le above)
  | true =>
      unfold AcceptorEvent.isRefresh at refresh
      split at refresh
      next src req dump layout =>
        cases stepped
        rw [dispatch_refreshAccept_paxos] at recorded
        rcases mem_ireceiveRefreshAccept layout state.core.paxos dump topic recorded with
          old | ⟨sameVersion, listed⟩
        · exact Or.inl old
        · exact Or.inr ⟨src, req, dump, layout, rfl, sameVersion, listed⟩
      next => cases refresh

/-- Server 1 after it has answered a request with number 5. -/
def promisedAcceptor : Acceptor :=
  acceptorSystem.outcome { core := createCore 1 fun _ => true, answered := [] }
    [.receive 2 (.request 1 { topic := [120], id := ⟨2, 5⟩, value := 7, type := .normal
                              theServ := 0, version := { version := 1, servs := [1] } })
      Layout.natural]

/-- A refresh that lists proposal 1 of server 1. -/
def staleRefresh : AcceptorEvent :=
  .receive 1 (.refreshAccept 1 { version := { version := 1, servs := [1] }
                                 entries := [{ topic := [120], id := ⟨1, 1⟩, value := 9 }] })
    Layout.natural

theorem reachable_promisedAcceptor : acceptorSystem.Reachable promisedAcceptor := by
  apply System.reachable_outcome
  exact ⟨1, fun _ => true, rfl⟩

/-- The refresh records a proposal below the answered request. -/
theorem recorded_below_answer_stale :
    ∃ src req dump layout, staleRefresh = .receive src (.refreshAccept req dump) layout ∧
      dump.version.version = promisedAcceptor.core.paxos.version.version ∧
      { topic := [120], id := ⟨1, 1⟩, value := 9 } ∈ dump.entries := by
  have cases := recorded_below_answer reachable_promisedAcceptor staleRefresh rfl
    (show (([120] : Topic), (⟨2, 5⟩ : SId)) ∈ promisedAcceptor.answered by decide +kernel)
    (show { topic := [120], id := ⟨1, 1⟩, value := 9 } ∈ _ by decide +kernel) (by decide +kernel)
  exact cases.resolve_left (by decide +kernel)

/-- An acceptor can record a proposal below a request it has answered. -/
theorem not_always_recorded_above :
    ¬ ∀ state event after topic id entry, acceptorSystem.Reachable state →
      acceptorSystem.step state event = some after → (topic, id) ∈ state.answered →
      entry ∈ after.core.paxos.accepts topic → entry.id < id →
      entry ∈ state.core.paxos.accepts topic := by
  intro always
  have recorded := always promisedAcceptor staleRefresh _ [120] ⟨2, 5⟩
    { topic := [120], id := ⟨1, 1⟩, value := 9 } reachable_promisedAcceptor rfl
    (by decide +kernel) (by decide +kernel) (by decide +kernel)
  revert recorded
  decide +kernel

end SimpleDfs.Paxos
