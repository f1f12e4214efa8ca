import Mathlib.Data.Finset.Max
import Mathlib.Data.List.Find
import SimpleDfs.Library.Run
import SimpleDfs.Paxos.Acceptor

/-!
Contract: what a prepare response says of everything an acceptor has accepted.

Owns: acceptors with the history of the proposals they accepted, the sense in
which the accept list of a topic summarises that history, and exactly when a
prepare response reflects it.

An accept list keeps one entry for each value, under the greatest id the value
was accepted with.  The lower ids are forgotten, so a prepare request between
two acceptances of one value finds neither.

Does not own: learning and refreshing, which rewrite accept lists.
-/

set_option autoImplicit false

namespace SimpleDfs.Paxos

open SimpleDfs.Common
open SimpleDfs.Library

/-- The proposals an acceptor accepted on a topic, oldest first. -/
abbrev Accepted := List (SId × Value)

/-- The checks of `iaccept` let the proposal through. -/
def TakesAccept (paxos : SPaxos) (topic : Topic) (id : SId) (version : Int) : Prop :=
  ¬ (version > 0 ∧ version ≠ paxos.version.version) ∧
    ¬ (version > 0 ∧ version < paxos.responseVersion ∧
      igetNewVersion topic < paxos.responseVersion) ∧
    promiseRefuses paxos topic id = false

instance (paxos : SPaxos) (topic : Topic) (id : SId) (version : Int) :
    Decidable (TakesAccept paxos topic id version) :=
  inferInstanceAs (Decidable (_ ∧ _ ∧ _))

/-- An acceptor and, for each topic, what it has accepted so far. -/
structure AcceptorHistory where
  paxos : SPaxos
  accepted : Topic → Accepted

/-- The messages of the two phases. -/
inductive HistoryEvent where
  | request (layout : Layout) (request : PrepareRequest)
  | accept (topic : Topic) (id : SId) (value : Value) (version : Int)

def AcceptorHistory.step (acceptor : AcceptorHistory) : HistoryEvent → Option AcceptorHistory
  | .request layout request =>
      some { acceptor with paxos := (ireceiveRequest layout acceptor.paxos request).1 }
  | .accept topic id value version =>
      some
        { paxos := iaccept acceptor.paxos topic id value version
          accepted :=
            if TakesAccept acceptor.paxos topic id version then
              Function.update acceptor.accepted topic
                (acceptor.accepted topic ++ [(id, value)])
            else
              acceptor.accepted }

/-- The runs of an acceptor that has accepted nothing yet, under any version and
any promises. -/
def historySystem : System AcceptorHistory HistoryEvent where
  init := fun acceptor => acceptor.paxos.accept = ∅ ∧ acceptor.accepted = fun _ => []
  step := AcceptorHistory.step

/-! ## What a response should say -/

/-- The report is the accepted proposal with the greatest id below `id`; there is
none only if nothing below `id` was accepted. -/
def Reflects (accepted : Accepted) (id : SId) : Option (SId × Value) → Prop
  | none => ∀ proposal ∈ accepted, ¬ proposal.1 < id
  | some report =>
      report ∈ accepted ∧ report.1 < id ∧
        ∀ proposal ∈ accepted, proposal.1 < id → proposal.1 ≤ report.1

/-- `top` is the greatest id below `id` under which something was accepted. -/
structure GreatestBelow (accepted : Accepted) (id top : SId) : Prop where
  reached : ∃ value, (top, value) ∈ accepted
  below : top < id
  greatest : ∀ proposal ∈ accepted, proposal.1 < id → proposal.1 ≤ top

/-- The value was accepted under `top` and under no higher id. -/
def LastsAt (accepted : Accepted) (value : Value) (top : SId) : Prop :=
  (top, value) ∈ accepted ∧ ∀ proposal ∈ accepted, proposal.2 = value → proposal.1 ≤ top

instance (accepted : Accepted) (value : Value) (top : SId) :
    Decidable (LastsAt accepted value top) :=
  inferInstanceAs (Decidable (_ ∧ _))

/-- The value, among those that last at `top`, that was accepted first. -/
def firstLasting (accepted : Accepted) (top : SId) : Option Value :=
  (accepted.find? fun proposal => decide (LastsAt accepted proposal.2 top)).map Prod.snd

/-- The accept list still shows what was accepted below `id`: a value accepted
under the greatest such id was not accepted again under a higher one, and the
first of these values is not negative. -/
def Legible (accepted : Accepted) (id : SId) : Prop :=
  ∀ top, GreatestBelow accepted id top →
    ⟨0, 0⟩ < top ∧ ∃ value, firstLasting accepted top = some value ∧ 0 ≤ value.toInt

/-! ## Accept lists as summaries -/

/-- The list keeps one entry for each accepted value, in the order in which the
values were first accepted, under the greatest id of the value. -/
structure Summarises (topic : Topic) (accepted : Accepted) (accepts : List PaxosAccept) : Prop where
  topics : ∀ accept ∈ accepts, accept.topic = topic
  distinct : (accepts.map PaxosAccept.value).Nodup
  lasts : ∀ accept ∈ accepts, LastsAt accepted accept.value accept.id
  order : ∀ wanted : Value → Bool,
    (accepts.find? fun accept => wanted accept.value).map PaxosAccept.value =
      (accepted.find? fun proposal => wanted proposal.2).map Prod.snd

theorem LastsAt.unique {accepted : Accepted} {value : Value} {left right : SId}
    (first : LastsAt accepted value left) (second : LastsAt accepted value right) :
    left = right :=
  le_antisymm (second.2 _ first.1 rfl) (first.2 _ second.1 rfl)

theorem Summarises.nil (topic : Topic) : Summarises topic [] [] where
  topics := fun _ member => absurd member List.not_mem_nil
  distinct := List.nodup_nil
  lasts := fun _ member => absurd member List.not_mem_nil
  order := fun _ => rfl

/-- A value has an entry exactly if it was accepted. -/
theorem Summarises.value_iff {topic : Topic} {accepted : Accepted} {accepts : List PaxosAccept}
    (summarises : Summarises topic accepted accepts) (value : Value) :
    (∃ accept ∈ accepts, accept.value = value) ↔ ∃ proposal ∈ accepted, proposal.2 = value := by
  have same := congrArg Option.isSome (summarises.order fun other => decide (other = value))
  rw [Option.isSome_map, Option.isSome_map, Bool.eq_iff_iff, List.find?_isSome,
    List.find?_isSome] at same
  simpa using same

/-! ## One accepted proposal -/

theorem acceptInto_map_value (topic : Topic) (id : SId) (value : Value)
    (accepts : List PaxosAccept) (topics : ∀ accept ∈ accepts, accept.topic = topic) :
    (acceptInto topic id value accepts).map PaxosAccept.value =
      if value ∈ accepts.map PaxosAccept.value then accepts.map PaxosAccept.value
      else accepts.map PaxosAccept.value ++ [value] := by
  induction accepts with
  | nil => rfl
  | cons head tail inductionHypothesis =>
      have ofTopic : head.topic = topic := topics head List.mem_cons_self
      have inTail := inductionHypothesis fun accept member =>
        topics accept (List.mem_cons_of_mem _ member)
      rw [acceptInto]
      by_cases same : head.value = value
      · have listed : value ∈ (head :: tail).map PaxosAccept.value := by
          rw [List.map_cons, same]
          exact List.mem_cons_self
        rw [if_pos ⟨ofTopic, same⟩, if_pos listed]
        cases sIdGt id head.id with
        | true => rfl
        | false => rfl
      · rw [if_neg fun both => same both.2, List.map_cons, inTail]
        by_cases later : value ∈ tail.map PaxosAccept.value
        · have listed : value ∈ (head :: tail).map PaxosAccept.value :=
            List.mem_cons_of_mem _ later
          rw [if_pos later, if_pos listed, List.map_cons]
        · have absent : value ∉ (head :: tail).map PaxosAccept.value := by
            rw [List.map_cons, List.mem_cons, not_or]
            exact ⟨fun equal => same equal.symm, later⟩
          rw [if_neg later, if_neg absent, List.map_cons, List.cons_append]

/-- The entries after a proposal: an older one of another value, or the one of
its value under the higher of the two ids. -/
theorem acceptInto_entry {topic : Topic} {id : SId} {value : Value} {accepts : List PaxosAccept}
    (topics : ∀ accept ∈ accepts, accept.topic = topic)
    (distinct : (accepts.map PaxosAccept.value).Nodup) {entry : PaxosAccept}
    (member : entry ∈ acceptInto topic id value accepts) :
    entry.topic = topic ∧
      (entry ∈ accepts ∧ entry.value ≠ value ∨
        entry.value = value ∧
          ((∀ accept ∈ accepts, accept.value ≠ value) ∧ entry.id = id ∨
            ∃ accept ∈ accepts, accept.value = value ∧ entry.id = max id accept.id)) := by
  induction accepts with
  | nil =>
      rw [acceptInto, List.mem_singleton] at member
      rw [member]
      exact ⟨rfl, Or.inr ⟨rfl, Or.inl ⟨fun _ absent => absurd absent List.not_mem_nil, rfl⟩⟩⟩
  | cons head tail inductionHypothesis =>
      have ofTopic : head.topic = topic := topics head List.mem_cons_self
      rw [List.map_cons, List.nodup_cons] at distinct
      rw [acceptInto] at member
      by_cases same : head.value = value
      · rw [if_pos ⟨ofTopic, same⟩] at member
        rcases List.mem_cons.mp member with rfl | later
        · cases above : sIdGt id head.id with
          | true =>
              refine ⟨ofTopic, Or.inr ⟨same, Or.inr ⟨head, List.mem_cons_self, same, ?_⟩⟩⟩
              exact (max_eq_left ((sIdGt_iff _ _).mp above).le).symm
          | false =>
              refine ⟨ofTopic, Or.inr ⟨same, Or.inr ⟨head, List.mem_cons_self, same, ?_⟩⟩⟩
              exact (max_eq_right ((sIdGt_eq_false _ _).mp above)).symm
        · refine ⟨topics entry (List.mem_cons_of_mem _ later),
            Or.inl ⟨List.mem_cons_of_mem _ later, ?_⟩⟩
          intro equal
          apply distinct.1
          rw [same, ← equal]
          exact List.mem_map_of_mem later
      · rw [if_neg fun both => same both.2] at member
        rcases List.mem_cons.mp member with rfl | later
        · exact ⟨ofTopic, Or.inl ⟨List.mem_cons_self, same⟩⟩
        · obtain ⟨topicOf, old | ⟨valueOf, fresh | ⟨accept, listed, valueOf', idOf⟩⟩⟩ :=
            inductionHypothesis (fun accept listed => topics accept (List.mem_cons_of_mem _ listed))
              distinct.2 later
          · exact ⟨topicOf, Or.inl ⟨List.mem_cons_of_mem _ old.1, old.2⟩⟩
          · refine ⟨topicOf, Or.inr ⟨valueOf, Or.inl ⟨?_, fresh.2⟩⟩⟩
            intro accept listed
            rcases List.mem_cons.mp listed with rfl | inTail
            · exact same
            · exact fresh.1 accept inTail
          · exact ⟨topicOf, Or.inr ⟨valueOf, Or.inr ⟨accept, List.mem_cons_of_mem _ listed,
              valueOf', idOf⟩⟩⟩

/-- What was last accepted under `top` stays so if another value is accepted. -/
theorem LastsAt.other {accepted : Accepted} {value : Value} {top : SId} {proposal : SId × Value}
    (lasts : LastsAt accepted value top) (different : value ≠ proposal.2) :
    LastsAt (accepted ++ [proposal]) value top := by
  refine ⟨List.mem_append_left _ lasts.1, ?_⟩
  intro older member same
  rcases List.mem_append.mp member with old | new
  · exact lasts.2 older old same
  · rw [List.mem_singleton.mp new] at same
    exact absurd same.symm different

/-- A value that is accepted again lasts at the higher of the two ids. -/
theorem LastsAt.again {accepted : Accepted} {value : Value} {top : SId}
    (lasts : LastsAt accepted value top) (id : SId) :
    LastsAt (accepted ++ [(id, value)]) value (max id top) := by
  constructor
  · rcases le_total id top with below | above
    · rw [max_eq_right below]
      exact List.mem_append_left _ lasts.1
    · rw [max_eq_left above]
      exact List.mem_append_right _ List.mem_cons_self
  · intro proposal member same
    rcases List.mem_append.mp member with old | new
    · exact (lasts.2 proposal old same).trans (le_max_right _ _)
    · rw [List.mem_singleton.mp new]
      exact le_max_left _ _

/-- A value that is accepted for the first time lasts at that id. -/
theorem LastsAt.fresh {accepted : Accepted} {value : Value}
    (new : ∀ proposal ∈ accepted, proposal.2 ≠ value) (id : SId) :
    LastsAt (accepted ++ [(id, value)]) value id := by
  refine ⟨List.mem_append_right _ List.mem_cons_self, ?_⟩
  intro proposal member same
  rcases List.mem_append.mp member with old | isNew
  · exact absurd same (new proposal old)
  · rw [List.mem_singleton.mp isNew]

/-- `find?` looks at the values of a list only. -/
theorem find?_map_value {Entry : Type} (valueOf : Entry → Value) (wanted : Value → Bool)
    (entries : List Entry) :
    (entries.find? fun entry => wanted (valueOf entry)).map valueOf =
      (entries.map valueOf).find? wanted := by
  rw [List.find?_map]
  rfl

theorem Summarises.accept {topic : Topic} {accepted : Accepted} {accepts : List PaxosAccept}
    (summarises : Summarises topic accepted accepts) (id : SId) (value : Value) :
    Summarises topic (accepted ++ [(id, value)]) (acceptInto topic id value accepts) := by
  have values := acceptInto_map_value topic id value accepts summarises.topics
  refine ⟨?_, ?_, ?_, ?_⟩
  · intro entry member
    exact (acceptInto_entry summarises.topics summarises.distinct member).1
  · rw [values]
    split
    next => exact summarises.distinct
    next absent =>
      refine List.nodup_append.mpr ⟨summarises.distinct, List.nodup_singleton _, ?_⟩
      intro old listed new isNew equal
      rw [List.mem_singleton.mp isNew] at equal
      exact absent (equal ▸ listed)
  · intro entry member
    obtain ⟨_, old | ⟨valueOf, fresh | ⟨accept, listed, valueOf', idOf⟩⟩⟩ :=
      acceptInto_entry summarises.topics summarises.distinct member
    · exact (summarises.lasts entry old.1).other old.2
    · rw [valueOf, fresh.2]
      apply LastsAt.fresh
      intro proposal proposed same
      obtain ⟨accept, listed, same'⟩ := (summarises.value_iff value).mpr ⟨proposal, proposed, same⟩
      exact fresh.1 accept listed same'
    · rw [valueOf, idOf]
      have lasts := summarises.lasts accept listed
      rw [valueOf'] at lasts
      exact lasts.again id
  · intro wanted
    have before := summarises.order wanted
    rw [find?_map_value, find?_map_value] at before
    rw [find?_map_value, find?_map_value, values, List.map_append, List.find?_append, ← before]
    split
    next listed =>
      -- the value has an entry, so the new proposal is found only if that entry is
      cases found : (accepts.map PaxosAccept.value).find? wanted with
      | some other => rfl
      | none =>
          have unwanted := List.find?_eq_none.mp found value listed
          simp [unwanted]
    next => rw [List.find?_append]; rfl

/-! ## A report and the history -/

/-- What `ireceive_request` reports of an accept list. -/
def reportOf (id : SId) (accepts : List PaxosAccept) : Option (SId × Value) :=
  let best := prepareReport id accepts
  if best.2.toInt < 0 then none else some best

theorem GreatestBelow.unique {accepted : Accepted} {id left right : SId}
    (first : GreatestBelow accepted id left) (second : GreatestBelow accepted id right) :
    left = right := by
  obtain ⟨value, member⟩ := first.reached
  obtain ⟨value', member'⟩ := second.reached
  exact le_antisymm (second.greatest _ member first.below) (first.greatest _ member' second.below)

theorem exists_greatestBelow {accepted : Accepted} {id : SId} {proposal : SId × Value}
    (member : proposal ∈ accepted) (below : proposal.1 < id) :
    ∃ top, GreatestBelow accepted id top := by
  have listed : (accepted.toFinset.filter fun other => other.1 < id).Nonempty :=
    ⟨proposal, by simp [member, below]⟩
  obtain ⟨greatest, inside, covers⟩ := Finset.exists_max_image _ Prod.fst listed
  rw [Finset.mem_filter, List.mem_toFinset] at inside
  refine ⟨greatest.1, ⟨greatest.2, inside.1⟩, inside.2, ?_⟩
  intro other otherMember otherBelow
  exact covers other (by simp [otherMember, otherBelow])

/-- The first value that lasts at `top` is the first entry with that id. -/
theorem Summarises.firstLasting_eq {topic : Topic} {accepted : Accepted}
    {accepts : List PaxosAccept} (summarises : Summarises topic accepted accepts) (top : SId) :
    firstLasting accepted top =
      (accepts.find? fun accept => accept.id == top).map PaxosAccept.value := by
  have order := summarises.order fun value => decide (LastsAt accepted value top)
  rw [firstLasting, ← order]
  have sameTest : ∀ accept ∈ accepts,
      decide (LastsAt accepted accept.value top) = (accept.id == top) := by
    intro accept member
    have lasts := summarises.lasts accept member
    rw [Bool.eq_iff_iff, decide_eq_true_eq, beq_iff_eq]
    constructor
    · exact fun others => lasts.unique others
    · rintro rfl
      exact lasts
  rw [List.find?_congr sameTest]

theorem reportOf_reflects_iff {topic : Topic} {accepted : Accepted} {accepts : List PaxosAccept}
    (summarises : Summarises topic accepted accepts) (id : SId) :
    Reflects accepted id (reportOf id accepts) ↔ Legible accepted id := by
  obtain ⟨covers, origin⟩ := prepareReport_first id accepts
  by_cases empty : ∀ proposal ∈ accepted, ¬ proposal.1 < id
  · -- nothing below `id`: no entry is visible
    have nothing : reportOf id accepts = none := by
      rcases origin with same | ⟨_, below, accept, found, same⟩
      · rw [reportOf, same]
        rfl
      · have lasts := summarises.lasts accept (List.mem_of_find?_eq_some found)
        rw [same] at below
        exact absurd below (empty _ lasts.1)
    rw [nothing]
    refine iff_of_true empty ?_
    intro top greatest
    obtain ⟨value, member⟩ := greatest.reached
    exact absurd greatest.below (empty _ member)
  · push Not at empty
    obtain ⟨proposal, member, below⟩ := empty
    obtain ⟨top, greatest⟩ := exists_greatestBelow member below
    constructor
    · intro reflects other others
      rw [others.unique greatest]
      rcases origin with same | ⟨positive, _, accept, found, same⟩
      · have nothing : reportOf id accepts = none := by
          rw [reportOf, same]
          rfl
        rw [nothing] at reflects
        exact absurd below (reflects proposal member)
      · by_cases negative : (prepareReport id accepts).2.toInt < 0
        · rw [reportOf, if_pos negative] at reflects
          exact absurd below (reflects proposal member)
        · rw [reportOf, if_neg negative] at reflects
          obtain ⟨listed, low, above⟩ := reflects
          have isTop : (prepareReport id accepts).1 = top :=
            GreatestBelow.unique ⟨⟨_, listed⟩, low, above⟩ greatest
          rw [isTop] at positive found
          refine ⟨positive, accept.value, ?_, ?_⟩
          · rw [summarises.firstLasting_eq, found]
            rfl
          · rw [same] at negative
            exact not_lt.mp negative
    · intro legible
      obtain ⟨positive, value, first, nonneg⟩ := legible top greatest
      rw [summarises.firstLasting_eq] at first
      obtain ⟨accept, found, valueOf⟩ := Option.map_eq_some_iff.mp first
      have atTop : accept.id = top := by simpa using List.find?_some found
      have visible := covers accept (List.mem_of_find?_eq_some found) (atTop ▸ greatest.below)
      rw [atTop] at visible
      rcases origin with same | ⟨_, low, other, found', same⟩
      · rw [same] at visible
        exact absurd positive (not_lt.mpr visible)
      · have lasts := summarises.lasts other (List.mem_of_find?_eq_some found')
        have isTop : (prepareReport id accepts).1 = top := by
          apply le_antisymm _ visible
          rw [same] at low ⊢
          exact greatest.greatest _ lasts.1 low
        rw [isTop, found] at found'
        cases found'
        have reported : reportOf id accepts = some (top, value) := by
          rw [reportOf, same]
          show (if accept.value.toInt < 0 then none else some (accept.id, accept.value)) = _
          rw [valueOf, if_neg (not_lt.mpr nonneg), atTop]
        rw [reported]
        refine ⟨?_, greatest.below, greatest.greatest⟩
        rw [← atTop, ← valueOf]
        exact lasts.1

/-! ## Runs -/

theorem iaccept_of_takes {paxos : SPaxos} {topic : Topic} {id : SId} {version : Int}
    (takes : TakesAccept paxos topic id version) (value : Value) :
    iaccept paxos topic id value version =
      { paxos with
        accept := paxos.accept.insert topic (acceptInto topic id value (paxos.accepts topic)) } := by
  obtain ⟨current, allowed, promised⟩ := takes
  simp only [iaccept, if_neg current, if_neg allowed, promised]
  rfl

theorem iaccept_of_refuses {paxos : SPaxos} {topic : Topic} {id : SId} {version : Int}
    (refuses : ¬ TakesAccept paxos topic id version) (value : Value) :
    iaccept paxos topic id value version = paxos := by
  simp only [iaccept]
  split
  next => rfl
  next current =>
    split
    next => rfl
    next allowed =>
      split
      next => rfl
      next promised => exact absurd ⟨current, allowed, by simpa using promised⟩ refuses

/-- In every run each accept list summarises what was accepted on its topic. -/
theorem summarises_of_reachable {acceptor : AcceptorHistory}
    (reached : historySystem.Reachable acceptor) (topic : Topic) :
    Summarises topic (acceptor.accepted topic) (acceptor.paxos.accepts topic) := by
  refine reached.invariant (fun acceptor =>
    Summarises topic (acceptor.accepted topic) (acceptor.paxos.accepts topic)) ?_ ?_
  · intro start initial
    rw [initial.2, SPaxos.accepts, initial.1]
    exact Summarises.nil topic
  · intro before event after _ summarises _ stepped
    cases event with
    | request layout request =>
        cases stepped
        show Summarises topic _ ((ireceiveRequest layout before.paxos request).1.accepts topic)
        rw [SPaxos.accepts, (ireceiveRequest_tables layout before.paxos request).1]
        exact summarises
    | accept topic' id value version =>
        cases stepped
        by_cases takes : TakesAccept before.paxos topic' id version
        · rw [if_pos takes, iaccept_of_takes takes]
          by_cases same : topic = topic'
          · subst same
            show Summarises topic (Function.update before.accepted topic _ topic) _
            rw [Function.update_self, SPaxos.accepts, AList.lookup_insert]
            exact summarises.accept id value
          · show Summarises topic (Function.update before.accepted topic' _ topic) _
            rw [Function.update_of_ne same, SPaxos.accepts, AList.lookup_insert_ne same]
            exact summarises
        · rw [if_neg takes, iaccept_of_refuses takes]
          exact summarises

/-- **A prepare response reflects the whole acceptance history** exactly if the
accept list of its topic still shows it: a value accepted under the greatest id
below the request's was not accepted again under a higher one. -/
theorem prepare_reflects_history_iff {acceptor : AcceptorHistory}
    (reached : historySystem.Reachable acceptor) (layout : Layout) (request : PrepareRequest)
    (same : acceptor.paxos.version.version = request.version.version) :
    ∃ report backup accepts,
      (ireceiveRequest layout acceptor.paxos request).2 = .promise report backup accepts ∧
      (Reflects (acceptor.accepted request.topic) request.id report ↔
        Legible (acceptor.accepted request.topic) request.id) := by
  have reports := reportOf_reflects_iff (summarises_of_reachable reached request.topic) request.id
  have answered : ∃ backup accepts, (ireceiveRequest layout acceptor.paxos request).2 =
      .promise (reportOf request.id (acceptor.paxos.accepts request.topic)) backup accepts := by
    simp only [ireceiveRequest]
    rw [if_neg (not_not.mpr same)]
    exact ⟨_, _, rfl⟩
  obtain ⟨backup, accepts, promised⟩ := answered
  exact ⟨_, backup, accepts, promised, reports⟩

/-- Server 1 before it has accepted anything. -/
private def freshAcceptor : AcceptorHistory where
  paxos := sPaxosCreate 1
  accepted := fun _ => []

/-- A prepare request of server 1 for the topic "a". -/
private def prepareFor (id : SId) : PrepareRequest where
  topic := [97]
  id := id
  value := 0
  type := .normal
  theServ := 0
  version := { version := 1, servs := [1] }

private theorem freshAcceptor_init : historySystem.init freshAcceptor :=
  ⟨rfl, rfl⟩

/-- Two values under ids 1.1 and 2.3: a request between them is told of the
first. -/
theorem prepare_reflects_history_twoValues :
    ∃ acceptor : AcceptorHistory, historySystem.Reachable acceptor ∧
      acceptor.accepted [97] = [(⟨1, 1⟩, 5), (⟨2, 3⟩, 6)] ∧
      ∃ report backup accepts,
        (ireceiveRequest Layout.natural acceptor.paxos (prepareFor ⟨1, 2⟩)).2 =
          .promise report backup accepts ∧
        Reflects (acceptor.accepted [97]) ⟨1, 2⟩ report := by
  have first : historySystem.Reachable freshAcceptor :=
    System.ReachableVia.start freshAcceptor_init
  have second := first.step (.accept [97] ⟨1, 1⟩ 5 1) trivial rfl
  have reached : historySystem.Reachable _ :=
    second.step (.accept [97] ⟨2, 3⟩ 6 1) trivial rfl
  refine ⟨_, reached, by decide, ?_⟩
  obtain ⟨report, backup, accepts, answered, reflects⟩ :=
    prepare_reflects_history_iff reached Layout.natural (prepareFor ⟨1, 2⟩) rfl
  refine ⟨report, backup, accepts, answered, reflects.mpr ?_⟩
  intro top greatest
  obtain ⟨value, member⟩ := greatest.reached
  have low := greatest.below
  have listed : (top, value) ∈ [((⟨1, 1⟩ : SId), (5 : Value)), (⟨2, 3⟩, 6)] := member
  simp only [List.mem_cons, Prod.mk.injEq, List.not_mem_nil, or_false] at listed
  rcases listed with ⟨rfl, rfl⟩ | ⟨rfl, rfl⟩
  · exact ⟨by decide, 5, by decide, by decide⟩
  · exact absurd low (by decide)

/-- The value of id 1.1 is accepted again under id 1.3: a request between them is
told that nothing was accepted. -/
theorem not_always_prepare_reflects_history :
    ¬ ∀ acceptor : AcceptorHistory, historySystem.Reachable acceptor →
        ∀ (layout : Layout) (request : PrepareRequest),
          acceptor.paxos.version.version = request.version.version →
          ∀ report backup accepts,
            (ireceiveRequest layout acceptor.paxos request).2 = .promise report backup accepts →
            Reflects (acceptor.accepted request.topic) request.id report := by
  intro always
  have first : historySystem.Reachable freshAcceptor :=
    System.ReachableVia.start freshAcceptor_init
  have second := first.step (.accept [97] ⟨1, 1⟩ 5 1) trivial rfl
  have reached : historySystem.Reachable _ :=
    second.step (.accept [97] ⟨1, 3⟩ 5 1) trivial rfl
  have silent : ∀ proposal ∈ [((⟨1, 1⟩ : SId), (5 : Value)), (⟨1, 3⟩, 5)],
      ¬ proposal.1 < (⟨1, 2⟩ : SId) :=
    always _ reached Layout.natural (prepareFor ⟨1, 2⟩) rfl none [] [] rfl
  exact silent (⟨1, 1⟩, 5) List.mem_cons_self (by decide)

end SimpleDfs.Paxos
