import SimpleDfs.Mserv.AttemptLedger

/-!
Contract: the two rounds of an attempt: an attempt is created after its own
questions, and reported after its own metadata is received.

Owns: the condition that a name is not requested anew while calls for it are
outstanding, the invariant of the book under it, and its preservation.

Does not own: that a request is answered at all.
-/

set_option autoImplicit false

namespace SimpleDfs.Mserv

open SimpleDfs.Library

section

variable {Name : Type} [DecidableEq Name]

/-- Only the answers to an attempt's own questions have led to `icreate`: all of
them have come, and none is negative. -/
def OnlyOwnAnswers (calls : List (RpcCall Name)) (icreated : List Nat) : Prop :=
  ∀ request ∈ icreated, ∀ call ∈ calls, call.request = request →
    call.callback = .checkAuthBack → call.ending.any CallEnding.accepts = true

/-- The metadata of every request reported as created has been handled by all
servers it was sent to, or they are lost. -/
def AllEnded (calls : List (RpcCall Name)) (replies : List (ClientReply Name)) : Prop :=
  ∀ reply ∈ replies, reply.md ≠ none → ∀ call ∈ calls, call.request = reply.request →
    call.callback = .sendMdBack → call.ending ≠ none

/-- The record of an attempt counts its outstanding calls, and they are all of
one round. -/
structure OpenRound (ledger : Ledger Name) (fname : Name) (creating : Creating) : Prop where
  counted : creating.ncheck = ledger.outstanding fname
  own : ∀ call ∈ ledger.calls, awaits fname call = true →
    call.request = ledger.owner fname ∧
      (call.callback = .sendMdBack ↔ ledger.owner fname ∈ ledger.icreated)
  checked : ledger.owner fname ∉ ledger.icreated → ∀ call ∈ ledger.calls,
    call.request = ledger.owner fname → call.callback = .checkAuthBack ∧
      ∀ ending, call.ending = some ending → ending.accepts = true
  silent : ∀ reply ∈ ledger.replies, reply.request ≠ ledger.owner fname

/-- The invariant of the book. -/
structure Rounds (ledger : Ledger Name) : Prop where
  named : ∀ call ∈ ledger.calls,
    (ledger.requests[call.request]?).map ClientRequest.fname = some call.fname
  owned : ∀ fname creating, ledger.records fname = some creating →
    (ledger.requests[ledger.owner fname]?).map ClientRequest.fname = some fname
  created : ∀ request ∈ ledger.icreated, request < ledger.requests.length
  replied : ∀ reply ∈ ledger.replies, reply.request < ledger.requests.length
  rounds : ∀ fname creating, ledger.records fname = some creating →
    OpenRound ledger fname creating
  answers : OnlyOwnAnswers ledger.calls ledger.icreated
  ended : AllEnded ledger.calls ledger.replies

section

variable {ledger : Ledger Name} {index : Nat} {call : RpcCall Name} {ending : CallEnding}
  {request : ClientRequest Name} {fname : Name} {creating : Creating}

omit [DecidableEq Name] in
theorem map_fname_below {requests : List (ClientRequest Name)} {number : Nat}
    (found : (requests[number]?).map ClientRequest.fname = some fname) :
    number < requests.length := by
  obtain ⟨_, inside, _⟩ := Option.map_eq_some_iff.mp found
  exact (List.getElem?_eq_some_iff.mp inside).1

omit [DecidableEq Name] in
/-- More requests have come. -/
theorem map_fname_append {requests : List (ClientRequest Name)} {number : Nat}
    (found : (requests[number]?).map ClientRequest.fname = some fname) :
    ((requests ++ [request])[number]?).map ClientRequest.fname = some fname := by
  rw [List.getElem?_append_left (map_fname_below found)]
  exact found

/-- The calls of the owner of a record are for the name of the record. -/
theorem Rounds.fname_of_owner (rounds : Rounds ledger)
    (record : ledger.records fname = some creating) (member : call ∈ ledger.calls)
    (own : call.request = ledger.owner fname) : call.fname = fname := by
  have named := rounds.named call member
  rw [own, rounds.owned fname creating record] at named
  exact (Option.some.inj named).symm

/-- Two records have two owners. -/
theorem Rounds.owner_ne (rounds : Rounds ledger) {other : Name} {creating' : Creating}
    (record : ledger.records fname = some creating)
    (otherRecord : ledger.records other = some creating') (different : other ≠ fname) :
    ledger.owner other ≠ ledger.owner fname := by
  intro same
  have owned := rounds.owned other creating' otherRecord
  rw [same, rounds.owned fname creating record] at owned
  exact different (Option.some.inj owned).symm

/-- A new request owns no record. -/
theorem Rounds.owner_ne_new (rounds : Rounds ledger) (record : ledger.records fname = some creating) :
    ledger.owner fname ≠ ledger.requests.length :=
  Nat.ne_of_lt (map_fname_below (rounds.owned fname creating record))

/-! ## A request -/

theorem Rounds.refuse (rounds : Rounds ledger) (connected : Bool) {reply : ClientReply Name}
    (isNew : reply.request = ledger.requests.length) (fails : reply.md = none) :
    Rounds ((ledger.arrive request).tell connected reply) := by
  have told : ∀ other ∈ ((ledger.arrive request).tell connected reply).replies,
      other ∈ ledger.replies ∨ other = reply := fun other => Ledger.mem_tell
  constructor
  · exact fun call member => map_fname_append (rounds.named call member)
  · exact fun fname creating record => map_fname_append (rounds.owned fname creating record)
  · exact fun number member => Ledger.below_concat (rounds.created number member) request
  · intro other member
    rcases told other member with earlier | rfl
    · exact Ledger.below_concat (rounds.replied other earlier) request
    · show other.request < (ledger.requests ++ [request]).length
      rw [isNew, List.length_append]
      exact Nat.lt_succ_self _
  · intro fname creating record
    obtain ⟨counted, own, checked, silent⟩ := rounds.rounds fname creating record
    refine ⟨counted, own, checked, ?_⟩
    intro other member
    rcases told other member with earlier | rfl
    · exact silent other earlier
    · rw [isNew]
      exact (rounds.owner_ne_new record).symm
  · exact rounds.answers
  · intro other member succeeds
    rcases told other member with earlier | rfl
    · exact rounds.ended other earlier succeeds
    · exact absurd fails succeeds

theorem Rounds.openAttempt (rounds : Rounds ledger) (size : FileSize) (peers : List CreatePeer)
    (afresh : ledger.outstanding request.fname = 0) :
    Rounds (ledger.openAttempt request size peers) := by
  have recordOf : ∀ fname creating,
      (ledger.openAttempt request size peers).records fname = some creating →
      fname = request.fname ∧ creating.ncheck = peers.length ∨
        fname ≠ request.fname ∧ ledger.records fname = some creating := by
    intro fname creating record
    refine (Ledger.record_of_update record).imp_left fun here => ⟨here.1, ?_⟩
    rw [← Option.some.inj here.2]
  have ownerHere : (ledger.openAttempt request size peers).owner request.fname =
      ledger.requests.length := Function.update_self _ _ _
  have ownerThere : ∀ fname, fname ≠ request.fname →
      (ledger.openAttempt request size peers).owner fname = ledger.owner fname :=
    fun fname different => Function.update_of_ne different _ _
  have callOf : ∀ call ∈ (ledger.openAttempt request size peers).calls, call ∈ ledger.calls ∨
      call.request = ledger.requests.length ∧ call.callback = .checkAuthBack ∧
        call.fname = request.fname ∧ call.ending = none :=
    fun call member => (List.mem_append.mp member).imp_right Ledger.mem_callsTo
  have below : ∀ call ∈ ledger.calls, call.request ≠ ledger.requests.length :=
    fun call member => Nat.ne_of_lt (map_fname_below (rounds.named call member))
  have newFname : ((ledger.requests ++ [request])[ledger.requests.length]?).map
      ClientRequest.fname = some request.fname := by
    rw [List.getElem?_concat_length]
    rfl
  constructor
  · intro call member
    rcases callOf call member with old | ⟨isNew, _, named, _⟩
    · exact map_fname_append (rounds.named call old)
    · rw [isNew, named]
      exact newFname
  · intro fname creating record
    rcases recordOf fname creating record with ⟨rfl, _⟩ | ⟨different, old⟩
    · rw [ownerHere]
      exact newFname
    · rw [ownerThere fname different]
      exact map_fname_append (rounds.owned fname creating old)
  · exact fun number member => Ledger.below_concat (rounds.created number member) request
  · exact fun reply member => Ledger.below_concat (rounds.replied reply member) request
  · intro fname creating record
    rcases recordOf fname creating record with ⟨rfl, ncheck⟩ | ⟨different, old⟩
    · have notCreated : ledger.requests.length ∉ ledger.icreated :=
        fun member => Nat.lt_irrefl _ (rounds.created _ member)
      constructor
      · rw [ncheck]
        show _ = ((ledger.calls ++ _).countP (awaits request.fname) : Int)
        rw [Ledger.outstanding_callsTo, if_pos rfl]
        show _ = ((ledger.outstanding request.fname + peers.length : Nat) : Int)
        rw [afresh, Nat.zero_add]
      · intro call member waits
        rcases callOf call member with earlier | ⟨isNew, isCheck, _, _⟩
        · have both := of_decide_eq_true waits
          exact absurd both.2 (Ledger.none_awaits afresh earlier both.1)
        · rw [ownerHere]
          refine ⟨isNew, iff_of_false ?_ notCreated⟩
          rw [isCheck]
          exact CreateCallback.noConfusion
      · rw [ownerHere]
        intro _ call member isOwn
        rcases callOf call member with earlier | ⟨_, isCheck, _, isOpen⟩
        · exact absurd isOwn (below call earlier)
        · refine ⟨isCheck, ?_⟩
          intro ending ended
          rw [isOpen] at ended
          cases ended
      · rw [ownerHere]
        exact fun reply member => Nat.ne_of_lt (rounds.replied reply member)
    · obtain ⟨counted, own, checked, silent⟩ := rounds.rounds fname creating old
      constructor
      · rw [counted]
        show _ = ((ledger.calls ++ _).countP (awaits fname) : Int)
        rw [Ledger.outstanding_callsTo, if_neg (Ne.symm different)]
        rfl
      · intro call member waits
        rw [ownerThere fname different]
        rcases callOf call member with earlier | ⟨_, _, named, _⟩
        · exact own call earlier waits
        · exact absurd ((of_decide_eq_true waits).1.symm.trans named) different
      · rw [ownerThere fname different]
        intro notCreated call member isOwn
        rcases callOf call member with earlier | ⟨isNew, _, _, _⟩
        · exact checked notCreated call earlier isOwn
        · exact absurd (isOwn.symm.trans isNew) (rounds.owner_ne_new old)
      · rw [ownerThere fname different]
        exact silent
  · intro number member call isCall isOwn
    rcases callOf call isCall with earlier | ⟨isNew, _, _, _⟩
    · exact rounds.answers number member call earlier isOwn
    · have small := rounds.created number member
      rw [← isOwn, isNew] at small
      exact absurd small (Nat.lt_irrefl _)
  · intro reply member succeeds call isCall isOwn isMd
    rcases callOf call isCall with earlier | ⟨_, isCheck, _, _⟩
    · exact rounds.ended reply member succeeds call earlier isOwn isMd
    · rw [isCheck] at isMd
      cases isMd

/-! ## The end of a call -/

theorem Rounds.finish_named (rounds : Rounds ledger) (found : ledger.calls[index]? = some call) :
    ∀ other ∈ (ledger.finish index call ending).calls,
      (ledger.requests[other.request]?).map ClientRequest.fname = some other.fname := by
  intro other member
  rcases Ledger.mem_finish member with earlier | rfl
  · exact rounds.named other earlier
  · exact rounds.named call (List.mem_of_getElem? found)

theorem Rounds.finish_answers (rounds : Rounds ledger) (found : ledger.calls[index]? = some call)
    (isOpen : call.ending = none) :
    OnlyOwnAnswers (ledger.finish index call ending).calls ledger.icreated := by
  intro number created other member isOwn isCheck
  rcases Ledger.mem_finish member with earlier | rfl
  · exact rounds.answers number created other earlier isOwn isCheck
  · -- a request that was created has no such call outstanding
    have ended := rounds.answers number created call (List.mem_of_getElem? found) isOwn isCheck
    rw [isOpen] at ended
    cases ended

theorem Rounds.finish_ended (rounds : Rounds ledger) :
    AllEnded (ledger.finish index call ending).calls ledger.replies := by
  intro reply told succeeds other member isOwn isMd
  rcases Ledger.mem_finish member with earlier | rfl
  · exact rounds.ended reply told succeeds other earlier isOwn isMd
  · exact Option.some_ne_none ending

/-- The records of other names do not see the end of a call. -/
theorem Rounds.finish_other (rounds : Rounds ledger) (found : ledger.calls[index]? = some call)
    (isOpen : call.ending = none) (ending : CallEnding) (record : ledger.records fname = some creating)
    (different : fname ≠ call.fname) :
    OpenRound (ledger.finish index call ending) fname creating := by
  obtain ⟨counted, own, checked, silent⟩ := rounds.rounds fname creating record
  refine ⟨?_, ?_, ?_, silent⟩
  · have same := Ledger.outstanding_finish found isOpen ending fname
    rw [if_neg (Ne.symm different), Nat.add_zero] at same
    rw [counted, same]
  · intro other member waits
    rcases Ledger.mem_finish member with earlier | rfl
    · exact own other earlier waits
    · cases (of_decide_eq_true waits).2
  · intro notCreated other member isOwn
    rcases Ledger.mem_finish member with earlier | rfl
    · exact checked notCreated other earlier isOwn
    · have named := rounds.fname_of_owner record (List.mem_of_getElem? found) isOwn
      exact absurd named.symm different

theorem Rounds.stray (rounds : Rounds ledger) (found : ledger.calls[index]? = some call)
    (isOpen : call.ending = none) (closed : ledger.records call.fname = none) :
    Rounds (ledger.finish index call ending) := by
  refine ⟨rounds.finish_named found, rounds.owned, rounds.created, rounds.replied, ?_,
    rounds.finish_answers found isOpen, rounds.finish_ended⟩
  intro fname creating record
  refine rounds.finish_other found isOpen ending record ?_
  rintro rfl
  exact absurd (closed.symm.trans record) (Option.some_ne_none creating).symm

/-- A reply closes the record; one of success is the last answer of the second
round. -/
theorem Rounds.closes (rounds : Rounds ledger) (found : ledger.calls[index]? = some call)
    (isOpen : call.ending = none) (record : ledger.records call.fname = some creating)
    (connected : Bool) {reply : ClientReply Name} (isOwn : reply.request = ledger.owner call.fname)
    (last : reply.md ≠ none → creating.ncheck = 1) :
    Rounds (((ledger.finish index call ending).tell connected reply).close call.fname) := by
  have told : ∀ other ∈ ((ledger.finish index call ending).tell connected reply).replies,
      other ∈ ledger.replies ∨ other = reply := fun other => Ledger.mem_tell
  have recordOf : ∀ fname creating,
      (((ledger.finish index call ending).tell connected reply).close call.fname).records fname =
        some creating → fname ≠ call.fname ∧ ledger.records fname = some creating := by
    intro fname creating here
    rcases Ledger.record_of_update here with ⟨_, impossible⟩ | other
    · cases impossible
    · exact other
  refine ⟨rounds.finish_named found, ?_, rounds.created, ?_, ?_, rounds.finish_answers found isOpen,
    ?_⟩
  · exact fun fname creating here => rounds.owned fname creating (recordOf fname creating here).2
  · intro other member
    rcases told other member with earlier | rfl
    · exact rounds.replied other earlier
    · exact isOwn ▸ map_fname_below (rounds.owned call.fname creating record)
  · intro fname creating' here
    obtain ⟨different, old⟩ := recordOf fname creating' here
    obtain ⟨counted, own, checked, silent⟩ :=
      rounds.finish_other found isOpen ending old different
    refine ⟨counted, own, checked, ?_⟩
    intro other member
    rcases told other member with earlier | rfl
    · exact silent other earlier
    · rw [isOwn]
      exact (rounds.owner_ne record old different).symm
  · intro other member succeeds sent isCall sentFor isMd
    rcases told other member with earlier | rfl
    · exact rounds.finish_ended other earlier succeeds sent isCall sentFor isMd
    · -- the record counts one outstanding call, and this one has just ended
      have counted := (rounds.rounds call.fname creating record).counted
      have one := Ledger.outstanding_finish found isOpen ending call.fname
      rw [last succeeds] at counted
      rw [if_pos rfl] at one
      have none : (ledger.finish index call ending).outstanding call.fname = 0 := by omega
      refine Ledger.none_awaits none isCall ?_
      rcases Ledger.mem_finish isCall with earlier | rfl
      · exact rounds.fname_of_owner record earlier (sentFor.trans isOwn)
      · rfl

/-- An answer that is counted. -/
theorem Rounds.counts (rounds : Rounds ledger) (found : ledger.calls[index]? = some call)
    (isOpen : call.ending = none) (record : ledger.records call.fname = some creating)
    (accepts : call.callback = .checkAuthBack → ending.accepts = true) :
    Rounds ((ledger.finish index call ending).count call.fname creating) := by
  have recordOf : ∀ fname creating',
      ((ledger.finish index call ending).count call.fname creating).records fname =
        some creating' → fname = call.fname ∧ creating'.ncheck = creating.ncheck - 1 ∨
          fname ≠ call.fname ∧ ledger.records fname = some creating' := by
    intro fname creating' here
    refine (Ledger.record_of_update here).imp_left fun same => ⟨same.1, ?_⟩
    rw [← Option.some.inj same.2]
  refine ⟨rounds.finish_named found, ?_, rounds.created, rounds.replied, ?_,
    rounds.finish_answers found isOpen, rounds.finish_ended⟩
  · intro fname creating' here
    rcases recordOf fname creating' here with ⟨rfl, _⟩ | ⟨_, old⟩
    · exact rounds.owned call.fname creating record
    · exact rounds.owned fname creating' old
  · intro fname creating' here
    rcases recordOf fname creating' here with ⟨rfl, ncheck⟩ | ⟨different, old⟩
    · obtain ⟨counted, own, checked, silent⟩ := rounds.rounds call.fname creating record
      refine ⟨?_, ?_, ?_, silent⟩
      · have one := Ledger.outstanding_finish found isOpen ending call.fname
        rw [if_pos rfl] at one
        show creating'.ncheck = ((ledger.finish index call ending).outstanding call.fname : Int)
        omega
      · intro other member waits
        rcases Ledger.mem_finish member with earlier | rfl
        · exact own other earlier waits
        · cases (of_decide_eq_true waits).2
      · intro notCreated other member isOwn
        rcases Ledger.mem_finish member with earlier | rfl
        · exact checked notCreated other earlier isOwn
        · have first := (checked notCreated call (List.mem_of_getElem? found) isOwn).1
          refine ⟨first, ?_⟩
          intro how isEnding
          cases Option.some.inj isEnding
          exact accepts first
    · obtain ⟨counted, own, checked, silent⟩ :=
        rounds.finish_other found isOpen ending old different
      exact ⟨counted, own, checked, silent⟩

/-- An attempt with no question left is created. -/
theorem Rounds.create (rounds : Rounds ledger) (record : ledger.records fname = some creating)
    (last : creating.ncheck = 0) (notCreated : ledger.owner fname ∉ ledger.icreated)
    (creating' : Creating) (peers : List CreatePeer) :
    Rounds (ledger.create fname creating' peers) := by
  obtain ⟨counted, own, checked, silent⟩ := rounds.rounds fname creating record
  have empty : ledger.outstanding fname = 0 := by omega
  have recordOf : ∀ other creating'',
      (ledger.create fname creating' peers).records other = some creating'' →
        other = fname ∧ creating''.ncheck = peers.length ∨
          other ≠ fname ∧ ledger.records other = some creating'' := by
    intro other creating'' here
    refine (Ledger.record_of_update here).imp_left fun same => ⟨same.1, ?_⟩
    rw [← Option.some.inj same.2]
  have callOf : ∀ call ∈ (ledger.create fname creating' peers).calls, call ∈ ledger.calls ∨
      call.request = ledger.owner fname ∧ call.callback = .sendMdBack ∧ call.fname = fname ∧
        call.ending = none :=
    fun call member => (List.mem_append.mp member).imp_right Ledger.mem_callsTo
  have createdOf : ∀ number ∈ (ledger.create fname creating' peers).icreated,
      number ∈ ledger.icreated ∨ number = ledger.owner fname :=
    fun number member => (List.mem_append.mp member).imp_right List.mem_singleton.mp
  have ownerNow : ledger.owner fname ∈ (ledger.create fname creating' peers).icreated :=
    List.mem_append_right _ (List.mem_singleton.mpr rfl)
  refine ⟨?_, ?_, ?_, rounds.replied, ?_, ?_, ?_⟩
  · intro call member
    rcases callOf call member with old | ⟨isOwn, _, named, _⟩
    · exact rounds.named call old
    · rw [isOwn, named]
      exact rounds.owned fname creating record
  · intro other creating'' here
    rcases recordOf other creating'' here with ⟨rfl, _⟩ | ⟨_, old⟩
    · exact rounds.owned other creating record
    · exact rounds.owned other creating'' old
  · intro number member
    rcases createdOf number member with old | rfl
    · exact rounds.created number old
    · exact map_fname_below (rounds.owned fname creating record)
  · intro other creating'' here
    rcases recordOf other creating'' here with ⟨rfl, ncheck⟩ | ⟨different, old⟩
    · refine ⟨?_, ?_, ?_, silent⟩
      · rw [ncheck]
        show _ = ((ledger.calls ++ _).countP (awaits other) : Int)
        rw [Ledger.outstanding_callsTo, if_pos rfl]
        show _ = ((ledger.outstanding other + peers.length : Nat) : Int)
        rw [empty, Nat.zero_add]
      · intro call member waits
        rcases callOf call member with earlier | ⟨isOwn, isMd, _, _⟩
        · have both := of_decide_eq_true waits
          exact absurd both.2 (Ledger.none_awaits empty earlier both.1)
        · exact ⟨isOwn, iff_of_true isMd ownerNow⟩
      · exact fun absent => absurd ownerNow absent
    · have apart := rounds.owner_ne record old different
      obtain ⟨counted, own, checked, silent⟩ := rounds.rounds other creating'' old
      have createdIff : ledger.owner other ∈ (ledger.create fname creating' peers).icreated ↔
          ledger.owner other ∈ ledger.icreated :=
        ⟨fun member => (createdOf _ member).resolve_right apart, List.mem_append_left _⟩
      refine ⟨?_, ?_, ?_, silent⟩
      · rw [counted]
        show _ = ((ledger.calls ++ _).countP (awaits other) : Int)
        rw [Ledger.outstanding_callsTo, if_neg (Ne.symm different)]
        rfl
      · intro call member waits
        rcases callOf call member with earlier | ⟨_, _, named, _⟩
        · have both := own call earlier waits
          exact ⟨both.1, both.2.trans createdIff.symm⟩
        · exact absurd ((of_decide_eq_true waits).1.symm.trans named) different
      · intro absent call member isOwn
        rcases callOf call member with earlier | ⟨isNew, _, _, _⟩
        · exact checked (fun present => absent (createdIff.mpr present)) call earlier isOwn
        · exact absurd (isOwn.symm.trans isNew) apart
  · intro number member call isCall isOwn isCheck
    rcases callOf call isCall with earlier | ⟨_, isMd, _, _⟩
    · rcases createdOf number member with old | rfl
      · exact rounds.answers number old call earlier isOwn isCheck
      · -- all questions of this attempt have been answered, and none was refused
        obtain ⟨_, accepted⟩ := checked notCreated call earlier isOwn
        have named := rounds.fname_of_owner record earlier isOwn
        obtain ⟨ending, ended⟩ := Option.ne_none_iff_exists'.mp
          (Ledger.none_awaits empty earlier named)
        rw [ended]
        exact accepted ending ended
    · rw [isMd] at isCheck
      cases isCheck
  · intro reply told succeeds call isCall isOwn isMd
    rcases callOf call isCall with earlier | ⟨isNew, _, _, _⟩
    · exact rounds.ended reply told succeeds call earlier isOwn isMd
    · exact absurd (isOwn.symm.trans isNew) (silent reply told)

end

/-! ## Runs -/

/-- A request is let through only while no call for its name is outstanding. -/
def startsAfresh (world : AttemptWorld Name) : AttemptEvent Name → Bool
  | .request around _ _ fname _ =>
      !icheckCanCreate around world.server world.server.id fname ||
        decide (world.outstanding fname = 0)
  | _ => true

theorem Rounds.request {around : Surroundings} {world : AttemptWorld Name}
    {request : ClientRequest Name} {size : FileSize} {after : Ledger Name}
    (rounds : Rounds world.ledger)
    (afresh : icheckCanCreate around world.server world.server.id request.fname = true →
      world.ledger.outstanding request.fname = 0)
    (entry : RequestEntry around world request size after) : Rounds after := by
  cases entry with
  | refused cannot => exact rounds.refuse _ rfl rfl
  | asks can others => exact rounds.openAttempt size _ (afresh can)
  | creates can alone =>
      refine (rounds.openAttempt size [] (afresh can)).create (Function.update_self _ _ _) rfl ?_ _ _
      unfold Ledger.openAttempt
      dsimp only
      rw [Function.update_self]
      exact fun member => Nat.lt_irrefl _ (rounds.created _ member)

theorem Rounds.answer {around : Surroundings} {world : AttemptWorld Name} {index : Nat}
    {call : RpcCall Name} {ending : CallEnding} {after : Ledger Name}
    (rounds : Rounds world.ledger) (found : world.ledger.calls[index]? = some call)
    (isOpen : call.ending = none) (entry : AnswerEntry around world index call ending after) :
    Rounds after := by
  cases entry with
  | stray closed => exact rounds.stray found isOpen closed
  | failed creating record refuses =>
      exact rounds.closes found isOpen record _ rfl fun succeeds => absurd rfl succeeds
  | counted creating record accepts more => exact rounds.counts found isOpen record accepts
  | creates creating record isCheck accepts last =>
      refine (rounds.counts found isOpen record fun _ => accepts).create
        (Function.update_self _ _ _) (by dsimp only; omega) ?_ _ _
      have own := (rounds.rounds call.fname creating record).own call (List.mem_of_getElem? found)
        (decide_eq_true ⟨rfl, isOpen⟩)
      intro created
      have isMd := own.2.mpr created
      rw [isCheck] at isMd
      cases isMd
  | succeeded creating record isMd last md =>
      exact rounds.closes found isOpen record _ rfl fun _ => last

theorem rounds_step {world after : AttemptWorld Name} {event : AttemptEvent Name}
    (rounds : Rounds world.ledger) (afresh : startsAfresh world event = true)
    (stepped : world.step event = some after) : Rounds after.ledger := by
  rcases entry_of_step stepped with ⟨around, clientId, reqId, fname, size, rfl, entry⟩ |
    ⟨around, index, ending, call, rfl, found, isOpen, entry⟩ | same
  · refine rounds.request ?_ entry
    intro can
    rcases Bool.or_eq_true_iff.mp afresh with cannot | none
    · rw [can] at cannot
      cases cannot
    · exact of_decide_eq_true none
  · exact rounds.answer found isOpen entry
  · exact same ▸ rounds

theorem rounds_started (id : Nat) : Rounds (startedMserv id : AttemptWorld Name).ledger := by
  constructor
  · exact fun call absent => absurd absent List.not_mem_nil
  · exact fun fname creating impossible => by cases impossible
  · exact fun request absent => absurd absent List.not_mem_nil
  · exact fun reply absent => absurd absent List.not_mem_nil
  · exact fun fname creating impossible => by cases impossible
  · exact fun request absent => absurd absent List.not_mem_nil
  · exact fun reply absent => absurd absent List.not_mem_nil

theorem rounds_reached {admitted : AttemptWorld Name → AttemptEvent Name → Prop}
    (afresh : ∀ world event, admitted world event → startsAfresh world event = true)
    {world : AttemptWorld Name} (reached : (attemptSystem Name).ReachableVia admitted world) :
    Rounds world.ledger := by
  refine reached.invariant (fun world => Rounds world.ledger) ?_ ?_
  · rintro start ⟨id, rfl⟩
    exact rounds_started id
  · exact fun before event after _ rounds allowed stepped =>
      rounds_step rounds (afresh before event allowed) stepped

/-- The metadata of every request reported as created has been accepted by all
servers it was sent to. -/
def StoredByAll (world : AttemptWorld Name) : Prop :=
  ∀ reply ∈ world.replies, reply.md ≠ none → ∀ call ∈ world.calls,
    call.request = reply.request → call.callback = .sendMdBack →
      call.ending = some (.answered 1)

/-- Every server that is sent metadata accepts it. -/
def acceptsMd (world : AttemptWorld Name) : AttemptEvent Name → Bool
  | .answer _ index ending =>
      world.calls[index]?.all fun call =>
        call.callback != .sendMdBack || ending == .answered 1
  | _ => true

/-- All metadata that was handled has been accepted. -/
def MdAccepted (world : AttemptWorld Name) : Prop :=
  ∀ call ∈ world.calls, call.callback = .sendMdBack → ∀ ending, call.ending = some ending →
    ending = .answered 1

omit [DecidableEq Name] in
/-- A new call is outstanding. -/
theorem rpcCallOf_open {request : Nat} {packet : CreatePacket Name} {call : RpcCall Name}
    (starts : rpcCallOf request packet = some call) : call.ending = none := by
  obtain ⟨pair, _, rfl⟩ := Option.map_eq_some_iff.mp starts
  rfl

omit [DecidableEq Name] in
theorem MdAccepted.act {world : AttemptWorld Name} (accepted : MdAccepted world) (request : Nat)
    (handler : CreateServer Name → CreateServer Name) :
    MdAccepted (world.act request handler) := by
  intro call member isMd ending ended
  rcases List.mem_append.mp member with earlier | isNew
  · exact accepted call earlier isMd ending ended
  · obtain ⟨packet, _, starts⟩ := List.mem_filterMap.mp isNew
    rw [rpcCallOf_open starts] at ended
    cases ended

theorem mdAccepted_step {world after : AttemptWorld Name} {event : AttemptEvent Name}
    (accepted : MdAccepted world) (accepts : acceptsMd world event = true)
    (stepped : world.step event = some after) : MdAccepted after := by
  unfold AttemptWorld.step at stepped
  split at stepped
  · cases stepped
  · cases event with
    | request around clientId reqId fname size =>
        cases Option.some.inj stepped
        have arrived : MdAccepted (world.arrive around
            { clientId := clientId, reqId := reqId, fname := fname }) := accepted
        exact arrived.act _ _
    | answer around index ending =>
        dsimp only at stepped
        cases found : world.calls[index]? with
        | none =>
            rw [found] at stepped
            cases stepped
        | some call =>
            unfold acceptsMd at accepts
            dsimp only at accepts
            rw [found] at stepped accepts
            dsimp only [Option.all_some] at stepped accepts
            split at stepped
            next =>
              cases Option.some.inj stepped
              refine MdAccepted.act ?_ _ _
              intro other member isMd how ended
              rcases List.mem_or_eq_of_mem_set member with earlier | rfl
              · exact accepted other earlier isMd how ended
              · rw [← Option.some.inj ended]
                rcases Bool.or_eq_true_iff.mp accepts with different | same
                · exact absurd isMd (bne_iff_ne.mp different)
                · exact beq_iff_eq.mp same
            next => cases stepped
    | checkAuth around src fname =>
        cases Option.some.inj stepped
        exact accepted
    | metadata src md =>
        cases Option.some.inj stepped
        exact accepted
    | metaMetaData around mmd =>
        cases Option.some.inj stepped
        exact accepted

/-- **Success means every target stored the metadata**, while every server
accepts what it is sent and no name is requested anew before all calls of the
earlier attempt on it have ended. -/
theorem success_stored_by_all {world : AttemptWorld Name}
    (reached : (attemptSystem Name).ReachableVia
      (fun world event => (startsAfresh world event && acceptsMd world event) = true) world) :
    StoredByAll world := by
  have rounds := rounds_reached (fun _ _ both => (Bool.and_eq_true_iff.mp both).1) reached
  have accepted : MdAccepted world := by
    refine reached.invariant MdAccepted ?_ ?_
    · rintro start ⟨id, rfl⟩
      exact fun call absent => absurd absent List.not_mem_nil
    · exact fun before event after _ accepted both stepped =>
        mdAccepted_step accepted (Bool.and_eq_true_iff.mp both).2 stepped
  intro reply member succeeds call isCall isOwn isMd
  obtain ⟨ending, ended⟩ := Option.ne_none_iff_exists'.mp
    (rounds.ended reply member succeeds call isCall isOwn isMd)
  rw [ended, accepted call isCall isMd ending ended]

instance (calls : List (RpcCall Name)) (icreated : List Nat) :
    Decidable (OnlyOwnAnswers calls icreated) :=
  inferInstanceAs (Decidable (∀ request ∈ icreated, ∀ call ∈ calls, _ → _ → _))

instance (world : AttemptWorld Name) : Decidable (StoredByAll world) :=
  inferInstanceAs (Decidable (∀ reply ∈ world.replies, _ → ∀ call ∈ world.calls, _ → _ → _))

end

/-! ## Runs of one server -/

/-- Meta servers 2 and 3 and a data server are connected, and all clients. -/
def besideTwo : Surroundings where
  mservs := [⟨2, 1⟩, ⟨3, 1⟩]
  dservs := [⟨1, 1⟩]
  mservActive := fun id => id == 2 || id == 3
  dservActive := fun id => id == 1
  clientActive := fun _ => true
  strayFlags := 0
  freshFlags := 0
  freshMservs := fun _ => 2
  blockNum := fun _ => 1

/-- A data server and the clients are connected. -/
def besideDserv : Surroundings :=
  { besideTwo with mservs := [], mservActive := fun _ => false }

/-- Client 1 asks for an empty file 7. -/
def requestSeven (around : Surroundings) (reqId : Nat) : AttemptEvent Nat :=
  .request around 1 reqId 7 ⟨0, 0⟩

/-- The calls in their order end like this. -/
def answersOf (endings : List (Nat × CallEnding)) : List (AttemptEvent Nat) :=
  endings.map fun (index, ending) => .answer besideTwo index ending

/-- Server 1 is refused file 7 by server 2; when server 3 has answered too, the
file is requested again and created. -/
def secondAttempt : AttemptWorld Nat :=
  (attemptSystem Nat).outcome (startedMserv 1)
    (requestSeven besideTwo 1 :: answersOf [(0, .answered 0), (1, .answered 1)] ++
      requestSeven besideTwo 2 :: answersOf [(2, .cut), (3, .answered 1), (4, .answered 1),
        (5, .answered 1)])

/-- The same, but the file is requested again before server 3 has answered for
the first time: its answer is taken for one to the second question. -/
def mixedAttempts : AttemptWorld Nat :=
  (attemptSystem Nat).outcome (startedMserv 1)
    (requestSeven besideTwo 1 :: answersOf [(0, .answered 0)] ++
      requestSeven besideTwo 2 :: answersOf [(1, .answered 1), (2, .answered 1)])

theorem success_stored_by_all_secondAttempt :
    secondAttempt.replies.map (fun reply => reply.md.isSome) = [false, true] ∧
      StoredByAll secondAttempt := by
  have initial : (attemptSystem Nat).init (startedMserv 1) := ⟨1, rfl⟩
  exact ⟨by decide +kernel,
    success_stored_by_all (System.reachableVia_outcome initial _ (by decide +kernel))⟩

/-- The only target of the metadata never answers. -/
def lostMetadata : AttemptWorld Nat :=
  (attemptSystem Nat).outcome (startedMserv 1)
    [requestSeven besideDserv 1, .answer besideDserv 0 .cut]

theorem not_always_success_stored_by_all :
    ¬ ∀ world : AttemptWorld Nat, (attemptSystem Nat).Reachable world → StoredByAll world := by
  intro always
  have initial : (attemptSystem Nat).init (startedMserv 1) := ⟨1, rfl⟩
  have stored := always lostMetadata (System.reachable_outcome initial _)
  revert stored
  decide +kernel

end SimpleDfs.Mserv
