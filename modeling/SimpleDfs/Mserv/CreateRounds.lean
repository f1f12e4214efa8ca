import Mathlib.Data.List.Basic
import Mathlib.Logic.Function.Basic
import Mathlib.Tactic.Common

/-!
Contract: the rounds of questions about one file name, in the abstract.

Owns: `RoundView`, what the attempts on one name amount to; the moves of a
round, where an attempt starts only if no attempt that this server has granted
is open at a server above it; the invariant of these moves; and that no second
attempt is completed.

Does not own: the packets that stand behind a view.
-/

set_option autoImplicit false

namespace SimpleDfs.Mserv

/-- The attempts of all servers on one name. `ncheck` is the open attempt of a
server; `pending` counts its questions and their answers in flight; `withheld
granter asker` says that a question of `asker` to `granter` or a refusal of it
is in flight; `created` lists the completed attempts, `reported` the successes
told to a client. -/
structure RoundView where
  ncheck : Nat → Option Int
  recorded : Nat → Prop
  pending : Nat → Nat
  withheld : Nat → Nat → Prop
  sentMetadata : Nat → Prop
  created : List Nat
  reported : List Nat
  asks : ∀ granter asker, withheld granter asker → 0 < pending asker

namespace RoundView

/-- What a move at `server` leaves to the others. -/
structure Others (server : Nat) (before after : RoundView) : Prop where
  ncheck : ∀ other, other ≠ server → after.ncheck other = before.ncheck other
  recorded : ∀ other, before.recorded other → after.recorded other
  pending : ∀ other, other ≠ server → after.pending other = before.pending other
  withheld : ∀ granter asker, asker ≠ server → before.withheld granter asker →
    after.withheld granter asker
  sentMetadata : ∀ other, other ≠ server → after.sentMetadata other → before.sentMetadata other

/-- One move on the name. -/
inductive Move (members : List Nat) (before after : RoundView) : Prop where
  /-- No open attempt changes. -/
  | quiet (ncheck : after.ncheck = before.ncheck)
      (recorded : ∀ server, before.recorded server → after.recorded server)
      (pending : ∀ server, before.ncheck server ≠ none → after.pending server = before.pending server)
      (drained : ∀ server, before.pending server = 0 → after.pending server = 0)
      (withheld : ∀ granter asker, before.ncheck asker ≠ none → before.withheld granter asker →
        after.withheld granter asker)
      (sentMetadata : ∀ server, after.sentMetadata server → before.sentMetadata server)
      (created : after.created = before.created) (reported : after.reported = before.reported)
  /-- A server asks all others. -/
  | start (server : Nat) (others : Others server before after) (member : server ∈ members)
      (fresh : before.ncheck server = none) (unrecorded : ¬ before.recorded server)
      (above : ∀ other, server < other → before.ncheck other ≠ none → before.withheld server other)
      (ncheck : after.ncheck server = some (after.pending server))
      (asked : ∀ other ∈ members, other ≠ server → after.withheld other server)
      (sentMetadata : after.sentMetadata server → before.sentMetadata server)
      (created : after.created = before.created) (reported : after.reported = before.reported)
  /-- A server with nobody to ask completes its attempt at once. -/
  | alone (server : Nat) (others : Others server before after) (member : server ∈ members)
      (only : ∀ other ∈ members, other = server) (unrecorded : ¬ before.recorded server)
      (recorded : after.recorded server) (pending : after.pending server = 0)
      (created : after.created = before.created ++ [server])
      (reported : after.reported = before.reported) (fresh : before.ncheck server = none)
  /-- A server answers yes. -/
  | grant (granter asker : Nat)
      (allowed : before.ncheck granter = none ∧ ¬ before.recorded granter ∨
        before.ncheck granter ≠ none ∧ asker < granter)
      (ncheck : after.ncheck = before.ncheck)
      (recorded : ∀ server, before.recorded server → after.recorded server)
      (pending : after.pending = before.pending)
      (withheld : ∀ one other, ¬ (one = granter ∧ other = asker) → before.withheld one other →
        after.withheld one other)
      (sentMetadata : ∀ server, after.sentMetadata server → before.sentMetadata server)
      (created : after.created = before.created) (reported : after.reported = before.reported)
  /-- An attempt ends without a success. -/
  | close (server : Nat) (others : Others server before after) (ncheck : after.ncheck server = none)
      (drained : before.pending server = 0 → after.pending server = 0)
      (sentMetadata : after.sentMetadata server → before.sentMetadata server)
      (created : after.created = before.created) (reported : after.reported = before.reported)
  /-- An answer is counted that is not the last. -/
  | collect (server : Nat) (others : Others server before after) (left : Int)
      (ncheck : before.ncheck server = some (left + 1)) (counted : after.ncheck server = some left)
      (pending : before.pending server = after.pending server + 1)
      (withheld : ∀ granter, before.withheld granter server → after.withheld granter server)
      (sentMetadata : after.sentMetadata server → before.sentMetadata server)
      (created : after.created = before.created) (reported : after.reported = before.reported)
  /-- The last answer is counted, and the attempt is completed. -/
  | complete (server : Nat) (others : Others server before after)
      (ncheck : before.ncheck server = some 1) (stays : after.ncheck server ≠ none)
      (pending : before.pending server = after.pending server + 1)
      (withheld : ∀ granter, before.withheld granter server → after.withheld granter server)
      (recorded : after.recorded server) (created : after.created = before.created ++ [server])
      (reported : after.reported = before.reported)
  /-- A target has taken the metadata; after the last one the attempt is closed
  and the success reported. -/
  | stored (server : Nat) (others : Others server before after) (sent : before.sentMetadata server)
      (ncheck : before.ncheck server ≠ none) (pending : after.pending server = before.pending server)
      (withheld : ∀ granter, before.withheld granter server → after.withheld granter server)
      (created : after.created = before.created)
      (reported : after.reported = before.reported ∨
        after.ncheck server = none ∧ after.reported = before.reported ++ [server])

/-- The invariant of the moves. `grantedIdle` carries the argument: a server that
has granted an open attempt above it has none itself. -/
structure Invariant (members : List Nat) (view : RoundView) : Prop where
  liveMember : ∀ server, view.ncheck server ≠ none → server ∈ members
  createdMember : ∀ server ∈ view.created, server ∈ members
  counted : ∀ server left, view.ncheck server = some left → server ∉ view.created →
    left = view.pending server
  drained : ∀ server ∈ view.created, view.pending server = 0
  recorded : ∀ server ∈ view.created, view.recorded server
  sentMetadata : ∀ server, view.sentMetadata server → server ∈ view.created
  grantedIdle : ∀ granter asker, granter < asker → view.ncheck asker ≠ none →
    ¬ view.withheld granter asker → view.ncheck granter = none
  refusedByCreator : ∀ creator asker, creator ∈ view.created → view.ncheck asker ≠ none →
    asker ∉ view.created → view.withheld creator asker
  once : view.created.length ≤ 1
  reportedOnce : view.reported.length ≤ 1
  reportedDone : ∀ server ∈ view.reported, server ∈ view.created ∧ view.ncheck server = none

variable {members : List Nat} {before after : RoundView}

namespace Invariant

theorem quiet (invariant : Invariant members before) (ncheck : after.ncheck = before.ncheck)
    (recorded : ∀ server, before.recorded server → after.recorded server)
    (pending : ∀ server, before.ncheck server ≠ none → after.pending server = before.pending server)
    (drained : ∀ server, before.pending server = 0 → after.pending server = 0)
    (withheld : ∀ granter asker, before.ncheck asker ≠ none → before.withheld granter asker →
      after.withheld granter asker)
    (sentMetadata : ∀ server, after.sentMetadata server → before.sentMetadata server)
    (created : after.created = before.created) (reported : after.reported = before.reported) :
    Invariant members after := by
  constructor
  · intro server live
    exact invariant.liveMember server (ncheck ▸ live)
  · exact created ▸ invariant.createdMember
  · intro server left counted uncreated
    rw [ncheck] at counted
    rw [pending server (by rw [counted]; exact Option.some_ne_none left)]
    exact invariant.counted server left counted (created ▸ uncreated)
  · intro server member
    exact drained server (invariant.drained server (created ▸ member))
  · intro server member
    exact recorded server (invariant.recorded server (created ▸ member))
  · intro server sent
    exact created ▸ invariant.sentMetadata server (sentMetadata server sent)
  · intro granter asker below live granted
    rw [ncheck] at live ⊢
    exact invariant.grantedIdle granter asker below live fun held =>
      granted (withheld granter asker live held)
  · intro creator asker member live uncreated
    rw [ncheck] at live
    rw [created] at member uncreated
    exact withheld creator asker live (invariant.refusedByCreator creator asker member live uncreated)
  · exact created ▸ invariant.once
  · exact reported ▸ invariant.reportedOnce
  · rw [reported, created, ncheck]
    exact invariant.reportedDone

/-- Whether an open attempt of another server stays open does not depend on the
move. -/
theorem others_live {server other : Nat} (others : Others server before after)
    (apart : other ≠ server) : after.ncheck other ≠ none ↔ before.ncheck other ≠ none := by
  rw [others.ncheck other apart]

theorem start {server : Nat} (invariant : Invariant members before)
    (others : Others server before after) (member : server ∈ members)
    (fresh : before.ncheck server = none) (unrecorded : ¬ before.recorded server)
    (above : ∀ other, server < other → before.ncheck other ≠ none → before.withheld server other)
    (ncheck : after.ncheck server = some (after.pending server))
    (asked : ∀ other ∈ members, other ≠ server → after.withheld other server)
    (sentMetadata : after.sentMetadata server → before.sentMetadata server)
    (created : after.created = before.created) (reported : after.reported = before.reported) :
    Invariant members after := by
  have uncreated : server ∉ before.created := fun listed =>
    unrecorded (invariant.recorded server listed)
  constructor
  · intro other live
    by_cases same : other = server
    · exact same ▸ member
    · exact invariant.liveMember other ((others_live others same).mp live)
  · exact created ▸ invariant.createdMember
  · intro other left counted notCreated
    by_cases same : other = server
    · subst same
      rw [ncheck] at counted
      exact (Option.some.inj counted).symm
    · rw [others.ncheck other same] at counted
      rw [others.pending other same]
      exact invariant.counted other left counted (created ▸ notCreated)
  · intro other listed
    rw [created] at listed
    have apart : other ≠ server := fun same => uncreated (same ▸ listed)
    rw [others.pending other apart]
    exact invariant.drained other listed
  · intro other listed
    exact others.recorded other (invariant.recorded other (created ▸ listed))
  · intro other sent
    rw [created]
    by_cases same : other = server
    · subst same
      exact invariant.sentMetadata other (sentMetadata sent)
    · exact invariant.sentMetadata other (others.sentMetadata other same sent)
  · intro granter asker below live granted
    by_cases atAsker : asker = server
    · subst atAsker
      have apart : granter ≠ asker := Nat.ne_of_lt below
      rw [others.ncheck granter apart]
      by_contra open_
      exact granted (asked granter (invariant.liveMember granter open_) apart)
    · have liveBefore := (others_live others atAsker).mp live
      by_cases atGranter : granter = server
      · subst atGranter
        exact absurd (others.withheld granter asker atAsker (above asker below liveBefore)) granted
      · rw [others.ncheck granter atGranter]
        exact invariant.grantedIdle granter asker below liveBefore fun held =>
          granted (others.withheld granter asker atAsker held)
  · intro creator asker listed live notCreated
    rw [created] at listed notCreated
    by_cases same : asker = server
    · subst same
      have apart : creator ≠ asker := fun equal => uncreated (equal ▸ listed)
      exact asked creator (invariant.createdMember creator listed) apart
    · exact others.withheld creator asker same (invariant.refusedByCreator creator asker listed
        ((others_live others same).mp live) notCreated)
  · exact created ▸ invariant.once
  · exact reported ▸ invariant.reportedOnce
  · intro other listed
    rw [reported] at listed
    have done := invariant.reportedDone other listed
    have apart : other ≠ server := fun same => uncreated (same ▸ done.1)
    rw [created, others.ncheck other apart]
    exact done

theorem alone {server : Nat} (invariant : Invariant members before)
    (others : Others server before after) (member : server ∈ members)
    (only : ∀ other ∈ members, other = server) (unrecorded : ¬ before.recorded server)
    (recorded : after.recorded server) (pending : after.pending server = 0)
    (created : after.created = before.created ++ [server])
    (reported : after.reported = before.reported) : Invariant members after := by
  have nobody : before.created = [] := by
    apply List.eq_nil_iff_forall_not_mem.mpr
    intro other listed
    have same := only other (invariant.createdMember other listed)
    exact unrecorded (same ▸ invariant.recorded other listed)
  have mine : after.created = [server] := by rw [created, nobody]; rfl
  have unreported : after.reported = [] := by
    rw [reported]
    apply List.eq_nil_iff_forall_not_mem.mpr
    intro other listed
    have done := (invariant.reportedDone other listed).1
    rw [nobody] at done
    cases done
  have liveOnly : ∀ other, after.ncheck other ≠ none → other = server := by
    intro other live
    by_contra apart
    exact apart (only other (invariant.liveMember other ((others_live others apart).mp live)))
  constructor
  · intro other live
    exact liveOnly other live ▸ member
  · intro other listed
    rw [mine] at listed
    exact List.mem_singleton.mp listed ▸ member
  · intro other left counted uncreated
    have same := liveOnly other (by rw [counted]; exact Option.some_ne_none left)
    exact absurd (mine ▸ same ▸ List.mem_singleton_self server) uncreated
  · intro other listed
    rw [mine] at listed
    exact List.mem_singleton.mp listed ▸ pending
  · intro other listed
    rw [mine] at listed
    exact List.mem_singleton.mp listed ▸ recorded
  · intro other sent
    rw [mine, List.mem_singleton]
    by_contra apart
    have listed := invariant.sentMetadata other (others.sentMetadata other apart sent)
    rw [nobody] at listed
    cases listed
  · intro granter asker below live granted
    have same := liveOnly asker live
    by_contra open_
    have sameGranter := liveOnly granter open_
    omega
  · intro creator asker listed live uncreated
    have same := liveOnly asker live
    exact absurd (mine ▸ same ▸ List.mem_singleton_self server) uncreated
  · simp [mine]
  · simp [unreported]
  · intro other listed
    rw [unreported] at listed
    cases listed

theorem grant {granter asker : Nat} (invariant : Invariant members before)
    (allowed : before.ncheck granter = none ∧ ¬ before.recorded granter ∨
      before.ncheck granter ≠ none ∧ asker < granter)
    (ncheck : after.ncheck = before.ncheck)
    (recorded : ∀ server, before.recorded server → after.recorded server)
    (pending : after.pending = before.pending)
    (withheld : ∀ one other, ¬ (one = granter ∧ other = asker) → before.withheld one other →
      after.withheld one other)
    (sentMetadata : ∀ server, after.sentMetadata server → before.sentMetadata server)
    (created : after.created = before.created) (reported : after.reported = before.reported) :
    Invariant members after := by
  constructor
  · exact ncheck ▸ invariant.liveMember
  · exact created ▸ invariant.createdMember
  · rw [ncheck, pending, created]
    exact invariant.counted
  · rw [created, pending]
    exact invariant.drained
  · intro server member
    exact recorded server (invariant.recorded server (created ▸ member))
  · intro server sent
    exact created ▸ invariant.sentMetadata server (sentMetadata server sent)
  · intro one other below live granted
    rw [ncheck] at live ⊢
    by_cases here : one = granter ∧ other = asker
    · obtain ⟨rfl, rfl⟩ := here
      rcases allowed with idle | above
      · exact idle.1
      · exact absurd above.2 (Nat.lt_asymm below)
    · exact invariant.grantedIdle one other below live fun held =>
        granted (withheld one other here held)
  · intro creator other listed live uncreated
    rw [ncheck] at live
    rw [created] at listed uncreated
    have held := invariant.refusedByCreator creator other listed live uncreated
    refine withheld creator other ?_ held
    rintro ⟨rfl, rfl⟩
    rcases allowed with idle | above
    · exact idle.2 (invariant.recorded creator listed)
    · -- the creator's own attempt was granted by everybody
      have drained := invariant.drained creator listed
      refine live (invariant.grantedIdle other creator above.2 above.1 fun asked => ?_)
      have asking := before.asks other creator asked
      omega
  · exact created ▸ invariant.once
  · exact reported ▸ invariant.reportedOnce
  · rw [reported, created, ncheck]
    exact invariant.reportedDone

/-- The open attempts of the others stay granted or not as they were. -/
theorem close {server : Nat} (invariant : Invariant members before)
    (others : Others server before after) (ncheck : after.ncheck server = none)
    (drained : before.pending server = 0 → after.pending server = 0)
    (sentMetadata : after.sentMetadata server → before.sentMetadata server)
    (created : after.created = before.created) (reported : after.reported = before.reported) :
    Invariant members after := by
  have elsewhere : ∀ other, after.ncheck other ≠ none → other ≠ server := by
    rintro other live rfl
    exact live ncheck
  have liveBefore : ∀ other, after.ncheck other ≠ none → before.ncheck other ≠ none :=
    fun other live => (others_live others (elsewhere other live)).mp live
  constructor
  · exact fun other live => invariant.liveMember other (liveBefore other live)
  · exact created ▸ invariant.createdMember
  · intro other left counted uncreated
    have apart := elsewhere other (by rw [counted]; exact Option.some_ne_none left)
    rw [others.ncheck other apart] at counted
    rw [others.pending other apart]
    exact invariant.counted other left counted (created ▸ uncreated)
  · intro other listed
    rw [created] at listed
    by_cases same : other = server
    · exact same ▸ drained (same ▸ invariant.drained other listed)
    · rw [others.pending other same]
      exact invariant.drained other listed
  · intro other listed
    exact others.recorded other (invariant.recorded other (created ▸ listed))
  · intro other sent
    rw [created]
    by_cases same : other = server
    · exact same ▸ invariant.sentMetadata server (sentMetadata (same ▸ sent))
    · exact invariant.sentMetadata other (others.sentMetadata other same sent)
  · intro granter asker below live granted
    by_cases same : granter = server
    · exact same ▸ ncheck
    · rw [others.ncheck granter same]
      exact invariant.grantedIdle granter asker below (liveBefore asker live) fun held =>
        granted (others.withheld granter asker (elsewhere asker live) held)
  · intro creator asker listed live uncreated
    rw [created] at listed uncreated
    exact others.withheld creator asker (elsewhere asker live)
      (invariant.refusedByCreator creator asker listed (liveBefore asker live) uncreated)
  · exact created ▸ invariant.once
  · exact reported ▸ invariant.reportedOnce
  · intro other listed
    rw [reported] at listed
    have done := invariant.reportedDone other listed
    refine ⟨created ▸ done.1, ?_⟩
    by_cases same : other = server
    · exact same ▸ ncheck
    · rw [others.ncheck other same]
      exact done.2

theorem collect {server : Nat} (invariant : Invariant members before)
    (others : Others server before after) (left : Int)
    (ncheck : before.ncheck server = some (left + 1)) (counted : after.ncheck server = some left)
    (pending : before.pending server = after.pending server + 1)
    (withheld : ∀ granter, before.withheld granter server → after.withheld granter server)
    (sentMetadata : after.sentMetadata server → before.sentMetadata server)
    (created : after.created = before.created) (reported : after.reported = before.reported) :
    Invariant members after := by
  have live : ∀ other, after.ncheck other ≠ none ↔ before.ncheck other ≠ none := by
    intro other
    by_cases same : other = server
    · rw [same, ncheck, counted]
      exact ⟨fun _ => Option.some_ne_none _, fun _ => Option.some_ne_none _⟩
    · rw [others.ncheck other same]
  have held : ∀ granter asker, before.withheld granter asker → after.withheld granter asker := by
    intro granter asker before_
    by_cases same : asker = server
    · exact same ▸ withheld granter (same ▸ before_)
    · exact others.withheld granter asker same before_
  have uncreated : server ∉ before.created := by
    intro listed
    have drained := invariant.drained server listed
    omega
  constructor
  · exact fun other open_ => invariant.liveMember other ((live other).mp open_)
  · exact created ▸ invariant.createdMember
  · intro other rest checks notCreated
    by_cases same : other = server
    · subst same
      have total := invariant.counted other (left + 1) ncheck uncreated
      rw [counted] at checks
      have equal := Option.some.inj checks
      omega
    · rw [others.ncheck other same] at checks
      rw [others.pending other same]
      exact invariant.counted other rest checks (created ▸ notCreated)
  · intro other listed
    rw [created] at listed
    have apart : other ≠ server := fun same => uncreated (same ▸ listed)
    rw [others.pending other apart]
    exact invariant.drained other listed
  · intro other listed
    exact others.recorded other (invariant.recorded other (created ▸ listed))
  · intro other sent
    rw [created]
    by_cases same : other = server
    · exact same ▸ invariant.sentMetadata server (sentMetadata (same ▸ sent))
    · exact invariant.sentMetadata other (others.sentMetadata other same sent)
  · intro granter asker below open_ granted
    have idle := invariant.grantedIdle granter asker below ((live asker).mp open_) fun before_ =>
      granted (held granter asker before_)
    by_contra opened
    exact (live granter).mp opened idle
  · intro creator asker listed open_ notCreated
    rw [created] at listed notCreated
    exact held creator asker
      (invariant.refusedByCreator creator asker listed ((live asker).mp open_) notCreated)
  · exact created ▸ invariant.once
  · exact reported ▸ invariant.reportedOnce
  · intro other listed
    rw [reported] at listed
    have done := invariant.reportedDone other listed
    have apart : other ≠ server := fun same => uncreated (same ▸ done.1)
    rw [created, others.ncheck other apart]
    exact done

/-- Nobody has completed an attempt before: a creator would still withhold its
answer from this server, and all answers are in. -/
theorem complete {server : Nat} (invariant : Invariant members before)
    (others : Others server before after) (ncheck : before.ncheck server = some 1)
    (stays : after.ncheck server ≠ none)
    (pending : before.pending server = after.pending server + 1)
    (withheld : ∀ granter, before.withheld granter server → after.withheld granter server)
    (recorded : after.recorded server) (created : after.created = before.created ++ [server])
    (reported : after.reported = before.reported) : Invariant members after := by
  have open_ : before.ncheck server ≠ none := by
    rw [ncheck]
    exact Option.some_ne_none 1
  have uncreated : server ∉ before.created := by
    intro listed
    have drained := invariant.drained server listed
    omega
  have total := invariant.counted server 1 ncheck uncreated
  have allIn : after.pending server = 0 := by omega
  have granted : ∀ granter, ¬ before.withheld granter server := by
    intro granter held
    have asking := after.asks granter server (withheld granter held)
    omega
  have nobody : before.created = [] := by
    apply List.eq_nil_iff_forall_not_mem.mpr
    intro creator listed
    exact granted creator (invariant.refusedByCreator creator server listed open_ uncreated)
  have mine : after.created = [server] := by rw [created, nobody]; rfl
  have unreported : after.reported = [] := by
    rw [reported]
    apply List.eq_nil_iff_forall_not_mem.mpr
    intro other listed
    have done := (invariant.reportedDone other listed).1
    rw [nobody] at done
    cases done
  have liveBefore : ∀ other, after.ncheck other ≠ none → before.ncheck other ≠ none := by
    intro other live
    by_cases same : other = server
    · exact same ▸ open_
    · exact (others_live others same).mp live
  have held : ∀ granter asker, before.withheld granter asker → after.withheld granter asker := by
    intro granter asker before_
    by_cases same : asker = server
    · exact same ▸ withheld granter (same ▸ before_)
    · exact others.withheld granter asker same before_
  constructor
  · exact fun other live => invariant.liveMember other (liveBefore other live)
  · intro other listed
    rw [mine] at listed
    exact List.mem_singleton.mp listed ▸ invariant.liveMember server open_
  · intro other left counted notCreated
    have apart : other ≠ server := by
      rintro rfl
      exact notCreated (mine ▸ List.mem_singleton_self other)
    rw [others.ncheck other apart] at counted
    rw [others.pending other apart]
    exact invariant.counted other left counted (nobody ▸ List.not_mem_nil)
  · intro other listed
    rw [mine] at listed
    exact List.mem_singleton.mp listed ▸ allIn
  · intro other listed
    rw [mine] at listed
    exact List.mem_singleton.mp listed ▸ recorded
  · intro other sent
    rw [mine, List.mem_singleton]
    by_contra apart
    have listed := invariant.sentMetadata other (others.sentMetadata other apart sent)
    rw [nobody] at listed
    cases listed
  · intro granter asker below live free
    have idle := invariant.grantedIdle granter asker below (liveBefore asker live) fun before_ =>
      free (held granter asker before_)
    by_contra opened
    exact liveBefore granter opened idle
  · intro creator asker listed live notCreated
    rw [mine] at listed notCreated
    rw [List.mem_singleton.mp listed]
    have apart : asker ≠ server := fun same => notCreated (same ▸ List.mem_singleton_self asker)
    have openAsker := liveBefore asker live
    apply held
    by_contra free
    rcases Nat.lt_or_gt_of_ne apart with below | above
    · exact openAsker (invariant.grantedIdle asker server below open_ (granted asker))
    · exact open_ (invariant.grantedIdle server asker above openAsker free)
  · simp [mine]
  · simp [unreported]
  · intro other listed
    rw [unreported] at listed
    cases listed

/-- A completed attempt counts the metadata that was taken. -/
theorem stored {server : Nat} (invariant : Invariant members before)
    (others : Others server before after) (sent : before.sentMetadata server)
    (ncheck : before.ncheck server ≠ none) (pending : after.pending server = before.pending server)
    (withheld : ∀ granter, before.withheld granter server → after.withheld granter server)
    (created : after.created = before.created)
    (reported : after.reported = before.reported ∨
      after.ncheck server = none ∧ after.reported = before.reported ++ [server]) :
    Invariant members after := by
  have mine := invariant.sentMetadata server sent
  have only : ∀ other ∈ before.created, other = server := by
    intro other listed
    obtain ⟨first, single⟩ := List.length_eq_one_iff.mp
      (Nat.le_antisymm invariant.once (List.length_pos_of_mem mine))
    rw [single, List.mem_singleton] at listed mine
    exact listed.trans mine.symm
  have unreported : before.reported = [] := by
    apply List.eq_nil_iff_forall_not_mem.mpr
    intro other listed
    have done := invariant.reportedDone other listed
    exact ncheck (only other done.1 ▸ done.2)
  have liveBefore : ∀ other, after.ncheck other ≠ none → before.ncheck other ≠ none := by
    intro other live
    by_cases same : other = server
    · exact same ▸ ncheck
    · exact (others_live others same).mp live
  have held : ∀ granter asker, before.withheld granter asker → after.withheld granter asker := by
    intro granter asker before_
    by_cases same : asker = server
    · exact same ▸ withheld granter (same ▸ before_)
    · exact others.withheld granter asker same before_
  constructor
  · exact fun other live => invariant.liveMember other (liveBefore other live)
  · exact created ▸ invariant.createdMember
  · intro other left counted uncreated
    rw [created] at uncreated
    have apart : other ≠ server := fun same => uncreated (same ▸ mine)
    rw [others.ncheck other apart] at counted
    rw [others.pending other apart]
    exact invariant.counted other left counted uncreated
  · intro other listed
    rw [created] at listed
    rw [only other listed, pending]
    exact invariant.drained server mine
  · intro other listed
    exact others.recorded other (invariant.recorded other (created ▸ listed))
  · intro other after_
    rw [created]
    by_cases same : other = server
    · exact same ▸ mine
    · exact invariant.sentMetadata other (others.sentMetadata other same after_)
  · intro granter asker below live free
    have idle := invariant.grantedIdle granter asker below (liveBefore asker live) fun before_ =>
      free (held granter asker before_)
    by_contra opened
    exact liveBefore granter opened idle
  · intro creator asker listed live uncreated
    rw [created] at listed uncreated
    exact held creator asker
      (invariant.refusedByCreator creator asker listed (liveBefore asker live) uncreated)
  · exact created ▸ invariant.once
  · rcases reported with same | ⟨_, more⟩
    · exact same ▸ invariant.reportedOnce
    · simp [more, unreported]
  · intro other listed
    rcases reported with same | ⟨done, more⟩
    · rw [same, unreported] at listed
      cases listed
    · rw [more, unreported, List.nil_append, List.mem_singleton] at listed
      exact listed ▸ ⟨created ▸ mine, done⟩

end Invariant

/-- Every move keeps the invariant. -/
theorem Invariant.move (invariant : Invariant members before)
    (move : Move members before after) : Invariant members after := by
  cases move with
  | quiet ncheck recorded pending drained withheld sentMetadata created reported =>
      exact invariant.quiet ncheck recorded pending drained withheld sentMetadata created reported
  | start server others member fresh unrecorded above ncheck asked sentMetadata created reported =>
      exact invariant.start others member fresh unrecorded above ncheck asked sentMetadata created
        reported
  | alone server others member only unrecorded recorded pending created reported _ =>
      exact invariant.alone others member only unrecorded recorded pending created reported
  | grant granter asker allowed ncheck recorded pending withheld sentMetadata created reported =>
      exact invariant.grant allowed ncheck recorded pending withheld sentMetadata created reported
  | close server others ncheck drained sentMetadata created reported =>
      exact invariant.close others ncheck drained sentMetadata created reported
  | collect server others left ncheck counted pending withheld sentMetadata created reported =>
      exact invariant.collect others left ncheck counted pending withheld sentMetadata created
        reported
  | complete server others ncheck stays pending withheld recorded created reported =>
      exact invariant.complete others ncheck stays pending withheld recorded created reported
  | stored server others sent ncheck pending withheld created reported =>
      exact invariant.stored others sent ncheck pending withheld created reported

end RoundView

end SimpleDfs.Mserv
