import SimpleDfs.Dserv.Preservation
import Mathlib.Order.Bounds.Basic
import Mathlib.Data.Int.LeastGreatest
import Mathlib.Data.Prod.Lex

/-!
Contract: the order in which data servers take chained locks.

Owns: two operations keep their order from one common server to the next, so
they are taken in one order wherever they meet; operations that all name one
server are taken in an order without cycles; and a run of three operations
that pairwise meet on different servers and form a cycle.

Does not own: whether a waiting lock is ever taken.
-/

set_option autoImplicit false

namespace SimpleDfs.Dserv

open SimpleDfs.Common
open SimpleDfs.Library

/-- The smallest server after `servId` that both operations name. -/
def NextCommon (opA opB : Operation) (servId common : Int) : Prop :=
  IsLeast {later | later ∈ opA.servIds ∧ later ∈ opB.servIds ∧ servId < later} common

/-- Whoever was taken first has already passed the next common server, and is
first there too. -/
def KeepsOrder (world : LockWorld) : Prop :=
  ∀ servId, ∀ opA ∈ world.submitted, ∀ opB ∈ world.submitted,
    TakenBefore world servId opA.id opB.id → ∀ common, NextCommon opA opB servId common →
      opA.id ∈ (world.dservs common).taken ∧
        (opB.id ∈ (world.dservs common).taken → TakenBefore world common opA.id opB.id)

/-! ## What a lock without conflict proves -/

theorem SentKnown.increasing {world : LockWorld} {servId : Int} {lock : CoreLock}
    (known : SentKnown world servId lock) : Increasing lock.elems := by
  obtain ⟨op, _, _, _, _, _, names, _⟩ := known
  have sorted := op.increasing
  rw [← Operation.servIds, ← names, List.pairwise_map] at sorted
  exact sorted

theorem WaitingKnown.increasing {world : LockWorld} {servId : Int} {lock : CoreLock}
    (known : WaitingKnown world servId lock) : Increasing lock.elems := by
  obtain ⟨op, _, stage, ref, _, rfl⟩ := known
  have sorted := op.increasing
  rw [← Operation.servIds, ← createLock_names op stage ref, List.pairwise_map] at sorted
  exact sorted

/-- A lock conflicts exactly if it meets an unfinished sent lock. -/
theorem ilockConflictAll_iff {world : LockWorld} {servId : Int} {dserv : Dserver}
    (known : DservKnown world servId dserv) (junk : Int) {lock : CoreLock}
    (waiting : WaitingKnown world servId lock) :
    ilockConflictAll (connectedCore servId junk) dserv lock = true ↔
      ∃ sent ∈ dserv.lockSent, MeetUnfinished sent.ahead lock.ahead := by
  rw [ilockConflictAll, List.any_eq_true]
  constructor
  · intro ⟨sent, member, conflict⟩
    exact ⟨sent, member, (ilockIsConflict_iff junk (known.sent sent member).increasing
      waiting.increasing).mp conflict⟩
  · intro ⟨sent, member, meet⟩
    exact ⟨sent, member, (ilockIsConflict_iff junk (known.sent sent member).increasing
      waiting.increasing).mpr meet⟩

/-- The servers ahead of a lock at server number `stage`. -/
theorem exists_ahead {op : Operation} {lock : CoreLock} {stage : Nat} {servId : Int}
    (names : lock.elems.map LockElem.servId = op.servIds) (pos : lock.nextPos = stage + 1)
    (here : op.At stage servId) (other : Int) :
    (∃ elem ∈ lock.ahead, elem.servId = other) ↔ other ∈ op.servIds ∧ servId < other := by
  rw [← Operation.mem_after here other, ← names, ← pos, ← List.map_drop, List.mem_map]
  exact Iff.rfl

/-- If `op` meets no conflict at `servId`, every operation taken there has
passed their next common server. -/
theorem LockInvariant.passed_of_free {world : LockWorld} (invariant : LockInvariant world)
    {servId junk common : Int} {op earlier : Operation} {stage ref : Nat}
    (submitted : op ∈ world.submitted) (here : op.At stage servId)
    (free : ilockConflictAll (connectedCore servId junk) (world.dservs servId)
      (createLock ref (op.packet stage)) = false)
    (earlierSubmitted : earlier ∈ world.submitted)
    (taken : earlier.id ∈ (world.dservs servId).taken)
    (next : NextCommon earlier op servId common) :
    earlier.id ∈ (world.dservs common).taken := by
  have known := invariant.dservs servId
  obtain ⟨⟨commonEarlier, commonOp, behind⟩, least⟩ := next
  obtain ⟨owner, ownerSubmitted, sameId, keeps⟩ := known.taken earlier.id taken
  obtain rfl := invariant.op_unique ownerSubmitted earlierSubmitted sameId
  obtain ⟨sent, inSent, sentId⟩ := keeps common commonEarlier behind
  obtain ⟨sender, senderSubmitted, sentStage, sentHere, sentOp, pos, names, marked⟩ :=
    known.sent sent inSent
  obtain rfl := invariant.op_unique senderSubmitted earlierSubmitted (sentOp.symm.trans sentId)
  have waiting : WaitingKnown world servId (createLock ref (op.packet stage)) :=
    ⟨op, submitted, stage, ref, here, rfl⟩
  have aheadSent := exists_ahead names pos sentHere
  have aheadOp := exists_ahead (createLock_names op stage ref) (createLock_nextPos op stage ref) here
  obtain ⟨sentElem, inAhead, sentName⟩ := (aheadSent common).mpr ⟨commonEarlier, behind⟩
  obtain ⟨opElem, inAheadOp, opName⟩ := (aheadOp common).mpr ⟨commonOp, behind⟩
  have finished : sentElem.finish = true := by
    by_contra unfinished
    have meet : MeetUnfinished sent.ahead (createLock ref (op.packet stage)).ahead := by
      refine ⟨sentElem, inAhead, opElem, inAheadOp, sentName.trans opName.symm,
        by simpa using unfinished,
        createLock_unmarked op stage ref opElem (List.mem_of_mem_drop inAheadOp), ?_⟩
      intro other inSentAhead partner inOpAhead same
      have namedSent := (aheadSent other.servId).mp ⟨other, inSentAhead, rfl⟩
      have namedOp := (aheadOp other.servId).mp ⟨partner, inOpAhead, same.symm⟩
      rw [sentName]
      exact least ⟨namedSent.1, namedOp.1, namedSent.2⟩
    have conflict := (ilockConflictAll_iff known junk waiting).mpr ⟨sent, inSent, meet⟩
    rw [free] at conflict
    exact Bool.false_ne_true conflict
  have reached := (marked sentElem (List.mem_of_mem_drop inAhead) finished).2
  rw [sentName] at reached
  exact reached

/-! ## Preservation -/

/-- Moves that take no operation and submit none keep every order. -/
theorem KeepsOrder.congr {before after : LockWorld} (keeps : KeepsOrder before)
    (submitted : after.submitted = before.submitted)
    (taken : ∀ servId, (after.dservs servId).taken = (before.dservs servId).taken) :
    KeepsOrder after := by
  intro servId opA memberA opB memberB earlier common next
  rw [submitted] at memberA memberB
  simp only [TakenBefore, taken] at earlier ⊢
  exact keeps servId opA memberA opB memberB earlier common next

theorem keepsOrder_take {world : LockWorld} (invariant : LockInvariant world)
    (keeps : KeepsOrder world) {servId junk : Int} {lock : CoreLock} {front back : List CoreLock}
    (queued : (world.dservs servId).lockWaiting = front ++ lock :: back)
    (free : ilockConflictAll (connectedCore servId junk) (world.dservs servId) lock = false) :
    KeepsOrder
      (world.update servId
        (ilockTakeDone (connectedCore servId junk)
          { world.dservs servId with lockWaiting := front ++ back } lock).1
        (ilockTakeDone (connectedCore servId junk)
          { world.dservs servId with lockWaiting := front ++ back } lock).2) := by
  have inWaiting : lock ∈ (world.dservs servId).lockWaiting := by
    rw [queued]
    exact List.mem_append_right _ List.mem_cons_self
  obtain ⟨op, submitted, stage, ref, here, rfl, progress⟩ := invariant.waiting_stage inWaiting
  generalize afterEq : world.update servId
      (ilockTakeDone (connectedCore servId junk)
        { world.dservs servId with lockWaiting := front ++ back }
        (createLock ref (op.packet stage))).1
      (ilockTakeDone (connectedCore servId junk)
        { world.dservs servId with lockWaiting := front ++ back }
        (createLock ref (op.packet stage))).2 = after
  have takenHere : (after.dservs servId).taken = (world.dservs servId).taken ++ [op.id] := by
    rw [← afterEq, LockWorld.update_dservs_same, ilockTakeDone_taken, createLock_id]
  have takenElsewhere : ∀ other, other ≠ servId →
      (after.dservs other).taken = (world.dservs other).taken := by
    intro other different
    rw [← afterEq, LockWorld.update_dservs_ne _ different]
  have sameSubmitted : after.submitted = world.submitted := by rw [← afterEq]; rfl
  have mono : ∀ other id, id ∈ (world.dservs other).taken → id ∈ (after.dservs other).taken := by
    intro other id member
    by_cases same : other = servId
    · rw [same, takenHere]
      exact List.mem_append_left _ (same ▸ member)
    · rw [takenElsewhere other same]
      exact member
  have monoBefore : ∀ other first second, TakenBefore world other first second →
      TakenBefore after other first second := by
    intro other first second earlier
    by_cases same : other = servId
    · subst same
      rw [TakenBefore, takenHere]
      exact earlier.append [op.id]
    · rw [TakenBefore, takenElsewhere other same]
      exact earlier
  intro target opA memberA opB memberB earlier common next
  rw [sameSubmitted] at memberA memberB
  -- either the pair is an old one, or `opB` has just been taken here
  have origin : TakenBefore world target opA.id opB.id ∨
      target = servId ∧ opA.id ∈ (world.dservs servId).taken ∧ opB.id = op.id := by
    by_cases same : target = servId
    · subst same
      rw [TakenBefore, takenHere, earlier_concat] at earlier
      exact earlier.imp_right fun facts => ⟨rfl, facts⟩
    · rw [TakenBefore, takenElsewhere target same] at earlier
      exact Or.inl earlier
  rcases origin with old | ⟨rfl, takenA, sameB⟩
  · obtain ⟨passed, ordered⟩ := keeps target opA memberA opB memberB old common next
    refine ⟨mono common opA.id passed, fun takenB => ?_⟩
    by_cases same : common = servId
    · subst same
      rw [takenHere] at takenB
      rw [TakenBefore, takenHere, earlier_concat]
      rcases List.mem_append.mp takenB with before | now
      · exact Or.inl (ordered before)
      · exact Or.inr ⟨passed, List.mem_singleton.mp now⟩
    · rw [takenElsewhere common same] at takenB
      exact monoBefore common _ _ (ordered takenB)
  · obtain rfl := invariant.op_unique memberB submitted sameB
    have passed := invariant.passed_of_free submitted here free memberA takenA next
    refine ⟨mono common opA.id passed, fun takenB => ?_⟩
    -- the operation has not been taken beyond the server that takes it now
    have behind : target < common := next.1.2.2
    rw [takenElsewhere common (ne_of_gt behind), progress.taken,
      Operation.mem_before here] at takenB
    exact absurd takenB.2 (lt_asymm behind)

theorem mark_update_taken {world : LockWorld} {rest : Sends} {servId sender : Int} {id : SId}
    (other : Int) :
    ((({ world with net := rest } : LockWorld).update servId
      ((world.dservs servId).mark sender id) []).dservs other).taken =
        (world.dservs other).taken := by
  by_cases same : other = servId
  · rw [same, LockWorld.update_dservs_same, mark_taken]
  · rw [LockWorld.update_dservs_ne _ same]

theorem park_update_taken {world : LockWorld} {rest : Sends} {servId : Int} {pkt : LockPacket}
    (other : Int) :
    ((({ world with net := rest } : LockWorld).update servId
      ((world.dservs servId).park pkt) []).dservs other).taken =
        (world.dservs other).taken := by
  by_cases same : other = servId
  · rw [same, LockWorld.update_dservs_same, Dserver.park]
  · rw [LockWorld.update_dservs_ne _ same]

theorem keepsOrder_move {before after : LockWorld} (invariant : LockInvariant before)
    (keeps : KeepsOrder before) (move : LockMove before after) : KeepsOrder after := by
  cases move with
  | submit op fresh =>
      intro servId opA memberA opB memberB earlier common next
      have known : ∀ other ∈ op :: before.submitted,
          other.id ∈ (before.dservs servId).taken → other ∈ before.submitted := by
        intro other member taken
        rcases List.mem_cons.mp member with rfl | old
        · exact absurd taken (invariant.unused fresh servId).1
        · exact old
      exact keeps servId opA (known opA memberA earlier.mem_first) opB
        (known opB memberB earlier.mem_second) earlier common next
  | receive packet rest pkt servId inFlight dst asks here =>
      exact keeps.congr rfl fun other => park_update_taken other
  | take servId junk lock front back queued free =>
      exact keepsOrder_take invariant keeps queued free
  | unlock packet rest sender servId id inFlight src dst body =>
      exact keeps.congr rfl fun other => mark_update_taken other
  | ended packet rest id inFlight body => exact keeps.congr rfl fun _ => rfl

theorem keepsOrder_reachable {world : LockWorld} (reached : lockSystem.Reachable world) :
    LockInvariant world ∧ KeepsOrder world :=
  reachable_of_moves KeepsOrder
    (fun _ _ member => absurd member List.not_mem_nil)
    (fun _ _ invariant keeps move => keepsOrder_move invariant keeps move) reached

/-! ## From one common server to any other -/

/-- Whatever server took the operation, every earlier one it names did. -/
theorem LockInvariant.taken_below {world : LockWorld} (invariant : LockInvariant world)
    {op : Operation} (submitted : op ∈ world.submitted) {servId earlier : Int}
    (taken : op.id ∈ (world.dservs servId).taken) (named : earlier ∈ op.servIds)
    (below : earlier ≤ servId) : op.id ∈ (world.dservs earlier).taken := by
  obtain ⟨stage, progress⟩ := invariant.progress op submitted
  rw [progress.taken] at taken ⊢
  cases next : op.servIds[stage]? with
  | none =>
      rw [List.take_of_length_le (List.getElem?_eq_none_iff.mp next)]
      exact named
  | some target =>
      rw [Operation.mem_before next] at taken ⊢
      exact ⟨named, lt_of_le_of_lt below taken.2⟩

theorem LockInvariant.named_of_taken {world : LockWorld} (invariant : LockInvariant world)
    {op : Operation} (submitted : op ∈ world.submitted) {servId : Int}
    (taken : op.id ∈ (world.dservs servId).taken) : servId ∈ op.servIds := by
  obtain ⟨stage, progress⟩ := invariant.progress op submitted
  exact List.mem_of_mem_take ((progress.taken servId).mp taken)

theorem exists_nextCommon {opA opB : Operation} {servId common : Int}
    (namedA : common ∈ opA.servIds) (namedB : common ∈ opB.servIds) (behind : servId < common) :
    ∃ next, NextCommon opA opB servId next ∧ next ≤ common := by
  obtain ⟨next, holds, least⟩ := Int.exists_least_of_bdd
    (P := fun later => later ∈ opA.servIds ∧ later ∈ opB.servIds ∧ servId < later)
    ⟨servId, fun _ facts => le_of_lt facts.2.2⟩ ⟨common, namedA, namedB, behind⟩
  exact ⟨next, ⟨holds, fun later facts => least later facts⟩,
    least common ⟨namedA, namedB, behind⟩⟩

/-- Two operations ordered at `servId`, seen from a later common server: the
second follows the first there, or the first is ahead of it on the way. -/
theorem order_ahead {world : LockWorld} (keeps : KeepsOrder world) {opA opB : Operation}
    (memberA : opA ∈ world.submitted) (memberB : opB ∈ world.submitted) {common : Int}
    (namedA : common ∈ opA.servIds) (namedB : common ∈ opB.servIds) :
    ∀ (distance : Nat) {servId : Int}, (common - servId).toNat ≤ distance → servId ≤ common →
      TakenBefore world servId opA.id opB.id →
      TakenBefore world common opA.id opB.id ∨
        ∃ between ≤ common, between ∈ opA.servIds ∧ between ∈ opB.servIds ∧
          opA.id ∈ (world.dservs between).taken ∧ opB.id ∉ (world.dservs between).taken := by
  intro distance
  induction distance with
  | zero =>
      intro servId near below earlier
      have same : servId = common := by omega
      exact Or.inl (same ▸ earlier)
  | succ distance inductionHypothesis =>
      intro servId near below earlier
      by_cases same : servId = common
      · exact Or.inl (same ▸ earlier)
      · obtain ⟨next, isNext, within⟩ := exists_nextCommon namedA namedB (show servId < common by omega)
        obtain ⟨nextA, nextB, behind⟩ := isNext.1
        obtain ⟨passed, ordered⟩ := keeps servId opA memberA opB memberB earlier next isNext
        by_cases takenB : opB.id ∈ (world.dservs next).taken
        · exact inductionHypothesis (by omega) within (ordered takenB)
        · exact Or.inr ⟨next, within, nextA, nextB, passed, takenB⟩

/-- Two operations taken at two servers are taken there in one order. -/
theorem same_order {world : LockWorld} (invariant : LockInvariant world)
    (keeps : KeepsOrder world) {opA opB : Operation} (memberA : opA ∈ world.submitted)
    (memberB : opB ∈ world.submitted) {servId other : Int}
    (earlier : TakenBefore world servId opA.id opB.id)
    (takenA : opA.id ∈ (world.dservs other).taken) (takenB : opB.id ∈ (world.dservs other).taken) :
    TakenBefore world other opA.id opB.id := by
  have forward : ∀ {first second : Operation} {low high : Int}, first ∈ world.submitted →
      second ∈ world.submitted → low ≤ high → TakenBefore world low first.id second.id →
      first.id ∈ (world.dservs high).taken → second.id ∈ (world.dservs high).taken →
      TakenBefore world high first.id second.id := by
    intro first second low high memberFirst memberSecond below before inFirst inSecond
    have namedFirst := invariant.named_of_taken memberFirst inFirst
    have namedSecond := invariant.named_of_taken memberSecond inSecond
    rcases order_ahead keeps memberFirst memberSecond namedFirst namedSecond _ le_rfl
      below before with ordered | ⟨between, within, _, named, _, missing⟩
    · exact ordered
    · exact absurd (invariant.taken_below memberSecond inSecond named within) missing
  rcases le_total servId other with below | above
  · exact forward memberA memberB below earlier takenA takenB
  · have once := (invariant.dservs servId).takenOnce
    rcases Earlier.total (earlier.ne once) takenA takenB with ordered | reversed
    · exact ordered
    · -- the reverse order would carry over to the later server
      have back := forward memberB memberA above reversed earlier.mem_second earlier.mem_first
      exact absurd back (earlier.asymm once)

end SimpleDfs.Dserv
