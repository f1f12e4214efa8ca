import SimpleDfs.Dserv.Lock

/-!
Contract: the elements that the conflict test of two chained locks reads
(`ilock_is_conflict` of `core/s_core_dserv.c`).

Owns: the walk with its two cursors as indices and every index it reads, that it
ends, what it returns, and when all reads lie inside the lists.

Does not own: what the server ids of the lists mean.
-/

set_option autoImplicit false

namespace SimpleDfs.Dserv

/-- A read of `serv_id` in the list of the first or of the second lock. -/
inductive LockRead where
  | inA (index : Nat)
  | inB (index : Nat)
  deriving DecidableEq, Repr

/-- The index is below the `nserv` of its list. -/
def LockRead.Inside (pa pb : List LockElem) : LockRead → Prop
  | .inA index => index < pa.length
  | .inB index => index < pb.length

/-- `p[index].serv_id`; behind the list stands `junk`. -/
def servIdAt (junk : Int) (p : List LockElem) (index : Nat) : Int :=
  (p[index]?.map LockElem.servId).getD junk

/-- `p[index].finish` of an element of the list. -/
def finishAt (p : List LockElem) (index : Nat) : Bool :=
  (p[index]?.map LockElem.finish).getD false

section

variable (junk : Int) (pa pb : List LockElem)

/-- The first inner loop, with the elements that `cur_a` has to go. -/
def advanceA (curB : Nat) : Nat → Nat → List LockRead → Nat × List LockRead
  | 0, curA, reads => (curA, reads)
  | left + 1, curA, reads =>
      let reads := reads ++ [.inA curA, .inB curB]
      if servIdAt junk pa curA < servIdAt junk pb curB then advanceA curB left (curA + 1) reads
      else (curA, reads)

/-- The second inner loop; it looks at `cur_b` alone before it reads. -/
def advanceB (curA : Nat) : Nat → Nat → List LockRead → Nat × List LockRead
  | 0, curB, reads => (curB, reads)
  | left + 1, curB, reads =>
      let reads := reads ++ [.inA curA, .inB curB]
      if servIdAt junk pa curA > servIdAt junk pb curB then advanceB curA left (curB + 1) reads
      else (curB, reads)

/-- The outer loop; `none` if it has not ended after so many turns. -/
def conflictTurns : Nat → Nat → Nat → List LockRead → Option (Bool × List LockRead)
  | 0, _, _, _ => none
  | turns + 1, curA, curB, reads =>
      if curA < pa.length ∧ curB < pb.length then
        let reads := reads ++ [.inA curA, .inB curB]
        if servIdAt junk pa curA = servIdAt junk pb curB then
          some (!(finishAt pa curA || finishAt pb curB), reads)
        else
          let (curA, reads) := advanceA junk pa pb curB (pa.length - curA) curA reads
          let (curB, reads) := advanceB junk pa pb curA (pb.length - curB) curB reads
          conflictTurns turns curA curB reads
      else some (false, reads)

end

/-- `ilock_is_conflict` and what it reads, in at most `turns` turns. -/
def conflictWalk (junk : Int) (turns : Nat) (a b : CoreLock) : Option (Bool × List LockRead) :=
  conflictTurns junk a.elems b.elems turns a.nextPos b.nextPos []

/-! ## The inner loops -/

section

variable {junk : Int} {pa pb : List LockElem} {curA curB left : Nat}

theorem servIdAt_cons {p : List LockElem} {cur : Nat} {head : LockElem} {tail : List LockElem}
    (ahead : p.drop cur = head :: tail) : servIdAt junk p cur = head.servId := by
  have found : p[cur]? = some head := by
    rw [← List.head?_drop, ahead, List.head?_cons]
  rw [servIdAt, found, Option.map_some, Option.getD_some]

theorem servIdAt_eq_head (p : List LockElem) (cur : Nat) :
    servIdAt junk p cur = ((p.drop cur).head?.map LockElem.servId).getD junk := by
  rw [List.head?_drop]
  rfl

theorem drop_succ_of_cons {p : List LockElem} {cur : Nat} {head : LockElem} {tail : List LockElem}
    (ahead : p.drop cur = head :: tail) : p.drop (cur + 1) = tail := by
  rw [← List.drop_drop, ahead]
  rfl

theorem lt_length_of_cons {p : List LockElem} {cur : Nat} {head : LockElem} {tail : List LockElem}
    (ahead : p.drop cur = head :: tail) : cur < p.length := by
  have length := congrArg List.length ahead
  rw [List.length_drop, List.length_cons] at length
  omega

theorem finishAt_cons {p : List LockElem} {cur : Nat} {head : LockElem} {tail : List LockElem}
    (ahead : p.drop cur = head :: tail) : finishAt p cur = head.finish := by
  have found : p[cur]? = some head := by
    rw [← List.head?_drop, ahead, List.head?_cons]
  rw [finishAt, found, Option.map_some, Option.getD_some]

/-- The first inner loop skips the smaller servers and stays inside both lists. -/
theorem advanceA_spec (insideB : curB < pb.length) :
    ∀ {left curA : Nat} (reads : List LockRead), curA + left = pa.length →
      ∃ cur more, advanceA junk pa pb curB left curA reads = (cur, reads ++ more) ∧
        cur ≤ pa.length ∧
        pa.drop cur = (pa.drop curA).dropWhile
          (fun elem => decide (elem.servId < servIdAt junk pb curB)) ∧
        ∀ read ∈ more, read.Inside pa pb
  | 0, curA, reads, atEnd => by
      have none : pa.drop curA = [] := List.drop_eq_nil_of_le (by omega)
      exact ⟨curA, [], by simp [advanceA], by omega, by simp [none], by simp⟩
  | left + 1, curA, reads, inList => by
      obtain ⟨head, tail, ahead⟩ : ∃ head tail, pa.drop curA = head :: tail :=
        List.exists_cons_of_ne_nil fun none => by
          have short := List.drop_eq_nil_iff.mp none
          omega
      have here : ∀ read ∈ [LockRead.inA curA, .inB curB], read.Inside pa pb := by
        simp [LockRead.Inside, insideB, lt_length_of_cons ahead]
      rw [advanceA, servIdAt_cons ahead, ahead, List.dropWhile_cons]
      by_cases below : head.servId < servIdAt junk pb curB
      · obtain ⟨cur, more, result, bound, rest, inside⟩ := advanceA_spec insideB
          (reads ++ [.inA curA, .inB curB]) (by omega : curA + 1 + left = pa.length)
        rw [drop_succ_of_cons ahead] at rest
        refine ⟨cur, [.inA curA, .inB curB] ++ more, ?_, bound, ?_, ?_⟩
        · rw [if_pos below, result, List.append_assoc]
        · rw [rest, if_pos (by simpa using below)]
        · intro read member
          exact (List.mem_append.mp member).elim (here read) (inside read)
      · refine ⟨curA, [.inA curA, .inB curB], by rw [if_neg below], by omega, ?_, here⟩
        rw [ahead, if_neg (by simpa using below)]

/-- The second inner loop skips the smaller servers; it stays inside both lists
unless there is nothing left in the first. -/
theorem advanceB_spec :
    ∀ {left curB : Nat} (reads : List LockRead), curB + left = pb.length →
      ∃ cur more, advanceB junk pa pb curA left curB reads = (cur, reads ++ more) ∧
        cur ≤ pb.length ∧
        pb.drop cur = (pb.drop curB).dropWhile
          (fun elem => decide (servIdAt junk pa curA > elem.servId)) ∧
        ((∀ read ∈ more, read.Inside pa pb) ↔ left = 0 ∨ curA < pa.length)
  | 0, curB, reads, atEnd => by
      have none : pb.drop curB = [] := List.drop_eq_nil_of_le (by omega)
      exact ⟨curB, [], by simp [advanceB], by omega, by simp [none], by simp⟩
  | left + 1, curB, reads, inList => by
      obtain ⟨head, tail, ahead⟩ : ∃ head tail, pb.drop curB = head :: tail :=
        List.exists_cons_of_ne_nil fun none => by
          have short := List.drop_eq_nil_iff.mp none
          omega
      have here : (∀ read ∈ [LockRead.inA curA, .inB curB], read.Inside pa pb) ↔
          curA < pa.length := by
        simp [LockRead.Inside, lt_length_of_cons ahead]
      rw [advanceB, servIdAt_cons ahead, ahead, List.dropWhile_cons]
      by_cases above : servIdAt junk pa curA > head.servId
      · obtain ⟨cur, more, result, bound, rest, inside⟩ := advanceB_spec
          (reads ++ [.inA curA, .inB curB]) (by omega : curB + 1 + left = pb.length)
        rw [drop_succ_of_cons ahead] at rest
        refine ⟨cur, [.inA curA, .inB curB] ++ more, ?_, bound, ?_, ?_⟩
        · rw [if_pos above, result, List.append_assoc]
        · rw [rest, if_pos (by simpa using above)]
        · rw [List.forall_mem_append, here, inside]
          omega
      · refine ⟨curB, [.inA curA, .inB curB], by rw [if_neg above], by omega, ?_, ?_⟩
        · rw [ahead, if_neg (by simpa using above)]
        · rw [here]
          omega

/-! ## When the walk stays inside -/

/-- The first list is empty, or it holds a server of the second list or one
larger than all of these. -/
def NotOverrun (left right : List LockElem) : Prop :=
  left = [] ∨ (∃ a ∈ left, ∃ b ∈ right, a.servId = b.servId) ∨
    ∃ a ∈ left, ∀ b ∈ right, b.servId < a.servId

/-- Servers smaller than all of the second list do not matter, if others are
left. -/
theorem notOverrun_dropWhile_left {left : List LockElem} {head : LockElem} {tail : List LockElem}
    (increasing : Increasing (head :: tail))
    (some : (left.dropWhile fun elem => decide (elem.servId < head.servId)) ≠ []) :
    NotOverrun (left.dropWhile fun elem => decide (elem.servId < head.servId)) (head :: tail) ↔
      NotOverrun left (head :: tail) := by
  have least := head_le_of_increasing increasing
  have kept : ∀ a ∈ left, head.servId ≤ a.servId →
      a ∈ left.dropWhile fun elem => decide (elem.servId < head.servId) := by
    intro a member large
    rw [← @List.takeWhile_append_dropWhile _ (fun elem => decide (elem.servId < head.servId)) left]
      at member
    rcases List.mem_append.mp member with skipped | keeps
    · have small := List.mem_takeWhile_imp skipped
      rw [decide_eq_true_eq] at small
      omega
    · exact keeps
  constructor
  · rintro (empty | ⟨a, inA, common⟩ | ⟨a, inA, largest⟩)
    · exact absurd empty some
    · exact Or.inr (Or.inl ⟨a, (List.dropWhile_sublist _).subset inA, common⟩)
    · exact Or.inr (Or.inr ⟨a, (List.dropWhile_sublist _).subset inA, largest⟩)
  · rintro (empty | ⟨a, inA, b, inB, same⟩ | ⟨a, inA, largest⟩)
    · rw [empty] at some
      exact absurd rfl some
    · exact Or.inr (Or.inl ⟨a, kept a inA (same ▸ least b inB), b, inB, same⟩)
    · exact Or.inr (Or.inr ⟨a, kept a inA (le_of_lt (largest head List.mem_cons_self)), largest⟩)

/-- Nor do servers of the second list smaller than all of the first. -/
theorem notOverrun_dropWhile_right {right : List LockElem} {head : LockElem}
    {tail : List LockElem} (increasing : Increasing (head :: tail)) :
    NotOverrun (head :: tail) (right.dropWhile fun elem => decide (head.servId > elem.servId)) ↔
      NotOverrun (head :: tail) right := by
  have least := head_le_of_increasing increasing
  have skipped : ∀ b ∈ right, b ∈ (right.dropWhile fun elem => decide (head.servId > elem.servId)) ∨
      b.servId < head.servId := by
    intro b member
    rw [← @List.takeWhile_append_dropWhile _ (fun elem => decide (head.servId > elem.servId)) right]
      at member
    rcases List.mem_append.mp member with skip | keeps
    · have small := List.mem_takeWhile_imp skip
      rw [decide_eq_true_eq] at small
      exact Or.inr small
    · exact Or.inl keeps
  constructor
  · rintro (empty | ⟨a, inA, b, inB, same⟩ | ⟨a, inA, largest⟩)
    · cases empty
    · exact Or.inr (Or.inl ⟨a, inA, b, (List.dropWhile_sublist _).subset inB, same⟩)
    · refine Or.inr (Or.inr ⟨a, inA, fun b inB => ?_⟩)
      rcases skipped b inB with keeps | small
      · exact largest b keeps
      · exact small.trans_le (least a inA)
  · rintro (empty | ⟨a, inA, b, inB, same⟩ | ⟨a, inA, largest⟩)
    · cases empty
    · rcases skipped b inB with keeps | small
      · exact Or.inr (Or.inl ⟨a, inA, b, keeps, same⟩)
      · have large := least a inA
        omega
    · exact Or.inr (Or.inr ⟨a, inA, fun b inB =>
        largest b ((List.dropWhile_sublist _).subset inB)⟩)

/-- Everything left of the first list is smaller than what is left of the
second: the first inner loop runs out of elements. -/
theorem not_notOverrun_of_skipped {left : List LockElem} {head : LockElem} {tail : List LockElem}
    (increasing : Increasing (head :: tail)) (some : left ≠ [])
    (none : (left.dropWhile fun elem => decide (elem.servId < head.servId)) = []) :
    ¬ NotOverrun left (head :: tail) := by
  have least := head_le_of_increasing increasing
  have small : ∀ a ∈ left, a.servId < head.servId := by
    intro a member
    simpa using List.dropWhile_eq_nil_iff.mp none a member
  rintro (empty | ⟨a, inA, b, inB, same⟩ | ⟨a, inA, largest⟩)
  · exact some empty
  · have below := small a inA
    have above := least b inB
    omega
  · have below := small a inA
    have above := largest head List.mem_cons_self
    omega

/-- A turn that skips smaller servers in both lists, the first one first. -/
theorem notOverrun_turn {headA headB : LockElem} {tailA tailB leftA leftB : List LockElem}
    (increasingA : Increasing (headA :: tailA)) (increasingB : Increasing (headB :: tailB))
    (restA : leftA = (headA :: tailA).dropWhile fun elem => decide (elem.servId < headB.servId))
    (restB : leftB = (headB :: tailB).dropWhile fun elem =>
      decide ((leftA.head?.map LockElem.servId).getD junk > elem.servId)) :
    leftA ≠ [] ∧ NotOverrun leftA leftB ↔ NotOverrun (headA :: tailA) (headB :: tailB) := by
  cases stays : leftA with
  | nil =>
      rw [stays] at restA
      refine iff_of_false (fun both => both.1 rfl) ?_
      exact not_notOverrun_of_skipped increasingB (List.cons_ne_nil headA tailA) restA.symm
  | cons head tail =>
      have increasing : Increasing (head :: tail) := by
        rw [← stays, restA]
        exact increasing_dropWhile increasingA _
      have some : ((headA :: tailA).dropWhile
          fun elem => decide (elem.servId < headB.servId)) ≠ [] := by
        rw [← restA, stays]
        exact List.cons_ne_nil head tail
      rw [stays, List.head?_cons, Option.map_some, Option.getD_some] at restB
      rw [restB, notOverrun_dropWhile_right increasing, ← stays, restA,
        notOverrun_dropWhile_left increasingB some]
      exact and_iff_right some

/-- The walk from any two cursors. -/
theorem conflictTurns_spec (increasingA : Increasing pa) (increasingB : Increasing pb) :
    ∀ {turns curA curB : Nat} (reads : List LockRead),
      (pa.drop curA).length + (pb.drop curB).length < turns →
      ∃ conflict more, conflictTurns junk pa pb turns curA curB reads =
          some (conflict, reads ++ more) ∧
        (conflict = true ↔ MeetUnfinished (pa.drop curA) (pb.drop curB)) ∧
        ((∀ read ∈ more, read.Inside pa pb) ↔ NotOverrun (pa.drop curA) (pb.drop curB))
  | 0, _, _, _, enough => absurd enough (Nat.not_lt_zero _)
  | turns + 1, curA, curB, reads, enough => by
      rw [conflictTurns]
      cases leftA : pa.drop curA with
      | nil =>
          have atEnd := List.drop_eq_nil_iff.mp leftA
          rw [if_neg (by omega)]
          exact ⟨false, [], by simp, by simp [not_meetUnfinished_nil_left], by simp [NotOverrun]⟩
      | cons headA tailA =>
          cases leftB : pb.drop curB with
          | nil =>
              have atEnd := List.drop_eq_nil_iff.mp leftB
              rw [if_neg (by omega)]
              exact ⟨false, [], by simp, by simp [not_meetUnfinished_nil_right],
                by simp [NotOverrun]⟩
          | cons headB tailB =>
              have insideA := lt_length_of_cons leftA
              have insideB := lt_length_of_cons leftB
              have headsA : Increasing (headA :: tailA) :=
                leftA ▸ increasingA.sublist (List.drop_sublist curA pa)
              have headsB : Increasing (headB :: tailB) :=
                leftB ▸ increasingB.sublist (List.drop_sublist curB pb)
              have here : ∀ read ∈ [LockRead.inA curA, .inB curB], read.Inside pa pb := by
                simp [LockRead.Inside, insideA, insideB]
              rw [if_pos ⟨insideA, insideB⟩, servIdAt_cons leftA, servIdAt_cons leftB]
              by_cases same : headA.servId = headB.servId
              · refine ⟨!(finishAt pa curA || finishAt pb curB), [.inA curA, .inB curB],
                  by rw [if_pos same], ?_, ?_⟩
                · rw [meetUnfinished_of_same_head headsA headsB same, finishAt_cons leftA,
                    finishAt_cons leftB]
                  simp
                · exact iff_of_true here (Or.inr (Or.inl
                    ⟨headA, List.mem_cons_self, headB, List.mem_cons_self, same⟩))
              · rw [if_neg same]
                obtain ⟨nextA, moreA, walkA, _, restA, allA⟩ := @advanceA_spec junk _ _ _ insideB _ _
                  (reads ++ [.inA curA, .inB curB]) (by omega : curA + (pa.length - curA) = pa.length)
                obtain ⟨nextB, moreB, walkB, _, restB, allB⟩ := @advanceB_spec junk pa pb nextA
                  _ _ (reads ++ [.inA curA, .inB curB] ++ moreA)
                  (by omega : curB + (pb.length - curB) = pb.length)
                rw [servIdAt_cons leftB, leftA] at restA
                rw [servIdAt_eq_head, restA, leftB] at restB
                have shorter := @cursors_advance headA headB tailA tailB junk same
                dsimp only at shorter
                rw [← restA] at shorter restB
                rw [← restB] at shorter
                rw [leftA, leftB, List.length_cons, List.length_cons] at enough
                have fewer : (pa.drop nextA).length + (pb.drop nextB).length < turns := by omega
                obtain ⟨conflict, more, walk, meets, inside⟩ := conflictTurns_spec increasingA
                  increasingB (reads ++ [.inA curA, .inB curB] ++ moreA ++ moreB) fewer
                refine ⟨conflict, [.inA curA, .inB curB] ++ moreA ++ moreB ++ more, ?_, ?_, ?_⟩
                · rw [walkA]
                  dsimp only
                  rw [walkB]
                  dsimp only
                  rw [walk, ← List.append_assoc, ← List.append_assoc, ← List.append_assoc]
                · rw [meets, restB, meetUnfinished_dropWhile_right, restA,
                    meetUnfinished_dropWhile_left (head_le_of_increasing headsB)]
                  rw [restA]
                  exact increasing_dropWhile headsA _
                · rw [List.forall_mem_append, List.forall_mem_append, List.forall_mem_append, inside,
                    allB, ← notOverrun_turn headsA headsB restA restB, Ne, List.drop_eq_nil_iff]
                  constructor
                  · rintro ⟨⟨_, ended | left⟩, rest⟩
                    · omega
                    · exact ⟨by omega, rest⟩
                  · rintro ⟨some, rest⟩
                    exact ⟨⟨⟨here, allA⟩, Or.inr (by omega)⟩, rest⟩

end

/-! ## The conflict test -/

/-- The test ends, reads elements of the lists only, and tells whether the two
locks meet at a server that neither has finished. -/
def TestsConflict (junk : Int) (a b : CoreLock) : Prop :=
  ∃ turns conflict reads, conflictWalk junk turns a b = some (conflict, reads) ∧
    (∀ read ∈ reads, read.Inside a.elems b.elems) ∧
    (conflict = true ↔ MeetUnfinished a.ahead b.ahead)

/-- The walk ends with the right result in any case. -/
theorem conflictWalk_spec (junk : Int) {a b : CoreLock} (increasingA : Increasing a.elems)
    (increasingB : Increasing b.elems) {turns : Nat}
    (enough : a.ahead.length + b.ahead.length < turns) :
    ∃ conflict reads, conflictWalk junk turns a b = some (conflict, reads) ∧
      (conflict = true ↔ MeetUnfinished a.ahead b.ahead) ∧
      ((∀ read ∈ reads, read.Inside a.elems b.elems) ↔ NotOverrun a.ahead b.ahead) :=
  conflictTurns_spec increasingA increasingB [] enough

/-- More turns change nothing. -/
theorem conflictTurns_mono (junk : Int) (pa pb : List LockElem) {turns more curA curB : Nat}
    {reads : List LockRead} {result : Bool × List LockRead} (enough : turns ≤ more)
    (ended : conflictTurns junk pa pb turns curA curB reads = some result) :
    conflictTurns junk pa pb more curA curB reads = some result := by
  induction turns generalizing more curA curB reads with
  | zero => cases ended
  | succ turns inductionHypothesis =>
      obtain ⟨rest, rfl⟩ := Nat.exists_eq_add_of_le' enough
      rw [conflictTurns] at ended
      rw [← Nat.add_assoc, conflictTurns]
      dsimp only at ended ⊢
      split_ifs at ended ⊢ with inList same
      · exact ended
      · exact inductionHypothesis (Nat.le_add_left turns rest) ended
      · exact ended

theorem conflictWalk_unique {junk : Int} {a b : CoreLock} {turns others : Nat}
    {result other : Bool × List LockRead} (ended : conflictWalk junk turns a b = some result)
    (again : conflictWalk junk others a b = some other) : result = other := by
  have early := conflictTurns_mono junk a.elems b.elems (Nat.le_max_left turns others) ended
  have late := conflictTurns_mono junk a.elems b.elems (Nat.le_max_right turns others) again
  exact Option.some.inj (early.symm.trans late)

/-- The walk over indices decides what the walk over the rest of the lists does. -/
theorem conflictWalk_eq (junk : Int) {a b : CoreLock} (increasingA : Increasing a.elems)
    (increasingB : Increasing b.elems) {turns : Nat} {conflict : Bool} {reads : List LockRead}
    (ended : conflictWalk junk turns a b = some (conflict, reads)) :
    conflict = ilockIsConflict junk a b := by
  obtain ⟨result, all, walk, meets, _⟩ := conflictWalk_spec junk increasingA increasingB
    (Nat.lt_succ_self (a.ahead.length + b.ahead.length))
  have same := conflictWalk_unique ended walk
  rw [Bool.eq_iff_iff, ilockIsConflict_iff junk increasingA increasingB, ← meets,
    (Prod.mk.inj same).1]

/-- **The conflict test reads its lists only** unless what is left of the first
is used up by servers smaller than one of the second. -/
theorem testsConflict_iff (junk : Int) {a b : CoreLock} (increasingA : Increasing a.elems)
    (increasingB : Increasing b.elems) :
    TestsConflict junk a b ↔ NotOverrun a.ahead b.ahead := by
  obtain ⟨result, all, walk, meets, inside⟩ := conflictWalk_spec junk increasingA increasingB
    (Nat.lt_succ_self (a.ahead.length + b.ahead.length))
  constructor
  · rintro ⟨turns, conflict, reads, ended, insideReads, _⟩
    have same := conflictWalk_unique ended walk
    rw [(Prod.mk.inj same).2] at insideReads
    exact inside.mp insideReads
  · intro safe
    exact ⟨_, result, all, walk, inside.mpr safe, meets⟩

instance (elems : List LockElem) : Decidable (Increasing elems) :=
  inferInstanceAs (Decidable (List.Pairwise _ elems))

/-- A lock over the given servers that has visited `nextPos` of them. -/
def lockOver (nextPos : Nat) (servs : List Int) : CoreLock where
  ref := 0
  pkt := { curr := 0, clientId := 0, id := ⟨0, 0⟩, servs := [] }
  id := ⟨0, 0⟩
  clientId := 0
  nextPos := nextPos
  nextServ := 0
  elems := servs.map fun servId => { servId := servId, id := ⟨0, 0⟩, finish := false }

/-- Two locks that meet at server 3. -/
theorem testsConflict_iff_meeting : TestsConflict 0 (lockOver 0 [1, 3]) (lockOver 1 [1, 2, 3]) :=
  (testsConflict_iff 0 (by decide) (by decide)).mpr
    (Or.inr (Or.inl (by decide)))

/-- A lock over server 1 and one over server 2: the second inner loop compares
the element behind the only one of the first lock. -/
theorem not_always_testsConflict :
    ¬ ∀ (junk : Int) (a b : CoreLock), Increasing a.elems → Increasing b.elems →
        a.nextPos ≤ a.elems.length → b.nextPos ≤ b.elems.length → TestsConflict junk a b := by
  intro always
  obtain ⟨turns, conflict, reads, ended, inside, _⟩ := always 0 (lockOver 0 [1]) (lockOver 0 [2])
    (by decide) (by decide) (by decide) (by decide)
  have walk : conflictWalk 0 2 (lockOver 0 [1]) (lockOver 0 [2]) =
      some (false, [.inA 0, .inB 0, .inA 0, .inB 0, .inA 1, .inB 0]) := by
    decide
  have same := conflictWalk_unique ended walk
  rw [(Prod.mk.inj same).2] at inside
  exact absurd (inside (.inA 1) (by simp)) (by simp [LockRead.Inside, lockOver])

end SimpleDfs.Dserv
