import Mathlib.Data.List.TakeDrop
import Mathlib.Order.Nat
import SimpleDfs.Common.S1r1wQueue

/-!
Contract: the queue of one reader and one writer loses nothing.

Owns: which elements are linked and which are taken at each pair of program
points, what each thread knows of the other's progress, and what pop returns
while nobody pushes.

The writer sets `tail` once, in its first push, before the reader has taken
anything; from then on `tail` belongs to the reader.  A reader that runs dry
keeps the element it took last and finds the next one through its `prev`.
-/

set_option autoImplicit false

namespace SimpleDfs.Common

open SimpleDfs.Library

variable {Item : Type}

namespace S1r1wQueue

/-- The non-null results of pop. -/
def delivered (q : S1r1wQueue Item) : List Item :=
  q.results.filterMap id

/-- What was pushed and not delivered. -/
def remaining (q : S1r1wQueue Item) : List Item :=
  q.pushed.drop q.delivered.length

end S1r1wQueue

/-- A pointer to the last of the first `count` elements. -/
def lastOf : Nat → Option Nat
  | 0 => none
  | count + 1 => some count

@[simp] theorem lastOf_zero : lastOf 0 = none := rfl

@[simp] theorem lastOf_succ (count : Nat) : lastOf (count + 1) = some count := rfl

/-- The writer holds an element that is not linked yet; `used` elements are given
out for the `pushed` items. -/
structure Holding (used pushed : Nat) (head : Option Nat) (linked elem : Nat) : Prop where
  next : elem = linked
  used : used = linked + 1
  pushed : pushed = linked + 1
  head : head = lastOf linked

/-- The writer's view: elements are linked in the order of the pushed items. -/
def WriterKnows (q : S1r1wQueue Item) (linked : Nat) : PushPoint Item → Prop
  | .idle => q.used = linked ∧ q.pushed.length = linked ∧ q.head = lastOf linked
  | .crashed => False
  | .getFreeElem d =>
      q.used = linked ∧ q.pushed.length = linked + 1 ∧ q.pushed[linked]? = some d ∧
        q.head = lastOf linked
  | .writeData elem d =>
      Holding q.used q.pushed.length q.head linked elem ∧ q.pushed[linked]? = some d
  | .readHead elem =>
      Holding q.used q.pushed.length q.head linked elem ∧ q.data elem = q.pushed[linked]?
  | .firstHead elem =>
      Holding q.used q.pushed.length q.head linked elem ∧ q.data elem = q.pushed[linked]? ∧
        linked = 0
  | .firstTail elem =>
      linked = 0 ∧ elem = 0 ∧ q.used = 1 ∧ q.pushed.length = 1 ∧ q.data 0 = q.pushed[0]? ∧
        q.head = some 0
  | .readHeadAgain elem =>
      Holding q.used q.pushed.length q.head linked elem ∧ q.data elem = q.pushed[linked]? ∧
        0 < linked
  | .writePrev elem head =>
      Holding q.used q.pushed.length q.head linked elem ∧ q.data elem = q.pushed[linked]? ∧
        head + 1 = linked
  | .writeHead elem => q.used = linked ∧ q.pushed.length = linked ∧ elem + 1 = linked

/-- `tail` is null, or the first element that is linked and not taken.  Before
the reader has taken anything it is null only while nothing is linked. -/
def TailFits (tail : Option Nat) (linked taken : Nat) : Prop :=
  (tail = none ∧ (taken = 0 → linked = 0)) ∨ (tail = some taken ∧ taken < linked)

/-- What the reader has read behind the element it took last. -/
def PrevFits (prev : Option Nat) (linked taken : Nat) : Prop :=
  prev = none ∨ (prev = some taken ∧ taken < linked)

/-- The reader's view. -/
def ReaderKnows (tail : Option Nat) (linked taken : Nat) : PopPoint → Prop
  | .idle => TailFits tail linked taken
  | .crashed => False
  | .readTail => TailFits tail linked taken
  | .readLast => TailFits tail linked taken ∧ (0 < taken → tail = none)
  | .readLastAgain => 0 < taken ∧ tail = none
  | .readLastPrev last => last + 1 = taken ∧ tail = none
  | .refillTail prev => 0 < taken ∧ tail = none ∧ PrevFits prev linked taken
  | .readTailAgain => TailFits tail linked taken
  | .takeTail => tail = some taken ∧ taken < linked
  | .testLast elem => elem = taken ∧ tail = some taken ∧ taken < linked
  | .freeLast elem => elem = taken ∧ tail = some taken ∧ taken < linked
  | .writeLast elem => elem = taken ∧ tail = some taken ∧ taken < linked
  | .readPrev elem => elem + 1 = taken
  | .writeTail elem prev => elem + 1 = taken ∧ PrevFits prev linked taken
  | .readData elem => elem + 1 = taken ∧ TailFits tail linked taken

/-- Elements that are taken by a call that has not returned. -/
def PopPoint.pending : PopPoint → Nat
  | .readPrev _ => 1
  | .writeTail _ _ => 1
  | .readData _ => 1
  | _ => 0

/-- Elements that the next access takes. -/
def PopPoint.takes : PopPoint → Nat
  | .writeLast _ => 1
  | _ => 0

/-- The invariant: `linked` elements form a chain that carries the pushed items,
the reader has taken the first `taken` of them. -/
structure S1r1wSound (q : S1r1wQueue Item) (linked taken : Nat) : Prop where
  chain : ∀ elem, q.prev elem = if elem + 1 < linked then some (elem + 1) else none
  items : ∀ elem, elem < linked → q.data elem = q.pushed[elem]?
  order : taken ≤ linked
  last : q.last = lastOf taken
  writer : WriterKnows q linked q.push
  reader : ReaderKnows q.tail linked taken q.pop
  delivered : q.delivered = q.pushed.take (taken - q.pop.pending)

section

variable {q after : S1r1wQueue Item} {linked taken : Nat}

/-- Every linked item was pushed. -/
theorem WriterKnows.linked_le (point : PushPoint Item) (knows : WriterKnows q linked point) :
    linked ≤ q.pushed.length := by
  cases point with
  | idle => exact knows.2.1.ge
  | crashed => exact knows.elim
  | getFreeElem d => rw [knows.2.1]; exact Nat.le_succ linked
  | writeData elem d => rw [knows.1.pushed]; exact Nat.le_succ linked
  | readHead elem => rw [knows.1.pushed]; exact Nat.le_succ linked
  | firstHead elem => rw [knows.1.pushed]; exact Nat.le_succ linked
  | firstTail elem => rw [knows.1]; exact Nat.zero_le _
  | readHeadAgain elem => rw [knows.1.pushed]; exact Nat.le_succ linked
  | writePrev elem head => rw [knows.1.pushed]; exact Nat.le_succ linked
  | writeHead elem => exact knows.2.1.ge

/-! ## What the writer does to the reader's view -/

/-- Nothing is taken before anything is linked. -/
theorem TailFits.empty {tail : Option Nat} (fits : TailFits tail 0 taken) : tail = none := by
  rcases fits with ⟨null, _⟩ | ⟨_, below⟩
  · exact null
  · omega

/-- One more element behind the others. -/
theorem TailFits.grow {tail : Option Nat} (fits : TailFits tail linked taken)
    (nonempty : 0 < linked) : TailFits tail (linked + 1) taken := by
  rcases fits with ⟨null, first⟩ | ⟨found, below⟩
  · refine Or.inl ⟨null, ?_⟩
    intro none
    exact absurd (first none) nonempty.ne'
  · exact Or.inr ⟨found, below.trans (Nat.lt_succ_self linked)⟩

theorem PrevFits.grow {prev : Option Nat} (fits : PrevFits prev linked taken) :
    PrevFits prev (linked + 1) taken := by
  rcases fits with null | ⟨found, below⟩
  · exact Or.inl null
  · exact Or.inr ⟨found, below.trans (Nat.lt_succ_self linked)⟩

theorem ReaderKnows.grow {tail : Option Nat} {point : PopPoint}
    (knows : ReaderKnows tail linked taken point) (nonempty : 0 < linked) :
    ReaderKnows tail (linked + 1) taken point := by
  have above : linked < linked + 1 := Nat.lt_succ_self linked
  cases point with
  | idle => exact TailFits.grow knows nonempty
  | crashed => exact knows
  | readTail => exact TailFits.grow knows nonempty
  | readLast => exact ⟨TailFits.grow knows.1 nonempty, knows.2⟩
  | readLastAgain => exact knows
  | readLastPrev last => exact knows
  | refillTail prev => exact ⟨knows.1, knows.2.1, PrevFits.grow knows.2.2⟩
  | readTailAgain => exact TailFits.grow knows nonempty
  | takeTail => exact ⟨knows.1, knows.2.trans above⟩
  | testLast elem => exact ⟨knows.1, knows.2.1, knows.2.2.trans above⟩
  | freeLast elem => exact ⟨knows.1, knows.2.1, knows.2.2.trans above⟩
  | writeLast elem => exact ⟨knows.1, knows.2.1, knows.2.2.trans above⟩
  | readPrev elem => exact knows
  | writeTail elem prev => exact ⟨knows.1, PrevFits.grow knows.2⟩
  | readData elem => exact ⟨knows.1, TailFits.grow knows.2 nonempty⟩

/-- The first push hands the reader its first `tail`. -/
theorem ReaderKnows.firstTail {tail : Option Nat} {point : PopPoint}
    (knows : ReaderKnows tail 0 0 point) : ReaderKnows (some 0) 1 0 point := by
  have fits : TailFits (some 0) 1 0 := Or.inr ⟨rfl, Nat.one_pos⟩
  cases point with
  | idle => exact fits
  | crashed => exact knows
  | readTail => exact fits
  | readLast => exact ⟨fits, fun taken => absurd taken (Nat.lt_irrefl 0)⟩
  | readLastAgain => exact absurd knows.1 (Nat.lt_irrefl 0)
  | readLastPrev last => exact absurd knows.1 (Nat.succ_ne_zero last)
  | refillTail prev => exact absurd knows.1 (Nat.lt_irrefl 0)
  | readTailAgain => exact fits
  | takeTail => exact absurd knows.2 (Nat.lt_irrefl 0)
  | testLast elem => exact absurd knows.2.2 (Nat.lt_irrefl 0)
  | freeLast elem => exact absurd knows.2.2 (Nat.lt_irrefl 0)
  | writeLast elem => exact absurd knows.2.2 (Nat.lt_irrefl 0)
  | readPrev elem => exact absurd knows (Nat.succ_ne_zero elem)
  | writeTail elem prev => exact absurd knows.1 (Nat.succ_ne_zero elem)
  | readData elem => exact absurd knows.1 (Nat.succ_ne_zero elem)

/-! ## The calls -/

/-- Calling push changes nothing for the reader. -/
theorem S1r1wSound.push (sound : S1r1wSound q linked taken) {d : Item}
    (stepped : q.step (.push d) = some after) : S1r1wSound after linked taken := by
  obtain ⟨chain, items, order, last, writer, reader, delivered⟩ := sound
  rw [S1r1wQueue.step] at stepped
  split at stepped
  next idle =>
    cases stepped
    rw [idle] at writer
    obtain ⟨used, pushed, head⟩ := writer
    refine ⟨chain, ?_, order, last, ?_, reader, ?_⟩
    · intro elem below
      show q.data elem = (q.pushed ++ [d])[elem]?
      rw [List.getElem?_append_left (pushed.symm ▸ below)]
      exact items elem below
    · refine ⟨used, ?_, ?_, head⟩
      · show (q.pushed ++ [d]).length = linked + 1
        rw [List.length_append, pushed]
        rfl
      · show (q.pushed ++ [d])[linked]? = some d
        rw [← pushed, List.getElem?_concat_length]
    · show q.delivered = (q.pushed ++ [d]).take (taken - q.pop.pending)
      rw [List.take_append_of_le_length]
      · exact delivered
      · rw [pushed]
        exact (Nat.sub_le _ _).trans order
  next => cases stepped

theorem S1r1wSound.pop (sound : S1r1wSound q linked taken)
    (stepped : q.step .pop = some after) : S1r1wSound after linked taken := by
  obtain ⟨chain, items, order, last, writer, reader, delivered⟩ := sound
  rw [S1r1wQueue.step] at stepped
  split at stepped
  next idle =>
    cases stepped
    rw [idle] at reader delivered
    exact ⟨chain, items, order, last, writer, reader, delivered⟩
  next => cases stepped

/-! ## The steps of the writer -/

/-- An access of the writer links at most one more element. -/
theorem S1r1wSound.writer_step (sound : S1r1wSound q linked taken)
    (stepped : q.step .writer = some after) : ∃ longer, S1r1wSound after longer taken := by
  obtain ⟨chain, items, order, last, writer, reader, delivered⟩ := sound
  rw [S1r1wQueue.step] at stepped
  cases point : q.push with
  | idle =>
      rw [point] at stepped
      cases stepped
  | crashed =>
      rw [point] at stepped
      cases stepped
  | getFreeElem d =>
      rw [point] at stepped writer
      rw [S1r1wQueue.pushStep] at stepped
      split at stepped
      next room =>
        cases stepped
        obtain ⟨used, pushed, item, head⟩ := writer
        refine ⟨linked, chain, items, order, last, ?_, reader, delivered⟩
        exact ⟨⟨used, by rw [used], pushed, head⟩, item⟩
      next => cases stepped
  | writeData elem d =>
      rw [point] at stepped writer
      cases stepped
      obtain ⟨⟨next, used, pushed, head⟩, item⟩ := writer
      refine ⟨linked, chain, ?_, order, last, ?_, reader, delivered⟩
      · intro other below
        show Function.update q.data elem (some d) other = q.pushed[other]?
        rw [Function.update_of_ne (by omega)]
        exact items other below
      · refine ⟨⟨next, used, pushed, head⟩, ?_⟩
        show Function.update q.data elem (some d) elem = q.pushed[linked]?
        rw [Function.update_self, item]
  | readHead elem =>
      rw [point] at stepped writer
      rw [S1r1wQueue.pushStep] at stepped
      obtain ⟨holding, item⟩ := writer
      split at stepped
      next empty =>
        cases stepped
        refine ⟨linked, chain, items, order, last, ?_, reader, delivered⟩
        refine ⟨holding, item, ?_⟩
        rw [holding.head] at empty
        cases linked with
        | zero => rfl
        | succ before => cases empty
      next head nonempty =>
        cases stepped
        refine ⟨linked, chain, items, order, last, ?_, reader, delivered⟩
        refine ⟨holding, item, ?_⟩
        rw [holding.head] at nonempty
        cases linked with
        | zero => cases nonempty
        | succ before => exact Nat.succ_pos before
  | firstHead elem =>
      rw [point] at stepped writer
      cases stepped
      obtain ⟨⟨next, used, pushed, head⟩, item, empty⟩ := writer
      subst empty
      subst next
      exact ⟨0, chain, items, order, last, ⟨rfl, rfl, used, pushed, item, rfl⟩, reader, delivered⟩
  | firstTail elem =>
      rw [point] at stepped writer
      cases stepped
      obtain ⟨empty, first, used, pushed, item, head⟩ := writer
      subst empty
      subst first
      have nothing : taken = 0 := Nat.le_zero.mp order
      subst nothing
      -- the element becomes the whole chain
      refine ⟨1, ?_, ?_, Nat.zero_le 1, last, ⟨used, pushed, head⟩, reader.firstTail, delivered⟩
      · intro elem
        rw [chain elem, if_neg (by omega), if_neg (by omega)]
      · intro elem below
        rw [Nat.lt_one_iff.mp below]
        exact item
  | readHeadAgain elem =>
      rw [point] at stepped writer
      rw [S1r1wQueue.pushStep] at stepped
      obtain ⟨holding, item, nonempty⟩ := writer
      obtain ⟨before, rfl⟩ := Nat.exists_eq_succ_of_ne_zero nonempty.ne'
      split at stepped
      next null =>
        rw [holding.head] at null
        cases null
      next head found =>
        cases stepped
        rw [holding.head] at found
        cases found
        exact ⟨before + 1, chain, items, order, last, ⟨holding, item, rfl⟩, reader, delivered⟩
  | writePrev elem head =>
      rw [point] at stepped writer
      cases stepped
      obtain ⟨⟨next, used, pushed, _⟩, item, headAt⟩ := writer
      refine ⟨linked + 1, ?_, ?_, order.trans (Nat.le_succ linked), last, ?_,
        reader.grow (headAt ▸ Nat.succ_pos head), delivered⟩
      · intro other
        show Function.update q.prev head (some elem) other = _
        by_cases same : other = head
        · rw [same, Function.update_self, if_pos (by omega), headAt, next]
        · rw [Function.update_of_ne same, chain other]
          by_cases inside : other + 1 < linked
          · rw [if_pos inside, if_pos (inside.trans (Nat.lt_succ_self linked))]
          · rw [if_neg inside, if_neg (by omega)]
      · intro other below
        rcases Nat.lt_succ_iff_lt_or_eq.mp below with old | new
        · exact items other old
        · rw [new, ← next, item, next]
      · exact ⟨used, pushed, by rw [next]⟩
  | writeHead elem =>
      rw [point] at stepped writer
      cases stepped
      obtain ⟨used, pushed, last'⟩ := writer
      refine ⟨linked, chain, items, order, last, ?_, reader, delivered⟩
      exact ⟨used, pushed, by rw [← last']; rfl⟩

/-! ## The steps of the reader -/

/-- A linked element's item. -/
theorem S1r1wSound.item (sound : S1r1wSound q linked taken) {elem : Nat} (below : elem < linked) :
    ∃ item, q.pushed[elem]? = some item ∧ q.data elem = some item := by
  have inside : elem < q.pushed.length := below.trans_le (WriterKnows.linked_le _ sound.writer)
  refine ⟨q.pushed[elem], List.getElem?_eq_getElem inside, ?_⟩
  rw [sound.items elem below, List.getElem?_eq_getElem inside]

/-- What `prev` of the element taken last says. -/
theorem S1r1wSound.prevFits (sound : S1r1wSound q linked taken) {elem : Nat}
    (isLast : elem + 1 = taken) : PrevFits (q.prev elem) linked taken := by
  rw [sound.chain elem, isLast]
  by_cases more : taken < linked
  · rw [if_pos more]
    exact Or.inr ⟨rfl, more⟩
  · rw [if_neg more]
    exact Or.inl rfl

/-- What the reader writes to `tail` fits. -/
theorem PrevFits.tail {prev : Option Nat} (fits : PrevFits prev linked taken)
    (nonempty : 0 < taken) : TailFits prev linked taken := by
  rcases fits with null | found
  · exact Or.inl ⟨null, fun none => absurd none nonempty.ne'⟩
  · exact Or.inr found

/-- A `tail` that is not null is the next element. -/
theorem TailFits.some {tail : Option Nat} {elem : Nat} (fits : TailFits tail linked taken)
    (found : tail = some elem) : tail = Option.some taken ∧ taken < linked := by
  rcases fits with ⟨null, _⟩ | next
  · rw [null] at found
    cases found
  · exact next

/-- An access of the reader takes at most one element, the next one. -/
theorem S1r1wSound.reader_step (sound : S1r1wSound q linked taken)
    (stepped : q.step .reader = some after) : S1r1wSound after linked (taken + q.pop.takes) := by
  have whole := sound
  obtain ⟨chain, items, order, last, writer, reader, delivered⟩ := sound
  rw [S1r1wQueue.step] at stepped
  cases point : q.pop with
  | idle =>
      rw [point] at stepped
      cases stepped
  | crashed =>
      rw [point] at stepped
      cases stepped
  | readTail =>
      rw [point] at stepped reader delivered
      rw [S1r1wQueue.popStep] at stepped
      split at stepped
      next null =>
        cases stepped
        exact ⟨chain, items, order, last, writer, ⟨reader, fun _ => null⟩, delivered⟩
      next elem found =>
        cases stepped
        exact ⟨chain, items, order, last, writer, reader.some found, delivered⟩
  | readLast =>
      rw [point] at stepped reader delivered
      rw [S1r1wQueue.popStep] at stepped
      obtain ⟨fits, null⟩ := reader
      split at stepped
      next =>
        cases stepped
        exact ⟨chain, items, order, last, writer, fits, delivered⟩
      next elem found =>
        cases stepped
        have nonempty : 0 < taken := by
          rw [last] at found
          cases taken with
          | zero => cases found
          | succ before => exact Nat.succ_pos before
        exact ⟨chain, items, order, last, writer, ⟨nonempty, null nonempty⟩, delivered⟩
  | readLastAgain =>
      rw [point] at stepped reader delivered
      rw [S1r1wQueue.popStep] at stepped
      obtain ⟨nonempty, null⟩ := reader
      obtain ⟨before, rfl⟩ := Nat.exists_eq_succ_of_ne_zero nonempty.ne'
      split at stepped
      next absent =>
        rw [last] at absent
        cases absent
      next elem found =>
        cases stepped
        rw [last] at found
        cases found
        exact ⟨chain, items, order, last, writer, ⟨rfl, null⟩, delivered⟩
  | readLastPrev elem =>
      rw [point] at stepped reader delivered
      cases stepped
      obtain ⟨isLast, null⟩ := reader
      have fits := whole.prevFits isLast
      exact ⟨chain, items, order, last, writer,
        ⟨isLast ▸ Nat.succ_pos elem, null, fits⟩, delivered⟩
  | refillTail prev =>
      rw [point] at stepped reader delivered
      cases stepped
      obtain ⟨nonempty, _, fits⟩ := reader
      exact ⟨chain, items, order, last, writer, fits.tail nonempty, delivered⟩
  | readTailAgain =>
      rw [point] at stepped reader delivered
      rw [S1r1wQueue.popStep] at stepped
      split at stepped
      next null =>
        cases stepped
        refine ⟨chain, items, order, last, writer, reader, ?_⟩
        rw [S1r1wQueue.delivered] at delivered ⊢
        show (q.results ++ [none]).filterMap id = _
        rw [List.filterMap_append, delivered]
        exact List.append_nil _
      next elem found =>
        cases stepped
        exact ⟨chain, items, order, last, writer, reader.some found, delivered⟩
  | takeTail =>
      rw [point] at stepped reader delivered
      rw [S1r1wQueue.popStep] at stepped
      obtain ⟨next, below⟩ := reader
      split at stepped
      next null =>
        rw [next] at null
        cases null
      next elem found =>
        cases stepped
        rw [next] at found
        cases found
        exact ⟨chain, items, order, last, writer, ⟨rfl, next, below⟩, delivered⟩
  | testLast elem =>
      rw [point] at stepped reader delivered
      rw [S1r1wQueue.popStep] at stepped
      split at stepped
      next =>
        cases stepped
        exact ⟨chain, items, order, last, writer, reader, delivered⟩
      next =>
        cases stepped
        exact ⟨chain, items, order, last, writer, reader, delivered⟩
  | freeLast elem =>
      rw [point] at stepped reader delivered
      cases stepped
      exact ⟨chain, items, order, last, writer, reader, delivered⟩
  | writeLast elem =>
      rw [point] at stepped reader delivered
      cases stepped
      obtain ⟨rfl, _, below⟩ := reader
      exact ⟨chain, items, below, rfl, writer, rfl, delivered⟩
  | readPrev elem =>
      rw [point] at stepped reader delivered
      cases stepped
      exact ⟨chain, items, order, last, writer, ⟨reader, whole.prevFits reader⟩, delivered⟩
  | writeTail elem prev =>
      rw [point] at stepped reader delivered
      cases stepped
      obtain ⟨isLast, fits⟩ := reader
      exact ⟨chain, items, order, last, writer,
        ⟨isLast, fits.tail (isLast ▸ Nat.succ_pos elem)⟩, delivered⟩
  | readData elem =>
      rw [point] at stepped reader delivered
      cases stepped
      obtain ⟨rfl, fits⟩ := reader
      obtain ⟨item, pushed, stored⟩ := whole.item order
      refine ⟨chain, items, order, last, writer, fits, ?_⟩
      rw [S1r1wQueue.delivered] at delivered ⊢
      show (q.results ++ [q.data elem]).filterMap id = q.pushed.take (elem + 1)
      rw [List.filterMap_append, delivered, stored, List.take_add_one, pushed]
      rfl

/-- Every reachable state is sound. -/
theorem sound_of_reachable (reached : (s1r1wSystem Item).Reachable q) :
    ∃ linked taken, S1r1wSound q linked taken := by
  refine reached.invariant (fun q => ∃ linked taken, S1r1wSound q linked taken) ?_ ?_
  · rintro start rfl
    refine ⟨0, 0, ?_, ?_, le_rfl, rfl, ⟨rfl, rfl, rfl⟩, Or.inl ⟨rfl, fun _ => rfl⟩, rfl⟩
    · intro elem
      rw [if_neg (by omega)]
      rfl
    · intro elem below
      exact absurd below (Nat.not_lt_zero elem)
  · rintro before event after _ ⟨linked, taken, sound⟩ _ stepped
    cases event with
    | push d => exact ⟨linked, taken, sound.push stepped⟩
    | pop => exact ⟨linked, taken, sound.pop stepped⟩
    | writer =>
        obtain ⟨longer, soundAfter⟩ := sound.writer_step stepped
        exact ⟨longer, taken, soundAfter⟩
    | reader => exact ⟨linked, _, sound.reader_step stepped⟩

/-! ## Pops while nobody pushes -/

/-- The events of the reader. -/
def OnlyPops (_ : S1r1wQueue Item) : S1r1wEvent Item → Prop
  | .push _ => False
  | .pop => True
  | .writer => False
  | .reader => True

/-- A reader that has looked for the next element since the last push has found
it, if there is one. -/
def QuietKnows (tail : Option Nat) (linked taken : Nat) : PopPoint → Prop
  | .refillTail prev => prev = none → taken = linked
  | .readTailAgain => tail = none → taken = linked
  | _ => True

theorem quietKnows_reader_step (sound : S1r1wSound q linked taken)
    (quiet : QuietKnows q.tail linked taken q.pop) (stepped : q.step .reader = some after) :
    QuietKnows after.tail linked (taken + q.pop.takes) after.pop := by
  have reader := sound.reader
  rw [S1r1wQueue.step] at stepped
  cases point : q.pop with
  | readLast =>
      rw [point] at stepped reader
      rw [S1r1wQueue.popStep] at stepped
      split at stepped
      next absent =>
        cases stepped
        intro null
        rw [sound.last] at absent
        cases taken with
        | zero =>
            rcases reader.1 with ⟨_, empty⟩ | ⟨found, _⟩
            · exact (empty rfl).symm
            · exact absurd (found.symm.trans null) (by simp)
        | succ before => cases absent
      next =>
        cases stepped
        trivial
  | readLastPrev elem =>
      rw [point] at stepped reader
      cases stepped
      intro null
      rw [sound.chain elem, reader.1] at null
      have order := sound.order
      apply le_antisymm order
      by_contra more
      rw [if_pos (not_le.mp more)] at null
      cases null
  | refillTail prev =>
      rw [point] at stepped quiet
      cases stepped
      exact quiet
  | idle => rw [point] at stepped; cases stepped
  | crashed => rw [point] at stepped; cases stepped
  | readTail =>
      rw [point, S1r1wQueue.popStep] at stepped
      split at stepped <;> · cases stepped; trivial
  | readLastAgain =>
      rw [point, S1r1wQueue.popStep] at stepped
      split at stepped <;> · cases stepped; trivial
  | readTailAgain =>
      rw [point, S1r1wQueue.popStep] at stepped
      split at stepped <;> · cases stepped; trivial
  | takeTail =>
      rw [point, S1r1wQueue.popStep] at stepped
      split at stepped <;> · cases stepped; trivial
  | testLast elem =>
      rw [point, S1r1wQueue.popStep] at stepped
      split at stepped <;> · cases stepped; trivial
  | freeLast elem => rw [point] at stepped; cases stepped; trivial
  | writeLast elem => rw [point] at stepped; cases stepped; trivial
  | readPrev elem => rw [point] at stepped; cases stepped; trivial
  | writeTail elem prev => rw [point] at stepped; cases stepped; trivial
  | readData elem => rw [point] at stepped; cases stepped; trivial

/-- How long a call of pop still takes. -/
def PopPoint.rank : PopPoint → Nat
  | .idle => 0
  | .crashed => 0
  | .readTail => 13
  | .readLast => 12
  | .readLastAgain => 11
  | .readLastPrev _ => 10
  | .refillTail _ => 9
  | .readTailAgain => 8
  | .takeTail => 7
  | .testLast _ => 6
  | .freeLast _ => 5
  | .writeLast _ => 4
  | .readPrev _ => 3
  | .writeTail _ _ => 2
  | .readData _ => 1

/-- What the reader's accesses do to the results: a call comes closer to its end,
or returns null or the data of an element. -/
inductive PopOutcome (q after : S1r1wQueue Item) : Prop where
  | runs (busy : after.pop ≠ .idle) (closer : after.pop.rank < q.pop.rank)
      (results : after.results = q.results)
  | empty (point : q.pop = .readTailAgain) (null : q.tail = none)
      (results : after.results = q.results ++ [none]) (returns : after.pop = .idle)
  | item (elem : Nat) (point : q.pop = .readData elem)
      (results : after.results = q.results ++ [q.data elem]) (returns : after.pop = .idle)

/-- An access of the reader leaves the writer alone. -/
theorem reader_step_outcome (stepped : q.step .reader = some after) :
    after.push = q.push ∧ after.pushed = q.pushed ∧ PopOutcome q after := by
  rw [S1r1wQueue.step] at stepped
  cases point : q.pop with
  | idle =>
      rw [point] at stepped
      cases stepped
  | crashed =>
      rw [point] at stepped
      cases stepped
  | readTail =>
      rw [point, S1r1wQueue.popStep] at stepped
      split at stepped <;>
      · cases stepped
        exact ⟨rfl, rfl, .runs (by simp) (by simp [point, PopPoint.rank]) rfl⟩
  | readLast =>
      rw [point, S1r1wQueue.popStep] at stepped
      split at stepped <;>
      · cases stepped
        exact ⟨rfl, rfl, .runs (by simp) (by simp [point, PopPoint.rank]) rfl⟩
  | readLastAgain =>
      rw [point, S1r1wQueue.popStep] at stepped
      split at stepped <;>
      · cases stepped
        exact ⟨rfl, rfl, .runs (by simp) (by simp [point, PopPoint.rank]) rfl⟩
  | readLastPrev last =>
      rw [point] at stepped
      cases stepped
      exact ⟨rfl, rfl, .runs (by simp) (by simp [point, PopPoint.rank]) rfl⟩
  | refillTail prev =>
      rw [point] at stepped
      cases stepped
      exact ⟨rfl, rfl, .runs (by simp) (by simp [point, PopPoint.rank]) rfl⟩
  | readTailAgain =>
      rw [point, S1r1wQueue.popStep] at stepped
      split at stepped
      next null =>
        cases stepped
        exact ⟨rfl, rfl, .empty point null rfl rfl⟩
      next =>
        cases stepped
        exact ⟨rfl, rfl, .runs (by simp) (by simp [point, PopPoint.rank]) rfl⟩
  | takeTail =>
      rw [point, S1r1wQueue.popStep] at stepped
      split at stepped <;>
      · cases stepped
        exact ⟨rfl, rfl, .runs (by simp) (by simp [point, PopPoint.rank]) rfl⟩
  | testLast elem =>
      rw [point, S1r1wQueue.popStep] at stepped
      split at stepped <;>
      · cases stepped
        exact ⟨rfl, rfl, .runs (by simp) (by simp [point, PopPoint.rank]) rfl⟩
  | freeLast elem =>
      rw [point] at stepped
      cases stepped
      exact ⟨rfl, rfl, .runs (by simp) (by simp [point, PopPoint.rank]) rfl⟩
  | writeLast elem =>
      rw [point] at stepped
      cases stepped
      exact ⟨rfl, rfl, .runs (by simp) (by simp [point, PopPoint.rank]) rfl⟩
  | readPrev elem =>
      rw [point] at stepped
      cases stepped
      exact ⟨rfl, rfl, .runs (by simp) (by simp [point, PopPoint.rank]) rfl⟩
  | writeTail elem prev =>
      rw [point] at stepped
      cases stepped
      exact ⟨rfl, rfl, .runs (by simp) (by simp [point, PopPoint.rank]) rfl⟩
  | readData elem =>
      rw [point] at stepped
      cases stepped
      exact ⟨rfl, rfl, .item elem point rfl rfl⟩

/-- A call that has not crashed can go on. -/
theorem reader_step_enabled (busy : q.pop ≠ .idle) (sane : q.pop ≠ .crashed) :
    ∃ after, q.step .reader = some after := by
  rw [S1r1wQueue.step]
  cases point : q.pop with
  | idle => exact absurd point busy
  | crashed => exact absurd point sane
  | readTail => rw [S1r1wQueue.popStep]; split <;> exact ⟨_, rfl⟩
  | readLast => rw [S1r1wQueue.popStep]; split <;> exact ⟨_, rfl⟩
  | readLastAgain => rw [S1r1wQueue.popStep]; split <;> exact ⟨_, rfl⟩
  | readTailAgain => rw [S1r1wQueue.popStep]; split <;> exact ⟨_, rfl⟩
  | takeTail => rw [S1r1wQueue.popStep]; split <;> exact ⟨_, rfl⟩
  | testLast elem => rw [S1r1wQueue.popStep]; split <;> exact ⟨_, rfl⟩
  | readLastPrev last => exact ⟨_, rfl⟩
  | refillTail prev => exact ⟨_, rfl⟩
  | freeLast elem => exact ⟨_, rfl⟩
  | writeLast elem => exact ⟨_, rfl⟩
  | readPrev elem => exact ⟨_, rfl⟩
  | writeTail elem prev => exact ⟨_, rfl⟩
  | readData elem => exact ⟨_, rfl⟩

/-- What is known of a state that pops alone have led to from `start`. -/
structure Draining (start q : S1r1wQueue Item) (linked taken : Nat) : Prop where
  sound : S1r1wSound q linked taken
  writerIdle : q.push = .idle
  pushed : q.pushed = start.pushed
  quiet : QuietKnows q.tail linked taken q.pop
  results : ∃ (items : List Item) (nulls : Nat),
    q.results = start.results ++ items.map some ++ List.replicate nulls none ∧
    (nulls ≠ 0 → q.delivered = q.pushed)

theorem Draining.start (sound : S1r1wSound q linked taken) (writerIdle : q.push = .idle)
    (readerIdle : q.pop = .idle) : Draining q q linked taken where
  sound := sound
  writerIdle := writerIdle
  pushed := rfl
  quiet := by
    rw [readerIdle]
    trivial
  results := ⟨[], 0, by simp, fun seen => absurd rfl seen⟩

/-- The reader has taken as many elements as it has delivered, but for the one it
is about to return. -/
theorem S1r1wSound.length_delivered (sound : S1r1wSound q linked taken)
    (writerIdle : q.push = .idle) :
    q.delivered.length = taken - q.pop.pending ∧ q.pushed.length = linked := by
  have writer := sound.writer
  rw [writerIdle] at writer
  obtain ⟨_, pushed, _⟩ := writer
  refine ⟨?_, pushed⟩
  rw [sound.delivered, List.length_take, pushed]
  have order := sound.order
  omega

theorem Draining.step {start : S1r1wQueue Item} {event : S1r1wEvent Item}
    (draining : Draining start q linked taken) (admitted : OnlyPops q event)
    (stepped : q.step event = some after) : ∃ more, Draining start after linked more := by
  obtain ⟨sound, writerIdle, pushed, quiet, items, nulls, results, empty⟩ := draining
  cases event with
  | push d => exact admitted.elim
  | writer => exact admitted.elim
  | pop =>
      have soundAfter := sound.pop stepped
      rw [S1r1wQueue.step] at stepped
      split at stepped
      next =>
        cases stepped
        exact ⟨taken, soundAfter, writerIdle, pushed, trivial, items, nulls, results, empty⟩
      next => cases stepped
  | reader =>
      obtain ⟨samePush, samePushed, outcome⟩ := reader_step_outcome stepped
      refine ⟨taken + q.pop.takes, sound.reader_step stepped, samePush.trans writerIdle,
        samePushed.trans pushed, quietKnows_reader_step sound quiet stepped, ?_⟩
      obtain ⟨count, all⟩ := sound.length_delivered writerIdle
      cases outcome with
      | runs busy closer same =>
          refine ⟨items, nulls, same.trans results, ?_⟩
          rw [samePushed, S1r1wQueue.delivered, same]
          exact empty
      | empty point null more returns =>
          refine ⟨items, nulls + 1, ?_, ?_⟩
          · rw [more, results, List.append_assoc, List.replicate_succ']
          · intro _
            -- the reader looked behind the last element and found nothing
            rw [point] at quiet
            have nonePending : q.pop.pending = 0 := by rw [point]; rfl
            have delivered := sound.delivered
            rw [nonePending, quiet null, ← all, Nat.sub_zero, List.take_length] at delivered
            rw [samePushed, ← delivered, S1r1wQueue.delivered, more, List.filterMap_append]
            exact List.append_nil _
      | item elem point more returns =>
          have reader := sound.reader
          rw [point] at reader count
          obtain ⟨isLast, _⟩ := reader
          have order := sound.order
          have noNulls : nulls = 0 := by
            by_contra seen
            rw [empty seen, all, show (PopPoint.readData elem).pending = 1 from rfl] at count
            omega
          have below : elem < linked := by omega
          obtain ⟨item, _, stored⟩ := sound.item below
          refine ⟨items ++ [item], 0, ?_, fun seen => absurd rfl seen⟩
          rw [more, results, noNulls, stored]
          simp

/-- States that pops alone lead to. -/
theorem Draining.steps {start : S1r1wQueue Item} (draining : Draining start q linked taken)
    (steps : (s1r1wSystem Item).Steps OnlyPops q after) :
    ∃ more, Draining start after linked more := by
  induction steps with
  | refl => exact ⟨taken, draining⟩
  | tail _ next inductionHypothesis =>
      obtain ⟨more, drainingBefore⟩ := inductionHypothesis
      obtain ⟨event, admitted, stepped⟩ := next
      exact drainingBefore.step admitted stepped

/-- A state reached by pops alone has delivered a part of what remained, and null
only if nothing remains. -/
theorem Draining.outcome {start : S1r1wQueue Item} (draining : Draining start q linked taken) :
    ∃ (items : List Item) (nulls : Nat),
      q.results = start.results ++ items.map some ++ List.replicate nulls none ∧
      items <+: start.remaining ∧ (nulls ≠ 0 → items = start.remaining) := by
  obtain ⟨items, nulls, results, empty⟩ := draining.results
  have delivered : q.delivered = start.delivered ++ items := by
    rw [S1r1wQueue.delivered, results]
    simp [S1r1wQueue.delivered, List.filterMap_append]
  have inOrder : start.delivered ++ items <+: start.pushed := by
    rw [← delivered, ← draining.pushed, draining.sound.delivered]
    exact List.take_prefix _ _
  obtain ⟨rest, whole⟩ := inOrder
  have remains : start.remaining = items ++ rest := by
    rw [S1r1wQueue.remaining, ← whole, List.append_assoc, List.drop_left]
  refine ⟨items, nulls, results, ⟨rest, remains.symm⟩, ?_⟩
  intro seen
  have all := empty seen
  rw [delivered, draining.pushed, ← whole] at all
  rw [remains, List.self_eq_append_right.mp all, List.append_nil]

/-- A call of pop returns. -/
theorem Draining.returns {start : S1r1wQueue Item} (draining : Draining start q linked taken)
    (busy : q.pop ≠ .idle) :
    ∃ returned more, (s1r1wSystem Item).Steps OnlyPops q returned ∧
      Draining start returned linked more ∧ returned.pop = .idle ∧
      returned.results.length = q.results.length + 1 := by
  -- the induction is on the steps the call still takes
  induction bound : q.pop.rank using Nat.strong_induction_on generalizing q taken with
  | _ bound inductionHypothesis =>
      have sane : q.pop ≠ .crashed := by
        intro crashed
        have reader := draining.sound.reader
        rw [crashed] at reader
        exact reader
      obtain ⟨next, stepped⟩ := reader_step_enabled busy sane
      have admitted : OnlyPops q (.reader : S1r1wEvent Item) := True.intro
      obtain ⟨more, drainingNext⟩ := draining.step admitted stepped
      have first : (s1r1wSystem Item).Next OnlyPops q next := ⟨.reader, admitted, stepped⟩
      obtain ⟨_, _, outcome⟩ := reader_step_outcome stepped
      cases outcome with
      | runs stillBusy closer same =>
          obtain ⟨returned, more', steps, drainingAfter, idle, count⟩ :=
            inductionHypothesis next.pop.rank (bound ▸ closer) drainingNext stillBusy rfl
          exact ⟨returned, more', Relation.ReflTransGen.head first steps, drainingAfter, idle,
            by rw [count, same]⟩
      | empty point null results returns =>
          exact ⟨next, more, Relation.ReflTransGen.single first, drainingNext, returns,
            by rw [results, List.length_append]; rfl⟩
      | item elem point results returns =>
          exact ⟨next, more, Relation.ReflTransGen.single first, drainingNext, returns,
            by rw [results, List.length_append]; rfl⟩

/-- Any number of calls of pop return. -/
theorem Draining.returns_many {start : S1r1wQueue Item} (draining : Draining start q linked taken)
    (idle : q.pop = .idle) (count : Nat) :
    ∃ returned more, (s1r1wSystem Item).Steps OnlyPops q returned ∧
      Draining start returned linked more ∧ returned.pop = .idle ∧
      returned.results.length = q.results.length + count := by
  induction count with
  | zero => exact ⟨q, taken, Relation.ReflTransGen.refl, draining, idle, rfl⟩
  | succ count inductionHypothesis =>
      obtain ⟨between, more, steps, drainingBetween, idleBetween, counted⟩ := inductionHypothesis
      have called : between.step .pop = some { between with pop := .readTail } := by
        rw [S1r1wQueue.step, idleBetween]
      have admitted : OnlyPops between (.pop : S1r1wEvent Item) := True.intro
      obtain ⟨more', drainingCall⟩ := drainingBetween.step admitted called
      obtain ⟨returned, more'', call, drainingAfter, idleAfter, oneMore⟩ :=
        drainingCall.returns (by simp)
      refine ⟨returned, more'', ?_, drainingAfter, idleAfter, ?_⟩
      · exact (steps.tail ⟨.pop, admitted, called⟩).trans call
      · rw [oneMore]
        show between.results.length + 1 = _
        rw [counted, Nat.add_assoc]

end

/-- What the queue owes its threads in a state: nobody follows a null pointer,
the non-null results are the first of the pushed items in order, and once the
pushes have finished pops return the remaining items, and null only after them. -/
structure LosesNothing (q : S1r1wQueue Item) : Prop where
  sane : q.push ≠ .crashed ∧ q.pop ≠ .crashed
  inOrder : q.delivered <+: q.pushed
  drains : q.push = .idle → q.pop = .idle →
    ∀ after, (s1r1wSystem Item).Steps OnlyPops q after →
      ∃ (items : List Item) (nulls : Nat),
        after.results = q.results ++ items.map some ++ List.replicate nulls none ∧
        items <+: q.remaining ∧ (nulls ≠ 0 → items = q.remaining)
  answers : q.push = .idle → q.pop = .idle → ∀ count,
    ∃ after, (s1r1wSystem Item).Steps OnlyPops q after ∧ after.pop = .idle ∧
      after.results.length = q.results.length + count

/-- **The one-reader one-writer queue loses nothing**, in every interleaving of
its two threads. -/
theorem s1r1w_loses_nothing {q : S1r1wQueue Item} (reached : (s1r1wSystem Item).Reachable q) :
    LosesNothing q := by
  obtain ⟨linked, taken, sound⟩ := sound_of_reachable reached
  refine ⟨⟨?_, ?_⟩, ?_, ?_, ?_⟩
  · intro crashed
    have writer := sound.writer
    rw [crashed] at writer
    exact writer
  · intro crashed
    have reader := sound.reader
    rw [crashed] at reader
    exact reader
  · rw [sound.delivered]
    exact List.take_prefix _ _
  · intro writerIdle readerIdle after steps
    obtain ⟨more, draining⟩ := (Draining.start sound writerIdle readerIdle).steps steps
    exact draining.outcome
  · intro writerIdle readerIdle count
    obtain ⟨after, _, steps, _, idle, counted⟩ :=
      (Draining.start sound writerIdle readerIdle).returns_many readerIdle count
    exact ⟨after, steps, idle, counted⟩

/-- The reader pops while the first push has set `head` only, then takes its item,
and runs dry just before the second push links the next one. -/
def twoPushes : S1r1wQueue Nat :=
  (s1r1wSystem Nat).outcome S1r1wQueue.create
    (.push 5 :: List.replicate 4 .writer ++ .pop :: List.replicate 3 .reader ++
      .writer :: .pop :: List.replicate 7 .reader ++ .push 6 :: List.replicate 4 .writer ++
      .pop :: List.replicate 4 .reader ++ .writer :: List.replicate 2 .reader ++ [.writer])

theorem s1r1w_loses_nothing_twoPushes :
    twoPushes.results = [none, some 5, none] ∧ twoPushes.remaining = [6] ∧
      LosesNothing twoPushes := by
  have initial : (s1r1wSystem Nat).init S1r1wQueue.create := rfl
  have reached : (s1r1wSystem Nat).Reachable twoPushes := System.reachable_outcome initial _
  exact ⟨by decide +kernel, by decide +kernel, s1r1w_loses_nothing reached⟩

end SimpleDfs.Common
