import SimpleDfs.ServerGroup.Order

/-!
Contract: new entries in the arrays of a server group.

Owns: when `iinit_serv` and `s_servg_create_serv` leave every entry in use where
and as it is, and what they do to the order of the group then.

An array that grows moves its elements, and pointers to them stay behind; an
entry that is created again loses its links and its flags.

Does not own: what the caller does with a new entry.
-/

set_option autoImplicit false

namespace SimpleDfs.ServerGroup

open SimpleDfs.Common
open SimpleDfs.Library

namespace ServGroup

/-- The entries of an array are unused as far as they exist. -/
def AllUnused (servg : ServGroup) (type : Int) : Prop :=
  ∀ index < (servg.servs type).nelem,
    servg.Unused { type := type, block := (servg.servs type).block, index := index }

instance (servg : ServGroup) (type : Int) : Decidable (servg.AllUnused type) :=
  inferInstanceAs (Decidable (∀ _ < _, _))

/-- An entry can be created: it is unused if it exists, and no array moves unless
nothing in it is used. -/
def MayCreate (servg : ServGroup) (type : Int) (index : Nat) : Prop :=
  (index < (servg.servs type).nelem →
    servg.Unused { type := type, block := (servg.servs type).block, index := index }) ∧
  ((servg.servs type).total ≤ index → servg.AllUnused type)

instance (servg : ServGroup) (type : Int) (index : Nat) : Decidable (servg.MayCreate type index) :=
  inferInstanceAs (Decidable ((_ → _) ∧ (_ → _)))

/-- What creating an entry leaves alone: the entries in use, and everything but
the arrays, the entries and the links. -/
structure Keeps (before after : ServGroup) : Prop where
  entry : ∀ serv, IsEntry before.servs serv → ¬ before.Unused serv → IsEntry after.servs serv
  used : ∀ serv, IsEntry before.servs serv → ¬ before.Unused serv →
    after.entries serv = before.entries serv
  same : after =
    { before with servs := after.servs, entries := after.entries, links := after.links }

theorem Keeps.refl (servg : ServGroup) : Keeps servg servg :=
  ⟨fun _ entry _ => entry, fun _ _ _ => rfl, rfl⟩

theorem Keeps.conns {before after : ServGroup} (keeps : Keeps before after) :
    after.conns = before.conns := by
  rw [keeps.same]

theorem Keeps.myself {before after : ServGroup} (keeps : Keeps before after) :
    after.myself = before.myself := by
  rw [keeps.same]

theorem Keeps.frame {before after : ServGroup} (keeps : Keeps before after) :
    after.frame = before.frame := by
  rw [keeps.same]

theorem Keeps.stays_used {before after : ServGroup} (keeps : Keeps before after)
    {serv : ServAddr} (entry : IsEntry before.servs serv) (used : ¬ before.Unused serv) :
    ¬ after.Unused serv := by
  intro unused
  rw [Unused, keeps.used serv entry used] at unused
  exact used unused

theorem Keeps.trans {first second third : ServGroup} (early : Keeps first second)
    (late : Keeps second third) : Keeps first third := by
  refine ⟨?_, ?_, ?_⟩
  · intro serv entry used
    exact late.entry serv (early.entry serv entry used) (early.stays_used entry used)
  · intro serv entry used
    rw [late.used serv (early.entry serv entry used) (early.stays_used entry used)]
    exact early.used serv entry used
  · have same := late.same
    rw [early.same] at same
    exact same

theorem Own.keeps {before after : ServGroup} {serv : ServAddr} (own : before.Own serv)
    (keeps : Keeps before after) : after.Own serv := by
  have used : ¬ before.Unused serv := by
    intro unused
    have flags := unused.1
    rw [own.flags] at flags
    simp at flags
  have same := keeps.used serv own.entry used
  exact ⟨keeps.myself.trans own.myself, keeps.entry serv own.entry used, same ▸ own.flags,
    same ▸ own.conn, same ▸ own.rpcHash⟩

/-- The established servers but for one were established before. -/
def Sourced (before after : ServGroup) (hole : Option ServAddr) : Prop :=
  ∀ serv, IsEntry after.servs serv → hole ≠ some serv →
    (after.entries serv).flags.established = true →
    IsEntry before.servs serv ∧ after.entries serv = before.entries serv

theorem Sourced.refl (servg : ServGroup) : Sourced servg servg none :=
  fun _ entry _ _ => ⟨entry, rfl⟩

theorem Sourced.trans {first second third : ServGroup} {hole : Option ServAddr}
    (early : Sourced first second none) (late : Sourced second third hole) :
    Sourced first third hole := by
  intro serv entry inside established
  obtain ⟨middle, same⟩ := late serv entry inside established
  rw [same] at established ⊢
  exact early serv middle (by simp) established

section

variable {servg : ServGroup} {lists : WaitList → List ServAddr} {type : Int}

/-! ## Growing -/

theorem expand_servs_other {other : Int} (different : other ≠ type) :
    (servg.expand type).servs other = servg.servs other :=
  Function.update_of_ne different _ _

theorem expand_servs_self :
    (servg.expand type).servs type =
      { block := (servg.servs type).block + 1
        nelem := (servg.servs type).nelem
        total := (servg.servs type).total * 2 } :=
  Function.update_self type _ _

theorem expand_entries_other {serv : ServAddr} (different : serv.type ≠ type) :
    (servg.expand type).entries serv = servg.entries serv := by
  simp [expand, different]

theorem expand_entries_moved {index : Nat} (below : index < (servg.servs type).nelem) :
    (servg.expand type).entries
        { type := type, block := (servg.servs type).block + 1, index := index } =
      servg.entries { type := type, block := (servg.servs type).block, index := index } := by
  simp [expand, below]

theorem expand_links_other {serv : ServAddr} (different : serv.type ≠ type) :
    (servg.expand type).links.next (.node serv) = servg.links.next (.node serv) ∧
      (servg.expand type).links.prev (.node serv) = servg.links.prev (.node serv) := by
  simp [expand, different]

/-- An entry after the array has grown is one of another array, or a copy of an
unused entry. -/
theorem isEntry_expand {serv : ServAddr} (unused : servg.AllUnused type)
    (entry : IsEntry (servg.expand type).servs serv) :
    (serv.type ≠ type ∧ IsEntry servg.servs serv) ∨
      (serv.type = type ∧ (servg.expand type).Unused serv) := by
  by_cases same : serv.type = type
  · right
    refine ⟨same, ?_⟩
    obtain ⟨servType, block, index⟩ := serv
    have block_eq := entry.block
    have below := entry.index
    simp only at same
    subst same
    rw [expand_servs_self] at block_eq below
    simp only at block_eq below
    subst block_eq
    rw [Unused, expand_entries_moved below]
    exact unused index below
  · left
    have block := entry.block
    have below := entry.index
    rw [expand_servs_other same] at block below
    exact ⟨same, entry.type, block, below⟩

theorem IsEntry.unused_of_all {serv : ServAddr} (entry : IsEntry servg.servs serv)
    (unused : servg.AllUnused serv.type) : servg.Unused serv := by
  have facts := unused serv.index entry.index
  rw [← entry.block] at facts
  exact facts

/-- An array without an entry in use may grow. -/
theorem Ordered.expand (ordered : servg.Ordered lists none) (unused : servg.AllUnused type) :
    (servg.expand type).Ordered lists none := by
  have elsewhere : ∀ list serv, serv ∈ lists list → serv.type ≠ type := by
    rintro list serv member rfl
    have entry := ordered.listed list serv member
    exact (entry.unused_of_all unused).not_linked ordered (by simp) list member
  have stays : ∀ serv, serv.type ≠ type → IsEntry servg.servs serv →
      IsEntry (servg.expand type).servs serv := by
    intro serv different entry
    refine ⟨entry.type, ?_, ?_⟩
    · rw [expand_servs_other different]
      exact entry.block
    · rw [expand_servs_other different]
      exact entry.index
  constructor
  case family =>
    apply ordered.family.congr
    · exact fun _ => ⟨rfl, rfl⟩
    · exact fun list serv member => expand_links_other (elsewhere list serv member)
  case listed =>
    intro list serv member
    exact stays serv (elsewhere list serv member) (ordered.listed list serv member)
  case waiting =>
    intro serv member inside
    rw [expand_entries_other (elsewhere _ serv member)]
    exact ordered.waiting serv member inside
  case linked =>
    intro list serv member inside
    rw [expand_entries_other (elsewhere _ serv member)]
    exact ordered.linked list serv member inside
  case found =>
    intro serv entry inside connected
    rcases isEntry_expand unused entry with ⟨different, old⟩ | ⟨_, free⟩
    · rw [expand_entries_other different] at connected
      exact ordered.found serv old inside connected
    · exact absurd free.2 connected
  case alone =>
    intro serv entry inside inConfig unlisted
    rcases isEntry_expand unused entry with ⟨different, old⟩ | ⟨_, free⟩
    · rw [expand_entries_other different] at inConfig
      have alone := ordered.alone serv old inside inConfig unlisted
      have links := @expand_links_other servg type serv different
      apply alone.congr
      · intro place member
        rw [List.mem_singleton.mp member]
        exact links.1
      · intro place member
        rw [List.mem_singleton.mp member]
        exact links.2
    · rw [free.1] at inConfig
      simp at inConfig
  case bound =>
    intro conn serv opened udata inside
    have facts := ordered.bound conn serv opened udata inside
    have different : serv.type ≠ type := by
      rintro rfl
      have free := (facts.1.unused_of_all unused).2
      rw [facts.2] at free
      cases free
    rw [expand_entries_other different]
    exact ⟨stays serv different facts.1, facts.2⟩
  case held =>
    intro serv conn entry inside atConn
    rcases isEntry_expand unused entry with ⟨different, old⟩ | ⟨_, free⟩
    · rw [expand_entries_other different] at atConn
      exact ordered.held serv conn old inside atConn
    · rw [free.2] at atConn
      cases atConn
  case established =>
    intro serv entry inside established notMyself
    rcases isEntry_expand unused entry with ⟨different, old⟩ | ⟨_, free⟩
    · rw [expand_entries_other different] at established ⊢
      exact ordered.established serv old inside established notMyself
    · rw [free.1] at established
      simp at established

theorem keeps_expand (unused : servg.AllUnused type) : Keeps servg (servg.expand type) := by
  have elsewhere : ∀ serv, IsEntry servg.servs serv → ¬ servg.Unused serv → serv.type ≠ type := by
    rintro serv entry used rfl
    exact used (entry.unused_of_all unused)
  refine ⟨?_, ?_, rfl⟩
  · intro serv entry used
    have different := elsewhere serv entry used
    refine ⟨entry.type, ?_, ?_⟩
    · rw [expand_servs_other different]
      exact entry.block
    · rw [expand_servs_other different]
      exact entry.index
  · intro serv entry used
    exact expand_entries_other (elsewhere serv entry used)

theorem sourced_expand (unused : servg.AllUnused type) :
    Sourced servg (servg.expand type) none := by
  intro serv entry _ established
  rcases isEntry_expand unused entry with ⟨different, old⟩ | ⟨_, free⟩
  · exact ⟨old, expand_entries_other different⟩
  · rw [free.1] at established
    cases established

theorem allUnused_expand (unused : servg.AllUnused type) :
    (servg.expand type).AllUnused type := by
  intro index below
  rw [expand_servs_self] at below ⊢
  rw [Unused, expand_entries_moved below]
  exact unused index below

/-! ## One more element -/

/-- `s_array_push` into an array with room. -/
def pushRoom (servg : ServGroup) (type : Int) : ServGroup :=
  { servg with
    servs := Function.update servg.servs type
      { servg.servs type with nelem := (servg.servs type).nelem + 1 } }

/-- The address of the next element. -/
def nextEntry (servg : ServGroup) (type : Int) : ServAddr where
  type := type
  block := (servg.servs type).block
  index := (servg.servs type).nelem

theorem pushRoom_block : ((servg.pushRoom type).servs type).block = (servg.servs type).block := by
  simp [pushRoom]

theorem isEntry_pushRoom {serv : ServAddr} :
    IsEntry (servg.pushRoom type).servs serv ↔
      IsEntry servg.servs serv ∨ validType type = true ∧ serv = servg.nextEntry type := by
  obtain ⟨servType, block, index⟩ := serv
  by_cases same : servType = type
  · subst same
    constructor
    · intro entry
      have block_eq := entry.block
      have below := entry.index
      simp only [pushRoom, Function.update_self] at block_eq below
      rcases Nat.lt_succ_iff_lt_or_eq.mp below with old | new
      · exact Or.inl ⟨entry.type, block_eq, old⟩
      · right
        refine ⟨entry.type, ?_⟩
        rw [nextEntry, block_eq, new]
    · rintro (entry | ⟨valid, new⟩)
      · refine ⟨entry.type, ?_, ?_⟩
        · simpa [pushRoom] using entry.block
        · simpa [pushRoom] using Nat.lt_succ_of_lt entry.index
      · simp only [nextEntry, ServAddr.mk.injEq] at new
        refine ⟨valid, ?_, ?_⟩
        · simpa [pushRoom] using new.2.1
        · simp [pushRoom, new.2.2]
  · constructor
    · intro entry
      have block_eq := entry.block
      have below := entry.index
      simp only [pushRoom, Function.update_of_ne same] at block_eq below
      exact Or.inl ⟨entry.type, block_eq, below⟩
    · rintro (entry | ⟨_, new⟩)
      · refine ⟨entry.type, ?_, ?_⟩
        · simpa [pushRoom, Function.update_of_ne same] using entry.block
        · simpa [pushRoom, Function.update_of_ne same] using entry.index
      · simp only [nextEntry, ServAddr.mk.injEq] at new
        exact absurd new.1 same

theorem not_isEntry_nextEntry : ¬ IsEntry servg.servs (servg.nextEntry type) :=
  fun entry => Nat.lt_irrefl _ entry.index

theorem Ordered.pushRoom (ordered : servg.Ordered lists none) :
    (servg.pushRoom type).Ordered lists (some (servg.nextEntry type)) := by
  have old : ∀ serv, IsEntry (servg.pushRoom type).servs serv →
      some (servg.nextEntry type) ≠ some serv → IsEntry servg.servs serv := by
    intro serv entry inside
    rcases isEntry_pushRoom.mp entry with before | ⟨_, new⟩
    · exact before
    · exact absurd (congrArg some new.symm) inside
  constructor
  case family => exact ordered.family
  case listed =>
    exact fun list serv member => isEntry_pushRoom.mpr (Or.inl (ordered.listed list serv member))
  case waiting => exact fun serv member _ => ordered.waiting serv member (by simp)
  case linked => exact fun list serv member _ => ordered.linked list serv member (by simp)
  case found =>
    exact fun serv entry inside => ordered.found serv (old serv entry inside) (by simp)
  case alone =>
    exact fun serv entry inside => ordered.alone serv (old serv entry inside) (by simp)
  case bound =>
    intro conn serv opened udata _
    have facts := ordered.bound conn serv opened udata (by simp)
    exact ⟨isEntry_pushRoom.mpr (Or.inl facts.1), facts.2⟩
  case held =>
    exact fun serv conn entry inside => ordered.held serv conn (old serv entry inside) (by simp)
  case established =>
    exact fun serv entry inside => ordered.established serv (old serv entry inside) (by simp)

theorem keeps_pushRoom : Keeps servg (servg.pushRoom type) :=
  ⟨fun _ entry _ => isEntry_pushRoom.mpr (Or.inl entry), fun _ _ _ => rfl, rfl⟩

theorem sourced_pushRoom : Sourced servg (servg.pushRoom type) (some (servg.nextEntry type)) := by
  intro serv entry inside _
  rcases isEntry_pushRoom.mp entry with old | ⟨_, new⟩
  · exact ⟨old, rfl⟩
  · exact absurd (congrArg some new.symm) inside

/-- Nothing refers to the entry. -/
structure Fresh (servg : ServGroup) (lists : WaitList → List ServAddr) (serv : ServAddr) :
    Prop where
  entry : IsEntry servg.servs serv
  unlisted : ∀ list, serv ∉ lists list
  unbound : ∀ conn, (servg.conns conn).opened = true → (servg.conns conn).udata ≠ some serv

theorem Ordered.fresh_nextEntry (ordered : servg.Ordered lists none)
    (valid : validType type = true) :
    (servg.pushRoom type).Fresh lists (servg.nextEntry type) where
  entry := isEntry_pushRoom.mpr (Or.inr ⟨valid, rfl⟩)
  unlisted := fun list member => not_isEntry_nextEntry (ordered.listed list _ member)
  unbound := fun conn opened udata =>
    not_isEntry_nextEntry (ordered.bound conn _ opened udata (by simp)).1

/-! ## `s_array_push` -/

/-- The group before the new element is counted. -/
def room (servg : ServGroup) (type : Int) : ServGroup :=
  if (servg.servs type).total ≤ (servg.servs type).nelem then servg.expand type else servg

theorem sArrayPush_eq (servg : ServGroup) (type : Int) :
    servg.sArrayPush type =
      ((servg.room type).pushRoom type, (servg.room type).nextEntry type) := rfl

/-- The array only moves if nothing in it is used. -/
def Stays (servg : ServGroup) (type : Int) (index : Nat) : Prop :=
  (servg.servs type).total ≤ index → servg.AllUnused type

/-- What making room leaves. -/
structure Roomy (servg : ServGroup) (lists : WaitList → List ServAddr) (type : Int) : Prop where
  ordered : (servg.room type).Ordered lists none
  keeps : Keeps servg (servg.room type)
  source : Sourced servg (servg.room type) none
  nelem : ((servg.room type).servs type).nelem = (servg.servs type).nelem
  total : (servg.servs type).total ≤ ((servg.room type).servs type).total
  unused : servg.AllUnused type → (servg.room type).AllUnused type

theorem Ordered.roomy (ordered : servg.Ordered lists none)
    (stays : servg.Stays type (servg.servs type).nelem) : servg.Roomy lists type := by
  by_cases full : (servg.servs type).total ≤ (servg.servs type).nelem
  · have unused := stays full
    have grown : servg.room type = servg.expand type := if_pos full
    refine ⟨?_, ?_, ?_, ?_, ?_, ?_⟩
    · exact grown ▸ ordered.expand unused
    · exact grown ▸ keeps_expand unused
    · exact grown ▸ sourced_expand unused
    · rw [grown, expand_servs_self]
    · rw [grown, expand_servs_self]
      simp only
      omega
    · exact fun _ => grown ▸ allUnused_expand unused
  · have same : servg.room type = servg := if_neg full
    rw [← same] at ordered
    refine ⟨ordered, ?_, ?_, ?_, ?_, ?_⟩ <;> rw [same]
    · exact Keeps.refl servg
    · exact Sourced.refl servg
    · exact fun unused => unused

/-- What a push leaves: a fresh entry, left out of the order. -/
structure Pushed (before after : ServGroup) (lists : WaitList → List ServAddr)
    (serv : ServAddr) : Prop where
  ordered : after.Ordered lists (some serv)
  fresh : after.Fresh lists serv
  keeps : Keeps before after
  source : Sourced before after (some serv)
  new : IsEntry before.servs serv → before.Unused serv

theorem Roomy.pushed (roomy : servg.Roomy lists type) (valid : validType type = true) :
    servg.Pushed (servg.sArrayPush type).1 lists (servg.sArrayPush type).2 := by
  rw [sArrayPush_eq]
  refine ⟨roomy.ordered.pushRoom, roomy.ordered.fresh_nextEntry valid,
    roomy.keeps.trans keeps_pushRoom, roomy.source.trans sourced_pushRoom, ?_⟩
  intro entry
  have below := entry.index
  simp only [nextEntry, roomy.nelem] at below
  omega

/-- Writing to a new entry disturbs no other. -/
theorem Keeps.modify {before after : ServGroup} {serv : ServAddr} (keeps : Keeps before after)
    (new : IsEntry before.servs serv → before.Unused serv) (f : SServer → SServer) :
    Keeps before (after.modify serv f) := by
  refine ⟨keeps.entry, ?_, ?_⟩
  · intro other entry used
    have different : other ≠ serv := by
      rintro rfl
      exact used (new entry)
    rw [modify_entries, if_neg different]
    exact keeps.used other entry used
  · have same := keeps.same
    rw [same]
    rfl

theorem Sourced.modify {before after : ServGroup} {serv : ServAddr}
    (source : Sourced before after (some serv)) (f : SServer → SServer) :
    Sourced before (after.modify serv f) (some serv) := by
  intro other entry inside established
  have different : other ≠ serv := fun same => inside (same ▸ rfl)
  rw [modify_entries, if_neg different] at established ⊢
  exact source other entry inside established

/-- An entry without flags is not established. -/
theorem Sourced.fill {before after : ServGroup} {serv : ServAddr}
    (source : Sourced before after (some serv))
    (quiet : (after.entries serv).flags.established = false) : Sourced before after none := by
  intro other entry _ established
  have different : some serv ≠ some other := by
    intro same
    cases same
    rw [quiet] at established
    cases established
  exact source other entry different established

theorem Keeps.listInit {before after : ServGroup} {serv : ServAddr} (keeps : Keeps before after) :
    Keeps before (after.listInit serv) := by
  refine ⟨keeps.entry, keeps.used, ?_⟩
  have same := keeps.same
  rw [same]
  rfl

/-! ## `iinit_serv` -/

/-- One round of the loop of `iinit_serv`. -/
def pushOne (servg : ServGroup) (type : Int) : ServGroup :=
  (servg.sArrayPush type).1.modify (servg.sArrayPush type).2 fun entry =>
    { entry with flags := {}, conn := none }

theorem pushOne_servs (servg : ServGroup) (type : Int) :
    (servg.pushOne type).servs type =
      { (servg.room type).servs type with
        nelem := ((servg.room type).servs type).nelem + 1 } :=
  Function.update_self type _ _

theorem Roomy.nelem_pushOne (roomy : servg.Roomy lists type) :
    ((servg.pushOne type).servs type).nelem = (servg.servs type).nelem + 1 := by
  rw [pushOne_servs, ← roomy.nelem]

theorem Roomy.ordered_pushOne (roomy : servg.Roomy lists type) (valid : validType type = true) :
    (servg.pushOne type).Ordered lists none := by
  have pushed := roomy.pushed valid
  have marked := pushed.ordered.modify fun entry => { entry with flags := {}, conn := none }
  apply marked.fill_released
  · simp
  · exact pushed.fresh.unbound
  · exact fun list member => absurd member (pushed.fresh.unlisted list)
  · simp
  · simp

theorem Roomy.keeps_pushOne (roomy : servg.Roomy lists type) (valid : validType type = true) :
    Keeps servg (servg.pushOne type) :=
  (roomy.pushed valid).keeps.modify (roomy.pushed valid).new _

theorem Roomy.source_pushOne (roomy : servg.Roomy lists type) (valid : validType type = true) :
    Sourced servg (servg.pushOne type) none := by
  apply ((roomy.pushed valid).source.modify _).fill
  simp

/-- If the array moves in the next round, it held no entry in use before. -/
theorem Roomy.stays_pushOne (roomy : servg.Roomy lists type) {index : Nat}
    (stays : servg.Stays type index) : (servg.pushOne type).Stays type index := by
  intro full place below
  have grown := roomy.total
  rw [pushOne_servs] at full below ⊢
  simp only at full below
  have unused := roomy.unused (stays (by omega))
  rw [Unused, pushOne, modify_entries]
  split
  · exact ⟨rfl, rfl⟩
  · rename_i different
    apply unused place
    rcases Nat.lt_succ_iff_lt_or_eq.mp below with old | new
    · exact old
    · exact absurd (by rw [sArrayPush_eq, nextEntry, new]) different

/-- What the loop of `iinit_serv` leaves when the array has `index` elements. -/
structure Filled (before after : ServGroup) (lists : WaitList → List ServAddr) (type : Int)
    (index : Nat) : Prop where
  ordered : after.Ordered lists none
  keeps : Keeps before after
  source : Sourced before after none
  nelem : (after.servs type).nelem = index
  stays : after.Stays type index

theorem Ordered.pushUnused (valid : validType type = true) {index : Nat} (count : Nat) :
    ∀ {servg : ServGroup}, servg.Ordered lists none → servg.Stays type index →
      (servg.servs type).nelem + count = index →
      servg.Filled (servg.pushUnused type count) lists type index := by
  induction count with
  | zero =>
      intro servg ordered stays reaches
      exact ⟨ordered, Keeps.refl servg, Sourced.refl servg, reaches, stays⟩
  | succ count inductionHypothesis =>
      intro servg ordered stays reaches
      have roomy : servg.Roomy lists type := by
        apply ordered.roomy
        intro full
        exact stays (by omega)
      have rest : (servg.pushOne type).Filled ((servg.pushOne type).pushUnused type count) lists
          type index := by
        apply inductionHypothesis (roomy.ordered_pushOne valid) (roomy.stays_pushOne stays)
        rw [roomy.nelem_pushOne]
        omega
      exact ⟨rest.ordered, (roomy.keeps_pushOne valid).trans rest.keeps,
        (roomy.source_pushOne valid).trans rest.source, rest.nelem, rest.stays⟩

/-- The address of the entry `iinit_serv` gives. -/
def entryAt (servg : ServGroup) (type : Int) (index : Nat) : ServAddr where
  type := type
  block := (servg.servs type).block
  index := index

/-- `iinit_serv` gives an unused entry, left out of the order, and marks it. -/
theorem Ordered.iinitServ (ordered : servg.Ordered lists none) (valid : validType type = true)
    {index : Nat} (may : servg.MayCreate type index) :
    servg.Pushed (servg.iinitServ type index) lists
        ((servg.iinitServ type index).entryAt type index) ∧
      ((servg.iinitServ type index).entries
        ((servg.iinitServ type index).entryAt type index)).flags = { inConfig := true } := by
  by_cases below : index < (servg.servs type).nelem
  · have unused := may.1 below
    simp only [ServGroup.iinitServ, below, if_true]
    have untouched : Sourced servg servg (some (servg.entryAt type index)) :=
      fun _ entry _ _ => ⟨entry, rfl⟩
    refine ⟨⟨(ordered.except _).modify _, ⟨⟨valid, rfl, below⟩, ?_, ?_⟩,
      (Keeps.refl servg).modify (fun _ => unused) _, untouched.modify _, fun _ => unused⟩,
      by rw [entryAt]; simp [ServGroup.modify]⟩
    · exact fun list => unused.not_linked ordered (by simp) list
    · exact fun conn opened => unused.not_bound ordered (by simp) opened
  · have filled := ordered.pushUnused valid (index - (servg.servs type).nelem) may.2 (by omega)
    have roomy : (servg.pushUnused type (index - (servg.servs type).nelem)).Roomy lists type := by
      apply filled.ordered.roomy
      rw [filled.nelem]
      exact filled.stays
    have pushed := roomy.pushed valid
    have atIndex : ((servg.pushUnused type (index - (servg.servs type).nelem)).sArrayPush type).2 =
        (servg.iinitServ type index).entryAt type index := by
      have nelem := roomy.nelem
      rw [filled.nelem] at nelem
      simp [entryAt, ServGroup.iinitServ, below, sArrayPush_eq, ServGroup.modify, nextEntry, nelem,
        pushRoom_block]
    have group : servg.iinitServ type index =
        ((servg.pushUnused type (index - (servg.servs type).nelem)).sArrayPush type).1.modify
          ((servg.pushUnused type (index - (servg.servs type).nelem)).sArrayPush type).2
          fun entry => { entry with flags := { inConfig := true } } := by
      simp only [ServGroup.iinitServ, below, if_false]
    rw [← atIndex, group]
    have missing : IsEntry servg.servs
        ((servg.pushUnused type (index - (servg.servs type).nelem)).sArrayPush type).2 →
        servg.Unused
          ((servg.pushUnused type (index - (servg.servs type).nelem)).sArrayPush type).2 := by
      intro entry
      rw [atIndex] at entry
      exact absurd entry.index below
    refine ⟨⟨pushed.ordered.modify _, ?_, (filled.keeps.trans pushed.keeps).modify missing _,
      (filled.source.trans pushed.source).modify _, missing⟩, by simp⟩
    exact ⟨pushed.fresh.entry, pushed.fresh.unlisted, pushed.fresh.unbound⟩

/-! ## `s_servg_create_serv` -/

/-- The index of the entry `s_servg_create_serv` creates: an id that is not
positive stands for the next one. -/
def createIndex (servg : ServGroup) (type id : Int) : Nat :=
  if 0 < id then id.toNat else (servg.servs type).nelem

/-- A created entry, left out of the order. -/
structure Created (before after : ServGroup) (lists : WaitList → List ServAddr)
    (serv : ServAddr) : Prop where
  pushed : before.Pushed after lists serv
  alone : after.links.Alone serv
  flags : (after.entries serv).flags = {}

/-- Write to a new entry and initialise its links. -/
theorem Pushed.created {after : ServGroup} {serv : ServAddr} (pushed : servg.Pushed after lists serv)
    {f : SServer → SServer} (flags : ∀ entry, (f entry).flags = {}) :
    servg.Created ((after.modify serv f).listInit serv) lists serv := by
  have initialised := (pushed.ordered.modify f).listInit pushed.fresh.unlisted
  refine ⟨⟨initialised.1, ?_, (pushed.keeps.modify pushed.new f).listInit,
    pushed.source.modify f, pushed.new⟩, initialised.2, ?_⟩
  · exact ⟨pushed.fresh.entry, pushed.fresh.unlisted, pushed.fresh.unbound⟩
  · change ((after.modify serv f).entries serv).flags = {}
    rw [modify_entries_self]
    exact flags _

theorem validType_of_created {id : Int} {after : ServGroup} {serv : ServAddr}
    (created : servg.sServgCreateServ type id = some (after, serv)) : validType type = true := by
  by_contra invalid
  rw [ServGroup.sServgCreateServ, if_neg invalid] at created
  cases created

theorem Ordered.sServgCreateServ (ordered : servg.Ordered lists none) {id : Int}
    {after : ServGroup} {serv : ServAddr} (may : servg.MayCreate type (servg.createIndex type id))
    (created : servg.sServgCreateServ type id = some (after, serv)) :
    servg.Created after lists serv := by
  rw [ServGroup.sServgCreateServ] at created
  split at created
  case isFalse => cases created
  case isTrue valid =>
    split at created
    case isTrue positive =>
      rw [createIndex, if_pos positive] at may
      have pushed := (ordered.iinitServ valid may).1
      simp only [Option.some.injEq, Prod.mk.injEq] at created
      obtain ⟨rfl, rfl⟩ := created
      exact pushed.created fun _ => rfl
    case isFalse negative =>
      rw [createIndex, if_neg negative] at may
      have roomy : servg.Roomy lists type := ordered.roomy may.2
      have pushed := roomy.pushed valid
      simp only [Option.some.injEq, Prod.mk.injEq] at created
      obtain ⟨rfl, rfl⟩ := created
      exact pushed.created fun _ => rfl

end

end ServGroup

end SimpleDfs.ServerGroup
