import Mathlib.Data.List.AList
import Mathlib.Data.List.Perm.Basic

/-!
Contract: finite tables and the order in which a table is iterated.

Owns: `Table`, a finite map in the sense of Mathlib's association lists, and
`IterOrder`, an arbitrary arrangement of a table's keys.

A hash table fixes the order of its iteration by the layout of its nodes.  The
users of a table take that order as an argument, so that what they prove holds
for every layout.

Does not own: how a hash table stores its nodes.
-/

set_option autoImplicit false

namespace SimpleDfs.Library

/-- A finite map from keys to values. -/
abbrev Table (Key Value : Type) := AList (fun _ : Key => Value)

namespace Table

variable {Key Value Other : Type}

theorem keys_map_entries (f : Value → Other) (entries : List (Sigma fun _ : Key => Value)) :
    (entries.map fun entry => (⟨entry.1, f entry.2⟩ : Sigma fun _ : Key => Other)).keys =
      entries.keys := by
  simp [List.keys, Function.comp_def]

/-- Apply a function to every value. -/
def mapValues (table : Table Key Value) (f : Value → Other) : Table Key Other where
  entries := table.entries.map fun entry => ⟨entry.1, f entry.2⟩
  nodupKeys := by
    rw [List.NodupKeys, keys_map_entries]
    exact table.nodupKeys

/-- A value found where each is changed, with its key at hand, is the one found
before, changed. -/
theorem dlookup_map_entries [DecidableEq Key] (f : Key → Value → Other)
    (entries : List (Sigma fun _ : Key => Value)) (key : Key) :
    List.dlookup key
        (entries.map fun entry => (⟨entry.1, f entry.1 entry.2⟩ : Sigma fun _ : Key => Other)) =
      (List.dlookup key entries).map (f key) := by
  induction entries with
  | nil => rfl
  | cons head tail inductionHypothesis =>
      obtain ⟨first, value⟩ := head
      rw [List.map_cons]
      by_cases same : first = key
      · subst same
        rw [List.dlookup_cons_eq, List.dlookup_cons_eq]
        rfl
      · rw [List.dlookup_cons_ne _ _ (Ne.symm same), List.dlookup_cons_ne _ _ (Ne.symm same)]
        exact inductionHypothesis

theorem lookup_mapValues [DecidableEq Key] (table : Table Key Value) (f : Value → Other) (key : Key) :
    (table.mapValues f).lookup key = (table.lookup key).map f :=
  dlookup_map_entries (fun _ => f) table.entries key

@[simp] theorem mem_mapValues (table : Table Key Value) (f : Value → Other) (key : Key) :
    key ∈ table.mapValues f ↔ key ∈ table := by
  show key ∈ (table.mapValues f).entries.keys ↔ key ∈ table.entries.keys
  unfold mapValues
  rw [keys_map_entries]

theorem mapValues_mapValues {Last : Type} (table : Table Key Value) (f : Value → Other)
    (g : Other → Last) : (table.mapValues f).mapValues g = table.mapValues fun value => g (f value) := by
  apply AList.ext
  exact List.map_map

/-! ## Values replaced in place -/

/-- Apply a function to the values of the keys that pass a test. -/
def mapWhere (table : Table Key Value) (test : Key → Bool) (f : Value → Value) :
    Table Key Value where
  entries := table.entries.map fun entry => ⟨entry.1, if test entry.1 then f entry.2 else entry.2⟩
  nodupKeys := by
    rw [List.NodupKeys, List.keys, List.map_map]
    exact table.nodupKeys

theorem mapWhere_none (table : Table Key Value) (f : Value → Value) :
    table.mapWhere (fun _ => false) f = table :=
  AList.ext (List.map_id table.entries)

theorem mapWhere_all {table : Table Key Value} {test : Key → Bool} (f : Value → Value)
    (all : ∀ key ∈ table, test key = true) : table.mapWhere test f = table.mapValues f := by
  apply AList.ext
  apply List.map_congr_left
  intro entry member
  have passes : test entry.1 = true := all entry.1 (List.mem_map.mpr ⟨entry, member, rfl⟩)
  rw [if_pos passes]

theorem lookup_mapWhere [DecidableEq Key] (table : Table Key Value) (test : Key → Bool)
    (f : Value → Value) (key : Key) :
    (table.mapWhere test f).lookup key =
      (table.lookup key).map fun value => if test key then f value else value :=
  dlookup_map_entries (fun key value => if test key then f value else value) table.entries key

theorem kreplace_cons_eq [DecidableEq Key] (key : Key) (value old : Value)
    (tail : List (Sigma fun _ : Key => Value)) :
    @List.kreplace Key (fun _ => Value) _ key value (⟨key, old⟩ :: tail) = ⟨key, value⟩ :: tail := by
  unfold List.kreplace
  apply List.lookmap_cons_some
  exact if_pos rfl

theorem kreplace_cons_ne [DecidableEq Key] {key first : Key} (value old : Value)
    (tail : List (Sigma fun _ : Key => Value)) (other : key ≠ first) :
    @List.kreplace Key (fun _ => Value) _ key value (⟨first, old⟩ :: tail) =
      ⟨first, old⟩ :: @List.kreplace Key (fun _ => Value) _ key value tail := by
  unfold List.kreplace
  apply List.lookmap_cons_none
  exact if_neg other

theorem kreplace_map_entries [DecidableEq Key] {test : Key → Bool} {f : Value → Value} {key : Key}
    {value : Value} :
    ∀ entries : List (Sigma fun _ : Key => Value), entries.NodupKeys →
      List.dlookup key entries = some value →
      @List.kreplace Key (fun _ => Value) _ key (f value)
          (entries.map fun entry => ⟨entry.1, if test entry.1 then f entry.2 else entry.2⟩) =
        entries.map fun entry =>
          ⟨entry.1, if test entry.1 || decide (entry.1 = key) then f entry.2 else entry.2⟩
  | [], _, present => nomatch present
  | ⟨first, old⟩ :: tail, nodup, present => by
      obtain ⟨absent, rest⟩ := List.nodupKeys_cons.mp nodup
      rw [List.map_cons, List.map_cons]
      by_cases same : first = key
      · subst same
        rw [List.dlookup_cons_eq] at present
        cases present
        rw [kreplace_cons_eq]
        congr 1
        · simp
        · apply List.map_congr_left
          intro entry member
          have other : entry.1 ≠ first := by
            intro isFirst
            exact absent (isFirst ▸ List.mem_map.mpr ⟨entry, member, rfl⟩)
          simp [other]
      · rw [List.dlookup_cons_ne _ _ (Ne.symm same)] at present
        have later := @kreplace_map_entries _ test f _ _ tail rest present
        rw [kreplace_cons_ne _ _ _ (Ne.symm same), later]
        congr 1
        simp [same]

/-- The value of one more key replaced. -/
theorem replace_mapWhere [DecidableEq Key] {table : Table Key Value} {test : Key → Bool}
    {f : Value → Value} {key : Key} {value : Value} (found : table.lookup key = some value) :
    AList.replace key (f value) (table.mapWhere test f) =
      table.mapWhere (fun other => test other || decide (other = key)) f :=
  AList.ext (kreplace_map_entries table.entries table.nodupKeys found)

/-! ## Tables that are written to -/

section

variable [DecidableEq Key] (R : Value → Value → Prop) (fresh : Key → Value → Prop)

/-- No key is lost: the value of an old key is related to the one it had, and
a new key has a fresh value. -/
structure Continues (before after : Table Key Value) : Prop where
  kept : ∀ key value, before.lookup key = some value →
    ∃ later, after.lookup key = some later ∧ R value later
  source : ∀ key later, after.lookup key = some later →
    (∃ value, before.lookup key = some value ∧ R value later) ∨
      before.lookup key = none ∧ fresh key later

variable {R fresh} {before after : Table Key Value}

theorem Continues.refl (reflexive : ∀ value, R value value) (table : Table Key Value) :
    Continues R fresh table table :=
  ⟨fun _ value found => ⟨value, found, reflexive value⟩,
    fun _ value found => Or.inl ⟨value, found, reflexive value⟩⟩

theorem Continues.trans {last : Table Key Value}
    (transitive : ∀ {first second third}, R first second → R second third → R first third)
    (stays : ∀ {key value later}, fresh key value → R value later → fresh key later)
    (early : Continues R fresh before after) (late : Continues R fresh after last) :
    Continues R fresh before last := by
  constructor
  · intro key value found
    obtain ⟨middle, foundMiddle, first⟩ := early.kept key value found
    obtain ⟨later, foundLater, second⟩ := late.kept key middle foundMiddle
    exact ⟨later, foundLater, transitive first second⟩
  · intro key later found
    rcases late.source key later found with ⟨middle, foundMiddle, second⟩ | ⟨absent, new⟩
    · rcases early.source key middle foundMiddle with ⟨value, foundValue, first⟩ | ⟨absent, new⟩
      · exact Or.inl ⟨value, foundValue, transitive first second⟩
      · exact Or.inr ⟨absent, stays new second⟩
    · cases atStart : before.lookup key with
      | none => exact Or.inr ⟨rfl, new⟩
      | some value =>
          obtain ⟨middle, foundMiddle, _⟩ := early.kept key value atStart
          exact nomatch absent.symm.trans foundMiddle

/-- Write to a key that is present. -/
theorem Continues.insert_present (reflexive : ∀ value, R value value) {key : Key}
    {value later : Value} (found : before.lookup key = some value) (related : R value later) :
    Continues R fresh before (before.insert key later) := by
  constructor
  · intro other present foundOther
    by_cases same : other = key
    · subst same
      have equal := Option.some.inj (foundOther.symm.trans found)
      exact ⟨later, AList.lookup_insert _, equal ▸ related⟩
    · exact ⟨present, (AList.lookup_insert_ne same).trans foundOther, reflexive present⟩
  · intro other present foundOther
    by_cases same : other = key
    · subst same
      have equal := Option.some.inj ((AList.lookup_insert _).symm.trans foundOther)
      exact Or.inl ⟨value, found, equal ▸ related⟩
    · rw [AList.lookup_insert_ne same] at foundOther
      exact Or.inl ⟨present, foundOther, reflexive present⟩

/-- Write to a key that is absent. -/
theorem Continues.insert_absent (reflexive : ∀ value, R value value) {key : Key} {later : Value}
    (absent : before.lookup key = none) (new : fresh key later) :
    Continues R fresh before (before.insert key later) := by
  constructor
  · intro other present foundOther
    have different : other ≠ key := by
      intro same
      subst same
      exact nomatch absent.symm.trans foundOther
    exact ⟨present, (AList.lookup_insert_ne different).trans foundOther, reflexive present⟩
  · intro other present foundOther
    by_cases same : other = key
    · subst same
      have equal := Option.some.inj ((AList.lookup_insert _).symm.trans foundOther)
      exact Or.inr ⟨absent, equal ▸ new⟩
    · rw [AList.lookup_insert_ne same] at foundOther
      exact Or.inl ⟨present, foundOther, reflexive present⟩

end

end Table

/-- An order of iteration: any arrangement of the keys that neither loses nor
repeats one. -/
structure IterOrder (Key : Type) where
  arrange : List Key → List Key
  arrange_perm : ∀ keys, (arrange keys).Perm keys

namespace IterOrder

variable {Key : Type}

/-- Iterate in the order of insertion, newest first. -/
def natural : IterOrder Key where
  arrange := id
  arrange_perm := fun keys => List.Perm.refl keys

@[simp] theorem mem_arrange (order : IterOrder Key) (keys : List Key) (key : Key) :
    key ∈ order.arrange keys ↔ key ∈ keys :=
  (order.arrange_perm keys).mem_iff

end IterOrder

end SimpleDfs.Library
