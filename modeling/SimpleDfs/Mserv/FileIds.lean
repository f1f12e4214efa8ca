import SimpleDfs.Library.Run
import SimpleDfs.Mserv.Create

/-!
Contract: the file ids that the meta servers hand out.

Owns: the creations of files at any number of meta servers, with the records
they send each other, and which ids these creations get.

Does not own: how a meta server comes to create a file.
-/

set_option autoImplicit false

namespace SimpleDfs.Mserv

open SimpleDfs.Library

/-- The meta servers, and the records created so far with their creators. -/
structure FileWorld (Name : Type) where
  mservs : Nat → CreateServer Name
  created : List (Nat × FileMetaMetaData Name)

/-- A server creates a file, or handles a record some server has created. -/
inductive FileEvent (Name : Type) where
  | create (server : Nat) (fname : Name) (around : Surroundings)
  | learn (server index : Nat) (around : Surroundings)

section

variable {Name : Type} [DecidableEq Name]

/-- The names of the files created. -/
def FileWorld.names (world : FileWorld Name) : List Name :=
  world.created.map fun entry => entry.2.fname

/-- The ids they got. -/
def FileWorld.fileIds (world : FileWorld Name) : List Nat :=
  world.created.map fun entry => entry.2.fdesc.fileId

/-- The number of files a server has created. -/
def createdBy (created : List (Nat × FileMetaMetaData Name)) (server : Nat) : Nat :=
  (created.filter fun entry => entry.1 == server).length

def FileWorld.step (world : FileWorld Name) : FileEvent Name → Option (FileWorld Name)
  | .create server fname around =>
      (icreateFmmd around (world.mservs server) fname).map fun (after, mmd) =>
        { mservs := Function.update world.mservs server after
          created := world.created ++ [(server, mmd)] }
  | .learn server index around =>
      world.created[index]?.map fun (_, mmd) =>
        { world with
          mservs := Function.update world.mservs server
            (sCoreMservCreateMetaMetaData around (world.mservs server) mmd) }

/-- No file has been created. -/
def emptyFileWorld : FileWorld Name where
  mservs := CreateServer.init
  created := []

def fileSystem (Name : Type) [DecidableEq Name] : System (FileWorld Name) (FileEvent Name) where
  init := fun world => world = emptyFileWorld
  step := FileWorld.step

/-- A server with an id of 16 bits creates a file of a new name, and fewer than
65536 files. -/
def createsNewFile (world : FileWorld Name) : FileEvent Name → Bool
  | .create server fname _ =>
      decide (1 ≤ server ∧ server < 2 ^ 16 ∧ fname ∉ world.names ∧
        createdBy world.created server + 1 < 2 ^ 16)
  | .learn _ _ _ => true

/-! ## Which ids are given -/

omit [DecidableEq Name] in
/-- The id and the counter of a file with a new name. -/
theorem newFileDesc_new {server : CreateServer Name} {fname : Name}
    (new : server.fileMetaMetadata fname = none) (positive : 1 ≤ server.id)
    (small : server.id < 2 ^ 16) :
    newFileDesc server fname =
      some ({ fileId := 1 ||| server.fileId % 2 ^ 16, fileVersion := 1 }, server.fileId + 1) := by
  have shifted : server.id * 2 ^ 16 % 2 ^ 32 ≠ 0 := by omega
  unfold newFileDesc
  rw [new]
  dsimp only
  rw [if_neg shifted]

/-- What the creation of a file with a new name does. -/
structure NewFile (before : CreateServer Name) (fname : Name) (after : CreateServer Name)
    (mmd : FileMetaMetaData Name) : Prop where
  ident : after.id = before.id
  counter : after.fileId = before.fileId + 1
  records : after.fileMetaMetadata = Function.update before.fileMetaMetadata fname (some mmd)
  fname : mmd.fname = fname
  fileId : mmd.fdesc.fileId = 1 ||| before.fileId % 2 ^ 16

theorem newFile_icreateFmmd {around : Surroundings} {server after : CreateServer Name}
    {fname : Name} {mmd : FileMetaMetaData Name}
    (new : server.fileMetaMetadata fname = none) (positive : 1 ≤ server.id)
    (small : server.id < 2 ^ 16) (created : icreateFmmd around server fname = some (after, mmd)) :
    NewFile server fname after mmd := by
  unfold icreateFmmd at created
  rw [newFileDesc_new new positive small] at created
  cases created
  exact ⟨rfl, rfl, rfl, rfl, rfl⟩

/-- The counters of the servers, and the ids that come from them. -/
structure FileIdsKept (world : FileWorld Name) : Prop where
  ident : ∀ server, (world.mservs server).id = server
  counter : ∀ server, (world.mservs server).fileId = createdBy world.created server
  known : ∀ server fname mmd, (world.mservs server).fileMetaMetadata fname = some mmd →
    fname ∈ world.names
  ids : ∀ front entry back, world.created = front ++ entry :: back →
    entry.2.fdesc.fileId = 1 ||| createdBy front entry.1 % 2 ^ 16

omit [DecidableEq Name] in
theorem fileIdsKept_empty : FileIdsKept (emptyFileWorld : FileWorld Name) := by
  constructor
  · exact fun server => rfl
  · exact fun server => rfl
  · exact fun server fname mmd impossible => nomatch impossible
  · intro front entry back split
    have absurdLength := congrArg List.length split
    rw [List.length_append, List.length_cons] at absurdLength
    exact absurd absurdLength (by show 0 ≠ _; omega)

/-- The split of a list with one more element. -/
theorem split_concat {α : Type} {list front back : List α} {last entry : α}
    (split : list ++ [last] = front ++ entry :: back) :
    (∃ rest, list = front ++ entry :: rest) ∨ list = front ∧ last = entry := by
  rcases List.eq_nil_or_concat back with nil | ⟨rest, other, concat⟩
  · rw [nil] at split
    have parts := List.append_inj' split rfl
    exact Or.inr ⟨parts.1, List.head_eq_of_cons_eq parts.2⟩
  · left
    rw [concat, List.concat_eq_append, ← List.cons_append, ← List.append_assoc] at split
    exact ⟨rest, (List.append_inj' split rfl).1⟩

omit [DecidableEq Name] in
/-- One more file of a server. -/
theorem createdBy_concat (created : List (Nat × FileMetaMetaData Name)) (server other : Nat)
    (mmd : FileMetaMetaData Name) :
    createdBy (created ++ [(server, mmd)]) other =
      createdBy created other + if other = server then 1 else 0 := by
  unfold createdBy
  rw [List.filter_append, List.length_append]
  split
  next same => rw [List.filter_cons_of_pos (by simpa using same.symm)]; rfl
  next different =>
    rw [List.filter_cons_of_neg (by simpa using Ne.symm different)]
    rfl

theorem FileIdsKept.create {world : FileWorld Name} (kept : FileIdsKept world) {server : Nat}
    {fname : Name} {after : CreateServer Name} {mmd : FileMetaMetaData Name}
    (new : NewFile (world.mservs server) fname after mmd) :
    FileIdsKept
      { mservs := Function.update world.mservs server after
        created := world.created ++ [(server, mmd)] } := by
  have names : FileWorld.names
      { mservs := Function.update world.mservs server after
        created := world.created ++ [(server, mmd)] } = world.names ++ [fname] := by
    unfold FileWorld.names
    rw [List.map_append, List.map_singleton, new.fname]
  constructor
  · refine (Function.forall_update_iff world.mservs fun other (mserv : CreateServer Name) =>
      mserv.id = other).mpr ⟨?_, ?_⟩
    · exact new.ident.trans (kept.ident server)
    · exact fun other _ => kept.ident other
  · refine (Function.forall_update_iff world.mservs fun other (mserv : CreateServer Name) =>
      mserv.fileId = createdBy (world.created ++ [(server, mmd)]) other).mpr ⟨?_, ?_⟩
    · rw [createdBy_concat, new.counter, kept.counter, if_pos rfl]
    · intro other different
      rw [createdBy_concat, kept.counter, if_neg different]
      rfl
  · rw [names]
    refine (Function.forall_update_iff world.mservs fun _ (mserv : CreateServer Name) =>
      ∀ name record, mserv.fileMetaMetadata name = some record →
        name ∈ world.names ++ [fname]).mpr ⟨?_, ?_⟩
    · intro name record found
      rw [new.records] at found
      by_cases own : name = fname
      · exact List.mem_append_right _ (List.mem_singleton.mpr own)
      · rw [Function.update_of_ne own] at found
        exact List.mem_append_left _ (kept.known server name record found)
    · exact fun other _ name record found =>
        List.mem_append_left _ (kept.known other name record found)
  · intro front entry back split
    rcases split_concat split with ⟨rest, old⟩ | ⟨all, isLast⟩
    · exact kept.ids front entry rest old
    · rw [← isLast, ← all, ← kept.counter]
      exact new.fileId

/-- A server that handles a record hears of no new name. -/
theorem FileIdsKept.learn {world : FileWorld Name} (kept : FileIdsKept world) (server : Nat)
    (around : Surroundings) {mmd : FileMetaMetaData Name} (listed : mmd.fname ∈ world.names) :
    FileIdsKept
      { world with
        mservs := Function.update world.mservs server
          (sCoreMservCreateMetaMetaData around (world.mservs server) mmd) } := by
  constructor
  · refine (Function.forall_update_iff world.mservs fun other (mserv : CreateServer Name) =>
      mserv.id = other).mpr ⟨?_, ?_⟩
    · exact kept.ident server
    · exact fun other _ => kept.ident other
  · refine (Function.forall_update_iff world.mservs fun other (mserv : CreateServer Name) =>
      mserv.fileId = createdBy world.created other).mpr ⟨?_, ?_⟩
    · exact kept.counter server
    · exact fun other _ => kept.counter other
  · refine (Function.forall_update_iff world.mservs fun _ (mserv : CreateServer Name) =>
      ∀ name record, mserv.fileMetaMetadata name = some record → name ∈ world.names).mpr ⟨?_, ?_⟩
    · intro name record found
      unfold sCoreMservCreateMetaMetaData at found
      dsimp only at found
      by_cases own : name = mmd.fname
      · exact own ▸ listed
      · rw [Function.update_of_ne own] at found
        exact kept.known server name record found
    · exact fun other _ => kept.known other
  · exact kept.ids

theorem fileIdsKept_step {world after : FileWorld Name} {event : FileEvent Name}
    (kept : FileIdsKept world) (admitted : createsNewFile world event = true)
    (stepped : world.step event = some after) : FileIdsKept after := by
  cases event with
  | create server fname around =>
      obtain ⟨positive, small, new, _⟩ := of_decide_eq_true admitted
      have unknown : (world.mservs server).fileMetaMetadata fname = none := by
        cases found : (world.mservs server).fileMetaMetadata fname with
        | none => rfl
        | some mmd => exact absurd (kept.known server fname mmd found) new
      have ident := kept.ident server
      obtain ⟨⟨later, mmd⟩, created, same⟩ := Option.map_eq_some_iff.mp stepped
      rw [← same]
      exact kept.create
        (newFile_icreateFmmd unknown (ident.symm ▸ positive) (ident.symm ▸ small) created)
  | learn server index around =>
      obtain ⟨⟨creator, mmd⟩, found, same⟩ := Option.map_eq_some_iff.mp stepped
      rw [← same]
      apply kept.learn server around
      exact List.mem_map_of_mem (List.mem_of_getElem? found)

/-- **File ids identify files** exactly while no more than one file has been
created by all servers together: a server's id enters the file id as a truth
value, and its lowest bit covers that of the counter. -/
theorem fileIds_nodup_iff {world : FileWorld Name}
    (reached : (fileSystem Name).ReachableVia
      (fun world event => createsNewFile world event = true) world) :
    world.fileIds.Nodup ↔ world.created.length ≤ 1 := by
  have kept : FileIdsKept world := by
    apply reached.invariant FileIdsKept
    · intro start initial
      rw [initial]
      exact fileIdsKept_empty
    · intro before event after _ kept admitted stepped
      exact fileIdsKept_step kept admitted stepped
  unfold FileWorld.fileIds
  cases shape : world.created with
  | nil => simp
  | cons first rest =>
      cases rest with
      | nil => simp
      | cons second rest =>
          have firstId := kept.ids [] first (second :: rest) shape
          have secondId := kept.ids [first] second rest shape
          have few : createdBy [first] second.1 ≤ 1 := List.length_filter_le _ _
          have isOne : second.2.fdesc.fileId = 1 := by
            rw [secondId]
            rcases Nat.le_one_iff_eq_zero_or_eq_one.mp few with none | one
            · rw [none]
              rfl
            · rw [one]
              rfl
          have isOneToo : first.2.fdesc.fileId = 1 := by
            rw [firstId]
            simp [createdBy]
          have long : ¬ (first :: second :: rest).length ≤ 1 := by
            rw [List.length_cons, List.length_cons]
            omega
          refine iff_of_false ?_ long
          intro distinct
          apply (List.nodup_cons.mp distinct).1
          show first.2.fdesc.fileId ∈ _
          rw [isOneToo, ← isOne]
          exact List.mem_cons_self

end

/-- Server 1 creates file 7. -/
def oneFileWorld : FileWorld Nat :=
  (fileSystem Nat).outcome emptyFileWorld
    [.create 1 7
      { mservs := [], dservs := [], mservActive := fun _ => false, dservActive := fun _ => false
        clientActive := fun _ => true, strayFlags := 0, freshFlags := 0
        freshMservs := fun _ => 0, blockNum := fun _ => 1 }]

theorem fileIds_nodup_iff_one : oneFileWorld.fileIds.Nodup ↔ oneFileWorld.created.length ≤ 1 :=
  fileIds_nodup_iff (System.reachableVia_outcome rfl _ (by decide +kernel))

/-- Servers 1 and 2 create a file each. -/
def twoFilesWorld : FileWorld Nat :=
  (fileSystem Nat).outcome emptyFileWorld
    ([(1, 7), (2, 8)].map fun (server, fname) => .create server fname
      { mservs := [], dservs := [], mservActive := fun _ => false, dservActive := fun _ => false
        clientActive := fun _ => true, strayFlags := 0, freshFlags := 0
        freshMservs := fun _ => 0, blockNum := fun _ => 1 })

/-- The first files of two servers have one id. -/
theorem not_always_fileIds_nodup :
    ¬ ∀ world : FileWorld Nat, (fileSystem Nat).ReachableVia
      (fun world event => createsNewFile world event = true) world → world.fileIds.Nodup := by
  intro always
  have reached : (fileSystem Nat).ReachableVia
      (fun world event => createsNewFile world event = true) twoFilesWorld :=
    System.reachableVia_outcome rfl _ (by decide +kernel)
  have distinct := always twoFilesWorld reached
  revert distinct
  decide +kernel

end SimpleDfs.Mserv
