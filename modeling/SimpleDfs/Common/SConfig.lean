import Mathlib.Data.List.Basic
import SimpleDfs.Common.ConfigScan
import SimpleDfs.Common.SArray
import SimpleDfs.Wire.Abi

/-!
Contract: the configuration that `s_config_create` returns (`common/s_config.c`,
`fs/s_file_reader.c`).

Owns: the length the file reader gives, the arrays of regions and elements, and
what they hold when regions and elements are pushed.

Does not own: the scanner, or the texts it scans.
-/

set_option autoImplicit false

namespace SimpleDfs.Common

open Library
open Wire (Abi)

/-! ## The configuration -/

/-- `struct config_region`, with the keys and values of its elements. -/
structure ConfigRegion where
  key : List UInt8
  elems : SArray (List UInt8 × List UInt8)

/-- `struct s_config`: `config->regions`. The last one is `region`. -/
abbrev SConfig := SArray ConfigRegion

/-- `sizeof(struct config_region)`: two pointers. -/
def sizeofConfigRegion (abi : Abi) : Nat := 2 * abi.pointerSize

/-- `sizeof(struct config_elem)`: two pointers and the flags. -/
def sizeofConfigElem (abi : Abi) : Nat := 3 * abi.pointerSize

/-- A new region, which is the current one. -/
def pushRegion (abi : Abi) (config : SConfig) (key : List UInt8) : Option SConfig := do
  let elems ← sArrayCreate (sizeofConfigElem abi) 16
  sArrayPush config { key := key, elems := elems }

/-- A new element of the current region. -/
def pushElem (config : SConfig) (key val : List UInt8) : Option SConfig :=
  match config.elems.getLast? with
  | none => none
  | some region => do
      let elems ← sArrayPush region.elems (key, val)
      return { config with
        elems := config.elems.dropLast ++ [{ region with elems := elems }] }

/-- The arrays of the scanner. There is no configuration once C does not say
what the arrays hold. -/
def configArrays (abi : Abi) : ConfigArrays (Option SConfig) where
  pushRegion := fun config key => some (config.bind fun config => pushRegion abi config key)
  pushElem := fun config key val => some (config.bind fun config => pushElem config key val)

/-- The name `default`. -/
def defaultName : List UInt8 := [100, 101, 102, 97, 117, 108, 116]

/-- The configuration in front of the loop. -/
def defaultConfig (abi : Abi) : Option SConfig := do
  let config ← sArrayCreate (sizeofConfigRegion abi) 16
  pushRegion abi config defaultName

/-- `s_file_reader_create`, for a file that can be opened and mapped: the size
of the file as an `int`. -/
def sFileReaderCreate (file : List UInt8) : Option Nat :=
  let sz := (file.length : Int).bmod (2 ^ 32)
  if sz ≤ 0 then none else some sz.toNat

/-- The loop of `s_config_create` and its ends: the inner `none` is a null
pointer, the outer one stands where C does not say what becomes of the arrays. -/
def sConfigScan (abi : Abi) (p : Nat → UInt8) (len : Nat) : Option (Option SConfig) :=
  let ended := (Scanner.turn (configArrays abi) p len)^[Scanner.enough len]
    (Scanner.atStart (defaultConfig abi))
  if ended.point = .eof then ended.config.map some else ended.config.map fun _ => none

/-- `s_config_create`, which returns a null pointer for a file that cannot be
read. -/
def sConfigCreate (abi : Abi) (file : List UInt8) : Option (Option SConfig) :=
  (sFileReaderCreate file).elim (some none) (sConfigScan abi fun i => file.getD i 0)

/-! ## What the arrays hold -/

/-- The names of the regions, each with its keys and values. -/
def SConfig.contents (config : SConfig) : List (List UInt8 × List (List UInt8 × List UInt8)) :=
  config.elems.map fun region => (region.key, region.elems.elems)

/-- The doublings that an array of regions, or of elements, has room for. -/
def configLimit : Abi → Nat
  | .ilp32 => 27
  | .lp64 => 26

/-- The arrays of regions and of the current elements have their room. -/
structure SConfig.Roomy (abi : Abi) (config : SConfig) (region : ConfigRegion) : Prop where
  regions : Common.Roomy (configLimit abi) config
  current : config.elems.getLast? = some region
  elems : Common.Roomy (configLimit abi) region.elems

variable {abi : Abi} {config : SConfig} {region : ConfigRegion}

theorem roomy_newElems (abi : Abi) :
    ∃ elems : SArray (List UInt8 × List UInt8),
      sArrayCreate (sizeofConfigElem abi) 16 = some elems ∧
      Common.Roomy (configLimit abi) elems ∧ elems.elems = [] := by
  apply roomy_create
  · cases abi <;> decide
  · cases abi <;> decide
  · cases abi <;> decide

/-- A region behind the others, as long as there is room for one. -/
theorem pushRegion_of_room (roomy : Common.Roomy (configLimit abi) config) (key : List UInt8)
    (below : config.elems.length < 2 ^ configLimit abi) :
    ∃ (after : SConfig) (region : ConfigRegion), pushRegion abi config key = some after ∧
      SConfig.Roomy abi after region ∧ region.elems.elems = [] ∧
      after.elems.length = config.elems.length + 1 ∧
      after.contents = config.contents ++ [(key, [])] := by
  obtain ⟨elems, created, elemsRoomy, none⟩ := roomy_newElems abi
  obtain ⟨after, pushed, afterRoomy, holds⟩ := roomy.push { key := key, elems := elems } below
  refine ⟨after, { key := key, elems := elems }, ?_, ⟨afterRoomy, ?_, elemsRoomy⟩, none, ?_, ?_⟩
  · unfold pushRegion
    rw [created]
    exact pushed
  · rw [holds, List.getLast?_concat]
  · rw [holds, List.length_append, List.length_singleton]
  · unfold SConfig.contents
    rw [holds, List.map_append, List.map_cons, List.map_nil, none]

theorem pushRegion_of_full (roomy : Common.Roomy (configLimit abi) config) (key : List UInt8)
    (full : config.elems.length = 2 ^ configLimit abi) : pushRegion abi config key = none := by
  obtain ⟨elems, created, _, _⟩ := roomy_newElems abi
  unfold pushRegion
  rw [created]
  exact roomy.push_none _ full

/-- An element behind those of the last region, as long as there is room for
one. -/
theorem pushElem_of_room (roomy : SConfig.Roomy abi config region) (key val : List UInt8)
    (below : region.elems.elems.length < 2 ^ configLimit abi) :
    ∃ (after : SConfig) (newer : ConfigRegion), pushElem config key val = some after ∧
      SConfig.Roomy abi after newer ∧
      newer.key = region.key ∧ newer.elems.elems = region.elems.elems ++ [(key, val)] ∧
      after.elems.length = config.elems.length ∧
      after.elems.dropLast = config.elems.dropLast := by
  obtain ⟨elems, pushed, elemsRoomy, holds⟩ := roomy.elems.push (key, val) below
  have some := List.getLast?_eq_some_iff.mp roomy.current
  obtain ⟨front, split⟩ := some
  have length : (config.elems.dropLast ++ [{ region with elems := elems }]).length =
      config.elems.length := by
    rw [split, List.dropLast_concat, List.length_append, List.length_append]
    rfl
  refine ⟨{ config with elems := config.elems.dropLast ++ [{ region with elems := elems }] },
    { region with elems := elems }, ?_, ⟨?_, List.getLast?_concat, elemsRoomy⟩, rfl, holds,
    length, List.dropLast_concat⟩
  · unfold pushElem
    rw [roomy.current]
    dsimp only
    rw [pushed]
    rfl
  · obtain ⟨power, inside, fits, greatest⟩ := roomy.regions
    exact ⟨power, length.trans_le inside, fits, greatest⟩

theorem pushElem_of_full (roomy : SConfig.Roomy abi config region) (key val : List UInt8)
    (full : region.elems.elems.length = 2 ^ configLimit abi) : pushElem config key val = none := by
  unfold pushElem
  rw [roomy.current]
  dsimp only
  rw [roomy.elems.push_none (key, val) full]
  rfl

end SimpleDfs.Common
