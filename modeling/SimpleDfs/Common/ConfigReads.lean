import SimpleDfs.Common.ConfigCut
import SimpleDfs.Common.SConfig

/-!
Contract: the configuration that `s_config_create` returns for a rendering of a
document (`common/s_config.c`).

Owns: how many regions and entries the arrays take, and exactly the documents
that are read back.

Does not own: what the values mean.
-/

set_option autoImplicit false

namespace SimpleDfs.Common

open Library
open Wire (Abi)

/-! ## Documents as regions with keys and values -/

/-- A name with keys and values, as a configuration holds them. -/
abbrev RegionText := List UInt8 × List (List UInt8 × List UInt8)

def ConfigEntry.texts (entry : ConfigEntry) : List UInt8 × List UInt8 :=
  (entry.key.text, entry.value.text)

def ConfigSection.texts (region : ConfigSection) : RegionText :=
  (region.name.text, region.entries.map ConfigEntry.texts)

/-- The region `default`, and the others. -/
def ConfigDocument.contents (document : ConfigDocument) : List RegionText :=
  (defaultName, document.entries.map ConfigEntry.texts) ::
    document.regions.map ConfigSection.texts

/-- The arrays have room for the regions, and for the entries of each. -/
structure ConfigDocument.Fits (abi : Abi) (document : ConfigDocument) : Prop where
  regions : document.contents.length ≤ 2 ^ configLimit abi
  entries : ∀ region ∈ document.contents, region.2.length ≤ 2 ^ configLimit abi

/-- Elements of the current region. -/
def addPairs (config : Option SConfig) (pairs : List (List UInt8 × List UInt8)) : Option SConfig :=
  pairs.foldl (fun config pair => config.bind fun config => pushElem config pair.1 pair.2) config

/-- A region with its elements. -/
def addRegion (abi : Abi) (config : Option SConfig) (region : RegionText) : Option SConfig :=
  addPairs (config.bind fun config => pushRegion abi config region.1) region.2

/-- The pieces of a text do to the arrays what their document says. -/
theorem performAll_eq (abi : Abi) (items : List ConfigItem) :
    ∀ config, performAll (configArrays abi) items config =
      some (((documentOf items).regions.map ConfigSection.texts).foldl (addRegion abi)
        (addPairs config ((documentOf items).entries.map ConfigEntry.texts))) := by
  induction items with
  | nil => exact fun _ => rfl
  | cons item items inductionHypothesis =>
      intro config
      cases item with
      | blank c => exact inductionHypothesis config
      | comment text newline => exact inductionHypothesis config
      | header name gap =>
          exact inductionHypothesis (config.bind fun config => pushRegion abi config name.text)
      | entry pair gap between behind =>
          exact inductionHypothesis
            (config.bind fun config => pushElem config pair.key.text pair.value.text)

/-! ## What the arrays take -/

section

variable {abi : Abi} {config : SConfig} {region : ConfigRegion}

@[simp] theorem addPairs_none (pairs : List (List UInt8 × List UInt8)) :
    addPairs none pairs = none := by
  induction pairs with
  | nil => rfl
  | cons pair pairs inductionHypothesis => exact inductionHypothesis

theorem addRegions_none (abi : Abi) (regions : List RegionText) :
    regions.foldl (addRegion abi) none = none := by
  induction regions with
  | nil => rfl
  | cons region regions inductionHypothesis =>
      rw [List.foldl_cons, addRegion, Option.bind_none, addPairs_none]
      exact inductionHypothesis

/-- The current region is the last one. -/
theorem SConfig.Roomy.contents (roomy : SConfig.Roomy abi config region) :
    config.contents = (config.elems.dropLast.map fun region => (region.key, region.elems.elems)) ++
      [(region.key, region.elems.elems)] := by
  obtain ⟨front, split⟩ := List.getLast?_eq_some_iff.mp roomy.current
  unfold SConfig.contents
  rw [split, List.dropLast_concat, List.map_append]
  rfl

/-- Elements that have room stand behind those of the current region. -/
theorem addPairs_of_room (pairs : List (List UInt8 × List UInt8)) :
    ∀ {config : SConfig} {region : ConfigRegion}, SConfig.Roomy abi config region →
      region.elems.elems.length + pairs.length ≤ 2 ^ configLimit abi →
      ∃ (after : SConfig) (newer : ConfigRegion), addPairs (some config) pairs = some after ∧
        SConfig.Roomy abi after newer ∧ newer.key = region.key ∧
        newer.elems.elems = region.elems.elems ++ pairs ∧
        after.elems.length = config.elems.length ∧
        after.elems.dropLast = config.elems.dropLast := by
  induction pairs with
  | nil =>
      intro config region roomy _
      exact ⟨config, region, rfl, roomy, rfl, (List.append_nil _).symm, rfl, rfl⟩
  | cons pair pairs inductionHypothesis =>
      intro config region roomy fits
      rw [List.length_cons] at fits
      obtain ⟨between, newer, pushed, stillRoomy, key, holds, length, front⟩ :=
        pushElem_of_room roomy pair.1 pair.2 (by omega)
      obtain ⟨after, newest, added, lastRoomy, sameKey, holdsAll, sameLength, sameFront⟩ :=
        inductionHypothesis stillRoomy (by
          rw [holds, List.length_append, List.length_singleton]
          omega)
      refine ⟨after, newest, ?_, lastRoomy, sameKey.trans key, ?_, sameLength.trans length,
        sameFront.trans front⟩
      · rw [addPairs, List.foldl_cons, Option.bind_some, pushed]
        exact added
      · rw [holdsAll, holds, List.append_assoc]
        rfl

/-- One element too many ends it. -/
theorem addPairs_of_full (pairs : List (List UInt8 × List UInt8)) :
    ∀ {config : SConfig} {region : ConfigRegion}, SConfig.Roomy abi config region →
      2 ^ configLimit abi < region.elems.elems.length + pairs.length →
      addPairs (some config) pairs = none := by
  induction pairs with
  | nil =>
      intro config region roomy large
      have least := roomy.elems.length_le
      rw [List.length_nil] at large
      omega
  | cons pair pairs inductionHypothesis =>
      intro config region roomy large
      rw [addPairs, List.foldl_cons, Option.bind_some]
      rcases Nat.lt_or_eq_of_le roomy.elems.length_le with below | full
      · obtain ⟨between, newer, pushed, stillRoomy, _, holds, _, _⟩ :=
          pushElem_of_room roomy pair.1 pair.2 below
        rw [pushed]
        refine inductionHypothesis stillRoomy ?_
        rw [List.length_cons] at large
        rw [holds, List.length_append, List.length_singleton]
        omega
      · rw [pushElem_of_full roomy pair.1 pair.2 full]
        exact addPairs_none pairs

/-- A region with its elements stands behind the others. -/
theorem addRegion_of_room (roomy : Common.Roomy (configLimit abi) config) (region : RegionText)
    (below : config.elems.length < 2 ^ configLimit abi)
    (fits : region.2.length ≤ 2 ^ configLimit abi) :
    ∃ after : SConfig, addRegion abi (some config) region = some after ∧
      Common.Roomy (configLimit abi) after ∧ after.elems.length = config.elems.length + 1 ∧
      after.contents = config.contents ++ [region] := by
  obtain ⟨between, current, pushed, betweenRoomy, none, length, holds⟩ :=
    pushRegion_of_room roomy region.1 below
  obtain ⟨after, newer, added, afterRoomy, key, elems, sameLength, front⟩ :=
    addPairs_of_room region.2 betweenRoomy (by
      rw [none, List.length_nil, Nat.zero_add]
      exact fits)
  refine ⟨after, ?_, afterRoomy.regions, sameLength.trans length, ?_⟩
  · rw [addRegion, Option.bind_some, pushed]
    exact added
  · have before := betweenRoomy.contents
    rw [holds, none] at before
    obtain ⟨names, last⟩ := List.append_inj' before rfl
    have name : current.key = region.1 := (Prod.mk.inj (List.cons.inj last).1).1.symm
    rw [afterRoomy.contents, front, ← names, key, elems, none, name]
    rfl

theorem addRegion_of_full (roomy : Common.Roomy (configLimit abi) config) (region : RegionText)
    (large : config.elems.length = 2 ^ configLimit abi ∨ 2 ^ configLimit abi < region.2.length) :
    addRegion abi (some config) region = none := by
  rw [addRegion, Option.bind_some]
  rcases Nat.lt_or_eq_of_le roomy.length_le with below | full
  · obtain ⟨between, current, pushed, betweenRoomy, none, _, _⟩ :=
      pushRegion_of_room roomy region.1 below
    rw [pushed]
    refine addPairs_of_full region.2 betweenRoomy ?_
    rw [none, List.length_nil]
    omega
  · rw [pushRegion_of_full roomy region.1 full]
    exact addPairs_none region.2

/-- **The arrays hold the regions in order if they have room for them.** -/
theorem addRegions_of_room (regions : List RegionText) :
    ∀ {config : SConfig}, Common.Roomy (configLimit abi) config →
      config.elems.length + regions.length ≤ 2 ^ configLimit abi →
      (∀ region ∈ regions, region.2.length ≤ 2 ^ configLimit abi) →
      ∃ after : SConfig, regions.foldl (addRegion abi) (some config) = some after ∧
        after.contents = config.contents ++ regions := by
  induction regions with
  | nil => exact fun {config} _ _ _ => ⟨config, rfl, (List.append_nil _).symm⟩
  | cons region regions inductionHypothesis =>
      intro config roomy fits each
      rw [List.length_cons] at fits
      obtain ⟨between, added, betweenRoomy, length, holds⟩ :=
        addRegion_of_room roomy region (by omega) (each region List.mem_cons_self)
      obtain ⟨after, others, holdsAll⟩ := inductionHypothesis betweenRoomy (by omega)
        (fun region member => each region (List.mem_cons_of_mem _ member))
      refine ⟨after, ?_, ?_⟩
      · rw [List.foldl_cons, added]
        exact others
      · rw [holdsAll, holds, List.append_assoc]
        rfl

/-- What the arrays take has room in them. -/
theorem room_of_addRegions (regions : List RegionText) :
    ∀ {config after : SConfig}, Common.Roomy (configLimit abi) config →
      regions.foldl (addRegion abi) (some config) = some after →
      config.elems.length + regions.length ≤ 2 ^ configLimit abi ∧
        ∀ region ∈ regions, region.2.length ≤ 2 ^ configLimit abi := by
  induction regions with
  | nil =>
      intro config after roomy _
      exact ⟨roomy.length_le, fun region member => absurd member List.not_mem_nil⟩
  | cons region regions inductionHypothesis =>
      intro config after roomy added
      rw [List.foldl_cons] at added
      by_cases large :
          config.elems.length = 2 ^ configLimit abi ∨ 2 ^ configLimit abi < region.2.length
      · rw [addRegion_of_full roomy region large, addRegions_none] at added
        cases added
      · obtain ⟨notFull, fits⟩ := not_or.mp large
        have least := roomy.length_le
        obtain ⟨between, first, betweenRoomy, length, _⟩ :=
          addRegion_of_room roomy region (by omega) (Nat.not_lt.mp fits)
        rw [first] at added
        obtain ⟨rest, others⟩ := inductionHypothesis betweenRoomy added
        refine ⟨by rw [List.length_cons]; omega, fun other member => ?_⟩
        rcases List.mem_cons.mp member with here | behind
        · rw [here]
          exact Nat.not_lt.mp fits
        · exact others other behind

end

/-! ## Reading a document back -/

/-- The size of a file as an `int`. -/
def intSize (file : List UInt8) : Int :=
  (file.length : Int).bmod (2 ^ 32)

section

variable {file : List UInt8}

theorem sFileReaderCreate_of_pos (positive : 0 < intSize file) :
    sFileReaderCreate file = some (intSize file).toNat := by
  unfold intSize at positive ⊢
  unfold sFileReaderCreate
  dsimp only
  rw [if_neg (Int.not_le.mpr positive)]

theorem sFileReaderCreate_of_nonpos (nonpositive : intSize file ≤ 0) :
    sFileReaderCreate file = none := by
  unfold intSize at nonpositive
  unfold sFileReaderCreate
  dsimp only
  rw [if_pos nonpositive]

theorem intSize_le (file : List UInt8) : (intSize file).toNat ≤ file.length := by
  unfold intSize Int.bmod
  dsimp only
  split <;> omega

theorem intSize_of_small (small : file.length < 2 ^ 31) : intSize file = file.length :=
  Int.bmod_eq_of_le (by omega) (by omega)

/-- A size of two gigabytes or more is no positive `int`, up to four. -/
theorem intSize_of_large (large : 2 ^ 31 ≤ file.length) (bounded : file.length ≤ 2 ^ 32) :
    intSize file ≤ 0 := by
  unfold intSize Int.bmod
  dsimp only
  split <;> omega

end

/-- A region counts one, and a value its bytes. -/
def contentsWeight (regions : List RegionText) : Nat :=
  (regions.map fun region => 1 + (region.2.map fun pair => pair.2.length).sum).sum

/-- The pieces of a text weigh what its regions do, less the first of them. -/
theorem contentsWeight_documentOf (items : List ConfigItem) :
    contentsWeight (documentOf items).contents = 1 + weightOf items := by
  induction items with
  | nil => rfl
  | cons item items inductionHypothesis =>
      simp only [contentsWeight, ConfigDocument.contents, weightOf, List.map_cons,
        List.sum_cons] at inductionHypothesis ⊢
      cases item with
      | blank c => simpa only [documentOf, ConfigItem.weight, Nat.zero_add] using inductionHypothesis
      | comment text newline =>
          simpa only [documentOf, ConfigItem.weight, Nat.zero_add] using inductionHypothesis
      | header name gap =>
          simp only [documentOf, ConfigItem.weight, ConfigSection.texts, List.map_cons,
            List.map_nil, List.sum_cons, List.sum_nil]
          omega
      | entry pair gap between behind =>
          simp only [documentOf, ConfigItem.weight, ConfigEntry.texts, List.map_cons,
            List.sum_cons]
          omega

/-- An array of regions, and the configuration that a file of a text leads to. -/
theorem sConfigCreate_textOf (abi : Abi) {items : List ConfigItem}
    (positive : 0 < intSize (textOf items)) :
    ∃ config : SConfig, Common.Roomy (configLimit abi) config ∧ config.elems = [] ∧
      sConfigCreate abi (textOf items) =
        ((documentOf (seenOf items (intSize (textOf items)).toNat)).contents.foldl (addRegion abi)
          (some config)).map some := by
  obtain ⟨config, created, roomy, none⟩ :
      ∃ config : SConfig, sArrayCreate (sizeofConfigRegion abi) 16 = some config ∧
        Common.Roomy (configLimit abi) config ∧ config.elems = [] := by
    apply roomy_create
    · cases abi <;> decide
    · cases abi <;> decide
    · cases abi <;> decide
  have start : defaultConfig abi = pushRegion abi config defaultName := by
    unfold defaultConfig
    rw [created]
    rfl
  have performed := performAll_eq abi (seenOf items (intSize (textOf items)).toNat)
    (defaultConfig abi)
  obtain ⟨point, holds⟩ := Scanner.scan_cut (intSize_le (textOf items)) performed
  refine ⟨config, roomy, none, ?_⟩
  rw [sConfigCreate, sFileReaderCreate_of_pos positive, Option.elim_some, sConfigScan,
    if_pos point, holds, start]
  rfl

/-- The configuration has the region `default` with the entries in front of the
first header, and the given regions with theirs, in order. -/
def ReadsDocument (abi : Abi) (document : ConfigDocument) (text : List UInt8) : Prop :=
  ∃ config : SConfig, sConfigCreate abi text = some (some config) ∧
    config.contents = document.contents

/-- The text is a rendering of the document, with its headers and entries in the
first bytes. -/
def RendersWithin (document : ConfigDocument) (text : List UInt8) (count : Nat) : Prop :=
  ∃ items, documentOf items = document ∧ textOf items = text ∧ neededOf items ≤ count

section

variable {abi : Abi} {document : ConfigDocument} {text : List UInt8}

/-- What is seen is read, as long as the arrays have room. -/
theorem readsDocument_of_within (positive : 0 < intSize text)
    (within : RendersWithin document text (intSize text).toNat) (fits : document.Fits abi) :
    ReadsDocument abi document text := by
  obtain ⟨items, rfl, rfl, needed⟩ := within
  obtain ⟨config, roomy, none, created⟩ := sConfigCreate_textOf abi positive
  rw [documentOf_seenOf items needed] at created
  obtain ⟨after, added, holds⟩ := addRegions_of_room (documentOf items).contents roomy
    (by rw [none, List.length_nil, Nat.zero_add]; exact fits.regions) fits.entries
  refine ⟨after, ?_, ?_⟩
  · rw [created, added]
    rfl
  · rw [holds, SConfig.contents, none]
    rfl

/-- What is read is seen: less weighs less. -/
theorem within_of_readsDocument (renders : Renders document text)
    (reads : ReadsDocument abi document text) :
    0 < intSize text ∧ RendersWithin document text (intSize text).toNat ∧ document.Fits abi := by
  obtain ⟨after, created, same⟩ := reads
  have positive : 0 < intSize text := by
    by_contra nonpositive
    rw [sConfigCreate, sFileReaderCreate_of_nonpos (Int.not_lt.mp nonpositive)] at created
    cases Option.some.inj created
  obtain ⟨items, rfl, rfl⟩ := renders
  obtain ⟨config, roomy, none, seen⟩ := sConfigCreate_textOf abi positive
  rw [seen] at created
  obtain ⟨result, added, isAfter⟩ := Option.map_eq_some_iff.mp created
  obtain rfl : result = after := Option.some.inj isAfter
  obtain ⟨regions, entries⟩ := room_of_addRegions _ roomy added
  obtain ⟨_, sameAdded, holds⟩ := addRegions_of_room _ roomy regions entries
  obtain rfl := Option.some.inj (added.symm.trans sameAdded)
  rw [SConfig.contents, SConfig.contents, none, List.map_nil, List.nil_append] at holds
  rw [SConfig.contents, holds] at same
  have needed : neededOf items ≤ (intSize (textOf items)).toNat := by
    by_contra less
    have lighter := weightOf_seenOf items (Nat.not_le.mp less)
    have weights := congrArg contentsWeight same
    rw [contentsWeight_documentOf, contentsWeight_documentOf] at weights
    omega
  rw [none, List.length_nil, Nat.zero_add, same] at regions
  rw [same] at entries
  exact ⟨positive, ⟨items, rfl, rfl, needed⟩, regions, entries⟩

/-- A text shorter than two gigabytes is read to its end. -/
theorem readsDocument_of_small (renders : Renders document text) (nonempty : text ≠ [])
    (small : text.length < 2 ^ 31) (fits : document.Fits abi) :
    ReadsDocument abi document text := by
  have positive := List.length_pos_of_ne_nil nonempty
  have size := intSize_of_small small
  obtain ⟨items, sameDocument, rfl⟩ := renders
  refine readsDocument_of_within (by omega) ⟨items, sameDocument, rfl, ?_⟩ fits
  rw [size, Int.toNat_natCast]
  exact neededOf_le items

/-- **A document is read back from a rendering exactly if** the size of the text
is a positive `int`, the headers and entries stand in that many bytes, and the
arrays have room. -/
theorem readsDocument_iff (abi : Abi) (renders : Renders document text) :
    ReadsDocument abi document text ↔
      0 < intSize text ∧ RendersWithin document text (intSize text).toNat ∧ document.Fits abi :=
  ⟨within_of_readsDocument renders,
    fun ⟨positive, within, fits⟩ => readsDocument_of_within positive within fits⟩

end

/-- A value of one byte. -/
def oneByteToken (c : UInt8) (plain : isSpace c = false ∧ c ≠ 58 ∧ c ≠ 61) : ConfigToken :=
  ⟨[c], List.cons_ne_nil c [], List.forall_mem_singleton.mpr plain⟩

/-- `a = b`, and the region `c :` with `d=#`. -/
def shortItems : List ConfigItem :=
  [.entry ⟨⟨oneByteToken 97 (by decide), by decide⟩, oneByteToken 98 (by decide)⟩
      [⟨32, by decide⟩] [⟨32, by decide⟩] ⟨10, by decide⟩,
    .comment [⟨35, by decide⟩] ⟨10, by decide⟩,
    .header ⟨oneByteToken 99 (by decide), by decide⟩ [⟨32, by decide⟩],
    .entry ⟨⟨oneByteToken 100 (by decide), by decide⟩, oneByteToken 35 (by decide)⟩ [] []
      ⟨10, by decide⟩]

theorem readsDocument_short :
    ReadsDocument .lp64 (documentOf shortItems) (textOf shortItems) :=
  (readsDocument_iff .lp64 ⟨shortItems, rfl, rfl⟩).2
    ⟨by decide, ⟨shortItems, rfl, rfl, by decide⟩, by decide, by decide⟩

theorem length_textOf_blanks (blank : Blank) (count : Nat) :
    (textOf (List.replicate count (.blank blank))).length = count := by
  induction count with
  | zero => rfl
  | succ count inductionHypothesis =>
      rw [textOf, List.replicate_succ, List.flatMap_cons, List.length_append]
      rw [textOf] at inductionHypothesis
      rw [inductionHypothesis, ConfigItem.text, List.length_singleton, Nat.add_comm]

/-- `a=b` with white space up to two gigabytes. -/
theorem not_always_readsDocument :
    ¬ ∀ (abi : Abi) (document : ConfigDocument) (text : List UInt8), Renders document text →
      text ≠ [] → ReadsDocument abi document text := by
  intro always
  let space : Blank := ⟨32, by decide⟩
  let pair : ConfigEntry := ⟨⟨oneByteToken 97 (by decide), by decide⟩, oneByteToken 98 (by decide)⟩
  obtain ⟨count, size⟩ : ∃ count, 4 + count = 2 ^ 31 := ⟨2 ^ 31 - 4, rfl⟩
  let items : List ConfigItem := .entry pair [] [] space :: List.replicate count (.blank space)
  have length : (textOf items).length = 4 + count := by
    have blanks := length_textOf_blanks space count
    rw [textOf] at blanks
    rw [textOf, List.flatMap_cons, List.length_append, blanks]
    rfl
  have nonempty : textOf items ≠ [] := by
    intro empty
    rw [empty, List.length_nil] at length
    omega
  have reads := always .lp64 (documentOf items) (textOf items) ⟨items, rfl, rfl⟩ nonempty
  have positive := (within_of_readsDocument ⟨items, rfl, rfl⟩ reads).1
  have negative : intSize (textOf items) ≤ 0 := intSize_of_large (by omega) (by omega)
  omega

end SimpleDfs.Common
