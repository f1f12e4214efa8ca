import Mathlib.Data.List.Forall2
import SimpleDfs.Common.HashKey
import SimpleDfs.Common.SConfig
import SimpleDfs.Paxos.Topic
import SimpleDfs.ServerGroup.Start

/-!
Contract: what a server group reads from its configuration (`common/s_config.c`,
`s_servg_init_config` of `serv_group/s_server_group.c`).

Owns: regions and elements with the types the reads give them, the reads, the walk
over the regions, names of servers; and that all of it is the configuration of a
server group, whatever the regions are.

Does not own: the text of the configuration, or the servers of the group.
-/

set_option autoImplicit false

namespace SimpleDfs.ServerGroup

open SimpleDfs.Common

/-! ## Elements with a type -/

/-- What an element holds: `DONTKNOWN`, `INT_VALUE` or `STR_VALUE`. -/
inductive ConfigValue where
  | dontKnown (sval : List UInt8)
  | intValue (ival : Int)
  | strValue (sval : List UInt8)
  deriving DecidableEq

/-- `struct config_elem`. -/
structure ConfigElem where
  key : SString
  value : ConfigValue
  deriving DecidableEq

/-- `struct config_region`. -/
structure OpenRegion where
  key : SString
  elems : List ConfigElem
  deriving DecidableEq

/-- `struct s_config`; `currRegion` is the index of a region. -/
structure OpenConfig where
  regions : List OpenRegion
  currRegion : Option Nat
  iterCurr : Nat
  deriving DecidableEq

/-- `atoi` of the bytes of a string. -/
def atoiText (text : List UInt8) : Int :=
  Paxos.atoi (text.map UInt8.toNat)

/-- The loop of `s_config_read_int`. -/
def readIntElems (key : SString) : List ConfigElem → Int × List ConfigElem
  | [] => (-1, [])
  | elem :: rest =>
      if sStringEqual elem.key key then
        match elem.value with
        | .intValue ival => (ival, elem :: rest)
        | .dontKnown sval =>
            (atoiText sval, { elem with value := .intValue (atoiText sval) } :: rest)
        | .strValue _ => (-1, elem :: rest)
      else
        let (value, rest) := readIntElems key rest
        (value, elem :: rest)

/-- The loop of `s_config_read_string`. -/
def readStringElems (key : SString) : List ConfigElem → Option (List UInt8) × List ConfigElem
  | [] => (none, [])
  | elem :: rest =>
      if sStringEqual elem.key key then
        match elem.value with
        | .strValue sval => (some sval, elem :: rest)
        | .dontKnown sval => (some sval, { elem with value := .strValue sval } :: rest)
        | .intValue _ => (none, elem :: rest)
      else
        let (value, rest) := readStringElems key rest
        (value, elem :: rest)

namespace OpenConfig

/-- `s_config_select_region`. -/
def selectRegion (config : OpenConfig) (name : SString) : Int × OpenConfig :=
  match config.regions.findIdx? fun region => sStringEqual region.key name with
  | some index => (1, { config with currRegion := some index })
  | none => (0, config)

/-- A loop over the elements of the current region; `missing` without one. -/
def readCurrent {Value : Type} (config : OpenConfig) (missing : Value)
    (read : List ConfigElem → Value × List ConfigElem) : Value × OpenConfig :=
  match config.currRegion with
  | none => (missing, config)
  | some index =>
      match config.regions[index]? with
      | none => (missing, config)
      | some region =>
          let (value, elems) := read region.elems
          (value,
            { config with regions := config.regions.set index { region with elems := elems } })

/-- `s_config_read_int`. -/
def readInt (config : OpenConfig) (key : SString) : Int × OpenConfig :=
  config.readCurrent (-1) (readIntElems key)

/-- `s_config_read_string`. -/
def readString (config : OpenConfig) (key : SString) : Option (List UInt8) × OpenConfig :=
  config.readCurrent none (readStringElems key)

/-- `s_config_iter_begin`. -/
def iterBegin (config : OpenConfig) : OpenConfig :=
  { config with iterCurr := 0 }

/-- `s_config_iter_next`. -/
def iterNext (config : OpenConfig) : Option SString × OpenConfig :=
  match config.regions[config.iterCurr]? with
  | none => (none, config)
  | some region => (some region.key, { config with iterCurr := config.iterCurr + 1 })

end OpenConfig

/-! ## Names of servers -/

/-- What the name of a region says. -/
structure ServName where
  type : Int
  id : Int
  valid : ServGroup.validType type = true

theorem validType_zero : ServGroup.validType 0 = true := rfl

theorem validType_mserver : ServGroup.validType 1 = true := rfl

theorem validType_dserver : ServGroup.validType 2 = true := rfl

theorem validType_client : ServGroup.validType 3 = true := rfl

/-- `"mserver"`. -/
def mserverName : List UInt8 := [109, 115, 101, 114, 118, 101, 114]

/-- `"dserver"`. -/
def dserverName : List UInt8 := [100, 115, 101, 114, 118, 101, 114]

/-- `"client"`. -/
def clientName : List UInt8 := [99, 108, 105, 101, 110, 116]

/-- The tests of `iparse_config_serv_type_id`; without an id the type is not
read. -/
def parseServName (p : List UInt8) : ServName :=
  let serv : ServName := { type := 0, id := 0, valid := validType_zero }
  let serv :=
    if 8 < p.length ∧ mserverName.isPrefixOf p then
      { type := 1, id := atoiText (p.drop 8), valid := validType_mserver }
    else serv
  let serv :=
    if 8 < p.length ∧ dserverName.isPrefixOf p then
      { type := 2, id := atoiText (p.drop 8), valid := validType_dserver }
    else serv
  if 7 < p.length ∧ clientName.isPrefixOf p then
    { type := 3, id := atoiText (p.drop 7), valid := validType_client }
  else serv

/-- `iparse_config_serv_type_id`, up to the first zero of the name. -/
def iparseConfigServTypeId (name : List UInt8) : Option ServName :=
  let serv := parseServName (name.takeWhile fun c => c != 0)
  if 0 < serv.id then some serv else none

/-! ## Reading the configuration -/

def defaultKey : SString := ⟨defaultName, by decide⟩

/-- `"ip"`. -/
def ipKey : SString := ⟨[105, 112], by decide⟩

/-- `"port"`. -/
def portKey : SString := ⟨[112, 111, 114, 116], by decide⟩

/-- `"sec_for_timeover"`. -/
def secForTimeoverKey : SString :=
  ⟨[115, 101, 99, 95, 102, 111, 114, 95, 116, 105, 109, 101, 111, 118, 101, 114], by decide⟩

/-- `"sec_for_pingpong"`. -/
def secForPingpongKey : SString :=
  ⟨[115, 101, 99, 95, 102, 111, 114, 95, 112, 105, 110, 103, 112, 111, 110, 103], by decide⟩

/-- `"sec_for_reconnect"`. -/
def secForReconnectKey : SString :=
  ⟨[115, 101, 99, 95, 102, 111, 114, 95, 114, 101, 99, 111, 110, 110, 101, 99, 116], by decide⟩

/-- `"ipc_pwd"`. -/
def ipcPwdKey : SString := ⟨[105, 112, 99, 95, 112, 119, 100], by decide⟩

/-- What the region `default` says. -/
structure GroupSettings where
  secForTimeover : Int
  secForPingpong : Int
  secForReconnect : Int
  ipcPwd : Int
  deriving DecidableEq, Repr

/-- The start of `s_servg_init_config`; whether there is a region `default` is not
noticed. -/
def readSettings (config : OpenConfig) : Option (GroupSettings × OpenConfig) :=
  let (_, config) := config.selectRegion defaultKey
  let (secForTimeover, config) := config.readInt secForTimeoverKey
  if secForTimeover ≤ 0 then none
  else
    let (secForPingpong, config) := config.readInt secForPingpongKey
    if secForPingpong ≤ 0 then none
    else
      let (secForReconnect, config) := config.readInt secForReconnectKey
      if secForReconnect ≤ 0 then none
      else
        let (ipcPwd, config) := config.readInt ipcPwdKey
        if ipcPwd < 0 then none
        else
          some
            ({ secForTimeover := secForTimeover
               secForPingpong := secForPingpong
               secForReconnect := secForReconnect
               ipcPwd := ipcPwd }, config)

/-- The bytes of a string as text. -/
def cString (text : List UInt8) : String :=
  String.ofList (text.map fun c => Char.ofNat c.toNat)

/-- The loop body of `s_servg_init_config`; `listens` is whether `s_net_create`
can listen at a port. -/
def initServ (listens : Int → Bool) (name : SString) (config : OpenConfig) (servg : ServGroup) :
    Option (OpenConfig × ServGroup) :=
  match iparseConfigServTypeId name.data with
  | none => some (config, servg)
  | some serv =>
      let (_, config) := config.selectRegion name
      let (ip, config) := config.readString ipKey
      let (port, config) := config.readInt portKey
      let region : Region :=
        { type := serv.type
          id := serv.id.toNat
          ip := ip.map cString
          port := port
          valid := serv.valid }
      if (serv.type = servg.type ∧ serv.id = servg.id) ∧ listens port = false then none
      else some (config, servg.initRegion region)

/-- The loop of `s_servg_init_config`, for so many regions at most. -/
def initServs (listens : Int → Bool) : Nat → Option SString → OpenConfig → ServGroup →
    Option (OpenConfig × ServGroup)
  | _, none, config, servg => some (config, servg)
  | 0, some _, _, _ => none
  | fuel + 1, some name, config, servg =>
      let (next, config) := config.iterNext
      match initServ listens name config servg with
      | none => none
      | some (config, servg) => initServs listens fuel next config servg

/-- The port of a server that is not in the configuration. -/
def defaultPort (type id : Int) : Int :=
  if type = 1 then 10000 + id else 0

/-- The end of `s_servg_init_config`: `servg->net` is there if a region was this
server's. -/
def ServGroup.initOwn (servg : ServGroup) (listens : Int → Bool) : Option (Option ServGroup) :=
  match servg.myself with
  | some serv => some (some (servg.initMyself serv))
  | none =>
      if listens (defaultPort servg.type servg.id) = false then some none
      else
        match servg.sServgCreateServ servg.type servg.id with
        | none => none
        | some (servg, serv) => some (some (servg.initMyself serv))

/-- `s_servg_create` and `s_servg_init_config`: the inner `none` is the return
value -1, the outer one stands where the source follows a null pointer. -/
def sServgInitConfigFrom (junk : ServAddr → SServer) (listens : Int → Bool) (type id : Int)
    (config : OpenConfig) : Option (Option (GroupSettings × ServGroup)) :=
  match readSettings config with
  | none => some none
  | some (settings, config) =>
      let servg := ServGroup.sServgCreate junk
        { id := id, type := type, ipcPwd := BitVec.ofInt 32 settings.ipcPwd, regions := [] }
      let (next, config) := config.iterBegin.iterNext
      match initServs listens (config.regions.length + 1) next config servg with
      | none => some none
      | some (_, servg) =>
          (servg.initOwn listens).map fun started => started.map fun servg => (settings, servg)

/-! ## What is read -/

/-- A region of the configuration before anything is read. -/
structure KeyedRegion where
  key : SString
  elems : List (SString × List UInt8)
  deriving DecidableEq

/-- The configuration that `s_config_create` returns; `stray` is what `iter_curr`
happens to be. -/
def openConfig (regions : List KeyedRegion) (stray : Nat) : OpenConfig where
  regions := regions.map fun region =>
    { key := region.key
      elems := region.elems.map fun pair => { key := pair.1, value := .dontKnown pair.2 } }
  currRegion := none
  iterCurr := stray

/-- The first value under a key. -/
def textAt (elems : List (SString × List UInt8)) (key : SString) : Option (List UInt8) :=
  (elems.find? fun pair => sStringEqual pair.1 key).map Prod.snd

/-- The number under a key, and -1 without one. -/
def numberAt (elems : List (SString × List UInt8)) (key : SString) : Int :=
  (textAt elems key).elim (-1) atoiText

/-- The first region of a name. -/
def regionNamed (regions : List KeyedRegion) (name : SString) : Option KeyedRegion :=
  regions.find? fun region => sStringEqual region.key name

/-- The elements of the first region of a name. -/
def elemsNamed (regions : List KeyedRegion) (name : SString) : List (SString × List UInt8) :=
  ((regionNamed regions name).map KeyedRegion.elems).getD []

/-- The settings, unless one of them is missing or not positive. -/
def settingsOf (regions : List KeyedRegion) : Option GroupSettings :=
  let number := numberAt (elemsNamed regions defaultKey)
  if 0 < number secForTimeoverKey ∧ 0 < number secForPingpongKey ∧
      0 < number secForReconnectKey ∧ 0 ≤ number ipcPwdKey then
    some
      { secForTimeover := number secForTimeoverKey
        secForPingpong := number secForPingpongKey
        secForReconnect := number secForReconnectKey
        ipcPwd := number ipcPwdKey }
  else none

/-- The server that a region of a name describes. -/
def serverRegion (regions : List KeyedRegion) (name : SString) : Option Region :=
  (iparseConfigServTypeId name.data).map fun serv =>
    { type := serv.type
      id := serv.id.toNat
      ip := (textAt (elemsNamed regions name) ipKey).map cString
      port := numberAt (elemsNamed regions name) portKey
      valid := serv.valid }

/-- The servers of the configuration. -/
def serverRegions (regions : List KeyedRegion) : List Region :=
  regions.filterMap fun region => serverRegion regions region.key

/-- The region describes this server. -/
def Region.isMine (region : Region) (type id : Int) : Bool :=
  decide (region.type = type ∧ (region.id : Int) = id)

/-- Every port this server listens at can be listened at. -/
def listensAll (listens : Int → Bool) (type id : Int) (regions : List Region) : Bool :=
  let mine := regions.filter fun region => region.isMine type id
  if mine.isEmpty then listens (defaultPort type id)
  else mine.all fun region => listens region.port

/-! ## Reads agree with the text -/

theorem length_eq_of_sStringEqual {a b : SString} (same : sStringEqual a b = true) :
    a.data.length = b.data.length :=
  (sStringEqual_iff.mp same).1

/-- The element is the pair, read as a number or as a string or not at all; only keys
of two characters are read as strings. -/
def ReadsAs (pair : SString × List UInt8) (elem : ConfigElem) : Prop :=
  elem.key = pair.1 ∧
    (elem.value = .dontKnown pair.2 ∨
      elem.value = .intValue (atoiText pair.2) ∧ pair.1.data.length ≠ 2 ∨
      elem.value = .strValue pair.2 ∧ pair.1.data.length = 2)

def RegionReadsAs (region : KeyedRegion) (opened : OpenRegion) : Prop :=
  opened.key = region.key ∧ List.Forall₂ ReadsAs region.elems opened.elems

/-- The configuration is the one of these regions, whatever has been read. -/
def OpenConfig.Consistent (config : OpenConfig) (regions : List KeyedRegion) : Prop :=
  List.Forall₂ RegionReadsAs regions config.regions

section

variable {pairs : List (SString × List UInt8)} {elems : List ConfigElem} {key : SString}

theorem textAt_cons (pair : SString × List UInt8) :
    textAt (pair :: pairs) key =
      if sStringEqual pair.1 key then some pair.2 else textAt pairs key := by
  unfold textAt
  rw [List.find?_cons]
  split
  next same => rw [if_pos same, Option.map_some]
  next other => rw [if_neg (Bool.eq_false_iff.mp other)]

theorem numberAt_cons (pair : SString × List UInt8) :
    numberAt (pair :: pairs) key =
      if sStringEqual pair.1 key then atoiText pair.2 else numberAt pairs key := by
  unfold numberAt
  rw [textAt_cons]
  split <;> rfl

theorem readIntElems_eq (long : key.data.length ≠ 2) (reads : List.Forall₂ ReadsAs pairs elems) :
    (readIntElems key elems).1 = numberAt pairs key ∧
      List.Forall₂ ReadsAs pairs (readIntElems key elems).2 := by
  induction reads with
  | nil => exact ⟨rfl, List.Forall₂.nil⟩
  | @cons pair elem pairs elems head rest inductionHypothesis =>
      obtain ⟨sameKey, holds⟩ := head
      rw [readIntElems, numberAt_cons, sameKey]
      by_cases same : sStringEqual pair.1 key = true
      · have longer : pair.1.data.length ≠ 2 := length_eq_of_sStringEqual same ▸ long
        rw [if_pos same, if_pos same]
        rcases holds with isText | ⟨isNumber, _⟩ | ⟨_, short⟩
        · rw [isText]
          exact ⟨rfl, .cons ⟨rfl, Or.inr (Or.inl ⟨rfl, longer⟩)⟩ rest⟩
        · rw [isNumber]
          exact ⟨rfl, .cons ⟨sameKey, Or.inr (Or.inl ⟨isNumber, longer⟩)⟩ rest⟩
        · exact absurd short longer
      · rw [if_neg same, if_neg same]
        exact ⟨inductionHypothesis.1, .cons ⟨sameKey, holds⟩ inductionHypothesis.2⟩

theorem readStringElems_eq (short : key.data.length = 2)
    (reads : List.Forall₂ ReadsAs pairs elems) :
    (readStringElems key elems).1 = textAt pairs key ∧
      List.Forall₂ ReadsAs pairs (readStringElems key elems).2 := by
  induction reads with
  | nil => exact ⟨rfl, List.Forall₂.nil⟩
  | @cons pair elem pairs elems head rest inductionHypothesis =>
      obtain ⟨sameKey, holds⟩ := head
      rw [readStringElems, textAt_cons, sameKey]
      by_cases same : sStringEqual pair.1 key = true
      · have two : pair.1.data.length = 2 := (length_eq_of_sStringEqual same).trans short
        rw [if_pos same, if_pos same]
        rcases holds with isText | ⟨_, long⟩ | ⟨isText, _⟩
        · rw [isText]
          exact ⟨rfl, .cons ⟨rfl, Or.inr (Or.inr ⟨rfl, two⟩)⟩ rest⟩
        · exact absurd two long
        · rw [isText]
          exact ⟨rfl, .cons ⟨sameKey, Or.inr (Or.inr ⟨isText, two⟩)⟩ rest⟩
      · rw [if_neg same, if_neg same]
        exact ⟨inductionHypothesis.1, .cons ⟨sameKey, holds⟩ inductionHypothesis.2⟩

end

/-- One of two lists that agree is written to. -/
theorem forall₂_set {First Second : Type} {R : First → Second → Prop} {firsts : List First}
    {seconds : List Second} {index : Nat} {first : First} {second : Second}
    (agree : List.Forall₂ R firsts seconds) (at_index : firsts[index]? = some first)
    (related : R first second) : List.Forall₂ R firsts (seconds.set index second) := by
  induction agree generalizing index with
  | nil => exact List.Forall₂.nil
  | cons head rest inductionHypothesis =>
      cases index with
      | zero =>
          cases at_index
          exact List.Forall₂.cons related rest
      | succ index => exact List.Forall₂.cons head (inductionHypothesis at_index)

theorem forall₂_getElem? {First Second : Type} {R : First → Second → Prop} {firsts : List First}
    {seconds : List Second} {index : Nat} {first : First} (agree : List.Forall₂ R firsts seconds)
    (at_index : firsts[index]? = some first) : ∃ second, seconds[index]? = some second ∧
      R first second := by
  induction agree generalizing index with
  | nil => cases at_index
  | cons head rest inductionHypothesis =>
      cases index with
      | zero =>
          cases at_index
          exact ⟨_, rfl, head⟩
      | succ index => exact inductionHypothesis at_index

namespace OpenConfig

variable {config : OpenConfig} {regions : List KeyedRegion} {region : KeyedRegion}
  {name key : SString}

/-- The current region is the region. -/
structure Selected (config : OpenConfig) (regions : List KeyedRegion) (region : KeyedRegion) :
    Prop where
  consistent : config.Consistent regions
  current : ∃ index, config.currRegion = some index ∧ regions[index]? = some region

theorem consistent_openConfig (regions : List KeyedRegion) (stray : Nat) :
    (openConfig regions stray).Consistent regions := by
  unfold Consistent openConfig
  rw [List.forall₂_map_right_iff, List.forall₂_same]
  intro region _
  refine ⟨rfl, ?_⟩
  rw [List.forall₂_map_right_iff, List.forall₂_same]
  exact fun pair _ => ⟨rfl, Or.inl rfl⟩

theorem Consistent.findIdx? (consistent : config.Consistent regions) (name : SString) :
    config.regions.findIdx? (fun opened => sStringEqual opened.key name) =
      regions.findIdx? fun region => sStringEqual region.key name := by
  unfold Consistent at consistent
  revert consistent
  generalize config.regions = opened
  intro consistent
  induction consistent with
  | nil => rfl
  | cons head rest inductionHypothesis =>
      rw [List.findIdx?_cons, List.findIdx?_cons, inductionHypothesis, head.1]

/-- A name that is there selects the first region of it. -/
theorem Consistent.selectRegion (consistent : config.Consistent regions)
    (found : regionNamed regions name = some region) :
    (config.selectRegion name).2.Selected regions region ∧
      (config.selectRegion name).2.iterCurr = config.iterCurr := by
  unfold OpenConfig.selectRegion
  rw [consistent.findIdx?]
  unfold regionNamed at found
  rw [List.find?_eq_bind_findIdx?_getElem?, Option.bind_eq_some_iff] at found
  obtain ⟨index, first, isRegion⟩ := found
  rw [first]
  exact ⟨⟨consistent, index, rfl, isRegion⟩, rfl⟩

theorem Selected.readInt (selected : config.Selected regions region)
    (long : key.data.length ≠ 2) :
    (config.readInt key).1 = numberAt region.elems key ∧
      (config.readInt key).2.Selected regions region ∧
      (config.readInt key).2.iterCurr = config.iterCurr := by
  obtain ⟨index, current, isRegion⟩ := selected.current
  obtain ⟨opened, isOpened, sameKey, reads⟩ := forall₂_getElem? selected.consistent isRegion
  obtain ⟨value, readsStill⟩ := readIntElems_eq long reads
  unfold OpenConfig.readInt readCurrent
  rw [current]
  dsimp only
  rw [isOpened]
  exact ⟨value, ⟨forall₂_set selected.consistent isRegion ⟨sameKey, readsStill⟩,
    index, rfl, isRegion⟩, rfl⟩

theorem Selected.readString (selected : config.Selected regions region)
    (short : key.data.length = 2) :
    (config.readString key).1 = textAt region.elems key ∧
      (config.readString key).2.Selected regions region ∧
      (config.readString key).2.iterCurr = config.iterCurr := by
  obtain ⟨index, current, isRegion⟩ := selected.current
  obtain ⟨opened, isOpened, sameKey, reads⟩ := forall₂_getElem? selected.consistent isRegion
  obtain ⟨value, readsStill⟩ := readStringElems_eq short reads
  unfold OpenConfig.readString readCurrent
  rw [current]
  dsimp only
  rw [isOpened]
  exact ⟨value, ⟨forall₂_set selected.consistent isRegion ⟨sameKey, readsStill⟩,
    index, rfl, isRegion⟩, rfl⟩

end OpenConfig

/-! ## Settings -/

section

variable {config : OpenConfig} {regions : List KeyedRegion}

theorem elemsNamed_of_found {name : SString} {region : KeyedRegion}
    (found : regionNamed regions name = some region) :
    elemsNamed regions name = region.elems := by
  rw [elemsNamed, found]
  rfl

/-- **The settings are those of the first region `default`.** -/
theorem readSettings_eq (consistent : config.Consistent regions) {first : KeyedRegion}
    (found : regionNamed regions defaultKey = some first) :
    match settingsOf regions with
    | none => readSettings config = none
    | some settings => ∃ after, readSettings config = some (settings, after) ∧
        after.Consistent regions := by
  have elems := elemsNamed_of_found found
  obtain ⟨selected, _⟩ := consistent.selectRegion found
  obtain ⟨timeover, selectedTimeover, _⟩ :=
    selected.readInt (show secForTimeoverKey.data.length ≠ 2 by decide)
  obtain ⟨pingpong, selectedPingpong, _⟩ :=
    selectedTimeover.readInt (show secForPingpongKey.data.length ≠ 2 by decide)
  obtain ⟨reconnect, selectedReconnect, _⟩ :=
    selectedPingpong.readInt (show secForReconnectKey.data.length ≠ 2 by decide)
  obtain ⟨pwd, selectedPwd, _⟩ :=
    selectedReconnect.readInt (show ipcPwdKey.data.length ≠ 2 by decide)
  unfold readSettings settingsOf
  dsimp only
  rw [timeover, pingpong, reconnect, pwd, elems]
  split
  next same =>
    split at same
    · cases same
    next missing =>
      split_ifs with noTimeover noPingpong noReconnect noPwd
      · rfl
      · rfl
      · rfl
      · rfl
      · exact absurd ⟨Int.not_le.mp noTimeover, Int.not_le.mp noPingpong,
          Int.not_le.mp noReconnect, Int.not_lt.mp noPwd⟩ missing
  next settings same =>
    split at same
    next all =>
      obtain ⟨hasTimeover, hasPingpong, hasReconnect, hasPwd⟩ := all
      cases same
      rw [if_neg (Int.not_le.mpr hasTimeover), if_neg (Int.not_le.mpr hasPingpong),
        if_neg (Int.not_le.mpr hasReconnect), if_neg (Int.not_lt.mpr hasPwd)]
      exact ⟨_, rfl, selectedPwd.consistent⟩
    · cases same

end

/-! ## Servers -/

section

variable {config : OpenConfig} {regions : List KeyedRegion} {servg : ServGroup}
  {listens : Int → Bool} {type id : Int}

/-- The region is not this server's, or its port can be listened at. -/
def Region.mayListen (region : Region) (listens : Int → Bool) (type id : Int) : Bool :=
  !region.isMine type id || listens region.port

theorem regionNamed_of_mem {region : KeyedRegion} (member : region ∈ regions) :
    ∃ first, regionNamed regions region.key = some first := by
  unfold regionNamed
  apply Option.isSome_iff_exists.mp
  rw [List.find?_isSome]
  exact ⟨region, member, sStringEqual_iff.mpr ⟨rfl, rfl, strncmpZero_refl region.key.data⟩⟩

theorem pos_of_parsed {name : List UInt8} {serv : ServName}
    (parsed : iparseConfigServTypeId name = some serv) : 0 < serv.id := by
  unfold iparseConfigServTypeId at parsed
  dsimp only at parsed
  split at parsed
  next positive =>
    rw [← Option.some.inj parsed]
    exact positive
  · cases parsed

/-- One turn of the loop. -/
theorem initServ_eq (consistent : config.Consistent regions) {name : SString}
    {first : KeyedRegion} (found : regionNamed regions name = some first)
    (ofType : servg.type = type) (ofId : servg.id = id) :
    ∃ after : OpenConfig, after.Consistent regions ∧ after.iterCurr = config.iterCurr ∧
      initServ listens name config servg =
        match serverRegion regions name with
        | none => some (after, servg)
        | some region =>
            if region.mayListen listens type id then some (after, servg.initRegion region)
            else none := by
  unfold initServ serverRegion
  cases parsed : iparseConfigServTypeId name.data with
  | none => exact ⟨config, consistent, rfl, rfl⟩
  | some serv =>
      have elems := elemsNamed_of_found found
      obtain ⟨selected, sameSelect⟩ := consistent.selectRegion found
      obtain ⟨ip, selectedIp, sameIp⟩ := selected.readString (show ipKey.data.length = 2 by decide)
      obtain ⟨port, selectedPort, samePort⟩ :=
        selectedIp.readInt (show portKey.data.length ≠ 2 by decide)
      refine ⟨_, selectedPort.consistent, samePort.trans (sameIp.trans sameSelect), ?_⟩
      have isId : ((serv.id.toNat : Nat) : Int) = serv.id :=
        Int.toNat_of_nonneg (Int.le_of_lt (pos_of_parsed parsed))
      dsimp only [Option.map_some]
      rw [ip, port, elems, ofType, ofId]
      unfold Region.mayListen Region.isMine
      dsimp only
      rw [isId]
      by_cases refused : (serv.type = type ∧ serv.id = id) ∧
          listens (numberAt first.elems portKey) = false
      · rw [if_pos refused, if_neg]
        rw [refused.2, decide_eq_true refused.1]
        decide
      · rw [if_neg refused, if_pos]
        rw [Bool.or_eq_true, Bool.not_eq_true', decide_eq_false_iff_not]
        by_cases mine : serv.type = type ∧ serv.id = id
        · exact Or.inr (Bool.not_eq_false _ |>.mp fun silent => refused ⟨mine, silent⟩)
        · exact Or.inl mine

/-- The iterator returns the names of the regions, one after the other. -/
theorem iterNext_eq (consistent : config.Consistent regions) {rest : List KeyedRegion}
    (left : regions.drop config.iterCurr = rest) :
    (config.iterNext).1 = rest.head?.map KeyedRegion.key ∧
      (config.iterNext).2.Consistent regions ∧
      regions.drop (config.iterNext).2.iterCurr = rest.tail := by
  have next : regions[config.iterCurr]? = rest.head? := by
    rw [← left, List.head?_drop]
  unfold OpenConfig.iterNext
  cases rest with
  | nil =>
      have short : config.regions.length ≤ config.iterCurr := by
        rw [← consistent.length_eq]
        exact List.drop_eq_nil_iff.mp left
      rw [List.getElem?_eq_none short]
      exact ⟨rfl, consistent, left⟩
  | cons region rest =>
      obtain ⟨opened, isOpened, sameKey, _⟩ := forall₂_getElem? consistent next
      rw [isOpened]
      refine ⟨congrArg some sameKey, consistent, ?_⟩
      change regions.drop (config.iterCurr + 1) = rest
      rw [← List.tail_drop, left]
      rfl

/-- Who the group is. -/
structure SameServer (before after : ServGroup) : Prop where
  type : after.type = before.type
  id : after.id = before.id
  myself : after.myself = before.myself

theorem SameServer.trans {first second third : ServGroup} (early : SameServer first second)
    (late : SameServer second third) : SameServer first third :=
  ⟨late.type.trans early.type, late.id.trans early.id, late.myself.trans early.myself⟩

theorem sameServer_sArrayPush (servg : ServGroup) (type : Int) :
    SameServer servg (servg.sArrayPush type).1 := by
  unfold ServGroup.sArrayPush
  dsimp only
  split <;> exact ⟨rfl, rfl, rfl⟩

theorem sameServer_pushUnused (type : Int) (count : Nat) :
    ∀ servg : ServGroup, SameServer servg (servg.pushUnused type count) := by
  induction count with
  | zero => exact fun _ => ⟨rfl, rfl, rfl⟩
  | succ count inductionHypothesis =>
      intro servg
      rw [ServGroup.pushUnused]
      refine (sameServer_sArrayPush servg type).trans (SameServer.trans ?_ (inductionHypothesis _))
      exact ⟨rfl, rfl, rfl⟩

theorem sameServer_iinitServ (servg : ServGroup) (type : Int) (id : Nat) :
    SameServer servg (servg.iinitServ type id) := by
  unfold ServGroup.iinitServ
  dsimp only
  split
  · exact ⟨rfl, rfl, rfl⟩
  · have filled := sameServer_pushUnused type (id - (servg.servs type).nelem) servg
    refine (filled.trans (sameServer_sArrayPush _ type)).trans ?_
    exact ⟨rfl, rfl, rfl⟩

/-- A region leaves the group what it is, and gives it its own entry if it is this
server's. -/
theorem initRegion_same (servg : ServGroup) (region : Region) :
    (servg.initRegion region).type = servg.type ∧ (servg.initRegion region).id = servg.id ∧
      ((servg.initRegion region).myself = none ↔
        servg.myself = none ∧ region.isMine servg.type servg.id = false) := by
  have same := sameServer_iinitServ servg region.type region.id
  unfold Region.isMine
  rw [decide_eq_false_iff_not, ← same.type, ← same.id, ← same.myself]
  unfold ServGroup.initRegion ServGroup.noteMyself
  dsimp only
  split_ifs with connects mine mine
  · exact ⟨rfl, rfl, iff_of_false (Option.some_ne_none _) fun both => both.2 mine⟩
  · exact ⟨rfl, rfl, (and_iff_left mine).symm⟩
  · exact ⟨rfl, rfl, iff_of_false (Option.some_ne_none _) fun both => both.2 mine⟩
  · exact ⟨rfl, rfl, (and_iff_left mine).symm⟩

/-- **The loop starts the servers of the configuration**, in its order. -/
theorem initServs_eq (rest : List KeyedRegion) :
    ∀ (fuel : Nat) {config : OpenConfig} {servg : ServGroup}, config.Consistent regions →
      servg.type = type → servg.id = id → regions.drop config.iterCurr = rest.tail →
      rest ⊆ regions → rest.length ≤ fuel →
      ∃ after, initServs listens fuel (rest.head?.map KeyedRegion.key) config servg =
        if (rest.filterMap fun region => serverRegion regions region.key).all
            (fun region => region.mayListen listens type id) then
          some (after, (rest.filterMap fun region => serverRegion regions region.key).foldl
            ServGroup.initRegion servg)
        else none := by
  induction rest with
  | nil =>
      intro fuel config servg _ _ _ _ _ _
      refine ⟨config, ?_⟩
      cases fuel <;> rfl
  | cons region rest inductionHypothesis =>
      intro fuel config servg consistent ofType ofId left inside enough
      obtain ⟨count, rfl⟩ := Nat.exists_eq_add_one_of_ne_zero (Nat.ne_of_gt
        (Nat.lt_of_lt_of_le (Nat.succ_pos rest.length) enough))
      obtain ⟨isNext, stillConsistent, leftBehind⟩ := iterNext_eq consistent left
      obtain ⟨first, found⟩ := regionNamed_of_mem (inside List.mem_cons_self)
      obtain ⟨after, afterConsistent, sameIter, turn⟩ :=
        @initServ_eq _ regions servg listens type id stillConsistent region.key first found ofType ofId
      have enoughLeft : rest.length ≤ count := Nat.le_of_succ_le_succ enough
      have insideLeft : rest ⊆ regions := fun _ member => inside (List.mem_cons_of_mem _ member)
      rw [← sameIter] at leftBehind
      rw [List.head?_cons, Option.map_some, initServs]
      dsimp only
      rw [isNext, turn, List.tail_cons, List.filterMap_cons]
      cases described : serverRegion regions region.key with
      | none => exact inductionHypothesis count afterConsistent ofType ofId leftBehind insideLeft enoughLeft
      | some region =>
          obtain ⟨sameType, sameId, _⟩ := initRegion_same servg region
          dsimp only
          rw [List.all_cons, List.foldl_cons]
          by_cases silent : region.mayListen listens type id = true
          · rw [if_pos silent, silent, Bool.true_and]
            exact inductionHypothesis count afterConsistent (sameType.trans ofType)
              (sameId.trans ofId) leftBehind insideLeft enoughLeft
          · refine ⟨after, ?_⟩
            rw [if_neg silent, if_neg]
            rw [Bool.and_eq_true]
            exact fun both => silent both.1

theorem initRegions_same (servers : List Region) : ∀ servg : ServGroup,
    (servers.foldl ServGroup.initRegion servg).type = servg.type ∧
      (servers.foldl ServGroup.initRegion servg).id = servg.id ∧
      ((servers.foldl ServGroup.initRegion servg).myself = none ↔
        servg.myself = none ∧ ∀ region ∈ servers, region.isMine servg.type servg.id = false) := by
  induction servers with
  | nil => exact fun _ => ⟨rfl, rfl, (and_iff_left (List.forall_mem_nil _)).symm⟩
  | cons region servers inductionHypothesis =>
      intro servg
      obtain ⟨sameType, sameId, isMine⟩ := initRegion_same servg region
      obtain ⟨types, ids, mine⟩ := inductionHypothesis (servg.initRegion region)
      rw [List.foldl_cons]
      refine ⟨types.trans sameType, ids.trans sameId, ?_⟩
      rw [mine, isMine, sameType, sameId, List.forall_mem_cons, and_assoc]

theorem listensAll_of_mine {servers : List Region} {region : Region} (member : region ∈ servers)
    (mine : region.isMine type id = true) :
    listensAll listens type id servers =
      servers.all fun region => region.mayListen listens type id := by
  have kept : region ∈ servers.filter fun region => region.isMine type id :=
    List.mem_filter.mpr ⟨member, mine⟩
  unfold listensAll
  dsimp only
  rw [if_neg (by rw [List.isEmpty_iff]; exact List.ne_nil_of_mem kept), List.all_filter]
  rfl

theorem listensAll_of_none {servers : List Region}
    (none : ∀ region ∈ servers, region.isMine type id = false) :
    (servers.all fun region => region.mayListen listens type id) = true ∧
      listensAll listens type id servers = listens (defaultPort type id) := by
  constructor
  · rw [List.all_eq_true]
    intro region member
    unfold Region.mayListen
    rw [none region member]
    rfl
  · unfold listensAll
    dsimp only
    rw [if_pos]
    rw [List.isEmpty_iff, List.filter_eq_nil_iff]
    exact fun region member => Bool.eq_false_iff.mp (none region member)

/-- The end of the function, once the servers of the configuration are there. -/
theorem initOwn_eq (junk : ServAddr → SServer) (config : GroupConfig)
    (all : config.regions.all (fun region => region.mayListen listens config.type config.id) =
      true) :
    (config.regions.foldl ServGroup.initRegion (ServGroup.sServgCreate junk config)).initOwn
        listens =
      if listensAll listens config.type config.id config.regions then
        (ServGroup.sServgInitConfig junk config).map some
      else some none := by
  obtain ⟨isType, isId, isMine⟩ := initRegions_same config.regions
    (ServGroup.sServgCreate junk config)
  change _ = config.type at isType
  change _ = config.id at isId
  change _ ↔ _ ∧ ∀ region ∈ config.regions, region.isMine config.type config.id = false at isMine
  unfold ServGroup.sServgInitConfig ServGroup.initOwn
  dsimp only
  cases own : (config.regions.foldl ServGroup.initRegion
      (ServGroup.sServgCreate junk config)).myself with
  | some serv =>
      have mine : ∃ region ∈ config.regions, region.isMine config.type config.id = true := by
        by_contra none
        rw [isMine.mpr ⟨rfl, fun region member => Bool.eq_false_iff.mpr fun mine =>
          none ⟨region, member, mine⟩⟩] at own
        cases own
      obtain ⟨region, member, mine⟩ := mine
      rw [listensAll_of_mine member mine, if_pos all]
      rfl
  | none =>
      rw [(listensAll_of_none (isMine.mp own).2).2]
      dsimp only
      rw [isType, isId]
      cases listens (defaultPort config.type config.id) with
      | false => rfl
      | true =>
          rw [if_neg (by decide), if_pos rfl]
          cases (config.regions.foldl ServGroup.initRegion
            (ServGroup.sServgCreate junk config)).sServgCreateServ config.type config.id <;> rfl

/-- **What a server group reads is the configuration of a server group**: the settings
of the first region `default`, and a server for every region whose name is that of
one, in their order, with the first `ip` and `port` of the first region of the name;
it fails without a setting or a port to listen at. -/
theorem sServgInitConfigFrom_eq (junk : ServAddr → SServer) (listens : Int → Bool)
    (type id : Int) {regions : List KeyedRegion} {first : KeyedRegion}
    (found : regionNamed regions defaultKey = some first) (stray : Nat) :
    sServgInitConfigFrom junk listens type id (openConfig regions stray) =
      match settingsOf regions with
      | none => some none
      | some settings =>
          if listensAll listens type id (serverRegions regions) then
            (ServGroup.sServgInitConfig junk
              { id := id
                type := type
                ipcPwd := BitVec.ofInt 32 settings.ipcPwd
                regions := serverRegions regions }).map fun servg => some (settings, servg)
          else some none := by
  have settings := readSettings_eq (OpenConfig.consistent_openConfig regions stray) found
  unfold sServgInitConfigFrom
  cases same : settingsOf regions with
  | none =>
      rw [same] at settings
      dsimp only at settings
      rw [settings]
  | some values =>
      rw [same] at settings
      obtain ⟨config, read, consistent⟩ := settings
      rw [read]
      dsimp only
      have begun : config.iterBegin.Consistent regions := consistent
      obtain ⟨isNext, stillConsistent, left⟩ := iterNext_eq begun List.drop_zero
      let group : GroupConfig :=
        { id := id
          type := type
          ipcPwd := BitVec.ofInt 32 values.ipcPwd
          regions := serverRegions regions }
      obtain ⟨after, started⟩ := @initServs_eq regions listens type id regions
        ((config.iterBegin.iterNext).2.regions.length + 1) (config.iterBegin.iterNext).2
        (ServGroup.sServgCreate junk group) stillConsistent rfl rfl left (List.Subset.refl _) (by
          rw [← stillConsistent.length_eq]
          exact Nat.le_succ _)
      have own := @initOwn_eq listens junk group
      change _ = if (serverRegions regions).all (fun region => region.mayListen listens type id)
        then some (after, (serverRegions regions).foldl ServGroup.initRegion
          (ServGroup.sServgCreate junk group)) else none at started
      have begins : initServs listens ((config.iterBegin.iterNext).2.regions.length + 1)
          (config.iterBegin.iterNext).1 (config.iterBegin.iterNext).2
          (ServGroup.sServgCreate junk
            { id := id, type := type, ipcPwd := BitVec.ofInt 32 values.ipcPwd, regions := [] }) =
          _ := isNext ▸ started
      rw [begins]
      cases all : (serverRegions regions).all
          fun region => region.mayListen listens type id with
      | false =>
          obtain ⟨region, member, silent⟩ := List.all_eq_false.mp all
          have mine : region.isMine type id = true := by
            by_contra other
            rw [Region.mayListen, Bool.eq_false_iff.mpr other] at silent
            exact silent rfl
          rw [listensAll_of_mine member mine, all]
          rfl
      | true =>
          rw [if_pos rfl]
          dsimp only
          rw [own all]
          cases listensAll listens type id (serverRegions regions) with
          | false => rfl
          | true =>
              cases ServGroup.sServgInitConfig junk group <;> rfl

end

end SimpleDfs.ServerGroup
