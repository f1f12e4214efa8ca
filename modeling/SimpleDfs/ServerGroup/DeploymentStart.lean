import SimpleDfs.ServerGroup.Deployment
import SimpleDfs.ServerGroup.Names

/-!
Contract: the server group that a deployment gives (`s_servg_init_config` of
`serv_group/s_server_group.c`).

Owns: what a region leaves in the arrays as long as they have room; that every server
of a deployment has its entry, that this server waits to connect to those it is to
connect to, in the order of the file, and that the group is sound.

Does not own: what the file looks like; the steps of the group.

An array starts with 16 entries and must not move once one of them is linked, so the
ids here are below 15.
-/

set_option autoImplicit false

namespace SimpleDfs.ServerGroup

open SimpleDfs.Common
open SimpleDfs.Library
open Wire (Abi)

/-! ## Statements -/

/-- The address of a server whose array has not moved. -/
def addrOf (type : Int) (id : Nat) : ServAddr where
  type := type
  block := 0
  index := id

def Region.addr (region : Region) : ServAddr :=
  addrOf region.type region.id

/-- The entry of a server of the configuration. -/
def Region.entry (region : Region) : SServer where
  conn := none
  id := region.id
  type := region.type
  flags := { inConfig := true }
  ip := region.ip
  port := region.port
  mem := 0
  rpcHash := none
  reqId := 1

/-- This server is to connect to the server of the region. -/
def Region.connects (region : Region) (type id : Int) : Bool :=
  region.ip.isSome && decide (region.port ≠ 0) && sDoIConnHim type id region.type region.id

namespace ServGroup

/-- Who waits for a connection. -/
def waiters (type id : Int) (regions : List Region) : WaitList → List ServAddr
  | .waitForConn => (regions.filter fun region => region.connects type id).map Region.addr
  | _ => []

/-- Every other server of the configuration has its entry, and those this server is to
connect to wait for it, in order. -/
structure Follows (servg : ServGroup) (config : GroupConfig) : Prop where
  isType : servg.type = config.type
  isId : servg.id = config.id
  isPwd : servg.ipcPwd = config.ipcPwd
  known : ∀ region ∈ config.regions, region.isMine config.type config.id = false →
    servg.sServgGetServInConfig region.type region.id = some region.addr ∧
      servg.entries region.addr = region.entry
  waits : servg.links.IsFamily (waiters config.type config.id config.regions)

/-! ## Arrays with room -/

variable {servg : ServGroup} {type : Int}

theorem sArrayPush_of_room (room : (servg.servs type).nelem < (servg.servs type).total) :
    servg.sArrayPush type = (servg.pushRoom type, servg.nextEntry type) := by
  rw [sArrayPush_eq, ServGroup.room, if_neg (Nat.not_le.mpr room)]

/-- The loop that fills an array with room up. -/
theorem pushUnused_of_room (count : Nat) : ∀ {servg : ServGroup},
    (servg.servs type).nelem + count ≤ (servg.servs type).total →
      (servg.pushUnused type count).servs = Function.update servg.servs type
          { servg.servs type with nelem := (servg.servs type).nelem + count } ∧
        ∀ serv, (servg.pushUnused type count).entries serv =
          if serv.type = type ∧ serv.block = (servg.servs type).block ∧
              (servg.servs type).nelem ≤ serv.index ∧
              serv.index < (servg.servs type).nelem + count then
            { servg.entries serv with flags := {}, conn := none }
          else servg.entries serv := by
  induction count with
  | zero =>
      intro servg _
      constructor
      · exact (Function.update_eq_self type servg.servs).symm
      · intro serv
        rw [if_neg fun inside => by omega]
        rfl
  | succ count inductionHypothesis =>
      intro servg room
      rw [ServGroup.pushUnused, sArrayPush_of_room (by omega)]
      dsimp only
      let next := (servg.pushRoom type).modify (servg.nextEntry type) fun entry =>
        { entry with flags := {}, conn := none }
      have grown : next.servs type =
          { servg.servs type with nelem := (servg.servs type).nelem + 1 } :=
        Function.update_self type _ servg.servs
      obtain ⟨servs, entries⟩ := @inductionHypothesis next (by
        rw [grown]
        change (servg.servs type).nelem + 1 + count ≤ (servg.servs type).total
        omega)
      constructor
      · rw [servs, grown]
        change Function.update (Function.update servg.servs type _) type _ = _
        rw [Function.update_idem, Nat.add_assoc, Nat.add_comm 1 count]
      · intro serv
        rw [entries serv, grown]
        change (if _ ∧ serv.block = (servg.servs type).block ∧
          (servg.servs type).nelem + 1 ≤ serv.index ∧
            serv.index < (servg.servs type).nelem + 1 + count then _ else _) = _
        have written : next.entries serv =
            if serv = servg.nextEntry type then
              { servg.entries (servg.nextEntry type) with flags := {}, conn := none }
            else servg.entries serv := modify_entries (servg.pushRoom type) _ serv _
        by_cases first : serv = servg.nextEntry type
        · rw [written, if_pos first, first, if_neg, if_pos]
          · exact ⟨rfl, rfl, Nat.le_refl _, Nat.lt_add_of_pos_right (Nat.succ_pos count)⟩
          · rintro ⟨_, _, above, _⟩
            exact Nat.not_succ_le_self _ above
        · rw [written, if_neg first]
          apply if_congr _ rfl rfl
          constructor
          · rintro ⟨isType, block, above, below⟩
            exact ⟨isType, block, by omega, by omega⟩
          · rintro ⟨isType, block, above, below⟩
            refine ⟨isType, block, ?_, by omega⟩
            have apart : serv.index ≠ (servg.servs type).nelem :=
              fun same => first (eq_entryAt isType block same)
            omega

/-- `iinit_serv` in an array that has room for the entry. -/
theorem iinitServ_of_room {id : Nat} (room : id < (servg.servs type).total) :
    (servg.iinitServ type id).servs = Function.update servg.servs type
        { servg.servs type with nelem := max (servg.servs type).nelem (id + 1) } ∧
      (∀ serv, serv ≠ servg.entryAt type id →
        (servg.iinitServ type id).entries serv =
          if serv.type = type ∧ serv.block = (servg.servs type).block ∧
              (servg.servs type).nelem ≤ serv.index ∧ serv.index < id then
            { servg.entries serv with flags := {}, conn := none }
          else servg.entries serv) ∧
      ((servg.iinitServ type id).entries (servg.entryAt type id)).flags = { inConfig := true } := by
  have marked : ∀ (group : ServGroup) (serv : ServAddr), serv ≠ servg.entryAt type id →
      (group.modify (servg.entryAt type id) fun entry =>
        { entry with flags := { inConfig := true } }).entries serv = group.entries serv :=
    fun group serv different => modify_entries_other _ different
  by_cases below : id < (servg.servs type).nelem
  · rw [Nat.max_eq_left (Nat.succ_le_of_lt below), ServGroup.iinitServ, if_pos below]
    refine ⟨(Function.update_eq_self type servg.servs).symm, ?_, ?_⟩
    · intro serv different
      rw [if_neg fun inside => by omega]
      exact marked servg serv different
    · exact congrArg SServer.flags (modify_entries_self servg (servg.entryAt type id) _)
  · have filled : (servg.servs type).nelem + (id - (servg.servs type).nelem) = id := by omega
    obtain ⟨servs, entries⟩ := @pushUnused_of_room type (id - (servg.servs type).nelem) servg
      (by omega)
    rw [filled] at servs entries
    let full := servg.pushUnused type (id - (servg.servs type).nelem)
    have grown : full.servs type = { servg.servs type with nelem := id } := by
      change (servg.pushUnused type (id - (servg.servs type).nelem)).servs type = _
      rw [servs, Function.update_self]
    have next : full.nextEntry type = servg.entryAt type id := by
      rw [nextEntry, grown, entryAt]
    have inside : (full.servs type).nelem < (full.servs type).total := by
      rw [grown]
      exact room
    have group : servg.iinitServ type id =
        (full.pushRoom type).modify (servg.entryAt type id) fun entry =>
          { entry with flags := { inConfig := true } } := by
      rw [← next, ServGroup.iinitServ, if_neg below,
        sArrayPush_of_room inside]
    rw [Nat.max_eq_right (by omega), group]
    refine ⟨?_, ?_, ?_⟩
    · change Function.update full.servs type _ = _
      rw [grown]
      change Function.update (servg.pushUnused type (id - (servg.servs type).nelem)).servs type _ =
        _
      rw [servs, Function.update_idem]
    · intro serv different
      rw [marked _ serv different]
      exact entries serv
    · exact congrArg SServer.flags (modify_entries_self _ (servg.entryAt type id) _)

/-! ## The regions one after the other -/

theorem waiters_append (type id : Int) (regions : List Region) (region : Region) :
    waiters type id (regions ++ [region]) =
      if region.connects type id then
        Links.withLast (waiters type id regions) .waitForConn region.addr
      else waiters type id regions := by
  funext list
  cases list with
  | waitForConn =>
      change ((regions ++ [region]).filter fun region => region.connects type id).map Region.addr =
        _
      rw [List.filter_append, List.map_append, List.filter_singleton]
      by_cases connects : region.connects type id = true
      · rw [if_pos connects, connects, Links.withLast, Function.update_self]
        rfl
      · rw [if_neg connects, Bool.eq_false_iff.mpr connects]
        exact List.append_nil _
  | waitForIdentify => split <;> rfl
  | waitForPing => split <;> rfl
  | waitForPong => split <;> rfl

/-- The servers of the regions so far. -/
structure Introduced (servg : ServGroup) (type id : Int) (pwd : BitVec 32) (regions : List Region) :
    Prop where
  isType : servg.type = type
  isId : servg.id = id
  isPwd : servg.ipcPwd = pwd
  room : ∀ type, (servg.servs type).block = 0 ∧ (servg.servs type).total = 16 ∧
    (servg.servs type).nelem ≤ 15
  known : ∀ region ∈ regions, IsEntry servg.servs region.addr ∧
    servg.entries region.addr = region.entry
  free : ∀ type index, index < (servg.servs type).nelem →
    (∀ region ∈ regions, region.addr ≠ addrOf type index) → servg.Unused (addrOf type index)
  starting : servg.Starting (waiters type id regions)
  mine : ∀ own, servg.myself = some own → ∃ region ∈ regions, region.isMine type id = true ∧
    own = region.addr
  notMine : servg.myself = none → ∀ region ∈ regions, region.isMine type id = false

theorem introduced_sServgCreate (junk : ServAddr → SServer) (config : GroupConfig) :
    (sServgCreate junk config).Introduced config.type config.id config.ipcPwd [] where
  isType := rfl
  isId := rfl
  isPwd := rfl
  room := fun _ => ⟨rfl, rfl, Nat.zero_le _⟩
  known := fun _ member => absurd member List.not_mem_nil
  free := fun _ _ below => absurd below (Nat.not_lt_zero _)
  notMine := fun _ => List.forall_mem_nil _
  starting := by
    have none : waiters config.type config.id [] = fun _ => [] := by
      funext list
      cases list <;> rfl
    rw [none]
    exact starting_sServgCreate junk config
  mine := fun _ own => absurd own.symm (Option.some_ne_none _)

section

variable {id : Int} {pwd : BitVec 32} {regions : List Region} {region : Region}

theorem Introduced.mayCreate (introduced : servg.Introduced type id pwd regions) {place : Int}
    {index : Nat} (few : index ≤ 15) (new : ∀ region ∈ regions, region.addr ≠ addrOf place index) :
    servg.MayCreate place index := by
  obtain ⟨block, total, _⟩ := introduced.room place
  constructor
  · intro below
    rw [block]
    exact introduced.free place index below new
  · intro full
    rw [total] at full
    omega

/-- The loop body leaves the entries that `fillRegion` leaves. -/
theorem initRegion_shape (servg : ServGroup) (region : Region) {serv : ServAddr}
    (isServ : (servg.iinitServ region.type region.id).entryAt region.type region.id = serv) :
    (servg.initRegion region).servs = (servg.iinitServ region.type region.id).servs ∧
      (servg.initRegion region).ipcPwd = (servg.iinitServ region.type region.id).ipcPwd ∧
      (servg.initRegion region).entries =
        ((servg.iinitServ region.type region.id).fillRegion serv region).entries ∧
      (servg.initRegion region).myself =
        (((servg.iinitServ region.type region.id).fillRegion serv region).noteMyself serv
          region).myself := by
  subst isServ
  let created := servg.iinitServ region.type region.id
  let serv := created.entryAt region.type region.id
  obtain ⟨servs, entries, pwd, _⟩ := noteMyself_same (created.fillRegion serv region) serv region
  unfold ServGroup.initRegion
  dsimp only
  split
  · exact ⟨servs, pwd, entries, rfl⟩
  · exact ⟨servs, pwd, entries, rfl⟩

/-- The new server is linked if this server is to connect to it. -/
theorem Introduced.starting_initRegion (introduced : servg.Introduced type id pwd regions)
    (may : servg.MayCreate region.type region.id)
    (isAddr : (servg.iinitServ region.type region.id).entryAt region.type region.id =
      region.addr) :
    (servg.initRegion region).Starting (waiters type id (regions ++ [region])) := by
  obtain ⟨pushed, flags⟩ := introduced.starting.ordered.iinitServ region.valid may
  have note := noted_noteMyself (servg.iinitServ region.type region.id)
    ((servg.iinitServ region.type region.id).entryAt region.type region.id) region
  have owner := noteMyself_myself (servg.iinitServ region.type region.id)
    ((servg.iinitServ region.type region.id).entryAt region.type region.id) region
  rw [waiters_append, ← isAddr]
  unfold ServGroup.initRegion
  dsimp only
  rw [introduced.isType, introduced.isId]
  change ServGroup.Starting (if region.connects type id = true then _ else _) _
  by_cases connects : region.connects type id = true
  · rw [if_pos connects, if_pos connects]
    refine introduced.starting.listInsertTail pushed flags note ?_
    -- a server does not connect to itself
    rcases owner with old | ⟨_, sameType, sameId⟩
    · exact old
    · rw [pushed.keeps.same] at sameType sameId
      change region.type = servg.type at sameType
      change (region.id : Int) = servg.id at sameId
      rw [Region.connects, sameType, sameId, introduced.isType, introduced.isId, not_sDoIConnHim_self,
        Bool.and_false] at connects
      cases connects
  · rw [if_neg connects, if_neg connects]
    refine introduced.starting.listInit pushed flags note ?_
    rcases owner with old | ⟨new, _⟩
    · exact Or.inr old
    · exact Or.inl new

/-- What a region leaves in an array with room. -/
structure Entered (before after : ServGroup) (region : Region) : Prop where
  servs : after.servs = Function.update before.servs region.type
    { before.servs region.type with
      nelem := max (before.servs region.type).nelem (region.id + 1) }
  entry : after.entries region.addr = region.entry
  others : ∀ serv, serv ≠ region.addr → after.entries serv =
    if serv.type = region.type ∧ serv.block = (before.servs region.type).block ∧
        (before.servs region.type).nelem ≤ serv.index ∧ serv.index < region.id then
      { before.entries serv with flags := {}, conn := none }
    else before.entries serv

theorem addr_iinitServ (block : (servg.servs region.type).block = 0)
    (room : region.id < (servg.servs region.type).total) :
    (servg.iinitServ region.type region.id).entryAt region.type region.id = region.addr := by
  rw [entryAt, (iinitServ_of_room room).1, Function.update_self, block]
  rfl

theorem entered_initRegion (block : (servg.servs region.type).block = 0)
    (room : region.id < (servg.servs region.type).total) :
    servg.Entered (servg.initRegion region) region := by
  obtain ⟨servs, entries, flags⟩ := iinitServ_of_room room
  obtain ⟨sameServs, _, sameEntries, _⟩ := initRegion_shape servg region (addr_iinitServ block room)
  have before : servg.entryAt region.type region.id = region.addr := by
    rw [entryAt, block]
    rfl
  rw [before] at entries flags
  constructor
  case servs => exact sameServs.trans servs
  case entry =>
    rw [sameEntries, fillRegion, modify_entries_self, flags]
    rfl
  case others =>
    intro serv different
    rw [sameEntries, ← entries serv different]
    exact modify_entries_other _ different

section Entered

variable {after : ServGroup}

/-- The servers so far keep their entries. -/
theorem Entered.old (entered : servg.Entered after region) {serv : ServAddr}
    (entry : IsEntry servg.servs serv) (different : serv ≠ region.addr) :
    IsEntry after.servs serv ∧ after.entries serv = servg.entries serv := by
  have index := entry.index
  constructor
  · refine ⟨entry.type, ?_, ?_⟩
    · rw [entered.servs, entry.block]
      by_cases same : serv.type = region.type
      · rw [same, Function.update_self]
      · rw [Function.update_of_ne same]
    · rw [entered.servs]
      by_cases same : serv.type = region.type
      · rw [same] at index
        rw [same, Function.update_self]
        exact Nat.lt_of_lt_of_le index (Nat.le_max_left _ _)
      · rw [Function.update_of_ne same]
        exact index
  · rw [entered.others serv different, if_neg]
    rintro ⟨same, _, above, _⟩
    rw [same] at index
    omega

theorem Entered.new (entered : servg.Entered after region)
    (block : (servg.servs region.type).block = 0) : IsEntry after.servs region.addr := by
  refine ⟨region.valid, ?_, ?_⟩
  · change 0 = (after.servs region.type).block
    rw [entered.servs, Function.update_self, ← block]
  · change region.id < (after.servs region.type).nelem
    rw [entered.servs, Function.update_self]
    exact Nat.le_max_right _ _

/-- An entry that no region has described is unused. -/
theorem Entered.free (entered : servg.Entered after region)
    (block : (servg.servs region.type).block = 0) {place : Int} {index : Nat}
    (below : index < (after.servs place).nelem) (different : addrOf place index ≠ region.addr)
    (free : index < (servg.servs place).nelem → servg.Unused (addrOf place index)) :
    after.Unused (addrOf place index) := by
  rw [entered.servs] at below
  rw [Unused, entered.others _ different]
  split
  · exact ⟨rfl, rfl⟩
  next outside =>
    apply free
    by_cases same : place = region.type
    · subst same
      rw [Function.update_self] at below
      change index < max _ (region.id + 1) at below
      have notSelf : index ≠ region.id := by
        rintro rfl
        exact different rfl
      by_contra above
      have more : (servg.servs region.type).nelem ≤ index := by omega
      have less : index < region.id := by omega
      exact outside ⟨rfl, block.symm, more, less⟩
    · rw [Function.update_of_ne same] at below
      exact below

end Entered

/-- **One more region** leaves the servers so far as they are. -/
theorem Introduced.initRegion (introduced : servg.Introduced type id pwd regions)
    (few : region.id < 15) (new : ∀ other ∈ regions, other.addr ≠ region.addr) :
    (servg.initRegion region).Introduced type id pwd (regions ++ [region]) := by
  obtain ⟨block, total, full⟩ := introduced.room region.type
  have room : region.id < (servg.servs region.type).total := by omega
  have may := introduced.mayCreate (Nat.le_of_lt few) new
  obtain ⟨pushed, _⟩ := introduced.starting.ordered.iinitServ region.valid may
  have isAddr := addr_iinitServ block room
  have entered := entered_initRegion block room
  obtain ⟨_, samePwd, _, sameMyself⟩ := initRegion_shape servg region isAddr
  obtain ⟨sameType, sameId, isNone⟩ := initRegion_same servg region
  constructor
  case isType => exact sameType.trans introduced.isType
  case isId => exact sameId.trans introduced.isId
  case isPwd =>
    rw [samePwd, pushed.keeps.same]
    exact introduced.isPwd
  case room =>
    intro place
    rw [entered.servs]
    by_cases same : place = region.type
    · subst same
      rw [Function.update_self]
      exact ⟨block, total, by change max _ _ ≤ 15; omega⟩
    · rw [Function.update_of_ne same]
      exact introduced.room place
  case known =>
    intro other member
    rcases List.mem_append.mp member with old | isRegion
    · obtain ⟨entry, holds⟩ := introduced.known other old
      obtain ⟨stays, same⟩ := entered.old entry (new other old)
      exact ⟨stays, same.trans holds⟩
    · rw [List.mem_singleton.mp isRegion]
      exact ⟨entered.new block, entered.entry⟩
  case free =>
    intro place index below apart
    have different : addrOf place index ≠ region.addr :=
      fun same => apart region (List.mem_append_right _ (List.mem_singleton_self _)) same.symm
    refine entered.free block below different ?_
    exact fun inside => introduced.free place index inside
      fun other old => apart other (List.mem_append_left _ old)
  case starting => exact introduced.starting_initRegion may isAddr
  case mine =>
    intro own myself
    rw [sameMyself] at myself
    rcases noteMyself_myself (servg.iinitServ region.type region.id) region.addr region with
      old | ⟨isOwn, ownType, ownId⟩
    · rw [old, pushed.keeps.myself] at myself
      obtain ⟨other, member, isMine, isOther⟩ := introduced.mine own myself
      exact ⟨other, List.mem_append_left _ member, isMine, isOther⟩
    · rw [isOwn] at myself
      rw [pushed.keeps.same] at ownType ownId
      change region.type = servg.type at ownType
      change (region.id : Int) = servg.id at ownId
      refine ⟨region, List.mem_append_right _ (List.mem_singleton_self _), ?_,
        (Option.some.inj myself).symm⟩
      exact decide_eq_true ⟨ownType.trans introduced.isType, ownId.trans introduced.isId⟩
  case notMine =>
    intro none other member
    obtain ⟨noneBefore, notMine⟩ := isNone.mp none
    rcases List.mem_append.mp member with old | isRegion
    · exact introduced.notMine noneBefore other old
    · rw [List.mem_singleton.mp isRegion, ← introduced.isType, ← introduced.isId]
      exact notMine

/-- This server's own entry can be created if no region is its own. -/
theorem Introduced.mayCall (introduced : servg.Introduced type id pwd regions) (few : id < 15)
    (none : servg.myself = none) : servg.MayCall servg.type servg.id := by
  intro _
  rw [introduced.isType, introduced.isId]
  by_cases positive : 0 < id
  · rw [createIndex, if_pos positive]
    apply introduced.mayCreate (by omega)
    intro region member same
    have notMine := introduced.notMine none region member
    have isType : region.type = type := congrArg ServAddr.type same
    have isId : region.id = id.toNat := congrArg ServAddr.index same
    rw [Region.isMine, decide_eq_false_iff_not] at notMine
    exact notMine ⟨isType, by omega⟩
  · obtain ⟨_, total, full⟩ := introduced.room type
    rw [createIndex, if_neg positive]
    exact ⟨fun below => absurd below (Nat.lt_irrefl _), fun moves => by omega⟩

theorem Introduced.initRegions (few : id < 15) (rest : List Region) :
    ∀ {servg : ServGroup} {regions : List Region}, servg.Introduced type id pwd regions →
      (∀ region ∈ rest, region.id < 15) → ((regions ++ rest).map Region.addr).Nodup →
      (rest.foldl ServGroup.initRegion servg).Introduced type id pwd (regions ++ rest) ∧
        OrderlyRegions servg rest := by
  induction rest with
  | nil =>
      intro servg regions introduced _ _
      rw [List.append_nil]
      exact ⟨introduced, introduced.mayCall few⟩
  | cons region rest inductionHypothesis =>
      intro servg regions introduced fewer distinct
      have new : ∀ other ∈ regions, other.addr ≠ region.addr := by
        intro other member same
        rw [List.map_append, List.map_cons, List.nodup_append] at distinct
        exact distinct.2.2 other.addr (List.mem_map_of_mem member) region.addr
          List.mem_cons_self same
      have fewOf : region.id < 15 := fewer region List.mem_cons_self
      have next := introduced.initRegion fewOf new
      rw [List.append_cons] at distinct ⊢
      obtain ⟨introducedAll, orderly⟩ := inductionHypothesis next
        (fun other member => fewer other (List.mem_cons_of_mem _ member)) distinct
      exact ⟨introducedAll, introduced.mayCreate (Nat.le_of_lt fewOf) new, orderly⟩

end

/-- The end of the function keeps what is known of the other servers. -/
theorem follows_initMyself {config : GroupConfig} {group : ServGroup} {own : ServAddr}
    (isType : group.type = config.type) (isId : group.id = config.id)
    (isPwd : group.ipcPwd = config.ipcPwd)
    (known : ∀ region ∈ config.regions, region.isMine config.type config.id = false →
      IsEntry group.servs region.addr ∧ group.entries region.addr = region.entry ∧
        region.addr ≠ own)
    (ordered : group.Ordered (waiters config.type config.id config.regions) (some own))
    (unlisted : ∀ list, own ∉ waiters config.type config.id config.regions list) :
    (group.initMyself own).Follows config where
  isType := isType
  isId := isId
  isPwd := isPwd
  known := by
    intro region member notMine
    obtain ⟨entry, holds, different⟩ := known region member notMine
    have written : (group.initMyself own).entries region.addr = region.entry :=
      (initMyself_entries_other different).trans holds
    have found : (group.initMyself own).igetServ region.type region.id = some region.addr :=
      igetServ_of_isEntry entry
    refine ⟨?_, written⟩
    rw [sServgGetServInConfig, found, Option.filter_some, written]
    rfl
  waits := (ordered.listInit unlisted).1.family

/-- **A group with few servers starts**, and knows them. -/
theorem follows_sServgInitConfig {junk : ServAddr → SServer} {config : GroupConfig}
    (valid : validType config.type = true) (few : config.id < 15)
    (fewer : ∀ region ∈ config.regions, region.id < 15)
    (distinct : (config.regions.map Region.addr).Nodup) :
    ∃ servg, sServgInitConfig junk config = some servg ∧ servg.Sound ∧
      servg.Follows config := by
  obtain ⟨introduced, orderly⟩ := Introduced.initRegions few config.regions
    (introduced_sServgCreate junk config) fewer distinct
  rw [List.nil_append] at introduced
  suffices starts : ∃ servg, sServgInitConfig junk config = some servg ∧
      servg.Follows config by
    obtain ⟨servg, initial, follows⟩ := starts
    exact ⟨servg, initial, sound_sServgInitConfig orderly initial, follows⟩
  unfold ServGroup.sServgInitConfig
  dsimp only
  generalize config.regions.foldl ServGroup.initRegion (sServgCreate junk config) = group
    at introduced
  cases myself : group.myself with
  | some own =>
      obtain ⟨_, _, unlisted⟩ := introduced.starting.mine own myself
      obtain ⟨mine, _, isMine, isOwn⟩ := introduced.mine own myself
      refine ⟨_, rfl, follows_initMyself introduced.isType introduced.isId introduced.isPwd ?_
        (introduced.starting.ordered.except own) unlisted⟩
      intro region member notMine
      obtain ⟨entry, holds⟩ := introduced.known region member
      refine ⟨entry, holds, ?_⟩
      rintro same
      rw [isOwn] at same
      have sameType : region.type = mine.type := congrArg ServAddr.type same
      have sameId : region.id = mine.id := congrArg ServAddr.index same
      rw [Region.isMine, sameType, sameId] at notMine
      exact Bool.false_ne_true (notMine.symm.trans isMine)
  | none =>
      have may := introduced.mayCall few myself
      rw [introduced.isType] at may ⊢
      cases creation : group.sServgCreateServ config.type group.id with
      | none =>
          rw [ServGroup.sServgCreateServ, if_pos valid] at creation
          split at creation <;> cases creation
      | some both =>
          obtain ⟨created, serv⟩ := both
          obtain ⟨pushed, _⟩ :=
            introduced.starting.ordered.sServgCreateServ (may valid) creation
          have sameType : created.type = config.type := by
            rw [pushed.keeps.same]
            exact introduced.isType
          have sameId : created.id = config.id := by
            rw [pushed.keeps.same]
            exact introduced.isId
          have samePwd : created.ipcPwd = config.ipcPwd := by
            rw [pushed.keeps.same]
            exact introduced.isPwd
          refine ⟨_, rfl, follows_initMyself sameType sameId samePwd ?_ pushed.ordered
            pushed.fresh.unlisted⟩
          intro region member _
          obtain ⟨entry, holds⟩ := introduced.known region member
          have used : ¬ group.Unused region.addr := by
            intro unused
            have flags := unused.1
            rw [holds] at flags
            cases flags
          refine ⟨pushed.keeps.entry region.addr entry used, ?_, ?_⟩
          · rw [pushed.keeps.used region.addr entry used]
            exact holds
          · rintro rfl
            exact used (pushed.new entry)

end ServGroup

/-! ## From a file -/

theorem Deployment.nodup_addrs (deployment : Deployment) :
    ((deployment.servers.map Server.region).map Region.addr).Nodup := by
  have pairs : (deployment.servers.map Server.region).map Region.addr =
      (deployment.servers.map fun server => (server.kind, server.id)).map
        fun pair => addrOf pair.1.type pair.2 := by
    rw [List.map_map, List.map_map]
    rfl
  rw [pairs]
  refine deployment.distinct.map ?_
  rintro ⟨kind, id⟩ ⟨other, otherId⟩ same
  exact Prod.ext (ServerKind.type_inj (congrArg ServAddr.type same))
    (congrArg ServAddr.index same)

theorem isSpace_lineFeed : isSpace 10 = true := rfl

/-- An entry with nothing between its pieces, on a line. -/
def pairItem (pair : ConfigEntry) : ConfigItem :=
  .entry pair [] [] ⟨10, isSpace_lineFeed⟩

def sectionItems (region : ConfigSection) : List ConfigItem :=
  .header region.name [] :: region.entries.map pairItem

def tightItems (document : ConfigDocument) : List ConfigItem :=
  document.entries.map pairItem ++ document.regions.flatMap sectionItems

theorem documentOf_pairs (entries : List ConfigEntry) (items : List ConfigItem) :
    documentOf (entries.map pairItem ++ items) =
      ⟨entries ++ (documentOf items).entries, (documentOf items).regions⟩ := by
  induction entries with
  | nil => rfl
  | cons pair entries inductionHypothesis =>
      rw [List.map_cons, List.cons_append, pairItem, documentOf, inductionHypothesis]
      rfl

theorem documentOf_sections (regions : List ConfigSection) :
    documentOf (regions.flatMap sectionItems) = ⟨[], regions⟩ := by
  induction regions with
  | nil => rfl
  | cons region regions inductionHypothesis =>
      rw [List.flatMap_cons, sectionItems, List.cons_append, documentOf, documentOf_pairs,
        inductionHypothesis, List.append_nil]

/-- Every document has a rendering. -/
theorem renders_tightItems (document : ConfigDocument) :
    Renders document (textOf (tightItems document)) := by
  refine ⟨tightItems document, ?_, rfl⟩
  rw [tightItems, documentOf_pairs, documentOf_sections, List.append_nil]

def localToken : ConfigToken :=
  ⟨[49, 46, 48], by decide, plain_of_plainText rfl⟩

/-- A server `kind-id`. -/
def localServer (kind : ServerKind) (id : Nat) (positive : 0 < id) (small : id < 2 ^ 31) :
    Server where
  kind := kind
  separator := 45
  plain := by decide
  visible := by decide
  id := id
  positive := positive
  small := small
  ip := localToken
  port := 80
  isInt := by decide
  others := []

/-- Two meta servers. -/
def localPair : Deployment where
  settings := { secForTimeover := 9, secForPingpong := 1, secForReconnect := 1, ipcPwd := 7 }
  timeover := by decide
  pingpong := by decide
  reconnect := by decide
  pwd := by decide
  others := []
  servers := [localServer .mserver 1 (by decide) (by decide),
    localServer .mserver 2 (by decide) (by decide)]
  distinct := by decide

end SimpleDfs.ServerGroup
