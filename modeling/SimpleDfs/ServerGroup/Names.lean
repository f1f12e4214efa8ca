import SimpleDfs.ServerGroup.CallMoves
import SimpleDfs.ServerGroup.ListLaw

/-!
Contract: the type and the id in the entry of a server (`serv_group/s_server_group.c`).

Owns: that an entry in use carries the type of its array and its own index as id, from
the configuration on and through every step of an orderly run; that the group's own entry
has the type and the id of the group.

The users of a group compare what `s_servg_get_type` and `s_servg_get_id` return with
their own type and id; an entry that nobody uses may hold anything.

Does not own: which servers are active.
-/

set_option autoImplicit false

namespace SimpleDfs.ServerGroup

open SimpleDfs.Library

namespace ServGroup

/-! ## Statements -/

/-- `s_servg_get_type` and `s_servg_get_id` of the entry are its place. -/
def Named (servg : ServGroup) (serv : ServAddr) : Prop :=
  (servg.entries serv).type = serv.type ∧ (servg.entries serv).id = serv.index

/-- The entries in use but for one carry their names. -/
def NamedBut (servg : ServGroup) (hole : Option ServAddr) : Prop :=
  ∀ serv, IsEntry servg.servs serv → hole ≠ some serv → ¬ servg.Unused serv → servg.Named serv

/-- All entries in use carry their names, and the group's own entry is where the type and
the id of the group say; an id that is not positive stands for any place. -/
structure AllNamed (servg : ServGroup) (type id : Int) : Prop where
  names : servg.NamedBut none
  own : ∀ own, servg.myself = some own →
    own.type = type ∧ (0 < id → (own.index : Int) = id)
  isType : servg.type = type
  isId : servg.id = id

/-! ## Steps on entries that exist -/

/-- The group stays who it is. -/
structure SameSelf (before after : ServGroup) : Prop where
  type : after.type = before.type
  id : after.id = before.id
  myself : after.myself = before.myself

theorem SameSelf.trans {first second third : ServGroup} (early : SameSelf first second)
    (late : SameSelf second third) : SameSelf first third :=
  ⟨late.type.trans early.type, late.id.trans early.id, late.myself.trans early.myself⟩

/-- The names stay, and but for one entry none comes into use. -/
structure NamesKept (before after : ServGroup) (hole : Option ServAddr) : Prop where
  self : SameSelf before after
  servs : after.servs = before.servs
  names : ∀ serv, (after.entries serv).type = (before.entries serv).type ∧
    (after.entries serv).id = (before.entries serv).id
  unused : ∀ serv, hole ≠ some serv → before.Unused serv → after.Unused serv

variable {servg before after last : ServGroup} {serv : ServAddr} {hole : Option ServAddr}
  {conn : Nat} {pkt : GroupPacket} {env : Env}

theorem NamesKept.refl (servg : ServGroup) : NamesKept servg servg hole :=
  ⟨⟨rfl, rfl, rfl⟩, rfl, fun _ => ⟨rfl, rfl⟩, fun _ _ unused => unused⟩

/-- An operation that does not write to the entries. -/
theorem NamesKept.of_entries (type : after.type = before.type) (id : after.id = before.id)
    (myself : after.myself = before.myself) (servs : after.servs = before.servs)
    (entries : after.entries = before.entries) : NamesKept before after hole := by
  refine ⟨⟨type, id, myself⟩, servs, ?_, ?_⟩
  · intro serv
    rw [entries]
    exact ⟨rfl, rfl⟩
  · intro serv _ unused
    rw [Unused, entries]
    exact unused

theorem NamesKept.trans (early : NamesKept before after hole) (late : NamesKept after last hole) :
    NamesKept before last hole := by
  refine ⟨early.self.trans late.self, late.servs.trans early.servs, ?_, ?_⟩
  · exact fun serv => ⟨(late.names serv).1.trans (early.names serv).1,
      (late.names serv).2.trans (early.names serv).2⟩
  · exact fun serv inside unused => late.unused serv inside (early.unused serv inside unused)

theorem NamesKept.except (kept : NamesKept before after none) : NamesKept before after hole :=
  ⟨kept.self, kept.servs, kept.names, fun serv _ => kept.unused serv (by simp)⟩

/-- An entry that is in use already does not come into use. -/
theorem NamesKept.of_used (kept : NamesKept before after (some serv))
    (used : ¬ before.Unused serv) : NamesKept before after none := by
  refine ⟨kept.self, kept.servs, kept.names, ?_⟩
  intro other _ unused
  apply kept.unused other _ unused
  intro same
  rw [Option.some.inj same] at used
  exact used unused

/-- An operation that only writes to one entry. -/
theorem NamesKept.of_others (self : SameSelf before after) (servs : after.servs = before.servs)
    (others : ∀ other, other ≠ serv → after.entries other = before.entries other)
    (names : (after.entries serv).type = (before.entries serv).type ∧
      (after.entries serv).id = (before.entries serv).id) :
    NamesKept before after (some serv) := by
  refine ⟨self, servs, ?_, ?_⟩
  · intro other
    by_cases same : other = serv
    · rw [same]
      exact names
    · rw [others other same]
      exact ⟨rfl, rfl⟩
  · intro other inside unused
    rw [Unused, others other fun same => inside (congrArg some same.symm)]
    exact unused

theorem namesKept_modify (servg : ServGroup) (serv : ServAddr) {f : SServer → SServer}
    (names : ∀ entry, (f entry).type = entry.type ∧ (f entry).id = entry.id) :
    NamesKept servg (servg.modify serv f) (some serv) := by
  refine NamesKept.of_others ⟨rfl, rfl, rfl⟩ rfl ?_ ?_
  · exact fun other different => modify_entries_other f different
  · rw [modify_entries_self]
    exact names _

/-- Write to an entry that is not in use afterwards if it was not before. -/
theorem namesKept_modify_quiet (servg : ServGroup) (serv : ServAddr) {f : SServer → SServer}
    (names : ∀ entry, (f entry).type = entry.type ∧ (f entry).id = entry.id)
    (quiet : ∀ entry, entry.flags = {} → entry.conn = none →
      (f entry).flags = {} ∧ (f entry).conn = none) :
    NamesKept servg (servg.modify serv f) none := by
  have kept := namesKept_modify servg serv names
  refine ⟨kept.self, kept.servs, kept.names, ?_⟩
  intro other _ unused
  by_cases same : other = serv
  · subst same
    rw [Unused, modify_entries_self]
    exact quiet _ unused.1 unused.2
  · exact kept.unused other (fun isSome => same (Option.some.inj isSome).symm) unused

theorem namesKept_resetUnconnected (servg : ServGroup) (serv : ServAddr) :
    NamesKept servg (servg.resetUnconnected serv) none := by
  have marked := namesKept_modify_quiet servg serv
    (f := fun entry => { entry with flags := { inConfig := entry.flags.inConfig } })
    (fun _ => ⟨rfl, rfl⟩) fun entry flags conn => ⟨by rw [flags], conn⟩
  refine marked.trans (NamesKept.of_entries ?_ ?_ ?_ ?_ resetUnconnected_entries)
  · unfold resetUnconnected
    dsimp only
    split_ifs <;> rfl
  · unfold resetUnconnected
    dsimp only
    split_ifs <;> rfl
  · exact resetUnconnected_myself
  · exact resetUnconnected_servs

/-- The server of a connection that is closed gives it up. -/
theorem namesKept_release (servg : ServGroup) (serv : ServAddr) :
    NamesKept servg (servg.modify serv fun entry => { entry with conn := none }) none :=
  namesKept_modify_quiet servg serv (fun _ => ⟨rfl, rfl⟩) fun _ flags _ => ⟨flags, rfl⟩

theorem namesKept_sNetClose (closed : servg.sNetClose conn = some after) :
    NamesKept servg after none := by
  rw [sNetClose, Option.map_eq_some_iff] at closed
  obtain ⟨middle, closing, rfl⟩ := closed
  have kept : NamesKept servg middle none := by
    rw [iwhenConnClosed] at closing
    split at closing
    · cases closing
      exact NamesKept.refl servg
    · rename_i serv _
      dsimp only at closing
      split at closing
      · split at closing
        · cases closing
        · rw [← Option.some.inj closing]
          refine (namesKept_release servg serv).trans (NamesKept.trans ?_
            (namesKept_resetUnconnected _ serv))
          exact .of_entries rfl rfl rfl rfl rfl
      · rw [← Option.some.inj closing]
        exact (namesKept_release servg serv).trans (namesKept_resetUnconnected _ serv)
  exact kept.trans (.of_entries rfl rfl rfl rfl rfl)

theorem namesKept_sNetSend (sent : servg.sNetSend conn pkt env = some after) :
    NamesKept servg after none := by
  have queued : NamesKept servg { servg with sent := servg.sent ++ [(conn, pkt)] } none :=
    .of_entries rfl rfl rfl rfl rfl
  rw [sNetSend] at sent
  split at sent
  · exact queued.trans (namesKept_sNetClose sent)
  · cases sent
    exact queued

theorem namesKept_sServgResetServ (reset : servg.sServgResetServ serv = some after) :
    NamesKept servg after none := by
  rw [sServgResetServ] at reset
  split at reset
  · rw [← Option.some.inj reset]
    exact namesKept_resetUnconnected servg serv
  · rw [Option.map_eq_some_iff] at reset
    obtain ⟨middle, closed, rfl⟩ := reset
    exact (namesKept_sNetClose closed).trans ((namesKept_release middle serv).trans
      (namesKept_resetUnconnected _ serv))

theorem namesKept_isend (sent : servg.isend serv pkt env = some after) :
    NamesKept servg after none := by
  rw [isend] at sent
  split at sent
  · cases sent
    exact .of_entries rfl rfl rfl rfl rfl
  · split at sent
    · cases sent
    · exact namesKept_sNetSend sent

theorem namesKept_sServgRpcCall {ud callback : Nat} {msecTimeout : Int} {now : Timeval}
    (called : servg.sServgRpcCall serv pkt ud callback msecTimeout now env = some after) :
    NamesKept servg after none := by
  have counted : NamesKept servg (servg.countCall serv) none :=
    namesKept_modify_quiet servg serv (fun _ => ⟨rfl, rfl⟩) fun _ flags conn => ⟨flags, conn⟩
  rw [sServgRpcCall] at called
  split at called
  · cases called
  · refine counted.trans (NamesKept.trans ?_ (namesKept_isend called))
    exact .of_entries rfl rfl rfl rfl rfl

theorem namesKept_checkTimeouts (now : Timeval) (params : List Nat) :
    NamesKept servg (servg.checkTimeouts now params) none := by
  induction params with
  | nil => exact .of_entries rfl rfl rfl rfl rfl
  | cons param rest inductionHypothesis =>
      rw [checkTimeouts]
      split
      · exact .of_entries rfl rfl rfl rfl rfl
      · exact inductionHypothesis

theorem namesKept_forgetCall {req : BitVec 32} (forgot : servg.forgetCall serv req = some after) :
    NamesKept servg after none := by
  rw [forgetCall] at forgot
  split at forgot
  · cases forgot
  · cases forgot
    exact .of_entries rfl rfl rfl rfl rfl

theorem namesKept_afterCallback (returned : servg.afterCallback = some after) :
    NamesKept servg after none := by
  rw [afterCallback] at returned
  split at returned
  · refine NamesKept.trans ?_ (namesKept_forgetCall returned)
    exact .of_entries rfl rfl rfl rfl rfl
  · dsimp only at returned
    split at returned
    · cases returned
    next forgot =>
      cases returned
      refine NamesKept.trans ?_ ((namesKept_forgetCall forgot).trans (namesKept_checkTimeouts _ _))
      exact .of_entries rfl rfl rfl rfl rfl
  · cases returned

/-- A server that has a connection may be established. -/
theorem namesKept_ihandleIdentifyBack (used : ¬ servg.Unused serv)
    (handled : servg.ihandleIdentifyBack serv pkt = some after) : NamesKept servg after none := by
  rw [ihandleIdentifyBack] at handled
  split at handled
  · split at handled
    · rw [← Option.some.inj handled]
      refine NamesKept.of_used (NamesKept.of_others ⟨rfl, rfl, rfl⟩ rfl ?_ ?_) used
      · intro other different
        simp [ServGroup.createHash, ServGroup.listDel, ServGroup.listInsertTail, modify_entries,
          different]
      · simp [ServGroup.createHash, ServGroup.listDel, ServGroup.listInsertTail]
    · exact namesKept_sServgResetServ handled
  · exact namesKept_sServgResetServ handled

theorem namesKept_mem (servg : ServGroup) (serv : ServAddr) (mem : BitVec 32) :
    NamesKept servg (servg.modify serv fun entry => { entry with mem := mem }) none :=
  namesKept_modify_quiet servg serv (fun _ => ⟨rfl, rfl⟩) fun _ flags conn => ⟨flags, conn⟩

theorem namesKept_ihandlePing (handled : servg.ihandlePing serv pkt env = some after) :
    NamesKept servg after none := by
  rw [ihandlePing] at handled
  dsimp only at handled
  split at handled
  · cases handled
  · refine NamesKept.trans ?_ (namesKept_sNetSend handled)
    split
    · exact NamesKept.refl servg
    · exact namesKept_mem servg serv _

theorem namesKept_ihandlePong (servg : ServGroup) (serv : ServAddr) (pkt : GroupPacket)
    (env : Env) : NamesKept servg (servg.ihandlePong serv pkt env) none := by
  unfold ihandlePong
  split
  · exact (namesKept_mem servg serv _).trans (.of_entries rfl rfl rfl rfl rfl)
  · exact NamesKept.refl servg

theorem namesKept_dispatch {opening : Nat}
    (used : pkt.fn = sPktTypeIdentifyBack → ¬ servg.Unused serv)
    (handled : servg.dispatch serv opening pkt env = some after) : NamesKept servg after none := by
  rw [dispatch] at handled
  split at handled
  · rw [ihandleRpcBack] at handled
    split at handled
    · cases handled
    · split at handled
      · cases handled
        exact NamesKept.refl servg
      · cases handled
        exact .of_entries rfl rfl rfl rfl rfl
  · split at handled
    next isBack => exact namesKept_ihandleIdentifyBack (used isBack) handled
    · split at handled
      · exact namesKept_ihandlePing handled
      · split at handled
        · cases handled
          exact namesKept_ihandlePong servg serv pkt env
        · cases handled
          exact NamesKept.refl servg

/-- The end of `ihandle_identify` takes the entry into use. -/
theorem namesKept_establish {mem : BitVec 32}
    (established : servg.establish conn serv mem env = some after) :
    NamesKept servg after (some serv) := by
  rw [establish_eq] at established
  have moved : NamesKept (servg.tied conn serv mem)
      (((servg.tied conn serv mem).listDel serv).listInsertTail .waitForPing serv) none :=
    .of_entries rfl rfl rfl rfl rfl
  refine NamesKept.trans ?_ (moved.trans (namesKept_sNetSend established)).except
  refine NamesKept.of_others ⟨rfl, rfl, rfl⟩ rfl ?_ ?_
  · intro other different
    simp [tied, ServGroup.createHash, ServGroup.setUdata, modify_entries, different]
  · simp [tied, ServGroup.createHash, ServGroup.setUdata]

/-- A server of the list of those to connect to is in use. -/
theorem namesKept_checkListStep {attempt : Attempt}
    (stepped : servg.checkListStep attempt = some after) : NamesKept servg after none := by
  rw [checkListStep] at stepped
  split at stepped
  next p tmp _ =>
    split at stepped
    · cases stepped
      exact .of_entries rfl rfl rfl rfl rfl
    next serv _ =>
      dsimp only at stepped
      split at stepped
      next waits =>
        have used : ¬ servg.Unused serv := by
          intro unused
          have inConfig := waits.2
          rw [unused.1] at inConfig
          cases inConfig
        split at stepped
        · cases stepped
          exact .of_entries rfl rfl rfl rfl rfl
        · cases stepped
          exact .of_entries rfl rfl rfl rfl rfl
        · cases stepped
        next conn env ip _ =>
          rw [Option.map_eq_some_iff] at stepped
          obtain ⟨middle, sent, rfl⟩ := stepped
          have kept := (namesKept_sNetSend sent).trans
            (NamesKept.of_entries rfl rfl rfl rfl rfl : NamesKept middle
              (middle.nextCheckList tmp) none)
          apply NamesKept.of_used (NamesKept.trans ?_ kept.except) used
          refine NamesKept.of_others ⟨rfl, rfl, rfl⟩ rfl ?_ ?_
          · intro other different
            simp [ServGroup.openConn, ServGroup.listDel, ServGroup.listInsertTail,
              ServGroup.setUdata, modify_entries, different]
          · simp [ServGroup.openConn, ServGroup.listDel, ServGroup.listInsertTail,
              ServGroup.setUdata]
      · cases stepped
  · cases stepped

/-- What keeps the names keeps them right. -/
theorem NamedBut.kept (named : before.NamedBut none) (kept : NamesKept before after hole)
    (isNamed : ∀ serv, hole = some serv → before.Named serv) : after.NamedBut none := by
  intro serv entry _ used
  rw [kept.servs] at entry
  rw [Named, (kept.names serv).1, (kept.names serv).2]
  by_cases atHole : hole = some serv
  · exact isNamed serv atHole
  · exact named serv entry (by simp) fun unused => used (kept.unused serv atHole unused)

theorem AllNamed.kept {type id : Int} (named : before.AllNamed type id)
    (kept : NamesKept before after hole)
    (isNamed : ∀ serv, hole = some serv → before.Named serv) : after.AllNamed type id := by
  refine ⟨named.names.kept kept isNamed, ?_, kept.self.type.trans named.isType,
    kept.self.id.trans named.isId⟩
  rw [kept.self.myself]
  exact named.own

/-! ## New entries -/

variable {type : Int}

/-- An array that moves takes the names with it. -/
theorem NamedBut.expand (named : servg.NamedBut none) : (servg.expand type).NamedBut none := by
  intro serv entry _ used
  by_cases same : serv.type = type
  · obtain ⟨servType, block, index⟩ := serv
    have isBlock := entry.block
    have below := entry.index
    dsimp only at same
    subst same
    rw [expand_servs_self] at isBlock below
    dsimp only at isBlock below
    subst isBlock
    rw [Unused, expand_entries_moved below] at used
    rw [Named, expand_entries_moved below]
    exact named ⟨servType, _, index⟩ ⟨entry.type, rfl, below⟩ (by simp) used
  · have isBlock := entry.block
    have below := entry.index
    rw [expand_servs_other same] at isBlock below
    rw [Unused, expand_entries_other same] at used
    rw [Named, expand_entries_other same]
    exact named serv ⟨entry.type, isBlock, below⟩ (by simp) used

theorem NamedBut.room (named : servg.NamedBut none) : (servg.room type).NamedBut none := by
  unfold ServGroup.room
  split
  · exact named.expand
  · exact named

theorem NamedBut.pushRoom (named : servg.NamedBut none) :
    (servg.pushRoom type).NamedBut (some (servg.nextEntry type)) := by
  intro serv entry inside used
  rcases isEntry_pushRoom.mp entry with old | ⟨_, new⟩
  · exact named serv old (by simp) used
  · exact absurd (congrArg some new.symm) inside

theorem NamedBut.sArrayPush (named : servg.NamedBut none) :
    (servg.sArrayPush type).1.NamedBut (some (servg.sArrayPush type).2) := by
  rw [sArrayPush_eq]
  exact named.room.pushRoom

theorem NamedBut.congr (named : before.NamedBut hole) (servs : after.servs = before.servs)
    (entries : after.entries = before.entries) : after.NamedBut hole := by
  intro serv entry inside used
  rw [servs] at entry
  rw [Unused, entries] at used
  rw [Named, entries]
  exact named serv entry inside used

theorem NamedBut.modify (named : servg.NamedBut (some serv)) (f : SServer → SServer) :
    (servg.modify serv f).NamedBut (some serv) := by
  intro other entry inside used
  have different : other ≠ serv := fun same => inside (same ▸ rfl)
  rw [Unused, modify_entries_other f different] at used
  rw [Named, modify_entries_other f different]
  exact named other entry inside used

theorem NamedBut.fill (named : servg.NamedBut (some serv))
    (isNamed : ¬ servg.Unused serv → servg.Named serv) : servg.NamedBut none := by
  intro other entry _ used
  by_cases same : other = serv
  · subst same
    exact isNamed used
  · exact named other entry (fun isSome => same (Option.some.inj isSome).symm) used

theorem NamedBut.pushUnused (count : Nat) : ∀ {servg : ServGroup}, servg.NamedBut none →
    (servg.pushUnused type count).NamedBut none := by
  induction count with
  | zero => exact fun named => named
  | succ count inductionHypothesis =>
      intro servg named
      rw [ServGroup.pushUnused]
      apply inductionHypothesis
      apply (named.sArrayPush.modify _).fill
      intro used
      apply absurd _ used
      rw [Unused, modify_entries_self]
      exact ⟨rfl, rfl⟩

theorem nelem_room (servg : ServGroup) (type : Int) :
    ((servg.room type).servs type).nelem = (servg.servs type).nelem := by
  unfold ServGroup.room
  split
  · rw [expand_servs_self]
  · rfl

theorem nelem_pushUnused (type : Int) (count : Nat) : ∀ servg : ServGroup,
    ((servg.pushUnused type count).servs type).nelem = (servg.servs type).nelem + count := by
  induction count with
  | zero => exact fun _ => rfl
  | succ count inductionHypothesis =>
      intro servg
      rw [ServGroup.pushUnused, inductionHypothesis]
      change ((servg.pushOne type).servs type).nelem + count = _
      rw [pushOne_servs, nelem_room]
      dsimp only
      omega

theorem NamedBut.iinitServ (named : servg.NamedBut none) {index : Nat} :
    (servg.iinitServ type index).NamedBut
      (some ((servg.iinitServ type index).entryAt type index)) := by
  by_cases below : index < (servg.servs type).nelem
  · rw [ServGroup.iinitServ, if_pos below]
    have except : servg.NamedBut (some (servg.entryAt type index)) :=
      fun serv entry _ => named serv entry (by simp)
    exact except.modify _
  · let filled := servg.pushUnused type (index - (servg.servs type).nelem)
    have nelem : ((filled.room type).servs type).nelem = index := by
      rw [nelem_room, nelem_pushUnused]
      omega
    have atIndex : (filled.sArrayPush type).2 =
        (servg.iinitServ type index).entryAt type index := by
      simp [filled, entryAt, ServGroup.iinitServ, below, sArrayPush_eq, ServGroup.modify, nextEntry,
        pushRoom_block]
      exact nelem
    have group : servg.iinitServ type index =
        (filled.sArrayPush type).1.modify (filled.sArrayPush type).2 fun entry =>
          { entry with flags := { inConfig := true } } := by
      simp only [ServGroup.iinitServ, below, if_false]
      rfl
    rw [← atIndex, group]
    exact (named.pushUnused _).sArrayPush.modify _

theorem sameSelf_sArrayPush (servg : ServGroup) (type : Int) :
    SameSelf servg (servg.sArrayPush type).1 := by
  unfold ServGroup.sArrayPush
  dsimp only
  split <;> exact ⟨rfl, rfl, rfl⟩

theorem sameSelf_pushUnused (type : Int) (count : Nat) :
    ∀ servg : ServGroup, SameSelf servg (servg.pushUnused type count) := by
  induction count with
  | zero => exact fun _ => ⟨rfl, rfl, rfl⟩
  | succ count inductionHypothesis =>
      intro servg
      rw [ServGroup.pushUnused]
      refine (sameSelf_sArrayPush servg type).trans (SameSelf.trans ?_ (inductionHypothesis _))
      exact ⟨rfl, rfl, rfl⟩

theorem sameSelf_iinitServ (servg : ServGroup) (type : Int) (index : Nat) :
    SameSelf servg (servg.iinitServ type index) := by
  unfold ServGroup.iinitServ
  dsimp only
  split
  · exact ⟨rfl, rfl, rfl⟩
  · have filled := sameSelf_pushUnused type (index - (servg.servs type).nelem) servg
    refine (filled.trans (sameSelf_sArrayPush _ type)).trans ?_
    exact ⟨rfl, rfl, rfl⟩

theorem sameSelf_sServgCreateServ {id : Int}
    (created : servg.sServgCreateServ type id = some (after, serv)) : SameSelf servg after := by
  rw [ServGroup.sServgCreateServ] at created
  split at created
  · split at created
    · have isAfter : _ = after := congrArg Prod.fst (Option.some.inj created)
      rw [← isAfter]
      exact (sameSelf_iinitServ servg type id.toNat).trans ⟨rfl, rfl, rfl⟩
    · have isAfter : _ = after := congrArg Prod.fst (Option.some.inj created)
      rw [← isAfter]
      exact (sameSelf_sArrayPush servg type).trans ⟨rfl, rfl, rfl⟩
  · cases created

/-- `s_servg_create_serv` names the entry it creates, at the index of the id it is given. -/
theorem NamedBut.sServgCreateServ (named : servg.NamedBut none) {id : Int}
    (created : servg.sServgCreateServ type id = some (after, serv)) :
    after.NamedBut none ∧ after.Named serv ∧ serv.type = type ∧
      (0 < id → (serv.index : Int) = id) := by
  rw [ServGroup.sServgCreateServ] at created
  split at created
  case isFalse => cases created
  case isTrue valid =>
    split at created
    case isTrue positive =>
      simp only [Option.some.injEq, Prod.mk.injEq] at created
      obtain ⟨rfl, rfl⟩ := created
      have written := (@NamedBut.iinitServ servg type named id.toNat).modify fun entry =>
        { entry with flags := {}, id := id, type := type }
      have isId : id = (id.toNat : Int) := (Int.toNat_of_nonneg (Int.le_of_lt positive)).symm
      have isNamed : ((servg.iinitServ type id.toNat).modify
          ((servg.iinitServ type id.toNat).entryAt type id.toNat) fun entry =>
            { entry with flags := {}, id := id, type := type }).Named
          ((servg.iinitServ type id.toNat).entryAt type id.toNat) := by
        rw [Named, modify_entries_self]
        exact ⟨rfl, isId⟩
      exact ⟨written.fill fun _ => isNamed, isNamed, rfl, fun _ => isId.symm⟩
    case isFalse negative =>
      simp only [Option.some.injEq, Prod.mk.injEq] at created
      obtain ⟨rfl, rfl⟩ := created
      have written := (@NamedBut.sArrayPush servg type named).modify fun _ =>
        { zeroServer with id := (servg.servs type).nelem, type := type }
      have isNamed : ((servg.sArrayPush type).1.modify (servg.sArrayPush type).2 fun _ =>
            { zeroServer with id := (servg.servs type).nelem, type := type }).Named
          (servg.sArrayPush type).2 := by
        rw [Named, modify_entries_self, sArrayPush_eq, nextEntry]
        dsimp only
        rw [nelem_room]
        exact ⟨rfl, rfl⟩
      exact ⟨written.fill fun _ => isNamed, isNamed, rfl, fun positive => absurd positive negative⟩

theorem AllNamed.sServgCreateServ {ownType ownId id : Int} (named : servg.AllNamed ownType ownId)
    (created : servg.sServgCreateServ type id = some (after, serv)) :
    after.AllNamed ownType ownId := by
  have same := sameSelf_sServgCreateServ created
  refine ⟨(named.names.sServgCreateServ created).1, ?_, same.type.trans named.isType,
    same.id.trans named.isId⟩
  rw [same.myself]
  exact named.own

/-! ## The configuration -/

theorem allNamed_sServgCreate (junk : ServAddr → SServer) (config : GroupConfig) :
    (sServgCreate junk config).AllNamed config.type config.id where
  names := fun _ entry => absurd entry.index (Nat.not_lt_zero _)
  own := fun own isOwn => absurd isOwn.symm (Option.some_ne_none own)
  isType := rfl
  isId := rfl

theorem noteMyself_same (created : ServGroup) (serv : ServAddr) (region : Region) :
    (created.noteMyself serv region).servs = created.servs ∧
      (created.noteMyself serv region).entries = created.entries ∧
      (created.noteMyself serv region).ipcPwd = created.ipcPwd ∧
      (created.noteMyself serv region).type = created.type ∧
      (created.noteMyself serv region).id = created.id := by
  unfold ServGroup.noteMyself
  split <;> exact ⟨rfl, rfl, rfl, rfl, rfl⟩

/-- A region names its entry. -/
theorem AllNamed.initRegion {ownType ownId : Int} (named : servg.AllNamed ownType ownId)
    (region : Region) : (servg.initRegion region).AllNamed ownType ownId := by
  let created := servg.iinitServ region.type region.id
  let serv := created.entryAt region.type region.id
  let noted := (created.fillRegion serv region).noteMyself serv region
  have same := sameSelf_iinitServ servg region.type region.id
  have filled : (created.fillRegion serv region).NamedBut none := by
    have written := @NamedBut.iinitServ servg region.type named.names region.id
    refine @NamedBut.fill (created.fillRegion serv region) serv (written.modify _) fun _ => ?_
    simp [Named, ServGroup.fillRegion, serv, entryAt]
  obtain ⟨servs, entries, _, noteType, noteId⟩ :=
    noteMyself_same (created.fillRegion serv region) serv region
  have allNamed : noted.AllNamed ownType ownId := by
    refine ⟨filled.congr servs entries, ?_, noteType.trans (same.type.trans named.isType),
      noteId.trans (same.id.trans named.isId)⟩
    intro own isOwn
    rcases noteMyself_myself created serv region with old | ⟨new, isType, isId⟩
    · rw [old, same.myself] at isOwn
      exact named.own own isOwn
    · rw [new] at isOwn
      cases isOwn
      rw [same.type, named.isType] at isType
      rw [same.id, named.isId] at isId
      exact ⟨isType, fun _ => isId⟩
  have listed : ∀ after, SameSelf noted after → after.servs = noted.servs →
      after.entries = noted.entries → after.AllNamed ownType ownId := by
    intro after self servs entries
    exact @AllNamed.kept noted after none ownType ownId allNamed
      (.of_entries self.type self.id self.myself servs entries) (by simp)
  unfold ServGroup.initRegion
  dsimp only
  split
  · exact listed _ ⟨rfl, rfl, rfl⟩ rfl rfl
  · exact listed _ ⟨rfl, rfl, rfl⟩ rfl rfl

theorem AllNamed.initRegions {ownType ownId : Int} (regions : List Region) :
    ∀ {servg : ServGroup}, servg.AllNamed ownType ownId →
      (regions.foldl ServGroup.initRegion servg).AllNamed ownType ownId := by
  induction regions with
  | nil => exact fun named => named
  | cons region rest inductionHypothesis =>
      exact fun named => inductionHypothesis (named.initRegion region)

theorem initMyself_entries_other {other : ServAddr} (different : other ≠ serv) :
    (servg.initMyself serv).entries other = servg.entries other := by
  simp [ServGroup.initMyself, ServGroup.listInit, ServGroup.createHash, modify_entries, different]

/-- The own entry keeps its name. -/
theorem AllNamed.initMyself {ownType ownId : Int} (named : servg.AllNamed ownType ownId)
    (isNamed : servg.Named serv) (isType : serv.type = ownType)
    (isIndex : 0 < ownId → (serv.index : Int) = ownId) :
    (servg.initMyself serv).AllNamed ownType ownId where
  names := by
    intro other entry _ used
    by_cases same : other = serv
    · subst same
      simpa [Named, ServGroup.initMyself, ServGroup.createHash, ServGroup.listInit] using isNamed
    · rw [Unused, initMyself_entries_other same] at used
      rw [Named, initMyself_entries_other same]
      exact named.names other entry (by simp) used
  own := by
    intro own isOwn
    cases isOwn
    exact ⟨isType, isIndex⟩
  isType := named.isType
  isId := named.isId

theorem allNamed_sServgInitConfig {junk : ServAddr → SServer} {config : GroupConfig}
    {start : ServGroup} (orderly : OrderlyConfig junk config)
    (initial : sServgInitConfig junk config = some start) :
    start.AllNamed config.type config.id := by
  obtain ⟨lists, starting, _⟩ :=
    (starting_sServgCreate junk config).initRegions config.regions orderly
  have named := (allNamed_sServgCreate junk config).initRegions config.regions
  rw [sServgInitConfig] at initial
  split at initial
  next serv myself =>
    cases initial
    obtain ⟨entry, flags, _⟩ := starting.mine serv myself
    have used : ¬ (config.regions.foldl ServGroup.initRegion (sServgCreate junk config)).Unused
        serv := by
      intro unused
      rw [unused.1] at flags
      cases flags
    obtain ⟨isType, isIndex⟩ := named.own serv myself
    exact named.initMyself (named.names serv entry (by simp) used) isType isIndex
  next =>
    split at initial
    · cases initial
    next created serv creation =>
      cases initial
      obtain ⟨_, isNamed, isType, isIndex⟩ := named.names.sServgCreateServ creation
      rw [named.isType] at isType
      rw [named.isId] at isIndex
      exact (named.sServgCreateServ creation).initMyself isNamed isType isIndex

/-! ## Steps -/

variable {ownType ownId : Int}

theorem AllNamed.ihandleIdentify (named : servg.AllNamed ownType ownId)
    (handled : servg.ihandleIdentify conn pkt env = some after) :
    after.AllNamed ownType ownId := by
  have quiet : ∀ {group last : ServGroup}, group.AllNamed ownType ownId →
      NamesKept group last none → last.AllNamed ownType ownId :=
    fun isNamed kept => isNamed.kept kept (by simp)
  rw [ServGroup.ihandleIdentify] at handled
  split at handled
  · exact quiet named (namesKept_sNetClose handled)
  · split at handled
    · exact quiet named (namesKept_sNetClose handled)
    · split at handled
      · exact quiet named (namesKept_sNetSend handled)
      · split at handled
        · split at handled
          next serv found =>
            split at handled
            · exact quiet named (namesKept_sNetSend handled)
            · -- an entry of the configuration is in use
              rw [sServgGetServInConfig, Option.filter_eq_some_iff] at found
              have used : ¬ servg.Unused serv := by
                intro unused
                have inConfig := found.2
                rw [unused.1] at inConfig
                cases inConfig
              exact quiet named ((namesKept_establish handled).of_used used)
          · split at handled
            · exact quiet named (namesKept_sNetSend handled)
            next created serv creation =>
              have isNamed := named.sServgCreateServ creation
              split at handled
              · exact quiet isNamed (namesKept_sNetSend handled)
              · apply isNamed.kept (namesKept_establish handled)
                intro other same
                rw [← Option.some.inj same]
                exact (named.names.sServgCreateServ creation).2.1
        · exact quiet named (namesKept_sNetClose handled)

theorem AllNamed.sServgConnect (named : servg.AllNamed ownType ownId) {id : Int} {ip : String}
    {port : Int} {chosen : Option Nat}
    (connected : servg.sServgConnect type id ip port chosen env = some after) :
    after.AllNamed ownType ownId := by
  rw [ServGroup.sServgConnect] at connected
  split at connected
  · cases connected
    exact named
  · split at connected
    · cases connected
      exact named
    · split at connected
      · cases connected
        exact named
      next middle serv creation =>
        split at connected
        · cases connected
        next conn =>
          have taken : NamesKept middle ((((middle.openConn conn ip port).modify serv fun entry =>
              { entry with conn := some conn }).setUdata conn serv).listInsertTail
                .waitForIdentify serv) (some serv) := by
            refine NamesKept.of_others ⟨rfl, rfl, rfl⟩ rfl ?_ ?_
            · intro other different
              simp [ServGroup.openConn, ServGroup.listInsertTail, ServGroup.setUdata,
                modify_entries, different]
            · simp [ServGroup.openConn, ServGroup.listInsertTail, ServGroup.setUdata]
          apply (named.sServgCreateServ creation).kept
            (taken.trans (namesKept_sNetSend connected).except)
          intro other same
          rw [← Option.some.inj same]
          exact (named.names.sServgCreateServ creation).2.1

/-- **Orderly steps keep the names.** -/
theorem AllNamed.step (named : servg.AllNamed ownType ownId) (sound : servg.Sound) {event : Event}
    (orderly : servg.Orderly event) (stepped : servg.step event = some after) :
    after.AllNamed ownType ownId := by
  have quiet : NamesKept servg after none → after.AllNamed ownType ownId :=
    fun kept => named.kept kept (by simp)
  cases event with
  | accept conn ip port =>
      rw [ServGroup.step] at stepped
      split at stepped
      · cases stepped
        exact quiet (.of_entries rfl rfl rfl rfl rfl)
      · cases stepped
  | checkList =>
      rw [ServGroup.step] at stepped
      split at stepped
      · cases stepped
        exact quiet (.of_entries rfl rfl rfl rfl rfl)
      · cases stepped
  | attempt attempt => exact quiet (namesKept_checkListStep stepped)
  | own env =>
      rw [ServGroup.step] at stepped
      split at stepped
      · rw [ServGroup.pollMyself] at stepped
        split at stepped
        next pkt rest serv queue _ =>
          have isHead : pkt ∈ servg.myselfQ.head? := by
            rw [queue]
            rfl
          refine quiet (NamesKept.trans ?_ (namesKept_dispatch ?_ stepped))
          · exact .of_entries rfl rfl rfl rfl rfl
          · exact fun isBack => absurd isBack (orderly pkt isHead).1
        · cases stepped
      · cases stepped
  | timeouts now =>
      rw [ServGroup.step] at stepped
      split at stepped
      · cases stepped
        exact quiet (namesKept_checkTimeouts now _)
      · cases stepped
  | receive conn pkt env =>
      rw [ServGroup.step] at stepped
      split at stepped
      · rw [sServgDoEvent] at stepped
        split at stepped
        · exact named.ihandleIdentify stepped
        next serv udata =>
          obtain ⟨lists, ordered, _⟩ := sound.order
          have bound := ordered.bound_of_open orderly.1 udata
          refine quiet (namesKept_dispatch ?_ stepped)
          intro _ unused
          have atConn := bound.conn
          rw [unused.2] at atConn
          cases atConn
      · cases stepped
  | closed conn =>
      rw [ServGroup.step] at stepped
      split at stepped
      · exact quiet (namesKept_sNetClose stepped)
      · cases stepped
  | returned => exact quiet (namesKept_afterCallback stepped)
  | connect type id ip port conn env =>
      rw [ServGroup.step] at stepped
      split at stepped
      · cases stepped
      · exact named.sServgConnect stepped
  | call serv pkt ud callback msecTimeout now env =>
      rw [ServGroup.step] at stepped
      split at stepped
      · cases stepped
      · exact quiet (namesKept_sServgRpcCall stepped)
  | send serv pkt env =>
      rw [ServGroup.step] at stepped
      split at stepped
      · cases stepped
      · exact quiet (namesKept_isend stepped)
  | ret serv reqId pkt env =>
      rw [ServGroup.step] at stepped
      split at stepped
      · cases stepped
      · exact quiet (namesKept_isend stepped)

/-! ## Looking a server up -/

theorem eq_entryAt {serv : ServAddr} {index : Nat} (isType : serv.type = type)
    (block : serv.block = (servg.servs type).block) (isIndex : serv.index = index) :
    serv = servg.entryAt type index := by
  obtain ⟨_, _, _⟩ := serv
  dsimp only at isType block isIndex
  subst isType block isIndex
  rfl

/-- An entry is found under its type and index. -/
theorem igetServ_of_isEntry {group : ServGroup} {serv : ServAddr}
    (entry : IsEntry group.servs serv) :
    group.igetServ serv.type serv.index = some serv := by
  have inside : ¬ ((serv.index : Int) < 0 ∨
      ((group.servs serv.type).nelem : Int) ≤ serv.index) := by
    have index := entry.index
    omega
  rw [ServGroup.igetServ, if_pos entry.type, arrayAt, if_neg inside, Int.toNat_natCast,
    ← entry.block]

theorem place_of_igetServ {id : Int} (found : servg.igetServ type id = some serv) :
    serv.type = type ∧ (serv.index : Int) = id := by
  rw [ServGroup.igetServ] at found
  split at found
  · rw [arrayAt] at found
    split at found
    · cases found
    next inside =>
      cases found
      refine ⟨rfl, Int.toNat_of_nonneg ?_⟩
      omega
  · cases found

end ServGroup

/-! ## In every run -/

theorem allNamed_of_orderly {junk : ServAddr → SServer} {config : GroupConfig}
    {servg : ServGroup} (start : ServGroup.OrderlyConfig junk config)
    (reached : (groupSystem junk config).ReachableVia ServGroup.Orderly servg) :
    servg.AllNamed config.type config.id := by
  have both : servg.Sound ∧ servg.AllNamed config.type config.id := by
    apply reached.invariant fun group => group.Sound ∧ group.AllNamed config.type config.id
    · exact fun group initial => ⟨ServGroup.sound_sServgInitConfig start initial,
        ServGroup.allNamed_sServgInitConfig start initial⟩
    · exact fun before event after _ facts orderly stepped =>
        ⟨facts.1.step orderly stepped, facts.2.step facts.1 orderly stepped⟩
  exact both.2

end SimpleDfs.ServerGroup
