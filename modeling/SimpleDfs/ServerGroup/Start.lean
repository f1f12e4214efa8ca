import SimpleDfs.ServerGroup.Orderly

/-!
Contract: the server group that `s_servg_init_config` makes.

Owns: `OrderlyConfig`, the configurations that create no entry twice and move
none; that such a configuration gives a sound group.

Does not own: the steps of the group.
-/

set_option autoImplicit false

namespace SimpleDfs.ServerGroup

open SimpleDfs.Common
open SimpleDfs.Library

namespace ServGroup

/-- From here on every region creates an entry that is new, and so does the
group's own entry if no region has described it. -/
def OrderlyRegions : ServGroup → List Region → Prop
  | servg, [] => servg.myself = none → servg.MayCall servg.type servg.id
  | servg, region :: rest =>
      servg.MayCreate region.type region.id ∧ OrderlyRegions (servg.initRegion region) rest

instance decidableOrderlyRegions : (servg : ServGroup) → (regions : List Region) →
    Decidable (OrderlyRegions servg regions)
  | servg, [] => inferInstanceAs (Decidable (_ → servg.MayCall servg.type servg.id))
  | servg, region :: rest =>
      match decidableOrderlyRegions (servg.initRegion region) rest with
      | isTrue holds => decidable_of_iff (servg.MayCreate region.type region.id)
          ⟨fun may => ⟨may, holds⟩, fun both => both.1⟩
      | isFalse fails => isFalse fun both => fails both.2

/-- The configuration describes no server twice, and no array moves while one of
its servers is in use. -/
def OrderlyConfig (junk : ServAddr → SServer) (config : GroupConfig) : Prop :=
  OrderlyRegions (sServgCreate junk config) config.regions

instance (junk : ServAddr → SServer) (config : GroupConfig) :
    Decidable (OrderlyConfig junk config) :=
  inferInstanceAs (Decidable (OrderlyRegions _ _))

/-- The group while the configuration is read: nothing is connected. -/
structure Starting (servg : ServGroup) (lists : WaitList → List ServAddr) : Prop where
  ordered : servg.Ordered lists none
  closed : ∀ conn, (servg.conns conn).opened = false
  mine : ∀ serv, servg.myself = some serv → IsEntry servg.servs serv ∧
    (servg.entries serv).flags = { inConfig := true } ∧ ∀ list, serv ∉ lists list
  frame : servg.frame = none

theorem isFamily_self (lists : WaitList → List ServAddr) (empty : ∀ list, lists list = []) :
    ({ prev := fun place => place, next := fun place => place } : Links ServRef).IsFamily
      lists where
  ring := by
    intro list
    rw [empty list]
    exact Links.isRing_nil_iff.mpr ⟨rfl, rfl⟩
  apart := by
    intro list other serv member
    rw [empty list] at member
    cases member

theorem starting_sServgCreate (junk : ServAddr → SServer) (config : GroupConfig) :
    (sServgCreate junk config).Starting fun _ => [] := by
  have noEntry : ∀ serv, ¬ IsEntry (sServgCreate junk config).servs serv :=
    fun serv entry => Nat.not_lt_zero _ entry.index
  refine ⟨⟨isFamily_self _ fun _ => rfl, ?_, ?_, ?_, ?_, ?_, ?_, ?_, ?_⟩, fun _ => rfl, ?_, rfl⟩
  · exact fun list serv member => absurd member List.not_mem_nil
  · exact fun serv member => absurd member List.not_mem_nil
  · exact fun list serv member => absurd member List.not_mem_nil
  · exact fun serv entry => absurd entry (noEntry serv)
  · exact fun serv entry => absurd entry (noEntry serv)
  · intro conn serv opened
    cases opened
  · exact fun serv conn entry => absurd entry (noEntry serv)
  · exact fun serv entry => absurd entry (noEntry serv)
  · intro serv myself
    cases myself

section

variable {servg : ServGroup} {lists : WaitList → List ServAddr} {serv : ServAddr}

/-- The entry of this server, if it has been read, is not the one created. -/
theorem Starting.mine_stays {after : ServGroup} {own : ServAddr}
    (starting : servg.Starting lists) (pushed : servg.Pushed after lists serv)
    (myself : servg.myself = some own) :
    own ≠ serv ∧ IsEntry after.servs own ∧
      (after.entries own).flags = { inConfig := true } ∧ ∀ list, own ∉ lists list := by
  obtain ⟨entry, flags, unlisted⟩ := starting.mine own myself
  have used : ¬ servg.Unused own := by
    intro unused
    rw [unused.1] at flags
    cases flags
  refine ⟨?_, pushed.keeps.entry own entry used, ?_, unlisted⟩
  · rintro rfl
    exact used (pushed.new entry)
  · rw [pushed.keeps.used own entry used]
    exact flags

/-- Without an open connection nobody is established. -/
theorem Ordered.quiet_of_closed {hole : Option ServAddr} (ordered : servg.Ordered lists hole)
    (closed : ∀ conn, (servg.conns conn).opened = false)
    (mine : ∀ own, servg.myself = some own → (servg.entries own).flags.established = false)
    (entry : IsEntry servg.servs serv) (inside : hole ≠ some serv) :
    (servg.entries serv).flags.established = false := by
  by_cases own : servg.myself = some serv
  · exact mine serv own
  · apply Bool.eq_false_iff.mpr
    intro established
    have connected := (ordered.established serv entry inside established own).1
    obtain ⟨conn, atConn⟩ := Option.ne_none_iff_exists'.mp connected
    have opened := (ordered.held serv conn entry inside atConn).1
    rw [closed conn] at opened
    cases opened

theorem not_sDoIConnHim_self (type id : Int) : sDoIConnHim type id type id = false := by
  simp [sDoIConnHim]

/-- The entry is filled in and becomes this server's own entry or not. -/
theorem Pushed.filled {after filled : ServGroup} (starting : servg.Starting lists)
    (pushed : servg.Pushed after lists serv) (servs : filled.servs = after.servs)
    (links : filled.links = after.links) (conns : filled.conns = after.conns)
    (myself : filled.myself = some serv ∨ filled.myself = after.myself)
    (entries : ∀ other, other ≠ serv → filled.entries other = after.entries other) :
    filled.Ordered lists (some serv) := by
  have same : ∀ other, some serv ≠ some other → filled.entries other = after.entries other :=
    fun other inside => entries other fun at_serv => inside (at_serv ▸ rfl)
  rcases myself with new | old
  · have closed : ∀ conn, (after.conns conn).opened = false := by
      rw [pushed.keeps.conns]
      exact starting.closed
    have mine : ∀ own, after.myself = some own →
        (after.entries own).flags.established = false := by
      intro own myself
      rw [pushed.keeps.myself] at myself
      rw [(starting.mine_stays pushed myself).2.2.1]
    have hole : ({ after with myself := some serv } : ServGroup).Ordered lists (some serv) := by
      refine ⟨pushed.ordered.family, pushed.ordered.listed, pushed.ordered.waiting,
        pushed.ordered.linked, pushed.ordered.found, pushed.ordered.alone, pushed.ordered.bound,
        pushed.ordered.held, ?_⟩
      intro other entry inside established _
      rw [pushed.ordered.quiet_of_closed closed mine entry inside] at established
      cases established
    refine hole.congr servs links conns new ?_
    intro other inside
    rw [same other inside]
    exact ⟨rfl, rfl, rfl⟩
  · refine pushed.ordered.congr servs links conns old ?_
    intro other inside
    rw [same other inside]
    exact ⟨rfl, rfl, rfl⟩

/-- What the region leaves of the new entry and the others. -/
structure Noted (created noted : ServGroup) (serv : ServAddr) : Prop where
  servs : noted.servs = created.servs
  links : noted.links = created.links
  conns : noted.conns = created.conns
  frame : noted.frame = created.frame
  entries : ∀ other, other ≠ serv → noted.entries other = created.entries other
  conn : (noted.entries serv).conn = none
  flags : (noted.entries serv).flags = (created.entries serv).flags

theorem noted_noteMyself (created : ServGroup) (serv : ServAddr) (region : Region) :
    Noted created ((created.fillRegion serv region).noteMyself serv region) serv := by
  have filled : Noted created (created.fillRegion serv region) serv := by
    refine ⟨rfl, rfl, rfl, rfl, ?_, ?_, ?_⟩
    · exact fun other different => modify_entries_other _ different
    · rw [fillRegion, modify_entries_self]
    · rw [fillRegion, modify_entries_self]
  rw [noteMyself]
  split
  · exact ⟨rfl, rfl, rfl, rfl, filled.entries, filled.conn, filled.flags⟩
  · exact filled

theorem noteMyself_myself (created : ServGroup) (serv : ServAddr) (region : Region) :
    ((created.fillRegion serv region).noteMyself serv region).myself = created.myself ∨
      ((created.fillRegion serv region).noteMyself serv region).myself = some serv ∧
        region.type = created.type ∧ (region.id : Int) = created.id := by
  rw [noteMyself]
  split
  · rename_i same
    exact Or.inr ⟨rfl, same⟩
  · exact Or.inl rfl

section Region

variable {created noted : ServGroup}

/-- The new entry stays on its own. -/
theorem Starting.listInit (starting : servg.Starting lists)
    (pushed : servg.Pushed created lists serv)
    (flags : (created.entries serv).flags = { inConfig := true }) (note : Noted created noted serv)
    (owner : noted.myself = some serv ∨ noted.myself = created.myself) :
    (noted.listInit serv).Starting lists := by
  have filled := pushed.filled starting note.servs note.links note.conns owner note.entries
  obtain ⟨initialised, alone⟩ := filled.listInit pushed.fresh.unlisted
  have closed : ∀ conn, (noted.conns conn).opened = false := by
    rw [note.conns, pushed.keeps.conns]
    exact starting.closed
  have entry : IsEntry noted.servs serv := note.servs ▸ pushed.fresh.entry
  have atSelf : (noted.entries serv).flags = { inConfig := true } := note.flags.trans flags
  refine ⟨initialised.fill_released note.conn ?_ ?_ (fun _ _ => alone) ?_, closed, ?_, ?_⟩
  · intro conn opened
    change (noted.conns conn).opened = true at opened
    rw [closed conn] at opened
    cases opened
  · exact fun list member => absurd member (pushed.fresh.unlisted list)
  · intro established
    change (noted.entries serv).flags.established = true at established
    rw [atSelf] at established
    cases established
  · intro own myself
    change noted.myself = some own at myself
    rcases owner with new | old
    · rw [new] at myself
      cases myself
      exact ⟨entry, atSelf, pushed.fresh.unlisted⟩
    · rw [old, pushed.keeps.myself] at myself
      obtain ⟨different, stays, ownFlags, unlisted⟩ := starting.mine_stays pushed myself
      refine ⟨note.servs ▸ stays, ?_, unlisted⟩
      change (noted.entries own).flags = _
      rw [note.entries own different]
      exact ownFlags
  · exact note.frame.trans (pushed.keeps.frame.trans starting.frame)

/-- The new entry waits for a connection. -/
theorem Starting.listInsertTail (starting : servg.Starting lists)
    (pushed : servg.Pushed created lists serv)
    (flags : (created.entries serv).flags = { inConfig := true }) (note : Noted created noted serv)
    (other : noted.myself = created.myself) :
    ((noted.listInit serv).listInsertTail .waitForConn serv).Starting
      (Links.withLast lists .waitForConn serv) := by
  have alone := starting.listInit pushed flags note (Or.inr other)
  have entry : IsEntry noted.servs serv := note.servs ▸ pushed.fresh.entry
  have inserted := (alone.ordered.except serv).listInsertTail entry .waitForConn
    pushed.fresh.unlisted
  refine ⟨inserted.fill_released note.conn ?_ ?_ ?_ ?_, alone.closed, ?_, alone.frame⟩
  · intro conn opened
    have closed := alone.closed conn
    change (noted.conns conn).opened = true at opened
    exact absurd (closed.symm.trans opened) (by simp)
  · intro list member
    rcases Links.mem_withLast.mp member with old | ⟨atList, _⟩
    · exact absurd old (pushed.fresh.unlisted list)
    · exact ⟨atList, note.flags.trans flags⟩
  · intro _ unlisted
    exact absurd (Links.mem_withLast.mpr (Or.inr ⟨rfl, rfl⟩)) (unlisted .waitForConn)
  · intro established
    change (noted.entries serv).flags.established = true at established
    rw [note.flags, flags] at established
    cases established
  · intro own myself
    obtain ⟨ownEntry, ownFlags, unlisted⟩ := alone.mine own myself
    refine ⟨ownEntry, ownFlags, ?_⟩
    intro list member
    rcases Links.mem_withLast.mp member with old | ⟨_, atSelf⟩
    · exact unlisted list old
    · change noted.myself = some own at myself
      rw [other, pushed.keeps.myself] at myself
      exact (starting.mine_stays pushed myself).1 atSelf

end Region

/-- The loop body of `s_servg_init_config`. -/
theorem Starting.initRegion (starting : servg.Starting lists) {region : Region}
    (may : servg.MayCreate region.type region.id) :
    ∃ rest, (servg.initRegion region).Starting rest := by
  obtain ⟨pushed, flags⟩ := starting.ordered.iinitServ region.valid may
  have note := noted_noteMyself (servg.iinitServ region.type region.id)
    ((servg.iinitServ region.type region.id).entryAt region.type region.id) region
  have owner := noteMyself_myself (servg.iinitServ region.type region.id)
    ((servg.iinitServ region.type region.id).entryAt region.type region.id) region
  unfold ServGroup.initRegion
  dsimp only
  split
  · rename_i connects
    refine ⟨_, starting.listInsertTail pushed flags note ?_⟩
    -- a server does not connect to itself
    rcases owner with old | ⟨_, type, id⟩
    · exact old
    · rw [pushed.keeps.same] at type id
      rw [type, id, not_sDoIConnHim_self] at connects
      simp at connects
  · refine ⟨_, starting.listInit pushed flags note ?_⟩
    rcases owner with old | ⟨new, _⟩
    · exact Or.inr old
    · exact Or.inl new

theorem Starting.initRegions (regions : List Region) : ∀ {servg : ServGroup}
    {lists : WaitList → List ServAddr}, servg.Starting lists → OrderlyRegions servg regions →
      ∃ rest, (regions.foldl ServGroup.initRegion servg).Starting rest ∧
        OrderlyRegions (regions.foldl ServGroup.initRegion servg) [] := by
  induction regions with
  | nil => exact fun starting orderly => ⟨_, starting, orderly⟩
  | cons region rest inductionHypothesis =>
      intro servg lists starting orderly
      obtain ⟨next, after⟩ := starting.initRegion orderly.1
      exact inductionHypothesis after orderly.2

/-! ## This server's own entry -/

/-- The end of `s_servg_init_config` on an entry that is left out of the
order. -/
theorem Ordered.initMyself (ordered : servg.Ordered lists (some serv))
    (entry : IsEntry servg.servs serv) (unlisted : ∀ list, serv ∉ lists list)
    (closed : ∀ conn, (servg.conns conn).opened = false) (frame : servg.frame = none)
    (quiet : ∀ other, IsEntry servg.servs other → serv ≠ other →
      (servg.entries other).flags.established = false) : (servg.initMyself serv).Sound := by
  have written : ∀ other, other ≠ serv →
      (servg.initMyself serv).entries other = servg.entries other := by
    intro other different
    simp [ServGroup.initMyself, ServGroup.listInit, ServGroup.createHash, modify_entries, different]
  have conn : ((servg.initMyself serv).entries serv).conn = none := by
    simp [ServGroup.initMyself, ServGroup.listInit, ServGroup.createHash]
  have flags : ((servg.initMyself serv).entries serv).flags = { established := true } := by
    simp [ServGroup.initMyself, ServGroup.listInit, ServGroup.createHash]
  have table : ((servg.initMyself serv).entries serv).rpcHash ≠ none := by
    simp [ServGroup.initMyself, ServGroup.listInit, ServGroup.createHash]
  obtain ⟨initialised, alone⟩ := ordered.listInit unlisted
  have hole : (servg.initMyself serv).Ordered lists (some serv) := by
    refine ⟨initialised.family, initialised.listed, ?_, ?_, ?_, ?_, ?_, ?_, ?_⟩
    · intro other member inside
      rw [written other fun same => inside (same ▸ rfl)]
      exact ordered.waiting other member inside
    · intro list other member inside
      rw [written other fun same => inside (same ▸ rfl)]
      exact ordered.linked list other member inside
    · intro other otherEntry inside
      rw [written other fun same => inside (same ▸ rfl)]
      exact ordered.found other otherEntry inside
    · intro other otherEntry inside
      rw [written other fun same => inside (same ▸ rfl)]
      exact initialised.alone other otherEntry inside
    · intro place other opened
      change (servg.conns place).opened = true at opened
      rw [closed place] at opened
      cases opened
    · intro other place otherEntry inside
      rw [written other fun same => inside (same ▸ rfl)]
      exact ordered.held other place otherEntry inside
    · intro other otherEntry inside established
      rw [written other fun same => inside (same ▸ rfl),
        quiet other otherEntry fun same => inside (same ▸ rfl)] at established
      cases established
  constructor
  · refine ⟨lists, hole.fill_released conn ?_ ?_ (fun _ _ => alone) (fun _ => rfl),
      cursor_of_not_checking (idle_of_none frame)⟩
    · intro place opened
      change (servg.conns place).opened = true at opened
      rw [closed place] at opened
      cases opened
    · exact fun list member => absurd member (unlisted list)
  · exact ⟨serv, rfl, entry, flags, conn, table⟩

/-- **A group starts sound.** -/
theorem sound_sServgInitConfig {junk : ServAddr → SServer} {config : GroupConfig}
    {start : ServGroup} (orderly : OrderlyConfig junk config)
    (initial : sServgInitConfig junk config = some start) : start.Sound := by
  obtain ⟨lists, starting, last⟩ :=
    (starting_sServgCreate junk config).initRegions config.regions orderly
  rw [sServgInitConfig] at initial
  split at initial
  next serv myself =>
    cases initial
    obtain ⟨entry, flags, unlisted⟩ := starting.mine serv myself
    apply (starting.ordered.except serv).initMyself entry unlisted starting.closed starting.frame
    intro other otherEntry different
    apply starting.ordered.quiet_of_closed starting.closed _ otherEntry (by simp)
    intro own mine
    rw [(starting.mine own mine).2.1]
  next noOwn =>
    split at initial
    · cases initial
    next created serv creation =>
      cases initial
      have entry := starting.ordered.sServgCreateServ
        (last noOwn (validType_of_created creation)) creation
      have keeps := entry.pushed.keeps
      have closed : ∀ conn, (created.conns conn).opened = false := by
        rw [keeps.conns]
        exact starting.closed
      apply entry.pushed.ordered.initMyself entry.pushed.fresh.entry entry.pushed.fresh.unlisted
        closed (keeps.frame.trans starting.frame)
      intro other otherEntry different
      apply entry.pushed.ordered.quiet_of_closed closed _ otherEntry (by simpa using different)
      intro own mine
      rw [keeps.myself] at mine
      exact absurd (mine.symm.trans noOwn) (by simp)

end

end ServGroup

/-! ## One group -/

namespace Sample

open ServGroup

/-- Memory that holds zeros. -/
def blank : ServAddr → SServer := fun _ => zeroServer

/-- A world in which writes succeed. -/
def calm : Env := { writeFails := false, memUsed := 0, lowerDelay := false }

/-- The answer to an identification. -/
def answer (ret : BitVec 32) : GroupPacket := pktIdentifyBack ret calm

/-- An identification with the right password. -/
def identify (type id : Int) : GroupPacket where
  fn := sPktTypeIdentify
  req := 0
  words := [7, BitVec.ofInt 32 type, BitVec.ofInt 32 id, 0]

/-- Meta server 3 of three. -/
def config : GroupConfig where
  id := 3
  type := 1
  ipcPwd := 7
  regions :=
    [{ type := 1, id := 1, ip := some "10.0.0.1", port := 10001, valid := rfl },
      { type := 1, id := 2, ip := some "10.0.0.2", port := 10002, valid := rfl },
      { type := 1, id := 3, ip := some "10.0.0.3", port := 10003, valid := rfl }]

def start : ServGroup := (sServgInitConfig blank config).getD (sServgCreate blank config)

theorem initial : (groupSystem blank config).init start := by
  have passes : (sServgInitConfig blank config).isSome = true := by decide +kernel
  obtain ⟨group, made⟩ := Option.isSome_iff_exists.mp passes
  change sServgInitConfig blank config = some start
  rw [start, made]
  rfl

end Sample

end SimpleDfs.ServerGroup
