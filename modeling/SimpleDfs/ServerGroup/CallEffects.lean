import SimpleDfs.ServerGroup.Calls

/-!
Contract: what changes the calls of a server group, one effect at a time.

Owns: the release of a table when its connection is closed, a new table, a new
call, the start of a callback by a reply or a timeout, and its return; that each
accounts for every call.

A table is released before its calls have left the timeout list, so nothing may
be said of a release while one of them is on that list.

Does not own: which operation has which effect.
-/

set_option autoImplicit false

namespace SimpleDfs.ServerGroup

open SimpleDfs.Common
open SimpleDfs.Library

namespace ServGroup

variable {servg before after : ServGroup} {serv : ServAddr} {param hash : Nat} {req : BitVec 32}

/-! ## A table is released -/

/-- The server is not established any more, and every call in its table has got a
null packet. -/
structure Released (before after : ServGroup) (serv : ServAddr) (hash : Nat) : Prop where
  live : ∀ other table, after.Live other table ↔ before.Live other table ∧ other ≠ serv
  opening : ∀ other table, before.Live other table → other ≠ serv →
    after.openingOf other = before.openingOf other
  counter : ∀ other table, before.Live other table → other ≠ serv →
    (after.entries other).reqId = (before.entries other).reqId
  part : after.callPart = (before.releaseCalls hash (before.openingOf serv)).callPart

/-- What a release adds to the callbacks that have run. -/
def releases (servg : ServGroup) (hash opening : Nat) : List Invocation :=
  (servg.hashes hash).entries.map fun entry => { param := entry.2, cause := .closed opening }

theorem mem_releases {opening : Nat} {invocation : Invocation} :
    invocation ∈ servg.releases hash opening ↔
      ∃ req, (servg.hashes hash).lookup req = some invocation.param ∧
        invocation.cause = .closed opening := by
  rw [releases, List.mem_map]
  constructor
  · rintro ⟨⟨req, param⟩, member, rfl⟩
    exact ⟨req, AList.mem_lookup_iff.mpr member, rfl⟩
  · rintro ⟨req, found, cause⟩
    refine ⟨⟨req, invocation.param⟩, AList.mem_lookup_iff.mp found, ?_⟩
    rw [← cause]

/-- No call is in the table twice, and none has been called back. -/
theorem Accounted.once_release (accounted : servg.Accounted) (live : servg.Live serv hash)
    (quiet : servg.Quiet serv) (opening : Nat) :
    ((servg.invoked ++ servg.releases hash opening).map Invocation.param).Nodup := by
  rw [List.map_append, List.nodup_append]
  refine ⟨accounted.once, ?_, ?_⟩
  · rw [releases, List.map_map]
    apply List.Nodup.map_on
    · rintro ⟨req, param⟩ member ⟨other, again⟩ otherMember same
      have first := accounted.placed serv hash req param live (AList.mem_lookup_iff.mpr member)
      have second := accounted.placed serv hash other again live
        (AList.mem_lookup_iff.mpr otherMember)
      change param = again at same
      subst same
      rw [← first.reqId, ← second.reqId]
    · exact (servg.hashes hash).nodupKeys.nodup
  · intro param called again released
    rintro rfl
    obtain ⟨invocation, member, rfl⟩ := List.mem_map.mp called
    obtain ⟨closing, closed, same⟩ := List.mem_map.mp released
    obtain ⟨req, found, _⟩ := mem_releases.mp closed
    rw [same] at found
    have placed := accounted.placed serv hash req _ live found
    have calling := accounted.retired invocation member ⟨serv, hash, req, live, found⟩
    exact quiet.2 _ calling placed.owner

/-- **A release while the server is quiet accounts for every call.** -/
theorem Released.proceeds (released : Released before after serv hash)
    (accounted : before.Accounted) (live : before.Live serv hash) (quiet : before.Quiet serv) :
    Proceeds before after := by
  have params : after.params = before.params := congrArg CallPart.params released.part
  have nparams : after.nparams = before.nparams := congrArg CallPart.nparams released.part
  have hashes : after.hashes = Function.update before.hashes hash ∅ :=
    congrArg CallPart.hashes released.part
  have nhashes : after.nhashes = before.nhashes := congrArg CallPart.nhashes released.part
  have list : after.rpcTimeoutList = before.rpcTimeoutList :=
    congrArg CallPart.rpcTimeoutList released.part
  have frame : after.callFrame = before.callFrame := congrArg CallPart.callFrame released.part
  have invoked : after.invoked = before.invoked ++ before.releases hash (before.openingOf serv) :=
    congrArg CallPart.invoked released.part
  have calling : after.calling = before.calling := by
    rw [ServGroup.calling, ServGroup.calling, frame]
  -- the tables of the other servers are other tables
  have table : ∀ other place, after.Live other place → after.hashes place = before.hashes place := by
    intro other place up
    obtain ⟨wasUp, different⟩ := (released.live other place).mp up
    have apart : place ≠ hash := by
      rintro rfl
      exact different (accounted.apart other serv place wasUp live)
    rw [hashes, Function.update_of_ne apart]
  have stays : ∀ param, before.Pending param → (before.params param).serv ≠ serv →
      after.Pending param := by
    intro param pending elsewhere
    obtain ⟨place, up, found⟩ := accounted.place pending
    have still := (released.live _ place).mpr ⟨up, elsewhere⟩
    exact ⟨_, place, _, still, (table _ place still).symm ▸ found⟩
  have was : ∀ param, after.Pending param →
      before.Pending param ∧ (before.params param).serv ≠ serv := by
    rintro param ⟨other, place, req, up, found⟩
    rw [table other place up] at found
    obtain ⟨wasUp, different⟩ := (released.live other place).mp up
    refine ⟨⟨other, place, req, wasUp, found⟩, ?_⟩
    rw [(accounted.placed other place req param wasUp found).owner]
    exact different
  refine ⟨?_, Nat.le_of_eq nparams.symm, ?_, ?_, ?_⟩
  · constructor
    case placed =>
      intro other place req param up found
      rw [table other place up] at found
      obtain ⟨wasUp, different⟩ := (released.live other place).mp up
      have placed := accounted.placed other place req param wasUp found
      refine ⟨nparams ▸ placed.made, params ▸ placed.reqId, params ▸ placed.owner, ?_, ?_⟩
      · rw [params, released.opening other place wasUp different]
        exact placed.sentOn
      · rw [released.counter other place wasUp different]
        exact placed.counted
    case apart =>
      intro first second place up again
      exact accounted.apart first second place ((released.live _ _).mp up).1
        ((released.live _ _).mp again).1
    case known =>
      intro other place up
      rw [nhashes]
      exact accounted.known other place ((released.live _ _).mp up).1
    case timed =>
      intro param member
      rw [list] at member
      have facts := accounted.timed param member
      rw [params]
      exact ⟨stays param facts.1 (quiet.1 param member), facts.2⟩
    case listed => exact list ▸ accounted.listed
    case once => exact invoked ▸ accounted.once_release live quiet _
    case owned =>
      intro invocation member
      rw [nparams, Owned, params]
      rcases List.mem_append.mp (invoked ▸ member) with old | new
      · exact accounted.owned invocation old
      · obtain ⟨req, found, cause⟩ := mem_releases.mp new
        have placed := accounted.placed serv hash req _ live found
        rw [cause]
        exact ⟨placed.made, placed.sentOn⟩
    case retired =>
      intro invocation member pending
      obtain ⟨wasPending, elsewhere⟩ := was _ pending
      rw [calling]
      rcases List.mem_append.mp (invoked ▸ member) with old | new
      · exact accounted.retired invocation old wasPending
      · obtain ⟨req, found, _⟩ := mem_releases.mp new
        exact absurd (accounted.placed serv hash req _ live found).owner elsewhere
    case replying =>
      intro other param req atFrame
      rw [frame] at atFrame
      obtain ⟨⟨place, up, found⟩, opening, member⟩ := accounted.replying other param req atFrame
      have isCalling : before.calling = some param := by rw [ServGroup.calling, atFrame]
      have different : other ≠ serv := by
        rw [← (accounted.placed other place req param up found).owner]
        exact quiet.2 param isCalling
      have still := (released.live other place).mpr ⟨up, different⟩
      exact ⟨⟨place, still, (table other place still).symm ▸ found⟩, opening,
        invoked ▸ List.mem_append_left _ member⟩
    case expiring =>
      intro param rest now atFrame
      rw [frame] at atFrame
      obtain ⟨pending, member, expired⟩ := accounted.expiring param rest now atFrame
      have isCalling : before.calling = some param := by rw [ServGroup.calling, atFrame]
      rw [params, list]
      exact ⟨stays param pending (quiet.2 param isCalling),
        invoked ▸ List.mem_append_left _ member, expired⟩
  · exact fun param _ => by rw [params]
  · exact fun invocation member => invoked ▸ List.mem_append_left _ member
  · intro param pending
    by_cases atServ : (before.params param).serv = serv
    · right
      obtain ⟨place, up, found⟩ := accounted.place pending
      rw [atServ] at up
      rw [up.unique live] at found
      have sentOn := (accounted.placed serv hash _ param live found).sentOn
      constructor
      · rw [invoked, sentOn]
        exact List.mem_append_right _ (mem_releases.mpr ⟨_, found, rfl⟩)
      · intro member
        exact quiet.2 param (accounted.retired _ member pending) atServ
    · exact Or.inl (stays param pending atServ)

/-! ## A new table -/

/-- A server that was down is established with a table of its own. -/
structure Tabled (before after : ServGroup) (serv : ServAddr) : Prop where
  live : ∀ other table, after.Live other table ↔
    before.Live other table ∨ other = serv ∧ table = before.nhashes
  down : (before.entries serv).flags.established = false
  opening : ∀ other table, before.Live other table →
    after.openingOf other = before.openingOf other
  counter : ∀ other table, before.Live other table →
    (after.entries other).reqId = (before.entries other).reqId
  part : after.callPart = before.createHash.callPart

theorem Tabled.quiet (tabled : Tabled before after serv) (other : ServAddr) :
    after.Quiet other ↔ before.Quiet other :=
  quiet_congr (congrArg CallPart.params tabled.part)
    (congrArg CallPart.rpcTimeoutList tabled.part) (congrArg CallPart.callFrame tabled.part)

theorem Tabled.proceeds (tabled : Tabled before after serv) (accounted : before.Accounted) :
    Proceeds before after := by
  have params : after.params = before.params := congrArg CallPart.params tabled.part
  have nparams : after.nparams = before.nparams := congrArg CallPart.nparams tabled.part
  have hashes : after.hashes = Function.update before.hashes before.nhashes ∅ :=
    congrArg CallPart.hashes tabled.part
  have nhashes : after.nhashes = before.nhashes + 1 := congrArg CallPart.nhashes tabled.part
  have list : after.rpcTimeoutList = before.rpcTimeoutList :=
    congrArg CallPart.rpcTimeoutList tabled.part
  have frame : after.callFrame = before.callFrame := congrArg CallPart.callFrame tabled.part
  have invoked : after.invoked = before.invoked := congrArg CallPart.invoked tabled.part
  have calling : after.calling = before.calling := by
    rw [ServGroup.calling, ServGroup.calling, frame]
  have old : ∀ other place, before.Live other place → after.Live other place ∧
      after.hashes place = before.hashes place := by
    intro other place up
    have below := accounted.known other place up
    refine ⟨(tabled.live other place).mpr (Or.inl up), ?_⟩
    rw [hashes, Function.update_of_ne (Nat.ne_of_lt below)]
  have found_old : ∀ other place req param, after.Live other place →
      (after.hashes place).lookup req = some param →
      before.Live other place ∧ (before.hashes place).lookup req = some param := by
    intro other place req param up found
    rcases (tabled.live other place).mp up with wasUp | ⟨_, new⟩
    · exact ⟨wasUp, (old other place wasUp).2 ▸ found⟩
    · rw [hashes, new, Function.update_self, AList.lookup_empty] at found
      cases found
  have pending : ∀ param, after.Pending param ↔ before.Pending param := by
    intro param
    constructor
    · rintro ⟨other, place, req, up, found⟩
      have facts := found_old other place req param up found
      exact ⟨other, place, req, facts⟩
    · rintro ⟨other, place, req, up, found⟩
      have facts := old other place up
      exact ⟨other, place, req, facts.1, facts.2.symm ▸ found⟩
  refine ⟨?_, Nat.le_of_eq nparams.symm, ?_, ?_, fun param still => Or.inl ((pending param).mpr still)⟩
  · constructor
    case placed =>
      intro other place req param up found
      obtain ⟨wasUp, wasFound⟩ := found_old other place req param up found
      have placed := accounted.placed other place req param wasUp wasFound
      refine ⟨nparams ▸ placed.made, params ▸ placed.reqId, params ▸ placed.owner, ?_, ?_⟩
      · rw [params, tabled.opening other place wasUp]
        exact placed.sentOn
      · rw [tabled.counter other place wasUp]
        exact placed.counted
    case apart =>
      intro first second place up again
      rcases (tabled.live first place).mp up with wasUp | ⟨atServ, new⟩
      · have below := accounted.known first place wasUp
        rcases (tabled.live second place).mp again with wasAgain | ⟨_, new⟩
        · exact accounted.apart first second place wasUp wasAgain
        · omega
      · rcases (tabled.live second place).mp again with wasAgain | ⟨alsoServ, _⟩
        · have below := accounted.known second place wasAgain
          omega
        · rw [atServ, alsoServ]
    case known =>
      intro other place up
      rw [nhashes]
      rcases (tabled.live other place).mp up with wasUp | ⟨_, new⟩
      · exact Nat.lt_succ_of_lt (accounted.known other place wasUp)
      · omega
    case timed =>
      intro param member
      rw [list] at member
      rw [pending, params]
      exact accounted.timed param member
    case listed => exact list ▸ accounted.listed
    case once => exact invoked ▸ accounted.once
    case owned =>
      intro invocation member
      rw [invoked] at member
      rw [nparams, Owned, params]
      exact accounted.owned invocation member
    case retired =>
      intro invocation member still
      rw [invoked] at member
      rw [calling]
      exact accounted.retired invocation member ((pending _).mp still)
    case replying =>
      intro other param req atFrame
      rw [frame] at atFrame
      obtain ⟨⟨place, up, found⟩, called⟩ := accounted.replying other param req atFrame
      have facts := old other place up
      rw [invoked]
      exact ⟨⟨place, facts.1, facts.2.symm ▸ found⟩, called⟩
    case expiring =>
      intro param rest now atFrame
      rw [frame] at atFrame
      rw [pending, invoked, params, list]
      exact accounted.expiring param rest now atFrame
  · exact fun param _ => by rw [params]
  · exact fun invocation member => invoked ▸ member

/-! ## A new call -/

theorem insertTimeout_perm (params : Nat → RpcParam) (new : Nat) (list : List Nat) :
    (insertTimeout params new list).Perm (new :: list) := by
  induction list with
  | nil => exact List.Perm.refl _
  | cons param rest inductionHypothesis =>
      rw [insertTimeout]
      split
      · exact List.Perm.refl _
      · exact (inductionHypothesis.cons param).trans (List.Perm.swap new param rest)

/-- The group after `s_servg_rpc_call`, before the packet is sent. -/
def called (servg : ServGroup) (serv : ServAddr) (hash ud callback : Nat) (msecTimeout : Int)
    (now : Timeval) : ServGroup :=
  ((servg.countCall serv).createParam serv (servg.entries serv).reqId ud callback msecTimeout
    now).putCall hash (servg.entries serv).reqId servg.nparams

section Called

variable {ud callback : Nat} {msecTimeout : Int} {now : Timeval}

theorem called_entries (other : ServAddr) :
    ((servg.called serv hash ud callback msecTimeout now).entries other).conn =
        (servg.entries other).conn ∧
      ((servg.called serv hash ud callback msecTimeout now).entries other).flags =
        (servg.entries other).flags ∧
      ((servg.called serv hash ud callback msecTimeout now).entries other).rpcHash =
        (servg.entries other).rpcHash := by
  change ((servg.countCall serv).entries other).conn = _ ∧
    ((servg.countCall serv).entries other).flags = _ ∧
    ((servg.countCall serv).entries other).rpcHash = _
  rw [countCall, modify_entries]
  split
  · rename_i same
    rw [same]
    exact ⟨rfl, rfl, rfl⟩
  · exact ⟨rfl, rfl, rfl⟩

theorem called_reqId (other : ServAddr) :
    ((servg.called serv hash ud callback msecTimeout now).entries other).reqId =
      if other = serv then (servg.entries serv).reqId + 1 else (servg.entries other).reqId := by
  change ((servg.countCall serv).entries other).reqId = _
  rw [countCall, modify_entries]
  split <;> rfl

theorem live_called {other : ServAddr} {table : Nat} :
    (servg.called serv hash ud callback msecTimeout now).Live other table ↔
      servg.Live other table := by
  have same := @called_entries servg serv hash ud callback msecTimeout now other
  constructor
  · exact fun up => ⟨up.entry, same.2.1 ▸ up.established, same.2.2 ▸ up.table⟩
  · exact fun up => ⟨up.entry, by rw [same.2.1]; exact up.established,
      same.2.2.trans up.table⟩

theorem openingOf_called (other : ServAddr) :
    (servg.called serv hash ud callback msecTimeout now).openingOf other =
      servg.openingOf other :=
  openingOf_congr (called_entries other).1 fun _ _ => rfl

theorem params_called (below : param < servg.nparams) :
    (servg.called serv hash ud callback msecTimeout now).params param = servg.params param :=
  Function.update_of_ne (Nat.ne_of_lt below) _ _

theorem params_called_self :
    (servg.called serv hash ud callback msecTimeout now).params servg.nparams =
      { reqId := (servg.entries serv).reqId
        ud := ud
        callback := callback
        msecTimeout := msecTimeout
        tvTimeout := timeoutAt now msecTimeout
        serv := serv
        sentOn := servg.openingOf serv } := by
  have opening : (servg.countCall serv).openingOf serv = servg.openingOf serv :=
    @openingOf_called servg serv hash ud callback msecTimeout now serv
  change Function.update servg.params servg.nparams _ servg.nparams = _
  rw [Function.update_self, opening]

theorem lookup_called (req : BitVec 32) :
    ((servg.called serv hash ud callback msecTimeout now).hashes hash).lookup req =
      if req = (servg.entries serv).reqId then some servg.nparams
      else (servg.hashes hash).lookup req := by
  change AList.lookup req (Function.update servg.hashes hash
    ((servg.hashes hash).insert (servg.entries serv).reqId servg.nparams) hash) = _
  rw [Function.update_self]
  split
  · rename_i same
    rw [same, AList.lookup_insert]
  · rename_i different
    rw [AList.lookup_insert_ne different]

theorem hashes_called_other {table : Nat} (different : table ≠ hash) :
    (servg.called serv hash ud callback msecTimeout now).hashes table = servg.hashes table :=
  Function.update_of_ne different _ _

theorem mem_called :
    param ∈ (servg.called serv hash ud callback msecTimeout now).rpcTimeoutList ↔
      param ∈ servg.rpcTimeoutList ∨ 0 < msecTimeout ∧ param = servg.nparams := by
  change param ∈ (if 0 < msecTimeout then insertTimeout _ servg.nparams servg.rpcTimeoutList
    else servg.rpcTimeoutList) ↔ _
  split
  · rename_i timed
    rw [(insertTimeout_perm _ _ _).mem_iff, List.mem_cons]
    simp only [timed, true_and]
    exact or_comm
  · rename_i untimed
    simp [untimed]

theorem calling_called :
    (servg.called serv hash ud callback msecTimeout now).calling = servg.calling :=
  rfl

/-- A request id that has been given out stays below the counter until it wraps. -/
theorem counted_succ {counter : BitVec 32} (bound : req.toNat ≤ counter.toNat) :
    counter + 1 = 0 ∨ req.toNat < (counter + 1).toNat := by
  have below := counter.isLt
  by_cases last : counter.toNat + 1 = 2 ^ 32
  · left
    apply BitVec.eq_of_toNat_eq
    simp [BitVec.toNat_add, last]
  · right
    have one : (1 : BitVec 32).toNat = 1 := rfl
    have same : (counter + 1).toNat = counter.toNat + 1 := by
      rw [BitVec.toNat_add, one]
      exact Nat.mod_eq_of_lt (by omega)
    omega

/-- The request id of the next call is not in use. -/
theorem Accounted.lookup_fresh (accounted : servg.Accounted) (live : servg.Live serv hash)
    (counts : (servg.entries serv).reqId ≠ 0) :
    (servg.hashes hash).lookup (servg.entries serv).reqId = none := by
  cases found : (servg.hashes hash).lookup (servg.entries serv).reqId with
  | none => rfl
  | some param =>
      rcases (accounted.placed serv hash _ param live found).counted with zero | below
      · exact absurd zero counts
      · exact absurd below (Nat.lt_irrefl _)

/-- **A call with an unused request id is accounted for.** -/
theorem Accounted.called (accounted : servg.Accounted) (live : servg.Live serv hash)
    (counts : (servg.entries serv).reqId ≠ 0) :
    Proceeds servg (servg.called serv hash ud callback msecTimeout now) := by
  have fresh := accounted.lookup_fresh live counts
  have stays : ∀ other table req param, servg.Live other table →
      (servg.hashes table).lookup req = some param →
      ((servg.called serv hash ud callback msecTimeout now).hashes table).lookup req =
        some param := by
    intro other table req param up found
    by_cases same : table = hash
    · subst same
      rw [lookup_called, if_neg]
      · exact found
      · rintro rfl
        rw [fresh] at found
        cases found
    · rw [hashes_called_other same]
      exact found
  have pending : ∀ param, servg.Pending param →
      (servg.called serv hash ud callback msecTimeout now).Pending param := by
    rintro param ⟨other, table, req, up, found⟩
    exact ⟨other, table, req, live_called.mpr up, stays other table req param up found⟩
  have was : ∀ other table req param, servg.Live other table →
      ((servg.called serv hash ud callback msecTimeout now).hashes table).lookup req =
        some param →
      (servg.hashes table).lookup req = some param ∨
        other = serv ∧ table = hash ∧ req = (servg.entries serv).reqId ∧
          param = servg.nparams := by
    intro other table req param up found
    by_cases same : table = hash
    · subst same
      rw [lookup_called] at found
      split at found
      · rename_i isNew
        exact Or.inr ⟨accounted.apart other serv table up live, rfl, isNew,
          (Option.some.inj found).symm⟩
      · exact Or.inl found
    · rw [hashes_called_other same] at found
      exact Or.inl found
  refine ⟨?_, Nat.le_succ _, fun param below => params_called below, fun _ member => member,
    fun param still => Or.inl (pending param still)⟩
  constructor
  case placed =>
    intro other table req param up found
    have wasUp := live_called.mp up
    rcases was other table req param wasUp found with old | ⟨atServ, _, isNew, new⟩
    · have placed := accounted.placed other table req param wasUp old
      refine ⟨Nat.lt_succ_of_lt placed.made, ?_, ?_, ?_, ?_⟩
      · exact (congrArg RpcParam.reqId (params_called placed.made)).trans placed.reqId
      · exact (congrArg RpcParam.serv (params_called placed.made)).trans placed.owner
      · rw [params_called placed.made, openingOf_called]
        exact placed.sentOn
      · rw [called_reqId]
        split
        · rename_i same
          subst same
          exact counted_succ (Nat.le_of_lt (placed.counted.resolve_left counts))
        · exact placed.counted
    · subst atServ
      rw [new]
      refine ⟨Nat.lt_succ_self _, ?_, ?_, ?_, ?_⟩
      · rw [params_called_self]
        exact isNew.symm
      · rw [params_called_self]
      · rw [params_called_self, openingOf_called]
      · rw [called_reqId, if_pos rfl, isNew]
        exact counted_succ (Nat.le_refl _)
  case apart =>
    intro first second table up again
    exact accounted.apart first second table (live_called.mp up) (live_called.mp again)
  case known =>
    exact fun other table up => accounted.known other table (live_called.mp up)
  case timed =>
    intro param member
    rcases mem_called.mp member with old | ⟨timed, rfl⟩
    · have facts := accounted.timed param old
      rw [params_called (accounted.made facts.1)]
      exact ⟨pending param facts.1, facts.2⟩
    · rw [params_called_self]
      refine ⟨⟨serv, hash, (servg.entries serv).reqId, live_called.mpr live, ?_⟩, timed⟩
      rw [lookup_called, if_pos rfl]
  case listed =>
    change (if 0 < msecTimeout then insertTimeout _ servg.nparams servg.rpcTimeoutList
      else servg.rpcTimeoutList).Nodup
    split
    · rw [(insertTimeout_perm _ _ _).nodup_iff, List.nodup_cons]
      refine ⟨?_, accounted.listed⟩
      intro member
      exact absurd (accounted.made (accounted.timed _ member).1) (Nat.lt_irrefl _)
    · exact accounted.listed
  case once => exact accounted.once
  case owned =>
    intro invocation member
    have facts := accounted.owned invocation member
    rw [Owned, params_called facts.1]
    exact ⟨Nat.lt_succ_of_lt facts.1, facts.2⟩
  case retired =>
    rintro invocation member ⟨other, table, req, up, found⟩
    rw [calling_called]
    rcases was other table req _ (live_called.mp up) found with old | ⟨_, _, _, new⟩
    · exact accounted.retired invocation member ⟨other, table, req, live_called.mp up, old⟩
    · have below := (accounted.owned invocation member).1
      rw [new] at below
      exact absurd below (Nat.lt_irrefl _)
  case replying =>
    intro other param req atFrame
    obtain ⟨⟨table, up, found⟩, ran⟩ := accounted.replying other param req atFrame
    exact ⟨⟨table, live_called.mpr up, stays other table req param up found⟩, ran⟩
  case expiring =>
    intro param rest now' atFrame
    obtain ⟨still, ran, expired, apart, inside⟩ := accounted.expiring param rest now' atFrame
    rw [params_called (accounted.made still)]
    exact ⟨pending param still, ran, expired, apart,
      fun other member => mem_called.mpr (Or.inl (inside other member))⟩

end Called

/-! ## A callback starts -/

/-- The callback of a call starts, and the group waits in the frame. -/
def invoke (servg : ServGroup) (invocation : Invocation) (frame : Frame) : ServGroup :=
  { servg with
    invoked := servg.invoked ++ [invocation]
    frame := some frame }

/-- **A callback that starts for its own pending call is accounted for.** -/
theorem Accounted.invoke (accounted : servg.Accounted) (free : servg.calling = none)
    {invocation : Invocation} {frame : Frame} (pending : servg.Pending invocation.param)
    (owned : servg.Owned invocation)
    (calling : (servg.invoke invocation frame).calling = some invocation.param)
    (replying : ∀ serv param req, frame = .rpcBack serv param req →
      (∃ hash, servg.Live serv hash ∧ (servg.hashes hash).lookup req = some param) ∧
        ∃ opening, invocation = { param := param, cause := .reply opening req })
    (expiring : ∀ param rest now, frame = .timeout param rest now →
      servg.Pending param ∧ invocation = { param := param, cause := .timeout } ∧
        now.atLeast (servg.params param).tvTimeout = true ∧ (param :: rest).Nodup ∧
        ∀ other ∈ rest, other ∈ servg.rpcTimeoutList) :
    Proceeds servg (servg.invoke invocation frame) := by
  have atFrame : ∀ {other : Frame},
      (servg.invoke invocation frame).callFrame = some other → frame = other := by
    intro other same
    cases frame with
    | checking p tmp => cases same
    | rpcBack at_serv param req => exact Option.some.inj same
    | timeout param rest now => exact Option.some.inj same
  have up : ∀ other table, (servg.invoke invocation frame).Live other table ↔
      servg.Live other table := fun _ _ => live_congr rfl rfl
  have same : ∀ param, (servg.invoke invocation frame).Pending param ↔ servg.Pending param :=
    fun _ => pending_congr rfl rfl rfl
  have unused : ∀ before ∈ servg.invoked, servg.Pending before.param → False := by
    intro before member still
    have running := accounted.retired before member still
    rw [free] at running
    cases running
  refine ⟨?_, Nat.le_refl _, fun _ _ => rfl,
    fun before member => List.mem_append_left _ member,
    fun param still => Or.inl ((same param).mpr still)⟩
  constructor
  case placed =>
    intro other table req param live found
    have placed := accounted.placed other table req param ((up _ _).mp live) found
    exact ⟨placed.made, placed.reqId, placed.owner, placed.sentOn, placed.counted⟩
  case apart =>
    exact fun first second table one two =>
      accounted.apart first second table ((up _ _).mp one) ((up _ _).mp two)
  case known => exact fun other table live => accounted.known other table ((up _ _).mp live)
  case timed =>
    intro param member
    have facts := accounted.timed param member
    exact ⟨(same param).mpr facts.1, facts.2⟩
  case listed => exact accounted.listed
  case once =>
    change ((servg.invoked ++ [invocation]).map Invocation.param).Nodup
    rw [List.map_append, List.nodup_append]
    refine ⟨accounted.once, List.nodup_singleton _, ?_⟩
    intro param called again started
    rintro rfl
    obtain ⟨before, member, isParam⟩ := List.mem_map.mp called
    have isNew : param = invocation.param := by simpa using started
    apply unused before member
    rw [isParam, isNew]
    exact pending
  case owned =>
    intro before member
    rcases List.mem_append.mp member with old | new
    · exact accounted.owned before old
    · rw [List.mem_singleton.mp new]
      exact ⟨accounted.made pending, owned⟩
  case retired =>
    intro before member still
    rcases List.mem_append.mp member with old | new
    · exact (unused before old ((same _).mp still)).elim
    · rw [List.mem_singleton.mp new]
      exact calling
  case replying =>
    intro other param req isFrame
    obtain ⟨⟨table, live, found⟩, opening, started⟩ := replying other param req (atFrame isFrame)
    refine ⟨⟨table, (up _ _).mpr live, found⟩, opening, ?_⟩
    rw [← started]
    exact List.mem_append_right _ (List.mem_singleton_self _)
  case expiring =>
    intro param rest now isFrame
    obtain ⟨still, started, expired⟩ := expiring param rest now (atFrame isFrame)
    refine ⟨(same param).mpr still, ?_, expired⟩
    rw [← started]
    exact List.mem_append_right _ (List.mem_singleton_self _)

/-! ## A callback returns -/

/-- The call of the running callback leaves the timeout list and its table. -/
def forget (servg : ServGroup) (hash : Nat) (req : BitVec 32) (param : Nat) : ServGroup :=
  { servg with
    rpcTimeoutList := servg.rpcTimeoutList.erase param
    frame := none
    hashes := Function.update servg.hashes hash ((servg.hashes hash).erase req) }

theorem lookup_forget (table : Nat) (other : BitVec 32) :
    ((servg.forget hash req param).hashes table).lookup other =
      if table = hash ∧ other = req then none else (servg.hashes table).lookup other := by
  change AList.lookup other (Function.update servg.hashes hash
    ((servg.hashes hash).erase req) table) = _
  by_cases same : table = hash
  · subst same
    rw [Function.update_self]
    by_cases isReq : other = req
    · rw [isReq, AList.lookup_erase]
      simp
    · rw [AList.lookup_erase_ne isReq]
      simp [isReq]
  · rw [Function.update_of_ne same]
    simp [same]

/-- **The return of a callback accounts for every call** and only removes its
own. -/
theorem Accounted.forget (accounted : servg.Accounted) (live : servg.Live serv hash)
    (found : (servg.hashes hash).lookup req = some param)
    (calling : servg.calling = some param) :
    (servg.forget hash req param).Accounted ∧
      ∀ other, servg.Pending other → (servg.forget hash req param).Pending other ∨ other = param := by
  have up : ∀ other table, (servg.forget hash req param).Live other table ↔
      servg.Live other table := fun _ _ => live_congr rfl rfl
  have stays : ∀ other, servg.Pending other →
      (servg.forget hash req param).Pending other ∨ other = param := by
    rintro other ⟨place, table, id, wasUp, wasFound⟩
    by_cases same : table = hash ∧ id = req
    · rw [same.1, same.2, found] at wasFound
      exact Or.inr (Option.some.inj wasFound).symm
    · refine Or.inl ⟨place, table, id, (up _ _).mpr wasUp, ?_⟩
      rw [lookup_forget, if_neg same]
      exact wasFound
  have was : ∀ place table id other, servg.Live place table →
      ((servg.forget hash req param).hashes table).lookup id = some other →
      (servg.hashes table).lookup id = some other ∧ other ≠ param := by
    intro place table id other wasUp still
    rw [lookup_forget] at still
    split at still
    · cases still
    · rename_i elsewhere
      refine ⟨still, ?_⟩
      rintro rfl
      have first := accounted.placed serv hash req other live found
      have second := accounted.placed place table id other wasUp still
      apply elsewhere
      have samePlace : place = serv := second.owner.symm.trans first.owner
      subst samePlace
      exact ⟨wasUp.unique live, second.reqId.symm.trans first.reqId⟩
  refine ⟨?_, stays⟩
  constructor
  case placed =>
    intro place table id other wasUp still
    have placed := accounted.placed place table id other ((up _ _).mp wasUp)
      (was place table id other ((up _ _).mp wasUp) still).1
    exact ⟨placed.made, placed.reqId, placed.owner, placed.sentOn, placed.counted⟩
  case apart =>
    exact fun first second table one two =>
      accounted.apart first second table ((up _ _).mp one) ((up _ _).mp two)
  case known => exact fun place table one => accounted.known place table ((up _ _).mp one)
  case timed =>
    intro other member
    have different := (accounted.listed.mem_erase_iff.mp member).1
    have facts := accounted.timed other (accounted.listed.mem_erase_iff.mp member).2
    exact ⟨(stays other facts.1).resolve_right different, facts.2⟩
  case listed => exact accounted.listed.erase param
  case once => exact accounted.once
  case owned => exact accounted.owned
  case retired =>
    rintro invocation member ⟨place, table, id, wasUp, still⟩
    obtain ⟨wasFound, different⟩ := was place table id _ ((up _ _).mp wasUp) still
    have running := accounted.retired invocation member
      ⟨place, table, id, (up _ _).mp wasUp, wasFound⟩
    rw [calling] at running
    exact absurd (Option.some.inj running).symm different
  case replying =>
    intro place other id same
    cases same
  case expiring =>
    intro other rest now same
    cases same

end ServGroup

end SimpleDfs.ServerGroup
