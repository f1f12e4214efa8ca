import SimpleDfs.ServerGroup.Orderly

/-!
Contract: the calls of a server group that wait for an answer, and the callbacks
that have run.

Owns: the tables in use, the pending calls, and `Accounted`, which ties the
tables, the timeout list, the running callback and the callbacks that have run to
each other; what an operation may change of them without breaking that, and what
becomes of a pending call meanwhile.

Does not own: which operations change what.
-/

set_option autoImplicit false

namespace SimpleDfs.ServerGroup

open SimpleDfs.Common
open SimpleDfs.Library

namespace ServGroup

/-! ## Calls -/

/-- The server is established and this is its table of calls. -/
structure Live (servg : ServGroup) (serv : ServAddr) (hash : Nat) : Prop where
  entry : IsEntry servg.servs serv
  established : (servg.entries serv).flags.established = true
  table : (servg.entries serv).rpcHash = some hash

/-- The call is in the `rpc_hash` of an established server. -/
def Pending (servg : ServGroup) (param : Nat) : Prop :=
  ∃ serv hash req, servg.Live serv hash ∧ (servg.hashes hash).lookup req = some param

/-- The frame, unless it is the round of `s_servg_check_list`. -/
def callFrame (servg : ServGroup) : Option Frame :=
  match servg.frame with
  | some (.checking _ _) => none
  | frame => frame

/-- The call whose callback is running. -/
def calling (servg : ServGroup) : Option Nat :=
  match servg.callFrame with
  | some (.rpcBack _ param _) => some param
  | some (.timeout param _ _) => some param
  | _ => none

/-- No call to the server is on the timeout list, and no callback of one is
running. -/
def Quiet (servg : ServGroup) (serv : ServAddr) : Prop :=
  (∀ param ∈ servg.rpcTimeoutList, (servg.params param).serv ≠ serv) ∧
    ∀ param ∈ servg.calling, (servg.params param).serv ≠ serv

instance (servg : ServGroup) (serv : ServAddr) : Decidable (servg.Quiet serv) :=
  inferInstanceAs (Decidable ((∀ param ∈ servg.rpcTimeoutList, _ ≠ _) ∧
    ∀ param ∈ servg.calling, _ ≠ _))

/-- The callback has run for its own call: with the reply to its request id on
the connection the call was sent on, with a timeout the call has, or when that
connection was closed. -/
def Owned (servg : ServGroup) (invocation : Invocation) : Prop :=
  let call := servg.params invocation.param
  match invocation.cause with
  | .reply opening req => call.reqId = req ∧ call.sentOn = opening
  | .timeout => 0 < call.msecTimeout
  | .closed opening => call.sentOn = opening

/-- A call and its place: the server, its connection and the request id are those
of the call, and no later call of the server gets the same id. -/
structure Placed (servg : ServGroup) (serv : ServAddr) (req : BitVec 32) (param : Nat) : Prop where
  made : param < servg.nparams
  reqId : (servg.params param).reqId = req
  owner : (servg.params param).serv = serv
  sentOn : (servg.params param).sentOn = servg.openingOf serv
  counted : (servg.entries serv).reqId = 0 ∨ req.toNat < (servg.entries serv).reqId.toNat

/-- The tables, the timeout list, the running callback and the callbacks that
have run agree. -/
structure Accounted (servg : ServGroup) : Prop where
  placed : ∀ serv hash req param, servg.Live serv hash →
    (servg.hashes hash).lookup req = some param → servg.Placed serv req param
  apart : ∀ serv other hash, servg.Live serv hash → servg.Live other hash → serv = other
  known : ∀ serv hash, servg.Live serv hash → hash < servg.nhashes
  timed : ∀ param ∈ servg.rpcTimeoutList,
    servg.Pending param ∧ 0 < (servg.params param).msecTimeout
  listed : servg.rpcTimeoutList.Nodup
  once : (servg.invoked.map Invocation.param).Nodup
  owned : ∀ invocation ∈ servg.invoked,
    invocation.param < servg.nparams ∧ servg.Owned invocation
  retired : ∀ invocation ∈ servg.invoked, servg.Pending invocation.param →
    servg.calling = some invocation.param
  replying : ∀ serv param req, servg.callFrame = some (.rpcBack serv param req) →
    (∃ hash, servg.Live serv hash ∧ (servg.hashes hash).lookup req = some param) ∧
      ∃ opening, { param := param, cause := .reply opening req } ∈ servg.invoked
  expiring : ∀ param rest now, servg.callFrame = some (.timeout param rest now) →
    servg.Pending param ∧ { param := param, cause := .timeout } ∈ servg.invoked ∧
      now.atLeast (servg.params param).tvTimeout = true ∧ (param :: rest).Nodup ∧
      ∀ other ∈ rest, other ∈ servg.rpcTimeoutList

/-- The callback of the call has run because its connection was closed. -/
def CutOff (before after : ServGroup) (param : Nat) : Prop :=
  { param := param, cause := .closed (before.params param).sentOn } ∈ after.invoked ∧
    { param := param, cause := .closed (before.params param).sentOn } ∉ before.invoked

/-- A group in which every call is accounted for still is, and no pending call
has been lost. -/
structure Proceeds (before after : ServGroup) : Prop where
  accounted : after.Accounted
  made : before.nparams ≤ after.nparams
  params : ∀ param < before.nparams, after.params param = before.params param
  grows : ∀ invocation ∈ before.invoked, invocation ∈ after.invoked
  pending : ∀ param, before.Pending param → after.Pending param ∨ CutOff before after param

section

variable {servg before after : ServGroup} {serv : ServAddr} {param : Nat}

theorem Live.unique {hash other : Nat} (live : servg.Live serv hash)
    (again : servg.Live serv other) : hash = other :=
  Option.some.inj (live.table.symm.trans again.table)

theorem live_congr {hash : Nat} (servs : after.servs = before.servs)
    (entries : after.entries = before.entries) :
    after.Live serv hash ↔ before.Live serv hash := by
  constructor
  · exact fun live => ⟨servs ▸ live.entry, entries ▸ live.established, entries ▸ live.table⟩
  · exact fun live => ⟨servs ▸ live.entry, entries ▸ live.established, entries ▸ live.table⟩

theorem pending_congr (servs : after.servs = before.servs)
    (entries : after.entries = before.entries) (hashes : after.hashes = before.hashes) :
    after.Pending param ↔ before.Pending param := by
  simp only [Pending, live_congr servs entries, hashes]

theorem Accounted.made (accounted : servg.Accounted) (pending : servg.Pending param) :
    param < servg.nparams := by
  obtain ⟨serv, hash, req, live, found⟩ := pending
  exact (accounted.placed serv hash req param live found).made

/-- A pending call is in the table of its own server, under its own request
id. -/
theorem Accounted.place (accounted : servg.Accounted) (pending : servg.Pending param) :
    ∃ hash, servg.Live (servg.params param).serv hash ∧
      (servg.hashes hash).lookup (servg.params param).reqId = some param := by
  obtain ⟨serv, hash, req, live, found⟩ := pending
  have placed := accounted.placed serv hash req param live found
  rw [placed.owner, placed.reqId]
  exact ⟨hash, live, found⟩

/-- The running callback is the one of a pending call. -/
theorem Accounted.pending_of_calling (accounted : servg.Accounted)
    (calling : servg.calling = some param) : servg.Pending param := by
  rw [ServGroup.calling] at calling
  split at calling
  next at_serv call req frame =>
    cases calling
    obtain ⟨⟨hash, live, found⟩, _⟩ := accounted.replying _ _ _ frame
    exact ⟨_, hash, _, live, found⟩
  next call rest now frame =>
    cases calling
    exact (accounted.expiring _ _ _ frame).1
  · cases calling

/-- A server that is not established has no calls. -/
theorem Accounted.quiet (accounted : servg.Accounted)
    (down : (servg.entries serv).flags.established = false) : servg.Quiet serv := by
  have elsewhere : ∀ param, servg.Pending param → (servg.params param).serv ≠ serv := by
    rintro param pending rfl
    obtain ⟨hash, live, _⟩ := accounted.place pending
    rw [live.established] at down
    cases down
  constructor
  · exact fun param member => elsewhere param (accounted.timed param member).1
  · exact fun param calling => elsewhere param (accounted.pending_of_calling calling)

theorem Proceeds.refl (accounted : servg.Accounted) : Proceeds servg servg :=
  ⟨accounted, Nat.le_refl _, fun _ _ => rfl, fun _ member => member,
    fun _ pending => Or.inl pending⟩

theorem Proceeds.trans {last : ServGroup} (accounted : servg.Accounted)
    (early : Proceeds servg before) (late : Proceeds before last) : Proceeds servg last := by
  refine ⟨late.accounted, Nat.le_trans early.made late.made, ?_, ?_, ?_⟩
  · intro param made
    rw [late.params param (Nat.lt_of_lt_of_le made early.made)]
    exact early.params param made
  · exact fun invocation member => late.grows invocation (early.grows invocation member)
  · intro param pending
    have same := early.params param (accounted.made pending)
    rcases early.pending param pending with still | cutOff
    · rcases late.pending param still with lasting | cutOff
      · exact Or.inl lasting
      · rw [CutOff, same] at cutOff
        exact Or.inr ⟨cutOff.1, fun member => cutOff.2 (early.grows _ member)⟩
    · exact Or.inr ⟨late.grows _ cutOff.1, cutOff.2⟩

/-! ## What does not matter to the calls -/

/-- What `Accounted` reads besides the established servers. -/
structure CallPart where
  params : Nat → RpcParam
  nparams : Nat
  hashes : Nat → Table (BitVec 32) Nat
  nhashes : Nat
  rpcTimeoutList : List Nat
  callFrame : Option Frame
  invoked : List Invocation

def callPart (servg : ServGroup) : CallPart where
  params := servg.params
  nparams := servg.nparams
  hashes := servg.hashes
  nhashes := servg.nhashes
  rpcTimeoutList := servg.rpcTimeoutList
  callFrame := servg.callFrame
  invoked := servg.invoked

/-- The established servers, their tables and connections stay, and so do the
calls. -/
structure CallsKept (before after : ServGroup) : Prop where
  live : ∀ serv hash, after.Live serv hash ↔ before.Live serv hash
  opening : ∀ serv hash, before.Live serv hash → after.openingOf serv = before.openingOf serv
  counter : ∀ serv hash, before.Live serv hash →
    (after.entries serv).reqId = (before.entries serv).reqId
  part : after.callPart = before.callPart

theorem CallsKept.refl (servg : ServGroup) : CallsKept servg servg :=
  ⟨fun _ _ => Iff.rfl, fun _ _ _ => rfl, fun _ _ _ => rfl, rfl⟩

theorem CallsKept.trans {last : ServGroup} (early : CallsKept servg before)
    (late : CallsKept before last) : CallsKept servg last := by
  refine ⟨?_, ?_, ?_, late.part.trans early.part⟩
  · exact fun serv hash => (late.live serv hash).trans (early.live serv hash)
  · intro serv hash live
    exact (late.opening serv hash ((early.live serv hash).mpr live)).trans
      (early.opening serv hash live)
  · intro serv hash live
    exact (late.counter serv hash ((early.live serv hash).mpr live)).trans
      (early.counter serv hash live)

/-- The fields of entries that are read of established servers stay. -/
theorem CallsKept.of_entries (servs : after.servs = before.servs)
    (established : ∀ serv, (after.entries serv).flags.established =
      (before.entries serv).flags.established)
    (entries : ∀ serv, (before.entries serv).flags.established = true →
      (after.entries serv).rpcHash = (before.entries serv).rpcHash ∧
        (after.entries serv).reqId = (before.entries serv).reqId)
    (opening : ∀ serv hash, before.Live serv hash → after.openingOf serv = before.openingOf serv)
    (part : after.callPart = before.callPart) : CallsKept before after := by
  refine ⟨?_, opening, ?_, part⟩
  · intro serv hash
    constructor
    · intro live
      have up := live.established
      rw [established] at up
      exact ⟨servs ▸ live.entry, up, (entries serv up).1 ▸ live.table⟩
    · intro live
      exact ⟨servs ▸ live.entry, (established serv).trans live.established,
        (entries serv live.established).1.trans live.table⟩
  · exact fun serv hash live => (entries serv live.established).2

/-- Neither the entries nor the openings change. -/
theorem CallsKept.of_same (servs : after.servs = before.servs)
    (entries : after.entries = before.entries)
    (opening : ∀ serv, after.openingOf serv = before.openingOf serv)
    (part : after.callPart = before.callPart) : CallsKept before after := by
  refine CallsKept.of_entries servs ?_ ?_ (fun serv _ _ => opening serv) part
  · exact fun serv => by rw [entries]
  · exact fun serv _ => by simp [entries]

theorem openingOf_congr {serv : ServAddr}
    (conn : (after.entries serv).conn = (before.entries serv).conn)
    (opening : ∀ conn, (before.entries serv).conn = some conn →
      (after.conns conn).opening = (before.conns conn).opening) :
    after.openingOf serv = before.openingOf serv := by
  rw [openingOf, openingOf, conn]
  split
  · rfl
  · rename_i place atConn
    exact opening place atConn

theorem quiet_congr (params : after.params = before.params)
    (list : after.rpcTimeoutList = before.rpcTimeoutList)
    (frame : after.callFrame = before.callFrame) :
    after.Quiet serv ↔ before.Quiet serv := by
  rw [Quiet, Quiet, calling, calling, params, list, frame]

theorem CallsKept.quiet (kept : CallsKept before after) :
    after.Quiet serv ↔ before.Quiet serv :=
  quiet_congr (congrArg CallPart.params kept.part) (congrArg CallPart.rpcTimeoutList kept.part)
    (congrArg CallPart.callFrame kept.part)

theorem Proceeds.of_kept (accounted : before.Accounted) (kept : CallsKept before after) :
    Proceeds before after := by
  have params : after.params = before.params := congrArg CallPart.params kept.part
  have nparams : after.nparams = before.nparams := congrArg CallPart.nparams kept.part
  have hashes : after.hashes = before.hashes := congrArg CallPart.hashes kept.part
  have nhashes : after.nhashes = before.nhashes := congrArg CallPart.nhashes kept.part
  have list : after.rpcTimeoutList = before.rpcTimeoutList :=
    congrArg CallPart.rpcTimeoutList kept.part
  have frame : after.callFrame = before.callFrame := congrArg CallPart.callFrame kept.part
  have invoked : after.invoked = before.invoked := congrArg CallPart.invoked kept.part
  have calling : after.calling = before.calling := by rw [ServGroup.calling, ServGroup.calling, frame]
  have pending : ∀ param, after.Pending param ↔ before.Pending param := by
    intro param
    simp only [Pending, kept.live, hashes]
  refine ⟨?_, Nat.le_of_eq nparams.symm, ?_, ?_, fun param still => Or.inl ((pending param).mpr still)⟩
  · constructor
    case placed =>
      intro serv hash req param live found
      rw [kept.live] at live
      rw [hashes] at found
      have placed := accounted.placed serv hash req param live found
      refine ⟨nparams ▸ placed.made, params ▸ placed.reqId, params ▸ placed.owner, ?_, ?_⟩
      · rw [params, kept.opening serv hash live]
        exact placed.sentOn
      · rw [kept.counter serv hash live]
        exact placed.counted
    case apart =>
      intro serv other hash live again
      exact accounted.apart serv other hash ((kept.live _ _).mp live) ((kept.live _ _).mp again)
    case known =>
      intro serv hash live
      rw [nhashes]
      exact accounted.known serv hash ((kept.live _ _).mp live)
    case timed =>
      intro param member
      rw [list] at member
      rw [pending, params]
      exact accounted.timed param member
    case listed => exact list ▸ accounted.listed
    case once => exact invoked ▸ accounted.once
    case owned =>
      intro invocation member
      rw [invoked] at member
      rw [nparams, Owned, params]
      exact accounted.owned invocation member
    case retired =>
      intro invocation member still
      rw [invoked] at member
      rw [calling]
      exact accounted.retired invocation member ((pending _).mp still)
    case replying =>
      intro serv param req at_frame
      rw [frame] at at_frame
      simp only [kept.live, hashes, invoked]
      exact accounted.replying serv param req at_frame
    case expiring =>
      intro param rest now at_frame
      rw [frame] at at_frame
      rw [pending, invoked, params, list]
      exact accounted.expiring param rest now at_frame
  · exact fun param _ => by rw [params]
  · exact fun invocation member => invoked ▸ member

end

end ServGroup

end SimpleDfs.ServerGroup
