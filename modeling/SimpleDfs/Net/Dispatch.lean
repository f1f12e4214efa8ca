import SimpleDfs.Net.Fields
import SimpleDfs.Net.Reassembly

/-!
Contract: what arbitrary bytes on one connection do to a server, from the read
buffer to the table of handlers (`net/s_net.c`, `net/s_packet.c`,
`serv_group/s_servg_do_event.c`).

Owns: `s_servg_do_event` on the bytes of a packet, the faults of framing and
dispatch, the runs of a connection that receives any bytes, and for which bytes
they are free of faults.

Does not own: what the handlers of users do; the lists and tables of the server
group.

The packets behind one that closed the connection are still dispatched, for the
loop of `s_net_poll` does not look at the connection again.
-/

set_option autoImplicit false

namespace SimpleDfs.Net

open SimpleDfs.Library

/-! ## Dispatch -/

/-- The server a connection belongs to: its type, and whether it has a table of
calls and a connection. -/
structure Peer where
  type : Int
  rpcHash : Bool
  conn : Bool
  deriving DecidableEq, Repr

/-- What the server group answers while it handles a packet: its password,
whether it lets a type and id in, whether it waits for a request, and whether a
handler is registered.  `s_servg_register` takes no code 0. -/
structure GroupView where
  ipcPwd : BitVec 32
  admits : Int → Int → Bool
  awaits : BitVec 32 → Bool
  handleMsg : Int → Nat → Bool
  handleMsg_zero : ∀ type, handleMsg type 0 = false

/-- What brings a server down: a failed assertion or a null packet, an index
behind the table of handlers, a server without what its message needs. -/
inductive Fault where
  | framing
  | table
  | server
  deriving DecidableEq, Repr

/-- What becomes of a packet. -/
inductive Handled where
  | closed
  | refused
  | established (type : Int)
  | joined
  | ponged
  | noted
  | returned
  | called (type : Int) (code : Nat)
  | dropped
  | failed (fault : Fault)
  deriving DecidableEq, Repr

/-- `ihandle_identify`. -/
def ihandleIdentify (group : GroupView) (pkt : SPacket) : Handled :=
  if sPacketGetFun pkt ≠ sPktTypeIdentify then .closed
  else
    match sPacketReadUint pkt with
    | none => .closed
    | some (pwd, pkt) =>
        if pwd ≠ group.ipcPwd then .refused
        else
          match sPacketReadInt pkt with
          | none => .closed
          | some (type, pkt) =>
              match sPacketReadInt pkt with
              | none => .closed
              | some (id, pkt) =>
                  match sPacketReadUint pkt with
                  | none => .closed
                  | some _ => if group.admits type id then .established type else .refused

/-- `ihandle_rpc_back`. -/
def ihandleRpcBack (group : GroupView) (serv : Peer) (pkt : SPacket) : Handled :=
  if !serv.rpcHash then .failed .server
  else if group.awaits (sPacketGetReq pkt) then .returned
  else .dropped

/-- `ihandle_identify_back`; a server that is reset loses its connection. -/
def ihandleIdentifyBack (pkt : SPacket) : Handled :=
  match sPacketReadInt pkt with
  | none => .closed
  | some (ret, pkt) =>
      match sPacketReadUint pkt with
      | none => .closed
      | some _ => if ret = 1 then .joined else .closed

/-- `ihandle_ping`. -/
def ihandlePing (serv : Peer) : Handled :=
  if serv.conn then .ponged else .failed .server

/-- `ihandle_pong`. -/
def ihandlePong (pkt : SPacket) : Handled :=
  match sPacketReadUint pkt with
  | none => .dropped
  | some (_, pkt) =>
      match sPacketReadUint pkt with
      | none => .dropped
      | some (_, pkt) =>
          match sPacketReadUint pkt with
          | none => .dropped
          | some _ => .noted

/-- `s_servg_do_event`; `serv` is the user data of the connection. -/
def sServgDoEvent (group : GroupView) (serv : Option Peer) (pkt : SPacket) : Handled :=
  match serv with
  | none => ihandleIdentify group pkt
  | some serv =>
      let code := sPacketGetFun pkt
      if code = sPktTypeRpcBack then ihandleRpcBack group serv pkt
      else if code = sPktTypeIdentifyBack then ihandleIdentifyBack pkt
      else if code = sPktTypePing then ihandlePing serv
      else if code = sPktTypePong then ihandlePong pkt
      else if sPktTypeMax ≤ code.toNat then .failed .table
      else if group.handleMsg serv.type code.toNat then .called serv.type code.toNat
      else .dropped

/-! ## A connection that receives bytes -/

/-- A packet with the server it was handled for. -/
structure Dispatched where
  serv : Option Peer
  pkt : SPacket
  handled : Handled

/-- A connection, what it has handled, and the fault that ended the process. -/
structure FramingWorld where
  conn : SConn
  exhausted : Bool
  serv : Option Peer
  closed : Bool
  handled : List Dispatched
  fault : Option Fault

/-- `s_net_close` and `iwhen_conn_closed`, as far as this connection and its
server are concerned. -/
def FramingWorld.close (world : FramingWorld) : FramingWorld :=
  { world with
    closed := true
    serv := world.serv.map fun serv => { serv with rpcHash := false, conn := false } }

/-- A write or a handler may close the connection. -/
def FramingWorld.closeIf (world : FramingWorld) (breaks : Bool) : FramingWorld :=
  if breaks then world.close else world

/-- What a packet does to its connection. -/
def FramingWorld.apply (world : FramingWorld) (breaks : Bool) : Handled → FramingWorld
  | .closed => world.close
  | .refused => world.closeIf breaks
  | .established type =>
      let serv := { type := type, rpcHash := true, conn := true }
      FramingWorld.closeIf { world with serv := some serv } breaks
  | .joined =>
      let serv := world.serv.map fun serv => { serv with rpcHash := true }
      FramingWorld.closeIf { world with serv := serv } breaks
  | .ponged => world.closeIf breaks
  | .noted => world
  | .returned => world.closeIf breaks
  | .called _ _ => world.closeIf breaks
  | .dropped => world
  | .failed fault => { world with fault := some fault }

/-- One call in the read branch of `s_net_poll`; `breaks` is whether a handler
or a failed write closes the connection. -/
inductive FramingEvent where
  | read (chunk : Chunk)
  | next (group : GroupView) (breaks : Bool)

/-- Read bytes, or take the next packet and hand it to `s_servg_do_event`. -/
def FramingWorld.step (world : FramingWorld) : FramingEvent → Option FramingWorld
  | .read chunk =>
      if world.fault = none ∧ world.exhausted = true ∧ world.closed = false then
        (ireadConn world.conn chunk).map fun conn =>
          { world with conn := conn, exhausted := false }
      else none
  | .next group breaks =>
      if world.fault = none ∧ world.exhausted = false then
        match inextPacket world.conn with
        | none => some { world with fault := some .framing }
        | some (conn, none) => some { world with conn := conn, exhausted := true }
        | some (conn, some pkt) =>
            let handled := sServgDoEvent group world.serv pkt
            let entry := { serv := world.serv, pkt := pkt, handled := handled }
            let world := { world with conn := conn, handled := world.handled ++ [entry] }
            some (world.apply breaks handled)
      else none

/-- A connection is fresh; its server is known if this process opened it. -/
def framingSystem : System FramingWorld FramingEvent where
  init := fun world => ∃ junk conn serv, Pooled conn ∧
    world =
      { conn := resetConn junk conn, exhausted := true, serv := serv, closed := false
        handled := [], fault := none }
  step := FramingWorld.step

/-! ## Which bytes are harmless -/

/-- The function code of the packet at the start of some bytes. -/
def codeField (size : Int) (bytes : List UInt8) : BitVec 32 :=
  if size < sPktHeadSize then 0 else wordOf (bytes.drop 4)

/-- A code that can be dispatched: answers need a table of calls, pings a
connection, everything else a place in the table of handlers. -/
def dispatchable (serv : Option Peer) (code : BitVec 32) : Bool :=
  match serv with
  | none => true
  | some serv =>
      if code = sPktTypeRpcBack then serv.rpcHash
      else if code = sPktTypePing then serv.conn
      else decide (code.toNat < sPktTypeMax)

/-- The size field at the start of the bytes is in range, and if the packet is
complete its code can be dispatched. -/
def acceptableBytes (serv : Option Peer) : List UInt8 → Bool
  | p0 :: p1 :: p2 :: p3 :: rest =>
      let bytes := p0 :: p1 :: p2 :: p3 :: rest
      let size := sizeField p0 p1 p2 p3
      decide (0 < size) && decide (size ≤ sPktMaxSz + sPktHeadSize) &&
        (decide ((bytes.length : Int) < size) || dispatchable serv (codeField size bytes))
  | _ => true

/-- The next packet is taken from acceptable bytes. -/
def acceptable (world : FramingWorld) : FramingEvent → Bool
  | .read _ => true
  | .next _ _ => acceptableBytes world.serv (undelivered world.conn)

/-- The fields of a packet that `s_servg_do_event` or its own handlers look for
are there. -/
def wellFormed (serv : Option Peer) (pkt : SPacket) : Bool :=
  let code := sPacketGetFun pkt
  match serv with
  | none => decide (code = sPktTypeIdentify) && decide (16 ≤ pkt.left)
  | some _ =>
      decide (0 < code.toNat) && decide (code.toNat < sPktTypeMax) &&
        (decide (code ≠ sPktTypeIdentifyBack) || decide (8 ≤ pkt.left)) &&
        (decide (code ≠ sPktTypePong) || decide (12 ≤ pkt.left))

/-- A size field above the maximum: its packet would never be handled. -/
def oversized : List UInt8 → Bool
  | p0 :: p1 :: p2 :: p3 :: _ => decide (sPktMaxSz + sPktHeadSize < sizeField p0 p1 p2 p3)
  | _ => false

/-- The server is up, every index lies in the table of handlers, and malformed
input has been dropped or has closed the connection. -/
structure Harmless (world : FramingWorld) : Prop where
  running : world.fault = none
  indexed : ∀ entry ∈ world.handled, entry.handled ≠ .failed .table
  malformed : ∀ entry ∈ world.handled, wellFormed entry.serv entry.pkt = false →
    entry.handled = .dropped ∨ entry.handled = .refused ∨
      (entry.handled = .closed ∧ world.closed = true)
  pending : world.exhausted = true → oversized (undelivered world.conn) = false

/-! ## One packet -/

theorem codeField_eq {bytes : List UInt8} {pkt : SPacket}
    (found : sPacketCreateFrom bytes = some (some pkt)) :
    sPacketGetFun pkt = codeField pkt.size bytes := by
  obtain ⟨p0, p1, p2, p3, rest, _, _, positive, enough, _, data⟩ := sPacketCreateFrom_some found
  unfold sPacketGetFun SPacket.getHead codeField
  by_cases short : pkt.size < sPktHeadSize
  · rw [if_pos short, if_pos short]
  · have hasHead : 12 ≤ pkt.size := not_lt.mp short
    rw [if_neg short, if_neg short, data, List.drop_take, wordOf_take _ (by omega)]

/-- A word that has been read was there. -/
theorem readUint_left {pkt after : SPacket} {word : BitVec 32}
    (read : sPacketReadUint pkt = some (word, after)) : pkt.left = after.left + 4 := by
  unfold sPacketReadUint SPacket.read at read
  split at read
  · cases read
  · cases Option.some.inj read
    unfold SPacket.left
    dsimp only
    omega

theorem readInt_left {pkt after : SPacket} {number : Int}
    (read : sPacketReadInt pkt = some (number, after)) : pkt.left = after.left + 4 := by
  obtain ⟨⟨word, rest⟩, readWord, same⟩ := Option.map_eq_some_iff.mp read
  cases same
  exact readUint_left readWord

/-- A connection that does not identify itself with all four fields is closed,
or refused for a wrong password. -/
theorem ihandleIdentify_malformed {group : GroupView} {pkt : SPacket}
    (malformed : wellFormed none pkt = false) :
    ihandleIdentify group pkt = .closed ∨ ihandleIdentify group pkt = .refused := by
  unfold ihandleIdentify
  split
  next => exact Or.inl rfl
  next isIdentify =>
    unfold wellFormed at malformed
    simp only [Bool.and_eq_false_iff, decide_eq_false_iff_not] at malformed
    have short : pkt.left < 16 := by
      have other := malformed.resolve_left isIdentify
      omega
    split
    next => exact Or.inl rfl
    next pwd afterPwd readPwd =>
      split
      next => exact Or.inr rfl
      next =>
        split
        next => exact Or.inl rfl
        next type afterType readType =>
          split
          next => exact Or.inl rfl
          next id afterId readId =>
            split
            next => exact Or.inl rfl
            next found readMem =>
              obtain ⟨mem, afterMem⟩ := found
              have first := readUint_left readPwd
              have second := readInt_left readType
              have third := readInt_left readId
              have fourth := readUint_left readMem
              omega

/-- Malformed packets that can be dispatched are dropped or close their
connection. -/
theorem sServgDoEvent_malformed {group : GroupView} {serv : Option Peer} {pkt : SPacket}
    (malformed : wellFormed serv pkt = false)
    (allowed : dispatchable serv (sPacketGetFun pkt) = true) :
    sServgDoEvent group serv pkt = .dropped ∨ sServgDoEvent group serv pkt = .refused ∨
      sServgDoEvent group serv pkt = .closed := by
  cases serv with
  | none => exact Or.inr (ihandleIdentify_malformed malformed).symm
  | some serv =>
      unfold sServgDoEvent
      unfold wellFormed at malformed
      unfold dispatchable at allowed
      simp only [Bool.and_eq_false_iff, Bool.or_eq_false_iff, decide_eq_false_iff_not, ne_eq,
        not_not] at malformed
      dsimp only at allowed ⊢
      by_cases rpcBack : sPacketGetFun pkt = sPktTypeRpcBack
      · rw [rpcBack] at malformed
        rcases malformed with ((zero | large) | wrong) | wrong
        · exact absurd (by decide) zero
        · exact absurd (by decide) large
        · exact absurd wrong.1 (by decide)
        · exact absurd wrong.1 (by decide)
      by_cases identifyBack : sPacketGetFun pkt = sPktTypeIdentifyBack
      · rw [if_neg rpcBack, if_pos identifyBack]
        rw [identifyBack] at malformed
        have short : pkt.left < 8 := by
          rcases malformed with ((zero | large) | short) | wrong
          · exact absurd (by decide) zero
          · exact absurd (by decide) large
          · omega
          · exact absurd wrong.1 (by decide)
        refine Or.inr (Or.inr ?_)
        unfold ihandleIdentifyBack
        split
        next => rfl
        next ret afterRet readRet =>
          split
          next => rfl
          next found readMem =>
            obtain ⟨mem, afterMem⟩ := found
            have first := readInt_left readRet
            have second := readUint_left readMem
            omega
      by_cases ping : sPacketGetFun pkt = sPktTypePing
      · rw [ping] at malformed
        rcases malformed with ((zero | large) | wrong) | wrong
        · exact absurd (by decide) zero
        · exact absurd (by decide) large
        · exact absurd wrong.1 (by decide)
        · exact absurd wrong.1 (by decide)
      by_cases pong : sPacketGetFun pkt = sPktTypePong
      · rw [if_neg rpcBack, if_neg identifyBack, if_neg ping, if_pos pong]
        rw [pong] at malformed
        have short : pkt.left < 12 := by
          rcases malformed with ((zero | large) | wrong) | short
          · exact absurd (by decide) zero
          · exact absurd (by decide) large
          · exact absurd wrong.1 (by decide)
          · omega
        refine Or.inl ?_
        unfold ihandlePong
        split
        next => rfl
        next sec afterSec readSec =>
          split
          next => rfl
          next usec afterUsec readUsec =>
            split
            next => rfl
            next found readMem =>
              obtain ⟨mem, afterMem⟩ := found
              have first := readUint_left readSec
              have second := readUint_left readUsec
              have third := readUint_left readMem
              omega
      rw [if_neg rpcBack, if_neg ping, decide_eq_true_iff] at allowed
      have zero : (sPacketGetFun pkt).toNat = 0 := by
        rcases malformed with ((zero | large) | wrong) | wrong
        · omega
        · omega
        · exact absurd wrong.1 identifyBack
        · exact absurd wrong.1 pong
      rw [if_neg rpcBack, if_neg identifyBack, if_neg ping, if_neg pong, if_neg (by omega), zero,
        group.handleMsg_zero]
      exact Or.inl rfl

theorem ihandleIdentify_ne_failed (group : GroupView) (pkt : SPacket) (fault : Fault) :
    ihandleIdentify group pkt ≠ .failed fault := by
  intro failed
  unfold ihandleIdentify at failed
  repeat' split at failed
  all_goals cases failed

theorem ihandleIdentifyBack_ne_failed (pkt : SPacket) (fault : Fault) :
    ihandleIdentifyBack pkt ≠ .failed fault := by
  intro failed
  unfold ihandleIdentifyBack at failed
  repeat' split at failed
  all_goals cases failed

theorem ihandlePong_ne_failed (pkt : SPacket) (fault : Fault) :
    ihandlePong pkt ≠ .failed fault := by
  intro failed
  unfold ihandlePong at failed
  repeat' split at failed
  all_goals cases failed

/-- A packet brings the server down exactly if it cannot be dispatched. -/
theorem sServgDoEvent_failed_iff (group : GroupView) (serv : Option Peer) (pkt : SPacket) :
    (∃ fault, sServgDoEvent group serv pkt = .failed fault) ↔
      dispatchable serv (sPacketGetFun pkt) = false := by
  cases serv with
  | none =>
      refine iff_of_false ?_ Bool.true_eq_false.mp
      rintro ⟨fault, failed⟩
      exact ihandleIdentify_ne_failed group pkt fault failed
  | some serv =>
      unfold sServgDoEvent dispatchable
      dsimp only
      by_cases rpcBack : sPacketGetFun pkt = sPktTypeRpcBack
      · rw [if_pos rpcBack, if_pos rpcBack]
        unfold ihandleRpcBack
        cases serv.rpcHash with
        | false => exact iff_of_true ⟨.server, rfl⟩ rfl
        | true =>
            refine iff_of_false ?_ Bool.true_eq_false.mp
            rintro ⟨fault, failed⟩
            cases awaited : group.awaits (sPacketGetReq pkt) with
            | false => rw [awaited] at failed; cases failed
            | true => rw [awaited] at failed; cases failed
      rw [if_neg rpcBack, if_neg rpcBack]
      by_cases identifyBack : sPacketGetFun pkt = sPktTypeIdentifyBack
      · rw [if_pos identifyBack, identifyBack]
        refine iff_of_false ?_ (show ¬ true = false by decide)
        rintro ⟨fault, failed⟩
        exact ihandleIdentifyBack_ne_failed pkt fault failed
      rw [if_neg identifyBack]
      by_cases ping : sPacketGetFun pkt = sPktTypePing
      · rw [if_pos ping, if_pos ping]
        unfold ihandlePing
        cases serv.conn with
        | false => exact iff_of_true ⟨.server, rfl⟩ rfl
        | true =>
            refine iff_of_false ?_ Bool.true_eq_false.mp
            rintro ⟨fault, failed⟩
            cases failed
      rw [if_neg ping, if_neg ping]
      by_cases pong : sPacketGetFun pkt = sPktTypePong
      · rw [if_pos pong, pong]
        refine iff_of_false ?_ (by decide)
        rintro ⟨fault, failed⟩
        exact ihandlePong_ne_failed pkt fault failed
      rw [if_neg pong, decide_eq_false_iff_not]
      by_cases outside : sPktTypeMax ≤ (sPacketGetFun pkt).toNat
      · rw [if_pos outside]
        exact iff_of_true ⟨.table, rfl⟩ (by omega)
      · rw [if_neg outside]
        refine iff_of_false ?_ (by omega)
        rintro ⟨fault, failed⟩
        split at failed
        · cases failed
        · cases failed

/-! ## Runs -/

/-- What a packet leaves alone, and when it ends the process. -/
structure Applied (before : FramingWorld) (handled : Handled) (after : FramingWorld) : Prop where
  conn : after.conn = before.conn
  exhausted : after.exhausted = before.exhausted
  log : after.handled = before.handled
  stays : before.closed = true → after.closed = true
  closes : handled = .closed → after.closed = true
  ends : ∀ fault, handled = .failed fault → after.fault = some fault
  runs : (∀ fault, handled ≠ .failed fault) → after.fault = before.fault

theorem closeIf_applied (world : FramingWorld) (breaks : Bool) {handled : Handled}
    (open_ : handled ≠ .closed) (survives : ∀ fault, handled ≠ .failed fault) :
    Applied world handled (world.closeIf breaks) := by
  have ends : ∀ fault, handled = .failed fault → (world.closeIf breaks).fault = some fault :=
    fun fault failed => absurd failed (survives fault)
  cases breaks with
  | false => exact ⟨rfl, rfl, rfl, id, fun closed => absurd closed open_, ends, fun _ => rfl⟩
  | true => exact ⟨rfl, rfl, rfl, fun _ => rfl, fun _ => rfl, ends, fun _ => rfl⟩

theorem apply_applied (world : FramingWorld) (breaks : Bool) (handled : Handled) :
    Applied world handled (world.apply breaks handled) := by
  cases handled with
  | closed => exact ⟨rfl, rfl, rfl, fun _ => rfl, fun _ => rfl, nofun, fun _ => rfl⟩
  | refused => exact closeIf_applied world breaks nofun nofun
  | established type =>
      obtain ⟨conn, exhausted, log, stays, closes, ends, runs⟩ :=
        @closeIf_applied { world with serv := some { type := type, rpcHash := true, conn := true } }
          breaks (.established type) nofun nofun
      exact ⟨conn, exhausted, log, stays, closes, ends, runs⟩
  | joined =>
      obtain ⟨conn, exhausted, log, stays, closes, ends, runs⟩ :=
        @closeIf_applied
          { world with serv := world.serv.map fun serv => { serv with rpcHash := true } }
          breaks .joined nofun nofun
      exact ⟨conn, exhausted, log, stays, closes, ends, runs⟩
  | ponged => exact closeIf_applied world breaks nofun nofun
  | noted => exact ⟨rfl, rfl, rfl, id, nofun, nofun, fun _ => rfl⟩
  | returned => exact closeIf_applied world breaks nofun nofun
  | called type code => exact closeIf_applied world breaks nofun nofun
  | dropped => exact ⟨rfl, rfl, rfl, id, nofun, nofun, fun _ => rfl⟩
  | failed fault =>
      refine ⟨rfl, rfl, rfl, id, nofun, ?_, fun never => absurd rfl (never fault)⟩
      intro other same
      cases same
      rfl

/-- Bytes from which a packet is cut out are acceptable exactly if it can be
dispatched. -/
theorem acceptableBytes_some {serv : Option Peer} {bytes : List UInt8} {pkt : SPacket}
    (found : sPacketCreateFrom bytes = some (some pkt)) :
    acceptableBytes serv bytes = dispatchable serv (sPacketGetFun pkt) := by
  have code := codeField_eq found
  obtain ⟨p0, p1, p2, p3, rest, rfl, size, positive, enough, small, _⟩ :=
    sPacketCreateFrom_some found
  rw [size] at code positive enough small
  unfold acceptableBytes
  dsimp only
  rw [code, decide_eq_true positive, decide_eq_true small, decide_eq_false (not_lt.mpr enough)]
  rfl

/-- Bytes without a complete packet are acceptable exactly if the packet may
still come. -/
theorem acceptableBytes_none {serv : Option Peer} {bytes : List UInt8}
    (found : sPacketCreateFrom bytes = some none) :
    acceptableBytes serv bytes = !oversized bytes := by
  match bytes with
  | [] => rfl
  | [_] => rfl
  | [_, _] => rfl
  | [_, _, _] => rfl
  | p0 :: p1 :: p2 :: p3 :: rest =>
      obtain ⟨positive, short⟩ := sPacketCreateFrom_waits found
      unfold acceptableBytes oversized
      dsimp only
      rw [decide_eq_true positive, decide_eq_true short, Bool.true_and]
      by_cases small : sizeField p0 p1 p2 p3 ≤ sPktMaxSz + sPktHeadSize
      · rw [decide_eq_true small, decide_eq_false (not_lt.mpr small)]
        rfl
      · rw [decide_eq_false small, decide_eq_true (not_le.mp small)]
        rfl

/-- Bytes on which cutting out a packet fails are not acceptable. -/
theorem acceptableBytes_failed {serv : Option Peer} {bytes : List UInt8}
    (found : sPacketCreateFrom bytes = none) : acceptableBytes serv bytes = false := by
  match bytes with
  | [] => cases found
  | [_] => cases found
  | [_, _] => cases found
  | [_, _, _] => cases found
  | p0 :: p1 :: p2 :: p3 :: rest =>
      have failed := (sPacketCreateFrom_eq_none_iff p0 p1 p2 p3 rest).mp found
      unfold acceptableBytes
      dsimp only
      rcases failed with negative | ⟨_, large⟩
      · rw [decide_eq_false (not_lt.mpr negative)]
        rfl
      · rw [decide_eq_false (not_le.mpr large), Bool.and_false]
        rfl

/-- A packet that is handled leaves a harmless state exactly if it can be
dispatched. -/
theorem harmless_handled {before : FramingWorld} {group : GroupView} {pkt : SPacket} {conn : SConn}
    (harmless : Harmless before) (open_ : before.exhausted = false) (breaks : Bool) :
    let handled := sServgDoEvent group before.serv pkt
    let entry : Dispatched := { serv := before.serv, pkt := pkt, handled := handled }
    let world := { before with conn := conn, handled := before.handled ++ [entry] }
    Harmless (world.apply breaks handled) ↔
      dispatchable before.serv (sPacketGetFun pkt) = true := by
  intro handled entry world
  have failed := sServgDoEvent_failed_iff group before.serv pkt
  have applied := apply_applied world breaks handled
  constructor
  · intro after
    by_contra refused
    obtain ⟨fault, ends⟩ := failed.mpr (eq_false_of_ne_true refused)
    have down := applied.ends fault ends
    rw [after.running] at down
    cases down
  · intro allowed
    have survives : ∀ fault, handled ≠ .failed fault := by
      intro fault ends
      rw [failed.mp ⟨fault, ends⟩] at allowed
      cases allowed
    constructor
    · rw [applied.runs survives]
      exact harmless.running
    · rw [applied.log]
      intro one member
      rcases List.mem_append.mp member with earlier | last
      · exact harmless.indexed one earlier
      · rw [List.mem_singleton.mp last]
        exact survives .table
    · rw [applied.log]
      intro one member malformed
      rcases List.mem_append.mp member with earlier | last
      · have dropped := harmless.malformed one earlier malformed
        exact dropped.imp_right (Or.imp_right (And.imp_right applied.stays))
      · rw [List.mem_singleton.mp last] at malformed ⊢
        have dropped := @sServgDoEvent_malformed group _ _ malformed allowed
        exact dropped.imp_right (Or.imp_right fun closed => ⟨closed, applied.closes closed⟩)
    · intro exhausted
      rw [applied.exhausted] at exhausted
      have same : before.exhausted = true := exhausted
      rw [open_] at same
      cases same

/-- One step from a harmless state leads to a harmless state exactly if its bytes
are acceptable. -/
theorem harmless_step_iff {before after : FramingWorld} {event : FramingEvent}
    {pending : List UInt8} (holding : Holding before.conn pending) (harmless : Harmless before)
    (stepped : before.step event = some after) :
    (∃ pending, Holding after.conn pending) ∧
      (Harmless after ↔ acceptable before event = true) := by
  cases event with
  | read chunk =>
      unfold FramingWorld.step at stepped
      dsimp only at stepped
      split at stepped
      next =>
        obtain ⟨conn, read, rfl⟩ := Option.map_eq_some_iff.mp stepped
        refine ⟨⟨_, (holding_ireadConn holding read).1⟩, iff_of_true ?_ rfl⟩
        exact ⟨harmless.running, harmless.indexed, harmless.malformed, nofun⟩
      next => cases stepped
  | next group breaks =>
      unfold FramingWorld.step at stepped
      dsimp only at stepped
      split at stepped
      next enabled =>
        unfold acceptable
        dsimp only
        rw [holding.undelivered]
        cases found : sPacketCreateFrom pending with
        | none =>
            rw [holding_inextPacket_failed holding found] at stepped
            cases Option.some.inj stepped
            rw [acceptableBytes_failed found]
            exact ⟨⟨pending, holding⟩, iff_of_false (fun down => nomatch down.running)
              Bool.false_ne_true⟩
        | some result =>
            cases result with
            | none =>
                obtain ⟨conn, nothing, kept, _⟩ := holding_inextPacket_none holding found
                rw [nothing] at stepped
                cases Option.some.inj stepped
                rw [acceptableBytes_none found, Bool.not_eq_true']
                refine ⟨⟨pending, kept⟩, ?_⟩
                constructor
                · intro after
                  have small := after.pending rfl
                  rw [kept.undelivered] at small
                  exact small
                · intro small
                  refine ⟨harmless.running, harmless.indexed, harmless.malformed, ?_⟩
                  intro _
                  rw [kept.undelivered]
                  exact small
            | some pkt =>
                obtain ⟨conn, taken, kept⟩ := holding_inextPacket holding found
                rw [taken] at stepped
                cases Option.some.inj stepped
                rw [acceptableBytes_some found]
                refine ⟨⟨pending.drop pkt.size.toNat, ?_⟩, ?_⟩
                · rw [(apply_applied _ _ _).conn]
                  exact kept
                · exact harmless_handled harmless enabled.2 breaks
      next => cases stepped

/-- Runs that take packets from acceptable bytes only. -/
def AcceptableRun : FramingWorld → Prop :=
  framingSystem.ReachableVia fun world event => acceptable world event = true

theorem acceptableRun_harmless {world : FramingWorld} (reached : AcceptableRun world) :
    Harmless world ∧ ∃ pending, Holding world.conn pending := by
  refine reached.invariant (fun world => Harmless world ∧ ∃ pending, Holding world.conn pending)
    ?_ ?_
  · rintro start ⟨junk, conn, serv, pooled, rfl⟩
    have holding := (@holding_resetConn junk conn pooled).1
    have none_handled : ∀ entry : Dispatched, ¬ entry ∈ [] := fun _ => List.not_mem_nil
    refine ⟨⟨rfl, ?_, ?_, ?_⟩, [], holding⟩
    · exact fun entry member => absurd member (none_handled entry)
    · exact fun entry member => absurd member (none_handled entry)
    intro _
    dsimp only
    rw [holding.undelivered]
    rfl
  · rintro before event after _ ⟨harmless, pending, holding⟩ allowed stepped
    obtain ⟨kept, harmlessAfter⟩ := harmless_step_iff holding harmless stepped
    exact ⟨harmlessAfter.mpr allowed, kept⟩

/-- **No byte stream brings a server down** as long as every size field is in
range and every code can be dispatched, and the first that is not does. -/
theorem framing_harmless {world : FramingWorld} (reached : AcceptableRun world) :
    Harmless world ∧ ∀ event after, world.step event = some after →
      (Harmless after ↔ acceptable world event = true) := by
  obtain ⟨harmless, pending, holding⟩ := acceptableRun_harmless reached
  refine ⟨harmless, ?_⟩
  intro event after stepped
  exact (harmless_step_iff holding harmless stepped).2

/-- A connection that a client has opened. -/
def freshFraming : FramingWorld where
  conn := resetConn (fun _ => 0) allocatedConn
  exhausted := true
  serv := none
  closed := false
  handled := []
  fault := none

theorem framingSystem_init_freshFraming : framingSystem.init freshFraming :=
  ⟨fun _ => 0, allocatedConn, none, (fun _ absent => nomatch absent), rfl⟩

/-- A server group that lets nobody in. -/
def closedGroup : GroupView where
  ipcPwd := 7
  admits := fun _ _ => false
  awaits := fun _ => false
  handleMsg := fun _ _ => false
  handleMsg_zero := fun _ => rfl

/-- Read some bytes and take a packet from them. -/
def receive (bytes : List UInt8) : List FramingEvent :=
  [.read { ndata := bytes.length, reads := [.data bytes, .again], junk := fun _ => 0 },
    .next closedGroup false]

/-- A packet of eight bytes, shorter than a head. -/
theorem framing_harmless_short :
    Harmless (framingSystem.outcome freshFraming (receive [8, 0, 0, 0, 7, 0, 0, 0])) :=
  (framing_harmless (System.reachableVia_outcome framingSystem_init_freshFraming _
    (by decide +kernel))).1

/-- Four zero bytes end the process. -/
theorem not_always_framing_harmless :
    ¬ ∀ world, framingSystem.Reachable world → Harmless world := by
  intro always
  have harmless := always _ (System.reachable_outcome framingSystem_init_freshFraming
    (receive [0, 0, 0, 0]))
  have down : (framingSystem.outcome freshFraming (receive [0, 0, 0, 0])).fault = some .framing := by
    decide +kernel
  rw [harmless.running] at down
  cases down

end SimpleDfs.Net
