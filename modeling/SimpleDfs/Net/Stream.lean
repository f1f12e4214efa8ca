import SimpleDfs.Net.Connection
import SimpleDfs.Net.Packet

/-!
Contract: how the bytes of a connection become packets again (`net/s_net.c`).

Owns: `iread_conn`, `inext_packet`, the read branch of `s_net_poll` one call at
a time, and the bytes a read buffer holds.

A read event is described by what the kernel answers: the result of `FIONREAD`
and the results of the successive calls of `read`.

Does not own: who handles a packet; what happens when the connection is closed.
-/

set_option autoImplicit false

namespace SimpleDfs.Net

open SimpleDfs.Library

/-- `s_roundup`; `align` is a power of two. -/
def sRoundup (n align : Int) : Int :=
  (n + align - 1) / align * align

/-- The values above the largest C `int`. -/
def intLimit : Int := 2 ^ 31

/-- One result of `read`: some bytes, the errors the loop tells apart, or 0. -/
inductive ReadResult where
  | data (bytes : List UInt8)
  | zero
  | again
  | interrupted
  | failed
  deriving DecidableEq, Repr

/-- What the kernel answers in one `iread_conn`.  `junk` is what a newly
allocated buffer holds. -/
structure Chunk where
  ndata : Int
  reads : List ReadResult
  junk : Nat → UInt8

/-- The bytes that reach the buffer before the loop ends. -/
def receivedBytes : List ReadResult → List UInt8
  | [] => []
  | .data bytes :: rest => bytes ++ receivedBytes rest
  | .interrupted :: rest => receivedBytes rest
  | .zero :: _ => []
  | .again :: _ => []
  | .failed :: _ => []

/-- `memcpy` of `bytes` to offset `pos` of a buffer. -/
def overwrite (buf : List UInt8) (pos : Nat) (bytes : List UInt8) : List UInt8 :=
  buf.take pos ++ (bytes ++ buf.drop (pos + bytes.length))

/-- The bytes from offset `pos` on, `len` of them. -/
def window (buf : List UInt8) (pos len : Nat) : List UInt8 :=
  (buf.drop pos).take len

/-- The growth of the buffer in `iread_conn`.  `none` is a signed overflow. -/
def growBuffer (junk : Nat → UInt8) (conn : SConn) (buf : List UInt8) (ndata : Int) :
    Option SConn :=
  if conn.readBufSz - conn.readBufP < ndata then
    let sz := conn.readBufP + ndata
    if sz * 2 + 1 + 1024 < intLimit then
      let readBufSz := sRoundup (sz * 2 + 1) 1024
      some { conn with
        readBufSz := readBufSz
        readBuf := some (overwrite (uninitialised junk readBufSz.toNat) 0
          (buf.take conn.readBufP.toNat)) }
    else none
  else some conn

/-- The loop of `iread_conn`.  `none` is a read error, or an answer no kernel
gives: more bytes than were asked for. -/
def readLoop (conn : SConn) : List ReadResult → Option SConn
  | [] => some conn
  | .interrupted :: rest => readLoop conn rest
  | .again :: _ => some conn
  | .zero :: _ => some conn
  | .failed :: _ => none
  | .data bytes :: rest =>
      match conn.readBuf with
      | none => none
      | some buf =>
          if bytes ≠ [] ∧ (bytes.length : Int) ≤ conn.readBufSz - conn.readBufP then
            readLoop
              { conn with
                readBuf := some (overwrite buf conn.readBufP.toNat bytes)
                readBufP := conn.readBufP + bytes.length }
              rest
          else none

/-- `iread_conn`; `none` is every outcome but 0. -/
def ireadConn (conn : SConn) (chunk : Chunk) : Option SConn :=
  if 0 < chunk.ndata then
    match conn.readBuf with
    | none => none
    | some buf =>
        match growBuffer chunk.junk conn buf chunk.ndata with
        | none => none
        | some conn => readLoop conn chunk.reads
  else none

/-- `inext_packet`: the connection and the packet, if one is complete.  The
outer `none` is a failed assertion in `s_packet_create_from`. -/
def inextPacket (conn : SConn) : Option (SConn × Option SPacket) :=
  match conn.readBuf with
  | none => none
  | some buf =>
      let sz := conn.readBufP - conn.readBufCurr
      let bytes := window buf conn.readBufCurr.toNat sz.toNat
      match sPacketCreateFrom bytes with
      | none => none
      | some none =>
          if conn.readBufCurr > 0 then
            some ({ conn with
              readBuf := some (overwrite buf 0 bytes)
              readBufP := sz
              readBufCurr := 0 }, none)
          else some (conn, none)
      | some (some pkt) =>
          some ({ conn with readBufCurr := conn.readBufCurr + pkt.size }, some pkt)

/-! ## Read events -/

/-- A connection with all bytes it has received and all packets it has handed
to the callback.  It is `exhausted` once `inext_packet` has found no packet. -/
structure StreamWorld where
  conn : SConn
  exhausted : Bool
  received : List UInt8
  delivered : List SPacket

/-- One call in the read branch of `s_net_poll`. -/
inductive StreamEvent where
  | read (chunk : Chunk)
  | next

def StreamWorld.step (world : StreamWorld) : StreamEvent → Option StreamWorld
  | .read chunk =>
      if world.exhausted then
        match ireadConn world.conn chunk with
        | none => none
        | some conn =>
            some { world with
              conn := conn
              exhausted := false
              received := world.received ++ receivedBytes chunk.reads }
      else none
  | .next =>
      if world.exhausted then none
      else
        match inextPacket world.conn with
        | none => none
        | some (conn, none) => some { world with conn := conn, exhausted := true }
        | some (conn, some pkt) =>
            some { world with conn := conn, delivered := world.delivered ++ [pkt] }

/-- A connection of the pool: its buffer is null or as long as it says. -/
def Pooled (conn : SConn) : Prop :=
  ∀ buf, conn.readBuf = some buf → (buf.length : Int) = conn.readBufSz

def streamSystem : System StreamWorld StreamEvent where
  init := fun world => ∃ junk conn, Pooled conn ∧
    world = { conn := resetConn junk conn, exhausted := true, received := [], delivered := [] }
  step := StreamWorld.step

/-- The `while` loop of the read branch: run `inext_packet` until it finds no
packet. -/
def exhaust : Nat → StreamWorld → Option StreamWorld
  | 0, _ => none
  | fuel + 1, world =>
      if world.exhausted then some world
      else (world.step .next).bind (exhaust fuel)

/-! ## What a buffer holds -/

/-- The indices are in order and the bytes between them are `pending`. -/
structure Holding (conn : SConn) (pending : List UInt8) : Prop where
  low : 0 ≤ conn.readBufCurr
  middle : conn.readBufCurr ≤ conn.readBufP
  high : conn.readBufP ≤ conn.readBufSz
  buffer : ∃ buf, conn.readBuf = some buf ∧ (buf.length : Int) = conn.readBufSz ∧
    window buf conn.readBufCurr.toNat (conn.readBufP - conn.readBufCurr).toNat = pending

theorem overwrite_length {buf bytes : List UInt8} {pos : Nat}
    (fits : pos + bytes.length ≤ buf.length) : (overwrite buf pos bytes).length = buf.length := by
  simp only [overwrite, List.length_append, List.length_take, List.length_drop]
  omega

theorem window_length {buf : List UInt8} {pos len : Nat} (fits : pos + len ≤ buf.length) :
    (window buf pos len).length = len := by
  simp only [window, List.length_take, List.length_drop]
  omega

/-- Bytes written behind a window extend it. -/
theorem window_overwrite {buf bytes : List UInt8} {pos last : Nat} (order : pos ≤ last)
    (fits : last ≤ buf.length) :
    window (overwrite buf last bytes) pos (last - pos + bytes.length) =
      window buf pos (last - pos) ++ bytes := by
  have front : (buf.take last).length = last := List.length_take_of_le fits
  have kept : (window buf pos (last - pos)).length = last - pos := by
    apply window_length
    omega
  unfold window overwrite at *
  rw [List.drop_append_of_le_length (by omega), List.drop_take, ← List.append_assoc,
    List.take_append_of_le_length (by rw [List.length_append]; omega)]
  apply List.take_of_length_le
  rw [List.length_append]
  omega

/-- Bytes copied to the start of a buffer are its first ones. -/
theorem window_overwrite_zero (buf bytes : List UInt8) :
    window (overwrite buf 0 bytes) 0 bytes.length = bytes := by
  simp [window, overwrite]

/-- The part of a buffer that is copied when it grows keeps its windows. -/
theorem window_copied {buf fresh : List UInt8} {pos last : Nat} (order : pos ≤ last)
    (fits : last ≤ buf.length) :
    window (overwrite fresh 0 (buf.take last)) pos (last - pos) = window buf pos (last - pos) := by
  have front : (buf.take last).length = last := List.length_take_of_le fits
  unfold window overwrite
  rw [List.take_zero, List.nil_append, List.drop_append_of_le_length (by omega),
    List.take_append_of_le_length (by rw [List.length_drop]; omega), List.drop_take,
    List.take_take, Nat.min_self]

theorem le_sRoundup (n : Int) : n ≤ sRoundup n 1024 := by
  simp only [sRoundup]
  omega

theorem Holding.length {conn : SConn} {pending : List UInt8} (holding : Holding conn pending) :
    (pending.length : Int) = conn.readBufP - conn.readBufCurr := by
  obtain ⟨buf, _, size, held⟩ := holding.buffer
  have low := holding.low
  have middle := holding.middle
  have high := holding.high
  rw [← held, window_length (by omega)]
  omega

theorem holding_resetConn {junk : Nat → UInt8} {conn : SConn} (pooled : Pooled conn) :
    Holding (resetConn junk conn) [] ∧ (resetConn junk conn).readBufCurr = 0 := by
  unfold resetConn
  cases found : conn.readBuf with
  | none =>
      refine ⟨⟨le_refl _, le_refl _, ?_, ?_⟩, rfl⟩
      · simp [defaultReadBufferSz]
      · exact ⟨_, rfl, by simp [uninitialised], by simp [window]⟩
  | some buf =>
      have size := pooled buf found
      refine ⟨⟨le_refl _, le_refl _, ?_, ?_⟩, rfl⟩
      · show (0 : Int) ≤ conn.readBufSz
        omega
      · exact ⟨buf, rfl, size, by simp [window]⟩

/-! ## Reading -/

theorem holding_growBuffer {junk : Nat → UInt8} {conn after : SConn} {buf pending : List UInt8}
    {ndata : Int} (holding : Holding conn pending) (found : conn.readBuf = some buf)
    (positive : 0 < ndata) (grew : growBuffer junk conn buf ndata = some after) :
    Holding after pending ∧ after.readBufCurr = conn.readBufCurr := by
  unfold growBuffer at grew
  split at grew
  next small =>
    dsimp only at grew
    split at grew
    next =>
      cases grew
      obtain ⟨held, present, size, bytes⟩ := holding.buffer
      obtain rfl : held = buf := Option.some.inj (present.symm.trans found)
      have low := holding.low
      have middle := holding.middle
      have high := holding.high
      have room := le_sRoundup ((conn.readBufP + ndata) * 2 + 1)
      have copied : (held.take conn.readBufP.toNat).length = conn.readBufP.toNat := by
        rw [List.length_take]
        omega
      refine ⟨⟨low, middle, ?_, ?_⟩, rfl⟩
      · dsimp only
        omega
      · refine ⟨_, rfl, ?_, ?_⟩
        · rw [overwrite_length]
          · simp only [uninitialised, List.length_map, List.length_range]
            omega
          · simp only [uninitialised, List.length_map, List.length_range]
            omega
        · have sameLength : (conn.readBufP - conn.readBufCurr).toNat =
              conn.readBufP.toNat - conn.readBufCurr.toNat := by omega
          dsimp only
          rw [sameLength] at bytes ⊢
          rw [window_copied (by omega) (by omega)]
          exact bytes
    next => cases grew
  next =>
    cases grew
    exact ⟨holding, rfl⟩

/-- The loop appends what it receives. -/
theorem holding_readLoop {reads : List ReadResult} :
    ∀ {conn after : SConn} {pending : List UInt8}, Holding conn pending →
      readLoop conn reads = some after →
      Holding after (pending ++ receivedBytes reads) ∧ after.readBufCurr = conn.readBufCurr := by
  induction reads with
  | nil =>
      intro conn after pending holding ran
      cases ran
      rw [receivedBytes, List.append_nil]
      exact ⟨holding, rfl⟩
  | cons result rest inductionHypothesis =>
      intro conn after pending holding ran
      cases result with
      | zero =>
          cases ran
          rw [receivedBytes, List.append_nil]
          exact ⟨holding, rfl⟩
      | again =>
          cases ran
          rw [receivedBytes, List.append_nil]
          exact ⟨holding, rfl⟩
      | interrupted => exact inductionHypothesis holding ran
      | failed => cases ran
      | data bytes =>
          obtain ⟨buf, present, size, held⟩ := holding.buffer
          have low := holding.low
          have middle := holding.middle
          have high := holding.high
          rw [readLoop] at ran
          simp only [present] at ran
          split at ran
          next fits =>
            have written : Holding
                { conn with
                  readBuf := some (overwrite buf conn.readBufP.toNat bytes)
                  readBufP := conn.readBufP + bytes.length } (pending ++ bytes) := by
              refine ⟨low, ?_, ?_, ?_⟩
              · dsimp only
                omega
              · dsimp only
                omega
              · refine ⟨_, rfl, ?_, ?_⟩
                · rw [overwrite_length (by omega)]
                  exact size
                · have sameLength : (conn.readBufP + bytes.length - conn.readBufCurr).toNat =
                      conn.readBufP.toNat - conn.readBufCurr.toNat + bytes.length := by omega
                  have oldLength : (conn.readBufP - conn.readBufCurr).toNat =
                      conn.readBufP.toNat - conn.readBufCurr.toNat := by omega
                  dsimp only
                  rw [sameLength, window_overwrite (by omega) (by omega), ← oldLength, held]
            have later := inductionHypothesis written ran
            rw [receivedBytes, ← List.append_assoc]
            exact later
          next => cases ran

theorem holding_ireadConn {conn after : SConn} {chunk : Chunk} {pending : List UInt8}
    (holding : Holding conn pending) (ran : ireadConn conn chunk = some after) :
    Holding after (pending ++ receivedBytes chunk.reads) ∧
      after.readBufCurr = conn.readBufCurr := by
  unfold ireadConn at ran
  split at ran
  next positive =>
    split at ran
    next => cases ran
    next buf found =>
      split at ran
      next => cases ran
      next grown grew =>
        have first := holding_growBuffer holding found positive grew
        have second := holding_readLoop first.1 ran
        exact ⟨second.1, second.2.trans first.2⟩
  next => cases ran

/-- A chunk that is announced in full is read, as long as its size is an `int`
after the growth of the buffer. -/
theorem ireadConn_isSome {conn : SConn} {pending bytes : List UInt8} {junk : Nat → UInt8}
    (holding : Holding conn pending) (nonempty : bytes ≠ [])
    (fits : (conn.readBufP + bytes.length) * 2 + 1 + 1024 < intLimit) :
    (ireadConn conn { ndata := bytes.length, reads := [.data bytes], junk := junk }).isSome =
      true := by
  obtain ⟨buf, present, size, _⟩ := holding.buffer
  have positive : 0 < (bytes.length : Int) := by
    have := List.length_pos_of_ne_nil nonempty
    omega
  have room := le_sRoundup ((conn.readBufP + bytes.length) * 2 + 1)
  have low := holding.low
  have middle := holding.middle
  simp only [ireadConn, if_pos positive, present, growBuffer]
  by_cases small : conn.readBufSz - conn.readBufP < bytes.length
  · have enough : (bytes.length : Int) ≤
        sRoundup ((conn.readBufP + bytes.length) * 2 + 1) 1024 - conn.readBufP := by omega
    simp only [if_pos small, if_pos fits, readLoop]
    rw [if_pos ⟨nonempty, enough⟩]
    rfl
  · have enough : (bytes.length : Int) ≤ conn.readBufSz - conn.readBufP := by omega
    simp only [if_neg small, readLoop, present]
    rw [if_pos ⟨nonempty, enough⟩]
    rfl

/-! ## Cutting out packets -/

/-- A packet that is cut out leaves the bytes behind it. -/
theorem holding_inextPacket {conn : SConn} {pending : List UInt8} {pkt : SPacket}
    (holding : Holding conn pending) (found : sPacketCreateFrom pending = some (some pkt)) :
    ∃ after, inextPacket conn = some (after, some pkt) ∧
      Holding after (pending.drop pkt.size.toNat) := by
  obtain ⟨_, _, _, _, _, _, _, positive, enough, _, _⟩ := sPacketCreateFrom_some found
  have length := holding.length
  obtain ⟨buf, present, size, held⟩ := holding.buffer
  have low := holding.low
  have middle := holding.middle
  have high := holding.high
  refine ⟨{ conn with readBufCurr := conn.readBufCurr + pkt.size }, ?_, ?_⟩
  · simp only [inextPacket, present, held, found]
  · refine ⟨?_, ?_, high, buf, present, size, ?_⟩
    · dsimp only
      omega
    · dsimp only
      omega
    · have start : (conn.readBufCurr + pkt.size).toNat =
          conn.readBufCurr.toNat + pkt.size.toNat := by omega
      have remaining : (conn.readBufP - (conn.readBufCurr + pkt.size)).toNat =
          (conn.readBufP - conn.readBufCurr).toNat - pkt.size.toNat := by omega
      dsimp only
      rw [start, remaining, ← held, window, window, List.drop_take, List.drop_drop]

theorem holding_inextPacket_failed {conn : SConn} {pending : List UInt8}
    (holding : Holding conn pending) (failed : sPacketCreateFrom pending = none) :
    inextPacket conn = none := by
  obtain ⟨buf, present, _, held⟩ := holding.buffer
  simp only [inextPacket, present, held, failed]

theorem holding_inextPacket_some {conn : SConn} {bytes rest : List UInt8}
    (holding : Holding conn (bytes ++ rest)) (whole : WholePacket bytes) :
    ∃ after, inextPacket conn = some (after, some (packetOf bytes)) ∧ Holding after rest := by
  obtain ⟨after, found, holdingAfter⟩ :=
    holding_inextPacket holding (sPacketCreateFrom_whole whole rest)
  have behind : (bytes ++ rest).drop (packetOf bytes).size.toNat = rest := List.drop_left
  rw [behind] at holdingAfter
  exact ⟨after, found, holdingAfter⟩

theorem holding_inextPacket_none {conn : SConn} {pending : List UInt8}
    (holding : Holding conn pending) (incomplete : sPacketCreateFrom pending = some none) :
    ∃ after, inextPacket conn = some (after, none) ∧ Holding after pending ∧
      after.readBufCurr = 0 := by
  have length := holding.length
  obtain ⟨buf, present, size, held⟩ := holding.buffer
  have low := holding.low
  have middle := holding.middle
  have high := holding.high
  simp only [inextPacket, present, held, incomplete]
  by_cases moved : conn.readBufCurr > 0
  · rw [if_pos moved]
    refine ⟨_, rfl, ⟨le_refl _, ?_, ?_, ?_⟩, rfl⟩
    · dsimp only
      omega
    · dsimp only
      omega
    · refine ⟨_, rfl, ?_, ?_⟩
      · rw [overwrite_length (by omega)]
        exact size
      · have all : (conn.readBufP - conn.readBufCurr - 0).toNat = pending.length := by omega
        dsimp only
        rw [all]
        exact window_overwrite_zero buf pending
  · rw [if_neg moved]
    exact ⟨conn, rfl, holding, by omega⟩

end SimpleDfs.Net
