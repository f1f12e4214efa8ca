import SimpleDfs.Net.Stream

/-!
Contract: packets come out of a stream as they went in, however it is cut.

Owns: the cut of a received prefix into whole packets and a rest, the invariant
of a connection that reads a stream of packets, and its consequences.

Does not own: streams that carry anything but whole packets.
-/

set_option autoImplicit false

namespace SimpleDfs.Net

open SimpleDfs.Library

/-! ## Cutting a prefix -/

/-- The bytes are too few for the next packet. -/
def Short (tail : List UInt8) : List (List UInt8) → Prop
  | [] => tail = []
  | next :: _ => ∃ back, next = tail ++ back ∧ back ≠ []

/-- The bytes are the packets `done` and a rest too short for the next one. -/
structure CutInto (packets : List (List UInt8)) (bytes : List UInt8)
    (done todo : List (List UInt8)) (tail : List UInt8) : Prop where
  packets : packets = done ++ todo
  bytes : bytes = done.flatten ++ tail
  short : Short tail todo

theorem exists_cutInto {packets : List (List UInt8)} :
    ∀ {bytes : List UInt8}, bytes <+: packets.flatten →
      ∃ done todo tail, CutInto packets bytes done todo tail := by
  induction packets with
  | nil =>
      intro bytes inside
      have empty := List.prefix_nil.mp inside
      exact ⟨[], [], [], rfl, empty, rfl⟩
  | cons next rest inductionHypothesis =>
      intro bytes inside
      rw [List.flatten_cons] at inside
      by_cases complete : next.length ≤ bytes.length
      · obtain ⟨behind, rfl⟩ := List.prefix_of_prefix_length_le
          (List.prefix_append next rest.flatten) inside complete
        rw [List.prefix_append_right_inj] at inside
        obtain ⟨done, todo, tail, cut⟩ := inductionHypothesis inside
        refine ⟨next :: done, todo, tail, ?_, ?_, cut.short⟩
        · rw [cut.packets]
          rfl
        · rw [cut.bytes, List.flatten_cons, List.append_assoc]
      · have early : bytes <+: next := List.prefix_of_prefix_length_le inside
          (List.prefix_append next rest.flatten) (by omega)
        obtain ⟨back, rfl⟩ := early
        refine ⟨[], (bytes ++ back) :: rest, bytes, rfl, rfl, back, rfl, ?_⟩
        rintro rfl
        simp at complete

/-- A rest too short for the next packet is no packet. -/
theorem Short.incomplete {tail : List UInt8} {todo : List (List UInt8)}
    (whole : ∀ bytes ∈ todo, WholePacket bytes) (short : Short tail todo) :
    sPacketCreateFrom tail = some none := by
  cases todo with
  | nil =>
      rw [short]
      rfl
  | cons next rest =>
      obtain ⟨back, rfl, proper⟩ := short
      exact sPacketCreateFrom_partial (whole _ List.mem_cons_self) proper

/-! ## The invariant -/

/-- The packets in `handed` have been delivered, the bytes received behind them
are in the buffer, and after an unsuccessful `inext_packet` they are too few for
the next packet and start the buffer. -/
structure Reading (world : StreamWorld) (handed later : List (List UInt8))
    (pending : List UInt8) : Prop where
  holding : Holding world.conn pending
  received : world.received = handed.flatten ++ pending
  delivered : world.delivered = handed.map packetOf
  exhausted : world.exhausted = true → Short pending later ∧ world.conn.readBufCurr = 0

theorem reading_next {world : StreamWorld} {handed later : List (List UInt8)}
    {pending : List UInt8} (whole : ∀ bytes ∈ later, WholePacket bytes)
    (inside : pending <+: later.flatten) (reading : Reading world handed later pending)
    (open_ : world.exhausted = false) :
    ∃ after, world.step .next = some after ∧ after.received = world.received ∧
      ((after.exhausted = true ∧ Reading after handed later pending) ∨
        ∃ next rest behind, later = next :: rest ∧ behind.length < pending.length ∧
          after.exhausted = false ∧ Reading after (handed ++ [next]) rest behind) := by
  obtain ⟨done, todo, tail, cut⟩ := exists_cutInto inside
  cases done with
  | nil =>
      -- no packet is complete
      have same : pending = tail := by simpa using cut.bytes
      have rest : later = todo := by simpa using cut.packets
      have short : Short pending later := by
        rw [same, rest]
        exact cut.short
      obtain ⟨conn, nothing, holding, start⟩ :=
        holding_inextPacket_none reading.holding (short.incomplete whole)
      refine ⟨{ world with conn := conn, exhausted := true }, ?_, rfl, Or.inl ⟨rfl, ?_⟩⟩
      · simp [StreamWorld.step, open_, nothing]
      · exact ⟨holding, reading.received, reading.delivered, fun _ => ⟨short, start⟩⟩
  | cons next done =>
      have first : pending = next ++ (done.flatten ++ tail) := by
        rw [cut.bytes, List.flatten_cons, List.append_assoc]
      have listed : later = next :: (done ++ todo) := cut.packets
      have nextWhole := whole next (listed ▸ List.mem_cons_self)
      have holdingFirst := reading.holding
      rw [first] at holdingFirst
      obtain ⟨conn, found, holding⟩ := holding_inextPacket_some holdingFirst nextWhole
      refine ⟨{ world with conn := conn, delivered := world.delivered ++ [packetOf next] }, ?_, rfl,
        Or.inr ⟨next, done ++ todo, done.flatten ++ tail, listed, ?_, open_, ?_⟩⟩
      · simp [StreamWorld.step, open_, found]
      · have lower := nextWhole.lower
        simp only [sPktHeadSize] at lower
        simp only [first, List.length_append]
        omega
      · refine ⟨holding, ?_, ?_, ?_⟩
        · show world.received = _
          rw [reading.received, first]
          simp
        · show world.delivered ++ [packetOf next] = _
          rw [reading.delivered, List.map_append]
          rfl
        · intro done
          exact absurd (open_.symm.trans done) Bool.false_ne_true

/-- The state of a connection that has received a prefix of the packets. -/
def ReadsPackets (packets : List (List UInt8)) (world : StreamWorld) : Prop :=
  world.received <+: packets.flatten →
    ∃ handed later pending, packets = handed ++ later ∧ Reading world handed later pending

/-- What is left of the packets starts with what is pending. -/
theorem Reading.inside {world : StreamWorld} {handed later : List (List UInt8)}
    {pending : List UInt8} (reading : Reading world handed later pending)
    (cut : world.received <+: (handed ++ later).flatten) : pending <+: later.flatten := by
  rw [reading.received, List.flatten_append, List.prefix_append_right_inj] at cut
  exact cut

theorem readsPackets_step {packets : List (List UInt8)}
    (whole : ∀ bytes ∈ packets, WholePacket bytes) {world after : StreamWorld}
    {event : StreamEvent} (reads : ReadsPackets packets world)
    (stepped : world.step event = some after) : ReadsPackets packets after := by
  intro cut
  cases event with
  | read chunk =>
      rw [StreamWorld.step] at stepped
      split at stepped
      next exhausted =>
        split at stepped
        next => cases stepped
        next conn ran =>
          cases stepped
          have before : world.received <+: packets.flatten :=
            (List.prefix_append _ _).trans cut
          obtain ⟨handed, later, pending, split, reading⟩ := reads before
          refine ⟨handed, later, pending ++ receivedBytes chunk.reads, split,
            (holding_ireadConn reading.holding ran).1, ?_, reading.delivered, ?_⟩
          · show world.received ++ _ = _
            rw [reading.received, List.append_assoc]
          · intro done
            cases done
      next => cases stepped
  | next =>
      have open_ : world.exhausted = false := by
        by_contra done
        simp [StreamWorld.step, done] at stepped
      -- the step received nothing, whatever it delivered
      have same : after.received = world.received := by
        simp only [StreamWorld.step, open_, Bool.false_eq_true, if_false] at stepped
        split at stepped
        next => cases stepped
        next =>
          cases stepped
          rfl
        next =>
          cases stepped
          rfl
      rw [same] at cut
      obtain ⟨handed, later, pending, rfl, reading⟩ := reads cut
      have laterWhole : ∀ bytes ∈ later, WholePacket bytes := fun bytes member =>
        whole bytes (List.mem_append_right _ member)
      obtain ⟨reached, sameStep, _, outcome⟩ :=
        reading_next laterWhole (reading.inside cut) reading open_
      obtain rfl : reached = after := Option.some.inj (sameStep.symm.trans stepped)
      rcases outcome with ⟨_, unchanged⟩ | ⟨next, rest, behind, rfl, _, _, moved⟩
      · exact ⟨handed, later, pending, rfl, unchanged⟩
      · exact ⟨handed ++ [next], rest, behind, by simp, moved⟩

theorem readsPackets_reachable {packets : List (List UInt8)}
    (whole : ∀ bytes ∈ packets, WholePacket bytes) {world : StreamWorld}
    (reached : streamSystem.Reachable world) : ReadsPackets packets world := by
  refine reached.invariant (ReadsPackets packets) ?_ fun _ _ _ _ reads _ stepped =>
    readsPackets_step whole reads stepped
  rintro start ⟨junk, conn, pooled, rfl⟩ _
  obtain ⟨holding, atStart⟩ := @holding_resetConn junk conn pooled
  refine ⟨[], packets, [], rfl, holding, rfl, rfl, fun _ => ⟨?_, atStart⟩⟩
  cases packets with
  | nil => rfl
  | cons next rest =>
      refine ⟨next, rfl, ?_⟩
      have lower := (whole next List.mem_cons_self).lower
      rintro rfl
      simp [sPktHeadSize] at lower

/-! ## Reassembly -/

/-- The bytes between the two indices of the read buffer. -/
def undelivered (conn : SConn) : List UInt8 :=
  match conn.readBuf with
  | none => []
  | some buf => window buf conn.readBufCurr.toNat (conn.readBufP - conn.readBufCurr).toNat

theorem Holding.undelivered {conn : SConn} {pending : List UInt8}
    (holding : Holding conn pending) : Net.undelivered conn = pending := by
  obtain ⟨buf, present, _, held⟩ := holding.buffer
  simp only [Net.undelivered, present, held]

/-- Where a connection stands that has received a prefix of the packets: the
packets in `done` have arrived whole, `tail` is what has arrived of the next. -/
structure Reassembled (world : StreamWorld) (packets done todo : List (List UInt8))
    (tail : List UInt8) : Prop where
  indices : 0 ≤ world.conn.readBufCurr ∧ world.conn.readBufCurr ≤ world.conn.readBufP ∧
    world.conn.readBufP ≤ world.conn.readBufSz
  arrived : CutInto packets world.received done todo tail
  inOrder : world.delivered <+: done.map packetOf
  atOnce : world.exhausted = true →
    world.delivered = done.map packetOf ∧ undelivered world.conn = tail ∧
      world.conn.readBufCurr = 0

/-- `exhaust` with enough fuel ends, and receives nothing. -/
theorem exhaust_total (fuel : Nat) :
    ∀ {world : StreamWorld} {handed later : List (List UInt8)} {pending : List UInt8},
      (∀ bytes ∈ later, WholePacket bytes) → pending <+: later.flatten →
      Reading world handed later pending → pending.length + 1 < fuel →
      ∃ after, exhaust fuel world = some after ∧ after.exhausted = true ∧
        after.received = world.received ∧
        streamSystem.Steps (fun _ _ => True) world after := by
  induction fuel with
  | zero =>
      intro world handed later pending _ _ _ enough
      omega
  | succ fuel inductionHypothesis =>
      intro world handed later pending whole inside reading enough
      cases state : world.exhausted with
      | true =>
          refine ⟨world, ?_, state, rfl, Relation.ReflTransGen.refl⟩
          simp [exhaust, state]
      | false =>
          obtain ⟨next, stepped, sameBytes, outcome⟩ := reading_next whole inside reading state
          have unfolded : exhaust (fuel + 1) world = exhaust fuel next := by
            simp [exhaust, state, stepped]
          have first : streamSystem.Next (fun _ _ => True) world next := ⟨.next, trivial, stepped⟩
          rcases outcome with ⟨done, _⟩ | ⟨packet, rest, behind, rfl, shorter, _, moved⟩
          · refine ⟨next, ?_, done, sameBytes, Relation.ReflTransGen.single first⟩
            obtain ⟨previous, rfl⟩ := Nat.exists_eq_succ_of_ne_zero (show fuel ≠ 0 by omega)
            rw [unfolded]
            simp [exhaust, done]
          · have insideRest : behind <+: rest.flatten := by
              have bytes := moved.received
              rw [sameBytes, reading.received, List.flatten_append, List.append_assoc,
                List.append_cancel_left_eq] at bytes
              rw [bytes, List.flatten_cons] at inside
              simpa using inside
            obtain ⟨after, ran, done, sameAfter, steps⟩ := inductionHypothesis
              (fun bytes member => whole bytes (List.mem_cons_of_mem _ member)) insideRest moved
              (by omega)
            exact ⟨after, unfolded.trans ran, done, sameAfter.trans sameBytes,
              Relation.ReflTransGen.head first steps⟩

/-- **Reassembly does not depend on the chunks.**  In every state in which a
prefix of the packets has been received, in chunks of any kind, the indices are
in order and the packets that have arrived whole are delivered, byte for byte
and in order; all of them once `inext_packet` finds no more, with the rest of
the bytes at the start of the buffer.  Running it until then ends, and then a
further chunk can be read. -/
theorem stream_reassembled {packets : List (List UInt8)}
    (whole : ∀ bytes ∈ packets, WholePacket bytes) {world : StreamWorld}
    (reached : streamSystem.Reachable world) (cut : world.received <+: packets.flatten) :
    (∃ done todo tail, Reassembled world packets done todo tail) ∧
      (∃ fuel after, exhaust fuel world = some after ∧ after.exhausted = true ∧
        after.received = world.received ∧ streamSystem.Reachable after) ∧
      (world.exhausted = true → ∀ bytes junk, bytes ≠ [] →
        ((undelivered world.conn).length + bytes.length : Int) * 2 + 1 + 1024 < intLimit →
        (world.step (.read { ndata := bytes.length, reads := [.data bytes], junk := junk })).isSome =
          true) := by
  obtain ⟨handed, later, pending, rfl, reading⟩ := readsPackets_reachable whole reached cut
  have laterWhole : ∀ bytes ∈ later, WholePacket bytes := fun bytes member =>
    whole bytes (List.mem_append_right _ member)
  have inside := reading.inside cut
  have held := reading.holding.undelivered
  refine ⟨?_, ?_, ?_⟩
  · obtain ⟨done, todo, tail, partition⟩ := exists_cutInto inside
    refine ⟨handed ++ done, todo, tail, ?_, ?_, ?_, ?_⟩
    · exact ⟨reading.holding.low, reading.holding.middle, reading.holding.high⟩
    · refine ⟨?_, ?_, partition.short⟩
      · rw [partition.packets, List.append_assoc]
      · rw [reading.received, partition.bytes, List.flatten_append, List.append_assoc]
    · rw [reading.delivered, List.map_append]
      exact List.prefix_append _ _
    · intro exhausted
      obtain ⟨short, start⟩ := reading.exhausted exhausted
      -- a rest too short for a packet has no packet in it
      have nothing : done = [] := by
        cases done with
        | nil => rfl
        | cons next others =>
            have listed : later = next :: (others ++ todo) := partition.packets
            rw [listed] at short
            obtain ⟨back, same, proper⟩ := short
            have bytes := congrArg List.length partition.bytes
            have sizes := congrArg List.length same
            have positive := List.length_pos_of_ne_nil proper
            simp only [List.flatten_cons, List.length_append] at bytes sizes
            omega
      subst nothing
      refine ⟨?_, ?_, start⟩
      · rw [reading.delivered, List.append_nil]
      · rw [held, partition.bytes]
        rfl
  · obtain ⟨after, ran, done, same, steps⟩ := exhaust_total (pending.length + 2) laterWhole inside
      reading (by omega)
    exact ⟨_, after, ran, done, same, reached.steps steps⟩
  · intro exhausted bytes junk nonempty room
    have start := (reading.exhausted exhausted).2
    have length := reading.holding.length
    rw [held] at room
    have read := @ireadConn_isSome world.conn pending bytes junk reading.holding nonempty (by omega)
    obtain ⟨conn, ran⟩ := Option.isSome_iff_exists.mp read
    simp [StreamWorld.step, exhausted, ran]

/-- A packet without a body. -/
def bareHead : List UInt8 :=
  [12, 0, 0, 0, 7, 0, 0, 0, 1, 0, 0, 0]

theorem wholePacket_bareHead : WholePacket bareHead where
  size := ⟨12, 0, 0, 0, [7, 0, 0, 0, 1, 0, 0, 0], rfl, by decide⟩
  lower := by decide
  upper := by decide

/-- A new connection. -/
def freshStream : StreamWorld where
  conn := resetConn (fun _ => 0) allocatedConn
  exhausted := true
  received := []
  delivered := []

/-- A new connection that has read three bytes of the packet. -/
def threeBytesRead : StreamWorld :=
  streamSystem.outcome freshStream
    [.read { ndata := 3, reads := [.data [12, 0, 0], .again], junk := fun _ => 0 }, .next]

theorem stream_reassembled_three_bytes :
    threeBytesRead.received = [12, 0, 0] ∧
      ∃ done todo tail, Reassembled threeBytesRead [bareHead, bareHead] done todo tail := by
  have initial : streamSystem.init freshStream :=
    ⟨fun _ => 0, allocatedConn, (fun _ absent => nomatch absent), rfl⟩
  have reached : streamSystem.Reachable threeBytesRead := System.reachable_outcome initial _
  have received : threeBytesRead.received = [12, 0, 0] := by decide +kernel
  have whole : ∀ bytes ∈ [bareHead, bareHead], WholePacket bytes := by
    intro bytes member
    have same : bytes = bareHead := by simpa using member
    rw [same]
    exact wholePacket_bareHead
  refine ⟨received, (stream_reassembled whole reached ?_).1⟩
  rw [received]
  exact ⟨[0, 7, 0, 0, 0, 1, 0, 0, 0] ++ bareHead, rfl⟩

end SimpleDfs.Net
