import SimpleDfs.Net.Packet

/-!
Contract: the fields of a packet (`net/s_packet.c`, `include/s_ipc.h`).

Owns: reading and writing numbers and strings at the position of a packet, the
function code and the request id in its head, and what a packet holds while it
is filled and while it is read.

Does not own: which fields a packet has.

A failed read or write leaves the position, but for a string, whose length has
been read by then.
-/

set_option autoImplicit false

namespace SimpleDfs.Net

open SimpleDfs.Library

/-- `S_PKT_STRING_MAX_LEN`. -/
def sPktStringMaxLen : Nat := 2 ^ 15

/-- `S_PKT_TYPE_RPC_BACK_`. -/
def sPktTypeRpcBack : BitVec 32 := 1

/-- `S_PKT_TYPE_IDENTIFY`. -/
def sPktTypeIdentify : BitVec 32 := 2

/-- `S_PKT_TYPE_IDENTIFY_BACK`. -/
def sPktTypeIdentifyBack : BitVec 32 := 3

/-- `S_PKT_TYPE_PING`. -/
def sPktTypePing : BitVec 32 := 4

/-- `S_PKT_TYPE_PONG`. -/
def sPktTypePong : BitVec 32 := 5

/-- `S_PKT_TYPE_CREATE_METADATA`. -/
def sPktTypeCreateMetadata : BitVec 32 := 9

/-- `S_PKT_TYPE_MAX_`. -/
def sPktTypeMax : Nat := 28

/-! ## Reading -/

/-- Read bytes at the position. -/
def SPacket.read (pkt : SPacket) (count : Nat) : Option (List UInt8 × SPacket) :=
  if pkt.pos + count > pkt.size then none
  else some ((pkt.data.drop pkt.pos.toNat).take count, { pkt with pos := pkt.pos + count })

/-- `s_packet_read_uint`. -/
def sPacketReadUint (pkt : SPacket) : Option (BitVec 32 × SPacket) :=
  (pkt.read 4).map fun (bytes, pkt) => (wordOf bytes, pkt)

/-- `s_packet_read_int`. -/
def sPacketReadInt (pkt : SPacket) : Option (Int × SPacket) :=
  (sPacketReadUint pkt).map fun (word, pkt) => (word.toInt, pkt)

/-- `s_packet_read_ushort`. -/
def sPacketReadUshort (pkt : SPacket) : Option (BitVec 16 × SPacket) :=
  (pkt.read 2).map fun (bytes, pkt) => (shortOf bytes, pkt)

/-- `s_packet_read_short`. -/
def sPacketReadShort (pkt : SPacket) : Option (Int × SPacket) :=
  (sPacketReadUshort pkt).map fun (short, pkt) => (short.toInt, pkt)

/-- `s_packet_read_string`. -/
def sPacketReadString (pkt : SPacket) : Option (List UInt8 × SPacket) :=
  match sPacketReadShort pkt with
  | none => none
  | some (len, pkt) => if len < 0 then none else pkt.read len.toNat

/-- `s_packet_seek`. -/
def sPacketSeek (pkt : SPacket) (offset : Int) : SPacket :=
  if offset < 0 ∨ offset > pkt.size - sPktHeadSize then pkt
  else { pkt with pos := offset + sPktHeadSize }

/-- A loop that reads `count` elements of an array and leaves at the first that
is missing: the elements stored, and the packet if none was. -/
def readMany {α : Type} (read : SPacket → Option (α × SPacket)) :
    Nat → SPacket → List α × Option SPacket
  | 0, pkt => ([], some pkt)
  | count + 1, pkt =>
      match read pkt with
      | none => ([], none)
      | some (element, pkt) =>
          let (rest, left) := readMany read count pkt
          (element :: rest, left)

/-- A loop `while(s_packet_read_string(..) >= 0)`, at most `turns` turns of it: it
ends at the first string that is missing.  A turn that fails leaves it with what
has been read by then. -/
def readWhileString {α : Type} (turn : List UInt8 → SPacket → List α × Option SPacket) :
    Nat → SPacket → List α × Option SPacket
  | 0, pkt => ([], some pkt)
  | turns + 1, pkt =>
      match sPacketReadString pkt with
      | none => ([], some pkt)
      | some (text, pkt) =>
          match turn text pkt with
          | (elements, none) => (elements, none)
          | (elements, some pkt) =>
              let (rest, left) := readWhileString turn turns pkt
              (elements ++ rest, left)

/-! ## Writing -/

/-- Write bytes at the position. -/
def SPacket.write (pkt : SPacket) (bytes : List UInt8) : Option SPacket :=
  if pkt.pos + bytes.length > pkt.size then none
  else
    some { pkt with
      data := Library.overwrite pkt.data pkt.pos.toNat bytes
      pos := pkt.pos + bytes.length }

/-- `s_packet_write_uint`, also `s_packet_write_int`. -/
def sPacketWriteUint (pkt : SPacket) (word : BitVec 32) : Option SPacket :=
  pkt.write (wordBytes word)

/-- `s_packet_write_ushort`, also `s_packet_write_short`. -/
def sPacketWriteUshort (pkt : SPacket) (short : BitVec 16) : Option SPacket :=
  pkt.write (shortBytes short)

/-- `s_packet_write_string`. -/
def sPacketWriteString (pkt : SPacket) (string : List UInt8) : Option SPacket :=
  if string.length ≥ sPktStringMaxLen then none
  else if pkt.pos + 2 + string.length > pkt.size then none
  else
    match sPacketWriteUshort pkt (BitVec.ofNat 16 string.length) with
    | none => none
    | some pkt =>
        some { pkt with
          data := Library.overwrite pkt.data pkt.pos.toNat string
          pos := pkt.pos + string.length }

/-! ## The head -/

/-- Write a word of the head, if there is one. -/
def SPacket.setHead (pkt : SPacket) (pos : Nat) (word : BitVec 32) : SPacket :=
  if pkt.size < sPktHeadSize then pkt
  else { pkt with data := Library.overwrite pkt.data pos (wordBytes word) }

/-- `s_packet_set_fun`. -/
def sPacketSetFun (pkt : SPacket) (code : BitVec 32) : SPacket :=
  pkt.setHead 4 code

/-- `s_packet_set_req`. -/
def sPacketSetReq (pkt : SPacket) (req : BitVec 32) : SPacket :=
  pkt.setHead 8 req

/-- Read a word of the head; a packet without one has zero there. -/
def SPacket.getHead (pkt : SPacket) (pos : Nat) : BitVec 32 :=
  if pkt.size < sPktHeadSize then 0 else wordOf (pkt.data.drop pos)

/-- `s_packet_get_fun`. -/
def sPacketGetFun (pkt : SPacket) : BitVec 32 :=
  pkt.getHead 4

/-- `s_packet_get_req`. -/
def sPacketGetReq (pkt : SPacket) : BitVec 32 :=
  pkt.getHead 8

/-- `s_packet_easy`; `none` is the null packet, whose function code
`s_packet_set_fun` cannot set. -/
def sPacketEasy (code : BitVec 32) (size : Int) (memory : List UInt8) : Option SPacket :=
  (sPacketCreate size memory).map fun pkt => sPacketSetFun pkt code

/-- The memory `iget_free_packet` returns for a body of the given size. -/
def packetMemory (junk : Nat → UInt8) (size : Int) : List UInt8 :=
  (List.range (12 + 2 ^ max 4 (Nat.clog 2 size.toNat))).map junk

/-! ## A packet that is filled -/

/-- A packet with a head, with `body` written and `room` bytes to go. -/
structure Filled (pkt : SPacket) (head body : List UInt8) (room : Nat) : Prop where
  headSize : head.length = 12
  total : pkt.size = (12 + body.length + room : Nat)
  position : pkt.pos = (12 + body.length : Nat)
  contents : ∃ rest, pkt.data = head ++ body ++ rest ∧ room ≤ rest.length

theorem Filled.write {pkt : SPacket} {head body : List UInt8} {room : Nat}
    (filled : Filled pkt head body room) (bytes : List UInt8) (fits : bytes.length ≤ room) :
    ∃ after, pkt.write bytes = some after ∧
      Filled after head (body ++ bytes) (room - bytes.length) := by
  obtain ⟨rest, data, enough⟩ := filled.contents
  have inside : ¬ pkt.pos + bytes.length > pkt.size := by
    rw [filled.position, filled.total]
    omega
  refine ⟨{ pkt with
      data := Library.overwrite pkt.data pkt.pos.toNat bytes
      pos := pkt.pos + bytes.length }, if_neg inside, filled.headSize, ?_, ?_, ?_⟩
  · dsimp only
    rw [filled.total, List.length_append]
    omega
  · dsimp only
    rw [filled.position, List.length_append]
    omega
  · refine ⟨rest.drop bytes.length, ?_, ?_⟩
    · have split : rest = rest.take bytes.length ++ rest.drop bytes.length :=
        (List.take_append_drop _ _).symm
      have start : pkt.pos.toNat = (head ++ body).length := by
        rw [filled.position, List.length_append, filled.headSize]
        rfl
      dsimp only
      rw [start, data, split, overwrite_middle _ _ _ _ (by rw [List.length_take]; omega), ← split,
        List.append_assoc, List.append_assoc, List.append_assoc]
    · rw [List.length_drop]
      omega

/-- A string that is short enough and fits is written with its length. -/
theorem Filled.writeString {pkt : SPacket} {head body : List UInt8} {room : Nat}
    (filled : Filled pkt head body room) {string : List UInt8}
    (short : string.length < sPktStringMaxLen) (fits : 2 + string.length ≤ room) :
    ∃ after, sPacketWriteString pkt string = some after ∧
      Filled after head (body ++ (shortBytes (BitVec.ofNat 16 string.length) ++ string))
        (room - (2 + string.length)) := by
  have inside : ¬ pkt.pos + 2 + string.length > pkt.size := by
    rw [filled.position, filled.total]
    omega
  obtain ⟨counted, wrote, filledCount⟩ := filled.write
    (shortBytes (BitVec.ofNat 16 string.length)) (by rw [shortBytes_length]; omega)
  rw [shortBytes_length] at filledCount
  obtain ⟨after, wroteString, filledString⟩ := filledCount.write string (by omega)
  have stored : after = { counted with
      data := Library.overwrite counted.data counted.pos.toNat string
      pos := counted.pos + string.length } := by
    unfold SPacket.write at wroteString
    split at wroteString
    · cases wroteString
    · exact (Option.some.inj wroteString).symm
  refine ⟨after, ?_, ?_⟩
  · unfold sPacketWriteString
    rw [if_neg (not_le_of_gt short), if_neg inside]
    unfold sPacketWriteUshort
    rw [wrote]
    exact congrArg some stored.symm
  · rw [← List.append_assoc]
    have left : room - (2 + string.length) = room - 2 - string.length := by omega
    rw [left]
    exact filledString

/-- Writing to the head leaves the body. -/
theorem Filled.setHead {pkt : SPacket} {first old last body : List UInt8} {room : Nat}
    (filled : Filled pkt (first ++ (old ++ last)) body room) (four : old.length = 4)
    (word : BitVec 32) :
    Filled (pkt.setHead first.length word) (first ++ (wordBytes word ++ last)) body room := by
  have hasHead : ¬ pkt.size < sPktHeadSize := by
    rw [filled.total]
    unfold sPktHeadSize
    omega
  have length := filled.headSize
  simp only [List.length_append] at length
  obtain ⟨rest, data, enough⟩ := filled.contents
  unfold SPacket.setHead
  rw [if_neg hasHead]
  refine ⟨?_, filled.total, filled.position, rest, ?_, enough⟩
  · simp only [List.length_append, wordBytes_length]
    omega
  · dsimp only
    have grouped : pkt.data = first ++ (old ++ (last ++ (body ++ rest))) := by
      rw [data]
      simp only [List.append_assoc]
    rw [grouped, overwrite_middle _ _ _ _ (by rw [four, wordBytes_length])]
    simp only [List.append_assoc]

/-- A fresh packet: its size is written, the rest of its head and its body are
whatever the memory holds. -/
theorem filled_sPacketCreate (size : Nat) (junk : Nat → UInt8) (small : (size : Int) ≤ sPktMaxSz) :
    ∃ pkt code req, sPacketCreate size (packetMemory junk size) = some pkt ∧
      code.length = 4 ∧ req.length = 4 ∧
      Filled pkt (wordBytes (BitVec.ofNat 32 (size + 12)) ++ (code ++ req)) [] size := by
  have enough : size ≤ 2 ^ max 4 (Nat.clog 2 size) :=
    (Nat.le_pow_clog Nat.one_lt_two size).trans
      (Nat.pow_le_pow_right (by omega) (le_max_right _ _))
  have long : (packetMemory junk size).length = 12 + 2 ^ max 4 (Nat.clog 2 size) := by
    unfold packetMemory
    rw [List.length_map, List.length_range, Int.toNat_natCast]
  generalize packetMemory junk size = memory at long ⊢
  have written : Library.overwrite memory 0 (wordBytes (BitVec.ofNat 32 (size + 12))) =
      wordBytes (BitVec.ofNat 32 (size + 12)) ++ ((memory.drop 4).take 4 ++
        (((memory.drop 4).drop 4).take 4 ++ ((memory.drop 4).drop 4).drop 4)) := by
    unfold Library.overwrite
    rw [List.take_append_drop, List.take_append_drop]
    rfl
  refine ⟨_, (memory.drop 4).take 4, ((memory.drop 4).drop 4).take 4, if_neg (by omega), ?_, ?_, ?_⟩
  · rw [List.length_take, List.length_drop]
    omega
  · rw [List.length_take, List.length_drop, List.length_drop]
    omega
  · refine ⟨?_, ?_, rfl, ((memory.drop 4).drop 4).drop 4, ?_, ?_⟩
    · simp only [List.length_append, List.length_take, List.length_drop, wordBytes_length]
      omega
    · show (size : Int) + sPktHeadSize = _
      unfold sPktHeadSize
      rw [List.length_nil]
      omega
    · have same : BitVec.ofInt 32 ((size : Int) + sPktHeadSize) = BitVec.ofNat 32 (size + 12) :=
        BitVec.ofInt_natCast 32 (size + 12)
      dsimp only
      rw [same, written]
      simp only [List.append_assoc, List.append_nil]
    · simp only [List.length_drop]
      omega

/-- The bytes of a packet that is filled to the end. -/
theorem Filled.bytes {pkt : SPacket} {head body : List UInt8} (filled : Filled pkt head body 0) :
    pkt.data.take pkt.size.toNat = head ++ body := by
  obtain ⟨rest, data, _⟩ := filled.contents
  have size : pkt.size.toNat = (head ++ body).length := by
    rw [filled.total, List.length_append, filled.headSize, Int.toNat_natCast]
    rfl
  rw [size, data]
  exact List.take_left

/-! ## A packet that is read -/

/-- What is left to read in a packet. -/
structure Unread (pkt : SPacket) (rest : List UInt8) : Prop where
  contents : pkt.data.drop pkt.pos.toNat = rest
  total : pkt.size = pkt.pos + rest.length
  positive : 0 ≤ pkt.pos

theorem unread_packetOf {head : List UInt8} (body : List UInt8) (twelve : head.length = 12) :
    Unread (packetOf (head ++ body)) body := by
  constructor
  · show (head ++ body).drop 12 = body
    rw [← twelve]
    exact List.drop_left
  · show ((head ++ body).length : Int) = 12 + body.length
    rw [List.length_append, twelve]
    omega
  · exact (by decide : (0 : Int) ≤ 12)

theorem Unread.read {pkt : SPacket} {bytes rest : List UInt8} (unread : Unread pkt (bytes ++ rest)) :
    ∃ after, pkt.read bytes.length = some (bytes, after) ∧ Unread after rest := by
  have total := unread.total
  rw [List.length_append] at total
  have enough : ¬ pkt.pos + bytes.length > pkt.size := by omega
  have positive := unread.positive
  refine ⟨{ pkt with pos := pkt.pos + bytes.length }, ?_, ?_, ?_, ?_⟩
  · unfold SPacket.read
    rw [if_neg enough, unread.contents, List.take_left]
  · have moved : (pkt.pos + bytes.length).toNat = pkt.pos.toNat + bytes.length := by omega
    dsimp only
    rw [moved, ← List.drop_drop, unread.contents]
    exact List.drop_left
  · dsimp only
    omega
  · dsimp only
    omega

theorem Unread.readUint {pkt : SPacket} {word : BitVec 32} {rest : List UInt8}
    (unread : Unread pkt (wordBytes word ++ rest)) :
    ∃ after, sPacketReadUint pkt = some (word, after) ∧ Unread after rest := by
  obtain ⟨after, read, left⟩ := unread.read
  have again := wordOf_wordBytes word []
  rw [List.append_nil] at again
  rw [wordBytes_length] at read
  refine ⟨after, ?_, left⟩
  unfold sPacketReadUint
  rw [read, Option.map_some]
  dsimp only
  rw [again]

theorem Unread.readUshort {pkt : SPacket} {short : BitVec 16} {rest : List UInt8}
    (unread : Unread pkt (shortBytes short ++ rest)) :
    ∃ after, sPacketReadUshort pkt = some (short, after) ∧ Unread after rest := by
  obtain ⟨after, read, left⟩ := unread.read
  have again := shortOf_shortBytes short []
  rw [List.append_nil] at again
  rw [shortBytes_length] at read
  refine ⟨after, ?_, left⟩
  unfold sPacketReadUshort
  rw [read, Option.map_some]
  dsimp only
  rw [again]

/-- A string is read back with its length. -/
theorem Unread.readString {pkt : SPacket} {string rest : List UInt8}
    (short : string.length < sPktStringMaxLen)
    (unread : Unread pkt (shortBytes (BitVec.ofNat 16 string.length) ++ (string ++ rest))) :
    ∃ after, sPacketReadString pkt = some (string, after) ∧ Unread after rest := by
  obtain ⟨counted, readLength, afterLength⟩ := unread.readUshort
  obtain ⟨after, readBytes, left⟩ := afterLength.read
  have length : (BitVec.ofNat 16 string.length).toInt = string.length := by
    unfold sPktStringMaxLen at short
    rw [BitVec.toInt_eq_toNat_of_lt (by rw [BitVec.toNat_ofNat]; omega), BitVec.toNat_ofNat]
    omega
  refine ⟨after, ?_, left⟩
  unfold sPacketReadString sPacketReadShort
  rw [readLength]
  simp only [Option.map_some, length]
  rw [if_neg (by omega), Int.toNat_natCast]
  exact readBytes

/-! ## A packet that is framed again -/

section

variable {code req body : List UInt8}

/-- A body behind a head that holds the size is a whole packet. -/
theorem wholePacket_body (eight : (code ++ req).length = 8)
    (small : (body.length : Int) ≤ sPktMaxSz) :
    WholePacket (wordBytes (BitVec.ofNat 32 (body.length + 12)) ++ (code ++ req) ++ body) := by
  have total : (wordBytes (BitVec.ofNat 32 (body.length + 12)) ++ (code ++ req) ++ body).length =
      body.length + 12 := by
    rw [List.length_append, List.length_append, wordBytes_length, eight]
    omega
  unfold sPktMaxSz at small
  constructor
  · refine ⟨_, _, _, _, _, rfl, ?_⟩
    have back : wordField _ _ _ _ = BitVec.ofNat 32 (body.length + 12) :=
      wordOf_wordBytes (BitVec.ofNat 32 (body.length + 12)) []
    have inRange : (BitVec.ofNat 32 (body.length + 12)).toNat = body.length + 12 := by
      rw [BitVec.toNat_ofNat]
      omega
    have number : (BitVec.ofNat 32 (body.length + 12)).toInt = (body.length + 12 : Nat) := by
      rw [BitVec.toInt_eq_toNat_of_lt (by omega), inRange]
    show (wordField _ _ _ _).toInt = _
    rw [back, number]
    exact congrArg Nat.cast total.symm
  · rw [total]
    unfold sPktHeadSize
    omega
  · rw [total]
    unfold sPktMaxSz sPktHeadSize
    omega

/-- A packet is framed with what has been written to it, and in the room that is
left with whatever stands there. -/
theorem Filled.framed {pkt : SPacket} {room : Nat}
    (filled : Filled pkt (wordBytes (BitVec.ofNat 32 (body.length + room + 12)) ++ (code ++ req))
      body room) (small : ((body.length + room : Nat) : Int) ≤ sPktMaxSz) :
    ∃ unset, unset.length = room ∧
      sPacketCreateFrom (pkt.data.take pkt.size.toNat) = some (some (packetOf
        (wordBytes (BitVec.ofNat 32 (body.length + room + 12)) ++ (code ++ req) ++
          (body ++ unset)))) := by
  obtain ⟨rest, data, enough⟩ := filled.contents
  have twelve := filled.headSize
  have eight : (code ++ req).length = 8 := by
    rw [List.length_append, wordBytes_length] at twelve
    omega
  have count : (rest.take room).length = room := List.length_take_of_le enough
  have length : (body ++ rest.take room).length = body.length + room := by
    rw [List.length_append, count]
  refine ⟨rest.take room, count, ?_⟩
  have size : pkt.size.toNat = (wordBytes (BitVec.ofNat 32 (body.length + room + 12)) ++
      (code ++ req) ++ (body ++ rest.take room)).length := by
    rw [filled.total, List.length_append, twelve, length, Int.toNat_natCast]
    omega
  have bytes : pkt.data = wordBytes (BitVec.ofNat 32 (body.length + room + 12)) ++
      (code ++ req) ++ (body ++ rest.take room) ++ rest.drop room := by
    rw [data, List.append_assoc, List.append_assoc _ (body ++ _), List.append_assoc body,
      List.take_append_drop]
  have sized : ((body ++ rest.take room).length : Int) ≤ sPktMaxSz := by
    rw [length]
    exact small
  have whole := sPacketCreateFrom_whole (wholePacket_body eight sized) []
  rw [List.append_nil, length] at whole
  rw [size, bytes, List.take_left, whole]

/-- A filled packet that is framed again holds its body unread. -/
theorem unread_framed {pkt : SPacket}
    (filled : Filled pkt (wordBytes (BitVec.ofNat 32 (body.length + 12)) ++ (code ++ req)) body 0)
    (small : (body.length : Int) ≤ sPktMaxSz) :
    ∃ received, sPacketCreateFrom (pkt.data.take pkt.size.toNat) = some (some received) ∧
      Unread received body := by
  rw [← Nat.add_zero body.length] at filled small
  obtain ⟨unset, none, framed⟩ := @Filled.framed code req body pkt 0 filled small
  rw [List.length_eq_zero_iff.mp none, List.append_nil] at framed
  exact ⟨_, framed, unread_packetOf body filled.headSize⟩

end

/-! ## Arrays -/

/-- A read that takes a fixed number of bytes. -/
structure FixedWidth {α : Type} (read : SPacket → Option (α × SPacket)) (width : Nat) : Prop where
  missing : ∀ pkt : SPacket, pkt.pos + width > pkt.size → read pkt = none
  present : ∀ pkt : SPacket, ¬ pkt.pos + width > pkt.size →
    ∃ element, read pkt = some (element, { pkt with pos := pkt.pos + width })

theorem fixedWidth_readUint : FixedWidth sPacketReadUint 4 := by
  constructor
  · intro pkt short
    unfold sPacketReadUint SPacket.read
    rw [if_pos short, Option.map_none]
  · intro pkt enough
    unfold sPacketReadUint SPacket.read
    rw [if_neg enough]
    exact ⟨_, rfl⟩

theorem fixedWidth_readInt : FixedWidth sPacketReadInt 4 := by
  constructor
  · intro pkt short
    unfold sPacketReadInt
    rw [fixedWidth_readUint.missing pkt short, Option.map_none]
  · intro pkt enough
    obtain ⟨word, read⟩ := fixedWidth_readUint.present pkt enough
    unfold sPacketReadInt
    rw [read]
    exact ⟨_, rfl⟩

theorem fixedWidth_readUshort : FixedWidth sPacketReadUshort 2 := by
  constructor
  · intro pkt short
    unfold sPacketReadUshort SPacket.read
    rw [if_pos short, Option.map_none]
  · intro pkt enough
    unfold sPacketReadUshort SPacket.read
    rw [if_neg enough]
    exact ⟨_, rfl⟩

/-- The bytes that are left to read. -/
def SPacket.left (pkt : SPacket) : Nat :=
  (pkt.size - pkt.pos).toNat

theorem left_read {pkt after : SPacket} {count : Nat} {bytes : List UInt8}
    (read : pkt.read count = some (bytes, after)) : after.left + count = pkt.left := by
  unfold SPacket.read at read
  split at read
  · cases read
  next enough =>
    cases read
    unfold SPacket.left
    dsimp only
    omega

theorem left_readUint {pkt after : SPacket} {word : BitVec 32}
    (read : sPacketReadUint pkt = some (word, after)) : after.left + 4 = pkt.left := by
  unfold sPacketReadUint at read
  obtain ⟨⟨bytes, next⟩, present, same⟩ := Option.map_eq_some_iff.mp read
  cases same
  exact left_read present

theorem left_readInt {pkt after : SPacket} {number : Int}
    (read : sPacketReadInt pkt = some (number, after)) : after.left + 4 = pkt.left := by
  unfold sPacketReadInt at read
  obtain ⟨⟨word, next⟩, present, same⟩ := Option.map_eq_some_iff.mp read
  cases same
  exact left_readUint present

/-- A string takes two bytes and those it is made of. -/
theorem left_readString {pkt after : SPacket} {text : List UInt8}
    (read : sPacketReadString pkt = some (text, after)) : after.left + 2 ≤ pkt.left := by
  unfold sPacketReadString sPacketReadShort sPacketReadUshort at read
  split at read
  · cases read
  next len next counted =>
    split at read
    · cases read
    · obtain ⟨⟨short, middle⟩, present, same⟩ := Option.map_eq_some_iff.mp counted
      obtain ⟨⟨bytes, first⟩, head, same'⟩ := Option.map_eq_some_iff.mp present
      cases same'
      cases same
      have two := left_read head
      have more := left_read read
      omega

/-- A loop of reads never gains bytes. -/
theorem left_readMany {α : Type} {read : SPacket → Option (α × SPacket)}
    (shrinks : ∀ pkt element after, read pkt = some (element, after) → after.left ≤ pkt.left)
    (count : Nat) :
    ∀ {pkt after : SPacket} {elements : List α}, readMany read count pkt = (elements, some after) →
      after.left ≤ pkt.left := by
  induction count with
  | zero =>
      intro pkt after elements done
      cases done
      exact le_rfl
  | succ count inductionHypothesis =>
      intro pkt after elements done
      rw [readMany] at done
      split at done
      · cases done
      next element next present =>
        have first := shrinks pkt element next present
        have later : readMany read count next = ((readMany read count next).1, some after) :=
          Prod.ext rfl (Prod.mk.inj done).2
        exact (inductionHypothesis later).trans first

/-- A packet has no more strings than bytes: more turns read no more. -/
theorem readWhileString_turns {α : Type} {turn : List UInt8 → SPacket → List α × Option SPacket}
    (shrinks : ∀ text pkt elements after, turn text pkt = (elements, some after) →
      after.left ≤ pkt.left) (turns : Nat) :
    ∀ pkt : SPacket, pkt.left ≤ turns →
      readWhileString turn (turns + 1) pkt = readWhileString turn turns pkt := by
  induction turns with
  | zero =>
      intro pkt nothing
      have stops : sPacketReadString pkt = none := by
        cases read : sPacketReadString pkt with
        | none => rfl
        | some result =>
            have fewer := @left_readString pkt result.2 result.1 read
            omega
      unfold readWhileString
      rw [stops]
  | succ turns inductionHypothesis =>
      intro pkt enough
      rw [readWhileString]
      conv_rhs => rw [readWhileString]
      split
      · rfl
      next text afterText readText =>
        split
        · rfl
        next elements afterTurn readTurn =>
          have one := left_readString readText
          have two := shrinks text afterText elements afterTurn readTurn
          rw [inductionHypothesis afterTurn (by omega)]

/-- **The length of what a loop stores** is the count, or what the packet
holds. -/
theorem readMany_length {α : Type} {read : SPacket → Option (α × SPacket)} {width : Nat}
    (fixed : FixedWidth read width) (positive : 0 < width) (count : Nat) :
    ∀ pkt : SPacket, (readMany read count pkt).1.length = min count (pkt.left / width) := by
  induction count with
  | zero => exact fun pkt => (Nat.zero_min _).symm
  | succ count inductionHypothesis =>
      intro pkt
      unfold readMany SPacket.left
      by_cases short : pkt.pos + width > pkt.size
      · have none : (pkt.size - pkt.pos).toNat / width = 0 :=
          Nat.div_eq_of_lt (by omega)
        rw [fixed.missing pkt short, none]
        exact (Nat.min_zero _).symm
      · obtain ⟨element, present⟩ := fixed.present pkt short
        have more := inductionHypothesis { pkt with pos := pkt.pos + width }
        have fewer : (pkt.size - pkt.pos).toNat =
            (pkt.size - (pkt.pos + width)).toNat + width := by
          omega
        rw [present]
        dsimp only
        rw [List.length_cons, more, fewer, Nat.add_div_right _ positive]
        unfold SPacket.left
        dsimp only
        omega

/-- A loop gets to its end if the packet holds all elements. -/
theorem readMany_isSome_iff {α : Type} {read : SPacket → Option (α × SPacket)} {width : Nat}
    (fixed : FixedWidth read width) (positive : 0 < width) (count : Nat) :
    ∀ pkt : SPacket, (readMany read count pkt).2.isSome = true ↔ count * width ≤ pkt.left := by
  induction count with
  | zero =>
      intro pkt
      exact iff_of_true rfl (by omega)
  | succ count inductionHypothesis =>
      intro pkt
      rw [Nat.succ_mul]
      unfold readMany
      by_cases short : pkt.pos + width > pkt.size
      · rw [fixed.missing pkt short]
        exact iff_of_false Bool.false_ne_true (by unfold SPacket.left; omega)
      · obtain ⟨element, present⟩ := fixed.present pkt short
        have more := inductionHypothesis { pkt with pos := pkt.pos + width }
        rw [present]
        dsimp only
        rw [more]
        unfold SPacket.left
        dsimp only
        omega

/-- A loop reads back what was written element by element. -/
theorem readMany_written {α : Type} {read : SPacket → Option (α × SPacket)}
    {bytes : α → List UInt8} (back : ∀ pkt element rest, Unread pkt (bytes element ++ rest) →
      ∃ after, read pkt = some (element, after) ∧ Unread after rest) (elements : List α) :
    ∀ (pkt : SPacket) (rest : List UInt8), Unread pkt (elements.flatMap bytes ++ rest) →
      ∃ after, readMany read elements.length pkt = (elements, some after) ∧ Unread after rest := by
  induction elements with
  | nil => exact fun pkt rest unread => ⟨pkt, rfl, unread⟩
  | cons element others inductionHypothesis =>
      intro pkt rest unread
      rw [List.flatMap_cons, List.append_assoc] at unread
      obtain ⟨next, present, unreadNext⟩ := back pkt element _ unread
      obtain ⟨after, readRest, unreadAfter⟩ := inductionHypothesis next rest unreadNext
      refine ⟨after, ?_, unreadAfter⟩
      rw [List.length_cons, readMany, present]
      dsimp only
      rw [readRest]

end SimpleDfs.Net
