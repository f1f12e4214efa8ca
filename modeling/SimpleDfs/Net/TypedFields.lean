import SimpleDfs.Library.CharArithmetic
import SimpleDfs.Net.Fields

/-!
Contract: typed fields of a packet and the words of its head (`net/s_packet.c`).

Owns: the reads and writes of each type with the shifts and masks they make, the
calls on the head that may come between them, and the round trip of a list of
fields.

Does not own: which fields a packet has; who frames it.

The accessors of the head move the position and put it back.
-/

set_option autoImplicit false

namespace SimpleDfs.Net

open SimpleDfs.Library

/-! ## Fields -/

/-- A value of a type a packet may hold. -/
inductive TypedField where
  | char (c : UInt8)
  | short (s : Int16)
  | ushort (s : UInt16)
  | int (i : Int32)
  | uint (i : UInt32)
  | string (text : List UInt8)
  deriving DecidableEq

inductive FieldType where
  | char
  | short
  | ushort
  | int
  | uint
  | string
  deriving DecidableEq, Repr

def TypedField.type : TypedField → FieldType
  | .char _ => .char
  | .short _ => .short
  | .ushort _ => .ushort
  | .int _ => .int
  | .uint _ => .uint
  | .string _ => .string

/-- The encoded size. -/
def TypedField.size : TypedField → Nat
  | .char _ => 1
  | .short _ => 2
  | .ushort _ => 2
  | .int _ => 4
  | .uint _ => 4
  | .string text => 2 + text.length

/-- A string is shorter than `S_PKT_STRING_MAX_LEN`. -/
def TypedField.Fits : TypedField → Prop
  | .string text => text.length < sPktStringMaxLen
  | _ => True

/-- `s_packet_write_char`. -/
def sPacketWriteChar (pkt : SPacket) (c : UInt8) : Option SPacket :=
  pkt.write [c]

/-- `s_packet_write_char` to `s_packet_write_string`, with the shifts and masks
of the source; a `short` becomes an `int` first. -/
def TypedField.write (pkt : SPacket) : TypedField → Option SPacket
  | .char c => sPacketWriteChar pkt c
  | .short s => pkt.write (charsOfShort (s.toBitVec.signExtend 32))
  | .ushort s => pkt.write (charsOfShort (s.toBitVec.setWidth 32))
  | .int i => pkt.write (charsOfInt i.toBitVec)
  | .uint i => pkt.write (charsOfUint i.toBitVec)
  | .string text => sPacketWriteString pkt text

/-- `s_packet_read_char`. -/
def sPacketReadChar (pkt : SPacket) : Option (UInt8 × SPacket) :=
  (pkt.read 1).map fun (bytes, pkt) => (bytes.headD 0, pkt)

/-- The two bytes that have been read, put together. -/
def shortRead : List UInt8 → BitVec 16
  | p0 :: p1 :: _ => (shortOfChars p0 p1).setWidth 16
  | _ => 0

/-- The four bytes that have been read, put together. -/
def wordRead : List UInt8 → BitVec 32
  | p0 :: p1 :: p2 :: p3 :: _ => wordOfChars p0 p1 p2 p3
  | _ => 0

/-- `s_packet_read_char` to `s_packet_read_string`, with the shifts and masks of
the source. -/
def FieldType.read (pkt : SPacket) : FieldType → Option (TypedField × SPacket)
  | .char => (sPacketReadChar pkt).map fun (c, pkt) => (.char c, pkt)
  | .short => (pkt.read 2).map fun (bytes, pkt) => (.short (Int16.ofBitVec (shortRead bytes)), pkt)
  | .ushort => (pkt.read 2).map fun (bytes, pkt) => (.ushort (UInt16.ofBitVec (shortRead bytes)), pkt)
  | .int => (pkt.read 4).map fun (bytes, pkt) => (.int (Int32.ofBitVec (wordRead bytes)), pkt)
  | .uint => (pkt.read 4).map fun (bytes, pkt) => (.uint (UInt32.ofBitVec (wordRead bytes)), pkt)
  | .string => (sPacketReadString pkt).map fun (text, pkt) => (.string text, pkt)

/-- `s_packet_eof`. -/
def sPacketEof (pkt : SPacket) : Bool :=
  decide (pkt.pos ≥ pkt.size)

/-- A field on the wire. -/
def TypedField.bytes : TypedField → List UInt8
  | .char c => [c]
  | .short s => shortBytes s.toBitVec
  | .ushort s => shortBytes s.toBitVec
  | .int i => wordBytes i.toBitVec
  | .uint i => wordBytes i.toBitVec
  | .string text => shortBytes (BitVec.ofNat 16 text.length) ++ text

theorem TypedField.bytes_length (field : TypedField) :
    field.bytes.length = field.size := by
  cases field with
  | string text => exact List.length_append
  | _ => rfl

theorem shortRead_shortBytes (short : BitVec 16) :
    shortRead (shortBytes short) = short := by
  have back := shortOf_shortBytes short []
  rw [List.append_nil] at back
  exact (shortOfChars_eq _ _).trans back

theorem wordRead_wordBytes (word : BitVec 32) :
    wordRead (wordBytes word) = word := by
  have back := wordOf_wordBytes word []
  rw [List.append_nil] at back
  exact (wordOfChars_eq _ _ _ _).trans back

/-- A field is written where there is room for it. -/
theorem TypedField.filled_write {pkt : SPacket} {head body : List UInt8} {room : Nat}
    (field : TypedField) (fits : field.Fits) (filled : Filled pkt head body room)
    (enough : field.size ≤ room) :
    ∃ after, field.write pkt = some after ∧
      Filled after head (body ++ field.bytes) (room - field.size) := by
  rw [← field.bytes_length] at enough ⊢
  cases field with
  | char c => exact filled.write [c] enough
  | short s =>
      dsimp only [TypedField.write]
      rw [charsOfShort_signExtend]
      exact filled.write _ enough
  | ushort s =>
      dsimp only [TypedField.write]
      rw [charsOfShort_setWidth]
      exact filled.write _ enough
  | int i =>
      dsimp only [TypedField.write]
      rw [charsOfInt_eq]
      exact filled.write _ enough
  | uint i =>
      dsimp only [TypedField.write]
      rw [charsOfUint_eq]
      exact filled.write _ enough
  | string text =>
      have length : (TypedField.string text).bytes.length = 2 + text.length :=
        (TypedField.string text).bytes_length
      rw [length] at enough ⊢
      exact filled.writeString fits enough

/-! ## A packet that is read in place -/

/-- The packet with its position put elsewhere. -/
def SPacket.moveTo (pkt : SPacket) (pos : Int) : SPacket :=
  { pkt with pos := pos }

/-- A packet that has been filled is read: `ahead` comes next. -/
structure ReadAt (pkt : SPacket) (head done ahead : List UInt8) : Prop where
  whole : Filled (pkt.moveTo pkt.size) head (done ++ ahead) 0
  position : pkt.pos = (12 + done.length : Nat)

/-- Back at the start, everything is to be read. -/
theorem Filled.seek {pkt : SPacket} {head body : List UInt8} (filled : Filled pkt head body 0) :
    ReadAt (sPacketSeek pkt 0) head [] body := by
  have total := filled.total
  have position : pkt.size = pkt.pos := filled.total.trans filled.position.symm
  have moved : pkt.moveTo pkt.size = pkt := congrArg pkt.moveTo position
  have inside : ¬ ((0 : Int) < 0 ∨ 0 > pkt.size - sPktHeadSize) := by
    unfold sPktHeadSize
    omega
  unfold sPacketSeek
  rw [if_neg inside]
  constructor
  · show Filled (pkt.moveTo pkt.size) head body 0
    rw [moved]
    exact filled
  · rfl

/-- A packet that has been copied is read from the start. -/
theorem readAt_packetOf {head : List UInt8} (body : List UInt8) (twelve : head.length = 12) :
    ReadAt (packetOf (head ++ body)) head [] body := by
  have total : ((head ++ body).length : Int) = (12 + body.length : Nat) := by
    rw [List.length_append, twelve]
  refine ⟨⟨twelve, ?_, ?_, [], ?_, Nat.le_refl 0⟩, rfl⟩
  · exact total
  · exact total
  · exact (List.append_nil _).symm

section

variable {pkt : SPacket} {head done ahead : List UInt8}

theorem ReadAt.read {bytes : List UInt8} (reading : ReadAt pkt head done (bytes ++ ahead)) :
    ∃ after, pkt.read bytes.length = some (bytes, after) ∧
      ReadAt after head (done ++ bytes) ahead := by
  obtain ⟨rest, data, _⟩ := reading.whole.contents
  have total : pkt.size = (12 + (done ++ (bytes ++ ahead)).length + 0 : Nat) := reading.whole.total
  have position := reading.position
  have enough : ¬ pkt.pos + bytes.length > pkt.size := by
    rw [total, position]
    simp only [List.length_append]
    omega
  have start : pkt.pos.toNat = (head ++ done).length := by
    rw [position, List.length_append, reading.whole.headSize, Int.toNat_natCast]
  have here : (pkt.data.drop pkt.pos.toNat).take bytes.length = bytes := by
    have split : pkt.data = (head ++ done) ++ (bytes ++ (ahead ++ rest)) := by
      rw [show pkt.data = _ from data]
      simp only [List.append_assoc]
    rw [start, split, List.drop_left, List.take_left]
  refine ⟨{ pkt with pos := pkt.pos + bytes.length }, ?_, ?_, ?_⟩
  · unfold SPacket.read
    rw [if_neg enough, here]
  · rw [List.append_assoc]
    exact reading.whole
  · show pkt.pos + bytes.length = _
    rw [position, List.length_append]
    omega

theorem ReadAt.readString {string : List UInt8} (short : string.length < sPktStringMaxLen)
    (reading : ReadAt pkt head done
      (shortBytes (BitVec.ofNat 16 string.length) ++ string ++ ahead)) :
    ∃ after, sPacketReadString pkt = some (string, after) ∧
      ReadAt after head (done ++ (shortBytes (BitVec.ofNat 16 string.length) ++ string)) ahead := by
  rw [List.append_assoc] at reading
  obtain ⟨counted, readLength, afterLength⟩ := reading.read
  obtain ⟨after, readBytes, left⟩ := afterLength.read
  have length : (shortOf (shortBytes (BitVec.ofNat 16 string.length))).toInt = string.length := by
    have back := shortOf_shortBytes (BitVec.ofNat 16 string.length) []
    rw [List.append_nil] at back
    unfold sPktStringMaxLen at short
    rw [back, BitVec.toInt_eq_toNat_of_lt (by rw [BitVec.toNat_ofNat]; omega), BitVec.toNat_ofNat]
    omega
  rw [shortBytes_length] at readLength
  rw [List.append_assoc] at left
  refine ⟨after, ?_, left⟩
  unfold sPacketReadString sPacketReadShort sPacketReadUshort
  rw [readLength]
  simp only [Option.map_some, length]
  rw [if_neg (by omega), Int.toNat_natCast]
  exact readBytes

/-- A field that comes next is read back. -/
theorem ReadAt.readField (field : TypedField) (fits : field.Fits)
    (reading : ReadAt pkt head done (field.bytes ++ ahead)) :
    ∃ after, field.type.read pkt = some (field, after) ∧
      ReadAt after head (done ++ field.bytes) ahead := by
  cases field with
  | string text =>
      obtain ⟨after, read, left⟩ := reading.readString fits
      refine ⟨after, ?_, left⟩
      show (sPacketReadString pkt).map _ = _
      rw [read]
      rfl
  | char c =>
      obtain ⟨after, read, left⟩ := reading.read
      refine ⟨after, ?_, left⟩
      show ((pkt.read 1).map _).map _ = _
      rw [show pkt.read 1 = _ from read]
      rfl
  | short s =>
      obtain ⟨after, read, left⟩ := reading.read
      refine ⟨after, ?_, left⟩
      show (pkt.read 2).map _ = _
      rw [show pkt.read 2 = _ from read, Option.map_some]
      dsimp only [TypedField.bytes]
      rw [shortRead_shortBytes]
      rfl
  | ushort s =>
      obtain ⟨after, read, left⟩ := reading.read
      refine ⟨after, ?_, left⟩
      show (pkt.read 2).map _ = _
      rw [show pkt.read 2 = _ from read, Option.map_some]
      dsimp only [TypedField.bytes]
      rw [shortRead_shortBytes]
  | int i =>
      obtain ⟨after, read, left⟩ := reading.read
      refine ⟨after, ?_, left⟩
      show (pkt.read 4).map _ = _
      rw [show pkt.read 4 = _ from read, Option.map_some]
      dsimp only [TypedField.bytes]
      rw [wordRead_wordBytes]
      rfl
  | uint i =>
      obtain ⟨after, read, left⟩ := reading.read
      refine ⟨after, ?_, left⟩
      show (pkt.read 4).map _ = _
      rw [show pkt.read 4 = _ from read, Option.map_some]
      dsimp only [TypedField.bytes]
      rw [wordRead_wordBytes]

/-- Nothing left is the end of the packet. -/
theorem ReadAt.eof (reading : ReadAt pkt head done []) :
    sPacketEof pkt = true := by
  have total : pkt.size = (12 + (done ++ []).length + 0 : Nat) := reading.whole.total
  have position := reading.position
  rw [List.append_nil] at total
  exact decide_eq_true (by omega)

end

/-! ## The head -/

/-- `s_packet_set_fun` and `s_packet_set_req`: the position is put to the word
of the head and back. -/
def SPacket.setAt (pkt : SPacket) (pos : Nat) (word : BitVec 32) : SPacket :=
  if pkt.size < sPktHeadSize then pkt
  else
    let moved := pkt.moveTo pos
    ((TypedField.write moved (.uint (UInt32.ofBitVec word))).getD moved).moveTo pkt.pos

/-- `s_packet_get_fun` and `s_packet_get_req`; `stray` is what the variable
holds before it is read. -/
def SPacket.getAt (stray : BitVec 32) (pkt : SPacket) (pos : Nat) : BitVec 32 :=
  if pkt.size < sPktHeadSize then 0
  else
    match FieldType.read (pkt.moveTo pos) .uint with
    | some (.uint word, _) => word.toBitVec
    | _ => stray

/-- The words of a head behind the size. -/
structure HeadWords where
  code : BitVec 32
  req : BitVec 32
  deriving DecidableEq, Repr

def headBytes (size : BitVec 32) (words : HeadWords) : List UInt8 :=
  wordBytes size ++ (wordBytes words.code ++ wordBytes words.req)

/-- A call on the head. -/
inductive HeadCall where
  | setFun (code : BitVec 32)
  | setReq (req : BitVec 32)
  | getFun
  | getReq
  deriving DecidableEq, Repr

/-- What a call does to a packet, and the word it returns if it gets one. -/
def HeadCall.run (stray : BitVec 32) (pkt : SPacket) : HeadCall → SPacket × List (BitVec 32)
  | .setFun code => (pkt.setAt 4 code, [])
  | .setReq req => (pkt.setAt 8 req, [])
  | .getFun => (pkt, [pkt.getAt stray 4])
  | .getReq => (pkt, [pkt.getAt stray 8])

/-- The words last set, and the one that a call should return. -/
def HeadCall.last (words : HeadWords) : HeadCall → HeadWords × List (BitVec 32)
  | .setFun code => ({ words with code := code }, [])
  | .setReq req => ({ words with req := req }, [])
  | .getFun => (words, [words.code])
  | .getReq => (words, [words.req])

section

variable {pkt : SPacket} {size : BitVec 32} {words : HeadWords} {body : List UInt8} {room : Nat}

/-- Moving the position there and back is writing to the head. -/
theorem setAt_eq (pkt : SPacket) {pos : Nat} (inHead : pos ≤ 8) (word : BitVec 32) :
    pkt.setAt pos word = pkt.setHead pos word := by
  unfold SPacket.setAt SPacket.setHead
  split
  · rfl
  next hasHead =>
    have fits : ¬ ((pos : Int) + (wordBytes word).length > pkt.size) := by
      unfold sPktHeadSize at hasHead
      rw [wordBytes_length]
      omega
    dsimp only [TypedField.write, SPacket.write, SPacket.moveTo]
    rw [charsOfUint_eq, if_neg fits]
    rfl

theorem getAt_of_data (stray : BitVec 32) {pos : Nat} {word : BitVec 32} {rest : List UInt8}
    (inHead : pos ≤ 8) (hasHead : ¬ pkt.size < sPktHeadSize)
    (data : pkt.data.drop pos = wordBytes word ++ rest) : pkt.getAt stray pos = word := by
  have fits : ¬ ((pos : Int) + (4 : Nat) > pkt.size) := by
    unfold sPktHeadSize at hasHead
    omega
  unfold SPacket.getAt
  rw [if_neg hasHead]
  dsimp only [FieldType.read, SPacket.read, SPacket.moveTo]
  rw [if_neg fits, Option.map_some, Int.toNat_natCast, data]
  exact wordRead_wordBytes word

/-- A call on the head of a packet leaves its body and does what it should. -/
theorem HeadCall.filled_run (stray : BitVec 32) (call : HeadCall)
    (filled : Filled pkt (headBytes size words) body room) :
    (call.run stray pkt).2 = (call.last words).2 ∧
      Filled (call.run stray pkt).1 (headBytes size (call.last words).1) body room := by
  have hasHead : ¬ pkt.size < sPktHeadSize := by
    rw [filled.total]
    unfold sPktHeadSize
    omega
  obtain ⟨rest, data, _⟩ := filled.contents
  have split : pkt.data = wordBytes size ++ (wordBytes words.code ++
      (wordBytes words.req ++ (body ++ rest))) := by
    rw [data, headBytes]
    simp only [List.append_assoc]
  cases call with
  | setFun code =>
      refine ⟨rfl, ?_⟩
      show Filled (pkt.setAt 4 code) _ body room
      rw [setAt_eq pkt (by decide)]
      exact filled.setHead (wordBytes_length words.code) code
  | setReq req =>
      refine ⟨rfl, ?_⟩
      show Filled (pkt.setAt 8 req) _ body room
      unfold headBytes at filled ⊢
      rw [← List.append_assoc, ← List.append_nil (wordBytes words.req)] at filled
      rw [setAt_eq pkt (by decide), ← List.append_assoc, ← List.append_nil (wordBytes _)]
      exact filled.setHead (wordBytes_length words.req) req
  | getFun =>
      refine ⟨congrArg (fun word => [word]) ?_, filled⟩
      exact getAt_of_data stray (by decide) hasHead (by rw [split]; rfl)
  | getReq =>
      refine ⟨congrArg (fun word => [word]) ?_, filled⟩
      exact getAt_of_data stray (by decide) hasHead (by rw [split]; rfl)

theorem setAt_moveTo (pkt : SPacket) {pos : Nat} (inHead : pos ≤ 8) (word : BitVec 32)
    (elsewhere : Int) :
    (pkt.moveTo elsewhere).setAt pos word = (pkt.setAt pos word).moveTo elsewhere ∧
      (pkt.setAt pos word).pos = pkt.pos ∧ (pkt.setAt pos word).size = pkt.size := by
  rw [setAt_eq pkt inHead, setAt_eq _ inHead]
  by_cases bare : pkt.size < sPktHeadSize
  · simp [SPacket.setHead, SPacket.moveTo, bare]
  · simp [SPacket.setHead, SPacket.moveTo, bare]

/-- A call on the head does not depend on the position and leaves it. -/
theorem HeadCall.run_moveTo (stray : BitVec 32) (call : HeadCall) (pkt : SPacket)
    (elsewhere : Int) :
    call.run stray (pkt.moveTo elsewhere) =
        ((call.run stray pkt).1.moveTo elsewhere, (call.run stray pkt).2) ∧
      (call.run stray pkt).1.pos = pkt.pos ∧ (call.run stray pkt).1.size = pkt.size := by
  cases call with
  | setFun code =>
      obtain ⟨moved, rest⟩ := setAt_moveTo pkt (by decide : 4 ≤ 8) code elsewhere
      exact ⟨congrArg (fun after => (after, [])) moved, rest⟩
  | setReq req =>
      obtain ⟨moved, rest⟩ := setAt_moveTo pkt (by decide : 8 ≤ 8) req elsewhere
      exact ⟨congrArg (fun after => (after, [])) moved, rest⟩
  | getFun => exact ⟨rfl, rfl, rfl⟩
  | getReq => exact ⟨rfl, rfl, rfl⟩

/-- The same while the packet is read. -/
theorem HeadCall.readAt_run {done ahead : List UInt8} (stray : BitVec 32) (call : HeadCall)
    (reading : ReadAt pkt (headBytes size words) done ahead) :
    (call.run stray pkt).2 = (call.last words).2 ∧
      ReadAt (call.run stray pkt).1 (headBytes size (call.last words).1) done ahead := by
  obtain ⟨word, whole⟩ := call.filled_run stray reading.whole
  obtain ⟨moved, position, same⟩ := call.run_moveTo stray pkt pkt.size
  rw [moved] at word whole
  refine ⟨word, ?_, position.trans reading.position⟩
  rw [same]
  exact whole

end

/-! ## Lists of fields -/

/-- A field to write or a type to read, or a call on the head in between. -/
inductive Step (α : Type) where
  | field (field : α)
  | head (call : HeadCall)
  deriving DecidableEq

/-- The fields without the calls in between. -/
def fieldsOf {α : Type} : List (Step α) → List α
  | [] => []
  | .field field :: rest => field :: fieldsOf rest
  | .head _ :: rest => fieldsOf rest

/-- The words last set, and those that the calls in between should return. -/
def lastWords {α : Type} (words : HeadWords) : List (Step α) → HeadWords × List (BitVec 32)
  | [] => (words, [])
  | .field _ :: rest => lastWords words rest
  | .head call :: rest =>
      let (words, word) := call.last words
      let (words, later) := lastWords words rest
      (words, word ++ later)

/-- Write fields; also the words that the calls in between return. -/
def writeFields (stray : BitVec 32) (pkt : SPacket) :
    List (Step TypedField) → Option (SPacket × List (BitVec 32))
  | [] => some (pkt, [])
  | .field field :: rest => (field.write pkt).bind fun pkt => writeFields stray pkt rest
  | .head call :: rest =>
      let (pkt, word) := call.run stray pkt
      (writeFields stray pkt rest).map fun (pkt, later) => (pkt, word ++ later)

/-- Read fields of given types; also the words that the calls in between return. -/
def readFields (stray : BitVec 32) (pkt : SPacket) :
    List (Step FieldType) → Option (SPacket × List TypedField × List (BitVec 32))
  | [] => some (pkt, [], [])
  | .field type :: rest => (type.read pkt).bind fun (field, pkt) =>
      (readFields stray pkt rest).map fun (pkt, fields, words) => (pkt, field :: fields, words)
  | .head call :: rest =>
      let (pkt, word) := call.run stray pkt
      (readFields stray pkt rest).map fun (pkt, fields, later) => (pkt, fields, word ++ later)

/-- The encoded size of fields. -/
def encodedSize : List TypedField → Nat
  | [] => 0
  | field :: rest => field.size + encodedSize rest

theorem encodedSize_eq (fields : List TypedField) :
    encodedSize fields = (fields.flatMap TypedField.bytes).length := by
  induction fields with
  | nil => rfl
  | cons field rest later =>
      rw [List.flatMap_cons, List.length_append, field.bytes_length, ← later]
      rfl

section

variable {size : BitVec 32}

/-- Fields are written into a packet with room for them. -/
theorem writeFields_filled (stray : BitVec 32) (writes : List (Step TypedField))
    (fits : ∀ field ∈ fieldsOf writes, field.Fits) :
    ∀ {pkt : SPacket} {words : HeadWords} {body : List UInt8} {room : Nat},
      Filled pkt (headBytes size words) body room → encodedSize (fieldsOf writes) ≤ room →
      ∃ after, writeFields stray pkt writes = some (after, (lastWords words writes).2) ∧
        Filled after (headBytes size (lastWords words writes).1)
          (body ++ (fieldsOf writes).flatMap TypedField.bytes)
          (room - encodedSize (fieldsOf writes)) := by
  induction writes with
  | nil =>
      intro pkt words body room filled _
      refine ⟨pkt, rfl, ?_⟩
      show Filled pkt (headBytes size words) (body ++ []) (room - 0)
      rw [List.append_nil]
      exact filled
  | cons step rest later =>
      intro pkt words body room filled enough
      cases step with
      | field field =>
          have total : encodedSize (fieldsOf (.field field :: rest)) =
              field.size + encodedSize (fieldsOf rest) := rfl
          rw [total] at enough ⊢
          obtain ⟨next, wrote, filledNext⟩ :=
            field.filled_write (fits field List.mem_cons_self) filled (by omega)
          obtain ⟨after, wroteRest, filledAfter⟩ := later
            (fun other member => fits other (List.mem_cons_of_mem field member)) filledNext
            (by omega)
          refine ⟨after, ?_, ?_⟩
          · rw [writeFields, wrote]
            exact wroteRest
          · rw [fieldsOf, List.flatMap_cons, ← List.append_assoc, ← Nat.sub_sub]
            exact filledAfter
      | head call =>
          obtain ⟨word, filledNext⟩ := call.filled_run stray filled
          obtain ⟨after, wroteRest, filledAfter⟩ := later fits filledNext enough
          refine ⟨after, ?_, filledAfter⟩
          rw [writeFields]
          dsimp only
          rw [wroteRest, word]
          rfl

/-- Fields that come next are read back. -/
theorem readFields_readAt (stray : BitVec 32) (reads : List (Step FieldType)) :
    ∀ {pkt : SPacket} {words : HeadWords} {done : List UInt8} {fields : List TypedField},
      fieldsOf reads = fields.map TypedField.type → (∀ field ∈ fields, field.Fits) →
      ReadAt pkt (headBytes size words) done (fields.flatMap TypedField.bytes) →
      ∃ after, readFields stray pkt reads = some (after, fields, (lastWords words reads).2) ∧
        sPacketEof after = true := by
  induction reads with
  | nil =>
      intro pkt words done fields types _ reading
      rw [List.map_eq_nil_iff.mp types.symm] at reading ⊢
      exact ⟨pkt, rfl, reading.eof⟩
  | cons step rest later =>
      intro pkt words done fields types fits reading
      cases step with
      | field type =>
          cases fields with
          | nil => cases types
          | cons field others =>
              obtain ⟨rfl, otherTypes⟩ := List.cons_eq_cons.mp types
              rw [List.flatMap_cons] at reading
              obtain ⟨next, read, readingNext⟩ :=
                reading.readField field (fits field List.mem_cons_self)
              obtain ⟨after, readRest, eof⟩ := later otherTypes
                (fun other member => fits other (List.mem_cons_of_mem field member)) readingNext
              refine ⟨after, ?_, eof⟩
              rw [readFields, read, Option.bind_some]
              dsimp only
              rw [readRest]
              rfl
      | head call =>
          obtain ⟨word, readingNext⟩ := call.readAt_run stray reading
          obtain ⟨after, readRest, eof⟩ := later types fits readingNext
          refine ⟨after, ?_, eof⟩
          rw [readFields]
          dsimp only
          rw [readRest, word]
          rfl

end

theorem exists_wordBytes {bytes : List UInt8} (four : bytes.length = 4) :
    ∃ word, bytes = wordBytes word := by
  match bytes with
  | [p0, p1, p2, p3] => exact ⟨wordField p0 p1 p2 p3, (wordBytes_wordField p0 p1 p2 p3).symm⟩

/-- The copy of a filled packet has everything still to be read. -/
theorem copied_of_filled {pkt : SPacket} {words : HeadWords} {body : List UInt8} {count : Nat}
    (filled : Filled pkt (headBytes (BitVec.ofNat 32 (count + 12)) words) body 0)
    (length : count = body.length) (small : (count : Int) ≤ sPktMaxSz) :
    ∃ copied, sPacketCreateFrom (pkt.data.take pkt.size.toNat) = some (some copied) ∧
      ReadAt copied (headBytes (BitVec.ofNat 32 (count + 12)) words) [] body := by
  have twelve := filled.headSize
  subst length
  unfold headBytes at filled twelve ⊢
  rw [← Nat.add_zero body.length] at filled small
  obtain ⟨unset, none, framed⟩ := @Filled.framed _ _ body pkt 0 filled small
  rw [List.length_eq_zero_iff.mp none, List.append_nil] at framed
  exact ⟨_, framed, readAt_packetOf body twelve⟩

/-- **Typed fields round-trip.** Whatever the memory of the packet holds, all
writes succeed; the same types read in place or from a copy give the same
values and end at the end of the packet; and each call on the head in between
returns the word last set. -/
theorem typed_fields_round_trip (stray : BitVec 32) (junk : Nat → UInt8)
    (writes : List (Step TypedField)) (reads : List (Step FieldType))
    (types : fieldsOf reads = (fieldsOf writes).map TypedField.type)
    (fits : ∀ field ∈ fieldsOf writes, field.Fits)
    (small : (encodedSize (fieldsOf writes) : Int) ≤ sPktMaxSz) :
    ∃ created words written copied,
      sPacketCreate (encodedSize (fieldsOf writes))
        (packetMemory junk (encodedSize (fieldsOf writes))) = some created ∧
      writeFields stray created writes = some (written, (lastWords words writes).2) ∧
      sPacketCreateFrom (written.data.take written.size.toNat) = some (some copied) ∧
      ∀ received ∈ [sPacketSeek written 0, copied],
        ∃ after, readFields stray received reads =
            some (after, fieldsOf writes, (lastWords (lastWords words writes).1 reads).2) ∧
          sPacketEof after = true := by
  obtain ⟨created, code, req, create, fourCode, fourReq, filled⟩ :=
    filled_sPacketCreate (encodedSize (fieldsOf writes)) junk small
  obtain ⟨codeWord, rfl⟩ := exists_wordBytes fourCode
  obtain ⟨reqWord, rfl⟩ := exists_wordBytes fourReq
  have headed : Filled created (headBytes (BitVec.ofNat 32 (encodedSize (fieldsOf writes) + 12))
      ⟨codeWord, reqWord⟩) [] (encodedSize (fieldsOf writes)) := filled
  obtain ⟨written, wrote, full⟩ := writeFields_filled stray writes fits headed le_rfl
  rw [Nat.sub_self, List.nil_append] at full
  obtain ⟨copied, framed, copy⟩ := copied_of_filled full (encodedSize_eq _) small
  refine ⟨created, ⟨codeWord, reqWord⟩, written, copied, create, wrote, framed, ?_⟩
  intro received member
  rcases List.mem_cons.mp member with same | member
  · rw [same]
    exact readFields_readAt stray reads types fits full.seek
  · rw [List.mem_singleton.mp member]
    exact readFields_readAt stray reads types fits copy

/-- An `int` and a string, with calls on the head around them. -/
theorem typed_fields_round_trip_two :
    ∃ created written copied,
      sPacketCreate 7 (packetMemory (fun _ => 255) 7) = some created ∧
      writeFields 0 created [.head (.setFun 9), .field (.int (-2)), .field (.string [97]),
        .head (.setReq 7)] = some (written, []) ∧
      sPacketCreateFrom (written.data.take written.size.toNat) = some (some copied) ∧
      ∀ received ∈ [sPacketSeek written 0, copied],
        ∃ after, readFields 0 received [.field .int, .head .getFun, .field .string,
            .head .getReq] = some (after, [.int (-2), .string [97]], [9, 7]) ∧
          sPacketEof after = true := by
  have fits : ∀ field ∈ [TypedField.int (-2), TypedField.string [97]], field.Fits := by
    intro field member
    rcases List.mem_cons.mp member with same | member
    · rw [same]
      trivial
    · rw [List.mem_singleton.mp member]
      show 1 < 2 ^ 15
      decide
  obtain ⟨created, _, written, copied, trip⟩ := typed_fields_round_trip 0 (fun _ => 255)
    [.head (.setFun 9), .field (.int (-2)), .field (.string [97]), .head (.setReq 7)]
    [.field .int, .head .getFun, .field .string, .head .getReq] rfl fits (by decide)
  exact ⟨created, written, copied, trip⟩

end SimpleDfs.Net
