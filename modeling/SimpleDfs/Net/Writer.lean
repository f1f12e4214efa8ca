import SimpleDfs.Net.Fields

/-!
Contract: packets written by a body that runs twice (`s_packet_start_write`,
`s_packet_wint`, `s_packet_wstring` and `s_packet_end_write` of
`include/s_packet.h`).

Owns: the variables of the macros, the two passes, the fields a body writes, the
packet that comes out if both passes write the same number of bytes, and how its
fields are read back.

Does not own: which fields a body writes.
-/

set_option autoImplicit false

namespace SimpleDfs.Net

open SimpleDfs.Library

/-- `__pkt` and `__sz` of `s_packet_start_write`. -/
structure Writer where
  pkt : Option SPacket
  sz : Int

/-- `s_packet_wint`. -/
def sPacketWint (writer : Writer) (word : BitVec 32) : Writer :=
  match writer.pkt with
  | some pkt => { writer with pkt := some ((sPacketWriteUint pkt word).getD pkt) }
  | none => { writer with sz := writer.sz + 4 }

/-- `s_packet_wstring`. -/
def sPacketWstring (writer : Writer) (string : List UInt8) : Writer :=
  match writer.pkt with
  | some pkt => { writer with pkt := some ((sPacketWriteString pkt string).getD pkt) }
  | none => { writer with sz := writer.sz + (2 + string.length) }

/-- The first pass, which counts. -/
def Writer.counting : Writer where
  pkt := none
  sz := 0

/-- `s_packet_start_write` to `s_packet_end_write`: the body runs without a
packet, then with one of the size it has counted.  What it does to the program's
state it does in each pass. -/
def sPacketStartWrite {State : Type} (code : BitVec 32) (junk : Nat → UInt8)
    (body : State → Writer → State × Writer) (state : State) : State × Option SPacket :=
  let (state, counted) := body state Writer.counting
  let pkt := sPacketEasy code counted.sz (packetMemory junk counted.sz)
  let (state, written) := body state { counted with pkt := pkt }
  (state, written.pkt)

/-! ## Fields -/

/-- What one macro writes. -/
inductive Field where
  | int (word : BitVec 32)
  | string (text : List UInt8)
  deriving DecidableEq, Repr

namespace Field

def bytes : Field → List UInt8
  | int word => wordBytes word
  | string text => shortBytes (BitVec.ofNat 16 text.length) ++ text

/-- A string is no longer than a packet takes. -/
def Fits : Field → Prop
  | int _ => True
  | string text => text.length < sPktStringMaxLen

end Field

/-- The bytes of a list of fields. -/
def fieldBytes (fields : List Field) : List UInt8 :=
  fields.flatMap Field.bytes

@[simp] theorem fieldBytes_append (front back : List Field) :
    fieldBytes (front ++ back) = fieldBytes front ++ fieldBytes back :=
  List.flatMap_append

namespace Writer

def write (writer : Writer) : Field → Writer
  | .int word => sPacketWint writer word
  | .string text => sPacketWstring writer text

def writeAll (writer : Writer) (fields : List Field) : Writer :=
  fields.foldl write writer

@[simp] theorem writeAll_nil (writer : Writer) : writer.writeAll [] = writer := rfl

@[simp] theorem writeAll_cons (writer : Writer) (field : Field) (rest : List Field) :
    writer.writeAll (field :: rest) = (writer.write field).writeAll rest := rfl

theorem writeAll_append (writer : Writer) (front back : List Field) :
    writer.writeAll (front ++ back) = (writer.writeAll front).writeAll back :=
  List.foldl_append

/-- A loop that writes some fields in each turn. -/
theorem foldl_writeAll {α : Type} (fields : α → List Field) (elements : List α)
    (writer : Writer) :
    elements.foldl (fun writer element => writer.writeAll (fields element)) writer =
      writer.writeAll (elements.flatMap fields) := by
  induction elements generalizing writer with
  | nil => rfl
  | cons element rest inductionHypothesis =>
      rw [List.foldl_cons, inductionHypothesis, List.flatMap_cons, writeAll_append]

/-- Counting adds up the bytes. -/
theorem writeAll_counting (fields : List Field) (sz : Int) :
    ({ pkt := none, sz := sz } : Writer).writeAll fields =
      { pkt := none, sz := sz + (fieldBytes fields).length } := by
  induction fields generalizing sz with
  | nil => exact congrArg (Writer.mk none) (Int.add_zero sz).symm
  | cons field rest inductionHypothesis =>
      have one : ({ pkt := none, sz := sz } : Writer).write field =
          { pkt := none, sz := sz + field.bytes.length } := by
        cases field with
        | int word => rfl
        | string text =>
            show ({ pkt := none, sz := sz + (2 + text.length) } : Writer) = _
            unfold Field.bytes
            rw [List.length_append, shortBytes_length]
            push_cast
            rfl
      have length : (fieldBytes (field :: rest)).length =
          field.bytes.length + (fieldBytes rest).length := by
        unfold fieldBytes
        rw [List.flatMap_cons, List.length_append]
      rw [writeAll_cons, one, inductionHypothesis, length]
      push_cast
      rw [Int.add_assoc]

/-- One field into a packet with room for it. -/
theorem write_filled {pkt : SPacket} {head body : List UInt8} {room : Nat}
    (filled : Filled pkt head body room) {field : Field} (fits : field.Fits)
    (enough : field.bytes.length ≤ room) (sz : Int) :
    ∃ after, ({ pkt := some pkt, sz := sz } : Writer).write field =
        { pkt := some after, sz := sz } ∧
      Filled after head (body ++ field.bytes) (room - field.bytes.length) := by
  cases field with
  | int word =>
      obtain ⟨after, wrote, filledAfter⟩ := filled.write (wordBytes word) enough
      refine ⟨after, ?_, filledAfter⟩
      show ({ pkt := some ((sPacketWriteUint pkt word).getD pkt), sz := sz } : Writer) = _
      unfold sPacketWriteUint
      rw [wrote]
      rfl
  | string text =>
      unfold Field.bytes at enough ⊢
      rw [List.length_append, shortBytes_length] at enough ⊢
      obtain ⟨after, wrote, filledAfter⟩ := filled.writeString fits enough
      refine ⟨after, ?_, filledAfter⟩
      show ({ pkt := some ((sPacketWriteString pkt text).getD pkt), sz := sz } : Writer) = _
      rw [wrote]
      rfl

/-- Fields into a packet with room for them. -/
theorem writeAll_filled (fields : List Field) (fits : ∀ field ∈ fields, field.Fits) (sz : Int) :
    ∀ {pkt : SPacket} {head body : List UInt8} {room : Nat}, Filled pkt head body room →
      (fieldBytes fields).length ≤ room →
      ∃ after, ({ pkt := some pkt, sz := sz } : Writer).writeAll fields =
          { pkt := some after, sz := sz } ∧
        Filled after head (body ++ fieldBytes fields) (room - (fieldBytes fields).length) := by
  induction fields with
  | nil =>
      intro pkt head body room filled _
      refine ⟨pkt, rfl, ?_⟩
      show Filled pkt head (body ++ []) (room - 0)
      rw [List.append_nil]
      exact filled
  | cons field rest inductionHypothesis =>
      intro pkt head body room filled enough
      have bytes : fieldBytes (field :: rest) = field.bytes ++ fieldBytes rest := List.flatMap_cons
      rw [bytes] at enough ⊢
      rw [List.length_append] at enough ⊢
      obtain ⟨next, wrote, filledNext⟩ :=
        write_filled filled (fits field List.mem_cons_self) (by omega) sz
      obtain ⟨after, wroteRest, filledAfter⟩ := inductionHypothesis
        (fun other member => fits other (List.mem_cons_of_mem field member)) filledNext (by omega)
      refine ⟨after, ?_, ?_⟩
      · rw [writeAll_cons, wrote, wroteRest]
      · rw [← List.append_assoc, ← Nat.sub_sub]
        exact filledAfter

end Writer

/-! ## Two passes -/

/-- In this state the body writes these fields, whatever the pass, and leaves
that state. -/
def Writes {State : Type} (body : State → Writer → State × Writer) (before : State)
    (fields : List Field) (after : State) : Prop :=
  ∀ writer : Writer, body before writer = (after, writer.writeAll fields)

/-- **The packet is exactly full** if the second pass writes as many bytes as the
first has counted, all strings fit and the packet is not too large. -/
theorem sPacketStartWrite_filled {State : Type} {body : State → Writer → State × Writer}
    {before middle after : State} {counted written : List Field}
    (first : Writes body before counted middle) (second : Writes body middle written after)
    (same : (fieldBytes written).length = (fieldBytes counted).length)
    (fits : ∀ field ∈ written, field.Fits)
    (small : ((fieldBytes counted).length : Int) ≤ sPktMaxSz) (code : BitVec 32)
    (junk : Nat → UInt8) :
    ∃ pkt req, sPacketStartWrite code junk body before = (after, some pkt) ∧ req.length = 4 ∧
      Filled pkt
        (wordBytes (BitVec.ofNat 32 ((fieldBytes written).length + 12)) ++ (wordBytes code ++ req))
        (fieldBytes written) 0 := by
  obtain ⟨fresh, junkCode, req, created, fourCode, fourReq, filled⟩ :=
    filled_sPacketCreate _ junk small
  have coded := filled.setHead fourCode code
  obtain ⟨pkt, wrote, full⟩ :=
    Writer.writeAll_filled written fits ((fieldBytes counted).length : Int) coded same.le
  rw [List.nil_append, same, Nat.sub_self, ← same] at full
  refine ⟨pkt, req, ?_, fourReq, full⟩
  have size : (Writer.counting.writeAll counted) =
      { pkt := none, sz := (fieldBytes counted).length } := by
    unfold Writer.counting
    rw [Writer.writeAll_counting, Int.zero_add]
  unfold sPacketStartWrite
  rw [first, size]
  dsimp only
  unfold sPacketEasy
  rw [created, Option.map_some, second]
  have setFun : sPacketSetFun fresh code = fresh.setHead
      (wordBytes (BitVec.ofNat 32 ((fieldBytes counted).length + 12))).length code := rfl
  rw [setFun, wrote]

/-! ## Reading fields back -/

section

variable {pkt : SPacket}

theorem unread_int {word : BitVec 32} {rest : List Field}
    (unread : Unread pkt (fieldBytes (.int word :: rest))) :
    ∃ after, sPacketReadUint pkt = some (word, after) ∧ Unread after (fieldBytes rest) :=
  unread.readUint

theorem unread_string {text : List UInt8} {rest : List Field}
    (short : text.length < sPktStringMaxLen)
    (unread : Unread pkt (fieldBytes (.string text :: rest))) :
    ∃ after, sPacketReadString pkt = some (text, after) ∧ Unread after (fieldBytes rest) := by
  apply Unread.readString short
  rw [← List.append_assoc]
  exact unread

/-- Nothing left: there is no string, and the position is the size. -/
theorem unread_nil (unread : Unread pkt (fieldBytes [])) :
    sPacketReadString pkt = none ∧ pkt.pos = pkt.size := by
  have total : pkt.size = pkt.pos := unread.total.trans (Int.add_zero pkt.pos)
  refine ⟨?_, total.symm⟩
  have missing : pkt.pos + (2 : Nat) > pkt.size := by
    rw [total]
    omega
  unfold sPacketReadString sPacketReadShort sPacketReadUshort SPacket.read
  rw [if_pos missing]
  rfl

/-- A loop reads back the elements whose fields were written. -/
theorem readMany_fields {α : Type} {read : SPacket → Option (α × SPacket)}
    {fields : α → List Field} (elements : List α)
    (back : ∀ element ∈ elements, ∀ pkt rest, Unread pkt (fieldBytes (fields element ++ rest)) →
      ∃ after, read pkt = some (element, after) ∧ Unread after (fieldBytes rest)) :
    ∀ {pkt : SPacket} {rest : List Field},
      Unread pkt (fieldBytes (elements.flatMap fields ++ rest)) →
      ∃ after, readMany read elements.length pkt = (elements, some after) ∧
        Unread after (fieldBytes rest) := by
  induction elements with
  | nil => exact fun unread => ⟨_, rfl, unread⟩
  | cons element others inductionHypothesis =>
      intro pkt rest unread
      rw [List.flatMap_cons, List.append_assoc] at unread
      obtain ⟨next, present, unreadNext⟩ := back element List.mem_cons_self pkt _ unread
      obtain ⟨after, readRest, unreadAfter⟩ := inductionHypothesis
        (fun other member => back other (List.mem_cons_of_mem element member)) unreadNext
      refine ⟨after, ?_, unreadAfter⟩
      rw [List.length_cons, readMany, present]
      dsimp only
      rw [readRest]

/-- A loop over strings reads back the elements whose fields were written, each
behind its string, to the end of the packet. -/
theorem readWhileString_fields {α β : Type}
    {turn : List UInt8 → SPacket → List α × Option SPacket} {text : β → List UInt8}
    {fields : β → List Field} {result : β → List α} (elements : List β)
    (short : ∀ element ∈ elements, (text element).length < sPktStringMaxLen)
    (back : ∀ element ∈ elements, ∀ pkt rest, Unread pkt (fieldBytes (fields element ++ rest)) →
      ∃ after, turn (text element) pkt = (result element, some after) ∧
        Unread after (fieldBytes rest)) :
    ∀ {pkt : SPacket} {turns : Nat}, elements.length ≤ turns →
      Unread pkt (fieldBytes (elements.flatMap fun element =>
        .string (text element) :: fields element)) →
      ∃ after, readWhileString turn turns pkt = (elements.flatMap result, some after) ∧
        after.pos = after.size := by
  induction elements with
  | nil =>
      intro pkt turns _ unread
      obtain ⟨stops, atEnd⟩ := unread_nil unread
      refine ⟨pkt, ?_, atEnd⟩
      cases turns with
      | zero => rfl
      | succ turns =>
          rw [readWhileString, stops]
          rfl
  | cons element rest inductionHypothesis =>
      intro pkt turns enough unread
      rw [List.flatMap_cons, List.cons_append] at unread
      cases turns with
      | zero => exact absurd enough (Nat.not_succ_le_zero _)
      | succ turns =>
          obtain ⟨named, readText, unreadNamed⟩ :=
            unread_string (short element List.mem_cons_self) unread
          obtain ⟨middle, readTurn, unreadMiddle⟩ :=
            back element List.mem_cons_self named _ unreadNamed
          obtain ⟨after, readRest, atEnd⟩ := inductionHypothesis
            (fun other member => short other (List.mem_cons_of_mem element member))
            (fun other member => back other (List.mem_cons_of_mem element member))
            (Nat.le_of_succ_le_succ enough) unreadMiddle
          refine ⟨after, ?_, atEnd⟩
          rw [readWhileString, readText]
          dsimp only
          rw [readTurn]
          dsimp only
          rw [readRest]
          rfl

/-- A loop that writes a field in each turn writes at least as many bytes as it
makes turns. -/
theorem length_le_fieldBytes {α : Type} {fields : α → List Field} (elements : List α)
    (nonempty : ∀ element, 0 < (fieldBytes (fields element)).length) :
    elements.length ≤ (fieldBytes (elements.flatMap fields)).length := by
  induction elements with
  | nil => exact Nat.zero_le _
  | cons element rest inductionHypothesis =>
      have first := nonempty element
      rw [List.flatMap_cons, fieldBytes_append, List.length_append, List.length_cons]
      omega

/-- Every turn of a loop over strings has a byte to read. -/
theorem length_le_left {β : Type} {text : β → List UInt8} {fields : β → List Field}
    (elements : List β)
    (unread : Unread pkt (fieldBytes (elements.flatMap fun element =>
      .string (text element) :: fields element))) : elements.length ≤ pkt.left := by
  have left : pkt.left = (fieldBytes (elements.flatMap fun element =>
      .string (text element) :: fields element)).length := by
    unfold SPacket.left
    rw [unread.total]
    omega
  have nonempty : ∀ element : β,
      0 < (fieldBytes (.string (text element) :: fields element)).length := by
    intro element
    have bytes : fieldBytes (.string (text element) :: fields element) =
        (Field.string (text element)).bytes ++ fieldBytes (fields element) := List.flatMap_cons
    rw [bytes, Field.bytes, List.length_append, List.length_append, shortBytes_length]
    omega
  rw [left]
  exact length_le_fieldBytes elements nonempty

end

end SimpleDfs.Net
