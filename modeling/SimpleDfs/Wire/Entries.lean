import SimpleDfs.Net.Writer
import SimpleDfs.Paxos.Acceptor

/-!
Contract: topics and table entries of the Paxos layer on the wire
(`core/s_core_paxos.c`).

Owns: the bytes of a topic, the ints of an id, the three ints of an entry
written and read, and when they are read back as they were.

Does not own: which entries a packet lists.
-/

set_option autoImplicit false

namespace SimpleDfs.Wire

open SimpleDfs.Common
open SimpleDfs.Library
open SimpleDfs.Net
open SimpleDfs.Paxos

/-! ## Topics and ids -/

/-- The bytes of a topic. -/
def topicBytes (topic : Topic) : List UInt8 :=
  topic.map UInt8.ofNat

/-- The topic of a string that is read. -/
def topicOf (text : List UInt8) : Topic :=
  text.map UInt8.toNat

/-- The topic is a `struct s_string` that a packet takes. -/
structure IsText (topic : Topic) : Prop where
  chars : ∀ char ∈ topic, char < 2 ^ 8
  short : topic.length < sPktStringMaxLen

/-- The parts of the id are ints. -/
structure IsIntId (id : SId) : Prop where
  x : id.x < 2 ^ 31
  y : id.y < 2 ^ 31

theorem topicBytes_short {topic : Topic} (isText : IsText topic) :
    (topicBytes topic).length < sPktStringMaxLen := by
  rw [topicBytes, List.length_map]
  exact isText.short

theorem topicOf_topicBytes {topic : Topic} (isText : IsText topic) :
    topicOf (topicBytes topic) = topic := by
  have each : ∀ char ∈ topic, (UInt8.toNat ∘ UInt8.ofNat) char = char := by
    intro char member
    show (UInt8.ofNat char).toNat = char
    rw [UInt8.toNat_ofNat', Nat.mod_eq_of_lt (isText.chars char member)]
  rw [topicOf, topicBytes, List.map_map, List.map_congr_left each, List.map_id']

/-- The id of two words. -/
def idOf (x y : BitVec 32) : SId :=
  ⟨x.toNat, y.toNat⟩

theorem idOf_words {id : SId} (isInt : IsIntId id) :
    idOf (BitVec.ofNat 32 id.x) (BitVec.ofNat 32 id.y) = id := by
  have x := isInt.x
  have y := isInt.y
  rw [idOf, BitVec.toNat_ofNat, BitVec.toNat_ofNat, Nat.mod_eq_of_lt (by omega),
    Nat.mod_eq_of_lt (by omega)]

/-- A length that a packet of the largest size can list is read back as an
`int`. -/
theorem toInt_length {length : Nat} (small : (length : Int) ≤ sPktMaxSz) :
    (BitVec.ofNat 32 length).toInt = length := by
  unfold sPktMaxSz at small
  rw [BitVec.toInt_eq_toNat_of_lt (by rw [BitVec.toNat_ofNat]; omega), BitVec.toNat_ofNat,
    Nat.mod_eq_of_lt (by omega)]

/-! ## Entries -/

/-- A value and an id, as each loop over entries writes them. -/
def writeEntry (writer : Writer) (value : Value) (id : SId) : Writer :=
  let writer := sPacketWint writer value
  let writer := sPacketWint writer (BitVec.ofNat 32 id.x)
  sPacketWint writer (BitVec.ofNat 32 id.y)

def entryFields (value : Value) (id : SId) : List Field :=
  [.int value, .int (BitVec.ofNat 32 id.x), .int (BitVec.ofNat 32 id.y)]

theorem fits_entryFields (value : Value) (id : SId) : ∀ field ∈ entryFields value id, field.Fits := by
  intro field member
  simp only [entryFields, List.mem_cons, List.not_mem_nil, or_false] at member
  rcases member with rfl | rfl | rfl <;> trivial

/-- The reads of a value and an id. -/
def readEntry (pkt : SPacket) : Option ((Value × SId) × SPacket) := do
  let (value, pkt) ← sPacketReadUint pkt
  let (x, pkt) ← sPacketReadUint pkt
  let (y, pkt) ← sPacketReadUint pkt
  return ((value, idOf x y), pkt)

/-- The id is read back as two words. -/
theorem readEntry_words {value : Value} {id : SId} {pkt : SPacket} {rest : List Field}
    (unread : Unread pkt (fieldBytes (entryFields value id ++ rest))) :
    ∃ after, readEntry pkt =
        some ((value, idOf (BitVec.ofNat 32 id.x) (BitVec.ofNat 32 id.y)), after) ∧
      Unread after (fieldBytes rest) := by
  obtain ⟨first, readValue, unreadFirst⟩ := unread_int unread
  obtain ⟨second, readX, unreadSecond⟩ := unread_int unreadFirst
  obtain ⟨after, readY, unreadAfter⟩ := unread_int unreadSecond
  refine ⟨after, ?_, unreadAfter⟩
  simp only [readEntry, readValue, readX, readY, Option.bind_eq_bind, Option.bind_some,
    Option.pure_def]

theorem readEntry_fields {value : Value} {id : SId} (isInt : IsIntId id) {pkt : SPacket}
    {rest : List Field} (unread : Unread pkt (fieldBytes (entryFields value id ++ rest))) :
    ∃ after, readEntry pkt = some ((value, id), after) ∧ Unread after (fieldBytes rest) := by
  obtain ⟨after, read, unreadAfter⟩ := readEntry_words unread
  rw [idOf_words isInt] at read
  exact ⟨after, read, unreadAfter⟩

/-- An entry with its topic. -/
def writeTopicEntry (writer : Writer) (topic : Topic) (value : Value) (id : SId) : Writer :=
  writeEntry (sPacketWstring writer (topicBytes topic)) value id

def topicEntryFields (topic : Topic) (value : Value) (id : SId) : List Field :=
  .string (topicBytes topic) :: entryFields value id

theorem writeTopicEntry_eq (writer : Writer) (topic : Topic) (value : Value) (id : SId) :
    writeTopicEntry writer topic value id =
      writer.writeAll (topicEntryFields topic value id) := rfl

/-- The reads of a topic, a value and an id. -/
def readTopicEntry (pkt : SPacket) : Option (PaxosAccept × SPacket) := do
  let (text, pkt) ← sPacketReadString pkt
  let ((value, id), pkt) ← readEntry pkt
  return ({ topic := topicOf text, id := id, value := value }, pkt)

theorem readTopicEntry_fields {entry : PaxosAccept} (isText : IsText entry.topic)
    (isInt : IsIntId entry.id) {pkt : SPacket} {rest : List Field}
    (unread : Unread pkt
      (fieldBytes (topicEntryFields entry.topic entry.value entry.id ++ rest))) :
    ∃ after, readTopicEntry pkt = some (entry, after) ∧ Unread after (fieldBytes rest) := by
  obtain ⟨first, readText, unreadFirst⟩ := unread_string (topicBytes_short isText) unread
  obtain ⟨after, readRest, unreadAfter⟩ := readEntry_fields isInt unreadFirst
  refine ⟨after, ?_, unreadAfter⟩
  simp only [readTopicEntry, readText, readRest, Option.bind_eq_bind, Option.bind_some,
    Option.pure_def, topicOf_topicBytes isText]

end SimpleDfs.Wire
