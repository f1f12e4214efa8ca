import SimpleDfs.Mserv.Create
import SimpleDfs.Net.Fields
import SimpleDfs.Wire.Abi

/-!
Contract: file metadata on the wire (`core/s_core_pkt.c`,
`s_file_meta_data_create` of `core/s_core_param.c`).

Owns: the packet of a `struct s_file_meta_data`, the record read back from a
packet with the memory its blocks are written to, and the round trip.

Does not own: who sends such a packet.
-/

set_option autoImplicit false

namespace SimpleDfs.Wire

open SimpleDfs.Library
open SimpleDfs.Net
open SimpleDfs.Mserv

/-- A name on the wire is any string of bytes. -/
abbrev FileName := List UInt8

/-! ## Writing -/

/-- One turn of the block loop of `s_core_pkt_from_fmd`. -/
def writeBlock (pkt : SPacket) (block : Nat × Nat) : SPacket :=
  let pkt := (sPacketWriteUshort pkt (BitVec.ofNat 16 block.1)).getD pkt
  (sPacketWriteUshort pkt (BitVec.ofNat 16 block.2)).getD pkt

/-- `sz` of `s_core_pkt_from_fmd`. -/
def fmdSize (md : FileMetaData FileName) : Nat :=
  2 + md.fname.length + 4 + 4 + 4 + 4 + 4 + 2 * 2 * md.blocks.length

/-- `s_core_pkt_from_fmd`, which does not look at the results of its writes;
`none` is the null packet, which it writes to all the same.  A size that is no
`int` counts as too large, too: computing it is undefined. -/
def sCorePktFromFmd (junk : Nat → UInt8) (md : FileMetaData FileName) : Option SPacket :=
  let sz := fmdSize md
  (sPacketEasy sPktTypeCreateMetadata sz (packetMemory junk sz)).map fun pkt =>
    let pkt := (sPacketWriteString pkt md.fname).getD pkt
    let pkt := (sPacketWriteUint pkt (BitVec.ofNat 32 md.fdesc.fileId)).getD pkt
    let pkt := (sPacketWriteUint pkt (BitVec.ofNat 32 md.fdesc.fileVersion)).getD pkt
    let pkt := (sPacketWriteUint pkt (BitVec.ofNat 32 md.fsize.high)).getD pkt
    let pkt := (sPacketWriteUint pkt (BitVec.ofNat 32 md.fsize.low)).getD pkt
    let pkt := (sPacketWriteUint pkt (BitVec.ofNat 32 md.blocks.length)).getD pkt
    md.blocks.foldl writeBlock pkt

/-- The blocks of a record on the wire. -/
def blockBytes (blocks : List (Nat × Nat)) : List UInt8 :=
  blocks.flatMap fun block =>
    shortBytes (BitVec.ofNat 16 block.1) ++ shortBytes (BitVec.ofNat 16 block.2)

/-- A record on the wire. -/
def fmdBytes (md : FileMetaData FileName) : List UInt8 :=
  shortBytes (BitVec.ofNat 16 md.fname.length) ++ (md.fname ++
    (wordBytes (BitVec.ofNat 32 md.fdesc.fileId) ++
      (wordBytes (BitVec.ofNat 32 md.fdesc.fileVersion) ++
        (wordBytes (BitVec.ofNat 32 md.fsize.high) ++
          (wordBytes (BitVec.ofNat 32 md.fsize.low) ++
            (wordBytes (BitVec.ofNat 32 md.blocks.length) ++ blockBytes md.blocks))))))

theorem blockBytes_length (blocks : List (Nat × Nat)) :
    (blockBytes blocks).length = 4 * blocks.length := by
  induction blocks with
  | nil => rfl
  | cons block rest inductionHypothesis =>
      unfold blockBytes at inductionHypothesis ⊢
      rw [List.flatMap_cons, List.length_append, inductionHypothesis]
      simp only [List.length_append, shortBytes_length, List.length_cons]
      omega

theorem fmdBytes_length (md : FileMetaData FileName) : (fmdBytes md).length = fmdSize md := by
  unfold fmdBytes fmdSize
  simp only [List.length_append, shortBytes_length, wordBytes_length, blockBytes_length]
  omega

section

variable {pkt : SPacket} {head body : List UInt8} {room : Nat}

theorem filled_writeUint (filled : Filled pkt head body room) (word : BitVec 32)
    (fits : 4 ≤ room) :
    Filled ((sPacketWriteUint pkt word).getD pkt) head (body ++ wordBytes word) (room - 4) := by
  obtain ⟨after, wrote, filledAfter⟩ := filled.write (wordBytes word) fits
  unfold sPacketWriteUint
  rw [wrote]
  exact filledAfter

theorem filled_writeUshort (filled : Filled pkt head body room) (short : BitVec 16)
    (fits : 2 ≤ room) :
    Filled ((sPacketWriteUshort pkt short).getD pkt) head (body ++ shortBytes short)
      (room - 2) := by
  obtain ⟨after, wrote, filledAfter⟩ := filled.write (shortBytes short) fits
  unfold sPacketWriteUshort
  rw [wrote]
  exact filledAfter

/-- The block loop writes all blocks. -/
theorem filled_writeBlocks (blocks : List (Nat × Nat)) :
    ∀ {pkt : SPacket} {body : List UInt8} {room : Nat}, Filled pkt head body room →
      4 * blocks.length ≤ room →
      Filled (blocks.foldl writeBlock pkt) head (body ++ blockBytes blocks)
        (room - 4 * blocks.length) := by
  induction blocks with
  | nil =>
      intro pkt body room filled _
      have none : body ++ blockBytes [] = body := List.append_nil body
      rw [none]
      exact filled
  | cons block rest inductionHypothesis =>
      intro pkt body room filled fits
      rw [List.length_cons] at fits
      have first := filled_writeUshort filled (BitVec.ofNat 16 block.1) (by omega)
      have both := filled_writeUshort first (BitVec.ofNat 16 block.2) (by omega)
      have all := inductionHypothesis both (by omega)
      have bytes : body ++ blockBytes (block :: rest) =
          body ++ shortBytes (BitVec.ofNat 16 block.1) ++ shortBytes (BitVec.ofNat 16 block.2) ++
            blockBytes rest := by
        unfold blockBytes
        rw [List.flatMap_cons]
        simp only [List.append_assoc]
      have left : room - 4 * (block :: rest).length = room - 2 - 2 - 4 * rest.length := by
        rw [List.length_cons]
        omega
      rw [bytes, left]
      exact all

end

/-- The packet of a record whose name is no longer than a string may be holds
the record's bytes. -/
theorem filled_sCorePktFromFmd {junk : Nat → UInt8} {md : FileMetaData FileName} {pkt : SPacket}
    (short : md.fname.length < sPktStringMaxLen) (made : sCorePktFromFmd junk md = some pkt) :
    fmdSize md ≤ sPktMaxSz ∧ ∃ req, req.length = 4 ∧
      Filled pkt (wordBytes (BitVec.ofNat 32 (fmdSize md + 12)) ++
        (wordBytes sPktTypeCreateMetadata ++ req)) (fmdBytes md) 0 := by
  unfold sCorePktFromFmd sPacketEasy at made
  dsimp only at made
  have small : (fmdSize md : Int) ≤ sPktMaxSz := by
    by_contra large
    have none : sPacketCreate (fmdSize md) (packetMemory junk (fmdSize md)) = none :=
      if_pos (by omega)
    rw [none] at made
    cases made
  obtain ⟨fresh, code, req, created, fourCode, fourReq, filled⟩ := filled_sPacketCreate _ junk small
  rw [created] at made
  have total : fmdSize md =
      2 + md.fname.length + 4 + 4 + 4 + 4 + 4 + 2 * 2 * md.blocks.length := rfl
  refine ⟨small, req, fourReq, ?_⟩
  have coded := filled.setHead fourCode sPktTypeCreateMetadata
  obtain ⟨named, wroteName, filledName⟩ := coded.writeString short (by omega)
  have filledId := filled_writeUint filledName (BitVec.ofNat 32 md.fdesc.fileId) (by omega)
  have filledVersion :=
    filled_writeUint filledId (BitVec.ofNat 32 md.fdesc.fileVersion) (by omega)
  have filledHigh := filled_writeUint filledVersion (BitVec.ofNat 32 md.fsize.high) (by omega)
  have filledLow := filled_writeUint filledHigh (BitVec.ofNat 32 md.fsize.low) (by omega)
  have filledNum := filled_writeUint filledLow (BitVec.ofNat 32 md.blocks.length) (by omega)
  have filledAll := filled_writeBlocks md.blocks filledNum (by omega)
  have isPacket : sPacketWriteString (sPacketSetFun fresh sPktTypeCreateMetadata) md.fname =
      some named := wroteName
  simp only [Option.map_some, Option.some.injEq] at made
  rw [isPacket, Option.getD_some] at made
  rw [made] at filledAll
  have bytes : [] ++ (shortBytes (BitVec.ofNat 16 md.fname.length) ++ md.fname) ++
      wordBytes (BitVec.ofNat 32 md.fdesc.fileId) ++
      wordBytes (BitVec.ofNat 32 md.fdesc.fileVersion) ++
      wordBytes (BitVec.ofNat 32 md.fsize.high) ++ wordBytes (BitVec.ofNat 32 md.fsize.low) ++
      wordBytes (BitVec.ofNat 32 md.blocks.length) ++ blockBytes md.blocks = fmdBytes md := by
    unfold fmdBytes
    simp only [List.append_assoc, List.nil_append]
  have none : fmdSize md - (2 + md.fname.length) - 4 - 4 - 4 - 4 - 4 - 4 * md.blocks.length = 0 := by
    omega
  rw [bytes, none] at filledAll
  exact filledAll

/-! ## Reading -/

/-- Where `blocks` starts in `struct s_file_meta_data`: behind a list link, a
number, two pointers, the descriptor, the size and a number. -/
def blocksOffset (abi : Abi) : Nat :=
  5 * abi.pointerSize + 20

/-- `sizeof(struct s_file_meta_data)`, with one block. -/
def sizeofFileMetaData (abi : Abi) : Nat :=
  blocksOffset abi + 4

/-- `__s_malloc`: the bytes behind the size it stores.  `none` is the null
pointer it writes that size to; `allocates` is whether `malloc` has so much. -/
def sMalloc (allocates : Nat → Bool) (size : BitVec 32) : Option Nat :=
  let bytes := (size + 4).toNat
  if allocates bytes then some (bytes - 4) else none

/-- The size `s_file_meta_data_create` asks for. -/
def fileMetaDataSize (abi : Abi) (nblocks : BitVec 32) : BitVec 32 :=
  BitVec.ofNat 32 (sizeofFileMetaData abi) + 2 * nblocks

/-- The memory of `s_file_meta_data_create`. -/
def sFileMetaDataCreate (abi : Abi) (allocates : Nat → Bool) (nblocks : BitVec 32) : Option Nat :=
  sMalloc allocates (fileMetaDataSize abi nblocks)

/-- The fields in front of the blocks. -/
structure FmdHead where
  fname : FileName
  fdesc : FileDesc
  fsize : FileSize
  nblocks : BitVec 32

/-- The reads of `s_core_pkt_to_fmd` before the record is created. -/
def readFmdHead (pkt : SPacket) : Option (FmdHead × SPacket) := do
  let (fname, pkt) ← sPacketReadString pkt
  let (fileId, pkt) ← sPacketReadUint pkt
  let (fileVersion, pkt) ← sPacketReadUint pkt
  let (high, pkt) ← sPacketReadUint pkt
  let (low, pkt) ← sPacketReadUint pkt
  let (nblocks, pkt) ← sPacketReadUint pkt
  return ({ fname := fname
            fdesc := { fileId := fileId.toNat, fileVersion := fileVersion.toNat }
            fsize := { low := low.toNat, high := high.toNat }
            nblocks := nblocks }, pkt)

/-- What is stored in a record: the bytes allocated for it and the half words
written from `blocks` on, in order. -/
structure StoredBlocks where
  allocated : Nat
  halves : List (BitVec 16)

/-- The half words lie in the bytes allocated. -/
def StoredBlocks.Inside (abi : Abi) (stored : StoredBlocks) : Prop :=
  ∀ index, index < stored.halves.length → blocksOffset abi + 2 * (index + 1) ≤ stored.allocated

/-- What `s_core_pkt_to_fmd` does: the record in memory, if it is created, and
the one it returns. -/
structure FmdRead where
  stored : Option StoredBlocks
  md : Option (FileMetaData FileName)

/-- The blocks that half words make up. -/
def pairUp : List (BitVec 16) → List (Nat × Nat)
  | first :: second :: rest => (first.toNat, second.toNat) :: pairUp rest
  | _ => []

/-- `s_core_pkt_to_fmd`; `none` is a crash for want of memory. -/
def sCorePktToFmd (abi : Abi) (allocates : Nat → Bool) (pkt : SPacket) : Option FmdRead :=
  match readFmdHead (sPacketSeek pkt 0) with
  | none => some { stored := none, md := none }
  | some (head, pkt) =>
      (sFileMetaDataCreate abi allocates head.nblocks).map fun allocated =>
        let (halves, left) := readMany sPacketReadUshort (2 * head.nblocks.toNat) pkt
        { stored := some { allocated := allocated, halves := halves }
          md := left.map fun _ =>
            { fname := head.fname
              fdesc := head.fdesc
              fsize := head.fsize
              blocks := pairUp halves } }

/-- The numbers of a record fit the fields they are written to. -/
structure FitsWire (md : FileMetaData FileName) : Prop where
  fname : md.fname.length < sPktStringMaxLen
  fileId : md.fdesc.fileId < 2 ^ 32
  fileVersion : md.fdesc.fileVersion < 2 ^ 32
  high : md.fsize.high < 2 ^ 32
  low : md.fsize.low < 2 ^ 32
  nblocks : md.blocks.length < 2 ^ 32
  blocks : ∀ block ∈ md.blocks, block.1 < 2 ^ 16 ∧ block.2 < 2 ^ 16

/-- The half words of blocks. -/
def blockHalves (blocks : List (Nat × Nat)) : List (BitVec 16) :=
  blocks.flatMap fun block => [BitVec.ofNat 16 block.1, BitVec.ofNat 16 block.2]

theorem blockHalves_length (blocks : List (Nat × Nat)) :
    (blockHalves blocks).length = 2 * blocks.length := by
  induction blocks with
  | nil => rfl
  | cons block rest inductionHypothesis =>
      unfold blockHalves at inductionHypothesis ⊢
      rw [List.flatMap_cons, List.length_append, inductionHypothesis]
      simp only [List.length_cons, List.length_nil]
      omega

theorem blockBytes_eq (blocks : List (Nat × Nat)) :
    blockBytes blocks = (blockHalves blocks).flatMap shortBytes := by
  induction blocks with
  | nil => rfl
  | cons block rest inductionHypothesis =>
      unfold blockBytes blockHalves at inductionHypothesis ⊢
      rw [List.flatMap_cons, List.flatMap_cons, List.flatMap_append, inductionHypothesis]
      simp

theorem pairUp_blockHalves {blocks : List (Nat × Nat)}
    (fit : ∀ block ∈ blocks, block.1 < 2 ^ 16 ∧ block.2 < 2 ^ 16) :
    pairUp (blockHalves blocks) = blocks := by
  induction blocks with
  | nil => rfl
  | cons block rest inductionHypothesis =>
      have here := fit block List.mem_cons_self
      have others := inductionHypothesis fun other member =>
        fit other (List.mem_cons_of_mem block member)
      unfold blockHalves at others ⊢
      rw [List.flatMap_cons, List.cons_append, List.cons_append, List.nil_append, pairUp, others,
        BitVec.toNat_ofNat, BitVec.toNat_ofNat, Nat.mod_eq_of_lt here.1, Nat.mod_eq_of_lt here.2]

/-- The fields in front of the blocks are read back. -/
theorem readFmdHead_fmdBytes {md : FileMetaData FileName} (fits : FitsWire md) {pkt : SPacket}
    (unread : Unread pkt (fmdBytes md)) :
    ∃ after, readFmdHead pkt = some
        ({ fname := md.fname
           fdesc := md.fdesc
           fsize := md.fsize
           nblocks := BitVec.ofNat 32 md.blocks.length }, after) ∧
      Unread after (blockBytes md.blocks) := by
  obtain ⟨named, readName, unreadName⟩ := unread.readString fits.fname
  obtain ⟨withId, readId, unreadId⟩ := unreadName.readUint
  obtain ⟨withVersion, readVersion, unreadVersion⟩ := unreadId.readUint
  obtain ⟨withHigh, readHigh, unreadHigh⟩ := unreadVersion.readUint
  obtain ⟨withLow, readLow, unreadLow⟩ := unreadHigh.readUint
  obtain ⟨after, readNum, unreadNum⟩ := unreadLow.readUint
  refine ⟨after, ?_, unreadNum⟩
  unfold readFmdHead
  rw [readName]
  dsimp only [bind, Option.bind]
  rw [readId]
  dsimp only [bind, Option.bind]
  rw [readVersion]
  dsimp only [bind, Option.bind]
  rw [readHigh]
  dsimp only [bind, Option.bind]
  rw [readLow]
  dsimp only [bind, Option.bind]
  rw [readNum]
  dsimp only [bind, Option.bind]
  simp only [BitVec.toNat_ofNat, Nat.mod_eq_of_lt fits.fileId, Nat.mod_eq_of_lt fits.fileVersion,
    Nat.mod_eq_of_lt fits.high, Nat.mod_eq_of_lt fits.low]
  rfl

/-- What is read from a record that fits the wire. -/
theorem sCorePktToFmd_eq {md : FileMetaData FileName} (fits : FitsWire md) {head : List UInt8}
    (twelve : head.length = 12) (abi : Abi) (allocates : Nat → Bool) :
    sCorePktToFmd abi allocates (packetOf (head ++ fmdBytes md)) =
      (sFileMetaDataCreate abi allocates (BitVec.ofNat 32 md.blocks.length)).map fun allocated =>
        { stored := some { allocated := allocated, halves := blockHalves md.blocks }
          md := some md } := by
  have start : sPacketSeek (packetOf (head ++ fmdBytes md)) 0 = packetOf (head ++ fmdBytes md) := by
    unfold sPacketSeek
    split
    · rfl
    · rfl
  obtain ⟨blocks, readHead, unread⟩ := readFmdHead_fmdBytes fits
    (unread_packetOf (fmdBytes md) twelve)
  rw [blockBytes_eq, ← List.append_nil (List.flatMap _ _)] at unread
  obtain ⟨after, readBlocks, _⟩ := readMany_written
    (fun _ _ _ halves => halves.readUshort) (blockHalves md.blocks) blocks [] unread
  rw [blockHalves_length] at readBlocks
  have count : 2 * (BitVec.ofNat 32 md.blocks.length).toNat = 2 * md.blocks.length := by
    rw [BitVec.toNat_ofNat, Nat.mod_eq_of_lt fits.nblocks]
  unfold sCorePktToFmd
  rw [start, readHead]
  dsimp only
  rw [count, readBlocks, pairUp_blockHalves fits.blocks]
  rfl

/-- **Round trip.**  A record that fits the wire is read back from its bytes, if
there is memory for it. -/
theorem sCorePktToFmd_fmdBytes {md : FileMetaData FileName} (fits : FitsWire md)
    {head : List UInt8} (twelve : head.length = 12) {abi : Abi} {allocates : Nat → Bool}
    {allocated : Nat}
    (enough : sFileMetaDataCreate abi allocates (BitVec.ofNat 32 md.blocks.length) =
      some allocated) :
    (sCorePktToFmd abi allocates (packetOf (head ++ fmdBytes md))).bind FmdRead.md = some md := by
  rw [sCorePktToFmd_eq fits twelve, enough]
  rfl

end SimpleDfs.Wire
