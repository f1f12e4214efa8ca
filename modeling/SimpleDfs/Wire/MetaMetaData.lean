import SimpleDfs.Wire.Counts

/-!
Contract: file metadata and meta-meta-data through the wire (`core/s_core_pkt.c`,
`core/s_core_param.c`).

Owns: the packet of a `struct s_file_meta_meta_data`, the record read back from
it with the memory its servers are written to, and for which records of either
kind the one that is read back is the one that was sent.

Does not own: who sends such packets.

A packet goes through the framing of the receiver, which puts its position at
the start: `s_core_pkt_to_fmmd` does not do so itself.
-/

set_option autoImplicit false

namespace SimpleDfs.Wire

open SimpleDfs.Library
open SimpleDfs.Net
open SimpleDfs.Mserv

/-- `S_PKT_TYPE_CREATE_META_META_DATA`. -/
def sPktTypeCreateMetaMetaData : BitVec 32 := 10

/-! ## Writing -/

/-- `sz` of `s_core_pkt_from_fmmd`: four bytes for a server, which is written
with two. -/
def fmmdSize (mmd : FileMetaMetaData FileName) : Nat :=
  2 + mmd.fname.length + 4 + 4 + 4 + 4 * mmd.mservs.length

/-- One turn of the loop of `s_core_pkt_from_fmmd`. -/
def writeMserv (pkt : SPacket) (mserv : Nat) : SPacket :=
  (sPacketWriteUshort pkt (BitVec.ofNat 16 mserv)).getD pkt

/-- `s_core_pkt_from_fmmd`, which does not look at the results of its writes;
`none` is the null packet, which it writes to all the same.  A size that is no
`int` counts as too large, too: computing it is undefined. -/
def sCorePktFromFmmd (junk : Nat → UInt8) (mmd : FileMetaMetaData FileName) : Option SPacket :=
  let sz := fmmdSize mmd
  (sPacketEasy sPktTypeCreateMetaMetaData sz (packetMemory junk sz)).map fun pkt =>
    let pkt := (sPacketWriteString pkt mmd.fname).getD pkt
    let pkt := (sPacketWriteUint pkt (BitVec.ofNat 32 mmd.fdesc.fileId)).getD pkt
    let pkt := (sPacketWriteUint pkt (BitVec.ofNat 32 mmd.fdesc.fileVersion)).getD pkt
    let pkt := (sPacketWriteUint pkt (BitVec.ofNat 32 mmd.mservs.length)).getD pkt
    mmd.mservs.foldl writeMserv pkt

/-- The half words of the servers. -/
def mservHalves (mservs : List Nat) : List (BitVec 16) :=
  mservs.map (BitVec.ofNat 16)

/-- What is written of a record; the flags are not. -/
def fmmdBytes (mmd : FileMetaMetaData FileName) : List UInt8 :=
  shortBytes (BitVec.ofNat 16 mmd.fname.length) ++ (mmd.fname ++
    (wordBytes (BitVec.ofNat 32 mmd.fdesc.fileId) ++
      (wordBytes (BitVec.ofNat 32 mmd.fdesc.fileVersion) ++
        (wordBytes (BitVec.ofNat 32 mmd.mservs.length) ++
          (mservHalves mmd.mservs).flatMap shortBytes))))

theorem flatMap_shortBytes_length (halves : List (BitVec 16)) :
    (halves.flatMap shortBytes).length = 2 * halves.length := by
  induction halves with
  | nil => rfl
  | cons half rest inductionHypothesis =>
      rw [List.flatMap_cons, List.length_append, inductionHypothesis, shortBytes_length,
        List.length_cons]
      omega

theorem fmmdBytes_length (mmd : FileMetaMetaData FileName) :
    (fmmdBytes mmd).length + 2 * mmd.mservs.length = fmmdSize mmd := by
  unfold fmmdBytes fmmdSize mservHalves
  simp only [List.length_append, shortBytes_length, wordBytes_length, flatMap_shortBytes_length,
    List.length_map]
  omega

/-- The loop writes all servers. -/
theorem filled_writeMservs {head : List UInt8} (mservs : List Nat) :
    ∀ {pkt : SPacket} {body : List UInt8} {room : Nat}, Filled pkt head body room →
      2 * mservs.length ≤ room →
      Filled (mservs.foldl writeMserv pkt) head
        (body ++ (mservHalves mservs).flatMap shortBytes) (room - 2 * mservs.length) := by
  induction mservs with
  | nil =>
      intro pkt body room filled _
      show Filled pkt head (body ++ []) room
      rw [List.append_nil]
      exact filled
  | cons mserv rest inductionHypothesis =>
      intro pkt body room filled fits
      rw [List.length_cons] at fits ⊢
      have first := filled_writeUshort filled (BitVec.ofNat 16 mserv) (by omega)
      have all := inductionHypothesis first (by omega)
      have left : room - 2 * (rest.length + 1) = room - 2 - 2 * rest.length := by omega
      rw [left]
      show Filled _ head (body ++ (shortBytes (BitVec.ofNat 16 mserv) ++
        (mservHalves rest).flatMap shortBytes)) _
      rw [← List.append_assoc]
      exact all

/-- The packet of a record whose name is no longer than a string may be holds
its bytes, and two more for each server. -/
theorem filled_sCorePktFromFmmd (junk : Nat → UInt8) {mmd : FileMetaMetaData FileName}
    (short : mmd.fname.length < sPktStringMaxLen) (small : (fmmdSize mmd : Int) ≤ sPktMaxSz) :
    ∃ pkt req, sCorePktFromFmmd junk mmd = some pkt ∧ req.length = 4 ∧
      Filled pkt (wordBytes (BitVec.ofNat 32 (fmmdSize mmd + 12)) ++
        (wordBytes sPktTypeCreateMetaMetaData ++ req)) (fmmdBytes mmd) (2 * mmd.mservs.length) := by
  obtain ⟨fresh, code, req, created, fourCode, fourReq, filled⟩ := filled_sPacketCreate _ junk small
  have total : fmmdSize mmd = 2 + mmd.fname.length + 4 + 4 + 4 + 4 * mmd.mservs.length := rfl
  have coded := filled.setHead fourCode sPktTypeCreateMetaMetaData
  obtain ⟨named, wroteName, filledName⟩ := coded.writeString short (by omega)
  have filledId := filled_writeUint filledName (BitVec.ofNat 32 mmd.fdesc.fileId) (by omega)
  have filledVersion :=
    filled_writeUint filledId (BitVec.ofNat 32 mmd.fdesc.fileVersion) (by omega)
  have filledNum := filled_writeUint filledVersion (BitVec.ofNat 32 mmd.mservs.length) (by omega)
  have filledAll := filled_writeMservs mmd.mservs filledNum (by omega)
  have isPacket : sPacketWriteString (sPacketSetFun fresh sPktTypeCreateMetaMetaData) mmd.fname =
      some named := wroteName
  have bytes : [] ++ (shortBytes (BitVec.ofNat 16 mmd.fname.length) ++ mmd.fname) ++
      wordBytes (BitVec.ofNat 32 mmd.fdesc.fileId) ++
      wordBytes (BitVec.ofNat 32 mmd.fdesc.fileVersion) ++
      wordBytes (BitVec.ofNat 32 mmd.mservs.length) ++
      (mservHalves mmd.mservs).flatMap shortBytes = fmmdBytes mmd := by
    unfold fmmdBytes
    simp only [List.append_assoc, List.nil_append]
  have left : fmmdSize mmd - (2 + mmd.fname.length) - 4 - 4 - 4 - 2 * mmd.mservs.length =
      2 * mmd.mservs.length := by omega
  rw [bytes, left] at filledAll
  refine ⟨_, req, ?_, fourReq, filledAll⟩
  unfold sCorePktFromFmmd sPacketEasy
  simp only [created, Option.map_some, isPacket, Option.getD_some]

/-! ## Reading -/

/-- Where `mservs` starts in `struct s_file_meta_meta_data`: behind a list link, a
number, two pointers, the descriptor, the flags and a number. -/
def mservsOffset (abi : Abi) : Nat :=
  5 * abi.pointerSize + 16

/-- `sizeof(struct s_file_meta_meta_data)`: one server, and up to a multiple of
the size of a pointer. -/
def sizeofFileMetaMetaData : Abi → Nat
  | .ilp32 => 40
  | .lp64 => 64

/-- The memory of `s_file_meta_meta_data_create`. -/
def sFileMetaMetaDataCreate (abi : Abi) (allocates : Nat → Bool) (nmserv : Int) : Option Nat :=
  sMalloc allocates (BitVec.ofNat 32 (sizeofFileMetaMetaData abi) + 2 * BitVec.ofInt 32 nmserv)

/-- The fields in front of the servers. -/
structure FmmdHead where
  fname : FileName
  fdesc : FileDesc
  nmserv : Int

/-- The reads of `s_core_pkt_to_fmmd` before the record is created. -/
def readFmmdHead (pkt : SPacket) : Option (FmmdHead × SPacket) := do
  let (fname, pkt) ← sPacketReadString pkt
  let (fileId, pkt) ← sPacketReadUint pkt
  let (fileVersion, pkt) ← sPacketReadUint pkt
  let (nmserv, pkt) ← sPacketReadInt pkt
  return ({ fname := fname
            fdesc := { fileId := fileId.toNat, fileVersion := fileVersion.toNat }
            nmserv := nmserv }, pkt)

/-- What is stored in a record: the bytes allocated for it and the half words
written from `mservs` on, in order. -/
structure StoredMservs where
  allocated : Nat
  halves : List (BitVec 16)

/-- The half words lie in the bytes allocated. -/
def StoredMservs.Inside (abi : Abi) (stored : StoredMservs) : Prop :=
  ∀ index, index < stored.halves.length → mservsOffset abi + 2 * (index + 1) ≤ stored.allocated

/-- What `s_core_pkt_to_fmmd` does: the record in memory, if it is created, and
the one it returns. -/
structure FmmdRead where
  stored : Option StoredMservs
  mmd : Option (FileMetaMetaData FileName)

/-- `s_core_pkt_to_fmmd`; `none` is a crash for want of memory.  The flags are
what the memory of the record holds. -/
def sCorePktToFmmd (abi : Abi) (allocates : Nat → Bool) (freshFlags : Nat) (pkt : SPacket) :
    Option FmmdRead :=
  match readFmmdHead pkt with
  | none => some { stored := none, mmd := none }
  | some (head, pkt) =>
      (sFileMetaMetaDataCreate abi allocates head.nmserv).map fun allocated =>
        let (halves, left) := readMany sPacketReadUshort head.nmserv.toNat pkt
        { stored := some { allocated := allocated, halves := halves }
          mmd := left.map fun _ =>
            { fname := head.fname
              fdesc := head.fdesc
              flags := freshFlags
              mservs := halves.map BitVec.toNat } }

/-- The numbers of a record fit the fields they are written to. -/
structure MmdFitsWire (mmd : FileMetaMetaData FileName) : Prop where
  fname : mmd.fname.length < sPktStringMaxLen
  fileId : mmd.fdesc.fileId < 2 ^ 32
  fileVersion : mmd.fdesc.fileVersion < 2 ^ 32
  nmserv : mmd.mservs.length < 2 ^ 31
  mservs : ∀ mserv ∈ mmd.mservs, mserv < 2 ^ 16

theorem toNat_mservHalves {mservs : List Nat} (fit : ∀ mserv ∈ mservs, mserv < 2 ^ 16) :
    (mservHalves mservs).map BitVec.toNat = mservs := by
  unfold mservHalves
  rw [List.map_map]
  exact (List.map_congr_left fun mserv member => by
    rw [Function.comp_apply, BitVec.toNat_ofNat, Nat.mod_eq_of_lt (fit mserv member)]).trans
      (List.map_id' mservs)

/-- The fields in front of the servers are read back. -/
theorem readFmmdHead_fmmdBytes {mmd : FileMetaMetaData FileName} (fits : MmdFitsWire mmd)
    {pkt : SPacket} {unset : List UInt8} (unread : Unread pkt (fmmdBytes mmd ++ unset)) :
    ∃ after, readFmmdHead pkt = some
        ({ fname := mmd.fname, fdesc := mmd.fdesc, nmserv := mmd.mservs.length }, after) ∧
      Unread after ((mservHalves mmd.mservs).flatMap shortBytes ++ unset) := by
  unfold fmmdBytes at unread
  simp only [List.append_assoc] at unread
  obtain ⟨named, readName, unreadName⟩ := unread.readString fits.fname
  obtain ⟨withId, readId, unreadId⟩ := unreadName.readUint
  obtain ⟨withVersion, readVersion, unreadVersion⟩ := unreadId.readUint
  obtain ⟨after, readNum, unreadNum⟩ := unreadVersion.readUint
  have count : (BitVec.ofNat 32 mmd.mservs.length).toInt = mmd.mservs.length := by
    have small := fits.nmserv
    rw [BitVec.toInt_eq_toNat_of_lt (by rw [BitVec.toNat_ofNat]; omega), BitVec.toNat_ofNat]
    omega
  refine ⟨after, ?_, unreadNum⟩
  unfold readFmmdHead sPacketReadInt
  rw [readName]
  dsimp only [bind, Option.bind]
  rw [readId]
  dsimp only [bind, Option.bind]
  rw [readVersion]
  dsimp only [bind, Option.bind]
  rw [readNum]
  simp only [Option.map_some, BitVec.toNat_ofNat, Nat.mod_eq_of_lt fits.fileId,
    Nat.mod_eq_of_lt fits.fileVersion, count]
  rfl

/-- What is read from a record that fits the wire: all but its flags. -/
theorem sCorePktToFmmd_fmmdBytes {mmd : FileMetaMetaData FileName} (fits : MmdFitsWire mmd)
    {head unset : List UInt8} (twelve : head.length = 12) (abi : Abi) (allocates : Nat → Bool)
    (freshFlags : Nat) :
    sCorePktToFmmd abi allocates freshFlags (packetOf (head ++ (fmmdBytes mmd ++ unset))) =
      (sFileMetaMetaDataCreate abi allocates mmd.mservs.length).map fun allocated =>
        { stored := some { allocated := allocated, halves := mservHalves mmd.mservs }
          mmd := some { mmd with flags := freshFlags } } := by
  obtain ⟨mservs, readHead, unread⟩ := readFmmdHead_fmmdBytes fits
    (unread_packetOf (fmmdBytes mmd ++ unset) twelve)
  obtain ⟨after, readMservs, _⟩ := readMany_written
    (fun _ _ _ halves => halves.readUshort) (mservHalves mmd.mservs) mservs unset unread
  have count : (mservHalves mmd.mservs).length = mmd.mservs.length := List.length_map _
  rw [count] at readMservs
  unfold sCorePktToFmmd
  rw [readHead]
  dsimp only
  rw [Int.toNat_natCast, readMservs]
  simp only [Option.map_some, toNat_mservHalves fits.mservs]

/-! ## Through the wire -/

section

variable (abi : Abi) (allocates : Nat → Bool) (junk : Nat → UInt8)

/-- File metadata at the receiver; `none` is a crash of either side. -/
def fmdThroughWire (md : FileMetaData FileName) : Option FmdRead := do
  let pkt ← sCorePktFromFmd junk md
  let received ← (sPacketCreateFrom (pkt.data.take pkt.size.toNat)).join
  sCorePktToFmd abi allocates received

/-- Meta-meta-data at the receiver. -/
def fmmdThroughWire (freshFlags : Nat) (mmd : FileMetaMetaData FileName) : Option FmmdRead := do
  let pkt ← sCorePktFromFmmd junk mmd
  let received ← (sPacketCreateFrom (pkt.data.take pkt.size.toNat)).join
  sCorePktToFmmd abi allocates freshFlags received

theorem sCorePktFromFmd_isSome (md : FileMetaData FileName) :
    (sCorePktFromFmd junk md).isSome ↔ (fmdSize md : Int) ≤ sPktMaxSz := by
  unfold sCorePktFromFmd sPacketEasy sPacketCreate
  dsimp only
  split
  next large => exact iff_of_false (by simp) (by omega)
  next small => exact iff_of_true (by simp) (by omega)

theorem fmdThroughWire_eq {md : FileMetaData FileName} (fits : FitsWire md) :
    fmdThroughWire abi allocates junk md =
      if (fmdSize md : Int) ≤ sPktMaxSz then
        (sFileMetaDataCreate abi allocates (BitVec.ofNat 32 md.blocks.length)).map fun allocated =>
          { stored := some { allocated := allocated, halves := blockHalves md.blocks }
            md := some md }
      else none := by
  have made := sCorePktFromFmd_isSome junk md
  unfold fmdThroughWire
  cases packet : sCorePktFromFmd junk md with
  | none =>
      rw [packet] at made
      rw [if_neg (made.not.mp (by decide))]
      rfl
  | some pkt =>
      obtain ⟨small, req, fourReq, filled⟩ := filled_sCorePktFromFmd fits.fname packet
      rw [← fmdBytes_length, ← Nat.add_zero (fmdBytes md).length] at filled small
      obtain ⟨unset, none, framed⟩ := filled.framed small
      rw [if_pos (by rw [← fmdBytes_length]; exact small)]
      rw [List.length_eq_zero_iff.mp none, List.append_nil] at framed
      show ((sPacketCreateFrom _).join).bind _ = _
      rw [framed]
      exact sCorePktToFmd_eq fits filled.headSize abi allocates

theorem fmmdThroughWire_eq (freshFlags : Nat) {mmd : FileMetaMetaData FileName}
    (fits : MmdFitsWire mmd) :
    fmmdThroughWire abi allocates junk freshFlags mmd =
      if (fmmdSize mmd : Int) ≤ sPktMaxSz then
        (sFileMetaMetaDataCreate abi allocates mmd.mservs.length).map fun allocated =>
          { stored := some { allocated := allocated, halves := mservHalves mmd.mservs }
            mmd := some { mmd with flags := freshFlags } }
      else none := by
  unfold fmmdThroughWire
  split
  next small =>
    obtain ⟨pkt, req, packet, fourReq, filled⟩ :=
      filled_sCorePktFromFmmd junk fits.fname small
    rw [← fmmdBytes_length] at filled small
    obtain ⟨unset, _, framed⟩ := filled.framed small
    rw [packet]
    show ((sPacketCreateFrom _).join).bind _ = _
    rw [framed]
    exact sCorePktToFmmd_fmmdBytes fits filled.headSize abi allocates freshFlags
  next large =>
    have none : sPacketCreate (fmmdSize mmd) (packetMemory junk (fmmdSize mmd)) = none :=
      if_pos (by omega)
    unfold sCorePktFromFmmd sPacketEasy
    dsimp only
    rw [none]
    rfl

/-- The record that is returned is the one that was sent. -/
def FmdReturned (md : FileMetaData FileName) : Prop :=
  ∃ stored, fmdThroughWire abi allocates junk md = some { stored := stored, md := some md }

/-- It is, and its blocks lie in the memory allocated for them. -/
def FmdSurvives (md : FileMetaData FileName) : Prop :=
  ∃ stored, fmdThroughWire abi allocates junk md =
    some { stored := some stored, md := some md } ∧ stored.Inside abi

def FmmdSurvives (freshFlags : Nat) (mmd : FileMetaMetaData FileName) : Prop :=
  ∃ stored, fmmdThroughWire abi allocates junk freshFlags mmd =
    some { stored := some stored, mmd := some mmd } ∧ stored.Inside abi

/-- There is memory for a record of so many blocks. -/
def FmdMemory (nblocks : Nat) : Prop :=
  (sFileMetaDataCreate abi allocates (BitVec.ofNat 32 nblocks)).isSome

/-- There is memory for a record of so many servers. -/
def FmmdMemory (nmserv : Nat) : Prop :=
  (sFileMetaMetaDataCreate abi allocates nmserv).isSome

theorem fmdReturned_iff {md : FileMetaData FileName} (fits : FitsWire md) :
    FmdReturned abi allocates junk md ↔
      (fmdSize md : Int) ≤ sPktMaxSz ∧ FmdMemory abi allocates md.blocks.length := by
  unfold FmdReturned FmdMemory
  rw [fmdThroughWire_eq abi allocates junk fits]
  split
  next small =>
    cases sFileMetaDataCreate abi allocates (BitVec.ofNat 32 md.blocks.length) with
    | none => simp
    | some allocated => simp [small]
  next large => simp [large]

/-- The blocks lie in the memory if there are no more than two. -/
theorem fmdSurvives_iff {md : FileMetaData FileName} (fits : FitsWire md) :
    FmdSurvives abi allocates junk md ↔
      md.blocks.length ≤ 2 ∧ FmdMemory abi allocates md.blocks.length := by
  have fname := fits.fname
  have total : fmdSize md =
      2 + md.fname.length + 4 + 4 + 4 + 4 + 4 + 2 * 2 * md.blocks.length := rfl
  unfold sPktStringMaxLen at fname
  unfold FmdSurvives FmdMemory
  rw [fmdThroughWire_eq abi allocates junk fits]
  unfold sPktMaxSz
  cases created : sFileMetaDataCreate abi allocates (BitVec.ofNat 32 md.blocks.length) with
  | none => simp
  | some allocated =>
      have inside := inside_iff_room created (blockHalves md.blocks)
      have count := fits.nblocks
      have least := sizeofFileMetaData_le abi
      unfold roomForHalves at inside
      rw [blockHalves_length, BitVec.toNat_ofNat, Nat.mod_eq_of_lt count] at inside
      constructor
      · intro ⟨stored, through, room⟩
        split at through
        next small =>
          simp only [Option.map_some, Option.some.injEq, FmdRead.mk.injEq, and_true] at through
          rw [← through, inside] at room
          dsimp only at room
          refine ⟨?_, rfl⟩
          split at room
          · omega
          · omega
        next large => cases through
      · intro ⟨two, _⟩
        refine ⟨_, by rw [if_pos (by omega)]; rfl, inside.mpr ?_⟩
        dsimp only
        rw [if_pos (by omega)]
        omega

theorem sizeofFileMetaMetaData_bounds (abi : Abi) :
    mservsOffset abi + 2 ≤ sizeofFileMetaMetaData abi ∧ sizeofFileMetaMetaData abi ≤ 64 := by
  cases abi with
  | ilp32 => decide
  | lp64 => decide

/-- Two bytes are allocated for each server, and some for the first. -/
theorem mservs_inside {abi : Abi} {allocates : Nat → Bool} {mservs : List Nat} {allocated : Nat}
    (few : mservs.length < 2 ^ 30)
    (created : sFileMetaMetaDataCreate abi allocates mservs.length = some allocated) :
    ({ allocated := allocated, halves := mservHalves mservs } : StoredMservs).Inside abi := by
  have fixed := sizeofFileMetaMetaData_bounds abi
  have bytes : allocated = sizeofFileMetaMetaData abi + 2 * mservs.length := by
    unfold sFileMetaMetaDataCreate sMalloc at created
    dsimp only at created
    split at created
    · have sum := (Option.some.inj created).symm
      have two : (2 : BitVec 32).toNat = 2 := rfl
      have four : (4 : BitVec 32).toNat = 4 := rfl
      rw [sum, BitVec.ofInt_natCast]
      simp only [BitVec.toNat_add, BitVec.toNat_mul, BitVec.toNat_ofNat, two, four]
      omega
    · nomatch created
  intro index stored
  have count : index < mservs.length := stored.trans_eq (List.length_map _)
  dsimp only
  omega

/-- The servers always lie in the memory, but the flags are not sent. -/
theorem fmmdSurvives_iff (freshFlags : Nat) {mmd : FileMetaMetaData FileName}
    (fits : MmdFitsWire mmd) :
    FmmdSurvives abi allocates junk freshFlags mmd ↔
      (fmmdSize mmd : Int) ≤ sPktMaxSz ∧ mmd.flags = freshFlags ∧
        FmmdMemory abi allocates mmd.mservs.length := by
  have total : fmmdSize mmd = 2 + mmd.fname.length + 4 + 4 + 4 + 4 * mmd.mservs.length := rfl
  unfold FmmdSurvives FmmdMemory
  rw [fmmdThroughWire_eq abi allocates junk freshFlags fits]
  split
  next small =>
    cases created : sFileMetaMetaDataCreate abi allocates mmd.mservs.length with
    | none => simp
    | some allocated =>
        have flagged : { mmd with flags := freshFlags } = mmd ↔ mmd.flags = freshFlags := by
          constructor
          · intro same
            exact (congrArg FileMetaMetaData.flags same).symm
          · intro same
            rw [← same]
        have few : mmd.mservs.length < 2 ^ 30 := by
          unfold sPktMaxSz at small
          omega
        have inside := mservs_inside few created
        simp [small, flagged, inside]
  next large => simp [large]

end

/-- **Metadata survives the wire** in these cases: file metadata is returned if
its packet is not too large, and kept in its memory if it has no more than two
blocks; meta-meta-data survives if the flags it should have happen to be in the
memory of the record. -/
theorem metadata_survives_iff (abi : Abi) (allocates : Nat → Bool) (junk : Nat → UInt8)
    (freshFlags : Nat) {md : FileMetaData FileName} (fits : FitsWire md)
    {mmd : FileMetaMetaData FileName} (mmdFits : MmdFitsWire mmd) :
    (FmdReturned abi allocates junk md ↔
      (fmdSize md : Int) ≤ sPktMaxSz ∧ FmdMemory abi allocates md.blocks.length) ∧
    (FmdSurvives abi allocates junk md ↔
      md.blocks.length ≤ 2 ∧ FmdMemory abi allocates md.blocks.length) ∧
    (FmmdSurvives abi allocates junk freshFlags mmd ↔
      (fmmdSize mmd : Int) ≤ sPktMaxSz ∧ mmd.flags = freshFlags ∧
        FmmdMemory abi allocates mmd.mservs.length) :=
  ⟨fmdReturned_iff abi allocates junk fits, fmdSurvives_iff abi allocates junk fits,
    fmmdSurvives_iff abi allocates junk freshFlags mmdFits⟩

/-- A file of one byte, and the servers that know it. -/
theorem metadata_survives_iff_small :
    (FmdReturned .lp64 (fun _ => true) (fun _ => 0) ⟨[97], ⟨1, 1⟩, ⟨1, 0⟩, [(1, 2)]⟩ ↔
      (fmdSize ⟨[97], ⟨1, 1⟩, ⟨1, 0⟩, [(1, 2)]⟩ : Int) ≤ sPktMaxSz ∧
        FmdMemory .lp64 (fun _ => true) 1) ∧
    (FmdSurvives .lp64 (fun _ => true) (fun _ => 0) ⟨[97], ⟨1, 1⟩, ⟨1, 0⟩, [(1, 2)]⟩ ↔
      1 ≤ 2 ∧ FmdMemory .lp64 (fun _ => true) 1) ∧
    (FmmdSurvives .lp64 (fun _ => true) (fun _ => 0) 0 ⟨[97], ⟨1, 1⟩, 3, [1, 2]⟩ ↔
      (fmmdSize ⟨[97], ⟨1, 1⟩, 3, [1, 2]⟩ : Int) ≤ sPktMaxSz ∧ 3 = 0 ∧
        FmmdMemory .lp64 (fun _ => true) 2) :=
  @metadata_survives_iff .lp64 (fun _ => true) (fun _ => 0) 0 ⟨[97], ⟨1, 1⟩, ⟨1, 0⟩, [(1, 2)]⟩
    ⟨by decide, by decide, by decide, by decide, by decide, by decide, by decide⟩
    ⟨[97], ⟨1, 1⟩, 3, [1, 2]⟩ ⟨by decide, by decide, by decide, by decide, by decide⟩

/-- `S_CORE_BLOCK_MAX_NUM`. -/
def sCoreBlockMaxNum : Nat := 1048576

/-- A file with so many blocks, all on the same two servers. -/
def alikeBlocks (nblocks : Nat) : FileMetaData FileName :=
  ⟨[97], ⟨1, 1⟩, ⟨0, 2 ^ 10⟩, List.replicate nblocks (1, 2)⟩

theorem alikeBlocks_length (nblocks : Nat) : (alikeBlocks nblocks).blocks.length = nblocks :=
  List.length_replicate

theorem fitsWire_alikeBlocks {nblocks : Nat} (few : nblocks < 2 ^ 31) :
    FitsWire (alikeBlocks nblocks) where
  fname := show 1 < sPktStringMaxLen by decide
  fileId := show 1 < 2 ^ 32 by decide
  fileVersion := show 1 < 2 ^ 32 by decide
  high := show 2 ^ 10 < 2 ^ 32 by decide
  low := show 0 < 2 ^ 32 by decide
  nblocks := by
    rw [alikeBlocks_length]
    omega
  blocks := by
    intro block member
    rw [(List.mem_replicate.mp member).2]
    decide

theorem fmdSize_alikeBlocks (nblocks : Nat) : fmdSize (alikeBlocks nblocks) = 23 + 4 * nblocks := by
  unfold fmdSize
  rw [alikeBlocks_length]
  rfl

/-- The largest file: its packet is too large by the fields in front of the
blocks. -/
theorem not_always_metadata_survives :
    ¬ ∀ (abi : Abi) (allocates : Nat → Bool) (junk : Nat → UInt8) (freshFlags : Nat)
        (md : FileMetaData FileName) (mmd : FileMetaMetaData FileName),
        (∀ size, allocates size = true) → FitsWire md → md.blocks.length ≤ sCoreBlockMaxNum →
        MmdFitsWire mmd →
        FmdReturned abi allocates junk md ∧ FmmdSurvives abi allocates junk freshFlags mmd := by
  intro always
  have fits : FitsWire (alikeBlocks sCoreBlockMaxNum) := fitsWire_alikeBlocks (by decide)
  have both := always .lp64 (fun _ => true) (fun _ => 0) 0 (alikeBlocks sCoreBlockMaxNum)
    ⟨[97], ⟨1, 1⟩, 0, [1, 2]⟩ (fun _ => rfl) fits (alikeBlocks_length _).le
    ⟨by decide, by decide, by decide, by decide, by decide⟩
  have small := ((fmdReturned_iff _ _ _ fits).mp both.1).1
  rw [fmdSize_alikeBlocks] at small
  revert small
  decide

end SimpleDfs.Wire
