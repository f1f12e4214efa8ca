import SimpleDfs.Wire.FileMetaData

/-!
Contract: counts and indices that handlers take from a packet
(`ireceive_request` and `ireceive_add_accept` of `core/s_core_paxos.c`,
`s_core_dserv_lock` of `core/s_core_dserv.c`, `s_core_pkt_to_fmd` of
`core/s_core_pkt.c`, `icreate_fmd` of `core/s_core_create_mserv.c`).

Owns: the reads of these handlers, the array elements they touch, and for which
packets all of them lie in their arrays.

Does not own: what the handlers do with the values.

None of the counts is compared with the size of the array.
-/

set_option autoImplicit false

namespace SimpleDfs.Wire

open SimpleDfs.Library
open SimpleDfs.Net

/-! ## The members of a Paxos version -/

/-- `S_PAXOS_MAX_SERV`, the length of `servs`. -/
def sPaxosMaxServ : Nat := 16

/-- The fields of a PAXOS_REQUEST in front of the members. -/
structure RequestHead where
  topic : List UInt8
  idX : Int
  idY : Int
  value : Int
  type : Int
  theServ : Int
  version : Int
  nserv : Int

/-- The reads of `ireceive_request` before its loop. -/
def readRequestHead (pkt : SPacket) : Option (RequestHead × SPacket) := do
  let (topic, pkt) ← sPacketReadString pkt
  let (idX, pkt) ← sPacketReadInt pkt
  let (idY, pkt) ← sPacketReadInt pkt
  let (value, pkt) ← sPacketReadInt pkt
  let (type, pkt) ← sPacketReadInt pkt
  let (theServ, pkt) ← sPacketReadInt pkt
  let (version, pkt) ← sPacketReadInt pkt
  let (nserv, pkt) ← sPacketReadInt pkt
  return ({ topic := topic, idX := idX, idY := idY, value := value, type := type
            theServ := theServ, version := version, nserv := nserv }, pkt)

/-- What `ireceive_request` stores from `p->version.servs[0]` on. -/
def ireceiveRequestServs (pkt : SPacket) : List Int :=
  match readRequestHead pkt with
  | none => []
  | some (head, pkt) => (readMany sPacketReadInt head.nserv.toNat pkt).1

/-- The fields of a PAXOS_ADD_ACCEPT in front of the members. -/
structure AddAcceptHead where
  version : Int
  nserv : Int

/-- The reads of `ireceive_add_accept` before its first loop. -/
def readAddAcceptHead (pkt : SPacket) : Option (AddAcceptHead × SPacket) := do
  let (version, pkt) ← sPacketReadInt pkt
  let (nserv, pkt) ← sPacketReadInt pkt
  return ({ version := version, nserv := nserv }, pkt)

/-- What `ireceive_add_accept` stores from `paxos->version.servs[0]` on. -/
def ireceiveAddAcceptServs (pkt : SPacket) : List Int :=
  match readAddAcceptHead pkt with
  | none => []
  | some (head, pkt) => (readMany sPacketReadInt head.nserv.toNat pkt).1

/-- Only elements of `servs` are written. -/
def ServsInside (servs : List Int) : Prop :=
  ∀ index, index < servs.length → index < sPaxosMaxServ

/-- The count is small, or the packet ends before the seventeenth member. -/
def ServsFit (nserv : Int) (pkt : SPacket) : Prop :=
  nserv ≤ sPaxosMaxServ ∨ pkt.left < 4 * (sPaxosMaxServ + 1)

theorem servsInside_iff (nserv : Int) (pkt : SPacket) :
    ServsInside (readMany sPacketReadInt nserv.toNat pkt).1 ↔ ServsFit nserv pkt := by
  have stored := readMany_length fixedWidth_readInt (by decide) nserv.toNat pkt
  unfold ServsInside ServsFit sPaxosMaxServ
  rw [stored]
  constructor
  · intro inside
    have last := inside 16
    omega
  · intro fits index stored
    omega

/-- What a handler stores behind a head it has read. -/
theorem stored_inside_iff {Head : Type} {nserv : Head → Int} {read : Option (Head × SPacket)}
    {servs : List Int} (absent : read = none → servs = [])
    (present : ∀ head rest, read = some (head, rest) →
      servs = (readMany sPacketReadInt (nserv head).toNat rest).1) :
    ServsInside servs ↔ ∀ head rest, read = some (head, rest) → ServsFit (nserv head) rest := by
  cases read with
  | none =>
      rw [absent rfl]
      exact iff_of_true (fun _ stored => nomatch stored) (fun _ _ found => nomatch found)
  | some found =>
      rw [present _ _ rfl, servsInside_iff]
      constructor
      · intro fits head rest same
        cases Option.some.inj same
        exact fits
      · exact fun fits => fits _ _ rfl

theorem request_inside_iff (pkt : SPacket) :
    ServsInside (ireceiveRequestServs pkt) ↔
      ∀ head rest, readRequestHead pkt = some (head, rest) → ServsFit head.nserv rest := by
  apply stored_inside_iff
  · intro none
    unfold ireceiveRequestServs
    rw [none]
  · intro head rest found
    unfold ireceiveRequestServs
    rw [found]

theorem add_accept_inside_iff (pkt : SPacket) :
    ServsInside (ireceiveAddAcceptServs pkt) ↔
      ∀ head rest, readAddAcceptHead pkt = some (head, rest) → ServsFit head.nserv rest := by
  apply stored_inside_iff
  · intro none
    unfold ireceiveAddAcceptServs
    rw [none]
  · intro head rest found
    unfold ireceiveAddAcceptServs
    rw [found]

/-! ## The current server of a chained lock -/

/-- `sizeof(struct s_core_lock)`: a list link, a pointer, an id and four
numbers. -/
def sizeofCoreLock (abi : Abi) : Nat :=
  3 * abi.pointerSize + 24

/-- The memory of `s_core_lock_create`; an element has 16 bytes. -/
def sCoreLockCreate (abi : Abi) (allocates : Nat → Bool) (nserv : Int) : Option Nat :=
  sMalloc allocates (BitVec.ofNat 32 (sizeofCoreLock abi) + 16 * BitVec.ofInt 32 nserv)

/-- The fields of a lock packet in front of the elements. -/
structure LockHead where
  curr : Int
  nserv : Int
  clientId : Int
  idX : Int
  idY : Int

/-- The reads of `s_core_dserv_lock` before the lock is created. -/
def readLockHead (pkt : SPacket) : Option (LockHead × SPacket) := do
  let (curr, pkt) ← sPacketReadInt pkt
  let (nserv, pkt) ← sPacketReadInt pkt
  let (clientId, pkt) ← sPacketReadInt pkt
  let (idX, pkt) ← sPacketReadInt pkt
  let (idY, pkt) ← sPacketReadInt pkt
  return ({ curr := curr, nserv := nserv, clientId := clientId, idX := idX, idY := idY }, pkt)

/-- One turn of the loop of `s_core_dserv_lock`. -/
def readLockElem (pkt : SPacket) : Option ((Int × Int × Int) × SPacket) := do
  let (servId, pkt) ← sPacketReadInt pkt
  let (idX, pkt) ← sPacketReadInt pkt
  let (idY, pkt) ← sPacketReadInt pkt
  return ((servId, idX, idY), pkt)

/-- The fields with which `s_core_dserv_lock` reads `elem[curr]`; `none` if it
leaves before. -/
def sCoreDservLockReads (abi : Abi) (allocates : Nat → Bool) (pkt : SPacket) : Option LockHead := do
  let (head, pkt) ← readLockHead pkt
  let _ ← sCoreLockCreate abi allocates head.nserv
  let _ ← (readMany readLockElem head.nserv.toNat pkt).2
  return head

/-- The element read is one of the lock. -/
def CurrInside (abi : Abi) (allocates : Nat → Bool) (pkt : SPacket) : Prop :=
  ∀ head, sCoreDservLockReads abi allocates pkt = some head →
    0 ≤ head.curr ∧ head.curr < head.nserv

theorem fixedWidth_readLockElem : FixedWidth readLockElem 12 := by
  have absent := fixedWidth_readInt.missing
  have present := fixedWidth_readInt.present
  constructor
  · intro pkt short
    unfold readLockElem
    by_cases first : pkt.pos + (4 : Nat) > pkt.size
    · rw [absent pkt first]
      rfl
    · obtain ⟨servId, readFirst⟩ := present pkt first
      rw [readFirst]
      dsimp only [bind, Option.bind]
      by_cases second : pkt.pos + (4 : Nat) + (4 : Nat) > pkt.size
      · rw [absent _ second]
      · obtain ⟨idX, readSecond⟩ := present { pkt with pos := pkt.pos + (4 : Nat) } second
        rw [readSecond]
        dsimp only
        rw [absent _ (by dsimp only; omega)]
  · intro pkt enough
    obtain ⟨servId, readFirst⟩ := present pkt (by omega)
    obtain ⟨idX, readSecond⟩ := present { pkt with pos := pkt.pos + (4 : Nat) }
      (by dsimp only; omega)
    obtain ⟨idY, readThird⟩ := present { pkt with pos := pkt.pos + (4 : Nat) + (4 : Nat) }
      (by dsimp only; omega)
    refine ⟨(servId, idX, idY), ?_⟩
    unfold readLockElem
    rw [readFirst]
    dsimp only [bind, Option.bind]
    rw [readSecond]
    dsimp only
    rw [readThird]
    have moved : pkt.pos + (4 : Nat) + (4 : Nat) + (4 : Nat) = pkt.pos + (12 : Nat) := by omega
    dsimp only
    rw [moved]
    rfl

/-- The handler gets as far as `elem[curr]` if the packet holds all elements, and
then the index has to be in range. -/
theorem curr_inside_iff (abi : Abi) (allocates : Nat → Bool) (pkt : SPacket) :
    CurrInside abi allocates pkt ↔
      ∀ head rest allocated, readLockHead pkt = some (head, rest) →
        sCoreLockCreate abi allocates head.nserv = some allocated →
        12 * head.nserv ≤ rest.left → 0 ≤ head.curr ∧ head.curr < head.nserv := by
  unfold CurrInside sCoreDservLockReads
  cases read : readLockHead pkt with
  | none => exact iff_of_true (fun _ found => nomatch found) (fun _ _ _ found => nomatch found)
  | some found =>
      obtain ⟨head, rest⟩ := found
      dsimp only [bind, Option.bind]
      cases created : sCoreLockCreate abi allocates head.nserv with
      | none =>
          refine iff_of_true (fun _ found => nomatch found) ?_
          intro other left allocated same memory _
          cases Option.some.inj same
          rw [created] at memory
          nomatch memory
      | some allocated =>
          have whole := readMany_isSome_iff fixedWidth_readLockElem (by decide) head.nserv.toNat rest
          dsimp only
          cases elems : (readMany readLockElem head.nserv.toNat rest).2 with
          | none =>
              rw [elems] at whole
              have short : ¬ head.nserv.toNat * 12 ≤ rest.left := whole.not.mp (by decide)
              refine iff_of_true (fun _ found => nomatch found) ?_
              intro other left _ same _ enough
              cases Option.some.inj same
              exact absurd enough (by omega)
          | some after =>
              rw [elems] at whole
              have enough : head.nserv.toNat * 12 ≤ rest.left := whole.mp rfl
              constructor
              · intro inside other left _ same _ _
                cases Option.some.inj same
                exact inside head rfl
              · intro inside other same
                cases Option.some.inj same
                exact inside head rest allocated rfl created (by omega)

/-! ## The blocks of a file -/

/-- The half words that fit behind `blocks` in the memory for `nblocks` blocks:
two bytes are allocated for each block, four for the first. -/
def roomForHalves (abi : Abi) (nblocks : BitVec 32) : Nat :=
  let count := nblocks.toNat % 2 ^ 31
  if sizeofFileMetaData abi + 4 + 2 * count < 2 ^ 32 then count + 2
  else count + 2 - 2 ^ 31

theorem sizeofFileMetaData_le (abi : Abi) : sizeofFileMetaData abi ≤ 64 := by
  cases abi with
  | ilp32 => decide
  | lp64 => decide

theorem inside_iff_room {abi : Abi} {allocates : Nat → Bool} {nblocks : BitVec 32}
    {allocated : Nat} (created : sFileMetaDataCreate abi allocates nblocks = some allocated)
    (halves : List (BitVec 16)) :
    ({ allocated := allocated, halves := halves } : StoredBlocks).Inside abi ↔
      halves.length ≤ roomForHalves abi nblocks := by
  have bytes : allocated =
      (sizeofFileMetaData abi + 4 + 2 * (nblocks.toNat % 2 ^ 31)) % 2 ^ 32 - 4 := by
    unfold sFileMetaDataCreate sMalloc fileMetaDataSize at created
    dsimp only at created
    split at created
    · have sum := (Option.some.inj created).symm
      rw [sum]
      have two : (2 : BitVec 32).toNat = 2 := rfl
      have four : (4 : BitVec 32).toNat = 4 := rfl
      simp only [BitVec.toNat_add, BitVec.toNat_mul, BitVec.toNat_ofNat, two, four]
      omega
    · nomatch created
  have small : sizeofFileMetaData abi = blocksOffset abi + 4 := rfl
  have least := sizeofFileMetaData_le abi
  have range := nblocks.isLt
  unfold StoredBlocks.Inside roomForHalves
  dsimp only
  constructor
  · intro inside
    have last := inside (halves.length - 1)
    split
    · omega
    · omega
  · intro fits index stored
    split at fits
    · omega
    · omega

/-- The blocks read from a packet stay in the memory of the record. -/
def FmdInside (abi : Abi) (allocates : Nat → Bool) (pkt : SPacket) : Prop :=
  ∀ read stored, sCorePktToFmd abi allocates pkt = some read → read.stored = some stored →
    stored.Inside abi

theorem fmd_inside_iff (abi : Abi) (allocates : Nat → Bool) (pkt : SPacket) :
    FmdInside abi allocates pkt ↔
      ∀ head rest allocated, readFmdHead (sPacketSeek pkt 0) = some (head, rest) →
        sFileMetaDataCreate abi allocates head.nblocks = some allocated →
        2 * head.nblocks.toNat ≤ roomForHalves abi head.nblocks ∨
          rest.left / 2 ≤ roomForHalves abi head.nblocks := by
  unfold FmdInside sCorePktToFmd
  cases isHead : readFmdHead (sPacketSeek pkt 0) with
  | none =>
      refine iff_of_true ?_ (fun _ _ _ found => nomatch found)
      intro read stored result kept
      cases Option.some.inj result
      nomatch kept
  | some found =>
      obtain ⟨head, rest⟩ := found
      have length := readMany_length fixedWidth_readUshort (by decide)
        (2 * head.nblocks.toNat) rest
      dsimp only
      constructor
      · intro inside other left allocated same created
        cases Option.some.inj same
        have fits := (inside_iff_room created _).mp (inside _ _ (by rw [created]; rfl) rfl)
        omega
      · intro fits read stored result kept
        obtain ⟨allocated, created, isRead⟩ := Option.map_eq_some_iff.mp result
        have room := fits head rest allocated rfl created
        subst isRead
        cases Option.some.inj kept
        exact (inside_iff_room created _).mpr (by omega)

/-- The loop of `icreate_fmd` over the blocks of a file of `nblocks` blocks;
`none` is a crash for want of memory. -/
def icreateFmdBlocks (abi : Abi) (allocates : Nat → Bool) (nblocks : BitVec 32)
    (first second : BitVec 16) : Option StoredBlocks :=
  (sFileMetaDataCreate abi allocates nblocks).map fun allocated =>
    { allocated := allocated
      halves := (List.replicate nblocks.toInt.toNat [first, second]).flatten }

/-- The blocks of a new file stay in the memory of the record. -/
def NewFmdInside (abi : Abi) (allocates : Nat → Bool) (nblocks : BitVec 32)
    (first second : BitVec 16) : Prop :=
  ∀ stored, icreateFmdBlocks abi allocates nblocks first second = some stored →
    stored.Inside abi

theorem new_fmd_inside_iff (abi : Abi) (allocates : Nat → Bool) (nblocks : BitVec 32)
    (first second : BitVec 16) :
    NewFmdInside abi allocates nblocks first second ↔
      sFileMetaDataCreate abi allocates nblocks = none ∨ nblocks.toInt ≤ 2 := by
  have length : (List.replicate nblocks.toInt.toNat [first, second]).flatten.length =
      2 * nblocks.toInt.toNat := by
    rw [List.length_flatten, List.map_replicate, List.sum_replicate_nat]
    exact Nat.mul_comm _ _
  have range := nblocks.isLt
  have signed := BitVec.toInt_eq_toNat_cond nblocks
  have least := sizeofFileMetaData_le abi
  unfold NewFmdInside icreateFmdBlocks
  cases created : sFileMetaDataCreate abi allocates nblocks with
  | none => exact iff_of_true (fun _ found => nomatch found) (Or.inl rfl)
  | some allocated =>
      have room := inside_iff_room created
        (List.replicate nblocks.toInt.toNat [first, second]).flatten
      rw [length] at room
      unfold roomForHalves at room
      dsimp only at room
      have crashes : ¬ some allocated = none := nofun
      simp only [Option.map_some, Option.some.injEq, forall_eq']
      rw [room, or_iff_right crashes]
      split at signed
      · split
        · omega
        · omega
      · split
        · omega
        · omega

/-! ## All of them -/

/-- **Counts and indices from the wire** stay in the arrays they are used for
exactly for these packets and files. -/
theorem counts_inside_iff (abi : Abi) (allocates : Nat → Bool) :
    (∀ pkt, ServsInside (ireceiveRequestServs pkt) ↔
      ∀ head rest, readRequestHead pkt = some (head, rest) → ServsFit head.nserv rest) ∧
    (∀ pkt, ServsInside (ireceiveAddAcceptServs pkt) ↔
      ∀ head rest, readAddAcceptHead pkt = some (head, rest) → ServsFit head.nserv rest) ∧
    (∀ pkt, CurrInside abi allocates pkt ↔
      ∀ head rest allocated, readLockHead pkt = some (head, rest) →
        sCoreLockCreate abi allocates head.nserv = some allocated →
        12 * head.nserv ≤ rest.left → 0 ≤ head.curr ∧ head.curr < head.nserv) ∧
    (∀ pkt, FmdInside abi allocates pkt ↔
      ∀ head rest allocated, readFmdHead (sPacketSeek pkt 0) = some (head, rest) →
        sFileMetaDataCreate abi allocates head.nblocks = some allocated →
        2 * head.nblocks.toNat ≤ roomForHalves abi head.nblocks ∨
          rest.left / 2 ≤ roomForHalves abi head.nblocks) ∧
    (∀ nblocks first second, NewFmdInside abi allocates nblocks first second ↔
      sFileMetaDataCreate abi allocates nblocks = none ∨ nblocks.toInt ≤ 2) :=
  ⟨request_inside_iff, add_accept_inside_iff, curr_inside_iff abi allocates,
    fmd_inside_iff abi allocates, new_fmd_inside_iff abi allocates⟩

/-- A record of three blocks, as it is sent. -/
def threeBlocks : SPacket :=
  packetOf (List.replicate 12 0 ++ fmdBytes
    { fname := [97]
      fdesc := { fileId := 1, fileVersion := 1 }
      fsize := { high := 0, low := 3 }
      blocks := [(1, 2), (1, 2), (1, 2)] })

/-- The third block of a well-formed record is written past its memory. -/
theorem not_always_counts_inside :
    ¬ ∀ (abi : Abi) (allocates : Nat → Bool) (pkt : SPacket) (nblocks : BitVec 32)
        (first second : BitVec 16),
        ServsInside (ireceiveRequestServs pkt) ∧ ServsInside (ireceiveAddAcceptServs pkt) ∧
          CurrInside abi allocates pkt ∧ FmdInside abi allocates pkt ∧
          NewFmdInside abi allocates nblocks first second := by
  intro always
  obtain ⟨_, _, _, inside, _⟩ := always .lp64 (fun _ => true) threeBlocks 3 1 2
  have written : ((sCorePktToFmd .lp64 (fun _ => true) threeBlocks).bind FmdRead.stored).map
      (fun stored => (stored.allocated, stored.halves.length)) = some (70, 6) := by
    decide +kernel
  obtain ⟨stored, found, sizes⟩ := Option.map_eq_some_iff.mp written
  obtain ⟨read, isRead, isStored⟩ := Option.bind_eq_some_iff.mp found
  have third := inside read stored isRead isStored 5
  have allocated : stored.allocated = 70 := congrArg Prod.fst sizes
  have halves : stored.halves.length = 6 := congrArg Prod.snd sizes
  rw [allocated, halves] at third
  exact absurd (third (by decide)) (by decide)

end SimpleDfs.Wire
