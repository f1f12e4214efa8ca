import SimpleDfs.Wire.FileMetaData

/-!
Contract: the reply to a create request and what the client makes of it
(`icreate_suc_to_client` and `icreate_fail_to_client` of
`core/s_core_create_mserv.c`, `core/s_core_create_client.c`).

Owns: the two reply packets, their way through the framing of the client, the
outcome the client reports, and for which records it is the one that was sent.

Does not own: when a meta server replies; which call a reply belongs to.

A failure is a zero, a success is a record without a tag.  The client reads the
first four bytes of either as a number.
-/

set_option autoImplicit false

namespace SimpleDfs.Wire

open SimpleDfs.Library
open SimpleDfs.Net
open SimpleDfs.Mserv

/-- `s_servg_rpc_ret`, up to sending. -/
def sServgRpcRet (pkt : SPacket) (reqId : BitVec 32) : SPacket :=
  sPacketSetReq (sPacketSetFun pkt sPktTypeRpcBack) reqId

/-- The packet of `icreate_fail_to_client`. -/
def icreateFailPacket (junk : Nat → UInt8) (reqId : BitVec 32) : Option SPacket :=
  (sPacketCreate 4 (packetMemory junk 4)).map fun pkt =>
    sServgRpcRet ((sPacketWriteUint pkt 0).getD pkt) reqId

/-- The packet of `icreate_suc_to_client`. -/
def icreateSucPacket (junk : Nat → UInt8) (reqId : BitVec 32) (md : FileMetaData FileName) :
    Option SPacket :=
  (sCorePktFromFmd junk md).map fun pkt =>
    sServgRpcRet (sPacketSetFun pkt sPktTypeCreateMetadata) reqId

/-- `enum S_E_CORE_ERR`. -/
inductive CoreErr where
  | noErr
  | badParam
  | internal
  deriving DecidableEq, Repr

/-- What `s_core_client_create_back` writes to its parameter. -/
structure CreateOutcome where
  error : CoreErr
  errmsg : Option String
  deriving DecidableEq, Repr

/-- `s_core_client_create_back`; `stray` is what its variable holds before a
number is read. -/
def sCoreClientCreateBack (stray : Int) : Option SPacket → CreateOutcome
  | none => { error := .internal, errmsg := some "timeout or conn-broken" }
  | some pkt =>
      match sPacketReadInt pkt with
      | none =>
          { error := .internal
            errmsg := some (if stray ≤ 0 then "create failed" else "rpc return error") }
      | some (result, _) =>
          if result ≤ 0 then { error := .internal, errmsg := some "create failed" }
          else { error := .noErr, errmsg := none }

/-- The outcome of a reply: its bytes are framed again by the client. -/
def clientOutcome (stray : Int) (reply : SPacket) : CreateOutcome :=
  sCoreClientCreateBack stray (sPacketCreateFrom (reply.data.take reply.size.toNat)).join

/-! ## Replies through the framing -/

section

variable {pkt : SPacket} {code req body : List UInt8}

/-- The head of a reply. -/
theorem filled_sServgRpcRet {size : BitVec 32} {room : Nat}
    (filled : Filled pkt (wordBytes size ++ (code ++ req)) body room) (fourCode : code.length = 4)
    (fourReq : req.length = 4) (reqId : BitVec 32) :
    Filled (sServgRpcRet pkt reqId)
      (wordBytes size ++ (wordBytes sPktTypeRpcBack ++ wordBytes reqId)) body room := by
  have coded := filled.setHead fourCode sPktTypeRpcBack
  rw [← List.append_assoc, ← List.append_nil req] at coded
  have numbered := coded.setHead fourReq reqId
  rw [List.append_nil, List.append_assoc] at numbered
  exact numbered

/-- The client reads the number at the start of the body of a reply. -/
theorem clientOutcome_filled (stray : Int) {size room : Nat} (isSize : size = body.length)
    (full : room = 0)
    (filled : Filled pkt (wordBytes (BitVec.ofNat 32 (size + 12)) ++ (code ++ req)) body room)
    (small : (body.length : Int) ≤ sPktMaxSz) {word : BitVec 32} {rest : List UInt8}
    (starts : body = wordBytes word ++ rest) :
    (clientOutcome stray pkt).error = .noErr ↔ 0 < word.toInt := by
  subst isSize full
  obtain ⟨received, framed, unread⟩ := unread_framed filled small
  rw [starts] at unread
  obtain ⟨after, read, _⟩ := unread.readUint
  unfold clientOutcome
  rw [framed]
  show (sCoreClientCreateBack stray (some _)).error = .noErr ↔ _
  unfold sCoreClientCreateBack sPacketReadInt
  dsimp only
  rw [read, Option.map_some]
  dsimp only
  split
  next failed => exact iff_of_false (fun impossible => nomatch impossible) (by omega)
  next succeeded => exact iff_of_true rfl (by omega)

end

/-- A failure reply is read as a failure. -/
theorem clientOutcome_fail (stray : Int) {junk : Nat → UInt8} {reqId : BitVec 32} {reply : SPacket}
    (answered : icreateFailPacket junk reqId = some reply) :
    (clientOutcome stray reply).error ≠ .noErr := by
  obtain ⟨fresh, code, req, created, fourCode, fourReq, filled⟩ :=
    filled_sPacketCreate 4 junk (by decide)
  have zero := filled_writeUint filled 0 le_rfl
  have headed := filled_sServgRpcRet zero fourCode fourReq reqId
  unfold icreateFailPacket at answered
  have same : sPacketCreate 4 (packetMemory junk 4) = some fresh := created
  rw [same] at answered
  have isReply := Option.some.inj answered
  dsimp only at isReply
  rw [isReply] at headed
  have starts : [] ++ wordBytes 0 = wordBytes 0 ++ [] := rfl
  have isFour : 4 = ([] ++ wordBytes 0).length := rfl
  have outcome := clientOutcome_filled stray isFour rfl headed (isFour ▸ by decide) starts
  exact fun succeeds => absurd (outcome.mp succeeds) (by decide)

/-! ## Which successes are read as such -/

/-- The first four bytes of a record with this name and id are a positive
number. -/
def readsAsSuccess (fname : FileName) (fileId : Nat) : Bool :=
  match fname with
  | [] => decide (0 < fileId % 2 ^ 16 ∧ fileId % 2 ^ 16 < 2 ^ 15)
  | [_] => decide (fileId % 2 ^ 8 < 2 ^ 7)
  | _ :: second :: _ => decide (second.toNat < 2 ^ 7)

/-- A number read from four bytes is positive. -/
theorem wordField_pos (p0 p1 p2 p3 : UInt8) :
    0 < (wordField p0 p1 p2 p3).toInt ↔ p3.toNat < 2 ^ 7 ∧
      (0 < p0.toNat ∨ 0 < p1.toNat ∨ 0 < p2.toNat ∨ 0 < p3.toNat) := by
  have byte0 := p0.toNat_lt
  have byte1 := p1.toNat_lt
  have byte2 := p2.toNat_lt
  have byte3 := p3.toNat_lt
  rw [BitVec.toInt_eq_toNat_cond, wordField_toNat]
  split
  · omega
  · omega

/-- The number at the start of a record. -/
theorem fmdBytes_starts (md : FileMetaData FileName) (short : md.fname.length < 2 ^ 15) :
    ∃ word rest, fmdBytes md = wordBytes word ++ rest ∧
      (0 < word.toInt ↔ readsAsSuccess md.fname md.fdesc.fileId = true) := by
  have lengthBytes : ∀ index, (byteAt (BitVec.ofNat 16 md.fname.length).toNat index).toNat =
      md.fname.length / 2 ^ (8 * index) % 2 ^ 8 := by
    intro index
    have small : md.fname.length < 2 ^ 16 := by omega
    rw [byteAt_toNat, BitVec.toNat_ofNat, Nat.mod_eq_of_lt small]
  have idBytes : ∀ index, index < 2 →
      (byteAt (BitVec.ofNat 32 md.fdesc.fileId).toNat index).toNat =
        md.fdesc.fileId / 2 ^ (8 * index) % 2 ^ 8 := by
    intro index inside
    rw [byteAt_toNat, BitVec.toNat_ofNat]
    rcases (by omega : index = 0 ∨ index = 1) with rfl | rfl
    · omega
    · omega
  have low := lengthBytes 0
  have high := lengthBytes 1
  have id0 := idBytes 0 (by omega)
  have id1 := idBytes 1 (by omega)
  unfold fmdBytes shortBytes
  cases name : md.fname with
  | nil =>
      rw [name] at low high
      refine ⟨wordField _ _ _ _, _, by rw [wordBytes_wordField]; rfl, ?_⟩
      rw [wordField_pos, low, high, id0, id1]
      unfold readsAsSuccess
      rw [decide_eq_true_iff, List.length_nil]
      omega
  | cons first others =>
      cases others with
      | nil =>
          rw [name] at low high
          refine ⟨wordField _ _ _ _, _, by rw [wordBytes_wordField]; rfl, ?_⟩
          rw [wordField_pos, low, high, id0]
          unfold readsAsSuccess
          rw [decide_eq_true_iff, List.length_singleton]
          omega
      | cons second rest =>
          rw [name] at low high short
          refine ⟨wordField _ _ _ _, _, by rw [wordBytes_wordField]; rfl, ?_⟩
          rw [wordField_pos, low, high]
          unfold readsAsSuccess
          rw [decide_eq_true_iff, List.length_cons, List.length_cons]
          rw [List.length_cons, List.length_cons] at short
          omega

/-- **The client sees the outcome that was sent** exactly for the records whose
first four bytes are a positive number. -/
theorem client_sees_outcome_iff (stray : Int) {junk : Nat → UInt8} {reqId : BitVec 32}
    {md : FileMetaData FileName} (short : md.fname.length ≤ 32767) {reply : SPacket}
    (answered : icreateSucPacket junk reqId md = some reply) :
    ((clientOutcome stray reply).error = .noErr ∧
        ∀ junk reqId reply, icreateFailPacket junk reqId = some reply →
          (clientOutcome stray reply).error ≠ .noErr) ↔
      readsAsSuccess md.fname md.fdesc.fileId = true := by
  obtain ⟨word, rest, starts, positive⟩ := fmdBytes_starts md (by omega)
  obtain ⟨made, isMade, isReply⟩ := Option.map_eq_some_iff.mp answered
  obtain ⟨small, req, fourReq, filled⟩ :=
    filled_sCorePktFromFmd (by unfold sPktStringMaxLen; omega) isMade
  rw [← fmdBytes_length] at filled small
  have coded := filled.setHead (wordBytes_length _) sPktTypeCreateMetadata
  have headed := filled_sServgRpcRet coded (wordBytes_length _) fourReq reqId
  have outcome : (clientOutcome stray reply).error = .noErr ↔ 0 < word.toInt := by
    rw [← isReply]
    exact clientOutcome_filled stray rfl rfl headed small starts
  rw [outcome, positive]
  constructor
  · exact And.left
  · intro reads
    refine ⟨reads, ?_⟩
    intro _ _ _ failed
    exact clientOutcome_fail stray failed

/-- A record without blocks for the name, as a meta server without data servers
makes it. -/
def emptyFile (fname : FileName) : FileMetaData FileName where
  fname := fname
  fdesc := { fileId := 1, fileVersion := 1 }
  fsize := { high := 0, low := 0 }
  blocks := []

/-- The reply to a request for an ASCII name. -/
theorem client_sees_outcome_ascii :
    ∃ reply, icreateSucPacket (fun _ => 0) 7 (emptyFile [97, 98, 99]) = some reply ∧
      (clientOutcome 0 reply).error = .noErr := by
  have made : (icreateSucPacket (fun _ => 0) 7 (emptyFile [97, 98, 99])).isSome = true := by
    decide +kernel
  obtain ⟨reply, answered⟩ := Option.isSome_iff_exists.mp made
  exact ⟨reply, answered,
    ((client_sees_outcome_iff 0 (by decide) answered).mpr (by decide)).left⟩

/-- A name in UTF-8 whose second byte is above 127 is created and reported as an
error. -/
theorem not_always_client_sees_outcome :
    ¬ ∀ (stray : Int) (junk : Nat → UInt8) (reqId : BitVec 32) (md : FileMetaData FileName)
        (reply : SPacket), md.fname.length ≤ 32767 →
        icreateSucPacket junk reqId md = some reply → (clientOutcome stray reply).error = .noErr := by
  intro always
  have made : (icreateSucPacket (fun _ => 0) 7 (emptyFile [0xE6, 0x96, 0x87])).isSome = true := by
    decide +kernel
  obtain ⟨reply, answered⟩ := Option.isSome_iff_exists.mp made
  have seen := always 0 _ _ _ reply (by decide) answered
  have outcome : ((icreateSucPacket (fun _ => 0) 7 (emptyFile [0xE6, 0x96, 0x87])).map fun reply =>
      decide ((clientOutcome 0 reply).error = .noErr)) = some false := by
    decide +kernel
  rw [answered, Option.map_some, seen] at outcome
  exact absurd outcome (by decide)

end SimpleDfs.Wire
