import SimpleDfs.Paxos.History
import SimpleDfs.Paxos.Learner
import SimpleDfs.Wire.CreateOutcome
import SimpleDfs.Wire.Entries

/-!
Contract: the response to a prepare request on the wire (`ireceive_request`,
`i_receive_response_add` and `i_receive_response_rm` of `core/s_core_paxos.c`).

Owns: the two passes that write a response, the loops that read it, the calls of
`ilearn` these make, and exactly when the proposer reads what the acceptor has
computed.

The format has no marks between its sections: the report is one int or four, the
backup comes with its length, the accept table ends with the packet.

Does not own: what is learned from the calls.
-/

set_option autoImplicit false

namespace SimpleDfs.Wire

open SimpleDfs.Common
open SimpleDfs.Library
open SimpleDfs.Net
open SimpleDfs.Paxos

/-- `S_PAXOS_RESPONSE_BAD_VERSION`. -/
def sPaxosResponseBadVersion : BitVec 32 := 0

/-- `S_PAXOS_RESPONSE_NO_VALUE`. -/
def sPaxosResponseNoValue : BitVec 32 := 1

/-- `S_PAXOS_RESPONSE_VALUE`. -/
def sPaxosResponseValue : BitVec 32 := 2

/-! ## Writing -/

/-- The report: `value` is negative if no entry was found. -/
def writeReport (writer : Writer) (best : SId × Value) : Writer :=
  if best.2.toInt < 0 then sPacketWint writer sPaxosResponseNoValue
  else
    let writer := sPacketWint writer sPaxosResponseValue
    let writer := sPacketWint writer (BitVec.ofNat 32 best.1.x)
    let writer := sPacketWint writer (BitVec.ofNat 32 best.1.y)
    sPacketWint writer best.2

/-- The backup of the server that is to be removed. -/
def writeBackup (writer : Writer) : Option (List PaxosAccept) → Writer
  | some backup =>
      backup.foldl (fun writer a => writeTopicEntry writer a.topic a.value a.id)
        (sPacketWint writer (BitVec.ofNat 32 backup.length))
  | none => sPacketWint writer 0

/-- One turn of the loop over the accept table. -/
def writeAccepts (paxos : SPaxos) (writer : Writer) (topic : Topic) : Writer :=
  let accept := paxos.accepts topic
  let writer := sPacketWstring writer (topicBytes topic)
  let writer := sPacketWint writer (BitVec.ofNat 32 accept.length)
  accept.foldl (fun writer a => writeEntry writer a.value a.id) writer

/-- The body between `s_packet_start_write` and `s_packet_end_write`; it leaves
the tables as they are. -/
def writeResponse (layout : Layout) (request : PrepareRequest) (paxos : SPaxos)
    (writer : Writer) : SPaxos × Writer :=
  let writer := writeReport writer (prepareReport request.id (paxos.accepts request.topic))
  let writer :=
    if request.type = .rm then writeBackup writer (paxos.backup.lookup request.theServ)
    else writer
  let writer :=
    if request.type ≠ .normal then
      (layout.topics.arrange paxos.accept.keys).foldl (writeAccepts paxos) writer
    else writer
  (paxos, writer)

/-- The packet `ireceive_request` returns; `none` is the null packet of a
response that is too large. -/
def ireceiveRequestPacket (layout : Layout) (junk : Nat → UInt8) (paxos : SPaxos)
    (request : PrepareRequest) : Option SPacket :=
  if paxos.version.version ≠ request.version.version then
    (sPacketStartWrite 0 junk
      (fun paxos writer => (paxos, sPacketWint writer sPaxosResponseBadVersion)) paxos).2
  else (sPacketStartWrite 0 junk (writeResponse layout request) paxos).2

/-! ## Reading -/

/-- The arguments of a call of `ilearn`. -/
structure LearnCall where
  topic : Topic
  value : Value
  id : SId
  servId : Nat
  deriving DecidableEq, Repr

/-- What a handler takes from a response: the report, the calls of `ilearn` in
their order, and the packet where it ends, if it does not leave at
`label_error`. -/
structure ResponseReads where
  badVersion : Bool
  report : Option (SId × Value)
  calls : List LearnCall
  left : Option SPacket

/-- The reads of `suc` and, if it says so, of `max_id` and `value`. -/
def readReport (pkt : SPacket) : Option (BitVec 32 × Option (SId × Value) × SPacket) := do
  let (suc, pkt) ← sPacketReadUint pkt
  if suc = sPaxosResponseValue then
    let (x, pkt) ← sPacketReadUint pkt
    let (y, pkt) ← sPacketReadUint pkt
    let (value, pkt) ← sPacketReadUint pkt
    return (suc, some (idOf x y, value), pkt)
  else
    return (suc, none, pkt)

/-- One turn of the loop over topics: the calls for the entries that are read. -/
def readGroup (servFrom : Nat) (text : List UInt8) (pkt : SPacket) :
    List LearnCall × Option SPacket :=
  match sPacketReadInt pkt with
  | none => ([], none)
  | some (count, pkt) =>
      let (entries, left) := readMany readEntry count.toNat pkt
      (entries.map fun (value, id) =>
        { topic := topicOf text, value := value, id := id, servId := servFrom }, left)

/-- The loop over topics; a packet has no more of them than bytes. -/
def groupReads (servFrom : Nat) (pkt : SPacket) : List LearnCall × Option SPacket :=
  readWhileString (readGroup servFrom) pkt.left pkt

/-- The reads of `i_receive_response_add`. -/
def iReceiveResponseAddReads (servFrom : Nat) (pkt : SPacket) : ResponseReads :=
  match readReport pkt with
  | none => { badVersion := false, report := none, calls := [], left := none }
  | some (suc, report, pkt) =>
      if suc = sPaxosResponseBadVersion then
        { badVersion := true, report := none, calls := [], left := some pkt }
      else
        let (calls, left) := groupReads servFrom pkt
        { badVersion := false, report := report, calls := calls, left := left }

/-- The calls for a backup. -/
def backupCalls (theServ : Nat) (backup : List PaxosAccept) : List LearnCall :=
  backup.map fun accept =>
    { topic := accept.topic, value := accept.value, id := accept.id, servId := theServ }

/-- The reads of `i_receive_response_rm`. -/
def iReceiveResponseRmReads (servFrom theServ : Nat) (pkt : SPacket) : ResponseReads :=
  match readReport pkt with
  | none => { badVersion := false, report := none, calls := [], left := none }
  | some (suc, report, pkt) =>
      if suc = sPaxosResponseBadVersion then
        { badVersion := true, report := none, calls := [], left := some pkt }
      else
        match sPacketReadInt pkt with
        | none => { badVersion := false, report := report, calls := [], left := none }
        | some (nbackup, pkt) =>
            match readMany readTopicEntry nbackup.toNat pkt with
            | (backup, none) =>
                { badVersion := false, report := report
                  calls := backupCalls theServ backup, left := none }
            | (backup, some pkt) =>
                let (calls, left) := groupReads servFrom pkt
                { badVersion := false, report := report
                  calls := backupCalls theServ backup ++ calls, left := left }

/-- The handler of a response is that of the proposal's type. -/
def membershipReads (request : PrepareRequest) (servFrom : Nat) (pkt : SPacket) : ResponseReads :=
  if request.type = .rm then iReceiveResponseRmReads servFrom request.theServ pkt
  else iReceiveResponseAddReads servFrom pkt

theorem left_readEntry {pkt after : SPacket} {entry : Value × SId}
    (read : readEntry pkt = some (entry, after)) : after.left ≤ pkt.left := by
  simp only [readEntry, Option.bind_eq_bind, Option.bind_eq_some_iff, Option.pure_def] at read
  obtain ⟨⟨value, first⟩, readValue, ⟨x, second⟩, readX, ⟨y, third⟩, readY, same⟩ := read
  cases same
  have one := left_readUint readValue
  have two := left_readUint readX
  have three : third.left + 4 = second.left := left_readUint readY
  dsimp only at one two ⊢
  omega

/-- More turns than the packet has bytes read no more. -/
theorem groupReads_turns (servFrom : Nat) (pkt : SPacket) :
    readWhileString (readGroup servFrom) (pkt.left + 1) pkt = groupReads servFrom pkt := by
  apply readWhileString_turns
  · intro text pkt calls after read
    unfold readGroup at read
    split at read
    · cases read
    next count counted readCount =>
      obtain ⟨_, readEntries⟩ := Prod.mk.inj read
      have one := left_readInt readCount
      have entries : readMany readEntry count.toNat counted =
          ((readMany readEntry count.toNat counted).1, some after) :=
        Prod.ext rfl readEntries
      have two := left_readMany (fun _ _ _ read => left_readEntry read) _ entries
      omega
  · exact le_rfl

/-! ## The calls of `ilearn` -/

/-- The calls for a table of accept lists. -/
def tableCalls (servId : Nat) (table : List (Topic × List PaxosAccept)) : List LearnCall :=
  table.flatMap fun (topic, accepts) => accepts.map fun accept =>
    { topic := topic, value := accept.value, id := accept.id, servId := servId }

/-- One call. -/
def LearnCall.perform (layout : Layout) (coreId : Nat) (paxos : SPaxos) (call : LearnCall) :
    SPaxos :=
  ilearn layout coreId paxos call.topic call.value call.id call.servId

theorem ilearnList_eq_calls (layout : Layout) (coreId servId : Nat) (topic : Topic)
    (accepts : List PaxosAccept) (paxos : SPaxos) :
    ilearnList layout coreId servId topic paxos accepts =
      (tableCalls servId [(topic, accepts)]).foldl (LearnCall.perform layout coreId) paxos := by
  rw [tableCalls, List.flatMap_singleton]
  induction accepts generalizing paxos with
  | nil => rfl
  | cons accept rest inductionHypothesis => exact inductionHypothesis _

/-- Learning a table is making its calls. -/
theorem ilearnTable_eq_calls (layout : Layout) (coreId servId : Nat)
    (table : List (Topic × List PaxosAccept)) (paxos : SPaxos) :
    ilearnTable layout coreId servId paxos table =
      (tableCalls servId table).foldl (LearnCall.perform layout coreId) paxos := by
  induction table generalizing paxos with
  | nil => rfl
  | cons row rest inductionHypothesis =>
      have split : tableCalls servId (row :: rest) =
          tableCalls servId [row] ++ tableCalls servId rest := by
        rw [tableCalls, tableCalls, List.flatMap_cons, List.flatMap_singleton, tableCalls]
      rw [ilearnTable, inductionHypothesis, ilearnList_eq_calls, split, List.foldl_append]

/-- The calls for the answer of an acceptor: the backup of the server that is to
be removed, and every entry of the accept table. -/
def answerCalls (layout : Layout) (paxos : SPaxos) (request : PrepareRequest) (servFrom : Nat) :
    List LearnCall :=
  (if request.type = .rm then
    backupCalls request.theServ ((paxos.backup.lookup request.theServ).getD [])
  else []) ++
    tableCalls servFrom
      ((layout.topics.arrange paxos.accept.keys).map fun topic => (topic, paxos.accepts topic))

/-- **The calls are the message's**: they learn what the proposer learns from the
acceptor's answer. -/
theorem answerCalls_of_promise {layout : Layout} {paxos : SPaxos} {request : PrepareRequest}
    {report : Option (SId × Value)} {backup : List PaxosAccept}
    {accepts : List (Topic × List PaxosAccept)} (membership : request.type ≠ .normal)
    (answer : (ireceiveRequest layout paxos request).2 = .promise report backup accepts)
    (coreId servFrom : Nat) (learner : SPaxos) :
    ilearnTable layout coreId servFrom
        (ilearnTable layout coreId request.theServ learner
          (backup.map fun accept => (accept.topic, [accept]))) accepts =
      (answerCalls layout paxos request servFrom).foldl (LearnCall.perform layout coreId)
        learner := by
  have fromBackup : ∀ list : List PaxosAccept,
      tableCalls request.theServ (list.map fun accept => (accept.topic, [accept])) =
        backupCalls request.theServ list := by
    intro list
    induction list with
    | nil => rfl
    | cons accept rest inductionHypothesis =>
        exact congrArg (List.cons _) inductionHypothesis
  unfold ireceiveRequest at answer
  dsimp only at answer
  split at answer
  · cases answer
  · obtain ⟨_, isBackup, isAccepts⟩ := PrepareReply.promise.inj answer
    rw [ilearnTable_eq_calls, ilearnTable_eq_calls, fromBackup, ← List.foldl_append, answerCalls,
      ← isBackup, ← isAccepts]
    by_cases removal : request.type = .rm
    · rw [if_pos removal, if_pos removal]
      rfl
    · rw [if_neg removal, if_neg removal]
      rfl

/-! ## The fields of a response -/

def reportFields (best : SId × Value) : List Field :=
  if best.2.toInt < 0 then [.int sPaxosResponseNoValue]
  else
    [.int sPaxosResponseValue, .int (BitVec.ofNat 32 best.1.x), .int (BitVec.ofNat 32 best.1.y),
      .int best.2]

def backupFields (backup : List PaxosAccept) : List Field :=
  .int (BitVec.ofNat 32 backup.length) ::
    backup.flatMap fun a => topicEntryFields a.topic a.value a.id

/-- What follows the topic of a group. -/
def listFields (accepts : List PaxosAccept) : List Field :=
  .int (BitVec.ofNat 32 accepts.length) :: accepts.flatMap fun a => entryFields a.value a.id

def groupFields (group : Topic × List PaxosAccept) : List Field :=
  .string (topicBytes group.1) :: listFields group.2

/-- The accept table in the order it is written. -/
def acceptGroups (layout : Layout) (paxos : SPaxos) : List (Topic × List PaxosAccept) :=
  (layout.topics.arrange paxos.accept.keys).map fun topic => (topic, paxos.accepts topic)

def responseFields (layout : Layout) (request : PrepareRequest) (paxos : SPaxos) : List Field :=
  reportFields (prepareReport request.id (paxos.accepts request.topic)) ++
    ((if request.type = .rm then
        backupFields ((paxos.backup.lookup request.theServ).getD []) else []) ++
      (if request.type ≠ .normal then (acceptGroups layout paxos).flatMap groupFields else []))

theorem writeReport_eq (writer : Writer) (best : SId × Value) :
    writeReport writer best = writer.writeAll (reportFields best) := by
  unfold writeReport reportFields
  split <;> rfl

theorem writeBackup_eq (writer : Writer) (backup : Option (List PaxosAccept)) :
    writeBackup writer backup = writer.writeAll (backupFields (backup.getD [])) := by
  cases backup with
  | none => rfl
  | some backup =>
      rw [Option.getD_some, backupFields, Writer.writeAll_cons, ← Writer.foldl_writeAll]
      rfl

theorem writeAccepts_eq (paxos : SPaxos) (writer : Writer) (topic : Topic) :
    writeAccepts paxos writer topic =
      writer.writeAll (groupFields (topic, paxos.accepts topic)) := by
  rw [groupFields, listFields, Writer.writeAll_cons, Writer.writeAll_cons, ← Writer.foldl_writeAll]
  rfl

/-- Each pass writes the same fields and leaves the tables. -/
theorem writes_writeResponse (layout : Layout) (request : PrepareRequest) (paxos : SPaxos) :
    Writes (writeResponse layout request) paxos (responseFields layout request paxos) paxos := by
  intro writer
  have groups : ∀ writer : Writer,
      (layout.topics.arrange paxos.accept.keys).foldl (writeAccepts paxos) writer =
        writer.writeAll ((acceptGroups layout paxos).flatMap groupFields) := by
    intro writer
    rw [acceptGroups, List.flatMap_map, ← Writer.foldl_writeAll]
    congr 1
    funext writer topic
    exact writeAccepts_eq paxos writer topic
  unfold writeResponse responseFields
  dsimp only
  rw [Writer.writeAll_append, Writer.writeAll_append, writeReport_eq]
  by_cases removal : request.type = .rm
  · have membership : request.type ≠ .normal := by
      rw [removal]
      decide
    rw [if_pos removal, if_pos removal, if_pos membership, if_pos membership, writeBackup_eq,
      groups]
  · rw [if_neg removal, if_neg removal]
    by_cases membership : request.type ≠ .normal
    · rw [if_pos membership, if_pos membership, groups]
      rfl
    · rw [if_neg membership, if_neg membership]
      rfl

/-! ## Reading a response back -/

/-- The tables hold what a `struct s_paxos` can: ids are ints, and topics are
strings short enough for a packet. -/
structure OnWire (paxos : SPaxos) : Prop where
  topics : ∀ topic ∈ paxos.accept, IsText topic
  accepts : ∀ topic, ∀ accept ∈ paxos.accepts topic, IsIntId accept.id
  backups : ∀ serv backup, paxos.backup.lookup serv = some backup →
    ∀ accept ∈ backup, IsText accept.topic ∧ IsIntId accept.id

theorem texts_acceptGroups {layout : Layout} {paxos : SPaxos} (stored : OnWire paxos) :
    ∀ group ∈ acceptGroups layout paxos, IsText group.1 := by
  intro group member
  obtain ⟨topic, listed, rfl⟩ := List.mem_map.mp member
  exact stored.topics topic (AList.mem_keys.mpr ((layout.topics.mem_arrange _ topic).mp listed))

theorem backup_stored {paxos : SPaxos} (stored : OnWire paxos) (serv : Nat) :
    ∀ accept ∈ (paxos.backup.lookup serv).getD [], IsText accept.topic ∧ IsIntId accept.id := by
  cases found : paxos.backup.lookup serv with
  | none => exact fun accept listed => absurd listed List.not_mem_nil
  | some backup => exact stored.backups serv backup found

/-- Every string of a response is short enough. -/
theorem fits_responseFields {layout : Layout} {request : PrepareRequest} {paxos : SPaxos}
    (stored : OnWire paxos) : ∀ field ∈ responseFields layout request paxos, field.Fits := by
  intro field member
  unfold responseFields at member
  rcases List.mem_append.mp member with report | tables
  · unfold reportFields at report
    split at report
    · rw [List.mem_singleton.mp report]
      trivial
    · simp only [List.mem_cons, List.not_mem_nil, or_false] at report
      rcases report with rfl | rfl | rfl | rfl <;> trivial
  · rcases List.mem_append.mp tables with backup | groups
    · split at backup
      · rcases List.mem_cons.mp backup with rfl | entry
        · trivial
        · obtain ⟨accept, listed, inEntry⟩ := List.mem_flatMap.mp entry
          rcases List.mem_cons.mp inEntry with rfl | rest
          · exact topicBytes_short (backup_stored stored request.theServ accept listed).1
          · exact fits_entryFields accept.value accept.id field rest
      · exact absurd backup List.not_mem_nil
    · split at groups
      · obtain ⟨group, listed, inGroup⟩ := List.mem_flatMap.mp groups
        rcases List.mem_cons.mp inGroup with rfl | counted
        · exact topicBytes_short (texts_acceptGroups stored group listed)
        · rcases List.mem_cons.mp counted with rfl | entries
          · trivial
          · obtain ⟨accept, _, inEntry⟩ := List.mem_flatMap.mp entries
            exact fits_entryFields accept.value accept.id field inEntry
      · exact absurd groups List.not_mem_nil

section

variable {pkt : SPacket}

/-- The report is one int or four. -/
theorem readReport_fields {best : SId × Value} (isInt : IsIntId best.1) {rest : List Field}
    (unread : Unread pkt (fieldBytes (reportFields best ++ rest))) :
    ∃ suc after, readReport pkt =
        some (suc, if best.2.toInt < 0 then none else some best, after) ∧
      suc ≠ sPaxosResponseBadVersion ∧ Unread after (fieldBytes rest) := by
  unfold reportFields at unread
  split at unread
  next negative =>
    obtain ⟨after, readSuc, unreadAfter⟩ := unread_int unread
    have other : sPaxosResponseNoValue ≠ sPaxosResponseValue := by decide
    refine ⟨sPaxosResponseNoValue, after, ?_, by decide, unreadAfter⟩
    simp only [readReport, readSuc, Option.bind_eq_bind, Option.bind_some, Option.pure_def,
      if_neg other, if_pos negative]
  next nonneg =>
    obtain ⟨first, readSuc, unreadFirst⟩ := unread_int unread
    obtain ⟨second, readX, unreadSecond⟩ := unread_int unreadFirst
    obtain ⟨third, readY, unreadThird⟩ := unread_int unreadSecond
    obtain ⟨after, readValue, unreadAfter⟩ := unread_int unreadThird
    refine ⟨sPaxosResponseValue, after, ?_, by decide, unreadAfter⟩
    simp only [readReport, readSuc, readX, readY, readValue, Option.bind_eq_bind,
      Option.bind_some, Option.pure_def, if_true, if_neg nonneg, idOf_words isInt]

theorem entryFields_length (value : Value) (id : SId) :
    (fieldBytes (entryFields value id)).length = 12 := rfl

/-- What follows a topic: the number of its entries, the entries. -/
theorem readGroup_fields {topic : Topic} {accepts : List PaxosAccept} (servFrom : Nat)
    (isText : IsText topic) (ints : ∀ accept ∈ accepts, IsIntId accept.id) {rest : List Field}
    (few : (accepts.length : Int) ≤ sPktMaxSz)
    (unread : Unread pkt (fieldBytes (listFields accepts ++ rest))) :
    ∃ after, readGroup servFrom (topicBytes topic) pkt =
        (tableCalls servFrom [(topic, accepts)], some after) ∧
      Unread after (fieldBytes rest) := by
  obtain ⟨counted, readCount, unreadCounted⟩ := unread_int unread
  have again : (accepts.map fun accept => (accept.value, accept.id)).flatMap
      (fun entry => entryFields entry.1 entry.2) =
      accepts.flatMap fun a => entryFields a.value a.id :=
    List.flatMap_map _ _ _
  rw [← again] at unreadCounted
  have back : ∀ entry ∈ accepts.map fun accept => (accept.value, accept.id), ∀ pkt rest,
      Unread pkt (fieldBytes (entryFields entry.1 entry.2 ++ rest)) →
      ∃ after, readEntry pkt = some (entry, after) ∧ Unread after (fieldBytes rest) := by
    intro entry member pkt rest unread
    obtain ⟨accept, listed, rfl⟩ := List.mem_map.mp member
    exact readEntry_fields (ints accept listed) unread
  obtain ⟨after, readEntries, unreadAfter⟩ := readMany_fields _ back unreadCounted
  rw [List.length_map] at readEntries
  have readLength : sPacketReadInt pkt = some ((accepts.length : Int), counted) := by
    unfold sPacketReadInt
    rw [readCount, Option.map_some]
    dsimp only
    rw [toInt_length few]
  refine ⟨after, ?_, unreadAfter⟩
  unfold readGroup
  rw [readLength]
  dsimp only
  rw [Int.toNat_natCast, readEntries, topicOf_topicBytes isText, tableCalls,
    List.flatMap_singleton, List.map_map]
  rfl

/-- The backup: the number of its entries, the entries. -/
theorem readBackup_fields {backup : List PaxosAccept}
    (stored : ∀ accept ∈ backup, IsText accept.topic ∧ IsIntId accept.id) {rest : List Field}
    (small : ((fieldBytes (backupFields backup)).length : Int) ≤ sPktMaxSz)
    (unread : Unread pkt (fieldBytes (backupFields backup ++ rest))) :
    ∃ counted after, sPacketReadInt pkt = some ((backup.length : Int), counted) ∧
      readMany readTopicEntry backup.length counted = (backup, some after) ∧
      Unread after (fieldBytes rest) := by
  obtain ⟨counted, readCount, unreadCounted⟩ := unread_int unread
  have few : (backup.length : Int) ≤ sPktMaxSz := by
    have entries := @length_le_fieldBytes _
      (fun a : PaxosAccept => topicEntryFields a.topic a.value a.id) backup (by
        intro accept
        rw [topicEntryFields, ← List.singleton_append, fieldBytes_append, List.length_append,
          entryFields_length]
        omega)
    rw [backupFields, ← List.singleton_append, fieldBytes_append, List.length_append] at small
    push_cast at small
    omega
  have back : ∀ entry ∈ backup, ∀ pkt rest,
      Unread pkt (fieldBytes (topicEntryFields entry.topic entry.value entry.id ++ rest)) →
      ∃ after, readTopicEntry pkt = some (entry, after) ∧ Unread after (fieldBytes rest) :=
    fun entry listed pkt rest unread =>
      readTopicEntry_fields (stored entry listed).1 (stored entry listed).2 unread
  obtain ⟨after, readEntries, unreadAfter⟩ := readMany_fields _ back unreadCounted
  refine ⟨counted, after, ?_, readEntries, unreadAfter⟩
  unfold sPacketReadInt
  rw [readCount, Option.map_some]
  dsimp only
  rw [toInt_length few]

/-- A group has no more entries than the table has bytes. -/
theorem length_le_groups {group : Topic × List PaxosAccept}
    {groups : List (Topic × List PaxosAccept)} (listed : group ∈ groups) :
    group.2.length ≤ (fieldBytes (groups.flatMap groupFields)).length := by
  obtain ⟨front, back, rfl⟩ := List.append_of_mem listed
  have entries := @length_le_fieldBytes _ (fun a : PaxosAccept => entryFields a.value a.id)
    group.2 (fun accept => by rw [entryFields_length]; omega)
  have inside : groupFields group =
      [.string (topicBytes group.1)] ++ ([.int (BitVec.ofNat 32 group.2.length)] ++
        group.2.flatMap fun a => entryFields a.value a.id) := rfl
  rw [List.flatMap_append, List.flatMap_cons, inside]
  simp only [fieldBytes_append, List.length_append]
  omega

/-- The groups are read to the end of the packet, and the calls are those of the
table. -/
theorem groupReads_fields (servFrom : Nat) (groups : List (Topic × List PaxosAccept))
    (texts : ∀ group ∈ groups, IsText group.1)
    (ints : ∀ group ∈ groups, ∀ accept ∈ group.2, IsIntId accept.id)
    (small : ((fieldBytes (groups.flatMap groupFields)).length : Int) ≤ sPktMaxSz)
    (unread : Unread pkt (fieldBytes (groups.flatMap groupFields))) :
    ∃ after, groupReads servFrom pkt = (tableCalls servFrom groups, some after) ∧
      after.pos = after.size := by
  have back : ∀ group ∈ groups, ∀ pkt rest,
      Unread pkt (fieldBytes (listFields group.2 ++ rest)) →
      ∃ after, readGroup servFrom (topicBytes group.1) pkt =
          (tableCalls servFrom [group], some after) ∧ Unread after (fieldBytes rest) := by
    intro group listed pkt rest unread
    have few := length_le_groups listed
    exact readGroup_fields servFrom (texts group listed) (ints group listed) (by omega) unread
  obtain ⟨after, read, atEnd⟩ := readWhileString_fields groups
    (fun group listed => topicBytes_short (texts group listed)) back
    (length_le_left groups unread) unread
  refine ⟨after, ?_, atEnd⟩
  unfold groupReads
  rw [read]
  congr 1
  unfold tableCalls
  simp only [List.flatMap_singleton]

end

/-! ## The whole way -/

/-- A response framed again by the proposer holds its body unread. -/
theorem unread_returned {pkt : SPacket} {code req body : List UInt8}
    (filled : Filled pkt (wordBytes (BitVec.ofNat 32 (body.length + 12)) ++ (code ++ req)) body 0)
    (fourCode : code.length = 4) (fourReq : req.length = 4)
    (small : (body.length : Int) ≤ sPktMaxSz) (reqId : BitVec 32) :
    ∃ received, sPacketCreateFrom
        ((sServgRpcRet pkt reqId).data.take (sServgRpcRet pkt reqId).size.toNat) =
          some (some received) ∧ Unread received body :=
  unread_framed (filled_sServgRpcRet filled fourCode fourReq reqId) small

/-- The id of a report is that of an entry, or zero. -/
theorem isIntId_prepareReport {id : SId} {accepts : List PaxosAccept}
    (ints : ∀ accept ∈ accepts, IsIntId accept.id) : IsIntId (prepareReport id accepts).1 := by
  rcases (prepareReport_first id accepts).2 with nothing | ⟨_, _, accept, found, same⟩
  · rw [nothing]
    exact ⟨by decide, by decide⟩
  · rw [same]
    exact ints accept (List.mem_of_find?_eq_some found)

/-- What a handler reads of a response. -/
theorem membershipReads_fields {layout : Layout} {paxos : SPaxos} {request : PrepareRequest}
    (stored : OnWire paxos) (membership : request.type ≠ .normal) (servFrom : Nat)
    (small : ((fieldBytes (responseFields layout request paxos)).length : Int) ≤ sPktMaxSz)
    {pkt : SPacket} (unread : Unread pkt (fieldBytes (responseFields layout request paxos))) :
    ∃ after, membershipReads request servFrom pkt =
        { badVersion := false
          report := reportOf request.id (paxos.accepts request.topic)
          calls := answerCalls layout paxos request servFrom
          left := some after } ∧
      after.pos = after.size := by
  have texts : ∀ group ∈ acceptGroups layout paxos, IsText group.1 := texts_acceptGroups stored
  have ints : ∀ group ∈ acceptGroups layout paxos, ∀ accept ∈ group.2, IsIntId accept.id := by
    intro group member
    obtain ⟨topic, _, rfl⟩ := List.mem_map.mp member
    exact stored.accepts topic
  unfold responseFields at unread small
  rw [if_pos membership] at unread small
  obtain ⟨suc, afterReport, report, good, unreadReport⟩ :=
    readReport_fields (isIntId_prepareReport (stored.accepts request.topic)) unread
  simp only [fieldBytes_append, List.length_append] at small
  push_cast at small
  unfold membershipReads answerCalls
  by_cases removal : request.type = .rm
  · rw [if_pos removal] at unreadReport small
    rw [if_pos removal, if_pos removal]
    unfold iReceiveResponseRmReads
    obtain ⟨counted, middle, readCount, readEntries, unreadMiddle⟩ :=
      readBackup_fields (backup_stored stored request.theServ) (by omega) unreadReport
    obtain ⟨after, groups, atEnd⟩ :=
      groupReads_fields servFrom _ texts ints (by omega) unreadMiddle
    refine ⟨after, ?_, atEnd⟩
    rw [report]
    dsimp only
    rw [if_neg good, readCount]
    dsimp only
    rw [Int.toNat_natCast, readEntries]
    dsimp only
    rw [groups]
    rfl
  · rw [if_neg removal] at unreadReport small
    rw [if_neg removal, if_neg removal]
    obtain ⟨after, groups, atEnd⟩ :=
      groupReads_fields servFrom _ texts ints (by omega) unreadReport
    refine ⟨after, ?_, atEnd⟩
    unfold iReceiveResponseAddReads
    rw [report]
    dsimp only
    rw [if_neg good, groups]
    rfl

/-- The proposer has made the calls, has read the id and the value that the
acceptor has found, if it has found an entry, and is at the end of the packet. -/
structure DecodesTables (reads : ResponseReads) (found : SId × Value) (calls : List LearnCall) :
    Prop where
  accepted : reads.badVersion = false
  calls : reads.calls = calls
  report : reads.report = if found.1 = ⟨0, 0⟩ then none else some found
  atEnd : ∃ pkt, reads.left = some pkt ∧ pkt.pos = pkt.size

/-- The first of the entries with the greatest id below `id`, should that be above
0.0, has a value that is not negative. -/
def Reportable (id : SId) (accepts : List PaxosAccept) : Prop :=
  ∀ accept, accepts.find? (fun other => other.id == accept.id) = some accept →
    ⟨0, 0⟩ < accept.id → accept.id < id →
    (∀ other ∈ accepts, other.id < id → other.id ≤ accept.id) → 0 ≤ accept.value.toInt

/-- A negative value stands for no entry, and only then is the report lost. -/
theorem report_iff_reportable (id : SId) (accepts : List PaxosAccept) :
    (reportOf id accepts = if (prepareReport id accepts).1 = ⟨0, 0⟩ then none
      else some (prepareReport id accepts)) ↔ Reportable id accepts := by
  obtain ⟨covers, origin⟩ := prepareReport_first id accepts
  unfold reportOf
  dsimp only
  rcases origin with nothing | ⟨positive, below, entry, found, same⟩
  · rw [nothing] at covers ⊢
    refine iff_of_true rfl ?_
    intro accept first above under _
    exact absurd above (not_lt.mpr (covers accept (List.mem_of_find?_eq_some first) under))
  · rw [if_neg positive.ne']
    rw [same] at covers positive below found ⊢
    constructor
    · intro reported accept first _ under greatest
      have isEntry : accept.id = entry.id :=
        le_antisymm (covers accept (List.mem_of_find?_eq_some first) under)
          (greatest entry (List.mem_of_find?_eq_some found) below)
      rw [isEntry, found] at first
      cases first
      by_contra negative
      rw [if_pos (not_le.mp negative)] at reported
      cases reported
    · intro reportable
      have nonneg := reportable entry found positive below covers
      rw [if_neg (not_lt.mpr nonneg)]

/-- What the proposer reads of the packet the acceptor returns. -/
theorem reads_of_response {layout : Layout} {paxos : SPaxos} {request : PrepareRequest}
    (stored : OnWire paxos) (membership : request.type ≠ .normal)
    (current : paxos.version.version = request.version.version)
    (small : (writeResponse layout request paxos Writer.counting).2.sz ≤ sPktMaxSz)
    (junk : Nat → UInt8) (reqId : BitVec 32) (servFrom : Nat) :
    ∃ reply received after, ireceiveRequestPacket layout junk paxos request = some reply ∧
      sPacketCreateFrom
        ((sServgRpcRet reply reqId).data.take (sServgRpcRet reply reqId).size.toNat) =
          some (some received) ∧
      membershipReads request servFrom received =
        { badVersion := false
          report := reportOf request.id (paxos.accepts request.topic)
          calls := answerCalls layout paxos request servFrom
          left := some after } ∧
      after.pos = after.size := by
  have writes := writes_writeResponse layout request paxos
  have size : ((fieldBytes (responseFields layout request paxos)).length : Int) ≤ sPktMaxSz := by
    rw [writes, Writer.counting, Writer.writeAll_counting, Int.zero_add] at small
    exact small
  obtain ⟨reply, req, written, fourReq, filled⟩ :=
    sPacketStartWrite_filled writes writes rfl (fits_responseFields stored) size 0 junk
  obtain ⟨received, framed, unread⟩ := unread_returned filled rfl fourReq size reqId
  obtain ⟨after, reads, atEnd⟩ := membershipReads_fields stored membership servFrom size unread
  refine ⟨reply, received, after, ?_, framed, reads, atEnd⟩
  rw [ireceiveRequestPacket, if_neg (not_not.mpr current), written]

/-- **A response to a membership request decodes to the acceptor's tables**: the
proposer, framing the packet again, calls `ilearn` once for each entry of the
accept table, and of the backup for an RM request, and ends with the packet.  It
reads the accepted value found exactly if this is not negative. -/
theorem prepare_response_decodes_iff {layout : Layout} {paxos : SPaxos} {request : PrepareRequest}
    (stored : OnWire paxos) (membership : request.type ≠ .normal)
    (current : paxos.version.version = request.version.version)
    (small : (writeResponse layout request paxos Writer.counting).2.sz ≤ sPktMaxSz)
    (junk : Nat → UInt8) (reqId : BitVec 32) (servFrom : Nat) :
    ∃ reply received, ireceiveRequestPacket layout junk paxos request = some reply ∧
      sPacketCreateFrom
        ((sServgRpcRet reply reqId).data.take (sServgRpcRet reply reqId).size.toNat) =
          some (some received) ∧
      (DecodesTables (membershipReads request servFrom received)
          (prepareReport request.id (paxos.accepts request.topic))
          (answerCalls layout paxos request servFrom) ↔
        Reportable request.id (paxos.accepts request.topic)) := by
  obtain ⟨reply, received, after, written, framed, reads, atEnd⟩ :=
    reads_of_response stored membership current small junk reqId servFrom
  refine ⟨reply, received, written, framed, ?_⟩
  rw [reads, ← report_iff_reportable]
  constructor
  · exact fun decodes => decodes.report
  · exact fun report => ⟨rfl, rfl, report, after, rfl, atEnd⟩

/-- An acceptor of version 1 that has accepted one value for the next version and
holds one entry of a server that has left. -/
def acceptorOf (value : Value) : SPaxos :=
  { sPaxosCreate 1 with
    accept := (∅ : Table Topic (List PaxosAccept)).insert (versionTopic 2)
      [{ topic := versionTopic 2, id := ⟨1, 1⟩, value := value }]
    backup := (∅ : Table Nat (List PaxosAccept)).insert 2
      [{ topic := [97], id := ⟨2, 1⟩, value := 5 }] }

/-- A request to remove server 2. -/
def removalRequest : PrepareRequest where
  topic := versionTopic 2
  id := ⟨1, 2⟩
  value := 2
  type := .rm
  theServ := 2
  version := { version := 1, servs := [1] }

theorem onWire_acceptorOf (value : Value) : OnWire (acceptorOf value) := by
  have isText : IsText (versionTopic 2) := ⟨by decide, by decide⟩
  constructor
  · intro topic member
    rcases (AList.mem_insert _).mp member with rfl | old
    · exact isText
    · exact absurd old (AList.notMem_empty topic)
  · intro topic accept listed
    unfold SPaxos.accepts acceptorOf at listed
    by_cases same : topic = versionTopic 2
    · rw [same, AList.lookup_insert] at listed
      rw [List.mem_singleton.mp listed]
      show IsIntId ⟨1, 1⟩
      exact ⟨by decide, by decide⟩
    · rw [AList.lookup_insert_ne same] at listed
      exact absurd listed List.not_mem_nil
  · intro serv backup found accept listed
    unfold acceptorOf at found
    by_cases same : serv = 2
    · rw [same, AList.lookup_insert] at found
      cases found
      rw [List.mem_singleton.mp listed]
      exact ⟨⟨by decide, by decide⟩, by decide, by decide⟩
    · rw [AList.lookup_insert_ne same] at found
      cases found

theorem prepare_response_decodes_removal :
    ∃ reply received,
      ireceiveRequestPacket Layout.natural (fun _ => 0) (acceptorOf 6) removalRequest =
          some reply ∧
        sPacketCreateFrom
          ((sServgRpcRet reply 9).data.take (sServgRpcRet reply 9).size.toNat) =
            some (some received) ∧
        (DecodesTables (membershipReads removalRequest 1 received)
            (prepareReport removalRequest.id ((acceptorOf 6).accepts removalRequest.topic))
            (answerCalls Layout.natural (acceptorOf 6) removalRequest 1) ↔
          Reportable removalRequest.id ((acceptorOf 6).accepts removalRequest.topic)) :=
  prepare_response_decodes_iff (onWire_acceptorOf 6) (by decide) rfl (by decide +kernel)
    (fun _ => 0) 9 1

/-- The value names server 31, so it is negative and is not reported. -/
theorem not_always_prepare_response_decodes :
    ¬ ∀ (layout : Layout) (paxos : SPaxos) (request : PrepareRequest) (junk : Nat → UInt8)
        (reqId : BitVec 32) (servFrom : Nat), OnWire paxos → request.type ≠ .normal →
        paxos.version.version = request.version.version →
        (writeResponse layout request paxos Writer.counting).2.sz ≤ sPktMaxSz →
        ∀ reply received, ireceiveRequestPacket layout junk paxos request = some reply →
          sPacketCreateFrom
            ((sServgRpcRet reply reqId).data.take (sServgRpcRet reply reqId).size.toNat) =
              some (some received) →
          DecodesTables (membershipReads request servFrom received)
            (prepareReport request.id (paxos.accepts request.topic))
            (answerCalls layout paxos request servFrom) := by
  intro always
  have stored := onWire_acceptorOf 0x80000002
  have small : (writeResponse Layout.natural removalRequest (acceptorOf 0x80000002)
      Writer.counting).2.sz ≤ sPktMaxSz := by decide +kernel
  obtain ⟨reply, received, after, written, framed, reads, _⟩ :=
    @reads_of_response Layout.natural _ removalRequest stored (by decide) rfl small (fun _ => 0) 9 1
  have decodes := always _ _ _ _ _ 1 stored (by decide) rfl small reply received written framed
  have report := decodes.report
  rw [reads] at report
  have lost : reportOf removalRequest.id ((acceptorOf 0x80000002).accepts removalRequest.topic) =
      none := by decide +kernel
  have found : (prepareReport removalRequest.id
      ((acceptorOf 0x80000002).accepts removalRequest.topic)).1 ≠ ⟨0, 0⟩ := by decide +kernel
  rw [lost, if_neg found] at report
  cases report

end SimpleDfs.Wire
