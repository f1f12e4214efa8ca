import SimpleDfs.Paxos.Installing
import SimpleDfs.Wire.Counts
import SimpleDfs.Wire.CreateOutcome
import SimpleDfs.Wire.Entries

/-!
Contract: the packet of the majority values (`idump_learn` of
`core/s_core_paxos.c`, `s_array_rm` of `common/s_array.c`).

Owns: the scan that deletes entries from the array it runs over, the two passes
that make it, the loops that read the packet, and that it lists exactly the
values a majority of the members has.

The first pass deletes the entries of servers that are no members, so the second
runs over other arrays; both count the same entries.

Does not own: who asks for a dump.
-/

set_option autoImplicit false

namespace SimpleDfs.Wire

open SimpleDfs.Common
open SimpleDfs.Library
open SimpleDfs.Net
open SimpleDfs.Paxos

/-! ## `s_array_rm` -/

section

variable {α : Type}

/-- The loop of `s_array_rm`: copy the next element over this one, `turns`
times. -/
def shiftLoop : Nat → Nat → List α → List α
  | _, 0, array => array
  | i, turns + 1, array =>
      match array[i + 1]? with
      | none => array
      | some next => shiftLoop (i + 1) turns (array.set i next)

/-- `s_array_rm`. -/
def sArrayRm (array : List α) (index : Nat) : List α :=
  if index ≥ array.length then array
  else (shiftLoop index (array.length - 1 - index) array).dropLast

theorem shiftLoop_split (back : List α) :
    ∀ (front : List α) (element : α),
      (shiftLoop front.length back.length (front ++ element :: back)).dropLast = front ++ back := by
  induction back with
  | nil =>
      intro front element
      rw [List.append_nil]
      exact List.dropLast_concat
  | cons next rest inductionHypothesis =>
      intro front element
      have there : (front ++ element :: next :: rest)[front.length + 1]? = some next := by
        rw [List.getElem?_append_right (by omega)]
        simp
      have copied : (front ++ element :: next :: rest).set front.length next =
          (front ++ [next]) ++ next :: rest := by
        rw [List.set_append_right _ _ le_rfl, Nat.sub_self]
        simp
      have moved := inductionHypothesis (front ++ [next]) next
      rw [List.length_append, List.length_singleton] at moved
      rw [List.length_cons, shiftLoop, there]
      dsimp only
      rw [copied, moved, List.append_assoc]
      rfl

/-- The element is removed, those behind it move down. -/
theorem sArrayRm_split (front back : List α) (element : α) :
    sArrayRm (front ++ element :: back) front.length = front ++ back := by
  have inside : ¬ front.length ≥ (front ++ element :: back).length := by
    rw [List.length_append, List.length_cons]
    omega
  have turns : (front ++ element :: back).length - 1 - front.length = back.length := by
    rw [List.length_append, List.length_cons]
    omega
  rw [sArrayRm, if_neg inside, turns]
  exact shiftLoop_split back front element

end

/-! ## Writing -/

/-- The scan of one learn list from index `i` on, at most `turns` turns: the list
it leaves, and what it writes. -/
def dumpScan (paxos : SPaxos) (topic : Topic) :
    Nat → Nat → List Value → List PaxosLearn → Writer → List PaxosLearn × Writer
  | 0, _, _, array, writer => (array, writer)
  | turns + 1, i, counted, array, writer =>
      match array[i]? with
      | none => (array, writer)
      | some learn =>
          if ¬ sPaxosIsIn paxos learn.servId then
            -- `s_array_rm`, then `i--` and `continue`
            dumpScan paxos topic turns i counted (sArrayRm array i) writer
          else
            let counted := learn.value :: counted
            let writer :=
              if counted.count learn.value > paxos.version.nserv / 2 then
                writeTopicEntry writer topic learn.value learn.id
              else writer
            dumpScan paxos topic turns (i + 1) counted array writer

/-- One turn of the loop over the topics. -/
def dumpTopic (state : SPaxos × Writer) (topic : Topic) : SPaxos × Writer :=
  let (paxos, writer) := state
  let array := paxos.learns topic
  let (array, writer) := dumpScan paxos topic array.length 0 [] array writer
  ({ paxos with learn := AList.replace topic array paxos.learn }, writer)

/-- The body between `s_packet_start_write` and `s_packet_end_write`. -/
def writeDump (layout : Layout) (paxos : SPaxos) (writer : Writer) : SPaxos × Writer :=
  let writer := sPacketWint writer (BitVec.ofInt 32 paxos.version.version)
  let writer := sPacketWint writer (BitVec.ofNat 32 paxos.version.nserv)
  let writer := paxos.version.servs.foldl
    (fun writer serv => sPacketWint writer (BitVec.ofNat 32 serv)) writer
  (layout.topics.arrange paxos.learn.keys).foldl dumpTopic (paxos, writer)

/-- `idump_learn` with the packet it makes; without `gen_pkt` it only drops it
again. -/
def idumpLearnPacket (layout : Layout) (junk : Nat → UInt8) (paxos : SPaxos) :
    SPaxos × Option SPacket :=
  sPacketStartWrite 0 junk (writeDump layout) paxos

/-! ## Reading -/

/-- What a handler reads of a dump, and the packet where it ends, if it does not
leave at `label_error`. -/
structure DumpReads where
  version : Int
  servs : List Int
  entries : List PaxosAccept
  left : Option SPacket

/-- One turn of the loop over entries. -/
def readDumpEntry (text : List UInt8) (pkt : SPacket) : List PaxosAccept × Option SPacket :=
  match readEntry pkt with
  | none => ([], none)
  | some ((value, id), pkt) => ([{ topic := topicOf text, id := id, value := value }], some pkt)

/-- The reads of `ireceive_add_accept`; a packet has no more entries than
bytes. -/
def ireceiveAddAcceptReads (pkt : SPacket) : Option DumpReads :=
  match readAddAcceptHead pkt with
  | none => none
  | some (head, pkt) =>
      match readMany sPacketReadInt head.nserv.toNat pkt with
      | (_, none) => none
      | (servs, some pkt) =>
          let (entries, left) := readWhileString readDumpEntry pkt.left pkt
          some { version := head.version, servs := servs, entries := entries, left := left }

/-! ## The two passes -/

/-- The fields written for a learn list. -/
def scanFields (topic : Topic) (reported : List PaxosLearn) : List Field :=
  reported.flatMap fun learn => topicEntryFields topic learn.value learn.id

/-- The entries of current members. -/
def memberEntries (paxos : SPaxos) (array : List PaxosLearn) : List PaxosLearn :=
  array.filter fun learn => sPaxosIsIn paxos learn.servId

theorem memberEntries_twice (paxos : SPaxos) (array : List PaxosLearn) :
    memberEntries paxos (memberEntries paxos array) = memberEntries paxos array := by
  unfold memberEntries
  rw [List.filter_filter]
  simp only [Bool.and_self]

/-- What the scan of a list reports. -/
def reportedEntries (paxos : SPaxos) (counted : List Value) (array : List PaxosLearn) :
    List PaxosLearn :=
  majorityScan paxos.version.nserv false counted (memberEntries paxos array)

/-- **The scan**, with the kept entries in front of index `i`: it deletes the
entries of non-members that follow, and counts the others. -/
theorem dumpScan_split (paxos : SPaxos) (topic : Topic) (back : List PaxosLearn) :
    ∀ (turns : Nat) (front : List PaxosLearn) (counted : List Value) (writer : Writer),
      back.length ≤ turns →
      dumpScan paxos topic turns front.length counted (front ++ back) writer =
        (front ++ memberEntries paxos back,
          writer.writeAll (scanFields topic (reportedEntries paxos counted back))) := by
  induction back with
  | nil =>
      intro turns front counted writer _
      have atEnd : (front ++ [])[front.length]? = none := by
        rw [List.append_nil]
        exact List.getElem?_eq_none le_rfl
      cases turns with
      | zero => rfl
      | succ turns =>
          rw [dumpScan, atEnd]
          rfl
  | cons learn rest inductionHypothesis =>
      intro turns front counted writer enough
      cases turns with
      | zero => exact absurd enough (Nat.not_succ_le_zero _)
      | succ turns =>
          have fewer := Nat.le_of_succ_le_succ enough
          have there : (front ++ learn :: rest)[front.length]? = some learn := by
            rw [List.getElem?_append_right le_rfl, Nat.sub_self]
            rfl
          rw [dumpScan, there]
          dsimp only
          by_cases isMember : sPaxosIsIn paxos learn.servId = true
          · have kept : memberEntries paxos (learn :: rest) = learn :: memberEntries paxos rest :=
              List.filter_cons_of_pos isMember
            have step : ∀ writer : Writer,
                dumpScan paxos topic turns (front.length + 1) (learn.value :: counted)
                  (front ++ learn :: rest) writer =
                (front ++ learn :: memberEntries paxos rest, writer.writeAll
                  (scanFields topic (reportedEntries paxos (learn.value :: counted) rest))) := by
              intro writer
              have later := inductionHypothesis turns (front ++ [learn]) (learn.value :: counted)
                writer fewer
              rw [List.length_append, List.length_singleton, List.append_assoc,
                List.append_assoc] at later
              exact later
            have reported : reportedEntries paxos counted (learn :: rest) =
                if (learn.value :: counted).count learn.value > paxos.version.nserv / 2 then
                  learn :: reportedEntries paxos (learn.value :: counted) rest
                else reportedEntries paxos (learn.value :: counted) rest := by
              unfold reportedEntries
              rw [kept, majorityScan]
              simp only [Bool.or_false, decide_eq_true_eq]
            rw [if_neg (not_not.mpr isMember), step, reported, kept]
            by_cases passed : (learn.value :: counted).count learn.value > paxos.version.nserv / 2
            · rw [if_pos passed, if_pos passed, writeTopicEntry_eq, scanFields, scanFields,
                List.flatMap_cons, Writer.writeAll_append]
            · rw [if_neg passed, if_neg passed]
          · have dropped : memberEntries paxos (learn :: rest) = memberEntries paxos rest :=
              List.filter_cons_of_neg isMember
            have reported : reportedEntries paxos counted (learn :: rest) =
                reportedEntries paxos counted rest := by
              unfold reportedEntries
              rw [dropped]
            rw [if_pos isMember, sArrayRm_split, dropped, reported]
            exact inductionHypothesis turns front counted writer fewer

/-- One list from its start. -/
theorem dumpScan_list (paxos : SPaxos) (topic : Topic) (array : List PaxosLearn)
    (writer : Writer) :
    dumpScan paxos topic array.length 0 [] array writer =
      (memberEntries paxos array,
        writer.writeAll (scanFields topic (reportedEntries paxos [] array))) :=
  dumpScan_split paxos topic array array.length [] [] writer le_rfl

/-- The acceptor with the lists of some topics scanned. -/
def scannedWhere (paxos : SPaxos) (test : Topic → Bool) : SPaxos :=
  { paxos with learn := paxos.learn.mapWhere test (memberEntries paxos) }

/-- One topic that is not scanned yet. -/
theorem dumpTopic_scanned {paxos : SPaxos} {test : Topic → Bool} {topic : Topic}
    (inside : topic ∈ paxos.learn) (fresh : test topic = false) (writer : Writer) :
    dumpTopic (scannedWhere paxos test, writer) topic =
      (scannedWhere paxos fun other => test other || decide (other = topic),
        writer.writeAll (scanFields topic (reportedEntries paxos [] (paxos.learns topic)))) := by
  obtain ⟨array, found⟩ := Option.isSome_iff_exists.mp (AList.lookup_isSome.mpr inside)
  have listed : paxos.learns topic = array := by
    rw [SPaxos.learns, found]
    rfl
  have same : (scannedWhere paxos test).learns topic = array := by
    unfold SPaxos.learns scannedWhere
    dsimp only
    rw [Table.lookup_mapWhere, found, fresh]
    rfl
  unfold dumpTopic
  dsimp only
  rw [same, dumpScan_list, listed]
  have replaced : AList.replace topic (memberEntries paxos array)
      (paxos.learn.mapWhere test (memberEntries paxos)) =
        paxos.learn.mapWhere (fun other => test other || decide (other = topic)) (memberEntries paxos) :=
    @Table.replace_mapWhere _ _ _ paxos.learn test (memberEntries paxos) topic array found
  exact congrArg (fun learn => (({ paxos with learn := learn } : SPaxos), _)) replaced

/-- The loop over the topics. -/
theorem foldl_dumpTopic {paxos : SPaxos} (topics : List Topic) :
    ∀ (test : Topic → Bool) (writer : Writer), topics.Nodup → (∀ topic ∈ topics, topic ∈ paxos.learn) →
      (∀ topic ∈ topics, test topic = false) →
      topics.foldl dumpTopic (scannedWhere paxos test, writer) =
        (scannedWhere paxos fun other => test other || decide (other ∈ topics),
          writer.writeAll (topics.flatMap fun topic =>
            scanFields topic (reportedEntries paxos [] (paxos.learns topic)))) := by
  induction topics with
  | nil =>
      intro test writer _ _ _
      simp only [List.foldl_nil, List.not_mem_nil, decide_false, Bool.or_false, List.flatMap_nil,
        Writer.writeAll_nil]
  | cons topic rest inductionHypothesis =>
      intro test writer nodup inside fresh
      obtain ⟨absent, others⟩ := List.nodup_cons.mp nodup
      rw [List.foldl_cons, dumpTopic_scanned (inside topic List.mem_cons_self)
        (fresh topic List.mem_cons_self), inductionHypothesis _ _ others
        (fun other member => inside other (List.mem_cons_of_mem topic member)), List.flatMap_cons,
        Writer.writeAll_append]
      · simp only [List.mem_cons, Bool.decide_or, Bool.or_assoc]
      · intro other member
        have different : ¬ other = topic := by
          rintro rfl
          exact absent member
        rw [fresh other (List.mem_cons_of_mem topic member), decide_eq_false different]
        rfl

/-- The fields of a dump. -/
def dumpFields (version : PaxosVersion) (entries : List PaxosAccept) : List Field :=
  .int (BitVec.ofInt 32 version.version) :: .int (BitVec.ofNat 32 version.nserv) ::
    (version.servs.map (fun serv => Field.int (BitVec.ofNat 32 serv)) ++
      entries.flatMap fun entry => topicEntryFields entry.topic entry.value entry.id)

/-- The entries of the abstract dump, topic by topic. -/
theorem entries_idumpLearn (layout : Layout) (paxos : SPaxos) :
    (idumpLearn layout paxos).2.entries =
      (layout.topics.arrange paxos.learn.keys).flatMap fun topic =>
        (reportedEntries paxos [] (paxos.learns topic)).map fun learn =>
          { topic := topic, id := learn.id, value := learn.value } := by
  have keys : (idumpLearn layout paxos).1.learn.keys = paxos.learn.keys :=
    Table.keys_map_entries (memberEntries paxos) paxos.learn.entries
  have unfolded : (idumpLearn layout paxos).2.entries =
      (layout.topics.arrange (idumpLearn layout paxos).1.learn.keys).flatMap fun topic =>
        (majorityScan paxos.version.nserv false []
          ((idumpLearn layout paxos).1.learns topic)).map fun learn =>
            { topic := topic, id := learn.id, value := learn.value } := rfl
  rw [unfolded, keys]
  congr 1
  funext topic
  rw [learns_idumpLearn]
  rfl

/-- **One pass** writes the abstract dump, and deletes the entries of
non-members. -/
theorem writes_writeDump (layout : Layout) (paxos : SPaxos) :
    Writes (writeDump layout) paxos
      (dumpFields paxos.version (idumpLearn layout paxos).2.entries)
      (idumpLearn layout paxos).1 := by
  intro writer
  have start : scannedWhere paxos (fun _ => false) = paxos := by
    unfold scannedWhere
    rw [Table.mapWhere_none]
  have finish : scannedWhere paxos
      (fun other => false || decide (other ∈ layout.topics.arrange paxos.learn.keys)) =
        (idumpLearn layout paxos).1 := by
    unfold scannedWhere
    rw [Table.mapWhere_all]
    · rfl
    · intro topic member
      rw [Bool.false_or, decide_eq_true_eq]
      exact (layout.topics.mem_arrange _ topic).mpr (AList.mem_keys.mp member)
  have nodup : (layout.topics.arrange paxos.learn.keys).Nodup :=
    (layout.topics.arrange_perm paxos.learn.keys).nodup_iff.mpr paxos.learn.keys_nodup
  have inside : ∀ topic ∈ layout.topics.arrange paxos.learn.keys, topic ∈ paxos.learn :=
    fun topic listed => AList.mem_keys.mpr ((layout.topics.mem_arrange _ topic).mp listed)
  have members : ∀ writer : Writer,
      paxos.version.servs.foldl (fun writer serv => sPacketWint writer (BitVec.ofNat 32 serv))
        writer =
      writer.writeAll (paxos.version.servs.map fun serv => Field.int (BitVec.ofNat 32 serv)) := by
    intro writer
    rw [List.map_eq_flatMap, ← Writer.foldl_writeAll]
    rfl
  have entries : ((idumpLearn layout paxos).2.entries.flatMap fun entry =>
      topicEntryFields entry.topic entry.value entry.id) =
      (layout.topics.arrange paxos.learn.keys).flatMap fun topic =>
        scanFields topic (reportedEntries paxos [] (paxos.learns topic)) := by
    rw [entries_idumpLearn, List.flatMap_assoc]
    congr 1
    funext topic
    rw [List.flatMap_map]
    rfl
  have loop := fun writer =>
    foldl_dumpTopic _ (fun _ => false) writer nodup inside (fun _ _ => rfl)
  rw [start, finish] at loop
  unfold writeDump
  dsimp only
  rw [members, loop, dumpFields, Writer.writeAll_cons, Writer.writeAll_cons,
    Writer.writeAll_append, entries]
  rfl

/-- **The second pass sees another table**, and a dump of it is the same. -/
theorem idumpLearn_twice (layout : Layout) (paxos : SPaxos) :
    idumpLearn layout (idumpLearn layout paxos).1 = idumpLearn layout paxos := by
  have again : (paxos.learn.mapValues (memberEntries paxos)).mapValues (memberEntries paxos) =
      paxos.learn.mapValues (memberEntries paxos) := by
    rw [Table.mapValues_mapValues]
    congr 1
    funext array
    exact memberEntries_twice paxos array
  unfold memberEntries sPaxosIsIn at again
  unfold idumpLearn sPaxosIsIn
  dsimp only
  rw [again]

/-! ## Reading back -/

theorem fits_dumpFields {version : PaxosVersion} {entries : List PaxosAccept}
    (texts : ∀ entry ∈ entries, IsText entry.topic) :
    ∀ field ∈ dumpFields version entries, field.Fits := by
  intro field member
  rcases List.mem_cons.mp member with rfl | rest
  · trivial
  rcases List.mem_cons.mp rest with rfl | rest
  · trivial
  rcases List.mem_append.mp rest with servs | inEntries
  · obtain ⟨serv, _, rfl⟩ := List.mem_map.mp servs
    trivial
  · obtain ⟨entry, listed, inEntry⟩ := List.mem_flatMap.mp inEntries
    rcases List.mem_cons.mp inEntry with rfl | ints
    · exact topicBytes_short (texts entry listed)
    · exact fits_entryFields entry.value entry.id field ints

/-- The entry with the two words of its id. -/
def wireEntry (entry : PaxosAccept) : PaxosAccept :=
  { entry with id := idOf (BitVec.ofNat 32 entry.id.x) (BitVec.ofNat 32 entry.id.y) }

theorem readDumpEntry_fields {entry : PaxosAccept} (isText : IsText entry.topic) {pkt : SPacket}
    {rest : List Field}
    (unread : Unread pkt (fieldBytes (entryFields entry.value entry.id ++ rest))) :
    ∃ after, readDumpEntry (topicBytes entry.topic) pkt = ([wireEntry entry], some after) ∧
      Unread after (fieldBytes rest) := by
  obtain ⟨after, read, unreadAfter⟩ := readEntry_words unread
  refine ⟨after, ?_, unreadAfter⟩
  unfold readDumpEntry
  rw [read]
  dsimp only
  rw [topicOf_topicBytes isText]
  rfl

/-- The members are read back as ints. -/
theorem readServs_fields (servs : List Nat) {pkt : SPacket} {rest : List Field}
    (unread : Unread pkt (fieldBytes
      (servs.map (fun serv => Field.int (BitVec.ofNat 32 serv)) ++ rest))) :
    ∃ after, readMany sPacketReadInt servs.length pkt =
        (servs.map fun serv => (BitVec.ofNat 32 serv).toInt, some after) ∧
      Unread after (fieldBytes rest) := by
  have fields : servs.map (fun serv => Field.int (BitVec.ofNat 32 serv)) =
      (servs.map fun serv => (BitVec.ofNat 32 serv).toInt).flatMap
        fun number => [Field.int (BitVec.ofInt 32 number)] := by
    rw [List.flatMap_map, List.map_eq_flatMap]
    simp only [BitVec.ofInt_toInt]
  rw [fields] at unread
  have back : ∀ number ∈ servs.map fun serv => (BitVec.ofNat 32 serv).toInt, ∀ pkt rest,
      Unread pkt (fieldBytes ([Field.int (BitVec.ofInt 32 number)] ++ rest)) →
      ∃ after, sPacketReadInt pkt = some (number, after) ∧ Unread after (fieldBytes rest) := by
    intro number listed pkt rest unread
    obtain ⟨serv, _, rfl⟩ := List.mem_map.mp listed
    obtain ⟨after, read, unreadAfter⟩ := unread_int unread
    refine ⟨after, ?_, unreadAfter⟩
    unfold sPacketReadInt
    rw [read, Option.map_some, BitVec.ofInt_toInt]
  obtain ⟨after, read, unreadAfter⟩ := readMany_fields _ back unread
  rw [List.length_map] at read
  exact ⟨after, read, unreadAfter⟩

/-- A dump is read back as it was written. -/
theorem ireceiveAddAcceptReads_fields {version : PaxosVersion} {entries : List PaxosAccept}
    (texts : ∀ entry ∈ entries, IsText entry.topic)
    (small : ((fieldBytes (dumpFields version entries)).length : Int) ≤ sPktMaxSz) {pkt : SPacket}
    (unread : Unread pkt (fieldBytes (dumpFields version entries))) :
    ∃ after, ireceiveAddAcceptReads pkt = some
        { version := (BitVec.ofInt 32 version.version).toInt
          servs := version.servs.map fun serv => (BitVec.ofNat 32 serv).toInt
          entries := entries.map wireEntry, left := some after } ∧
      after.pos = after.size := by
  have few : (version.servs.length : Int) ≤ sPktMaxSz := by
    have inside := @length_le_fieldBytes _ (fun serv => [Field.int (BitVec.ofNat 32 serv)])
      version.servs (fun serv => Nat.succ_pos 3)
    have split : dumpFields version entries =
        [.int (BitVec.ofInt 32 version.version), .int (BitVec.ofNat 32 version.nserv)] ++
          (version.servs.flatMap (fun serv => [Field.int (BitVec.ofNat 32 serv)]) ++
            entries.flatMap fun entry => topicEntryFields entry.topic entry.value entry.id) := by
      rw [← List.map_eq_flatMap]
      rfl
    rw [split] at small
    simp only [fieldBytes_append, List.length_append] at small
    omega
  obtain ⟨first, readVersion, unreadFirst⟩ := unread_int unread
  obtain ⟨second, readCount, unreadSecond⟩ := unread_int unreadFirst
  obtain ⟨third, readServs, unreadThird⟩ := readServs_fields version.servs unreadSecond
  have back : ∀ entry ∈ entries, ∀ pkt rest,
      Unread pkt (fieldBytes (entryFields entry.value entry.id ++ rest)) →
      ∃ after, readDumpEntry (topicBytes entry.topic) pkt = ([wireEntry entry], some after) ∧
        Unread after (fieldBytes rest) :=
    fun entry listed pkt rest => readDumpEntry_fields (texts entry listed)
  obtain ⟨after, readEntries, atEnd⟩ := readWhileString_fields entries
    (fun entry listed => topicBytes_short (texts entry listed)) back
    (length_le_left entries unreadThird) unreadThird
  refine ⟨after, ?_, atEnd⟩
  have head : readAddAcceptHead pkt = some
      ({ version := (BitVec.ofInt 32 version.version).toInt, nserv := version.servs.length },
        second) := by
    simp only [readAddAcceptHead, sPacketReadInt, readVersion, readCount, Option.map_some,
      Option.bind_eq_bind, Option.bind_some, Option.pure_def]
    unfold PaxosVersion.nserv
    rw [toInt_length few]
  unfold ireceiveAddAcceptReads
  rw [head]
  dsimp only
  rw [Int.toNat_natCast, readServs]
  dsimp only
  have each : entries.flatMap (fun entry => [wireEntry entry]) = entries.map wireEntry :=
    List.map_eq_flatMap.symm
  rw [readEntries, each]

/-! ## The learn table -/

/-- The learn table comes from calls of `ilearn`, whose topics a packet takes; all
else may change in between. -/
inductive BuiltByIlearn : SPaxos → Prop
  | empty {paxos : SPaxos} (none : paxos.learn = ∅) : BuiltByIlearn paxos
  | learn {paxos : SPaxos} (built : BuiltByIlearn paxos) (layout : Layout) (coreId : Nat)
      {topic : Topic} (isText : IsText topic) (value : Value) (id : SId) (servId : Nat) :
      BuiltByIlearn (ilearn layout coreId paxos topic value id servId)
  | elsewhere {before after : SPaxos} (built : BuiltByIlearn before)
      (same : after.learn = before.learn) : BuiltByIlearn after

/-- What the calls have put into the table. -/
structure LearnsOnWire (paxos : SPaxos) : Prop where
  topics : ∀ topic ∈ paxos.learn, IsText topic
  once : LearnsOnce paxos

namespace LearnsOnWire

variable {paxos : SPaxos}

theorem of_learn {before after : SPaxos} (stored : LearnsOnWire before)
    (same : after.learn = before.learn) : LearnsOnWire after := by
  obtain ⟨topics, once⟩ := stored
  unfold LearnsOnce SPaxos.learns at once
  rw [← same] at topics once
  exact ⟨topics, once⟩

/-- One call. -/
theorem ilearn (stored : LearnsOnWire paxos) {topic : Topic} (isText : IsText topic)
    (layout : Layout) (coreId : Nat) (value : Value) (id : SId) (servId : Nat) :
    LearnsOnWire (Paxos.ilearn layout coreId paxos topic value id servId) := by
  have inserted : LearnsOnWire { paxos with
      learn := paxos.learn.insert topic (learnInto servId value id (paxos.learns topic)) } := by
    constructor
    · intro other member
      rcases (AList.mem_insert _).mp member with rfl | old
      · exact isText
      · exact stored.topics other old
    · exact learnsOnce_insert stored.once (learnInto_once (stored.once topic))
  exact inserted.of_learn (learn_ilearn layout coreId paxos topic value id servId)

/-- Any sequence of calls. -/
theorem of_built (built : BuiltByIlearn paxos) : LearnsOnWire paxos := by
  induction built with
  | @empty paxos none =>
      constructor
      · intro topic member
        rw [none] at member
        exact absurd member (AList.notMem_empty topic)
      · intro topic
        unfold SPaxos.learns
        rw [none]
        exact List.nodup_nil
  | learn _ layout coreId isText value id servId stored =>
      exact stored.ilearn isText layout coreId value id servId
  | elsewhere _ same stored => exact stored.of_learn same

/-- The topics of a dump are those of the table. -/
theorem dumped (stored : LearnsOnWire paxos) (layout : Layout) :
    ∀ entry ∈ (idumpLearn layout paxos).2.entries, IsText entry.topic := by
  intro entry listed
  rw [entries_idumpLearn] at listed
  obtain ⟨topic, present, reported⟩ := List.mem_flatMap.mp listed
  obtain ⟨learn, _, rfl⟩ := List.mem_map.mp reported
  exact stored.topics topic (AList.mem_keys.mpr ((layout.topics.mem_arrange _ topic).mp present))

end LearnsOnWire

/-! ## The majority -/

/-- The current members with an entry for the topic and the value. -/
def holders (paxos : SPaxos) (topic : Topic) (value : Value) : Finset Nat :=
  paxos.version.servs.toFinset.filter fun serv =>
    ∃ learn ∈ paxos.learns topic, learn.servId = serv ∧ learn.value = value

/-- They are as many as the entries the dump counts. -/
theorem card_holders {paxos : SPaxos} (once : LearnsOnce paxos) (topic : Topic) (value : Value) :
    (holders paxos topic value).card =
      ((memberEntries paxos (paxos.learns topic)).map PaxosLearn.value).count value := by
  have onceKept : ((memberEntries paxos (paxos.learns topic)).map PaxosLearn.source).Nodup :=
    (once topic).sublist (List.filter_sublist.map _)
  obtain ⟨servers, distinct, length, holds⟩ := count_holders onceKept value
  have same : holders paxos topic value = servers.toFinset := by
    ext serv
    unfold holders
    rw [Finset.mem_filter, List.mem_toFinset, List.mem_toFinset, holds]
    constructor
    · rintro ⟨isMember, learn, listed, isServ, isValue⟩
      have isIn : sPaxosIsIn paxos learn.servId = true := by
        rw [isServ]
        exact List.contains_iff_mem.mpr isMember
      exact ⟨learn, List.mem_filter.mpr ⟨listed, isIn⟩, isServ, isValue⟩
    · rintro ⟨learn, kept, isServ, isValue⟩
      obtain ⟨listed, isIn⟩ := List.mem_filter.mp kept
      have isMember := List.contains_iff_mem.mp isIn
      rw [isServ] at isMember
      exact ⟨isMember, learn, listed, isServ, isValue⟩
  rw [same, List.toFinset_card_of_nodup distinct, length]

/-- What a reader of a dump learns: exactly the values that more than half of the
members have an entry for. -/
structure ReportsMajorities (paxos : SPaxos) (reads : DumpReads) : Prop where
  majority : ∀ topic value,
    (∃ entry ∈ reads.entries, entry.topic = topic ∧ entry.value = value) ↔
      paxos.version.nserv / 2 < (holders paxos topic value).card
  atEnd : ∃ pkt, reads.left = some pkt ∧ pkt.pos = pkt.size

/-- Servers 1 and 2 are members, server 3 has left; all three have an entry for
one value, and server 2 has one for another. -/
def learnerOfThree : SPaxos :=
  [(1, 5), (3, 5), (2, 5), (2, 6)].foldl
    (fun paxos entry => ilearn Layout.natural 1 paxos [97] entry.2 ⟨1, 1⟩ entry.1)
    { sPaxosCreate 1 with version := { version := 1, servs := [1, 2] } }

example : (idumpLearn Layout.natural learnerOfThree).2.entries.map PaxosAccept.value = [5] := by
  decide +kernel

end SimpleDfs.Wire
