import SimpleDfs.Paxos.Acceptor

/-!
Contract: the learner of the Paxos layer (`core/s_core_paxos.c`).

Owns: `ilearn`, `icheck_new_version`, `idump_learn`, `ireceive_learn` and
`ireceive_add_accept`.

Does not own: who sends what a learner receives.
-/

set_option autoImplicit false

namespace SimpleDfs.Paxos

open SimpleDfs.Common
open SimpleDfs.Library

/-- The learn list of a topic. -/
def SPaxos.learns (paxos : SPaxos) (topic : Topic) : List PaxosLearn :=
  (paxos.learn.lookup topic).getD []

/-! ## Membership as a value -/

/-- `1 << serv`, with the shift the machine performs. -/
def servBit (serv : Nat) : Value :=
  1#32 <<< (serv % 32)

/-- The loop of `iversion_to_int`, also of `s_paxos_start` and `ireceive_add`. -/
def servsValue (servs : List Nat) : Value :=
  servs.foldl (fun value serv => value ||| servBit serv) 0#32

/-- The loop of `icheck_new_version` over the bits of a value. -/
def valueServs (value : Value) : List Nat :=
  (List.range 32).filter fun serv => value &&& servBit serv ≠ 0#32

/-! ## Counting -/

/-- The entries at which the running count of their value passes half of
`nserv`, or all of them where `shortcut` holds. -/
def majorityScan (nserv : Nat) (shortcut : Bool) :
    List Value → List PaxosLearn → List PaxosLearn
  | _, [] => []
  | counted, learn :: rest =>
      let counted := learn.value :: counted
      if counted.count learn.value > nserv / 2 || shortcut then
        learn :: majorityScan nserv shortcut counted rest
      else
        majorityScan nserv shortcut counted rest

/-- `icheck_new_version`: the first topic of the next version, and in its list
the first entry that completes a count. -/
def icheckNewVersion (layout : Layout) (coreId : Nat) (paxos : SPaxos) : SPaxos :=
  let isNext := fun topic => decide (igetNewVersion topic = paxos.version.version + 1)
  match (layout.topics.arrange paxos.learn.keys).find? isNext with
  | none => paxos
  | some topic =>
      let nserv := paxos.version.nserv
      match (majorityScan nserv (nserv == 2 && coreId == 1) [] (paxos.learns topic)).head? with
      | none => paxos
      | some learn =>
          let version :=
            { version := paxos.version.version + 1, servs := valueServs learn.value }
          iaccept { paxos with version := version } topic learn.id learn.value (-1)

/-! ## Learning -/

/-- The loop of `ilearn` over a list that holds the server's entry for this
value. -/
def raiseLearn (servId : Nat) (value : Value) (id : SId) : List PaxosLearn → List PaxosLearn
  | [] => []
  | learn :: rest =>
      if learn.servId = servId ∧ learn.value = value then
        (if sIdGt id learn.id then { learn with id := id } else learn) :: rest
      else
        learn :: raiseLearn servId value id rest

/-- `ilearn`. -/
def ilearn (layout : Layout) (coreId : Nat) (paxos : SPaxos) (topic : Topic) (value : Value)
    (id : SId) (servId : Nat) : SPaxos :=
  let array := paxos.learns topic
  if array.any fun learn => learn.servId == servId && learn.value == value then
    { paxos with learn := paxos.learn.insert topic (raiseLearn servId value id array) }
  else
    let array := array ++ [{ value := value, servId := servId, id := id }]
    icheckNewVersion layout coreId { paxos with learn := paxos.learn.insert topic array }

/-- Learn a list of entries of one topic from one server. -/
def ilearnList (layout : Layout) (coreId servId : Nat) (topic : Topic) :
    SPaxos → List PaxosAccept → SPaxos
  | paxos, [] => paxos
  | paxos, accept :: rest =>
      ilearnList layout coreId servId topic
        (ilearn layout coreId paxos topic accept.value accept.id servId) rest

/-- Learn a whole accept table from one server. -/
def ilearnTable (layout : Layout) (coreId servId : Nat) :
    SPaxos → List (Topic × List PaxosAccept) → SPaxos
  | paxos, [] => paxos
  | paxos, (topic, accepts) :: rest =>
      ilearnTable layout coreId servId (ilearnList layout coreId servId topic paxos accepts) rest

/-! ## Reporting -/

/-- `idump_learn`.  Its first pass removes the entries of servers that are no
members, its second writes an entry each time a count is past the majority. -/
def idumpLearn (layout : Layout) (paxos : SPaxos) : SPaxos × Dump :=
  let pruned := paxos.learn.mapValues fun array =>
    array.filter fun learn => sPaxosIsIn paxos learn.servId
  let paxos := { paxos with learn := pruned }
  let entries := (layout.topics.arrange paxos.learn.keys).flatMap fun topic =>
    (majorityScan paxos.version.nserv false [] (paxos.learns topic)).map fun learn =>
      { topic := topic, id := learn.id, value := learn.value }
  (paxos, { version := paxos.version, entries := entries })

/-- The entry loop of `ireceive_learn`; the flag is whether it ran to its end
under the version of the reply. -/
def learnLoop (layout : Layout) (coreId servId : Nat) (version : Int) :
    SPaxos → List PaxosAccept → SPaxos × Bool
  | paxos, [] => (paxos, true)
  | paxos, entry :: rest =>
      let paxos := ilearn layout coreId paxos entry.topic entry.value entry.id servId
      if version ≠ paxos.version.version then (paxos, false)
      else learnLoop layout coreId servId version paxos rest

/-- The end of `ireceive_learn`: report once every call has come back. -/
def reportIfLast (layout : Layout) (paxos : SPaxos) : SPaxos × List PaxosAccept :=
  if paxos.learnReqCount = 0 then
    let (paxos, dump) := idumpLearn layout paxos
    (paxos, dump.entries)
  else (paxos, [])

/-- `ireceive_learn`, with the majority values it logs. -/
def ireceiveLearn (layout : Layout) (coreId servId : Nat) (paxos : SPaxos)
    (reply : Option LearnReply) : SPaxos × List PaxosAccept :=
  let paxos := { paxos with learnReqCount := paxos.learnReqCount - 1 }
  match reply with
  | none => reportIfLast layout paxos
  | some reply =>
      if reply.version ≠ paxos.version.version then (paxos, [])
      else
        match learnLoop layout coreId servId reply.version paxos reply.entries with
        | (paxos, false) => (paxos, [])
        | (paxos, true) => reportIfLast layout paxos

/-! ## Joining -/

/-- The entry loop of `ireceive_add_accept`. -/
def acceptLoop : SPaxos → List PaxosAccept → SPaxos
  | paxos, [] => paxos
  | paxos, entry :: rest => acceptLoop (iaccept paxos entry.topic entry.id entry.value (-1)) rest

/-- `ireceive_add_accept`: take over the version and accept every entry. -/
def ireceiveAddAccept (paxos : SPaxos) (dump : Dump) : SPaxos :=
  acceptLoop { paxos with version := dump.version } dump.entries

end SimpleDfs.Paxos
