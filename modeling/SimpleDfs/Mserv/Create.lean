import Mathlib.Algebra.Group.Int.Defs
import Mathlib.Algebra.Group.Nat.Defs
import Mathlib.Logic.Function.Basic
import Mathlib.Tactic.Common
import SimpleDfs.Library.Fifo

/-!
Contract: creating a file at a meta server (`core/s_core_create_mserv.c`).

Owns: the records of files, the part of `struct s_mserver` that creates them,
the handlers of a meta server for requests, questions, answers and records, and
the packets they send.

Does not own: how packets travel; how a reply finds its call. A reply carries
the request id of a call, under which the caller keeps the callback and its
user data, here the file name; the packets carry these two instead.

Names are compared by `s_string_equal`, so a name stands for a class of strings.
-/

set_option autoImplicit false

namespace SimpleDfs.Mserv

open SimpleDfs.Library

/-- `struct s_file_size`. -/
structure FileSize where
  low : Nat
  high : Nat
  deriving DecidableEq, Repr

/-- `struct s_file_desc`. -/
structure FileDesc where
  fileId : Nat
  fileVersion : Nat
  deriving DecidableEq, Repr

/-- `struct s_file_meta_data`. -/
structure FileMetaData (Name : Type) where
  fname : Name
  fdesc : FileDesc
  fsize : FileSize
  blocks : List (Nat × Nat)
  deriving DecidableEq, Repr

/-- `struct s_file_meta_meta_data`, with its `nmserv` entries of `mservs`. -/
structure FileMetaMetaData (Name : Type) where
  fname : Name
  fdesc : FileDesc
  flags : Nat
  mservs : List Nat
  deriving DecidableEq, Repr

/-- `S_FILE_MMD_FLAG_DELETED`. -/
def sFileMmdFlagDeleted : Nat := 1

/-- `struct s_core_mcreating`. -/
structure Creating where
  size : FileSize
  clientId : Nat
  reqId : Nat
  ncheck : Int
  deriving DecidableEq, Repr

inductive CreatePeer where
  | client (id : Nat)
  | mserv (id : Nat)
  | dserv (id : Nat)
  deriving DecidableEq, Repr

/-- The callback that waits for a reply. -/
inductive CreateCallback where
  | checkAuthBack
  | sendMdBack
  deriving DecidableEq, Repr

/-- The packets between the parties. `created` is the reply to a client, which
carries the metadata or a zero. -/
inductive CreateBody (Name : Type) where
  | checkAuth (fname : Name)
  | createMetadata (md : FileMetaData Name)
  | createMetaMetaData (mmd : FileMetaMetaData Name)
  | rpcBack (callback : CreateCallback) (fname : Name) (ret : Int)
  | created (reqId : Nat) (md : Option (FileMetaData Name))
  deriving DecidableEq, Repr

abbrev CreatePacket (Name : Type) := Packet CreatePeer (CreateBody Name)

/-- A server that `s_servg_next_active_serv` returns. -/
structure ActiveServ where
  id : Nat
  mem : Nat
  deriving DecidableEq, Repr

/-- What the handlers find around them. `mservs` and `dservs` are the servers of
the config that are connected, in the order of their array; this server is not
among them, since its own flags never say `IN_CONFIG`. -/
structure Surroundings where
  mservs : List ActiveServ
  dservs : List ActiveServ
  mservActive : Nat → Bool
  dservActive : Nat → Bool
  clientActive : Nat → Bool
  /-- What stands in place of the flags where `icheck_can_create` reads them: it
  takes the slot of the table for the record the slot points to. -/
  strayFlags : Nat
  /-- The flags of a new record, which nothing sets. -/
  freshFlags : Nat
  /-- The entries of `mservs` that are never set. -/
  freshMservs : Nat → Nat
  /-- `s_core_fsize_to_block_num`, which shifts by more than the width of a
  word. -/
  blockNum : FileSize → Nat

/-- The creating part of a meta server and its `struct s_core`. `out`, `icreated`
and `succeeded` note what a handler does: the packets it sends, and the names
for which it calls `icreate` and reports success to a client. -/
structure CreateServer (Name : Type) where
  id : Nat
  fileId : Nat
  fileCreating : Name → Option Creating
  fileMetadata : Name → Option (FileMetaData Name)
  fileMetaMetadata : Name → Option (FileMetaMetaData Name)
  aborted : Bool
  out : List (CreatePacket Name)
  icreated : List Name
  succeeded : List Name

section

variable {Name : Type} [DecidableEq Name]

namespace CreateServer

/-- A server that has just started. -/
def init (id : Nat) : CreateServer Name where
  id := id
  fileId := 0
  fileCreating := fun _ => none
  fileMetadata := fun _ => none
  fileMetaMetadata := fun _ => none
  aborted := false
  out := []
  icreated := []
  succeeded := []

def send (server : CreateServer Name) (dst : CreatePeer) (body : CreateBody Name) :
    CreateServer Name :=
  { server with out := server.out ++ [{ src := .mserv server.id, dst := dst, body := body }] }

/-- Send one body to each of several peers. -/
def sendAll (server : CreateServer Name) (peers : List CreatePeer) (body : CreateBody Name) :
    CreateServer Name :=
  { server with
    out := server.out ++ peers.map fun dst => { src := .mserv server.id, dst := dst, body := body } }

def setCreating (server : CreateServer Name) (fname : Name) (creating : Option Creating) :
    CreateServer Name :=
  { server with fileCreating := Function.update server.fileCreating fname creating }

end CreateServer

/-- `icreate_fail_to_client`. -/
def icreateFailToClient (around : Surroundings) (server : CreateServer Name)
    (reqId clientId : Nat) : CreateServer Name :=
  if around.clientActive clientId then server.send (.client clientId) (.created reqId none)
  else server

/-- `icreate_suc_to_client`; `fname` is `creating->fname`. -/
def icreateSucToClient (around : Surroundings) (server : CreateServer Name) (fname : Name)
    (creating : Creating) (md : FileMetaData Name) : CreateServer Name :=
  if around.clientActive creating.clientId then
    { server.send (.client creating.clientId) (.created creating.reqId (some md)) with
      succeeded := server.succeeded ++ [fname] }
  else server

/-- `icheck_can_create`. -/
def icheckCanCreate (around : Surroundings) (server : CreateServer Name) (fromMservId : Nat)
    (fname : Name) : Bool :=
  match server.fileCreating fname with
  | none =>
      match server.fileMetaMetadata fname with
      | some _ => around.strayFlags == sFileMmdFlagDeleted
      | none => true
  | some _ => decide (fromMservId < server.id)

/-- The first loop of `icreate_fmmd`: the number of servers for the record, the
least memory and its server. -/
def selectMserv (mservs : List ActiveServ) : Nat × Nat × Int :=
  mservs.foldl (fun (nmserv, minMem, mservId) serv =>
    if minMem = 0 ∨ serv.mem < minMem then (nmserv + 1, serv.mem, (serv.id : Int))
    else (nmserv, minMem, mservId)) (1, 0, -1)

/-- The descriptor of the new file and the counter afterwards; `none` is the
failed assertion that an old record is deleted. -/
def newFileDesc (server : CreateServer Name) (fname : Name) : Option (FileDesc × Nat) :=
  match server.fileMetaMetadata fname with
  | some mmd =>
      if mmd.flags = sFileMmdFlagDeleted then
        some ({ fileId := mmd.fdesc.fileId
                fileVersion := (mmd.fdesc.fileVersion + 1) % 2 ^ 32 }, server.fileId)
      else none
  | none =>
      -- `core->id << 16 && 0xFFFF0000` is a truth value
      let high := if server.id * 2 ^ 16 % 2 ^ 32 = 0 then 0 else 1
      some ({ fileId := high ||| server.fileId % 2 ^ 16, fileVersion := 1 }, server.fileId + 1)

/-- The record `icreate_fmmd` fills in. -/
def newFileMetaMetaData (around : Surroundings) (server : CreateServer Name) (fname : Name)
    (fdesc : FileDesc) : FileMetaMetaData Name :=
  let (nmserv, _, mservId) := selectMserv around.mservs
  { fname := fname
    fdesc := fdesc
    flags := around.freshFlags
    mservs := server.id % 2 ^ 16 :: (if nmserv > 1 then [(mservId % 2 ^ 16).toNat] else []) ++
      (List.range (nmserv - 2)).map around.freshMservs }

/-- `icreate_fmmd`; `none` is the failed assertion. -/
def icreateFmmd (around : Surroundings) (server : CreateServer Name) (fname : Name) :
    Option (CreateServer Name × FileMetaMetaData Name) :=
  (newFileDesc server fname).map fun (fdesc, fileId) =>
    let mmd := newFileMetaMetaData around server fname fdesc
    let saved := { server with
      fileId := fileId
      fileMetaMetadata := Function.update server.fileMetaMetadata fname (some mmd) }
    (saved.sendAll (around.mservs.map fun serv => .mserv serv.id) (.createMetaMetaData mmd), mmd)

/-- The two data servers `icreate_fmd` has found so far, and their number. -/
structure SelectedDserv where
  ndserv : Nat
  first : ActiveServ
  second : ActiveServ
  deriving DecidableEq, Repr

/-- The first loop of `icreate_fmd`. -/
def selectDserv (dservs : List ActiveServ) : SelectedDserv :=
  dservs.foldl (fun found serv =>
    if found.first.mem = 0 then { found with ndserv := found.ndserv + 1, first := serv }
    else if found.second.mem = 0 ∨ serv.mem < found.second.mem then
      if serv.mem < found.first.mem then
        { ndserv := found.ndserv + 1, first := serv, second := found.first }
      else { found with ndserv := found.ndserv + 1, second := serv }
    else found) { ndserv := 0, first := ⟨0, 0⟩, second := ⟨0, 0⟩ }

/-- The record `icreate_fmd` fills in. -/
def newFileMetaData (around : Surroundings) (mmd : FileMetaMetaData Name) (creating : Creating) :
    FileMetaData Name :=
  let found := selectDserv around.dservs
  { fname := mmd.fname
    fdesc := mmd.fdesc
    fsize := creating.size
    blocks := List.replicate (around.blockNum creating.size)
      (found.first.id % 2 ^ 16, found.second.id % 2 ^ 16) }

/-- The servers `icreate_fmd` sends the metadata to. -/
def metadataPeers (around : Surroundings) (server : CreateServer Name)
    (mmd : FileMetaMetaData Name) : List CreatePeer :=
  let found := selectDserv around.dservs
  let mservs := mmd.mservs.filter fun id => around.mservActive id && id != server.id
  let dservs := ([found.first.id, found.second.id].take (min found.ndserv 2)).filter
    around.dservActive
  mservs.map CreatePeer.mserv ++ dservs.map CreatePeer.dserv

/-- `icreate_fmd`, with the number of calls it makes. -/
def icreateFmd (around : Surroundings) (server : CreateServer Name) (mmd : FileMetaMetaData Name)
    (creating : Creating) : CreateServer Name × Nat :=
  let fmd := newFileMetaData around mmd creating
  let peers := metadataPeers around server mmd
  let saved := { server with
    fileMetadata := Function.update server.fileMetadata mmd.fname (some fmd) }
  (saved.sendAll peers (.createMetadata fmd), peers.length)

/-- `icreate`. -/
def icreate (around : Surroundings) (server : CreateServer Name) (fname : Name)
    (creating : Creating) : CreateServer Name :=
  let server := { server with icreated := server.icreated ++ [fname] }
  match icreateFmmd around server fname with
  | none => { server with aborted := true }
  | some (saved, mmd) =>
      let (sent, ncheck) := icreateFmd around saved mmd creating
      sent.setCreating fname (some { creating with ncheck := ncheck })

/-- `s_core_mserv_create`. -/
def sCoreMservCreate (around : Surroundings) (server : CreateServer Name) (clientId reqId : Nat)
    (fname : Name) (size : FileSize) : CreateServer Name :=
  if !icheckCanCreate around server server.id fname then
    icreateFailToClient around server reqId clientId
  else
    -- check all other mservs
    let asked := around.mservs.filter fun serv => serv.id != server.id
    let creating : Creating :=
      { size := size, clientId := clientId, reqId := reqId, ncheck := asked.length }
    let waiting := (server.setCreating fname (some creating)).sendAll
      (asked.map fun serv => .mserv serv.id) (.checkAuth fname)
    if creating.ncheck = 0 then icreate around waiting fname creating else waiting

/-- `irpc_check_auth_back`; without a packet the call timed out or its
connection broke. -/
def irpcCheckAuthBack (around : Surroundings) (server : CreateServer Name) (fname : Name)
    (ret : Option Int) : CreateServer Name :=
  match server.fileCreating fname with
  | none => server
  | some creating =>
      if ret.any fun value => decide (value ≤ 0) then
        (icreateFailToClient around server creating.reqId creating.clientId).setCreating fname none
      else
        let checked := { creating with ncheck := creating.ncheck - 1 }
        let waiting := server.setCreating fname (some checked)
        if checked.ncheck = 0 then icreate around waiting fname checked else waiting

/-- `irpc_send_md_back`, which does not read the packet. -/
def irpcSendMdBack (around : Surroundings) (server : CreateServer Name) (fname : Name) :
    CreateServer Name :=
  match server.fileCreating fname with
  | none => server
  | some creating =>
      match server.fileMetadata fname with
      | none =>
          (icreateFailToClient around server creating.reqId creating.clientId).setCreating fname none
      | some md =>
          let checked := { creating with ncheck := creating.ncheck - 1 }
          if checked.ncheck = 0 then
            (icreateSucToClient around server fname checked md).setCreating fname none
          else server.setCreating fname (some checked)

/-- `s_core_mserv_create_check_auth`. -/
def sCoreMservCreateCheckAuth (around : Surroundings) (server : CreateServer Name) (src : Nat)
    (fname : Name) : CreateServer Name :=
  let ret := if icheckCanCreate around server src fname then 1 else 0
  server.send (.mserv src) (.rpcBack .checkAuthBack fname ret)

/-- `s_core_mserv_create_metadata`. -/
def sCoreMservCreateMetadata (server : CreateServer Name) (src : Nat) (fmd : FileMetaData Name) :
    CreateServer Name :=
  { server with
    fileMetadata := Function.update server.fileMetadata fmd.fname (some fmd) }.send (.mserv src)
      (.rpcBack .sendMdBack fmd.fname 1)

/-- `s_core_mserv_create_meta_meta_data`: the packet has no flags. -/
def sCoreMservCreateMetaMetaData (around : Surroundings) (server : CreateServer Name)
    (fmmd : FileMetaMetaData Name) : CreateServer Name :=
  { server with
    fileMetaMetadata := Function.update server.fileMetaMetadata fmmd.fname
      (some { fmmd with flags := around.freshFlags }) }

end

end SimpleDfs.Mserv
