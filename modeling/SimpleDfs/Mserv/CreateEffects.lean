import SimpleDfs.Mserv.CreateNetwork
import SimpleDfs.Mserv.CreateRounds

/-!
Contract: what the handlers of the file creation do to one name.

Owns: the packets that belong to a round of questions; what a world amounts to
for one name; and which name each handler touches, what it leaves of the others
and what it sends.

Does not own: the moves of the rounds, or the runs.
-/

set_option autoImplicit false

namespace SimpleDfs.Mserv

open SimpleDfs.Library

variable {Name : Type} [DecidableEq Name]

/-! ## The packets of a round -/

/-- The name a packet is about; a reply to a client needs none. -/
def CreateBody.name : CreateBody Name → Option Name
  | .checkAuth fname => some fname
  | .createMetadata md => some md.fname
  | .createMetaMetaData mmd => some mmd.fname
  | .rpcBack _ fname _ => some fname
  | .created _ _ => none

/-- A question of the server about the name, or an answer to one. -/
def inRound (server : Nat) (fname : Name) (packet : CreatePacket Name) : Bool :=
  match packet.body with
  | .checkAuth name => packet.src == .mserv server && name == fname
  | .rpcBack .checkAuthBack name _ => packet.dst == .mserv server && name == fname
  | _ => false

/-- A question of `asker` to `granter` about the name, or a refusal of one. -/
def withheldBy (granter asker : Nat) (fname : Name) (packet : CreatePacket Name) : Bool :=
  inRound asker fname packet &&
    match packet.body with
    | .checkAuth _ => packet.dst == .mserv granter
    | .rpcBack _ _ ret => packet.src == .mserv granter && decide (ret ≤ 0)
    | _ => false

/-- The metadata of the name from the server, or the reply of a target. -/
def carriesMetadata (server : Nat) (fname : Name) (packet : CreatePacket Name) : Bool :=
  match packet.body with
  | .createMetadata md => packet.src == .mserv server && md.fname == fname
  | .rpcBack .sendMdBack name _ => packet.dst == .mserv server && name == fname
  | _ => false

/-- Only meta servers ask, answer and send records; only clients hear of
success. -/
def WellAddressed (packet : CreatePacket Name) : Prop :=
  match packet.body with
  | .checkAuth _ => (∃ src, packet.src = .mserv src) ∧ ∃ dst, packet.dst = .mserv dst
  | .createMetadata _ => (∃ src, packet.src = .mserv src) ∧ ∀ id, packet.dst ≠ .client id
  | .createMetaMetaData _ => (∃ src, packet.src = .mserv src) ∧ ∃ dst, packet.dst = .mserv dst
  | .rpcBack _ _ _ => ∃ dst, packet.dst = .mserv dst
  | .created _ _ => ∃ id, packet.dst = .client id

theorem inRound_of_withheldBy {granter asker : Nat} {fname : Name} {packet : CreatePacket Name}
    (withheld : withheldBy granter asker fname packet = true) :
    inRound asker fname packet = true :=
  (Bool.and_eq_true_iff.mp withheld).1

theorem inRound_name {server : Nat} {fname : Name} {packet : CreatePacket Name}
    (holds : inRound server fname packet = true) : packet.body.name = some fname := by
  unfold inRound at holds
  split at holds <;> simp_all [CreateBody.name]

theorem carriesMetadata_name {server : Nat} {fname : Name} {packet : CreatePacket Name}
    (holds : carriesMetadata server fname packet = true) : packet.body.name = some fname := by
  unfold carriesMetadata at holds
  split at holds <;> simp_all [CreateBody.name]

/-- The packet plays no part in the round of any other server. -/
def Own (server : Nat) (fname : Name) (packet : CreatePacket Name) : Prop :=
  ∀ other, other ≠ server → inRound other fname packet = false ∧
    carriesMetadata other fname packet = false

theorem own_of_foreign {fname : Name} {packet : CreatePacket Name}
    (foreign : packet.body.name ≠ some fname) (server : Nat) : Own server fname packet :=
  fun _ _ => ⟨Bool.eq_false_iff.mpr fun holds => foreign (inRound_name holds),
    Bool.eq_false_iff.mpr fun holds => foreign (carriesMetadata_name holds)⟩

/-! ## What a world amounts to for one name -/

/-- The attempts on the name. -/
def roundView (fname : Name) (world : CreateWorld Name) : RoundView where
  ncheck := fun server => ((world.mservs server).fileCreating fname).map Creating.ncheck
  recorded := fun server => (world.mservs server).fileMetaMetadata fname ≠ none
  pending := fun server => world.net.countP (inRound server fname)
  withheld := fun granter asker => ∃ packet ∈ world.net, withheldBy granter asker fname packet = true
  sentMetadata := fun server => ∃ packet ∈ world.net, carriesMetadata server fname packet = true
  created := (world.icreated.filter fun entry => entry.2 == fname).map Prod.fst
  reported := (world.succeeded.filter fun entry => entry.2 == fname).map Prod.fst
  asks := by
    rintro granter asker ⟨packet, member, withheld⟩
    exact List.countP_pos_iff.mpr ⟨packet, member, inRound_of_withheldBy withheld⟩

/-- One name is counted the way the view lists it. -/
theorem count_eq_length (fname : Name) (entries : List (Nat × Name)) :
    (entries.map Prod.snd).count fname =
      ((entries.filter fun entry => entry.2 == fname).map Prod.fst).length := by
  rw [List.length_map, List.count_eq_countP, List.countP_map, List.countP_eq_length_filter]
  rfl

/-! ## What the handlers touch -/

/-- The handler touches one name only, and sends well-addressed packets. -/
structure OnlyName (fname : Name) (server after : CreateServer Name) : Prop where
  id : after.id = server.id
  creating : ∀ other, other ≠ fname → after.fileCreating other = server.fileCreating other
  recorded : ∀ other, other ≠ fname →
    after.fileMetaMetadata other = server.fileMetaMetadata other
  out : ∃ sent, after.out = server.out ++ sent ∧
    ∀ packet ∈ sent, (∀ name ∈ packet.body.name, name = fname) ∧ WellAddressed packet
  icreated : ∃ names, after.icreated = server.icreated ++ names ∧ ∀ name ∈ names, name = fname
  succeeded : ∃ names, after.succeeded = server.succeeded ++ names ∧ ∀ name ∈ names, name = fname

section Touch

variable {fname : Name} {server after last : CreateServer Name}

omit [DecidableEq Name] in
/-- Handlers that send, log or create nothing. -/
theorem OnlyName.of_tables (id : after.id = server.id)
    (creating : ∀ other, other ≠ fname → after.fileCreating other = server.fileCreating other)
    (recorded : ∀ other, other ≠ fname →
      after.fileMetaMetadata other = server.fileMetaMetadata other)
    (out : after.out = server.out) (icreated : after.icreated = server.icreated)
    (succeeded : after.succeeded = server.succeeded) : OnlyName fname server after :=
  ⟨id, creating, recorded, ⟨[], by simp [out], by simp⟩, ⟨[], by simp [icreated], by simp⟩,
    ⟨[], by simp [succeeded], by simp⟩⟩

omit [DecidableEq Name] in
theorem OnlyName.refl (fname : Name) (server : CreateServer Name) :
    OnlyName fname server server :=
  OnlyName.of_tables rfl (fun _ _ => rfl) (fun _ _ => rfl) rfl rfl rfl

omit [DecidableEq Name] in
theorem OnlyName.trans (first : OnlyName fname server after) (second : OnlyName fname after last) :
    OnlyName fname server last := by
  obtain ⟨sent, out, sentName⟩ := first.out
  obtain ⟨more, outMore, moreName⟩ := second.out
  obtain ⟨names, icreated, named⟩ := first.icreated
  obtain ⟨others, icreatedMore, namedMore⟩ := second.icreated
  obtain ⟨told, succeeded, toldName⟩ := first.succeeded
  obtain ⟨retold, succeededMore, retoldName⟩ := second.succeeded
  refine ⟨second.id.trans first.id, ?_, ?_, ⟨sent ++ more, ?_, ?_⟩, ⟨names ++ others, ?_, ?_⟩,
    ⟨told ++ retold, ?_, ?_⟩⟩
  · exact fun other apart => (second.creating other apart).trans (first.creating other apart)
  · exact fun other apart => (second.recorded other apart).trans (first.recorded other apart)
  · rw [outMore, out, List.append_assoc]
  · intro packet member
    exact (List.mem_append.mp member).elim (sentName packet) (moreName packet)
  · rw [icreatedMore, icreated, List.append_assoc]
  · intro name member
    exact (List.mem_append.mp member).elim (named name) (namedMore name)
  · rw [succeededMore, succeeded, List.append_assoc]
  · intro name member
    exact (List.mem_append.mp member).elim (toldName name) (retoldName name)

omit [DecidableEq Name] in
theorem onlyName_sendAll (server : CreateServer Name) (peers : List CreatePeer)
    {body : CreateBody Name} (name : ∀ name ∈ body.name, name = fname)
    (addressed : ∀ dst ∈ peers, WellAddressed
      ({ src := .mserv server.id, dst := dst, body := body } : CreatePacket Name)) :
    OnlyName fname server (server.sendAll peers body) := by
  refine ⟨rfl, fun _ _ => rfl, fun _ _ => rfl, ⟨_, rfl, ?_⟩, ⟨[], by simp [CreateServer.sendAll]⟩,
    ⟨[], by simp [CreateServer.sendAll]⟩⟩
  intro packet member
  obtain ⟨dst, listed, rfl⟩ := List.mem_map.mp member
  exact ⟨name, addressed dst listed⟩

omit [DecidableEq Name] in
theorem onlyName_send (server : CreateServer Name) (dst : CreatePeer) {body : CreateBody Name}
    (name : ∀ name ∈ body.name, name = fname)
    (addressed : WellAddressed
      ({ src := .mserv server.id, dst := dst, body := body } : CreatePacket Name)) :
    OnlyName fname server (server.send dst body) := by
  apply onlyName_sendAll server [dst] name
  simpa using addressed

theorem onlyName_setCreating (server : CreateServer Name) (creating : Option Creating) :
    OnlyName fname server (server.setCreating fname creating) :=
  OnlyName.of_tables rfl (fun _ apart => Function.update_of_ne apart _ _) (fun _ _ => rfl) rfl rfl
    rfl

omit [DecidableEq Name] in
theorem onlyName_fail (around : Surroundings) (server : CreateServer Name) (reqId clientId : Nat) :
    OnlyName fname server (icreateFailToClient around server reqId clientId) := by
  unfold icreateFailToClient
  split
  · exact onlyName_send server _ (by simp [CreateBody.name]) ⟨clientId, rfl⟩
  · exact OnlyName.refl fname server

/-- The function sends records of the name and leaves the attempts alone. -/
structure SendsRecords (fname : Name) (server after : CreateServer Name) : Prop where
  only : OnlyName fname server after
  creating : after.fileCreating = server.fileCreating
  icreated : after.icreated = server.icreated
  succeeded : after.succeeded = server.succeeded
  out : ∃ sent, after.out = server.out ++ sent ∧ ∀ packet ∈ sent,
    (∀ other, inRound other fname packet = false) ∧ Own server.id fname packet

theorem icreateFmmd_spec {around : Surroundings} {saved : CreateServer Name}
    {mmd : FileMetaMetaData Name} (done : icreateFmmd around server fname = some (saved, mmd)) :
    SendsRecords fname server saved ∧ saved.fileMetaMetadata fname ≠ none ∧ mmd.fname = fname := by
  obtain ⟨⟨fdesc, fileId⟩, fresh, equal⟩ := Option.map_eq_some_iff.mp done
  obtain ⟨rfl, rfl⟩ := Prod.mk.inj equal
  refine ⟨⟨?_, rfl, rfl, rfl, _, rfl, ?_⟩, ?_, rfl⟩
  · have saved : OnlyName fname server { server with
        fileId := fileId
        fileMetaMetadata := Function.update server.fileMetaMetadata fname
          (some (newFileMetaMetaData around server fname fdesc)) } :=
      OnlyName.of_tables rfl (fun _ _ => rfl) (fun _ apart => Function.update_of_ne apart _ _) rfl
        rfl rfl
    refine saved.trans (onlyName_sendAll _ _ ?_ ?_)
    · simp [CreateBody.name, newFileMetaMetaData]
    · intro dst member
      obtain ⟨serv, _, rfl⟩ := List.mem_map.mp member
      exact ⟨⟨_, rfl⟩, _, rfl⟩
  · intro packet member
    obtain ⟨dst, _, rfl⟩ := List.mem_map.mp member
    exact ⟨fun _ => rfl, fun _ _ => ⟨rfl, rfl⟩⟩
  · simp [CreateServer.sendAll]

theorem icreateFmd_spec (around : Surroundings) (server : CreateServer Name)
    (mmd : FileMetaMetaData Name) (creating : Creating) (named : mmd.fname = fname) :
    SendsRecords fname server (icreateFmd around server mmd creating).1 ∧
      (icreateFmd around server mmd creating).1.fileMetaMetadata = server.fileMetaMetadata := by
  refine ⟨⟨?_, rfl, rfl, rfl, _, rfl, ?_⟩, rfl⟩
  · have saved : OnlyName fname server { server with
        fileMetadata := Function.update server.fileMetadata mmd.fname
          (some (newFileMetaData around mmd creating)) } :=
      OnlyName.of_tables rfl (fun _ _ => rfl) (fun _ _ => rfl) rfl rfl rfl
    refine saved.trans (onlyName_sendAll _ _ ?_ ?_)
    · simp [CreateBody.name, newFileMetaData, named]
    · intro dst member
      refine ⟨⟨_, rfl⟩, ?_⟩
      rcases List.mem_append.mp member with listed | listed
      · obtain ⟨id, _, rfl⟩ := List.mem_map.mp listed
        exact fun _ => CreatePeer.noConfusion
      · obtain ⟨id, _, rfl⟩ := List.mem_map.mp listed
        exact fun _ => CreatePeer.noConfusion
  · intro packet member
    obtain ⟨dst, _, rfl⟩ := List.mem_map.mp member
    refine ⟨fun _ => rfl, fun other apart => ⟨rfl, ?_⟩⟩
    simp [carriesMetadata, Ne.symm apart]

/-- What `icreate` does to the name: it is recorded, the attempt stays open, and
only records are sent. -/
structure Icreated (fname : Name) (server after : CreateServer Name) : Prop where
  only : OnlyName fname server after
  creating : server.fileCreating fname ≠ none → after.fileCreating fname ≠ none
  recorded : after.fileMetaMetadata fname ≠ none
  icreated : after.icreated = server.icreated ++ [fname]
  succeeded : after.succeeded = server.succeeded
  out : ∃ sent, after.out = server.out ++ sent ∧ ∀ packet ∈ sent,
    (∀ other, inRound other fname packet = false) ∧ Own server.id fname packet

theorem icreate_spec (around : Surroundings) (server : CreateServer Name) (fname : Name)
    (creating : Creating) : Icreated fname server (icreate around server fname creating) := by
  have logged : OnlyName fname server { server with icreated := server.icreated ++ [fname] } :=
    ⟨rfl, fun _ _ => rfl, fun _ _ => rfl, ⟨[], by simp⟩, ⟨[fname], rfl, by simp⟩, ⟨[], by simp⟩⟩
  unfold icreate
  cases made : icreateFmmd around { server with icreated := server.icreated ++ [fname] } fname with
  | none =>
      -- only an old record fails the assertion
      have recorded : server.fileMetaMetadata fname ≠ none := by
        intro absent
        simp [icreateFmmd, newFileDesc, absent] at made
      simp only [made]
      have aborted : OnlyName fname server { server with
          icreated := server.icreated ++ [fname]
          aborted := true } :=
        logged.trans (OnlyName.of_tables rfl (fun _ _ => rfl) (fun _ _ => rfl) rfl rfl rfl)
      exact ⟨aborted, id, recorded, rfl, rfl, [], by simp, by simp⟩
  | some pair =>
      obtain ⟨saved, mmd⟩ := pair
      obtain ⟨records, recorded, named⟩ := icreateFmmd_spec made
      obtain ⟨metadata, same⟩ := icreateFmd_spec around saved mmd creating named
      obtain ⟨sent, out, plain⟩ := records.out
      obtain ⟨more, outMore, plainMore⟩ := metadata.out
      simp only [made]
      refine ⟨((logged.trans records.only).trans metadata.only).trans
        (onlyName_setCreating _ _), ?_, ?_, ?_, ?_, sent ++ more, ?_, ?_⟩
      · intro _
        simp [CreateServer.setCreating]
      · exact same ▸ recorded
      · exact metadata.icreated.trans records.icreated
      · exact metadata.succeeded.trans records.succeeded
      · exact outMore.trans (by rw [out, List.append_assoc])
      · intro packet member
        rcases List.mem_append.mp member with listed | listed
        · exact plain packet listed
        · have apart := plainMore packet listed
          rw [records.only.id] at apart
          exact apart

/-- Every handler of a packet touches only the name of its packet. -/
theorem onlyName_checkAuthBack (around : Surroundings) (server : CreateServer Name) (fname : Name)
    (ret : Option Int) : OnlyName fname server (irpcCheckAuthBack around server fname ret) := by
  unfold irpcCheckAuthBack
  split
  · exact OnlyName.refl fname server
  · split
    · exact (onlyName_fail around server _ _).trans (onlyName_setCreating _ none)
    · dsimp only
      split
      · exact (onlyName_setCreating server _).trans (icreate_spec _ _ _ _).only
      · exact onlyName_setCreating server _

theorem onlyName_sendMdBack (around : Surroundings) (server : CreateServer Name) (fname : Name) :
    OnlyName fname server (irpcSendMdBack around server fname) := by
  unfold irpcSendMdBack
  split
  · exact OnlyName.refl fname server
  · split
    · exact (onlyName_fail around server _ _).trans (onlyName_setCreating _ none)
    · dsimp only
      split
      · apply OnlyName.trans _ (onlyName_setCreating _ none)
        unfold icreateSucToClient
        split
        · have sent : OnlyName fname server (server.send (.client ‹Creating›.clientId)
              (.created ‹Creating›.reqId (some ‹FileMetaData Name›))) :=
            onlyName_send server _ (by simp [CreateBody.name]) ⟨_, rfl⟩
          exact ⟨sent.id, sent.creating, sent.recorded, sent.out, sent.icreated, [fname], rfl, by simp⟩
        · exact OnlyName.refl fname server
      · exact onlyName_setCreating server _

theorem onlyName_create (around : Surroundings) (server : CreateServer Name)
    (clientId reqId : Nat) (fname : Name) (size : FileSize) :
    OnlyName fname server (sCoreMservCreate around server clientId reqId fname size) := by
  unfold sCoreMservCreate
  split
  · exact onlyName_fail around server reqId clientId
  · dsimp only
    have asked : ∀ creating, OnlyName fname server ((server.setCreating fname creating).sendAll
        ((around.mservs.filter fun serv => serv.id != server.id).map fun serv => .mserv serv.id)
        (.checkAuth fname)) := by
      intro creating
      refine (onlyName_setCreating server creating).trans (onlyName_sendAll _ _ ?_ ?_)
      · simp [CreateBody.name]
      · intro dst member
        obtain ⟨serv, _, rfl⟩ := List.mem_map.mp member
        exact ⟨⟨_, rfl⟩, _, rfl⟩
    split
    · exact (asked _).trans (icreate_spec _ _ _ _).only
    · exact asked _

end Touch

end SimpleDfs.Mserv
