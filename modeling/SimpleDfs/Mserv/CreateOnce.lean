import SimpleDfs.Mserv.CreateMoves

/-!
Contract: when a file name is created at most once.

Owns: the condition on requests and readings, the invariant of the runs that
meet it, and the theorem that these runs create each name at most once.

Does not own: the moves the handlers make, or the argument about the rounds.
-/

set_option autoImplicit false

namespace SimpleDfs.Mserv

open SimpleDfs.Library

variable {Name : Type} [DecidableEq Name]

/-- The condition under which a name is created at most once. A server starts a
round only when no question or answer of an earlier round of its own is in
flight, and when it has granted no open attempt of a server above it; and no
stray memory reads as the flags of a deleted file. -/
def Orderly (group : CreateGroup) (world : CreateWorld Name) : CreateEvent Name → Prop
  | .request server _ _ fname _ readings =>
      readings.strayFlags ≠ sFileMmdFlagDeleted ∧
        (icheckCanCreate (group.around server readings) (world.mservs server) server fname = true →
          (∀ packet ∈ world.net, inRound server fname packet = false) ∧
            ∀ other ∈ group.mservs, server < other →
              (world.mservs other).fileCreating fname ≠ none →
                ∃ packet ∈ world.net, withheldBy server other fname packet = true)
  | .deliver _ readings => readings.strayFlags ≠ sFileMmdFlagDeleted

instance (group : CreateGroup) (world : CreateWorld Name) (event : CreateEvent Name) :
    Decidable (Orderly group world event) :=
  match event with
  | .request _ _ _ _ _ _ => inferInstanceAs (Decidable (_ ∧ (_ → _)))
  | .deliver _ _ => inferInstanceAs (Decidable (_ ≠ _))

/-- The invariant of the orderly runs. -/
structure CreateInvariant (group : CreateGroup) (world : CreateWorld Name) : Prop where
  idle : ∀ server, Idle server (world.mservs server)
  addressed : ∀ packet ∈ world.net, WellAddressed packet
  rounds : ∀ fname, (roundView fname world).Invariant group.mservs

section Steps

variable {group : CreateGroup} {world : CreateWorld Name} {server : Nat} {around : Surroundings}
  {packet : CreatePacket Name} {rest received : List (CreatePacket Name)}
  {handler : CreateServer Name → CreateServer Name}

omit [DecidableEq Name] in
theorem idle_receive {name : Name} (idle : ∀ server, Idle server (world.mservs server))
    (only : OnlyName name (world.mservs server) (handler (world.mservs server))) (other : Nat) :
    Idle other ((world.receive rest server handler).mservs other) := by
  by_cases same : other = server
  · subst same
    simp only [CreateWorld.receive, CreateWorld.act, Function.update_self]
    exact ⟨only.id.trans (idle other).1, rfl, rfl, rfl⟩
  · simp only [CreateWorld.receive, CreateWorld.act, Function.update_of_ne same]
    exact idle other

omit [DecidableEq Name] in
theorem addressed_receive {name : Name} (idle : Idle server (world.mservs server))
    (addressed : ∀ packet ∈ rest, WellAddressed packet)
    (only : OnlyName name (world.mservs server) (handler (world.mservs server))) :
    ∀ packet ∈ (world.receive rest server handler).net, WellAddressed packet := by
  obtain ⟨sent, out, named⟩ := only.out
  rw [idle.2.1, List.nil_append] at out
  intro packet member
  simp only [CreateWorld.receive, CreateWorld.act, out] at member
  rcases List.mem_append.mp member with old | new
  · exact addressed packet old
  · exact (named packet new).2

omit [DecidableEq Name] in
/-- Packets that no meta server receives. -/
theorem receive_out (idle : Idle server (world.mservs server)) (out : List (CreatePacket Name)) :
    world.receive rest server (fun mserv => { mserv with out := out }) =
      { world with net := rest ++ out } := by
  have same : { world.mservs server with out := [], icreated := [], succeeded := [] } =
      world.mservs server := by
    obtain ⟨_, noOut, noIcreated, noSucceeded⟩ := idle
    cases mserv : world.mservs server
    simp_all
  simp only [CreateWorld.receive, CreateWorld.act, idle.2.2.1, idle.2.2.2, same,
    Function.update_eq_self, List.map_nil, List.append_nil]

/-- The handler of a packet makes a move on every name. -/
theorem move_dispatch (idle : Idle server (world.mservs server))
    (perm : world.net.Perm (packet :: rest)) (addressed : WellAddressed packet)
    (to_ : packet.dst = .mserv server) (flags : around.strayFlags ≠ sFileMmdFlagDeleted) :
    (∀ fname, RoundView.Move group.mservs (roundView fname world) (roundView fname
      (world.receive rest server fun mserv => createDispatch around mserv packet))) ∧
      ∃ name, OnlyName name (world.mservs server)
        (createDispatch around (world.mservs server) packet) := by
  have single : world.net.Perm ([packet] ++ rest) := perm
  have foreign : ∀ {name fname : Name}, packet.body.name = some name → name ≠ fname →
      ∀ held ∈ [packet], held.body.name ≠ some fname := by
    intro name fname about apart held member same
    rw [List.mem_singleton.mp member, about] at same
    exact apart (Option.some.inj same)
  unfold WellAddressed at addressed
  cases body : packet.body with
  | checkAuth name =>
      rw [body] at addressed
      obtain ⟨⟨src, from_⟩, _⟩ := addressed
      have result : (fun mserv => createDispatch around mserv packet) =
          fun mserv => sCoreMservCreateCheckAuth around mserv src name := by
        funext mserv
        simp only [createDispatch, from_, body]
      have only : OnlyName name (world.mservs server)
          (sCoreMservCreateCheckAuth around (world.mservs server) src name) :=
        onlyName_send _ _ (by simp [CreateBody.name]) ⟨src, rfl⟩
      refine ⟨fun fname => ?_, name, congrFun result (world.mservs server) ▸ only⟩
      rw [result]
      by_cases same : name = fname
      · subst same
        exact move_checkAuth idle perm from_ to_ body flags
      · exact quiet_foreign idle single same (foreign (by rw [body]; rfl) same) only
  | createMetadata md =>
      rw [body] at addressed
      obtain ⟨⟨src, from_⟩, _⟩ := addressed
      have result : (fun mserv => createDispatch around mserv packet) =
          fun mserv => sCoreMservCreateMetadata mserv src md := by
        funext mserv
        simp only [createDispatch, from_, body]
      have stored : OnlyName md.fname (world.mservs server) { world.mservs server with
          fileMetadata := Function.update (world.mservs server).fileMetadata md.fname (some md) } :=
        OnlyName.of_tables rfl (fun _ _ => rfl) (fun _ _ => rfl) rfl rfl rfl
      have only : OnlyName md.fname (world.mservs server)
          (sCoreMservCreateMetadata (world.mservs server) src md) :=
        stored.trans (onlyName_send _ _ (by simp [CreateBody.name]) ⟨src, rfl⟩)
      refine ⟨fun fname => ?_, md.fname, congrFun result (world.mservs server) ▸ only⟩
      rw [result]
      by_cases same : md.fname = fname
      · subst same
        exact move_createMetadata idle perm from_ body
      · exact quiet_foreign idle single same (foreign (by rw [body]; rfl) same) only
  | createMetaMetaData mmd =>
      rw [body] at addressed
      obtain ⟨⟨src, from_⟩, _⟩ := addressed
      have result : (fun mserv => createDispatch around mserv packet) =
          fun mserv => sCoreMservCreateMetaMetaData around mserv mmd := by
        funext mserv
        simp only [createDispatch, from_, body]
      have only : OnlyName mmd.fname (world.mservs server)
          (sCoreMservCreateMetaMetaData around (world.mservs server) mmd) :=
        OnlyName.of_tables rfl (fun _ _ => rfl) (fun _ apart => Function.update_of_ne apart _ _)
          rfl rfl rfl
      refine ⟨fun fname => ?_, mmd.fname, congrFun result (world.mservs server) ▸ only⟩
      rw [result]
      by_cases same : mmd.fname = fname
      · subst same
        exact move_createMetaMetaData idle perm body
      · exact quiet_foreign idle single same (foreign (by rw [body]; rfl) same) only
  | rpcBack callback name ret =>
      cases callback with
      | checkAuthBack =>
          have result : (fun mserv => createDispatch around mserv packet) =
              fun mserv => irpcCheckAuthBack around mserv name (some ret) := by
            funext mserv
            unfold createDispatch
            rw [body]
            cases packet.src <;> rfl
          have only := onlyName_checkAuthBack around (world.mservs server) name (some ret)
          refine ⟨fun fname => ?_, name, congrFun result (world.mservs server) ▸ only⟩
          rw [result]
          by_cases same : name = fname
          · subst same
            exact move_checkAuthBack idle perm to_ body
          · exact quiet_foreign idle single same (foreign (by rw [body]; rfl) same) only
      | sendMdBack =>
          have result : (fun mserv => createDispatch around mserv packet) =
              fun mserv => irpcSendMdBack around mserv name := by
            funext mserv
            unfold createDispatch
            rw [body]
            cases packet.src <;> rfl
          have only := onlyName_sendMdBack around (world.mservs server) name
          refine ⟨fun fname => ?_, name, congrFun result (world.mservs server) ▸ only⟩
          rw [result]
          by_cases same : name = fname
          · subst same
            exact move_sendMdBack idle perm to_ body
          · exact quiet_foreign idle single same (foreign (by rw [body]; rfl) same) only
  | created reqId md =>
      rw [body] at addressed
      obtain ⟨id, wrong⟩ := addressed
      rw [to_] at wrong
      cases wrong

/-- A packet for a data server or a client. -/
theorem move_elsewhere (idle : Idle server (world.mservs server))
    (perm : world.net.Perm (packet :: rest)) {out : List (CreatePacket Name)} {fname : Name}
    (plain : ∀ holder, inRound holder fname packet = false)
    (outPlain : ∀ reply ∈ out, ∀ holder, inRound holder fname reply = false)
    (outData : ∀ reply ∈ out, ∀ holder, carriesMetadata holder fname reply = true →
      carriesMetadata holder fname packet = true) :
    RoundView.Move group.mservs (roundView fname world)
      (roundView fname { world with net := rest ++ out }) := by
  have single : world.net.Perm ([packet] ++ rest) := perm
  rw [← receive_out idle out]
  apply quiet_receive single
  · rfl
  · exact id
  · intro held member holder holds
    rw [List.mem_singleton.mp member, plain holder] at holds
    cases holds
  · exact outPlain
  · intro reply member holder holds
    exact ⟨packet, perm.mem_iff.mpr List.mem_cons_self, outData reply member holder holds⟩
  · simp [idle.2.2.1]
  · simp [idle.2.2.2]

/-- An orderly step is a move on every name. -/
theorem createInvariant_step {event : CreateEvent Name} {after : CreateWorld Name}
    (invariant : CreateInvariant group world) (orderly : Orderly group world event)
    (stepped : world.step group event = some after) : CreateInvariant group after := by
  cases event with
  | request server clientId reqId fname size readings =>
      simp only [CreateWorld.step] at stepped
      split at stepped
      · rename_i enabled
        obtain ⟨flags, start⟩ := orderly
        have only := onlyName_create (group.around server readings) (world.mservs server) clientId
          reqId fname size
        cases stepped
        refine ⟨?_, ?_, ?_⟩
        · exact fun other => @idle_receive _ world server world.net _ _ invariant.idle only other
        · exact @addressed_receive _ world server world.net _ _ (invariant.idle server)
            invariant.addressed only
        · intro name
          apply (invariant.rounds name).move
          by_cases same : fname = name
          · subst same
            apply move_create (invariant.idle server) enabled.1 flags
            · exact fun allowed => (start allowed).1
            · intro allowed other below live
              have member : other ∈ group.mservs := by
                apply (invariant.rounds fname).liveMember other
                simpa [roundView] using live
              exact (start allowed).2 other member below live
          · have none_ : world.net.Perm ([] ++ world.net) := List.Perm.refl _
            exact quiet_foreign (invariant.idle server) none_ same (by simp) only
      · cases stepped
  | deliver index readings =>
      simp only [CreateWorld.step] at stepped
      split at stepped
      · cases stepped
      · rename_i packet rest taken
        have perm := Packet.perm_of_takeAt taken
        have addressed := invariant.addressed packet (Packet.mem_of_takeAt taken)
        have others : ∀ other ∈ rest, WellAddressed other := fun other member =>
          invariant.addressed other (Packet.mem_rest_of_takeAt taken member)
        split at stepped
        · -- a client hears of its file
          rename_i id to_
          cases stepped
          refine ⟨invariant.idle, others, fun name => (invariant.rounds name).move ?_⟩
          have nameless : packet.body.name = none := by
            unfold WellAddressed at addressed
            split at addressed <;> simp_all [CreateBody.name]
          have plain : ∀ holder, inRound holder name packet = false := by
            intro holder
            apply Bool.eq_false_iff.mpr
            intro holds
            have named := inRound_name holds
            rw [nameless] at named
            cases named
          have moved := @move_elsewhere _ _ group world 0 packet rest (invariant.idle 0) perm [] name
            plain (by simp) (by simp)
          rw [List.append_nil] at moved
          exact moved
        · -- a data server takes the metadata
          rename_i id to_
          cases stepped
          obtain ⟨md, src, body, from_⟩ : ∃ md src, packet.body = .createMetadata md ∧
              packet.src = .mserv src := by
            unfold WellAddressed at addressed
            split at addressed <;> simp_all
          have reply : sCoreDservCreateMetadata id packet =
              [{ src := .dserv id, dst := .mserv src, body := .rpcBack .sendMdBack md.fname 1 }] := by
            simp [sCoreDservCreateMetadata, body, from_]
          rw [reply]
          refine ⟨invariant.idle, ?_, fun name => (invariant.rounds name).move ?_⟩
          · intro other member
            rcases List.mem_append.mp member with old | new
            · exact others other old
            · rw [List.mem_singleton.mp new]
              exact ⟨src, rfl⟩
          · apply move_elsewhere (invariant.idle 0) perm
            · simp [inRound, body]
            · simp [inRound]
            · simp [carriesMetadata, body, from_]
        · rename_i server to_
          split at stepped
          · cases stepped
          · cases stepped
            obtain ⟨moves, name, only⟩ := @move_dispatch _ _ group world server
              (group.around server readings) packet rest (invariant.idle server) perm addressed to_
              orderly
            refine ⟨?_, ?_, ?_⟩
            · exact fun other => idle_receive invariant.idle only other
            · exact addressed_receive (invariant.idle server) others only
            · exact fun fname => (invariant.rounds fname).move (moves fname)

theorem createInvariant_empty (group : CreateGroup) :
    CreateInvariant group (emptyCreateWorld : CreateWorld Name) where
  idle := fun _ => ⟨rfl, rfl, rfl, rfl⟩
  addressed := by simp [emptyCreateWorld]
  rounds := by
    intro fname
    constructor <;> simp [roundView, emptyCreateWorld, CreateServer.init]

/-- In every orderly run each name is created at most once. -/
theorem created_once_of_orderly (group : CreateGroup) (world : CreateWorld Name)
    (reached : (createSystem Name group).ReachableVia (Orderly group) world) (fname : Name) :
    CreatedOnce world fname := by
  have invariant : CreateInvariant group world := by
    apply reached.invariant (CreateInvariant group)
    · rintro start rfl
      exact createInvariant_empty group
    · intro before event after _ held orderly stepped
      exact createInvariant_step held orderly stepped
  have rounds := invariant.rounds fname
  rw [CreatedOnce, count_eq_length, count_eq_length]
  exact ⟨rounds.once, rounds.reportedOnce⟩

end Steps

/-- Servers 2 and 1 start at the same time and ask each other: server 2 is
refused, server 1 creates the file, and a late request at server 3 is refused
as well. -/
def contendedWorld : CreateWorld Nat :=
  (createSystem Nat trioGroup).outcome emptyCreateWorld
    (requestAt 2 7 :: requestAt 1 7 ::
      deliveries (List.replicate 16 0) ++ [requestAt 3 7])

theorem created_once_of_orderly_contended : CreatedOnce contendedWorld 7 :=
  created_once_of_orderly trioGroup contendedWorld
    ((System.reachableVia_outcome rfl _ (by decide +kernel)).mono
      (fun _ _ passed => of_decide_eq_true passed)) 7

/-- Server 1 grants an attempt of server 2 and then starts on the same name:
both create the file and report success. -/
theorem not_always_created_once : ¬ ∀ (group : CreateGroup) (world : CreateWorld Nat),
    (createSystem Nat group).Reachable world → ∀ fname, CreatedOnce world fname := by
  intro always
  have twice : ¬ CreatedOnce twiceWorld 7 := by decide +kernel
  exact twice (always trioGroup twiceWorld (System.reachable_outcome rfl _) 7)

end SimpleDfs.Mserv
