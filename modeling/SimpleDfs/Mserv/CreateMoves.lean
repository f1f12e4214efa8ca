import SimpleDfs.Mserv.CreateEffects

/-!
Contract: the handlers of the file creation make the moves of the rounds.

Owns: what running a handler does to the view of a name; and, for each packet
and for a request, the move it makes on its own name and the quiet move it
makes on every other.

Does not own: the condition on the requests, or the runs.
-/

set_option autoImplicit false

namespace SimpleDfs.Mserv

open SimpleDfs.Library

variable {Name : Type} [DecidableEq Name]

/-! ## What running a handler does to the view -/

section Act

variable (fname : Name) (world : CreateWorld Name) (server : Nat)
  (handler : CreateServer Name → CreateServer Name)

theorem act_ncheck : (roundView fname (world.act server handler)).ncheck =
    Function.update (roundView fname world).ncheck server
      (((handler (world.mservs server)).fileCreating fname).map Creating.ncheck) := by
  funext other
  by_cases same : other = server
  · subst same
    simp [roundView, CreateWorld.act]
  · simp [roundView, CreateWorld.act, Function.update_of_ne same]

theorem act_recorded (other : Nat) : (roundView fname (world.act server handler)).recorded other ↔
    if other = server then (handler (world.mservs server)).fileMetaMetadata fname ≠ none
    else (roundView fname world).recorded other := by
  by_cases same : other = server
  · subst same
    simp [roundView, CreateWorld.act]
  · simp [roundView, CreateWorld.act, same]

theorem act_pending (other : Nat) : (roundView fname (world.act server handler)).pending other =
    (roundView fname world).pending other +
      (handler (world.mservs server)).out.countP (inRound other fname) :=
  List.countP_append

theorem act_withheld (granter asker : Nat) :
    (roundView fname (world.act server handler)).withheld granter asker ↔
      (roundView fname world).withheld granter asker ∨
        ∃ packet ∈ (handler (world.mservs server)).out,
          withheldBy granter asker fname packet = true := by
  simp only [roundView, CreateWorld.act, List.mem_append, or_and_right, exists_or]

theorem act_sentMetadata (other : Nat) :
    (roundView fname (world.act server handler)).sentMetadata other ↔
      (roundView fname world).sentMetadata other ∨
        ∃ packet ∈ (handler (world.mservs server)).out,
          carriesMetadata other fname packet = true := by
  simp only [roundView, CreateWorld.act, List.mem_append, or_and_right, exists_or]

theorem act_created : (roundView fname (world.act server handler)).created =
    (roundView fname world).created ++
      ((handler (world.mservs server)).icreated.filter fun name => name == fname).map
        fun _ => server := by
  simp only [roundView, CreateWorld.act, List.filter_append, List.map_append, List.filter_map,
    List.map_map]
  rfl

theorem act_reported : (roundView fname (world.act server handler)).reported =
    (roundView fname world).reported ++
      ((handler (world.mservs server)).succeeded.filter fun name => name == fname).map
        fun _ => server := by
  simp only [roundView, CreateWorld.act, List.filter_append, List.map_append, List.filter_map,
    List.map_map]
  rfl

end Act

/-- A server between two events: its log is empty. -/
def Idle (server : Nat) (mserv : CreateServer Name) : Prop :=
  mserv.id = server ∧ mserv.out = [] ∧ mserv.icreated = [] ∧ mserv.succeeded = []

/-- The receipt of some packets at a server. -/
def CreateWorld.receive (world : CreateWorld Name) (rest : List (CreatePacket Name))
    (server : Nat) (handler : CreateServer Name → CreateServer Name) : CreateWorld Name :=
  { world with net := rest }.act server handler

section Receive

variable {fname : Name} {world : CreateWorld Name} {server : Nat}
  {handler : CreateServer Name → CreateServer Name} {received rest : List (CreatePacket Name)}
  {members : List Nat}

/-- Removing packets that are not in the round of a server. -/
theorem pending_received {other : Nat} (perm : world.net.Perm (received ++ rest))
    (apart : ∀ packet ∈ received, inRound other fname packet = false) :
    (roundView fname world).pending other = rest.countP (inRound other fname) := by
  have nothing : received.countP (inRound other fname) = 0 :=
    List.countP_eq_zero.mpr fun packet member => by simp [apart packet member]
  have total := perm.countP_eq (inRound other fname)
  rw [List.countP_append, nothing, Nat.zero_add] at total
  exact total

theorem withheld_received {granter asker : Nat} (perm : world.net.Perm (received ++ rest))
    (apart : ∀ packet ∈ received, withheldBy granter asker fname packet = false)
    (withheld : (roundView fname world).withheld granter asker) :
    ∃ packet ∈ rest, withheldBy granter asker fname packet = true := by
  obtain ⟨packet, member, holds⟩ := withheld
  rcases List.mem_append.mp (perm.mem_iff.mp member) with listed | listed
  · rw [apart packet listed] at holds
    cases holds
  · exact ⟨packet, listed, holds⟩

theorem sentMetadata_rest {other : Nat} (perm : world.net.Perm (received ++ rest))
    (sent : ∃ packet ∈ rest, carriesMetadata other fname packet = true) :
    (roundView fname world).sentMetadata other := by
  obtain ⟨packet, member, holds⟩ := sent
  exact ⟨packet, perm.mem_iff.mpr (List.mem_append_right received member), holds⟩

theorem withheldBy_of_own {packet : CreatePacket Name} (own : Own server fname packet)
    {granter asker : Nat} (apart : asker ≠ server) :
    withheldBy granter asker fname packet = false := by
  apply Bool.eq_false_iff.mpr
  intro holds
  have inside := inRound_of_withheldBy holds
  rw [(own asker apart).1] at inside
  cases inside

/-- A handler that receives and sends packets of its own round only leaves the
attempts of the others. -/
theorem others_receive (perm : world.net.Perm (received ++ rest))
    (ownReceived : ∀ packet ∈ received, Own server fname packet)
    (recorded : (world.mservs server).fileMetaMetadata fname ≠ none →
      (handler (world.mservs server)).fileMetaMetadata fname ≠ none)
    (ownSent : ∀ packet ∈ (handler (world.mservs server)).out, Own server fname packet) :
    RoundView.Others server (roundView fname world)
      (roundView fname (world.receive rest server handler)) := by
  constructor
  · intro other apart
    rw [CreateWorld.receive, act_ncheck, Function.update_of_ne apart]
    rfl
  · intro other held
    rw [CreateWorld.receive, act_recorded]
    split
    · rename_i same
      exact recorded (same ▸ held)
    · exact held
  · intro other apart
    have sent : (handler (world.mservs server)).out.countP (inRound other fname) = 0 :=
      List.countP_eq_zero.mpr fun packet member => by simp [(ownSent packet member other apart).1]
    rw [pending_received perm fun packet member => (ownReceived packet member other apart).1,
      CreateWorld.receive, act_pending]
    exact Nat.add_eq_left.mpr sent
  · intro granter asker apart withheld
    rw [CreateWorld.receive, act_withheld]
    exact Or.inl (withheld_received perm
      (fun packet member => withheldBy_of_own (ownReceived packet member) apart) withheld)
  · intro other apart sent
    rw [CreateWorld.receive, act_sentMetadata] at sent
    rcases sent with old | ⟨packet, member, holds⟩
    · exact sentMetadata_rest perm old
    · rw [(ownSent packet member other apart).2] at holds
      cases holds

/-- A handler that neither opens nor closes an attempt, and receives no answer
to an open one, makes no move. -/
theorem quiet_receive (perm : world.net.Perm (received ++ rest))
    (creating : (handler (world.mservs server)).fileCreating fname =
      (world.mservs server).fileCreating fname)
    (recorded : (world.mservs server).fileMetaMetadata fname ≠ none →
      (handler (world.mservs server)).fileMetaMetadata fname ≠ none)
    (receivedRound : ∀ packet ∈ received, ∀ holder, inRound holder fname packet = true →
      (roundView fname world).ncheck holder = none)
    (sentRound : ∀ packet ∈ (handler (world.mservs server)).out, ∀ holder,
      inRound holder fname packet = false)
    (sentData : ∀ packet ∈ (handler (world.mservs server)).out, ∀ holder,
      carriesMetadata holder fname packet = true → (roundView fname world).sentMetadata holder)
    (icreated : fname ∉ (handler (world.mservs server)).icreated)
    (succeeded : fname ∉ (handler (world.mservs server)).succeeded) :
    RoundView.Move members (roundView fname world)
      (roundView fname (world.receive rest server handler)) := by
  have sent : ∀ holder, (handler (world.mservs server)).out.countP (inRound holder fname) = 0 := by
    intro holder
    exact List.countP_eq_zero.mpr fun packet member => by simp [sentRound packet member holder]
  have pending : ∀ holder, (roundView fname (world.receive rest server handler)).pending holder =
      rest.countP (inRound holder fname) := by
    intro holder
    rw [CreateWorld.receive, act_pending, sent holder]
    rfl
  have liveApart : ∀ packet ∈ received, ∀ holder, (roundView fname world).ncheck holder ≠ none →
      inRound holder fname packet = false := by
    intro packet member holder live
    exact Bool.eq_false_iff.mpr fun holds => live (receivedRound packet member holder holds)
  apply RoundView.Move.quiet
  · funext holder
    rw [CreateWorld.receive, act_ncheck, creating]
    by_cases same : holder = server
    · rw [same, Function.update_self]
      rfl
    · rw [Function.update_of_ne same]
      rfl
  · intro holder held
    rw [CreateWorld.receive, act_recorded]
    split
    · rename_i same
      exact recorded (same ▸ held)
    · exact held
  · intro holder live
    rw [pending, pending_received perm fun packet member => liveApart packet member holder live]
  · intro holder drained
    have total := perm.countP_eq (inRound holder fname)
    rw [List.countP_append] at total
    rw [pending]
    simp only [roundView] at drained
    omega
  · intro granter asker live withheld
    rw [CreateWorld.receive, act_withheld]
    refine Or.inl (withheld_received perm (fun packet member => ?_) withheld)
    apply Bool.eq_false_iff.mpr
    intro holds
    have inside := inRound_of_withheldBy holds
    rw [liveApart packet member asker live] at inside
    cases inside
  · intro holder after
    rw [CreateWorld.receive, act_sentMetadata] at after
    rcases after with old | ⟨packet, member, holds⟩
    · exact sentMetadata_rest perm old
    · exact sentData packet member holder holds
  · rw [CreateWorld.receive, act_created, List.filter_eq_nil_iff.mpr]
    · exact List.append_nil _
    · intro name member same
      exact icreated (beq_iff_eq.mp same ▸ member)
  · rw [CreateWorld.receive, act_reported, List.filter_eq_nil_iff.mpr]
    · exact List.append_nil _
    · intro name member same
      exact succeeded (beq_iff_eq.mp same ▸ member)

/-- A handler of another name makes no move on this one. -/
theorem quiet_foreign {other : Name} (idle : Idle server (world.mservs server))
    (perm : world.net.Perm (received ++ rest)) (apart : other ≠ fname)
    (foreign : ∀ packet ∈ received, packet.body.name ≠ some fname)
    (only : OnlyName other (world.mservs server) (handler (world.mservs server))) :
    RoundView.Move members (roundView fname world)
      (roundView fname (world.receive rest server handler)) := by
  obtain ⟨sent, out, named⟩ := only.out
  obtain ⟨names, icreated, namesOnly⟩ := only.icreated
  obtain ⟨told, succeeded, toldOnly⟩ := only.succeeded
  rw [idle.2.1, List.nil_append] at out
  rw [idle.2.2.1, List.nil_append] at icreated
  rw [idle.2.2.2, List.nil_append] at succeeded
  have foreignSent : ∀ packet ∈ (handler (world.mservs server)).out,
      packet.body.name ≠ some fname := by
    intro packet member about
    exact apart ((named packet (out ▸ member)).1 fname about).symm
  apply quiet_receive perm
  · exact only.creating fname (Ne.symm apart)
  · rw [only.recorded fname (Ne.symm apart)]
    exact id
  · intro packet member holder holds
    exact absurd (inRound_name holds) (foreign packet member)
  · intro packet member holder
    exact Bool.eq_false_iff.mpr fun holds => foreignSent packet member (inRound_name holds)
  · intro packet member holder holds
    exact absurd (carriesMetadata_name holds) (foreignSent packet member)
  · intro member
    exact apart (namesOnly fname (icreated ▸ member)).symm
  · intro member
    exact apart (toldOnly fname (succeeded ▸ member)).symm

end Receive

/-! ## The moves on the name of a packet -/

section Moves

variable {fname : Name} {world : CreateWorld Name} {server : Nat} {around : Surroundings}
  {packet : CreatePacket Name} {rest : List (CreatePacket Name)} {members : List Nat}

/-- What the flags check of a record says if it does not read as deleted. -/
theorem icheckCanCreate_iff (flags : around.strayFlags ≠ sFileMmdFlagDeleted) (src : Nat) :
    icheckCanCreate around (world.mservs server) src fname = true ↔
      (roundView fname world).ncheck server = none ∧ ¬ (roundView fname world).recorded server ∨
        (roundView fname world).ncheck server ≠ none ∧ src < (world.mservs server).id := by
  simp only [roundView, icheckCanCreate]
  cases (world.mservs server).fileCreating fname with
  | none => cases (world.mservs server).fileMetaMetadata fname <;> simp [flags]
  | some creating => simp

/-- An answer goes where the question came from. -/
theorem move_checkAuth {src : Nat} (idle : Idle server (world.mservs server))
    (perm : world.net.Perm (packet :: rest)) (from_ : packet.src = .mserv src)
    (to_ : packet.dst = .mserv server) (body : packet.body = .checkAuth fname)
    (flags : around.strayFlags ≠ sFileMmdFlagDeleted) :
    RoundView.Move members (roundView fname world) (roundView fname
      (world.receive rest server fun mserv => sCoreMservCreateCheckAuth around mserv src fname)) := by
  have single : world.net.Perm ([packet] ++ rest) := perm
  have out : (sCoreMservCreateCheckAuth around (world.mservs server) src fname).out =
      [{ src := .mserv server, dst := .mserv src
         body := .rpcBack .checkAuthBack fname
          (if icheckCanCreate around (world.mservs server) src fname then 1 else 0) }] := by
    simp [sCoreMservCreateCheckAuth, CreateServer.send, idle.2.1, idle.1]
  have ncheck : (roundView fname (world.receive rest server fun mserv =>
      sCoreMservCreateCheckAuth around mserv src fname)).ncheck = (roundView fname world).ncheck := by
    rw [CreateWorld.receive, act_ncheck]
    exact Function.update_eq_self server _
  have recorded : ∀ holder, (roundView fname world).recorded holder →
      (roundView fname (world.receive rest server fun mserv =>
        sCoreMservCreateCheckAuth around mserv src fname)).recorded holder := by
    intro holder held
    rw [CreateWorld.receive, act_recorded]
    split
    · rename_i same
      exact same ▸ held
    · exact held
  have pending : (roundView fname (world.receive rest server fun mserv =>
      sCoreMservCreateCheckAuth around mserv src fname)).pending =
        (roundView fname world).pending := by
    funext holder
    rw [CreateWorld.receive, act_pending, out]
    simp only [roundView, perm.countP_eq (inRound holder fname), List.countP_cons, List.countP_nil]
    simp [inRound, body, from_]
  have sentMetadata : ∀ holder, (roundView fname (world.receive rest server fun mserv =>
      sCoreMservCreateCheckAuth around mserv src fname)).sentMetadata holder →
        (roundView fname world).sentMetadata holder := by
    intro holder after
    rw [CreateWorld.receive, act_sentMetadata, out] at after
    rcases after with old | ⟨sent, member, holds⟩
    · exact sentMetadata_rest single old
    · rw [List.mem_singleton.mp member] at holds
      cases holds
  have elsewhere : ∀ one other, ¬ (one = server ∧ other = src) →
      (roundView fname world).withheld one other →
        ∃ packet ∈ rest, withheldBy one other fname packet = true := by
    intro one other apart withheld
    apply withheld_received single _ withheld
    intro held member
    rw [List.mem_singleton.mp member]
    apply Bool.eq_false_iff.mpr
    intro holds
    simp only [withheldBy, inRound, body, from_, to_, Bool.and_eq_true, beq_iff_eq,
      CreatePeer.mserv.injEq] at holds
    exact apart ⟨holds.2.symm, holds.1.1.symm⟩
  have created : (roundView fname (world.receive rest server fun mserv =>
      sCoreMservCreateCheckAuth around mserv src fname)).created =
        (roundView fname world).created := by
    rw [CreateWorld.receive, act_created]
    simp [sCoreMservCreateCheckAuth, CreateServer.send, idle.2.2.1, roundView]
  have reported : (roundView fname (world.receive rest server fun mserv =>
      sCoreMservCreateCheckAuth around mserv src fname)).reported =
        (roundView fname world).reported := by
    rw [CreateWorld.receive, act_reported]
    simp [sCoreMservCreateCheckAuth, CreateServer.send, idle.2.2.2, roundView]
  by_cases allowed : icheckCanCreate around (world.mservs server) src fname = true
  · have reason := (icheckCanCreate_iff flags src).mp allowed
    rw [idle.1] at reason
    refine RoundView.Move.grant server src reason ncheck recorded pending ?_ sentMetadata created
      reported
    intro one other apart withheld
    rw [CreateWorld.receive, act_withheld]
    exact Or.inl (elsewhere one other apart withheld)
  · refine RoundView.Move.quiet ncheck recorded (fun holder _ => congrFun pending holder) ?_ ?_
      sentMetadata created reported
    · intro holder drained
      exact (congrFun pending holder).trans drained
    · intro one other _ withheld
      rw [CreateWorld.receive, act_withheld, out]
      by_cases here : one = server ∧ other = src
      · refine Or.inr ⟨_, List.mem_singleton_self _, ?_⟩
        simp [withheldBy, inRound, here, allowed]
      · exact Or.inl (elsewhere one other here withheld)

omit [DecidableEq Name] in
/-- Telling a client that its request failed. -/
theorem icreateFailToClient_spec (around : Surroundings) (mserv : CreateServer Name) (reqId clientId : Nat) :
    let after := icreateFailToClient around mserv reqId clientId
    after.fileCreating = mserv.fileCreating ∧ after.fileMetaMetadata = mserv.fileMetaMetadata ∧
      after.icreated = mserv.icreated ∧ after.succeeded = mserv.succeeded ∧
        ∃ sent, after.out = mserv.out ++ sent ∧ ∀ packet ∈ sent, packet.body.name = none := by
  dsimp only
  unfold icreateFailToClient
  split
  · refine ⟨rfl, rfl, rfl, rfl, _, rfl, ?_⟩
    simp [CreateBody.name]
  · exact ⟨rfl, rfl, rfl, rfl, [], by simp, by simp⟩

/-- Giving an attempt up. -/
theorem move_fail {received : List (CreatePacket Name)} {reqId clientId : Nat}
    (idle : Idle server (world.mservs server)) (perm : world.net.Perm (received ++ rest))
    (own : ∀ packet ∈ received, Own server fname packet)
    {handler : CreateServer Name → CreateServer Name}
    (result : handler (world.mservs server) =
      (icreateFailToClient around (world.mservs server) reqId clientId).setCreating fname none) :
    RoundView.Move members (roundView fname world)
      (roundView fname (world.receive rest server handler)) := by
  obtain ⟨_, recorded, icreated, succeeded, sent, out, nameless⟩ :=
    icreateFailToClient_spec around (world.mservs server) reqId clientId
  rw [idle.2.1, List.nil_append] at out
  have logged : (handler (world.mservs server)).out = sent := by rw [result]; exact out
  have foreign : ∀ packet ∈ sent, packet.body.name ≠ some fname := by
    intro packet member
    simp [nameless packet member]
  have ownSent : ∀ packet ∈ (handler (world.mservs server)).out, Own server fname packet := by
    intro packet member
    exact own_of_foreign (foreign packet (logged ▸ member)) server
  have others := others_receive perm own
    (by rw [result]; exact fun held => recorded ▸ held) ownSent
  refine RoundView.Move.close server others ?_ ?_ ?_ ?_ ?_
  · rw [CreateWorld.receive, act_ncheck, Function.update_self, result]
    simp [CreateServer.setCreating]
  · intro drained
    have total := perm.countP_eq (inRound server fname)
    have nothing : sent.countP (inRound server fname) = 0 :=
      List.countP_eq_zero.mpr fun packet member holds =>
        foreign packet member (inRound_name holds)
    rw [List.countP_append] at total
    rw [CreateWorld.receive, act_pending, logged, nothing]
    simp only [roundView] at drained ⊢
    omega
  · intro after
    rw [CreateWorld.receive, act_sentMetadata, logged] at after
    rcases after with old | ⟨packet, member, holds⟩
    · exact sentMetadata_rest perm old
    · exact absurd (carriesMetadata_name holds) (foreign packet member)
  · have same : (handler (world.mservs server)).icreated = [] := by
      rw [result]
      exact icreated.trans idle.2.2.1
    rw [CreateWorld.receive, act_created, same]
    exact List.append_nil _
  · have same : (handler (world.mservs server)).succeeded = [] := by
      rw [result]
      exact succeeded.trans idle.2.2.2
    rw [CreateWorld.receive, act_reported, same]
    exact List.append_nil _

/-- A packet of the own round that is not the only one of its kind. -/
theorem received_grant {ret : Int} (perm : world.net.Perm (packet :: rest))
    (to_ : packet.dst = .mserv server) (body : packet.body = .rpcBack .checkAuthBack fname ret) :
    (∀ held ∈ [packet], Own server fname held) ∧
      (roundView fname world).pending server = rest.countP (inRound server fname) + 1 ∧
        (¬ ret ≤ 0 → ∀ handler granter, (roundView fname world).withheld granter server →
          (roundView fname (world.receive rest server handler)).withheld granter server) := by
  have single : world.net.Perm ([packet] ++ rest) := perm
  refine ⟨?_, ?_, ?_⟩
  · intro held member
    rw [List.mem_singleton.mp member]
    intro other apart
    simp [inRound, carriesMetadata, body, to_, Ne.symm apart]
  · have mine : inRound server fname packet = true := by simp [inRound, body, to_]
    simp [roundView, perm.countP_eq (inRound server fname), mine]
  · intro positive handler granter withheld
    rw [CreateWorld.receive, act_withheld]
    refine Or.inl (withheld_received single (fun held member => ?_) withheld)
    rw [List.mem_singleton.mp member]
    simp [withheldBy, body, positive]

/-- The last answer: the file is created. -/
theorem move_complete {ret : Int} {creating : Creating} {checked : Creating}
    {handler : CreateServer Name → CreateServer Name} (idle : Idle server (world.mservs server))
    (perm : world.net.Perm (packet :: rest)) (to_ : packet.dst = .mserv server)
    (body : packet.body = .rpcBack .checkAuthBack fname ret) (positive : ¬ ret ≤ 0)
    (attempt : (world.mservs server).fileCreating fname = some creating)
    (last : creating.ncheck - 1 = 0)
    (result : handler (world.mservs server) =
      icreate around ((world.mservs server).setCreating fname (some checked)) fname checked) :
    RoundView.Move members (roundView fname world)
      (roundView fname (world.receive rest server handler)) := by
  have single : world.net.Perm ([packet] ++ rest) := perm
  obtain ⟨own, pending, kept⟩ := received_grant perm to_ body
  have made := icreate_spec around ((world.mservs server).setCreating fname (some checked)) fname
    checked
  rw [← result] at made
  obtain ⟨sent, out, plain⟩ := made.out
  have logged : (handler (world.mservs server)).out = sent := by
    rw [out]
    simp [CreateServer.setCreating, idle.2.1]
  have nothing : sent.countP (inRound server fname) = 0 :=
    List.countP_eq_zero.mpr fun packet member => by simp [(plain packet member).1 server]
  have ownSent : ∀ packet ∈ (handler (world.mservs server)).out, Own server fname packet := by
    intro packet member
    have apart := (plain packet (logged ▸ member)).2
    rw [← idle.1]
    exact apart
  have others := @others_receive _ _ fname world server handler [packet] rest single own
    (fun _ => made.recorded) ownSent
  apply RoundView.Move.complete server others
  · simp only [roundView, attempt, Option.map_some, Option.some_inj]
    omega
  · rw [CreateWorld.receive, act_ncheck, Function.update_self]
    have stays := made.creating (by simp [CreateServer.setCreating])
    rw [Ne, Option.map_eq_none_iff]
    exact stays
  · rw [pending, CreateWorld.receive, act_pending, logged, nothing]
    rfl
  · exact kept positive handler
  · rw [CreateWorld.receive, act_recorded, if_pos rfl]
    exact made.recorded
  · rw [CreateWorld.receive, act_created, made.icreated]
    simp [CreateServer.setCreating, idle.2.2.1, roundView]
  · rw [CreateWorld.receive, act_reported, made.succeeded]
    simp [CreateServer.setCreating, idle.2.2.2, roundView]

/-- An answer that is not the last. -/
theorem move_collect {ret : Int} {creating : Creating}
    {handler : CreateServer Name → CreateServer Name} (idle : Idle server (world.mservs server))
    (perm : world.net.Perm (packet :: rest)) (to_ : packet.dst = .mserv server)
    (body : packet.body = .rpcBack .checkAuthBack fname ret) (positive : ¬ ret ≤ 0)
    (attempt : (world.mservs server).fileCreating fname = some creating)
    (result : handler (world.mservs server) = (world.mservs server).setCreating fname
      (some { creating with ncheck := creating.ncheck - 1 })) :
    RoundView.Move members (roundView fname world)
      (roundView fname (world.receive rest server handler)) := by
  have single : world.net.Perm ([packet] ++ rest) := perm
  obtain ⟨own, pending, kept⟩ := received_grant perm to_ body
  have logged : (handler (world.mservs server)).out = [] := by
    rw [result]
    exact idle.2.1
  have others := @others_receive _ _ fname world server handler [packet] rest single own
    (by rw [result]; exact id) (by simp [logged])
  apply RoundView.Move.collect server others (creating.ncheck - 1)
  · simp only [roundView, attempt, Option.map_some, Option.some_inj]
    omega
  · rw [CreateWorld.receive, act_ncheck, Function.update_self, result]
    simp [CreateServer.setCreating]
  · rw [pending, CreateWorld.receive, act_pending, logged]
    rfl
  · exact kept positive handler
  · intro after
    rw [CreateWorld.receive, act_sentMetadata, logged] at after
    rcases after with old | ⟨packet, member, _⟩
    · exact sentMetadata_rest single old
    · cases member
  · rw [CreateWorld.receive, act_created, result]
    simp [CreateServer.setCreating, idle.2.2.1, roundView]
  · rw [CreateWorld.receive, act_reported, result]
    simp [CreateServer.setCreating, idle.2.2.2, roundView]

/-- An answer ends the attempt, is counted, or is the last one. -/
theorem move_checkAuthBack {ret : Int} (idle : Idle server (world.mservs server))
    (perm : world.net.Perm (packet :: rest)) (to_ : packet.dst = .mserv server)
    (body : packet.body = .rpcBack .checkAuthBack fname ret) :
    RoundView.Move members (roundView fname world) (roundView fname
      (world.receive rest server fun mserv => irpcCheckAuthBack around mserv fname (some ret))) := by
  have single : world.net.Perm ([packet] ++ rest) := perm
  obtain ⟨own, _, _⟩ := received_grant perm to_ body
  cases attempt : (world.mservs server).fileCreating fname with
  | none =>
      have same : irpcCheckAuthBack around (world.mservs server) fname (some ret) =
          world.mservs server := by simp [irpcCheckAuthBack, attempt]
      apply quiet_receive single
      · rw [same]
      · rw [same]
        exact id
      · intro held member holder holds
        rw [List.mem_singleton.mp member] at holds
        by_cases atServer : holder = server
        · rw [atServer]
          simp [roundView, attempt]
        · rw [(own packet List.mem_cons_self holder atServer).1] at holds
          cases holds
      · simp [same, idle.2.1]
      · simp [same, idle.2.1]
      · simp [same, idle.2.2.1]
      · simp [same, idle.2.2.2]
  | some creating =>
      by_cases refused : ret ≤ 0
      · apply move_fail idle single own
        simp [irpcCheckAuthBack, attempt, refused]
        rfl
      · by_cases last : creating.ncheck - 1 = 0
        · apply move_complete idle perm to_ body refused attempt last
          simp [irpcCheckAuthBack, attempt, refused, last]
          rfl
        · apply move_collect idle perm to_ body refused attempt
          simp [irpcCheckAuthBack, attempt, refused, last]

omit [DecidableEq Name] in
/-- Telling a client that its file is created. -/
theorem icreateSucToClient_spec (around : Surroundings) (mserv : CreateServer Name) (fname : Name)
    (creating : Creating) (md : FileMetaData Name) :
    let after := icreateSucToClient around mserv fname creating md
    after.fileCreating = mserv.fileCreating ∧ after.fileMetaMetadata = mserv.fileMetaMetadata ∧
      after.icreated = mserv.icreated ∧
        (after.succeeded = mserv.succeeded ∨ after.succeeded = mserv.succeeded ++ [fname]) ∧
          ∃ sent, after.out = mserv.out ++ sent ∧ ∀ packet ∈ sent, packet.body.name = none := by
  dsimp only
  unfold icreateSucToClient
  split
  · refine ⟨rfl, rfl, rfl, Or.inr rfl, _, rfl, ?_⟩
    simp [CreateBody.name]
  · exact ⟨rfl, rfl, rfl, Or.inl rfl, [], by simp, by simp⟩

/-- Counting a reply of a target, and after the last one telling the client. -/
theorem irpcSendMdBack_spec (around : Surroundings) {creating : Creating} {md : FileMetaData Name}
    (idle : Idle server (world.mservs server))
    (attempt : (world.mservs server).fileCreating fname = some creating)
    (stored : (world.mservs server).fileMetadata fname = some md) :
    let after := irpcSendMdBack around (world.mservs server) fname
    after.fileMetaMetadata = (world.mservs server).fileMetaMetadata ∧ after.icreated = [] ∧
      (after.succeeded = [] ∨ after.fileCreating fname = none ∧ after.succeeded = [fname]) ∧
        ∃ sent, after.out = sent ∧ ∀ packet ∈ sent, packet.body.name = none := by
  by_cases last : creating.ncheck - 1 = 0
  · obtain ⟨_, recorded, icreated, succeeded, sent, out, nameless⟩ :=
      icreateSucToClient_spec around (world.mservs server) fname
        { creating with ncheck := creating.ncheck - 1 } md
    simp only [irpcSendMdBack, attempt, stored, last, if_true] at *
    refine ⟨recorded, icreated.trans idle.2.2.1, ?_, sent, ?_, nameless⟩
    · rw [idle.2.2.2, List.nil_append] at succeeded
      exact succeeded.imp id fun told => ⟨by simp [CreateServer.setCreating], told⟩
    · exact out.trans (by rw [idle.2.1]; rfl)
  · simp only [irpcSendMdBack, attempt, stored, last, if_false]
    exact ⟨rfl, idle.2.2.1, Or.inl idle.2.2.2, [], idle.2.1, by simp⟩

/-- The reply of a target. -/
theorem move_sendMdBack {ret : Int} (idle : Idle server (world.mservs server))
    (perm : world.net.Perm (packet :: rest)) (to_ : packet.dst = .mserv server)
    (body : packet.body = .rpcBack .sendMdBack fname ret) :
    RoundView.Move members (roundView fname world) (roundView fname
      (world.receive rest server fun mserv => irpcSendMdBack around mserv fname)) := by
  have single : world.net.Perm ([packet] ++ rest) := perm
  have outside : ∀ holder, inRound holder fname packet = false := by simp [inRound, body]
  have own : ∀ held ∈ [packet], Own server fname held := by
    intro held member
    rw [List.mem_singleton.mp member]
    intro other apart
    simp [outside, carriesMetadata, body, to_, Ne.symm apart]
  have sent : (roundView fname world).sentMetadata server :=
    ⟨packet, perm.mem_iff.mpr List.mem_cons_self, by simp [carriesMetadata, body, to_]⟩
  cases attempt : (world.mservs server).fileCreating fname with
  | none =>
      have same : irpcSendMdBack around (world.mservs server) fname = world.mservs server := by
        simp [irpcSendMdBack, attempt]
      apply quiet_receive single
      · rw [same]
      · rw [same]
        exact id
      · intro held member holder holds
        rw [List.mem_singleton.mp member, outside] at holds
        cases holds
      · simp [same, idle.2.1]
      · simp [same, idle.2.1]
      · simp [same, idle.2.2.1]
      · simp [same, idle.2.2.2]
  | some creating =>
      cases stored : (world.mservs server).fileMetadata fname with
      | none =>
          apply move_fail idle single own
          simp only [irpcSendMdBack, attempt, stored]
          rfl
      | some md =>
          have ncheck : (roundView fname world).ncheck server ≠ none := by
            simp [roundView, attempt]
          have pending : (roundView fname world).pending server =
              rest.countP (inRound server fname) := by
            apply pending_received single
            intro held member
            rw [List.mem_singleton.mp member]
            exact outside server
          have kept : ∀ {handler : CreateServer Name → CreateServer Name} (granter : Nat),
              (roundView fname world).withheld granter server →
                (roundView fname (world.receive rest server handler)).withheld granter server := by
            intro handler granter withheld
            rw [CreateWorld.receive, act_withheld]
            refine Or.inl (withheld_received single (fun held member => ?_) withheld)
            rw [List.mem_singleton.mp member, withheldBy, outside server]
            rfl
          obtain ⟨recorded, icreated, reported, more, out, nameless⟩ :=
            irpcSendMdBack_spec around idle attempt stored
          have foreign : ∀ packet ∈ more, packet.body.name ≠ some fname := by
            intro packet member
            simp [nameless packet member]
          have nothing : more.countP (inRound server fname) = 0 :=
            List.countP_eq_zero.mpr fun packet member holds =>
              foreign packet member (inRound_name holds)
          have others := @others_receive _ _ fname world server
            (fun mserv => irpcSendMdBack around mserv fname) [packet] rest single own
            (by rw [recorded]; exact id) fun packet member =>
              own_of_foreign (foreign packet (out ▸ member)) server
          apply RoundView.Move.stored server others sent ncheck
          · rw [pending, CreateWorld.receive, act_pending, out, nothing]
            rfl
          · exact kept
          · rw [CreateWorld.receive, act_created, icreated]
            exact List.append_nil _
          · rw [CreateWorld.receive, act_reported, act_ncheck, Function.update_self]
            rcases reported with same | ⟨done, told⟩
            · rw [same]
              exact Or.inl (List.append_nil _)
            · rw [done, told]
              exact Or.inr ⟨rfl, by simp [roundView]⟩

/-- A meta server takes the metadata of another. -/
theorem move_createMetadata {src : Nat} {md : FileMetaData Name}
    (idle : Idle server (world.mservs server)) (perm : world.net.Perm (packet :: rest))
    (from_ : packet.src = .mserv src) (body : packet.body = .createMetadata md) :
    RoundView.Move members (roundView md.fname world) (roundView md.fname
      (world.receive rest server fun mserv => sCoreMservCreateMetadata mserv src md)) := by
  have single : world.net.Perm ([packet] ++ rest) := perm
  apply quiet_receive single
  · rfl
  · exact id
  · intro held member holder holds
    rw [List.mem_singleton.mp member] at holds
    simp [inRound, body] at holds
  · intro sent member holder
    simp only [sCoreMservCreateMetadata, CreateServer.send, idle.2.1, List.nil_append,
      List.mem_singleton] at member
    rw [member]
    rfl
  · intro sent member holder holds
    simp only [sCoreMservCreateMetadata, CreateServer.send, idle.2.1, List.nil_append,
      List.mem_singleton] at member
    refine ⟨packet, perm.mem_iff.mpr List.mem_cons_self, ?_⟩
    rw [member] at holds
    simpa [carriesMetadata, body, from_] using holds
  · simp [sCoreMservCreateMetadata, CreateServer.send, idle.2.2.1]
  · simp [sCoreMservCreateMetadata, CreateServer.send, idle.2.2.2]

/-- A meta server takes the record of another. -/
theorem move_createMetaMetaData {mmd : FileMetaMetaData Name}
    (idle : Idle server (world.mservs server)) (perm : world.net.Perm (packet :: rest))
    (body : packet.body = .createMetaMetaData mmd) :
    RoundView.Move members (roundView mmd.fname world) (roundView mmd.fname
      (world.receive rest server fun mserv => sCoreMservCreateMetaMetaData around mserv mmd)) := by
  have single : world.net.Perm ([packet] ++ rest) := perm
  apply quiet_receive single
  · rfl
  · simp [sCoreMservCreateMetaMetaData]
  · intro held member holder holds
    rw [List.mem_singleton.mp member] at holds
    simp [inRound, body] at holds
  · simp [sCoreMservCreateMetaMetaData, idle.2.1]
  · simp [sCoreMservCreateMetaMetaData, idle.2.1]
  · simp [sCoreMservCreateMetaMetaData, idle.2.2.1]
  · simp [sCoreMservCreateMetaMetaData, idle.2.2.2]

/-- A server asks all others of its group. -/
theorem asked_peers (group : CreateGroup) (server : Nat) (readings : Readings) :
    ((group.around server readings).mservs.filter fun serv => serv.id != server).map
        (fun serv => CreatePeer.mserv serv.id) =
      (group.mservs.filter fun id => id != server).map CreatePeer.mserv := by
  simp only [CreateGroup.around, List.filter_map, List.map_map, List.filter_filter]
  congr 1
  apply List.filter_congr
  simp

/-- The questions of a server to the others of its group. -/
theorem move_start {group : CreateGroup} {creating : Creating}
    {handler : CreateServer Name → CreateServer Name} (idle : Idle server (world.mservs server))
    (member : server ∈ group.mservs) (fresh : (roundView fname world).ncheck server = none)
    (unrecorded : ¬ (roundView fname world).recorded server)
    (drained : (roundView fname world).pending server = 0)
    (above : ∀ other, server < other → (world.mservs other).fileCreating fname ≠ none →
      ∃ packet ∈ world.net, withheldBy server other fname packet = true)
    (ncheck : creating.ncheck = (group.mservs.filter fun id => id != server).length)
    (result : handler (world.mservs server) =
      ((world.mservs server).setCreating fname (some creating)).sendAll
        ((group.mservs.filter fun id => id != server).map .mserv) (.checkAuth fname)) :
    RoundView.Move group.mservs (roundView fname world)
      (roundView fname (world.act server handler)) := by
  have perm : world.net.Perm ([] ++ world.net) := List.Perm.refl _
  have out : (handler (world.mservs server)).out =
      (group.mservs.filter fun id => id != server).map fun id =>
        ({ src := .mserv server, dst := .mserv id, body := .checkAuth fname } :
          CreatePacket Name) := by
    simp [result, CreateServer.sendAll, CreateServer.setCreating, idle.2.1, idle.1]
  have ownSent : ∀ packet ∈ (handler (world.mservs server)).out, Own server fname packet := by
    intro packet listed
    rw [out] at listed
    obtain ⟨id, _, rfl⟩ := List.mem_map.mp listed
    intro other apart
    simp [inRound, carriesMetadata, Ne.symm apart]
  have asked : (roundView fname (world.act server handler)).pending server =
      (group.mservs.filter fun id => id != server).length := by
    rw [act_pending, drained, Nat.zero_add, out, List.countP_map]
    rw [List.countP_eq_length.mpr]
    intro id _
    simp [inRound]
  have others := @others_receive Name _ fname world server handler [] world.net perm (by simp)
    (by rw [result]; exact id) ownSent
  have withheld : ∀ other, server < other → (roundView fname world).ncheck other ≠ none →
      (roundView fname world).withheld server other := by
    intro other below live
    exact above other below fun absent => live (by simp [roundView, absent])
  refine RoundView.Move.start server others member fresh unrecorded withheld ?_ ?_ ?_ ?_ ?_
  · change (roundView fname (world.act server handler)).ncheck server =
      some ((roundView fname (world.act server handler)).pending server : Int)
    rw [asked, act_ncheck, Function.update_self, result]
    simp [CreateServer.sendAll, CreateServer.setCreating, ncheck]
  · intro other listed apart
    apply (act_withheld fname world server handler other server).mpr
    refine Or.inr ⟨{ src := .mserv server, dst := .mserv other, body := .checkAuth fname }, ?_, ?_⟩
    · rw [out]
      exact List.mem_map.mpr ⟨other, List.mem_filter.mpr ⟨listed, by simpa using apart⟩, rfl⟩
    · simp [withheldBy, inRound]
  · intro after
    rcases (act_sentMetadata fname world server handler server).mp after with old | ⟨packet, listed, holds⟩
    · exact old
    · rw [out] at listed
      obtain ⟨id, _, rfl⟩ := List.mem_map.mp listed
      cases holds
  · refine (act_created fname world server handler).trans ?_
    simp [result, CreateServer.sendAll, CreateServer.setCreating, idle.2.2.1]
  · refine (act_reported fname world server handler).trans ?_
    simp [result, CreateServer.sendAll, CreateServer.setCreating, idle.2.2.2]

/-- A server alone in its group creates the file at once. -/
theorem move_alone {group : CreateGroup} {creating : Creating}
    {handler : CreateServer Name → CreateServer Name} (idle : Idle server (world.mservs server))
    (member : server ∈ group.mservs) (fresh : (roundView fname world).ncheck server = none)
    (unrecorded : ¬ (roundView fname world).recorded server)
    (drained : (roundView fname world).pending server = 0)
    (nobody : (group.mservs.filter fun id => id != server) = [])
    (result : handler (world.mservs server) =
      icreate around (((world.mservs server).setCreating fname (some creating)).sendAll []
        (.checkAuth fname)) fname creating) :
    RoundView.Move group.mservs (roundView fname world)
      (roundView fname (world.act server handler)) := by
  have perm : world.net.Perm ([] ++ world.net) := List.Perm.refl _
  have made := icreate_spec around (((world.mservs server).setCreating fname
    (some creating)).sendAll [] (.checkAuth fname)) fname creating
  rw [← result] at made
  obtain ⟨sent, out, plain⟩ := made.out
  have logged : (handler (world.mservs server)).out = sent := by
    rw [out]
    simp [CreateServer.sendAll, CreateServer.setCreating, idle.2.1]
  have nothing : sent.countP (inRound server fname) = 0 :=
    List.countP_eq_zero.mpr fun packet listed => by simp [(plain packet listed).1 server]
  have ownSent : ∀ packet ∈ (handler (world.mservs server)).out, Own server fname packet := by
    intro packet listed
    have own := (plain packet (logged ▸ listed)).2
    rw [← idle.1]
    exact own
  have others := @others_receive Name _ fname world server handler [] world.net perm (by simp)
    (fun _ => made.recorded) ownSent
  refine RoundView.Move.alone server others member ?_ unrecorded ?_ ?_ ?_ ?_ fresh
  · intro other listed
    by_contra apart
    have asked : other ∈ group.mservs.filter fun id => id != server :=
      List.mem_filter.mpr ⟨listed, by simpa using apart⟩
    rw [nobody] at asked
    cases asked
  · apply (act_recorded fname world server handler server).mpr
    rw [if_pos rfl]
    exact made.recorded
  · refine (act_pending fname world server handler server).trans ?_
    rw [drained, logged, nothing]
  · refine (act_created fname world server handler).trans ?_
    rw [made.icreated]
    simp [CreateServer.sendAll, CreateServer.setCreating, idle.2.2.1]
  · refine (act_reported fname world server handler).trans ?_
    rw [made.succeeded]
    simp [CreateServer.sendAll, CreateServer.setCreating, idle.2.2.2]

/-- A request that passes the check starts a round, or is completed at once if
there is nobody to ask. -/
theorem move_create {group : CreateGroup} {readings : Readings} {clientId reqId : Nat}
    {size : FileSize} (idle : Idle server (world.mservs server)) (member : server ∈ group.mservs)
    (flags : readings.strayFlags ≠ sFileMmdFlagDeleted)
    (drained : icheckCanCreate (group.around server readings) (world.mservs server) server fname =
      true → ∀ packet ∈ world.net, inRound server fname packet = false)
    (above : icheckCanCreate (group.around server readings) (world.mservs server) server fname =
      true → ∀ other, server < other → (world.mservs other).fileCreating fname ≠ none →
        ∃ packet ∈ world.net, withheldBy server other fname packet = true) :
    RoundView.Move group.mservs (roundView fname world) (roundView fname (world.act server
      fun mserv => sCoreMservCreate (group.around server readings) mserv clientId reqId fname
        size)) := by
  have perm : world.net.Perm ([] ++ world.net) := List.Perm.refl _
  by_cases allowed : icheckCanCreate (group.around server readings) (world.mservs server) server
      fname = true
  · have passed := allowed
    rw [icheckCanCreate_iff flags, idle.1] at passed
    have fresh : (roundView fname world).ncheck server = none ∧
        ¬ (roundView fname world).recorded server := by
      rcases passed with fresh | ⟨_, impossible⟩
      · exact fresh
      · omega
    have pending : (roundView fname world).pending server = 0 :=
      List.countP_eq_zero.mpr fun packet listed => by simp [drained allowed packet listed]
    have askedPeers := asked_peers group server readings
    have count := congrArg List.length askedPeers
    rw [List.length_map, List.length_map] at count
    by_cases nobody : (group.mservs.filter fun id => id != server) = []
    · apply move_alone idle member fresh.1 fresh.2 pending nobody
      rw [nobody] at askedPeers count
      simp only [sCoreMservCreate, idle.1, allowed, count, askedPeers]
      rfl
    · have asks : ((group.mservs.filter fun id => id != server).length : Int) ≠ 0 := by
        simpa using nobody
      have result : sCoreMservCreate (group.around server readings) (world.mservs server) clientId
          reqId fname size = ((world.mservs server).setCreating fname (some
            { size := size, clientId := clientId, reqId := reqId
              ncheck := (group.mservs.filter fun id => id != server).length })).sendAll
          ((group.mservs.filter fun id => id != server).map .mserv) (.checkAuth fname) := by
        simp only [sCoreMservCreate, idle.1, allowed, count, askedPeers, asks]
        rfl
      exact move_start idle member fresh.1 fresh.2 pending (above allowed) (by rfl) result
  · have result : sCoreMservCreate (group.around server readings) (world.mservs server) clientId
        reqId fname size =
          icreateFailToClient (group.around server readings) (world.mservs server) reqId clientId := by
      simp [sCoreMservCreate, idle.1, allowed]
    obtain ⟨creating, recorded, icreated, succeeded, sent, out, nameless⟩ :=
      icreateFailToClient_spec (group.around server readings) (world.mservs server) reqId
        clientId
    rw [idle.2.1, List.nil_append] at out
    have foreign : ∀ packet ∈ sent, packet.body.name ≠ some fname := by
      intro packet member
      simp [nameless packet member]
    apply quiet_receive perm
    · rw [result, creating]
    · rw [result, recorded]
      exact id
    · simp
    · intro packet member holder
      rw [result, out] at member
      exact Bool.eq_false_iff.mpr fun holds => foreign packet member (inRound_name holds)
    · intro packet member holder holds
      rw [result, out] at member
      exact absurd (carriesMetadata_name holds) (foreign packet member)
    · simp [result, icreated, idle.2.2.1]
    · simp [result, succeeded, idle.2.2.2]

end Moves

end SimpleDfs.Mserv
