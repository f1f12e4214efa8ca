import SimpleDfs.Library.Ranking
import SimpleDfs.Mserv.Create

/-!
Contract: the servers a new file is given to (`core/s_core_create_mserv.c`).

Owns: what the two loops that compare memory leave behind, and for which lists
of servers `icreate_fmmd` and `icreate_fmd` take those of least memory.

Does not own: how a server reports its memory; the numbers of blocks.

Both loops take a memory of zero for one not set yet.
-/

set_option autoImplicit false

namespace SimpleDfs.Mserv

open SimpleDfs.Library

/-! ## Meta servers -/

/-- One turn of the first loop of `icreate_fmmd`. -/
def mservTurn : Nat × Nat × Int → ActiveServ → Nat × Nat × Int :=
  fun (nmserv, minMem, mservId) serv =>
    if minMem = 0 ∨ serv.mem < minMem then (nmserv + 1, serv.mem, (serv.id : Int))
    else (nmserv, minMem, mservId)

theorem selectMserv_nil :
    selectMserv [] = (1, 0, -1) := rfl

theorem selectMserv_cons (first : ActiveServ) (rest : List ActiveServ) :
    selectMserv (first :: rest) = rest.foldl mservTurn (2, first.mem, (first.id : Int)) := rfl

/-- No server that is still to come changes what has been found. -/
def NoneLess (minMem : Nat) (rest : List ActiveServ) : Prop :=
  rest = [] ∨ 0 < minMem ∧ ∀ other ∈ rest, minMem ≤ other.mem

theorem foldl_mservTurn_of_noneLess (nmserv minMem : Nat) (mservId : Int)
    (rest : List ActiveServ) (noneLess : NoneLess minMem rest) :
    rest.foldl mservTurn (nmserv, minMem, mservId) = (nmserv, minMem, mservId) := by
  induction rest with
  | nil => rfl
  | cons serv rest later =>
      obtain none | ⟨set, least⟩ := noneLess
      · cases none
      · have above := least serv (by simp)
        have kept : mservTurn (nmserv, minMem, mservId) serv = (nmserv, minMem, mservId) :=
          if_neg (by omega)
        rw [List.foldl_cons, kept]
        exact later (.inr ⟨set, fun other member => least other (by simp [member])⟩)

/-- The number of servers only grows. -/
theorem le_foldl_mservTurn (nmserv minMem : Nat) (mservId : Int) (rest : List ActiveServ) :
    nmserv ≤ (rest.foldl mservTurn (nmserv, minMem, mservId)).1 := by
  induction rest generalizing nmserv minMem mservId with
  | nil => simp
  | cons serv rest later =>
      rw [List.foldl_cons, mservTurn]
      split
      · exact (Nat.le_succ nmserv).trans (later _ _ _)
      · exact later _ _ _

theorem lt_foldl_mservTurn (nmserv minMem : Nat) (mservId : Int) (rest : List ActiveServ)
    (less : ¬ NoneLess minMem rest) :
    nmserv < (rest.foldl mservTurn (nmserv, minMem, mservId)).1 := by
  induction rest with
  | nil => exact absurd (.inl rfl) less
  | cons serv rest later =>
      rw [List.foldl_cons, mservTurn]
      split
      next improved => exact le_foldl_mservTurn _ _ _ rest
      next kept =>
        refine later fun noneLess => less (.inr ⟨by omega, fun other member => ?_⟩)
        rcases List.mem_cons.mp member with same | there
        · rw [same]
          omega
        · rcases noneLess with none | ⟨_, least⟩
          · simp [none] at there
          · exact least other there

/-- The record has this server alone if there is no other, and otherwise this
server and another one of least memory. -/
structure ListsChosen {Name : Type} (around : Surroundings) (id : Nat)
    (mmd : FileMetaMetaData Name) : Prop where
  alone : around.mservs = [] → mmd.mservs = [id]
  chosen : around.mservs ≠ [] → ∃ chosen ∈ around.mservs, mmd.mservs = [id, chosen.id] ∧
    ∀ other ∈ around.mservs, chosen.mem ≤ other.mem

/-- The first server scanned settles the scan, and 16 bits hold the ids. -/
structure FirstSettles (around : Surroundings) (id : Nat) : Prop where
  self : id < 2 ^ 16
  first : ∀ first rest, around.mservs = first :: rest →
    NoneLess first.mem rest ∧
      ∃ chosen ∈ around.mservs, first.id % 2 ^ 16 = chosen.id ∧ chosen.mem = first.mem

section

variable {Name : Type}

theorem mservs_of_none (around : Surroundings) (server : CreateServer Name) (fname : Name)
    (fdesc : FileDesc) (none : around.mservs = []) :
    (newFileMetaMetaData around server fname fdesc).mservs = [server.id % 2 ^ 16] := by
  simp [newFileMetaMetaData, none, selectMserv_nil]

theorem mservs_of_noneLess (around : Surroundings) (server : CreateServer Name) (fname : Name)
    (fdesc : FileDesc) {first : ActiveServ} {rest : List ActiveServ}
    (scanned : around.mservs = first :: rest) (noneLess : NoneLess first.mem rest) :
    (newFileMetaMetaData around server fname fdesc).mservs =
      [server.id % 2 ^ 16, first.id % 2 ^ 16] := by
  have found : selectMserv around.mservs = (2, first.mem, (first.id : Int)) := by
    rw [scanned, selectMserv_cons]
    exact foldl_mservTurn_of_noneLess 2 first.mem first.id rest noneLess
  have id : ((first.id : Int) % 65536).toNat = first.id % 65536 := by omega
  simp [newFileMetaMetaData, found, id]

/-- Each improvement after the first adds an entry that nothing sets. -/
theorem length_mservs_of_less (around : Surroundings) (server : CreateServer Name)
    (fname : Name) (fdesc : FileDesc) {first : ActiveServ} {rest : List ActiveServ}
    (scanned : around.mservs = first :: rest) (less : ¬ NoneLess first.mem rest) :
    2 < (newFileMetaMetaData around server fname fdesc).mservs.length := by
  have more := lt_foldl_mservTurn 2 first.mem first.id rest less
  rw [← selectMserv_cons, ← scanned] at more
  have two : 1 < (selectMserv around.mservs).1 := by omega
  simp only [newFileMetaMetaData, if_pos two, List.length_append, List.length_cons,
    List.length_nil, List.length_map, List.length_range]
  omega

theorem listsChosen_newFileMetaMetaData (around : Surroundings) (server : CreateServer Name)
    (fname : Name) (fdesc : FileDesc) :
    ListsChosen around server.id (newFileMetaMetaData around server fname fdesc) ↔
      FirstSettles around server.id := by
  rcases scanned : around.mservs with _ | ⟨first, rest⟩
  · have lists := mservs_of_none around server fname fdesc scanned
    have fits : server.id % 2 ^ 16 = server.id ↔ server.id < 2 ^ 16 := by omega
    constructor
    · intro right
      have same := right.alone scanned
      rw [lists, List.cons_eq_cons] at same
      exact ⟨fits.mp same.1, fun first rest other => by simp [scanned] at other⟩
    · intro right
      refine ⟨fun _ => ?_, fun some => absurd scanned some⟩
      rw [lists, fits.mpr right.self]
  · have some : around.mservs ≠ [] := by simp [scanned]
    by_cases noneLess : NoneLess first.mem rest
    · have lists := mservs_of_noneLess around server fname fdesc scanned noneLess
      have least : ∀ other ∈ around.mservs, first.mem ≤ other.mem := by
        intro other member
        rcases List.mem_cons.mp (scanned ▸ member) with same | there
        · rw [same]
        · rcases noneLess with none | ⟨_, above⟩
          · simp [none] at there
          · exact above other there
      constructor
      · intro right
        obtain ⟨chosen, member, same, minimal⟩ := right.chosen some
        rw [lists, List.cons_eq_cons, List.cons_eq_cons] at same
        refine ⟨by omega, fun first' rest' split => ?_⟩
        obtain ⟨rfl, rfl⟩ := List.cons_eq_cons.mp (scanned.symm.trans split)
        have there : first ∈ around.mservs := by simp [scanned]
        exact ⟨noneLess, chosen, member, same.2.1, le_antisymm (minimal first there)
          (least chosen member)⟩
      · intro right
        obtain ⟨_, chosen, member, id, mem⟩ := right.first first rest scanned
        refine ⟨fun none => absurd none some, fun _ => ⟨chosen, member, ?_, ?_⟩⟩
        · rw [lists, id, Nat.mod_eq_of_lt right.self]
        · exact fun other there => mem ▸ least other there
    · constructor
      · intro right
        obtain ⟨chosen, _, same, _⟩ := right.chosen some
        have more := length_mservs_of_less around server fname fdesc scanned noneLess
        simp [same] at more
      · intro right
        exact absurd (right.first first rest scanned).1 noneLess

/-- **The record lists the chosen servers exactly when the first one scanned
settles the scan.** -/
theorem listsChosen_iff [DecidableEq Name] (around : Surroundings) (server saved : CreateServer Name) (fname : Name)
    (mmd : FileMetaMetaData Name) (built : icreateFmmd around server fname = some (saved, mmd)) :
    ListsChosen around server.id mmd ↔ FirstSettles around server.id := by
  obtain ⟨⟨fdesc, fileId⟩, _, same⟩ := Option.map_eq_some_iff.mp built
  rw [← (Prod.mk.inj same).2]
  exact listsChosen_newFileMetaMetaData around server fname fdesc

end

/-- The servers that are given are connected, and every file has one block. -/
def connected (mservs dservs : List ActiveServ) : Surroundings where
  mservs := mservs
  dservs := dservs
  mservActive := fun id => mservs.any fun serv => serv.id == id
  dservActive := fun id => dservs.any fun serv => serv.id == id
  clientActive := fun _ => true
  strayFlags := 0
  freshFlags := 0
  freshMservs := fun _ => 0
  blockNum := fun _ => 1

theorem listsChosen_iff_two : ∃ saved mmd,
    icreateFmmd (connected [⟨2, 3⟩, ⟨3, 5⟩] []) (.init 1) () = some (saved, mmd) ∧
      (ListsChosen (connected [⟨2, 3⟩, ⟨3, 5⟩] []) 1 mmd ↔
        FirstSettles (connected [⟨2, 3⟩, ⟨3, 5⟩] []) 1) :=
  ⟨_, _, rfl, listsChosen_iff _ (.init 1) _ () _ rfl⟩

/-- The second server scanned has less memory than the first: the record has
three entries. -/
theorem not_always_listsChosen :
    ¬ ∀ (around : Surroundings) (server saved : CreateServer Unit) (fname : Unit)
        (mmd : FileMetaMetaData Unit), icreateFmmd around server fname = some (saved, mmd) →
        ListsChosen around server.id mmd := by
  intro always
  have lists := always (connected [⟨2, 5⟩, ⟨3, 3⟩] []) (.init 1) _ () _ rfl
  obtain ⟨chosen, _, same, _⟩ := lists.chosen (by simp [connected])
  have two : 3 = 2 := congrArg List.length same
  contradiction

/-! ## Data servers -/

/-- One turn of the first loop of `icreate_fmd`. -/
def dservTurn (found : SelectedDserv) (serv : ActiveServ) : SelectedDserv :=
  if found.first.mem = 0 then { found with ndserv := found.ndserv + 1, first := serv }
  else if found.second.mem = 0 ∨ serv.mem < found.second.mem then
    if serv.mem < found.first.mem then
      { ndserv := found.ndserv + 1, first := serv, second := found.first }
    else { found with ndserv := found.ndserv + 1, second := serv }
  else found

theorem selectDserv_concat (dservs : List ActiveServ) (serv : ActiveServ) :
    selectDserv (dservs ++ [serv]) = dservTurn (selectDserv dservs) serv := by
  show (dservs ++ [serv]).foldl dservTurn _ = _
  rw [List.foldl_append]
  rfl

/-- The entries of `dserv` that `icreate_fmd` goes on with. -/
def selectedDserv (dservs : List ActiveServ) : List ActiveServ :=
  let found := selectDserv dservs
  [found.first, found.second].take (min found.ndserv 2)

/-- What the loop has found are the first two of a ranking. -/
def FoundFirst (found : SelectedDserv) : List ActiveServ → Prop
  | [] => found = ⟨0, ⟨0, 0⟩, ⟨0, 0⟩⟩
  | [only] => found = ⟨1, only, ⟨0, 0⟩⟩
  | first :: second :: _ => found.first = first ∧ found.second = second ∧ 2 ≤ found.ndserv

/-- As long as no memory is zero, a turn ranks its server. -/
theorem FoundFirst.dservTurn {found : SelectedDserv} {sorted : List ActiveServ}
    (held : FoundFirst found sorted) (ranked : Ranked ActiveServ.mem sorted)
    (set : ∀ serv ∈ sorted, 0 < serv.mem) (serv : ActiveServ) :
    FoundFirst (dservTurn found serv) (rankIn ActiveServ.mem sorted serv) := by
  match sorted with
  | [] =>
      rw [show found = _ from held]
      rfl
  | [only] =>
      have first := set only (by simp)
      rw [show found = _ from held, rankIn_cons, Mserv.dservTurn, if_neg (by simp; omega),
        if_pos (.inl rfl)]
      split
      · exact ⟨rfl, rfl, le_rfl⟩
      · exact ⟨rfl, rfl, le_rfl⟩
  | first :: second :: rest =>
      obtain ⟨rfl, rfl, two⟩ := held
      have firstSet := set found.first (by simp)
      have secondSet := set found.second (by simp)
      have order : found.first.mem ≤ found.second.mem :=
        (List.pairwise_cons.mp ranked).1 found.second (by simp)
      rw [rankIn_cons, rankIn_cons, Mserv.dservTurn, if_neg (by omega)]
      by_cases least : serv.mem < found.first.mem
      · have less : found.second.mem = 0 ∨ serv.mem < found.second.mem := .inr (by omega)
        simp only [if_pos least, if_pos less]
        exact ⟨rfl, rfl, Nat.le_succ_of_le two⟩
      · by_cases less : serv.mem < found.second.mem
        · simp only [if_neg least, if_pos less, if_pos (Or.inr less)]
          exact ⟨rfl, rfl, Nat.le_succ_of_le two⟩
        · have full : ¬ (found.second.mem = 0 ∨ serv.mem < found.second.mem) := by omega
          simp only [if_neg least, if_neg less, if_neg full]
          exact ⟨rfl, rfl, two⟩

/-- **The two found first rank first, if only the last server scanned reports
nothing.** -/
theorem foundFirst_selectDserv (dservs : List ActiveServ)
    (set : ∀ serv ∈ dservs.dropLast, 0 < serv.mem) :
    FoundFirst (selectDserv dservs) (rank ActiveServ.mem dservs) := by
  induction dservs using List.reverseRecOn with
  | nil => rfl
  | append_singleton dservs serv held =>
      rw [List.dropLast_concat] at set
      rw [selectDserv_concat, rank_concat]
      exact (held fun other member => set other ((List.dropLast_sublist dservs).mem member)).dservTurn
        (ranked_rank _ dservs)
        (fun other member => set other ((rank_perm _ dservs).mem_iff.mp member)) serv

theorem FoundFirst.selected {dservs : List ActiveServ} {sorted : List ActiveServ}
    (held : FoundFirst (selectDserv dservs) sorted) :
    selectedDserv dservs = sorted.take 2 := by
  match sorted with
  | [] => simp [selectedDserv, show selectDserv dservs = _ from held]
  | [only] => simp [selectedDserv, show selectDserv dservs = _ from held]
  | first :: second :: rest =>
      obtain ⟨rfl, rfl, two⟩ := held
      simp [selectedDserv, Nat.min_eq_right two]

/-! ### A server that reports nothing -/

theorem first_dservTurn (found : SelectedDserv) (serv : ActiveServ) :
    (dservTurn found serv).first = found.first ∨ (dservTurn found serv).first = serv := by
  unfold dservTurn
  split_ifs <;> simp

/-- A server in the first place that reports nothing is replaced. -/
theorem first_dservTurn_of_first_zero {found : SelectedDserv} (serv : ActiveServ)
    (zero : found.first.mem = 0) : (dservTurn found serv).first = serv := by
  simp [dservTurn, zero]

/-- The places hold servers of the list, and the second one reports something,
or they hold nothing. -/
structure FromList (found : SelectedDserv) (dservs : List ActiveServ) : Prop where
  first : found.first = ⟨0, 0⟩ ∨ found.first ∈ dservs
  second : found.second = ⟨0, 0⟩ ∨ found.second ∈ dservs ∧ 0 < found.second.mem

theorem fromList_selectDserv (dservs : List ActiveServ) :
    FromList (selectDserv dservs) dservs := by
  induction dservs using List.reverseRecOn with
  | nil => exact ⟨.inl rfl, .inl rfl⟩
  | append_singleton dservs serv held =>
      have first : (selectDserv dservs).first = ⟨0, 0⟩ ∨
          (selectDserv dservs).first ∈ dservs ++ [serv] :=
        held.first.imp_right fun member => by simp [member]
      have second : (selectDserv dservs).second = ⟨0, 0⟩ ∨
          (selectDserv dservs).second ∈ dservs ++ [serv] ∧ 0 < (selectDserv dservs).second.mem :=
        held.second.imp_right fun both => ⟨by simp [both.1], both.2⟩
      have last : serv ∈ dservs ++ [serv] := by simp
      rw [selectDserv_concat, dservTurn]
      split_ifs with empty less least
      · exact ⟨.inr last, second⟩
      · refine ⟨.inr last, .inr ⟨first.resolve_left fun none => empty (by rw [none]), ?_⟩⟩
        show 0 < (selectDserv dservs).first.mem
        omega
      · refine ⟨first, .inr ⟨last, ?_⟩⟩
        show 0 < serv.mem
        omega
      · exact ⟨first, second⟩

/-- A server that reports nothing is not in the first place when another one
has been scanned after it. -/
theorem first_ne_of_zero {dservs : List ActiveServ} (distinct : dservs.Nodup) {serv : ActiveServ}
    (earlier : serv ∈ dservs.dropLast) (zero : serv.mem = 0) :
    (selectDserv dservs).first ≠ serv := by
  induction dservs using List.reverseRecOn with
  | nil => simp at earlier
  | append_singleton dservs last _ =>
      rw [List.dropLast_concat] at earlier
      have other : last ≠ serv := by
        intro same
        simp [List.nodup_append] at distinct
        exact distinct.2 serv earlier same.symm
      rw [selectDserv_concat]
      by_cases held : (selectDserv dservs).first = serv
      · rw [first_dservTurn_of_first_zero last (by rw [held, zero])]
        exact other
      · rcases first_dservTurn (selectDserv dservs) last with same | same
        · rw [same]
          exact held
        · rw [same]
          exact other

/-! ### Both places -/

/-- The ids of the config are positive and distinct, and a server of the list
is found under its id. -/
structure DservTable (around : Surroundings) : Prop where
  positive : ∀ serv ∈ around.dservs, 0 < serv.id
  distinct : (around.dservs.map ActiveServ.id).Nodup
  active : ∀ serv ∈ around.dservs, around.dservActive serv.id = true

/-- The servers of a block; a location of zero is none. -/
def locations (block : Nat × Nat) : List Nat :=
  [block.1, block.2].filter fun location => location ≠ 0

section

variable {Name : Type}

/-- The data servers that packets are for. -/
def dservPeers (packets : List (CreatePacket Name)) : List Nat :=
  packets.filterMap fun packet =>
    match packet.dst with
    | .dserv id => some id
    | _ => none

/-- `icreate_fmd` selects two servers, or all if there are less, none of the
others reports less memory, the metadata goes to these data servers and places
each block on them. -/
structure PlacesOnLeast [DecidableEq Name] (around : Surroundings) (server : CreateServer Name)
    (mmd : FileMetaMetaData Name) (creating : Creating) : Prop where
  connected : ∀ serv ∈ selectedDserv around.dservs, serv ∈ around.dservs
  distinct : ((selectedDserv around.dservs).map ActiveServ.id).Nodup
  number : (selectedDserv around.dservs).length = min 2 around.dservs.length
  least : ∀ serv ∈ selectedDserv around.dservs, ∀ other ∈ around.dservs,
    other ∉ selectedDserv around.dservs → serv.mem ≤ other.mem
  sent : ∃ packets fmd,
    (icreateFmd around server mmd creating).1.out = server.out ++ packets ∧
      (icreateFmd around server mmd creating).1.fileMetadata mmd.fname = some fmd ∧
      (∀ packet ∈ packets, packet.body = .createMetadata fmd) ∧
      dservPeers packets = (selectedDserv around.dservs).map ActiveServ.id ∧
      ∀ block ∈ fmd.blocks, locations block = (selectedDserv around.dservs).map ActiveServ.id

/-- A list of positive ids is kept by 16 bits if each of them is. -/
theorem locations_truncated (ids : List Nat) (positive : ∀ id ∈ ids, 0 < id) :
    ((ids.map (· % 2 ^ 16)).filter fun location => decide (location ≠ 0)) = ids ↔
      ∀ id ∈ ids, id < 2 ^ 16 := by
  constructor
  · intro same id member
    rw [← same, List.mem_filter, List.mem_map] at member
    obtain ⟨⟨whole, _, rfl⟩, _⟩ := member
    exact Nat.mod_lt whole (by decide)
  · intro small
    have kept : ids.map (· % 2 ^ 16) = ids := by
      rw [List.map_congr_left fun id member => Nat.mod_eq_of_lt (small id member), List.map_id']
    rw [kept, List.filter_eq_self]
    intro id member
    have := positive id member
    simp
    omega

theorem FoundFirst.locations {found : SelectedDserv} {sorted : List ActiveServ}
    (held : FoundFirst found sorted) :
    locations (found.first.id % 2 ^ 16, found.second.id % 2 ^ 16) =
      (((sorted.take 2).map ActiveServ.id).map (· % 2 ^ 16)).filter
        fun location => decide (location ≠ 0) := by
  match sorted with
  | [] =>
      rw [show found = _ from held]
      rfl
  | [only] =>
      rw [show found = _ from held]
      simp [Mserv.locations, List.filter_cons]
  | first :: second :: rest =>
      obtain ⟨rfl, rfl, _⟩ := held
      rfl

theorem dservPeers_sent (src : CreatePeer) (body : CreateBody Name) (mservs dservs : List Nat) :
    dservPeers ((mservs.map CreatePeer.mserv ++ dservs.map CreatePeer.dserv).map
      fun dst => ({ src := src, dst := dst, body := body } : CreatePacket Name)) = dservs := by
  simp [dservPeers, List.filterMap_map, Function.comp_def]

variable [DecidableEq Name] {around : Surroundings} {server : CreateServer Name}
  {mmd : FileMetaMetaData Name} {creating : Creating}

theorem saved_icreateFmd :
    (icreateFmd around server mmd creating).1.fileMetadata mmd.fname =
      some (newFileMetaData around mmd creating) := by
  simp [icreateFmd, CreateServer.sendAll]

/-- One of the two servers that report least is passed over if a server before
the last one reports nothing. -/
theorem PlacesOnLeast.set (table : DservTable around)
    (places : PlacesOnLeast around server mmd creating) :
    ∀ serv ∈ around.dservs.dropLast, 0 < serv.mem := by
  intro serv earlier
  by_contra none
  have zero : serv.mem = 0 := by omega
  have member := (List.dropLast_sublist around.dservs).mem earlier
  have two : 2 ≤ around.dservs.length := by
    have some := List.length_pos_of_mem earlier
    rw [List.length_dropLast] at some
    omega
  -- both places are taken
  have number := places.number
  have both : selectedDserv around.dservs =
      [(selectDserv around.dservs).first, (selectDserv around.dservs).second] := by
    have length : ([(selectDserv around.dservs).first,
        (selectDserv around.dservs).second].take
          (min (selectDserv around.dservs).ndserv 2)).length = 2 :=
      number.trans (Nat.min_eq_left two)
    rw [List.length_take] at length
    exact List.take_of_length_le (by simp at length ⊢; omega)
  have second : (selectDserv around.dservs).second ∈ selectedDserv around.dservs := by
    rw [both]
    simp
  have there := places.connected _ second
  have reports : 0 < (selectDserv around.dservs).second.mem := by
    rcases (fromList_selectDserv around.dservs).second with empty | ⟨_, some⟩
    · have positive := table.positive _ there
      simp [empty] at positive
    · exact some
  have outside : serv ∉ selectedDserv around.dservs := by
    rw [both]
    intro inside
    have first := first_ne_of_zero (List.Nodup.of_map _ table.distinct) earlier zero
    rcases List.mem_cons.mp inside with same | inside
    · exact first same.symm
    · rw [← List.mem_singleton.mp inside] at reports
      omega
  have least := places.least _ second serv member outside
  omega

/-- The servers that report least have positive ids. -/
theorem DservTable.least_positive (table : DservTable around) :
    ∀ id ∈ ((rank ActiveServ.mem around.dservs).take 2).map ActiveServ.id, 0 < id := by
  intro id member
  obtain ⟨serv, chosen, rfl⟩ := List.mem_map.mp member
  have ranked := List.mem_of_mem_take chosen
  exact table.positive serv ((rank_perm ActiveServ.mem around.dservs).mem_iff.mp ranked)

theorem DservTable.least_distinct (table : DservTable around) :
    (((rank ActiveServ.mem around.dservs).take 2).map ActiveServ.id).Nodup := by
  have perm := (rank_perm ActiveServ.mem around.dservs).map ActiveServ.id
  exact (perm.nodup_iff.mpr table.distinct).sublist ((List.take_sublist 2 _).map ActiveServ.id)

omit [DecidableEq Name] in
/-- The metadata goes to the selected data servers. -/
theorem DservTable.dservPeers_metadataPeers (table : DservTable around)
    (connected : ∀ serv ∈ selectedDserv around.dservs, serv ∈ around.dservs)
    (src : CreatePeer) (body : CreateBody Name) :
    dservPeers ((metadataPeers around server mmd).map
        fun dst => ({ src := src, dst := dst, body := body } : CreatePacket Name)) =
      (selectedDserv around.dservs).map ActiveServ.id := by
  have ids : [(selectDserv around.dservs).first.id, (selectDserv around.dservs).second.id].take
      (min (selectDserv around.dservs).ndserv 2) =
        (selectedDserv around.dservs).map ActiveServ.id := by
    simp [selectedDserv, List.map_take]
  rw [metadataPeers, dservPeers_sent, ids, List.filter_eq_self]
  intro id member
  obtain ⟨serv, chosen, rfl⟩ := List.mem_map.mp member
  exact table.active serv (connected serv chosen)

omit [DecidableEq Name] in
/-- The blocks name the selected servers if 16 bits hold the ids; a file without
blocks names none. -/
theorem DservTable.locations_newFileMetaData (table : DservTable around)
    (held : FoundFirst (selectDserv around.dservs) (rank ActiveServ.mem around.dservs)) :
    (∀ block ∈ (newFileMetaData around mmd creating).blocks,
        locations block = (selectedDserv around.dservs).map ActiveServ.id) ↔
      around.blockNum creating.size = 0 ∨
        ∀ serv ∈ (rank ActiveServ.mem around.dservs).take 2, serv.id < 2 ^ 16 := by
  have named := locations_truncated _ table.least_positive
  rw [← held.locations, ← held.selected] at named
  constructor
  · intro placed
    refine or_iff_not_imp_left.mpr fun some serv member => ?_
    have there := placed _ (List.mem_replicate.mpr ⟨some, rfl⟩)
    rw [← held.selected] at member
    exact named.mp there serv.id (List.mem_map_of_mem member)
  · intro small block member
    obtain ⟨some, rfl⟩ := List.mem_replicate.mp member
    refine named.mpr fun id there => ?_
    rw [held.selected] at there
    obtain ⟨serv, chosen, rfl⟩ := List.mem_map.mp there
    exact small.resolve_left some serv chosen

/-- **The file is placed on the two least loaded data servers exactly when no
server but the last one scanned reports a memory of zero, and 16 bits hold the
ids.** -/
theorem placesOnLeast_iff (table : DservTable around) :
    PlacesOnLeast around server mmd creating ↔
      (∀ serv ∈ around.dservs.dropLast, 0 < serv.mem) ∧
        (around.blockNum creating.size = 0 ∨
          ∀ serv ∈ (rank ActiveServ.mem around.dservs).take 2, serv.id < 2 ^ 16) := by
  constructor
  · intro places
    have set := places.set table
    have held := foundFirst_selectDserv around.dservs set
    obtain ⟨_, fmd, _, saved, _, _, placed⟩ := places.sent
    obtain rfl := Option.some.inj (saved_icreateFmd.symm.trans saved)
    exact ⟨set, (table.locations_newFileMetaData held).mp placed⟩
  · intro ⟨set, small⟩
    have perm := rank_perm ActiveServ.mem around.dservs
    have held := foundFirst_selectDserv around.dservs set
    have selected := held.selected
    have connected : ∀ serv ∈ selectedDserv around.dservs, serv ∈ around.dservs := by
      intro serv member
      rw [selected] at member
      exact perm.mem_iff.mp (List.mem_of_mem_take member)
    refine ⟨connected, ?_, ?_, ?_, ?_⟩
    · rw [selected]
      exact table.least_distinct
    · rw [selected, List.length_take, perm.length_eq]
    · intro serv member other there outside
      rw [selected] at member outside
      exact key_take_rank_le ActiveServ.mem around.dservs 2 member there outside
    · refine ⟨_, _, rfl, saved_icreateFmd, ?_, table.dservPeers_metadataPeers connected _ _,
        (table.locations_newFileMetaData held).mpr small⟩
      intro packet member
      obtain ⟨_, _, rfl⟩ := List.mem_map.mp member
      rfl

end

theorem dservTable_connected (mservs dservs : List ActiveServ)
    (positive : ∀ serv ∈ dservs, 0 < serv.id) (distinct : (dservs.map ActiveServ.id).Nodup) :
    DservTable (connected mservs dservs) where
  positive := positive
  distinct := distinct
  active := fun serv member => List.any_eq_true.mpr ⟨serv, member, by simp⟩

theorem placesOnLeast_iff_two :
    PlacesOnLeast (connected [] [⟨1, 3⟩, ⟨2, 5⟩]) (.init 1) ⟨(), ⟨1, 1⟩, 0, [1]⟩ ⟨⟨7, 0⟩, 4, 9, 0⟩ ↔
      (∀ serv ∈ [⟨1, 3⟩], 0 < ActiveServ.mem serv) ∧
        (1 = 0 ∨ ∀ serv ∈ [⟨1, 3⟩, ⟨2, 5⟩], ActiveServ.id serv < 2 ^ 16) :=
  placesOnLeast_iff (dservTable_connected [] _ (by decide) (by decide))

/-- The first server scanned reports a memory of zero: it is passed over for the
second, and the second place stays empty. -/
theorem not_always_placesOnLeast :
    ¬ ∀ (around : Surroundings) (server : CreateServer Unit) (mmd : FileMetaMetaData Unit)
        (creating : Creating), DservTable around →
        PlacesOnLeast around server mmd creating := by
  intro always
  have places := always (connected [] [⟨1, 0⟩, ⟨2, 5⟩]) (.init 1) ⟨(), ⟨1, 1⟩, 0, [1]⟩
    ⟨⟨7, 0⟩, 4, 9, 0⟩ (dservTable_connected [] _ (by decide) (by decide))
  have second : (⟨0, 0⟩ : ActiveServ) ∈ [⟨1, 0⟩, ⟨2, 5⟩] := places.connected ⟨0, 0⟩ (by decide)
  revert second
  decide

end SimpleDfs.Mserv
