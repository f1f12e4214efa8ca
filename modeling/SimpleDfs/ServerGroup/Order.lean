import SimpleDfs.ServerGroup.Events

/-!
Contract: what holds of the servers of a group, their wait lists and their
connections between two steps.

Owns: the order of a group, with one entry left out while an operation works on
it; what the primitive operations do to that order; and when the entry can be
taken back in.

Does not own: which steps keep the order.
-/

set_option autoImplicit false

namespace SimpleDfs.ServerGroup

open SimpleDfs.Common
open SimpleDfs.Library

namespace ServGroup

/-- The address is one of an element of an array. -/
structure IsEntry (servs : Int → SArray) (serv : ServAddr) : Prop where
  type : validType serv.type = true
  block : serv.block = (servs serv.type).block
  index : serv.index < (servs serv.type).nelem

instance (servs : Int → SArray) (serv : ServAddr) : Decidable (IsEntry servs serv) :=
  decidable_of_iff (validType serv.type = true ∧ serv.block = (servs serv.type).block ∧
      serv.index < (servs serv.type).nelem)
    ⟨fun facts => ⟨facts.1, facts.2.1, facts.2.2⟩, fun entry =>
      ⟨entry.type, entry.block, entry.index⟩⟩

/-- The entry has neither flags nor a connection. -/
def Unused (servg : ServGroup) (serv : ServAddr) : Prop :=
  (servg.entries serv).flags = {} ∧ (servg.entries serv).conn = none

instance (servg : ServGroup) (serv : ServAddr) : Decidable (servg.Unused serv) :=
  inferInstanceAs (Decidable (_ ∧ _))

/-- The servers, their wait lists and their connections agree, except for what
is said of the server left out. -/
structure Ordered (servg : ServGroup) (lists : WaitList → List ServAddr)
    (hole : Option ServAddr) : Prop where
  family : servg.links.IsFamily lists
  listed : ∀ list serv, serv ∈ lists list → IsEntry servg.servs serv
  waiting : ∀ serv ∈ lists .waitForConn, hole ≠ some serv →
    (servg.entries serv).conn = none ∧ (servg.entries serv).flags = { inConfig := true }
  linked : ∀ list serv, serv ∈ lists list → hole ≠ some serv → list ≠ .waitForConn →
    (servg.entries serv).conn ≠ none
  found : ∀ serv, IsEntry servg.servs serv → hole ≠ some serv → (servg.entries serv).conn ≠ none →
    ∃ list, serv ∈ lists list
  alone : ∀ serv, IsEntry servg.servs serv → hole ≠ some serv →
    (servg.entries serv).flags.inConfig = true → (∀ list, serv ∉ lists list) →
    servg.links.Alone serv
  bound : ∀ conn serv, (servg.conns conn).opened = true → (servg.conns conn).udata = some serv →
    hole ≠ some serv → IsEntry servg.servs serv ∧ (servg.entries serv).conn = some conn
  held : ∀ serv conn, IsEntry servg.servs serv → hole ≠ some serv →
    (servg.entries serv).conn = some conn →
    (servg.conns conn).opened = true ∧ (servg.conns conn).udata = some serv
  established : ∀ serv, IsEntry servg.servs serv → hole ≠ some serv →
    (servg.entries serv).flags.established = true → servg.myself ≠ some serv →
    (servg.entries serv).conn ≠ none ∧ (servg.entries serv).rpcHash ≠ none

/-- The group's own entry. -/
structure Own (servg : ServGroup) (serv : ServAddr) : Prop where
  myself : servg.myself = some serv
  entry : IsEntry servg.servs serv
  flags : (servg.entries serv).flags = { established := true }
  conn : (servg.entries serv).conn = none
  rpcHash : (servg.entries serv).rpcHash ≠ none

section

variable {servg : ServGroup} {lists : WaitList → List ServAddr} {hole : Option ServAddr}
  {serv : ServAddr}

/-! ## What the order says -/

theorem Unused.not_linked (unused : servg.Unused serv) (ordered : servg.Ordered lists hole)
    (inside : hole ≠ some serv) (list : WaitList) : serv ∉ lists list := by
  intro member
  by_cases waits : list = .waitForConn
  · subst waits
    have flags := (ordered.waiting serv member inside).2
    rw [unused.1] at flags
    simp at flags
  · exact ordered.linked list serv member inside waits unused.2

theorem Unused.not_bound (unused : servg.Unused serv) (ordered : servg.Ordered lists hole)
    (inside : hole ≠ some serv) {conn : Nat} (opened : (servg.conns conn).opened = true) :
    (servg.conns conn).udata ≠ some serv := by
  intro udata
  have atConn := (ordered.bound conn serv opened udata inside).2
  rw [unused.2] at atConn
  cases atConn

/-- The links of a server with a connection, or in the configuration, are in a
list or on their own. -/
theorem Ordered.place (ordered : servg.Ordered lists hole) (entry : IsEntry servg.servs serv)
    (inside : hole ≠ some serv)
    (used : (servg.entries serv).conn ≠ none ∨ (servg.entries serv).flags.inConfig = true) :
    (∃ list, serv ∈ lists list) ∨ servg.links.Alone serv := by
  by_cases listed : ∃ list, serv ∈ lists list
  · exact Or.inl listed
  · have unlisted := not_exists.mp listed
    rcases used with connected | inConfig
    · exact absurd (ordered.found serv entry inside connected) listed
    · exact Or.inr (ordered.alone serv entry inside inConfig unlisted)

/-- Leave a server out. -/
theorem Ordered.except (ordered : servg.Ordered lists none) (serv : ServAddr) :
    servg.Ordered lists (some serv) where
  family := ordered.family
  listed := ordered.listed
  waiting := fun other member _ => ordered.waiting other member (by simp)
  linked := fun list other member _ => ordered.linked list other member (by simp)
  found := fun other entry _ => ordered.found other entry (by simp)
  alone := fun other entry _ => ordered.alone other entry (by simp)
  bound := fun conn other opened udata _ => ordered.bound conn other opened udata (by simp)
  held := fun other conn entry _ => ordered.held other conn entry (by simp)
  established := fun other entry _ => ordered.established other entry (by simp)

/-! ## Taking a server back in -/

/-- Take back a server without a connection. -/
theorem Ordered.fill_released (ordered : servg.Ordered lists (some serv))
    (released : (servg.entries serv).conn = none)
    (unbound : ∀ conn, (servg.conns conn).opened = true → (servg.conns conn).udata ≠ some serv)
    (waits : ∀ list, serv ∈ lists list →
      list = .waitForConn ∧ (servg.entries serv).flags = { inConfig := true })
    (alone : (servg.entries serv).flags.inConfig = true → (∀ list, serv ∉ lists list) →
      servg.links.Alone serv)
    (quiet : (servg.entries serv).flags.established = true → servg.myself = some serv) :
    servg.Ordered lists none where
  family := ordered.family
  listed := ordered.listed
  waiting := by
    intro other member _
    by_cases same : other = serv
    · subst same
      exact ⟨released, (waits _ member).2⟩
    · exact ordered.waiting other member (by simpa using Ne.symm same)
  linked := by
    intro list other member _ notWaiting
    by_cases same : other = serv
    · subst same
      exact absurd (waits _ member).1 notWaiting
    · exact ordered.linked list other member (by simpa using Ne.symm same) notWaiting
  found := by
    intro other entry _ connected
    by_cases same : other = serv
    · subst same
      exact absurd released connected
    · exact ordered.found other entry (by simpa using Ne.symm same) connected
  alone := by
    intro other entry _ inConfig unlisted
    by_cases same : other = serv
    · subst same
      exact alone inConfig unlisted
    · exact ordered.alone other entry (by simpa using Ne.symm same) inConfig unlisted
  bound := by
    intro conn other opened udata _
    by_cases same : other = serv
    · subst same
      exact absurd udata (unbound conn opened)
    · exact ordered.bound conn other opened udata (by simpa using Ne.symm same)
  held := by
    intro other conn entry _ atConn
    by_cases same : other = serv
    · subst same
      rw [released] at atConn
      cases atConn
    · exact ordered.held other conn entry (by simpa using Ne.symm same) atConn
  established := by
    intro other entry _ established notMyself
    by_cases same : other = serv
    · subst same
      exact absurd (quiet established) notMyself
    · exact ordered.established other entry (by simpa using Ne.symm same) established notMyself

/-- Take back a server with a connection. -/
theorem Ordered.fill_connected (ordered : servg.Ordered lists (some serv)) {conn : Nat}
    (entry : IsEntry servg.servs serv) (atConn : (servg.entries serv).conn = some conn)
    (opened : (servg.conns conn).opened = true) (udata : (servg.conns conn).udata = some serv)
    (only : ∀ other, (servg.conns other).opened = true → (servg.conns other).udata = some serv →
      other = conn)
    (list : WaitList) (notWaiting : list ≠ .waitForConn) (member : serv ∈ lists list)
    (table : (servg.entries serv).flags.established = true → (servg.entries serv).rpcHash ≠ none) :
    servg.Ordered lists none where
  family := ordered.family
  listed := ordered.listed
  waiting := by
    intro other waits _
    by_cases same : other = serv
    · subst same
      exact absurd (ordered.family.apart _ _ _ member waits) notWaiting
    · exact ordered.waiting other waits (by simpa using Ne.symm same)
  linked := by
    intro place other linked _ notConn
    by_cases same : other = serv
    · subst same
      simp [atConn]
    · exact ordered.linked place other linked (by simpa using Ne.symm same) notConn
  found := by
    intro other otherEntry _ connected
    by_cases same : other = serv
    · subst same
      exact ⟨list, member⟩
    · exact ordered.found other otherEntry (by simpa using Ne.symm same) connected
  alone := by
    intro other otherEntry _ inConfig unlisted
    by_cases same : other = serv
    · subst same
      exact absurd member (unlisted list)
    · exact ordered.alone other otherEntry (by simpa using Ne.symm same) inConfig unlisted
  bound := by
    intro place other otherOpened otherUdata _
    by_cases same : other = serv
    · subst same
      rw [only place otherOpened otherUdata]
      exact ⟨entry, atConn⟩
    · exact ordered.bound place other otherOpened otherUdata (by simpa using Ne.symm same)
  held := by
    intro other place otherEntry _ atPlace
    by_cases same : other = serv
    · subst same
      rw [atConn] at atPlace
      rw [← Option.some.inj atPlace]
      exact ⟨opened, udata⟩
    · exact ordered.held other place otherEntry (by simpa using Ne.symm same) atPlace
  established := by
    intro other otherEntry _ established notMyself
    by_cases same : other = serv
    · subst same
      exact ⟨by simp [atConn], table established⟩
    · exact ordered.established other otherEntry (by simpa using Ne.symm same) established
        notMyself

/-! ## The primitive operations -/

/-- The order only depends on the arrays, the entries as far as they are read,
the links and the connections. -/
theorem Ordered.congr {other : ServGroup} (ordered : servg.Ordered lists hole)
    (servs : other.servs = servg.servs) (links : other.links = servg.links)
    (conns : other.conns = servg.conns) (myself : other.myself = servg.myself)
    (entries : ∀ serv, hole ≠ some serv →
      (other.entries serv).conn = (servg.entries serv).conn ∧
      (other.entries serv).flags = (servg.entries serv).flags ∧
      (other.entries serv).rpcHash = (servg.entries serv).rpcHash) :
    other.Ordered lists hole where
  family := links ▸ ordered.family
  listed := servs ▸ ordered.listed
  waiting := by
    intro serv member inside
    rw [(entries serv inside).1, (entries serv inside).2.1]
    exact ordered.waiting serv member inside
  linked := by
    intro list serv member inside notWaiting
    rw [(entries serv inside).1]
    exact ordered.linked list serv member inside notWaiting
  found := by
    intro serv entry inside connected
    rw [(entries serv inside).1] at connected
    exact ordered.found serv (servs ▸ entry) inside connected
  alone := by
    intro serv entry inside inConfig unlisted
    rw [(entries serv inside).2.1] at inConfig
    rw [links]
    exact ordered.alone serv (servs ▸ entry) inside inConfig unlisted
  bound := by
    intro conn serv opened udata inside
    rw [conns] at opened udata
    have facts := ordered.bound conn serv opened udata inside
    rw [(entries serv inside).1]
    exact ⟨servs ▸ facts.1, facts.2⟩
  held := by
    intro serv conn entry inside atConn
    rw [(entries serv inside).1] at atConn
    rw [conns]
    exact ordered.held serv conn (servs ▸ entry) inside atConn
  established := by
    intro serv entry inside established notMyself
    rw [(entries serv inside).2.1] at established
    rw [myself] at notMyself
    rw [(entries serv inside).1, (entries serv inside).2.2]
    exact ordered.established serv (servs ▸ entry) inside established notMyself

theorem modify_entries (servg : ServGroup) (serv other : ServAddr) (f : SServer → SServer) :
    (servg.modify serv f).entries other =
      if other = serv then f (servg.entries serv) else servg.entries other :=
  Function.update_apply servg.entries serv _ other

@[simp] theorem modify_entries_self (servg : ServGroup) (serv : ServAddr)
    (f : SServer → SServer) : (servg.modify serv f).entries serv = f (servg.entries serv) :=
  Function.update_self serv _ servg.entries

/-- Write to the entry that is left out. -/
theorem Ordered.modify (ordered : servg.Ordered lists (some serv)) (f : SServer → SServer) :
    (servg.modify serv f).Ordered lists (some serv) := by
  refine ordered.congr rfl rfl rfl rfl ?_
  intro other inside
  have different : other ≠ serv := fun same => inside (same ▸ rfl)
  rw [modify_entries, if_neg different]
  exact ⟨rfl, rfl, rfl⟩

/-- Write to fields of an entry that the order does not speak of. -/
theorem Ordered.modify_quiet (ordered : servg.Ordered lists hole) (serv : ServAddr)
    {f : SServer → SServer} (quiet : ∀ entry, (f entry).conn = entry.conn ∧
      (f entry).flags = entry.flags ∧ (f entry).rpcHash = entry.rpcHash) :
    (servg.modify serv f).Ordered lists hole := by
  refine ordered.congr rfl rfl rfl rfl ?_
  intro other _
  rw [modify_entries]
  split
  · rename_i same
    rw [same]
    exact quiet _
  · exact ⟨rfl, rfl, rfl⟩

/-- `s_list_del` of the server left out. -/
theorem Ordered.listDel (ordered : servg.Ordered lists (some serv))
    (place : (∃ list, serv ∈ lists list) ∨ servg.links.Alone serv) :
    (servg.listDel serv).Ordered (Links.without lists serv) (some serv) ∧
      (servg.listDel serv).links.Alone serv := by
  have unlinked := ordered.family.unlink place
  refine ⟨⟨unlinked.1, ?_, ?_, ?_, ?_, ?_, ordered.bound, ordered.held, ordered.established⟩,
    unlinked.2⟩
  · exact fun list other member => ordered.listed list other (List.mem_of_mem_erase member)
  · exact fun other member => ordered.waiting other (List.mem_of_mem_erase member)
  · exact fun list other member => ordered.linked list other (List.mem_of_mem_erase member)
  · intro other entry inside connected
    obtain ⟨list, member⟩ := ordered.found other entry inside connected
    have different : other ≠ serv := fun same => inside (same ▸ rfl)
    exact ⟨list, ordered.family.mem_without.mpr ⟨different, member⟩⟩
  · intro other entry inside inConfig unlisted
    have different : other ≠ serv := fun same => inside (same ▸ rfl)
    apply ordered.family.alone_unlink place
    apply ordered.alone other entry inside inConfig
    exact fun list member =>
      unlisted list (ordered.family.mem_without.mpr ⟨different, member⟩)

/-- `s_list_insert_tail` of the server left out. -/
theorem Ordered.listInsertTail (ordered : servg.Ordered lists (some serv))
    (entry : IsEntry servg.servs serv) (list : WaitList) (unlisted : ∀ list, serv ∉ lists list) :
    (servg.listInsertTail list serv).Ordered (Links.withLast lists list serv) (some serv) := by
  have only : ∀ place other, other ∈ Links.withLast lists list serv place →
      some serv ≠ some other → other ∈ lists place := by
    intro place other member inside
    rcases Links.mem_withLast.mp member with old | ⟨_, same⟩
    · exact old
    · exact absurd (same ▸ rfl) inside
  refine ⟨ordered.family.link unlisted, ?_, ?_, ?_, ?_, ?_, ordered.bound, ordered.held,
    ordered.established⟩
  · intro place other member
    rcases Links.mem_withLast.mp member with old | ⟨_, same⟩
    · exact ordered.listed place other old
    · exact same ▸ entry
  · exact fun other member inside => ordered.waiting other (only _ other member inside) inside
  · exact fun place other member inside =>
      ordered.linked place other (only _ other member inside) inside
  · intro other otherEntry inside connected
    obtain ⟨place, member⟩ := ordered.found other otherEntry inside connected
    exact ⟨place, Links.mem_withLast.mpr (Or.inl member)⟩
  · intro other otherEntry inside inConfig outside
    have different : other ≠ serv := fun same => inside (same ▸ rfl)
    apply ordered.family.alone_link _ different
    apply ordered.alone other otherEntry inside inConfig
    exact fun place member => outside place (Links.mem_withLast.mpr (Or.inl member))

/-- `s_list_init` of the server left out. -/
theorem Ordered.listInit (ordered : servg.Ordered lists (some serv))
    (unlisted : ∀ list, serv ∉ lists list) :
    (servg.listInit serv).Ordered lists (some serv) ∧ (servg.listInit serv).links.Alone serv := by
  refine ⟨⟨ordered.family.loop unlisted, ordered.listed, ordered.waiting, ordered.linked,
    ordered.found, ?_, ordered.bound, ordered.held, ordered.established⟩,
    Links.alone_loop _ _⟩
  intro other entry inside inConfig outside
  have different : other ≠ serv := fun same => inside (same ▸ rfl)
  exact (ordered.alone other entry inside inConfig outside).loop_other different

/-- Open a connection that is not open. -/
theorem Ordered.openConn (ordered : servg.Ordered lists hole) {conn : Nat} (ip : String)
    (port : Int) (closed : (servg.conns conn).opened = false) :
    (servg.openConn conn ip port).Ordered lists hole := by
  refine ⟨ordered.family, ordered.listed, ordered.waiting, ordered.linked, ordered.found,
    ordered.alone, ?_, ?_, ordered.established⟩
  · intro other serv opened udata inside
    by_cases same : other = conn
    · subst same
      simp [ServGroup.openConn] at udata
    · simp only [ServGroup.openConn, Function.update_of_ne same] at opened udata
      exact ordered.bound other serv opened udata inside
  · intro serv other entry inside atConn
    have facts := ordered.held serv other entry inside atConn
    have different : other ≠ conn := by
      rintro rfl
      rw [closed] at facts
      cases facts.1
    simp only [ServGroup.openConn, Function.update_of_ne different]
    exact facts

/-- No server but the one left out is bound to the connection. -/
def Free (servg : ServGroup) (conn : Nat) (serv : ServAddr) : Prop :=
  (servg.conns conn).udata = none ∨ (servg.conns conn).udata = some serv

theorem Free.only {conn : Nat} (free : servg.Free conn serv) {other : ServAddr}
    (udata : (servg.conns conn).udata = some other) : other = serv := by
  rcases free with empty | same
  · rw [empty] at udata
    cases udata
  · rw [same] at udata
    exact (Option.some.inj udata).symm

/-- `s_net_set_udata` with the server left out. -/
theorem Ordered.setUdata (ordered : servg.Ordered lists (some serv)) {conn : Nat}
    (free : servg.Free conn serv) : (servg.setUdata conn serv).Ordered lists (some serv) := by
  refine ⟨ordered.family, ordered.listed, ordered.waiting, ordered.linked, ordered.found,
    ordered.alone, ?_, ?_, ordered.established⟩
  · intro other place opened udata inside
    by_cases same : other = conn
    · subst same
      simp only [ServGroup.setUdata, Function.update_self] at udata
      exact absurd udata inside
    · simp only [ServGroup.setUdata, Function.update_of_ne same] at opened udata
      exact ordered.bound other place opened udata inside
  · intro place other entry inside atConn
    have facts := ordered.held place other entry inside atConn
    have different : other ≠ conn := by
      rintro rfl
      exact inside (congrArg some (free.only facts.2).symm)
    simp only [ServGroup.setUdata, Function.update_of_ne different]
    exact facts

/-- Close a connection that no server but the one left out is bound to. -/
theorem Ordered.shut (ordered : servg.Ordered lists hole) {conn : Nat}
    (unbound : ∀ other, (servg.conns conn).udata = some other → hole = some other) :
    (servg.putConn conn).Ordered lists hole := by
  refine ⟨ordered.family, ordered.listed, ordered.waiting, ordered.linked, ordered.found,
    ordered.alone, ?_, ?_, ordered.established⟩
  · intro other place opened udata inside
    by_cases same : other = conn
    · subst same
      simp [ServGroup.putConn] at opened
    · simp only [ServGroup.putConn, Function.update_of_ne same] at opened udata
      exact ordered.bound other place opened udata inside
  · intro place other entry inside atConn
    have facts := ordered.held place other entry inside atConn
    have different : other ≠ conn := by
      rintro rfl
      exact inside (unbound place facts.2)
    simp only [ServGroup.putConn, Function.update_of_ne different]
    exact facts

theorem Ordered.putConn (ordered : servg.Ordered lists (some serv)) {conn : Nat}
    (free : servg.Free conn serv) : (servg.putConn conn).Ordered lists (some serv) :=
  ordered.shut fun _ udata => congrArg some (free.only udata).symm

/-- Close a connection without a server. -/
theorem Ordered.putConn_free (ordered : servg.Ordered lists hole) {conn : Nat}
    (free : (servg.conns conn).udata = none) : (servg.putConn conn).Ordered lists hole :=
  ordered.shut fun _ udata => nomatch free.symm.trans udata

end

end ServGroup

end SimpleDfs.ServerGroup
