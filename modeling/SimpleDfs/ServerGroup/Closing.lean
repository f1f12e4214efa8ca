import SimpleDfs.ServerGroup.Creation

/-!
Contract: what closing a connection and resetting a server do to the order of a
group.

Owns: `s_servg_reset_serv`, `iwhen_conn_closed` and `s_net_close` on a group in
order, with what they leave of the server they detach; sending on an open
connection.

Closing the connection of a server resets it, and resetting a server closes its
connection first: the second reset finds the server detached already.

Does not own: which packets close a connection.
-/

set_option autoImplicit false

namespace SimpleDfs.ServerGroup

open SimpleDfs.Common
open SimpleDfs.Library

namespace ServGroup

variable {servg : ServGroup} {lists : WaitList → List ServAddr} {serv : ServAddr}

/-! ## Fields that stay -/

@[simp] theorem resetUnconnected_servs :
    (servg.resetUnconnected serv).servs = servg.servs := by
  unfold resetUnconnected
  dsimp only
  split_ifs <;> rfl

@[simp] theorem resetUnconnected_conns :
    (servg.resetUnconnected serv).conns = servg.conns := by
  unfold resetUnconnected
  dsimp only
  split_ifs <;> rfl

@[simp] theorem resetUnconnected_myself :
    (servg.resetUnconnected serv).myself = servg.myself := by
  unfold resetUnconnected
  dsimp only
  split_ifs <;> rfl

@[simp] theorem resetUnconnected_frame :
    (servg.resetUnconnected serv).frame = servg.frame := by
  unfold resetUnconnected
  dsimp only
  split_ifs <;> rfl

/-- A reset only writes to the flags of its server. -/
theorem resetUnconnected_entries :
    (servg.resetUnconnected serv).entries =
      (servg.modify serv fun entry =>
        { entry with flags := { inConfig := entry.flags.inConfig } }).entries := by
  unfold resetUnconnected
  dsimp only
  split_ifs with out listed
  · simp only [Bool.not_eq_true'] at out
    simp [ServGroup.modify, ServGroup.listDel, clearMinDelay, out]
  · simp only [Bool.not_eq_true', Bool.not_eq_false] at out
    simp [ServGroup.modify, ServGroup.listDel, ServGroup.listInsertTail, clearMinDelay, out]
  · simp only [Bool.not_eq_true', Bool.not_eq_false] at out
    simp [ServGroup.modify, ServGroup.listDel, clearMinDelay, out]

/-! ## Detached servers -/

/-- The server has no connection; it waits for one, or is in no list. -/
structure Detached (servg : ServGroup) (lists : WaitList → List ServAddr) (serv : ServAddr) :
    Prop where
  conn : (servg.entries serv).conn = none
  established : (servg.entries serv).flags.established = false
  waits : ∀ list, serv ∈ lists list →
    list = .waitForConn ∧ (servg.entries serv).flags = { inConfig := true }
  alone : (∀ list, serv ∉ lists list) → servg.links.Alone serv

theorem Detached.place (detached : servg.Detached lists serv) :
    (∃ list, serv ∈ lists list) ∨ servg.links.Alone serv := by
  by_cases listed : ∃ list, serv ∈ lists list
  · exact Or.inl listed
  · exact Or.inr (detached.alone (not_exists.mp listed))

theorem Detached.fill (detached : servg.Detached lists serv)
    (ordered : servg.Ordered lists (some serv))
    (unbound : ∀ conn, (servg.conns conn).opened = true → (servg.conns conn).udata ≠ some serv) :
    servg.Ordered lists none := by
  apply ordered.fill_released detached.conn unbound detached.waits
  · exact fun _ unlisted => detached.alone unlisted
  · intro established
    rw [detached.established] at established
    cases established

/-- What an operation on one server leaves of the lists. -/
def ListsStay (before after : WaitList → List ServAddr) (serv : ServAddr) : Prop :=
  ∀ list other, other ∈ before list → other ≠ serv → other ∈ after list

/-- A reset detaches the server, which is left out of the order. -/
theorem Ordered.resetUnconnected (ordered : servg.Ordered lists (some serv))
    (entry : IsEntry servg.servs serv)
    (place : (∃ list, serv ∈ lists list) ∨ servg.links.Alone serv)
    (released : (servg.entries serv).conn = none) :
    ∃ after, (servg.resetUnconnected serv).Ordered after (some serv) ∧
      (servg.resetUnconnected serv).Detached after serv ∧ ListsStay lists after serv := by
  obtain ⟨deleted, alone⟩ := ordered.listDel place
  have outside : ∀ list, serv ∉ Links.without lists serv list :=
    fun list member => (ordered.family.mem_without.mp member).1 rfl
  have stays : ListsStay lists (Links.without lists serv) serv :=
    fun list other member different => ordered.family.mem_without.mpr ⟨different, member⟩
  have conn : ((servg.resetUnconnected serv).entries serv).conn = none := by
    rw [resetUnconnected_entries, modify_entries_self]
    exact released
  have established : ((servg.resetUnconnected serv).entries serv).flags.established = false := by
    rw [resetUnconnected_entries, modify_entries_self]
  have flags : ((servg.resetUnconnected serv).entries serv).flags =
      { inConfig := (servg.entries serv).flags.inConfig } := by
    rw [resetUnconnected_entries, modify_entries_self]
  -- the servers of the configuration this one connects to wait in the first list
  by_cases waits : (servg.entries serv).flags.inConfig = true ∧
      ((servg.entries serv).ip.isSome && decide (0 < (servg.entries serv).port) &&
        sDoIConnHim servg.type servg.id (servg.entries serv).type (servg.entries serv).id) = true
  · have links : (servg.resetUnconnected serv).links =
        ((servg.listDel serv).listInsertTail .waitForConn serv).links := by
      unfold ServGroup.resetUnconnected
      dsimp only
      rw [if_neg (by simp [waits.1]), if_pos waits.2]
      rfl
    have inserted := deleted.listInsertTail entry .waitForConn outside
    refine ⟨Links.withLast (Links.without lists serv) .waitForConn serv, ?_, ?_, ?_⟩
    · refine inserted.congr resetUnconnected_servs links resetUnconnected_conns
        resetUnconnected_myself ?_
      intro other inside
      have different : other ≠ serv := fun same => inside (same ▸ rfl)
      rw [resetUnconnected_entries, modify_entries, if_neg different]
      exact ⟨rfl, rfl, rfl⟩
    · refine ⟨conn, established, ?_, ?_⟩
      · intro list member
        rcases Links.mem_withLast.mp member with old | ⟨same, _⟩
        · exact absurd old (outside list)
        · exact ⟨same, by rw [flags, waits.1]⟩
      · intro unlisted
        exact absurd (Links.mem_withLast.mpr (Or.inr ⟨rfl, rfl⟩)) (unlisted .waitForConn)
    · exact fun list other member different =>
        Links.mem_withLast.mpr (Or.inl (stays list other member different))
  · have links : (servg.resetUnconnected serv).links = (servg.listDel serv).links := by
      unfold ServGroup.resetUnconnected
      dsimp only
      by_cases out : (servg.entries serv).flags.inConfig = true
      · rw [if_neg (by simp [out]), if_neg fun insert => waits ⟨out, insert⟩]
        rfl
      · rw [if_pos (by simpa using out)]
        rfl
    refine ⟨Links.without lists serv, ?_, ?_, stays⟩
    · refine deleted.congr resetUnconnected_servs links resetUnconnected_conns
        resetUnconnected_myself ?_
      intro other inside
      have different : other ≠ serv := fun same => inside (same ▸ rfl)
      rw [resetUnconnected_entries, modify_entries, if_neg different]
      exact ⟨rfl, rfl, rfl⟩
    · refine ⟨conn, established, ?_, ?_⟩
      · exact fun list member => absurd member (outside list)
      · intro _
        rw [links]
        exact alone

/-! ## Closing -/

/-- What a close leaves. -/
structure ClosedConn (before after : ServGroup) (lists rest : WaitList → List ServAddr)
    (conn : Nat) : Prop where
  ordered : after.Ordered rest none
  servs : after.servs = before.servs
  myself : after.myself = before.myself
  frame : after.frame = before.frame
  conns : after.conns =
    Function.update before.conns conn { before.conns conn with opened := false }
  entries : ∀ other, (before.conns conn).udata ≠ some other →
    after.entries other = before.entries other
  detached : ∀ serv, (before.conns conn).udata = some serv → after.Detached rest serv
  lists : ∀ list other, other ∈ lists list → (before.conns conn).udata ≠ some other →
    other ∈ rest list

/-- `s_servg_reset_serv` in `iwhen_conn_closed`, then the connection is put
away. -/
theorem Ordered.detach (ordered : servg.Ordered lists none) {conn : Nat}
    (opened : (servg.conns conn).opened = true) (udata : (servg.conns conn).udata = some serv)
    {middle : ServGroup} (servs : middle.servs = servg.servs) (links : middle.links = servg.links)
    (conns : middle.conns = servg.conns) (myself : middle.myself = servg.myself)
    (frame : middle.frame = servg.frame)
    (entries : middle.entries =
      (servg.modify serv fun entry => { entry with conn := none }).entries) :
    ∃ rest, servg.ClosedConn ((middle.resetUnconnected serv).putConn conn) lists rest conn := by
  have facts := ordered.bound conn serv opened udata (by simp)
  have place := ordered.place facts.1 (by simp) (Or.inl (by simp [facts.2]))
  have hole : middle.Ordered lists (some serv) := by
    refine (ordered.except serv).congr servs links conns myself ?_
    intro other inside
    have different : other ≠ serv := fun same => inside (same ▸ rfl)
    rw [entries, modify_entries, if_neg different]
    exact ⟨rfl, rfl, rfl⟩
  obtain ⟨rest, after, detached, stays⟩ := hole.resetUnconnected (servs ▸ facts.1)
    (links ▸ place) (by rw [entries, modify_entries_self])
  have free : (middle.resetUnconnected serv).Free conn serv := by
    right
    rw [resetUnconnected_conns, conns]
    exact udata
  have put := after.putConn free
  have kept : ((middle.resetUnconnected serv).putConn conn).Detached rest serv :=
    ⟨detached.conn, detached.established, detached.waits, detached.alone⟩
  refine ⟨rest, ⟨kept.fill put ?_, ?_, ?_, ?_, ?_, ?_, ?_, ?_⟩⟩
  · intro other otherOpened otherUdata
    by_cases same : other = conn
    · subst same
      simp [ServGroup.putConn] at otherOpened
    · simp only [ServGroup.putConn, Function.update_of_ne same, resetUnconnected_conns, conns]
        at otherOpened otherUdata
      have again := (ordered.bound other serv otherOpened otherUdata (by simp)).2
      rw [facts.2] at again
      exact same (Option.some.inj again).symm
  · exact resetUnconnected_servs.trans servs
  · exact resetUnconnected_myself.trans myself
  · exact resetUnconnected_frame.trans frame
  · change Function.update (middle.resetUnconnected serv).conns conn
      { (middle.resetUnconnected serv).conns conn with opened := false } = _
    rw [resetUnconnected_conns, conns]
  · intro other elsewhere
    have different : other ≠ serv := by
      rintro rfl
      exact elsewhere udata
    change (middle.resetUnconnected serv).entries other = servg.entries other
    rw [resetUnconnected_entries, modify_entries, if_neg different, entries, modify_entries,
      if_neg different]
  · intro other same
    rw [udata] at same
    exact Option.some.inj same ▸ kept
  · intro list other member elsewhere
    apply stays list other member
    rintro rfl
    exact elsewhere udata

theorem Ordered.sNetClose (ordered : servg.Ordered lists none) {conn : Nat} {after : ServGroup}
    (opened : (servg.conns conn).opened = true) (closed : servg.sNetClose conn = some after) :
    ∃ rest, servg.ClosedConn after lists rest conn := by
  rw [ServGroup.sNetClose, Option.map_eq_some_iff] at closed
  obtain ⟨middle, handled, rfl⟩ := closed
  rw [iwhenConnClosed] at handled
  split at handled
  next udata =>
    cases handled
    refine ⟨lists, ⟨ordered.putConn_free udata, rfl, rfl, rfl, rfl, fun _ _ => rfl, ?_,
      fun _ _ member _ => member⟩⟩
    intro serv same
    rw [udata] at same
    cases same
  next serv udata =>
    dsimp only at handled
    split at handled
    · split at handled
      · cases handled
      · cases handled
        exact ordered.detach opened udata rfl rfl rfl rfl rfl rfl
    · cases handled
      exact ordered.detach opened udata rfl rfl rfl rfl rfl rfl

theorem Own.closed {own : ServAddr} {before after : ServGroup}
    {lists rest : WaitList → List ServAddr} {conn : Nat} (mine : before.Own own)
    (ordered : before.Ordered lists none) (opened : (before.conns conn).opened = true)
    (closed : before.ClosedConn after lists rest conn) : after.Own own := by
  have elsewhere : (before.conns conn).udata ≠ some own := by
    intro udata
    have atConn := (ordered.bound conn own opened udata (by simp)).2
    rw [mine.conn] at atConn
    cases atConn
  have same := closed.entries own elsewhere
  exact ⟨closed.myself.trans mine.myself, closed.servs ▸ mine.entry, same ▸ mine.flags,
    same ▸ mine.conn, same ▸ mine.rpcHash⟩

end ServGroup

end SimpleDfs.ServerGroup
