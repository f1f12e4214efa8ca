import SimpleDfs.ServerGroup.Start

/-!
Contract: the wait lists of a server group and the servers in them.

Owns: `ListLaw`, the assertions of `s_servg_check_list` together with the shape
of the lists; the runs in which the law holds throughout; a run that loses it.

`s_servg_create_serv` initialises the links of the entry it finds.  A second
`s_servg_connect` to a server that has not answered the first finds the entry in
`list_wait_for_identify`, and the list is broken.

Does not own: the connections of the servers.
-/

set_option autoImplicit false

namespace SimpleDfs.ServerGroup

open SimpleDfs.Common
open SimpleDfs.Library

namespace ServGroup

/-- The four wait lists are rings without a common server, a server that waits
for a connection has none and is in the configuration, and an established server
has a connection and a table of calls. -/
structure ListLaw (servg : ServGroup) : Prop where
  lists : ∃ lists : WaitList → List ServAddr,
    (∀ list, servg.links.IsRing (.head list) ((lists list).map .node)) ∧
    (∀ list other serv, serv ∈ lists list → serv ∈ lists other → list = other) ∧
    ∀ serv ∈ lists .waitForConn,
      (servg.entries serv).conn = none ∧ (servg.entries serv).flags.inConfig = true
  established : ∀ serv, IsEntry servg.servs serv →
    (servg.entries serv).flags.established = true → servg.myself ≠ some serv →
    (servg.entries serv).conn ≠ none ∧ (servg.entries serv).rpcHash ≠ none

theorem Sound.listLaw {servg : ServGroup} (sound : servg.Sound) : servg.ListLaw := by
  obtain ⟨lists, ordered, _⟩ := sound.order
  constructor
  · refine ⟨lists, ordered.family.ring, ordered.family.apart, ?_⟩
    intro serv member
    obtain ⟨conn, flags⟩ := ordered.waiting serv member (by simp)
    exact ⟨conn, by rw [flags]⟩
  · exact fun serv entry => ordered.established serv entry (by simp)

end ServGroup

/-- Every state that orderly steps reach from an orderly configuration is
sound. -/
theorem sound_of_orderly {junk : ServAddr → SServer} {config : GroupConfig} {servg : ServGroup}
    (start : ServGroup.OrderlyConfig junk config)
    (reached : (groupSystem junk config).ReachableVia ServGroup.Orderly servg) : servg.Sound := by
  apply reached.invariant ServGroup.Sound
  · exact fun group initial => ServGroup.sound_sServgInitConfig start initial
  · exact fun before event after _ sound orderly stepped => sound.step orderly stepped

/-- **When the wait lists are in order.**  The law holds in every state of a run
from an orderly configuration whose steps are all orderly. -/
theorem listLaw_of_orderly {junk : ServAddr → SServer} {config : GroupConfig} {servg : ServGroup}
    (start : ServGroup.OrderlyConfig junk config)
    (reached : (groupSystem junk config).ReachableVia ServGroup.Orderly servg) : servg.ListLaw :=
  (sound_of_orderly start reached).listLaw

/-! ## Runs of one group -/

section Sample

open ServGroup Sample

/-- The server connects to both others; one refuses it, the other is established
and closes; a data server that is not in the configuration identifies itself,
and this server connects to another data server. -/
theorem listLaw_of_orderly_sample :
    ((groupSystem blank config).outcome start
      [.checkList, .attempt (.connected 0 calm), .attempt (.connected 1 calm), .attempt .early,
        .receive 0 (answer 0) calm, .receive 1 (answer 1) calm, .accept 2 "10.0.0.9" 700,
        .receive 2 (identify 2 5) calm, .connect 2 6 "10.0.0.6" 900 (some 3) calm,
        .closed 1]).ListLaw :=
  listLaw_of_orderly (by decide +kernel)
    ((System.reachableVia_outcome initial _ (by decide +kernel)).mono
      fun _ _ passed => of_decide_eq_true passed)

/-- Connect to a server that is not in the configuration, and again before it
answers: the list of its links has a node that points at itself. -/
theorem not_always_listLaw :
    ¬ ∀ servg, (groupSystem blank config).Reachable servg → servg.ListLaw := by
  intro always
  have law := always _ (System.reachable_outcome initial
    [.connect 2 6 "10.0.0.6" 900 (some 0) calm, .connect 2 6 "10.0.0.6" 900 (some 1) calm])
  obtain ⟨lists, ring, _⟩ := law.lists
  have atIdentify := ring .waitForIdentify
  have first : ((groupSystem blank config).outcome start
      [.connect 2 6 "10.0.0.6" 900 (some 0) calm,
        .connect 2 6 "10.0.0.6" 900 (some 1) calm]).links.next (.head .waitForIdentify) =
      .node ⟨2, 0, 6⟩ := by
    decide +kernel
  have loops : ((groupSystem blank config).outcome start
      [.connect 2 6 "10.0.0.6" 900 (some 0) calm,
        .connect 2 6 "10.0.0.6" 900 (some 1) calm]).links.next (.node ⟨2, 0, 6⟩) =
      .node ⟨2, 0, 6⟩ := by
    decide +kernel
  cases waiting : lists .waitForIdentify with
  | nil =>
      rw [waiting, List.map_nil] at atIdentify
      have empty := atIdentify.path.1
      rw [first] at empty
      cases empty
  | cons serv rest =>
      rw [waiting, List.map_cons] at atIdentify
      have same := atIdentify.next_head
      rw [first] at same
      apply atIdentify.next_ne List.mem_cons_self
      rw [← same]
      exact loops

end Sample

end SimpleDfs.ServerGroup
