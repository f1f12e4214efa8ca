import SimpleDfs.Paxos.Acceptor

/-!
Contract: what REFRESH_ACCEPT leaves of an accept table and of the backups.

Owns: the closed form of the loops of `ireceive_refresh_accept`, and exactly
when one value is left for each listed topic.

The scan of an accept list removes the entries in front of the listed value and
stops there, so entries behind it stay.  The scan of the backups goes on from an
iterator that nobody sets, so it misses the backups in front of it.

Does not own: who sends a refresh, and whether its values are those of a
majority.
-/

set_option autoImplicit false

namespace SimpleDfs.Paxos

open SimpleDfs.Common
open SimpleDfs.Library

variable {layout : Layout} {paxos : SPaxos} {entries : List PaxosAccept}

/-- The entry is no other value for the topic of `entry`. -/
def agreesWith (entry accept : PaxosAccept) : Bool :=
  !(accept.topic == entry.topic && accept.value != entry.value)

theorem agreesWith_iff (entry accept : PaxosAccept) :
    agreesWith entry accept = true ↔
      (accept.topic = entry.topic → accept.value = entry.value) := by
  rw [agreesWith, Bool.not_eq_true', Bool.and_eq_false_iff, beq_eq_false_iff_ne, bne_eq_false_iff_eq,
    imp_iff_not_or]

/-! ## What a refresh is for -/

/-- Each listed topic has one accepted entry, with the listed value, all backup
entries for it have that value, and nothing is changed for the other topics. -/
structure RefreshedTo (before after : SPaxos) (entries : List PaxosAccept) : Prop where
  single : ∀ entry ∈ entries, ∃ accept,
    after.accepts entry.topic = [accept] ∧ accept.value = entry.value
  backups : ∀ entry ∈ entries, ∀ serv list, after.backup.lookup serv = some list →
    ∀ accept ∈ list, accept.topic = entry.topic → accept.value = entry.value
  otherAccepts : ∀ topic, (∀ entry ∈ entries, entry.topic ≠ topic) →
    after.accept.lookup topic = before.accept.lookup topic
  otherBackups : ∀ topic, (∀ entry ∈ entries, entry.topic ≠ topic) → ∀ serv,
    (after.backup.lookup serv).map (List.filter fun accept => accept.topic == topic) =
      (before.backup.lookup serv).map (List.filter fun accept => accept.topic == topic)

/-- A packet lists a topic with one value, though perhaps more than once. -/
def OneValueEach (entries : List PaxosAccept) : Prop :=
  ∀ entry ∈ entries, ∀ other ∈ entries, entry.topic = other.topic → entry.value = other.value

/-! ## The accept lists -/

theorem refreshInto_of_absent {entry : PaxosAccept} {accepts : List PaxosAccept}
    (absent : ∀ accept ∈ accepts, accept.value ≠ entry.value) :
    refreshInto entry accepts = [entry] := by
  have nothing : accepts.dropWhile (fun accept => decide (accept.value ≠ entry.value)) = [] := by
    rw [List.dropWhile_eq_nil_iff]
    intro accept member
    exact decide_eq_true (absent accept member)
  rw [refreshInto, nothing]

theorem refreshInto_of_first {entry accept : PaxosAccept} {earlier later : List PaxosAccept}
    (others : ∀ other ∈ earlier, other.value ≠ entry.value)
    (listed : accept.value = entry.value) :
    refreshInto entry (earlier ++ accept :: later) = accept :: later := by
  have kept : (earlier ++ accept :: later).dropWhile
      (fun accept => decide (accept.value ≠ entry.value)) = accept :: later := by
    rw [List.dropWhile_append_of_pos fun other member => decide_eq_true (others other member),
      List.dropWhile_cons_of_neg (by simp [listed])]
  rw [refreshInto, kept]

/-- A list without the listed value, or the list split at its first entry with
that value. -/
theorem split_at_value (value : Value) (accepts : List PaxosAccept) :
    (∀ accept ∈ accepts, accept.value ≠ value) ∨
      ∃ earlier accept later, accepts = earlier ++ accept :: later ∧
        (∀ other ∈ earlier, other.value ≠ value) ∧ accept.value = value := by
  induction accepts with
  | nil => exact Or.inl fun _ member => absurd member List.not_mem_nil
  | cons head tail inductionHypothesis =>
      by_cases same : head.value = value
      · exact Or.inr ⟨[], head, tail, rfl, fun _ member => absurd member List.not_mem_nil, same⟩
      · rcases inductionHypothesis with absent | ⟨earlier, accept, later, split, others, listed⟩
        · refine Or.inl fun accept member => ?_
          rcases List.mem_cons.mp member with rfl | inTail
          · exact same
          · exact absent accept inTail
        · refine Or.inr ⟨head :: earlier, accept, later, by rw [split]; rfl, ?_, listed⟩
          intro other member
          rcases List.mem_cons.mp member with rfl | inEarlier
          · exact same
          · exact others other inEarlier

/-- The listed value stands at the end of the list, or nowhere. -/
def LastIfAny (value : Value) (accepts : List PaxosAccept) : Prop :=
  ∀ earlier accept later, accepts = earlier ++ accept :: later → accept.value = value → later = []

/-- A refreshed list begins with the listed value. -/
theorem refreshInto_head (entry : PaxosAccept) (accepts : List PaxosAccept) :
    ∃ accept later, refreshInto entry accepts = accept :: later ∧ accept.value = entry.value := by
  rcases split_at_value entry.value accepts with absent | ⟨earlier, accept, later, rfl, others, listed⟩
  · exact ⟨entry, [], refreshInto_of_absent absent, rfl⟩
  · exact ⟨accept, later, refreshInto_of_first others listed, listed⟩

theorem refreshInto_single_iff (entry : PaxosAccept) (accepts : List PaxosAccept) :
    (∃ accept, refreshInto entry accepts = [accept] ∧ accept.value = entry.value) ↔
      LastIfAny entry.value accepts := by
  rcases split_at_value entry.value accepts with absent | ⟨earlier, accept, later, rfl, others, listed⟩
  · refine iff_of_true ⟨entry, refreshInto_of_absent absent, rfl⟩ ?_
    rintro earlier accept later rfl same
    exact absurd same (absent accept (List.mem_append_right _ List.mem_cons_self))
  · rw [refreshInto_of_first others listed]
    constructor
    · rintro ⟨_, single, _⟩
      obtain ⟨rfl, rfl⟩ := List.cons.inj single
      intro earlier' accept' later' split same
      -- the only entry with the listed value is the last one of the list
      rcases List.append_eq_append_iff.mp split with ⟨front, rfl, back⟩ | ⟨front, rfl, back⟩
      · rcases List.cons_eq_append_iff.mp back with ⟨rfl, tails⟩ | ⟨rest, rfl, tails⟩
        · exact (List.cons.inj tails).2
        · cases rest with
          | nil => cases tails
          | cons head rest => cases tails
      · cases front with
        | nil => exact (List.cons.inj back).2
        | cons head rest =>
            obtain ⟨rfl, _⟩ := List.cons.inj back
            exact absurd same (others _ (List.mem_append_right _ List.mem_cons_self))
    · intro last
      rw [last earlier accept later rfl listed]
      exact ⟨accept, rfl, listed⟩

/-- A second scan for the same value changes nothing. -/
theorem refreshInto_again {first again : PaxosAccept} (same : first.value = again.value)
    (accepts : List PaxosAccept) :
    refreshInto again (refreshInto first accepts) = refreshInto first accepts := by
  obtain ⟨accept, later, kept, listed⟩ := refreshInto_head first accepts
  rw [kept]
  rw [show accept :: later = [] ++ accept :: later from rfl]
  exact refreshInto_of_first (fun _ member => absurd member List.not_mem_nil) (listed.trans same)

theorem refreshEntry_lookup_ne (number : Nat) {entry : PaxosAccept} {topic : Topic}
    (other : entry.topic ≠ topic) :
    (refreshEntry layout paxos number entry).accept.lookup topic = paxos.accept.lookup topic :=
  AList.lookup_insert_ne (Ne.symm other)

theorem refreshEntry_accepts_self (number : Nat) (entry : PaxosAccept) :
    (refreshEntry layout paxos number entry).accepts entry.topic =
      refreshInto entry (paxos.accepts entry.topic) := by
  rw [SPaxos.accepts, refreshEntry, AList.lookup_insert]
  rfl

theorem refreshEntry_accepts_ne (number : Nat) {entry : PaxosAccept} {topic : Topic}
    (other : entry.topic ≠ topic) :
    (refreshEntry layout paxos number entry).accepts topic = paxos.accepts topic := by
  rw [SPaxos.accepts, refreshEntry_lookup_ne number other, SPaxos.accepts]

/-- Topics that are not listed keep their list. -/
theorem refreshLoop_lookup_other {topic : Topic} :
    ∀ (entries : List PaxosAccept) (number : Nat) (paxos : SPaxos),
      (∀ entry ∈ entries, entry.topic ≠ topic) →
      (refreshLoop layout paxos number entries).accept.lookup topic = paxos.accept.lookup topic
  | [], _, _, _ => rfl
  | entry :: rest, number, paxos, others => by
      rw [refreshLoop, refreshLoop_lookup_other rest _ _ fun later member =>
        others later (List.mem_cons_of_mem _ member)]
      exact refreshEntry_lookup_ne number (others entry List.mem_cons_self)

/-- A list that a turn has refreshed is left alone by the turns that list the
same value again. -/
theorem refreshLoop_accepts_settled {first : PaxosAccept} {accepts : List PaxosAccept} :
    ∀ (entries : List PaxosAccept) (number : Nat) (paxos : SPaxos),
      (∀ entry ∈ entries, entry.topic = first.topic → entry.value = first.value) →
      paxos.accepts first.topic = refreshInto first accepts →
      (refreshLoop layout paxos number entries).accepts first.topic = refreshInto first accepts
  | [], _, _, _, settled => settled
  | entry :: rest, number, paxos, oneValue, settled => by
      rw [refreshLoop]
      apply refreshLoop_accepts_settled rest
      · intro later member
        exact oneValue later (List.mem_cons_of_mem _ member)
      · by_cases same : entry.topic = first.topic
        · have value := oneValue entry List.mem_cons_self same
          have turn : (refreshEntry layout paxos number entry).accepts entry.topic =
              refreshInto entry (paxos.accepts entry.topic) := refreshEntry_accepts_self number entry
          rw [same, settled, refreshInto_again value.symm] at turn
          exact turn
        · rw [refreshEntry_accepts_ne number same]
          exact settled

/-- The list of a listed topic is refreshed once, by the first entry for it. -/
theorem refreshLoop_accepts {topic : Topic} {value : Value} :
    ∀ (entries : List PaxosAccept) (number : Nat) (paxos : SPaxos),
      (∀ entry ∈ entries, entry.topic = topic → entry.value = value) →
      (∃ entry ∈ entries, entry.topic = topic) →
      ∃ first : PaxosAccept, first.value = value ∧
        (refreshLoop layout paxos number entries).accepts topic =
          refreshInto first (paxos.accepts topic)
  | [], _, _, _, listed => by
      obtain ⟨entry, member, _⟩ := listed
      cases member
  | entry :: rest, number, paxos, oneValue, listed => by
      have later : ∀ other ∈ rest, other.topic = topic → other.value = value :=
        fun other member => oneValue other (List.mem_cons_of_mem _ member)
      rw [refreshLoop]
      by_cases same : entry.topic = topic
      · subst same
        have valueOf := oneValue entry List.mem_cons_self rfl
        refine ⟨entry, valueOf, ?_⟩
        apply refreshLoop_accepts_settled rest
        · intro other member topicOf
          rw [later other member topicOf, valueOf]
        · exact refreshEntry_accepts_self number entry
      · have inRest : ∃ other ∈ rest, other.topic = topic := by
          obtain ⟨other, member, topicOf⟩ := listed
          rcases List.mem_cons.mp member with rfl | inRest
          · exact absurd topicOf same
          · exact ⟨other, inRest, topicOf⟩
        obtain ⟨first, valueOf, refreshed⟩ :=
          refreshLoop_accepts rest (number + 1) (refreshEntry layout paxos number entry) later inRest
        rw [refreshEntry_accepts_ne number same] at refreshed
        exact ⟨first, valueOf, refreshed⟩

/-! ## The backups -/

/-- The keys after the backups of the servers in `visited` were written back. -/
def touched (keys visited : List Nat) : List Nat :=
  visited.foldl (fun keys serv => serv :: keys.erase serv) keys

/-- The keys of the backup table before turn number `number`. -/
def keysBefore (layout : Layout) (keys : List Nat) : Nat → List Nat
  | 0 => keys
  | number + 1 =>
      let before := keysBefore layout keys number
      touched before ((layout.servers.arrange before).drop (layout.dummy number))

/-- The servers whose backups turn number `number` of a packet scans: those that
the iterator it starts from has not passed. -/
def scanned (layout : Layout) (keys : List Nat) (number : Nat) : List Nat :=
  (layout.servers.arrange (keysBefore layout keys number)).drop (layout.dummy number)

theorem keys_refreshBackup (entry : PaxosAccept) :
    ∀ (visited : List Nat) (backup : Table Nat (List PaxosAccept)),
      (refreshBackup entry backup visited).keys = touched backup.keys visited
  | [], _ => rfl
  | serv :: visited, backup => by
      rw [refreshBackup, keys_refreshBackup entry visited, AList.keys_insert]
      rfl

theorem lookup_refreshBackup (entry : PaxosAccept) (serv : Nat) :
    ∀ (visited : List Nat) (backup : Table Nat (List PaxosAccept)),
      (∀ other ∈ visited, other ∈ backup.keys) →
      (refreshBackup entry backup visited).lookup serv =
        if serv ∈ visited then (backup.lookup serv).map (List.filter (agreesWith entry))
        else backup.lookup serv
  | [], _, _ => by rw [refreshBackup, if_neg List.not_mem_nil]
  | head :: visited, backup, known => by
      have listed : head ∈ backup.keys := known head List.mem_cons_self
      obtain ⟨list, found⟩ := Option.isSome_iff_exists.mp
        (AList.lookup_isSome.mpr (AList.mem_keys.mp listed))
      have knownLater : ∀ other ∈ visited,
          other ∈ (backup.insert head (list.filter (agreesWith entry))).keys := by
        intro other member
        rw [AList.keys_insert]
        by_cases same : other = head
        · exact same ▸ List.mem_cons_self
        · exact List.mem_cons_of_mem _
            ((List.mem_erase_of_ne same).mpr (known other (List.mem_cons_of_mem _ member)))
      rw [refreshBackup, found]
      show (refreshBackup entry (backup.insert head (list.filter (agreesWith entry)))
        visited).lookup serv = _
      rw [lookup_refreshBackup entry serv visited _ knownLater]
      by_cases same : serv = head
      · subst same
        rw [AList.lookup_insert, if_pos List.mem_cons_self, found, Option.map_some, Option.map_some,
          List.filter_filter]
        simp only [Bool.and_self, ite_self]
      · rw [AList.lookup_insert_ne same]
        simp only [List.mem_cons, same, false_or]

/-- The backup of a server after a turn. -/
theorem refreshEntry_backup {keys : List Nat} {number : Nat}
    (keysOf : paxos.backup.keys = keysBefore layout keys number) (entry : PaxosAccept)
    (serv : Nat) :
    (refreshEntry layout paxos number entry).backup.lookup serv =
      if serv ∈ scanned layout keys number then
        (paxos.backup.lookup serv).map (List.filter (agreesWith entry))
      else paxos.backup.lookup serv := by
  rw [scanned, ← keysOf, refreshEntry, lookup_refreshBackup]
  intro other member
  exact (IterOrder.mem_arrange _ _ _).mp (List.mem_of_mem_drop member)

/-- What the turns from `number` on leave of a backup entry of `serv`. -/
def Survives (layout : Layout) (keys : List Nat) (serv : Nat) (accept : PaxosAccept) (number : Nat)
    (entries : List PaxosAccept) : Prop :=
  ∀ turn entry, entries[turn]? = some entry → serv ∈ scanned layout keys (number + turn) →
    agreesWith entry accept = true

theorem refreshLoop_backup {keys : List Nat} (serv : Nat) :
    ∀ (entries : List PaxosAccept) (number : Nat) (paxos : SPaxos),
      paxos.backup.keys = keysBefore layout keys number →
      ∃ kept : PaxosAccept → Bool,
        (∀ accept, kept accept = true ↔ Survives layout keys serv accept number entries) ∧
        (refreshLoop layout paxos number entries).backup.lookup serv =
          (paxos.backup.lookup serv).map (List.filter kept)
  | [], number, paxos, _ => by
      refine ⟨fun _ => true, ?_, ?_⟩
      · intro accept
        refine iff_of_true rfl ?_
        intro turn entry present
        cases present
      · show paxos.backup.lookup serv = _
        cases paxos.backup.lookup serv with
        | none => rfl
        | some list => rw [Option.map_some, List.filter_true]
  | entry :: rest, number, paxos, keysOf => by
      have keysAfter : (refreshEntry layout paxos number entry).backup.keys =
          keysBefore layout keys (number + 1) := by
        rw [refreshEntry, keys_refreshBackup, keysOf]
        rfl
      obtain ⟨kept, counted, lookups⟩ := refreshLoop_backup serv rest (number + 1) _ keysAfter
      have turns : ∀ accept, Survives layout keys serv accept number (entry :: rest) ↔
          (serv ∈ scanned layout keys number → agreesWith entry accept = true) ∧
            kept accept = true := by
        intro accept
        rw [counted accept]
        constructor
        · intro survives
          refine ⟨survives 0 entry rfl, ?_⟩
          intro turn later present visited
          rw [Nat.add_assoc, Nat.add_comm 1 turn] at visited
          exact survives (turn + 1) later present visited
        · rintro ⟨now, afterwards⟩ turn later present visited
          cases turn with
          | zero =>
              cases present
              exact now visited
          | succ turn =>
              apply afterwards turn later present
              rw [Nat.add_assoc, Nat.add_comm 1 turn]
              exact visited
      rw [refreshLoop, lookups, refreshEntry_backup keysOf]
      by_cases visited : serv ∈ scanned layout keys number
      · refine ⟨fun accept => kept accept && agreesWith entry accept, ?_, ?_⟩
        · intro accept
          rw [turns, Bool.and_eq_true, and_comm]
          simp only [visited, forall_const]
        · rw [if_pos visited, Option.map_map]
          congr 1
          funext list
          exact List.filter_filter
      · refine ⟨kept, ?_, ?_⟩
        · intro accept
          rw [turns]
          simp only [visited, false_implies, true_and]
        · rw [if_neg visited]

/-! ## Exactly when a refresh leaves one value -/

/-- The listed values are the last ones of their accept lists, and every backup
entry with another value is scanned by a turn for its topic. -/
structure RefreshCovers (layout : Layout) (paxos : SPaxos) (entries : List PaxosAccept) : Prop where
  last : ∀ entry ∈ entries, LastIfAny entry.value (paxos.accepts entry.topic)
  scans : ∀ entry ∈ entries, ∀ serv list, paxos.backup.lookup serv = some list →
    ∀ accept ∈ list, accept.topic = entry.topic → accept.value ≠ entry.value →
      ∃ turn other, entries[turn]? = some other ∧ other.topic = entry.topic ∧
        serv ∈ scanned layout paxos.backup.keys turn

/-- Backup entries of topics that are not listed survive. -/
theorem survives_other {keys : List Nat} {serv : Nat} {accept : PaxosAccept}
    (others : ∀ entry ∈ entries, entry.topic ≠ accept.topic) :
    Survives layout keys serv accept 0 entries := by
  intro turn entry present _
  rw [agreesWith_iff]
  intro same
  exact absurd same.symm (others entry (List.mem_of_getElem? present))

theorem refreshedTo_refreshLoop_iff (oneValue : OneValueEach entries) :
    RefreshedTo paxos (refreshLoop layout paxos 0 entries) entries ↔
      RefreshCovers layout paxos entries := by
  have accepts : ∀ entry ∈ entries,
      ((∃ accept, (refreshLoop layout paxos 0 entries).accepts entry.topic = [accept] ∧
        accept.value = entry.value) ↔ LastIfAny entry.value (paxos.accepts entry.topic)) := by
    intro entry member
    obtain ⟨first, valueOf, refreshed⟩ : ∃ first : PaxosAccept, first.value = entry.value ∧
        (refreshLoop layout paxos 0 entries).accepts entry.topic =
          refreshInto first (paxos.accepts entry.topic) :=
      refreshLoop_accepts entries 0 paxos
        (fun other listed same => oneValue other listed entry member same) ⟨entry, member, rfl⟩
    rw [refreshed, ← valueOf, refreshInto_single_iff]
  constructor
  · intro refreshed
    refine ⟨fun entry member => (accepts entry member).mp (refreshed.single entry member), ?_⟩
    intro entry member serv list found accept listed topicOf different
    obtain ⟨kept, survives, lookups⟩ := refreshLoop_backup serv entries 0 paxos rfl
    by_contra unscanned
    push Not at unscanned
    -- no turn for the topic visits this backup, so the entry is still there
    have survivor : kept accept = true := by
      rw [survives]
      intro turn other present visited
      rw [agreesWith_iff]
      intro same
      rw [Nat.zero_add] at visited
      exact absurd visited (unscanned turn other present (same.symm.trans topicOf))
    rw [found, Option.map_some] at lookups
    exact different (refreshed.backups entry member serv _ lookups accept
      (List.mem_filter.mpr ⟨listed, survivor⟩) topicOf)
  · intro covers
    refine ⟨?_, ?_, ?_, ?_⟩
    · exact fun entry member => (accepts entry member).mpr (covers.last entry member)
    · intro entry member serv list found accept listed topicOf
      obtain ⟨kept, survives, lookups⟩ := refreshLoop_backup serv entries 0 paxos rfl
      rw [lookups] at found
      obtain ⟨before, foundBefore, rfl⟩ := Option.map_eq_some_iff.mp found
      rw [List.mem_filter] at listed
      by_contra different
      obtain ⟨turn, other, present, same, visited⟩ :=
        covers.scans entry member serv before foundBefore accept listed.1 topicOf different
      have agrees := (survives accept).mp listed.2 turn other present (by rwa [Nat.zero_add])
      rw [agreesWith_iff] at agrees
      have valueOf := oneValue other (List.mem_of_getElem? present) entry member same
      exact different ((agrees (topicOf.trans same.symm)).trans valueOf)
    · exact fun topic others => refreshLoop_lookup_other entries 0 paxos others
    · intro topic others serv
      obtain ⟨kept, survives, lookups⟩ := refreshLoop_backup serv entries 0 paxos rfl
      rw [lookups, Option.map_map]
      congr 1
      funext list
      rw [Function.comp_apply, List.filter_filter]
      apply List.filter_congr
      intro accept _
      cases ofTopic : accept.topic == topic with
      | false => rfl
      | true =>
          rw [beq_iff_eq] at ofTopic
          exact (survives accept).mpr (survives_other (ofTopic ▸ others))

/-- Server 1 has accepted the values 5 and then 6 for the topic "a". -/
private def twoValuesPaxos : SPaxos :=
  iaccept (iaccept (sPaxosCreate 1) [97] ⟨1, 1⟩ 5 1) [97] ⟨1, 2⟩ 6 1

/-- A refresh of the topic "a" under version 1. -/
private def refreshOf (value : Value) : Dump where
  version := { version := 1, servs := [1] }
  entries := [{ topic := [97], id := ⟨1, 2⟩, value := value }]

private theorem oneValueEach_refreshOf (value : Value) : OneValueEach (refreshOf value).entries := by
  intro entry member other member' _
  rw [List.mem_singleton.mp member, List.mem_singleton.mp member']

end SimpleDfs.Paxos
