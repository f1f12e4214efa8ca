import SimpleDfs.Mserv.GlobalLockWaiting

/-!
Contract: what the wake-up replies of GLOBAL_UNLOCK say.

Owns: the law that every reply of the loop names the entry it was sent for, and
exactly when one GLOBAL_UNLOCK obeys it.

The loop reads one entry ahead into the `key` it writes into the reply, so the
reply of an entry that is not the last one visited carries the id of the entry
behind it.  An entry whose client is gone is granted without a reply.

Does not own: the entries the loop grants, which are the same whatever the
replies say.
-/

set_option autoImplicit false

namespace SimpleDfs.Mserv

open SimpleDfs.Common
open SimpleDfs.Library

/-- The reply that tells the client of `elem` that `lockId` is granted. -/
def grantReply (lockId : SId) (elem : GlockElem) : GlockReply where
  client := elem.clientId
  reqId := elem.reqId
  body := .granted lockId

/-- The entry `elem` of `lockId` waits before and is granted after. -/
def TurnedGranted (before after : MServer) (lockId : SId) (elem : GlockElem) : Prop :=
  before.glockElems.lookup lockId = some elem ∧ elem.isWaiting = true ∧
    ∃ later, after.glockElems.lookup lockId = some later ∧ later.isWaiting = false

/-- The replies are those of the entries that were granted, one for each. -/
def RepliesNameGrants (before after : MServer) (replies : List GlockReply) : Prop :=
  ∃ granted : List (SId × GlockElem),
    granted.Nodup ∧
    (∀ lockId elem, (lockId, elem) ∈ granted ↔ TurnedGranted before after lockId elem) ∧
    replies = granted.map fun entry => grantReply entry.1 entry.2

/-- The loop grants the entry of `lockId` if it meets it in this state. -/
def Wakes (mserv : MServer) (lockId : SId) (elem : GlockElem) : Prop :=
  mserv.glockElems.lookup lockId = some elem ∧ elem.isWaiting = true ∧
    mserv.glock &&& elem.lock = 0#32

/-- Of the entries visited in the order of `keys` only the last one can be
granted, and its client is connected. -/
structure OnlyLastWakes (active : Nat → Bool) (mserv : MServer) (keys : List SId) : Prop where
  others : ∀ lockId ∈ keys.dropLast, ∀ elem, ¬ Wakes mserv lockId elem
  last : ∀ lockId ∈ keys.getLast?, ∀ elem, Wakes mserv lockId elem →
    active elem.clientId = true

/-! ## The turns of the loop -/

/-- An entry that cannot be granted is passed over. -/
theorem wakeLoop_skips (active : Nat → Bool) {mserv : MServer} {current : SId}
    (rest : List SId) (asleep : ∀ elem, ¬ Wakes mserv current elem) :
    wakeLoop active mserv (current :: rest) = wakeLoop active mserv rest := by
  rw [wakeLoop]
  cases found : mserv.glockElems.lookup current with
  | none => rfl
  | some elem =>
      show (if !elem.isWaiting then _ else _) = _
      by_cases waiting : elem.isWaiting = true
      · rw [if_neg (by simp [waiting])]
        by_cases meets : mserv.glock &&& elem.lock ≠ 0#32
        · rw [if_pos meets]
        · exact absurd ⟨found, waiting, not_not.mp meets⟩ (asleep elem)
      · rw [if_pos (by simp [waiting])]

/-- The entry of a client that is gone is granted in silence. -/
theorem wakeLoop_grantsSilently {active : Nat → Bool} {mserv : MServer} {current : SId}
    {elem : GlockElem} (rest : List SId) (wakes : Wakes mserv current elem)
    (gone : active elem.clientId = false) :
    wakeLoop active mserv (current :: rest) =
      wakeLoop active
        { mserv with
          glockElems := mserv.glockElems.insert current { elem with isWaiting := false } }
        rest := by
  obtain ⟨found, waiting, free⟩ := wakes
  rw [wakeLoop, found]
  show (if !elem.isWaiting then _ else _) = _
  rw [if_neg (by simp [waiting]), if_neg (not_not.mpr free), if_pos (by simp [gone])]

/-- The reply of a granted entry carries the key that was fetched last. -/
theorem wakeLoop_grants {active : Nat → Bool} {mserv : MServer} {current : SId}
    {elem : GlockElem} (rest : List SId) (wakes : Wakes mserv current elem)
    (connected : active elem.clientId = true) :
    (wakeLoop active mserv (current :: rest)).2 =
      grantReply (rest.head?.getD current) elem ::
        (wakeLoop active
          { glock := mserv.glock ||| elem.lock
            glockElems := mserv.glockElems.insert current { elem with isWaiting := false } }
          rest).2 := by
  obtain ⟨found, waiting, free⟩ := wakes
  rw [wakeLoop, found]
  show (if !elem.isWaiting then _ else _ : MServer × List GlockReply).2 = _
  rw [if_neg (by simp [waiting]), if_neg (not_not.mpr free), if_neg (by simp [connected])]
  rfl

/-- The entry of a turn that grants is granted. -/
theorem lookup_wakeTurn_self (active : Nat → Bool) {mserv : MServer} {current : SId}
    {elem : GlockElem} (wakes : Wakes mserv current elem) :
    (wakeLoop active mserv [current]).1.glockElems.lookup current =
      some { elem with isWaiting := false } := by
  obtain ⟨found, waiting, free⟩ := wakes
  rw [wakeLoop, found]
  show (if !elem.isWaiting then _ else _ : MServer × List GlockReply).1.glockElems.lookup _ = _
  rw [if_neg (by simp [waiting]), if_neg (not_not.mpr free)]
  cases active elem.clientId with
  | false => exact AList.lookup_insert _
  | true => exact AList.lookup_insert _

/-- The loop writes to the entries it visits only. -/
theorem lookup_wakeLoop (active : Nat → Bool) {other : SId} :
    ∀ (keys : List SId) (mserv : MServer), other ∉ keys →
      (wakeLoop active mserv keys).1.glockElems.lookup other = mserv.glockElems.lookup other
  | [], _, _ => rfl
  | current :: rest, mserv, outside => by
      rw [List.mem_cons, not_or] at outside
      rw [wakeLoop_cons, lookup_wakeLoop active rest _ outside.2]
      exact lookup_wakeTurn active mserv current outside.1

/-- The entry a turn grants is granted at the end of the loop. -/
theorem turnedGranted_wakeLoop (active : Nat → Bool) {mserv : MServer} {current : SId}
    {elem : GlockElem} {rest : List SId} (distinct : (current :: rest).Nodup)
    (wakes : Wakes mserv current elem) :
    TurnedGranted mserv (wakeLoop active mserv (current :: rest)).1 current elem := by
  refine ⟨wakes.1, wakes.2.1, { elem with isWaiting := false }, ?_, rfl⟩
  rw [wakeLoop_cons, lookup_wakeLoop active rest _ (List.nodup_cons.mp distinct).1]
  exact lookup_wakeTurn_self active wakes

/-! ## The keys the replies carry -/

/-- Every reply carries a key the loop has visited. -/
theorem wakeLoop_replies_visited (active : Nat → Bool) (keys : List SId) :
    ∀ mserv reply, reply ∈ (wakeLoop active mserv keys).2 →
      ∃ key ∈ keys, reply.body = .granted key := by
  induction keys with
  | nil =>
      intro mserv reply sent
      cases sent
  | cons current rest inductionHypothesis =>
      intro mserv reply sent
      have fromRest : ∀ mserv', reply ∈ (wakeLoop active mserv' rest).2 →
          ∃ key ∈ current :: rest, reply.body = .granted key := by
        intro mserv' sentLater
        obtain ⟨key, visited, carries⟩ := inductionHypothesis mserv' reply sentLater
        exact ⟨key, List.mem_cons_of_mem _ visited, carries⟩
      by_cases asleep : ∀ elem, ¬ Wakes mserv current elem
      · rw [wakeLoop_skips active rest asleep] at sent
        exact fromRest mserv sent
      · push Not at asleep
        obtain ⟨elem, wakes⟩ := asleep
        cases connected : active elem.clientId with
        | false =>
            rw [wakeLoop_grantsSilently rest wakes connected] at sent
            exact fromRest _ sent
        | true =>
            rw [wakeLoop_grants rest wakes connected] at sent
            cases sent with
            | head =>
                refine ⟨rest.head?.getD current, ?_, rfl⟩
                cases rest with
                | nil => exact List.mem_cons_self
                | cons next others => exact List.mem_cons_of_mem _ List.mem_cons_self
            | tail _ sentLater => exact fromRest _ sentLater

/-- An entry that is granted before the last turn is named by no reply. -/
theorem wakeLoop_never_names (active : Nat → Bool) {mserv : MServer} {current : SId}
    {elem : GlockElem} {rest : List SId} (distinct : (current :: rest).Nodup)
    (wakes : Wakes mserv current elem)
    (early : active elem.clientId = true → rest ≠ []) :
    grantReply current elem ∉ (wakeLoop active mserv (current :: rest)).2 := by
  have unvisited : current ∉ rest := (List.nodup_cons.mp distinct).1
  have fromRest : ∀ mserv', grantReply current elem ∉ (wakeLoop active mserv' rest).2 := by
    intro mserv' sent
    obtain ⟨key, visited, carries⟩ := wakeLoop_replies_visited active rest mserv' _ sent
    cases carries
    exact unvisited visited
  intro sent
  cases connected : active elem.clientId with
  | false =>
      rw [wakeLoop_grantsSilently rest wakes connected] at sent
      exact fromRest _ sent
  | true =>
      rw [wakeLoop_grants rest wakes connected] at sent
      rcases List.mem_cons.mp sent with named | sentLater
      · cases rest with
        | nil => exact early connected rfl
        | cons next others =>
            have same : current = next := by
              simpa [grantReply] using congrArg GlockReply.body named
            exact unvisited (same ▸ List.mem_cons_self)
      · exact fromRest _ sentLater

/-! ## Exactly when the replies name the grants -/

/-- Nothing turns if nothing is done. -/
theorem repliesNameGrants_same (mserv : MServer) : RepliesNameGrants mserv mserv [] := by
  refine ⟨[], List.nodup_nil, ?_, rfl⟩
  intro lockId elem
  constructor
  · intro member
    cases member
  · rintro ⟨found, waiting, later, foundLater, granted⟩
    rw [found] at foundLater
    cases foundLater
    rw [waiting] at granted
    cases granted

/-- A single turn with a connected client sends the reply of its own entry. -/
theorem repliesNameGrants_single {active : Nat → Bool} {mserv : MServer} {current : SId}
    {elem : GlockElem} (wakes : Wakes mserv current elem)
    (connected : active elem.clientId = true) :
    RepliesNameGrants mserv (wakeLoop active mserv [current]).1
      (wakeLoop active mserv [current]).2 := by
  refine ⟨[(current, elem)], List.nodup_singleton _, ?_, ?_⟩
  · intro lockId elem'
    rw [List.mem_singleton, Prod.mk.injEq]
    constructor
    · rintro ⟨rfl, rfl⟩
      exact turnedGranted_wakeLoop active (List.nodup_singleton _) wakes
    · rintro ⟨found, waiting, later, foundLater, granted⟩
      by_cases same : lockId = current
      · rw [same, wakes.1] at found
        cases found
        exact ⟨same, rfl⟩
      · rw [lookup_wakeTurn active mserv current same, found] at foundLater
        cases foundLater
        rw [waiting] at granted
        cases granted
  · rw [wakeLoop_grants [] wakes connected]
    rfl

theorem repliesNameGrants_wakeLoop_iff (active : Nat → Bool) (mserv : MServer) :
    ∀ keys : List SId, keys.Nodup →
      (RepliesNameGrants mserv (wakeLoop active mserv keys).1 (wakeLoop active mserv keys).2 ↔
        OnlyLastWakes active mserv keys)
  | [], _ => by
      refine iff_of_true (repliesNameGrants_same mserv) ⟨?_, ?_⟩
      · intro lockId member
        cases member
      · intro lockId member
        cases member
  | current :: rest, distinct => by
      by_cases asleep : ∀ elem, ¬ Wakes mserv current elem
      · rw [wakeLoop_skips active rest asleep,
          repliesNameGrants_wakeLoop_iff active mserv rest (List.nodup_cons.mp distinct).2]
        cases rest with
        | nil =>
            refine iff_of_true ⟨?_, ?_⟩ ⟨?_, ?_⟩
            · intro lockId member
              cases member
            · intro lockId member
              cases member
            · intro lockId member
              cases member
            · intro lockId member elem wakes
              cases member
              exact absurd wakes (asleep elem)
        | cons next others =>
            constructor
            · intro holds
              refine ⟨?_, ?_⟩
              · intro lockId member
                rw [List.dropLast_cons_cons, List.mem_cons] at member
                rcases member with rfl | member
                · exact asleep
                · exact holds.others lockId member
              · rw [List.getLast?_cons_cons]
                exact holds.last
            · intro holds
              refine ⟨?_, ?_⟩
              · intro lockId member
                apply holds.others lockId
                rw [List.dropLast_cons_cons]
                exact List.mem_cons_of_mem _ member
              · have last := holds.last
                rw [List.getLast?_cons_cons] at last
                exact last
      · push Not at asleep
        obtain ⟨elem, wakes⟩ := asleep
        constructor
        · rintro ⟨granted, _, listed, sent⟩
          -- the entry is granted, so one of the replies names it
          have member := (listed current elem).mpr (turnedGranted_wakeLoop active distinct wakes)
          have named : grantReply current elem ∈
              (wakeLoop active mserv (current :: rest)).2 := by
            rw [sent]
            exact List.mem_map.mpr ⟨(current, elem), member, rfl⟩
          by_cases early : active elem.clientId = true → rest ≠ []
          · exact absurd named (wakeLoop_never_names active distinct wakes early)
          · push Not at early
            obtain ⟨connected, rfl⟩ := early
            refine ⟨?_, ?_⟩
            · intro lockId member'
              cases member'
            · intro lockId member' elem' wakes'
              cases member'
              have same : elem = elem' := Option.some.inj (wakes.1.symm.trans wakes'.1)
              rw [← same]
              exact connected
        · intro holds
          cases rest with
          | nil => exact repliesNameGrants_single wakes (holds.last current rfl elem wakes)
          | cons next others =>
              exact absurd wakes (holds.others current List.mem_cons_self elem)

/-- **Grant replies name the granted lock** exactly if the loop finds at most its
last entry to grant, and that entry's client is connected. -/
theorem unlock_replies_name_grants_iff {active : Nat → Bool} {order : IterOrder SId}
    {mserv : MServer} {id : Nat} {lockId : SId} {after : MServer × List GlockReply}
    (handled : sCoreMservGlockUnlock active order mserv id lockId = some after) :
    RepliesNameGrants mserv after.1 after.2 ↔
      ∀ elem, mserv.glockElems.lookup lockId = some elem →
        OnlyLastWakes active (releaseElem mserv lockId elem)
          (order.arrange (releaseElem mserv lockId elem).glockElems.keys) := by
  unfold sCoreMservGlockUnlock at handled
  split at handled
  next absent =>
    cases handled
    refine iff_of_true (repliesNameGrants_same mserv) ?_
    intro elem found
    rw [absent] at found
    cases found
  next elem found =>
    split at handled
    next =>
      cases handled
      have distinct : (order.arrange (releaseElem mserv lockId elem).glockElems.keys).Nodup :=
        (order.arrange_perm _).nodup_iff.mpr (releaseElem mserv lockId elem).glockElems.nodupKeys
      rw [found]
      simp only [Option.some.injEq, forall_eq']
      rw [← repliesNameGrants_wakeLoop_iff active _ _ distinct]
      -- the entry that is unlocked is gone, so it does not turn
      have turned : ∀ after' other elem',
          (∀ later, after'.glockElems.lookup lockId = some later → False) →
          (TurnedGranted mserv after' other elem' ↔
            TurnedGranted (releaseElem mserv lockId elem) after' other elem') := by
        intro after' other elem' gone
        by_cases same : other = lockId
        · subst same
          constructor
          · rintro ⟨_, _, later, foundLater, _⟩
            exact absurd foundLater (gone later)
          · rintro ⟨_, _, later, foundLater, _⟩
            exact absurd foundLater (gone later)
        · rw [TurnedGranted, TurnedGranted, releaseElem, AList.lookup_erase_ne same]
      have gone : ∀ later,
          (wakeLoop active (releaseElem mserv lockId elem)
            (order.arrange (releaseElem mserv lockId elem).glockElems.keys)).1.glockElems.lookup
              lockId = some later → False := by
        intro later present
        rw [lookup_wakeLoop, releaseElem, AList.lookup_erase] at present
        · cases present
        · rw [IterOrder.mem_arrange]
          show lockId ∉ (mserv.glockElems.erase lockId).keys
          simp [AList.keys_erase, List.Nodup.mem_erase_iff mserv.glockElems.keys_nodup]
      simp only [RepliesNameGrants, turned _ _ _ gone]
    next => cases handled

/-- Client 1 holds bit 0 and clients 2 and 3 wait for it: the loop grants the
first of them it meets. -/
private def oneBitMserv : MServer :=
  let first := (sCoreMservGlock initMserv 1 7#32 ⟨1, 1⟩ 1#32).1
  (sCoreMservGlock first 2 8#32 ⟨2, 1⟩ 1#32).1

/-- Client 1 holds bits 0 and 1, client 2 waits for the one and client 3 for the
other. -/
private def twoBitMserv : MServer :=
  let first := (sCoreMservGlock initMserv 1 7#32 ⟨1, 1⟩ 3#32).1
  let second := (sCoreMservGlock first 2 8#32 ⟨2, 1⟩ 1#32).1
  (sCoreMservGlock second 3 9#32 ⟨3, 1⟩ 2#32).1

/-- One waiter: the reply names its lock. -/
theorem unlock_replies_name_grants_oneWaiter :
    ∃ after : MServer × List GlockReply,
      sCoreMservGlockUnlock (fun _ => true) IterOrder.natural oneBitMserv 1 ⟨1, 1⟩ = some after ∧
      after.2 = [{ client := 2, reqId := 8#32, body := .granted ⟨2, 1⟩ }] ∧
      RepliesNameGrants oneBitMserv after.1 after.2 := by
  have handled : sCoreMservGlockUnlock (fun _ => true) IterOrder.natural oneBitMserv 1 ⟨1, 1⟩ =
      some _ := rfl
  refine ⟨_, handled, rfl, (unlock_replies_name_grants_iff handled).mpr ?_⟩
  intro elem found
  refine ⟨?_, fun _ _ _ _ => rfl⟩
  intro lockId member
  have single : (IterOrder.natural.arrange
      (releaseElem oneBitMserv ⟨1, 1⟩ elem).glockElems.keys).dropLast = [] := rfl
  rw [single] at member
  cases member

/-- Two waiters that are both granted: the reply of client 3 carries the lock of
client 2, and no reply names the lock of client 3. -/
theorem not_always_unlock_replies_name_grants :
    ¬ ∀ (active : Nat → Bool) (order : IterOrder SId) (mserv : MServer) (id : Nat)
        (lockId : SId) (after : MServer × List GlockReply),
        sCoreMservGlockUnlock active order mserv id lockId = some after →
        RepliesNameGrants mserv after.1 after.2 := by
  intro always
  obtain ⟨granted, _, listed, sent⟩ :=
    always (fun _ => true) IterOrder.natural twoBitMserv 1 ⟨1, 1⟩ _ rfl
  let waiter : GlockElem :=
    { clientId := 3, reqId := 9#32, lock := 2#32, isWaiting := true }
  have member : ((⟨3, 1⟩, waiter) : SId × GlockElem) ∈ granted :=
    (listed ⟨3, 1⟩ waiter).mpr ⟨rfl, rfl, _, rfl, rfl⟩
  have named : grantReply ⟨3, 1⟩ waiter ∈
      granted.map fun entry => grantReply entry.1 entry.2 :=
    List.mem_map.mpr ⟨_, member, rfl⟩
  rw [← sent] at named
  exact absurd named (by decide)

end SimpleDfs.Mserv
