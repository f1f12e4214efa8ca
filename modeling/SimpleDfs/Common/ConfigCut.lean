import Mathlib.Algebra.GroupWithZero.Nat
import SimpleDfs.Common.ConfigText

/-!
Contract: the first bytes of a text of the configuration format
(`common/s_config.c`).

Owns: the pieces that the scanner sees in the first bytes of a text, how many
bytes of a text are needed, and that the scanner does to the arrays what the
pieces it sees say.

Does not own: how many bytes of a file the scanner gets.

A value that is cut off is a value all the same. A key or a header that is cut
off is none.
-/

set_option autoImplicit false

namespace SimpleDfs.Common

open Library

universe u

/-! ## What is seen of a text -/

/-- The first bytes of a value. -/
def ConfigToken.cut (token : ConfigToken) (count : Nat) (positive : 0 < count) : ConfigToken where
  text := token.text.take count
  nonempty := by
    intro empty
    rcases List.take_eq_nil_iff.mp empty with zero | none
    · omega
    · exact token.nonempty none
  plain := fun c member => token.plain c (List.mem_of_mem_take member)

/-- The first bytes of a name or a key. -/
def ConfigName.cut (name : ConfigName) (count : Nat) (positive : 0 < count) : ConfigName where
  toConfigToken := name.toConfigToken.cut count positive
  noComment := by
    show (name.text.take count).head? ≠ some 35
    rw [List.head?_take, if_neg (by omega)]
    exact name.noComment

/-- The bytes of an entry in front of its value. -/
def keyLength (pair : ConfigEntry) (gap between : List Blank) : Nat :=
  pair.key.text.length + gap.length + 1 + between.length

/-- What is seen of a piece that ends within its first `count` bytes. -/
def ConfigItem.seen (count : Nat) : ConfigItem → List ConfigItem
  | .blank _ => []
  | .comment _ _ => []
  | .header _ _ => []
  | .entry pair gap between behind =>
      if positive : 0 < count - keyLength pair gap between then
        [.entry ⟨pair.key, pair.value.cut (count - keyLength pair gap between) positive⟩
          gap between behind]
      else []

/-- What is seen in the first `count` bytes of a text. -/
def seenOf : List ConfigItem → Nat → List ConfigItem
  | [], _ => []
  | item :: items, count =>
      if item.text.length ≤ count then item :: seenOf items (count - item.text.length)
      else item.seen count

/-- The bytes of a piece that are needed: those of a header, and those of an
entry up to the end of its value. -/
def ConfigItem.needed : ConfigItem → Nat
  | .blank _ => 0
  | .comment _ _ => 0
  | .header name gap => name.text.length + gap.length + 1
  | .entry pair gap between _ => keyLength pair gap between + pair.value.text.length

/-- The bytes of a text that are needed: those up to the end of its last header
or value. -/
def neededOf : List ConfigItem → Nat
  | [] => 0
  | item :: items =>
      if neededOf items = 0 then item.needed else item.text.length + neededOf items

/-- A region counts one, and a value its bytes. -/
def ConfigItem.weight : ConfigItem → Nat
  | .blank _ => 0
  | .comment _ _ => 0
  | .header _ _ => 1
  | .entry pair _ _ _ => pair.value.text.length

def weightOf (items : List ConfigItem) : Nat :=
  (items.map ConfigItem.weight).sum

theorem ConfigToken.length_pos (token : ConfigToken) : 0 < token.text.length :=
  List.length_pos_of_ne_nil token.nonempty

theorem ConfigToken.cut_all (token : ConfigToken) {count : Nat} (positive : 0 < count)
    (all : token.text.length ≤ count) : token.cut count positive = token := by
  obtain ⟨text, nonempty, plain⟩ := token
  simp only [ConfigToken.cut, ConfigToken.mk.injEq]
  exact List.take_of_length_le all

namespace ConfigItem

variable {item : ConfigItem}

theorem length_entry (pair : ConfigEntry) (gap between : List Blank) (behind : Blank) :
    (ConfigItem.entry pair gap between behind).text.length =
      keyLength pair gap between + pair.value.text.length + 1 := by
  simp only [ConfigItem.text, keyLength, List.length_append, List.length_cons, List.length_map,
    List.length_nil]
  omega

theorem length_header (name : ConfigName) (gap : List Blank) :
    (ConfigItem.header name gap).text.length = name.text.length + gap.length + 1 := by
  simp only [ConfigItem.text, List.length_append, List.length_cons, List.length_map,
    List.length_nil]
  omega

theorem needed_le (item : ConfigItem) : item.needed ≤ item.text.length := by
  cases item with
  | blank c => exact Nat.zero_le _
  | comment text newline => exact Nat.zero_le _
  | header name gap => exact (length_header name gap).ge
  | entry pair gap between behind =>
      rw [length_entry]
      exact Nat.le_succ _

/-- A piece that is not needed is white space or a comment. -/
theorem needless (none : item.needed = 0) :
    documentOf [item] = documentOf [] ∧ item.weight = 0 := by
  cases item with
  | blank c => exact ⟨rfl, rfl⟩
  | comment text newline => exact ⟨rfl, rfl⟩
  | header name gap => cases none
  | entry pair gap between behind =>
      have some := pair.value.length_pos
      have length : keyLength pair gap between + pair.value.text.length = 0 := none
      omega

theorem weight_pos (some : item.needed ≠ 0) : 0 < item.weight := by
  cases item with
  | blank c => exact absurd rfl some
  | comment text newline => exact absurd rfl some
  | header name gap => exact Nat.one_pos
  | entry pair gap between behind => exact pair.value.length_pos

theorem documentOf_seen {count : Nat} (cut : count < item.text.length)
    (enough : item.needed ≤ count) : documentOf (item.seen count) = documentOf [item] := by
  cases item with
  | blank c => rfl
  | comment text newline => rfl
  | header name gap =>
      rw [length_header] at cut
      exact absurd enough (Nat.not_le.mpr cut)
  | entry pair gap between behind =>
      have some := pair.value.length_pos
      have length : keyLength pair gap between + pair.value.text.length ≤ count := enough
      have positive : 0 < count - keyLength pair gap between := by omega
      dsimp only [seen]
      rw [dif_pos positive, pair.value.cut_all positive (by omega)]

theorem weight_seen_le (item : ConfigItem) (count : Nat) :
    weightOf (item.seen count) ≤ item.weight := by
  cases item with
  | blank c => exact Nat.le_refl _
  | comment text newline => exact Nat.le_refl _
  | header name gap => exact Nat.zero_le _
  | entry pair gap between behind =>
      dsimp only [seen]
      split
      next =>
        show (pair.value.text.take _).length + 0 ≤ pair.value.text.length
        rw [Nat.add_zero]
        exact List.length_take_le' _ _
      next => exact Nat.zero_le _

theorem weight_seen_lt {count : Nat} (less : count < item.needed) :
    weightOf (item.seen count) < item.weight := by
  cases item with
  | blank c => exact absurd less (Nat.not_lt_zero _)
  | comment text newline => exact absurd less (Nat.not_lt_zero _)
  | header name gap => exact Nat.one_pos
  | entry pair gap between behind =>
      have length : count < keyLength pair gap between + pair.value.text.length := less
      dsimp only [seen]
      split
      next =>
        show (pair.value.text.take _).length + 0 < pair.value.text.length
        rw [Nat.add_zero, List.length_take]
        omega
      next => exact pair.value.length_pos

end ConfigItem

/-- The document depends on the pieces behind one through their document. -/
theorem documentOf_cons (item : ConfigItem) {items others : List ConfigItem}
    (same : documentOf items = documentOf others) :
    documentOf (item :: items) = documentOf (item :: others) := by
  cases item with
  | blank c => exact same
  | comment text newline => exact same
  | header name gap => simp only [documentOf, same]
  | entry pair gap between behind => simp only [documentOf, same]

/-- Where no byte is needed, there is white space and comments. -/
theorem documentOf_needless {items : List ConfigItem} (none : neededOf items = 0) :
    documentOf items = documentOf [] ∧ weightOf items = 0 := by
  induction items with
  | nil => exact ⟨rfl, rfl⟩
  | cons item items inductionHypothesis =>
      unfold neededOf at none
      split at none
      next rest =>
        obtain ⟨document, weight⟩ := inductionHypothesis rest
        obtain ⟨nothing, weightless⟩ := ConfigItem.needless none
        refine ⟨(documentOf_cons item document).trans nothing, ?_⟩
        rw [weightOf, List.map_cons, List.sum_cons, weightless]
        exact (Nat.zero_add _).trans weight
      next rest => omega

theorem weightOf_pos {items : List ConfigItem} (some : neededOf items ≠ 0) :
    0 < weightOf items := by
  induction items with
  | nil => exact absurd rfl some
  | cons item items inductionHypothesis =>
      rw [weightOf, List.map_cons, List.sum_cons]
      unfold neededOf at some
      split at some
      next => exact Nat.add_pos_left (ConfigItem.weight_pos some) _
      next rest => exact Nat.add_pos_right _ (inductionHypothesis rest)

/-- **All is seen once the bytes that are needed are there.** -/
theorem documentOf_seenOf (items : List ConfigItem) :
    ∀ {count : Nat}, neededOf items ≤ count →
      documentOf (seenOf items count) = documentOf items := by
  induction items with
  | nil => exact fun _ => rfl
  | cons item items inductionHypothesis =>
      intro count enough
      unfold neededOf at enough
      unfold seenOf
      split
      next whole =>
        refine documentOf_cons item (inductionHypothesis ?_)
        split at enough
        next rest => omega
        next => omega
      next part =>
        have cut := Nat.not_le.mp part
        split at enough
        next rest =>
          rw [ConfigItem.documentOf_seen cut enough]
          exact documentOf_cons item (documentOf_needless rest).1.symm
        next => omega

/-- **Less is seen in fewer bytes.** -/
theorem weightOf_seenOf (items : List ConfigItem) :
    ∀ {count : Nat}, count < neededOf items → weightOf (seenOf items count) < weightOf items := by
  induction items with
  | nil => exact fun less => absurd less (Nat.not_lt_zero _)
  | cons item items inductionHypothesis =>
      intro count less
      have weight : weightOf (item :: items) = item.weight + weightOf items := by
        rw [weightOf, List.map_cons, List.sum_cons]
        rfl
      unfold neededOf at less
      unfold seenOf
      split
      next whole =>
        have rest : count - item.text.length < neededOf items := by
          split at less
          next =>
            have needed := item.needed_le
            omega
          next => omega
        rw [weight, weightOf, List.map_cons, List.sum_cons]
        exact Nat.add_lt_add_left (inductionHypothesis rest) _
      next =>
        rw [weight]
        split at less
        next => exact (ConfigItem.weight_seen_lt less).trans_le (Nat.le_add_right _ _)
        next rest =>
          have some := weightOf_pos rest
          have most := item.weight_seen_le count
          omega

theorem neededOf_le (items : List ConfigItem) : neededOf items ≤ (textOf items).length := by
  induction items with
  | nil => exact Nat.zero_le _
  | cons item items inductionHypothesis =>
      have needed := item.needed_le
      have behind : (textOf items).length = (items.flatMap ConfigItem.text).length := rfl
      unfold neededOf
      rw [textOf, List.flatMap_cons, List.length_append]
      split
      next => omega
      next => omega

/-! ## The scanner on the first bytes -/

namespace Scanner

variable {Config : Type u} {arrays : ConfigArrays Config} {p : Nat → UInt8} {len : Nat}
  {s after : Scanner Config} {config : Config}

/-- The scanner comes to the end with these arrays. -/
def Ends (arrays : ConfigArrays Config) (p : Nat → UInt8) (len : Nat) (s : Scanner Config)
    (config : Config) : Prop :=
  ∃ after, Leads (turn arrays p len) s after ∧ after.point = .eof ∧ after.config = config

theorem Ends.of_leads (leads : Leads (turn arrays p len) s after)
    (ends : Ends arrays p len after config) : Ends arrays p len s config := by
  obtain ⟨last, more, point, holds⟩ := ends
  exact ⟨last, leads.trans more, point, holds⟩

/-- Nothing stands behind the end of a text. -/
theorem no_head {stops : UInt8 → Prop} : ∀ c ∈ ([] : List UInt8).head?, stops c :=
  fun c member => absurd member (Option.not_mem_none c)

/-- There is nothing left. -/
theorem ends_here {behind : Scanner Config → Scanner Config}
    (here : s.turn arrays p len = s.skipSpace p len behind) (remains : Remains p len s.cur [])
    (holds : s.config = config) : Ends arrays p len s config :=
  ⟨_, Leads.head (turn_eof here remains) (Leads.refl _), rfl, holds⟩

/-- A name or a key that is cut off does nothing. -/
theorem ends_name (name : ConfigName) (gap : List Blank) (count : Nat) (here : s.point = .nextLine)
    (remains : Remains p len s.cur ((name.text ++ gap.map Subtype.val).take count)) :
    Ends arrays p len s s.config := by
  rcases Nat.eq_zero_or_pos count with rfl | positive
  · exact ends_here (turn_nextLine arrays p len s here) remains rfl
  · have split : (name.text ++ gap.map Subtype.val).take count =
        (name.cut count positive).text ++
          ((gap.take (count - name.text.length)).map Subtype.val ++ []) := by
      rw [List.take_append, List.map_take, List.append_nil]
      rfl
    rw [split] at remains
    obtain ⟨named, leads, point, nothing, _, same⟩ := leads_name here remains no_head
    exact Ends.of_leads leads (ends_here (turn_keySpace arrays p len named point) nothing same)

/-- A value that is cut off, or not there. -/
theorem ends_value (pair : ConfigEntry) (gap between : List Blank) (behind : Blank) (count : Nat)
    (here : s.point = .valSpace) (key : s.key = pair.key.text)
    (cut : count ≤ between.length + pair.value.text.length)
    (remains : Remains p len s.cur
      ((between.map Subtype.val ++ (pair.value.text ++ [behind.val])).take count))
    (performed : performAll arrays (ConfigItem.seen
      (pair.key.text.length + gap.length + 1 + count) (.entry pair gap between behind)) s.config =
        some config) :
    Ends arrays p len s config := by
  have length : pair.key.text.length + gap.length + 1 + count - keyLength pair gap between =
      count - between.length := by
    unfold keyLength
    omega
  rw [List.take_append, ← List.map_take, List.length_map] at remains
  dsimp only [ConfigItem.seen] at performed
  by_cases positive : 0 < count - between.length
  · rw [dif_pos (length ▸ positive)] at performed
    have all : between.take count = between := List.take_of_length_le (by omega)
    rw [all, List.take_append_of_le_length (by omega)] at remains
    have split : pair.value.text.take (count - between.length) =
        (pair.value.cut _ (length ▸ positive)).text ++ [] := by
      rw [List.append_nil]
      exact congrArg (fun shown => pair.value.text.take shown) length.symm
    rw [split] at remains
    have pushed : arrays.pushElem s.config s.key
        (pair.value.cut _ (length ▸ positive)).text = some config := by
      rw [key]
      obtain ⟨between, first, last⟩ := Option.bind_eq_some_iff.mp performed
      rw [← Option.some.inj last]
      exact first
    obtain ⟨valued, leads, point, nothing, same⟩ := leads_value here remains no_head pushed
    exact Ends.of_leads leads (ends_here (turn_nextLine arrays p len valued point) nothing same)
  · rw [dif_neg (length ▸ positive)] at performed
    have zero : count - between.length = 0 := by omega
    rw [zero, List.take_zero] at remains
    obtain ⟨opened, leads, passed⟩ :=
      leads_blanks (turn_valSpace arrays p len) (between.take count) s here remains
    have nothing := remains.drop
    rw [List.length_map, ← passed.cur] at nothing
    exact Ends.of_leads leads (ends_here
      (turn_valSpace arrays p len opened (passed.point.trans here)) nothing
      (passed.config.trans (Option.some.inj performed)))

/-- An entry that is cut off, in its key or behind the `=`. -/
theorem ends_entry (pair : ConfigEntry) (gap between : List Blank) (behind : Blank) {count : Nat}
    (cut : count ≤ keyLength pair gap between + pair.value.text.length)
    (here : s.point = .nextLine)
    (remains : Remains p len s.cur
      ((ConfigItem.entry pair gap between behind).text.take count))
    (performed : performAll arrays
      (ConfigItem.seen count (.entry pair gap between behind)) s.config = some config) :
    Ends arrays p len s config := by
  rw [keyLength] at cut
  rw [ConfigItem.text, ← List.append_assoc] at remains
  have front : (pair.key.text ++ gap.map Subtype.val).length =
      pair.key.text.length + gap.length := by
    rw [List.length_append, List.length_map]
  by_cases keyOnly : count ≤ pair.key.text.length + gap.length
  · rw [List.take_append_of_le_length (by omega)] at remains
    have none : ¬ 0 < count - keyLength pair gap between := by
      unfold keyLength
      omega
    dsimp only [ConfigItem.seen] at performed
    rw [dif_neg none] at performed
    cases Option.some.inj performed
    exact ends_name pair.key gap count here remains
  · obtain ⟨more, rfl⟩ : ∃ more, count = pair.key.text.length + gap.length + (more + 1) :=
      ⟨count - (pair.key.text.length + gap.length + 1), by omega⟩
    rw [← front, List.take_length_add_append, List.take_succ_cons, List.append_assoc] at remains
    obtain ⟨opened, leads, point, atSpace, key, same⟩ := leads_key here remains
    refine Ends.of_leads leads
      (ends_value pair gap between behind more point key (by omega) atSpace ?_)
    rw [same, Nat.add_assoc (pair.key.text.length + gap.length), Nat.add_comm 1 more]
    exact performed

/-- **A piece that is cut off** does to the arrays what is seen of it. -/
theorem ends_item (item : ConfigItem) {count : Nat} (cut : count < item.text.length)
    (here : s.point = .nextLine) (remains : Remains p len s.cur (item.text.take count))
    (performed : performAll arrays (item.seen count) s.config = some config) :
    Ends arrays p len s config := by
  cases item with
  | blank c =>
      have zero : count = 0 := Nat.lt_one_iff.mp cut
      rw [zero] at remains
      exact ends_here (turn_nextLine arrays p len s here) remains (Option.some.inj performed)
  | comment text newline =>
      cases Option.some.inj performed
      cases count with
      | zero => exact ends_here (turn_nextLine arrays p len s here) remains rfl
      | succ count =>
          have most : count ≤ (text.map Subtype.val).length := by
            rw [ConfigItem.text, List.length_cons, List.length_append, List.length_singleton] at cut
            omega
          rw [ConfigItem.text, List.take_succ_cons, List.take_append_of_le_length most,
            ← List.map_take, ← List.append_nil (List.map _ _)] at remains
          obtain ⟨closed, leads, point, nothing, same⟩ := leads_hash no_head _ here remains
          exact Ends.of_leads leads
            (ends_here (turn_nextLine arrays p len closed point) nothing same)
  | header name gap =>
      cases Option.some.inj performed
      rw [ConfigItem.length_header] at cut
      rw [ConfigItem.text, ← List.append_assoc, List.take_append_of_le_length (by
        rw [List.length_append, List.length_map]
        omega)] at remains
      exact ends_name name gap count here remains
  | entry pair gap between behind =>
      rw [ConfigItem.length_entry] at cut
      exact ends_entry pair gap between behind (Nat.le_of_lt_succ cut) here remains performed

/-- **The scanner does to the arrays what is seen** in the first bytes of a
text, piece by piece. -/
theorem ends_items (items : List ConfigItem) :
    ∀ (count : Nat) (s : Scanner Config) (config : Config), s.point = .nextLine →
      Remains p len s.cur ((textOf items).take count) →
      performAll arrays (seenOf items count) s.config = some config →
      Ends arrays p len s config := by
  induction items with
  | nil =>
      intro count s config here remains performed
      rw [textOf, List.flatMap_nil, List.take_nil] at remains
      exact ends_here (turn_nextLine arrays p len s here) remains (Option.some.inj performed)
  | cons item items inductionHypothesis =>
      intro count s config here remains performed
      rw [textOf, List.flatMap_cons, List.take_append] at remains
      unfold seenOf at performed
      split at performed
      next whole =>
        rw [List.take_of_length_le whole] at remains
        obtain ⟨between, first, others⟩ := Option.bind_eq_some_iff.mp performed
        obtain ⟨passed, leads, point, rests, same⟩ := leads_item item here remains first
        exact Ends.of_leads leads (inductionHypothesis (count - item.text.length) passed config
          point rests (by rw [same]; exact others))
      next part =>
        have cut := Nat.not_le.mp part
        rw [Nat.sub_eq_zero_of_le cut.le, List.take_zero, List.append_nil] at remains
        exact ends_item item cut here remains performed

/-- The scanner on the first bytes of a text. -/
theorem scan_cut {items : List ConfigItem} {count : Nat} (inside : count ≤ (textOf items).length)
    {start config : Config} (performed : performAll arrays (seenOf items count) start = some config) :
    ((turn arrays (fun i => (textOf items).getD i 0) count)^[enough count]
        (atStart start)).point = .eof ∧
      ((turn arrays (fun i => (textOf items).getD i 0) count)^[enough count]
        (atStart start)).config = config := by
  obtain ⟨after, leads, point, holds⟩ := ends_items items count (atStart start) config rfl
    (remains_drop inside 0 (Nat.zero_le count)) performed
  have ended := ended_enough arrays (fun i => (textOf items).getD i 0) count start
  have same := Leads.end_unique leads ⟨enough count, rfl⟩
    (turn_of_ended (Or.inl point)) (turn_of_ended ended)
  rw [← same]
  exact ⟨point, holds⟩

end Scanner

end SimpleDfs.Common
