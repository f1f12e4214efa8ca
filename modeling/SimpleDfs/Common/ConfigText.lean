import Mathlib.Data.List.GetD
import SimpleDfs.Common.ConfigScan

/-!
Contract: texts of the configuration format (`common/s_config.c`).

Owns: documents of regions with keys and values, the texts that render them, and
that the scanner passes the pieces of a text.

Does not own: where the text ends, or whether the arrays have room.

A newline is any character that ends a comment: a carriage return or a line
feed.
-/

set_option autoImplicit false

namespace SimpleDfs.Common

open Library

universe u

/-! ## Documents -/

/-- A string that can be a value. -/
structure ConfigToken where
  text : List UInt8
  nonempty : text ≠ []
  plain : ∀ c ∈ text, isSpace c = false ∧ c ≠ 58 ∧ c ≠ 61

/-- A string that can be a key or the name of a region: no comment starts with
it. -/
structure ConfigName extends ConfigToken where
  noComment : text.head? ≠ some 35

structure ConfigEntry where
  key : ConfigName
  value : ConfigToken

structure ConfigSection where
  name : ConfigName
  entries : List ConfigEntry

/-- The entries in front of the first header, and the regions. -/
structure ConfigDocument where
  entries : List ConfigEntry
  regions : List ConfigSection

/-! ## Texts -/

/-- White space. -/
abbrev Blank := { c : UInt8 // isSpace c = true }

abbrev Newline := { c : UInt8 // c = 13 ∨ c = 10 }

/-- A piece of a text. The white space in front of a name or a key, and more of
it behind a header or a value, are pieces of their own. -/
inductive ConfigItem where
  | blank (c : Blank)
  | comment (text : List { c : UInt8 // c ≠ 13 ∧ c ≠ 10 }) (newline : Newline)
  | header (name : ConfigName) (gap : List Blank)
  | entry (pair : ConfigEntry) (gap between : List Blank) (behind : Blank)

/-- `# text`, `name :` or `key = value`. -/
def ConfigItem.text : ConfigItem → List UInt8
  | .blank c => [c.val]
  | .comment text newline => 35 :: (text.map Subtype.val ++ [newline.val])
  | .header name gap => name.text ++ (gap.map Subtype.val ++ [58])
  | .entry pair gap between behind =>
      pair.key.text ++ (gap.map Subtype.val ++
        (61 :: (between.map Subtype.val ++ (pair.value.text ++ [behind.val]))))

def textOf (items : List ConfigItem) : List UInt8 :=
  items.flatMap ConfigItem.text

/-- The document that the pieces of a text describe. -/
def documentOf : List ConfigItem → ConfigDocument
  | [] => ⟨[], []⟩
  | .blank _ :: items => documentOf items
  | .comment _ _ :: items => documentOf items
  | .header name _ :: items =>
      ⟨[], ⟨name, (documentOf items).entries⟩ :: (documentOf items).regions⟩
  | .entry pair _ _ _ :: items =>
      ⟨pair :: (documentOf items).entries, (documentOf items).regions⟩

/-- The text is a rendering of the document. -/
def Renders (document : ConfigDocument) (text : List UInt8) : Prop :=
  ∃ items, documentOf items = document ∧ textOf items = text

/-! ## What is left of a text -/

/-- From an index on, the text at `p` is `rest`, and there it ends. -/
def Remains (p : Nat → UInt8) (len : Nat) : Nat → List UInt8 → Prop
  | cur, [] => cur = len
  | cur, c :: rest => cur < len ∧ p cur = c ∧ Remains p len (cur + 1) rest

variable {p : Nat → UInt8} {len : Nat}

theorem Remains.drop {front rest : List UInt8} :
    ∀ {cur : Nat}, Remains p len cur (front ++ rest) →
      Remains p len (cur + front.length) rest := by
  induction front with
  | nil => exact fun remains => remains
  | cons c front inductionHypothesis =>
      intro cur remains
      have behind := inductionHypothesis remains.2.2
      rw [List.length_cons, Nat.add_comm front.length 1, ← Nat.add_assoc]
      exact behind

theorem Remains.textFrom {text rest : List UInt8} :
    ∀ {cur : Nat}, Remains p len cur (text ++ rest) →
      textFrom p cur (cur + text.length) = text := by
  induction text with
  | nil =>
      intro cur _
      rw [Common.textFrom, List.length_nil, Nat.add_zero, Nat.sub_self]
      rfl
  | cons c text inductionHypothesis =>
      intro cur remains
      have behind := inductionHypothesis remains.2.2
      have length : cur + (c :: text).length - cur = text.length + 1 := by
        rw [List.length_cons]
        omega
      have same : cur + 1 + text.length - (cur + 1) = text.length := by omega
      rw [Common.textFrom, same] at behind
      rw [Common.textFrom, length, List.range_succ_eq_map, List.map_cons, List.map_map,
        Nat.add_zero, remains.2.1]
      refine congrArg (c :: ·) (Eq.trans ?_ behind)
      refine List.map_congr_left fun i _ => ?_
      show p (cur + (i + 1)) = p (cur + 1 + i)
      rw [Nat.add_assoc, Nat.add_comm 1 i]

/-- The first bytes of a text, from an index on. -/
theorem remains_drop {text : List UInt8} {count : Nat} (inside : count ≤ text.length) :
    ∀ cur, cur ≤ count →
      Remains (fun i => text.getD i 0) count cur ((text.take count).drop cur) := by
  intro cur
  have length : (text.take count).length = count := List.length_take_of_le inside
  induction rest : (text.take count).drop cur generalizing cur with
  | nil =>
      intro upTo
      have past := List.drop_eq_nil_iff.mp rest
      show cur = count
      omega
  | cons c behind inductionHypothesis =>
      intro upTo
      have below : cur < (text.take count).length := by
        by_contra past
        rw [List.drop_eq_nil_iff.mpr (Nat.not_lt.mp past)] at rest
        cases rest
      have here := List.drop_eq_getElem_cons below
      obtain ⟨head, tail⟩ := List.cons.inj (rest.symm.trans here)
      refine ⟨length ▸ below, ?_, inductionHypothesis (cur + 1) tail.symm (length ▸ below)⟩
      rw [head, List.getElem_take]
      exact List.getD_eq_getElem _ _ (by omega)

/-! ## The scanner on a text -/

section

variable {Config : Type u}

/-- What the scanner does to the arrays on a piece. -/
def ConfigItem.perform (arrays : ConfigArrays Config) (config : Config) :
    ConfigItem → Option Config
  | .blank _ => some config
  | .comment _ _ => some config
  | .header name _ => arrays.pushRegion config name.text
  | .entry pair _ _ _ => arrays.pushElem config pair.key.text pair.value.text

def performAll (arrays : ConfigArrays Config) : List ConfigItem → Config → Option Config
  | [], config => some config
  | item :: items, config => (item.perform arrays config).bind (performAll arrays items)

end

namespace Scanner

variable {Config : Type u} {arrays : ConfigArrays Config} {s : Scanner Config}
  {rest : List UInt8}

/-- The scanner stands at the same point, `count` bytes further. -/
structure Passed (count : Nat) (s after : Scanner Config) : Prop where
  point : after.point = s.point
  cur : after.cur = s.cur + count
  start : after.start = s.start
  key : after.key = s.key
  config : after.config = s.config

theorem Passed.refl (s : Scanner Config) : Passed 0 s s :=
  ⟨rfl, rfl, rfl, rfl, rfl⟩

/-- One byte, and `count` more. -/
theorem Passed.succ {count : Nat} {after : Scanner Config}
    (passed : Passed count { s.read with cur := s.cur + 1 } after) : Passed (count + 1) s after := by
  refine ⟨passed.point, ?_, passed.start, passed.key, passed.config⟩
  rw [passed.cur, Nat.add_assoc, Nat.add_comm 1 count]

section

variable {behind : Scanner Config → Scanner Config} {point : ScanPoint}

/-- White space is skipped, at each of the points that skip it. -/
theorem leads_blanks
    (skips : ∀ s : Scanner Config, s.point = point →
      s.turn arrays p len = s.skipSpace p len behind) (blanks : List Blank) :
    ∀ s : Scanner Config, s.point = point →
      Remains p len s.cur (blanks.map Subtype.val ++ rest) →
      ∃ after, Leads (turn arrays p len) s after ∧ Passed blanks.length s after := by
  induction blanks with
  | nil => exact fun s _ _ => ⟨s, Leads.refl s, Passed.refl s⟩
  | cons c blanks inductionHypothesis =>
      intro s here remains
      obtain ⟨below, same, tail⟩ := remains
      have space : isSpace (p s.cur) = true := by
        rw [same]
        exact c.property
      have moved : s.turn arrays p len = { s.read with cur := s.cur + 1 } := by
        rw [skips s here, skipSpace, if_pos below, if_pos space]
      obtain ⟨after, leads, passed⟩ :=
        inductionHypothesis { s.read with cur := s.cur + 1 } here tail
      exact ⟨after, Leads.head moved leads, passed.succ⟩

/-- Behind the white space the scanner goes on. -/
theorem turn_visible {c : UInt8} (here : s.turn arrays p len = s.skipSpace p len behind)
    (remains : Remains p len s.cur (c :: rest)) (visible : isSpace c = false) :
    s.turn arrays p len = behind s.read := by
  obtain ⟨below, same, _⟩ := remains
  rw [here, skipSpace, if_pos below, same, visible]
  rfl

/-- The characters of a token are passed. -/
theorem leads_token
    (checks : ∀ s : Scanner Config, s.point = point →
      s.turn arrays p len = s.checkKeyVal p len behind) {text : List UInt8} :
    (∀ c ∈ text, isSpace c = false ∧ c ≠ 58 ∧ c ≠ 61) →
    ∀ s : Scanner Config, s.point = point → Remains p len s.cur (text ++ rest) →
      ∃ after, Leads (turn arrays p len) s after ∧ Passed text.length s after := by
  induction text with
  | nil => exact fun _ s _ _ => ⟨s, Leads.refl s, Passed.refl s⟩
  | cons c text inductionHypothesis =>
      intro plain s here remains
      obtain ⟨below, same, tail⟩ := remains
      obtain ⟨visible, noColon, noEquals⟩ := plain c List.mem_cons_self
      have goesOn : (!isSpace (p s.cur) && p s.cur != 58 && p s.cur != 61) = true := by
        rw [same, visible]
        simp [noColon, noEquals]
      have moved : s.turn arrays p len = { s.read with cur := s.cur + 1 } := by
        rw [checks s here, checkKeyVal, if_pos below, if_pos goesOn]
      obtain ⟨after, leads, passed⟩ := inductionHypothesis
        (fun c member => plain c (List.mem_cons_of_mem _ member))
        { s.read with cur := s.cur + 1 } here tail
      exact ⟨after, Leads.head moved leads, passed.succ⟩

/-- White space and the separators end a token, and so does the end of the
text. -/
theorem turn_stop (here : s.turn arrays p len = s.checkKeyVal p len behind)
    (remains : Remains p len s.cur rest)
    (stops : ∀ c ∈ rest.head?, isSpace c = true ∨ c = 58 ∨ c = 61) :
    ∃ same, Passed 0 s same ∧ s.turn arrays p len = behind same := by
  cases rest with
  | nil =>
      have atEnd : ¬ s.cur < len := Nat.not_lt.mpr (Nat.le_of_eq remains.symm)
      exact ⟨s, Passed.refl s, by rw [here, checkKeyVal, if_neg atEnd]⟩
  | cons c rest =>
      obtain ⟨below, same, _⟩ := remains
      have ends : (!isSpace (p s.cur) && p s.cur != 58 && p s.cur != 61) = false := by
        rw [same]
        rcases stops c rfl with space | rfl | rfl
        · rw [space]
          rfl
        · rfl
        · rfl
      refine ⟨s.read, ⟨rfl, rfl, rfl, rfl, rfl⟩, ?_⟩
      rw [here, checkKeyVal, if_pos below, ends]
      rfl

/-- Behind the text the scanner ends. -/
theorem turn_eof (here : s.turn arrays p len = s.skipSpace p len behind)
    (remains : Remains p len s.cur []) : s.turn arrays p len = { s with point := .eof } := by
  have atEnd : ¬ s.cur < len := Nat.not_lt.mpr (Nat.le_of_eq remains.symm)
  rw [here, skipSpace, if_neg atEnd]

end

/-! ### What each point skips or checks -/

theorem turn_nextLine (arrays : ConfigArrays Config) (p : Nat → UInt8) (len : Nat)
    (s : Scanner Config) (here : s.point = .nextLine) :
    s.turn arrays p len = s.skipSpace p len (line p) := by
  rw [turn, here]

theorem turn_key (arrays : ConfigArrays Config) (p : Nat → UInt8) (len : Nat)
    (s : Scanner Config) (here : s.point = .key) :
    s.turn arrays p len = s.checkKeyVal p len (keyEnd p) := by
  rw [turn, here]

theorem turn_keySpace (arrays : ConfigArrays Config) (p : Nat → UInt8) (len : Nat)
    (s : Scanner Config) (here : s.point = .keySpace) :
    s.turn arrays p len = s.skipSpace p len (separator arrays p) := by
  rw [turn, here]

theorem turn_valSpace (arrays : ConfigArrays Config) (p : Nat → UInt8) (len : Nat)
    (s : Scanner Config) (here : s.point = .valSpace) :
    s.turn arrays p len = s.skipSpace p len valStart := by
  rw [turn, here]

theorem turn_val (arrays : ConfigArrays Config) (p : Nat → UInt8) (len : Nat)
    (s : Scanner Config) (here : s.point = .val) :
    s.turn arrays p len = s.checkKeyVal p len (element arrays p) := by
  rw [turn, here]

theorem turn_comment (arrays : ConfigArrays Config) (p : Nat → UInt8) (len : Nat)
    (s : Scanner Config) (here : s.point = .comment) :
    s.turn arrays p len = s.skipComment p len := by
  rw [turn, here]

/-! ### Names, values and comments -/

/-- White space or a separator stands behind a name or a key. -/
theorem stops_behind (gap : List Blank) (separates : ∀ c ∈ rest.head?, c = 58 ∨ c = 61) :
    ∀ c ∈ (gap.map Subtype.val ++ rest).head?, isSpace c = true ∨ c = 58 ∨ c = 61 := by
  cases gap with
  | nil => exact fun c member => Or.inr (separates c member)
  | cons blank gap =>
      intro c member
      cases Option.mem_some_iff.mp member
      exact Or.inl blank.property

/-- A name or a key starts no comment. -/
theorem turn_name {name : ConfigName} (here : s.point = .nextLine)
    (remains : Remains p len s.cur (name.text ++ rest)) :
    s.turn arrays p len = { s.read with point := .key, start := s.cur } := by
  have skips := turn_nextLine arrays p len s here
  obtain ⟨⟨text, nonempty, plain⟩, noComment⟩ := name
  cases text with
  | nil => exact absurd rfl nonempty
  | cons c text =>
      rw [turn_visible skips remains (plain c List.mem_cons_self).1]
      have noHash : p s.cur ≠ 35 := by
        rw [remains.2.1]
        exact fun hash => noComment (congrArg some hash)
      exact if_neg noHash

/-- A name or a key is scanned, with the white space behind it. -/
theorem leads_name {name : ConfigName} {gap : List Blank} (here : s.point = .nextLine)
    (remains : Remains p len s.cur (name.text ++ (gap.map Subtype.val ++ rest)))
    (separates : ∀ c ∈ rest.head?, c = 58 ∨ c = 61) :
    ∃ after, Leads (turn arrays p len) s after ∧ after.point = .keySpace ∧
      Remains p len after.cur rest ∧ after.key = name.text ∧ after.config = s.config := by
  have first : s.turn arrays p len = { s.read with point := .key, start := s.cur } :=
    turn_name here remains
  obtain ⟨named, leads, passed⟩ := leads_token (turn_key arrays p len) name.plain
    { s.read with point := .key, start := s.cur } rfl remains
  have cur : named.cur = s.cur + name.text.length := passed.cur
  have behind : Remains p len named.cur (gap.map Subtype.val ++ rest) := cur ▸ remains.drop
  obtain ⟨stopped, still, ended⟩ := turn_stop (turn_key arrays p len named passed.point) behind
    (stops_behind gap separates)
  have start : stopped.start = s.cur := still.start.trans passed.start
  have key : (keyEnd p stopped).key = name.text := by
    show textFrom p stopped.start stopped.cur = name.text
    rw [start, still.cur, cur]
    exact remains.textFrom
  have atGap : Remains p len (keyEnd p stopped).cur (gap.map Subtype.val ++ rest) := by
    show Remains p len stopped.cur _
    rw [still.cur]
    exact behind
  obtain ⟨after, skipped, gone⟩ := leads_blanks (turn_keySpace arrays p len) gap
    (keyEnd p stopped) rfl atGap
  refine ⟨after, Leads.head first (leads.trans (Leads.head ended skipped)), gone.point, ?_,
    gone.key.trans key, gone.config.trans (still.config.trans passed.config)⟩
  have atEnd := atGap.drop
  rw [List.length_map] at atEnd
  exact gone.cur ▸ atEnd

/-- A value is scanned, with the white space in front of it. -/
theorem leads_value {value : ConfigToken} {between : List Blank} {config : Config}
    (here : s.point = .valSpace)
    (remains : Remains p len s.cur (between.map Subtype.val ++ (value.text ++ rest)))
    (spaced : ∀ c ∈ rest.head?, isSpace c = true)
    (pushed : arrays.pushElem s.config s.key value.text = some config) :
    ∃ after, Leads (turn arrays p len) s after ∧ after.point = .nextLine ∧
      Remains p len after.cur rest ∧ after.config = config := by
  obtain ⟨opened, skipped, gone⟩ := leads_blanks (turn_valSpace arrays p len) between s here remains
  have atValue : Remains p len opened.cur (value.text ++ rest) := by
    have behind := remains.drop
    rw [List.length_map] at behind
    exact gone.cur ▸ behind
  have first : opened.turn arrays p len = valStart opened.read := by
    have skips := turn_valSpace arrays p len opened (gone.point.trans here)
    obtain ⟨text, nonempty, plain⟩ := value
    cases text with
    | nil => exact absurd rfl nonempty
    | cons c text => exact turn_visible skips atValue (plain c List.mem_cons_self).1
  obtain ⟨closed, leads, passed⟩ := leads_token (turn_val arrays p len) value.plain
    (valStart opened.read) rfl atValue
  have cur : closed.cur = opened.cur + value.text.length := passed.cur
  have atEnd : Remains p len closed.cur rest := cur ▸ atValue.drop
  obtain ⟨stopped, still, ended⟩ := turn_stop (turn_val arrays p len closed passed.point) atEnd
    (fun c member => Or.inl (spaced c member))
  have start : stopped.start = opened.cur := still.start.trans passed.start
  have text : textFrom p stopped.start stopped.cur = value.text := by
    rw [start, still.cur, cur]
    exact atValue.textFrom
  have taken : arrays.pushElem stopped.config stopped.key (textFrom p stopped.start stopped.cur) =
      some config := by
    have sameConfig : stopped.config = s.config :=
      still.config.trans (passed.config.trans gone.config)
    have sameKey : stopped.key = s.key := still.key.trans (passed.key.trans gone.key)
    rw [text, sameConfig, sameKey]
    exact pushed
  have last : element arrays p stopped =
      { stopped.copy with point := .nextLine, config := config } := by
    rw [element, taken]
  rw [last] at ended
  exact ⟨_, skipped.trans (Leads.head first (leads.trans (Leads.head ended (Leads.refl _)))), rfl,
    still.cur ▸ atEnd, rfl⟩

/-- A comment is passed up to its newline. -/
theorem leads_comment (newline : ∀ c ∈ rest.head?, c = 13 ∨ c = 10)
    (text : List { c : UInt8 // c ≠ 13 ∧ c ≠ 10 }) :
    ∀ s : Scanner Config, s.point = .comment →
      Remains p len s.cur (text.map Subtype.val ++ rest) →
      ∃ after, Leads (turn arrays p len) s after ∧ after.point = .nextLine ∧
        Remains p len after.cur rest ∧ after.config = s.config := by
  induction text with
  | nil =>
      intro s here remains
      have loop := turn_comment arrays p len s here
      cases rest with
      | nil =>
          have atEnd : ¬ s.cur < len := Nat.not_lt.mpr (Nat.le_of_eq remains.symm)
          rw [skipComment, if_neg atEnd] at loop
          exact ⟨_, Leads.head loop (Leads.refl _), rfl, remains, rfl⟩
      | cons c rest =>
          have atEnd : ¬ (p s.cur ≠ 13 ∧ p s.cur ≠ 10) := by
            rw [remains.2.1]
            rcases newline c rfl with isReturn | isFeed
            · exact fun other => other.1 isReturn
            · exact fun other => other.2 isFeed
          rw [skipComment, if_pos remains.1, if_neg atEnd] at loop
          exact ⟨_, Leads.head loop (Leads.refl _), rfl, remains, rfl⟩
  | cons c text inductionHypothesis =>
      intro s here remains
      obtain ⟨below, same, tail⟩ := remains
      have inside : p s.cur ≠ 13 ∧ p s.cur ≠ 10 := by
        rw [same]
        exact c.property
      have moved : s.turn arrays p len = { s.read with cur := s.cur + 1 } := by
        rw [turn_comment arrays p len s here, skipComment, if_pos below, if_pos inside]
      obtain ⟨after, leads, point, behind, config⟩ :=
        inductionHypothesis { s.read with cur := s.cur + 1 } here tail
      exact ⟨after, Leads.head moved leads, point, behind, config⟩

/-- A whole comment, from its `#` on. -/
theorem leads_hash (newline : ∀ c ∈ rest.head?, c = 13 ∨ c = 10)
    (text : List { c : UInt8 // c ≠ 13 ∧ c ≠ 10 }) (here : s.point = .nextLine)
    (remains : Remains p len s.cur (35 :: (text.map Subtype.val ++ rest))) :
    ∃ after, Leads (turn arrays p len) s after ∧ after.point = .nextLine ∧
      Remains p len after.cur rest ∧ after.config = s.config := by
  have hash : p s.cur = 35 := remains.2.1
  have first : s.turn arrays p len = { s.read with point := .comment } := by
    rw [turn_visible (turn_nextLine arrays p len s here) remains (by decide)]
    exact if_pos hash
  -- the loop over the comment starts at the `#`
  obtain ⟨after, leads, point, behind, same⟩ := leads_comment newline (⟨35, by decide⟩ :: text)
    { s.read with point := .comment } rfl remains
  exact ⟨after, Leads.head first leads, point, behind, same⟩

/-- A newline is white space. -/
theorem isSpace_newline (newline : Newline) : isSpace newline.val = true := by
  rcases newline.property with isReturn | isFeed
  · rw [isReturn]
    rfl
  · rw [isFeed]
    rfl

/-! ### Pieces and texts -/

/-- White space in front of a line. -/
theorem leads_blank {c : UInt8} (space : isSpace c = true) (here : s.point = .nextLine)
    (remains : Remains p len s.cur (c :: rest)) :
    ∃ after, Leads (turn arrays p len) s after ∧ after.point = .nextLine ∧
      Remains p len after.cur rest ∧ after.config = s.config := by
  obtain ⟨after, leads, passed⟩ :=
    leads_blanks (turn_nextLine arrays p len) [⟨c, space⟩] s here remains
  refine ⟨after, leads, passed.point.trans here, ?_, passed.config⟩
  rw [passed.cur]
  exact remains.2.2

theorem turn_colon {config : Config} (here : s.point = .keySpace)
    (remains : Remains p len s.cur (58 :: rest))
    (pushed : arrays.pushRegion s.config s.key = some config) :
    s.turn arrays p len =
      { s.read with point := .nextLine, cur := s.cur + 1, config := config } := by
  rw [turn_visible (turn_keySpace arrays p len s here) remains (by decide), separator]
  have colon : p s.read.cur = 58 := remains.2.1
  have taken : arrays.pushRegion s.read.config s.read.key = some config := pushed
  dsimp only
  rw [if_pos colon, taken]
  rfl

theorem turn_equals (here : s.point = .keySpace) (remains : Remains p len s.cur (61 :: rest)) :
    s.turn arrays p len = { s.read with point := .valSpace, cur := s.cur + 1 } := by
  rw [turn_visible (turn_keySpace arrays p len s here) remains (by decide), separator]
  have equals : p s.read.cur = 61 := remains.2.1
  have noColon : p s.read.cur ≠ 58 := by
    rw [equals]
    decide
  dsimp only
  rw [if_neg noColon, if_pos equals]
  rfl

/-- A key is scanned up to the `=`, and the `=`. -/
theorem leads_key {name : ConfigName} {gap : List Blank} (here : s.point = .nextLine)
    (remains : Remains p len s.cur (name.text ++ (gap.map Subtype.val ++ 61 :: rest))) :
    ∃ after, Leads (turn arrays p len) s after ∧ after.point = .valSpace ∧
      Remains p len after.cur rest ∧ after.key = name.text ∧ after.config = s.config := by
  have separates : ∀ c ∈ (61 :: rest).head?, c = 58 ∨ c = 61 :=
    fun c member => Or.inr (Option.some.inj member).symm
  obtain ⟨named, leads, point, atEquals, key, same⟩ := leads_name here remains separates
  have opened : named.turn arrays p len =
      { named.read with point := .valSpace, cur := named.cur + 1 } :=
    turn_equals point atEquals
  exact ⟨_, leads.trans (Leads.head opened (Leads.refl _)), rfl, atEquals.2.2, key, same⟩

/-- **The scanner passes a piece**, and does to the arrays what the piece says. -/
theorem leads_item (item : ConfigItem) {config : Config} (here : s.point = .nextLine)
    (remains : Remains p len s.cur (item.text ++ rest))
    (performed : item.perform arrays s.config = some config) :
    ∃ after, Leads (turn arrays p len) s after ∧ after.point = .nextLine ∧
      Remains p len after.cur rest ∧ after.config = config := by
  cases item with
  | blank c =>
      cases Option.some.inj performed
      exact leads_blank c.property here remains
  | comment text newline =>
      cases Option.some.inj performed
      rw [ConfigItem.text, List.cons_append, List.append_assoc] at remains
      have ends : ∀ c ∈ (newline.val :: rest).head?, c = 13 ∨ c = 10 :=
        fun c member => Option.some.inj member ▸ newline.property
      obtain ⟨closed, leads, point, atEnd, same⟩ := leads_hash ends text here remains
      obtain ⟨after, skipped, next, rests, kept⟩ :=
        leads_blank (isSpace_newline newline) point atEnd
      exact ⟨after, leads.trans skipped, next, rests, kept.trans same⟩
  | header name gap =>
      rw [ConfigItem.text, List.append_assoc, List.append_assoc] at remains
      have separates : ∀ c ∈ (58 :: rest).head?, c = 58 ∨ c = 61 :=
        fun c member => Or.inl (Option.some.inj member).symm
      obtain ⟨named, leads, point, atColon, key, same⟩ := leads_name here remains separates
      have pushed : arrays.pushRegion named.config named.key = some config := by
        rw [same, key]
        exact performed
      exact ⟨_, leads.trans (Leads.head (turn_colon point atColon pushed) (Leads.refl _)), rfl,
        atColon.2.2, rfl⟩
  | entry pair gap between behind =>
      simp only [ConfigItem.text, List.append_assoc, List.cons_append, List.nil_append] at remains
      obtain ⟨opened, leads, point, atSpace, key, same⟩ := leads_key here remains
      have pushed : arrays.pushElem opened.config opened.key pair.value.text = some config := by
        rw [same, key]
        exact performed
      have spaced : ∀ c ∈ (behind.val :: rest).head?, isSpace c = true :=
        fun c member => Option.some.inj member ▸ behind.property
      obtain ⟨closed, valued, next, atBlank, holds⟩ := leads_value point atSpace spaced pushed
      obtain ⟨after, skipped, last, rests, kept⟩ := leads_blank behind.property next atBlank
      exact ⟨after, leads.trans (valued.trans skipped), last, rests, kept.trans holds⟩

end Scanner

end SimpleDfs.Common
