import Mathlib.Data.List.Basic
import Mathlib.Order.Lattice
import Mathlib.Tactic.Common
import SimpleDfs.Library.Turns

/-!
Contract: the scanning loop of `s_config_create` (`common/s_config.c`).

Owns: the scanner, one test of a loop at a time, and that it ends inside the
text whatever the text is.

Does not own: the arrays the regions are kept in, or the file the text is from.
-/

set_option autoImplicit false

namespace SimpleDfs.Common

open Library

universe u

/-- Where the scanner stands: at `label_next_line`, in the loop over a comment,
in `check_key_val` of a key or a value, in `skip_space` behind a key or a `=`,
or at one of the labels it ends at. -/
inductive ScanPoint where
  | nextLine
  | comment
  | key
  | keySpace
  | valSpace
  | val
  | eof
  | error
  deriving DecidableEq, Repr

/-- The scanner. `start` is `key_start` or `val_start`, and `reads` the indices
of the text it has read at; an index that one turn tests more than once stands
there once. -/
structure Scanner (Config : Type u) where
  point : ScanPoint
  cur : Nat
  start : Nat
  key : List UInt8
  config : Config
  reads : List Nat

/-- What the scanner does to the arrays: a new region with a name, and a new
element of the last region. There is none if `s_array_push` or `s_array_create`
returns a null pointer. -/
structure ConfigArrays (Config : Type u) where
  pushRegion : Config → List UInt8 → Option Config
  pushElem : Config → List UInt8 → List UInt8 → Option Config

/-- `isspace`; `char` is signed, and no negative character is white space. -/
def isSpace (c : UInt8) : Bool :=
  c == 32 || (9 ≤ c && c ≤ 13)

/-- The bytes that `s_string_create_len` copies. -/
def textFrom (p : Nat → UInt8) (start cur : Nat) : List UInt8 :=
  (List.range (cur - start)).map fun i => p (start + i)

namespace Scanner

variable {Config : Type u}

/-- `p[cur]` is read. -/
def read (s : Scanner Config) : Scanner Config :=
  { s with reads := s.cur :: s.reads }

/-- The bytes from `start` on are read. -/
def copy (s : Scanner Config) : Scanner Config :=
  { s with reads := (List.range (s.cur - s.start)).map (s.start + ·) ++ s.reads }

/-- One test of `skip_space`, and what stands behind it. -/
def skipSpace (p : Nat → UInt8) (len : Nat) (s : Scanner Config)
    (behind : Scanner Config → Scanner Config) : Scanner Config :=
  if s.cur < len then
    if isSpace (p s.cur) then { s.read with cur := s.cur + 1 } else behind s.read
  else { s with point := .eof }

/-- One test of `check_key_val`, and what stands behind it. -/
def checkKeyVal (p : Nat → UInt8) (len : Nat) (s : Scanner Config)
    (behind : Scanner Config → Scanner Config) : Scanner Config :=
  if s.cur < len then
    if !isSpace (p s.cur) && p s.cur != 58 && p s.cur != 61 then { s.read with cur := s.cur + 1 }
    else behind s.read
  else behind s

/-- `#` starts a comment, everything else a key. -/
def line (p : Nat → UInt8) (s : Scanner Config) : Scanner Config :=
  if p s.cur = 35 then { s with point := .comment }
  else { s with point := .key, start := s.cur }

/-- One test of the loop over a comment. -/
def skipComment (p : Nat → UInt8) (len : Nat) (s : Scanner Config) : Scanner Config :=
  if s.cur < len then
    if p s.cur ≠ 13 ∧ p s.cur ≠ 10 then { s.read with cur := s.cur + 1 }
    else { s.read with point := .nextLine }
  else { s with point := .nextLine }

/-- The end of a name or a key. -/
def keyEnd (p : Nat → UInt8) (s : Scanner Config) : Scanner Config :=
  { s.copy with point := .keySpace, key := textFrom p s.start s.cur }

/-- `: or =`. -/
def separator (arrays : ConfigArrays Config) (p : Nat → UInt8) (s : Scanner Config) :
    Scanner Config :=
  let tmp := p s.cur
  let s := { s with cur := s.cur + 1 }
  if tmp = 58 then
    match arrays.pushRegion s.config s.key with
    | none => { s with point := .error }
    | some config => { s with point := .nextLine, config := config }
  else if tmp = 61 then { s with point := .valSpace }
  else { s with point := .error }

/-- The start of a value. -/
def valStart (s : Scanner Config) : Scanner Config :=
  { s with point := .val, start := s.cur }

/-- The end of a value. -/
def element (arrays : ConfigArrays Config) (p : Nat → UInt8) (s : Scanner Config) :
    Scanner Config :=
  match arrays.pushElem s.config s.key (textFrom p s.start s.cur) with
  | none => { s.copy with point := .error }
  | some config => { s.copy with point := .nextLine, config := config }

/-- One turn of the scanner on the `len` bytes at `p`. -/
def turn (arrays : ConfigArrays Config) (p : Nat → UInt8) (len : Nat) (s : Scanner Config) :
    Scanner Config :=
  match s.point with
  | .nextLine => s.skipSpace p len (line p)
  | .comment => s.skipComment p len
  | .key => s.checkKeyVal p len (keyEnd p)
  | .keySpace => s.skipSpace p len (separator arrays p)
  | .valSpace => s.skipSpace p len valStart
  | .val => s.checkKeyVal p len (element arrays p)
  | .eof => s
  | .error => s

/-- The scanner in front of the text. -/
def atStart (config : Config) : Scanner Config where
  point := .nextLine
  cur := 0
  start := 0
  key := []
  config := config
  reads := []

/-! ## The scanner stays inside the text -/

/-- Everything read lies in the text, and so does the token that is scanned. -/
structure Inside (len : Nat) (s : Scanner Config) : Prop where
  upper : s.cur ≤ len
  token : s.start ≤ s.cur
  reads : ∀ i ∈ s.reads, i < len

variable {arrays : ConfigArrays Config} {p : Nat → UInt8} {len : Nat} {s : Scanner Config}

theorem inside_atStart (len : Nat) (config : Config) : Inside len (atStart config) :=
  ⟨Nat.zero_le len, le_rfl, fun _ member => absurd member List.not_mem_nil⟩

theorem Inside.read (inside : Inside len s) (below : s.cur < len) : Inside len s.read := by
  refine ⟨inside.upper, inside.token, fun i member => ?_⟩
  rcases List.mem_cons.mp member with here | before
  · rw [here]
    exact below
  · exact inside.reads i before

theorem Inside.copy (inside : Inside len s) : Inside len s.copy := by
  refine ⟨inside.upper, inside.token, fun i member => ?_⟩
  rcases List.mem_append.mp member with copied | before
  · obtain ⟨offset, below, rfl⟩ := List.mem_map.mp copied
    have upper := inside.upper
    have := List.mem_range.mp below
    omega
  · exact inside.reads i before

/-- The scanner goes to the next byte. -/
theorem Inside.advance (inside : Inside len s) (below : s.cur < len) :
    Inside len { s with cur := s.cur + 1 } :=
  ⟨below, inside.token.trans (Nat.le_succ _), inside.reads⟩

/-- The scanner goes on at the same byte. -/
theorem Inside.goTo (inside : Inside len s) (point : ScanPoint) :
    Inside len { s with point := point } :=
  ⟨inside.upper, inside.token, inside.reads⟩

theorem Inside.skipSpace (inside : Inside len s) {behind : Scanner Config → Scanner Config}
    (next : ∀ {s : Scanner Config}, Inside len s → s.cur < len → Inside len (behind s)) :
    Inside len (s.skipSpace p len behind) := by
  unfold Scanner.skipSpace
  split
  next below =>
    split
    · exact (inside.read below).advance below
    · exact next (inside.read below) below
  next => exact inside.goTo .eof

theorem Inside.checkKeyVal (inside : Inside len s) {behind : Scanner Config → Scanner Config}
    (next : ∀ {s : Scanner Config}, Inside len s → Inside len (behind s)) :
    Inside len (s.checkKeyVal p len behind) := by
  unfold Scanner.checkKeyVal
  split
  next below =>
    split
    · exact (inside.read below).advance below
    · exact next (inside.read below)
  next => exact next inside

theorem Inside.skipComment (inside : Inside len s) : Inside len (s.skipComment p len) := by
  unfold Scanner.skipComment
  split
  next below =>
    split
    · exact (inside.read below).advance below
    · exact (inside.read below).goTo .nextLine
  next => exact inside.goTo .nextLine

theorem Inside.separator (inside : Inside len s) (below : s.cur < len) :
    Inside len (s.separator arrays p) := by
  have passed := inside.advance below
  unfold Scanner.separator
  dsimp only
  split
  · split
    · exact passed.goTo .error
    · exact ⟨passed.upper, passed.token, passed.reads⟩
  · split
    · exact passed.goTo .valSpace
    · exact passed.goTo .error

/-- **Every turn stays inside the text.** -/
theorem Inside.turn (inside : Inside len s) : Inside len (s.turn arrays p len) := by
  unfold Scanner.turn
  split
  · refine inside.skipSpace fun {s} inside _ => ?_
    unfold line
    split
    · exact inside.goTo .comment
    · exact ⟨inside.upper, le_rfl, inside.reads⟩
  · exact inside.skipComment
  · refine inside.checkKeyVal fun {s} inside => ?_
    exact ⟨inside.upper, inside.token, inside.copy.reads⟩
  · exact inside.skipSpace fun inside below => inside.separator below
  · refine inside.skipSpace fun {s} inside _ => ?_
    exact ⟨inside.upper, le_rfl, inside.reads⟩
  · refine inside.checkKeyVal fun {s} inside => ?_
    unfold element
    split
    · exact inside.copy.goTo .error
    · exact ⟨inside.upper, inside.token, inside.copy.reads⟩
  · exact inside
  · exact inside

/-! ## The scanner comes to an end -/

/-- What is to be done at a point before the next byte is taken. A comment that
is at its end still has its line before it. -/
def rank (p : Nat → UInt8) (len : Nat) (s : Scanner Config) : Nat :=
  match s.point with
  | .valSpace => 6
  | .val => 5
  | .nextLine => 4
  | .key => 3
  | .keySpace => 2
  | .comment => if s.cur < len ∧ p s.cur ≠ 13 ∧ p s.cur ≠ 10 then 2 else 5
  | .eof => 0
  | .error => 0

/-- What is left to do. -/
def left (p : Nat → UInt8) (len : Nat) (s : Scanner Config) : Nat :=
  8 * (len - s.cur) + rank p len s

/-- The scanner has left the loop. -/
def Ended (s : Scanner Config) : Prop :=
  s.point = .eof ∨ s.point = .error

theorem rank_le (p : Nat → UInt8) (len : Nat) (s : Scanner Config) : rank p len s ≤ 6 := by
  unfold rank
  split
  · exact le_rfl
  · decide
  · decide
  · decide
  · decide
  · split
    · decide
    · decide
  · decide
  · decide

/-- A byte is taken. -/
theorem left_of_advance {after : Scanner Config} (below : s.cur < len)
    (advanced : after.cur = s.cur + 1) : left p len after < 8 * (len - s.cur) := by
  have small := rank_le p len after
  unfold left
  rw [advanced]
  omega

/-- No byte is taken, but the point changes for one with less to do. -/
theorem left_of_rank {after : Scanner Config} (stays : after.cur = s.cur)
    (less : rank p len after < rank p len s) : left p len after < left p len s := by
  unfold left
  rw [stays]
  omega

theorem left_ge (p : Nat → UInt8) (len : Nat) (s : Scanner Config) :
    8 * (len - s.cur) ≤ left p len s :=
  Nat.le_add_right _ _

theorem left_skipSpace {behind : Scanner Config → Scanner Config} (positive : 0 < rank p len s)
    (next : s.cur < len → left p len (behind s.read) < left p len s) :
    left p len (s.skipSpace p len behind) < left p len s := by
  unfold skipSpace
  split
  next below =>
    split
    · exact (left_of_advance below rfl).trans_le (left_ge p len s)
    · exact next below
  next => exact left_of_rank rfl positive

theorem left_checkKeyVal {behind : Scanner Config → Scanner Config}
    (next : ∀ after : Scanner Config, after.cur = s.cur →
      left p len (behind after) < left p len s) :
    left p len (s.checkKeyVal p len behind) < left p len s := by
  unfold checkKeyVal
  split
  next below =>
    split
    · exact (left_of_advance below rfl).trans_le (left_ge p len s)
    · exact next s.read rfl
  next => exact next s rfl

/-- A line is begun: the loop over a comment takes its `#`, which ends no line. -/
theorem left_line (point : s.point = .nextLine) (below : s.cur < len) :
    left p len (line p s.read) < left p len s := by
  have here : rank p len s = 4 := by rw [rank, point]
  unfold line
  split
  next hash =>
    have same : p s.cur = 35 := hash
    have noEnd : p s.cur ≠ 13 ∧ p s.cur ≠ 10 := by
      rw [same]
      decide
    have taken : rank p len { s.read with point := .comment } = 2 := if_pos ⟨below, noEnd⟩
    refine left_of_rank rfl ?_
    rw [here, taken]
    decide
  next =>
    refine left_of_rank rfl ?_
    rw [here]
    exact (by decide : 3 < 4)

/-- A comment that is at its end leaves its line. -/
theorem left_of_commentEnd {after : Scanner Config} (point : s.point = .comment)
    (atEnd : ¬ (s.cur < len ∧ p s.cur ≠ 13 ∧ p s.cur ≠ 10)) (stays : after.cur = s.cur)
    (next : after.point = .nextLine) : left p len after < left p len s := by
  have here : rank p len s = 5 := by
    rw [rank, point]
    exact if_neg atEnd
  have there : rank p len after = 4 := by rw [rank, next]
  refine left_of_rank stays ?_
  rw [here, there]
  decide

theorem left_skipComment (point : s.point = .comment) :
    left p len (s.skipComment p len) < left p len s := by
  unfold skipComment
  split
  next below =>
    split
    next => exact (left_of_advance below rfl).trans_le (left_ge p len s)
    next atEnd => exact left_of_commentEnd point (fun inside => atEnd inside.2) rfl rfl
  next atEnd => exact left_of_commentEnd point (fun inside => atEnd inside.1) rfl rfl

/-- The byte behind a name is taken, whatever it is. -/
theorem separator_cur (s : Scanner Config) : (s.separator arrays p).cur = s.cur + 1 := by
  unfold separator
  dsimp only
  split
  · split <;> rfl
  · split <;> rfl

/-- **Every turn but the last leaves less to do.** -/
theorem left_turn (running : ¬ Ended s) : left p len (s.turn arrays p len) < left p len s := by
  cases point : s.point with
  | nextLine =>
      have here : rank p len s = 4 := by rw [rank, point]
      rw [turn, point]
      exact left_skipSpace (by omega) fun below => left_line point below
  | comment =>
      rw [turn, point]
      exact left_skipComment point
  | key =>
      have here : rank p len s = 3 := by rw [rank, point]
      rw [turn, point]
      refine left_checkKeyVal fun after stays => left_of_rank stays ?_
      rw [here]
      exact (by decide : 2 < 3)
  | keySpace =>
      have here : rank p len s = 2 := by rw [rank, point]
      rw [turn, point]
      refine left_skipSpace (by omega) fun below => ?_
      exact (left_of_advance below (separator_cur s.read)).trans_le (left_ge p len s)
  | valSpace =>
      have here : rank p len s = 6 := by rw [rank, point]
      rw [turn, point]
      refine left_skipSpace (by omega) fun _ => left_of_rank rfl ?_
      rw [here]
      exact (by decide : 5 < 6)
  | val =>
      have here : rank p len s = 5 := by rw [rank, point]
      rw [turn, point]
      refine left_checkKeyVal fun after stays => ?_
      unfold element
      split
      · refine left_of_rank stays ?_
        rw [here]
        exact (by decide : 0 < 5)
      · refine left_of_rank stays ?_
        rw [here]
        exact (by decide : 4 < 5)
  | eof => exact absurd (Or.inl point) running
  | error => exact absurd (Or.inr point) running

theorem turn_of_ended (ended : Ended s) : s.turn arrays p len = s := by
  rcases ended with point | point
  · rw [turn, point]
  · rw [turn, point]

/-- More turns than the text needs. -/
def enough (len : Nat) : Nat := 8 * len + 6

theorem ended_enough (arrays : ConfigArrays Config) (p : Nat → UInt8) (len : Nat)
    (config : Config) : Ended ((turn arrays p len)^[enough len] (atStart config)) := by
  by_contra running
  have falls : ∀ s : Scanner Config, turn arrays p len s ≠ s →
      left p len (turn arrays p len s) < left p len s :=
    fun s moves => left_turn fun ended => moves (turn_of_ended ended)
  have small : left p len (atStart config) ≤ enough len :=
    Nat.add_le_add_left (rank_le p len _) _
  have fixed := ends_of_measure (left p len) falls (enough len) (atStart config) small
  have less := @left_turn _ arrays p len _ running
  rw [fixed] at less
  exact lt_irrefl _ less

/-- **The scanner reads inside the text only and comes to an end**, for every
text, whatever becomes of the arrays. -/
theorem scan_ends_inside (arrays : ConfigArrays Config) (p : Nat → UInt8) (len : Nat)
    (config : Config) :
    (∀ count, ∀ i ∈ ((turn arrays p len)^[count] (atStart config)).reads, i < len) ∧
      ∃ count, Ended ((turn arrays p len)^[count] (atStart config)) := by
  refine ⟨fun count => ?_, enough len, ended_enough arrays p len config⟩
  have inside : Inside len ((turn arrays p len)^[count] (atStart config)) :=
    Function.Iterate.rec (Inside len) (inside_atStart len config) (fun _ inside => inside.turn)
      count
  exact inside.reads

end Scanner

end SimpleDfs.Common
