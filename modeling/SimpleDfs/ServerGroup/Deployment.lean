import SimpleDfs.Common.ConfigReads
import SimpleDfs.Common.StringEqual
import SimpleDfs.ServerGroup.ConfigQueries

/-!
Contract: configuration files that describe servers, and the start of a server from
one (`server/s_main.c`, `s_config_create`, `s_servg_init_config`).

Owns: descriptions of servers and their documents, the start from the bytes of a
file, and that it reads back from every rendering of a document the settings and
servers that were described.

Does not own: what the group makes of its servers.
-/

set_option autoImplicit false

namespace SimpleDfs.ServerGroup

open SimpleDfs.Common
open SimpleDfs.Library
open Wire (Abi)

/-! ## Numbers -/

/-- The bytes of a numeral. -/
def numeralText (number : Int) : List UInt8 :=
  (numeral number).map UInt8.ofNat

theorem digit_of_mem_numeral {number : Int} {c : Nat} (member : c ∈ numeral number) :
    c = 45 ∨ 48 ≤ c ∧ c ≤ 57 := by
  have digit : ∀ c ∈ decimal number.natAbs, 48 ≤ c ∧ c ≤ 57 := by
    intro c member
    have digit := Paxos.isDigit_decimal _ c member
    simp only [Paxos.isDigit, Bool.and_eq_true, decide_eq_true_eq] at digit
    exact digit
  rcases Int.lt_or_le number 0 with negative | nonneg
  · have same : (-number).toNat = number.natAbs := by omega
    rw [numeral_of_neg negative, same] at member
    exact (List.mem_cons.mp member).imp_right (digit c)
  · have same : number.toNat = number.natAbs := by omega
    rw [numeral_of_nonneg nonneg, same] at member
    exact Or.inr (digit c member)

theorem toNat_numeralText (number : Int) :
    (numeralText number).map UInt8.toNat = numeral number := by
  unfold numeralText
  rw [List.map_map]
  conv_rhs => rw [← List.map_id (numeral number)]
  apply List.map_congr_left
  intro c member
  have small : c < 256 := by
    rcases digit_of_mem_numeral member with minus | digit <;> omega
  exact UInt8.toNat_ofNat_of_lt small

theorem atoiText_numeralText {number : Int} (lower : -2 ^ 31 ≤ number) (upper : number < 2 ^ 31) :
    atoiText (numeralText number) = number := by
  rw [atoiText, toNat_numeralText, Paxos.atoi_numeral lower upper]

theorem mem_numeralText {number : Int} {c : UInt8} (member : c ∈ numeralText number) :
    c = 45 ∨ 48 ≤ c.toNat ∧ c.toNat ≤ 57 := by
  have char : c.toNat ∈ numeral number := by
    rw [← toNat_numeralText]
    exact List.mem_map_of_mem member
  refine (digit_of_mem_numeral char).imp_left fun minus => ?_
  exact UInt8.toNat_inj.mp minus

theorem decimal_ne_nil (number : Nat) : decimal number ≠ [] := by
  rcases Nat.lt_or_ge number 10 with single | more
  · rw [decimal_of_lt single]
    exact List.cons_ne_nil _ _
  · rw [decimal_of_ge more]
    exact List.append_ne_nil_of_right_ne_nil _ (List.cons_ne_nil _ _)

theorem numeralText_ne_nil (number : Int) : numeralText number ≠ [] := by
  intro empty
  have none : numeral number = [] := by rw [← toNat_numeralText, empty, List.map_nil]
  rcases Int.lt_or_le number 0 with negative | nonneg
  · rw [numeral_of_neg negative] at none
    cases none
  · rw [numeral_of_nonneg nonneg] at none
    exact decimal_ne_nil _ none

/-- No numeral has white space, a separator or a zero. -/
theorem visible_of_mem_numeralText {number : Int} {c : UInt8} (member : c ∈ numeralText number) :
    (isSpace c = false ∧ c ≠ 58 ∧ c ≠ 61) ∧ c ≠ 0 := by
  rcases mem_numeralText member with rfl | ⟨lower, upper⟩
  · decide
  · have other : ∀ d : UInt8, d.toNat < 48 ∨ 57 < d.toNat → c ≠ d := by
      rintro d outside rfl
      omega
    refine ⟨⟨?_, other 58 (Or.inr (by decide)), other 61 (Or.inr (by decide))⟩,
      other 0 (Or.inl (by decide))⟩
    simp only [isSpace, Bool.or_eq_false_iff, beq_eq_false_iff_ne, Bool.and_eq_false_iff,
      decide_eq_false_iff_not, UInt8.le_iff_toNat_le]
    refine ⟨other 32 (Or.inl (by decide)), Or.inr ?_⟩
    change ¬ c.toNat ≤ 13
    omega

/-- A number as a value. -/
def numberToken (number : Int) : ConfigToken where
  text := numeralText number
  nonempty := numeralText_ne_nil number
  plain := fun _ member => (visible_of_mem_numeralText member).1

/-! ## Servers -/

inductive ServerKind where
  | mserver
  | dserver
  | client
  deriving DecidableEq, Repr

def ServerKind.type : ServerKind → Int
  | .mserver => 1
  | .dserver => 2
  | .client => 3

def ServerKind.name : ServerKind → List UInt8
  | .mserver => mserverName
  | .dserver => dserverName
  | .client => clientName

theorem ServerKind.valid (kind : ServerKind) : ServGroup.validType kind.type = true := by
  cases kind <;> rfl

theorem ServerKind.type_inj {first second : ServerKind} (same : first.type = second.type) :
    first = second := by
  cases first <;> cases second <;> first | rfl | cases same

/-- An entry whose key is a string. -/
abbrev ShortEntry := { entry : ConfigEntry // entry.key.text.length < 2 ^ 31 }

/-- A server as a configuration describes it: `mserver-1`, with any character between
the kind and the id, its `ip` and `port`, and entries that nothing here reads. -/
structure Server where
  kind : ServerKind
  separator : UInt8
  plain : isSpace separator = false ∧ separator ≠ 58 ∧ separator ≠ 61
  visible : separator ≠ 0
  id : Nat
  positive : 0 < id
  small : id < 2 ^ 31
  ip : ConfigToken
  port : Int
  isInt : -2 ^ 31 ≤ port ∧ port < 2 ^ 31
  others : List ShortEntry

/-- The text has neither white space nor separators. -/
def plainText (text : List UInt8) : Bool :=
  text.all fun c => !isSpace c && c != 58 && c != 61

theorem plain_of_plainText {text : List UInt8} (plain : plainText text = true) :
    ∀ c ∈ text, isSpace c = false ∧ c ≠ 58 ∧ c ≠ 61 := by
  intro c member
  have atChar := List.all_eq_true.mp plain c member
  simp only [Bool.and_eq_true, Bool.not_eq_true', bne_iff_ne] at atChar
  exact ⟨atChar.1.1, atChar.1.2, atChar.2⟩

theorem ServerKind.visible_name (kind : ServerKind) : ∀ c ∈ kind.name,
    (isSpace c = false ∧ c ≠ 58 ∧ c ≠ 61) ∧ c ≠ 0 := by
  have plain : plainText kind.name = true := by cases kind <;> rfl
  have noZero : (0 : UInt8) ∉ kind.name := by cases kind <;> decide
  intro c member
  refine ⟨plain_of_plainText plain c member, ?_⟩
  rintro rfl
  exact noZero member

/-- The name of the region of a server. -/
def Server.nameText (server : Server) : List UInt8 :=
  server.kind.name ++ server.separator :: numeralText server.id

theorem Server.visible_name (server : Server) : ∀ c ∈ server.nameText,
    (isSpace c = false ∧ c ≠ 58 ∧ c ≠ 61) ∧ c ≠ 0 := by
  intro c member
  rcases List.mem_append.mp member with kind | member
  · exact server.kind.visible_name c kind
  · rcases List.mem_cons.mp member with rfl | number
    · exact ⟨server.plain, server.visible⟩
    · exact visible_of_mem_numeralText number

def Server.name (server : Server) : ConfigName where
  text := server.nameText
  nonempty := by
    unfold Server.nameText
    exact List.append_ne_nil_of_right_ne_nil _ (List.cons_ne_nil _ _)
  plain := fun c member => (server.visible_name c member).1
  noComment := by
    unfold Server.nameText
    cases server.kind with
    | mserver => exact (show some (109 : UInt8) ≠ some 35 by decide)
    | dserver => exact (show some (100 : UInt8) ≠ some 35 by decide)
    | client => exact (show some (99 : UInt8) ≠ some 35 by decide)

/-- `"ip"`. -/
def ipName : ConfigName :=
  ⟨⟨ipKey.data, by decide, plain_of_plainText rfl⟩, by decide⟩

/-- `"port"`. -/
def portName : ConfigName :=
  ⟨⟨portKey.data, by decide, plain_of_plainText rfl⟩, by decide⟩

/-- The region of a server in a document. -/
def Server.section (server : Server) : ConfigSection where
  name := server.name
  entries := ⟨ipName, server.ip⟩ :: ⟨portName, numberToken server.port⟩ ::
    server.others.map Subtype.val

/-- What the server group is to know of a server. -/
def Server.region (server : Server) : Region where
  type := server.kind.type
  id := server.id
  ip := some (cString server.ip.text)
  port := server.port
  valid := server.kind.valid

theorem length_decimal_le (number : Nat) : (decimal number).length ≤ number / 2 + 1 := by
  induction number using Nat.strong_induction_on with
  | _ number inductionHypothesis =>
      rcases Nat.lt_or_ge number 10 with single | more
      · rw [decimal_of_lt single, List.length_singleton]
        exact Nat.le_add_left 1 _
      · have high := inductionHypothesis (number / 10) (by omega)
        rw [decimal_of_ge more, List.length_append, List.length_singleton]
        omega

theorem Server.length_nameText (server : Server) : server.nameText.length < 2 ^ 31 := by
  have digits : (numeralText server.id).length ≤ server.id / 2 + 1 := by
    rw [numeralText, List.length_map, numeral_of_nonneg (Int.natCast_nonneg _)]
    exact length_decimal_le _
  have kind : server.kind.name.length ≤ 7 := by
    cases server.kind <;> decide
  have small := server.small
  rw [Server.nameText, List.length_append, List.length_cons]
  omega

def Server.key (server : Server) : SString :=
  ⟨server.nameText, server.length_nameText⟩

/-- The tests find the kind that the name starts with, and no other. -/
theorem parseServName_nameText (kind : ServerKind) (separator : UInt8) {digits : List UInt8}
    (some : 0 < digits.length) :
    parseServName (kind.name ++ separator :: digits) =
      { type := kind.type, id := atoiText digits, valid := kind.valid } := by
  have long : kind.name.length + 1 < (kind.name ++ separator :: digits).length := by
    rw [List.length_append, List.length_cons]
    omega
  unfold parseServName
  dsimp only
  cases kind with
  | mserver =>
      rw [if_neg fun both => Bool.false_ne_true both.2, if_neg fun both => Bool.false_ne_true both.2,
        if_pos ⟨long, rfl⟩]
      rfl
  | dserver =>
      rw [if_neg fun both => Bool.false_ne_true both.2, if_pos ⟨long, rfl⟩]
      rfl
  | client =>
      rw [if_pos ⟨long, rfl⟩]
      rfl

/-- **The name of a server is read as its kind and id.** -/
theorem Server.parsed (server : Server) :
    iparseConfigServTypeId server.nameText =
      some { type := server.kind.type, id := server.id, valid := server.kind.valid } := by
  have whole : server.nameText.takeWhile (fun c => c != 0) = server.nameText := by
    rw [List.takeWhile_eq_self_iff]
    exact fun c member => bne_iff_ne.mpr (server.visible_name c member).2
  have digits := List.length_pos_of_ne_nil (numeralText_ne_nil server.id)
  have number : atoiText (numeralText server.id) = server.id :=
    atoiText_numeralText (by omega) (by have := server.small; omega)
  have positive : (0 : Int) < server.id := Int.natCast_pos.mpr server.positive
  unfold iparseConfigServTypeId
  rw [whole]
  have named : parseServName server.nameText =
      { type := server.kind.type, id := server.id, valid := server.kind.valid } := by
    rw [Server.nameText, parseServName_nameText server.kind server.separator digits, number]
  rw [named]
  exact if_pos positive

/-- Names that are taken for equal are those of one server. -/
theorem Server.same_of_equal {first second : Server}
    (equal : sStringEqual first.key second.key = true) :
    first.kind = second.kind ∧ first.id = second.id := by
  obtain ⟨length, _, compared⟩ := sStringEqual_iff.mp equal
  have text : first.nameText = second.nameText := by
    rcases (strncmpZero_iff length).mp compared with same | ⟨front, rest, _, early, _⟩
    · exact same
    · exact absurd rfl (first.visible_name 0 (by
        change 0 ∈ first.key.data
        rw [early]
        exact List.mem_append_right _ List.mem_cons_self)).2
  have parsed := first.parsed
  rw [text, second.parsed] at parsed
  have same := Option.some.inj parsed
  refine ⟨ServerKind.type_inj (congrArg ServName.type same).symm, ?_⟩
  exact Int.natCast_inj.mp (congrArg ServName.id same).symm

/-! ## Deployments -/

/-- What a configuration file is to say: the settings, entries that nothing here reads,
and servers with distinct kinds and ids. -/
structure Deployment where
  settings : GroupSettings
  timeover : 0 < settings.secForTimeover ∧ settings.secForTimeover < 2 ^ 31
  pingpong : 0 < settings.secForPingpong ∧ settings.secForPingpong < 2 ^ 31
  reconnect : 0 < settings.secForReconnect ∧ settings.secForReconnect < 2 ^ 31
  pwd : 0 ≤ settings.ipcPwd ∧ settings.ipcPwd < 2 ^ 31
  others : List ShortEntry
  servers : List Server
  distinct : (servers.map fun server => (server.kind, server.id)).Nodup

def settingName (key : SString)
    (plain : key.data ≠ [] ∧ plainText key.data = true ∧ key.data.head? ≠ some 35) : ConfigName :=
  ⟨⟨key.data, plain.1, plain_of_plainText plain.2.1⟩, plain.2.2⟩

/-- The entries in front of the first region. -/
def Deployment.entries (deployment : Deployment) : List ConfigEntry :=
  ⟨settingName secForTimeoverKey (by decide), numberToken deployment.settings.secForTimeover⟩ ::
    ⟨settingName secForPingpongKey (by decide), numberToken deployment.settings.secForPingpong⟩ ::
    ⟨settingName secForReconnectKey (by decide),
      numberToken deployment.settings.secForReconnect⟩ ::
    ⟨settingName ipcPwdKey (by decide), numberToken deployment.settings.ipcPwd⟩ ::
    deployment.others.map Subtype.val

def Deployment.document (deployment : Deployment) : ConfigDocument where
  entries := deployment.entries
  regions := deployment.servers.map Server.section

/-- The configuration of the group of one of the servers, or of another one. -/
def Deployment.group (deployment : Deployment) (type id : Int) : GroupConfig where
  id := id
  type := type
  ipcPwd := BitVec.ofInt 32 deployment.settings.ipcPwd
  regions := deployment.servers.map Server.region

/-! ## The start from a file -/

/-- A string of the configuration; none is too long for the file. -/
def keyOf (text : List UInt8) : Option SString :=
  if bounded : text.length < 2 ^ 31 then some ⟨text, bounded⟩ else none

def keyRegion (region : RegionText) : Option KeyedRegion := do
  let key ← keyOf region.1
  let elems ← region.2.mapM fun pair => (keyOf pair.1).map fun key => (key, pair.2)
  return { key := key, elems := elems }

/-- `main` behind `s_config_create`, up to `s_servg_init_config`. -/
def startFrom (junk : ServAddr → SServer) (listens : Int → Bool) (type id : Int) (stray : Nat) :
    Option SConfig → Option (Option (GroupSettings × ServGroup))
  | none => some none
  | some config => (config.contents.mapM keyRegion).bind fun regions =>
      sServgInitConfigFrom junk listens type id (openConfig regions stray)

/-- `main` up to `s_servg_init_config`: the inner `none` is a start that is given up,
the outer one stands where C does not say what becomes of the program. -/
def startGroup (abi : Abi) (junk : ServAddr → SServer) (listens : Int → Bool) (type id : Int)
    (stray : Nat) (file : List UInt8) : Option (Option (GroupSettings × ServGroup)) :=
  (sConfigCreate abi file).bind (startFrom junk listens type id stray)

/-! ## What is read of a deployment -/

/-- An entry with its key as a string. -/
def keyedEntry (entry : ShortEntry) : SString × List UInt8 :=
  (⟨entry.1.key.text, entry.2⟩, entry.1.value.text)

def Server.keyed (server : Server) : KeyedRegion where
  key := server.key
  elems := (ipKey, server.ip.text) :: (portKey, numeralText server.port) ::
    server.others.map keyedEntry

def Deployment.keyedDefault (deployment : Deployment) : KeyedRegion where
  key := defaultKey
  elems :=
    (secForTimeoverKey, numeralText deployment.settings.secForTimeover) ::
      (secForPingpongKey, numeralText deployment.settings.secForPingpong) ::
      (secForReconnectKey, numeralText deployment.settings.secForReconnect) ::
      (ipcPwdKey, numeralText deployment.settings.ipcPwd) ::
      deployment.others.map keyedEntry

def Deployment.keyed (deployment : Deployment) : List KeyedRegion :=
  deployment.keyedDefault :: deployment.servers.map Server.keyed

theorem keyOf_data (key : SString) : keyOf key.data = some key :=
  dif_pos key.bounded

theorem mapM_keyOf (pairs : List (SString × List UInt8)) :
    (pairs.map fun pair => (pair.1.data, pair.2)).mapM
        (fun pair => (keyOf pair.1).map fun key => (key, pair.2)) = some pairs := by
  induction pairs with
  | nil => rfl
  | cons pair pairs inductionHypothesis =>
      rw [List.map_cons, List.mapM_cons, inductionHypothesis, keyOf_data]
      rfl

/-- A region as the configuration holds it. -/
def KeyedRegion.texts (region : KeyedRegion) : RegionText :=
  (region.key.data, region.elems.map fun pair => (pair.1.data, pair.2))

theorem keyRegion_texts (region : KeyedRegion) : keyRegion region.texts = some region := by
  unfold keyRegion KeyedRegion.texts
  dsimp only
  rw [keyOf_data, mapM_keyOf]
  rfl

theorem mapM_keyRegion (regions : List KeyedRegion) :
    (regions.map KeyedRegion.texts).mapM keyRegion = some regions := by
  induction regions with
  | nil => rfl
  | cons region regions inductionHypothesis =>
      rw [List.map_cons, List.mapM_cons, inductionHypothesis, keyRegion_texts]
      rfl

theorem map_keyedEntry (entries : List ShortEntry) :
    (entries.map keyedEntry).map (fun pair => (pair.1.data, pair.2)) =
      (entries.map Subtype.val).map ConfigEntry.texts := by
  rw [List.map_map, List.map_map]
  rfl

theorem Server.texts_keyed (server : Server) : server.keyed.texts = server.section.texts := by
  unfold KeyedRegion.texts Server.keyed
  dsimp only
  rw [List.map_cons, List.map_cons, map_keyedEntry]
  rfl

theorem Deployment.texts_keyed (deployment : Deployment) :
    deployment.keyed.map KeyedRegion.texts = deployment.document.contents := by
  have first : deployment.keyedDefault.texts =
      (defaultName, deployment.entries.map ConfigEntry.texts) := by
    unfold KeyedRegion.texts Deployment.keyedDefault
    dsimp only
    rw [List.map_cons, List.map_cons, List.map_cons, List.map_cons, map_keyedEntry]
    rfl
  rw [Deployment.keyed, List.map_cons, first, List.map_map, ConfigDocument.contents,
    Deployment.document, List.map_map]
  congr 1
  exact List.map_congr_left fun server _ => server.texts_keyed

theorem numberAt_cons_self (key : SString) {number : Int} (lower : -2 ^ 31 ≤ number)
    (upper : number < 2 ^ 31) (rest : List (SString × List UInt8)) :
    numberAt ((key, numeralText number) :: rest) key = number := by
  rw [numberAt_cons, if_pos (sStringEqual_iff.mpr ⟨rfl, rfl, strncmpZero_refl key.data⟩)]
  exact atoiText_numeralText lower upper

theorem numberAt_cons_other {key other : SString} (different : sStringEqual other key = false)
    (text : List UInt8) (rest : List (SString × List UInt8)) :
    numberAt ((other, text) :: rest) key = numberAt rest key := by
  rw [numberAt_cons, if_neg (Bool.eq_false_iff.mp different)]

theorem Deployment.default_named (deployment : Deployment) :
    regionNamed deployment.keyed defaultKey = some deployment.keyedDefault :=
  List.find?_cons_of_pos (sStringEqual_iff.mpr ⟨rfl, rfl, strncmpZero_refl _⟩)

theorem Deployment.settingsOf_keyed (deployment : Deployment) :
    settingsOf deployment.keyed = some deployment.settings := by
  have timeover := deployment.timeover
  have pingpong := deployment.pingpong
  have reconnect := deployment.reconnect
  have pwd := deployment.pwd
  unfold settingsOf
  rw [elemsNamed_of_found deployment.default_named]
  dsimp only [Deployment.keyedDefault]
  rw [numberAt_cons_self _ (by omega) (by omega),
    numberAt_cons_other (by decide +kernel), numberAt_cons_self _ (by omega) (by omega),
    numberAt_cons_other (by decide +kernel), numberAt_cons_other (by decide +kernel),
    numberAt_cons_self _ (by omega) (by omega),
    numberAt_cons_other (by decide +kernel), numberAt_cons_other (by decide +kernel),
    numberAt_cons_other (by decide +kernel), numberAt_cons_self _ (by omega) (by omega)]
  exact if_pos ⟨timeover.1, pingpong.1, reconnect.1, pwd.1⟩

/-- The first region with the name of a server is the one of the server. -/
theorem Deployment.named (deployment : Deployment) {server : Server}
    (member : server ∈ deployment.servers) :
    regionNamed deployment.keyed server.key = some server.keyed := by
  have other : sStringEqual deployment.keyedDefault.key server.key = false := by
    apply Bool.eq_false_iff.mpr
    intro same
    have length := length_eq_of_sStringEqual same
    have digits := List.length_pos_of_ne_nil (numeralText_ne_nil server.id)
    have kind : 6 ≤ server.kind.name.length := by cases server.kind <;> decide
    change 7 = server.nameText.length at length
    rw [Server.nameText, List.length_append, List.length_cons] at length
    omega
  have unique : ∀ {servers : List Server}, server ∈ servers →
      (servers.map fun server => (server.kind, server.id)).Nodup →
      (servers.map Server.keyed).find? (fun region => sStringEqual region.key server.key) =
        some server.keyed := by
    intro servers member distinct
    induction servers with
    | nil => cases member
    | cons first rest inductionHypothesis =>
        obtain ⟨apart, distinctRest⟩ := List.nodup_cons.mp distinct
        rw [List.map_cons]
        rcases List.mem_cons.mp member with rfl | inRest
        · exact List.find?_cons_of_pos (sStringEqual_iff.mpr ⟨rfl, rfl, strncmpZero_refl _⟩)
        · rw [List.find?_cons_of_neg]
          · exact inductionHypothesis inRest distinctRest
          · intro same
            obtain ⟨kind, id⟩ := Server.same_of_equal same
            exact apart (List.mem_map.mpr ⟨server, inRest, Prod.ext kind.symm id.symm⟩)
  unfold regionNamed Deployment.keyed
  rw [List.find?_cons, other]
  exact unique member deployment.distinct

theorem Server.serverRegion_keyed {deployment : Deployment} {server : Server}
    (member : server ∈ deployment.servers) :
    serverRegion deployment.keyed server.key = some server.region := by
  have port : numberAt server.keyed.elems portKey = server.port := by
    unfold Server.keyed
    dsimp only
    rw [numberAt_cons_other (by decide +kernel),
      numberAt_cons_self _ server.isInt.1 server.isInt.2]
  have ip : textAt server.keyed.elems ipKey = some server.ip.text := by
    unfold Server.keyed
    dsimp only
    rw [textAt_cons, if_pos (sStringEqual_iff.mpr ⟨rfl, rfl, strncmpZero_refl _⟩)]
  unfold serverRegion
  rw [elemsNamed_of_found (deployment.named member), port, ip]
  change (iparseConfigServTypeId server.nameText).map _ = _
  rw [server.parsed]
  rfl

/-- **The servers that are read are those that were described**, in their order. -/
theorem Deployment.serverRegions_keyed (deployment : Deployment) :
    serverRegions deployment.keyed = deployment.servers.map Server.region := by
  have unnamed : serverRegion deployment.keyed deployment.keyedDefault.key = none := by
    have parsed : iparseConfigServTypeId deployment.keyedDefault.key.data = none := by
      change iparseConfigServTypeId defaultName = none
      decide +kernel
    rw [serverRegion, parsed, Option.map_none]
  have split : serverRegions deployment.keyed =
      deployment.servers.filterMap fun server => serverRegion deployment.keyed server.key := by
    unfold serverRegions
    conv_lhs => rw [Deployment.keyed]
    rw [List.filterMap_cons, ← Deployment.keyed, unnamed, List.filterMap_map]
    rfl
  rw [split, ← List.filterMap_eq_map]
  apply List.filterMap_congr
  intro server member
  exact Server.serverRegion_keyed member

/-- **A deployment is read back** from every rendering of it, whatever the layout. -/
theorem startGroup_eq {abi : Abi} {deployment : Deployment} {text : List UInt8}
    (renders : Renders deployment.document text) (small : text.length < 2 ^ 31)
    (fits : deployment.document.Fits abi) (junk : ServAddr → SServer) (listens : Int → Bool)
    (type id : Int) (stray : Nat) :
    startGroup abi junk listens type id stray text =
      if listensAll listens type id (deployment.servers.map Server.region) then
        (ServGroup.sServgInitConfig junk (deployment.group type id)).map fun servg =>
          some (deployment.settings, servg)
      else some none := by
  have nonempty : text ≠ [] := by
    rintro rfl
    obtain ⟨items, described, empty⟩ := renders
    cases items with
    | nil => cases congrArg ConfigDocument.entries described
    | cons item items =>
        have none : item.text = [] := List.flatMap_eq_nil_iff.mp empty item List.mem_cons_self
        cases item with
        | blank c => cases none
        | comment text newline => cases none
        | header name gap =>
            exact name.nonempty (List.append_eq_nil_iff.mp none).1
        | entry pair gap between behind =>
            exact pair.key.nonempty (List.append_eq_nil_iff.mp none).1
  obtain ⟨config, created, contents⟩ := readsDocument_of_small renders nonempty small fits
  have regions : config.contents.mapM keyRegion = some deployment.keyed := by
    rw [contents, ← deployment.texts_keyed, mapM_keyRegion]
  rw [startGroup, created, Option.bind_some, startFrom, regions, Option.bind_some,
    sServgInitConfigFrom_eq junk listens type id deployment.default_named stray,
    deployment.settingsOf_keyed]
  dsimp only
  rw [deployment.serverRegions_keyed, Deployment.group]

end SimpleDfs.ServerGroup
