import Mathlib.Data.Finset.Card
import SimpleDfs.Paxos.Proposer

/-!
Contract: memberships as proposed values.

Owns: which bits the membership values of `s_paxos_start` have, what
`icheck_new_version` reads back from them, and exactly which memberships survive
the way through a signed 32-bit `int` and an array of sixteen members.

Does not own: whether such a value is chosen.
-/

set_option autoImplicit false

namespace SimpleDfs.Paxos

/-- `S_PAXOS_MAX_SERV`, the size of `servs[]`. -/
def maxServ : Nat := 16

/-! ## Bits and members -/

theorem getLsbD_servBit (serv bit : Nat) :
    (servBit serv).getLsbD bit = true ↔ bit = serv % 32 := by
  have inWord : serv % 32 < 32 := Nat.mod_lt serv (by decide)
  rw [servBit, ← BitVec.twoPow_eq, BitVec.getLsbD_twoPow]
  simp only [Bool.and_eq_true, decide_eq_true_eq]
  omega

theorem getLsbD_foldl_servBit (bit : Nat) :
    ∀ (servs : List Nat) (start : Value),
      (servs.foldl (fun value serv => value ||| servBit serv) start).getLsbD bit = true ↔
        start.getLsbD bit = true ∨ ∃ serv ∈ servs, bit = serv % 32
  | [], start => by simp
  | serv :: rest, start => by
      rw [List.foldl_cons, getLsbD_foldl_servBit bit rest, BitVec.getLsbD_or, Bool.or_eq_true,
        getLsbD_servBit, or_assoc]
      simp only [List.mem_cons, exists_eq_or_imp]

/-- The bits of an encoded membership are the ids of its members, as far as the
shift tells them apart. -/
theorem getLsbD_servsValue (servs : List Nat) (bit : Nat) :
    (servsValue servs).getLsbD bit = true ↔ ∃ serv ∈ servs, bit = serv % 32 := by
  rw [servsValue, getLsbD_foldl_servBit]
  simp

theorem mem_valueServs (value : Value) (serv : Nat) :
    serv ∈ valueServs value ↔ value.getLsbD serv = true := by
  rw [valueServs, List.mem_filter, List.mem_range, decide_eq_true_eq]
  constructor
  · rintro ⟨inWord, meets⟩
    by_contra unset
    apply meets
    apply BitVec.eq_of_getLsbD_eq
    intro bit _
    rw [BitVec.getLsbD_and, BitVec.getLsbD_zero]
    by_cases same : bit = serv
    · simp [same, unset]
    · have other : ¬ (servBit serv).getLsbD bit = true := by
        rw [getLsbD_servBit, Nat.mod_eq_of_lt inWord]
        exact same
      simp [other]
  · intro set
    have inWord : serv < 32 := BitVec.lt_of_getLsbD set
    refine ⟨inWord, ?_⟩
    intro empty
    have cleared : (value &&& servBit serv).getLsbD serv = false := by
      rw [empty, BitVec.getLsbD_zero]
    have own : (servBit serv).getLsbD serv = true :=
      (getLsbD_servBit serv serv).mpr (Nat.mod_eq_of_lt inWord).symm
    simp [set, own] at cleared

/-- A value is negative exactly if server 31 is a member. -/
theorem toInt_nonneg_iff (value : Value) :
    0 ≤ value.toInt ↔ ¬ value.getLsbD 31 = true := by
  have sign : value.msb = value.getLsbD 31 := by
    rw [BitVec.msb_eq_getLsbD_last]
  rw [← sign, BitVec.msb_eq_toInt]
  simp

/-! ## Round trip -/

/-- The members after `theServ` joins. -/
def membersWith (version : PaxosVersion) (theServ : Nat) : Finset Nat :=
  insert theServ version.servs.toFinset

/-- The members after `theServ` leaves. -/
def membersWithout (version : PaxosVersion) (theServ : Nat) : Finset Nat :=
  version.servs.toFinset.erase theServ

/-- `icheck_new_version` reads exactly `members` from the value, every write into
`servs[]` is inside the array, and a prepare response can report the value. -/
structure DecodesTo (value : Value) (members : Finset Nat) : Prop where
  distinct : (valueServs value).Nodup
  exact : (valueServs value).toFinset = members
  inside : (valueServs value).length ≤ maxServ
  reported : 0 ≤ value.toInt

/-- A membership that a value can carry: ids below the sign bit, at most sixteen
of them. -/
structure Encodable (members : Finset Nat) : Prop where
  belowSign : ∀ serv ∈ members, serv ≤ 30
  room : members.card ≤ maxServ

theorem decodesTo_servsValue_iff {servs : List Nat} {members : Finset Nat}
    (same : servs.toFinset = members) :
    DecodesTo (servsValue servs) members ↔ Encodable members := by
  have distinct : (valueServs (servsValue servs)).Nodup := List.nodup_range.filter _
  have bits : ∀ bit, (servsValue servs).getLsbD bit = true ↔ ∃ serv ∈ members, bit = serv % 32 := by
    intro bit
    rw [getLsbD_servsValue, ← same]
    simp only [List.mem_toFinset]
  constructor
  · intro decodes
    refine ⟨?_, ?_⟩
    · intro serv member
      rw [← decodes.exact, List.mem_toFinset, mem_valueServs] at member
      have inWord : serv < 32 := BitVec.lt_of_getLsbD member
      have unsigned := (toInt_nonneg_iff _).mp decodes.reported
      by_contra high
      have sign : serv = 31 := by omega
      rw [sign] at member
      exact unsigned member
    · rw [← decodes.exact, List.toFinset_card_of_nodup distinct]
      exact decodes.inside
  · intro encodable
    -- below the sign bit the shift keeps ids apart
    have exact : (valueServs (servsValue servs)).toFinset = members := by
      ext serv
      rw [List.mem_toFinset, mem_valueServs, bits]
      constructor
      · rintro ⟨other, member, same'⟩
        have low := encodable.belowSign other member
        rw [same', Nat.mod_eq_of_lt (by omega)]
        exact member
      · intro member
        have low := encodable.belowSign serv member
        exact ⟨serv, member, (Nat.mod_eq_of_lt (by omega)).symm⟩
    refine ⟨distinct, exact, ?_, ?_⟩
    · rw [← List.toFinset_card_of_nodup distinct, exact]
      exact encodable.room
    · rw [toInt_nonneg_iff, bits]
      rintro ⟨serv, member, sign⟩
      have low := encodable.belowSign serv member
      omega

/-- One more server is one more bit. -/
theorem servsValue_concat (servs : List Nat) (serv : Nat) :
    servsValue (servs ++ [serv]) = servsValue servs ||| servBit serv := by
  rw [servsValue, List.foldl_append]
  rfl

theorem decodesTo_add_iff (paxos : SPaxos) (value : Value) (theServ : Nat) :
    DecodesTo (proposalValue paxos value .add theServ) (membersWith paxos.version theServ) ↔
      Encodable (membersWith paxos.version theServ) := by
  rw [show proposalValue paxos value .add theServ =
    servsValue paxos.version.servs ||| servBit theServ from rfl, ← servsValue_concat]
  apply decodesTo_servsValue_iff
  ext serv
  simp [membersWith]

theorem decodesTo_rm_iff (paxos : SPaxos) (value : Value) (theServ : Nat) :
    DecodesTo (proposalValue paxos value .rm theServ) (membersWithout paxos.version theServ) ↔
      Encodable (membersWithout paxos.version theServ) := by
  rw [show proposalValue paxos value .rm theServ =
    servsValue (paxos.version.servs.filter fun serv => theServ ≠ serv) from rfl]
  apply decodesTo_servsValue_iff
  ext serv
  rw [List.mem_toFinset, List.mem_filter, decide_eq_true_eq, membersWithout, Finset.mem_erase,
    List.mem_toFinset, ne_comm, and_comm]

/-- **Membership values encode and decode exactly** those memberships whose ids
are below the sign bit and fit into `servs[]`, whatever the membership they
start from. -/
theorem membership_value_round_trip_iff (paxos : SPaxos) (value : Value) (theServ : Nat) :
    (DecodesTo (proposalValue paxos value .add theServ) (membersWith paxos.version theServ) ↔
      Encodable (membersWith paxos.version theServ)) ∧
    (DecodesTo (proposalValue paxos value .rm theServ) (membersWithout paxos.version theServ) ↔
      Encodable (membersWithout paxos.version theServ)) :=
  ⟨decodesTo_add_iff paxos value theServ, decodesTo_rm_iff paxos value theServ⟩

/-- Server 31 joins server 1: the value is negative, so a prepare response
passes over it. -/
theorem not_always_membership_value_round_trip :
    ¬ ∀ (paxos : SPaxos) (value : Value) (theServ : Nat), paxos.version.servs.Nodup →
        paxos.version.servs.length ≤ maxServ → (∀ serv ∈ paxos.version.servs, 0 < serv) →
        0 < theServ → theServ ∉ paxos.version.servs →
        DecodesTo (proposalValue paxos value .add theServ)
          (membersWith paxos.version theServ) := by
  intro always
  have decodes := always (sPaxosCreate 1) 0#32 31 (by decide) (by decide) (by decide) (by decide)
    (by decide)
  exact absurd decodes.reported (by decide)

end SimpleDfs.Paxos
