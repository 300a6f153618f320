import SvmActivation.Proofs.SvmSwitch

namespace SvmActivation.VmCr

namespace Flag

theorem mem_all (flag : Flag) : flag ∈ all := by
  cases flag <;> decide

theorem position_injective : Function.Injective position := by
  intro a b h
  cases a <;> cases b <;> first | rfl | cases h

theorem position_lt (flag : Flag) : flag.position < 5 := by
  cases flag <;> decide

theorem exists_position {i : Nat} (h : i < 5) : ∃ flag : Flag, flag.position = i := by
  have hall : ∀ i < 5, ∃ flag ∈ all, flag.position = i := by decide
  obtain ⟨flag, -, hposition⟩ := hall i h
  exact ⟨flag, hposition⟩

theorem getLsbD_mask (flag : Flag) (i : Nat) :
    flag.mask.getLsbD i = decide (flag.position = i) := by
  have hlt : flag.position < 64 := Nat.lt_trans flag.position_lt (by decide)
  rw [mask, BitVec.getLsbD_twoPow, decide_eq_true hlt, Bool.true_and]

end Flag

theorem eq_of_getLsbD_eq {v w : VmCr} (h : ∀ i, v.bits.getLsbD i = w.bits.getLsbD i) : v = w :=
  VmCr.ext (BitVec.eq_of_getLsbD_eq fun i _ => h i)

section Bits

variable (v w : VmCr) (i : Nat)

theorem getLsbD_empty : empty.bits.getLsbD i = false :=
  BitVec.getLsbD_zero

theorem getLsbD_union : (v ∪ w).bits.getLsbD i = (v.bits.getLsbD i || w.bits.getLsbD i) :=
  BitVec.getLsbD_or

theorem getLsbD_inter : (v ∩ w).bits.getLsbD i = (v.bits.getLsbD i && w.bits.getLsbD i) :=
  BitVec.getLsbD_and

theorem getLsbD_sdiff : (v \ w).bits.getLsbD i = (v.bits.getLsbD i && !w.bits.getLsbD i) := by
  have hdiff : (v \ w).bits = v.bits &&& ~~~w.bits := rfl
  rw [hdiff, BitVec.getLsbD_and, BitVec.getLsbD_not]
  by_cases hi : i < 64
  · rw [decide_eq_true hi, Bool.true_and]
  · rw [BitVec.getLsbD_of_ge _ _ (Nat.le_of_not_lt hi), Bool.false_and, Bool.false_and]

theorem getLsbD_all : all.bits.getLsbD i = decide (i < 5) := by
  have hbits : all.bits = BitVec.ofNat 64 (2 ^ 5 - 1) := by decide
  rw [hbits, BitVec.getLsbD_ofNat, Nat.testBit_two_pow_sub_one]
  by_cases hi : i < 5
  · rw [decide_eq_true hi, Bool.and_true, decide_eq_true (by omega)]
  · rw [decide_eq_false hi, Bool.and_false]

theorem getLsbD_declared : v.declared.bits.getLsbD i = (v.bits.getLsbD i && decide (i < 5)) := by
  rw [declared, getLsbD_inter, getLsbD_all]

theorem getLsbD_residue : v.residue.bits.getLsbD i = (v.bits.getLsbD i && !decide (i < 5)) := by
  rw [residue, getLsbD_sdiff, getLsbD_all]

end Bits

def unite (values : List VmCr) : VmCr :=
  values.foldr (· ∪ ·) empty

theorem getLsbD_unite (values : List VmCr) (i : Nat) :
    (unite values).bits.getLsbD i = values.any (·.bits.getLsbD i) := by
  induction values with
  | nil => exact getLsbD_empty i
  | cons v rest ih =>
    rw [List.any_cons, ← ih]
    exact getLsbD_union v _ i

variable (v : VmCr)

theorem mem_flags {flag : Flag} : flag ∈ v.flags ↔ v.bits.getLsbD flag.position = true := by
  rw [flags, List.mem_filter, has_eq, and_iff_right flag.mem_all]

theorem mem_parts {part : VmCr} :
    part ∈ v.parts ↔ (∃ flag ∈ v.flags, part = ⟨flag.mask⟩) ∨
      (v.residue ≠ empty ∧ part = v.residue) := by
  rw [parts, List.mem_append, List.mem_map, isEmpty]
  by_cases hresidue : v.residue = empty
  · simp [hresidue, eq_comm]
  · simp [hresidue, eq_comm]

/-- The parts of a value make it up. -/
theorem unite_parts : unite v.parts = v := by
  apply eq_of_getLsbD_eq
  intro i
  rw [getLsbD_unite, Bool.eq_iff_iff, List.any_eq_true]
  constructor
  · rintro ⟨part, hpart, hbit⟩
    rcases v.mem_parts.1 hpart with ⟨flag, hflag, rfl⟩ | ⟨-, rfl⟩
    · rw [Flag.getLsbD_mask, decide_eq_true_iff] at hbit
      rw [← hbit]
      exact v.mem_flags.1 hflag
    · rw [getLsbD_residue, Bool.and_eq_true] at hbit
      exact hbit.1
  · intro hbit
    by_cases hi : i < 5
    · obtain ⟨flag, rfl⟩ := Flag.exists_position hi
      refine ⟨⟨flag.mask⟩, v.mem_parts.2 (.inl ⟨flag, v.mem_flags.2 hbit, rfl⟩), ?_⟩
      rw [Flag.getLsbD_mask, decide_eq_true rfl]
    · have hresidue : v.residue.bits.getLsbD i = true := by
        rw [getLsbD_residue, hbit, decide_eq_false hi]
        rfl
      have hne : v.residue ≠ empty := by
        intro hempty
        rw [hempty, getLsbD_empty] at hresidue
        cases hresidue
      exact ⟨v.residue, v.mem_parts.2 (.inr ⟨hne, rfl⟩), hresidue⟩

theorem empty_not_mem_parts : empty ∉ v.parts := by
  intro hmem
  rcases v.mem_parts.1 hmem with ⟨flag, -, hflag⟩ | ⟨hne, hresidue⟩
  · have hbit : (⟨flag.mask⟩ : VmCr).bits.getLsbD flag.position = true := by
      rw [Flag.getLsbD_mask, decide_eq_true rfl]
    rw [← hflag, getLsbD_empty] at hbit
    cases hbit
  · exact hne hresidue.symm

theorem mask_inter_mask {a b : Flag} (h : a ≠ b) : (⟨a.mask⟩ ∩ ⟨b.mask⟩ : VmCr) = empty := by
  apply eq_of_getLsbD_eq
  intro i
  rw [getLsbD_inter, Flag.getLsbD_mask, Flag.getLsbD_mask, getLsbD_empty, ← Bool.decide_and,
    decide_eq_false_iff_not]
  rintro ⟨ha, hb⟩
  exact h (Flag.position_injective (ha.trans hb.symm))

theorem mask_inter_residue (flag : Flag) : ⟨flag.mask⟩ ∩ v.residue = empty := by
  apply eq_of_getLsbD_eq
  intro i
  rw [getLsbD_inter, Flag.getLsbD_mask, getLsbD_residue, getLsbD_empty, Bool.eq_false_iff]
  intro hbit
  simp only [Bool.and_eq_true, decide_eq_true_iff, Bool.not_eq_true', decide_eq_false_iff_not]
    at hbit
  obtain ⟨rfl, -, hge⟩ := hbit
  exact hge flag.position_lt

/-- No two parts of a value overlap. -/
theorem parts_disjoint : v.parts.Pairwise fun a b => a ∩ b = empty := by
  have hall : Flag.all.Nodup := by decide
  rw [parts, List.pairwise_append, List.pairwise_map]
  refine ⟨(hall.filter v.has).imp mask_inter_mask, ?_, ?_⟩
  · split
    · exact .nil
    · exact List.pairwise_singleton _ _
  · intro part hpart residue hresidue
    obtain ⟨flag, -, rfl⟩ := List.mem_map.1 hpart
    split at hresidue
    · cases hresidue
    · obtain rfl := List.mem_singleton.1 hresidue
      exact v.mask_inter_residue flag

end SvmActivation.VmCr
