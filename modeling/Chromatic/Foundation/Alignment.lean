import Mathlib.Algebra.Order.Group.Nat
import Mathlib.Data.BitVec
import Mathlib.Order.Interval.Set.LinearOrder

/-!
# Rounding to multiples

The multiples next to a number, and the mask that a machine rounds with.

§1 rounding · §2 intervals · §3 masks.
-/

namespace Foundation

/-! ## §1  Rounding -/

/-- The last multiple of `P` up to `n`. -/
def alignDown (P n : ℕ) : ℕ := n / P * P

/-- The first multiple of `P` from `n` on. -/
def alignUp (P n : ℕ) : ℕ := alignDown P (n + P - 1)

section Rounding

variable {P m n : ℕ}

theorem dvd_alignDown : P ∣ alignDown P n := Dvd.intro_left _ rfl

theorem dvd_alignUp : P ∣ alignUp P n := dvd_alignDown

theorem alignDown_le : alignDown P n ≤ n := Nat.div_mul_le_self n P

theorem lt_alignDown_add (hP : 0 < P) : n < alignDown P n + P := by
  have := Nat.div_add_mod' n P
  have := Nat.mod_lt n hP
  unfold alignDown
  omega

/-- Which multiples are below: those below `n`. -/
theorem le_alignDown (hm : P ∣ m) : m ≤ alignDown P n ↔ m ≤ n := by
  constructor
  · intro h
    exact h.trans alignDown_le
  · rintro h
    obtain ⟨k, rfl⟩ := hm
    rcases Nat.eq_zero_or_pos P with rfl | hP
    · simp
    · rw [alignDown, Nat.mul_comm]
      apply Nat.mul_le_mul_right
      rw [Nat.le_div_iff_mul_le hP, Nat.mul_comm]
      exact h

theorem alignUp_lt (hP : 0 < P) : alignUp P n < n + P := by
  have h : alignUp P n ≤ n + P - 1 := alignDown_le
  omega

theorem le_alignUp (hP : 0 < P) : n ≤ alignUp P n := by
  have h : n + P - 1 < alignUp P n + P := lt_alignDown_add hP
  omega

/-- Which multiples are above: those above `n`. -/
theorem alignUp_le (hP : 0 < P) (hm : P ∣ m) : alignUp P n ≤ m ↔ n ≤ m := by
  constructor
  · intro h
    exact (le_alignUp hP).trans h
  · intro h
    have hlt : alignUp P n < m + P := (alignUp_lt hP).trans_le (Nat.add_le_add_right h P)
    obtain ⟨k, rfl⟩ := hm
    obtain ⟨j, hj⟩ : P ∣ alignUp P n := dvd_alignUp
    rw [hj, ← Nat.mul_succ] at hlt
    rw [hj]
    exact Nat.mul_le_mul_left P (Nat.lt_succ_iff.mp (Nat.lt_of_mul_lt_mul_left hlt))

/-- A multiple in front stays in front. -/
theorem alignDown_add (hP : 0 < P) (hm : P ∣ m) : alignDown P (m + n) = m + alignDown P n := by
  obtain ⟨k, rfl⟩ := hm
  rw [alignDown, alignDown, Nat.mul_add_div hP, Nat.add_mul, Nat.mul_comm k]

end Rounding

/-! ## §2  Intervals -/

/-- The rounded interval is the least of those that end at multiples and cover. -/
theorem Ico_align_subset {P a b lo hi : ℕ} (hP : 0 < P) (hab : a < b) (hlo : P ∣ lo)
    (hhi : P ∣ hi) :
    Set.Ico (alignDown P a) (alignUp P b) ⊆ Set.Ico lo hi ↔ Set.Ico a b ⊆ Set.Ico lo hi := by
  have hne : alignDown P a < alignUp P b :=
    (alignDown_le.trans_lt hab).trans_le (le_alignUp hP)
  rw [Set.Ico_subset_Ico_iff hne, Set.Ico_subset_Ico_iff hab, le_alignDown hlo,
    alignUp_le hP hhi]

theorem Ico_subset_align {P a b : ℕ} (hP : 0 < P) (hab : a < b) :
    Set.Ico a b ⊆ Set.Ico (alignDown P a) (alignUp P b) := by
  rw [Set.Ico_subset_Ico_iff hab]
  exact ⟨alignDown_le, le_alignUp hP⟩

/-! ## §3  Masks -/

section Masks

variable {w k : ℕ}

theorem toNat_unit (hw : 0 < w) : (1 : BitVec w).toNat = 1 := BitVec.toNat_one hw

theorem toNat_one_shiftLeft (hk : k < w) : ((1 : BitVec w) <<< k).toNat = 2 ^ k := by
  have hpow : 2 ^ k < 2 ^ w := Nat.pow_lt_pow_right (by omega) hk
  rw [BitVec.toNat_shiftLeft, toNat_unit (Nat.zero_lt_of_lt hk), Nat.shiftLeft_eq,
    Nat.one_mul, Nat.mod_eq_of_lt hpow]

theorem getLsbD_one_shiftLeft_sub_one {i : ℕ} (hk : k < w) :
    ((1 : BitVec w) <<< k - 1).getLsbD i = decide (i < k) := by
  have hw : 0 < w := Nat.zero_lt_of_lt hk
  have hone : (1 : BitVec w) ≤ (1 : BitVec w) <<< k := by
    rw [BitVec.le_def, toNat_one_shiftLeft hk, toNat_unit hw]
    exact Nat.one_le_two_pow
  rw [← BitVec.testBit_toNat, BitVec.toNat_sub_of_le hone, toNat_one_shiftLeft hk,
    toNat_unit hw, Nat.testBit_two_pow_sub_one]

/-- The mask clears what is below the multiple. -/
theorem toNat_and_not_mask (hk : k < w) (x : BitVec w) :
    (x &&& ~~~((1 : BitVec w) <<< k - 1)).toNat = alignDown (2 ^ k) x.toNat := by
  apply Nat.eq_of_testBit_eq
  intro i
  rw [BitVec.testBit_toNat, BitVec.getLsbD_and, BitVec.getLsbD_not,
    getLsbD_one_shiftLeft_sub_one hk, alignDown, Nat.testBit_mul_two_pow,
    Nat.testBit_div_two_pow, BitVec.testBit_toNat]
  by_cases hi : i < k
  · simp [hi]
  · rw [Nat.sub_add_cancel (Nat.le_of_not_lt hi)]
    cases hx : x.getLsbD i with
    | false => simp
    | true => simp [BitVec.lt_of_getLsbD hx, hi, Nat.le_of_not_lt hi]

end Masks

end Foundation
