import Chromatic.Foundation.HexText
import Mathlib.Data.Int.Order.Basic
import Mathlib.Tactic.Linarith

/-!
# Integers as doubles

Which integers a double holds, the double nearest to an integer, and the digits that
JavaScript prints of one: as few as lead back to the same double, followed by zeros.

§1 rounding · §2 shortest digits.
-/

namespace Foundation

/-! ## §1  Rounding -/

/-- A double holds `n`. -/
def Exact (n : ℕ) : Prop := roundDouble n = n

instance (n : ℕ) : Decidable (Exact n) := inferInstanceAs (Decidable (_ = _))

theorem exact_of_lt {n : ℕ} (h : n < 2 ^ 53) : Exact n := roundDouble_of_lt h

/-- Rounding keeps the leading bit. -/
theorem two_pow_log2_le_roundDouble {n : ℕ} (h : 2 ^ 53 ≤ n) : 2 ^ n.log2 ≤ roundDouble n := by
  have hpos : n ≠ 0 := by
    rintro rfl
    exact absurd h (by decide)
  have hlog : 53 ≤ n.log2 := (Nat.le_log2 hpos).mpr h
  have hsplit : 2 ^ n.log2 = 2 ^ 52 * 2 ^ (n.log2 - 52) := by
    rw [← pow_add]
    congr 1
    omega
  have hquot : 2 ^ 52 ≤ n / 2 ^ (n.log2 - 52) := by
    rw [Nat.le_div_iff_mul_le (Nat.two_pow_pos _), ← hsplit]
    exact Nat.log2_self_le hpos
  rw [hsplit, roundDouble, if_neg (by omega)]
  apply Nat.mul_le_mul_right
  split
  · omega
  · exact hquot

/-- Rounding up goes to the next power of two at most. -/
theorem roundDouble_le {n w : ℕ} (h : n < 2 ^ w) : roundDouble n ≤ 2 ^ w := by
  by_cases hsmall : n < 2 ^ 53
  · rw [roundDouble_of_lt hsmall]
    exact h.le
  · have hpos : n ≠ 0 := by omega
    have hlog : n.log2 < w := (Nat.log2_lt hpos).mpr h
    have hlow : 53 ≤ n.log2 := (Nat.le_log2 hpos).mpr (by omega)
    have hquot : n / 2 ^ (n.log2 - 52) < 2 ^ 53 := by
      rw [Nat.div_lt_iff_lt_mul (Nat.two_pow_pos _), ← pow_add]
      exact lt_of_lt_of_eq Nat.lt_log2_self (by congr 1; omega)
    calc roundDouble n ≤ 2 ^ 53 * 2 ^ (n.log2 - 52) := by
          unfold roundDouble
          rw [if_neg hsmall]
          apply Nat.mul_le_mul_right
          split <;> omega
      _ = 2 ^ (n.log2 + 1) := by
          rw [← pow_add]
          congr 1
          omega
      _ ≤ 2 ^ w := Nat.pow_le_pow_right (by decide) hlog

/-- A double holds the numbers that end in zeros from the 53rd bit behind the leading one. -/
theorem exact_iff_dvd {n : ℕ} : Exact n ↔ 2 ^ (n.log2 - 52) ∣ n := by
  by_cases hsmall : n < 2 ^ 53
  · have hlog : n.log2 - 52 = 0 := by
      rcases eq_or_ne n 0 with rfl | hne
      · simp
      · have := (Nat.log2_lt hne).mpr hsmall
        omega
    simp [hlog, exact_of_lt hsmall]
  · constructor
    · intro h
      unfold Exact roundDouble at h
      rw [if_neg hsmall] at h
      exact Dvd.intro_left _ h
    · rintro ⟨q, hq⟩
      unfold Exact roundDouble
      have hrem : n % 2 ^ (n.log2 - 52) = 0 := Nat.mod_eq_zero_of_dvd ⟨q, hq⟩
      have hhalf : 0 < 2 ^ (n.log2 - 52 - 1) := Nat.two_pow_pos _
      rw [if_neg hsmall]
      simp only [hrem]
      rw [if_neg (by omega)]
      exact Nat.div_mul_cancel ⟨q, hq⟩

/-- Below 2^53 nothing else is rounded to `n`. -/
theorem roundDouble_eq_iff {n m : ℕ} (h : n < 2 ^ 53) : roundDouble m = n ↔ m = n := by
  constructor
  · intro hm
    by_cases hsmall : m < 2 ^ 53
    · rw [roundDouble_of_lt hsmall] at hm
      exact hm
    · have hge : 2 ^ 53 ≤ m := by omega
      have hlog : 53 ≤ m.log2 := (Nat.le_log2 (by omega)).mpr hge
      have hle := two_pow_log2_le_roundDouble hge
      have hpow : 2 ^ 53 ≤ 2 ^ m.log2 := Nat.pow_le_pow_right (by decide) hlog
      omega
  · rintro rfl
    exact roundDouble_of_lt h

/-- The double nearest to an integer. -/
def nearest (v : ℤ) : ℤ := v.sign * roundDouble v.natAbs

theorem nearest_eq_iff {v : ℤ} : nearest v = v ↔ Exact v.natAbs := by
  unfold nearest Exact
  rcases eq_or_ne v 0 with rfl | hne
  · simp [roundDouble]
  · constructor
    · intro h
      have habs := congrArg Int.natAbs h
      rwa [Int.natAbs_mul, Int.natAbs_sign_of_ne_zero hne, one_mul, Int.natAbs_natCast]
        at habs
    · intro h
      rw [h]
      exact Int.sign_mul_natAbs v

/-! ## §2  Shortest digits -/

/-- The multiple of 10^j that leads back to `n`: the one below or the one above, whichever is
closer, the one with an even digit when both are as close. -/
def digitsAt (n j : ℕ) : Option ℕ :=
  let low := n / 10 ^ j * 10 ^ j
  let high := low + 10 ^ j
  if roundDouble low = n then
    if roundDouble high = n ∧
        (high - n < n - low ∨ (high - n = n - low ∧ n / 10 ^ j % 2 = 1)) then some high
    else some low
  else if roundDouble high = n then some high
  else none

/-- What the digits printed of the double `n` below 10^21 say. -/
def shortest (n : ℕ) : ℕ :=
  ((List.range 22).reverse.findSome? (digitsAt n)).getD n

theorem digitsAt_round {n j m : ℕ} (h : digitsAt n j = some m) : roundDouble m = n := by
  unfold digitsAt at h
  dsimp only at h
  split at h
  · rename_i hlow
    split at h
    · rename_i hhigh
      exact Option.some.inj h ▸ hhigh.1
    · exact Option.some.inj h ▸ hlow
  · split at h
    · rename_i hhigh
      exact Option.some.inj h ▸ hhigh
    · cases h

/-- The digits lead back to the double. -/
theorem roundDouble_shortest {n : ℕ} (h : Exact n) : roundDouble (shortest n) = n := by
  unfold shortest
  cases hfound : (List.range 22).reverse.findSome? (digitsAt n) with
  | none => exact h
  | some m =>
      obtain ⟨j, -, hj⟩ := List.exists_of_findSome?_eq_some hfound
      exact digitsAt_round hj

theorem shortest_of_lt {n : ℕ} (h : n < 2 ^ 53) : shortest n = n :=
  (roundDouble_eq_iff h).mp (roundDouble_shortest (exact_of_lt h))

/-- From 2^53 on zeros may stand in for digits. -/
example : shortest (2 ^ 60) = 1152921504606847000 ∧ shortest (2 ^ 53 + 2) = 2 ^ 53 + 2 := by
  decide +kernel

end Foundation
