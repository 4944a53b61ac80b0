import Mathlib.Data.BitVec
import Mathlib.Order.Basic

/-!
# Fields of a word

A field is a number of adjacent bits; writing it clears them with a mask first.

§1 writing · §2 reading back.
-/

namespace Foundation

variable {w n n' : ℕ}

/-! ## §1  Writing -/

/-- The lowest `n` bits. -/
def lowMask (w n : ℕ) : BitVec w := BitVec.ofNat w (2 ^ n - 1)

/-- The `n` bits from `lo` on are those of `v`. -/
def setField (x : BitVec w) (lo : ℕ) (v : BitVec n) : BitVec w :=
  x &&& ~~~(lowMask w n <<< lo) ||| v.setWidth w <<< lo

theorem getLsbD_lowMask {k : ℕ} (hk : k < w) : (lowMask w n).getLsbD k = decide (k < n) := by
  rw [lowMask, BitVec.getLsbD_ofNat, Nat.testBit_two_pow_sub_one, decide_eq_true hk,
    Bool.true_and]

/-- A field that is written leaves the other bits alone. -/
theorem getLsbD_setField (x : BitVec w) {lo k : ℕ} (v : BitVec n) (hk : k < w) :
    (setField x lo v).getLsbD k =
      if lo ≤ k ∧ k < lo + n then v.getLsbD (k - lo) else x.getLsbD k := by
  rw [setField, BitVec.getLsbD_or, BitVec.getLsbD_and, BitVec.getLsbD_not,
    BitVec.getLsbD_shiftLeft, BitVec.getLsbD_shiftLeft, BitVec.getLsbD_setWidth,
    getLsbD_lowMask (by omega)]
  by_cases hlo : lo ≤ k
  · by_cases hhi : k < lo + n
    · rw [if_pos ⟨hlo, hhi⟩]
      simp [hk, show ¬ k < lo by omega, show k - lo < n by omega, show k - lo < w by omega]
    · rw [if_neg (fun h => hhi h.2)]
      have hnone : v.getLsbD (k - lo) = false := BitVec.getLsbD_of_ge _ _ (by omega)
      simp [hk, hnone, show ¬ k - lo < n by omega]
  · rw [if_neg (fun h => hlo h.1)]
    simp [hk, show k < lo by omega]

/-! ## §2  Reading back -/

/-- What is written is read. -/
theorem extractLsb'_setField (x : BitVec w) {lo : ℕ} (v : BitVec n) (h : lo + n ≤ w) :
    (setField x lo v).extractLsb' lo n = v := by
  apply BitVec.eq_of_getLsbD_eq
  intro k hk
  rw [BitVec.getLsbD_extractLsb', getLsbD_setField x v (by omega), if_pos (by omega),
    decide_eq_true hk, Bool.true_and, Nat.add_sub_cancel_left]

/-- Fields apart from each other do not mind. -/
theorem extractLsb'_setField_apart (x : BitVec w) {lo lo' : ℕ} (v : BitVec n)
    (hfits : lo' + n' ≤ w) (hapart : lo' + n' ≤ lo ∨ lo + n ≤ lo') :
    (setField x lo v).extractLsb' lo' n' = x.extractLsb' lo' n' := by
  apply BitVec.eq_of_getLsbD_eq
  intro k hk
  rw [BitVec.getLsbD_extractLsb', BitVec.getLsbD_extractLsb', getLsbD_setField x v (by omega),
    if_neg (by omega)]

end Foundation
