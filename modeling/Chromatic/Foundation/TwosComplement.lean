import Mathlib.Data.Int.Bitwise
import Mathlib.Data.Int.ModEq
import Mathlib.Tactic.Linarith
import Mathlib.Tactic.Ring

/-!
# Integers as bits

Unbounded integers in two's complement, and what of them their lowest bits say. Two integers
agree modulo `2 ^ w` when their lowest `w` bits are the same, so everything that works bit by
bit, or carries to the left only, can be done on residues.

§1 lowest bits · §2 operations on residues · §3 signed residues.
-/

namespace Foundation

/-! ## §1  Lowest bits -/

theorem modEq_bit_iff {w : ℕ} {b c : Bool} {x y : ℤ} :
    Int.bit b x ≡ Int.bit c y [ZMOD 2 ^ (w + 1)] ↔ b = c ∧ x ≡ y [ZMOD 2 ^ w] := by
  rw [Int.bit_val, Int.bit_val, pow_succ', Int.modEq_iff_dvd, Int.modEq_iff_dvd]
  constructor
  · rintro ⟨k, hk⟩
    generalize (2 : ℤ) ^ w = m at hk ⊢
    have hsame : b = c := by
      cases b <;> cases c <;> simp only [cond_true, cond_false] at hk ⊢ <;> grind
    subst hsame
    exact ⟨rfl, k, by linarith⟩
  · rintro ⟨rfl, k, hk⟩
    exact ⟨k, by linarith⟩

/-- Integers agree modulo `2 ^ w` when they have the same `w` lowest bits. -/
theorem modEq_two_pow_iff {w : ℕ} {a b : ℤ} :
    a ≡ b [ZMOD 2 ^ w] ↔ ∀ i < w, a.testBit i = b.testBit i := by
  induction w generalizing a b with
  | zero => simp [Int.modEq_one]
  | succ w ih =>
      rw [← Int.bit_decomp a, ← Int.bit_decomp b, modEq_bit_iff, ih]
      constructor
      · rintro ⟨hlow, hrest⟩ i hi
        cases i with
        | zero => rw [Int.testBit_bit_zero, Int.testBit_bit_zero, hlow]
        | succ i =>
            rw [Int.testBit_bit_succ, Int.testBit_bit_succ]
            exact hrest i (Nat.lt_of_succ_lt_succ hi)
      · intro h
        refine ⟨?_, fun i hi => ?_⟩
        · have hzero := h 0 (Nat.succ_pos w)
          rwa [Int.testBit_bit_zero, Int.testBit_bit_zero] at hzero
        · have hsucc := h (i + 1) (Nat.succ_lt_succ hi)
          rwa [Int.testBit_bit_succ, Int.testBit_bit_succ] at hsucc

/-! ## §2  Operations on residues -/

section Operations

variable {w : ℕ} {a a' b b' : ℤ}

theorem land_modEq (ha : a ≡ a' [ZMOD 2 ^ w]) (hb : b ≡ b' [ZMOD 2 ^ w]) :
    Int.land a b ≡ Int.land a' b' [ZMOD 2 ^ w] := by
  rw [modEq_two_pow_iff] at *
  intro i hi
  rw [Int.testBit_land, Int.testBit_land, ha i hi, hb i hi]

theorem lor_modEq (ha : a ≡ a' [ZMOD 2 ^ w]) (hb : b ≡ b' [ZMOD 2 ^ w]) :
    Int.lor a b ≡ Int.lor a' b' [ZMOD 2 ^ w] := by
  rw [modEq_two_pow_iff] at *
  intro i hi
  rw [Int.testBit_lor, Int.testBit_lor, ha i hi, hb i hi]

theorem xor_modEq (ha : a ≡ a' [ZMOD 2 ^ w]) (hb : b ≡ b' [ZMOD 2 ^ w]) :
    Int.xor a b ≡ Int.xor a' b' [ZMOD 2 ^ w] := by
  rw [modEq_two_pow_iff] at *
  intro i hi
  rw [Int.testBit_lxor, Int.testBit_lxor, ha i hi, hb i hi]

theorem lnot_modEq (ha : a ≡ a' [ZMOD 2 ^ w]) : Int.lnot a ≡ Int.lnot a' [ZMOD 2 ^ w] := by
  rw [modEq_two_pow_iff] at *
  intro i hi
  rw [Int.testBit_lnot, Int.testBit_lnot, ha i hi]

theorem shiftLeft_modEq (n : ℕ) (ha : a ≡ a' [ZMOD 2 ^ w]) :
    a <<< n ≡ a' <<< n [ZMOD 2 ^ w] := by
  rw [Int.shiftLeft_eq, Int.shiftLeft_eq]
  exact ha.mul_right _

end Operations

/-! ## §3  Signed residues -/

/-- The integers of a word of `w + 1` bits. -/
def SignedRange (w : ℕ) (z : ℤ) : Prop := -2 ^ w ≤ z ∧ z < 2 ^ w

instance (w : ℕ) (z : ℤ) : Decidable (SignedRange w z) := inferInstanceAs (Decidable (_ ∧ _))

/-- `z` wrapped to a word of `w + 1` bits. -/
def wrap (w : ℕ) (z : ℤ) : ℤ := z.bmod (2 ^ (w + 1))

section Signed

variable {w : ℕ} {z : ℤ}

theorem wrap_mem (w : ℕ) (z : ℤ) : SignedRange w (wrap w z) := by
  have hpos : 0 < 2 ^ (w + 1) := Nat.two_pow_pos _
  have hlow := @Int.le_bmod z (2 ^ (w + 1)) hpos
  have hhigh := @Int.bmod_lt z (2 ^ (w + 1)) hpos
  unfold SignedRange wrap
  rw [pow_succ] at *
  push_cast at *
  omega

theorem wrap_eq_iff : wrap w z = z ↔ SignedRange w z := by
  constructor
  · intro h
    exact h ▸ wrap_mem w z
  · rintro ⟨hlow, hhigh⟩
    unfold wrap
    apply Int.bmod_eq_of_le_mul_two <;> · rw [pow_succ]; push_cast; omega

/-- A natural number is the signed value of its lowest bits when it is less than half of what
they can count. -/
theorem toInt_ofNat_eq_iff {n : ℕ} : (BitVec.ofNat (w + 1) n).toInt = n ↔ n < 2 ^ w := by
  have hwrap : (BitVec.ofNat (w + 1) n).toInt = wrap w n := BitVec.toInt_ofNat' _
  rw [hwrap, wrap_eq_iff, SignedRange]
  have hpos : (0 : ℤ) < 2 ^ w := by positivity
  constructor
  · rintro ⟨-, hlt⟩
    exact_mod_cast hlt
  · intro hlt
    exact ⟨by omega, by exact_mod_cast hlt⟩

end Signed

end Foundation
