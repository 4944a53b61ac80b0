import Mathlib.Data.Int.Basic
import Mathlib.Tactic.IntervalCases
import Mathlib.Tactic.Positivity
import Mathlib.Tactic.Zify

/-!
# Decimal text

Reading an integer off the front of a text, as C and JavaScript do: a sign, at least one
digit, and whatever follows. What is printed is read back with nothing left over.

§1 digits · §2 signs · §3 machine integers.
-/

namespace Foundation

/-! ## §1  Digits -/

def decDigit (c : Char) : Option ℕ :=
  if '0' ≤ c ∧ c ≤ '9' then some (c.toNat - 48) else none

/-- The value of the leading digits, continued from `acc`, and the rest of the text. -/
def readDec (acc : ℕ) : List Char → ℕ × List Char
  | [] => (acc, [])
  | c :: cs =>
    match decDigit c with
    | none => (acc, c :: cs)
    | some d => readDec (10 * acc + d) cs

/-- At least one digit. -/
def readUnsigned : List Char → Option (ℕ × List Char)
  | [] => none
  | c :: cs => if (decDigit c).isSome then some (readDec 0 (c :: cs)) else none

theorem decDigit_digitChar {d : ℕ} (h : d < 10) : decDigit d.digitChar = some d := by
  interval_cases d <;> decide

theorem readDec_append_digit {cs : List Char} {acc d : ℕ} (hd : d < 10)
    (hcs : ∀ c ∈ cs, (decDigit c).isSome) :
    readDec acc (cs ++ [d.digitChar]) = (10 * (readDec acc cs).1 + d, []) := by
  induction cs generalizing acc with
  | nil => simp [readDec, decDigit_digitChar hd]
  | cons c cs ih =>
      obtain ⟨e, he⟩ := Option.isSome_iff_exists.mp (hcs c List.mem_cons_self)
      simp only [List.cons_append, readDec, he]
      exact ih fun c' hc' => hcs c' (List.mem_cons_of_mem _ hc')

/-- Printing in base 10 and reading back. -/
theorem readDec_toDigits (n : ℕ) :
    readDec 0 (Nat.toDigits 10 n) = (n, []) ∧
      ∀ c ∈ Nat.toDigits 10 n, (decDigit c).isSome := by
  induction n using Nat.strongRecOn with
  | ind n ih =>
      have hmod : n % 10 < 10 := Nat.mod_lt n (by decide)
      by_cases hsmall : n < 10
      · rw [Nat.toDigits_of_lt_base hsmall]
        simp [readDec, decDigit_digitChar hsmall]
      · obtain ⟨hread, hdigits⟩ := ih (n / 10) (by omega)
        rw [Nat.toDigits_of_base_le (by decide) (by omega)]
        refine ⟨?_, ?_⟩
        · rw [readDec_append_digit hmod hdigits, hread]
          simp only [Prod.mk.injEq, and_true]
          omega
        · intro c hc
          rcases List.mem_append.mp hc with hold | hnew
          · exact hdigits c hold
          · rw [List.mem_singleton.mp hnew, decDigit_digitChar hmod]
            rfl

theorem readUnsigned_toDigits (n : ℕ) :
    readUnsigned (Nat.toDigits 10 n) = some (n, []) := by
  obtain ⟨hread, hdigits⟩ := readDec_toDigits n
  cases hcs : Nat.toDigits 10 n with
  | nil => exact absurd hcs Nat.toDigits_ne_nil
  | cons c cs =>
      rw [hcs] at hread hdigits
      rw [readUnsigned, if_pos (hdigits c List.mem_cons_self), hread]

/-! ## §2  Signs -/

def readSigned : List Char → Option (ℤ × List Char)
  | '-' :: cs => (readUnsigned cs).map fun p => (-(p.1 : ℤ), p.2)
  | '+' :: cs => (readUnsigned cs).map fun p => ((p.1 : ℤ), p.2)
  | cs => (readUnsigned cs).map fun p => ((p.1 : ℤ), p.2)

theorem toString_toList (v : ℤ) :
    (toString v).toList =
      if 0 ≤ v then Nat.toDigits 10 v.toNat else '-' :: Nat.toDigits 10 (-v).toNat := by
  rw [Int.toString_eq_repr, Int.repr_eq_if]
  split <;> simp

/-- A digit is neither a sign nor a blank. -/
theorem readSigned_toDigits (n : ℕ) :
    readSigned (Nat.toDigits 10 n) = some ((n : ℤ), []) := by
  have hread := readUnsigned_toDigits n
  have hdigits := (readDec_toDigits n).2
  cases hcs : Nat.toDigits 10 n with
  | nil => exact absurd hcs Nat.toDigits_ne_nil
  | cons c cs =>
      rw [hcs] at hread hdigits
      have hc := hdigits c List.mem_cons_self
      unfold readSigned
      split
      · rename_i heq
        obtain ⟨rfl, -⟩ := List.cons.inj heq
        cases hc
      · rename_i heq
        obtain ⟨rfl, -⟩ := List.cons.inj heq
        cases hc
      · rw [hread]
        rfl

theorem readSigned_toString (v : ℤ) : readSigned (toString v).toList = some (v, []) := by
  rw [toString_toList]
  split
  · rename_i hpos
    rw [readSigned_toDigits, Int.toNat_of_nonneg hpos]
  · rename_i hneg
    simp only [readSigned, readUnsigned_toDigits, Option.map_some, Option.some.injEq,
      Prod.mk.injEq, and_true]
    omega

/-- What is printed starts with a digit or a minus sign, and digits follow. -/
theorem toString_chars (v : ℤ) :
    ∃ c cs, (toString v).toList = c :: cs ∧ (c = '-' ∨ (decDigit c).isSome) ∧
      ∀ c ∈ cs, (decDigit c).isSome := by
  rw [toString_toList]
  split
  · have hdigits := (readDec_toDigits v.toNat).2
    cases hcs : Nat.toDigits 10 v.toNat with
    | nil => exact absurd hcs Nat.toDigits_ne_nil
    | cons c cs =>
        rw [hcs] at hdigits
        exact ⟨c, cs, rfl, .inr (hdigits c List.mem_cons_self),
          fun c' hc' => hdigits c' (List.mem_cons_of_mem _ hc')⟩
  · exact ⟨'-', _, rfl, .inl rfl, (readDec_toDigits (-v).toNat).2⟩

/-! ## §3  Machine integers -/

/-- The low bits of a word that holds `v`. -/
theorem setWidth_ofInt {w w' : ℕ} (h : w' ≤ w) (v : ℤ) :
    (BitVec.ofInt w v).setWidth w' = BitVec.ofInt w' v := by
  apply BitVec.eq_of_toNat_eq
  rw [BitVec.toNat_setWidth, BitVec.toNat_ofInt, BitVec.toNat_ofInt]
  have hdvd : (2 : ℤ) ^ w' ∣ 2 ^ w := pow_dvd_pow 2 h
  have hpos : ∀ n : ℕ, 0 ≤ v % (2 : ℤ) ^ n := fun n => Int.emod_nonneg v (by positivity)
  zify
  rw [Int.toNat_of_nonneg (hpos w), Int.toNat_of_nonneg (hpos w')]
  exact Int.emod_emod_of_dvd v hdvd

/-- Sign or zero extension of what fits. -/
theorem signExtend_ofInt {w w' : ℕ} {v : ℤ} (hw : 0 < w) (hlow : -2 ^ (w - 1) ≤ v)
    (hhigh : v < 2 ^ (w - 1)) : (BitVec.ofInt w v).signExtend w' = BitVec.ofInt w' v := by
  rw [BitVec.signExtend, BitVec.toInt_ofInt_eq_self hw hlow hhigh]

theorem zeroExtend_ofInt {w w' : ℕ} {v : ℤ} (hlow : 0 ≤ v) (hhigh : v < 2 ^ w) :
    (BitVec.ofInt w v).setWidth w' = BitVec.ofInt w' v := by
  obtain ⟨n, rfl⟩ := Int.eq_ofNat_of_zero_le hlow
  have hn : n < 2 ^ w := by exact_mod_cast hhigh
  apply BitVec.eq_of_toNat_eq
  simp [Nat.mod_eq_of_lt hn]

end Foundation
