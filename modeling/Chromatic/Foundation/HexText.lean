import Mathlib.Data.Nat.Basic
import Mathlib.Tactic.IntervalCases

/-!
# Hexadecimal text and 53-bit numbers

Reading back what is printed in base 16, and the rounding of a natural number to a
double, which is exact below 2^53.

§1 hexadecimal digits · §2 rounding to a double.
-/

namespace Foundation

/-! ## §1  Hexadecimal digits -/

def hexDigit (c : Char) : Option ℕ :=
  if '0' ≤ c ∧ c ≤ '9' then some (c.toNat - 48)
  else if 'a' ≤ c ∧ c ≤ 'f' then some (c.toNat - 87)
  else if 'A' ≤ c ∧ c ≤ 'F' then some (c.toNat - 55)
  else none

/-- The value of the leading hexadecimal digits, continued from `acc`. -/
def readHex (acc : ℕ) : List Char → ℕ
  | [] => acc
  | c :: cs =>
    match hexDigit c with
    | none => acc
    | some d => readHex (16 * acc + d) cs

theorem hexDigit_digitChar {d : ℕ} (h : d < 16) : hexDigit d.digitChar = some d := by
  interval_cases d <;> decide

theorem hexDigit_lt {c : Char} {d : ℕ} (h : hexDigit c = some d) : d < 16 := by
  unfold hexDigit at h
  split_ifs at h with hdec hlow hup
  · have hle : c.toNat ≤ 57 := hdec.2
    have := Option.some.inj h
    omega
  · have hle : c.toNat ≤ 102 := hlow.2
    have := Option.some.inj h
    omega
  · have hle : c.toNat ≤ 70 := hup.2
    have := Option.some.inj h
    omega

theorem readHex_append_digit {cs : List Char} {acc d : ℕ} (hd : d < 16)
    (hcs : ∀ c ∈ cs, (hexDigit c).isSome) :
    readHex acc (cs ++ [d.digitChar]) = 16 * readHex acc cs + d := by
  induction cs generalizing acc with
  | nil => simp [readHex, hexDigit_digitChar hd]
  | cons c cs ih =>
      obtain ⟨e, he⟩ := Option.isSome_iff_exists.mp (hcs c List.mem_cons_self)
      simp only [List.cons_append, readHex, he]
      exact ih fun c' hc' => hcs c' (List.mem_cons_of_mem _ hc')

/-- Printing in base 16 and reading back. -/
theorem readHex_toDigits (n : ℕ) :
    readHex 0 (Nat.toDigits 16 n) = n ∧ ∀ c ∈ Nat.toDigits 16 n, (hexDigit c).isSome := by
  induction n using Nat.strongRecOn with
  | ind n ih =>
      have hmod : n % 16 < 16 := Nat.mod_lt n (by decide)
      by_cases hsmall : n < 16
      · rw [Nat.toDigits_of_lt_base hsmall]
        simp [readHex, hexDigit_digitChar hsmall]
      · obtain ⟨hread, hdigits⟩ := ih (n / 16) (by omega)
        rw [Nat.toDigits_of_base_le (by decide) (by omega)]
        refine ⟨?_, ?_⟩
        · rw [readHex_append_digit hmod hdigits, hread]
          omega
        · intro c hc
          rcases List.mem_append.mp hc with hold | hnew
          · exact hdigits c hold
          · rw [List.mem_singleton.mp hnew, hexDigit_digitChar hmod]
            rfl

/-! ## §2  Rounding to a double -/

/-- The nearest integer with 53 significant bits, ties to even. -/
def roundDouble (n : ℕ) : ℕ :=
  if n < 2 ^ 53 then n
  else
    let e := n.log2 - 52
    let q := n / 2 ^ e
    let r := n % 2 ^ e
    let up := 2 ^ (e - 1) < r ∨ (r = 2 ^ (e - 1) ∧ q % 2 = 1)
    (if up then q + 1 else q) * 2 ^ e

theorem roundDouble_of_lt {n : ℕ} (h : n < 2 ^ 53) : roundDouble n = n := if_pos h

end Foundation
