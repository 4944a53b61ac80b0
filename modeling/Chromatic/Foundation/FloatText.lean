import Chromatic.Foundation.DecimalText
import Chromatic.Foundation.HexText
import Mathlib.Tactic.Ring

/-!
# Numbers with a point

Reading a floating-point number off the front of a text, as `strtod` does in the C locale, and
rounding it to a binary format. A number that rounds past the largest one of the format is too
large; which ones are, is a matter of its value alone.

§1 texts · §2 formats · §3 what is too large.
-/

namespace Foundation

/-! ## §1  Texts -/

/-- What stands behind the sign; a finite number is a fraction. -/
inductive Magnitude where
  | infinity
  | nan
  | finite (num den : ℕ)
deriving DecidableEq, Repr

/-- The value of the leading digits continued from `acc`, how many there are on top of `count`,
and the rest of the text. -/
def readDigits (base : ℕ) (digit : Char → Option ℕ) (acc count : ℕ) :
    List Char → ℕ × ℕ × List Char
  | [] => (acc, count, [])
  | c :: cs =>
      match digit c with
      | none => (acc, count, c :: cs)
      | some d => readDigits base digit (base * acc + d) (count + 1) cs

/-- Digits with a point among them: their value without it, how many are behind it, and the rest
of the text. There is at least one. -/
def readMantissa (base : ℕ) (digit : Char → Option ℕ) (cs : List Char) :
    Option (ℕ × ℕ × List Char) :=
  let (whole, n, rest) := readDigits base digit 0 0 cs
  match rest with
  | '.' :: rest =>
      let (m, k, rest) := readDigits base digit whole 0 rest
      if n + k = 0 then none else some (m, k, rest)
  | _ => if n = 0 then none else some (whole, 0, rest)

/-- The exponent behind the letter, 0 if there is none. -/
def readExponent (letter : Char) : List Char → ℤ
  | [] => 0
  | c :: cs =>
      if c.toLower = letter then
        match readSigned cs with
        | some (e, _) => e
        | none => 0
      else 0

/-- `m * base ^ e`. -/
def scaled (base m : ℕ) (e : ℤ) : Magnitude :=
  if 0 ≤ e then .finite (m * base ^ e.toNat) 1 else .finite m (base ^ (-e).toNat)

/-- `0x` and at least one digit. -/
def readHexFloat : List Char → Option Magnitude
  | '0' :: x :: cs =>
      if x.toLower = 'x' then
        (readMantissa 16 hexDigit cs).map fun (m, k, rest) =>
          scaled 2 m (readExponent 'p' rest - 4 * k)
      else none
  | _ => none

def readMagnitude (cs : List Char) : Option Magnitude :=
  let word := (cs.take 3).map Char.toLower
  if word = ['i', 'n', 'f'] then some .infinity
  else if word = ['n', 'a', 'n'] then some .nan
  else
    match readHexFloat cs with
    | some x => some x
    | none =>
        (readMantissa 10 decDigit cs).map fun (m, k, rest) =>
          scaled 10 m (readExponent 'e' rest - k)

/-- The sign and the number that start the text. -/
def readFloat : List Char → Option (Bool × Magnitude)
  | '-' :: cs => (readMagnitude cs).map fun x => (true, x)
  | '+' :: cs => (readMagnitude cs).map fun x => (false, x)
  | cs => (readMagnitude cs).map fun x => (false, x)

theorem scaled_den_pos {base m num den : ℕ} {e : ℤ} (hbase : 0 < base)
    (h : scaled base m e = .finite num den) : 0 < den := by
  unfold scaled at h
  split_ifs at h <;> cases h
  · exact Nat.one_pos
  · exact Nat.pow_pos hbase

theorem readMagnitude_den_pos {cs : List Char} {num den : ℕ}
    (h : readMagnitude cs = some (.finite num den)) : 0 < den := by
  unfold readMagnitude at h
  dsimp only at h
  split_ifs at h
  · cases h
  · cases h
  · split at h
    · rename_i x hhex
      cases h
      unfold readHexFloat at hhex
      split at hhex
      · split_ifs at hhex
        obtain ⟨⟨m, k, rest⟩, -, heq⟩ := Option.map_eq_some_iff.mp hhex
        exact scaled_den_pos (by decide) heq
      · cases hhex
    · obtain ⟨⟨m, k, rest⟩, -, heq⟩ := Option.map_eq_some_iff.mp h
      exact scaled_den_pos (by decide) heq

theorem readFloat_den_pos {cs : List Char} {negative : Bool} {num den : ℕ}
    (h : readFloat cs = some (negative, .finite num den)) : 0 < den := by
  unfold readFloat at h
  split at h <;>
  · obtain ⟨x, hx, heq⟩ := Option.map_eq_some_iff.mp h
    obtain ⟨-, rfl⟩ := Prod.mk.inj heq
    exact readMagnitude_den_pos hx

example : readFloat "-12.5e3 and more".toList = some (true, .finite 12500 1) := by decide

/-! ## §2  Formats -/

/-- A binary format with the usual bias. The precision counts the leading bit, which is not
stored. -/
structure Format where
  precision : ℕ
  exponentBits : ℕ
  two_le_precision : 2 ≤ precision
  two_le_exponentBits : 2 ≤ exponentBits

def binary32 : Format := ⟨24, 8, by decide, by decide⟩

def binary64 : Format := ⟨53, 11, by decide, by decide⟩

namespace Format

variable (fmt : Format)

def bias : ℕ := 2 ^ (fmt.exponentBits - 1) - 1

/-- The least positive number is 2^-tiny. -/
def tiny : ℕ := fmt.bias + fmt.precision - 2

/-- The exponent field of what is not finite. -/
def top : ℕ := 2 ^ fmt.exponentBits - 1

def infinityBits : ℕ := fmt.top * 2 ^ (fmt.precision - 1)

def nanBits : ℕ := fmt.infinityBits + 2 ^ (fmt.precision - 2)

def signBit (negative : Bool) : ℕ :=
  if negative then 2 ^ (fmt.precision + fmt.exponentBits - 1) else 0

end Format

/-- The nearest integer to `a / d`, the even one of two. -/
def roundHalfEven (a d : ℕ) : ℕ :=
  if 2 * (a % d) < d then a / d
  else if d < 2 * (a % d) then a / d + 1
  else a / d + a / d % 2

namespace Format

variable (fmt : Format)

/-- How far the leading bit is above what the precision reaches. -/
def shift (num den : ℕ) : ℕ := (num * 2 ^ fmt.tiny / den).log2 - (fmt.precision - 1)

/-- The bits of the nearest number. A leading bit that is rounded up carries into the exponent,
at last into that of infinity. -/
def encode (num den : ℕ) : ℕ :=
  fmt.shift num den * 2 ^ (fmt.precision - 1) +
    roundHalfEven (num * 2 ^ fmt.tiny) (den * 2 ^ fmt.shift num den)

/-- Half way from the largest number to the next power of two, or above. -/
def TooLarge (num den : ℕ) : Prop :=
  (2 ^ (fmt.precision + 1) - 1) * 2 ^ (fmt.top - 3) * den ≤ num * 2 ^ fmt.tiny

/-- Above zero and below all numbers with a leading bit. -/
def Subnormal (num den : ℕ) : Prop := 0 < num ∧ num * 2 ^ (fmt.bias - 1) < den

instance (num den : ℕ) : Decidable (fmt.TooLarge num den) := by
  unfold TooLarge; infer_instance

instance (num den : ℕ) : Decidable (fmt.Subnormal num den) := by
  unfold Subnormal; infer_instance

end Format

/-! ## §3  What is too large -/

section Rounding

variable {a d m : ℕ}

theorem div_le_roundHalfEven : a / d ≤ roundHalfEven a d := by
  unfold roundHalfEven
  split_ifs <;> omega

theorem roundHalfEven_le : roundHalfEven a d ≤ a / d + 1 := by
  unfold roundHalfEven
  split_ifs <;> omega

/-- What lies half way below an even number is rounded up to it. -/
theorem le_roundHalfEven_iff (hd : 0 < d) (hm : m % 2 = 0) :
    m ≤ roundHalfEven a d ↔ 2 * (m * d) ≤ 2 * a + d := by
  have hsplit : a / d * d + a % d = a := Nat.div_add_mod' a d
  have hrem : a % d < d := Nat.mod_lt a hd
  rcases Nat.lt_trichotomy m (a / d + 1) with hlt | heq | hgt
  · refine iff_of_true ((Nat.le_of_lt_succ hlt).trans div_le_roundHalfEven) ?_
    have hmul : m * d ≤ a / d * d := Nat.mul_le_mul_right d (Nat.le_of_lt_succ hlt)
    omega
  · -- only the remainder counts
    have hmul : m * d = a / d * d + d := by rw [heq, Nat.succ_mul]
    rw [hmul]
    unfold roundHalfEven
    split_ifs <;> omega
  · refine iff_of_false (fun h => absurd (h.trans roundHalfEven_le) (by omega)) ?_
    have hmul : (a / d + 2) * d ≤ m * d := Nat.mul_le_mul_right d hgt
    have hexpand : (a / d + 2) * d = a / d * d + 2 * d := Nat.add_mul _ _ _
    omega

end Rounding

namespace Format

variable {fmt : Format} {num den : ℕ}

theorem three_le_top (fmt : Format) : 3 ≤ fmt.top := by
  have hpow : 2 ^ 2 ≤ 2 ^ fmt.exponentBits :=
    Nat.pow_le_pow_right (by decide) fmt.two_le_exponentBits
  unfold top
  omega

theorem encode_le {x : ℕ} (hx : num * 2 ^ fmt.tiny = x) :
    fmt.encode num den ≤ (fmt.shift num den + 2) * 2 ^ (fmt.precision - 1) := by
  have hprecision := fmt.two_le_precision
  have hquot : x / (den * 2 ^ fmt.shift num den) < 2 ^ fmt.precision := by
    rw [← Nat.div_div_eq_div_mul, Nat.div_lt_iff_lt_mul (Nat.two_pow_pos _), ← pow_add]
    refine lt_of_lt_of_le Nat.lt_log2_self (Nat.pow_le_pow_right (by decide) ?_)
    unfold shift
    rw [hx]
    omega
  have hpow : 2 ^ fmt.precision = 2 * 2 ^ (fmt.precision - 1) := by
    rw [← pow_succ']
    congr 1
    omega
  have hround := @roundHalfEven_le x (den * 2 ^ fmt.shift num den)
  rw [encode, hx, Nat.add_mul]
  omega

theorem le_encode {x : ℕ} (hx : num * 2 ^ fmt.tiny = x)
    (hlog : fmt.precision - 1 ≤ (x / den).log2) (hpos : x / den ≠ 0) :
    (fmt.shift num den + 1) * 2 ^ (fmt.precision - 1) ≤ fmt.encode num den := by
  have hquot : 2 ^ (fmt.precision - 1) ≤ x / (den * 2 ^ fmt.shift num den) := by
    rw [← Nat.div_div_eq_div_mul, Nat.le_div_iff_mul_le (Nat.two_pow_pos _), ← pow_add]
    refine le_trans (Nat.pow_le_pow_right (by decide) ?_) (Nat.log2_self_le hpos)
    unfold shift
    rw [hx]
    omega
  have hround := @div_le_roundHalfEven x (den * 2 ^ fmt.shift num den)
  rw [encode, hx, Nat.add_mul, Nat.one_mul]
  omega

section Infinity

variable {p k x : ℕ}

theorem shift_eq (hp : fmt.precision = p + 2) (hx : num * 2 ^ fmt.tiny = x) :
    fmt.shift num den = (x / den).log2 - (p + 1) := by
  rw [shift, hx, hp]
  rfl

/-- Below the largest power of two. -/
theorem encode_lt_of_lt (hp : fmt.precision = p + 2) (hx : num * 2 ^ fmt.tiny = x) (hden : 0 < den)
    (hlt : x / den < 2 ^ (p + 2 + k)) :
    fmt.encode num den < (k + 3) * 2 ^ (p + 1) ∧ x < (4 * 2 ^ (p + 1) - 1) * (2 ^ k * den) := by
  have hunit : 0 < 2 ^ (p + 1) := Nat.two_pow_pos _
  constructor
  · have hlog : (x / den).log2 ≤ p + 1 + k := by
      by_cases hzero : x / den = 0
      · rw [hzero]
        exact Nat.zero_le _
      · exact Nat.le_of_lt_succ ((Nat.log2_lt hzero).mpr (hlt.trans_eq (by congr 1; omega)))
    have hle := @encode_le fmt num den x hx
    rw [shift_eq hp hx, hp] at hle
    calc
      _ ≤ _ := hle
      _ ≤ (k + 2) * 2 ^ (p + 1) := Nat.mul_le_mul_right _ (by omega)
      _ < (k + 3) * 2 ^ (p + 1) := Nat.mul_lt_mul_of_pos_right (by omega) hunit
  · calc
      x < (x / den + 1) * den := by
        rw [Nat.succ_mul]
        exact Nat.lt_div_mul_add hden
      _ ≤ 2 ^ (p + 2 + k) * den := Nat.mul_le_mul_right _ hlt
      _ = 2 * 2 ^ (p + 1) * (2 ^ k * den) := by ring
      _ ≤ (4 * 2 ^ (p + 1) - 1) * (2 ^ k * den) := Nat.mul_le_mul_right _ (by omega)

/-- Between the largest power of two and the next the rounding decides. -/
theorem le_encode_iff (hp : fmt.precision = p + 2) (hx : num * 2 ^ fmt.tiny = x) (hden : 0 < den)
    (hle : 2 ^ (p + 2 + k) ≤ x / den) (hlt : x / den < 2 ^ (p + 3 + k)) :
    (k + 3) * 2 ^ (p + 1) ≤ fmt.encode num den ↔
      (4 * 2 ^ (p + 1) - 1) * (2 ^ k * den) ≤ x := by
  have hpos : x / den ≠ 0 := (lt_of_lt_of_le (Nat.two_pow_pos _) hle).ne'
  have hlow : p + 2 + k ≤ (x / den).log2 := (Nat.le_log2 hpos).mpr hle
  have hhigh : (x / den).log2 < p + 3 + k := (Nat.log2_lt hpos).mpr hlt
  have hshift : fmt.shift num den = k + 1 := by
    rw [shift_eq hp hx]
    omega
  have hstep : den * 2 ^ (k + 1) = 2 * (2 ^ k * den) := by ring
  have hencode : fmt.encode num den =
      (k + 1) * 2 ^ (p + 1) + roundHalfEven x (2 * (2 ^ k * den)) := by
    rw [encode, hx, hshift, hp, hstep]
    rfl
  have hround := @le_roundHalfEven_iff x (2 * (2 ^ k * den)) (2 * 2 ^ (p + 1))
    (by have := Nat.mul_pos (Nat.two_pow_pos k) hden; omega) (by omega)
  have hsum : (k + 3) * 2 ^ (p + 1) = (k + 1) * 2 ^ (p + 1) + 2 * 2 ^ (p + 1) :=
    Nat.add_mul (k + 1) 2 _
  have hassoc : 2 * 2 ^ (p + 1) * (2 * (2 ^ k * den)) = 4 * 2 ^ (p + 1) * (2 ^ k * den) := by
    ring
  rw [hencode, hsum, Nat.add_le_add_iff_left, hround, hassoc, Nat.sub_mul, Nat.one_mul]
  omega

/-- From the next power of two on. -/
theorem le_encode_of_le (hp : fmt.precision = p + 2) (hx : num * 2 ^ fmt.tiny = x)
    (hle : 2 ^ (p + 3 + k) ≤ x / den) :
    (k + 3) * 2 ^ (p + 1) ≤ fmt.encode num den ∧
      (4 * 2 ^ (p + 1) - 1) * (2 ^ k * den) ≤ x := by
  have hpos : x / den ≠ 0 := (lt_of_lt_of_le (Nat.two_pow_pos _) hle).ne'
  have hlog : p + 3 + k ≤ (x / den).log2 := (Nat.le_log2 hpos).mpr hle
  constructor
  · have hlow := @le_encode fmt num den x hx (by omega) hpos
    rw [shift_eq hp hx, hp] at hlow
    exact le_trans (Nat.mul_le_mul_right _ (by omega)) hlow
  · calc
      _ ≤ 4 * 2 ^ (p + 1) * (2 ^ k * den) := Nat.mul_le_mul_right _ (Nat.sub_le _ _)
      _ = 2 ^ (p + 3 + k) * den := by ring
      _ ≤ x / den * den := Nat.mul_le_mul_right _ hle
      _ ≤ x := Nat.div_mul_le_self x den

end Infinity

/-- **What is rounded to infinity.** -/
theorem infinityBits_le_encode_iff (hden : 0 < den) :
    fmt.infinityBits ≤ fmt.encode num den ↔ fmt.TooLarge num den := by
  obtain ⟨p, hp⟩ := Nat.exists_eq_add_of_le' fmt.two_le_precision
  obtain ⟨k, hk⟩ := Nat.exists_eq_add_of_le' fmt.three_le_top
  obtain ⟨x, hx⟩ : ∃ x, num * 2 ^ fmt.tiny = x := ⟨_, rfl⟩
  have hbits : fmt.infinityBits = (k + 3) * 2 ^ (p + 1) := by
    rw [infinityBits, hk, hp]
    rfl
  have hlarge : fmt.TooLarge num den ↔ (4 * 2 ^ (p + 1) - 1) * (2 ^ k * den) ≤ x := by
    rw [TooLarge, hk, hp, hx, Nat.mul_assoc]
    change (2 ^ (p + 1 + 2) - 1) * _ ≤ x ↔ _
    rw [pow_add _ (p + 1), Nat.mul_comm (2 ^ (p + 1))]
    rfl
  rw [hbits, hlarge]
  rcases Nat.lt_or_ge (x / den) (2 ^ (p + 2 + k)) with hlt | hle
  · obtain ⟨hencode, hx'⟩ := @encode_lt_of_lt fmt num den p k x hp hx hden hlt
    exact iff_of_false hencode.not_ge hx'.not_ge
  · rcases Nat.lt_or_ge (x / den) (2 ^ (p + 3 + k)) with hlt | hge
    · exact le_encode_iff hp hx hden hle hlt
    · obtain ⟨hencode, hx'⟩ := @le_encode_of_le fmt num den p k x hp hx hge
      exact iff_of_true hencode hx'

end Format

end Foundation
