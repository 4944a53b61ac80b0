import Chromatic.Foundation.Memory
import Mathlib.Data.Int.ModEq
import Mathlib.Tactic.Ring

/-!
# Little-endian words of any width

Numbers as lists of bytes, least significant first, and what the bytes of a word say when they
are read as a narrower one.

§1 bytes of a number · §2 parts of a word · §3 signed words.
-/

namespace Foundation

/-! ## §1  Bytes of a number -/

/-- The `n` lowest bytes of `v`. -/
def toLe : ℕ → ℕ → List Byte
  | 0, _ => []
  | n + 1, v => BitVec.ofNat 8 v :: toLe n (v / 256)

/-- The number that the bytes spell. -/
def ofLe : List Byte → ℕ
  | [] => 0
  | b :: bs => b.toNat + 256 * ofLe bs

section Bytes

variable {n v : ℕ} {bs cs : List Byte}

@[simp] theorem length_toLe (n v : ℕ) : (toLe n v).length = n := by
  induction n generalizing v with
  | zero => rfl
  | succ n ih => rw [toLe, List.length_cons, ih]

theorem ofLe_lt (bs : List Byte) : ofLe bs < 256 ^ bs.length := by
  induction bs with
  | nil => exact Nat.one_pos
  | cons b bs ih =>
      have hb : b.toNat < 256 := b.isLt
      rw [ofLe, List.length_cons, pow_succ']
      omega

/-- Writing and reading a number keeps what fits. -/
theorem ofLe_toLe (n v : ℕ) : ofLe (toLe n v) = v % 256 ^ n := by
  induction n generalizing v with
  | zero => simp [toLe, ofLe, Nat.mod_one]
  | succ n ih =>
      have hb : (BitVec.ofNat 8 v).toNat = v % 256 := BitVec.toNat_ofNat v 8
      rw [toLe, ofLe, ih, hb, pow_succ', Nat.mod_mul]

theorem ofLe_append (bs cs : List Byte) :
    ofLe (bs ++ cs) = ofLe bs + 256 ^ bs.length * ofLe cs := by
  induction bs with
  | nil => simp [ofLe]
  | cons b bs ih =>
      rw [List.cons_append, ofLe, ih, ofLe, List.length_cons]
      ring

end Bytes

/-! ## §2  Parts of a word -/

section Parts

variable {bs : List Byte} {j n : ℕ}

/-- The first `j` bytes and the rest. -/
theorem ofLe_split (h : j ≤ bs.length) :
    ofLe bs = ofLe (bs.take j) + 256 ^ j * ofLe (bs.drop j) := by
  have happend := ofLe_append (bs.take j) (bs.drop j)
  rwa [List.take_append_drop, List.length_take_of_le h] at happend

theorem ofLe_take_lt (h : j ≤ bs.length) : ofLe (bs.take j) < 256 ^ j := by
  have hlt := ofLe_lt (bs.take j)
  rwa [List.length_take_of_le h] at hlt

theorem ofLe_drop (h : j ≤ bs.length) : ofLe (bs.drop j) = ofLe bs / 256 ^ j := by
  rw [ofLe_split h, Nat.add_mul_div_left _ _ (Nat.pow_pos (by decide)),
    Nat.div_eq_of_lt (ofLe_take_lt h), Nat.zero_add]

theorem ofLe_take (h : j ≤ bs.length) : ofLe (bs.take j) = ofLe bs % 256 ^ j := by
  rw [ofLe_split h, Nat.add_mul_mod_self_left, Nat.mod_eq_of_lt (ofLe_take_lt h)]

/-- `n` bytes of a word from its `j`-th on. -/
theorem ofLe_take_drop (h : j + n ≤ bs.length) :
    ofLe ((bs.drop j).take n) = ofLe bs / 256 ^ j % 256 ^ n := by
  rw [ofLe_take (by rw [List.length_drop]; omega), ofLe_drop (by omega)]

end Parts

/-! ## §3  Signed words -/

/-- The number that `n` bytes spell: in two's complement, or unsigned. -/
def word (signed : Bool) (bs : List Byte) : ℤ :=
  if signed then (ofLe bs : ℤ).bmod (256 ^ bs.length) else ofLe bs

/-- A number as `n` bytes hold it. -/
def held (signed : Bool) (n : ℕ) (v : ℤ) : ℤ :=
  if signed then v.bmod (256 ^ n) else v % (256 ^ n : ℕ)

theorem word_eq_held {signed : Bool} {bs : List Byte} {n : ℕ} {v : ℤ} (hlen : bs.length = n)
    (h : (ofLe bs : ℤ) ≡ v [ZMOD (256 ^ n : ℕ)]) : word signed bs = held signed n v := by
  subst hlen
  cases signed with
  | true =>
      show (ofLe bs : ℤ).bmod (256 ^ bs.length) = v.bmod (256 ^ bs.length)
      rw [← Int.emod_bmod, show (ofLe bs : ℤ) % (256 ^ bs.length : ℕ) = v % (256 ^ bs.length : ℕ)
        from h, Int.emod_bmod]
  | false =>
      show (ofLe bs : ℤ) = v % (256 ^ bs.length : ℕ)
      rw [← show (ofLe bs : ℤ) % (256 ^ bs.length : ℕ) = v % (256 ^ bs.length : ℕ) from h]
      exact (Int.emod_eq_of_lt (Int.natCast_nonneg _) (by exact_mod_cast ofLe_lt bs)).symm

end Foundation
