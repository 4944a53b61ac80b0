import Mathlib.Algebra.BigOperators.Group.List.Basic
import Mathlib.Algebra.GroupWithZero.Nat
import Mathlib.Order.Nat
import Mathlib.Data.Nat.Find

/-!
# Items grouped by bucket

Items in one row, bucket after bucket; the last item of each bucket is marked. How many there
are is not stored: it shows at the mark after the start of the last bucket with items.

§1 where a bucket starts · §2 the last bucket with items.
-/

namespace Foundation

namespace BucketChains

/-! ## §1  Where a bucket starts -/

section Offsets

variable (sizes : List ℕ)

/-- The position of the first item of bucket `i`. -/
def first (i : ℕ) : ℕ := (sizes.take i).sum

/-- Some bucket with items ends after item `j`. -/
def IsLast (j : ℕ) : Prop := ∃ i, i < sizes.length ∧ first sizes (i + 1) = j + 1

instance (j : ℕ) : Decidable (IsLast sizes j) :=
  inferInstanceAs (Decidable (∃ i, i < sizes.length ∧ _))

theorem first_succ {i : ℕ} (h : i < sizes.length) :
    first sizes (i + 1) = first sizes i + sizes[i] :=
  List.sum_take_succ sizes i h

@[simp] theorem first_length : first sizes sizes.length = sizes.sum := by simp [first]

theorem first_mono {i k : ℕ} (h : i ≤ k) : first sizes i ≤ first sizes k := by
  have hsplit := congrArg List.sum (List.take_append_drop i (sizes.take k))
  rw [List.take_take, min_eq_left h, List.sum_append] at hsplit
  exact (Nat.le_add_right _ _).trans hsplit.le

theorem first_le_sum (i : ℕ) : first sizes i ≤ sizes.sum := by
  rcases le_total i sizes.length with h | h
  · exact first_length sizes ▸ first_mono sizes h
  · rw [first, List.take_of_length_le h]

end Offsets

/-! ## §2  The last bucket with items -/

section LastBucket

variable {sizes : List ℕ}

/-- Bucket `k` has items, and they are the last. -/
structure LastBucket (sizes : List ℕ) (k : ℕ) : Prop where
  lt : k < sizes.length
  starts : first sizes k < sizes.sum
  ends : first sizes (k + 1) = sizes.sum

theorem exists_lastBucket (h : sizes.sum ≠ 0) : ∃ k, LastBucket sizes k := by
  have hall : ∃ m, first sizes m = sizes.sum := ⟨_, first_length sizes⟩
  obtain ⟨k, hk⟩ : ∃ k, Nat.find hall = k + 1 := by
    refine Nat.exists_eq_succ_of_ne_zero fun hzero => h ?_
    have hend := Nat.find_spec hall
    rw [hzero] at hend
    exact hend.symm
  have hend := Nat.find_spec hall
  have hlen := Nat.find_min' hall (first_length sizes)
  rw [hk] at hend hlen
  refine ⟨k, hlen, lt_of_le_of_ne (first_le_sum sizes k) fun hearly => ?_, hend⟩
  exact Nat.find_min hall (by omega) hearly

variable {k : ℕ} (hk : LastBucket sizes k)
include hk

theorem LastBucket.first_le {i : ℕ} (hi : i < sizes.length) (hne : sizes[i] ≠ 0) :
    first sizes i ≤ first sizes k := by
  rcases Nat.lt_or_ge k i with hlt | hge
  · have hafter := first_mono sizes (show k + 1 ≤ i from hlt)
    have hsucc := first_succ sizes hi
    have hle := first_le_sum sizes (i + 1)
    have hends := hk.ends
    exfalso
    omega
  · exact first_mono sizes hge

/-- From the start of that bucket on, the mark is at the very last item only. -/
theorem LastBucket.isLast_iff {j : ℕ} (hj : first sizes k ≤ j) :
    IsLast sizes j ↔ j + 1 = sizes.sum := by
  constructor
  · rintro ⟨i, hi, hlast⟩
    rcases Nat.lt_or_ge i k with hlt | hge
    · have hbefore := first_mono sizes (show i + 1 ≤ k from hlt)
      omega
    · have hafter := first_mono sizes (show k + 1 ≤ i + 1 by omega)
      have hle := first_le_sum sizes (i + 1)
      have hends := hk.ends
      omega
  · intro hlast
    exact ⟨k, hk.lt, hk.ends.trans hlast.symm⟩

end LastBucket

end BucketChains

end Foundation
