import Mathlib.Algebra.BigOperators.Group.Finset.Basic
import Mathlib.Data.Fintype.Basic

/-!
# What a fixed set of slots holds

A slot holds a value or nothing. The values are counted with multiplicity, so that a
value moving from slot to slot is neither lost nor doubled. Numbered slots are searched
from the lowest, and a bit mask says which of them are in use.
-/

namespace Foundation

variable {ι α : Type*} [Fintype ι]

/-- The value of one slot, as a multiset. -/
def bag (o : Option α) : Multiset α := (o.toList : Multiset α)

@[simp] theorem bag_none : bag (none : Option α) = 0 := rfl

@[simp] theorem bag_some (a : α) : bag (some a) = {a} := rfl

theorem mem_bag {a : α} {o : Option α} : a ∈ bag o ↔ o = some a := by
  cases o with
  | none => simp
  | some b =>
      rw [bag_some, Multiset.mem_singleton, Option.some.injEq]
      exact eq_comm

/-- All values held. The sum is not to be unfolded slot by slot. -/
@[irreducible] def contents (f : ι → Option α) : Multiset α := ∑ i, bag (f i)

theorem mem_contents {a : α} {f : ι → Option α} : a ∈ contents f ↔ ∃ i, f i = some a := by
  simp only [contents, Multiset.mem_sum, Finset.mem_univ, true_and, mem_bag]

theorem contents_none : contents (fun _ : ι => (none : Option α)) = 0 := by
  simp [contents]

variable [DecidableEq ι]

/-- One slot apart. -/
theorem contents_eq_add (f : ι → Option α) (i : ι) :
    contents f = bag (f i) + contents (Function.update f i none) := by
  have hsplit := Finset.add_sum_erase Finset.univ (fun j => bag (f j)) (Finset.mem_univ i)
  have hsplit' := Finset.add_sum_erase Finset.univ
    (fun j => bag (Function.update f i none j)) (Finset.mem_univ i)
  simp only [Function.update_self, bag_none, zero_add] at hsplit'
  rw [contents, contents, ← hsplit, ← hsplit']
  congr 1
  refine Finset.sum_congr rfl fun j hj => ?_
  rw [Function.update_of_ne (Finset.ne_of_mem_erase hj)]

/-- Writing a slot puts its new value in and takes its old one out. -/
theorem contents_update (f : ι → Option α) (i : ι) (o : Option α) :
    bag (f i) + contents (Function.update f i o) = contents f + bag o := by
  have hnew := contents_eq_add (Function.update f i o) i
  rw [Function.update_self, Function.update_idem] at hnew
  rw [hnew, contents_eq_add f i, add_comm (bag o), add_assoc]

theorem contents_update_le (f : ι → Option α) (i : ι) (o : Option α) :
    contents (Function.update f i o) ≤ contents f + bag o := by
  rw [← contents_update f i o]
  exact Multiset.le_add_left _ _

/-! ## Numbered slots -/

section Numbered

variable {n : ℕ}

/-- A search through the slots stops at the lowest one that answers. -/
theorem findSome?_finRange_eq_some {f : Fin n → Option α} {a : α} :
    (List.finRange n).findSome? f = some a ↔ ∃ i, f i = some a ∧ ∀ j < i, f j = none := by
  have hsorted := List.pairwise_lt_finRange n
  rw [List.findSome?_eq_some_iff]
  constructor
  · rintro ⟨front, i, back, hsplit, hi, hfront⟩
    refine ⟨i, hi, fun j hj => hfront j ?_⟩
    rw [hsplit, List.pairwise_append, List.pairwise_cons] at hsorted
    have hmem := List.mem_finRange j
    rw [hsplit, List.mem_append, List.mem_cons] at hmem
    rcases hmem with hmem | rfl | hmem
    · exact hmem
    · exact absurd hj (lt_irrefl _)
    · exact absurd hj (lt_asymm (hsorted.2.1.1 j hmem))
  · rintro ⟨i, hi, hbelow⟩
    obtain ⟨front, back, hsplit⟩ := List.append_of_mem (List.mem_finRange i)
    rw [hsplit, List.pairwise_append] at hsorted
    exact ⟨front, i, back, hsplit, hi,
      fun j hj => hbelow j (hsorted.2.2 j hj i List.mem_cons_self)⟩

theorem getLsbD_one_shiftLeft {w : ℕ} {i j : ℕ} (hj : j < w) :
    ((1 : BitVec w) <<< i).getLsbD j = decide (j = i) := by
  have hw : 0 < w := by omega
  have hone : ∀ k, (1 : BitVec w).getLsbD k = decide (k = 0) := fun k => by
    simp [BitVec.getLsbD_one, hw]
  rw [BitVec.getLsbD_shiftLeft, hone]
  by_cases hlt : j < i
  · simp [hj, hlt, Nat.ne_of_lt hlt]
  · have heq : j - i = 0 ↔ j = i := by omega
    simp [hj, hlt, heq]

/-- Taking a slot: its bit is set, the others stay. -/
theorem getLsbD_take {w : ℕ} (used : BitVec w) {i j : ℕ} (hj : j < w) :
    (used ||| ((1 : BitVec w) <<< i)).getLsbD j = (used.getLsbD j || decide (j = i)) := by
  rw [BitVec.getLsbD_or, getLsbD_one_shiftLeft hj]

/-- Giving a slot back: its bit is cleared, the others stay. -/
theorem getLsbD_giveBack {w : ℕ} (used : BitVec w) {i j : ℕ} (hj : j < w) :
    (used &&& ~~~((1 : BitVec w) <<< i)).getLsbD j = (used.getLsbD j && decide (j ≠ i)) := by
  rw [BitVec.getLsbD_and, BitVec.getLsbD_not, getLsbD_one_shiftLeft hj]
  simp [hj]

end Numbered

end Foundation
