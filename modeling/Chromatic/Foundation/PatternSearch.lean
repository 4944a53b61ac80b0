import Mathlib.Data.List.Sort

/-!
# Searching for patterns with wildcards

Patterns over any alphabet, in which `none` stands for any letter, and skips in the manner of
Horspool: how far a search may move on from a window, given the last letter of it.

§1 occurrences · §2 safe skips.
-/

namespace Foundation

variable {α : Type*}

/-! ## §1  Occurrences -/

def MatchesAt (text : ℕ → α) (p : List (Option α)) (i : ℕ) : Prop :=
  ∀ j a, p[j]? = some (some a) → text (i + j) = a

/-- `found` are the occurrences from `i` on in a text of length `n`, in ascending order. -/
structure Occurrences (text : ℕ → α) (n : ℕ) (p : List (Option α)) (i : ℕ)
    (found : List ℕ) : Prop where
  mem_iff : ∀ k, k ∈ found ↔ i ≤ k ∧ k + p.length ≤ n ∧ MatchesAt text p k
  ascending : found.Pairwise (· < ·)

section Occurrences

variable {text : ℕ → α} {n : ℕ} {p : List (Option α)} {i : ℕ} {found : List ℕ}

theorem Occurrences.none (h : n < i + p.length) : Occurrences text n p i [] where
  mem_iff k := by
    constructor
    · intro hk
      cases hk
    · rintro ⟨hik, hkn, -⟩
      omega
  ascending := List.Pairwise.nil

theorem Occurrences.cons (h : Occurrences text n p (i + 1) found) (hfits : i + p.length ≤ n)
    (hmatch : MatchesAt text p i) : Occurrences text n p i (i :: found) where
  mem_iff k := by
    rw [List.mem_cons, h.mem_iff]
    constructor
    · rintro (rfl | ⟨hik, hrest⟩)
      · exact ⟨Nat.le_refl _, hfits, hmatch⟩
      · exact ⟨Nat.le_of_succ_le hik, hrest⟩
    · rintro ⟨hik, hrest⟩
      rcases Nat.eq_or_lt_of_le hik with rfl | hlt
      · exact .inl rfl
      · exact .inr ⟨hlt, hrest⟩
  ascending := by
    refine List.pairwise_cons.mpr ⟨fun k hk => ?_, h.ascending⟩
    exact ((h.mem_iff k).mp hk).1

/-- Nothing is lost by a move over places without an occurrence. -/
theorem Occurrences.skip {s : ℕ} (h : Occurrences text n p (i + s) found)
    (hnone : ∀ k, i ≤ k → k < i + s → ¬ MatchesAt text p k) : Occurrences text n p i found where
  mem_iff k := by
    rw [h.mem_iff]
    constructor
    · rintro ⟨hik, hrest⟩
      exact ⟨by omega, hrest⟩
    · rintro ⟨hik, hkn, hmatch⟩
      refine ⟨?_, hkn, hmatch⟩
      by_contra hlt
      exact hnone k hik (by omega) hmatch
  ascending := h.ascending

/-- The occurrences are what a test of every place finds. -/
theorem Occurrences.eq_filter [DecidablePred (MatchesAt text p)]
    (h : Occurrences text n p 0 found) :
    found = (List.range (n + 1 - p.length)).filter (MatchesAt text p) := by
  refine h.ascending.eq_of_mem_iff (List.pairwise_lt_range.filter _) fun k => ?_
  rw [h.mem_iff, List.mem_filter, List.mem_range, decide_eq_true_eq]
  constructor
  · rintro ⟨-, hfits, hmatch⟩
    exact ⟨by omega, hmatch⟩
  · rintro ⟨hlt, hmatch⟩
    exact ⟨Nat.zero_le k, by omega, hmatch⟩

end Occurrences

/-! ## §2  Safe skips -/

/-- Behind a window that ends in `c`, every move by less than `s` puts a letter of the pattern
other than `c` over it. -/
def SafeSkip (p : List (Option α)) (c : α) (s : ℕ) : Prop :=
  ∀ k, 0 < k → k < s → k < p.length ∧ ∃ a, p[p.length - 1 - k]? = some (some a) ∧ a ≠ c

theorem SafeSkip.not_matchesAt {text : ℕ → α} {p : List (Option α)} {i s k : ℕ}
    (h : SafeSkip p (text (i + p.length - 1)) s) (hpos : 0 < k) (hlt : k < s) :
    ¬ MatchesAt text p (i + k) := by
  intro hmatch
  obtain ⟨hlen, a, ha, hne⟩ := h k hpos hlt
  have hlast : i + k + (p.length - 1 - k) = i + p.length - 1 := by omega
  have hletter := hmatch (p.length - 1 - k) a ha
  rw [hlast] at hletter
  exact hne hletter.symm

end Foundation
