import Mathlib.Data.Nat.Find
import Mathlib.Order.Basic

/-!
# Stretches filled from their first cell

Cells in a row, and stretches of them that are given what their first cell holds, one stretch after
the other. A fill that changes something is never made up for by later ones.

§1 fills · §2 the first cell that is changed · §3 nothing is changed.
-/

namespace Foundation

/-! ## §1  Fills -/

/-- The cells from `first` to `last`. -/
structure Stretch where
  first : ℕ
  last : ℕ

variable {α : Type*} {f g : ℕ → α} {is : List Stretch} {i : Stretch} {n : ℕ}

def Stretch.fill (i : Stretch) (f : ℕ → α) : ℕ → α :=
  fun p => if i.first ≤ p ∧ p ≤ i.last then f i.first else f p

def fills (is : List Stretch) (f : ℕ → α) : ℕ → α := is.foldl (fun f i => i.fill f) f

/-- All cells of the stretch hold the same. -/
def Stretch.Level (i : Stretch) (f : ℕ → α) : Prop :=
  ∀ p, i.first ≤ p → p ≤ i.last → f p = f i.first

theorem Stretch.Level.fill (h : i.Level f) : i.fill f = f := by
  funext p
  unfold Stretch.fill
  split_ifs with hp
  · exact (h p hp.1 hp.2).symm
  · rfl

/-! ## §2  The first cell that is changed -/

/-- Below `n` each stretch is level. -/
def LevelBelow (n : ℕ) (is : List Stretch) (f : ℕ → α) : Prop :=
  ∀ i ∈ is, ∀ p < n, i.first ≤ p → p ≤ i.last → f p = f i.first

theorem LevelBelow.fill (h : LevelBelow n (i :: is) f) (hg : ∀ p < n, g p = f p) :
    ∀ p < n, i.fill g p = f p := by
  intro p hp
  unfold Stretch.fill
  split_ifs with hin
  · rw [hg _ (hin.1.trans_lt hp), h i List.mem_cons_self p hp hin.1 hin.2]
  · exact hg p hp

/-- The cell `n` comes to hold what the one below it holds, and keeps it, once a stretch goes over
both. -/
theorem fills_at (h : LevelBelow n is f) (hg : ∀ p < n, g p = f p) :
    fills is g n = if ∃ i ∈ is, i.first < n ∧ n ≤ i.last then f (n - 1) else g n := by
  induction is generalizing g with
  | nil => simp [fills]
  | cons i is ih =>
      have hrest := ih (fun j hj => h j (List.mem_cons_of_mem _ hj)) (h.fill hg)
      show fills is (i.fill g) n = _
      rw [hrest]
      by_cases hover : i.first < n ∧ n ≤ i.last
      · have hsame : i.fill g n = f (n - 1) := by
          have hbelow := h i List.mem_cons_self (n - 1) (by omega) (by omega) (by omega)
          rw [Stretch.fill, if_pos ⟨hover.1.le, hover.2⟩, hg _ hover.1, hbelow]
        rw [hsame, ite_self, if_pos ⟨i, List.mem_cons_self, hover⟩]
      · have hsame : i.fill g n = g n := by
          unfold Stretch.fill
          split_ifs with hin
          · rw [show i.first = n by omega]
          · rfl
        simp only [hsame, List.mem_cons, exists_eq_or_imp, hover, false_or]

/-! ## §3  Nothing is changed -/

/-- **Fills change nothing in the end** exactly when each stretch is level to begin with. -/
theorem fills_eq_iff : fills is f = f ↔ ∀ i ∈ is, i.Level f := by
  classical
  constructor
  · intro hsame
    by_contra hnot
    have hcell : ∃ n, ∃ i ∈ is, i.first ≤ n ∧ n ≤ i.last ∧ f n ≠ f i.first := by
      simp only [Stretch.Level, not_forall] at hnot
      obtain ⟨i, hi, p, hfirst, hlast, hne⟩ := hnot
      exact ⟨p, i, hi, hfirst, hlast, hne⟩
    -- the lowest cell that a stretch changes
    obtain ⟨i, hi, hfirst, hlast, hne⟩ := Nat.find_spec hcell
    have hlevel : LevelBelow (Nat.find hcell) is f := by
      intro j hj p hp hjp hpj
      by_contra hdiff
      exact Nat.find_min hcell hp ⟨j, hj, hjp, hpj, hdiff⟩
    have hlt : i.first < Nat.find hcell := by
      refine lt_of_le_of_ne hfirst fun heq => hne ?_
      rw [heq]
    have hat := fills_at hlevel fun _ _ => rfl
    rw [if_pos ⟨i, hi, hlt, hlast⟩, hsame] at hat
    exact hne (hat.trans (hlevel i hi _ (by omega) (by omega) (by omega)))
  · intro hlevel
    induction is with
    | nil => rfl
    | cons i is ih =>
        obtain ⟨hfirst, hrest⟩ := List.forall_mem_cons.mp hlevel
        show fills is (i.fill f) = f
        rw [hfirst.fill]
        exact ih hrest

end Foundation
