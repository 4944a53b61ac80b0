import Mathlib.Algebra.Order.Group.Nat
import Chromatic.Foundation.Runs

/-!
# Numbers that name items

A counter hands out numbers, a table says what they name. Items are struck out, never put back:
a number names its item for a time and nothing before or after.

§1 counters and tables · §2 steps · §3 runs.
-/

namespace Foundation

/-! ## §1  Counters and tables -/

/-- The next number to be handed out and what the numbers name. -/
structure Issuer (σ α : Type*) where
  next : σ → ℕ
  find : σ → ℕ → Option α

namespace Issuer

variable {σ α : Type*} {I : Issuer σ α} {s u : σ} {id : ℕ}

/-- Numbers that are still to come name nothing. -/
def Bounded (I : Issuer σ α) (s : σ) : Prop := ∀ id, I.next s ≤ id → I.find s id = none

/-- One item gets the next number, or none does and items go at most. -/
inductive Moves (I : Issuer σ α) (s u : σ) : Prop where
  | issues (e : α) (next : I.next u = I.next s + 1)
      (find : I.find u = Function.update (I.find s) (I.next s) (some e))
  | strikes (next : I.next u = I.next s)
      (find : ∀ id, I.find u id = I.find s id ∨ I.find u id = none)

/-! ## §2  Steps -/

theorem Moves.next_le (h : I.Moves s u) : I.next s ≤ I.next u ∧ I.next u ≤ I.next s + 1 := by
  cases h with
  | issues _ next _ => omega
  | strikes next _ => omega

theorem Moves.bounded (hs : I.Bounded s) (h : I.Moves s u) : I.Bounded u := by
  intro id hid
  cases h with
  | issues e next find =>
      rw [find, Function.update_of_ne (by omega)]
      exact hs id (by omega)
  | strikes next find =>
      rcases find id with hsame | hnone
      · rw [hsame]
        exact hs id (by omega)
      · exact hnone

/-- A number handed out before names what it did, or nothing. -/
theorem Moves.old (h : I.Moves s u) (hid : id < I.next s) :
    I.find u id = I.find s id ∨ I.find u id = none := by
  cases h with
  | issues e next find =>
      left
      rw [find, Function.update_of_ne hid.ne]
  | strikes next find => exact find id

/-! ## §3  Runs -/

section Runs

variable {A : Type*} {step : σ → A → σ → Prop} {tr : List (σ × A)} {t : σ}

theorem run_bounded (moves : ∀ s a u, step s a u → I.Moves s u) (hs : I.Bounded s)
    (run : Run step s tr t) : I.Bounded t :=
  (run.invariant hs fun s a u h hstep => (moves s a u hstep).bounded h).2

theorem run_next (moves : ∀ s a u, step s a u → I.Moves s u) (run : Run step s tr t) :
    I.next s ≤ I.next t ∧ I.next t ≤ I.next s + tr.length := by
  induction run with
  | nil => exact ⟨le_rfl, le_rfl⟩
  | snoc _ hstep ih =>
      have hone := (moves _ _ _ hstep).next_le
      rw [List.length_append, List.length_singleton]
      omega

/-- Up to the end of a run the number that comes next has named nothing. -/
theorem run_new (moves : ∀ s a u, step s a u → I.Moves s u) (hs : I.Bounded s)
    (run : Run step s tr t) : Throughout (fun v => I.find v (I.next t) = none) tr t := by
  have hlater : ∀ id, I.next t ≤ id → Throughout (fun v => I.find v id = none) tr t := by
    induction run with
    | nil => exact fun id hid => throughout_nil.mpr (hs id hid)
    | snoc hrun hstep ih =>
        intro id hid
        have hmove := moves _ _ _ hstep
        refine throughout_snoc.mpr ⟨ih id (hmove.next_le.1.trans hid), ?_⟩
        exact hmove.bounded (run_bounded moves hs hrun) id hid
  exact hlater _ le_rfl

/-- What a number names stays, until the number names nothing any more. -/
theorem run_old (moves : ∀ s a u, step s a u → I.Moves s u) (hid : id < I.next s)
    (run : Run step s tr t) :
    Throughout (fun v => I.find v id = I.find s id ∨ I.find v id = none) tr t := by
  have hboth := run.invariant
    (I := fun v => id < I.next v ∧ (I.find v id = I.find s id ∨ I.find v id = none))
    ⟨hid, .inl rfl⟩ ?_
  · exact ⟨fun p hp => (hboth.1 p hp).2, hboth.2.2⟩
  · rintro v a u ⟨hlt, hnames⟩ hstep
    have hmove := moves v a u hstep
    refine ⟨hlt.trans_le hmove.next_le.1, ?_⟩
    rcases hmove.old hlt with hsame | hnone
    · rw [hsame]
      exact hnames
    · exact .inr hnone

/-- Once it names nothing it never names anything again. -/
theorem run_gone (moves : ∀ s a u, step s a u → I.Moves s u) (hid : id < I.next s)
    (run : Run step s tr t) :
    (tr.map Prod.fst ++ [t]).Pairwise fun v w => I.find v id = none → I.find w id = none := by
  apply run.pairwise (I := fun v => id < I.next v) (G := fun _ _ => True) hid
  · intro v a u hlt _ hstep
    exact hlt.trans_le (moves v a u hstep).next_le.1
  · intro v w x hvw hwx hv
    exact hwx (hvw hv)
  · intro v a u hlt _ hstep hnone
    rcases (moves v a u hstep).old hlt with hsame | hgone
    · rw [hsame]
      exact hnone
    · exact hgone
  · intro p hp
    trivial

end Runs

end Issuer

end Foundation
