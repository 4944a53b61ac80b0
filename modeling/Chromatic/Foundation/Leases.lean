import Mathlib.Data.Set.BooleanAlgebra
import Mathlib.Order.CompletePartialOrder
import Chromatic.Foundation.Runs

/-!
# Leases

Resources come and go, and users under way rely on some of them. Nothing ties the two: whoever
releases resources has to know that nobody uses them.

§1 resources and users · §2 releases that spare the users.
-/

namespace Foundation

variable {ρ : Type*}

/-! ## §1  Resources and users -/

/-- The resources there are, and what each user under way relies on. -/
structure Leases (ρ : Type*) where
  live : Set ρ
  held : List (Set ρ)

inductive Move (ρ : Type*) where
  | acquire (rs : Set ρ)
  | release (rs : Set ρ)
  | enter (rs : Set ρ)
  | leave (rs : Set ρ)

namespace Leases

/-- Users come one by one, each to resources that are there, and leave in any order. -/
inductive Step : Leases ρ → Move ρ → Leases ρ → Prop
  | acquire {s rs} : Step s (.acquire rs) { s with live := s.live ∪ rs }
  | release {s rs} : Step s (.release rs) { s with live := s.live \ rs }
  | enter {s rs} (h : rs ⊆ s.live) : Step s (.enter rs) { s with held := rs :: s.held }
  | leave {s rs front back} (h : s.held = front ++ rs :: back) :
      Step s (.leave rs) { s with held := front ++ back }

/-- What users rely on is there. -/
def Honoured (s : Leases ρ) : Prop := ∀ us ∈ s.held, us ⊆ s.live

/-! ## §2  Releases that spare the users -/

/-- Nothing is released that a user relies on. -/
def Spares (s : Leases ρ) : Move ρ → Prop
  | .release rs => ∀ us ∈ s.held, Disjoint us rs
  | _ => True

variable {s t : Leases ρ} {m : Move ρ}

theorem Honoured.step (h : Honoured s) (hspares : s.Spares m) (hstep : Step s m t) :
    Honoured t := by
  cases hstep with
  | acquire => exact fun us hus => (h us hus).trans Set.subset_union_left
  | release => exact fun us hus => Set.subset_sdiff.mpr ⟨h us hus, hspares us hus⟩
  | enter hrs =>
      intro us hus
      rcases List.mem_cons.mp hus with rfl | hus
      · exact hrs
      · exact h us hus
  | leave hheld =>
      intro us hus
      refine h us ?_
      rw [hheld]
      rcases List.mem_append.mp hus with hus | hus
      · exact List.mem_append_left _ hus
      · exact List.mem_append_right _ (List.mem_cons_of_mem _ hus)

theorem not_honoured_of_release (hnot : ¬ s.Spares m) (hstep : Step s m t) : ¬ Honoured t := by
  cases hstep with
  | acquire | enter | leave => exact absurd trivial hnot
  | release =>
      intro h
      refine hnot fun us hus => ?_
      exact (Set.subset_sdiff.mp (h us hus)).2

/-- **Leases.** What users rely on is there throughout a run exactly when each of its releases
spares the users. -/
theorem honoured_throughout_iff {s₀ : Leases ρ} {tr : List (Leases ρ × Move ρ)}
    (hstart : Honoured s₀) (run : Run Step s₀ tr s) :
    Throughout Honoured tr s ↔ Guarded Spares tr :=
  Run.throughout_iff_guarded (I := fun _ => True) trivial (fun _ _ _ _ _ => trivial) hstart
    (fun _ _ _ _ h hspares hstep => h.step hspares hstep)
    (fun _ _ _ _ _ hnot hstep => not_honoured_of_release hnot hstep) run

end Leases

end Foundation
