import Mathlib.Data.List.Basic
import Mathlib.Order.Basic

/-!
# Stuttering simulation

Deterministic machines that emit labels as they go. One machine simulates another when it
answers each of its steps with one or more of its own and the same labels.

§1 machines and their runs · §2 simulation · §3 traces.
-/

namespace Foundation

variable {ε σ τ : Type*}

/-! ## §1  Machines and their runs -/

/-- What a step emits and where it leads; `none` where the machine stops. -/
abbrev Stepper (ε σ : Type*) : Type _ := σ → Option (List ε × σ)

namespace Stepper

/-- A run followed by more of it. -/
def andThen (r : List ε × σ) (next : Option (List ε × σ)) : Option (List ε × σ) :=
  next.map fun r' => (r.1 ++ r'.1, r'.2)

/-- `n` steps. -/
def steps (f : Stepper ε σ) : ℕ → Stepper ε σ
  | 0, s => some ([], s)
  | n + 1, s => (f s).bind fun r => andThen r (steps f n r.2)

section Steps

variable {f : Stepper ε σ} {m n : ℕ} {s t u : σ} {es es' : List ε}

@[simp] theorem steps_zero (s : σ) : f.steps 0 s = some ([], s) := rfl

theorem steps_succ (n : ℕ) (s : σ) :
    f.steps (n + 1) s = (f s).bind fun r => andThen r (f.steps n r.2) := rfl

theorem steps_one (s : σ) : f.steps 1 s = f s := by
  rw [steps_succ]
  cases f s with
  | none => rfl
  | some r => simp [andThen]

theorem andThen_eq_some {r r' : List ε × σ} {next : Option (List ε × σ)} :
    andThen r next = some r' ↔ ∃ es, next = some (es, r'.2) ∧ r.1 ++ es = r'.1 := by
  unfold andThen
  constructor
  · intro h
    obtain ⟨r'', hnext, rfl⟩ := Option.map_eq_some_iff.mp h
    exact ⟨r''.1, hnext, rfl⟩
  · rintro ⟨es, hnext, hes⟩
    rw [hnext, Option.map_some, hes]

/-- The first step of a run. -/
theorem steps_succ_eq_some {r : List ε × σ} :
    f.steps (n + 1) s = some r ↔
      ∃ es t es', f s = some (es, t) ∧ f.steps n t = some (es', r.2) ∧ es ++ es' = r.1 := by
  rw [steps_succ]
  constructor
  · intro h
    obtain ⟨⟨es, t⟩, hstep, hrest⟩ := Option.bind_eq_some_iff.mp h
    obtain ⟨es', hsteps, happend⟩ := andThen_eq_some.mp hrest
    exact ⟨es, t, es', hstep, hsteps, happend⟩
  · rintro ⟨es, t, es', hstep, hsteps, happend⟩
    rw [hstep, Option.bind_some, hsteps, andThen, Option.map_some, happend]

/-- Runs one after the other. -/
theorem steps_trans (h : f.steps m s = some (es, t)) (h' : f.steps n t = some (es', u)) :
    f.steps (m + n) s = some (es ++ es', u) := by
  induction m generalizing s es with
  | zero =>
      obtain ⟨rfl, rfl⟩ := Prod.mk.inj (Option.some.inj h)
      rw [Nat.zero_add, List.nil_append]
      exact h'
  | succ m ih =>
      obtain ⟨es₁, s₁, es₂, hstep, hrest, happend⟩ := steps_succ_eq_some.mp h
      rw [Nat.succ_add]
      apply steps_succ_eq_some.mpr
      refine ⟨es₁, s₁, es₂ ++ es', hstep, ih hrest, ?_⟩
      rw [← List.append_assoc, happend]

theorem step_then (h : f s = some (es, t)) (h' : f.steps n t = some (es', u)) :
    f.steps (n + 1) s = some (es ++ es', u) :=
  steps_succ_eq_some.mpr ⟨es, t, es', h, h', rfl⟩

/-- Where a run has come to a stop, it has come to the same one. -/
theorem steps_stop_unique {es' : List ε} (h : f.steps m s = some (es, t)) (hstop : f t = none)
    (h' : f.steps n s = some (es', u)) (hstop' : f u = none) : es = es' ∧ t = u := by
  induction m generalizing n s es es' with
  | zero =>
      obtain ⟨rfl, rfl⟩ := Prod.mk.inj (Option.some.inj h)
      cases n with
      | zero =>
          obtain ⟨rfl, rfl⟩ := Prod.mk.inj (Option.some.inj h')
          exact ⟨rfl, rfl⟩
      | succ n =>
          obtain ⟨_, _, _, hstep, -, -⟩ := steps_succ_eq_some.mp h'
          cases hstop.symm.trans hstep
  | succ m ih =>
      obtain ⟨es₁, s₁, es₂, hstep, hrest, rfl⟩ := steps_succ_eq_some.mp h
      cases n with
      | zero =>
          obtain ⟨rfl, rfl⟩ := Prod.mk.inj (Option.some.inj h')
          cases hstop'.symm.trans hstep
      | succ n =>
          obtain ⟨es₃, s₃, es₄, hstep', hrest', rfl⟩ := steps_succ_eq_some.mp h'
          obtain ⟨rfl, rfl⟩ := Prod.mk.inj (Option.some.inj (hstep.symm.trans hstep'))
          obtain ⟨rfl, hstate⟩ := ih hrest hrest'
          exact ⟨rfl, hstate⟩

/-- A shorter run is the beginning of a longer one. -/
theorem steps_prefix (hle : m ≤ n) (h : f.steps n s = some (es, t)) :
    ∃ es' t', f.steps m s = some (es', t') ∧ es' <+: es := by
  induction m generalizing n s es with
  | zero => exact ⟨[], s, rfl, List.nil_prefix⟩
  | succ m ih =>
      obtain ⟨n, rfl⟩ := Nat.exists_eq_succ_of_ne_zero (Nat.pos_iff_ne_zero.mp
        (Nat.lt_of_lt_of_le (Nat.succ_pos m) hle))
      obtain ⟨es₁, s₁, es₂, hstep, hrest, rfl⟩ := steps_succ_eq_some.mp h
      obtain ⟨es', t', hsteps, hprefix⟩ := ih (Nat.le_of_succ_le_succ hle) hrest
      refine ⟨es₁ ++ es', t', step_then hstep hsteps, ?_⟩
      exact List.prefix_append_right_inj es₁ |>.mpr hprefix

end Steps

/-- The states that the first `n` steps are taken from are all `G`. -/
def Along (G : σ → Prop) (f : Stepper ε σ) : ℕ → σ → Prop
  | 0, _ => True
  | n + 1, s => G s ∧ ∀ es t, f s = some (es, t) → Along G f n t

theorem Along.imp {G H : σ → Prop} {f : Stepper ε σ} {n : ℕ} {s : σ} (h : ∀ s, G s → H s)
    (along : Along G f n s) : Along H f n s := by
  induction n generalizing s with
  | zero => trivial
  | succ n ih =>
      obtain ⟨hs, hrest⟩ := along
      exact ⟨h s hs, fun es t hstep => ih (hrest es t hstep)⟩

/-- No run from here comes to a stop, and it meets `G` throughout. -/
def Endless (G : σ → Prop) (f : Stepper ε σ) (s : σ) : Prop :=
  ∀ n, (f.steps n s).isSome ∧ Along G f n s

end Stepper

/-! ## §2  Simulation -/

/-- Each step of `f` from a state that is `G` is one or more of `g`, with the same labels. -/
def Simulates (G : σ → Prop) (R : σ → τ → Prop) (f : Stepper ε σ) (g : Stepper ε τ) : Prop :=
  ∀ s t es s', R s t → G s → f s = some (es, s') →
    ∃ k t', g.steps (k + 1) t = some (es, t') ∧ R s' t'

section Simulation

variable {G : σ → Prop} {R : σ → τ → Prop} {f : Stepper ε σ} {g : Stepper ε τ} {n : ℕ}
  {s s' : σ} {t : τ} {es : List ε}

/-- **Whole runs**, at least as long. -/
theorem Simulates.run (h : Simulates G R f g) (hR : R s t) (along : Stepper.Along G f n s)
    (hrun : f.steps n s = some (es, s')) :
    ∃ m t', n ≤ m ∧ g.steps m t = some (es, t') ∧ R s' t' := by
  induction n generalizing s t es with
  | zero =>
      obtain ⟨rfl, rfl⟩ := Prod.mk.inj (Option.some.inj hrun)
      exact ⟨0, t, Nat.le_refl 0, rfl, hR⟩
  | succ n ih =>
      obtain ⟨es₁, s₁, es₂, hstep, hrest, rfl⟩ := Stepper.steps_succ_eq_some.mp hrun
      obtain ⟨hG, hnext⟩ := along
      obtain ⟨k, t₁, hanswer, hR₁⟩ := h s t es₁ s₁ hR hG hstep
      obtain ⟨m, t', hle, hsteps, hR'⟩ := ih hR₁ (hnext es₁ s₁ hstep) hrest
      refine ⟨k + 1 + m, t', ?_, Stepper.steps_trans hanswer hsteps, hR'⟩
      rw [Nat.add_comm n 1]
      exact Nat.add_le_add (Nat.le_add_left 1 k) hle

/-! ## §3  Traces -/

/-- The runs of the one that do not end are those of the other: whatever the one emits the other
does, and at every point the other has emitted no more than the one will. -/
theorem Simulates.trace (h : Simulates G R f g) (hR : R s t)
    (endless : Stepper.Endless G f s) :
    (∀ n es s', f.steps n s = some (es, s') → ∃ m t', g.steps m t = some (es, t')) ∧
      ∀ m, ∃ es t', g.steps m t = some (es, t') ∧
        ∃ n es' s', f.steps n s = some (es', s') ∧ es <+: es' := by
  constructor
  · intro n es s' hrun
    obtain ⟨m, t', -, hsteps, -⟩ := h.run hR (endless n).2 hrun
    exact ⟨m, t', hsteps⟩
  · intro m
    obtain ⟨⟨es, s'⟩, hrun⟩ := Option.isSome_iff_exists.mp (endless m).1
    obtain ⟨m', t', hle, hsteps, -⟩ := h.run hR (endless m).2 hrun
    obtain ⟨es', t'', hprefix, hes⟩ := Stepper.steps_prefix hle hsteps
    exact ⟨es', t'', hprefix, m, es, s', hrun, hes⟩

end Simulation

end Foundation
