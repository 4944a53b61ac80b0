import Chromatic.Foundation.MicroSteps

/-!
# Sessions of calls

Functions in micro-steps that are called one after the other, while others act on the shared
state at any time. What their contracts leave is what the next call begins with.

§1 sessions · §2 safety of a session.
-/

namespace Foundation

namespace MicroSteps

variable {σ κ ε ρ χ : Type*}

/-! ## §1  Sessions -/

inductive Event (χ κ ε : Type*) where
  | call (c : χ)
  | act (l : Label κ ε)

variable (act : κ → σ → σ) (env : σ → ε → σ → Prop) (code : χ → Code σ κ ρ)
  (permitted : χ → σ → Prop)

/-- A call begins when none is under way. -/
inductive Session : Underway σ κ ρ → Event χ κ ε → Underway σ κ ρ → Prop
  | call {r s c} (h : permitted c s) : Session ⟨.done r, s⟩ (.call c) ⟨code c, s⟩
  | act {u l v} (h : Step act env u l v) : Session u (.act l) v

section Alone

variable {act env code permitted}

/-- A call that nobody interferes with comes to its result. -/
theorem session_alone {u : Underway σ κ ρ} {r : ρ} {s : σ} {c : χ} {tr}
    (run : Run (Session act env code permitted) u tr ⟨.done r, s⟩) (h : permitted c s) :
    ∃ tr, Run (Session act env code permitted) u tr
      ⟨.done ((code c).run act s).1, ((code c).run act s).2⟩ := by
  suffices hcode : ∀ (f : Code σ κ ρ) (t : σ) (tr),
      Run (Session act env code permitted) u tr ⟨f, t⟩ →
      ∃ tr', Run (Session act env code permitted) u tr'
        ⟨.done (f.run act t).1, (f.run act t).2⟩ from hcode _ _ _ (run.snoc (.call h))
  intro f
  induction f with
  | done r => exact fun t tr run => ⟨tr, run⟩
  | next a rest ih => exact fun t tr run => ih t (act a t) _ (run.snoc (.act .own))

end Alone

/-! ## §2  Safety of a session -/

variable {act env code permitted} {Q : κ → σ → Prop} {R : σ → Prop} {c : Code σ κ ρ}
  {u v : Underway σ κ ρ}

theorem Contracted.session {e : Event χ κ ε}
    (calls : ∀ c, Contract act env Q R (fun s => R s ∧ permitted c s) (code c))
    (h : Contracted act env Q R u) (hstep : Session act env code permitted u e v) :
    Contracted act env Q R v := by
  cases hstep with
  | @call r s c hpermitted =>
      obtain ⟨A, hcontract, hA⟩ := h
      cases hcontract with
      | done _ leaves => exact ⟨_, calls c, leaves s hA, hpermitted⟩
  | act hact => exact h.step hact

/-- `J` is kept by whatever is done. Actions and moves of others under the condition `G` keep `P`,
those outside it break `P`. -/
structure Governed (act : κ → σ → σ) (env : σ → ε → σ → Prop) (Q : κ → σ → Prop)
    (J P : σ → Prop) (G : Label κ ε → σ → Prop) : Prop where
  own : ∀ a s, J s → Q a s → J (act a s)
  other : ∀ s e t, J s → env s e t → J t
  keepOwn : ∀ a s, J s → P s → Q a s → G (.own a) s → P (act a s)
  keepOther : ∀ s e t, J s → P s → env s e t → G (.other e) s → P t
  breakOwn : ∀ a s, J s → P s → Q a s → ¬ G (.own a) s → ¬ P (act a s)
  breakOther : ∀ s e t, J s → P s → env s e t → ¬ G (.other e) s → ¬ P t

/-- **Safety of a session** of functions that have contracts. -/
theorem session_safe_iff {J P : σ → Prop} {G : Label κ ε → σ → Prop}
    (governed : Governed act env Q J P G)
    (calls : ∀ c, Contract act env Q R (fun s => R s ∧ permitted c s) (code c))
    (hcontract : Contracted act env Q R u) (hJ : J u.shared) (hP : P u.shared) {tr}
    (run : Run (Session act env code permitted) u tr v) :
    Throughout (fun u => P u.shared) tr v ↔
      Guarded (fun u e => ∀ l, e = Event.act l → G l u.shared) tr := by
  refine Run.throughout_iff_guarded
    (I := fun u => Contracted act env Q R u ∧ J u.shared) ⟨hcontract, hJ⟩ ?_ hP ?_ ?_ run
  · rintro u e v ⟨hcontract, hJ⟩ hstep
    refine ⟨hcontract.session calls hstep, ?_⟩
    rcases hstep with hpermitted | hstep
    · exact hJ
    · cases hstep with
      | own => exact governed.own _ _ hJ (hcontract.taken .own).1
      | other henv => exact governed.other _ _ _ hJ henv
  · rintro u e v ⟨hcontract, hJ⟩ hP hG hstep
    rcases hstep with hpermitted | hstep
    · exact hP
    · cases hstep with
      | own => exact governed.keepOwn _ _ hJ hP (hcontract.taken .own).1 (hG _ rfl)
      | other henv => exact governed.keepOther _ _ _ hJ hP henv (hG _ rfl)
  · rintro u e v ⟨hcontract, hJ⟩ hP hnot hstep
    obtain ⟨l, hl⟩ := not_forall.mp hnot
    obtain ⟨rfl, hG⟩ := Classical.not_imp.mp hl
    cases hstep with
    | act hstep =>
        cases hstep with
        | own => exact governed.breakOwn _ _ hJ hP (hcontract.taken .own).1 hG
        | other henv => exact governed.breakOther _ _ _ hJ hP henv hG

end MicroSteps

end Foundation
