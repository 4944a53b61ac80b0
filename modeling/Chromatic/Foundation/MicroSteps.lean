import Chromatic.Foundation.Runs

/-!
# Functions in micro-steps

A function as the sequence of its atomic actions on a shared state, which others may change
between any two of them. Contracts put an assertion in front of each action, in the manner of
rely and guarantee.

§1 functions · §2 interleaved runs · §3 contracts · §4 actions on the way to a result.
-/

namespace Foundation

namespace MicroSteps

variable {σ κ ε ρ : Type*}

/-! ## §1  Functions -/

/-- The actions of a function. What follows an action may depend on the state it found. -/
inductive Code (σ κ ρ : Type*) where
  | done (r : ρ)
  | next (a : κ) (rest : σ → Code σ κ ρ)

variable (act : κ → σ → σ)

/-- Result and state when nobody interferes. -/
def Code.run : Code σ κ ρ → σ → ρ × σ
  | .done r, s => (r, s)
  | .next a rest, s => (rest s).run (act a s)

/-! ## §2  Interleaved runs -/

/-- A function under way. -/
structure Underway (σ κ ρ : Type*) where
  code : Code σ κ ρ
  shared : σ

inductive Label (κ ε : Type*) where
  | own (a : κ)
  | other (e : ε)

variable (env : σ → ε → σ → Prop)

inductive Step : Underway σ κ ρ → Label κ ε → Underway σ κ ρ → Prop
  | own {a rest s} : Step ⟨.next a rest, s⟩ (.own a) ⟨rest s, act a s⟩
  | other {c s e t} (h : env s e t) : Step ⟨c, s⟩ (.other e) ⟨c, t⟩

/-- Left alone, a function comes to its result. -/
theorem run_alone (c : Code σ κ ρ) (s : σ) :
    ∃ tr, Run (Step act env) ⟨c, s⟩ tr ⟨.done (c.run act s).1, (c.run act s).2⟩ := by
  suffices h : ∀ (c : Code σ κ ρ) (s : σ) (u : Underway σ κ ρ) (tr),
      Run (Step act env) u tr ⟨c, s⟩ →
      ∃ tr', Run (Step act env) u tr' ⟨.done (c.run act s).1, (c.run act s).2⟩ from
    h c s _ _ .nil
  intro c
  induction c with
  | done r => exact fun s u tr run => ⟨tr, run⟩
  | next a rest ih => exact fun s u tr run => ih s (act a s) u _ (run.snoc .own)

/-! ## §3  Contracts -/

/-- Others keep the assertion. -/
def Stable (A : σ → Prop) : Prop := ∀ s e t, A s → env s e t → A t

/-- `A` holds in front of the code, others keep it, every action `a` is taken in states that
meet `Q a`, and `R` holds at the end. -/
inductive Contract (Q : κ → σ → Prop) (R : σ → Prop) : (σ → Prop) → Code σ κ ρ → Prop
  | done {A r} (stable : Stable env A) (leaves : ∀ s, A s → R s) : Contract Q R A (.done r)
  | next {A a rest} (stable : Stable env A) (here : ∀ s, A s → Q a s) (B : σ → σ → Prop)
      (post : ∀ s, A s → B s (act a s)) (after : ∀ s, A s → Contract Q R (B s) (rest s)) :
      Contract Q R A (.next a rest)

variable {act env} {Q : κ → σ → Prop} {R : σ → Prop} {c : Code σ κ ρ} {s : σ}
  {u v : Underway σ κ ρ} {l : Label κ ε}

/-- An action that leads from one assertion to another. -/
theorem Contract.to {A B : σ → Prop} {a : κ} {rest : σ → Code σ κ ρ} (stable : Stable env A)
    (here : ∀ s, A s → Q a s) (post : ∀ s, A s → B (act a s))
    (after : ∀ s, A s → Contract act env Q R B (rest s)) :
    Contract act env Q R A (.next a rest) :=
  .next stable here (fun _ => B) post after

/-- An action that keeps the assertion. -/
theorem Contract.keep {A : σ → Prop} {a : κ} {rest : σ → Code σ κ ρ} (stable : Stable env A)
    (here : ∀ s, A s → Q a s) (keeps : ∀ s, A s → A (act a s))
    (after : ∀ s, Contract act env Q R A (rest s)) : Contract act env Q R A (.next a rest) :=
  .to stable here keeps fun s _ => after s

/-- The rule of consequence. -/
theorem Contract.strengthen {A B : σ → Prop} (h : Contract act env Q R A c)
    (stable : Stable env B) (himp : ∀ s, B s → A s) : Contract act env Q R B c := by
  cases h with
  | done _ leaves => exact .done stable fun s hB => leaves s (himp s hB)
  | next _ here C post after =>
      exact .next stable (fun s hB => here s (himp s hB)) C (fun s hB => post s (himp s hB))
        fun s hB => after s (himp s hB)

/-- Nothing is asked of code that is never begun. -/
theorem Contract.vacuous {A : σ → Prop} (stable : Stable env A) (h : ∀ s, ¬ A s) :
    Contract act env Q R A c := by
  cases c with
  | done r => exact .done stable fun s hA => absurd hA (h s)
  | next a rest =>
      exact .to stable (fun s hA => absurd hA (h s)) (B := A)
        (fun s hA => absurd hA (h s)) fun s hA => absurd hA (h s)

/-- The code under way has a contract whose first assertion holds. -/
def Contracted (act : κ → σ → σ) (env : σ → ε → σ → Prop) (Q : κ → σ → Prop) (R : σ → Prop)
    (u : Underway σ κ ρ) : Prop :=
  ∃ A, Contract act env Q R A u.code ∧ A u.shared

theorem Contracted.step (h : Contracted act env Q R u) (hstep : Step act env u l v) :
    Contracted act env Q R v := by
  obtain ⟨A, hcontract, hA⟩ := h
  cases hstep with
  | @own a rest s =>
      cases hcontract with
      | next _ _ B post after => exact ⟨B s, after s hA, post s hA⟩
  | other henv =>
      refine ⟨A, hcontract, ?_⟩
      cases hcontract with
      | done stable => exact stable _ _ _ hA henv
      | next stable => exact stable _ _ _ hA henv

/-- An action is taken where the contract says. -/
theorem Contracted.taken {a : κ} (h : Contracted act env Q R u)
    (hstep : Step act env u (.own a) v) : Q a u.shared ∧ v.shared = act a u.shared := by
  obtain ⟨A, hcontract, hA⟩ := h
  cases hstep with
  | own =>
      cases hcontract with
      | next _ here _ _ _ => exact ⟨here _ hA, rfl⟩

/-- Safety of a function with a contract: actions under the condition `G` and moves of others keep
`P`, actions outside it break `P`. -/
theorem Contracted.throughout_iff {P : σ → Prop} {G : κ → σ → Prop} {tr}
    (h : Contracted act env Q R u) (hstart : P u.shared)
    (keep : ∀ a s, P s → Q a s → G a s → P (act a s))
    (keepOther : ∀ s e t, P s → env s e t → P t)
    (breaks : ∀ a s, Q a s → ¬ G a s → ¬ P (act a s))
    (run : Run (Step act env) u tr v) :
    Throughout (fun u => P u.shared) tr v ↔
      Guarded (fun u l => ∀ a, l = Label.own a → G a u.shared) tr := by
  refine Run.throughout_iff_guarded (I := Contracted act env Q R) h
    (fun _ _ _ h hstep => h.step hstep) hstart ?_ ?_ run
  · intro u l v hcontracted hP hG hstep
    cases l with
    | own a =>
        obtain ⟨hQ, hshared⟩ := hcontracted.taken hstep
        rw [hshared]
        exact keep a _ hP hQ (hG a rfl)
    | other e =>
        cases hstep with
        | other henv => exact keepOther _ e _ hP henv
  · intro u l v hcontracted hP hnot hstep
    obtain ⟨a, ha⟩ := not_forall.mp hnot
    obtain ⟨rfl, hG⟩ := Classical.not_imp.mp ha
    obtain ⟨hQ, hshared⟩ := hcontracted.taken hstep
    rw [hshared]
    exact breaks a _ hQ hG

/-! ## §4  Actions on the way to a result -/

/-- On every path to a result that meets `ok` stands an action that meets `p`. -/
inductive Passes (p : κ → Prop) (ok : ρ → Prop) : Code σ κ ρ → Prop
  | done {r} (h : ¬ ok r) : Passes p ok (.done r)
  | here {a rest} (h : p a) : Passes p ok (.next a rest)
  | later {a rest} (h : ∀ s, Passes p ok (rest s)) : Passes p ok (.next a rest)

theorem Passes.run {p : κ → Prop} {ok : ρ → Prop} {tr} (h : Passes p ok u.code)
    (run : Run (Step act env) u tr v) :
    Passes p ok v.code ∨ ∃ x ∈ tr, ∃ a, x.2 = Label.own a ∧ p a := by
  induction run with
  | nil => exact .inl h
  | snoc _ hstep ih =>
      rcases ih with hpasses | ⟨x, hx, hown⟩
      · cases hstep with
        | @own a rest s =>
            cases hpasses with
            | here hp =>
                exact .inr ⟨_, List.mem_append_right _ (List.mem_singleton_self _), a, rfl, hp⟩
            | later hrest => exact .inl (hrest s)
        | other => exact .inl hpasses
      · exact .inr ⟨x, List.mem_append_left _ hx, hown⟩

/-- Whoever has come to such a result has taken such an action. -/
theorem Passes.taken {p : κ → Prop} {ok : ρ → Prop} {tr} {r : ρ} (h : Passes p ok u.code)
    (run : Run (Step act env) u tr v) (hdone : v.code = .done r) (hok : ok r) :
    ∃ x ∈ tr, ∃ a, x.2 = Label.own a ∧ p a := by
  refine (h.run run).resolve_left fun hpasses => ?_
  rw [hdone] at hpasses
  cases hpasses with
  | done hnot => exact hnot hok

end MicroSteps

end Foundation
