import Mathlib.Logic.Basic
import Mathlib.Logic.Relation
import Mathlib.Data.List.Basic

/-!
# Runs of a labelled step relation

A run is kept together with its trace: for every step, the state the step left
and its label. Conditions on steps and properties of visited states are then
both plain statements about one list.

§1 runs and traces · §2 invariants along a run · §3 safety as a condition on
the steps taken · §4 coming to an end.
-/

namespace Foundation

variable {σ α : Type*}

/-! ## §1  Runs and traces -/

/-- Runs of `step` from `s₀`, extended at the end. -/
inductive Run (step : σ → α → σ → Prop) (s₀ : σ) : List (σ × α) → σ → Prop where
  | nil : Run step s₀ [] s₀
  | snoc {tr s a t} : Run step s₀ tr s → step s a t → Run step s₀ (tr ++ [(s, a)]) t

/-- `P` holds in every state of the run, the last one included. -/
def Throughout (P : σ → Prop) (tr : List (σ × α)) (t : σ) : Prop :=
  (∀ p ∈ tr, P p.1) ∧ P t

/-- Every step of the run was taken under the condition `G`. -/
def Guarded (G : σ → α → Prop) (tr : List (σ × α)) : Prop :=
  ∀ p ∈ tr, G p.1 p.2

theorem throughout_nil {P : σ → Prop} {t : σ} :
    Throughout P ([] : List (σ × α)) t ↔ P t := by
  simp [Throughout]

theorem throughout_snoc {P : σ → Prop} {tr : List (σ × α)} {s t : σ} {a : α} :
    Throughout P (tr ++ [(s, a)]) t ↔ Throughout P tr s ∧ P t := by
  simp only [Throughout, List.mem_append, List.mem_singleton]
  constructor
  · rintro ⟨h, ht⟩
    exact ⟨⟨fun p hp => h p (Or.inl hp), h _ (Or.inr rfl)⟩, ht⟩
  · rintro ⟨⟨h, hs⟩, ht⟩
    refine ⟨?_, ht⟩
    rintro p (hp | rfl)
    · exact h p hp
    · exact hs

theorem throughout_congr {I P Q : σ → Prop} {tr : List (σ × α)} {t : σ}
    (hI : Throughout I tr t) (h : ∀ s, I s → (P s ↔ Q s)) :
    Throughout P tr t ↔ Throughout Q tr t := by
  constructor
  · intro hP
    exact ⟨fun p hp => (h p.1 (hI.1 p hp)).mp (hP.1 p hp), (h t hI.2).mp hP.2⟩
  · intro hQ
    exact ⟨fun p hp => (h p.1 (hI.1 p hp)).mpr (hQ.1 p hp), (h t hI.2).mpr hQ.2⟩

theorem guarded_snoc {G : σ → α → Prop} {tr : List (σ × α)} {s : σ} {a : α} :
    Guarded G (tr ++ [(s, a)]) ↔ Guarded G tr ∧ G s a := by
  simp only [Guarded, List.mem_append, List.mem_singleton]
  constructor
  · intro h
    exact ⟨fun p hp => h p (Or.inl hp), h _ (Or.inr rfl)⟩
  · rintro ⟨h, ha⟩ p (hp | rfl)
    · exact h p hp
    · exact ha

theorem guarded_append {G : σ → α → Prop} {tr tr' : List (σ × α)} :
    Guarded G (tr ++ tr') ↔ Guarded G tr ∧ Guarded G tr' :=
  List.forall_mem_append

theorem throughout_map {τ β : Type*} {f : σ → τ} {g : σ → α → β} {P : τ → Prop}
    {tr : List (σ × α)} {t : σ} :
    Throughout P (tr.map fun p => (f p.1, g p.1 p.2)) (f t) ↔ Throughout (P ∘ f) tr t := by
  simp only [Throughout, List.forall_mem_map, Function.comp_apply]

theorem guarded_map {τ β : Type*} {f : σ → τ} {g : σ → α → β} {G : τ → β → Prop}
    {tr : List (σ × α)} :
    Guarded G (tr.map fun p => (f p.1, g p.1 p.2)) ↔
      Guarded (fun s a => G (f s) (g s a)) tr := by
  simp only [Guarded, List.forall_mem_map]

/-! ## §2  Invariants along a run -/

section Invariants

variable {step : σ → α → σ → Prop} {s₀ t : σ} {tr : List (σ × α)}

/-- What holds initially and is kept by every guarded step holds throughout
every guarded run. -/
theorem Run.guarded_invariant {I : σ → Prop} {G : σ → α → Prop}
    (init : I s₀) (keep : ∀ s a u, I s → G s a → step s a u → I u)
    (run : Run step s₀ tr t) (guarded : Guarded G tr) : Throughout I tr t := by
  induction run with
  | nil => exact throughout_nil.mpr init
  | snoc _ hstep ih =>
      obtain ⟨hg, ha⟩ := guarded_snoc.mp guarded
      have hpre := ih hg
      exact throughout_snoc.mpr ⟨hpre, keep _ _ _ hpre.2 ha hstep⟩

theorem Run.invariant {I : σ → Prop}
    (init : I s₀) (keep : ∀ s a u, I s → step s a u → I u)
    (run : Run step s₀ tr t) : Throughout I tr t :=
  run.guarded_invariant (G := fun _ _ => True) init
    (fun s a u hI _ => keep s a u hI) (fun _ _ => trivial)

/-- What every step relates and carries on, relates each state of a run to every later one. -/
theorem Run.pairwise {I : σ → Prop} {G : σ → α → Prop} {R : σ → σ → Prop}
    (init : I s₀) (keep : ∀ s a u, I s → G s a → step s a u → I u)
    (trans : ∀ {s u v}, R s u → R u v → R s v)
    (rel : ∀ s a u, I s → G s a → step s a u → R s u)
    (run : Run step s₀ tr t) (guarded : Guarded G tr) : (tr.map Prod.fst ++ [t]).Pairwise R := by
  induction run with
  | nil => exact List.pairwise_singleton R _
  | snoc hrun hstep ih =>
      obtain ⟨hg, ha⟩ := guarded_snoc.mp guarded
      have hbefore := ih hg
      have hlast := rel _ _ _ (hrun.guarded_invariant init keep hg).2 ha hstep
      rw [List.map_append, List.map_singleton]
      refine List.pairwise_append.mpr ⟨hbefore, List.pairwise_singleton R _, ?_⟩
      intro x hx y hy
      obtain rfl := List.mem_singleton.mp hy
      rcases List.mem_append.mp hx with hearlier | hs
      · exact trans ((List.pairwise_append.mp hbefore).2.2 x hearlier _ List.mem_cons_self) hlast
      · exact List.mem_singleton.mp hs ▸ hlast

theorem Run.step_of_mem {p : σ × α} (run : Run step s₀ tr t) (hp : p ∈ tr) :
    ∃ u, step p.1 p.2 u := by
  induction run with
  | nil => cases hp
  | snoc _ hstep ih =>
      rcases List.mem_append.mp hp with hold | hnew
      · exact ih hold
      · exact List.mem_singleton.mp hnew ▸ ⟨_, hstep⟩

theorem Run.cons {a : α} {u : σ} (first : step s₀ a u) (run : Run step u tr t) :
    Run step s₀ ((s₀, a) :: tr) t := by
  induction run with
  | nil => exact Run.nil.snoc first
  | snoc _ hstep ih => exact ih.snoc hstep

theorem Run.append {tr' : List (σ × α)} {u : σ} (run : Run step s₀ tr t)
    (more : Run step t tr' u) : Run step s₀ (tr ++ tr') u := by
  induction more with
  | nil => rwa [List.append_nil]
  | snoc _ hstep ih =>
      rw [← List.append_assoc]
      exact ih.snoc hstep

/-- A run seen as one of another relation, whose labels may depend on the state left. -/
theorem Run.map {τ β : Type*} {step' : τ → β → τ → Prop} {I : σ → Prop} (f : σ → τ)
    (g : σ → α → β) (init : I s₀) (keep : ∀ s a u, I s → step s a u → I u)
    (view : ∀ s a u, I s → step s a u → step' (f s) (g s a) (f u))
    (run : Run step s₀ tr t) :
    Run step' (f s₀) (tr.map fun p => (f p.1, g p.1 p.2)) (f t) := by
  induction run with
  | nil => exact .nil
  | snoc hrun hstep ih =>
      rw [List.map_append]
      exact ih.snoc (view _ _ _ (hrun.invariant init keep).2 hstep)

/-! ## §3  Safety as a condition on the steps taken -/

/-- If guarded steps keep `J`, of which `P` is part, and unguarded steps break `P`, then `P`
holds throughout a run exactly when all its steps are guarded. -/
theorem Run.throughout_iff_of_invariant {J P : σ → Prop} {G : σ → α → Prop} (init : J s₀)
    (keep : ∀ s a u, J s → G s a → step s a u → J u) (part : ∀ s, J s → P s)
    (breaks : ∀ s a u, J s → ¬ G s a → step s a u → ¬ P u)
    (run : Run step s₀ tr t) : Throughout P tr t ↔ Guarded G tr := by
  constructor
  · intro hP
    induction run with
    | nil => intro p hp; simp at hp
    | snoc hrun hstep ih =>
        obtain ⟨hpre, hlast⟩ := throughout_snoc.mp hP
        have hguarded := ih hpre
        refine guarded_snoc.mpr ⟨hguarded, ?_⟩
        by_contra hG
        have hJ := (hrun.guarded_invariant init keep hguarded).2
        exact breaks _ _ _ hJ hG hstep hlast
  · intro hG
    have hJ := run.guarded_invariant init keep hG
    exact ⟨fun p hp => part _ (hJ.1 p hp), part _ hJ.2⟩

/-- If guarded steps keep `P` and unguarded steps break it, a run is safe
exactly when all its steps are guarded. The auxiliary invariant `I` may be
used on both sides. -/
theorem Run.throughout_iff_guarded {I P : σ → Prop} {G : σ → α → Prop}
    (initI : I s₀) (keepI : ∀ s a u, I s → step s a u → I u) (initP : P s₀)
    (keepP : ∀ s a u, I s → P s → G s a → step s a u → P u)
    (breakP : ∀ s a u, I s → P s → ¬ G s a → step s a u → ¬ P u)
    (run : Run step s₀ tr t) : Throughout P tr t ↔ Guarded G tr := by
  apply run.throughout_iff_of_invariant (J := fun s => I s ∧ P s)
  · exact ⟨initI, initP⟩
  · intro s a u h hG hstep
    exact ⟨keepI s a u h.1 hstep, keepP s a u h.1 h.2 hG hstep⟩
  · intro s h
    exact h.2
  · intro s a u h hG hstep
    exact breakP s a u h.1 h.2 hG hstep

end Invariants

/-! ## §4  Coming to an end -/

section Ends

variable (able final : σ → Prop) (own env : σ → σ → Prop)

/-- However often the environment moves in between, the own steps come to a final state: as
long as there is none one of them is possible, and whichever is taken leads on to the end. -/
inductive Ends : σ → Prop where
  | final {s} (h : final s) : Ends s
  | step {s} (can : ∀ v, Relation.ReflTransGen env s v → able v)
      (next : ∀ v u, Relation.ReflTransGen env s v → own v u → Ends u) : Ends s

variable {able final own env}

/-- Own steps lower a measure that the environment leaves alone. -/
theorem Ends.of_measure {β : Type*} {r : β → β → Prop} (wf : WellFounded r)
    {I : σ → Prop} (μ : σ → β)
    (able_of : ∀ s, I s → ¬ final s → able s)
    (own_lower : ∀ s u, I s → own s u → I u ∧ r (μ u) (μ s))
    (env_keep : ∀ s v, I s → env s v → I v ∧ μ v = μ s ∧ (final v → final s))
    {s : σ} (hs : I s) : Ends able final own env s := by
  have henv : ∀ {s v}, I s → Relation.ReflTransGen env s v →
      I v ∧ μ v = μ s ∧ (final v → final s) := by
    intro s v hs hmoves
    induction hmoves with
    | refl => exact ⟨hs, rfl, id⟩
    | tail _ hmove ih =>
        obtain ⟨hI, hμ, hfinal⟩ := ih
        obtain ⟨hI', hμ', hfinal'⟩ := env_keep _ _ hI hmove
        exact ⟨hI', hμ'.trans hμ, hfinal ∘ hfinal'⟩
  -- induction on the measure
  have hall : ∀ m, ∀ s, I s → μ s = m → Ends able final own env s := by
    intro m
    induction m using wf.induction with
    | _ m ih =>
        intro s hs hm
        by_cases hfinal : final s
        · exact .final hfinal
        · refine .step (fun v hmoves => ?_) (fun v u hmoves hown => ?_)
          · obtain ⟨hI, -, hback⟩ := henv hs hmoves
            exact able_of v hI (mt hback hfinal)
          · obtain ⟨hI, hμ, -⟩ := henv hs hmoves
            obtain ⟨hI', hlower⟩ := own_lower v u hI hown
            rw [hμ, hm] at hlower
            exact ih _ hlower u hI' rfl
  exact hall _ s hs rfl

end Ends

end Foundation
