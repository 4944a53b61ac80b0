import Chromatic.Foundation.Runs
import Mathlib.Data.List.Pairwise
import Mathlib.Logic.Function.Basic
import Mathlib.Logic.Relation
import Mathlib.Data.Set.Operations

/-!
# A spin lock and interrupts

Threads that share one spin lock. An interrupt starts a handler on top of whatever its
thread is doing, and what is beneath goes on when the handler has returned. The lock is
taken once and given back in each piece of code, handlers included.

§1 code · §2 machines · §3 steps · §4 one holder · §5 handlers that never return ·
§6 handlers that can.
-/

namespace Foundation

namespace Interrupts

/-! ## §1  Code -/

variable {θ σ : Type*}

inductive Instr (σ : Type*) where
  | acquire
  | release
  | work (f : σ → σ)

abbrev Code (σ : Type*) : Type _ := List (Instr σ)

/-- Behind the lock. -/
def done : Code σ → Bool
  | [] => true
  | .work _ :: c => done c
  | _ => false

/-- Between taking the lock and giving it back. -/
def holds : Code σ → Bool
  | .work _ :: c => holds c
  | .release :: c => done c
  | _ => false

/-- Before taking the lock. -/
def pending : Code σ → Bool
  | .work _ :: c => pending c
  | .acquire :: c => holds c
  | _ => false

theorem not_holds_of_done {c : Code σ} (h : done c = true) : holds c = false := by
  induction c with
  | nil => rfl
  | cons i c ih =>
      cases i with
      | acquire => rfl
      | release => cases h
      | work f => exact ih h

theorem not_holds_of_pending {c : Code σ} (h : pending c = true) : holds c = false := by
  induction c with
  | nil => rfl
  | cons i c ih =>
      cases i with
      | acquire => rfl
      | release => cases h
      | work f => exact ih h

theorem not_pending_of_done {c : Code σ} (h : done c = true) : pending c = false := by
  induction c with
  | nil => rfl
  | cons i c ih =>
      cases i with
      | acquire => cases h
      | release => cases h
      | work f => exact ih h

/-! ## §2  Machines -/

structure Frame (σ : Type*) where
  handler : Bool
  code : Code σ

/-- `flag` is the lock, and the frame on top of a stack is the one that runs. -/
structure Machine (θ σ : Type*) where
  data : σ
  flag : Bool
  frames : θ → List (Frame σ)

def Machine.start (data : σ) : Machine θ σ := ⟨data, false, fun _ => []⟩

/-- Some frame of the stack holds the lock. -/
def Locks (stack : List (Frame σ)) : Prop := ∃ f ∈ stack, holds f.code = true

/-! ## §3  Steps -/

inductive Label (θ σ : Type*) where
  | call (t : θ) (c : Code σ)
  | interrupt (t : θ) (c : Code σ)
  | exec (t : θ)
  | leave (t : θ)

variable [DecidableEq θ]

def Machine.setStack (s : Machine θ σ) (t : θ) (stack : List (Frame σ)) : Machine θ σ :=
  { s with frames := Function.update s.frames t stack }

def Machine.push (s : Machine θ σ) (t : θ) (f : Frame σ) : Machine θ σ :=
  s.setStack t (f :: s.frames t)

/-- Calls are made behind the lock, interrupts come at any time. -/
inductive Step (calls handlers : Set (Code σ)) :
    Machine θ σ → Label θ σ → Machine θ σ → Prop
  | call {s t c} (hc : c ∈ calls) (hat : ∀ f ∈ (s.frames t).head?, done f.code = true) :
      Step calls handlers s (.call t c) (s.push t ⟨false, c⟩)
  | interrupt {s t c} (hc : c ∈ handlers) :
      Step calls handlers s (.interrupt t c) (s.push t ⟨true, c⟩)
  | work {s t h g c rest} (htop : s.frames t = ⟨h, .work g :: c⟩ :: rest) :
      Step calls handlers s (.exec t)
        { s.setStack t (⟨h, c⟩ :: rest) with data := g s.data }
  | acquire {s t h c rest} (htop : s.frames t = ⟨h, .acquire :: c⟩ :: rest)
      (hfree : s.flag = false) :
      Step calls handlers s (.exec t) { s.setStack t (⟨h, c⟩ :: rest) with flag := true }
  | spin {s t h c rest} (htop : s.frames t = ⟨h, .acquire :: c⟩ :: rest)
      (htaken : s.flag = true) :
      Step calls handlers s (.exec t) s
  | release {s t h c rest} (htop : s.frames t = ⟨h, .release :: c⟩ :: rest) :
      Step calls handlers s (.exec t) { s.setStack t (⟨h, c⟩ :: rest) with flag := false }
  | leave {s t h rest} (htop : s.frames t = ⟨h, []⟩ :: rest) :
      Step calls handlers s (.leave t) (s.setStack t rest)

/-! ## §4  One holder -/

/-- What is on top of a frame that holds the lock: handlers that have yet to take it. -/
def Above (f g : Frame σ) : Prop :=
  holds g.code = true → f.handler = true ∧ pending f.code = true

/-- At most one frame of all stacks holds the lock, and it does when the flag is set. -/
structure Exclusive (s : Machine θ σ) : Prop where
  phase : ∀ t, ∀ f ∈ s.frames t,
    pending f.code = true ∨ holds f.code = true ∨ done f.code = true
  above : ∀ t, (s.frames t).Pairwise Above
  free : s.flag = false → ∀ t, ¬ Locks (s.frames t)
  taken : s.flag = true → ∃ t, Locks (s.frames t)
  single : ∀ t t', Locks (s.frames t) → Locks (s.frames t') → t = t'

section Exclusive

variable {calls handlers : Set (Code σ)} {s u : Machine θ σ} {l : Label θ σ} {t : θ}
  {f : Frame σ} {rest : List (Frame σ)}

omit [DecidableEq θ] in
theorem Exclusive.start (data : σ) : Exclusive (Machine.start data : Machine θ σ) where
  phase t f hf := by cases hf
  above t := .nil
  free _ t h := by
    obtain ⟨f, hf, -⟩ := h
    cases hf
  taken h := by cases h
  single t t' h := by
    obtain ⟨f, hf, -⟩ := h
    cases hf

theorem locks_cons : Locks (f :: rest) ↔ holds f.code = true ∨ Locks rest := by
  simp [Locks]

theorem above_of_not_holds {st : List (Frame σ)} (h : ¬ Locks st) (f : Frame σ) :
    ∀ g ∈ st, Above f g :=
  fun g hg hholds => absurd ⟨g, hg, hholds⟩ h

omit [DecidableEq θ] in
/-- The frame on top, and those beneath it. -/
theorem Exclusive.top (h : Exclusive s) (htop : s.frames t = f :: rest) :
    (pending f.code = true ∨ holds f.code = true ∨ done f.code = true) ∧
    (∀ g ∈ rest, pending g.code = true ∨ holds g.code = true ∨ done g.code = true) ∧
    (∀ g ∈ rest, Above f g) ∧ rest.Pairwise Above := by
  have hphase := h.phase t
  have habove := h.above t
  rw [htop, List.forall_mem_cons] at hphase
  rw [htop, List.pairwise_cons] at habove
  exact ⟨hphase.1, hphase.2, habove.1, habove.2⟩

omit [DecidableEq θ] in
/-- A frame that is not a handler before the lock has no holder beneath it. -/
theorem Exclusive.not_locks_tail (h : Exclusive s) (htop : s.frames t = f :: rest)
    (hf : pending f.code = false) : ¬ Locks rest := by
  rintro ⟨g, hg, hholds⟩
  obtain ⟨-, -, hunder, -⟩ := h.top htop
  have hpending := (hunder g hg hholds).2
  rw [hf] at hpending
  cases hpending

omit [DecidableEq θ] in
/-- Code behind the lock runs on a stack that does not hold it. -/
theorem Exclusive.not_locks_of_done (h : Exclusive s)
    (hat : ∀ f ∈ (s.frames t).head?, done f.code = true) : ¬ Locks (s.frames t) := by
  cases hstack : s.frames t with
  | nil => simp [Locks]
  | cons f rest =>
      have hdone : done f.code = true := hat f (by rw [hstack]; rfl)
      rw [locks_cons, not_or]
      exact ⟨by simp [not_holds_of_done hdone],
        h.not_locks_tail hstack (not_pending_of_done hdone)⟩

/-- Only the stack of `t` has changed. -/
theorem Exclusive.setStack (h : Exclusive s) (data : σ) {stack : List (Frame σ)} {flag : Bool}
    (hphase : ∀ f ∈ stack, pending f.code = true ∨ holds f.code = true ∨ done f.code = true)
    (habove : stack.Pairwise Above)
    (hfree : flag = false → ¬ Locks stack ∧ ∀ t', t' ≠ t → ¬ Locks (s.frames t'))
    (htaken : flag = true → Locks stack ∨ ∃ t', t' ≠ t ∧ Locks (s.frames t'))
    (hsingle : Locks stack → ∀ t', t' ≠ t → ¬ Locks (s.frames t')) :
    Exclusive { s.setStack t stack with data := data, flag := flag } := by
  have hself : (s.setStack t stack).frames t = stack := Function.update_self ..
  have hother : ∀ t', t' ≠ t → (s.setStack t stack).frames t' = s.frames t' :=
    fun t' hne => Function.update_of_ne hne ..
  constructor
  · intro t'
    show ∀ f ∈ (s.setStack t stack).frames t', _
    by_cases ht : t' = t
    · rw [ht, hself]
      exact hphase
    · rw [hother t' ht]
      exact h.phase t'
  · intro t'
    show ((s.setStack t stack).frames t').Pairwise Above
    by_cases ht : t' = t
    · rw [ht, hself]
      exact habove
    · rw [hother t' ht]
      exact h.above t'
  · intro hflag t'
    show ¬ Locks ((s.setStack t stack).frames t')
    by_cases ht : t' = t
    · rw [ht, hself]
      exact (hfree hflag).1
    · rw [hother t' ht]
      exact (hfree hflag).2 t' ht
  · intro hflag
    show ∃ t', Locks ((s.setStack t stack).frames t')
    rcases htaken hflag with hlocks | ⟨t', ht, hlocks⟩
    · exact ⟨t, by rwa [hself]⟩
    · exact ⟨t', by rwa [hother t' ht]⟩
  · intro t₁ t₂
    show Locks ((s.setStack t stack).frames t₁) → Locks ((s.setStack t stack).frames t₂) → _
    by_cases ht₁ : t₁ = t <;> by_cases ht₂ : t₂ = t
    · intro _ _
      rw [ht₁, ht₂]
    · rw [ht₁, hself, hother t₂ ht₂]
      intro hlocks hlocks'
      exact absurd hlocks' (hsingle hlocks t₂ ht₂)
    · rw [ht₂, hself, hother t₁ ht₁]
      intro hlocks hlocks'
      exact absurd hlocks (hsingle hlocks' t₁ ht₁)
    · rw [hother t₁ ht₁, hother t₂ ht₂]
      exact h.single t₁ t₂

/-- The stack holds the lock, or does not, as before. -/
theorem Exclusive.same (h : Exclusive s) (data : σ) {stack : List (Frame σ)}
    (hphase : ∀ f ∈ stack, pending f.code = true ∨ holds f.code = true ∨ done f.code = true)
    (habove : stack.Pairwise Above) (hlocks : Locks stack ↔ Locks (s.frames t)) :
    Exclusive { s.setStack t stack with data := data } := by
  refine h.setStack data hphase habove ?_ ?_ ?_
  · intro hflag
    exact ⟨fun hl => h.free hflag t (hlocks.mp hl), fun t' _ => h.free hflag t'⟩
  · intro hflag
    obtain ⟨t', hl⟩ := h.taken hflag
    by_cases ht : t' = t
    · exact .inl (hlocks.mpr (ht ▸ hl))
    · exact .inr ⟨t', ht, hl⟩
  · intro hl t' ht hl'
    exact ht (h.single t' t hl' (hlocks.mp hl))

/-- All code takes the lock once and gives it back. -/
def Disciplined (calls handlers : Set (Code σ)) : Prop :=
  (∀ c ∈ calls, pending c = true) ∧ ∀ c ∈ handlers, pending c = true

/-- The lock is taken by the frame on top. -/
theorem Exclusive.acquire {b : Bool} {c : Code σ} (h : Exclusive s)
    (htop : s.frames t = ⟨b, .acquire :: c⟩ :: rest) (hfree : s.flag = false) :
    Exclusive { s.setStack t (⟨b, c⟩ :: rest) with flag := true } := by
  obtain ⟨hphase, hphases, -, habove⟩ := h.top htop
  have hnone := h.free hfree
  have hholds : holds c = true := by
    rcases hphase with hpending | hholds | hdone
    · exact hpending
    · cases hholds
    · cases hdone
  have hrest : ¬ Locks rest := fun hl => hnone t (by rw [htop, locks_cons]; exact .inr hl)
  refine h.setStack s.data ?_ (.cons (above_of_not_holds hrest _) habove) ?_ ?_ ?_
  · exact List.forall_mem_cons.mpr ⟨.inr (.inl hholds), hphases⟩
  · intro hflag
    cases hflag
  · intro _
    exact .inl (locks_cons.mpr (.inl hholds))
  · intro _ t' _
    exact hnone t'

/-- It is given back by the frame on top, as no other holds it. -/
theorem Exclusive.release {b : Bool} {c : Code σ} (h : Exclusive s)
    (htop : s.frames t = ⟨b, .release :: c⟩ :: rest) :
    Exclusive { s.setStack t (⟨b, c⟩ :: rest) with flag := false } := by
  obtain ⟨hphase, hphases, -, habove⟩ := h.top htop
  have hdone : done c = true := by
    rcases hphase with hpending | hholds | hdone
    · cases hpending
    · exact hholds
    · cases hdone
  have hrest : ¬ Locks rest := h.not_locks_tail htop rfl
  have hlocks : Locks (s.frames t) := by
    rw [htop, locks_cons]
    exact .inl hdone
  have hnone : ¬ Locks (⟨b, c⟩ :: rest) := by
    rw [locks_cons, not_or]
    exact ⟨by simp [not_holds_of_done hdone], hrest⟩
  refine h.setStack s.data ?_ (.cons (above_of_not_holds hrest _) habove) ?_ ?_ ?_
  · exact List.forall_mem_cons.mpr ⟨.inr (.inr hdone), hphases⟩
  · intro _
    exact ⟨hnone, fun t' ht hl => ht (h.single t' t hl hlocks)⟩
  · intro hflag
    cases hflag
  · intro hl
    exact absurd hl hnone

theorem Exclusive.step (h : Exclusive s) (hcode : Disciplined calls handlers)
    (hstep : Step calls handlers s l u) : Exclusive u := by
  cases hstep with
  | @call t c hc hat =>
      have hpending := hcode.1 c hc
      have hnot := h.not_locks_of_done hat
      refine h.same s.data ?_ (.cons (above_of_not_holds hnot _) (h.above t)) ?_
      · exact List.forall_mem_cons.mpr ⟨.inl hpending, h.phase t⟩
      · simp [locks_cons, not_holds_of_pending hpending]
  | @interrupt t c hc =>
      have hpending := hcode.2 c hc
      refine h.same s.data ?_ (.cons (fun g _ _ => ⟨rfl, hpending⟩) (h.above t)) ?_
      · exact List.forall_mem_cons.mpr ⟨.inl hpending, h.phase t⟩
      · simp [locks_cons, not_holds_of_pending hpending]
  | @work t b g c rest htop =>
      obtain ⟨hphase, hphases, hunder, habove⟩ := h.top htop
      -- the frame is where it was with respect to the lock
      refine h.same (g s.data) (List.forall_mem_cons.mpr ⟨hphase, hphases⟩)
        (.cons hunder habove) ?_
      rw [htop, locks_cons, locks_cons]
      exact Iff.rfl
  | acquire htop hfree => exact h.acquire htop hfree
  | spin htop htaken => exact h
  | release htop => exact h.release htop
  | @leave t b rest htop =>
      obtain ⟨-, hphases, -, habove⟩ := h.top htop
      refine h.same s.data hphases habove ?_
      rw [htop, locks_cons]
      simp [holds]

end Exclusive

/-! ## §5  Handlers that never return -/

/-- Some steps lead from one machine to the other. -/
abbrev Leads (calls handlers : Set (Code σ)) : Machine θ σ → Machine θ σ → Prop :=
  Relation.ReflTransGen fun s u => ∃ l, Step calls handlers s l u

section Leads

variable {calls handlers : Set (Code σ)} {s u : Machine θ σ} {l : Label θ σ} {t t' : θ}
  {above below rest stack : List (Frame σ)} {f : Frame σ} {c : Code σ} {b : Bool}

@[simp] theorem setStack_self : (s.setStack t stack).frames t = stack := Function.update_self ..

theorem setStack_of_ne (h : t' ≠ t) : (s.setStack t stack).frames t' = s.frames t' :=
  Function.update_of_ne h ..

theorem Exclusive.leads (h : Exclusive s) (hcode : Disciplined calls handlers)
    (hleads : Leads calls handlers s u) : Exclusive u := by
  induction hleads with
  | refl => exact h
  | tail _ hstep ih =>
      obtain ⟨l, hstep⟩ := hstep
      exact ih.step hcode hstep

/-- Frames on top of one that holds the lock. -/
def Stuck (s : Machine θ σ) (t : θ) (below : List (Frame σ)) : Prop :=
  Locks below ∧ ∃ above, above ≠ [] ∧ s.frames t = above ++ below

/-- They wait for what only the frame beneath could give back. -/
theorem Stuck.step (h : Stuck s t below) (hexcl : Exclusive s)
    (hstep : Step calls handlers s l u) : Stuck u t below := by
  obtain ⟨hlocks, above, hne, hstack⟩ := h
  obtain ⟨f, above, rfl⟩ := List.exists_cons_of_ne_nil hne
  have hwaits : pending f.code = true := by
    obtain ⟨g, hg, hholds⟩ := hlocks
    obtain ⟨-, -, hunder, -⟩ := hexcl.top hstack
    exact (hunder g (List.mem_append_right _ hg) hholds).2
  have htaken : s.flag = true := by
    by_contra hfree
    obtain ⟨g, hg, hholds⟩ := hlocks
    refine hexcl.free (by simpa using hfree) t ⟨g, ?_, hholds⟩
    rw [hstack]
    exact List.mem_append_right _ hg
  have hpush : ∀ t' g, Stuck (s.push t' g) t below := by
    intro t' g
    by_cases ht : t = t'
    · subst ht
      exact ⟨hlocks, g :: f :: above, by simp, by simp [Machine.push, hstack]⟩
    · exact ⟨hlocks, f :: above, by simp, (setStack_of_ne ht).trans hstack⟩
  have hother : ∀ {t' stack}, t ≠ t' → (s.setStack t' stack).frames t = f :: above ++ below :=
    fun ht => (setStack_of_ne ht).trans hstack
  cases hstep with
  | call hc hat => exact hpush _ _
  | interrupt hc => exact hpush _ _
  | @work t' b g c rest htop =>
      by_cases ht : t = t'
      · subst ht
        obtain ⟨rfl, rfl⟩ := List.cons.inj (hstack.symm.trans htop)
        exact ⟨hlocks, ⟨b, c⟩ :: above, by simp, setStack_self⟩
      · exact ⟨hlocks, f :: above, by simp, hother ht⟩
  | @acquire t' b c rest htop hfree =>
      rw [htaken] at hfree
      cases hfree
  | spin htop _ => exact ⟨hlocks, f :: above, by simp, hstack⟩
  | @release t' b c rest htop =>
      by_cases ht : t = t'
      · subst ht
        obtain ⟨rfl, -⟩ := List.cons.inj (hstack.symm.trans htop)
        cases hwaits
      · exact ⟨hlocks, f :: above, by simp, hother ht⟩
  | @leave t' b rest htop =>
      by_cases ht : t = t'
      · subst ht
        obtain ⟨rfl, -⟩ := List.cons.inj (hstack.symm.trans htop)
        cases hwaits
      · exact ⟨hlocks, f :: above, by simp, hother ht⟩

theorem Stuck.never (h : Stuck s t below) (hexcl : Exclusive s)
    (hcode : Disciplined calls handlers) (hleads : Leads calls handlers s u) :
    u.frames t ≠ below := by
  have hstuck : Stuck u t below := by
    induction hleads with
    | refl => exact h
    | tail hbefore hstep ih =>
        obtain ⟨l, hstep⟩ := hstep
        exact ih.step (hexcl.leads hcode hbefore) hstep
  obtain ⟨-, above, hne, hstack⟩ := hstuck
  intro heq
  rw [heq, List.self_eq_append_left] at hstack
  exact hne hstack

/-! ## §6  Handlers that can -/

/-- Nothing that holds the lock has been interrupted. -/
def Clear (s : Machine θ σ) : Prop := ∀ t, ¬ Locks (s.frames t).tail

/-- Code behind the lock runs to its end. -/
theorem leads_of_done (htop : s.frames t = ⟨b, c⟩ :: rest) (hc : done c = true) :
    ∃ u, Leads calls handlers s u ∧ u.frames = Function.update s.frames t rest ∧
      u.flag = s.flag := by
  induction c generalizing s with
  | nil => exact ⟨_, .single ⟨_, .leave htop⟩, rfl, rfl⟩
  | cons i c ih =>
      cases i with
      | acquire => cases hc
      | release => cases hc
      | work g =>
          have hstep : Step calls handlers s _ _ := .work htop
          obtain ⟨u, hleads, hframes, hflag⟩ :=
            ih (s := { s.setStack t (⟨b, c⟩ :: rest) with data := g s.data }) setStack_self hc
          refine ⟨u, .head ⟨_, hstep⟩ hleads, ?_, hflag⟩
          rw [hframes]
          exact Function.update_idem ..

/-- Code that holds the lock gives it back. -/
theorem leads_of_holds (htop : s.frames t = ⟨b, c⟩ :: rest) (hc : holds c = true) :
    ∃ u c', Leads calls handlers s u ∧
      u.frames = Function.update s.frames t (⟨b, c'⟩ :: rest) ∧ done c' = true ∧
      u.flag = false := by
  induction c generalizing s with
  | nil => cases hc
  | cons i c ih =>
      cases i with
      | acquire => cases hc
      | release => exact ⟨_, c, .single ⟨_, .release htop⟩, rfl, hc, rfl⟩
      | work g =>
          have hstep : Step calls handlers s _ _ := .work htop
          obtain ⟨u, c', hleads, hframes, hdone, hflag⟩ :=
            ih (s := { s.setStack t (⟨b, c⟩ :: rest) with data := g s.data }) setStack_self hc
          refine ⟨u, c', .head ⟨_, hstep⟩ hleads, ?_, hdone, hflag⟩
          rw [hframes]
          exact Function.update_idem ..

/-- Code before the lock takes it if it is free. -/
theorem leads_of_pending (htop : s.frames t = ⟨b, c⟩ :: rest) (hc : pending c = true)
    (hfree : s.flag = false) :
    ∃ u c', Leads calls handlers s u ∧
      u.frames = Function.update s.frames t (⟨b, c'⟩ :: rest) ∧ holds c' = true := by
  induction c generalizing s with
  | nil => cases hc
  | cons i c ih =>
      cases i with
      | acquire => exact ⟨_, c, .single ⟨_, .acquire htop hfree⟩, rfl, hc⟩
      | release => cases hc
      | work g =>
          have hstep : Step calls handlers s _ _ := .work htop
          obtain ⟨u, c', hleads, hframes, hholds⟩ :=
            ih (s := { s.setStack t (⟨b, c⟩ :: rest) with data := g s.data }) setStack_self hc hfree
          refine ⟨u, c', .head ⟨_, hstep⟩ hleads, ?_, hholds⟩
          rw [hframes]
          exact Function.update_idem ..

theorem Clear.update (h : Clear s) (hframes : u.frames = Function.update s.frames t stack)
    (htail : ¬ Locks stack.tail) : Clear u := by
  intro t'
  rw [hframes]
  by_cases ht : t' = t
  · rw [ht, Function.update_self]
    exact htail
  · rw [Function.update_of_ne ht]
    exact h t'

omit [DecidableEq θ] in
theorem Clear.beneath (h : Clear s) (htop : s.frames t = f :: rest) : ¬ Locks rest := by
  have htail := h t
  rwa [htop] at htail

theorem Locks.of_tail (h : Locks stack.tail) : Locks stack := by
  obtain ⟨g, hg, hholds⟩ := h
  exact ⟨g, List.mem_of_mem_tail hg, hholds⟩

/-- Whoever holds the lock is on top of its stack and gives it back. -/
theorem Exclusive.leads_free (h : Exclusive s) (hclear : Clear s)
    (htop : s.frames t = f :: rest) (hf : holds f.code = false) :
    ∃ u, Leads calls handlers s u ∧ u.frames t = f :: rest ∧ u.flag = false ∧ Clear u := by
  cases hflag : s.flag with
  | false => exact ⟨s, .refl, htop, hflag, hclear⟩
  | true =>
      obtain ⟨t', hlocks⟩ := h.taken hflag
      cases htop' : s.frames t' with
      | nil =>
          rw [htop'] at hlocks
          obtain ⟨g, hg, -⟩ := hlocks
          cases hg
      | cons g rest' =>
          have hrest := hclear.beneath htop'
          rw [htop', locks_cons] at hlocks
          have hholds := hlocks.resolve_right hrest
          have ht : t ≠ t' := by
            rintro rfl
            obtain ⟨rfl, -⟩ := List.cons.inj (htop.symm.trans htop')
            rw [hholds] at hf
            cases hf
          obtain ⟨u, c', hleads, hframes, -, hfree⟩ := leads_of_holds htop' hholds
          refine ⟨u, hleads, ?_, hfree, hclear.update hframes hrest⟩
          rw [hframes, Function.update_of_ne ht, htop]

/-- The frame on top of a stack can return. -/
theorem Exclusive.leads_return (h : Exclusive s) (hclear : Clear s)
    (htop : s.frames t = f :: rest) :
    ∃ u, Leads calls handlers s u ∧ u.frames t = rest ∧ Clear u := by
  have hdone : ∀ {s : Machine θ σ} {c : Code σ}, Clear s → s.frames t = ⟨f.handler, c⟩ :: rest →
      done c = true → ∃ u, Leads calls handlers s u ∧ u.frames t = rest ∧ Clear u := by
    intro s c hclear htop hc
    obtain ⟨u, hleads, hframes, -⟩ := leads_of_done htop hc
    refine ⟨u, hleads, ?_, hclear.update hframes (mt Locks.of_tail (hclear.beneath htop))⟩
    rw [hframes, Function.update_self]
  have hholds : ∀ {s : Machine θ σ} {c : Code σ}, Clear s → s.frames t = ⟨f.handler, c⟩ :: rest →
      holds c = true → ∃ u, Leads calls handlers s u ∧ u.frames t = rest ∧ Clear u := by
    intro s c hclear htop hc
    obtain ⟨v, c', hleads, hframes, hc', -⟩ := leads_of_holds htop hc
    obtain ⟨u, hleads', hu⟩ := hdone (hclear.update hframes (hclear.beneath htop))
      (by rw [hframes, Function.update_self]) hc'
    exact ⟨u, hleads.trans hleads', hu⟩
  rcases h.phase t f (htop ▸ List.mem_cons_self) with hf | hf | hf
  · obtain ⟨v, hleads, htop', hfree, hclear'⟩ :=
      h.leads_free hclear htop (not_holds_of_pending hf)
    obtain ⟨v', c', hleads', hframes, hc'⟩ := leads_of_pending htop' hf hfree
    obtain ⟨u, hleads'', hu⟩ := hholds (hclear'.update hframes (hclear'.beneath htop'))
      (by rw [hframes, Function.update_self]) hc'
    exact ⟨u, (hleads.trans hleads').trans hleads'', hu⟩
  · exact hholds hclear htop hf
  · exact hdone hclear htop hf

theorem Exclusive.leads_below (h : Exclusive s) (hcode : Disciplined calls handlers)
    (hclear : Clear s) (hstack : s.frames t = above ++ below) :
    ∃ u, Leads calls handlers s u ∧ u.frames t = below := by
  induction above generalizing s with
  | nil => exact ⟨s, .refl, hstack⟩
  | cons f above ih =>
      obtain ⟨v, hleads, hstack', hclear'⟩ := h.leads_return hclear hstack
      obtain ⟨u, hleads', hu⟩ := ih (h.leads hcode hleads) hclear' hstack'
      exact ⟨u, hleads.trans hleads', hu⟩

/-- Every handler can return to the code it interrupted. -/
def Returns (calls handlers : Set (Code σ)) (s : Machine θ σ) : Prop :=
  ∀ t above f below, s.frames t = above ++ f :: below → f.handler = true →
    ∃ u, Leads calls handlers s u ∧ u.frames t = below

/-- All handlers can return exactly when none is on top of code that holds the lock. -/
theorem Exclusive.returns_iff (h : Exclusive s) (hcode : Disciplined calls handlers) :
    Returns calls handlers s ↔ Clear s := by
  constructor
  · intro hreturns t hlocks
    cases htop : s.frames t with
    | nil =>
        rw [htop] at hlocks
        obtain ⟨g, hg, -⟩ := hlocks
        cases hg
    | cons f rest =>
        rw [htop] at hlocks
        obtain ⟨-, -, hunder, -⟩ := h.top htop
        have hstuck : Stuck s t rest := ⟨hlocks, [f], by simp, htop⟩
        obtain ⟨g, hg, hholds⟩ := hlocks
        obtain ⟨u, hleads, hu⟩ := hreturns t [] f rest htop (hunder g hg hholds).1
        exact hstuck.never h hcode hleads hu
  · intro hclear t above f below hstack _
    have hstack' : s.frames t = (above ++ [f]) ++ below := by
      rw [hstack, List.append_assoc, List.singleton_append]
    exact h.leads_below hcode hclear hstack'

/-- No step but an interrupt puts a frame on top of one that holds the lock. -/
theorem Clear.step (h : Clear s) (hexcl : Exclusive s) (hstep : Step calls handlers s l u)
    (hok : ∀ t c, l = .interrupt t c → ¬ Locks (s.frames t)) : Clear u := by
  cases hstep with
  | call hc hat => exact h.update rfl (hexcl.not_locks_of_done hat)
  | @interrupt t c hc => exact h.update rfl (hok t c rfl)
  | work htop => exact h.update rfl (h.beneath htop)
  | acquire htop hfree => exact h.update rfl (h.beneath htop)
  | spin htop htaken => exact h
  | release htop => exact h.update rfl (h.beneath htop)
  | leave htop => exact h.update rfl (mt Locks.of_tail (h.beneath htop))

theorem not_clear_of_interrupt (hstep : Step calls handlers s (.interrupt t c) u)
    (hlocks : Locks (s.frames t)) : ¬ Clear u := by
  intro h
  cases hstep with
  | interrupt hc => exact h.beneath setStack_self hlocks

end Leads

end Interrupts

end Foundation
