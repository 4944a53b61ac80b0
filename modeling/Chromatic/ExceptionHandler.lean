import Chromatic.State
import Chromatic.Foundation.Runs

/-!
# The exception handler

One set of OS signal handlers serves the user-facing switch (`enable`,
`disable`) and the reference count of the breakpoint and monitor subsystems
(`refEnable`, `refDisable`).

§1 installing and removing · §2 the two switches · §3 the handler chain ·
§4 runs of the switches · §5 what the switches keep · §6 what is saved as the original
disposition · §7 what disabling gives back.
-/

namespace Chromatic

open Foundation

namespace ExceptionHandler

/-! ## §1  Installing and removing -/

/-- `sa.sa_sigaction = globalSignalHandler; sigemptyset(&sa.sa_mask);
sa.sa_flags = SA_SIGINFO | SA_NODEFER`. -/
def ownAction : SigAction := ⟨.globalSignalHandler, true, true, 0, 0⟩

/-- Four `sigaction(sig, &sa, &g_old_sig)` calls. -/
def installHandlers (s : ExceptionState) : ExceptionState :=
  { s with old := s.disposition, disposition := fun _ => ownAction }

/-- Four `sigaction(sig, &g_old_sig, nullptr)` calls. -/
def removeHandlers (s : ExceptionState) : ExceptionState :=
  { s with disposition := s.old }

/-! ## §2  The two switches -/

def enable (s : ExceptionState) : ExceptionState :=
  if s.enabled then s else installHandlers { s with enabled := true }

def disable (s : ExceptionState) : ExceptionState :=
  if !s.enabled then s
  else if s.refCount > 0 then { s with enabled := false }
  else removeHandlers { s with enabled := false }

def refEnable (s : ExceptionState) : ExceptionState :=
  if s.refCount = 0 ∧ s.enabled = false then
    installHandlers { s with refCount := s.refCount + 1, enabled := true }
  else { s with refCount := s.refCount + 1 }

/-- The branch for the last reference is empty in the source. -/
def refDisable (s : ExceptionState) : ExceptionState :=
  { s with refCount := s.refCount - 1 }

def registerHandler (type : ExceptionType) (callback : HandlerFn)
    (s : ExceptionState) : ℕ × ExceptionState :=
  (s.nextId, { s with
    nextId := s.nextId + 1
    handlers := s.handlers ++ [⟨s.nextId, type, callback⟩] })

def unregisterHandler (id : ℕ) (s : ExceptionState) : ExceptionState :=
  { s with handlers := s.handlers.filter (·.id ≠ id) }

section Frame

variable (s : ExceptionState)

@[simp] theorem refEnable_handlers : (refEnable s).handlers = s.handlers := by
  unfold refEnable; split <;> rfl

@[simp] theorem refEnable_nextId : (refEnable s).nextId = s.nextId := by
  unfold refEnable; split <;> rfl

theorem refEnable_refCount : (refEnable s).refCount = s.refCount + 1 := by
  unfold refEnable; split <;> rfl

@[simp] theorem refDisable_handlers : (refDisable s).handlers = s.handlers := rfl

@[simp] theorem refDisable_nextId : (refDisable s).nextId = s.nextId := rfl

end Frame

/-- Identifiers of registered handlers are their own and below the counter. -/
structure Numbered (s : ExceptionState) : Prop where
  below : ∀ e ∈ s.handlers, e.id < s.nextId
  distinct : ∀ e ∈ s.handlers, ∀ e' ∈ s.handlers, e.id = e'.id → e = e'

theorem Numbered.congr {s t : ExceptionState} (h : Numbered s)
    (hhandlers : t.handlers = s.handlers) (hnext : t.nextId = s.nextId) : Numbered t where
  below := by rw [hhandlers, hnext]; exact h.below
  distinct := by rw [hhandlers]; exact h.distinct

theorem Numbered.register {s : ExceptionState} (h : Numbered s) (type : ExceptionType)
    (callback : HandlerFn) : Numbered (registerHandler type callback s).2 where
  below := by
    intro e he
    rcases List.mem_append.mp he with hold | hnew
    · exact Nat.lt_succ_of_lt (h.below e hold)
    · rw [List.mem_singleton.mp hnew]
      exact Nat.lt_succ_self _
  distinct := by
    intro e he e' he' hid
    rcases List.mem_append.mp he with hold | hnew <;>
      rcases List.mem_append.mp he' with hold' | hnew'
    · exact h.distinct e hold e' hold' hid
    · rw [List.mem_singleton.mp hnew'] at hid
      exact absurd hid (Nat.ne_of_lt (h.below e hold))
    · rw [List.mem_singleton.mp hnew] at hid
      exact absurd hid.symm (Nat.ne_of_lt (h.below e' hold'))
    · rw [List.mem_singleton.mp hnew, List.mem_singleton.mp hnew']

theorem Numbered.unregister {s : ExceptionState} (h : Numbered s) (id : ℕ) :
    Numbered (unregisterHandler id s) where
  below e he := h.below e (List.mem_of_mem_filter he)
  distinct e he e' he' :=
    h.distinct e (List.mem_of_mem_filter he) e' (List.mem_of_mem_filter he')

/-- Unregistering one handler leaves every other one in the chain. -/
theorem Numbered.mem_unregister {s : ExceptionState} (h : Numbered s) {e e' : HandlerEntry}
    (he : e ∈ s.handlers) (he' : e' ∈ s.handlers) (hne : e' ≠ e) :
    e' ∈ (unregisterHandler e.id s).handlers := by
  refine List.mem_filter.mpr ⟨he', ?_⟩
  simpa using fun hid => hne (h.distinct e' he' e he hid)

/-! ## §3  The handler chain -/

/-- What a handler sees of a signal: `$platformContext` is reduced to the saved
program counter. -/
structure ExceptionContext where
  type : ExceptionType
  faultAddress : Addr
  accessType : AccessType
  pc : Addr
deriving DecidableEq, Repr

/-- The cases of `si_code` told apart. -/
inductive SiCode where
  | segvMaperr
  | segvAccerr
  | trapTrace
  | other
deriving DecidableEq, Repr

/-- What the kernel passes along with a signal: `si_code`, `si_addr`, the write bit
of `REG_ERR` and the saved program counter. -/
structure SigInfo where
  code : SiCode
  addr : Addr
  errWrite : Bool
  pc : Addr
deriving DecidableEq, Repr

def buildContextFromSignal (target : Target) (sig : Sig) (info : SigInfo) :
    ExceptionContext :=
  match sig with
  | .sigsegv =>
      let accessType : AccessType :=
        if target = ⟨.x64, .linux⟩ ∧ (info.code = .segvAccerr ∨ info.code = .segvMaperr) then
          if info.errWrite then .write else .read
        else .unknown
      ⟨.accessViolation, info.addr, accessType, info.pc⟩
  | .sigbus => ⟨.busError, info.addr, .unknown, info.pc⟩
  | .sigtrap =>
      ⟨if info.code = .trapTrace then .singleStep else .breakpoint, info.addr, .execute, info.pc⟩
  | .sigill => ⟨.illegalInstruction, info.addr, .execute, info.pc⟩

/-- What happens to a signal nobody claimed. -/
inductive Forward where
  | call (f : SigHandler)
  | resetAndRaise
  | nothing
deriving DecidableEq, Repr

/-- `SIG_DFL` is the null pointer; with `SA_SIGINFO` set any other pointer is
called, `SIG_IGN` included. -/
def forwardToOriginal (old : SigAction) : Forward :=
  if old.siginfo then
    if old.handler = .sigDfl then .nothing else .call old.handler
  else if old.handler = .sigDfl then .resetAndRaise
  else if old.handler ≠ .sigIgn then .call old.handler
  else .nothing

section Chain

variable (invoke : HandlerFn → ExceptionContext → HandleAction × ExceptionContext)

/-- The loop over the copy of `g_handlers`: the first entry of the signal's type
that answers `Handled` ends it. -/
def dispatch : List HandlerEntry → ExceptionContext → HandleAction × ExceptionContext
  | [], ctx => (.notHandled, ctx)
  | e :: es, ctx =>
      if e.type = ctx.type then
        match invoke e.callback ctx with
        | (.handled, ctx') => (.handled, ctx')
        | (.notHandled, ctx') => dispatch es ctx'
      else dispatch es ctx

variable {invoke} {es : List HandlerEntry} {ctx ctx' : ExceptionContext}

theorem dispatch_none
    (h : ∀ e ∈ es, e.type = ctx.type → invoke e.callback ctx = (.notHandled, ctx)) :
    dispatch invoke es ctx = (.notHandled, ctx) := by
  induction es with
  | nil => rfl
  | cons e es ih =>
      have hrest := ih fun e' he' => h e' (List.mem_cons_of_mem _ he')
      unfold dispatch
      by_cases htype : e.type = ctx.type
      · rw [if_pos htype, h e List.mem_cons_self htype]
        exact hrest
      · rw [if_neg htype, hrest]

/-- An exception claimed by the first handler of its type goes there. -/
theorem dispatch_first {e : HandlerEntry} (hfirst : es.find? (·.type = ctx.type) = some e)
    (hclaim : invoke e.callback ctx = (.handled, ctx')) :
    dispatch invoke es ctx = (.handled, ctx') := by
  induction es with
  | nil => simp at hfirst
  | cons e' es ih =>
      unfold dispatch
      by_cases htype : e'.type = ctx.type
      · obtain rfl : e' = e := by simpa [htype] using hfirst
        rw [if_pos htype, hclaim]
      · rw [if_neg htype]
        exact ih (by simpa [htype] using hfirst)

/-- An exception that only `f` claims goes there, wherever it is in the chain. -/
theorem dispatch_only {f : HandlerFn}
    (hmem : ∃ e ∈ es, e.type = ctx.type ∧ e.callback = f)
    (hclaim : invoke f ctx = (.handled, ctx'))
    (hothers : ∀ e ∈ es, e.type = ctx.type → e.callback ≠ f →
      invoke e.callback ctx = (.notHandled, ctx)) :
    dispatch invoke es ctx = (.handled, ctx') := by
  induction es with
  | nil => simp at hmem
  | cons e es ih =>
      obtain ⟨e', he', htype', hcallback⟩ := hmem
      have hrest : ∀ e ∈ es, e.type = ctx.type → e.callback ≠ f →
          invoke e.callback ctx = (.notHandled, ctx) :=
        fun e he => hothers e (List.mem_cons_of_mem _ he)
      unfold dispatch
      -- an entry of another type or function is passed over
      by_cases hself : e.type = ctx.type ∧ e.callback = f
      · rw [if_pos hself.1, hself.2, hclaim]
      · have hlater : e' ∈ es := by
          rcases List.mem_cons.mp he' with rfl | hlater
          · exact absurd ⟨htype', hcallback⟩ hself
          · exact hlater
        have htail := ih ⟨e', hlater, htype', hcallback⟩ hrest
        by_cases htype : e.type = ctx.type
        · have hne : e.callback ≠ f := fun h => hself ⟨htype, h⟩
          rw [if_pos htype, hothers e List.mem_cons_self htype hne]
          exact htail
        · rw [if_neg htype, htail]

/-- One function that claims is enough where those that pass leave the context alone. -/
theorem dispatch_claimed {e : HandlerEntry}
    (hpass : ∀ f ctx', invoke f ctx = (.notHandled, ctx') → ctx' = ctx) (hmem : e ∈ es)
    (htype : e.type = ctx.type) (hclaim : (invoke e.callback ctx).1 = .handled) :
    (dispatch invoke es ctx).1 = .handled := by
  induction es with
  | nil => cases hmem
  | cons e' es ih =>
      unfold dispatch
      rcases hresult : invoke e'.callback ctx with ⟨action, ctx'⟩
      by_cases htype' : e'.type = ctx.type
      · rw [if_pos htype']
        cases action with
        | handled => rfl
        | notHandled =>
            rw [hpass _ _ hresult]
            rcases List.mem_cons.mp hmem with rfl | hlater
            · rw [hresult] at hclaim
              cases hclaim
            · exact ih hlater
      · rw [if_neg htype']
        rcases List.mem_cons.mp hmem with rfl | hlater
        · exact absurd htype htype'
        · exact ih hlater

variable (invoke)

/-- `none`: claimed, execution resumes at the context's program counter. -/
def globalSignalHandler (target : Target) (s : ExceptionState) (sig : Sig) (info : SigInfo) :
    Option Forward × ExceptionContext :=
  match dispatch invoke s.handlers (buildContextFromSignal target sig info) with
  | (.handled, ctx') => (none, ctx')
  | (.notHandled, ctx') => (some (forwardToOriginal (s.old sig)), ctx')

end Chain

/-! ## §4  Runs of the switches -/

inductive Switch where
  | enable
  | disable
  | refEnable
  | refDisable
deriving DecidableEq, Repr

def Switch.exec : Switch → ExceptionState → ExceptionState
  | .enable => ExceptionHandler.enable
  | .disable => ExceptionHandler.disable
  | .refEnable => ExceptionHandler.refEnable
  | .refDisable => ExceptionHandler.refDisable

/-- Each `refDisable` matches an earlier `refEnable`. -/
def Step (s : ExceptionState) (op : Switch) (t : ExceptionState) : Prop :=
  (op = .refDisable → 0 < s.refCount) ∧ t = op.exec s

section Calls

/-- The run of the calls `ops` from `s`. -/
def calls (s : ExceptionState) : List Switch → List (ExceptionState × Switch)
  | [] => []
  | op :: ops => (s, op) :: calls (op.exec s) ops

/-- Where the calls lead. -/
def after (s : ExceptionState) (ops : List Switch) : ExceptionState :=
  ops.foldl (fun s op => op.exec s) s

theorem run_calls {s : ExceptionState} {ops : List Switch}
    (matched : ∀ p ∈ calls s ops, p.2 = .refDisable → 0 < p.1.refCount) :
    Run Step s (calls s ops) (after s ops) := by
  induction ops generalizing s with
  | nil => exact .nil
  | cons op ops ih =>
      have hfirst : Step s op (op.exec s) := ⟨matched (s, op) List.mem_cons_self, rfl⟩
      exact .cons hfirst (ih fun p hp => matched p (List.mem_cons_of_mem _ hp))

end Calls

/-- The call reaches `installHandlers`. -/
def Installs (s : ExceptionState) : Switch → Prop
  | .enable => s.enabled = false
  | .refEnable => s.refCount = 0 ∧ s.enabled = false
  | .disable => False
  | .refDisable => False

instance (s : ExceptionState) : DecidablePred (Installs s)
  | .enable => inferInstanceAs (Decidable (s.enabled = false))
  | .refEnable => inferInstanceAs (Decidable (s.refCount = 0 ∧ s.enabled = false))
  | .disable => inferInstanceAs (Decidable False)
  | .refDisable => inferInstanceAs (Decidable False)

/-- Only the installing calls write the saved dispositions. -/
theorem old_exec_of_installs {s : ExceptionState} {op : Switch} (h : Installs s op) :
    (op.exec s).old = s.disposition := by
  cases op with
  | enable => simp [Switch.exec, enable, show s.enabled = false from h, installHandlers]
  | refEnable => simp [Switch.exec, refEnable, show _ ∧ _ from h, installHandlers]
  | disable => exact h.elim
  | refDisable => exact h.elim

theorem old_exec_of_not_installs {s : ExceptionState} {op : Switch}
    (h : ¬ Installs s op) : (op.exec s).old = s.old := by
  cases op with
  | enable =>
      have hen : s.enabled = true := by simpa [Installs] using h
      simp [Switch.exec, enable, hen]
  | refEnable =>
      have hcond : ¬ (s.refCount = 0 ∧ s.enabled = false) := h
      simp only [Switch.exec, refEnable, if_neg hcond]
  | disable =>
      simp only [Switch.exec, disable, removeHandlers]
      split_ifs <;> rfl
  | refDisable => rfl

/-! ## §5  What the switches keep -/

/-- The user's `disable` comes after the subsystems have released their references. -/
def ReleasedFirst (s : ExceptionState) (op : Switch) : Prop :=
  op = .disable → s.enabled = true → s.refCount = 0

instance (s : ExceptionState) (op : Switch) : Decidable (ReleasedFirst s op) :=
  inferInstanceAs (Decidable (op = .disable → s.enabled = true → s.refCount = 0))

/-- What a run that releases first keeps: either nothing is in force and nobody counts on
it, or the saved dispositions are the process's own. -/
structure Returnable (initial : Sig → SigAction) (s : ExceptionState) : Prop where
  off : s.enabled = false → s.refCount = 0 ∧ s.disposition = initial
  on : s.enabled = true → s.old = initial

/-- References are never negative, and the handlers are in force while the flag is set. -/
structure Counted (s : ExceptionState) : Prop where
  nonneg : 0 ≤ s.refCount
  inForce : s.enabled = true → ∀ sig, s.disposition sig = ownAction

/-- The handlers are in force and everything saved is the handlers themselves. -/
structure Stuck (s : ExceptionState) : Prop where
  inForce : ∀ sig, s.disposition sig = ownAction
  saved : s.enabled = true → ∀ sig, s.old sig = ownAction

section Returning

variable {initial : Sig → SigAction} {s t : ExceptionState} {op : Switch}

theorem Returnable.exec (h : Returnable initial s) (hfirst : ReleasedFirst s op)
    (hstep : Step s op t) : Returnable initial t := by
  obtain ⟨hmatched, rfl⟩ := hstep
  cases henabled : s.enabled with
  | false =>
      obtain ⟨hcount, hown⟩ := h.off henabled
      cases op with
      | enable =>
          constructor <;>
            simp [Switch.exec, ExceptionHandler.enable, henabled, installHandlers, hown]
      | disable => simpa [Switch.exec, ExceptionHandler.disable, henabled] using h
      | refEnable =>
          constructor <;> simp [Switch.exec, ExceptionHandler.refEnable, henabled, hcount,
            installHandlers, hown]
      | refDisable => exact absurd (hmatched rfl) (by omega)
  | true =>
      have hold := h.on henabled
      cases op with
      | enable => simpa [Switch.exec, ExceptionHandler.enable, henabled] using h
      | disable =>
          have hcount := hfirst rfl henabled
          constructor <;> simp [Switch.exec, ExceptionHandler.disable, henabled, hcount,
            removeHandlers, hold]
      | refEnable =>
          constructor <;> simp [Switch.exec, ExceptionHandler.refEnable, henabled, hold]
      | refDisable =>
          constructor <;> simp [Switch.exec, ExceptionHandler.refDisable, henabled, hold]

theorem Counted.exec (h : Counted s) (hstep : Step s op t) : Counted t := by
  obtain ⟨hmatched, rfl⟩ := hstep
  have hnonneg := h.nonneg
  constructor
  · cases op with
    | enable =>
        simp only [Switch.exec, ExceptionHandler.enable, installHandlers]
        split <;> exact hnonneg
    | disable =>
        simp only [Switch.exec, ExceptionHandler.disable, removeHandlers]
        split_ifs <;> exact hnonneg
    | refEnable =>
        simp only [Switch.exec, ExceptionHandler.refEnable, installHandlers]
        split <;> dsimp only <;> omega
    | refDisable =>
        have hpos := hmatched rfl
        simp only [Switch.exec, ExceptionHandler.refDisable]
        omega
  · cases op with
    | enable =>
        simp only [Switch.exec, ExceptionHandler.enable, installHandlers]
        split
        · exact h.inForce
        · exact fun _ _ => rfl
    | disable =>
        simp only [Switch.exec, ExceptionHandler.disable, removeHandlers]
        split_ifs
        · exact h.inForce
        · exact (nomatch ·)
        · exact (nomatch ·)
    | refEnable =>
        simp only [Switch.exec, ExceptionHandler.refEnable, installHandlers]
        split
        · exact fun _ _ => rfl
        · exact h.inForce
    | refDisable => exact h.inForce

/-- Nothing a stuck handler does gives the signals back. -/
theorem Stuck.exec (h : Stuck s) (op : Switch) : Stuck (op.exec s) := by
  cases op with
  | enable =>
      simp only [Switch.exec, ExceptionHandler.enable, installHandlers]
      split
      · exact h
      · exact ⟨fun _ => rfl, fun _ => h.inForce⟩
  | disable =>
      simp only [Switch.exec, ExceptionHandler.disable, removeHandlers]
      split_ifs with hoff
      · exact h
      · exact ⟨h.inForce, (nomatch ·)⟩
      · exact ⟨h.saved (by simpa using hoff), (nomatch ·)⟩
  | refEnable =>
      simp only [Switch.exec, ExceptionHandler.refEnable, installHandlers]
      split
      · exact ⟨fun _ => rfl, fun _ => h.inForce⟩
      · exact ⟨h.inForce, h.saved⟩
  | refDisable => exact ⟨h.inForce, h.saved⟩

/-- A `disable` under a reference leaves the handlers in force with the flag off. -/
theorem Counted.stuck (h : Counted s) (hearly : ¬ ReleasedFirst s op) :
    Stuck (op.exec s) := by
  unfold ReleasedFirst at hearly
  push Not at hearly
  obtain ⟨rfl, henabled, hheld⟩ := hearly
  have hnonneg := h.nonneg
  have hpos : s.refCount > 0 := by omega
  simp only [Switch.exec, ExceptionHandler.disable, henabled, hpos]
  exact ⟨h.inForce henabled, (nomatch ·)⟩

variable {tr : List (ExceptionState × Switch)}

theorem counted_of_run (run : Run Step (ExceptionState.start initial) tr s) : Counted s :=
  (run.invariant (I := Counted) ⟨Int.le_refl 0, fun h => by cases h⟩ fun _ _ _ h hstep =>
    h.exec hstep).2

theorem returnable_throughout (run : Run Step (ExceptionState.start initial) tr s)
    (hfirst : Guarded ReleasedFirst tr) : Throughout (Returnable initial) tr s := by
  have init : Returnable initial (ExceptionState.start initial) :=
    ⟨fun _ => ⟨rfl, rfl⟩, fun h => by cases h⟩
  exact run.guarded_invariant init (fun _ _ _ h hg hstep => h.exec hg hstep) hfirst

theorem stuck_of_run (run : Run Step (ExceptionState.start initial) tr s)
    (hearly : ¬ Guarded ReleasedFirst tr) : Stuck s := by
  induction run with
  | nil => exact absurd (by simp [Guarded]) hearly
  | snoc hrun hstep ih =>
      rw [guarded_snoc, not_and_or] at hearly
      have hresult := hstep.2
      rcases hearly with hbefore | hnow
      · rw [hresult]
        exact (ih hbefore).exec _
      · rw [hresult]
        exact (counted_of_run hrun).stuck hnow

end Returning

/-! ## §6  What is saved as the original disposition -/

/-- Nothing the handler saved leads an unclaimed signal back to it. -/
def NeverReenters (s : ExceptionState) : Prop :=
  ∀ sig, (s.old sig).handler ≠ .globalSignalHandler ∧
    forwardToOriginal (s.old sig) ≠ .call .globalSignalHandler

/-- No call installs the handlers after a `disable` that left them in force for a subsystem. -/
def NeverInstallsAgain (tr : List (ExceptionState × Switch)) : Prop :=
  tr.Pairwise fun p q => ReleasedFirst p.1 p.2 ∨ ¬ Installs q.1 q.2

instance (tr : List (ExceptionState × Switch)) : Decidable (NeverInstallsAgain tr) :=
  inferInstanceAs (Decidable (tr.Pairwise fun p q => ReleasedFirst p.1 p.2 ∨ ¬ Installs q.1 q.2))

theorem forwardToOriginal_ne {old : SigAction} (h : old.handler ≠ .globalSignalHandler) :
    forwardToOriginal old ≠ .call .globalSignalHandler := by
  unfold forwardToOriginal
  split_ifs <;> simp [h]

theorem neverReenters_iff {s : ExceptionState} :
    NeverReenters s ↔ ∀ sig, (s.old sig).handler ≠ .globalSignalHandler :=
  ⟨fun h sig => (h sig).1, fun h sig => ⟨h sig, forwardToOriginal_ne (h sig)⟩⟩

section Saving

variable {initial : Sig → SigAction} {s : ExceptionState} {op : Switch}
  {tr : List (ExceptionState × Switch)}

/-- Without a `disable` under a reference an installation saves what the process has. -/
theorem Returnable.installs (h : Returnable initial s) (hi : Installs s op) :
    (op.exec s).old = initial := by
  have hoff : s.enabled = false := by
    cases op with
    | enable => exact hi
    | refEnable => exact hi.2
    | disable => exact hi.elim
    | refDisable => exact hi.elim
  rw [old_exec_of_installs hi, (h.off hoff).2]

theorem Stuck.installs (h : Stuck s) (hi : Installs s op) : ¬ NeverReenters (op.exec s) := by
  rw [neverReenters_iff, old_exec_of_installs hi]
  intro hforeign
  exact hforeign .sigsegv (by rw [h.inForce]; rfl)

theorem neverInstallsAgain_snoc :
    NeverInstallsAgain (tr ++ [(s, op)]) ↔
      NeverInstallsAgain tr ∧ (Guarded ReleasedFirst tr ∨ ¬ Installs s op) := by
  unfold NeverInstallsAgain Guarded
  rw [List.pairwise_append, and_congr_right_iff]
  intro _
  constructor
  · rintro ⟨-, hlast⟩
    by_cases hi : Installs s op
    · exact .inl fun p hp => (hlast p hp _ List.mem_cons_self).resolve_right (not_not_intro hi)
    · exact .inr hi
  · intro h
    refine ⟨List.pairwise_singleton _ _, fun p hp q hq => ?_⟩
    obtain rfl := List.mem_singleton.mp hq
    rcases h with hfirst | hi
    · exact .inl (hfirst p hp)
    · exact .inr hi

/-- **Unclaimed signals stay outside.** In a process with handlers of its own, a run of the
switches never saves `globalSignalHandler` as an original disposition exactly when it does not
install the handlers again after a `disable` that found them in use by a subsystem. -/
theorem neverReenters_throughout_iff
    (hinitial : ∀ sig, (initial sig).handler ≠ .globalSignalHandler)
    (run : Run Step (ExceptionState.start initial) tr s) :
    Throughout NeverReenters tr s ↔ NeverInstallsAgain tr := by
  induction run with
  | nil =>
      refine iff_of_true (throughout_nil.mpr (neverReenters_iff.mpr fun sig => ?_)) .nil
      simp [ExceptionState.start, defaultActions]
  | @snoc tr s op t hrun hstep ih =>
      rw [throughout_snoc, neverInstallsAgain_snoc, ih]
      refine and_congr_right fun hbefore => ?_
      rw [hstep.2]
      have hnow := (ih.mpr hbefore).2
      constructor
      · intro hnever
        by_contra hagain
        rw [not_or, not_not] at hagain
        exact (stuck_of_run hrun hagain.1).installs hagain.2 hnever
      · intro h
        rw [neverReenters_iff] at hnow ⊢
        by_cases hi : Installs s op
        · have hfirst := h.resolve_right (not_not_intro hi)
          rw [(returnable_throughout hrun hfirst).2.installs hi]
          exact hinitial
        · rw [old_exec_of_not_installs hi]
          exact hnow

end Saving

/-- Installed and removed for the user, for a subsystem, and for the user again. -/
def usedInTurn : List Switch :=
  [.enable, .disable, .refEnable, .refDisable, .disable, .enable]

theorem neverReenters_throughout_iff_inTurn :
    Run Step (ExceptionState.start defaultActions)
      (calls (.start defaultActions) usedInTurn) (after (.start defaultActions) usedInTurn) ∧
    Throughout NeverReenters (calls (.start defaultActions) usedInTurn)
      (after (.start defaultActions) usedInTurn) := by
  have run : Run Step (ExceptionState.start defaultActions)
      (calls (.start defaultActions) usedInTurn) (after (.start defaultActions) usedInTurn) :=
    run_calls (by decide)
  refine ⟨run, (neverReenters_throughout_iff (by simp [defaultActions]) run).mpr ?_⟩
  decide

/-- A subsystem takes its reference, the user disables and enables again: the
second installation saves the first. -/
theorem reenters_after_disable_with_reference :
    (∀ sig, (defaultActions sig).handler ≠ .globalSignalHandler) ∧
    ∃ tr, tr.map Prod.snd = [Switch.refEnable, .disable, .enable] ∧
      Run Step (ExceptionState.start defaultActions) tr
        (enable (disable (refEnable (ExceptionState.start defaultActions)))) ∧
      ¬ NeverReenters (enable (disable (refEnable (ExceptionState.start defaultActions)))) := by
  have first : Step (.start defaultActions) .refEnable (refEnable (.start defaultActions)) :=
    ⟨by simp, rfl⟩
  have second : Step (refEnable (.start defaultActions)) .disable
      (disable (refEnable (.start defaultActions))) := ⟨by simp, rfl⟩
  have third : Step (disable (refEnable (.start defaultActions))) .enable
      (enable (disable (refEnable (.start defaultActions)))) := ⟨by simp, rfl⟩
  refine ⟨by simp [defaultActions], _, ?_, ((Run.nil.snoc first).snoc second).snoc third, ?_⟩
  · rfl
  · intro h
    exact (h .sigsegv).2 (by decide)

/-! ## §7  What disabling gives back -/

/-- With the handlers off and no reference held, every disposition is the process's own. -/
def HandedBack (initial : Sig → SigAction) (s : ExceptionState) : Prop :=
  s.enabled = false → s.refCount = 0 → s.disposition = initial

section HandingBack

variable {initial : Sig → SigAction} {s : ExceptionState} {tr : List (ExceptionState × Switch)}

/-- From any state the references held can be released. -/
theorem exists_released (run : Run Step (ExceptionState.start initial) tr s) (h : Stuck s) :
    ∃ tr' t, Run Step (ExceptionState.start initial) (tr ++ tr') t ∧
      Guarded ReleasedFirst tr' ∧ Stuck t ∧ t.refCount = 0 := by
  have hnonneg := (counted_of_run run).nonneg
  obtain ⟨n, hn⟩ := Int.eq_ofNat_of_zero_le hnonneg
  induction n generalizing s tr with
  | zero => exact ⟨[], s, by simpa using run, by simp [Guarded], h, hn⟩
  | succ n ih =>
      have hstep : Step s .refDisable (ExceptionHandler.refDisable s) :=
        ⟨fun _ => by omega, rfl⟩
      have hrest : (ExceptionHandler.refDisable s).refCount = n := by
        simp [ExceptionHandler.refDisable, hn]
      obtain ⟨tr', t, hrun, hguard, hstuck, hzero⟩ :=
        ih (run.snoc hstep) (h.exec .refDisable) (by omega) hrest
      refine ⟨(s, .refDisable) :: tr', t, by simpa using hrun, ?_, hstuck, hzero⟩
      intro p hp
      rcases List.mem_cons.mp hp with rfl | hlater
      · intro hdisable
        cases hdisable
      · exact hguard p hlater

/-- **Disabling hands the signals back.** In a run whose `disable` calls come after the
references are released, every state at rest has the process's own dispositions. A run that
disables under a reference never gets back to them: released and disabled in whatever
order, it comes to rest with the handlers in force. -/
theorem handedBack_throughout (run : Run Step (ExceptionState.start initial) tr s) :
    (Guarded ReleasedFirst tr → Throughout (HandedBack initial) tr s) ∧
    ((∃ sig, initial sig ≠ ownAction) → ¬ Guarded ReleasedFirst tr →
      ∃ tr' t, Run Step (ExceptionState.start initial) (tr ++ tr') t ∧
        Guarded ReleasedFirst tr' ∧ ¬ HandedBack initial t) := by
  constructor
  · intro hfirst
    have inv := returnable_throughout run hfirst
    have handed : ∀ {s}, Returnable initial s → HandedBack initial s :=
      fun h hoff _ => (h.off hoff).2
    exact ⟨fun p hp => handed (inv.1 p hp), handed inv.2⟩
  · rintro ⟨sig, hforeign⟩ hearly
    obtain ⟨tr', t, hrun, hguard, hstuck, hzero⟩ :=
      exists_released run (stuck_of_run run hearly)
    have hstep : Step t .disable (ExceptionHandler.disable t) := ⟨(nomatch ·), rfl⟩
    refine ⟨tr' ++ [(t, .disable)], _, by simpa using hrun.snoc hstep,
      guarded_snoc.mpr ⟨hguard, fun _ _ => hzero⟩, ?_⟩
    intro hback
    have hoff : (ExceptionHandler.disable t).enabled = false := by
      simp only [ExceptionHandler.disable, removeHandlers]
      split_ifs with hoff
      · simpa using hoff
      · rfl
      · rfl
    have hcount : (ExceptionHandler.disable t).refCount = 0 := by
      simp only [ExceptionHandler.disable, removeHandlers]
      split_ifs <;> exact hzero
    have hown := (hstuck.exec .disable).inForce sig
    rw [Switch.exec, hback hoff hcount] at hown
    exact hforeign hown

end HandingBack

/-- The user enables, a subsystem comes and goes, the user disables. -/
def releasedInTurn : List Switch := [.enable, .refEnable, .refDisable, .disable]

theorem handedBack_throughout_inTurn :
    let tr := calls (.start defaultActions) releasedInTurn
    let t := after (.start defaultActions) releasedInTurn
    Run Step (ExceptionState.start defaultActions) tr t ∧ t.enabled = false ∧ t.refCount = 0 ∧
      (after (.start defaultActions) (releasedInTurn.take 3)).disposition .sigsegv = ownAction ∧
      Throughout (HandedBack defaultActions) tr t := by
  dsimp only
  have run : Run Step (ExceptionState.start defaultActions)
      (calls (.start defaultActions) releasedInTurn)
      (after (.start defaultActions) releasedInTurn) := run_calls (by decide)
  refine ⟨run, by decide, by decide, by decide, (handedBack_throughout run).1 ?_⟩
  unfold Guarded ReleasedFirst
  decide

/-- The last reference is released after the user's `disable`: the handlers stay. -/
theorem kept_after_last_release :
    ∃ tr t, tr.map Prod.snd = [Switch.refEnable, .disable, .refDisable] ∧
      Run Step (ExceptionState.start defaultActions) tr t ∧
      t.enabled = false ∧ t.refCount = 0 ∧ t.disposition .sigsegv ≠ defaultActions .sigsegv := by
  have first : Step (.start defaultActions) .refEnable (refEnable (.start defaultActions)) :=
    ⟨by simp, rfl⟩
  have second : Step (refEnable (.start defaultActions)) .disable
      (disable (refEnable (.start defaultActions))) := ⟨by simp, rfl⟩
  have third : Step (disable (refEnable (.start defaultActions))) .refDisable
      (refDisable (disable (refEnable (.start defaultActions)))) := ⟨fun _ => by decide, rfl⟩
  exact ⟨_, _, rfl, ((Run.nil.snoc first).snoc second).snoc third, by decide, by decide,
    by decide⟩

end ExceptionHandler

end Chromatic
