import Chromatic.MemoryAccessMonitor
import Chromatic.Foundation.Runs

/-!
# The monitors' handlers

Every live monitor has a handler of its own for either signal, which only its own
`disable` takes away, and the OS handlers are installed from the first `enable` on.

§1 the invariant · §2 registering · §3 releasing · §4 runs · §5 where a signal goes.
-/

namespace Chromatic

open Foundation ExceptionHandler

namespace MemoryAccessMonitor

/-! ## §1  The invariant -/

def MonitorEntry.segvHandler (m : MonitorEntry) : HandlerEntry :=
  ⟨m.segvHandlerId, .accessViolation, .monitorSegvHandler⟩

def MonitorEntry.busHandler (m : MonitorEntry) : HandlerEntry :=
  ⟨m.busHandlerId, .busError, .monitorSegvHandler⟩

/-- The chain holds the handlers of the live monitors. As long as the OS handlers are not
installed there has been no monitor. -/
structure Routed (s : MonitorState) : Prop where
  numbered : Numbered s.exc
  only : ∀ e ∈ s.exc.handlers, e.callback = .monitorSegvHandler
  segv : ∀ {k m}, s.monitors.lookup k = some m → m.segvHandler ∈ s.exc.handlers
  bus : ∀ {k m}, s.monitors.lookup k = some m → m.busHandler ∈ s.exc.handlers
  own : ∀ {k m k' m'}, s.monitors.lookup k = some m → s.monitors.lookup k' = some m' →
    m.segvHandlerId = m'.segvHandlerId ∨ m.busHandlerId = m'.busHandlerId → k = k'
  before : s.exc.enabled = false → s.exc.refCount = 0 ∧ s.monitors = ∅
  installed : s.exc.enabled = true → ∀ sig, s.exc.disposition sig = ownAction

section Routing

variable {page : PageSize} {os : Os} {s t : MonitorState} {l : Label}

theorem Routed.start (disposition : Sig → SigAction) (prot : Addr → Prot) :
    Routed (.start (ExceptionState.start disposition) prot) where
  numbered := by constructor <;> simp [MonitorState.start, ExceptionState.start]
  only := by simp [MonitorState.start, ExceptionState.start]
  segv := by intro k m h; cases h
  bus := by intro k m h; cases h
  own := by intro k m k' m' h; cases h
  before _ := ⟨rfl, rfl⟩
  installed h := by cases h

theorem Routed.congr (h : Routed s) (hexc : t.exc = s.exc)
    (hmonitors : t.monitors = s.monitors) : Routed t := by
  obtain ⟨numbered, only, segv, bus, own, before, installed⟩ := h
  constructor <;> simp only [hexc, hmonitors] <;> assumption

/-! ## §2  Registering -/

theorem refEnable_installed (exc : ExceptionState)
    (hbefore : exc.enabled = false → exc.refCount = 0)
    (hinstalled : exc.enabled = true → ∀ sig, exc.disposition sig = ownAction) :
    (refEnable exc).enabled = true ∧ ∀ sig, (refEnable exc).disposition sig = ownAction := by
  unfold refEnable
  split
  · exact ⟨rfl, fun _ => rfl⟩
  · rename_i hnot
    cases henabled : exc.enabled with
    | true => exact ⟨rfl, hinstalled henabled⟩
    | false => exact absurd ⟨hbefore henabled, henabled⟩ hnot

theorem Routed.enable (h : Routed s) (env : ProtectAnswers) (addresses : List Addr)
    (sizes : List (BitVec 32)) (onAccess : Callback) :
    Routed (MemoryAccessMonitor.enable page os env addresses sizes onAccess s).2 := by
  unfold MemoryAccessMonitor.enable
  split
  · exact h
  · obtain ⟨henabled, hown⟩ :=
      refEnable_installed s.exc (fun henabled => (h.before henabled).1) h.installed
    -- the chain before the two registrations: identifiers in use are below the counter
    have hbase : Numbered (refEnable s.exc) := h.numbered.congr (by simp) (by simp)
    have hfresh : ∀ {k m}, s.monitors.lookup k = some m →
        m.segvHandlerId < s.exc.nextId ∧ m.busHandlerId < s.exc.nextId :=
      fun hlive => ⟨h.numbered.below _ (h.segv hlive), h.numbered.below _ (h.bus hlive)⟩
    refine ⟨(hbase.register _ _).register _ _, ?_, ?_, ?_, ?_, ?_, fun _ => hown⟩
    · intro e he
      simp only [registerHandler, refEnable_handlers, List.mem_append, List.mem_singleton] at he
      rcases he with (hold | rfl) | rfl
      · exact h.only e hold
      · rfl
      · rfl
    · intro k m hlookup
      simp only [registerHandler, refEnable_handlers, List.mem_append, List.mem_singleton]
      rcases lookup_insert_cases hlookup with ⟨-, rfl⟩ | ⟨-, hold⟩
      · exact .inl (.inr rfl)
      · exact .inl (.inl (h.segv hold))
    · intro k m hlookup
      simp only [registerHandler, refEnable_handlers, List.mem_append, List.mem_singleton]
      rcases lookup_insert_cases hlookup with ⟨-, rfl⟩ | ⟨-, hold⟩
      · exact .inr rfl
      · exact .inl (.inl (h.bus hold))
    · intro k m k' m' hlookup hlookup' hid
      rcases lookup_insert_cases hlookup with ⟨rfl, rfl⟩ | ⟨-, hold⟩ <;>
        rcases lookup_insert_cases hlookup' with ⟨rfl, rfl⟩ | ⟨-, hold'⟩
      · rfl
      · -- the new identifiers are above all in use
        obtain ⟨hsegv, hbus⟩ := hfresh hold'
        simp only [registerHandler, refEnable_nextId] at hid
        omega
      · obtain ⟨hsegv, hbus⟩ := hfresh hold
        simp only [registerHandler, refEnable_nextId] at hid
        omega
      · exact h.own hold hold' hid
    · intro hdisabled
      exact absurd (henabled.symm.trans hdisabled) (by decide)

theorem Routed.noteAccess (h : Routed s) {ctx : ExceptionContext}
    {order : List (Σ _ : ℕ, MonitorEntry)} {f : Found} (granted : Bool)
    (horder : order.Perm s.monitors.entries) (hscan : scan ctx.faultAddress order = some f) :
    Routed (MemoryAccessMonitor.noteAccess ctx granted f s) := by
  obtain ⟨hlive, -, -⟩ := scan_found horder hscan
  -- a monitor with a range fired has the handlers it had
  have hsame : ∀ {k m}, (s.monitors.insert f.key { f.monitor with ranges := f.ranges }).lookup k =
      some m → ∃ m', s.monitors.lookup k = some m' ∧
        m'.segvHandlerId = m.segvHandlerId ∧ m'.busHandlerId = m.busHandlerId := by
    intro k m hlookup
    rcases lookup_insert_cases hlookup with ⟨rfl, rfl⟩ | ⟨-, hold⟩
    · exact ⟨f.monitor, hlive, rfl, rfl⟩
    · exact ⟨m, hold, rfl, rfl⟩
  refine ⟨h.numbered, h.only, ?_, ?_, ?_, ?_, h.installed⟩
  · intro k m hlookup
    obtain ⟨m', hlive', hsegv, -⟩ := hsame hlookup
    unfold MonitorEntry.segvHandler
    rw [← hsegv]
    exact h.segv hlive'
  · intro k m hlookup
    obtain ⟨m', hlive', -, hbus⟩ := hsame hlookup
    unfold MonitorEntry.busHandler
    rw [← hbus]
    exact h.bus hlive'
  · intro k m k' m' hlookup hlookup' hid
    obtain ⟨m₁, hlive₁, hsegv₁, hbus₁⟩ := hsame hlookup
    obtain ⟨m₂, hlive₂, hsegv₂, hbus₂⟩ := hsame hlookup'
    rw [← hsegv₁, ← hbus₁, ← hsegv₂, ← hbus₂] at hid
    exact h.own hlive₁ hlive₂ hid
  · intro hdisabled
    obtain ⟨-, hnone⟩ := h.before hdisabled
    rw [hnone] at hlive
    cases hlive

/-! ## §3  Releasing -/

theorem releaseHandlers_frame (m : MonitorEntry) (exc : ExceptionState) :
    (releaseHandlers m exc).enabled = exc.enabled ∧
      (releaseHandlers m exc).disposition = exc.disposition ∧
      (releaseHandlers m exc).nextId = exc.nextId ∧
      ∀ e ∈ (releaseHandlers m exc).handlers, e ∈ exc.handlers := by
  refine ⟨rfl, rfl, rfl, ?_⟩
  intro e he
  exact List.mem_of_mem_filter (List.mem_of_mem_filter he)

theorem numbered_release {exc : ExceptionState} (h : Numbered exc) (m : MonitorEntry) :
    Numbered (releaseHandlers m exc) :=
  ((h.unregister _).unregister _).congr rfl rfl

/-- A handler that is not the monitor's stays in the chain. -/
theorem mem_releaseHandlers {exc : ExceptionState} {m : MonitorEntry} {e : HandlerEntry}
    (he : e ∈ exc.handlers) (hsegv : e.id ≠ m.segvHandlerId) (hbus : e.id ≠ m.busHandlerId) :
    e ∈ (releaseHandlers m exc).handlers := by
  refine List.mem_filter.mpr ⟨List.mem_filter.mpr ⟨he, ?_⟩, ?_⟩
  · simpa using hsegv
  · simpa using hbus

/-- Handlers of different types have different identifiers. -/
theorem Routed.ids_ne (h : Routed s) {k k' : ℕ} {m m' : MonitorEntry}
    (hlive : s.monitors.lookup k = some m) (hlive' : s.monitors.lookup k' = some m') :
    m.segvHandlerId ≠ m'.busHandlerId := by
  intro hid
  have heq := h.numbered.distinct _ (h.segv hlive) _ (h.bus hlive') hid
  have htype : ExceptionType.accessViolation = .busError := congrArg HandlerEntry.type heq
  cases htype

theorem Routed.disable (h : Routed s) (granted : ℕ → ℕ → Bool) (monId : ℕ) :
    Routed (MemoryAccessMonitor.disable granted monId s) := by
  unfold MemoryAccessMonitor.disable
  split
  · exact h
  · rename_i m hlive
    refine ⟨numbered_release h.numbered m, ?_, ?_, ?_, ?_, ?_, h.installed⟩
    · intro e he
      exact h.only e ((releaseHandlers_frame m s.exc).2.2.2 e he)
    · intro k m' hlookup
      obtain ⟨hne, hkept⟩ := lookup_erase_cases hlookup
      refine mem_releaseHandlers (h.segv hkept) ?_ (h.ids_ne hkept hlive)
      exact fun hid => hne (h.own hkept hlive (.inl hid))
    · intro k m' hlookup
      obtain ⟨hne, hkept⟩ := lookup_erase_cases hlookup
      apply mem_releaseHandlers (h.bus hkept) (Ne.symm (h.ids_ne hlive hkept))
      exact fun hid => hne (h.own hkept hlive (.inr hid))
    · intro k m₁ k' m₂ hlookup hlookup' hid
      exact h.own (lookup_erase_cases hlookup).2 (lookup_erase_cases hlookup').2 hid
    · intro hdisabled
      obtain ⟨-, hnone⟩ := h.before hdisabled
      rw [hnone] at hlive
      cases hlive

theorem Routed.disableAll (h : Routed s) (granted : ℕ → ℕ → Bool)
    {order : List (Σ _ : ℕ, MonitorEntry)} (horder : order.Perm s.monitors.entries) :
    Routed (MemoryAccessMonitor.disableAll granted order s) := by
  have hloop : ∀ (order : List (Σ _ : ℕ, MonitorEntry)) (exc : ExceptionState), Numbered exc →
      (∀ e ∈ exc.handlers, e.callback = .monitorSegvHandler) →
      let exc' := order.foldl (fun exc e => releaseHandlers e.2 exc) exc
      Numbered exc' ∧ (∀ e ∈ exc'.handlers, e.callback = .monitorSegvHandler) ∧
        exc'.enabled = exc.enabled ∧ exc'.disposition = exc.disposition := by
    intro order
    induction order with
    | nil => exact fun exc hnumbered honly => ⟨hnumbered, honly, rfl, rfl⟩
    | cons m order ih =>
        intro exc hnumbered honly
        apply ih (releaseHandlers m.2 exc) (numbered_release hnumbered m.2)
        exact fun e he => honly e ((releaseHandlers_frame m.2 exc).2.2.2 e he)
  obtain ⟨hnumbered, honly, henabled, hdisposition⟩ := hloop order s.exc h.numbered h.only
  refine ⟨hnumbered, honly, ?_, ?_, ?_, ?_, ?_⟩
  · intro k m hlookup; cases hlookup
  · intro k m hlookup; cases hlookup
  · intro k m k' m' hlookup; cases hlookup
  · intro hdisabled
    obtain ⟨hcount, hnone⟩ := h.before (henabled.symm.trans hdisabled)
    rw [hnone] at horder
    obtain rfl : order = [] := horder.eq_nil
    exact ⟨hcount, rfl⟩
  · intro henabled' sig
    show (order.foldl (fun exc e => releaseHandlers e.2 exc) s.exc).disposition sig = _
    rw [hdisposition]
    exact h.installed (henabled.symm.trans henabled') sig

/-! ## §4  Runs -/

theorem Routed.step (h : Routed s) (hstep : Step page os s l t) : Routed t := by
  cases hstep with
  | enable hjs => exact h.enable _ _ _ _
  | begin hjs => exact h.congr rfl rfl
  | turn hjs =>
      obtain ⟨hmonitors, -, -, hexc⟩ := drainTurn_frame _ _ _ s
      exact h.congr hexc hmonitors
  | callbackReturns hjs => exact h.congr rfl rfl
  | drained hjs htask => exact h.congr rfl rfl
  | disable hjs htask => exact (h.disable _ _).congr rfl rfl
  | @disableAll call granted order hjs htask horder =>
      exact (h.disableAll granted horder).congr rfl rfl
  | @fault ctx order granted horder =>
      rcases monitorSegvHandler_cases ctx order granted s with ⟨-, heq⟩ | ⟨f, hscan, heq⟩
      · rw [heq]; exact h
      · rw [heq]; exact h.noteAccess granted horder hscan
  | publish hmem => exact h.congr rfl rfl

/-! ## §5  Where a signal goes -/

/-- The handlers are installed and the first one for the type of the signal is
`monitorSegvHandler`. -/
def Reached (exc : ExceptionState) (sig : Sig) : Prop :=
  exc.enabled = true ∧ exc.disposition sig = ownAction ∧
    ∀ target info, ∃ e, exc.handlers.find?
      (·.type = (buildContextFromSignal target sig info).type) = some e ∧
        e.callback = .monitorSegvHandler

/-- With a live monitor both signals reach its handler. -/
theorem Routed.reached (h : Routed s) {k : ℕ} {m : MonitorEntry}
    (hlive : s.monitors.lookup k = some m) :
    Reached s.exc .sigsegv ∧ Reached s.exc .sigbus := by
  have henabled : s.exc.enabled = true := by
    cases henabled : s.exc.enabled with
    | true => rfl
    | false =>
        obtain ⟨-, hnone⟩ := h.before henabled
        rw [hnone] at hlive
        cases hlive
  have hfirst : ∀ e ∈ s.exc.handlers, ∃ e', s.exc.handlers.find? (·.type = e.type) = some e' ∧
      e'.callback = .monitorSegvHandler := by
    intro e he
    cases hfind : s.exc.handlers.find? (·.type = e.type) with
    | none => simpa using List.find?_eq_none.mp hfind e he
    | some e' => exact ⟨e', rfl, h.only e' (List.mem_of_find?_eq_some hfind)⟩
  refine ⟨⟨henabled, h.installed henabled _, fun _ _ => ?_⟩,
    ⟨henabled, h.installed henabled _, fun _ _ => ?_⟩⟩
  · exact hfirst _ (h.segv hlive)
  · exact hfirst _ (h.bus hlive)

/-- A signal that reaches the handler and is claimed by it ends there. -/
theorem Reached.claimed {exc : ExceptionState} {sig : Sig} (h : Reached exc sig)
    {invoke : HandlerFn → ExceptionContext → HandleAction × ExceptionContext} (target : Target)
    (info : SigInfo) {ctx' : ExceptionContext}
    (hclaim : invoke .monitorSegvHandler (buildContextFromSignal target sig info) =
      (.handled, ctx')) :
    globalSignalHandler invoke target exc sig info = (none, ctx') := by
  obtain ⟨-, -, hfirst⟩ := h
  obtain ⟨e, hfind, hcallback⟩ := hfirst target info
  unfold globalSignalHandler
  rw [dispatch_first hfind (hcallback ▸ hclaim)]

end Routing

end MemoryAccessMonitor

end Chromatic
