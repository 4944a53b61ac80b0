import Chromatic.SharedHandler
import Chromatic.NativeCallback
import Chromatic.ScriptLifecycle

/-!
# Taking a script down

`runtime::reset` and `~runtime`: what the native registries still hold of a script whose
context is going to be destroyed. Both end in `cleanup`, which knows five registries of seven.

§1 callbacks of the exception handler · §2 the process · §3 cleanup, reset and the destructor ·
§4 what cleanup clears · §5 what is left.
-/

namespace Chromatic

open Foundation ScriptLifecycle
open MemoryAccessMonitor (MonitorEntry)
open NativeCallback (CallbackState)
open NativeFunction (CallError parseHexAddr)

namespace Teardown

/-! ## §1  Callbacks of the exception handler -/

structure JsCallbackEntry where
  id : ℕ
  type : ExceptionType
  callback : Callback
deriving DecidableEq, Repr

/-- `g_jsCallbacks` and `g_nextJsId`. -/
structure JsCallbacks where
  callbacks : List JsCallbackEntry
  nextId : ℕ

def JsCallbacks.start : JsCallbacks := ⟨[], 0x10000⟩

def stringToExceptionType (s : String) : ExceptionType :=
  if s = "access_violation" then .accessViolation
  else if s = "bus_error" then .busError
  else if s = "breakpoint" then .breakpoint
  else if s = "single_step" then .singleStep
  else if s = "illegal_instruction" then .illegalInstruction
  else .unknown

def addCallback (type : String) (callback : Callback) (s : JsCallbacks) :
    Except String String × JsCallbacks :=
  if stringToExceptionType type = .unknown then
    (.error ("Unknown exception type: " ++ type), s)
  else
    (.ok (toHexAddr s.nextId),
      ⟨s.callbacks ++ [⟨s.nextId, stringToExceptionType type, callback⟩], s.nextId + 1⟩)

def removeCallback (callbackId : String) (s : JsCallbacks) :
    Except CallError Unit × JsCallbacks :=
  match parseHexAddr callbackId with
  | .error e => (.error e, s)
  | .ok id => (.ok (), { s with callbacks := s.callbacks.filter (·.id ≠ id.toNat) })

def removeAllCallbacks (s : JsCallbacks) : JsCallbacks := { s with callbacks := [] }

/-! ## §2  The process -/

/-- All registries that hold functions of scripts. -/
structure Process where
  hooking : SharedHandler.Runtime
  ffi : CallbackState
  js : JsCallbacks
  lifecycle : LifecycleState

def Process.start (code : Memory) (disposition : Sig → SigAction)
    (prot : Addr → MemoryAccessMonitor.Prot) : Process where
  hooking := .start code disposition prot
  ffi := ⟨∅, []⟩
  js := .start
  lifecycle := .start

/-- The functions that `get` finds in the entries of a map. -/
def functions {κ α : Type} (get : α → List Callback) (m : HashMap κ α) : List Callback :=
  m.entries.flatMap fun e => get e.2

def ffiFunctions (p : Process) : List Callback := functions (fun e => [e.handler]) p.ffi.callbacks

def disposeFunctions (p : Process) : List Callback := functions ([·]) p.lifecycle.callbacks

def hookFunctions (e : HookEntry) : List Callback := e.onEnter.toList ++ e.onLeave.toList

/-- Every function of a script that a registry holds. -/
def Process.held (p : Process) : List Callback :=
  functions hookFunctions p.hooking.world.hooks.hooksById ++
  functions hookFunctions p.hooking.world.hooks.hooksByTarget ++
  functions ([·.onHit]) p.hooking.world.bp.bpById ++
  functions ([·.onHit]) p.hooking.world.bp.bpByAddress ++
  functions ([·.onHit]) p.hooking.world.hw.hwById ++
  functions ([·.onHit]) p.hooking.world.hw.hwByAddress ++
  functions ([·.onAccess]) p.hooking.mon.monitors ++
  p.js.callbacks.map (·.callback) ++ ffiFunctions p ++ disposeFunctions p

/-! ## §3  cleanup, reset and the destructor -/

/-- What a teardown meets: what the script's functions do when they are called, what script
code does until the event loop stands and in the callbacks of the last `drainPending`, what the
protection calls answer, and the orders of the maps. -/
structure Env where
  cb : Callback → Process → Except String Unit × Process
  stopEventLoop : Process → Process
  drainPending : Process → Process
  granted : ℕ → ℕ → Bool
  patch : Addr → PatchOutcome
  disposals : List (Σ _ : ℕ, Callback)
  monitors : List (Σ _ : ℕ, MonitorEntry)
  hws : List (Σ _ : ℕ, HwBreakpointEntry)
  bps : List (Σ _ : ℕ, BreakpointEntry)
  hooks : List (Σ _ : ℕ, HookEntry)

/-- `runtime::cleanup` behind `drainPending`. -/
def cleanup (arch : Arch) (env : Env) (p : Process) : Except String Unit × Process :=
  let r := p.hooking.withMonitoring
    (MemoryAccessMonitor.disableAll env.granted env.monitors p.hooking.monitoring)
  match Cleanup.cleanup arch env.patch env.hws env.bps env.hooks r.world with
  | (.error e, w) => (.error e, { p with hooking := { r with world := w } })
  | (.ok (), w) =>
    (.ok (), { p with hooking := { r with world := w }, js := removeAllCallbacks p.js })

def callDisposeCallbacks (env : Env) : Process → Process :=
  _callDisposeCallbacks (fun (e : Σ _ : ℕ, Callback) => env.cb e.2)
    (fun f p => { p with lifecycle := f p.lifecycle }) env.disposals

/-- `reset` up to where it gives up the context, and `~runtime`. -/
inductive Path where
  | reset
  | destructor
deriving DecidableEq, Repr

/-- The state in which `cleanup` has drained the pending accesses. -/
def Path.drained (path : Path) (env : Env) (p : Process) : Process :=
  match path with
  | .reset => env.drainPending (env.stopEventLoop (callDisposeCallbacks env p))
  | .destructor => env.drainPending p

def Path.exec (arch : Arch) (path : Path) (env : Env) (p : Process) :
    Except String Unit × Process :=
  cleanup arch env (path.drained env p)

/-! ## §4  What cleanup clears -/

/-- The five registries that `cleanup` knows are empty. -/
structure Cleared (p : Process) : Prop where
  hooksById : p.hooking.world.hooks.hooksById = ∅
  hooksByTarget : p.hooking.world.hooks.hooksByTarget = ∅
  bpById : p.hooking.world.bp.bpById = ∅
  bpByAddress : p.hooking.world.bp.bpByAddress = ∅
  hwById : p.hooking.world.hw.hwById = ∅
  hwByAddress : p.hooking.world.hw.hwByAddress = ∅
  monitors : p.hooking.mon.monitors = ∅
  js : p.js.callbacks = []

section Loops

variable {arch : Arch} {patch : Addr → PatchOutcome} {w w' : World}

theorem removeAll_cleared {order : List (Σ _ : ℕ, BreakpointEntry)}
    (h : SoftwareBreakpoint.removeAll arch patch order w = (.ok (), w')) :
    w'.bp.bpById = ∅ ∧ w'.bp.bpByAddress = ∅ ∧ w'.hw = w.hw := by
  obtain ⟨-, -, -, hhw⟩ := SoftwareBreakpoint.restoreAll_frame arch patch order w
  unfold SoftwareBreakpoint.removeAll at h
  split at h
  · cases h
  · rename_i w₁ hloop
    obtain rfl := (Prod.mk.inj h).2
    rw [hloop] at hhw
    exact ⟨by simp, by simp, by simpa using hhw⟩

theorem detachAll_cleared {order : List (Σ _ : ℕ, HookEntry)}
    (h : Interceptor.detachAll patch order w = (.ok (), w')) :
    w'.hooks.hooksById = ∅ ∧ w'.hooks.hooksByTarget = ∅ ∧ w'.bp = w.bp ∧ w'.hw = w.hw := by
  obtain ⟨-, hbp, hhw⟩ := Interceptor.detachAll_handlers patch order w
  rw [h] at hbp hhw
  unfold Interceptor.detachAll at h
  split at h
  · cases h
  · obtain rfl := (Prod.mk.inj h).2
    exact ⟨rfl, rfl, hbp, hhw⟩

theorem hwRemoveAll_cleared (order : List (Σ _ : ℕ, HwBreakpointEntry)) (w : World) :
    (HardwareBreakpoint.removeAll order w).hw.hwById = ∅ ∧
      (HardwareBreakpoint.removeAll order w).hw.hwByAddress = ∅ := by
  simp [HardwareBreakpoint.removeAll]

theorem worldCleanup_cleared {hws : List (Σ _ : ℕ, HwBreakpointEntry)}
    {bps : List (Σ _ : ℕ, BreakpointEntry)} {hooks : List (Σ _ : ℕ, HookEntry)}
    (h : Cleanup.cleanup arch patch hws bps hooks w = (.ok (), w')) :
    w'.hooks.hooksById = ∅ ∧ w'.hooks.hooksByTarget = ∅ ∧ w'.bp.bpById = ∅ ∧
      w'.bp.bpByAddress = ∅ ∧ w'.hw.hwById = ∅ ∧ w'.hw.hwByAddress = ∅ := by
  obtain ⟨hhwById, hhwByAddress⟩ := hwRemoveAll_cleared hws w
  unfold Cleanup.cleanup at h
  split at h
  · cases h
  · rename_i w₁ hremove
    split at h
    · cases h
    · rename_i w₂ hdetach
      obtain rfl := (Prod.mk.inj h).2
      obtain ⟨hbpById, hbpByAddress, hhw₁⟩ := removeAll_cleared hremove
      obtain ⟨hhooksById, hhooksByTarget, hbp, hhw₂⟩ := detachAll_cleared hdetach
      refine ⟨hhooksById, hhooksByTarget, ?_, ?_, ?_, ?_⟩
      · exact (congrArg BreakpointState.bpById hbp).trans hbpById
      · exact (congrArg BreakpointState.bpByAddress hbp).trans hbpByAddress
      · exact (congrArg HwState.hwById (hhw₂.trans hhw₁)).trans hhwById
      · exact (congrArg HwState.hwByAddress (hhw₂.trans hhw₁)).trans hhwByAddress

end Loops

section Cleanup

variable {arch : Arch} {env : Env} {p p' : Process}

/-- A cleanup that comes to its end clears five registries and leaves two alone. -/
theorem cleanup_cleared (h : cleanup arch env p = (.ok (), p')) :
    Cleared p' ∧ p'.ffi = p.ffi ∧ p'.lifecycle = p.lifecycle := by
  unfold cleanup at h
  dsimp only at h
  split at h
  · cases h
  · rename_i w hworld
    obtain rfl := (Prod.mk.inj h).2
    obtain ⟨hhooksById, hhooksByTarget, hbpById, hbpByAddress, hhwById, hhwByAddress⟩ :=
      worldCleanup_cleared hworld
    exact ⟨⟨hhooksById, hhooksByTarget, hbpById, hbpByAddress, hhwById, hhwByAddress, rfl, rfl⟩,
      rfl, rfl⟩

theorem functions_empty {κ α : Type} (get : α → List Callback) :
    functions get (∅ : HashMap κ α) = [] := rfl

theorem Cleared.held (h : Cleared p) : p.held = ffiFunctions p ++ disposeFunctions p := by
  rw [Process.held, h.hooksById, h.hooksByTarget, h.bpById, h.bpByAddress, h.hwById,
    h.hwByAddress, h.monitors, h.js]
  simp [functions_empty]

end Cleanup

/-! ## §5  What is left -/

section Left

variable {arch : Arch} {path : Path} {env : Env} {p p' : Process}

theorem exec_held (h : path.exec arch env p = (.ok (), p')) :
    p'.held = ffiFunctions (path.drained env p) ++ disposeFunctions (path.drained env p) := by
  obtain ⟨hcleared, hffi, hlifecycle⟩ := cleanup_cleared h
  rw [hcleared.held]
  unfold ffiFunctions disposeFunctions
  rw [hffi, hlifecycle]

/-- **What a teardown leaves behind.** `own` tells the functions of the context that goes. When
`cleanup` has come to its end, by either path, no registry holds one of them exactly when no
closure of a native callback and no dispose callback is one of them at the time the pending
accesses have been drained. -/
theorem leavesNothing_iff (own : Callback → Prop) (h : path.exec arch env p = (.ok (), p')) :
    (∀ c ∈ p'.held, ¬ own c) ↔
      (∀ c ∈ ffiFunctions (path.drained env p), ¬ own c) ∧
      ∀ c ∈ disposeFunctions (path.drained env p), ¬ own c := by
  rw [exec_held h]
  simp only [List.mem_append, or_imp, forall_and]

/-- A disposal leaves no dispose callback, so if scripts rest after it only closures can be
left. -/
theorem reset_held_of_quiet (hstop : ∀ p, env.stopEventLoop p = p)
    (hdrain : ∀ p, env.drainPending p = p)
    (h : Path.reset.exec arch env p = (.ok (), p')) :
    p'.held = ffiFunctions (callDisposeCallbacks env p) := by
  have hnone : disposeFunctions (callDisposeCallbacks env p) = [] := rfl
  rw [exec_held h, Path.drained]
  simp only [hstop, hdrain, hnone, List.append_nil]

end Left

section Concrete

/-- Nothing moves and every protection call is granted. -/
def quiet : Env where
  cb := fun _ p => (.ok (), p)
  stopEventLoop := id
  drainPending := id
  granted := fun _ _ => true
  patch := fun _ => .ok
  disposals := []
  monitors := []
  hws := []
  bps := []
  hooks := []

def atStart : Process := .start (fun _ => 0) defaultActions fun _ => .readWrite

/-- A script has made a native callback of its function 1. -/
def withCallback : Process :=
  let env : NativeCallback.Install := ⟨0x10, fun _ _ _ => true, some (0x20, 0x30), true⟩
  let r := (NativeCallback.createCallback ⟨.x64, .linux⟩ env 1 "int" [] "default"
    ⟨atStart.hooking.world, atStart.ffi⟩).2
  { atStart with hooking := { atStart.hooking with world := r.world }, ffi := r.ffi }

/-- A script has registered its function 2 to be called before it goes. -/
def withDispose : Process := { atStart with lifecycle := (onDispose 2 atStart.lifecycle).2 }

/-- A script has registered its function 3 for breakpoints. -/
def withException : Process := { atStart with js := (addCallback "breakpoint" 3 atStart.js).2 }

theorem leavesNothing_exception :
    3 ∉ (Path.reset.exec .x64 quiet withException).2.held := by
  have hnothing : ∀ c ∈ (Path.reset.exec .x64 quiet withException).2.held, ¬ c = 3 :=
    (leavesNothing_iff (· = 3) (Prod.ext rfl rfl)).mpr
      ⟨fun _ h => (List.not_mem_nil h).elim, fun _ h => (List.not_mem_nil h).elim⟩
  exact fun h => hnothing 3 h rfl

/-- `reset` leaves the native callback, the destructor also the dispose callback. -/
theorem functions_left :
    1 ∈ (Path.reset.exec .x64 quiet withCallback).2.held ∧
    (Path.reset.exec .x64 quiet withCallback).1 = .ok () ∧
    1 ∈ (Path.destructor.exec .x64 quiet withCallback).2.held ∧
    (Path.destructor.exec .x64 quiet withCallback).1 = .ok () ∧
    2 ∈ (Path.destructor.exec .x64 quiet withDispose).2.held ∧
    (Path.destructor.exec .x64 quiet withDispose).1 = .ok () := by
  decide

end Concrete

end Teardown

end Chromatic
