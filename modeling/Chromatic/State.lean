import Chromatic.Foundation.Memory
import Mathlib.Data.List.AList

/-!
# The state of the hooking runtime

The global variables of the native subsystems, the code bytes they patch and
the memory they allocate, as one record. Operations live in the modules of
their subsystems.

`std::unordered_map` is an association list with distinct keys. The order of
its entries carries no meaning: where the source iterates, the model takes the
visiting order as an argument, any permutation of the entries.

§1 build targets · §2 signals and handlers · §3 registry entries · §4 the
world.
-/

namespace Chromatic

open Foundation

/-! ## §1  Build targets -/

inductive Arch where
  | x64
  | arm64
deriving DecidableEq, Repr

inductive Os where
  | linux
  | darwin
  | windows
deriving DecidableEq, Repr

structure Target where
  arch : Arch
  os : Os
deriving DecidableEq, Repr

/-! ## §2  Signals and handlers -/

inductive ExceptionType where
  | accessViolation
  | busError
  | breakpoint
  | singleStep
  | illegalInstruction
  | unknown
deriving DecidableEq, Repr

inductive AccessType where
  | read
  | write
  | execute
  | unknown
deriving DecidableEq, Repr

inductive HandleAction where
  | handled
  | notHandled
deriving DecidableEq, Repr

inductive Sig where
  | sigsegv
  | sigbus
  | sigtrap
  | sigill
deriving DecidableEq, Repr

inductive SigHandler where
  | sigDfl
  | sigIgn
  | globalSignalHandler
  | foreign (f : ℕ)
deriving DecidableEq, Repr

/-- `struct sigaction`: the handler, the flags of `sa_flags` in use and the rest of them, and
`sa_mask`. -/
structure SigAction where
  handler : SigHandler
  siginfo : Bool
  nodefer : Bool
  otherFlags : BitVec 32
  mask : BitVec 64
deriving DecidableEq, Repr

/-- Every signal at its default action, as zero-initialised memory says it. -/
def defaultActions : Sig → SigAction := fun _ => ⟨.sigDfl, false, false, 0, 0⟩

/-- The C++ functions the subsystems register. -/
inductive HandlerFn where
  | breakpointSigtrapHandler
  | hwBpSigtrapHandler
  | monitorSegvHandler
deriving DecidableEq, Repr

structure HandlerEntry where
  id : ℕ
  type : ExceptionType
  callback : HandlerFn
deriving DecidableEq, Repr

/-- Globals of the exception handler, with the dispositions the kernel holds. -/
structure ExceptionState where
  handlers : List HandlerEntry
  nextId : ℕ
  enabled : Bool
  refCount : ℤ
  old : Sig → SigAction
  disposition : Sig → SigAction

/-- Process start. -/
def ExceptionState.start (disposition : Sig → SigAction) : ExceptionState where
  handlers := []
  nextId := 1
  enabled := false
  refCount := 0
  old := defaultActions
  disposition := disposition

/-! ## §3  Registry entries -/

/-- A JavaScript function held by a `std::function`. -/
abbrev Callback : Type := ℕ

/-- `std::unordered_map<uint64_t, T>`, keyed by identifiers or by addresses.
Identifiers are counters that no run exhausts, so they are natural numbers. -/
abbrev HashMap (κ α : Type) : Type := AList fun _ : κ => α

/-- `self` is the address `new` returned; both maps of a registry hold it. -/
structure BreakpointEntry where
  self : Addr
  address : Addr
  originalBytes : List Byte
  originalInsnSize : ℕ
  trampolineCode : Addr
  relocatedCode : Addr
  onHit : Callback
deriving DecidableEq, Repr

structure BreakpointState where
  nextBpId : ℕ
  bpById : HashMap ℕ BreakpointEntry
  bpByAddress : HashMap Addr BreakpointEntry
  sigtrapHandlerId : ℕ
  handlerInstalled : Bool

def BreakpointState.start : BreakpointState where
  nextBpId := 1
  bpById := ∅
  bpByAddress := ∅
  sigtrapHandlerId := 0
  handlerInstalled := false

/-- A hook made by `replace` has a null `trampolineCode` and no callbacks. -/
structure HookEntry where
  self : Addr
  target : Addr
  trampolineCode : Addr
  relocatedCode : Addr
  originalBytes : List Byte
  patchSize : ℕ
  onEnter : Option Callback
  onLeave : Option Callback
deriving DecidableEq, Repr

structure HookState where
  nextHookId : ℕ
  hooksById : HashMap ℕ HookEntry
  hooksByTarget : HashMap Addr HookEntry

def HookState.start : HookState where
  nextHookId := 1
  hooksById := ∅
  hooksByTarget := ∅

inductive HwBpType where
  | execute
  | write
  | readWrite
deriving DecidableEq, Repr

/-- `slot` is the debug register of the Windows and macOS builds, `perfFd` the
descriptor of the Linux build. Both start at -1, which for `slot` is `none`. -/
structure HwBreakpointEntry where
  self : Addr
  address : Addr
  type : HwBpType
  size : ℤ
  onHit : Callback
  perfFd : ℤ
  slot : Option (Fin 4)
  trampolineCode : Addr
  relocatedCode : Addr
deriving DecidableEq, Repr

/-- `usedSlots` is the bit mask of the builds that manage debug registers. -/
structure HwState where
  nextHwId : ℕ
  hwById : HashMap ℕ HwBreakpointEntry
  hwByAddress : HashMap Addr HwBreakpointEntry
  usedSlots : BitVec 32
  hwHandlerId : ℕ
  hwHandlerInstalled : Bool

def HwState.start : HwState where
  nextHwId := 1
  hwById := ∅
  hwByAddress := ∅
  usedSlots := 0
  hwHandlerId := 0
  hwHandlerInstalled := false

/-! ## §4  The world -/

/-- `jit` lists the blocks added to `g_jitRuntime` and not yet released, `released` what
`g_jitRuntime.release` was called with, and `heap` the registry entries allocated and not yet
deleted. -/
structure World where
  code : Memory
  jit : List Addr
  released : List Addr
  heap : List Addr
  exc : ExceptionState
  bp : BreakpointState
  hooks : HookState
  hw : HwState

/-- A process in which no subsystem has been used. -/
def World.start (code : Memory) (disposition : Sig → SigAction) : World where
  code := code
  jit := []
  released := []
  heap := []
  exc := .start disposition
  bp := .start
  hooks := .start
  hw := .start

def World.allocate (w : World) (p : Addr) : World := { w with heap := p :: w.heap }

def World.delete (w : World) (p : Addr) : World := { w with heap := w.heap.erase p }

/-- `g_jitRuntime.add`. -/
def World.addCode (w : World) (p : Addr) : World := { w with jit := p :: w.jit }

/-- `releaseCode`: a null pointer is left alone. -/
def World.releaseCode (w : World) (p : Addr) : World :=
  if p = 0 then w else { w with jit := w.jit.erase p, released := w.released ++ [p] }

section Frame

variable (w : World) (p : Addr)

@[simp] theorem World.allocate_code : (w.allocate p).code = w.code := rfl
@[simp] theorem World.allocate_exc : (w.allocate p).exc = w.exc := rfl
@[simp] theorem World.allocate_bp : (w.allocate p).bp = w.bp := rfl
@[simp] theorem World.allocate_hooks : (w.allocate p).hooks = w.hooks := rfl
@[simp] theorem World.allocate_hw : (w.allocate p).hw = w.hw := rfl
@[simp] theorem World.delete_code : (w.delete p).code = w.code := rfl
@[simp] theorem World.delete_exc : (w.delete p).exc = w.exc := rfl
@[simp] theorem World.delete_bp : (w.delete p).bp = w.bp := rfl
@[simp] theorem World.delete_hooks : (w.delete p).hooks = w.hooks := rfl
@[simp] theorem World.delete_hw : (w.delete p).hw = w.hw := rfl
@[simp] theorem World.addCode_code : (w.addCode p).code = w.code := rfl
@[simp] theorem World.addCode_exc : (w.addCode p).exc = w.exc := rfl
@[simp] theorem World.addCode_bp : (w.addCode p).bp = w.bp := rfl
@[simp] theorem World.addCode_hooks : (w.addCode p).hooks = w.hooks := rfl
@[simp] theorem World.addCode_hw : (w.addCode p).hw = w.hw := rfl

@[simp] theorem World.releaseCode_code : (w.releaseCode p).code = w.code := by
  unfold World.releaseCode; split <;> rfl

@[simp] theorem World.releaseCode_exc : (w.releaseCode p).exc = w.exc := by
  unfold World.releaseCode; split <;> rfl

@[simp] theorem World.releaseCode_bp : (w.releaseCode p).bp = w.bp := by
  unfold World.releaseCode; split <;> rfl

@[simp] theorem World.releaseCode_hooks : (w.releaseCode p).hooks = w.hooks := by
  unfold World.releaseCode; split <;> rfl

@[simp] theorem World.releaseCode_hw : (w.releaseCode p).hw = w.hw := by
  unfold World.releaseCode; split <;> rfl

end Frame

end Chromatic
