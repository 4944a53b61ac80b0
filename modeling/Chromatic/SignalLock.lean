import Chromatic.ExceptionHandler
import Chromatic.Foundation.Interrupts

/-!
# The lock of the exception handler

`g_lock` guards the handler chain and the script's callbacks. Ordinary code takes it with no
signal blocked, and `globalSignalHandler` takes it on the thread that was interrupted.

§1 what the lock guards · §2 the functions that take it · §3 threads and signals ·
§4 handlers that wait for the code they interrupted.
-/

namespace Chromatic

open Foundation Foundation.Interrupts

namespace SignalLock

/-! ## §1  What the lock guards -/

structure JsCallbackEntry where
  id : ℕ
  type : ExceptionType
  callback : Callback
deriving DecidableEq, Repr

/-- `g_handlers` and `g_nextId`, in the state of the exception handler, and `g_jsCallbacks`
and `g_nextJsId`. -/
structure LockedData where
  exc : ExceptionState
  nextJsId : ℕ
  jsCallbacks : List JsCallbackEntry

def pushCallback (type : ExceptionType) (callback : Callback) (d : LockedData) : LockedData :=
  { d with
    nextJsId := d.nextJsId + 1
    jsCallbacks := d.jsCallbacks ++ [⟨d.nextJsId, type, callback⟩] }

def eraseCallback (id : ℕ) (d : LockedData) : LockedData :=
  { d with jsCallbacks := d.jsCallbacks.filter (·.id ≠ id) }

def clearCallbacks (d : LockedData) : LockedData := { d with jsCallbacks := [] }

/-! ## §2  The functions that take it -/

/-- Instructions that leave all this alone, those of the allocator for one. -/
def elsewhere : Instr LockedData := .work id

/-- `g_lock.lock(); …; g_lock.unlock()`, with what comes before, between and after. -/
def locked (effect : LockedData → LockedData) : Code LockedData :=
  [elsewhere, .acquire, elsewhere, .work effect, elsewhere, .release, elsewhere]

def registerHandler (type : ExceptionType) (callback : HandlerFn) : Code LockedData :=
  locked fun d => { d with exc := (ExceptionHandler.registerHandler type callback d.exc).2 }

def unregisterHandler (id : ℕ) : Code LockedData :=
  locked fun d => { d with exc := ExceptionHandler.unregisterHandler id d.exc }

/-- Of a type that `stringToExceptionType` knows. -/
def addCallback (type : ExceptionType) (callback : Callback) : Code LockedData :=
  locked (pushCallback type callback)

def removeCallback (id : ℕ) : Code LockedData := locked (eraseCallback id)

def removeAllCallbacks : Code LockedData := locked clearCallbacks

/-- `buildContextFromSignal`, the copy of `g_handlers` under the lock, the chain. -/
def globalSignalHandler : Code LockedData :=
  [elsewhere, .acquire, elsewhere, .release, elsewhere]

/-! ## §3  Threads and signals -/

inductive Op where
  | registerHandler (type : ExceptionType) (callback : HandlerFn)
  | unregisterHandler (id : ℕ)
  | addCallback (type : ExceptionType) (callback : Callback)
  | removeCallback (id : ℕ)
  | removeAllCallbacks

def Op.code : Op → Code LockedData
  | .registerHandler type callback => SignalLock.registerHandler type callback
  | .unregisterHandler id => SignalLock.unregisterHandler id
  | .addCallback type callback => SignalLock.addCallback type callback
  | .removeCallback id => SignalLock.removeCallback id
  | .removeAllCallbacks => SignalLock.removeAllCallbacks

def calls : Set (Code LockedData) := Set.range Op.code

def handlers : Set (Code LockedData) := {globalSignalHandler}

/-- Threads call the operations, handlers among them, and a signal may come to a thread at any
point. -/
abbrev Threads : Type := Machine ℕ LockedData

abbrev Step : Threads → Label ℕ LockedData → Threads → Prop := Interrupts.Step calls handlers

theorem disciplined : Disciplined calls handlers := by
  constructor
  · rintro c ⟨op, rfl⟩
    cases op <;> rfl
  · rintro c rfl
    rfl

/-! ## §4  Handlers that wait for the code they interrupted -/

/-- Every signal handler under way can return, and none is at the lock while code that it
interrupted holds it. -/
structure Completes (s : Threads) : Prop where
  returns : Returns calls handlers s
  waits : ∀ t c rest, s.frames t = ⟨true, .acquire :: c⟩ :: rest → ¬ Locks rest

/-- A signal comes to a thread none of whose code holds the lock. -/
def Undisturbed (s : Threads) : Label ℕ LockedData → Prop
  | .interrupt t _ => ¬ Locks (s.frames t)
  | _ => True

theorem completes_iff {s : Threads} (h : Exclusive s) : Completes s ↔ Clear s := by
  constructor
  · intro hcompletes
    exact (h.returns_iff disciplined).mp hcompletes.returns
  · intro hclear
    exact ⟨(h.returns_iff disciplined).mpr hclear, fun t c rest htop => hclear.beneath htop⟩

section Concrete

def noData : LockedData := ⟨.start defaultActions, 1, []⟩

def registering : Op := .registerHandler .breakpoint .breakpointSigtrapHandler

/-- Thread 0 is `n` instructions into its code. -/
def advanced (n : ℕ) (s : Threads) : Threads := s.setStack 0 [⟨false, registering.code.drop n⟩]

/-- It is about to take the lock. -/
def beforeLock : Threads :=
  advanced 1 ((Machine.start noData).push 0 ⟨false, registering.code⟩)

theorem run_beforeLock : ∃ tr, Run Step (Machine.start noData) tr beforeLock ∧
    tr.map Prod.snd = [.call 0 registering.code, .exec 0] ∧ Guarded Undisturbed tr := by
  have hcall : Step (Machine.start noData) (.call 0 registering.code)
      ((Machine.start noData).push 0 ⟨false, registering.code⟩) :=
    .call ⟨_, rfl⟩ fun f hf => by cases hf
  have htop : ((Machine.start noData : Threads).push 0 ⟨false, registering.code⟩).frames 0 =
      [⟨false, .work id :: registering.code.drop 1⟩] := rfl
  refine ⟨_, (Run.nil.snoc hcall).snoc (.work htop), rfl, fun p hp => ?_⟩
  rcases List.mem_pair.mp hp with rfl | rfl <;> trivial

/-- It has taken the lock and is in the allocator that `push_back` calls. -/
def inAllocator : Threads := { advanced 2 beforeLock with flag := true }

theorem run_inAllocator : ∃ tr, Run Step (Machine.start noData) tr inAllocator ∧
    tr.map Prod.snd = [.call 0 registering.code, .exec 0, .exec 0] := by
  obtain ⟨tr, run, hlabels, -⟩ := run_beforeLock
  have htop : beforeLock.frames 0 = [⟨false, .acquire :: registering.code.drop 2⟩] := rfl
  exact ⟨_, run.snoc (.acquire htop rfl), by simp [hlabels]⟩

end Concrete

end SignalLock

end Chromatic
