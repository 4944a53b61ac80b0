import Chromatic.DebugRegisters
import Chromatic.FailedInstalls

/-!
# The perf events of hardware breakpoints

The Linux build asks for a perf event for each breakpoint, on the thread that calls `set`. The
kernel refuses what it asks for, so no breakpoint comes to be live and no event is ever open.
Runs in which several threads call, and the rest of the process opens and closes files of its
own.

§1 descriptors · §2 calls by threads · §3 nothing is armed · §4 set · §5 runs.
-/

namespace Chromatic

open Foundation
open HardwareBreakpoint (Install PerfEventAttr parseType perfEventAttr perfEventOpen
  ensureHwHandlerInstalled)
open Watchpoints (Call)
open DebugRegisters (Thread)
open FailedInstalls (AsBefore Built NonNull hwSet_accepted)

namespace PerfEvents

/-! ## §1  Descriptors -/

/-- A breakpoint event. The kernel counts on the thread that opened it. -/
structure PerfEvent where
  thread : Thread
  attr : PerfEventAttr
  enabled : Bool

/-- What a descriptor of the process stands for. -/
inductive File where
  | perf (event : PerfEvent)
  | other (id : ℕ)

abbrev Descriptors : Type := ℤ → Option File

/-- An event that the kernel accepts gets the descriptor `answer`. -/
def syscallPerfEventOpen (t : Thread) (attr : PerfEventAttr) (answer : ℤ) (files : Descriptors) :
    ℤ × Descriptors :=
  let fd := perfEventOpen attr answer
  if fd < 0 then (fd, files)
  else (fd, Function.update files fd (some (.perf ⟨t, attr, !attr.disabled⟩)))

/-- `PERF_EVENT_IOC_ENABLE` and `PERF_EVENT_IOC_DISABLE`. -/
def ioctl (enabled : Bool) (fd : ℤ) (files : Descriptors) : Descriptors :=
  match files fd with
  | some (.perf event) => Function.update files fd (some (.perf { event with enabled := enabled }))
  | _ => files

def close (fd : ℤ) (files : Descriptors) : Descriptors := Function.update files fd none

def linuxSetHwBp (t : Thread) (addr : Addr) (type : HwBpType) (bpSize answer : ℤ)
    (files : Descriptors) : Except String ℤ × Descriptors :=
  let (fd, files) := syscallPerfEventOpen t (perfEventAttr addr type bpSize) answer files
  if fd < 0 then (.error "perf_event_open failed for hardware breakpoint", files)
  else (.ok fd, ioctl true fd files)

def linuxClearHwBp (fd : ℤ) (files : Descriptors) : Descriptors :=
  if 0 ≤ fd then close fd (ioctl false fd files) else files

/-- A refused event leaves the descriptors alone. -/
theorem linuxSetHwBp_eq (t : Thread) (addr : Addr) (type : HwBpType) (bpSize answer : ℤ)
    (files : Descriptors) : linuxSetHwBp t addr type bpSize answer files =
      (HardwareBreakpoint.linuxSetHwBp addr type bpSize answer, files) := rfl

/-! ## §2  Calls by threads -/

/-- The runtime and the open files. -/
structure Process where
  world : World
  files : Descriptors

/-- Files that are open already are none of these events. -/
def Process.start (code : Memory) (disposition : Sig → SigAction) (open_ : ℤ → Option ℕ) :
    Process where
  world := .start code disposition
  files := fun fd => (open_ fd).map .other

/-- The type that `set` hands to `linuxSetHwBp`, if it gets that far. -/
def reaches (target : Target) (env : Install) (address : Addr) (typeStr : String) (w : World) :
    Option HwBpType :=
  match parseType typeStr with
  | .error _ => none
  | .ok type =>
      if address ∈ w.hw.hwByAddress ∨
          HardwareBreakpoint.platformMaxBreakpoints target ≤ w.hw.hwByAddress.entries.length ∨
          type = .execute ∧ (!env.relocated.isOk || !env.trampoline.isOk) then none
      else some type

def set (target : Target) (env : Install) (t : Thread) (address : Addr) (typeStr : String)
    (size : ℤ) (onHit : Callback) (p : Process) : Except String ℕ × Process :=
  let (answer, world) := HardwareBreakpoint.set target env address typeStr size onHit p.world
  match reaches target env address typeStr p.world with
  | none => (answer, { p with world := world })
  | some type =>
      (answer, { world := world
                 files := (linuxSetHwBp t address type size env.perfFd p.files).2 })

def remove (bpId : ℕ) (p : Process) : Process where
  world := HardwareBreakpoint.remove bpId p.world
  files := match p.world.hw.hwById.lookup bpId with
    | none => p.files
    | some entry => linuxClearHwBp entry.perfFd p.files

def removeAll (order : List (Σ _ : ℕ, HwBreakpointEntry)) (p : Process) : Process where
  world := HardwareBreakpoint.removeAll order p.world
  files := order.foldl (fun files e => linuxClearHwBp e.2.perfFd files) p.files

def exec (target : Target) (t : Thread) : Call → Process → Process
  | .set env address typeStr size onHit, p =>
      (set target env t address typeStr size onHit p).2
  | .remove bpId, p => remove bpId p
  | .removeAll order, p => removeAll order p

/-- A loop goes over a map in some order. -/
def Permitted (p : Process) : Call → Prop
  | .set _ _ _ _ _ => True
  | .remove _ => True
  | .removeAll order => order.Perm p.world.hw.hwById.entries

/-- A call of some thread, or anything that leaves the hardware breakpoints and their events
alone. -/
inductive Step (target : Target) (p : Process) : Option (Thread × Call) → Process → Prop where
  | call (t : Thread) (c : Call) (permitted : Permitted p c) :
      Step target p (some (t, c)) (exec target t c p)
  | elsewhere {world : World} {files : Descriptors} (untouched : world.hw = p.world.hw)
      (events : ∀ fd event, files fd = some (.perf event) ↔ p.files fd = some (.perf event)) :
      Step target p none { world := world, files := files }

/-! ## §3  Nothing is armed -/

/-- The error of `set`: the first thing that fails, and at last the kernel. -/
def refusal (env : Install) (typeStr : String) : String :=
  match parseType typeStr with
  | .error e => e
  | .ok .execute =>
      match env.relocated, env.trampoline with
      | .error e, _ => e
      | .ok _, .error e => e
      | .ok _, .ok _ => "perf_event_open failed for hardware breakpoint"
  | .ok _ => "perf_event_open failed for hardware breakpoint"

/-- No breakpoint is live and no event is open. -/
structure Unarmed (p : Process) : Prop where
  byId : p.world.hw.hwById.entries = []
  byAddress : p.world.hw.hwByAddress.entries = []
  events : ∀ fd event, p.files fd ≠ some (.perf event)

/-- What a call does in the state: `set` throws, and no file is touched. All that a `set` leaves
behind is the registration of the handler. -/
structure Fruitless (target : Target) (p : Process) : Prop where
  throws : ∀ env t address typeStr size onHit,
    (set target env t address typeStr size onHit p).1 = .error (refusal env typeStr)
  files : ∀ t c, Permitted p c → (exec target t c p).files = p.files
  leaves : ∀ env t address typeStr size onHit, NonNull env.relocated env.trampoline →
    AsBefore p.world (set target env t address typeStr size onHit p).2.world ∨
      AsBefore (ensureHwHandlerInstalled p.world)
        (set target env t address typeStr size onHit p).2.world

theorem Unarmed.start (code : Memory) (disposition : Sig → SigAction) (open_ : ℤ → Option ℕ) :
    Unarmed (Process.start code disposition open_) where
  byId := rfl
  byAddress := rfl
  events fd event h := by
    obtain ⟨id, -, hfile⟩ := Option.map_eq_some_iff.mp h
    cases hfile

/-! ## §4  set -/

section Set

variable {target : Target} {env : Install} {address : Addr} {typeStr : String} {size : ℤ}
  {onHit : Callback} {p : Process}

theorem buildBlocks_answer (type : HwBpType) (w : World) :
    (HardwareBreakpoint.buildBlocks env type w).1 =
      if type = .execute then
        match env.relocated, env.trampoline with
        | .error e, _ => .error e
        | .ok _, .error e => .error e
        | .ok block, .ok trampolineCode => .ok (block.1, trampolineCode)
      else .ok (0, 0) := by
  unfold HardwareBreakpoint.buildBlocks
  split
  · rcases env.relocated with e | block
    · rfl
    · rcases env.trampoline with e | trampolineCode <;> rfl
  · rfl

/-- Whatever `set` has built, the platform call fails. -/
theorem set_throws (hos : target.os = .linux) {w : World}
    (hnone : w.hw.hwByAddress.entries = []) :
    (HardwareBreakpoint.set target env address typeStr size onHit w).1 =
      .error (refusal env typeStr) := by
  have hsupported : target ≠ ⟨.arm64, .darwin⟩ := by
    rintro rfl
    cases hos
  have hfew : ¬ HardwareBreakpoint.platformMaxBreakpoints target ≤
      w.hw.hwByAddress.entries.length := by
    rw [HardwareBreakpoint.platformMaxBreakpoints, if_neg hsupported, hnone]
    decide
  unfold HardwareBreakpoint.set refusal
  rw [if_neg hsupported]
  cases htype : parseType typeStr with
  | error e => rfl
  | ok type =>
      dsimp only
      rw [if_neg (notMem_of_entries_eq_nil hnone address), if_neg hfew]
      have hanswer := @buildBlocks_answer env type
        ((ensureHwHandlerInstalled w).allocate env.self)
      generalize HardwareBreakpoint.buildBlocks env type
        ((ensureHwHandlerInstalled w).allocate env.self) = built at *
      obtain ⟨answer, w₁⟩ := built
      obtain rfl : answer = _ := hanswer
      have harm : ∀ h : HwState, HardwareBreakpoint.arm target.os address type size env.perfFd h =
          (.error "perf_event_open failed for hardware breakpoint", h) := by
        intro h
        rw [hos]
        rfl
      simp only [harm]
      cases type with
      | execute =>
          rw [if_pos rfl]
          rcases env.relocated with e | block
          · rfl
          · rcases env.trampoline with e | trampolineCode <;> rfl
      | write | readWrite => rfl

theorem set_fst (t : Thread) : (set target env t address typeStr size onHit p).1 =
    (HardwareBreakpoint.set target env address typeStr size onHit p.world).1 := by
  unfold set
  dsimp only
  split <;> rfl

theorem set_world (t : Thread) : (set target env t address typeStr size onHit p).2.world =
    (HardwareBreakpoint.set target env address typeStr size onHit p.world).2 := by
  unfold set
  dsimp only
  split <;> rfl

theorem set_files (t : Thread) :
    (set target env t address typeStr size onHit p).2.files = p.files := by
  unfold set
  dsimp only
  split
  · rfl
  · rw [linuxSetHwBp_eq]

theorem Unarmed.set (hos : target.os = .linux) (h : Unarmed p) (t : Thread) :
    Unarmed (set target env t address typeStr size onHit p).2 := by
  obtain ⟨-, hbyId, hbyAddress⟩ := HardwareSlots.failureKeeps target p.world env address
    typeStr size onHit _ (set_throws hos h.byAddress)
  rw [← set_world t] at hbyId hbyAddress
  refine ⟨hbyId ▸ h.byId, hbyAddress ▸ h.byAddress, ?_⟩
  rw [set_files]
  exact h.events

/-- `set` gets past its checks or changes nothing. -/
theorem set_leaves (hos : target.os = .linux) (h : Unarmed p) (t : Thread)
    (hnonnull : NonNull env.relocated env.trampoline) :
    AsBefore p.world (PerfEvents.set target env t address typeStr size onHit p).2.world ∨
      AsBefore (ensureHwHandlerInstalled p.world)
        (PerfEvents.set target env t address typeStr size onHit p).2.world := by
  have hthrows := @set_throws target env address typeStr size onHit hos p.world h.byAddress
  rw [set_world]
  by_cases hrefused : FailedInstalls.Refused target address typeStr p.world.hw
  · obtain ⟨e, hsame⟩ := FailedInstalls.hwSet_refused hrefused env size onHit
    rw [hsame]
    exact .inl (.refl _)
  · rcases hwSet_accepted hrefused hnonnull size onHit with
      ⟨e, w₁, hset, -, hleft⟩ | ⟨bpId, w₁, hset, -⟩
    · rw [hset]
      exact .inr hleft
    · rw [hset] at hthrows
      cases hthrows

end Set

/-! ## §5  Runs -/

section Runs

variable {target : Target} {p p' : Process} {c : Option (Thread × Call)}

/-- There is nothing to remove. -/
theorem Unarmed.remove (h : Unarmed p) (bpId : ℕ) : PerfEvents.remove bpId p = p := by
  have hlookup : p.world.hw.hwById.lookup bpId = none :=
    AList.lookup_eq_none.mpr (notMem_of_entries_eq_nil h.byId bpId)
  unfold PerfEvents.remove HardwareBreakpoint.remove
  rw [hlookup]

theorem Unarmed.removeAll (h : Unarmed p) {order : List (Σ _ : ℕ, HwBreakpointEntry)}
    (hperm : order.Perm p.world.hw.hwById.entries) :
    (PerfEvents.removeAll order p).files = p.files ∧ Unarmed (PerfEvents.removeAll order p) := by
  obtain rfl : order = [] := by
    rw [h.byId] at hperm
    exact hperm.eq_nil
  refine ⟨rfl, ?_, ?_, h.events⟩
  · simp [PerfEvents.removeAll, HardwareBreakpoint.removeAll]
  · simp [PerfEvents.removeAll, HardwareBreakpoint.removeAll]

theorem Unarmed.fruitless (hos : target.os = .linux) (h : Unarmed p) : Fruitless target p where
  throws env t address typeStr size onHit := by
    rw [set_fst]
    exact set_throws hos h.byAddress
  files t c permitted := by
    cases c with
    | set env address typeStr size onHit => exact set_files t
    | remove bpId => rw [exec, h.remove]
    | removeAll order => exact (h.removeAll permitted).1
  leaves env t address typeStr size onHit := set_leaves hos h t

theorem Unarmed.step (hos : target.os = .linux) (h : Unarmed p) (hstep : Step target p c p') :
    Unarmed p' := by
  cases hstep with
  | call t c permitted =>
      cases c with
      | set env address typeStr size onHit => exact h.set hos t
      | remove bpId =>
          rw [exec, h.remove]
          exact h
      | removeAll order => exact (h.removeAll permitted).2
  | elsewhere untouched events =>
      obtain ⟨hbyId, hbyAddress, hevents⟩ := h
      rw [← untouched] at hbyId hbyAddress
      exact ⟨hbyId, hbyAddress, fun fd event hfd => hevents fd event ((events fd event).mp hfd)⟩

/-- **No event is ever open.** Whichever threads call, in every state of a run no breakpoint is
live, every `set` throws and no call touches a file of the process. -/
theorem unarmed_throughout {code : Memory} {disposition : Sig → SigAction} {open_ : ℤ → Option ℕ}
    {tr : List (Process × Option (Thread × Call))} (hos : target.os = .linux)
    (run : Run (Step target) (Process.start code disposition open_) tr p) :
    Throughout (fun p => Unarmed p ∧ Fruitless target p) tr p := by
  have hunarmed : Throughout Unarmed tr p :=
    run.invariant (.start code disposition open_) fun _ _ _ h => h.step hos
  exact ⟨fun q hq => ⟨hunarmed.1 q hq, (hunarmed.1 q hq).fruitless hos⟩,
    hunarmed.2, hunarmed.2.fruitless hos⟩

end Runs

section Concrete

open DebugRegisters (watch)

/-- The process has one file open. -/
def empty : Process :=
  .start (fun _ => 0) defaultActions fun fd => if fd = 1 then some 0 else none

def linux : Target := ⟨.x64, .linux⟩

def refused : Process := exec linux 0 watch empty

/-- Thread 0 sets a watchpoint, for which the kernel would have descriptor 3, and thread 1 removes
whatever there is. -/
theorem run_refused : Run (Step linux) empty
    [(empty, some (0, watch)), (refused, some (1, .removeAll []))]
    (exec linux 1 (.removeAll []) refused) :=
  (Run.nil.snoc (.call 0 watch trivial)).snoc (.call 1 (.removeAll []) (List.Perm.refl _))

theorem unarmed_throughout_refused :
    (set linux ⟨0x10, .ok (0, 0), .ok 0, 3⟩ 0 0x1000 "write" 4 7 empty).1 =
      .error "perf_event_open failed for hardware breakpoint" ∧
    refused.world.hw.hwHandlerInstalled = true ∧
    (∀ fd event, (exec linux 1 (.removeAll []) refused).files fd ≠ some (.perf event)) ∧
    (exec linux 1 (.removeAll []) refused).files 1 = some (.other 0) := by
  obtain ⟨hbefore, hunarmed, -⟩ := unarmed_throughout rfl run_refused
  obtain ⟨-, hfruitless⟩ := hbefore _ List.mem_cons_self
  refine ⟨hfruitless.throws _ _ _ _ _ _, rfl, hunarmed.events, rfl⟩

end Concrete

end PerfEvents

end Chromatic
