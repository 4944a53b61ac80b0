import Mathlib.Data.Set.Insert
import Chromatic.SoftwareBreakpoint
import Chromatic.HardwareBreakpoint
import Chromatic.MemoryAccessMonitor
import Chromatic.TrapRouting
import Chromatic.Foundation.MicroSteps

/-!
# Arming before registering

`NativeSoftwareBreakpoint::set`, `NativeHardwareBreakpoint::set` and
`NativeMemoryAccessMonitor::enable` in micro-steps, with other threads running into what they
arm. All three arm first and enter into their map last.

§1 the shared state · §2 actions · §3 the functions · §4 run alone · §5 other threads ·
§6 what is to be shown · §7 actions and traps · §8 proof outlines · §9 runs · §10 what becomes of
the trap · §11 a breakpoint that is hit too early.
-/

namespace Chromatic

open Foundation Foundation.MicroSteps ExceptionHandler MemoryAccessMonitor

namespace ArmingOrder

/-! ## §1  The shared state -/

/-- What raises a trap: a trap instruction, a debug register or perf event, an inaccessible
address. -/
inductive Source where
  | int3 (a : Addr)
  | debug (a : Addr)
  | page (a : Addr)
deriving DecidableEq

/-- `armed` are the sources that the function under way has armed, less the pages that a
handler has answered for since: a record of the run that no action reads. -/
structure Shared where
  w : World
  mon : MonitorState
  armed : Set Source

/-! ## §2  Actions -/

/-- The actions that change something, and `skip` for those that look. -/
inductive Act where
  | skip
  | allocate (p : Addr)
  | delete (p : Addr)
  | addCode (p : Addr)
  | releaseCode (p : Addr)
  | ensureHandlerInstalled
  | writeTrap (arch : Arch) (a : Addr)
  | bpById (entry : BreakpointEntry)
  | bpByAddress (entry : BreakpointEntry)
  | ensureHwHandlerInstalled
  | takeSlot (slot : Fin 4)
  | enableHw (a : Addr)
  | hwById (entry : HwBreakpointEntry)
  | hwByAddress (entry : HwBreakpointEntry)
  | refEnable
  | takeMonId
  | close (granted : Bool) (pageBase : Addr) (totalSize : BitVec 64)
  | registerSegv (type : ExceptionType)
  | insertMonitor (monitor : MonitorEntry)

/-- The addresses that become inaccessible. -/
def closed (granted : Bool) (pageBase : Addr) (totalSize : BitVec 64) (prot : Addr → Prot) :
    Set Source :=
  {src | ∃ a, src = .page a ∧ granted = true ∧ Between pageBase totalSize a ∧ prot a ≠ .none}

def act : Act → Shared → Shared
  | .skip, s => s
  | .allocate p, s => { s with w := s.w.allocate p }
  | .delete p, s => { s with w := s.w.delete p }
  | .addCode p, s => { s with w := s.w.addCode p }
  | .releaseCode p, s => { s with w := s.w.releaseCode p }
  | .ensureHandlerInstalled, s =>
      { s with w := SoftwareBreakpoint.ensureHandlerInstalled s.w }
  | .writeTrap arch a, s =>
      { s with
        w := { s.w with code := writeBytes s.w.code a (bpInsn arch) }
        armed := insert (.int3 a) s.armed }
  | .bpById entry, s =>
      { s with w := { s.w with bp := { s.w.bp with
          nextBpId := s.w.bp.nextBpId + 1
          bpById := s.w.bp.bpById.insert s.w.bp.nextBpId entry } } }
  | .bpByAddress entry, s =>
      { s with w := { s.w with bp := { s.w.bp with
          bpByAddress := s.w.bp.bpByAddress.insert entry.address entry } } }
  | .ensureHwHandlerInstalled, s =>
      { s with w := HardwareBreakpoint.ensureHwHandlerInstalled s.w }
  | .takeSlot slot, s =>
      { s with w := { s.w with hw := { s.w.hw with
          usedSlots := s.w.hw.usedSlots ||| (1 <<< (slot : ℕ)) } } }
  | .enableHw a, s => { s with armed := insert (.debug a) s.armed }
  | .hwById entry, s =>
      { s with w := { s.w with hw := { s.w.hw with
          nextHwId := s.w.hw.nextHwId + 1
          hwById := s.w.hw.hwById.insert s.w.hw.nextHwId entry } } }
  | .hwByAddress entry, s =>
      { s with w := { s.w with hw := { s.w.hw with
          hwByAddress := s.w.hw.hwByAddress.insert entry.address entry } } }
  | .refEnable, s => { s with mon := { s.mon with exc := ExceptionHandler.refEnable s.mon.exc } }
  | .takeMonId, s => { s with mon := { s.mon with nextMonId := s.mon.nextMonId + 1 } }
  | .close granted pageBase totalSize, s =>
      { s with
        mon := { s.mon with prot := setProtection granted pageBase totalSize .none s.mon.prot }
        armed := s.armed ∪ closed granted pageBase totalSize s.mon.prot }
  | .registerSegv type, s =>
      { s with mon := { s.mon with
          exc := (registerHandler type .monitorSegvHandler s.mon.exc).2 } }
  | .insertMonitor monitor, s =>
      { s with mon := { s.mon with monitors := s.mon.monitors.insert monitor.id monitor } }

/-! ## §3  The functions -/

/-- All three return an identifier or throw. -/
abbrev Func : Type := Code Shared Act (Except String ℕ)

/-- `NativeSoftwareBreakpoint::set`. -/
def setSoftware (arch : Arch) (env : SoftwareBreakpoint.Install) (address : Addr)
    (onHit : Callback) : Func :=
  .next .skip fun s =>
    if address ∈ s.w.bp.bpByAddress then
      .done (.error ("Software breakpoint already set at " ++ toHexAddr address.toNat))
    else
      .next .ensureHandlerInstalled fun _ => .next (.allocate env.self) fun s =>
        let originalBytes := readBytes s.w.code address arch.bpInsnSize
        match env.relocated with
        | .error e => .next (.delete env.self) fun _ => .done (.error e)
        | .ok (relocatedCode, bytesConsumed) =>
          .next (.addCode relocatedCode) fun _ =>
            match env.trampoline with
            | .error e =>
              .next (.releaseCode relocatedCode) fun _ => .next (.delete env.self) fun _ =>
                .done (.error e)
            | .ok trampolineCode =>
              .next (.addCode trampolineCode) fun _ =>
                if env.patch = .rwDenied then .done (.error "mprotect(RW) failed")
                else
                  .next (.writeTrap arch address) fun _ =>
                    if env.patch = .rxDenied then .done (.error "mprotect(RX) failed")
                    else
                      let entry : BreakpointEntry :=
                        { self := env.self, address := address, originalBytes := originalBytes,
                          originalInsnSize := bytesConsumed, trampolineCode := trampolineCode,
                          relocatedCode := relocatedCode, onHit := onHit }
                      .next (.bpById entry) fun s => .next (.bpByAddress entry) fun _ =>
                        .done (.ok s.w.bp.nextBpId)

/-- The platform call and the registration. On Linux the event is opened disabled. -/
def armHardware (os : Os) (addr : Addr) (type : HwBpType) (bpSize : ℤ)
    (env : HardwareBreakpoint.Install) (entry : ℤ → Option (Fin 4) → HwBreakpointEntry) : Func :=
  let failed (e : String) : Func :=
    .next (.releaseCode (entry 0 none).trampolineCode) fun _ =>
      .next (.releaseCode (entry 0 none).relocatedCode) fun _ =>
        .next (.delete env.self) fun _ => .done (.error e)
  let register (entry : HwBreakpointEntry) : Func :=
    .next (.enableHw entry.address) fun _ =>
      .next (.hwById entry) fun s => .next (.hwByAddress entry) fun _ =>
        .done (.ok s.w.hw.nextHwId)
  match os with
  | .linux =>
      match HardwareBreakpoint.linuxSetHwBp addr type bpSize env.perfFd with
      | .error e => failed e
      | .ok perfFd => register (entry perfFd none)
  | .darwin | .windows =>
      .next .skip fun s =>
        match HardwareBreakpoint.findFreeSlot s.w.hw.usedSlots with
        | none => failed "No free hardware breakpoint slots"
        | some slot => .next (.takeSlot slot) fun _ => register (entry (-1) (some slot))

/-- `NativeHardwareBreakpoint::set`. -/
def setHardware (target : Target) (env : HardwareBreakpoint.Install) (address : Addr)
    (typeStr : String) (size : ℤ) (onHit : Callback) : Func :=
  if target = ⟨.arm64, .darwin⟩ then
    .done (.error ("Hardware breakpoints not supported on macOS ARM64. " ++
      "Use SoftwareBreakpoint instead."))
  else
    match HardwareBreakpoint.parseType typeStr with
    | .error e => .done (.error e)
    | .ok type =>
      let entry (relocatedCode trampolineCode : Addr) (perfFd : ℤ) (slot : Option (Fin 4)) :
          HwBreakpointEntry :=
        { self := env.self, address := address, type := type, size := size, onHit := onHit,
          perfFd := perfFd, slot := slot, trampolineCode := trampolineCode,
          relocatedCode := relocatedCode }
      .next .skip fun s =>
        if address ∈ s.w.hw.hwByAddress then
          .done (.error ("Hardware breakpoint already set at " ++ toHexAddr address.toNat))
        else if HardwareBreakpoint.platformMaxBreakpoints target ≤
            s.w.hw.hwByAddress.entries.length then
          .done (.error ("Maximum hardware breakpoints reached (" ++
            toString (HardwareBreakpoint.platformMaxBreakpoints target) ++ ")"))
        else
          .next .ensureHwHandlerInstalled fun _ => .next (.allocate env.self) fun _ =>
            if type = .execute then
              match env.relocated with
              | .error e => .next (.delete env.self) fun _ => .done (.error e)
              | .ok (relocatedCode, _) =>
                .next (.addCode relocatedCode) fun _ =>
                  match env.trampoline with
                  | .error e =>
                    .next (.releaseCode relocatedCode) fun _ => .next (.delete env.self) fun _ =>
                      .done (.error e)
                  | .ok trampolineCode =>
                    .next (.addCode trampolineCode) fun _ =>
                      armHardware target.os address type size env
                        (entry relocatedCode trampolineCode)
            else armHardware target.os address type size env (entry 0 0)

/-- The loop over the ranges, from range `i` on. -/
def watchRanges (page : PageSize) (os : Os) (env : ProtectAnswers) :
    ℕ → List (Addr × BitVec 32) → List WatchedRange → (List WatchedRange → Func) → Func
  | _, [], ranges, behind => behind ranges
  | i, (addr, size) :: rest, ranges, behind =>
      let (pageBase, totalSize) := widen page addr (size.signExtend 64)
      .next (.close (env.granted i) pageBase totalSize) fun s =>
        let originalProt :=
          if os = .windows then if env.granted i then s.mon.prot pageBase else env.uninitialised
          else .readWrite
        watchRanges page os env (i + 1) rest
          (ranges ++ [⟨pageBase, totalSize, originalProt, i, false⟩]) behind

/-- `NativeMemoryAccessMonitor::enable`. -/
def enable (page : PageSize) (os : Os) (env : ProtectAnswers) (addresses : List Addr)
    (sizes : List (BitVec 32)) (onAccess : Callback) : Func :=
  if addresses.length ≠ sizes.length then
    .done (.error "addresses and sizes arrays must have the same length")
  else
    .next .refEnable fun _ => .next .takeMonId fun s =>
      let id := s.mon.nextMonId
      watchRanges page os env 0 (addresses.zip sizes) [] fun ranges =>
        .next (.registerSegv .accessViolation) fun s =>
          let segvHandlerId := s.mon.exc.nextId
          .next (.registerSegv .busError) fun s =>
            let monitor : MonitorEntry := ⟨id, ranges, onAccess, segvHandlerId, s.mon.exc.nextId⟩
            .next (.insertMonitor monitor) fun _ => .done (.ok id)

/-! ## §4  Run alone -/

/-- What an operation on the breakpoint registries leaves of the shared state. -/
def Shared.withWorld (s : Shared) (armed : Set Source) (out : Except String ℕ × World) :
    Except String ℕ × Shared :=
  (out.1, { s with w := out.2, armed := armed })

def Shared.withMonitors (s : Shared) (armed : Set Source)
    (out : Except String ℕ × MonitorState) : Except String ℕ × Shared :=
  (out.1, { s with mon := out.2, armed := armed })

section Alone

variable {s : Shared}

/-- Left alone, the actions of `set` add up to `set`. -/
theorem run_setSoftware (arch : Arch) (env : SoftwareBreakpoint.Install) (address : Addr)
    (onHit : Callback) :
    ∃ armed, (setSoftware arch env address onHit).run act s =
      s.withWorld armed (SoftwareBreakpoint.set arch env address onHit s.w) := by
  unfold setSoftware SoftwareBreakpoint.set
  rw [Code.run]
  by_cases hmem : address ∈ s.w.bp.bpByAddress
  · rw [if_pos hmem, if_pos hmem]
    exact ⟨_, rfl⟩
  · rw [if_neg hmem, if_neg hmem]
    cases env.relocated with
    | error e => exact ⟨_, rfl⟩
    | ok block =>
        cases env.trampoline with
        | error e => exact ⟨_, rfl⟩
        | ok trampolineCode =>
            cases env.patch with
            | ok | rwDenied | rxDenied => exact ⟨_, rfl⟩

theorem run_armHardware (os : Os) (addr : Addr) (type : HwBpType) (bpSize : ℤ)
    (env : HardwareBreakpoint.Install) (entry : ℤ → Option (Fin 4) → HwBreakpointEntry)
    {relocatedCode trampolineCode : Addr}
    (hr : ∀ perfFd slot, (entry perfFd slot).relocatedCode = relocatedCode)
    (ht : ∀ perfFd slot, (entry perfFd slot).trampolineCode = trampolineCode) :
    ∃ armed, (armHardware os addr type bpSize env entry).run act s = s.withWorld armed
      (match HardwareBreakpoint.arm os addr type bpSize env.perfFd s.w.hw with
      | (.error e, _) =>
          (.error e, ((s.w.releaseCode trampolineCode).releaseCode relocatedCode).delete env.self)
      | (.ok (perfFd, slot), hw) =>
          (.ok hw.nextHwId, { s.w with hw := { hw with
            nextHwId := hw.nextHwId + 1
            hwById := hw.hwById.insert hw.nextHwId (entry perfFd slot)
            hwByAddress :=
              hw.hwByAddress.insert (entry perfFd slot).address (entry perfFd slot) } })) := by
  unfold armHardware HardwareBreakpoint.arm
  cases os with
  | linux =>
      cases HardwareBreakpoint.linuxSetHwBp addr type bpSize env.perfFd with
      | error e => exact ⟨s.armed, by simp only [Code.run, act, hr, ht, Shared.withWorld]⟩
      | ok perfFd => exact ⟨_, rfl⟩
  | darwin | windows =>
      simp only [Code.run, act]
      cases HardwareBreakpoint.findFreeSlot s.w.hw.usedSlots with
      | none => exact ⟨s.armed, by simp only [Code.run, act, hr, ht, Shared.withWorld]⟩
      | some slot => exact ⟨_, rfl⟩

/-- Left alone, the actions of `set` add up to `set`. -/
theorem run_setHardware (target : Target) (env : HardwareBreakpoint.Install) (address : Addr)
    (typeStr : String) (size : ℤ) (onHit : Callback) :
    ∃ armed, (setHardware target env address typeStr size onHit).run act s =
      s.withWorld armed (HardwareBreakpoint.set target env address typeStr size onHit s.w) := by
  unfold setHardware HardwareBreakpoint.set
  by_cases htarget : target = ⟨.arm64, .darwin⟩
  · rw [if_pos htarget, if_pos htarget]
    exact ⟨_, rfl⟩
  · rw [if_neg htarget, if_neg htarget]
    cases HardwareBreakpoint.parseType typeStr with
    | error e => exact ⟨_, rfl⟩
    | ok type =>
        dsimp only
        rw [Code.run]
        by_cases hmem : address ∈ s.w.hw.hwByAddress
        · rw [if_pos hmem, if_pos hmem]
          exact ⟨_, rfl⟩
        · rw [if_neg hmem, if_neg hmem]
          by_cases hmax : HardwareBreakpoint.platformMaxBreakpoints target ≤
              s.w.hw.hwByAddress.entries.length
          · rw [if_pos hmax, if_pos hmax]
            exact ⟨_, rfl⟩
          · rw [if_neg hmax, if_neg hmax]
            unfold HardwareBreakpoint.buildBlocks
            by_cases htype : type = .execute
            · rw [if_pos htype, if_pos htype]
              cases env.relocated with
              | error e => exact ⟨_, rfl⟩
              | ok block =>
                  cases env.trampoline with
                  | error e => exact ⟨_, rfl⟩
                  | ok trampolineCode =>
                      exact run_armHardware _ _ _ _ _ _ (fun _ _ => rfl) (fun _ _ => rfl)
            · rw [if_neg htype, if_neg htype]
              exact run_armHardware _ _ _ _ _ _ (fun _ _ => rfl) (fun _ _ => rfl)

theorem run_watchRanges (page : PageSize) (os : Os) (env : ProtectAnswers) (i : ℕ)
    (l : List (Addr × BitVec 32)) (ranges : List WatchedRange)
    (behind : List WatchedRange → Func) :
    ∃ armed, (watchRanges page os env i l ranges behind).run act s =
      (behind (ranges ++ (watchAll page os env i l s.mon.prot).1)).run act
        { s with
          mon := { s.mon with prot := (watchAll page os env i l s.mon.prot).2 }
          armed := armed } := by
  induction l generalizing i ranges s with
  | nil => exact ⟨s.armed, by rw [watchRanges, watchAll, List.append_nil]⟩
  | cons p rest ih =>
      obtain ⟨addr, size⟩ := p
      unfold watchRanges
      dsimp only
      rw [Code.run]
      obtain ⟨armed, heq⟩ := ih (i + 1) _
      refine ⟨armed, heq.trans ?_⟩
      simp only [watchAll, watch, act, List.append_assoc, List.singleton_append]

/-- Left alone, the actions of `enable` add up to `enable`. -/
theorem run_enable (page : PageSize) (os : Os) (env : ProtectAnswers) (addresses : List Addr)
    (sizes : List (BitVec 32)) (onAccess : Callback) :
    ∃ armed, (enable page os env addresses sizes onAccess).run act s =
      s.withMonitors armed
        (MemoryAccessMonitor.enable page os env addresses sizes onAccess s.mon) := by
  unfold enable MemoryAccessMonitor.enable
  by_cases hlen : addresses.length ≠ sizes.length
  · rw [if_pos hlen, if_pos hlen]
    exact ⟨_, rfl⟩
  · rw [if_neg hlen, if_neg hlen]
    rw [Code.run, Code.run]
    obtain ⟨armed, heq⟩ := run_watchRanges page os env (s := act .takeMonId (act .refEnable s)) 0
      (addresses.zip sizes) [] _
    rw [heq]
    exact ⟨armed, rfl⟩

end Alone

/-! ## §5  Other threads -/

/-- What other threads do. Breakpoint handlers change nothing but the context they are given. -/
inductive Touch where
  | execute (ctx : ExceptionContext)
  | fault (ctx : ExceptionContext) (order : List (Σ _ : ℕ, MonitorEntry)) (granted : Bool)
  | publish (idx : BitVec 32) (e : Event)

/-- The handler that fires a range answers for its pages from then on. -/
def answered (found : Option Found) (armed : Set Source) : Set Source :=
  match found with
  | none => armed
  | some f => {src | src ∈ armed ∧ ∀ a, src = .page a → ¬ f.range.Covers a}

inductive Others : Shared → Touch → Shared → Prop
  | execute {s ctx} : Others s (.execute ctx) s
  | fault {s ctx order granted} (horder : order.Perm s.mon.monitors.entries) :
      Others s (.fault ctx order granted)
        { s with
          mon := (monitorSegvHandler ctx order granted s.mon).2
          armed := answered (scan ctx.faultAddress order) s.armed }
  | publish {s idx e} (hmem : (idx, e) ∈ s.mon.inProgress) :
      Others s (.publish idx e) { s with mon := MemoryAccessMonitor.publish idx e s.mon }

/-! ## §6  What is to be shown -/

inductive Call where
  | software (env : SoftwareBreakpoint.Install) (address : Addr) (onHit : Callback)
  | hardware (env : HardwareBreakpoint.Install) (address : Addr) (typeStr : String) (size : ℤ)
      (onHit : Callback)
  | monitor (page : PageSize) (env : ProtectAnswers) (addresses : List Addr)
      (sizes : List (BitVec 32)) (onAccess : Callback)

def Call.code (target : Target) : Call → Func
  | .software env address onHit => setSoftware target.arch env address onHit
  | .hardware env address typeStr size onHit =>
      setHardware target env address typeStr size onHit
  | .monitor page env addresses sizes onAccess =>
      enable page target.os env addresses sizes onAccess

/-- A call begins, with nothing of its own armed. -/
def begun (target : Target) (call : Call) (w : World) (mon : MonitorState) :
    Underway Shared Act (Except String ℕ) :=
  ⟨call.code target, ⟨w, mon, ∅⟩⟩

/-- What the function answers and leaves, in one go. -/
def Call.exec (target : Target) (s : Shared) (armed : Set Source) :
    Call → Except String ℕ × Shared
  | .software env address onHit =>
      s.withWorld armed (SoftwareBreakpoint.set target.arch env address onHit s.w)
  | .hardware env address typeStr size onHit =>
      s.withWorld armed (HardwareBreakpoint.set target env address typeStr size onHit s.w)
  | .monitor page env addresses sizes onAccess =>
      s.withMonitors armed
        (MemoryAccessMonitor.enable page target.os env addresses sizes onAccess s.mon)

/-- The chain has the handler for the type. -/
def InChain (exc : ExceptionState) (type : ExceptionType) (callback : HandlerFn) : Prop :=
  ∃ e ∈ exc.handlers, e.type = type ∧ e.callback = callback

/-- A registered monitor has a range that watches the address, and the chain its handler. -/
structure Watched (mon : MonitorState) (a : Addr) : Prop where
  range : ∃ k m, mon.monitors.lookup k = some m ∧ ∃ r ∈ m.ranges, r.Watches a
  segv : InChain mon.exc .accessViolation .monitorSegvHandler
  bus : InChain mon.exc .busError .monitorSegvHandler

/-- The entry that the handler looks for is in its map, and the handler in the chain. -/
def Claimable (s : Shared) : Source → Prop
  | .int3 a => a ∈ s.w.bp.bpByAddress ∧
      InChain s.w.exc .breakpoint .breakpointSigtrapHandler
  | .debug a => a ∈ s.w.hw.hwByAddress ∧
      InChain s.w.exc .breakpoint .hwBpSigtrapHandler ∧
      InChain s.w.exc .singleStep .hwBpSigtrapHandler
  | .page a => Watched s.mon a

/-- Whatever the call has armed, its handler can claim. -/
def Handled (s : Shared) : Prop := ∀ src ∈ s.armed, Claimable s src

/-- The call has failed before it writes the trap instruction or enables the register or event.
Pages it closes are closed already, or watched by another monitor. -/
def Harmless : Act → Shared → Prop
  | .writeTrap _ _, _ => False
  | .enableHw _, _ => False
  | .close granted pageBase totalSize, s => ∀ a, granted = true →
      Between pageBase totalSize a → s.mon.prot a ≠ .none → Watched s.mon a
  | _, _ => True

/-! ## §7  Actions and traps -/

/-- What the functions know when they come to an action. -/
def Known : Act → Shared → Prop
  | .writeTrap _ a, s => a ∉ s.w.bp.bpByAddress
  | .enableHw a, s => a ∉ s.w.hw.hwByAddress
  | .insertMonitor m, s => InChain s.mon.exc .accessViolation .monitorSegvHandler ∧
      InChain s.mon.exc .busError .monitorSegvHandler ∧
      ∀ a, Source.page a ∈ s.armed → ∃ r ∈ m.ranges, r.Watches a
  | _, _ => True

/-- Maps and chain lose nothing. -/
structure Keeps (s t : Shared) : Prop where
  bp : ∀ a ∈ s.w.bp.bpByAddress, a ∈ t.w.bp.bpByAddress
  hw : ∀ a ∈ s.w.hw.hwByAddress, a ∈ t.w.hw.hwByAddress
  exc : s.w.exc.handlers ⊆ t.w.exc.handlers
  watched : ∀ a, Watched s.mon a → Watched t.mon a

section Traps

variable {s t : Shared} {a : Act} {e : Touch} {src : Source} {mon mon' : MonitorState}

theorem InChain.mono {exc exc' : ExceptionState} {type : ExceptionType} {callback : HandlerFn}
    (h : InChain exc type callback) (hsub : exc.handlers ⊆ exc'.handlers) :
    InChain exc' type callback := by
  obtain ⟨entry, hmem, hentry⟩ := h
  exact ⟨entry, hsub hmem, hentry⟩

theorem Watched.mono {x : Addr} (h : Watched mon x) (hmonitors : mon'.monitors = mon.monitors)
    (hsub : mon.exc.handlers ⊆ mon'.exc.handlers) : Watched mon' x :=
  ⟨hmonitors ▸ h.range, h.segv.mono hsub, h.bus.mono hsub⟩

theorem Claimable.keep (h : Claimable s src) (hkeeps : Keeps s t) : Claimable t src := by
  cases src with
  | int3 x => exact ⟨hkeeps.bp x h.1, h.2.mono hkeeps.exc⟩
  | debug x => exact ⟨hkeeps.hw x h.1, h.2.1.mono hkeeps.exc, h.2.2.mono hkeeps.exc⟩
  | page x => exact hkeeps.watched x h

theorem ensureHandlerInstalled_handlers (w : World) :
    w.exc.handlers ⊆ (SoftwareBreakpoint.ensureHandlerInstalled w).exc.handlers := by
  unfold SoftwareBreakpoint.ensureHandlerInstalled
  split
  · exact List.Subset.refl _
  · rw [show w.exc.handlers = (refEnable w.exc).handlers from (refEnable_handlers _).symm]
    exact List.subset_append_left _ _

theorem ensureHwHandlerInstalled_handlers (w : World) :
    w.exc.handlers ⊆ (HardwareBreakpoint.ensureHwHandlerInstalled w).exc.handlers := by
  unfold HardwareBreakpoint.ensureHwHandlerInstalled
  split
  · exact List.Subset.refl _
  · rw [show w.exc.handlers = (refEnable w.exc).handlers from (refEnable_handlers _).symm]
    exact List.Subset.trans (List.subset_append_left _ _) (List.subset_append_left _ _)

/-- What is done to a map or the chain is an insertion. -/
theorem keeps_act (ha : ∀ m, a ≠ .insertMonitor m) : Keeps s (act a s) := by
  cases a with
  | skip | allocate | delete | addCode | writeTrap | bpById | takeSlot | enableHw | hwById
    | takeMonId => exact ⟨fun _ => id, fun _ => id, List.Subset.refl _, fun _ h => ⟨h.1, h.2, h.3⟩⟩
  | releaseCode p =>
      refine ⟨fun x hx => ?_, fun x hx => ?_, ?_, fun _ => id⟩
      · rwa [act, World.releaseCode_bp]
      · rwa [act, World.releaseCode_hw]
      · rw [act, World.releaseCode_exc]
        exact List.Subset.refl _
  | ensureHandlerInstalled =>
      refine ⟨fun x hx => ?_, fun x hx => ?_, ensureHandlerInstalled_handlers _, fun _ => id⟩
      · rwa [act, SoftwareBreakpoint.ensureHandlerInstalled_bpByAddress]
      · rwa [act, SoftwareBreakpoint.ensureHandlerInstalled_hw]
  | ensureHwHandlerInstalled =>
      refine ⟨fun x hx => ?_, fun x hx => ?_, ensureHwHandlerInstalled_handlers _, fun _ => id⟩
      · rwa [act, HardwareBreakpoint.ensureHwHandlerInstalled_bp]
      · rwa [act, HardwareBreakpoint.ensureHwHandlerInstalled_hwByAddress]
  | bpByAddress entry =>
      exact ⟨fun x hx => (AList.mem_insert _).mpr (.inr hx), fun _ => id, List.Subset.refl _,
        fun _ => id⟩
  | hwByAddress entry =>
      exact ⟨fun _ => id, fun x hx => (AList.mem_insert _).mpr (.inr hx), List.Subset.refl _,
        fun _ => id⟩
  | refEnable =>
      refine ⟨fun _ => id, fun _ => id, List.Subset.refl _, fun x hx => hx.mono rfl ?_⟩
      rw [act, refEnable_handlers]
      exact List.Subset.refl _
  | close granted pageBase totalSize =>
      exact ⟨fun _ => id, fun _ => id, List.Subset.refl _,
        fun x hx => hx.mono rfl (List.Subset.refl _)⟩
  | registerSegv type =>
      exact ⟨fun _ => id, fun _ => id, List.Subset.refl _,
        fun x hx => hx.mono rfl (List.subset_append_left _ _)⟩
  | insertMonitor m => exact absurd rfl (ha m)

/-- The last action of `enable`: the monitor watches whatever the call has armed. -/
theorem handled_insertMonitor {m : MonitorEntry} (h : Handled s)
    (hknown : Known (.insertMonitor m) s) : Handled (act (.insertMonitor m) s) := by
  obtain ⟨hsegv, hbus, hwatch⟩ := hknown
  intro src hsrc
  cases src with
  | int3 x => exact h _ hsrc
  | debug x => exact h _ hsrc
  | page x => exact ⟨⟨m.id, m, AList.lookup_insert _, hwatch x hsrc⟩, hsegv, hbus⟩

theorem handled_act (h : Handled s) (hknown : Known a s) (hharmless : Harmless a s) :
    Handled (act a s) := by
  by_cases ha : ∃ m, a = .insertMonitor m
  · obtain ⟨m, rfl⟩ := ha
    exact handled_insertMonitor h hknown
  · have hkeeps := @keeps_act s a (not_exists.mp ha)
    have hold : ∀ src ∈ s.armed, Claimable (act a s) src := fun src hsrc =>
      (h src hsrc).keep hkeeps
    cases a with
    | close granted pageBase totalSize =>
        rintro src (hsrc | ⟨x, rfl, hgranted, hbetween, hopen⟩)
        · exact hold src hsrc
        · exact hkeeps.watched x (hharmless x hgranted hbetween hopen)
    | writeTrap | enableHw => exact hharmless.elim
    | skip | allocate | delete | addCode | releaseCode | ensureHandlerInstalled | bpById
      | bpByAddress | ensureHwHandlerInstalled | takeSlot | hwById | hwByAddress | refEnable
      | takeMonId | registerSegv | insertMonitor => exact hold

/-- Arming comes too early wherever it is not harmless. -/
theorem not_handled_act (hknown : Known a s) (hnot : ¬ Harmless a s) : ¬ Handled (act a s) := by
  intro h
  cases a with
  | writeTrap arch x => exact hknown (h (.int3 x) (Set.mem_insert _ _)).1
  | enableHw x => exact hknown (h (.debug x) (Set.mem_insert _ _)).1
  | close granted pageBase totalSize =>
      refine hnot fun x hgranted hbetween hopen => ?_
      exact (h (.page x) (.inr ⟨x, rfl, hgranted, hbetween, hopen⟩)).mono rfl
        (List.Subset.refl _)
  | skip | allocate | delete | addCode | releaseCode | ensureHandlerInstalled | bpById
    | bpByAddress | ensureHwHandlerInstalled | takeSlot | hwById | hwByAddress | refEnable
    | takeMonId | registerSegv | insertMonitor => exact hnot trivial

/-- A range that fires is replaced in its monitor; the others go on watching. -/
theorem Watched.noteAccess {ctx : ExceptionContext} {order : List (Σ _ : ℕ, MonitorEntry)}
    {granted : Bool} {f : Found} {x : Addr} (h : Watched mon x)
    (horder : order.Perm mon.monitors.entries) (hscan : scan ctx.faultAddress order = some f)
    (hfree : ¬ f.range.Covers x) :
    Watched (MemoryAccessMonitor.noteAccess ctx granted f mon) x := by
  obtain ⟨⟨k, m, hlookup, r, hr, hwatches⟩, hsegv, hbus⟩ := h
  refine ⟨?_, hsegv, hbus⟩
  by_cases hk : k = f.key
  · obtain ⟨hlive, -, -⟩ := scan_found horder hscan
    obtain ⟨front, back, hranges, -, hfired, -⟩ := fireFirst_some (scan_some hscan).2
    obtain rfl : f.monitor = m := Option.some.inj (hlive.symm.trans (hk ▸ hlookup))
    refine ⟨f.key, _, AList.lookup_insert _, r, ?_, hwatches⟩
    rw [hranges, List.mem_append, List.mem_cons] at hr
    change r ∈ f.ranges
    rw [hfired, List.mem_append, List.mem_cons]
    rcases hr with hfront | rfl | hback
    · exact .inl hfront
    · exact absurd hwatches.2 hfree
    · exact .inr (.inr hback)
  · exact ⟨k, m, (AList.lookup_insert_ne hk).trans hlookup, r, hr, hwatches⟩

theorem handled_others (h : Handled s) (hothers : Others s e t) : Handled t := by
  cases hothers with
  | execute => exact h
  | publish hmem =>
      intro src hsrc
      exact (h src hsrc).keep ⟨fun _ => id, fun _ => id, List.Subset.refl _,
        fun x hx => hx.mono rfl (List.Subset.refl _)⟩
  | @fault ctx order granted horder =>
      rcases monitorSegvHandler_cases ctx order granted s.mon with
        ⟨hscan, heq⟩ | ⟨f, hscan, heq⟩ <;> rw [heq, hscan]
      · exact h
      · rintro src ⟨hsrc, hfree⟩
        cases src with
        | int3 x => exact h _ hsrc
        | debug x => exact h _ hsrc
        | page x => exact (h _ hsrc).noteAccess horder hscan (hfree x rfl)

end Traps

/-! ## §8  Proof outlines -/

section Outlines

/-- The function has a contract from the assertion on; nothing is asked of what it leaves. -/
abbrev Annotated (A : Shared → Prop) (f : Func) : Prop :=
  Contract act Others Known (fun _ => True) A f

theorem annotated_done {A : Shared → Prop} {r : Except String ℕ} (stable : Stable Others A) :
    Annotated A (.done r) :=
  .done stable fun _ _ => trivial

/-- Other threads leave the breakpoint registries alone. -/
theorem stable_world (A : World → Prop) : Stable Others fun s => A s.w := by
  intro s e t h hothers
  cases hothers <;> exact h

theorem stable_true : Stable Others fun _ => True := fun _ _ _ _ _ => trivial

/-- Until `set` registers the breakpoint, its address is not in the map. -/
def NoBreakpoint (address : Addr) (s : Shared) : Prop := address ∉ s.w.bp.bpByAddress

theorem outline_setSoftware (arch : Arch) (env : SoftwareBreakpoint.Install) (address : Addr)
    (onHit : Callback) :
    Annotated (fun _ => True) (setSoftware arch env address onHit) := by
  have hstable : Stable Others (NoBreakpoint address) :=
    stable_world fun w => address ∉ w.bp.bpByAddress
  have hdone : ∀ r, Annotated (NoBreakpoint address) (.done r) :=
    fun _ => annotated_done hstable
  have hdelete : ∀ e, Annotated (NoBreakpoint address)
      (.next (.delete env.self) fun _ => .done (.error e)) :=
    fun e => .keep hstable (fun _ _ => trivial) (fun _ => id) fun _ => hdone _
  refine .next stable_true (fun _ _ => trivial)
    (fun s t => address ∉ s.w.bp.bpByAddress → NoBreakpoint address t) (fun _ _ => id)
    fun s _ => ?_
  by_cases hmem : address ∈ s.w.bp.bpByAddress
  · rw [if_pos hmem]
    exact annotated_done (stable_world fun w => _ → address ∉ w.bp.bpByAddress)
  rw [if_neg hmem]
  refine Contract.strengthen (A := NoBreakpoint address) ?_
    (stable_world fun w => _ → address ∉ w.bp.bpByAddress) fun t ht => ht hmem
  refine .keep hstable (fun _ _ => trivial) (fun t ht => ?_) fun _ => ?_
  · unfold NoBreakpoint act
    rwa [SoftwareBreakpoint.ensureHandlerInstalled_bpByAddress]
  refine .keep hstable (fun _ _ => trivial) (fun _ => id) fun _ => ?_
  cases env.relocated with
  | error e => exact hdelete e
  | ok block =>
      refine .keep hstable (fun _ _ => trivial) (fun _ => id) fun _ => ?_
      cases env.trampoline with
      | error e =>
          refine .keep hstable (fun _ _ => trivial) (fun t ht => ?_) fun _ => hdelete e
          unfold NoBreakpoint act
          rwa [World.releaseCode_bp]
      | ok trampolineCode =>
          refine .keep hstable (fun _ _ => trivial) (fun _ => id) fun _ => ?_
          dsimp only
          split
          · exact hdone _
          · refine .keep hstable (fun _ => id) (fun _ => id) fun _ => ?_
            split
            · exact hdone _
            · refine .keep hstable (fun _ _ => trivial) (fun _ => id) fun _ => ?_
              exact .next hstable (fun _ _ => trivial) (fun _ _ => True) (fun _ _ => trivial)
                fun _ _ => annotated_done stable_true

/-- Until `set` registers the hardware breakpoint, its address is not in the map. -/
def NoHwBreakpoint (address : Addr) (s : Shared) : Prop := address ∉ s.w.hw.hwByAddress

theorem stable_noHwBreakpoint (address : Addr) : Stable Others (NoHwBreakpoint address) :=
  stable_world fun w => address ∉ w.hw.hwByAddress

theorem outline_armHardware (os : Os) (addr : Addr) (type : HwBpType) (bpSize : ℤ)
    (env : HardwareBreakpoint.Install) {address : Addr}
    {entry : ℤ → Option (Fin 4) → HwBreakpointEntry}
    (haddress : ∀ perfFd slot, (entry perfFd slot).address = address) :
    Annotated (NoHwBreakpoint address) (armHardware os addr type bpSize env entry) := by
  have hstable := stable_noHwBreakpoint address
  have hrelease : ∀ (p : Addr) (t : Shared), NoHwBreakpoint address t →
      NoHwBreakpoint address (act (.releaseCode p) t) := by
    intro p t ht
    unfold NoHwBreakpoint act
    rwa [World.releaseCode_hw]
  have hfailed : ∀ (t c : Addr) (e : String), Annotated (NoHwBreakpoint address)
      (.next (.releaseCode t) fun _ => .next (.releaseCode c) fun _ =>
        .next (.delete env.self) fun _ => .done (.error e)) := by
    intro t c e
    refine .keep hstable (fun _ _ => trivial) (hrelease t) fun _ => ?_
    refine .keep hstable (fun _ _ => trivial) (hrelease c) fun _ => ?_
    exact .keep hstable (fun _ _ => trivial) (fun _ => id) fun _ => annotated_done hstable
  have hregister : ∀ perfFd slot, Annotated (NoHwBreakpoint address)
      (.next (.enableHw (entry perfFd slot).address) fun _ =>
        .next (.hwById (entry perfFd slot)) fun s =>
          .next (.hwByAddress (entry perfFd slot)) fun _ => .done (.ok s.w.hw.nextHwId)) := by
    intro perfFd slot
    refine .keep hstable (fun t ht => ?_) (fun _ => id) fun _ => ?_
    · rw [haddress]
      exact ht
    · refine .keep hstable (fun _ _ => trivial) (fun _ => id) fun _ => ?_
      exact .next hstable (fun _ _ => trivial) (fun _ _ => True) (fun _ _ => trivial)
        fun _ _ => annotated_done stable_true
  unfold armHardware
  cases os with
  | linux =>
      cases HardwareBreakpoint.linuxSetHwBp addr type bpSize env.perfFd with
      | error e => exact hfailed _ _ _
      | ok perfFd => exact hregister _ _
  | darwin | windows =>
      refine .keep hstable (fun _ _ => trivial) (fun _ => id) fun s => ?_
      cases HardwareBreakpoint.findFreeSlot s.w.hw.usedSlots with
      | none => exact hfailed _ _ _
      | some slot =>
          exact .keep hstable (fun _ _ => trivial) (fun _ => id) fun _ => hregister _ _

theorem outline_setHardware (target : Target) (env : HardwareBreakpoint.Install)
    (address : Addr) (typeStr : String) (size : ℤ) (onHit : Callback) :
    Annotated (fun _ => True)
      (setHardware target env address typeStr size onHit) := by
  have hstable := stable_noHwBreakpoint address
  have hdelete : ∀ e, Annotated (NoHwBreakpoint address)
      (.next (.delete env.self) fun _ => .done (.error e)) :=
    fun e => .keep hstable (fun _ _ => trivial) (fun _ => id) fun _ => annotated_done hstable
  unfold setHardware
  split
  · exact annotated_done stable_true
  cases HardwareBreakpoint.parseType typeStr with
  | error e => exact annotated_done stable_true
  | ok type =>
      refine .next stable_true (fun _ _ => trivial)
        (fun s t => address ∉ s.w.hw.hwByAddress → NoHwBreakpoint address t) (fun _ _ => id)
        fun s _ => ?_
      have hstart : Stable Others fun t : Shared =>
          address ∉ s.w.hw.hwByAddress → NoHwBreakpoint address t :=
        stable_world fun w => _ → address ∉ w.hw.hwByAddress
      by_cases hmem : address ∈ s.w.hw.hwByAddress
      · rw [if_pos hmem]
        exact annotated_done hstart
      rw [if_neg hmem]
      split
      · exact annotated_done hstart
      refine Contract.strengthen (A := NoHwBreakpoint address) ?_ hstart fun t ht => ht hmem
      refine .keep hstable (fun _ _ => trivial) (fun t ht => ?_) fun _ => ?_
      · unfold NoHwBreakpoint act
        rwa [HardwareBreakpoint.ensureHwHandlerInstalled_hwByAddress]
      refine .keep hstable (fun _ _ => trivial) (fun _ => id) fun _ => ?_
      split
      · cases env.relocated with
        | error e => exact hdelete e
        | ok block =>
            refine .keep hstable (fun _ _ => trivial) (fun _ => id) fun _ => ?_
            cases env.trampoline with
            | error e =>
                refine .keep hstable (fun _ _ => trivial) (fun t ht => ?_) fun _ => hdelete e
                unfold NoHwBreakpoint act
                rwa [World.releaseCode_hw]
            | ok trampolineCode =>
                refine .keep hstable (fun _ _ => trivial) (fun _ => id) fun _ => ?_
                exact outline_armHardware _ _ _ _ _ fun _ _ => rfl
      · exact outline_armHardware _ _ _ _ _ fun _ _ => rfl

/-- The call's ranges watch every page that is closed. -/
def Covered (ranges : List WatchedRange) (s : Shared) : Prop :=
  ∀ a, Source.page a ∈ s.armed → ∃ r ∈ ranges, r.Watches a

theorem answered_subset (found : Option Found) (armed : Set Source) :
    answered found armed ⊆ armed := by
  cases found with
  | none => exact Set.Subset.refl _
  | some f => exact fun _ h => h.1

/-- Others close no page. -/
theorem stable_covered (ranges : List WatchedRange) : Stable Others (Covered ranges) := by
  intro s e t h hothers a ha
  cases hothers with
  | execute | publish => exact h a ha
  | fault => exact h a (answered_subset _ _ ha)

/-- Others leave the chain alone. -/
theorem stable_inChain (type : ExceptionType) (callback : HandlerFn) :
    Stable Others fun s => InChain s.mon.exc type callback := by
  intro s e t h hothers
  cases hothers with
  | execute | publish => exact h
  | @fault ctx order granted _ =>
      rcases monitorSegvHandler_cases ctx order granted s.mon with
        ⟨hscan, heq⟩ | ⟨f, hscan, heq⟩ <;> rw [heq] <;> exact h

theorem stable_and {A B : Shared → Prop} (hA : Stable Others A) (hB : Stable Others B) :
    Stable Others fun s => A s ∧ B s :=
  fun s e t h hothers => ⟨hA s e t h.1 hothers, hB s e t h.2 hothers⟩

/-- What is closed next is watched by the range that is pushed for it. -/
theorem Covered.close {ranges : List WatchedRange} {s : Shared} (h : Covered ranges s)
    {granted : Bool} {pageBase : Addr} {totalSize : BitVec 64} {originalProt : Prot} {i : ℕ} :
    Covered (ranges ++ [⟨pageBase, totalSize, originalProt, i, false⟩])
      (act (.close granted pageBase totalSize) s) := by
  rintro a (hold | ⟨x, hx, -, hbetween, -⟩)
  · obtain ⟨r, hr, hwatches⟩ := h a hold
    exact ⟨r, List.mem_append_left _ hr, hwatches⟩
  · obtain rfl := Source.page.inj hx
    exact ⟨_, List.mem_append_right _ (List.mem_singleton_self _), rfl, hbetween⟩

theorem inChain_registerHandler (type : ExceptionType) (callback : HandlerFn)
    (exc : ExceptionState) : InChain (registerHandler type callback exc).2 type callback :=
  ⟨_, List.mem_append_right _ (List.mem_singleton_self _), rfl, rfl⟩

theorem outline_watchRanges (page : PageSize) (os : Os) (env : ProtectAnswers)
    {behind : List WatchedRange → Func}
    (hbehind : ∀ ranges, Annotated (Covered ranges) (behind ranges)) (i : ℕ)
    (l : List (Addr × BitVec 32)) (ranges : List WatchedRange) :
    Annotated (Covered ranges) (watchRanges page os env i l ranges behind) := by
  induction l generalizing i ranges with
  | nil => exact hbehind ranges
  | cons p rest ih =>
      refine .next (stable_covered ranges) (fun _ _ => trivial) _ ?_ fun s _ => ih (i + 1) _
      exact fun s h => h.close

theorem outline_enable (page : PageSize) (os : Os) (env : ProtectAnswers)
    (addresses : List Addr) (sizes : List (BitVec 32)) (onAccess : Callback) :
    Annotated (Covered []) (enable page os env addresses sizes onAccess) := by
  have hnone := stable_covered []
  unfold enable
  split
  · exact annotated_done hnone
  refine .keep hnone (fun _ _ => trivial) (fun _ => id) fun _ => ?_
  refine .keep hnone (fun _ _ => trivial) (fun _ => id) fun s => ?_
  refine outline_watchRanges page os env (fun ranges => ?_) 0 _ []
  have hcovered := stable_covered ranges
  have hsegv := stable_and (stable_inChain .accessViolation .monitorSegvHandler) hcovered
  have hboth := stable_and (stable_inChain .busError .monitorSegvHandler) hsegv
  refine .next hcovered (fun _ _ => trivial)
    (fun _ t => InChain t.mon.exc .accessViolation .monitorSegvHandler ∧ Covered ranges t)
    (fun t ht => ⟨inChain_registerHandler _ _ _, ht⟩) fun t _ => ?_
  refine .next hsegv (fun _ _ => trivial)
    (fun _ t => InChain t.mon.exc .busError .monitorSegvHandler ∧
      InChain t.mon.exc .accessViolation .monitorSegvHandler ∧ Covered ranges t)
    (fun t ht => ⟨inChain_registerHandler _ _ _, ht.1.mono (List.subset_append_left _ _), ht.2⟩)
    fun t _ => ?_
  exact .next hboth (fun u hu => ⟨hu.2.1, hu.1, hu.2.2⟩) (fun _ _ => True)
    (fun _ _ => trivial) fun _ _ => annotated_done stable_true

theorem outline_code (target : Target) (call : Call) :
    Annotated (Covered []) (call.code target) := by
  have hstart := stable_covered []
  cases call with
  | software env address onHit =>
      exact (outline_setSoftware target.arch env address onHit).strengthen hstart
        fun _ _ => trivial
  | hardware env address typeStr size onHit =>
      exact (outline_setHardware target env address typeStr size onHit).strengthen hstart
        fun _ _ => trivial
  | monitor page env addresses sizes onAccess =>
      exact outline_enable page target.os env addresses sizes onAccess

end Outlines

/-! ## §9  Runs -/

section Runs

variable {target : Target} {call : Call} {w : World} {mon : MonitorState}
  {tr : List (Underway Shared Act (Except String ℕ) × Label Act Touch)}
  {u : Underway Shared Act (Except String ℕ)}

/-- **Armed before registered.** Whatever the call arms can be claimed in every state of the
run exactly when it arms nothing before its entry stands in the map. -/
theorem handled_throughout_iff (run : Run (Step act Others) (begun target call w mon) tr u) :
    Throughout (fun u => Handled u.shared) tr u ↔
      Guarded (fun u l => ∀ a, l = Label.own a → Harmless a u.shared) tr := by
  have hnone : Handled (begun target call w mon).shared := fun _ h => h.elim
  have hcovered : Covered [] (begun target call w mon).shared := fun _ h => h.elim
  exact Contracted.throughout_iff ⟨_, outline_code target call, hcovered⟩ hnone
    (fun _ _ h hknown => handled_act h hknown) (fun _ _ _ => handled_others)
    (fun _ _ => not_handled_act) run

/-- Left alone, a call ends as the function does in one go. -/
theorem run_begun (target : Target) (call : Call) (w : World) (mon : MonitorState) :
    ∃ tr armed, Run (Step act Others) (begun target call w mon) tr
      ⟨.done (call.exec target ⟨w, mon, ∅⟩ armed).1, (call.exec target ⟨w, mon, ∅⟩ armed).2⟩ := by
  obtain ⟨tr, run⟩ := run_alone act Others (call.code target) ⟨w, mon, ∅⟩
  have hexec : ∃ armed, (call.code target).run act ⟨w, mon, ∅⟩ =
      call.exec target ⟨w, mon, ∅⟩ armed := by
    cases call with
    | software env address onHit => exact run_setSoftware _ _ _ _
    | hardware env address typeStr size onHit => exact run_setHardware _ _ _ _ _ _
    | monitor page env addresses sizes onAccess => exact run_enable _ _ _ _ _ _
  obtain ⟨armed, heq⟩ := hexec
  exact ⟨tr, armed, heq ▸ run⟩

/-- The trap instruction, the register or the event. -/
def Arms (a : Act) : Prop := ∀ s, ¬ Harmless a s

def Returns (r : Except String ℕ) : Prop := ∃ id, r = .ok id

theorem not_returns (e : String) : ¬ Returns (.error e) := by
  rintro ⟨id, h⟩
  cases h

theorem passes_setSoftware (arch : Arch) (env : SoftwareBreakpoint.Install) (address : Addr)
    (onHit : Callback) : Passes Arms Returns (setSoftware arch env address onHit) := by
  have herror : ∀ e, Passes Arms Returns (.done (.error e) : Func) :=
    fun e => .done (not_returns e)
  refine .later fun s => ?_
  split
  · exact herror _
  refine .later fun _ => .later fun t => ?_
  cases env.relocated with
  | error e => exact .later fun _ => herror e
  | ok block =>
      refine .later fun _ => ?_
      cases env.trampoline with
      | error e => exact .later fun _ => .later fun _ => herror e
      | ok trampolineCode =>
          refine .later fun _ => ?_
          dsimp only
          split
          · exact herror _
          · exact .here fun _ => id

theorem passes_armHardware (os : Os) (addr : Addr) (type : HwBpType) (bpSize : ℤ)
    (env : HardwareBreakpoint.Install) (entry : ℤ → Option (Fin 4) → HwBreakpointEntry) :
    Passes Arms Returns (armHardware os addr type bpSize env entry) := by
  have hfailed : ∀ (p q r : Addr) (e : String), Passes Arms Returns
      (.next (.releaseCode p) fun _ => .next (.releaseCode q) fun _ =>
        .next (.delete r) fun _ => .done (.error e) : Func) :=
    fun _ _ _ e => .later fun _ => .later fun _ => .later fun _ => .done (not_returns e)
  unfold armHardware
  cases os with
  | linux =>
      cases HardwareBreakpoint.linuxSetHwBp addr type bpSize env.perfFd with
      | error e => exact hfailed _ _ _ _
      | ok perfFd => exact .here fun _ => id
  | darwin | windows =>
      refine .later fun s => ?_
      cases HardwareBreakpoint.findFreeSlot s.w.hw.usedSlots with
      | none => exact hfailed _ _ _ _
      | some slot => exact .later fun _ => .here fun _ => id

theorem passes_setHardware (target : Target) (env : HardwareBreakpoint.Install)
    (address : Addr) (typeStr : String) (size : ℤ) (onHit : Callback) :
    Passes Arms Returns (setHardware target env address typeStr size onHit) := by
  have herror : ∀ e, Passes Arms Returns (.done (.error e) : Func) :=
    fun e => .done (not_returns e)
  unfold setHardware
  split
  · exact herror _
  cases HardwareBreakpoint.parseType typeStr with
  | error e => exact herror e
  | ok type =>
      refine .later fun s => ?_
      split
      · exact herror _
      split
      · exact herror _
      refine .later fun _ => .later fun _ => ?_
      split
      · cases env.relocated with
        | error e => exact .later fun _ => herror e
        | ok block =>
            refine .later fun _ => ?_
            cases env.trampoline with
            | error e => exact .later fun _ => .later fun _ => herror e
            | ok trampolineCode => exact .later fun _ => passes_armHardware _ _ _ _ _ _
      · exact passes_armHardware _ _ _ _ _ _

/-- A breakpoint that has been set stood in the code or the register before it was registered. -/
theorem not_handled_of_set (run : Run (Step act Others) (begun target call w mon) tr u) {id : ℕ}
    (hset : ∀ page env addresses sizes onAccess,
      call ≠ .monitor page env addresses sizes onAccess)
    (hdone : u.code = .done (.ok id)) : ¬ Throughout (fun u => Handled u.shared) tr u := by
  have hpasses : Passes Arms Returns (call.code target) := by
    cases call with
    | software env address onHit => exact passes_setSoftware _ _ _ _
    | hardware env address typeStr size onHit => exact passes_setHardware _ _ _ _ _ _
    | monitor page env addresses sizes onAccess => exact absurd rfl (hset _ _ _ _ _)
  intro h
  obtain ⟨x, hx, a, hown, harms⟩ := hpasses.taken run hdone ⟨id, rfl⟩
  exact harms _ ((handled_throughout_iff run).mp h x hx a hown)

end Runs

/-! ## §10  What becomes of the trap -/

section Claims

variable (target : Target) (dr6 : Option (BitVec 64))
  (hwOrder : List (Σ _ : Addr, HwBreakpointEntry)) (order : List (Σ _ : ℕ, MonitorEntry))
  (granted : Bool)

/-- The registered functions. -/
def invoke (s : Shared) : HandlerFn → ExceptionContext → HandleAction × ExceptionContext
  | .breakpointSigtrapHandler, ctx =>
      SoftwareBreakpoint.breakpointSigtrapHandler target s.w.bp ctx
  | .hwBpSigtrapHandler, ctx =>
      let (action, ctx, _) := HardwareBreakpoint.hwBpSigtrapHandler dr6 hwOrder s.w.hw ctx
      (action, ctx)
  | .monitorSegvHandler, ctx => ((monitorSegvHandler ctx order granted s.mon).1, ctx)

/-- What a thread that runs into the source reports. Of debug registers, those that stop
execution. -/
def Raises (s : Shared) (ctx : ExceptionContext) : Source → Prop
  | .int3 a => ctx.type = .breakpoint ∧ SoftwareBreakpoint.trapAddress target ctx.pc = a
  | .debug a => (ctx.type = .breakpoint ∨ ctx.type = .singleStep) ∧ ctx.pc = a ∧
      ∀ e, s.w.hw.hwByAddress.lookup a = some e → e.type = .execute ∧ e.trampolineCode ≠ 0
  | .page a => (ctx.type = .accessViolation ∨ ctx.type = .busError) ∧ ctx.faultAddress = a

/-- `g_handlers`, which breakpoints and monitors have in common. A call registers with one of
the two copies. -/
def chain (s : Shared) : Source → List HandlerEntry
  | .int3 _ | .debug _ => s.w.exc.handlers
  | .page _ => s.mon.exc.handlers

variable {target dr6 hwOrder order granted} {s : Shared} {src : Source} {ctx : ExceptionContext}

variable (dr6 hwOrder ctx) in
theorem hwBpSigtrapHandler_cases (h : HwState) :
    (HardwareBreakpoint.hwBpSigtrapHandler dr6 hwOrder h ctx).1 = .handled ∨
      (HardwareBreakpoint.hwBpSigtrapHandler dr6 hwOrder h ctx).2.1 = ctx := by
  unfold HardwareBreakpoint.hwBpSigtrapHandler
  cases hdr : dr6.bind (HardwareBreakpoint.triggered · hwOrder) <;>
    cases hl : h.hwByAddress.lookup ctx.pc
  · exact .inr rfl
  · simp only
    split_ifs
    · exact .inl rfl
    · exact .inr rfl
  · exact .inr rfl
  · simp only
    split_ifs <;> exact .inl rfl

/-- Those that pass leave the context alone. -/
theorem invoke_notHandled (f : HandlerFn) (ctx' : ExceptionContext)
    (h : invoke target dr6 hwOrder order granted s f ctx = (.notHandled, ctx')) : ctx' = ctx := by
  cases f with
  | breakpointSigtrapHandler =>
      simp only [invoke, SoftwareBreakpoint.breakpointSigtrapHandler] at h
      split at h
      · exact (Prod.mk.inj h).2.symm
      · cases (Prod.mk.inj h).1
  | hwBpSigtrapHandler =>
      obtain ⟨hpass, hctx⟩ := Prod.mk.inj h
      rcases hwBpSigtrapHandler_cases dr6 hwOrder ctx s.w.hw with hhandled | hsame
      · cases hhandled.symm.trans hpass
      · exact hctx.symm.trans hsame
  | monitorSegvHandler => exact (Prod.mk.inj h).2.symm

theorem invoke_int3 {a : Addr} (h : a ∈ s.w.bp.bpByAddress)
    (hraises : Raises target s ctx (.int3 a)) :
    (invoke target dr6 hwOrder order granted s .breakpointSigtrapHandler ctx).1 = .handled := by
  obtain ⟨e, he⟩ := Option.isSome_iff_exists.mp (AList.lookup_isSome.mpr h)
  obtain ⟨-, rfl⟩ := hraises
  simp only [invoke, SoftwareBreakpoint.breakpointSigtrapHandler, he]

theorem invoke_debug {a : Addr} (h : a ∈ s.w.hw.hwByAddress)
    (hraises : Raises target s ctx (.debug a)) :
    (invoke target dr6 hwOrder order granted s .hwBpSigtrapHandler ctx).1 = .handled := by
  obtain ⟨e, he⟩ := Option.isSome_iff_exists.mp (AList.lookup_isSome.mpr h)
  obtain ⟨-, rfl, hentry⟩ := hraises
  simp only [invoke, HardwareBreakpoint.hwBpSigtrapHandler, he, if_pos (hentry e he)]

theorem invoke_page {a : Addr} (h : Watched s.mon a) (hraises : Raises target s ctx (.page a))
    (horder : order.Perm s.mon.monitors.entries) :
    (invoke target dr6 hwOrder order granted s .monitorSegvHandler ctx).1 = .handled := by
  obtain ⟨k, m, hlookup, r, hr, hwatches⟩ := h.range
  rcases monitorSegvHandler_cases ctx order granted s.mon with ⟨hscan, -⟩ | ⟨f, -, heq⟩
  · have hmem := horder.mem_iff.mpr (AList.mem_lookup_iff.mp hlookup)
    exact absurd (hraises.2 ▸ hwatches) (scan_eq_none.mp hscan _ hmem r hr)
  · rw [invoke, heq]

/-- A source that can be claimed is claimed: its trap is not forwarded. -/
theorem Claimable.claimed (h : Claimable s src) (hraises : Raises target s ctx src)
    (horder : order.Perm s.mon.monitors.entries) :
    (dispatch (invoke target dr6 hwOrder order granted s) (chain s src) ctx).1 = .handled := by
  cases src with
  | int3 a =>
      obtain ⟨e, he, htype, hcallback⟩ := h.2
      refine dispatch_claimed invoke_notHandled he (htype.trans hraises.1.symm) ?_
      rw [hcallback]
      exact invoke_int3 h.1 hraises
  | debug a =>
      obtain ⟨hmem, hbreak, hstep⟩ := h
      have hchain : InChain s.w.exc ctx.type .hwBpSigtrapHandler := by
        rcases hraises.1 with htype | htype <;> rw [htype]
        · exact hbreak
        · exact hstep
      obtain ⟨e, he, htype, hcallback⟩ := hchain
      refine dispatch_claimed invoke_notHandled he htype ?_
      rw [hcallback]
      exact invoke_debug hmem hraises
  | page a =>
      have hchain : InChain s.mon.exc ctx.type .monitorSegvHandler := by
        rcases hraises.1 with htype | htype <;> rw [htype]
        · exact h.segv
        · exact h.bus
      obtain ⟨e, he, htype, hcallback⟩ := hchain
      refine dispatch_claimed invoke_notHandled he htype ?_
      rw [hcallback]
      exact invoke_page h hraises horder

end Claims

/-! ## §11  A breakpoint that is hit too early -/

section Concrete

/-- `set` at `0x1000`, with the trampoline at `0x6000`. -/
def setAt (relocated : Except String (Addr × ℕ)) : Call :=
  .software ⟨0x10, relocated, .ok 0x6000, .ok⟩ 0x1000 0

def atStart : World := .start (fun _ => 0x90) defaultActions

def noMonitors : MonitorState := .start (.start defaultActions) fun _ => .readWrite

/-- A thread that has executed the byte at `0x1000`. -/
def pastTrap : SigInfo := ⟨.other, 0, false, 0x1001⟩

def executes : Touch := .execute (buildContextFromSignal TrapRouting.linuxX64 .sigtrap pastTrap)

theorem others_executes (s : Shared) : Others s executes s := .execute

/-- `relocateCode` fails, and nothing is ever armed. -/
theorem handled_unrelocated : ∃ tr u, Run (Step act Others)
      (begun TrapRouting.linuxX64 (setAt (.error "Failed to relocate")) atStart noMonitors) tr u ∧
    tr.map Prod.snd = [.own .skip, .own .ensureHandlerInstalled, .own (.allocate 0x10),
      .other executes, .own (.delete 0x10)] ∧
    Throughout (fun u => Handled u.shared) tr u := by
  have run : Run (Step act Others) (begun TrapRouting.linuxX64
    (setAt (.error "Failed to relocate")) atStart noMonitors) [] _ := .nil
  have run := ((run.snoc .own).snoc .own).snoc .own
  have run := (run.snoc (.other (others_executes _))).snoc .own
  refine ⟨_, _, run, rfl, (handled_throughout_iff run).mpr ?_⟩
  simp only [guarded_snoc]
  refine ⟨⟨⟨⟨⟨fun p hp => absurd hp List.not_mem_nil, ?_⟩, ?_⟩, ?_⟩, ?_⟩, ?_⟩ <;>
    rintro a ⟨⟩ <;> trivial

/-- Between `memcpy` and the insertion into `g_bpByAddress` a thread gets to `0x1000`. The chain
passes, and the default action ends the process. -/
theorem traps_unregistered : ∃ tr u, Run (Step act Others)
      (begun TrapRouting.linuxX64 (setAt (.ok (0x5000, 4))) atStart noMonitors) tr u ∧
    tr.map Prod.snd = [.own .skip, .own .ensureHandlerInstalled, .own (.allocate 0x10),
      .own (.addCode 0x5000), .own (.addCode 0x6000), .own (.writeTrap .x64 0x1000),
      .other executes] ∧
    ¬ Handled u.shared ∧
    (globalSignalHandler (invoke TrapRouting.linuxX64 none [] [] true u.shared)
      TrapRouting.linuxX64 u.shared.w.exc .sigtrap pastTrap).1 = some .resetAndRaise := by
  have run : Run (Step act Others) (begun TrapRouting.linuxX64
    (setAt (.ok (0x5000, 4))) atStart noMonitors) [] _ := .nil
  have run := ((run.snoc .own).snoc .own).snoc .own
  have run := ((run.snoc .own).snoc .own).snoc .own
  have run := run.snoc (.other (others_executes _))
  refine ⟨_, _, run, rfl, fun h => ?_, rfl⟩
  exact absurd (h (.int3 0x1000) (Set.mem_insert _ _)).1 (by decide)

end Concrete

end ArmingOrder

end Chromatic
