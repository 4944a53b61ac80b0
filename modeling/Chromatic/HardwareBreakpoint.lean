import Chromatic.CodePatching
import Chromatic.ExceptionHandler
import Chromatic.Foundation.Slots

/-!
# Hardware breakpoints

`NativeHardwareBreakpoint::set`, `remove` and `removeAll`, and the debug trap
handler. The Linux build asks for a perf event for each breakpoint, which the kernel
refuses; the Windows and macOS builds hand out the four debug registers.

§1 types and slots · §2 the trap handler · §3 registering it · §4 set ·
§5 remove and removeAll · §6 frame conditions · §7 what set does.
-/

namespace Chromatic

open Foundation

namespace HardwareBreakpoint

/-! ## §1  Types and slots -/

def parseType (s : String) : Except String HwBpType :=
  if s = "execute" then .ok .execute
  else if s = "write" then .ok .write
  else if s = "readwrite" then .ok .readWrite
  else .error ("Invalid hardware breakpoint type: " ++ s ++
    ". Use 'execute', 'write', or 'readwrite'")

def platformMaxBreakpoints (target : Target) : ℕ :=
  if target = ⟨.arm64, .darwin⟩ then 0 else 4

def findFreeSlot (usedSlots : BitVec 32) : Option (Fin 4) :=
  (List.finRange 4).find? fun i => !usedSlots.getLsbD i

/-! ## §2  The trap handler -/

/-- The loop over the set bits of DR6: the first entry, in the map's order, that
holds the lowest triggered slot. -/
def triggered (dr6 : BitVec 64) (order : List (Σ _ : Addr, HwBreakpointEntry)) :
    Option HwBreakpointEntry :=
  (List.finRange 4).findSome? fun slot =>
    if dr6.getLsbD slot then (order.find? (·.2.slot = some slot)).map (·.2) else none

/-- Also returned is the watchpoint callback called inside the handler. `dr6` is
`none` where the build or the platform does not provide it. -/
def hwBpSigtrapHandler (dr6 : Option (BitVec 64))
    (order : List (Σ _ : Addr, HwBreakpointEntry)) (h : HwState)
    (ctx : ExceptionHandler.ExceptionContext) :
    HandleAction × ExceptionHandler.ExceptionContext × Option Callback :=
  let watchpoint := match dr6.bind (triggered · order) with
    | none => (.notHandled, ctx, none)
    | some entry => (.handled, ctx, some entry.onHit)
  match h.hwByAddress.lookup ctx.pc with
  | none => watchpoint
  | some entry =>
      if entry.type = .execute ∧ entry.trampolineCode ≠ 0 then
        (.handled, { ctx with pc := entry.trampolineCode }, none)
      else watchpoint

/-! ## §3  Registering it -/

/-- Two registrations, of which only the first identifier is kept. -/
def ensureHwHandlerInstalled (w : World) : World :=
  if w.hw.hwHandlerInstalled then w
  else
    let exc := ExceptionHandler.refEnable w.exc
    let (id, exc) := ExceptionHandler.registerHandler .breakpoint .hwBpSigtrapHandler exc
    let (_, exc) := ExceptionHandler.registerHandler .singleStep .hwBpSigtrapHandler exc
    { w with
      exc := exc
      hw := { w.hw with hwHandlerId := id, hwHandlerInstalled := true } }

def maybeRemoveHwHandler (w : World) : World :=
  if w.hw.hwHandlerInstalled = false ∨ w.hw.hwByAddress.entries ≠ [] then w
  else
    let exc := ExceptionHandler.unregisterHandler w.hw.hwHandlerId w.exc
    { w with
      exc := ExceptionHandler.refDisable exc
      hw := { w.hw with hwHandlerInstalled := false, hwHandlerId := 0 } }

/-! ## §4  set -/

/-- What the calls inside `set` answer: `new`, `buildRelocatedCode` and
`buildTrampoline`, and what `perf_event_open` would for an event that it accepts. -/
structure Install where
  self : Addr
  relocated : Except String (Addr × ℕ)
  trampoline : Except String Addr
  perfFd : ℤ

/-- The relocated code and the trampoline of an execute breakpoint; null pointers
for a watchpoint. -/
def buildBlocks (env : Install) (type : HwBpType) (w : World) :
    Except String (Addr × Addr) × World :=
  if type = .execute then
    match env.relocated with
    | .error e => (.error e, w.delete env.self)
    | .ok (relocatedCode, _) =>
      let w := w.addCode relocatedCode
      match env.trampoline with
      | .error e => (.error e, (w.releaseCode relocatedCode).delete env.self)
      | .ok trampolineCode => (.ok (relocatedCode, trampolineCode), w.addCode trampolineCode)
  else (.ok (0, 0), w)

/-- The fields of `perf_event_attr` that decide about a breakpoint event. -/
structure PerfEventAttr where
  bpType : HwBpType
  bpAddr : Addr
  bpLen : ℤ
  disabled : Bool
  excludeKernel : Bool
  excludeHv : Bool
  sigtrap : Bool
  removeOnExec : Bool
deriving DecidableEq, Repr

/-- What `linuxSetHwBp` asks for. `bp_len` is `sizeof(long)` for an execute breakpoint. -/
def perfEventAttr (addr : Addr) (type : HwBpType) (bpSize : ℤ) : PerfEventAttr where
  bpType := type
  bpAddr := addr
  bpLen := if type = .execute then 8 else bpSize
  disabled := true
  excludeKernel := true
  excludeHv := true
  sigtrap := true
  removeOnExec := false

/-- `perf_event_open`, with what the kernel answers if the attributes are in order: an event that
raises signals must not outlive an `exec`, which it answers with `EINVAL`. -/
def perfEventOpen (attr : PerfEventAttr) (answer : ℤ) : ℤ :=
  if attr.sigtrap && !attr.removeOnExec then -1 else answer

def linuxSetHwBp (addr : Addr) (type : HwBpType) (bpSize answer : ℤ) : Except String ℤ :=
  let fd := perfEventOpen (perfEventAttr addr type bpSize) answer
  if fd < 0 then .error "perf_event_open failed for hardware breakpoint" else .ok fd

/-- The event raises signals and is not removed on `exec`: the kernel has it never opened. -/
theorem linuxSetHwBp_refused (addr : Addr) (type : HwBpType) (bpSize answer : ℤ) :
    linuxSetHwBp addr type bpSize answer =
      .error "perf_event_open failed for hardware breakpoint" := rfl

/-- The platform call: a descriptor or a slot, and the slot is taken. -/
def arm (os : Os) (addr : Addr) (type : HwBpType) (bpSize perfFd : ℤ) (h : HwState) :
    Except String (ℤ × Option (Fin 4)) × HwState :=
  match os with
  | .linux =>
      match linuxSetHwBp addr type bpSize perfFd with
      | .error e => (.error e, h)
      | .ok fd => (.ok (fd, none), h)
  | .darwin | .windows =>
      match findFreeSlot h.usedSlots with
      | none => (.error "No free hardware breakpoint slots", h)
      | some slot =>
          (.ok (-1, some slot),
            { h with usedSlots := h.usedSlots ||| (1 <<< (slot : ℕ)) })

def set (target : Target) (env : Install) (address : Addr) (typeStr : String) (size : ℤ)
    (onHit : Callback) (w : World) : Except String ℕ × World :=
  if target = ⟨.arm64, .darwin⟩ then
    (.error ("Hardware breakpoints not supported on macOS ARM64. " ++
      "Use SoftwareBreakpoint instead."), w)
  else
    match parseType typeStr with
    | .error e => (.error e, w)
    | .ok type =>
      if address ∈ w.hw.hwByAddress then
        (.error ("Hardware breakpoint already set at " ++ toHexAddr address.toNat), w)
      else if platformMaxBreakpoints target ≤ w.hw.hwByAddress.entries.length then
        (.error ("Maximum hardware breakpoints reached (" ++
          toString (platformMaxBreakpoints target) ++ ")"), w)
      else
        let w := (ensureHwHandlerInstalled w).allocate env.self
        match buildBlocks env type w with
        | (.error e, w) => (.error e, w)
        | (.ok (relocatedCode, trampolineCode), w) =>
          match arm target.os address type size env.perfFd w.hw with
          | (.error e, _) =>
            (.error e,
              ((w.releaseCode trampolineCode).releaseCode relocatedCode).delete env.self)
          | (.ok (perfFd, slot), hw) =>
            let entry : HwBreakpointEntry :=
              { self := env.self, address := address, type := type, size := size,
                onHit := onHit, perfFd := perfFd, slot := slot,
                trampolineCode := trampolineCode, relocatedCode := relocatedCode }
            (.ok hw.nextHwId,
              { w with hw := { hw with
                  nextHwId := hw.nextHwId + 1
                  hwById := hw.hwById.insert hw.nextHwId entry
                  hwByAddress := hw.hwByAddress.insert address entry } })

/-! ## §5  remove and removeAll -/

/-- The slot is free again, the blocks are released and the entry deleted. -/
def releaseEntry (entry : HwBreakpointEntry) (w : World) : World :=
  let used := match entry.slot with
    | none => w.hw.usedSlots
    | some slot => w.hw.usedSlots &&& ~~~((1 : BitVec 32) <<< (slot : ℕ))
  (({ w with hw := { w.hw with usedSlots := used } }.releaseCode
    entry.trampolineCode).releaseCode entry.relocatedCode).delete entry.self

def remove (bpId : ℕ) (w : World) : World :=
  match w.hw.hwById.lookup bpId with
  | none => w
  | some entry =>
    let w := releaseEntry entry w
    maybeRemoveHwHandler { w with hw := { w.hw with
      hwByAddress := w.hw.hwByAddress.erase entry.address
      hwById := w.hw.hwById.erase bpId } }

/-- The loop over `g_hwById`, in the order given. -/
def releaseAll (order : List (Σ _ : ℕ, HwBreakpointEntry)) (w : World) : World :=
  order.foldl (fun w e => releaseEntry e.2 w) w

def removeAll (order : List (Σ _ : ℕ, HwBreakpointEntry)) (w : World) : World :=
  let w := releaseAll order w
  maybeRemoveHwHandler { w with hw := { w.hw with hwById := ∅, hwByAddress := ∅ } }

/-! ## §6  Frame conditions -/

/-- Code and the registries of the other subsystems are as they were. -/
structure Frame (w w' : World) : Prop where
  code : w'.code = w.code
  bp : w'.bp = w.bp
  hooks : w'.hooks = w.hooks

theorem Frame.trans {w₁ w₂ w₃ : World} (h : Frame w₁ w₂) (h' : Frame w₂ w₃) :
    Frame w₁ w₃ :=
  ⟨h'.code.trans h.code, h'.bp.trans h.bp, h'.hooks.trans h.hooks⟩

theorem maybeRemoveHwHandler_frame (w : World) : Frame w (maybeRemoveHwHandler w) := by
  unfold maybeRemoveHwHandler
  split
  · exact ⟨rfl, rfl, rfl⟩
  · exact ⟨rfl, rfl, rfl⟩

theorem releaseEntry_frame (entry : HwBreakpointEntry) (w : World) :
    Frame w (releaseEntry entry w) := by
  constructor <;> simp [releaseEntry]

section Frame

variable (w : World) (entry : HwBreakpointEntry)

@[simp] theorem ensureHwHandlerInstalled_bp : (ensureHwHandlerInstalled w).bp = w.bp := by
  unfold ensureHwHandlerInstalled; split <;> rfl

@[simp] theorem ensureHwHandlerInstalled_hwByAddress :
    (ensureHwHandlerInstalled w).hw.hwByAddress = w.hw.hwByAddress := by
  unfold ensureHwHandlerInstalled; split <;> rfl

@[simp] theorem ensureHwHandlerInstalled_usedSlots :
    (ensureHwHandlerInstalled w).hw.usedSlots = w.hw.usedSlots := by
  unfold ensureHwHandlerInstalled; split <;> rfl

@[simp] theorem ensureHwHandlerInstalled_hwById :
    (ensureHwHandlerInstalled w).hw.hwById = w.hw.hwById := by
  unfold ensureHwHandlerInstalled; split <;> rfl

@[simp] theorem ensureHwHandlerInstalled_nextHwId :
    (ensureHwHandlerInstalled w).hw.nextHwId = w.hw.nextHwId := by
  unfold ensureHwHandlerInstalled; split <;> rfl

theorem ensureHwHandlerInstalled_installed :
    (ensureHwHandlerInstalled w).hw.hwHandlerInstalled = true := by
  unfold ensureHwHandlerInstalled
  split
  · assumption
  · rfl

@[simp] theorem maybeRemoveHwHandler_hwByAddress :
    (maybeRemoveHwHandler w).hw.hwByAddress = w.hw.hwByAddress := by
  unfold maybeRemoveHwHandler; split <;> rfl

@[simp] theorem maybeRemoveHwHandler_hwById :
    (maybeRemoveHwHandler w).hw.hwById = w.hw.hwById := by
  unfold maybeRemoveHwHandler; split <;> rfl

@[simp] theorem maybeRemoveHwHandler_nextHwId :
    (maybeRemoveHwHandler w).hw.nextHwId = w.hw.nextHwId := by
  unfold maybeRemoveHwHandler; split <;> rfl

@[simp] theorem maybeRemoveHwHandler_usedSlots :
    (maybeRemoveHwHandler w).hw.usedSlots = w.hw.usedSlots := by
  unfold maybeRemoveHwHandler; split <;> rfl

@[simp] theorem releaseEntry_exc : (releaseEntry entry w).exc = w.exc := by
  simp [releaseEntry]

@[simp] theorem releaseEntry_bp : (releaseEntry entry w).bp = w.bp := by
  simp [releaseEntry]

@[simp] theorem releaseEntry_hwByAddress :
    (releaseEntry entry w).hw.hwByAddress = w.hw.hwByAddress := by
  simp [releaseEntry]

@[simp] theorem releaseEntry_hwById :
    (releaseEntry entry w).hw.hwById = w.hw.hwById := by
  simp [releaseEntry]

@[simp] theorem releaseEntry_nextHwId :
    (releaseEntry entry w).hw.nextHwId = w.hw.nextHwId := by
  simp [releaseEntry]

theorem releaseEntry_usedSlots :
    (releaseEntry entry w).hw.usedSlots = match entry.slot with
      | none => w.hw.usedSlots
      | some i => w.hw.usedSlots &&& ~~~((1 : BitVec 32) <<< (i : ℕ)) := by
  simp [releaseEntry]

@[simp] theorem releaseEntry_hwHandlerId :
    (releaseEntry entry w).hw.hwHandlerId = w.hw.hwHandlerId := by
  simp [releaseEntry]

@[simp] theorem releaseEntry_hwHandlerInstalled :
    (releaseEntry entry w).hw.hwHandlerInstalled = w.hw.hwHandlerInstalled := by
  simp [releaseEntry]

end Frame

theorem releaseAll_frame (order : List (Σ _ : ℕ, HwBreakpointEntry)) (w : World) :
    Frame w (releaseAll order w) := by
  induction order generalizing w with
  | nil => exact ⟨rfl, rfl, rfl⟩
  | cons e rest ih => exact (releaseEntry_frame e.2 w).trans (ih (releaseEntry e.2 w))

theorem removeAll_frame (order : List (Σ _ : ℕ, HwBreakpointEntry)) (w : World) :
    Frame w (removeAll order w) := by
  have released := releaseAll_frame order w
  have cleared : Frame w { releaseAll order w with
      hw := { (releaseAll order w).hw with hwById := ∅, hwByAddress := ∅ } } :=
    ⟨released.code, released.bp, released.hooks⟩
  exact cleared.trans (maybeRemoveHwHandler_frame _)

/-! ## §7  What set does -/

/-- Only blocks and allocations differ. -/
structure Aside (w w' : World) : Prop where
  exc : w'.exc = w.exc
  bp : w'.bp = w.bp
  hw : w'.hw = w.hw

theorem buildBlocks_aside (env : Install) (type : HwBpType) (w : World) :
    Aside w (buildBlocks env type w).2 := by
  unfold buildBlocks
  by_cases htype : type = .execute
  · rw [if_pos htype]
    cases env.relocated with
    | error e => exact ⟨rfl, rfl, rfl⟩
    | ok block =>
        cases env.trampoline with
        | error e => exact ⟨by simp, by simp, by simp⟩
        | ok trampolineCode => exact ⟨rfl, rfl, rfl⟩
  · rw [if_neg htype]
    exact ⟨rfl, rfl, rfl⟩

theorem buildBlocks_execute {env : Install} {type : HwBpType} {w : World}
    {relocatedCode trampolineCode : Addr} (htype : type = .execute)
    (h : (buildBlocks env type w).1 = .ok (relocatedCode, trampolineCode)) :
    env.trampoline = .ok trampolineCode := by
  unfold buildBlocks at h
  rw [if_pos htype] at h
  cases hr : env.relocated with
  | error e => simp [hr] at h
  | ok block =>
      cases ht : env.trampoline with
      | error e => simp [hr, ht] at h
      | ok t =>
          simp only [hr, ht, Except.ok.injEq, Prod.mk.injEq] at h
          rw [h.2]

/-- A new entry and at most one more slot in use. -/
structure Live (env : Install) (address : Addr) (w w' : World) (entry : HwBreakpointEntry) :
    Prop where
  address_eq : entry.address = address
  trampoline : entry.type = .execute → env.trampoline = .ok entry.trampolineCode
  exc : w'.exc = w.exc
  bp : w'.bp = w.bp
  byId : w'.hw.hwById = w.hw.hwById.insert w.hw.nextHwId entry
  byAddress : w'.hw.hwByAddress = w.hw.hwByAddress.insert address entry
  nextId : w'.hw.nextHwId = w.hw.nextHwId + 1
  handlerId : w'.hw.hwHandlerId = w.hw.hwHandlerId
  installed : w'.hw.hwHandlerInstalled = w.hw.hwHandlerInstalled

/-- How a breakpoint holds its slot: `used` are the slots in use before and `used'` those
after. The Linux build has none. -/
def Taken (os : Os) (used : BitVec 32) (slot : Option (Fin 4)) (used' : BitVec 32) : Prop :=
  match slot with
  | none => os = .linux ∧ used' = used
  | some i => os ≠ .linux ∧ findFreeSlot used = some i ∧ used' = used ||| (1 <<< (i : ℕ))

/-- The register handed out was free. -/
theorem findFreeSlot_free {used : BitVec 32} {i : Fin 4} (h : findFreeSlot used = some i) :
    used.getLsbD i = false := by
  simpa using List.find?_some h

section Taken

variable {os : Os} {used used' : BitVec 32} {slot : Option (Fin 4)} {i j : Fin 4}

theorem Taken.slot_none (h : Taken os used slot used') : slot = none ↔ os = .linux := by
  cases slot with
  | none => exact iff_of_true rfl h.1
  | some i => exact iff_of_false (by simp) h.1

theorem Taken.getLsbD_bit (h : Taken os used (some i) used') {k : ℕ} (hk : k < 32) :
    used'.getLsbD k = (used.getLsbD k || decide (k = i)) := by
  have hshift : ((1 <<< (i : ℕ) : ℕ) : BitVec 32) = (1 : BitVec 32) <<< (i : ℕ) := by
    apply BitVec.eq_of_toNat_eq
    simp
  rw [h.2.2, hshift, getLsbD_take used hk]

theorem Taken.getLsbD (h : Taken os used (some i) used') (j : Fin 4) :
    used'.getLsbD j = (used.getLsbD j || decide (j = i)) := by
  rw [h.getLsbD_bit (by omega)]
  simp [Fin.ext_iff]

/-- Registers in use stay in use. -/
theorem Taken.mono (h : Taken os used slot used') (hj : used.getLsbD j = true) :
    used'.getLsbD j = true := by
  cases slot with
  | none => rwa [h.2]
  | some i => rw [h.getLsbD, hj, Bool.true_or]

theorem Taken.fresh (h : Taken os used (some i) used') : used.getLsbD i = false :=
  findFreeSlot_free h.2.1

theorem Taken.inUse (h : Taken os used (some i) used') : used'.getLsbD i = true := by
  simp [h.getLsbD]

end Taken

theorem arm_cases (os : Os) (addr : Addr) (type : HwBpType) (bpSize perfFd : ℤ) (h : HwState) :
    (∃ e, arm os addr type bpSize perfFd h = (.error e, h)) ∨
    ∃ fd slot used,
      arm os addr type bpSize perfFd h = (.ok (fd, slot), { h with usedSlots := used }) ∧
      Taken os h.usedSlots slot used := by
  unfold arm
  cases os with
  | linux =>
      cases linuxSetHwBp addr type bpSize perfFd with
      | error e => exact Or.inl ⟨e, rfl⟩
      | ok fd => exact Or.inr ⟨fd, none, h.usedSlots, rfl, rfl, rfl⟩
  | darwin =>
      cases hfree : findFreeSlot h.usedSlots with
      | none => exact Or.inl ⟨_, rfl⟩
      | some i => exact Or.inr ⟨-1, some i, _, rfl, by decide, hfree, rfl⟩
  | windows =>
      cases hfree : findFreeSlot h.usedSlots with
      | none => exact Or.inl ⟨_, rfl⟩
      | some i => exact Or.inr ⟨-1, some i, _, rfl, by decide, hfree, rfl⟩

/-- On every target `set` fails before anything happens, or fails with the handler
registered, or makes the breakpoint live. -/
theorem set_target_cases (target : Target) (env : Install) (address : Addr)
    (typeStr : String) (size : ℤ) (onHit : Callback) (w : World) :
    (set target env address typeStr size onHit w).2 = w ∨
    Aside (ensureHwHandlerInstalled w) (set target env address typeStr size onHit w).2 ∨
    ∃ entry, address ∉ w.hw.hwByAddress ∧ parseType typeStr = .ok entry.type ∧
      Taken target.os w.hw.usedSlots entry.slot
        (set target env address typeStr size onHit w).2.hw.usedSlots ∧
      Live env address (ensureHwHandlerInstalled w)
        (set target env address typeStr size onHit w).2 entry := by
  unfold set
  by_cases hunsupported : target = ⟨.arm64, .darwin⟩
  · rw [if_pos hunsupported]
    exact Or.inl rfl
  · rw [if_neg hunsupported]
    cases htype : parseType typeStr with
    | error e => exact Or.inl rfl
    | ok type =>
        by_cases hmem : address ∈ w.hw.hwByAddress
        · simp only [if_pos hmem]
          exact Or.inl trivial
        · simp only [if_neg hmem]
          by_cases hmax : platformMaxBreakpoints target ≤ w.hw.hwByAddress.entries.length
          · simp only [if_pos hmax]
            exact Or.inl trivial
          · simp only [if_neg hmax]
            right
            -- whatever building the blocks answers, it leaves the registries alone
            have haside := buildBlocks_aside env type
              ((ensureHwHandlerInstalled w).allocate env.self)
            have hexecute := @buildBlocks_execute env type
              ((ensureHwHandlerInstalled w).allocate env.self)
            generalize buildBlocks env type ((ensureHwHandlerInstalled w).allocate env.self) =
              result at *
            obtain ⟨answer, w₁⟩ := result
            obtain ⟨hexc, hbp, hhw⟩ := haside
            cases answer with
            | error e => exact Or.inl ⟨hexc, hbp, hhw⟩
            | ok blocks =>
                obtain ⟨relocatedCode, trampolineCode⟩ := blocks
                have hstate : w₁.hw = (ensureHwHandlerInstalled w).hw := hhw
                rcases arm_cases target.os address type size env.perfFd w₁.hw with
                  ⟨e, harm⟩ | ⟨fd, slot, used, harm, htaken⟩
                · simp only [harm]
                  exact Or.inl ⟨by simpa using hexc, by simpa using hbp, by simpa using hhw⟩
                · simp only [harm]
                  rw [hstate, ensureHwHandlerInstalled_usedSlots] at htaken
                  refine Or.inr ⟨⟨env.self, address, type, size, onHit, fd, slot,
                    trampolineCode, relocatedCode⟩, hmem, rfl, htaken, rfl,
                    fun he => hexecute he rfl, hexc, hbp, ?_, ?_, ?_, ?_, ?_⟩ <;> simp [hstate]

theorem set_linux_cases (env : Install) (address : Addr) (typeStr : String) (size : ℤ)
    (onHit : Callback) (w : World) :
    (set ⟨.x64, .linux⟩ env address typeStr size onHit w).2 = w ∨
    Aside (ensureHwHandlerInstalled w) (set ⟨.x64, .linux⟩ env address typeStr size onHit w).2 ∨
    ∃ entry, Live env address (ensureHwHandlerInstalled w)
      (set ⟨.x64, .linux⟩ env address typeStr size onHit w).2 entry := by
  rcases set_target_cases ⟨.x64, .linux⟩ env address typeStr size onHit w with
    hsame | haside | ⟨entry, -, -, -, hlive⟩
  · exact Or.inl hsame
  · exact Or.inr (Or.inl haside)
  · exact Or.inr (Or.inr ⟨entry, hlive⟩)

end HardwareBreakpoint

end Chromatic
