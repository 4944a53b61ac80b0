import Chromatic.CodePatching
import Chromatic.ExceptionHandler

/-!
# Software breakpoints

`NativeSoftwareBreakpoint::set`, `remove` and `removeAll`, and the trap handler
that redirects to a breakpoint's trampoline.

§1 the trap handler · §2 registering it · §3 set · §4 remove · §5 removeAll ·
§6 what each operation does.
-/

namespace Chromatic

open Foundation

namespace SoftwareBreakpoint

/-! ## §1  The trap handler -/

/-- The address a breakpoint trap is attributed to: `INT3` has advanced the
saved program counter by one, except on Windows; `BRK` has not. -/
def trapAddress (target : Target) (pc : Addr) : Addr :=
  if target.arch = .x64 ∧ target.os ≠ .windows then pc - 1 else pc

def breakpointSigtrapHandler (target : Target) (b : BreakpointState)
    (ctx : ExceptionHandler.ExceptionContext) :
    HandleAction × ExceptionHandler.ExceptionContext :=
  match b.bpByAddress.lookup (trapAddress target ctx.pc) with
  | none => (.notHandled, ctx)
  | some entry => (.handled, { ctx with pc := entry.trampolineCode })

/-! ## §2  Registering it -/

def ensureHandlerInstalled (w : World) : World :=
  if w.bp.handlerInstalled then w
  else
    let exc := ExceptionHandler.refEnable w.exc
    let (id, exc) :=
      ExceptionHandler.registerHandler .breakpoint .breakpointSigtrapHandler exc
    { w with
      exc := exc
      bp := { w.bp with sigtrapHandlerId := id, handlerInstalled := true } }

def maybeRemoveHandler (w : World) : World :=
  if w.bp.handlerInstalled = false ∨ w.bp.bpByAddress.entries ≠ [] then w
  else
    let exc := ExceptionHandler.unregisterHandler w.bp.sigtrapHandlerId w.exc
    { w with
      exc := ExceptionHandler.refDisable exc
      bp := { w.bp with handlerInstalled := false, sigtrapHandlerId := 0 } }

/-! ## §3  set -/

/-- What the calls inside an installation answer: `new`, `buildRelocatedCode`
(the block and the bytes consumed), `buildTrampoline` and the patch. -/
structure Install where
  self : Addr
  relocated : Except String (Addr × ℕ)
  trampoline : Except String Addr
  patch : PatchOutcome

def set (arch : Arch) (env : Install) (address : Addr) (onHit : Callback) (w : World) :
    Except String ℕ × World :=
  if address ∈ w.bp.bpByAddress then
    (.error ("Software breakpoint already set at " ++ toHexAddr address.toNat), w)
  else
    let w := (ensureHandlerInstalled w).allocate env.self
    let originalBytes := readBytes w.code address arch.bpInsnSize
    match env.relocated with
    | .error e => (.error e, w.delete env.self)
    | .ok (relocatedCode, bytesConsumed) =>
      let w := w.addCode relocatedCode
      match env.trampoline with
      | .error e => (.error e, (w.releaseCode relocatedCode).delete env.self)
      | .ok trampolineCode =>
        let w := w.addCode trampolineCode
        match makeWritableAndPatch env.patch address (bpInsn arch) w with
        | (.error e, w) => (.error e, w)
        | (.ok (), w) =>
          let entry : BreakpointEntry :=
            { self := env.self, address := address, originalBytes := originalBytes,
              originalInsnSize := bytesConsumed, trampolineCode := trampolineCode,
              relocatedCode := relocatedCode, onHit := onHit }
          (.ok w.bp.nextBpId,
            { w with bp := { w.bp with
                nextBpId := w.bp.nextBpId + 1
                bpById := w.bp.bpById.insert w.bp.nextBpId entry
                bpByAddress := w.bp.bpByAddress.insert address entry } })

/-! ## §4  remove -/

/-- `releaseCode` on both blocks, then `delete entry`. -/
def releaseEntry (entry : BreakpointEntry) (w : World) : World :=
  ((w.releaseCode entry.trampolineCode).releaseCode entry.relocatedCode).delete entry.self

def remove (arch : Arch) (patch : PatchOutcome) (bpId : ℕ) (w : World) :
    Except String Unit × World :=
  match w.bp.bpById.lookup bpId with
  | none => (.ok (), w)
  | some entry =>
    match makeWritableAndPatch patch entry.address
        (entry.originalBytes.take arch.bpInsnSize) w with
    | (.error e, w) => (.error e, w)
    | (.ok (), w) =>
      let w := releaseEntry entry w
      (.ok (), maybeRemoveHandler { w with bp := { w.bp with
        bpByAddress := w.bp.bpByAddress.erase entry.address
        bpById := w.bp.bpById.erase bpId } })

/-! ## §5  removeAll -/

/-- The loop over `g_bpById`, in the order given. A refused patch leaves it with
both maps as they were. -/
def restoreAll (arch : Arch) (patch : Addr → PatchOutcome) :
    List (Σ _ : ℕ, BreakpointEntry) → World → Except String Unit × World
  | [], w => (.ok (), w)
  | ⟨_, entry⟩ :: rest, w =>
    match makeWritableAndPatch (patch entry.address) entry.address
        (entry.originalBytes.take arch.bpInsnSize) w with
    | (.error e, w) => (.error e, w)
    | (.ok (), w) => restoreAll arch patch rest (releaseEntry entry w)

def removeAll (arch : Arch) (patch : Addr → PatchOutcome)
    (order : List (Σ _ : ℕ, BreakpointEntry)) (w : World) : Except String Unit × World :=
  match restoreAll arch patch order w with
  | (.error e, w) => (.error e, w)
  | (.ok (), w) =>
    (.ok (), maybeRemoveHandler { w with bp := { w.bp with bpById := ∅, bpByAddress := ∅ } })

/-! ## §6  What each operation does to code and registries -/

section Frame

variable (w : World) (entry : BreakpointEntry)

@[simp] theorem ensureHandlerInstalled_code : (ensureHandlerInstalled w).code = w.code := by
  unfold ensureHandlerInstalled; split <;> rfl

@[simp] theorem ensureHandlerInstalled_hooks :
    (ensureHandlerInstalled w).hooks = w.hooks := by
  unfold ensureHandlerInstalled; split <;> rfl

@[simp] theorem ensureHandlerInstalled_bpById :
    (ensureHandlerInstalled w).bp.bpById = w.bp.bpById := by
  unfold ensureHandlerInstalled; split <;> rfl

@[simp] theorem ensureHandlerInstalled_bpByAddress :
    (ensureHandlerInstalled w).bp.bpByAddress = w.bp.bpByAddress := by
  unfold ensureHandlerInstalled; split <;> rfl

@[simp] theorem ensureHandlerInstalled_nextBpId :
    (ensureHandlerInstalled w).bp.nextBpId = w.bp.nextBpId := by
  unfold ensureHandlerInstalled; split <;> rfl

theorem ensureHandlerInstalled_installed :
    (ensureHandlerInstalled w).bp.handlerInstalled = true := by
  unfold ensureHandlerInstalled
  split
  · assumption
  · rfl

@[simp] theorem maybeRemoveHandler_code : (maybeRemoveHandler w).code = w.code := by
  unfold maybeRemoveHandler; split <;> rfl

@[simp] theorem maybeRemoveHandler_hooks : (maybeRemoveHandler w).hooks = w.hooks := by
  unfold maybeRemoveHandler; split <;> rfl

@[simp] theorem maybeRemoveHandler_bpById :
    (maybeRemoveHandler w).bp.bpById = w.bp.bpById := by
  unfold maybeRemoveHandler; split <;> rfl

@[simp] theorem maybeRemoveHandler_bpByAddress :
    (maybeRemoveHandler w).bp.bpByAddress = w.bp.bpByAddress := by
  unfold maybeRemoveHandler; split <;> rfl

@[simp] theorem maybeRemoveHandler_nextBpId :
    (maybeRemoveHandler w).bp.nextBpId = w.bp.nextBpId := by
  unfold maybeRemoveHandler; split <;> rfl

@[simp] theorem releaseEntry_code : (releaseEntry entry w).code = w.code := by
  simp [releaseEntry]

@[simp] theorem releaseEntry_bp : (releaseEntry entry w).bp = w.bp := by
  simp [releaseEntry]

@[simp] theorem releaseEntry_hooks : (releaseEntry entry w).hooks = w.hooks := by
  simp [releaseEntry]

end Frame

section FrameHw

variable (w : World) (entry : BreakpointEntry)

@[simp] theorem ensureHandlerInstalled_hw : (ensureHandlerInstalled w).hw = w.hw := by
  unfold ensureHandlerInstalled; split <;> rfl

@[simp] theorem maybeRemoveHandler_hw : (maybeRemoveHandler w).hw = w.hw := by
  unfold maybeRemoveHandler; split <;> rfl

@[simp] theorem releaseEntry_hw : (releaseEntry entry w).hw = w.hw := by
  simp [releaseEntry]

@[simp] theorem releaseEntry_exc : (releaseEntry entry w).exc = w.exc := by
  simp [releaseEntry]

end FrameHw

/-- Code, hooks and breakpoint maps are as they were. -/
structure Unchanged (w w' : World) : Prop where
  code : w'.code = w.code
  hooks : w'.hooks = w.hooks
  byId : w'.bp.bpById = w.bp.bpById
  byAddress : w'.bp.bpByAddress = w.bp.bpByAddress
  nextId : w'.bp.nextBpId = w.bp.nextBpId

/-- `entry` went live: it saved the bytes it overwrote. -/
structure Installed (arch : Arch) (entry : BreakpointEntry) (w w' : World) : Prop where
  free : entry.address ∉ w.bp.bpByAddress
  saved : entry.originalBytes = readBytes w.code entry.address arch.bpInsnSize
  code : w'.code = writeBytes w.code entry.address (bpInsn arch)
  hooks : w'.hooks = w.hooks
  byId : w'.bp.bpById = w.bp.bpById.insert w.bp.nextBpId entry
  byAddress : w'.bp.bpByAddress = w.bp.bpByAddress.insert entry.address entry
  nextId : w'.bp.nextBpId = w.bp.nextBpId + 1

/-- The live entry of `bpId` is gone and its bytes are written back. -/
structure Removed (arch : Arch) (bpId : ℕ) (entry : BreakpointEntry) (w w' : World) :
    Prop where
  live : w.bp.bpById.lookup bpId = some entry
  code : w'.code =
    writeBytes w.code entry.address (entry.originalBytes.take arch.bpInsnSize)
  hooks : w'.hooks = w.hooks
  byId : w'.bp.bpById = w.bp.bpById.erase bpId
  byAddress : w'.bp.bpByAddress = w.bp.bpByAddress.erase entry.address
  nextId : w'.bp.nextBpId = w.bp.nextBpId

/-- `set` throws and leaves code and maps alone, or hands out the next identifier. -/
theorem set_result (arch : Arch) {env : Install} (address : Addr) (onHit : Callback)
    (w : World) (henv : env.patch = .ok) :
    (∃ e, (set arch env address onHit w).1 = .error e ∧
      Unchanged w (set arch env address onHit w).2) ∨
    ((set arch env address onHit w).1 = .ok w.bp.nextBpId ∧ ∃ entry, entry.address = address ∧
      Installed arch entry w (set arch env address onHit w).2) := by
  unfold set
  by_cases hmem : address ∈ w.bp.bpByAddress
  · rw [if_pos hmem]
    exact Or.inl ⟨_, rfl, rfl, rfl, rfl, rfl, rfl⟩
  · rw [if_neg hmem]
    cases hr : env.relocated with
    | error e => exact Or.inl ⟨e, rfl, by simp, by simp, by simp, by simp, by simp⟩
    | ok block =>
        cases ht : env.trampoline with
        | error e => exact Or.inl ⟨e, rfl, by simp, by simp, by simp, by simp, by simp⟩
        | ok trampolineCode =>
            simp only [henv, makeWritableAndPatch_ok]
            refine Or.inr ⟨by simp, ⟨env.self, address,
              readBytes w.code address arch.bpInsnSize, block.2, trampolineCode, block.1,
              onHit⟩, rfl, hmem, rfl, ?_, ?_, ?_, ?_, ?_⟩ <;> simp

theorem set_cases (arch : Arch) {env : Install} (address : Addr) (onHit : Callback)
    (w : World) (henv : env.patch = .ok) :
    Unchanged w (set arch env address onHit w).2 ∨
    ∃ entry, entry.address = address ∧
      Installed arch entry w (set arch env address onHit w).2 := by
  rcases set_result arch address onHit w henv with ⟨-, -, hun⟩ | ⟨-, hinstalled⟩
  · exact Or.inl hun
  · exact Or.inr hinstalled

theorem remove_cases (arch : Arch) (bpId : ℕ) (w : World) :
    Unchanged w (remove arch .ok bpId w).2 ∨
    ∃ entry, Removed arch bpId entry w (remove arch .ok bpId w).2 := by
  unfold remove
  cases hl : w.bp.bpById.lookup bpId with
  | none => exact Or.inl ⟨rfl, rfl, rfl, rfl, rfl⟩
  | some entry =>
      simp only [makeWritableAndPatch_ok]
      exact Or.inr ⟨entry, hl, by simp, by simp, by simp, by simp, by simp⟩

/-- The saved bytes of the entries, written back one after the other. -/
def writeBack (arch : Arch) (order : List (Σ _ : ℕ, BreakpointEntry)) (m : Memory) : Memory :=
  order.foldl (fun m e => writeBytes m e.2.address (e.2.originalBytes.take arch.bpInsnSize)) m

/-- Every entry's bytes are written back and nothing is live. -/
structure Cleared (arch : Arch) (order : List (Σ _ : ℕ, BreakpointEntry)) (w w' : World) :
    Prop where
  code : w'.code = writeBack arch order w.code
  hooks : w'.hooks = w.hooks
  hw : w'.hw = w.hw
  byId : w'.bp.bpById = ∅
  byAddress : w'.bp.bpByAddress = ∅

theorem restoreAll_ok (arch : Arch) (patch : Addr → PatchOutcome)
    (order : List (Σ _ : ℕ, BreakpointEntry)) (w : World)
    (hpatch : ∀ e ∈ order, patch e.2.address = .ok) :
    ∃ w', restoreAll arch patch order w = (.ok (), w') ∧
      w'.code = writeBack arch order w.code ∧ w'.exc = w.exc ∧ w'.bp = w.bp ∧
      w'.hooks = w.hooks ∧ w'.hw = w.hw := by
  induction order generalizing w with
  | nil => exact ⟨w, rfl, rfl, rfl, rfl, rfl, rfl⟩
  | cons e rest ih =>
      have hrest : ∀ e ∈ rest, patch e.2.address = .ok :=
        fun e he => hpatch e (List.mem_cons_of_mem _ he)
      simp only [restoreAll, hpatch e List.mem_cons_self, makeWritableAndPatch_ok]
      obtain ⟨w', heq, hcode, hexc, hbp, hhooks, hhw⟩ := ih (releaseEntry e.2 { w with
        code := writeBytes w.code e.2.address (e.2.originalBytes.take arch.bpInsnSize) })
        hrest
      exact ⟨w', heq, by simpa [writeBack] using hcode, by simpa using hexc,
        by simpa using hbp, by simpa using hhooks, by simpa using hhw⟩

/-- Refused or not, the loop of `removeAll` touches code and blocks only. -/
theorem restoreAll_frame (arch : Arch) (patch : Addr → PatchOutcome)
    (order : List (Σ _ : ℕ, BreakpointEntry)) (w : World) :
    (restoreAll arch patch order w).2.bp = w.bp ∧
      (restoreAll arch patch order w).2.exc = w.exc ∧
      (restoreAll arch patch order w).2.hooks = w.hooks ∧
      (restoreAll arch patch order w).2.hw = w.hw := by
  induction order generalizing w with
  | nil => exact ⟨rfl, rfl, rfl, rfl⟩
  | cons e rest ih =>
      unfold restoreAll
      cases hp : patch e.2.address with
      | ok =>
          simp only [makeWritableAndPatch_ok]
          obtain ⟨hbp, hexc, hhooks, hhw⟩ := ih (releaseEntry e.2 { w with
            code := writeBytes w.code e.2.address (e.2.originalBytes.take arch.bpInsnSize) })
          exact ⟨by simpa using hbp, by simpa using hexc, by simpa using hhooks,
            by simpa using hhw⟩
      | rwDenied => exact ⟨rfl, rfl, rfl, rfl⟩
      | rxDenied => exact ⟨rfl, rfl, rfl, rfl⟩

theorem removeAll_nextBpId (arch : Arch) (patch : Addr → PatchOutcome)
    (order : List (Σ _ : ℕ, BreakpointEntry)) (w : World) :
    (removeAll arch patch order w).2.bp.nextBpId = w.bp.nextBpId := by
  obtain ⟨hbp, -⟩ := restoreAll_frame arch patch order w
  unfold removeAll
  generalize restoreAll arch patch order w = result at *
  obtain ⟨answer, w'⟩ := result
  cases answer with
  | error e => exact congrArg BreakpointState.nextBpId hbp
  | ok _ => simpa using congrArg BreakpointState.nextBpId hbp

theorem removeAll_ok (arch : Arch) (patch : Addr → PatchOutcome)
    (order : List (Σ _ : ℕ, BreakpointEntry)) (w : World)
    (hpatch : ∀ e ∈ order, patch e.2.address = .ok) :
    ∃ w', removeAll arch patch order w = (.ok (), w') ∧ Cleared arch order w w' := by
  obtain ⟨w', heq, hcode, -, -, hhooks, hhw⟩ := restoreAll_ok arch patch order w hpatch
  unfold removeAll
  rw [heq]
  exact ⟨_, rfl, by simpa using hcode, by simpa using hhooks, by simpa using hhw, by simp,
    by simp⟩

end SoftwareBreakpoint

end Chromatic
