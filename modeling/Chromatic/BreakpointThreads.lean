import Chromatic.BreakpointRuns
import Chromatic.CodePages
import Chromatic.DebugRegisters
import Chromatic.Lifetimes
import Chromatic.Foundation.Sessions

/-!
# Threads at breakpoints

`NativeSoftwareBreakpoint::set`, `remove` and `removeAll` of the Linux x86_64 build in
micro-steps, one call after the other, while other threads run the code that is patched: they fetch
from its pages, are trapped, and are in the blocks that a removal releases. Operations on a map are
one step each, and a page that refuses a change of protection refuses it always.

§1 the shared state · §2 actions · §3 the functions · §4 run alone · §5 other threads ·
§6 what is to be shown · §7 the handler chain · §8 the entries · §9 contracts · §10 actions and
threads · §11 sessions.
-/

namespace Chromatic

open Foundation Foundation.MicroSteps ExceptionHandler
open CodePages (Mmu Access Protections mprotect readWrite readExec)
open DebugRegisters (Thread)
open Lifetimes (FreshBlocks)

namespace BreakpointThreads

/-! ## §1  The shared state -/

/-- Where a thread is: in the program, at a trap that no handler has seen yet, in a trampoline or
what it leads to, or ended by a signal that nobody claimed. -/
inductive Place where
  | running
  | trapped (a : Addr)
  | inBlock (trampolineCode : Addr)
  | lost
deriving DecidableEq

structure Shared where
  w : World
  prot : Protections
  places : Thread → Place

/-! ## §2  Actions -/

inductive Act where
  | skip
  | ensureHandlerInstalled
  | allocate (p : Addr)
  | delete (p : Addr)
  | addCode (p : Addr)
  | releaseCode (p : Addr)
  | mprotect (access : Access) (ps : List ℕ)
  | copy (a : Addr) (data : List Byte)
  | bpById (entry : BreakpointEntry)
  | bpByAddress (entry : BreakpointEntry)
  | eraseByAddress (a : Addr)
  | eraseById (bpId : ℕ)
  | clearById
  | clearByAddress
  | maybeRemoveHandler

def Act.onWorld : Act → World → World
  | .skip, w => w
  | .ensureHandlerInstalled, w => SoftwareBreakpoint.ensureHandlerInstalled w
  | .allocate p, w => w.allocate p
  | .delete p, w => w.delete p
  | .addCode p, w => w.addCode p
  | .releaseCode p, w => w.releaseCode p
  | .mprotect _ _, w => w
  | .copy a data, w => { w with code := writeBytes w.code a data }
  | .bpById entry, w =>
      { w with bp := { w.bp with
          nextBpId := w.bp.nextBpId + 1
          bpById := w.bp.bpById.insert w.bp.nextBpId entry } }
  | .bpByAddress entry, w =>
      { w with bp := { w.bp with
          bpByAddress := w.bp.bpByAddress.insert entry.address entry } }
  | .eraseByAddress a, w => { w with bp := { w.bp with bpByAddress := w.bp.bpByAddress.erase a } }
  | .eraseById bpId, w => { w with bp := { w.bp with bpById := w.bp.bpById.erase bpId } }
  | .clearById, w => { w with bp := { w.bp with bpById := ∅ } }
  | .clearByAddress, w => { w with bp := { w.bp with bpByAddress := ∅ } }
  | .maybeRemoveHandler, w => SoftwareBreakpoint.maybeRemoveHandler w

def Act.onPages (m : Mmu) : Act → Protections → Protections
  | .mprotect access ps, prot => (CodePages.mprotect m access ps prot).2
  | _, prot => prot

def act (m : Mmu) (a : Act) (s : Shared) : Shared :=
  { s with w := a.onWorld s.w, prot := a.onPages m s.prot }

/-! ## §3  The functions -/

/-- `set` returns an identifier. -/
abbrev Func : Type := Code Shared Act (Except String (Option ℕ))

/-- `makeWritableAndPatch` of the first `len` bytes, with what follows it. -/
def makeWritableAndPatch (m : Mmu) (addr : Addr) (data : List Byte) (len : ℕ) (behind : Func) :
    Func :=
  let ps := m.span addr len
  .next (.mprotect readWrite ps) fun s =>
    if (mprotect m readWrite ps s.prot).1 then
      .next (.copy addr (data.take len)) fun _ => .next (.mprotect readExec ps) fun s =>
        if (mprotect m readExec ps s.prot).1 then behind
        else .done (.error "mprotect(RX) failed")
    else .done (.error "mprotect(RW) failed")

/-- `NativeSoftwareBreakpoint::set`. -/
def set (m : Mmu) (env : SoftwareBreakpoint.Install) (address : Addr) (onHit : Callback) : Func :=
  .next .skip fun s =>
    if address ∈ s.w.bp.bpByAddress then
      .done (.error ("Software breakpoint already set at " ++ toHexAddr address.toNat))
    else
      .next .ensureHandlerInstalled fun _ => .next (.allocate env.self) fun s =>
        let originalBytes := readBytes s.w.code address Arch.x64.bpInsnSize
        match env.relocated with
        | .error e => .next (.delete env.self) fun _ => .done (.error e)
        | .ok (relocatedCode, bytesConsumed) =>
          .next (.addCode relocatedCode) fun _ =>
            match env.trampoline with
            | .error e =>
              .next (.releaseCode relocatedCode) fun _ => .next (.delete env.self) fun _ =>
                .done (.error e)
            | .ok trampolineCode =>
              .next (.addCode trampolineCode) fun _ =>
                makeWritableAndPatch m address (bpInsn .x64) Arch.x64.bpInsnSize <|
                  let entry : BreakpointEntry :=
                    { self := env.self, address := address, originalBytes := originalBytes,
                      originalInsnSize := bytesConsumed, trampolineCode := trampolineCode,
                      relocatedCode := relocatedCode, onHit := onHit }
                  .next (.bpById entry) fun s => .next (.bpByAddress entry) fun _ =>
                    .done (.ok (some s.w.bp.nextBpId))

/-- `NativeSoftwareBreakpoint::remove`. -/
def remove (m : Mmu) (bpId : ℕ) : Func :=
  .next .skip fun s =>
    match s.w.bp.bpById.lookup bpId with
    | none => .done (.ok none)
    | some entry =>
      makeWritableAndPatch m entry.address entry.originalBytes Arch.x64.bpInsnSize <|
        .next (.releaseCode entry.trampolineCode) fun _ =>
        .next (.releaseCode entry.relocatedCode) fun _ =>
        .next (.eraseByAddress entry.address) fun _ => .next (.eraseById bpId) fun _ =>
        .next (.delete entry.self) fun _ => .next .maybeRemoveHandler fun _ => .done (.ok none)

/-- The loop over `g_bpById`. -/
def restoreAll (m : Mmu) : List (Σ _ : ℕ, BreakpointEntry) → Func → Func
  | [], behind => behind
  | ⟨_, entry⟩ :: rest, behind =>
      makeWritableAndPatch m entry.address entry.originalBytes Arch.x64.bpInsnSize <|
        .next (.releaseCode entry.trampolineCode) fun _ =>
        .next (.releaseCode entry.relocatedCode) fun _ => .next (.delete entry.self) fun _ =>
          restoreAll m rest behind

/-- `NativeSoftwareBreakpoint::removeAll`. -/
def removeAll (m : Mmu) (order : List (Σ _ : ℕ, BreakpointEntry)) : Func :=
  restoreAll m order <| .next .clearById fun _ => .next .clearByAddress fun _ =>
    .next .maybeRemoveHandler fun _ => .done (.ok none)

inductive Call where
  | set (env : SoftwareBreakpoint.Install) (address : Addr) (onHit : Callback)
  | remove (bpId : ℕ)
  | removeAll (order : List (Σ _ : ℕ, BreakpointEntry))

def Call.code (m : Mmu) : Call → Func
  | .set env address onHit => BreakpointThreads.set m env address onHit
  | .remove bpId => BreakpointThreads.remove m bpId
  | .removeAll order => BreakpointThreads.removeAll m order

/-- Both changes of protection are granted on the pages of the entry's patch. -/
def Granted (m : Mmu) (entry : BreakpointEntry) : Prop :=
  ∀ p ∈ m.span entry.address Arch.x64.bpInsnSize, m.grants p readWrite ∧ m.grants p readExec

/-- What `JitRuntime::add` gives out is not null. -/
def NotNull (env : SoftwareBreakpoint.Install) : Prop :=
  (∀ r n, env.relocated = .ok (r, n) → r ≠ 0) ∧ ∀ t, env.trampoline = .ok t → t ≠ 0

/-- Allocators give out what is not in use. `removeAll` visits every live entry and is refused
nothing: it would leave entries in the maps whose blocks are released. -/
def Call.Permitted (m : Mmu) (w : World) : Call → Prop
  | .set env _ _ => NotNull env ∧ FreshBlocks w env.self env.relocated env.trampoline
  | .remove _ => True
  | .removeAll order => order.Perm w.bp.bpById.entries ∧ ∀ p ∈ order, Granted m p.2

/-! ## §4  Run alone -/

section Alone

variable {m : Mmu} {s : Shared}

/-- The call of the model that takes each call as one step. -/
def Call.paged : Call → CodePages.Call
  | .set env address onHit => .set env address onHit
  | .remove bpId => .remove bpId
  | .removeAll order => .removeAll order

/-- What a patch leaves, and the way it goes on. -/
theorem run_makeWritableAndPatch (addr : Addr) (data : List Byte) (len : ℕ) (behind : Func) :
    (makeWritableAndPatch m addr data len behind).run (act m) s =
      match CodePages.patchPages m addr len s.prot with
      | (.ok, prot) => behind.run (act m)
          { s with
            w := { s.w with code := writeBytes s.w.code addr (data.take len) }
            prot := prot }
      | (.rwDenied, prot) => (.error "mprotect(RW) failed", { s with prot := prot })
      | (.rxDenied, prot) => (.error "mprotect(RX) failed",
          { s with
            w := { s.w with code := writeBytes s.w.code addr (data.take len) }
            prot := prot }) := by
  unfold makeWritableAndPatch CodePages.patchPages
  simp only [Code.run]
  rcases hw : mprotect m readWrite (m.span addr len) s.prot with ⟨_ | _, prot⟩
  · simp [Code.run, act, Act.onWorld, Act.onPages, hw]
  · rcases hx : mprotect m readExec (m.span addr len) prot with ⟨_ | _, prot'⟩
    · simp [Code.run, act, Act.onWorld, Act.onPages, hw, hx]
    · simp [Code.run, act, Act.onWorld, Act.onPages, hw, hx]

def Shared.paged (s : Shared) (turn : ℕ) : CodePages.Paged := ⟨s.w, s.prot, turn⟩

variable {turn : ℕ}

theorem run_set (env : SoftwareBreakpoint.Install) (address : Addr) (onHit : Callback) :
    ((set m env address onHit).run (act m) s).2.paged
        (turn + ((CodePages.Call.set env address onHit).regions .x64 s.w).length) =
      (CodePages.Call.set env address onHit).step m.always .x64 (s.paged turn) := by
  unfold set CodePages.Call.step CodePages.Call.protect CodePages.Call.exec SoftwareBreakpoint.set
  by_cases hmem : address ∈ s.w.bp.bpByAddress
  · simp [Code.run, hmem, Shared.paged, CodePages.Call.patches, CodePages.patchAll, act,
      Act.onWorld, Act.onPages]
  · cases hr : env.relocated with
    | error e =>
        simp [Code.run, hmem, hr, Shared.paged, CodePages.Call.patches, CodePages.patchAll, act,
          Act.onWorld, Act.onPages, Except.isOk, Except.toBool]
    | ok block =>
        cases ht : env.trampoline with
        | error e =>
            simp [Code.run, hmem, hr, ht, Shared.paged, CodePages.Call.patches,
              CodePages.patchAll, act, Act.onWorld, Act.onPages, Except.isOk, Except.toBool]
        | ok trampolineCode =>
            simp only [Code.run, hmem, hr, ht, if_false, act, Act.onWorld, Act.onPages,
              run_makeWritableAndPatch, Shared.paged, CodePages.Call.patches, CodePages.patchAll,
              CodePages.Mmu.always_mmu, Except.isOk, Except.toBool, not_false_eq_true, and_self,
              if_true]
            rcases CodePages.patchPages m address Arch.x64.bpInsnSize s.prot with
              ⟨_ | _ | _, prot⟩
            · simp [Chromatic.makeWritableAndPatch, bpInsn, Arch.bpInsnSize]
            · simp [Chromatic.makeWritableAndPatch]
            · simp [Chromatic.makeWritableAndPatch, bpInsn, Arch.bpInsnSize]

theorem run_remove (bpId : ℕ) :
    ((remove m bpId).run (act m) s).2.paged
        (turn + ((CodePages.Call.remove bpId).regions .x64 s.w).length) =
      (CodePages.Call.remove bpId).step m.always .x64 (s.paged turn) := by
  unfold remove CodePages.Call.step CodePages.Call.protect CodePages.Call.exec
    SoftwareBreakpoint.remove
  rw [Code.run]
  cases hlookup : s.w.bp.bpById.lookup bpId with
  | none =>
      simp [Code.run, hlookup, Shared.paged, CodePages.Call.patches, CodePages.patchAll, act,
        Act.onWorld, Act.onPages]
  | some entry =>
      simp only [hlookup, act, Act.onWorld, Act.onPages, run_makeWritableAndPatch, Shared.paged,
        CodePages.Call.patches, CodePages.patchAll, CodePages.Mmu.always_mmu,
        Option.toList_some, List.map_cons, List.map_nil, Option.map_some, Option.getD_some]
      rcases CodePages.patchPages m entry.address Arch.x64.bpInsnSize s.prot with
        ⟨_ | _ | _, prot⟩
      · simp [Chromatic.makeWritableAndPatch, Code.run, act, Act.onWorld, Act.onPages,
          SoftwareBreakpoint.releaseEntry, World.delete]
      · simp [Chromatic.makeWritableAndPatch]
      · simp [Chromatic.makeWritableAndPatch]

/-- The loop, where nothing is refused. -/
theorem run_restoreAll (order : List (Σ _ : ℕ, BreakpointEntry)) (behind : Func)
    (hgranted : ∀ p ∈ order, Granted m p.2) :
    let answers := CodePages.patchAll m.always turn
      (order.map fun p => (p.2.address, Arch.x64.bpInsnSize)) s.prot
    (∀ x ∈ answers.1, x.2 = .ok) ∧ (restoreAll m order behind).run (act m) s =
      behind.run (act m) { s with
        w := (SoftwareBreakpoint.restoreAll .x64 (fun _ => .ok) order s.w).2
        prot := answers.2 } := by
  induction order generalizing s turn with
  | nil => exact ⟨by simp [CodePages.patchAll], rfl⟩
  | cons p rest ih =>
      obtain ⟨hfirst, hrest⟩ := List.forall_mem_cons.mp hgranted
      have hok : (CodePages.patchPages m p.2.address Arch.x64.bpInsnSize s.prot).1 = .ok :=
        CodePages.patchPages_ok_iff.mpr hfirst
      rcases hpatch : CodePages.patchPages m p.2.address Arch.x64.bpInsnSize s.prot with
        ⟨outcome, prot⟩
      obtain rfl : outcome = .ok := by rw [← hok, hpatch]
      simp only [List.map_cons, CodePages.patchAll, CodePages.Mmu.always_mmu, restoreAll,
        run_makeWritableAndPatch, hpatch, SoftwareBreakpoint.restoreAll,
        Chromatic.makeWritableAndPatch_ok, Code.run, List.forall_mem_cons, true_and]
      exact ih (s := ⟨SoftwareBreakpoint.releaseEntry p.2 { s.w with code := _ }, prot, s.places⟩)
        hrest

theorem run_removeAll (order : List (Σ _ : ℕ, BreakpointEntry))
    (hgranted : ∀ p ∈ order, Granted m p.2) :
    ((removeAll m order).run (act m) s).2.paged
        (turn + ((CodePages.Call.removeAll order).regions .x64 s.w).length) =
      (CodePages.Call.removeAll order).step m.always .x64 (s.paged turn) := by
  obtain ⟨hanswers, hrun⟩ := @run_restoreAll m s turn order _ hgranted
  have hpatch : (fun a => (((CodePages.patchAll m.always turn (order.map fun p => (p.2.address,
      Arch.x64.bpInsnSize)) s.prot).1.find? (·.1 = a)).map (·.2)).getD .ok) = fun _ => .ok := by
    funext a
    cases hfind : (CodePages.patchAll m.always turn (order.map fun p => (p.2.address,
      Arch.x64.bpInsnSize)) s.prot).1.find? (·.1 = a) with
    | none => rfl
    | some x => exact hanswers x (List.mem_of_find?_eq_some hfind)
  obtain ⟨w', heq, -⟩ := SoftwareBreakpoint.restoreAll_ok .x64 (fun _ => .ok) order s.w
    fun _ _ => rfl
  unfold removeAll CodePages.Call.step CodePages.Call.protect CodePages.Call.exec
    CodePages.Call.patches
  rw [hrun]
  simp only [Shared.paged, hpatch, Code.run, act, Act.onWorld, Act.onPages,
    SoftwareBreakpoint.removeAll, heq]

/-- Left alone, the actions of a call add up to the call. -/
theorem run_call (c : Call) (hpermitted : c.Permitted m s.w) :
    ((c.code m).run (act m) s).2.paged (turn + (c.paged.regions .x64 s.w).length) =
      c.paged.step m.always .x64 (s.paged turn) := by
  cases c with
  | set env address onHit => exact run_set env address onHit
  | remove bpId => exact run_remove bpId
  | removeAll order => exact run_removeAll order hpermitted.2

end Alone

/-! ## §5  Other threads -/

def int3 : Byte := 0xCC

/-- Fetching from a page that cannot be executed raises `SIGSEGV`, which no handler here claims. -/
def fetched (m : Mmu) (s : Shared) (x : Addr) : Place :=
  if (s.prot (x.toNat / m.page.size.toNat)).exec = false then .lost
  else if s.w.code x = int3 then .trapped x
  else .running

/-- The signal handler with `SIGTRAP`, raised by `INT3` at `a`. -/
def delivered (monitor : ExceptionContext → HandleAction × ExceptionContext) (w : World)
    (a : Addr) : Place :=
  match globalSignalHandler (TrapRouting.invoke monitor w) TrapRouting.linuxX64 w.exc .sigtrap
      ⟨.other, 0, false, a + 1⟩ with
  | (none, ctx) => .inBlock ctx.pc
  | (some _, _) => .lost

inductive Move where
  | fetch (x : Addr)
  | deliver
  | leave

def Shared.moveTo (s : Shared) (t : Thread) (place : Place) : Shared :=
  { s with places := Function.update s.places t place }

inductive Others (m : Mmu) (monitor : ExceptionContext → HandleAction × ExceptionContext) :
    Shared → Thread × Move → Shared → Prop
  | fetch {s t x} (h : s.places t = .running) :
      Others m monitor s (t, .fetch x) (s.moveTo t (fetched m s x))
  | deliver {s t a} (h : s.places t = .trapped a) :
      Others m monitor s (t, .deliver) (s.moveTo t (delivered monitor s.w a))
  | leave {s t p} (h : s.places t = .inBlock p) :
      Others m monitor s (t, .leave) (s.moveTo t .running)

/-! ## §6  What is to be shown -/

/-- Calls one after the other, and threads at any time. -/
abbrev Step (m : Mmu) (monitor : ExceptionContext → HandleAction × ExceptionContext) :=
  Session (act m) (Others m monitor) (Call.code m) fun c s => c.Permitted m s.w

/-- The entry is in the map, and nothing of it is released. -/
structure Serves (w : World) (e : BreakpointEntry) : Prop where
  registered : w.bp.bpByAddress.lookup e.address = some e
  trampoline : e.trampolineCode ∈ w.jit
  relocated : e.relocatedCode ∈ w.jit
  self : e.self ∈ w.heap

/-- The trap of a thread can be claimed, and it is in no block that is released. -/
def Safe (w : World) : Place → Prop
  | .running => True
  | .trapped a => ∃ e, Serves w e ∧ e.address = a
  | .inBlock p => ∃ e, Serves w e ∧ e.trampolineCode = p
  | .lost => False

def Sound (s : Shared) : Prop := ∀ t, Safe s.w (s.places t)

/-- No trampoline is released with a thread in it or on the way to it. Threads keep off the pages
that are being patched, and off breakpoints that are not in the map yet or no longer. -/
def Careful (m : Mmu) : Label Act (Thread × Move) → Shared → Prop
  | .own (.releaseCode p), s => ∀ e, Serves s.w e → e.trampolineCode = p →
      ∀ t, s.places t ≠ .trapped e.address ∧ s.places t ≠ .inBlock p
  | .other (_, .fetch x), s => (s.prot (x.toNat / m.page.size.toNat)).exec = true ∧
      (s.w.code x = int3 → ∃ e, Serves s.w e ∧ e.address = x)
  | _, _ => True

/-! ## §7  The handler chain -/

section Chain

variable {w : World} {monitor : ExceptionContext → HandleAction × ExceptionContext}
  {e : BreakpointEntry}

/-- The handler is in the chain while there are entries, and the other subsystems are not used. -/
structure Attended (w : World) : Prop where
  chained : BreakpointRuns.Chained w
  noHw : ∀ a, a ∉ w.hw.hwByAddress

/-- What the functions know when they come to an action. -/
def Known : Act → World → Prop
  | .releaseCode p, w => p ≠ 0 ∧ w.jit.Nodup ∧
      ∀ e, w.bp.bpByAddress.lookup e.address = some e → e.relocatedCode = p →
        e.trampolineCode ∉ w.jit
  | .delete p, w => ∀ e, w.bp.bpByAddress.lookup e.address = some e → e.self = p →
      e.trampolineCode ∉ w.jit
  | .bpByAddress entry, w =>
      entry.address ∉ w.bp.bpByAddress ∧ w.bp.handlerInstalled = true
  | .eraseByAddress a, w => ∀ e, w.bp.bpByAddress.lookup a = some e → e.trampolineCode ∉ w.jit
  | .clearByAddress, w => ∀ a e, w.bp.bpByAddress.lookup a = some e → e.trampolineCode ∉ w.jit
  | _, _ => True

theorem Attended.onWorld {a : Act} (h : Attended w) (hknown : Known a w) :
    Attended (a.onWorld w) := by
  obtain ⟨hchained, hnoHw⟩ := h
  cases a with
  | skip | mprotect => exact ⟨hchained, hnoHw⟩
  | ensureHandlerInstalled =>
      refine ⟨hchained.ensureSw.1, fun a => ?_⟩
      rw [Act.onWorld, SoftwareBreakpoint.ensureHandlerInstalled_hw]
      exact hnoHw a
  | maybeRemoveHandler =>
      refine ⟨hchained.maybeRemoveSw, fun a => ?_⟩
      rw [Act.onWorld, SoftwareBreakpoint.maybeRemoveHandler_hw]
      exact hnoHw a
  | allocate | delete | addCode | copy =>
      exact ⟨hchained.congr rfl rfl rfl, hnoHw⟩
  | releaseCode p =>
      have hhw : (w.releaseCode p).hw = w.hw := World.releaseCode_hw w p
      exact ⟨hchained.congr (World.releaseCode_exc w p) (World.releaseCode_bp w p) hhw,
        fun a => hhw ▸ hnoHw a⟩
  | bpById | eraseById | clearById =>
      exact ⟨hchained.withSw rfl rfl rfl rfl hchained.swIdle, hnoHw⟩
  | bpByAddress entry =>
      refine ⟨hchained.withSw rfl rfl rfl rfl fun hoff => ?_, hnoHw⟩
      rw [hknown.2] at hoff
      cases hoff
  | eraseByAddress a =>
      refine ⟨hchained.withSw rfl rfl rfl rfl fun hoff b hb => ?_, hnoHw⟩
      exact hchained.swIdle hoff b (AList.mem_erase.mp hb).2
  | clearByAddress =>
      exact ⟨hchained.withSw rfl rfl rfl rfl fun _ a => AList.notMem_empty a, hnoHw⟩

/-- The trap of an entry of the map is claimed, and leads to its trampoline. -/
theorem Attended.delivered_eq (h : Attended w)
    (he : w.bp.bpByAddress.lookup e.address = some e) :
    delivered monitor w e.address = .inBlock e.trampolineCode := by
  have hnone : ∀ pc, TrapRouting.hwEntry w pc = none := by
    intro pc
    rw [TrapRouting.hwEntry, AList.lookup_eq_none.mpr (h.noHw pc)]
    rfl
  have hblocks : BreakpointRuns.Blocks w := by
    constructor
    · intro a e he
      rw [AList.lookup_eq_none.mpr (h.noHw a)] at he
      cases he
    · intro a b e e' _ he'
      rw [AList.lookup_eq_none.mpr (h.noHw b)] at he'
      cases he'
  have hsw : TrapRouting.swEntry w (e.address + 1) = some e := by
    rw [TrapRouting.swEntry, BitVec.add_sub_cancel, he]
  have hroute := @TrapRouting.route_sw monitor w
    (buildContextFromSignal TrapRouting.linuxX64 .sigtrap ⟨.other, 0, false, e.address + 1⟩)
    (BreakpointRuns.armed_of_chained h.chained hblocks) rfl e hsw (.inl (hnone _))
  rw [delivered, TrapRouting.globalSignalHandler_handled hroute]

end Chain

/-! ## §8  The entries -/

section Entries

variable {w w' : World} {gone : Set BreakpointEntry} {e : BreakpointEntry} {p object address : Addr}
  {blocks : List Addr}

/-- The entry is in the map. -/
def Registered (w : World) (e : BreakpointEntry) : Prop :=
  w.bp.bpByAddress.lookup e.address = some e

/-- Both maps hold the same entries, no two of which share a block or an object. What is `gone`
has lost its trampoline, and the rest is as `set` left it. -/
structure Intact (gone : Set BreakpointEntry) (w : World) : Prop where
  indexed : Indexed BreakpointEntry.address w.bp.bpById w.bp.bpByAddress w.bp.nextBpId
  tidy : Lifetimes.Tidy w
  live : ∀ e, Registered w e → e ∉ gone → Serves w e
  released : ∀ e, Registered w e → e ∈ gone → e.trampolineCode ∉ w.jit
  apart : ∀ e e', Registered w e → Registered w e' → e ≠ e' →
    e.trampolineCode ≠ e'.trampolineCode ∧ e.relocatedCode ≠ e'.relocatedCode ∧ e.self ≠ e'.self
  cross : ∀ e e', Registered w e → Registered w e' → e.trampolineCode ≠ e'.relocatedCode
  notNull : ∀ e, Registered w e → e.trampolineCode ≠ 0 ∧ e.relocatedCode ≠ 0

/-- Between two calls. -/
def AtRest : World → Prop := Intact ∅

theorem Intact.congr (h : Intact gone w) (hbp : w'.bp.bpByAddress = w.bp.bpByAddress)
    (hid : w'.bp.bpById = w.bp.bpById) (hnext : w'.bp.nextBpId = w.bp.nextBpId)
    (hjit : w'.jit = w.jit) (hheap : w'.heap = w.heap) : Intact gone w' := by
  have hreg : ∀ e, Registered w' e ↔ Registered w e := by
    intro e
    rw [Registered, Registered, hbp]
  refine ⟨?_, h.tidy.congr hjit hheap, fun e he hgone => ?_, fun e he hgone => ?_,
    fun e e' he he' => ?_, fun e e' he he' => ?_, fun e he => ?_⟩
  · rw [hbp, hid, hnext]
    exact h.indexed
  · obtain ⟨hregistered, ht, hr, hself⟩ := h.live e ((hreg e).mp he) hgone
    exact ⟨he, hjit ▸ ht, hjit ▸ hr, hheap ▸ hself⟩
  · rw [hjit]
    exact h.released e ((hreg e).mp he) hgone
  · exact h.apart e e' ((hreg e).mp he) ((hreg e').mp he')
  · exact h.cross e e' ((hreg e).mp he) ((hreg e').mp he')
  · exact h.notNull e ((hreg e).mp he)

theorem releaseCode_jit (hp : p ≠ 0) : (w.releaseCode p).jit = w.jit.erase p := by
  rw [World.releaseCode, if_neg hp]

theorem releaseCode_heap : (w.releaseCode p).heap = w.heap := by
  unfold World.releaseCode
  split <;> rfl

theorem registered_releaseCode : Registered (w.releaseCode p) e ↔ Registered w e := by
  rw [Registered, Registered, World.releaseCode_bp]

theorem Serves.releaseCode (h : Serves w e) (hp : p ≠ 0) (ht : e.trampolineCode ≠ p)
    (hr : e.relocatedCode ≠ p) : Serves (w.releaseCode p) e := by
  refine ⟨registered_releaseCode.mpr h.registered, ?_, ?_, ?_⟩
  · rw [releaseCode_jit hp]
    exact (List.mem_erase_of_ne ht).mpr h.trampoline
  · rw [releaseCode_jit hp]
    exact (List.mem_erase_of_ne hr).mpr h.relocated
  · rw [releaseCode_heap]
    exact h.self

/-- What is left has other blocks, and what goes now goes with its trampoline. -/
theorem Intact.releaseCode {gone' : Set BreakpointEntry} (h : Intact gone w) (hp : p ≠ 0)
    (hleft : ∀ e, Registered w e → e ∉ gone' →
      e ∉ gone ∧ e.trampolineCode ≠ p ∧ e.relocatedCode ≠ p)
    (hgoes : ∀ e, Registered w e → e ∈ gone' → e ∈ gone ∨ e.trampolineCode = p) :
    Intact gone' (w.releaseCode p) := by
  refine ⟨?_, ⟨?_, ?_⟩, fun e he hnot => ?_, fun e he hgone => ?_, fun e₁ e₂ h₁ h₂ => ?_,
    fun e₁ e₂ h₁ h₂ => ?_, fun e he => ?_⟩
  · rw [World.releaseCode_bp]
    exact h.indexed
  · rw [releaseCode_jit hp]
    exact h.tidy.jit.erase _
  · rw [releaseCode_heap]
    exact h.tidy.heap
  · have hreg := registered_releaseCode.mp he
    obtain ⟨hnot', ht, hr⟩ := hleft e hreg hnot
    exact (h.live e hreg hnot').releaseCode hp ht hr
  · have hreg := registered_releaseCode.mp he
    rw [releaseCode_jit hp]
    rcases hgoes e hreg hgone with hbefore | rfl
    · exact fun hmem => h.released e hreg hbefore (List.mem_of_mem_erase hmem)
    · exact h.tidy.jit.not_mem_erase
  · exact h.apart e₁ e₂ (registered_releaseCode.mp h₁) (registered_releaseCode.mp h₂)
  · exact h.cross e₁ e₂ (registered_releaseCode.mp h₁) (registered_releaseCode.mp h₂)
  · exact h.notNull e (registered_releaseCode.mp he)

/-- A removal begins. -/
theorem Intact.releaseTrampoline (h : Intact gone w) (he : Registered w e) :
    Intact (insert e gone) (w.releaseCode e.trampolineCode) := by
  refine h.releaseCode (h.notNull e he).1 (fun e' he' hnot => ?_) fun e' _ hgone => ?_
  · obtain ⟨hne, hnot⟩ := not_or.mp hnot
    exact ⟨hnot, (h.apart e' e he' he hne).1, (h.cross e e' he he').symm⟩
  · rcases hgone with rfl | hgone
    · exact .inr rfl
    · exact .inl hgone

/-- It goes on. -/
theorem Intact.releaseRelocated (h : Intact gone w) (he : Registered w e) (hgone : e ∈ gone) :
    Intact gone (w.releaseCode e.relocatedCode) := by
  refine h.releaseCode (h.notNull e he).2 (fun e' he' hnot => ?_) fun e' _ => .inl
  exact ⟨hnot, h.cross e' e he' he,
    (h.apart e' e he' he (ne_of_mem_of_not_mem hgone hnot).symm).2.1⟩

/-- An object that no entry left is at. -/
theorem Intact.delete (h : Intact gone w)
    (hfree : ∀ e, Registered w e → e ∉ gone → e.self ≠ p) : Intact gone (w.delete p) := by
  refine ⟨h.indexed, ⟨h.tidy.jit, h.tidy.heap.erase _⟩, fun e he hgone => ?_, h.released, h.apart,
    h.cross, h.notNull⟩
  obtain ⟨-, ht, hr, hself⟩ := h.live e he hgone
  exact ⟨he, ht, hr, (List.mem_erase_of_ne (hfree e he hgone)).mpr hself⟩

theorem Intact.deleteGone (h : Intact gone w) (he : Registered w e) (hgone : e ∈ gone) :
    Intact gone (w.delete e.self) :=
  h.delete fun e' he' hnot =>
    (h.apart e' e he' he (ne_of_mem_of_not_mem hgone hnot).symm).2.2

/-- The entry is taken out of both maps. -/
theorem Intact.erased {bpId : ℕ} (h : Intact {e} w) (hlookup : w.bp.bpById.lookup bpId = some e) :
    let w' := Act.onWorld (.eraseById bpId) (Act.onWorld (.eraseByAddress e.address) w)
    AtRest w' ∧ ∀ e', Registered w' e' → e'.self ≠ e.self := by
  have hreg : Registered w e := h.indexed.toKey hlookup
  have hold : ∀ e', (w.bp.bpByAddress.erase e.address).lookup e'.address = some e' →
      Registered w e' ∧ e' ≠ e := by
    intro e' he'
    obtain ⟨hne, he'⟩ := lookup_erase_cases he'
    refine ⟨he', fun heq => hne ?_⟩
    rw [heq]
  intro w'
  refine ⟨⟨h.indexed.erase hlookup, ⟨h.tidy.jit, h.tidy.heap⟩, fun e' he' _ => ?_,
    fun e' _ => False.elim, fun e₁ e₂ h₁ h₂ => ?_, fun e₁ e₂ h₁ h₂ => ?_, fun e' he' => ?_⟩,
    fun e' he' => ?_⟩
  · obtain ⟨hreg', hne⟩ := hold e' he'
    obtain ⟨-, ht, hr, hself⟩ := h.live e' hreg' hne
    exact ⟨he', ht, hr, hself⟩
  · exact h.apart e₁ e₂ (hold e₁ h₁).1 (hold e₂ h₂).1
  · exact h.cross e₁ e₂ (hold e₁ h₁).1 (hold e₂ h₂).1
  · exact h.notNull e' (hold e' he').1
  · obtain ⟨hreg', hne⟩ := hold e' he'
    exact (h.apart e' e hreg' hreg hne).2.2

/-- Both maps are cleared. -/
theorem atRest_cleared (h : Lifetimes.Tidy w) :
    AtRest (Act.onWorld .clearByAddress (Act.onWorld .clearById w)) := by
  have hnone : ∀ e, ¬ Registered (Act.onWorld .clearByAddress (Act.onWorld .clearById w)) e := by
    intro e he
    simp [Registered, Act.onWorld] at he
  exact ⟨.empty, ⟨h.jit, h.heap⟩, fun e he => absurd he (hnone e), fun e he => absurd he (hnone e),
    fun e _ he => absurd he (hnone e), fun e _ he => absurd he (hnone e),
    fun e he => absurd he (hnone e)⟩

/-- What `set` has so far: an object, and blocks that no entry has. -/
structure Pending (address object : Addr) (blocks : List Addr) (w : World) : Prop where
  rest : AtRest w
  installed : w.bp.handlerInstalled = true
  free : address ∉ w.bp.bpByAddress
  allocated : object ∈ w.heap
  added : ∀ p ∈ blocks, p ∈ w.jit ∧ p ≠ 0
  own : ∀ e, Registered w e → e.self ≠ object
  unshared : ∀ e, Registered w e → ∀ p ∈ blocks, e.trampolineCode ≠ p ∧ e.relocatedCode ≠ p

theorem Pending.allocate (hrest : AtRest w) (hinstalled : w.bp.handlerInstalled = true)
    (hfree : address ∉ w.bp.bpByAddress) (hobject : object ∉ w.heap) :
    Pending address object [] (w.allocate object) where
  rest := by
    refine ⟨hrest.indexed, ⟨hrest.tidy.jit, List.nodup_cons.mpr ⟨hobject, hrest.tidy.heap⟩⟩,
      fun e he hgone => ?_, fun e _ => False.elim, hrest.apart, hrest.cross, hrest.notNull⟩
    obtain ⟨-, ht, hr, hold⟩ := hrest.live e he hgone
    exact ⟨he, ht, hr, List.mem_cons_of_mem _ hold⟩
  installed := hinstalled
  free := hfree
  allocated := List.mem_cons_self
  added _ hp := absurd hp List.not_mem_nil
  own e he := ne_of_mem_of_not_mem (hrest.live e he id).self hobject
  unshared _ _ _ hp := absurd hp List.not_mem_nil

theorem Pending.addCode (h : Pending address object blocks w) (hp : p ∉ w.jit) (hnull : p ≠ 0) :
    Pending address object (p :: blocks) (w.addCode p) where
  rest := by
    refine ⟨h.rest.indexed, ⟨List.nodup_cons.mpr ⟨hp, h.rest.tidy.jit⟩, h.rest.tidy.heap⟩,
      fun e he hgone => ?_, fun e _ => False.elim, h.rest.apart, h.rest.cross, h.rest.notNull⟩
    obtain ⟨-, ht, hr, hself⟩ := h.rest.live e he hgone
    exact ⟨he, List.mem_cons_of_mem _ ht, List.mem_cons_of_mem _ hr, hself⟩
  installed := h.installed
  free := h.free
  allocated := h.allocated
  added := by
    refine List.forall_mem_cons.mpr ⟨⟨List.mem_cons_self, hnull⟩, fun q hq => ?_⟩
    exact ⟨List.mem_cons_of_mem _ (h.added q hq).1, (h.added q hq).2⟩
  own := h.own
  unshared e he := by
    have hlive := h.rest.live e he id
    exact List.forall_mem_cons.mpr ⟨⟨ne_of_mem_of_not_mem hlive.trampoline hp,
      ne_of_mem_of_not_mem hlive.relocated hp⟩, h.unshared e he⟩

theorem Pending.writeCode (h : Pending address object blocks w) (code : Memory) :
    Pending address object blocks { w with code := code } :=
  ⟨h.rest.congr rfl rfl rfl rfl rfl, h.installed, h.free, h.allocated, h.added, h.own, h.unshared⟩

/-- The new entry is in both maps. -/
theorem Pending.entered {entry : BreakpointEntry}
    (h : Pending entry.address entry.self [entry.trampolineCode, entry.relocatedCode] w)
    (hne : entry.trampolineCode ≠ entry.relocatedCode) :
    AtRest (Act.onWorld (.bpByAddress entry) (Act.onWorld (.bpById entry) w)) := by
  have hcases : ∀ e,
      Registered (Act.onWorld (.bpByAddress entry) (Act.onWorld (.bpById entry) w)) e →
      e = entry ∨ Registered w e := by
    intro e he
    rcases lookup_insert_cases he with ⟨-, rfl⟩ | ⟨-, hold⟩
    · exact .inl rfl
    · exact .inr hold
  obtain ⟨ht, hr⟩ := List.forall_mem_cons.mp h.added
  obtain ⟨hr, -⟩ := List.forall_mem_cons.mp hr
  have hother : ∀ e, Registered w e → e.trampolineCode ≠ entry.trampolineCode ∧
      e.relocatedCode ≠ entry.trampolineCode ∧ e.trampolineCode ≠ entry.relocatedCode ∧
      e.relocatedCode ≠ entry.relocatedCode := by
    intro e he
    have hunshared := h.unshared e he
    simp only [List.mem_cons, List.not_mem_nil, or_false, forall_eq_or_imp, forall_eq] at hunshared
    exact ⟨hunshared.1.1, hunshared.1.2, hunshared.2.1, hunshared.2.2⟩
  refine ⟨h.rest.indexed.insert h.free, ⟨h.rest.tidy.jit, h.rest.tidy.heap⟩, fun e he _ => ?_,
    fun e _ => False.elim, fun e e' he he' hdiff => ?_, fun e e' he he' => ?_, fun e he => ?_⟩
  · rcases hcases e he with rfl | hold
    · exact ⟨he, ht.1, hr.1, h.allocated⟩
    · obtain ⟨-, ht, hr, hself⟩ := h.rest.live e hold id
      exact ⟨he, ht, hr, hself⟩
  · rcases hcases e he with rfl | hold
    · rcases hcases e' he' with rfl | hold'
      · exact absurd rfl hdiff
      · obtain ⟨htt, -, -, hrr⟩ := hother e' hold'
        exact ⟨htt.symm, hrr.symm, (h.own e' hold').symm⟩
    · rcases hcases e' he' with rfl | hold'
      · obtain ⟨htt, -, -, hrr⟩ := hother e hold
        exact ⟨htt, hrr, h.own e hold⟩
      · exact h.rest.apart e e' hold hold' hdiff
  · rcases hcases e he with rfl | hold
    · rcases hcases e' he' with rfl | hold'
      · exact hne
      · exact (hother e' hold').2.1.symm
    · rcases hcases e' he' with rfl | hold'
      · exact (hother e hold).2.2.1
      · exact h.rest.cross e e' hold hold'
  · rcases hcases e he with rfl | hold
    · exact ⟨ht.2, hr.2⟩
    · exact h.rest.notNull e hold

theorem Intact.known_trampoline (h : Intact gone w) (he : Registered w e) :
    Known (.releaseCode e.trampolineCode) w :=
  ⟨(h.notNull e he).1, h.tidy.jit, fun e' he' heq => absurd heq.symm (h.cross e e' he he')⟩

theorem Intact.known_relocated (h : Intact gone w) (he : Registered w e) (hgone : e ∈ gone) :
    Known (.releaseCode e.relocatedCode) w := by
  refine ⟨(h.notNull e he).2, h.tidy.jit, fun e' he' heq => ?_⟩
  by_cases hsame : e' = e
  · rw [hsame]
    exact h.released e he hgone
  · exact absurd heq (h.apart e' e he' he hsame).2.1

theorem Intact.known_delete (h : Intact gone w) (he : Registered w e) (hgone : e ∈ gone) :
    Known (.delete e.self) w := by
  intro e' he' heq
  by_cases hsame : e' = e
  · rw [hsame]
    exact h.released e he hgone
  · exact absurd heq (h.apart e' e he' he hsame).2.2

end Entries

/-! ## §9  Contracts -/

section Contracts

variable {m : Mmu} {monitor : ExceptionContext → HandleAction × ExceptionContext}
  {A B : World → Prop} {a : Act} {rest : Shared → Func} {behind : Func}

/-- The function may begin where `A` holds, and leaves entries at rest. -/
abbrev Meets (m : Mmu) (monitor : ExceptionContext → HandleAction × ExceptionContext)
    (A : World → Prop) (f : Func) : Prop :=
  Contract (act m) (Others m monitor) (fun a s => Known a s.w) (fun s => AtRest s.w)
    (fun s => A s.w) f

/-- Other threads leave the world alone. -/
theorem stable_world (A : World → Prop) : Stable (Others m monitor) fun s => A s.w := by
  intro s e t h hothers
  cases hothers <;> exact h

theorem meets_done {r : Except String (Option ℕ)} (leaves : ∀ w, A w → AtRest w) :
    Meets m monitor A (.done r) :=
  .done (stable_world A) fun s => leaves s.w

theorem meets_next (known : ∀ w, A w → Known a w) (post : ∀ w, A w → B (a.onWorld w))
    (after : ∀ s, A s.w → Meets m monitor B (rest s)) : Meets m monitor A (.next a rest) :=
  .to (stable_world A) (fun s => known s.w) (fun s => post s.w) after

/-- What is found by looking stays so. -/
theorem meets_skip (after : ∀ s, A s.w → Meets m monitor (· = s.w) (rest s)) :
    Meets m monitor A (.next .skip rest) :=
  .next (stable_world A) (fun _ _ => trivial) (fun s t => t.w = s.w) (fun _ _ => rfl) after

theorem meets_weaken {f : Func} (h : Meets m monitor A f) (himp : ∀ w, B w → A w) :
    Meets m monitor B f :=
  h.strengthen (stable_world B) fun s => himp s.w

/-- The rest of a function whose arguments go against what is known. -/
theorem meets_vacuous {f : Func} (h : ∀ w, ¬ A w) : Meets m monitor A f :=
  .vacuous (stable_world A) fun s => h s.w

theorem meets_of_eq {w : World} {f : Func} (hw : A w) (h : Meets m monitor A f) :
    Meets m monitor (· = w) f :=
  meets_weaken h fun _ heq => heq ▸ hw

/-- A patch that may be refused where the entries are at rest. -/
theorem meets_patch {addr : Addr} {data : List Byte} {len : ℕ}
    (hcode : ∀ w code, A w → A { w with code := code })
    (hrefused : (∀ w, A w → AtRest w) ∨
      ∀ p ∈ m.span addr len, m.grants p readWrite ∧ m.grants p readExec)
    (hbehind : Meets m monitor A behind) :
    Meets m monitor A (makeWritableAndPatch m addr data len behind) := by
  have hanswer : ∀ access (prot : Protections) (e : String),
      access = readWrite ∨ access = readExec →
      (mprotect m access (m.span addr len) prot).1 = false →
      Meets m monitor A (.done (.error e)) := by
    intro access prot e haccess hfalse
    rcases hrefused with hrest | hgranted
    · exact meets_done hrest
    · rw [CodePages.mprotect_answer] at hfalse
      refine absurd (CodePages.Mmu.granted_eq_self.mpr fun p hp => ?_) (of_decide_eq_false hfalse)
      rcases haccess with rfl | rfl
      · exact (hgranted p hp).1
      · exact (hgranted p hp).2
  unfold makeWritableAndPatch
  refine meets_next (fun _ _ => trivial) (fun _ => id) fun s _ => ?_
  split_ifs with hw
  · refine meets_next (fun _ _ => trivial) (fun w => hcode w _) fun _ _ => ?_
    refine meets_next (fun _ _ => trivial) (fun _ => id) fun s _ => ?_
    split_ifs with hx
    · exact hbehind
    · exact hanswer _ _ _ (.inr rfl) (by simpa using hx)
  · exact hanswer _ _ _ (.inl rfl) (by simpa using hw)

theorem atRest_maybeRemoveHandler {w : World} (h : AtRest w) :
    AtRest (SoftwareBreakpoint.maybeRemoveHandler w) := by
  obtain ⟨hjit, hheap⟩ := Lifetimes.maybeRemoveHandler_memory w
  exact h.congr (by simp) (by simp) (by simp) hjit hheap

/-- The end of `remove` and of `removeAll`. -/
theorem meets_end : Meets m monitor AtRest
    (.next .maybeRemoveHandler fun _ => .done (.ok none)) :=
  meets_next (fun _ _ => trivial) (fun _ => atRest_maybeRemoveHandler) fun _ _ =>
    meets_done fun _ => id

theorem meets_remove (bpId : ℕ) : Meets m monitor AtRest (remove m bpId) := by
  refine meets_skip fun s hs => ?_
  cases hlookup : s.w.bp.bpById.lookup bpId with
  | none => exact meets_of_eq hs (meets_done fun _ => id)
  | some e =>
      refine meets_of_eq (A := fun w => AtRest w ∧ w.bp.bpById.lookup bpId = some e)
        ⟨hs, hlookup⟩ ?_
      refine meets_patch (fun w code h => ⟨h.1.congr rfl rfl rfl rfl rfl, h.2⟩)
        (.inl fun _ h => h.1) ?_
      have hfound : ∀ {gone w}, Intact gone w → w.bp.bpById.lookup bpId = some e →
          Registered w e := fun h hlookup => h.indexed.toKey hlookup
      have hreleased : ∀ {p w}, w.bp.bpById.lookup bpId = some e →
          (World.releaseCode w p).bp.bpById.lookup bpId = some e := by
        intro p w hlookup
        rwa [World.releaseCode_bp]
      refine meets_next (B := fun w => Intact {e} w ∧ w.bp.bpById.lookup bpId = some e)
        (fun w h => h.1.known_trampoline (hfound h.1 h.2)) (fun w h => ?_) fun _ _ => ?_
      · have hgone := h.1.releaseTrampoline (hfound h.1 h.2)
        rw [insert_empty_eq] at hgone
        exact ⟨hgone, hreleased h.2⟩
      refine meets_next (B := fun w => Intact {e} w ∧ w.bp.bpById.lookup bpId = some e)
        (fun w h => h.1.known_relocated (hfound h.1 h.2) rfl)
        (fun w h => ⟨h.1.releaseRelocated (hfound h.1 h.2) rfl, hreleased h.2⟩) fun _ _ => ?_
      refine meets_next (B := fun w => AtRest (Act.onWorld (.eraseById bpId) w) ∧
          ∀ e', Registered w e' → e'.self ≠ e.self) (fun w h e' he' => ?_)
        (fun w h => h.1.erased h.2) fun _ _ => ?_
      · have hsame : e' = e := Option.some.inj (he'.symm.trans (hfound h.1 h.2))
        rw [hsame]
        exact h.1.released e (hfound h.1 h.2) rfl
      refine meets_next (B := fun w => AtRest w ∧ ∀ e', Registered w e' → e'.self ≠ e.self)
        (fun _ _ => trivial) (fun _ => id) fun _ _ => ?_
      refine meets_next (fun w h e' he' heq => absurd heq (h.2 e' he'))
        (fun w h => h.1.delete fun e' he' _ => h.2 e' he') fun _ _ => meets_end

/-- In the loop of `removeAll`: what is still to come is all that is left. -/
structure Restoring (gone : Set BreakpointEntry) (order : List (Σ _ : ℕ, BreakpointEntry))
    (w : World) : Prop where
  intact : Intact gone w
  ahead : ∀ p ∈ order, Registered w p.2 ∧ p.2 ∉ gone
  once : (order.map (·.2)).Nodup
  all : ∀ e, Registered w e → e ∈ gone ∨ ∃ p ∈ order, p.2 = e

theorem Restoring.congr {gone : Set BreakpointEntry} {order : List (Σ _ : ℕ, BreakpointEntry)}
    {w w' : World} (h : Restoring gone order w) (hbp : w'.bp = w.bp) (hintact : Intact gone w') :
    Restoring gone order w' := by
  have hreg : ∀ e, Registered w' e ↔ Registered w e := by
    intro e
    rw [Registered, Registered, hbp]
  exact ⟨hintact, fun p hp => ⟨(hreg _).mpr (h.ahead p hp).1, (h.ahead p hp).2⟩, h.once,
    fun e he => h.all e ((hreg e).mp he)⟩

theorem Restoring.next {gone : Set BreakpointEntry} {p : Σ _ : ℕ, BreakpointEntry}
    {order : List (Σ _ : ℕ, BreakpointEntry)} {w : World} (h : Restoring gone (p :: order) w) :
    Restoring (insert p.2 gone) order (w.releaseCode p.2.trampolineCode) ∧
      Registered (w.releaseCode p.2.trampolineCode) p.2 := by
  obtain ⟨⟨hreg, hnot⟩, hahead⟩ := List.forall_mem_cons.mp h.ahead
  obtain ⟨hfirst, honce⟩ := List.nodup_cons.mp h.once
  refine ⟨⟨h.intact.releaseTrampoline hreg, fun q hq => ?_, honce, fun e he => ?_⟩,
    registered_releaseCode.mpr hreg⟩
  · refine ⟨registered_releaseCode.mpr (hahead q hq).1, fun hgone => ?_⟩
    rcases hgone with heq | hgone
    · exact hfirst (List.mem_map.mpr ⟨q, hq, heq⟩)
    · exact (hahead q hq).2 hgone
  · rcases h.all e (registered_releaseCode.mp he) with hgone | ⟨q, hq, rfl⟩
    · exact .inl (.inr hgone)
    · rcases List.mem_cons.mp hq with rfl | hq
      · exact .inl (.inl rfl)
      · exact .inr ⟨q, hq, rfl⟩

theorem meets_restoreAll {gone : Set BreakpointEntry} {order : List (Σ _ : ℕ, BreakpointEntry)}
    (hgranted : ∀ p ∈ order, Granted m p.2)
    (hbehind : ∀ gone, Meets m monitor (Restoring gone []) behind) :
    Meets m monitor (Restoring gone order) (restoreAll m order behind) := by
  induction order generalizing gone with
  | nil => exact hbehind gone
  | cons p order ih =>
      obtain ⟨hfirst, hrest⟩ := List.forall_mem_cons.mp hgranted
      refine meets_patch (fun w code h => h.congr rfl (h.intact.congr rfl rfl rfl rfl rfl))
        (.inr hfirst) ?_
      refine meets_next (B := fun w => Restoring (insert p.2 gone) order w ∧ Registered w p.2)
        (fun w h => h.intact.known_trampoline (h.ahead p List.mem_cons_self).1)
        (fun w h => h.next) fun _ _ => ?_
      refine meets_next (B := fun w => Restoring (insert p.2 gone) order w ∧ Registered w p.2)
        (fun w h => h.1.intact.known_relocated h.2 (.inl rfl)) (fun w h => ?_) fun _ _ => ?_
      · exact ⟨h.1.congr (World.releaseCode_bp w _) (h.1.intact.releaseRelocated h.2 (.inl rfl)),
          registered_releaseCode.mpr h.2⟩
      exact meets_next (fun w h => h.1.intact.known_delete h.2 (.inl rfl))
        (fun w h => h.1.congr rfl (h.1.intact.deleteGone h.2 (.inl rfl))) fun _ _ => ih hrest

theorem meets_removeAll {order : List (Σ _ : ℕ, BreakpointEntry)}
    (hgranted : ∀ p ∈ order, Granted m p.2) :
    Meets m monitor (fun w => AtRest w ∧ order.Perm w.bp.bpById.entries) (removeAll m order) := by
  have hstart : ∀ w, AtRest w ∧ order.Perm w.bp.bpById.entries → Restoring ∅ order w := by
    rintro w ⟨hrest, hperm⟩
    refine ⟨hrest, fun p hp => ⟨?_, id⟩, ?_, fun e he => .inr ?_⟩
    · exact hrest.indexed.toKey (AList.mem_lookup_iff.mpr (hperm.mem_iff.mp hp))
    · exact ((hperm.map _).nodup_iff).mpr hrest.indexed.entries_perm.1
    · obtain ⟨-, id, hid⟩ := hrest.indexed.toId he
      exact ⟨⟨id, e⟩, hperm.mem_iff.mpr (AList.mem_lookup_iff.mp hid), rfl⟩
  refine meets_weaken (meets_restoreAll hgranted fun gone => ?_) hstart
  refine meets_next (B := fun w => AtRest (Act.onWorld .clearByAddress w) ∧
    ∀ a e, w.bp.bpByAddress.lookup a = some e → e.trampolineCode ∉ w.jit) (fun _ _ => trivial)
    (fun w h => ⟨atRest_cleared h.intact.tidy, fun a e he => ?_⟩) fun _ _ => ?_
  · have hreg : Registered w e := by
      rw [Registered, (h.intact.indexed.toId he).1]
      exact he
    rcases h.all e hreg with hgone | ⟨p, hp, -⟩
    · exact h.intact.released e hreg hgone
    · cases hp
  · exact meets_next (fun w h => h.2) (fun w h => h.1) fun _ _ => meets_end

/-- The patch of `set`, and the registration behind it. -/
theorem meets_register {entry : BreakpointEntry}
    (hne : entry.trampolineCode ≠ entry.relocatedCode) :
    Meets m monitor
      (Pending entry.address entry.self [entry.trampolineCode, entry.relocatedCode])
      (makeWritableAndPatch m entry.address (bpInsn .x64) Arch.x64.bpInsnSize <|
        .next (.bpById entry) fun s => .next (.bpByAddress entry) fun _ =>
          .done (.ok (some s.w.bp.nextBpId))) := by
  refine meets_patch (fun w code h => h.writeCode code) (.inl fun w h => h.rest) ?_
  refine meets_next (B := fun w => AtRest (Act.onWorld (.bpByAddress entry) w) ∧
    Known (.bpByAddress entry) w) (fun _ _ => trivial)
    (fun w h => ⟨h.entered hne, h.free, h.installed⟩) fun _ _ => ?_
  exact meets_next (fun w h => h.2) (fun w h => h.1) fun _ _ => meets_done fun _ => id

/-- An object that is not used after all. -/
theorem meets_giveUp {object : Addr} {e : String} : Meets m monitor
    (fun w => AtRest w ∧ ∀ e, Registered w e → e.self ≠ object)
    (.next (.delete object) fun _ => .done (.error e)) :=
  meets_next (fun _ h e he heq => absurd heq (h.2 e he))
    (fun _ h => h.1.delete fun e he _ => h.2 e he) fun _ _ => meets_done fun _ => id

theorem meets_set {env : SoftwareBreakpoint.Install} (address : Addr) (onHit : Callback)
    (hnull : NotNull env) : Meets m monitor
      (fun w => AtRest w ∧ FreshBlocks w env.self env.relocated env.trampoline)
      (set m env address onHit) := by
  refine meets_skip fun s hs => ?_
  split_ifs with hmem
  · exact meets_of_eq hs.1 (meets_done fun _ => id)
  refine meets_of_eq (A := fun w => (AtRest w ∧
    FreshBlocks w env.self env.relocated env.trampoline) ∧ address ∉ w.bp.bpByAddress)
    ⟨hs, hmem⟩ ?_
  refine meets_next (B := fun w => AtRest w ∧ w.bp.handlerInstalled = true ∧
    address ∉ w.bp.bpByAddress ∧ FreshBlocks w env.self env.relocated env.trampoline)
    (fun _ _ => trivial) (fun w h => ?_) fun _ _ => ?_
  · obtain ⟨⟨hrest, hfresh⟩, hfree⟩ := h
    obtain ⟨hjit, hheap⟩ := Lifetimes.ensureHandlerInstalled_memory w
    refine ⟨hrest.congr (by simp [Act.onWorld]) (by simp [Act.onWorld]) (by simp [Act.onWorld])
      hjit hheap, SoftwareBreakpoint.ensureHandlerInstalled_installed w, ?_,
      hfresh.congr hjit hheap⟩
    rwa [Act.onWorld, SoftwareBreakpoint.ensureHandlerInstalled_bpByAddress]
  refine meets_next (B := fun w => Pending address env.self [] w ∧
    (∀ r n, env.relocated = .ok (r, n) → r ∉ w.jit) ∧
    ∀ t, env.trampoline = .ok t → t ∉ w.jit ∧ ∀ r n, env.relocated = .ok (r, n) → t ≠ r)
    (fun _ _ => trivial) (fun w h => ?_) fun s _ => ?_
  · obtain ⟨hrest, hinstalled, hfree, hself, hrelocated, htrampoline⟩ := h
    exact ⟨.allocate hrest hinstalled hfree hself, hrelocated, htrampoline⟩
  cases hr : env.relocated with
  | error e =>
      exact meets_weaken meets_giveUp fun w h => ⟨h.1.rest, h.1.own⟩
  | ok block =>
      obtain ⟨r, n⟩ := block
      refine meets_next (B := fun w => Pending address env.self [r] w ∧
        ∀ t, env.trampoline = .ok t → t ∉ w.jit ∧ t ≠ r) (fun _ _ => trivial) (fun w h => ?_)
        fun _ _ => ?_
      · obtain ⟨hpending, hrelocated, htrampoline⟩ := h
        refine ⟨hpending.addCode (hrelocated r n rfl) (hnull.1 r n hr), fun t ht => ?_⟩
        obtain ⟨hfresh, hne⟩ := htrampoline t ht
        have htr := hne r n rfl
        exact ⟨List.not_mem_cons_of_ne_of_not_mem htr hfresh, htr⟩
      cases ht : env.trampoline with
      | error e =>
          refine meets_next (B := fun w => AtRest w ∧ ∀ e, Registered w e → e.self ≠ env.self)
            (fun w h => ⟨hnull.1 r n hr, h.1.rest.tidy.jit, fun e he heq => ?_⟩) (fun w h => ?_)
            fun _ _ => meets_giveUp
          · exact absurd heq (h.1.unshared e he r List.mem_cons_self).2
          · refine ⟨h.1.rest.releaseCode (hnull.1 r n hr) (fun e he _ => ?_) fun e _ => False.elim,
              fun e he => h.1.own e (registered_releaseCode.mp he)⟩
            exact ⟨id, h.1.unshared e he r List.mem_cons_self⟩
      | ok t =>
          refine meets_next (B := fun w => Pending address env.self [t, r] w ∧ t ≠ r)
            (fun _ _ => trivial) (fun w h => ?_) fun _ _ => ?_
          · obtain ⟨hfresh, hne⟩ := h.2 t rfl
            exact ⟨h.1.addCode hfresh (hnull.2 t ht), hne⟩
          by_cases hne : t ≠ r
          · let entry : BreakpointEntry :=
              { self := env.self, address := address,
                originalBytes := readBytes s.w.code address Arch.x64.bpInsnSize,
                originalInsnSize := n, trampolineCode := t, relocatedCode := r, onHit := onHit }
            exact meets_weaken (@meets_register m monitor entry hne) fun w h => h.1
          · exact meets_vacuous fun w h => hne h.2

theorem meets_call (c : Call) :
    Meets m monitor (fun w => AtRest w ∧ c.Permitted m w) (c.code m) := by
  cases c with
  | set env address onHit =>
      by_cases hnull : NotNull env
      · exact meets_weaken (meets_set address onHit hnull) fun w h => ⟨h.1, h.2.2⟩
      · exact meets_vacuous fun w h => hnull h.2.1
  | remove bpId => exact meets_weaken (meets_remove bpId) fun w h => h.1
  | removeAll order =>
      by_cases hgranted : ∀ p ∈ order, Granted m p.2
      · exact meets_weaken (meets_removeAll hgranted) fun w h => ⟨h.1, h.2.1⟩
      · exact meets_vacuous fun w h => hgranted h.2.2

end Contracts

/-! ## §10  Actions and threads -/

section Threads

variable {m : Mmu} {monitor : ExceptionContext → HandleAction × ExceptionContext} {s t : Shared}
  {w w' : World} {place : Place}

theorem Safe.imp (h : Safe w place) (hserves : ∀ e, Serves w e →
    place = .trapped e.address ∨ place = .inBlock e.trampolineCode → Serves w' e) :
    Safe w' place := by
  cases place with
  | running => trivial
  | trapped a =>
      obtain ⟨e, he, rfl⟩ := h
      exact ⟨e, hserves e he (.inl rfl), rfl⟩
  | inBlock p =>
      obtain ⟨e, he, rfl⟩ := h
      exact ⟨e, hserves e he (.inr rfl), rfl⟩
  | lost => exact h

/-- What the entries that threads are at keep, actions keep. -/
theorem sound_act {a : Act} (h : Sound s) (hknown : Known a s.w)
    (hcareful : Careful m (.own a) s) : Sound (act m a s) := by
  intro t
  refine Safe.imp (h t) fun e he hat => ?_
  obtain ⟨hreg, ht, hr, hself⟩ := he
  cases a with
  | skip | mprotect | copy | bpById | eraseById | clearById => exact ⟨hreg, ht, hr, hself⟩
  | ensureHandlerInstalled =>
      obtain ⟨hjit, hheap⟩ := Lifetimes.ensureHandlerInstalled_memory s.w
      exact ⟨by simpa [act, Act.onWorld] using hreg, hjit.symm ▸ ht, hjit.symm ▸ hr,
        hheap.symm ▸ hself⟩
  | maybeRemoveHandler =>
      obtain ⟨hjit, hheap⟩ := Lifetimes.maybeRemoveHandler_memory s.w
      exact ⟨by simpa [act, Act.onWorld] using hreg, hjit.symm ▸ ht, hjit.symm ▸ hr,
        hheap.symm ▸ hself⟩
  | allocate p => exact ⟨hreg, ht, hr, List.mem_cons_of_mem _ hself⟩
  | addCode p => exact ⟨hreg, List.mem_cons_of_mem _ ht, List.mem_cons_of_mem _ hr, hself⟩
  | releaseCode p =>
      obtain ⟨hnull, -, hrelocated⟩ := hknown
      refine Serves.releaseCode ⟨hreg, ht, hr, hself⟩ hnull (fun heq => ?_) fun heq => ?_
      · obtain ⟨htrap, hblock⟩ := hcareful e ⟨hreg, ht, hr, hself⟩ heq t
        exact hat.elim htrap fun hin => hblock (heq ▸ hin)
      · exact hrelocated e hreg heq ht
  | delete p =>
      refine ⟨hreg, ht, hr, (List.mem_erase_of_ne fun heq => ?_).mpr hself⟩
      exact hknown e hreg heq ht
  | bpByAddress entry =>
      refine ⟨?_, ht, hr, hself⟩
      have hne : e.address ≠ entry.address := by
        intro heq
        refine hknown.1 (AList.lookup_isSome.mp ?_)
        rw [← heq, hreg]
        rfl
      exact (AList.lookup_insert_ne hne).trans hreg
  | eraseByAddress a =>
      refine ⟨?_, ht, hr, hself⟩
      have hne : e.address ≠ a := by
        rintro rfl
        exact hknown e hreg ht
      exact (AList.lookup_erase_ne hne).trans hreg
  | clearByAddress => exact absurd ht (hknown _ e hreg)

/-- Releasing a trampoline with a thread in it or on the way to it. -/
theorem not_sound_act {a : Act} (hknown : Known a s.w) (hnot : ¬ Careful m (.own a) s) :
    ¬ Sound (act m a s) := by
  intro hsound
  cases a with
  | releaseCode p =>
      obtain ⟨hnull, hnodup, -⟩ := hknown
      have hgone : ∀ e, Serves (act m (.releaseCode p) s).w e → e.trampolineCode ≠ p := by
        rintro e he rfl
        have hmem := he.trampoline
        rw [act, Act.onWorld, releaseCode_jit hnull] at hmem
        exact hnodup.not_mem_erase hmem
      refine hnot fun e he heq t => ⟨fun htrapped => ?_, fun hin => ?_⟩
      · have hsafe := hsound t
        rw [show (act m (.releaseCode p) s).places t = .trapped e.address from htrapped] at hsafe
        obtain ⟨e', he', haddress⟩ := hsafe
        have hreg := registered_releaseCode.mp he'.registered
        rw [Registered, haddress, he.registered] at hreg
        exact hgone e' he' (Option.some.inj hreg ▸ heq)
      · have hsafe := hsound t
        rw [show (act m (.releaseCode p) s).places t = .inBlock p from hin] at hsafe
        obtain ⟨e', he', heq'⟩ := hsafe
        exact hgone e' he' heq'
  | skip | ensureHandlerInstalled | allocate | delete | addCode | mprotect | copy | bpById
    | bpByAddress | eraseByAddress | eraseById | clearById | clearByAddress
    | maybeRemoveHandler => exact hnot trivial

theorem sound_moveTo {t : Thread} (h : Sound s) (hplace : Safe s.w place) :
    Sound (s.moveTo t place) := by
  intro u
  by_cases hu : u = t
  · rw [hu]
    show Safe s.w (Function.update s.places t place t)
    rwa [Function.update_self]
  · show Safe s.w (Function.update s.places t place u)
    rw [Function.update_of_ne hu]
    exact h u

theorem not_sound_moveTo {t : Thread} (hplace : ¬ Safe s.w place) : ¬ Sound (s.moveTo t place) := by
  intro h
  have hsafe : Safe s.w (Function.update s.places t place t) := h t
  rw [Function.update_self] at hsafe
  exact hplace hsafe

theorem sound_others {e : Thread × Move} (hattended : Attended s.w) (h : Sound s)
    (hothers : Others m monitor s e t) (hcareful : Careful m (.other e) s) : Sound t := by
  cases hothers with
  | @fetch u x hrunning =>
      refine sound_moveTo h ?_
      obtain ⟨hexec, hentry⟩ := hcareful
      unfold fetched
      split_ifs with hpage htrap
      · rw [hexec] at hpage
        cases hpage
      · exact hentry htrap
      · trivial
  | @deliver u a htrapped =>
      refine sound_moveTo h ?_
      have hsafe := h u
      rw [htrapped] at hsafe
      obtain ⟨e, he, rfl⟩ := hsafe
      rw [hattended.delivered_eq he.registered]
      exact ⟨e, he, rfl⟩
  | leave => exact sound_moveTo h trivial

theorem not_sound_others {e : Thread × Move} (hothers : Others m monitor s e t)
    (hnot : ¬ Careful m (.other e) s) : ¬ Sound t := by
  cases hothers with
  | @fetch u x hrunning =>
      refine not_sound_moveTo fun hsafe => hnot ?_
      unfold fetched at hsafe
      split_ifs at hsafe with hpage htrap
      · exact hsafe.elim
      · exact ⟨by simpa using hpage, fun _ => hsafe⟩
      · exact ⟨by simpa using hpage, fun h => absurd h htrap⟩
  | deliver | leave => exact absurd trivial hnot

end Threads

/-! ## §11  Sessions -/

section Sessions

variable {m : Mmu} {monitor : ExceptionContext → HandleAction × ExceptionContext}

/-- Software breakpoints have not been used, and all threads run. -/
def start (code : Memory) (disposition : Sig → SigAction) (prot : Protections) :
    Underway Shared Act (Except String (Option ℕ)) :=
  ⟨.done (.ok none), ⟨World.start code disposition, prot, fun _ => .running⟩⟩

theorem governed : Governed (act m) (Others m monitor) (fun a s => Known a s.w)
    (fun s => Attended s.w) Sound (Careful m) where
  own _ _ h hknown := h.onWorld hknown
  other _ _ _ h hothers := by
    cases hothers <;> exact h
  keepOwn _ _ _ hP hknown hG := sound_act hP hknown hG
  keepOther _ _ _ hJ hP hothers hG := sound_others hJ hP hothers hG
  breakOwn _ _ _ _ hknown hG := not_sound_act hknown hG
  breakOther _ _ _ _ _ hothers hG := not_sound_others hothers hG

/-- All changes of protection are granted. -/
def granting : Mmu := (CodePages.refusing none).mmu 0

/-- A breakpoint in code of one-byte instructions. -/
def setOne : Call := .set ⟨0x10, .ok (0x20, 1), .ok 0x30, .ok⟩ 0x1000 0

def nops : Shared :=
  ⟨World.start (fun _ => 0x90) defaultActions, fun _ => readExec, fun _ => .running⟩

def noMonitor (ctx : ExceptionContext) : HandleAction × ExceptionContext := (.notHandled, ctx)

/-- The breakpoint is set. -/
def armed : Shared := ((setOne.code granting).run (act granting) nops).2

/-- It is removed while the trap of a thread is on its way. -/
def disarmed : Shared :=
  (((Call.remove 1).code granting).run (act granting)
    (armed.moveTo 0 (fetched granting armed 0x1000))).2

end Sessions

end BreakpointThreads

end Chromatic
