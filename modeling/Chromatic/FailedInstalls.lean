import Chromatic.Lifetimes

/-!
# Installing, all or nothing

What `attach`, `replace` and the two `set` leave behind when they throw. The blocks are released
behind a failed relocation, trampoline or platform call. A refused patch is not unwound, and
neither is the registration of a handler.

§1 installing · §2 as before the call · §3 the interceptor · §4 software breakpoints ·
§5 hardware breakpoints · §6 which failures are unwound · §7 a refused patch.
-/

namespace Chromatic

open Foundation ExceptionHandler
open Lifetimes (ensureHandlerInstalled_memory ensureHwHandlerInstalled_memory)

namespace FailedInstalls

/-! ## §1  Installing -/

inductive Call where
  | attach (env : Interceptor.Install) (target : Addr) (onEnter onLeave : Callback)
  | replace (env : Interceptor.Install) (target replacement : Addr)
  | swSet (env : SoftwareBreakpoint.Install) (address : Addr) (onHit : Callback)
  | hwSet (env : HardwareBreakpoint.Install) (address : Addr) (type : String) (size : ℤ)
      (onHit : Callback)

/-- `JitRuntime::add` returns no null pointer when it succeeds. -/
def NonNull (relocated : Except String (Addr × ℕ)) (trampoline : Except String Addr) : Prop :=
  (∀ r n, relocated = .ok (r, n) → r ≠ 0) ∧ ∀ t, trampoline = .ok t → t ≠ 0

def Call.NonNull : Call → Prop
  | .attach env _ _ _ => FailedInstalls.NonNull env.relocated env.trampoline
  | .replace env _ _ => FailedInstalls.NonNull env.relocated env.trampoline
  | .swSet env _ _ => FailedInstalls.NonNull env.relocated env.trampoline
  | .hwSet env _ _ _ _ => FailedInstalls.NonNull env.relocated env.trampoline

/-! ## §2  As before the call -/

/-- Code, registries, unreleased blocks, `g_handlers` and `g_refCount` are as they were. -/
structure AsBefore (w w' : World) : Prop where
  code : w'.code = w.code
  hooks : w'.hooks = w.hooks
  bpById : w'.bp.bpById = w.bp.bpById
  bpByAddress : w'.bp.bpByAddress = w.bp.bpByAddress
  nextBpId : w'.bp.nextBpId = w.bp.nextBpId
  hwById : w'.hw.hwById = w.hw.hwById
  hwByAddress : w'.hw.hwByAddress = w.hw.hwByAddress
  nextHwId : w'.hw.nextHwId = w.hw.nextHwId
  usedSlots : w'.hw.usedSlots = w.hw.usedSlots
  jit : w'.jit.Perm w.jit
  handlers : w'.exc.handlers = w.exc.handlers
  refCount : w'.exc.refCount = w.exc.refCount

/-- A call that throws leaves the world as it was. -/
def Unwound {α : Type} (w : World) (result : Except String α × World) : Prop :=
  ∀ e, result.1 = .error e → AsBefore w result.2

def Call.AllOrNothing (target : Target) (w : World) : Call → Prop
  | .attach env address onEnter onLeave =>
      Unwound w (Interceptor.attach target.arch env address onEnter onLeave w)
  | .replace env address replacement =>
      Unwound w (Interceptor.replace target.arch env address replacement w)
  | .swSet env address onHit => Unwound w (SoftwareBreakpoint.set target.arch env address onHit w)
  | .hwSet env address type size onHit =>
      Unwound w (HardwareBreakpoint.set target env address type size onHit w)

section AsBefore

variable {w w₁ w₂ : World} {self r t : Addr}

theorem AsBefore.refl (w : World) : AsBefore w w := by
  constructor <;> rfl

/-- Only blocks and allocations differ, and the blocks do not. -/
theorem AsBefore.of_frame (hcode : w₁.code = w.code) (hexc : w₁.exc = w.exc)
    (hbp : w₁.bp = w.bp) (hhooks : w₁.hooks = w.hooks) (hhw : w₁.hw = w.hw)
    (hjit : w₁.jit = w.jit) : AsBefore w w₁ := by
  constructor <;> simp only [hcode, hexc, hbp, hhooks, hhw, hjit, List.Perm.refl]

theorem releaseCode_jit_of_ne (w : World) (hr : r ≠ 0) :
    (w.releaseCode r).jit = w.jit.erase r := by
  rw [World.releaseCode, if_neg hr]

/-- The `catch` around `buildRelocatedCode`. -/
theorem asBefore_delete (w : World) (self : Addr) :
    AsBefore w ((w.allocate self).delete self) :=
  .of_frame rfl rfl rfl rfl rfl rfl

/-- The `catch` around `buildTrampoline`. -/
theorem asBefore_release (w : World) (self : Addr) (hr : r ≠ 0) :
    AsBefore w ((((w.allocate self).addCode r).releaseCode r).delete self) :=
  .of_frame (by simp) (by simp) (by simp) (by simp) (by simp)
    ((releaseCode_jit_of_ne _ hr).trans (List.erase_cons_head _ _))

/-- The unwinding behind the platform call. -/
theorem asBefore_releaseBoth (w : World) (self : Addr) (hr : r ≠ 0) (ht : t ≠ 0) :
    AsBefore w ((((((w.allocate self).addCode r).addCode t).releaseCode t).releaseCode r).delete
      self) := by
  refine .of_frame (by simp) (by simp) (by simp) (by simp) (by simp) ?_
  rw [World.delete, releaseCode_jit_of_ne _ hr, releaseCode_jit_of_ne _ ht]
  simp [World.addCode, World.allocate]

theorem not_asBefore_of_blocks (block : Addr) (more : List Addr)
    (h : w₁.jit = block :: more ++ w.jit) : ¬ AsBefore w w₁ := by
  intro hsame
  have hlength := hsame.jit.length_eq
  rw [h, List.length_append, List.length_cons] at hlength
  omega

/-- A reference that is not given back. -/
theorem not_asBefore_of_refEnable {w₀ : World} (h : AsBefore w₀ w₁)
    (hcount : w₀.exc.refCount = (refEnable w.exc).refCount) : ¬ AsBefore w w₁ := by
  intro hsame
  have hone := hsame.refCount.symm.trans (h.refCount.trans hcount)
  rw [refEnable_refCount] at hone
  omega

end AsBefore

/-! ## §3  The interceptor -/

section Interceptor

theorem attach_unwound_iff {env : Interceptor.Install}
    (hnonnull : NonNull env.relocated env.trampoline) (arch : Arch) (address : Addr)
    (onEnter onLeave : Callback) (w : World) :
    Unwound w (Interceptor.attach arch env address onEnter onLeave w) ↔
      address ∈ w.hooks.hooksByTarget ∨
        (env.relocated.isOk → env.trampoline.isOk → env.patch = .ok) := by
  unfold Interceptor.attach
  by_cases hmem : address ∈ w.hooks.hooksByTarget
  · rw [if_pos hmem]
    exact iff_of_true (fun _ _ => .refl w) (.inl hmem)
  · rw [if_neg hmem]
    cases hr : env.relocated with
    | error e => exact iff_of_true (fun _ _ => asBefore_delete w _) (.inr nofun)
    | ok block =>
        cases ht : env.trampoline with
        | error e =>
            have hblock := hnonnull.1 block.1 block.2 hr
            exact iff_of_true (fun _ _ => asBefore_release w _ hblock) (.inr fun _ => nofun)
        | ok t =>
            cases hp : env.patch with
            | ok => exact iff_of_true nofun (.inr fun _ _ => rfl)
            | rwDenied | rxDenied =>
                -- both blocks are still there
                refine iff_of_false (fun h => ?_) ?_
                · exact not_asBefore_of_blocks t [block.1] rfl (h _ rfl)
                · rintro (hlive | hok)
                  · exact hmem hlive
                  · cases hok rfl rfl

theorem replace_unwound_iff (env : Interceptor.Install) (arch : Arch)
    (address replacement : Addr) (w : World) :
    Unwound w (Interceptor.replace arch env address replacement w) ↔
      address ∈ w.hooks.hooksByTarget ∨ (env.relocated.isOk → env.patch = .ok) := by
  unfold Interceptor.replace
  by_cases hmem : address ∈ w.hooks.hooksByTarget
  · rw [if_pos hmem]
    exact iff_of_true (fun _ _ => .refl w) (.inl hmem)
  · rw [if_neg hmem]
    cases hr : env.relocated with
    | error e => exact iff_of_true (fun _ _ => asBefore_delete w _) (.inr nofun)
    | ok block =>
        cases hp : env.patch with
        | ok => exact iff_of_true nofun (.inr fun _ => rfl)
        | rwDenied | rxDenied =>
            refine iff_of_false (fun h => ?_) ?_
            · exact not_asBefore_of_blocks block.1 [] rfl (h _ rfl)
            · rintro (hlive | hok)
              · exact hmem hlive
              · cases hok rfl

end Interceptor

/-! ## §4  Software breakpoints -/

section Software

variable {w w₁ : World}

/-- Registering the handler is not taken back. -/
theorem asBefore_ensureSw_iff (h : AsBefore (SoftwareBreakpoint.ensureHandlerInstalled w) w₁) :
    AsBefore w w₁ ↔ w.bp.handlerInstalled = true := by
  unfold SoftwareBreakpoint.ensureHandlerInstalled at h
  split_ifs at h with hon
  · exact iff_of_true h hon
  · exact iff_of_false (not_asBefore_of_refEnable h rfl) hon

theorem swSet_unwound_iff {env : SoftwareBreakpoint.Install}
    (hnonnull : NonNull env.relocated env.trampoline) (arch : Arch) (address : Addr)
    (onHit : Callback) (w : World) :
    Unwound w (SoftwareBreakpoint.set arch env address onHit w) ↔
      address ∈ w.bp.bpByAddress ∨
        if env.relocated.isOk ∧ env.trampoline.isOk then env.patch = .ok
        else w.bp.handlerInstalled = true := by
  unfold SoftwareBreakpoint.set
  by_cases hmem : address ∈ w.bp.bpByAddress
  · rw [if_pos hmem]
    exact iff_of_true (fun _ _ => .refl w) (.inl hmem)
  · rw [if_neg hmem, or_iff_right hmem]
    cases hr : env.relocated with
    | error e =>
        rw [if_neg (by simp [Except.isOk, Except.toBool])]
        refine Iff.trans ?_ (asBefore_ensureSw_iff (asBefore_delete _ env.self))
        exact ⟨fun h => h e rfl, fun h _ _ => h⟩
    | ok block =>
        cases ht : env.trampoline with
        | error e =>
            rw [if_neg (by simp [Except.isOk, Except.toBool])]
            have hblock := hnonnull.1 block.1 block.2 hr
            refine Iff.trans ?_ (asBefore_ensureSw_iff (asBefore_release _ env.self hblock))
            exact ⟨fun h => h e rfl, fun h _ _ => h⟩
        | ok t =>
            rw [if_pos ⟨rfl, rfl⟩]
            cases hp : env.patch with
            | ok => exact iff_of_true nofun rfl
            | rwDenied | rxDenied =>
                refine iff_of_false (fun h => ?_) nofun
                refine not_asBefore_of_blocks t [block.1] ?_ (h _ rfl)
                exact congrArg ([t, block.1] ++ ·) (ensureHandlerInstalled_memory w).1

end Software

/-! ## §5  Hardware breakpoints -/

section Hardware

open HardwareBreakpoint (parseType platformMaxBreakpoints findFreeSlot buildBlocks arm
  linuxSetHwBp_refused   ensureHwHandlerInstalled)

variable {w w₁ : World}

/-- The blocks an execute breakpoint needs are built. -/
def Built (env : HardwareBreakpoint.Install) (typeStr : String) : Prop :=
  parseType typeStr = .ok .execute → env.relocated.isOk ∧ env.trampoline.isOk

/-- The platform call goes through. On Linux it never does. -/
def Armable (os : Os) (usedSlots : BitVec 32) : Prop :=
  os ≠ .linux ∧ (findFreeSlot usedSlots).isSome

/-- `set` refuses before it acquires anything. -/
def Refused (target : Target) (address : Addr) (typeStr : String) (h : HwState) : Prop :=
  target = ⟨.arm64, .darwin⟩ ∨ (parseType typeStr).isOk = false ∨ address ∈ h.hwByAddress ∨
    platformMaxBreakpoints target ≤ h.hwByAddress.entries.length

theorem asBefore_ensureHw_iff (h : AsBefore (ensureHwHandlerInstalled w) w₁) :
    AsBefore w w₁ ↔ w.hw.hwHandlerInstalled = true := by
  unfold ensureHwHandlerInstalled at h
  split_ifs at h with hon
  · exact iff_of_true h hon
  · exact iff_of_false (not_asBefore_of_refEnable h rfl) hon

/-- A failure to build the blocks is unwound, and blocks that are built can be. -/
theorem buildBlocks_unwound {env : HardwareBreakpoint.Install}
    (hnonnull : NonNull env.relocated env.trampoline) (type : HwBpType) (w : World) :
    (∃ e w₁, buildBlocks env type (w.allocate env.self) = (.error e, w₁) ∧
      ¬ (type = .execute → env.relocated.isOk ∧ env.trampoline.isOk) ∧ AsBefore w w₁) ∨
    ∃ r t w₁, buildBlocks env type (w.allocate env.self) = (.ok (r, t), w₁) ∧
      (type = .execute → env.relocated.isOk ∧ env.trampoline.isOk) ∧ w₁.hw = w.hw ∧
      AsBefore w (((w₁.releaseCode t).releaseCode r).delete env.self) := by
  unfold buildBlocks
  by_cases htype : type = .execute
  · rw [if_pos htype]
    cases hr : env.relocated with
    | error e =>
        exact .inl ⟨e, _, rfl, by simp [htype, Except.isOk, Except.toBool], asBefore_delete w _⟩
    | ok block =>
        have hblock := hnonnull.1 block.1 block.2 hr
        cases ht : env.trampoline with
        | error e =>
            exact .inl ⟨e, _, rfl, by simp [htype, Except.isOk, Except.toBool],
              asBefore_release w _ hblock⟩
        | ok t =>
            exact .inr ⟨block.1, t, _, rfl, fun _ => ⟨rfl, rfl⟩, rfl,
              asBefore_releaseBoth w _ hblock (hnonnull.2 t ht)⟩
  · rw [if_neg htype]
    refine .inr ⟨0, 0, _, rfl, fun h => absurd h htype, rfl, ?_⟩
    exact asBefore_delete w _

theorem arm_armable (os : Os) (addr : Addr) (type : HwBpType) (bpSize perfFd : ℤ) (h : HwState) :
    (∃ e, arm os addr type bpSize perfFd h = (.error e, h) ∧ ¬ Armable os h.usedSlots) ∨
    ∃ slot h', arm os addr type bpSize perfFd h = (.ok slot, h') ∧ Armable os h.usedSlots := by
  unfold arm Armable
  cases os with
  | linux => exact .inl ⟨_, by rw [linuxSetHwBp_refused], by simp⟩
  | darwin | windows =>
      cases hfree : findFreeSlot h.usedSlots with
      | none => exact .inl ⟨_, rfl, by simp⟩
      | some i => exact .inr ⟨_, _, rfl, by simp⟩

theorem hwSet_refused {target : Target} {address : Addr} {typeStr : String}
    (h : Refused target address typeStr w.hw) (env : HardwareBreakpoint.Install) (size : ℤ)
    (onHit : Callback) :
    ∃ e, HardwareBreakpoint.set target env address typeStr size onHit w = (.error e, w) := by
  unfold HardwareBreakpoint.set
  by_cases hunsupported : target = ⟨.arm64, .darwin⟩
  · exact ⟨_, if_pos hunsupported⟩
  rw [if_neg hunsupported]
  cases htype : parseType typeStr with
  | error e => exact ⟨e, rfl⟩
  | ok type =>
      by_cases hmem : address ∈ w.hw.hwByAddress
      · exact ⟨_, if_pos hmem⟩
      by_cases hmax : platformMaxBreakpoints target ≤ w.hw.hwByAddress.entries.length
      · exact ⟨_, (if_neg hmem).trans (if_pos hmax)⟩
      · simp [Refused, hunsupported, htype, hmem, hmax, Except.isOk, Except.toBool] at h

/-- Past the checks `set` throws exactly when it cannot build or arm, and then only the
handler's registration is left. -/
theorem hwSet_accepted {target : Target} {address : Addr} {typeStr : String}
    (h : ¬ Refused target address typeStr w.hw) {env : HardwareBreakpoint.Install}
    (hnonnull : NonNull env.relocated env.trampoline) (size : ℤ) (onHit : Callback) :
    (∃ e w₁, HardwareBreakpoint.set target env address typeStr size onHit w = (.error e, w₁) ∧
      ¬ (Built env typeStr ∧ Armable target.os w.hw.usedSlots) ∧
      AsBefore (ensureHwHandlerInstalled w) w₁) ∨
    ∃ bpId w₁, HardwareBreakpoint.set target env address typeStr size onHit w = (.ok bpId, w₁) ∧
      Built env typeStr ∧ Armable target.os w.hw.usedSlots := by
  obtain ⟨hsupported, hparses, hmem, hmax⟩ : target ≠ ⟨.arm64, .darwin⟩ ∧
      ¬ (parseType typeStr).isOk = false ∧ address ∉ w.hw.hwByAddress ∧
      ¬ platformMaxBreakpoints target ≤ w.hw.hwByAddress.entries.length := by
    simpa only [Refused, not_or] using h
  unfold HardwareBreakpoint.set Built
  rw [if_neg hsupported]
  cases htype : parseType typeStr with
  | error e => simp [htype, Except.isOk, Except.toBool] at hparses
  | ok type =>
      simp only [if_neg hmem, if_neg hmax, Except.ok.injEq]
      rcases buildBlocks_unwound hnonnull type (ensureHwHandlerInstalled w) with
        ⟨e, w₁, hbuild, hnot, hsame⟩ | ⟨r, t, w₁, hbuild, hbuilt, hhw, hsame⟩
      · rw [hbuild]
        exact .inl ⟨e, w₁, rfl, fun hboth => hnot hboth.1, hsame⟩
      · rw [hbuild]
        dsimp only
        rw [hhw]
        rcases arm_armable target.os address type size env.perfFd
            (ensureHwHandlerInstalled w).hw with
          ⟨e, harm, hnot⟩ | ⟨slot, hw, harm, harmable⟩
        · rw [HardwareBreakpoint.ensureHwHandlerInstalled_usedSlots] at hnot
          rw [harm]
          exact .inl ⟨e, _, rfl, fun hboth => hnot hboth.2, hsame⟩
        · rw [HardwareBreakpoint.ensureHwHandlerInstalled_usedSlots] at harmable
          rw [harm]
          exact .inr ⟨_, _, rfl, hbuilt, harmable⟩

theorem hwSet_unwound_iff {env : HardwareBreakpoint.Install}
    (hnonnull : NonNull env.relocated env.trampoline) (target : Target) (address : Addr)
    (typeStr : String) (size : ℤ) (onHit : Callback) (w : World) :
    Unwound w (HardwareBreakpoint.set target env address typeStr size onHit w) ↔
      Refused target address typeStr w.hw ∨ w.hw.hwHandlerInstalled = true ∨
        (Built env typeStr ∧ Armable target.os w.hw.usedSlots) := by
  by_cases hrefused : Refused target address typeStr w.hw
  · obtain ⟨e, heq⟩ := hwSet_refused hrefused env size onHit
    rw [heq]
    exact iff_of_true (fun _ _ => .refl w) (.inl hrefused)
  · rw [or_iff_right hrefused]
    rcases hwSet_accepted hrefused hnonnull size onHit with
      ⟨e, w₁, heq, hnot, hsame⟩ | ⟨bpId, w₁, heq, hall⟩
    · rw [heq, or_iff_left hnot, ← asBefore_ensureHw_iff hsame]
      exact ⟨fun h => h e rfl, fun h _ _ => h⟩
    · rw [heq]
      exact iff_of_true nofun (.inr hall)

end Hardware

/-! ## §6  Which failures are unwound -/

/-- The call is refused at once or goes through, or it fails in the relocator, the trampoline or
the platform call, with the handler it needs registered before. -/
def Call.Unwinds (target : Target) (w : World) : Call → Prop
  | .attach env address _ _ => address ∈ w.hooks.hooksByTarget ∨
      (env.relocated.isOk → env.trampoline.isOk → env.patch = .ok)
  | .replace env address _ => address ∈ w.hooks.hooksByTarget ∨
      (env.relocated.isOk → env.patch = .ok)
  | .swSet env address _ => address ∈ w.bp.bpByAddress ∨
      if env.relocated.isOk ∧ env.trampoline.isOk then env.patch = .ok
      else w.bp.handlerInstalled = true
  | .hwSet env address type _ _ => Refused target address type w.hw ∨
      w.hw.hwHandlerInstalled = true ∨
        (Built env type ∧ Armable target.os w.hw.usedSlots)

/-- **Installing is not all or nothing.** A call that throws leaves everything as it was, in
whatever world it is made, if and only if its failure is one of those that are unwound. -/
theorem allOrNothing_iff (target : Target) (c : Call) (hnonnull : c.NonNull) (w : World) :
    c.AllOrNothing target w ↔ c.Unwinds target w := by
  cases c with
  | attach env address onEnter onLeave =>
      exact attach_unwound_iff hnonnull target.arch address onEnter onLeave w
  | replace env address replacement =>
      exact replace_unwound_iff env target.arch address replacement w
  | swSet env address onHit => exact swSet_unwound_iff hnonnull target.arch address onHit w
  | hwSet env address type size onHit =>
      exact hwSet_unwound_iff hnonnull target address type size onHit w

/-! ## §7  A refused patch -/

section Concrete

def fresh : World := World.start (fun _ => 0) defaultActions

def withoutTrampoline : Call :=
  .attach ⟨0x10, .ok (0x5000, 14), .error "asmjit: failed to build trampoline", .ok⟩ 0x1000 0 1

/-- The trampoline cannot be built: the relocated code is released again. -/
theorem allOrNothing_trampoline : withoutTrampoline.AllOrNothing ⟨.x64, .linux⟩ fresh := by
  refine (allOrNothing_iff _ withoutTrampoline ?_ fresh).mpr (.inr fun _ => nofun)
  simp [withoutTrampoline, Call.NonNull, NonNull]

/-- The jump is written and the page cannot be made executable again: `attach` throws, and the
jump and both blocks stay. -/
theorem attach_left_behind :
    ¬ (Call.attach ⟨0x10, .ok (0x5000, 14), .ok 0x5100, .rxDenied⟩ 0x1000 0 1).AllOrNothing
      ⟨.x64, .linux⟩ fresh := by
  intro h
  exact absurd (h "mprotect(RX) failed" rfl).jit.length_eq (by decide)

end Concrete

end FailedInstalls

end Chromatic
