import Chromatic.SoftwareBreakpoint
import Chromatic.HardwareBreakpoint
import Chromatic.Foundation.IndexedRegistry

/-!
# Routing of breakpoint traps

On Linux x86_64 the two breakpoint subsystems claim traps in one chain, in the
order in which they registered. Each looks at the saved program counter only: the
software side one byte back, the hardware side at the counter itself.

§1 the chain · §2 live breakpoints · §3 which entry takes a trap · §4 traps and
their destinations.
-/

namespace Chromatic

open Foundation ExceptionHandler

namespace TrapRouting

/-! ## §1  The chain -/

def linuxX64 : Target := ⟨.x64, .linux⟩

section Routing

variable (monitor : ExceptionContext → HandleAction × ExceptionContext)

/-- The registered functions. Linux leaves DR6 unread; `monitor` stands for the
memory monitor's handler, which takes no breakpoint traps. -/
def invoke (w : World) : HandlerFn → ExceptionContext → HandleAction × ExceptionContext
  | .breakpointSigtrapHandler, ctx =>
      SoftwareBreakpoint.breakpointSigtrapHandler linuxX64 w.bp ctx
  | .hwBpSigtrapHandler, ctx =>
      let (action, ctx, _) := HardwareBreakpoint.hwBpSigtrapHandler none [] w.hw ctx
      (action, ctx)
  | .monitorSegvHandler, ctx => monitor ctx

/-! ## §2  Live breakpoints -/

def swEntry (w : World) (pc : Addr) : Option BreakpointEntry :=
  w.bp.bpByAddress.lookup (pc - 1)

def hwEntry (w : World) (pc : Addr) : Option HwBreakpointEntry :=
  (w.hw.hwByAddress.lookup pc).filter fun e => e.type = .execute

/-- What the registration of live breakpoints amounts to: their handlers are in the
chain, nobody else takes breakpoint traps, and every trampoline is a block of its
own. -/
structure Armed (w : World) : Prop where
  sw : ∀ pc e, swEntry w pc = some e →
    ∃ h ∈ w.exc.handlers, h.type = .breakpoint ∧ h.callback = .breakpointSigtrapHandler
  hw : ∀ pc e, hwEntry w pc = some e →
    ∃ h ∈ w.exc.handlers, h.type = .breakpoint ∧ h.callback = .hwBpSigtrapHandler
  own : ∀ h ∈ w.exc.handlers, h.type = .breakpoint → h.callback ≠ .monitorSegvHandler
  built : ∀ pc e, hwEntry w pc = some e → e.trampolineCode ≠ 0
  apart : ∀ pc pc' e e', swEntry w pc = some e → hwEntry w pc' = some e' →
    e.trampolineCode ≠ e'.trampolineCode

/-- Whom the chain asks first about a breakpoint trap. -/
def firstHandler (w : World) : Option HandlerFn :=
  (w.exc.handlers.find? (·.type = .breakpoint)).map (·.callback)

/-! ## §3  Which entry takes a trap -/

variable {monitor} {w : World} {ctx : ExceptionContext}

theorem invoke_sw : invoke monitor w .breakpointSigtrapHandler ctx =
    match swEntry w ctx.pc with
    | none => (.notHandled, ctx)
    | some e => (.handled, { ctx with pc := e.trampolineCode }) := rfl

theorem invoke_hw (h : Armed w) : invoke monitor w .hwBpSigtrapHandler ctx =
    match hwEntry w ctx.pc with
    | none => (.notHandled, ctx)
    | some e => (.handled, { ctx with pc := e.trampolineCode }) := by
  cases hl : w.hw.hwByAddress.lookup ctx.pc with
  | none => simp [invoke, HardwareBreakpoint.hwBpSigtrapHandler, hwEntry, hl]
  | some e =>
      by_cases htype : e.type = .execute
      · have hentry : hwEntry w ctx.pc = some e := by simp [hwEntry, hl, htype]
        have hbuilt : e.trampolineCode ≠ 0#64 := h.built ctx.pc e hentry
        simp [invoke, HardwareBreakpoint.hwBpSigtrapHandler, hentry, hl, htype, hbuilt]
      · have hentry : hwEntry w ctx.pc = none := by simp [hwEntry, hl, htype]
        simp [invoke, HardwareBreakpoint.hwBpSigtrapHandler, hentry, hl, htype]

section Chain

variable (h : Armed w) (hctx : ctx.type = .breakpoint)
include h hctx

/-- Both subsystems pass. -/
theorem route_neither (hsw : swEntry w ctx.pc = none) (hhw : hwEntry w ctx.pc = none) :
    dispatch (invoke monitor w) w.exc.handlers ctx = (.notHandled, ctx) := by
  refine dispatch_none fun e he htype => ?_
  have hown := h.own e he (htype.trans hctx)
  cases hcallback : e.callback with
  | breakpointSigtrapHandler => rw [invoke_sw, hsw]
  | hwBpSigtrapHandler => rw [invoke_hw h, hhw]
  | monitorSegvHandler => exact absurd hcallback hown

theorem route_sw {e : BreakpointEntry} (hsw : swEntry w ctx.pc = some e)
    (hclear : hwEntry w ctx.pc = none ∨ firstHandler w = some .breakpointSigtrapHandler) :
    dispatch (invoke monitor w) w.exc.handlers ctx =
      (.handled, { ctx with pc := e.trampolineCode }) := by
  have hclaim : invoke monitor w .breakpointSigtrapHandler ctx =
      (.handled, { ctx with pc := e.trampolineCode }) := by rw [invoke_sw, hsw]
  rcases hclear with hhw | hfirst
  · obtain ⟨entry, hmem, htype, hcallback⟩ := h.sw _ _ hsw
    refine dispatch_only ⟨entry, hmem, htype.trans hctx.symm, hcallback⟩ hclaim
      fun e' he' htype' hne => ?_
    have hown := h.own e' he' (htype'.trans hctx)
    cases hcallback' : e'.callback with
    | breakpointSigtrapHandler => exact absurd hcallback' hne
    | hwBpSigtrapHandler => rw [invoke_hw h, hhw]
    | monitorSegvHandler => exact absurd hcallback' hown
  · obtain ⟨entry, hfind, hcallback⟩ := Option.map_eq_some_iff.mp hfirst
    rw [← hcallback] at hclaim
    exact dispatch_first (by simpa only [hctx] using hfind) hclaim

theorem route_hw {e : HwBreakpointEntry} (hhw : hwEntry w ctx.pc = some e)
    (hclear : swEntry w ctx.pc = none ∨ firstHandler w = some .hwBpSigtrapHandler) :
    dispatch (invoke monitor w) w.exc.handlers ctx =
      (.handled, { ctx with pc := e.trampolineCode }) := by
  have hclaim : invoke monitor w .hwBpSigtrapHandler ctx =
      (.handled, { ctx with pc := e.trampolineCode }) := by rw [invoke_hw h, hhw]
  rcases hclear with hsw | hfirst
  · obtain ⟨entry, hmem, htype, hcallback⟩ := h.hw _ _ hhw
    refine dispatch_only ⟨entry, hmem, htype.trans hctx.symm, hcallback⟩ hclaim
      fun e' he' htype' hne => ?_
    have hown := h.own e' he' (htype'.trans hctx)
    cases hcallback' : e'.callback with
    | breakpointSigtrapHandler => rw [invoke_sw, hsw]
    | hwBpSigtrapHandler => exact absurd hcallback' hne
    | monitorSegvHandler => exact absurd hcallback' hown
  · obtain ⟨entry, hfind, hcallback⟩ := Option.map_eq_some_iff.mp hfirst
    rw [← hcallback] at hclaim
    exact dispatch_first (by simpa only [hctx] using hfind) hclaim

end Chain

/-- Once a breakpoint is live, one of the two subsystems is asked first. -/
theorem Armed.first (h : Armed w)
    (hlive : ∃ e ∈ w.exc.handlers, e.type = .breakpoint) :
    firstHandler w = some .breakpointSigtrapHandler ∨
      firstHandler w = some .hwBpSigtrapHandler := by
  unfold firstHandler
  cases hfind : w.exc.handlers.find? (·.type = .breakpoint) with
  | none =>
      obtain ⟨e, he, htype⟩ := hlive
      simpa [htype] using List.find?_eq_none.mp hfind e he
  | some e =>
      have htype : e.type = .breakpoint := by simpa using List.find?_some hfind
      have hown := h.own e (List.mem_of_find?_eq_some hfind) htype
      cases hcallback : e.callback with
      | breakpointSigtrapHandler => exact Or.inl (by simp [hcallback])
      | hwBpSigtrapHandler => exact Or.inr (by simp [hcallback])
      | monitorSegvHandler => exact absurd hcallback hown

/-! ## §4  Traps and their destinations -/

inductive Trap where
  | int3 (a : Addr)
  | hwExec (a : Addr)
  | other (pc : Addr)
deriving DecidableEq, Repr

/-- `INT3` reports the address after it, a hardware breakpoint its own. -/
def Trap.pc : Trap → Addr
  | .int3 a => a + 1
  | .hwExec a => a
  | .other pc => pc

/-- The trap can arise: its breakpoint is live. -/
def Trap.Raised (w : World) : Trap → Prop
  | .int3 a => a ∈ w.bp.bpByAddress
  | .hwExec a => ∃ e, w.hw.hwByAddress.lookup a = some e ∧ e.type = .execute
  | .other _ => True

/-- The trap is claimed and resumes at its breakpoint's trampoline, or belongs to
none and is forwarded with its program counter. -/
def Trap.Routed (w : World) (result : Option Forward × ExceptionContext) : Trap → Prop
  | .int3 a => ∃ e, w.bp.bpByAddress.lookup a = some e ∧ result.1 = none ∧
      result.2.pc = e.trampolineCode
  | .hwExec a => ∃ e, w.hw.hwByAddress.lookup a = some e ∧ result.1 = none ∧
      result.2.pc = e.trampolineCode
  | .other pc => result.1 = some (forwardToOriginal (w.exc.old .sigtrap)) ∧
      result.2.pc = pc

/-- No live breakpoint of the other kind answers to the same program counter, or
the right handler is asked first. -/
def Trap.Unambiguous (w : World) : Trap → Prop
  | .int3 a => hwEntry w (a + 1) = none ∨ firstHandler w = some .breakpointSigtrapHandler
  | .hwExec a => swEntry w a = none ∨ firstHandler w = some .hwBpSigtrapHandler
  | .other pc => swEntry w pc = none ∧ hwEntry w pc = none

/-- A trap that one of the two subsystems answers to is claimed. -/
theorem Armed.claimed (h : Armed w) (hctx : ctx.type = .breakpoint)
    (hsome : ¬ (swEntry w ctx.pc = none ∧ hwEntry w ctx.pc = none)) :
    ∃ ctx', dispatch (invoke monitor w) w.exc.handlers ctx = (.handled, ctx') := by
  cases hsw : swEntry w ctx.pc with
  | none =>
      cases hhw : hwEntry w ctx.pc with
      | none => exact absurd ⟨hsw, hhw⟩ hsome
      | some e => exact ⟨_, route_hw h hctx hhw (Or.inl hsw)⟩
  | some e =>
      cases hhw : hwEntry w ctx.pc with
      | none => exact ⟨_, route_sw h hctx hsw (Or.inl hhw)⟩
      | some e' =>
          obtain ⟨entry, hmem, htype, -⟩ := h.sw _ _ hsw
          rcases h.first ⟨entry, hmem, htype⟩ with hfirst | hfirst
          · exact ⟨_, route_sw h hctx hsw (Or.inr hfirst)⟩
          · exact ⟨_, route_hw h hctx hhw (Or.inr hfirst)⟩

/-- A software breakpoint gets its trap unless a hardware breakpoint answers to the program
counter too and is asked first. -/
theorem Armed.route_sw_iff {e : BreakpointEntry} (h : Armed w) (hctx : ctx.type = .breakpoint)
    (hsw : swEntry w ctx.pc = some e) :
    (dispatch (invoke monitor w) w.exc.handlers ctx).2.pc = e.trampolineCode ↔
      hwEntry w ctx.pc = none ∨ firstHandler w = some .breakpointSigtrapHandler := by
  constructor
  · intro hto
    by_contra hamb
    obtain ⟨hhw, hfirst⟩ := not_or.mp hamb
    obtain ⟨other, hhw⟩ := Option.ne_none_iff_exists'.mp hhw
    obtain ⟨entry, hmem, htype, -⟩ := h.sw _ _ hsw
    have hhwfirst := (h.first ⟨entry, hmem, htype⟩).resolve_left hfirst
    rw [route_hw h hctx hhw (Or.inr hhwfirst)] at hto
    exact h.apart _ _ _ _ hsw hhw hto.symm
  · intro hclear
    rw [route_sw h hctx hsw hclear]

/-- And the other way round. -/
theorem Armed.route_hw_iff {e : HwBreakpointEntry} (h : Armed w) (hctx : ctx.type = .breakpoint)
    (hhw : hwEntry w ctx.pc = some e) :
    (dispatch (invoke monitor w) w.exc.handlers ctx).2.pc = e.trampolineCode ↔
      swEntry w ctx.pc = none ∨ firstHandler w = some .hwBpSigtrapHandler := by
  constructor
  · intro hto
    by_contra hamb
    obtain ⟨hsw, hfirst⟩ := not_or.mp hamb
    obtain ⟨other, hsw⟩ := Option.ne_none_iff_exists'.mp hsw
    obtain ⟨entry, hmem, htype, -⟩ := h.hw _ _ hhw
    have hswfirst := (h.first ⟨entry, hmem, htype⟩).resolve_right hfirst
    rw [route_sw h hctx hsw (Or.inr hswfirst)] at hto
    exact h.apart _ _ _ _ hsw hhw hto
  · intro hclear
    rw [route_hw h hctx hhw hclear]

section Signal

variable {info : SigInfo} {ctx' : ExceptionContext}

theorem globalSignalHandler_handled
    (hd : dispatch (invoke monitor w) w.exc.handlers
      (buildContextFromSignal linuxX64 .sigtrap info) = (.handled, ctx')) :
    globalSignalHandler (invoke monitor w) linuxX64 w.exc .sigtrap info = (none, ctx') := by
  rw [globalSignalHandler, hd]

theorem globalSignalHandler_notHandled
    (hd : dispatch (invoke monitor w) w.exc.handlers
      (buildContextFromSignal linuxX64 .sigtrap info) = (.notHandled, ctx')) :
    globalSignalHandler (invoke monitor w) linuxX64 w.exc .sigtrap info =
      (some (forwardToOriginal (w.exc.old .sigtrap)), ctx') := by
  rw [globalSignalHandler, hd]

end Signal

/-- **Traps reach their breakpoints.** A breakpoint trap goes to the breakpoint that
raised it, and a trap from none is forwarded as it came, exactly when the two
subsystems cannot confuse it. -/
theorem routed_iff (h : Armed w) {trap : Trap} (hraised : trap.Raised w) {info : SigInfo}
    (hcode : info.code ≠ .trapTrace) (hpc : info.pc = trap.pc) :
    trap.Routed w (globalSignalHandler (invoke monitor w) linuxX64 w.exc .sigtrap info) ↔
      trap.Unambiguous w := by
  have hctx : (buildContextFromSignal linuxX64 .sigtrap info).type = .breakpoint := by
    simp [buildContextFromSignal, hcode]
  have hctxpc : (buildContextFromSignal linuxX64 .sigtrap info).pc = trap.pc := hpc
  cases trap with
  | int3 a =>
      obtain ⟨e, he⟩ := Option.isSome_iff_exists.mp (AList.lookup_isSome.mpr hraised)
      have hsw : swEntry w (a + 1) = some e := by rw [swEntry, BitVec.add_sub_cancel, he]
      rw [Trap.pc] at hctxpc
      rw [← hctxpc] at hsw
      obtain ⟨ctx', hd⟩ := @Armed.claimed monitor _ _ h hctx (by simp [hsw])
      have hiff := @Armed.route_sw_iff monitor _ _ _ h hctx hsw
      rw [hd, hctxpc] at hiff
      rw [globalSignalHandler_handled hd, Trap.Unambiguous, ← hiff]
      constructor
      · rintro ⟨e', he', -, hto⟩
        obtain rfl : e = e' := Option.some.inj (he.symm.trans he')
        exact hto
      · intro hto
        exact ⟨e, he, rfl, hto⟩
  | hwExec a =>
      obtain ⟨e, he, hexec⟩ := hraised
      have hhw : hwEntry w a = some e := by simp [hwEntry, he, hexec]
      rw [Trap.pc] at hctxpc
      rw [← hctxpc] at hhw
      obtain ⟨ctx', hd⟩ := @Armed.claimed monitor _ _ h hctx (by simp [hhw])
      have hiff := @Armed.route_hw_iff monitor _ _ _ h hctx hhw
      rw [hd, hctxpc] at hiff
      rw [globalSignalHandler_handled hd, Trap.Unambiguous, ← hiff]
      constructor
      · rintro ⟨e', he', -, hto⟩
        obtain rfl : e = e' := Option.some.inj (he.symm.trans he')
        exact hto
      · intro hto
        exact ⟨e, he, rfl, hto⟩
  | other pc =>
      rw [Trap.pc] at hctxpc
      constructor
      · rintro ⟨hforward, -⟩
        -- one of the two handlers claims what neither breakpoint raised
        by_contra hamb
        obtain ⟨ctx', hd⟩ := @Armed.claimed monitor _ _ h hctx (hctxpc ▸ hamb)
        rw [globalSignalHandler_handled hd] at hforward
        cases hforward
      · rintro ⟨hsw, hhw⟩
        rw [globalSignalHandler_notHandled
          (route_neither h hctx (hctxpc ▸ hsw) (hctxpc ▸ hhw))]
        exact ⟨rfl, hctxpc⟩

end Routing

section Concrete

/-- A hardware breakpoint that the kernel refuses, and a software breakpoint: both handlers are
registered. -/
def besideRefused : World :=
  (SoftwareBreakpoint.set .x64 ⟨0x10, .ok (0x5000, 1), .ok 0x5100, .ok⟩ 0x1000 0
    (HardwareBreakpoint.set linuxX64 ⟨0x20, .ok (0x6000, 1), .ok 0x6100, 3⟩ 0x2000 "execute" 1
      1 (World.start (fun _ => 0) defaultActions)).2).2

def passOn (ctx : ExceptionContext) : HandleAction × ExceptionContext := (.notHandled, ctx)

/-- A trap with the counter behind the byte of the `INT3`. -/
def behindInt3 : SigInfo := ⟨.other, 0x1001, false, 0x1001⟩

theorem armed_besideRefused : Armed besideRefused where
  sw _ _ _ := ⟨⟨3, .breakpoint, .breakpointSigtrapHandler⟩, by decide, rfl, rfl⟩
  hw pc e he := by
    obtain ⟨hlookup, -⟩ := Option.filter_eq_some_iff.mp he
    cases hlookup
  own := by decide
  built pc e he := by
    obtain ⟨hlookup, -⟩ := Option.filter_eq_some_iff.mp he
    cases hlookup
  apart pc pc' e e' he he' := by
    obtain ⟨hlookup, -⟩ := Option.filter_eq_some_iff.mp he'
    cases hlookup

/-- The software breakpoint's own trap is routed right, past the hardware side's handler. -/
theorem routed_iff_besideRefused :
    firstHandler besideRefused = some .hwBpSigtrapHandler ∧
      (Trap.int3 0x1000).Routed besideRefused
        (globalSignalHandler (invoke passOn besideRefused) linuxX64 besideRefused.exc .sigtrap
          behindInt3) := by
  have raised : (Trap.int3 0x1000).Raised besideRefused := by
    show (0x1000 : Addr) ∈ besideRefused.bp.bpByAddress
    decide
  exact ⟨by decide, (routed_iff armed_besideRefused raised (by decide) rfl).mpr (Or.inl rfl)⟩

/-- A trap that is sent to the thread where it has just come past the breakpoint ends in the
trampoline. -/
theorem stray_misrouted :
    Armed besideRefused ∧ besideRefused.hw.hwByAddress.entries = [] ∧
      (Trap.other 0x1001).Raised besideRefused ∧ (Trap.other 0x1001).pc = behindInt3.pc ∧
      behindInt3.code ≠ .trapTrace ∧
      ¬ (Trap.other 0x1001).Routed besideRefused
        (globalSignalHandler (invoke passOn besideRefused) linuxX64 besideRefused.exc .sigtrap
          behindInt3) := by
  refine ⟨armed_besideRefused, rfl, trivial, rfl, by decide, ?_⟩
  rintro ⟨-, hto⟩
  exact absurd hto (by decide)

end Concrete

end TrapRouting

end Chromatic
