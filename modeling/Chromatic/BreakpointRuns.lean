import Chromatic.TrapRouting
import Chromatic.Foundation.Runs
import Chromatic.Foundation.IndexedRegistry

/-!
# Runs of the breakpoint subsystems

Any interleaving of `set`, `remove` and `removeAll` of the two subsystems. Their
handlers are registered before the first breakpoint goes live and stay until the
last one is gone.

§1 calls · §2 the handler chain · §3 trampolines · §4 reachable states.
-/

namespace Chromatic

open Foundation ExceptionHandler

namespace BreakpointRuns

/-! ## §1  Calls -/

inductive Call where
  | swSet (env : SoftwareBreakpoint.Install) (address : Addr) (onHit : Callback)
  | swRemove (patch : PatchOutcome) (bpId : ℕ)
  | swRemoveAll (order : List (Σ _ : ℕ, BreakpointEntry))
  | hwSet (env : HardwareBreakpoint.Install) (address : Addr) (type : String) (size : ℤ)
      (onHit : Callback)
  | hwRemove (bpId : ℕ)
  | hwRemoveAll (order : List (Σ _ : ℕ, HwBreakpointEntry))

def Call.exec : Call → World → World
  | .swSet env address onHit, w => (SoftwareBreakpoint.set .x64 env address onHit w).2
  | .swRemove patch bpId, w => (SoftwareBreakpoint.remove .x64 patch bpId w).2
  | .swRemoveAll order, w => (SoftwareBreakpoint.removeAll .x64 (fun _ => .ok) order w).2
  | .hwSet env address type size onHit, w =>
      (HardwareBreakpoint.set TrapRouting.linuxX64 env address type size onHit w).2
  | .hwRemove bpId, w => HardwareBreakpoint.remove bpId w
  | .hwRemoveAll order, w => HardwareBreakpoint.removeAll order w

/-- A new trampoline is not null and not that of a live breakpoint of the other
kind. `removeAll` meets no refusal: it would leave entries in the maps whose blocks
are released. -/
def Call.Permitted (w : World) : Call → Prop
  | .swSet env _ _ => ∀ t, env.trampoline = .ok t →
      ∀ a e, w.hw.hwByAddress.lookup a = some e → e.type = .execute → t ≠ e.trampolineCode
  | .hwSet env _ _ _ _ => ∀ t, env.trampoline = .ok t → t ≠ 0 ∧
      ∀ a e, w.bp.bpByAddress.lookup a = some e → e.trampolineCode ≠ t
  | .swRemove _ _ => True
  | .swRemoveAll order => order.Perm w.bp.bpById.entries
  | .hwRemove _ => True
  | .hwRemoveAll order => order.Perm w.hw.hwById.entries

/-! ## §2  The handler chain -/

/-- A subsystem in use has its handler in the chain. -/
structure Chained (w : World) : Prop where
  numbered : Numbered w.exc
  own : ∀ e ∈ w.exc.handlers, e.callback ≠ .monitorSegvHandler
  sw : w.bp.handlerInstalled = true →
    ⟨w.bp.sigtrapHandlerId, .breakpoint, .breakpointSigtrapHandler⟩ ∈ w.exc.handlers
  swIdle : w.bp.handlerInstalled = false → ∀ a, a ∉ w.bp.bpByAddress
  hw : w.hw.hwHandlerInstalled = true →
    ⟨w.hw.hwHandlerId, .breakpoint, .hwBpSigtrapHandler⟩ ∈ w.exc.handlers
  hwIdle : w.hw.hwHandlerInstalled = false → ∀ a, a ∉ w.hw.hwByAddress

variable {w w' : World}

theorem Chained.congr (h : Chained w) (hexc : w'.exc = w.exc) (hbp : w'.bp = w.bp)
    (hhw : w'.hw = w.hw) : Chained w' := by
  obtain ⟨numbered, own, sw, swIdle, hw, hwIdle⟩ := h
  rw [← hexc] at *
  rw [← hbp] at *
  rw [← hhw] at *
  exact ⟨numbered, own, sw, swIdle, hw, hwIdle⟩

/-- The breakpoint maps may change as long as an absent handler has nothing to
handle. -/
theorem Chained.withSw (h : Chained w) (hexc : w'.exc = w.exc) (hhw : w'.hw = w.hw)
    (hinstalled : w'.bp.handlerInstalled = w.bp.handlerInstalled)
    (hid : w'.bp.sigtrapHandlerId = w.bp.sigtrapHandlerId)
    (hidle : w.bp.handlerInstalled = false → ∀ a, a ∉ w'.bp.bpByAddress) : Chained w' where
  numbered := hexc ▸ h.numbered
  own := hexc ▸ h.own
  sw hon := by
    rw [hexc, hid]
    exact h.sw (hinstalled ▸ hon)
  swIdle hoff := hidle (hinstalled ▸ hoff)
  hw := by
    rw [hexc, hhw]
    exact h.hw
  hwIdle := hhw ▸ h.hwIdle

theorem Chained.withHw (h : Chained w) (hexc : w'.exc = w.exc) (hbp : w'.bp = w.bp)
    (hinstalled : w'.hw.hwHandlerInstalled = w.hw.hwHandlerInstalled)
    (hid : w'.hw.hwHandlerId = w.hw.hwHandlerId)
    (hidle : w.hw.hwHandlerInstalled = false → ∀ a, a ∉ w'.hw.hwByAddress) : Chained w' where
  numbered := hexc ▸ h.numbered
  own := hexc ▸ h.own
  sw := by
    rw [hexc, hbp]
    exact h.sw
  swIdle := hbp ▸ h.swIdle
  hw hon := by
    rw [hexc, hid]
    exact h.hw (hinstalled ▸ hon)
  hwIdle hoff := hidle (hinstalled ▸ hoff)

section Software

open SoftwareBreakpoint

theorem Chained.ensureSw (h : Chained w) :
    Chained (ensureHandlerInstalled w) ∧
      (ensureHandlerInstalled w).bp.handlerInstalled = true := by
  unfold ensureHandlerInstalled
  by_cases hon : w.bp.handlerInstalled = true
  · rw [if_pos hon]
    exact ⟨h, hon⟩
  · rw [if_neg hon]
    refine ⟨⟨?_, ?_, fun _ => ?_, (nomatch ·), fun hhw => ?_, h.hwIdle⟩, rfl⟩
    · exact (h.numbered.congr (refEnable_handlers _) (refEnable_nextId _)).register _ _
    · simpa [registerHandler, or_imp, forall_and] using h.own
    · simp [registerHandler]
    · simp [registerHandler, h.hw hhw]

theorem Chained.maybeRemoveSw (h : Chained w) : Chained (maybeRemoveHandler w) := by
  unfold maybeRemoveHandler
  by_cases hidle : w.bp.handlerInstalled = false ∨ w.bp.bpByAddress.entries ≠ []
  · rw [if_pos hidle]
    exact h
  · rw [if_neg hidle]
    obtain ⟨hon, hempty⟩ := not_or.mp hidle
    have hsw := h.sw (by simpa using hon)
    refine ⟨(h.numbered.unregister _).congr (refDisable_handlers _) (refDisable_nextId _),
      fun e he => h.own e (List.mem_of_mem_filter he), (nomatch ·),
      fun _ => notMem_of_entries_eq_nil (by simpa using hempty), fun hhw => ?_, h.hwIdle⟩
    exact h.numbered.mem_unregister hsw (h.hw hhw) (by simp)

theorem Chained.swSet (h : Chained w) (env : Install) (address : Addr) (onHit : Callback) :
    Chained (SoftwareBreakpoint.set .x64 env address onHit w).2 := by
  obtain ⟨hens, hon⟩ := h.ensureSw
  unfold SoftwareBreakpoint.set
  by_cases hmem : address ∈ w.bp.bpByAddress
  · rw [if_pos hmem]
    exact h
  · rw [if_neg hmem]
    cases hr : env.relocated with
    | error e => exact hens.congr rfl rfl rfl
    | ok block =>
        cases ht : env.trampoline with
        | error e => exact hens.congr (by simp) (by simp) (by simp)
        | ok trampolineCode =>
            cases hp : env.patch with
            | ok =>
                refine hens.withSw rfl rfl rfl rfl fun hoff => ?_
                exact absurd (hon.symm.trans hoff) (by simp)
            | rwDenied => exact hens.congr rfl rfl rfl
            | rxDenied => exact hens.congr rfl rfl rfl

theorem Chained.swRemove (h : Chained w) (patch : PatchOutcome) (bpId : ℕ) :
    Chained (remove .x64 patch bpId w).2 := by
  unfold remove
  cases hl : w.bp.bpById.lookup bpId with
  | none => exact h
  | some entry =>
      cases patch with
      | ok =>
          simp only [makeWritableAndPatch_ok]
          refine Chained.maybeRemoveSw (h.withSw (by simp) (by simp) (by simp) (by simp)
            fun hoff a => ?_)
          simpa using fun _ => h.swIdle hoff a
      | rwDenied => exact h
      | rxDenied => exact h.congr rfl rfl rfl

theorem Chained.swRemoveAll (h : Chained w) (order : List (Σ _ : ℕ, BreakpointEntry)) :
    Chained (removeAll .x64 (fun _ => .ok) order w).2 := by
  obtain ⟨w', heq, -, hexc, hbp, -, hhw⟩ := restoreAll_ok .x64 (fun _ => .ok) order w
    fun _ _ => rfl
  unfold removeAll
  rw [heq]
  exact Chained.maybeRemoveSw ((h.congr hexc hbp hhw).withSw rfl rfl rfl rfl
    fun _ a => by simp)

end Software

section Hardware

open HardwareBreakpoint

theorem Chained.ensureHw (h : Chained w) :
    Chained (ensureHwHandlerInstalled w) ∧
      (ensureHwHandlerInstalled w).hw.hwHandlerInstalled = true := by
  unfold ensureHwHandlerInstalled
  by_cases hon : w.hw.hwHandlerInstalled = true
  · rw [if_pos hon]
    exact ⟨h, hon⟩
  · rw [if_neg hon]
    refine ⟨⟨?_, ?_, fun hsw => ?_, h.swIdle, fun _ => ?_, (nomatch ·)⟩, rfl⟩
    · exact ((h.numbered.congr (refEnable_handlers _) (refEnable_nextId _)).register _ _).register
        _ _
    · simpa [registerHandler, or_imp, forall_and] using h.own
    · simp [registerHandler, h.sw hsw]
    · simp [registerHandler]

theorem Chained.maybeRemoveHw (h : Chained w) : Chained (maybeRemoveHwHandler w) := by
  unfold maybeRemoveHwHandler
  by_cases hidle : w.hw.hwHandlerInstalled = false ∨ w.hw.hwByAddress.entries ≠ []
  · rw [if_pos hidle]
    exact h
  · rw [if_neg hidle]
    obtain ⟨hon, hempty⟩ := not_or.mp hidle
    have hhw := h.hw (by simpa using hon)
    refine ⟨(h.numbered.unregister _).congr (refDisable_handlers _) (refDisable_nextId _),
      fun e he => h.own e (List.mem_of_mem_filter he), fun hsw => ?_, h.swIdle, (nomatch ·),
      fun _ => notMem_of_entries_eq_nil (by simpa using hempty)⟩
    exact h.numbered.mem_unregister hhw (h.sw hsw) (by simp)

theorem Chained.hwSet (h : Chained w) (env : Install) (address : Addr) (typeStr : String)
    (size : ℤ) (onHit : Callback) :
    Chained (HardwareBreakpoint.set ⟨.x64, .linux⟩ env address typeStr size onHit w).2 := by
  obtain ⟨hens, hon⟩ := h.ensureHw
  rcases set_linux_cases env address typeStr size onHit w with
    hsame | haside | ⟨entry, hlive⟩
  · rw [hsame]
    exact h
  · exact hens.congr haside.exc haside.bp haside.hw
  · refine hens.withHw hlive.exc hlive.bp hlive.installed hlive.handlerId fun hoff => ?_
    exact absurd (hon.symm.trans hoff) (by simp)

theorem Chained.hwRemove (h : Chained w) (bpId : ℕ) : Chained (remove bpId w) := by
  unfold remove
  cases hl : w.hw.hwById.lookup bpId with
  | none => exact h
  | some entry =>
      refine Chained.maybeRemoveHw (h.withHw (by simp) (by simp) (by simp) (by simp)
        fun hoff a => ?_)
      simpa using fun _ => h.hwIdle hoff a

theorem Chained.hwRemoveAll (h : Chained w) (order : List (Σ _ : ℕ, HwBreakpointEntry)) :
    Chained (removeAll order w) := by
  have released : ∀ w, Chained w → Chained (releaseAll order w) := by
    induction order with
    | nil => exact fun w h => h
    | cons e rest ih =>
        intro w h
        refine ih _ (h.withHw (by simp) (by simp) (by simp) (by simp) fun hoff a => ?_)
        simpa using h.hwIdle hoff a
  exact Chained.maybeRemoveHw ((released w h).withHw rfl rfl rfl rfl fun _ a => by simp)

end Hardware

/-! ## §3  Trampolines -/

/-- Live breakpoints of the two kinds have trampolines of their own. -/
structure Blocks (w : World) : Prop where
  built : ∀ a e, w.hw.hwByAddress.lookup a = some e → e.type = .execute →
    e.trampolineCode ≠ 0
  apart : ∀ a a' e e', w.bp.bpByAddress.lookup a = some e →
    w.hw.hwByAddress.lookup a' = some e' → e'.type = .execute →
    e.trampolineCode ≠ e'.trampolineCode

/-- Breakpoints that go away leave the others' trampolines apart. -/
theorem Blocks.sub (h : Blocks w)
    (hbp : ∀ a e, w'.bp.bpByAddress.lookup a = some e → w.bp.bpByAddress.lookup a = some e)
    (hhw : ∀ a e, w'.hw.hwByAddress.lookup a = some e → w.hw.hwByAddress.lookup a = some e) :
    Blocks w' where
  built a e he := h.built a e (hhw a e he)
  apart a a' e e' he he' := h.apart a a' e e' (hbp a e he) (hhw a' e' he')

theorem set_byAddress (env : SoftwareBreakpoint.Install) (address : Addr) (onHit : Callback)
    (w : World) :
    (SoftwareBreakpoint.set .x64 env address onHit w).2.hw = w.hw ∧
    ((SoftwareBreakpoint.set .x64 env address onHit w).2.bp.bpByAddress = w.bp.bpByAddress ∨
      ∃ e, env.trampoline = .ok e.trampolineCode ∧
        (SoftwareBreakpoint.set .x64 env address onHit w).2.bp.bpByAddress =
          w.bp.bpByAddress.insert address e) := by
  unfold SoftwareBreakpoint.set
  by_cases hmem : address ∈ w.bp.bpByAddress
  · rw [if_pos hmem]
    exact ⟨rfl, Or.inl rfl⟩
  · rw [if_neg hmem]
    cases hr : env.relocated with
    | error e => exact ⟨by simp, Or.inl (by simp)⟩
    | ok block =>
        cases ht : env.trampoline with
        | error e => exact ⟨by simp, Or.inl (by simp)⟩
        | ok trampolineCode =>
            cases hp : env.patch with
            | ok =>
                refine ⟨by simp [makeWritableAndPatch], Or.inr ⟨⟨env.self, address,
                  readBytes w.code address Arch.x64.bpInsnSize, block.2, trampolineCode,
                  block.1, onHit⟩, rfl, by simp [makeWritableAndPatch]⟩⟩
            -- a refused protection change leaves the registry as it was
            | rwDenied =>
                exact ⟨by simp [makeWritableAndPatch], Or.inl (by simp [makeWritableAndPatch])⟩
            | rxDenied =>
                exact ⟨by simp [makeWritableAndPatch], Or.inl (by simp [makeWritableAndPatch])⟩

theorem Blocks.swSet (h : Blocks w) {env : SoftwareBreakpoint.Install} {address : Addr}
    {onHit : Callback} (hok : (Call.swSet env address onHit).Permitted w) :
    Blocks (SoftwareBreakpoint.set .x64 env address onHit w).2 := by
  obtain ⟨hhw, hsame | ⟨entry, htrampoline, hinsert⟩⟩ := set_byAddress env address onHit w
  · exact h.sub (by simp [hsame]) (by simp [hhw])
  · refine ⟨by rw [hhw]; exact h.built, ?_⟩
    rw [hhw, hinsert]
    intro a a' e e' he he' hexec
    rcases lookup_insert_cases he with ⟨-, rfl⟩ | ⟨-, hold⟩
    · exact hok _ htrampoline a' e' he' hexec
    · exact h.apart a a' e e' hold he' hexec

theorem Blocks.hwSet (h : Blocks w) {env : HardwareBreakpoint.Install} {address : Addr}
    {typeStr : String} {size : ℤ} {onHit : Callback}
    (hok : (Call.hwSet env address typeStr size onHit).Permitted w) :
    Blocks (HardwareBreakpoint.set ⟨.x64, .linux⟩ env address typeStr size onHit w).2 := by
  rcases HardwareBreakpoint.set_linux_cases env address typeStr size onHit w with
    hsame | haside | ⟨entry, hlive⟩
  · rw [hsame]
    exact h
  · exact h.sub (by simp [haside.bp]) (by simp [haside.hw])
  · constructor
    · rw [hlive.byAddress]
      intro a e he hexec
      rcases lookup_insert_cases he with ⟨-, rfl⟩ | ⟨-, hold⟩
      · exact (hok _ (hlive.trampoline hexec)).1
      · exact h.built a e (by simpa using hold) hexec
    · rw [hlive.byAddress, hlive.bp]
      intro a a' e e' he he' hexec
      rcases lookup_insert_cases he' with ⟨-, rfl⟩ | ⟨-, hold⟩
      · exact (hok _ (hlive.trampoline hexec)).2 a e (by simpa using he)
      · exact h.apart a a' e e' (by simpa using he) (by simpa using hold) hexec

theorem Blocks.swRemove (h : Blocks w) (patch : PatchOutcome) (bpId : ℕ) :
    Blocks (SoftwareBreakpoint.remove .x64 patch bpId w).2 := by
  unfold SoftwareBreakpoint.remove
  cases hl : w.bp.bpById.lookup bpId with
  | none => exact h
  | some entry =>
      cases patch with
      | ok =>
          simp only [makeWritableAndPatch_ok]
          exact h.sub (fun a e he => (lookup_erase_cases (by simpa using he)).2) (by simp)
      | rwDenied => exact h
      | rxDenied => exact h.sub (fun _ _ he => he) fun _ _ he => he

theorem Blocks.hwRemove (h : Blocks w) (bpId : ℕ) :
    Blocks (HardwareBreakpoint.remove bpId w) := by
  unfold HardwareBreakpoint.remove
  cases hl : w.hw.hwById.lookup bpId with
  | none => exact h
  | some entry =>
      refine h.sub ?_ (fun a e he => (lookup_erase_cases (by simpa using he)).2)
      simp [(HardwareBreakpoint.maybeRemoveHwHandler_frame _).bp]

theorem Blocks.swRemoveAll (h : Blocks w) (order : List (Σ _ : ℕ, BreakpointEntry)) :
    Blocks (SoftwareBreakpoint.removeAll .x64 (fun _ => .ok) order w).2 := by
  obtain ⟨w', heq, hcleared⟩ := SoftwareBreakpoint.removeAll_ok .x64 (fun _ => .ok) order w
    fun _ _ => rfl
  rw [heq]
  exact h.sub (by simp [hcleared.byAddress]) (by simp [hcleared.hw])

theorem Blocks.hwRemoveAll (h : Blocks w) (order : List (Σ _ : ℕ, HwBreakpointEntry)) :
    Blocks (HardwareBreakpoint.removeAll order w) := by
  have hbp := (HardwareBreakpoint.removeAll_frame order w).bp
  refine h.sub (by simp [hbp]) fun a e he => ?_
  simp [HardwareBreakpoint.removeAll] at he

/-! ## §4  Reachable states -/

inductive Step (w : World) (c : Call) : World → Prop where
  | intro (permitted : c.Permitted w) : Step w c (c.exec w)

theorem step_keeps {c : Call} (h : Chained w ∧ Blocks w) (hstep : Step w c w') :
    Chained w' ∧ Blocks w' := by
  obtain ⟨hok⟩ := hstep
  obtain ⟨hchained, hblocks⟩ := h
  cases c with
  | swSet env address onHit => exact ⟨hchained.swSet env address onHit, hblocks.swSet hok⟩
  | swRemove patch bpId =>
      exact ⟨hchained.swRemove patch bpId, hblocks.swRemove patch bpId⟩
  | swRemoveAll order => exact ⟨hchained.swRemoveAll order, hblocks.swRemoveAll order⟩
  | hwSet env address type size onHit =>
      exact ⟨hchained.hwSet env address type size onHit, hblocks.hwSet hok⟩
  | hwRemove bpId => exact ⟨hchained.hwRemove bpId, hblocks.hwRemove bpId⟩
  | hwRemoveAll order => exact ⟨hchained.hwRemoveAll order, hblocks.hwRemoveAll order⟩

theorem armed_of_chained (h : Chained w) (hblocks : Blocks w) : TrapRouting.Armed w where
  sw pc e he := by
    have hmem : pc - 1 ∈ w.bp.bpByAddress := AList.lookup_isSome.mp (by
      rw [show w.bp.bpByAddress.lookup (pc - 1) = some e from he]; rfl)
    have hon : w.bp.handlerInstalled = true := by
      by_contra hoff
      exact h.swIdle (by simpa using hoff) _ hmem
    exact ⟨_, h.sw hon, rfl, rfl⟩
  hw pc e he := by
    obtain ⟨hlookup, -⟩ := Option.filter_eq_some_iff.mp he
    have hmem : pc ∈ w.hw.hwByAddress := AList.lookup_isSome.mp (by rw [hlookup]; rfl)
    have hon : w.hw.hwHandlerInstalled = true := by
      by_contra hoff
      exact h.hwIdle (by simpa using hoff) _ hmem
    exact ⟨_, h.hw hon, rfl, rfl⟩
  own e he _ := h.own e he
  built pc e he := by
    obtain ⟨hlookup, hexec⟩ := Option.filter_eq_some_iff.mp he
    exact hblocks.built pc e hlookup (by simpa using hexec)
  apart pc pc' e e' he he' := by
    obtain ⟨hlookup, hexec⟩ := Option.filter_eq_some_iff.mp he'
    exact hblocks.apart _ pc' e e' he hlookup (by simpa using hexec)

/-- **Reachable states are armed.** However the two subsystems are used, live
breakpoints have their handlers in the chain and trampolines of their own. -/
theorem armed_throughout {code : Memory} {disposition : Sig → SigAction}
    {tr : List (World × Call)} (run : Run Step (World.start code disposition) tr w) :
    Throughout TrapRouting.Armed tr w := by
  have init : Chained (World.start code disposition) ∧ Blocks (World.start code disposition) := by
    refine ⟨⟨⟨?_, ?_⟩, ?_, ?_, ?_, ?_, ?_⟩, ⟨?_, ?_⟩⟩ <;>
      simp [World.start, ExceptionState.start, BreakpointState.start, HwState.start]
  have inv := run.invariant (I := fun w => Chained w ∧ Blocks w) init
    fun _ _ _ h hstep => step_keeps h hstep
  exact ⟨fun p hp => armed_of_chained (inv.1 p hp).1 (inv.1 p hp).2,
    armed_of_chained inv.2.1 inv.2.2⟩

end BreakpointRuns

end Chromatic
