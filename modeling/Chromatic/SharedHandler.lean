import Chromatic.MonitorHandlers
import Chromatic.Cleanup

/-!
# One exception handler for three subsystems

Breakpoints of both kinds and memory monitors share one reference count and one chain of
handlers, and the user may switch the exception handler on and off at any time. Whoever holds
a reference has its handlers in the chain until it gives the reference back.

§1 holders · §2 breakpoint subsystems · §3 calls · §4 monitors · §5 the runtime ·
§6 reachable states.
-/

namespace Chromatic

open Foundation ExceptionHandler
open MemoryAccessMonitor (MonitorEntry MonitorState Monitors PageSize Prot ProtectAnswers
  Registered Found noteAccess scan scan_found releaseHandlers drainTurn_frame
  monitorSegvHandler_cases)

namespace SharedHandler

/-! ## §1  Holders -/

/-- The holder of a reference, as the handlers it is going to unregister. -/
abbrev Holder : Type := List HandlerEntry

/-- Every holder counts once, and its handlers are in the chain, as are those nobody is
going to unregister. -/
structure Serves (exc : ExceptionState) (kept : List HandlerEntry) (holders : List Holder) :
    Prop where
  numbered : Numbered exc
  count : exc.refCount = holders.length
  nodup : (kept ++ holders.flatten).Nodup
  mem : ∀ e ∈ kept ++ holders.flatten, e ∈ exc.handlers
  inForce : exc.enabled = true ∨ 0 < exc.refCount → ∀ sig, exc.disposition sig = ownAction

section Holders

variable {exc : ExceptionState} {kept : List HandlerEntry} {holders holders' : List Holder}
  {held : Holder} {e : HandlerEntry}

theorem Serves.perm (h : Serves exc kept holders) (hperm : holders.Perm holders') :
    Serves exc kept holders' := by
  have hall := hperm.flatten.append_left kept
  exact ⟨h.numbered, h.count.trans (by rw [hperm.length_eq]), hall.nodup_iff.mp h.nodup,
    fun e he => h.mem e (hall.mem_iff.mpr he), h.inForce⟩

theorem Serves.enable (h : Serves exc kept holders) :
    Serves (ExceptionHandler.enable exc) kept holders := by
  unfold ExceptionHandler.enable
  split
  · exact h
  · exact ⟨h.numbered.congr rfl rfl, h.count, h.nodup, h.mem, fun _ _ => rfl⟩

/-- `disable` takes the handlers away only when nobody holds a reference. -/
theorem Serves.disable (h : Serves exc kept holders) :
    Serves (ExceptionHandler.disable exc) kept holders := by
  unfold ExceptionHandler.disable
  split_ifs with hoff hheld
  · exact h
  · exact ⟨h.numbered.congr rfl rfl, h.count, h.nodup, h.mem, fun _ => h.inForce (.inr hheld)⟩
  · refine ⟨h.numbered.congr rfl rfl, h.count, h.nodup, h.mem, ?_⟩
    rintro (hon | hpos)
    · cases hon
    · exact absurd hpos hheld

theorem Serves.refEnable (h : Serves exc kept holders) :
    Serves (ExceptionHandler.refEnable exc) kept ([] :: holders) := by
  have hcount := h.count
  unfold ExceptionHandler.refEnable
  split
  · refine ⟨h.numbered.congr rfl rfl, ?_, h.nodup, h.mem, fun _ _ => rfl⟩
    simp [installHandlers, hcount]
  · rename_i hnot
    refine ⟨h.numbered.congr rfl rfl, ?_, h.nodup, h.mem, fun _ => h.inForce ?_⟩
    · simp [hcount]
    -- either the flag is set or somebody held a reference before
    · cases henabled : exc.enabled with
      | true => exact .inl rfl
      | false =>
          have hne : exc.refCount ≠ 0 := fun hzero => hnot ⟨hzero, henabled⟩
          exact .inr (by omega)

theorem Serves.refDisable (h : Serves exc kept ([] :: holders)) :
    Serves (ExceptionHandler.refDisable exc) kept holders := by
  have hcount := h.count
  rw [List.length_cons, Int.natCast_succ] at hcount
  refine ⟨h.numbered.congr rfl rfl, ?_, h.nodup, h.mem, ?_⟩
  · show exc.refCount - 1 = _
    omega
  · rintro (hon | hpos)
    · exact h.inForce (.inl hon)
    · have hpos' : 0 < exc.refCount - 1 := hpos
      exact h.inForce (.inr (by omega))

/-- A new handler is nobody's yet and joins the chain. -/
theorem Serves.fresh (h : Serves exc kept holders) (type : ExceptionType) (callback : HandlerFn) :
    (⟨exc.nextId, type, callback⟩ :: (kept ++ holders.flatten)).Nodup ∧
      ∀ e ∈ ⟨exc.nextId, type, callback⟩ :: (kept ++ holders.flatten),
        e ∈ (registerHandler type callback exc).2.handlers := by
  constructor
  · refine List.nodup_cons.mpr ⟨fun hmem => ?_, h.nodup⟩
    exact Nat.lt_irrefl _ (h.numbered.below _ (h.mem _ hmem))
  · intro e he
    rcases List.mem_cons.mp he with rfl | hold
    · exact List.mem_append_right _ List.mem_cons_self
    · exact List.mem_append_left _ (h.mem e hold)

theorem Serves.register (h : Serves exc kept (held :: holders)) (type : ExceptionType)
    (callback : HandlerFn) :
    Serves (registerHandler type callback exc).2 kept
      ((held ++ [⟨exc.nextId, type, callback⟩]) :: holders) := by
  obtain ⟨hnodup, hmem⟩ := h.fresh type callback
  have hperm : (kept ++ ((held ++ [⟨exc.nextId, type, callback⟩]) :: holders).flatten).Perm
      (⟨exc.nextId, type, callback⟩ :: (kept ++ (held :: holders).flatten)) := by
    simp only [List.flatten_cons, List.append_assoc, List.singleton_append]
    exact (List.perm_middle.append_left kept).trans List.perm_middle
  exact ⟨h.numbered.register type callback, h.count, hperm.nodup_iff.mpr hnodup,
    fun e he => hmem e (hperm.mem_iff.mp he), h.inForce⟩

theorem Serves.keep (h : Serves exc kept holders) (type : ExceptionType)
    (callback : HandlerFn) :
    Serves (registerHandler type callback exc).2 (⟨exc.nextId, type, callback⟩ :: kept)
      holders := by
  obtain ⟨hnodup, hmem⟩ := h.fresh type callback
  exact ⟨h.numbered.register type callback, h.count, hnodup, hmem, h.inForce⟩

/-- Unregistering a holder's handler leaves all others in the chain. -/
theorem Serves.unregister (h : Serves exc kept ((e :: held) :: holders)) :
    Serves (unregisterHandler e.id exc) kept (held :: holders) := by
  have hperm : (kept ++ ((e :: held) :: holders).flatten).Perm
      (e :: (kept ++ (held :: holders).flatten)) := by
    simp only [List.flatten_cons, List.cons_append]
    exact List.perm_middle
  obtain ⟨hnotmem, hnodup⟩ := List.nodup_cons.mp (hperm.nodup_iff.mp h.nodup)
  have hmem : ∀ e' ∈ e :: (kept ++ (held :: holders).flatten), e' ∈ exc.handlers :=
    fun e' he' => h.mem e' (hperm.mem_iff.mpr he')
  refine ⟨h.numbered.unregister e.id, h.count, hnodup, ?_, h.inForce⟩
  intro e' he'
  apply h.numbered.mem_unregister (hmem e List.mem_cons_self)
    (hmem e' (List.mem_cons_of_mem _ he'))
  rintro rfl
  exact hnotmem he'

end Holders

/-! ## §2  Breakpoint subsystems -/

def swHolders (b : BreakpointState) : List Holder :=
  if b.handlerInstalled then
    [[⟨b.sigtrapHandlerId, .breakpoint, .breakpointSigtrapHandler⟩]]
  else []

def hwHolders (h : HwState) : List Holder :=
  if h.hwHandlerInstalled then [[⟨h.hwHandlerId, .breakpoint, .hwBpSigtrapHandler⟩]] else []

/-- The exception handler serves the two breakpoint subsystems and the monitors. A subsystem
without a reference has nothing live, and the single-step handler of the hardware breakpoints,
whose identifier nobody keeps, stays in the chain. -/
structure Held (w : World) (kept : List HandlerEntry) (monitors : List Holder) : Prop where
  serves : Serves w.exc kept (swHolders w.bp ++ hwHolders w.hw ++ monitors)
  swIdle : w.bp.handlerInstalled = false → ∀ a, a ∉ w.bp.bpByAddress
  hwIdle : w.hw.hwHandlerInstalled = false → ∀ a, a ∉ w.hw.hwByAddress
  stepping : w.hw.hwHandlerInstalled = true →
    ∃ e ∈ kept, e.type = .singleStep ∧ e.callback = .hwBpSigtrapHandler

section Breakpoints

variable {w w' : World} {kept : List HandlerEntry} {monitors : List Holder}

/-- The exception handler and what the subsystems know of their handlers are as they were. -/
structure SameHandlers (w w' : World) : Prop where
  exc : w'.exc = w.exc
  swInstalled : w'.bp.handlerInstalled = w.bp.handlerInstalled
  swId : w'.bp.sigtrapHandlerId = w.bp.sigtrapHandlerId
  hwInstalled : w'.hw.hwHandlerInstalled = w.hw.hwHandlerInstalled
  hwId : w'.hw.hwHandlerId = w.hw.hwHandlerId

theorem Held.congr (h : Held w kept monitors) (hsame : SameHandlers w w')
    (hsw : w.bp.handlerInstalled = false → ∀ a, a ∉ w'.bp.bpByAddress)
    (hhw : w.hw.hwHandlerInstalled = false → ∀ a, a ∉ w'.hw.hwByAddress) :
    Held w' kept monitors := by
  obtain ⟨hexc, hswOn, hswId, hhwOn, hhwId⟩ := hsame
  have hswHolders : swHolders w'.bp = swHolders w.bp := by
    unfold swHolders
    rw [hswOn, hswId]
  have hhwHolders : hwHolders w'.hw = hwHolders w.hw := by
    unfold hwHolders
    rw [hhwOn, hhwId]
  constructor
  · rw [hexc, hswHolders, hhwHolders]
    exact h.serves
  · rw [hswOn]
    exact hsw
  · rw [hhwOn]
    exact hhw
  · rw [hhwOn]
    exact h.stepping

/-- Nothing the handlers depend on has changed. -/
theorem Held.same (h : Held w kept monitors) (hexc : w'.exc = w.exc) (hbp : w'.bp = w.bp)
    (hhw : w'.hw = w.hw) : Held w' kept monitors := by
  apply h.congr ⟨hexc, by rw [hbp], by rw [hbp], by rw [hhw], by rw [hhw]⟩
  · rw [hbp]
    exact h.swIdle
  · rw [hhw]
    exact h.hwIdle

theorem Held.ensureSw (h : Held w kept monitors) :
    Held (SoftwareBreakpoint.ensureHandlerInstalled w) kept monitors := by
  unfold SoftwareBreakpoint.ensureHandlerInstalled
  split
  · exact h
  · rename_i hoff
    have hserves := h.serves
    simp only [swHolders, if_neg hoff, List.nil_append] at hserves
    exact ⟨hserves.refEnable.register _ _, (nomatch ·), h.hwIdle, h.stepping⟩

theorem Held.maybeRemoveSw (h : Held w kept monitors) :
    Held (SoftwareBreakpoint.maybeRemoveHandler w) kept monitors := by
  unfold SoftwareBreakpoint.maybeRemoveHandler
  split
  · exact h
  · rename_i hactive
    obtain ⟨hon, hempty⟩ := not_or.mp hactive
    have hserves := h.serves
    rw [swHolders, if_pos (by simpa using hon)] at hserves
    refine ⟨hserves.unregister.refDisable, fun _ => ?_, h.hwIdle, h.stepping⟩
    exact notMem_of_entries_eq_nil (not_not.mp hempty)

theorem Held.ensureHw (h : Held w kept monitors) :
    ∃ kept', Held (HardwareBreakpoint.ensureHwHandlerInstalled w) kept' monitors := by
  unfold HardwareBreakpoint.ensureHwHandlerInstalled
  split
  · exact ⟨kept, h⟩
  · rename_i hoff
    have hserves := h.serves
    simp only [hwHolders, if_neg hoff, List.append_nil] at hserves
    have hregistered := (hserves.refEnable.register .breakpoint .hwBpSigtrapHandler).keep
      .singleStep .hwBpSigtrapHandler
    refine ⟨_, hregistered.perm ?_, h.swIdle, (nomatch ·), fun _ => ?_⟩
    · rw [List.append_assoc]
      exact List.perm_middle.symm
    · exact ⟨_, List.mem_cons_self, rfl, rfl⟩

theorem Held.maybeRemoveHw (h : Held w kept monitors) :
    Held (HardwareBreakpoint.maybeRemoveHwHandler w) kept monitors := by
  unfold HardwareBreakpoint.maybeRemoveHwHandler
  split
  · exact h
  · rename_i hactive
    obtain ⟨hon, hempty⟩ := not_or.mp hactive
    have hserves := h.serves
    rw [hwHolders, if_pos (by simpa using hon), List.append_assoc] at hserves
    refine ⟨?_, h.swIdle, fun _ => ?_, (nomatch ·)⟩
    · simpa [hwHolders] using (hserves.perm List.perm_middle).unregister.refDisable
    · exact notMem_of_entries_eq_nil (not_not.mp hempty)

end Breakpoints

/-! ## §3  Calls -/

/-- Calls that go through with `g_monitors` left alone. `cleanup` is `runtime::cleanup` behind
its `disableAll`, which is a matter of the monitors. -/
inductive Call where
  | enable
  | disable
  | swSet (env : SoftwareBreakpoint.Install) (address : Addr) (onHit : Callback)
  | swRemove (patch : PatchOutcome) (bpId : ℕ)
  | swRemoveAll (patch : Addr → PatchOutcome) (order : List (Σ _ : ℕ, BreakpointEntry))
  | hwSet (env : HardwareBreakpoint.Install) (address : Addr) (type : String) (size : ℤ)
      (onHit : Callback)
  | hwRemove (bpId : ℕ)
  | hwRemoveAll (order : List (Σ _ : ℕ, HwBreakpointEntry))
  | cleanup (patch : Addr → PatchOutcome) (hws : List (Σ _ : ℕ, HwBreakpointEntry))
      (bps : List (Σ _ : ℕ, BreakpointEntry)) (hooks : List (Σ _ : ℕ, HookEntry))

def Call.exec (target : Target) : Call → World → World
  | .enable, w => { w with exc := ExceptionHandler.enable w.exc }
  | .disable, w => { w with exc := ExceptionHandler.disable w.exc }
  | .swSet env address onHit, w => (SoftwareBreakpoint.set target.arch env address onHit w).2
  | .swRemove patch bpId, w => (SoftwareBreakpoint.remove target.arch patch bpId w).2
  | .swRemoveAll patch order, w => (SoftwareBreakpoint.removeAll target.arch patch order w).2
  | .hwSet env address type size onHit, w =>
      (HardwareBreakpoint.set target env address type size onHit w).2
  | .hwRemove bpId, w => HardwareBreakpoint.remove bpId w
  | .hwRemoveAll order, w => HardwareBreakpoint.removeAll order w
  | .cleanup patch hws bps hooks, w => (Cleanup.cleanup target.arch patch hws bps hooks w).2

section Calls

variable {w : World} {kept : List HandlerEntry} {monitors : List Holder}

theorem Held.swSet (h : Held w kept monitors) (arch : Arch) (env : SoftwareBreakpoint.Install)
    (address : Addr) (onHit : Callback) :
    Held (SoftwareBreakpoint.set arch env address onHit w).2 kept monitors := by
  have hens := h.ensureSw
  unfold SoftwareBreakpoint.set
  split
  · exact h
  · cases hr : env.relocated with
    | error e => exact hens.same rfl rfl rfl
    | ok block =>
        cases ht : env.trampoline with
        | error e => exact hens.same (by simp) (by simp) (by simp)
        | ok trampolineCode =>
            cases hp : env.patch with
            | ok =>
                refine hens.congr ⟨rfl, rfl, rfl, rfl, rfl⟩ (fun hoff => ?_) hens.hwIdle
                have hon := SoftwareBreakpoint.ensureHandlerInstalled_installed w
                exact absurd (hon.symm.trans hoff) (by decide)
            | rwDenied => exact hens.same rfl rfl rfl
            | rxDenied => exact hens.same rfl rfl rfl

theorem Held.swRemove (h : Held w kept monitors) (arch : Arch) (patch : PatchOutcome)
    (bpId : ℕ) : Held (SoftwareBreakpoint.remove arch patch bpId w).2 kept monitors := by
  unfold SoftwareBreakpoint.remove
  split
  · exact h
  · cases patch with
    | ok =>
        simp only [makeWritableAndPatch_ok]
        apply Held.maybeRemoveSw
        apply h.congr ⟨by simp, by simp, by simp, by simp, by simp⟩
        · intro hoff a
          simpa using fun _ => h.swIdle hoff a
        · simpa using h.hwIdle
    | rwDenied => exact h
    | rxDenied => exact h.same rfl rfl rfl

theorem Held.swRemoveAll (h : Held w kept monitors) (arch : Arch)
    (patch : Addr → PatchOutcome) (order : List (Σ _ : ℕ, BreakpointEntry)) :
    Held (SoftwareBreakpoint.removeAll arch patch order w).2 kept monitors := by
  obtain ⟨hbp, hexc, -, hhw⟩ := SoftwareBreakpoint.restoreAll_frame arch patch order w
  unfold SoftwareBreakpoint.removeAll
  generalize SoftwareBreakpoint.restoreAll arch patch order w = result at *
  obtain ⟨answer, w'⟩ := result
  have hsame : Held w' kept monitors := h.same hexc hbp hhw
  cases answer with
  | error e => exact hsame
  | ok _ =>
      apply Held.maybeRemoveSw
      exact hsame.congr ⟨rfl, rfl, rfl, rfl, rfl⟩ (fun _ a => by simp) hsame.hwIdle

theorem Held.hwSet (h : Held w kept monitors) (target : Target)
    (env : HardwareBreakpoint.Install) (address : Addr) (typeStr : String) (size : ℤ)
    (onHit : Callback) :
    ∃ kept', Held (HardwareBreakpoint.set target env address typeStr size onHit w).2 kept'
      monitors := by
  obtain ⟨kept', hens⟩ := h.ensureHw
  rcases HardwareBreakpoint.set_target_cases target env address typeStr size onHit w with
    hsame | haside | ⟨entry, -, -, -, hlive⟩
  · rw [hsame]
    exact ⟨kept, h⟩
  · exact ⟨kept', hens.same haside.exc haside.bp haside.hw⟩
  · refine ⟨kept', hens.congr ⟨hlive.exc, by rw [hlive.bp], by rw [hlive.bp],
      hlive.installed, hlive.handlerId⟩ ?_ fun hoff => ?_⟩
    · rw [hlive.bp]
      exact hens.swIdle
    · have hon := HardwareBreakpoint.ensureHwHandlerInstalled_installed w
      exact absurd (hon.symm.trans hoff) (by decide)

theorem Held.hwRemove (h : Held w kept monitors) (bpId : ℕ) :
    Held (HardwareBreakpoint.remove bpId w) kept monitors := by
  unfold HardwareBreakpoint.remove
  split
  · exact h
  · apply Held.maybeRemoveHw
    apply h.congr ⟨by simp, by simp, by simp, by simp, by simp⟩
    · simpa using h.swIdle
    · intro hoff a
      simpa using fun _ => h.hwIdle hoff a

theorem Held.hwRemoveAll (h : Held w kept monitors)
    (order : List (Σ _ : ℕ, HwBreakpointEntry)) :
    Held (HardwareBreakpoint.removeAll order w) kept monitors := by
  have hreleased : Held (HardwareBreakpoint.releaseAll order w) kept monitors := by
    induction order generalizing w with
    | nil => exact h
    | cons e rest ih =>
        apply ih
        apply h.congr ⟨by simp, by simp, by simp, by simp, by simp⟩
        · simpa using h.swIdle
        · simpa using h.hwIdle
  apply Held.maybeRemoveHw
  exact hreleased.congr ⟨rfl, rfl, rfl, rfl, rfl⟩ hreleased.swIdle fun _ a => by simp

theorem Held.cleanup (h : Held w kept monitors) (arch : Arch) (patch : Addr → PatchOutcome)
    (hws : List (Σ _ : ℕ, HwBreakpointEntry)) (bps : List (Σ _ : ℕ, BreakpointEntry))
    (hooks : List (Σ _ : ℕ, HookEntry)) :
    Held (Cleanup.cleanup arch patch hws bps hooks w).2 kept monitors := by
  have hbps := (h.hwRemoveAll hws).swRemoveAll arch patch bps
  unfold Cleanup.cleanup
  generalize SoftwareBreakpoint.removeAll arch patch bps (HardwareBreakpoint.removeAll hws w) =
    result at *
  obtain ⟨answer, w₁⟩ := result
  cases answer with
  | error e => exact hbps
  | ok _ =>
      obtain ⟨hexc, hbp, hhw⟩ := Interceptor.detachAll_handlers patch hooks w₁
      dsimp only
      generalize Interceptor.detachAll patch hooks w₁ = result at *
      obtain ⟨answer, w₂⟩ := result
      have hhooks : Held w₂ kept monitors := hbps.same hexc hbp hhw
      cases answer with
      | error e => exact hhooks
      | ok _ => exact ⟨hhooks.serves.disable, hhooks.swIdle, hhooks.hwIdle, hhooks.stepping⟩

/-- No call breaks what the exception handler owes its holders. -/
theorem Held.exec (h : Held w kept monitors) (target : Target) (c : Call) :
    ∃ kept', Held (c.exec target w) kept' monitors := by
  cases c with
  | enable => exact ⟨kept, h.serves.enable, h.swIdle, h.hwIdle, h.stepping⟩
  | disable => exact ⟨kept, h.serves.disable, h.swIdle, h.hwIdle, h.stepping⟩
  | swSet env address onHit => exact ⟨kept, h.swSet target.arch env address onHit⟩
  | swRemove patch bpId => exact ⟨kept, h.swRemove target.arch patch bpId⟩
  | swRemoveAll patch order => exact ⟨kept, h.swRemoveAll target.arch patch order⟩
  | hwSet env address type size onHit => exact h.hwSet target env address type size onHit
  | hwRemove bpId => exact ⟨kept, h.hwRemove bpId⟩
  | hwRemoveAll order => exact ⟨kept, h.hwRemoveAll order⟩
  | cleanup patch hws bps hooks => exact ⟨kept, h.cleanup target.arch patch hws bps hooks⟩

end Calls

/-! ## §4  Monitors -/

def monitorHolder (m : MonitorEntry) : Holder := [m.segvHandler, m.busHandler]

def monitorHolders (monitors : Monitors) : List Holder :=
  monitors.entries.map fun e => monitorHolder e.2

section Monitoring

variable {page : PageSize} {os : Os} {s t : MonitorState} {l : MemoryAccessMonitor.Label}
  {kept : List HandlerEntry} {others : List Holder}

/-- A monitor's holder apart from the rest. -/
theorem monitorHolders_perm {monitors : Monitors} {k : ℕ} {m : MonitorEntry}
    (hlive : monitors.lookup k = some m) :
    (monitorHolders monitors).Perm (monitorHolder m :: monitorHolders (monitors.erase k)) :=
  (entries_perm_erase hlive).map _

theorem monitorHolders_insert (monitors : Monitors) (k : ℕ) (m : MonitorEntry) :
    monitorHolders (monitors.insert k m) =
      monitorHolder m :: monitorHolders (monitors.erase k) := by
  rw [monitorHolders, AList.entries_insert]
  rfl

theorem serves_releaseHandlers {exc : ExceptionState} {m : MonitorEntry}
    (h : Serves exc kept (monitorHolder m :: others)) :
    Serves (releaseHandlers m exc) kept others := by
  have hsegv := h.unregister
  have hbus := hsegv.unregister
  exact hbus.refDisable

theorem serves_releaseAll {order : List (Σ _ : ℕ, MonitorEntry)} {exc : ExceptionState}
    (h : Serves exc kept (order.map (fun e => monitorHolder e.2) ++ others)) :
    Serves (order.foldl (fun exc e => releaseHandlers e.2 exc) exc) kept others := by
  induction order generalizing exc with
  | nil => exact h
  | cons e rest ih => exact ih (serves_releaseHandlers h)

theorem serves_monitorEnable (h : Serves s.exc kept (others ++ monitorHolders s.monitors))
    (hregistered : Registered s) (env : ProtectAnswers) (addresses : List Addr)
    (sizes : List (BitVec 32)) (onAccess : Callback) :
    Serves (MemoryAccessMonitor.enable page os env addresses sizes onAccess s).2.exc kept
      (others ++ monitorHolders
        (MemoryAccessMonitor.enable page os env addresses sizes onAccess s).2.monitors) := by
  unfold MemoryAccessMonitor.enable
  split
  · exact h
  · -- the new monitor's identifier is nobody's
    have hfree : s.nextMonId ∉ s.monitors := by
      intro hmem
      obtain ⟨m, hm⟩ := Option.isSome_iff_exists.mp (AList.lookup_isSome.mpr hmem)
      exact Nat.lt_irrefl _ (hregistered.below hm)
    have herase : s.monitors.erase s.nextMonId = s.monitors := by
      apply AList.ext
      exact List.kerase_of_notMem_keys hfree
    have hserves := (h.refEnable.register .accessViolation .monitorSegvHandler).register
      .busError .monitorSegvHandler
    apply hserves.perm
    dsimp only
    rw [monitorHolders_insert, herase]
    exact List.perm_middle.symm

theorem serves_noteAccess (h : Serves s.exc kept (others ++ monitorHolders s.monitors))
    {ctx : ExceptionContext} {order : List (Σ _ : ℕ, MonitorEntry)} {f : Found}
    (granted : Bool) (horder : order.Perm s.monitors.entries)
    (hscan : scan ctx.faultAddress order = some f) :
    Serves (noteAccess ctx granted f s).exc kept
      (others ++ monitorHolders (noteAccess ctx granted f s).monitors) := by
  obtain ⟨hlive, -, -⟩ := scan_found horder hscan
  apply h.perm
  apply List.Perm.append_left
  show (monitorHolders s.monitors).Perm (monitorHolders (s.monitors.insert f.key _))
  rw [monitorHolders_insert]
  -- a monitor with a range fired has the handlers it had
  have hperm := monitorHolders_perm hlive
  exact hperm

/-- A step of the monitors keeps what the exception handler owes them and the others. -/
theorem serves_monitorStep (h : Serves s.exc kept (others ++ monitorHolders s.monitors))
    (hregistered : Registered s) (hstep : MemoryAccessMonitor.Step page os s l t) :
    Serves t.exc kept (others ++ monitorHolders t.monitors) := by
  cases hstep with
  | enable hjs => exact serves_monitorEnable h hregistered _ _ _ _
  | begin hjs => exact h
  | turn hjs =>
      obtain ⟨hmonitors, -, -, hexc⟩ := drainTurn_frame _ _ _ s
      rw [hmonitors, hexc]
      exact h
  | callbackReturns hjs => exact h
  | drained hjs htask => exact h
  | @disable call granted order monId hjs htask =>
      show Serves (MemoryAccessMonitor.disable granted monId s).exc kept
        (others ++ monitorHolders (MemoryAccessMonitor.disable granted monId s).monitors)
      unfold MemoryAccessMonitor.disable
      split
      · exact h
      · rename_i m hlive
        apply serves_releaseHandlers
        apply h.perm
        exact ((monitorHolders_perm hlive).append_left others).trans List.perm_middle
  | @disableAll call granted order hjs htask horder =>
      have hall : (others ++ monitorHolders s.monitors).Perm
          (order.map (fun e => monitorHolder e.2) ++ others) :=
        ((horder.symm.map _).append_left others).trans List.perm_append_comm
      show Serves (order.foldl (fun exc e => releaseHandlers e.2 exc) s.exc) kept (others ++ [])
      rw [List.append_nil]
      exact serves_releaseAll (h.perm hall)
  | @fault ctx order granted horder =>
      rcases monitorSegvHandler_cases ctx order granted s with ⟨-, heq⟩ | ⟨f, hscan, heq⟩
      · rw [heq]
        exact h
      · rw [heq]
        exact serves_noteAccess h granted horder hscan
  | publish hmem => exact h

end Monitoring

/-! ## §5  The runtime -/

/-- The exception handler's globals are those of `world`. -/
structure Runtime where
  world : World
  mon : MonitorState

/-- The monitors with the exception handler they share. -/
def Runtime.monitoring (r : Runtime) : MonitorState := { r.mon with exc := r.world.exc }

def Runtime.withMonitoring (r : Runtime) (s : MonitorState) : Runtime :=
  ⟨{ r.world with exc := s.exc }, s⟩

def Runtime.start (code : Memory) (disposition : Sig → SigAction) (prot : Addr → Prot) :
    Runtime :=
  ⟨World.start code disposition, .start (.start disposition) prot⟩

inductive Label where
  | call (c : Call)
  | monitor (l : MemoryAccessMonitor.Label)

/-- Calls come one after the other or out of a callback. A monitor's call is the sequence of
its own steps, and any call may come between them. -/
inductive Step (target : Target) (page : PageSize) : Runtime → Label → Runtime → Prop
  | call {r} (c : Call) : Step target page r (.call c) { r with world := c.exec target r.world }
  | monitor {r l s} (hstep : MemoryAccessMonitor.Step page target.os r.monitoring l s) :
      Step target page r (.monitor l) (r.withMonitoring s)

/-- The handlers are in force and the chain has an entry of the type that runs the function. -/
def Answers (exc : ExceptionState) (type : ExceptionType) (callback : HandlerFn) : Prop :=
  (∀ sig, (exc.disposition sig).handler = .globalSignalHandler) ∧
    ∃ e ∈ exc.handlers, e.type = type ∧ e.callback = callback

/-- The reference count is made up of the three subsystems' shares, and whatever is live has
its handler. -/
structure Attended (r : Runtime) : Prop where
  count : r.world.exc.refCount = (if r.world.bp.handlerInstalled then 1 else 0) +
    (if r.world.hw.hwHandlerInstalled then 1 else 0) + (r.mon.monitors.entries.length : ℤ)
  nonneg : 0 ≤ r.world.exc.refCount
  sw : ∀ a ∈ r.world.bp.bpByAddress,
    Answers r.world.exc .breakpoint .breakpointSigtrapHandler
  hw : ∀ a ∈ r.world.hw.hwByAddress,
    Answers r.world.exc .breakpoint .hwBpSigtrapHandler ∧
      Answers r.world.exc .singleStep .hwBpSigtrapHandler
  monitor : ∀ k ∈ r.mon.monitors,
    Answers r.world.exc .accessViolation .monitorSegvHandler ∧
      Answers r.world.exc .busError .monitorSegvHandler

/-! ## §6  Reachable states -/

section Reachable

variable {target : Target} {page : PageSize} {r r' : Runtime} {l : Label}

/-- The invariant behind `Attended`. -/
def Owed (r : Runtime) : Prop :=
  Registered r.monitoring ∧ ∃ kept, Held r.world kept (monitorHolders r.mon.monitors)

theorem Owed.step (h : Owed r) (hstep : Step target page r l r') : Owed r' := by
  obtain ⟨hregistered, kept, hheld⟩ := h
  cases hstep with
  | call c =>
      obtain ⟨kept', hheld'⟩ := hheld.exec target c
      exact ⟨hregistered.congr rfl rfl, kept', hheld'⟩
  | monitor hstep =>
      refine ⟨(hregistered.step hstep).congr rfl rfl, kept, ?_, hheld.swIdle, hheld.hwIdle,
        hheld.stepping⟩
      exact serves_monitorStep (s := r.monitoring) hheld.serves hregistered hstep

theorem Owed.start (code : Memory) (disposition : Sig → SigAction) (prot : Addr → Prot) :
    Owed (Runtime.start code disposition prot) := by
  refine ⟨(Registered.start _ prot).congr rfl rfl, [], ⟨⟨?_, ?_⟩, ?_, ?_, ?_, ?_⟩, ?_, ?_, ?_⟩ <;>
    simp [Runtime.start, World.start, ExceptionState.start, BreakpointState.start, HwState.start,
      MonitorState.start, swHolders, hwHolders, monitorHolders]

/-- With a holder the handlers are in force, and its handlers answer. -/
theorem Serves.answers {exc : ExceptionState} {kept : List HandlerEntry}
    {holders : List Holder} {e : HandlerEntry} (h : Serves exc kept holders)
    (hsome : holders ≠ []) (he : e ∈ kept ++ holders.flatten) :
    Answers exc e.type e.callback := by
  have hpos : 0 < exc.refCount := by
    rw [h.count]
    exact Int.natCast_pos.mpr (List.length_pos_iff.mpr hsome)
  refine ⟨fun sig => ?_, e, h.mem e he, rfl, rfl⟩
  rw [h.inForce (.inr hpos) sig]
  rfl

theorem Held.answersSw {w : World} {kept : List HandlerEntry} {monitors : List Holder}
    (h : Held w kept monitors) {a : Addr} (ha : a ∈ w.bp.bpByAddress) :
    Answers w.exc .breakpoint .breakpointSigtrapHandler := by
  have hon : w.bp.handlerInstalled = true := by
    by_contra hoff
    exact h.swIdle (by simpa using hoff) a ha
  have hserves := h.serves
  rw [swHolders, if_pos hon] at hserves
  exact hserves.answers (e := ⟨w.bp.sigtrapHandlerId, .breakpoint, .breakpointSigtrapHandler⟩)
    (by simp) (by simp)

theorem Held.answersHw {w : World} {kept : List HandlerEntry} {monitors : List Holder}
    (h : Held w kept monitors) {a : Addr} (ha : a ∈ w.hw.hwByAddress) :
    Answers w.exc .breakpoint .hwBpSigtrapHandler ∧
      Answers w.exc .singleStep .hwBpSigtrapHandler := by
  have hon : w.hw.hwHandlerInstalled = true := by
    by_contra hoff
    exact h.hwIdle (by simpa using hoff) a ha
  have hserves := h.serves
  rw [hwHolders, if_pos hon] at hserves
  obtain ⟨e, he, htype, hcallback⟩ := h.stepping hon
  constructor
  · exact hserves.answers (e := ⟨w.hw.hwHandlerId, .breakpoint, .hwBpSigtrapHandler⟩)
      (by simp) (by simp)
  · rw [← htype, ← hcallback]
    exact hserves.answers (by simp) (List.mem_append_left _ he)

theorem Held.answersMonitor {w : World} {kept : List HandlerEntry} {monitors : Monitors}
    (h : Held w kept (monitorHolders monitors)) {k : ℕ} (hk : k ∈ monitors) :
    Answers w.exc .accessViolation .monitorSegvHandler ∧
      Answers w.exc .busError .monitorSegvHandler := by
  obtain ⟨m, hlive⟩ := Option.isSome_iff_exists.mp (AList.lookup_isSome.mpr hk)
  have hholder : monitorHolder m ∈ monitorHolders monitors :=
    List.mem_map_of_mem (f := fun e => monitorHolder e.2) (AList.mem_lookup_iff.mp hlive)
  have hmem : ∀ e ∈ monitorHolder m,
      e ∈ kept ++ (swHolders w.bp ++ hwHolders w.hw ++ monitorHolders monitors).flatten := by
    intro e he
    exact List.mem_append_right _
      (List.mem_flatten.mpr ⟨_, List.mem_append_right _ hholder, he⟩)
  have hsome : swHolders w.bp ++ hwHolders w.hw ++ monitorHolders monitors ≠ [] :=
    List.append_ne_nil_of_right_ne_nil _ (List.ne_nil_of_mem hholder)
  exact ⟨h.serves.answers (e := m.segvHandler) hsome (hmem _ (by simp [monitorHolder])),
    h.serves.answers (e := m.busHandler) hsome (hmem _ (by simp [monitorHolder]))⟩

theorem Owed.attended (h : Owed r) : Attended r := by
  obtain ⟨-, kept, hheld⟩ := h
  have hcount : r.world.exc.refCount = (if r.world.bp.handlerInstalled then 1 else 0) +
      (if r.world.hw.hwHandlerInstalled then 1 else 0) +
        (r.mon.monitors.entries.length : ℤ) := by
    rw [hheld.serves.count, List.length_append, List.length_append, swHolders, hwHolders,
      monitorHolders, List.length_map]
    split_ifs <;> simp
  refine ⟨hcount, ?_, fun a ha => hheld.answersSw ha, fun a ha => hheld.answersHw ha,
    fun k hk => hheld.answersMonitor hk⟩
  rw [hheld.serves.count]
  exact Int.natCast_nonneg _

/-- **Traps can be claimed.** However the subsystems are used and the exception handler is
switched, the reference count is that of the subsystems in use, and each of these has the OS
handlers and its own handler in force. -/
theorem attended_throughout {code : Memory} {disposition : Sig → SigAction}
    {prot : Addr → Prot} {tr : List (Runtime × Label)}
    (run : Run (Step target page) (Runtime.start code disposition prot) tr r) :
    Throughout Attended tr r := by
  have inv := run.invariant (Owed.start code disposition prot) fun _ _ _ h hstep => h.step hstep
  exact ⟨fun p hp => (inv.1 p hp).attended, inv.2.attended⟩

end Reachable

section Concrete

def atStart : Runtime := Runtime.start (fun _ => 0) defaultActions fun _ => .readWrite

def setCall : Call := .swSet ⟨0x10, .ok (0x5000, 1), .ok 0x5100, .ok⟩ 0x1000 0

def afterSet : Runtime :=
  { atStart with world := setCall.exec ⟨.x64, .linux⟩ atStart.world }

/-- A monitor is enabled beside the breakpoint. -/
def afterEnable : Runtime :=
  afterSet.withMonitoring (MemoryAccessMonitor.enable MemoryAccessMonitor.smallPages .linux
    MemoryAccessMonitor.allGranted [0x1000] [4] 0 afterSet.monitoring).2

def afterDisable : Runtime :=
  { afterEnable with world := Call.disable.exec ⟨.x64, .linux⟩ afterEnable.world }

/-- The user's `disable` leaves the breakpoint and the monitor their handlers. -/
theorem attended_throughout_disable :
    Throughout Attended
      [(atStart, Label.call setCall),
        (afterSet, Label.monitor (.enable MemoryAccessMonitor.allGranted [0x1000] [4] 0)),
        (afterEnable, Label.call .disable)] afterDisable :=
  have first : Step ⟨.x64, .linux⟩ MemoryAccessMonitor.smallPages atStart (.call setCall)
      afterSet := .call setCall
  have second : Step ⟨.x64, .linux⟩ MemoryAccessMonitor.smallPages afterSet
      (.monitor (.enable MemoryAccessMonitor.allGranted [0x1000] [4] 0)) afterEnable :=
    .monitor (.enable rfl)
  attended_throughout (((Run.nil.snoc first).snoc second).snoc (.call .disable))

end Concrete

end SharedHandler

end Chromatic
