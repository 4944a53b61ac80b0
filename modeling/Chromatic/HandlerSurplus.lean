import Chromatic.SharedHandler

/-!
# Handlers that stay behind

How many entries `g_handlers` has beyond those of the subsystems in use. Registering and
unregistering cancel out except for the hardware breakpoints, which register two handlers and
unregister one.

§1 what the chain should hold · §2 counting entries · §3 calls · §4 monitors · §5 the surplus ·
§6 runs · §7 a breakpoint that is refused.
-/

namespace Chromatic

open Foundation ExceptionHandler
open MemoryAccessMonitor (MonitorEntry MonitorState Monitors PageSize Registered releaseHandlers
  drainTurn_frame monitorSegvHandler_cases scan_found)

namespace SharedHandler

/-! ## §1  What the chain should hold -/

def kind (e : HandlerEntry) : ExceptionType × HandlerFn := (e.type, e.callback)

def expected (r : Runtime) : List (ExceptionType × HandlerFn) :=
  (if r.world.bp.handlerInstalled then [(.breakpoint, .breakpointSigtrapHandler)] else []) ++
    (if r.world.hw.hwHandlerInstalled then
      [(.breakpoint, .hwBpSigtrapHandler), (.singleStep, .hwBpSigtrapHandler)] else []) ++
    r.mon.monitors.entries.flatMap fun _ =>
      [(.accessViolation, .monitorSegvHandler), (.busError, .monitorSegvHandler)]

/-- `g_handlers` holds exactly the handlers of the subsystems in use. -/
def Lawful (r : Runtime) : Prop := (r.world.exc.handlers.map kind).Perm (expected r)

/-! ## §2  Counting entries -/

/-- The entries of the chain that are not the breakpoint subsystems'. -/
def others (w : World) : ℤ :=
  w.exc.handlers.length - (if w.bp.handlerInstalled then 1 else 0) -
    (if w.hw.hwHandlerInstalled then 2 else 0)

section Counting

variable {exc : ExceptionState} {kept : List HandlerEntry} {holders monitors : List Holder}
  {held : Holder} {e : HandlerEntry} {w w₁ : World}

/-- One handler is unregistered. -/
theorem Serves.length_unregister (h : Serves exc kept ((e :: held) :: holders))
    (hnodup : exc.handlers.Nodup) :
    ((unregisterHandler e.id exc).handlers.length : ℤ) = exc.handlers.length - 1 ∧
      (unregisterHandler e.id exc).handlers.Nodup := by
  have he : e ∈ exc.handlers := h.mem e (by simp)
  have herase : (unregisterHandler e.id exc).handlers = exc.handlers.erase e := by
    rw [hnodup.erase_eq_filter]
    apply List.filter_congr
    intro e' he'
    have hid : e'.id = e.id ↔ e' = e := ⟨h.numbered.distinct e' he' e he, congrArg _⟩
    rw [Bool.eq_iff_iff, bne_iff_ne, decide_eq_true_eq, ne_eq, hid]
  have hpos := List.length_pos_of_mem he
  rw [herase, List.length_erase_of_mem he]
  exact ⟨by omega, hnodup.erase e⟩

theorem nodup_register (hnumbered : Numbered exc) (hnodup : exc.handlers.Nodup)
    (type : ExceptionType) (callback : HandlerFn) :
    (registerHandler type callback exc).2.handlers.Nodup := by
  refine List.nodup_append.mpr ⟨hnodup, List.nodup_singleton _, fun e he e' he' heq => ?_⟩
  have hlt := hnumbered.below e he
  rw [heq, List.mem_singleton.mp he'] at hlt
  exact Nat.lt_irrefl _ hlt

theorem others_same (h : SameHandlers w w₁) : others w₁ = others w := by
  rw [others, h.exc, h.swInstalled, h.hwInstalled, others]

theorem others_ensureSw (w : World) :
    others (SoftwareBreakpoint.ensureHandlerInstalled w) = others w := by
  unfold SoftwareBreakpoint.ensureHandlerInstalled
  split_ifs with hon
  · rfl
  · simp [others, hon, registerHandler]

theorem others_ensureHw (w : World) :
    others (HardwareBreakpoint.ensureHwHandlerInstalled w) = others w := by
  unfold HardwareBreakpoint.ensureHwHandlerInstalled
  split_ifs with hon
  · rfl
  · simp [others, hon, registerHandler]
    omega

theorem nodup_ensureSw (h : Numbered w.exc) (hnodup : w.exc.handlers.Nodup) :
    (SoftwareBreakpoint.ensureHandlerInstalled w).exc.handlers.Nodup := by
  unfold SoftwareBreakpoint.ensureHandlerInstalled
  split_ifs
  · exact hnodup
  · exact nodup_register (h.congr (by simp) (by simp)) (by simpa using hnodup) _ _

theorem nodup_ensureHw (h : Numbered w.exc) (hnodup : w.exc.handlers.Nodup) :
    (HardwareBreakpoint.ensureHwHandlerInstalled w).exc.handlers.Nodup := by
  unfold HardwareBreakpoint.ensureHwHandlerInstalled
  split_ifs
  · exact hnodup
  · have hnumbered : Numbered (refEnable w.exc) := h.congr (by simp) (by simp)
    exact nodup_register (hnumbered.register _ _)
      (nodup_register hnumbered (by simpa using hnodup) _ _) _ _

/-- The software breakpoints unregister what they registered. -/
theorem others_maybeRemoveSw (h : Held w kept monitors) (hnodup : w.exc.handlers.Nodup)
    (hsame : SameHandlers w w₁) :
    others (SoftwareBreakpoint.maybeRemoveHandler w₁) = others w ∧
      (SoftwareBreakpoint.maybeRemoveHandler w₁).exc.handlers.Nodup := by
  unfold SoftwareBreakpoint.maybeRemoveHandler
  split_ifs with hkeep
  · exact ⟨others_same hsame, hsame.exc ▸ hnodup⟩
  · have hon : w.bp.handlerInstalled = true := by
      simpa [hsame.swInstalled] using (not_or.mp hkeep).1
    have hserves := h.serves
    rw [swHolders, if_pos hon] at hserves
    obtain ⟨hlength, hnodup'⟩ := hserves.length_unregister hnodup
    rw [hsame.exc, hsame.swId]
    refine ⟨?_, hnodup'⟩
    dsimp only at hlength
    simp only [others, refDisable_handlers, hsame.hwInstalled, hon, Bool.false_eq_true, if_true,
      if_false]
    omega

/-- Of the two handlers of the hardware breakpoints one is unregistered. -/
theorem others_maybeRemoveHw (h : Held w kept monitors) (hnodup : w.exc.handlers.Nodup)
    (hsame : SameHandlers w w₁) :
    others (HardwareBreakpoint.maybeRemoveHwHandler w₁) = others w +
        (if w.hw.hwHandlerInstalled = true ∧ w₁.hw.hwByAddress.entries = [] then 1 else 0) ∧
      (HardwareBreakpoint.maybeRemoveHwHandler w₁).exc.handlers.Nodup := by
  unfold HardwareBreakpoint.maybeRemoveHwHandler
  rw [hsame.hwInstalled]
  split_ifs with hkeep hgone hgone
  · obtain ⟨hon, hempty⟩ := hgone
    rcases hkeep with hoff | hlive
    · rw [hon] at hoff
      cases hoff
    · exact absurd hempty hlive
  · exact ⟨by rw [others_same hsame, add_zero], hsame.exc ▸ hnodup⟩
  · have hserves := h.serves
    rw [hwHolders, if_pos hgone.1, List.append_assoc] at hserves
    obtain ⟨hlength, hnodup'⟩ := (hserves.perm List.perm_middle).length_unregister hnodup
    rw [hsame.exc, hsame.hwId]
    refine ⟨?_, hnodup'⟩
    dsimp only at hlength
    simp only [others, refDisable_handlers, hsame.swInstalled, hgone.1, Bool.false_eq_true,
      if_true, if_false]
    omega
  · obtain ⟨hon, hempty⟩ := not_or.mp hkeep
    exact absurd ⟨by simpa using hon, not_not.mp hempty⟩ hgone

end Counting

/-! ## §3  Calls -/

/-- The call takes the handler of the hardware breakpoints out of the chain. -/
def takesAway (w : World) : Call → Bool
  | .hwRemove bpId => w.hw.hwHandlerInstalled && (w.hw.hwById.lookup bpId).any fun e =>
      (w.hw.hwByAddress.erase e.address).entries.isEmpty
  | .hwRemoveAll _ => w.hw.hwHandlerInstalled
  | .cleanup _ _ _ _ => w.hw.hwHandlerInstalled
  | _ => false

section Calls

theorem enable_handlers (exc : ExceptionState) :
    (ExceptionHandler.enable exc).handlers = exc.handlers := by
  unfold ExceptionHandler.enable
  split_ifs <;> rfl

theorem disable_handlers (exc : ExceptionState) :
    (ExceptionHandler.disable exc).handlers = exc.handlers := by
  unfold ExceptionHandler.disable
  split_ifs <;> rfl

variable {w w₁ : World} {kept : List HandlerEntry} {monitors : List Holder}

theorem SameHandlers.refl (w : World) : SameHandlers w w := ⟨rfl, rfl, rfl, rfl, rfl⟩

theorem SameHandlers.of_eq (hexc : w₁.exc = w.exc) (hbp : w₁.bp = w.bp) (hhw : w₁.hw = w.hw) :
    SameHandlers w w₁ := ⟨hexc, by rw [hbp], by rw [hbp], by rw [hhw], by rw [hhw]⟩

/-- `set` registers the handler and leaves it at that. -/
theorem swSet_moves (arch : Arch) (env : SoftwareBreakpoint.Install) (address : Addr)
    (onHit : Callback) (w : World) :
    SameHandlers w (SoftwareBreakpoint.set arch env address onHit w).2 ∨
      SameHandlers (SoftwareBreakpoint.ensureHandlerInstalled w)
        (SoftwareBreakpoint.set arch env address onHit w).2 := by
  unfold SoftwareBreakpoint.set
  split
  · exact .inl (.refl w)
  · right
    cases env.relocated with
    | error e => exact .of_eq rfl rfl rfl
    | ok block =>
        cases env.trampoline with
        | error e => exact .of_eq (by simp) (by simp) (by simp)
        | ok t =>
            cases env.patch with
            | ok => exact ⟨rfl, rfl, rfl, rfl, rfl⟩
            | rwDenied | rxDenied => exact .of_eq rfl rfl rfl

theorem swRemove_moves (arch : Arch) (patch : PatchOutcome) (bpId : ℕ) (w : World) :
    ∃ w₁, SameHandlers w w₁ ∧ ((SoftwareBreakpoint.remove arch patch bpId w).2 = w₁ ∨
      (SoftwareBreakpoint.remove arch patch bpId w).2 =
        SoftwareBreakpoint.maybeRemoveHandler w₁) := by
  unfold SoftwareBreakpoint.remove
  split
  · exact ⟨w, .refl w, .inl rfl⟩
  · cases patch with
    | ok => exact ⟨_, ⟨by simp, by simp, by simp, by simp, by simp⟩, .inr rfl⟩
    | rwDenied | rxDenied =>
        refine ⟨_, ?_, .inl rfl⟩
        exact .of_eq rfl rfl rfl

theorem swRemoveAll_moves (arch : Arch) (patch : Addr → PatchOutcome)
    (order : List (Σ _ : ℕ, BreakpointEntry)) (w : World) :
    ∃ w₁, SameHandlers w w₁ ∧ ((SoftwareBreakpoint.removeAll arch patch order w).2 = w₁ ∨
      (SoftwareBreakpoint.removeAll arch patch order w).2 =
        SoftwareBreakpoint.maybeRemoveHandler w₁) := by
  obtain ⟨hbp, hexc, -, hhw⟩ := SoftwareBreakpoint.restoreAll_frame arch patch order w
  unfold SoftwareBreakpoint.removeAll
  generalize SoftwareBreakpoint.restoreAll arch patch order w = result at *
  obtain ⟨answer, w'⟩ := result
  cases answer with
  | error e => exact ⟨w', .of_eq hexc hbp hhw, .inl rfl⟩
  | ok _ =>
      obtain ⟨hexc', hswOn, hswId, hhwOn, hhwId⟩ := SameHandlers.of_eq hexc hbp hhw
      refine ⟨_, ?_, .inr rfl⟩
      exact ⟨hexc', hswOn, hswId, hhwOn, hhwId⟩

theorem hwSet_moves (target : Target) (env : HardwareBreakpoint.Install) (address : Addr)
    (typeStr : String) (size : ℤ) (onHit : Callback) (w : World) :
    SameHandlers w (HardwareBreakpoint.set target env address typeStr size onHit w).2 ∨
      SameHandlers (HardwareBreakpoint.ensureHwHandlerInstalled w)
        (HardwareBreakpoint.set target env address typeStr size onHit w).2 := by
  rcases HardwareBreakpoint.set_target_cases target env address typeStr size onHit w with
    hsame | haside | ⟨entry, -, -, -, hlive⟩
  · rw [hsame]
    exact .inl (.refl w)
  · exact .inr (.of_eq haside.exc haside.bp haside.hw)
  · exact .inr ⟨hlive.exc, by rw [hlive.bp], by rw [hlive.bp], hlive.installed, hlive.handlerId⟩

theorem hwRemoveAll_moves (order : List (Σ _ : ℕ, HwBreakpointEntry)) (w : World) :
    ∃ w₁, SameHandlers w w₁ ∧ w₁.hw.hwByAddress.entries = [] ∧
      HardwareBreakpoint.removeAll order w = HardwareBreakpoint.maybeRemoveHwHandler w₁ := by
  have hreleased : SameHandlers w (HardwareBreakpoint.releaseAll order w) := by
    induction order generalizing w with
    | nil => exact .refl w
    | cons e rest ih =>
        obtain ⟨hexc, hswOn, hswId, hhwOn, hhwId⟩ := ih (HardwareBreakpoint.releaseEntry e.2 w)
        exact ⟨hexc.trans (by simp), hswOn.trans (by simp), hswId.trans (by simp),
          hhwOn.trans (by simp), hhwId.trans (by simp)⟩
  refine ⟨_, ?_, ?_, rfl⟩
  · exact ⟨hreleased.exc, hreleased.swInstalled, hreleased.swId, hreleased.hwInstalled,
      hreleased.hwId⟩
  · rfl

theorem others_hwRemoveAll (h : Held w kept monitors) (hnodup : w.exc.handlers.Nodup)
    (order : List (Σ _ : ℕ, HwBreakpointEntry)) :
    others (HardwareBreakpoint.removeAll order w) =
        others w + (if w.hw.hwHandlerInstalled = true then 1 else 0) ∧
      (HardwareBreakpoint.removeAll order w).exc.handlers.Nodup := by
  obtain ⟨w₁, hsame, hempty, heq⟩ := hwRemoveAll_moves order w
  have hmoved := others_maybeRemoveHw h hnodup hsame
  simp only [hempty, and_true] at hmoved
  rwa [heq]

theorem hwRemove_moves {bpId : ℕ} {entry : HwBreakpointEntry}
    (hl : w.hw.hwById.lookup bpId = some entry) :
    ∃ w₁, SameHandlers w w₁ ∧ w₁.hw.hwByAddress = w.hw.hwByAddress.erase entry.address ∧
      HardwareBreakpoint.remove bpId w = HardwareBreakpoint.maybeRemoveHwHandler w₁ := by
  simp only [HardwareBreakpoint.remove, hl]
  refine ⟨_, ?_, ?_, rfl⟩
  · exact ⟨by simp, by simp, by simp, by simp, by simp⟩
  · simp

/-- Behind a call that takes software breakpoints down, or stops before that. -/
theorem others_swMoves {w' : World} (h : Held w kept monitors) (hnodup : w.exc.handlers.Nodup)
    (hsame : SameHandlers w w₁)
    (hmove : w' = w₁ ∨ w' = SoftwareBreakpoint.maybeRemoveHandler w₁) :
    others w' = others w ∧ w'.exc.handlers.Nodup := by
  rcases hmove with rfl | rfl
  · exact ⟨others_same hsame, hsame.exc ▸ hnodup⟩
  · exact others_maybeRemoveSw h hnodup hsame

theorem others_disable (w : World) :
    others { w with exc := ExceptionHandler.disable w.exc } = others w := by
  rw [others, disable_handlers, others]

/-- `cleanup` stops at the first step that throws, and each step but the first leaves the others
as they were. -/
theorem others_cleanup (h : Held w kept monitors) (hnodup : w.exc.handlers.Nodup)
    (target : Target) (patch : Addr → PatchOutcome) (hws : List (Σ _ : ℕ, HwBreakpointEntry))
    (bps : List (Σ _ : ℕ, BreakpointEntry)) (hooks : List (Σ _ : ℕ, HookEntry)) :
    others (Cleanup.cleanup target.arch patch hws bps hooks w).2 =
        others w + (if w.hw.hwHandlerInstalled = true then 1 else 0) ∧
      (Cleanup.cleanup target.arch patch hws bps hooks w).2.exc.handlers.Nodup := by
  obtain ⟨hfirst, hnodup₁⟩ := others_hwRemoveAll h hnodup hws
  obtain ⟨w₁, hsame, hmove⟩ :=
    swRemoveAll_moves target.arch patch bps (HardwareBreakpoint.removeAll hws w)
  obtain ⟨hsecond, hnodup₂⟩ := others_swMoves (h.hwRemoveAll hws) hnodup₁ hsame hmove
  rw [hfirst] at hsecond
  unfold Cleanup.cleanup
  generalize SoftwareBreakpoint.removeAll target.arch patch bps
    (HardwareBreakpoint.removeAll hws w) = result at *
  obtain ⟨answer, w₂⟩ := result
  cases answer with
  | error e => exact ⟨hsecond, hnodup₂⟩
  | ok _ =>
      obtain ⟨hexc, hbp, hhw⟩ := Interceptor.detachAll_handlers patch hooks w₂
      dsimp only
      generalize Interceptor.detachAll patch hooks w₂ = result at *
      obtain ⟨answer, w₃⟩ := result
      have hhooks : others w₃ = others w₂ := others_same (.of_eq hexc hbp hhw)
      have hnodup₃ : w₃.exc.handlers.Nodup := by
        rw [show w₃.exc = w₂.exc from hexc]
        exact hnodup₂
      cases answer with
      | error e => exact ⟨hhooks.trans hsecond, hnodup₃⟩
      | ok _ =>
          refine ⟨?_, (disable_handlers w₃.exc).symm ▸ hnodup₃⟩
          exact (others_disable w₃).trans (hhooks.trans hsecond)

/-- **What a call adds to the others.** Nothing, but one for taking the hardware breakpoints'
handler away. -/
theorem others_exec (h : Held w kept monitors) (hnodup : w.exc.handlers.Nodup) (target : Target)
    (c : Call) : others (c.exec target w) = others w + (if takesAway w c then 1 else 0) ∧
      (c.exec target w).exc.handlers.Nodup := by
  -- a call that takes nothing away
  have hnone : ∀ {w' : World}, others w' = others w → w'.exc.handlers.Nodup →
      others w' = others w + (if false = true then 1 else 0) ∧ w'.exc.handlers.Nodup :=
    fun hothers hnodup' => ⟨hothers.trans (add_zero _).symm, hnodup'⟩
  cases c with
  | enable =>
      refine hnone ?_ ?_
      · rw [Call.exec, others, enable_handlers, others]
      · exact (enable_handlers w.exc).symm ▸ hnodup
  | disable => exact hnone (others_disable w) ((disable_handlers w.exc).symm ▸ hnodup)
  | swSet env address onHit =>
      rcases swSet_moves target.arch env address onHit w with hsame | hsame
      · exact hnone (others_same hsame) (hsame.exc ▸ hnodup)
      · exact hnone ((others_same hsame).trans (others_ensureSw w))
          (hsame.exc ▸ nodup_ensureSw h.serves.numbered hnodup)
  | swRemove patch bpId =>
      obtain ⟨w₁, hsame, hmove⟩ := swRemove_moves target.arch patch bpId w
      obtain ⟨hothers, hnodup'⟩ := others_swMoves h hnodup hsame hmove
      exact hnone hothers hnodup'
  | swRemoveAll patch order =>
      obtain ⟨w₁, hsame, hmove⟩ := swRemoveAll_moves target.arch patch order w
      obtain ⟨hothers, hnodup'⟩ := others_swMoves h hnodup hsame hmove
      exact hnone hothers hnodup'
  | hwSet env address type size onHit =>
      rcases hwSet_moves target env address type size onHit w with hsame | hsame
      · exact hnone (others_same hsame) (hsame.exc ▸ hnodup)
      · exact hnone ((others_same hsame).trans (others_ensureHw w))
          (hsame.exc ▸ nodup_ensureHw h.serves.numbered hnodup)
  | hwRemove bpId =>
      cases hl : w.hw.hwById.lookup bpId with
      | none =>
          have hsame : Call.exec target (.hwRemove bpId) w = w := by
            simp only [Call.exec, HardwareBreakpoint.remove, hl]
          rw [hsame]
          exact ⟨by simp [takesAway, hl], hnodup⟩
      | some entry =>
          obtain ⟨w₁, hsame, hmap, heq⟩ := hwRemove_moves hl
          rw [Call.exec, heq]
          have hmoved := others_maybeRemoveHw h hnodup hsame
          rw [hmap] at hmoved
          simpa [takesAway, hl] using hmoved
  | hwRemoveAll order => exact others_hwRemoveAll h hnodup order
  | cleanup patch hws bps hooks => exact others_cleanup h hnodup target patch hws bps hooks

end Calls

/-! ## §4  Monitors -/

section Monitoring

variable {page : PageSize} {os : Os} {s t : MonitorState} {l : MemoryAccessMonitor.Label}
  {kept : List HandlerEntry} {rest : List Holder}

/-- The entries of the chain that are not the monitors'. -/
def unmonitored (s : MonitorState) : ℤ := s.exc.handlers.length - 2 * s.monitors.entries.length

theorem length_releaseHandlers {exc : ExceptionState} {m : MonitorEntry}
    (h : Serves exc kept (monitorHolder m :: rest)) (hnodup : exc.handlers.Nodup) :
    ((releaseHandlers m exc).handlers.length : ℤ) = exc.handlers.length - 2 ∧
      (releaseHandlers m exc).handlers.Nodup := by
  obtain ⟨hsegv, hnodup₁⟩ := h.length_unregister hnodup
  obtain ⟨hbus, hnodup₂⟩ := h.unregister.length_unregister hnodup₁
  refine ⟨?_, hnodup₂⟩
  rw [releaseHandlers, refDisable_handlers]
  exact hbus.trans (by omega)

theorem length_releaseAll {order : List (Σ _ : ℕ, MonitorEntry)} {exc : ExceptionState}
    (h : Serves exc kept (order.map (fun e => monitorHolder e.2) ++ rest))
    (hnodup : exc.handlers.Nodup) :
    ((order.foldl (fun exc e => releaseHandlers e.2 exc) exc).handlers.length : ℤ) =
        exc.handlers.length - 2 * order.length ∧
      (order.foldl (fun exc e => releaseHandlers e.2 exc) exc).handlers.Nodup := by
  induction order generalizing exc with
  | nil => exact ⟨by simp, hnodup⟩
  | cons e order ih =>
      obtain ⟨hone, hnodup₁⟩ := length_releaseHandlers h hnodup
      obtain ⟨hrest, hnodup₂⟩ := ih (serves_releaseHandlers h) hnodup₁
      refine ⟨hrest.trans ?_, hnodup₂⟩
      rw [hone, List.length_cons]
      omega

/-- The new monitor's identifier is nobody's. -/
theorem monitors_length_insert (h : Registered s) (m : MonitorEntry) :
    (s.monitors.insert s.nextMonId m).entries.length = s.monitors.entries.length + 1 := by
  have hfree : s.nextMonId ∉ s.monitors := by
    intro hmem
    obtain ⟨m, hm⟩ := Option.isSome_iff_exists.mp (AList.lookup_isSome.mpr hmem)
    exact Nat.lt_irrefl _ (h.below hm)
  rw [AList.entries_insert_of_notMem hfree, List.length_cons]

theorem unmonitored_enable (h : Numbered s.exc) (hregistered : Registered s)
    (hnodup : s.exc.handlers.Nodup) (env : MemoryAccessMonitor.ProtectAnswers)
    (addresses : List Addr) (sizes : List (BitVec 32)) (onAccess : Callback) :
    unmonitored (MemoryAccessMonitor.enable page os env addresses sizes onAccess s).2 =
        unmonitored s ∧
      (MemoryAccessMonitor.enable page os env addresses sizes onAccess s).2.exc.handlers.Nodup := by
  unfold MemoryAccessMonitor.enable
  split
  · exact ⟨rfl, hnodup⟩
  · have hnumbered : Numbered (refEnable s.exc) := h.congr (by simp) (by simp)
    refine ⟨?_, nodup_register (hnumbered.register _ _)
      (nodup_register hnumbered (by simpa using hnodup) _ _) _ _⟩
    simp only [unmonitored, registerHandler, monitors_length_insert hregistered,
      refEnable_handlers, List.length_append, List.length_singleton]
    omega

theorem unmonitored_step (h : Serves s.exc kept (rest ++ monitorHolders s.monitors))
    (hregistered : Registered s) (hnodup : s.exc.handlers.Nodup)
    (hstep : MemoryAccessMonitor.Step page os s l t) :
    unmonitored t = unmonitored s ∧ t.exc.handlers.Nodup := by
  cases hstep with
  | enable hjs => exact unmonitored_enable h.numbered hregistered hnodup _ _ _ _
  | begin hjs => exact ⟨rfl, hnodup⟩
  | turn hjs =>
      obtain ⟨hmonitors, -, -, hexc⟩ := drainTurn_frame _ _ _ s
      rw [unmonitored, hmonitors, hexc]
      exact ⟨rfl, hnodup⟩
  | callbackReturns hjs => exact ⟨rfl, hnodup⟩
  | drained hjs htask => exact ⟨rfl, hnodup⟩
  | @disable call granted order monId hjs htask =>
      show unmonitored (MemoryAccessMonitor.disable granted monId s) = unmonitored s ∧
        (MemoryAccessMonitor.disable granted monId s).exc.handlers.Nodup
      unfold MemoryAccessMonitor.disable
      split
      · exact ⟨rfl, hnodup⟩
      · rename_i m hlive
        have hapart : (rest ++ monitorHolders s.monitors).Perm
            (monitorHolder m :: (rest ++ monitorHolders (s.monitors.erase monId))) :=
          ((monitorHolders_perm hlive).append_left rest).trans List.perm_middle
        obtain ⟨hlength, hnodup'⟩ := length_releaseHandlers (h.perm hapart) hnodup
        refine ⟨?_, hnodup'⟩
        have hone := (entries_perm_erase hlive).length_eq
        simp only [unmonitored, hlength, hone, List.length_cons]
        omega
  | @disableAll call granted order hjs htask horder =>
      have hall : (rest ++ monitorHolders s.monitors).Perm
          (order.map (fun e => monitorHolder e.2) ++ rest) :=
        ((horder.symm.map _).append_left rest).trans List.perm_append_comm
      obtain ⟨hlength, hnodup'⟩ := length_releaseAll (h.perm hall) hnodup
      refine ⟨?_, hnodup'⟩
      show ((order.foldl (fun exc e => releaseHandlers e.2 exc) s.exc).handlers.length : ℤ) -
        2 * (0 : ℕ) = unmonitored s
      rw [hlength, horder.length_eq, unmonitored]
      simp
  | @fault ctx order granted horder =>
      rcases monitorSegvHandler_cases ctx order granted s with ⟨-, heq⟩ | ⟨f, hscan, heq⟩
      · rw [heq]
        exact ⟨rfl, hnodup⟩
      · rw [heq]
        refine ⟨?_, hnodup⟩
        obtain ⟨hlive, -, -⟩ := scan_found horder hscan
        have hcount : (s.monitors.insert f.key
            { f.monitor with ranges := f.ranges }).entries.length = s.monitors.entries.length := by
          rw [AList.entries_insert]
          exact (entries_perm_erase hlive).length_eq.symm
        show (s.exc.handlers.length : ℤ) - 2 * _ = unmonitored s
        rw [unmonitored, ← hcount]
        rfl
  | publish hmem => exact ⟨rfl, hnodup⟩

end Monitoring

/-! ## §5  The surplus -/

/-- The entries of the chain that are no subsystem's. -/
def surplus (r : Runtime) : ℤ := others r.world - 2 * r.mon.monitors.entries.length

/-- The call of the run takes the hardware breakpoints' handler away. -/
def takesHandler (r : Runtime) : Label → Bool
  | .call c => takesAway r.world c
  | .monitor _ => false

section Surplus

variable {target : Target} {page : PageSize} {r r' : Runtime} {l : Label}

theorem surplus_eq (r : Runtime) : surplus r = unmonitored r.monitoring -
    (if r.world.bp.handlerInstalled then 1 else 0) -
      (if r.world.hw.hwHandlerInstalled then 2 else 0) := by
  simp only [surplus, others, unmonitored, Runtime.monitoring]
  omega

/-- Every time the hardware breakpoints' handler is taken away one entry more stays behind. -/
theorem surplus_step (h : Owed r) (hnodup : r.world.exc.handlers.Nodup)
    (hstep : Step target page r l r') :
    surplus r' = surplus r + (if takesHandler r l then 1 else 0) ∧
      r'.world.exc.handlers.Nodup := by
  obtain ⟨hregistered, kept, hheld⟩ := h
  cases hstep with
  | call c =>
      obtain ⟨hothers, hnodup'⟩ := others_exec hheld hnodup target c
      refine ⟨?_, hnodup'⟩
      show others (c.exec target r.world) - 2 * r.mon.monitors.entries.length = _
      rw [hothers, surplus, takesHandler]
      omega
  | @monitor l s hstep =>
      obtain ⟨hsame, hnodup'⟩ := unmonitored_step (s := r.monitoring) hheld.serves hregistered
        hnodup hstep
      refine ⟨?_, hnodup'⟩
      have hafter : (r.withMonitoring s).monitoring = s := rfl
      rw [surplus_eq, surplus_eq, hafter, hsame, takesHandler, if_neg Bool.false_ne_true, add_zero]
      rfl

theorem kinds_monitorHolders (monitors : Monitors) :
    (monitorHolders monitors).flatten.map kind = monitors.entries.flatMap fun _ =>
      [(.accessViolation, .monitorSegvHandler), (.busError, .monitorSegvHandler)] := by
  rw [monitorHolders, List.map_flatten, List.map_map, List.flatMap_def]
  rfl

/-- What the subsystems in use have in the chain, one entry for each that is expected. -/
theorem exists_listing (h : Owed r) : ∃ listing : List HandlerEntry,
    listing.Nodup ∧ listing ⊆ r.world.exc.handlers ∧ (listing.map kind).Perm (expected r) := by
  obtain ⟨-, kept, hheld⟩ := h
  have hserves := hheld.serves
  -- the single-step handler is among those nobody is going to unregister
  obtain ⟨single, hsub, hsingle⟩ : ∃ single : List HandlerEntry, single.Sublist kept ∧
      single.map kind = if r.world.hw.hwHandlerInstalled then
        [(.singleStep, .hwBpSigtrapHandler)] else [] := by
    cases hon : r.world.hw.hwHandlerInstalled with
    | false => exact ⟨[], List.nil_sublist _, rfl⟩
    | true =>
        obtain ⟨e, he, htype, hcallback⟩ := hheld.stepping hon
        exact ⟨[e], List.singleton_sublist.mpr he, by simp [kind, htype, hcallback]⟩
  have hlisting := hsub.append_right (swHolders r.world.bp ++ hwHolders r.world.hw ++
    monitorHolders r.mon.monitors).flatten
  refine ⟨_, hserves.nodup.sublist hlisting, fun e he => hserves.mem e (hlisting.subset he), ?_⟩
  rw [List.map_append, hsingle, List.flatten_append, List.flatten_append, List.map_append,
    List.map_append, kinds_monitorHolders, ← List.append_assoc]
  refine List.Perm.append_right _ ?_
  unfold swHolders hwHolders
  split_ifs with hhw hsw hsw
  · exact List.Perm.append_right [_] (List.Perm.swap _ _ []) |>.trans
      (List.Perm.append_left [_] (List.Perm.swap _ _ []))
  · exact List.Perm.swap _ _ []
  · exact List.Perm.refl _
  · exact List.Perm.refl _

theorem length_expected (r : Runtime) :
    ((expected r).length : ℤ) = r.world.exc.handlers.length - surplus r := by
  have hmonitors : (r.mon.monitors.entries.flatMap fun _ =>
      [(ExceptionType.accessViolation, HandlerFn.monitorSegvHandler),
        (.busError, .monitorSegvHandler)]).length = 2 * r.mon.monitors.entries.length := by
    rw [List.length_flatMap]
    simp [Nat.mul_comm]
  rw [expected, List.length_append, List.length_append, hmonitors, surplus, others]
  split_ifs <;> simp <;> omega

/-- With no surplus the entries that are owed are all there are. -/
theorem lawful_iff (h : Owed r) : Lawful r ↔ surplus r = 0 := by
  have hexpected := length_expected r
  constructor
  · intro hlawful
    have hlength := hlawful.length_eq
    rw [List.length_map] at hlength
    omega
  · intro hzero
    obtain ⟨listing, hdistinct, hsubset, hkinds⟩ := exists_listing h
    have hlength := hkinds.length_eq
    rw [List.length_map] at hlength
    have hperm : listing.Perm r.world.exc.handlers :=
      (List.subperm_of_subset hdistinct hsubset).perm_of_length_le (by omega)
    exact (hperm.map kind).symm.trans hkinds

end Surplus

/-! ## §6  Runs -/

section Runs

variable {target : Target} {page : PageSize} {r : Runtime} {tr : List (Runtime × Label)}
  {code : Memory} {disposition : Sig → SigAction} {prot : Addr → MemoryAccessMonitor.Prot}

/-- **Handlers accumulate.** In every state of a run the chain holds exactly the handlers of the
subsystems in use, if and only if no call of the run takes the hardware breakpoints' handler
away. -/
theorem lawful_throughout_iff
    (run : Run (Step target page) (Runtime.start code disposition prot) tr r) :
    Throughout Lawful tr r ↔ Guarded (fun r l => takesHandler r l = false) tr := by
  refine run.throughout_iff_guarded (I := fun r => Owed r ∧ r.world.exc.handlers.Nodup)
    ⟨Owed.start code disposition prot, List.nodup_nil⟩ ?_ ?_ ?_ ?_
  · rintro s l t ⟨howed, hnodup⟩ hstep
    exact ⟨howed.step hstep, (surplus_step howed hnodup hstep).2⟩
  · exact List.Perm.refl _
  · rintro s l t ⟨howed, hnodup⟩ hlawful hguard hstep
    have hsurplus := (surplus_step howed hnodup hstep).1
    rw [lawful_iff (howed.step hstep), hsurplus, (lawful_iff howed).mp hlawful, hguard]
    rfl
  · rintro s l t ⟨howed, hnodup⟩ hlawful hguard hstep hafter
    have hsurplus := (surplus_step howed hnodup hstep).1
    rw [lawful_iff (howed.step hstep), hsurplus, (lawful_iff howed).mp hlawful,
      if_pos (by simpa using hguard)] at hafter
    exact absurd hafter (by decide)

end Runs

/-! ## §7  A breakpoint that is refused -/

section Concrete

/-- The kernel refuses the event, and `set` throws with its handlers registered. -/
def watchCall : Call := .hwSet ⟨0x10, .ok (0x5000, 1), .ok 0x5100, 3⟩ 0x1000 "write" 4 0

def afterWatch : Runtime :=
  { atStart with world := watchCall.exec ⟨.x64, .linux⟩ atStart.world }

theorem step_watch :
    Step ⟨.x64, .linux⟩ MemoryAccessMonitor.smallPages atStart (.call watchCall) afterWatch :=
  .call watchCall

/-- Then a software breakpoint comes and goes. -/
def beside : List (Runtime × Label) :=
  let afterBreak := { afterWatch with world := setCall.exec ⟨.x64, .linux⟩ afterWatch.world }
  [(atStart, .call watchCall), (afterWatch, .call setCall), (afterBreak, .call (.swRemove .ok 1))]

theorem lawful_throughout_beside :
    ∃ r, Run (Step ⟨.x64, .linux⟩ MemoryAccessMonitor.smallPages) atStart beside r ∧
      r.world.hw.hwHandlerInstalled = true ∧ r.world.bp.handlerInstalled = false ∧
      Throughout Lawful beside r := by
  have run := ((Run.nil.snoc step_watch).snoc (.call setCall)).snoc (.call (.swRemove .ok 1))
  refine ⟨_, run, rfl, rfl, (lawful_throughout_iff run).mpr fun p hp => ?_⟩
  rcases List.mem_append.mp hp with hearlier | hlast
  · rcases List.mem_append.mp hearlier with hfirst | hsecond
    · obtain rfl := List.mem_singleton.mp hfirst
      rfl
    · obtain rfl := List.mem_singleton.mp hsecond
      rfl
  · obtain rfl := List.mem_singleton.mp hlast
    rfl

def afterRemoveAll : Runtime :=
  { afterWatch with world := (Call.hwRemoveAll []).exec ⟨.x64, .linux⟩ afterWatch.world }

/-- `removeAll` takes the handler back, and its single-step entry is still there. -/
theorem unlawful_removeAll : ¬ ∀ tr r,
    Run (Step ⟨.x64, .linux⟩ MemoryAccessMonitor.smallPages) atStart tr r →
      Throughout Lawful tr r := by
  intro hall
  have hlawful := (hall _ afterRemoveAll ((Run.nil.snoc step_watch).snoc
    (.call (.hwRemoveAll [])))).2
  exact absurd hlawful.length_eq (by decide)

end Concrete

end SharedHandler

end Chromatic
