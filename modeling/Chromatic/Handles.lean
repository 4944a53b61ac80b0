import Chromatic.Foundation.Handles
import Chromatic.CallbackCalls
import Chromatic.BulkRemoval

/-!
# Identifiers of hooks and breakpoints

The texts that `attach` and `set` return, under any operations of any script: each names the entry
that it was returned for until this is taken down, and nothing before or after.

§1 identifiers · §2 what operations issue and strike out · §3 installations · §4 removals ·
§5 whole runs.
-/

namespace Chromatic

open Foundation NativeCallback
open NativeFunction (parseHexAddr)
open CallbackCalls (parseHexAddr_toHexAddr)

namespace Lifetimes

/-! ## §1  Identifiers -/

/-- The registries that number their entries. -/
inductive Kind where
  | hook
  | breakpoint
  | hwBreakpoint
deriving DecidableEq

namespace Kind

def key : Kind → ℕ → Key
  | .hook => .hook
  | .breakpoint => .breakpoint
  | .hwBreakpoint => .hwBreakpoint

/-- The counter of the registry. -/
def next (r : Runtime) : Kind → ℕ
  | .hook => r.world.hooks.nextHookId
  | .breakpoint => r.world.bp.nextBpId
  | .hwBreakpoint => r.world.hw.nextHwId

/-- `detach` and the two `remove`, by number. -/
def remove (patch : PatchOutcome) (id : ℕ) : Kind → Op
  | .hook => .hook (.detach patch id)
  | .breakpoint => .removeBreakpoint patch id
  | .hwBreakpoint => .removeHardware id

/-- They read the number from its text, and throw if they cannot. -/
def removeByText (patch : PatchOutcome) (text : String) (k : Kind) : Option Op :=
  match parseHexAddr text with
  | .error _ => none
  | .ok word => some (k.remove patch word.toNat)

end Kind

/-- What a text names. -/
def named (r : Runtime) (k : Kind) (text : String) : Option Entry :=
  match parseHexAddr text with
  | .error _ => none
  | .ok word => entryAt r (k.key word.toNat)

/-- The identifier that an installation returns. -/
def Op.answer (target : Target) (r : Runtime) : Op → Option (Kind × String)
  | .hook (.attach env address onEnter onLeave) =>
      match (Interceptor.attach target.arch env address onEnter onLeave r.world).1 with
      | .error _ => none
      | .ok id => some (.hook, toHexAddr id)
  | .setBreakpoint env address onHit =>
      match (SoftwareBreakpoint.set target.arch env address onHit r.world).1 with
      | .error _ => none
      | .ok id => some (.breakpoint, toHexAddr id)
  | .setHardware env address typeStr size onHit =>
      match (HardwareBreakpoint.set target env address typeStr size onHit r.world).1 with
      | .error _ => none
      | .ok id => some (.hwBreakpoint, toHexAddr id)
  | _ => none

/-- The entry is at the address and has the callbacks that were asked for. -/
def Op.AskedFor : Op → Entry → Prop
  | .hook (.attach _ address onEnter onLeave), .hook e =>
      e.target = address ∧ e.onEnter = some onEnter ∧ e.onLeave = some onLeave
  | .hook (.replace _ address _), .hook e =>
      e.target = address ∧ e.onEnter = none ∧ e.onLeave = none
  | .setBreakpoint _ address onHit, .breakpoint e => e.address = address ∧ e.onHit = onHit
  | .setHardware _ address _ size onHit, .hwBreakpoint e =>
      e.address = address ∧ e.size = size ∧ e.onHit = onHit
  | _, _ => False

/-- One operation of the process. -/
inductive Does (target : Target) (r : Runtime) (o : Op) : Runtime → Prop where
  | intro : Does target r o (o.exec target r)

/-! ## §2  What operations issue and strike out -/

def issuer (k : Kind) : Issuer Runtime Entry :=
  ⟨fun r => k.next r, fun r id => entryAt r (k.key id)⟩

/-- An entry comes in under the next number of its registry. -/
structure Issued (k : Kind) (e : Entry) (r r' : Runtime) : Prop where
  entries : entryAt r' = Function.update (entryAt r) (k.key (k.next r)) (some e)
  next : k.next r' = k.next r + 1
  others : ∀ k' ≠ k, k'.next r' = k'.next r

/-- Entries go at most. -/
structure Struck (r r' : Runtime) : Prop where
  entries : ∀ (k : Kind) id, entryAt r' (k.key id) = entryAt r (k.key id) ∨
    entryAt r' (k.key id) = none
  next : ∀ k : Kind, k.next r' = k.next r

section Effects

variable {r r' : Runtime} {k : Kind} {e : Entry}

theorem Kind.key_injective {k k' : Kind} {id id' : ℕ} (h : k.key id = k'.key id') :
    k = k' ∧ id = id' := by
  cases k <;> cases k' <;> simp_all [Kind.key]

theorem Issued.moves (h : Issued k e r r') (k' : Kind) : (issuer k').Moves r r' := by
  by_cases hk : k' = k
  · subst hk
    refine .issues e h.next ?_
    funext id
    show entryAt r' (k'.key id) = _
    rw [h.entries, Function.update_apply, Function.update_apply]
    by_cases hid : id = k'.next r
    · rw [hid, if_pos rfl]
      exact (if_pos rfl).symm
    · rw [if_neg fun heq => hid (Kind.key_injective heq).2]
      exact (if_neg hid).symm
  · refine .strikes (h.others k' hk) fun id => .inl ?_
    show entryAt r' (k'.key id) = _
    rw [h.entries, Function.update_of_ne fun heq => hk (Kind.key_injective heq).1]
    rfl

theorem Struck.moves (h : Struck r r') (k : Kind) : (issuer k).Moves r r' :=
  .strikes (h.next k) (h.entries k)

theorem Struck.same (hsame : entryAt r' = entryAt r) (hnext : ∀ k : Kind, k.next r' = k.next r) :
    Struck r r' :=
  ⟨fun _ _ => .inl (congrFun hsame _), hnext⟩

theorem Struck.erased (key : Key) (herase : entryAt r' = Function.update (entryAt r) key none)
    (hnext : ∀ k : Kind, k.next r' = k.next r) : Struck r r' := by
  refine ⟨fun _ _ => ?_, hnext⟩
  rw [herase, Function.update_apply]
  split_ifs
  · exact .inr rfl
  · exact .inl rfl

/-- Registering a handler first makes no difference. -/
theorem Issued.congr (r₁ : Runtime) (h : Issued k e r₁ r') (hsame : entryAt r₁ = entryAt r)
    (hnext : ∀ k : Kind, k.next r₁ = k.next r) : Issued k e r r' where
  entries := by
    rw [← hsame, ← hnext]
    exact h.entries
  next := by
    rw [← hnext]
    exact h.next
  others k' hk := by
    rw [← hnext]
    exact h.others k' hk

theorem Struck.congr (r₁ : Runtime) (h : Struck r₁ r') (hsame : entryAt r₁ = entryAt r)
    (hnext : ∀ k : Kind, k.next r₁ = k.next r) : Struck r r' where
  entries k id := by
    rw [← hsame]
    exact h.entries k id
  next k := by
    rw [← hnext]
    exact h.next k

theorem next_congr (hhooks : r'.world.hooks.nextHookId = r.world.hooks.nextHookId)
    (hbp : r'.world.bp.nextBpId = r.world.bp.nextBpId)
    (hhw : r'.world.hw.nextHwId = r.world.hw.nextHwId) (k : Kind) : k.next r' = k.next r := by
  cases k with
  | hook => exact hhooks
  | breakpoint => exact hbp
  | hwBreakpoint => exact hhw

end Effects

/-! ## §3  Installations -/

/-- The operation issues an entry that was asked for under the number it answers, if it answers
one, or it strikes out entries at most and answers none. -/
def Op.Effect (target : Target) (r : Runtime) (o : Op) : Prop :=
  (∃ k e, Issued k e r (o.exec target r) ∧ o.AskedFor e ∧
    ∀ answer, o.answer target r = some answer → answer = (k, toHexAddr (k.next r))) ∨
  (Struck r (o.exec target r) ∧ o.answer target r = none)

section Installing

variable {r : Runtime} {target : Target}

theorem effect_attach (env : Interceptor.Install) (address : Addr) (onEnter onLeave : Callback) :
    Op.Effect target r (.hook (.attach env address onEnter onLeave)) := by
  unfold Op.Effect Op.exec Op.answer Interceptor.Call.exec Interceptor.attach
  dsimp only
  split
  · exact .inr ⟨.same rfl fun _ => rfl, rfl⟩
  · cases env.relocated with
    | error e => exact .inr ⟨.same (entryAt_congr rfl rfl rfl rfl) (next_congr rfl rfl rfl), rfl⟩
    | ok block =>
        cases env.trampoline with
        | error e =>
            exact .inr ⟨.same (entryAt_congr (by simp) (by simp) (by simp) rfl)
              (next_congr (by simp) (by simp) (by simp)), rfl⟩
        | ok t =>
            cases env.patch with
            | ok =>
                refine .inl ⟨.hook, .hook ⟨env.self, address, t, block.1,
                  readBytes r.world.code address target.arch.patchSize, target.arch.patchSize,
                  some onEnter, some onLeave⟩, ⟨?_, rfl, ?_⟩, ⟨rfl, rfl, rfl⟩, ?_⟩
                · exact entryAt_updateHook map_lookup_insert rfl rfl rfl
                · intro k hk
                  cases k with
                  | hook => exact absurd rfl hk
                  | breakpoint | hwBreakpoint => rfl
                · intro answer hanswer
                  exact (Option.some.inj hanswer).symm
            | rwDenied | rxDenied =>
                exact .inr ⟨.same (entryAt_congr rfl rfl rfl rfl) (next_congr rfl rfl rfl), rfl⟩

theorem effect_replace (env : Interceptor.Install) (address replacement : Addr) :
    Op.Effect target r (.hook (.replace env address replacement)) := by
  unfold Op.Effect Op.exec Op.answer Interceptor.Call.exec Interceptor.replace
  dsimp only
  split
  · exact .inr ⟨.same rfl fun _ => rfl, rfl⟩
  · cases env.relocated with
    | error e => exact .inr ⟨.same (entryAt_congr rfl rfl rfl rfl) (next_congr rfl rfl rfl), rfl⟩
    | ok block =>
        cases env.patch with
        | ok =>
            refine .inl ⟨.hook, .hook ⟨env.self, address, 0, block.1,
              readBytes r.world.code address target.arch.patchSize, target.arch.patchSize,
              none, none⟩, ⟨?_, rfl, ?_⟩, ⟨rfl, rfl, rfl⟩, ?_⟩
            · exact entryAt_updateHook map_lookup_insert rfl rfl rfl
            · intro k hk
              cases k with
              | hook => exact absurd rfl hk
              | breakpoint | hwBreakpoint => rfl
            · intro answer hanswer
              cases hanswer
        | rwDenied | rxDenied =>
            exact .inr ⟨.same (entryAt_congr rfl rfl rfl rfl) (next_congr rfl rfl rfl), rfl⟩

theorem effect_setBreakpoint (env : SoftwareBreakpoint.Install) (address : Addr)
    (onHit : Callback) : Op.Effect target r (.setBreakpoint env address onHit) := by
  unfold Op.Effect Op.exec Op.answer SoftwareBreakpoint.set
  dsimp only
  split
  · exact .inr ⟨.same rfl fun _ => rfl, rfl⟩
  · let r₁ : Runtime := { r with world := SoftwareBreakpoint.ensureHandlerInstalled r.world }
    have hsame : entryAt r₁ = entryAt r := entryAt_congr (by simp [r₁]) (by simp [r₁])
      (by simp [r₁]) rfl
    have hnext : ∀ k : Kind, k.next r₁ = k.next r := next_congr (by simp [r₁]) (by simp [r₁])
      (by simp [r₁])
    cases env.relocated with
    | error e =>
        exact .inr ⟨.congr r₁ (.same (entryAt_congr rfl rfl rfl rfl) (next_congr rfl rfl rfl))
          hsame hnext, rfl⟩
    | ok block =>
        cases env.trampoline with
        | error e =>
            exact .inr ⟨.congr r₁ (.same (entryAt_congr (by simp [r₁]) (by simp [r₁])
              (by simp [r₁]) rfl) (next_congr (by simp [r₁]) (by simp [r₁]) (by simp [r₁])))
              hsame hnext, rfl⟩
        | ok t =>
            cases env.patch with
            | ok =>
                refine .inl ⟨.breakpoint, _, .congr r₁ ⟨entryAt_updateBreakpoint rfl
                  map_lookup_insert rfl rfl, rfl, ?_⟩ hsame hnext, ⟨rfl, rfl⟩, ?_⟩
                · intro k hk
                  cases k with
                  | breakpoint => exact absurd rfl hk
                  | hook | hwBreakpoint => rfl
                · intro answer hanswer
                  rw [← hnext]
                  exact (Option.some.inj hanswer).symm
            | rwDenied | rxDenied =>
                exact .inr ⟨.congr r₁ (.same (entryAt_congr rfl rfl rfl rfl)
                  (next_congr rfl rfl rfl)) hsame hnext, rfl⟩

theorem effect_setHardware (env : HardwareBreakpoint.Install) (address : Addr)
    (typeStr : String) (size : ℤ) (onHit : Callback) :
    Op.Effect target r (.setHardware env address typeStr size onHit) := by
  unfold Op.Effect Op.exec Op.answer HardwareBreakpoint.set
  dsimp only
  split
  · exact .inr ⟨.same rfl fun _ => rfl, rfl⟩
  cases HardwareBreakpoint.parseType typeStr with
  | error e => exact .inr ⟨.same rfl fun _ => rfl, rfl⟩
  | ok type =>
      dsimp only
      split
      · exact .inr ⟨.same rfl fun _ => rfl, rfl⟩
      split
      · exact .inr ⟨.same rfl fun _ => rfl, rfl⟩
      have hhooks := ensureHwHandlerInstalled_hooks r.world
      have hbp := HardwareBreakpoint.ensureHwHandlerInstalled_bp r.world
      have hbyId := HardwareBreakpoint.ensureHwHandlerInstalled_hwById r.world
      have hnextId := HardwareBreakpoint.ensureHwHandlerInstalled_nextHwId r.world
      generalize HardwareBreakpoint.ensureHwHandlerInstalled r.world = w at *
      have haside := HardwareBreakpoint.buildBlocks_aside env type (w.allocate env.self)
      have hblockhooks := buildBlocks_hooks env type (w.allocate env.self)
      generalize HardwareBreakpoint.buildBlocks env type (w.allocate env.self) = built at *
      obtain ⟨answer, w'⟩ := built
      have hhooks' : w'.hooks = r.world.hooks := hblockhooks.trans hhooks
      have hbp' : w'.bp = r.world.bp := haside.bp.trans hbp
      have hbyId' : w'.hw.hwById = r.world.hw.hwById := (congrArg _ haside.hw).trans hbyId
      have hnextId' : w'.hw.nextHwId = r.world.hw.nextHwId := (congrArg _ haside.hw).trans hnextId
      have hsame : entryAt { r with world := w' } = entryAt r :=
        entryAt_congr (congrArg _ hhooks') (congrArg _ hbp') hbyId' rfl
      have hnext : ∀ k : Kind, k.next { r with world := w' } = k.next r :=
        next_congr (congrArg _ hhooks') (congrArg _ hbp') hnextId'
      cases answer with
      | error e => exact .inr ⟨.same hsame hnext, rfl⟩
      | ok blocks =>
          rcases HardwareBreakpoint.arm_cases target.os address type size env.perfFd w'.hw with
            ⟨e, harm⟩ | ⟨fd, slot, used, harm, -⟩
          · simp only [harm]
            exact .inr ⟨.congr { r with world := w' } (.same (entryAt_congr (by simp) (by simp)
              (by simp) rfl) (next_congr (by simp) (by simp) (by simp))) hsame hnext, trivial⟩
          · simp only [harm]
            refine .inl ⟨.hwBreakpoint, .hwBreakpoint ⟨env.self, address, type, size, onHit, fd,
              slot, blocks.2, blocks.1⟩, .congr { r with world := w' }
              ⟨entryAt_updateHwBreakpoint rfl rfl map_lookup_insert rfl, rfl, ?_⟩ hsame hnext,
              ⟨rfl, rfl, rfl⟩, ?_⟩
            · intro k hk
              cases k with
              | hwBreakpoint => exact absurd rfl hk
              | hook | breakpoint => rfl
            · intro answer hanswer
              rw [← hnext]
              exact (Option.some.inj hanswer).symm

theorem effect_createCallback (env : NativeCallback.Install) (handler : Callback)
    (retType : String) (argTypes : List String) (abi : String) :
    Op.Effect target r (.createCallback env handler retType argTypes abi) := by
  have hworld : ∃ heap, (createCallback target env handler retType argTypes abi r).2.world =
      { r.world with heap := heap } := by
    unfold createCallback
    dsimp only
    split
    · exact ⟨_, rfl⟩
    cases env.closure with
    | none => exact ⟨_, rfl⟩
    | some found =>
        dsimp only
        split
        · exact ⟨_, rfl⟩
        · exact ⟨_, rfl⟩
  obtain ⟨heap, hworld⟩ := hworld
  refine .inr ⟨⟨fun k id => .inl ?_, fun k => ?_⟩, rfl⟩
  · cases k <;> simp only [Kind.key, entryAt, Op.exec, hworld]
  · cases k <;> simp only [Kind.next, Op.exec, hworld]

end Installing

/-! ## §4  Removals -/

section Removing

variable {r : Runtime} {target : Target}

/-- Removing by a number that names nothing does nothing at all. -/
theorem exec_remove_none {k : Kind} {patch : PatchOutcome} {id : ℕ}
    (h : entryAt r (k.key id) = none) : (k.remove patch id).exec target r = r := by
  cases k with
  | hook =>
      have hl : r.world.hooks.hooksById.lookup id = none := Option.map_eq_none_iff.mp h
      simp [Kind.remove, Op.exec, Interceptor.Call.exec, Interceptor.detach, hl]
  | breakpoint =>
      have hl : r.world.bp.bpById.lookup id = none := Option.map_eq_none_iff.mp h
      simp [Kind.remove, Op.exec, SoftwareBreakpoint.remove, hl]
  | hwBreakpoint =>
      have hl : r.world.hw.hwById.lookup id = none := Option.map_eq_none_iff.mp h
      simp [Kind.remove, Op.exec, HardwareBreakpoint.remove, hl]

/-- Removing by a number takes out what it names and nothing else. -/
theorem exec_remove_some {k : Kind} {id : ℕ} {e : Entry} (h : entryAt r (k.key id) = some e) :
    entryAt ((k.remove .ok id).exec target r) = Function.update (entryAt r) (k.key id) none := by
  cases k with
  | hook =>
      obtain ⟨e, hl, rfl⟩ := Option.map_eq_some_iff.mp h
      simp only [Kind.remove, Op.exec, Interceptor.Call.exec, Interceptor.detach,
        Interceptor.restore, hl, makeWritableAndPatch_ok]
      exact entryAt_updateHook (by simp [map_lookup_erase]) (by simp)
        (by simp [Interceptor.releaseEntry]) rfl
  | breakpoint =>
      obtain ⟨e, hl, rfl⟩ := Option.map_eq_some_iff.mp h
      simp only [Kind.remove, Op.exec, SoftwareBreakpoint.remove, hl, makeWritableAndPatch_ok]
      exact entryAt_updateBreakpoint (by simp) (by simp [map_lookup_erase]) (by simp) rfl
  | hwBreakpoint =>
      obtain ⟨e, hl, rfl⟩ := Option.map_eq_some_iff.mp h
      simp only [Kind.remove, Op.exec, HardwareBreakpoint.remove, hl]
      have hrelease := HardwareBreakpoint.releaseEntry_frame e r.world
      have hremove := HardwareBreakpoint.maybeRemoveHwHandler_frame
      exact entryAt_updateHwBreakpoint (congrArg _ ((hremove _).hooks.trans hrelease.hooks))
        (congrArg _ ((hremove _).bp.trans hrelease.bp)) (by simp [map_lookup_erase]) rfl

theorem struck_detach (patch : PatchOutcome) (hookId : ℕ) :
    Struck r { r with world := (Interceptor.detach patch hookId r.world).2 } := by
  unfold Interceptor.detach Interceptor.restore
  cases hl : r.world.hooks.hooksById.lookup hookId with
  | none => exact .same rfl fun _ => rfl
  | some e =>
      cases patch with
      | ok =>
          simp only [makeWritableAndPatch_ok]
          exact .erased (.hook hookId) (entryAt_updateHook (by simp [map_lookup_erase])
            (by simp) (by simp [Interceptor.releaseEntry]) rfl)
            (next_congr (by simp) (by simp) (by simp [Interceptor.releaseEntry]))
      | rwDenied | rxDenied =>
          exact .same (entryAt_congr rfl rfl rfl rfl) (next_congr rfl rfl rfl)

theorem eraseSelf_lookup (self : Addr) (byId : HashMap ℕ HookEntry) (id : ℕ) :
    (Interceptor.eraseSelf self byId).lookup id = byId.lookup id ∨
      (Interceptor.eraseSelf self byId).lookup id = none := by
  unfold Interceptor.eraseSelf
  cases byId.entries.find? (·.2.self = self) with
  | none => exact .inl rfl
  | some e =>
      by_cases hid : id = e.1
      · right
        rw [hid, AList.lookup_erase]
      · left
        rw [AList.lookup_erase_ne hid]

theorem struck_revert (patch : PatchOutcome) (t : Addr) :
    Struck r { r with world := (Interceptor.revert patch t r.world).2 } := by
  unfold Interceptor.revert Interceptor.restore
  cases hl : r.world.hooks.hooksByTarget.lookup t with
  | none => exact .same rfl fun _ => rfl
  | some e =>
      cases patch with
      | ok =>
          simp only [makeWritableAndPatch_ok]
          refine ⟨fun k id => ?_, next_congr (by simp) (by simp)
            (by simp [Interceptor.releaseEntry])⟩
          cases k with
          | hook =>
              have hcases := eraseSelf_lookup e.self r.world.hooks.hooksById id
              rcases hcases with hsame | hnone
              · left
                simp [Kind.key, entryAt, hsame]
              · right
                simp [Kind.key, entryAt, hnone]
          | breakpoint =>
              left
              simp [Kind.key, entryAt]
          | hwBreakpoint =>
              left
              simp [Kind.key, entryAt, Interceptor.releaseEntry]
      | rwDenied | rxDenied =>
          exact .same (entryAt_congr rfl rfl rfl rfl) (next_congr rfl rfl rfl)

theorem struck_detachAll (patch : Addr → PatchOutcome) (order : List (Σ _ : ℕ, HookEntry)) :
    Struck r { r with world := (Interceptor.detachAll patch order r.world).2 } := by
  obtain ⟨-, hbp, hhw⟩ := Interceptor.detachAll_handlers patch order r.world
  have hloop := BulkRemoval.restoreHooks_hooks patch order r.world
  have hhooks : (Interceptor.detachAll patch order r.world).2.hooks = r.world.hooks ∨
      ((Interceptor.detachAll patch order r.world).2.hooks.hooksById = ∅ ∧
        (Interceptor.detachAll patch order r.world).2.hooks.nextHookId =
          r.world.hooks.nextHookId) := by
    unfold Interceptor.detachAll
    generalize Interceptor.restoreAll patch order r.world = result at *
    obtain ⟨answer, w'⟩ := result
    cases answer with
    | error e => exact .inl hloop
    | ok _ =>
        have hnext : w'.hooks.nextHookId = r.world.hooks.nextHookId := congrArg _ hloop
        exact .inr ⟨rfl, hnext⟩
  rcases hhooks with hsame | ⟨hcleared, hnext⟩
  · exact .same (entryAt_congr (congrArg _ hsame) (congrArg _ hbp) (congrArg _ hhw) rfl)
      (next_congr (congrArg _ hsame) (congrArg _ hbp) (congrArg _ hhw))
  · refine ⟨fun k id => ?_, next_congr hnext (congrArg _ hbp) (congrArg _ hhw)⟩
    cases k with
    | hook =>
        right
        rw [Kind.key, entryAt, hcleared]
        rfl
    | breakpoint =>
        left
        rw [Kind.key, entryAt, hbp, entryAt]
    | hwBreakpoint =>
        left
        rw [Kind.key, entryAt, hhw, entryAt]

theorem struck_removeBreakpoint (arch : Arch) (patch : PatchOutcome) (bpId : ℕ) :
    Struck r { r with world := (SoftwareBreakpoint.remove arch patch bpId r.world).2 } := by
  unfold SoftwareBreakpoint.remove
  cases hl : r.world.bp.bpById.lookup bpId with
  | none => exact .same rfl fun _ => rfl
  | some e =>
      cases patch with
      | ok =>
          simp only [makeWritableAndPatch_ok]
          exact .erased (.breakpoint bpId) (entryAt_updateBreakpoint (by simp)
            (by simp [map_lookup_erase]) (by simp) rfl)
            (next_congr (by simp) (by simp) (by simp))
      | rwDenied | rxDenied =>
          exact .same (entryAt_congr rfl rfl rfl rfl) (next_congr rfl rfl rfl)

theorem struck_removeAllBreakpoints (arch : Arch) (patch : Addr → PatchOutcome)
    (order : List (Σ _ : ℕ, BreakpointEntry)) :
    Struck r { r with world := (SoftwareBreakpoint.removeAll arch patch order r.world).2 } := by
  obtain ⟨hbp, -, hhooks, hhw⟩ := SoftwareBreakpoint.restoreAll_frame arch patch order r.world
  unfold SoftwareBreakpoint.removeAll
  generalize SoftwareBreakpoint.restoreAll arch patch order r.world = result at *
  obtain ⟨answer, w'⟩ := result
  cases answer with
  | error e =>
      exact .same (entryAt_congr (congrArg _ hhooks) (congrArg _ hbp) (congrArg _ hhw) rfl)
        (next_congr (congrArg _ hhooks) (congrArg _ hbp) (congrArg _ hhw))
  | ok _ =>
      dsimp only at hbp hhooks hhw
      refine ⟨fun k id => ?_, next_congr (by simp [hhooks]) (by simp [hbp]) (by simp [hhw])⟩
      cases k with
      | hook =>
          left
          simp [Kind.key, entryAt, hhooks]
      | breakpoint =>
          right
          simp [Kind.key, entryAt]
      | hwBreakpoint =>
          left
          simp [Kind.key, entryAt, hhw]

theorem struck_removeHardware (bpId : ℕ) :
    Struck r { r with world := HardwareBreakpoint.remove bpId r.world } := by
  unfold HardwareBreakpoint.remove
  cases hl : r.world.hw.hwById.lookup bpId with
  | none => exact .same rfl fun _ => rfl
  | some e =>
      have hrelease := HardwareBreakpoint.releaseEntry_frame e r.world
      have hremove := HardwareBreakpoint.maybeRemoveHwHandler_frame
      exact .erased (.hwBreakpoint bpId)
        (entryAt_updateHwBreakpoint (congrArg _ ((hremove _).hooks.trans hrelease.hooks))
          (congrArg _ ((hremove _).bp.trans hrelease.bp)) (by simp [map_lookup_erase]) rfl)
        (next_congr (congrArg _ ((hremove _).hooks.trans hrelease.hooks))
          (congrArg _ ((hremove _).bp.trans hrelease.bp)) (by simp))

theorem releaseAll_nextHwId (order : List (Σ _ : ℕ, HwBreakpointEntry)) (w : World) :
    (HardwareBreakpoint.releaseAll order w).hw.nextHwId = w.hw.nextHwId := by
  induction order generalizing w with
  | nil => rfl
  | cons e rest ih =>
      rw [← HardwareBreakpoint.releaseEntry_nextHwId w e.2]
      exact ih _

theorem struck_removeAllHardware (order : List (Σ _ : ℕ, HwBreakpointEntry)) :
    Struck r { r with world := HardwareBreakpoint.removeAll order r.world } := by
  have hframe := HardwareBreakpoint.removeAll_frame order r.world
  refine ⟨fun k id => ?_, next_congr (congrArg _ hframe.hooks) (congrArg _ hframe.bp) ?_⟩
  · cases k with
    | hook =>
        left
        rw [Kind.key, entryAt, hframe.hooks, entryAt]
    | breakpoint =>
        left
        rw [Kind.key, entryAt, hframe.bp, entryAt]
    | hwBreakpoint =>
        right
        rw [Kind.key, entryAt, HardwareBreakpoint.removeAll,
          HardwareBreakpoint.maybeRemoveHwHandler_hwById]
        rfl
  · rw [HardwareBreakpoint.removeAll, HardwareBreakpoint.maybeRemoveHwHandler_nextHwId]
    exact releaseAll_nextHwId order r.world

theorem struck_destroyCallback (address : Addr) : Struck r (destroyCallback address r) := by
  unfold destroyCallback
  cases r.ffi.callbacks.lookup address with
  | none => exact .same rfl fun _ => rfl
  | some info =>
      refine ⟨fun k id => .inl ?_, next_congr rfl rfl rfl⟩
      cases k <;> rfl

theorem exec_effect (o : Op) : o.Effect target r := by
  cases o with
  | hook c =>
      cases c with
      | attach env address onEnter onLeave => exact effect_attach env address onEnter onLeave
      | replace env address replacement => exact effect_replace env address replacement
      | detach patch hookId => exact .inr ⟨struck_detach patch hookId, rfl⟩
      | revert patch t => exact .inr ⟨struck_revert patch t, rfl⟩
  | setBreakpoint env address onHit => exact effect_setBreakpoint env address onHit
  | setHardware env address typeStr size onHit =>
      exact effect_setHardware env address typeStr size onHit
  | createCallback env handler retType argTypes abi =>
      exact effect_createCallback env handler retType argTypes abi
  | detachAll patch order => exact .inr ⟨struck_detachAll patch order, rfl⟩
  | removeBreakpoint patch bpId => exact .inr ⟨struck_removeBreakpoint target.arch patch bpId, rfl⟩
  | removeAllBreakpoints patch order =>
      exact .inr ⟨struck_removeAllBreakpoints target.arch patch order, rfl⟩
  | removeHardware bpId => exact .inr ⟨struck_removeHardware bpId, rfl⟩
  | removeAllHardware order => exact .inr ⟨struck_removeAllHardware order, rfl⟩
  | destroyCallback address => exact .inr ⟨struck_destroyCallback address, rfl⟩

theorem exec_moves (o : Op) (k : Kind) : (issuer k).Moves r (o.exec target r) := by
  rcases exec_effect o with ⟨k', e, hissued, -⟩ | ⟨hstruck, -⟩
  · exact hissued.moves k
  · exact hstruck.moves k

end Removing

/-! ## §5  Whole runs -/

section Runs

variable {target : Target} {code : Memory} {disposition : Sig → SigAction} {r u t v : Runtime}
  {tr tr' : List (Runtime × Op)} {o : Op} {k : Kind} {text : String}

theorem Does.moves (k : Kind) (r : Runtime) (o : Op) (u : Runtime) (h : Does target r o u) :
    (issuer k).Moves r u := by
  cases h
  exact exec_moves o k

theorem bounded_start (k : Kind) :
    (issuer k).Bounded (.start code disposition) ∧
      (issuer k).next (.start code disposition) = 1 := by
  cases k
  · exact ⟨fun _ _ => rfl, rfl⟩
  · exact ⟨fun _ _ => rfl, rfl⟩
  · exact ⟨fun _ _ => rfl, rfl⟩

/-- The text of a number below 2^64 names what the number does. -/
theorem named_toHexAddr {id : ℕ} (h : id < 2 ^ 64) :
    named r k (toHexAddr id) = entryAt r (k.key id) := by
  have hword : (BitVec.ofNat 64 id).toNat = id := by
    rw [BitVec.toNat_ofNat, Nat.mod_eq_of_lt h]
  have hread := parseHexAddr_toHexAddr (BitVec.ofNat 64 id)
  rw [hword] at hread
  rw [named, hread]
  dsimp only
  rw [hword]

theorem removeByText_toHexAddr {patch : PatchOutcome} {id : ℕ} (h : id < 2 ^ 64) :
    k.removeByText patch (toHexAddr id) = some (k.remove patch id) := by
  have hword : (BitVec.ofNat 64 id).toNat = id := by
    rw [BitVec.toNat_ofNat, Nat.mod_eq_of_lt h]
  have hread := parseHexAddr_toHexAddr (BitVec.ofNat 64 id)
  rw [hword] at hread
  rw [Kind.removeByText, hread]
  dsimp only
  rw [hword]

/-- **Identifiers are names.** The text that an installation returns has named nothing before, and
names the entry that was asked for from then on until it names nothing any more. Removing by it
takes out this entry alone, and later does nothing. The runs are shorter than the counters. -/
theorem identifier_names (before : Run (Does target) (.start code disposition) tr r)
    (hanswer : o.answer target r = some (k, text))
    (after : Run (Does target) (o.exec target r) tr' t) (hlength : tr.length + 1 < 2 ^ 64) :
    ∃ id e, o.AskedFor e ∧ (∀ v, named v k text = entryAt v (k.key id)) ∧
      (∀ patch, k.removeByText patch text = some (k.remove patch id)) ∧
      Throughout (fun v => named v k text = none) tr r ∧
      named (o.exec target r) k text = some e ∧
      Throughout (fun v => (named v k text = some e ∨ named v k text = none) ∧
        (named v k text = some e →
          entryAt ((k.remove .ok id).exec target v) =
            Function.update (entryAt v) (k.key id) none) ∧
        (named v k text = none → ∀ patch, (k.remove patch id).exec target v = v)) tr' t ∧
      (tr'.map Prod.fst ++ [t]).Pairwise fun v w =>
        named v k text = none → named w k text = none := by
  rcases exec_effect o with ⟨k', e, hissued, hasked, hnumber⟩ | ⟨-, hnone⟩
  · obtain ⟨rfl, rfl⟩ := Prod.mk.inj (hnumber _ hanswer)
    have hstart : (issuer k).Bounded (.start code disposition) ∧
        (issuer k).next (.start code disposition) = 1 := bounded_start k
    obtain ⟨hbounded, hone⟩ := hstart
    have hcount := (Issuer.run_next (Does.moves k) before).2
    rw [hone] at hcount
    have hid : k.next r < 2 ^ 64 := hcount.trans_lt (by omega)
    have hentry : entryAt (o.exec target r) (k.key (k.next r)) = some e := by
      rw [hissued.entries, Function.update_self]
    have hold : k.next r < (issuer k).next (o.exec target r) := by
      show k.next r < k.next (o.exec target r)
      rw [hissued.next]
      exact Nat.lt_succ_self _
    refine ⟨k.next r, e, hasked, fun _ => named_toHexAddr hid,
      fun _ => removeByText_toHexAddr hid, ?_⟩
    simp only [named_toHexAddr hid]
    refine ⟨Issuer.run_new (Does.moves k) hbounded before, hentry, ?_,
      Issuer.run_gone (Does.moves k) hold after⟩
    have hlater := Issuer.run_old (Does.moves k) hold after
    have hnames : ∀ v,
        ((issuer k).find v (k.next r) = (issuer k).find (o.exec target r) (k.next r) ∨
          (issuer k).find v (k.next r) = none) →
        entryAt v (k.key (k.next r)) = some e ∨ entryAt v (k.key (k.next r)) = none :=
      fun v h => h.imp_left fun hsame => hsame.trans hentry
    exact ⟨fun p hp => ⟨hnames _ (hlater.1 p hp), exec_remove_some,
      fun hgone patch => exec_remove_none hgone⟩,
      hnames _ hlater.2, exec_remove_some, fun hgone patch => exec_remove_none hgone⟩
  · rw [hnone] at hanswer
    cases hanswer

/-- The first hook is named until it is detached. -/
theorem identifier_names_detached :
    let detached : Runtime := (Op.hook (.detach .ok 1)).exec x64Linux hooked.runtime
    named fresh.runtime .hook "0x1" = none ∧ named hooked.runtime .hook "0x1" = some hook ∧
    named detached .hook "0x1" = none ∧
    entryAt detached = Function.update (entryAt hooked.runtime) (.hook 1) none := by
  intro detached
  have hanswer : attachHook.answer x64Linux fresh.runtime = some (.hook, "0x1") := by decide
  have after : Run (Does x64Linux) (attachHook.exec x64Linux fresh.runtime)
      [(hooked.runtime, .hook (.detach .ok 1))] detached := .snoc .nil .intro
  obtain ⟨id, e, -, hnames, hremove, hbefore, hnamed, hlater, -⟩ :=
    identifier_names .nil hanswer after (by decide)
  have hnumber : some (Kind.hook.remove .ok id) = some (Kind.hook.remove .ok 1) :=
    (hremove .ok).symm.trans rfl
  obtain rfl : id = 1 := by
    simpa [Kind.remove] using hnumber
  have herased : entryAt detached = Function.update (entryAt hooked.runtime) (.hook 1) none :=
    (hlater.1 _ List.mem_cons_self).2.1 hnamed
  have hhook : named hooked.runtime .hook "0x1" = some hook := by decide
  refine ⟨hbefore.2, hhook, ?_, herased⟩
  rw [hnames, Kind.key, herased, Function.update_self]

end Runs

end Lifetimes

end Chromatic
