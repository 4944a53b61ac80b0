import Mathlib.Data.List.TakeWhile
import Chromatic.Lifetimes

/-!
# Entries own their memory

What is registered has no memory in common, and an operation frees the memory of what it takes
down and of nothing else. The exception is a `detachAll` or `removeAll` that a refused
protection change cuts short: it leaves in the maps what it has deleted.

§1 registered entries · §2 what installations register · §3 what removals strike out ·
§4 operations · §5 threads and the entries they are in.
-/

namespace Chromatic

open Foundation NativeCallback

namespace Lifetimes

/-! ## §1  Registered entries -/

inductive Key where
  | hook (id : ℕ)
  | breakpoint (id : ℕ)
  | hwBreakpoint (id : ℕ)
  | callback (a : Addr)
deriving DecidableEq

def entryAt (r : Runtime) : Key → Option Entry
  | .hook id => (r.world.hooks.hooksById.lookup id).map .hook
  | .breakpoint id => (r.world.bp.bpById.lookup id).map .breakpoint
  | .hwBreakpoint id => (r.world.hw.hwById.lookup id).map .hwBreakpoint
  | .callback a => (r.ffi.callbacks.lookup a).map .callback

/-- Each registered entry's memory is there and its own. -/
structure Owned (r : Runtime) : Prop where
  alive : ∀ {k e}, entryAt r k = some e → ∀ p ∈ e.pieces, Alive r p
  apart : ∀ {k k' e e'}, entryAt r k = some e → entryAt r k' = some e' → k ≠ k' →
    e.pieces.Disjoint e'.pieces

/-- At most one entry comes in, made of memory that was not there. -/
inductive Adds (r r' : Runtime) : Prop
  | nothing (same : entryAt r' = entryAt r)
  | one (k : Key) (e : Entry) (update : entryAt r' = Function.update (entryAt r) k (some e))
      (new : ∀ p ∈ e.pieces, ¬ Alive r p ∧ Alive r' p)

/-- The entries at `ks` go, and with them all of `es`. -/
structure Strikes (ks : Set Key) (es : List Entry) (r r' : Runtime) : Prop where
  gone : ∀ k ∈ ks, entryAt r' k = none
  rest : ∀ k ∉ ks, entryAt r' k = entryAt r k
  taken : ∀ e ∈ es, ∃ k ∈ ks, entryAt r k = some e

section Registered

variable {r r' : Runtime} {e : Entry} {es : List Entry} {ks : Set Key}

theorem registered_iff : Registered r e ↔ ∃ k, entryAt r k = some e := by
  constructor
  · cases e with
    | hook e => exact fun ⟨id, h⟩ => ⟨.hook id, by rw [entryAt, h]; rfl⟩
    | breakpoint e => exact fun ⟨id, h⟩ => ⟨.breakpoint id, by rw [entryAt, h]; rfl⟩
    | hwBreakpoint e => exact fun ⟨id, h⟩ => ⟨.hwBreakpoint id, by rw [entryAt, h]; rfl⟩
    | callback info => exact fun ⟨a, h⟩ => ⟨.callback a, by rw [entryAt, h]; rfl⟩
  · rintro ⟨k, h⟩
    cases k with
    | hook id | breakpoint id | hwBreakpoint id | callback id =>
        obtain ⟨x, hx, rfl⟩ := Option.map_eq_some_iff.mp h
        exact ⟨id, hx⟩

theorem entryAt_hook {id : ℕ} {x : HookEntry} :
    entryAt r (.hook id) = some (.hook x) ↔ r.world.hooks.hooksById.lookup id = some x := by
  simp [entryAt]

theorem entryAt_breakpoint {id : ℕ} {x : BreakpointEntry} :
    entryAt r (.breakpoint id) = some (.breakpoint x) ↔ r.world.bp.bpById.lookup id = some x := by
  simp [entryAt]

theorem pieces_ne_nil (e : Entry) : e.pieces ≠ [] := by
  cases e <;> simp [Entry.pieces, jitPieces]

theorem Owned.adds (h : Owned r) (hadds : Adds r r') (hgrows : ∀ p, Alive r p → Alive r' p) :
    Owned r' := by
  cases hadds with
  | nothing hsame =>
      refine ⟨fun he p hp => ?_, fun he he' => ?_⟩
      · rw [hsame] at he
        exact hgrows p (h.alive he p hp)
      · rw [hsame] at he he'
        exact h.apart he he'
  | one k new hupdate hnew =>
      have hcases : ∀ {k' e'}, entryAt r' k' = some e' →
          (k' = k ∧ e' = new) ∨ (k' ≠ k ∧ entryAt r k' = some e') := by
        intro k' e' he'
        rw [hupdate] at he'
        by_cases hk : k' = k
        · rw [hk, Function.update_self] at he'
          exact .inl ⟨hk, (Option.some.inj he').symm⟩
        · rw [Function.update_of_ne hk] at he'
          exact .inr ⟨hk, he'⟩
      have hclear : ∀ {k' e'}, entryAt r k' = some e' → new.pieces.Disjoint e'.pieces :=
        fun he' p hp hp' => (hnew p hp).1 (h.alive he' p hp')
      constructor
      · intro k' e' he' p hp
        rcases hcases he' with ⟨-, rfl⟩ | ⟨-, hold⟩
        · exact (hnew p hp).2
        · exact hgrows p (h.alive hold p hp)
      · intro k₁ k₂ e₁ e₂ h₁ h₂ hne
        rcases hcases h₁ with ⟨rfl, rfl⟩ | ⟨-, hold₁⟩
        · rcases hcases h₂ with ⟨rfl, -⟩ | ⟨-, hold₂⟩
          · exact absurd rfl hne
          · exact hclear hold₂
        · rcases hcases h₂ with ⟨-, rfl⟩ | ⟨-, hold₂⟩
          · exact (hclear hold₁).symm
          · exact h.apart hold₁ hold₂ hne

theorem Strikes.remaining (h : Strikes ks es r r') {k : Key} (he : entryAt r' k = some e) :
    k ∉ ks ∧ entryAt r k = some e := by
  have hk : k ∉ ks := by
    intro hk
    rw [h.gone k hk] at he
    cases he
  exact ⟨hk, (h.rest k hk).symm.trans he⟩

theorem Owned.strikes (h : Owned r) (hstrikes : Strikes ks es r r')
    (hfrees : ∀ p, Alive r' p ↔ Alive r p ∧ p ∉ piecesOf es) : Owned r' := by
  constructor
  · intro k e he p hp
    obtain ⟨hk, hold⟩ := hstrikes.remaining he
    refine (hfrees p).mpr ⟨h.alive hold p hp, fun hmem => ?_⟩
    obtain ⟨e', he', hp'⟩ := mem_piecesOf.mp hmem
    obtain ⟨k', hk', hold'⟩ := hstrikes.taken e' he'
    exact h.apart hold hold' (fun heq => hk (heq ▸ hk')) hp hp'
  · exact fun he he' => h.apart (hstrikes.remaining he).2 (hstrikes.remaining he').2

end Registered

/-! ## §2  What installations register -/

section Installing

variable {r r' : Runtime} {target : Target}

theorem entryAt_congr (hhooks : r'.world.hooks.hooksById = r.world.hooks.hooksById)
    (hbp : r'.world.bp.bpById = r.world.bp.bpById) (hhw : r'.world.hw.hwById = r.world.hw.hwById)
    (hcallbacks : r'.ffi.callbacks = r.ffi.callbacks) : entryAt r' = entryAt r := by
  funext k
  cases k with
  | hook id => rw [entryAt, hhooks, entryAt]
  | breakpoint id => rw [entryAt, hbp, entryAt]
  | hwBreakpoint id => rw [entryAt, hhw, entryAt]
  | callback a => rw [entryAt, hcallbacks, entryAt]

theorem map_lookup_insert {κ α : Type} [DecidableEq κ] {m : HashMap κ α} {entry : α → Entry}
    {k : κ} {x : α} (k' : κ) : ((m.insert k x).lookup k').map entry =
      if k' = k then some (entry x) else (m.lookup k').map entry := by
  split_ifs with hk
  · rw [hk, AList.lookup_insert, Option.map_some]
  · rw [AList.lookup_insert_ne hk]

theorem map_lookup_erase {κ α : Type} [DecidableEq κ] {m : HashMap κ α} {entry : α → Entry}
    {k : κ} (k' : κ) : ((m.erase k).lookup k').map entry =
      if k' = k then none else (m.lookup k').map entry := by
  split_ifs with hk
  · rw [hk, AList.lookup_erase, Option.map_none]
  · rw [AList.lookup_erase_ne hk]

theorem entryAt_updateHook {id : ℕ} {v : Option Entry}
    (hhooks : ∀ id', (r'.world.hooks.hooksById.lookup id').map .hook =
      if id' = id then v else (r.world.hooks.hooksById.lookup id').map .hook)
    (hbp : r'.world.bp.bpById = r.world.bp.bpById)
    (hhw : r'.world.hw.hwById = r.world.hw.hwById)
    (hcallbacks : r'.ffi.callbacks = r.ffi.callbacks) :
    entryAt r' = Function.update (entryAt r) (.hook id) v := by
  funext k
  cases k with
  | hook id' => simp [entryAt, hhooks, Function.update_apply]
  | breakpoint id' => simp [entryAt, hbp]
  | hwBreakpoint id' => simp [entryAt, hhw]
  | callback a' => simp [entryAt, hcallbacks]

theorem entryAt_updateBreakpoint {id : ℕ} {v : Option Entry}
    (hhooks : r'.world.hooks.hooksById = r.world.hooks.hooksById)
    (hbp : ∀ id', (r'.world.bp.bpById.lookup id').map .breakpoint =
      if id' = id then v else (r.world.bp.bpById.lookup id').map .breakpoint)
    (hhw : r'.world.hw.hwById = r.world.hw.hwById)
    (hcallbacks : r'.ffi.callbacks = r.ffi.callbacks) :
    entryAt r' = Function.update (entryAt r) (.breakpoint id) v := by
  funext k
  cases k with
  | hook id' => simp [entryAt, hhooks]
  | breakpoint id' => simp [entryAt, hbp, Function.update_apply]
  | hwBreakpoint id' => simp [entryAt, hhw]
  | callback a' => simp [entryAt, hcallbacks]

theorem entryAt_updateHwBreakpoint {id : ℕ} {v : Option Entry}
    (hhooks : r'.world.hooks.hooksById = r.world.hooks.hooksById)
    (hbp : r'.world.bp.bpById = r.world.bp.bpById)
    (hhw : ∀ id', (r'.world.hw.hwById.lookup id').map .hwBreakpoint =
      if id' = id then v else (r.world.hw.hwById.lookup id').map .hwBreakpoint)
    (hcallbacks : r'.ffi.callbacks = r.ffi.callbacks) :
    entryAt r' = Function.update (entryAt r) (.hwBreakpoint id) v := by
  funext k
  cases k with
  | hook id' => simp [entryAt, hhooks]
  | breakpoint id' => simp [entryAt, hbp]
  | hwBreakpoint id' => simp [entryAt, hhw, Function.update_apply]
  | callback a' => simp [entryAt, hcallbacks]

theorem entryAt_updateCallback {a : Addr} {v : Option Entry}
    (hhooks : r'.world.hooks.hooksById = r.world.hooks.hooksById)
    (hbp : r'.world.bp.bpById = r.world.bp.bpById)
    (hhw : r'.world.hw.hwById = r.world.hw.hwById)
    (hcallbacks : ∀ a', (r'.ffi.callbacks.lookup a').map .callback =
      if a' = a then v else (r.ffi.callbacks.lookup a').map .callback) :
    entryAt r' = Function.update (entryAt r) (.callback a) v := by
  funext k
  cases k with
  | hook id' => simp [entryAt, hhooks]
  | breakpoint id' => simp [entryAt, hbp]
  | hwBreakpoint id' => simp [entryAt, hhw]
  | callback a' => simp [entryAt, hcallbacks, Function.update_apply]

/-- Blocks and an object that were not there before. -/
theorem new_jitPieces {trampolineCode relocatedCode self : Addr}
    (ht : trampolineCode ≠ 0 → trampolineCode ∉ r.world.jit ∧ trampolineCode ∈ r'.world.jit)
    (hr : relocatedCode ≠ 0 → relocatedCode ∉ r.world.jit ∧ relocatedCode ∈ r'.world.jit)
    (hself : self ∉ r.world.heap ∧ self ∈ r'.world.heap) :
    ∀ p ∈ jitPieces trampolineCode relocatedCode self, ¬ Alive r p ∧ Alive r' p := by
  intro p hp
  rcases List.mem_append.mp hp with hcode | hobject
  · rcases List.mem_append.mp hcode with hcode | hcode
    · obtain ⟨hnull, rfl⟩ := mem_codePieces.mp hcode
      exact ht hnull
    · obtain ⟨hnull, rfl⟩ := mem_codePieces.mp hcode
      exact hr hnull
  · rw [List.mem_singleton.mp hobject]
    exact hself

theorem adds_attach {env : Interceptor.Install} {address : Addr} {onEnter onLeave : Callback}
    (hfresh : FreshBlocks r.world env.self env.relocated env.trampoline) :
    Adds r { r with
      world := (Interceptor.attach target.arch env address onEnter onLeave r.world).2 } := by
  obtain ⟨hself, hrelocated, htrampoline⟩ := hfresh
  unfold Interceptor.attach
  split
  · exact .nothing rfl
  · cases hr : env.relocated with
    | error e => exact .nothing (entryAt_congr rfl rfl rfl rfl)
    | ok block =>
        cases ht : env.trampoline with
        | error e => exact .nothing (entryAt_congr (by simp) (by simp) (by simp) rfl)
        | ok t =>
            cases env.patch with
            | ok =>
                refine .one _ _ (entryAt_updateHook map_lookup_insert rfl rfl rfl)
                  (new_jitPieces ?_ ?_ ?_)
                · exact fun _ => ⟨(htrampoline t ht).1, List.mem_cons_self⟩
                · exact fun _ => ⟨hrelocated _ _ hr, List.mem_cons_of_mem _ List.mem_cons_self⟩
                · exact ⟨hself, List.mem_cons_self⟩
            | rwDenied | rxDenied => exact .nothing (entryAt_congr rfl rfl rfl rfl)

theorem adds_replace {env : Interceptor.Install} {address replacement : Addr}
    (hfresh : FreshBlocks r.world env.self env.relocated env.trampoline) :
    Adds r { r with
      world := (Interceptor.replace target.arch env address replacement r.world).2 } := by
  obtain ⟨hself, hrelocated, -⟩ := hfresh
  unfold Interceptor.replace
  split
  · exact .nothing rfl
  · cases hr : env.relocated with
    | error e => exact .nothing (entryAt_congr rfl rfl rfl rfl)
    | ok block =>
        cases env.patch with
        | ok =>
            refine .one _ _ (entryAt_updateHook map_lookup_insert rfl rfl rfl)
              (new_jitPieces ?_ ?_ ?_)
            · exact fun hnull => absurd rfl hnull
            · exact fun _ => ⟨hrelocated _ _ hr, List.mem_cons_self⟩
            · exact ⟨hself, List.mem_cons_self⟩
        | rwDenied | rxDenied => exact .nothing (entryAt_congr rfl rfl rfl rfl)

/-- Registering a handler first makes no difference. -/
theorem Adds.congr (r₁ : Runtime) (h : Adds r₁ r') (hsame : entryAt r₁ = entryAt r)
    (hjit : r₁.world.jit = r.world.jit) (hheap : r₁.world.heap = r.world.heap)
    (hclosures : r₁.ffi.closures = r.ffi.closures) : Adds r r' := by
  cases h with
  | nothing hnone => exact .nothing (hnone.trans hsame)
  | one k e hupdate hnew =>
      refine .one k e (hsame ▸ hupdate) fun p hp => ⟨fun halive => (hnew p hp).1 ?_, (hnew p hp).2⟩
      cases p with
      | code a => exact (congrArg (a ∈ ·) hjit).mpr halive
      | object a => exact (congrArg (a ∈ ·) hheap).mpr halive
      | closure a => exact (congrArg (a ∈ ·) hclosures).mpr halive

theorem adds_setBreakpoint {env : SoftwareBreakpoint.Install} {address : Addr} {onHit : Callback}
    (hfresh : FreshBlocks r.world env.self env.relocated env.trampoline) :
    Adds r { r with
      world := (SoftwareBreakpoint.set target.arch env address onHit r.world).2 } := by
  obtain ⟨hjit, hheap⟩ := ensureHandlerInstalled_memory r.world
  obtain ⟨hself, hrelocated, htrampoline⟩ := hfresh.congr hjit hheap
  unfold SoftwareBreakpoint.set
  split
  · exact .nothing rfl
  · refine Adds.congr { r with world := SoftwareBreakpoint.ensureHandlerInstalled r.world } ?_
      (entryAt_congr (by simp) (by simp) (by simp) rfl) hjit hheap rfl
    generalize SoftwareBreakpoint.ensureHandlerInstalled r.world = w at *
    cases hr : env.relocated with
    | error e => exact .nothing (entryAt_congr rfl rfl rfl rfl)
    | ok block =>
        cases ht : env.trampoline with
        | error e => exact .nothing (entryAt_congr (by simp) (by simp) (by simp) rfl)
        | ok t =>
            cases env.patch with
            | ok =>
                refine .one _ _ (entryAt_updateBreakpoint rfl map_lookup_insert rfl rfl)
                  (new_jitPieces ?_ ?_ ?_)
                · exact fun _ => ⟨(htrampoline t ht).1, List.mem_cons_self⟩
                · exact fun _ => ⟨hrelocated _ _ hr, List.mem_cons_of_mem _ List.mem_cons_self⟩
                · exact ⟨hself, List.mem_cons_self⟩
            | rwDenied | rxDenied => exact .nothing (entryAt_congr rfl rfl rfl rfl)

/-- The blocks of a hardware breakpoint, where there are any, are there. -/
theorem buildBlocks_new {env : HardwareBreakpoint.Install} {type : HwBpType} {w w' : World}
    {relocatedCode trampolineCode : Addr}
    (hfresh : FreshBlocks w env.self env.relocated env.trampoline)
    (h : HardwareBreakpoint.buildBlocks env type (w.allocate env.self) =
      (.ok (relocatedCode, trampolineCode), w')) :
    (relocatedCode ≠ 0 → relocatedCode ∉ w.jit ∧ relocatedCode ∈ w'.jit) ∧
      (trampolineCode ≠ 0 → trampolineCode ∉ w.jit ∧ trampolineCode ∈ w'.jit) ∧
      env.self ∈ w'.heap := by
  obtain ⟨-, hrelocated, htrampoline⟩ := hfresh
  unfold HardwareBreakpoint.buildBlocks at h
  split_ifs at h
  · cases hr : env.relocated with
    | error e =>
        rw [hr] at h
        cases h
    | ok block =>
        cases ht : env.trampoline with
        | error e =>
            rw [hr, ht] at h
            cases h
        | ok t =>
            rw [hr, ht] at h
            cases h
            exact ⟨fun _ => ⟨hrelocated _ _ hr, List.mem_cons_of_mem _ List.mem_cons_self⟩,
              fun _ => ⟨(htrampoline _ ht).1, List.mem_cons_self⟩, List.mem_cons_self⟩
  · cases h
    exact ⟨fun hnull => absurd rfl hnull, fun hnull => absurd rfl hnull, List.mem_cons_self⟩

theorem buildBlocks_hooks (env : HardwareBreakpoint.Install) (type : HwBpType) (w : World) :
    (HardwareBreakpoint.buildBlocks env type w).2.hooks = w.hooks := by
  unfold HardwareBreakpoint.buildBlocks
  split_ifs
  · cases env.relocated with
    | error e => rfl
    | ok block =>
        cases env.trampoline with
        | error e => exact World.releaseCode_hooks _ _
        | ok t => rfl
  · rfl

theorem ensureHwHandlerInstalled_hooks (w : World) :
    (HardwareBreakpoint.ensureHwHandlerInstalled w).hooks = w.hooks := by
  unfold HardwareBreakpoint.ensureHwHandlerInstalled
  split <;> rfl

theorem adds_setHardware {env : HardwareBreakpoint.Install} {address : Addr} {typeStr : String}
    {size : ℤ} {onHit : Callback}
    (hfresh : FreshBlocks r.world env.self env.relocated env.trampoline) :
    Adds r { r with
      world := (HardwareBreakpoint.set target env address typeStr size onHit r.world).2 } := by
  obtain ⟨hjit, hheap⟩ := ensureHwHandlerInstalled_memory r.world
  have hhooks := ensureHwHandlerInstalled_hooks r.world
  have hfresh := hfresh.congr hjit hheap
  unfold HardwareBreakpoint.set
  split
  · exact .nothing rfl
  cases HardwareBreakpoint.parseType typeStr with
  | error e => exact .nothing rfl
  | ok type =>
      dsimp only
      split
      · exact .nothing rfl
      split
      · exact .nothing rfl
      refine Adds.congr { r with world := HardwareBreakpoint.ensureHwHandlerInstalled r.world } ?_
        (entryAt_congr (congrArg _ hhooks) (by simp) (by simp) rfl) hjit hheap rfl
      generalize HardwareBreakpoint.ensureHwHandlerInstalled r.world = w at *
      have hnew := @buildBlocks_new env type w
      have haside := HardwareBreakpoint.buildBlocks_aside env type (w.allocate env.self)
      have hblockhooks := buildBlocks_hooks env type (w.allocate env.self)
      generalize HardwareBreakpoint.buildBlocks env type (w.allocate env.self) = built at *
      obtain ⟨answer, w'⟩ := built
      have hhooks : w'.hooks.hooksById = w.hooks.hooksById := congrArg _ hblockhooks
      have hbp : w'.bp.bpById = w.bp.bpById := congrArg _ haside.bp
      have hhw : w'.hw.hwById = w.hw.hwById := congrArg _ haside.hw
      cases answer with
      | error e => exact .nothing (entryAt_congr hhooks hbp hhw rfl)
      | ok blocks =>
          obtain ⟨hr, ht, hself⟩ := hnew hfresh rfl
          rcases HardwareBreakpoint.arm_cases target.os address type size env.perfFd w'.hw with
            ⟨e, harm⟩ | ⟨fd, slot, used, harm, -⟩
          · simp only [harm]
            exact .nothing (entryAt_congr (by simpa using hhooks) (by simpa using hbp)
              (by simpa using hhw) rfl)
          · simp only [harm]
            refine .one (.hwBreakpoint w'.hw.nextHwId)
              (.hwBreakpoint ⟨env.self, address, type, size, onHit, fd, slot, blocks.2, blocks.1⟩)
              (entryAt_updateHwBreakpoint hhooks hbp (fun id => ?_) rfl)
              (new_jitPieces ht hr ⟨hfresh.1, hself⟩)
            rw [← hhw]
            exact map_lookup_insert id

theorem adds_createCallback {env : NativeCallback.Install} {handler : Callback}
    {retType abi : String} {argTypes : List String} (hself : env.self ∉ r.world.heap)
    (hclosure : ∀ closure codeAddr, env.closure = some (closure, codeAddr) →
      closure ∉ r.ffi.closures) :
    Adds r (createCallback target env handler retType argTypes abi r).2 := by
  unfold createCallback
  dsimp only
  split
  · exact .nothing (entryAt_congr rfl rfl rfl rfl)
  cases hc : env.closure with
  | none => exact .nothing (entryAt_congr rfl rfl rfl rfl)
  | some found =>
      dsimp only
      split
      · exact .nothing (entryAt_congr rfl rfl rfl rfl)
      refine .one _ _ (entryAt_updateCallback rfl rfl rfl map_lookup_insert) fun p hp => ?_
      rcases List.mem_pair.mp hp with rfl | rfl
      · exact ⟨hclosure _ _ hc, List.mem_cons_self⟩
      · exact ⟨hself, List.mem_cons_self⟩

theorem exec_adds {o : Op} (hpermitted : o.Permitted r) (ho : o.installs = true) :
    Adds r (o.exec target r) := by
  cases o with
  | hook c =>
      cases c with
      | attach => exact adds_attach hpermitted
      | replace => exact adds_replace hpermitted
      | detach | revert => cases ho
  | setBreakpoint => exact adds_setBreakpoint hpermitted
  | setHardware => exact adds_setHardware hpermitted
  | createCallback => exact adds_createCallback hpermitted.1 hpermitted.2
  | detachAll | removeBreakpoint | removeAllBreakpoints | removeHardware | removeAllHardware
    | destroyCallback => cases ho

end Installing

/-! ## §3  What removals strike out -/

section Removing

variable {r r' : Runtime} {target : Target}

theorem strikes_nothing (hsame : entryAt r' = entryAt r) : Strikes ∅ [] r r' :=
  ⟨fun _ hk => hk.elim, fun _ _ => congrFun hsame _, fun _ he => absurd he List.not_mem_nil⟩

/-- What is at one key goes. -/
theorem strikes_key {k : Key} {es : List Entry} (hes : es = (entryAt r k).toList)
    (herase : entryAt r' = Function.update (entryAt r) k none) : Strikes {k} es r r' where
  gone k' hk := by rw [Set.mem_singleton_iff.mp hk, herase, Function.update_self]
  rest k' hk := by rw [herase, Function.update_of_ne hk]
  taken e he := ⟨k, rfl, Option.mem_toList.mp (hes ▸ he)⟩

theorem strikes_detach (patch : PatchOutcome) (hookId : ℕ) :
    ∃ ks, Strikes ks (if patch = .ok then
        (r.world.hooks.hooksById.lookup hookId).toList.map .hook else []) r
      { r with world := (Interceptor.detach patch hookId r.world).2 } := by
  unfold Interceptor.detach Interceptor.restore
  cases hl : r.world.hooks.hooksById.lookup hookId with
  | none =>
      rw [Option.toList_none, List.map_nil, ite_self]
      exact ⟨∅, strikes_nothing rfl⟩
  | some e =>
      cases patch with
      | ok =>
          refine ⟨{.hook hookId}, strikes_key (by simp [entryAt, hl]) ?_⟩
          simp only [makeWritableAndPatch_ok]
          exact entryAt_updateHook (by simp [map_lookup_erase]) (by simp)
            (by simp [Interceptor.releaseEntry]) rfl
      | rwDenied | rxDenied => exact ⟨∅, strikes_nothing (entryAt_congr rfl rfl rfl rfl)⟩

theorem strikes_revert {arch : Arch} (h : Interceptor.Registry arch r.world.hooks)
    (patch : PatchOutcome) (t : Addr) :
    ∃ ks, Strikes ks (if patch = .ok then
        (r.world.hooks.hooksByTarget.lookup t).toList.map .hook else []) r
      { r with world := (Interceptor.revert patch t r.world).2 } := by
  unfold Interceptor.revert Interceptor.restore
  cases hl : r.world.hooks.hooksByTarget.lookup t with
  | none =>
      rw [Option.toList_none, List.map_nil, ite_self]
      exact ⟨∅, strikes_nothing rfl⟩
  | some e =>
      cases patch with
      | ok =>
          obtain ⟨-, id, hid⟩ := h.indexed.toId hl
          refine ⟨{.hook id}, strikes_key (by simp [entryAt, hid]) ?_⟩
          have herase := Interceptor.eraseSelf_eq h.selves hid
          simp only [makeWritableAndPatch_ok]
          exact entryAt_updateHook (by simp [herase, map_lookup_erase]) (by simp)
            (by simp [Interceptor.releaseEntry]) rfl
      | rwDenied | rxDenied => exact ⟨∅, strikes_nothing (entryAt_congr rfl rfl rfl rfl)⟩

theorem strikes_removeBreakpoint (arch : Arch) (patch : PatchOutcome) (bpId : ℕ) :
    ∃ ks, Strikes ks (if patch = .ok then
        (r.world.bp.bpById.lookup bpId).toList.map .breakpoint else []) r
      { r with world := (SoftwareBreakpoint.remove arch patch bpId r.world).2 } := by
  unfold SoftwareBreakpoint.remove
  cases hl : r.world.bp.bpById.lookup bpId with
  | none =>
      rw [Option.toList_none, List.map_nil, ite_self]
      exact ⟨∅, strikes_nothing rfl⟩
  | some e =>
      cases patch with
      | ok =>
          refine ⟨{.breakpoint bpId}, strikes_key (by simp [entryAt, hl]) ?_⟩
          simp only [makeWritableAndPatch_ok]
          exact entryAt_updateBreakpoint (by simp) (by simp [map_lookup_erase]) (by simp) rfl
      | rwDenied | rxDenied => exact ⟨∅, strikes_nothing (entryAt_congr rfl rfl rfl rfl)⟩

theorem strikes_removeHardware (bpId : ℕ) :
    ∃ ks, Strikes ks ((r.world.hw.hwById.lookup bpId).toList.map .hwBreakpoint) r
      { r with world := HardwareBreakpoint.remove bpId r.world } := by
  unfold HardwareBreakpoint.remove
  cases hl : r.world.hw.hwById.lookup bpId with
  | none => exact ⟨∅, strikes_nothing rfl⟩
  | some e =>
      refine ⟨{.hwBreakpoint bpId}, strikes_key (by simp [entryAt, hl]) ?_⟩
      have hrelease := HardwareBreakpoint.releaseEntry_frame e r.world
      have hremove := HardwareBreakpoint.maybeRemoveHwHandler_frame
      exact entryAt_updateHwBreakpoint (congrArg _ ((hremove _).hooks.trans hrelease.hooks))
        (congrArg _ ((hremove _).bp.trans hrelease.bp)) (by simp [map_lookup_erase]) rfl

theorem strikes_destroyCallback (address : Addr) :
    ∃ ks, Strikes ks ((r.ffi.callbacks.lookup address).toList.map .callback) r
      (destroyCallback address r) := by
  unfold destroyCallback
  cases hl : r.ffi.callbacks.lookup address with
  | none => exact ⟨∅, strikes_nothing rfl⟩
  | some info =>
      refine ⟨{.callback address}, strikes_key (by simp [entryAt, hl]) ?_⟩
      exact entryAt_updateCallback rfl rfl rfl map_lookup_erase

/-- What a loop over the map comes to is in the map. -/
theorem lookup_of_listed {α : Type} {m : HashMap ℕ α} {entry : α → Entry} {e : Entry}
    {order : List (Σ _ : ℕ, α)} (hperm : order.Perm m.entries)
    (he : e ∈ order.map fun x => entry x.2) : ∃ id, (m.lookup id).map entry = some e := by
  obtain ⟨x, hx, rfl⟩ := List.mem_map.mp he
  refine ⟨x.1, ?_⟩
  rw [AList.mem_lookup_iff.mpr (hperm.mem_iff.mp hx), Option.map_some]

/-- All hooks go. -/
theorem strikes_detachAll {patch : Addr → PatchOutcome} {order : List (Σ _ : ℕ, HookEntry)}
    (hperm : order.Perm r.world.hooks.hooksById.entries)
    (hpatch : ∀ e ∈ order, patch e.2.target = .ok) :
    Strikes (Set.range Key.hook) (order.map fun e => .hook e.2) r
      { r with world := (Interceptor.detachAll patch order r.world).2 } := by
  obtain ⟨w', heq, hcleared⟩ := Interceptor.detachAll_ok patch order r.world hpatch
  obtain ⟨-, hbp, hhw⟩ := Interceptor.detachAll_handlers patch order r.world
  rw [heq] at hbp hhw ⊢
  refine ⟨?_, fun k hk => ?_, fun e he => ?_⟩
  · rintro _ ⟨id, rfl⟩
    rw [entryAt, hcleared.hooks]
    rfl
  · cases k with
    | hook id => exact absurd ⟨id, rfl⟩ hk
    | breakpoint id => rw [entryAt, hbp, entryAt]
    | hwBreakpoint id => rw [entryAt, hhw, entryAt]
    | callback a => rfl
  · obtain ⟨id, hid⟩ := lookup_of_listed hperm he
    exact ⟨.hook id, ⟨id, rfl⟩, hid⟩

/-- A loop that stops at once has changed code at most. -/
theorem detachAll_refused {patch : Addr → PatchOutcome} {e : Σ _ : ℕ, HookEntry}
    {rest : List (Σ _ : ℕ, HookEntry)} (w : World) (h : patch e.2.target ≠ .ok) :
    ∃ code, (Interceptor.detachAll patch (e :: rest) w).2 = { w with code := code } := by
  unfold Interceptor.detachAll Interceptor.restoreAll Interceptor.restore
  cases hp : patch e.2.target with
  | ok => exact absurd hp h
  | rwDenied | rxDenied => exact ⟨_, rfl⟩

theorem removeAll_refused {arch : Arch} {patch : Addr → PatchOutcome}
    {e : Σ _ : ℕ, BreakpointEntry} {rest : List (Σ _ : ℕ, BreakpointEntry)} (w : World)
    (h : patch e.2.address ≠ .ok) :
    ∃ code, (SoftwareBreakpoint.removeAll arch patch (e :: rest) w).2 =
      { w with code := code } := by
  unfold SoftwareBreakpoint.removeAll SoftwareBreakpoint.restoreAll
  cases hp : patch e.2.address with
  | ok => exact absurd hp h
  | rwDenied | rxDenied => exact ⟨_, rfl⟩

theorem strikes_removeAllBreakpoints {arch : Arch} {patch : Addr → PatchOutcome}
    {order : List (Σ _ : ℕ, BreakpointEntry)} (hperm : order.Perm r.world.bp.bpById.entries)
    (hpatch : ∀ e ∈ order, patch e.2.address = .ok) :
    Strikes (Set.range Key.breakpoint) (order.map fun e => .breakpoint e.2) r
      { r with world := (SoftwareBreakpoint.removeAll arch patch order r.world).2 } := by
  obtain ⟨w', heq, hcleared⟩ := SoftwareBreakpoint.removeAll_ok arch patch order r.world hpatch
  rw [heq]
  refine ⟨?_, fun k hk => ?_, fun e he => ?_⟩
  · rintro _ ⟨id, rfl⟩
    rw [entryAt, hcleared.byId]
    rfl
  · cases k with
    | hook id => rw [entryAt, hcleared.hooks, entryAt]
    | breakpoint id => exact absurd ⟨id, rfl⟩ hk
    | hwBreakpoint id => rw [entryAt, hcleared.hw, entryAt]
    | callback a => rfl
  · obtain ⟨id, hid⟩ := lookup_of_listed hperm he
    exact ⟨.breakpoint id, ⟨id, rfl⟩, hid⟩

theorem strikes_removeAllHardware {order : List (Σ _ : ℕ, HwBreakpointEntry)}
    (hperm : order.Perm r.world.hw.hwById.entries) :
    Strikes (Set.range Key.hwBreakpoint) (order.map fun e => .hwBreakpoint e.2) r
      { r with world := HardwareBreakpoint.removeAll order r.world } := by
  have hframe := HardwareBreakpoint.removeAll_frame order r.world
  refine ⟨?_, fun k hk => ?_, fun e he => ?_⟩
  · rintro _ ⟨id, rfl⟩
    rw [entryAt, HardwareBreakpoint.removeAll, HardwareBreakpoint.maybeRemoveHwHandler_hwById]
    rfl
  · cases k with
    | hook id => rw [entryAt, hframe.hooks, entryAt]
    | breakpoint id => rw [entryAt, hframe.bp, entryAt]
    | hwBreakpoint id => exact absurd ⟨id, rfl⟩ hk
    | callback a => rfl
  · obtain ⟨id, hid⟩ := lookup_of_listed hperm he
    exact ⟨.hwBreakpoint id, ⟨id, rfl⟩, hid⟩

end Removing

/-! ## §4  Operations -/

section Operations

variable {r : Runtime} {target : Target} {o : Op}

/-- No loop is left after it has deleted something: it gets to its end, or its first protection
change is refused. -/
def Op.Uncut : Op → Prop
  | .detachAll patch order => (∀ e ∈ order, patch e.2.target = .ok) ∨
      ∃ e rest, order = e :: rest ∧ patch e.2.target ≠ .ok
  | .removeAllBreakpoints patch order => (∀ e ∈ order, patch e.2.address = .ok) ∨
      ∃ e rest, order = e :: rest ∧ patch e.2.address ≠ .ok
  | _ => True

theorem exec_strikes (h : Interceptor.Registry target.arch r.world.hooks)
    (hpermitted : o.Permitted r) (huncut : o.Uncut) (ho : o.installs = false) :
    ∃ ks, Strikes ks (o.takenDown r) r (o.exec target r) := by
  cases o with
  | hook c =>
      cases c with
      | attach | replace => cases ho
      | detach patch hookId => exact strikes_detach patch hookId
      | revert patch t => exact strikes_revert h patch t
  | detachAll patch order =>
      rcases huncut with hall | ⟨e, rest, rfl, hfirst⟩
      · refine ⟨Set.range Key.hook, ?_⟩
        rw [Op.takenDown, List.takeWhile_eq_self_iff.mpr fun e he => decide_eq_true (hall e he)]
        exact strikes_detachAll hpermitted hall
      · refine ⟨∅, ?_⟩
        rw [Op.takenDown, List.takeWhile_cons_of_neg (by simpa using hfirst)]
        obtain ⟨code, heq⟩ := @detachAll_refused _ _ rest r.world hfirst
        rw [Op.exec, heq]
        exact strikes_nothing rfl
  | removeBreakpoint patch bpId => exact strikes_removeBreakpoint target.arch patch bpId
  | removeAllBreakpoints patch order =>
      rcases huncut with hall | ⟨e, rest, rfl, hfirst⟩
      · refine ⟨Set.range Key.breakpoint, ?_⟩
        rw [Op.takenDown, List.takeWhile_eq_self_iff.mpr fun e he => decide_eq_true (hall e he)]
        exact strikes_removeAllBreakpoints hpermitted hall
      · refine ⟨∅, ?_⟩
        rw [Op.takenDown, List.takeWhile_cons_of_neg (by simpa using hfirst)]
        obtain ⟨code, heq⟩ := @removeAll_refused target.arch _ _ rest r.world hfirst
        rw [Op.exec, heq]
        exact strikes_nothing rfl
  | removeHardware bpId => exact strikes_removeHardware bpId
  | removeAllHardware order => exact ⟨_, strikes_removeAllHardware hpermitted⟩
  | destroyCallback address => exact strikes_destroyCallback address
  | setBreakpoint | setHardware | createCallback => cases ho

theorem setBreakpoint_hooks {arch : Arch} {env : SoftwareBreakpoint.Install} {address : Addr}
    {onHit : Callback} (w : World) :
    (SoftwareBreakpoint.set arch env address onHit w).2.hooks = w.hooks := by
  unfold SoftwareBreakpoint.set
  split
  · rfl
  cases env.relocated with
  | error e => simp
  | ok block =>
      cases env.trampoline with
      | error e => simp
      | ok t => cases env.patch <;> simp [makeWritableAndPatch]

theorem setHardware_hooks {env : HardwareBreakpoint.Install} {address : Addr} {typeStr : String}
    {size : ℤ} {onHit : Callback} (w : World) :
    (HardwareBreakpoint.set target env address typeStr size onHit w).2.hooks = w.hooks := by
  unfold HardwareBreakpoint.set
  split
  · rfl
  cases HardwareBreakpoint.parseType typeStr with
  | error e => rfl
  | ok type =>
      dsimp only
      split
      · rfl
      split
      · rfl
      have hblockhooks := buildBlocks_hooks env type
        ((HardwareBreakpoint.ensureHwHandlerInstalled w).allocate env.self)
      rw [World.allocate_hooks, ensureHwHandlerInstalled_hooks] at hblockhooks
      generalize HardwareBreakpoint.buildBlocks env type
        ((HardwareBreakpoint.ensureHwHandlerInstalled w).allocate env.self) = built at *
      obtain ⟨answer, w'⟩ := built
      cases answer with
      | error e => exact hblockhooks
      | ok blocks =>
          rcases HardwareBreakpoint.arm_cases target.os address type size env.perfFd w'.hw with
            ⟨e, harm⟩ | ⟨fd, slot, used, harm, -⟩
          · simpa only [harm, World.delete_hooks, World.releaseCode_hooks] using hblockhooks
          · simpa only [harm] using hblockhooks

theorem removeBreakpoint_hooks {arch : Arch} {patch : PatchOutcome} {bpId : ℕ} (w : World) :
    (SoftwareBreakpoint.remove arch patch bpId w).2.hooks = w.hooks := by
  unfold SoftwareBreakpoint.remove
  cases w.bp.bpById.lookup bpId with
  | none => rfl
  | some e => cases patch <;> simp [makeWritableAndPatch]

theorem removeAllBreakpoints_hooks {arch : Arch} {patch : Addr → PatchOutcome}
    {order : List (Σ _ : ℕ, BreakpointEntry)} (w : World) :
    (SoftwareBreakpoint.removeAll arch patch order w).2.hooks = w.hooks := by
  obtain ⟨-, -, hhooks, -⟩ := SoftwareBreakpoint.restoreAll_frame arch patch order w
  unfold SoftwareBreakpoint.removeAll
  generalize SoftwareBreakpoint.restoreAll arch patch order w = result at *
  obtain ⟨answer, w'⟩ := result
  cases answer with
  | error e => exact hhooks
  | ok _ => simpa using hhooks

theorem removeHardware_hooks {bpId : ℕ} (w : World) :
    (HardwareBreakpoint.remove bpId w).hooks = w.hooks := by
  unfold HardwareBreakpoint.remove
  cases w.hw.hwById.lookup bpId with
  | none => rfl
  | some e =>
      exact (HardwareBreakpoint.maybeRemoveHwHandler_frame _).hooks.trans
        (HardwareBreakpoint.releaseEntry_frame e w).hooks

theorem createCallback_hooks {env : NativeCallback.Install} {handler : Callback}
    {retType abi : String} {argTypes : List String} (r : Runtime) :
    (createCallback target env handler retType argTypes abi r).2.world.hooks = r.world.hooks := by
  unfold createCallback
  dsimp only
  split
  · rfl
  cases env.closure with
  | none => rfl
  | some found =>
      dsimp only
      split <;> rfl

theorem destroyCallback_hooks {address : Addr} (r : Runtime) :
    (destroyCallback address r).world.hooks = r.world.hooks := by
  unfold destroyCallback
  cases r.ffi.callbacks.lookup address <;> rfl

/-- `new` gives out no address that a registered hook has. -/
theorem Owned.fresh (h : Owned r) {self : Addr} (hself : self ∉ r.world.heap) :
    Interceptor.Fresh self r.world := by
  rintro id e he rfl
  exact hself (h.alive (entryAt_hook.mpr he) (.object e.self)
    (List.mem_append_right _ List.mem_cons_self))

theorem Owned.permitted (h : Owned r) {c : Interceptor.Call}
    (hpermitted : (Op.hook c).Permitted r) : c.Permitted r.world := by
  cases c with
  | attach | replace => exact h.fresh hpermitted.1
  | detach | revert => trivial

/-- A call that stops after restoring the bytes leaves its hook registered. -/
theorem stopped_hooks {arch : Arch} {c : Interceptor.Call} {w : World} {t : Addr}
    (hpatch : c.patch = .rxDenied) (hremoves : c.Removes w t) :
    (c.exec arch w).hooks = w.hooks := by
  cases c with
  | attach | replace => exact hremoves.elim
  | detach patch hookId =>
      obtain rfl : patch = .rxDenied := hpatch
      change (Interceptor.detach .rxDenied hookId w).2.hooks = w.hooks
      unfold Interceptor.detach
      cases w.hooks.hooksById.lookup hookId <;> rfl
  | revert patch t =>
      obtain rfl : patch = .rxDenied := hpatch
      change (Interceptor.revert .rxDenied t w).2.hooks = w.hooks
      unfold Interceptor.revert
      cases w.hooks.hooksByTarget.lookup t <;> rfl

open Interceptor in
theorem registry_exec (howned : Owned r) (h : Registry target.arch r.world.hooks)
    (hpermitted : o.Permitted r) (huncut : o.Uncut) :
    Registry target.arch (o.exec target r).world.hooks := by
  cases o with
  | hook c =>
      have hok := howned.permitted hpermitted
      rcases exec_cases h hok with
        hun | ⟨entry, dest, -, -, hfresh, hinstalled⟩ | ⟨hookId, entry, -, hremoved⟩ |
          ⟨hpatch, ⟨t, hremoves⟩ | ⟨t, dest, -, hover⟩⟩
      · exact hun.hooks ▸ h
      · exact h.installed hinstalled hfresh
      · exact h.removed hremoved
      · exact (stopped_hooks hpatch hremoves).symm ▸ h
      · exact hover.hooks ▸ h
  | detachAll patch order =>
      rcases huncut with hall | ⟨e, rest, rfl, hfirst⟩
      · obtain ⟨w', heq, hcleared⟩ := detachAll_ok patch order r.world hall
        rw [Op.exec, heq, hcleared.hooks]
        exact Registry.empty
      · obtain ⟨code, heq⟩ := @Lifetimes.detachAll_refused _ _ rest r.world hfirst
        rw [Op.exec, heq]
        exact h
  | setBreakpoint => exact (setBreakpoint_hooks r.world).symm ▸ h
  | removeBreakpoint => exact (removeBreakpoint_hooks r.world).symm ▸ h
  | removeAllBreakpoints => exact (removeAllBreakpoints_hooks r.world).symm ▸ h
  | setHardware => exact (setHardware_hooks r.world).symm ▸ h
  | removeHardware => exact (removeHardware_hooks r.world).symm ▸ h
  | removeAllHardware order => exact (HardwareBreakpoint.removeAll_frame order _).hooks.symm ▸ h
  | createCallback => exact (createCallback_hooks r).symm ▸ h
  | destroyCallback => exact (destroyCallback_hooks r).symm ▸ h

end Operations

/-! ## §5  Threads and the entries they are in -/

/-- Entries own their memory, and the hook maps agree. -/
structure Orderly (target : Target) (r : Runtime) : Prop where
  tidy : TidyRuntime r
  registry : Interceptor.Registry target.arch r.world.hooks
  owned : Owned r

/-- Nothing that is registered has memory in common with what a thread came through, except the
entry itself. -/
def Unshared (s : Process) : Prop :=
  ∀ i ∈ s.active, (∀ p ∈ i.pieces, Alive s.runtime p) ∧
    ∀ k e, entryAt s.runtime k = some e → e = i ∨ i.pieces.Disjoint e.pieces

/-- The loops of the step are not cut short. -/
def Uncut : Label → Prop
  | .op o => o.Uncut
  | _ => True

/-- The operation takes down no entry that a thread is in. -/
def Vacant (s : Process) : Label → Prop
  | .op o => ∀ e ∈ o.takenDown s.runtime, e ∉ s.active
  | _ => True

section Threads

variable {target : Target} {s u : Process} {l : Label} {tr : List (Process × Label)}

theorem Orderly.start (code : Memory) (disposition : Sig → SigAction) :
    Orderly target (.start code disposition) where
  tidy := .start code disposition
  registry := .empty
  owned := by
    have hnone : ∀ k, entryAt (.start code disposition) k = none := by
      rintro (_ | _ | _ | _) <;> rfl
    exact ⟨fun he => by simp [hnone] at he, fun he => by simp [hnone] at he⟩

theorem Orderly.step (h : Orderly target s.runtime) (huncut : Uncut l)
    (hstep : Step target s l u) : Orderly target u.runtime := by
  cases hstep with
  | @op o hpermitted =>
      have hregistry := registry_exec h.owned h.registry hpermitted huncut
      cases ho : o.installs with
      | true =>
          obtain ⟨htidy, hgrows⟩ := exec_grows h.tidy hpermitted ho
          exact ⟨htidy, hregistry, h.owned.adds (exec_adds hpermitted ho) hgrows⟩
      | false =>
          obtain ⟨htidy, hfrees⟩ := exec_frees h.tidy ho
          obtain ⟨ks, hstrikes⟩ := exec_strikes h.registry hpermitted huncut ho
          exact ⟨htidy, hregistry, h.owned.strikes hstrikes hfrees⟩
  | enter | leave => exact h

/-- An entry that a thread is in has memory in common with itself. -/
theorem Unused.vacant (h : Unused s l) : Vacant s l := by
  cases l with
  | op o =>
      intro e he hactive
      obtain ⟨p, hp⟩ := List.exists_mem_of_ne_nil _ (pieces_ne_nil e)
      exact h e he e hactive hp hp
  | enter | leave => trivial

theorem Unshared.step (h : Unshared s) (horderly : Orderly target s.runtime) (huncut : Uncut l)
    (hvacant : Vacant s l) (hstep : Step target s l u) : Unshared u := by
  cases hstep with
  | @op o hpermitted =>
      cases ho : o.installs with
      | true =>
          obtain ⟨-, hgrows⟩ := exec_grows horderly.tidy hpermitted ho
          intro i hi
          obtain ⟨halive, hothers⟩ := h i hi
          refine ⟨fun p hp => hgrows p (halive p hp), fun k e he => ?_⟩
          cases exec_adds hpermitted ho with
          | nothing hsame => exact hothers k e (hsame ▸ he)
          | one k' new hupdate hnew =>
              rw [hupdate] at he
              by_cases hk : k = k'
              · rw [hk, Function.update_self] at he
                obtain rfl := Option.some.inj he
                exact .inr fun p hp hp' => (hnew p hp').1 (halive p hp)
              · rw [Function.update_of_ne hk] at he
                exact hothers k e he
      | false =>
          obtain ⟨-, hfrees⟩ := exec_frees horderly.tidy ho
          obtain ⟨ks, hstrikes⟩ := exec_strikes horderly.registry hpermitted huncut ho
          intro i hi
          obtain ⟨halive, hothers⟩ := h i hi
          refine ⟨fun p hp => (hfrees p).mpr ⟨halive p hp, fun hmem => ?_⟩, fun k e he =>
            hothers k e (hstrikes.remaining he).2⟩
          obtain ⟨e, he, hp'⟩ := mem_piecesOf.mp hmem
          obtain ⟨k, -, hk⟩ := hstrikes.taken e he
          rcases hothers k e hk with rfl | hdisjoint
          · exact hvacant e he hi
          · exact hdisjoint hp hp'
  | @enter e hregistered halive =>
      intro i hi
      rcases List.mem_cons.mp hi with rfl | hi
      · obtain ⟨k, hk⟩ := registered_iff.mp hregistered
        refine ⟨halive, fun k' e' hk' => ?_⟩
        by_cases heq : k = k'
        · exact .inl (Option.some.inj (hk'.symm.trans (heq ▸ hk)))
        · exact .inr (horderly.owned.apart hk hk' heq)
      · exact h i hi
  | leave => exact fun i hi => h i (List.mem_of_mem_erase hi)

/-- **Entries in use.** As long as no loop is cut short, what threads came through stays there
throughout a run exactly when no operation takes down an entry that a thread is in. -/
theorem intact_throughout_iff_vacant {code : Memory} {disposition : Sig → SigAction}
    (run : Run (Step target) (.start code disposition) tr s)
    (huncut : Guarded (fun _ l => Uncut l) tr) :
    Throughout Intact tr s ↔ Guarded Vacant tr := by
  constructor
  · have hspares := (Leases.honoured_throughout_iff (fun _ h => absurd h List.not_mem_nil)
      (run_leases run)).mp
    rw [throughout_map, guarded_map] at hspares
    simp only [Function.comp_def, honoured_iff, spares_iff] at hspares
    exact fun h p hp => (hspares h p hp).vacant
  · intro hvacant
    have hall : Throughout (fun s => Orderly target s.runtime ∧ Unshared s) tr s := by
      refine run.guarded_invariant (G := fun s l => Uncut l ∧ Vacant s l)
        ⟨.start code disposition, fun i hi => absurd hi List.not_mem_nil⟩ ?_
        fun p hp => ⟨huncut p hp, hvacant p hp⟩
      rintro s l u ⟨horderly, hunshared⟩ ⟨huncut, hvacant⟩ hstep
      exact ⟨horderly.step huncut hstep, hunshared.step horderly huncut hvacant hstep⟩
    have hintact : ∀ s, Orderly target s.runtime ∧ Unshared s → Intact s :=
      fun s h i hi => (h.2 i hi).1
    exact ⟨fun p hp => hintact _ (hall.1 p hp), hintact _ hall.2⟩

end Threads

end Lifetimes

end Chromatic
