import Chromatic.HookRuns
import Chromatic.SoftwareBreakpoint
import Chromatic.HardwareBreakpoint
import Chromatic.NativeCallback
import Chromatic.Foundation.Leases

/-!
# What callbacks run on

A thread that comes through a hook, a breakpoint or a native callback runs on a trampoline, a
relocated block and an entry, or on a closure and its `CallbackInfo`, until it has left. The
script's callbacks run in between, with no registry locked, and may call whatever they like.

§1 entries and their memory · §2 operations · §3 threads · §4 memory that grows ·
§5 memory that is freed · §6 what each operation takes down · §7 memory in use.
-/

namespace Chromatic

open Foundation NativeCallback

namespace Lifetimes

/-! ## §1  Entries and their memory -/

/-- What a thread comes through. -/
inductive Entry where
  | hook (e : HookEntry)
  | breakpoint (e : BreakpointEntry)
  | hwBreakpoint (e : HwBreakpointEntry)
  | callback (info : CallbackInfo)
deriving DecidableEq

/-- A block of `g_jitRuntime`, an object from `new` or a closure. -/
inductive Piece where
  | code (a : Addr)
  | object (a : Addr)
  | closure (a : Addr)
deriving DecidableEq, Repr

/-- There is nothing at a null pointer. -/
def codePieces (a : Addr) : List Piece := if a = 0 then [] else [.code a]

def jitPieces (trampolineCode relocatedCode self : Addr) : List Piece :=
  codePieces trampolineCode ++ codePieces relocatedCode ++ [.object self]

def Entry.pieces : Entry → List Piece
  | .hook e => jitPieces e.trampolineCode e.relocatedCode e.self
  | .breakpoint e => jitPieces e.trampolineCode e.relocatedCode e.self
  | .hwBreakpoint e => jitPieces e.trampolineCode e.relocatedCode e.self
  | .callback info => [.closure info.closure, .object info.self]

/-- The piece has been allocated and not yet freed. -/
def Alive (r : Runtime) : Piece → Prop
  | .code a => a ∈ r.world.jit
  | .object a => a ∈ r.world.heap
  | .closure a => a ∈ r.ffi.closures

/-- The entry is in the map of its registry. -/
def Registered (r : Runtime) : Entry → Prop
  | .hook e => ∃ id, r.world.hooks.hooksById.lookup id = some e
  | .breakpoint e => ∃ id, r.world.bp.bpById.lookup id = some e
  | .hwBreakpoint e => ∃ id, r.world.hw.hwById.lookup id = some e
  | .callback info => ∃ a, r.ffi.callbacks.lookup a = some info

instance (r : Runtime) (p : Piece) : Decidable (Alive r p) := by
  cases p <;> (unfold Alive; infer_instance)

/-! ## §2  Operations -/

inductive Op where
  | hook (c : Interceptor.Call)
  | detachAll (patch : Addr → PatchOutcome) (order : List (Σ _ : ℕ, HookEntry))
  | setBreakpoint (env : SoftwareBreakpoint.Install) (address : Addr) (onHit : Callback)
  | removeBreakpoint (patch : PatchOutcome) (bpId : ℕ)
  | removeAllBreakpoints (patch : Addr → PatchOutcome) (order : List (Σ _ : ℕ, BreakpointEntry))
  | setHardware (env : HardwareBreakpoint.Install) (address : Addr) (typeStr : String) (size : ℤ)
      (onHit : Callback)
  | removeHardware (bpId : ℕ)
  | removeAllHardware (order : List (Σ _ : ℕ, HwBreakpointEntry))
  | createCallback (env : NativeCallback.Install) (handler : Callback) (retType : String)
      (argTypes : List String) (abi : String)
  | destroyCallback (address : Addr)

def Op.exec (target : Target) : Op → Runtime → Runtime
  | .hook c, r => { r with world := c.exec target.arch r.world }
  | .detachAll patch order, r =>
      { r with world := (Interceptor.detachAll patch order r.world).2 }
  | .setBreakpoint env address onHit, r =>
      { r with world := (SoftwareBreakpoint.set target.arch env address onHit r.world).2 }
  | .removeBreakpoint patch bpId, r =>
      { r with world := (SoftwareBreakpoint.remove target.arch patch bpId r.world).2 }
  | .removeAllBreakpoints patch order, r =>
      { r with world := (SoftwareBreakpoint.removeAll target.arch patch order r.world).2 }
  | .setHardware env address typeStr size onHit, r =>
      { r with
        world := (HardwareBreakpoint.set target env address typeStr size onHit r.world).2 }
  | .removeHardware bpId, r => { r with world := HardwareBreakpoint.remove bpId r.world }
  | .removeAllHardware order, r => { r with world := HardwareBreakpoint.removeAll order r.world }
  | .createCallback env handler retType argTypes abi, r =>
      (NativeCallback.createCallback target env handler retType argTypes abi r).2
  | .destroyCallback address, r => NativeCallback.destroyCallback address r

/-- `new` and `g_jitRuntime` give out what is not in use. -/
def FreshBlocks (w : World) (self : Addr) (relocated : Except String (Addr × ℕ))
    (trampoline : Except String Addr) : Prop :=
  self ∉ w.heap ∧ (∀ r n, relocated = .ok (r, n) → r ∉ w.jit) ∧
    ∀ t, trampoline = .ok t → t ∉ w.jit ∧ ∀ r n, relocated = .ok (r, n) → t ≠ r

/-- Allocators give out what is not in use, and a loop goes over a map in some order. -/
def Op.Permitted (r : Runtime) : Op → Prop
  | .hook (.attach env _ _ _) => FreshBlocks r.world env.self env.relocated env.trampoline
  | .hook (.replace env _ _) => FreshBlocks r.world env.self env.relocated env.trampoline
  | .detachAll _ order => order.Perm r.world.hooks.hooksById.entries
  | .setBreakpoint env _ _ => FreshBlocks r.world env.self env.relocated env.trampoline
  | .removeAllBreakpoints _ order => order.Perm r.world.bp.bpById.entries
  | .setHardware env _ _ _ _ => FreshBlocks r.world env.self env.relocated env.trampoline
  | .removeAllHardware order => order.Perm r.world.hw.hwById.entries
  | .createCallback env _ _ _ _ => env.self ∉ r.world.heap ∧
      ∀ closure codeAddr, env.closure = some (closure, codeAddr) → closure ∉ r.ffi.closures
  | _ => True

/-- The operation brings in an entry, if anything. -/
def Op.installs : Op → Bool
  | .hook (.attach _ _ _ _) => true
  | .hook (.replace _ _ _) => true
  | .setBreakpoint _ _ _ => true
  | .setHardware _ _ _ _ _ => true
  | .createCallback _ _ _ _ _ => true
  | _ => false

/-- The entries that the operation is to take down. A protection change that is refused ends
the loops. -/
def Op.takenDown (r : Runtime) : Op → List Entry
  | .hook (.detach patch hookId) =>
      if patch = .ok then (r.world.hooks.hooksById.lookup hookId).toList.map .hook else []
  | .hook (.revert patch target) =>
      if patch = .ok then (r.world.hooks.hooksByTarget.lookup target).toList.map .hook else []
  | .detachAll patch order =>
      (order.takeWhile fun e => patch e.2.target = .ok).map fun e => .hook e.2
  | .removeBreakpoint patch bpId =>
      if patch = .ok then (r.world.bp.bpById.lookup bpId).toList.map .breakpoint else []
  | .removeAllBreakpoints patch order =>
      (order.takeWhile fun e => patch e.2.address = .ok).map fun e => .breakpoint e.2
  | .removeHardware bpId => (r.world.hw.hwById.lookup bpId).toList.map .hwBreakpoint
  | .removeAllHardware order => order.map fun e => .hwBreakpoint e.2
  | .destroyCallback address => (r.ffi.callbacks.lookup address).toList.map .callback
  | _ => []

/-! ## §3  Threads -/

/-- `active` are the entries that threads came through and have not yet left, once for each
time. -/
structure Process where
  runtime : Runtime
  active : List Entry

def Process.start (code : Memory) (disposition : Sig → SigAction) : Process :=
  ⟨.start code disposition, []⟩

inductive Label where
  | op (o : Op)
  | enter (e : Entry)
  | leave (e : Entry)

/-- Any thread may do anything at any time, in a callback or not. Threads come through entries
that are registered and not yet taken down. -/
inductive Step (target : Target) : Process → Label → Process → Prop
  | op {s o} (permitted : o.Permitted s.runtime) :
      Step target s (.op o) { s with runtime := o.exec target s.runtime }
  | enter {s e} (registered : Registered s.runtime e)
      (alive : ∀ p ∈ e.pieces, Alive s.runtime p) :
      Step target s (.enter e) { s with active := e :: s.active }
  | leave {s e} (active : e ∈ s.active) :
      Step target s (.leave e) { s with active := s.active.erase e }

/-! ## §4  Memory that grows -/

/-- No block and no object is listed twice. -/
structure Tidy (w : World) : Prop where
  jit : w.jit.Nodup
  heap : w.heap.Nodup

/-- What there was is there still. -/
structure Grown (w w' : World) : Prop where
  jit : w.jit ⊆ w'.jit
  heap : w.heap ⊆ w'.heap
  tidy : Tidy w'

section Growing

variable {w w' : World} {self relocatedCode trampolineCode : Addr}

theorem Tidy.congr (h : Tidy w) (hjit : w'.jit = w.jit) (hheap : w'.heap = w.heap) : Tidy w' :=
  ⟨hjit ▸ h.jit, hheap ▸ h.heap⟩

theorem Grown.congr {w'' : World} (h : Grown w w') (hjit : w''.jit = w'.jit)
    (hheap : w''.heap = w'.heap) : Grown w w'' :=
  ⟨hjit ▸ h.jit, hheap ▸ h.heap, h.tidy.congr hjit hheap⟩

theorem Grown.refl (h : Tidy w) : Grown w w := ⟨fun _ => id, fun _ => id, h⟩

theorem Grown.trans {w'' : World} (h : Grown w w') (h' : Grown w' w'') : Grown w w'' :=
  ⟨fun _ ha => h'.jit (h.jit ha), fun _ ha => h'.heap (h.heap ha), h'.tidy⟩

theorem Grown.allocate (h : Tidy w) (hself : self ∉ w.heap) : Grown w (w.allocate self) :=
  ⟨fun _ => id, fun _ => List.mem_cons_of_mem _, h.jit, List.nodup_cons.mpr ⟨hself, h.heap⟩⟩

theorem Grown.addCode (h : Tidy w) (hcode : relocatedCode ∉ w.jit) :
    Grown w (w.addCode relocatedCode) :=
  ⟨fun _ => List.mem_cons_of_mem _, fun _ => id, List.nodup_cons.mpr ⟨hcode, h.jit⟩, h.heap⟩

/-- A block that was not there before may go. -/
theorem Grown.releaseCode (h : Grown w w') (hcode : relocatedCode ≠ 0 → relocatedCode ∉ w.jit) :
    Grown w (w'.releaseCode relocatedCode) := by
  unfold World.releaseCode
  split_ifs with hnull
  · exact h
  · refine ⟨fun x hx => ?_, h.heap, h.tidy.jit.erase _, h.tidy.heap⟩
    exact (List.mem_erase_of_ne (ne_of_mem_of_not_mem hx (hcode hnull))).mpr (h.jit hx)

theorem Grown.delete (h : Grown w w') (hself : self ∉ w.heap) : Grown w (w'.delete self) := by
  refine ⟨h.jit, fun x hx => ?_, h.tidy.jit, h.tidy.heap.erase _⟩
  exact (List.mem_erase_of_ne (ne_of_mem_of_not_mem hx hself)).mpr (h.heap hx)

theorem ensureHandlerInstalled_memory (w : World) :
    (SoftwareBreakpoint.ensureHandlerInstalled w).jit = w.jit ∧
      (SoftwareBreakpoint.ensureHandlerInstalled w).heap = w.heap := by
  unfold SoftwareBreakpoint.ensureHandlerInstalled
  split <;> exact ⟨rfl, rfl⟩

theorem ensureHwHandlerInstalled_memory (w : World) :
    (HardwareBreakpoint.ensureHwHandlerInstalled w).jit = w.jit ∧
      (HardwareBreakpoint.ensureHwHandlerInstalled w).heap = w.heap := by
  unfold HardwareBreakpoint.ensureHwHandlerInstalled
  split <;> exact ⟨rfl, rfl⟩

theorem FreshBlocks.congr {relocated : Except String (Addr × ℕ)}
    {trampoline : Except String Addr} (h : FreshBlocks w self relocated trampoline)
    (hjit : w'.jit = w.jit) (hheap : w'.heap = w.heap) :
    FreshBlocks w' self relocated trampoline := by
  unfold FreshBlocks
  rw [hjit, hheap]
  exact h

theorem Grown.blocks (h : Tidy w) (hself : self ∉ w.heap) (hr : relocatedCode ∉ w.jit) :
    Grown w ((w.allocate self).addCode relocatedCode) :=
  (Grown.allocate h hself).trans (.addCode (Grown.allocate h hself).tidy hr)

theorem Grown.bothBlocks (h : Tidy w) (hself : self ∉ w.heap) (hr : relocatedCode ∉ w.jit)
    (ht : trampolineCode ∉ w.jit) (hne : trampolineCode ≠ relocatedCode) :
    Grown w (((w.allocate self).addCode relocatedCode).addCode trampolineCode) :=
  (Grown.blocks h hself hr).trans
    (.addCode (Grown.blocks h hself hr).tidy (List.not_mem_cons_of_ne_of_not_mem hne ht))

theorem grown_attach {arch : Arch} {env : Interceptor.Install} {target : Addr}
    {onEnter onLeave : Callback} (h : Tidy w)
    (hfresh : FreshBlocks w env.self env.relocated env.trampoline) :
    Grown w (Interceptor.attach arch env target onEnter onLeave w).2 := by
  obtain ⟨hself, hrelocated, htrampoline⟩ := hfresh
  unfold Interceptor.attach
  split
  · exact .refl h
  · dsimp only
    cases hr : env.relocated with
    | error e => exact (Grown.allocate h hself).delete hself
    | ok block =>
        cases ht : env.trampoline with
        | error e =>
            have hcode := hrelocated _ _ hr
            exact ((Grown.blocks h hself hcode).releaseCode fun _ => hcode).delete hself
        | ok t =>
            have hblocks := Grown.bothBlocks h hself (hrelocated _ _ hr) (htrampoline t ht).1
              ((htrampoline t ht).2 _ _ hr)
            dsimp only
            cases env.patch with
            | ok => exact hblocks.congr rfl rfl
            | rwDenied => exact hblocks
            | rxDenied => exact hblocks.congr rfl rfl

theorem grown_replace {arch : Arch} {env : Interceptor.Install} {target replacement : Addr}
    (h : Tidy w) (hfresh : FreshBlocks w env.self env.relocated env.trampoline) :
    Grown w (Interceptor.replace arch env target replacement w).2 := by
  obtain ⟨hself, hrelocated, -⟩ := hfresh
  unfold Interceptor.replace
  split
  · exact .refl h
  · dsimp only
    cases hr : env.relocated with
    | error e => exact (Grown.allocate h hself).delete hself
    | ok block =>
        have hblock := Grown.blocks h hself (hrelocated _ _ hr)
        dsimp only
        cases env.patch with
        | ok => exact hblock.congr rfl rfl
        | rwDenied => exact hblock
        | rxDenied => exact hblock.congr rfl rfl

theorem grown_setBreakpoint {arch : Arch} {env : SoftwareBreakpoint.Install} {address : Addr}
    {onHit : Callback} (h : Tidy w)
    (hfresh : FreshBlocks w env.self env.relocated env.trampoline) :
    Grown w (SoftwareBreakpoint.set arch env address onHit w).2 := by
  obtain ⟨hjit, hheap⟩ := ensureHandlerInstalled_memory w
  obtain ⟨hself, hrelocated, htrampoline⟩ := hfresh.congr hjit hheap
  have htidy := h.congr hjit hheap
  have hinstalled : Grown w (SoftwareBreakpoint.ensureHandlerInstalled w) :=
    (Grown.refl h).congr hjit hheap
  unfold SoftwareBreakpoint.set
  split
  · exact .refl h
  · refine hinstalled.trans ?_
    dsimp only
    cases hr : env.relocated with
    | error e => exact (Grown.allocate htidy hself).delete hself
    | ok block =>
        cases ht : env.trampoline with
        | error e =>
            have hcode := hrelocated _ _ hr
            exact ((Grown.blocks htidy hself hcode).releaseCode fun _ => hcode).delete hself
        | ok t =>
            have hblocks := Grown.bothBlocks htidy hself (hrelocated _ _ hr) (htrampoline t ht).1
              ((htrampoline t ht).2 _ _ hr)
            dsimp only
            cases env.patch with
            | ok => exact hblocks.congr rfl rfl
            | rwDenied => exact hblocks
            | rxDenied => exact hblocks.congr rfl rfl

/-- The blocks of a hardware breakpoint are null or new. -/
theorem buildBlocks_grown {env : HardwareBreakpoint.Install} {type : HwBpType} (h : Tidy w)
    (hfresh : FreshBlocks w env.self env.relocated env.trampoline) :
    Grown w (HardwareBreakpoint.buildBlocks env type (w.allocate env.self)).2 ∧
      ∀ r t, (HardwareBreakpoint.buildBlocks env type (w.allocate env.self)).1 = .ok (r, t) →
        (r ≠ 0 → r ∉ w.jit) ∧ (t ≠ 0 → t ∉ w.jit) := by
  obtain ⟨hself, hrelocated, htrampoline⟩ := hfresh
  unfold HardwareBreakpoint.buildBlocks
  split_ifs with htype
  · cases hr : env.relocated with
    | error e =>
        exact ⟨(Grown.allocate h hself).delete hself, fun _ _ heq => by cases heq⟩
    | ok block =>
        have hcode := hrelocated _ _ hr
        cases ht : env.trampoline with
        | error e =>
            exact ⟨((Grown.blocks h hself hcode).releaseCode fun _ => hcode).delete hself,
              fun _ _ heq => by cases heq⟩
        | ok t =>
            obtain ⟨htcode, hne⟩ := htrampoline t ht
            refine ⟨.bothBlocks h hself hcode htcode (hne _ _ hr), fun r' t' heq => ?_⟩
            obtain ⟨rfl, rfl⟩ := Prod.mk.inj (Except.ok.inj heq)
            exact ⟨fun _ => hcode, fun _ => htcode⟩
  · refine ⟨.allocate h hself, fun r' t' heq => ?_⟩
    obtain ⟨rfl, rfl⟩ := Prod.mk.inj (Except.ok.inj heq)
    exact ⟨fun hnull => absurd rfl hnull, fun hnull => absurd rfl hnull⟩

theorem grown_setHardware {target : Target} {env : HardwareBreakpoint.Install} {address : Addr}
    {typeStr : String} {size : ℤ} {onHit : Callback} (h : Tidy w)
    (hfresh : FreshBlocks w env.self env.relocated env.trampoline) :
    Grown w (HardwareBreakpoint.set target env address typeStr size onHit w).2 := by
  obtain ⟨hjit, hheap⟩ := ensureHwHandlerInstalled_memory w
  have hfresh' := hfresh.congr hjit hheap
  have hinstalled : Grown w (HardwareBreakpoint.ensureHwHandlerInstalled w) :=
    (Grown.refl h).congr hjit hheap
  unfold HardwareBreakpoint.set
  split
  · exact .refl h
  · cases HardwareBreakpoint.parseType typeStr with
    | error e => exact .refl h
    | ok type =>
        dsimp only
        split
        · exact .refl h
        · split
          · exact .refl h
          · refine hinstalled.trans ?_
            obtain ⟨hgrown, hblocks⟩ := @buildBlocks_grown _ env type hinstalled.tidy hfresh'
            generalize HardwareBreakpoint.buildBlocks env type
              ((HardwareBreakpoint.ensureHwHandlerInstalled w).allocate env.self) = built at *
            obtain ⟨answer, w'⟩ := built
            cases answer with
            | error e => exact hgrown
            | ok blocks =>
                obtain ⟨hr, ht⟩ := hblocks _ _ rfl
                dsimp only
                cases HardwareBreakpoint.arm target.os address type size env.perfFd w'.hw with
                | mk armed hw =>
                    cases armed with
                    | error e => exact ((hgrown.releaseCode ht).releaseCode hr).delete hfresh'.1
                    | ok _ => exact hgrown.congr rfl rfl

end Growing

/-! ## §5  Memory that is freed -/

/-- These pieces are gone, and no others. -/
structure Frees (ps : List Piece) (w w' : World) : Prop where
  jit : ∀ a, a ∈ w'.jit ↔ a ∈ w.jit ∧ Piece.code a ∉ ps
  heap : ∀ a, a ∈ w'.heap ↔ a ∈ w.heap ∧ Piece.object a ∉ ps
  tidy : Tidy w'

section Freeing

variable {w w' w'' : World} {ps qs : List Piece}

theorem Frees.refl (h : Tidy w) : Frees [] w w := ⟨by simp, by simp, h⟩

theorem Frees.congr (h : Frees ps w w') (hjit : w''.jit = w'.jit) (hheap : w''.heap = w'.heap) :
    Frees ps w w'' :=
  ⟨hjit ▸ h.jit, hheap ▸ h.heap, h.tidy.congr hjit hheap⟩

theorem Frees.trans (h : Frees ps w w') (h' : Frees qs w' w'') : Frees (ps ++ qs) w w'' where
  jit a := by rw [h'.jit, h.jit, List.mem_append, not_or, and_assoc]
  heap a := by rw [h'.heap, h.heap, List.mem_append, not_or, and_assoc]
  tidy := h'.tidy

theorem mem_codePieces {p : Piece} {a : Addr} : p ∈ codePieces a ↔ a ≠ 0 ∧ p = .code a := by
  unfold codePieces
  split_ifs with hnull
  · simp [hnull]
  · rw [List.mem_singleton]
    exact ⟨fun h => ⟨hnull, h⟩, And.right⟩

theorem Frees.releaseCode (h : Tidy w) (a : Addr) :
    Frees (codePieces a) w (w.releaseCode a) := by
  unfold World.releaseCode
  split_ifs with hnull
  · have hnone : codePieces a = [] := if_pos hnull
    exact hnone ▸ .refl h
  · refine ⟨fun b => ?_, fun b => by simp [mem_codePieces], h.jit.erase a, h.heap⟩
    change b ∈ w.jit.erase a ↔ _
    rw [h.jit.mem_erase_iff, mem_codePieces, Piece.code.injEq, and_comm]
    exact and_congr_right fun _ => ⟨fun hne heq => hne heq.2, fun hne heq => hne ⟨hnull, heq⟩⟩

theorem Frees.delete (h : Tidy w) (a : Addr) : Frees [.object a] w (w.delete a) := by
  refine ⟨fun b => by simp [World.delete], fun b => ?_, h.jit, h.heap.erase a⟩
  change b ∈ w.heap.erase a ↔ _
  rw [h.heap.mem_erase_iff]
  simp [and_comm]

/-- `releaseCode` on both blocks, then `delete`. -/
theorem Frees.entry (h : Tidy w) (trampolineCode relocatedCode self : Addr) :
    Frees (jitPieces trampolineCode relocatedCode self) w
      (((w.releaseCode trampolineCode).releaseCode relocatedCode).delete self) := by
  have ht := Frees.releaseCode h trampolineCode
  have hr := ht.trans (.releaseCode ht.tidy relocatedCode)
  exact hr.trans (.delete hr.tidy self)

/-- The same after the saved bytes are written back. -/
theorem Frees.entry_restored (h : Tidy w) (code : Memory)
    (trampolineCode relocatedCode self : Addr) :
    Frees (jitPieces trampolineCode relocatedCode self) w
      (((({ w with code := code } : World).releaseCode trampolineCode).releaseCode
        relocatedCode).delete self) := by
  have hfrees := @Frees.entry { w with code := code } ⟨h.jit, h.heap⟩ trampolineCode
    relocatedCode self
  exact ⟨hfrees.jit, hfrees.heap, hfrees.tidy⟩

theorem maybeRemoveHandler_memory (w : World) :
    (SoftwareBreakpoint.maybeRemoveHandler w).jit = w.jit ∧
      (SoftwareBreakpoint.maybeRemoveHandler w).heap = w.heap := by
  unfold SoftwareBreakpoint.maybeRemoveHandler
  split <;> exact ⟨rfl, rfl⟩

theorem maybeRemoveHwHandler_memory (w : World) :
    (HardwareBreakpoint.maybeRemoveHwHandler w).jit = w.jit ∧
      (HardwareBreakpoint.maybeRemoveHwHandler w).heap = w.heap := by
  unfold HardwareBreakpoint.maybeRemoveHwHandler
  split <;> exact ⟨rfl, rfl⟩

/-- What the entries of a list are made of. -/
def piecesOf (es : List Entry) : List Piece := es.flatMap Entry.pieces

/-- A loop of `detachAll` ends at the first refused protection change. -/
theorem frees_restoreHooks (patch : Addr → PatchOutcome) (order : List (Σ _ : ℕ, HookEntry))
    (h : Tidy w) :
    Frees (piecesOf ((order.takeWhile fun e => patch e.2.target = .ok).map fun e => .hook e.2)) w
      (Interceptor.restoreAll patch order w).2 := by
  induction order generalizing w with
  | nil => exact .refl h
  | cons e rest ih =>
      unfold Interceptor.restoreAll Interceptor.restore
      cases hpatch : patch e.2.target with
      | ok =>
          have hentry := Frees.entry_restored h
            (writeBytes w.code e.2.target (e.2.originalBytes.take e.2.patchSize))
            e.2.trampolineCode e.2.relocatedCode e.2.self
          simp only [makeWritableAndPatch_ok, List.takeWhile_cons, hpatch, decide_true, if_true,
            List.map_cons, piecesOf, List.flatMap_cons]
          exact hentry.trans (ih hentry.tidy)
      | rwDenied => simpa [hpatch, piecesOf, makeWritableAndPatch] using Frees.refl h
      | rxDenied =>
          have hsame : ∀ code, Frees [] w { w with code := code } :=
            fun code => (Frees.refl h).congr rfl rfl
          simpa [hpatch, piecesOf, makeWritableAndPatch] using hsame _

theorem frees_restoreBreakpoints (arch : Arch) (patch : Addr → PatchOutcome)
    (order : List (Σ _ : ℕ, BreakpointEntry)) (h : Tidy w) :
    Frees (piecesOf ((order.takeWhile fun e => patch e.2.address = .ok).map
      fun e => .breakpoint e.2)) w (SoftwareBreakpoint.restoreAll arch patch order w).2 := by
  induction order generalizing w with
  | nil => exact .refl h
  | cons e rest ih =>
      unfold SoftwareBreakpoint.restoreAll
      cases hpatch : patch e.2.address with
      | ok =>
          have hentry := Frees.entry_restored h
            (writeBytes w.code e.2.address (e.2.originalBytes.take arch.bpInsnSize))
            e.2.trampolineCode e.2.relocatedCode e.2.self
          simp only [makeWritableAndPatch_ok, List.takeWhile_cons, hpatch, decide_true, if_true,
            List.map_cons, piecesOf, List.flatMap_cons]
          exact hentry.trans (ih hentry.tidy)
      | rwDenied => simpa [hpatch, piecesOf, makeWritableAndPatch] using Frees.refl h
      | rxDenied =>
          have hsame : ∀ code, Frees [] w { w with code := code } :=
            fun code => (Frees.refl h).congr rfl rfl
          simpa [hpatch, piecesOf, makeWritableAndPatch] using hsame _

theorem frees_hwEntry (h : Tidy w) (e : HwBreakpointEntry) :
    Frees (Entry.hwBreakpoint e).pieces w (HardwareBreakpoint.releaseEntry e w) := by
  have hfrees := fun used => @Frees.entry { w with hw := { w.hw with usedSlots := used } }
    ⟨h.jit, h.heap⟩ e.trampolineCode e.relocatedCode e.self
  unfold HardwareBreakpoint.releaseEntry
  exact ⟨(hfrees _).jit, (hfrees _).heap, (hfrees _).tidy⟩

theorem frees_releaseHardware (order : List (Σ _ : ℕ, HwBreakpointEntry)) (h : Tidy w) :
    Frees (piecesOf (order.map fun e => .hwBreakpoint e.2)) w
      (HardwareBreakpoint.releaseAll order w) := by
  induction order generalizing w with
  | nil => exact .refl h
  | cons e rest ih => exact (frees_hwEntry h e.2).trans (ih (frees_hwEntry h e.2).tidy)

end Freeing

/-! ## §6  What each operation takes down -/

section Operations

variable {w : World} {r : Runtime} {target : Target} {o : Op}

theorem piecesOf_lookup {α : Type} (e : α) (entry : α → Entry) :
    piecesOf ((some e).toList.map entry) = (entry e).pieces :=
  List.append_nil _

theorem frees_detach (patch : PatchOutcome) (hookId : ℕ) (h : Tidy w) :
    Frees (piecesOf (if patch = .ok then
        (w.hooks.hooksById.lookup hookId).toList.map .hook else [])) w
      (Interceptor.detach patch hookId w).2 := by
  unfold Interceptor.detach Interceptor.restore
  cases w.hooks.hooksById.lookup hookId with
  | none =>
      rw [Option.toList_none, List.map_nil, ite_self]
      exact .refl h
  | some e =>
      cases patch with
      | ok =>
          have hentry := Frees.entry_restored h
            (writeBytes w.code e.target (e.originalBytes.take e.patchSize))
            e.trampolineCode e.relocatedCode e.self
          rw [if_pos rfl, piecesOf_lookup]
          exact hentry.congr rfl rfl
      | rwDenied => exact .refl h
      | rxDenied => exact (Frees.refl h).congr rfl rfl

theorem frees_revert (patch : PatchOutcome) (t : Addr) (h : Tidy w) :
    Frees (piecesOf (if patch = .ok then
        (w.hooks.hooksByTarget.lookup t).toList.map .hook else [])) w
      (Interceptor.revert patch t w).2 := by
  unfold Interceptor.revert Interceptor.restore
  cases w.hooks.hooksByTarget.lookup t with
  | none =>
      rw [Option.toList_none, List.map_nil, ite_self]
      exact .refl h
  | some e =>
      cases patch with
      | ok =>
          have hentry := Frees.entry_restored h
            (writeBytes w.code e.target (e.originalBytes.take e.patchSize))
            e.trampolineCode e.relocatedCode e.self
          rw [if_pos rfl, piecesOf_lookup]
          exact hentry.congr rfl rfl
      | rwDenied => exact .refl h
      | rxDenied => exact (Frees.refl h).congr rfl rfl

theorem frees_detachAll (patch : Addr → PatchOutcome) (order : List (Σ _ : ℕ, HookEntry))
    (h : Tidy w) :
    Frees (piecesOf ((order.takeWhile fun e => patch e.2.target = .ok).map fun e => .hook e.2)) w
      (Interceptor.detachAll patch order w).2 := by
  have hloop := frees_restoreHooks patch order h
  unfold Interceptor.detachAll
  generalize Interceptor.restoreAll patch order w = result at *
  obtain ⟨answer, w'⟩ := result
  cases answer with
  | error e => exact hloop
  | ok _ => exact hloop.congr rfl rfl

theorem frees_removeBreakpoint (arch : Arch) (patch : PatchOutcome) (bpId : ℕ) (h : Tidy w) :
    Frees (piecesOf (if patch = .ok then
        (w.bp.bpById.lookup bpId).toList.map .breakpoint else [])) w
      (SoftwareBreakpoint.remove arch patch bpId w).2 := by
  unfold SoftwareBreakpoint.remove
  cases w.bp.bpById.lookup bpId with
  | none =>
      rw [Option.toList_none, List.map_nil, ite_self]
      exact .refl h
  | some e =>
      cases patch with
      | ok =>
          have hentry := Frees.entry_restored h
            (writeBytes w.code e.address (e.originalBytes.take arch.bpInsnSize))
            e.trampolineCode e.relocatedCode e.self
          obtain ⟨hjit, hheap⟩ := maybeRemoveHandler_memory _
          rw [if_pos rfl, piecesOf_lookup]
          exact hentry.congr hjit hheap
      | rwDenied => exact .refl h
      | rxDenied => exact (Frees.refl h).congr rfl rfl

theorem frees_removeAllBreakpoints (arch : Arch) (patch : Addr → PatchOutcome)
    (order : List (Σ _ : ℕ, BreakpointEntry)) (h : Tidy w) :
    Frees (piecesOf ((order.takeWhile fun e => patch e.2.address = .ok).map
      fun e => .breakpoint e.2)) w (SoftwareBreakpoint.removeAll arch patch order w).2 := by
  have hloop := frees_restoreBreakpoints arch patch order h
  unfold SoftwareBreakpoint.removeAll
  generalize SoftwareBreakpoint.restoreAll arch patch order w = result at *
  obtain ⟨answer, w'⟩ := result
  cases answer with
  | error e => exact hloop
  | ok _ =>
      obtain ⟨hjit, hheap⟩ := maybeRemoveHandler_memory _
      exact hloop.congr hjit hheap

theorem frees_removeHardware (bpId : ℕ) (h : Tidy w) :
    Frees (piecesOf ((w.hw.hwById.lookup bpId).toList.map .hwBreakpoint)) w
      (HardwareBreakpoint.remove bpId w) := by
  unfold HardwareBreakpoint.remove
  cases w.hw.hwById.lookup bpId with
  | none => exact .refl h
  | some e =>
      obtain ⟨hjit, hheap⟩ := maybeRemoveHwHandler_memory _
      rw [piecesOf_lookup]
      exact (frees_hwEntry h e).congr hjit hheap

theorem frees_removeAllHardware (order : List (Σ _ : ℕ, HwBreakpointEntry)) (h : Tidy w) :
    Frees (piecesOf (order.map fun e => .hwBreakpoint e.2)) w
      (HardwareBreakpoint.removeAll order w) := by
  obtain ⟨hjit, hheap⟩ := maybeRemoveHwHandler_memory _
  exact (frees_releaseHardware order h).congr hjit hheap

/-- Nothing is listed twice. -/
structure TidyRuntime (r : Runtime) : Prop where
  world : Tidy r.world
  closures : r.ffi.closures.Nodup

theorem TidyRuntime.start (code : Memory) (disposition : Sig → SigAction) :
    TidyRuntime (.start code disposition) :=
  ⟨⟨List.nodup_nil, List.nodup_nil⟩, List.nodup_nil⟩

theorem alive_of_grown (h : Grown r.world w) :
    ∀ p, Alive r p → Alive { r with world := w } p
  | .code _ => fun ha => h.jit ha
  | .object _ => fun ha => h.heap ha
  | .closure _ => id

theorem alive_of_frees {ps : List Piece} (h : Frees ps r.world w)
    (hclosure : ∀ a, Piece.closure a ∉ ps) :
    ∀ p, Alive { r with world := w } p ↔ Alive r p ∧ p ∉ ps
  | .code a => h.jit a
  | .object a => h.heap a
  | .closure a => ⟨fun ha => ⟨ha, hclosure a⟩, And.left⟩

theorem closure_notMem_jitPieces (a trampolineCode relocatedCode self : Addr) :
    Piece.closure a ∉ jitPieces trampolineCode relocatedCode self := by
  simp [jitPieces, mem_codePieces]

theorem mem_piecesOf {es : List Entry} {p : Piece} :
    p ∈ piecesOf es ↔ ∃ e ∈ es, p ∈ e.pieces :=
  List.mem_flatMap

/-- Only callbacks have closures. -/
theorem closure_notMem_piecesOf {α : Type} {entry : α → Entry}
    (h : ∀ e a, Piece.closure a ∉ (entry e).pieces) (l : List α) (a : Addr) :
    Piece.closure a ∉ piecesOf (l.map entry) := by
  rw [mem_piecesOf]
  rintro ⟨e, he, ha⟩
  obtain ⟨e', -, rfl⟩ := List.mem_map.mp he
  exact h e' a ha

theorem createCallback_grown {env : NativeCallback.Install} {handler : Callback}
    {retType abi : String} {argTypes : List String} (h : TidyRuntime r)
    (hself : env.self ∉ r.world.heap)
    (hclosure : ∀ closure codeAddr, env.closure = some (closure, codeAddr) →
      closure ∉ r.ffi.closures) :
    TidyRuntime (createCallback target env handler retType argTypes abi r).2 ∧
      ∀ p, Alive r p → Alive (createCallback target env handler retType argTypes abi r).2 p := by
  have hnew := Grown.allocate h.world hself
  have hgone := hnew.delete hself
  unfold createCallback
  dsimp only
  split
  · exact ⟨⟨hgone.tidy, h.closures⟩, alive_of_grown hgone⟩
  · cases hc : env.closure with
    | none => exact ⟨⟨hgone.tidy, h.closures⟩, alive_of_grown hgone⟩
    | some found =>
        dsimp only
        split
        · rw [List.erase_cons_head]
          exact ⟨⟨hgone.tidy, h.closures⟩, alive_of_grown hgone⟩
        · refine ⟨⟨hnew.tidy, List.nodup_cons.mpr ⟨hclosure _ _ hc, h.closures⟩⟩, ?_⟩
          rintro (a | a | a) ha
          · exact hnew.jit ha
          · exact hnew.heap ha
          · exact List.mem_cons_of_mem _ ha

theorem destroyCallback_frees (address : Addr) (h : TidyRuntime r) :
    TidyRuntime (destroyCallback address r) ∧ ∀ p, Alive (destroyCallback address r) p ↔
      Alive r p ∧ p ∉ piecesOf ((r.ffi.callbacks.lookup address).toList.map .callback) := by
  unfold destroyCallback
  cases r.ffi.callbacks.lookup address with
  | none => exact ⟨h, fun p => by simp [piecesOf]⟩
  | some info =>
      have hfree := Frees.delete h.world info.self
      rw [piecesOf_lookup]
      refine ⟨⟨hfree.tidy, h.closures.erase _⟩, ?_⟩
      rintro (a | a | a)
      · simpa [Entry.pieces, Alive] using hfree.jit a
      · simpa [Entry.pieces, Alive] using hfree.heap a
      · change a ∈ r.ffi.closures.erase info.closure ↔ _
        rw [h.closures.mem_erase_iff, and_comm]
        simp [Entry.pieces, Alive]

/-- Installations leave alone what there is. -/
theorem exec_grows (h : TidyRuntime r) (hpermitted : o.Permitted r) (ho : o.installs = true) :
    TidyRuntime (o.exec target r) ∧ ∀ p, Alive r p → Alive (o.exec target r) p := by
  have hworld : ∀ {w}, Grown r.world w → TidyRuntime { r with world := w } ∧
      ∀ p, Alive r p → Alive { r with world := w } p :=
    fun hgrown => ⟨⟨hgrown.tidy, h.closures⟩, alive_of_grown hgrown⟩
  cases o with
  | hook c =>
      cases c with
      | attach env target onEnter onLeave => exact hworld (grown_attach h.world hpermitted)
      | replace env target replacement => exact hworld (grown_replace h.world hpermitted)
      | detach | revert => cases ho
  | setBreakpoint env address onHit => exact hworld (grown_setBreakpoint h.world hpermitted)
  | setHardware env address typeStr size onHit =>
      exact hworld (grown_setHardware h.world hpermitted)
  | createCallback env handler retType argTypes abi =>
      exact createCallback_grown h hpermitted.1 hpermitted.2
  | detachAll | removeBreakpoint | removeAllBreakpoints | removeHardware | removeAllHardware
    | destroyCallback => cases ho

/-- Removals free what the entries taken down are made of, and nothing else. -/
theorem exec_frees (h : TidyRuntime r) (ho : o.installs = false) :
    TidyRuntime (o.exec target r) ∧
      ∀ p, Alive (o.exec target r) p ↔ Alive r p ∧ p ∉ piecesOf (o.takenDown r) := by
  have hworld : ∀ {w ps}, Frees ps r.world w → (∀ a, Piece.closure a ∉ ps) →
      TidyRuntime { r with world := w } ∧
        ∀ p, Alive { r with world := w } p ↔ Alive r p ∧ p ∉ ps :=
    fun hfrees hclosure => ⟨⟨hfrees.tidy, h.closures⟩, alive_of_frees hfrees hclosure⟩
  have hlookup : ∀ {α : Type} {entry : α → Entry} (patch : PatchOutcome) (l : List α),
      (∀ e a, Piece.closure a ∉ (entry e).pieces) →
      ∀ a, Piece.closure a ∉ piecesOf (if patch = .ok then l.map entry else []) := by
    intro α entry patch l hentry a
    split
    · exact closure_notMem_piecesOf hentry l a
    · exact List.not_mem_nil
  have hjit : ∀ {α : Type} (t c self : α → Addr) (e : α) (a : Addr),
      Piece.closure a ∉ jitPieces (t e) (c e) (self e) :=
    fun t c self e a => closure_notMem_jitPieces _ _ _ _
  cases o with
  | hook c =>
      cases c with
      | attach | replace => cases ho
      | detach patch hookId =>
          exact hworld (frees_detach patch hookId h.world) (hlookup _ _ (hjit _ _ _))
      | revert patch t =>
          exact hworld (frees_revert patch t h.world) (hlookup _ _ (hjit _ _ _))
  | detachAll patch order =>
      exact hworld (frees_detachAll patch order h.world)
        (closure_notMem_piecesOf (hjit _ _ _) _)
  | removeBreakpoint patch bpId =>
      exact hworld (frees_removeBreakpoint target.arch patch bpId h.world)
        (hlookup _ _ (hjit _ _ _))
  | removeAllBreakpoints patch order =>
      exact hworld (frees_removeAllBreakpoints target.arch patch order h.world)
        (closure_notMem_piecesOf (hjit _ _ _) _)
  | removeHardware bpId =>
      exact hworld (frees_removeHardware bpId h.world) (closure_notMem_piecesOf (hjit _ _ _) _)
  | removeAllHardware order =>
      exact hworld (frees_removeAllHardware order h.world)
        (closure_notMem_piecesOf (hjit _ _ _) _)
  | destroyCallback address => exact destroyCallback_frees address h
  | setBreakpoint | setHardware | createCallback => cases ho

end Operations

/-! ## §7  Memory in use -/

/-- Threads hold what they came through. -/
def leases (s : Process) : Leases Piece where
  live := {p | Alive s.runtime p}
  held := s.active.map fun e => {p | p ∈ e.pieces}

/-- An operation either brings in memory or frees it. -/
def move (target : Target) (s : Process) : Label → Move Piece
  | .op o =>
      if o.installs then .acquire {p | Alive (o.exec target s.runtime) p}
      else .release {p | p ∈ piecesOf (o.takenDown s.runtime)}
  | .enter e => .enter {p | p ∈ e.pieces}
  | .leave e => .leave {p | p ∈ e.pieces}

/-- What threads came through and have not left is all there. -/
def Intact (s : Process) : Prop := ∀ e ∈ s.active, ∀ p ∈ e.pieces, Alive s.runtime p

/-- The operation takes down no entry that has memory in common with one that a thread is in. -/
def Unused (s : Process) : Label → Prop
  | .op o => ∀ e ∈ o.takenDown s.runtime, ∀ i ∈ s.active, i.pieces.Disjoint e.pieces
  | _ => True

section InUse

variable {target : Target} {s u : Process} {l : Label} {tr : List (Process × Label)}

theorem honoured_iff : (leases s).Honoured ↔ Intact s := List.forall_mem_map

theorem takenDown_of_installs {r : Runtime} {o : Op} (ho : o.installs = true) :
    o.takenDown r = [] := by
  cases o with
  | hook c =>
      cases c with
      | attach | replace => rfl
      | detach | revert => cases ho
  | setBreakpoint | setHardware | createCallback => rfl
  | detachAll | removeBreakpoint | removeAllBreakpoints | removeHardware | removeAllHardware
    | destroyCallback => cases ho

theorem move_of_installs {o : Op} (ho : o.installs = true) :
    move target s (.op o) = .acquire {p | Alive (o.exec target s.runtime) p} :=
  if_pos ho

theorem move_of_removes {o : Op} (ho : o.installs = false) :
    move target s (.op o) = .release {p | p ∈ piecesOf (o.takenDown s.runtime)} :=
  if_neg (by rw [ho]; exact Bool.false_ne_true)

theorem spares_iff : (leases s).Spares (move target s l) ↔ Unused s l := by
  cases l with
  | enter e => exact Iff.rfl
  | leave e => exact Iff.rfl
  | op o =>
      change _ ↔ ∀ e ∈ o.takenDown s.runtime, ∀ i ∈ s.active, i.pieces.Disjoint e.pieces
      cases ho : o.installs with
      | true =>
          rw [move_of_installs ho, takenDown_of_installs ho]
          exact ⟨fun _ _ he => absurd he List.not_mem_nil, fun _ => trivial⟩
      | false =>
          rw [move_of_removes ho]
          refine List.forall_mem_map.trans ⟨?_, ?_⟩
          · intro h e he i hi p hp hp'
            exact Set.disjoint_left.mp (h i hi) hp (mem_piecesOf.mpr ⟨e, he, hp'⟩)
          · intro h i hi
            refine Set.disjoint_left.mpr fun p hp hp' => ?_
            obtain ⟨e, he, hpe⟩ := mem_piecesOf.mp hp'
            exact h e he i hi hp hpe

theorem TidyRuntime.step (h : TidyRuntime s.runtime) (hstep : Step target s l u) :
    TidyRuntime u.runtime := by
  cases hstep with
  | @op o hpermitted =>
      cases ho : o.installs with
      | true => exact (exec_grows h hpermitted ho).1
      | false => exact (exec_frees h ho).1
  | enter | leave => exact h

/-- Every step of the process is one of the leases on its memory. -/
theorem step_leases (h : TidyRuntime s.runtime) (hstep : Step target s l u) :
    Leases.Step (leases s) (move target s l) (leases u) := by
  cases hstep with
  | @op o hpermitted =>
      cases ho : o.installs with
      | true =>
          have hsub : {p | Alive s.runtime p} ⊆ {p | Alive (o.exec target s.runtime) p} :=
            (exec_grows h hpermitted ho).2
          have hmove := @Leases.Step.acquire _ (leases s) {p | Alive (o.exec target s.runtime) p}
          rw [leases, Set.union_eq_self_of_subset_left hsub] at hmove
          exact move_of_installs ho ▸ hmove
      | false =>
          have hmove := @Leases.Step.release _ (leases s)
            {p | p ∈ piecesOf (o.takenDown s.runtime)}
          have hlive : {p | Alive s.runtime p} \ {p | p ∈ piecesOf (o.takenDown s.runtime)} =
              {p | Alive (o.exec target s.runtime) p} :=
            Set.ext fun p => ((exec_frees h ho).2 p).symm
          rw [leases, hlive] at hmove
          exact move_of_removes ho ▸ hmove
  | @enter e hregistered halive => exact .enter halive
  | @leave e hactive =>
      obtain ⟨front, back, -, hsplit, herase⟩ := List.exists_erase_eq hactive
      have hafter : leases { s with active := s.active.erase e } =
          { leases s with
            held := front.map (fun e => {p | p ∈ e.pieces}) ++
              back.map fun e => {p | p ∈ e.pieces} } := by
        unfold leases
        rw [herase, List.map_append]
      rw [hafter]
      refine .leave ?_
      unfold leases
      rw [hsplit, List.map_append, List.map_cons]

theorem run_leases {code : Memory} {disposition : Sig → SigAction}
    (run : Run (Step target) (.start code disposition) tr s) :
    Run Leases.Step (leases (.start code disposition))
      (tr.map fun p => (leases p.1, move target p.1 p.2)) (leases s) :=
  run.map leases (move target) (TidyRuntime.start code disposition)
    (fun _ _ _ h hstep => h.step hstep) (fun _ _ _ h hstep => step_leases h hstep)

/-- **Memory in use.** What threads came through stays there until they have left, throughout
a run, exactly when no operation of the run takes down an entry in use. -/
theorem intact_throughout_iff {code : Memory} {disposition : Sig → SigAction}
    (run : Run (Step target) (.start code disposition) tr s) :
    Throughout Intact tr s ↔ Guarded Unused tr := by
  have hiff := Leases.honoured_throughout_iff (fun _ h => absurd h List.not_mem_nil)
    (run_leases run)
  rw [throughout_map, guarded_map] at hiff
  simpa only [Function.comp_def, honoured_iff, spares_iff] using hiff

section Concrete

def x64Linux : Target := ⟨.x64, .linux⟩

def fresh : Process := .start (fun _ => 0x90) defaultActions

def atFunction : Interceptor.Install :=
  { self := 0x5000, relocated := .ok (0x6000, 14), trampoline := .ok 0x7000, patch := .ok }

def attachHook : Op := .hook (.attach atFunction 0x1000 0 1)

def hooked : Process := { fresh with runtime := attachHook.exec x64Linux fresh.runtime }

def hook : Entry :=
  .hook ⟨0x5000, 0x1000, 0x7000, 0x6000, readBytes (fun _ => 0x90) 0x1000 14, 14, some 0, some 1⟩

/-- A thread has called the hooked function. -/
def called : Process := { hooked with active := [hook] }

theorem step_attachHook : Step x64Linux fresh (.op attachHook) hooked :=
  .op ⟨List.not_mem_nil, fun _ _ _ => List.not_mem_nil, fun t ht => ⟨List.not_mem_nil, by
    rintro r n ⟨⟩
    cases ht
    decide⟩⟩

theorem run_called : Run (Step x64Linux) fresh [(fresh, .op attachHook), (hooked, .enter hook)]
    called := by
  have henter : Step x64Linux hooked (.enter hook) called := .enter ⟨1, rfl⟩ (by decide)
  exact (Run.nil.snoc step_attachHook).snoc henter

def atOther : Interceptor.Install :=
  { self := 0x5800, relocated := .ok (0x6800, 14), trampoline := .ok 0x7800, patch := .ok }

def attachOther : Op := .hook (.attach atOther 0x2000 2 3)

def otherHook : Entry :=
  .hook ⟨0x5800, 0x2000, 0x7800, 0x6800, readBytes (fun _ => 0x90) 0x2000 14, 14, some 2, some 3⟩

/-- A second hook, attached while the thread is in the first and detached again. -/
def bothHooked : Process :=
  { called with runtime := attachOther.exec x64Linux called.runtime }

def otherDetached : Process :=
  { called with runtime := (Op.hook (.detach .ok 2)).exec x64Linux bothHooked.runtime }

def traceDetached : List (Process × Label) :=
  [(fresh, .op attachHook), (hooked, .enter hook), (called, .op attachOther),
    (bothHooked, .op (.hook (.detach .ok 2)))]

theorem fresh_attachOther : attachOther.Permitted called.runtime := by
  refine ⟨by decide, ?_, ?_⟩
  · rintro r n ⟨⟩
    decide
  · rintro t ⟨⟩
    refine ⟨by decide, ?_⟩
    rintro r n ⟨⟩
    decide

theorem run_otherDetached : Run (Step x64Linux) fresh traceDetached otherDetached := by
  have hattach : Step x64Linux called (.op attachOther) bothHooked := .op fresh_attachOther
  have hdetach : Step x64Linux bothHooked (.op (.hook (.detach .ok 2))) otherDetached := .op trivial
  exact (run_called.snoc hattach).snoc hdetach

theorem takenDown_other :
    (Op.hook (.detach .ok 2)).takenDown bothHooked.runtime = [otherHook] := rfl

theorem intact_otherDetached : Throughout Intact traceDetached otherDetached :=
  (intact_throughout_iff run_otherDetached).mpr (by
    intro p hp
    simp only [traceDetached, List.mem_cons, List.not_mem_nil, or_false] at hp
    rcases hp with rfl | rfl | rfl | rfl
    · exact fun e he => absurd he List.not_mem_nil
    · trivial
    · exact fun e he => absurd he List.not_mem_nil
    · intro e he i hi
      obtain rfl := List.mem_singleton.mp (takenDown_other ▸ he)
      obtain rfl := List.mem_singleton.mp hi
      rw [List.disjoint_left]
      decide)

/-- `onEnter` detaches its own hook: the trampoline it is to return to is gone. -/
theorem detaches_itself : ∃ tr s, Run (Step x64Linux) fresh tr s ∧
    tr.map Prod.snd = [.op attachHook, .enter hook, .op (.hook (.detach .ok 1))] ∧
    hook ∈ s.active ∧ Piece.code 0x7000 ∈ hook.pieces ∧ ¬ Alive s.runtime (.code 0x7000) ∧
    ¬ Intact s := by
  have hdetach : Step x64Linux called (.op (.hook (.detach .ok 1))) _ := .op trivial
  have hgone : ¬ Alive ((Op.hook (.detach .ok 1)).exec x64Linux called.runtime)
      (.code 0x7000) := by
    decide
  have hpiece : Piece.code 0x7000 ∈ hook.pieces := by decide
  exact ⟨_, _, run_called.snoc hdetach, rfl, List.mem_singleton_self _, hpiece, hgone,
    fun h => hgone (h hook (List.mem_singleton_self _) _ hpiece)⟩

end Concrete

end InUse

end Lifetimes

end Chromatic
