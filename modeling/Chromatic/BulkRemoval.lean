import Chromatic.Ownership

/-!
# Bulk removals that fail

`NativeInterceptor::detachAll` and `NativeSoftwareBreakpoint::removeAll` delete the entries one
by one and clear the maps at the end. What is left when a protection change is refused on the
way.

§1 bulk removals · §2 usable registries · §3 entries that are live · §4 operations keep them so ·
§5 a call that goes through · §6 a call that fails · §7 runs · §8 two hooks.
-/

namespace Chromatic

open Foundation Lifetimes
open NativeCallback (Runtime)

namespace BulkRemoval

/-! ## §1  Bulk removals -/

inductive Kind where
  | hook
  | breakpoint
deriving DecidableEq

inductive Bulk where
  | detachAll (patch : Addr → PatchOutcome) (order : List (Σ _ : ℕ, HookEntry))
  | removeAll (patch : Addr → PatchOutcome) (order : List (Σ _ : ℕ, BreakpointEntry))

def Bulk.kind : Bulk → Kind
  | .detachAll _ _ => .hook
  | .removeAll _ _ => .breakpoint

def Bulk.op : Bulk → Op
  | .detachAll patch order => .detachAll patch order
  | .removeAll patch order => .removeAllBreakpoints patch order

/-- The entries in the order of the loop. -/
def Bulk.entries : Bulk → List Entry
  | .detachAll _ order => order.map fun e => .hook e.2
  | .removeAll _ order => order.map fun e => .breakpoint e.2

/-- What `makeWritableAndPatch` answers for each. -/
def Bulk.answers : Bulk → List PatchOutcome
  | .detachAll patch order => order.map fun e => patch e.2.target
  | .removeAll patch order => order.map fun e => patch e.2.address

/-- `makeWritableAndPatch` throws while the entry at position `k` is restored. -/
def Bulk.RefusedAt (b : Bulk) (k : ℕ) : Prop :=
  (∀ o ∈ b.answers.take k, o = .ok) ∧ ∃ o, b.answers[k]? = some o ∧ o ≠ .ok

/-- What the call answers. -/
def Bulk.answer (arch : Arch) (w : World) : Bulk → Except String Unit
  | .detachAll patch order => (Interceptor.detachAll patch order w).1
  | .removeAll patch order => (SoftwareBreakpoint.removeAll arch patch order w).1

/-- Code with the saved bytes of all entries written back. -/
def Bulk.writeBack (arch : Arch) (m : Memory) : Bulk → Memory
  | .detachAll _ order => Interceptor.writeBack order m
  | .removeAll _ order => SoftwareBreakpoint.writeBack arch order m

/-! ## §2  Usable registries -/

/-- One of the two maps leads to the entry. -/
def Reachable (r : Runtime) : Kind → Entry → Prop
  | .hook, e => ∃ x, e = .hook x ∧ ((∃ id, r.world.hooks.hooksById.lookup id = some x) ∨
      ∃ t, r.world.hooks.hooksByTarget.lookup t = some x)
  | .breakpoint, e => ∃ x, e = .breakpoint x ∧ ((∃ id, r.world.bp.bpById.lookup id = some x) ∨
      ∃ a, r.world.bp.bpByAddress.lookup a = some x)

/-- The call restores every entry and empties the maps, and what it frees is in use and is freed
once. -/
structure Completes (target : Target) (b : Bulk) (r : Runtime) : Prop where
  answer : b.answer target.arch r.world = .ok ()
  restored : (b.op.exec target r).world.code = b.writeBack target.arch r.world.code
  emptied : ∀ e, ¬ Reachable (b.op.exec target r) b.kind e
  inUse : ∀ p ∈ piecesOf b.entries, Alive r p
  once : (piecesOf b.entries).Nodup

/-- A call that throws at position `k` leaves no entry in the maps whose memory is gone and none
that was done with, and whenever it is repeated later and nothing is refused, it completes. -/
structure LeavesUsable (target : Target) (b : Bulk) (k : ℕ) (s : Process) : Prop where
  intact : ∀ e, Reachable (b.op.exec target s.runtime) b.kind e →
    ∀ p ∈ e.pieces, Alive (b.op.exec target s.runtime) p
  dropped : ∀ e ∈ b.entries.take k, ¬ Reachable (b.op.exec target s.runtime) b.kind e
  again : ∀ tr u, Run (Step target) { s with runtime := b.op.exec target s.runtime } tr u →
    Guarded (fun _ l => Uncut l) tr → ∀ b' : Bulk, b'.kind = b.kind →
    b'.op.Permitted u.runtime → (∀ o ∈ b'.answers, o = .ok) → Completes target b' u.runtime

/-! ## §3  Entries that are live -/

/-- Entries own their memory, each piece of it once, and the maps of either registry agree. -/
structure Live (target : Target) (r : Runtime) : Prop where
  orderly : Orderly target r
  indexed : Indexed BreakpointEntry.address r.world.bp.bpById r.world.bp.bpByAddress
    r.world.bp.nextBpId
  hookPieces : ∀ {id x}, r.world.hooks.hooksById.lookup id = some x →
    (Entry.hook x).pieces.Nodup
  breakpointPieces : ∀ {id x}, r.world.bp.bpById.lookup id = some x →
    (Entry.breakpoint x).pieces.Nodup

section Live

variable {target : Target} {r : Runtime} {kind : Kind} {e : Entry}

theorem Live.start (code : Memory) (disposition : Sig → SigAction) :
    Live target (.start code disposition) where
  orderly := .start code disposition
  indexed := .empty
  hookPieces h := by cases h
  breakpointPieces h := by cases h

/-- What either map leads to is registered. -/
theorem Live.registered (h : Live target r) (he : Reachable r kind e) :
    ∃ k, entryAt r k = some e := by
  cases kind with
  | hook =>
      obtain ⟨x, rfl, ⟨id, hid⟩ | ⟨t, ht⟩⟩ := he
      · exact ⟨.hook id, entryAt_hook.mpr hid⟩
      · obtain ⟨-, id, hid⟩ := h.orderly.registry.indexed.toId ht
        exact ⟨.hook id, entryAt_hook.mpr hid⟩
  | breakpoint =>
      obtain ⟨x, rfl, ⟨id, hid⟩ | ⟨a, ha⟩⟩ := he
      · exact ⟨.breakpoint id, entryAt_breakpoint.mpr hid⟩
      · obtain ⟨-, id, hid⟩ := h.indexed.toId ha
        exact ⟨.breakpoint id, entryAt_breakpoint.mpr hid⟩

end Live

/-! ## §4  Operations keep them so -/

section Operations

variable {target : Target} {r r' : Runtime} {o : Op}

/-- Two blocks and an object, all different. -/
theorem nodup_jitPieces {trampolineCode relocatedCode : Addr} (self : Addr)
    (h : trampolineCode ≠ 0 → trampolineCode ≠ relocatedCode) :
    (jitPieces trampolineCode relocatedCode self).Nodup := by
  unfold jitPieces codePieces
  split_ifs with ht hr hr
  · simp
  · simp
  · simp
  · simpa using h ht

/-- `attach` adds one entry with the blocks it has built, or leaves the maps. -/
theorem attach_byId (arch : Arch) (env : Interceptor.Install) (address : Addr)
    (onEnter onLeave : Callback) (w : World) :
    (Interceptor.attach arch env address onEnter onLeave w).2.hooks = w.hooks ∨
    ∃ x : HookEntry, (∃ n, env.relocated = .ok (x.relocatedCode, n)) ∧
      env.trampoline = .ok x.trampolineCode ∧
      (Interceptor.attach arch env address onEnter onLeave w).2.hooks.hooksById =
        w.hooks.hooksById.insert w.hooks.nextHookId x := by
  unfold Interceptor.attach
  split
  · exact .inl rfl
  cases hr : env.relocated with
  | error e => exact .inl rfl
  | ok block =>
      cases ht : env.trampoline with
      | error e => exact .inl (by simp)
      | ok t =>
          cases env.patch with
          | ok => exact .inr ⟨_, ⟨_, rfl⟩, rfl, rfl⟩
          | rwDenied | rxDenied => exact .inl rfl

theorem replace_byId (arch : Arch) (env : Interceptor.Install) (address replacement : Addr)
    (w : World) :
    (Interceptor.replace arch env address replacement w).2.hooks = w.hooks ∨
    ∃ x : HookEntry, x.trampolineCode = 0 ∧
      (Interceptor.replace arch env address replacement w).2.hooks.hooksById =
        w.hooks.hooksById.insert w.hooks.nextHookId x := by
  unfold Interceptor.replace
  split
  · exact .inl rfl
  cases env.relocated with
  | error e => exact .inl rfl
  | ok block =>
      cases env.patch with
      | ok => exact .inr ⟨_, rfl, rfl⟩
      | rwDenied | rxDenied => exact .inl rfl

/-- `set` adds one entry to both maps, with the blocks it has built, or leaves them. -/
theorem setBreakpoint_maps (arch : Arch) (env : SoftwareBreakpoint.Install) (address : Addr)
    (onHit : Callback) (w : World) :
    let b := (SoftwareBreakpoint.set arch env address onHit w).2.bp
    (b.bpById = w.bp.bpById ∧ b.bpByAddress = w.bp.bpByAddress ∧ b.nextBpId = w.bp.nextBpId) ∨
    ∃ x : BreakpointEntry, x.address ∉ w.bp.bpByAddress ∧
      (∃ n, env.relocated = .ok (x.relocatedCode, n)) ∧ env.trampoline = .ok x.trampolineCode ∧
      b.bpById = w.bp.bpById.insert w.bp.nextBpId x ∧
      b.bpByAddress = w.bp.bpByAddress.insert x.address x ∧ b.nextBpId = w.bp.nextBpId + 1 := by
  unfold SoftwareBreakpoint.set
  by_cases hmem : address ∈ w.bp.bpByAddress
  · rw [if_pos hmem]
    exact .inl ⟨rfl, rfl, rfl⟩
  rw [if_neg hmem]
  cases hr : env.relocated with
  | error e => exact .inl ⟨by simp, by simp, by simp⟩
  | ok block =>
      cases ht : env.trampoline with
      | error e => exact .inl ⟨by simp, by simp, by simp⟩
      | ok t =>
          cases env.patch with
          | ok =>
              refine .inr ⟨⟨env.self, address, readBytes w.code address arch.bpInsnSize, block.2, t,
                block.1, onHit⟩, hmem, ⟨_, rfl⟩, rfl, ?_, ?_, ?_⟩ <;>
                simp [makeWritableAndPatch]
          | rwDenied | rxDenied =>
              exact .inl ⟨by simp [makeWritableAndPatch], by simp [makeWritableAndPatch],
                by simp [makeWritableAndPatch]⟩

/-- Hooks are no business of breakpoints. -/
theorem hookCall_bp (arch : Arch) (c : Interceptor.Call) (w : World) :
    (c.exec arch w).bp = w.bp := by
  cases c with
  | attach env t onEnter onLeave =>
      rcases Interceptor.attach_cases arch env t onEnter onLeave w with
        hun | ⟨-, -, -, ⟨-, x, -, -, -, hi⟩ | ⟨-, dest, ho⟩⟩
      · exact hun.bp
      · exact hi.bp
      · exact ho.bp
  | replace env t replacement =>
      rcases Interceptor.replace_cases arch env t replacement w with
        hun | ⟨-, -, ⟨-, x, -, -, -, hi⟩ | ⟨-, ho⟩⟩
      · exact hun.bp
      · exact hi.bp
      · exact ho.bp
  | detach patch hookId =>
      simp only [Interceptor.Call.exec, Interceptor.detach, Interceptor.restore]
      cases w.hooks.hooksById.lookup hookId with
      | none => rfl
      | some x => cases patch <;> simp [makeWritableAndPatch]
  | revert patch t =>
      simp only [Interceptor.Call.exec, Interceptor.revert, Interceptor.restore]
      cases w.hooks.hooksByTarget.lookup t with
      | none => rfl
      | some x => cases patch <;> simp [makeWritableAndPatch]

theorem setHardware_bp (env : HardwareBreakpoint.Install) (address : Addr) (typeStr : String)
    (size : ℤ) (onHit : Callback) (w : World) :
    (HardwareBreakpoint.set target env address typeStr size onHit w).2.bp = w.bp := by
  rcases HardwareBreakpoint.set_target_cases target env address typeStr size onHit w with
    hsame | haside | ⟨x, -, -, -, hlive⟩
  · rw [hsame]
  · exact haside.bp.trans (HardwareBreakpoint.ensureHwHandlerInstalled_bp w)
  · exact hlive.bp.trans (HardwareBreakpoint.ensureHwHandlerInstalled_bp w)

theorem removeHardware_bp (bpId : ℕ) (w : World) :
    (HardwareBreakpoint.remove bpId w).bp = w.bp := by
  unfold HardwareBreakpoint.remove
  cases w.hw.hwById.lookup bpId with
  | none => rfl
  | some x =>
      exact (HardwareBreakpoint.maybeRemoveHwHandler_frame _).bp.trans
        (HardwareBreakpoint.releaseEntry_frame x w).bp

theorem createCallback_bp (env : NativeCallback.Install) (handler : Callback)
    (retType : String) (argTypes : List String) (abi : String) (r : Runtime) :
    (NativeCallback.createCallback target env handler retType argTypes abi r).2.world.bp =
      r.world.bp := by
  unfold NativeCallback.createCallback
  dsimp only
  split
  · rfl
  cases env.closure with
  | none => rfl
  | some found =>
      dsimp only
      split <;> rfl

theorem destroyCallback_bp (address : Addr) (r : Runtime) :
    (NativeCallback.destroyCallback address r).world.bp = r.world.bp := by
  unfold NativeCallback.destroyCallback
  cases r.ffi.callbacks.lookup address <;> rfl

/-- The maps of the software breakpoints go on agreeing. -/
theorem indexed_exec (h : Indexed BreakpointEntry.address r.world.bp.bpById
      r.world.bp.bpByAddress r.world.bp.nextBpId) (huncut : o.Uncut) :
    Indexed BreakpointEntry.address (o.exec target r).world.bp.bpById
      (o.exec target r).world.bp.bpByAddress (o.exec target r).world.bp.nextBpId := by
  cases o with
  | hook c =>
      rw [Op.exec, hookCall_bp]
      exact h
  | detachAll patch order =>
      rw [Op.exec, (Interceptor.detachAll_handlers patch order r.world).2.1]
      exact h
  | setBreakpoint env address onHit =>
      rw [Op.exec]
      rcases setBreakpoint_maps target.arch env address onHit r.world with
        ⟨hbyId, hbyAddress, hnext⟩ | ⟨x, hfree, -, -, hbyId, hbyAddress, hnext⟩
      · rw [hbyId, hbyAddress, hnext]
        exact h
      · rw [hbyId, hbyAddress, hnext]
        exact h.insert hfree
  | removeBreakpoint patch bpId =>
      cases patch with
      | ok =>
          rw [Op.exec]
          rcases SoftwareBreakpoint.remove_cases target.arch bpId r.world with hun | ⟨x, hr⟩
          · rw [hun.byId, hun.byAddress, hun.nextId]
            exact h
          · rw [hr.byId, hr.byAddress, hr.nextId]
            exact h.erase hr.live
      | rwDenied | rxDenied =>
          simp only [Op.exec, SoftwareBreakpoint.remove]
          cases r.world.bp.bpById.lookup bpId <;> exact h
  | removeAllBreakpoints patch order =>
      rcases huncut with hall | ⟨e, rest, rfl, hfirst⟩
      · obtain ⟨w', heq, hcleared⟩ :=
          SoftwareBreakpoint.removeAll_ok target.arch patch order r.world hall
        rw [Op.exec, heq, hcleared.byId, hcleared.byAddress]
        exact .empty
      · obtain ⟨code, heq⟩ := @removeAll_refused target.arch _ _ rest r.world hfirst
        rw [Op.exec, heq]
        exact h
  | setHardware env address typeStr size onHit =>
      rw [Op.exec, setHardware_bp]
      exact h
  | removeHardware bpId =>
      rw [Op.exec, removeHardware_bp]
      exact h
  | removeAllHardware order =>
      rw [Op.exec, (HardwareBreakpoint.removeAll_frame order r.world).bp]
      exact h
  | createCallback env handler retType argTypes abi =>
      rw [Op.exec, createCallback_bp]
      exact h
  | destroyCallback address =>
      rw [Op.exec, destroyCallback_bp]
      exact h

/-- A new entry has two different blocks. -/
theorem pieces_installed (h : Live target r) (hpermitted : o.Permitted r)
    (ho : o.installs = true) :
    (∀ {id x}, (o.exec target r).world.hooks.hooksById.lookup id = some x →
      (Entry.hook x).pieces.Nodup) ∧
    ∀ {id x}, (o.exec target r).world.bp.bpById.lookup id = some x →
      (Entry.breakpoint x).pieces.Nodup := by
  cases o with
  | hook c =>
      have hbp := hookCall_bp target.arch c r.world
      refine ⟨fun {id x} hx => ?_, fun {id x} hx => h.breakpointPieces (hbp ▸ hx)⟩
      cases c with
      | attach env t onEnter onLeave =>
          obtain ⟨-, -, htrampoline⟩ := hpermitted
          rcases attach_byId target.arch env t onEnter onLeave r.world with
            hsame | ⟨new, ⟨n, hr⟩, ht, hbyId⟩
          · exact h.hookPieces (hsame ▸ hx)
          · change ((Interceptor.attach target.arch env t onEnter onLeave
              r.world).2.hooks.hooksById).lookup id = some x at hx
            rw [hbyId] at hx
            rcases lookup_insert_cases hx with ⟨-, rfl⟩ | ⟨-, hold⟩
            · exact nodup_jitPieces _ fun _ => (htrampoline _ ht).2 _ _ hr
            · exact h.hookPieces hold
      | replace env t replacement =>
          rcases replace_byId target.arch env t replacement r.world with
            hsame | ⟨new, hnull, hbyId⟩
          · exact h.hookPieces (hsame ▸ hx)
          · change ((Interceptor.replace target.arch env t replacement
              r.world).2.hooks.hooksById).lookup id = some x at hx
            rw [hbyId] at hx
            rcases lookup_insert_cases hx with ⟨-, rfl⟩ | ⟨-, hold⟩
            · exact nodup_jitPieces _ fun hsome => absurd hnull hsome
            · exact h.hookPieces hold
      | detach | revert => cases ho
  | setBreakpoint env address onHit =>
      obtain ⟨-, -, htrampoline⟩ := hpermitted
      refine ⟨fun {id x} hx => h.hookPieces ((setBreakpoint_hooks r.world).symm ▸ hx),
        fun {id x} hx => ?_⟩
      rcases setBreakpoint_maps target.arch env address onHit r.world with
        ⟨hbyId, -, -⟩ | ⟨new, -, ⟨n, hr⟩, ht, hbyId, -, -⟩
      · exact h.breakpointPieces (hbyId ▸ hx)
      · change ((SoftwareBreakpoint.set target.arch env address onHit
          r.world).2.bp.bpById).lookup id = some x at hx
        rw [hbyId] at hx
        rcases lookup_insert_cases hx with ⟨-, rfl⟩ | ⟨-, hold⟩
        · exact nodup_jitPieces _ fun _ => (htrampoline _ ht).2 _ _ hr
        · exact h.breakpointPieces hold
  | setHardware env address typeStr size onHit =>
      have hbp := @setHardware_bp target env address typeStr size onHit r.world
      have hhooks := @setHardware_hooks target env address typeStr size onHit r.world
      exact ⟨fun hx => h.hookPieces (hhooks ▸ hx), fun hx => h.breakpointPieces (hbp ▸ hx)⟩
  | createCallback env handler retType argTypes abi =>
      have hbp := @createCallback_bp target env handler retType argTypes abi r
      have hhooks := @createCallback_hooks target env handler retType abi argTypes r
      exact ⟨fun hx => h.hookPieces (hhooks ▸ hx), fun hx => h.breakpointPieces (hbp ▸ hx)⟩
  | detachAll | removeBreakpoint | removeAllBreakpoints | removeHardware | removeAllHardware
    | destroyCallback => cases ho

/-- What is registered after a removal was registered before. -/
theorem pieces_removed (h : Live target r) (hpermitted : o.Permitted r) (huncut : o.Uncut)
    (ho : o.installs = false) :
    (∀ {id x}, (o.exec target r).world.hooks.hooksById.lookup id = some x →
      (Entry.hook x).pieces.Nodup) ∧
    ∀ {id x}, (o.exec target r).world.bp.bpById.lookup id = some x →
      (Entry.breakpoint x).pieces.Nodup := by
  obtain ⟨ks, hstrikes⟩ := exec_strikes h.orderly.registry hpermitted huncut ho
  have hold : ∀ {k e}, entryAt (o.exec target r) k = some e → entryAt r k = some e :=
    fun he => (hstrikes.remaining he).2
  constructor
  · exact fun hx => h.hookPieces (entryAt_hook.mp (hold (entryAt_hook.mpr hx)))
  · exact fun hx => h.breakpointPieces (entryAt_breakpoint.mp (hold (entryAt_breakpoint.mpr hx)))

theorem Live.step {s u : Process} {l : Label} (h : Live target s.runtime) (huncut : Uncut l)
    (hstep : Step target s l u) : Live target u.runtime := by
  have horderly := h.orderly.step huncut hstep
  cases hstep with
  | @op o hpermitted =>
      have hindexed := @indexed_exec target _ o h.indexed huncut
      cases ho : o.installs with
      | true =>
          obtain ⟨hhooks, hbreakpoints⟩ := pieces_installed h hpermitted ho
          exact ⟨horderly, hindexed, hhooks, hbreakpoints⟩
      | false =>
          obtain ⟨hhooks, hbreakpoints⟩ := pieces_removed h hpermitted huncut ho
          exact ⟨horderly, hindexed, hhooks, hbreakpoints⟩
  | enter | leave => exact h

end Operations

/-! ## §5  A call that goes through -/

section Completing

variable {target : Target} {r : Runtime} {b : Bulk}

/-- The entries of one map, in whatever order, hold memory that is in use, each piece once. -/
theorem owned_listed {α : Type} {m : HashMap ℕ α} (entry : α → Entry) (key : ℕ → Key)
    (howned : Owned r) (hkey : Function.Injective key)
    (hat : ∀ id, entryAt r (key id) = (m.lookup id).map entry)
    (hpieces : ∀ {id x}, m.lookup id = some x → (entry x).pieces.Nodup)
    {order : List (Σ _ : ℕ, α)} (hperm : order.Perm m.entries) :
    (∀ p ∈ piecesOf (order.map fun e => entry e.2), Alive r p) ∧
      (piecesOf (order.map fun e => entry e.2)).Nodup := by
  have hlookup : ∀ e ∈ order, m.lookup e.1 = some e.2 :=
    fun e he => AList.mem_lookup_iff.mpr (hperm.mem_iff.mp he)
  have hentry : ∀ e ∈ order, entryAt r (key e.1) = some (entry e.2) :=
    fun e he => by rw [hat, hlookup e he, Option.map_some]
  have hdistinct := ((List.perm_nodupKeys hperm).mpr m.nodupKeys).pairwise_ne
  constructor
  · intro p hp
    obtain ⟨_, hlisted, hpe⟩ := mem_piecesOf.mp hp
    obtain ⟨e, he, rfl⟩ := List.mem_map.mp hlisted
    exact howned.alive (hentry e he) p hpe
  · have happart : order.Pairwise fun e e' => (entry e.2).pieces.Disjoint (entry e'.2).pieces :=
      hdistinct.imp_of_mem fun he he' hne =>
        howned.apart (hentry _ he) (hentry _ he') (hkey.ne hne)
    refine List.nodup_flatMap.mpr ⟨?_, List.pairwise_map.mpr happart⟩
    exact List.forall_mem_map.mpr fun e he => hpieces (hlookup e he)

/-- With live entries a call that is not refused does what it should. -/
theorem Live.completes (h : Live target r) (hpermitted : b.op.Permitted r)
    (hok : ∀ o ∈ b.answers, o = .ok) : Completes target b r := by
  cases b with
  | detachAll patch order =>
      obtain ⟨w', heq, hcleared⟩ :=
        Interceptor.detachAll_ok patch order r.world (List.forall_mem_map.mp hok)
      obtain ⟨hinUse, honce⟩ := owned_listed .hook .hook h.orderly.owned
        (fun _ _ => Key.hook.inj) (fun _ => rfl) h.hookPieces hpermitted
      refine ⟨by rw [Bulk.answer, heq], ?_, ?_, hinUse, honce⟩
      · simp only [Bulk.op, Op.exec, heq]
        exact hcleared.code
      · rintro e ⟨x, -, hx⟩
        simp only [Bulk.op, Op.exec, heq, hcleared.hooks] at hx
        simp at hx
  | removeAll patch order =>
      obtain ⟨w', heq, hcleared⟩ := SoftwareBreakpoint.removeAll_ok target.arch patch order
        r.world (List.forall_mem_map.mp hok)
      obtain ⟨hinUse, honce⟩ := owned_listed .breakpoint .breakpoint h.orderly.owned
        (fun _ _ => Key.breakpoint.inj) (fun _ => rfl) h.breakpointPieces hpermitted
      refine ⟨by rw [Bulk.answer, heq], ?_, ?_, hinUse, honce⟩
      · simp only [Bulk.op, Op.exec, heq]
        exact hcleared.code
      · rintro e ⟨x, -, hx⟩
        simp only [Bulk.op, Op.exec, heq, hcleared.byId, hcleared.byAddress] at hx
        simp at hx

end Completing

/-! ## §6  A call that fails -/

section Failing

variable {target : Target} {s : Process} {r : Runtime} {b : Bulk} {k : ℕ}

theorem exists_refusedAt {b : Bulk} (h : ∃ o ∈ b.answers, o ≠ .ok) : ∃ k, b.RefusedAt k := by
  obtain ⟨o, ho, hne⟩ := h
  let first := b.answers.findIdx (· ≠ .ok)
  have hlt : first < b.answers.length := List.findIdx_lt_length.mpr ⟨o, ho, by simpa using hne⟩
  refine ⟨first, fun o ho => ?_, b.answers[first], List.getElem?_eq_getElem hlt, ?_⟩
  · obtain ⟨i, hi, rfl⟩ := List.mem_take_iff_getElem.mp ho
    simpa using List.not_of_lt_findIdx (lt_of_lt_of_le hi (min_le_left _ _))
  · have hfirst := List.findIdx_getElem (w := hlt)
    exact of_decide_eq_true hfirst

/-- Refused or not, the loop leaves the maps alone. -/
theorem restoreHooks_hooks (patch : Addr → PatchOutcome) (order : List (Σ _ : ℕ, HookEntry))
    (w : World) : (Interceptor.restoreAll patch order w).2.hooks = w.hooks := by
  induction order generalizing w with
  | nil => rfl
  | cons e rest ih =>
      unfold Interceptor.restoreAll Interceptor.restore
      cases patch e.2.target with
      | ok => exact (ih _).trans (by simp)
      | rwDenied | rxDenied => rfl

theorem detachAll_throws {patch : Addr → PatchOutcome} {order : List (Σ _ : ℕ, HookEntry)}
    (h : ∃ e ∈ order, patch e.2.target ≠ .ok) (w : World) :
    ∃ msg, Interceptor.detachAll patch order w =
      (.error msg, (Interceptor.restoreAll patch order w).2) := by
  suffices hloop : ∃ msg, (Interceptor.restoreAll patch order w).1 = .error msg by
    obtain ⟨msg, hmsg⟩ := hloop
    refine ⟨msg, ?_⟩
    unfold Interceptor.detachAll
    generalize Interceptor.restoreAll patch order w = result at *
    obtain ⟨answer, w'⟩ := result
    obtain rfl : answer = .error msg := hmsg
    rfl
  induction order generalizing w with
  | nil => simp at h
  | cons e rest ih =>
      unfold Interceptor.restoreAll Interceptor.restore
      cases hp : patch e.2.target with
      | ok =>
          obtain ⟨e', he', hne⟩ := h
          rcases List.mem_cons.mp he' with rfl | hrest
          · exact absurd hp hne
          · exact ih ⟨e', hrest, hne⟩ _
      | rwDenied | rxDenied => exact ⟨_, rfl⟩

theorem removeAll_throws {arch : Arch} {patch : Addr → PatchOutcome}
    {order : List (Σ _ : ℕ, BreakpointEntry)} (h : ∃ e ∈ order, patch e.2.address ≠ .ok)
    (w : World) : ∃ msg, SoftwareBreakpoint.removeAll arch patch order w =
      (.error msg, (SoftwareBreakpoint.restoreAll arch patch order w).2) := by
  suffices hloop : ∃ msg, (SoftwareBreakpoint.restoreAll arch patch order w).1 = .error msg by
    obtain ⟨msg, hmsg⟩ := hloop
    refine ⟨msg, ?_⟩
    unfold SoftwareBreakpoint.removeAll
    generalize SoftwareBreakpoint.restoreAll arch patch order w = result at *
    obtain ⟨answer, w'⟩ := result
    obtain rfl : answer = .error msg := hmsg
    rfl
  induction order generalizing w with
  | nil => simp at h
  | cons e rest ih =>
      unfold SoftwareBreakpoint.restoreAll
      cases hp : patch e.2.address with
      | ok =>
          obtain ⟨e', he', hne⟩ := h
          rcases List.mem_cons.mp he' with rfl | hrest
          · exact absurd hp hne
          · exact ih ⟨e', hrest, hne⟩ _
      | rwDenied | rxDenied => exact ⟨_, rfl⟩

/-- The call throws exactly when some protection change is refused. -/
theorem throws_iff (arch : Arch) (w : World) (b : Bulk) :
    (∃ msg, b.answer arch w = .error msg) ↔ ∃ k, b.RefusedAt k := by
  by_cases hall : ∀ o ∈ b.answers, o = .ok
  · refine iff_of_false ?_ fun ⟨k, hk⟩ => ?_
    · rintro ⟨msg, hmsg⟩
      cases b with
      | detachAll patch order =>
          obtain ⟨w', heq, -⟩ :=
            Interceptor.detachAll_ok patch order w (List.forall_mem_map.mp hall)
          rw [Bulk.answer, heq] at hmsg
          cases hmsg
      | removeAll patch order =>
          obtain ⟨w', heq, -⟩ :=
            SoftwareBreakpoint.removeAll_ok arch patch order w (List.forall_mem_map.mp hall)
          rw [Bulk.answer, heq] at hmsg
          cases hmsg
    · obtain ⟨-, o, ho, hne⟩ := hk
      exact hne (hall o (List.mem_of_getElem? ho))
  · push Not at hall
    refine iff_of_true ?_ (exists_refusedAt hall)
    obtain ⟨_, hanswer, hne⟩ := hall
    cases b with
    | detachAll patch order =>
        obtain ⟨x, hx, rfl⟩ := List.mem_map.mp hanswer
        obtain ⟨msg, heq⟩ := detachAll_throws ⟨x, hx, hne⟩ w
        exact ⟨msg, by rw [Bulk.answer, heq]⟩
    | removeAll patch order =>
        obtain ⟨x, hx, rfl⟩ := List.mem_map.mp hanswer
        obtain ⟨msg, heq⟩ := @removeAll_throws arch _ _ ⟨x, hx, hne⟩ w
        exact ⟨msg, by rw [Bulk.answer, heq]⟩

/-- A call that throws clears no map. -/
theorem reachable_refused (h : ∃ o ∈ b.answers, o ≠ .ok) (e : Entry) :
    Reachable (b.op.exec target r) b.kind e ↔ Reachable r b.kind e := by
  obtain ⟨_, hanswer, hne⟩ := h
  cases b with
  | detachAll patch order =>
      obtain ⟨x, hx, rfl⟩ := List.mem_map.mp hanswer
      obtain ⟨msg, heq⟩ := detachAll_throws ⟨x, hx, hne⟩ r.world
      simp only [Bulk.op, Op.exec, Bulk.kind, Reachable, heq, restoreHooks_hooks]
  | removeAll patch order =>
      obtain ⟨x, hx, rfl⟩ := List.mem_map.mp hanswer
      obtain ⟨msg, heq⟩ := @removeAll_throws target.arch _ _ ⟨x, hx, hne⟩ r.world
      have hbp := (SoftwareBreakpoint.restoreAll_frame target.arch patch order r.world).1
      simp only [Bulk.op, Op.exec, Bulk.kind, Reachable, heq, hbp]

theorem reachable_of_listed (hpermitted : b.op.Permitted r) {e : Entry} (he : e ∈ b.entries) :
    Reachable r b.kind e := by
  cases b with
  | detachAll patch order =>
      obtain ⟨x, hx, rfl⟩ := List.mem_map.mp he
      exact ⟨x.2, rfl, .inl ⟨x.1, AList.mem_lookup_iff.mpr (hpermitted.mem_iff.mp hx)⟩⟩
  | removeAll patch order =>
      obtain ⟨x, hx, rfl⟩ := List.mem_map.mp he
      exact ⟨x.2, rfl, .inl ⟨x.1, AList.mem_lookup_iff.mpr (hpermitted.mem_iff.mp hx)⟩⟩

/-- The loop is not cut short: it gets to its end or no further than its first entry. -/
theorem uncut_iff (b : Bulk) : b.op.Uncut ↔ (∀ o ∈ b.answers, o = .ok) ∨ b.RefusedAt 0 := by
  cases b with
  | detachAll patch order =>
      have hall : (∀ e ∈ order, patch e.2.target = .ok) ↔
          ∀ o ∈ (Bulk.detachAll patch order).answers, o = .ok :=
        ⟨fun h => List.forall_mem_map.mpr h, fun h => List.forall_mem_map.mp h⟩
      refine or_congr hall ?_
      cases order with
      | nil => simp [Bulk.RefusedAt, Bulk.answers]
      | cons e rest => simp [Bulk.RefusedAt, Bulk.answers]
  | removeAll patch order =>
      have hall : (∀ e ∈ order, patch e.2.address = .ok) ↔
          ∀ o ∈ (Bulk.removeAll patch order).answers, o = .ok :=
        ⟨fun h => List.forall_mem_map.mpr h, fun h => List.forall_mem_map.mp h⟩
      refine or_congr hall ?_
      cases order with
      | nil => simp [Bulk.RefusedAt, Bulk.answers]
      | cons e rest => simp [Bulk.RefusedAt, Bulk.answers]

theorem Bulk.RefusedAt.le {k' : ℕ} (h : b.RefusedAt k) (h' : b.RefusedAt k') : k ≤ k' := by
  by_contra hlt
  obtain ⟨-, o, ho, hne⟩ := h'
  have htake : (b.answers.take k)[k']? = some o := by
    rw [List.getElem?_take_of_lt (Nat.lt_of_not_le hlt), ho]
  exact hne (h.1 o (List.mem_of_getElem? htake))

theorem Bulk.RefusedAt.exists_ne (h : b.RefusedAt k) : ∃ o ∈ b.answers, o ≠ .ok := by
  obtain ⟨-, o, ho, hne⟩ := h
  exact ⟨o, List.mem_of_getElem? ho, hne⟩

/-- Behind the first entry a refusal leaves entries that are done with. -/
theorem Bulk.RefusedAt.exists_done (h : b.RefusedAt k) (hk : k ≠ 0) :
    ∃ e, e ∈ b.entries.take k := by
  obtain ⟨-, o, ho, -⟩ := h
  have hlength : b.entries.length = b.answers.length := by
    cases b <;> simp [Bulk.entries, Bulk.answers]
  obtain ⟨hlt, -⟩ := List.getElem?_eq_some_iff.mp ho
  apply List.exists_mem_of_length_pos
  rw [List.length_take]
  omega

/-- **A call that fails halfway.** With live entries the registries are left usable exactly when
the refusal is the first. -/
theorem leavesUsable_iff_first (h : Live target s.runtime) (hpermitted : b.op.Permitted s.runtime)
    (hrefused : b.RefusedAt k) : LeavesUsable target b k s ↔ k = 0 := by
  constructor
  · intro husable
    by_contra hk
    -- the maps still lead to what is done with
    obtain ⟨e, hdone⟩ := hrefused.exists_done hk
    have hbefore := reachable_of_listed hpermitted (List.mem_of_mem_take hdone)
    exact husable.dropped e hdone ((reachable_refused hrefused.exists_ne e).mpr hbefore)
  · rintro rfl
    have huncut : Uncut (.op b.op) := (uncut_iff b).mpr (.inr hrefused)
    have hstep : Step target s (.op b.op) { s with runtime := b.op.exec target s.runtime } :=
      .op hpermitted
    have hafter := h.step huncut hstep
    refine ⟨fun e he p hp => ?_, fun e he => ?_, fun tr u run hguarded b' _ hpermitted' hok => ?_⟩
    · obtain ⟨key, hkey⟩ := hafter.registered he
      exact hafter.orderly.owned.alive hkey p hp
    · simp at he
    · have hlive : Throughout (fun s => Live target s.runtime) tr u :=
        run.guarded_invariant hafter (fun _ _ _ h hu hs => h.step hu hs) hguarded
      exact hlive.2.completes hpermitted' hok

end Failing

/-! ## §7  Runs -/

section Runs

variable {target : Target} {s : Process} {tr : List (Process × Label)}

/-- A bulk removal that throws does so at its first entry. -/
def FailsFirst (l : Label) : Prop := ∀ b k, l = .op (Bulk.op b) → b.RefusedAt k → k = 0

theorem uncut_iff_failsFirst (l : Label) : Uncut l ↔ FailsFirst l := by
  constructor
  · rintro huncut b k rfl hk
    rcases (uncut_iff b).mp huncut with hall | hfirst
    · obtain ⟨o, ho, hne⟩ := hk.exists_ne
      exact absurd (hall o ho) hne
    · exact Nat.le_zero.mp (hk.le hfirst)
  · intro hfirst
    have hbulk : ∀ b, l = .op (Bulk.op b) → b.op.Uncut := by
      intro b hb
      refine (uncut_iff b).mpr (or_iff_not_imp_left.mpr fun hnot => ?_)
      push Not at hnot
      obtain ⟨k, hk⟩ := exists_refusedAt hnot
      exact hfirst b k hb hk ▸ hk
    cases l with
    | op o =>
        cases o with
        | detachAll patch order => exact hbulk (.detachAll patch order) rfl
        | removeAllBreakpoints patch order => exact hbulk (.removeAll patch order) rfl
        | _ => trivial
    | enter | leave => trivial

theorem live_throughout {code : Memory} {disposition : Sig → SigAction}
    (run : Run (Step target) (.start code disposition) tr s)
    (hfirst : Guarded (fun _ l => FailsFirst l) tr) :
    Throughout (fun s => Live target s.runtime) tr s :=
  run.guarded_invariant (Live.start code disposition)
    (fun _ l _ h hl hstep => h.step ((uncut_iff_failsFirst l).mpr hl) hstep) hfirst

/-- **Bulk removals that fail.** In a run every `detachAll` and `removeAll` that throws leaves
usable registries, if and only if each of them throws at its first entry. -/
theorem leavesUsable_throughout_iff {code : Memory} {disposition : Sig → SigAction}
    (run : Run (Step target) (.start code disposition) tr s) :
    (∀ p ∈ tr, ∀ b k, p.2 = .op (Bulk.op b) → b.RefusedAt k → LeavesUsable target b k p.1) ↔
      Guarded (fun _ l => FailsFirst l) tr := by
  constructor
  · intro husable
    induction run with
    | nil => exact fun p hp => absurd hp List.not_mem_nil
    | snoc hrun hstep ih =>
        have hbefore := ih fun p hp => husable p (List.mem_append_left _ hp)
        refine guarded_snoc.mpr ⟨hbefore, fun b k hl hk => ?_⟩
        subst hl
        cases hstep with
        | op hpermitted =>
            have hlast := husable _ (List.mem_append_right _ (List.mem_singleton_self _)) b k rfl hk
            exact (leavesUsable_iff_first (live_throughout hrun hbefore).2 hpermitted hk).mp hlast
  · rintro hfirst ⟨s, l⟩ hp b k rfl hk
    obtain ⟨u, hstep⟩ := run.step_of_mem hp
    cases hstep with
    | op hpermitted =>
        have hlive := (live_throughout run hfirst).1 _ hp
        exact (leavesUsable_iff_first hlive hpermitted hk).mpr (hfirst _ hp b k rfl hk)

end Runs

/-! ## §8  Two hooks -/

section Concrete

def attachSecond : Op :=
  .hook (.attach ⟨0x5100, .ok (0x6100, 14), .ok 0x7100, .ok⟩ 0x2000 2 3)

/-- Both functions are hooked. -/
def both : Process := { hooked with runtime := attachSecond.exec x64Linux hooked.runtime }

def secondHook : Entry :=
  .hook ⟨0x5100, 0x2000, 0x7100, 0x6100, readBytes (fun _ => 0x90) 0x2000 14, 14, some 2, some 3⟩

def detachBoth (patch : Addr → PatchOutcome) : Bulk :=
  .detachAll patch both.runtime.world.hooks.hooksById.entries

theorem run_both :
    Run (Step x64Linux) fresh [(fresh, .op attachHook), (hooked, .op attachSecond)] both := by
  have hsecond : Step x64Linux hooked (.op attachSecond) both := by
    refine .op ⟨by decide, ?_, ?_⟩
    · rintro r n ⟨⟩
      decide
    · rintro t ⟨⟩
      refine ⟨by decide, ?_⟩
      rintro r n ⟨⟩
      decide
  exact (Run.nil.snoc step_attachHook).snoc hsecond

def denied : Bulk := detachBoth fun _ => .rwDenied

theorem denied_refused : denied.RefusedAt 0 := ⟨by simp, .rwDenied, rfl, by decide⟩

/-- No page can be made writable: both hooks stay usable. -/
theorem detachBoth_denied : LeavesUsable x64Linux denied 0 both := by
  have hstep : Step x64Linux both (.op denied.op) _ := .op (List.Perm.refl _)
  refine (leavesUsable_throughout_iff (run_both.snoc hstep)).mpr (fun p hp => ?_) _
    (List.mem_append_right _ (List.mem_singleton_self _)) denied 0 rfl denied_refused
  refine (uncut_iff_failsFirst _).mp ?_
  simp only [List.mem_append, List.mem_cons, List.not_mem_nil, or_false] at hp
  rcases hp with (rfl | rfl) | rfl
  · trivial
  · trivial
  · exact (uncut_iff denied).mpr (.inr denied_refused)

def halfway : Bulk := detachBoth fun a => if a = 0x2000 then .ok else .rwDenied

/-- The page of the second function can be made writable and that of the first cannot: the
memory of the second hook is gone, and the maps still lead to it. -/
theorem detachBoth_halfway : ∃ tr s, Run (Step x64Linux) fresh tr s ∧ ∃ b : Bulk, ∃ k,
    b.op.Permitted s.runtime ∧ b.RefusedAt k ∧ ¬ LeavesUsable x64Linux b k s := by
  refine ⟨_, both, run_both, halfway, 1, List.Perm.refl _, ⟨by decide, .rwDenied, rfl, by decide⟩,
    fun h => ?_⟩
  have hgone : ¬ Alive (halfway.op.exec x64Linux both.runtime) (.code 0x7100) := by decide
  have hpiece : Piece.code 0x7100 ∈ secondHook.pieces := by decide
  exact hgone (h.intact secondHook ⟨_, rfl, .inl ⟨2, rfl⟩⟩ _ hpiece)

end Concrete

end BulkRemoval

end Chromatic
