import Chromatic.HardwareSlots

/-!
# The debug registers of threads

The Windows and macOS builds hand out four debug registers for the whole process and write
them on the thread that calls. Runs in which several threads call `set`, `remove` and
`removeAll`.

§1 one thread's registers · §2 calls by threads · §3 armed where they were set · §4 set ·
§5 remove and removeAll · §6 runs.
-/

namespace Chromatic

open Foundation
open HardwareBreakpoint (Install)
open Watchpoints (Call Assigned Active)

namespace DebugRegisters

/-! ## §1  One thread's registers -/

/-- DR0 to DR3 and the control register. -/
structure DebugState where
  dr : Fin 4 → Addr
  dr7 : BitVec 64

def typeVal : HwBpType → BitVec 64
  | .execute => 0
  | .write => 1
  | .readWrite => 3

def lenVal (bpSize : ℤ) : BitVec 64 :=
  if bpSize = 1 then 0
  else if bpSize = 2 then 1
  else if bpSize = 4 then 3
  else if bpSize = 8 then 2
  else 0

/-- Local enable in bit `2 * slot`, type and length in the upper half. -/
def setControl (slot : Fin 4) (type : HwBpType) (bpSize : ℤ) (dr7 : BitVec 64) : BitVec 64 :=
  let dr7 := dr7 ||| (1 : BitVec 64) <<< (slot * 2 : ℕ)
  let dr7 := dr7 &&& ~~~((3 : BitVec 64) <<< (16 + slot * 4 : ℕ))
  let dr7 := dr7 ||| typeVal type <<< (16 + slot * 4 : ℕ)
  let dr7 := dr7 &&& ~~~((3 : BitVec 64) <<< (18 + slot * 4 : ℕ))
  dr7 ||| lenVal bpSize <<< (18 + slot * 4 : ℕ)

def setDebugReg (slot : Fin 4) (addr : Addr) (type : HwBpType) (bpSize : ℤ) (dbg : DebugState) :
    DebugState :=
  ⟨Function.update dbg.dr slot addr, setControl slot type bpSize dbg.dr7⟩

def clearDebugReg (slot : Fin 4) (dbg : DebugState) : DebugState :=
  ⟨Function.update dbg.dr slot 0, dbg.dr7 &&& ~~~((1 : BitVec 64) <<< (slot * 2 : ℕ))⟩

def darwinSetDebugReg := setDebugReg

def winSetDebugReg := setDebugReg

def darwinClearDebugReg := clearDebugReg

def winClearDebugReg := clearDebugReg

/-- The build's own functions. -/
def setReg : Os → Fin 4 → Addr → HwBpType → ℤ → DebugState → DebugState
  | .darwin => darwinSetDebugReg
  | _ => winSetDebugReg

def clearReg : Os → Fin 4 → DebugState → DebugState
  | .darwin => darwinClearDebugReg
  | _ => winClearDebugReg

@[simp] theorem setReg_eq (os : Os) : setReg os = setDebugReg := by
  cases os <;> rfl

@[simp] theorem clearReg_eq (os : Os) : clearReg os = clearDebugReg := by
  cases os <;> rfl

/-- By the local bit, the only one of the two that is ever written. -/
def DebugState.Enables (dbg : DebugState) (slot : Fin 4) : Prop :=
  dbg.dr7.getLsbD (slot * 2) = true

instance (dbg : DebugState) (slot : Fin 4) : Decidable (dbg.Enables slot) :=
  inferInstanceAs (Decidable (_ = _))

theorem getLsbD_clearField (x v : BitVec 64) {k n : ℕ} (hk : k < n) (hn : n < 64) :
    (x &&& ~~~(v <<< n)).getLsbD k = x.getLsbD k := by
  rw [BitVec.getLsbD_and, BitVec.getLsbD_not, BitVec.getLsbD_shiftLeft]
  simp [hk, show k < 64 by omega]

theorem getLsbD_writeField (x v : BitVec 64) {k n : ℕ} (hk : k < n) :
    (x ||| v <<< n).getLsbD k = x.getLsbD k := by
  rw [BitVec.getLsbD_or, BitVec.getLsbD_shiftLeft]
  simp [hk]

/-- The fields of the upper half leave the enable bits alone. -/
theorem getLsbD_setControl (slot : Fin 4) (type : HwBpType) (bpSize : ℤ) (dr7 : BitVec 64)
    {k : ℕ} (hk : k < 16) :
    (setControl slot type bpSize dr7).getLsbD k = (dr7.getLsbD k || decide (k = slot * 2)) := by
  unfold setControl
  rw [getLsbD_writeField _ _ (by omega), getLsbD_clearField _ _ (by omega) (by omega),
    getLsbD_writeField _ _ (by omega), getLsbD_clearField _ _ (by omega) (by omega)]
  exact getLsbD_take dr7 (by omega)

theorem slot_bit_eq {j slot : Fin 4} : (j : ℕ) * 2 = slot * 2 ↔ j = slot := by
  rw [Fin.ext_iff]
  omega

theorem enables_setDebugReg {slot : Fin 4} {addr : Addr} {type : HwBpType} {bpSize : ℤ}
    {dbg : DebugState} {j : Fin 4} :
    (setDebugReg slot addr type bpSize dbg).Enables j ↔ dbg.Enables j ∨ j = slot := by
  unfold DebugState.Enables setDebugReg
  rw [getLsbD_setControl _ _ _ _ (by omega), Bool.or_eq_true, decide_eq_true_eq, slot_bit_eq]

theorem enables_clearDebugReg {slot j : Fin 4} {dbg : DebugState} :
    (clearDebugReg slot dbg).Enables j ↔ dbg.Enables j ∧ j ≠ slot := by
  unfold DebugState.Enables clearDebugReg
  rw [getLsbD_giveBack _ (by omega), Bool.and_eq_true, decide_eq_true_eq, ne_eq, slot_bit_eq]

@[simp] theorem setDebugReg_dr_self {slot : Fin 4} {addr : Addr} {type : HwBpType} {bpSize : ℤ}
    {dbg : DebugState} : (setDebugReg slot addr type bpSize dbg).dr slot = addr :=
  Function.update_self _ _ _

theorem setDebugReg_dr {slot j : Fin 4} (h : j ≠ slot) {addr : Addr} {type : HwBpType}
    {bpSize : ℤ} {dbg : DebugState} :
    (setDebugReg slot addr type bpSize dbg).dr j = dbg.dr j := Function.update_of_ne h _ _

theorem clearDebugReg_dr {slot j : Fin 4} (h : j ≠ slot) (dbg : DebugState) :
    (clearDebugReg slot dbg).dr j = dbg.dr j := Function.update_of_ne h _ _

/-- The registers other than `slot` are the same. -/
def DebugState.SameBut (slot : Fin 4) (dbg dbg' : DebugState) : Prop :=
  ∀ j, j ≠ slot → (dbg'.Enables j ↔ dbg.Enables j) ∧ dbg'.dr j = dbg.dr j

theorem sameBut_setDebugReg (slot : Fin 4) (addr : Addr) (type : HwBpType) (bpSize : ℤ)
    (dbg : DebugState) : dbg.SameBut slot (setDebugReg slot addr type bpSize dbg) := by
  intro j hj
  rw [enables_setDebugReg]
  exact ⟨or_iff_left hj, setDebugReg_dr hj⟩

theorem sameBut_clearDebugReg (slot : Fin 4) (dbg : DebugState) :
    dbg.SameBut slot (clearDebugReg slot dbg) := by
  intro j hj
  rw [enables_clearDebugReg]
  exact ⟨and_iff_left hj, clearDebugReg_dr hj dbg⟩

/-! ## §2  Calls by threads -/

abbrev Thread : Type := ℕ

/-- A write to one register of one thread leaves every other register of every thread. -/
theorem update_elsewhere {regs : Thread → DebugState} {t u : Thread} {dbg : DebugState}
    {slot j : Fin 4} (h : (regs t).SameBut slot dbg) (hother : ¬ (u = t ∧ j = slot)) :
    ((Function.update regs t dbg u).Enables j ↔ (regs u).Enables j) ∧
      (Function.update regs t dbg u).dr j = (regs u).dr j := by
  by_cases hu : u = t
  · subst hu
    rw [Function.update_self]
    exact h j fun hj => hother ⟨rfl, hj⟩
  · rw [Function.update_of_ne hu]
    exact ⟨Iff.rfl, rfl⟩

/-- The runtime, the debug registers of each thread, and for every address the thread that
last set a breakpoint on it. -/
structure Process where
  world : World
  regs : Thread → DebugState
  setter : Addr → Thread

/-- No thread has a debug register in use. -/
def Process.start (code : Memory) (disposition : Sig → SigAction) : Process where
  world := .start code disposition
  regs := fun _ => ⟨fun _ => 0, 0⟩
  setter := fun _ => 0

/-- What a call writes into the registers of the thread that makes it. -/
def Process.onThread (t : Thread) (f : DebugState → DebugState) (p : Process) : Process :=
  { p with regs := Function.update p.regs t (f (p.regs t)) }

def clearEntry (os : Os) (entry : HwBreakpointEntry) : DebugState → DebugState :=
  match entry.slot with
  | none => id
  | some slot => clearReg os slot

/-- The register is written when the slot has been taken; nothing after that fails. -/
def set (target : Target) (env : Install) (t : Thread) (address : Addr) (typeStr : String)
    (size : ℤ) (onHit : Callback) (p : Process) : Process :=
  match HardwareBreakpoint.set target env address typeStr size onHit p.world with
  | (.error _, world) => { p with world := world }
  | (.ok bpId, world) =>
    let p : Process := { p with world := world, setter := Function.update p.setter address t }
    match (world.hw.hwById.lookup bpId).bind fun entry => entry.slot.map (entry, ·) with
    | none => p
    | some (entry, slot) =>
      p.onThread t (setReg target.os slot entry.address entry.type entry.size)

def remove (os : Os) (t : Thread) (bpId : ℕ) (p : Process) : Process :=
  let p' := match p.world.hw.hwById.lookup bpId with
    | none => p
    | some entry => p.onThread t (clearEntry os entry)
  { p' with world := HardwareBreakpoint.remove bpId p.world }

def removeAll (os : Os) (t : Thread) (order : List (Σ _ : ℕ, HwBreakpointEntry))
    (p : Process) : Process :=
  let p' := p.onThread t fun dbg => order.foldl (fun dbg e => clearEntry os e.2 dbg) dbg
  { p' with world := HardwareBreakpoint.removeAll order p.world }

def exec (target : Target) (t : Thread) : Call → Process → Process
  | .set env address typeStr size onHit, p => set target env t address typeStr size onHit p
  | .remove bpId, p => remove target.os t bpId p
  | .removeAll order, p => removeAll target.os t order p

/-- A call of some thread, or anything that leaves the hardware breakpoints and the debug
registers alone. -/
inductive Step (target : Target) (p : Process) : Option (Thread × Call) → Process → Prop where
  | call (t : Thread) (c : Call)
      (permitted : ∀ order, c = .removeAll order → order.Perm p.world.hw.hwById.entries) :
      Step target p (some (t, c)) (exec target t c p)
  | elsewhere {world : World} (untouched : world.hw = p.world.hw) :
      Step target p none { p with world := world }

/-! ## §3  Armed where they were set -/

/-- The thread that set a live breakpoint has its register enabled, with its address. -/
def ArmedOnSetter (p : Process) : Prop :=
  ∀ e, Active p.world.hw e → ∃ slot, e.slot = some slot ∧
    (p.regs (p.setter e.address)).Enables slot ∧
    (p.regs (p.setter e.address)).dr slot = e.address

/-- No register that a thread has enabled holds an address without a live breakpoint, and
live breakpoints are armed. -/
structure Disarmed (p : Process) : Prop where
  live : ∀ t slot, (p.regs t).Enables slot →
    ∃ e, Active p.world.hw e ∧ e.address = (p.regs t).dr slot
  armed : ArmedOnSetter p

/-- A breakpoint is removed by the thread that set it. -/
def BySetter (p : Process) : Option (Thread × Call) → Prop
  | some (t, .remove bpId) => ∀ e, p.world.hw.hwById.lookup bpId = some e → p.setter e.address = t
  | some (t, .removeAll _) => ∀ e, Active p.world.hw e → p.setter e.address = t
  | some (_, .set _ _ _ _ _) => True
  | none => True

/-- What guarded calls keep: every register enabled is that of a live breakpoint, on the thread
that set it. -/
structure Local (os : Os) (p : Process) : Prop where
  assigned : Assigned os p.world.hw
  only : ∀ t slot, (p.regs t).Enables slot →
    ∃ e, Active p.world.hw e ∧ e.slot = some slot ∧ e.address = (p.regs t).dr slot ∧
      p.setter e.address = t
  armed : ArmedOnSetter p

theorem Local.disarmed {os : Os} {p : Process} (h : Local os p) : Disarmed p where
  live := by
    intro t slot henabled
    obtain ⟨e, hactive, -, haddress, -⟩ := h.only t slot henabled
    exact ⟨e, hactive, haddress⟩
  armed := h.armed

theorem Local.start (os : Os) (code : Memory) (disposition : Sig → SigAction) :
    Local os (Process.start code disposition) where
  assigned := .start os
  only := by
    intro t slot henabled
    simp [DebugState.Enables, Process.start] at henabled
  armed := by
    intro e hactive
    cases hactive

/-! ## §4  set -/

section Set

variable {target : Target} {env : Install} {address : Addr} {typeStr : String} {size : ℤ}
  {onHit : Callback}

/-- A `set` that succeeds hands out the next identifier. -/
theorem set_ok_id {w : World} {bpId : ℕ}
    (h : (HardwareBreakpoint.set target env address typeStr size onHit w).1 = .ok bpId) :
    bpId = w.hw.nextHwId ∧
      (HardwareBreakpoint.set target env address typeStr size onHit w).2.hw.nextHwId =
        w.hw.nextHwId + 1 := by
  unfold HardwareBreakpoint.set at h ⊢
  by_cases hunsupported : target = ⟨.arm64, .darwin⟩
  · rw [if_pos hunsupported] at h
    cases h
  rw [if_neg hunsupported] at h ⊢
  cases htype : HardwareBreakpoint.parseType typeStr with
  | error e => simp [htype] at h
  | ok type =>
      simp only [htype] at h ⊢
      by_cases hmem : address ∈ w.hw.hwByAddress
      · simp [hmem] at h
      by_cases hmax : HardwareBreakpoint.platformMaxBreakpoints target ≤
          w.hw.hwByAddress.entries.length
      · simp [hmem, hmax] at h
      simp only [if_neg hmem, if_neg hmax] at h ⊢
      have hhw := (HardwareBreakpoint.buildBlocks_aside env type
        ((HardwareBreakpoint.ensureHwHandlerInstalled w).allocate env.self)).hw
      generalize HardwareBreakpoint.buildBlocks env type
        ((HardwareBreakpoint.ensureHwHandlerInstalled w).allocate env.self) = result at *
      obtain ⟨answer, w₁⟩ := result
      have hstate : w₁.hw.nextHwId = w.hw.nextHwId := by
        rw [hhw, World.allocate_hw, HardwareBreakpoint.ensureHwHandlerInstalled_nextHwId]
      cases answer with
      | error e => simp at h
      | ok blocks =>
          rcases HardwareBreakpoint.arm_cases target.os address type size env.perfFd w₁.hw with
            ⟨e, harm⟩ | ⟨fd, slot, used, harm, -⟩
          · simp [harm] at h
          · simp only [harm] at h ⊢
            exact ⟨(Except.ok.inj h).symm.trans hstate, by simp [hstate]⟩

theorem set_world (t : Thread) (p : Process) :
    (set target env t address typeStr size onHit p).world =
      (HardwareBreakpoint.set target env address typeStr size onHit p.world).2 := by
  unfold set
  split
  · rename_i heq
    rw [heq]
  · rename_i heq
    rw [heq]
    dsimp only
    split <;> rfl

/-- A new breakpoint, armed on the calling thread in a register that was free. -/
structure Arms (t : Thread) (address : Addr) (p p' : Process) (entry : HwBreakpointEntry)
    (slot : Fin 4) : Prop where
  address_eq : entry.address = address
  slot_eq : entry.slot = some slot
  fresh : address ∉ p.world.hw.hwByAddress
  free : p.world.hw.usedSlots.getLsbD slot = false
  byAddress : p'.world.hw.hwByAddress = p.world.hw.hwByAddress.insert address entry
  setter : p'.setter = Function.update p.setter address t
  regs : p'.regs =
    Function.update p.regs t (setDebugReg slot address entry.type entry.size (p.regs t))

/-- `set` fails and leaves the breakpoints and the registers, or arms one. -/
theorem set_cases (hos : target.os ≠ .linux) (t : Thread) (p : Process) :
    (set target env t address typeStr size onHit p).regs = p.regs ∧
      (set target env t address typeStr size onHit p).setter = p.setter ∧
      (set target env t address typeStr size onHit p).world.hw.hwByAddress =
        p.world.hw.hwByAddress ∨
    ∃ entry slot, Arms t address p (set target env t address typeStr size onHit p) entry slot := by
  have hkeeps := HardwareSlots.failureKeeps target p.world env address typeStr size onHit
  have hid := @set_ok_id target env address typeStr size onHit p.world
  have hcases := HardwareBreakpoint.set_target_cases target env address typeStr size onHit p.world
  unfold set
  generalize HardwareBreakpoint.set target env address typeStr size onHit p.world = result at *
  obtain ⟨answer, world⟩ := result
  cases answer with
  | error e => exact .inl ⟨rfl, rfl, (hkeeps e rfl).2.2⟩
  | ok bpId =>
      right
      obtain ⟨rfl, hmoved⟩ := hid rfl
      have hnext : world.hw.nextHwId = p.world.hw.nextHwId + 1 := hmoved
      -- the counter moves only when a breakpoint is made
      rcases hcases with hsame | haside | ⟨entry, hfresh, -, htaken, hlive⟩
      · rw [show world = p.world from hsame] at hnext
        omega
      · rw [show world.hw = _ from haside.hw,
          HardwareBreakpoint.ensureHwHandlerInstalled_nextHwId] at hnext
        omega
      · obtain ⟨slot, hslot⟩ := Option.ne_none_iff_exists'.mp (mt htaken.slot_none.mp hos)
        have hbyId := hlive.byId
        have hbyAddress := hlive.byAddress
        rw [HardwareBreakpoint.ensureHwHandlerInstalled_hwById,
          HardwareBreakpoint.ensureHwHandlerInstalled_nextHwId] at hbyId
        rw [HardwareBreakpoint.ensureHwHandlerInstalled_hwByAddress] at hbyAddress
        rw [hslot] at htaken
        have hlookup : (world.hw.hwById.lookup p.world.hw.nextHwId).bind
            (fun entry => entry.slot.map (entry, ·)) = some (entry, slot) := by
          rw [show world.hw.hwById = _ from hbyId, AList.lookup_insert]
          simp [hslot]
        dsimp only
        rw [hlookup]
        refine ⟨entry, slot, hlive.address_eq, hslot, hfresh, htaken.fresh, hbyAddress, rfl, ?_⟩
        simp [Process.onThread, hlive.address_eq]

/-- A breakpoint that was live before is not at the new one's address nor in its register. -/
theorem Arms.apart {os : Os} {t : Thread} {p p' : Process} {entry e : HwBreakpointEntry}
    {slot : Fin 4} (h : Arms t address p p' entry slot) (ha : Assigned os p.world.hw)
    (he : Active p.world.hw e) : e.address ≠ address ∧ e.slot ≠ some slot ∧
      Active p'.world.hw e := by
  have hne : e.address ≠ address := by
    intro heq
    exact h.fresh (heq ▸ AList.lookup_isSome.mp (Option.isSome_of_eq_some he))
  refine ⟨hne, fun hslot => ?_, ?_⟩
  · exact absurd ((ha.inUse he hslot).symm.trans h.free) (by decide)
  · rw [Active, h.byAddress, AList.lookup_insert_ne hne]
    exact he

theorem Arms.active_cases {t : Thread} {p p' : Process} {entry e : HwBreakpointEntry}
    {slot : Fin 4} (h : Arms t address p p' entry slot) (he : Active p'.world.hw e) :
    e = entry ∨ Active p.world.hw e := by
  rw [Active, h.byAddress] at he
  rcases lookup_insert_cases he with ⟨-, rfl⟩ | ⟨-, hold⟩
  · exact .inl rfl
  · exact .inr hold

theorem Arms.elsewhere {t : Thread} {p p' : Process} {entry : HwBreakpointEntry} {slot : Fin 4}
    (h : Arms t address p p' entry slot) {u : Thread} {j : Fin 4}
    (hother : ¬ (u = t ∧ j = slot)) :
    ((p'.regs u).Enables j ↔ (p.regs u).Enables j) ∧ (p'.regs u).dr j = (p.regs u).dr j := by
  rw [h.regs]
  exact update_elsewhere (sameBut_setDebugReg _ _ _ _ _) hother

theorem Arms.local {os : Os} {t : Thread} {p p' : Process} {entry : HwBreakpointEntry}
    {slot : Fin 4} (h : Arms t address p p' entry slot) (ha : Assigned os p'.world.hw)
    (hl : Local os p) : Local os p' := by
  have hentry : Active p'.world.hw entry := by
    rw [Active, h.byAddress, h.address_eq, AList.lookup_insert]
  refine ⟨ha, fun u j henabled => ?_, fun e he => ?_⟩
  · by_cases hself : u = t ∧ j = slot
    · obtain ⟨rfl, rfl⟩ := hself
      refine ⟨entry, hentry, h.slot_eq, ?_, ?_⟩
      · rw [h.regs, Function.update_self, setDebugReg_dr_self, h.address_eq]
      · rw [h.setter, h.address_eq, Function.update_self]
    -- every other register is as it was
    · obtain ⟨hsame, hdr⟩ := h.elsewhere hself
      obtain ⟨e, he, hslot, haddress, hsetter⟩ := hl.only u j (hsame.mp henabled)
      obtain ⟨hne, -, hactive⟩ := h.apart hl.assigned he
      refine ⟨e, hactive, hslot, haddress.trans hdr.symm, ?_⟩
      rw [h.setter, Function.update_of_ne hne]
      exact hsetter
  · rcases h.active_cases he with rfl | hold
    · refine ⟨slot, h.slot_eq, ?_⟩
      rw [h.setter, h.address_eq, Function.update_self, h.regs, Function.update_self]
      exact ⟨enables_setDebugReg.mpr (.inr rfl), setDebugReg_dr_self⟩
    · obtain ⟨hne, hfree, -⟩ := h.apart hl.assigned hold
      obtain ⟨j, hslot, henabled, haddress⟩ := hl.armed e hold
      have hj : j ≠ slot := by
        rintro rfl
        exact hfree hslot
      obtain ⟨hsame, hdr⟩ := @Arms.elsewhere _ _ _ _ _ _ h (p.setter e.address) j
        fun hself => hj hself.2
      refine ⟨j, hslot, ?_⟩
      rw [h.setter, Function.update_of_ne hne]
      exact ⟨hsame.mpr henabled, hdr.trans haddress⟩

theorem Local.set (hos : target.os ≠ .linux) {p : Process} (h : Local target.os p) (t : Thread) :
    Local target.os (set target env t address typeStr size onHit p) := by
  have ha : Assigned target.os (DebugRegisters.set target env t address typeStr size onHit
      p).world.hw := by
    rw [set_world]
    exact h.assigned.set env address typeStr size onHit
  rcases @set_cases target env address typeStr size onHit hos t p with
    ⟨hregs, hsetter, hmap⟩ | ⟨entry, slot, harms⟩
  · obtain ⟨-, only, armed⟩ := h
    refine ⟨ha, ?_, ?_⟩
    · rw [hregs, hsetter]
      simpa only [Active, hmap] using only
    · intro e he
      rw [hregs, hsetter]
      rw [Active, hmap] at he
      exact armed e he
  · exact harms.local ha h

end Set

/-! ## §5  remove and removeAll -/

section Remove

variable {os : Os} {p : Process} {t : Thread}

/-- The breakpoint removed, if there is one. -/
theorem remove_cases (bpId : ℕ) :
    (p.world.hw.hwById.lookup bpId = none ∧ remove os t bpId p = p) ∨
    ∃ e, p.world.hw.hwById.lookup bpId = some e ∧
      (remove os t bpId p).regs = Function.update p.regs t (clearEntry os e (p.regs t)) ∧
      (remove os t bpId p).setter = p.setter ∧
      (remove os t bpId p).world = HardwareBreakpoint.remove bpId p.world ∧
      (remove os t bpId p).world.hw.hwByAddress = p.world.hw.hwByAddress.erase e.address := by
  unfold remove
  cases hl : p.world.hw.hwById.lookup bpId with
  | none =>
      left
      refine ⟨rfl, ?_⟩
      simp [HardwareBreakpoint.remove, hl]
  | some e =>
      right
      refine ⟨e, rfl, rfl, rfl, rfl, ?_⟩
      simp [HardwareBreakpoint.remove, hl]

theorem Local.remove (hos : os ≠ .linux) (h : Local os p) (bpId : ℕ)
    (hsetter : ∀ e, p.world.hw.hwById.lookup bpId = some e → p.setter e.address = t) :
    Local os (remove os t bpId p) := by
  rcases @remove_cases os p t bpId with
    ⟨-, hsame⟩ | ⟨e, hlookup, hregs, hset, hworld, hmap⟩
  · rw [hsame]
    exact h
  · have he : Active p.world.hw e := h.assigned.indexed.toKey hlookup
    obtain ⟨slot, hslot⟩ := Option.ne_none_iff_exists'.mp (mt (h.assigned.slotless he).mp hos)
    have hclear : clearEntry os e = clearDebugReg slot := by
      simp [clearEntry, hslot]
    have hmine := hsetter e hlookup
    rw [hclear] at hregs
    -- what is live afterwards was live before, at another address and in another register
    have hactive : ∀ e', Active (DebugRegisters.remove os t bpId p).world.hw e' ↔
        Active p.world.hw e' ∧ e'.address ≠ e.address := by
      intro e'
      rw [Active, hmap]
      constructor
      · intro he'
        obtain ⟨hne, hold⟩ := lookup_erase_cases he'
        exact ⟨hold, hne⟩
      · rintro ⟨hold, hne⟩
        rw [AList.lookup_erase_ne hne]
        exact hold
    refine ⟨?_, fun u j henabled => ?_, fun e' he' => ?_⟩
    · rw [hworld]
      exact h.assigned.remove bpId
    · rw [hregs] at henabled ⊢
      rw [hset]
      have hnot : ¬ (u = t ∧ j = slot) := by
        rintro ⟨rfl, rfl⟩
        rw [Function.update_self] at henabled
        exact (enables_clearDebugReg.mp henabled).2 rfl
      obtain ⟨hsame, hdr⟩ := update_elsewhere (sameBut_clearDebugReg slot (p.regs t)) hnot
      obtain ⟨e', he', hslot', haddress, hthread⟩ := h.only u j (hsame.mp henabled)
      refine ⟨e', (hactive e').mpr ⟨he', fun heq => hnot ?_⟩, hslot', haddress.trans hdr.symm,
        hthread⟩
      rw [Active, heq, he] at he'
      obtain rfl := Option.some.inj he'
      exact ⟨hthread.symm.trans hmine, Option.some.inj (hslot'.symm.trans hslot)⟩
    · obtain ⟨hold, hne⟩ := (hactive e').mp he'
      obtain ⟨j, hslot', henabled, haddress⟩ := h.armed e' hold
      have hj : j ≠ slot := by
        rintro rfl
        exact hne (h.assigned.distinct hold he hslot' hslot)
      obtain ⟨hsame, hdr⟩ := @update_elsewhere p.regs t (p.setter e'.address) _ _ j
        (sameBut_clearDebugReg slot (p.regs t)) fun hself => hj hself.2
      refine ⟨j, hslot', ?_⟩
      rw [hset, hregs]
      exact ⟨hsame.mpr henabled, hdr.trans haddress⟩

/-- Registers are only cleared by the loop, those of the entries that it comes to. -/
theorem enables_clearAll {order : List (Σ _ : ℕ, HwBreakpointEntry)} {dbg : DebugState}
    {slot : Fin 4}
    (henabled : (order.foldl (fun dbg e => clearEntry os e.2 dbg) dbg).Enables slot) :
    dbg.Enables slot ∧ ∀ e ∈ order, e.2.slot ≠ some slot := by
  induction order generalizing dbg with
  | nil => exact ⟨henabled, by simp⟩
  | cons e rest ih =>
      obtain ⟨hfirst, hrest⟩ := ih henabled
      rw [List.forall_mem_cons]
      cases hslot : e.2.slot with
      | none =>
          simp only [clearEntry, hslot] at hfirst
          exact ⟨hfirst, by simp, hrest⟩
      | some slot' =>
          simp only [clearEntry, hslot, clearReg_eq] at hfirst
          obtain ⟨hbefore, hne⟩ := enables_clearDebugReg.mp hfirst
          exact ⟨hbefore, fun heq => hne (Option.some.inj heq).symm, hrest⟩

theorem not_active_removeAll (order : List (Σ _ : ℕ, HwBreakpointEntry)) (e : HwBreakpointEntry) :
    ¬ Active (removeAll os t order p).world.hw e := by
  simp [Active, removeAll, HardwareBreakpoint.removeAll]

theorem Local.removeAll (h : Local os p) {order : List (Σ _ : ℕ, HwBreakpointEntry)}
    (hperm : order.Perm p.world.hw.hwById.entries)
    (hsetter : ∀ e, Active p.world.hw e → p.setter e.address = t) :
    Local os (removeAll os t order p) := by
  refine ⟨.removeAll order p.world, fun u j henabled => ?_, fun e he => ?_⟩
  · exfalso
    have hregs : (DebugRegisters.removeAll os t order p).regs = Function.update p.regs t
        (order.foldl (fun dbg e => clearEntry os e.2 dbg) (p.regs t)) := rfl
    rw [hregs] at henabled
    by_cases hu : u = t
    · subst hu
      rw [Function.update_self] at henabled
      obtain ⟨hold, hgone⟩ := enables_clearAll henabled
      obtain ⟨e, he, hslot, -, -⟩ := h.only u j hold
      obtain ⟨-, bpId, hid⟩ := h.assigned.indexed.toId he
      exact hgone ⟨bpId, e⟩ (hperm.mem_iff.mpr (AList.mem_lookup_iff.mp hid)) hslot
    · rw [Function.update_of_ne hu] at henabled
      obtain ⟨e, he, -, -, hthread⟩ := h.only u j henabled
      exact hu (hthread.symm.trans (hsetter e he))
  · exact absurd he (not_active_removeAll order e)

/-- A register that another thread has set stays as it is. -/
theorem not_disarmed_of_left {p' : Process} (h : Local os p) {e : HwBreakpointEntry}
    (he : Active p.world.hw e) (hother : p.setter e.address ≠ t)
    (hregs : ∀ u, u ≠ t → p'.regs u = p.regs u)
    (hgone : ∀ e', Active p'.world.hw e' → e'.address ≠ e.address) : ¬ Disarmed p' := by
  intro hdisarmed
  obtain ⟨slot, -, henabled, haddress⟩ := h.armed e he
  rw [← hregs _ hother] at henabled haddress
  obtain ⟨e', he', haddress'⟩ := hdisarmed.live _ slot henabled
  exact hgone e' he' (haddress'.trans haddress)

end Remove

/-! ## §6  Runs -/

section Runs

variable {target : Target} {p p' : Process} {c : Option (Thread × Call)}

theorem Local.step (hos : target.os ≠ .linux) (h : Local target.os p) (hok : BySetter p c)
    (hstep : Step target p c p') : Local target.os p' := by
  cases hstep with
  | call t c permitted =>
      cases c with
      | set env address typeStr size onHit => exact h.set hos t
      | remove bpId => exact h.remove hos bpId hok
      | removeAll order => exact h.removeAll (permitted order rfl) hok
  | elsewhere huntouched =>
      obtain ⟨assigned, only, armed⟩ := h
      rw [← huntouched] at assigned only
      refine ⟨assigned, only, fun e he => armed e ?_⟩
      rw [← huntouched]
      exact he

/-- A breakpoint that another thread removes stays in the register of the one that set it. -/
theorem not_disarmed (h : Local target.os p) (hno : ¬ BySetter p c)
    (hstep : Step target p c p') : ¬ Disarmed p' := by
  cases hstep with
  | call t c permitted =>
      cases c with
      | set env address typeStr size onHit => exact absurd trivial hno
      | remove bpId =>
          simp only [BySetter, not_forall] at hno
          obtain ⟨e, hlookup, hother⟩ := hno
          rcases @remove_cases target.os p t bpId with
            ⟨hnone, -⟩ | ⟨e', hlookup', hregs, -, -, hmap⟩
          · rw [hnone] at hlookup
            cases hlookup
          · obtain rfl := Option.some.inj (hlookup.symm.trans hlookup')
            refine not_disarmed_of_left h (h.assigned.indexed.toKey hlookup) hother ?_ ?_
            · intro u hu
              exact (congrFun hregs u).trans (Function.update_of_ne hu _ _)
            · intro e' he'
              rw [exec, Active, hmap] at he'
              exact (lookup_erase_cases he').1
      | removeAll order =>
          simp only [BySetter, not_forall] at hno
          obtain ⟨e, he, hother⟩ := hno
          refine not_disarmed_of_left h he hother ?_ ?_
          · intro u hu
            exact Function.update_of_ne hu _ _
          · intro e' he'
            exact absurd he' (not_active_removeAll order e')
  | elsewhere huntouched => exact absurd trivial hno

/-- **Debug registers of threads.** In the runs in which breakpoints are removed by the threads
that set them, and in no others, every register enabled on any thread always holds the address
of a live breakpoint and every live breakpoint is armed on the thread that set it. -/
theorem disarmed_iff {code : Memory} {disposition : Sig → SigAction}
    {tr : List (Process × Option (Thread × Call))} (hos : target.os ≠ .linux)
    (run : Run (Step target) (Process.start code disposition) tr p) :
    Throughout Disarmed tr p ↔ Guarded BySetter tr := by
  apply run.throughout_iff_of_invariant (J := Local target.os)
  · exact .start target.os code disposition
  · intro p c p' h hok hstep
    exact h.step hos hok hstep
  · intro p h
    exact h.disarmed
  · intro p c p' h hno hstep
    exact not_disarmed h hno hstep

end Runs

section Concrete

def empty : Process := .start (fun _ => 0) defaultActions

/-- A watchpoint on 0x1000. -/
def watch : Call := .set ⟨0x10, .ok (0, 0), .ok 0, 3⟩ 0x1000 "write" 4 7

def windows : Target := ⟨.x64, .windows⟩

def watched (t : Thread) : Process := exec windows t watch empty

/-- Thread `t` sets the watchpoint and thread `u` removes it. -/
theorem run_removed (t u : Thread) : Run (Step windows) empty
    [(empty, some (t, watch)), (watched t, some (u, .remove 1))]
    (exec windows u (.remove 1) (watched t)) :=
  (Run.nil.snoc (.call t watch nofun)).snoc (.call u (.remove 1) nofun)

theorem disarmed_removed : Throughout Disarmed
    [(empty, some (0, watch)), (watched 0, some (0, .remove 1))]
    (exec windows 0 (.remove 1) (watched 0)) := by
  refine (disarmed_iff (by decide) (run_removed 0 0)).mpr ?_
  intro p hp
  simp only [List.mem_cons, List.not_mem_nil, or_false] at hp
  rcases hp with rfl | rfl
  · trivial
  · intro e _
    change Function.update (fun _ => 0) (0x1000 : Addr) 0 e.address = 0
    rw [Function.update_eq_self_iff.mpr rfl]

/-- Removed by thread 1, the watchpoint of thread 0 is gone for the process and still armed. -/
theorem armed_after_remove :
    Run (Step windows) empty [(empty, some (0, watch)), (watched 0, some (1, .remove 1))]
      (exec windows 1 (.remove 1) (watched 0)) ∧
    (exec windows 1 (.remove 1) (watched 0)).world.hw.hwByAddress.entries = [] ∧
    ((exec windows 1 (.remove 1) (watched 0)).regs 0).Enables 0 ∧
    ((exec windows 1 (.remove 1) (watched 0)).regs 0).dr 0 = 0x1000 ∧
    ¬ Disarmed (exec windows 1 (.remove 1) (watched 0)) := by
  have hnone : (exec windows 1 (.remove 1) (watched 0)).world.hw.hwByAddress.entries = [] := rfl
  have henabled : ((exec windows 1 (.remove 1) (watched 0)).regs 0).Enables 0 := by decide
  refine ⟨run_removed 0 1, hnone, henabled, rfl, fun h => ?_⟩
  obtain ⟨e, he, -⟩ := h.live 0 0 henabled
  exact notMem_of_entries_eq_nil hnone _ (AList.lookup_isSome.mp (Option.isSome_of_eq_some he))

end Concrete

end DebugRegisters

end Chromatic
