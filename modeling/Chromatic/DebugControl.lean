import Chromatic.DebugRegisters
import Chromatic.Foundation.BitFields

/-!
# The debug control register

What `set` leaves in DR7 on Windows and macOS: the fields of the slot it takes, against what it
was asked for, and the bits of the other slots.

§1 the fields of a slot · §2 what the write leaves · §3 when set throws · §4 set.
-/

namespace Chromatic

open Foundation
open HardwareBreakpoint (Install parseType findFreeSlot platformMaxBreakpoints)
open DebugRegisters

namespace DebugControl

/-! ## §1  The fields of a slot -/

def rwField (dr7 : BitVec 64) (slot : Fin 4) : BitVec 2 := dr7.extractLsb' (16 + slot * 4) 2

def lenField (dr7 : BitVec 64) (slot : Fin 4) : BitVec 2 := dr7.extractLsb' (18 + slot * 4) 2

/-- The two enable bits of a slot, its type and its length. -/
def Owns (slot : Fin 4) (k : ℕ) : Prop :=
  k = slot * 2 ∨ k = slot * 2 + 1 ∨ 16 + slot * 4 ≤ k ∧ k < 20 + slot * 4

/-- 00 for execution, 01 for writes, 11 for both kinds of access. -/
def rwCode : HwBpType → BitVec 2
  | .execute => 0b00
  | .write => 0b01
  | .readWrite => 0b11

/-- The code of the length of a watchpoint. -/
def LenCode (size : ℤ) (len : BitVec 2) : Prop :=
  size = 1 ∧ len = 0b00 ∨ size = 2 ∧ len = 0b01 ∨ size = 4 ∧ len = 0b11 ∨ size = 8 ∧ len = 0b10

/-- The registers say what was asked for, and nothing else of them has changed. -/
structure Encodes (type : HwBpType) (size : ℤ) (address : Addr) (slot : Fin 4)
    (dbg dbg' : DebugState) : Prop where
  enabled : dbg'.Enables slot
  access : rwField dbg'.dr7 slot = rwCode type
  execute : type = .execute → lenField dbg'.dr7 slot = 0
  data : type ≠ .execute → LenCode size (lenField dbg'.dr7 slot)
  others : ∀ j, j ≠ slot → ∀ k < 64, Owns j k → dbg'.dr7.getLsbD k = dbg.dr7.getLsbD k
  address_eq : dbg'.dr slot = address

/-! ## §2  What the write leaves -/

section Write

variable {type : HwBpType} {size : ℤ} {address : Addr} {slot j : Fin 4} {dbg : DebugState}
  {k : ℕ}

/-- The five updates are a bit and two fields. -/
theorem setControl_eq (slot : Fin 4) (type : HwBpType) (size : ℤ) (dr7 : BitVec 64) :
    setControl slot type size dr7 =
      setField (setField (dr7 ||| (1 : BitVec 64) <<< (slot * 2 : ℕ)) (16 + slot * 4)
        (rwCode type)) (18 + slot * 4) ((lenVal size).setWidth 2) := by
  have htype : (rwCode type).setWidth 64 = typeVal type := by
    cases type <;> rfl
  have hlen : ((lenVal size).setWidth 2).setWidth 64 = lenVal size := by
    unfold lenVal
    split_ifs <;> rfl
  rw [setField, setField, htype, hlen]
  rfl

theorem rwField_setControl (dr7 : BitVec 64) :
    rwField (setControl slot type size dr7) slot = rwCode type := by
  rw [rwField, setControl_eq, extractLsb'_setField_apart _ _ (by omega) (by omega),
    extractLsb'_setField _ _ (by omega)]

theorem lenField_setControl (dr7 : BitVec 64) :
    lenField (setControl slot type size dr7) slot = (lenVal size).setWidth 2 := by
  rw [lenField, setControl_eq, extractLsb'_setField _ _ (by omega)]

/-- Only the local enable bit and the two fields are written. -/
theorem getLsbD_setControl_apart (dr7 : BitVec 64) (hk : k < 64) (hbit : k ≠ slot * 2)
    (hfields : ¬ (16 + slot * 4 ≤ k ∧ k < 20 + slot * 4)) :
    (setControl slot type size dr7).getLsbD k = dr7.getLsbD k := by
  rw [setControl_eq, getLsbD_setField _ _ hk, if_neg (by omega), getLsbD_setField _ _ hk,
    if_neg (by omega), getLsbD_take dr7 hk]
  simp [hbit]

/-- The bits of two slots are apart. -/
theorem Owns.apart (h : Owns j k) (hne : j ≠ slot) :
    k ≠ slot * 2 ∧ ¬ (16 + slot * 4 ≤ k ∧ k < 20 + slot * 4) := by
  have hval : (j : ℕ) ≠ slot := fun hsame => hne (Fin.ext hsame)
  have := j.isLt
  have := slot.isLt
  rcases h with hlocal | hglobal | hfields <;> omega

/-- The length of an execute breakpoint is none of 2, 4 and 8, that of a watchpoint is one that
the hardware has. -/
def SizeFits (type : HwBpType) (size : ℤ) : Prop :=
  if type = .execute then size ≠ 2 ∧ size ≠ 4 ∧ size ≠ 8
  else size = 1 ∨ size = 2 ∨ size = 4 ∨ size = 8

instance (type : HwBpType) (size : ℤ) : Decidable (SizeFits type size) := by
  unfold SizeFits
  infer_instance

theorem lenVal_eq_zero_iff : (lenVal size).setWidth 2 = 0 ↔ size ≠ 2 ∧ size ≠ 4 ∧ size ≠ 8 := by
  unfold lenVal
  split_ifs <;> simp <;> omega

theorem lenCode_lenVal_iff : LenCode size ((lenVal size).setWidth 2) ↔
    size = 1 ∨ size = 2 ∨ size = 4 ∨ size = 8 := by
  unfold LenCode lenVal
  split_ifs <;> simp <;> omega

theorem encodes_setDebugReg_iff :
    Encodes type size address slot dbg (setDebugReg slot address type size dbg) ↔
      SizeFits type size := by
  unfold SizeFits
  constructor
  · intro h
    have hexecute := h.execute
    have hdata := h.data
    rw [setDebugReg, lenField_setControl] at hexecute hdata
    split_ifs with htype
    · exact lenVal_eq_zero_iff.mp (hexecute htype)
    · exact lenCode_lenVal_iff.mp (hdata htype)
  · intro h
    refine ⟨enables_setDebugReg.mpr (.inr rfl), rwField_setControl _, fun htype => ?_,
      fun htype => ?_, fun j hj k hk howns => ?_, setDebugReg_dr_self⟩
    · rw [if_pos htype] at h
      exact (lenField_setControl _).trans (lenVal_eq_zero_iff.mpr h)
    · rw [if_neg htype] at h
      rw [setDebugReg, lenField_setControl]
      exact lenCode_lenVal_iff.mpr h
    · obtain ⟨hbit, hfields⟩ := howns.apart hj
      exact getLsbD_setControl_apart _ hk hbit hfields

end Write

/-! ## §3  When set throws -/

/-- The relocated code or the trampoline of an execute breakpoint cannot be built. -/
def BuildFails (env : Install) : Prop :=
  (∃ e, env.relocated = .error e) ∨ ∃ e, env.trampoline = .error e

/-- A reason for `set` to throw, none of which is the size. -/
def Refused (target : Target) (env : Install) (address : Addr) (typeStr : String) (w : World) :
    Prop :=
  (∀ type, parseType typeStr ≠ .ok type) ∨ address ∈ w.hw.hwByAddress ∨
    platformMaxBreakpoints target ≤ w.hw.hwByAddress.entries.length ∨
    (typeStr = "execute" ∧ BuildFails env) ∨ findFreeSlot w.hw.usedSlots = none

section Set

variable {target : Target} {env : Install} {address : Addr} {typeStr : String} {size : ℤ}
  {onHit : Callback} {type : HwBpType} {slot : Fin 4} {w : World}

theorem parseType_execute (h : parseType typeStr = .ok type) :
    type = .execute ↔ typeStr = "execute" := by
  unfold HardwareBreakpoint.parseType at h
  split_ifs at h with hexecute hwrite hboth
  · obtain rfl := Except.ok.inj h
    exact iff_of_true rfl hexecute
  · obtain rfl := Except.ok.inj h
    exact iff_of_false (by decide) hexecute
  · obtain rfl := Except.ok.inj h
    exact iff_of_false (by decide) hexecute

theorem buildBlocks_ok_iff :
    (∃ blocks, (HardwareBreakpoint.buildBlocks env type w).1 = .ok blocks) ↔
      ¬ (type = .execute ∧ BuildFails env) := by
  unfold HardwareBreakpoint.buildBlocks BuildFails
  by_cases htype : type = .execute
  · rw [if_pos htype]
    cases env.relocated with
    | error e => simp [htype]
    | ok block =>
        cases env.trampoline with
        | error e => simp [htype]
        | ok t => simp
  · simp [htype]

theorem arm_free (hos : target.os ≠ .linux) (addr : Addr) (type : HwBpType) (bpSize perfFd : ℤ)
    (h : HwState) (hfree : findFreeSlot h.usedSlots = some slot) :
    ∃ used, HardwareBreakpoint.arm target.os addr type bpSize perfFd h =
      (.ok (-1, some slot), { h with usedSlots := used }) := by
  unfold HardwareBreakpoint.arm
  cases hcase : target.os with
  | linux => exact absurd hcase hos
  | darwin => exact ⟨_, by simp only [hfree]; rfl⟩
  | windows => exact ⟨_, by simp only [hfree]; rfl⟩

theorem arm_full (hos : target.os ≠ .linux) (addr : Addr) (type : HwBpType) (bpSize perfFd : ℤ)
    (h : HwState) (hfull : findFreeSlot h.usedSlots = none) :
    HardwareBreakpoint.arm target.os addr type bpSize perfFd h =
      (.error "No free hardware breakpoint slots", h) := by
  unfold HardwareBreakpoint.arm
  cases hcase : target.os with
  | linux => exact absurd hcase hos
  | darwin => simp only [hfull]
  | windows => simp only [hfull]

/-- What `set` answers when there is no reason to throw. -/
structure Succeeds (address : Addr) (type : HwBpType) (size : ℤ) (slot : Fin 4) (w : World)
    (result : Except String ℕ × World) : Prop where
  answer : result.1 = .ok w.hw.nextHwId
  entry : ∃ entry, result.2.hw.hwById.lookup w.hw.nextHwId = some entry ∧
    entry.address = address ∧ entry.type = type ∧ entry.size = size ∧ entry.slot = some slot

theorem set_cases (hos : target.os ≠ .linux) (harch : target.arch = .x64) :
    Refused target env address typeStr w ∧
      (∃ e, (HardwareBreakpoint.set target env address typeStr size onHit w).1 = .error e) ∨
    ¬ Refused target env address typeStr w ∧ ∃ type slot, parseType typeStr = .ok type ∧
      findFreeSlot w.hw.usedSlots = some slot ∧
      Succeeds address type size slot w
        (HardwareBreakpoint.set target env address typeStr size onHit w) := by
  have hsupported : target ≠ ⟨.arm64, .darwin⟩ := by
    rintro rfl
    cases harch
  unfold HardwareBreakpoint.set
  rw [if_neg hsupported]
  cases htype : parseType typeStr with
  | error e => exact .inl ⟨.inl (by simp [htype]), e, rfl⟩
  | ok type =>
      by_cases hmem : address ∈ w.hw.hwByAddress
      · simp only [if_pos hmem]
        exact .inl ⟨.inr (.inl hmem), _, rfl⟩
      by_cases hmax : platformMaxBreakpoints target ≤ w.hw.hwByAddress.entries.length
      · simp only [if_neg hmem, if_pos hmax]
        exact .inl ⟨.inr (.inr (.inl hmax)), _, rfl⟩
      simp only [if_neg hmem, if_neg hmax]
      have hok := @buildBlocks_ok_iff env type
        ((HardwareBreakpoint.ensureHwHandlerInstalled w).allocate env.self)
      have haside := (HardwareBreakpoint.buildBlocks_aside env type
        ((HardwareBreakpoint.ensureHwHandlerInstalled w).allocate env.self)).hw
      generalize HardwareBreakpoint.buildBlocks env type
        ((HardwareBreakpoint.ensureHwHandlerInstalled w).allocate env.self) = result at *
      obtain ⟨answer, w₁⟩ := result
      have hhw : w₁.hw = (HardwareBreakpoint.ensureHwHandlerInstalled w).hw := haside
      cases answer with
      | error e =>
          have hfails : type = .execute ∧ BuildFails env := by
            by_contra hnot
            obtain ⟨_, hblocks⟩ := hok.mpr hnot
            cases hblocks
          refine .inl ⟨.inr (.inr (.inr (.inl ⟨?_, hfails.2⟩))), e, rfl⟩
          exact (parseType_execute htype).mp hfails.1
      | ok blocks =>
          have hbuilt := hok.mp ⟨blocks, rfl⟩
          cases hfree : findFreeSlot w.hw.usedSlots with
          | none =>
              have harm := arm_full hos address type size env.perfFd w₁.hw
                (by rw [hhw]; simpa using hfree)
              simp only [harm]
              exact .inl ⟨.inr (.inr (.inr (.inr hfree))), _, rfl⟩
          | some slot =>
              obtain ⟨used, harm⟩ :=
                arm_free hos address type size env.perfFd w₁.hw
                  (by rw [hhw]; simpa using hfree)
              simp only [harm]
              refine .inr ⟨?_, type, slot, rfl, rfl, ?_, ?_⟩
              · rintro (hbad | hin | hfull | ⟨hexecute, hfails⟩ | hnone)
                · exact hbad type htype
                · exact hmem hin
                · exact hmax hfull
                · exact hbuilt ⟨(parseType_execute htype).mpr hexecute, hfails⟩
                · cases hfree.symm.trans hnone
              · simp [hhw]
              · refine ⟨_, by rw [hhw]; simp; rfl, rfl, rfl, rfl, rfl⟩

end Set

/-! ## §4  set -/

/-- `set` on thread `t` throws, or its registers say what was asked for. -/
def ThrowsOrEncodes (target : Target) (env : Install) (t : Thread) (address : Addr)
    (typeStr : String) (size : ℤ) (onHit : Callback) (p : Process) : Prop :=
  (∃ e, (HardwareBreakpoint.set target env address typeStr size onHit p.world).1 = .error e) ∨
    ∃ type slot, parseType typeStr = .ok type ∧
      findFreeSlot p.world.hw.usedSlots = some slot ∧
      Encodes type size address slot (p.regs t)
        ((DebugRegisters.set target env t address typeStr size onHit p).regs t)

section Fields

variable {target : Target} {env : Install} {t : Thread} {address : Addr} {typeStr : String}
  {size : ℤ} {onHit : Callback} {p : Process} {type : HwBpType} {slot : Fin 4}

theorem set_regs (h : Succeeds address type size slot p.world
      (HardwareBreakpoint.set target env address typeStr size onHit p.world)) :
    (DebugRegisters.set target env t address typeStr size onHit p).regs t =
      setDebugReg slot address type size (p.regs t) := by
  obtain ⟨hanswer, entry, hlookup, rfl, rfl, rfl, hslot⟩ := h
  unfold DebugRegisters.set
  generalize HardwareBreakpoint.set target env entry.address typeStr entry.size onHit
    p.world = result at *
  obtain ⟨answer, world⟩ := result
  obtain rfl : answer = .ok p.world.hw.nextHwId := hanswer
  have hentry : (world.hw.hwById.lookup p.world.hw.nextHwId).bind
      (fun entry => entry.slot.map (entry, ·)) = some (entry, slot) := by
    rw [show world.hw.hwById.lookup p.world.hw.nextHwId = some entry from hlookup]
    simp [hslot]
  simp only [hentry, setReg_eq, Process.onThread, Function.update_self]

/-- A `set` that succeeds encodes the request exactly when the size fits. -/
theorem throwsOrEncodes_of_succeeds (htype : parseType typeStr = .ok type)
    (hfree : findFreeSlot p.world.hw.usedSlots = some slot)
    (h : Succeeds address type size slot p.world
      (HardwareBreakpoint.set target env address typeStr size onHit p.world)) :
    ThrowsOrEncodes target env t address typeStr size onHit p ↔ SizeFits type size := by
  have hregs := @set_regs target env t address typeStr size onHit p type slot h
  unfold ThrowsOrEncodes
  rw [hregs, h.answer, htype, hfree]
  constructor
  · rintro (⟨e, he⟩ | ⟨_, _, htype', hslot', hencodes⟩)
    · cases he
    · obtain rfl := Except.ok.inj htype'
      obtain rfl := Option.some.inj hslot'
      exact encodes_setDebugReg_iff.mp hencodes
  · intro hsize
    exact .inr ⟨type, slot, rfl, rfl, encodes_setDebugReg_iff.mpr hsize⟩

/-- **Debug-register fields encode the request.** `set` throws or its registers say what was
asked for, exactly when there is a reason to throw or the size fits the type. -/
theorem throwsOrEncodes_iff (hos : target.os ≠ .linux) (harch : target.arch = .x64) :
    ThrowsOrEncodes target env t address typeStr size onHit p ↔
      Refused target env address typeStr p.world ∨
        ∀ type, parseType typeStr = .ok type → SizeFits type size := by
  rcases @set_cases target env address typeStr size onHit p.world hos harch with
    ⟨hrefused, hthrows⟩ | ⟨hnot, type, slot, htype, hfree, hsucceeds⟩
  · exact iff_of_true (.inl hthrows) (.inl hrefused)
  · rw [throwsOrEncodes_of_succeeds htype hfree hsucceeds, or_iff_right hnot, htype]
    simp

end Fields

section Concrete

/-- Nothing fails. -/
def building : Install := ⟨0x10, .ok (0x20, 1), .ok 0x30, -1⟩

theorem write_encoded :
    ThrowsOrEncodes ⟨.x64, .windows⟩ building 0 0x1000 "write" 4 7 empty :=
  (throwsOrEncodes_iff (by decide) rfl).mpr <| .inr fun type htype => by
    obtain rfl := Except.ok.inj htype
    decide

/-- An execute breakpoint has the length of its size, and a watchpoint of three bytes is taken
for one of a single byte. -/
theorem fields_wrong :
    lenField ((DebugRegisters.set ⟨.x64, .windows⟩ building 0 0x1000 "execute" 4 7 empty).regs
      0).dr7 0 = 0b11 ∧
    ¬ ThrowsOrEncodes ⟨.x64, .windows⟩ building 0 0x1000 "execute" 4 7 empty ∧
    lenField ((DebugRegisters.set ⟨.x64, .darwin⟩ building 0 0x1000 "write" 3 7 empty).regs
      0).dr7 0 = 0b00 ∧
    ¬ ThrowsOrEncodes ⟨.x64, .darwin⟩ building 0 0x1000 "write" 3 7 empty := by
  have hexecute : Succeeds 0x1000 .execute 4 0 empty.world
      (HardwareBreakpoint.set ⟨.x64, .windows⟩ building 0x1000 "execute" 4 7 empty.world) :=
    ⟨rfl, _, rfl, rfl, rfl, rfl, rfl⟩
  have hwrite : Succeeds 0x1000 .write 3 0 empty.world
      (HardwareBreakpoint.set ⟨.x64, .darwin⟩ building 0x1000 "write" 3 7 empty.world) :=
    ⟨rfl, _, rfl, rfl, rfl, rfl, rfl⟩
  refine ⟨by decide, ?_, by decide, ?_⟩
  · rw [throwsOrEncodes_of_succeeds rfl rfl hexecute]
    decide
  · rw [throwsOrEncodes_of_succeeds rfl rfl hwrite]
    decide

end Concrete

end DebugControl

end Chromatic
