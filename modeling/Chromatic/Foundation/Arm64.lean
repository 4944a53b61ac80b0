import Chromatic.Foundation.X86
import Mathlib.Order.Fin.Basic

/-!
# A fragment of AArch64

Registers, condition flags and memory. Branches and the other instructions that depend on
the address they are at are decoded from their words and executed; every other instruction
is a parameter, of which only its effect is known.

§1 state · §2 instructions · §3 decoding · §4 execution · §5 registers on the stack.
-/

namespace Foundation

namespace Arm64

/-! ## §1  State -/

instance instNeZeroRegs : NeZero 31 := ⟨by decide⟩

@[ext] structure State where
  reg : Fin 31 → BitVec 64
  sp : BitVec 64
  nzcv : BitVec 4
  vec : BitVec 5 → BitVec 128
  mem : Memory

namespace State

variable (s : State)

def set (r : Fin 31) (v : BitVec 64) : State := { s with reg := Function.update s.reg r v }

section Set

variable (r : Fin 31) (v : BitVec 64)

@[simp] theorem set_reg_self : (s.set r v).reg r = v := by
  simp [set]

@[simp] theorem set_reg_ne {r' : Fin 31} (h : r' ≠ r) : (s.set r v).reg r' = s.reg r' := by
  simp [set, h]

@[simp] theorem set_sp : (s.set r v).sp = s.sp := rfl

@[simp] theorem set_nzcv : (s.set r v).nzcv = s.nzcv := rfl

@[simp] theorem set_vec : (s.set r v).vec = s.vec := rfl

@[simp] theorem set_mem : (s.set r v).mem = s.mem := rfl

end Set

/-- Register field 31 is the zero register here. -/
def readX (r : BitVec 5) : BitVec 64 :=
  if h : r.toNat < 31 then s.reg ⟨r.toNat, h⟩ else 0

def writeX (r : BitVec 5) (v : BitVec 64) : State :=
  if h : r.toNat < 31 then s.set ⟨r.toNat, h⟩ v else s

end State

/-! ## §2  Instructions -/

/-- Where an instruction goes. -/
inductive Flow where
  | next
  | jump (a : Addr)
  | call (a : Addr)
deriving DecidableEq, Repr

/-- What a conditional branch tests: the flags, a register against zero (`CBZ`, `CBNZ`), one
bit of it (`TBZ`, `TBNZ`). -/
inductive Test where
  | flags (cc : BitVec 4)
  | zero (wide nonzero : Bool) (rt : BitVec 5)
  | bit (n : ℕ) (nonzero : Bool) (rt : BitVec 5)
deriving DecidableEq, Repr

/-- What `LDR` (literal) loads: words of registers, one of them sign-extended, and parts of
vector registers. -/
inductive Load where
  | w
  | x
  | sw
  | s
  | d
  | q
deriving DecidableEq, Repr

def Load.size : Load → ℕ
  | .w => 4
  | .x => 8
  | .sw => 4
  | .s => 4
  | .d => 8
  | .q => 16

/-- `d` is the distance from the instruction; of `ADRP`, from the page it is in. -/
inductive Instruction where
  | b (d : Addr)
  | bl (d : Addr)
  | branch (test : Test) (d : Addr)
  | adr (page : Bool) (rd : BitVec 5) (d : Addr)
  | ldrLiteral (kind : Load) (rt : BitVec 5) (d : Addr)
  | other (effect : State → State × Flow)

/-! ## §3  Decoding -/

/-- A word from its bytes, least significant first. -/
def word : List Byte → BitVec 32
  | b₀ :: b₁ :: b₂ :: b₃ :: _ => b₃ ++ b₂ ++ b₁ ++ b₀
  | _ => 0

/-- A field of `len` bits from bit `lo`, in units of four bytes. -/
def distance (w : BitVec 32) (lo len : ℕ) : Addr :=
  ((w.extractLsb' lo len) ++ (0 : BitVec 2)).signExtend 64

/-- The distance of `ADR`, and of `ADRP` in pages. -/
def adrDistance (w : BitVec 32) : Addr :=
  ((w.extractLsb' 5 19) ++ (w.extractLsb' 29 2)).signExtend 64

/-- `opc` and the vector bit; with `opc` 3 nothing is loaded. -/
def loadKind (w : BitVec 32) : Option Load :=
  match w.getLsbD 26, (w.extractLsb' 30 2).toNat with
  | false, 0 => some .w
  | false, 1 => some .x
  | false, 2 => some .sw
  | true, 0 => some .s
  | true, 1 => some .d
  | true, 2 => some .q
  | _, _ => none

/-- `others` says what the words do that depend on no address. -/
def decode (others : BitVec 32 → State → State × Flow) (w : BitVec 32) : Instruction :=
  let rt := w.extractLsb' 0 5
  if w.extractLsb' 26 5 = 0x05 then
    if w.getLsbD 31 then .bl (distance w 0 26) else .b (distance w 0 26)
  else if w.extractLsb' 24 8 = 0x54 ∧ w.getLsbD 4 = false then
    .branch (.flags (w.extractLsb' 0 4)) (distance w 5 19)
  else if w.extractLsb' 25 6 = 0x1A then
    .branch (.zero (w.getLsbD 31) (w.getLsbD 24) rt) (distance w 5 19)
  else if w.extractLsb' 25 6 = 0x1B then
    .branch (.bit (w.extractLsb' 31 1 ++ w.extractLsb' 19 5).toNat (w.getLsbD 24) rt)
      (distance w 5 14)
  else if w.extractLsb' 24 5 = 0x10 then
    if w.getLsbD 31 then .adr true rt (adrDistance w <<< 12) else .adr false rt (adrDistance w)
  else if w.extractLsb' 27 3 = 0x03 ∧ w.extractLsb' 24 2 = 0 then
    match loadKind w with
    | some kind => .ldrLiteral kind rt (distance w 5 19)
    | none => .other (others w)
  else .other (others w)

/-- `LDR X16, #8`, `CBZ X0, #64` and `ADRP X16, #4096`. -/
example (others : BitVec 32 → State → State × Flow) :
    decode others 0x58000050 = .ldrLiteral .x 16 8 ∧
      decode others 0xB4000200 = .branch (.zero true false 0) 0x40 ∧
      decode others 0xB0000010 = .adr true 16 0x1000 := ⟨rfl, rfl, rfl⟩

/-- The register an address goes to is the last field of the word. -/
theorem decode_adr {others : BitVec 32 → State → State × Flow} {w : BitVec 32} {page : Bool}
    {rd : BitVec 5} {d : Addr} (h : decode others w = .adr page rd d) :
    (w &&& 0x1F).setWidth 5 = rd := by
  have hfield : (w &&& 0x1F).setWidth 5 = w.extractLsb' 0 5 := by
    have hmask : ∀ i < 5, (0x1F : BitVec 32).getLsbD i = true := by decide
    apply BitVec.eq_of_getLsbD_eq
    intro i hi
    rw [BitVec.getLsbD_setWidth, BitVec.getLsbD_and, hmask i hi, BitVec.getLsbD_extractLsb']
    simp
  rw [hfield]
  unfold decode at h
  grind

/-! ## §4  Execution -/

/-- The eight tests of a condition code, without its last bit. -/
def test (nzcv : BitVec 4) : ℕ → Bool
  | 0 => nzcv.getLsbD 2
  | 1 => nzcv.getLsbD 1
  | 2 => nzcv.getLsbD 3
  | 3 => nzcv.getLsbD 0
  | 4 => nzcv.getLsbD 1 && !nzcv.getLsbD 2
  | 5 => nzcv.getLsbD 3 == nzcv.getLsbD 0
  | 6 => (nzcv.getLsbD 3 == nzcv.getLsbD 0) && !nzcv.getLsbD 2
  | _ => true

/-- The last bit negates, except in the code of all ones. -/
def condition (nzcv cc : BitVec 4) : Bool :=
  if cc.getLsbD 0 ∧ cc ≠ 0xF then !test nzcv (cc.toNat / 2) else test nzcv (cc.toNat / 2)

def Test.holds (s : State) : Test → Bool
  | .flags cc => condition s.nzcv cc
  | .zero wide nonzero rt =>
      let v := if wide then s.readX rt else ((s.readX rt).setWidth 32).setWidth 64
      (v != 0) == nonzero
  | .bit n nonzero rt => (s.readX rt).getLsbD n == nonzero

def adrTarget (page : Bool) (pc d : Addr) : Addr :=
  if page then (pc &&& ~~~0xFFF) + d else pc + d

def leNat (bs : List Byte) : ℕ := bs.foldr (fun b n => b.toNat + 256 * n) 0

def Load.exec (rt : BitVec 5) (bs : List Byte) (s : State) : Load → State
  | .w => s.writeX rt (BitVec.ofNat 64 (leNat bs))
  | .x => s.writeX rt (BitVec.ofNat 64 (leNat bs))
  | .sw => s.writeX rt ((BitVec.ofNat 32 (leNat bs)).signExtend 64)
  | .s => { s with vec := Function.update s.vec rt (BitVec.ofNat 128 (leNat bs)) }
  | .d => { s with vec := Function.update s.vec rt (BitVec.ofNat 128 (leNat bs)) }
  | .q => { s with vec := Function.update s.vec rt (BitVec.ofNat 128 (leNat bs)) }

/-- One executed instruction: the literal it loads, the state after it and where it goes. -/
structure Step where
  literal : Option (List Byte)
  state : State
  flow : Flow

/-- `pc` is the address of the instruction. Calls do not set the link register here. -/
def Instruction.exec (pc : Addr) (s : State) : Instruction → Step
  | .b d => ⟨none, s, .jump (pc + d)⟩
  | .bl d => ⟨none, s, .call (pc + d)⟩
  | .branch test d => ⟨none, s, if test.holds s then .jump (pc + d) else .next⟩
  | .adr page rd d => ⟨none, s.writeX rd (adrTarget page pc d), .next⟩
  | .ldrLiteral kind rt d =>
      let bs := readBytes s.mem (pc + d) kind.size
      ⟨some bs, kind.exec rt bs s, .next⟩
  | .other effect =>
      let out := effect s
      ⟨none, out.1, out.2⟩

/-! ## §5  Registers on the stack -/

/-- A register goes to the word of its number above the stack pointer. -/
def State.save (s : State) (r : Fin 31) : State :=
  { s with mem := write64 s.mem (X86.slot s.sp r) (s.reg r) }

def State.load (s : State) (r : Fin 31) : State := s.set r (read64 s.mem (X86.slot s.sp r))

def saveRegs (rs : List (Fin 31)) (s : State) : State := rs.foldl State.save s

def loadRegs (rs : List (Fin 31)) (s : State) : State := rs.foldl State.load s

section Registers

variable {r : Fin 31} {rs : List (Fin 31)} {s : State} {k : ℕ}

theorem saveRegs_cons : saveRegs (r :: rs) s = saveRegs rs (s.save r) := rfl

theorem loadRegs_cons : loadRegs (r :: rs) s = loadRegs rs (s.load r) := rfl

theorem saveRegs_append {rs' : List (Fin 31)} :
    saveRegs (rs ++ rs') s = saveRegs rs' (saveRegs rs s) :=
  List.foldl_append

theorem loadRegs_append {rs' : List (Fin 31)} :
    loadRegs (rs ++ rs') s = loadRegs rs' (loadRegs rs s) :=
  List.foldl_append

/-- Saving writes to memory only. -/
theorem saveRegs_eq : ∃ m, saveRegs rs s = { s with mem := m } := by
  induction rs generalizing s with
  | nil => exact ⟨s.mem, rfl⟩
  | cons r rs ih =>
      obtain ⟨m, hm⟩ := @ih (s.save r)
      exact ⟨m, hm⟩

theorem saveRegs_other (hk : k < 2 ^ 60) (h : ∀ r ∈ rs, (r : ℕ) ≠ k) :
    read64 (saveRegs rs s).mem (X86.slot s.sp k) = read64 s.mem (X86.slot s.sp k) := by
  induction rs generalizing s with
  | nil => rfl
  | cons r rs ih =>
      have hrest := @ih (s.save r) fun r' hr' => h r' (List.mem_cons_of_mem _ hr')
      have hr := r.isLt
      rw [saveRegs_cons]
      refine hrest.trans (read64_write64_apart ?_)
      exact X86.slot_apart (h r List.mem_cons_self) (by omega) (by omega)

/-- A register that was saved is in its word. -/
theorem saveRegs_saved (h : r ∈ rs) :
    read64 (saveRegs rs s).mem (X86.slot s.sp r) = s.reg r := by
  induction rs generalizing s with
  | nil => cases h
  | cons r' rs ih =>
      rw [saveRegs_cons]
      by_cases hrest : r ∈ rs
      · exact @ih (s.save r') hrest
      · -- it is the last one of its number
        obtain rfl : r = r' := (List.mem_cons.mp h).resolve_right hrest
        have hr := r.isLt
        have hother := @saveRegs_other rs (s.save r) r (by omega)
          fun r' hr' heq => hrest (Fin.ext heq ▸ hr')
        exact hother.trans (read64_write64_self _ _ _)

/-- Loading writes to the registers loaded only. -/
theorem loadRegs_eq :
    loadRegs rs s =
      { s with reg := fun r => if r ∈ rs then read64 s.mem (X86.slot s.sp r) else s.reg r } := by
  induction rs generalizing s with
  | nil => simp [loadRegs]
  | cons r rs ih =>
      rw [loadRegs_cons, ih]
      refine State.ext ?_ rfl rfl rfl rfl
      funext r'
      by_cases hrest : r' ∈ rs
      · simp [hrest, State.load]
      · by_cases hr : r' = r <;> simp [hrest, hr, State.load]

end Registers

end Arm64

end Foundation
