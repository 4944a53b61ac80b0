import Chromatic.CodeRelocator
import Chromatic.Foundation.Arm64

/-!
# Relocating ARM64 instructions

`buildRelocatedCode` of the ARM64 build with the part of `NativeDisassembler` it calls.
Capstone is a parameter, and so are the lengths of what asmjit encodes. What the assembler is
asked for is kept as it is, in one chunk for each instruction.

§1 disassembly · §2 rewriting one instruction · §3 the loop · §4 what the loop returns.
-/

namespace Chromatic

open Foundation Foundation.Arm64

namespace Arm64Relocator

/-! ## §1  Disassembly -/

inductive CsOperand where
  | imm (v : Addr)
  | other
deriving DecidableEq, Repr

structure CsInsn where
  size : ℕ
  mnemonic : String
  groups : List CodeRelocator.CsGroup
  operands : List CsOperand
deriving DecidableEq, Repr

/-- `cs_disasm` for one instruction; `none` is a count of 0. -/
abbrev CsDisasm : Type := List Byte → Addr → Option CsInsn

/-- Nothing is read at a null address. -/
def csDisasm (cs : CsDisasm) (mem : Memory) (addr : Addr) : Option CsInsn :=
  if addr = 0 then none else cs (readBytes mem addr 16) addr

/-- `InstructionInfo`, of which the relocator uses the size and the mnemonic. -/
structure InstructionInfo where
  size : ℕ
  mnemonic : String
deriving DecidableEq, Repr

def disassembleOne (cs : CsDisasm) (mem : Memory) (addr : Addr) : InstructionInfo :=
  match csDisasm cs mem addr with
  | none => ⟨0, ""⟩
  | some insn => ⟨insn.size, insn.mnemonic⟩

/-- The first immediate operand. -/
def CsInsn.immediate (insn : CsInsn) : Option Addr :=
  insn.operands.findSome? fun
    | .imm v => some v
    | .other => none

/-- Any immediate operand counts as relative to the program counter. -/
def analyzeInstruction (cs : CsDisasm) (mem : Memory) (addr : Addr) :
    CodeRelocator.InstructionAnalysis :=
  match csDisasm cs mem addr with
  | none => ⟨false, false, false, 0, false, 0⟩
  | some insn =>
      { isBranch := .jump ∈ insn.groups
        isCall := .call ∈ insn.groups
        isRelative := .branchRelative ∈ insn.groups
        target := insn.immediate.getD 0
        isPcRelative := insn.immediate.isSome
        size := insn.size }

/-! ## §2  Rewriting one instruction -/

/-- What the assembler is asked for. Its register 31 is the stack pointer. -/
inductive Emitted where
  | mov (rd : BitVec 5) (imm : Addr)
  | br (rn : Fin 31)
  | blr (rn : Fin 31)
  | embed (bytes : List Byte)
deriving DecidableEq, Repr

/-- How many bytes asmjit spends on an immediate, and the immediates it can move to the stack
pointer. -/
structure Asmjit where
  movSize : BitVec 5 → Addr → ℕ
  encodesSp : Addr → Bool

/-- An immediate that does not go into the stack pointer is an error which nobody looks at,
and nothing is emitted. -/
def Emitted.size (asmjit : Asmjit) : Emitted → ℕ
  | .mov rd imm =>
      if rd = 31 ∧ asmjit.encodesSp imm = false then 0 else asmjit.movSize rd imm
  | .br _ => 4
  | .blr _ => 4
  | .embed bytes => bytes.length

/-- What is emitted for the instruction at `addr`. -/
def relocateInsn (cs : CsDisasm) (mem : Memory) (addr : Addr) : List Emitted :=
  let insn := disassembleOne cs mem addr
  let analysis := analyzeInstruction cs mem addr
  let original := .embed (readBytes mem addr insn.size)
  if analysis.isPcRelative then
    let target := analysis.target
    if insn.mnemonic = "b" then [.mov 16 target, .br 16]
    else if insn.mnemonic = "bl" then [.mov 16 target, .blr 16]
    else if insn.mnemonic = "adr" ∨ insn.mnemonic = "adrp" then
      let rawInsn := word (readBytes mem addr 4)
      [.mov ((rawInsn &&& 0x1F).setWidth 5) target]
    else [original]
  else [original]

/-! ## §3  The loop -/

/-- An instruction's size and the code that stands for it. -/
structure Chunk where
  size : ℕ
  code : List Emitted
deriving DecidableEq, Repr

def relocateInsns (cs : CsDisasm) (mem : Memory) (source : Addr) (minBytes srcOffset : ℕ) :
    Except String (List Chunk) :=
  if srcOffset < minBytes then
    let addr := source + BitVec.ofNat 64 srcOffset
    let insnSize := (disassembleOne cs mem addr).size
    if insnSize = 0 then .error ("Cannot disassemble at " ++ toHexAddr addr.toNat)
    else
      match relocateInsns cs mem source minBytes (srcOffset + insnSize) with
      | .error e => .error e
      | .ok chunks => .ok (⟨insnSize, relocateInsn cs mem addr⟩ :: chunks)
  else .ok []
termination_by minBytes - srcOffset
decreasing_by
  rename_i hlt hsize
  exact Nat.sub_lt_sub_left hlt (Nat.lt_add_of_pos_right (Nat.pos_of_ne_zero hsize))

def bytesConsumed (chunks : List Chunk) : ℕ := (chunks.map Chunk.size).sum

/-- Behind the chunks. -/
def jumpBack (source : Addr) (chunks : List Chunk) : List Emitted :=
  [.mov 16 (source + BitVec.ofNat 64 (bytesConsumed chunks)), .br 16]

/-- `added` is what `g_jitRuntime.add` answers. -/
def buildRelocatedCode (cs : CsDisasm) (mem : Memory) (source : Addr) (minBytes : ℕ)
    (added : Option Addr) : Except String (Addr × List Chunk) :=
  match relocateInsns cs mem source minBytes 0 with
  | .error e => .error e
  | .ok chunks =>
      match added with
      | none => .error "asmjit: failed to build relocated code"
      | some base => .ok (base, chunks)

/-! ## §4  What the loop returns -/

/-- The chunks stand for the instructions from `addr` on. -/
def ChunksOf (cs : CsDisasm) (mem : Memory) : Addr → List Chunk → Prop
  | _, [] => True
  | addr, c :: chunks =>
      (disassembleOne cs mem addr).size = c.size ∧ c.size ≠ 0 ∧ c.code = relocateInsn cs mem addr ∧
        ChunksOf cs mem (addr + BitVec.ofNat 64 c.size) chunks

section Loop

variable {cs : CsDisasm} {mem : Memory} {source base : Addr} {minBytes : ℕ}
  {chunks : List Chunk}

theorem relocateInsns_ok {srcOffset : ℕ}
    (h : relocateInsns cs mem source minBytes srcOffset = .ok chunks) :
    ChunksOf cs mem (source + BitVec.ofNat 64 srcOffset) chunks := by
  induction chunks generalizing srcOffset with
  | nil => trivial
  | cons c chunks ih =>
      unfold relocateInsns at h
      split at h
      · dsimp only at h
        split at h
        · cases h
        · rename_i hsize
          split at h
          · cases h
          · rename_i rest hrest
            cases h
            -- the rest starts behind the bytes of this instruction
            refine ⟨rfl, hsize, rfl, ?_⟩
            rw [BitVec.add_assoc, ← BitVec.ofNat_add]
            exact ih hrest
      · cases h

/-- A block that was built holds a chunk for each instruction it consumed. -/
theorem buildRelocatedCode_ok
    (h : buildRelocatedCode cs mem source minBytes (some base) = .ok (base, chunks)) :
    ChunksOf cs mem source chunks := by
  unfold buildRelocatedCode at h
  split at h
  · cases h
  · rename_i chunks' hloop
    cases h
    simpa using relocateInsns_ok hloop

/-- A breakpoint relocates the four bytes that it overwrites. -/
theorem buildRelocatedCode_one (h : (disassembleOne cs mem source).size = 4) :
    buildRelocatedCode cs mem source 4 (some base) =
      .ok (base, [⟨4, relocateInsn cs mem source⟩]) := by
  have hlast : relocateInsns cs mem source 4 4 = .ok [] := by
    rw [relocateInsns, if_neg (by omega)]
  rw [buildRelocatedCode, relocateInsns, if_pos (by omega)]
  simp only [BitVec.add_zero, h, Nat.zero_add, hlast]
  rfl

end Loop

end Arm64Relocator

end Chromatic
