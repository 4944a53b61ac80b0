import Chromatic.CodePatching

/-!
# Relocating instructions

`buildRelocatedCode` of the x86_64 build with the part of `NativeDisassembler` it calls.
Capstone is a parameter. Relocated code is kept as the chunks the instructions were
rewritten to.

§1 disassembly · §2 rewriting one instruction · §3 the loop · §4 what the loop returns.
-/

namespace Chromatic

open Foundation

namespace CodeRelocator

/-! ## §1  Disassembly -/

inductive CsGroup where
  | jump
  | call
  | branchRelative
  | other (g : ℕ)
deriving DecidableEq, Repr

/-- `ripMem` is a memory operand with base `rip`. -/
inductive CsOperand where
  | imm (v : Addr)
  | ripMem (disp : Addr)
  | other
deriving DecidableEq, Repr

structure CsInsn where
  size : ℕ
  groups : List CsGroup
  operands : List CsOperand
deriving DecidableEq, Repr

/-- `cs_disasm` for one instruction; `none` is a count of 0. -/
abbrev CsDisasm : Type := List Byte → Addr → Option CsInsn

structure InstructionAnalysis where
  isBranch : Bool
  isCall : Bool
  isRelative : Bool
  target : Addr
  isPcRelative : Bool
  size : ℕ
deriving DecidableEq, Repr

/-- Nothing is read at a null address. -/
def csDisasm (cs : CsDisasm) (mem : Memory) (addr : Addr) : Option CsInsn :=
  if addr = 0 then none else cs (readBytes mem addr 16) addr

/-- `disassembleOne`, of which the relocator uses the size. -/
def disassembleOne (cs : CsDisasm) (mem : Memory) (addr : Addr) : ℕ :=
  match csDisasm cs mem addr with
  | none => 0
  | some insn => insn.size

/-- The first immediate or `rip`-relative operand, as an address. -/
def CsInsn.pcOperand (insn : CsInsn) (addr : Addr) : Option Addr :=
  insn.operands.findSome? fun
    | .imm v => some v
    | .ripMem disp => some (addr + BitVec.ofNat 64 insn.size + disp)
    | .other => none

def analyzeInstruction (cs : CsDisasm) (mem : Memory) (addr : Addr) : InstructionAnalysis :=
  match csDisasm cs mem addr with
  | none => ⟨false, false, false, 0, false, 0⟩
  | some insn =>
      { isBranch := .jump ∈ insn.groups
        isCall := .call ∈ insn.groups
        isRelative := .branchRelative ∈ insn.groups
        target := (insn.pcOperand addr).getD 0
        isPcRelative := (insn.pcOperand addr).isSome
        size := insn.size }

/-! ## §2  Rewriting one instruction -/

/-- `CALL [RIP+2]`, then a jump to a label that is never bound: its displacement keeps
the zeros it was emitted with. -/
def callMem (target : Addr) : List Byte :=
  [0xFF, 0x15, 0x02, 0x00, 0x00, 0x00] ++ [0xE9, 0x00, 0x00, 0x00, 0x00] ++ le64 target

def conditionCode (firstByte secondByte : Byte) : Byte :=
  if 0x70 ≤ firstByte ∧ firstByte ≤ 0x7F then firstByte - 0x70
  else if firstByte = 0x0F then secondByte - 0x80
  else 0

/-- A jump on the opposite condition, over the 14 bytes of an absolute jump. -/
def jumpUnless (cc : Byte) (target : Addr) : List Byte :=
  [0x0F, 0x80 + (cc ^^^ 1)] ++ [0x0E, 0x00, 0x00, 0x00] ++ generatePatchBytes .x64 target

/-- What is emitted for the instruction at `addr`. -/
def relocateInsn (cs : CsDisasm) (mem : Memory) (addr : Addr) : List Byte :=
  let analysis := analyzeInstruction cs mem addr
  let original := readBytes mem addr (disassembleOne cs mem addr)
  if analysis.isPcRelative then
    let target := analysis.target
    let firstByte := mem addr
    if firstByte = 0xE9 then generatePatchBytes .x64 target
    else if firstByte = 0xE8 then callMem target
    else if analysis.isBranch && !analysis.isCall then
      jumpUnless (conditionCode firstByte (mem (addr + 1))) target
    else original
  else original

/-! ## §3  The loop -/

/-- An instruction's size and the code that stands for it. -/
structure Chunk where
  size : ℕ
  code : List Byte
deriving DecidableEq, Repr

def relocateInsns (cs : CsDisasm) (mem : Memory) (source : Addr) (minBytes srcOffset : ℕ) :
    Except String (List Chunk) :=
  if srcOffset < minBytes then
    let addr := source + BitVec.ofNat 64 srcOffset
    let insnSize := disassembleOne cs mem addr
    if insnSize = 0 then .error ("Cannot disassemble at " ++ toHexAddr addr.toNat)
    else
      match relocateInsns cs mem source minBytes (srcOffset + insnSize) with
      | .error e => .error e
      | .ok chunks => .ok (⟨insnSize, relocateInsn cs mem addr⟩ :: chunks)
  else .ok []
termination_by minBytes - srcOffset
decreasing_by
  rename_i hlt hsize
  exact Nat.sub_lt_sub_left hlt (Nat.lt_add_of_pos_right (Nat.pos_of_ne_zero hsize))

def bytesConsumed (chunks : List Chunk) : ℕ := (chunks.map Chunk.size).sum

/-- The chunks and the jump back. -/
def block (source : Addr) (chunks : List Chunk) : List Byte :=
  chunks.flatMap Chunk.code ++
    generatePatchBytes .x64 (source + BitVec.ofNat 64 (bytesConsumed chunks))

/-- `added` is what `g_jitRuntime.add` answers for the block. -/
def buildRelocatedCode (cs : CsDisasm) (mem : Memory) (source : Addr) (minBytes : ℕ)
    (added : Option Addr) : Except String (Addr × List Chunk) :=
  match relocateInsns cs mem source minBytes 0 with
  | .error e => .error e
  | .ok chunks =>
      match added with
      | none => .error "asmjit: failed to build relocated code"
      | some base => .ok (base, chunks)

/-! ## §4  What the loop returns -/

/-- The chunks stand for the instructions from `addr` on. -/
def ChunksOf (cs : CsDisasm) (mem : Memory) : Addr → List Chunk → Prop
  | _, [] => True
  | addr, c :: chunks =>
      disassembleOne cs mem addr = c.size ∧ c.size ≠ 0 ∧ c.code = relocateInsn cs mem addr ∧
        ChunksOf cs mem (addr + BitVec.ofNat 64 c.size) chunks

section Loop

variable {cs : CsDisasm} {mem : Memory} {source base : Addr} {minBytes : ℕ}
  {chunks : List Chunk}

theorem relocateInsns_ok {srcOffset : ℕ}
    (h : relocateInsns cs mem source minBytes srcOffset = .ok chunks) :
    ChunksOf cs mem (source + BitVec.ofNat 64 srcOffset) chunks ∧
      minBytes ≤ srcOffset + bytesConsumed chunks := by
  induction chunks generalizing srcOffset with
  | nil =>
      unfold relocateInsns at h
      split at h
      · dsimp only at h
        split at h
        · cases h
        · split at h <;> cases h
      · exact ⟨trivial, by omega⟩
  | cons c chunks ih =>
      unfold relocateInsns at h
      split at h
      · dsimp only at h
        split at h
        · cases h
        · rename_i hsize
          split at h
          · cases h
          · rename_i rest hrest
            obtain ⟨rfl, rfl⟩ := List.cons.inj (Except.ok.inj h)
            obtain ⟨hchunks, hmin⟩ := ih hrest
            -- the rest starts behind the bytes of this instruction
            refine ⟨⟨rfl, hsize, rfl, ?_⟩, ?_⟩
            · rw [BitVec.add_assoc, ← BitVec.ofNat_add]
              exact hchunks
            · simp only [bytesConsumed, List.map_cons, List.sum_cons] at hmin ⊢
              omega
      · cases h

/-- A block that was built holds a chunk for each instruction it consumed. -/
theorem buildRelocatedCode_ok {added : Option Addr}
    (h : buildRelocatedCode cs mem source minBytes added = .ok (base, chunks)) :
    added = some base ∧ ChunksOf cs mem source chunks ∧ minBytes ≤ bytesConsumed chunks := by
  unfold buildRelocatedCode at h
  split at h
  · cases h
  · rename_i chunks' hloop
    split at h
    · cases h
    · obtain ⟨rfl, rfl⟩ := Prod.mk.inj (Except.ok.inj h)
      obtain ⟨hchunks, hmin⟩ := relocateInsns_ok hloop
      exact ⟨rfl, by simpa using hchunks, by omega⟩

/-- One instruction is enough for a breakpoint. -/
theorem buildRelocatedCode_one (h : disassembleOne cs mem source ≠ 0) :
    buildRelocatedCode cs mem source 1 (some base) =
      .ok (base, [⟨disassembleOne cs mem source, relocateInsn cs mem source⟩]) := by
  have hlast : relocateInsns cs mem source 1 (disassembleOne cs mem source) = .ok [] := by
    rw [relocateInsns, if_neg (by omega)]
  rw [buildRelocatedCode, relocateInsns, if_pos Nat.one_pos]
  simp only [BitVec.add_zero, if_neg h, Nat.zero_add, hlast]

/-- Every failure of the loop names an address it could not disassemble at. -/
theorem relocateInsns_error {srcOffset : ℕ} {e : String}
    (h : relocateInsns cs mem source minBytes srcOffset = .error e) :
    ∃ addr, disassembleOne cs mem addr = 0 ∧
      e = "Cannot disassemble at " ++ toHexAddr addr.toNat := by
  induction hk : minBytes - srcOffset using Nat.strong_induction_on generalizing srcOffset with
  | _ k ih =>
      unfold relocateInsns at h
      split at h
      · rename_i hlt
        dsimp only at h
        split at h
        · rename_i hsize
          exact ⟨_, hsize, (Except.error.inj h).symm⟩
        · rename_i hsize
          split at h
          · rename_i e' hrest
            have hpos := Nat.pos_of_ne_zero hsize
            obtain rfl : e' = e := Except.error.inj h
            refine ih (minBytes - (srcOffset + _)) ?_ hrest rfl
            omega
          · cases h
      · cases h

end Loop

end CodeRelocator

end Chromatic
