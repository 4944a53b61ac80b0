import Chromatic.CodeRelocator
import Chromatic.Foundation.ControlFlow

/-!
# Relocated code against the original

The consumed instructions are run where they were, and as the chunks of
`buildRelocatedCode`. Both runs are traced instruction by instruction: the memory
operands reached through `rip`, the calls made, the state, and where control goes.

§1 behaviour of an instruction and of a chunk · §2 runs · §3 when an instruction
survives · §4 emitted code · §5 one instruction · §6 whole runs.
-/

namespace Chromatic

open Foundation Foundation.X86 CodeRelocator

namespace Relocation

/-! ## §1  Behaviour of an instruction and of a chunk -/

/-- `inside` is control left within the code, past what was emitted for it to run. -/
inductive Exit where
  | next
  | jump (a : Addr)
  | inside (off : ℕ)
deriving DecidableEq, Repr

@[ext] structure Behaviour where
  operands : List Addr
  calls : List Addr
  state : State
  exit : Exit

/-- The instruction at `addr`, of length `n`. `callee a s` is the state in which a call
of `a` from `s` returns. -/
def execInsn (callee : Addr → State → State) (i : Instruction) (n : ℕ) (addr : Addr) (s : State) :
    Behaviour :=
  let next := addr + BitVec.ofNat 64 n
  let step := i.exec next s
  match step.transfer with
  | .next => ⟨step.operand.toList, [], step.state, .next⟩
  | .rel d => ⟨step.operand.toList, [], step.state, .jump (next + d)⟩
  | .jump a => ⟨step.operand.toList, [], step.state, .jump a⟩
  | .call a => ⟨step.operand.toList, [a], callee a step.state, .next⟩

/-- The most instructions emitted for one. -/
def maxEmitted : ℕ := 2

/-- A chunk at `base`, from offset `off` on. Operands within the chunk are the
relocator's own literals. -/
def execChunk (cpu : Cpu) (callee : Addr → State → State) (base : Addr) (code : List Byte) :
    ℕ → ℕ → State → Behaviour
  | 0, off, s => ⟨[], [], s, if off = code.length then .next else .inside off⟩
  | fuel + 1, off, s =>
      if off = code.length then ⟨[], [], s, .next⟩
      else match cpu.decode (code.drop off) with
        | none => ⟨[], [], s, .inside off⟩
        | some (i, n) =>
            let next := base + BitVec.ofNat 64 (off + n)
            let step := i.exec next s
            let operands :=
              step.operand.toList.filter fun a => ¬ InRegion base code.length a
            match step.transfer with
            | .next =>
                let b := execChunk cpu callee base code fuel (off + n) step.state
                { b with operands := operands ++ b.operands }
            | .rel d =>
                let landing := (BitVec.ofNat 64 (off + n) + d).toNat
                if landing ≤ code.length then
                  let b := execChunk cpu callee base code fuel landing step.state
                  { b with operands := operands ++ b.operands }
                else ⟨operands, [], step.state, .jump (next + d)⟩
            | .jump a => ⟨operands, [], step.state, .jump a⟩
            | .call a =>
                let b := execChunk cpu callee base code fuel (off + n) (callee a step.state)
                { b with operands := operands ++ b.operands, calls := a :: b.calls }

/-! ## §2  Runs -/

/-- `k` instructions from `addr` on in the code `mem`, until one does not fall through. -/
def runInPlace (cpu : Cpu) (callee : Addr → State → State) (mem : Memory) :
    ℕ → Addr → State → List Behaviour
  | 0, addr, s => [⟨[], [], s, .jump addr⟩]
  | k + 1, addr, s =>
      match cpu.decode (readBytes mem addr 16) with
      | none => [⟨[], [], s, .inside 0⟩]
      | some (i, n) =>
          let b := execInsn callee i n addr s
          if b.exit = .next then
            b :: runInPlace cpu callee mem k (addr + BitVec.ofNat 64 n) b.state
          else [b]

/-- The chunks from `base` on, and the jump back to `back` behind them. -/
def runRelocated (cpu : Cpu) (callee : Addr → State → State) (back : Addr) :
    Addr → List Chunk → State → List Behaviour
  | base, [], s => [execChunk cpu callee base (generatePatchBytes .x64 back) maxEmitted 0 s]
  | base, c :: chunks, s =>
      let b := execChunk cpu callee base c.code maxEmitted 0 s
      if b.exit = .next then
        b :: runRelocated cpu callee back (base + BitVec.ofNat 64 c.code.length) chunks b.state
      else [b]

/-! ## §3  When an instruction survives -/

/-- The instruction does in state `s` what its rewriting does: any branch but an
unprefixed `JMP rel32` or `Jcc` becomes a jump on overflow. -/
def Relocatable (firstByte : Byte) (s : State) : Instruction → Prop
  | .jmp _ => firstByte = 0xE9 ∨ of s.rflags = true
  | .jcc cc _ => isPrefix firstByte = false ∨ cond s.rflags cc = of s.rflags
  | .loop kind addr32 _ =>
      kind = .jrcxz ∧ (loopCount addr32 (s.reg .rcx) = 0 ↔ of s.rflags = true)
  | .call _ => False
  | .other (.ripMem _ _) => False
  | .other (.plain _) => True

/-- Every instruction the run in place executes is `Relocatable` where it is executed. -/
def AllRelocatable (cpu : Cpu) (callee : Addr → State → State) (mem : Memory) :
    ℕ → Addr → State → Prop
  | 0, _, _ => True
  | k + 1, addr, s =>
      match cpu.decode (readBytes mem addr 16) with
      | none => True
      | some (i, n) =>
          let b := execInsn callee i n addr s
          Relocatable (mem addr) s i ∧
            (b.exit = .next →
              AllRelocatable cpu callee mem k (addr + BitVec.ofNat 64 n) b.state)

/-- What Capstone says of an instruction at `addr`. Indirect jumps have the opcode `FF`,
behind prefixes or not. -/
def Describes (insn : CsInsn) (addr : Addr) (firstByte : Byte) : Instruction → Prop
  | .jmp d | .jcc _ d | .loop _ _ d =>
      .jump ∈ insn.groups ∧ .call ∉ insn.groups ∧
        insn.pcOperand addr = some (addr + BitVec.ofNat 64 insn.size + d)
  | .call d =>
      .call ∈ insn.groups ∧
        insn.pcOperand addr = some (addr + BitVec.ofNat 64 insn.size + d)
  | .other (.ripMem disp _) =>
      .ripMem disp ∈ insn.operands ∧
        (.jump ∈ insn.groups → firstByte ≠ 0x0F ∧ ¬ (0x70 ≤ firstByte ∧ firstByte ≤ 0x7F))
  | .other (.plain _) => .jump ∈ insn.groups → insn.pcOperand addr = none

/-- Capstone decodes the instruction at `addr` as the processor does. -/
def DecodesAt (cs : CsDisasm) (cpu : Cpu) (mem : Memory) (addr : Addr) : Prop :=
  ∀ insn, csDisasm cs mem addr = some insn →
    ∃ i, cpu.decode (readBytes mem addr 16) = some (i, insn.size) ∧
      Describes insn addr (mem addr) i

/-- It does so for each of the instructions from `addr` on that were consumed. -/
def DecodesFor (cs : CsDisasm) (cpu : Cpu) (mem : Memory) : Addr → List Chunk → Prop
  | _, [] => True
  | addr, c :: chunks =>
      DecodesAt cs cpu mem addr ∧ DecodesFor cs cpu mem (addr + BitVec.ofNat 64 c.size) chunks

/-- The memory holds the bytes from `a` on. -/
def Holds (m : Memory) (a : Addr) (bs : List Byte) : Prop := readBytes m a bs.length = bs

theorem Holds.append {m : Memory} {a : Addr} {xs ys : List Byte} (h : Holds m a (xs ++ ys)) :
    Holds m a xs ∧ Holds m (a + BitVec.ofNat 64 xs.length) ys := by
  have hsplit : readBytes m a (xs.length + ys.length) =
      readBytes m a xs.length ++ readBytes m (a + BitVec.ofNat 64 xs.length) ys.length := by
    simp only [readBytes, List.range_add, List.map_append, List.map_map]
    congr 1
    refine List.map_congr_left fun k _ => ?_
    simp only [Function.comp_apply]
    rw [BitVec.ofNat_add, BitVec.add_assoc]
  unfold Holds at h
  rw [List.length_append, hsplit] at h
  exact List.append_inj h (length_readBytes m a _)

theorem Holds.read64 {m : Memory} {a : Addr} {v : BitVec 64} (h : Holds m a (le64 v)) :
    read64 m a = v := by
  rw [Foundation.read64, show readBytes m a 8 = le64 v from h, ofLe64_le64]

/-! ## §4  Emitted code -/

section Emitted

variable {cpu : Cpu} {callee : Addr → State → State} {base target : Addr} {s : State}
  {code : List Byte} {off fuel : ℕ}

theorem execChunk_end :
    execChunk cpu callee base code fuel code.length s = ⟨[], [], s, .next⟩ := by
  cases fuel <;> simp [execChunk]

theorem decode_jmpMem (target : Addr) :
    cpu.decode (generatePatchBytes .x64 target) = some (.other (.ripMem 0 jumpThrough), 6) :=
  rfl

theorem decode_callMem (target : Addr) :
    cpu.decode (callMem target) = some (.other (.ripMem 2 callThrough), 6) :=
  rfl

theorem decode_callMem_jump (target : Addr) :
    cpu.decode ((callMem target).drop 6) = some (.jmp 0, 5) :=
  rfl

theorem decode_jumpUnless (cc : BitVec 4) (target : Addr) :
    cpu.decode (jumpUnless (cc.setWidth 8) target) = some (.jcc (cc ^^^ 1) 14, 6) := by
  have hcode : ∀ cc : BitVec 4,
      (0x80 + (cc.setWidth 8 ^^^ 1) : Byte).extractLsb' 4 4 = 8 ∧
        (0x80 + (cc.setWidth 8 ^^^ 1) : Byte).setWidth 4 = cc ^^^ 1 := by decide
  obtain ⟨hhigh, hlow⟩ := hcode cc
  have hop : opcode0F (0x80 + (cc.setWidth 8 ^^^ 1)) = some (.rel32, .jcc (cc ^^^ 1)) := by
    rw [opcode0F, if_pos hhigh, hlow]
  have hrel : decodeRel false (jumpUnless (cc.setWidth 8) target) =
      some (.jcc (cc ^^^ 1) 14, 6) := by
    show (opcode0F (0x80 + (cc.setWidth 8 ^^^ 1))).bind _ = _
    rw [hop]
    rfl
  show (none : Option (Instruction × ℕ)).or ((decodeRel false _).or _) = _
  rw [hrel]
  rfl

/-- An absolute jump that ends a chunk goes to its literal. -/
theorem execChunk_jmpMem (hcode : code.drop off = generatePatchBytes .x64 target)
    (hheld : Holds s.mem base code) (hlen : code.length < 2 ^ 64) :
    execChunk cpu callee base code (fuel + 1) off s = ⟨[], [], s, .jump target⟩ := by
  have hoff : off + 14 = code.length := by
    have hdrop := congrArg List.length hcode
    rw [List.length_drop, length_generatePatchBytes] at hdrop
    simp only [Arch.patchSize] at hdrop
    omega
  have hsplit : code = (code.take off ++ [0xFF, 0x25, 0x00, 0x00, 0x00, 0x00]) ++ le64 target := by
    rw [List.append_assoc]
    exact (List.take_append_drop off code).symm.trans (congrArg _ hcode)
  have hliteral : read64 s.mem (base + BitVec.ofNat 64 (off + 6)) = target := by
    rw [hsplit] at hheld
    have hread := hheld.append.2.read64
    rwa [List.length_append, List.length_take_of_le (by omega)] at hread
  have hown : InRegion base code.length (base + BitVec.ofNat 64 (off + 6)) :=
    inRegion_add (by omega) hlen.le
  rw [execChunk, if_neg (by omega), hcode, decode_jmpMem]
  simp [Instruction.exec, jumpThrough, Flow.transfer, hliteral, hown]

/-- A conditional branch as it is emitted. -/
theorem execChunk_jumpUnless (cc : BitVec 4)
    (hheld : Holds s.mem base (jumpUnless (cc.setWidth 8) target)) :
    execChunk cpu callee base (jumpUnless (cc.setWidth 8) target) maxEmitted 0 s =
      ⟨[], [], s, if cond s.rflags cc then .jump target else .next⟩ := by
  have hlen : (jumpUnless (cc.setWidth 8) target).length = 20 := rfl
  rw [maxEmitted, execChunk, if_neg (by rw [hlen]; decide), List.drop_zero, decode_jumpUnless]
  simp only [Instruction.exec, cond_xor_one]
  cases hc : cond s.rflags cc with
  | true =>
      have hjump := @execChunk_jmpMem cpu callee base target s
        (jumpUnless (cc.setWidth 8) target) 6 0 rfl hheld (by rw [hlen]; decide)
      simp [hjump]
  | false =>
      have hskip := @execChunk_end cpu callee base s (jumpUnless (cc.setWidth 8) target) 1
      rw [hlen] at hskip
      simp [hlen, hskip]

/-- A call as it is emitted: after it control is left behind the unbound jump. -/
theorem execChunk_callMem :
    (execChunk cpu callee base (callMem target) maxEmitted 0 s).exit = .inside 11 := by
  have hlen : (callMem target).length = 19 := rfl
  rw [maxEmitted, execChunk, if_neg (by rw [hlen]; decide), List.drop_zero, decode_callMem]
  simp only [Instruction.exec, callThrough, Flow.transfer]
  rw [execChunk, if_neg (by rw [hlen]; decide), decode_callMem_jump]
  simp only [Instruction.exec, hlen]
  rw [if_pos (by decide), execChunk, if_neg (by rw [hlen]; decide)]
  rfl

/-- An instruction that is not a relative jump, embedded as it was. -/
theorem execChunk_embedded {i : Instruction} (hdec : cpu.decode code = some (i, code.length))
    (hpos : code ≠ []) (hrel : ∀ next d, (i.exec next s).transfer ≠ .rel d) :
    execChunk cpu callee base code maxEmitted 0 s =
      let b := execInsn callee i code.length base s
      { b with operands := b.operands.filter fun a => ¬ InRegion base code.length a } := by
  have hlen : 0 ≠ code.length := by
    intro h
    exact hpos (List.length_eq_zero_iff.mp h.symm)
  have hend : ∀ s, execChunk cpu callee base code 1 code.length s = ⟨[], [], s, .next⟩ :=
    fun s => execChunk_end
  rw [maxEmitted, execChunk, if_neg hlen, List.drop_zero, hdec]
  simp only [execInsn, Nat.zero_add, hend]
  cases htr : (i.exec (base + BitVec.ofNat 64 code.length) s).transfer with
  | next => simp
  | rel d => exact absurd htr (hrel _ d)
  | jump a => simp
  | call a => simp

end Emitted

/-! ## §5  One instruction -/

/-- The condition whose opposite the emitted branch tests. -/
def emittedCond (firstByte : Byte) : Instruction → BitVec 4
  | .jcc cc _ => if isPrefix firstByte then 0 else cc
  | _ => 0

theorem isPrefix_bytes : ∀ b : Byte, isPrefix b = true →
    ¬ (0x70 ≤ b ∧ b ≤ 0x7F) ∧ b ≠ 0x0F ∧ b ≠ 0xE8 ∧ b ≠ 0xE9 := by
  decide

theorem jcc8_bytes : ∀ b : Byte, b.extractLsb' 4 4 = 7 →
    (0x70 ≤ b ∧ b ≤ 0x7F) ∧ b - 0x70 = (b.setWidth 4).setWidth 8 ∧ isPrefix b = false ∧
      b ≠ 0xE8 ∧ b ≠ 0xE9 := by
  decide

theorem jcc32_bytes : ∀ b : Byte, b.extractLsb' 4 4 = 8 →
    b - 0x80 = (b.setWidth 4).setWidth 8 := by
  decide

theorem loop_bytes : ∀ b : Byte, b.extractLsb' 2 6 = 0x38 →
    ¬ (0x70 ≤ b ∧ b ≤ 0x7F) ∧ b ≠ 0x0F ∧ b ≠ 0xE8 ∧ b ≠ 0xE9 := by
  decide

theorem conditionCode_zero {b₀ b₁ : Byte} (h : ¬ (0x70 ≤ b₀ ∧ b₀ ≤ 0x7F)) (h0F : b₀ ≠ 0x0F) :
    conditionCode b₀ b₁ = (0 : BitVec 4).setWidth 8 := by
  rw [conditionCode, if_neg h, if_neg h0F]
  rfl

/-- Relative jumps. -/
def IsJump : Instruction → Prop
  | .jmp _ | .jcc _ _ | .loop _ _ _ => True
  | .call _ | .other _ => False

section Rewriting

variable {cs : CsDisasm} {mem : Memory} {addr target : Addr} {insn : CsInsn} {i : Instruction}

theorem disassembleOne_eq (hcs : csDisasm cs mem addr = some insn) :
    disassembleOne cs mem addr = insn.size := by
  rw [disassembleOne, hcs]

theorem analyzeInstruction_eq (hcs : csDisasm cs mem addr = some insn) :
    analyzeInstruction cs mem addr =
      ⟨.jump ∈ insn.groups, .call ∈ insn.groups, .branchRelative ∈ insn.groups,
        (insn.pcOperand addr).getD 0, (insn.pcOperand addr).isSome, insn.size⟩ := by
  rw [analyzeInstruction, hcs]

theorem relocateInsn_jmp (hcs : csDisasm cs mem addr = some insn)
    (hpc : insn.pcOperand addr = some target) (hfirst : mem addr = 0xE9) :
    relocateInsn cs mem addr = generatePatchBytes .x64 target := by
  simp [relocateInsn, analyzeInstruction_eq hcs, hpc, hfirst]

theorem relocateInsn_call (hcs : csDisasm cs mem addr = some insn)
    (hpc : insn.pcOperand addr = some target) (hfirst : mem addr = 0xE8) :
    relocateInsn cs mem addr = callMem target := by
  simp [relocateInsn, analyzeInstruction_eq hcs, hpc, hfirst]

theorem relocateInsn_branch (hcs : csDisasm cs mem addr = some insn)
    (hpc : insn.pcOperand addr = some target) (hjmp : mem addr ≠ 0xE9)
    (hcall : mem addr ≠ 0xE8) (hbranch : .jump ∈ insn.groups ∧ .call ∉ insn.groups) :
    relocateInsn cs mem addr =
      jumpUnless (conditionCode (mem addr) (mem (addr + 1))) target := by
  simp only [relocateInsn, analyzeInstruction_eq hcs, hpc, Option.isSome_some, if_true,
    Option.getD_some, if_neg hjmp, if_neg hcall]
  simp [hbranch]

theorem relocateInsn_embedded (hcs : csDisasm cs mem addr = some insn)
    (hjmp : mem addr ≠ 0xE9) (hcall : mem addr ≠ 0xE8)
    (hbranch : insn.pcOperand addr = none ∨ ¬ (.jump ∈ insn.groups ∧ .call ∉ insn.groups)) :
    relocateInsn cs mem addr = readBytes mem addr insn.size := by
  cases hpc : insn.pcOperand addr with
  | none => simp [relocateInsn, analyzeInstruction_eq hcs, disassembleOne_eq hcs, hpc]
  | some target =>
      have hnot : ¬ (.jump ∈ insn.groups ∧ .call ∉ insn.groups) :=
        hbranch.resolve_left (by simp [hpc])
      simp only [relocateInsn, analyzeInstruction_eq hcs, disassembleOne_eq hcs, hpc,
        Option.isSome_some, if_true, if_neg hjmp, if_neg hcall]
      rw [if_neg (by simpa using hnot)]

/-- A relative jump other than an unprefixed `JMP rel32` becomes a conditional one. -/
theorem relocateInsn_jumps (hcs : csDisasm cs mem addr = some insn) (hjmp : mem addr ≠ 0xE9)
    (hi : IsJump i) (hshape : Shape (mem addr) (mem (addr + 1)) i)
    (hbranch : .jump ∈ insn.groups ∧ .call ∉ insn.groups)
    (hpc : insn.pcOperand addr = some target) :
    relocateInsn cs mem addr = jumpUnless ((emittedCond (mem addr) i).setWidth 8) target := by
  have hzero : ∀ j, emittedCond (mem addr) j = 0 →
      ¬ (0x70 ≤ mem addr ∧ mem addr ≤ 0x7F) → mem addr ≠ 0x0F → mem addr ≠ 0xE8 →
        relocateInsn cs mem addr = jumpUnless ((emittedCond (mem addr) j).setWidth 8) target := by
    intro j hj h7 h0F hE8
    rw [relocateInsn_branch hcs hpc hjmp hE8 hbranch, conditionCode_zero h7 h0F, hj]
  cases hshape with
  -- a prefix byte is no `7x` and no `0F`: the code takes condition 0
  | prefixed i h =>
      obtain ⟨h7, h0F, hE8, -⟩ := isPrefix_bytes _ h
      refine hzero i ?_ h7 h0F hE8
      cases i <;> simp [emittedCond, h]
  | jmp8 d h => exact hzero _ rfl (by rw [h]; decide) (by rw [h]; decide) (by rw [h]; decide)
  | jmp32 d h => exact absurd h hjmp
  | call d h => exact hi.elim
  | jcc8 d h =>
      obtain ⟨h7, hcc, hp, hE8, -⟩ := jcc8_bytes _ h
      rw [relocateInsn_branch hcs hpc hjmp hE8 hbranch, conditionCode, if_pos h7, hcc]
      simp [emittedCond, hp]
  | jcc32 d h h' =>
      have hE8 : mem addr ≠ 0xE8 := by rw [h]; decide
      have h7 : ¬ (0x70 ≤ mem addr ∧ mem addr ≤ 0x7F) := by rw [h]; decide
      have hp : isPrefix (mem addr) = false := by rw [h]; decide
      rw [relocateInsn_branch hcs hpc hjmp hE8 hbranch, conditionCode, if_neg h7, if_pos h,
        jcc32_bytes _ h']
      simp [emittedCond, hp]
  | loop kind addr32 d h =>
      obtain ⟨h7, h0F, hE8, -⟩ := loop_bytes _ h
      exact hzero _ rfl h7 h0F hE8
  | other o hE8 hE9 => exact hi.elim

end Rewriting

section One

variable {cs : CsDisasm} {cpu : Cpu} {callee : Addr → State → State} {mem : Memory}
  {addr base target : Addr} {insn : CsInsn} {s : State}

theorem exit_eq_iff {p q : Prop} [Decidable p] [Decidable q] :
    (if p then Exit.jump target else .next) = (if q then Exit.jump target else .next) ↔
      (p ↔ q) := by
  by_cases hp : p <;> by_cases hq : q <;> simp [hp, hq]

theorem readBytes_first (mem : Memory) (addr : Addr) : ∃ bs, 3 ≤ bs.length ∧
    readBytes mem addr 16 = mem addr :: mem (addr + 1) :: bs :=
  ⟨(readBytes mem addr 16).drop 2, by simp, by simp [readBytes, List.range_succ_eq_map]⟩

/-- What the code emitted for a relative jump does. -/
theorem execChunk_jumps {i : Instruction} (hcs : csDisasm cs mem addr = some insn)
    (hi : IsJump i) (hshape : Shape (mem addr) (mem (addr + 1)) i)
    (hbranch : .jump ∈ insn.groups ∧ .call ∉ insn.groups)
    (hpc : insn.pcOperand addr = some target)
    (hheld : Holds s.mem base (relocateInsn cs mem addr)) :
    execChunk cpu callee base (relocateInsn cs mem addr) maxEmitted 0 s =
      ⟨[], [], s, if mem addr = 0xE9 ∨ cond s.rflags (emittedCond (mem addr) i) = true
        then .jump target else .next⟩ := by
  by_cases hjmp : mem addr = 0xE9
  · rw [relocateInsn_jmp hcs hpc hjmp] at hheld ⊢
    rw [if_pos (.inl hjmp)]
    exact execChunk_jmpMem (List.drop_zero) hheld (by simp [Arch.patchSize])
  · rw [relocateInsn_jumps hcs hjmp hi hshape hbranch hpc] at hheld ⊢
    rw [execChunk_jumpUnless _ hheld]
    simp only [hjmp, false_or]

theorem cond_zero (f : BitVec 64) : cond f 0 = of f := by
  simp [X86.cond, test]

/-- Only `JMP rel32` has the first byte `E9`. -/
theorem first_ne_E9 {i : Instruction} {b₀ b₁ : Byte} (h : Shape b₀ b₁ i) (hi : ∀ d, i ≠ .jmp d) :
    b₀ ≠ 0xE9 := by
  cases h with
  | prefixed i h => exact (isPrefix_bytes _ h).2.2.2
  | jmp8 d h => exact absurd rfl (hi d)
  | jmp32 d h => exact absurd rfl (hi d)
  | call d h => rw [h]; decide
  | jcc8 d h => exact (jcc8_bytes _ h).2.2.2.2
  | jcc32 d h h' => rw [h]; decide
  | loop kind addr32 d h => exact (loop_bytes _ h).2.2.2
  | other o hE8 hE9 => exact hE9

theorem first_ne_E8 {o : Other} {b₀ b₁ : Byte} (h : Shape b₀ b₁ (.other o)) : b₀ ≠ 0xE8 := by
  cases h with
  | prefixed i h => exact (isPrefix_bytes _ h).2.2.1
  | other o hE8 hE9 => exact hE8

theorem readBytes_take {n : ℕ} (mem : Memory) (addr : Addr) (hn : n ≤ 16) :
    (readBytes mem addr 16).take n = readBytes mem addr n := by
  rw [readBytes, readBytes, ← List.map_take, List.take_range, Nat.min_eq_left hn]

/-- What an embedded instruction does. -/
theorem execChunk_original {i : Instruction} (hi : ¬ IsJump i) (hsize : insn.size ≠ 0)
    (hdec : cpu.decode (readBytes mem addr 16) = some (i, insn.size)) :
    execChunk cpu callee base (readBytes mem addr insn.size) maxEmitted 0 s =
      let b := execInsn callee i insn.size base s
      { b with operands := b.operands.filter fun a => ¬ InRegion base insn.size a } := by
  obtain ⟨hlen, htake⟩ := Cpu.decode_take hdec
  rw [length_readBytes] at hlen
  rw [readBytes_take mem addr hlen] at htake
  have hown := @execChunk_embedded cpu callee base s (readBytes mem addr insn.size) i
    (by rwa [length_readBytes]) (by rw [← List.length_pos_iff, length_readBytes]; omega)
  rw [length_readBytes] at hown
  refine hown fun next d => ?_
  cases i with
  | jmp d' => exact absurd trivial hi
  | jcc cc d' => exact absurd trivial hi
  | loop kind addr32 d' => exact absurd trivial hi
  | call d' => simp [Instruction.exec]
  | other o =>
      cases o with
      | ripMem disp effect =>
          cases h : (effect (next + disp) s).2 <;> simp [Instruction.exec, h, Flow.transfer]
      | plain effect => cases h : (effect s).2 <;> simp [Instruction.exec, h, Flow.transfer]

/-- A conditional relative jump in place. -/
theorem execInsn_branch {i : Instruction} {n : ℕ} {d : Addr} {s' : State} {p : Prop} [Decidable p]
    (h : i.exec (addr + BitVec.ofNat 64 n) s = ⟨none, s', if p then .rel d else .next⟩) :
    execInsn callee i n addr s =
      ⟨[], [], s', if p then .jump (addr + BitVec.ofNat 64 n + d) else .next⟩ := by
  simp only [execInsn, h]
  by_cases hp : p <;> simp [hp]

theorem execInsn_ripMem_operands {n : ℕ} {disp : Addr}
    {effect : Addr → State → State × Flow} :
    (execInsn callee (.other (.ripMem disp effect)) n addr s).operands =
      [addr + BitVec.ofNat 64 n + disp] := by
  simp only [execInsn, Instruction.exec]
  cases (effect (addr + BitVec.ofNat 64 n + disp) s).2 <;> rfl

end One

/-- The instruction at `addr` as Capstone and the processor see it. -/
structure Site (cs : CsDisasm) (cpu : Cpu) (mem : Memory) (addr : Addr) (insn : CsInsn)
    (i : Instruction) : Prop where
  disasm : csDisasm cs mem addr = some insn
  size : insn.size ≠ 0
  decode : cpu.decode (readBytes mem addr 16) = some (i, insn.size)
  describes : Describes insn addr (mem addr) i

section Sites

variable {cs : CsDisasm} {cpu : Cpu} {callee : Addr → State → State} {mem : Memory}
  {addr base target : Addr} {insn : CsInsn} {i : Instruction} {s : State}

theorem Site.shape (h : Site cs cpu mem addr insn i) :
    Shape (mem addr) (mem (addr + 1)) i := by
  obtain ⟨bs, hbs, hbytes⟩ := readBytes_first mem addr
  have hdec := h.decode
  rw [hbytes] at hdec
  exact Cpu.shape hbs hdec

/-- The chunk at `base` behaves as the instruction does in place. -/
def SameBehaviour (cs : CsDisasm) (cpu : Cpu) (callee : Addr → State → State) (mem : Memory)
    (addr base : Addr) (i : Instruction) (n : ℕ) (s : State) : Prop :=
  execChunk cpu callee base (relocateInsn cs mem addr) maxEmitted 0 s =
    execInsn callee i n addr s

/-- A relative jump to `target` is taken where the emitted one is. -/
theorem Site.same_iff {p : Prop} [Decidable p] {s' : State} (h : Site cs cpu mem addr insn i)
    (hi : IsJump i) (hbranch : .jump ∈ insn.groups ∧ .call ∉ insn.groups)
    (hpc : insn.pcOperand addr = some target)
    (hheld : Holds s.mem base (relocateInsn cs mem addr))
    (hplace : execInsn callee i insn.size addr s =
      ⟨[], [], s', if p then .jump target else .next⟩) :
    SameBehaviour cs cpu callee mem addr base i insn.size s ↔
      s = s' ∧ (mem addr = 0xE9 ∨ X86.cond s.rflags (emittedCond (mem addr) i) = true ↔ p) := by
  rw [SameBehaviour, execChunk_jumps h.disasm hi h.shape hbranch hpc hheld, hplace,
    Behaviour.mk.injEq, exit_eq_iff]
  simp only [true_and]

theorem Site.jmp_iff {d : Addr} (h : Site cs cpu mem addr insn (.jmp d))
    (hheld : Holds s.mem base (relocateInsn cs mem addr)) :
    SameBehaviour cs cpu callee mem addr base (.jmp d) insn.size s ↔
      Relocatable (mem addr) s (.jmp d) := by
  obtain ⟨hjump, hcall, hpc⟩ := h.describes
  have hplace := @execInsn_branch callee addr s (.jmp d) insn.size d s True _ rfl
  rw [h.same_iff trivial ⟨hjump, hcall⟩ hpc hheld hplace,
    show emittedCond (mem addr) (.jmp d) = 0 from rfl, cond_zero]
  simp only [true_and, iff_true, Relocatable]

theorem Site.jcc_iff {cc : BitVec 4} {d : Addr} (h : Site cs cpu mem addr insn (.jcc cc d))
    (hheld : Holds s.mem base (relocateInsn cs mem addr)) :
    SameBehaviour cs cpu callee mem addr base (.jcc cc d) insn.size s ↔
      Relocatable (mem addr) s (.jcc cc d) := by
  obtain ⟨hjump, hcall, hpc⟩ := h.describes
  have hplace :=
    @execInsn_branch callee addr s (.jcc cc d) insn.size d s (X86.cond s.rflags cc = true) _ rfl
  have hE9 := first_ne_E9 h.shape (fun d => by simp)
  rw [h.same_iff trivial ⟨hjump, hcall⟩ hpc hheld hplace]
  simp only [true_and, hE9, false_or, emittedCond, Relocatable]
  cases hp : isPrefix (mem addr) with
  | true =>
      rw [if_pos rfl, cond_zero]
      cases X86.cond s.rflags cc <;> cases of s.rflags <;> simp
  | false => simp

theorem Site.loop_iff {kind : LoopKind} {addr32 : Bool} {d : Addr}
    (h : Site cs cpu mem addr insn (.loop kind addr32 d))
    (hheld : Holds s.mem base (relocateInsn cs mem addr)) :
    SameBehaviour cs cpu callee mem addr base (.loop kind addr32 d) insn.size s ↔
      Relocatable (mem addr) s (.loop kind addr32 d) := by
  obtain ⟨hjump, hcall, hpc⟩ := h.describes
  have hE9 := first_ne_E9 h.shape (fun d => by simp)
  have hcount : s ≠ s.set .rcx (loopCount addr32 (s.reg .rcx - 1)) := by
    intro hs
    have hrcx := congrArg (fun t => t.reg .rcx) hs
    simp only [State.set_reg_self] at hrcx
    exact loopCount_sub_one_ne addr32 _ hrcx.symm
  -- the counting loops change `rcx`, which the emitted branch does not
  have hnever : ∀ {p : Prop} [Decidable p], kind ≠ .jrcxz →
      execInsn callee (.loop kind addr32 d) insn.size addr s =
        ⟨[], [], s.set .rcx (loopCount addr32 (s.reg .rcx - 1)),
          if p then .jump (addr + BitVec.ofNat 64 insn.size + d) else .next⟩ →
      (SameBehaviour cs cpu callee mem addr base (.loop kind addr32 d) insn.size s ↔
        Relocatable (mem addr) s (.loop kind addr32 d)) := by
    intro p _ hkind hplace
    rw [h.same_iff trivial ⟨hjump, hcall⟩ hpc hheld hplace]
    exact iff_of_false (fun hs => hcount hs.1) fun hr => hkind hr.1
  cases kind with
  | loopne => exact hnever (by decide) (execInsn_branch rfl)
  | loope => exact hnever (by decide) (execInsn_branch rfl)
  | loop => exact hnever (by decide) (execInsn_branch rfl)
  | jrcxz =>
      have hplace := @execInsn_branch callee addr s (.loop .jrcxz addr32 d) insn.size d s
        (loopCount addr32 (s.reg .rcx) = 0) _ rfl
      rw [h.same_iff trivial ⟨hjump, hcall⟩ hpc hheld hplace,
        show emittedCond (mem addr) (.loop .jrcxz addr32 d) = 0 from rfl, cond_zero]
      simp only [true_and, hE9, false_or, Relocatable]
      exact Iff.comm

/-- A call is never relocated: unprefixed it leaves control behind the unbound jump, and
with a prefix it calls relative to its new place. -/
theorem Site.not_same_call {d : Addr} (h : Site cs cpu mem addr insn (.call d))
    (hne : base ≠ addr) :
    ¬ SameBehaviour cs cpu callee mem addr base (.call d) insn.size s := by
  obtain ⟨hcall, hpc⟩ := h.describes
  have hE9 := first_ne_E9 h.shape (fun d => by simp)
  intro hsame
  unfold SameBehaviour at hsame
  by_cases hE8 : mem addr = 0xE8
  -- the emitted call reads its target behind a jump to a label that is never bound
  · rw [relocateInsn_call h.disasm hpc hE8] at hsame
    have hexit := congrArg Behaviour.exit hsame
    rw [execChunk_callMem] at hexit
    cases hexit
  · rw [relocateInsn_embedded h.disasm hE9 hE8 (.inr fun hb => hb.2 hcall),
      execChunk_original id h.size h.decode] at hsame
    have hcalls := congrArg Behaviour.calls hsame
    simp only [execInsn, Instruction.exec, List.cons.injEq, and_true] at hcalls
    exact hne (BitVec.add_left_inj _ |>.mp (BitVec.add_left_inj _ |>.mp hcalls))

/-- Nor is an instruction with an operand relative to `rip`: the operand is elsewhere. -/
theorem Site.not_same_ripMem {disp : Addr} {effect : Addr → State → State × Flow}
    (h : Site cs cpu mem addr insn (.other (.ripMem disp effect))) (hne : base ≠ addr)
    (hheld : Holds s.mem base (relocateInsn cs mem addr)) :
    ¬ SameBehaviour cs cpu callee mem addr base (.other (.ripMem disp effect)) insn.size s := by
  have hE9 := first_ne_E9 h.shape (fun d => by simp)
  have hE8 := first_ne_E8 h.shape
  intro hsame
  have hoperands := congrArg Behaviour.operands hsame
  rw [execInsn_ripMem_operands] at hoperands
  have hembedded : insn.pcOperand addr = none ∨
      ¬ (.jump ∈ insn.groups ∧ .call ∉ insn.groups) →
        addr + BitVec.ofNat 64 insn.size + disp ∈
          [base + BitVec.ofNat 64 insn.size + disp] := by
    intro hbranch
    rw [relocateInsn_embedded h.disasm hE9 hE8 hbranch,
      execChunk_original id h.size h.decode] at hoperands
    dsimp only at hoperands
    rw [execInsn_ripMem_operands] at hoperands
    have hmem : addr + BitVec.ofNat 64 insn.size + disp ∈
        [addr + BitVec.ofNat 64 insn.size + disp] := List.mem_cons_self
    rw [← hoperands] at hmem
    exact (List.mem_filter.mp hmem).1
  have hother : ¬ addr + BitVec.ofNat 64 insn.size + disp ∈
      [base + BitVec.ofNat 64 insn.size + disp] := by
    intro hmem
    have heq := List.mem_singleton.mp hmem
    exact hne (BitVec.add_left_inj _ |>.mp (BitVec.add_left_inj _ |>.mp heq)).symm
  cases hpc : insn.pcOperand addr with
  | none => exact hother (hembedded (.inl hpc))
  | some target =>
      by_cases hbranch : .jump ∈ insn.groups ∧ .call ∉ insn.groups
      · -- an indirect jump becomes a conditional one and reads no operand
        obtain ⟨h0F, h7⟩ := h.describes.2 hbranch.1
        have hcode := relocateInsn_branch h.disasm hpc hE9 hE8 hbranch
        rw [conditionCode_zero h7 h0F] at hcode
        rw [hcode] at hheld hoperands
        rw [execChunk_jumpUnless _ hheld] at hoperands
        cases hoperands
      · exact hother (hembedded (.inr hbranch))

theorem Site.same_plain {effect : State → State × Flow}
    (h : Site cs cpu mem addr insn (.other (.plain effect))) :
    SameBehaviour cs cpu callee mem addr base (.other (.plain effect)) insn.size s := by
  have hplain : insn.pcOperand addr = none ∨
      ¬ (.jump ∈ insn.groups ∧ .call ∉ insn.groups) := by
    by_cases hjump : .jump ∈ insn.groups
    · exact .inl (h.describes hjump)
    · exact .inr fun hb => hjump hb.1
  rw [SameBehaviour, relocateInsn_embedded h.disasm (first_ne_E9 h.shape fun d => by simp)
    (first_ne_E8 h.shape) hplain, execChunk_original id h.size h.decode]
  simp only [execInsn, Instruction.exec]
  cases (effect s).2 <;> simp [Flow.transfer]

/-- **One instruction.** The code emitted for it, run elsewhere, behaves as it does in
place exactly when it is `Relocatable` in the state it runs in. -/
theorem Site.same_behaviour_iff (h : Site cs cpu mem addr insn i) (hne : base ≠ addr)
    (hheld : Holds s.mem base (relocateInsn cs mem addr)) :
    SameBehaviour cs cpu callee mem addr base i insn.size s ↔ Relocatable (mem addr) s i := by
  cases i with
  | jmp d => exact h.jmp_iff hheld
  | jcc cc d => exact h.jcc_iff hheld
  | loop kind addr32 d => exact h.loop_iff hheld
  | call d => exact iff_of_false (h.not_same_call hne) id
  | other o =>
      cases o with
      | ripMem disp effect => exact iff_of_false (h.not_same_ripMem hne hheld) id
      | plain effect => exact iff_of_true h.same_plain trivial

end Sites

/-! ## §6  Whole runs -/

/-- The block lies apart from the consumed code, and the run in place leaves it alone. -/
structure Undisturbed (cpu : Cpu) (callee : Addr → State → State) (mem : Memory)
    (source base : Addr) (chunks : List Chunk) (code : List Byte) (s : State) : Prop where
  apart : ∀ i < code.length, ∀ j < bytesConsumed chunks,
    base + BitVec.ofNat 64 i ≠ source + BitVec.ofNat 64 j
  entry : Holds s.mem base code
  kept : ∀ b ∈ runInPlace cpu callee mem chunks.length source s, Holds b.state.mem base code

section Runs

variable {cs : CsDisasm} {cpu : Cpu} {callee : Addr → State → State} {mem : Memory}
  {source addr base back : Addr} {c : Chunk} {chunks : List Chunk} {s : State} {minBytes : ℕ}

theorem site_of_chunk (hcs : DecodesAt cs cpu mem addr)
    (hsize : disassembleOne cs mem addr = c.size) (hne : c.size ≠ 0) :
    ∃ insn i, Site cs cpu mem addr insn i ∧ insn.size = c.size := by
  unfold disassembleOne at hsize
  cases hdisasm : csDisasm cs mem addr with
  | none =>
      rw [hdisasm] at hsize
      exact absurd hsize.symm hne
  | some insn =>
      rw [hdisasm] at hsize
      have hinsn : insn.size = c.size := hsize
      obtain ⟨i, hdec, hdesc⟩ := hcs insn hdisasm
      exact ⟨insn, i, ⟨hdisasm, hinsn ▸ hne, hdec, hdesc⟩, hinsn⟩

theorem runRelocated_nil (hheld : Holds s.mem base (generatePatchBytes .x64 back)) :
    runRelocated cpu callee back base [] s = [⟨[], [], s, .jump back⟩] := by
  rw [runRelocated, maxEmitted,
    execChunk_jmpMem (List.drop_zero) hheld (by simp [Arch.patchSize])]

/-- The first behaviours of two equal runs are equal. -/
theorem head_eq {p q : Prop} [Decidable p] [Decidable q] {b b' : Behaviour}
    {bs bs' : List Behaviour}
    (h : (if p then b :: bs else [b]) = if q then b' :: bs' else [b']) : b = b' := by
  have hhead := congrArg List.head? h
  by_cases hp : p <;> by_cases hq : q <;> simpa [hp, hq] using hhead

theorem bytesConsumed_cons : bytesConsumed (c :: chunks) = c.size + bytesConsumed chunks := by
  simp [bytesConsumed]

theorem DecodesFor.drop {done rest : List Chunk}
    (h : DecodesFor cs cpu mem addr (done ++ rest)) :
    DecodesFor cs cpu mem (addr + BitVec.ofNat 64 (bytesConsumed done)) rest := by
  induction done generalizing addr with
  | nil => simpa [bytesConsumed] using h
  | cons c done ih =>
      have hnext := ih h.2
      rwa [BitVec.add_assoc, ← BitVec.ofNat_add, ← bytesConsumed_cons] at hnext

/-- After an instruction that falls through, the rest of the block is as well off. -/
theorem Undisturbed.tail {code : List Byte} {b : Behaviour} {bs : List Behaviour}
    (h : Undisturbed cpu callee mem addr base (c :: chunks) (c.code ++ code) s)
    (hrun : runInPlace cpu callee mem (c :: chunks).length addr s = b :: bs)
    (htail : bs = runInPlace cpu callee mem chunks.length (addr + BitVec.ofNat 64 c.size)
      b.state) :
    Undisturbed cpu callee mem (addr + BitVec.ofNat 64 c.size)
      (base + BitVec.ofNat 64 c.code.length) chunks code b.state where
  apart := by
    intro i hi j hj
    rw [BitVec.add_assoc, BitVec.add_assoc, ← BitVec.ofNat_add, ← BitVec.ofNat_add]
    exact h.apart _ (by rw [List.length_append]; omega) _ (by rw [bytesConsumed_cons]; omega)
  entry := (h.kept b (hrun ▸ List.mem_cons_self)).append.2
  kept := by
    intro b' hb'
    exact (h.kept b' (hrun ▸ List.mem_cons_of_mem _ (htail ▸ hb'))).append.2

/-- **Runs from a chunk on.** -/
theorem runRelocated_eq_iff_from (hcs : DecodesFor cs cpu mem addr chunks)
    (hchunks : ChunksOf cs mem addr chunks)
    (hback : back = addr + BitVec.ofNat 64 (bytesConsumed chunks))
    (h : Undisturbed cpu callee mem addr base chunks
      (chunks.flatMap Chunk.code ++ generatePatchBytes .x64 back) s) :
    runRelocated cpu callee back base chunks s =
        runInPlace cpu callee mem chunks.length addr s ↔
      AllRelocatable cpu callee mem chunks.length addr s := by
  induction chunks generalizing addr base s with
  | nil =>
      have hentry := h.entry
      rw [List.flatMap_nil, List.nil_append] at hentry
      refine iff_of_true ?_ trivial
      rw [runRelocated_nil hentry, hback]
      simp [runInPlace, bytesConsumed]
  | cons c chunks ih =>
      obtain ⟨hsize, hne, hcode, hrest⟩ := hchunks
      obtain ⟨hfirst, hlater⟩ := hcs
      obtain ⟨insn, i, site, hinsn⟩ := site_of_chunk hfirst hsize hne
      rw [List.flatMap_cons, List.append_assoc] at h
      have hlong : 0 < (c.code ++ (chunks.flatMap Chunk.code ++
          generatePatchBytes .x64 back)).length := by
        rw [List.length_append, List.length_append, length_generatePatchBytes, Arch.patchSize]
        omega
      have hbase : base ≠ addr := by
        have hapart := h.apart 0 hlong 0 (by rw [bytesConsumed_cons]; omega)
        simpa using hapart
      have hone := @Site.same_behaviour_iff cs cpu callee mem addr base insn i s site hbase
        (hcode ▸ h.entry.append.1)
      rw [SameBehaviour, ← hcode] at hone
      have hrun : runInPlace cpu callee mem (c :: chunks).length addr s =
          let b := execInsn callee i insn.size addr s
          if b.exit = .next then
            b :: runInPlace cpu callee mem chunks.length (addr + BitVec.ofNat 64 c.size) b.state
          else [b] := by
        rw [List.length_cons, runInPlace, site.decode, ← hinsn]
      simp only [List.length_cons, AllRelocatable, site.decode, runRelocated] at hrun ⊢
      rw [hrun]
      -- the first instruction decides, and the rest follows if it falls through
      by_cases hreloc : Relocatable (mem addr) s i
      · rw [hone.mpr hreloc]
        by_cases hexit : (execInsn callee i insn.size addr s).exit = .next
        · rw [if_pos hexit] at hrun
          have hnext := ih hlater hrest (by rw [hback, bytesConsumed_cons, BitVec.ofNat_add,
            BitVec.add_assoc]) (h.tail hrun rfl)
          rw [if_pos hexit, if_pos hexit, List.cons_eq_cons, hnext, hinsn]
          exact ⟨fun hall => ⟨hreloc, fun _ => hall.2⟩, fun hall => ⟨rfl, hall.2 (hinsn ▸ hexit)⟩⟩
        · rw [if_neg hexit, if_neg hexit]
          exact iff_of_true rfl ⟨hreloc, fun hnext => absurd hnext hexit⟩
      · refine iff_of_false (fun heq => hreloc (hone.mp (head_eq heq))) fun hall => hreloc hall.1

/-- **Relocation.** The relocated code behaves as the instructions it stands for do in
place exactly when each of them that is executed is `Relocatable` where it is. -/
theorem runRelocated_eq_iff (hcs : DecodesFor cs cpu mem source chunks)
    (hbuild : buildRelocatedCode cs mem source minBytes (some base) = .ok (base, chunks))
    (h : Undisturbed cpu callee mem source base chunks (block source chunks) s) :
    runRelocated cpu callee (source + BitVec.ofNat 64 (bytesConsumed chunks)) base chunks s =
        runInPlace cpu callee mem chunks.length source s ↔
      AllRelocatable cpu callee mem chunks.length source s :=
  runRelocated_eq_iff_from hcs (buildRelocatedCode_ok hbuild).2.1 rfl h

end Runs

/-! A software breakpoint on a jump at `0x1000`, its block at `0x9000`. -/

/-- A processor of relative branches only. -/
def branchCpu : Cpu := ⟨fun _ => none, by simp⟩

def branchDisasm : CsDisasm := fun bs addr =>
  match branchCpu.decode bs with
  | some (.jmp d, n) =>
      some ⟨n, [.jump, .branchRelative], [.imm (addr + BitVec.ofNat 64 n + d)]⟩
  | _ => none

theorem branchDisasm_decodesAt (mem : Memory) (addr : Addr) :
    DecodesAt branchDisasm branchCpu mem addr := by
  intro insn h
  unfold csDisasm branchDisasm at h
  split at h
  · cases h
  split at h
  · rename_i d n hdec
    obtain rfl := Option.some.inj h
    exact ⟨.jmp d, hdec, by simp, by simp, rfl⟩
  · cases h

theorem branchDisasm_decodes {mem : Memory} {addr : Addr} {chunks : List Chunk} :
    DecodesFor branchDisasm branchCpu mem addr chunks := by
  induction chunks generalizing addr with
  | nil => trivial
  | cons c chunks ih => exact ⟨branchDisasm_decodesAt mem addr, ih⟩

def codeAt (bytes : List Byte) : Memory := writeBytes (fun _ => 0) 0x1000 bytes

def jumpChunks (mem : Memory) : List Chunk :=
  [⟨disassembleOne branchDisasm mem 0x1000, relocateInsn branchDisasm mem 0x1000⟩]

/-- All registers and flags are zero. -/
def hookedEntry (mem : Memory) : State :=
  ⟨fun _ => 0, 0, writeBytes (fun _ => 0) 0x9000 (block 0x1000 (jumpChunks mem))⟩

def nearJump : Memory := codeAt [0xE9, 0x05, 0x00, 0x00, 0x00]

def shortJump : Memory := codeAt [0xEB, 0x05]

/-- A jump that is taken writes nothing. -/
theorem undisturbed_of_jump {mem : Memory} {target : Addr}
    (hlen : (block 0x1000 (jumpChunks mem)).length < 2 ^ 64)
    (apart : ∀ i < (block 0x1000 (jumpChunks mem)).length,
      ∀ j < bytesConsumed (jumpChunks mem),
        (0x9000 : Addr) + BitVec.ofNat 64 i ≠ 0x1000 + BitVec.ofNat 64 j)
    (hrun : runInPlace branchCpu (fun _ s => s) mem (jumpChunks mem).length 0x1000
      (hookedEntry mem) = [⟨[], [], hookedEntry mem, .jump target⟩]) :
    Undisturbed branchCpu (fun _ s => s) mem 0x1000 0x9000 (jumpChunks mem)
      (block 0x1000 (jumpChunks mem)) (hookedEntry mem) := by
  have hheld : Holds (hookedEntry mem).mem 0x9000 (block 0x1000 (jumpChunks mem)) :=
    readBytes_writeBytes_self hlen.le
  refine ⟨apart, hheld, fun b hb => ?_⟩
  rw [hrun, List.mem_singleton] at hb
  rw [hb]
  exact hheld

theorem undisturbed_nearJump :
    Undisturbed branchCpu (fun _ s => s) nearJump 0x1000 0x9000 (jumpChunks nearJump)
      (block 0x1000 (jumpChunks nearJump)) (hookedEntry nearJump) :=
  @undisturbed_of_jump nearJump 0x100A (by decide) (by decide) rfl

theorem runRelocated_eq_iff_nearJump :
    runRelocated branchCpu (fun _ s => s)
        (0x1000 + BitVec.ofNat 64 (bytesConsumed (jumpChunks nearJump))) 0x9000
        (jumpChunks nearJump) (hookedEntry nearJump) =
      runInPlace branchCpu (fun _ s => s) nearJump (jumpChunks nearJump).length 0x1000
        (hookedEntry nearJump) ↔
    AllRelocatable branchCpu (fun _ s => s) nearJump (jumpChunks nearJump).length 0x1000
      (hookedEntry nearJump) :=
  runRelocated_eq_iff branchDisasm_decodes
    (buildRelocatedCode_one (by decide)) undisturbed_nearJump

theorem shortJump_inPlace :
    runInPlace branchCpu (fun _ s => s) shortJump (jumpChunks shortJump).length 0x1000
      (hookedEntry shortJump) = [⟨[], [], hookedEntry shortJump, .jump 0x1007⟩] := rfl

theorem shortJump_relocated :
    runRelocated branchCpu (fun _ s => s)
        (0x1000 + BitVec.ofNat 64 (bytesConsumed (jumpChunks shortJump))) 0x9000
        (jumpChunks shortJump) (hookedEntry shortJump) =
      [⟨[], [], hookedEntry shortJump, .next⟩,
        ⟨[], [], hookedEntry shortJump, .jump 0x1002⟩] := rfl

/-- `JMP +5` in its short form: in place it is taken, relocated it falls through. -/
theorem shortJump_not_taken :
    DecodesFor branchDisasm branchCpu shortJump 0x1000 (jumpChunks shortJump) ∧
      buildRelocatedCode branchDisasm shortJump 0x1000 1 (some 0x9000) =
        .ok (0x9000, jumpChunks shortJump) ∧
      Undisturbed branchCpu (fun _ s => s) shortJump 0x1000 0x9000 (jumpChunks shortJump)
        (block 0x1000 (jumpChunks shortJump)) (hookedEntry shortJump) ∧
      runRelocated branchCpu (fun _ s => s)
          (0x1000 + BitVec.ofNat 64 (bytesConsumed (jumpChunks shortJump))) 0x9000
          (jumpChunks shortJump) (hookedEntry shortJump) ≠
        runInPlace branchCpu (fun _ s => s) shortJump (jumpChunks shortJump).length 0x1000
          (hookedEntry shortJump) := by
  refine ⟨branchDisasm_decodes, buildRelocatedCode_one (by decide),
    @undisturbed_of_jump shortJump 0x1007 (by decide) (by decide) rfl, ?_⟩
  rw [shortJump_inPlace, shortJump_relocated]
  intro h
  exact absurd (congrArg List.length h) (by decide)

end Relocation

end Chromatic
