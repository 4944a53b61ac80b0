import Chromatic.Arm64Relocator

/-!
# Relocated ARM64 code against the original

The consumed instructions are run where they were, and as the chunks of
`buildRelocatedCode`. Both runs are traced instruction by instruction: the literals loaded,
the calls made, the state, and where control goes. The runs are compared up to `x16` and up
to which of two corresponding places in the code an address names.

§1 behaviour · §2 corresponding places · §3 runs · §4 when an instruction survives ·
§5 one instruction · §6 whole runs.
-/

namespace Chromatic

open Foundation Foundation.Arm64 Arm64Relocator

namespace Arm64Relocation

/-! ## §1  Behaviour -/

inductive Exit where
  | next
  | jump (a : Addr)
deriving DecidableEq, Repr

@[ext] structure Behaviour where
  literals : List (List Byte)
  calls : List Addr
  state : State
  exit : Exit

/-- What a function called does not depend on: the scratch register `x16`, and the number of
the address it returns to. -/
def erased (s : State) : State := (s.set 16 0).set 30 0

/-- A call of `a` from `s` that returns to `back`. -/
def called (callee : Addr → State → State) (a back : Addr) (s : State) : State :=
  (callee a (erased s)).set 30 back

/-- The instruction at `addr`. `callee a s` is the state in which a call of `a` from `s`
returns. -/
def execInsn (callee : Addr → State → State) (i : Instruction) (addr : Addr) (s : State) :
    Behaviour :=
  let step := i.exec addr s
  match step.flow with
  | .next => ⟨step.literal.toList, [], step.state, .next⟩
  | .jump a => ⟨step.literal.toList, [], step.state, .jump a⟩
  | .call a => ⟨step.literal.toList, [a], called callee a (addr + 4) step.state, .next⟩

section Emitted

variable (others : BitVec 32 → State → State × Flow) (asmjit : Asmjit)
  (callee : Addr → State → State)

/-- What the assembler was asked for, at `addr`. -/
def Emitted.exec (addr : Addr) (s : State) : Emitted → Behaviour
  | .mov rd imm =>
      let moved :=
        if rd = 31 then if asmjit.encodesSp imm then { s with sp := imm } else s
        else s.writeX rd imm
      ⟨[], [], moved, .next⟩
  | .br rn => ⟨[], [], s, .jump (s.reg rn)⟩
  | .blr rn => ⟨[], [s.reg rn], called callee (s.reg rn) (addr + 4) s, .next⟩
  | .embed bytes => execInsn callee (decode others (word bytes)) addr s

/-- A chunk at `addr`. -/
def execChunk : Addr → List Emitted → State → Behaviour
  | _, [], s => ⟨[], [], s, .next⟩
  | addr, e :: code, s =>
      let b := Emitted.exec others asmjit callee addr s e
      if b.exit = .next then
        let rest := execChunk (addr + BitVec.ofNat 64 (e.size asmjit)) code b.state
        { rest with literals := b.literals ++ rest.literals, calls := b.calls ++ rest.calls }
      else b

end Emitted

/-! ## §2  Corresponding places -/

/-- Where the originals are, where the chunks are, and how long each of them is. -/
structure Layout where
  source : Addr
  base : Addr
  sizes : List ℕ

namespace Layout

variable (l : Layout)

def original (k : ℕ) : Addr := l.source + BitVec.ofNat 64 (4 * k)

def relocated (k : ℕ) : Addr := l.base + BitVec.ofNat 64 (l.sizes.take k).sum

/-- Code at `a` goes on as relocated code at `a'` does: it is the same code, or `a'` is the
chunk of the instruction at `a`. -/
def Corresponds (a a' : Addr) : Prop :=
  a' = a ∨ ∃ k ≤ l.sizes.length, a = l.original k ∧ a' = l.relocated k

/-- The states differ in `x16` and in which of two places `x30` returns to, at most. -/
structure Agree (s t : State) : Prop where
  regs : ∀ r, r ≠ 16 → r ≠ 30 → t.reg r = s.reg r
  link : l.Corresponds (s.reg 30) (t.reg 30)
  sp : t.sp = s.sp
  nzcv : t.nzcv = s.nzcv
  vec : t.vec = s.vec
  mem : t.mem = s.mem

def SameExit : Exit → Exit → Prop
  | .next, .next => True
  | .jump a, .jump a' => l.Corresponds a a'
  | .next, .jump _ => False
  | .jump _, .next => False

structure Matches (b b' : Behaviour) : Prop where
  literals : b'.literals = b.literals
  calls : b'.calls = b.calls
  state : l.Agree b.state b'.state
  exit : l.SameExit b.exit b'.exit

/-- A branch by `d` lands in the originals, and the code emitted for what it skips is as long
as that. -/
def Lands (addr addr' d : Addr) : Prop :=
  ∃ k ≤ l.sizes.length, addr + d = l.original k ∧ addr' + d = l.relocated k

variable {l : Layout} {s t : State} {a a' d v : Addr} {k : ℕ}

theorem original_succ : l.original (k + 1) = l.original k + 4 := by
  unfold original
  bv_omega

theorem relocated_succ (hk : k < l.sizes.length) :
    l.relocated (k + 1) = l.relocated k + BitVec.ofNat 64 (l.sizes[k]) := by
  rw [relocated, relocated, List.take_add_one, List.getElem?_eq_getElem hk, Option.toList_some,
    List.sum_append, List.sum_singleton, BitVec.ofNat_add, BitVec.add_assoc]

theorem corresponds_self : l.Corresponds a a := .inl rfl

theorem Agree.refl (s : State) : l.Agree s s :=
  ⟨fun _ _ _ => rfl, corresponds_self, rfl, rfl, rfl, rfl⟩

theorem Agree.erased_eq (h : l.Agree s t) : erased t = erased s := by
  have hreg : (erased t).reg = (erased s).reg := by
    funext r
    by_cases h30 : r = 30
    · simp [erased, h30]
    · by_cases h16 : r = 16
      · simp [erased, h16]
      · simp [erased, h30, h16, h.regs r h16 h30]
  exact State.ext hreg h.sp h.nzcv h.vec h.mem

/-- `x16` is scratch. -/
theorem Agree.scratch (h : l.Agree s t) : l.Agree s (t.set 16 v) := by
  refine ⟨fun r h16 h30 => ?_, ?_, h.sp, h.nzcv, h.vec, h.mem⟩
  · rw [State.set_reg_ne _ _ _ h16]
    exact h.regs r h16 h30
  · rw [State.set_reg_ne _ _ _ (by decide)]
    exact h.link

theorem Agree.writeX (h : l.Agree s t) (r : BitVec 5) : l.Agree (s.writeX r v) (t.writeX r v) := by
  unfold State.writeX
  split
  · rename_i hlt
    refine ⟨fun r' h16 h30 => ?_, ?_, h.sp, h.nzcv, h.vec, h.mem⟩
    · by_cases hr : r' = ⟨r.toNat, hlt⟩
      · simp [hr]
      · simp [hr, h.regs r' h16 h30]
    · by_cases hr : 30 = (⟨r.toNat, hlt⟩ : Fin 31)
      · rw [← hr, State.set_reg_self, State.set_reg_self]
        exact corresponds_self
      · rw [State.set_reg_ne _ _ _ hr, State.set_reg_ne _ _ _ hr]
        exact h.link
  · exact h

theorem Agree.load (h : l.Agree s t) (kind : Load) (r : BitVec 5) (bs : List Byte) :
    l.Agree (kind.exec r bs s) (kind.exec r bs t) := by
  have hvec : ∀ v, l.Agree { s with vec := Function.update s.vec r v }
      { t with vec := Function.update t.vec r v } := by
    intro v
    exact ⟨h.regs, h.link, h.sp, h.nzcv, by rw [h.vec], h.mem⟩
  cases kind with
  | w => exact h.writeX r
  | x => exact h.writeX r
  | sw => exact h.writeX r
  | s => exact hvec _
  | d => exact hvec _
  | q => exact hvec _

/-- Two calls of one function come back the same but for where they come back to. -/
theorem Agree.called {callee : Addr → State → State} {back back' : Addr} (h : l.Agree s t)
    (hback : l.Corresponds back back') :
    l.Agree (called callee a back s) (called callee a back' t) := by
  unfold Arm64Relocation.called
  rw [h.erased_eq]
  refine ⟨fun r _ h30 => ?_, ?_, rfl, rfl, rfl, rfl⟩
  · rw [State.set_reg_ne _ _ _ h30, State.set_reg_ne _ _ _ h30]
  · rw [State.set_reg_self, State.set_reg_self]
    exact hback

theorem SameExit.next_iff {e e' : Exit} (h : l.SameExit e e') : e' = .next ↔ e = .next := by
  cases e <;> cases e' <;> simp_all [SameExit]

theorem corresponds_add_iff :
    l.Corresponds (a + d) (a' + d) ↔ a' = a ∨ l.Lands a a' d := by
  unfold Corresponds Lands
  rw [BitVec.add_left_inj]

end Layout

/-! ## §3  Runs -/

/-- The instruction at `addr`. -/
def insnAt (others : BitVec 32 → State → State × Flow) (mem : Memory) (addr : Addr) :
    Instruction :=
  decode others (word (readBytes mem addr 4))

theorem word_window (mem : Memory) (addr : Addr) :
    word (readBytes mem addr 16) = word (readBytes mem addr 4) := rfl

def codeSize (asmjit : Asmjit) (code : List Emitted) : ℕ := (code.map (Emitted.size asmjit)).sum

def layout (asmjit : Asmjit) (source base : Addr) (chunks : List Chunk) : Layout :=
  ⟨source, base, chunks.map fun c => codeSize asmjit c.code⟩

section Runs

variable (others : BitVec 32 → State → State × Flow) (asmjit : Asmjit)
  (callee : Addr → State → State)

/-- `k` instructions from `addr` on in the code `mem`, until one does not fall through. -/
def runInPlace (mem : Memory) : ℕ → Addr → State → List Behaviour
  | 0, addr, s => [⟨[], [], s, .jump addr⟩]
  | k + 1, addr, s =>
      let b := execInsn callee (insnAt others mem addr) addr s
      if b.exit = .next then b :: runInPlace mem k (addr + 4) b.state else [b]

/-- The chunks from `addr` on, and the code `last` behind them. -/
def runRelocated (last : List Emitted) : Addr → List Chunk → State → List Behaviour
  | addr, [], t => [execChunk others asmjit callee addr last t]
  | addr, c :: chunks, t =>
      let b := execChunk others asmjit callee addr c.code t
      if b.exit = .next then
        b :: runRelocated last (addr + BitVec.ofNat 64 (codeSize asmjit c.code)) chunks b.state
      else [b]

end Runs

/-! ## §4  When an instruction survives -/

/-- The instruction does at `addr'` in state `t` what it does in place in `s`. Branches that
are not `B` and `BL`, and loads of literals, are copied and keep their distance: one that is
taken lands elsewhere unless the copy is where the original is. -/
def Relocatable (asmjit : Asmjit) (callee : Addr → State → State) (l : Layout)
    (addr addr' : Addr) (s t : State) : Instruction → Prop
  | .b _ => True
  | .bl _ => True
  | .branch test d =>
      test.holds t = test.holds s ∧ (test.holds s = true → addr' = addr ∨ l.Lands addr addr' d)
  | .adr page rd d =>
      rd = 31 → asmjit.encodesSp (adrTarget page addr d) = true → s.sp = adrTarget page addr d
  | .ldrLiteral kind _ d =>
      readBytes s.mem (addr' + d) kind.size = readBytes s.mem (addr + d) kind.size
  | .other effect =>
      l.Matches (execInsn callee (.other effect) addr s) (execInsn callee (.other effect) addr' t)

/-- Every instruction the run in place executes is `Relocatable` where it is executed. -/
def AllRelocatable (others : BitVec 32 → State → State × Flow) (asmjit : Asmjit)
    (callee : Addr → State → State) (mem : Memory) (l : Layout) :
    Addr → Addr → List Chunk → State → State → Prop
  | _, _, [], _, _ => True
  | addr, addr', c :: chunks, s, t =>
      let i := insnAt others mem addr
      let b := execInsn callee i addr s
      Relocatable asmjit callee l addr addr' s t i ∧
        (b.exit = .next →
          AllRelocatable others asmjit callee mem l (addr + 4)
            (addr' + BitVec.ofNat 64 (codeSize asmjit c.code)) chunks b.state
            (execChunk others asmjit callee addr' c.code t).state)

/-- What Capstone says of an instruction at `addr`. Others may have one of the four names, such
as the vector `ADR`, but then no immediate. -/
def Describes (insn : CsInsn) (addr : Addr) : Instruction → Prop
  | .b d => insn.mnemonic = "b" ∧ insn.immediate = some (addr + d)
  | .bl d => insn.mnemonic = "bl" ∧ insn.immediate = some (addr + d)
  | .adr page _ d =>
      insn.mnemonic = (if page then "adrp" else "adr") ∧
        insn.immediate = some (adrTarget page addr d)
  | .branch _ _ | .ldrLiteral _ _ _ | .other _ =>
      insn.immediate = none ∨ insn.mnemonic ∉ ["b", "bl", "adr", "adrp"]

/-- Capstone decodes the instruction at `addr` as the processor does. -/
def DecodesAt (others : BitVec 32 → State → State × Flow) (cs : CsDisasm) (mem : Memory)
    (addr : Addr) : Prop :=
  ∀ insn, csDisasm cs mem addr = some insn →
    insn.size = 4 ∧ Describes insn addr (insnAt others mem addr)

/-- It does so for each of the instructions from `addr` on that were consumed. -/
def DecodesFor (others : BitVec 32 → State → State × Flow) (cs : CsDisasm) (mem : Memory) :
    Addr → List Chunk → Prop
  | _, [] => True
  | addr, c :: chunks =>
      DecodesAt others cs mem addr ∧
        DecodesFor others cs mem (addr + BitVec.ofNat 64 c.size) chunks

/-! ## §5  One instruction -/

section Rewriting

variable {cs : CsDisasm} {mem : Memory} {addr target : Addr} {insn : CsInsn}

theorem disassembleOne_eq (hcs : csDisasm cs mem addr = some insn) :
    disassembleOne cs mem addr = ⟨insn.size, insn.mnemonic⟩ := by
  rw [disassembleOne, hcs]

theorem analyzeInstruction_eq (hcs : csDisasm cs mem addr = some insn) :
    analyzeInstruction cs mem addr =
      ⟨.jump ∈ insn.groups, .call ∈ insn.groups, .branchRelative ∈ insn.groups,
        insn.immediate.getD 0, insn.immediate.isSome, insn.size⟩ := by
  rw [analyzeInstruction, hcs]

theorem relocateInsn_b (hcs : csDisasm cs mem addr = some insn)
    (himm : insn.immediate = some target) (hmnemonic : insn.mnemonic = "b") :
    relocateInsn cs mem addr = [.mov 16 target, .br 16] := by
  simp [relocateInsn, disassembleOne_eq hcs, analyzeInstruction_eq hcs, himm, hmnemonic]

theorem relocateInsn_bl (hcs : csDisasm cs mem addr = some insn)
    (himm : insn.immediate = some target) (hmnemonic : insn.mnemonic = "bl") :
    relocateInsn cs mem addr = [.mov 16 target, .blr 16] := by
  simp [relocateInsn, disassembleOne_eq hcs, analyzeInstruction_eq hcs, himm, hmnemonic]

theorem relocateInsn_adr {page : Bool} (hcs : csDisasm cs mem addr = some insn)
    (himm : insn.immediate = some target)
    (hmnemonic : insn.mnemonic = if page then "adrp" else "adr") :
    relocateInsn cs mem addr =
      [.mov ((word (readBytes mem addr 4) &&& 0x1F).setWidth 5) target] := by
  cases page <;>
    simp [relocateInsn, disassembleOne_eq hcs, analyzeInstruction_eq hcs, himm, hmnemonic]

theorem relocateInsn_embedded (hcs : csDisasm cs mem addr = some insn)
    (hplain : insn.immediate = none ∨ insn.mnemonic ∉ ["b", "bl", "adr", "adrp"]) :
    relocateInsn cs mem addr = [.embed (readBytes mem addr insn.size)] := by
  rcases hplain with himm | hmnemonic
  · simp [relocateInsn, disassembleOne_eq hcs, analyzeInstruction_eq hcs, himm]
  · simp only [List.mem_cons, List.not_mem_nil, or_false, not_or] at hmnemonic
    obtain ⟨hb, hbl, hadr, hadrp⟩ := hmnemonic
    simp [relocateInsn, disassembleOne_eq hcs, hb, hbl, hadr, hadrp]

end Rewriting

section Chunks

variable {others : BitVec 32 → State → State × Flow} {asmjit : Asmjit}
  {callee : Addr → State → State} {addr target : Addr} {s : State}

theorem execChunk_one (e : Emitted) :
    execChunk others asmjit callee addr [e] s = Emitted.exec others asmjit callee addr s e := by
  rw [execChunk]
  split
  · rename_i hexit
    ext <;> simp [execChunk, hexit]
  · rfl

theorem exec_mov_scratch :
    Emitted.exec others asmjit callee addr s (.mov 16 target) =
      ⟨[], [], s.set 16 target, .next⟩ := rfl

/-- The jump that stands for `B`, and the jump back. -/
theorem execChunk_jump :
    execChunk others asmjit callee addr [.mov 16 target, .br 16] s =
      ⟨[], [], s.set 16 target, .jump target⟩ := by
  rw [execChunk, exec_mov_scratch, if_pos rfl, execChunk_one]
  simp [Emitted.exec]

/-- The call that stands for `BL` comes back behind the chunk. -/
theorem execChunk_call :
    execChunk others asmjit callee addr [.mov 16 target, .blr 16] s =
      ⟨[], [target],
        called callee target (addr + BitVec.ofNat 64 (codeSize asmjit [.mov 16 target, .blr 16]))
          (s.set 16 target), .next⟩ := by
  have hsize : codeSize asmjit [.mov 16 target, .blr 16] = asmjit.movSize 16 target + 4 := by
    rfl
  rw [execChunk, exec_mov_scratch, if_pos rfl, execChunk_one, hsize, BitVec.ofNat_add,
    ← BitVec.add_assoc]
  simp [Emitted.exec, Emitted.size]

end Chunks

/-- The instruction `i` at `addr`, as Capstone reports it. -/
structure Site (others : BitVec 32 → State → State × Flow) (cs : CsDisasm) (mem : Memory)
    (addr : Addr) (insn : CsInsn) (i : Instruction) : Prop where
  disasm : csDisasm cs mem addr = some insn
  size : insn.size = 4
  describes : Describes insn addr i
  decodes : insnAt others mem addr = i

section Sites

variable {others : BitVec 32 → State → State × Flow} {asmjit : Asmjit}
  {callee : Addr → State → State} {cs : CsDisasm} {mem : Memory} {l : Layout}
  {addr addr' d : Addr} {insn : CsInsn} {i : Instruction} {s t : State}

/-- An instruction that is not rewritten does at `addr'` whatever it does there. -/
theorem Site.execChunk_embedded (h : Site others cs mem addr insn i)
    (hplain : insn.immediate = none ∨ insn.mnemonic ∉ ["b", "bl", "adr", "adrp"]) :
    execChunk others asmjit callee addr' (relocateInsn cs mem addr) t =
      execInsn callee i addr' t := by
  rw [relocateInsn_embedded h.disasm hplain, h.size, execChunk_one]
  show execInsn callee (insnAt others mem addr) addr' t = _
  rw [h.decodes]

theorem Site.matches_b (h : Site others cs mem addr insn (.b d)) (hagree : l.Agree s t) :
    l.Matches (execInsn callee (.b d) addr s)
      (execChunk others asmjit callee addr' (relocateInsn cs mem addr) t) := by
  obtain ⟨hmnemonic, himm⟩ := h.describes
  rw [relocateInsn_b h.disasm himm hmnemonic, execChunk_jump]
  exact ⟨rfl, rfl, hagree.scratch, Layout.corresponds_self⟩

theorem Site.matches_bl (h : Site others cs mem addr insn (.bl d)) (hagree : l.Agree s t)
    (hnext : l.Corresponds (addr + 4)
      (addr' + BitVec.ofNat 64 (codeSize asmjit (relocateInsn cs mem addr)))) :
    l.Matches (execInsn callee (.bl d) addr s)
      (execChunk others asmjit callee addr' (relocateInsn cs mem addr) t) := by
  obtain ⟨hmnemonic, himm⟩ := h.describes
  have hcode := relocateInsn_bl h.disasm himm hmnemonic
  rw [hcode] at hnext ⊢
  rw [execChunk_call]
  exact ⟨rfl, rfl, hagree.scratch.called hnext, trivial⟩

theorem Site.branch_iff {test : Test} (h : Site others cs mem addr insn (.branch test d))
    (hagree : l.Agree s t) :
    l.Matches (execInsn callee (.branch test d) addr s)
        (execChunk others asmjit callee addr' (relocateInsn cs mem addr) t) ↔
      test.holds t = test.holds s ∧
        (test.holds s = true → addr' = addr ∨ l.Lands addr addr' d) := by
  rw [h.execChunk_embedded h.describes, ← Layout.corresponds_add_iff]
  simp only [execInsn, Instruction.exec]
  cases hs : test.holds s <;> cases ht : test.holds t
  · exact iff_of_true ⟨rfl, rfl, hagree, trivial⟩ ⟨rfl, fun h => nomatch h⟩
  · exact iff_of_false (fun hm => hm.exit) fun hc => nomatch hc.1
  · exact iff_of_false (fun hm => hm.exit) fun hc => nomatch hc.1
  · exact ⟨fun hm => ⟨rfl, fun _ => hm.exit⟩, fun hc => ⟨rfl, rfl, hagree, hc.2 rfl⟩⟩

theorem Site.adr_iff {page : Bool} {rd : BitVec 5}
    (h : Site others cs mem addr insn (.adr page rd d)) (hagree : l.Agree s t) :
    l.Matches (execInsn callee (.adr page rd d) addr s)
        (execChunk others asmjit callee addr' (relocateInsn cs mem addr) t) ↔
      (rd = 31 → asmjit.encodesSp (adrTarget page addr d) = true →
        s.sp = adrTarget page addr d) := by
  obtain ⟨hmnemonic, himm⟩ := h.describes
  rw [relocateInsn_adr h.disasm himm hmnemonic, decode_adr h.decodes, execChunk_one]
  simp only [execInsn, Instruction.exec, Emitted.exec]
  by_cases hrd : rd = 31
  · -- the original goes to the zero register, what stands for it to the stack pointer
    subst hrd
    cases hsp : asmjit.encodesSp (adrTarget page addr d)
    · exact iff_of_true ⟨rfl, rfl, hagree, trivial⟩ fun _ h => nomatch h
    · constructor
      · intro hm _ _
        exact hm.state.sp.symm
      · intro hc
        have hsame := hc rfl rfl
        exact ⟨rfl, rfl, ⟨hagree.regs, hagree.link, hsame.symm, hagree.nzcv, hagree.vec,
          hagree.mem⟩, trivial⟩
  · refine iff_of_true ?_ fun h => absurd h hrd
    rw [if_neg hrd]
    exact ⟨rfl, rfl, hagree.writeX rd, trivial⟩

theorem Site.ldrLiteral_iff {kind : Load} {rt : BitVec 5}
    (h : Site others cs mem addr insn (.ldrLiteral kind rt d)) (hagree : l.Agree s t) :
    l.Matches (execInsn callee (.ldrLiteral kind rt d) addr s)
        (execChunk others asmjit callee addr' (relocateInsn cs mem addr) t) ↔
      readBytes s.mem (addr' + d) kind.size = readBytes s.mem (addr + d) kind.size := by
  rw [h.execChunk_embedded h.describes]
  simp only [execInsn, Instruction.exec, Option.toList_some, hagree.mem]
  constructor
  · intro hm
    simpa using hm.literals
  · intro hbytes
    rw [hbytes]
    exact ⟨rfl, rfl, hagree.load kind rt _, trivial⟩

/-- **One instruction.** The code emitted for it, run elsewhere in a state that agrees, does
what it does in place exactly when it is `Relocatable` there. -/
theorem Site.matches_iff (h : Site others cs mem addr insn i) (hagree : l.Agree s t)
    (hnext : l.Corresponds (addr + 4)
      (addr' + BitVec.ofNat 64 (codeSize asmjit (relocateInsn cs mem addr)))) :
    l.Matches (execInsn callee i addr s)
        (execChunk others asmjit callee addr' (relocateInsn cs mem addr) t) ↔
      Relocatable asmjit callee l addr addr' s t i := by
  cases i with
  | b d => exact iff_of_true (h.matches_b hagree) trivial
  | bl d => exact iff_of_true (h.matches_bl hagree hnext) trivial
  | branch test d => exact h.branch_iff hagree
  | adr page rd d => exact h.adr_iff hagree
  | ldrLiteral kind rt d => exact h.ldrLiteral_iff hagree
  | other effect =>
      rw [h.execChunk_embedded h.describes]
      exact Iff.rfl

/-- Nothing tests, loads or calls. -/
def Fixed : Instruction → Prop
  | .b _ => True
  | .bl _ => False
  | .branch _ _ => False
  | .adr _ rd _ => rd ≠ 31
  | .ldrLiteral _ _ _ => False
  | .other effect => ∀ s a, (effect s).2 ≠ .call a

theorem Fixed.relocatable (h : Fixed i) : Relocatable asmjit callee l addr addr' s s i := by
  cases i with
  | b d => trivial
  | bl d => cases h
  | branch test d => cases h
  | adr page rd d => exact fun hrd => absurd hrd h
  | ldrLiteral kind rt d => cases h
  | other effect =>
      simp only [Relocatable, execInsn, Instruction.exec]
      cases hflow : (effect s).2 with
      | next => exact ⟨rfl, rfl, .refl _, trivial⟩
      | jump a => exact ⟨rfl, rfl, .refl _, Layout.corresponds_self⟩
      | call a => exact absurd hflow (h s a)

/-- Where it falls through, the code emitted leaves the very state that it leaves in place. -/
theorem Site.same_state (h : Site others cs mem addr insn i) (hfixed : Fixed i)
    (hfall : (execInsn callee i addr s).exit = .next) :
    (execChunk others asmjit callee addr' (relocateInsn cs mem addr) s).state =
      (execInsn callee i addr s).state := by
  cases i with
  | b d => cases hfall
  | bl d => cases hfixed
  | branch test d => cases hfixed
  | adr page rd d =>
      obtain ⟨hmnemonic, himm⟩ := h.describes
      rw [relocateInsn_adr h.disasm himm hmnemonic, decode_adr h.decodes, execChunk_one]
      exact if_neg hfixed
  | ldrLiteral kind rt d => cases hfixed
  | other effect =>
      rw [h.execChunk_embedded h.describes]
      simp only [execInsn, Instruction.exec]
      cases hflow : (effect s).2 with
      | next => rfl
      | jump a => rfl
      | call a => exact absurd hflow (hfixed s a)

end Sites

/-! ## §6  Whole runs -/

section Whole

variable {others : BitVec 32 → State → State × Flow} {asmjit : Asmjit}
  {callee : Addr → State → State} {cs : CsDisasm} {mem : Memory} {l : Layout}
  {source base addr : Addr} {chunks : List Chunk} {s t : State} {k minBytes : ℕ}

theorem site_of_chunk {c : Chunk} (hcs : DecodesAt others cs mem addr)
    (h : ChunksOf cs mem addr (c :: chunks)) :
    c.size = 4 ∧ ∃ insn, Site others cs mem addr insn (insnAt others mem addr) := by
  obtain ⟨hsize, hne, -, -⟩ := h
  unfold disassembleOne at hsize
  cases hdisasm : csDisasm cs mem addr with
  | none =>
      rw [hdisasm] at hsize
      exact absurd hsize.symm hne
  | some insn =>
      rw [hdisasm] at hsize
      obtain ⟨h4, hdescribes⟩ := hcs insn hdisasm
      exact ⟨hsize.symm.trans h4, insn, hdisasm, h4, hdescribes, rfl⟩

theorem bytesConsumed_eq (hcs : DecodesFor others cs mem addr chunks)
    (hchunks : ChunksOf cs mem addr chunks) :
    bytesConsumed chunks = 4 * chunks.length := by
  induction chunks generalizing addr with
  | nil => rfl
  | cons c chunks ih =>
      obtain ⟨hfour, -⟩ := site_of_chunk hcs.1 hchunks
      have htail := ih hcs.2 hchunks.2.2.2
      simp only [bytesConsumed, List.map_cons, List.sum_cons, List.length_cons] at htail ⊢
      omega

theorem chunksOf_drop (hcs : DecodesFor others cs mem addr chunks)
    (hchunks : ChunksOf cs mem addr chunks) :
    DecodesFor others cs mem (addr + BitVec.ofNat 64 (4 * k)) (chunks.drop k) ∧
      ChunksOf cs mem (addr + BitVec.ofNat 64 (4 * k)) (chunks.drop k) := by
  induction k generalizing addr chunks with
  | zero => simpa using ⟨hcs, hchunks⟩
  | succ k ih =>
      cases chunks with
      | nil => exact ⟨trivial, trivial⟩
      | cons c chunks =>
          obtain ⟨hfour, -⟩ := site_of_chunk hcs.1 hchunks
          have hlater := hcs.2
          have htail := hchunks.2.2.2
          rw [hfour] at htail hlater
          rw [Nat.mul_succ, Nat.add_comm, BitVec.ofNat_add, ← BitVec.add_assoc]
          exact ih hlater htail

/-- The first behaviours of two runs that match, match. -/
theorem head_matches {p q : Prop} [Decidable p] [Decidable q] {b b' : Behaviour}
    {bs bs' : List Behaviour}
    (h : List.Forall₂ l.Matches (if p then b :: bs else [b]) (if q then b' :: bs' else [b'])) :
    l.Matches b b' := by
  by_cases hp : p <;> by_cases hq : q <;> simp only [hp, hq, if_true, if_false] at h <;>
    exact (List.forall₂_cons.mp h).1

/-- **Runs from a chunk on.** -/
theorem runRelocated_matches_iff_from (hcs : DecodesFor others cs mem (l.original k) chunks)
    (hsizes : l.sizes.drop k = chunks.map fun c => codeSize asmjit c.code)
    (hk : k + chunks.length = l.sizes.length)
    (hchunks : ChunksOf cs mem (l.original k) chunks) (hagree : l.Agree s t) :
    List.Forall₂ l.Matches (runInPlace others callee mem chunks.length (l.original k) s)
        (runRelocated others asmjit callee [.mov 16 (l.original l.sizes.length), .br 16]
          (l.relocated k) chunks t) ↔
      AllRelocatable others asmjit callee mem l (l.original k) (l.relocated k) chunks s t := by
  induction chunks generalizing k s t with
  | nil =>
      refine iff_of_true ?_ trivial
      rw [List.length_nil, Nat.add_zero] at hk
      rw [runRelocated, execChunk_jump, ← hk]
      exact .cons ⟨rfl, rfl, hagree.scratch, Layout.corresponds_self⟩ .nil
  | cons c chunks ih =>
      obtain ⟨hfour, insn, site⟩ := site_of_chunk hcs.1 hchunks
      obtain ⟨-, -, hcode, hrest⟩ := hchunks
      have hlater := hcs.2
      rw [List.length_cons] at hk
      have hlt : k < l.sizes.length := by omega
      rw [List.drop_eq_getElem_cons hlt, List.map_cons] at hsizes
      obtain ⟨hhere, hsizes'⟩ := List.cons.inj hsizes
      have hbelow : l.relocated k + BitVec.ofNat 64 (codeSize asmjit c.code) =
          l.relocated (k + 1) := by
        rw [Layout.relocated_succ hlt, hhere]
      have hnext : l.Corresponds (l.original k + 4)
          (l.relocated k +
            BitVec.ofNat 64 (codeSize asmjit (relocateInsn cs mem (l.original k)))) := by
        rw [← hcode, hbelow, ← Layout.original_succ]
        exact .inr ⟨k + 1, hlt, rfl, rfl⟩
      have hone : l.Matches _ _ ↔ Relocatable asmjit callee l _ _ s t _ :=
        site.matches_iff hagree hnext
      rw [← hcode] at hone
      have hrest' : ChunksOf cs mem (l.original (k + 1)) chunks := by
        rw [Layout.original_succ]
        rw [hfour] at hrest
        exact hrest
      have hlater' : DecodesFor others cs mem (l.original (k + 1)) chunks := by
        rw [Layout.original_succ]
        rw [hfour] at hlater
        exact hlater
      simp only [List.length_cons, runInPlace, runRelocated, AllRelocatable]
      rw [hbelow, ← Layout.original_succ, ← hone]
      -- the first instruction decides, and the rest follows if it falls through
      by_cases hfirst : l.Matches (execInsn callee (insnAt others mem (l.original k))
        (l.original k) s) (execChunk others asmjit callee (l.relocated k) c.code t)
      · have hexit := hfirst.exit.next_iff
        by_cases hfall : (execInsn callee (insnAt others mem (l.original k))
          (l.original k) s).exit = .next
        · rw [if_pos hfall, if_pos (hexit.mpr hfall), List.forall₂_cons,
            ih hlater' hsizes' (by omega) hrest' hfirst.state]
          exact ⟨fun hall => ⟨hall.1, fun _ => hall.2⟩, fun hall => ⟨hall.1, hall.2 hfall⟩⟩
        · rw [if_neg hfall, if_neg fun h => hfall (hexit.mp h)]
          exact iff_of_true (.cons hfirst .nil) ⟨hfirst, fun h => absurd h hfall⟩
      · exact iff_of_false (fun h => hfirst (head_matches h)) fun h => hfirst h.1

theorem jumpBack_eq (hcs : DecodesFor others cs mem source chunks)
    (hchunks : ChunksOf cs mem source chunks) :
    jumpBack source chunks =
      [.mov 16 ((layout asmjit source base chunks).original
        (layout asmjit source base chunks).sizes.length), .br 16] := by
  rw [jumpBack, bytesConsumed_eq hcs hchunks, Layout.original, layout, List.length_map]

theorem allRelocatable_of_fixed {addr' : Addr} (hcs : DecodesFor others cs mem addr chunks)
    (hchunks : ChunksOf cs mem addr chunks)
    (hfixed : ∀ k < chunks.length, Fixed (insnAt others mem (addr + BitVec.ofNat 64 (4 * k)))) :
    AllRelocatable others asmjit callee mem l addr addr' chunks s s := by
  induction chunks generalizing addr addr' s with
  | nil => trivial
  | cons c chunks ih =>
      obtain ⟨hfour, insn, site⟩ := site_of_chunk hcs.1 hchunks
      obtain ⟨-, -, hcode, hrest⟩ := hchunks
      have hlater := hcs.2
      have hhere : Fixed (insnAt others mem addr) := by
        simpa using hfixed 0 (Nat.succ_pos _)
      refine ⟨hhere.relocatable, fun hfall => ?_⟩
      rw [hcode, site.same_state hhere hfall]
      rw [hfour] at hrest hlater
      apply ih hlater hrest
      intro k hk
      have hnext := hfixed (k + 1) (Nat.succ_lt_succ hk)
      rw [Nat.mul_succ, Nat.add_comm, BitVec.ofNat_add, ← BitVec.add_assoc] at hnext
      exact hnext

/-- Code in which nothing tests, loads literals or calls does the same from everywhere. -/
theorem runRelocated_matches_of_fixed (hcs : DecodesFor others cs mem source chunks)
    (hbuild : buildRelocatedCode cs mem source minBytes (some base) = .ok (base, chunks))
    (hfixed : ∀ k < chunks.length,
      Fixed (insnAt others mem (source + BitVec.ofNat 64 (4 * k)))) :
    List.Forall₂ (layout asmjit source base chunks).Matches
      (runInPlace others callee mem chunks.length source s)
      (runRelocated others asmjit callee (jumpBack source chunks) base chunks s) := by
  have hchunks := buildRelocatedCode_ok hbuild
  have hsource : (layout asmjit source base chunks).original 0 = source := by
    simp [Layout.original, layout]
  have hbase : (layout asmjit source base chunks).relocated 0 = base := by
    simp [Layout.relocated, layout]
  have hiff := @runRelocated_matches_iff_from others asmjit callee cs mem
    (layout asmjit source base chunks) chunks s s 0 (by rwa [hsource]) rfl (by simp [layout])
  rw [hsource, hbase, ← @jumpBack_eq others asmjit cs mem source base chunks hcs hchunks] at hiff
  exact (hiff hchunks (.refl s)).mpr (allRelocatable_of_fixed hcs hchunks hfixed)

/-- **Relocation.** From any of the consumed instructions on, in states that agree, the
relocated code behaves as the originals do in place exactly when each of them that is executed
is `Relocatable` where it is. -/
theorem runRelocated_matches_iff (hcs : DecodesFor others cs mem source chunks)
    (hbuild : buildRelocatedCode cs mem source minBytes (some base) = .ok (base, chunks))
    (hk : k ≤ chunks.length) (hagree : (layout asmjit source base chunks).Agree s t) :
    let l := layout asmjit source base chunks
    List.Forall₂ l.Matches
        (runInPlace others callee mem (chunks.length - k) (l.original k) s)
        (runRelocated others asmjit callee (jumpBack source chunks) (l.relocated k)
          (chunks.drop k) t) ↔
      AllRelocatable others asmjit callee mem l (l.original k) (l.relocated k) (chunks.drop k)
        s t := by
  have hchunks := buildRelocatedCode_ok hbuild
  dsimp only
  rw [@jumpBack_eq others asmjit cs mem source base chunks hcs hchunks, ← List.length_drop]
  obtain ⟨hlater, hrest⟩ := @chunksOf_drop others cs mem source chunks k hcs hchunks
  apply runRelocated_matches_iff_from hlater
  · rw [layout, List.map_drop]
  · rw [layout, List.length_map, List.length_drop]
    omega
  · exact hrest
  · exact hagree

end Whole

/-! A software breakpoint on a branch at `0x1000`, its block at `0x9000`. -/

section Breakpoint

/-- Words that depend on no address do nothing. -/
def noEffects : BitVec 32 → State → State × Flow := fun _ s => (s, .next)

def branchDisasm : CsDisasm := fun bs addr =>
  match decode noEffects (word bs) with
  | .b d => some ⟨4, "b", [.jump, .branchRelative], [.imm (addr + d)]⟩
  | .branch (.zero _ false _) d =>
      some ⟨4, "cbz", [.jump, .branchRelative], [.other, .imm (addr + d)]⟩
  | _ => none

theorem branchDisasm_decodesAt (mem : Memory) (addr : Addr) :
    DecodesAt noEffects branchDisasm mem addr := by
  intro insn h
  unfold csDisasm branchDisasm at h
  rw [word_window] at h
  split at h
  · cases h
  split at h
  · rename_i d hdec
    obtain rfl := Option.some.inj h
    rw [insnAt, hdec]
    exact ⟨rfl, rfl, rfl⟩
  · rename_i d hdec
    obtain rfl := Option.some.inj h
    rw [insnAt, hdec]
    refine ⟨rfl, .inr ?_⟩
    show "cbz" ∉ ["b", "bl", "adr", "adrp"]
    decide
  · cases h

theorem branchDisasm_decodes {mem : Memory} {addr : Addr} {chunks : List Chunk} :
    DecodesFor noEffects branchDisasm mem addr chunks := by
  induction chunks generalizing addr with
  | nil => trivial
  | cons c chunks ih => exact ⟨branchDisasm_decodesAt mem addr, ih⟩

/-- One `MOVZ` or `MOVK` for each halfword that is not zero. -/
def movWide : Asmjit where
  movSize _ imm :=
    4 * max 1 ((List.range 4).filter fun i => imm.extractLsb' (16 * i) 16 ≠ 0).length
  encodesSp _ := false

def codeAt (bytes : List Byte) : Memory := writeBytes (fun _ => 0) 0x1000 bytes

/-- `B #64`. -/
def branchAlways : Memory := codeAt [0x10, 0x00, 0x00, 0x14]

/-- `CBZ X0, #64`. -/
def branchOnZero : Memory := codeAt [0x00, 0x02, 0x00, 0xB4]

/-- All registers are zero. -/
def hookedEntry : State := ⟨fun _ => 0, 0x7FFE0000, 0, fun _ => 0, fun _ => 0⟩

def oneChunk (mem : Memory) : List Chunk := [⟨4, relocateInsn branchDisasm mem 0x1000⟩]

theorem branchAlways_relocated :
    List.Forall₂ (layout movWide 0x1000 0x9000 (oneChunk branchAlways)).Matches
      (runInPlace noEffects (fun _ s => s) branchAlways 1 0x1000 hookedEntry)
      (runRelocated noEffects movWide (fun _ s => s) (jumpBack 0x1000 (oneChunk branchAlways))
        0x9000 (oneChunk branchAlways) hookedEntry) :=
  (@runRelocated_matches_iff noEffects movWide (fun _ s => s) branchDisasm branchAlways 0x1000
    0x9000 (oneChunk branchAlways) hookedEntry hookedEntry 0 4 branchDisasm_decodes
    (buildRelocatedCode_one (by decide)) (Nat.zero_le _) (Layout.Agree.refl _)).mpr
      ⟨trivial, fun h => nomatch h⟩

/-- `CBZ` is taken to where the same distance leads from its copy. -/
theorem branchOnZero_astray :
    DecodesFor noEffects branchDisasm branchOnZero 0x1000 (oneChunk branchOnZero) ∧
      buildRelocatedCode branchDisasm branchOnZero 0x1000 4 (some 0x9000) =
        .ok (0x9000, oneChunk branchOnZero) ∧
      (runInPlace noEffects (fun _ s => s) branchOnZero 1 0x1000 hookedEntry).map
        Behaviour.exit = [.jump 0x1040] ∧
      (runRelocated noEffects movWide (fun _ s => s) (jumpBack 0x1000 (oneChunk branchOnZero))
        0x9000 (oneChunk branchOnZero) hookedEntry).map Behaviour.exit = [.jump 0x9040] ∧
      ¬ List.Forall₂ (layout movWide 0x1000 0x9000 (oneChunk branchOnZero)).Matches
        (runInPlace noEffects (fun _ s => s) branchOnZero 1 0x1000 hookedEntry)
        (runRelocated noEffects movWide (fun _ s => s) (jumpBack 0x1000 (oneChunk branchOnZero))
          0x9000 (oneChunk branchOnZero) hookedEntry) := by
  refine ⟨branchDisasm_decodes, buildRelocatedCode_one (by decide), by decide, by decide, ?_⟩
  intro h
  rw [runInPlace, oneChunk, runRelocated] at h
  have hcorr : (layout movWide 0x1000 0x9000 (oneChunk branchOnZero)).Corresponds 0x1040 0x9040 :=
    (head_matches h).exit
  rcases hcorr with heq | ⟨k, hk, heq, -⟩
  · exact absurd heq (by decide)
  · have hlast : k ≤ 1 := hk
    unfold Layout.original layout at heq
    dsimp only at heq
    bv_omega

end Breakpoint

end Arm64Relocation

end Chromatic
