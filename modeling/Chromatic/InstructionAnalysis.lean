import Chromatic.Arm64Relocator
import Chromatic.Foundation.Words

/-!
# Analysing instructions

`analyzeInstruction` of both builds on the whole of what it reads of a decoded instruction, and
what the operands of the instruction are for, which Capstone's types do not tell.

§1 decoded instructions · §2 `analyzeInstruction` · §3 what operands are for · §4 when the
analysis is right.
-/

namespace Chromatic

open Foundation

namespace Analysis

open CodeRelocator (CsGroup InstructionAnalysis)

/-! ## §1  Decoded instructions -/

/-- The identifiers that are compared with. -/
inductive InsnId where
  | adr
  | adrp
  | other (id : ℕ)
deriving DecidableEq, Repr

/-- The base of a memory operand. -/
inductive MemBase where
  | rip
  | eip
  | other (reg : ℕ)
deriving DecidableEq, Repr

inductive CsOperand where
  | imm (v : Addr)
  | mem (base : MemBase) (disp : Addr)
  | other
deriving DecidableEq, Repr

structure CsDetail where
  groups : List CsGroup
  operands : List CsOperand
deriving DecidableEq, Repr

structure CsInsn where
  id : InsnId
  address : Addr
  size : ℕ
  detail : Option CsDetail
deriving DecidableEq, Repr

/-- `cs_disasm` for one instruction; `none` is a count of 0. -/
abbrev CsDisasm : Type := List Byte → Addr → Option CsInsn

/-! ## §2  analyzeInstruction -/

/-- What the loop over the operands stops at, as an address. -/
def CsOperand.scanned (arch : Arch) (addr : Addr) (size : ℕ) : CsOperand → Option Addr
  | .imm v => some v
  | .mem base disp =>
    if arch = .x64 ∧ base = .rip then some (addr + BitVec.ofNat 64 size + disp) else none
  | .other => none

/-- What is said of a decoded instruction. -/
def CsInsn.analysis (arch : Arch) (addr : Addr) (insn : CsInsn) : InstructionAnalysis :=
  match insn.detail with
  | none => ⟨false, false, false, 0, false, insn.size⟩
  | some detail =>
    let found := detail.operands.findSome? (·.scanned arch addr insn.size)
    { isBranch := .jump ∈ detail.groups
      isCall := .call ∈ detail.groups
      isRelative := .branchRelative ∈ detail.groups
      target := found.getD 0
      isPcRelative := found.isSome
      size := insn.size }

/-- Nothing is read at a null address. -/
def analyzeInstruction (arch : Arch) (cs : CsDisasm) (mem : Memory) (addr : Addr) :
    InstructionAnalysis :=
  if addr = 0 then ⟨false, false, false, 0, false, 0⟩
  else
    match cs (readBytes mem addr 16) addr with
    | none => ⟨false, false, false, 0, false, 0⟩
    | some insn => insn.analysis arch addr

/-- The operands as the x86_64 relocator looks at them. -/
def CsOperand.toX64 : CsOperand → CodeRelocator.CsOperand
  | .imm v => .imm v
  | .mem base disp => if base = .rip then .ripMem disp else .other
  | .other => .other

def CsOperand.toArm64 : CsOperand → Arm64Relocator.CsOperand
  | .imm v => .imm v
  | .mem _ _ => .other
  | .other => .other

def CsInsn.toX64 (insn : CsInsn) : CodeRelocator.CsInsn where
  size := insn.size
  groups := (insn.detail.map (·.groups)).getD []
  operands := (insn.detail.map (·.operands.map (·.toX64))).getD []

def CsInsn.toArm64 (mnemonic : CsInsn → String) (insn : CsInsn) : Arm64Relocator.CsInsn where
  size := insn.size
  mnemonic := mnemonic insn
  groups := (insn.detail.map (·.groups)).getD []
  operands := (insn.detail.map (·.operands.map (·.toArm64))).getD []

section Relocators

variable {cs : CsDisasm} {mem : Memory} {addr : Addr}

theorem pcOperand_toX64 (insn : CsInsn) (addr : Addr) : insn.toX64.pcOperand addr =
    ((insn.detail.map (·.operands)).getD []).findSome? (·.scanned .x64 addr insn.size) := by
  unfold CodeRelocator.CsInsn.pcOperand CsInsn.toX64
  cases insn.detail with
  | none => rfl
  | some detail =>
      simp only [Option.map_some, Option.getD_some, List.findSome?_map]
      congr 1
      funext o
      cases o with
      | imm v => rfl
      | mem base disp =>
          by_cases hbase : base = .rip <;> simp [CsOperand.toX64, CsOperand.scanned, hbase]
      | other => rfl

/-- The relocator's analysis is this one. -/
theorem analyzeInstruction_toX64 :
    CodeRelocator.analyzeInstruction (fun bytes a => (cs bytes a).map CsInsn.toX64) mem addr =
      analyzeInstruction .x64 cs mem addr := by
  unfold CodeRelocator.analyzeInstruction CodeRelocator.csDisasm analyzeInstruction
  by_cases haddr : addr = 0
  · simp [haddr]
  · simp only [if_neg haddr]
    cases hinsn : cs (readBytes mem addr 16) addr with
    | none => rfl
    | some insn =>
        simp only [Option.map_some, pcOperand_toX64, CsInsn.analysis]
        cases hdetail : insn.detail <;> simp [CsInsn.toX64, hdetail]

theorem immediate_toArm64 (mnemonic : CsInsn → String) (insn : CsInsn) (addr : Addr) :
    (insn.toArm64 mnemonic).immediate =
      ((insn.detail.map (·.operands)).getD []).findSome? (·.scanned .arm64 addr insn.size) := by
  unfold Arm64Relocator.CsInsn.immediate CsInsn.toArm64
  cases insn.detail with
  | none => rfl
  | some detail =>
      simp only [Option.map_some, Option.getD_some, List.findSome?_map]
      congr 1
      funext o
      cases o <;> simp [CsOperand.toArm64, CsOperand.scanned]

theorem analyzeInstruction_toArm64 (mnemonic : CsInsn → String) :
    Arm64Relocator.analyzeInstruction (fun bytes a => (cs bytes a).map (·.toArm64 mnemonic)) mem
      addr = analyzeInstruction .arm64 cs mem addr := by
  unfold Arm64Relocator.analyzeInstruction Arm64Relocator.csDisasm analyzeInstruction
  by_cases haddr : addr = 0
  · simp [haddr]
  · simp only [if_neg haddr]
    cases hinsn : cs (readBytes mem addr 16) addr with
    | none => rfl
    | some insn =>
        simp only [Option.map_some, immediate_toArm64 mnemonic insn addr, CsInsn.analysis]
        cases hdetail : insn.detail <;> simp [CsInsn.toArm64, hdetail]

end Relocators

/-! ## §3  What operands are for -/

/-- An operand as the instruction uses it. -/
inductive Operand where
  /-- Where a relative branch goes. -/
  | destination (v : Addr)
  /-- An address made from the program counter: `ADR`, `ADRP`, literal loads. -/
  | label (v : Addr)
  /-- A number. -/
  | plain (v : Addr)
  | mem (base : MemBase) (disp : Addr)
  | other
deriving DecidableEq, Repr

structure Insn where
  id : InsnId
  size : ℕ
  groups : List CsGroup
  operands : List Operand
deriving DecidableEq, Repr

/-- Capstone shows destinations, labels and numbers alike. -/
def Operand.decoded : Operand → CsOperand
  | .destination v => .imm v
  | .label v => .imm v
  | .plain v => .imm v
  | .mem base disp => .mem base disp
  | .other => .other

def Insn.decoded (insn : Insn) (addr : Addr) : CsInsn where
  id := insn.id
  address := addr
  size := insn.size
  detail := some ⟨insn.groups, insn.operands.map (·.decoded)⟩

/-- The destination or address of an operand that is relative to the program counter. With
base `eip` the address has 32 bits. -/
def Operand.relative (arch : Arch) (addr : Addr) (size : ℕ) : Operand → Option Addr
  | .destination v => some v
  | .label v => some v
  | .plain _ => none
  | .mem base disp =>
    let a := addr + BitVec.ofNat 64 size + disp
    match arch, base with
    | .x64, .rip => some a
    | .x64, .eip => some ((a.setWidth 32).setWidth 64)
    | _, _ => none
  | .other => none

/-- The analysis says whether an operand is relative, and which address it is. -/
structure RightFor (arch : Arch) (addr : Addr) (insn : Insn) (a : InstructionAnalysis) :
    Prop where
  isPcRelative : a.isPcRelative = true ↔
    ∃ o ∈ insn.operands, ∃ v, o.relative arch addr insn.size = some v
  target : (∃ o ∈ insn.operands, ∃ v, o.relative arch addr insn.size = some v) →
    ∃ o ∈ insn.operands, o.relative arch addr insn.size = some a.target

/-! ## §4  When the analysis is right -/

/-- Capstone shows the operand as an immediate, or its base is `rip`. -/
def Operand.Shown (arch : Arch) : Operand → Prop
  | .destination _ => True
  | .label _ => True
  | .plain _ => True
  | .mem base _ => arch = .x64 ∧ base = .rip
  | .other => False

instance (arch : Arch) : DecidablePred (Operand.Shown arch)
  | .destination _ => isTrue trivial
  | .label _ => isTrue trivial
  | .plain _ => isTrue trivial
  | .mem base _ => inferInstanceAs (Decidable (arch = .x64 ∧ base = .rip))
  | .other => isFalse id

/-- The first operand that is shown is relative, or a number that happens to be the address of a
relative operand; if none is shown, none is relative. -/
def FirstIsRelative (arch : Arch) (addr : Addr) (insn : Insn) : Prop :=
  match insn.operands.find? fun o => o.Shown arch with
  | none => ∀ o ∈ insn.operands, o.relative arch addr insn.size = none
  | some (.plain v) => ∃ o ∈ insn.operands, o.relative arch addr insn.size = some v
  | some _ => True

section Right

variable {arch : Arch} {addr : Addr} {size : ℕ} {o : Operand} {operands : List Operand}

theorem scanned_eq_none : o.decoded.scanned arch addr size = none ↔ ¬ o.Shown arch := by
  cases o with
  | mem base disp => simp [Operand.decoded, CsOperand.scanned, Operand.Shown]
  | _ => simp [Operand.decoded, CsOperand.scanned, Operand.Shown]

/-- The loop stops at the first operand that is shown. -/
theorem findSome_decoded :
    (operands.map (·.decoded)).findSome? (·.scanned arch addr size) =
      (operands.find? fun o => o.Shown arch).bind (·.decoded.scanned arch addr size) := by
  induction operands with
  | nil => rfl
  | cons o operands ih =>
      rw [List.map_cons, List.findSome?_cons, List.find?_cons]
      by_cases hshown : o.Shown arch
      · have hsome : o.decoded.scanned arch addr size ≠ none :=
          mt scanned_eq_none.mp (not_not_intro hshown)
        obtain ⟨v, hv⟩ := Option.ne_none_iff_exists'.mp hsome
        simp [hv, hshown]
      · simp [scanned_eq_none.mpr hshown, hshown, ih]

/-- An operand that is shown and no number is relative, to the address that is shown. -/
theorem relative_of_shown (h : o.Shown arch) (hplain : ∀ v, o ≠ .plain v) :
    o.relative arch addr size = o.decoded.scanned arch addr size := by
  cases o with
  | destination v => rfl
  | label v => rfl
  | plain v => exact absurd rfl (hplain v)
  | mem base disp =>
      obtain ⟨rfl, rfl⟩ := h
      rfl
  | other => exact h.elim

/-- What is said of an instruction whose first shown operand has the address `v`. -/
theorem rightFor_some {insn : Insn} {a : InstructionAnalysis} {v : Addr}
    (hrel : a.isPcRelative = true) (htarget : a.target = v) :
    RightFor arch addr insn a ↔
      ∃ o ∈ insn.operands, o.relative arch addr insn.size = some v := by
  subst htarget
  constructor
  · intro h
    exact h.target (h.isPcRelative.mp hrel)
  · rintro ⟨o, ho, heq⟩
    exact ⟨iff_of_true hrel ⟨o, ho, _, heq⟩, fun _ => ⟨o, ho, heq⟩⟩

theorem rightFor_none {insn : Insn} {a : InstructionAnalysis} (hrel : a.isPcRelative = false) :
    RightFor arch addr insn a ↔
      ∀ o ∈ insn.operands, o.relative arch addr insn.size = none := by
  constructor
  · intro h o ho
    apply Option.eq_none_iff_forall_ne_some.mpr
    intro v hv
    have := h.isPcRelative.mpr ⟨o, ho, v, hv⟩
    rw [hrel] at this
    cases this
  · intro h
    have hnot : ¬ ∃ o ∈ insn.operands, ∃ v, o.relative arch addr insn.size = some v := by
      rintro ⟨o, ho, v, hv⟩
      rw [h o ho] at hv
      cases hv
    exact ⟨iff_of_false (by simp [hrel]) hnot, fun hex => absurd hex hnot⟩

/-- What the analysis of an instruction finds. -/
theorem analysis_decoded (insn : Insn) :
    let found := (insn.operands.find? fun o => o.Shown arch).bind
      (·.decoded.scanned arch addr insn.size)
    ((insn.decoded addr).analysis arch addr).isPcRelative = found.isSome ∧
      ((insn.decoded addr).analysis arch addr).target = found.getD 0 := by
  intro found
  have hfound : (insn.operands.map (·.decoded)).findSome? (·.scanned arch addr insn.size) =
      found := findSome_decoded
  constructor
  · rw [← hfound]
    rfl
  · rw [← hfound]
    rfl

theorem analysis_rightFor_iff (insn : Insn) :
    RightFor arch addr insn ((insn.decoded addr).analysis arch addr) ↔
      FirstIsRelative arch addr insn := by
  obtain ⟨hrel, htarget⟩ := @analysis_decoded arch addr insn
  unfold FirstIsRelative
  cases hfirst : insn.operands.find? fun o => o.Shown arch with
  | none =>
      rw [hfirst] at hrel
      exact rightFor_none hrel
  | some o =>
      have hmem := List.mem_of_find?_eq_some hfirst
      have hshown : o.Shown arch := by simpa using List.find?_some hfirst
      have hsome : o.decoded.scanned arch addr insn.size ≠ none :=
        mt scanned_eq_none.mp (not_not_intro hshown)
      obtain ⟨v, hv⟩ := Option.ne_none_iff_exists'.mp hsome
      rw [hfirst, Option.bind_some, hv] at hrel htarget
      rw [rightFor_some hrel htarget]
      have hnumber : (∀ n, o ≠ .plain n) →
          ∃ r ∈ insn.operands, r.relative arch addr insn.size = some v := fun hplain =>
        ⟨o, hmem, (relative_of_shown hshown hplain).trans hv⟩
      cases o with
      | plain n =>
          obtain rfl := Option.some.inj hv
          rfl
      | destination n => exact iff_of_true (hnumber (by simp)) trivial
      | label n => exact iff_of_true (hnumber (by simp)) trivial
      | mem base disp => exact iff_of_true (hnumber (by simp)) trivial
      | other => exact hshown.elim

/-- **The analysis is right of an instruction when its first operand that is shown is
relative.** -/
theorem analyzeInstruction_rightFor_iff (cs : CsDisasm) (mem : Memory) (insn : Insn)
    (haddr : addr ≠ 0) (hcs : cs (readBytes mem addr 16) addr = some (insn.decoded addr)) :
    RightFor arch addr insn (analyzeInstruction arch cs mem addr) ↔
      FirstIsRelative arch addr insn := by
  rw [analyzeInstruction, if_neg haddr, hcs]
  exact analysis_rightFor_iff insn

end Right

section Concrete

def nop : Insn := ⟨.other 0, 1, [], []⟩

/-- `call v`. -/
def callNear (v : Addr) : Insn := ⟨.other 1, 5, [.call, .branchRelative], [.destination v]⟩

/-- `mov eax, v`. -/
def movEax (v : Addr) : Insn := ⟨.other 2, 5, [], [.other, .plain v]⟩

/-- `tbz x0, #bit, v`. -/
def tbz (bit v : Addr) : Insn :=
  ⟨.other 3, 4, [.jump, .branchRelative], [.other, .plain bit, .destination v]⟩

/-- `adr x0, v`. -/
def adr (v : Addr) : Insn := ⟨.adr, 4, [], [.other, .label v]⟩

/-- A few instructions of x86_64. -/
def x64Decode : CsDisasm
  | [], _ => none
  | b :: bytes, addr =>
      let imm32 := BitVec.ofNat 32 (ofLe (bytes.take 4))
      if b = 0x90 then some (nop.decoded addr)
      else if bytes.length < 4 then none
      else if b = 0xE8 then some ((callNear (addr + 5 + imm32.signExtend 64)).decoded addr)
      else if b = 0xB8 then some ((movEax (imm32.setWidth 64)).decoded addr)
      else none

/-- A few instructions of ARM64. -/
def arm64Decode : CsDisasm := fun bytes addr =>
  let word := BitVec.ofNat 32 (ofLe (bytes.take 4))
  if bytes.length < 4 then none
  else if word.extractLsb' 24 7 = 0b0110110 then
    let bit := word.extractLsb' 31 1 ++ word.extractLsb' 19 5
    let imm14 := (word.extractLsb' 5 14).signExtend 64
    some ((tbz (bit.setWidth 64) (addr + imm14 <<< 2)).decoded addr)
  else if word.extractLsb' 31 1 = 0 ∧ word.extractLsb' 24 5 = 0b10000 then
    let imm21 := (word.extractLsb' 5 19 ++ word.extractLsb' 29 2).signExtend 64
    some ((adr (addr + imm21)).decoded addr)
  else none

/-- The bytes stand at `0x1000`. -/
def codeOf (bytes : List Byte) : Memory := writeBytes (fun _ => 0x90) 0x1000 bytes

theorem callNear_rightFor : RightFor .x64 0x1000 (callNear 0x2000)
    (analyzeInstruction .x64 x64Decode (codeOf [0xE8, 0xFB, 0x0F, 0x00, 0x00]) 0x1000) :=
  (analyzeInstruction_rightFor_iff _ _ (callNear 0x2000) (by decide) (by decide)).mpr trivial

/-- A number makes an instruction relative, and of a test and branch the number is taken. -/
theorem number_taken :
    ¬ RightFor .x64 0x1000 (movEax 5)
      (analyzeInstruction .x64 x64Decode (codeOf [0xB8, 0x05, 0x00, 0x00, 0x00]) 0x1000) ∧
    ¬ RightFor .arm64 0x1000 (tbz 3 0x2000)
      (analyzeInstruction .arm64 arm64Decode (codeOf [0x00, 0x80, 0x18, 0x36]) 0x1000) := by
  constructor
  · intro h
    obtain ⟨o, ho, v, hv⟩ := h.isPcRelative.mp (by decide)
    simp only [movEax, List.mem_cons, List.not_mem_nil, or_false] at ho
    rcases ho with rfl | rfl <;> cases hv
  · have htarget : (analyzeInstruction .arm64 arm64Decode (codeOf [0x00, 0x80, 0x18, 0x36])
        0x1000).target = 3 := by decide
    intro h
    obtain ⟨o, ho, hv⟩ := h.target ⟨.destination 0x2000, by decide, 0x2000, rfl⟩
    rw [htarget] at hv
    simp only [tbz, List.mem_cons, List.not_mem_nil, or_false] at ho
    rcases ho with rfl | rfl | rfl
    · cases hv
    · cases hv
    · exact absurd (Option.some.inj hv) (by decide)

end Concrete

end Analysis

end Chromatic
