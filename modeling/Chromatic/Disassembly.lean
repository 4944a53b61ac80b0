import Chromatic.ScanPatterns

/-!
# Disassembling a number of instructions

`disassemble` decodes from one window for all the instructions, `filterInstructions` from a
window for each of them and asks the script about it. Capstone is a parameter.

§1 Capstone · §2 the two functions · §3 what a window holds · §4 they agree.
-/

namespace Chromatic

open Foundation

namespace Disassembly

open ScanPatterns (CsInsn InstructionInfo insnToInfo)

/-! ## §1  Capstone -/

def insnSize (insn : CsInsn) : ℕ := insn.bytes.length

/-- `cs_disasm` on the bytes of a window, with the address of the first and the most
instructions to decode. More than one instruction are decoded one by one until one cannot be;
what is decoded depends on the bytes of the instruction only, which are at most 15. -/
structure Capstone where
  disasm : List Byte → Addr → ℕ → List CsInsn
  single : ∀ bytes addr, (disasm bytes addr 1).length ≤ 1
  iterates : ∀ bytes addr n, n ≠ 0 → disasm bytes addr (n + 1) =
    match disasm bytes addr 1 with
    | [] => []
    | insn :: _ =>
      insn :: disasm (bytes.drop (insnSize insn)) (addr + BitVec.ofNat 64 (insnSize insn)) n
  bounds : ∀ bytes addr insn, insn ∈ disasm bytes addr 1 →
    insnSize insn ≤ 15 ∧ insnSize insn ≤ bytes.length
  unaffected : ∀ bytes addr insn rest, insn ∈ disasm bytes addr 1 →
    insn ∈ disasm (bytes.take (insnSize insn) ++ rest) addr 1

/-! ## §2  The two functions -/

def disassemble (cs : Capstone) (mem : Memory) (addr : Addr) (count : ℤ) :
    List InstructionInfo :=
  if addr = 0 ∨ count ≤ 0 then []
  else
    let maxBytes := count.toNat * 16
    (cs.disasm (readBytes mem addr maxBytes) addr count.toNat).map insnToInfo

/-- The results so far, and the calls of the filter. -/
structure Filtered where
  results : List InstructionInfo
  calls : List InstructionInfo
deriving DecidableEq, Repr

/-- The loop with `left` instructions to go. -/
def filterFrom (cs : Capstone) (mem : Memory) (addr : Addr) (filter : InstructionInfo → Bool) :
    (left offset : ℕ) → Filtered → Filtered
  | 0, _, acc => acc
  | left + 1, offset, acc =>
    let at' := addr + BitVec.ofNat 64 offset
    match cs.disasm (readBytes mem at' 16) at' 1 with
    | [] => acc
    | insn :: _ =>
      let info := insnToInfo insn
      filterFrom cs mem addr filter left (offset + insnSize insn)
        { results := if filter info then acc.results ++ [info] else acc.results
          calls := acc.calls ++ [info] }

def filterInstructions (cs : Capstone) (mem : Memory) (addr : Addr) (count : ℤ)
    (filter : InstructionInfo → Bool) : Filtered :=
  if addr = 0 ∨ count ≤ 0 then ⟨[], []⟩
  else filterFrom cs mem addr filter count.toNat 0 ⟨[], []⟩

/-! ## §3  What a window holds -/

section Windows

variable {cs : Capstone} {mem : Memory} {addr : Addr} {n : ℕ}

theorem Capstone.disasm_one_of_mem {bytes : List Byte} {insn : CsInsn}
    (h : insn ∈ cs.disasm bytes addr 1) : cs.disasm bytes addr 1 = [insn] := by
  obtain ⟨insn', heq⟩ := List.length_eq_one_iff.mp
    (Nat.le_antisymm (cs.single bytes addr) (List.length_pos_of_mem h))
  rw [heq, List.mem_singleton] at h
  rw [heq, h]

/-- Windows with the same first instruction decode the same. -/
theorem Capstone.mem_disasm_window {insn : CsInsn} {k : ℕ} (hn : 15 ≤ n) (hk : 15 ≤ k)
    (h : insn ∈ cs.disasm (readBytes mem addr n) addr 1) :
    insn ∈ cs.disasm (readBytes mem addr k) addr 1 := by
  have hsize := (cs.bounds _ _ _ h).1
  have hsame : readBytes mem addr k = (readBytes mem addr n).take (insnSize insn) ++
      readBytes mem (addr + BitVec.ofNat 64 (insnSize insn)) (k - insnSize insn) := by
    rw [take_readBytes mem addr (by omega), ← readBytes_add, Nat.add_sub_cancel' (by omega)]
  rw [hsame]
  exact cs.unaffected _ _ _ _ h

/-- A window that has room for the longest instruction is as good as one of 16 bytes. -/
theorem Capstone.disasm_window (hn : 15 ≤ n) :
    cs.disasm (readBytes mem addr n) addr 1 = cs.disasm (readBytes mem addr 16) addr 1 := by
  cases hlong : cs.disasm (readBytes mem addr n) addr 1 with
  | nil =>
      apply Eq.symm
      apply List.eq_nil_iff_forall_not_mem.mpr
      intro insn hmem
      have := cs.mem_disasm_window (by omega) hn hmem
      rw [hlong] at this
      cases this
  | cons insn rest =>
      have hmem : insn ∈ cs.disasm (readBytes mem addr n) addr 1 := hlong ▸ List.mem_cons_self
      rw [cs.disasm_one_of_mem (cs.mem_disasm_window hn (by omega) hmem), ← hlong,
        cs.disasm_one_of_mem hmem]

/-- The decoder goes on behind the first instruction. -/
theorem Capstone.disasm_cons {bytes : List Byte} {insn : CsInsn} {rest : List CsInsn}
    (h : cs.disasm bytes addr 1 = insn :: rest) (hn : n ≠ 0) :
    cs.disasm bytes addr (n + 1) = insn ::
      cs.disasm (bytes.drop (insnSize insn)) (addr + BitVec.ofNat 64 (insnSize insn)) n := by
  rw [cs.iterates bytes addr n hn, h]

end Windows

/-! ## §4  They agree -/

section Agree

variable {cs : Capstone} {mem : Memory} {addr : Addr} {filter : InstructionInfo → Bool}
  {left offset : ℕ} {acc : Filtered}

/-- What the loop has after the instructions `infos`. -/
def Filtered.add (acc : Filtered) (filter : InstructionInfo → Bool)
    (infos : List InstructionInfo) : Filtered :=
  ⟨acc.results ++ infos.filter filter, acc.calls ++ infos⟩

@[simp] theorem Filtered.add_nil : acc.add filter [] = acc := by
  simp [Filtered.add]

theorem Filtered.add_cons (info : InstructionInfo) (infos : List InstructionInfo) :
    acc.add filter (info :: infos) = (acc.add filter [info]).add filter infos := by
  simp [Filtered.add, List.filter_cons]
  cases filter info <;> simp

/-- One turn of the loop. -/
theorem filterFrom_succ :
    filterFrom cs mem addr filter (left + 1) offset acc =
      match cs.disasm (readBytes mem (addr + BitVec.ofNat 64 offset) 16)
        (addr + BitVec.ofNat 64 offset) 1 with
      | [] => acc
      | insn :: _ => filterFrom cs mem addr filter left (offset + insnSize insn)
          (acc.add filter [insnToInfo insn]) := by
  rw [filterFrom]
  split
  · rfl
  · rename_i insn rest heq
    simp only [Filtered.add, List.filter_singleton]
    cases filter (insnToInfo insn) <;> simp

/-- The loop adds what the window holds from its offset on. An instruction leaves the window 16
bytes for each of those to go, as it takes at most 15. -/
theorem filterFrom_eq {len : ℕ} (hlen : 16 * (left + 1) ≤ len) :
    filterFrom cs mem addr filter (left + 1) offset acc = acc.add filter
      ((cs.disasm (readBytes mem (addr + BitVec.ofNat 64 offset) len)
        (addr + BitVec.ofNat 64 offset) (left + 1)).map insnToInfo) := by
  have hroom : 15 ≤ len := by omega
  induction left generalizing len offset acc with
  | zero =>
      rw [filterFrom_succ, ← cs.disasm_window hroom]
      cases hone : cs.disasm (readBytes mem (addr + BitVec.ofNat 64 offset) len)
          (addr + BitVec.ofNat 64 offset) 1 with
      | nil => simp
      | cons insn rest =>
          rw [cs.disasm_one_of_mem (hone ▸ List.mem_cons_self)] at hone
          obtain ⟨-, rfl⟩ := List.cons.inj hone
          rfl
  | succ left ih =>
      rw [filterFrom_succ, ← cs.disasm_window hroom]
      cases hone : cs.disasm (readBytes mem (addr + BitVec.ofNat 64 offset) len)
          (addr + BitVec.ofNat 64 offset) 1 with
      | nil =>
          rw [cs.iterates _ _ _ (Nat.succ_ne_zero left), hone]
          simp
      | cons insn rest =>
          have hsize := (cs.bounds _ _ insn (hone ▸ List.mem_cons_self)).1
          have hrest : 16 * (left + 1) ≤ len - insnSize insn := by omega
          have hroom' : 15 ≤ len - insnSize insn := by omega
          have hfits : insnSize insn ≤ len := by omega
          have hnext : addr + BitVec.ofNat 64 offset + BitVec.ofNat 64 (insnSize insn) =
              addr + BitVec.ofNat 64 (offset + insnSize insn) := by
            rw [BitVec.ofNat_add, BitVec.add_assoc]
          rw [cs.disasm_cons hone (Nat.succ_ne_zero left), drop_readBytes _ _ hfits, hnext,
            List.map_cons, Filtered.add_cons]
          exact ih hrest hroom'

/-- Incremental and batch disassembly agree. -/
theorem filterInstructions_eq (cs : Capstone) (mem : Memory) (addr : Addr) (count : ℤ)
    (filter : InstructionInfo → Bool) :
    filterInstructions cs mem addr count filter =
      ⟨(disassemble cs mem addr count).filter filter, disassemble cs mem addr count⟩ := by
  unfold filterInstructions disassemble
  split_ifs with h
  · rfl
  · obtain ⟨left, hleft⟩ : ∃ left, count.toNat = left + 1 :=
      Nat.exists_eq_succ_of_ne_zero (by omega)
    rw [hleft, filterFrom_eq (Nat.mul_comm 16 (left + 1)).le, BitVec.add_zero]
    rfl

end Agree

section Concrete

variable {bytes : List Byte} {addr : Addr} {insn : CsInsn} {n : ℕ}

/-- How long the instruction at the front is: a `nop`, a short jump or a call. -/
def encodedSize : List Byte → ℕ
  | [] => 0
  | b :: bytes =>
      if b = 0x90 then 1
      else if b = 0xEB ∧ 1 ≤ bytes.length then 2
      else if b = 0xE8 ∧ 4 ≤ bytes.length then 5
      else 0

theorem encodedSize_le (bytes : List Byte) :
    encodedSize bytes ≤ 5 ∧ encodedSize bytes ≤ bytes.length := by
  cases bytes with
  | nil => exact ⟨Nat.zero_le _, le_rfl⟩
  | cons b bytes =>
      simp only [encodedSize, List.length_cons]
      split_ifs <;> omega

/-- The bytes of the instruction tell its length. -/
theorem encodedSize_take (rest : List Byte) (hpos : encodedSize bytes ≠ 0) :
    encodedSize (bytes.take (encodedSize bytes) ++ rest) = encodedSize bytes := by
  cases bytes with
  | nil => exact absurd rfl hpos
  | cons b bytes =>
      by_cases hnop : b = 0x90
      · simp [encodedSize, hnop]
      · by_cases hjmp : b = 0xEB ∧ 1 ≤ bytes.length
        · have hsize : encodedSize (b :: bytes) = 2 := by
            rw [encodedSize, if_neg hnop, if_pos hjmp]
          rw [hsize, List.take_succ_cons, List.cons_append, encodedSize, if_neg hnop, if_pos]
          exact ⟨hjmp.1, by simp; omega⟩
        · by_cases hcall : b = 0xE8 ∧ 4 ≤ bytes.length
          · have hsize : encodedSize (b :: bytes) = 5 := by
              rw [encodedSize, if_neg hnop, if_neg hjmp, if_pos hcall]
            rw [hsize, List.take_succ_cons, List.cons_append, encodedSize, if_neg hnop, if_neg,
              if_pos]
            · exact ⟨hcall.1, by simp; omega⟩
            · rintro ⟨h, -⟩
              cases hcall.1.symm.trans h
          · exact absurd (by rw [encodedSize, if_neg hnop, if_neg hjmp, if_neg hcall]) hpos

def mnemonicOf (bytes : List Byte) : String :=
  if encodedSize bytes = 1 then "nop" else if encodedSize bytes = 2 then "jmp" else "call"

def encodedInsn (bytes : List Byte) (addr : Addr) (hpos : encodedSize bytes ≠ 0) : CsInsn where
  address := addr
  bytes := bytes.take (encodedSize bytes)
  mnemonic := mnemonicOf bytes
  opStr := ""
  detail := none
  nonempty := List.ne_nil_of_length_pos (by
    have := (encodedSize_le bytes).2
    rw [List.length_take]
    omega)
  fits := by
    have := (encodedSize_le bytes).1
    rw [List.length_take]
    omega

theorem insnSize_encodedInsn (hpos : encodedSize bytes ≠ 0) :
    insnSize (encodedInsn bytes addr hpos) = encodedSize bytes := by
  have := (encodedSize_le bytes).2
  rw [insnSize, encodedInsn, List.length_take]
  omega

def encodedDisasm (bytes : List Byte) (addr : Addr) : ℕ → List CsInsn
  | 0 => []
  | n + 1 =>
      if hpos : encodedSize bytes ≠ 0 then
        encodedInsn bytes addr hpos :: encodedDisasm (bytes.drop (encodedSize bytes))
          (addr + BitVec.ofNat 64 (encodedSize bytes)) n
      else []

theorem mem_encodedDisasm_one : insn ∈ encodedDisasm bytes addr 1 ↔
    ∃ hpos, insn = encodedInsn bytes addr hpos := by
  unfold encodedDisasm
  split_ifs with hpos
  · simp [encodedDisasm, hpos]
  · simp [hpos]

def sampleCapstone : Capstone where
  disasm := encodedDisasm
  single bytes addr := by
    unfold encodedDisasm
    split_ifs <;> simp [encodedDisasm]
  iterates bytes addr n _ := by
    rw [encodedDisasm, encodedDisasm]
    split_ifs with hpos
    · simp only [insnSize_encodedInsn]
    · rfl
  bounds bytes addr insn h := by
    obtain ⟨hpos, rfl⟩ := mem_encodedDisasm_one.mp h
    have := encodedSize_le bytes
    rw [insnSize_encodedInsn]
    omega
  unaffected bytes addr insn rest h := by
    obtain ⟨hpos, rfl⟩ := mem_encodedDisasm_one.mp h
    rw [insnSize_encodedInsn]
    have hsame := encodedSize_take rest hpos
    have hlen : (bytes.take (encodedSize bytes)).length = encodedSize bytes := by
      rw [List.length_take]
      exact Nat.min_eq_left (encodedSize_le bytes).2
    refine mem_encodedDisasm_one.mpr ⟨by rwa [hsame], ?_⟩
    simp only [encodedInsn, mnemonicOf, hsame, CsInsn.mk.injEq, true_and, and_true]
    rw [List.take_append_of_le_length hlen.ge, List.take_take, Nat.min_self]

/-- `nop`, `call`, `jmp`, and all but the jump are kept. -/
def sample : Memory := writeBytes (fun _ => 0x90) 0x1001 [0xE8, 0x00, 0x00, 0x00, 0x00, 0xEB, 0xFE]

theorem filterInstructions_sample :
    filterInstructions sampleCapstone sample 0x1000 3 (fun insn => insn.mnemonic ≠ "jmp") =
      ⟨(disassemble sampleCapstone sample 0x1000 3).filter fun insn => insn.mnemonic ≠ "jmp",
        disassemble sampleCapstone sample 0x1000 3⟩ :=
  filterInstructions_eq sampleCapstone sample 0x1000 3 _

example : (filterInstructions sampleCapstone sample 0x1000 3 fun insn =>
    insn.mnemonic ≠ "jmp").results.map (·.address) = [0x1000, 0x1001] := by decide

end Concrete

end Disassembly

end Chromatic
