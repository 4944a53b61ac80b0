import Chromatic.Foundation.Layouts
import Chromatic.InstructionAnalysis

/-!
# Cross-references

`findXrefs` sweeps over a range of bytes and collects the instructions that refer to an address,
by a walk over the operands of its own. It is compared with `analyzeInstruction`.

§1 the decoder · §2 `findXrefs` · §3 the two walks · §4 the instructions of a range · §5 what is
found.
-/

namespace Chromatic

open Foundation

namespace Analysis

open CodeRelocator (CsGroup InstructionAnalysis)

/-! ## §1  The decoder -/

/-- What is found in a window lies in it, and a longer window does not change it. -/
structure Decoder where
  decode : CsDisasm
  within : ∀ bytes addr insn, decode bytes addr = some insn →
    1 ≤ insn.size ∧ insn.size ≤ bytes.length
  unchanged : ∀ bytes rest addr insn, insn.size ≤ bytes.length →
    (decode (bytes ++ rest) addr = some insn ↔ decode bytes addr = some insn)
  located : ∀ bytes addr insn, decode bytes addr = some insn → insn.address = addr

/-! ## §2  findXrefs -/

structure XrefResult where
  address : Addr
  type : String
  size : ℕ
deriving DecidableEq, Repr

def CsOperand.immediate : CsOperand → Option Addr
  | .imm v => some v
  | _ => none

def groupType (groups : List CsGroup) : String :=
  if .call ∈ groups then "call" else if .jump ∈ groups then "branch" else "data"

/-- The target, 0 if there is none, and the type. -/
def extractTarget (arch : Arch) (insn : CsInsn) : Addr × String :=
  match insn.detail with
  | none => (0, "")
  | some detail =>
    match arch with
    | .arm64 =>
      let imm := detail.operands.findSome? (·.immediate)
      match if insn.id = .adrp then imm else none with
      | some v => (v, "data")
      | none =>
        match if insn.id = .adr then imm else none with
        | some v => (v, "data")
        | none =>
          match imm with
          | some v => (v, groupType detail.groups)
          | none => (0, "")
    | .x64 =>
      match detail.operands.findSome? (·.scanned .x64 insn.address insn.size) with
      | some v => (v, groupType detail.groups)
      | none => (0, "")

/-- How far the sweep goes on where nothing is decoded. -/
def skipped : Arch → ℕ
  | .x64 => 1
  | .arm64 => 4

theorem skipped_pos (arch : Arch) : 0 < skipped arch := by
  cases arch <;> decide

/-- The loop from `offset` on. -/
def findXrefsFrom (arch : Arch) (cs : Decoder) (mem : Memory) (start target : Addr)
    (remaining offset : ℕ) : List XrefResult :=
  if offset < remaining then
    let maxBytes := if remaining - offset > 16 then 16 else remaining - offset
    let addr := start + BitVec.ofNat 64 offset
    match h : cs.decode (readBytes mem addr maxBytes) addr with
    | none =>
      have := skipped_pos arch
      findXrefsFrom arch cs mem start target remaining (offset + skipped arch)
    | some insn =>
      have := (cs.within _ _ _ h).1
      let (insnTarget, xrefType) := extractTarget arch insn
      let rest := findXrefsFrom arch cs mem start target remaining (offset + insn.size)
      if insnTarget = target then ⟨insn.address, xrefType, insn.size⟩ :: rest else rest
  else []
termination_by remaining - offset

def findXrefs (arch : Arch) (cs : Decoder) (mem : Memory) (rangeStart : Addr) (rangeSize : ℤ)
    (targetAddr : Addr) : List XrefResult :=
  if rangeStart = 0 ∨ targetAddr = 0 ∨ rangeSize ≤ 0 then []
  else findXrefsFrom arch cs mem rangeStart targetAddr rangeSize.toNat 0

/-! ## §3  The two walks -/

/-- The type that the analysis speaks of. -/
def flagType (a : InstructionAnalysis) : String :=
  if a.isCall then "call" else if a.isBranch then "branch" else "data"

/-- The type of a reference from an analysed instruction: to what `ADR` and `ADRP` make an
address of, it is data whatever their groups. -/
def xrefType (arch : Arch) (insn : CsInsn) (a : InstructionAnalysis) : String :=
  if arch = .arm64 ∧ (insn.id = .adr ∨ insn.id = .adrp) then "data" else flagType a

section Walks

variable {arch : Arch} {insn : CsInsn} {addr : Addr} {size : ℕ}

theorem scanned_arm64 (o : CsOperand) : o.scanned .arm64 addr size = o.immediate := by
  cases o with
  | mem base disp => simp [CsOperand.scanned, CsOperand.immediate]
  | _ => rfl

/-- The passes for `ADR` and `ADRP` stop where the last one does, but with another type. -/
theorem extractTarget_eq {detail : CsDetail} (hdetail : insn.detail = some detail) :
    extractTarget arch insn =
      match detail.operands.findSome? (·.scanned arch insn.address insn.size) with
      | none => (0, "")
      | some v => (v, if arch = .arm64 ∧ (insn.id = .adr ∨ insn.id = .adrp) then "data"
          else groupType detail.groups) := by
  simp only [extractTarget, hdetail]
  cases arch with
  | x64 =>
      cases detail.operands.findSome? (·.scanned .x64 insn.address insn.size) with
      | none => rfl
      | some v => simp
  | arm64 =>
      simp only [scanned_arm64]
      cases detail.operands.findSome? (·.immediate) with
      | none => simp
      | some v =>
          by_cases hadrp : insn.id = .adrp
          · simp [hadrp]
          · by_cases hadr : insn.id = .adr <;> simp [hadrp, hadr]

/-- Both walks find the same target. -/
theorem extractTarget_fst :
    (extractTarget arch insn).1 = (insn.analysis arch insn.address).target := by
  cases hdetail : insn.detail with
  | none => simp [extractTarget, CsInsn.analysis, hdetail]
  | some detail =>
      rw [extractTarget_eq hdetail]
      simp only [CsInsn.analysis, hdetail]
      cases detail.operands.findSome? (·.scanned arch insn.address insn.size) <;> rfl

theorem groupType_eq (detail : CsDetail) (hdetail : insn.detail = some detail) :
    groupType detail.groups = flagType (insn.analysis arch addr) := by
  simp [groupType, flagType, CsInsn.analysis, hdetail]

theorem extractTarget_snd (hne : (extractTarget arch insn).1 ≠ 0) :
    (extractTarget arch insn).2 = xrefType arch insn (insn.analysis arch insn.address) := by
  cases hdetail : insn.detail with
  | none => simp [extractTarget, hdetail] at hne
  | some detail =>
      rw [extractTarget_eq hdetail] at hne ⊢
      rw [xrefType, ← groupType_eq detail hdetail]
      cases hfound : detail.operands.findSome? (·.scanned arch insn.address insn.size) with
      | none => simp [hfound] at hne
      | some v => rfl

end Walks

/-! ## §4  The instructions of a range -/

/-- The instructions that lie in the range of `n` bytes. -/
def rangeInsns (cs : Decoder) (mem : Memory) (start : Addr) (n : ℕ) : Layout CsInsn where
  item off :=
    let addr := start + BitVec.ofNat 64 off
    (cs.decode (readBytes mem addr 16) addr).filter fun insn => off + insn.size ≤ n
  size := CsInsn.size
  size_pos off insn h := by
    obtain ⟨h, -⟩ := Option.filter_eq_some_iff.mp h
    exact (cs.within _ _ _ h).1

section Range

variable {arch : Arch} {cs : Decoder} {mem : Memory} {start target : Addr} {n off : ℕ}

theorem rangeInsns_item {insn : CsInsn} : (rangeInsns cs mem start n).item off = some insn ↔
    cs.decode (readBytes mem (start + BitVec.ofNat 64 off) 16) (start + BitVec.ofNat 64 off) =
      some insn ∧ off + insn.size ≤ n := by
  rw [← decide_eq_true_iff (p := off + insn.size ≤ n)]
  exact Option.filter_eq_some_iff

/-- The loop's window holds the instructions that lie in the range. -/
theorem decode_window (hoff : off < n) :
    cs.decode (readBytes mem (start + BitVec.ofNat 64 off)
        (if n - off > 16 then 16 else n - off)) (start + BitVec.ofNat 64 off) =
      (rangeInsns cs mem start n).item off := by
  apply Option.ext
  intro insn
  rw [rangeInsns_item]
  generalize start + BitVec.ofNat 64 off = addr
  generalize hk : (if n - off > 16 then 16 else n - off) = k
  have hle : k ≤ 16 := by
    split_ifs at hk <;> omega
  have hlen := length_readBytes mem addr k
  have hsplit : readBytes mem addr 16 =
      readBytes mem addr k ++ readBytes mem (addr + BitVec.ofNat 64 k) (16 - k) := by
    rw [← readBytes_add, Nat.add_sub_cancel' hle]
  constructor
  · intro h
    have hsize := (cs.within _ _ _ h).2
    rw [hsplit, cs.unchanged _ _ _ _ hsize]
    rw [hlen] at hsize
    exact ⟨h, by split_ifs at hk <;> omega⟩
  · rintro ⟨h, hin⟩
    have hsize := (cs.within _ _ _ h).2
    rw [length_readBytes] at hsize
    have hfits : insn.size ≤ (readBytes mem addr k).length := by
      rw [hlen]
      split_ifs at hk <;> omega
    rw [hsplit, cs.unchanged _ _ _ _ hfits] at h
    exact h

end Range

/-! ## §5  What is found -/

/-- The instruction is one of a linear sweep over the `n` bytes from `start` on, which skips
where no instruction lies in the range. -/
def Swept (arch : Arch) (cs : Decoder) (mem : Memory) (start : Addr) (n off : ℕ)
    (insn : CsInsn) : Prop :=
  Relation.ReflTransGen ((rangeInsns cs mem start n).Next (skipped arch) n) 0 off ∧ off < n ∧
    (rangeInsns cs mem start n).item off = some insn

section Found

variable {arch : Arch} {cs : Decoder} {mem : Memory} {start target : Addr} {n off : ℕ}

/-- What an instruction adds to the results. -/
def report (arch : Arch) (target : Addr) (insn : CsInsn) : Option XrefResult :=
  if (extractTarget arch insn).1 = target then
    some ⟨insn.address, (extractTarget arch insn).2, insn.size⟩
  else none

/-- The loop sweeps over the range. -/
theorem findXrefsFrom_eq (off : ℕ) : findXrefsFrom arch cs mem start target n off =
    ((rangeInsns cs mem start n).sweep (skipped_pos arch) n off).filterMap
      fun p => report arch target p.2 := by
  induction off using Layout.sweep.induct (rangeInsns cs mem start n) (skipped_pos arch) n with
  | case1 off hlt hnone ih =>
      rw [Layout.sweep_of_none hlt hnone, ← ih]
      rw [← decode_window hlt] at hnone
      rw [findXrefsFrom, if_pos hlt]
      dsimp only
      split
      · rfl
      · rename_i heq
        cases hnone.symm.trans heq
  | case2 off hlt insn hitem hpos ih =>
      rw [Layout.sweep_of_some hlt hitem, List.filterMap_cons, ← ih]
      rw [← decode_window hlt] at hitem
      rw [findXrefsFrom, if_pos hlt]
      dsimp only
      split
      · rename_i heq
        cases hitem.symm.trans heq
      · rename_i heq
        obtain rfl := Option.some.inj (hitem.symm.trans heq)
        by_cases htarget : (extractTarget arch insn).1 = target
        · rw [if_pos htarget, report, if_pos htarget]
          rfl
        · rw [if_neg htarget, report, if_neg htarget]
          rfl
  | case3 off hle =>
      rw [findXrefsFrom, if_neg hle, Layout.sweep_of_le (Nat.not_lt.mp hle)]
      rfl

/-- An address of the range. -/
theorem toNat_rangeAddr (hwrap : start.toNat + n ≤ 2 ^ 64) (hoff : off < n) :
    (start + BitVec.ofNat 64 off).toNat = start.toNat + off := by
  rw [BitVec.toNat_add, BitVec.toNat_ofNat, Nat.mod_eq_of_lt (a := off) (by omega),
    Nat.mod_eq_of_lt (by omega)]

/-- What is reported of an instruction of the range, against its analysis. -/
theorem report_eq_some {insn : CsInsn} {r : XrefResult} (htarget : target ≠ 0)
    (haddr : start + BitVec.ofNat 64 off ≠ 0)
    (hitem : (rangeInsns cs mem start n).item off = some insn) :
    report arch target insn = some r ↔
      let a := analyzeInstruction arch cs.decode mem (start + BitVec.ofNat 64 off)
      a.target = target ∧ r = ⟨start + BitVec.ofNat 64 off, xrefType arch insn a, insn.size⟩ := by
  obtain ⟨hdecode, -⟩ := rangeInsns_item.mp hitem
  have hlocated := cs.located _ _ _ hdecode
  have hanalysis : analyzeInstruction arch cs.decode mem (start + BitVec.ofNat 64 off) =
      insn.analysis arch insn.address := by
    rw [analyzeInstruction, if_neg haddr, hdecode, hlocated]
  dsimp only
  rw [hanalysis, report, ← extractTarget_fst, ← hlocated]
  by_cases hfound : (extractTarget arch insn).1 = target
  · have hne : (extractTarget arch insn).1 ≠ 0 := hfound ▸ htarget
    rw [if_pos hfound, ← extractTarget_snd hne, Option.some.injEq,
      eq_comm]
    exact (and_iff_right hfound).symm
  · rw [if_neg hfound]
    exact iff_of_false (by simp) fun h => hfound h.1

theorem rangeAddr_ne_zero (hstart : start ≠ 0) (hwrap : start.toNat + n ≤ 2 ^ 64)
    (hoff : off < n) : start + BitVec.ofNat 64 off ≠ 0 := by
  intro hzero
  have hnat := congrArg BitVec.toNat hzero
  rw [toNat_rangeAddr hwrap hoff] at hnat
  have hstart' : start.toNat = 0 := Nat.eq_zero_of_add_eq_zero_right hnat
  exact hstart (BitVec.eq_of_toNat_eq hstart')

/-- What the sweep over the range reports. -/
def reported (arch : Arch) (cs : Decoder) (mem : Memory) (start target : Addr) (n : ℕ) :
    List XrefResult :=
  ((rangeInsns cs mem start n).sweep (skipped_pos arch) n 0).filterMap
    fun p => report arch target p.2

theorem findXrefs_eq_reported {rangeSize : ℤ} (hstart : start ≠ 0) (htarget : target ≠ 0)
    (hsize : 0 < rangeSize) :
    findXrefs arch cs mem start rangeSize target =
      reported arch cs mem start target rangeSize.toNat := by
  have hvalid : ¬ (start = 0 ∨ target = 0 ∨ rangeSize ≤ 0) := by
    rintro (h | h | h)
    · exact hstart h
    · exact htarget h
    · omega
  rw [findXrefs, if_neg hvalid, findXrefsFrom_eq, reported]

/-- The results ascend, and no two overlap. -/
theorem pairwise_reported (hstart : start ≠ 0) (htarget : target ≠ 0)
    (hwrap : start.toNat + n ≤ 2 ^ 64) :
    (reported arch cs mem start target n).Pairwise fun r r' =>
      r.address < r'.address ∧ r.address.toNat + r.size ≤ r'.address.toNat := by
  rw [reported, List.pairwise_filterMap]
  apply Layout.pairwise_sweep.imp_of_mem
  rintro ⟨off, insn⟩ ⟨off', insn'⟩ hmem hmem' hbehind r hr r' hr'
  obtain ⟨-, hoff, hitem⟩ := Layout.mem_sweep.mp hmem
  obtain ⟨-, hoff', hitem'⟩ := Layout.mem_sweep.mp hmem'
  obtain ⟨-, rfl⟩ :=
    (report_eq_some htarget (rangeAddr_ne_zero hstart hwrap hoff) hitem).mp hr
  obtain ⟨-, rfl⟩ :=
    (report_eq_some htarget (rangeAddr_ne_zero hstart hwrap hoff') hitem').mp hr'
  have hpos : 0 < insn.size := (rangeInsns cs mem start n).size_pos off insn hitem
  change off + insn.size ≤ off' at hbehind
  rw [BitVec.lt_def]
  dsimp only
  rw [toNat_rangeAddr hwrap hoff, toNat_rangeAddr hwrap hoff']
  omega

theorem mem_reported {r : XrefResult} (hstart : start ≠ 0) (htarget : target ≠ 0)
    (hwrap : start.toNat + n ≤ 2 ^ 64) :
    r ∈ reported arch cs mem start target n ↔
      ∃ off insn, Swept arch cs mem start n off insn ∧
        let a := analyzeInstruction arch cs.decode mem (start + BitVec.ofNat 64 off)
        a.target = target ∧ r = ⟨start + BitVec.ofNat 64 off, xrefType arch insn a, insn.size⟩ := by
  rw [reported, List.mem_filterMap]
  constructor
  · rintro ⟨⟨off, insn⟩, hmem, hreport⟩
    have hswept := Layout.mem_sweep.mp hmem
    have hne := rangeAddr_ne_zero hstart hwrap hswept.2.1
    exact ⟨off, insn, hswept, (report_eq_some htarget hne hswept.2.2).mp hreport⟩
  · rintro ⟨off, insn, hswept, hanalysis⟩
    have hne := rangeAddr_ne_zero hstart hwrap hswept.2.1
    exact ⟨(off, insn), Layout.mem_sweep.mpr hswept,
      (report_eq_some htarget hne hswept.2.2).mpr hanalysis⟩

/-- **The cross-references are the instructions of the range whose analysis has the target.** -/
theorem findXrefs_exact (arch : Arch) (cs : Decoder) (mem : Memory) (start target : Addr)
    (rangeSize : ℤ) (hstart : start ≠ 0) (htarget : target ≠ 0) (hsize : 0 < rangeSize)
    (hwrap : start.toNat + rangeSize ≤ 2 ^ 64) :
    (findXrefs arch cs mem start rangeSize target).Pairwise (fun r r' =>
      r.address < r'.address ∧ r.address.toNat + r.size ≤ r'.address.toNat) ∧
    ∀ r, r ∈ findXrefs arch cs mem start rangeSize target ↔
      ∃ off insn, Swept arch cs mem start rangeSize.toNat off insn ∧
        let a := analyzeInstruction arch cs.decode mem (start + BitVec.ofNat 64 off)
        a.target = target ∧ r = ⟨start + BitVec.ofNat 64 off, xrefType arch insn a, insn.size⟩ := by
  have hfits : start.toNat + rangeSize.toNat ≤ 2 ^ 64 := by omega
  rw [findXrefs_eq_reported hstart htarget hsize]
  constructor
  · exact pairwise_reported hstart htarget hfits
  · intro r
    exact mem_reported hstart htarget hfits

end Found

section Concrete

variable {bytes : List Byte} {addr : Addr} {insn : CsInsn}

theorem x64Decode_spec (h : x64Decode bytes addr = some insn) :
    insn.address = addr ∧ 1 ≤ insn.size ∧ insn.size ≤ bytes.length ∧
      (bytes.head? = some 0x90 ∨ insn.size = 5) := by
  cases bytes with
  | nil => cases h
  | cons b bytes =>
      unfold x64Decode at h
      dsimp only at h
      rw [List.length_cons, List.head?_cons]
      split_ifs at h with hnop hlen hcall hmov <;> cases h
      · exact ⟨rfl, le_rfl, Nat.le_add_left _ _, .inl (hnop ▸ rfl)⟩
      · exact ⟨rfl, (by decide : 1 ≤ 5), Nat.succ_le_succ (Nat.not_lt.mp hlen), .inr rfl⟩
      · exact ⟨rfl, (by decide : 1 ≤ 5), Nat.succ_le_succ (Nat.not_lt.mp hlen), .inr rfl⟩

theorem x64Decode_append (rest : List Byte) (hsize : insn.size ≤ bytes.length) :
    x64Decode (bytes ++ rest) addr = some insn ↔ x64Decode bytes addr = some insn := by
  cases bytes with
  | nil =>
      refine iff_of_false (fun h => ?_) nofun
      exact absurd ((x64Decode_spec h).2.1.trans hsize) (by decide)
  | cons b bytes =>
      by_cases hnop : b = 0x90
      · simp only [x64Decode, List.cons_append, if_pos hnop]
      · by_cases hlen : 4 ≤ bytes.length
        · have hlong : ¬ bytes.length < 4 := Nat.not_lt.mpr hlen
          have hlong' : ¬ (bytes ++ rest).length < 4 := by
            rw [List.length_append]
            omega
          simp only [x64Decode, List.cons_append, List.take_append_of_le_length hlen,
            if_neg hlong, if_neg hlong']
        · -- it would take five bytes
          have hfive : ∀ {bs : List Byte}, bs.head? = some b → x64Decode bs addr = some insn →
              insn.size = 5 := fun hhead h =>
            (x64Decode_spec h).2.2.2.resolve_left fun hhead' =>
              hnop (Option.some.inj (hhead.symm.trans hhead'))
          rw [List.length_cons] at hsize
          refine iff_of_false (fun h => ?_) (fun h => ?_) <;>
          · have hsize' := hfive rfl h
            omega

def x64Decoder : Decoder where
  decode := x64Decode
  within _ _ _ h := ⟨(x64Decode_spec h).2.1, (x64Decode_spec h).2.2.1⟩
  unchanged _ rest _ _ hsize := x64Decode_append rest hsize
  located _ _ _ h := (x64Decode_spec h).1

theorem arm64Decode_spec (h : arm64Decode bytes addr = some insn) :
    insn.address = addr ∧ insn.size = 4 ∧ 4 ≤ bytes.length := by
  unfold arm64Decode at h
  dsimp only at h
  split_ifs at h with hlen <;> cases h <;> exact ⟨rfl, rfl, Nat.not_lt.mp hlen⟩

theorem arm64Decode_append (rest : List Byte) (hlen : 4 ≤ bytes.length) :
    arm64Decode (bytes ++ rest) addr = arm64Decode bytes addr := by
  have hlong : ¬ bytes.length < 4 := Nat.not_lt.mpr hlen
  have hlong' : ¬ (bytes ++ rest).length < 4 := by
    rw [List.length_append]
    omega
  simp only [arm64Decode, List.take_append_of_le_length hlen, if_neg hlong, if_neg hlong']

/-- All instructions are in the group of calls, `ADR` too. -/
def callingDecode : CsDisasm := fun bytes addr =>
  (arm64Decode bytes addr).map fun insn =>
    { insn with detail := insn.detail.map fun detail => { detail with groups := [.call] } }

theorem callingDecode_spec (h : callingDecode bytes addr = some insn) :
    insn.address = addr ∧ insn.size = 4 ∧ 4 ≤ bytes.length := by
  obtain ⟨insn', h', heq⟩ := Option.map_eq_some_iff.mp h
  rw [← heq]
  exact @arm64Decode_spec bytes addr insn' h'

def callingDecoder : Decoder where
  decode := callingDecode
  within _ _ _ h := by
    obtain ⟨-, hsize, hlen⟩ := callingDecode_spec h
    omega
  unchanged bytes rest addr insn hsize := by
    by_cases hlen : 4 ≤ bytes.length
    · rw [callingDecode, callingDecode, arm64Decode_append rest hlen]
    · refine iff_of_false (fun h => ?_) (fun h => ?_) <;>
      · have hfour := (callingDecode_spec h).2.1
        omega
  located _ _ _ h := (callingDecode_spec h).1

/-- `nop` and `call 0x2000`, of eight bytes. -/
theorem findXrefs_call : ⟨0x1001, "call", 5⟩ ∈
    findXrefs .x64 x64Decoder (codeOf [0x90, 0xE8, 0xFA, 0x0F, 0x00, 0x00]) 0x1000 8 0x2000 :=
  ((findXrefs_exact .x64 x64Decoder (codeOf [0x90, 0xE8, 0xFA, 0x0F, 0x00, 0x00]) 0x1000 0x2000 8
    (by decide) (by decide) (by decide) (by decide)).2 _).mpr
    ⟨1, (callNear 0x2000).decoded 0x1001,
      ⟨.single ⟨by decide, by decide⟩, by decide, by decide⟩, by decide, by decide⟩

/-- An address that is made by an instruction of the group of calls is data. -/
theorem addresses_called : ¬ ∀ r,
    r ∈ findXrefs .arm64 callingDecoder (codeOf [0x00, 0x80, 0x00, 0x10]) 0x1000 4 0x2000 ↔
      ∃ off insn,
        Swept .arm64 callingDecoder (codeOf [0x00, 0x80, 0x00, 0x10]) 0x1000 4 off insn ∧
        let a := analyzeInstruction .arm64 callingDecode (codeOf [0x00, 0x80, 0x00, 0x10])
          (0x1000 + BitVec.ofNat 64 off)
        a.target = 0x2000 ∧ r = ⟨0x1000 + BitVec.ofNat 64 off, flagType a, insn.size⟩ := by
  have hfound : ⟨0x1000, "data", 4⟩ ∈
      findXrefs .arm64 callingDecoder (codeOf [0x00, 0x80, 0x00, 0x10]) 0x1000 4 0x2000 := by
    rw [findXrefs_eq_reported (by decide) (by decide) (by decide)]
    refine (mem_reported (by decide) (by decide) (by decide)).mpr
      ⟨0, ⟨.adr, 0x1000, 4, some ⟨[.call], [.other, .imm 0x2000]⟩⟩,
        ⟨.refl, by decide, by decide⟩, by decide, by decide⟩
  intro h
  obtain ⟨off, insn, -, -, heq⟩ := (h _).mp hfound
  obtain ⟨haddr, htype, -⟩ := XrefResult.mk.inj heq
  rw [← haddr] at htype
  exact absurd htype (by decide)

end Concrete

end Analysis

end Chromatic
