import Chromatic.Arm64Relocation

/-!
# The ARM64 trampoline

`buildTrampoline` of the ARM64 build as the list of instructions it emits, and their
execution. The registers are saved below the entry stack pointer and loaded again, but for
`x16`, which the last two instructions need to get to the relocated code.

§1 emitted code · §2 execution · §3 the saved words · §4 what a run restores ·
§5 breakpoints.
-/

namespace Chromatic

open Foundation Foundation.Arm64

namespace Arm64Trampoline

/-! ## §1  Emitted code -/

/-- Offsets are from the stack pointer; `addOfSp` and `movOfSp` read it. -/
inductive Insn where
  | subSp (imm : ℕ)
  | addSp (imm : ℕ)
  | addOfSp (rd : Fin 31) (imm : ℕ)
  | movOfSp (rd : Fin 31)
  | mov (rd : Fin 31) (imm : Addr)
  | stp (rt rt2 : Fin 31) (off : ℕ)
  | str (rt : Fin 31) (off : ℕ)
  | ldp (rt rt2 : Fin 31) (off : ℕ)
  | ldr (rt : Fin 31) (off : ℕ)
  | mrs (rt : Fin 31) (sysreg : ℕ)
  | msr (sysreg : ℕ) (rt : Fin 31)
  | blr (rn : Fin 31)
  | br (rn : Fin 31)
deriving DecidableEq, Repr

def frameSize : ℕ := 0x110

/-- The condition flags as a system register. -/
def sysregNzcv : ℕ := 0xDA10

def pairs : List (Fin 31 × Fin 31) :=
  [(0, 1), (2, 3), (4, 5), (6, 7), (8, 9), (10, 11), (12, 13), (14, 15), (16, 17), (18, 19),
    (20, 21), (22, 23), (24, 25), (26, 27), (28, 29)]

def storePair (p : Fin 31 × Fin 31) : Insn := .stp p.1 p.2 (p.1 * 8)

def loadPair (p : Fin 31 × Fin 31) : Insn := .ldp p.1 p.2 (p.1 * 8)

def saveCode : List Insn :=
  .subSp frameSize :: (pairs.map storePair ++
    [.str 30 (30 * 8), .addOfSp 16 frameSize, .str 16 (31 * 8), .mrs 16 sysregNzcv,
      .str 16 (32 * 8)])

def dispatchCall (fn userData : Addr) : List Insn :=
  [.movOfSp 0, .mov 1 userData, .mov 16 fn, .blr 16]

def restoreCode (relocatedAddr : Addr) : List Insn :=
  [.ldr 16 (32 * 8), .msr sysregNzcv 16] ++ (pairs.map loadPair ++
    [.ldr 30 (30 * 8), .addSp frameSize, .mov 16 relocatedAddr, .br 16])

/-- A null `onLeaveFn` leaves the second call out. -/
def buildTrampoline (onEnterFn onLeaveFn userData relocatedAddr : Addr) : List Insn :=
  saveCode ++ (dispatchCall onEnterFn userData ++
    ((if onLeaveFn = 0 then [] else dispatchCall onLeaveFn userData) ++
      restoreCode relocatedAddr))

/-! ## §2  Execution -/

/-- The flags are the bits 31 to 28 of their system register. -/
def nzcvWord (nzcv : BitVec 4) : BitVec 64 := nzcv.setWidth 64 <<< 28

theorem extract_nzcvWord (nzcv : BitVec 4) : (nzcvWord nzcv).extractLsb' 28 4 = nzcv := by
  revert nzcv
  decide

/-- Instructions other than calls and jumps. -/
def Insn.step : Insn → State → State
  | .subSp imm, s => { s with sp := s.sp - BitVec.ofNat 64 imm }
  | .addSp imm, s => { s with sp := s.sp + BitVec.ofNat 64 imm }
  | .addOfSp rd imm, s => s.set rd (s.sp + BitVec.ofNat 64 imm)
  | .movOfSp rd, s => s.set rd s.sp
  | .mov rd imm, s => s.set rd imm
  | .stp rt rt2 off, s =>
      let m := write64 s.mem (s.sp + BitVec.ofNat 64 off) (s.reg rt)
      { s with mem := write64 m (s.sp + BitVec.ofNat 64 (off + 8)) (s.reg rt2) }
  | .str rt off, s =>
      { s with mem := write64 s.mem (s.sp + BitVec.ofNat 64 off) (s.reg rt) }
  | .ldp rt rt2 off, s =>
      (s.set rt (read64 s.mem (s.sp + BitVec.ofNat 64 off))).set rt2
        (read64 s.mem (s.sp + BitVec.ofNat 64 (off + 8)))
  | .ldr rt off, s => s.set rt (read64 s.mem (s.sp + BitVec.ofNat 64 off))
  | .mrs rt sysreg, s => if sysreg = sysregNzcv then s.set rt (nzcvWord s.nzcv) else s
  | .msr sysreg rt, s =>
      if sysreg = sysregNzcv then { s with nzcv := (s.reg rt).extractLsb' 28 4 } else s
  | .blr _, s => s
  | .br _, s => s

structure Outcome where
  calls : List (Addr × State)
  state : State
  target : Option Addr

/-- `callee fn s` is the state in which the call of `fn` from `s` returns. -/
def exec (callee : Addr → State → State) : List Insn → State → Outcome
  | [], s => ⟨[], s, none⟩
  | .br r :: _, s => ⟨[], s, some (s.reg r)⟩
  | .blr r :: is, s =>
      let out := exec callee is (callee (s.reg r) s)
      { out with calls := (s.reg r, s) :: out.calls }
  | i :: is, s => exec callee is (i.step s)

/-- Neither a call nor a jump. -/
def Insn.straight : Insn → Bool
  | .blr _ => false
  | .br _ => false
  | _ => true

def steps (is : List Insn) (s : State) : State := is.foldl (fun s i => i.step s) s

section Exec

variable {callee : Addr → State → State} {is js : List Insn} {s : State}

theorem steps_cons (i : Insn) : steps (i :: is) s = steps is (i.step s) := rfl

theorem steps_append : steps (is ++ js) s = steps js (steps is s) :=
  List.foldl_append

theorem exec_straight (h : ∀ i ∈ is, i.straight = true) :
    exec callee (is ++ js) s = exec callee js (steps is s) := by
  induction is generalizing s with
  | nil => rfl
  | cons i is ih =>
      have hrest := @ih (i.step s) fun j hj => h j (List.mem_cons_of_mem _ hj)
      have hi := h i List.mem_cons_self
      cases i with
      | blr r => cases hi
      | br r => cases hi
      | _ => exact hrest

end Exec

/-! ## §3  The saved words -/

/-- Every register of `pairs` lies next to the one of its pair. -/
theorem pairs_adjacent : ∀ p ∈ pairs, (p.2 : ℕ) = p.1 + 1 := by decide +kernel

def pairRegs (ps : List (Fin 31 × Fin 31)) : List (Fin 31) := ps.flatMap fun p => [p.1, p.2]

/-- The pairs and `x30` are all the registers. -/
theorem mem_savedRegs : ∀ r : Fin 31, r ∈ pairRegs pairs ++ [30] := by decide

section Saved

variable {s : State} {ps : List (Fin 31 × Fin 31)} {k : ℕ}

theorem slot_eq (sp : Addr) : sp + BitVec.ofNat 64 (k * 8) = X86.slot sp k := by
  rw [X86.slot, Nat.mul_comm]

theorem slot_next (sp : Addr) : sp + BitVec.ofNat 64 (k * 8 + 8) = X86.slot sp (k + 1) := by
  rw [← slot_eq, Nat.succ_mul]

theorem step_storePair {p : Fin 31 × Fin 31} (hp : (p.2 : ℕ) = p.1 + 1) :
    (storePair p).step s = saveRegs [p.1, p.2] s := by
  rw [storePair, Insn.step, slot_eq, slot_next, ← hp]
  rfl

theorem steps_storePairs (h : ∀ p ∈ ps, (p.2 : ℕ) = p.1 + 1) :
    steps (ps.map storePair) s = saveRegs (pairRegs ps) s := by
  induction ps generalizing s with
  | nil => rfl
  | cons p ps ih =>
      rw [List.map_cons, steps_cons, step_storePair (h p List.mem_cons_self),
        ih fun q hq => h q (List.mem_cons_of_mem _ hq)]
      rfl

theorem step_loadPair {p : Fin 31 × Fin 31} (hp : (p.2 : ℕ) = p.1 + 1) :
    (loadPair p).step s = loadRegs [p.1, p.2] s := by
  rw [loadPair, Insn.step, slot_eq, slot_next, ← hp]
  rfl

theorem steps_loadPairs (h : ∀ p ∈ ps, (p.2 : ℕ) = p.1 + 1) :
    steps (ps.map loadPair) s = loadRegs (pairRegs ps) s := by
  induction ps generalizing s with
  | nil => rfl
  | cons p ps ih =>
      rw [List.map_cons, steps_cons, step_loadPair (h p List.mem_cons_self),
        ih fun q hq => h q (List.mem_cons_of_mem _ hq)]
      rfl

/-- Where the stack pointer is while the registers are saved. -/
def frameBase (s : State) : Addr := s.sp - BitVec.ofNat 64 frameSize

/-- The words of the frame are those of the entry state `s`. -/
structure Saved (s : State) (m : Memory) : Prop where
  regs : ∀ r : Fin 31, read64 m (X86.slot (frameBase s) r) = s.reg r
  sp : read64 m (X86.slot (frameBase s) 31) = s.sp
  nzcv : read64 m (X86.slot (frameBase s) 32) = nzcvWord s.nzcv

/-- The words behind those of the registers. -/
theorem Saved.of_saveRegs {m : Memory} (s : State)
    (hregs : ∀ r : Fin 31, read64 m (X86.slot (frameBase s) r) = s.reg r) :
    Saved s (write64 (write64 m (X86.slot (frameBase s) 31) s.sp) (X86.slot (frameBase s) 32)
      (nzcvWord s.nzcv)) where
  regs r := by
    have hr := r.isLt
    rw [read64_write64_apart (X86.slot_apart (by omega) (by decide) (by omega)),
      read64_write64_apart (X86.slot_apart (by omega) (by decide) (by omega))]
    exact hregs r
  sp := by
    rw [read64_write64_apart (X86.slot_apart (by decide) (by decide) (by decide))]
    exact read64_write64_self _ _ _
  nzcv := read64_write64_self _ _ _

theorem step_storeLink : (Insn.str 30 (30 * 8)).step s = saveRegs [30] s := by
  rw [Insn.step, slot_eq]
  rfl

/-- The stack pointer and the flags go to the frame through `x16`. -/
theorem steps_saveRest :
    steps [.addOfSp 16 frameSize, .str 16 (31 * 8), .mrs 16 sysregNzcv, .str 16 (32 * 8)] s =
      ({ s with
        mem := write64 (write64 s.mem (X86.slot s.sp 31) (s.sp + BitVec.ofNat 64 frameSize))
          (X86.slot s.sp 32) (nzcvWord s.nzcv) } : State).set 16 (nzcvWord s.nzcv) := by
  refine State.ext ?_ rfl rfl rfl ?_
  · funext r
    by_cases hr : r = 16 <;> simp [steps, Insn.step, hr]
  · simp only [steps, List.foldl_cons, List.foldl_nil, Insn.step, slot_eq, if_true,
      State.set_reg_self, State.set_sp, State.set_mem, State.set_nzcv]

theorem steps_saveCode :
    ∃ m, steps saveCode s =
        ({ s with sp := frameBase s, mem := m } : State).set 16 (nzcvWord s.nzcv) ∧
      Saved s m := by
  let below : State := { s with sp := frameBase s }
  obtain ⟨m, hm⟩ := @saveRegs_eq (pairRegs pairs ++ [30]) below
  have hregs : ∀ r : Fin 31, read64 m (X86.slot (frameBase s) r) = s.reg r := by
    intro r
    have hsaved := @saveRegs_saved r _ below (mem_savedRegs r)
    rw [hm] at hsaved
    exact hsaved
  have htop : frameBase s + BitVec.ofNat 64 frameSize = s.sp := BitVec.sub_add_cancel _ _
  refine ⟨_, ?_, Saved.of_saveRegs s hregs⟩
  calc steps saveCode s
      = steps [.addOfSp 16 frameSize, .str 16 (31 * 8), .mrs 16 sysregNzcv, .str 16 (32 * 8)]
          (saveRegs (pairRegs pairs ++ [30]) below) := by
        rw [saveCode, steps_cons, steps_append, steps_storePairs pairs_adjacent, steps_cons,
          step_storeLink, ← saveRegs_append]
        rfl
    _ = _ := by
        rw [hm, steps_saveRest, ← htop]

end Saved

/-! ## §4  What a run restores -/

/-- The state in which a dispatch function is called: the frame is its first argument. -/
def entering (fn userData : Addr) (t : State) : State :=
  ((t.set 0 t.sp).set 1 userData).set 16 fn

/-- Of the procedure call standard, that the stack pointer comes back; and the saved context is
as it was. -/
structure KeepsContext (callee : Addr → State → State) (fn : Addr) : Prop where
  sp : ∀ t, (callee fn t).sp = t.sp
  context : ∀ t, ∀ k < 33,
    read64 (callee fn t).mem (X86.slot t.sp k) = read64 t.mem (X86.slot t.sp k)

/-- The state at the relocated code: memory and vector registers are what the dispatch function
left, and `x16` holds the address. -/
def resumed (s back : State) (relocatedAddr : Addr) : State :=
  ({ s with mem := back.mem, vec := back.vec } : State).set 16 relocatedAddr

section Run

variable {callee : Addr → State → State} {s t : State} {is : List Insn}
  {fn onEnterFn userData relocatedAddr : Addr} {m m' : Memory}

/-- The outcome of a call followed by the rest of the code. -/
def afterCall (fn : Addr) (t : State) (out : Outcome) : Outcome :=
  { out with calls := (fn, t) :: out.calls }

theorem exec_dispatchCall :
    exec callee (dispatchCall fn userData ++ is) t =
      afterCall fn (entering fn userData t)
        (exec callee is (callee fn (entering fn userData t))) := by
  simp [dispatchCall, exec, Insn.step, afterCall, entering]

theorem Saved.congr (h : Saved s m)
    (hsame : ∀ k < 33, read64 m' (X86.slot (frameBase s) k) =
      read64 m (X86.slot (frameBase s) k)) : Saved s m' where
  regs r := by
    have hr := r.isLt
    rw [hsame r (by omega)]
    exact h.regs r
  sp := (hsame 31 (by decide)).trans h.sp
  nzcv := (hsame 32 (by decide)).trans h.nzcv

theorem step_loadLink : (Insn.ldr 30 (30 * 8)).step t = loadRegs [30] t := by
  rw [Insn.step, slot_eq]
  rfl

/-- `restoreCode` up to its jump. -/
def restoreSteps (relocatedAddr : Addr) : List Insn :=
  [.ldr 16 (32 * 8), .msr sysregNzcv 16] ++ (pairs.map loadPair ++
    [.ldr 30 (30 * 8), .addSp frameSize, .mov 16 relocatedAddr])

theorem restoreSteps_straight : ∀ i ∈ restoreSteps relocatedAddr, i.straight = true := by
  intro i hi
  simp only [restoreSteps, List.mem_append, List.mem_map, List.mem_cons, List.not_mem_nil,
    or_false] at hi
  rcases hi with (rfl | rfl) | ⟨p, -, rfl⟩ | rfl | rfl | rfl <;> rfl

theorem loadRegs_saved (hsp : t.sp = frameBase s)
    (hregs : ∀ r : Fin 31, read64 t.mem (X86.slot (frameBase s) r) = s.reg r) :
    loadRegs (pairRegs pairs ++ [30]) t = { t with reg := s.reg } := by
  rw [loadRegs_eq]
  refine State.ext ?_ rfl rfl rfl rfl
  funext r
  show (if r ∈ pairRegs pairs ++ [30] then read64 t.mem (X86.slot t.sp r) else t.reg r) = s.reg r
  rw [if_pos (mem_savedRegs r), hsp]
  exact hregs r

/-- The flags come back through `x16`, which is then loaded, and then lost. -/
theorem steps_restoreSteps (hsp : t.sp = frameBase s) (h : Saved s t.mem) :
    steps (restoreSteps relocatedAddr) t = resumed s t relocatedAddr := by
  let flags : State := { t.set 16 (nzcvWord s.nzcv) with nzcv := s.nzcv }
  have hflags : steps [.ldr 16 (32 * 8), .msr sysregNzcv 16] t = flags := by
    rw [steps_cons, Insn.step, slot_eq, hsp, h.nzcv]
    simp [steps, Insn.step, extract_nzcvWord, flags]
  have htop : t.sp + BitVec.ofNat 64 frameSize = s.sp := by
    rw [hsp]
    exact BitVec.sub_add_cancel _ _
  calc steps (restoreSteps relocatedAddr) t
      = steps [.addSp frameSize, .mov 16 relocatedAddr]
          (loadRegs (pairRegs pairs ++ [30]) flags) := by
        rw [restoreSteps, steps_append, hflags, steps_append, steps_loadPairs pairs_adjacent,
          steps_cons, step_loadLink, ← loadRegs_append]
    _ = steps [.addSp frameSize, .mov 16 relocatedAddr] { flags with reg := s.reg } := by
        rw [@loadRegs_saved s flags hsp h.regs]
    _ = resumed s t relocatedAddr := State.ext rfl htop rfl rfl rfl

theorem exec_restoreCode (hsp : t.sp = frameBase s) (h : Saved s t.mem) :
    exec callee (restoreCode relocatedAddr) t =
      ⟨[], resumed s t relocatedAddr, some relocatedAddr⟩ := by
  have hcode : restoreCode relocatedAddr = restoreSteps relocatedAddr ++ [.br 16] := rfl
  rw [hcode, exec_straight restoreSteps_straight, steps_restoreSteps hsp h]
  simp [exec, resumed]

theorem saveCode_straight : ∀ i ∈ saveCode, i.straight = true := by decide

/-- The state in which the first dispatch function is called. -/
def dispatched (onEnterFn userData : Addr) (s : State) : State :=
  entering onEnterFn userData (steps saveCode s)

theorem dispatched_saved :
    (dispatched onEnterFn userData s).sp = frameBase s ∧
      Saved s (dispatched onEnterFn userData s).mem := by
  obtain ⟨m, hsave, hsaved⟩ := steps_saveCode (s := s)
  show (steps saveCode s).sp = _ ∧ Saved s (steps saveCode s).mem
  rw [hsave]
  exact ⟨rfl, hsaved⟩

/-- The trampoline of a breakpoint brings back every register but `x16`. -/
theorem exec_buildTrampoline (h : KeepsContext callee onEnterFn) :
    let t := dispatched onEnterFn userData s
    exec callee (buildTrampoline onEnterFn 0 userData relocatedAddr) s =
      ⟨[(onEnterFn, t)], resumed s (callee onEnterFn t) relocatedAddr, some relocatedAddr⟩ := by
  dsimp only
  obtain ⟨hsp, hsaved⟩ := @dispatched_saved s onEnterFn userData
  have hback : Saved s (callee onEnterFn (dispatched onEnterFn userData s)).mem := by
    apply hsaved.congr
    rw [← hsp]
    exact h.context _
  rw [buildTrampoline, if_pos rfl, List.nil_append, exec_straight saveCode_straight,
    exec_dispatchCall]
  show afterCall _ _ (exec callee _ (callee onEnterFn (dispatched onEnterFn userData s))) = _
  rw [exec_restoreCode ((h.sp _).trans hsp) hback]
  rfl

end Run

/-! ## §5  Breakpoints -/

open Arm64Relocator Arm64Relocation

/-- What is observed of a run where it leaves: the general registers, the stack pointer, the
flags and where control goes. -/
structure Preserved (b b' : Behaviour) : Prop where
  exit : b'.exit = b.exit
  regs : ∀ r, b'.state.reg r = b.state.reg r
  sp : b'.state.sp = b.state.sp
  nzcv : b'.state.nzcv = b.state.nzcv

/-- Both runs end, and alike. -/
def Unnoticed (original hit : List Behaviour) : Prop :=
  ∃ b ∈ original.getLast?, ∃ b' ∈ hit.getLast?, Preserved b b'

/-- A hit of the breakpoint: the trampoline, the chunks where it jumps to, and the jump
back. -/
def hitBreakpoint (others : BitVec 32 → State → State × Flow) (asmjit : Asmjit)
    (callee : Addr → State → State) (onHit userData source base : Addr) (chunks : List Chunk)
    (s : State) : List Behaviour :=
  let out := exec callee (buildTrampoline onHit 0 userData base) s
  match out.target with
  | none => []
  | some a => runRelocated others asmjit callee (jumpBack source chunks) a chunks out.state

/-- Where an instruction that does not call leaves, `next` being the address behind it. -/
def leaves (next : Addr) : Flow → Addr
  | .next => next
  | .jump a => a
  | .call _ => next

/-- The state in which it leaves: the jump back goes through `x16`. -/
def arrived (next : Addr) (out : State × Flow) : State :=
  if out.2 = .next then out.1.set 16 next else out.1

section Arrived

variable {next : Addr} {out : State × Flow}

theorem arrived_reg_ne {r : Fin 31} (hr : r ≠ 16) : (arrived next out).reg r = out.1.reg r := by
  unfold arrived
  split
  · exact State.set_reg_ne _ _ _ hr
  · rfl

theorem arrived_scratch :
    (arrived next out).reg 16 = if out.2 = .next then next else out.1.reg 16 := by
  unfold arrived
  split
  · exact State.set_reg_self _ _ _
  · rfl

theorem arrived_sp : (arrived next out).sp = out.1.sp := by
  unfold arrived
  split <;> rfl

theorem arrived_nzcv : (arrived next out).nzcv = out.1.nzcv := by
  unfold arrived
  split <;> rfl

end Arrived

/-- The instruction does in `u` what it does in `s`, where the jump back overwrites `x16` if
it falls through. -/
structure Survives (effect : State → State × Flow) (next : Addr) (s u : State) : Prop where
  leaves : leaves next (effect u).2 = leaves next (effect s).2
  regs : ∀ r, r ≠ 16 → (effect u).1.reg r = (effect s).1.reg r
  scratch : (if (effect u).2 = .next then next else (effect u).1.reg 16) = (effect s).1.reg 16
  sp : (effect u).1.sp = (effect s).1.sp
  nzcv : (effect u).1.nzcv = (effect s).1.nzcv

section Breakpoint

variable {others : BitVec 32 → State → State × Flow} {asmjit : Asmjit}
  {callee : Addr → State → State} {cs : CsDisasm} {mem : Memory}
  {source base onHit userData : Addr} {chunks : List Chunk} {s u : State}
  {effect : State → State × Flow}

/-- The block of a breakpoint has one chunk. -/
theorem chunks_of_breakpoint (hcs : DecodesAt others cs mem source)
    (hbuild : buildRelocatedCode cs mem source (Arch.bpInsnSize .arm64) (some base) =
      .ok (base, chunks)) :
    chunks = [⟨4, relocateInsn cs mem source⟩] ∧
      ∃ insn, Site others cs mem source insn (insnAt others mem source) := by
  have hsize : Arch.bpInsnSize .arm64 = 4 := rfl
  rw [hsize] at hbuild
  have hne : (disassembleOne cs mem source).size ≠ 0 := by
    intro hzero
    rw [buildRelocatedCode, relocateInsns, if_pos (by decide)] at hbuild
    simp [hzero] at hbuild
  obtain ⟨hfour, hsite⟩ := @site_of_chunk others cs mem source []
    ⟨(disassembleOne cs mem source).size, relocateInsn cs mem source⟩ hcs
    ⟨rfl, hne, rfl, trivial⟩
  refine ⟨?_, hsite⟩
  rw [buildRelocatedCode_one hfour] at hbuild
  cases hbuild
  rfl

theorem original_last (hinsn : insnAt others mem source = .other effect)
    (hcalls : ∀ t a, (effect t).2 ≠ .call a) :
    (runInPlace others callee mem 1 source s).getLast? =
      some ⟨[], [], (effect s).1, .jump (leaves (source + 4) (effect s).2)⟩ := by
  simp only [runInPlace, hinsn, execInsn, Instruction.exec]
  cases hflow : (effect s).2 with
  | next => simp [leaves]
  | jump a => simp [leaves]
  | call a => exact absurd hflow (hcalls s a)

theorem relocated_last (hcs : DecodesAt others cs mem source)
    (hbuild : buildRelocatedCode cs mem source (Arch.bpInsnSize .arm64) (some base) =
      .ok (base, chunks))
    (hinsn : insnAt others mem source = .other effect)
    (hcalls : ∀ t a, (effect t).2 ≠ .call a) :
    (runRelocated others asmjit callee (jumpBack source chunks) base chunks u).getLast? =
      some ⟨[], [], arrived (source + 4) (effect u),
        .jump (leaves (source + 4) (effect u).2)⟩ := by
  obtain ⟨rfl, insn, site⟩ := chunks_of_breakpoint hcs hbuild
  rw [hinsn] at site
  have hback : jumpBack source [⟨4, relocateInsn cs mem source⟩] =
      [.mov 16 (source + 4), .br 16] := rfl
  simp only [runRelocated, hback, execChunk_jump, site.execChunk_embedded site.describes, execInsn,
    Instruction.exec]
  cases hflow : (effect u).2 with
  | next => simp [leaves, arrived, hflow]
  | jump a => simp [leaves, arrived, hflow]
  | call a => exact absurd hflow (hcalls u a)

theorem preserved_iff {next : Addr} :
    Preserved ⟨[], [], (effect s).1, .jump (leaves next (effect s).2)⟩
        ⟨[], [], arrived next (effect u), .jump (leaves next (effect u).2)⟩ ↔
      Survives effect next s u := by
  constructor
  · rintro ⟨hexit, hregs, hsp, hnzcv⟩
    refine ⟨Exit.jump.inj hexit, fun r hr => ?_, ?_, ?_, ?_⟩
    · rw [← hregs r, arrived_reg_ne hr]
    · rw [← arrived_scratch]
      exact hregs 16
    · exact arrived_sp.symm.trans hsp
    · exact arrived_nzcv.symm.trans hnzcv
  · rintro ⟨hleaves, hregs, hscratch, hsp, hnzcv⟩
    refine ⟨congrArg Exit.jump hleaves, fun r => ?_, arrived_sp.trans hsp,
      arrived_nzcv.trans hnzcv⟩
    by_cases hr : r = 16
    · rw [hr]
      exact arrived_scratch.trans hscratch
    · exact (arrived_reg_ne hr).trans (hregs r hr)

/-- **ARM64 breakpoints.** On an instruction that depends on no address, with a dispatch
function that keeps the stack pointer and the saved context, the hit goes unnoticed exactly
when the instruction does the same with the address of its copy in `x16`, and leaves the
address behind it there itself. -/
theorem breakpoint_unnoticed_iff (hcs : DecodesAt others cs mem source)
    (hbuild : buildRelocatedCode cs mem source (Arch.bpInsnSize .arm64) (some base) =
      .ok (base, chunks))
    (hinsn : insnAt others mem source = .other effect)
    (hcalls : ∀ t a, (effect t).2 ≠ .call a) (hkeeps : KeepsContext callee onHit) :
    Unnoticed (runInPlace others callee mem 1 source s)
        (hitBreakpoint others asmjit callee onHit userData source base chunks s) ↔
      Survives effect (source + 4) s
        (resumed s (callee onHit (dispatched onHit userData s)) base) := by
  have hhit : hitBreakpoint others asmjit callee onHit userData source base chunks s =
      runRelocated others asmjit callee (jumpBack source chunks) base chunks
        (resumed s (callee onHit (dispatched onHit userData s)) base) := by
    rw [hitBreakpoint, exec_buildTrampoline hkeeps]
  rw [hhit, Unnoticed, original_last hinsn hcalls, relocated_last hcs hbuild hinsn hcalls]
  simp only [Option.mem_def, Option.some.injEq, exists_eq_left']
  exact preserved_iff

/-! A breakpoint on a `NOP` at `0x1000`, its block at `0x9000`. -/

def nopDisasm : CsDisasm := fun bs _ =>
  match decode noEffects (word bs) with
  | .other _ => some ⟨4, "nop", [], []⟩
  | _ => none

theorem nopDisasm_decodes (mem : Memory) (addr : Addr) :
    DecodesAt noEffects nopDisasm mem addr := by
  intro insn h
  unfold csDisasm nopDisasm at h
  rw [word_window] at h
  split at h
  · cases h
  split at h
  · rename_i effect hdec
    obtain rfl := Option.some.inj h
    rw [insnAt, hdec]
    refine ⟨rfl, .inr ?_⟩
    show "nop" ∉ ["b", "bl", "adr", "adrp"]
    decide
  · cases h

def nop : Memory := codeAt [0x1F, 0x20, 0x03, 0xD5]

def nopChunks : List Chunk := [⟨4, relocateInsn nopDisasm nop 0x1000⟩]

/-- `v` in `x16`. -/
def interrupted (v : Addr) : State :=
  ⟨fun r => if r = 16 then v else 0, 0x7FFE0000, 0, fun _ => 0, fun _ => 0⟩

theorem keepsContext_id (fn : Addr) : KeepsContext (fun _ t => t) fn :=
  ⟨fun _ => rfl, fun _ _ _ => rfl⟩

/-- It goes unnoticed with the address behind it in `x16`. -/
theorem nop_unnoticed :
    Unnoticed (runInPlace noEffects (fun _ t => t) nop 1 0x1000 (interrupted 0x1004))
      (hitBreakpoint noEffects movWide (fun _ t => t) 0x10 0x20 0x1000 0x9000 nopChunks
        (interrupted 0x1004)) := by
  refine (@breakpoint_unnoticed_iff noEffects movWide (fun _ t => t) nopDisasm nop 0x1000 0x9000
    0x10 0x20 nopChunks (interrupted 0x1004) _ (nopDisasm_decodes _ _)
    (buildRelocatedCode_one (by decide)) rfl (fun t a h => nomatch h) (keepsContext_id _)).mpr ?_
  exact ⟨rfl, fun r hr => State.set_reg_ne _ _ _ hr, rfl, rfl, rfl⟩

/-- With anything else there, that is lost. -/
theorem nop_noticed :
    DecodesAt noEffects nopDisasm nop 0x1000 ∧
      buildRelocatedCode nopDisasm nop 0x1000 (Arch.bpInsnSize .arm64) (some 0x9000) =
        .ok (0x9000, nopChunks) ∧
      KeepsContext (fun _ t => t) 0x10 ∧
      (hitBreakpoint noEffects movWide (fun _ t => t) 0x10 0x20 0x1000 0x9000 nopChunks
        (interrupted 5)).getLast?.map (fun b => b.state.reg 16) = some 0x1004 ∧
      ¬ Unnoticed (runInPlace noEffects (fun _ t => t) nop 1 0x1000 (interrupted 5))
        (hitBreakpoint noEffects movWide (fun _ t => t) 0x10 0x20 0x1000 0x9000 nopChunks
          (interrupted 5)) := by
  have hlast : (hitBreakpoint noEffects movWide (fun _ t => t) 0x10 0x20 0x1000 0x9000 nopChunks
      (interrupted 5)).getLast?.map (fun b => b.state.reg 16) = some 0x1004 := by
    rfl
  refine ⟨nopDisasm_decodes _ _, buildRelocatedCode_one (by decide), keepsContext_id _, hlast, ?_⟩
  rintro ⟨b, hb, b', hb', h⟩
  have hfirst : (runInPlace noEffects (fun _ t => t) nop 1 0x1000 (interrupted 5)).getLast?.map
      (fun b => b.state.reg 16) = some 5 := rfl
  rw [Option.mem_def.mp hb] at hfirst
  rw [Option.mem_def.mp hb'] at hlast
  have hkept : b'.state.reg 16 = 5 := (h.regs 16).trans (Option.some.inj hfirst)
  have hlost : b'.state.reg 16 = 0x1004 := Option.some.inj hlast
  exact absurd (hkept.symm.trans hlost) (by decide)

end Breakpoint

end Arm64Trampoline

end Chromatic
