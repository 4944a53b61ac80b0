import Chromatic.State
import Chromatic.Foundation.X86

/-!
# The x86_64 trampoline

`buildTrampoline` as the list of instructions it emits, and their execution. The
registers are saved below the entry stack pointer, the dispatch functions are called
with a pointer to them, and control goes on to the relocated code.

§1 emitted code · §2 execution · §3 the saved words · §4 what a run delivers and
restores.
-/

namespace Chromatic

open Foundation Foundation.X86

namespace Trampoline

/-! ## §1  Emitted code -/

/-- `jmpMem a` is `JMP [RIP+0]` with the quadword `a` behind it. -/
inductive Insn where
  | pushfq
  | push (r : Reg)
  | movReg (dst src : Reg)
  | movImm (dst : Reg) (imm : BitVec 64)
  | addImm (dst : Reg) (imm : BitVec 64)
  | subImm (dst : Reg) (imm : BitVec 64)
  | call (r : Reg)
  | pop (r : Reg)
  | popfq
  | jmpMem (target : Addr)
deriving DecidableEq, Repr

def savedRegs : List Reg :=
  [.rax, .rcx, .rdx, .rbx, .rbp, .rsi, .rdi, .r8, .r9, .r10, .r11, .r12, .r13, .r14, .r15]

def restoredRegs : List Reg :=
  [.r15, .r14, .r13, .r12, .r11, .r10, .r9, .r8, .rdi, .rsi, .rbp, .rbx, .rdx, .rcx, .rax]

/-- First and second argument of a call. -/
def arg0 : Os → Reg
  | .windows => .rcx
  | .linux => .rdi
  | .darwin => .rdi

def arg1 : Os → Reg
  | .windows => .rdx
  | .linux => .rsi
  | .darwin => .rsi

/-- Shadow space and alignment. -/
def reserved : Os → BitVec 64
  | .windows => 0x28
  | .linux => 0x8
  | .darwin => 0x8

def enterCall (os : Os) (onEnterFn userData : Addr) : List Insn :=
  [.movReg (arg0 os) .rsp, .movImm (arg1 os) userData, .subImm .rsp (reserved os),
    .movImm .rax onEnterFn, .call .rax]

def leaveCall (os : Os) (onLeaveFn userData : Addr) : List Insn :=
  [.movReg (arg0 os) .rsp, .addImm (arg0 os) (reserved os), .movImm (arg1 os) userData,
    .movImm .rax onLeaveFn, .call .rax]

def restoreCode (os : Os) (relocatedAddr : Addr) : List Insn :=
  .addImm .rsp (reserved os) :: (restoredRegs.map .pop ++ [.popfq, .jmpMem relocatedAddr])

/-- A null `onLeaveFn` leaves the second call out. -/
def buildTrampoline (os : Os) (onEnterFn onLeaveFn userData relocatedAddr : Addr) :
    List Insn :=
  .pushfq :: (savedRegs.map .push ++ (enterCall os onEnterFn userData ++
    ((if onLeaveFn = 0 then [] else leaveCall os onLeaveFn userData) ++
      restoreCode os relocatedAddr)))

/-! ## §2  Execution -/

/-- Instructions other than calls and jumps. -/
def Insn.step : Insn → State → State
  | .pushfq, s => s.push s.rflags
  | .push r, s => s.push (s.reg r)
  | .movReg dst src, s => s.set dst (s.reg src)
  | .movImm dst imm, s => s.set dst imm
  | .addImm dst imm, s =>
      { s.set dst (s.reg dst + imm) with rflags := addFlags s.rflags (s.reg dst) imm }
  | .subImm dst imm, s =>
      { s.set dst (s.reg dst - imm) with rflags := subFlags s.rflags (s.reg dst) imm }
  | .pop r, s => s.pop.2.set r s.pop.1
  | .popfq, s => { s.pop.2 with rflags := loadFlags s.rflags s.pop.1 }
  | .call _, s => s
  | .jmpMem _, s => s

section Popfq

variable (s : State)

@[simp] theorem popfq_rsp : (Insn.popfq.step s).reg .rsp = s.reg .rsp + 8 :=
  s.set_reg_self .rsp _

@[simp] theorem popfq_reg_ne {r : Reg} (h : r ≠ .rsp) :
    (Insn.popfq.step s).reg r = s.reg r :=
  s.set_reg_ne _ h

@[simp] theorem popfq_mem : (Insn.popfq.step s).mem = s.mem := rfl

@[simp] theorem popfq_rflags :
    (Insn.popfq.step s).rflags = loadFlags s.rflags (read64 s.mem (s.reg .rsp)) := rfl

end Popfq

/-- The calls made, with the states they are made in; the last state; and where it
jumps, if it does. -/
structure Outcome where
  calls : List (Addr × State)
  state : State
  target : Option Addr

/-- The state in which a call of `fn` from `s` returns, as `callee` has it. What runs in user mode
leaves the flags alone that it cannot change. -/
def back (callee : Addr → State → State) (fn : Addr) (s : State) : State :=
  { callee fn s with rflags := loadFlags s.rflags (callee fn s).rflags }

section Back

variable (callee : Addr → State → State) (fn : Addr) (s : State)

@[simp] theorem back_reg : (back callee fn s).reg = (callee fn s).reg := rfl

@[simp] theorem back_mem : (back callee fn s).mem = (callee fn s).mem := rfl

theorem back_rflags : SameSystem (back callee fn s).rflags s.rflags :=
  sameSystem_loadFlags _ _

end Back

def exec (callee : Addr → State → State) : List Insn → State → Outcome
  | [], s => ⟨[], s, none⟩
  | .jmpMem a :: _, s => ⟨[], s, some a⟩
  | .call r :: is, s =>
      let out := exec callee is (back callee (s.reg r) s)
      { out with calls := (s.reg r, s) :: out.calls }
  | i :: is, s => exec callee is (i.step s)

section Exec

variable {callee : Addr → State → State} {is : List Insn} {s : State}

theorem exec_pushes (rs : List Reg) :
    exec callee (rs.map .push ++ is) s = exec callee is (pushRegs rs s) := by
  induction rs generalizing s with
  | nil => rfl
  | cons r rs ih => exact ih

theorem exec_pops (rs : List Reg) :
    exec callee (rs.map .pop ++ is) s = exec callee is (popRegs rs s) := by
  induction rs generalizing s with
  | nil => rfl
  | cons r rs ih => exact ih

end Exec

/-! ## §3  The saved words -/

/-- The stack pointer after the saves. -/
def frameBase (s : State) : Addr := s.reg .rsp - 128

/-- The words from `frameBase` upwards: `r15` first, the flags last of those saved, and
above them the return address the call of the function left. -/
def frameWords (s : State) : List (BitVec 64) :=
  restoredRegs.map s.reg ++ [s.rflags, read64 s.mem (s.reg .rsp)]

@[simp] theorem length_frameWords (s : State) : (frameWords s).length = 17 := rfl

theorem frameWords_reg (s : State) {k : ℕ} {r : Reg} (hk : restoredRegs[k]? = some r) :
    (frameWords s)[k]? = some (s.reg r) := by
  have hlt : k < restoredRegs.length := (List.getElem?_eq_some_iff.mp hk).1
  rw [frameWords, List.getElem?_append_left (by simpa using hlt), List.getElem?_map, hk]
  rfl

/-- Every register but the stack pointer is saved. -/
theorem mem_restoredRegs : ∀ r : Reg, r ≠ .rsp → ∃ k < 15, restoredRegs[k]? = some r := by
  intro r
  cases r <;> decide

/-- The state after the saves. -/
def savedState (s : State) : State := pushRegs savedRegs (s.push s.rflags)

theorem savedState_stacked (s : State) :
    Stacked (savedState s).mem (frameBase s) (frameWords s) ∧
      (savedState s).reg .rsp = frameBase s := by
  have hreturn : Stacked s.mem (s.reg .rsp) [read64 s.mem (s.reg .rsp)] := by
    intro k v hk
    obtain ⟨rfl, rfl⟩ : k = 0 ∧ read64 s.mem (s.reg .rsp) = v := by
      cases k <;> simp_all
    rw [slot_zero]
  have hflags : Stacked (s.push s.rflags).mem ((s.push s.rflags).reg .rsp)
      [s.rflags, read64 s.mem (s.reg .rsp)] := by
    rw [State.push_mem, State.push_rsp]
    exact hreturn.push (by simp)
  obtain ⟨hstack, hrsp⟩ :=
    @pushRegs_stacked savedRegs _ _ (by decide) hflags (by simp [savedRegs])
  have hbase : (savedState s).reg .rsp = frameBase s := by
    rw [savedState, hrsp, State.push_rsp, frameBase]
    show s.reg .rsp - 8 - BitVec.ofNat 64 120 = s.reg .rsp - 128
    bv_omega
  refine ⟨?_, hbase⟩
  rw [← hbase]
  have hregs : savedRegs.map (s.push s.rflags).reg = savedRegs.map s.reg :=
    List.map_congr_left fun r hr => State.push_reg_ne _ _ (by revert hr; revert r; decide)
  rw [hregs] at hstack
  exact hstack

/-- The state in which the first dispatch function is called. -/
def enterState (os : Os) (fn userData : Addr) (t : State) : State :=
  let t := t.set (arg0 os) (t.reg .rsp)
  let t := t.set (arg1 os) userData
  ((Insn.subImm .rsp (reserved os)).step t).set .rax fn

/-- The state in which the second one is, when the first has come back in `t`. -/
def leaveState (os : Os) (fn userData : Addr) (t : State) : State :=
  let t := t.set (arg0 os) (t.reg .rsp)
  let t := (Insn.addImm (arg0 os) (reserved os)).step t
  (t.set (arg1 os) userData).set .rax fn

/-- The state in which the relocated code is reached, when the last one has come back in
`t`. -/
def restoredState (os : Os) (t : State) : State :=
  Insn.popfq.step (popRegs restoredRegs ((Insn.addImm .rsp (reserved os)).step t))

@[simp] theorem restoredState_mem (os : Os) (t : State) : (restoredState os t).mem = t.mem := by
  rw [restoredState, popfq_mem, popRegs_mem]
  rfl

section SystemFlags

variable (os : Os) (fn userData : Addr) (s t : State)

theorem savedState_rflags : (savedState s).rflags = s.rflags := by
  rw [savedState, pushRegs_rflags, State.push_rflags]

theorem enterState_flags : SameSystem (enterState os fn userData t).rflags t.rflags :=
  sameSystem_statusFlags _ _ _ _

theorem leaveState_flags : SameSystem (leaveState os fn userData t).rflags t.rflags :=
  sameSystem_statusFlags _ _ _ _

end SystemFlags

/-! ## §4  What a run delivers and restores -/

/-- A dispatch function is called with a pointer to the saved words. -/
structure Delivered (os : Os) (base userData : Addr) (words : List (BitVec 64))
    (t : State) : Prop where
  ctx : t.reg (arg0 os) = base
  entry : t.reg (arg1 os) = userData
  rsp : t.reg .rsp = base - reserved os
  words : Stacked t.mem base words

/-- A dispatch function came back with the stack pointer it was given. -/
structure Returned (os : Os) (base : Addr) (words : List (BitVec 64)) (t : State) : Prop where
  rsp : t.reg .rsp = base - reserved os
  words : Stacked t.mem base words

/-- Registers, the flags of user code and the word on top of the stack are what the words
say. -/
structure Restored (s : State) (words : List (BitVec 64)) (out : State) : Prop where
  rsp : out.reg .rsp = s.reg .rsp
  regs : ∀ (k : ℕ) (r : Reg) (v : BitVec 64), restoredRegs[k]? = some r →
    words[k]? = some v → out.reg r = v
  rflags : ∀ v, words[15]? = some v → out.rflags = loadFlags s.rflags v
  returnsTo : ∀ v, words[16]? = some v → read64 out.mem (out.reg .rsp) = v

section Run

variable {os : Os} {callee : Addr → State → State} {s t : State} {base userData : Addr}
  {words : List (BitVec 64)}

theorem exec_saves (is : List Insn) :
    exec callee (.pushfq :: (savedRegs.map .push ++ is)) s = exec callee is (savedState s) := by
  show exec callee (savedRegs.map .push ++ is) (s.push s.rflags) = _
  rw [exec_pushes, savedState]

/-- The outcome of a call followed by the rest of the code. -/
def afterCall (fn : Addr) (t : State) (out : Outcome) : Outcome :=
  { out with calls := (fn, t) :: out.calls }

theorem enterState_delivered (fn userData : Addr) (hrsp : t.reg .rsp = base)
    (hwords : Stacked t.mem base words) :
    Delivered os base userData words (enterState os fn userData t) := by
  constructor <;> cases os <;>
    simp [enterState, Insn.step, arg0, arg1, reserved, hrsp, hwords]

theorem exec_enterCall (fn userData : Addr) (is : List Insn) :
    exec callee (enterCall os fn userData ++ is) t =
      afterCall fn (enterState os fn userData t)
        (exec callee is (back callee fn (enterState os fn userData t))) := by
  cases os <;> simp [enterCall, exec, Insn.step, afterCall, enterState]

theorem leaveState_delivered (fn userData : Addr) (h : Returned os base words t) :
    Delivered os base userData words (leaveState os fn userData t) := by
  have hwords := h.words
  have hback : base - reserved os + reserved os = base := BitVec.sub_add_cancel _ _
  constructor <;> cases os <;>
    simp [leaveState, Insn.step, arg0, arg1, h.rsp, hwords, hback]

theorem exec_leaveCall (fn userData : Addr) (is : List Insn) :
    exec callee (leaveCall os fn userData ++ is) t =
      afterCall fn (leaveState os fn userData t)
        (exec callee is (back callee fn (leaveState os fn userData t))) := by
  cases os <;> simp [leaveCall, exec, Insn.step, afterCall, leaveState]

theorem exec_restoreCode (relocatedAddr : Addr) :
    exec callee (restoreCode os relocatedAddr) t =
      ⟨[], restoredState os t, some relocatedAddr⟩ := by
  show exec callee (restoredRegs.map .pop ++ [.popfq, .jmpMem relocatedAddr])
    ((Insn.addImm .rsp (reserved os)).step t) = _
  rw [exec_pops]
  rfl

theorem Returned.back {fn : Addr} (h : Returned os base words (callee fn t)) :
    Returned os base words (back callee fn t) := ⟨h.rsp, h.words⟩

theorem restoredState_restored (h : Returned os (frameBase s) words t)
    (hflags : SameSystem t.rflags s.rflags) (hlen : words.length = 17) :
    Restored s words (restoredState os t) := by
  let t₁ := (Insn.addImm .rsp (reserved os)).step t
  have hsystem : SameSystem t₁.rflags s.rflags := (sameSystem_statusFlags _ _ _ _).trans hflags
  have hsp : t₁.reg .rsp = frameBase s := by
    show (t.set .rsp (t.reg .rsp + reserved os)).reg .rsp = frameBase s
    rw [State.set_reg_self, h.rsp, BitVec.sub_add_cancel]
  have hstack : Stacked t₁.mem (t₁.reg .rsp) (words.take 15 ++ words.drop 15) := by
    rw [hsp, List.take_append_drop]
    exact h.words
  obtain ⟨hmem, hkept, hrsp, -, hregs⟩ :=
    @popRegs_spec restoredRegs t₁ _ _ (by decide) (by decide) hstack
      (by simp [hlen, restoredRegs])
  -- behind the fifteen registers lie the flags and the return address
  let t₂ := popRegs restoredRegs t₁
  have hlast : t₂.reg .rsp + 8 = slot (frameBase s) 16 := by
    rw [hrsp, hsp]
    show slot (frameBase s) 15 + 8 = slot (frameBase s) 16
    unfold slot
    bv_omega
  show Restored s words (Insn.popfq.step t₂)
  refine ⟨?_, ?_, ?_, ?_⟩
  · rw [popfq_rsp, hlast]
    show s.reg .rsp - 128 + BitVec.ofNat 64 128 = s.reg .rsp
    bv_omega
  · intro k r v hk hv
    have hne : r ≠ .rsp := by
      rintro rfl
      exact absurd (List.mem_of_getElem? hk) (by decide)
    have hk15 : k < 15 := (List.getElem?_eq_some_iff.mp hk).1
    rw [popfq_reg_ne _ hne]
    exact hregs k r v hk (by rwa [List.getElem?_take_of_lt hk15])
  · intro v hv
    rw [popfq_rflags, hmem, hrsp, hsp, hkept, loadFlags_congr hsystem]
    exact congrArg (loadFlags s.rflags) (h.words 15 v hv)
  · intro v hv
    rw [popfq_mem, popfq_rsp, hlast, hmem]
    exact h.words 16 v hv

/-- **The trampoline.** With dispatch functions that keep the stack pointer and turn
the saved words into `entered` and then `left`, the entry state's registers reach the
relocated code as those words say. -/
theorem exec_buildTrampoline {onEnterFn onLeaveFn relocatedAddr : Addr}
    {entered left : List (BitVec 64)} (hleave : onLeaveFn ≠ 0) (hlen : left.length = 17)
    (enter : ∀ t, Delivered os (frameBase s) userData (frameWords s) t →
      Returned os (frameBase s) entered (callee onEnterFn t))
    (leave : ∀ t, Delivered os (frameBase s) userData entered t →
      Returned os (frameBase s) left (callee onLeaveFn t)) :
    ∃ tEnter tLeave out, Delivered os (frameBase s) userData (frameWords s) tEnter ∧
      Delivered os (frameBase s) userData entered tLeave ∧ Restored s left out ∧
      exec callee (buildTrampoline os onEnterFn onLeaveFn userData relocatedAddr) s =
        ⟨[(onEnterFn, tEnter), (onLeaveFn, tLeave)], out, some relocatedAddr⟩ := by
  obtain ⟨hstack, hrsp⟩ := savedState_stacked s
  let rest := leaveCall os onLeaveFn userData ++ restoreCode os relocatedAddr
  let tEnter := enterState os onEnterFn userData (savedState s)
  let entered' := back callee onEnterFn tEnter
  let tLeave := leaveState os onLeaveFn userData entered'
  have hEnter : Delivered os (frameBase s) userData (frameWords s) tEnter :=
    enterState_delivered onEnterFn userData hrsp hstack
  have hLeave : Delivered os (frameBase s) userData entered tLeave :=
    leaveState_delivered onLeaveFn userData (enter tEnter hEnter).back
  have hflags : SameSystem (back callee onLeaveFn tLeave).rflags s.rflags := by
    rw [← savedState_rflags]
    exact (back_rflags _ _ _).trans <| (leaveState_flags _ _ _ _).trans <|
      (back_rflags _ _ _).trans (enterState_flags _ _ _ _)
  refine ⟨tEnter, tLeave, restoredState os (back callee onLeaveFn tLeave), hEnter, hLeave,
    restoredState_restored (leave tLeave hLeave).back hflags hlen, ?_⟩
  calc exec callee (buildTrampoline os onEnterFn onLeaveFn userData relocatedAddr) s
      = exec callee (enterCall os onEnterFn userData ++ rest) (savedState s) := by
        rw [buildTrampoline, if_neg hleave, exec_saves]
    _ = afterCall onEnterFn tEnter (exec callee rest entered') :=
        exec_enterCall onEnterFn userData rest
    _ = _ := by rw [exec_leaveCall, exec_restoreCode]; rfl

end Run

end Trampoline

end Chromatic
