import Chromatic.CodePatching
import Chromatic.Transparency
import Chromatic.Foundation.Simulation
import Chromatic.Foundation.HexText

/-!
# The script side of the interceptor

`Interceptor.attach` of `interceptor/index.ts` hands the callbacks views of the saved
words: `args` by a table of word offsets, `retval` at a fixed one. Both are compared
here with what the x86_64 trampoline saves and with when it makes its calls.

§1 pointers in text · §2 args and retval · §3 dispatch functions · §4 the registers
behind args · §5 calls through a hook.
-/

namespace Chromatic

open Foundation Foundation.X86 Trampoline Transparency

namespace InterceptorScript

/-! ## §1  Pointers in text -/

/-- `parseInt(s, 16)` of a text without sign or leading blanks; `none` is `NaN`. -/
def parseInt16 (s : String) : Option ℕ :=
  let cs := match s.toList with
    | '0' :: 'x' :: cs => cs
    | '0' :: 'X' :: cs => cs
    | cs => cs
  match cs with
  | [] => none
  | c :: _ => if (hexDigit c).isSome then some (readHex 0 cs) else none

/-- `new NativePointer(parseInt(s, 16))`: the number is a double. -/
def pointerFromText (s : String) : Addr :=
  match parseInt16 s with
  | none => 0
  | some n => BitVec.ofNat 64 (roundDouble n)

theorem parseInt16_toHexAddr (n : ℕ) : parseInt16 (toHexAddr n) = some n := by
  obtain ⟨hread, hdigits⟩ := readHex_toDigits n
  have htext : (toHexAddr n).toList = '0' :: 'x' :: Nat.toDigits 16 n := by
    simp [toHexAddr]
  unfold parseInt16
  rw [htext]
  cases hcs : Nat.toDigits 16 n with
  | nil => exact absurd hcs Nat.toDigits_ne_nil
  | cons c cs =>
      rw [hcs] at hread hdigits
      simp [hread, hdigits c List.mem_cons_self]

/-- Addresses below 2^53 survive the trip through the text and the number. -/
theorem pointerFromText_toHexAddr {a : Addr} (h : a.toNat < 2 ^ 53) :
    pointerFromText (toHexAddr a.toNat) = a := by
  simp [pointerFromText, parseInt16_toHexAddr, roundDouble_of_lt h]

/-! ## §2  args and retval -/

def regOffsets : List ℕ := [7, 6, 3, 2, 8, 9]

def argPtr (arch : Arch) (cpuContextPtr : String) (idx : ℕ) : Option Addr :=
  match arch with
  | .arm64 => some (slot (pointerFromText cpuContextPtr) idx)
  | .x64 => regOffsets[idx]?.map (slot (pointerFromText cpuContextPtr))

def argsGet (arch : Arch) (mem : Memory) (cpuContextPtr : String) (idx : ℕ) : Addr :=
  match argPtr arch cpuContextPtr idx with
  | none => 0
  | some p => read64 mem p

def argsSet (arch : Arch) (cpuContextPtr : String) (idx : ℕ) (value : Addr) (mem : Memory) :
    Memory :=
  match argPtr arch cpuContextPtr idx with
  | none => mem
  | some p => write64 mem p value

def retvalPtr (arch : Arch) (cpuContextPtr : String) : Addr :=
  match arch with
  | .arm64 => pointerFromText cpuContextPtr
  | .x64 => slot (pointerFromText cpuContextPtr) 14

def retval (arch : Arch) (mem : Memory) (cpuContextPtr : String) : Addr :=
  read64 mem (retvalPtr arch cpuContextPtr)

def retvalReplace (arch : Arch) (cpuContextPtr : String) (value : Addr) (mem : Memory) :
    Memory :=
  write64 mem (retvalPtr arch cpuContextPtr) value

/-! ## §3  Dispatch functions -/

/-- The text the dispatch functions pass on. -/
def contextText (os : Os) (t : State) : String := toHexAddr (t.reg (arg0 os)).toNat

/-- A call that keeps the calling convention and whose callback does `edit` to the
saved words and the return address above them. -/
structure Obeys (os : Os) (edit : Memory → Memory) (t t' : State) : Prop where
  rsp : t'.reg .rsp = t.reg .rsp
  words : ∀ x, InRegion (t.reg .rsp + reserved os) 136 x → t'.mem x = edit t.mem x

/-- The entry stack pointer of user code: it leaves room for the saved words. -/
def UserStack (s : State) : Prop :=
  128 ≤ (s.reg .rsp).toNat ∧ (s.reg .rsp).toNat < 2 ^ 47

section Dispatch

variable {os : Os} {s t t' : State} {userData : Addr} {words : List (BitVec 64)}

theorem pointerFromText_context (hsp : UserStack s)
    (h : Delivered os (frameBase s) userData words t) :
    pointerFromText (contextText os t) = frameBase s := by
  obtain ⟨hlow, hhigh⟩ := hsp
  rw [contextText, h.ctx]
  apply pointerFromText_toHexAddr
  unfold frameBase
  bv_omega

theorem Obeys.returned {edit : Memory → Memory} {words' : List (BitVec 64)}
    (h : Obeys os edit t t') (hd : Delivered os (frameBase s) userData words t)
    (hlen : words'.length = 17) (hedit : Stacked (edit t.mem) (frameBase s) words') :
    Returned os (frameBase s) words' t' where
  rsp := h.rsp.trans hd.rsp
  words := by
    refine hedit.congr (by omega) fun x hx => h.words x ?_
    rw [hd.rsp, BitVec.sub_add_cancel]
    simpa [hlen] using hx

end Dispatch

/-! ## §4  The registers behind args -/

/-- The integer argument registers of the System V convention. -/
def argReg : Fin 6 → Reg
  | 0 => .rdi
  | 1 => .rsi
  | 2 => .rdx
  | 3 => .rcx
  | 4 => .r8
  | 5 => .r9

/-- The registers whose saved words the table of offsets leads to. -/
def slotReg : Fin 6 → Reg
  | 0 => .r8
  | 1 => .r9
  | 2 => .r12
  | 3 => .r13
  | 4 => .rdi
  | 5 => .rsi

theorem slotReg_ne_argReg : ∀ i, slotReg i ≠ argReg i := by decide

/-- Entry `i` of the table is the place of `slotReg i` among the saved words. -/
theorem regOffsets_slotReg : ∀ i : Fin 6, ∃ off < 15,
    regOffsets[(i : ℕ)]? = some off ∧ restoredRegs[off]? = some (slotReg i) := by
  decide

/-- No register is saved twice. -/
theorem restoredRegs_inj {j k : ℕ} {r : Reg} (hj : restoredRegs[j]? = some r)
    (hk : restoredRegs[k]? = some r) : j = k := by
  obtain ⟨hlt, -⟩ := List.getElem?_eq_some_iff.mp hj
  exact (List.getElem?_inj hlt (by decide)).mp (hj.trans hk.symm)

/-- With one saved word changed, one register is. -/
theorem Restored.update {s out : State} {off : ℕ} {r : Reg} {v : Addr} (hoff : off < 15)
    (hslot : restoredRegs[off]? = some r) (h : Restored s ((frameWords s).set off v) out) :
    out.reg = Function.update s.reg r v ∧ out.rflags = s.rflags ∧
      read64 out.mem (out.reg .rsp) = read64 s.mem (s.reg .rsp) := by
  have hne : r ≠ .rsp := by
    rintro rfl
    exact absurd (List.mem_of_getElem? hslot) (by decide)
  refine ⟨?_, ?_, ?_⟩
  · funext r'
    by_cases hr' : r' = .rsp
    · rw [hr', h.rsp, Function.update_of_ne hne.symm]
    -- every other register is popped from the word it was pushed to
    · obtain ⟨k, hk, hreg⟩ := mem_restoredRegs r' hr'
      by_cases hoffk : off = k
      · subst hoffk
        obtain rfl : r = r' := Option.some.inj (hslot.symm.trans hreg)
        rw [Function.update_self]
        apply h.regs off r v hslot
        simp [hoff.trans (by decide : 15 < 17)]
      · have hdiff : r' ≠ r := by
          intro heq
          exact hoffk (restoredRegs_inj hslot (heq ▸ hreg))
        rw [Function.update_of_ne hdiff]
        apply h.regs k r' _ hreg
        rw [List.getElem?_set_ne hoffk]
        exact frameWords_reg s hreg
  · rw [← loadFlags_self s.rflags]
    apply h.rflags
    rw [List.getElem?_set_ne (by omega)]
    rfl
  · apply h.returnsTo _
    rw [List.getElem?_set_ne (by omega)]
    rfl

section Args

variable {os : Os} {callee : Addr → State → State} {s : State} {i : Fin 6} {v : Addr}
  {onEnterFn onLeaveFn userData relocatedAddr : Addr}

/-- What `args[i]` reads, and what an assignment to it leaves for the function. -/
theorem args_effect (hsp : UserStack s) (hleave : onLeaveFn ≠ 0)
    (enter : ∀ t, Obeys os (argsSet .x64 (contextText os t) i v) t (callee onEnterFn t))
    (leave : ∀ t, Obeys os id t (callee onLeaveFn t)) :
    ∃ tEnter tLeave out,
      exec callee (buildTrampoline os onEnterFn onLeaveFn userData relocatedAddr) s =
        ⟨[(onEnterFn, tEnter), (onLeaveFn, tLeave)], out, some relocatedAddr⟩ ∧
      argsGet .x64 tEnter.mem (contextText os tEnter) i = s.reg (slotReg i) ∧
      out.reg = Function.update s.reg (slotReg i) v ∧ out.rflags = s.rflags := by
  obtain ⟨off, hoff, htable, hslot⟩ := regOffsets_slotReg i
  have argPtr_eq : ∀ {t words}, Delivered os (frameBase s) userData words t →
      argPtr .x64 (contextText os t) i = some (slot (frameBase s) off) := by
    intro t words hd
    simp [argPtr, htable, pointerFromText_context hsp hd]
  let entered := (frameWords s).set off v
  have hentered : entered.length = 17 := by simp [entered]
  have enterReturns : ∀ t, Delivered os (frameBase s) userData (frameWords s) t →
      Returned os (frameBase s) entered (callee onEnterFn t) := by
    intro t hd
    apply (enter t).returned hd hentered
    rw [argsSet, argPtr_eq hd]
    exact hd.words.write (by omega) (by simp)
  have leaveReturns : ∀ t, Delivered os (frameBase s) userData entered t →
      Returned os (frameBase s) entered (callee onLeaveFn t) := by
    intro t hd
    exact (leave t).returned hd hentered hd.words
  obtain ⟨tEnter, tLeave, out, hEnter, -, hout, hexec⟩ :=
    exec_buildTrampoline hleave hentered enterReturns leaveReturns
  obtain ⟨hregs, hflags, -⟩ := Restored.update hoff hslot hout
  refine ⟨tEnter, tLeave, out, hexec, ?_, hregs, hflags⟩
  rw [argsGet, argPtr_eq hEnter]
  exact hEnter.words off _ (frameWords_reg s hslot)

end Args

/-- In `onEnter`, `args[i]` reads argument `i`, and after `args[i] = v` the function
starts with `v` in that argument's register and all else unchanged. -/
def ArgsAgree (os : Os) (callee : Addr → State → State)
    (onEnterFn onLeaveFn userData relocatedAddr : Addr) (s : State) (i : Fin 6) (v : Addr) :
    Prop :=
  ∃ tEnter calls out,
    exec callee (buildTrampoline os onEnterFn onLeaveFn userData relocatedAddr) s =
      ⟨(onEnterFn, tEnter) :: calls, out, some relocatedAddr⟩ ∧
    argsGet .x64 tEnter.mem (contextText os tEnter) i = s.reg (argReg i) ∧
    out.reg = Function.update s.reg (argReg i) v ∧ out.rflags = s.rflags

/-- **args and the saved registers.** They agree on a call exactly when the register
`args[i]` leads to holds argument `i`'s value and that same value is assigned. -/
theorem argsAgree_iff {os : Os} {callee : Addr → State → State} {s : State} {i : Fin 6}
    {v onEnterFn onLeaveFn userData relocatedAddr : Addr} (hsp : UserStack s)
    (hleave : onLeaveFn ≠ 0)
    (enter : ∀ t, Obeys os (argsSet .x64 (contextText os t) i v) t (callee onEnterFn t))
    (leave : ∀ t, Obeys os id t (callee onLeaveFn t)) :
    ArgsAgree os callee onEnterFn onLeaveFn userData relocatedAddr s i v ↔
      s.reg (slotReg i) = s.reg (argReg i) ∧ v = s.reg (argReg i) := by
  obtain ⟨tEnter, tLeave, out, hexec, hget, hregs, hflags⟩ :=
    @args_effect os callee s i v onEnterFn onLeaveFn userData relocatedAddr hsp hleave enter
      leave
  constructor
  · rintro ⟨tEnter', calls, out', hexec', hget', hregs', -⟩
    have hsame := hexec.symm.trans hexec'
    simp only [Outcome.mk.injEq, List.cons.injEq, Prod.mk.injEq, true_and, and_true] at hsame
    obtain ⟨⟨rfl, -⟩, rfl⟩ := hsame
    have hassigned : Function.update s.reg (slotReg i) v (argReg i) = v := by
      rw [← hregs, hregs', Function.update_self]
    rw [Function.update_of_ne (slotReg_ne_argReg i).symm] at hassigned
    exact ⟨hget.symm.trans hget', hassigned.symm⟩
  · rintro ⟨hslot, rfl⟩
    refine ⟨tEnter, _, out, hexec, hget.trans hslot, ?_, hflags⟩
    rw [hregs, Function.update_eq_self, ← hslot, Function.update_eq_self]

/-- Callbacks of which the first, at address 1, assigns `args[i] = v`. -/
def assigning (os : Os) (i : Fin 6) (v : Addr) (fn : Addr) (t : State) : State :=
  if fn = 1 then { t with mem := argsSet .x64 (contextText os t) i v t.mem } else t

theorem assigning_enter (os : Os) (i : Fin 6) (v : Addr) (t : State) :
    Obeys os (argsSet .x64 (contextText os t) i v) t (assigning os i v 1 t) :=
  ⟨rfl, fun _ _ => rfl⟩

theorem assigning_leave (os : Os) (i : Fin 6) (v : Addr) (t : State) :
    Obeys os id t (assigning os i v 2 t) :=
  ⟨rfl, fun _ _ => rfl⟩

/-- Every register holds the address `0x7000`. -/
def uniformState : State := ⟨fun _ => 0x7000, 0, fun _ => 0⟩

theorem argsAgree_iff_uniform :
    ArgsAgree .linux (assigning .linux 0 0x7000) 1 2 0 0x9000 uniformState 0 0x7000 ↔
      uniformState.reg (slotReg 0) = uniformState.reg (argReg 0) ∧
        (0x7000 : Addr) = uniformState.reg (argReg 0) :=
  argsAgree_iff ⟨by decide, by decide⟩ (by decide) (assigning_enter _ _ _) (assigning_leave _ _ _)

/-- A first argument of 7, with 5 in `r8`. -/
def firstArgument : State :=
  ⟨fun r => if r = .rdi then 7 else if r = .r8 then 5 else 0x7000, 0, fun _ => 0⟩

/-- `args[0]` reads `r8`, and the assignment goes there too. -/
theorem args_misread :
    UserStack firstArgument ∧
      ¬ ArgsAgree .linux (assigning .linux 0 9) 1 2 0 0x9000 firstArgument 0 9 := by
  have hsp : UserStack firstArgument := ⟨by decide, by decide⟩
  refine ⟨hsp, ?_⟩
  rintro ⟨tEnter', calls, out', hexec', hget', -, -⟩
  obtain ⟨tEnter, tLeave, out, hexec, hget, -, -⟩ :=
    @args_effect .linux _ firstArgument 0 9 1 2 0 0x9000 hsp (by decide)
      (assigning_enter _ _ _) (assigning_leave _ _ _)
  have hsame := hexec.symm.trans hexec'
  simp only [Outcome.mk.injEq, List.cons.injEq, Prod.mk.injEq, true_and, and_true] at hsame
  obtain ⟨⟨rfl, -⟩, rfl⟩ := hsame
  have hvals := hget.symm.trans hget'
  exact absurd hvals (by decide)

/-! ## §5  Calls through a hook -/

/-- A function with an `attach` hook: where its jump, its trampoline and its relocated
instructions are, what the trampoline calls, and what the function does from its first
instruction until it returns. -/
structure HookedFunction where
  target : Addr
  trampolineCode : Addr
  relocatedCode : Addr
  onEnterFn : Addr
  onLeaveFn : Addr
  hookEntry : Addr
  body : State → State
  apart : [target, trampolineCode, relocatedCode].Nodup

inductive CallEvent where
  | dispatch (fn : Addr) (t : State)
  | body (entry : State)

/-- Where the jump at `a` leads, if `JMP [RIP+0]` is there. -/
def jumpAt (m : Memory) (a : Addr) : Option Addr :=
  if readBytes m a 6 = [0xFF, 0x25, 0x00, 0x00, 0x00, 0x00] then some (read64 m (a + 6))
  else none

namespace HookedFunction

/-- The code of the trampoline. -/
def trampoline (h : HookedFunction) (os : Os) : List Insn :=
  buildTrampoline os h.onEnterFn h.onLeaveFn h.hookEntry h.relocatedCode

/-- A thread in the hooked function. The function returns to the word on top of the stack that
it was entered with; in the rest of the program the thread is no longer followed. -/
def step (h : HookedFunction) (os : Os) (callee : Addr → State → State) :
    Stepper CallEvent (Addr × State)
  | (pc, s) =>
      if pc = h.target then
        (jumpAt s.mem pc).map fun a => ([], (a, s))
      else if pc = h.trampolineCode then
        let out := exec callee (h.trampoline os) s
        out.target.map fun a => (out.calls.map fun c => .dispatch c.1 c.2, (a, out.state))
      else if pc = h.relocatedCode then
        some ([.body s], (read64 s.mem (s.reg .rsp), h.body s))
      else none

/-- The call that entered the target in `s` is back at its caller. -/
def Returns (h : HookedFunction) (os : Os) (callee : Addr → State → State) (s : State)
    (events : List CallEvent) (returned : State) : Prop :=
  ∃ n, (h.step os callee).steps n (h.target, s) =
    some (events, (read64 s.mem (s.reg .rsp), returned))

/-- `onEnter` runs before the body and `onLeave` after it, the latter is given the
body's `rax` as its `retval`, and with `retval.replace(v)` the caller gets `v`. -/
def LeaveHonoured (h : HookedFunction) (os : Os) (callee : Addr → State → State) (s : State)
    (v : Addr) : Prop :=
  ∃ events returned tEnter entry tLeave, h.Returns os callee s events returned ∧
    [.dispatch h.onEnterFn tEnter, .body entry, .dispatch h.onLeaveFn tLeave].Sublist events ∧
    retval .x64 tLeave.mem (contextText os tLeave) = (h.body entry).reg .rax ∧
    returned.reg .rax = v

/-- The patch is in place, and the call comes from the rest of the program. -/
structure Called (h : HookedFunction) (s : State) : Prop where
  patched : readBytes s.mem h.target 14 = generatePatchBytes .x64 h.trampolineCode
  outside : read64 s.mem (s.reg .rsp) ∉ [h.target, h.trampolineCode, h.relocatedCode]

/-- Of the calling convention: a dispatch function that comes back with its stack pointer and
has left the return address of the hooked call alone. -/
def KeepsReturn (h : HookedFunction) (os : Os) (callee : Addr → State → State) (fn : Addr)
    (s : State) : Prop :=
  ∀ t words, Delivered os (frameBase s) h.hookEntry words t →
    (callee fn t).reg .rsp = t.reg .rsp ∧
      read64 (callee fn t).mem (s.reg .rsp) = read64 t.mem (s.reg .rsp)

end HookedFunction

section Calls

variable {h : HookedFunction} {os : Os} {callee : Addr → State → State} {s out : State}
  {events : List CallEvent}

theorem jumpAt_patched {m : Memory} {a j : Addr}
    (hpatched : readBytes m a 14 = generatePatchBytes .x64 j) : jumpAt m a = some j := by
  have hsplit : readBytes m a 6 ++ readBytes m (a + 6) 8 =
      [0xFF, 0x25, 0x00, 0x00, 0x00, 0x00] ++ le64 j := by
    rw [show (6 : Addr) = BitVec.ofNat 64 6 from rfl, ← readBytes_add]
    exact hpatched
  obtain ⟨hopcode, hliteral⟩ := List.append_inj hsplit (by simp)
  rw [jumpAt, if_pos hopcode, read64, hliteral, ofLe64_le64]

theorem slot_return (s : State) : slot (frameBase s) 16 = s.reg .rsp := by
  unfold slot frameBase
  bv_omega

theorem step_target (hcalled : h.Called s) :
    h.step os callee (h.target, s) = some ([], (h.trampolineCode, s)) := by
  rw [HookedFunction.step, if_pos rfl, jumpAt_patched hcalled.patched]
  rfl

theorem step_trampoline {calls : List (Addr × State)}
    (hexec : exec callee (h.trampoline os) s = ⟨calls, out, some h.relocatedCode⟩) :
    h.step os callee (h.trampolineCode, s) =
      some (calls.map fun c => .dispatch c.1 c.2, (h.relocatedCode, out)) := by
  have hne : h.trampolineCode ≠ h.target := by
    rintro heq
    have := h.apart
    simp [heq] at this
  rw [HookedFunction.step, if_neg hne, if_pos rfl, hexec]
  rfl

theorem step_relocated :
    h.step os callee (h.relocatedCode, s) =
      some ([.body s], (read64 s.mem (s.reg .rsp), h.body s)) := by
  have hne : h.relocatedCode ≠ h.target ∧ h.relocatedCode ≠ h.trampolineCode := by
    constructor <;>
    · rintro heq
      have := h.apart
      simp [heq] at this
  rw [HookedFunction.step, if_neg hne.1, if_neg hne.2, if_pos rfl]

theorem step_outside {pc : Addr}
    (hpc : pc ∉ [h.target, h.trampolineCode, h.relocatedCode]) :
    h.step os callee (pc, s) = none := by
  simp only [List.mem_cons, List.not_mem_nil, or_false, not_or] at hpc
  obtain ⟨htarget, htrampoline, hrelocated⟩ := hpc
  rw [HookedFunction.step, if_neg htarget, if_neg htrampoline, if_neg hrelocated]

/-- **A call through the hook.** The trampoline makes both of its calls, in the order in which it
contains them, before the function starts, and the function returns to its caller. -/
theorem hooked_call (hcalled : h.Called s) (hleave : h.onLeaveFn ≠ 0)
    (enter : h.KeepsReturn os callee h.onEnterFn s)
    (leave : h.KeepsReturn os callee h.onLeaveFn s) :
    ∃ tEnter tLeave entry,
      (h.step os callee).steps 3 (h.target, s) =
        some ([.dispatch h.onEnterFn tEnter, .dispatch h.onLeaveFn tLeave, .body entry],
          (read64 s.mem (s.reg .rsp), h.body entry)) ∧
      Delivered os (frameBase s) h.hookEntry (frameWords s) tEnter ∧
      Delivered os (frameBase s) h.hookEntry
        (wordsAt (frameBase s) (callee h.onEnterFn tEnter).mem) tLeave ∧
      FromSlots s (callee h.onLeaveFn tLeave).mem entry := by
  let tEnter := entering os h.onEnterFn h.hookEntry s
  let entered := back callee h.onEnterFn tEnter
  let tLeave := leaveState os h.onLeaveFn h.hookEntry entered
  let left := back callee h.onLeaveFn tLeave
  have hEnter : Delivered os (frameBase s) h.hookEntry (frameWords s) tEnter :=
    entering_delivered
  obtain ⟨henterRsp, henterReturn⟩ := enter tEnter _ hEnter
  have hLeave : Delivered os (frameBase s) h.hookEntry (wordsAt (frameBase s) entered.mem)
      tLeave := leaving_delivered (henterRsp.trans hEnter.rsp)
  obtain ⟨hleaveRsp, hleaveReturn⟩ := leave tLeave _ hLeave
  have hentry : FromSlots s left.mem (restoredState os left) :=
    fromSlots_restoredState (hleaveRsp.trans hLeave.rsp) (left_flags entered_flags)
  -- the return address is the seventeenth word of the frame, which neither call changes
  have hreturn : read64 (restoredState os left).mem ((restoredState os left).reg .rsp) =
      read64 s.mem (s.reg .rsp) := by
    calc read64 (restoredState os left).mem ((restoredState os left).reg .rsp)
        = read64 (callee h.onLeaveFn tLeave).mem (s.reg .rsp) := by
          rw [restoredState_mem, hentry.rsp, back_mem]
      _ = read64 (callee h.onEnterFn tEnter).mem (s.reg .rsp) := hleaveReturn
      _ = read64 tEnter.mem (s.reg .rsp) := henterReturn
      _ = read64 s.mem (s.reg .rsp) := by
          rw [← slot_return s]
          exact hEnter.words 16 _ (by rw [slot_return]; rfl)
  have htrampoline := @step_trampoline h os callee s _ _ (exec_two hleave)
  refine ⟨tEnter, tLeave, restoredState os left, ?_, hEnter, hLeave, hentry⟩
  have hbody := @step_relocated h os callee (restoredState os left)
  rw [hreturn] at hbody
  exact Stepper.step_then (step_target hcalled) <| Stepper.step_then htrampoline <|
    (Stepper.steps_one _).trans hbody

/-- The call has one way of getting back to its caller. -/
theorem Returns.unique {n : ℕ} {events' : List CallEvent} {out' : State}
    (hcalled : h.Called s)
    (hrun : (h.step os callee).steps n (h.target, s) =
      some (events, (read64 s.mem (s.reg .rsp), out)))
    (hreturns : h.Returns os callee s events' out') : events' = events ∧ out' = out := by
  obtain ⟨m, hrun'⟩ := hreturns
  have hstops : ∀ t, h.step os callee (read64 s.mem (s.reg .rsp), t) = none :=
    fun t => step_outside hcalled.outside
  obtain ⟨hevents, hstate⟩ := Stepper.steps_stop_unique hrun' (hstops _) hrun (hstops _)
  exact ⟨hevents, (Prod.mk.inj hstate).2⟩

theorem not_dispatch_after_body {enterFn leaveFn : Addr}
    {tEnter tLeave entry tEnter' tLeave' entry' : State} :
    ¬ [.dispatch enterFn tEnter', .body entry', .dispatch leaveFn tLeave'].Sublist
      [.dispatch enterFn tEnter, .dispatch leaveFn tLeave, CallEvent.body entry] := by
  intro hsub
  have hlast := hsub.eq_of_length rfl
  cases hlast

end Calls

section Leave

variable {h : HookedFunction} {os : Os} {callee : Addr → State → State} {s : State}

/-- **onLeave.** It runs before the body, is given the `rax` of the entry as `onEnter` left it,
and what it puts there is what the body starts with: no call is as `attach` promises. -/
theorem onLeave_before_body (hcalled : h.Called s) (hleave : h.onLeaveFn ≠ 0)
    (enter : h.KeepsReturn os callee h.onEnterFn s)
    (leave : h.KeepsReturn os callee h.onLeaveFn s) :
    (∃ tEnter tLeave entry,
      h.Returns os callee s
        [.dispatch h.onEnterFn tEnter, .dispatch h.onLeaveFn tLeave, .body entry]
        (h.body entry) ∧
      (UserStack s →
        retval .x64 tEnter.mem (contextText os tEnter) = s.reg .rax ∧
        retval .x64 tLeave.mem (contextText os tLeave) =
          retval .x64 (callee h.onEnterFn tEnter).mem (contextText os tEnter) ∧
        entry.reg .rax =
          retval .x64 (callee h.onLeaveFn tLeave).mem (contextText os tLeave))) ∧
      ∀ v, ¬ h.LeaveHonoured os callee s v := by
  obtain ⟨tEnter, tLeave, entry, hrun, hEnter, hLeave, hentry⟩ :=
    hooked_call hcalled hleave enter leave
  refine ⟨⟨tEnter, tLeave, entry, ⟨3, hrun⟩, fun hsp => ?_⟩, ?_⟩
  · have hctxEnter := pointerFromText_context hsp hEnter
    have hctxLeave := pointerFromText_context hsp hLeave
    simp only [retval, retvalPtr, hctxEnter, hctxLeave]
    -- `rax` was pushed first of the general registers: word 14 of the frame
    refine ⟨hEnter.words 14 _ (frameWords_reg s rfl), ?_, hentry.regs 14 .rax rfl⟩
    exact hLeave.words 14 _ (wordsAt_getElem? (by decide))
  · rintro v ⟨events, returned, tEnter', entry', tLeave', hreturns, hsub, -, -⟩
    obtain ⟨rfl, -⟩ := Returns.unique hcalled hrun hreturns
    exact not_dispatch_after_body hsub

end Leave

/-- Callbacks of which the second, at address 2, replaces the return value by `v`. -/
def replacing (os : Os) (v : Addr) (fn : Addr) (t : State) : State :=
  if fn = 2 then { t with mem := retvalReplace .x64 (contextText os t) v t.mem } else t

/-- A function that returns 7. -/
def returnsSeven : HookedFunction where
  target := 0x1000
  trampolineCode := 0x7000
  relocatedCode := 0x9000
  onEnterFn := 1
  onLeaveFn := 2
  hookEntry := 0x30
  body s := s.pop.2.set .rax 7
  apart := by decide

/-- The function is called from 0x5000. -/
def callsSeven : State where
  reg := fun _ => 0x20000
  rflags := 0
  mem := write64 (writeBytes (fun _ => 0) 0x1000 (generatePatchBytes .x64 0x7000)) 0x20000 0x5000

theorem called_seven : returnsSeven.Called callsSeven := ⟨by decide, by decide⟩

theorem replacing_enter : returnsSeven.KeepsReturn .linux (replacing .linux 9) 1 callsSeven :=
  fun _ _ _ => ⟨rfl, rfl⟩

theorem replacing_leave : returnsSeven.KeepsReturn .linux (replacing .linux 9) 2 callsSeven := by
  intro t words hd
  have hptr : retvalPtr .x64 (contextText .linux t) = slot (frameBase callsSeven) 14 := by
    rw [retvalPtr, pointerFromText_context ⟨by decide, by decide⟩ hd]
  refine ⟨rfl, ?_⟩
  show read64 (retvalReplace .x64 (contextText .linux t) 9 t.mem) _ = _
  rw [retvalReplace, hptr, ← slot_return callsSeven]
  exact read64_write64_apart (slot_apart (by decide) (by decide) (by decide))

theorem onLeave_before_body_seven :
    (∃ tEnter tLeave entry,
      returnsSeven.Returns .linux (replacing .linux 9) callsSeven
        [.dispatch 1 tEnter, .dispatch 2 tLeave, .body entry] (returnsSeven.body entry) ∧
      entry.reg .rax = retval .x64 (replacing .linux 9 2 tLeave).mem (contextText .linux tLeave)) ∧
      ¬ returnsSeven.LeaveHonoured .linux (replacing .linux 9) callsSeven 9 := by
  obtain ⟨⟨tEnter, tLeave, entry, hreturns, hvalues⟩, hnot⟩ :=
    onLeave_before_body called_seven (by decide) replacing_enter replacing_leave
  exact ⟨⟨tEnter, tLeave, entry, hreturns, (hvalues ⟨by decide, by decide⟩).2.2⟩, hnot 9⟩

/-- With `retval.replace(9)` the caller gets 7. -/
theorem replace_overwritten :
    returnsSeven.Called callsSeven ∧
      (∃ events returned, returnsSeven.Returns .linux (replacing .linux 9) callsSeven events
        returned ∧ returned.reg .rax = 7) ∧
      ¬ returnsSeven.LeaveHonoured .linux (replacing .linux 9) callsSeven 9 := by
  obtain ⟨tEnter, tLeave, entry, hrun, -⟩ :=
    hooked_call called_seven (by decide) replacing_enter replacing_leave
  refine ⟨called_seven, ⟨_, _, ⟨3, hrun⟩, State.set_reg_self _ _ _⟩, ?_⟩
  rintro ⟨events, returned, -, -, -, hreturns, -, -, hnine⟩
  obtain ⟨-, rfl⟩ := Returns.unique called_seven hrun hreturns
  exact absurd ((State.set_reg_self _ _ _).symm.trans hnine) (by decide)

end InterceptorScript

end Chromatic
