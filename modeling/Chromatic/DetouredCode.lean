import Chromatic.Relocation
import Chromatic.Trampoline
import Chromatic.TrapRouting
import Chromatic.Foundation.Simulation

/-!
# Detoured code

A process of the Linux x86_64 build with software breakpoints and hooks in its code, running from
whatever the memory holds: the traps and jumps written at the targets, the signal handler, the
trampolines and the relocated code. Next to it the same program instrumented, which runs the
code as it was before and at each target what the breakpoint or hook asks for.

§1 detours · §2 one instruction · §3 the process · §4 the instrumented program · §5 when the
process follows it.
-/

namespace Chromatic

open Foundation Foundation.X86 CodeRelocator Relocation

namespace DetouredCode

/-! ## §1  Detours -/

/-- What is written at a target: the trap of a breakpoint, the jump of `attach` to its
trampoline, the jump of `replace`. -/
inductive Gate where
  | breakpoint
  | attach
  | replace (replacement : Addr)
deriving DecidableEq, Repr

/-- A live entry of one of the two registries. `source` is the code that it was built from, and
`chunks` is what was emitted into its relocated code. -/
structure Detour where
  gate : Gate
  address : Addr
  self : Addr
  trampolineCode : Addr
  relocatedCode : Addr
  source : Memory
  chunks : List Chunk

def Detour.ofBreakpoint (e : BreakpointEntry) (source : Memory) (chunks : List Chunk) : Detour :=
  ⟨.breakpoint, e.address, e.self, e.trampolineCode, e.relocatedCode, source, chunks⟩

/-- `replacement` is what `replace` was given, and no hook of `attach` has one. -/
def Detour.ofHook (e : HookEntry) (replacement : Option Addr) (source : Memory)
    (chunks : List Chunk) : Detour :=
  ⟨replacement.elim .attach .replace, e.target, e.self, e.trampolineCode, e.relocatedCode,
    source, chunks⟩

namespace Detour

variable (d : Detour)

/-- The bytes written over the code. -/
def patch : List Byte :=
  match d.gate with
  | .breakpoint => bpInsn .x64
  | .attach => generatePatchBytes .x64 d.trampolineCode
  | .replace replacement => generatePatchBytes .x64 replacement

/-- `replace` builds no trampoline. -/
def HasTrampoline : Prop :=
  match d.gate with
  | .replace _ => False
  | _ => True

instance instDecidableHasTrampoline : Decidable d.HasTrampoline := by
  unfold HasTrampoline
  cases d.gate
  · exact .isTrue trivial
  · exact .isTrue trivial
  · exact .isFalse id

/-- The bytes of the instructions that were relocated. -/
def consumed : ℕ := bytesConsumed d.chunks

/-- The relocated code. -/
def block : List Byte := CodeRelocator.block d.address d.chunks

/-- `buildRelocatedCode` was asked for as many bytes as are written over. -/
def Built (cs : CsDisasm) : Prop :=
  buildRelocatedCode cs d.source d.address d.patch.length (some d.relocatedCode) =
    .ok (d.relocatedCode, d.chunks)

end Detour

/-! ## §2  One instruction -/

structure Config where
  pc : Addr
  state : State

/-- A function that is called, with the state it is called in. -/
abbrev Called : Type := Addr × State

/-- A process: its processor, the functions it calls, and the functions that trampolines call.
`signalled s` is the state in which a signal handler returns that was entered in `s`; the frame
of the signal lies below the stack. -/
structure Process where
  cpu : Cpu
  callee : Addr → State → State
  signalled : State → State
  monitor : ExceptionHandler.ExceptionContext → HandleAction × ExceptionHandler.ExceptionContext
  interceptorDispatch : Addr
  interceptorDispatchLeave : Addr
  bpDispatch : Addr

/-- Control comes to the next instruction. -/
def falls : Transfer → Bool
  | .next => true
  | .call _ => true
  | .rel _ => false
  | .jump _ => false

/-- Where a step goes whose next instruction is at `next`. -/
def land (callee : Addr → State → State) (next : Addr) (step : Step) : List Called × Config :=
  match step.transfer with
  | .next => ([], ⟨next, step.state⟩)
  | .rel d => ([], ⟨next + d, step.state⟩)
  | .jump a => ([], ⟨a, step.state⟩)
  | .call a => ([(a, step.state)], ⟨next, callee a step.state⟩)

/-- The instruction of length `n` at `a`. -/
def Process.exec (p : Process) (i : Instruction) (n : ℕ) (a : Addr) (s : State) :
    List Called × Config :=
  land p.callee (a + BitVec.ofNat 64 n) (i.exec (a + BitVec.ofNat 64 n) s)

/-- The instruction that the code `m` has at `a`. -/
def Process.insn (p : Process) (m : Memory) (a : Addr) (s : State) :
    Option (List Called × Config) :=
  (p.cpu.decode (readBytes m a 16)).map fun r => p.exec r.1 r.2 a s

/-- The trampoline of a detour. -/
def Process.trampoline (p : Process) (d : Detour) : List Trampoline.Insn :=
  match d.gate with
  | .breakpoint => Trampoline.buildTrampoline .linux p.bpDispatch 0 d.self d.relocatedCode
  | _ => Trampoline.buildTrampoline .linux p.interceptorDispatch p.interceptorDispatchLeave
      d.self d.relocatedCode

/-- A trampoline, run as a whole. -/
def Process.runTrampoline (p : Process) (d : Detour) (s : State) :
    Option (List Called × Config) :=
  let out := Trampoline.exec p.callee (p.trampoline d) s
  out.target.map fun a => (out.calls, ⟨a, out.state⟩)

/-! ## §3  The process -/

def int3 : Byte := 0xCC

/-- Where `INT3` at `a` is resumed, when a handler claims it. -/
def Process.resume (p : Process) (w : World) (a : Addr) : Option Addr :=
  match ExceptionHandler.globalSignalHandler (TrapRouting.invoke p.monitor w)
      TrapRouting.linuxX64 w.exc .sigtrap ⟨.other, 0, false, a + 1⟩ with
  | (none, ctx) => some ctx.pc
  | (some _, _) => none

def trampolineAt (T : List Detour) (pc : Addr) : Option Detour :=
  T.find? fun d => d.HasTrampoline ∧ d.trampolineCode = pc

/-- The process runs what its memory holds. Trampolines are known by where they start. -/
def Process.hooked (p : Process) (w : World) (T : List Detour) : Stepper Called Config :=
  fun c =>
    match trampolineAt T c.pc with
    | some d => p.runTrampoline d c.state
    | none =>
        if c.state.mem c.pc = int3 then
          (p.resume w c.pc).map fun a => ([], ⟨a, p.signalled c.state⟩)
        else p.insn c.state.mem c.pc c.state

/-! ## §4  The instrumented program -/

/-- Under the bytes that were written over. -/
def Detour.Under (d : Detour) (x : Addr) : Prop := InRegion d.address d.patch.length x

/-- The memory with the bytes put back that were written over. -/
def original (T : List Detour) (m : Memory) : Memory :=
  T.foldr (fun d m => writeBytes m d.address (readBytes d.source d.address d.patch.length)) m

section Original

variable {T : List Detour} {d : Detour} {m m' : Memory} {x : Addr}

/-- Outside the patch of one more detour the original is what it was. -/
theorem original_cons_outside (h : ¬ d.Under x) : original (d :: T) m x = original T m x := by
  show writeBytes (original T m) d.address _ x = original T m x
  apply writeBytes_outside
  rw [length_readBytes]
  exact h

theorem original_cons_under (h : d.Under x) : original (d :: T) m x = d.source x := by
  show writeBytes (original T m) d.address _ x = d.source x
  exact writeBytes_readBytes h

/-- Nothing else was written over. -/
theorem original_outside (h : ∀ d ∈ T, ¬ d.Under x) : original T m x = m x := by
  induction T with
  | nil => rfl
  | cons d T ih =>
      rw [original_cons_outside (h d List.mem_cons_self)]
      exact ih fun d' hd' => h d' (List.mem_cons_of_mem _ hd')

/-- Under a patch the original has the code that the patch was built from. -/
theorem original_under (hsole : ∀ d' ∈ T, d'.Under x → d' = d) (hd : d ∈ T) (hx : d.Under x) :
    original T m x = d.source x := by
  induction T with
  | nil => cases hd
  | cons d' T ih =>
      by_cases hunder : d'.Under x
      · rw [original_cons_under hunder, hsole d' List.mem_cons_self hunder]
      · rw [original_cons_outside hunder]
        rcases List.mem_cons.mp hd with rfl | hlater
        · exact absurd hx hunder
        · exact ih (fun e he => hsole e (List.mem_cons_of_mem _ he)) hlater

/-- The original at `x` depends on no other byte. -/
theorem original_congr (h : m x = m' x) : original T m x = original T m' x := by
  induction T with
  | nil => exact h
  | cons d T ih =>
      by_cases hunder : d.Under x
      · rw [original_cons_under hunder, original_cons_under hunder]
      · rw [original_cons_outside hunder, original_cons_outside hunder, ih]

end Original

/-- The start of relocated code stands for the code at the target. -/
def place (T : List Detour) (pc : Addr) : Addr :=
  match T.find? (·.relocatedCode = pc) with
  | some d => d.address
  | none => pc

/-- What a breakpoint or hook asks for where control comes to its target. -/
def Process.detour (p : Process) (d : Detour) (s : State) : Option (List Called × Config) :=
  match d.gate with
  | .breakpoint => p.runTrampoline d (p.signalled s)
  | .attach => p.runTrampoline d s
  | .replace replacement => some ([], ⟨replacement, s⟩)

/-- The program without traps and jumps in its code. It has no `INT3` of its own. -/
def Process.instrumented (p : Process) (T : List Detour) : Stepper Called Config := fun c =>
  match T.find? (·.address = c.pc) with
  | some d => p.detour d c.state
  | none =>
      let m := original T c.state.mem
      if m (place T c.pc) = int3 then none else p.insn m (place T c.pc) c.state

/-! ## §5  When the process follows it -/

/-- What a detour has in memory. -/
inductive Part where
  | code
  | block
  | entry
deriving DecidableEq, Repr

def Detour.Owns (d : Detour) : Part → Addr → Prop
  | .code, x => InRegion d.address d.consumed x
  | .block, x => InRegion d.relocatedCode d.block.length x
  | .entry, x => d.HasTrampoline ∧ x = d.trampolineCode

/-- No byte is part of two things. -/
def Apart (T : List Detour) : Prop :=
  ∀ d ∈ T, ∀ d' ∈ T, ∀ part part' x, d.Owns part x → d'.Owns part' x → d = d' ∧ part = part'

/-- Patches and relocated code are in memory, and what the latter stands for is unchanged. -/
def Intact (T : List Detour) (m : Memory) : Prop :=
  ∀ d ∈ T, Holds m d.address d.patch ∧ Holds m d.relocatedCode d.block ∧
    readBytes (original T m) d.address d.consumed = readBytes d.source d.address d.consumed

/-- Control may come here: not past the first byte that was written over, and not to a
trampoline but through its gate. -/
def Enterable (T : List Detour) (x : Addr) : Prop :=
  ∀ d ∈ T, (d.Under x → x = d.address) ∧ (d.HasTrampoline → x ≠ d.trampolineCode)

/-- An instruction of the program that the process executes as it does: relocated it behaves as
in place, or else none of it is written over; and control goes on where it may. -/
structure Followed (T : List Detour) (a : Addr) (s : State) (i : Instruction) (n : ℕ)
    (next : Config) : Prop where
  relocatable : ∀ d ∈ T, d.Under a → Relocatable (d.source a) s i
  whole : (∀ d ∈ T, ¬ d.Under a) → ∀ k < n, ∀ d ∈ T, ¬ d.Under (a + BitVec.ofNat 64 k)
  goes : Enterable T next.pc ∨ falls (i.exec (a + BitVec.ofNat 64 n) s).transfer = true ∧
    ∃ d ∈ T, d.Under a ∧ d.Under (a + BitVec.ofNat 64 n)

/-- A step of the instrumented program that the process can follow. -/
structure Proper (p : Process) (T : List Detour) (c : Config) : Prop where
  before : Intact T c.state.mem
  after : ∀ es c', p.instrumented T c = some (es, c') → Intact T c'.state.mem
  replaced : ∀ d ∈ T, c.pc = d.address → ∀ r, d.gate = .replace r → Enterable T r
  followed : (∀ d ∈ T, c.pc ≠ d.address) → ∀ i n,
    p.cpu.decode (readBytes (original T c.state.mem) (place T c.pc) 16) = some (i, n) →
    Followed T (place T c.pc) c.state i n (p.exec i n (place T c.pc) c.state).2

/-- The traps of the table's breakpoints reach them. -/
def Routed (w : World) (T : List Detour) : Prop :=
  TrapRouting.Armed w ∧ ∀ d ∈ T, d.gate = .breakpoint →
    (∃ e, w.bp.bpByAddress.lookup d.address = some e ∧ e.trampolineCode = d.trampolineCode) ∧
      (TrapRouting.Trap.int3 d.address).Unambiguous w

/-- The instruction that bytes begin with does not depend on what follows it. -/
def SelfDelimiting (cpu : Cpu) : Prop :=
  ∀ bs r rest, cpu.decode bs = some r → cpu.decode (bs.take r.2 ++ rest) = some r

/-- Capstone decodes the instructions that were relocated as the processor does. -/
def Decoded (cs : CsDisasm) (cpu : Cpu) (T : List Detour) : Prop :=
  ∀ d ∈ T, DecodesFor cs cpu d.source d.address d.chunks

/-- A table of detours that were built by the relocator. -/
structure Table (cs : CsDisasm) (w : World) (T : List Detour) : Prop where
  built : ∀ d ∈ T, d.Built cs
  apart : Apart T
  routed : Routed w T

/-- Where the process is when the instrumented program is at `c`: there, or in the relocated code
of the instructions it is among. -/
def Corresponds (T : List Detour) (c c' : Config) : Prop :=
  c'.state = c.state ∧
    (c'.pc = c.pc ∧ Enterable T c.pc ∨
      ∃ d ∈ T, ∃ done rest, d.chunks = done ++ rest ∧ done ≠ [] ∧ rest ≠ [] ∧
        c.pc = d.address + BitVec.ofNat 64 (bytesConsumed done) ∧
        c'.pc = d.relocatedCode + BitVec.ofNat 64 (done.flatMap Chunk.code).length)

end DetouredCode

end Chromatic
