import Chromatic.DetouredCode
import Chromatic.Transparency

/-!
# Runs of detoured code

A process with breakpoints and hooks does what the instrumented program does, run by run: it
makes the same calls in the same states, and is in the same state wherever control is outside
the instructions that were relocated.

§1 memory · §2 what the relocator built · §3 instructions of the process · §4 relocated
instructions · §5 gates · §6 whole runs.
-/

namespace Chromatic

open Foundation Foundation.X86 CodeRelocator Relocation

namespace DetouredCode

variable {cs : CsDisasm} {p : Process} {w : World} {T : List Detour} {d d' : Detour} {m m' : Memory}
  {a b x : Addr} {s : State}

/-! ## §1  Memory -/

theorem byte_eq_of_readBytes_eq {n k : ℕ} (h : readBytes m a n = readBytes m' b n) (hk : k < n) :
    m (a + BitVec.ofNat 64 k) = m' (b + BitVec.ofNat 64 k) := by
  have hbyte := congrArg (·[k]?) h
  simpa [readBytes, hk] using hbyte

/-- Held bytes decode as they do by themselves. -/
theorem decode_held {cpu : Cpu} (hcpu : SelfDelimiting cpu) {bs : List Byte} {i : Instruction}
    {n : ℕ} (hdec : cpu.decode bs = some (i, n)) (hn : n ≤ 16) (hheld : Holds m a bs) :
    cpu.decode (readBytes m a 16) = some (i, n) := by
  have hlen := (Cpu.decode_take hdec).1
  have htake : bs.take n = readBytes m a n := by
    rw [← hheld]
    exact take_readBytes m a hlen
  have hall : readBytes m a 16 = bs.take n ++ (readBytes m a 16).drop n := by
    rw [htake, ← readBytes_take m a hn, List.take_append_drop]
  rw [hall]
  exact hcpu bs (i, n) _ hdec

/-- So do the bytes of an instruction somewhere else. -/
theorem decode_copied {cpu : Cpu} (hcpu : SelfDelimiting cpu) {i : Instruction} {n : ℕ}
    (hdec : cpu.decode (readBytes m a 16) = some (i, n))
    (hsame : readBytes m' b n = readBytes m a n) :
    cpu.decode (readBytes m' b 16) = some (i, n) := by
  obtain ⟨hlen, htake⟩ := Cpu.decode_take hdec
  rw [length_readBytes] at hlen
  rw [readBytes_take m a hlen] at htake
  apply decode_held hcpu htake hlen
  rw [Holds, length_readBytes]
  exact hsame

/-! ## §2  What the relocator built -/

theorem ChunksOf.drop {mem : Memory} {done rest : List Chunk}
    (h : ChunksOf cs mem a (done ++ rest)) :
    ChunksOf cs mem (a + BitVec.ofNat 64 (bytesConsumed done)) rest := by
  induction done generalizing a with
  | nil => simpa [bytesConsumed] using h
  | cons c done ih =>
      obtain ⟨-, -, -, hrest⟩ := h
      have hnext := ih hrest
      rwa [BitVec.add_assoc, ← BitVec.ofNat_add, ← bytesConsumed_cons] at hnext

theorem bytesConsumed_append (xs ys : List Chunk) :
    bytesConsumed (xs ++ ys) = bytesConsumed xs + bytesConsumed ys := by
  simp [bytesConsumed]

/-- The loop takes no instruction that begins behind the bytes it was asked for. -/
theorem relocateInsns_starts {mem : Memory} {source : Addr} {minBytes off : ℕ}
    {done rest : List Chunk} {c : Chunk}
    (h : relocateInsns cs mem source minBytes off = .ok (done ++ c :: rest)) :
    off + bytesConsumed done < minBytes := by
  induction done generalizing off with
  | nil =>
      rw [relocateInsns] at h
      split at h
      · rename_i hlt
        simpa [bytesConsumed] using hlt
      · cases h
  | cons c' done ih =>
      rw [relocateInsns] at h
      split at h
      · dsimp only at h
        split at h
        · cases h
        · split at h
          · cases h
          · rename_i hrest
            obtain ⟨rfl, rfl⟩ := List.cons.inj (Except.ok.inj h)
            have hnext := ih hrest
            rw [bytesConsumed_cons, ← Nat.add_assoc]
            exact hnext
      · cases h

namespace Detour

section Built

variable {done rest : List Chunk} {c : Chunk}

theorem patch_length_pos : 0 < d.patch.length := by
  unfold patch
  cases d.gate <;> simp [Arch.patchSize, Arch.bpInsnSize]

theorem patch_length_le : d.patch.length ≤ 14 := by
  unfold patch
  cases d.gate <;> simp [Arch.patchSize, Arch.bpInsnSize]

theorem Built.loop (h : d.Built cs) :
    relocateInsns cs d.source d.address d.patch.length 0 = .ok d.chunks := by
  unfold Built buildRelocatedCode at h
  cases hloop : relocateInsns cs d.source d.address d.patch.length 0 with
  | error e =>
      rw [hloop] at h
      cases h
  | ok chunks =>
      rw [hloop] at h
      obtain ⟨-, rfl⟩ := Prod.mk.inj (Except.ok.inj h)
      rfl

theorem Built.covers (h : d.Built cs) : d.patch.length ≤ d.consumed :=
  (buildRelocatedCode_ok h).2.2

theorem Built.starts (h : d.Built cs) (hchunks : d.chunks = done ++ c :: rest) :
    bytesConsumed done < d.patch.length := by
  have hloop := h.loop
  rw [hchunks] at hloop
  simpa using relocateInsns_starts hloop

/-- The next instruction to be relocated. -/
theorem Built.next (h : d.Built cs) (hchunks : d.chunks = done ++ c :: rest) :
    let a := d.address + BitVec.ofNat 64 (bytesConsumed done)
    disassembleOne cs d.source a = c.size ∧ c.size ≠ 0 ∧ c.code = relocateInsn cs d.source a := by
  have hof := (buildRelocatedCode_ok h).2.1
  rw [hchunks] at hof
  obtain ⟨hsize, hne, hcode, -⟩ := ChunksOf.drop hof
  exact ⟨hsize, hne, hcode⟩

theorem Built.consumed_pos (h : d.Built cs) (hchunks : d.chunks = done ++ rest)
    (hne : done ≠ []) : 0 < bytesConsumed done := by
  obtain ⟨c, done, rfl⟩ := List.exists_cons_of_ne_nil hne
  have hnext := @Built.next cs d [] (done ++ rest) c h (by simpa using hchunks)
  rw [bytesConsumed_cons]
  exact Nat.add_pos_left (Nat.pos_of_ne_zero hnext.2.1) _

theorem Built.under (h : d.Built cs) (hchunks : d.chunks = done ++ c :: rest) :
    d.Under (d.address + BitVec.ofNat 64 (bytesConsumed done)) :=
  inRegion_of_lt (h.starts hchunks)

/-- What is written over is of the instructions that were relocated. -/
theorem Built.owns (h : d.Built cs) (hx : d.Under x) : d.Owns .code x :=
  Nat.lt_of_lt_of_le hx h.covers

end Built

end Detour

/-! ## §3  Instructions of the process -/

section Instructions

variable {target : Addr} {i : Instruction} {n : ℕ}

theorem hooked_trampoline (h : trampolineAt T a = some d) :
    p.hooked w T ⟨a, s⟩ = p.runTrampoline d s := by
  simp only [Process.hooked, h]

theorem hooked_trap (h : trampolineAt T a = none) (htrap : s.mem a = int3) :
    p.hooked w T ⟨a, s⟩ = (p.resume w a).map fun b => ([], ⟨b, p.signalled s⟩) := by
  simp only [Process.hooked, h, if_pos htrap]

theorem hooked_insn (h : trampolineAt T a = none) (htrap : s.mem a ≠ int3)
    (hdec : p.cpu.decode (readBytes s.mem a 16) = some (i, n)) :
    p.hooked w T ⟨a, s⟩ = some (p.exec i n a s) := by
  simp only [Process.hooked, h, if_neg htrap, Process.insn, hdec, Option.map_some]

theorem holds_first {bs : List Byte} {y : Byte} (h : Holds m a (y :: bs)) : m a = y := by
  have hfirst := congrArg (·[0]?) h
  simpa [readBytes] using hfirst

/-- An absolute jump that is in memory. -/
theorem hooked_jump (hcpu : SelfDelimiting p.cpu) (h : trampolineAt T a = none)
    (hheld : Holds s.mem a (generatePatchBytes .x64 target)) :
    p.hooked w T ⟨a, s⟩ = some ([], ⟨target, s⟩) := by
  have hdec := decode_held hcpu (decode_jmpMem target) (by decide) hheld
  have hfirst : s.mem a ≠ int3 := by
    rw [holds_first hheld]
    decide
  have hliteral : read64 s.mem (a + BitVec.ofNat 64 6) = target := by
    have hsplit : generatePatchBytes .x64 target =
        [0xFF, 0x25, 0x00, 0x00, 0x00, 0x00] ++ le64 target := rfl
    rw [hsplit] at hheld
    exact hheld.append.2.read64
  rw [hooked_insn h hfirst hdec]
  simp [Process.exec, Instruction.exec, jumpThrough, Flow.transfer, land, hliteral]

/-- A conditional branch as the relocator emits it. -/
theorem hooked_jumpUnless (hcpu : SelfDelimiting p.cpu) (cc : BitVec 4)
    (hfree : ∀ k < 20, trampolineAt T (a + BitVec.ofNat 64 k) = none)
    (hheld : Holds s.mem a (jumpUnless (cc.setWidth 8) target)) :
    ∃ k, (p.hooked w T).steps (k + 1) ⟨a, s⟩ =
      some ([], ⟨if cond s.rflags cc then target else a + BitVec.ofNat 64 20, s⟩) := by
  have hdec := decode_held hcpu (decode_jumpUnless cc target) (by decide) hheld
  have hfirst : s.mem a ≠ int3 := by
    rw [holds_first hheld]
    decide
  have hstart : trampolineAt T a = none := by simpa using hfree 0 (by decide)
  have hstep := @hooked_insn p w T a s _ _ hstart hfirst hdec
  cases hc : cond s.rflags cc with
  | true =>
      -- the emitted branch is not taken, and the absolute jump behind it is
      have hsplit : jumpUnless (cc.setWidth 8) target =
          [0x0F, 0x80 + (cc.setWidth 8 ^^^ 1), 0x0E, 0x00, 0x00, 0x00] ++
            generatePatchBytes .x64 target := rfl
      rw [hsplit] at hheld
      have hjump := @hooked_jump p w T (a + BitVec.ofNat 64 6) s target hcpu
        (hfree 6 (by decide)) hheld.append.2
      have hfall : p.exec (.jcc (cc ^^^ 1) 14) 6 a s = ([], ⟨a + BitVec.ofNat 64 6, s⟩) := by
        simp only [Process.exec, Instruction.exec, cond_xor_one, hc]
        rfl
      rw [hfall] at hstep
      refine ⟨1, ?_⟩
      rw [if_pos rfl]
      exact Stepper.step_then hstep ((Stepper.steps_one _).trans hjump)
  | false =>
      have htaken : p.exec (.jcc (cc ^^^ 1) 14) 6 a s = ([], ⟨a + BitVec.ofNat 64 20, s⟩) := by
        have hsum : a + 6#64 + 14#64 = a + 20#64 := by
          rw [BitVec.add_assoc]
          rfl
        simp only [Process.exec, Instruction.exec, cond_xor_one, hc, ← hsum]
        rfl
      rw [htaken] at hstep
      refine ⟨0, ?_⟩
      rw [if_neg Bool.false_ne_true]
      exact (Stepper.steps_one _).trans hstep

end Instructions

/-! ## §4  Relocated instructions -/

section Relocated

variable {insn : CsInsn} {i : Instruction} {base : Addr} {mem : Memory}

/-- What a step in place says of where it lands. -/
theorem exec_of_falls {n : ℕ} (h : falls (i.exec (a + BitVec.ofNat 64 n) s).transfer = true) :
    (p.exec i n a s).2.pc = a + BitVec.ofNat 64 n := by
  unfold Process.exec land
  cases htransfer : (i.exec (a + BitVec.ofNat 64 n) s).transfer with
  | next => rfl
  | call f => rfl
  | rel d => simp [htransfer, falls] at h
  | jump f => simp [htransfer, falls] at h

/-- Where the copy at `base`, `len` bytes long, goes on. -/
def copied (base : Addr) (len : ℕ) (fall : Bool) (c : Config) : Config :=
  ⟨if fall then base + BitVec.ofNat 64 len else c.pc, c.state⟩

/-- A relative jump that is taken under `q` in state `s`, which it leaves as it is. -/
theorem exec_branch {n : ℕ} {q : Prop} [Decidable q] {d : Addr}
    (h : i.exec (a + BitVec.ofNat 64 n) s = ⟨none, s, if q then .rel d else .next⟩) (len : ℕ) :
    (p.exec i n a s).1 = [] ∧
      copied base len (falls (i.exec (a + BitVec.ofNat 64 n) s).transfer) (p.exec i n a s).2 =
        ⟨if q then a + BitVec.ofNat 64 n + d else base + BitVec.ofNat 64 len, s⟩ := by
  unfold Process.exec land copied
  rw [h]
  by_cases hq : q <;> simp [hq, falls]

variable (hcpu : SelfDelimiting p.cpu) (site : Site cs p.cpu mem a insn i)
  (hheld : Holds s.mem base (relocateInsn cs mem a))
  (hfree : ∀ k < (relocateInsn cs mem a).length,
    trampolineAt T (base + BitVec.ofNat 64 k) = none)
include hcpu site hheld hfree

/-- A relative jump that is taken where the emitted one is. -/
theorem hooked_branch {q : Prop} [Decidable q] {d : Addr} (hi : IsJump i)
    (hbranch : .jump ∈ insn.groups ∧ .call ∉ insn.groups)
    (hpc : insn.pcOperand a = some (a + BitVec.ofNat 64 insn.size + d))
    (hexec : i.exec (a + BitVec.ofNat 64 insn.size) s =
      ⟨none, s, if q then .rel d else .next⟩)
    (hq : mem a = 0xE9 ∨ X86.cond s.rflags (emittedCond (mem a) i) = true ↔ q) :
    ∃ k, (p.hooked w T).steps (k + 1) ⟨base, s⟩ =
      some ((p.exec i insn.size a s).1,
        copied base (relocateInsn cs mem a).length
          (falls (i.exec (a + BitVec.ofNat 64 insn.size) s).transfer)
          (p.exec i insn.size a s).2) := by
  obtain ⟨hcalls, hcopied⟩ := @exec_branch p a s i base _ q _ d hexec (relocateInsn cs mem a).length
  rw [hcalls, hcopied]
  by_cases hE9 : mem a = 0xE9
  · rw [relocateInsn_jmp site.disasm hpc hE9] at hheld hfree ⊢
    rw [if_pos (hq.mp (.inl hE9))]
    exact ⟨0, (Stepper.steps_one _).trans
      (hooked_jump hcpu (by simpa using hfree 0 (by simp [Arch.patchSize])) hheld)⟩
  · rw [relocateInsn_jumps site.disasm hE9 hi site.shape hbranch hpc] at hheld hfree ⊢
    obtain ⟨k, hsteps⟩ := @hooked_jumpUnless p w T base s _ hcpu _ hfree hheld
    refine ⟨k, ?_⟩
    rw [hsteps]
    simp only [hE9, false_or] at hq
    by_cases htaken : X86.cond s.rflags (emittedCond (mem a) i) = true
    · rw [if_pos htaken, if_pos (hq.mp htaken)]
    · rw [if_neg htaken, if_neg (mt hq.mpr htaken)]
      rfl

/-- An instruction that does not depend on where it is. -/
theorem hooked_plain {effect : State → State × Flow} (hi : i = .other (.plain effect))
    (hfirst : mem a ≠ int3) :
    (p.hooked w T).steps 1 ⟨base, s⟩ =
      some ((p.exec i insn.size a s).1,
        copied base (relocateInsn cs mem a).length
          (falls (i.exec (a + BitVec.ofNat 64 insn.size) s).transfer)
          (p.exec i insn.size a s).2) := by
  subst hi
  have hplain : insn.pcOperand a = none ∨ ¬ (.jump ∈ insn.groups ∧ .call ∉ insn.groups) := by
    by_cases hjump : .jump ∈ insn.groups
    · exact .inl (site.describes hjump)
    · exact .inr fun hb => hjump hb.1
  have hcode := relocateInsn_embedded site.disasm (first_ne_E9 site.shape fun d => by simp)
    (first_ne_E8 site.shape) hplain
  have hlen : (relocateInsn cs mem a).length = insn.size := by rw [hcode, length_readBytes]
  have hpos : 0 < insn.size := Nat.pos_of_ne_zero site.size
  have hsame : readBytes s.mem base insn.size = readBytes mem a insn.size := by
    rw [hcode, Holds, length_readBytes] at hheld
    exact hheld
  have hbyte : s.mem base ≠ int3 := by
    have h := byte_eq_of_readBytes_eq hsame hpos
    simp only [BitVec.add_zero] at h
    rwa [h]
  have hstart : trampolineAt T base = none := by simpa using hfree 0 (hlen ▸ hpos)
  rw [Stepper.steps_one, hooked_insn hstart hbyte (decode_copied hcpu site.decode hsame), hlen]
  rcases heffect : effect s with ⟨s', flow⟩
  simp only [Process.exec, Instruction.exec, land, copied, heffect]
  cases flow <;> rfl

/-- **One relocated instruction**, run where it was copied to. -/
theorem hooked_relocated (hfirst : mem a ≠ int3) (hreloc : Relocatable (mem a) s i) :
    ∃ k, (p.hooked w T).steps (k + 1) ⟨base, s⟩ =
      some ((p.exec i insn.size a s).1,
        copied base (relocateInsn cs mem a).length
          (falls (i.exec (a + BitVec.ofNat 64 insn.size) s).transfer)
          (p.exec i insn.size a s).2) := by
  cases i with
  | jmp d =>
      obtain ⟨hjump, hcall, hpc⟩ := site.describes
      have hplace := @execInsn_branch p.callee a s (.jmp d) insn.size d s True _ rfl
      have hsame := (@Site.jmp_iff cs p.cpu p.callee mem a base insn s d site hheld).mpr hreloc
      have hq := ((site.same_iff trivial ⟨hjump, hcall⟩ hpc hheld hplace).mp hsame).2
      exact hooked_branch hcpu site hheld hfree trivial ⟨hjump, hcall⟩ hpc rfl hq
  | jcc cc d =>
      obtain ⟨hjump, hcall, hpc⟩ := site.describes
      have hplace := @execInsn_branch p.callee a s (.jcc cc d) insn.size d s
        (X86.cond s.rflags cc = true) _ rfl
      have hsame := (@Site.jcc_iff cs p.cpu p.callee mem a base insn s cc d site hheld).mpr hreloc
      have hq := ((site.same_iff trivial ⟨hjump, hcall⟩ hpc hheld hplace).mp hsame).2
      exact hooked_branch hcpu site hheld hfree trivial ⟨hjump, hcall⟩ hpc rfl hq
  | loop kind addr32 d =>
      obtain ⟨rfl, -⟩ := id hreloc
      obtain ⟨hjump, hcall, hpc⟩ := site.describes
      have hplace := @execInsn_branch p.callee a s (.loop .jrcxz addr32 d) insn.size d s
        (loopCount addr32 (s.reg .rcx) = 0) _ rfl
      have hsame := (@Site.loop_iff cs p.cpu p.callee mem a base insn s .jrcxz addr32 d site
        hheld).mpr hreloc
      have hq := ((site.same_iff trivial ⟨hjump, hcall⟩ hpc hheld hplace).mp hsame).2
      exact hooked_branch hcpu site hheld hfree trivial ⟨hjump, hcall⟩ hpc rfl hq
  | call d => exact hreloc.elim
  | other o =>
      cases o with
      | ripMem disp effect => exact hreloc.elim
      | plain effect => exact ⟨0, hooked_plain hcpu site hheld hfree rfl hfirst⟩

end Relocated

/-! ## §5  Gates -/

section Parts

variable (apart : Apart T) (hd : d ∈ T)
include apart hd

theorem trampolineAt_eq_none {part : Part} (hx : d.Owns part x) (hpart : part ≠ .entry) :
    trampolineAt T x = none := by
  apply List.find?_eq_none.mpr
  intro d' hd' hentry
  obtain ⟨htrampoline, hcode⟩ := of_decide_eq_true hentry
  exact hpart (apart d hd d' hd' part .entry x hx ⟨htrampoline, hcode.symm⟩).2

theorem trampolineAt_entry (htrampoline : d.HasTrampoline) :
    trampolineAt T d.trampolineCode = some d := by
  cases hfind : trampolineAt T d.trampolineCode with
  | none =>
      have hnot := List.find?_eq_none.mp hfind d hd
      simp [htrampoline] at hnot
  | some d' =>
      have hentry := @List.find?_some _ _ d' T hfind
      obtain ⟨htrampoline', hcode⟩ := of_decide_eq_true hentry
      have hd' := List.mem_of_find?_eq_some hfind
      rw [(apart d hd d' hd' .entry .entry _ ⟨htrampoline, rfl⟩ ⟨htrampoline', hcode.symm⟩).1]

/-- No entry is found by a byte that another part has, or that is not the key. -/
theorem find?_not_owner {key : Detour → Addr} {part part' : Part}
    (howns : ∀ d ∈ T, d.Owns part (key d)) (hx : d.Owns part' x)
    (hne : part = part' → x ≠ key d) : T.find? (fun d' => key d' = x) = none := by
  apply List.find?_eq_none.mpr
  intro d' hd' hkey
  have hkey : key d' = x := of_decide_eq_true hkey
  obtain ⟨rfl, rfl⟩ := apart d hd d' hd' part' part x hx (hkey ▸ howns d' hd')
  exact hne rfl hkey.symm

end Parts

section Table

theorem owns_relocated (d : Detour) : d.Owns .block d.relocatedCode := by
  simp [Detour.Owns, InRegion, Detour.block, CodeRelocator.block, Arch.patchSize]

theorem runTrampoline_pc {es : List Called} {c : Config}
    (h : p.runTrampoline d s = some (es, c)) : c.pc = d.relocatedCode := by
  obtain ⟨a, htarget, heq⟩ := Option.map_eq_some_iff.mp h
  obtain ⟨-, rfl⟩ := Prod.mk.inj heq
  have hone : ∀ fn, (Trampoline.exec p.callee
      (Trampoline.buildTrampoline .linux fn 0 d.self d.relocatedCode) s).target =
        some d.relocatedCode := fun fn => by rw [Transparency.exec_one]
  have hexit : ∀ fn leave, (Trampoline.exec p.callee
      (Trampoline.buildTrampoline .linux fn leave d.self d.relocatedCode) s).target =
        some d.relocatedCode := by
    intro fn leave
    by_cases hleave : leave = 0
    · rw [hleave]
      exact hone fn
    · rw [Transparency.exec_two hleave]
  unfold Process.trampoline at htarget
  split at htarget
  · exact Option.some.inj (htarget.symm.trans (hexit _ _))
  · exact Option.some.inj (htarget.symm.trans (hexit _ _))

variable (table : Table cs w T) (hd : d ∈ T)
include table

theorem Table.owns_address : ∀ d ∈ T, d.Owns .code d.address := by
  intro d hd
  apply (table.built d hd).owns
  simpa [Detour.Under, InRegion] using d.patch_length_pos

include hd

/-- Where the relocated code starts is no target and no trampoline. -/
theorem Table.enterable_relocated : Enterable T d.relocatedCode := by
  intro d' hd'
  have howns := owns_relocated d
  constructor
  · intro hunder
    have hpart :=
      (table.apart d hd d' hd' .block .code _ howns ((table.built d' hd').owns hunder)).2
    cases hpart
  · intro htrampoline heq
    have hpart := (table.apart d hd d' hd' .block .entry _ howns ⟨htrampoline, heq⟩).2
    cases hpart

/-- The trap of a breakpoint resumes at its trampoline. -/
theorem Table.resume_eq (hgate : d.gate = .breakpoint) :
    p.resume w d.address = some d.trampolineCode := by
  obtain ⟨armed, hrouted⟩ := table.routed
  obtain ⟨⟨e, hlookup, hcode⟩, hclear⟩ := hrouted d hd hgate
  have hsw : TrapRouting.swEntry w (d.address + 1) = some e := by
    rw [TrapRouting.swEntry, BitVec.add_sub_cancel, hlookup]
  have hroute := @TrapRouting.route_sw p.monitor w
    (ExceptionHandler.buildContextFromSignal TrapRouting.linuxX64 .sigtrap
      ⟨.other, 0, false, d.address + 1⟩) armed rfl e hsw hclear
  rw [Process.resume, TrapRouting.globalSignalHandler_handled hroute, ← hcode]

/-- **A gate** leads where the breakpoint or hook says. -/
theorem Table.gate_follows (hcpu : SelfDelimiting p.cpu) (intact : Intact T s.mem)
    (hreplaced : ∀ r, d.gate = .replace r → Enterable T r) {es : List Called} {c : Config}
    (h : p.detour d s = some (es, c)) :
    ∃ k, (p.hooked w T).steps (k + 1) ⟨d.address, s⟩ = some (es, c) ∧ Enterable T c.pc := by
  have hpatch := (intact d hd).1
  have hfree := trampolineAt_eq_none table.apart hd (table.owns_address d hd) (by decide)
  unfold Process.detour at h
  cases hgate : d.gate with
  | breakpoint =>
      simp only [hgate] at h
      have hentry := @trampolineAt_entry T d table.apart hd (by simp [Detour.HasTrampoline, hgate])
      have htrap : s.mem d.address = int3 := by
        rw [Detour.patch, hgate] at hpatch
        exact holds_first hpatch
      have hstep := @hooked_trap p w T _ s hfree htrap
      rw [table.resume_eq hd hgate] at hstep
      refine ⟨1, Stepper.step_then hstep ((Stepper.steps_one _).trans ?_), ?_⟩
      · rw [hooked_trampoline hentry]
        exact h
      · rw [runTrampoline_pc h]
        exact table.enterable_relocated hd
  | attach =>
      simp only [hgate] at h
      have hentry := @trampolineAt_entry T d table.apart hd (by simp [Detour.HasTrampoline, hgate])
      rw [Detour.patch, hgate] at hpatch
      have hstep := @hooked_jump p w T _ s _ hcpu hfree hpatch
      refine ⟨1, Stepper.step_then hstep ((Stepper.steps_one _).trans ?_), ?_⟩
      · rw [hooked_trampoline hentry]
        exact h
      · rw [runTrampoline_pc h]
        exact table.enterable_relocated hd
  | replace r =>
      simp only [hgate] at h
      obtain ⟨rfl, rfl⟩ := Prod.mk.inj (Option.some.inj h)
      rw [Detour.patch, hgate] at hpatch
      refine ⟨0, (Stepper.steps_one _).trans (hooked_jump hcpu hfree hpatch), ?_⟩
      exact hreplaced r hgate

end Table

/-! ## §6  Whole runs -/

section Steps

variable {done rest : List Chunk} {k : Chunk} {es : List Called} {c c' q : Config}

/-- The middle of equal blocks. -/
theorem readBytes_middle {j n l : ℕ}
    (h : readBytes m a (j + (n + l)) = readBytes m' a (j + (n + l))) :
    readBytes m (a + BitVec.ofNat 64 j) n = readBytes m' (a + BitVec.ofNat 64 j) n := by
  rw [readBytes_add, readBytes_add m'] at h
  have htail := (List.append_inj h (by simp)).2
  rw [readBytes_add, readBytes_add m'] at htail
  exact (List.append_inj htail (by simp)).1

/-- Where the code of the next chunk is in the block. -/
theorem block_split (hchunks : d.chunks = done ++ k :: rest) :
    d.block = done.flatMap Chunk.code ++ (k.code ++ (rest.flatMap Chunk.code ++
      generatePatchBytes .x64 (d.address + BitVec.ofNat 64 d.consumed))) := by
  rw [Detour.block, CodeRelocator.block, Detour.consumed, hchunks]
  simp [List.append_assoc]

theorem owns_block (hchunks : d.chunks = done ++ k :: rest) {j : ℕ}
    (hj : j < k.code.length + 14) : d.Owns .block
      (d.relocatedCode + BitVec.ofNat 64 (done.flatMap Chunk.code).length + BitVec.ofNat 64 j) := by
  rw [BitVec.add_assoc, ← BitVec.ofNat_add]
  apply inRegion_of_lt
  rw [block_split hchunks]
  simp only [List.length_append, length_generatePatchBytes, Arch.patchSize]
  omega

/-- Where the instruction behind `done` is, and where its copy is. -/
def Detour.spot (d : Detour) (done : List Chunk) : Addr :=
  d.address + BitVec.ofNat 64 (bytesConsumed done)

def Detour.copy (d : Detour) (done : List Chunk) : Addr :=
  d.relocatedCode + BitVec.ofNat 64 (done.flatMap Chunk.code).length

theorem Detour.spot_snoc (d : Detour) (done : List Chunk) (k : Chunk) :
    d.spot (done ++ [k]) = d.spot done + BitVec.ofNat 64 k.size := by
  rw [spot, spot, bytesConsumed_append, BitVec.ofNat_add, BitVec.add_assoc]
  simp [bytesConsumed]

theorem Detour.copy_snoc (d : Detour) (done : List Chunk) (k : Chunk) :
    d.copy (done ++ [k]) = d.copy done + BitVec.ofNat 64 k.code.length := by
  have hcode : (done ++ [k]).flatMap Chunk.code = done.flatMap Chunk.code ++ k.code := by simp
  rw [copy, copy, hcode, List.length_append, BitVec.ofNat_add, BitVec.add_assoc]

/-- The instruction that the chunk `k` stands for, as the relocator saw it and as the program
without patches still has it. -/
structure Placed (cs : CsDisasm) (p : Process) (T : List Detour) (d : Detour) (done : List Chunk)
    (k : Chunk) (s : State) (insn : CsInsn) (i : Instruction) : Prop where
  site : Site cs p.cpu d.source (d.spot done) insn i
  size : insn.size = k.size
  code : k.code = relocateInsn cs d.source (d.spot done)
  byte : original T s.mem (d.spot done) = d.source (d.spot done)
  decode : p.cpu.decode (readBytes (original T s.mem) (d.spot done) 16) = some (i, insn.size)

section Among

variable (hcpu : SelfDelimiting p.cpu) (table : Table cs w T) (hd : d ∈ T)
  (hchunks : d.chunks = done ++ k :: rest)
include hcpu table hd hchunks

theorem exists_placed (hcs : Decoded cs p.cpu T) (intact : Intact T s.mem) :
    ∃ insn i, Placed cs p T d done k s insn i := by
  have hdecodes := hcs d hd
  rw [hchunks] at hdecodes
  obtain ⟨hsize, hne, hcode⟩ := (table.built d hd).next hchunks
  obtain ⟨insn, i, site, hinsn⟩ := site_of_chunk hdecodes.drop.1 hsize hne
  have hsource := (intact d hd).2.2
  rw [Detour.consumed, hchunks, bytesConsumed_append, bytesConsumed_cons] at hsource
  have hsame : readBytes (original T s.mem) (d.spot done) insn.size =
      readBytes d.source (d.spot done) insn.size := by
    rw [hinsn]
    exact readBytes_middle hsource
  have hbyte := byte_eq_of_readBytes_eq hsame (Nat.pos_of_ne_zero site.size)
  simp only [BitVec.add_zero] at hbyte
  exact ⟨insn, i, site, hinsn, hcode, hbyte, decode_copied hcpu site.decode hsame⟩

variable {insn : CsInsn} {i : Instruction} (placed : Placed cs p T d done k s insn i)
include placed

/-- The process runs the copy. -/
theorem hooked_copy (intact : Intact T s.mem) (htrap : original T s.mem (d.spot done) ≠ int3)
    (hreloc : Relocatable (d.source (d.spot done)) s i) :
    ∃ j, (p.hooked w T).steps (j + 1) ⟨d.copy done, s⟩ =
      some ((p.exec i insn.size (d.spot done) s).1, copied (d.copy done) k.code.length
        (falls (i.exec (d.spot done + BitVec.ofNat 64 insn.size) s).transfer)
        (p.exec i insn.size (d.spot done) s).2) := by
  have hblock := (intact d hd).2.1
  rw [block_split hchunks] at hblock
  have hcopy := hblock.append.2.append.1
  rw [placed.code] at hcopy
  have hfree : ∀ j < (relocateInsn cs d.source (d.spot done)).length,
      trampolineAt T (d.copy done + BitVec.ofNat 64 j) = none := by
    intro j hj
    rw [← placed.code] at hj
    exact trampolineAt_eq_none table.apart hd (owns_block hchunks (Nat.lt_add_right 14 hj))
      (by decide)
  rw [placed.code]
  exact hooked_relocated hcpu placed.site hcopy hfree (placed.byte ▸ htrap) hreloc

omit hcpu hchunks table hd in
/-- An instruction that falls through leads to the next one. -/
theorem Placed.falls_to
    (h : falls (i.exec (d.spot done + BitVec.ofNat 64 insn.size) s).transfer = true) :
    (p.exec i insn.size (d.spot done) s).2.pc = d.spot (done ++ [k]) := by
  rw [exec_of_falls h, d.spot_snoc, placed.size]

end Among

section Behind

variable (table : Table cs w T) (hd : d ∈ T) (hchunks : d.chunks = done ++ [k])
include table hd hchunks

/-- Behind the last instruction the block jumps back. -/
theorem hooked_jumpBack (hcpu : SelfDelimiting p.cpu) (intact : Intact T s.mem) :
    p.hooked w T ⟨d.copy d.chunks, s⟩ = some ([], ⟨d.spot d.chunks, s⟩) := by
  have hblock := (intact d hd).2.1
  rw [block_split hchunks] at hblock
  have hjump := hblock.append.2.append.2
  rw [List.flatMap_nil, List.nil_append] at hjump
  have howns := @owns_block d done [] k hchunks k.code.length (by omega)
  have hfree := trampolineAt_eq_none table.apart hd howns (by decide)
  rw [hchunks, d.copy_snoc, ← hchunks]
  exact hooked_jump hcpu hfree hjump

/-- What falls out of the last instruction is behind all that was written over. -/
theorem enterable_behind {insn : CsInsn} {i : Instruction}
    (placed : Placed cs p T d done k s insn i)
    (hfalls : falls (i.exec (d.spot done + BitVec.ofNat 64 insn.size) s).transfer = true)
    (hfollowed : Followed T (d.spot done) s i insn.size (p.exec i insn.size (d.spot done) s).2) :
    Enterable T (d.spot d.chunks) := by
  have hbuilt := table.built d hd
  have hpc := placed.falls_to hfalls
  rw [← hchunks] at hpc
  rcases hfollowed.goes with henter | ⟨-, d', hd', hunder', hnext⟩
  · rwa [hpc] at henter
  · -- the patch that control would fall into is this detour's, which ends before
    exfalso
    have hunder := hbuilt.under hchunks
    obtain ⟨rfl, -⟩ := table.apart d hd d' hd' .code .code (d.spot done) (hbuilt.owns hunder)
      ((table.built d' hd').owns hunder')
    rw [← exec_of_falls (p := p) hfalls, hpc] at hnext
    have hcovers := hbuilt.covers
    have hstarts := hbuilt.starts hchunks
    have hbound := (Cpu.decode_take placed.site.decode).1
    simp only [length_readBytes] at hbound
    have hpatch := d.patch_length_le
    have hsize := placed.size
    have hconsumed : d.consumed = bytesConsumed done + k.size := by
      rw [Detour.consumed, hchunks, bytesConsumed_append]
      simp [bytesConsumed]
    rw [Detour.spot, Detour.Under, InRegion, ← Detour.consumed, offset_add _ (by omega)] at hnext
    omega

end Behind

/-- A step of the program at `a` that the process can follow, past the traps. -/
structure Insn (p : Process) (T : List Detour) (s : State) (a : Addr) (es : List Called)
    (c : Config) : Prop where
  trap : original T s.mem a ≠ int3
  insn : p.insn (original T s.mem) a s = some (es, c)
  followed : ∀ i n, p.cpu.decode (readBytes (original T s.mem) a 16) = some (i, n) →
    Followed T a s i n (p.exec i n a s).2

/-- **A step among relocated instructions.** -/
theorem relocated_follows (hcs : Decoded cs p.cpu T) (hcpu : SelfDelimiting p.cpu)
    (table : Table cs w T) (hd : d ∈ T) (hchunks : d.chunks = done ++ k :: rest)
    (intact : Intact T s.mem) (after : Intact T c.state.mem)
    (step : Insn p T s (d.spot done) es c) :
    ∃ j c', (p.hooked w T).steps (j + 1) ⟨d.copy done, s⟩ = some (es, c') ∧
      Corresponds T c c' := by
  obtain ⟨insn, i, placed⟩ := exists_placed hcpu table hd hchunks hcs intact
  have hinsn := step.insn
  rw [Process.insn, placed.decode, Option.map_some] at hinsn
  have hexec : p.exec i insn.size (d.spot done) s = (es, c) := Option.some.inj hinsn
  have hes : (p.exec i insn.size (d.spot done) s).1 = es := by rw [hexec]
  have hc : (p.exec i insn.size (d.spot done) s).2 = c := by rw [hexec]
  have hfollowed := step.followed i insn.size placed.decode
  have hreloc := hfollowed.relocatable d hd ((table.built d hd).under hchunks)
  obtain ⟨j, hsteps⟩ := hooked_copy hcpu table hd hchunks placed intact step.trap hreloc
  rw [hes, hc] at hsteps
  cases hfalls : falls (i.exec (d.spot done + BitVec.ofNat 64 insn.size) s).transfer with
  | false =>
      -- a jump leaves the block as it leaves the code at the target
      rw [hfalls] at hsteps
      refine ⟨j, c, by simpa [copied] using hsteps, rfl, .inl ⟨rfl, ?_⟩⟩
      rcases hfollowed.goes with henter | ⟨hcontra, -⟩
      · exact hc ▸ henter
      · rw [hfalls] at hcontra
        cases hcontra
  | true =>
      have hpc := placed.falls_to hfalls
      rw [hc] at hpc
      rw [hfalls, copied, if_pos rfl, ← d.copy_snoc] at hsteps
      cases rest with
      | cons k' rest =>
          refine ⟨j, _, hsteps, rfl, .inr ⟨d, hd, done ++ [k], k' :: rest, ?_, ?_, ?_, hpc, rfl⟩⟩
          · rw [hchunks, List.append_assoc, List.singleton_append]
          · simp
          · simp
      | nil =>
          have hlast := @hooked_jumpBack cs p w T d c.state done k table hd hchunks hcpu after
          have henter := enterable_behind table hd hchunks placed hfalls hfollowed
          rw [hchunks, ← hpc] at hlast henter
          refine ⟨j + 1, c, ?_, rfl, .inl ⟨rfl, henter⟩⟩
          have hall := Stepper.steps_trans hsteps ((Stepper.steps_one _).trans hlast)
          rwa [List.append_nil] at hall

/-- **A step anywhere else** is the same one. -/
theorem outside_follows (hcpu : SelfDelimiting p.cpu) (henter : Enterable T c.pc)
    (haddress : ∀ d ∈ T, c.pc ≠ d.address) (step : Insn p T c.state c.pc es c') :
    (p.hooked w T).steps 1 c = some (es, c') ∧ Enterable T c'.pc := by
  have hout : ∀ d ∈ T, ¬ d.Under c.pc := fun d hd hunder =>
    haddress d hd ((henter d hd).1 hunder)
  have hfree : trampolineAt T c.pc = none := by
    apply List.find?_eq_none.mpr
    intro d hd hentry
    obtain ⟨htrampoline, hcode⟩ := of_decide_eq_true hentry
    exact (henter d hd).2 htrampoline hcode.symm
  obtain ⟨htrap, hinsn, followed⟩ := step
  obtain ⟨⟨i, n⟩, hdec, hexec⟩ := Option.map_eq_some_iff.mp hinsn
  have hfollowed := followed i n hdec
  have hlen := (Cpu.decode_take hdec).1
  simp only [length_readBytes] at hlen
  have hsame : readBytes c.state.mem c.pc n = readBytes (original T c.state.mem) c.pc n := by
    apply readBytes_congr (by omega)
    intro x hx
    have hnot := hfollowed.whole hout _ hx
    rw [add_offset] at hnot
    exact (original_outside hnot).symm
  rw [original_outside hout] at htrap
  constructor
  · have hstep := @hooked_insn p w T c.pc c.state i n hfree htrap (decode_copied hcpu hdec hsame)
    rw [Stepper.steps_one]
    exact hstep.trans (congrArg some hexec)
  · rcases hfollowed.goes with hnext | ⟨-, d, hd, hunder, -⟩
    · have hc : (p.exec i n c.pc c.state).2 = c' := congrArg Prod.snd hexec
      exact hc ▸ hnext
    · exact absurd hunder (hout d hd)

end Steps

section Runs

variable {es : List Called} {c c' : Config}

/-- Away from the targets a step of the program is one of an instruction. -/
theorem insn_of_instrumented (hproper : Proper p T c)
    (hfind : T.find? (·.address = c.pc) = none) (hstep : p.instrumented T c = some (es, c')) :
    Insn p T c.state (place T c.pc) es c' := by
  have haddress : ∀ d ∈ T, c.pc ≠ d.address := by
    intro d hd heq
    simpa [heq] using List.find?_eq_none.mp hfind d hd
  unfold Process.instrumented at hstep
  rw [hfind] at hstep
  dsimp only at hstep
  rw [ite_eq_iff] at hstep
  obtain ⟨-, hcontra⟩ | ⟨htrap, hinsn⟩ := hstep
  · cases hcontra
  · exact ⟨htrap, hinsn, hproper.followed haddress⟩

variable (hcs : Decoded cs p.cpu T) (hcpu : SelfDelimiting p.cpu) (table : Table cs w T)
include hcpu table

/-- A step from a target. -/
theorem target_follows (hproper : Proper p T c) (hfind : T.find? (·.address = c.pc) = some d)
    (hstep : p.instrumented T c = some (es, c')) :
    ∃ k, (p.hooked w T).steps (k + 1) c = some (es, c') ∧ Enterable T c'.pc := by
  have hd := List.mem_of_find?_eq_some hfind
  have haddress : d.address = c.pc := of_decide_eq_true (@List.find?_some _ _ d T hfind)
  unfold Process.instrumented at hstep
  rw [hfind] at hstep
  obtain ⟨k, hsteps, hnext⟩ := table.gate_follows hd hcpu hproper.before
    (hproper.replaced d hd haddress.symm) hstep
  rw [haddress] at hsteps
  exact ⟨k, hsteps, hnext⟩

include hcs

/-- A step from where relocated code starts, before its first instruction. -/
theorem start_follows (hproper : Proper p T c) (after : Intact T c'.state.mem)
    (hplace : T.find? (·.relocatedCode = c.pc) = some d)
    (step : Insn p T c.state (place T c.pc) es c') :
    ∃ j q, (p.hooked w T).steps (j + 1) c = some (es, q) ∧ Corresponds T c' q := by
  have hd := List.mem_of_find?_eq_some hplace
  have hcode : d.relocatedCode = c.pc := of_decide_eq_true (@List.find?_some _ _ d T hplace)
  have hat : place T c.pc = d.spot [] := by
    rw [place, hplace]
    simp [Detour.spot, bytesConsumed]
  have hcopy : d.copy [] = c.pc := by
    rw [← hcode]
    simp [Detour.copy]
  rw [hat] at step
  have hcovers := (table.built d hd).covers
  cases hchunks : d.chunks with
  | nil =>
      rw [Detour.consumed, hchunks] at hcovers
      exact absurd hcovers (Nat.not_le.mpr d.patch_length_pos)
  | cons k rest =>
      have h := @relocated_follows cs p w T d c.state [] rest k es c' hcs hcpu table hd hchunks
        hproper.before after step
      rwa [hcopy] at h

/-- A step among relocated instructions, which no target and no block is. -/
theorem among_follows {done rest : List Chunk} (hproper : Proper p T c)
    (after : Intact T c'.state.mem) (hd : d ∈ T) (hchunks : d.chunks = done ++ rest)
    (hdone : done ≠ []) (hrest : rest ≠ []) (hpc : c.pc = d.spot done)
    (hstep : p.instrumented T c = some (es, c')) :
    ∃ j q, (p.hooked w T).steps (j + 1) ⟨d.copy done, c.state⟩ = some (es, q) ∧
      Corresponds T c' q := by
  obtain ⟨k, rest, rfl⟩ := List.exists_cons_of_ne_nil hrest
  have hbuilt := table.built d hd
  have howns : d.Owns .code c.pc := hpc ▸ hbuilt.owns (hbuilt.under hchunks)
  have hne : c.pc ≠ d.address := by
    intro heq
    have hpos := hbuilt.consumed_pos hchunks hdone
    have hstarts := hbuilt.starts hchunks
    have hpatch := d.patch_length_le
    rw [hpc, Detour.spot] at heq
    bv_omega
  have hfind : T.find? (·.address = c.pc) = none :=
    find?_not_owner table.apart hd table.owns_address howns fun _ => hne
  have hplace : T.find? (·.relocatedCode = c.pc) = none :=
    find?_not_owner table.apart hd (fun d _ => owns_relocated d) howns (by intro h; cases h)
  have hat : place T c.pc = d.spot done := by rw [place, hplace, hpc]
  have step := insn_of_instrumented hproper hfind hstep
  rw [hat] at step
  exact relocated_follows hcs hcpu table hd hchunks hproper.before after step

/-- **Each step** of the instrumented program is one or more of the process. -/
theorem simulates :
    Simulates (Proper p T) (Corresponds T) (p.instrumented T) (p.hooked w T) := by
  rintro c ⟨qpc, qstate⟩ es c' ⟨rfl, hpc⟩ hproper hstep
  have hafter := hproper.after es c' hstep
  rcases hpc with ⟨rfl, henter⟩ | ⟨d, hd, done, rest, hchunks, hdone, hrest, hpc, rfl⟩
  · cases hfind : T.find? (·.address = c.pc) with
    | some d =>
        obtain ⟨k, hsteps, hnext⟩ := target_follows hcpu table hproper hfind hstep
        exact ⟨k, c', hsteps, rfl, .inl ⟨rfl, hnext⟩⟩
    | none =>
        have step := insn_of_instrumented hproper hfind hstep
        cases hplace : T.find? (·.relocatedCode = c.pc) with
        | some d => exact start_follows hcs hcpu table hproper hafter hplace step
        | none =>
            have haddress : ∀ d ∈ T, c.pc ≠ d.address := by
              intro d hd heq
              simpa [heq] using List.find?_eq_none.mp hfind d hd
            have hat : place T c.pc = c.pc := by rw [place, hplace]
            rw [hat] at step
            obtain ⟨hsteps, hnext⟩ := outside_follows hcpu henter haddress step
            exact ⟨0, c', hsteps, rfl, .inl ⟨rfl, hnext⟩⟩
  · exact among_follows hcs hcpu table hproper hafter hd hchunks hdone hrest hpc hstep

end Runs

/-! A function of three jumps at `0x1000`, replaced by one at `0x6000` that calls the original
through its relocated code at `0x9000`. Another function is at `0x3000`. -/

section Replaced

theorem decodeRel_first {bs : List Byte} {r : Instruction × ℕ}
    (h : decodeRel false (0xFF :: bs) = some r) : False := by
  cases bs <;> cases h

theorem branchCpu_selfDelimiting : SelfDelimiting branchCpu := by
  intro bs r rest h
  have htake := (Cpu.decode_take h).2
  generalize bs.take r.2 = xs at htake ⊢
  unfold Cpu.decode at htake ⊢
  cases hthrough : decodeThrough xs with
  | some r' =>
      rw [hthrough] at htake
      obtain rfl := Option.some.inj htake
      rw [decodeThrough_append rest hthrough]
      rfl
  | none =>
      rw [hthrough] at htake
      have hrel : decodeRel false xs = some r := by simpa [branchCpu] using htake
      have hnone : decodeThrough (xs ++ rest) = none := by
        match xs, hrel with
        | op :: xs, hrel =>
            have hne : op ≠ 0xFF := by
              rintro rfl
              exact decodeRel_first hrel
            cases hys : xs ++ rest with
            | nil =>
                rw [List.cons_append, hys]
                rfl
            | cons op' ys =>
                rw [List.cons_append, hys, decodeThrough, if_neg hne]
      rw [hnone, decodeRel_append rest hrel]
      rfl

def threeJumps : Memory :=
  writeBytes (codeAt [0xE9, 0x20, 0x00, 0x00, 0x00, 0xE9, 0x20, 0x00, 0x00, 0x00, 0xE9, 0x20, 0x00,
    0x00, 0x00]) 0x3000 [0xE9, 0x20, 0x00, 0x00, 0x00]

def replacedFunction : Detour where
  gate := .replace 0x6000
  address := 0x1000
  self := 0x10
  trampolineCode := 0
  relocatedCode := 0x9000
  source := threeJumps
  chunks := [⟨5, relocateInsn branchDisasm threeJumps 0x1000⟩,
    ⟨5, relocateInsn branchDisasm threeJumps 0x1005⟩,
    ⟨5, relocateInsn branchDisasm threeJumps 0x100A⟩]

def callsOriginal : State where
  reg _ := 0
  rflags := 0
  mem := writeBytes (writeBytes (writeBytes threeJumps 0x1000 replacedFunction.patch) 0x9000
    replacedFunction.block) 0x6000 [0xE9, 0xFB, 0x2F, 0x00, 0x00]

def branchProcess : Process where
  cpu := branchCpu
  callee _ s := s
  signalled s := s
  monitor := TrapRouting.passOn
  interceptorDispatch := 0x10
  interceptorDispatchLeave := 0x20
  bpDispatch := 0x30

theorem replacedFunction_built : replacedFunction.Built branchDisasm := by
  have hlast : relocateInsns branchDisasm threeJumps 0x1000 14 15 = .ok [] := by
    rw [relocateInsns, if_neg (by decide)]
  have h10 : relocateInsns branchDisasm threeJumps 0x1000 14 10 =
      .ok [⟨5, relocateInsn branchDisasm threeJumps 0x100A⟩] := by
    rw [relocateInsns, if_pos (by decide)]
    have hsize : disassembleOne branchDisasm threeJumps (0x1000 + BitVec.ofNat 64 10) = 5 := rfl
    simp only [hsize, hlast]
    rfl
  have h5 : relocateInsns branchDisasm threeJumps 0x1000 14 5 =
      .ok [⟨5, relocateInsn branchDisasm threeJumps 0x1005⟩,
        ⟨5, relocateInsn branchDisasm threeJumps 0x100A⟩] := by
    rw [relocateInsns, if_pos (by decide)]
    have hsize : disassembleOne branchDisasm threeJumps (0x1000 + BitVec.ofNat 64 5) = 5 := rfl
    simp only [hsize, h10]
    rfl
  have h0 : relocateInsns branchDisasm threeJumps 0x1000 14 0 = .ok replacedFunction.chunks := by
    rw [relocateInsns, if_pos (by decide)]
    have hsize : disassembleOne branchDisasm threeJumps (0x1000 + BitVec.ofNat 64 0) = 5 := rfl
    simp only [hsize, h5]
    rfl
  show buildRelocatedCode branchDisasm threeJumps 0x1000 14 (some 0x9000) = _
  rw [buildRelocatedCode, h0]
  rfl

theorem replaced_table : Table branchDisasm (World.start (fun _ => 0) defaultActions)
    [replacedFunction] where
  built d hd := by
    obtain rfl := List.mem_singleton.mp hd
    exact replacedFunction_built
  apart d hd d' hd' part part' x hx hx' := by
    obtain rfl := List.mem_singleton.mp hd
    obtain rfl := List.mem_singleton.mp hd'
    refine ⟨rfl, ?_⟩
    have hcode : replacedFunction.Owns .code x ↔ (x - 0x1000).toNat < 15 := Iff.rfl
    have hblock : replacedFunction.Owns .block x ↔ (x - 0x9000).toNat < 56 := Iff.rfl
    cases part <;> cases part' <;> first | rfl | exact hx.1.elim | exact hx'.1.elim | skip
    · rw [hcode] at hx
      rw [hblock] at hx'
      bv_omega
    · rw [hblock] at hx
      rw [hcode] at hx'
      bv_omega
  routed := by
    refine ⟨⟨?_, ?_, ?_, ?_, ?_⟩, ?_⟩
    · intro pc e he
      cases he
    · intro pc e he
      cases he
    · intro h hh
      cases hh
    · intro pc e he
      cases he
    · intro pc pc' e e' he
      cases he
    · intro d hd hgate
      obtain rfl := List.mem_singleton.mp hd
      cases hgate

theorem callsOriginal_intact : Intact [replacedFunction] callsOriginal.mem := by
  intro d hd
  obtain rfl := List.mem_singleton.mp hd
  exact ⟨by unfold Holds; decide, by unfold Holds; decide, by decide⟩

theorem replaced_enterable {x : Addr} (h : x = 0x1000 ∨ 14 ≤ (x - 0x1000).toNat) :
    Enterable [replacedFunction] x := by
  intro d hd
  obtain rfl := List.mem_singleton.mp hd
  refine ⟨fun hunder => ?_, fun h => h.elim⟩
  rcases h with rfl | h
  · rfl
  · exact absurd hunder (Nat.not_lt.mpr h)

/-- A jump of the instrumented program that the process can follow. -/
theorem replaced_proper {pc : Addr} {d : Addr} (haddress : pc ≠ 0x1000)
    (hdec : branchCpu.decode (readBytes (original [replacedFunction] callsOriginal.mem)
      (place [replacedFunction] pc) 16) = some (.jmp d, 5))
    (hE9 : place [replacedFunction] pc = 0x1000 ∨
      14 ≤ (place [replacedFunction] pc - 0x1000).toNat ∧
        (place [replacedFunction] pc - 0x1000).toNat < 2 ^ 63)
    (hnext : 14 ≤ (place [replacedFunction] pc + 5#64 + d - 0x1000).toNat) :
    Proper branchProcess [replacedFunction] ⟨pc, callsOriginal⟩ where
  before := callsOriginal_intact
  after es c' h := by
    unfold Process.instrumented at h
    have hfind : [replacedFunction].find? (·.address = pc) = none := by
      simpa [replacedFunction] using Ne.symm haddress
    simp only [hfind] at h
    rw [ite_eq_iff] at h
    obtain ⟨-, hcontra⟩ | ⟨-, hinsn⟩ := h
    · cases hcontra
    · rw [Process.insn, show branchProcess.cpu = branchCpu from rfl, hdec] at hinsn
      cases hinsn
      exact callsOriginal_intact
  replaced d hd heq := by
    obtain rfl := List.mem_singleton.mp hd
    exact absurd heq haddress
  followed _ i n h := by
    rw [show branchProcess.cpu = branchCpu from rfl, hdec] at h
    obtain ⟨rfl, rfl⟩ := Prod.mk.inj (Option.some.inj h)
    constructor
    · intro d hd hunder
      obtain rfl := List.mem_singleton.mp hd
      rcases hE9 with h | ⟨h, -⟩
      · rw [h]
        exact .inl (by decide)
      · exact absurd hunder (Nat.not_lt.mpr h)
    · intro hout k hk d hd hunder
      have hnot := hout replacedFunction List.mem_cons_self
      obtain rfl := List.mem_singleton.mp hd
      rcases hE9 with h | ⟨h, hlt⟩
      · rw [h] at hnot
        exact hnot (by unfold Detour.Under InRegion; decide)
      · have hoff : (place [replacedFunction] pc + BitVec.ofNat 64 k - 0x1000).toNat < 14 := hunder
        bv_omega
    · exact .inl (replaced_enterable (.inr hnext))

end Replaced

end DetouredCode

end Chromatic
