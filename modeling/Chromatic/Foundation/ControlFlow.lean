import Chromatic.Foundation.X86

/-!
# Control flow of x86-64 instructions

Relative branches are decoded from their bytes and executed; every other instruction
is a parameter, of which only its length, its `rip`-relative operand and its effect
are known.

§1 instructions · §2 execution · §3 decoding · §4 decoding reads no further than the
instruction · §5 the first two bytes.
-/

namespace Foundation

namespace X86

/-! ## §1  Instructions -/

/-- Where an instruction that is not a relative branch goes. -/
inductive Flow where
  | next
  | jump (a : Addr)
  | call (a : Addr)
deriving DecidableEq, Repr

/-- `ripMem` has an operand at `disp` from the next instruction; its effect is given
the operand's address. `plain` does not depend on where it is. -/
inductive Other where
  | ripMem (disp : Addr) (effect : Addr → State → State × Flow)
  | plain (effect : State → State × Flow)

inductive LoopKind where
  | loopne
  | loope
  | loop
  | jrcxz
deriving DecidableEq, Repr

/-- Relative branches with their displacements; `addr32` is the address-size prefix. -/
inductive Instruction where
  | jmp (d : Addr)
  | jcc (cc : BitVec 4) (d : Addr)
  | loop (kind : LoopKind) (addr32 : Bool) (d : Addr)
  | call (d : Addr)
  | other (o : Other)

/-! ## §2  Execution -/

/-- `rel d` goes `d` bytes on from the next instruction. -/
inductive Transfer where
  | next
  | rel (d : Addr)
  | jump (a : Addr)
  | call (a : Addr)
deriving DecidableEq, Repr

def Flow.transfer : Flow → Transfer
  | .next => .next
  | .jump a => .jump a
  | .call a => .call a

/-- One executed instruction: the address of its `rip`-relative operand, the state
after it and where it goes. -/
structure Step where
  operand : Option Addr
  state : State
  transfer : Transfer

/-- `rcx`, or `ecx` under the address-size prefix. -/
def loopCount (addr32 : Bool) (v : Addr) : Addr :=
  if addr32 then (v.setWidth 32).setWidth 64 else v

/-- `next` is the address of the next instruction. -/
def Instruction.exec (next : Addr) (s : State) : Instruction → Step
  | .jmp d => ⟨none, s, .rel d⟩
  | .jcc cc d => ⟨none, s, if cond s.rflags cc then .rel d else .next⟩
  | .loop kind addr32 d =>
      let s' := s.set .rcx (loopCount addr32 (s.reg .rcx - 1))
      let more := s'.reg .rcx ≠ 0
      match kind with
      | .loopne => ⟨none, s', if more ∧ ¬ zf s.rflags then .rel d else .next⟩
      | .loope => ⟨none, s', if more ∧ zf s.rflags then .rel d else .next⟩
      | .loop => ⟨none, s', if more then .rel d else .next⟩
      | .jrcxz => ⟨none, s, if loopCount addr32 (s.reg .rcx) = 0 then .rel d else .next⟩
  | .call d => ⟨none, s, .call (next + d)⟩
  | .other (.ripMem disp effect) =>
      let out := effect (next + disp) s
      ⟨some (next + disp), out.1, out.2.transfer⟩
  | .other (.plain effect) =>
      let out := effect s
      ⟨none, out.1, out.2.transfer⟩

theorem loopCount_sub_one_ne (addr32 : Bool) (v : Addr) : loopCount addr32 (v - 1) ≠ v := by
  cases addr32 with
  | false =>
      intro h
      simp only [loopCount, Bool.false_eq_true, if_false] at h
      bv_omega
  | true =>
      intro h
      have hnat := congrArg BitVec.toNat h
      have hone : (1 : Addr).toNat = 1 := rfl
      simp only [loopCount, if_true, BitVec.toNat_setWidth, BitVec.toNat_sub, hone] at hnat
      have hlt := v.isLt
      omega

/-! ## §3  Decoding -/

/-- The width of a displacement. -/
inductive Width where
  | rel8
  | rel32
deriving DecidableEq, Repr

def Width.size : Width → ℕ
  | .rel8 => 1
  | .rel32 => 4

/-- A displacement, sign-extended. -/
def Width.read : Width → List Byte → Option Addr
  | .rel8, d :: _ => some (d.signExtend 64)
  | .rel32, d₀ :: d₁ :: d₂ :: d₃ :: _ =>
      some ((d₃ ++ d₂ ++ d₁ ++ d₀ : BitVec 32).signExtend 64)
  | _, _ => none

def loopKind (op : Byte) : LoopKind :=
  if op = 0xE0 then .loopne else if op = 0xE1 then .loope
  else if op = 0xE2 then .loop else .jrcxz

/-- One-byte opcodes of relative branches. -/
def opcode (addr32 : Bool) (op : Byte) : Option (Width × (Addr → Instruction)) :=
  if op = 0xEB then some (.rel8, .jmp)
  else if op = 0xE9 then some (.rel32, .jmp)
  else if op = 0xE8 then some (.rel32, .call)
  else if op.extractLsb' 4 4 = 7 then some (.rel8, .jcc (op.setWidth 4))
  else if op.extractLsb' 2 6 = 0x38 then some (.rel8, .loop (loopKind op) addr32)
  else none

/-- Opcodes behind `0F`. -/
def opcode0F (op : Byte) : Option (Width × (Addr → Instruction)) :=
  if op.extractLsb' 4 4 = 8 then some (.rel32, .jcc (op.setWidth 4)) else none

/-- A displacement behind `k` bytes of opcode, with the length read. -/
def withDisp (k : ℕ) (bs : List Byte) (form : Width × (Addr → Instruction)) :
    Option (Instruction × ℕ) :=
  (form.1.read bs).map fun d => (form.2 d, k + form.1.size)

/-- A relative branch from its opcode on, with the length read. -/
def decodeOpcode (addr32 : Bool) : List Byte → Option (Instruction × ℕ)
  | [] => none
  | [op] => (opcode addr32 op).bind (withDisp 1 [])
  | op :: op' :: bs =>
      if op = 0x0F then (opcode0F op').bind (withDisp 2 bs)
      else (opcode addr32 op).bind (withDisp 1 (op' :: bs))

/-- Segment overrides and branch hints, the operand and the address size, `REPNE`/`BND`, `REP`
and the sixteen `REX` prefixes: none of them changes where a relative branch goes. Intel
processors ignore the operand size of a near branch. -/
def isPrefix (b : Byte) : Bool :=
  b ∈ ([0x26, 0x2E, 0x36, 0x3E, 0x64, 0x65, 0x66, 0x67, 0xF2, 0xF3] : List Byte) ∨
    b.extractLsb' 4 4 = 4

def decodeRel (addr32 : Bool) : List Byte → Option (Instruction × ℕ)
  | [] => none
  | b :: bs =>
      if isPrefix b then
        (decodeRel (addr32 || b = 0x67) bs).map fun r => (r.1, r.2 + 1)
      else decodeOpcode addr32 (b :: bs)

/-- The decoder of all other instructions reads no further than the instruction. -/
structure Cpu where
  other : List Byte → Option (Other × ℕ)
  reads : ∀ bs o n, other bs = some (o, n) →
    n ≤ bs.length ∧ other (bs.take n) = some (o, n)

def jumpThrough (a : Addr) (s : State) : State × Flow := (s, .jump (read64 s.mem a))

def callThrough (a : Addr) (s : State) : State × Flow := (s, .call (read64 s.mem a))

/-- `JMP [RIP+disp]` and `CALL [RIP+disp]`. -/
def opcodeFF (op : Byte) : Option (Width × (Addr → Instruction)) :=
  if op = 0x25 then some (.rel32, fun d => .other (.ripMem d jumpThrough))
  else if op = 0x15 then some (.rel32, fun d => .other (.ripMem d callThrough))
  else none

def decodeThrough : List Byte → Option (Instruction × ℕ)
  | op :: op' :: bs => if op = 0xFF then (opcodeFF op').bind (withDisp 2 bs) else none
  | _ => none

def Cpu.decode (cpu : Cpu) (bs : List Byte) : Option (Instruction × ℕ) :=
  (decodeThrough bs).or <| (decodeRel false bs).or <|
    (cpu.other bs).map fun r => (.other r.1, r.2)

/-! ## §4  Decoding reads no further than the instruction -/

section Local

variable {bs xs : List Byte} {r : Instruction × ℕ} {d : Addr} {addr32 : Bool} {w : Width} {k : ℕ}
  {form : Width × (Addr → Instruction)}

theorem Width.read_append (ys : List Byte) (h : w.read xs = some d) :
    w.read (xs ++ ys) = some d := by
  cases w with
  | rel8 =>
      match xs, h with
      | _ :: _, h => exact h
  | rel32 =>
      match xs, h with
      | _ :: _ :: _ :: _ :: _, h => exact h

theorem Width.read_take (h : w.read bs = some d) :
    w.size ≤ bs.length ∧ w.read (bs.take w.size) = some d := by
  cases w with
  | rel8 =>
      match bs, h with
      | _ :: _, h => exact ⟨by simp [Width.size], h⟩
  | rel32 =>
      match bs, h with
      | _ :: _ :: _ :: _ :: _, h => exact ⟨by simp [Width.size], h⟩

theorem withDisp_append (ys : List Byte) (h : withDisp k xs form = some r) :
    withDisp k (xs ++ ys) form = some r := by
  obtain ⟨d, hd, rfl⟩ := Option.map_eq_some_iff.mp h
  rw [withDisp, Width.read_append ys hd]
  rfl

theorem withDisp_take (h : withDisp k bs form = some r) :
    ∃ n, r.2 = k + n ∧ n ≤ bs.length ∧ withDisp k (bs.take n) form = some r := by
  obtain ⟨d, hd, rfl⟩ := Option.map_eq_some_iff.mp h
  obtain ⟨hlen, htake⟩ := Width.read_take hd
  exact ⟨form.1.size, rfl, hlen, by rw [withDisp, htake]; rfl⟩

theorem not_withDisp_nil : withDisp k [] form ≠ some r := by
  obtain ⟨w, mk⟩ := form
  cases w <;> simp [withDisp, Width.read]

theorem decodeOpcode_append (ys : List Byte) (h : decodeOpcode addr32 xs = some r) :
    decodeOpcode addr32 (xs ++ ys) = some r := by
  match xs, h with
  | [op], h =>
      obtain ⟨form, -, hform⟩ := Option.bind_eq_some_iff.mp h
      exact absurd hform not_withDisp_nil
  | op :: op' :: bs, h =>
      rw [List.cons_append, List.cons_append]
      rw [decodeOpcode] at h ⊢
      by_cases h0F : op = 0x0F
      · rw [if_pos h0F] at h ⊢
        obtain ⟨form, hop, hform⟩ := Option.bind_eq_some_iff.mp h
        rw [hop]
        exact withDisp_append ys hform
      · rw [if_neg h0F] at h ⊢
        obtain ⟨form, hop, hform⟩ := Option.bind_eq_some_iff.mp h
        rw [hop]
        exact withDisp_append ys hform

theorem decodeOpcode_take (h : decodeOpcode addr32 bs = some r) :
    r.2 ≤ bs.length ∧ decodeOpcode addr32 (bs.take r.2) = some r := by
  match bs, h with
  | [op], h =>
      obtain ⟨form, -, hform⟩ := Option.bind_eq_some_iff.mp h
      exact absurd hform not_withDisp_nil
  | op :: op' :: bs, h =>
      rw [decodeOpcode] at h
      by_cases h0F : op = 0x0F
      · rw [if_pos h0F] at h
        obtain ⟨form, hop, hform⟩ := Option.bind_eq_some_iff.mp h
        obtain ⟨n, hn, hlen, htake⟩ := withDisp_take hform
        refine ⟨by simp only [List.length_cons]; omega, ?_⟩
        rw [hn, Nat.add_comm 2 n, List.take_succ_cons, List.take_succ_cons, decodeOpcode,
          if_pos h0F, hop]
        exact htake
      · rw [if_neg h0F] at h
        obtain ⟨form, hop, hform⟩ := Option.bind_eq_some_iff.mp h
        obtain ⟨n, hn, hlen, htake⟩ := withDisp_take hform
        -- one opcode byte, so the first byte of the operand is `op'`
        cases n with
        | zero => exact absurd htake not_withDisp_nil
        | succ n =>
            refine ⟨by simp only [List.length_cons] at *; omega, ?_⟩
            rw [hn, Nat.add_comm 1, List.take_succ_cons, List.take_succ_cons, decodeOpcode,
              if_neg h0F, hop]
            exact htake

theorem decodeThrough_append (ys : List Byte) (h : decodeThrough xs = some r) :
    decodeThrough (xs ++ ys) = some r := by
  match xs, h with
  | op :: op' :: bs, h =>
      rw [decodeThrough] at h
      by_cases hFF : op = 0xFF
      · rw [if_pos hFF] at h
        obtain ⟨form, hop, hform⟩ := Option.bind_eq_some_iff.mp h
        rw [List.cons_append, List.cons_append, decodeThrough, if_pos hFF, hop]
        exact withDisp_append ys hform
      · rw [if_neg hFF] at h
        cases h

theorem decodeThrough_take (h : decodeThrough bs = some r) :
    r.2 ≤ bs.length ∧ decodeThrough (bs.take r.2) = some r := by
  match bs, h with
  | op :: op' :: bs, h =>
      rw [decodeThrough] at h
      by_cases hFF : op = 0xFF
      · rw [if_pos hFF] at h
        obtain ⟨form, hop, hform⟩ := Option.bind_eq_some_iff.mp h
        obtain ⟨n, hn, hlen, htake⟩ := withDisp_take hform
        refine ⟨by simp only [List.length_cons]; omega, ?_⟩
        rw [hn, Nat.add_comm 2 n, List.take_succ_cons, List.take_succ_cons, decodeThrough,
          if_pos hFF, hop]
        exact htake
      · rw [if_neg hFF] at h
        cases h

theorem decodeRel_append (ys : List Byte) (h : decodeRel addr32 xs = some r) :
    decodeRel addr32 (xs ++ ys) = some r := by
  induction xs generalizing addr32 r with
  | nil => cases h
  | cons b bs ih =>
      rw [List.cons_append]
      rw [decodeRel] at h ⊢
      by_cases hp : isPrefix b
      · rw [if_pos hp] at h ⊢
        obtain ⟨r', hr', rfl⟩ := Option.map_eq_some_iff.mp h
        rw [ih hr']
        rfl
      · rw [if_neg hp] at h ⊢
        exact decodeOpcode_append ys h

theorem decodeRel_take (h : decodeRel addr32 bs = some r) :
    r.2 ≤ bs.length ∧ decodeRel addr32 (bs.take r.2) = some r := by
  induction bs generalizing addr32 r with
  | nil => cases h
  | cons b bs ih =>
      rw [decodeRel] at h
      by_cases hp : isPrefix b
      · rw [if_pos hp] at h
        obtain ⟨r', hr', rfl⟩ := Option.map_eq_some_iff.mp h
        obtain ⟨hlen, htake⟩ := ih hr'
        refine ⟨by simpa using hlen, ?_⟩
        rw [List.take_succ_cons, decodeRel, if_pos hp, htake]
        rfl
      · rw [if_neg hp] at h
        obtain ⟨hlen, htake⟩ := decodeOpcode_take h
        refine ⟨hlen, ?_⟩
        cases hr : r.2 with
        | zero => rw [hr] at htake; cases htake
        | succ n =>
            rw [hr] at htake
            rw [List.take_succ_cons] at htake ⊢
            rw [decodeRel, if_neg hp]
            exact htake

theorem none_of_append {f : List Byte → Option (Instruction × ℕ)} {n : ℕ}
    (append : ∀ {xs r} ys, f xs = some r → f (xs ++ ys) = some r) (h : f bs = none) :
    f (bs.take n) = none := by
  cases htake : f (bs.take n) with
  | none => rfl
  | some r =>
      have hsome := append (bs.drop n) htake
      rw [List.take_append_drop, h] at hsome
      cases hsome

/-- An instruction's own bytes decode to it. -/
theorem Cpu.decode_take {cpu : Cpu} (h : cpu.decode bs = some r) :
    r.2 ≤ bs.length ∧ cpu.decode (bs.take r.2) = some r := by
  unfold Cpu.decode at h ⊢
  cases hthrough : decodeThrough bs with
  | some r' =>
      obtain rfl : r' = r := by simpa [hthrough] using h
      obtain ⟨hlen, htake⟩ := decodeThrough_take hthrough
      exact ⟨hlen, by rw [htake]; rfl⟩
  | none =>
      rw [none_of_append decodeThrough_append hthrough]
      rw [hthrough] at h
      cases hrel : decodeRel false bs with
      | some r' =>
          obtain rfl : r' = r := by simpa [hrel] using h
          obtain ⟨hlen, htake⟩ := decodeRel_take hrel
          exact ⟨hlen, by rw [htake]; rfl⟩
      | none =>
          rw [none_of_append decodeRel_append hrel]
          rw [hrel] at h
          obtain ⟨⟨o, n⟩, ho, rfl⟩ := Option.map_eq_some_iff.mp h
          obtain ⟨hlen, htake⟩ := cpu.reads _ _ _ ho
          exact ⟨hlen, by rw [htake]; rfl⟩

end Local

/-! ## §5  The first two bytes -/

/-- What the first two bytes say of a decoded instruction. -/
inductive Shape (b₀ b₁ : Byte) : Instruction → Prop
  | prefixed (i : Instruction) (h : isPrefix b₀ = true) : Shape b₀ b₁ i
  | jmp8 (d : Addr) (h : b₀ = 0xEB) : Shape b₀ b₁ (.jmp d)
  | jmp32 (d : Addr) (h : b₀ = 0xE9) : Shape b₀ b₁ (.jmp d)
  | call (d : Addr) (h : b₀ = 0xE8) : Shape b₀ b₁ (.call d)
  | jcc8 (d : Addr) (h : b₀.extractLsb' 4 4 = 7) : Shape b₀ b₁ (.jcc (b₀.setWidth 4) d)
  | jcc32 (d : Addr) (h : b₀ = 0x0F) (h' : b₁.extractLsb' 4 4 = 8) :
      Shape b₀ b₁ (.jcc (b₁.setWidth 4) d)
  | loop (kind : LoopKind) (addr32 : Bool) (d : Addr) (h : b₀.extractLsb' 2 6 = 0x38) :
      Shape b₀ b₁ (.loop kind addr32 d)
  | other (o : Other) (hcall : b₀ ≠ 0xE8) (hjmp : b₀ ≠ 0xE9) : Shape b₀ b₁ (.other o)

section Shapes

variable {b₀ b₁ : Byte} {bs : List Byte} {i : Instruction} {n : ℕ}

theorem shape_of_opcode {form : Width × (Addr → Instruction)} {addr32 : Bool} (d : Addr)
    (h : opcode addr32 b₀ = some form) : Shape b₀ b₁ (form.2 d) := by
  unfold opcode at h
  split_ifs at h with h₁ h₂ h₃ h₄ h₅ <;> obtain rfl := Option.some.inj h
  · exact .jmp8 d h₁
  · exact .jmp32 d h₂
  · exact .call d h₃
  · exact .jcc8 d h₄
  · exact .loop _ _ d h₅

theorem shape_of_decodeRel (h : decodeRel false (b₀ :: b₁ :: bs) = some (i, n)) :
    Shape b₀ b₁ i := by
  rw [decodeRel] at h
  by_cases hp : isPrefix b₀
  · exact .prefixed i hp
  · rw [if_neg hp, decodeOpcode] at h
    by_cases h0F : b₀ = 0x0F
    · rw [if_pos h0F] at h
      obtain ⟨form, hop, hform⟩ := Option.bind_eq_some_iff.mp h
      obtain ⟨d, -, hd⟩ := Option.map_eq_some_iff.mp hform
      obtain ⟨rfl, -⟩ := Prod.mk.inj hd
      unfold opcode0F at hop
      split_ifs at hop with h8
      obtain rfl := Option.some.inj hop
      exact .jcc32 d h0F h8
    · rw [if_neg h0F] at h
      obtain ⟨form, hop, hform⟩ := Option.bind_eq_some_iff.mp h
      obtain ⟨d, -, hd⟩ := Option.map_eq_some_iff.mp hform
      obtain ⟨rfl, -⟩ := Prod.mk.inj hd
      exact shape_of_opcode d hop

/-- `E8` and `E9` with a whole displacement are relative branches. -/
theorem decodeRel_near (hlen : 3 ≤ bs.length) (h : b₀ = 0xE8 ∨ b₀ = 0xE9) :
    decodeRel false (b₀ :: b₁ :: bs) ≠ none := by
  match bs, hlen with
  | _ :: _ :: _ :: bs, _ =>
      obtain rfl | rfl := h <;> exact Option.some_ne_none _

theorem Cpu.shape {cpu : Cpu} (hlen : 3 ≤ bs.length)
    (h : cpu.decode (b₀ :: b₁ :: bs) = some (i, n)) : Shape b₀ b₁ i := by
  unfold Cpu.decode at h
  cases hthrough : decodeThrough (b₀ :: b₁ :: bs) with
  | some r =>
      obtain rfl : r = (i, n) := by simpa [hthrough] using h
      rw [decodeThrough] at hthrough
      by_cases hFF : b₀ = 0xFF
      · rw [if_pos hFF] at hthrough
        obtain ⟨form, hop, hform⟩ := Option.bind_eq_some_iff.mp hthrough
        obtain ⟨d, -, hd⟩ := Option.map_eq_some_iff.mp hform
        obtain ⟨rfl, -⟩ := Prod.mk.inj hd
        unfold opcodeFF at hop
        split_ifs at hop <;> obtain rfl := Option.some.inj hop <;>
          exact .other _ (by rw [hFF]; decide) (by rw [hFF]; decide)
      · rw [if_neg hFF] at hthrough
        cases hthrough
  | none =>
      rw [hthrough] at h
      cases hrel : decodeRel false (b₀ :: b₁ :: bs) with
      | some r =>
          obtain rfl : r = (i, n) := by simpa [hrel] using h
          exact shape_of_decodeRel hrel
      | none =>
          rw [hrel] at h
          obtain ⟨⟨o, n'⟩, -, ho⟩ := Option.map_eq_some_iff.mp h
          obtain ⟨rfl, -⟩ := Prod.mk.inj ho
          -- `E8` and `E9` with four bytes of displacement would have decoded as near branches
          refine .other o ?_ ?_
          · intro hE8
            exact decodeRel_near hlen (.inl hE8) hrel
          · intro hE9
            exact decodeRel_near hlen (.inr hE9) hrel

end Shapes

end X86

end Foundation
