import Chromatic.Foundation.Memory
import Mathlib.Logic.Function.Basic
import Mathlib.Data.List.Nodup

/-!
# A fragment of x86-64

General registers, flags and the stack. Decoding is left to the user: only the
effect of pushes, pops, flag tests and flag updates is defined here.

§1 state · §2 flags and condition codes · §3 flags that user code loads · §4 words on
the stack · §5 pushing and popping registers.
-/

namespace Foundation

namespace X86

/-! ## §1  State -/

inductive Reg where
  | rax | rcx | rdx | rbx | rsp | rbp | rsi | rdi
  | r8 | r9 | r10 | r11 | r12 | r13 | r14 | r15
deriving DecidableEq, Repr

/-- The program counter is kept apart. Of the flags, those that `PUSHFQ` clears in
its image are taken to be clear. -/
structure State where
  reg : Reg → BitVec 64
  rflags : BitVec 64
  mem : Memory

def State.set (s : State) (r : Reg) (v : BitVec 64) : State :=
  { s with reg := Function.update s.reg r v }

def State.push (s : State) (v : BitVec 64) : State :=
  { s with
    reg := Function.update s.reg .rsp (s.reg .rsp - 8)
    mem := write64 s.mem (s.reg .rsp - 8) v }

/-- The word on top of the stack, and the state without it. -/
def State.pop (s : State) : BitVec 64 × State :=
  (read64 s.mem (s.reg .rsp), s.set .rsp (s.reg .rsp + 8))

section Projections

variable (s : State) (r : Reg) (v : BitVec 64)

@[simp] theorem State.set_reg_self : (s.set r v).reg r = v := by simp [State.set]

@[simp] theorem State.set_reg_ne {r r' : Reg} (h : r' ≠ r) :
    (s.set r v).reg r' = s.reg r' := by
  simp [State.set, h]

@[simp] theorem State.set_rflags : (s.set r v).rflags = s.rflags := rfl
@[simp] theorem State.set_mem : (s.set r v).mem = s.mem := rfl

@[simp] theorem State.push_rsp : (s.push v).reg .rsp = s.reg .rsp - 8 := by
  simp [State.push]

@[simp] theorem State.push_reg_ne {r : Reg} (h : r ≠ .rsp) : (s.push v).reg r = s.reg r := by
  simp [State.push, h]

@[simp] theorem State.push_rflags : (s.push v).rflags = s.rflags := rfl

@[simp] theorem State.push_mem : (s.push v).mem = write64 s.mem (s.reg .rsp - 8) v := rfl

end Projections

/-! ## §2  Flags and condition codes -/

def cf (f : BitVec 64) : Bool := f.getLsbD 0
def pf (f : BitVec 64) : Bool := f.getLsbD 2
def zf (f : BitVec 64) : Bool := f.getLsbD 6
def sf (f : BitVec 64) : Bool := f.getLsbD 7
def of (f : BitVec 64) : Bool := f.getLsbD 11

/-- The eight tests of the even condition codes: O, B, Z, BE, S, P, L, LE. -/
def test (f : BitVec 64) : ℕ → Bool
  | 0 => of f
  | 1 => cf f
  | 2 => zf f
  | 3 => cf f || zf f
  | 4 => sf f
  | 5 => pf f
  | 6 => sf f != of f
  | _ => zf f || (sf f != of f)

/-- The condition in the low four bits of an opcode: an odd code negates the even
one below it. -/
def cond (f : BitVec 64) (cc : BitVec 4) : Bool :=
  test f (cc.toNat / 2) != cc.getLsbD 0

theorem cond_xor_one (f : BitVec 64) (cc : BitVec 4) : cond f (cc ^^^ 1) = !cond f cc := by
  have hhalf : (cc ^^^ 1).toNat / 2 = cc.toNat / 2 := by revert cc; decide
  have hbit : (cc ^^^ 1).getLsbD 0 = !cc.getLsbD 0 := by revert cc; decide
  rw [cond, cond, hhalf, hbit]
  cases test f (cc.toNat / 2) <;> cases cc.getLsbD 0 <;> rfl

def setBit (f : BitVec 64) (i : ℕ) (b : Bool) : BitVec 64 :=
  if b then f ||| (1 : BitVec 64) <<< i else f &&& ~~~((1 : BitVec 64) <<< i)

/-- The status flags of a result, with carry, auxiliary carry and overflow given. -/
def statusFlags (f r : BitVec 64) (carry aux overflow : Bool) : BitVec 64 :=
  let parity := ((List.range 8).filter r.getLsbD).length % 2 = 0
  setBit (setBit (setBit (setBit (setBit (setBit f 0 carry) 2 parity) 4 aux) 6 (r = 0)) 7
    r.msb) 11 overflow

def addFlags (f a b : BitVec 64) : BitVec 64 :=
  statusFlags f (a + b) (2 ^ 64 ≤ a.toNat + b.toNat) (16 ≤ a.toNat % 16 + b.toNat % 16)
    (a.msb = b.msb ∧ (a + b).msb ≠ a.msb)

def subFlags (f a b : BitVec 64) : BitVec 64 :=
  statusFlags f (a - b) (a.toNat < b.toNat) (a.toNat % 16 < b.toNat % 16)
    (a.msb ≠ b.msb ∧ (a - b).msb ≠ a.msb)

/-! ## §3  Flags that user code loads -/

/-- CF, PF, AF, ZF, SF, TF, DF, OF, NT, AC and ID. -/
def userFlags : BitVec 64 := 0x244DD5

/-- The flags after user code has loaded `v`: IF, IOPL, RF, VM, VIF, VIP and the reserved bits
stay. -/
def loadFlags (f v : BitVec 64) : BitVec 64 := (v &&& userFlags) ||| (f &&& ~~~userFlags)

/-- Flags that are the same where user code cannot change them. -/
def SameSystem (f g : BitVec 64) : Prop := f &&& ~~~userFlags = g &&& ~~~userFlags

section Flags

variable {f g h v : BitVec 64}

theorem SameSystem.trans (hfg : SameSystem f g) (hgh : SameSystem g h) : SameSystem f h :=
  Eq.trans hfg hgh

theorem sameSystem_loadFlags (f v : BitVec 64) : SameSystem (loadFlags f v) f := by
  unfold SameSystem loadFlags
  ext i hi
  simp only [BitVec.getElem_and, BitVec.getElem_or, BitVec.getElem_not]
  cases userFlags[i] <;> simp

theorem loadFlags_congr (hfg : SameSystem f g) (v : BitVec 64) : loadFlags f v = loadFlags g v :=
  congrArg (v &&& userFlags ||| ·) hfg

@[simp] theorem loadFlags_self (f : BitVec 64) : loadFlags f f = f := by
  unfold loadFlags
  ext i hi
  simp only [BitVec.getElem_and, BitVec.getElem_or, BitVec.getElem_not]
  cases userFlags[i] <;> simp

theorem sameSystem_setBit {i : ℕ} (hi : userFlags.getLsbD i = true) (b : Bool) :
    SameSystem (setBit f i b) f := by
  unfold SameSystem setBit
  rw [show (1 : BitVec 64) <<< i = BitVec.twoPow 64 i from rfl]
  apply BitVec.eq_of_getLsbD_eq
  intro j hj
  by_cases hij : i = j
  · subst hij
    simp [hi]
  · cases b <;> simp [BitVec.getLsbD_twoPow, hij, hj, -BitVec.getLsbD_eq_getElem]

/-- Arithmetic sets status flags only. -/
theorem sameSystem_statusFlags (r : BitVec 64) (carry aux overflow : Bool) :
    SameSystem (statusFlags f r carry aux overflow) f :=
  (sameSystem_setBit rfl _).trans <| (sameSystem_setBit rfl _).trans <|
    (sameSystem_setBit rfl _).trans <| (sameSystem_setBit rfl _).trans <|
      (sameSystem_setBit rfl _).trans (sameSystem_setBit rfl _)

end Flags

/-! ## §4  Words on the stack -/

/-- The `k`-th word from `sp` upwards. -/
def slot (sp : Addr) (k : ℕ) : Addr := sp + BitVec.ofNat 64 (8 * k)

/-- The words from `sp` upwards are `vs`. -/
def Stacked (m : Memory) (sp : Addr) (vs : List (BitVec 64)) : Prop :=
  ∀ k v, vs[k]? = some v → read64 m (slot sp k) = v

@[simp] theorem slot_zero (sp : Addr) : slot sp 0 = sp := by simp [slot]

theorem slot_succ (sp : Addr) (k : ℕ) : slot (sp - 8) (k + 1) = slot sp k := by
  unfold slot
  bv_omega

theorem slot_add (sp : Addr) (j k : ℕ) : slot (slot sp j) k = slot sp (j + k) := by
  unfold slot
  bv_omega

/-- Words less than the address space apart do not overlap. -/
theorem slot_apart {sp : Addr} {j k : ℕ} (hne : j ≠ k) (hj : 8 * (j + 1) ≤ 2 ^ 64)
    (hk : 8 * (k + 1) ≤ 2 ^ 64) : ¬ Overlap (slot sp j) 8 (slot sp k) 8 := by
  rw [overlap_iff (by decide) (by decide)]
  unfold InRegion offset slot
  rintro (h | h) <;> bv_omega

/-- Memories agree on a block of words if they do on its bytes. -/
theorem words_eq_iff {m m' : Memory} {sp : Addr} {n : ℕ} (hn : 8 * n ≤ 2 ^ 64) :
    (∀ k < n, read64 m (slot sp k) = read64 m' (slot sp k)) ↔
      ∀ x, InRegion sp (8 * n) x → m x = m' x := by
  constructor
  · intro h x hx
    have hoff : offset sp x < 8 * n := hx
    have hk : offset sp x / 8 < n := by omega
    apply byte_eq_of_read64_eq (h _ hk)
    unfold InRegion offset slot at *
    bv_omega
  · intro h k hk
    apply read64_congr
    intro x hx
    apply h x
    unfold InRegion offset slot at *
    bv_omega

section Stack

variable {m m' : Memory} {sp : Addr} {v : BitVec 64} {vs ws : List (BitVec 64)}

theorem Stacked.cons (hv : read64 m (sp - 8) = v) (h : Stacked m sp vs) :
    Stacked m (sp - 8) (v :: vs) := by
  intro k w hk
  cases k with
  | zero =>
      obtain rfl : v = w := by simpa using hk
      simpa using hv
  | succ k =>
      rw [slot_succ]
      exact h k w (by simpa using hk)

/-- The words on the stack stay when another word is written. -/
theorem Stacked.write {j : ℕ} (h : Stacked m sp vs) (hj : 8 * (j + 1) ≤ 2 ^ 64)
    (hlen : 8 * vs.length ≤ 2 ^ 64) :
    Stacked (write64 m (slot sp j) v) sp (vs.set j v) := by
  intro k w hk
  have hlt : k < vs.length := by
    have := (List.getElem?_eq_some_iff.mp hk).1
    simpa using this
  by_cases hjk : j = k
  · subst hjk
    obtain rfl : v = w := by simpa [hlt] using hk
    exact read64_write64_self m _ v
  · rw [read64_write64_apart (slot_apart hjk hj (by omega))]
    exact h k w (by rwa [List.getElem?_set_ne hjk] at hk)

theorem Stacked.push (h : Stacked m sp vs) (hlen : 8 * (vs.length + 1) ≤ 2 ^ 64) :
    Stacked (write64 m (sp - 8) v) (sp - 8) (v :: vs) := by
  refine Stacked.cons (read64_write64_self m _ v) fun k w hk => ?_
  have hlt : k < vs.length := (List.getElem?_eq_some_iff.mp hk).1
  rw [read64_write64_apart]
  · exact h k w hk
  · rw [← slot_succ, ← slot_zero (sp - 8)]
    simp only [slot_zero]
    have := @slot_apart (sp - 8) 0 (k + 1) (by omega) (by omega) (by omega)
    simpa using this

theorem Stacked.append_right (h : Stacked m sp (vs ++ ws)) :
    Stacked m (slot sp vs.length) ws := by
  intro k w hk
  rw [slot_add]
  exact h _ w (by rw [List.getElem?_append_right (by omega)]; simpa using hk)

theorem Stacked.congr (h : Stacked m sp vs) (hlen : 8 * vs.length ≤ 2 ^ 64)
    (hm : ∀ x, InRegion sp (8 * vs.length) x → m' x = m x) : Stacked m' sp vs := by
  intro k w hk
  have hlt : k < vs.length := (List.getElem?_eq_some_iff.mp hk).1
  rw [← h k w hk]
  refine read64_congr fun x hx => hm x ?_
  unfold InRegion offset slot at *
  bv_omega

end Stack

/-! ## §5  Pushing and popping registers -/

def pushRegs (rs : List Reg) (s : State) : State :=
  rs.foldl (fun s r => s.push (s.reg r)) s

def popRegs (rs : List Reg) (s : State) : State :=
  rs.foldl (fun s r => s.pop.2.set r s.pop.1) s

section Registers

variable {rs : List Reg} {s : State} {vs ws : List (BitVec 64)}

@[simp] theorem pushRegs_nil : pushRegs [] s = s := rfl

@[simp] theorem pushRegs_cons {r : Reg} :
    pushRegs (r :: rs) s = pushRegs rs (s.push (s.reg r)) := rfl

@[simp] theorem popRegs_nil : popRegs [] s = s := rfl

@[simp] theorem popRegs_cons {r : Reg} :
    popRegs (r :: rs) s = popRegs rs (s.pop.2.set r s.pop.1) := rfl

/-- Pushed registers lie on the stack, the last one on top. -/
theorem pushRegs_stacked (hrs : .rsp ∉ rs) (h : Stacked s.mem (s.reg .rsp) vs)
    (hlen : 8 * (rs.length + vs.length) ≤ 2 ^ 64) :
    Stacked (pushRegs rs s).mem ((pushRegs rs s).reg .rsp) ((rs.map s.reg).reverse ++ vs) ∧
      (pushRegs rs s).reg .rsp = s.reg .rsp - BitVec.ofNat 64 (8 * rs.length) := by
  induction rs generalizing s vs with
  | nil => exact ⟨h, by simp⟩
  | cons r rs ih =>
      have hrest : .rsp ∉ rs := fun h => hrs (List.mem_cons_of_mem _ h)
      have hpush : Stacked (s.push (s.reg r)).mem ((s.push (s.reg r)).reg .rsp)
          (s.reg r :: vs) := by
        rw [State.push_mem, State.push_rsp]
        apply h.push
        simp only [List.length_cons] at hlen
        omega
      have hsame : rs.map (s.push (s.reg r)).reg = rs.map s.reg :=
        List.map_congr_left fun r' hr' =>
          State.push_reg_ne _ _ fun heq => hrest (heq ▸ hr')
      obtain ⟨hstack, hrsp⟩ := ih hrest hpush (by simp only [List.length_cons] at *; omega)
      rw [pushRegs_cons]
      refine ⟨by simpa [hsame] using hstack, ?_⟩
      rw [hrsp, State.push_rsp, List.length_cons]
      bv_omega

@[simp] theorem pushRegs_rflags : (pushRegs rs s).rflags = s.rflags := by
  induction rs generalizing s with
  | nil => rfl
  | cons r rs ih => rw [pushRegs_cons, ih, State.push_rflags]

@[simp] theorem popRegs_mem : (popRegs rs s).mem = s.mem := by
  induction rs generalizing s with
  | nil => rfl
  | cons r rs ih => rw [popRegs_cons, ih]; rfl

/-- Popping reads the words on the stack into the registers. -/
theorem popRegs_spec (hrs : .rsp ∉ rs) (hnodup : rs.Nodup)
    (h : Stacked s.mem (s.reg .rsp) (vs ++ ws)) (hlen : vs.length = rs.length) :
    (popRegs rs s).mem = s.mem ∧ (popRegs rs s).rflags = s.rflags ∧
      (popRegs rs s).reg .rsp = slot (s.reg .rsp) rs.length ∧
      (∀ r, r ∉ rs → r ≠ .rsp → (popRegs rs s).reg r = s.reg r) ∧
      ∀ (k : ℕ) (r : Reg) (v : BitVec 64), rs[k]? = some r → vs[k]? = some v →
        (popRegs rs s).reg r = v := by
  induction rs generalizing s vs with
  | nil => exact ⟨rfl, rfl, by simp, fun _ _ _ => rfl, fun k r v hk => by simp at hk⟩
  | cons r rs ih =>
      obtain ⟨hnot, hnodup'⟩ := List.nodup_cons.mp hnodup
      have hrest : .rsp ∉ rs := fun h => hrs (List.mem_cons_of_mem _ h)
      have hr : r ≠ .rsp := fun heq => hrs (heq ▸ List.mem_cons_self)
      cases vs with
      | nil => simp at hlen
      | cons v vs =>
          let s' := s.pop.2.set r s.pop.1
          have hrsp : s'.reg .rsp = slot (s.reg .rsp) 1 := by
            simp [s', State.pop, slot, Ne.symm hr]
          have hstack : Stacked s'.mem (s'.reg .rsp) (vs ++ ws) := by
            rw [hrsp]
            exact @Stacked.append_right _ _ [v] _ h
          obtain ⟨hmem, hflags, hsp, hother, hpopped⟩ :=
            ih hrest hnodup' hstack (by simpa using hlen)
          rw [popRegs_cons]
          refine ⟨hmem, hflags, ?_, fun r' hr' hne => ?_, fun k r' v' hk hv => ?_⟩
          · rw [hsp, hrsp, slot_add, List.length_cons, Nat.add_comm]
          · have hne' : r' ≠ r := fun heq => hr' (heq ▸ List.mem_cons_self)
            rw [hother r' (fun h => hr' (List.mem_cons_of_mem _ h)) hne]
            simp [s', State.pop, hne, hne']
          · cases k with
            -- the first register gets the top word, and later pops are of other registers
            | zero =>
                obtain rfl : r = r' := by simpa using hk
                obtain rfl : v = v' := by simpa using hv
                rw [hother r hnot hr]
                simpa [s', State.pop] using h 0 v rfl
            | succ k => exact hpopped k r' v' (by simpa using hk) (by simpa using hv)

end Registers

end X86

end Foundation
