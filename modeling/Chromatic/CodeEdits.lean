import Chromatic.Foundation.Shadows
import Chromatic.TypedMemory

/-!
# Code patched through a copy

`Memory.patchCode` lets the script edit a copy of the code and writes the copy back. Whatever it
writes there, the code comes out as if it had been written in place.

§1 patchCode · §2 the same in place · §3 one call · §4 many calls.
-/

namespace Chromatic

open Foundation TypedMemory

namespace CodeEdits

/-! ## §1  patchCode -/

/-- A call, with the buffer that `Memory.alloc` gives it, what `apply` writes into the buffer, by
offsets, and whether it throws at the end. -/
structure Call where
  address : Addr
  size : ℕ
  buf : Addr
  edits : List (ℕ × Write)
  throws : Bool

/-- The edits at their places from `a` on. -/
def placed (a : Addr) (edits : List (ℕ × Write)) : List (Addr × Write) :=
  edits.map fun e => (a + BitVec.ofNat 64 e.1, e.2)

/-- The bytes go where they belong; the page protections around it are `CodePages`'. -/
def nativePatchCode (address : Addr) (bytes : List Byte) (m : Memory) : Memory :=
  writeBytes m address bytes

/-- An exception of `apply` leaves the code alone, and the buffer is never freed. -/
def patchCode (ptrSize : ℕ) (c : Call) (m : Memory) : Memory :=
  let m := copyMemory c.buf c.address c.size m
  let m := after ptrSize (placed c.buf c.edits) m
  if c.throws then m
  else
    let bytes := readBytes m c.buf c.size
    nativePatchCode c.address bytes m

def patchAll (ptrSize : ℕ) (calls : List Call) (m : Memory) : Memory :=
  calls.foldl (fun m c => patchCode ptrSize c m) m

/-! ## §2  The same in place -/

/-- What is copied from the buffer is copied from the code. -/
def Call.moved (c : Call) : Write → Write
  | .copyFrom src n =>
      if offset c.buf src + n ≤ c.size then
        .copyFrom (c.address + BitVec.ofNat 64 (offset c.buf src)) n
      else .copyFrom src n
  | w => w

def Call.inPlace (c : Call) : List (Addr × Write) :=
  if c.throws then [] else placed c.address (c.edits.map fun e => (e.1, c.moved e.2))

/-- The bytes of buffers. -/
def buffers (calls : List Call) : Set Addr := {x | ∃ c ∈ calls, InRegion c.buf c.size x}

/-- The script stays within its buffer, which is not part of the code, and copies from within it
or from elsewhere. `U` has all buffers. -/
structure Proper (ptrSize : ℕ) (U : Set Addr) (c : Call) : Prop where
  size : c.size ≤ 2 ^ 64
  code : Clear c.address c.size U
  within : ∀ e ∈ c.edits, e.1 + e.2.length ptrSize ≤ c.size
  sources : ∀ e ∈ c.edits, ∀ src n, e.2 = .copyFrom src n →
    offset c.buf src + n ≤ c.size ∨
      ¬ Overlap src n c.buf c.size ∧ ¬ Overlap src n c.address c.size ∧ Clear src n U

@[simp] theorem Call.length_moved (c : Call) (ptrSize : ℕ) (w : Write) :
    (c.moved w).length ptrSize = w.length ptrSize := by
  cases w with
  | copyFrom src n =>
      simp only [Call.moved]
      split_ifs
      · rfl
      · rfl
  | u8 v | s8 v | u16 v | s16 v | u32 v | s32 v | u64 v | s64 v | pointer v => rfl
  | byteArray bytes | utf8String str => rfl

/-! ## §3  One call -/

section Patch

variable {ptrSize : ℕ} {U : Set Addr} {c : Call} {m m' : Memory} {x : Addr}

/-- An edit of the copy and the one in place write the same bytes. -/
theorem bytes_moved {e : ℕ × Write} (hproper : Proper ptrSize U c) (he : e ∈ c.edits)
    (h : Shadows c.buf c.address c.size U m m') :
    (c.moved e.2).bytes ptrSize m' = e.2.bytes ptrSize m := by
  have hsources := hproper.sources e he
  cases hw : e.2 with
  | copyFrom src n =>
      simp only [Call.moved]
      by_cases hin : offset c.buf src + n ≤ c.size
      · have hread := h.readBytes_inside hin
        rw [add_offset] at hread
        rw [if_pos hin]
        exact hread.symm
      · obtain ⟨hbuf, hcode, hclear⟩ := (hsources src n hw).resolve_left hin
        rw [if_neg hin]
        exact (h.readBytes_outside hbuf hcode hclear).symm
  | u8 v | s8 v | u16 v | s16 v | u32 v | s32 v | u64 v | s64 v | pointer v => rfl
  | byteArray bytes | utf8String str => rfl

theorem Shadows.edits (hsize : c.size ≤ 2 ^ 64) (edits : List (ℕ × Write))
    (hwithin : ∀ e ∈ edits, e.1 + e.2.length ptrSize ≤ c.size)
    (hbytes : ∀ e ∈ edits, ∀ m m', Shadows c.buf c.address c.size U m m' →
      (c.moved e.2).bytes ptrSize m' = e.2.bytes ptrSize m)
    (h : Shadows c.buf c.address c.size U m m') :
    Shadows c.buf c.address c.size U (after ptrSize (placed c.buf edits) m)
      (after ptrSize (placed c.address (edits.map fun e => (e.1, c.moved e.2))) m') := by
  induction edits generalizing m m' with
  | nil => exact h
  | cons e edits ih =>
      obtain ⟨hfirst, hrest⟩ := List.forall_mem_cons.mp hwithin
      obtain ⟨hsame, hothers⟩ := List.forall_mem_cons.mp hbytes
      refine ih hrest hothers ?_
      have hlength : e.2.length ptrSize ≤ 2 ^ 64 :=
        (Nat.le_add_left _ _).trans (hfirst.trans hsize)
      show Shadows c.buf c.address c.size U (e.2.exec ptrSize _ m) ((c.moved e.2).exec ptrSize _ m')
      rw [e.2.exec_eq _ m hlength, (c.moved e.2).exec_eq _ m' (by rwa [Call.length_moved]),
        hsame m m' h]
      apply h.write
      rwa [Write.length_bytes]

/-- Nothing outside the buffer is written. -/
theorem after_placed {edits : List (ℕ × Write)}
    (hwithin : ∀ e ∈ edits, e.1 + e.2.length ptrSize ≤ c.size)
    (hx : ¬ InRegion c.buf c.size x) : after ptrSize (placed c.buf edits) m x = m x := by
  have hspared : Spared ptrSize (placed c.buf edits) x 1 := by
    rintro p hp ⟨y, hy, hyx⟩
    obtain ⟨e, he, rfl⟩ := List.mem_map.mp hp
    obtain rfl : y = x := by
      unfold InRegion offset at hyx
      bv_omega
    exact hx (inRegion_of_part (hwithin e he) hy)
  have hbyte := readBytes_after (m := m) hspared
  rw [readBytes_one, readBytes_one] at hbyte
  exact (List.cons.inj hbyte).1

/-- One call does what its edits in place do. -/
theorem patchCode_in_place (hproper : Proper ptrSize U c)
    (hbuf : ∀ x, InRegion c.buf c.size x → x ∈ U) (hagree : ∀ x, x ∉ U → m x = m' x)
    (hx : x ∉ U) : patchCode ptrSize c m x = after ptrSize c.inPlace m' x := by
  have hnot : ¬ InRegion c.buf c.size x := mt (hbuf x) hx
  have hstart : Shadows c.buf c.address c.size U (copyMemory c.buf c.address c.size m) m' :=
    .of_copy hagree hproper.size hproper.code
  have hedited := Shadows.edits hproper.size c.edits hproper.within
    (fun e he _ _ => bytes_moved hproper he) hstart
  unfold patchCode Call.inPlace
  by_cases hthrows : c.throws = true
  · simp only [if_pos hthrows]
    rw [after_placed hproper.within hnot, copyMemory, writeBytes_outside]
    · exact hagree x hx
    · rwa [length_readBytes]
  · simp only [if_neg hthrows]
    exact hedited.write_back hnot hx

end Patch

/-! ## §4  Many calls -/

section Calls

variable {ptrSize : ℕ} {m : Memory} {x : Addr}

theorem patchAll_agree {U : Set Addr} (calls : List Call) {m m' : Memory}
    (hproper : ∀ c ∈ calls, Proper ptrSize U c)
    (hbuf : ∀ c ∈ calls, ∀ x, InRegion c.buf c.size x → x ∈ U)
    (hagree : ∀ x, x ∉ U → m x = m' x) (hx : x ∉ U) :
    patchAll ptrSize calls m x = after ptrSize (calls.flatMap Call.inPlace) m' x := by
  induction calls generalizing m m' with
  | nil => exact hagree x hx
  | cons c calls ih =>
      obtain ⟨hfirst, hrest⟩ := List.forall_mem_cons.mp hproper
      obtain ⟨hown, hothers⟩ := List.forall_mem_cons.mp hbuf
      rw [List.flatMap_cons, after_append]
      exact ih hrest hothers fun y hy => patchCode_in_place hfirst hown hagree hy

/-- **Patching through copies is patching in place.** After any calls everything but their buffers
is as if the edits of those that did not throw had been made in the code itself. -/
theorem patchAll_in_place (calls : List Call)
    (hproper : ∀ c ∈ calls, Proper ptrSize (buffers calls) c) (hx : x ∉ buffers calls) :
    patchAll ptrSize calls m x = after ptrSize (calls.flatMap Call.inPlace) m x :=
  patchAll_agree calls hproper (fun c hc _ hin => ⟨c, hc, hin⟩) (fun _ _ => rfl) hx

end Calls

section Concrete

def oneByte : Call := ⟨0x1000, 4, 0x9000, [(1, .u8 0x90)], false⟩

def abandoned : Call := ⟨0x1002, 2, 0xA000, [(0, .u16 0)], true⟩

theorem clear_buffers {a : Addr} (ha : a = 0x1000 ∨ a = 0x1002) :
    Clear a 4 (buffers [oneByte, abandoned]) := by
  rintro x hx ⟨c, hc, hin⟩
  unfold InRegion offset at hx hin
  rcases List.mem_pair.mp hc with rfl | rfl
  · simp only [oneByte] at hin
    rcases ha with rfl | rfl <;> bv_omega
  · simp only [abandoned] at hin
    rcases ha with rfl | rfl <;> bv_omega

/-- The first call patches the second byte; the second one leaves its own. -/
theorem patchAll_in_place_two :
    patchAll 8 [oneByte, abandoned] (fun _ => 0xCC) 0x1001 = 0x90 ∧
    patchAll 8 [oneByte, abandoned] (fun _ => 0xCC) 0x1002 = 0xCC := by
  have hproper : ∀ c ∈ [oneByte, abandoned], Proper 8 (buffers [oneByte, abandoned]) c := by
    intro c hc
    rcases List.mem_pair.mp hc with rfl | rfl
    · refine ⟨by decide, clear_buffers (.inl rfl), ?_, ?_⟩
      · simp [oneByte, Write.length]
      · simp [oneByte]
    · refine ⟨by decide, fun x hx => clear_buffers (.inr rfl) x ?_, ?_, ?_⟩
      · exact Nat.lt_trans hx (by decide)
      · simp [abandoned, Write.length]
      · simp [abandoned]
  have hcode := @clear_buffers 0x1000 (.inl rfl)
  constructor
  · rw [patchAll_in_place _ hproper (hcode _ (by decide))]
    decide
  · rw [patchAll_in_place _ hproper (hcode _ (by decide))]
    decide

end Concrete

end CodeEdits

end Chromatic
