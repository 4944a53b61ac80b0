import Mathlib.Algebra.GroupWithZero.Nat
import Mathlib.Data.List.Basic
import Mathlib.Order.Basic

/-!
# Byte memory with 64-bit addresses

A memory is a total map from addresses to bytes; pointer arithmetic wraps at
2^64. A region is a start address with a length, and an address lies in it when
its offset from the start, taken modulo 2^64, is below the length.

§1 regions · §2 block reads and writes · §3 little-endian words.
-/

namespace Foundation

abbrev Addr : Type := BitVec 64
abbrev Byte : Type := BitVec 8
abbrev Memory : Type := Addr → Byte

/-! ## §1  Regions -/

/-- How far `x` lies above `a`, modulo 2^64. -/
def offset (a x : Addr) : ℕ := (x - a).toNat

/-- `x` is one of the `n` bytes from `a`. -/
def InRegion (a : Addr) (n : ℕ) (x : Addr) : Prop := offset a x < n

instance (a : Addr) (n : ℕ) (x : Addr) : Decidable (InRegion a n x) := by
  unfold InRegion; infer_instance

@[simp] theorem offset_self (a : Addr) : offset a a = 0 := by
  simp [offset]

theorem offset_add (a : Addr) {i : ℕ} (hi : i < 2 ^ 64) :
    offset a (a + BitVec.ofNat 64 i) = i := by
  unfold offset; bv_omega

theorem add_offset (a x : Addr) : a + BitVec.ofNat 64 (offset a x) = x := by
  unfold offset; bv_omega

/-- The two regions share a byte. -/
def Overlap (a : Addr) (n : ℕ) (b : Addr) (k : ℕ) : Prop :=
  ∃ x, InRegion a n x ∧ InRegion b k x

/-- Two nonempty regions share a byte exactly when one start lies in the
other region. -/
theorem overlap_iff {a b : Addr} {n k : ℕ} (hn : 0 < n) (hk : 0 < k) :
    Overlap a n b k ↔ InRegion a n b ∨ InRegion b k a := by
  constructor
  · rintro ⟨x, hx, hy⟩
    unfold InRegion offset at *
    by_contra h
    rw [not_or] at h
    bv_omega
  · rintro (h | h)
    · exact ⟨b, h, by unfold InRegion; simpa using hk⟩
    · exact ⟨a, by unfold InRegion; simpa using hn, h⟩

theorem Overlap.symm {a b : Addr} {n k : ℕ} (h : Overlap a n b k) :
    Overlap b k a n :=
  let ⟨x, hx, hy⟩ := h
  ⟨x, hy, hx⟩

theorem inRegion_add {a : Addr} {n i : ℕ} (hi : i < n) (hn : n ≤ 2 ^ 64) :
    InRegion a n (a + BitVec.ofNat 64 i) := by
  rw [InRegion, offset_add a (Nat.lt_of_lt_of_le hi hn)]
  exact hi

/-- However long the region is. -/
theorem inRegion_of_lt {a : Addr} {k n : ℕ} (h : k < n) :
    InRegion a n (a + BitVec.ofNat 64 k) := by
  have hoff : offset a (a + BitVec.ofNat 64 k) = k % 2 ^ 64 := by
    rw [offset, BitVec.add_comm, BitVec.add_sub_cancel, BitVec.toNat_ofNat]
  rw [InRegion, hoff]
  exact Nat.lt_of_le_of_lt (Nat.mod_le _ _) h

/-! ## §2  Block reads and writes -/

/-- `memcpy(a, data, data.length)`. -/
def writeBytes (m : Memory) (a : Addr) (data : List Byte) : Memory :=
  fun x => (data[offset a x]?).getD (m x)

/-- The `n` bytes from `a`. -/
def readBytes (m : Memory) (a : Addr) (n : ℕ) : List Byte :=
  (List.range n).map fun i => m (a + BitVec.ofNat 64 i)

@[simp] theorem length_readBytes (m : Memory) (a : Addr) (n : ℕ) :
    (readBytes m a n).length = n := by
  simp [readBytes]

theorem writeBytes_outside {m : Memory} {a x : Addr} {data : List Byte}
    (h : ¬ InRegion a data.length x) : writeBytes m a data x = m x := by
  unfold InRegion at h
  rw [writeBytes, List.getElem?_eq_none (by omega)]
  rfl

/-- Inside the region the written bytes do not depend on what was there. -/
theorem writeBytes_inside {m m' : Memory} {a x : Addr} {data : List Byte}
    (h : InRegion a data.length x) : writeBytes m a data x = writeBytes m' a data x := by
  unfold InRegion at h
  rw [writeBytes, writeBytes, List.getElem?_eq_getElem h]
  rfl

/-- Writing back the bytes read from `m` puts `m` back on the region. -/
theorem writeBytes_readBytes {m m' : Memory} {a x : Addr} {n : ℕ}
    (h : InRegion a n x) : writeBytes m' a (readBytes m a n) x = m x := by
  unfold InRegion at h
  simp [writeBytes, readBytes, List.getElem?_range h, add_offset]

theorem readBytes_congr {m m' : Memory} {a : Addr} {n : ℕ} (hn : n ≤ 2 ^ 64)
    (h : ∀ x, InRegion a n x → m x = m' x) : readBytes m a n = readBytes m' a n := by
  refine List.map_congr_left fun i hi => h _ ?_
  exact inRegion_add (List.mem_range.mp hi) hn

theorem readBytes_writeBytes_self {m : Memory} {a : Addr} {data : List Byte}
    (h : data.length ≤ 2 ^ 64) :
    readBytes (writeBytes m a data) a data.length = data := by
  refine List.ext_getElem (by simp) fun i h₁ h₂ => ?_
  have hoff : offset a (a + BitVec.ofNat 64 i) = i :=
    offset_add a (Nat.lt_of_lt_of_le h₂ h)
  simp [readBytes, writeBytes, hoff, List.getElem?_eq_getElem h₂]

theorem readBytes_writeBytes_apart {m : Memory} {a b : Addr} {n : ℕ}
    {data : List Byte} (hn : n ≤ 2 ^ 64) (h : ¬ Overlap a data.length b n) :
    readBytes (writeBytes m a data) b n = readBytes m b n :=
  readBytes_congr hn fun x hx =>
    writeBytes_outside fun hx' => h ⟨x, hx', hx⟩

/-- A block of one byte is the byte at its address. -/
theorem writeBytes_singleton (m : Memory) (a : Addr) (b : Byte) :
    writeBytes m a [b] = Function.update m a b := by
  funext x
  by_cases hx : x = a
  · rw [hx, Function.update_self]
    simp [writeBytes]
  · rw [Function.update_of_ne hx]
    apply writeBytes_outside
    simp only [List.length_singleton, InRegion, offset]
    bv_omega

/-- Adjacent blocks are one. -/
theorem readBytes_add (m : Memory) (a : Addr) (k n : ℕ) :
    readBytes m a (k + n) = readBytes m a k ++ readBytes m (a + BitVec.ofNat 64 k) n := by
  simp only [readBytes, List.range_add, List.map_append, List.map_map, Function.comp_def,
    BitVec.ofNat_add, BitVec.add_assoc]

theorem writeBytes_append {m : Memory} {a : Addr} {xs ys : List Byte}
    (h : (xs ++ ys).length ≤ 2 ^ 64) :
    writeBytes m a (xs ++ ys) =
      writeBytes (writeBytes m a xs) (a + BitVec.ofNat 64 xs.length) ys := by
  funext x
  rw [List.length_append] at h
  by_cases hx : offset a x < xs.length
  · have hout : ¬ InRegion (a + BitVec.ofNat 64 xs.length) ys.length x := by
      unfold InRegion offset at *
      bv_omega
    rw [writeBytes_outside hout, writeBytes, writeBytes, List.getElem?_append_left hx]
  · have hoff : offset (a + BitVec.ofNat 64 xs.length) x = offset a x - xs.length := by
      unfold offset at *
      bv_omega
    have hout : ¬ InRegion a xs.length x := hx
    rw [writeBytes, writeBytes, hoff, writeBytes_outside hout,
      List.getElem?_append_right (Nat.le_of_not_lt hx)]

theorem drop_readBytes (m : Memory) (a : Addr) {k n : ℕ} (h : k ≤ n) :
    (readBytes m a n).drop k = readBytes m (a + BitVec.ofNat 64 k) (n - k) := by
  obtain ⟨n, rfl⟩ := Nat.exists_eq_add_of_le h
  rw [readBytes_add, List.drop_left' (length_readBytes m a k), Nat.add_sub_cancel_left]

theorem take_readBytes (m : Memory) (a : Addr) {k n : ℕ} (h : k ≤ n) :
    (readBytes m a n).take k = readBytes m a k := by
  obtain ⟨n, rfl⟩ := Nat.exists_eq_add_of_le h
  rw [readBytes_add, List.take_left' (length_readBytes m a k)]

theorem readBytes_one (m : Memory) (a : Addr) : readBytes m a 1 = [m a] := by
  simp [readBytes]

/-! ## §3  Little-endian words -/

/-- The eight bytes of a word, least significant first. -/
def le64 (v : BitVec 64) : List Byte :=
  [v.extractLsb' 0 8, v.extractLsb' 8 8, v.extractLsb' 16 8, v.extractLsb' 24 8,
   v.extractLsb' 32 8, v.extractLsb' 40 8, v.extractLsb' 48 8, v.extractLsb' 56 8]

/-- The word whose little-endian bytes start the list. -/
def ofLe64 : List Byte → BitVec 64
  | b₀ :: b₁ :: b₂ :: b₃ :: b₄ :: b₅ :: b₆ :: b₇ :: _ =>
      b₇ ++ b₆ ++ b₅ ++ b₄ ++ b₃ ++ b₂ ++ b₁ ++ b₀
  | _ => 0

@[simp] theorem length_le64 (v : BitVec 64) : (le64 v).length = 8 := rfl

theorem ofLe64_le64_append (v : BitVec 64) (rest : List Byte) :
    ofLe64 (le64 v ++ rest) = v := by
  apply BitVec.eq_of_getLsbD_eq
  intro i hi
  simp only [le64, List.cons_append, List.nil_append, ofLe64, BitVec.getLsbD_append,
    BitVec.getLsbD_extractLsb']
  grind

@[simp] theorem ofLe64_le64 (v : BitVec 64) : ofLe64 (le64 v) = v := by
  simpa using ofLe64_le64_append v []

theorem le64_ofLe64 {bs : List Byte} (h : bs.length = 8) : le64 (ofLe64 bs) = bs := by
  match bs, h with
  | [b₀, b₁, b₂, b₃, b₄, b₅, b₆, b₇], _ =>
      simp only [le64, ofLe64, List.cons.injEq, and_true]
      refine ⟨?_, ?_, ?_, ?_, ?_, ?_, ?_, ?_⟩ <;>
      · apply BitVec.eq_of_getLsbD_eq
        intro i hi
        simp only [BitVec.getLsbD_append, BitVec.getLsbD_extractLsb']
        grind

def read64 (m : Memory) (a : Addr) : BitVec 64 := ofLe64 (readBytes m a 8)

def write64 (m : Memory) (a : Addr) (v : BitVec 64) : Memory :=
  writeBytes m a (le64 v)

@[simp] theorem read64_write64_self (m : Memory) (a : Addr) (v : BitVec 64) :
    read64 (write64 m a v) a = v := by
  have h : readBytes (writeBytes m a (le64 v)) a 8 = le64 v :=
    readBytes_writeBytes_self (length_le64 v ▸ by decide)
  rw [read64, write64, h, ofLe64_le64]

theorem read64_congr {m m' : Memory} {a : Addr}
    (h : ∀ x, InRegion a 8 x → m x = m' x) : read64 m a = read64 m' a := by
  rw [read64, read64, readBytes_congr (by decide) h]

/-- Equal words are equal byte by byte. -/
theorem byte_eq_of_read64_eq {m m' : Memory} {a x : Addr} (h : read64 m a = read64 m' a)
    (hx : InRegion a 8 x) : m x = m' x := by
  have hbytes : readBytes m a 8 = readBytes m' a 8 := by
    rw [← le64_ofLe64 (length_readBytes m a 8), ← le64_ofLe64 (length_readBytes m' a 8)]
    exact congrArg le64 h
  rw [← @writeBytes_readBytes m m a x 8 hx, hbytes]
  exact writeBytes_readBytes hx

theorem read64_write64_apart {m : Memory} {a b : Addr} {v : BitVec 64}
    (h : ¬ Overlap a 8 b 8) : read64 (write64 m a v) b = read64 m b := by
  rw [read64, read64, write64, readBytes_writeBytes_apart (by decide) (by simpa using h)]

end Foundation
