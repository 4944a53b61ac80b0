import Chromatic.Foundation.Words
import Chromatic.Utf8Strings

/-!
# Typed memory

The reads and writes of `NativePointer`, `NativeMemory::writeMemory` and `copyMemory`, and what a
read finds after any history of writes: integers of other widths, parts of words, strings.

§1 reads · §2 writes · §3 histories · §4 words that are read back · §5 strings that are read
back.
-/

namespace Chromatic

open Foundation

namespace TypedMemory

/-! ## §1  Reads -/

/-- `memcpy` into an integer of `n` bytes. -/
def readInt (signed : Bool) (n : ℕ) (m : Memory) (a : Addr) : ℤ := word signed (readBytes m a n)

def readU8 : Memory → Addr → ℤ := readInt false 1
def readS8 : Memory → Addr → ℤ := readInt true 1
def readU16 : Memory → Addr → ℤ := readInt false 2
def readS16 : Memory → Addr → ℤ := readInt true 2
def readU32 : Memory → Addr → ℤ := readInt false 4
def readS32 : Memory → Addr → ℤ := readInt true 4
def readU64 : Memory → Addr → ℤ := readInt false 8
def readS64 : Memory → Addr → ℤ := readInt true 8

/-- `ptrSize` is `NativeProcess::getPointerSize()`. -/
def readPointer (ptrSize : ℕ) (m : Memory) (a : Addr) : Addr :=
  if ptrSize = 8 then BitVec.ofInt 64 (readU64 m a) else BitVec.ofInt 64 (readU32 m a)

def readByteArray (length : ℕ) (m : Memory) (a : Addr) : List Byte := readBytes m a length

/-- The same loop as that of `readUtf8String`. -/
def readCString (m : Memory) (a : Addr) (maxLength : ℤ) : List Byte :=
  Utf8Strings.readFrom m a maxLength.toNat

/-! ## §2  Writes -/

/-- `memcpy` from an integer that is converted to `n` bytes. -/
def writeInt (n : ℕ) {w : ℕ} (v : BitVec w) (a : Addr) (m : Memory) : Memory :=
  writeBytes m a (toLe n v.toNat)

def writeU8 (v : BitVec 32) : Addr → Memory → Memory := writeInt 1 v
def writeS8 (v : BitVec 32) : Addr → Memory → Memory := writeInt 1 v
def writeU16 (v : BitVec 32) : Addr → Memory → Memory := writeInt 2 v
def writeS16 (v : BitVec 32) : Addr → Memory → Memory := writeInt 2 v
def writeU32 (v : BitVec 32) : Addr → Memory → Memory := writeInt 4 v
def writeS32 (v : BitVec 32) : Addr → Memory → Memory := writeInt 4 v
def writeU64 (v : BitVec 64) : Addr → Memory → Memory := writeInt 8 v
def writeS64 (v : BitVec 64) : Addr → Memory → Memory := writeInt 8 v

/-- A null pointer object is written as 0. -/
def writePointer (ptrSize : ℕ) (v : Option Addr) (a : Addr) (m : Memory) : Memory :=
  if ptrSize = 8 then writeU64 (v.getD 0) a m else writeU32 ((v.getD 0).setWidth 32) a m

def writeByteArray (bytes : List Byte) (a : Addr) (m : Memory) : Memory := writeBytes m a bytes

/-- The bytes, then the terminator behind them. -/
def writeUtf8String (str : List Byte) (a : Addr) (m : Memory) : Memory :=
  writeBytes (writeBytes m a str) (a + BitVec.ofNat 64 str.length) [0]

/-- `memcpy` between regions that do not overlap. -/
def copyMemory (dst src : Addr) (size : ℕ) (m : Memory) : Memory :=
  writeBytes m dst (readBytes m src size)

/-! ## §3  Histories -/

inductive Write where
  | u8 (v : BitVec 32)
  | s8 (v : BitVec 32)
  | u16 (v : BitVec 32)
  | s16 (v : BitVec 32)
  | u32 (v : BitVec 32)
  | s32 (v : BitVec 32)
  | u64 (v : BitVec 64)
  | s64 (v : BitVec 64)
  | pointer (v : Option Addr)
  | byteArray (bytes : List Byte)
  | utf8String (str : List Byte)
  | copyFrom (src : Addr) (size : ℕ)

namespace Write

def exec (ptrSize : ℕ) : Write → Addr → Memory → Memory
  | u8 v => writeU8 v
  | s8 v => writeS8 v
  | u16 v => writeU16 v
  | s16 v => writeS16 v
  | u32 v => writeU32 v
  | s32 v => writeS32 v
  | u64 v => writeU64 v
  | s64 v => writeS64 v
  | pointer v => writePointer ptrSize v
  | byteArray bytes => writeByteArray bytes
  | utf8String str => writeUtf8String str
  | copyFrom src size => fun a => copyMemory a src size

def length (ptrSize : ℕ) : Write → ℕ
  | u8 _ => 1
  | s8 _ => 1
  | u16 _ => 2
  | s16 _ => 2
  | u32 _ => 4
  | s32 _ => 4
  | u64 _ => 8
  | s64 _ => 8
  | pointer _ => if ptrSize = 8 then 8 else 4
  | byteArray bytes => bytes.length
  | utf8String str => str.length + 1
  | copyFrom _ size => size

/-- The number that is written, as the caller has it. -/
def value (m : Memory) : Write → ℤ
  | u8 v => v.toInt
  | s8 v => v.toInt
  | u16 v => v.toInt
  | s16 v => v.toInt
  | u32 v => v.toNat
  | s32 v => v.toInt
  | u64 v => v.toNat
  | s64 v => v.toInt
  | pointer v => (v.getD 0).toNat
  | byteArray bytes => ofLe bytes
  | utf8String str => ofLe str
  | copyFrom src size => ofLe (readBytes m src size)

/-- The bytes that come to stand in memory. -/
def bytes (ptrSize : ℕ) (m : Memory) : Write → List Byte
  | u8 v => toLe 1 v.toNat
  | s8 v => toLe 1 v.toNat
  | u16 v => toLe 2 v.toNat
  | s16 v => toLe 2 v.toNat
  | u32 v => toLe 4 v.toNat
  | s32 v => toLe 4 v.toNat
  | u64 v => toLe 8 v.toNat
  | s64 v => toLe 8 v.toNat
  | pointer v =>
      if ptrSize = 8 then toLe 8 (v.getD 0).toNat else toLe 4 ((v.getD 0).setWidth 32).toNat
  | byteArray bytes => bytes
  | utf8String str => str ++ [0]
  | copyFrom src size => readBytes m src size

end Write

/-- The memory after the writes, the first one first. -/
def after (ptrSize : ℕ) (history : List (Addr × Write)) (m : Memory) : Memory :=
  history.foldl (fun m p => p.2.exec ptrSize p.1 m) m

/-- No write reaches into the `n` bytes from `a`. -/
def Spared (ptrSize : ℕ) (history : List (Addr × Write)) (a : Addr) (n : ℕ) : Prop :=
  ∀ p ∈ history, ¬ Overlap p.1 (p.2.length ptrSize) a n

variable {ptrSize : ℕ} {m : Memory} {a x : Addr} {history : List (Addr × Write)} {n : ℕ}

/-- A write leaves the rest as it was. -/
theorem Write.exec_outside {w : Write} (h : ¬ InRegion a (w.length ptrSize) x) :
    w.exec ptrSize a m x = m x := by
  have hwrite : ∀ {data : List Byte}, data.length = w.length ptrSize →
      writeBytes m a data x = m x := by
    intro data hlen
    apply writeBytes_outside
    rw [hlen]
    exact h
  cases w with
  | pointer v =>
      show writePointer ptrSize v a m x = m x
      unfold writePointer
      by_cases hsize : ptrSize = 8
      · rw [if_pos hsize]
        exact hwrite (by simp [Write.length, hsize])
      · rw [if_neg hsize]
        exact hwrite (by simp [Write.length, hsize])
  | utf8String str =>
      have hterminator : ¬ InRegion (a + BitVec.ofNat 64 str.length) 1 x := by
        intro hx
        have heq : x = a + BitVec.ofNat 64 str.length := by
          unfold InRegion offset at hx
          bv_omega
        rw [heq] at h
        exact h (inRegion_of_lt (Nat.lt_succ_self _))
      show writeUtf8String str a m x = m x
      rw [writeUtf8String, writeBytes_outside hterminator, writeBytes_outside]
      intro hx
      exact h (Nat.lt_succ_of_lt hx)
  | byteArray bytes => exact hwrite rfl
  | copyFrom src size => exact hwrite (length_readBytes m src size)
  | u8 v => exact hwrite (length_toLe _ _)
  | s8 v => exact hwrite (length_toLe _ _)
  | u16 v => exact hwrite (length_toLe _ _)
  | s16 v => exact hwrite (length_toLe _ _)
  | u32 v => exact hwrite (length_toLe _ _)
  | s32 v => exact hwrite (length_toLe _ _)
  | u64 v => exact hwrite (length_toLe _ _)
  | s64 v => exact hwrite (length_toLe _ _)

/-- A region that the writes spare is as it was. -/
theorem readBytes_after (h : Spared ptrSize history a n) :
    readBytes (after ptrSize history m) a n = readBytes m a n := by
  induction history generalizing m with
  | nil => rfl
  | cons p history ih =>
      rw [show after ptrSize (p :: history) m = after ptrSize history (p.2.exec ptrSize p.1 m)
        from rfl, ih fun q hq => h q (List.mem_cons_of_mem _ hq)]
      refine List.map_congr_left fun k hk => Write.exec_outside fun hin => ?_
      exact h p List.mem_cons_self ⟨_, hin, inRegion_of_lt (List.mem_range.mp hk)⟩

theorem after_append (ptrSize : ℕ) (before later : List (Addr × Write)) (m : Memory) :
    after ptrSize (before ++ later) m = after ptrSize later (after ptrSize before m) := by
  rw [after, List.foldl_append]
  rfl

/-! ## §4  Words that are read back -/

/-- A narrower word takes the lowest bytes of what it is written from. -/
theorem toLe_modEq {w : ℕ} (v : BitVec w) (h : 256 ^ n ∣ 2 ^ w) :
    (ofLe (toLe n v.toNat) : ℤ) ≡ v.toNat [ZMOD (256 ^ n : ℕ)] ∧
      (ofLe (toLe n v.toNat) : ℤ) ≡ v.toInt [ZMOD (256 ^ n : ℕ)] := by
  have hnat : (ofLe (toLe n v.toNat) : ℤ) ≡ v.toNat [ZMOD (256 ^ n : ℕ)] := by
    rw [ofLe_toLe, Int.natCast_mod]
    exact Int.mod_modEq _ _
  refine ⟨hnat, hnat.trans ?_⟩
  have hint : (v.toNat : ℤ) ≡ v.toInt [ZMOD (2 ^ w : ℕ)] := by
    rw [BitVec.toInt_eq_toNat_bmod]
    exact (Int.bmod_emod).symm
  exact hint.of_dvd (by exact_mod_cast h)

theorem Write.length_bytes (w : Write) (m : Memory) :
    (w.bytes ptrSize m).length = w.length ptrSize := by
  cases w with
  | pointer v =>
      unfold Write.bytes Write.length
      split_ifs
      · exact length_toLe _ _
      · exact length_toLe _ _
  | byteArray bytes => rfl
  | utf8String str => exact List.length_append
  | copyFrom src size => exact length_readBytes m src size
  | u8 v | s8 v | u16 v | s16 v | u32 v | s32 v | u64 v | s64 v => exact length_toLe _ _

/-- Every write is that of its bytes. -/
theorem Write.exec_eq (w : Write) (a : Addr) (m : Memory) (hfits : w.length ptrSize ≤ 2 ^ 64) :
    w.exec ptrSize a m = writeBytes m a (w.bytes ptrSize m) := by
  cases w with
  | pointer v =>
      show writePointer ptrSize v a m = _
      unfold writePointer Write.bytes
      split_ifs
      · rfl
      · rfl
  | utf8String str => exact (writeBytes_append (by simpa [Write.length] using hfits)).symm
  | u8 v | s8 v | u16 v | s16 v | u32 v | s32 v | u64 v | s64 v => rfl
  | byteArray bytes | copyFrom src size => rfl

/-- They spell the number that is written, as far as it fits. -/
theorem Write.bytes_modEq (w : Write) (m : Memory) :
    (ofLe (w.bytes ptrSize m) : ℤ) ≡ w.value m [ZMOD (256 ^ w.length ptrSize : ℕ)] := by
  cases w with
  | u8 v | s8 v => exact (toLe_modEq (n := 1) v (by decide)).2
  | u16 v | s16 v => exact (toLe_modEq (n := 2) v (by decide)).2
  | u32 v => exact (toLe_modEq (n := 4) v (by decide)).1
  | s32 v => exact (toLe_modEq (n := 4) v (by decide)).2
  | u64 v => exact (toLe_modEq (n := 8) v (by decide)).1
  | s64 v => exact (toLe_modEq (n := 8) v (by decide)).2
  | byteArray bytes | copyFrom src size => exact Int.ModEq.refl _
  | pointer v =>
      simp only [Write.bytes, Write.length, Write.value]
      by_cases hsize : ptrSize = 8
      · rw [if_pos hsize, if_pos hsize]
        exact (toLe_modEq (n := 8) (v.getD 0) (by decide)).1
      · rw [if_neg hsize, if_neg hsize]
        refine (toLe_modEq (n := 4) ((v.getD 0).setWidth 32) (by decide)).1.trans ?_
        rw [BitVec.toNat_setWidth, Int.natCast_mod]
        exact Int.mod_modEq _ _
  | utf8String str =>
      simp only [Write.bytes, Write.value]
      rw [ofLe_append]
      simp [ofLe]

/-- Congruent numbers have congruent parts. -/
theorem ediv_modEq {P Q : ℕ} {y z : ℤ} (hP : 0 < P) (h : y ≡ z [ZMOD (P * Q : ℕ)]) :
    y / P ≡ z / P [ZMOD Q] := by
  obtain ⟨k, hk⟩ := h.dvd
  have hz : z = y + P * (Q * k) := by
    rw [← Int.mul_assoc, ← Int.natCast_mul, ← hk]
    ring
  have hP' : (P : ℤ) ≠ 0 := Int.natCast_ne_zero.mpr hP.ne'
  rw [hz, Int.add_mul_ediv_left _ _ hP', Int.modEq_iff_dvd]
  exact ⟨k, by ring⟩

/-- The bytes of a write that later ones spare are read back, at any width and from any byte of
it on. -/
theorem readBytes_written (before later : List (Addr × Write)) (w : Write) {j : ℕ}
    {data : List Byte} (hdata : w.exec ptrSize a (after ptrSize before m) =
      writeBytes (after ptrSize before m) a data)
    (hlen : data.length = w.length ptrSize) (hfits : w.length ptrSize ≤ 2 ^ 64)
    (hpart : j + n ≤ w.length ptrSize)
    (hspared : Spared ptrSize later (a + BitVec.ofNat 64 j) n) :
    readBytes (after ptrSize (before ++ (a, w) :: later) m) (a + BitVec.ofNat 64 j) n =
      (data.drop j).take n := by
  rw [after_append]
  show readBytes (after ptrSize later (w.exec ptrSize a (after ptrSize before m))) _ n = _
  rw [readBytes_after hspared, hdata]
  have hself := @readBytes_writeBytes_self (after ptrSize before m) a data (hlen ▸ hfits)
  have hj : j ≤ data.length := by rw [hlen]; exact (Nat.le_add_right j n).trans hpart
  calc readBytes (writeBytes (after ptrSize before m) a data) (a + BitVec.ofNat 64 j) n
      = (readBytes (writeBytes (after ptrSize before m) a data) (a + BitVec.ofNat 64 j)
          (data.length - j)).take n := (take_readBytes _ _ (by omega)).symm
    _ = ((readBytes (writeBytes (after ptrSize before m) a data) a data.length).drop j).take n := by
        rw [drop_readBytes _ _ hj]
    _ = (data.drop j).take n := by rw [hself]

/-- Of a write's number there is read what the bytes have of it. -/
theorem readInt_written (before later : List (Addr × Write)) (w : Write) (signed : Bool) {j : ℕ}
    (hfits : w.length ptrSize ≤ 2 ^ 64) (hpart : j + n ≤ w.length ptrSize)
    (hspared : Spared ptrSize later (a + BitVec.ofNat 64 j) n) :
    readInt signed n (after ptrSize (before ++ (a, w) :: later) m) (a + BitVec.ofNat 64 j) =
      held signed n (w.value (after ptrSize before m) / (256 ^ j : ℕ)) := by
  have hlen : (w.bytes ptrSize (after ptrSize before m)).length = w.length ptrSize :=
    w.length_bytes _
  have hsub : j + n ≤ (w.bytes ptrSize (after ptrSize before m)).length := by
    rw [hlen]
    exact hpart
  rw [readInt, readBytes_written before later w (w.exec_eq _ _ hfits) hlen hfits hpart hspared]
  apply word_eq_held
  · rw [List.length_take_of_le]
    rw [List.length_drop]
    omega
  · rw [ofLe_take_drop hsub, Int.natCast_mod, Int.natCast_ediv]
    refine (Int.mod_modEq _ _).trans (ediv_modEq (Nat.pow_pos (by decide)) ?_)
    rw [← pow_add]
    exact (w.bytes_modEq _).of_dvd (Int.natCast_dvd_natCast.mpr (pow_dvd_pow 256 hpart))

/-- A pointer is read back whole where pointers have eight bytes, and else its lower half. -/
theorem readPointer_written (before later : List (Addr × Write)) (v : Option Addr)
    (hspared : Spared ptrSize later a (if ptrSize = 8 then 8 else 4)) :
    readPointer ptrSize (after ptrSize (before ++ (a, .pointer v) :: later) m) a =
      if ptrSize = 8 then v.getD 0 else ((v.getD 0).setWidth 32).setWidth 64 := by
  have hread := @readInt_written ptrSize m a (if ptrSize = 8 then 8 else 4) before later
    (.pointer v) false 0
  simp only [Write.length, Nat.zero_add, Nat.le_refl, pow_zero, Int.natCast_one, Int.ediv_one,
    BitVec.add_zero, forall_const] at hread
  unfold readPointer
  by_cases hsize : ptrSize = 8
  · simp only [if_pos hsize] at hread hspared ⊢
    rw [readU64, hread (by decide) hspared]
    apply BitVec.eq_of_toNat_eq
    simp [held, Write.value, BitVec.toNat_ofInt]
    omega
  · simp only [if_neg hsize] at hread hspared ⊢
    rw [readU32, hread (by decide) hspared]
    apply BitVec.eq_of_toNat_eq
    simp [held, Write.value, BitVec.toNat_ofInt]
    omega

/-- **What is written is read**, whatever the widths and the signs: after any writes, `n` bytes
from the `j`-th of a write on have that part of its number, and what no write reaches is as it
was. -/
theorem readInt_after (ptrSize : ℕ) (m : Memory) (signed : Bool) (n : ℕ) :
    (∀ before later : List (Addr × Write), ∀ a w j, w.length ptrSize ≤ 2 ^ 64 →
      j + n ≤ w.length ptrSize → Spared ptrSize later (a + BitVec.ofNat 64 j) n →
      readInt signed n (after ptrSize (before ++ (a, w) :: later) m) (a + BitVec.ofNat 64 j) =
        held signed n (w.value (after ptrSize before m) / (256 ^ j : ℕ))) ∧
    ∀ history a, Spared ptrSize history a n →
      readInt signed n (after ptrSize history m) a = readInt signed n m a := by
  constructor
  · intro before later a w j hfits hpart hspared
    exact readInt_written before later w signed hfits hpart hspared
  · intro history a hspared
    rw [readInt, readInt, readBytes_after hspared]

/-- Two bytes of a word that a later write reaches into elsewhere. -/
theorem readInt_after_word :
    readS16 (after 8 [(0x1000, .u64 0x1122334455667788), (0x1003, .u8 0xFF)] fun _ => 0) 0x1006 =
      0x1122 := by
  have h := (readInt_after 8 (fun _ => 0) true 2).1 [] [(0x1003, .u8 0xFF)] 0x1000
    (.u64 0x1122334455667788) 6 (by decide) (by decide)
  refine (h ?_).trans ?_
  · intro p hp
    obtain rfl := List.mem_singleton.mp hp
    exact fun hover => absurd ((overlap_iff (by decide) (by decide)).mp hover) (by decide)
  · show held true 2 (((0x1122334455667788#64).toNat : ℤ) / (256 ^ 6 : ℕ)) = 0x1122
    decide

/-! ## §5  Strings that are read back -/

/-- The loop reads up to a zero or to its greatest length. -/
theorem readFrom_eq_take {str : List Byte} {left : ℕ} {mem : Memory}
    (hmem : readBytes mem a (str.length + 1) = str ++ [0]) :
    Utf8Strings.readFrom mem a left = (str.takeWhile (· ≠ 0)).take left := by
  induction left generalizing str a with
  | zero => rw [Utf8Strings.readFrom, List.take_zero]
  | succ left ih =>
      cases str with
      | nil =>
          have hbyte : mem a = 0 := by
            rw [List.length_nil, readBytes_one] at hmem
            exact (List.cons.inj hmem).1
          rw [Utf8Strings.readFrom, if_pos hbyte]
          rfl
      | cons b str =>
          rw [List.length_cons, Utf8Strings.readBytes_succ, List.cons_append] at hmem
          obtain ⟨hbyte, hrest⟩ := List.cons.inj hmem
          rw [Utf8Strings.readFrom, hbyte]
          by_cases hb : b = 0
          · rw [if_pos hb, List.takeWhile_cons_of_neg (by simp [hb])]
            rfl
          · have hpos : decide (b ≠ 0) = true := decide_eq_true hb
            rw [if_neg hb, ih hrest, List.takeWhile_cons, if_pos hpos, List.take_succ_cons]

/-- **Strings are read back** up to their first zero, whatever else is written. -/
theorem readCString_after (ptrSize : ℕ) (m : Memory) (before later : List (Addr × Write))
    (a : Addr) (str : List Byte) (maxLength : ℤ) (hfits : str.length + 1 ≤ 2 ^ 64)
    (hspared : Spared ptrSize later a (str.length + 1)) :
    readCString (after ptrSize (before ++ (a, .utf8String str) :: later) m) a maxLength =
      (str.takeWhile (· ≠ 0)).take maxLength.toNat := by
  apply readFrom_eq_take
  have hwritten := @readBytes_written ptrSize m a (str.length + 1) before later (.utf8String str) 0
    (str ++ [0]) (writeBytes_append (by simpa using hfits)).symm (by simp [Write.length])
    hfits (Nat.le_of_eq (Nat.zero_add _)) (by simpa using hspared)
  have hall : (str ++ [0]).take (str.length + 1) = str ++ [0#8] :=
    List.take_of_length_le (by simp)
  rw [List.drop_zero, hall] at hwritten
  simpa using hwritten

/-- Cut at three bytes, with a write right behind the terminator. -/
theorem readCString_after_cut :
    readCString (after 8 [(0x1000, .utf8String [0x61, 0x62, 0x63, 0x64]), (0x1005, .s32 7)]
      fun _ => 0) 0x1000 3 = [0x61, 0x62, 0x63] := by
  refine readCString_after 8 (fun _ => 0) [] [(0x1005, .s32 7)] 0x1000 [0x61, 0x62, 0x63, 0x64] 3
    (by decide) ?_
  intro p hp
  obtain rfl := List.mem_singleton.mp hp
  exact fun hover => absurd ((overlap_iff (by decide) (by decide)).mp hover) (by decide)

end TypedMemory

end Chromatic
