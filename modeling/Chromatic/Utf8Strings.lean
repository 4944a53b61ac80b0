import Chromatic.Foundation.Memory
import Mathlib.Tactic.NormNum

/-!
# UTF-8 strings

`Memory.allocUtf8String` goes over the UTF-16 units of a JavaScript string and writes the bytes
of its code points; `readUtf8String` reads bytes up to a zero. The standard encoding and its
decoder are Lean's own.

§1 strings of units · §2 `allocUtf8String` · §3 `readUtf8String` · §4 the bytes of a code point ·
§5 the loop over the units · §6 reading back.
-/

namespace Chromatic

open Foundation

namespace Utf8Strings

/-! ## §1  Strings of units -/

/-- The UTF-16 units of a scalar value. -/
def utf16Char (c : Char) : List ℕ :=
  if c.toNat < 0x10000 then [c.toNat]
  else [0xD800 + (c.toNat - 0x10000) / 0x400, 0xDC00 + (c.toNat - 0x10000) % 0x400]

def utf16 (cs : List Char) : List ℕ := cs.flatMap utf16Char

/-- A lead surrogate counts with the trail surrogate behind it. -/
def codePoint (first second : ℕ) : ℕ :=
  if (0xD800 ≤ first ∧ first ≤ 0xDBFF) ∧ 0xDC00 ≤ second ∧ second ≤ 0xDFFF then
    (first - 0xD800) * 0x400 + (second - 0xDC00) + 0x10000
  else first

/-- `codePointAt` within the string. -/
def codePointAt (str : List ℕ) (i : ℕ) : ℕ := codePoint (str.getD i 0) (str.getD (i + 1) 0)

/-- The standard encoding. -/
def utf8 (cs : List Char) : List Byte :=
  (cs.flatMap String.utf8EncodeChar).map UInt8.toBitVec

/-- The standard decoder. -/
def decodeUtf8 (bytes : List Byte) : Option (List Char) :=
  (bytes.map UInt8.ofBitVec).toByteArray.utf8Decode?.map (·.toList)

/-! ## §2  allocUtf8String -/

/-- What is pushed for a code point. -/
def encodeCodePoint (cp : ℕ) : List ℕ :=
  if cp < 0x80 then [cp]
  else if cp < 0x800 then [0xC0 ||| cp >>> 6, 0x80 ||| cp &&& 0x3F]
  else if cp < 0x10000 then
    [0xE0 ||| cp >>> 12, 0x80 ||| cp >>> 6 &&& 0x3F, 0x80 ||| cp &&& 0x3F]
  else
    [0xF0 ||| cp >>> 18, 0x80 ||| cp >>> 12 &&& 0x3F, 0x80 ||| cp >>> 6 &&& 0x3F,
      0x80 ||| cp &&& 0x3F]

/-- The loop over the units from `i` on: a code point of two units takes another `i++`. -/
def encodeFrom (str : List ℕ) (i : ℕ) : List ℕ :=
  if i < str.length then
    let cp := codePointAt str i
    encodeCodePoint cp ++ encodeFrom str (if cp < 0x10000 then i + 1 else i + 2)
  else []
termination_by str.length - i
decreasing_by split <;> omega

/-- The numbers as a `Uint8Array`. -/
def encoded (str : List ℕ) : List Byte := (encodeFrom str 0 ++ [0]).map (BitVec.ofNat 8)

/-- A block that was allocated lies in the address space. -/
structure Block (size : ℕ) where
  addr : Addr
  fits : addr.toNat + size ≤ 2 ^ 64

/-- `block` is what `Memory.alloc` answers. -/
def allocUtf8String (str : List ℕ) (mem : Memory) (block : Block (encoded str).length) :
    Addr × Memory :=
  (block.addr, writeBytes mem block.addr (encoded str))

/-! ## §3  readUtf8String -/

/-- The loop with `left` bytes to go. -/
def readFrom (mem : Memory) (addr : Addr) : ℕ → List Byte
  | 0 => []
  | left + 1 => if mem addr = 0 then [] else mem addr :: readFrom mem (addr + 1) left

def readUtf8String (mem : Memory) (addr : Addr) (maxLength : ℤ) : List Byte :=
  readFrom mem addr maxLength.toNat

/-! ## §4  The bytes of a code point -/

section CodePoint

variable {b k : ℕ}

/-- Bits that are apart are added. -/
theorem or_eq_add (a : ℕ) (hb : b < 2 ^ k) : 2 ^ k * a ||| b = b + 2 ^ k * a := by
  rw [← Nat.two_pow_add_eq_or_of_lt hb, Nat.add_comm]

/-- A byte that is not the first. -/
theorem continuation (cp : ℕ) : 0x80 ||| cp &&& 0x3F = cp % 64 + 0x80 := by
  have hand : cp &&& 0x3F = cp % 64 := Nat.and_two_pow_sub_one_eq_mod cp 6
  rw [hand]
  exact @or_eq_add _ 6 2 (Nat.mod_lt cp (by decide))

theorem toNat_lt (c : Char) : c.toNat < 0x110000 := by
  rcases c.valid with h | h
  · have : c.toNat < 0xD800 := h
    omega
  · exact h.2

/-- The code pushes the standard bytes. -/
theorem encodeCodePoint_eq (c : Char) : (encodeCodePoint c.toNat).map (BitVec.ofNat 8) =
    (String.utf8EncodeChar c).map UInt8.toBitVec := by
  have hlt := toNat_lt c
  have hval : c.val.toNat = c.toNat := rfl
  unfold encodeCodePoint String.utf8EncodeChar
  simp only [hval, continuation, Nat.shiftRight_eq_div_pow]
  generalize c.toNat = v at hlt
  -- both sides have four cases, with the same bounds
  split_ifs <;> try omega
  · rfl
  · have hlead : 0xC0 ||| v / 2 ^ 6 = v / 64 % 32 + 0xC0 := by
      rw [Nat.mod_eq_of_lt (by omega)]
      exact @or_eq_add (v / 64) 6 3 (by omega)
    rw [hlead]
    rfl
  · have hlead : 0xE0 ||| v / 2 ^ 12 = v / 4096 % 16 + 0xE0 := by
      rw [Nat.mod_eq_of_lt (by omega)]
      exact @or_eq_add (v / 4096) 5 7 (by omega)
    rw [hlead]
    rfl
  · have hlead : 0xF0 ||| v / 2 ^ 18 = v / 262144 % 8 + 0xF0 := by
      rw [Nat.mod_eq_of_lt (by omega)]
      exact @or_eq_add (v / 262144) 4 15 (by omega)
    rw [hlead]
    rfl

end CodePoint

/-! ## §5  The loop over the units -/

section Loop

variable {c : Char}

/-- A scalar value is no surrogate. -/
theorem not_surrogate (c : Char) : c.toNat < 0xD800 ∨ 0xDFFF < c.toNat := by
  rcases c.valid with h | h
  · exact .inl h
  · exact .inr h.1

theorem utf16Char_length : (utf16Char c).length = if c.toNat < 0x10000 then 1 else 2 := by
  unfold utf16Char
  split_ifs <;> rfl

theorem getD_behind (front xs : List ℕ) (k : ℕ) :
    (front ++ xs).getD (front.length + k) 0 = xs.getD k 0 := by
  rw [List.getD_eq_getElem?_getD, List.getElem?_append_right (Nat.le_add_right _ _),
    Nat.add_sub_cancel_left, List.getD_eq_getElem?_getD]

theorem codePoint_of_not_lead {first second : ℕ} (h : first < 0xD800 ∨ 0xDFFF < first) :
    codePoint first second = first := by
  rw [codePoint, if_neg (by omega)]

theorem codePoint_pair {n : ℕ} (h : n < 0x100000) :
    codePoint (0xD800 + n / 0x400) (0xDC00 + n % 0x400) = n + 0x10000 := by
  have hhigh : n / 0x400 < 0x400 := by omega
  have hlow : n % 0x400 < 0x400 := Nat.mod_lt _ (by decide)
  rw [codePoint, if_pos (by omega), Nat.add_sub_cancel_left, Nat.add_sub_cancel_left,
    Nat.div_add_mod']

/-- Behind any units, the units of a scalar value are its code point. -/
theorem codePointAt_utf16 (front back : List ℕ) (c : Char) :
    codePointAt (front ++ (utf16Char c ++ back)) front.length = c.toNat := by
  have hlt := toNat_lt c
  have hfirst := getD_behind front (utf16Char c ++ back) 0
  rw [Nat.add_zero] at hfirst
  rw [codePointAt, hfirst, getD_behind]
  by_cases hbmp : c.toNat < 0x10000
  · rw [utf16Char, if_pos hbmp]
    exact codePoint_of_not_lead (not_surrogate c)
  · rw [utf16Char, if_neg hbmp]
    obtain ⟨n, hn⟩ := Nat.exists_eq_add_of_le' (Nat.le_of_not_lt hbmp)
    rw [hn, Nat.add_sub_cancel]
    exact codePoint_pair (by omega)

/-- The loop encodes the scalar values from a unit on. -/
theorem encodeFrom_utf16 (front : List ℕ) (cs : List Char) :
    encodeFrom (front ++ utf16 cs) front.length = cs.flatMap fun c => encodeCodePoint c.toNat := by
  induction cs generalizing front with
  | nil =>
      rw [encodeFrom, if_neg (by simp [utf16])]
      rfl
  | cons c cs ih =>
      have hpos : 0 < (utf16Char c).length := by
        rw [utf16Char_length]
        split_ifs <;> decide
      have hnext : (if c.toNat < 0x10000 then front.length + 1 else front.length + 2) =
          (front ++ utf16Char c).length := by
        rw [List.length_append, utf16Char_length]
        split_ifs <;> rfl
      rw [encodeFrom, utf16, List.flatMap_cons, ← utf16,
        if_pos (by rw [List.length_append, List.length_append]; omega)]
      dsimp only
      rw [codePointAt_utf16, hnext, ← List.append_assoc, ih, List.flatMap_cons]

/-- **The bytes written are the standard encoding and a zero.** -/
theorem encoded_utf16 (cs : List Char) : encoded (utf16 cs) = utf8 cs ++ [0] := by
  have hloop : encodeFrom (utf16 cs) 0 = cs.flatMap fun c => encodeCodePoint c.toNat :=
    encodeFrom_utf16 [] cs
  rw [encoded, hloop, List.map_append, utf8, List.map_flatMap, List.map_flatMap]
  simp only [encodeCodePoint_eq]
  rfl

end Loop

/-! ## §6  Reading back -/

section ReadBack

variable {cs cs' : List Char} {mem : Memory}

theorem decodeUtf8_utf8 (cs : List Char) : decodeUtf8 (utf8 cs) = some cs := by
  have hsame : ((utf8 cs).map UInt8.ofBitVec).toByteArray = cs.utf8Encode := by
    rw [utf8, List.map_map]
    simp [Function.comp_def, List.utf8Encode]
  rw [decodeUtf8, hsame, List.utf8Decode?_utf8Encode]
  rfl

theorem utf8_injective (h : utf8 cs = utf8 cs') : cs = cs' := by
  apply Option.some.inj
  rw [← decodeUtf8_utf8 cs, ← decodeUtf8_utf8 cs', h]

theorem toBitVec_ofNat_ne_zero {n : ℕ} (hpos : 0 < n) (hlt : n < 256) :
    (UInt8.ofNat n).toBitVec ≠ 0 := by
  intro hzero
  have hnat : (BitVec.ofNat 8 n).toNat = 0 := congrArg BitVec.toNat hzero
  rw [BitVec.toNat_ofNat, Nat.mod_eq_of_lt hlt] at hnat
  exact hpos.ne' hnat

/-- Only U+0000 has a zero byte. -/
theorem zero_notMem_utf8EncodeChar {c : Char} (h : c ≠ '\x00') :
    ∀ b ∈ String.utf8EncodeChar c, b.toBitVec ≠ 0 := by
  have hne : c.val.toNat ≠ 0 := fun h0 => h (Char.toNat_inj.mp h0)
  unfold String.utf8EncodeChar
  generalize c.val.toNat = v at hne
  dsimp only
  split_ifs
  · rw [List.forall_mem_singleton]
    exact toBitVec_ofNat_ne_zero (by omega) (by omega)
  · rw [List.forall_mem_cons, List.forall_mem_singleton]
    constructor <;> exact toBitVec_ofNat_ne_zero (by omega) (by omega)
  · rw [List.forall_mem_cons, List.forall_mem_cons, List.forall_mem_singleton]
    refine ⟨?_, ?_, ?_⟩ <;> exact toBitVec_ofNat_ne_zero (by omega) (by omega)
  · rw [List.forall_mem_cons, List.forall_mem_cons, List.forall_mem_cons,
      List.forall_mem_singleton]
    refine ⟨?_, ?_, ?_, ?_⟩ <;> exact toBitVec_ofNat_ne_zero (by omega) (by omega)

theorem zero_notMem_utf8 (h : '\x00' ∉ cs) : 0 ∉ utf8 cs := by
  intro hmem
  obtain ⟨b, hb, hzero⟩ := List.mem_map.mp hmem
  obtain ⟨c, hc, hb⟩ := List.mem_flatMap.mp hb
  have hne : c ≠ '\x00' := by
    rintro rfl
    exact h hc
  exact zero_notMem_utf8EncodeChar hne b hb hzero

theorem readBytes_succ (mem : Memory) (addr : Addr) (n : ℕ) :
    readBytes mem addr (n + 1) = mem addr :: readBytes mem (addr + 1) n := by
  rw [Nat.add_comm, readBytes_add, readBytes_one]
  rfl

/-- Reading stops at a zero, or at the greatest length. -/
theorem readFrom_eq {bytes : List Byte} {addr : Addr} {left : ℕ} (hzero : 0 ∉ bytes)
    (hleft : bytes.length ≤ left) (hmem : readBytes mem addr (bytes.length + 1) = bytes ++ [0]) :
    readFrom mem addr left = bytes := by
  induction bytes generalizing addr left with
  | nil =>
      have hbyte : mem addr = 0 := by
        rw [List.length_nil, readBytes_one] at hmem
        exact (List.cons.inj hmem).1
      cases left with
      | zero => rfl
      | succ left => rw [readFrom, if_pos hbyte]
  | cons b bytes ih =>
      rw [List.length_cons, readBytes_succ, List.cons_append] at hmem
      obtain ⟨hbyte, hrest⟩ := List.cons.inj hmem
      rw [List.mem_cons, not_or] at hzero
      cases left with
      | zero => cases hleft
      | succ left =>
          rw [readFrom, hbyte, if_neg (Ne.symm hzero.1),
            ih hzero.2 (Nat.le_of_succ_le_succ hleft) hrest]

theorem length_le_of_block {size : ℕ} (block : Block size) : size ≤ 2 ^ 64 :=
  (Nat.le_add_left _ _).trans block.fits

/-- **`allocUtf8String` writes UTF-8.** The block holds the standard encoding and a zero; it
decodes to the string, no other string is encoded the same, and without U+0000 the bytes are
read back. -/
theorem allocUtf8String_utf8 (cs : List Char) (mem : Memory)
    (block : Block (encoded (utf16 cs)).length) :
    let (p, mem') := allocUtf8String (utf16 cs) mem block
    readBytes mem' p (encoded (utf16 cs)).length = utf8 cs ++ [0] ∧
    decodeUtf8 (readBytes mem' p (utf8 cs).length) = some cs ∧
    (∀ cs', encoded (utf16 cs') = encoded (utf16 cs) → cs' = cs) ∧
    ('\x00' ∉ cs → ∀ maxLength : ℤ, (utf8 cs).length ≤ maxLength →
      readUtf8String mem' p maxLength = utf8 cs) := by
  dsimp only [allocUtf8String]
  have hblock : readBytes (writeBytes mem block.addr (encoded (utf16 cs))) block.addr
      (encoded (utf16 cs)).length = utf8 cs ++ [0] := by
    rw [readBytes_writeBytes_self (length_le_of_block block), encoded_utf16]
  have hlength : (encoded (utf16 cs)).length = (utf8 cs).length + 1 := by
    rw [encoded_utf16, List.length_append, List.length_singleton]
  refine ⟨hblock, ?_, ?_, ?_⟩
  · have htake := take_readBytes (writeBytes mem block.addr (encoded (utf16 cs))) block.addr
      (show (utf8 cs).length ≤ (encoded (utf16 cs)).length by omega)
    rw [hblock, List.take_left] at htake
    rw [← htake, decodeUtf8_utf8]
  · intro cs' h
    rw [encoded_utf16, encoded_utf16] at h
    exact utf8_injective (List.append_cancel_right h)
  · intro hnul maxLength hmax
    apply readFrom_eq (zero_notMem_utf8 hnul) (by omega)
    rw [← hlength]
    exact hblock

end ReadBack

end Utf8Strings

end Chromatic
