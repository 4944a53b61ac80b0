import Chromatic.ProcessMaps

/-!
# Hex dumps

The text that `hexdump` makes of bytes, and reading it back by its columns: the hex columns and
the characters have fixed widths, the address in front of them has not.

§1 the text · §2 reading a dump · §3 the columns of a row · §4 the rows · §5 dumps are lossless.
-/

namespace Chromatic

open Foundation

namespace Hexdump

open ProcessMaps (hexText readHex_zeros newline_notMem_hexText)

/-! ## §1  The text -/

/-- What is added to `hexPart` for a byte, or in its place. -/
def hexCell : Option Byte → List Char
  | some b => ' ' :: hexText 2 b.toNat
  | none => [' ', ' ', ' ']

/-- What is added to `asciiPart`. -/
def asciiCell : Option Byte → Char
  | some ch => if 0x20 ≤ ch.toNat ∧ ch.toNat ≤ 0x7E then Char.ofNat ch.toNat else '.'
  | none => ' '

def hexPart (bytes : List Byte) (i : ℕ) : List Char :=
  (List.range 16).flatMap fun j => hexCell bytes[i + j]?

def asciiPart (bytes : List Byte) (i : ℕ) : List Char :=
  (List.range 16).map fun j => asciiCell bytes[i + j]?

/-- The line of the bytes from `i` on. The address is a `BigInt`, which does not wrap. -/
def row (baseAddr : ℕ) (bytes : List Byte) (i : ℕ) : List Char :=
  ['0', 'x'] ++ (hexText 10 (baseAddr + i) ++ ([' '] ++
    (hexPart bytes i ++ ([' ', ' '] ++ asciiPart bytes i))))

/-- The loop over the bytes from `i` on. -/
def rowsFrom (baseAddr : ℕ) (bytes : List Byte) (i : ℕ) : List (List Char) :=
  if i < bytes.length then row baseAddr bytes i :: rowsFrom baseAddr bytes (i + 16) else []
termination_by bytes.length - i

def headerLine : List Char :=
  List.replicate 11 ' ' ++ ((List.range 16).flatMap fun i => ' ' :: hexText 2 i) ++ [' ', ' '] ++
    (List.range 16).flatMap fun i => Nat.toDigits 16 i

/-- `lines.join('\\n')`. -/
def dump (header : Bool) (baseAddr : ℕ) (bytes : List Byte) : List Char :=
  ['\n'].intercalate ((if header then [headerLine] else []) ++ rowsFrom baseAddr bytes 0)

/-- An `ArrayBuffer`, or an address with what `safeReadMemory` answers there. -/
inductive Target where
  | arrayBuffer (view : List Byte)
  | pointer (addr : Addr) (data : List Byte)

/-- `offset` and `length` are whole numbers from 0 on. -/
def hexdump (target : Target) (offset length : ℕ) (header : Bool) : List Char :=
  match target with
  | .arrayBuffer view => dump header offset ((view.drop offset).take length)
  | .pointer addr data =>
    if data = [] then "(inaccessible)".toList
    else dump header (addr + BitVec.ofNat 64 offset).toNat data

/-! ## §2  Reading a dump -/

/-- The lines that start with an address. -/
def rows (text : List Char) : List (List Char) :=
  (text.splitOn '\n').filter fun line => ['0', 'x'].isPrefixOf line

/-- The 48 characters in front of the last 18. -/
def hexColumns (line : List Char) : List Char := (line.drop (line.length - 66)).take 48

def asciiColumn (line : List Char) : List Char := line.drop (line.length - 16)

/-- The byte of two digits. -/
def readCell (c d : Char) : Option Byte := do
  let high ← hexDigit c
  let low ← hexDigit d
  return BitVec.ofNat 8 (16 * high + low)

/-- The bytes of columns of three characters; what are no digits are no byte. -/
def readColumns : List Char → List Byte
  | _ :: c :: d :: columns => (readCell c d).toList ++ readColumns columns
  | _ => []

/-- The address in front of a line. -/
def readAddress (line : List Char) : ℕ := readHex 0 (line.drop 2)

/-- The rows of a dump say where the bytes are and what they are. -/
structure Lossless (text : List Char) (baseAddr : ℕ) (bytes : List Byte) : Prop where
  count : (rows text).length = (bytes.length + 15) / 16
  address : ∀ k line, (rows text)[k]? = some line →
    ['0', 'x'] ++ hexText 10 (baseAddr + 16 * k) <+: line ∧
      readAddress line = baseAddr + 16 * k
  hex : (rows text).flatMap (fun line => readColumns (hexColumns line)) = bytes
  ascii : ∀ i ch, bytes[i]? = some ch → ∃ line, (rows text)[i / 16]? = some line ∧
    (asciiColumn line)[i % 16]? =
      some (if 0x20 ≤ ch.toNat ∧ ch.toNat ≤ 0x7E then Char.ofNat ch.toNat else '.')

/-! ## §3  The columns of a row -/

section Columns

variable {baseAddr i : ℕ} {bytes : List Byte}

theorem length_hexText_byte (b : Byte) : (hexText 2 b.toNat).length = 2 := by
  have hle : (Nat.toDigits 16 b.toNat).length ≤ 2 :=
    (Nat.length_toDigits_le_iff (by decide) (by decide)).mpr b.isLt
  rw [hexText, List.length_leftpad]
  omega

theorem length_hexCell (o : Option Byte) : (hexCell o).length = 3 := by
  cases o with
  | none => rfl
  | some b => rw [hexCell, List.length_cons, length_hexText_byte]

theorem length_hexPart : (hexPart bytes i).length = 48 := by
  unfold hexPart
  rw [List.length_flatMap]
  simp [length_hexCell]

theorem length_asciiPart : (asciiPart bytes i).length = 16 := by
  simp [asciiPart]

theorem drop_front (front back : List Char) :
    (front ++ back).drop ((front ++ back).length - back.length) = back := by
  rw [List.length_append, Nat.add_sub_cancel, List.drop_left]

theorem hexColumns_row : hexColumns (row baseAddr bytes i) = hexPart bytes i := by
  have hback : (hexPart bytes i ++ ([' ', ' '] ++ asciiPart bytes i)).length = 66 := by
    simp [length_hexPart, length_asciiPart]
  have hdrop := drop_front (['0', 'x'] ++ (hexText 10 (baseAddr + i) ++ [' ']))
    (hexPart bytes i ++ ([' ', ' '] ++ asciiPart bytes i))
  rw [hback] at hdrop
  rw [hexColumns, row, ← List.append_assoc (hexText _ _), ← List.append_assoc ['0', 'x'], hdrop,
    List.take_left' length_hexPart]

theorem asciiColumn_row : asciiColumn (row baseAddr bytes i) = asciiPart bytes i := by
  have hdrop := drop_front (['0', 'x'] ++ (hexText 10 (baseAddr + i) ++ ([' '] ++
    (hexPart bytes i ++ [' ', ' '])))) (asciiPart bytes i)
  rw [length_asciiPart] at hdrop
  rw [asciiColumn]
  simpa only [row, List.append_assoc] using hdrop

theorem hexText_digits (width n : ℕ) :
    readHex 0 (hexText width n) = n ∧ ∀ c ∈ hexText width n, (hexDigit c).isSome := by
  obtain ⟨hread, hdigits⟩ := readHex_toDigits n
  constructor
  · rw [hexText, List.leftpad, readHex_zeros, hread]
  · intro c hc
    rcases List.mem_append.mp hc with hzero | hdigit
    · rw [(List.mem_replicate.mp hzero).2]
      rfl
    · exact hdigits c hdigit

/-- Two digits are read. -/
theorem readCell_byte (b : Byte) {c d : Char} (h : hexText 2 b.toNat = [c, d]) :
    readCell c d = some b := by
  obtain ⟨hvalue, hall⟩ := hexText_digits 2 b.toNat
  rw [h] at hvalue hall
  obtain ⟨high, hhigh⟩ := Option.isSome_iff_exists.mp (hall c (by simp))
  obtain ⟨low, hlow⟩ := Option.isSome_iff_exists.mp (hall d (by simp))
  simp only [readHex, hhigh, hlow] at hvalue
  simp only [readCell, hhigh, hlow, Option.bind_eq_bind, Option.bind_some, Option.pure_def]
  rw [show 16 * high + low = b.toNat by omega, BitVec.ofNat_toNat, BitVec.setWidth_eq]

/-- A column holds its byte, a padded one none. -/
theorem readColumns_cons (o : Option Byte) (columns : List Char) :
    readColumns (hexCell o ++ columns) = o.toList ++ readColumns columns := by
  cases o with
  | none => rfl
  | some b =>
      obtain ⟨c, d, hcd⟩ := List.length_eq_two.mp (length_hexText_byte b)
      rw [hexCell, hcd, List.cons_append, List.cons_append, List.cons_append, readColumns,
        readCell_byte b hcd]
      rfl

theorem readColumns_flatMap (os : List (Option Byte)) :
    readColumns (os.flatMap hexCell) = os.flatMap Option.toList := by
  induction os with
  | nil => rfl
  | cons o os ih => rw [List.flatMap_cons, readColumns_cons, ih, List.flatMap_cons]

/-- The first `n` elements, one by one. -/
theorem flatMap_getElem? (xs : List Byte) (n : ℕ) :
    ((List.range n).map fun j => xs[j]?).flatMap Option.toList = xs.take n := by
  induction n with
  | zero => rfl
  | succ n ih =>
      rw [List.range_succ, List.map_append, List.flatMap_append, ih, List.map_singleton,
        List.flatMap_singleton, List.take_add_one]

/-- The hex columns of a row give back its bytes. -/
theorem readColumns_hexPart : readColumns (hexPart bytes i) = (bytes.drop i).take 16 := by
  have hmap : hexPart bytes i =
      ((List.range 16).map fun j => (bytes.drop i)[j]?).flatMap hexCell := by
    simp only [hexPart, List.flatMap_map, List.getElem?_drop]
  rw [hmap, readColumns_flatMap, flatMap_getElem?]

end Columns

/-! ## §4  The rows -/

section Rows

variable {baseAddr i : ℕ} {bytes : List Byte}

theorem rowsFrom_eq (h : i < bytes.length) :
    rowsFrom baseAddr bytes i = row baseAddr bytes i :: rowsFrom baseAddr bytes (i + 16) := by
  rw [rowsFrom, if_pos h]

theorem rowsFrom_of_le (h : bytes.length ≤ i) : rowsFrom baseAddr bytes i = [] := by
  rw [rowsFrom, if_neg (Nat.not_lt.mpr h)]

/-- The row with number `k` is that of the bytes from `16 * k` on. -/
theorem getElem?_rowsFrom (baseAddr i k : ℕ) (bytes : List Byte) :
    (rowsFrom baseAddr bytes i)[k]? =
      if i + 16 * k < bytes.length then some (row baseAddr bytes (i + 16 * k)) else none := by
  induction k generalizing i with
  | zero =>
      by_cases h : i < bytes.length
      · rw [rowsFrom_eq h]
        simp [h]
      · rw [rowsFrom_of_le (Nat.not_lt.mp h)]
        simp [h]
  | succ k ih =>
      by_cases h : i < bytes.length
      · rw [rowsFrom_eq h, List.getElem?_cons_succ, ih, show i + 16 + 16 * k = i + 16 * (k + 1) by
          omega]
      · rw [rowsFrom_of_le (Nat.not_lt.mp h), if_neg (by omega)]
        rfl

theorem length_rowsFrom (i : ℕ) :
    (rowsFrom baseAddr bytes i).length = (bytes.length - i + 15) / 16 := by
  induction i using rowsFrom.induct bytes with
  | case1 i h ih =>
      rw [rowsFrom_eq h, List.length_cons, ih]
      omega
  | case2 i h =>
      rw [rowsFrom_of_le (Nat.not_lt.mp h), List.length_nil]
      omega

/-- The rows give back the bytes. -/
theorem readColumns_rowsFrom (i : ℕ) :
    (rowsFrom baseAddr bytes i).flatMap (fun line => readColumns (hexColumns line)) =
      bytes.drop i := by
  induction i using rowsFrom.induct bytes with
  | case1 i h ih =>
      rw [rowsFrom_eq h, List.flatMap_cons, ih, hexColumns_row, readColumns_hexPart,
        ← List.drop_drop, List.take_append_drop]
  | case2 i h =>
      have hle := Nat.not_lt.mp h
      rw [rowsFrom_of_le hle, List.drop_eq_nil_of_le hle]
      rfl

theorem toNat_ofNat {n : ℕ} (h : n < 0xD800) : (Char.ofNat n).toNat = n := by
  rw [Char.ofNat, dif_pos (Or.inl h)]
  rfl

theorem newline_ne_asciiCell (o : Option Byte) : '\n' ≠ asciiCell o := by
  cases o with
  | none => decide
  | some ch =>
      rw [asciiCell]
      split_ifs with h
      · intro heq
        have hnat : 10 = (Char.ofNat ch.toNat).toNat := congrArg Char.toNat heq
        rw [toNat_ofNat (by omega)] at hnat
        omega
      · decide

theorem newline_notMem_row : '\n' ∉ row baseAddr bytes i := by
  have hcell : ∀ o, '\n' ∉ hexCell o := by
    rintro (_ | b)
    · decide
    · simp [hexCell, newline_notMem_hexText]
  have hhex : '\n' ∉ hexPart bytes i := by
    intro hmem
    obtain ⟨j, -, hj⟩ := List.mem_flatMap.mp hmem
    exact hcell _ hj
  have hascii : '\n' ∉ asciiPart bytes i := by
    intro hmem
    obtain ⟨j, -, hj⟩ := List.mem_map.mp hmem
    exact newline_ne_asciiCell _ hj.symm
  simp [row, newline_notMem_hexText, hhex, hascii]

theorem newline_notMem_rowsFrom (i : ℕ) : ∀ line ∈ rowsFrom baseAddr bytes i, '\n' ∉ line := by
  induction i using rowsFrom.induct bytes with
  | case1 i h ih =>
      rw [rowsFrom_eq h, List.forall_mem_cons]
      exact ⟨newline_notMem_row, ih⟩
  | case2 i h =>
      rw [rowsFrom_of_le (Nat.not_lt.mp h)]
      exact List.forall_mem_nil _

theorem filter_rowsFrom (i : ℕ) :
    (rowsFrom baseAddr bytes i).filter (fun line => ['0', 'x'].isPrefixOf line) =
      rowsFrom baseAddr bytes i := by
  induction i using rowsFrom.induct bytes with
  | case1 i h ih =>
      rw [rowsFrom_eq h, List.filter_cons_of_pos (by rfl), ih]
  | case2 i h => rw [rowsFrom_of_le (Nat.not_lt.mp h), List.filter_nil]

/-- The rows of a dump are those of the loop: the header is none. -/
theorem rows_dump (header : Bool) : rows (dump header baseAddr bytes) =
    rowsFrom baseAddr bytes 0 := by
  have hheader : ∀ line ∈ (if header then [headerLine] else []), '\n' ∉ line := by
    cases header with
    | false => exact List.forall_mem_nil _
    | true => exact List.forall_mem_singleton.mpr (by decide)
  have hnone : (if header then [headerLine] else []).filter
      (fun line => ['0', 'x'].isPrefixOf line) = [] := by
    cases header <;> rfl
  unfold rows dump
  generalize (if header then [headerLine] else []) = front at hheader hnone
  by_cases hlines : front ++ rowsFrom baseAddr bytes 0 = []
  · obtain ⟨rfl, hrows⟩ := List.append_eq_nil_iff.mp hlines
    rw [hrows]
    rfl
  · have hnewline : ∀ line ∈ front ++ rowsFrom baseAddr bytes 0, '\n' ∉ line := by
      intro line hline
      rcases List.mem_append.mp hline with hfront | hrow
      · exact hheader line hfront
      · exact newline_notMem_rowsFrom 0 line hrow
    rw [List.splitOn_intercalate '\n' hnewline hlines, List.filter_append, hnone, List.nil_append,
      filter_rowsFrom]

end Rows

/-! ## §5  Dumps are lossless -/

section Lossless

variable {baseAddr : ℕ} {bytes : List Byte}

/-- Reading an address stops at the blank. -/
theorem readHex_blank {ds : List Char} (tail : List Char) (hds : ∀ c ∈ ds, (hexDigit c).isSome)
    (acc : ℕ) : readHex acc (ds ++ ' ' :: tail) = readHex acc ds := by
  induction ds generalizing acc with
  | nil => rfl
  | cons d ds ih =>
      obtain ⟨n, hn⟩ := Option.isSome_iff_exists.mp (hds d List.mem_cons_self)
      simp only [List.cons_append, readHex, hn]
      exact ih (fun c hc => hds c (List.mem_cons_of_mem _ hc)) _

theorem readAddress_row (i : ℕ) : readAddress (row baseAddr bytes i) = baseAddr + i := by
  obtain ⟨hvalue, hdigits⟩ := hexText_digits 10 (baseAddr + i)
  exact (readHex_blank _ hdigits 0).trans hvalue

/-- Text with the rows of the loop is lossless. -/
theorem lossless_of_rows {text : List Char} (h : rows text = rowsFrom baseAddr bytes 0) :
    Lossless text baseAddr bytes where
  count := by rw [h, length_rowsFrom, Nat.sub_zero]
  address k line hline := by
    rw [h, getElem?_rowsFrom, Nat.zero_add] at hline
    split_ifs at hline
    obtain rfl := Option.some.inj hline
    refine ⟨?_, readAddress_row _⟩
    rw [row, ← List.append_assoc]
    exact List.prefix_append _ _
  hex := by rw [h, readColumns_rowsFrom, List.drop_zero]
  ascii i ch hch := by
    have hlt := (List.getElem?_eq_some_iff.mp hch).1
    have hsplit : 16 * (i / 16) + i % 16 = i := Nat.div_add_mod i 16
    refine ⟨row baseAddr bytes (16 * (i / 16)), ?_, ?_⟩
    · rw [h, getElem?_rowsFrom, Nat.zero_add, if_pos (by omega)]
    · rw [asciiColumn_row, asciiPart, List.getElem?_map,
        List.getElem?_range (Nat.mod_lt i (by decide)), Option.map_some, hsplit, hch]
      rfl

/-- Hex dumps are lossless. -/
theorem hexdump_lossless (offset length : ℕ) (header : Bool) :
    (∀ view, Lossless (hexdump (.arrayBuffer view) offset length header) offset
      ((view.drop offset).take length)) ∧
    ∀ addr data, Lossless (hexdump (.pointer addr data) offset length header)
      (addr + BitVec.ofNat 64 offset).toNat data := by
  constructor
  · intro view
    exact lossless_of_rows (rows_dump header)
  · intro addr data
    apply lossless_of_rows
    unfold hexdump
    dsimp only
    split_ifs with hempty
    · subst hempty
      rw [rowsFrom_of_le (show ([] : List Byte).length ≤ 0 from le_rfl)]
      decide
    · exact rows_dump header

end Lossless

end Hexdump

end Chromatic
