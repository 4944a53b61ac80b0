import Chromatic.NativeFunction
import Chromatic.Foundation.PatternSearch
import Chromatic.Foundation.TwosComplement

/-!
# Scanning memory

`parsePattern` and `bmhScan`: a search with a skip table for patterns of bytes and wildcards.
The addresses it reads are part of what it returns.

§1 patterns · §2 the skip table · §3 the search · §4 every skip is safe · §5 what a scan
finds · §6 the naive scan.
-/

namespace Chromatic

open Foundation NativeFunction

namespace MemoryScan

/-! ## §1  Patterns -/

/-- `mask` is true where the byte must match. -/
structure ParsedPattern where
  bytes : List Byte
  mask : List Bool
  lengths : mask.length = bytes.length

namespace ParsedPattern

def empty : ParsedPattern := ⟨[], [], rfl⟩

def push (p : ParsedPattern) (byte : Byte) (fixed : Bool) : ParsedPattern :=
  ⟨p.bytes ++ [byte], p.mask ++ [fixed], by simp [p.lengths]⟩

def size (p : ParsedPattern) : ℕ := p.bytes.length

@[simp] theorem size_push (p : ParsedPattern) (byte : Byte) (fixed : Bool) :
    (p.push byte fixed).size = p.size + 1 := by
  simp [size, push]

/-- `mask[j]`. -/
def fixed (p : ParsedPattern) (j : ℕ) : Bool := p.mask.getD j false

/-- `bytes[j]`. -/
def byte (p : ParsedPattern) (j : ℕ) : Byte := p.bytes.getD j 0

/-- The byte at each place, none at a wildcard. -/
def positions (p : ParsedPattern) : List (Option Byte) :=
  List.zipWith (fun byte fixed => if fixed then some byte else none) p.bytes p.mask

end ParsedPattern

/-- The words that `>>` reads one after the other. -/
def words : List Char → List (List Char)
  | [] => []
  | c :: cs =>
    if isSpace c then words cs
    else
      match cs with
      | [] => [[c]]
      | d :: rest =>
        if isSpace d then [c] :: words (d :: rest)
        else
          match words (d :: rest) with
          | [] => [[c]]
          | w :: ws => (c :: w) :: ws

/-- `std::stoi(token, nullptr, 16)`. -/
def stoi16 (token : List Char) : Except CallError ℤ :=
  let (negative, cs) := match token.dropWhile isSpace with
    | '-' :: cs => (true, cs)
    | '+' :: cs => (false, cs)
    | cs => (false, cs)
  match readHexWord cs with
  | none => .error .invalidArgument
  | some n =>
      let v : ℤ := if negative then -n else n
      if -2 ^ 31 ≤ v ∧ v < 2 ^ 31 then .ok v else .error .outOfRange

/-- The loop of `parsePattern`. -/
def pushTokens : List (List Char) → ParsedPattern → Except CallError ParsedPattern
  | [], p => .ok p
  | token :: rest, p =>
    if token = ['?', '?'] ∨ token = ['?'] then pushTokens rest (p.push 0 false)
    else do
      let v ← stoi16 token
      pushTokens rest (p.push (BitVec.ofInt 8 v) true)

def parsePattern (pattern : String) : Except CallError ParsedPattern :=
  pushTokens (words pattern.toList) .empty

theorem size_pushTokens {tokens : List (List Char)} {p pat : ParsedPattern}
    (h : pushTokens tokens p = .ok pat) : pat.size = p.size + tokens.length := by
  induction tokens generalizing p with
  | nil =>
      obtain rfl := Except.ok.inj h
      rfl
  | cons token rest ih =>
      rw [pushTokens] at h
      rw [List.length_cons]
      split_ifs at h with hwild
      · rw [ih h, ParsedPattern.size_push]
        omega
      · cases hv : stoi16 token with
        | error e =>
            rw [hv] at h
            cases h
        | ok v =>
            rw [hv] at h
            rw [ih h, ParsedPattern.size_push]
            omega

/-- A pattern has a place for each token. -/
theorem size_parsePattern {pattern : String} {pat : ParsedPattern}
    (h : parsePattern pattern = .ok pat) : pat.size = (words pattern.toList).length := by
  rw [size_pushTokens h]
  exact Nat.zero_add _

/-! ## §2  The skip table -/

/-- One turn of the loop over the places before the last. -/
def shiftTurn (pat : ParsedPattern) (shift : Byte → ℕ) (j : ℕ) : Byte → ℕ :=
  let s := pat.size - 1 - j
  if pat.fixed j = false then fun c => if shift c > s then s else shift c
  else fun c => if c = pat.byte j ∧ shift c > s then s else shift c

def shiftTable (pat : ParsedPattern) : Byte → ℕ :=
  let table := (List.range (pat.size - 1)).foldl (shiftTurn pat) fun _ => pat.size
  if pat.fixed (pat.size - 1) = false then
    fun c => if table c > 1 then 1 else table c
  else table

theorem shiftTurn_le (pat : ParsedPattern) (shift : Byte → ℕ) (j : ℕ) (c : Byte) :
    shiftTurn pat shift j c ≤ shift c := by
  unfold shiftTurn
  split_ifs <;> (dsimp only; split_ifs <;> omega)

theorem shiftTurn_pos {pat : ParsedPattern} {shift : Byte → ℕ} {j : ℕ} {c : Byte}
    (h : 0 < shift c) (hj : j < pat.size - 1) : 0 < shiftTurn pat shift j c := by
  unfold shiftTurn
  split_ifs <;> (dsimp only; split_ifs <;> omega)

theorem foldl_shiftTurn_pos {pat : ParsedPattern} {js : List ℕ} {shift : Byte → ℕ} {c : Byte}
    (h : 0 < shift c) (hjs : ∀ j ∈ js, j < pat.size - 1) :
    0 < js.foldl (shiftTurn pat) shift c := by
  induction js generalizing shift with
  | nil => exact h
  | cons j js ih =>
      obtain ⟨hj, hrest⟩ := List.forall_mem_cons.mp hjs
      exact ih (shiftTurn_pos h hj) hrest

theorem shiftTable_pos {pat : ParsedPattern} (h : 0 < pat.size) (c : Byte) :
    0 < shiftTable pat c := by
  have hfold : 0 < (List.range (pat.size - 1)).foldl (shiftTurn pat) (fun _ => pat.size) c :=
    foldl_shiftTurn_pos h fun j hj => List.mem_range.mp hj
  unfold shiftTable
  split_ifs
  · dsimp only
    split_ifs
    · exact Nat.one_pos
    · exact hfold
  · exact hfold

/-! ## §3  The search -/

/-- The comparison from right to left of the first `j` places, and the places read. -/
def compare (haystack : ℕ → Byte) (pat : ParsedPattern) (i : ℕ) : ℕ → Bool × List ℕ
  | 0 => (true, [])
  | j + 1 =>
    if pat.fixed j then
      if haystack (i + j) ≠ pat.byte j then (false, [i + j])
      else
        let (same, reads) := compare haystack pat i j
        (same, (i + j) :: reads)
    else compare haystack pat i j

/-- The loop from offset `i` on: the offsets reported and those read. -/
def search (haystack : ℕ → Byte) (haystackLen : ℕ) (pat : ParsedPattern) (shift : Byte → ℕ)
    (pos : ∀ c, 0 < shift c) (i : ℕ) : List ℕ × List ℕ :=
  if i + pat.size ≤ haystackLen then
    match compare haystack pat i pat.size with
    | (true, reads) =>
      let (found, more) := search haystack haystackLen pat shift pos (i + 1)
      (i :: found, reads ++ more)
    | (false, reads) =>
      let last := i + pat.size - 1
      let (found, more) :=
        search haystack haystackLen pat shift pos (i + shift (haystack last))
      (found, reads ++ last :: more)
  else ([], [])
termination_by haystackLen + 1 - i
decreasing_by
  · omega
  · have := pos (haystack (i + pat.size - 1))
    omega

structure ScanMatch where
  address : ℕ
  size : ℤ
deriving DecidableEq, Repr

/-- The matches in the `haystackLen` bytes at `haystack`, and the addresses read. -/
def bmhScan (memory : ℕ → Byte) (haystack haystackLen : ℕ) (pat : ParsedPattern) :
    List ScanMatch × List ℕ :=
  if h : pat.size = 0 ∨ haystackLen < pat.size then ([], [])
  else
    let (found, reads) := search (fun i => memory (haystack + i)) haystackLen pat
      (shiftTable pat) (shiftTable_pos (Nat.pos_of_ne_zero (not_or.mp h).1)) 0
    (found.map fun i => ⟨haystack + i, (BitVec.ofNat 32 pat.size).toInt⟩,
      reads.map (haystack + ·))

/-! ## §4  Every skip is safe -/

section Skips

variable {pat : ParsedPattern} {js : List ℕ} {shift : Byte → ℕ} {c : Byte} {j : ℕ}

/-- The byte at place `j` of the pattern may be `c`. -/
def ParsedPattern.Allows (pat : ParsedPattern) (j : ℕ) (c : Byte) : Prop :=
  pat.fixed j = false ∨ c = pat.byte j

theorem length_positions (pat : ParsedPattern) : pat.positions.length = pat.size := by
  simp [ParsedPattern.positions, ParsedPattern.size, pat.lengths]

theorem positions_eq_some {a : Byte} : pat.positions[j]? = some (some a) ↔
    j < pat.size ∧ pat.fixed j = true ∧ pat.byte j = a := by
  have hlen := pat.lengths
  unfold ParsedPattern.positions ParsedPattern.size ParsedPattern.fixed ParsedPattern.byte
  rw [List.getElem?_zipWith]
  by_cases hj : j < pat.bytes.length
  · have hj' : j < pat.mask.length := by omega
    rw [List.getD_eq_getElem?_getD, List.getD_eq_getElem?_getD, List.getElem?_eq_getElem hj,
      List.getElem?_eq_getElem hj']
    simp only [Option.some.injEq, Option.getD_some, hj, true_and]
    cases pat.mask[j] <;> simp
  · rw [List.getElem?_eq_none (by omega)]
    simp [hj]

theorem foldl_shiftTurn_le : js.foldl (shiftTurn pat) shift c ≤ shift c := by
  induction js generalizing shift with
  | nil => exact Nat.le_refl _
  | cons j js ih => exact Nat.le_trans ih (shiftTurn_le pat shift j c)

theorem shiftTurn_le_of_allows (h : pat.Allows j c) :
    shiftTurn pat shift j c ≤ pat.size - 1 - j := by
  unfold shiftTurn
  split_ifs with hwild
  · dsimp only
    split_ifs <;> omega
  · obtain rfl := h.resolve_left hwild
    dsimp only
    split_ifs with hmore
    · exact Nat.le_refl _
    · simp only [true_and] at hmore
      omega

/-- Every place before the last bounds the skip for the bytes it allows. -/
theorem foldl_shiftTurn_le_of_mem (hj : j ∈ js) (h : pat.Allows j c) :
    js.foldl (shiftTurn pat) shift c ≤ pat.size - 1 - j := by
  induction js generalizing shift with
  | nil => cases hj
  | cons j' js ih =>
      rcases List.mem_cons.mp hj with rfl | hrest
      · rw [List.foldl_cons]
        exact Nat.le_trans foldl_shiftTurn_le (shiftTurn_le_of_allows h)
      · exact ih hrest

theorem shiftTable_le (pat : ParsedPattern) (c : Byte) : shiftTable pat c ≤
    (List.range (pat.size - 1)).foldl (shiftTurn pat) (fun _ => pat.size) c := by
  unfold shiftTable
  split_ifs
  · dsimp only
    split_ifs <;> omega
  · exact Nat.le_refl _

/-- **The skip table is safe.** No skip passes over an occurrence. -/
theorem shiftTable_safe (pat : ParsedPattern) (c : Byte) :
    SafeSkip pat.positions c (shiftTable pat c) := by
  intro k hpos hlt
  have htable := Nat.lt_of_lt_of_le hlt (shiftTable_le pat c)
  have hsize : k < pat.size := Nat.lt_of_lt_of_le htable foldl_shiftTurn_le
  rw [length_positions]
  have hnot : ¬ pat.Allows (pat.size - 1 - k) c := by
    intro hallows
    have hmem : pat.size - 1 - k ∈ List.range (pat.size - 1) := List.mem_range.mpr (by omega)
    have hle : (List.range (pat.size - 1)).foldl (shiftTurn pat) (fun _ => pat.size) c ≤
        pat.size - 1 - (pat.size - 1 - k) := foldl_shiftTurn_le_of_mem hmem hallows
    omega
  obtain ⟨hfixed, hbyte⟩ := not_or.mp hnot
  refine ⟨hsize, _, positions_eq_some.mpr ⟨by omega, by simpa using hfixed, rfl⟩, ?_⟩
  exact fun hsame => hbyte hsame.symm

end Skips

/-! ## §5  What a scan finds -/

section Search

variable {haystack : ℕ → Byte} {haystackLen : ℕ} {pat : ParsedPattern} {i n : ℕ}

theorem matchesAt_iff : MatchesAt haystack pat.positions i ↔
    ∀ j < pat.size, pat.fixed j = true → haystack (i + j) = pat.byte j := by
  constructor
  · intro h j hj hfixed
    exact h j _ (positions_eq_some.mpr ⟨hj, hfixed, rfl⟩)
  · intro h j a ha
    obtain ⟨hj, hfixed, rfl⟩ := positions_eq_some.mp ha
    exact h j hj hfixed

theorem compare_iff : (compare haystack pat i n).1 = true ↔
    ∀ j < n, pat.fixed j = true → haystack (i + j) = pat.byte j := by
  induction n with
  | zero => simp [compare]
  | succ n ih =>
      rw [compare, Nat.forall_lt_succ_right]
      split_ifs with hfixed hdiffer
      · simp [hfixed, hdiffer]
      · simp only [hfixed, forall_const]
        rw [ih]
        exact (and_iff_left (not_not.mp hdiffer)).symm
      · rw [ih]
        simp [hfixed]

theorem compare_reads {x : ℕ} (h : x ∈ (compare haystack pat i n).2) : i ≤ x ∧ x < i + n := by
  induction n with
  | zero => simp [compare] at h
  | succ n ih =>
      rw [compare] at h
      split_ifs at h with hfixed hdiffer
      · obtain rfl := List.mem_singleton.mp h
        omega
      · rcases List.mem_cons.mp h with rfl | hmem
        · omega
        · have := ih hmem
          omega
      · have := ih h
        omega

/-- A pattern with a byte in it makes the comparison read. -/
theorem compare_reads_ne_nil {j : ℕ} (hj : j < n) (hfixed : pat.fixed j = true) :
    (compare haystack pat i n).2 ≠ [] := by
  induction n with
  | zero => omega
  | succ n ih =>
      rw [compare]
      split_ifs with hn hdiffer
      · simp
      · simp
      · apply ih
        rcases Nat.lt_succ_iff_lt_or_eq.mp hj with hlt | rfl
        · exact hlt
        · exact absurd hfixed hn

variable {shift : Byte → ℕ} {pos : ∀ c, 0 < shift c}

theorem search_match (hfits : i + pat.size ≤ haystackLen)
    (h : (compare haystack pat i pat.size).1 = true) :
    search haystack haystackLen pat shift pos i =
      (i :: (search haystack haystackLen pat shift pos (i + 1)).1,
        (compare haystack pat i pat.size).2 ++
          (search haystack haystackLen pat shift pos (i + 1)).2) := by
  rw [search, if_pos hfits]
  rcases hcompare : compare haystack pat i pat.size with ⟨same, reads⟩
  rw [hcompare] at h
  obtain rfl : same = true := h
  rfl

theorem search_mismatch (hfits : i + pat.size ≤ haystackLen)
    (h : (compare haystack pat i pat.size).1 = false) :
    search haystack haystackLen pat shift pos i =
      ((search haystack haystackLen pat shift pos
          (i + shift (haystack (i + pat.size - 1)))).1,
        (compare haystack pat i pat.size).2 ++ (i + pat.size - 1) ::
          (search haystack haystackLen pat shift pos
            (i + shift (haystack (i + pat.size - 1)))).2) := by
  rw [search, if_pos hfits]
  rcases hcompare : compare haystack pat i pat.size with ⟨same, reads⟩
  rw [hcompare] at h
  obtain rfl : same = false := h
  rfl

theorem search_end (hfits : ¬ i + pat.size ≤ haystackLen) :
    search haystack haystackLen pat shift pos i = ([], []) := by
  rw [search, if_neg hfits]

/-- The search from `i` on reports the occurrences from `i` on, and reads nothing outside. -/
theorem search_correct (haystack : ℕ → Byte) (haystackLen : ℕ) (pos : ∀ c, 0 < shift c)
    (hsize : 0 < pat.size)
    (hsafe : ∀ c, SafeSkip pat.positions c (shift c)) (i : ℕ) :
    Occurrences haystack haystackLen pat.positions i
        (search haystack haystackLen pat shift pos i).1 ∧
      ∀ x ∈ (search haystack haystackLen pat shift pos i).2, x < haystackLen := by
  -- induction on what is left behind `i`
  induction hleft : haystackLen + 1 - i using Nat.strongRecOn generalizing i with
  | ind left ih =>
      by_cases hfits : i + pat.size ≤ haystackLen
      · have hreads : ∀ x ∈ (compare haystack pat i pat.size).2, x < haystackLen :=
          fun x hx => Nat.lt_of_lt_of_le (compare_reads hx).2 hfits
        cases hsame : (compare haystack pat i pat.size).1 with
        | true =>
            rw [search_match hfits hsame]
            obtain ⟨hfound, hmore⟩ := ih _ (by omega) (i + 1) rfl
            refine ⟨hfound.cons (by rwa [length_positions])
              (matchesAt_iff.mpr (compare_iff.mp hsame)), fun x hx => ?_⟩
            rcases List.mem_append.mp hx with hnow | hlater
            · exact hreads x hnow
            · exact hmore x hlater
        | false =>
            rw [search_mismatch hfits hsame]
            have hstep := pos (haystack (i + pat.size - 1))
            obtain ⟨hfound, hmore⟩ :=
              ih _ (by omega) (i + shift (haystack (i + pat.size - 1))) rfl
            refine ⟨hfound.skip fun k hik hk hmatch => ?_, fun x hx => ?_⟩
            · rcases Nat.eq_or_lt_of_le hik with rfl | hlt
              · rw [matchesAt_iff, ← compare_iff] at hmatch
                exact absurd (hsame.symm.trans hmatch) Bool.false_ne_true
              · have hskip := hsafe (haystack (i + pat.size - 1))
                rw [← length_positions] at hskip
                have hnot := hskip.not_matchesAt (k := k - i) (by omega)
                  (by rw [length_positions]; omega)
                rw [Nat.add_sub_cancel' hik] at hnot
                exact hnot hmatch
            · rcases List.mem_append.mp hx with hnow | hlater
              · exact hreads x hnow
              · rcases List.mem_cons.mp hlater with rfl | hmem
                · omega
                · exact hmore x hmem
      · rw [search_end hfits]
        exact ⟨.none (by rw [length_positions]; omega), fun x hx => by cases hx⟩

end Search

section Scan

variable {memory : ℕ → Byte} {haystack haystackLen : ℕ} {pat : ParsedPattern}

/-- The pattern occurs at an address. -/
def OccursAt (memory : ℕ → Byte) (pat : ParsedPattern) (a : ℕ) : Prop :=
  ∀ j < pat.size, pat.fixed j = true → memory (a + j) = pat.byte j

/-- **A scan finds every occurrence.** The addresses reported are those in the range at which
the pattern occurs, in ascending order, and only bytes of the range are read. -/
theorem bmhScan_correct (hsize : 0 < pat.size) :
    (∀ a, a ∈ (bmhScan memory haystack haystackLen pat).1.map (·.address) ↔
      haystack ≤ a ∧ a + pat.size ≤ haystack + haystackLen ∧ OccursAt memory pat a) ∧
    ((bmhScan memory haystack haystackLen pat).1.map (·.address)).Pairwise (· < ·) ∧
    ∀ x ∈ (bmhScan memory haystack haystackLen pat).2,
      haystack ≤ x ∧ x < haystack + haystackLen := by
  unfold bmhScan
  split
  · rename_i hshort
    refine ⟨fun a => ?_, List.Pairwise.nil, fun x hx => by cases hx⟩
    constructor
    · intro ha
      cases ha
    · rintro ⟨hle, hend, -⟩
      omega
  · obtain ⟨⟨hmem, hascending⟩, hreads⟩ := search_correct (fun i => memory (haystack + i))
      haystackLen (shiftTable_pos hsize) hsize (shiftTable_safe pat) 0
    refine ⟨fun a => ?_, ?_, fun x hx => ?_⟩
    · simp only [List.map_map, List.mem_map, Function.comp_apply, hmem, length_positions,
        matchesAt_iff]
      constructor
      · rintro ⟨i, ⟨-, hend, hmatch⟩, rfl⟩
        refine ⟨Nat.le_add_right _ _, by omega, fun j hj hfixed => ?_⟩
        rw [Nat.add_assoc]
        exact hmatch j hj hfixed
      · rintro ⟨hle, hend, hoccurs⟩
        refine ⟨a - haystack, ⟨Nat.zero_le _, by omega, fun j hj hfixed => ?_⟩, by omega⟩
        rw [← Nat.add_assoc, Nat.add_sub_cancel' hle]
        exact hoccurs j hj hfixed
    · rw [List.map_map, List.pairwise_map]
      exact hascending.imp fun hlt => Nat.add_lt_add_left hlt haystack
    · obtain ⟨i, hi, rfl⟩ := List.mem_map.mp hx
      have := hreads i hi
      omega

theorem bmhScan_short (h : haystackLen < pat.size) :
    bmhScan memory haystack haystackLen pat = ([], []) := by
  rw [bmhScan, dif_pos (.inr h)]

/-- A scan of a range that is long enough reads a byte of it or reports its start. -/
theorem bmhScan_touches (hsize : 0 < pat.size) (hlen : pat.size ≤ haystackLen) :
    (bmhScan memory haystack haystackLen pat).2 ≠ [] ∨
      haystack ∈ (bmhScan memory haystack haystackLen pat).1.map (·.address) := by
  by_cases hfixed : ∃ j < pat.size, pat.fixed j = true
  · obtain ⟨j, hj, hfixed⟩ := hfixed
    left
    have hreads : (compare (fun i => memory (haystack + i)) pat 0 pat.size).2 ≠ [] :=
      compare_reads_ne_nil hj hfixed
    unfold bmhScan
    rw [dif_neg (by omega)]
    dsimp only
    rw [ne_eq, List.map_eq_nil_iff]
    cases hsame : (compare (fun i => memory (haystack + i)) pat 0 pat.size).1 with
    | true =>
        rw [search_match (by omega) hsame]
        exact List.append_ne_nil_of_left_ne_nil hreads _
    | false =>
        rw [search_mismatch (by omega) hsame]
        exact List.append_ne_nil_of_left_ne_nil hreads _
  · right
    rw [(bmhScan_correct hsize).1]
    refine ⟨Nat.le_refl _, by omega, fun j hj h => ?_⟩
    exact absurd ⟨j, hj, h⟩ hfixed

end Scan

/-! ## §6  The naive scan -/

instance (memory : ℕ → Byte) (pat : ParsedPattern) (a : ℕ) : Decidable (OccursAt memory pat a) :=
  inferInstanceAs (Decidable (∀ j < pat.size, _))

/-- Every offset is tried. -/
def naiveScan (memory : ℕ → Byte) (haystack haystackLen : ℕ) (pat : ParsedPattern) :
    List ScanMatch :=
  if pat.size = 0 then []
  else
    ((List.range (haystackLen + 1 - pat.size)).filter fun i =>
      OccursAt memory pat (haystack + i)).map fun i => ⟨haystack + i, pat.size⟩

section Naive

variable {memory : ℕ → Byte} {haystack haystackLen : ℕ} {pat : ParsedPattern}

theorem occursAt_iff {i : ℕ} : OccursAt memory pat (haystack + i) ↔
    MatchesAt (fun i => memory (haystack + i)) pat.positions i := by
  rw [matchesAt_iff]
  simp only [OccursAt, Nat.add_assoc]

/-- The table changes nothing but the work; the size is cut to an `int`. -/
theorem bmhScan_eq (memory : ℕ → Byte) (haystack haystackLen : ℕ) (pat : ParsedPattern) :
    (bmhScan memory haystack haystackLen pat).1 =
      (naiveScan memory haystack haystackLen pat).map fun found =>
        ⟨found.address, (BitVec.ofNat 32 pat.size).toInt⟩ := by
  unfold bmhScan naiveScan
  by_cases hsize : pat.size = 0
  · rw [dif_pos (.inl hsize), if_pos hsize]
    rfl
  · rw [if_neg hsize]
    by_cases hshort : haystackLen < pat.size
    · rw [dif_pos (.inr hshort), show haystackLen + 1 - pat.size = 0 by omega]
      rfl
    · rw [dif_neg (not_or.mpr ⟨hsize, hshort⟩), List.map_map]
      have hpos := Nat.pos_of_ne_zero hsize
      have : DecidablePred (MatchesAt (fun i => memory (haystack + i)) pat.positions) :=
        fun i => decidable_of_iff _ occursAt_iff
      have hfound := (search_correct (fun i => memory (haystack + i)) haystackLen
        (shiftTable_pos hpos) hpos (shiftTable_safe pat) 0).1.eq_filter
      dsimp only
      rw [hfound, length_positions]
      congr 1
      exact List.filter_congr fun i _ => decide_eq_decide.mpr occursAt_iff.symm

theorem mem_naiveScan {found : ScanMatch} :
    found ∈ naiveScan memory haystack haystackLen pat ↔ 0 < pat.size ∧
      ∃ i, i + pat.size ≤ haystackLen ∧ OccursAt memory pat (haystack + i) ∧
        found = ⟨haystack + i, pat.size⟩ := by
  unfold naiveScan
  split_ifs with hsize
  · simp [hsize]
  · simp only [List.mem_map, List.mem_filter, List.mem_range, decide_eq_true_eq]
    constructor
    · rintro ⟨i, ⟨hlt, hoccurs⟩, rfl⟩
      exact ⟨Nat.pos_of_ne_zero hsize, i, by omega, hoccurs, rfl⟩
    · rintro ⟨-, i, hfits, hoccurs, rfl⟩
      exact ⟨i, ⟨by omega, hoccurs⟩, rfl⟩

/-- **The fast scanner equals the naive one.** It does exactly when the length of the pattern
is an `int` or there is nothing to find. -/
theorem bmhScan_eq_naiveScan_iff (memory : ℕ → Byte) (haystack haystackLen : ℕ)
    (pat : ParsedPattern) :
    (bmhScan memory haystack haystackLen pat).1 = naiveScan memory haystack haystackLen pat ↔
      pat.size < 2 ^ 31 ∨ ∀ i, i + pat.size ≤ haystackLen →
        ¬ OccursAt memory pat (haystack + i) := by
  have hmap : (bmhScan memory haystack haystackLen pat).1 =
        naiveScan memory haystack haystackLen pat ↔
      ∀ found ∈ naiveScan memory haystack haystackLen pat,
        (⟨found.address, (BitVec.ofNat 32 pat.size).toInt⟩ : ScanMatch) = found := by
    rw [bmhScan_eq]
    nth_rewrite 2 [← List.map_id (naiveScan memory haystack haystackLen pat)]
    exact List.map_inj_left
  rw [hmap]
  constructor
  · intro h
    by_cases hsize : pat.size < 2 ^ 31
    · exact .inl hsize
    · refine .inr fun i hfits hoccurs => hsize ?_
      have hfound := h _ (mem_naiveScan.mpr ⟨by omega, i, hfits, hoccurs, rfl⟩)
      exact toInt_ofNat_eq_iff.mp (ScanMatch.mk.inj hfound).2
  · intro h found hfound
    obtain ⟨-, i, hfits, hoccurs, rfl⟩ := mem_naiveScan.mp hfound
    rcases h with hsize | hnone
    · rw [toInt_ofNat_eq_iff.mpr hsize]
    · exact absurd hoccurs (hnone i hfits)

/-- `n` times `?`. -/
def wildcards (n : ℕ) : ParsedPattern :=
  ⟨List.replicate n 0, List.replicate n false, by simp⟩

theorem size_wildcards (n : ℕ) : (wildcards n).size = n := List.length_replicate

theorem fixed_wildcards (n j : ℕ) : (wildcards n).fixed j = false := by
  have hmask : (wildcards n).mask = List.replicate n false := rfl
  rw [ParsedPattern.fixed, hmask, List.getD_eq_getElem?_getD, List.getElem?_replicate]
  split_ifs <;> rfl

/-- In a range of their length there is one match. -/
theorem naiveScan_wildcards {n : ℕ} (h : 0 < n) :
    naiveScan memory haystack n (wildcards n) = [⟨haystack, n⟩] := by
  have hoccurs : ∀ a, OccursAt memory (wildcards n) a := by
    intro a j _ hfixed
    rw [fixed_wildcards] at hfixed
    cases hfixed
  unfold naiveScan
  rw [size_wildcards, if_neg (by omega), show n + 1 - n = 1 by omega]
  simp [hoccurs]

/-- The size of a match of 2^31 bytes comes out negative. -/
theorem longPattern_cut :
    (bmhScan (fun _ => 0) 0x1000 (2 ^ 31) (wildcards (2 ^ 31))).1 = [⟨0x1000, -2 ^ 31⟩] ∧
      naiveScan (fun _ => 0) 0x1000 (2 ^ 31) (wildcards (2 ^ 31)) = [⟨0x1000, 2 ^ 31⟩] ∧
      (bmhScan (fun _ => 0) 0x1000 (2 ^ 31) (wildcards (2 ^ 31))).1 ≠
        naiveScan (fun _ => 0) 0x1000 (2 ^ 31) (wildcards (2 ^ 31)) := by
  have hnaive : naiveScan (fun _ => 0) 0x1000 (2 ^ 31) (wildcards (2 ^ 31)) =
      [⟨0x1000, 2 ^ 31⟩] := naiveScan_wildcards (by decide)
  have hfast : (bmhScan (fun _ => 0) 0x1000 (2 ^ 31) (wildcards (2 ^ 31))).1 =
      [⟨0x1000, -2 ^ 31⟩] := by
    rw [bmhScan_eq, hnaive, size_wildcards]
    rfl
  refine ⟨hfast, hnaive, ?_⟩
  rw [hfast, hnaive]
  decide

end Naive

end MemoryScan

end Chromatic
