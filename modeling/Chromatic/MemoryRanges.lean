import Chromatic.ProcessMaps
import Chromatic.Foundation.TwosComplement

/-!
# Memory ranges

`enumerateRanges` on Linux: the lines of /proc/self/maps that pass a protection filter.

§1 reading a line · §2 enumerateRanges · §3 what is printed is read · §4 the ranges of an
address space.
-/

namespace Chromatic

open Foundation NativeFunction ProcessMaps

namespace MemoryRanges

/-! ## §1  Reading a line -/

/-- `%*x %*x:%*x %*lu %511s`: nothing is stored of a text that stops short. -/
def scanPathname (cs : List Char) : Option (List Char) := do
  let (_, cs) ← scanHex cs
  let (_, cs) ← scanHex cs
  let cs ← scanChar ':' cs
  let (_, cs) ← scanHex cs
  let cs ← scanDec cs
  (scanWord 511 cs).map (·.1)

/-- `sscanf(line, "%lx-%lx %4s %*x %*x:%*x %*lu %511s", …) >= 3`. -/
def parseRange (line : List Char) : Option MapsLine := do
  let (start, cs) ← scanHex line
  let cs ← scanChar '-' cs
  let (stop, cs) ← scanHex cs
  let (perms, cs) ← scanWord 4 cs
  return ⟨start, stop, perms, (scanPathname cs).getD []⟩

/-! ## §2  enumerateRanges -/

structure RangeInfo where
  base : ℕ
  size : ℤ
  protection : String
  filePath : String
deriving DecidableEq, Repr

/-- The three letters kept of the four. -/
def protText (perms : List Char) : List Char :=
  [if perms[0]? = some 'r' then 'r' else '-', if perms[1]? = some 'w' then 'w' else '-',
    if perms[2]? = some 'x' then 'x' else '-']

def matchesProt (protection : String) (rangeProt : List Char) : Bool :=
  protection.isEmpty || protection.toList.all fun c => c == '-' || rangeProt.contains c

/-- The extent is cut to an `int`. -/
def rangeInfo (l : MapsLine) : RangeInfo where
  base := l.start
  size := (BitVec.ofNat 32 (l.stop + 2 ^ 64 - l.start)).toInt
  protection := String.ofList (protText l.perms)
  filePath := if l.pathname.head? = some '/' then String.ofList l.pathname else ""

def enumerateRanges (maps : List Char) (protection : String) : List RangeInfo :=
  (((getlines maps).filterMap parseRange).filter fun l =>
    matchesProt protection (protText l.perms)).map rangeInfo

/-! ## §3  What is printed is read -/

/-- `r`, `w` and `x` or their dashes. -/
def letters (m : Mapping) : List Char := m.perms.take 3

/-- The mapping has every permission that the filter names. -/
def Permits (protection : String) (m : Mapping) : Prop :=
  ∀ c ∈ protection.toList, c ≠ '-' → c ∈ letters m

instance (protection : String) (m : Mapping) : Decidable (Permits protection m) :=
  List.decidableBAll (fun c => c ≠ '-' → c ∈ letters m) protection.toList

section Printed

variable {protection : String} {m : Mapping} {tail : List Char}

theorem scanPathname_fields (m : Mapping) (pad : ℕ) :
    (scanPathname (hexText 8 m.offset ++ ' ' :: (hexText 2 m.devMaj ++ ':' ::
      (hexText 2 m.devMin ++ ' ' :: (Nat.toDigits 10 m.inode ++ ' ' ::
        if m.path = [] then [] else List.replicate pad ' ' ++ m.path))))).getD [] =
    m.pathname := by
  have hblank : Ends ' ' := ⟨rfl, by decide, by decide⟩
  have hcolon : Ends ':' := ⟨rfl, by decide, by decide⟩
  unfold scanPathname
  simp only [scanHex_hexText _ hblank, scanHex_hexText _ hcolon, Option.bind_eq_bind,
    Option.bind_some, scanChar, if_pos, scanHex_blank, scanDec_blank, scanDec_toDigits,
    scanWord_blank]
  exact scanWord_path m.path pad

theorem scanPathname_blank {cs : List Char} : scanPathname (' ' :: cs) = scanPathname cs := rfl

theorem parseRange_line (m : Mapping) : parseRange m.line = some m.parsed := by
  have hdash : Ends '-' := ⟨rfl, by decide, by decide⟩
  have hblank : Ends ' ' := ⟨rfl, by decide, by decide⟩
  unfold parseRange Mapping.line
  generalize 73 - m.fields.length = pad
  unfold Mapping.fields
  simp only [List.append_assoc, List.cons_append, List.nil_append]
  simp only [scanHex_hexText _ hdash, Option.bind_eq_bind, Option.bind_some, scanChar, if_pos,
    scanHex_hexText _ hblank, scanWord_blank, scanWord_perms, min_start, min_stop]
  rw [scanPathname_blank, scanPathname_fields]
  rfl

/-- The three letters of a mapping come back. -/
theorem protText_perms (m : Mapping) : protText m.perms = letters m := by
  unfold protText letters Mapping.perms
  cases m.readable <;> cases m.writable <;> cases m.executable <;> rfl

theorem matchesProt_iff {rangeProt : List Char} : matchesProt protection rangeProt = true ↔
    ∀ c ∈ protection.toList, c ≠ '-' → c ∈ rangeProt := by
  rw [matchesProt, Bool.or_eq_true, List.all_eq_true]
  constructor
  · rintro (hempty | hall) c hc hne
    · rw [String.isEmpty_iff.mp hempty] at hc
      cases hc
    · simpa [hne] using hall c hc
  · intro h
    refine .inr fun c hc => ?_
    by_cases hne : c = '-'
    · simp [hne]
    · simpa [hne] using h c hc hne

theorem enumerateRanges_maps (space : AddressSpace) (protection : String) :
    enumerateRanges space.maps protection =
      (space.mappings.filter (Permits protection)).map fun m => rangeInfo m.parsed := by
  unfold enumerateRanges
  rw [getlines_maps, List.filterMap_map]
  simp only [Function.comp_def, parseRange_line, List.filterMap_eq_map', List.filter_map,
    List.map_map]
  congr 1
  apply List.filter_congr
  intro m _
  rw [Bool.eq_iff_iff, decide_eq_true_eq, Mapping.parsed, protText_perms, matchesProt_iff]
  rfl

end Printed

/-! ## §4  The ranges of an address space -/

/-- What there is to say of a mapping. -/
def rangeOf (m : Mapping) : RangeInfo where
  base := m.start
  size := m.stop - m.start
  protection := String.ofList (letters m)
  filePath := if m.path.head? = some '/' then String.ofList m.path else ""

/-- The ranges that a filter asks for, in the order of the file. -/
def permittedRanges (space : AddressSpace) (protection : String) : List RangeInfo :=
  (space.mappings.filter (Permits protection)).map rangeOf

/-- A path with a slash in front is kept if it is short and has no blanks in it, and no other
text has its first slash behind blanks only. -/
def PathKept (path : List Char) : Prop :=
  if path.head? = some '/' then path.length ≤ 511 ∧ ∀ c ∈ path, isSpace c = false
  else (path.dropWhile isSpace).head? ≠ some '/'

instance (path : List Char) : Decidable (PathKept path) := by
  have : Decidable (∀ c ∈ path, isSpace c = false) := List.decidableBAll _ _
  unfold PathKept
  infer_instance

/-- The extent fits an `int`, and the path is read as it is. -/
def Fits (m : Mapping) : Prop := m.stop - m.start < 2 ^ 31 ∧ PathKept m.path

section Ranges

variable {m : Mapping}

theorem take_takeWhile_eq_iff {path : List Char} {n : ℕ} {p : Char → Bool} :
    (path.takeWhile p).take n = path ↔ path.length ≤ n ∧ ∀ c ∈ path, p c = true := by
  constructor
  · intro h
    have hlen := congrArg List.length h
    have hword : (path.takeWhile p).length ≤ path.length := (List.takeWhile_prefix p).length_le
    rw [List.length_take] at hlen
    have hall : path.takeWhile p = path :=
      (List.takeWhile_prefix p).eq_of_length (by omega)
    exact ⟨by omega, List.takeWhile_eq_self_iff.mp hall⟩
  · rintro ⟨hlen, hall⟩
    rw [List.takeWhile_eq_self_iff.mpr hall, List.take_of_length_le hlen]

/-- The first letter of a path that is read is its first that is no blank. -/
theorem head_pathname (m : Mapping) : m.pathname.head? = (m.path.dropWhile isSpace).head? := by
  unfold Mapping.pathname
  cases hdrop : m.path.dropWhile isSpace with
  | nil => rfl
  | cons c cs =>
      have hc : isSpace c = false := by
        have := List.head?_dropWhile_not isSpace m.path
        rw [hdrop] at this
        simpa using this
      rw [List.takeWhile_cons_of_pos (by simp [hc])]
      rfl

theorem filePath_eq_iff :
    (rangeInfo m.parsed).filePath = (rangeOf m).filePath ↔ PathKept m.path := by
  unfold rangeInfo rangeOf PathKept Mapping.parsed
  dsimp only
  rw [head_pathname]
  by_cases hslash : m.path.head? = some '/'
  · rw [if_pos hslash, if_pos hslash]
    obtain ⟨cs, hpath⟩ : ∃ cs, m.path = '/' :: cs := by
      cases hp : m.path with
      | nil => simp [hp] at hslash
      | cons c cs =>
          rw [hp] at hslash
          obtain rfl := Option.some.inj hslash
          exact ⟨cs, rfl⟩
    have hdrop : m.path.dropWhile isSpace = m.path := by
      rw [hpath]
      rfl
    rw [hdrop, if_pos hslash, String.ofList_inj, Mapping.pathname, hdrop, take_takeWhile_eq_iff]
    simp only [Bool.not_eq_true']
  · rw [if_neg hslash, if_neg hslash]
    by_cases hlater : (m.path.dropWhile isSpace).head? = some '/'
    · rw [if_pos hlater]
      have hne : m.pathname ≠ [] := by
        intro hnil
        rw [← head_pathname, hnil] at hlater
        cases hlater
      simp [hlater, hne]
    · rw [if_neg hlater]
      simp [hlater]

theorem size_eq_iff :
    (rangeInfo m.parsed).size = (rangeOf m).size ↔ m.stop - m.start < 2 ^ 31 := by
  have hnonempty := m.nonempty
  have hextent : BitVec.ofNat 32 (m.stop + 2 ^ 64 - m.start) =
      BitVec.ofNat 32 (m.stop - m.start) := by
    apply BitVec.eq_of_toNat_eq
    rw [BitVec.toNat_ofNat, BitVec.toNat_ofNat]
    omega
  have hsize : (rangeOf m).size = (m.stop - m.start : ℕ) := by
    rw [rangeOf, Nat.cast_sub hnonempty.le]
  rw [hsize, ← toInt_ofNat_eq_iff, ← hextent]
  rfl

/-- The range of a mapping is right exactly when the mapping fits. -/
theorem rangeInfo_eq_iff : rangeInfo m.parsed = rangeOf m ↔ Fits m := by
  rw [Fits, ← size_eq_iff, ← filePath_eq_iff, RangeInfo.mk.injEq]
  constructor
  · rintro ⟨-, hsize, -, hpath⟩
    exact ⟨hsize, hpath⟩
  · rintro ⟨hsize, hpath⟩
    refine ⟨rfl, hsize, ?_, hpath⟩
    exact congrArg String.ofList (protText_perms m)

/-- **Ranges are enumerated exactly.** For every filter the result is the list of the mappings
that it permits, each with its extent, letters and path, exactly when each of them fits. -/
theorem enumerateRanges_exact_iff (space : AddressSpace) (protection : String) :
    enumerateRanges space.maps protection = permittedRanges space protection ↔
      ∀ m ∈ space.mappings, Permits protection m → Fits m := by
  rw [enumerateRanges_maps, permittedRanges, List.map_inj_left]
  simp only [rangeInfo_eq_iff, List.mem_filter, decide_eq_true_eq, and_imp]

end Ranges

section Concrete

/-- Four gigabytes reserved at the fourth. -/
def reserved : Mapping where
  start := 2 ^ 32
  stop := 2 ^ 33
  readable := false
  writable := false
  executable := false
  shared := false
  offset := 0
  devMaj := 0
  devMin := 0
  inode := 0
  path := []
  nonempty := by decide
  bounded := by decide
  oneLine := by decide

/-- Its size comes out as 0. -/
theorem reserved_lost :
    enumerateRanges (AddressSpace.maps ⟨[reserved], List.pairwise_singleton _ _⟩) "---" =
        [⟨2 ^ 32, 0, "---", ""⟩] ∧
      enumerateRanges (AddressSpace.maps ⟨[reserved], List.pairwise_singleton _ _⟩) "---" ≠
        permittedRanges ⟨[reserved], List.pairwise_singleton _ _⟩ "---" := by
  have hranges : enumerateRanges
      (AddressSpace.maps ⟨[reserved], List.pairwise_singleton _ _⟩) "---" =
        [⟨2 ^ 32, 0, "---", ""⟩] := by
    rw [enumerateRanges_maps]
    rfl
  refine ⟨hranges, ?_⟩
  rw [hranges]
  decide

end Concrete

end MemoryRanges

end Chromatic
