import Chromatic.NativeFunction
import Mathlib.Data.List.DropRight
import Mathlib.Data.List.Nodup

/-!
# /proc/self/maps

The table of mappings as the kernel prints it, and the modules that `enumerateModules` makes
of it.

§1 the table · §2 reading a line · §3 what is printed is read · §4 modules · §5 what the list
of modules holds.
-/

namespace Chromatic

open Foundation NativeFunction

namespace ProcessMaps

/-! ## §1  The table -/

structure Mapping where
  start : ℕ
  stop : ℕ
  readable : Bool
  writable : Bool
  executable : Bool
  shared : Bool
  offset : ℕ
  devMaj : ℕ
  devMin : ℕ
  inode : ℕ
  path : List Char
  nonempty : start < stop
  bounded : stop < 2 ^ 64
  oneLine : '\n' ∉ path

def Mapping.Holds (m : Mapping) (a : ℕ) : Prop := m.start ≤ a ∧ a < m.stop

def Mapping.perms (m : Mapping) : List Char :=
  [if m.readable then 'r' else '-', if m.writable then 'w' else '-',
    if m.executable then 'x' else '-', if m.shared then 's' else 'p']

/-- `%08lx` and `%02x`. -/
def hexText (width n : ℕ) : List Char := (Nat.toDigits 16 n).leftpad width '0'

def Mapping.fields (m : Mapping) : List Char :=
  hexText 8 m.start ++ '-' :: (hexText 8 m.stop ++ ' ' :: (m.perms ++ ' ' ::
    (hexText 8 m.offset ++ ' ' :: (hexText 2 m.devMaj ++ ':' :: (hexText 2 m.devMin ++ ' ' ::
      (Nat.toDigits 10 m.inode ++ [' ']))))))

/-- The line of a mapping: paths are aligned. -/
def Mapping.line (m : Mapping) : List Char :=
  m.fields ++ if m.path = [] then []
    else List.replicate (73 - m.fields.length) ' ' ++ m.path

structure AddressSpace where
  mappings : List Mapping
  sorted : mappings.Pairwise fun a b => a.stop ≤ b.start

/-- The content of the file. -/
def AddressSpace.maps (space : AddressSpace) : List Char :=
  space.mappings.flatMap fun m => m.line ++ ['\n']

/-! ## §2  Reading a line -/

/-- `std::getline` until the end. -/
def getlines : List Char → List (List Char)
  | [] => []
  | c :: cs =>
    if c = '\n' then [] :: getlines cs
    else
      match getlines cs with
      | [] => [[c]]
      | l :: ls => (c :: l) :: ls

/-- The sign of a number. -/
def scanSign : List Char → Bool × List Char
  | '-' :: cs => (true, cs)
  | '+' :: cs => (false, cs)
  | cs => (false, cs)

/-- `0x` in front of a number is its `0`. -/
def scanRadix : List Char → List Char
  | '0' :: x :: cs => if x = 'x' ∨ x = 'X' then '0' :: cs else '0' :: x :: cs
  | cs => cs

/-- `%lx`: numbers that are too large are cut off, and the rest of the text. -/
def scanHex (text : List Char) : Option (ℕ × List Char) :=
  let (negative, cs) := scanSign (text.dropWhile isSpace)
  let digits := (scanRadix cs).takeWhile fun c => (hexDigit c).isSome
  let n := readHex 0 digits
  if digits = [] then none
  else
    some (if 2 ^ 64 ≤ n then 2 ^ 64 - 1 else if negative then (2 ^ 64 - n) % 2 ^ 64 else n,
      (scanRadix cs).dropWhile fun c => (hexDigit c).isSome)

/-- `%lu`, of which only the rest of the text is used. -/
def scanDec (text : List Char) : Option (List Char) :=
  (readSigned (text.dropWhile isSpace)).map (·.2)

/-- `%4s` and `%511s`. -/
def scanWord (width : ℕ) (text : List Char) : Option (List Char × List Char) :=
  let cs := text.dropWhile isSpace
  let word := (cs.takeWhile fun c => !isSpace c).take width
  if word = [] then none else some (word, cs.drop word.length)

def scanChar (c : Char) : List Char → Option (List Char)
  | [] => none
  | d :: cs => if d = c then some cs else none

structure MapsLine where
  start : ℕ
  stop : ℕ
  perms : List Char
  pathname : List Char
deriving DecidableEq, Repr

/-- `sscanf(line, "%lx-%lx %4s %lx %x:%x %lu %511s", …) >= 7`. -/
def parseLine (line : List Char) : Option MapsLine := do
  let (start, cs) ← scanHex line
  let cs ← scanChar '-' cs
  let (stop, cs) ← scanHex cs
  let (perms, cs) ← scanWord 4 cs
  let (_, cs) ← scanHex cs
  let (_, cs) ← scanHex cs
  let cs ← scanChar ':' cs
  let (_, cs) ← scanHex cs
  let cs ← scanDec cs
  return ⟨start, stop, perms, ((scanWord 511 cs).map (·.1)).getD []⟩

def parseLines (maps : List Char) : List MapsLine := (getlines maps).filterMap parseLine

/-! ## §3  What is printed is read -/

/-- The path as far as `%511s` reads it. -/
def Mapping.pathname (m : Mapping) : List Char :=
  ((m.path.dropWhile isSpace).takeWhile fun c => !isSpace c).take 511

def Mapping.parsed (m : Mapping) : MapsLine := ⟨m.start, m.stop, m.perms, m.pathname⟩

section Printed

variable {l cs ds tail : List Char} {n : ℕ}

theorem getlines_cons (h : '\n' ∉ l) : getlines (l ++ '\n' :: cs) = l :: getlines cs := by
  induction l with
  | nil => rfl
  | cons c l ih =>
      rw [List.mem_cons, not_or] at h
      rw [List.cons_append, getlines, if_neg (Ne.symm h.1), ih h.2]

theorem isSpace_hexDigit {c : Char} (h : (hexDigit c).isSome) : isSpace c = false := by
  apply isSpace_eq_false
  unfold hexDigit at h
  split_ifs at h with hdec hlow hup
  · exact hdec.1
  · exact Nat.le_trans (show '0' ≤ 'a' by decide) hlow.1
  · exact Nat.le_trans (show '0' ≤ 'A' by decide) hup.1
  · cases h

theorem scanSign_digits {c : Char} (h : (hexDigit c).isSome) :
    scanSign (c :: cs) = (false, c :: cs) := by
  unfold scanSign
  split
  · rename_i heq
    obtain ⟨rfl, -⟩ := List.cons.inj heq
    exact absurd h (by decide)
  · rename_i heq
    obtain ⟨rfl, -⟩ := List.cons.inj heq
    exact absurd h (by decide)
  · rfl

/-- `t` ends a number. -/
def Ends (t : Char) : Prop := hexDigit t = none ∧ t ≠ 'x' ∧ t ≠ 'X'

theorem scanRadix_digits {t : Char} (hne : ds ≠ []) (hds : ∀ c ∈ ds, (hexDigit c).isSome)
    (ht : Ends t) : scanRadix (ds ++ t :: tail) = ds ++ t :: tail := by
  unfold scanRadix
  split
  · rename_i x rest heq
    -- the second character is a digit or ends the number
    have hx : ¬ (x = 'x' ∨ x = 'X') := by
      cases ds with
      | nil => exact absurd rfl hne
      | cons d ds =>
          obtain ⟨-, hrest⟩ := List.cons.inj heq
          cases ds with
          | nil =>
              obtain ⟨rfl, -⟩ := List.cons.inj hrest
              exact not_or.mpr ht.2
          | cons e ds =>
              obtain ⟨rfl, -⟩ := List.cons.inj hrest
              have he := hds e (by simp)
              rintro (rfl | rfl) <;> exact absurd he (by decide)
    rw [if_neg hx, heq]
  · rfl

theorem scanHex_digits {t : Char} (hne : ds ≠ []) (hds : ∀ c ∈ ds, (hexDigit c).isSome)
    (ht : Ends t) :
    scanHex (ds ++ t :: tail) = some (min (readHex 0 ds) (2 ^ 64 - 1), t :: tail) := by
  have hsign : scanSign ((ds ++ t :: tail).dropWhile isSpace) = (false, ds ++ t :: tail) := by
    cases ds with
    | nil => exact absurd rfl hne
    | cons d ds =>
        have hd := hds d List.mem_cons_self
        rw [List.cons_append, List.dropWhile_cons_of_neg (by simp [isSpace_hexDigit hd]),
          scanSign_digits hd]
  have hnot : ¬ (hexDigit t).isSome := by simp [ht.1]
  have hdigits : (ds ++ t :: tail).takeWhile (fun c => (hexDigit c).isSome) = ds := by
    rw [List.takeWhile_append_of_pos hds,
      List.takeWhile_cons_of_neg (p := fun c => (hexDigit c).isSome) hnot, List.append_nil]
  have hrest : (ds ++ t :: tail).dropWhile (fun c => (hexDigit c).isSome) = t :: tail := by
    rw [List.dropWhile_append_of_pos hds,
      List.dropWhile_cons_of_neg (p := fun c => (hexDigit c).isSome) hnot]
  rw [scanHex, hsign]
  simp only [scanRadix_digits hne hds ht, hdigits, hrest, if_neg hne, Bool.false_eq_true,
    if_false, Option.some.injEq, Prod.mk.injEq, and_true]
  split_ifs <;> omega

theorem readHex_zeros (k : ℕ) : readHex 0 (List.replicate k '0' ++ ds) = readHex 0 ds := by
  induction k with
  | zero => rfl
  | succ k ih =>
      rw [List.replicate_succ, List.cons_append]
      exact ih

/-- A number that is printed in base 16 is read. -/
theorem scanHex_hexText {t : Char} (width : ℕ) (ht : Ends t) :
    scanHex (hexText width n ++ t :: tail) = some (min n (2 ^ 64 - 1), t :: tail) := by
  obtain ⟨hread, hdigits⟩ := readHex_toDigits n
  have hvalue : readHex 0 (hexText width n) = n := by
    rw [hexText, List.leftpad, readHex_zeros, hread]
  rw [scanHex_digits _ _ ht, hvalue]
  · exact List.append_ne_nil_of_right_ne_nil _ Nat.toDigits_ne_nil
  · intro c hc
    rcases List.mem_append.mp hc with hzero | hdigit
    · rw [(List.mem_replicate.mp hzero).2]
      rfl
    · exact hdigits c hdigit

theorem readDec_append (hds : ∀ c ∈ ds, (decDigit c).isSome) (acc : ℕ) :
    readDec acc (ds ++ ' ' :: tail) = ((readDec acc ds).1, ' ' :: tail) := by
  induction ds generalizing acc with
  | nil => rfl
  | cons d ds ih =>
      obtain ⟨e, he⟩ := Option.isSome_iff_exists.mp (hds d List.mem_cons_self)
      simp only [List.cons_append, readDec, he]
      exact ih (fun c hc => hds c (List.mem_cons_of_mem _ hc)) _

theorem scanDec_toDigits : scanDec (Nat.toDigits 10 n ++ ' ' :: tail) = some (' ' :: tail) := by
  have hdigits := (readDec_toDigits n).2
  cases hcs : Nat.toDigits 10 n with
  | nil => exact absurd hcs Nat.toDigits_ne_nil
  | cons c cs =>
      rw [hcs] at hdigits
      have hc := hdigits c List.mem_cons_self
      have hlow : '0' ≤ c := by
        unfold decDigit at hc
        split_ifs at hc with hrange
        · exact hrange.1
        · cases hc
      have hread : readSigned (c :: (cs ++ ' ' :: tail)) =
          some (((readDec 0 (c :: cs)).1 : ℤ), ' ' :: tail) := by
        unfold readSigned
        split
        · rename_i heq
          obtain ⟨rfl, -⟩ := List.cons.inj heq
          exact absurd hc (by decide)
        · rename_i heq
          obtain ⟨rfl, -⟩ := List.cons.inj heq
          exact absurd hc (by decide)
        · rw [readUnsigned, if_pos hc, ← List.cons_append, readDec_append hdigits]
          rfl
      rw [scanDec, List.cons_append,
        List.dropWhile_cons_of_neg (by simp [isSpace_eq_false hlow]), hread]
      rfl

theorem scanWord_perms (m : Mapping) :
    scanWord 4 (m.perms ++ ' ' :: tail) = some (m.perms, ' ' :: tail) := by
  unfold Mapping.perms
  cases m.readable <;> cases m.writable <;> cases m.executable <;> cases m.shared <;> rfl

theorem scanHex_blank : scanHex (' ' :: cs) = scanHex cs := rfl

theorem scanDec_blank : scanDec (' ' :: cs) = scanDec cs := rfl

theorem scanWord_blank {width : ℕ} : scanWord width (' ' :: cs) = scanWord width cs := rfl

/-- Blanks in front do not count, and of an empty text nothing is read. -/
theorem scanWord_path (path : List Char) (pad : ℕ) :
    ((scanWord 511 (if path = [] then [] else List.replicate pad ' ' ++ path)).map
      (·.1)).getD [] = ((path.dropWhile isSpace).takeWhile fun c => !isSpace c).take 511 := by
  have hblanks : ∀ k, scanWord 511 (List.replicate k ' ' ++ path) = scanWord 511 path := by
    intro k
    induction k with
    | zero => rfl
    | succ k ih => exact ih
  split_ifs with hnil
  · rw [hnil]
    rfl
  · rw [hblanks, scanWord]
    split_ifs with hword
    · rw [hword]
      rfl
    · rfl

/-- No address of a mapping is cut off. -/
theorem min_start (m : Mapping) : min m.start (2 ^ 64 - 1) = m.start := by
  have := m.nonempty
  have := m.bounded
  omega

theorem min_stop (m : Mapping) : min m.stop (2 ^ 64 - 1) = m.stop := by
  have := m.bounded
  omega

/-- **What is printed is read.** -/
theorem parseLine_line (m : Mapping) : parseLine m.line = some m.parsed := by
  have hdash : Ends '-' := ⟨rfl, by decide, by decide⟩
  have hblank : Ends ' ' := ⟨rfl, by decide, by decide⟩
  have hcolon : Ends ':' := ⟨rfl, by decide, by decide⟩
  unfold parseLine Mapping.line Mapping.fields
  simp only [List.append_assoc, List.cons_append, List.nil_append]
  simp only [scanHex_hexText _ hdash, Option.bind_eq_bind, Option.bind_some, scanChar,
    if_pos, scanHex_hexText _ hblank, scanHex_hexText _ hcolon, scanHex_blank, scanWord_blank,
    scanWord_perms, scanDec_blank, scanDec_toDigits, min_start, min_stop]
  rw [scanWord_path]
  rfl

theorem newline_notMem_hexText (width n : ℕ) : '\n' ∉ hexText width n := by
  intro h
  rcases List.mem_append.mp h with hzero | hdigit
  · exact absurd (List.mem_replicate.mp hzero).2 (by decide)
  · exact absurd ((readHex_toDigits n).2 _ hdigit) (by decide)

theorem newline_notMem_line (m : Mapping) : '\n' ∉ m.line := by
  have hinode : '\n' ∉ Nat.toDigits 10 m.inode := fun h =>
    absurd ((readDec_toDigits m.inode).2 _ h) (by decide)
  have hperms : '\n' ∉ m.perms := by
    unfold Mapping.perms
    cases m.readable <;> cases m.writable <;> cases m.executable <;> cases m.shared <;> decide
  have hblank : ∀ k, '\n' ∉ List.replicate k ' ' := fun k h =>
    absurd (List.mem_replicate.mp h).2 (by decide)
  unfold Mapping.line Mapping.fields
  split_ifs <;> simp [newline_notMem_hexText, hinode, hperms, hblank, m.oneLine]

theorem getlines_maps (space : AddressSpace) :
    getlines space.maps = space.mappings.map (·.line) := by
  unfold AddressSpace.maps
  induction space.mappings with
  | nil => rfl
  | cons m ms ih =>
      rw [List.flatMap_cons, List.append_assoc, List.singleton_append,
        getlines_cons (newline_notMem_line m), ih, List.map_cons]

/-- The whole table is read. -/
theorem parseLines_maps (space : AddressSpace) :
    parseLines space.maps = space.mappings.map (·.parsed) := by
  rw [parseLines, getlines_maps, List.filterMap_map]
  simp only [Function.comp_def, parseLine_line, List.filterMap_eq_map']

end Printed

/-! ## §4  Modules -/

/-- Extents are computed in 64 bits. -/
structure SegmentInfo where
  base : ℕ
  size : ℕ
deriving DecidableEq, Repr

def MapsLine.segment (l : MapsLine) : SegmentInfo :=
  ⟨l.start, (l.stop + 2 ^ 64 - l.start) % 2 ^ 64⟩

structure LinuxModInfo where
  name : List Char
  path : List Char
  base : ℕ
  stop : ℕ
  segments : List SegmentInfo
deriving DecidableEq, Repr

/-- The part after the last `/`. -/
def basename (path : List Char) : List Char := path.rtakeWhile (· ≠ '/')

/-- A further line of a module. -/
def LinuxModInfo.extend (m : LinuxModInfo) (l : MapsLine) : LinuxModInfo :=
  { m with
    base := if l.start < m.base then l.start else m.base
    stop := if l.stop > m.stop then l.stop else m.stop
    segments := m.segments ++ [l.segment] }

@[simp] theorem LinuxModInfo.extend_path (m : LinuxModInfo) (l : MapsLine) :
    (m.extend l).path = m.path := rfl

@[simp] theorem LinuxModInfo.extend_segments (m : LinuxModInfo) (l : MapsLine) :
    (m.extend l).segments = m.segments ++ [l.segment] := rfl

/-- The first module with the path of the line; `none` if there is no such module. -/
def update (l : MapsLine) : List LinuxModInfo → Option (List LinuxModInfo)
  | [] => none
  | m :: modules =>
    if m.path = l.pathname then some (m.extend l :: modules)
    else (update l modules).map (m :: ·)

/-- One turn of the loop over the lines. -/
def addLine (modules : List LinuxModInfo) (l : MapsLine) : List LinuxModInfo :=
  if l.pathname.head? = some '/' ∨ l.pathname.head? = some '[' then
    match update l modules with
    | some modules' => modules'
    | none =>
      if l.pathname.head? = some '/' then
        modules ++ [⟨basename l.pathname, l.pathname, l.start, l.stop, [l.segment]⟩]
      else modules
  else modules

structure ModuleInfo where
  name : String
  base : ℕ
  size : ℤ
  path : String
  segments : List SegmentInfo
deriving DecidableEq, Repr

def LinuxModInfo.info (m : LinuxModInfo) : ModuleInfo where
  name := String.ofList m.name
  base := m.base
  size := (BitVec.ofNat 32 (m.stop + 2 ^ 64 - m.base)).toInt
  path := String.ofList m.path
  segments := m.segments

def enumerateModules (maps : List Char) : List ModuleInfo :=
  ((parseLines maps).foldl addLine []).map (·.info)

def findModuleByName (maps : List Char) (name : String) : Option ModuleInfo :=
  (enumerateModules maps).find? (·.name = name)

/-! ## §5  What the list of modules holds -/

/-- The modules made of the lines `ls`. -/
structure Holds (ls : List MapsLine) (modules : List LinuxModInfo) : Prop where
  distinct : (modules.map (·.path)).Nodup
  file : ∀ m ∈ modules, m.path.head? = some '/' ∧ m.name = basename m.path
  segments : ∀ m ∈ modules, m.segments ≠ [] ∧
    m.segments = (ls.filter fun l => l.pathname = m.path).map (·.segment)
  present : ∀ l ∈ ls, l.pathname.head? = some '/' → ∃ m ∈ modules, m.path = l.pathname

section Modules

variable {l : MapsLine} {ls : List MapsLine} {modules modules' : List LinuxModInfo}

theorem update_eq_none : update l modules = none ↔ ∀ m ∈ modules, m.path ≠ l.pathname := by
  induction modules with
  | nil => simp [update]
  | cons m modules ih =>
      rw [update, List.forall_mem_cons]
      split_ifs with hpath
      · simp [hpath]
      · rw [Option.map_eq_none_iff, ih]
        exact (and_iff_right hpath).symm

theorem update_eq_some (h : update l modules = some modules') :
    ∃ pre m post, modules = pre ++ m :: post ∧ m.path = l.pathname ∧
      modules' = pre ++ m.extend l :: post := by
  induction modules generalizing modules' with
  | nil => cases h
  | cons m modules ih =>
      rw [update] at h
      split_ifs at h with hpath
      · obtain rfl := Option.some.inj h
        exact ⟨[], m, modules, rfl, hpath, rfl⟩
      · obtain ⟨rest, hrest, rfl⟩ := Option.map_eq_some_iff.mp h
        obtain ⟨pre, m', post, rfl, hm', rfl⟩ := ih hrest
        exact ⟨m :: pre, m', post, rfl, hm', rfl⟩

theorem filter_concat (path : List Char) :
    (ls ++ [l]).filter (fun l' => l'.pathname = path) =
      ls.filter (fun l' => l'.pathname = path) ++ if l.pathname = path then [l] else [] := by
  rw [List.filter_append]
  split_ifs with hpath <;> simp [hpath]

/-- A line with the path of no module leaves what is known of the modules. -/
theorem Holds.other (h : Holds ls modules) (hnone : ∀ m ∈ modules, m.path ≠ l.pathname) :
    ∀ m ∈ modules, m.segments ≠ [] ∧
      m.segments = ((ls ++ [l]).filter fun l' => l'.pathname = m.path).map (·.segment) := by
  intro m hm
  rw [filter_concat, if_neg (hnone m hm).symm, List.append_nil]
  exact h.segments m hm

theorem Holds.updated {pre post : List LinuxModInfo} {m : LinuxModInfo}
    (h : Holds ls (pre ++ m :: post)) (hpath : m.path = l.pathname) :
    Holds (ls ++ [l]) (pre ++ m.extend l :: post) where
  distinct := by simpa using h.distinct
  file m' hm' := by
    rcases List.mem_append.mp hm' with hpre | htail
    · exact h.file m' (List.mem_append_left _ hpre)
    · rcases List.mem_cons.mp htail with rfl | hpost
      · exact h.file m (by simp)
      · exact h.file m' (by simp [hpost])
  segments m' hm' := by
    have hdistinct := h.distinct
    rw [List.map_append, List.map_cons, List.nodup_middle, List.nodup_cons] at hdistinct
    rw [filter_concat]
    -- the other modules have other paths
    have hothers : m' ∈ pre ∨ m' ∈ post → m'.path ≠ l.pathname := by
      intro hm' hsame
      apply hdistinct.1
      rw [← List.map_append, hpath, ← hsame]
      exact List.mem_map_of_mem (List.mem_append.mpr hm')
    rcases List.mem_append.mp hm' with hpre | htail
    · rw [if_neg (hothers (.inl hpre)).symm, List.append_nil]
      exact h.segments m' (List.mem_append_left _ hpre)
    · rcases List.mem_cons.mp htail with rfl | hpost
      · obtain ⟨-, hsegments⟩ := h.segments m (by simp)
        refine ⟨by simp, ?_⟩
        rw [LinuxModInfo.extend_path, if_pos hpath.symm, List.map_append, ← hsegments]
        rfl
      · rw [if_neg (hothers (.inr hpost)).symm, List.append_nil]
        exact h.segments m' (by simp [hpost])
  present l' hl' hslash := by
    have hold : l'.pathname ∈ (pre ++ m :: post).map (·.path) := by
      rcases List.mem_append.mp hl' with hold | hnew
      · obtain ⟨m', hm', hp⟩ := h.present l' hold hslash
        exact hp ▸ List.mem_map_of_mem hm'
      · rw [List.mem_singleton.mp hnew, ← hpath]
        simp
    obtain ⟨m', hm', hp⟩ := List.mem_map.mp
      (show l'.pathname ∈ (pre ++ m.extend l :: post).map (·.path) by
        simpa using hold)
    exact ⟨m', hm', hp⟩

theorem Holds.added (h : Holds ls modules) (hslash : l.pathname.head? = some '/')
    (hnone : ∀ m ∈ modules, m.path ≠ l.pathname) :
    Holds (ls ++ [l])
      (modules ++ [⟨basename l.pathname, l.pathname, l.start, l.stop, [l.segment]⟩]) where
  distinct := by
    rw [List.map_append, List.nodup_append]
    refine ⟨h.distinct, by simp, ?_⟩
    intro path hpath other hother
    obtain ⟨m, hm, rfl⟩ := List.mem_map.mp hpath
    rw [List.map_singleton, List.mem_singleton] at hother
    exact hother ▸ hnone m hm
  file m hm := by
    rcases List.mem_append.mp hm with hold | hnew
    · exact h.file m hold
    · obtain rfl := List.mem_singleton.mp hnew
      exact ⟨hslash, rfl⟩
  segments m hm := by
    rcases List.mem_append.mp hm with hold | hnew
    · exact h.other hnone m hold
    · obtain rfl := List.mem_singleton.mp hnew
      refine ⟨by simp, ?_⟩
      -- an earlier line with this path would have its module
      have hfirst : ls.filter (fun l' => l'.pathname = l.pathname) = [] := by
        apply List.filter_eq_nil_iff.mpr
        intro l' hl'
        rw [decide_eq_true_eq]
        intro hsame
        obtain ⟨m, hm, hp⟩ := h.present l' hl' (hsame ▸ hslash)
        exact hnone m hm (hp.trans hsame)
      rw [filter_concat, hfirst, if_pos rfl]
      rfl
  present l' hl' hslash' := by
    rcases List.mem_append.mp hl' with hold | hnew
    · obtain ⟨m, hm, hp⟩ := h.present l' hold hslash'
      exact ⟨m, List.mem_append_left _ hm, hp⟩
    · obtain rfl := List.mem_singleton.mp hnew
      exact ⟨_, List.mem_append_right _ List.mem_cons_self, rfl⟩

theorem Holds.ignored (h : Holds ls modules) (hslash : l.pathname.head? ≠ some '/') :
    Holds (ls ++ [l]) modules where
  distinct := h.distinct
  file := h.file
  segments := h.other fun m hm hsame => hslash (hsame ▸ (h.file m hm).1)
  present l' hl' hslash' := by
    rcases List.mem_append.mp hl' with hold | hnew
    · exact h.present l' hold hslash'
    · exact absurd (List.mem_singleton.mp hnew ▸ hslash') hslash

/-- What a turn of the loop does: as every module has the path of a file, `[…]` finds none. -/
theorem addLine_cases (hfile : ∀ m ∈ modules, m.path.head? = some '/') (l : MapsLine) :
    (l.pathname.head? ≠ some '/' ∧ addLine modules l = modules) ∨
    (∃ pre m post, modules = pre ++ m :: post ∧ m.path = l.pathname ∧
      addLine modules l = pre ++ m.extend l :: post) ∨
    (l.pathname.head? = some '/' ∧ (∀ m ∈ modules, m.path ≠ l.pathname) ∧
      addLine modules l =
        modules ++ [⟨basename l.pathname, l.pathname, l.start, l.stop, [l.segment]⟩]) := by
  unfold ProcessMaps.addLine
  by_cases hkind : l.pathname.head? = some '/' ∨ l.pathname.head? = some '['
  · rw [if_pos hkind]
    cases hupdate : update l modules with
    | some modules' =>
        obtain ⟨pre, m, post, rfl, hpath, rfl⟩ := update_eq_some hupdate
        exact .inr (.inl ⟨pre, m, post, rfl, hpath, rfl⟩)
    | none =>
        by_cases hslash : l.pathname.head? = some '/'
        · exact .inr (.inr ⟨hslash, update_eq_none.mp hupdate, if_pos hslash⟩)
        · exact .inl ⟨hslash, if_neg hslash⟩
  · rw [if_neg hkind]
    exact .inl ⟨fun hslash => hkind (.inl hslash), rfl⟩

theorem Holds.addLine (h : Holds ls modules) (l : MapsLine) :
    Holds (ls ++ [l]) (addLine modules l) := by
  rcases addLine_cases (fun m hm => (h.file m hm).1) l with
    ⟨hslash, heq⟩ | ⟨pre, m, post, rfl, hpath, heq⟩ | ⟨hslash, hnone, heq⟩
  · rw [heq]
    exact h.ignored hslash
  · rw [heq]
    exact h.updated hpath
  · rw [heq]
    exact h.added hslash hnone

theorem holds_foldl (ls : List MapsLine) : Holds ls (ls.foldl addLine []) := by
  induction ls using List.reverseRecOn with
  | nil => exact ⟨List.nodup_nil, by simp, by simp, by simp⟩
  | append_singleton ls l ih =>
      rw [List.foldl_append]
      exact ih.addLine l

end Modules

/-- The mappings of a module. -/
def AddressSpace.mappingsOf (space : AddressSpace) (mod : ModuleInfo) : List Mapping :=
  space.mappings.filter fun m => String.ofList m.pathname = mod.path

/-- A module has a segment for each of its mappings. -/
theorem findModuleByName_segments {space : AddressSpace} {name : String} {mod : ModuleInfo}
    (h : findModuleByName space.maps name = some mod) :
    mod.segments ≠ [] ∧
      mod.segments = (space.mappingsOf mod).map fun m => ⟨m.start, m.stop - m.start⟩ := by
  obtain ⟨m, hm, rfl⟩ := List.mem_map.mp (List.mem_of_find?_eq_some h)
  obtain ⟨hne, hsegments⟩ := (holds_foldl _).segments m hm
  refine ⟨hne, hsegments.trans ?_⟩
  rw [parseLines_maps, List.filter_map, List.map_map, AddressSpace.mappingsOf]
  have hpath : ∀ x : Mapping, (String.ofList x.pathname = m.info.path) ↔
      x.pathname = m.path := by
    intro x
    exact String.ofList_inj
  simp only [hpath]
  apply List.map_congr_left
  intro x hx
  have hextent : (x.stop + 2 ^ 64 - x.start) % 2 ^ 64 = x.stop - x.start := by
    have := x.nonempty
    have := x.bounded
    omega
  rw [Function.comp_apply, Mapping.parsed, MapsLine.segment, hextent]

end ProcessMaps

end Chromatic
