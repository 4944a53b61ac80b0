import Chromatic.MemoryScan
import Chromatic.ProcessMaps

/-!
# Scanning a module

`scanModule`: the search of `bmhScan` over the segments of a module, one at a time, whatever
their permissions.

§1 the scan · §2 what is found and what is read · §3 when a scan is exact · §4 a library.
-/

namespace Chromatic

open Foundation NativeFunction

namespace ModuleScan

open MemoryScan ProcessMaps

/-! ## §1  The scan -/

inductive ScanError where
  | runtimeError (what : String)
  | pattern (e : CallError)
deriving DecidableEq, Repr

/-- The loop over the segments. -/
def scanSegments (memory : ℕ → Byte) (pat : ParsedPattern) :
    List SegmentInfo → List ScanMatch × List ℕ
  | [] => ([], [])
  | seg :: rest =>
    let (hits, reads) := bmhScan memory seg.base seg.size pat
    let (results, more) := scanSegments memory pat rest
    (hits ++ results, reads ++ more)

/-- The matches, and the addresses read. -/
def scanModule (maps : List Char) (memory : ℕ → Byte) (moduleName pattern : String) :
    Except ScanError (List ScanMatch × List ℕ) :=
  match findModuleByName maps moduleName with
  | none => .error (.runtimeError ("Module not found: " ++ moduleName))
  | some mod =>
    match parsePattern pattern with
    | .error e => .error (.pattern e)
    | .ok pat =>
      if mod.segments = [] then
        .ok (bmhScan memory mod.base (BitVec.ofInt 64 mod.size).toNat pat)
      else .ok (scanSegments memory pat mod.segments)

/-! ## §2  What is found and what is read -/

section Segments

variable {memory : ℕ → Byte} {pat : ParsedPattern} {segments : List SegmentInfo}

theorem scanSegments_eq : scanSegments memory pat segments =
    (segments.flatMap fun seg => (bmhScan memory seg.base seg.size pat).1,
      segments.flatMap fun seg => (bmhScan memory seg.base seg.size pat).2) := by
  induction segments with
  | nil => rfl
  | cons seg rest ih =>
      rw [scanSegments, ih]
      rfl

theorem mem_scanSegments (hsize : 0 < pat.size) (a : ℕ) :
    a ∈ (scanSegments memory pat segments).1.map (·.address) ↔
      ∃ seg ∈ segments, seg.base ≤ a ∧ a + pat.size ≤ seg.base + seg.size ∧
        OccursAt memory pat a := by
  rw [scanSegments_eq, List.map_flatMap, List.mem_flatMap]
  simp only [(bmhScan_correct hsize).1]

theorem scanSegments_ascending (hsize : 0 < pat.size)
    (hsorted : segments.Pairwise fun s t => s.base + s.size ≤ t.base) :
    ((scanSegments memory pat segments).1.map (·.address)).Pairwise (· < ·) := by
  rw [scanSegments_eq, List.map_flatMap, List.pairwise_flatMap]
  refine ⟨fun seg _ => (bmhScan_correct hsize).2.1, hsorted.imp fun hle a ha b hb => ?_⟩
  have ha' := ((bmhScan_correct hsize).1 a).mp ha
  have hb' := ((bmhScan_correct hsize).1 b).mp hb
  omega

end Segments

/-! ## §3  When a scan is exact -/

/-- The bytes of the pattern at `a` lie in readable mappings of the module and match. -/
structure Occurrence (space : AddressSpace) (memory : ℕ → Byte) (mod : ModuleInfo)
    (pat : ParsedPattern) (a : ℕ) : Prop where
  readable : ∀ j < pat.size, ∃ m ∈ space.mappingsOf mod, m.readable = true ∧ m.Holds (a + j)
  occurs : OccursAt memory pat a

/-- Every occurrence is reported, in ascending order, and nothing unreadable is read. -/
structure Exact (space : AddressSpace) (memory : ℕ → Byte) (mod : ModuleInfo)
    (pat : ParsedPattern) (result : List ScanMatch × List ℕ) : Prop where
  found : ∀ a, a ∈ result.1.map (·.address) ↔ Occurrence space memory mod pat a
  ascending : (result.1.map (·.address)).Pairwise (· < ·)
  reads : ∀ x ∈ result.2, ∃ m ∈ space.mappings, m.readable = true ∧ m.Holds x

/-- No mapping that is scanned is unreadable, and no occurrence goes over the end of one. -/
structure Scannable (space : AddressSpace) (memory : ℕ → Byte) (mod : ModuleInfo)
    (pat : ParsedPattern) : Prop where
  readable : ∀ m ∈ space.mappingsOf mod, m.start + pat.size ≤ m.stop → m.readable = true
  within : ∀ a, Occurrence space memory mod pat a →
    ∃ m ∈ space.mappingsOf mod, m.start ≤ a ∧ a + pat.size ≤ m.stop

section Module

variable {space : AddressSpace} {memory : ℕ → Byte} {mod : ModuleInfo} {pat : ParsedPattern}
  {name pattern : String} {m m' : Mapping} {a : ℕ}

theorem mem_mappings (h : m ∈ space.mappingsOf mod) : m ∈ space.mappings :=
  List.mem_of_mem_filter h

/-- Mappings do not overlap. -/
theorem eq_of_holds (hm : m ∈ space.mappings) (hm' : m' ∈ space.mappings) (h : m.Holds a)
    (h' : m'.Holds a) : m = m' := by
  have hapart : ∀ {x y : Mapping}, x.stop ≤ y.start → x.Holds a → ¬ y.Holds a := by
    intro x y hle hx hy
    exact absurd (Nat.lt_of_lt_of_le hx.2 hle) (Nat.not_lt.mpr hy.1)
  have hpair : space.mappings.Pairwise fun x y => x.Holds a → y.Holds a → x = y :=
    space.sorted.imp fun hle hx hy => absurd hy (hapart hle hx)
  refine hpair.forall_of_forall_of_flip (fun x _ _ _ => rfl) ?_ hm hm' h h'
  exact space.sorted.imp fun hle hy hx => absurd hy (hapart hle hx)

/-- The segments of a module are its mappings. -/
def segmentsOf (space : AddressSpace) (mod : ModuleInfo) : List SegmentInfo :=
  (space.mappingsOf mod).map fun m => ⟨m.start, m.stop - m.start⟩

theorem mem_results (hsize : 0 < pat.size) (a : ℕ) :
    a ∈ (scanSegments memory pat (segmentsOf space mod)).1.map (·.address) ↔
      ∃ m ∈ space.mappingsOf mod, m.start ≤ a ∧ a + pat.size ≤ m.stop ∧
        OccursAt memory pat a := by
  rw [mem_scanSegments hsize, segmentsOf]
  simp only [List.mem_map, exists_exists_and_eq_and]
  have hextent : ∀ m : Mapping, m.start + (m.stop - m.start) = m.stop := fun m =>
    Nat.add_sub_cancel' (Nat.le_of_lt m.nonempty)
  simp only [hextent]

theorem results_ascending (hsize : 0 < pat.size) :
    ((scanSegments memory pat (segmentsOf space mod)).1.map (·.address)).Pairwise (· < ·) := by
  apply scanSegments_ascending hsize
  rw [segmentsOf, List.pairwise_map]
  refine (space.sorted.filter _).imp fun {m m'} hle => ?_
  have := m.nonempty
  dsimp only
  omega

theorem mem_reads {x : ℕ} (hsize : 0 < pat.size)
    (h : x ∈ (scanSegments memory pat (segmentsOf space mod)).2) :
    ∃ m ∈ space.mappingsOf mod, m.start + pat.size ≤ m.stop ∧ m.Holds x := by
  rw [scanSegments_eq, segmentsOf, List.mem_flatMap] at h
  obtain ⟨seg, hseg, hx⟩ := h
  obtain ⟨m, hm, rfl⟩ := List.mem_map.mp hseg
  have hnonempty := m.nonempty
  refine ⟨m, hm, ?_, ?_⟩
  · by_contra hshort
    rw [bmhScan_short (by dsimp only; omega)] at hx
    cases hx
  · obtain ⟨hle, hlt⟩ := (bmhScan_correct hsize).2.2 x hx
    refine ⟨hle, ?_⟩
    dsimp only at hlt
    omega

/-- A mapping that is long enough is read, or its start is reported. -/
theorem touched (hsize : 0 < pat.size) (hm : m ∈ space.mappingsOf mod)
    (hlen : m.start + pat.size ≤ m.stop) :
    (∃ x ∈ (scanSegments memory pat (segmentsOf space mod)).2, m.Holds x) ∨
      m.start ∈ (scanSegments memory pat (segmentsOf space mod)).1.map (·.address) := by
  have hseg : (⟨m.start, m.stop - m.start⟩ : SegmentInfo) ∈ segmentsOf space mod :=
    List.mem_map_of_mem hm
  have hnonempty := m.nonempty
  rcases @bmhScan_touches memory m.start _ pat hsize
    (show pat.size ≤ m.stop - m.start by omega) with hread | hfound
  · obtain ⟨x, hx⟩ := List.exists_mem_of_ne_nil _ hread
    obtain ⟨hle, hlt⟩ := (bmhScan_correct hsize).2.2 x hx
    left
    refine ⟨x, ?_, hle, by omega⟩
    rw [scanSegments_eq]
    exact List.mem_flatMap.mpr ⟨_, hseg, hx⟩
  · right
    rw [scanSegments_eq, List.map_flatMap]
    exact List.mem_flatMap.mpr ⟨_, hseg, hfound⟩

theorem exact_iff (hsize : 0 < pat.size) :
    Exact space memory mod pat (scanSegments memory pat (segmentsOf space mod)) ↔
      Scannable space memory mod pat := by
  constructor
  · intro h
    refine ⟨fun m hm hlen => ?_, fun a ha => ?_⟩
    · rcases touched hsize hm hlen with ⟨x, hx, hholds⟩ | hfound
      · obtain ⟨m', hm', hreadable, hholds'⟩ := h.reads x hx
        exact eq_of_holds hm' (mem_mappings hm) hholds' hholds ▸ hreadable
      · obtain ⟨m', hm', hreadable, hholds'⟩ := ((h.found _).mp hfound).readable 0 hsize
        have hholds : m.Holds (m.start + 0) := ⟨Nat.le_refl _, m.nonempty⟩
        exact eq_of_holds (mem_mappings hm') (mem_mappings hm) hholds' hholds ▸ hreadable
    · obtain ⟨m, hm, hle, hend, -⟩ := (mem_results hsize a).mp ((h.found a).mpr ha)
      exact ⟨m, hm, hle, hend⟩
  · intro h
    refine ⟨fun a => ?_, results_ascending hsize, fun x hx => ?_⟩
    · rw [mem_results hsize]
      constructor
      · rintro ⟨m, hm, hle, hend, hoccurs⟩
        refine ⟨fun j hj => ⟨m, hm, h.readable m hm (by omega), ?_⟩, hoccurs⟩
        exact ⟨by omega, by omega⟩
      · intro ha
        obtain ⟨m, hm, hle, hend⟩ := h.within a ha
        exact ⟨m, hm, hle, hend, ha.occurs⟩
    · obtain ⟨m, hm, hlen, hholds⟩ := mem_reads hsize hx
      exact ⟨m, mem_mappings hm, h.readable m hm hlen, hholds⟩

/-- A module that is found has segments. -/
theorem scanModule_ok (hmod : findModuleByName space.maps name = some mod)
    (hpat : parsePattern pattern = .ok pat) :
    scanModule space.maps memory name pattern =
      .ok (scanSegments memory pat (segmentsOf space mod)) := by
  obtain ⟨hne, hsegments⟩ := findModuleByName_segments hmod
  simp only [scanModule, hmod, hpat]
  rw [if_neg hne, hsegments]
  rfl

/-- **When a module is scanned exactly.** -/
theorem scanModule_exact_iff (hmod : findModuleByName space.maps name = some mod)
    (hpat : parsePattern pattern = .ok pat) (htokens : words pattern.toList ≠ []) :
    (∃ result, scanModule space.maps memory name pattern = .ok result ∧
      Exact space memory mod pat result) ↔ Scannable space memory mod pat := by
  have hsize : 0 < pat.size := by
    rw [size_parsePattern hpat]
    exact List.length_pos_of_ne_nil htokens
  rw [scanModule_ok hmod hpat, ← exact_iff hsize]
  simp

end Module

/-! ## §4  A library -/

/-- A page of a library, its file offset being its distance from the first page. -/
def page (number : ℕ) (h : number < 8) (readable executable : Bool) : Mapping where
  start := 0x7f0000000000 + 0x1000 * number
  stop := 0x7f0000000000 + 0x1000 * (number + 1)
  readable := readable
  writable := false
  executable := executable
  shared := false
  offset := 0x1000 * number
  devMaj := 8
  devMin := 1
  inode := 4711
  path := "/usr/lib/libdemo.so".toList
  nonempty := by omega
  bounded := by omega
  oneLine := by decide

/-- A header page and a code page, one right behind the other. -/
def library : AddressSpace where
  mappings := [page 0 (by decide) true false, page 1 (by decide) true true]
  sorted := by simp [page]

def libraryInfo : ModuleInfo where
  name := "libdemo.so"
  base := 0x7f0000000000
  size := 0x2000
  path := "/usr/lib/libdemo.so"
  segments := [⟨0x7f0000000000, 0x1000⟩, ⟨0x7f0000001000, 0x1000⟩]

theorem findModuleByName_library :
    findModuleByName library.maps "libdemo.so" = some libraryInfo := by
  rw [findModuleByName, enumerateModules, parseLines_maps]
  decide

/-- The last byte of the first page and the first byte of the second. -/
def image : ℕ → Byte := fun a =>
  if a = 0x7f0000000fff then 0xAB else if a = 0x7f0000001000 then 0xCD else 0

def twoBytes : ParsedPattern := ⟨[0xAB, 0xCD], [true, true], rfl⟩

theorem mem_library {m : Mapping} : m ∈ library.mappingsOf libraryInfo ↔
    m = page 0 (by decide) true false ∨ m = page 1 (by decide) true true := by
  have hpath : ∀ {number} (h : number < 8) (readable executable : Bool),
      String.ofList (page number h readable executable).pathname = libraryInfo.path :=
    fun _ _ _ => rfl
  simp [AddressSpace.mappingsOf, library, hpath]

/-- A pattern over the boundary of two readable pages is not found. -/
theorem straddling_missed :
    findModuleByName library.maps "libdemo.so" = some libraryInfo ∧
      parsePattern "AB CD" = .ok twoBytes ∧
      Occurrence library image libraryInfo twoBytes 0x7f0000000fff ∧
      ∃ result, scanModule library.maps image "libdemo.so" "AB CD" = .ok result ∧
        0x7f0000000fff ∉ result.1.map (·.address) := by
  have hpat : parsePattern "AB CD" = .ok twoBytes := rfl
  refine ⟨findModuleByName_library, hpat, ⟨?_, ?_⟩, _,
    scanModule_ok findModuleByName_library hpat, ?_⟩
  · intro j hj
    rcases (show j = 0 ∨ j = 1 by change j < 2 at hj; omega) with rfl | rfl
    · exact ⟨_, mem_library.mpr (.inl rfl), rfl, by decide, by decide⟩
    · exact ⟨_, mem_library.mpr (.inr rfl), rfl, by decide, by decide⟩
  · intro j hj _
    rcases (show j = 0 ∨ j = 1 by change j < 2 at hj; omega) with rfl | rfl <;> rfl
  · rw [mem_results (by decide)]
    rintro ⟨m, hm, hle, hend, -⟩
    rcases mem_library.mp hm with rfl | rfl
    · exact absurd hend (by decide)
    · exact absurd hle (by decide)

/-- Two bytes in the middle of the first page. -/
def inner : ℕ → Byte := fun a =>
  if a = 0x7f0000000800 then 0xAB else if a = 0x7f0000000801 then 0xCD else 0

theorem eq_of_inner {a : ℕ} (h : inner a = 0xAB) : a = 0x7f0000000800 := by
  unfold inner at h
  split_ifs at h with h₁ h₂
  · exact h₁
  · cases h
  · cases h

/-- They are found there. -/
theorem scanModule_exact_inner :
    ∃ result, scanModule library.maps inner "libdemo.so" "AB CD" = .ok result ∧
      Exact library inner libraryInfo twoBytes result := by
  apply (scanModule_exact_iff findModuleByName_library rfl (by decide)).mpr
  refine ⟨fun m hm _ => ?_, fun a ha => ?_⟩
  · rcases mem_library.mp hm with rfl | rfl <;> rfl
  · obtain rfl := eq_of_inner (ha.occurs 0 (by decide) rfl)
    exact ⟨_, mem_library.mpr (.inl rfl), by decide, by decide⟩

end ModuleScan

end Chromatic
