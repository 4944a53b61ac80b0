import Chromatic.Foundation.Alignment
import Chromatic.Foundation.Sweeps
import Chromatic.MemoryRanges

/-!
# Memory ranges on Windows and macOS

`enumerateRanges` asks the system for one region after the other and goes on at its end, with
`VirtualQuery` on Windows and `vm_region_64` on macOS.

§1 Windows · §2 macOS · §3 the regions that Windows shows · §4 those that macOS shows ·
§5 the ranges of an address space.
-/

namespace Chromatic

open Foundation
open MemoryRanges (RangeInfo matchesProt matchesProt_iff)

namespace RegionWalks

/-! ## §1  Windows -/

inductive PageState where
  | commit
  | reserve
  | free
deriving DecidableEq

/-- `MEMORY_BASIC_INFORMATION`. -/
structure Mbi where
  baseAddress : Addr
  regionSize : BitVec 64
  state : PageState
  protect : BitVec 32

/-- The constants are `PAGE_EXECUTE_READWRITE`, `PAGE_EXECUTE_READ`, `PAGE_READWRITE`,
`PAGE_READONLY` and `PAGE_EXECUTE`. -/
def winProt (protect : BitVec 32) : List Char :=
  let p := protect &&& 0xFF
  if p = 0x40 then ['r', 'w', 'x']
  else if p = 0x20 then ['r', '-', 'x']
  else if p = 0x04 then ['r', 'w', '-']
  else if p = 0x02 then ['r', '-', '-']
  else if p = 0x10 then ['-', '-', 'x']
  else ['-', '-', '-']

/-- The size is cut to an `int`. -/
def Mbi.rangeInfo (mbi : Mbi) : RangeInfo where
  base := mbi.baseAddress.toNat
  size := (mbi.regionSize.setWidth 32).toInt
  protection := String.ofList (winProt mbi.protect)
  filePath := ""

/-- The loop ends where the query fails, and where the address comes round to 0. -/
def winNext (virtualQuery : Addr → Option Mbi) (addr : Addr) : Option (Mbi × Option Addr) :=
  (virtualQuery addr).map fun mbi =>
    let addr := addr + mbi.regionSize
    (mbi, if addr = 0 then none else some addr)

/-- The loop, of at most `fuel` queries, and what it keeps. -/
def winEnumerateRanges (virtualQuery : Addr → Option Mbi) (protection : String) (fuel : ℕ) :
    Option (List RangeInfo) :=
  (sweep (winNext virtualQuery) fuel 0).map fun mbis =>
    (mbis.filter fun mbi =>
      decide (mbi.state = .commit) && matchesProt protection (winProt mbi.protect)).map
        Mbi.rangeInfo

/-! ## §2  macOS -/

/-- What `vm_region_64` stores: where the region is, and its protection. -/
structure VmRegion where
  address : Addr
  size : BitVec 64
  protection : BitVec 32

/-- `VM_PROT_READ`, `VM_PROT_WRITE` and `VM_PROT_EXECUTE`. -/
def vmProt (protection : BitVec 32) : List Char :=
  [if protection &&& 1 ≠ 0 then 'r' else '-', if protection &&& 2 ≠ 0 then 'w' else '-',
    if protection &&& 4 ≠ 0 then 'x' else '-']

def VmRegion.rangeInfo (r : VmRegion) : RangeInfo where
  base := r.address.toNat
  size := (r.size.setWidth 32).toInt
  protection := String.ofList (vmProt r.protection)
  filePath := ""

def darwinNext (vmRegion : Addr → Option VmRegion) (address : Addr) :
    Option (VmRegion × Option Addr) :=
  (vmRegion address).map fun r => (r, some (r.address + r.size))

def darwinEnumerateRanges (vmRegion : Addr → Option VmRegion) (protection : String) (fuel : ℕ) :
    Option (List RangeInfo) :=
  (sweep (darwinNext vmRegion) fuel 0).map fun rs =>
    (rs.filter fun r => matchesProt protection (vmProt r.protection)).map VmRegion.rangeInfo

/-! ## §3  The regions that Windows shows -/

/-- What the pages of a region may be used for. -/
inductive PageProtection where
  | noAccess
  | readOnly
  | readWrite
  | writeCopy
  | execute
  | executeRead
  | executeReadWrite
  | executeWriteCopy
deriving DecidableEq

namespace PageProtection

def code : PageProtection → BitVec 8
  | noAccess => 0x01
  | readOnly => 0x02
  | readWrite => 0x04
  | writeCopy => 0x08
  | execute => 0x10
  | executeRead => 0x20
  | executeReadWrite => 0x40
  | executeWriteCopy => 0x80

/-- The process may write to a page that is copied first. -/
def letters : PageProtection → List Char
  | noAccess => ['-', '-', '-']
  | readOnly => ['r', '-', '-']
  | readWrite | writeCopy => ['r', 'w', '-']
  | execute => ['-', '-', 'x']
  | executeRead => ['r', '-', 'x']
  | executeReadWrite | executeWriteCopy => ['r', 'w', 'x']

/-- Copied when it is written to. -/
def Copied (p : PageProtection) : Prop := p = writeCopy ∨ p = executeWriteCopy

instance (p : PageProtection) : Decidable p.Copied := by
  unfold Copied
  infer_instance

end PageProtection

/-- Pages of one kind from `start` up to `stop`. The modifiers are `PAGE_GUARD` and those of
caching. -/
structure WinRegion where
  start : ℕ
  stop : ℕ
  state : PageState
  protection : PageProtection
  modifiers : BitVec 24
  nonempty : start < stop
  bounded : stop - start < 2 ^ 64

/-- One region begins where the last one ends. -/
def Tiles : ℕ → List WinRegion → Prop
  | _, [] => True
  | a, r :: rs => r.start = a ∧ Tiles r.stop rs

structure WinSpace where
  page : ℕ
  regions : List WinRegion
  tiles : Tiles 0 regions
  aligned : ∀ r ∈ regions, page ∣ r.start
  below : ∀ r ∈ regions, r.stop ≤ 2 ^ 64

def WinRegion.mbi (r : WinRegion) (base : ℕ) : Mbi where
  baseAddress := BitVec.ofNat 64 base
  regionSize := BitVec.ofNat 64 (r.stop - base)
  state := r.state
  protect := r.modifiers ++ r.protection.code

/-- The answer is about the pages from that of the address on. -/
def WinSpace.virtualQuery (space : WinSpace) (addr : Addr) : Option Mbi :=
  (space.regions.find? fun r => addr.toNat < r.stop).map fun r =>
    r.mbi (alignDown space.page addr.toNat)

/-- The letters are missing where a page is copied when it is written to. -/
theorem winProt_mbi (r : WinRegion) (base : ℕ) : winProt (r.mbi base).protect =
    if r.protection.Copied then ['-', '-', '-'] else r.protection.letters := by
  have hlow : (r.mbi base).protect &&& 0xFF = r.protection.code.setWidth 32 := by
    show (r.modifiers ++ r.protection.code) &&& 0xFF = _
    apply BitVec.eq_of_toNat_eq
    rw [BitVec.toNat_and, BitVec.toNat_append, BitVec.toNat_setWidth]
    have hcode := r.protection.code.isLt
    rw [show (0xFF : BitVec 32).toNat = 2 ^ 8 - 1 from rfl, Nat.and_two_pow_sub_one_eq_mod,
      ← Nat.shiftLeft_add_eq_or_of_lt hcode, Nat.shiftLeft_eq]
    omega
  rw [winProt, hlow]
  cases r.protection <;> rfl

/-- The regions in front of the address are passed over. -/
theorem find_behind {ρ : Type*} {stop : ρ → ℕ} {pre rs : List ρ} {r : ρ} {a : ℕ}
    (hpre : ∀ r ∈ pre, stop r ≤ a) (hr : a < stop r) :
    (pre ++ r :: rs).find? (fun r => a < stop r) = some r := by
  rw [List.find?_append, List.find?_eq_none.mpr fun r hr => by simpa using hpre r hr]
  rw [Option.none_or, List.find?_cons_of_pos (by simpa using hr)]

section Windows

/-- The loop comes to every region. -/
theorem comes_windows (space : WinSpace) (pre : List WinRegion) {rs : List WinRegion} {a : ℕ}
    (hsplit : space.regions = pre ++ rs) (htiles : Tiles a rs) (hpre : ∀ r ∈ pre, r.stop ≤ a)
    (ha : a < 2 ^ 64) :
    Comes (winNext space.virtualQuery) (BitVec.ofNat 64 a) (rs.map fun r => r.mbi r.start) := by
  have hnat : (BitVec.ofNat 64 a).toNat = a := by
    rw [BitVec.toNat_ofNat, Nat.mod_eq_of_lt ha]
  induction rs generalizing pre a with
  | nil =>
      refine .done ?_
      have hnone : space.regions.find? (fun r => a < r.stop) = none := by
        rw [hsplit, List.append_nil]
        exact List.find?_eq_none.mpr fun r hr => by simpa using hpre r hr
      rw [winNext, WinSpace.virtualQuery, hnat, hnone]
      rfl
  | cons r rs ih =>
      obtain ⟨rfl, htiles⟩ := htiles
      have hmem : r ∈ space.regions := by
        rw [hsplit]
        exact List.mem_append_right _ List.mem_cons_self
      have hbase : alignDown space.page r.start = r.start :=
        Nat.div_mul_cancel (space.aligned r hmem)
      have hquery : space.virtualQuery (BitVec.ofNat 64 r.start) = some (r.mbi r.start) := by
        rw [WinSpace.virtualQuery, hnat, hsplit, find_behind hpre r.nonempty, Option.map_some,
          hbase]
      have hend : BitVec.ofNat 64 r.start + (r.mbi r.start).regionSize =
          BitVec.ofNat 64 r.stop := by
        show BitVec.ofNat 64 r.start + BitVec.ofNat 64 (r.stop - r.start) = _
        rw [← BitVec.ofNat_add, Nat.add_sub_cancel' r.nonempty.le]
      have hbelow := space.below r hmem
      by_cases htop : r.stop = 2 ^ 64
      -- nothing lies above the last address
      · obtain rfl : rs = [] := by
          cases rs with
          | nil => rfl
          | cons r' rs =>
              have habove : r' ∈ space.regions := by
                rw [hsplit]
                simp
              have hnonempty := r'.nonempty
              have := space.below r' habove
              rw [htiles.1] at hnonempty
              omega
        refine .last ?_
        rw [winNext, hquery, Option.map_some]
        dsimp only
        rw [hend, htop, if_pos (by decide)]
      · have hlt : r.stop < 2 ^ 64 := by omega
        have hne : BitVec.ofNat 64 r.stop ≠ 0 := by
          intro hzero
          have hnonempty := r.nonempty
          have := congrArg BitVec.toNat hzero
          rw [BitVec.toNat_ofNat, Nat.mod_eq_of_lt hlt] at this
          simp only [BitVec.ofNat_eq_ofNat, BitVec.toNat_ofNat, Nat.zero_mod] at this
          omega
        refine .on ?_ (ih (pre ++ [r]) (a := r.stop) ?_ htiles ?_ hlt ?_)
        · rw [winNext, hquery, Option.map_some]
          dsimp only
          rw [hend, if_neg hne]
        · rw [hsplit, List.append_assoc]
          rfl
        · intro r' hr'
          rcases List.mem_append.mp hr' with hold | hnew
          · exact (hpre r' hold).trans r.nonempty.le
          · rw [List.mem_singleton.mp hnew]
        · rw [BitVec.toNat_ofNat, Nat.mod_eq_of_lt hlt]

end Windows

/-! ## §4  The regions that macOS shows -/

structure MacRegion where
  start : ℕ
  stop : ℕ
  readable : Bool
  writable : Bool
  executable : Bool
  nonempty : start < stop
  bounded : stop < 2 ^ 64

structure MacSpace where
  regions : List MacRegion
  sorted : regions.Pairwise fun r r' => r.stop ≤ r'.start

def vmFlags (readable writable executable : Bool) : BitVec 32 :=
  (if readable then 1 else 0) ||| (if writable then 2 else 0) ||| (if executable then 4 else 0)

def MacRegion.info (r : MacRegion) : VmRegion where
  address := BitVec.ofNat 64 r.start
  size := BitVec.ofNat 64 (r.stop - r.start)
  protection := vmFlags r.readable r.writable r.executable

/-- The region of the address or, where there is none, the next one. -/
def MacSpace.vmRegion (space : MacSpace) (address : Addr) : Option VmRegion :=
  (space.regions.find? fun r => address.toNat < r.stop).map MacRegion.info

def MacRegion.letters (r : MacRegion) : List Char :=
  [if r.readable then 'r' else '-', if r.writable then 'w' else '-',
    if r.executable then 'x' else '-']

theorem vmProt_flags (readable writable executable : Bool) :
    vmProt (vmFlags readable writable executable) =
      [if readable then 'r' else '-', if writable then 'w' else '-',
        if executable then 'x' else '-'] := by
  cases readable <;> cases writable <;> cases executable <;> decide

theorem vmProt_info (r : MacRegion) : vmProt r.info.protection = r.letters :=
  vmProt_flags r.readable r.writable r.executable

/-- The loop comes to every region, over the gaps between them. -/
theorem comes_darwin (space : MacSpace) (pre : List MacRegion) {rs : List MacRegion} {a : ℕ}
    (hsplit : space.regions = pre ++ rs) (hsorted : rs.Pairwise fun r r' => r.stop ≤ r'.start)
    (hpre : ∀ r ∈ pre, r.stop ≤ a) (hrs : ∀ r ∈ rs, a ≤ r.start) (ha : a < 2 ^ 64) :
    Comes (darwinNext space.vmRegion) (BitVec.ofNat 64 a) (rs.map MacRegion.info) := by
  have hnat : (BitVec.ofNat 64 a).toNat = a := by
    rw [BitVec.toNat_ofNat, Nat.mod_eq_of_lt ha]
  induction rs generalizing pre a with
  | nil =>
      refine .done ?_
      have hnone : space.regions.find? (fun r => a < r.stop) = none := by
        rw [hsplit, List.append_nil]
        exact List.find?_eq_none.mpr fun r hr => by simpa using hpre r hr
      rw [darwinNext, MacSpace.vmRegion, hnat, hnone]
      rfl
  | cons r rs ih =>
      obtain ⟨hlater, hsorted⟩ := List.pairwise_cons.mp hsorted
      have hstart := hrs r List.mem_cons_self
      have hquery : space.vmRegion (BitVec.ofNat 64 a) = some r.info := by
        rw [MacSpace.vmRegion, hnat, hsplit,
          find_behind hpre (hstart.trans_lt r.nonempty), Option.map_some]
      have hend : r.info.address + r.info.size = BitVec.ofNat 64 r.stop := by
        show BitVec.ofNat 64 r.start + BitVec.ofNat 64 (r.stop - r.start) = _
        rw [← BitVec.ofNat_add, Nat.add_sub_cancel' r.nonempty.le]
      refine .on ?_ (ih (pre ++ [r]) (a := r.stop) ?_ hsorted ?_ hlater r.bounded ?_)
      · rw [darwinNext, hquery, Option.map_some, hend]
      · rw [hsplit, List.append_assoc]
        rfl
      · intro r' hr'
        rcases List.mem_append.mp hr' with hold | hnew
        · exact (hpre r' hold).trans (hstart.trans r.nonempty.le)
        · rw [List.mem_singleton.mp hnew]
      · rw [BitVec.toNat_ofNat, Nat.mod_eq_of_lt r.bounded]

/-! ## §5  The ranges of an address space -/

/-- The letters have every permission that the filter names. -/
def Permits (protection : String) (letters : List Char) : Prop :=
  ∀ c ∈ protection.toList, c ≠ '-' → c ∈ letters

instance (protection : String) (letters : List Char) : Decidable (Permits protection letters) :=
  List.decidableBAll (fun c => c ≠ '-' → c ∈ letters) protection.toList

/-- The memory in use that a filter asks for, in the order of its addresses. -/
def WinSpace.permitted (space : WinSpace) (protection : String) : List RangeInfo :=
  (space.regions.filter fun r =>
    decide (r.state = .commit ∧ Permits protection r.protection.letters)).map fun r =>
      ⟨r.start, (r.stop - r.start : ℕ), String.ofList r.protection.letters, ""⟩

def MacSpace.permitted (space : MacSpace) (protection : String) : List RangeInfo :=
  (space.regions.filter fun r => decide (Permits protection r.letters)).map fun r =>
    ⟨r.start, (r.stop - r.start : ℕ), String.ofList r.letters, ""⟩

section Exact

variable {protection : String} {fuel : ℕ}

theorem size_eq_iff {n : ℕ} :
    ((BitVec.ofNat 64 n).setWidth 32).toInt = n ↔ n < 2 ^ 31 := by
  rw [BitVec.setWidth_ofNat_of_le (by decide)]
  exact toInt_ofNat_eq_iff

theorem winEnumerateRanges_eq (space : WinSpace) (hfuel : space.regions.length < fuel) :
    winEnumerateRanges space.virtualQuery protection fuel =
      some ((space.regions.filter fun r => decide (r.state = .commit) &&
        matchesProt protection (winProt (r.mbi r.start).protect)).map fun r =>
          (r.mbi r.start).rangeInfo) := by
  have hcomes := comes_windows space [] rfl space.tiles (by simp) (by decide)
  unfold winEnumerateRanges
  rw [show (0 : Addr) = BitVec.ofNat 64 0 from rfl,
    hcomes.sweep_eq (by rwa [List.length_map]), Option.map_some, List.filter_map, List.map_map]
  rfl

theorem darwinEnumerateRanges_eq (space : MacSpace) (hfuel : space.regions.length < fuel) :
    darwinEnumerateRanges space.vmRegion protection fuel =
      some ((space.regions.filter fun r => matchesProt protection r.letters).map fun r =>
        r.info.rangeInfo) := by
  have hcomes := comes_darwin space [] rfl space.sorted (by simp)
    (fun _ _ => Nat.zero_le _) (by decide)
  unfold darwinEnumerateRanges
  rw [show (0 : Addr) = BitVec.ofNat 64 0 from rfl,
    hcomes.sweep_eq (by rwa [List.length_map]), Option.map_some, List.filter_map, List.map_map]
  simp only [Function.comp_def, vmProt_info]

/-- Where no letters are shown, only dashes are matched. -/
theorem permits_of_shown {letters : List Char} {copied : Prop} [Decidable copied]
    (h : matchesProt protection (if copied then ['-', '-', '-'] else letters)) :
    Permits protection letters := by
  have hshown := matchesProt_iff.mp h
  intro c hc hne
  have hmem := hshown c hc hne
  split_ifs at hmem with hcopied
  · simp [hne] at hmem
  · exact hmem

theorem winRange_eq_iff (r : WinRegion) (hbelow : r.stop ≤ 2 ^ 64) :
    (r.mbi r.start).rangeInfo =
      ⟨r.start, (r.stop - r.start : ℕ), String.ofList r.protection.letters, ""⟩ ↔
    r.stop - r.start < 2 ^ 31 ∧ ¬ r.protection.Copied := by
  have hnonempty := r.nonempty
  have hbase : (r.mbi r.start).baseAddress.toNat = r.start := by
    show (BitVec.ofNat 64 r.start).toNat = r.start
    rw [BitVec.toNat_ofNat, Nat.mod_eq_of_lt (by omega)]
  have hprot : String.ofList (winProt (r.mbi r.start).protect) =
      String.ofList r.protection.letters ↔ ¬ r.protection.Copied := by
    rw [String.ofList_inj, winProt_mbi]
    cases r.protection <;> decide
  rw [Mbi.rangeInfo, RangeInfo.mk.injEq, hbase, hprot]
  rw [show (r.mbi r.start).regionSize = BitVec.ofNat 64 (r.stop - r.start) from rfl, size_eq_iff]
  simp

theorem macRange_eq_iff (r : MacRegion) :
    r.info.rangeInfo = ⟨r.start, (r.stop - r.start : ℕ), String.ofList r.letters, ""⟩ ↔
      r.stop - r.start < 2 ^ 31 := by
  have hnonempty := r.nonempty
  have hbounded := r.bounded
  have hbase : r.info.address.toNat = r.start := by
    show (BitVec.ofNat 64 r.start).toNat = r.start
    rw [BitVec.toNat_ofNat, Nat.mod_eq_of_lt (by omega)]
  rw [VmRegion.rangeInfo, RangeInfo.mk.injEq, hbase, vmProt_info]
  rw [show r.info.size = BitVec.ofNat 64 (r.stop - r.start) from rfl, size_eq_iff]
  simp

theorem windows_exact_iff (space : WinSpace) (hfuel : space.regions.length < fuel) :
    winEnumerateRanges space.virtualQuery protection fuel = some (space.permitted protection) ↔
      ∀ r ∈ space.regions, r.state = .commit → Permits protection r.protection.letters →
        r.stop - r.start < 2 ^ 31 ∧ ¬ r.protection.Copied := by
  have hless : ∀ r : WinRegion, decide (r.state = .commit) &&
      matchesProt protection (winProt (r.mbi r.start).protect) →
      decide (r.state = .commit ∧ Permits protection r.protection.letters) := by
    intro r hr
    rw [Bool.and_eq_true, decide_eq_true_eq, winProt_mbi] at hr
    exact decide_eq_true ⟨hr.1, permits_of_shown hr.2⟩
  rw [winEnumerateRanges_eq space hfuel, Option.some_inj, WinSpace.permitted,
    map_filter_eq_iff hless]
  simp only [decide_eq_true_eq, Bool.and_eq_true, and_imp]
  refine forall₂_congr fun r hr => forall₂_congr fun hcommit hpermits => ?_
  rw [winRange_eq_iff r (space.below r hr)]
  constructor
  · rintro ⟨-, hfits⟩
    exact hfits
  · intro hfits
    rw [winProt_mbi, if_neg hfits.2]
    exact ⟨⟨hcommit, matchesProt_iff.mpr hpermits⟩, hfits⟩

theorem darwin_exact_iff (space : MacSpace) (hfuel : space.regions.length < fuel) :
    darwinEnumerateRanges space.vmRegion protection fuel = some (space.permitted protection) ↔
      ∀ r ∈ space.regions, Permits protection r.letters → r.stop - r.start < 2 ^ 31 := by
  have hless : ∀ r : MacRegion, matchesProt protection r.letters →
      decide (Permits protection r.letters) := fun r hr => decide_eq_true (matchesProt_iff.mp hr)
  rw [darwinEnumerateRanges_eq space hfuel, Option.some_inj, MacSpace.permitted,
    map_filter_eq_iff hless]
  simp only [decide_eq_true_eq, macRange_eq_iff]
  refine forall₂_congr fun r _ => forall_congr' fun hpermits => ?_
  exact and_iff_right (matchesProt_iff.mpr hpermits)

/-- **Ranges are enumerated exactly**, also by the loops: they come to an end, and what they give
is what the filter permits, exactly when no region permitted is too large for an `int` and, on
Windows, none is copied when it is written to. -/
theorem walks_exact_iff (win : WinSpace) (mac : MacSpace) (protection : String) (fuel : ℕ)
    (hwin : win.regions.length < fuel) (hmac : mac.regions.length < fuel) :
    (winEnumerateRanges win.virtualQuery protection fuel = some (win.permitted protection) ↔
      ∀ r ∈ win.regions, r.state = .commit → Permits protection r.protection.letters →
        r.stop - r.start < 2 ^ 31 ∧ ¬ r.protection.Copied) ∧
    (darwinEnumerateRanges mac.vmRegion protection fuel = some (mac.permitted protection) ↔
      ∀ r ∈ mac.regions, Permits protection r.letters → r.stop - r.start < 2 ^ 31) :=
  ⟨windows_exact_iff win hwin, darwin_exact_iff mac hmac⟩

end Exact

section Concrete

/-- A page that is copied when it is written to, and nothing above it. -/
def copiedPage : WinSpace where
  page := 4096
  regions := [⟨0, 4096, .commit, .writeCopy, 0, by decide, by decide⟩]
  tiles := ⟨rfl, trivial⟩
  aligned := by simp
  below := by simp

def macPage : MacSpace := ⟨[⟨4096, 8192, true, false, true, by decide, by decide⟩], by simp⟩

/-- The page of Windows is not found by what it permits, that of macOS is. -/
theorem walks_exact_copied :
    winEnumerateRanges copiedPage.virtualQuery "r" 2 ≠ some (copiedPage.permitted "r") ∧
    darwinEnumerateRanges macPage.vmRegion "r" 2 = some [⟨4096, 4096, "r-x", ""⟩] := by
  obtain ⟨hwin, hmac⟩ := walks_exact_iff copiedPage macPage "r" 2 (by decide) (by decide)
  refine ⟨fun h => ?_, (hmac.mpr ?_).trans (by decide)⟩
  · exact (hwin.mp h _ List.mem_cons_self rfl (by decide)).2 (.inl rfl)
  · intro r hr _
    obtain rfl := List.mem_singleton.mp hr
    decide

end Concrete

end RegionWalks

end Chromatic
