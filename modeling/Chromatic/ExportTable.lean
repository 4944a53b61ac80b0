import Chromatic.ProcessMaps
import Chromatic.Foundation.BucketChains

/-!
# The exports of an ELF module

`enumerateExports` on Linux, 64-bit. Without `DT_HASH` the number of symbols is found through
`DT_GNU_HASH`: the largest bucket is the first symbol of the last chain, and the low bit of its
words marks the end of a chain.

§1 memory and the dynamic section · §2 enumerateExports · §3 tables in memory · §4 the scan ·
§5 the last chain · §6 where 32 bits are enough · §7 what is listed · §8 where they are too few.
-/

namespace Chromatic

open Foundation BucketChains ProcessMaps

namespace ExportTable

/-! ## §1  Memory and the dynamic section -/

structure Sym where
  stName : BitVec 32
  stInfo : BitVec 8
  stShndx : BitVec 16
  stValue : BitVec 64
deriving DecidableEq, Repr

/-- What is read at an address: a `uint32_t`, a symbol, or the string up to its NUL. -/
structure Memory where
  u32 : ℕ → BitVec 32
  sym : ℕ → Sym
  str : ℕ → String

inductive DynTag where
  | symtab
  | strtab
  | hash
  | gnuHash
  | other
deriving DecidableEq, Repr

structure Dyn where
  tag : DynTag
  ptr : ℕ
deriving DecidableEq, Repr

/-- `dynamic` are the entries before `DT_NULL`, if there is a `PT_DYNAMIC`. -/
structure DlPhdrInfo where
  name : Option String
  addr : BitVec 64
  dynamic : Option (List Dyn)
deriving DecidableEq, Repr

structure ExportInfo where
  type : String
  name : String
  address : BitVec 64
deriving DecidableEq, Repr

/-! ## §2  enumerateExports -/

def SHN_UNDEF : BitVec 16 := 0
def STB_GLOBAL : BitVec 8 := 1
def STB_WEAK : BitVec 8 := 2
def STT_FUNC : BitVec 8 := 2

def Sym.bind (sym : Sym) : BitVec 8 := sym.stInfo >>> 4
def Sym.type (sym : Sym) : BitVec 8 := sym.stInfo &&& 0xf

/-- The variables of the callback; 0 is null. -/
structure DynScan where
  symtab : ℕ
  strtab : ℕ
  nchain : ℕ
  gnuBuckets : ℕ
  gnuNbuckets : ℕ
  gnuSymndx : BitVec 32
deriving DecidableEq, Repr

section Enumerate

variable (mem : Memory)

/-- One turn of the loop over the dynamic section. `bloomU32s` is a `uint32_t`. -/
def readDyn (s : DynScan) (d : Dyn) : DynScan :=
  match d.tag with
  | .symtab => { s with symtab := d.ptr }
  | .strtab => { s with strtab := d.ptr }
  | .hash => { s with nchain := (mem.u32 (d.ptr + 4 * 1)).toNat }
  | .gnuHash =>
    let bloomWords := mem.u32 (d.ptr + 4 * 2)
    let bloomU32s := bloomWords * 2
    { s with
      gnuNbuckets := (mem.u32 d.ptr).toNat
      gnuSymndx := mem.u32 (d.ptr + 4 * 1)
      gnuBuckets := d.ptr + 4 * (4 + bloomU32s.toNat) }
  | .other => s

def scanDynamic (dynamic : List Dyn) : DynScan :=
  dynamic.foldl (readDyn mem) ⟨0, 0, 0, 0, 0, 0⟩

def maxSym (s : DynScan) : BitVec 32 :=
  (List.range s.gnuNbuckets).foldl
    (fun m i => if mem.u32 (s.gnuBuckets + 4 * i) > m then mem.u32 (s.gnuBuckets + 4 * i) else m) 0

def DynScan.chains (s : DynScan) : ℕ := s.gnuBuckets + 4 * s.gnuNbuckets

/-- The loop along a chain, at most so many turns. -/
def chainEnd (chains : ℕ) : ℕ → BitVec 32 → Option (BitVec 32)
  | 0, _ => none
  | turns + 1, idx =>
    if mem.u32 (chains + 4 * idx.toNat) &&& 1 = 0 then chainEnd chains turns (idx + 1)
    else some idx

/-- The addresses it reads. -/
def chainReads (chains : ℕ) : ℕ → BitVec 32 → List ℕ
  | 0, _ => []
  | turns + 1, idx =>
    (chains + 4 * idx.toNat) ::
      if mem.u32 (chains + 4 * idx.toNat) &&& 1 = 0 then chainReads chains turns (idx + 1)
      else []

/-- The sum is one of 32 bits. -/
def symbolCount (s : DynScan) (turns : ℕ) : Option ℕ :=
  if s.nchain = 0 ∧ s.gnuBuckets ≠ 0 then
    if maxSym mem s ≥ s.gnuSymndx then
      (chainEnd mem s.chains turns (maxSym mem s - s.gnuSymndx)).map fun idx =>
        (s.gnuSymndx + idx + 1).toNat
    else some s.nchain
  else some s.nchain

def exportInfo (addr : BitVec 64) (name : String) (sym : Sym) : ExportInfo :=
  ⟨if sym.type = STT_FUNC then "function" else "variable", name, addr + sym.stValue⟩

def exportOf (addr : BitVec 64) (strtab : ℕ) (sym : Sym) : Option ExportInfo :=
  if sym.stShndx = SHN_UNDEF ∨ sym.stValue = 0 then none
  else if sym.bind ≠ STB_GLOBAL ∧ sym.bind ≠ STB_WEAK then none
  else
    let name := mem.str (strtab + sym.stName.toNat)
    if name = "" then none else some (exportInfo addr name sym)

/-- `symtab[i]`. -/
def symAt (symtab i : ℕ) : Sym := mem.sym (symtab + 24 * i)

def moduleExports (turns : ℕ) (info : DlPhdrInfo) : Option (List ExportInfo) :=
  match info.dynamic with
  | none => some []
  | some dynamic =>
    let s := scanDynamic mem dynamic
    if s.symtab = 0 ∨ s.strtab = 0 then some []
    else
      (symbolCount mem s turns).map fun nsyms =>
        (List.range nsyms).filterMap fun i => exportOf mem info.addr s.strtab (symAt mem s.symtab i)

/-- The module is asked for by its path or by its name in the directory. -/
def DlPhdrInfo.Named (info : DlPhdrInfo) (moduleName : String) : Prop :=
  String.ofList (basename (info.name.getD "").toList) = moduleName ∨ info.name.getD "" = moduleName

instance (info : DlPhdrInfo) (moduleName : String) : Decidable (info.Named moduleName) :=
  inferInstanceAs (Decidable (_ ∨ _))

/-- `dl_iterate_phdr` goes on until the module is found. -/
def enumerateExports (turns : ℕ) (moduleName : String) :
    List DlPhdrInfo → Option (List ExportInfo)
  | [] => some []
  | info :: rest =>
    if info.Named moduleName then moduleExports mem turns info
    else enumerateExports turns moduleName rest

end Enumerate

/-! ## §3  Tables in memory -/

/-- What decides where things are in a `DT_GNU_HASH`: the first hashed symbol, the words of the
bloom filter, and how many symbols each bucket has. -/
structure Table where
  symndx : BitVec 32
  bloomWords : BitVec 32
  sizes : List ℕ
  symndx_pos : 1 ≤ symndx.toNat
  buckets : sizes ≠ []
  buckets_lt : sizes.length < 2 ^ 32
  fits : ∀ i (h : i < sizes.length), sizes[i] ≠ 0 → symndx.toNat + first sizes i < 2 ^ 32

namespace Table

variable (t : Table)

/-- All symbols up to the last hashed one. -/
def count : ℕ := if t.sizes.sum = 0 then 0 else t.symndx.toNat + t.sizes.sum

theorem count_of_ne (h : t.sizes.sum ≠ 0) : t.count = t.symndx.toNat + t.sizes.sum :=
  if_neg h

def bucketsAt : ℕ := 4 * (4 + 2 * t.bloomWords.toNat)

def chainsAt : ℕ := t.bucketsAt + 4 * t.sizes.length

/-- The index of its first symbol, 0 for an empty bucket. -/
def bucket (i : ℕ) : ℕ := if t.sizes.getD i 0 = 0 then 0 else t.symndx.toNat + first t.sizes i

theorem bucket_of_lt {i : ℕ} (h : i < t.sizes.length) :
    t.bucket i = if t.sizes[i] = 0 then 0 else t.symndx.toNat + first t.sizes i := by
  rw [bucket, List.getD_eq_getElem?_getD, List.getElem?_eq_getElem h, Option.getD_some]

/-- The table is at the address. The bloom filter, the shift and the hash bits may be anything. -/
structure At (mem : Memory) (gh : ℕ) : Prop where
  nbuckets : (mem.u32 gh).toNat = t.sizes.length
  symndx : mem.u32 (gh + 4 * 1) = t.symndx
  bloomWords : mem.u32 (gh + 4 * 2) = t.bloomWords
  bucket : ∀ i < t.sizes.length, (mem.u32 (gh + t.bucketsAt + 4 * i)).toNat = t.bucket i
  chain : ∀ j < t.sizes.sum,
    mem.u32 (gh + t.chainsAt + 4 * j) &&& 1 = 0 ↔ ¬ IsLast t.sizes j

end Table

/-- All entries of the tag have the pointer, and there is one. -/
def Points (dynamic : List Dyn) (tag : DynTag) (ptr : ℕ) : Prop :=
  ⟨tag, ptr⟩ ∈ dynamic ∧ ∀ d ∈ dynamic, d.tag = tag → d.ptr = ptr

/-- A module with such a table and without `DT_HASH`, among the loaded ones the first of its
name. -/
structure Loaded (t : Table) where
  mem : Memory
  dynamic : List Dyn
  gh : ℕ
  symtab : ℕ
  strtab : ℕ
  name : Option String
  addr : BitVec 64
  moduleName : String
  before : List DlPhdrInfo
  after : List DlPhdrInfo
  table : t.At mem gh
  noHash : ∀ d ∈ dynamic, d.tag ≠ .hash
  gnuHash : Points dynamic .gnuHash gh
  symbols : Points dynamic .symtab symtab
  symtab_ne : symtab ≠ 0
  strings : Points dynamic .strtab strtab
  strtab_ne : strtab ≠ 0
  named : DlPhdrInfo.Named ⟨name, addr, some dynamic⟩ moduleName
  unnamed : ∀ info ∈ before, ¬ info.Named moduleName

namespace Loaded

variable {t : Table} (l : Loaded t)

def info : DlPhdrInfo := ⟨l.name, l.addr, some l.dynamic⟩

def modules : List DlPhdrInfo := l.before ++ l.info :: l.after

def scan : DynScan := scanDynamic l.mem l.dynamic

def nameOf (sym : Sym) : String := l.mem.str (l.strtab + sym.stName.toNat)

/-- Defined, global or weak, with a name. -/
def Exported (sym : Sym) : Prop :=
  (sym.stShndx ≠ SHN_UNDEF ∧ sym.stValue ≠ 0) ∧ (sym.bind = STB_GLOBAL ∨ sym.bind = STB_WEAK) ∧
    l.nameOf sym ≠ ""

instance (sym : Sym) : Decidable (l.Exported sym) := inferInstanceAs (Decidable (_ ∧ _ ∧ _))

/-- The exported symbols of the table, in its order. -/
def listing : List ExportInfo :=
  let symbols := (List.range t.count).map (symAt l.mem l.symtab)
  (symbols.filter fun sym => l.Exported sym).map fun sym =>
    exportInfo l.addr (l.nameOf sym) sym

/-- The count is right, the walk stays within the chains, and the listing is returned. -/
structure Exact : Prop where
  count : ∃ enough, ∀ turns ≥ enough, symbolCount l.mem l.scan turns = some t.count
  inside : maxSym l.mem l.scan ≥ l.scan.gnuSymndx →
    ∀ turns, ∀ a ∈ chainReads l.mem l.scan.chains turns (maxSym l.mem l.scan - l.scan.gnuSymndx),
      ∃ j < t.sizes.sum, a = l.gh + t.chainsAt + 4 * j
  listed : ∃ enough, ∀ turns ≥ enough,
    enumerateExports l.mem turns l.moduleName l.modules = some l.listing

end Loaded

/-! ## §4  The scan -/

section Scan

variable {mem : Memory} {dynamic : List Dyn}

/-- Each variable is that of one tag. -/
theorem readDyn_keeps (s : DynScan) (d : Dyn) :
    (d.tag ≠ .symtab → (readDyn mem s d).symtab = s.symtab) ∧
      (d.tag ≠ .strtab → (readDyn mem s d).strtab = s.strtab) ∧
      (d.tag ≠ .hash → (readDyn mem s d).nchain = s.nchain) ∧
      (d.tag ≠ .gnuHash → (readDyn mem s d).gnuBuckets = s.gnuBuckets ∧
        (readDyn mem s d).gnuNbuckets = s.gnuNbuckets ∧
        (readDyn mem s d).gnuSymndx = s.gnuSymndx) := by
  rcases d with ⟨_ | _ | _ | _ | _, ptr⟩ <;> simp [readDyn]

/-- A variable that no entry changes. -/
theorem foldl_readDyn_keep {γ : Type} (get : DynScan → γ) :
    ∀ s, (∀ s, ∀ d ∈ dynamic, get (readDyn mem s d) = get s) →
      get (dynamic.foldl (readDyn mem) s) = get s := by
  induction dynamic with
  | nil => intro s _; rfl
  | cons d rest ih =>
    intro s hkeep
    rw [List.foldl_cons, ih _ fun s d hd => hkeep s d (List.mem_cons_of_mem _ hd)]
    exact hkeep s d List.mem_cons_self

/-- A variable that the entries of one tag set, all to the same value. -/
theorem foldl_readDyn_set {γ : Type} (get : DynScan → γ) (value : γ) (tag : DynTag)
    (hset : ∀ s, ∀ d ∈ dynamic, d.tag = tag → get (readDyn mem s d) = value)
    (hkeep : ∀ s, ∀ d ∈ dynamic, d.tag ≠ tag → get (readDyn mem s d) = get s) :
    ∀ s, (∃ d ∈ dynamic, d.tag = tag) ∨ get s = value →
      get (dynamic.foldl (readDyn mem) s) = value := by
  induction dynamic with
  | nil =>
    rintro s (⟨d, hd, -⟩ | hvalue)
    · cases hd
    · exact hvalue
  | cons d rest ih =>
    intro s hs
    rw [List.foldl_cons]
    refine ih (fun s d hd => hset s d (List.mem_cons_of_mem _ hd))
      (fun s d hd => hkeep s d (List.mem_cons_of_mem _ hd)) _ ?_
    by_cases htag : d.tag = tag
    · exact .inr (hset s d List.mem_cons_self htag)
    · rw [hkeep s d List.mem_cons_self htag]
      refine hs.imp_left fun ⟨d', hd', htag'⟩ => ?_
      rcases List.mem_cons.1 hd' with rfl | hrest
      · exact absurd htag' htag
      · exact ⟨d', hrest, htag'⟩

theorem scan_of_points {γ : Type} (get : DynScan → γ) {tag : DynTag} {ptr : ℕ}
    (hpoints : Points dynamic tag ptr) (value : γ)
    (hset : ∀ s, get (readDyn mem s ⟨tag, ptr⟩) = value)
    (hkeep : ∀ s d, d.tag ≠ tag → get (readDyn mem s d) = get s) :
    get (scanDynamic mem dynamic) = value := by
  refine foldl_readDyn_set get value tag (fun s d hd htag => ?_) (fun s d _ => hkeep s d) _
    (.inl ⟨_, hpoints.1, rfl⟩)
  obtain rfl := hpoints.2 d hd htag
  subst htag
  exact hset s

end Scan

namespace Loaded

variable {t : Table} (l : Loaded t)

theorem scan_eq : l.scan =
    { symtab := l.symtab
      strtab := l.strtab
      nchain := 0
      gnuBuckets := l.gh + 4 * (4 + (t.bloomWords * 2).toNat)
      gnuNbuckets := t.sizes.length
      gnuSymndx := t.symndx } := by
  have hsymtab : l.scan.symtab = l.symtab :=
    scan_of_points DynScan.symtab l.symbols _ (fun s => rfl) fun s d => (readDyn_keeps s d).1
  have hstrtab : l.scan.strtab = l.strtab :=
    scan_of_points DynScan.strtab l.strings _ (fun s => rfl) fun s d => (readDyn_keeps s d).2.1
  have hnchain : l.scan.nchain = 0 :=
    foldl_readDyn_keep DynScan.nchain _ fun s d hd => (readDyn_keeps s d).2.2.1 (l.noHash d hd)
  have hbuckets : l.scan.gnuBuckets = l.gh + 4 * (4 + (t.bloomWords * 2).toNat) :=
    scan_of_points DynScan.gnuBuckets l.gnuHash _ (fun s => by simp [readDyn, ← l.table.bloomWords])
      fun s d h => ((readDyn_keeps s d).2.2.2 h).1
  have hnbuckets : l.scan.gnuNbuckets = t.sizes.length :=
    scan_of_points DynScan.gnuNbuckets l.gnuHash _ (fun s => l.table.nbuckets)
      fun s d h => ((readDyn_keeps s d).2.2.2 h).2.1
  have hsymndx : l.scan.gnuSymndx = t.symndx :=
    scan_of_points DynScan.gnuSymndx l.gnuHash _ (fun s => l.table.symndx)
      fun s d h => ((readDyn_keeps s d).2.2.2 h).2.2
  rw [← hsymtab, ← hstrtab, ← hnchain, ← hbuckets, ← hnbuckets, ← hsymndx]

@[simp] theorem scan_symtab : l.scan.symtab = l.symtab := by rw [scan_eq]

@[simp] theorem scan_strtab : l.scan.strtab = l.strtab := by rw [scan_eq]

@[simp] theorem scan_nchain : l.scan.nchain = 0 := by rw [scan_eq]

@[simp] theorem scan_gnuNbuckets : l.scan.gnuNbuckets = t.sizes.length := by rw [scan_eq]

@[simp] theorem scan_gnuSymndx : l.scan.gnuSymndx = t.symndx := by rw [scan_eq]

end Loaded

/-! ## §5  The last chain -/

section Walk

variable {mem : Memory} {chains : ℕ}

theorem add_one_toNat {idx : BitVec 32} {e : ℕ} (hlt : idx.toNat < e) (he : e < 2 ^ 32) :
    (idx + 1).toNat = idx.toNat + 1 := by
  rw [BitVec.toNat_add_of_lt (by simp; omega)]
  simp

/-- The walk ends at the first word that is odd. -/
theorem chainEnd_eq {e : BitVec 32} (hodd : mem.u32 (chains + 4 * e.toNat) &&& 1 ≠ 0) :
    ∀ (n turns : ℕ) (idx : BitVec 32), idx.toNat + n = e.toNat → n < turns →
      (∀ i, idx.toNat ≤ i → i < e.toNat → mem.u32 (chains + 4 * i) &&& 1 = 0) →
      chainEnd mem chains turns idx = some e := by
  intro n
  induction n with
  | zero =>
    intro turns idx hidx hturns _
    obtain rfl : idx = e := BitVec.eq_of_toNat_eq (by omega)
    obtain ⟨turns, rfl⟩ := Nat.exists_eq_succ_of_ne_zero hturns.ne'
    rw [chainEnd, if_neg hodd]
  | succ n ih =>
    intro turns idx hidx hturns heven
    obtain ⟨turns, rfl⟩ := Nat.exists_eq_succ_of_ne_zero (Nat.ne_zero_of_lt hturns)
    have hnext := add_one_toNat (show idx.toNat < e.toNat by omega) e.isLt
    rw [chainEnd, if_pos (heven idx.toNat le_rfl (by omega))]
    exact ih turns (idx + 1) (by omega) (by omega) fun i hi => heven i (by omega)

theorem chainReads_le {e : BitVec 32} (hodd : mem.u32 (chains + 4 * e.toNat) &&& 1 ≠ 0) :
    ∀ (turns : ℕ) (idx : BitVec 32), idx.toNat ≤ e.toNat →
      ∀ a ∈ chainReads mem chains turns idx,
        ∃ i, idx.toNat ≤ i ∧ i ≤ e.toNat ∧ a = chains + 4 * i := by
  intro turns
  induction turns with
  | zero =>
    intro idx _ a ha
    cases ha
  | succ turns ih =>
    intro idx hidx a ha
    rw [chainReads, List.mem_cons] at ha
    rcases ha with rfl | ha
    · exact ⟨idx.toNat, le_rfl, hidx, rfl⟩
    · split at ha
      · rename_i heven
        have hlt : idx.toNat < e.toNat := by
          refine lt_of_le_of_ne hidx fun heq => hodd ?_
          rwa [← heq]
        have hnext := add_one_toNat hlt e.isLt
        obtain ⟨i, hlo, hhi, rfl⟩ := ih (idx + 1) (by omega) a ha
        exact ⟨i, by omega, hhi, rfl⟩
      · cases ha

end Walk

section MaxSym

variable (mem : Memory) (s : DynScan)

theorem maxSym_spec : (∀ i < s.gnuNbuckets, mem.u32 (s.gnuBuckets + 4 * i) ≤ maxSym mem s) ∧
    (maxSym mem s = 0 ∨
      ∃ i < s.gnuNbuckets, maxSym mem s = mem.u32 (s.gnuBuckets + 4 * i)) := by
  unfold maxSym
  induction s.gnuNbuckets with
  | zero => exact ⟨nofun, .inl rfl⟩
  | succ n ih =>
    rw [List.range_succ, List.foldl_append]
    generalize (List.range n).foldl _ (0 : BitVec 32) = m at ih ⊢
    obtain ⟨hle, hsome⟩ := ih
    rw [List.foldl_cons, List.foldl_nil]
    split
    · rename_i hgt
      refine ⟨fun i hi => ?_, .inr ⟨n, Nat.lt_succ_self n, rfl⟩⟩
      rcases Nat.lt_succ_iff_lt_or_eq.1 hi with hlt | rfl
      · have hbefore := hle i hlt
        bv_omega
      · exact BitVec.le_refl _
    · rename_i hle'
      refine ⟨fun i hi => ?_, hsome.imp_right fun ⟨i, hi, h⟩ => ⟨i, Nat.lt_succ_of_lt hi, h⟩⟩
      rcases Nat.lt_succ_iff_lt_or_eq.1 hi with hlt | rfl
      · exact hle i hlt
      · exact BitVec.not_lt.1 hle'

end MaxSym

/-! ## §6  Where 32 bits are enough -/

namespace Loaded

variable {t : Table} (l : Loaded t)

/-- The start of the buckets is right when twice the bloom words fit. -/
theorem gnuBuckets_eq (hbloom : t.bloomWords.toNat < 2 ^ 31) :
    l.scan.gnuBuckets = l.gh + t.bucketsAt := by
  have hdouble : (t.bloomWords * 2).toNat = 2 * t.bloomWords.toNat := by
    rw [BitVec.toNat_mul_of_lt (by simp; omega)]
    simp [Nat.mul_comm]
  rw [l.scan_eq, Table.bucketsAt, hdouble]

theorem chains_eq (hbloom : t.bloomWords.toNat < 2 ^ 31) :
    l.scan.chains = l.gh + t.chainsAt := by
  rw [DynScan.chains, l.gnuBuckets_eq hbloom, l.scan_gnuNbuckets, Table.chainsAt]
  omega

/-- Without hashed symbols all buckets are empty. -/
theorem maxSym_of_empty (hbloom : t.bloomWords.toNat < 2 ^ 31) (hempty : t.sizes.sum = 0) :
    maxSym l.mem l.scan = 0 := by
  rcases (maxSym_spec l.mem l.scan).2 with hzero | ⟨i, hi, hmax⟩
  · exact hzero
  · rw [l.scan_gnuNbuckets] at hi
    have hbucket := l.table.bucket i hi
    rw [t.bucket_of_lt hi, if_pos (List.sum_eq_zero_iff.1 hempty _ (List.getElem_mem hi)),
      ← l.gnuBuckets_eq hbloom, ← hmax] at hbucket
    exact BitVec.eq_of_toNat_eq hbucket

/-- The largest bucket is the last one with symbols. -/
theorem maxSym_of_last (hbloom : t.bloomWords.toNat < 2 ^ 31) {k : ℕ}
    (hk : LastBucket t.sizes k) :
    (maxSym l.mem l.scan).toNat = t.symndx.toNat + first t.sizes k := by
  obtain ⟨hle, hsome⟩ := maxSym_spec l.mem l.scan
  rw [l.scan_gnuNbuckets, l.gnuBuckets_eq hbloom] at hle hsome
  have hklt := hk.lt
  have hkne : t.sizes[k] ≠ 0 := by
    have := first_succ t.sizes hk.lt
    have := hk.starts
    have := hk.ends
    omega
  have hlast := BitVec.le_def.1 (hle k hk.lt)
  rw [l.table.bucket k hk.lt, t.bucket_of_lt hk.lt, if_neg hkne] at hlast
  have hpos := t.symndx_pos
  rcases hsome with hzero | ⟨i, hi, hmax⟩
  · rw [hzero] at hlast
    simp at hlast
    omega
  · have hbucket := l.table.bucket i hi
    rw [← hmax, t.bucket_of_lt hi] at hbucket
    split at hbucket
    · omega
    · rename_i hine
      have hfirst := hk.first_le hi hine
      omega

theorem last_toNat (hcount : t.count < 2 ^ 32) (hne : t.sizes.sum ≠ 0) :
    (BitVec.ofNat 32 (t.sizes.sum - 1)).toNat = t.sizes.sum - 1 := by
  rw [t.count_of_ne hne] at hcount
  rw [BitVec.toNat_ofNat, Nat.mod_eq_of_lt (by omega)]

section LastChain

variable {k : ℕ} (hbloom : t.bloomWords.toNat < 2 ^ 31) (hk : LastBucket t.sizes k)
include hbloom hk

/-- The walk starts at the last bucket with symbols, -/
theorem start_toNat : (maxSym l.mem l.scan - l.scan.gnuSymndx).toNat = first t.sizes k := by
  have hmax := l.maxSym_of_last hbloom hk
  rw [l.scan_gnuSymndx, BitVec.toNat_sub_of_le (BitVec.le_def.2 (by omega))]
  omega

/-- passes even words only, -/
theorem even_before {i : ℕ} (hlo : first t.sizes k ≤ i) (hhi : i + 1 < t.sizes.sum) :
    l.mem.u32 (l.scan.chains + 4 * i) &&& 1 = 0 := by
  rw [l.chains_eq hbloom, l.table.chain i (by omega), hk.isLast_iff hlo]
  omega

/-- and comes to the odd one of the very last symbol. -/
theorem odd_last : l.mem.u32 (l.scan.chains + 4 * (t.sizes.sum - 1)) &&& 1 ≠ 0 := by
  have hstarts := hk.starts
  rw [Ne, l.chains_eq hbloom, l.table.chain _ (by omega), hk.isLast_iff (by omega)]
  omega

variable (hcount : t.count < 2 ^ 32)
include hcount

theorem chainEnd_last {turns : ℕ} (hturns : t.sizes.sum < turns) :
    chainEnd l.mem l.scan.chains turns (maxSym l.mem l.scan - l.scan.gnuSymndx) =
      some (BitVec.ofNat 32 (t.sizes.sum - 1)) := by
  have hstarts := hk.starts
  have hlast := last_toNat hcount (by omega)
  have hstart := l.start_toNat hbloom hk
  refine chainEnd_eq (by rw [hlast]; exact l.odd_last hbloom hk)
    (t.sizes.sum - 1 - first t.sizes k) turns _ (by omega) (by omega) fun i hlo hhi => ?_
  exact l.even_before hbloom hk (by omega) (by omega)

theorem symbolCount_last {turns : ℕ} (hturns : t.sizes.sum < turns) :
    symbolCount l.mem l.scan turns = some t.count := by
  have hstarts := hk.starts
  have hne : t.sizes.sum ≠ 0 := by omega
  have hmax := l.maxSym_of_last hbloom hk
  have hlast := last_toNat hcount hne
  have hchain := l.chainEnd_last hbloom hk hcount hturns
  have hbuckets : l.scan.gnuBuckets ≠ 0 := by
    rw [l.gnuBuckets_eq hbloom, Table.bucketsAt]
    omega
  rw [t.count_of_ne hne] at hcount
  have hsum : (t.symndx + BitVec.ofNat 32 (t.sizes.sum - 1) + 1).toNat = t.count := by
    rw [t.count_of_ne hne, BitVec.toNat_add, BitVec.toNat_add, hlast]
    have hone : (1 : BitVec 32).toNat = 1 := rfl
    omega
  have hreached : maxSym l.mem l.scan ≥ l.scan.gnuSymndx := by
    rw [l.scan_gnuSymndx, ge_iff_le, BitVec.le_def]
    omega
  rw [symbolCount, if_pos ⟨l.scan_nchain, hbuckets⟩, if_pos hreached, hchain, Option.map_some,
    l.scan_gnuSymndx, hsum]

theorem inside_last (turns : ℕ) : ∀ a ∈ chainReads l.mem l.scan.chains turns
    (maxSym l.mem l.scan - l.scan.gnuSymndx), ∃ j < t.sizes.sum, a = l.gh + t.chainsAt + 4 * j := by
  intro a ha
  have hstarts := hk.starts
  have hlast := last_toNat hcount (by omega)
  have hstart := l.start_toNat hbloom hk
  obtain ⟨i, -, hhi, rfl⟩ := chainReads_le (by rw [hlast]; exact l.odd_last hbloom hk) turns _
    (by omega) a ha
  exact ⟨i, by omega, by rw [l.chains_eq hbloom]⟩

end LastChain

/-- No walk where no bucket comes up to `symndx`. -/
theorem symbolCount_of_zero (hmax : maxSym l.mem l.scan = 0) (turns : ℕ) :
    ¬ maxSym l.mem l.scan ≥ l.scan.gnuSymndx ∧ symbolCount l.mem l.scan turns = some 0 := by
  have hpos := t.symndx_pos
  have hnot : ¬ maxSym l.mem l.scan ≥ l.scan.gnuSymndx := by
    have hzero : (0 : BitVec 32).toNat = 0 := rfl
    rw [hmax, l.scan_gnuSymndx, ge_iff_le, BitVec.le_def]
    omega
  refine ⟨hnot, ?_⟩
  rw [symbolCount, if_neg hnot, l.scan_nchain, ite_self]

/-! ## §7  What is listed -/

theorem exportOf_eq (sym : Sym) : exportOf l.mem l.addr l.strtab sym =
    if l.Exported sym then some (exportInfo l.addr (l.nameOf sym) sym) else none := by
  unfold exportOf Exported nameOf
  split_ifs <;> grind

theorem moduleExports_eq {turns : ℕ} (h : symbolCount l.mem l.scan turns = some t.count) :
    moduleExports l.mem turns l.info = some l.listing := by
  have hscan : scanDynamic l.mem l.dynamic = l.scan := rfl
  simp only [moduleExports, info, hscan, scan_symtab, scan_strtab, l.symtab_ne, l.strtab_ne,
    or_self, if_false, h, Option.map_some, l.exportOf_eq, listing]
  congr 1
  induction List.range t.count with
  | nil => rfl
  | cons i rest ih =>
    rw [List.filterMap_cons, List.map_cons, List.filter_cons, ih]
    by_cases hexported : l.Exported (symAt l.mem l.symtab i) <;> simp [hexported]

theorem enumerateExports_eq (turns : ℕ) :
    enumerateExports l.mem turns l.moduleName l.modules = moduleExports l.mem turns l.info := by
  have hbefore : ∀ before : List DlPhdrInfo, (∀ info ∈ before, ¬ info.Named l.moduleName) →
      enumerateExports l.mem turns l.moduleName (before ++ l.info :: l.after) =
        moduleExports l.mem turns l.info := by
    intro before hunnamed
    induction before with
    | nil => exact if_pos l.named
    | cons other rest ih =>
      rw [List.cons_append, enumerateExports, if_neg (hunnamed other List.mem_cons_self)]
      exact ih fun info hinfo => hunnamed info (List.mem_cons_of_mem _ hinfo)
  exact hbefore l.before l.unnamed

/-- Where 32 bits are enough, the count and the listing are right. -/
theorem exact_of_fits (hbloom : t.bloomWords.toNat < 2 ^ 31) (hcount : t.count < 2 ^ 32) :
    l.Exact := by
  have hlisted : ∀ turns, symbolCount l.mem l.scan turns = some t.count →
      enumerateExports l.mem turns l.moduleName l.modules = some l.listing := fun turns h =>
    (l.enumerateExports_eq turns).trans (l.moduleExports_eq h)
  by_cases hempty : t.sizes.sum = 0
  · have hzero := l.symbolCount_of_zero (l.maxSym_of_empty hbloom hempty)
    have hcounts : ∀ turns ≥ 0, symbolCount l.mem l.scan turns = some t.count := by
      intro turns _
      rw [Table.count, if_pos hempty]
      exact (hzero turns).2
    exact ⟨⟨0, hcounts⟩, fun hmax => absurd hmax (hzero 0).1,
      0, fun turns hturns => hlisted turns (hcounts turns hturns)⟩
  · obtain ⟨k, hk⟩ := exists_lastBucket hempty
    have hcounts : ∀ turns ≥ t.sizes.sum + 1, symbolCount l.mem l.scan turns = some t.count :=
      fun turns hturns => l.symbolCount_last hbloom hk hcount hturns
    exact ⟨⟨_, hcounts⟩, fun _ turns => l.inside_last hbloom hk hcount turns,
      _, fun turns hturns => hlisted turns (hcounts turns hturns)⟩

end Loaded

/-! ## §8  Where they are too few -/

theorem symbolCount_lt {t : Table} (l : Loaded t) {turns c : ℕ}
    (h : symbolCount l.mem l.scan turns = some c) : c < 2 ^ 32 := by
  rw [symbolCount, l.scan_nchain] at h
  split_ifs at h
  · obtain ⟨idx, -, rfl⟩ := Option.map_eq_some_iff.1 h
    exact BitVec.isLt _
  all_goals
    cases h
    omega

namespace Table

variable (t : Table) (bloom : ℕ → BitVec 32)

/-- The table at address 0, with any bloom filter. -/
def memory : Memory where
  u32 a :=
    if a / 4 = 0 then BitVec.ofNat 32 t.sizes.length
    else if a / 4 = 1 then t.symndx
    else if a / 4 = 2 then t.bloomWords
    else if a / 4 < 4 + 2 * t.bloomWords.toNat then bloom (a / 4)
    else if a / 4 < 4 + 2 * t.bloomWords.toNat + t.sizes.length then
      BitVec.ofNat 32 (t.bucket (a / 4 - (4 + 2 * t.bloomWords.toNat)))
    else if IsLast t.sizes (a / 4 - (4 + 2 * t.bloomWords.toNat + t.sizes.length)) then 1
    else 0
  sym _ := ⟨0, 0, 0, 0⟩
  str _ := ""

theorem memory_bloom {i : ℕ} (hlo : 2 < i) (hhi : i < 4 + 2 * t.bloomWords.toNat) :
    (t.memory bloom).u32 (4 * i) = bloom i := by
  simp only [memory, Nat.mul_div_cancel_left i (show 0 < 4 by omega)]
  rw [if_neg (by omega), if_neg (by omega), if_neg (by omega), if_pos hhi]

theorem bucket_lt {i : ℕ} (h : i < t.sizes.length) : t.bucket i < 2 ^ 32 := by
  rw [t.bucket_of_lt h]
  split
  · omega
  · exact t.fits i h ‹_›

theorem memory_at : t.At (t.memory bloom) 0 := by
  refine ⟨?_, rfl, rfl, fun i hi => ?_, fun j hj => ?_⟩
  · have hlt := t.buckets_lt
    exact Nat.mod_eq_of_lt hlt
  · have hdiv : (0 + t.bucketsAt + 4 * i) / 4 = 4 + 2 * t.bloomWords.toNat + i := by
      rw [bucketsAt]
      omega
    have hsub : 4 + 2 * t.bloomWords.toNat + i - (4 + 2 * t.bloomWords.toNat) = i := by omega
    simp only [memory, hdiv]
    rw [if_neg (by omega), if_neg (by omega), if_neg (by omega), if_neg (by omega),
      if_pos (by omega), hsub]
    exact Nat.mod_eq_of_lt (t.bucket_lt hi)
  · have hdiv : (0 + t.chainsAt + 4 * j) / 4 =
        4 + 2 * t.bloomWords.toNat + t.sizes.length + j := by
      rw [chainsAt, bucketsAt]
      omega
    have hsub : 4 + 2 * t.bloomWords.toNat + t.sizes.length + j -
        (4 + 2 * t.bloomWords.toNat + t.sizes.length) = j := by omega
    simp only [memory, hdiv]
    rw [if_neg (by omega), if_neg (by omega), if_neg (by omega), if_neg (by omega),
      if_neg (by omega), hsub]
    split <;> simp_all

/-- A module with this table and no symbols of note. -/
def loaded : Loaded t where
  mem := t.memory bloom
  dynamic := [⟨.symtab, 8⟩, ⟨.strtab, 8⟩, ⟨.gnuHash, 0⟩]
  gh := 0
  symtab := 8
  strtab := 8
  name := some "lib.so"
  addr := 0
  moduleName := "lib.so"
  before := []
  after := []
  table := t.memory_at bloom
  noHash := by simp
  gnuHash := by simp [Points]
  symbols := by simp [Points]
  symtab_ne := by simp
  strings := by simp [Points]
  strtab_ne := by simp
  named := .inr rfl
  unnamed := by simp

end Table

section TooFew

variable {t : Table} (hbloom : 2 ^ 31 ≤ t.bloomWords.toNat)
include hbloom

/-- Twice the bloom words lose 2 to the 32, -/
theorem doubled_toNat : (t.bloomWords * 2).toNat + 2 ^ 32 = 2 * t.bloomWords.toNat := by
  have hlt := t.bloomWords.isLt
  have htwo : (2 : BitVec 32).toNat = 2 := rfl
  rw [BitVec.toNat_mul, htwo]
  omega

/-- and words of the bloom filter are taken for the buckets. -/
theorem bucket_in_bloom (bloom : ℕ → BitVec 32) {i : ℕ} (hi : i < t.sizes.length) :
    (t.loaded bloom).mem.u32 ((t.loaded bloom).scan.gnuBuckets + 4 * i) =
      bloom (4 + (t.bloomWords * 2).toNat + i) := by
  have hdoubled := doubled_toNat hbloom
  have hlt := t.buckets_lt
  have haddr : (t.loaded bloom).scan.gnuBuckets + 4 * i =
      4 * (4 + (t.bloomWords * 2).toNat + i) := by
    rw [(t.loaded bloom).scan_eq]
    simp only [Table.loaded]
    omega
  rw [haddr]
  exact t.memory_bloom bloom (by omega) (by omega)

/-- With hashed symbols, a filter of zeros hides them all. -/
theorem symbols_hidden (turns : ℕ) :
    symbolCount (t.loaded fun _ => 0).mem (t.loaded fun _ => 0).scan turns = some 0 := by
  refine ((t.loaded fun _ => 0).symbolCount_of_zero ?_ turns).2
  rcases (maxSym_spec (t.loaded fun _ => 0).mem (t.loaded fun _ => 0).scan).2 with
    hzero | ⟨i, hi, hmax⟩
  · exact hzero
  · rw [Loaded.scan_gnuNbuckets] at hi
    rw [hmax, bucket_in_bloom hbloom _ hi]

theorem hidden_not_exact (hne : t.sizes.sum ≠ 0) : ¬ (t.loaded fun _ => 0).Exact := by
  intro h
  obtain ⟨enough, hcount⟩ := h.count
  have hzero := Option.some.inj ((symbols_hidden hbloom enough).symm.trans (hcount enough le_rfl))
  rw [t.count_of_ne hne] at hzero
  omega

/-- Without, a word of the filter starts a walk, and there are no chains. -/
theorem walk_astray (hempty : t.sizes.sum = 0) :
    ¬ (t.loaded fun _ => t.symndx).Exact := by
  intro h
  have hlen : 0 < t.sizes.length := List.length_pos_of_ne_nil t.buckets
  have hmax := (maxSym_spec (t.loaded fun _ => t.symndx).mem (t.loaded fun _ => t.symndx).scan).1 0
    (by rwa [Loaded.scan_gnuNbuckets])
  rw [bucket_in_bloom hbloom _ hlen] at hmax
  obtain ⟨j, hj, -⟩ := h.inside (by rwa [Loaded.scan_gnuSymndx]) 1 _ List.mem_cons_self
  omega

theorem not_exact_of_bloom : ∃ l : Loaded t, ¬ l.Exact := by
  by_cases hempty : t.sizes.sum = 0
  · exact ⟨_, walk_astray hbloom hempty⟩
  · exact ⟨_, hidden_not_exact hbloom hempty⟩

end TooFew

/-- **Counts of 32 bits.** For any number of buckets and any symbols in them, all modules with
such a table are enumerated right exactly when the bloom filter has less than 2 to the 31 words
and the symbols can be counted in 32 bits. -/
theorem exports_exact_iff (t : Table) :
    (∀ l : Loaded t, l.Exact) ↔ t.bloomWords.toNat < 2 ^ 31 ∧ t.count < 2 ^ 32 := by
  constructor
  · intro hall
    constructor
    · by_contra hbloom
      obtain ⟨l, hl⟩ := not_exact_of_bloom (Nat.le_of_not_lt hbloom)
      exact hl (hall l)
    · obtain ⟨enough, hcount⟩ := (hall (t.loaded fun _ => 0)).count
      exact symbolCount_lt _ (hcount enough le_rfl)
  · rintro ⟨hbloom, hcount⟩ l
    exact l.exact_of_fits hbloom hcount

section Concrete

/-- One bucket with one symbol behind a filter of 2 to the 31 words. -/
def largeFilter : Table where
  symndx := 1
  bloomWords := 2147483648
  sizes := [1]
  symndx_pos := by decide
  buckets := by decide
  buckets_lt := by decide
  fits := by simp [first]

/-- Nothing is counted: the buckets are looked for at the start of the filter. -/
theorem largeFilter_hidden :
    largeFilter.count = 2 ∧
      (∀ turns, symbolCount (largeFilter.loaded fun _ => 0).mem
        (largeFilter.loaded fun _ => 0).scan turns = some 0) ∧
      ¬ (largeFilter.loaded fun _ => 0).Exact := by
  have hbloom : 2 ^ 31 ≤ largeFilter.bloomWords.toNat := by decide
  exact ⟨rfl, symbols_hidden hbloom, hidden_not_exact hbloom (by decide)⟩

end Concrete

end ExportTable

end Chromatic
