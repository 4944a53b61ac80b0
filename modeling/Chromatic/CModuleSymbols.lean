import Chromatic.State

/-!
# The symbols of a C module

`listSymbols` filters the raw names of the compiler's symbol table and takes the prefix of macOS
off them; the constructor of `CModule` looks what is left up again and makes it properties. The
compiler is a parameter: its table, the prefix on macOS and the lookup by C name.

§1 the injected names · §2 a compiled module · §3 `listSymbols` · §4 the constructor · §5 the
loop over the names · §6 which symbols are reachable.
-/

namespace Chromatic

open Foundation

namespace CModuleSymbols

abbrev Name : Type := List Char

/-! ## §1  The injected names -/

/-- The functions of `SYM` and `SYMC`. -/
def runtimeFunctions : List Name :=
  ["memcpy", "memmove", "memset", "memcmp", "memchr", "strlen", "strcpy", "strncpy", "strcmp",
    "strncmp", "strcat", "strncat", "strchr", "strrchr", "strstr",
    "printf", "fprintf", "snprintf", "sprintf", "puts", "putchar", "fopen", "fclose", "fread",
    "fwrite", "fflush", "fgets", "fputs",
    "malloc", "calloc", "realloc", "free", "atoi", "atol", "atof", "strtol", "strtoul", "strtod",
    "abort", "exit", "abs", "labs", "qsort",
    "sin", "cos", "tan", "sqrt", "fabs", "floor", "ceil", "pow", "log", "log10",
    "exp"].map String.toList

def standardStreams (os : Os) : List Name :=
  if os = .darwin then ["___stdinp", "___stdoutp", "___stderrp"].map String.toList
  else ["stdin", "stdout", "stderr"].map String.toList

/-- The names that are given to `tcc_add_symbol`. -/
def runtimeNames (os : Os) : List Name := runtimeFunctions ++ standardStreams os

/-- `injectedSymbols`: each name with an underscore in front, too. -/
def injectedSymbols (os : Os) : List Name :=
  (runtimeNames os).flatMap fun name => [name, '_' :: name]

/-! ## §2  A compiled module -/

/-- The raw name of a C symbol. -/
def rawName (os : Os) (name : Name) : Name := if os = .darwin then '_' :: name else name

/-- What `tcc_list_symbols` lists, in this order, and which of it the script's source defines;
`generated` is the linker's. -/
structure Compiled where
  os : Os
  listed : List (Name × Addr)
  generated : List Name
  user : List (Name × Addr)
  distinct : (listed.map (·.1)).Nodup
  defined : ∀ s ∈ user, (rawName os s.1, s.2) ∈ listed ∧ s.2 ≠ 0
  own : ∀ s ∈ user, s.1 ∉ runtimeNames os ∧ rawName os s.1 ∉ generated

/-- `tcc_get_symbol`, 0 if there is none. -/
def Compiled.getSymbol (m : Compiled) (name : Name) : Addr :=
  ((m.listed.find? fun s => s.1 = rawName m.os name).map (·.2)).getD 0

/-! ## §3  listSymbols -/

def internalPrefixes : List Name :=
  ["_etext", "_edata", "_end", "__preinit_array", "__init_array", "__fini_array", "__start_",
    "__stop_"].map String.toList

/-- The prefix of macOS is taken off on every platform. -/
def stripped : Name → Name
  | '_' :: name => name
  | name => name

/-- The name is none of the linker's, judging by how it starts. -/
def NotInternal (name : Name) : Prop := ∀ p ∈ internalPrefixes, ¬ p <+: name

instance (name : Name) : Decidable (NotInternal name) :=
  List.decidableBAll _ _

/-- What is not skipped. -/
def Kept (os : Os) (name : Name) : Prop :=
  name ∉ injectedSymbols os ∧ NotInternal (stripped name) ∧ NotInternal name

instance (os : Os) (name : Name) : Decidable (Kept os name) :=
  inferInstanceAs (Decidable (_ ∧ _ ∧ _))

def Compiled.kept (m : Compiled) : List Name := (m.listed.map (·.1)).filter fun r => Kept m.os r

def Compiled.listSymbols (m : Compiled) : List Name := m.kept.map stripped

/-! ## §4  The constructor -/

/-- What the field `_native` holds. -/
inductive Native where
  | nativeModule
  | pointer (a : Addr)
deriving DecidableEq, Repr

/-- The object under construction: the field and the other properties. -/
structure Instance where
  native : Native
  props : Name → Option Addr

def nativeField : Name := "_native".toList

/-- `this[name] = sym`. -/
def Instance.assign (inst : Instance) (name : Name) (sym : Addr) : Instance :=
  if name = nativeField then { inst with native := .pointer sym }
  else { inst with props := Function.update inst.props name (some sym) }

/-- The pointer that the script reads at a name. -/
def Instance.read (inst : Instance) (name : Name) : Option Addr :=
  if name = nativeField then
    match inst.native with
    | .nativeModule => none
    | .pointer a => some a
  else inst.props name

/-- The loop over the names. A pointer has no method `getSymbol`. -/
def expose (m : Compiled) : List Name → Instance → Except String Instance
  | [], inst => .ok inst
  | name :: names, inst =>
    match inst.native with
    | .pointer _ => .error "TypeError: not a function"
    | .nativeModule =>
      let sym := m.getSymbol name
      expose m names (if sym = 0 then inst else inst.assign name sym)

/-- Before the loop. -/
def newInstance : Instance := ⟨.nativeModule, fun _ => none⟩

def construct (m : Compiled) : Except String Instance := expose m m.listSymbols newInstance

/-- Every symbol of the source is read under its name, and what is read is a symbol. -/
structure Reachable (m : Compiled) (inst : Instance) : Prop where
  exposed : ∀ s ∈ m.user, inst.read s.1 = some s.2
  only : ∀ name a, inst.read name = some a → (rawName m.os name, a) ∈ m.listed

/-! ## §5  The loop over the names -/

section Loop

variable {m : Compiled} {inst : Instance} {name : Name} {names : List Name} {a : Addr}

/-- A symbol that is found is listed under its raw name. -/
theorem mem_of_getSymbol (h : m.getSymbol name = a) (hne : a ≠ 0) :
    (rawName m.os name, a) ∈ m.listed := by
  unfold Compiled.getSymbol at h
  cases hfound : m.listed.find? (fun s => s.1 = rawName m.os name) with
  | none =>
      rw [hfound] at h
      exact absurd h.symm hne
  | some s =>
      rw [hfound] at h
      have hraw : s.1 = rawName m.os name := by simpa using List.find?_some hfound
      rw [← hraw, ← show s.2 = a from h]
      exact List.mem_of_find?_eq_some hfound

theorem getSymbol_of_mem (h : (rawName m.os name, a) ∈ m.listed) : m.getSymbol name = a := by
  unfold Compiled.getSymbol
  cases hfound : m.listed.find? (fun s => s.1 = rawName m.os name) with
  | none =>
      have hother := List.find?_eq_none.mp hfound _ h
      exact absurd (decide_eq_true rfl) hother
  | some s =>
      have hraw : s.1 = rawName m.os name := by simpa using List.find?_some hfound
      have hsame := List.inj_on_of_nodup_map m.distinct (List.mem_of_find?_eq_some hfound) h hraw
      rw [hsame]
      rfl

theorem read_assign (inst : Instance) (name other : Name) (sym : Addr) :
    (inst.assign name sym).read other = if other = name then some sym else inst.read other := by
  unfold Instance.assign Instance.read
  by_cases hfield : name = nativeField
  · subst hfield
    by_cases hother : other = nativeField <;> simp [hother]
  · by_cases hother : other = name
    · subst hother
      simp [hfield]
    · simp [hfield, hother, Function.update_of_ne]

theorem native_assign (h : inst.native = .nativeModule) (hname : name ≠ nativeField) (sym : Addr) :
    (inst.assign name sym).native = .nativeModule := by
  rw [Instance.assign, if_neg hname, h]

/-- The field is not overwritten while there are names to look up. -/
def FieldSafe (m : Compiled) (names : List Name) : Prop :=
  ∀ pre post, names = pre ++ nativeField :: post → post = [] ∨ m.getSymbol nativeField = 0

theorem FieldSafe.tail (h : FieldSafe m (name :: names)) : FieldSafe m names := by
  rintro pre post rfl
  exact h (name :: pre) post rfl

/-- One turn of the loop. -/
theorem expose_cons (h : inst.native = .nativeModule) :
    expose m (name :: names) inst = expose m names
      (if m.getSymbol name = 0 then inst else inst.assign name (m.getSymbol name)) := by
  rw [expose, h]

/-- The names that are symbols become properties. -/
theorem expose_ok (h : inst.native = .nativeModule) (hsafe : FieldSafe m names) :
    ∃ inst', expose m names inst = .ok inst' ∧ ∀ other, inst'.read other =
      if other ∈ names ∧ m.getSymbol other ≠ 0 then some (m.getSymbol other)
      else inst.read other := by
  induction names generalizing inst with
  | nil => exact ⟨inst, rfl, by simp⟩
  | cons name names ih =>
      rw [expose_cons h]
      by_cases hsym : m.getSymbol name = 0
      · obtain ⟨inst', hok, hread⟩ := ih h hsafe.tail
        refine ⟨inst', by rw [if_pos hsym, hok], ?_⟩
        intro other
        simp only [hread, List.mem_cons]
        by_cases hother : other = name
        · subst hother
          simp [hsym]
        · simp [hother]
      · rw [if_neg hsym]
        by_cases hfield : name = nativeField
        · -- the last name
          obtain rfl : names = [] :=
            (hsafe [] names (by rw [hfield]; rfl)).resolve_right (hfield ▸ hsym)
          refine ⟨_, rfl, ?_⟩
          intro other
          simp only [read_assign, List.mem_singleton]
          by_cases hother : other = name
          · subst hother
            rw [if_pos rfl, if_pos ⟨rfl, hsym⟩]
          · simp [hother]
        · obtain ⟨inst', hok, hread⟩ := ih (native_assign h hfield _) hsafe.tail
          refine ⟨inst', hok, ?_⟩
          intro other
          simp only [hread, read_assign, List.mem_cons]
          by_cases hother : other = name
          · subst hother
            rw [if_pos rfl, ite_self, if_pos ⟨.inl rfl, hsym⟩]
          · simp [hother]

/-- With the field overwritten too early the constructor throws. -/
theorem expose_error (h : inst.native = .nativeModule) (hnot : ¬ FieldSafe m names) :
    ∃ e, expose m names inst = .error e := by
  simp only [FieldSafe, not_forall, not_or] at hnot
  obtain ⟨pre, post, rfl, hpost, hsym⟩ := hnot
  induction pre generalizing inst with
  | nil =>
      rw [List.nil_append, expose_cons h, if_neg hsym]
      cases post with
      | nil => exact absurd rfl hpost
      | cons next post => exact ⟨_, rfl⟩
  | cons name pre ih =>
      rw [List.cons_append, expose_cons h]
      split_ifs with hzero
      · exact ih h
      · by_cases hfield : name = nativeField
        · subst hfield
          cases hrest : pre ++ nativeField :: post with
          | nil => simp at hrest
          | cons next rest => exact ⟨_, rfl⟩
        · exact ih (native_assign h hfield _)

end Loop

/-! ## §6  Which symbols are reachable -/

/-- Each symbol of the source is what some listed name that is not skipped comes to without its
underscore, and if there is a symbol `_native`, nothing that is not skipped is listed behind
the name it comes from. -/
structure NamesKept (m : Compiled) : Prop where
  user : ∀ s ∈ m.user, ∃ r ∈ m.listed, Kept m.os r.1 ∧ stripped r.1 = s.1
  native : ∀ pre post, m.kept = pre ++ ('_' :: nativeField) :: post →
    post = [] ∨ m.getSymbol nativeField = 0

section Reachable

variable {m : Compiled} {name : Name}

theorem mem_listSymbols : name ∈ m.listSymbols ↔
    ∃ r ∈ m.listed, Kept m.os r.1 ∧ stripped r.1 = name := by
  simp only [Compiled.listSymbols, Compiled.kept, List.mem_map, List.mem_filter,
    decide_eq_true_eq]
  constructor
  · rintro ⟨raw, ⟨⟨r, hr, rfl⟩, hkept⟩, hname⟩
    exact ⟨r, hr, hkept, hname⟩
  · rintro ⟨r, hr, hkept, hname⟩
    exact ⟨r.1, ⟨⟨r, hr, rfl⟩, hkept⟩, hname⟩

/-- A raw name comes to itself or to what is behind its underscore. -/
theorem stripped_eq_cases {raw : Name} (h : stripped raw = name) :
    raw = '_' :: name ∨ raw = name ∧ ∀ rest, name ≠ '_' :: rest := by
  unfold stripped at h
  split at h
  · exact .inl (h ▸ rfl)
  · rename_i hnot
    exact .inr ⟨h, h ▸ hnot⟩

/-- To a name with an underscore in front only one raw name comes. -/
theorem stripped_eq_underscore {raw : Name} :
    stripped raw = '_' :: name ↔ raw = '_' :: '_' :: name := by
  constructor
  · intro h
    rcases stripped_eq_cases h with hraw | ⟨-, hnot⟩
    · exact hraw
    · exact absurd rfl (hnot name)
  · rintro rfl
    rfl

theorem fieldSafe_listSymbols : FieldSafe m m.listSymbols ↔
    ∀ pre post, m.kept = pre ++ ('_' :: nativeField) :: post →
      post = [] ∨ m.getSymbol nativeField = 0 := by
  constructor
  · intro h pre post heq
    have hmap : m.listSymbols = pre.map stripped ++ nativeField :: post.map stripped := by
      rw [Compiled.listSymbols, heq, List.map_append, List.map_cons]
      rfl
    exact (h _ _ hmap).imp_left List.map_eq_nil_iff.mp
  · intro h pre post heq
    obtain ⟨front, rest, hkept, rfl, hrest⟩ := List.map_eq_append_iff.mp heq
    obtain ⟨raw, back, rfl, hraw, rfl⟩ := List.map_eq_cons_iff.mp hrest
    rw [stripped_eq_underscore.mp hraw] at hkept
    exact (h _ _ hkept).imp_left fun hnil => by rw [hnil, List.map_nil]

/-- What is read of a module that could be constructed. -/
theorem construct_ok {inst : Instance} (hsafe : FieldSafe m m.listSymbols)
    (h : construct m = .ok inst) {a : Addr} :
    inst.read name = some a ↔ name ∈ m.listSymbols ∧ m.getSymbol name = a ∧ a ≠ 0 := by
  obtain ⟨inst', hok, hread⟩ := @expose_ok m newInstance _ rfl hsafe
  obtain rfl : inst' = inst := Except.ok.inj (hok.symm.trans h)
  have hempty : newInstance.read name = none := by
    unfold Instance.read
    split_ifs <;> rfl
  rw [hread, hempty]
  by_cases hsym : name ∈ m.listSymbols ∧ m.getSymbol name ≠ 0
  · rw [if_pos hsym, Option.some.injEq]
    constructor
    · rintro rfl
      exact ⟨hsym.1, rfl, hsym.2⟩
    · exact fun h => h.2.1
  · rw [if_neg hsym]
    constructor
    · intro hnone
      cases hnone
    · rintro ⟨hmem, rfl, hne⟩
      exact absurd ⟨hmem, hne⟩ hsym

theorem namesKept_of_reachable (h : ∃ inst, construct m = .ok inst ∧ Reachable m inst) :
    NamesKept m := by
  obtain ⟨inst, hok, hreach⟩ := h
  have hsafe : FieldSafe m m.listSymbols := by
    by_contra hnot
    obtain ⟨e, herror⟩ := @expose_error m newInstance _ rfl hnot
    cases hok.symm.trans herror
  refine ⟨?_, fieldSafe_listSymbols.mp hsafe⟩
  intro s hs
  exact mem_listSymbols.mp ((construct_ok hsafe hok).mp (hreach.exposed s hs)).1

/-- Without the prefix of macOS a name that starts with an underscore is lost, unless the name
with another one in front is listed. -/
theorem unreachable_of_underscore {a : Addr} (hs : ('_' :: name, a) ∈ m.user)
    (hnot : ∀ b, ('_' :: '_' :: name, b) ∉ m.listed) :
    ¬ ∃ inst, construct m = .ok inst ∧ Reachable m inst := by
  intro h
  obtain ⟨⟨raw, b⟩, hr, -, hname⟩ := (namesKept_of_reachable h).user _ hs
  obtain rfl : raw = '_' :: '_' :: name := stripped_eq_underscore.mp hname
  exact hnot b hr

/-- With it, a name is lost that starts like a linker's with the underscore in front. -/
theorem unreachable_of_internal {a : Addr} (hs : (name, a) ∈ m.user)
    (hinternal : ¬ NotInternal ('_' :: name)) (hnot : ∀ b, (name, b) ∉ m.listed) :
    ¬ ∃ inst, construct m = .ok inst ∧ Reachable m inst := by
  intro h
  obtain ⟨⟨raw, b⟩, hr, hkept, hname⟩ := (namesKept_of_reachable h).user _ hs
  rcases stripped_eq_cases hname with rfl | ⟨rfl, -⟩
  · exact hinternal hkept.2.2
  · exact hnot b hr

/-- **The symbols of a module are reachable when no name is lost and the field stays.** -/
theorem construct_reachable_iff (m : Compiled) :
    (∃ inst, construct m = .ok inst ∧ Reachable m inst) ↔ NamesKept m := by
  constructor
  · exact namesKept_of_reachable
  · intro h
    have hsafe := fieldSafe_listSymbols.mpr h.native
    obtain ⟨inst, hok, -⟩ := @expose_ok m newInstance _ rfl hsafe
    refine ⟨inst, hok, ?_, ?_⟩
    · intro s hs
      obtain ⟨hlisted, hne⟩ := m.defined s hs
      exact (construct_ok hsafe hok).mpr
        ⟨mem_listSymbols.mpr (h.user s hs), getSymbol_of_mem hlisted, hne⟩
    · intro name a hread
      obtain ⟨-, hsym, hne⟩ := (construct_ok hsafe hok).mp hread
      exact mem_of_getSymbol hsym hne

end Reachable

section Concrete

/-- `int _helper(void)`. -/
def helper : Compiled where
  os := .linux
  listed := [("_helper".toList, 0x1000)]
  generated := []
  user := [("_helper".toList, 0x1000)]
  distinct := List.nodup_singleton _
  defined := by simp [rawName]
  own := by
    rw [List.forall_mem_singleton]
    decide

/-- `int endgame(void)`. -/
def endgame : Compiled where
  os := .darwin
  listed := [("_endgame".toList, 0x1000)]
  generated := []
  user := [("endgame".toList, 0x1000)]
  distinct := List.nodup_singleton _
  defined := by simp [rawName]
  own := by
    rw [List.forall_mem_singleton]
    decide

/-- Functions that vanish. -/
theorem functions_vanish :
    (¬ ∃ inst, construct helper = .ok inst ∧ Reachable helper inst) ∧
    ¬ ∃ inst, construct endgame = .ok inst ∧ Reachable endgame inst := by
  constructor
  · exact unreachable_of_underscore List.mem_cons_self (by simp [helper])
  · exact unreachable_of_internal List.mem_cons_self (by decide) (by simp [endgame])

end Concrete

end CModuleSymbols

end Chromatic
