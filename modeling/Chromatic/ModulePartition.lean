import Chromatic.ProcessMaps
import Mathlib.Order.Bounds.Basic

/-!
# Modules partition the file mappings

What the loop of `enumerateModules` makes of any sequence of lines, told without the loop:
the files in the order of their first lines, and of each file what its lines add up to.

§1 the lines of a file · §2 a turn of the loop · §3 the list of modules.
-/

namespace Chromatic

namespace ProcessMaps

/-! ## §1  The lines of a file -/

/-- The line maps a file. -/
def FileBacked (l : MapsLine) : Prop := l.pathname.head? = some '/'

instance (l : MapsLine) : Decidable (FileBacked l) := by
  unfold FileBacked; infer_instance

/-- The files, each where its first line stands. -/
def filePaths (ls : List MapsLine) : List (List Char) :=
  ((ls.filter FileBacked).map (·.pathname)).eraseDups

/-- The lines of a file, in the order of the table. -/
def linesOf (ls : List MapsLine) (path : List Char) : List MapsLine :=
  ls.filter fun l => l.pathname = path

/-- The module is what the lines `own` of its file add up to. -/
structure LinuxModInfo.Summarises (m : LinuxModInfo) (own : List MapsLine) : Prop where
  name : m.name = basename m.path
  segments : m.segments = own.map (·.segment)
  base : IsLeast (MapsLine.start '' {l | l ∈ own}) m.base
  stop : IsGreatest (MapsLine.stop '' {l | l ∈ own}) m.stop

section Lines

variable {l : MapsLine} {ls own : List MapsLine} {m : LinuxModInfo} {path : List Char}

theorem linesOf_concat_of_eq (h : l.pathname = path) :
    linesOf (ls ++ [l]) path = linesOf ls path ++ [l] := by
  rw [linesOf, filter_concat, if_pos h, linesOf]

theorem linesOf_concat_of_ne (h : l.pathname ≠ path) :
    linesOf (ls ++ [l]) path = linesOf ls path := by
  rw [linesOf, filter_concat, if_neg h, List.append_nil, linesOf]

theorem mem_filePaths : path ∈ filePaths ls ↔ ∃ l ∈ ls, FileBacked l ∧ l.pathname = path := by
  simp [filePaths, and_assoc]

/-- The path of a further line is new at most once. -/
theorem filePaths_concat (h : FileBacked l) :
    filePaths (ls ++ [l]) =
      filePaths ls ++ if l.pathname ∈ filePaths ls then [] else [l.pathname] := by
  unfold filePaths
  rw [List.filter_append, List.map_append, List.eraseDups_append, List.filter_singleton,
    decide_eq_true h, cond_true, List.map_singleton]
  generalize (ls.filter FileBacked).map (·.pathname) = paths
  by_cases hseen : l.pathname ∈ paths
  · simp [hseen, List.removeAll]
  · simp [hseen, List.removeAll, List.eraseDups_cons]

theorem filePaths_concat_other (h : ¬ FileBacked l) : filePaths (ls ++ [l]) = filePaths ls := by
  unfold filePaths
  rw [List.filter_append, List.filter_singleton, decide_eq_false h, cond_false, List.append_nil]

/-- The first line of a file. -/
theorem summarises_singleton (l : MapsLine) :
    LinuxModInfo.Summarises ⟨basename l.pathname, l.pathname, l.start, l.stop, [l.segment]⟩
      [l] where
  name := rfl
  segments := rfl
  base := by simp
  stop := by simp

theorem setOf_mem_concat : {l' | l' ∈ own ++ [l]} = insert l {l' | l' ∈ own} := by
  ext l'
  simp [or_comm]

/-- A further line widens the module. -/
theorem LinuxModInfo.Summarises.extend (h : m.Summarises own) :
    (m.extend l).Summarises (own ++ [l]) where
  name := h.name
  segments := by
    rw [LinuxModInfo.extend_segments, h.segments, List.map_append, List.map_singleton]
  base := by
    have hmin : (m.extend l).base = min l.start m.base := (min_def_lt _ _).symm
    rw [hmin, setOf_mem_concat, Set.image_insert_eq]
    exact h.base.insert _
  stop := by
    have hmax : (m.extend l).stop = max l.stop m.stop := by
      rw [max_comm]
      exact (max_def_lt _ _).symm
    rw [hmax, setOf_mem_concat, Set.image_insert_eq]
    exact h.stop.insert _

end Lines

/-! ## §2  A turn of the loop -/

/-- The modules divide the file-backed lines among themselves. -/
structure Partitions (ls : List MapsLine) (modules : List LinuxModInfo) : Prop where
  distinct : (modules.map (·.path)).Nodup
  order : modules.map (·.path) = filePaths ls
  summary : ∀ m ∈ modules, m.Summarises (linesOf ls m.path)
  whole : (modules.flatMap (·.segments)).Perm ((ls.filter FileBacked).map (·.segment))

section Turn

variable {l : MapsLine} {ls : List MapsLine} {modules : List LinuxModInfo}

theorem Partitions.fileBacked (h : Partitions ls modules) :
    ∀ m ∈ modules, m.path.head? = some '/' := by
  intro m hm
  have hpath : m.path ∈ filePaths ls := h.order ▸ List.mem_map_of_mem hm
  obtain ⟨l, -, hl, heq⟩ := mem_filePaths.mp hpath
  exact heq ▸ hl

theorem Partitions.ignored (h : Partitions ls modules) (hother : ¬ FileBacked l) :
    Partitions (ls ++ [l]) modules where
  distinct := h.distinct
  order := by rw [filePaths_concat_other hother, h.order]
  summary m hm := by
    have hne : l.pathname ≠ m.path := by
      intro heq
      apply hother
      rw [FileBacked, heq]
      exact h.fileBacked m hm
    rw [linesOf_concat_of_ne hne]
    exact h.summary m hm
  whole := by
    rw [List.filter_append, List.filter_singleton, decide_eq_false hother, cond_false,
      List.append_nil]
    exact h.whole

theorem filter_concat_fileBacked (hfile : FileBacked l) :
    ((ls ++ [l]).filter FileBacked).map (·.segment) =
      (ls.filter FileBacked).map (·.segment) ++ [l.segment] := by
  rw [List.filter_append, List.filter_singleton, decide_eq_true hfile, cond_true,
    List.map_append, List.map_singleton]

theorem Partitions.updated {pre post : List LinuxModInfo} {m : LinuxModInfo}
    (h : Partitions ls (pre ++ m :: post)) (hpath : m.path = l.pathname) :
    Partitions (ls ++ [l]) (pre ++ m.extend l :: post) := by
  have hfile : FileBacked l := by
    have := h.fileBacked m (by simp)
    rwa [hpath] at this
  refine ⟨by simpa using h.distinct, ?_, ?_, ?_⟩
  · have hold : l.pathname ∈ filePaths ls := by
      rw [← h.order, ← hpath]
      exact List.mem_map_of_mem (by simp)
    rw [filePaths_concat hfile, if_pos hold, List.append_nil, ← h.order]
    simp
  · -- the paths differ, so the other modules are those of other lines
    have hdistinct := h.distinct
    rw [List.map_append, List.map_cons, List.nodup_middle, List.nodup_cons, ← List.map_append]
      at hdistinct
    intro m' hm'
    rcases List.mem_cons.mp (List.perm_middle.mem_iff.mp hm') with rfl | hrest
    · rw [LinuxModInfo.extend_path, linesOf_concat_of_eq hpath.symm]
      exact (h.summary m (by simp)).extend
    · have hne : l.pathname ≠ m'.path := by
        intro heq
        apply hdistinct.1
        rw [hpath, heq]
        exact List.mem_map_of_mem hrest
      rw [linesOf_concat_of_ne hne]
      exact h.summary m' (List.perm_middle.mem_iff.mpr (List.mem_cons_of_mem _ hrest))
  · rw [filter_concat_fileBacked hfile]
    refine List.Perm.trans ?_ (h.whole.append_right _)
    simp only [List.flatMap_append, List.flatMap_cons, LinuxModInfo.extend_segments,
      List.append_assoc]
    apply List.Perm.append_left
    apply List.Perm.append_left
    exact List.perm_append_comm

theorem Partitions.added (h : Partitions ls modules) (hfile : FileBacked l)
    (hnone : ∀ m ∈ modules, m.path ≠ l.pathname) :
    Partitions (ls ++ [l])
      (modules ++ [⟨basename l.pathname, l.pathname, l.start, l.stop, [l.segment]⟩]) := by
  have hnew : l.pathname ∉ filePaths ls := by
    rw [← h.order]
    intro hmem
    obtain ⟨m, hm, heq⟩ := List.mem_map.mp hmem
    exact hnone m hm heq
  refine ⟨?_, ?_, ?_, ?_⟩
  · rw [List.map_append, List.map_singleton, List.nodup_append]
    refine ⟨h.distinct, List.nodup_singleton _, ?_⟩
    intro path hpath other hother heq
    obtain rfl := heq.trans (List.mem_singleton.mp hother)
    exact hnew (h.order ▸ hpath)
  · rw [filePaths_concat hfile, if_neg hnew, List.map_append, h.order, List.map_singleton]
  · intro m hm
    rcases List.mem_append.mp hm with hold | hlast
    · rw [linesOf_concat_of_ne (hnone m hold).symm]
      exact h.summary m hold
    · obtain rfl := List.mem_singleton.mp hlast
      have hfirst : linesOf ls l.pathname = [] := by
        apply List.filter_eq_nil_iff.mpr
        intro l' hl'
        rw [decide_eq_true_eq]
        intro heq
        have hfile' : FileBacked l' := by
          rw [FileBacked, heq]
          exact hfile
        exact hnew (mem_filePaths.mpr ⟨l', hl', hfile', heq⟩)
      rw [linesOf_concat_of_eq rfl, hfirst, List.nil_append]
      exact summarises_singleton l
  · rw [filter_concat_fileBacked hfile, List.flatMap_append, List.flatMap_singleton]
    exact h.whole.append_right _

theorem Partitions.addLine (h : Partitions ls modules) (l : MapsLine) :
    Partitions (ls ++ [l]) (addLine modules l) := by
  rcases addLine_cases h.fileBacked l with
    ⟨hother, heq⟩ | ⟨pre, m, post, rfl, hpath, heq⟩ | ⟨hfile, hnone, heq⟩
  · rw [heq]
    exact h.ignored hother
  · rw [heq]
    exact h.updated hpath
  · rw [heq]
    exact h.added hfile hnone

/-- **The loop divides the lines among the modules.** -/
theorem partitions_foldl (ls : List MapsLine) : Partitions ls (ls.foldl addLine []) := by
  induction ls using List.reverseRecOn with
  | nil => exact ⟨List.nodup_nil, rfl, by simp, List.Perm.nil⟩
  | append_singleton ls l ih =>
      rw [List.foldl_append]
      exact ih.addLine l

end Turn

/-! ## §3  The list of modules -/

section Modules

/-- What the kernel prints does not wrap. -/
theorem segment_eq {l : MapsLine} (hle : l.start ≤ l.stop) (hlt : l.stop < 2 ^ 64) :
    l.segment = ⟨l.start, l.stop - l.start⟩ := by
  rw [MapsLine.segment, SegmentInfo.mk.injEq]
  exact ⟨rfl, by omega⟩

/-- A line is in the module of its file and in no other. -/
theorem Partitions.existsUnique {ls : List MapsLine} {modules : List LinuxModInfo}
    (h : Partitions ls modules) {l : MapsLine} (hl : l ∈ ls) (hfile : FileBacked l) :
    ∃! m, m ∈ modules ∧ l ∈ linesOf ls m.path := by
  have hpath : l.pathname ∈ modules.map (·.path) := by
    rw [h.order]
    exact mem_filePaths.mpr ⟨l, hl, hfile, rfl⟩
  obtain ⟨m, hm, heq⟩ := List.mem_map.mp hpath
  have hown : ∀ m' : LinuxModInfo, l ∈ linesOf ls m'.path ↔ l.pathname = m'.path := by
    intro m'
    simp [linesOf, hl]
  refine ⟨m, ⟨hm, (hown m).mpr heq.symm⟩, ?_⟩
  rintro m' ⟨hm', hmem⟩
  exact List.inj_on_of_nodup_map h.distinct hm' hm (((hown m').mp hmem).symm.trans heq.symm)

/-- Modules partition the file mappings. -/
theorem enumerateModules_partition (ls : List MapsLine) :
    ((ls.foldl addLine []).map (·.path)).Nodup ∧
    (ls.foldl addLine []).map (·.path) = filePaths ls ∧
    (∀ m ∈ ls.foldl addLine [], m.Summarises (linesOf ls m.path)) ∧
    (∀ l ∈ ls, l.start ≤ l.stop → l.stop < 2 ^ 64 →
      l.segment = ⟨l.start, l.stop - l.start⟩) ∧
    (∀ l ∈ ls, FileBacked l → ∃! m, m ∈ ls.foldl addLine [] ∧ l ∈ linesOf ls m.path) ∧
    ((ls.foldl addLine []).flatMap (·.segments)).Perm
      ((ls.filter FileBacked).map (·.segment)) := by
  have h := partitions_foldl ls
  refine ⟨h.distinct, h.order, h.summary, ?_, ?_, h.whole⟩
  · intro l _ hle hlt
    exact segment_eq hle hlt
  · intro l hl hfile
    exact h.existsUnique hl hfile

end Modules

end ProcessMaps

end Chromatic
