import Mathlib.Data.Set.BooleanAlgebra
import Mathlib.Order.CompletePartialOrder
import Mathlib.Data.Set.Piecewise
import Mathlib.Data.List.Perm.Basic

/-!
# Overlapping save-and-restore patches

A patch remembers what a store held on its footprint and is undone by writing
the remembered values back. Patches may overlap, so the order of undoing
matters: *unwinding* a list undoes its patches one after the other, the head
first.

§1 patches · §2 unwinding · §3 undoing out of order · §4 stores under patches.
-/

namespace Foundation

open Classical

variable {α β : Type*}

/-! ## §1  Patches -/

structure Patch (α β : Type*) where
  foot : Set α
  saved : α → β

noncomputable def Patch.undo (p : Patch α β) (m : α → β) : α → β :=
  p.foot.piecewise p.saved m

theorem Patch.undo_of_mem {p : Patch α β} {m : α → β} {a : α} (ha : a ∈ p.foot) :
    p.undo m a = p.saved a :=
  Set.piecewise_eq_of_mem _ _ _ ha

theorem Patch.undo_of_notMem {p : Patch α β} {m : α → β} {a : α} (ha : a ∉ p.foot) :
    p.undo m a = m a :=
  Set.piecewise_eq_of_notMem _ _ _ ha

/-- `m'` is `m` overwritten by a patch that saved what it found. -/
structure Patch.Applied (p : Patch α β) (m m' : α → β) : Prop where
  saved : ∀ a ∈ p.foot, p.saved a = m a
  outside : ∀ a ∉ p.foot, m' a = m a

theorem Patch.Applied.undo {p : Patch α β} {m m' : α → β} (h : p.Applied m m') :
    p.undo m' = m := by
  funext a
  by_cases ha : a ∈ p.foot
  · rw [Patch.undo_of_mem ha, h.saved a ha]
  · rw [Patch.undo_of_notMem ha, h.outside a ha]

theorem Patch.undo_comm {p q : Patch α β} (h : Disjoint p.foot q.foot)
    (m : α → β) : p.undo (q.undo m) = q.undo (p.undo m) := by
  funext a
  by_cases hp : a ∈ p.foot
  · have hq : a ∉ q.foot := Set.disjoint_left.mp h hp
    simp [Patch.undo_of_mem hp, Patch.undo_of_notMem hq]
  · by_cases hq : a ∈ q.foot
    · simp [Patch.undo_of_notMem hp, Patch.undo_of_mem hq]
    · simp [Patch.undo_of_notMem hp, Patch.undo_of_notMem hq]

/-! ## §2  Unwinding

Patches are named by the elements of a list, so that two patches with the same
contents are still two patches. A list of names is kept most recent first. -/

variable {ι : Type*}

noncomputable def unwind (patch : ι → Patch α β) (js : List ι) (m : α → β) : α → β :=
  js.foldl (fun m i => (patch i).undo m) m

variable {patch : ι → Patch α β} {js : List ι} {m : α → β}

@[simp] theorem unwind_nil : unwind patch [] m = m := rfl

@[simp] theorem unwind_cons {i : ι} :
    unwind patch (i :: js) m = unwind patch js ((patch i).undo m) := rfl

theorem unwind_append {ks : List ι} :
    unwind patch (js ++ ks) m = unwind patch ks (unwind patch js m) :=
  List.foldl_append

theorem unwind_congr {patch' : ι → Patch α β} (h : ∀ i ∈ js, patch i = patch' i) :
    unwind patch js m = unwind patch' js m := by
  induction js generalizing m with
  | nil => rfl
  | cons i js ih =>
      rw [unwind_cons, unwind_cons, h i List.mem_cons_self]
      exact ih fun k hk => h k (List.mem_cons_of_mem _ hk)

theorem undo_unwind_comm {p : Patch α β}
    (h : ∀ k ∈ js, Disjoint p.foot (patch k).foot) :
    p.undo (unwind patch js m) = unwind patch js (p.undo m) := by
  induction js generalizing m with
  | nil => rfl
  | cons k js ih =>
      rw [unwind_cons, unwind_cons, ih fun l hl => h l (List.mem_cons_of_mem _ hl),
        Patch.undo_comm (h k List.mem_cons_self)]

/-! ## §3  Undoing out of order -/

/-- `k` was applied after `i`. -/
def Later (js : List ι) (k i : ι) : Prop := [k, i].Sublist js

/-- No patch applied after `i` overlaps it. -/
def Uncovered (patch : ι → Patch α β) (js : List ι) (i : ι) : Prop :=
  ∀ k, Later js k i → Disjoint (patch i).foot (patch k).foot

theorem Uncovered.sublist {ks : List ι} {i : ι} (h : Uncovered patch js i)
    (hsub : ks.Sublist js) : Uncovered patch ks i :=
  fun k hk => h k (hk.trans hsub)

theorem Later.mem {k i : ι} (h : Later js k i) : k ∈ js :=
  h.subset List.mem_cons_self

theorem Later.ne {k i : ι} (h : Later js k i) (hnodup : js.Nodup) : k ≠ i := by
  have := h.nodup hnodup
  simpa using this

theorem later_of_mem_above {above below : List ι} {k i : ι} (hk : k ∈ above) :
    Later (above ++ i :: below) k i :=
  (List.singleton_sublist.mpr hk).append (List.singleton_sublist.mpr List.mem_cons_self)

/-- **Undo out of order.** A patch that no later one overlaps can be undone
before its turn. -/
theorem unwind_erase [DecidableEq ι] {i : ι} (hi : i ∈ js) (hu : Uncovered patch js i) :
    unwind patch (js.erase i) ((patch i).undo m) = unwind patch js m := by
  obtain ⟨above, below, -, rfl, herase⟩ := List.exists_erase_eq hi
  rw [herase, unwind_append, unwind_append, unwind_cons, undo_unwind_comm]
  exact fun k hk => hu k (later_of_mem_above hk)

/-- **Undo many out of order.** Uncovered patches may be undone first, in any
order among themselves. -/
theorem unwind_filter [DecidableEq ι] {is : List ι} :
    ∀ {js : List ι} {m : α → β}, js.Nodup → is.Nodup →
      (∀ i ∈ is, i ∈ js ∧ Uncovered patch js i) →
      unwind patch (js.filter (· ∉ is)) (unwind patch is m) = unwind patch js m := by
  induction is with
  | nil =>
      intro js m _ _ _
      simp
  | cons i is ih =>
      intro js m hnd hisnd hall
      obtain ⟨hnot, hisnd'⟩ := List.nodup_cons.mp hisnd
      obtain ⟨hi, hu⟩ := hall i List.mem_cons_self
      have rest := ih (m := (patch i).undo m) (hnd.erase i) hisnd' fun k hk => by
        have hki : k ≠ i := fun e => hnot (e ▸ hk)
        obtain ⟨hkjs, hku⟩ := hall k (List.mem_cons_of_mem _ hk)
        exact ⟨(List.mem_erase_of_ne hki).mpr hkjs, hku.sublist List.erase_sublist⟩
      have hfilter : (js.erase i).filter (· ∉ is) = js.filter (· ∉ i :: is) := by
        rw [hnd.erase_eq_filter, List.filter_filter]
        refine List.filter_congr fun k _ => ?_
        by_cases hk : k = i <;> simp [hk]
      rw [unwind_cons, ← hfilter, rest, unwind_erase hi hu]

/-! ## §4  Stores under patches -/

/-- A store with the patches in force on it, most recent first. -/
structure Patched (ι α β : Type*) where
  store : α → β
  patch : ι → Patch α β
  journal : List ι

/-- Undoing the patches in force would bring back `m₀`. -/
structure Patched.Unwinds (s : Patched ι α β) (m₀ : α → β) : Prop where
  nodup : s.journal.Nodup
  unwound : unwind s.patch s.journal s.store = m₀

/-- One step: nothing, a new patch, or the undoing of an uncovered one. -/
inductive PatchStep [DecidableEq ι] (s t : Patched ι α β) : Prop where
  | stay (store : t.store = s.store) (journal : t.journal = s.journal)
      (patch : ∀ k ∈ s.journal, t.patch k = s.patch k)
  | apply (i : ι) (fresh : i ∉ s.journal) (applied : (t.patch i).Applied s.store t.store)
      (journal : t.journal = i :: s.journal)
      (patch : ∀ k ∈ s.journal, t.patch k = s.patch k)
  | undo (i : ι) (live : i ∈ s.journal) (uncovered : Uncovered s.patch s.journal i)
      (store : t.store = (s.patch i).undo s.store) (journal : t.journal = s.journal.erase i)
      (patch : ∀ k ∈ s.journal, k ≠ i → t.patch k = s.patch k)

theorem PatchStep.unwinds [DecidableEq ι] {s t : Patched ι α β} {m₀ : α → β}
    (step : PatchStep s t) (h : s.Unwinds m₀) : t.Unwinds m₀ := by
  cases step with
  | stay hstore hjournal hpatch =>
      refine ⟨hjournal ▸ h.nodup, ?_⟩
      rw [hstore, hjournal, unwind_congr hpatch, h.unwound]
  | apply i hfresh happlied hjournal hpatch =>
      refine ⟨hjournal ▸ List.nodup_cons.mpr ⟨hfresh, h.nodup⟩, ?_⟩
      rw [hjournal, unwind_cons, happlied.undo, unwind_congr hpatch, h.unwound]
  | undo i hlive huncovered hstore hjournal hpatch =>
      have hrest : ∀ k ∈ s.journal.erase i, t.patch k = s.patch k := fun k hk => by
        obtain ⟨hne, hmem⟩ := h.nodup.mem_erase_iff.mp hk
        exact hpatch k hmem hne
      refine ⟨hjournal ▸ h.nodup.erase i, ?_⟩
      rw [hjournal, hstore, unwind_congr hrest, unwind_erase hlive huncovered, h.unwound]

end Foundation
