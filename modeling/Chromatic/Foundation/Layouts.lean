import Mathlib.Algebra.BigOperators.Group.List.Basic
import Mathlib.Algebra.GroupWithZero.Nat
import Mathlib.Data.List.Infix
import Mathlib.Logic.Relation

/-!
# Items laid end to end

Items of sizes of their own, each of which starts where the one before ends, as instructions in
memory do. What is at an offset may be no item.

§1 layouts · §2 runs of items · §3 covering an offset · §4 sweeping.
-/

namespace Foundation

/-! ## §1  Layouts -/

/-- The item at each offset. No item is empty. -/
structure Layout (α : Type*) where
  item : ℕ → Option α
  size : α → ℕ
  size_pos : ∀ off x, item off = some x → 0 < size x

namespace Layout

variable {α : Type*} (L : Layout α)

def total (xs : List α) : ℕ := (xs.map L.size).sum

/-- The items follow each other from the offset on. -/
def Laid : ℕ → List α → Prop
  | _, [] => True
  | off, x :: xs => L.item off = some x ∧ Laid (off + L.size x) xs

/-- The items from `off` on until `n` is reached, or the offset where there is none. -/
def cover (n off : ℕ) : Except ℕ (List α) :=
  if off < n then
    match h : L.item off with
    | none => .error off
    | some x =>
        have := L.size_pos off x h
        (cover n (off + L.size x)).map (x :: ·)
  else .ok []
termination_by n - off

/-! ## §2  Runs of items -/

section Runs

variable {L} {x : α} {xs : List α}

@[simp] theorem total_nil : L.total [] = 0 := rfl

@[simp] theorem total_cons : L.total (x :: xs) = L.size x + L.total xs := by
  simp [total]

end Runs

/-! ## §3  Covering an offset -/

section Cover

variable {L} {n off e : ℕ} {xs ys : List α}

theorem cover_of_le (h : n ≤ off) : L.cover n off = .ok [] := by
  rw [cover, if_neg (Nat.not_lt.mpr h)]

theorem cover_of_none (h : off < n) (hitem : L.item off = none) : L.cover n off = .error off := by
  rw [cover, if_pos h]
  split
  · rfl
  · rename_i heq
    cases hitem.symm.trans heq

theorem cover_of_some {x : α} (h : off < n) (hitem : L.item off = some x) :
    L.cover n off = (L.cover n (off + L.size x)).map (x :: ·) := by
  rw [cover, if_pos h]
  split
  · rename_i heq
    cases hitem.symm.trans heq
  · rename_i heq
    cases hitem.symm.trans heq
    rfl

/-- How a cover starts. -/
theorem cover_ok_cases (h : L.cover n off = .ok xs) :
    (n ≤ off ∧ xs = []) ∨ ∃ x rest, off < n ∧ L.item off = some x ∧
      L.cover n (off + L.size x) = .ok rest ∧ xs = x :: rest := by
  by_cases hlt : off < n
  · cases hitem : L.item off with
    | none =>
        rw [cover_of_none hlt hitem] at h
        cases h
    | some x =>
        rw [cover_of_some hlt hitem] at h
        cases hrest : L.cover n (off + L.size x) with
        | error e =>
            rw [hrest] at h
            cases h
        | ok rest =>
            rw [hrest] at h
            exact .inr ⟨x, rest, hlt, rfl, hrest, (Except.ok.inj h).symm⟩
  · rw [cover_of_le (Nat.not_lt.mp hlt)] at h
    exact .inl ⟨Nat.not_lt.mp hlt, (Except.ok.inj h).symm⟩

/-- A cover is the shortest run that reaches `n`. -/
theorem laid_of_cover (h : L.cover n off = .ok xs) :
    L.Laid off xs ∧ n ≤ off + L.total xs ∧
      ∀ ys, L.Laid off ys → n ≤ off + L.total ys → xs <+: ys := by
  induction xs generalizing off with
  | nil =>
      rcases cover_ok_cases h with ⟨hle, -⟩ | ⟨x, rest, -, -, -, hcons⟩
      · exact ⟨trivial, hle, fun _ _ _ => List.nil_prefix⟩
      · cases hcons
  | cons x xs ih =>
      rcases cover_ok_cases h with ⟨-, hnil⟩ | ⟨x', rest, hlt, hitem, hrest, hcons⟩
      · cases hnil
      · obtain ⟨rfl, rfl⟩ := List.cons.inj hcons
        obtain ⟨hlaid, hreach, hleast⟩ := ih hrest
        refine ⟨⟨hitem, hlaid⟩, by rw [total_cons]; omega, ?_⟩
        intro ys hys hn
        cases ys with
        | nil => exact absurd hn (by rw [total_nil]; omega)
        | cons y ys =>
            obtain rfl : y = x := Option.some.inj (hys.1.symm.trans hitem)
            rw [total_cons, ← Nat.add_assoc] at hn
            exact List.cons_prefix_cons.mpr ⟨rfl, hleast ys hys.2 hn⟩

theorem laid_of_cover_error (h : L.cover n off = .error e) :
    ∃ xs, L.Laid off xs ∧ off + L.total xs = e ∧ e < n ∧ L.item e = none := by
  induction off using cover.induct L n with
  | case1 off hlt hnone =>
      rw [cover_of_none hlt hnone] at h
      obtain rfl := Except.error.inj h
      exact ⟨[], trivial, rfl, hlt, hnone⟩
  | case2 off hlt x hitem hpos ih =>
      rw [cover_of_some hlt hitem] at h
      cases hrest : L.cover n (off + L.size x) with
      | error e' =>
          rw [hrest] at h
          obtain rfl := Except.error.inj h
          obtain ⟨xs, hlaid, heq, hrest⟩ := ih hrest
          exact ⟨x :: xs, ⟨hitem, hlaid⟩, by rw [total_cons, ← Nat.add_assoc, heq], hrest⟩
      | ok rest =>
          rw [hrest] at h
          cases h
  | case3 off hle =>
      rw [cover_of_le (Nat.not_lt.mp hle)] at h
      cases h

theorem cover_eq_error : L.cover n off = .error e ↔
    ∃ xs, L.Laid off xs ∧ off + L.total xs = e ∧ e < n ∧ L.item e = none := by
  constructor
  · exact laid_of_cover_error
  · rintro ⟨xs, hxs, rfl, hlt, hnone⟩
    induction xs generalizing off with
    | nil => exact cover_of_none hlt hnone
    | cons x xs ih =>
        rw [total_cons, ← Nat.add_assoc] at hlt hnone ⊢
        rw [cover_of_some (by omega) hxs.1, ih hxs.2 hlt hnone]
        rfl

/-- What a loop makes of a run of items, each at its offset. -/
def pieces {β : Type*} (piece : ℕ → α → β) : ℕ → List α → List β
  | _, [] => []
  | off, x :: xs => piece off x :: pieces piece (off + L.size x) xs

/-- A loop that goes on behind each item covers, whatever it says of an offset without one. -/
theorem eq_cover {β ε : Type*} {piece : ℕ → α → β} {loop : ℕ → Except ε (List β)}
    {failure : ℕ → ε} (hdone : ∀ off, n ≤ off → loop off = .ok [])
    (hnone : ∀ off, off < n → L.item off = none → loop off = .error (failure off))
    (hsome : ∀ off x, off < n → L.item off = some x →
      loop off = (loop (off + L.size x)).map (piece off x :: ·)) (off : ℕ) :
    loop off = ((L.cover n off).map (L.pieces piece off)).mapError failure := by
  induction off using cover.induct L n with
  | case1 off hlt hitem =>
      rw [hnone off hlt hitem, cover_of_none hlt hitem]
      rfl
  | case2 off hlt x hitem hpos ih =>
      rw [hsome off x hlt hitem, cover_of_some hlt hitem, ih]
      cases L.cover n (off + L.size x) <;> rfl
  | case3 off hle =>
      rw [hdone off (Nat.not_lt.mp hle), cover_of_le (Nat.not_lt.mp hle)]
      rfl

/-- Less than the greatest size is taken too much. -/
theorem total_cover_lt {b : ℕ} (hsize : ∀ off x, L.item off = some x → L.size x ≤ b)
    (h : L.cover n off = .ok xs) (hoff : off < n + b) : off + L.total xs < n + b := by
  induction xs generalizing off with
  | nil => exact hoff
  | cons x xs ih =>
      rcases cover_ok_cases h with ⟨-, hnil⟩ | ⟨x', rest, hlt, hitem, hrest, hcons⟩
      · cases hnil
      · obtain ⟨rfl, rfl⟩ := List.cons.inj hcons
        have hx := hsize off x hitem
        rw [total_cons, ← Nat.add_assoc]
        apply ih hrest
        omega

end Cover

/-! ## §4  Sweeping -/

/-- The items found below `n`, with their offsets: behind an item the sweep goes on, and where
there is none it skips `skip`. -/
def sweep {skip : ℕ} (hskip : 0 < skip) (n off : ℕ) : List (ℕ × α) :=
  if off < n then
    match h : L.item off with
    | none => sweep hskip n (off + skip)
    | some x =>
        have := L.size_pos off x h
        (off, x) :: sweep hskip n (off + L.size x)
  else []
termination_by n - off

/-- Where a sweep goes from an offset. -/
def Next (skip n off off' : ℕ) : Prop :=
  off < n ∧ off' = off + ((L.item off).map L.size).getD skip

section Sweep

variable {L} {skip n off o : ℕ} {x : α} {hskip : 0 < skip}

theorem sweep_of_le (h : n ≤ off) : L.sweep hskip n off = [] := by
  rw [sweep, if_neg (Nat.not_lt.mpr h)]

theorem sweep_of_none (h : off < n) (hitem : L.item off = none) :
    L.sweep hskip n off = L.sweep hskip n (off + skip) := by
  rw [sweep, if_pos h]
  split
  · rfl
  · rename_i heq
    cases hitem.symm.trans heq

theorem sweep_of_some (h : off < n) (hitem : L.item off = some x) :
    L.sweep hskip n off = (off, x) :: L.sweep hskip n (off + L.size x) := by
  rw [sweep, if_pos h]
  split
  · rename_i heq
    cases hitem.symm.trans heq
  · rename_i heq
    cases hitem.symm.trans heq
    rfl

/-- A sweep goes on from one offset only. -/
theorem reaches_iff (hnext : L.Next skip n off o) {o' : ℕ} :
    Relation.ReflTransGen (L.Next skip n) off o' ↔
      off = o' ∨ Relation.ReflTransGen (L.Next skip n) o o' := by
  rw [Relation.ReflTransGen.cases_head_iff]
  constructor
  · rintro (heq | ⟨c, hc, hreach⟩)
    · exact .inl heq
    · rw [hnext.2, ← hc.2]
      exact .inr hreach
  · rintro (heq | hreach)
    · exact .inl heq
    · exact .inr ⟨o, hnext, hreach⟩

theorem not_reaches_of_le (h : n ≤ off) :
    Relation.ReflTransGen (L.Next skip n) off o ↔ off = o := by
  rw [Relation.ReflTransGen.cases_head_iff]
  constructor
  · rintro (heq | ⟨c, hc, -⟩)
    · exact heq
    · exact absurd hc.1 (Nat.not_lt.mpr h)
  · exact .inl

/-- **A sweep finds the items at the offsets that it reaches.** -/
theorem mem_sweep : (o, x) ∈ L.sweep hskip n off ↔
    Relation.ReflTransGen (L.Next skip n) off o ∧ o < n ∧ L.item o = some x := by
  induction off using sweep.induct L hskip n with
  | case1 off hlt hnone ih =>
      have hnext : L.Next skip n off (off + skip) := ⟨hlt, by rw [hnone]; rfl⟩
      rw [sweep_of_none hlt hnone, ih, reaches_iff hnext]
      constructor
      · rintro ⟨hreach, hitem⟩
        exact ⟨.inr hreach, hitem⟩
      · rintro ⟨rfl | hreach, ho, hitem⟩
        · cases hnone.symm.trans hitem
        · exact ⟨hreach, ho, hitem⟩
  | case2 off hlt y hitem hpos ih =>
      have hnext : L.Next skip n off (off + L.size y) := ⟨hlt, by rw [hitem]; rfl⟩
      rw [sweep_of_some hlt hitem, List.mem_cons, ih, reaches_iff hnext, Prod.mk.injEq]
      constructor
      · rintro (⟨rfl, rfl⟩ | ⟨hreach, hrest⟩)
        · exact ⟨.inl rfl, hlt, hitem⟩
        · exact ⟨.inr hreach, hrest⟩
      · rintro ⟨rfl | hreach, ho, hfound⟩
        · exact .inl ⟨rfl, Option.some.inj (hfound.symm.trans hitem)⟩
        · exact .inr ⟨hreach, ho, hfound⟩
  | case3 off hle =>
      have hle' := Nat.not_lt.mp hle
      rw [sweep_of_le hle', not_reaches_of_le hle']
      simp only [List.not_mem_nil, false_iff]
      rintro ⟨rfl, hlt, -⟩
      exact hle hlt

theorem le_of_reaches (h : Relation.ReflTransGen (L.Next skip n) off o) : off ≤ o := by
  induction h with
  | refl => exact le_rfl
  | tail _ hnext ih => exact ih.trans (hnext.2 ▸ Nat.le_add_right _ _)

/-- What is found lies one behind the other. -/
theorem pairwise_sweep :
    (L.sweep hskip n off).Pairwise fun p q => p.1 + L.size p.2 ≤ q.1 := by
  induction off using sweep.induct L hskip n with
  | case1 off hlt hnone ih =>
      rw [sweep_of_none hlt hnone]
      exact ih
  | case2 off hlt y hitem hpos ih =>
      rw [sweep_of_some hlt hitem, List.pairwise_cons]
      refine ⟨?_, ih⟩
      rintro ⟨o, z⟩ hmem
      exact le_of_reaches (mem_sweep.mp hmem).1
  | case3 off hle =>
      rw [sweep_of_le (Nat.not_lt.mp hle)]
      exact List.Pairwise.nil

end Sweep

end Layout

end Foundation
