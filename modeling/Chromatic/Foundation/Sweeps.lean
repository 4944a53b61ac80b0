import Mathlib.Data.List.Basic

/-!
# Sweeps with a cursor

An enumeration that asks for the item at a cursor, and moves the cursor on until there is no item
or nothing behind the one found.

§1 sweeps · §2 what a sweep comes to · §3 selections of it.
-/

namespace Foundation

variable {P α β : Type*}

/-! ## §1  Sweeps -/

/-- The items found by at most `fuel` queries; `none` where these are too few. -/
def sweep (next : P → Option (α × Option P)) : ℕ → P → Option (List α)
  | 0, _ => none
  | fuel + 1, p =>
      match next p with
      | none => some []
      | some (r, none) => some [r]
      | some (r, some p') => (sweep next fuel p').map (r :: ·)

/-! ## §2  What a sweep comes to -/

/-- The items that a cursor comes to, one after the other. -/
inductive Comes (next : P → Option (α × Option P)) : P → List α → Prop where
  | done {p} (h : next p = none) : Comes next p []
  | last {p r} (h : next p = some (r, none)) : Comes next p [r]
  | on {p r p' rs} (h : next p = some (r, some p')) (rest : Comes next p' rs) :
      Comes next p (r :: rs)

/-- One query more than items is enough. -/
theorem Comes.sweep_eq {next : P → Option (α × Option P)} {p : P} {rs : List α}
    (h : Comes next p rs) {fuel : ℕ} (hfuel : rs.length < fuel) :
    sweep next fuel p = some rs := by
  induction h generalizing fuel with
  | done h =>
      obtain ⟨fuel, rfl⟩ := Nat.exists_eq_add_of_lt hfuel
      rw [sweep, h]
  | last h =>
      obtain ⟨fuel, rfl⟩ := Nat.exists_eq_add_of_lt hfuel
      rw [sweep, h]
  | on h _ ih =>
      obtain ⟨fuel, rfl⟩ := Nat.exists_eq_add_of_lt hfuel
      rw [sweep, h]
      dsimp only
      rw [ih (by rw [List.length_cons]; omega)]
      rfl

/-! ## §3  Selections of it -/

/-- Selecting by less than is asked for gives what is asked for exactly when it leaves out no
item and shows each as it is. -/
theorem map_filter_eq_iff {rs : List α} {p q : α → Bool} {f g : α → β}
    (hpq : ∀ r, p r → q r) :
    (rs.filter p).map f = (rs.filter q).map g ↔ ∀ r ∈ rs, q r → p r ∧ f r = g r := by
  constructor
  · intro h
    have hsub : (rs.filter p).Sublist (rs.filter q) := List.monotone_filter_right rs hpq
    have hlen := congrArg List.length h
    rw [List.length_map, List.length_map] at hlen
    have hsame := hsub.eq_of_length hlen
    intro r hr hq
    have hmem : r ∈ rs.filter p := by
      rw [hsame]
      exact List.mem_filter.mpr ⟨hr, hq⟩
    rw [hsame] at h
    exact ⟨(List.mem_filter.mp hmem).2, List.map_inj_left.mp h r (hsame ▸ hmem)⟩
  · intro h
    have hsame : rs.filter p = rs.filter q := by
      refine List.filter_congr fun r hr => ?_
      rw [Bool.eq_iff_iff]
      exact ⟨hpq r, fun hq => (h r hr hq).1⟩
    rw [hsame]
    refine List.map_congr_left fun r hr => ?_
    obtain ⟨hmem, hq⟩ := List.mem_filter.mp hr
    exact (h r hmem hq).2

end Foundation
