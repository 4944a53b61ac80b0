import Mathlib.Data.List.Basic
import Mathlib.Data.List.Nodup
import Mathlib.Data.Nat.ModEq
import Mathlib.Logic.Function.Basic

/-!
# A ring buffer as a queue

Writers take an index each and fill its slot when they get to it; one reader clears the
slots in turn. Indices have `w` bits, run freely and wrap, and fall in `c` slots. As long
as no more than `c` indices are taken and not yet cleared, the ring is a queue.

§1 indices · §2 the ring · §3 the ring as a queue · §4 taking an index · §5 filling a slot ·
§6 clearing a slot.
-/

namespace Foundation

/-! ## §1  Indices -/

section Indices

variable {w c : ℕ}

/-- An index that wraps falls in the slot of the number it stands for. -/
theorem toNat_add_mod (hdvd : c ∣ 2 ^ w) (r : BitVec w) (i : ℕ) :
    (r + BitVec.ofNat w i).toNat % c = (r.toNat + i) % c := by
  rw [BitVec.toNat_add, BitVec.toNat_ofNat, Nat.mod_mod_of_dvd _ hdvd, Nat.add_mod,
    Nat.mod_mod_of_dvd _ hdvd, ← Nat.add_mod]

/-- As many indices in a row as there are slots fall in different slots. -/
theorem consecutive_inj (hdvd : c ∣ 2 ^ w) {r : BitVec w} {i j : ℕ} (hi : i < c) (hj : j < c)
    (h : (r + BitVec.ofNat w i).toNat % c = (r + BitVec.ofNat w j).toNat % c) : i = j := by
  rw [toNat_add_mod hdvd, toNat_add_mod hdvd] at h
  exact (Nat.ModEq.add_left_cancel' r.toNat h).eq_of_lt_of_lt hi hj

theorem succ_add_ofNat (r : BitVec w) (j : ℕ) :
    r + 1 + BitVec.ofNat w j = r + BitVec.ofNat w (j + 1) := by
  rw [BitVec.ofNat_add, BitVec.add_assoc, BitVec.add_comm (BitVec.ofNat w j)]
  rfl

/-- Subtraction counts the indices in between, across a wrap as well. -/
theorem add_ofNat_sub (r : BitVec w) {n : ℕ} (hn : n < 2 ^ w) :
    (r + BitVec.ofNat w n - r).toNat = n := by
  rw [BitVec.add_comm, BitVec.add_sub_cancel, BitVec.toNat_ofNat, Nat.mod_eq_of_lt hn]

theorem eq_zero_of_add_ofNat {r : BitVec w} {n : ℕ} (hn : n < 2 ^ w)
    (h : r = r + BitVec.ofNat w n) : n = 0 := by
  have hsub := add_ofNat_sub r hn
  rw [← h, BitVec.sub_self] at hsub
  exact hsub.symm

end Indices

/-! ## §2  The ring -/

/-- A slot has a flag that says whether its value is there. `writers` have taken an index
and not filled its slot yet. -/
structure Ring (w c : ℕ) (α : Type*) where
  slots : Fin c → Bool × α
  write : BitVec w
  read : BitVec w
  writers : List (BitVec w × α)

namespace Ring

variable {w c : ℕ} {α : Type*}

/-- The `j`-th index from the reader's on. -/
def nth (q : Ring w c α) (j : ℕ) : BitVec w := q.read + BitVec.ofNat w j

theorem nth_zero (q : Ring w c α) : q.nth 0 = q.read :=
  BitVec.add_zero _

theorem lt_of_getElem? {l : List α} {j : ℕ} {a : α} (h : l[j]? = some a) : j < l.length := by
  obtain ⟨hlt, -⟩ := List.getElem?_eq_some_iff.mp h
  exact hlt

variable [NeZero c]

def slotOf (c : ℕ) [NeZero c] (idx : BitVec w) : Fin c := Fin.ofNat c idx.toNat

def take (a : α) (q : Ring w c α) : Ring w c α :=
  { q with write := q.write + 1, writers := q.writers ++ [(q.write, a)] }

def fill [DecidableEq α] (idx : BitVec w) (a : α) (q : Ring w c α) : Ring w c α :=
  { q with
    slots := Function.update q.slots (slotOf c idx) (true, a)
    writers := q.writers.erase (idx, a) }

def clear (q : Ring w c α) : Ring w c α :=
  { q with
    slots := Function.update q.slots (slotOf c q.read) (false, (q.slots (slotOf c q.read)).2)
    read := q.read + 1 }

/-! ## §3  The ring as a queue -/

/-- The value is in the slot of the index, or a writer is about to put it there. -/
def Has (q : Ring w c α) (idx : BitVec w) (a : α) : Prop :=
  (q.slots (slotOf c idx) = (true, a) ∧ ∀ p ∈ q.writers, p.1 ≠ idx) ∨
  ((q.slots (slotOf c idx)).1 = false ∧ (idx, a) ∈ q.writers)

/-- The ring holds `pending`, from the reader's index on, and nothing else. -/
structure Holds (q : Ring w c α) (pending : List α) : Prop where
  room : pending.length ≤ c
  write : q.write = q.nth pending.length
  slots : ∀ {j a}, pending[j]? = some a → q.Has (q.nth j) a
  ready : ∀ {k}, (q.slots k).1 = true → ∃ j < pending.length, k = slotOf c (q.nth j)
  begun : ∀ p ∈ q.writers, ∃ j, pending[j]? = some p.2 ∧ p.1 = q.nth j
  distinct : (q.writers.map Prod.fst).Nodup

variable {q q' : Ring w c α} {pending rest : List α} {a : α} {idx : BitVec w}

theorem Holds.first (h : q.Holds (a :: rest)) : q.Has q.read a := by
  have hfirst : q.Has (q.nth 0) a := h.slots rfl
  rw [nth_zero] at hfirst
  exact hfirst

theorem holds_nil (hread : q.read = q.write) (hslots : ∀ k, (q.slots k).1 = false)
    (hwriters : q.writers = []) : q.Holds [] where
  room := Nat.zero_le _
  write := hread.symm.trans (nth_zero q).symm
  slots h := by simp at h
  ready h := by rw [hslots] at h; cases h
  begun p h := by rw [hwriters] at h; cases h
  distinct := by rw [hwriters]; exact List.nodup_nil

/-- An empty queue is an empty ring. -/
theorem Holds.empty (h : q.Holds []) : q.read = q.write ∧ ∀ k, (q.slots k).1 = false := by
  constructor
  · rw [h.write]
    exact (nth_zero q).symm
  · intro k
    by_contra hready
    obtain ⟨j, hj, -⟩ := h.ready (Bool.of_not_eq_false hready)
    exact absurd hj (Nat.not_lt_zero _)

theorem Has.congr (h : q.Has idx a)
    (hslot : q'.slots (slotOf c idx) = q.slots (slotOf c idx))
    (hmem : (idx, a) ∈ q.writers → (idx, a) ∈ q'.writers)
    (hsub : ∀ p ∈ q'.writers, p.1 = idx → p ∈ q.writers) : q'.Has idx a := by
  rcases h with ⟨hready, hnone⟩ | ⟨hready, hwriter⟩
  · refine .inl ⟨hslot.trans hready, fun p hp heq => ?_⟩
    exact hnone p (hsub p hp heq) heq
  · exact .inr ⟨by rw [hslot]; exact hready, hmem hwriter⟩

section Sizes

variable (hdvd : c ∣ 2 ^ w) (hlt : c < 2 ^ w)

include hdvd in
theorem slot_inj {i j : ℕ} (hi : i < c) (hj : j < c)
    (h : slotOf c (q.nth i) = slotOf c (q.nth j)) : i = j :=
  consecutive_inj hdvd hi hj (congrArg Fin.val h)

include hlt in
/-- The two indices tell the length of the queue. -/
theorem Holds.length (h : q.Holds pending) : (q.write - q.read).toNat = pending.length := by
  rw [h.write]
  exact add_ofNat_sub _ (Nat.lt_of_le_of_lt h.room hlt)

/-! ## §4  Taking an index -/

include hdvd hlt in
theorem Holds.take (h : q.Holds pending) (hroom : (q.write - q.read).toNat < c) :
    (q.take a).Holds (pending ++ [a]) := by
  rw [h.length hlt] at hroom
  -- the slot of the new index is no other's, so its flag is not set
  have hother : ∀ {j}, j < pending.length →
      slotOf c (q.nth j) ≠ slotOf c (q.nth pending.length) := by
    intro j hj heq
    exact Nat.ne_of_lt hj (slot_inj hdvd (hj.trans hroom) hroom heq)
  have hfree : (q.slots (slotOf c (q.nth pending.length))).1 = false := by
    by_contra hready
    obtain ⟨j, hj, heq⟩ := h.ready (Bool.of_not_eq_false hready)
    exact hother hj heq.symm
  constructor
  · rw [List.length_append]
    exact hroom
  · show q.write + 1 = q.read + _
    rw [h.write, nth, List.length_append, BitVec.add_assoc, BitVec.ofNat_add]
    rfl
  · intro j b hj
    by_cases hold : j < pending.length
    · rw [List.getElem?_append_left hold] at hj
      refine (h.slots hj).congr rfl (List.mem_append_left _) ?_
      intro p hp heq
      rcases List.mem_append.mp hp with hp | hp
      · exact hp
      · rw [List.mem_singleton.mp hp] at heq
        exact absurd (congrArg (slotOf c) (heq.symm.trans h.write)) (hother hold)
    · obtain rfl : j = pending.length := by
        have hbound := lt_of_getElem? hj
        rw [List.length_append, List.length_singleton] at hbound
        omega
      rw [List.getElem?_concat_length] at hj
      obtain rfl := Option.some.inj hj
      refine .inr ⟨hfree, List.mem_append_right _ ?_⟩
      rw [h.write]
      exact List.mem_singleton.mpr rfl
  · intro k hk
    obtain ⟨j, hj, heq⟩ := h.ready hk
    refine ⟨j, ?_, heq⟩
    rw [List.length_append]
    exact Nat.lt_add_right _ hj
  · intro p hp
    rcases List.mem_append.mp hp with hp | hp
    · obtain ⟨j, hj, heq⟩ := h.begun p hp
      exact ⟨j, by rw [List.getElem?_append_left (lt_of_getElem? hj)]; exact hj, heq⟩
    · rw [List.mem_singleton.mp hp]
      exact ⟨pending.length, List.getElem?_concat_length, h.write⟩
  · show ((q.writers ++ [(q.write, a)]).map Prod.fst).Nodup
    rw [List.map_append, List.nodup_append]
    refine ⟨h.distinct, List.nodup_singleton _, ?_⟩
    rintro idx hidx idx' hidx' rfl
    obtain ⟨p, hp, hpidx⟩ := List.mem_map.mp hidx
    obtain ⟨j, hj, hpj⟩ := h.begun p hp
    rw [List.map_singleton, List.mem_singleton] at hidx'
    have heq : q.nth j = q.nth pending.length := hpj ▸ hpidx ▸ hidx' ▸ h.write
    exact hother (lt_of_getElem? hj) (congrArg (slotOf c) heq)

/-! ## §5  Filling a slot -/

include hdvd in
theorem Holds.fill [DecidableEq α] (h : q.Holds pending) (hmem : (idx, a) ∈ q.writers) :
    (q.fill idx a).Holds pending := by
  obtain ⟨i, hi, hidx⟩ := h.begun _ hmem
  obtain rfl : idx = q.nth i := hidx
  have hlti := lt_of_getElem? hi
  -- the index had one writer, and this one is done
  have hgone : ∀ p ∈ q.writers.erase (q.nth i, a), p.1 ≠ q.nth i := by
    intro p hp heq
    have hperm := (List.perm_cons_erase hmem).map Prod.fst
    have hnodup := hperm.nodup_iff.mp h.distinct
    rw [List.map_cons, List.nodup_cons] at hnodup
    exact hnodup.1 (List.mem_map.mpr ⟨p, hp, heq⟩)
  refine ⟨h.room, h.write, ?_, ?_, ?_, ?_⟩
  · intro j b hj
    by_cases hji : j = i
    · rw [hji, hi] at hj
      obtain rfl := Option.some.inj hj
      rw [hji]
      exact .inl ⟨Function.update_self _ _ _, hgone⟩
    · have hslot : slotOf c (q.nth j) ≠ slotOf c (q.nth i) := fun heq =>
        hji (slot_inj hdvd (Nat.lt_of_lt_of_le (lt_of_getElem? hj) h.room)
          (Nat.lt_of_lt_of_le hlti h.room) heq)
      apply (h.slots hj).congr (Function.update_of_ne hslot _ _)
      · intro hp
        refine (List.mem_erase_of_ne ?_).mpr hp
        exact fun heq => hslot (congrArg (fun p => slotOf c p.1) heq)
      · intro p hp _
        exact List.mem_of_mem_erase hp
  · intro k hk
    by_cases hslot : k = slotOf c (q.nth i)
    · exact ⟨i, hlti, hslot⟩
    · have hsame : (q.fill (q.nth i) a).slots k = q.slots k :=
        Function.update_of_ne hslot _ _
      rw [hsame] at hk
      exact h.ready hk
  · intro p hp
    exact h.begun p (List.mem_of_mem_erase hp)
  · exact h.distinct.sublist (List.erase_sublist.map _)

/-! ## §6  Clearing a slot -/

include hdvd in
/-- Clearing the first slot takes its value out of the queue. -/
theorem Holds.clear (h : q.Holds (a :: rest)) (hready : (q.slots (slotOf c q.read)).1 = true) :
    q.clear.Holds rest := by
  have hroom : rest.length < c := h.room
  -- every value left is one place nearer to the reader, in the slot it was in
  have hnth : ∀ j, q.clear.nth j = q.nth (j + 1) := fun j => succ_add_ofNat _ _
  have hother : ∀ {j}, j < rest.length → slotOf c (q.nth (j + 1)) ≠ slotOf c q.read := by
    intro j hj heq
    rw [← nth_zero] at heq
    exact Nat.succ_ne_zero j (slot_inj hdvd (by omega) (by omega) heq)
  refine ⟨Nat.le_of_lt hroom, ?_, ?_, ?_, ?_, h.distinct⟩
  · rw [hnth]
    exact h.write
  · intro j b hj
    rw [hnth]
    have hkept : q.Has (q.nth (j + 1)) b := h.slots hj
    refine hkept.congr ?_ id (fun p hp _ => hp)
    exact Function.update_of_ne (hother (lt_of_getElem? hj)) _ _
  · intro k hk
    by_cases hslot : k = slotOf c q.read
    · have hcleared : (q.clear.slots k).1 = false := by
        rw [hslot]
        show (Function.update q.slots _ _ _).1 = false
        rw [Function.update_self]
      rw [hcleared] at hk
      cases hk
    · have hsame : q.clear.slots k = q.slots k := Function.update_of_ne hslot _ _
      rw [hsame] at hk
      obtain ⟨j, hj, heq⟩ := h.ready hk
      cases j with
      | zero => exact absurd (heq.trans (congrArg (slotOf c) (nth_zero q))) hslot
      | succ j =>
          refine ⟨j, Nat.lt_of_succ_lt_succ hj, ?_⟩
          rw [hnth]
          exact heq
  · intro p hp
    obtain ⟨j, hj, heq⟩ := h.begun p hp
    cases j with
    | zero =>
        -- the slot is full, so the first index has no writer any more
        rcases h.first with ⟨-, hnone⟩ | ⟨hnot, -⟩
        · exact absurd (heq.trans (nth_zero q)) (hnone p hp)
        · rw [hready] at hnot
          cases hnot
    | succ j =>
        refine ⟨j, hj, ?_⟩
        rw [hnth]
        exact heq

end Sizes

end Ring

end Foundation
