import Chromatic.Foundation.Alignment
import Chromatic.MemoryAccessMonitor

/-!
# The pages of a watched range

The masks of `enable`, computed in 64 bits, round to the least pages that cover the range, and
the comparison of `monitorSegvHandler` accepts the addresses on these pages.

§1 the rounded range · §2 the comparison · §3 the least cover.
-/

namespace Chromatic

open Foundation

namespace MemoryAccessMonitor

/-! ## §1  The rounded range -/

section Rounded

variable {page : PageSize} {a : Addr} {s : BitVec 32}

theorem PageSize.toNat_size (page : PageSize) : page.size.toNat = 2 ^ page.bits :=
  toNat_one_shiftLeft page.lt

theorem PageSize.size_pos (page : PageSize) : 0 < page.size.toNat := by
  rw [page.toNat_size]
  exact Nat.two_pow_pos _

/-- A positive `int` becomes the same `size_t`. -/
theorem toNat_signExtend (hs : 1 ≤ s.toInt) : ((s.signExtend 64).toNat : ℤ) = s.toInt := by
  have hsame : (s.signExtend 64).toInt = s.toInt :=
    BitVec.toInt_signExtend_of_le (show 32 ≤ 64 by omega)
  have hcond := BitVec.toInt_eq_toNat_cond (s.signExtend 64)
  have hlt := (s.signExtend 64).isLt
  split_ifs at hcond <;> omega

theorem toNat_pageBase (page : PageSize) (a : Addr) (sz : BitVec 64) :
    (widen page a sz).1.toNat = alignDown page.size.toNat a.toNat := by
  rw [page.toNat_size]
  exact toNat_and_not_mask page.lt a

/-- The size before it is rounded: no step wraps. -/
theorem toNat_unrounded (hfit : a.toNat + (s.signExtend 64).toNat + page.size.toNat ≤ 2 ^ 64)
    {base : Addr} (hbase : base.toNat ≤ a.toNat) :
    base.toNat + (a + s.signExtend 64 - base + page.size - 1).toNat =
      a.toNat + (s.signExtend 64).toNat + page.size.toNat - 1 := by
  have := page.size_pos
  bv_omega

/-- The pages end at the first multiple from the end of the range on. -/
theorem toNat_widen_end
    (hfit : a.toNat + (s.signExtend 64).toNat + page.size.toNat ≤ 2 ^ 64) :
    (widen page a (s.signExtend 64)).1.toNat + (widen page a (s.signExtend 64)).2.toNat =
      alignUp page.size.toNat (a.toNat + (s.signExtend 64).toNat) := by
  have hbase := toNat_pageBase page a (s.signExtend 64)
  have hle : (widen page a (s.signExtend 64)).1.toNat ≤ a.toNat := by
    rw [hbase]
    exact alignDown_le
  have htotal : (widen page a (s.signExtend 64)).2.toNat = alignDown page.size.toNat
      (a + s.signExtend 64 - (widen page a (s.signExtend 64)).1 + page.size - 1).toNat := by
    rw [page.toNat_size]
    exact toNat_and_not_mask page.lt _
  have hdvd : page.size.toNat ∣ (widen page a (s.signExtend 64)).1.toNat := by
    rw [hbase]
    exact dvd_alignDown
  rw [htotal, ← alignDown_add page.size_pos hdvd, toNat_unrounded hfit hle]
  rfl

end Rounded

/-! ## §2  The comparison -/

/-- A range that does not wrap covers what lies between its ends. -/
theorem WatchedRange.covers_iff {r : WatchedRange}
    (h : r.pageBase.toNat + r.pageSize.toNat < 2 ^ 64) (f : Addr) :
    r.Covers f ↔ f.toNat ∈ Set.Ico r.pageBase.toNat (r.pageBase.toNat + r.pageSize.toNat) := by
  unfold WatchedRange.Covers Between
  rw [Set.mem_Ico, BitVec.le_def, BitVec.lt_def, BitVec.toNat_add, Nat.mod_eq_of_lt h]

/-! ## §3  The least cover -/

section Cover

/-- The range that `enable` sets up for `n` bytes covers the least pages, and the handler's
comparison accepts the addresses on them. -/
theorem watch_least_cover (page : PageSize) (os : Os) (env : ProtectAnswers) (i : ℕ) (a : Addr)
    (s : BitVec 32) (prot : Addr → Prot) (n : ℕ) (hs : s.toInt = n) (hn : 1 ≤ n)
    (hfit : a.toNat + n + page.size.toNat ≤ 2 ^ 64) :
    let range := (watch page os env i a s prot).1
    let pageBase := range.pageBase.toNat
    let totalSize := range.pageSize.toNat
    page.size.toNat ∣ pageBase ∧ page.size.toNat ∣ totalSize ∧ 0 < totalSize ∧
    Set.Ico a.toNat (a.toNat + n) ⊆ Set.Ico pageBase (pageBase + totalSize) ∧
    (∀ lo hi : ℕ, page.size.toNat ∣ lo → page.size.toNat ∣ hi →
      Set.Ico a.toNat (a.toNat + n) ⊆ Set.Ico lo hi →
        Set.Ico pageBase (pageBase + totalSize) ⊆ Set.Ico lo hi) ∧
    ∀ f : Addr, range.Covers f ↔ f.toNat ∈ Set.Ico pageBase (pageBase + totalSize) := by
  intro range pageBase totalSize
  have hsize : (s.signExtend 64).toNat = n := by
    have := toNat_signExtend (s := s) (by omega)
    omega
  rw [← hsize] at hfit ⊢
  have hP := page.size_pos
  have hab : a.toNat < a.toNat + (s.signExtend 64).toNat := by omega
  have hbase : pageBase = alignDown page.size.toNat a.toNat :=
    toNat_pageBase page a (s.signExtend 64)
  have hend : pageBase + totalSize =
      alignUp page.size.toNat (a.toNat + (s.signExtend 64).toNat) := toNat_widen_end hfit
  have hcover := Ico_subset_align hP hab
  have hdvd : page.size.toNat ∣ pageBase := by
    rw [hbase]
    exact dvd_alignDown
  refine ⟨hdvd, ?_, ?_, ?_, ?_, ?_⟩
  · apply (Nat.dvd_add_right hdvd).mp
    rw [hend]
    exact dvd_alignUp
  · have hlow : pageBase ≤ a.toNat := hbase ▸ alignDown_le
    have hhigh := le_alignUp hP (n := a.toNat + (s.signExtend 64).toNat)
    omega
  · rw [hend, hbase]
    exact hcover
  · intro lo hi hlo hhi hsub
    rw [hend, hbase]
    exact (Ico_align_subset hP hab hlo hhi).mpr hsub
  · -- the end is below the first page that does not exist
    have hlt := alignUp_lt hP (n := a.toNat + (s.signExtend 64).toNat)
    exact range.covers_iff (show pageBase + totalSize < 2 ^ 64 by omega)

/-- Two pages for two bytes at a boundary. -/
theorem watch_boundary :
    let range := (watch ⟨12, by decide⟩ .linux ⟨fun _ => true, .none⟩ 0 0x1FFF 2 fun _ => .none).1
    range.Covers 0x2FFF ∧ ¬ range.Covers 0x3000 := by
  obtain ⟨-, -, -, -, -, h⟩ := watch_least_cover ⟨12, by decide⟩ .linux
    ⟨fun _ => true, .none⟩ 0 0x1FFF 2 (fun _ => .none) 2 rfl (by decide) (by decide)
  exact ⟨(h _).mpr (by decide), fun hf => absurd ((h _).mp hf) (by decide)⟩

end Cover

end MemoryAccessMonitor

end Chromatic
