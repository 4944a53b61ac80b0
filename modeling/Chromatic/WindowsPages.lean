import Chromatic.Foundation.Fills
import Chromatic.CodePages
import Chromatic.RegionWalks

/-!
# Pages of code on Windows

The page protections behind `makeWritableAndPatch` and `NativeMemory::patchCode` of the Windows
build. `VirtualProtect` tells the protection of the first page only, and it is given back to all.

§1 VirtualProtect · §2 calls · §3 what a patch leaves · §4 runs.
-/

namespace Chromatic

open Foundation
open MemoryAccessMonitor (PageSize smallPages)
open CodePages (Call)
open RegionWalks (PageProtection)

namespace WindowsPages

/-! ## §1  VirtualProtect -/

/-- The pages that are committed, by their numbers. -/
structure Pages where
  page : PageSize
  committed : ℕ → Bool
  bounded : ∀ p, committed p → (p + 1) * page.size.toNat ≤ 2 ^ 64

abbrev Protections : Type := ℕ → PageProtection

/-- The pages of some bytes. -/
def Pages.stretch (m : Pages) (r : Addr × ℕ) : Stretch where
  first := r.1.toNat / m.page.size.toNat
  last := (r.1.toNat + r.2 - 1) / m.page.size.toNat

/-- There are bytes, and all their pages are committed. All pages are of one reservation here, as
`VirtualProtect` demands of a span, and none is copied on write, which would make it private. -/
def Pages.Grants (m : Pages) (r : Addr × ℕ) : Prop :=
  r.2 ≠ 0 ∧ ∀ p ∈ List.range ((m.stretch r).last + 1), (m.stretch r).first ≤ p → m.committed p

instance (m : Pages) (r : Addr × ℕ) : Decidable (m.Grants r) := by
  unfold Pages.Grants
  infer_instance

/-- All pages or none get the new protection, and the old one of the first comes back. -/
def virtualProtect (m : Pages) (r : Addr × ℕ) (new : PageProtection) (prot : Protections) :
    Option (PageProtection × Protections) :=
  if m.Grants r then
    some (prot (m.stretch r).first,
      fun p => if (m.stretch r).first ≤ p ∧ p ≤ (m.stretch r).last then new else prot p)
  else none

/-- The two calls of a patch. No answer is read, so that `oldProt` may be anything. -/
def patchPages (m : Pages) (oldProt : PageProtection) (r : Addr × ℕ) (prot : Protections) :
    Protections :=
  let (oldProt, prot) := (virtualProtect m r .executeReadWrite prot).getD (oldProt, prot)
  ((virtualProtect m r oldProt prot).map (·.2)).getD prot

/-! ## §2  Calls -/

structure Paged where
  world : World
  prot : Protections

/-- Patches never throw here. -/
def step (m : Pages) (arch : Arch) (oldProt : PageProtection) (c : Call) (s : Paged) : Paged where
  world := c.exec arch (fun _ => .ok) s.world
  prot := (c.regions arch s.world).foldl (fun prot r => patchPages m oldProt r prot) s.prot

/-- Bulk removals visit every live entry. -/
def Permitted (s : Paged) : Call → Prop
  | .removeAll order => order.Perm s.world.bp.bpById.entries
  | .detachAll order => order.Perm s.world.hooks.hooksById.entries
  | _ => True

/-- The bytes of each patch are there, else the process ends when they are copied. -/
inductive Step (m : Pages) (arch : Arch) (s : Paged) (c : Call) : Paged → Prop where
  | intro (oldProt : PageProtection) (permitted : Permitted s c)
      (lives : ∀ r ∈ c.regions arch s.world, r.2 = 0 ∨ m.Grants r) :
      Step m arch s c (step m arch oldProt c s)

/-! ## §3  What a patch leaves -/

section Patch

variable {m : Pages} {arch : Arch} {oldProt : PageProtection} {r : Addr × ℕ} {prot : Protections}

/-- All pages of a patch get the protection that the first one had. -/
theorem patchPages_eq : patchPages m oldProt r prot =
    if m.Grants r then (m.stretch r).fill prot else prot := by
  unfold patchPages virtualProtect
  by_cases hgrants : m.Grants r
  · simp only [if_pos hgrants, Option.getD_some, Option.map_some]
    funext p
    unfold Stretch.fill
    split_ifs
    · rfl
    · rfl
  · simp only [if_neg hgrants, Option.getD_none, Option.map_none]

/-- The stretches that patches go over. -/
def Pages.stretches (m : Pages) (rs : List (Addr × ℕ)) : List Stretch :=
  (rs.filter fun r => m.Grants r).map m.stretch

theorem foldl_patchPages (rs : List (Addr × ℕ)) (prot : Protections) :
    rs.foldl (fun prot r => patchPages m oldProt r prot) prot = fills (m.stretches rs) prot := by
  induction rs generalizing prot with
  | nil => rfl
  | cons r rs ih =>
      rw [List.foldl_cons, ih, patchPages_eq]
      by_cases hgrants : m.Grants r
      · rw [if_pos hgrants, Pages.stretches, Pages.stretches, List.filter_cons_of_pos (by simpa)]
        rfl
      · rw [if_neg hgrants, Pages.stretches, Pages.stretches, List.filter_cons_of_neg (by simpa)]

end Patch

/-! ## §4  Runs -/

section Runs

variable {m : Pages} {arch : Arch} {w₀ : World} {prot₀ : Protections} {tr : List (Paged × Call)}
  {t : Paged}

/-- The regions of all calls of a run. -/
def touched (arch : Arch) (tr : List (Paged × Call)) : List (Addr × ℕ) :=
  tr.flatMap fun p => p.2.regions arch p.1.world

theorem run_prot (run : Run (Step m arch) ⟨w₀, prot₀⟩ tr t) :
    t.prot = fills (m.stretches (touched arch tr)) prot₀ := by
  induction run with
  | nil => rfl
  | @snoc tr s c t _ hstep ih =>
      cases hstep
      have hsplit : m.stretches (touched arch (tr ++ [(s, c)])) =
          m.stretches (touched arch tr) ++ m.stretches (c.regions arch s.world) := by
        simp [Pages.stretches, touched]
      rw [hsplit, fills, List.foldl_append]
      show (c.regions arch s.world).foldl _ s.prot = _
      rw [foldl_patchPages, ih]
      rfl

/-- What stands on a page at any time stood on a page at or below it. -/
theorem fills_mem (is : List Stretch) (prot : Protections) (p : ℕ) :
    ∃ q ≤ p, fills is prot p = prot q := by
  induction is generalizing prot with
  | nil => exact ⟨p, le_rfl, rfl⟩
  | cons i is ih =>
      obtain ⟨q, hq, heq⟩ := ih (i.fill prot)
      have hshow : fills (i :: is) prot p = i.fill prot q := heq
      rw [hshow]
      unfold Stretch.fill
      split_ifs with hin
      · exact ⟨i.first, hin.1.trans hq, rfl⟩
      · exact ⟨q, hq, rfl⟩

/-- **Protections come back** exactly when no patch ever goes over pages of different protections:
what one patch has mixed up, no later call puts right. -/
theorem protections_restored_iff (run : Run (Step m arch) ⟨w₀, prot₀⟩ tr t) :
    (t.prot = prot₀ ↔ Guarded (fun s c => ∀ r ∈ c.regions arch s.world, m.Grants r →
      (m.stretch r).Level prot₀) tr) ∧ ∀ p, ∃ q ≤ p, t.prot p = prot₀ q := by
  rw [run_prot run]
  refine ⟨?_, fills_mem _ _⟩
  rw [fills_eq_iff]
  constructor
  · intro hlevel q hq r hr hgrants
    refine hlevel _ (List.mem_map.mpr ⟨r, List.mem_filter.mpr ⟨?_, by simpa⟩, rfl⟩)
    exact List.mem_flatMap.mpr ⟨q, hq, hr⟩
  · intro hguarded i hi
    obtain ⟨r, hr, rfl⟩ := List.mem_map.mp hi
    obtain ⟨hmem, hgrants⟩ := List.mem_filter.mp hr
    obtain ⟨q, hq, hregion⟩ := List.mem_flatMap.mp hmem
    exact hguarded q hq r hregion (by simpa using hgrants)

/-- Executable pages up to the end of page 1, data behind them. -/
def codeBelow : Protections := fun p => if p < 2 then .executeRead else .readWrite

def allCommitted : Pages where
  page := smallPages
  committed := fun p => decide ((p + 1) * 4096 ≤ 2 ^ 64)
  bounded := fun _ h => of_decide_eq_true h

theorem run_patchCode (address : Addr) (bytes : List Byte) (w : World)
    (lives : bytes.length = 0 ∨ allCommitted.Grants (address, bytes.length)) :
    Run (Step allCommitted .x64) ⟨w, codeBelow⟩ [(⟨w, codeBelow⟩, .patchCode address bytes)]
      (step allCommitted .x64 .noAccess (.patchCode address bytes) ⟨w, codeBelow⟩) := by
  refine .snoc .nil ⟨.noAccess, trivial, fun r hr => ?_⟩
  obtain rfl := List.mem_singleton.mp hr
  exact lives

/-- A patch before the end of page 1 restores it; one over the end makes page 2 executable. -/
theorem protections_restored_over_end :
    let code : Paged := ⟨.start (fun _ => 0) defaultActions, codeBelow⟩
    (step allCommitted .x64 .noAccess (.patchCode 0x1FFE [0x90, 0xC3]) code).prot = codeBelow ∧
    (step allCommitted .x64 .noAccess (.patchCode 0x1FFF [0x90, 0xC3]) code).prot ≠ codeBelow := by
  intro code
  constructor
  · refine (protections_restored_iff
      (run_patchCode 0x1FFE [0x90, 0xC3] code.world (.inr (by decide)))).1.mpr fun q hq => ?_
    obtain rfl := List.mem_singleton.mp hq
    intro r hr _ p hfirst hlast
    obtain rfl := List.mem_singleton.mp hr
    have hsame : p = 1 := le_antisymm hlast hfirst
    rw [hsame]
    rfl
  · intro hsame
    have hlevel := (protections_restored_iff
      (run_patchCode 0x1FFF [0x90, 0xC3] code.world (.inr (by decide)))).1.mp hsame _
      List.mem_cons_self _ List.mem_cons_self (by decide) 2 (by decide) (by decide)
    revert hlevel
    decide

end Runs

end WindowsPages

end Chromatic
