import Chromatic.HookRuns
import Chromatic.SoftwareBreakpoint
import Chromatic.HardwareBreakpoint
import Chromatic.Foundation.Patches

/-!
# Cleanup

`runtime::cleanup` after any interleaving of breakpoint and hook operations.
Each patch saved what it found, so the code comes back when patches are undone
in an order compatible with their overlaps.

§1 cleanup · §2 patch sites · §3 calls and runs · §4 every call is a patch step ·
§5 what cleanup leaves.
-/

namespace Chromatic

open Foundation

namespace Cleanup

/-! ## §1  Cleanup -/

/-- `runtime::cleanup` after the memory monitors are disabled. -/
def cleanup (arch : Arch) (patch : Addr → PatchOutcome)
    (hws : List (Σ _ : ℕ, HwBreakpointEntry)) (bps : List (Σ _ : ℕ, BreakpointEntry))
    (hooks : List (Σ _ : ℕ, HookEntry)) (w : World) : Except String Unit × World :=
  match SoftwareBreakpoint.removeAll arch patch bps (HardwareBreakpoint.removeAll hws w) with
  | (.error e, w) => (.error e, w)
  | (.ok (), w) =>
    match Interceptor.detachAll patch hooks w with
    | (.error e, w) => (.error e, w)
    | (.ok (), w) => (.ok (), { w with exc := ExceptionHandler.disable w.exc })

/-! ## §2  Patch sites -/

/-- A breakpoint and a hook may share their address and are still two patches. -/
inductive Site where
  | bp (address : Addr)
  | hook (target : Addr)
deriving DecidableEq, Repr

def Site.start : Site → Addr
  | .bp a => a
  | .hook t => t

def Site.size (arch : Arch) : Site → ℕ
  | .bp _ => arch.bpInsnSize
  | .hook _ => arch.patchSize

def Site.Live (w : World) : Site → Prop
  | .bp a => a ∈ w.bp.bpByAddress
  | .hook t => t ∈ w.hooks.hooksByTarget

instance (w : World) (s : Site) : Decidable (s.Live w) := by
  cases s <;> (unfold Site.Live; infer_instance)

/-- What taking the patch at the site down would write back. -/
def Site.saved (arch : Arch) (w : World) : Site → List Byte
  | .bp a => ((w.bp.bpByAddress.lookup a).map (·.originalBytes.take arch.bpInsnSize)).getD []
  | .hook t =>
      ((w.hooks.hooksByTarget.lookup t).map fun e => e.originalBytes.take e.patchSize).getD []

def Site.foot (arch : Arch) (s : Site) : Set Addr := {x | InRegion s.start (s.size arch) x}

def Site.patch (arch : Arch) (w : World) (s : Site) : Patch Addr Byte :=
  ⟨s.foot arch, writeBytes (fun _ => 0) s.start (s.saved arch w)⟩

variable {arch : Arch}

theorem Site.patch_undo {w : World} {s : Site} {m : Memory}
    (hlen : (s.saved arch w).length = s.size arch) :
    (s.patch arch w).undo m = writeBytes m s.start (s.saved arch w) := by
  funext x
  by_cases hx : x ∈ (s.patch arch w).foot
  · have hin : InRegion s.start (s.saved arch w).length x := hlen ▸ hx
    rw [Patch.undo_of_mem hx]
    exact writeBytes_inside (m := fun _ => 0) hin
  · have hout : ¬ InRegion s.start (s.saved arch w).length x := hlen ▸ hx
    rw [Patch.undo_of_notMem hx, writeBytes_outside hout]

/-- Writing over bytes just saved is applying a patch. -/
theorem Site.patch_applied {w w' : World} {s : Site} {data : List Byte}
    (hlen : data.length = s.size arch) (hcode : w'.code = writeBytes w.code s.start data)
    (hsaved : s.saved arch w' = readBytes w.code s.start (s.size arch)) :
    (s.patch arch w').Applied w.code w'.code where
  saved x hx := by
    simp only [Site.patch, hsaved]
    exact writeBytes_readBytes hx
  outside x hx := by
    rw [hcode]
    exact writeBytes_outside (hlen ▸ hx)

/-! ## §3  Calls and runs -/

inductive Call where
  | set (env : SoftwareBreakpoint.Install) (address : Addr) (onHit : Callback)
  | remove (bpId : ℕ)
  | hook (c : Interceptor.Call)

def Call.exec (arch : Arch) : Call → World → World
  | .set env address onHit, w => (SoftwareBreakpoint.set arch env address onHit w).2
  | .remove bpId, w => (SoftwareBreakpoint.remove arch .ok bpId w).2
  | .hook c, w => c.exec arch w

/-- Patching succeeds and `new` returns fresh memory. -/
def Call.Permitted (w : World) : Call → Prop
  | .set env _ _ => env.patch = .ok
  | .remove _ => True
  | .hook c => c.Permitted w ∧ c.patch = .ok

/-- The site the call is to patch. -/
def Call.site : Call → Option Site
  | .set _ address _ => some (.bp address)
  | .hook (.attach _ target _ _) => some (.hook target)
  | .hook (.replace _ target _) => some (.hook target)
  | .remove _ => none
  | .hook (.detach _ _) => none
  | .hook (.revert _ _) => none

/-- The call takes down the live patch at the site. -/
def Call.Removes (w : World) : Call → Site → Prop
  | .set _ _ _, _ => False
  | .remove bpId, s => ∃ e, w.bp.bpById.lookup bpId = some e ∧ s = .bp e.address
  | .hook c, s => ∃ t, c.Removes w t ∧ s = .hook t

/-- `journal` lists the live patches, most recent first: a record of the run that
no operation reads. -/
structure PatchRun where
  world : World
  journal : List Site

def PatchRun.start (code : Memory) (disposition : Sig → SigAction) : PatchRun :=
  ⟨World.start code disposition, []⟩

/-- A site gone live goes on top, sites no longer live drop out. -/
def Call.log (w w' : World) (journal : List Site) (c : Call) : List Site :=
  c.site.toList.filter (fun s => s.Live w' ∧ ¬ s.Live w) ++ journal.filter (·.Live w')

inductive Step (arch : Arch) (s : PatchRun) (c : Call) : PatchRun → Prop where
  | intro (permitted : c.Permitted s.world) :
      Step arch s c
        ⟨c.exec arch s.world, c.log s.world (c.exec arch s.world) s.journal⟩

/-- A patch made later and still live reaches into the bytes of `s`. -/
def Covered (arch : Arch) (journal : List Site) (s : Site) : Prop :=
  ∃ k, Later journal k s ∧ Overlap s.start (s.size arch) k.start (k.size arch)

/-- The call takes no patch down from under another. -/
def FromTheTop (arch : Arch) (s : PatchRun) (c : Call) : Prop :=
  ∀ site, c.Removes s.world site → ¬ Covered arch s.journal site

theorem uncovered_of_not_covered {w : World} {journal : List Site} {s : Site}
    (h : ¬ Covered arch journal s) : Uncovered (Site.patch arch w) journal s := by
  intro k hk
  rw [Set.disjoint_left]
  exact fun x hx hx' => h ⟨k, hk, x, hx, hx'⟩

/-! ## §4  Every call is a patch step -/

/-- Code and live patches are as they were. -/
structure Same (arch : Arch) (w w' : World) : Prop where
  code : w'.code = w.code
  live : ∀ x : Site, x.Live w' ↔ x.Live w
  saved : ∀ x : Site, x.saved arch w' = x.saved arch w

/-- The site saved what it held and was written over. -/
structure GoesLive (arch : Arch) (site : Site) (w w' : World) : Prop where
  free : ¬ site.Live w
  live : ∀ x, Site.Live w' x ↔ x = site ∨ x.Live w
  saved : ∀ x ≠ site, x.saved arch w' = x.saved arch w
  own : site.saved arch w' = readBytes w.code site.start (site.size arch)
  code : ∃ data : List Byte, data.length = site.size arch ∧
    w'.code = writeBytes w.code site.start data

/-- The site got back what it saved. -/
structure TakenDown (arch : Arch) (site : Site) (w w' : World) : Prop where
  was : site.Live w
  live : ∀ x, Site.Live w' x ↔ x ≠ site ∧ x.Live w
  saved : ∀ x ≠ site, x.saved arch w' = x.saved arch w
  code : w'.code = writeBytes w.code site.start (site.saved arch w)

section Effects

variable {w w' : World}

theorem same_of_bp (h : SoftwareBreakpoint.Unchanged w w') : Same arch w w' where
  code := h.code
  live x := by cases x <;> simp [Site.Live, h.byAddress, h.hooks]
  saved x := by cases x <;> simp [Site.saved, h.byAddress, h.hooks]

theorem same_of_hook (h : Interceptor.Unchanged w w') : Same arch w w' where
  code := h.code
  live x := by cases x <;> simp [Site.Live, h.bp, h.hooks]
  saved x := by cases x <;> simp [Site.saved, h.bp, h.hooks]

theorem goesLive_of_set {entry : BreakpointEntry}
    (h : SoftwareBreakpoint.Installed arch entry w w') :
    GoesLive arch (.bp entry.address) w w' where
  free := h.free
  live x := by cases x <;> simp [Site.Live, h.byAddress, h.hooks]
  saved x hx := by
    cases x with
    | bp a =>
        have hne : a ≠ entry.address := fun e => hx (e ▸ rfl)
        simp [Site.saved, h.byAddress, AList.lookup_insert_ne hne]
    | hook t => simp [Site.saved, h.hooks]
  own := by
    simp only [Site.saved, h.byAddress, AList.lookup_insert, Option.map_some, Option.getD_some]
    rw [h.saved, List.take_of_length_le (by simp)]
    rfl
  code := ⟨bpInsn arch, length_bpInsn arch, h.code⟩

theorem goesLive_of_hook {entry : HookEntry} {dest : Addr}
    (h : Interceptor.Installed arch entry dest w w') :
    GoesLive arch (.hook entry.target) w w' where
  free := h.free
  live x := by cases x <;> simp [Site.Live, h.byTarget, h.bp]
  saved x hx := by
    cases x with
    | bp a => simp [Site.saved, h.bp]
    | hook t =>
        have hne : t ≠ entry.target := fun e => hx (e ▸ rfl)
        simp [Site.saved, h.byTarget, AList.lookup_insert_ne hne]
  own := by
    simp only [Site.saved, h.byTarget, AList.lookup_insert, Option.map_some, Option.getD_some]
    rw [h.size, h.saved, List.take_of_length_le (by simp)]
    rfl
  code := ⟨generatePatchBytes arch dest, length_generatePatchBytes arch dest, h.code⟩

theorem takenDown_of_remove {bpId : ℕ} {entry : BreakpointEntry}
    (h : SoftwareBreakpoint.Removed arch bpId entry w w')
    (hlookup : w.bp.bpByAddress.lookup entry.address = some entry) :
    TakenDown arch (.bp entry.address) w w' where
  was := AList.lookup_isSome.mp (by simp [hlookup])
  live x := by cases x <;> simp [Site.Live, h.byAddress, h.hooks]
  saved x hx := by
    cases x with
    | bp a =>
        have hne : a ≠ entry.address := fun e => hx (e ▸ rfl)
        simp [Site.saved, h.byAddress, AList.lookup_erase_ne hne]
    | hook t => simp [Site.saved, h.hooks]
  code := by
    rw [h.code]
    simp [Site.saved, Site.start, hlookup]

theorem takenDown_of_hook {hookId : ℕ} {entry : HookEntry}
    (h : Interceptor.Removed hookId entry w w')
    (hlookup : w.hooks.hooksByTarget.lookup entry.target = some entry) :
    TakenDown arch (.hook entry.target) w w' where
  was := AList.lookup_isSome.mp (by simp [hlookup])
  live x := by cases x <;> simp [Site.Live, h.byTarget, h.bp]
  saved x hx := by
    cases x with
    | bp a => simp [Site.saved, h.bp]
    | hook t =>
        have hne : t ≠ entry.target := fun e => hx (e ▸ rfl)
        simp [Site.saved, h.byTarget, AList.lookup_erase_ne hne]
  code := by
    rw [h.code]
    simp [Site.saved, Site.start, hlookup]

end Effects

/-- The registries are indexed and every entry saved as many bytes as it patches. -/
structure Registries (arch : Arch) (w : World) : Prop where
  bps : Indexed BreakpointEntry.address w.bp.bpById w.bp.bpByAddress w.bp.nextBpId
  bpSizes : ∀ id e, w.bp.bpById.lookup id = some e →
    e.originalBytes.length = arch.bpInsnSize
  hooks : Interceptor.Registry arch w.hooks

theorem Registries.length_saved {w : World} (h : Registries arch w) {x : Site}
    (hlive : x.Live w) : (x.saved arch w).length = x.size arch := by
  cases x with
  | bp a =>
      obtain ⟨e, he⟩ := Option.isSome_iff_exists.mp (AList.lookup_isSome.mpr hlive)
      obtain ⟨-, id, hid⟩ := h.bps.toId he
      simp [Site.saved, he, h.bpSizes id e hid, Site.size]
  | hook t =>
      obtain ⟨e, he⟩ := Option.isSome_iff_exists.mp (AList.lookup_isSome.mpr hlive)
      obtain ⟨-, id, hid⟩ := h.hooks.indexed.toId he
      obtain ⟨hsize, hlen⟩ := h.hooks.sizes hid
      simp [Site.saved, he, hsize, hlen, Site.size]

section Registries

variable {w w' : World}

theorem Registries.unchanged (h : Registries arch w)
    (hun : SoftwareBreakpoint.Unchanged w w') : Registries arch w' where
  bps := by
    rw [hun.byId, hun.byAddress, hun.nextId]
    exact h.bps
  bpSizes := by
    rw [hun.byId]
    exact h.bpSizes
  hooks := by
    rw [hun.hooks]
    exact h.hooks

theorem Registries.set {entry : BreakpointEntry} (h : Registries arch w)
    (hi : SoftwareBreakpoint.Installed arch entry w w') : Registries arch w' where
  bps := by
    rw [hi.byId, hi.byAddress, hi.nextId]
    exact h.bps.insert hi.free
  bpSizes := by
    rw [hi.byId]
    intro id e he
    rcases lookup_insert_cases he with ⟨-, rfl⟩ | ⟨-, hold⟩
    · rw [hi.saved, length_readBytes]
    · exact h.bpSizes id e hold
  hooks := by
    rw [hi.hooks]
    exact h.hooks

theorem Registries.remove {bpId : ℕ} {entry : BreakpointEntry} (h : Registries arch w)
    (hr : SoftwareBreakpoint.Removed arch bpId entry w w') : Registries arch w' where
  bps := by
    rw [hr.byId, hr.byAddress, hr.nextId]
    exact h.bps.erase hr.live
  bpSizes := by
    rw [hr.byId]
    exact fun id e he => h.bpSizes id e (lookup_erase_cases he).2
  hooks := by
    rw [hr.hooks]
    exact h.hooks

/-- Hook operations leave the breakpoint maps alone. -/
theorem Registries.hook (h : Registries arch w) (hbp : w'.bp = w.bp)
    (hhooks : Interceptor.Registry arch w'.hooks) : Registries arch w' where
  bps := by
    rw [hbp]
    exact h.bps
  bpSizes := by
    rw [hbp]
    exact h.bpSizes
  hooks := hhooks

end Registries

theorem Call.site_of_writes {w : World} {c : Interceptor.Call} {t : Addr}
    (h : c.Writes w t) : Call.site (.hook c) = some (.hook t) := by
  cases c with
  | attach env target onEnter onLeave => rw [h.1]; rfl
  | replace env target replacement => rw [h.1]; rfl
  | detach patch hookId => exact h.elim
  | revert patch target => exact h.elim

/-- What a permitted call does: nothing, or it patches its site, or it takes one
patch down. -/
theorem exec_cases {w : World} {c : Call} (h : Registries arch w) (hok : c.Permitted w) :
    Registries arch (c.exec arch w) ∧
    (Same arch w (c.exec arch w) ∨
      (∃ site, c.site = some site ∧ GoesLive arch site w (c.exec arch w)) ∨
      ∃ site, c.Removes w site ∧ TakenDown arch site w (c.exec arch w)) := by
  cases c with
  | set env address onHit =>
      rcases SoftwareBreakpoint.set_cases arch address onHit w hok with hun | ⟨entry, rfl, hi⟩
      · exact ⟨h.unchanged hun, Or.inl (same_of_bp hun)⟩
      · exact ⟨h.set hi, Or.inr (Or.inl ⟨_, rfl, goesLive_of_set hi⟩)⟩
  | remove bpId =>
      rcases SoftwareBreakpoint.remove_cases arch bpId w with hun | ⟨entry, hr⟩
      · exact ⟨h.unchanged hun, Or.inl (same_of_bp hun)⟩
      · exact ⟨h.remove hr, Or.inr (Or.inr ⟨_, ⟨entry, hr.live, rfl⟩,
          takenDown_of_remove hr (h.bps.toKey hr.live)⟩)⟩
  | hook c =>
      obtain ⟨hfresh, hpatch⟩ := hok
      rcases Interceptor.exec_cases h.hooks hfresh with
        hun | ⟨entry, dest, hw, -, hself, hi⟩ | ⟨hookId, entry, hrem, hr⟩ | ⟨hrx, -⟩
      · exact ⟨h.hook hun.bp (hun.hooks.symm ▸ h.hooks), Or.inl (same_of_hook hun)⟩
      · exact ⟨h.hook hi.bp (h.hooks.installed hi hself),
          Or.inr (Or.inl ⟨_, Call.site_of_writes hw, goesLive_of_hook hi⟩)⟩
      · exact ⟨h.hook hr.bp (h.hooks.removed hr), Or.inr (Or.inr ⟨_, ⟨_, hrem, rfl⟩,
          takenDown_of_hook hr (h.hooks.indexed.toKey hr.live)⟩)⟩
      · rw [hpatch] at hrx
        cases hrx

/-- The registries agree with the journal. -/
structure WellFormed (arch : Arch) (s : PatchRun) : Prop where
  registries : Registries arch s.world
  nodup : s.journal.Nodup
  live : ∀ x, x ∈ s.journal ↔ x.Live s.world

/-- The abstract view of a run: code under its live patches. -/
def PatchRun.patched (arch : Arch) (s : PatchRun) : Patched Site Addr Byte :=
  ⟨s.world.code, Site.patch arch s.world, s.journal⟩

section Log

variable {w w' : World} {journal : List Site} {c : Call}

theorem log_same (hlive : ∀ x, x ∈ journal ↔ Site.Live w x) (h : Same arch w w') :
    c.log w w' journal = journal := by
  have hnew : c.site.toList.filter (fun s => s.Live w' ∧ ¬ s.Live w) = [] := by
    simp [h.live]
  have hold : journal.filter (·.Live w') = journal :=
    List.filter_eq_self.mpr fun x hx => by simpa [h.live] using (hlive x).mp hx
  rw [Call.log, hnew, hold, List.nil_append]

theorem log_goesLive {site : Site} (hlive : ∀ x, x ∈ journal ↔ Site.Live w x)
    (hsite : c.site = some site) (h : GoesLive arch site w w') :
    c.log w w' journal = site :: journal := by
  have hnew : c.site.toList.filter (fun s => s.Live w' ∧ ¬ s.Live w) = [site] := by
    simp [hsite, h.live, h.free]
  have hold : journal.filter (·.Live w') = journal :=
    List.filter_eq_self.mpr fun x hx => by simpa [h.live] using Or.inr ((hlive x).mp hx)
  rw [Call.log, hnew, hold, List.singleton_append]

theorem log_takenDown {site : Site} (hnodup : journal.Nodup)
    (hlive : ∀ x, x ∈ journal ↔ Site.Live w x) (h : TakenDown arch site w w') :
    c.log w w' journal = journal.erase site := by
  have hnew : c.site.toList.filter (fun s => s.Live w' ∧ ¬ s.Live w) = [] := by
    simp only [h.live, List.filter_eq_nil_iff, decide_eq_true_eq]
    exact fun x _ hx => hx.2 hx.1.2
  have hold : journal.filter (·.Live w') = journal.erase site := by
    rw [hnodup.erase_eq_filter]
    refine List.filter_congr fun x hx => ?_
    by_cases hsite : x = site <;> simp [h.live, (hlive x).mp hx, hsite]
  rw [Call.log, hnew, hold, List.nil_append]

end Log

/-- **Calls are patch steps.** A call that takes no patch down from under another is
one step of the abstract store under patches. -/
theorem WellFormed.step {s t : PatchRun} {c : Call} (h : WellFormed arch s)
    (hstep : Step arch s c t) (htop : FromTheTop arch s c) :
    WellFormed arch t ∧ PatchStep (s.patched arch) (t.patched arch) := by
  obtain ⟨hok⟩ := hstep
  obtain ⟨hreg, hsame | ⟨site, hsite, hgo⟩ | ⟨site, hrem, hdown⟩⟩ :=
    exec_cases h.registries hok
  · have hlog := log_same (c := c) h.live hsame
    refine ⟨⟨hreg, by simpa only [hlog] using h.nodup, fun x => ?_⟩, ?_⟩
    · simp only [hlog, hsame.live, h.live]
    · refine .stay hsame.code hlog fun x _ => ?_
      simp only [PatchRun.patched, Site.patch, hsame.saved]
  · have hlog := log_goesLive h.live hsite hgo
    have hfresh : site ∉ s.journal := fun hmem => hgo.free ((h.live site).mp hmem)
    obtain ⟨data, hlen, hcode⟩ := hgo.code
    refine ⟨⟨hreg, ?_, fun x => ?_⟩, ?_⟩
    · simpa only [hlog] using List.nodup_cons.mpr ⟨hfresh, h.nodup⟩
    · simp only [hlog, hgo.live, List.mem_cons, h.live]
    · refine .apply site hfresh (Site.patch_applied hlen hcode hgo.own) hlog fun x hx => ?_
      have hne : x ≠ site := fun e => hfresh (e ▸ hx)
      simp only [PatchRun.patched, Site.patch, hgo.saved x hne]
  · have hlog := log_takenDown (c := c) h.nodup h.live hdown
    refine ⟨⟨hreg, ?_, fun x => ?_⟩, ?_⟩
    · simpa only [hlog] using h.nodup.erase site
    · simp only [hlog, hdown.live, h.nodup.mem_erase_iff, h.live]
    · refine .undo site ((h.live site).mpr hdown.was)
        (uncovered_of_not_covered (htop site hrem)) ?_ hlog fun x _ hne => ?_
      · rw [PatchRun.patched, PatchRun.patched, hdown.code]
        exact (Site.patch_undo (h.registries.length_saved hdown.was)).symm
      · simp only [PatchRun.patched, Site.patch, hdown.saved x hne]

/-! ## §5  What cleanup leaves -/

/-- No live breakpoint lies under a patch made later, no two live hooks overlap. -/
structure Unstacked (arch : Arch) (s : PatchRun) : Prop where
  bps : ∀ a, Site.bp a ∈ s.journal → ¬ Covered arch s.journal (.bp a)
  hooks : ∀ t t', Site.hook t ∈ s.journal → Site.hook t' ∈ s.journal → t ≠ t' →
    ¬ Overlap t arch.patchSize t' arch.patchSize

/-- The sites of the entries of a loop, in its order. -/
def bpSites (order : List (Σ _ : ℕ, BreakpointEntry)) : List Site :=
  (order.map (·.2.address)).map .bp

def hookSites (order : List (Σ _ : ℕ, HookEntry)) : List Site :=
  (order.map (·.2.target)).map .hook

section Sites

variable {w : World} {m : Memory} {bps : List (Σ _ : ℕ, BreakpointEntry)}
  {hooks : List (Σ _ : ℕ, HookEntry)}

theorem Registries.mem_bpSites (h : Registries arch w)
    (hperm : bps.Perm w.bp.bpById.entries) {x : Site} :
    x ∈ bpSites bps ↔ x.Live w ∧ ∃ a, x = .bp a := by
  rw [bpSites, List.mem_map]
  constructor
  · rintro ⟨a, ha, rfl⟩
    exact ⟨(h.bps.mem_keys_iff hperm).mp ha, a, rfl⟩
  · rintro ⟨hlive, a, rfl⟩
    exact ⟨a, (h.bps.mem_keys_iff hperm).mpr hlive, rfl⟩

theorem Registries.mem_hookSites (h : Registries arch w)
    (hperm : hooks.Perm w.hooks.hooksById.entries) {x : Site} :
    x ∈ hookSites hooks ↔ x.Live w ∧ ∃ t, x = .hook t := by
  rw [hookSites, List.mem_map]
  constructor
  · rintro ⟨t, ht, rfl⟩
    exact ⟨(h.hooks.indexed.mem_keys_iff hperm).mp ht, t, rfl⟩
  · rintro ⟨hlive, t, rfl⟩
    exact ⟨t, (h.hooks.indexed.mem_keys_iff hperm).mpr hlive, rfl⟩

theorem Registries.bpSites_nodup (h : Registries arch w)
    (hperm : bps.Perm w.bp.bpById.entries) : (bpSites bps).Nodup :=
  (h.bps.keys_nodup hperm).map fun _ _ e => Site.bp.inj e

theorem Registries.hookSites_nodup (h : Registries arch w)
    (hperm : hooks.Perm w.hooks.hooksById.entries) : (hookSites hooks).Nodup :=
  (h.hooks.indexed.keys_nodup hperm).map fun _ _ e => Site.hook.inj e

/-- The loop of `removeAll` undoes the breakpoints in its order. -/
theorem Registries.unwind_bps (h : Registries arch w)
    (hperm : bps.Perm w.bp.bpById.entries) :
    SoftwareBreakpoint.writeBack arch bps m =
      unwind (Site.patch arch w) (bpSites bps) m := by
  rw [SoftwareBreakpoint.writeBack, unwind, bpSites, List.map_map, List.foldl_map]
  refine List.foldl_ext _ _ _ fun m e he => ?_
  have hlookup := h.bps.toKey (AList.mem_lookup_iff.mpr (hperm.mem_iff.mp he))
  have hlive : Site.Live w (.bp e.2.address) := AList.lookup_isSome.mp (by simp [hlookup])
  rw [Function.comp_apply, Site.patch_undo (h.length_saved hlive)]
  simp [Site.saved, Site.start, hlookup]

/-- The loop of `detachAll` undoes the hooks in its order. -/
theorem Registries.unwind_hooks (h : Registries arch w)
    (hperm : hooks.Perm w.hooks.hooksById.entries) :
    Interceptor.writeBack hooks m = unwind (Site.patch arch w) (hookSites hooks) m := by
  rw [Interceptor.writeBack, unwind, hookSites, List.map_map, List.foldl_map]
  refine List.foldl_ext _ _ _ fun m e he => ?_
  have hlookup := h.hooks.indexed.toKey (AList.mem_lookup_iff.mpr (hperm.mem_iff.mp he))
  have hlive : Site.Live w (.hook e.2.target) := AList.lookup_isSome.mp (by simp [hlookup])
  rw [Function.comp_apply, Site.patch_undo (h.length_saved hlive)]
  simp [Site.saved, Site.start, hlookup]

end Sites

theorem cleanup_code (w : World) (hws : List (Σ _ : ℕ, HwBreakpointEntry))
    (bps : List (Σ _ : ℕ, BreakpointEntry)) (hooks : List (Σ _ : ℕ, HookEntry)) :
    (cleanup arch (fun _ => .ok) hws bps hooks w).2.code =
      Interceptor.writeBack hooks (SoftwareBreakpoint.writeBack arch bps w.code) := by
  obtain ⟨w₁, heq₁, hcleared₁⟩ := SoftwareBreakpoint.removeAll_ok arch (fun _ => .ok) bps
    (HardwareBreakpoint.removeAll hws w) fun _ _ => rfl
  obtain ⟨w₂, heq₂, hcleared₂⟩ := Interceptor.detachAll_ok (fun _ => .ok) hooks w₁
    fun _ _ => rfl
  simp only [cleanup, heq₁, heq₂]
  rw [hcleared₂.code, hcleared₁.code, (HardwareBreakpoint.removeAll_frame hws w).code]

/-- Breakpoints are undone first, hooks after them, each in any order. -/
theorem cleanup_unwinds {s : PatchRun} {code : Memory} (h : WellFormed arch s)
    (hunwinds : (s.patched arch).Unwinds code) (hun : Unstacked arch s)
    {bps : List (Σ _ : ℕ, BreakpointEntry)} {hooks : List (Σ _ : ℕ, HookEntry)}
    (hws : List (Σ _ : ℕ, HwBreakpointEntry))
    (hbps : bps.Perm s.world.bp.bpById.entries)
    (hhooks : hooks.Perm s.world.hooks.hooksById.entries) :
    (cleanup arch (fun _ => .ok) hws bps hooks s.world).2.code = code := by
  have mem_bps : ∀ {x}, x ∈ bpSites bps ↔ x.Live s.world ∧ ∃ a, x = .bp a :=
    h.registries.mem_bpSites hbps
  have mem_hooks : ∀ {x}, x ∈ hookSites hooks ↔ x.Live s.world ∧ ∃ t, x = .hook t :=
    h.registries.mem_hookSites hhooks
  let above := s.journal.filter (· ∉ bpSites bps)
  -- breakpoints lie on top, so taking them down first changes nothing below
  have first : unwind (Site.patch arch s.world) above
      (unwind (Site.patch arch s.world) (bpSites bps) s.world.code) = code := by
    rw [unwind_filter h.nodup (h.registries.bpSites_nodup hbps)]
    · exact hunwinds.unwound
    · intro x hx
      obtain ⟨hlive, a, rfl⟩ := mem_bps.mp hx
      have hmem := (h.live _).mpr hlive
      exact ⟨hmem, uncovered_of_not_covered (hun.bps a hmem)⟩
  -- what is left are hooks, apart from each other
  have second : unwind (Site.patch arch s.world) (above.filter (· ∉ hookSites hooks))
      (unwind (Site.patch arch s.world) (hookSites hooks)
        (unwind (Site.patch arch s.world) (bpSites bps) s.world.code)) = code := by
    rw [unwind_filter (h.nodup.filter _) (h.registries.hookSites_nodup hhooks)]
    · exact first
    · intro x hx
      obtain ⟨hlive, t, rfl⟩ := mem_hooks.mp hx
      have hmem := (h.live _).mpr hlive
      refine ⟨?_, uncovered_of_not_covered ?_⟩
      · simp [hmem, mem_bps]
      · rintro ⟨k, hlater, hov⟩
        obtain ⟨hk, hnot⟩ := List.mem_filter.mp hlater.mem
        have hne : k ≠ .hook t := hlater.ne (h.nodup.filter _)
        cases k with
        | bp a => simp [mem_bps, (h.live _).mp hk] at hnot
        | hook t' => exact hun.hooks t t' hmem hk (fun e => hne (e ▸ rfl)) hov
  have nothing : above.filter (· ∉ hookSites hooks) = [] := by
    rw [List.filter_eq_nil_iff]
    intro x hx
    have hlive : x.Live s.world := (h.live x).mp (List.mem_of_mem_filter hx)
    have hnot : x ∉ bpSites bps := by simpa using (List.mem_filter.mp hx).2
    cases x with
    | bp a => exact absurd (mem_bps.mpr ⟨hlive, a, rfl⟩) hnot
    | hook t => simp [mem_hooks.mpr ⟨hlive, t, rfl⟩]
  rw [cleanup_code s.world hws bps hooks, h.registries.unwind_bps hbps,
    h.registries.unwind_hooks hhooks, ← second, nothing, unwind_nil]

theorem WellFormed.start (code : Memory) (disposition : Sig → SigAction) :
    WellFormed arch (PatchRun.start code disposition) where
  registries := ⟨Indexed.empty, fun _ _ h => by simp [PatchRun.start, World.start,
    BreakpointState.start] at h, Interceptor.Registry.empty⟩
  nodup := List.nodup_nil
  live x := by
    cases x <;> simp [PatchRun.start, World.start, Site.Live, BreakpointState.start,
      HookState.start]

/-- **Cleanup restores the code.** After a run that takes no patch down from under a
later one, and with no live breakpoint under a later patch and no two live hooks
overlapping, cleanup brings back every byte, whatever order the maps are visited in. -/
theorem cleanup_restores {code : Memory} {disposition : Sig → SigAction}
    {tr : List (PatchRun × Call)} {s : PatchRun}
    (run : Run (Step arch) (PatchRun.start code disposition) tr s)
    (htop : Guarded (FromTheTop arch) tr) (hun : Unstacked arch s)
    {bps : List (Σ _ : ℕ, BreakpointEntry)} {hooks : List (Σ _ : ℕ, HookEntry)}
    (hws : List (Σ _ : ℕ, HwBreakpointEntry))
    (hbps : bps.Perm s.world.bp.bpById.entries)
    (hhooks : hooks.Perm s.world.hooks.hooksById.entries) :
    (cleanup arch (fun _ => .ok) hws bps hooks s.world).2.code = code := by
  have inv : Throughout (fun s => WellFormed arch s ∧ (s.patched arch).Unwinds code) tr s := by
    refine run.guarded_invariant ⟨WellFormed.start code disposition, ?_⟩ ?_ htop
    · exact ⟨List.nodup_nil, rfl⟩
    · rintro s c t ⟨hwf, hunwinds⟩ hc hstep
      obtain ⟨hwf', hpatch⟩ := hwf.step hstep hc
      exact ⟨hwf', hpatch.unwinds hunwinds⟩
  exact cleanup_unwinds inv.2.1 inv.2.2 hun hws hbps hhooks

section Concrete

def blank : Memory := fun _ => 0

def setCall : Call :=
  .set ⟨0x10, .ok (0x5000, 1), .ok 0x5100, .ok⟩ 0x1000 0

def attachCall : Call :=
  .hook (.attach ⟨0x20, .ok (0x7000, 14), .ok 0x7100, .ok⟩ 0x1000 1 2)

def afterSet : PatchRun :=
  ⟨setCall.exec .x64 (World.start blank defaultActions), [.bp 0x1000]⟩

def afterAttach : PatchRun :=
  ⟨attachCall.exec .x64 afterSet.world, [.hook 0x1000, .bp 0x1000]⟩

theorem step_setCall : Step .x64 (PatchRun.start blank defaultActions) setCall afterSet :=
  ⟨rfl⟩

def setAbove : Call := .set ⟨0x30, .ok (0x5200, 1), .ok 0x5300, .ok⟩ 0x3000 0

def attachBetween : Call :=
  .hook (.attach ⟨0x20, .ok (0x7000, 14), .ok 0x7100, .ok⟩ 0x2000 1 2)

def afterSetAbove : PatchRun :=
  ⟨setAbove.exec .x64 afterSet.world, [.bp 0x3000, .bp 0x1000]⟩

def afterAttachBetween : PatchRun :=
  ⟨attachBetween.exec .x64 afterSetAbove.world, [.hook 0x2000, .bp 0x3000, .bp 0x1000]⟩

/-- The breakpoint that was set first is removed while the others are there. -/
def afterRemove : PatchRun :=
  ⟨(Call.remove 1).exec .x64 afterAttachBetween.world, [.hook 0x2000, .bp 0x3000]⟩

theorem run_apart : Run (Step .x64) (PatchRun.start blank defaultActions)
    [(PatchRun.start blank defaultActions, setCall), (afterSet, setAbove),
      (afterSetAbove, attachBetween), (afterAttachBetween, .remove 1)] afterRemove := by
  have second : Step .x64 afterSet setAbove afterSetAbove := ⟨rfl⟩
  have third : Step .x64 afterSetAbove attachBetween afterAttachBetween := by
    refine ⟨⟨?_, rfl⟩⟩
    have hempty : afterSetAbove.world.hooks = HookState.start := rfl
    intro id e he
    simp [hempty, HookState.start] at he
  exact (((Run.nil.snoc step_setCall).snoc second).snoc third).snoc ⟨trivial⟩

theorem not_covered_of_pairwise {journal : List Site} {x : Site}
    (h : journal.Pairwise fun k x => ¬ Overlap x.start (x.size arch) k.start (k.size arch)) :
    ¬ Covered arch journal x := by
  rintro ⟨k, hk, hoverlap⟩
  exact List.rel_of_pairwise_cons (h.sublist hk) List.mem_cons_self hoverlap

/-- No two of the three patches overlap. -/
theorem not_covered_apart {journal : List Site} {x : Site}
    (hsub : journal.Sublist [.hook 0x2000, .bp 0x3000, .bp 0x1000]) :
    ¬ Covered .x64 journal x := by
  have hhigh : ¬ Overlap 0x3000 1 0x2000 14 :=
    (overlap_iff (by decide) (by decide)).not.mpr (by decide)
  have hlow : ¬ Overlap 0x1000 1 0x2000 14 :=
    (overlap_iff (by decide) (by decide)).not.mpr (by decide)
  have hbps : ¬ Overlap 0x1000 1 0x3000 1 :=
    (overlap_iff (by decide) (by decide)).not.mpr (by decide)
  refine not_covered_of_pairwise (List.Pairwise.sublist hsub ?_)
  exact .cons (List.forall_mem_cons.mpr ⟨hhigh, List.forall_mem_singleton.mpr hlow⟩)
    (.cons (List.forall_mem_singleton.mpr hbps) (List.pairwise_singleton _ _))

theorem cleanup_restores_apart :
    (cleanup .x64 (fun _ => .ok) [] afterRemove.world.bp.bpById.entries
      afterRemove.world.hooks.hooksById.entries afterRemove.world).2.code = blank := by
  refine cleanup_restores run_apart ?_ ⟨?_, ?_⟩ [] (List.Perm.refl _) (List.Perm.refl _)
  · intro p hp site hsite
    simp only [List.mem_cons, List.not_mem_nil, or_false] at hp
    rcases hp with rfl | rfl | rfl | rfl
    · exact hsite.elim
    · exact hsite.elim
    · obtain ⟨t, ht, -⟩ := hsite
      exact ht.elim
    · exact not_covered_apart (List.Sublist.refl _)
  · exact fun a _ => not_covered_apart (by decide)
  · intro t t' ht ht' hne
    simp [afterRemove] at ht ht'
    exact absurd (ht.trans ht'.symm) hne

/-- A hook attached over a breakpoint saves the trap instruction and puts it back. -/
theorem cleanup_leaves_trap :
    ∃ tr s, Run (Step .x64) (PatchRun.start blank defaultActions) tr s ∧
      tr.map Prod.snd = [setCall, attachCall] ∧
      (cleanup .x64 (fun _ => .ok) [] s.world.bp.bpById.entries
        s.world.hooks.hooksById.entries s.world).2.code 0x1000 ≠ blank 0x1000 := by
  have second : Step .x64 afterSet attachCall afterAttach := by
    refine ⟨⟨?_, rfl⟩⟩
    have hempty : afterSet.world.hooks = HookState.start := rfl
    intro id e he
    simp [hempty, HookState.start] at he
  exact ⟨_, afterAttach, (Run.nil.snoc step_setCall).snoc second, rfl, by decide⟩

end Concrete

end Cleanup

end Chromatic
