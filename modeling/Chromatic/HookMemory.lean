import Chromatic.HookRuns
import Mathlib.Data.List.TakeWhile

/-!
# The memory of hooks

Which blocks of machine code the interceptor holds, along any run whose patches succeed: those
of its live entries, and each is released once.

§1 blocks · §2 what an operation does with them · §3 effects · §4 the registry and its blocks ·
§5 runs · §6 a hook set twice.
-/

namespace Chromatic

open Foundation

namespace Interceptor

/-! ## §1  Blocks -/

/-- A null pointer is no block. -/
def blockAt (p : Addr) : List Addr := if p = 0 then [] else [p]

def entryBlocks (e : HookEntry) : List Addr := blockAt e.trampolineCode ++ blockAt e.relocatedCode

def liveBlocks (h : HookState) : List Addr := h.hooksById.entries.flatMap fun e => entryBlocks e.2

/-- `JitRuntime::add` returns memory that is not in use. -/
def FreshBlock (w : World) (block : Addr) : Prop := block ≠ 0 ∧ block ∉ w.jit

/-! ## §2  What an operation does with them -/

def Event.exec (arch : Arch) : Event → World → World
  | .call c, w => c.exec arch w
  | .detachAll patch order, w => (Interceptor.detachAll patch order w).2

/-- The blocks that are added, the last one first. -/
def Event.added (w : World) : Event → List Addr
  | .call (.attach env target _ _) =>
      if target ∈ w.hooks.hooksByTarget then []
      else
        match env.relocated, env.trampoline with
        | .ok (relocatedCode, _), .ok trampolineCode => [trampolineCode, relocatedCode]
        | .ok (relocatedCode, _), .error _ => [relocatedCode]
        | .error _, _ => []
  | .call (.replace env target _) =>
      if target ∈ w.hooks.hooksByTarget then []
      else
        match env.relocated with
        | .ok (relocatedCode, _) => [relocatedCode]
        | .error _ => []
  | _ => []

/-- The blocks that are released, in this order. -/
def Event.released (w : World) : Event → List Addr
  | .call (.attach env target _ _) =>
      if target ∈ w.hooks.hooksByTarget then []
      else
        match env.relocated, env.trampoline with
        | .ok (relocatedCode, _), .error _ => blockAt relocatedCode
        | _, _ => []
  | .call (.replace _ _ _) => []
  | .call (.detach patch hookId) =>
      if patch = .ok then (w.hooks.hooksById.lookup hookId).toList.flatMap entryBlocks else []
  | .call (.revert patch target) =>
      if patch = .ok then (w.hooks.hooksByTarget.lookup target).toList.flatMap entryBlocks else []
  | .detachAll patch order =>
      (order.takeWhile fun e => patch e.2.target = .ok).flatMap fun e => entryBlocks e.2

/-- The blocks are released, in this order. -/
structure Releases (blocks : List Addr) (w w' : World) : Prop where
  jit : w'.jit = w.jit.diff blocks
  released : w'.released = w.released ++ blocks

section Blocks

variable {w w' w'' : World} {blocks blocks' : List Addr}

theorem Releases.none (hjit : w'.jit = w.jit) (hreleased : w'.released = w.released) :
    Releases [] w w' :=
  ⟨hjit, hreleased.trans (List.append_nil _).symm⟩

/-- Only the two lists count. -/
theorem Releases.congr {u u' : World} (h : Releases blocks w w') (hjit : u.jit = w.jit)
    (hreleased : u.released = w.released) (hjit' : u'.jit = w'.jit)
    (hreleased' : u'.released = w'.released) : Releases blocks u u' :=
  ⟨by rw [hjit', hjit, h.jit], by rw [hreleased', hreleased, h.released]⟩

theorem Releases.trans (h : Releases blocks w w') (h' : Releases blocks' w' w'') :
    Releases (blocks ++ blocks') w w'' where
  jit := by rw [h'.jit, h.jit, List.diff_append]
  released := by rw [h'.released, h.released, List.append_assoc]

theorem releaseCode_releases (w : World) (p : Addr) :
    Releases (blockAt p) w (w.releaseCode p) := by
  unfold World.releaseCode blockAt
  split_ifs
  · exact .none rfl rfl
  · exact ⟨by simp, rfl⟩

theorem releaseEntry_releases (entry : HookEntry) (w : World) :
    Releases (entryBlocks entry) w (releaseEntry entry w) := by
  have h := (releaseCode_releases w entry.trampolineCode).trans
    (releaseCode_releases _ entry.relocatedCode)
  exact h.congr rfl rfl rfl rfl

theorem restoreAll_releases (patch : Addr → PatchOutcome) (order : List (Σ _ : ℕ, HookEntry))
    (w : World) : Releases
      ((order.takeWhile fun e => patch e.2.target = .ok).flatMap fun e => entryBlocks e.2)
      w (restoreAll patch order w).2 := by
  induction order generalizing w with
  | nil => exact .none rfl rfl
  | cons e rest ih =>
      rw [restoreAll, restore]
      cases hpatch : patch e.2.target with
      | ok =>
          rw [List.takeWhile_cons_of_pos (by simp [hpatch]), List.flatMap_cons,
            makeWritableAndPatch_ok]
          have h := (releaseEntry_releases e.2
            { w with code := writeBytes w.code e.2.target (e.2.originalBytes.take e.2.patchSize) })
          exact (h.trans (ih _)).congr rfl rfl rfl rfl
      | rwDenied | rxDenied =>
          rw [List.takeWhile_cons_of_neg (by simp [hpatch])]
          exact .none rfl rfl

/-- An operation releases what is listed, of the blocks held before and those it adds. -/
theorem exec_releases (arch : Arch) (ev : Event) (w : World) :
    Releases (ev.released w) { w with jit := ev.added w ++ w.jit } (ev.exec arch w) := by
  cases ev with
  | call c =>
      cases c with
      | attach env target onEnter onLeave =>
          simp only [Event.exec, Call.exec, Event.added, Event.released, Interceptor.attach]
          split_ifs with hlive
          · exact .none rfl rfl
          · cases env.relocated with
            | error e => exact .none rfl rfl
            | ok block =>
                cases env.trampoline with
                | error e =>
                    have h := releaseCode_releases ((w.allocate env.self).addCode block.1) block.1
                    exact h.congr rfl rfl rfl rfl
                | ok t => cases env.patch <;> exact .none rfl rfl
      | replace env target replacement =>
          simp only [Event.exec, Call.exec, Event.added, Event.released, Interceptor.replace]
          split_ifs with hlive
          · exact .none rfl rfl
          · cases env.relocated with
            | error e => exact .none rfl rfl
            | ok block => cases env.patch <;> exact .none rfl rfl
      | detach patch hookId =>
          simp only [Event.exec, Call.exec, Event.added, Event.released, Interceptor.detach]
          cases w.hooks.hooksById.lookup hookId with
          | none => rw [Option.toList_none, List.flatMap_nil, ite_self]; exact .none rfl rfl
          | some entry =>
              cases patch with
              | ok =>
                  have h := releaseEntry_releases entry
                    { w with
                      code := writeBytes w.code entry.target
                        (entry.originalBytes.take entry.patchSize) }
                  rw [if_pos rfl, Option.toList_some, List.flatMap_singleton]
                  exact h.congr rfl rfl rfl rfl
              | rwDenied | rxDenied => exact .none rfl rfl
      | revert patch target =>
          simp only [Event.exec, Call.exec, Event.added, Event.released, Interceptor.revert]
          cases w.hooks.hooksByTarget.lookup target with
          | none => rw [Option.toList_none, List.flatMap_nil, ite_self]; exact .none rfl rfl
          | some entry =>
              cases patch with
              | ok =>
                  have h := releaseEntry_releases entry
                    { w with
                      code := writeBytes w.code entry.target
                        (entry.originalBytes.take entry.patchSize) }
                  rw [if_pos rfl, Option.toList_some, List.flatMap_singleton]
                  exact h.congr rfl rfl rfl rfl
              | rwDenied | rxDenied => exact .none rfl rfl
  | detachAll patch order =>
      have hloop := restoreAll_releases patch order w
      simp only [Event.exec, Interceptor.detachAll]
      generalize restoreAll patch order w = result at *
      obtain ⟨answer, w'⟩ := result
      cases answer with
      | error e => exact hloop.congr rfl rfl rfl rfl
      | ok _ => exact hloop.congr rfl rfl rfl rfl

end Blocks

/-! ## §3  Effects -/

/-- The patches succeed and new blocks are fresh. -/
def Assumed (s : HookRun) : Event → Prop
  | .call (.attach env _ _ _) => env.patch = .ok ∧
      (∀ r n, env.relocated = .ok (r, n) → FreshBlock s.world r ∧
        ∀ t, env.trampoline = .ok t → FreshBlock (s.world.addCode r) t)
  | .call (.replace env _ _) => env.patch = .ok ∧
      ∀ r n, env.relocated = .ok (r, n) → FreshBlock s.world r
  | .call (.detach patch _) => patch = .ok
  | .call (.revert patch _) => patch = .ok
  | .detachAll patch order => ∀ e ∈ order, patch e.2.target = .ok

/-- What an operation does to the registry, and which blocks it adds and releases with that. -/
inductive Effect (arch : Arch) (w w' : World) (added released : List Addr) : Prop
  | unchanged (hooks : w'.hooks = w.hooks) (dropped : added = released)
  | installed (entry : HookEntry) (dest : Addr) (fresh : Fresh entry.self w)
      (installed : Installed arch entry dest w w') (added : added = entryBlocks entry)
      (released : released = [])
  | removed (hookId : ℕ) (entry : HookEntry) (removed : Removed hookId entry w w')
      (added : added = []) (released : released = entryBlocks entry)
  | cleared (order : List (Σ _ : ℕ, HookEntry)) (perm : order.Perm w.hooks.hooksById.entries)
      (hooks : w'.hooks = { w.hooks with hooksById := ∅, hooksByTarget := ∅ })
      (added : added = []) (released : released = order.flatMap fun e => entryBlocks e.2)

section Effects

variable {arch : Arch} {s u : HookRun} {ev : Event} {w w' : World}

theorem blockAt_of_ne {p : Addr} (h : p ≠ 0) : blockAt p = [p] := if_neg h

theorem attach_effect {env : Install} {target : Addr} {onEnter onLeave : Callback}
    (hpatch : env.patch = .ok) (hself : Fresh env.self w)
    (hfresh : ∀ r n, env.relocated = .ok (r, n) → FreshBlock w r ∧
      ∀ t, env.trampoline = .ok t → FreshBlock (w.addCode r) t) :
    Effect arch w (Interceptor.attach arch env target onEnter onLeave w).2
      (Event.added w (.call (.attach env target onEnter onLeave)))
      (Event.released w (.call (.attach env target onEnter onLeave))) := by
  simp only [Event.added, Event.released]
  by_cases hlive : target ∈ w.hooks.hooksByTarget
  · simp only [if_pos hlive, Interceptor.attach]
    exact .unchanged rfl rfl
  · simp only [if_neg hlive, Interceptor.attach]
    cases hr : env.relocated with
    | error e => exact .unchanged rfl rfl
    | ok block =>
        obtain ⟨hblock, htrampoline⟩ := hfresh _ _ hr
        cases ht : env.trampoline with
        | error e => exact .unchanged (by simp) (blockAt_of_ne hblock.1).symm
        | ok t =>
            simp only [hpatch, makeWritableAndPatch_ok]
            refine .installed ⟨env.self, target, t, block.1,
              readBytes w.code target arch.patchSize, arch.patchSize, some onEnter,
              some onLeave⟩ t hself ⟨hlive, rfl, rfl, rfl, rfl, rfl, rfl, rfl⟩ ?_ rfl
            rw [entryBlocks, blockAt_of_ne (htrampoline t ht).1, blockAt_of_ne hblock.1]
            rfl

theorem replace_effect {env : Install} {target replacement : Addr}
    (hpatch : env.patch = .ok) (hself : Fresh env.self w)
    (hfresh : ∀ r n, env.relocated = .ok (r, n) → FreshBlock w r) :
    Effect arch w (Interceptor.replace arch env target replacement w).2
      (Event.added w (.call (.replace env target replacement)))
      (Event.released w (.call (.replace env target replacement))) := by
  simp only [Event.added, Event.released]
  by_cases hlive : target ∈ w.hooks.hooksByTarget
  · simp only [if_pos hlive, Interceptor.replace]
    exact .unchanged rfl rfl
  · simp only [if_neg hlive, Interceptor.replace]
    cases hr : env.relocated with
    | error e => exact .unchanged rfl rfl
    | ok block =>
        simp only [hpatch, makeWritableAndPatch_ok]
        refine .installed ⟨env.self, target, 0, block.1,
          readBytes w.code target arch.patchSize, arch.patchSize, none, none⟩
          replacement hself ⟨hlive, rfl, rfl, rfl, rfl, rfl, rfl, rfl⟩ ?_ rfl
        rw [entryBlocks, blockAt_of_ne (hfresh _ _ hr).1]
        rfl

/-- **What a step does.** -/
theorem step_effect (h : Registry arch s.world.hooks) (hok : Assumed s ev)
    (hstep : Step arch s ev u) :
    Effect arch s.world u.world (ev.added s.world) (ev.released s.world) := by
  cases hstep with
  | call permitted =>
      rename_i c
      cases c with
      | attach env target onEnter onLeave => exact attach_effect hok.1 permitted hok.2
      | replace env target replacement => exact replace_effect hok.1 permitted hok.2
      | detach patch hookId =>
          obtain rfl : patch = .ok := hok
          simp only [Call.exec, Event.added, Event.released, if_true]
          cases hl : s.world.hooks.hooksById.lookup hookId with
          | none => exact .unchanged (by simp only [Interceptor.detach, hl]) rfl
          | some entry => exact .removed hookId entry (detach_ok hl) rfl (by simp)
      | revert patch target =>
          obtain rfl : patch = .ok := hok
          simp only [Call.exec, Event.added, Event.released, if_true]
          cases hl : s.world.hooks.hooksByTarget.lookup target with
          | none => exact .unchanged (by simp only [Interceptor.revert, hl]) rfl
          | some entry =>
              obtain ⟨hookId, -, -, hremoved⟩ := revert_ok h.selves h.indexed hl
              exact .removed hookId entry hremoved rfl (by simp)
  | detachAll perm =>
      rename_i patch order
      obtain ⟨w', heq, hcleared⟩ := detachAll_ok patch order s.world hok
      have hall : order.takeWhile (fun e => patch e.2.target = .ok) = order :=
        List.takeWhile_eq_self_iff.mpr fun e he => decide_eq_true (hok e he)
      refine .cleared order perm ?_ rfl (by rw [Event.released, hall])
      rw [heq]
      exact hcleared.hooks

/-- The blocks that are added are distinct and were not held. -/
theorem added_fresh (hok : Assumed s ev) (h : s.world.jit.Nodup) :
    (ev.added s.world ++ s.world.jit).Nodup := by
  cases ev with
  | detachAll patch order => exact h
  | call c =>
      cases c with
      | attach env target onEnter onLeave =>
          obtain ⟨-, hfresh⟩ := hok
          simp only [Event.added]
          split_ifs
          · exact h
          · cases hr : env.relocated with
            | error e => exact h
            | ok block =>
                obtain ⟨⟨-, hblock⟩, htrampoline⟩ := hfresh _ _ hr
                have hadded : (block.1 :: s.world.jit).Nodup := List.nodup_cons.mpr ⟨hblock, h⟩
                cases ht : env.trampoline with
                | error e => exact hadded
                | ok t => exact List.nodup_cons.mpr ⟨(htrampoline t ht).2, hadded⟩
      | replace env target replacement =>
          obtain ⟨-, hfresh⟩ := hok
          simp only [Event.added]
          split_ifs
          · exact h
          · cases hr : env.relocated with
            | error e => exact h
            | ok block => exact List.nodup_cons.mpr ⟨(hfresh _ _ hr).2, h⟩
      | detach patch hookId => exact h
      | revert patch target => exact h

end Effects

/-! ## §4  The registry and its blocks -/

/-- Both maps hold the same entries once each, under their own targets and under identifiers
that have been given out; the blocks held are those of the entries. -/
structure Consistent (w : World) : Prop where
  once : (w.hooks.hooksById.entries.map (·.2)).Nodup
  same : (w.hooks.hooksById.entries.map (·.2)).Perm (w.hooks.hooksByTarget.entries.map (·.2))
  ids : (w.hooks.hooksById.entries.map (·.1)).Nodup
  keyed : ∀ {t e}, w.hooks.hooksByTarget.lookup t = some e → e.target = t
  below : ∀ {id e}, w.hooks.hooksById.lookup id = some e → id < w.hooks.nextHookId
  blocks : w.jit.Perm (liveBlocks w.hooks)
  distinct : w.jit.Nodup

/-- An identifier that has been given out never stands for another entry. -/
def KeepsIds (w w' : World) : Prop :=
  w.hooks.nextHookId ≤ w'.hooks.nextHookId ∧
    ∀ {id e}, id < w.hooks.nextHookId → w'.hooks.hooksById.lookup id = some e →
      w.hooks.hooksById.lookup id = some e

section Consistency

variable {arch : Arch} {w w' w'' : World} {added released : List Addr}

theorem KeepsIds.trans (h : KeepsIds w w') (h' : KeepsIds w' w'') : KeepsIds w w'' :=
  ⟨Nat.le_trans h.1 h'.1, fun hid he => h.2 hid (h'.2 (Nat.lt_of_lt_of_le hid h.1) he)⟩

/-- Blocks held that are those of the live entries, each once. -/
def Accounted (w : World) : Prop := w.jit.Nodup ∧ w.jit.Perm (liveBlocks w.hooks)

theorem diff_append_self (l l' : List Addr) : (l ++ l').diff l = l' := by
  induction l with
  | nil => rfl
  | cons a l ih =>
      rw [List.cons_append, List.diff_cons, List.erase_cons_head]
      exact ih

theorem Effect.registry (h : Registry arch w.hooks) (heffect : Effect arch w w' added released) :
    Registry arch w'.hooks := by
  cases heffect with
  | unchanged hooks => exact hooks ▸ h
  | installed entry dest fresh hi => exact h.installed hi fresh
  | removed hookId entry hr => exact h.removed hr
  | cleared order perm hooks => exact hooks ▸ Registry.empty

theorem Effect.keepsIds (heffect : Effect arch w w' added released) : KeepsIds w w' := by
  cases heffect with
  | unchanged hooks => exact ⟨by rw [hooks], fun _ he => hooks ▸ he⟩
  | installed entry dest fresh hi =>
      refine ⟨by rw [hi.nextId]; exact Nat.le_succ _, fun hid he => ?_⟩
      rw [hi.byId, AList.lookup_insert_ne (Nat.ne_of_lt hid)] at he
      exact he
  | removed hookId entry hr =>
      refine ⟨by rw [hr.nextId], fun _ he => ?_⟩
      rw [hr.byId] at he
      exact (lookup_erase_cases he).2
  | cleared order perm hooks =>
      refine ⟨by rw [hooks], fun _ he => ?_⟩
      rw [hooks] at he
      cases he

theorem Effect.accounted (h : Accounted w) (hregistry : Registry arch w.hooks)
    (heffect : Effect arch w w' added released) (hfresh : (added ++ w.jit).Nodup)
    (hjit : w'.jit = (added ++ w.jit).diff released) :
    Accounted w' ∧ released.Subperm (added ++ w.jit) := by
  obtain ⟨hnodup, hblocks⟩ := h
  have hnodup' : w'.jit.Nodup := hjit ▸ hfresh.diff
  suffices hperm : (added ++ w.jit).Perm (released ++ liveBlocks w'.hooks) by
    refine ⟨⟨hnodup', ?_⟩, ?_⟩
    · rw [hjit, ← diff_append_self released (liveBlocks w'.hooks)]
      exact hperm.diff_right released
    · exact (List.sublist_append_left _ _).subperm.trans hperm.symm.subperm
  cases heffect with
  | unchanged hooks dropped =>
      rw [hooks, dropped]
      exact hblocks.append_left _
  | installed entry dest fresh hi hadded hreleased =>
      have hnext : w.hooks.nextHookId ∉ w.hooks.hooksById := by
        intro hmem
        obtain ⟨e, he⟩ := Option.isSome_iff_exists.mp (AList.lookup_isSome.mpr hmem)
        exact absurd (hregistry.indexed.below he) (Nat.lt_irrefl _)
      have hlive : liveBlocks w'.hooks = entryBlocks entry ++ liveBlocks w.hooks := by
        rw [liveBlocks, hi.byId, AList.entries_insert_of_notMem hnext, List.flatMap_cons]
        rfl
      rw [hadded, hreleased, hlive]
      exact hblocks.append_left _
  | removed hookId entry hr hadded hreleased =>
      have hlive : (liveBlocks w.hooks).Perm (entryBlocks entry ++ liveBlocks w'.hooks) := by
        rw [liveBlocks, liveBlocks, hr.byId]
        exact (entries_perm_erase hr.live).flatMap_right _
      rw [hadded, hreleased]
      exact hblocks.trans hlive
  | cleared order perm hooks hadded hreleased =>
      rw [hadded, hreleased, hooks]
      have hnone : liveBlocks { w.hooks with hooksById := ∅, hooksByTarget := ∅ } = [] := rfl
      rw [hnone, List.append_nil]
      exact hblocks.trans (perm.flatMap_right _).symm

theorem Accounted.consistent (h : Accounted w) (hregistry : Registry arch w.hooks) :
    Consistent w where
  once := hregistry.indexed.entries_perm.1
  same := hregistry.indexed.entries_perm.2
  ids := w.hooks.hooksById.nodupKeys
  keyed he := (hregistry.indexed.toId he).1
  below := hregistry.indexed.below
  blocks := h.2
  distinct := h.1

end Consistency

/-! ## §5  Runs -/

/-- A step releases blocks that are held, each once. -/
structure ReleasesHeld (arch : Arch) (w : World) (ev : Event) : Prop where
  held : (ev.released w).Subperm (ev.added w ++ w.jit)
  once : (ev.released w).Nodup
  jit : (ev.exec arch w).jit = (ev.added w ++ w.jit).diff (ev.released w)
  released : (ev.exec arch w).released = w.released ++ ev.released w

/-- What finds a live hook in its way, or none to remove, changes nothing. -/
structure Inert (arch : Arch) (w : World) : Prop where
  attach : ∀ env target onEnter onLeave, target ∈ w.hooks.hooksByTarget →
    Interceptor.attach arch env target onEnter onLeave w = (.error (alreadyHooked target), w)
  replace : ∀ env target replacement, target ∈ w.hooks.hooksByTarget →
    Interceptor.replace arch env target replacement w = (.error (alreadyHooked target), w)
  detach : ∀ patch hookId, w.hooks.hooksById.lookup hookId = none →
    Interceptor.detach patch hookId w = (.ok (), w)
  revert : ∀ patch target, w.hooks.hooksByTarget.lookup target = none →
    Interceptor.revert patch target w = (.ok (), w)

/-- An identifier whose hook is gone finds no hook ever after, at the same address or another. -/
def StaysDead (w w' : World) : Prop :=
  ∀ patch hookId, hookId < w.hooks.nextHookId → w.hooks.hooksById.lookup hookId = none →
    detach patch hookId w' = (.ok (), w')

section Runs

variable {arch : Arch} {w w' : World} {tr : List (HookRun × Event)} {t : HookRun}

theorem inert (arch : Arch) (w : World) : Inert arch w where
  attach env target onEnter onLeave hlive := by rw [Interceptor.attach, if_pos hlive]
  replace env target replacement hlive := by rw [Interceptor.replace, if_pos hlive]
  detach patch hookId hnone := by simp only [Interceptor.detach, hnone]
  revert patch target hnone := by simp only [Interceptor.revert, hnone]

theorem KeepsIds.staysDead (h : KeepsIds w w') : StaysDead w w' := by
  intro patch hookId hgiven hnone
  apply (inert .x64 w').detach
  cases hl : w'.hooks.hooksById.lookup hookId with
  | none => rfl
  | some e =>
      have hold := h.2 hgiven hl
      rw [hnone] at hold
      cases hold

theorem step_world {s u : HookRun} {ev : Event} (h : Step arch s ev u) :
    u.world = ev.exec arch s.world := by
  cases h with
  | call => rfl
  | detachAll => rfl

/-- The registry is well formed and its blocks are accounted for. -/
def Kept (arch : Arch) (s : HookRun) : Prop := Registry arch s.world.hooks ∧ Accounted s.world

theorem Kept.start (code : Memory) (disposition : Sig → SigAction) :
    Kept arch (HookRun.start code disposition) :=
  ⟨Registry.empty, List.nodup_nil, List.Perm.refl _⟩

theorem Kept.step {s u : HookRun} {ev : Event} (h : Kept arch s) (hok : Assumed s ev)
    (hstep : Step arch s ev u) :
    Kept arch u ∧ ReleasesHeld arch s.world ev ∧ KeepsIds s.world u.world := by
  have heffect := step_effect h.1 hok hstep
  have hreleases := exec_releases arch ev s.world
  have hfresh := added_fresh hok h.2.1
  obtain ⟨haccounted, hheld⟩ := heffect.accounted h.2 h.1 hfresh
    (by rw [step_world hstep, hreleases.jit])
  have honce : (ev.released s.world).Nodup := by
    obtain ⟨l, hperm, hsub⟩ := hheld
    exact hperm.nodup_iff.mp (hfresh.sublist hsub)
  exact ⟨⟨heffect.registry h.1, haccounted⟩,
    ⟨hheld, honce, hreleases.jit, hreleases.released⟩, heffect.keepsIds⟩

/-- **The registry is consistent and leaks no code.** -/
theorem registry_consistent {code : Memory} {disposition : Sig → SigAction}
    (run : Run (Step arch) (HookRun.start code disposition) tr t)
    (assumed : Guarded Assumed tr) :
    Throughout (fun s => Consistent s.world ∧ Inert arch s.world) tr t ∧
      (∀ p ∈ tr, ReleasesHeld arch p.1.world p.2) ∧
      (tr.map Prod.fst ++ [t]).Pairwise fun s u =>
        KeepsIds s.world u.world ∧ StaysDead s.world u.world := by
  have keep : ∀ s ev u, Kept arch s → Assumed s ev → Step arch s ev u → Kept arch u :=
    fun s ev u hs hok hstep => (hs.step hok hstep).1
  have kept : Throughout (Kept arch) tr t :=
    run.guarded_invariant (Kept.start code disposition) keep assumed
  have ids : (tr.map Prod.fst ++ [t]).Pairwise fun s u => KeepsIds s.world u.world :=
    run.pairwise (Kept.start code disposition) keep KeepsIds.trans
      (fun s ev u hs hok hstep => (hs.step hok hstep).2.2) assumed
  refine ⟨?_, fun p hp => ?_, ids.imp fun h => ⟨h, h.staysDead⟩⟩
  · exact ⟨fun p hp => ⟨(kept.1 p hp).2.consistent (kept.1 p hp).1, inert arch _⟩,
      kept.2.2.consistent kept.2.1, inert arch _⟩
  · obtain ⟨u, hstep⟩ := run.step_of_mem hp
    exact ((kept.1 p hp).step (assumed p hp) hstep).2.1

end Runs

/-! ## §6  A hook set twice -/

section Concrete

/-- The hook is taken off and another one is put on the same target. -/
def hookAgain : Call := .attach (installWith 0x10 0x7000 0x7100) 0x1000 2 3

def afterDetach : HookRun :=
  ⟨(Call.detach .ok 1).exec .x64 afterFirst.world, afterFirst.replacement⟩

def afterAgain : HookRun := ⟨hookAgain.exec .x64 afterDetach.world, afterDetach.replacement⟩

def detachedAndHooked : List (HookRun × Event) :=
  [(HookRun.start blank defaultActions, .call hookFirst), (afterFirst, .call (.detach .ok 1)),
    (afterDetach, .call hookAgain)]

theorem run_detachedAndHooked :
    Run (Step .x64) (HookRun.start blank defaultActions) detachedAndHooked afterAgain := by
  have detached : Step .x64 afterFirst (.call (.detach .ok 1)) afterDetach := .call trivial
  have again : Step .x64 afterDetach (.call hookAgain) afterAgain := by
    refine .call ?_
    intro id e he
    have hnone : afterDetach.world.hooks.hooksById.entries = [] := rfl
    exact absurd (Option.isSome_iff_exists.mpr ⟨e, he⟩)
      (mt AList.lookup_isSome.mp (notMem_of_entries_eq_nil hnone id))
  exact ((Run.nil.snoc step_hookFirst).snoc detached).snoc again

theorem assumed_detachedAndHooked : Guarded Assumed detachedAndHooked := by
  have hfresh : ∀ (s : HookRun), s.world.jit = [] → ∀ onEnter onLeave,
      Assumed s (.call (.attach (installWith 0x10 0x7000 0x7100) 0x1000 onEnter onLeave)) := by
    intro s hjit onEnter onLeave
    refine ⟨rfl, fun r n hr => ?_⟩
    obtain ⟨rfl, -⟩ := Prod.mk.inj (Except.ok.inj hr)
    refine ⟨⟨by decide, by simp [hjit]⟩, fun t ht => ?_⟩
    obtain rfl := Except.ok.inj ht
    exact ⟨by decide, by simp [hjit, World.addCode]⟩
  intro p hp
  simp only [detachedAndHooked, List.mem_cons, List.not_mem_nil, or_false] at hp
  rcases hp with rfl | rfl | rfl
  · exact hfresh _ rfl 0 1
  · exact rfl
  · exact hfresh _ rfl 2 3

/-- The first identifier is dead, though there is a hook at its address again. -/
theorem registry_consistent_again :
    Consistent afterAgain.world ∧ 0x1000 ∈ afterAgain.world.hooks.hooksByTarget ∧
      detach .ok 1 afterAgain.world = (.ok (), afterAgain.world) := by
  obtain ⟨hthroughout, -, hpairs⟩ :=
    registry_consistent run_detachedAndHooked assumed_detachedAndHooked
  have hdead : StaysDead afterDetach.world afterAgain.world :=
    ((List.pairwise_append.mp hpairs).2.2 afterDetach (by simp [detachedAndHooked]) _
      List.mem_cons_self).2
  exact ⟨hthroughout.2.1, by decide, hdead .ok 1 (by decide) (by decide)⟩

end Concrete

end Interceptor

end Chromatic
