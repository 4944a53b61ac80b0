import Chromatic.Interceptor
import Chromatic.Foundation.Runs
import Mathlib.Logic.Function.Basic

/-!
# Runs of the interceptor

Any sequence of `attach`, `replace`, `detach`, `revert` and `detachAll`. A hook
owns `PATCH_SIZE` bytes but only its target is looked up, so hooks that start
within each other's bytes are accepted.

§1 calls · §2 the registry stays well formed · §3 runs · §4 the jumps of live
hooks · §5 what keeps them.
-/

namespace Chromatic

open Foundation

namespace Interceptor

/-! ## §1  Calls -/

inductive Call where
  | attach (env : Install) (target : Addr) (onEnter onLeave : Callback)
  | replace (env : Install) (target replacement : Addr)
  | detach (patch : PatchOutcome) (hookId : ℕ)
  | revert (patch : PatchOutcome) (target : Addr)

def Call.exec (arch : Arch) : Call → World → World
  | .attach env target onEnter onLeave, w =>
      (Interceptor.attach arch env target onEnter onLeave w).2
  | .replace env target replacement, w =>
      (Interceptor.replace arch env target replacement w).2
  | .detach patch hookId, w => (Interceptor.detach patch hookId w).2
  | .revert patch target, w => (Interceptor.revert patch target w).2

/-- The answer to the call's `makeWritableAndPatch`. -/
def Call.patch : Call → PatchOutcome
  | .attach env _ _ _ => env.patch
  | .replace env _ _ => env.patch
  | .detach patch _ => patch
  | .revert patch _ => patch

/-- `new` returns an address that no live entry has. -/
def Fresh (self : Addr) (w : World) : Prop :=
  ∀ {id : ℕ} {e : HookEntry}, w.hooks.hooksById.lookup id = some e → e.self ≠ self

def Call.Permitted (w : World) : Call → Prop
  | .attach env _ _ _ => Fresh env.self w
  | .replace env _ _ => Fresh env.self w
  | .detach _ _ => True
  | .revert _ _ => True

/-- The call gets as far as writing a jump at `t`. -/
def Call.Writes (w : World) : Call → Addr → Prop
  | .attach env target _ _, t =>
      t = target ∧ t ∉ w.hooks.hooksByTarget ∧ env.relocated.isOk ∧ env.trampoline.isOk ∧
        env.patch ≠ .rwDenied
  | .replace env target _, t =>
      t = target ∧ t ∉ w.hooks.hooksByTarget ∧ env.relocated.isOk ∧ env.patch ≠ .rwDenied
  | .detach _ _, _ => False
  | .revert _ _, _ => False

/-- The call is to take down the live hook at `t`. -/
def Call.Removes (w : World) : Call → Addr → Prop
  | .attach _ _ _ _, _ => False
  | .replace _ _ _, _ => False
  | .detach _ hookId, t => ∃ e, w.hooks.hooksById.lookup hookId = some e ∧ e.target = t
  | .revert _ target, t => t = target ∧ t ∈ w.hooks.hooksByTarget

/-- Where the jump of an installing call leads: an attached hook has callbacks
and jumps to its trampoline, a replaced function jumps to its replacement. -/
def Call.JumpsTo (entry : HookEntry) (dest : Addr) : Call → Prop
  | .attach _ _ onEnter _ => entry.onEnter = some onEnter ∧ dest = entry.trampolineCode
  | .replace _ _ replacement => entry.onEnter = none ∧ dest = replacement
  | .detach _ _ => False
  | .revert _ _ => False

/-! ## §2  The registry stays well formed -/

structure Registry (arch : Arch) (h : HookState) : Prop where
  indexed : Indexed HookEntry.target h.hooksById h.hooksByTarget h.nextHookId
  selves : SelfDistinct h.hooksById
  sizes : ∀ {id e}, h.hooksById.lookup id = some e →
    e.patchSize = arch.patchSize ∧ e.originalBytes.length = arch.patchSize

theorem Registry.empty {arch : Arch} {next : ℕ} : Registry arch ⟨next, ∅, ∅⟩ where
  indexed := Indexed.empty
  selves h := by simp at h
  sizes h := by simp at h

variable {arch : Arch} {w w' : World} {entry : HookEntry} {dest : Addr}

theorem Registry.installed (h : Registry arch w.hooks) (hi : Installed arch entry dest w w')
    (hfresh : Fresh entry.self w) : Registry arch w'.hooks where
  indexed := by
    rw [hi.byId, hi.byTarget, hi.nextId]
    exact h.indexed.insert hi.free
  selves := by
    rw [hi.byId]
    intro id id' e e' he he' hself
    rcases lookup_insert_cases he with ⟨rfl, rfl⟩ | ⟨-, hold⟩
    · rcases lookup_insert_cases he' with ⟨rfl, -⟩ | ⟨-, hold'⟩
      · rfl
      · exact absurd hself.symm (hfresh hold')
    · rcases lookup_insert_cases he' with ⟨rfl, rfl⟩ | ⟨-, hold'⟩
      · exact absurd hself (hfresh hold)
      · exact h.selves hold hold' hself
  sizes := by
    rw [hi.byId]
    intro id e he
    rcases lookup_insert_cases he with ⟨-, rfl⟩ | ⟨-, hold⟩
    · exact ⟨hi.size, by rw [hi.saved, length_readBytes]⟩
    · exact h.sizes hold

theorem Registry.removed {hookId : ℕ} (h : Registry arch w.hooks)
    (hr : Removed hookId entry w w') : Registry arch w'.hooks where
  indexed := by
    rw [hr.byId, hr.byTarget, hr.nextId]
    exact h.indexed.erase hr.live
  selves := by
    rw [hr.byId]
    exact fun he he' => h.selves (lookup_erase_cases he).2 (lookup_erase_cases he').2
  sizes := by
    rw [hr.byId]
    exact fun he => h.sizes (lookup_erase_cases he).2

/-- What a permitted call does: nothing, or it installs one hook, or it removes
one, or it stops at the second protection change. -/
theorem exec_cases {c : Call} (h : Registry arch w.hooks) (hok : c.Permitted w) :
    Unchanged w (c.exec arch w) ∨
    (∃ entry dest, c.Writes w entry.target ∧ c.JumpsTo entry dest ∧ Fresh entry.self w ∧
      Installed arch entry dest w (c.exec arch w)) ∨
    (∃ hookId entry, c.Removes w entry.target ∧ Removed hookId entry w (c.exec arch w)) ∨
    (c.patch = .rxDenied ∧
      ((∃ t, c.Removes w t) ∨ ∃ t dest, c.Writes w t ∧
        Overwritten t (generatePatchBytes arch dest) w (c.exec arch w))) := by
  cases c with
  | attach env target onEnter onLeave =>
      rcases attach_cases arch env target onEnter onLeave w with
        hun | ⟨hfree, hr, ht, ⟨hpatch, entry, rfl, hself, hcb, hi⟩ | ⟨hpatch, dest, ho⟩⟩
      · exact Or.inl hun
      · have hfresh : Fresh entry.self w := hself ▸ hok
        exact Or.inr (Or.inl ⟨entry, _, ⟨rfl, hfree, hr, ht, by simp [hpatch]⟩, ⟨hcb, rfl⟩,
          hfresh, hi⟩)
      · exact Or.inr (Or.inr (Or.inr ⟨hpatch, Or.inr ⟨target, dest,
          ⟨rfl, hfree, hr, ht, by simp [hpatch]⟩, ho⟩⟩))
  | replace env target replacement =>
      rcases replace_cases arch env target replacement w with
        hun | ⟨hfree, hr, ⟨hpatch, entry, rfl, hself, hcb, hi⟩ | ⟨hpatch, ho⟩⟩
      · exact Or.inl hun
      · have hfresh : Fresh entry.self w := hself ▸ hok
        exact Or.inr (Or.inl ⟨entry, _, ⟨rfl, hfree, hr, by simp [hpatch]⟩, ⟨hcb, rfl⟩,
          hfresh, hi⟩)
      · exact Or.inr (Or.inr (Or.inr ⟨hpatch, Or.inr ⟨target, replacement,
          ⟨rfl, hfree, hr, by simp [hpatch]⟩, ho⟩⟩))
  | detach patch hookId =>
      rcases detach_cases patch hookId w with hun | ⟨entry, hl, ⟨-, hr⟩ | hpatch⟩
      · exact Or.inl hun
      · exact Or.inr (Or.inr (Or.inl ⟨hookId, entry, ⟨entry, hl, rfl⟩, hr⟩))
      · exact Or.inr (Or.inr (Or.inr ⟨hpatch, Or.inl ⟨_, entry, hl, rfl⟩⟩))
  | revert patch target =>
      rcases revert_cases patch target w h.selves h.indexed with
        hun | ⟨hookId, entry, rfl, hl, ⟨-, hr⟩ | hpatch⟩
      · exact Or.inl hun
      · exact Or.inr (Or.inr (Or.inl ⟨hookId, entry, ⟨rfl, h.indexed.key_mem hl⟩, hr⟩))
      · exact Or.inr (Or.inr (Or.inr ⟨hpatch, Or.inl ⟨_, rfl, h.indexed.key_mem hl⟩⟩))

/-! ## §3  Runs -/

/-- `replacement t` is what `replace` was last asked to put at the free target
`t`: a record of the calls that no operation reads. -/
structure HookRun where
  world : World
  replacement : Addr → Addr

inductive Event where
  | call (c : Call)
  | detachAll (patch : Addr → PatchOutcome) (order : List (Σ _ : ℕ, HookEntry))

def Call.record (w : World) (replacement : Addr → Addr) : Call → Addr → Addr
  | .replace _ target r =>
      if target ∈ w.hooks.hooksByTarget then replacement
      else Function.update replacement target r
  | .attach _ _ _ _ => replacement
  | .detach _ _ => replacement
  | .revert _ _ => replacement

inductive Step (arch : Arch) : HookRun → Event → HookRun → Prop where
  | call {s c} (permitted : c.Permitted s.world) :
      Step arch s (.call c) ⟨c.exec arch s.world, c.record s.world s.replacement⟩
  | detachAll {s patch order} (perm : order.Perm s.world.hooks.hooksById.entries) :
      Step arch s (.detachAll patch order)
        { s with world := (detachAll patch order s.world).2 }

def HookRun.start (code : Memory) (disposition : Sig → SigAction) : HookRun :=
  ⟨World.start code disposition, fun _ => 0⟩

/-! ## §4  The jumps of live hooks -/

def HookRun.destination (s : HookRun) (e : HookEntry) : Addr :=
  if e.onEnter.isSome then e.trampolineCode else s.replacement e.target

/-- Every live hook's target begins with that hook's jump. -/
def JumpsIntact (arch : Arch) (s : HookRun) : Prop :=
  ∀ {id : ℕ} {e : HookEntry}, s.world.hooks.hooksById.lookup id = some e →
    readBytes s.world.code e.target arch.patchSize =
      generatePatchBytes arch (s.destination e)

/-- The bytes of `t` are clear of those of every live hook. -/
def Clear (arch : Arch) (w : World) (t : Addr) : Prop :=
  ∀ {id : ℕ} {e : HookEntry}, w.hooks.hooksById.lookup id = some e →
    ¬ Overlap t arch.patchSize e.target arch.patchSize

/-- A jump is written clear of live hooks, no call that removes a hook stops after
restoring its bytes, and `detachAll` runs to its end or stops before its first
patch. -/
def Harmless (arch : Arch) (s : HookRun) : Event → Prop
  | .call c =>
      (∀ t, c.Writes s.world t → Clear arch s.world t) ∧
      ∀ t, c.Removes s.world t → c.patch ≠ .rxDenied
  | .detachAll patch order =>
      (∀ e ∈ order, patch e.2.target = .ok) ∨
      ∃ e rest, order = e :: rest ∧ patch e.2.target = .rwDenied

/-- The record of replacements changes at free targets only. -/
theorem destination_record {s : HookRun} {c : Call} {world : World} {id : ℕ} {e : HookEntry}
    (h : Registry arch s.world.hooks) (he : s.world.hooks.hooksById.lookup id = some e) :
    HookRun.destination ⟨world, c.record s.world s.replacement⟩ e = s.destination e := by
  have hlive : e.target ∈ s.world.hooks.hooksByTarget := h.indexed.key_mem he
  cases c with
  | replace env target r =>
      simp only [HookRun.destination, Call.record]
      by_cases ht : target ∈ s.world.hooks.hooksByTarget
      · rw [if_pos ht]
      · have hne : e.target ≠ target := fun heq => ht (heq ▸ hlive)
        rw [if_neg ht, Function.update_of_ne hne]
  | attach env target onEnter onLeave => rfl
  | detach patch hookId => rfl
  | revert patch target => rfl

/-- The jump an installing call writes is the one its entry stands for. -/
theorem destination_installed {s : HookRun} {c : Call} {world : World}
    (hw : c.Writes s.world entry.target) (hj : c.JumpsTo entry dest) :
    HookRun.destination ⟨world, c.record s.world s.replacement⟩ entry = dest := by
  cases c with
  | attach env target onEnter onLeave =>
      obtain ⟨hcb, rfl⟩ := hj
      simp [HookRun.destination, hcb]
  | replace env target r =>
      obtain ⟨rfl, hfree, -⟩ := hw
      obtain ⟨hcb, rfl⟩ := hj
      simp [HookRun.destination, Call.record, hcb, hfree]
  | detach patch hookId => exact hj.elim
  | revert patch target => exact hj.elim

/-! ## §5  What keeps them -/

/-- Live hooks own disjoint bytes. -/
def Apart (arch : Arch) (w : World) : Prop :=
  ∀ {id id' : ℕ} {e e' : HookEntry}, w.hooks.hooksById.lookup id = some e →
    w.hooks.hooksById.lookup id' = some e' → id ≠ id' →
    ¬ Overlap e.target arch.patchSize e'.target arch.patchSize

theorem Apart.installed (h : Apart arch w) (hi : Installed arch entry dest w w')
    (hclear : Clear arch w entry.target) : Apart arch w' := by
  unfold Apart
  rw [hi.byId]
  intro id id' e e' he he' hne
  rcases lookup_insert_cases he with ⟨rfl, rfl⟩ | ⟨-, hold⟩
  · rcases lookup_insert_cases he' with ⟨rfl, -⟩ | ⟨-, hold'⟩
    · exact absurd rfl hne
    · exact hclear hold'
  · rcases lookup_insert_cases he' with ⟨rfl, rfl⟩ | ⟨-, hold'⟩
    · exact fun hov => hclear hold hov.symm
    · exact h hold hold' hne

theorem Apart.removed {hookId : ℕ} (h : Apart arch w) (hr : Removed hookId entry w w') :
    Apart arch w' := by
  unfold Apart
  rw [hr.byId]
  exact fun he he' => h (lookup_erase_cases he).2 (lookup_erase_cases he').2

structure Sound (arch : Arch) (s : HookRun) : Prop where
  registry : Registry arch s.world.hooks
  apart : Apart arch s.world
  intact : JumpsIntact arch s

theorem Sound.start (code : Memory) (disposition : Sig → SigAction) :
    Sound arch (HookRun.start code disposition) where
  registry := Registry.empty
  apart h := by simp [HookRun.start, World.start, HookState.start] at h
  intact h := by simp [HookRun.start, World.start, HookState.start] at h

theorem Sound.call {s : HookRun} {c : Call} (h : Sound arch s) (hok : c.Permitted s.world)
    (hg : Harmless arch s (.call c)) :
    Sound arch ⟨c.exec arch s.world, c.record s.world s.replacement⟩ := by
  obtain ⟨hclear, hremoves⟩ := hg
  rcases exec_cases h.registry hok with
    hun | ⟨entry, dest, hw, hj, hfresh, hi⟩ | ⟨hookId, entry, -, hr⟩ |
      ⟨hrx, ⟨t, ht⟩ | ⟨t, dest, hw, ho⟩⟩
  · refine ⟨by simpa only [hun.hooks] using h.registry, ?_, ?_⟩
    · unfold Apart
      rw [hun.hooks]
      exact h.apart
    · intro id e he
      simp only [hun.hooks] at he
      rw [destination_record h.registry he, ← h.intact he]
      simp only [hun.code]
  · refine ⟨h.registry.installed hi hfresh, Apart.installed h.apart hi (hclear _ hw), ?_⟩
    intro id e he
    simp only [hi.byId] at he
    -- the new hook reads back what was just written; the others are clear of it
    rcases lookup_insert_cases he with ⟨-, rfl⟩ | ⟨-, hold⟩
    · rw [destination_installed hw hj]
      simp only [hi.code]
      have hlen : (generatePatchBytes arch dest).length ≤ 2 ^ 64 := by
        simpa using arch.patchSize_le
      simpa using readBytes_writeBytes_self (m := s.world.code) (a := e.target) hlen
    · rw [destination_record h.registry hold, ← h.intact hold]
      simp only [hi.code]
      apply readBytes_writeBytes_apart arch.patchSize_le
      simpa using hclear _ hw hold
  · refine ⟨h.registry.removed hr, Apart.removed h.apart hr, ?_⟩
    intro id e he
    simp only [hr.byId] at he
    obtain ⟨hne, hold⟩ := lookup_erase_cases he
    rw [destination_record h.registry hold, ← h.intact hold]
    simp only [hr.code]
    apply readBytes_writeBytes_apart arch.patchSize_le
    -- what is written back is the removed hook's own bytes
    obtain ⟨hsize, hlen⟩ := h.registry.sizes hr.live
    simpa [hsize, hlen] using h.apart hr.live hold (Ne.symm hne)
  · exact absurd hrx (hremoves t ht)
  · refine ⟨by simpa only [ho.hooks] using h.registry, ?_, ?_⟩
    · unfold Apart
      rw [ho.hooks]
      exact h.apart
    · intro id e he
      simp only [ho.hooks] at he
      rw [destination_record h.registry he, ← h.intact he]
      simp only [ho.code]
      apply readBytes_writeBytes_apart arch.patchSize_le
      simpa using hclear _ hw he

theorem Sound.detachAll {s : HookRun} {patch : Addr → PatchOutcome}
    {order : List (Σ _ : ℕ, HookEntry)} (h : Sound arch s)
    (hg : Harmless arch s (.detachAll patch order)) :
    Sound arch { s with world := (detachAll patch order s.world).2 } := by
  rcases hg with hall | ⟨e, rest, rfl, hdenied⟩
  · obtain ⟨w', heq, -, -, hhooks⟩ := detachAll_ok patch order s.world hall
    rw [heq]
    refine ⟨?_, ?_, ?_⟩
    · simp only [hhooks]
      exact Registry.empty
    · unfold Apart
      simp [hhooks]
    · unfold JumpsIntact
      simp [hhooks]
  · rw [detachAll_denied rest s.world hdenied]
    exact h

/-- **Live hooks keep their jumps.** In a run all of whose steps are harmless, every
live hook's target starts with its own jump in every state. -/
theorem jumpsIntact_throughout {code : Memory} {disposition : Sig → SigAction}
    {tr : List (HookRun × Event)} {t : HookRun}
    (run : Run (Step arch) (HookRun.start code disposition) tr t)
    (harmless : Guarded (Harmless arch) tr) : Throughout (JumpsIntact arch) tr t := by
  have sound : Throughout (Sound arch) tr t := by
    refine run.guarded_invariant (Sound.start code disposition) ?_ harmless
    rintro s ev u hs hg (⟨hok⟩ | ⟨-⟩)
    · exact hs.call hok hg
    · exact hs.detachAll hg
  exact ⟨fun p hp => (sound.1 p hp).intact, sound.2.intact⟩

section Concrete

def blank : Memory := fun _ => 0

/-- An installation in which every inner call succeeds. -/
def installWith (self relocatedCode trampolineCode : Addr) : Install :=
  ⟨self, .ok (relocatedCode, 14), .ok trampolineCode, .ok⟩

def hookFirst : Call := .attach (installWith 0x10 0x7000 0x7100) 0x1000 0 1

/-- Five bytes into the jump of `hookFirst`. -/
def hookInside : Call := .attach (installWith 0x20 0x8000 0x8100) 0x1005 2 3

def afterFirst : HookRun :=
  ⟨hookFirst.exec .x64 (World.start blank defaultActions), fun _ => 0⟩

theorem step_hookFirst : Step .x64 (HookRun.start blank defaultActions) (.call hookFirst)
    afterFirst :=
  .call fun h => by simp [HookRun.start, World.start, HookState.start] at h

/-- A replaced function a page further on. -/
def hookApart : Call := .replace (installWith 0x20 0x8000 0x8100) 0x2000 0x9000

def afterSecond : HookRun :=
  ⟨hookApart.exec .x64 afterFirst.world,
    hookApart.record afterFirst.world afterFirst.replacement⟩

theorem afterFirst_live {id : ℕ} {e : HookEntry}
    (h : afterFirst.world.hooks.hooksById.lookup id = some e) :
    e.target = 0x1000 ∧ e.self = 0x10 := by
  rcases lookup_insert_cases h with ⟨-, rfl⟩ | ⟨-, hold⟩
  · exact ⟨rfl, rfl⟩
  · simp [World.start, HookState.start] at hold

theorem step_hookApart : Step .x64 afterFirst (.call hookApart) afterSecond := by
  refine .call fun he => ?_
  rw [(afterFirst_live he).2]
  decide

/-- Two hooks side by side, of which the first is taken down. -/
def sideBySide : List (HookRun × Event) :=
  [(HookRun.start blank defaultActions, .call hookFirst), (afterFirst, .call hookApart),
    (afterSecond, .call (.detach .ok 1))]

theorem harmless_sideBySide : Guarded (Harmless .x64) sideBySide := by
  simp only [sideBySide, Guarded, List.forall_mem_cons, List.not_mem_nil, false_implies,
    implies_true, and_true]
  refine ⟨⟨fun t _ id e he => ?_, fun t ht => ht.elim⟩,
    ⟨fun t ht id e he => ?_, fun t ht => ht.elim⟩, ⟨fun t ht => ht.elim, fun t _ => ?_⟩⟩
  · simp [HookRun.start, World.start, HookState.start] at he
  · rw [ht.1, (afterFirst_live he).1, overlap_iff (by decide) (by decide)]
    decide
  · exact PatchOutcome.noConfusion

theorem jumpsIntact_throughout_sideBySide :
    ∃ t, Run (Step .x64) (HookRun.start blank defaultActions) sideBySide t ∧
      (∃ e, t.world.hooks.hooksById.lookup 2 = some e ∧ e.target = 0x2000) ∧
      t.world.hooks.hooksById.lookup 1 = none ∧
      Throughout (JumpsIntact .x64) sideBySide t := by
  have run := ((Run.nil.snoc step_hookFirst).snoc step_hookApart).snoc
    (.call (c := .detach .ok 1) trivial)
  exact ⟨_, run, ⟨_, rfl, rfl⟩, rfl, jumpsIntact_throughout run harmless_sideBySide⟩

/-- The second of two hooks five bytes apart overwrites the first one's jump. -/
theorem hookInside_damages :
    ∃ tr t, Run (Step .x64) (HookRun.start blank defaultActions) tr t ∧
      tr.map Prod.snd = [.call hookFirst, .call hookInside] ∧ ¬ JumpsIntact .x64 t := by
  have second : Step .x64 afterFirst (.call hookInside)
      ⟨hookInside.exec .x64 afterFirst.world, afterFirst.replacement⟩ := by
    refine .call ?_
    intro id e he
    rcases lookup_insert_cases he with ⟨-, rfl⟩ | ⟨-, hold⟩
    · decide
    · simp [World.start, HookState.start] at hold
  refine ⟨_, _, (Run.nil.snoc step_hookFirst).snoc second, rfl, fun h => ?_⟩
  exact absurd (@h 1 _ rfl) (by decide)

end Concrete

end Interceptor

end Chromatic
