import Chromatic.CodePatching
import Chromatic.Foundation.IndexedRegistry

/-!
# The interceptor

`NativeInterceptor::attach`, `detach`, `detachAll`, `replace` and `revert`: the
registry of inline hooks and the jumps they write over their targets.

§1 attach and replace · §2 detach and revert · §3 detachAll · §4 what each
operation does.
-/

namespace Chromatic

open Foundation

namespace Interceptor

/-! ## §1  attach and replace -/

/-- What the calls inside an installation answer: `new`, `buildRelocatedCode`
(the block and the bytes consumed), `buildTrampoline` and the patch. `replace`
builds no trampoline. -/
structure Install where
  self : Addr
  relocated : Except String (Addr × ℕ)
  trampoline : Except String Addr
  patch : PatchOutcome

def alreadyHooked (target : Addr) : String := "Already hooked at " ++ toHexAddr target.toNat

/-- `hooksById[nextHookId++] = entry; hooksByTarget[targetVal] = entry`. -/
def register (entry : HookEntry) (w : World) : World :=
  { w with hooks :=
    { nextHookId := w.hooks.nextHookId + 1
      hooksById := w.hooks.hooksById.insert w.hooks.nextHookId entry
      hooksByTarget := w.hooks.hooksByTarget.insert entry.target entry } }

def attach (arch : Arch) (env : Install) (target : Addr) (onEnter onLeave : Callback)
    (w : World) : Except String ℕ × World :=
  if target ∈ w.hooks.hooksByTarget then (.error (alreadyHooked target), w)
  else
    let w := w.allocate env.self
    let originalBytes := readBytes w.code target arch.patchSize
    match env.relocated with
    | .error e => (.error e, w.delete env.self)
    | .ok (relocatedCode, _) =>
      let w := w.addCode relocatedCode
      match env.trampoline with
      | .error e => (.error e, (w.releaseCode relocatedCode).delete env.self)
      | .ok trampolineCode =>
        let w := w.addCode trampolineCode
        match makeWritableAndPatch env.patch target
            (generatePatchBytes arch trampolineCode) w with
        | (.error e, w) => (.error e, w)
        | (.ok (), w) =>
          let entry : HookEntry :=
            { self := env.self, target := target, trampolineCode := trampolineCode,
              relocatedCode := relocatedCode, originalBytes := originalBytes,
              patchSize := arch.patchSize, onEnter := some onEnter, onLeave := some onLeave }
          (.ok w.hooks.nextHookId, register entry w)

/-- The result is the relocated code, through which the original is called. -/
def replace (arch : Arch) (env : Install) (target replacement : Addr) (w : World) :
    Except String Addr × World :=
  if target ∈ w.hooks.hooksByTarget then (.error (alreadyHooked target), w)
  else
    let w := w.allocate env.self
    let originalBytes := readBytes w.code target arch.patchSize
    match env.relocated with
    | .error e => (.error e, w.delete env.self)
    | .ok (relocatedCode, _) =>
      let w := w.addCode relocatedCode
      match makeWritableAndPatch env.patch target (generatePatchBytes arch replacement) w with
      | (.error e, w) => (.error e, w)
      | (.ok (), w) =>
        let entry : HookEntry :=
          { self := env.self, target := target, trampolineCode := 0,
            relocatedCode := relocatedCode, originalBytes := originalBytes,
            patchSize := arch.patchSize, onEnter := none, onLeave := none }
        (.ok relocatedCode, register entry w)

/-! ## §2  detach and revert -/

def restore (patch : PatchOutcome) (entry : HookEntry) (w : World) :
    Except String Unit × World :=
  makeWritableAndPatch patch entry.target (entry.originalBytes.take entry.patchSize) w

/-- `releaseCode` on both blocks, then `delete entry`. -/
def releaseEntry (entry : HookEntry) (w : World) : World :=
  ((w.releaseCode entry.trampolineCode).releaseCode entry.relocatedCode).delete entry.self

def detach (patch : PatchOutcome) (hookId : ℕ) (w : World) : Except String Unit × World :=
  match w.hooks.hooksById.lookup hookId with
  | none => (.ok (), w)
  | some entry =>
    match restore patch entry w with
    | (.error e, w) => (.error e, w)
    | (.ok (), w) =>
      let w := releaseEntry entry w
      (.ok (), { w with hooks := { w.hooks with
        hooksByTarget := w.hooks.hooksByTarget.erase entry.target
        hooksById := w.hooks.hooksById.erase hookId } })

/-- The search of `revert` through `hooksById` for the entry's address: the first
match is erased. -/
def eraseSelf (self : Addr) (byId : HashMap ℕ HookEntry) : HashMap ℕ HookEntry :=
  match byId.entries.find? (·.2.self = self) with
  | none => byId
  | some e => byId.erase e.1

def revert (patch : PatchOutcome) (target : Addr) (w : World) : Except String Unit × World :=
  match w.hooks.hooksByTarget.lookup target with
  | none => (.ok (), w)
  | some entry =>
    match restore patch entry w with
    | (.error e, w) => (.error e, w)
    | (.ok (), w) =>
      let w := releaseEntry entry w
      (.ok (), { w with hooks := { w.hooks with
        hooksById := eraseSelf entry.self w.hooks.hooksById
        hooksByTarget := w.hooks.hooksByTarget.erase target } })

/-! ## §3  detachAll -/

/-- The loop over `hooksById`, in the order given. A refused patch leaves it with
both maps as they were. -/
def restoreAll (patch : Addr → PatchOutcome) :
    List (Σ _ : ℕ, HookEntry) → World → Except String Unit × World
  | [], w => (.ok (), w)
  | ⟨_, entry⟩ :: rest, w =>
    match restore (patch entry.target) entry w with
    | (.error e, w) => (.error e, w)
    | (.ok (), w) => restoreAll patch rest (releaseEntry entry w)

def detachAll (patch : Addr → PatchOutcome) (order : List (Σ _ : ℕ, HookEntry))
    (w : World) : Except String Unit × World :=
  match restoreAll patch order w with
  | (.error e, w) => (.error e, w)
  | (.ok (), w) =>
    (.ok (), { w with hooks := { w.hooks with hooksById := ∅, hooksByTarget := ∅ } })

/-! ## §4  What each operation does to code and registries -/

section Frame

variable (w : World) (entry : HookEntry)

@[simp] theorem releaseEntry_code : (releaseEntry entry w).code = w.code := by
  simp [releaseEntry]

@[simp] theorem releaseEntry_bp : (releaseEntry entry w).bp = w.bp := by
  simp [releaseEntry]

@[simp] theorem releaseEntry_hooks : (releaseEntry entry w).hooks = w.hooks := by
  simp [releaseEntry]

end Frame

/-- Code, breakpoints and hook maps are as they were. -/
structure Unchanged (w w' : World) : Prop where
  code : w'.code = w.code
  bp : w'.bp = w.bp
  hooks : w'.hooks = w.hooks

/-- `entry` went live: it saved the bytes its jump to `dest` overwrites. -/
structure Installed (arch : Arch) (entry : HookEntry) (dest : Addr) (w w' : World) :
    Prop where
  free : entry.target ∉ w.hooks.hooksByTarget
  size : entry.patchSize = arch.patchSize
  saved : entry.originalBytes = readBytes w.code entry.target arch.patchSize
  code : w'.code = writeBytes w.code entry.target (generatePatchBytes arch dest)
  bp : w'.bp = w.bp
  byId : w'.hooks.hooksById = w.hooks.hooksById.insert w.hooks.nextHookId entry
  byTarget : w'.hooks.hooksByTarget = w.hooks.hooksByTarget.insert entry.target entry
  nextId : w'.hooks.nextHookId = w.hooks.nextHookId + 1

/-- The live entry of `hookId` is gone and its bytes are written back. -/
structure Removed (hookId : ℕ) (entry : HookEntry) (w w' : World) : Prop where
  live : w.hooks.hooksById.lookup hookId = some entry
  code : w'.code =
    writeBytes w.code entry.target (entry.originalBytes.take entry.patchSize)
  bp : w'.bp = w.bp
  byId : w'.hooks.hooksById = w.hooks.hooksById.erase hookId
  byTarget : w'.hooks.hooksByTarget = w.hooks.hooksByTarget.erase entry.target
  nextId : w'.hooks.nextHookId = w.hooks.nextHookId

/-- Bytes were written and the protection change after them refused: the maps are
as they were. -/
structure Overwritten (t : Addr) (data : List Byte) (w w' : World) : Prop where
  code : w'.code = writeBytes w.code t data
  bp : w'.bp = w.bp
  hooks : w'.hooks = w.hooks

theorem attach_cases (arch : Arch) (env : Install) (target : Addr)
    (onEnter onLeave : Callback) (w : World) :
    Unchanged w (attach arch env target onEnter onLeave w).2 ∨
    (target ∉ w.hooks.hooksByTarget ∧ env.relocated.isOk ∧ env.trampoline.isOk ∧
      ((env.patch = .ok ∧ ∃ entry, entry.target = target ∧ entry.self = env.self ∧
          entry.onEnter = some onEnter ∧
          Installed arch entry entry.trampolineCode w
            (attach arch env target onEnter onLeave w).2) ∨
        (env.patch = .rxDenied ∧ ∃ dest, Overwritten target (generatePatchBytes arch dest) w
            (attach arch env target onEnter onLeave w).2))) := by
  unfold attach
  by_cases hmem : target ∈ w.hooks.hooksByTarget
  · rw [if_pos hmem]
    exact Or.inl ⟨rfl, rfl, rfl⟩
  · rw [if_neg hmem]
    cases hr : env.relocated with
    | error e => exact Or.inl ⟨rfl, rfl, rfl⟩
    | ok block =>
        cases ht : env.trampoline with
        | error e => exact Or.inl ⟨by simp, by simp, by simp⟩
        | ok trampolineCode =>
            cases hp : env.patch with
            | ok =>
                refine Or.inr ⟨hmem, rfl, rfl, Or.inl ⟨rfl, ?_⟩⟩
                exact ⟨⟨env.self, target, trampolineCode, block.1,
                  readBytes w.code target arch.patchSize, arch.patchSize, some onEnter,
                  some onLeave⟩, rfl, rfl, rfl, hmem, rfl, rfl, rfl, rfl, rfl, rfl, rfl⟩
            | rwDenied => exact Or.inl ⟨rfl, rfl, rfl⟩
            | rxDenied =>
                exact Or.inr ⟨hmem, rfl, rfl, Or.inr ⟨rfl, trampolineCode, rfl, rfl, rfl⟩⟩

theorem replace_cases (arch : Arch) (env : Install) (target replacement : Addr) (w : World) :
    Unchanged w (replace arch env target replacement w).2 ∨
    (target ∉ w.hooks.hooksByTarget ∧ env.relocated.isOk ∧
      ((env.patch = .ok ∧ ∃ entry, entry.target = target ∧ entry.self = env.self ∧
          entry.onEnter = none ∧
          Installed arch entry replacement w (replace arch env target replacement w).2) ∨
        (env.patch = .rxDenied ∧ Overwritten target (generatePatchBytes arch replacement) w
            (replace arch env target replacement w).2))) := by
  unfold replace
  by_cases hmem : target ∈ w.hooks.hooksByTarget
  · rw [if_pos hmem]
    exact Or.inl ⟨rfl, rfl, rfl⟩
  · rw [if_neg hmem]
    cases hr : env.relocated with
    | error e => exact Or.inl ⟨rfl, rfl, rfl⟩
    | ok block =>
        cases hp : env.patch with
        | ok =>
            refine Or.inr ⟨hmem, rfl, Or.inl ⟨rfl, ?_⟩⟩
            exact ⟨⟨env.self, target, 0, block.1, readBytes w.code target arch.patchSize,
              arch.patchSize, none, none⟩,
              rfl, rfl, rfl, hmem, rfl, rfl, rfl, rfl, rfl, rfl, rfl⟩
        | rwDenied => exact Or.inl ⟨rfl, rfl, rfl⟩
        | rxDenied => exact Or.inr ⟨hmem, rfl, Or.inr ⟨rfl, rfl, rfl, rfl⟩⟩

theorem detach_ok {hookId : ℕ} {entry : HookEntry} {w : World}
    (h : w.hooks.hooksById.lookup hookId = some entry) :
    Removed hookId entry w (detach .ok hookId w).2 := by
  simp only [detach, h, restore, makeWritableAndPatch_ok]
  exact ⟨h, by simp, by simp, by simp, by simp, by simp⟩

theorem detach_cases (patch : PatchOutcome) (hookId : ℕ) (w : World) :
    Unchanged w (detach patch hookId w).2 ∨
    ∃ entry, w.hooks.hooksById.lookup hookId = some entry ∧
      ((patch = .ok ∧ Removed hookId entry w (detach patch hookId w).2) ∨ patch = .rxDenied) := by
  cases hl : w.hooks.hooksById.lookup hookId with
  | none =>
      simp only [detach, hl]
      exact Or.inl ⟨rfl, rfl, rfl⟩
  | some entry =>
      cases patch with
      | ok => exact Or.inr ⟨entry, rfl, Or.inl ⟨rfl, detach_ok hl⟩⟩
      | rwDenied =>
          simp only [detach, hl]
          exact Or.inl ⟨rfl, rfl, rfl⟩
      | rxDenied => exact Or.inr ⟨entry, rfl, Or.inr rfl⟩

/-- No two live entries share an address, as long as `new` returns fresh memory. -/
def SelfDistinct (byId : HashMap ℕ HookEntry) : Prop :=
  ∀ {id id' : ℕ} {e e' : HookEntry}, byId.lookup id = some e →
    byId.lookup id' = some e' → e.self = e'.self → id = id'

theorem eraseSelf_eq {byId : HashMap ℕ HookEntry} (h : SelfDistinct byId) {id : ℕ}
    {entry : HookEntry} (hid : byId.lookup id = some entry) :
    eraseSelf entry.self byId = byId.erase id := by
  unfold eraseSelf
  have hmem : (⟨id, entry⟩ : Σ _ : ℕ, HookEntry) ∈ byId.entries :=
    AList.mem_lookup_iff.mp hid
  cases hf : byId.entries.find? (·.2.self = entry.self) with
  | none =>
      have := List.find?_eq_none.mp hf _ hmem
      simp at this
  | some found =>
      have hself : found.2.self = entry.self := by simpa using List.find?_some hf
      have hlookup : byId.lookup found.1 = some found.2 :=
        AList.mem_lookup_iff.mpr (List.mem_of_find?_eq_some hf)
      show byId.erase found.1 = byId.erase id
      rw [h hlookup hid hself]

theorem revert_ok {target : Addr} {entry : HookEntry} {w : World}
    (hself : SelfDistinct w.hooks.hooksById)
    (hindexed : Indexed HookEntry.target w.hooks.hooksById w.hooks.hooksByTarget
      w.hooks.nextHookId) (h : w.hooks.hooksByTarget.lookup target = some entry) :
    ∃ hookId, entry.target = target ∧ w.hooks.hooksById.lookup hookId = some entry ∧
      Removed hookId entry w (revert .ok target w).2 := by
  obtain ⟨htarget, hookId, hid⟩ := hindexed.toId h
  refine ⟨hookId, htarget, hid, ?_⟩
  simp only [revert, h, restore, makeWritableAndPatch_ok]
  refine ⟨hid, by simp, by simp, ?_, ?_, by simp⟩
  · simpa using eraseSelf_eq hself hid
  · simp [htarget]

theorem revert_cases (patch : PatchOutcome) (target : Addr) (w : World)
    (hself : SelfDistinct w.hooks.hooksById)
    (hindexed : Indexed HookEntry.target w.hooks.hooksById w.hooks.hooksByTarget
      w.hooks.nextHookId) :
    Unchanged w (revert patch target w).2 ∨
    ∃ hookId entry, entry.target = target ∧ w.hooks.hooksById.lookup hookId = some entry ∧
      ((patch = .ok ∧ Removed hookId entry w (revert patch target w).2) ∨
        patch = .rxDenied) := by
  cases hl : w.hooks.hooksByTarget.lookup target with
  | none =>
      simp only [revert, hl]
      exact Or.inl ⟨rfl, rfl, rfl⟩
  | some entry =>
      obtain ⟨hookId, htarget, hid, hremoved⟩ := revert_ok hself hindexed hl
      cases patch with
      | ok => exact Or.inr ⟨hookId, entry, htarget, hid, Or.inl ⟨rfl, hremoved⟩⟩
      | rwDenied =>
          simp only [revert, hl]
          exact Or.inl ⟨rfl, rfl, rfl⟩
      | rxDenied => exact Or.inr ⟨hookId, entry, htarget, hid, Or.inr rfl⟩

/-- The saved bytes of the entries, written back one after the other. -/
def writeBack (order : List (Σ _ : ℕ, HookEntry)) (m : Memory) : Memory :=
  order.foldl (fun m e => writeBytes m e.2.target (e.2.originalBytes.take e.2.patchSize)) m

/-- Every entry's bytes are written back and nothing is live. -/
structure Cleared (order : List (Σ _ : ℕ, HookEntry)) (w w' : World) : Prop where
  code : w'.code = writeBack order w.code
  bp : w'.bp = w.bp
  hooks : w'.hooks = { w.hooks with hooksById := ∅, hooksByTarget := ∅ }

theorem restoreAll_ok (patch : Addr → PatchOutcome) (order : List (Σ _ : ℕ, HookEntry))
    (w : World) (hpatch : ∀ e ∈ order, patch e.2.target = .ok) :
    ∃ w', restoreAll patch order w = (.ok (), w') ∧ w'.code = writeBack order w.code ∧
      w'.bp = w.bp ∧ w'.hooks = w.hooks := by
  induction order generalizing w with
  | nil => exact ⟨w, rfl, rfl, rfl, rfl⟩
  | cons e rest ih =>
      have hrest : ∀ e ∈ rest, patch e.2.target = .ok :=
        fun e he => hpatch e (List.mem_cons_of_mem _ he)
      simp only [restoreAll, restore, hpatch e List.mem_cons_self, makeWritableAndPatch_ok]
      obtain ⟨w', heq, hcode, hbp, hhooks⟩ := ih (releaseEntry e.2 { w with
        code := writeBytes w.code e.2.target (e.2.originalBytes.take e.2.patchSize) }) hrest
      exact ⟨w', heq, by simpa [writeBack] using hcode, by simpa using hbp,
        by simpa using hhooks⟩

theorem detachAll_ok (patch : Addr → PatchOutcome) (order : List (Σ _ : ℕ, HookEntry))
    (w : World) (hpatch : ∀ e ∈ order, patch e.2.target = .ok) :
    ∃ w', detachAll patch order w = (.ok (), w') ∧ Cleared order w w' := by
  obtain ⟨w', heq, hcode, hbp, hhooks⟩ := restoreAll_ok patch order w hpatch
  unfold detachAll
  rw [heq]
  exact ⟨_, rfl, hcode, hbp, by rw [hhooks]⟩

/-- A loop whose first patch is refused outright changes nothing. -/
theorem detachAll_denied {patch : Addr → PatchOutcome} {e : Σ _ : ℕ, HookEntry}
    (rest : List (Σ _ : ℕ, HookEntry)) (w : World) (h : patch e.2.target = .rwDenied) :
    (detachAll patch (e :: rest) w).2 = w := by
  simp [detachAll, restoreAll, restore, h, makeWritableAndPatch]

/-- Hooks are no business of the exception handler or of breakpoints. -/
theorem detachAll_handlers (patch : Addr → PatchOutcome) (order : List (Σ _ : ℕ, HookEntry))
    (w : World) :
    (detachAll patch order w).2.exc = w.exc ∧ (detachAll patch order w).2.bp = w.bp ∧
      (detachAll patch order w).2.hw = w.hw := by
  have hloop : (restoreAll patch order w).2.exc = w.exc ∧
      (restoreAll patch order w).2.bp = w.bp ∧ (restoreAll patch order w).2.hw = w.hw := by
    induction order generalizing w with
    | nil => exact ⟨rfl, rfl, rfl⟩
    | cons e rest ih =>
        unfold restoreAll restore
        cases patch e.2.target with
        | ok =>
            simp only [makeWritableAndPatch_ok]
            obtain ⟨hexc, hbp, hhw⟩ := ih (releaseEntry e.2 { w with
              code := writeBytes w.code e.2.target (e.2.originalBytes.take e.2.patchSize) })
            exact ⟨by simpa [releaseEntry] using hexc, by simpa using hbp,
              by simpa [releaseEntry] using hhw⟩
        | rwDenied => exact ⟨rfl, rfl, rfl⟩
        | rxDenied => exact ⟨rfl, rfl, rfl⟩
  unfold detachAll
  generalize restoreAll patch order w = result at *
  obtain ⟨answer, w'⟩ := result
  cases answer with
  | error e => exact hloop
  | ok _ => exact hloop

end Interceptor

end Chromatic
