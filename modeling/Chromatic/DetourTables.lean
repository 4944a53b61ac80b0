import Chromatic.DetouredRuns
import Chromatic.Cleanup
import Chromatic.BreakpointRuns

/-!
# Tables of detours

Any sequence of breakpoints set and removed, functions hooked, replaced, detached and reverted,
each of whose relocated code the relocator built from the code as it was. What is live is a table
of detours: its patches are in the code, taking them out gives the code of the start, and the
processor finds every trampoline.

§1 calls · §2 the table of a run · §3 taking patches out · §4 one call · §5 whole runs.
-/

namespace Chromatic

open Foundation CodeRelocator Relocation

namespace DetouredCode

/-! ## §1  Calls -/

/-- `chunksOf cs m a n`: what the relocator emits for the code at `a`. -/
def chunksOf (cs : CsDisasm) (m : Memory) (a : Addr) (n : ℕ) : List Chunk :=
  match relocateInsns cs m a n 0 with
  | .ok chunks => chunks
  | .error _ => []

/-- What an installation was told is what the relocator answered. -/
def Relocates (cs : CsDisasm) (m : Memory) (a : Addr) (n : ℕ)
    (answer : Except String (Addr × ℕ)) : Prop :=
  ∃ added, answer =
    (buildRelocatedCode cs m a n added).map fun r => (r.1, bytesConsumed r.2)

/-- Patches succeed, and `new` and the relocator answer for the code as it is. -/
def Permitted (cs : CsDisasm) (w : World) : Cleanup.Call → Prop
  | .set env address _ => env.patch = .ok ∧
      Relocates cs w.code address (bpInsn .x64).length env.relocated
  | .remove _ => True
  | .hook (.attach env target _ _) => Interceptor.Fresh env.self w ∧ env.patch = .ok ∧
      Relocates cs w.code target Arch.x64.patchSize env.relocated
  | .hook (.replace env target _) => Interceptor.Fresh env.self w ∧ env.patch = .ok ∧
      Relocates cs w.code target Arch.x64.patchSize env.relocated
  | .hook (.detach patch _) => patch = .ok
  | .hook (.revert patch _) => patch = .ok

/-! ## §2  The table of a run -/

/-- A breakpoint or hook is live at the detour's address. -/
def Detour.Live (w : World) (d : Detour) : Prop :=
  match d.gate with
  | .breakpoint => d.address ∈ w.bp.bpByAddress
  | _ => d.address ∈ w.hooks.hooksByTarget

/-- Where the detour is in the registries. -/
def Detour.site (d : Detour) : Cleanup.Site :=
  match d.gate with
  | .breakpoint => .bp d.address
  | _ => .hook d.address

theorem Detour.live_iff {w : World} {d : Detour} : d.Live w ↔ d.site.Live w := by
  unfold Detour.Live Detour.site
  cases d.gate <;> exact Iff.rfl

instance instDecidableLive (w : World) (d : Detour) : Decidable (d.Live w) :=
  decidable_of_iff (d.site.Live w) Detour.live_iff.symm

/-- The detour that a call is to make. -/
def proposed (cs : CsDisasm) (w w' : World) : Cleanup.Call → Option Detour
  | .set _ address _ => (w'.bp.bpByAddress.lookup address).map fun e =>
      .ofBreakpoint e w.code (chunksOf cs w.code address (bpInsn .x64).length)
  | .hook (.attach _ target _ _) => (w'.hooks.hooksByTarget.lookup target).map fun e =>
      .ofHook e none w.code (chunksOf cs w.code target Arch.x64.patchSize)
  | .hook (.replace _ target replacement) =>
      (w'.hooks.hooksByTarget.lookup target).map fun e =>
        .ofHook e (some replacement) w.code (chunksOf cs w.code target Arch.x64.patchSize)
  | _ => none

/-- `table` lists what is live, the last one first: a record of the run that no operation
reads. -/
structure Tabled where
  world : World
  table : List Detour

def Tabled.start (code : Memory) (disposition : Sig → SigAction) : Tabled :=
  ⟨World.start code disposition, []⟩

/-- What a call makes, if that was not live before. -/
def made (cs : CsDisasm) (w w' : World) (c : Cleanup.Call) : List Detour :=
  (proposed cs w w' c).toList.filter fun d => ¬ d.Live w

inductive Step (cs : CsDisasm) (s : Tabled) (c : Cleanup.Call) : Tabled → Prop where
  | intro (permitted : Permitted cs s.world c) :
      Step cs s c ⟨c.exec .x64 s.world,
        made cs s.world (c.exec .x64 s.world) c ++
          s.table.filter fun d => d.Live (c.exec .x64 s.world)⟩

/-- What the call makes has bytes of its own. -/
def Clear (cs : CsDisasm) (s : Tabled) (c : Cleanup.Call) : Prop :=
  Apart (made cs s.world (c.exec .x64 s.world) c ++ s.table)

variable {cs : CsDisasm} {T T' : List Detour} {d : Detour} {m m' : Memory} {x : Addr}
  {w w' : World} {c : Cleanup.Call}

/-! ## §3  Taking patches out -/

/-- The detour that lies at the byte is one at most. -/
theorem Apart.sole (h : Apart T) (hbuilt : ∀ d ∈ T, d.patch.length ≤ d.consumed) (hd : d ∈ T)
    (hx : d.Owns .code x) : ∀ d' ∈ T, d'.Under x → d' = d := by
  intro d' hd' hunder
  exact (h d' hd' d hd .code .code x (Nat.lt_of_lt_of_le hunder (hbuilt d' hd')) hx).1

theorem Apart.sub (h : Apart T) (hsub : ∀ d ∈ T', d ∈ T) : Apart T' :=
  fun d hd d' hd' => h d (hsub d hd) d' (hsub d' hd')

/-! ## §4  One call -/

theorem Detour.site_start : d.site.start = d.address := by
  unfold Detour.site
  cases d.gate <;> rfl

theorem Detour.site_size : d.site.size .x64 = d.patch.length := by
  unfold Detour.site Detour.patch
  cases d.gate <;> simp [Cleanup.Site.size]

/-- The registry's entry for a breakpoint has its trampoline. -/
def Detour.Entered (w : World) (d : Detour) : Prop :=
  d.gate = .breakpoint →
    ∃ e, w.bp.bpByAddress.lookup d.address = some e ∧ e.trampolineCode = d.trampolineCode

/-- A detour is made. -/
structure Makes (cs : CsDisasm) (w w' : World) (d : Detour) : Prop where
  source : d.source = w.code
  built : d.Built cs
  code : w'.code = writeBytes w.code d.address d.patch
  live : Cleanup.GoesLive .x64 d.site w w'
  entered : d.Entered w'

/-- What a call does. -/
inductive Effect (cs : CsDisasm) (w w' : World) (c : Cleanup.Call) : Prop
  | same (same : Cleanup.Same .x64 w w') (made : made cs w w' c = [])
  | makes (d : Detour) (makes : Makes cs w w' d) (made : made cs w w' c = [d])
  | takesDown (site : Cleanup.Site) (down : Cleanup.TakenDown .x64 site w w')
      (made : made cs w w' c = [])

section Effects

variable {a : Addr} {n : ℕ} {answer : Except String (Addr × ℕ)} {block : Addr × ℕ}

theorem Relocates.built (h : Relocates cs m a n answer) (hok : answer = .ok block) :
    buildRelocatedCode cs m a n (some block.1) = .ok (block.1, chunksOf cs m a n) := by
  obtain ⟨added, rfl⟩ := h
  unfold buildRelocatedCode chunksOf at *
  cases hloop : relocateInsns cs m a n 0 with
  | error e =>
      rw [hloop] at hok
      cases hok
  | ok chunks => rfl

/-- What was live before is not made. -/
theorem made_eq_nil (h : ∀ d, proposed cs w w' c = some d → d.Live w) : made cs w w' c = [] := by
  unfold made
  cases hp : proposed cs w w' c with
  | none => rfl
  | some d => simp [h d hp]

theorem made_eq (hp : proposed cs w w' c = some d) (hnot : ¬ d.Live w) : made cs w w' c = [d] := by
  unfold made
  rw [hp]
  simp [hnot]

theorem mem_of_lookup {κ α : Type} [DecidableEq κ] {l : HashMap κ α} {k : κ} {v : α}
    (h : l.lookup k = some v) : k ∈ l :=
  AList.lookup_isSome.mp (by rw [h]; rfl)

/-- The entry that `set` registers has the relocated code it was given. -/
theorem set_relocated {env : SoftwareBreakpoint.Install} {address : Addr} {onHit : Callback}
    {e : BreakpointEntry} (hpatch : env.patch = .ok) (hfree : address ∉ w.bp.bpByAddress)
    (he : (SoftwareBreakpoint.set .x64 env address onHit w).2.bp.bpByAddress.lookup address =
      some e) : ∃ n, env.relocated = .ok (e.relocatedCode, n) := by
  have hnone := AList.lookup_eq_none.mpr hfree
  unfold SoftwareBreakpoint.set at he
  rw [if_neg hfree] at he
  cases hr : env.relocated with
  | error msg =>
      simp [hr, hnone] at he
  | ok block =>
      cases ht : env.trampoline with
      | error msg => simp [hr, ht, hnone] at he
      | ok trampolineCode =>
          simp only [hr, ht, hpatch, makeWritableAndPatch_ok] at he
          simp only [AList.lookup_insert, Option.some.injEq] at he
          exact ⟨block.2, by rw [← he]⟩

theorem attach_relocated {env : Interceptor.Install} {target : Addr} {onEnter onLeave : Callback}
    {e : HookEntry} (hpatch : env.patch = .ok) (hfree : target ∉ w.hooks.hooksByTarget)
    (he : (Interceptor.attach .x64 env target onEnter onLeave w).2.hooks.hooksByTarget.lookup
      target = some e) : ∃ n, env.relocated = .ok (e.relocatedCode, n) := by
  have hnone := AList.lookup_eq_none.mpr hfree
  unfold Interceptor.attach at he
  rw [if_neg hfree] at he
  cases hr : env.relocated with
  | error msg => simp [hr, hnone] at he
  | ok block =>
      cases ht : env.trampoline with
      | error msg => simp [hr, ht, hnone] at he
      | ok trampolineCode =>
          simp only [hr, ht, hpatch, makeWritableAndPatch_ok, Interceptor.register] at he
          simp only [AList.lookup_insert, Option.some.injEq] at he
          exact ⟨block.2, by rw [← he]⟩

theorem replace_relocated {env : Interceptor.Install} {target replacement : Addr}
    {e : HookEntry} (hpatch : env.patch = .ok) (hfree : target ∉ w.hooks.hooksByTarget)
    (he : (Interceptor.replace .x64 env target replacement w).2.hooks.hooksByTarget.lookup
      target = some e) : ∃ n, env.relocated = .ok (e.relocatedCode, n) := by
  have hnone := AList.lookup_eq_none.mpr hfree
  unfold Interceptor.replace at he
  rw [if_neg hfree] at he
  cases hr : env.relocated with
  | error msg => simp [hr, hnone] at he
  | ok block =>
      simp only [hr, hpatch, makeWritableAndPatch_ok, Interceptor.register] at he
      simp only [AList.lookup_insert, Option.some.injEq] at he
      exact ⟨block.2, by rw [← he]⟩

variable (h : Cleanup.Registries .x64 w)
include h

theorem set_effect {env : SoftwareBreakpoint.Install} {address : Addr} {onHit : Callback}
    (hok : Permitted cs w (.set env address onHit)) :
    Effect cs w (SoftwareBreakpoint.set .x64 env address onHit w).2 (.set env address onHit) := by
  obtain ⟨hpatch, hrelocates⟩ := hok
  rcases SoftwareBreakpoint.set_cases .x64 address onHit w hpatch with hun | ⟨entry, rfl, hi⟩
  · refine .same (Cleanup.same_of_bp hun) (made_eq_nil fun d hd => ?_)
    obtain ⟨e, he, rfl⟩ := Option.map_eq_some_iff.mp hd
    rw [hun.byAddress] at he
    obtain ⟨haddress, -⟩ := h.bps.toId he
    show e.address ∈ w.bp.bpByAddress
    rw [haddress]
    exact mem_of_lookup he
  · have hlookup : (SoftwareBreakpoint.set .x64 env entry.address onHit w).2.bp.bpByAddress.lookup
        entry.address = some entry := by rw [hi.byAddress, AList.lookup_insert]
    obtain ⟨n, hr⟩ := set_relocated hpatch hi.free hlookup
    refine .makes (.ofBreakpoint entry w.code
      (chunksOf cs w.code entry.address (bpInsn .x64).length)) ⟨rfl, ?_, hi.code, ?_, ?_⟩ ?_
    · exact hrelocates.built hr
    · exact Cleanup.goesLive_of_set hi
    · exact fun _ => ⟨entry, hlookup, rfl⟩
    · exact made_eq (congrArg (Option.map _) hlookup) hi.free

theorem attach_effect {env : Interceptor.Install} {target : Addr} {onEnter onLeave : Callback}
    (hok : Permitted cs w (.hook (.attach env target onEnter onLeave))) :
    Effect cs w (Interceptor.attach .x64 env target onEnter onLeave w).2
      (.hook (.attach env target onEnter onLeave)) := by
  obtain ⟨-, hpatch, hrelocates⟩ := hok
  rcases Interceptor.attach_cases .x64 env target onEnter onLeave w with
    hun | ⟨-, -, -, ⟨-, entry, rfl, -, -, hi⟩ | ⟨hdenied, -⟩⟩
  · refine .same (Cleanup.same_of_hook hun) (made_eq_nil fun d hd => ?_)
    obtain ⟨e, he, rfl⟩ := Option.map_eq_some_iff.mp hd
    rw [hun.hooks] at he
    obtain ⟨htarget, -⟩ := h.hooks.indexed.toId he
    show e.target ∈ w.hooks.hooksByTarget
    rw [htarget]
    exact mem_of_lookup he
  · have hlookup : (Interceptor.attach .x64 env entry.target onEnter onLeave
        w).2.hooks.hooksByTarget.lookup entry.target = some entry := by
      rw [hi.byTarget, AList.lookup_insert]
    obtain ⟨n, hr⟩ := attach_relocated hpatch hi.free hlookup
    refine .makes (.ofHook entry none w.code
      (chunksOf cs w.code entry.target Arch.x64.patchSize)) ⟨rfl, ?_, hi.code, ?_, ?_⟩ ?_
    · exact hrelocates.built hr
    · exact Cleanup.goesLive_of_hook hi
    · intro hgate
      cases hgate
    · exact made_eq (congrArg (Option.map _) hlookup) hi.free
  · rw [hpatch] at hdenied
    cases hdenied

theorem replace_effect {env : Interceptor.Install} {target replacement : Addr}
    (hok : Permitted cs w (.hook (.replace env target replacement))) :
    Effect cs w (Interceptor.replace .x64 env target replacement w).2
      (.hook (.replace env target replacement)) := by
  obtain ⟨-, hpatch, hrelocates⟩ := hok
  rcases Interceptor.replace_cases .x64 env target replacement w with
    hun | ⟨-, -, ⟨-, entry, rfl, -, -, hi⟩ | ⟨hdenied, -⟩⟩
  · refine .same (Cleanup.same_of_hook hun) (made_eq_nil fun d hd => ?_)
    obtain ⟨e, he, rfl⟩ := Option.map_eq_some_iff.mp hd
    rw [hun.hooks] at he
    obtain ⟨htarget, -⟩ := h.hooks.indexed.toId he
    show e.target ∈ w.hooks.hooksByTarget
    rw [htarget]
    exact mem_of_lookup he
  · have hlookup : (Interceptor.replace .x64 env entry.target replacement
        w).2.hooks.hooksByTarget.lookup entry.target = some entry := by
      rw [hi.byTarget, AList.lookup_insert]
    obtain ⟨n, hr⟩ := replace_relocated hpatch hi.free hlookup
    refine .makes (.ofHook entry (some replacement) w.code
      (chunksOf cs w.code entry.target Arch.x64.patchSize)) ⟨rfl, ?_, hi.code, ?_, ?_⟩ ?_
    · exact hrelocates.built hr
    · exact Cleanup.goesLive_of_hook hi
    · intro hgate
      cases hgate
    · exact made_eq (congrArg (Option.map _) hlookup) hi.free
  · rw [hpatch] at hdenied
    cases hdenied

/-- A call that installs nothing. -/
theorem removal_effect (hok : c.Permitted w) (hsite : c.site = none)
    (hnone : ∀ w', proposed cs w w' c = none) : Effect cs w (c.exec .x64 w) c := by
  have hmade : made cs w (c.exec .x64 w) c = [] := by
    rw [made, hnone]
    rfl
  obtain ⟨-, hsame | ⟨site, hgoes, -⟩ | ⟨site, -, hdown⟩⟩ := Cleanup.exec_cases h hok
  · exact .same hsame hmade
  · rw [hsite] at hgoes
    cases hgoes
  · exact .takesDown site hdown hmade

/-- **What a call does** to code and registries. -/
theorem exec_effect (hok : Permitted cs w c) : Effect cs w (c.exec .x64 w) c := by
  cases c with
  | set env address onHit => exact set_effect h hok
  | remove bpId => exact removal_effect h trivial rfl fun _ => rfl
  | hook c =>
      cases c with
      | attach env target onEnter onLeave => exact attach_effect h hok
      | replace env target replacement => exact replace_effect h hok
      | detach patch hookId => exact removal_effect h ⟨trivial, hok⟩ rfl fun _ => rfl
      | revert patch target => exact removal_effect h ⟨trivial, hok⟩ rfl fun _ => rfl

end Effects

/-! ## §5  Whole runs -/

/-- Hook operations leave the chain of handlers and the breakpoints alone. -/
structure Frame (w w' : World) : Prop where
  exc : w'.exc = w.exc
  bp : w'.bp = w.bp
  hw : w'.hw = w.hw

theorem attach_frame (env : Interceptor.Install) (target : Addr) (onEnter onLeave : Callback)
    (w : World) : Frame w (Interceptor.attach .x64 env target onEnter onLeave w).2 := by
  unfold Interceptor.attach
  by_cases hmem : target ∈ w.hooks.hooksByTarget
  · rw [if_pos hmem]
    exact ⟨rfl, rfl, rfl⟩
  · rw [if_neg hmem]
    cases hr : env.relocated with
    | error e => exact ⟨rfl, rfl, rfl⟩
    | ok block =>
        cases ht : env.trampoline with
        | error e => constructor <;> simp
        | ok trampolineCode => cases hp : env.patch <;> exact ⟨rfl, rfl, rfl⟩

theorem replace_frame (env : Interceptor.Install) (target replacement : Addr) (w : World) :
    Frame w (Interceptor.replace .x64 env target replacement w).2 := by
  unfold Interceptor.replace
  by_cases hmem : target ∈ w.hooks.hooksByTarget
  · rw [if_pos hmem]
    exact ⟨rfl, rfl, rfl⟩
  · rw [if_neg hmem]
    cases hr : env.relocated with
    | error e => exact ⟨rfl, rfl, rfl⟩
    | ok block => cases hp : env.patch <;> exact ⟨rfl, rfl, rfl⟩

theorem detach_frame (patch : PatchOutcome) (hookId : ℕ) (w : World) :
    Frame w (Interceptor.detach patch hookId w).2 := by
  unfold Interceptor.detach Interceptor.restore
  cases hl : w.hooks.hooksById.lookup hookId with
  | none => exact ⟨rfl, rfl, rfl⟩
  | some entry =>
      cases patch with
      | ok => constructor <;> simp [makeWritableAndPatch, Interceptor.releaseEntry]
      | rwDenied => exact ⟨rfl, rfl, rfl⟩
      | rxDenied => exact ⟨rfl, rfl, rfl⟩

theorem revert_frame (patch : PatchOutcome) (target : Addr) (w : World) :
    Frame w (Interceptor.revert patch target w).2 := by
  unfold Interceptor.revert Interceptor.restore
  cases hl : w.hooks.hooksByTarget.lookup target with
  | none => exact ⟨rfl, rfl, rfl⟩
  | some entry =>
      cases patch with
      | ok => constructor <;> simp [makeWritableAndPatch, Interceptor.releaseEntry]
      | rwDenied => exact ⟨rfl, rfl, rfl⟩
      | rxDenied => exact ⟨rfl, rfl, rfl⟩

theorem hook_frame (c : Interceptor.Call) (w : World) : Frame w (c.exec .x64 w) := by
  cases c with
  | attach env target onEnter onLeave => exact attach_frame env target onEnter onLeave w
  | replace env target replacement => exact replace_frame env target replacement w
  | detach patch hookId => exact detach_frame patch hookId w
  | revert patch target => exact revert_frame patch target w

/-- What holds whatever a call does to the code. -/
structure Kept (w : World) : Prop where
  registries : Cleanup.Registries .x64 w
  chained : BreakpointRuns.Chained w
  noHardware : ∀ a, w.hw.hwByAddress.lookup a = none

theorem Permitted.cleanup (h : Permitted cs w c) : c.Permitted w := by
  cases c with
  | set env address onHit => exact h.1
  | remove bpId => trivial
  | hook c =>
      cases c with
      | attach env target onEnter onLeave => exact ⟨h.1, h.2.1⟩
      | replace env target replacement => exact ⟨h.1, h.2.1⟩
      | detach patch hookId => exact ⟨trivial, h⟩
      | revert patch target => exact ⟨trivial, h⟩

theorem remove_hw (bpId : ℕ) (w : World) :
    (SoftwareBreakpoint.remove .x64 .ok bpId w).2.hw = w.hw := by
  unfold SoftwareBreakpoint.remove
  cases hl : w.bp.bpById.lookup bpId with
  | none => rfl
  | some entry => simp [makeWritableAndPatch]

theorem Kept.exec (h : Kept w) (hok : Permitted cs w c) : Kept (c.exec .x64 w) where
  registries := (Cleanup.exec_cases h.registries hok.cleanup).1
  chained := by
    cases c with
    | set env address onHit => exact h.chained.swSet env address onHit
    | remove bpId => exact h.chained.swRemove .ok bpId
    | hook c => exact h.chained.congr (hook_frame c w).exc (hook_frame c w).bp (hook_frame c w).hw
  noHardware := by
    have hhw : (c.exec .x64 w).hw = w.hw := by
      cases c with
      | set env address onHit => exact (BreakpointRuns.set_byAddress env address onHit w).1
      | remove bpId => exact remove_hw bpId w
      | hook c => exact (hook_frame c w).hw
    rw [hhw]
    exact h.noHardware

/-- A breakpoint that stays live keeps its entry. -/
theorem entry_kept (hok : Permitted cs w c) {a : Addr} {e : BreakpointEntry}
    (he : w.bp.bpByAddress.lookup a = some e) (hlive : a ∈ (c.exec .x64 w).bp.bpByAddress) :
    (c.exec .x64 w).bp.bpByAddress.lookup a = some e := by
  cases c with
  | set env address onHit =>
      show (SoftwareBreakpoint.set .x64 env address onHit w).2.bp.bpByAddress.lookup a = some e
      rcases SoftwareBreakpoint.set_cases .x64 address onHit w hok.1 with hun | ⟨entry, -, hi⟩
      · rw [hun.byAddress]
        exact he
      · have hne : a ≠ entry.address := by
          rintro rfl
          exact hi.free (mem_of_lookup he)
        rw [hi.byAddress, AList.lookup_insert_ne hne]
        exact he
  | remove bpId =>
      rcases SoftwareBreakpoint.remove_cases .x64 bpId w with hun | ⟨entry, hr⟩
      · show (SoftwareBreakpoint.remove .x64 .ok bpId w).2.bp.bpByAddress.lookup a = some e
        rw [hun.byAddress]
        exact he
      · have hmem : a ∈ (SoftwareBreakpoint.remove .x64 .ok bpId w).2.bp.bpByAddress := hlive
        show (SoftwareBreakpoint.remove .x64 .ok bpId w).2.bp.bpByAddress.lookup a = some e
        rw [hr.byAddress] at hmem ⊢
        rw [AList.mem_erase] at hmem
        rw [AList.lookup_erase_ne hmem.1]
        exact he
  | hook c =>
      show (c.exec .x64 w).bp.bpByAddress.lookup a = some e
      rw [(hook_frame c w).bp]
      exact he

/-- Code and registries are as the table says, over the code of the start. -/
structure Sound (cs : CsDisasm) (code : Memory) (s : Tabled) : Prop where
  kept : Kept s.world
  live : ∀ site, Cleanup.Site.Live s.world site ↔ ∃ d ∈ s.table, d.site = site
  built : ∀ d ∈ s.table, d.Built cs
  apart : Apart s.table
  entered : ∀ d ∈ s.table, d.Entered s.world
  saved : ∀ d ∈ s.table,
    d.site.saved .x64 s.world = readBytes code d.address d.patch.length
  source : ∀ d ∈ s.table, ∀ x, d.Owns .code x → d.source x = code x
  patched : ∀ d ∈ s.table, Holds s.world.code d.address d.patch
  outside : ∀ x, (∀ d ∈ s.table, ¬ d.Under x) → s.world.code x = code x

theorem Detour.patch_length_le64 (d : Detour) : d.patch.length ≤ 2 ^ 64 :=
  patch_length_le.trans (by decide)

/-- What is read at a target depends on the bytes under its patch alone. -/
theorem readBytes_under (h : ∀ x, d.Under x → m x = m' x) :
    readBytes m d.address d.patch.length = readBytes m' d.address d.patch.length :=
  readBytes_congr d.patch_length_le64 h

theorem Detour.under_address (d : Detour) : d.Under d.address := by
  show offset d.address d.address < d.patch.length
  rw [offset_self]
  exact patch_length_pos

namespace Sound

variable {code : Memory} {s : Tabled}

theorem start (code : Memory) (disposition : Sig → SigAction) :
    Sound cs code (Tabled.start code disposition) where
  kept :=
    { registries := ⟨Indexed.empty, by rintro id e ⟨⟩, Interceptor.Registry.empty⟩
      chained := by
        refine ⟨⟨?_, ?_⟩, ?_, ?_, ?_, ?_, ?_⟩ <;> simp [Tabled.start, World.start,
          ExceptionState.start, BreakpointState.start, HwState.start]
      noHardware := fun _ => rfl }
  live site := by
    cases site <;> simp [Tabled.start, World.start, Cleanup.Site.Live, BreakpointState.start,
      HookState.start]
  built := by simp [Tabled.start]
  apart := by simp [Tabled.start, Apart]
  entered := by simp [Tabled.start]
  saved := by simp [Tabled.start]
  source := by simp [Tabled.start]
  patched := by simp [Tabled.start]
  outside _ _ := rfl

/-- Two detours of the table lie apart. -/
theorem under_sole (h : Sound cs code s) (hd : d ∈ s.table) (hx : d.Owns .code x) :
    ∀ d' ∈ s.table, d'.Under x → d' = d :=
  h.apart.sole (fun d' hd' => (h.built d' hd').covers) hd hx

theorem site_sole (h : Sound cs code s) (hd : d ∈ s.table) {d' : Detour} (hd' : d' ∈ s.table)
    (hsite : d'.site = d.site) : d' = d := by
  have haddress : d'.address = d.address := by
    rw [← d'.site_start, ← d.site_start, hsite]
  have hunder : d.Under d.address := d.under_address
  exact h.under_sole hd ((h.built d hd).owns hunder) d' hd' (haddress ▸ d'.under_address)

/-- Without the patches the code is that of the start. -/
theorem original_eq (h : Sound cs code s) : original s.table s.world.code = code := by
  funext x
  by_cases hx : ∃ d ∈ s.table, d.Under x
  · obtain ⟨d, hd, hunder⟩ := hx
    have howns := (h.built d hd).owns hunder
    rw [original_under (h.under_sole hd howns) hd hunder]
    exact h.source d hd x howns
  · have hnot : ∀ d ∈ s.table, ¬ d.Under x := fun d hd hunder => hx ⟨d, hd, hunder⟩
    rw [original_outside hnot]
    exact h.outside x hnot

/-- What every step preserves of the registries. -/
theorem entered_kept (h : Sound cs code s) (hok : Permitted cs s.world c) (hd : d ∈ s.table)
    (hlive : d.Live (c.exec .x64 s.world)) : d.Entered (c.exec .x64 s.world) := by
  intro hgate
  obtain ⟨e, he, htrampoline⟩ := h.entered d hd hgate
  refine ⟨e, entry_kept hok he ?_, htrampoline⟩
  unfold Detour.Live at hlive
  rw [hgate] at hlive
  exact hlive

/-- A call that changes nothing. -/
theorem same (h : Sound cs code ⟨w, T⟩) (hkept : Kept w') (hsame : Cleanup.Same .x64 w w')
    (hentered : ∀ d ∈ T, d.Entered w') : Sound cs code ⟨w', T⟩ where
  kept := hkept
  live site := (hsame.live site).trans (h.live site)
  built := h.built
  apart := h.apart
  entered := hentered
  saved d hd := (hsame.saved d.site).trans (h.saved d hd)
  source := h.source
  patched d hd := by
    show Holds w'.code d.address d.patch
    rw [hsame.code]
    exact h.patched d hd
  outside x hx := by
    show w'.code x = code x
    rw [hsame.code]
    exact h.outside x hx

/-- A call that makes a detour, which is built from the code of the start. -/
theorem makes (h : Sound cs code ⟨w, T⟩) (hkept : Kept w') (hmakes : Makes cs w w' d)
    (hentered : ∀ d ∈ T, d.Entered w') (hapart : Apart (d :: T)) : Sound cs code ⟨w', d :: T⟩ := by
  have hbuilt : ∀ d' ∈ d :: T, d'.Built cs := List.forall_mem_cons.mpr ⟨hmakes.built, h.built⟩
  have hnew : ∀ x, d.Owns .code x → w.code x = code x := by
    intro x hx
    refine h.outside x fun d' hd' hunder => ?_
    have hsole := hapart.sole (fun e he => (hbuilt e he).covers) List.mem_cons_self hx d'
      (List.mem_cons_of_mem _ hd') hunder
    have hfree : ¬ d'.site.Live w := hsole ▸ hmakes.live.free
    exact hfree ((h.live _).mpr ⟨d', hd', rfl⟩)
  have hother : ∀ d' ∈ T, d'.site ≠ d.site := fun d' hd' hsite =>
    hmakes.live.free ((h.live _).mpr ⟨d', hd', hsite⟩)
  have hclear : ∀ d' ∈ T, ∀ x, d'.Under x → ¬ d.Under x := by
    intro d' hd' x hx hx'
    have hsole := hapart.sole (fun e he => (hbuilt e he).covers) (List.mem_cons_of_mem _ hd')
      ((h.built d' hd').owns hx) d List.mem_cons_self hx'
    exact hother d' hd' (congrArg Detour.site hsole.symm)
  refine ⟨hkept, fun site => ?_, hbuilt, hapart, ?_, ?_, ?_, ?_, fun x hx => ?_⟩
  · rw [hmakes.live.live, h.live]
    simp [eq_comm]
  · exact List.forall_mem_cons.mpr ⟨hmakes.entered, hentered⟩
  · refine List.forall_mem_cons.mpr ⟨?_, fun d' hd' => ?_⟩
    · rw [hmakes.live.own, d.site_start, d.site_size]
      exact readBytes_under fun x hx => hnew x (hmakes.built.owns hx)
    · rw [hmakes.live.saved _ (hother d' hd')]
      exact h.saved d' hd'
  · refine List.forall_mem_cons.mpr ⟨fun x hx => ?_, h.source⟩
    rw [hmakes.source]
    exact hnew x hx
  · refine List.forall_mem_cons.mpr ⟨?_, fun d' hd' => ?_⟩
    · show Holds w'.code d.address d.patch
      rw [hmakes.code]
      exact readBytes_writeBytes_self d.patch_length_le64
    · show Holds w'.code d'.address d'.patch
      unfold Holds
      rw [readBytes_under fun x hx => ?_]
      · exact h.patched d' hd'
      · rw [hmakes.code]
        exact writeBytes_outside (hclear d' hd' x hx)
  · obtain ⟨hout, hrest⟩ := List.forall_mem_cons.mp hx
    show w'.code x = code x
    rw [hmakes.code, writeBytes_outside hout]
    exact h.outside x hrest

/-- A call that takes a detour down. -/
theorem takesDown {site : Cleanup.Site} (h : Sound cs code ⟨w, T⟩) (hkept : Kept w')
    (hdown : Cleanup.TakenDown .x64 site w w')
    (hentered : ∀ d ∈ T, d.Live w' → d.Entered w') :
    Sound cs code ⟨w', T.filter fun d => d.Live w'⟩ := by
  obtain ⟨d, hd, rfl⟩ := (h.live site).mp hdown.was
  have hmem : ∀ d', d' ∈ T.filter (fun d => d.Live w') ↔ d' ∈ T ∧ d'.site ≠ d.site := by
    intro d'
    rw [List.mem_filter, decide_eq_true_eq, Detour.live_iff, hdown.live, h.live]
    constructor
    · rintro ⟨hd', hne, -⟩
      exact ⟨hd', hne⟩
    · rintro ⟨hd', hne⟩
      exact ⟨hd', hne, d', hd', rfl⟩
  have hcode : w'.code = writeBytes w.code d.address (readBytes code d.address d.patch.length) := by
    rw [hdown.code, d.site_start, h.saved d hd]
  have hsub : ∀ d' ∈ T.filter (fun d => d.Live w'), d' ∈ T := fun d' hd' => ((hmem d').mp hd').1
  refine ⟨hkept, fun site => ?_, fun d' hd' => h.built d' (hsub d' hd'), h.apart.sub hsub,
    fun d' hd' => ?_, fun d' hd' => ?_, fun d' hd' => h.source d' (hsub d' hd'),
    fun d' hd' => ?_, fun x hx => ?_⟩
  · rw [hdown.live, h.live]
    constructor
    · rintro ⟨hne, d', hd', rfl⟩
      exact ⟨d', (hmem d').mpr ⟨hd', hne⟩, rfl⟩
    · rintro ⟨d', hd', rfl⟩
      exact ⟨((hmem d').mp hd').2, d', hsub d' hd', rfl⟩
  · exact hentered d' (hsub d' hd') (by simpa using (List.mem_filter.mp hd').2)
  · rw [hdown.saved _ ((hmem d').mp hd').2]
    exact h.saved d' (hsub d' hd')
  · obtain ⟨hold, hne⟩ := (hmem d').mp hd'
    show Holds w'.code d'.address d'.patch
    unfold Holds
    rw [hcode, readBytes_under fun x hx => ?_]
    · exact h.patched d' hold
    · apply writeBytes_outside
      rw [length_readBytes]
      intro hunder
      have hsole := h.under_sole hold ((h.built d' hold).owns hx) d hd hunder
      exact hne (congrArg Detour.site hsole.symm)
  · show w'.code x = code x
    rw [hcode]
    by_cases hunder : d.Under x
    · exact writeBytes_readBytes hunder
    · rw [writeBytes_outside (by rwa [length_readBytes])]
      refine h.outside x fun d' hd' => ?_
      by_cases hsite : d'.site = d.site
      · rw [h.site_sole hd hd' hsite]
        exact hunder
      · exact hx d' ((hmem d').mpr ⟨hd', hsite⟩)

theorem step {s' : Tabled} (h : Sound cs code s) (hclear : Clear cs s c) (hstep : Step cs s c s') :
    Sound cs code s' := by
  obtain ⟨hok⟩ := hstep
  have hkept := h.kept.exec hok
  have hentered : ∀ d ∈ s.table, d.Live (c.exec .x64 s.world) → d.Entered (c.exec .x64 s.world) :=
    fun d hd => h.entered_kept hok hd
  have hall : (∀ site, Cleanup.Site.Live s.world site →
        Cleanup.Site.Live (c.exec .x64 s.world) site) →
      ∀ d ∈ s.table, d.Live (c.exec .x64 s.world) := by
    intro hlive d hd
    rw [Detour.live_iff]
    exact hlive _ ((h.live _).mpr ⟨d, hd, rfl⟩)
  unfold Clear at hclear
  rcases exec_effect h.kept.registries hok with ⟨hsame, hmade⟩ | ⟨d, hmakes, hmade⟩ |
    ⟨site, hdown, hmade⟩
  · have hlive := hall fun site hsite => (hsame.live site).mpr hsite
    rw [hmade, List.nil_append, List.filter_eq_self.mpr (by simpa using hlive)]
    exact h.same hkept hsame fun d hd => hentered d hd (hlive d hd)
  · have hlive := hall fun site hsite => (hmakes.live.live site).mpr (.inr hsite)
    rw [hmade] at hclear ⊢
    rw [List.filter_eq_self.mpr (by simpa using hlive)]
    exact h.makes hkept hmakes (fun d hd => hentered d hd (hlive d hd)) hclear
  · rw [hmade, List.nil_append]
    exact h.takesDown hkept hdown hentered

theorem routed (h : Sound cs code s) : Routed s.world s.table := by
  have hno : ∀ pc, TrapRouting.hwEntry s.world pc = none := by
    intro pc
    rw [TrapRouting.hwEntry, h.kept.noHardware pc]
    rfl
  refine ⟨BreakpointRuns.armed_of_chained h.kept.chained ⟨?_, ?_⟩, fun d hd hgate => ?_⟩
  · intro a e he
    rw [h.kept.noHardware a] at he
    cases he
  · intro a a' e e' _ he'
    rw [h.kept.noHardware a'] at he'
    cases he'
  · exact ⟨h.entered d hd hgate, .inl (hno _)⟩

/-- A memory that has the code of the targets has the patches, and under them what they were
built from. -/
theorem intact (h : Sound cs code s)
    (hcode : ∀ d ∈ s.table, ∀ x, d.Owns .code x → m x = s.world.code x)
    (hblock : ∀ d ∈ s.table, Holds m d.relocatedCode d.block) : Intact s.table m := by
  intro d hd
  refine ⟨?_, hblock d hd, ?_⟩
  · unfold Holds
    rw [readBytes_under fun x hx => hcode d hd x ((h.built d hd).owns hx)]
    exact h.patched d hd
  · refine List.map_congr_left fun k hk => ?_
    have howns : d.Owns .code (d.address + BitVec.ofNat 64 k) :=
      inRegion_of_lt (List.mem_range.mp hk)
    rw [original_congr (hcode d hd _ howns), h.original_eq, h.source d hd _ howns]

end Sound

/-- The table is what is live, its detours are those of the relocator and the signal handler, and
under them is the code of the start. -/
structure Reflected (cs : CsDisasm) (code : Memory) (s : Tabled) : Prop where
  live : ∀ site, Cleanup.Site.Live s.world site ↔ ∃ d ∈ s.table, d.site = site
  table : Table cs s.world s.table
  original : original s.table s.world.code = code
  intact : ∀ m, (∀ d ∈ s.table, ∀ x, d.Owns .code x → m x = s.world.code x) →
    (∀ d ∈ s.table, Holds m d.relocatedCode d.block) → Intact s.table m

theorem Sound.reflected {code : Memory} {s : Tabled} (h : Sound cs code s) :
    Reflected cs code s where
  live := h.live
  table := ⟨h.built, h.apart, h.routed⟩
  original := h.original_eq
  intact _ hcode hblock := h.intact hcode hblock

/-- **What is live is a table of detours**, however breakpoints and hooks come and go, as long as
what is made has bytes of its own. -/
theorem reflected_throughout {code : Memory} {disposition : Sig → SigAction}
    {tr : List (Tabled × Cleanup.Call)} {s : Tabled}
    (run : Run (Step cs) (Tabled.start code disposition) tr s) (clear : Guarded (Clear cs) tr) :
    Throughout (Reflected cs code) tr s := by
  have inv := run.guarded_invariant (Sound.start code disposition)
    (fun _ _ _ h hclear hstep => h.step hclear hstep) clear
  exact ⟨fun p hp => (inv.1 p hp).reflected, inv.2.reflected⟩

section Replaced

def replaceCall : Cleanup.Call :=
  .hook (.replace ⟨replacedFunction.self, .ok (0x9000, 15), .ok 0, .ok⟩ 0x1000 0x6000)

def threeJumpsStart : Tabled := Tabled.start threeJumps defaultActions

theorem made_replaceCall : made branchDisasm threeJumpsStart.world
    (replaceCall.exec .x64 threeJumpsStart.world) replaceCall = [replacedFunction] := by
  refine made_eq ?_ (by decide)
  have hchunks : chunksOf branchDisasm threeJumps 0x1000 14 = replacedFunction.chunks := by
    unfold chunksOf
    rw [show relocateInsns branchDisasm threeJumps 0x1000 14 0 = .ok replacedFunction.chunks from
      replacedFunction_built.loop]
  show some (Detour.ofHook _ (some 0x6000) threeJumps
    (chunksOf branchDisasm threeJumps 0x1000 14)) = some replacedFunction
  rw [hchunks]
  rfl

theorem relocates_threeJumps :
    Relocates branchDisasm threeJumps 0x1000 Arch.x64.patchSize (.ok (0x9000, 15)) := by
  refine ⟨some 0x9000, ?_⟩
  show _ = (buildRelocatedCode branchDisasm threeJumps 0x1000 14 (some 0x9000)).map _
  rw [show buildRelocatedCode branchDisasm threeJumps 0x1000 14 (some 0x9000) =
    .ok (0x9000, replacedFunction.chunks) from replacedFunction_built]
  rfl

def replacedState : Tabled :=
  ⟨replaceCall.exec .x64 threeJumpsStart.world, [replacedFunction]⟩

theorem step_replaceCall : Step branchDisasm threeJumpsStart replaceCall replacedState := by
  have hpermitted : Permitted branchDisasm threeJumpsStart.world replaceCall := by
    refine ⟨?_, rfl, relocates_threeJumps⟩
    intro id e he
    cases he
  have hstep := Step.intro hpermitted
  rw [made_replaceCall] at hstep
  exact hstep

/-- A breakpoint on the other function. -/
def setCall : Cleanup.Call := .set ⟨0x30, .ok (0xA000, 5), .ok 0xB000, .ok⟩ 0x3000 0

def tappedFunction : Detour where
  gate := .breakpoint
  address := 0x3000
  self := 0x30
  trampolineCode := 0xB000
  relocatedCode := 0xA000
  source := replacedState.world.code
  chunks := [⟨5, relocateInsn branchDisasm replacedState.world.code 0x3000⟩]

theorem relocateInsns_tapped : relocateInsns branchDisasm replacedState.world.code 0x3000 1 0 =
    .ok tappedFunction.chunks := by
  have hlast : relocateInsns branchDisasm replacedState.world.code 0x3000 1 5 = .ok [] := by
    rw [relocateInsns, if_neg (by decide)]
  have hsize : disassembleOne branchDisasm replacedState.world.code
      (0x3000 + BitVec.ofNat 64 0) = 5 := rfl
  rw [relocateInsns, if_pos (by decide)]
  simp only [hsize, hlast]
  rfl

theorem made_setCall : made branchDisasm replacedState.world
    (setCall.exec .x64 replacedState.world) setCall = [tappedFunction] := by
  refine made_eq ?_ (by decide)
  have hchunks : chunksOf branchDisasm replacedState.world.code 0x3000 1 =
      tappedFunction.chunks := by
    unfold chunksOf
    rw [relocateInsns_tapped]
  show some (Detour.ofBreakpoint _ replacedState.world.code
    (chunksOf branchDisasm replacedState.world.code 0x3000 1)) = some tappedFunction
  rw [hchunks]
  rfl

def tappedState : Tabled :=
  ⟨setCall.exec .x64 replacedState.world, [tappedFunction, replacedFunction]⟩

theorem step_setCall : Step branchDisasm replacedState setCall tappedState := by
  have hrelocates : Relocates branchDisasm replacedState.world.code 0x3000 1
      (.ok (0xA000, 5)) := by
    refine ⟨some 0xA000, ?_⟩
    rw [buildRelocatedCode, relocateInsns_tapped]
    rfl
  have hpermitted : Permitted branchDisasm replacedState.world setCall := ⟨rfl, hrelocates⟩
  have hstep := Step.intro hpermitted
  have hlive : replacedState.table.filter
      (fun d => d.Live (setCall.exec .x64 replacedState.world)) = [replacedFunction] := rfl
  rw [made_setCall, hlive] at hstep
  exact hstep

/-- Everything is on a page of its own. -/
def pageOf (d : Detour) : Part → ℕ
  | .code => d.address.toNat / 0x1000
  | .block => d.relocatedCode.toNat / 0x1000
  | .entry => d.trampolineCode.toNat / 0x1000

theorem page_of_owns {part : Part} (hd : d ∈ [tappedFunction, replacedFunction])
    (hx : d.Owns part x) : x.toNat / 0x1000 = pageOf d part := by
  rcases List.mem_pair.mp hd with rfl | rfl
  · cases part with
    | code =>
        have hx : (x - 0x3000).toNat < 5 := hx
        show x.toNat / 0x1000 = 3
        bv_omega
    | block =>
        have hx : (x - 0xA000).toNat < 28 := hx
        show x.toNat / 0x1000 = 10
        bv_omega
    | entry =>
        obtain ⟨-, rfl⟩ := hx
        rfl
  · cases part with
    | code =>
        have hx : (x - 0x1000).toNat < 15 := hx
        show x.toNat / 0x1000 = 1
        bv_omega
    | block =>
        have hx : (x - 0x9000).toNat < 56 := hx
        show x.toNat / 0x1000 = 9
        bv_omega
    | entry => exact hx.1.elim

theorem apart_tapped : Apart [tappedFunction, replacedFunction] := by
  intro d hd d' hd' part part' x hx hx'
  have hpage : pageOf d part = pageOf d' part' :=
    (page_of_owns hd hx).symm.trans (page_of_owns hd' hx')
  rcases List.mem_pair.mp hd with rfl | rfl <;> rcases List.mem_pair.mp hd' with rfl | rfl <;>
    cases part <;> cases part' <;> first | exact ⟨rfl, rfl⟩ | cases hpage

/-- One function replaced, a breakpoint on the other. -/
theorem reflected_throughout_tapped : Throughout (Reflected branchDisasm threeJumps)
    [(threeJumpsStart, replaceCall), (replacedState, setCall)] tappedState := by
  refine reflected_throughout ((Run.nil.snoc step_replaceCall).snoc step_setCall) ?_
  intro p hp
  rcases List.mem_pair.mp hp with rfl | rfl
  · unfold Clear
    rw [made_replaceCall]
    exact replaced_table.apart
  · unfold Clear
    rw [made_setCall]
    exact apart_tapped

end Replaced

end DetouredCode

end Chromatic
