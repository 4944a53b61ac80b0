import Chromatic.HardwareBreakpoint
import Chromatic.Foundation.Runs
import Chromatic.Foundation.IndexedRegistry

/-!
# Watchpoints

A debug trap raised by live watchpoints, and who is told about it. The handler finds the
watchpoint by the debug register that DR6 reports, so live breakpoints have to hold registers
of their own.

§1 calls · §2 debug registers · §3 who is told · §4 the trap of a watchpoint.
-/

namespace Chromatic

open Foundation ExceptionHandler
open HardwareBreakpoint (Install triggered hwBpSigtrapHandler set_target_cases releaseEntry
  releaseEntry_usedSlots)

namespace Watchpoints

/-! ## §1  Calls -/

inductive Call where
  | set (env : Install) (address : Addr) (type : String) (size : ℤ) (onHit : Callback)
  | remove (bpId : ℕ)
  | removeAll (order : List (Σ _ : ℕ, HwBreakpointEntry))

def Call.exec (target : Target) : Call → World → World
  | .set env address type size onHit, w =>
      (HardwareBreakpoint.set target env address type size onHit w).2
  | .remove bpId, w => HardwareBreakpoint.remove bpId w
  | .removeAll order, w => HardwareBreakpoint.removeAll order w

/-- A call, or anything that leaves the hardware breakpoints alone. -/
inductive Step (target : Target) (w : World) : Option Call → World → Prop where
  | call (c : Call)
      (permitted : ∀ order, c = .removeAll order → order.Perm w.hw.hwById.entries) :
      Step target w (some c) (c.exec target w)
  | elsewhere {w' : World} (untouched : w'.hw = w.hw) : Step target w none w'

/-! ## §2  Debug registers -/

/-- Live breakpoints are in both maps. Outside the Linux build each holds a debug register
that no other holds and whose bit is set. -/
structure Assigned (os : Os) (h : HwState) : Prop where
  indexed : Indexed (·.address) h.hwById h.hwByAddress h.nextHwId
  slotless : ∀ {a e}, h.hwByAddress.lookup a = some e → (e.slot = none ↔ os = .linux)
  inUse : ∀ {a e i}, h.hwByAddress.lookup a = some e → e.slot = some i →
    h.usedSlots.getLsbD i = true
  distinct : ∀ {a a' e e' i}, h.hwByAddress.lookup a = some e →
    h.hwByAddress.lookup a' = some e' → e.slot = some i → e'.slot = some i → a = a'

theorem Assigned.start (os : Os) : Assigned os HwState.start where
  indexed := .empty
  slotless h := by cases h
  inUse h := by cases h
  distinct h := by cases h

section Assigned

variable {os : Os} {target : Target} {w w' : World}

theorem Assigned.congr {h h' : HwState} (ha : Assigned os h) (hbyId : h'.hwById = h.hwById)
    (hbyAddress : h'.hwByAddress = h.hwByAddress) (hnext : h'.nextHwId = h.nextHwId)
    (hused : h'.usedSlots = h.usedSlots) : Assigned os h' := by
  obtain ⟨indexed, slotless, inUse, distinct⟩ := ha
  rw [← hbyAddress] at *
  rw [← hbyId, ← hnext] at indexed
  rw [← hused] at inUse
  exact ⟨indexed, slotless, inUse, distinct⟩

theorem Assigned.set (ha : Assigned target.os w.hw) (env : Install) (address : Addr)
    (typeStr : String) (size : ℤ) (onHit : Callback) :
    Assigned target.os (HardwareBreakpoint.set target env address typeStr size onHit w).2.hw := by
  have hens : Assigned target.os (HardwareBreakpoint.ensureHwHandlerInstalled w).hw :=
    ha.congr (by simp) (by simp) (by simp) (by simp)
  rcases set_target_cases target env address typeStr size onHit w with
    hsame | haside | ⟨entry, hfresh, -, htaken, hlive⟩
  · rw [hsame]
    exact ha
  · rw [haside.hw]
    exact hens
  · generalize (HardwareBreakpoint.set target env address typeStr size onHit w).2 = w' at *
    obtain ⟨haddress, -, -, -, hbyId, hbyAddress, hnext, -, -⟩ := hlive
    simp only [HardwareBreakpoint.ensureHwHandlerInstalled_hwById,
      HardwareBreakpoint.ensureHwHandlerInstalled_hwByAddress,
      HardwareBreakpoint.ensureHwHandlerInstalled_nextHwId] at hbyId hbyAddress hnext
    subst haddress
    -- a register that a live breakpoint holds is not the one handed out
    have hother : ∀ {a e i}, w.hw.hwByAddress.lookup a = some e → e.slot = some i →
        entry.slot ≠ some i := by
      intro a e i he hslot heq
      rw [heq] at htaken
      exact absurd ((ha.inUse he hslot).symm.trans htaken.fresh) (by decide)
    constructor
    · rw [hbyId, hbyAddress, hnext]
      exact ha.indexed.insert hfresh
    · intro a e he
      rw [hbyAddress] at he
      rcases lookup_insert_cases he with ⟨-, rfl⟩ | ⟨-, hold⟩
      · exact htaken.slot_none
      · exact ha.slotless hold
    · intro a e i he hslot
      rw [hbyAddress] at he
      rcases lookup_insert_cases he with ⟨-, rfl⟩ | ⟨-, hold⟩
      · rw [hslot] at htaken
        exact htaken.inUse
      · exact htaken.mono (ha.inUse hold hslot)
    · intro a a' e e' i he he' hslot hslot'
      rw [hbyAddress] at he he'
      rcases lookup_insert_cases he with ⟨rfl, rfl⟩ | ⟨-, hold⟩
      · rcases lookup_insert_cases he' with ⟨rfl, -⟩ | ⟨-, hold'⟩
        · rfl
        · exact absurd hslot (hother hold' hslot')
      · rcases lookup_insert_cases he' with ⟨-, rfl⟩ | ⟨-, hold'⟩
        · exact absurd hslot' (hother hold hslot)
        · exact ha.distinct hold hold' hslot hslot'

/-- The register given back was held by nobody else. -/
theorem Assigned.remove (ha : Assigned os w.hw) (bpId : ℕ) :
    Assigned os (HardwareBreakpoint.remove bpId w).hw := by
  unfold HardwareBreakpoint.remove
  cases hl : w.hw.hwById.lookup bpId with
  | none => exact ha
  | some entry =>
      have hentry := ha.indexed.toKey hl
      constructor
      · simpa using ha.indexed.erase hl
      · intro a e he
        exact ha.slotless (lookup_erase_cases (by simpa using he)).2
      · intro a e i he hslot
        obtain ⟨hne, hold⟩ := lookup_erase_cases (by simpa using he)
        have hused := ha.inUse hold hslot
        simp only [HardwareBreakpoint.maybeRemoveHwHandler_usedSlots, releaseEntry_usedSlots]
        cases hs : entry.slot with
        | none => exact hused
        | some j =>
            have hij : i ≠ j := by
              rintro rfl
              exact hne (ha.distinct hold hentry hslot hs)
            simp only []
            rw [getLsbD_giveBack _ (by omega), hused]
            simpa [Fin.ext_iff] using hij
      · intro a a' e e' i he he'
        exact ha.distinct (lookup_erase_cases (by simpa using he)).2
          (lookup_erase_cases (by simpa using he')).2

theorem Assigned.removeAll (order : List (Σ _ : ℕ, HwBreakpointEntry)) (w : World) :
    Assigned os (HardwareBreakpoint.removeAll order w).hw := by
  have hnone : ∀ a, (HardwareBreakpoint.removeAll order w).hw.hwByAddress.lookup a = none := by
    simp [HardwareBreakpoint.removeAll]
  constructor
  · simpa [HardwareBreakpoint.removeAll] using Indexed.empty
  · simp [hnone]
  · simp [hnone]
  · simp [hnone]

theorem step_assigned {c : Option Call} (ha : Assigned target.os w.hw)
    (hstep : Step target w c w') : Assigned target.os w'.hw := by
  cases hstep with
  | call c _ =>
      cases c with
      | set env address type size onHit => exact ha.set env address type size onHit
      | remove bpId => exact ha.remove bpId
      | removeAll order => exact .removeAll order w
  | elsewhere huntouched =>
      rw [huntouched]
      exact ha

end Assigned

/-! ## §3  Who is told -/

/-- Live, as its address finds it. -/
def Active (h : HwState) (e : HwBreakpointEntry) : Prop :=
  h.hwByAddress.lookup e.address = some e

/-- A live execute breakpoint with its trampoline built. -/
def executeAt (h : HwState) (pc : Addr) : Option HwBreakpointEntry :=
  (h.hwByAddress.lookup pc).filter fun e => e.type = .execute ∧ e.trampolineCode ≠ 0

/-- The entry whose `onHit` the handler calls. -/
def told (dr6 : Option (BitVec 64)) (order : List (Σ _ : Addr, HwBreakpointEntry))
    (h : HwState) (pc : Addr) : Option HwBreakpointEntry :=
  match executeAt h pc with
  | none => dr6.bind (triggered · order)
  | some _ => none

section Told

variable {dr6 : Option (BitVec 64)} {order : List (Σ _ : Addr, HwBreakpointEntry)}
  {h : HwState} {ctx : ExceptionContext}

theorem hwBpSigtrapHandler_eq : hwBpSigtrapHandler dr6 order h ctx =
    match executeAt h ctx.pc, told dr6 order h ctx.pc with
    | some e, _ => (.handled, { ctx with pc := e.trampolineCode }, none)
    | none, some e => (.handled, ctx, some e.onHit)
    | none, none => (.notHandled, ctx, none) := by
  unfold hwBpSigtrapHandler told executeAt
  cases h.hwByAddress.lookup ctx.pc with
  | none => cases dr6.bind (triggered · order) <;> rfl
  | some e =>
      by_cases hexec : e.type = .execute ∧ e.trampolineCode ≠ 0
      · rw [Option.filter_some_pos (by simpa using hexec)]
        simp only [if_pos hexec]
      · rw [Option.filter_some_neg (by simpa using hexec)]
        simp only [if_neg hexec]
        cases dr6.bind (triggered · order) <;> rfl

/-- The callback called is the one of the entry told. -/
theorem hwBpSigtrapHandler_calls :
    (hwBpSigtrapHandler dr6 order h ctx).2.2 = (told dr6 order h ctx.pc).map (·.onHit) := by
  rw [hwBpSigtrapHandler_eq]
  unfold told
  cases executeAt h ctx.pc with
  | none => cases dr6.bind (triggered · order) <;> rfl
  | some e => rfl

theorem hwBpSigtrapHandler_told {e : HwBreakpointEntry}
    (htold : told dr6 order h ctx.pc = some e) :
    (hwBpSigtrapHandler dr6 order h ctx).1 = .handled := by
  rw [hwBpSigtrapHandler_eq, htold]
  cases executeAt h ctx.pc <;> rfl

theorem told_eq_some {e : HwBreakpointEntry} :
    told dr6 order h ctx.pc = some e ↔
      executeAt h ctx.pc = none ∧ ∃ bits, dr6 = some bits ∧ triggered bits order = some e := by
  unfold told
  cases executeAt h ctx.pc with
  | none => simp [Option.bind_eq_some_iff]
  | some e' => simp

end Told

/-- Of the registers reported, `e` holds the lowest that a live breakpoint holds. -/
def Lowest (h : HwState) (dr6 : BitVec 64) (e : HwBreakpointEntry) : Prop :=
  ∀ e', Active h e' → ∀ i j, e.slot = some i → e'.slot = some j →
    dr6.getLsbD j = true → i ≤ j

/-- The loop by register. -/
theorem triggered_eq (dr6 : BitVec 64) (order : List (Σ _ : Addr, HwBreakpointEntry)) :
    triggered dr6 order = (List.finRange 4).findSome? fun i : Fin 4 =>
      if dr6.getLsbD i then (order.find? (·.2.slot = some i)).map (·.2) else none := by
  have hslots : (do let i ← List.finRange 4; pure (i : ℕ)) = (List.finRange 4).map Fin.val := by
    decide
  have hslot : ∀ (o : Option (Fin 4)) (i : Fin 4),
      (do let a ← o; pure (a : ℕ)) = some (i : ℕ) ↔ o = some i := by
    intro o i
    cases o <;> simp [Fin.ext_iff]
  unfold triggered
  rw [hslots, List.findSome?_map]
  simp only [Function.comp_def, hslot]

/-- The loop comes to the live breakpoints, each under its address. -/
theorem Assigned.mem_order {os : Os} {h : HwState} {order : List (Σ _ : Addr, HwBreakpointEntry)}
    (ha : Assigned os h) (horder : order.Perm h.hwByAddress.entries)
    (p : Σ _ : Addr, HwBreakpointEntry) : p ∈ order ↔ p.1 = p.2.address ∧ Active h p.2 := by
  obtain ⟨a, e⟩ := p
  rw [horder.mem_iff, ← AList.mem_lookup_iff, Option.mem_def]
  constructor
  · intro he
    obtain rfl := (ha.indexed.toId he).1
    exact ⟨rfl, he⟩
  · rintro ⟨haddress, he⟩
    simp only at haddress
    rw [haddress]
    exact he

/-- The search for a debug register finds the live breakpoint that holds it. -/
theorem Assigned.find_slot {os : Os} {h : HwState} {order : List (Σ _ : Addr, HwBreakpointEntry)}
    (ha : Assigned os h) (horder : order.Perm h.hwByAddress.entries) (i : Fin 4)
    (e : HwBreakpointEntry) : (order.find? (·.2.slot = some i)).map (·.2) = some e ↔
      Active h e ∧ e.slot = some i := by
  rw [Option.map_eq_some_iff]
  constructor
  · rintro ⟨p, hfind, rfl⟩
    exact ⟨((ha.mem_order horder p).mp (List.mem_of_find?_eq_some hfind)).2,
      by simpa using List.find?_some hfind⟩
  · rintro ⟨he, hslot⟩
    have hsome : (order.find? (·.2.slot = some i)).isSome := by
      rw [List.find?_isSome]
      exact ⟨⟨e.address, e⟩, (ha.mem_order horder _).mpr ⟨rfl, he⟩, by simpa using hslot⟩
    obtain ⟨p, hfind⟩ := Option.isSome_iff_exists.mp hsome
    have hp := ((ha.mem_order horder p).mp (List.mem_of_find?_eq_some hfind)).2
    -- no two live breakpoints hold one register
    have haddress := ha.distinct hp he (by simpa using List.find?_some hfind) hslot
    refine ⟨p, hfind, Option.some.inj (hp.symm.trans ?_)⟩
    rw [haddress]
    exact he

theorem triggered_eq_some {os : Os} {h : HwState} {dr6 : BitVec 64} {e : HwBreakpointEntry}
    {order : List (Σ _ : Addr, HwBreakpointEntry)} (ha : Assigned os h)
    (horder : order.Perm h.hwByAddress.entries) :
    triggered dr6 order = some e ↔
      Active h e ∧ Lowest h dr6 e ∧ ∃ i, e.slot = some i ∧ dr6.getLsbD i = true := by
  have hsearch := ha.find_slot horder
  rw [triggered_eq, findSome?_finRange_eq_some]
  constructor
  · rintro ⟨i, hi, hbelow⟩
    obtain ⟨hbit, hfound⟩ : dr6.getLsbD i = true ∧ _ := by
      simpa only [Option.ite_none_right_eq_some] using hi
    obtain ⟨he, hslot⟩ := (hsearch i e).mp hfound
    refine ⟨he, fun e' he' i' j hi' hj hbitj => ?_, i, hslot, hbit⟩
    obtain rfl : i = i' := Option.some.inj (hslot.symm.trans hi')
    by_contra hlt
    have hnone := hbelow j (not_le.mp hlt)
    rw [if_pos hbitj, (hsearch j e').mpr ⟨he', hj⟩] at hnone
    cases hnone
  · rintro ⟨he, hlowest, i, hslot, hbit⟩
    refine ⟨i, ?_, fun j hj => ?_⟩
    · rw [if_pos hbit]
      exact (hsearch i e).mpr ⟨he, hslot⟩
    · by_contra hsome
      obtain ⟨e', hfound⟩ := Option.ne_none_iff_exists'.mp hsome
      obtain ⟨hbitj, hfound⟩ : dr6.getLsbD j = true ∧ _ := by
        simpa only [Option.ite_none_right_eq_some] using hfound
      obtain ⟨he', hslot'⟩ := (hsearch j e').mp hfound
      exact absurd (hlowest e' he' i j hslot hslot' hbitj) (not_le.mpr hj)

/-! ## §4  The trap of a watchpoint -/

/-- A debug trap as it arrives, with DR6 and whether the macOS build gets to read the debug
state of its thread. -/
structure DebugTrap where
  context : ExceptionContext
  dr6 : BitVec 64
  stateRead : Bool

/-- What the handler sees of DR6. -/
def DebugTrap.seen (os : Os) (t : DebugTrap) : Option (BitVec 64) :=
  match os with
  | .linux => none
  | .darwin => if t.stateRead then some t.dr6 else none
  | .windows => some t.dr6

/-- The live watchpoints `hit` raised the trap, and DR6 has the bit of each one's register. -/
structure RaisedBy (h : HwState) (t : DebugTrap) (hit : List HwBreakpointEntry) : Prop where
  raised : hit ≠ []
  nodup : hit.Nodup
  active : ∀ e ∈ hit, Active h e
  watchpoint : ∀ e ∈ hit, e.type ≠ .execute
  reported : ∀ e ∈ hit, ∀ i, e.slot = some i → t.dr6.getLsbD i = true

/-- The handler claims the trap and tells each watchpoint once, and nobody else: it calls the
callback of the one it tells. -/
structure Claimed (os : Os) (order : List (Σ _ : Addr, HwBreakpointEntry)) (h : HwState)
    (t : DebugTrap) (hit : List HwBreakpointEntry) : Prop where
  handled : (hwBpSigtrapHandler (t.seen os) order h t.context).1 = .handled
  once : (told (t.seen os) order h t.context.pc).toList.Perm hit
  called : (hwBpSigtrapHandler (t.seen os) order h t.context).2.2 =
    (told (t.seen os) order h t.context.pc).map (·.onHit)

/-- A single watchpoint was hit, no live breakpoint in a register below has its bit set, no
execute breakpoint is where the trap was raised, and DR6 can be read. -/
structure Plain (os : Os) (h : HwState) (t : DebugTrap) (hit : List HwBreakpointEntry) :
    Prop where
  reads : os ≠ .linux ∧ (os = .darwin → t.stateRead = true)
  passed : executeAt h t.context.pc = none
  single : ∃ e, hit = [e] ∧ Lowest h t.dr6 e

theorem DebugTrap.seen_eq_some {os : Os} {t : DebugTrap} {bits : BitVec 64} :
    t.seen os = some bits ↔
      (os ≠ .linux ∧ (os = .darwin → t.stateRead = true)) ∧ bits = t.dr6 := by
  cases os with
  | linux => simp [DebugTrap.seen]
  | darwin => simp [DebugTrap.seen, @eq_comm _ bits]
  | windows => simp [DebugTrap.seen, @eq_comm _ bits]

theorem Assigned.claimed_iff_plain {os : Os} {h : HwState} (ha : Assigned os h)
    {order : List (Σ _ : Addr, HwBreakpointEntry)}
    (horder : order.Perm h.hwByAddress.entries) {t : DebugTrap}
    {hit : List HwBreakpointEntry} (hraised : RaisedBy h t hit) :
    Claimed os order h t hit ↔ Plain os h t hit := by
  constructor
  · rintro ⟨-, honce, -⟩
    cases htold : told (t.seen os) order h t.context.pc with
    | none =>
        rw [htold] at honce
        exact absurd honce.nil_eq.symm hraised.raised
    | some e =>
        rw [htold] at honce
        have hhit : hit = [e] := List.perm_singleton.mp honce.symm
        obtain ⟨hpassed, bits, hseen, htriggered⟩ := told_eq_some.mp htold
        obtain ⟨hreads, rfl⟩ := DebugTrap.seen_eq_some.mp hseen
        obtain ⟨-, hlowest, -⟩ := (triggered_eq_some ha horder).mp htriggered
        exact ⟨hreads, hpassed, e, hhit, hlowest⟩
  · rintro ⟨hreads, hpassed, e, rfl, hlowest⟩
    have he := List.mem_singleton_self e
    have hactive := hraised.active e he
    obtain ⟨i, hslot⟩ := Option.ne_none_iff_exists'.mp
      (mt (ha.slotless hactive).mp hreads.1)
    have htriggered : triggered t.dr6 order = some e := by
      rw [triggered_eq_some ha horder]
      exact ⟨hactive, hlowest, i, hslot, hraised.reported e he i hslot⟩
    have htold : told (t.seen os) order h t.context.pc = some e := by
      rw [told_eq_some]
      exact ⟨hpassed, t.dr6, DebugTrap.seen_eq_some.mpr ⟨hreads, rfl⟩, htriggered⟩
    refine ⟨hwBpSigtrapHandler_told htold, ?_, hwBpSigtrapHandler_calls⟩
    rw [htold]
    exact List.Perm.refl _

/-- **Watchpoints are told.** After any calls a trap raised by live watchpoints is claimed and
told to each of them, and to no other breakpoint, exactly when it is a plain one. -/
theorem claimed_iff {target : Target} {code : Memory} {disposition : Sig → SigAction}
    {tr : List (World × Option Call)} {w : World}
    (run : Run (Step target) (World.start code disposition) tr w)
    {order : List (Σ _ : Addr, HwBreakpointEntry)}
    (horder : order.Perm w.hw.hwByAddress.entries) {t : DebugTrap}
    {hit : List HwBreakpointEntry} (hraised : RaisedBy w.hw t hit) :
    Claimed target.os order w.hw t hit ↔ Plain target.os w.hw t hit := by
  have ha := (run.invariant (I := fun w => Assigned target.os w.hw) (.start target.os)
    fun _ _ _ => step_assigned).2
  exact ha.claimed_iff_plain horder hraised

section Concrete

def windows : Target := ⟨.x64, .windows⟩

def watchFirst : Call := .set ⟨0x10, .ok (0, 0), .ok 0, 3⟩ 0x1000 "write" 4 7

def watchSecond : Call := .set ⟨0x20, .ok (0, 0), .ok 0, 3⟩ 0x1004 "write" 4 8

/-- A process without code, with watchpoints on the words at 0x1000 and 0x1004. -/
def watched : World :=
  watchSecond.exec windows (watchFirst.exec windows (World.start (fun _ => 0) defaultActions))

theorem run_watched :
    Run (Step windows) (World.start (fun _ => 0) defaultActions)
      [(World.start (fun _ => 0) defaultActions, some watchFirst),
        (watchFirst.exec windows (World.start (fun _ => 0) defaultActions), some watchSecond)]
      watched :=
  (Run.nil.snoc (.call watchFirst fun _ h => by cases h)).snoc
    (.call watchSecond fun _ h => by cases h)

/-- The watchpoints, in the registers they are given. -/
def lowerWord : HwBreakpointEntry := ⟨0x10, 0x1000, .write, 4, 7, -1, some 0, 0, 0⟩

def upperWord : HwBreakpointEntry := ⟨0x20, 0x1004, .write, 4, 8, -1, some 1, 0, 0⟩

/-- A write by the instruction before 0x2000, with the registers that it hit. -/
def written (dr6 : BitVec 64) : DebugTrap := ⟨⟨.singleStep, 0, .unknown, 0x2000⟩, dr6, true⟩

theorem raisedBy_upper : RaisedBy watched.hw (written 2) [upperWord] where
  raised := by decide
  nodup := by decide
  active := by
    rw [List.forall_mem_singleton]
    rfl
  watchpoint := by simp [upperWord]
  reported := by decide

theorem raisedBy_both : RaisedBy watched.hw (written 3) [lowerWord, upperWord] where
  raised := by decide
  nodup := by decide
  active := by
    simp only [List.forall_mem_cons]
    exact ⟨rfl, rfl, nofun⟩
  watchpoint := by simp [lowerWord, upperWord]
  reported := by decide

theorem claimed_windows :
    Claimed .windows watched.hw.hwByAddress.entries watched.hw (written 2) [upperWord] := by
  refine (claimed_iff run_watched (List.Perm.refl _) raisedBy_upper).mpr
    ⟨by decide, rfl, _, rfl, ?_⟩
  intro e _ i j hi _ hbit
  obtain rfl : 1 = i := Option.some.inj hi
  have hbits : ∀ j : Fin 4, (written 2).dr6.getLsbD j = true → 1 ≤ j := by decide
  exact hbits j hbit

/-- A write to both words: only the watchpoint in the lower register is told. -/
theorem unclaimed_both :
    RaisedBy watched.hw (written 3) [lowerWord, upperWord] ∧
      (hwBpSigtrapHandler ((written 3).seen .windows) watched.hw.hwByAddress.entries watched.hw
        (written 3).context).2.2 = some lowerWord.onHit ∧
      ¬ Claimed .windows watched.hw.hwByAddress.entries watched.hw (written 3)
        [lowerWord, upperWord] := by
  refine ⟨raisedBy_both, by decide, fun hclaimed => ?_⟩
  exact absurd hclaimed.once.length_eq (by decide)

end Concrete

end Watchpoints

end Chromatic
