import Chromatic.Watchpoints

/-!
# The debug registers in use

On the Windows and macOS builds `g_usedSlots` says which of the four debug registers are
taken. It is set in `set` and cleared by the platform's clear helper, each entry has its own
record of its register, and the two agree after every call.

§1 registers and entries · §2 what a call does to the mask · §3 a free register ·
§4 every state of a run · §5 two registers in use.
-/

namespace Chromatic

open Foundation HardwareBreakpoint

namespace HardwareSlots

open Watchpoints (Call Step Assigned Active step_assigned)

/-! ## §1  Registers and entries -/

/-- `e` is live and has debug register `i`. -/
def Holds (h : HwState) (i : ℕ) (e : HwBreakpointEntry) : Prop :=
  Active h e ∧ ∃ slot, e.slot = some slot ∧ (slot : ℕ) = i

/-- A register is marked exactly when one live breakpoint has it, the registers of live
breakpoints differ, and both maps hold the same entries. -/
structure Accounted (h : HwState) : Prop where
  bits : ∀ i, h.usedSlots.getLsbD i = true ↔ ∃! e, Holds h i e
  slots : ∀ {a e}, h.hwByAddress.lookup a = some e → ∃ slot, e.slot = some slot
  distinct : ∀ {a a' e e'}, h.hwByAddress.lookup a = some e → h.hwByAddress.lookup a' = some e' →
    e.slot = e'.slot → a = a'
  once : (h.hwById.entries.map (·.2)).Nodup
  same : (h.hwById.entries.map (·.2)).Perm (h.hwByAddress.entries.map (·.2))
  keyed : ∀ {a e}, h.hwByAddress.lookup a = some e → e.address = a
  atMost : h.hwByAddress.entries.length ≤ 4

/-- No register is marked that no live breakpoint has. -/
def NoStray (h : HwState) : Prop := ∀ i, h.usedSlots.getLsbD i = true → ∃ e, Holds h i e

/-! ## §2  What a call does to the mask -/

section Mask

variable {target : Target} {w w' : World} {i : ℕ}

theorem Holds.insert {h h' : HwState} {entry e : HwBreakpointEntry}
    (hfresh : entry.address ∉ h.hwByAddress)
    (hmap : h'.hwByAddress = h.hwByAddress.insert entry.address entry) (he : Holds h i e) :
    Holds h' i e := by
  refine ⟨?_, he.2⟩
  have hne : e.address ≠ entry.address := by
    intro heq
    exact hfresh (heq ▸ AList.lookup_isSome.mp (Option.isSome_of_eq_some he.1))
  rw [Active, hmap, AList.lookup_insert_ne hne]
  exact he.1

theorem noStray_set (hstray : NoStray w.hw) (hos : target.os ≠ .linux) (env : Install)
    (address : Addr) (typeStr : String) (size : ℤ) (onHit : Callback) :
    NoStray (HardwareBreakpoint.set target env address typeStr size onHit w).2.hw := by
  rcases set_target_cases target env address typeStr size onHit w with
    hsame | haside | ⟨entry, hfresh, -, htaken, hlive⟩
  · rw [hsame]
    exact hstray
  · rw [haside.hw]
    intro i hi
    rw [ensureHwHandlerInstalled_usedSlots] at hi
    obtain ⟨e, he, hslot⟩ := hstray i hi
    exact ⟨e, by rwa [Active, ensureHwHandlerInstalled_hwByAddress], hslot⟩
  · generalize (HardwareBreakpoint.set target env address typeStr size onHit w).2 = w' at *
    obtain rfl := hlive.address_eq
    have hmap := hlive.byAddress
    rw [ensureHwHandlerInstalled_hwByAddress] at hmap
    intro i hi
    obtain ⟨slot, hslot⟩ := Option.ne_none_iff_exists'.mp (mt htaken.slot_none.mp hos)
    rw [hslot] at htaken
    rw [htaken.getLsbD_bit (BitVec.lt_of_getLsbD hi), Bool.or_eq_true, decide_eq_true_eq] at hi
    rcases hi with hold | rfl
    · obtain ⟨e, he⟩ := hstray i hold
      exact ⟨e, he.insert hfresh hmap⟩
    · exact ⟨entry, by rw [Active, hmap, AList.lookup_insert], slot, hslot, rfl⟩

theorem noStray_remove {os : Os} (ha : Assigned os w.hw) (hstray : NoStray w.hw)
    (hos : os ≠ .linux) (bpId : ℕ) : NoStray (HardwareBreakpoint.remove bpId w).hw := by
  unfold HardwareBreakpoint.remove
  cases hl : w.hw.hwById.lookup bpId with
  | none => exact hstray
  | some entry =>
      have hentry := ha.indexed.toKey hl
      obtain ⟨slot, hslot⟩ := Option.ne_none_iff_exists'.mp (mt (ha.slotless hentry).mp hos)
      intro i hi
      simp only [maybeRemoveHwHandler_usedSlots, releaseEntry_usedSlots, hslot] at hi
      rw [getLsbD_giveBack _ (BitVec.lt_of_getLsbD hi), Bool.and_eq_true, decide_eq_true_eq] at hi
      obtain ⟨hold, hne⟩ := hi
      obtain ⟨e, he, slot', hslot', rfl⟩ := hstray i hold
      refine ⟨e, ?_, slot', hslot', rfl⟩
      -- the entry removed has another register
      have haddress : e.address ≠ entry.address := by
        intro heq
        rw [Active, heq, hentry] at he
        obtain rfl := Option.some.inj he
        obtain rfl := Option.some.inj (hslot.symm.trans hslot')
        exact hne rfl
      simp only [Active, maybeRemoveHwHandler_hwByAddress, releaseEntry_hwByAddress]
      rw [AList.lookup_erase_ne haddress]
      exact he

/-- The loop gives back the registers of the entries it comes to. -/
theorem releaseAll_bit {order : List (Σ _ : ℕ, HwBreakpointEntry)} {w : World}
    (hi : (releaseAll order w).hw.usedSlots.getLsbD i = true) :
    w.hw.usedSlots.getLsbD i = true ∧
      ∀ e ∈ order, ∀ slot, e.2.slot = some slot → (slot : ℕ) ≠ i := by
  induction order generalizing w with
  | nil => exact ⟨hi, by simp⟩
  | cons e rest ih =>
      obtain ⟨hbit, hrest⟩ := ih hi
      rw [releaseEntry_usedSlots] at hbit
      rw [List.forall_mem_cons]
      cases hslot : e.2.slot with
      | none =>
          rw [hslot] at hbit
          exact ⟨hbit, by simp, hrest⟩
      | some slot =>
          rw [hslot] at hbit
          simp only at hbit
          rw [getLsbD_giveBack _ (BitVec.lt_of_getLsbD hbit), Bool.and_eq_true,
            decide_eq_true_eq] at hbit
          refine ⟨hbit.1, fun slot' hslot' => ?_, hrest⟩
          obtain rfl := Option.some.inj hslot'
          exact fun heq => hbit.2 heq.symm

theorem noStray_removeAll {os : Os} (ha : Assigned os w.hw) (hstray : NoStray w.hw)
    {order : List (Σ _ : ℕ, HwBreakpointEntry)} (hperm : order.Perm w.hw.hwById.entries) :
    NoStray (HardwareBreakpoint.removeAll order w).hw := by
  intro i hi
  simp only [HardwareBreakpoint.removeAll, maybeRemoveHwHandler_usedSlots] at hi
  obtain ⟨hold, hgone⟩ := releaseAll_bit hi
  obtain ⟨e, he, slot, hslot, rfl⟩ := hstray i hold
  obtain ⟨-, id, hid⟩ := ha.indexed.toId he
  exact absurd rfl (hgone ⟨id, e⟩ (hperm.mem_iff.mpr (AList.mem_lookup_iff.mp hid)) slot hslot)

end Mask

/-! ## §3  A free register -/

section Free

variable {os : Os} {h : HwState}

theorem eq_of_holds (ha : Assigned os h) {i : ℕ} {e e' : HwBreakpointEntry}
    (he : Holds h i e) (he' : Holds h i e') : e = e' := by
  obtain ⟨hactive, slot, hslot, rfl⟩ := he
  obtain ⟨hactive', slot', hslot', heq⟩ := he'
  obtain rfl := Fin.ext heq
  have haddress := ha.distinct hactive hactive' hslot hslot'
  exact Option.some.inj (hactive.symm.trans (haddress ▸ hactive'))

/-- Four registers for the live breakpoints. -/
theorem atMost_four (ha : Assigned os h) (hos : os ≠ .linux) :
    h.hwByAddress.entries.length ≤ 4 := by
  have hlookup : ∀ p ∈ h.hwByAddress.entries, h.hwByAddress.lookup p.1 = some p.2 :=
    fun p hp => AList.mem_lookup_iff.mpr hp
  have hslot : ∀ p ∈ h.hwByAddress.entries, ∃ slot, p.2.slot = some slot := fun p hp =>
    Option.ne_none_iff_exists'.mp (mt (ha.slotless (hlookup p hp)).mp hos)
  have hnodup : (h.hwByAddress.entries.map (·.2.slot)).Nodup := by
    refine h.hwByAddress.nodupKeys.nodup.map_on fun p hp p' hp' heq => ?_
    obtain ⟨slot, hp_slot⟩ := hslot p hp
    have hkey := ha.distinct (hlookup p hp) (hlookup p' hp') hp_slot (heq ▸ hp_slot)
    have hvalue : p.2 = p'.2 :=
      Option.some.inj ((hlookup p hp).symm.trans (hkey ▸ hlookup p' hp'))
    exact Sigma.ext hkey (heq_of_eq hvalue)
  have hsubset : h.hwByAddress.entries.map (·.2.slot) ⊆ (List.finRange 4).map some := by
    intro slot hmem
    obtain ⟨p, hp, rfl⟩ := List.mem_map.mp hmem
    obtain ⟨slot, hp_slot⟩ := hslot p hp
    exact List.mem_map.mpr ⟨slot, List.mem_finRange slot, hp_slot.symm⟩
  simpa using (List.subperm_of_subset hnodup hsubset).length_le

/-- With fewer than four live breakpoints a register is free. -/
theorem NoStray.free (hstray : NoStray h) (hfew : h.hwByAddress.entries.length < 4) :
    ∃ slot, findFreeSlot h.usedSlots = some slot := by
  rw [← Option.isSome_iff_exists]
  by_contra hnone
  have htaken : ∀ slot : Fin 4, ∃ e, Holds h slot e := by
    intro slot
    rw [findFreeSlot, List.find?_isSome] at hnone
    apply hstray
    by_contra hfree
    exact hnone ⟨slot, List.mem_finRange slot, by simpa using hfree⟩
  choose holder hholds using htaken
  have hinjective : Function.Injective fun slot => (holder slot).address := by
    intro slot slot' heq
    obtain ⟨hactive, s, hs, hval⟩ := hholds slot
    obtain ⟨hactive', s', hs', hval'⟩ := hholds slot'
    simp only at heq
    rw [Active, heq, hactive'] at hactive
    rw [Option.some.inj hactive, hs] at hs'
    rw [← Fin.ext hval, ← Fin.ext hval', Option.some.inj hs']
  have hsubset : (List.finRange 4).map (fun slot => (holder slot).address) ⊆
      h.hwByAddress.entries.map Sigma.fst := by
    intro a hmem
    obtain ⟨slot, -, rfl⟩ := List.mem_map.mp hmem
    exact List.mem_map_of_mem (f := Sigma.fst) (AList.mem_lookup_iff.mp (hholds slot).1)
  have hlength := (List.subperm_of_subset ((List.nodup_finRange 4).map hinjective)
    hsubset).length_le
  simp only [List.length_map, List.length_finRange] at hlength
  omega

end Free

/-- `set` at a fresh address with fewer than four live breakpoints succeeds when what it asks
the relocator and the trampoline builder for does. -/
def SetSucceeds (target : Target) (w : World) : Prop :=
  ∀ (env : Install) (address : Addr) (typeStr : String) (size : ℤ) (onHit : Callback)
    (type : HwBpType), parseType typeStr = .ok type → address ∉ w.hw.hwByAddress →
    w.hw.hwByAddress.entries.length < 4 →
    (type = .execute → env.relocated.isOk ∧ env.trampoline.isOk) →
    (HardwareBreakpoint.set target env address typeStr size onHit w).1 = .ok w.hw.nextHwId

/-- A `set` that fails leaves the mask and the maps. -/
def FailureKeeps (target : Target) (w : World) : Prop :=
  ∀ (env : Install) (address : Addr) (typeStr : String) (size : ℤ) (onHit : Callback)
    (e : String), (HardwareBreakpoint.set target env address typeStr size onHit w).1 = .error e →
    let h := (HardwareBreakpoint.set target env address typeStr size onHit w).2.hw
    h.usedSlots = w.hw.usedSlots ∧ h.hwById = w.hw.hwById ∧ h.hwByAddress = w.hw.hwByAddress

section Set

variable {target : Target} {w : World}

theorem buildBlocks_ok {env : Install} {type : HwBpType}
    (h : type = .execute → env.relocated.isOk ∧ env.trampoline.isOk) (w : World) :
    ∃ blocks, (buildBlocks env type w).1 = .ok blocks := by
  unfold buildBlocks
  by_cases htype : type = .execute
  · rw [if_pos htype]
    obtain ⟨hr, ht⟩ := h htype
    cases hrelocated : env.relocated with
    | error e =>
        rw [hrelocated] at hr
        cases hr
    | ok block =>
        cases htrampoline : env.trampoline with
        | error e =>
            rw [htrampoline] at ht
            cases ht
        | ok t => exact ⟨_, rfl⟩
  · rw [if_neg htype]
    exact ⟨_, rfl⟩

theorem arm_free {os : Os} {h : HwState} (hos : os ≠ .linux) (addr : Addr) (type : HwBpType)
    (bpSize perfFd : ℤ) (hfree : ∃ slot, findFreeSlot h.usedSlots = some slot) :
    ∃ fd slot used,
      arm os addr type bpSize perfFd h = (.ok (fd, slot), { h with usedSlots := used }) := by
  obtain ⟨slot, hslot⟩ := hfree
  cases os with
  | linux => exact absurd rfl hos
  | darwin | windows => exact ⟨_, _, _, by simp only [arm, hslot]; rfl⟩

theorem NoStray.setSucceeds (hstray : NoStray w.hw) (hos : target.os ≠ .linux)
    (hsupported : target ≠ ⟨.arm64, .darwin⟩) : SetSucceeds target w := by
  intro env address typeStr size onHit type htype hfresh hfew hblocks
  unfold HardwareBreakpoint.set
  have hmax : ¬ platformMaxBreakpoints target ≤ w.hw.hwByAddress.entries.length := by
    rw [platformMaxBreakpoints, if_neg hsupported]
    omega
  rw [if_neg hsupported]
  simp only [htype, if_neg hfresh, if_neg hmax]
  obtain ⟨blocks, hbuilt⟩ :=
    buildBlocks_ok hblocks ((ensureHwHandlerInstalled w).allocate env.self)
  have hhw := (buildBlocks_aside env type ((ensureHwHandlerInstalled w).allocate env.self)).hw
  generalize buildBlocks env type ((ensureHwHandlerInstalled w).allocate env.self) = result at *
  obtain ⟨answer, w₁⟩ := result
  obtain rfl : answer = .ok blocks := hbuilt
  have hstate : w₁.hw = (ensureHwHandlerInstalled w).hw := hhw
  have hfree := hstray.free hfew
  rw [← ensureHwHandlerInstalled_usedSlots, ← hstate] at hfree
  obtain ⟨fd, slot, used, harm⟩ := arm_free hos address type size env.perfFd hfree
  simp only [harm]
  rw [hstate, ensureHwHandlerInstalled_nextHwId]

theorem failureKeeps (target : Target) (w : World) : FailureKeeps target w := by
  intro env address typeStr size onHit e herror
  unfold HardwareBreakpoint.set at herror ⊢
  by_cases hunsupported : target = ⟨.arm64, .darwin⟩
  · rw [if_pos hunsupported]
    exact ⟨rfl, rfl, rfl⟩
  rw [if_neg hunsupported] at herror ⊢
  cases htype : parseType typeStr with
  | error e' => exact ⟨rfl, rfl, rfl⟩
  | ok type =>
      simp only [htype] at herror ⊢
      by_cases hmem : address ∈ w.hw.hwByAddress
      · simp only [if_pos hmem, and_self]
      by_cases hmax : platformMaxBreakpoints target ≤ w.hw.hwByAddress.entries.length
      · simp only [if_neg hmem, if_pos hmax, and_self]
      simp only [if_neg hmem, if_neg hmax] at herror ⊢
      have hhw := (buildBlocks_aside env type
        ((ensureHwHandlerInstalled w).allocate env.self)).hw
      generalize buildBlocks env type ((ensureHwHandlerInstalled w).allocate env.self) =
        result at *
      obtain ⟨answer, w₁⟩ := result
      have hstate : w₁.hw = (ensureHwHandlerInstalled w).hw := hhw
      cases answer with
      | error e' => simp [hstate]
      | ok blocks =>
          rcases arm_cases target.os address type size env.perfFd w₁.hw with
            ⟨e', harm⟩ | ⟨fd, slot, used, harm, -⟩
          · simp only [harm]
            simp [hstate]
          · -- the breakpoint is live
            simp only [harm] at herror
            cases herror

end Set

/-! ## §4  Every state of a run -/

section Runs

variable {target : Target} {w w' : World} {tr : List (World × Option Call)}

/-- What the calls keep. -/
def Exact (os : Os) (w : World) : Prop := Assigned os w.hw ∧ NoStray w.hw

theorem step_exact {c : Option Call} (hos : target.os ≠ .linux) (h : Exact target.os w)
    (hstep : Step target w c w') : Exact target.os w' := by
  obtain ⟨ha, hstray⟩ := h
  refine ⟨step_assigned ha hstep, ?_⟩
  cases hstep with
  | call c permitted =>
      cases c with
      | set env address type size onHit => exact noStray_set hstray hos env address type size onHit
      | remove bpId => exact noStray_remove ha hstray hos bpId
      | removeAll order => exact noStray_removeAll ha hstray (permitted order rfl)
  | elsewhere huntouched =>
      rw [huntouched]
      exact hstray

theorem Exact.accounted (h : Exact target.os w) (hos : target.os ≠ .linux) :
    Accounted w.hw := by
  obtain ⟨ha, hstray⟩ := h
  have hslots : ∀ {a e}, w.hw.hwByAddress.lookup a = some e → ∃ slot, e.slot = some slot :=
    fun he => Option.ne_none_iff_exists'.mp (mt (ha.slotless he).mp hos)
  refine ⟨fun i => ⟨fun hi => ?_, ?_⟩, hslots, fun he he' heq => ?_, ha.indexed.entries_perm.1,
    ha.indexed.entries_perm.2, fun he => (ha.indexed.toId he).1, atMost_four ha hos⟩
  · obtain ⟨e, he⟩ := hstray i hi
    exact ⟨e, he, fun e' he' => eq_of_holds ha he' he⟩
  · rintro ⟨e, ⟨hactive, slot, hslot, rfl⟩, -⟩
    exact ha.inUse hactive hslot
  · obtain ⟨slot, hslot⟩ := hslots he
    exact ha.distinct he he' hslot (heq ▸ hslot)

/-- **Debug registers are accounted for exactly.** -/
theorem slots_accounted {code : Memory} {disposition : Sig → SigAction}
    (hos : target.os ≠ .linux) (hsupported : target ≠ ⟨.arm64, .darwin⟩)
    (run : Run (Step target) (World.start code disposition) tr w) :
    Throughout (fun w => Accounted w.hw ∧ SetSucceeds target w ∧ FailureKeeps target w) tr w := by
  have hstart : Exact target.os (World.start code disposition) :=
    ⟨.start target.os, fun i hi => by simp [World.start, HwState.start] at hi⟩
  have hexact : Throughout (Exact target.os) tr w :=
    run.invariant hstart fun _ _ _ h => step_exact hos h
  refine ⟨fun p hp => ?_, ?_⟩
  · have h := hexact.1 p hp
    exact ⟨h.accounted hos, h.2.setSucceeds hos hsupported, failureKeeps target _⟩
  · exact ⟨hexact.2.accounted hos, hexact.2.2.setSucceeds hos hsupported, failureKeeps target _⟩

end Runs

/-! ## §5  Two registers in use -/

section Concrete

open Watchpoints (watched run_watched)

theorem slots_accounted_watched : Accounted watched.hw ∧ watched.hw.usedSlots = 3 ∧
    watched.hw.hwByAddress.entries.length = 2 :=
  ⟨(slots_accounted (by decide) (by decide) run_watched).2.1, by decide, rfl⟩

end Concrete

end HardwareSlots

end Chromatic
