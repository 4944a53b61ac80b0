import Chromatic.MonitorHandlers

/-!
# Watched ranges stay armed

A range that has not fired is armed when all its pages are inaccessible and an access to
any of them fires it. Opening a range's pages, by firing it or by disabling its monitor,
disarms whatever else watches one of them.

§1 unfired ranges · §2 armed states · §3 what enable watches · §4 enable ·
§5 the handler, disable and disableAll · §6 runs · §7 two ranges on a page.
-/

namespace Chromatic

open Foundation ExceptionHandler

namespace MemoryAccessMonitor

/-! ## §1  Unfired ranges -/

/-- A range of the live monitor `k` that has not fired. -/
def Unfired (s : MonitorState) (k : ℕ) (r : WatchedRange) : Prop :=
  ∃ m, s.monitors.lookup k = some m ∧ r ∈ m.ranges ∧ r.fired = false

/-- The address lies on one of the pages of the range, as numbers compare. -/
def WatchedRange.Spans (r : WatchedRange) (a : Addr) : Prop :=
  r.pageBase.toNat ≤ a.toNat ∧ a.toNat < r.pageBase.toNat + r.pageSize.toNat

/-- The end of the region is an address above its start or equal to it. -/
def Fits (start : Addr) (len : BitVec 64) : Prop := start.toNat + len.toNat < 2 ^ 64

instance (start : Addr) (len : BitVec 64) : Decidable (Fits start len) := by
  unfold Fits; infer_instance

/-- The test of the handler is true of no address when the end of the range wraps. -/
theorem covers_iff {r : WatchedRange} {a : Addr} :
    r.Covers a ↔ r.Spans a ∧ Fits r.pageBase r.pageSize := by
  have hbase := r.pageBase.isLt
  have hsize := r.pageSize.isLt
  have ha := a.isLt
  unfold WatchedRange.Covers Between WatchedRange.Spans Fits
  rw [BitVec.le_def, BitVec.lt_def, BitVec.toNat_add]
  constructor
  · rintro ⟨hle, hlt⟩
    omega
  · rintro ⟨⟨hle, hlt⟩, hfits⟩
    omega

/-- No address is watched by two unfired ranges. -/
def Apart (s : MonitorState) : Prop :=
  ∀ ⦃k r k' r' a⦄, Unfired s k r → Unfired s k' r' → r.Covers a → r'.Covers a →
    k = k' ∧ r = r'

/-! ## §2  Armed states -/

/-- The pages of unfired ranges are inaccessible, the signal of an access to them reaches
the handler, and the handler fires that range, in whatever order it finds the monitors. -/
structure Armed (s : MonitorState) : Prop where
  inaccessible : ∀ {k r a}, Unfired s k r → r.Spans a → s.prot a = .none
  reached : ∀ {k r}, Unfired s k r → Reached s.exc .sigsegv ∧ Reached s.exc .sigbus
  fires : ∀ {k r a}, Unfired s k r → r.Spans a → ∀ order, order.Perm s.monitors.entries →
    ∃ f, scan a order = some f ∧ f.key = k ∧ f.range = r

/-- What arms unfired ranges, in terms of the handler's test. -/
structure Kept (s : MonitorState) : Prop where
  fits : ∀ {k r}, Unfired s k r → Fits r.pageBase r.pageSize
  closed : ∀ {k r a}, Unfired s k r → r.Covers a → s.prot a = .none
  apart : Apart s

section Arming

variable {page : PageSize} {os : Os} {s t : MonitorState} {l : Label} {a : Addr}

theorem unfired_of_scan {order : List (Σ _ : ℕ, MonitorEntry)} {f : Found}
    (horder : order.Perm s.monitors.entries) (hscan : scan a order = some f) :
    Unfired s f.key f.range ∧ f.range.Covers a := by
  obtain ⟨hlive, hmem, hfired, hcovers⟩ := scan_found horder hscan
  exact ⟨⟨f.monitor, hlive, hmem, hfired⟩, hcovers⟩

/-- The scan yields one range, so two that watch an address are the same. -/
theorem Armed.apart (h : Armed s) : Apart s := by
  intro k r k' r' a hr hr' hcovers hcovers'
  obtain ⟨f, hscan, rfl, rfl⟩ := h.fires hr (covers_iff.mp hcovers).1 _ (List.Perm.refl _)
  obtain ⟨f', hscan', rfl, rfl⟩ := h.fires hr' (covers_iff.mp hcovers').1 _ (List.Perm.refl _)
  obtain rfl : f = f' := Option.some.inj (hscan.symm.trans hscan')
  exact ⟨rfl, rfl⟩

theorem Apart.fires (h : Apart s) {k : ℕ} {r : WatchedRange} (hr : Unfired s k r)
    (hcovers : r.Covers a) {order : List (Σ _ : ℕ, MonitorEntry)}
    (horder : order.Perm s.monitors.entries) :
    ∃ f, scan a order = some f ∧ f.key = k ∧ f.range = r := by
  cases hscan : scan a order with
  | none =>
      obtain ⟨m, hlive, hmem, hfired⟩ := hr
      have hentry : ⟨k, m⟩ ∈ order := horder.mem_iff.mpr (AList.mem_lookup_iff.mp hlive)
      exact absurd ⟨hfired, hcovers⟩ (scan_eq_none.mp hscan _ hentry r hmem)
  | some f =>
      obtain ⟨hfound, hwatched⟩ := unfired_of_scan horder hscan
      obtain ⟨hk, hrange⟩ := h hfound hr hwatched hcovers
      exact ⟨f, rfl, hk, hrange⟩

/-- A range whose end wraps is not fired by an access to its first page. -/
theorem Armed.fits (h : Armed s) {k : ℕ} {r : WatchedRange} (hr : Unfired s k r) :
    Fits r.pageBase r.pageSize := by
  by_cases hsize : r.pageSize.toNat = 0
  · have hbase := r.pageBase.isLt
    unfold Fits
    omega
  · have hfirst : r.Spans r.pageBase := by
      unfold WatchedRange.Spans
      omega
    obtain ⟨f, hscan, -, rfl⟩ := h.fires hr hfirst _ (List.Perm.refl _)
    obtain ⟨-, hcovers⟩ := unfired_of_scan (List.Perm.refl _) hscan
    exact (covers_iff.mp hcovers).2

theorem Armed.kept (h : Armed s) : Kept s :=
  ⟨h.fits, fun hr hcovers => h.inaccessible hr (covers_iff.mp hcovers).1, h.apart⟩

theorem Kept.armed (h : Kept s) (hrouted : Routed s) : Armed s := by
  have hcovers : ∀ {k r a}, Unfired s k r → r.Spans a → r.Covers a :=
    fun hr hspans => covers_iff.mpr ⟨hspans, h.fits hr⟩
  constructor
  · intro k r a hr hspans
    exact h.closed hr (hcovers hr hspans)
  · rintro k r ⟨m, hlive, -⟩
    exact hrouted.reached hlive
  · intro k r a hr hspans order horder
    exact h.apart.fires hr (hcovers hr hspans) horder

theorem Kept.start (exc : ExceptionState) (prot : Addr → Prot) : Kept (.start exc prot) := by
  constructor
  · rintro k r ⟨m, hlive, -⟩
    cases hlive
  · rintro k r a ⟨m, hlive, -⟩
    cases hlive
  · rintro k r k' r' a ⟨m, hlive, -⟩
    cases hlive

/-- Ranges may go or fire. Pages that become accessible are no unfired range's. -/
theorem Kept.shrink (h : Kept s) (hsub : ∀ {k r}, Unfired t k r → Unfired s k r)
    (hprot : ∀ {k r a}, Unfired t k r → r.Covers a → s.prot a = .none → t.prot a = .none) :
    Kept t := by
  refine ⟨fun hr => h.fits (hsub hr), ?_, ?_⟩
  · intro k r a hr hcovers
    exact hprot hr hcovers (h.closed (hsub hr) hcovers)
  · intro k r k' r' a hr hr' hcovers hcovers'
    exact h.apart (hsub hr) (hsub hr') hcovers hcovers'

theorem Kept.congr (h : Kept s) (hmonitors : t.monitors = s.monitors)
    (hprot : t.prot = s.prot) : Kept t := by
  apply h.shrink
  · rintro k r ⟨m, hlive, hrest⟩
    exact ⟨m, hmonitors ▸ hlive, hrest⟩
  · intro k r a _ _ hnone
    rw [hprot]
    exact hnone

/-! ## §3  What enable watches -/

/-- The address lies on one of the pages of the `x.2` bytes from `x.1` on. -/
def OnPages (page : PageSize) (x : Addr × BitVec 32) (a : Addr) : Prop :=
  Between (widen page x.1 (x.2.signExtend 64)).1 (widen page x.1 (x.2.signExtend 64)).2 a

/-- The pages and the index of a range, without its state. -/
def WatchedRange.place (r : WatchedRange) : Addr × BitVec 64 × ℕ × Bool :=
  (r.pageBase, r.pageSize, r.rangeIndex, r.fired)

theorem watchAll_places (env : ProtectAnswers) (i : ℕ) (l : List (Addr × BitVec 32))
    (prot : Addr → Prot) :
    (watchAll page os env i l prot).1.map WatchedRange.place =
      (l.zipIdx i).map fun x =>
        ((widen page x.1.1 (x.1.2.signExtend 64)).1,
          (widen page x.1.1 (x.1.2.signExtend 64)).2, x.2, false) := by
  induction l generalizing i prot with
  | nil => rfl
  | cons x l ih =>
      obtain ⟨addr, size⟩ := x
      rw [watchAll, List.zipIdx_cons, List.map_cons]
      exact congrArg _ (ih _ _)

/-- The range is the one `enable` makes of the bytes `x.1`, asked for at index `x.2`. -/
structure Made (page : PageSize) (x : (Addr × BitVec 32) × ℕ) (r : WatchedRange) : Prop where
  base : r.pageBase = (widen page x.1.1 (x.1.2.signExtend 64)).1
  size : r.pageSize = (widen page x.1.1 (x.1.2.signExtend 64)).2
  index : r.rangeIndex = x.2
  unfired : r.fired = false

theorem Made.covers_iff {x : (Addr × BitVec 32) × ℕ} {r : WatchedRange} (h : Made page x r) :
    r.Covers a ↔ OnPages page x.1 a := by
  rw [WatchedRange.Covers, h.base, h.size]
  rfl

/-- The new ranges are the ones asked for. -/
theorem mem_watchAll {env : ProtectAnswers} {l : List (Addr × BitVec 32)} {prot : Addr → Prot}
    {r : WatchedRange} (hr : r ∈ (watchAll page os env 0 l prot).1) :
    ∃ x ∈ l.zipIdx, Made page x r := by
  have hplace := List.mem_map_of_mem (f := WatchedRange.place) hr
  rw [watchAll_places, List.mem_map] at hplace
  obtain ⟨x, hx, heq⟩ := hplace
  simp only [WatchedRange.place, Prod.mk.injEq] at heq
  obtain ⟨hbase, hsize, hindex, hfired⟩ := heq
  exact ⟨x, hx, hbase.symm, hsize.symm, hindex.symm, hfired.symm⟩

/-- Every range asked for is among the new ones. -/
theorem exists_mem_watchAll (os : Os) (env : ProtectAnswers) {l : List (Addr × BitVec 32)}
    (prot : Addr → Prot) {x : (Addr × BitVec 32) × ℕ} (hx : x ∈ l.zipIdx) :
    ∃ r ∈ (watchAll page os env 0 l prot).1, Made page x r := by
  have hplace := List.mem_map_of_mem (f := fun x : (Addr × BitVec 32) × ℕ =>
    ((widen page x.1.1 (x.1.2.signExtend 64)).1,
      (widen page x.1.1 (x.1.2.signExtend 64)).2, x.2, false)) hx
  rw [← @watchAll_places page os env 0 l prot, List.mem_map] at hplace
  obtain ⟨r, hr, heq⟩ := hplace
  simp only [WatchedRange.place, Prod.mk.injEq] at heq
  obtain ⟨hbase, hsize, hindex, hfired⟩ := heq
  exact ⟨r, hr, hbase, hsize, hindex, hfired⟩

/-- After the loop an address is inaccessible if it was before, or if a call that was
granted made it so. -/
theorem watchAll_prot_none (env : ProtectAnswers) (i : ℕ) (l : List (Addr × BitVec 32))
    (prot : Addr → Prot) (a : Addr) :
    (watchAll page os env i l prot).2 a = .none ↔
      prot a = .none ∨ ∃ x ∈ l.zipIdx i, env.granted x.2 = true ∧ OnPages page x.1 a := by
  induction l generalizing i prot with
  | nil => simp [watchAll]
  | cons x l ih =>
      obtain ⟨addr, size⟩ := x
      have hfirst : (watch page os env i addr size prot).2 a = .none ↔
          prot a = .none ∨ (env.granted i = true ∧ OnPages page (addr, size) a) := by
        show setProtection _ _ _ _ _ _ = _ ↔ _
        unfold setProtection
        split
        · rename_i hset
          exact ⟨fun _ => .inr hset, fun _ => rfl⟩
        · rename_i hset
          exact ⟨.inl, fun h => h.resolve_right hset⟩
      show (watchAll page os env (i + 1) l (watch page os env i addr size prot).2).2 a = _ ↔ _
      rw [ih, hfirst, List.zipIdx_cons, List.exists_mem_cons_iff, or_assoc]

/-! ## §4  enable -/

/-- The pages of no range asked for wrap, no two of the ranges share a page, none shares a
page with an unfired range, and no page stays accessible because its protection call is
refused. -/
structure Clear (page : PageSize) (env : ProtectAnswers) (asked : List (Addr × BitVec 32))
    (s : MonitorState) : Prop where
  fits : ∀ x ∈ asked.zipIdx, Fits (widen page x.1.1 (x.1.2.signExtend 64)).1
    (widen page x.1.1 (x.1.2.signExtend 64)).2
  own : ∀ x ∈ asked.zipIdx, ∀ y ∈ asked.zipIdx, x.2 ≠ y.2 → ∀ a, OnPages page x.1 a →
    ¬ OnPages page y.1 a
  others : ∀ x ∈ asked.zipIdx, ∀ k r, Unfired s k r → ∀ a, OnPages page x.1 a → ¬ r.Covers a
  granted : ∀ x ∈ asked.zipIdx, env.granted x.2 = true ∨
    ∀ a, OnPages page x.1 a → s.prot a = .none

/-- After `enable` an unfired range is one that was, or one asked for. -/
theorem unfired_insert {id : ℕ} {m : MonitorEntry} {k : ℕ} {r : WatchedRange}
    (hmonitors : t.monitors = s.monitors.insert id m) (hr : Unfired t k r) :
    (k = id ∧ r ∈ m.ranges ∧ r.fired = false) ∨ (k ≠ id ∧ Unfired s k r) := by
  obtain ⟨m', hlive, hmem, hfired⟩ := hr
  rw [hmonitors] at hlive
  rcases lookup_insert_cases hlive with ⟨rfl, rfl⟩ | ⟨hne, hold⟩
  · exact .inl ⟨rfl, hmem, hfired⟩
  · exact .inr ⟨hne, m', hold, hmem, hfired⟩

/-- All that a call of `enable` does to monitors and protections. -/
theorem enable_watches (page : PageSize) (os : Os) (env : ProtectAnswers)
    {addresses : List Addr} {sizes : List (BitVec 32)} (onAccess : Callback) (s : MonitorState)
    (hlen : addresses.length = sizes.length) :
    ∃ m, m.ranges = (watchAll page os env 0 (addresses.zip sizes) s.prot).1 ∧
      (enable page os env addresses sizes onAccess s).2.monitors =
        s.monitors.insert s.nextMonId m ∧
      (enable page os env addresses sizes onAccess s).2.prot =
        (watchAll page os env 0 (addresses.zip sizes) s.prot).2 := by
  unfold enable
  rw [if_neg (not_not_intro hlen)]
  exact ⟨_, rfl, rfl, rfl⟩

section Enable

variable {env : ProtectAnswers} {asked : List (Addr × BitVec 32)} {m : MonitorEntry}

theorem Kept.enable (h : Kept s) (hranges : m.ranges = (watchAll page os env 0 asked s.prot).1)
    (hmonitors : t.monitors = s.monitors.insert s.nextMonId m)
    (hprot : t.prot = (watchAll page os env 0 asked s.prot).2)
    (hclear : Clear page env asked s) : Kept t := by
  constructor
  · intro k r hr
    rcases unfired_insert hmonitors hr with ⟨-, hmem, -⟩ | ⟨-, hold⟩
    · obtain ⟨x, hx, hmade⟩ := mem_watchAll (hranges ▸ hmem)
      rw [hmade.base, hmade.size]
      exact hclear.fits x hx
    · exact h.fits hold
  · intro k r a hr hcovers
    rw [hprot, watchAll_prot_none]
    rcases unfired_insert hmonitors hr with ⟨-, hmem, -⟩ | ⟨-, hold⟩
    · obtain ⟨x, hx, hmade⟩ := mem_watchAll (hranges ▸ hmem)
      have hon := hmade.covers_iff.mp hcovers
      rcases hclear.granted x hx with hgranted | hnone
      · exact .inr ⟨x, hx, hgranted, hon⟩
      · exact .inl (hnone a hon)
    · exact .inl (h.closed hold hcovers)
  · intro k r k' r' a hr hr' hcovers hcovers'
    rcases unfired_insert hmonitors hr with ⟨rfl, hmem, -⟩ | ⟨-, hold⟩
    · obtain ⟨x, hx, hmade⟩ := mem_watchAll (hranges ▸ hmem)
      have hon := hmade.covers_iff.mp hcovers
      rcases unfired_insert hmonitors hr' with ⟨rfl, hmem', -⟩ | ⟨-, hold'⟩
      · obtain ⟨x', hx', hmade'⟩ := mem_watchAll (hranges ▸ hmem')
        by_cases hindex : x.2 = x'.2
        · refine ⟨rfl, ?_⟩
          -- one index, one place in the list
          have hnodup := watchAll_indices page os env 0 asked s.prot ▸ List.nodup_range'
          rw [hranges] at hmem hmem'
          exact List.inj_on_of_nodup_map hnodup hmem hmem'
            (hmade.index.trans (hindex.trans hmade'.index.symm))
        · exact absurd (hmade'.covers_iff.mp hcovers') (hclear.own x hx x' hx' hindex a hon)
      · exact absurd hcovers' (hclear.others x hx _ _ hold' a hon)
    · rcases unfired_insert hmonitors hr' with ⟨rfl, hmem', -⟩ | ⟨-, hold'⟩
      · obtain ⟨x', hx', hmade'⟩ := mem_watchAll (hranges ▸ hmem')
        exact absurd hcovers
          (hclear.others x' hx' _ _ hold a (hmade'.covers_iff.mp hcovers'))
      · exact h.apart hold hold' hcovers hcovers'

/-- Conversely, if everything is kept armed by `enable`, nothing stood in its way. -/
theorem Kept.clear (h : Kept t) (hregistered : Registered s)
    (hranges : m.ranges = (watchAll page os env 0 asked s.prot).1)
    (hmonitors : t.monitors = s.monitors.insert s.nextMonId m)
    (hprot : t.prot = (watchAll page os env 0 asked s.prot).2) : Clear page env asked s := by
  have hnew : ∀ x ∈ asked.zipIdx, ∃ r, Unfired t s.nextMonId r ∧ Made page x r := by
    intro x hx
    obtain ⟨r, hr, hmade⟩ := exists_mem_watchAll os env s.prot hx
    refine ⟨r, ⟨m, ?_, hranges ▸ hr, hmade.unfired⟩, hmade⟩
    rw [hmonitors, AList.lookup_insert]
  have hown : ∀ x ∈ asked.zipIdx, ∀ y ∈ asked.zipIdx, x.2 ≠ y.2 → ∀ a, OnPages page x.1 a →
      ¬ OnPages page y.1 a := by
    intro x hx y hy hne a hon hon'
    obtain ⟨r, hr, hmade⟩ := hnew x hx
    obtain ⟨r', hr', hmade'⟩ := hnew y hy
    obtain ⟨-, rfl⟩ := h.apart hr hr' (hmade.covers_iff.mpr hon) (hmade'.covers_iff.mpr hon')
    exact hne (hmade.index.symm.trans hmade'.index)
  -- in what follows ranges of the call have the new key, older ones a smaller one
  refine ⟨?_, hown, ?_, ?_⟩
  · intro x hx
    obtain ⟨r, hr, hmade⟩ := hnew x hx
    rw [← hmade.base, ← hmade.size]
    exact h.fits hr
  · rintro x hx k r ⟨m', hlive, hmem, hfired⟩ a hon hcovers
    have hlt : k < s.nextMonId := hregistered.below hlive
    have hkept : Unfired t k r := by
      refine ⟨m', ?_, hmem, hfired⟩
      rw [hmonitors, AList.lookup_insert_ne (Nat.ne_of_lt hlt)]
      exact hlive
    obtain ⟨r', hr', hmade'⟩ := hnew x hx
    obtain ⟨hk, -⟩ := h.apart hkept hr' hcovers (hmade'.covers_iff.mpr hon)
    exact absurd hk (Nat.ne_of_lt hlt)
  · intro x hx
    by_cases hgranted : env.granted x.2 = true
    · exact .inl hgranted
    · refine .inr fun a hon => ?_
      obtain ⟨r, hr, hmade⟩ := hnew x hx
      have hnone := h.closed hr (hmade.covers_iff.mpr hon)
      rw [hprot, watchAll_prot_none] at hnone
      rcases hnone with hbefore | ⟨y, hy, hgranted', hon'⟩
      · exact hbefore
      · -- another range of the call cannot have done it: it shares no page
        have hne : x.2 ≠ y.2 := fun heq => hgranted (heq ▸ hgranted')
        exact absurd hon' (hown x hx y hy hne a hon)

end Enable

/-! ## §5  The handler, disable and disableAll -/

theorem Kept.noteAccess (h : Kept s) (hregistered : Registered s) {ctx : ExceptionContext}
    {order : List (Σ _ : ℕ, MonitorEntry)} {f : Found} (granted : Bool)
    (horder : order.Perm s.monitors.entries) (hscan : scan ctx.faultAddress order = some f) :
    Kept (MemoryAccessMonitor.noteAccess ctx granted f s) := by
  obtain ⟨hlive, -, -⟩ := scan_found horder hscan
  obtain ⟨hfound, -⟩ := unfired_of_scan horder hscan
  have hold : ∀ {k r}, Unfired (MemoryAccessMonitor.noteAccess ctx granted f s) k r →
      Unfired s k r ∧ ¬ (k = f.key ∧ r = f.range) := by
    rintro k r ⟨m, hlookup, hmem, hfired⟩
    rcases lookup_insert_cases hlookup with ⟨rfl, rfl⟩ | ⟨hne, hlookup⟩
    · obtain ⟨hmem', hindex⟩ :=
        index_ne_of_fired hscan (hregistered.indices hlive) hmem hfired
      exact ⟨⟨f.monitor, hlive, hmem', hfired⟩, fun h => hindex (congrArg _ h.2)⟩
    · exact ⟨⟨m, hlookup, hmem, hfired⟩, fun h => hne h.1⟩
  apply h.shrink (fun hr => (hold hr).1)
  intro k r a hr hcovers hnone
  obtain ⟨hbefore, hother⟩ := hold hr
  show setProtection _ _ _ _ _ _ = _
  unfold setProtection
  split
  · rename_i hopened
    exact absurd (h.apart hbefore hfound hcovers hopened.2) hother
  · exact hnone

/-- Restoring a monitor's ranges leaves other addresses alone. -/
theorem restoreRanges_apart {granted : ℕ → ℕ → Bool} {m : MonitorEntry} {prot : Addr → Prot}
    (ha : ∀ r ∈ m.ranges, r.fired = false → ¬ r.Covers a) :
    restoreRanges granted m prot a = prot a := by
  unfold restoreRanges
  generalize m.ranges = ranges at ha
  induction ranges generalizing prot with
  | nil => rfl
  | cons r rs ih =>
      rw [List.forall_mem_cons] at ha
      rw [List.foldl_cons, ih ha.2]
      cases hfired : r.fired with
      | true => rfl
      | false =>
          have hnot := ha.1 hfired
          show setProtection _ _ _ _ _ _ = _
          unfold setProtection
          exact if_neg fun h => hnot h.2

theorem Kept.disable (h : Kept s) (granted : ℕ → ℕ → Bool) (monId : ℕ) :
    Kept (MemoryAccessMonitor.disable granted monId s) := by
  unfold MemoryAccessMonitor.disable
  split
  · exact h
  · rename_i m hlive
    apply h.shrink
    · rintro k r ⟨m', hlookup, hrest⟩
      exact ⟨m', (lookup_erase_cases hlookup).2, hrest⟩
    · rintro k r a ⟨m', hlookup, hrest⟩ hcovers hnone
      obtain ⟨hne, hkept⟩ := lookup_erase_cases hlookup
      show restoreRanges granted m s.prot a = _
      rw [restoreRanges_apart]
      · exact hnone
      · intro r' hr' hfired' hcovers'
        exact hne (h.apart ⟨m', hkept, hrest⟩ ⟨m, hlive, hr', hfired'⟩ hcovers hcovers').1

/-! ## §6  Runs -/

/-- The condition on a step. -/
def Undisturbed (page : PageSize) (s : MonitorState) : Label → Prop
  | .enable env addresses sizes _ =>
      addresses.length = sizes.length → Clear page env (addresses.zip sizes) s
  | _ => True

theorem Kept.step (h : Kept s) (hregistered : Registered s) (hclear : Undisturbed page s l)
    (hstep : Step page os s l t) : Kept t := by
  cases hstep with
  | @enable env addresses sizes onAccess hjs =>
      by_cases hlen : addresses.length = sizes.length
      · obtain ⟨m, hranges, hmonitors, hprot⟩ := enable_watches page os env onAccess s hlen
        exact h.enable hranges hmonitors hprot (hclear hlen)
      · unfold MemoryAccessMonitor.enable
        rw [if_pos hlen]
        exact h
  | begin hjs => exact h.congr rfl rfl
  | turn hjs =>
      obtain ⟨hmonitors, -, hprot, -⟩ := drainTurn_frame _ _ _ s
      exact h.congr hmonitors hprot
  | callbackReturns hjs => exact h.congr rfl rfl
  | drained hjs htask => exact h.congr rfl rfl
  | disable hjs htask => exact (h.disable _ _).congr rfl rfl
  | disableAll hjs htask horder =>
      apply h.shrink
      · rintro k r ⟨m, hlookup, -⟩
        cases hlookup
      · rintro k r a ⟨m, hlookup, -⟩
        cases hlookup
  | @fault ctx order granted horder =>
      rcases monitorSegvHandler_cases ctx order granted s with ⟨-, heq⟩ | ⟨f, hscan, heq⟩
      · rw [heq]; exact h
      · rw [heq]; exact h.noteAccess hregistered granted horder hscan
  | publish hmem => exact h.congr rfl rfl

theorem Kept.undisturbed (h : Kept t) (hregistered : Registered s)
    (hstep : Step page os s l t) : Undisturbed page s l := by
  cases hstep with
  | enable hjs =>
      intro hlen
      obtain ⟨m, hranges, hmonitors, hprot⟩ := enable_watches page os _ _ s hlen
      exact h.clear hregistered hranges hmonitors hprot
  | _ => trivial

/-- **Watched ranges stay armed.** All unfired ranges of live monitors are armed in every
state of a run if and only if no `enable` of the run watches a page that an unfired range
watches, or one page twice, or pages whose end wraps, or has a protection call refused
that it needs. -/
theorem armed_throughout_iff {disposition : Sig → SigAction} {prot : Addr → Prot}
    {tr : List (MonitorState × Label)}
    (run : Run (Step page os) (.start (ExceptionState.start disposition) prot) tr t) :
    Throughout Armed tr t ↔ Guarded (Undisturbed page) tr := by
  refine Run.throughout_iff_guarded (I := fun s => Registered s ∧ Routed s)
    ⟨Registered.start _ prot, Routed.start disposition prot⟩
    (fun _ _ _ h hstep => ⟨h.1.step hstep, h.2.step hstep⟩)
    ((Kept.start _ prot).armed (Routed.start disposition prot)) ?_ ?_ run
  · rintro s l u ⟨hregistered, hrouted⟩ h hclear hstep
    exact (h.kept.step hregistered hclear hstep).armed (hrouted.step hstep)
  · rintro s l u ⟨hregistered, -⟩ _ hnot hstep h
    exact hnot (h.kept.undisturbed hregistered hstep)

end Arming

/-! ## §7  Two ranges on a page -/

section Concrete

theorem armed_throughout_iff_apart :
    Throughout Armed [(atStart, watchTwo 0x1000 0x3000)] (enabled 0x1000 0x3000) := by
  apply (armed_throughout_iff (Run.nil.snoc (step_watchTwo 0x1000 0x3000))).mpr
  intro p hp
  obtain rfl := List.mem_singleton.mp hp
  intro _
  refine ⟨by decide, ?_, ?_, fun _ _ => .inl rfl⟩
  · intro x hx y hy hne a hon hon'
    have hbelow := Nat.lt_of_le_of_lt (BitVec.le_def.mp hon.1) (BitVec.lt_def.mp hon'.2)
    have hbelow' := Nat.lt_of_le_of_lt (BitVec.le_def.mp hon'.1) (BitVec.lt_def.mp hon.2)
    simp only [List.zip, List.zipWith, List.zipIdx, List.mem_cons, List.not_mem_nil,
      or_false] at hx hy
    rcases hx with rfl | rfl <;> rcases hy with rfl | rfl
    · exact hne rfl
    · exact absurd hbelow' (by decide)
    · exact absurd hbelow (by decide)
    · exact hne rfl
  · rintro x hx k r ⟨m, hlive, -⟩
    cases hlive

/-- Both buffers are on one page: the first access opens it for the second as well. -/
theorem shared_page_disarmed :
    ∃ tr t, Run (Step smallPages .linux) atStart tr t ∧
      tr.map Prod.snd = [watchTwo 0x1000 0x1010, hitAt 0x1000 (enabled 0x1000 0x1010)] ∧
      (∃ r, Unfired t 1 r ∧ r.Covers 0x1010 ∧ t.prot 0x1010 = .readWrite) ∧ ¬ Armed t := by
  have hsecond : Unfired (hit 0x1000 (enabled 0x1000 0x1010)) 1
      ⟨0x1000, 0x1000, .readWrite, 1, false⟩ := ⟨_, rfl, by decide, rfl⟩
  refine ⟨_, _, (Run.nil.snoc (step_watchTwo 0x1000 0x1010)).snoc (step_hit 0x1000 _), rfl,
    ⟨_, hsecond, by decide, by decide⟩, ?_⟩
  intro h
  exact absurd (h.inaccessible (a := 0x1010) hsecond ⟨by decide, by decide⟩) (by decide)

end Concrete

end MemoryAccessMonitor

end Chromatic
