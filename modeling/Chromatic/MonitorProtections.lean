import Chromatic.MonitorArming
import Mathlib.Data.List.Induction

/-!
# What monitoring gives back

The protection a page has once no unfired range covers it. The POSIX build takes every page
it watches for read-write; the Windows build gives back what the first page of a range had
when the range was made.

§1 covered pages · §2 what a step gives back · §3 the ranges enable makes · §4 opening
pages · §5 steps · §6 runs · §7 pages not given back.
-/

namespace Chromatic

open Foundation ExceptionHandler

namespace MemoryAccessMonitor

/-! ## §1  Covered pages -/

/-- An unfired range of a live monitor covers the address. -/
def Covered (s : MonitorState) (a : Addr) : Prop := ∃ k r, Unfired s k r ∧ r.Covers a

instance (page : PageSize) (x : Addr × BitVec 32) (a : Addr) : Decidable (OnPages page x a) := by
  unfold OnPages; infer_instance

/-- The call asks for a range on the page of the address. -/
def Label.asks (page : PageSize) (a : Addr) : Label → Bool
  | .enable _ addresses sizes _ =>
      addresses.length = sizes.length ∧ ∃ x ∈ addresses.zip sizes, OnPages page x a
  | _ => false

/-! ## §2  What a step gives back -/

/-- From now on pages go back to `l.returns back`: a page once watched is read-write on
POSIX. -/
def Label.returns (page : PageSize) (os : Os) (l : Label) (back : Addr → Prot) : Addr → Prot :=
  fun a => if os ≠ .windows ∧ l.asks page a then .readWrite else back a

/-- The protections that the pages of a run go back to, from those they had at first. -/
def returned (page : PageSize) (os : Os) (prot : Addr → Prot) :
    List (MonitorState × Label) → Addr → Prot :=
  List.foldl (fun back p => p.2.returns page os back) prot

/-- Unfired ranges hold the protections to give back, and all other pages have them. -/
structure GivesBack (os : Os) (back : Addr → Prot) (s : MonitorState) : Prop where
  saves : ∀ {k r a}, Unfired s k r → r.Covers a → r.originalProt = back a
  free : ∀ {a}, ¬ Covered s a → s.prot a = back a
  assumed : os ≠ .windows → ∀ {k r}, Unfired s k r → r.originalProt = .readWrite

section Protections

variable {page : PageSize} {os : Os} {s t : MonitorState} {l : Label} {a : Addr}
  {back back' : Addr → Prot}

theorem not_covered_of_empty (h : s.monitors.entries = []) (a : Addr) : ¬ Covered s a := by
  rintro ⟨k, r, ⟨m, hlive, -⟩, -⟩
  have hnot := notMem_of_entries_eq_nil h k
  rw [← AList.lookup_eq_none, hlive] at hnot
  cases hnot

theorem GivesBack.start (os : Os) (exc : ExceptionState) (prot : Addr → Prot) :
    GivesBack os prot (.start exc prot) := by
  constructor
  · rintro k r a ⟨m, hlive, -⟩
    cases hlive
  · intro a _
    rfl
  · rintro - k r ⟨m, hlive, -⟩
    cases hlive

theorem GivesBack.congr (h : GivesBack os back s) (hmonitors : t.monitors = s.monitors)
    (hprot : t.prot = s.prot) : GivesBack os back t := by
  have hunfired : ∀ {k r}, Unfired t k r ↔ Unfired s k r := by
    intro k r
    unfold Unfired
    rw [hmonitors]
  constructor
  · intro k r a hr
    exact h.saves (hunfired.mp hr)
  · intro a hfree
    rw [hprot]
    apply h.free
    rintro ⟨k, r, hr, hcovers⟩
    exact hfree ⟨k, r, hunfired.mpr hr, hcovers⟩
  · intro hos k r hr
    exact h.assumed hos (hunfired.mp hr)

/-- Ranges may fire or go. What they covered has to be open again. -/
theorem GivesBack.shrink (h : GivesBack os back s)
    (hsub : ∀ {k r}, Unfired t k r → Unfired s k r)
    (hopen : ∀ {a}, ¬ Covered t a → Covered s a → t.prot a = back a)
    (hapart : ∀ {a}, ¬ Covered s a → t.prot a = s.prot a) : GivesBack os back t := by
  constructor
  · intro k r a hr
    exact h.saves (hsub hr)
  · intro a hfree
    by_cases hbefore : Covered s a
    · exact hopen hfree hbefore
    · rw [hapart hbefore]
      exact h.free hbefore
  · intro hos k r hr
    exact h.assumed hos (hsub hr)

/-! ## §3  The ranges enable makes -/

/-- What a range holds: read-write on POSIX, on Windows what its first page has unless an
earlier range of the call is on that page. -/
theorem watchAll_saves (env : ProtectAnswers) (i : ℕ) (l : List (Addr × BitVec 32))
    (prot : Addr → Prot) {r : WatchedRange} (hr : r ∈ (watchAll page os env i l prot).1) :
    (os ≠ .windows → r.originalProt = .readWrite) ∧
    ∃ x ∈ l.zipIdx i, Made page x r ∧
      (os = .windows → env.granted x.2 = true →
        (∀ y ∈ l.zipIdx i, y.2 < x.2 → ¬ OnPages page y.1 r.pageBase) →
          r.originalProt = prot r.pageBase) := by
  induction l generalizing i prot with
  | nil => cases hr
  | cons x l ih =>
      obtain ⟨addr, size⟩ := x
      rw [List.zipIdx_cons]
      cases hr with
      | head =>
          refine ⟨fun hos => if_neg hos, _, List.mem_cons_self, ⟨rfl, rfl, rfl, rfl⟩, ?_⟩
          intro hos hgranted _
          show (if os = .windows then _ else _) = _
          rw [if_pos hos, if_pos hgranted]
      | tail _ hr =>
          obtain ⟨hassumed, x, hx, hmade, hsaved⟩ := ih (i + 1) _ hr
          refine ⟨hassumed, x, List.mem_cons_of_mem _ hx, hmade, ?_⟩
          intro hos hgranted hearlier
          rw [List.forall_mem_cons] at hearlier
          have hlt : i < x.2 := (List.mem_zipIdx hx).1
          rw [hsaved hos hgranted hearlier.2]
          show setProtection _ _ _ _ _ _ = _
          exact if_neg fun h => hearlier.1 hlt h.2

/-- Other pages are left alone. -/
theorem watchAll_apart (env : ProtectAnswers) (i : ℕ) (l : List (Addr × BitVec 32))
    (prot : Addr → Prot) (ha : ∀ x ∈ l, ¬ OnPages page x a) :
    (watchAll page os env i l prot).2 a = prot a := by
  induction l generalizing i prot with
  | nil => rfl
  | cons x l ih =>
      obtain ⟨addr, size⟩ := x
      rw [List.forall_mem_cons] at ha
      show (watchAll page os env (i + 1) l (watch page os env i addr size prot).2).2 a = _
      rw [ih _ _ ha.2]
      show setProtection _ _ _ _ _ _ = _
      exact if_neg fun h => ha.1 h.2

/-- On Windows a range saves the protections `prot` of its pages: the call is granted, the
pages have one protection, and nobody watches the first of them already. -/
structure Saves (page : PageSize) (prot : Addr → Prot) (env : ProtectAnswers)
    (asked : List (Addr × BitVec 32)) (s : MonitorState) : Prop where
  granted : ∀ x ∈ asked.zipIdx, env.granted x.2 = true
  uniform : ∀ x ∈ asked, ∀ a, OnPages page x a →
    prot a = prot (widen page x.1 (x.2.signExtend 64)).1
  others : ∀ x ∈ asked, ¬ Covered s (widen page x.1 (x.2.signExtend 64)).1
  own : ∀ x ∈ asked.zipIdx, ∀ y ∈ asked.zipIdx, y.2 < x.2 →
    ¬ OnPages page y.1 (widen page x.1.1 (x.1.2.signExtend 64)).1

theorem Label.returns_of_asks {prot : Addr → Prot} (hos : os ≠ .windows)
    (h : l.asks page a = true) : l.returns page os prot a = .readWrite :=
  if_pos ⟨hos, h⟩

theorem Label.returns_of_windows {prot : Addr → Prot} (hos : os = .windows) :
    l.returns page os prot a = prot a :=
  if_neg fun h => h.1 hos

theorem Label.returns_of_not_asks {prot : Addr → Prot} (h : l.asks page a = false) :
    l.returns page os prot a = prot a :=
  if_neg fun h' => by simp [h] at h'

section Enable

variable {prot : Addr → Prot} {env : ProtectAnswers} {addresses : List Addr}
  {sizes : List (BitVec 32)} {onAccess : Callback}

theorem asks_enable (hlen : addresses.length = sizes.length) :
    (Label.enable env addresses sizes onAccess).asks page a = true ↔
      ∃ x ∈ addresses.zip sizes, OnPages page x a := by
  simp only [Label.asks, decide_eq_true_eq]
  exact and_iff_right hlen

/-- The new ranges hold what their pages go back to. -/
theorem GivesBack.made (h : GivesBack os back s)
    (hsaves : os = .windows → back = prot ∧ Saves page prot env (addresses.zip sizes) s)
    (hlen : addresses.length = sizes.length) {r : WatchedRange}
    (hr : r ∈ (watchAll page os env 0 (addresses.zip sizes) s.prot).1) (hcovers : r.Covers a) :
    r.originalProt = (Label.enable env addresses sizes onAccess).returns page os back a := by
  obtain ⟨hassumed, x, hx, hmade, hsaved⟩ := watchAll_saves env 0 _ _ hr
  have hmem : x.1 ∈ addresses.zip sizes := List.fst_mem_of_mem_zipIdx hx
  have hon := hmade.covers_iff.mp hcovers
  by_cases hos : os = .windows
  · obtain ⟨rfl, hok⟩ := hsaves hos
    rw [Label.returns_of_windows hos]
    calc r.originalProt
      _ = s.prot r.pageBase := by
          apply hsaved hos (hok.granted x hx)
          rw [hmade.base]
          exact hok.own x hx
      _ = back r.pageBase := by
          apply h.free
          rw [hmade.base]
          exact hok.others x.1 hmem
      _ = back a := by
          rw [hmade.base]
          exact (hok.uniform x.1 hmem a hon).symm
  · rw [Label.returns_of_asks hos ((asks_enable hlen).mpr ⟨x.1, hmem, hon⟩)]
    exact hassumed hos

/-- A range there was holds what its pages still go back to. -/
theorem GivesBack.older (h : GivesBack os back s) {k : ℕ} {r : WatchedRange}
    (hr : Unfired s k r) (hcovers : r.Covers a) : r.originalProt = l.returns page os back a := by
  by_cases hos : os = .windows
  · rw [Label.returns_of_windows hos]
    exact h.saves hr hcovers
  · cases hasks : l.asks page a with
    | true =>
        rw [Label.returns_of_asks hos hasks]
        exact h.assumed hos hr
    | false =>
        rw [Label.returns_of_not_asks hasks]
        exact h.saves hr hcovers

theorem GivesBack.enable (h : GivesBack os back s) (hregistered : Registered s)
    (hsaves : os = .windows → addresses.length = sizes.length →
      back = prot ∧ Saves page prot env (addresses.zip sizes) s) :
    GivesBack os ((Label.enable env addresses sizes onAccess).returns page os back)
      (MemoryAccessMonitor.enable page os env addresses sizes onAccess s).2 := by
  by_cases hlen : addresses.length = sizes.length
  · obtain ⟨m, hranges, hmonitors, hprot⟩ := enable_watches page os env onAccess s hlen
    generalize (MemoryAccessMonitor.enable page os env addresses sizes onAccess s).2 = t at *
    constructor
    · intro k r a hr hcovers
      rcases unfired_insert hmonitors hr with ⟨-, hmem, -⟩ | ⟨-, hold⟩
      · exact h.made (fun hos => hsaves hos hlen) hlen (hranges ▸ hmem) hcovers
      · exact h.older hold hcovers
    · intro a hfree
      have hoff : ∀ x ∈ addresses.zip sizes, ¬ OnPages page x a := by
        intro x hx hon
        obtain ⟨i, hi, rfl⟩ := List.mem_iff_getElem.mp hx
        have hindex : ((addresses.zip sizes)[i], i) ∈ (addresses.zip sizes).zipIdx :=
          List.mem_zipIdx_iff_getElem?.mpr (List.getElem?_eq_getElem hi)
        obtain ⟨r, hr, hmade⟩ := exists_mem_watchAll os env s.prot hindex
        refine hfree ⟨s.nextMonId, r, ⟨m, ?_, hranges ▸ hr, hmade.unfired⟩,
          hmade.covers_iff.mpr hon⟩
        rw [hmonitors, AList.lookup_insert]
      have hbefore : ¬ Covered s a := by
        rintro ⟨k, r, ⟨m', hlive, hmem, hfired⟩, hcovers⟩
        refine hfree ⟨k, r, ⟨m', ?_, hmem, hfired⟩, hcovers⟩
        rw [hmonitors, AList.lookup_insert_ne (Nat.ne_of_lt (hregistered.below hlive))]
        exact hlive
      have hasks : (Label.enable env addresses sizes onAccess).asks page a = false := by
        rw [Bool.eq_false_iff]
        intro hasks
        obtain ⟨x, hx, hon⟩ := (asks_enable hlen).mp hasks
        exact hoff x hx hon
      rw [Label.returns_of_not_asks hasks, hprot, watchAll_apart env 0 _ _ hoff]
      exact h.free hbefore
    · intro hos k r hr
      rcases unfired_insert hmonitors hr with ⟨-, hmem, -⟩ | ⟨-, hold⟩
      · exact (watchAll_saves env 0 _ _ (hranges ▸ hmem)).1 hos
      · exact h.assumed hos hold
  · have hasks : ∀ a, (Label.enable env addresses sizes onAccess).asks page a = false := by
      intro a
      simp [Label.asks, hlen]
    have hback : (Label.enable env addresses sizes onAccess).returns page os back = back :=
      funext fun a => Label.returns_of_not_asks (hasks a)
    rw [hback]
    unfold MemoryAccessMonitor.enable
    rw [if_pos hlen]
    exact h

end Enable

/-! ## §4  Opening pages -/

theorem setProtection_granted (r : WatchedRange) (p : Prot) (m : Addr → Prot) (a : Addr) :
    setProtection true r.pageBase r.pageSize p m a = if r.Covers a then p else m a := by
  simp [setProtection, WatchedRange.Covers]

/-- A range that does not fire is as it was. -/
theorem mem_ranges_of_fired {order : List (Σ _ : ℕ, MonitorEntry)} {f : Found}
    (hscan : scan a order = some f) {r : WatchedRange} (hr : r ∈ f.monitor.ranges)
    (hne : r ≠ f.range) : r ∈ f.ranges := by
  obtain ⟨front, back, hranges, -, hafter, -⟩ := fireFirst_some (scan_some hscan).2
  rw [hranges, List.mem_append, List.mem_cons] at hr
  rw [hafter, List.mem_append, List.mem_cons]
  rcases hr with hr | rfl | hr
  · exact .inl hr
  · exact absurd rfl hne
  · exact .inr (.inr hr)

/-- After the handler an unfired range is one that was. -/
theorem unfired_of_noteAccess {ctx : ExceptionContext}
    {order : List (Σ _ : ℕ, MonitorEntry)} {f : Found} {granted : Bool}
    (horder : order.Perm s.monitors.entries) (hscan : scan ctx.faultAddress order = some f)
    {k : ℕ} {r : WatchedRange} (hr : Unfired (noteAccess ctx granted f s) k r) :
    Unfired s k r := by
  obtain ⟨hlive, -, -⟩ := scan_found horder hscan
  obtain ⟨front, back, hranges, -, hafter, -⟩ := fireFirst_some (scan_some hscan).2
  obtain ⟨m, hlookup, hmem, hfired⟩ := hr
  rcases lookup_insert_cases hlookup with ⟨rfl, rfl⟩ | ⟨-, hlookup⟩
  · refine ⟨f.monitor, hlive, ?_, hfired⟩
    rw [hafter, List.mem_append, List.mem_cons] at hmem
    rw [hranges, List.mem_append, List.mem_cons]
    rcases hmem with hmem | rfl | hmem
    · exact .inl hmem
    · cases hfired
    · exact .inr (.inr hmem)
  · exact ⟨m, hlookup, hmem, hfired⟩

theorem GivesBack.noteAccess (h : GivesBack os back s) {ctx : ExceptionContext}
    {order : List (Σ _ : ℕ, MonitorEntry)} {f : Found}
    (horder : order.Perm s.monitors.entries) (hscan : scan ctx.faultAddress order = some f) :
    GivesBack os back (MemoryAccessMonitor.noteAccess ctx true f s) := by
  obtain ⟨hlive, -, -⟩ := scan_found horder hscan
  obtain ⟨hfound, -⟩ := unfired_of_scan horder hscan
  apply h.shrink (fun hr => unfired_of_noteAccess horder hscan hr)
  · rintro a hfree ⟨k, r, hr, hcovers⟩
    show setProtection _ _ _ _ _ _ = _
    rw [setProtection_granted]
    by_cases hopened : f.range.Covers a
    · rw [if_pos hopened]
      exact h.saves hfound hopened
    · -- what covered the address still does
      have hne : r ≠ f.range := fun heq => hopened (heq ▸ hcovers)
      obtain ⟨m, hlookup, hmem, hfired⟩ := hr
      refine absurd ⟨k, r, ?_, hcovers⟩ hfree
      by_cases hk : k = f.key
      · subst hk
        obtain rfl := Option.some.inj (hlive.symm.trans hlookup)
        exact ⟨_, AList.lookup_insert _, mem_ranges_of_fired hscan hmem hne, hfired⟩
      · exact ⟨m, (AList.lookup_insert_ne hk).trans hlookup, hmem, hfired⟩
  · intro a hfree
    show setProtection _ _ _ _ _ _ = _
    rw [setProtection_granted]
    exact if_neg fun hcovers => hfree ⟨_, _, hfound, hcovers⟩

/-- Restoring a monitor's ranges gives an address `p` when the unfired ones over it hold `p`
and it has `p` already or there is one. -/
theorem restoreRanges_open {granted : ℕ → ℕ → Bool} (hgranted : ∀ i j, granted i j = true)
    {m : MonitorEntry} {p : Prot} {prot : Addr → Prot}
    (hsaved : ∀ r ∈ m.ranges, r.Watches a → r.originalProt = p)
    (hopen : prot a = p ∨ ∃ r ∈ m.ranges, r.Watches a) :
    restoreRanges granted m prot a = p := by
  unfold restoreRanges
  generalize m.ranges = ranges at hsaved hopen
  induction ranges generalizing prot with
  | nil => simpa using hopen
  | cons r rs ih =>
      rw [List.forall_mem_cons] at hsaved
      rw [List.exists_mem_cons_iff] at hopen
      rw [List.foldl_cons]
      apply ih hsaved.2
      cases hfired : r.fired with
      | true =>
          have hnot : ¬ r.Watches a := fun h => by simp [WatchedRange.Watches, hfired] at h
          simpa [hnot] using hopen
      | false =>
          simp only [hgranted, setProtection_granted, Bool.false_eq_true, if_false]
          by_cases hcovers : r.Covers a
          · refine .inl ?_
            rw [if_pos hcovers]
            exact hsaved.1 ⟨hfired, hcovers⟩
          · have hnot : ¬ r.Watches a := fun h => hcovers h.2
            rw [if_neg hcovers]
            simpa [hnot] using hopen

theorem restoreAll_open {granted : ℕ → ℕ → Bool} (hgranted : ∀ i j, granted i j = true)
    {order : List (Σ _ : ℕ, MonitorEntry)} {p : Prot} {prot : Addr → Prot}
    (hsaved : ∀ e ∈ order, ∀ r ∈ e.2.ranges, r.Watches a → r.originalProt = p)
    (hopen : prot a = p ∨ ∃ e ∈ order, ∃ r ∈ e.2.ranges, r.Watches a) :
    order.foldl (fun prot e => restoreRanges granted e.2 prot) prot a = p := by
  induction order generalizing prot with
  | nil => simpa using hopen
  | cons e rest ih =>
      rw [List.forall_mem_cons] at hsaved
      rw [List.exists_mem_cons_iff, ← or_assoc] at hopen
      rw [List.foldl_cons]
      apply ih hsaved.2
      rcases hopen with hfirst | hrest
      · exact .inl (restoreRanges_open hgranted hsaved.1 hfirst)
      · exact .inr hrest

theorem GivesBack.disable (h : GivesBack os back s) {granted : ℕ → ℕ → Bool}
    (hgranted : ∀ i j, granted i j = true) (monId : ℕ) :
    GivesBack os back (MemoryAccessMonitor.disable granted monId s) := by
  unfold MemoryAccessMonitor.disable
  split
  · exact h
  · rename_i m hlive
    apply h.shrink
    · rintro k r ⟨m', hlookup, hrest⟩
      exact ⟨m', (lookup_erase_cases hlookup).2, hrest⟩
    · rintro a hfree ⟨k, r, ⟨m', hlookup, hmem, hfired⟩, hcovers⟩
      apply restoreRanges_open hgranted
      · intro r' hr' hwatches
        exact h.saves ⟨m, hlive, hr', hwatches.1⟩ hwatches.2
      · by_cases hk : k = monId
        · subst hk
          obtain rfl := Option.some.inj (hlive.symm.trans hlookup)
          exact .inr ⟨r, hmem, hfired, hcovers⟩
        · exact absurd ⟨k, r, ⟨m', (AList.lookup_erase_ne hk).trans hlookup, hmem, hfired⟩,
            hcovers⟩ hfree
    · intro a hfree
      apply restoreRanges_apart
      intro r hr hfired hcovers
      exact hfree ⟨monId, r, ⟨m, hlive, hr, hfired⟩, hcovers⟩

theorem GivesBack.disableAll (h : GivesBack os back s) {granted : ℕ → ℕ → Bool}
    (hgranted : ∀ i j, granted i j = true) {order : List (Σ _ : ℕ, MonitorEntry)}
    (horder : order.Perm s.monitors.entries) :
    GivesBack os back (MemoryAccessMonitor.disableAll granted order s) := by
  have hlive : ∀ {e}, e ∈ order → s.monitors.lookup e.1 = some e.2 :=
    fun he => AList.mem_lookup_iff.mpr (horder.mem_iff.mp he)
  have hopen : ∀ a, (MemoryAccessMonitor.disableAll granted order s).prot a = back a := by
    intro a
    apply restoreAll_open hgranted
    · intro e he r hr hwatches
      exact h.saves ⟨e.2, hlive he, hr, hwatches.1⟩ hwatches.2
    · by_cases hcovered : Covered s a
      · obtain ⟨k, r, ⟨m, hlookup, hmem, hfired⟩, hcovers⟩ := hcovered
        refine .inr ⟨⟨k, m⟩, ?_, r, hmem, hfired, hcovers⟩
        exact horder.mem_iff.mpr (AList.mem_lookup_iff.mp hlookup)
      · exact .inl (h.free hcovered)
  constructor
  · rintro k r a ⟨m, hlookup, -⟩
    cases hlookup
  · intro a _
    exact hopen a
  · rintro - k r ⟨m, hlookup, -⟩
    cases hlookup

/-! ## §5  Steps -/

/-- The calls that open pages are granted, and on Windows a new range saves the protections
`prot` of its pages. -/
def Permitted (page : PageSize) (os : Os) (prot : Addr → Prot) (s : MonitorState) : Label → Prop
  | .enable env addresses sizes _ =>
      os = .windows → addresses.length = sizes.length →
        Saves page prot env (addresses.zip sizes) s
  | .fault _ _ granted => granted = true
  | .finish granted _ => ∀ i j, granted i j = true
  | _ => True

/-- Only `enable` changes what pages go back to. -/
theorem Label.returns_eq (h : ∀ a, l.asks page a = false) :
    l.returns page os back = back :=
  funext fun a => returns_of_not_asks (h a)

theorem GivesBack.step (h : GivesBack os back s) (hregistered : Registered s)
    {prot : Addr → Prot} (hback : os = .windows → back = prot)
    (hok : Permitted page os prot s l) (hstep : Step page os s l t) :
    GivesBack os (l.returns page os back) t := by
  cases hstep with
  | enable hjs => exact h.enable hregistered fun hos hlen => ⟨hback hos, hok hos hlen⟩
  | begin hjs =>
      rw [Label.returns_eq fun _ => rfl]
      exact h.congr rfl rfl
  | turn hjs =>
      rw [Label.returns_eq fun _ => rfl]
      obtain ⟨hmonitors, -, hprot, -⟩ := drainTurn_frame _ _ _ s
      exact h.congr hmonitors hprot
  | callbackReturns hjs =>
      rw [Label.returns_eq fun _ => rfl]
      exact h.congr rfl rfl
  | drained hjs htask =>
      rw [Label.returns_eq fun _ => rfl]
      exact h.congr rfl rfl
  | disable hjs htask =>
      rw [Label.returns_eq fun _ => rfl]
      exact (h.disable hok _).congr rfl rfl
  | disableAll hjs htask horder =>
      rw [Label.returns_eq fun _ => rfl]
      exact (h.disableAll hok horder).congr rfl rfl
  | @fault ctx order granted horder =>
      rw [Label.returns_eq fun _ => rfl]
      obtain rfl : granted = true := hok
      rcases monitorSegvHandler_cases ctx order true s with ⟨-, heq⟩ | ⟨f, hscan, heq⟩
      · rw [heq]
        exact h
      · rw [heq]
        exact h.noteAccess horder hscan
  | publish hmem =>
      rw [Label.returns_eq fun _ => rfl]
      exact h.congr rfl rfl

/-! ## §6  Runs -/

theorem returned_snoc {prot : Addr → Prot} {tr : List (MonitorState × Label)} :
    returned page os prot (tr ++ [(s, l)]) = l.returns page os (returned page os prot tr) := by
  simp [returned]

/-- On Windows pages go back to what they had at first. -/
theorem returned_windows (hos : os = .windows) (prot : Addr → Prot)
    (tr : List (MonitorState × Label)) : returned page os prot tr = prot := by
  induction tr using List.reverseRecOn with
  | nil => rfl
  | append_singleton tr p ih =>
      rw [returned_snoc, ih]
      exact funext fun a => Label.returns_of_windows hos

/-- On POSIX they go back to read-write once watched. -/
theorem returned_posix (hos : os ≠ .windows) (prot : Addr → Prot)
    (tr : List (MonitorState × Label)) (a : Addr) :
    returned page os prot tr a =
      if ∃ p ∈ tr, p.2.asks page a = true then .readWrite else prot a := by
  induction tr using List.reverseRecOn with
  | nil => simp [returned]
  | append_singleton tr p ih =>
      rw [returned_snoc]
      cases hasks : p.2.asks page a with
      | true =>
          rw [Label.returns_of_asks hos hasks, if_pos ⟨p, by simp, hasks⟩]
      | false =>
          rw [Label.returns_of_not_asks hasks, ih]
          refine if_congr ?_ rfl rfl
          simp [or_and_right, exists_or, hasks]

theorem run_givesBack {exc : ExceptionState} {prot : Addr → Prot}
    {tr : List (MonitorState × Label)} (run : Run (Step page os) (.start exc prot) tr t)
    (permitted : Guarded (Permitted page os prot) tr) :
    Registered t ∧ GivesBack os (returned page os prot tr) t := by
  induction run with
  | nil => exact ⟨Registered.start exc prot, GivesBack.start os exc prot⟩
  | snoc hrun hstep ih =>
      obtain ⟨hbefore, hok⟩ := guarded_snoc.mp permitted
      obtain ⟨hregistered, h⟩ := ih hbefore
      rw [returned_snoc]
      exact ⟨hregistered.step hstep,
        h.step hregistered (fun hos => returned_windows hos prot _) hok hstep⟩

/-- **Monitoring gives pages back.** While the calls that open pages are granted and, on
Windows, every range saves what its pages had at first, a page outside all unfired ranges has
on Windows what it had at first, and on POSIX that as well unless it has been watched: then
it is read-write. Without monitors this holds of every page. -/
theorem given_back {exc : ExceptionState} {prot : Addr → Prot}
    {tr : List (MonitorState × Label)} (run : Run (Step page os) (.start exc prot) tr t)
    (permitted : Guarded (Permitted page os prot) tr) :
    (∀ a, ¬ Covered t a → t.prot a =
      if os ≠ .windows ∧ ∃ p ∈ tr, p.2.asks page a = true then .readWrite else prot a) ∧
    (t.monitors.entries = [] → ∀ a, ¬ Covered t a) := by
  obtain ⟨-, h⟩ := run_givesBack run permitted
  refine ⟨fun a hfree => ?_, not_covered_of_empty⟩
  rw [h.free hfree]
  by_cases hos : os = .windows
  · rw [returned_windows hos, if_neg fun h => h.1 hos]
  · rw [returned_posix hos]
    exact if_congr (iff_and_self.mpr fun _ => hos) rfl rfl

end Protections

/-! ## §7  Pages not given back -/

section Concrete

/-- No unfired range among the monitors covers the address. -/
theorem not_covered {s : MonitorState} {a : Addr}
    (h : ∀ e ∈ s.monitors.entries, ∀ r ∈ e.2.ranges, ¬ r.Watches a) : ¬ Covered s a := by
  rintro ⟨k, r, ⟨m, hlive, hmem, hfired⟩, hcovers⟩
  exact h _ (AList.mem_lookup_iff.mp hlive) r hmem ⟨hfired, hcovers⟩

def readOnly : Addr → Prot := fun _ => .other 1

def fresh (prot : Addr → Prot) : MonitorState := .start (ExceptionState.start defaultActions) prot

def watchOne (a : Addr) : Label := .enable allGranted [a] [4] 0

def watching (os : Os) (a : Addr) (s : MonitorState) : MonitorState :=
  (enable smallPages os allGranted [a] [4] 0 s).2

/-- After a read of the page, with the call that opens it answered as told. -/
def readOnce (granted : Bool) (s : MonitorState) : MonitorState :=
  (monitorSegvHandler (readAt 0x1000) s.monitors.entries granted s).2

def readLabel (granted : Bool) (s : MonitorState) : Label :=
  .fault (readAt 0x1000) s.monitors.entries granted

theorem run_readOnce (prot : Addr → Prot) (granted : Bool) :
    Run (Step smallPages .linux) (fresh prot)
      [(fresh prot, watchOne 0x1000), (watching .linux 0x1000 (fresh prot),
        readLabel granted (watching .linux 0x1000 (fresh prot)))]
      (readOnce granted (watching .linux 0x1000 (fresh prot))) :=
  (Run.nil.snoc (.enable rfl)).snoc (.fault (List.Perm.refl _))

theorem permitted_readOnce (prot : Addr → Prot) (s : MonitorState) :
    Guarded (Permitted smallPages .linux prot)
      [(fresh prot, watchOne 0x1000), (s, readLabel true s)] := by
  intro p hp
  rw [List.mem_cons, List.mem_singleton] at hp
  rcases hp with rfl | rfl
  · intro hos
    cases hos
  · rfl

/-- A read-write page read under watch is read-write again. -/
theorem given_back_readOnce :
    (readOnce true (watching .linux 0x1000 (fresh writable))).prot 0x1000 = .readWrite := by
  have hback := (given_back (run_readOnce writable true) (permitted_readOnce writable _)).1 0x1000
    (not_covered (by decide))
  exact hback.trans (ite_self _)

/-- Two monitors of one page on Windows, disabled the first one first. -/
def bothWatching : MonitorState :=
  watching .windows 0x1010 (watching .windows 0x1000 (fresh writable))

def bothDisabled : MonitorState :=
  let s := drainTurn ⟨.disableAll, 0, true⟩ 0 0 (beginDrain .disableAll bothWatching)
  { disableAll (fun _ _ => true) s.monitors.entries.reverse s with js := .idle }

theorem run_bothDisabled : ∃ tr, Run (Step smallPages .windows) (fresh writable) tr bothDisabled :=
  ⟨_, ((((Run.nil.snoc (.enable rfl)).snoc (.enable rfl)).snoc (.begin rfl)).snoc
    (.turn rfl)).snoc (.disableAll rfl rfl (List.reverse_perm _))⟩

/-- On Linux a read-only page becomes writable, and any page stays closed if the call that
opens it is refused. On Windows the second monitor gives back what the first one made of the
page. -/
theorem not_given_back :
    (∃ tr t, Run (Step smallPages .linux) (fresh readOnly) tr t ∧
      Guarded (Permitted smallPages .linux readOnly) tr ∧ ¬ Covered t 0x1000 ∧
      t.prot 0x1000 = .readWrite ∧ readOnly 0x1000 ≠ .readWrite) ∧
    (∃ tr t, Run (Step smallPages .linux) (fresh writable) tr t ∧ ¬ Covered t 0x1000 ∧
      t.prot 0x1000 = .none ∧ writable 0x1000 ≠ .none) ∧
    (∃ tr t, Run (Step smallPages .windows) (fresh writable) tr t ∧
      t.monitors.entries = [] ∧ t.prot 0x1000 = .none ∧ writable 0x1000 ≠ .none) := by
  obtain ⟨tr, run⟩ := run_bothDisabled
  refine ⟨⟨_, _, run_readOnce readOnly true, permitted_readOnce readOnly _,
      not_covered (by decide), by decide, by decide⟩,
    ⟨_, _, run_readOnce writable false, not_covered (by decide), by decide, by decide⟩,
    ⟨tr, _, run, rfl, by decide, by decide⟩⟩

end Concrete

end MemoryAccessMonitor

end Chromatic
