import Chromatic.MonitorThreads
import Chromatic.Foundation.Slots

/-!
# What the monitors report

With handlers on any threads, the ring overflowing and its indices wrapping as they may, every
call of an `onAccess` tells of a fault of its own, as long as the threads keep apart. Two threads
that fault on one range need not.

§1 faults and reports · §2 monitors and handlers · §3 the ring · §4 the account · §5 runs ·
§6 two threads.
-/

namespace Chromatic

open Foundation ExceptionHandler

namespace MemoryAccessMonitor

/-! ## §1  Faults and reports -/

/-- A monitor and one of its ranges. -/
def Event.key (e : Event) : ℕ × ℕ := (e.monitorId, e.rangeIndex)

def Invocation.key (v : Invocation) : ℕ × ℕ := (v.monitorId, v.rangeIndex)

/-- What `onAccess` is told of an access. -/
def operation : AccessType → String
  | .read => "read"
  | .write => "write"
  | .execute => "execute"
  | .unknown => "unknown"

theorem accessCodeToString_accessCode (accessType : AccessType) :
    accessCodeToString (accessCode accessType) = operation accessType := by
  cases accessType <;> rfl

namespace Threads

/-- The check of a fault found the range. -/
def Checked (p : ThreadedState × Label) (ctx : ExceptionContext) (f : Found) : Prop :=
  ∃ order, p.2 = .check ctx order ∧ order.Perm p.1.monitors.entries ∧
    scan ctx.faultAddress order = some f

/-- A check in the trace did. -/
def Raised (tr : List (ThreadedState × Label)) (ctx : ExceptionContext) (f : Found) : Prop :=
  ∃ p ∈ tr, Checked p ctx f

/-- The call is about the range that the fault hit: an unfired range, covering the address, of a
monitor with this `onAccess`. -/
structure Report (s : ThreadedState) (ctx : ExceptionContext) (f : Found) (v : Invocation) :
    Prop where
  live : s.monitors.lookup f.key = some f.monitor
  range : f.range ∈ f.monitor.ranges
  watches : f.range.Watches ctx.faultAddress
  monitorId : v.monitorId = f.key
  onAccess : v.onAccess = f.monitor.onAccess
  address : v.address = ctx.faultAddress
  pageBase : v.pageBase = f.range.pageBase
  operation : v.operation = MemoryAccessMonitor.operation ctx.accessType
  rangeIndex : v.rangeIndex = f.range.rangeIndex

/-- The call tells of the fault that was checked in the step. -/
def Tells (p : ThreadedState × Label) (v : Invocation) : Prop :=
  ∃ ctx f, Checked p ctx f ∧ Report p.1 ctx f v

/-! ## §2  Monitors and handlers -/

/-- What is known of the monitors that faults were raised for: `R` are the faults so far. -/
structure Watching (R : ExceptionContext → Found → Prop) (s : ThreadedState) : Prop where
  registered : Registered s.toMonitorState
  raised_id : ∀ {ctx f}, R ctx f → f.monitor.id = f.key ∧ f.key < s.nextMonId
  owner : ∀ {ctx f m}, R ctx f → s.monitors.lookup f.key = some m →
    m.onAccess = f.monitor.onAccess
  unfired : ∀ {ctx f m r}, R ctx f → s.monitors.lookup f.key = some m → r ∈ m.ranges →
    r.rangeIndex = f.range.rangeIndex → r.fired = false →
    ∃ h ∈ s.handlers, h.stage = .found ∧ h.found.target = f.target
  begun : ∀ h ∈ s.handlers, R h.ctx h.found
  live : ∀ h ∈ s.handlers, ∃ m, s.monitors.lookup h.found.key = some m

section Watch

variable {page : PageSize} {os : Os} {s t : ThreadedState} {h : Handler}
  {R : ExceptionContext → Found → Prop}

/-- Monitors may go, and new ones come under new identifiers. -/
theorem Watching.frame (hw : Watching R s) (hregistered : Registered t.toMonitorState)
    (hnext : s.nextMonId ≤ t.nextMonId)
    (hmonitors : ∀ {k m}, t.monitors.lookup k = some m →
      s.monitors.lookup k = some m ∨ s.nextMonId ≤ k)
    (hfound : ∀ x ∈ s.handlers, x.stage = .found → x ∈ t.handlers)
    (hbegun : ∀ x ∈ t.handlers, ∃ y ∈ s.handlers, y.ctx = x.ctx ∧ y.found = x.found)
    (hlive : ∀ x ∈ t.handlers, ∃ m, t.monitors.lookup x.found.key = some m) : Watching R t where
  registered := hregistered
  raised_id hR := ⟨(hw.raised_id hR).1, Nat.lt_of_lt_of_le (hw.raised_id hR).2 hnext⟩
  owner hR hlookup := by
    rcases hmonitors hlookup with hold | hnew
    · exact hw.owner hR hold
    · exact absurd (hw.raised_id hR).2 (Nat.not_lt.mpr hnew)
  unfired hR hlookup hr hindex hfired := by
    rcases hmonitors hlookup with hold | hnew
    · obtain ⟨x, hx, hstage, htarget⟩ := hw.unfired hR hold hr hindex hfired
      exact ⟨x, hfound x hx hstage, hstage, htarget⟩
    · exact absurd (hw.raised_id hR).2 (Nat.not_lt.mpr hnew)
  begun x hx := by
    obtain ⟨y, hy, hctx, hfound⟩ := hbegun x hx
    exact hctx ▸ hfound ▸ hw.begun y hy
  live := hlive

/-- A handler that has marked its range goes on. -/
theorem Watching.moved (hw : Watching R s) (hmem : h ∈ s.handlers) (hstage : h.stage ≠ .found)
    {stage : Stage} (hhandlers : t.handlers = { h with stage := stage } :: s.handlers.erase h)
    (hmonitors : t.monitors = s.monitors) (hnext : t.nextMonId = s.nextMonId) :
    Watching R t := by
  refine hw.frame (hw.registered.congr hmonitors hnext) hnext.ge
    (fun hlookup => .inl (hmonitors ▸ hlookup)) ?_ ?_ ?_
  · intro x hx hfound
    rw [hhandlers]
    refine List.mem_cons_of_mem _ ((List.mem_erase_of_ne ?_).mpr hx)
    rintro rfl
    exact hstage hfound
  · intro x hx
    rw [hhandlers, List.mem_cons] at hx
    rcases hx with rfl | hx
    · exact ⟨h, hmem, rfl, rfl⟩
    · exact ⟨x, List.mem_of_mem_erase hx, rfl, rfl⟩
  · intro x hx
    rw [hhandlers, List.mem_cons] at hx
    rw [hmonitors]
    rcases hx with rfl | hx
    · exact hw.live h hmem
    · exact hw.live x (List.mem_of_mem_erase hx)

/-- A handler that ends. -/
theorem Watching.ended (hw : Watching R s) (hstage : h.stage ≠ .found)
    (hhandlers : t.handlers = s.handlers.erase h) (hmonitors : t.monitors = s.monitors)
    (hnext : t.nextMonId = s.nextMonId) : Watching R t := by
  refine hw.frame (hw.registered.congr hmonitors hnext) hnext.ge
    (fun hlookup => .inl (hmonitors ▸ hlookup)) ?_ ?_ ?_
  · intro x hx hfound
    rw [hhandlers]
    refine (List.mem_erase_of_ne ?_).mpr hx
    rintro rfl
    exact hstage hfound
  · intro x hx
    exact ⟨x, List.mem_of_mem_erase (hhandlers ▸ hx), rfl, rfl⟩
  · intro x hx
    rw [hmonitors]
    exact hw.live x (List.mem_of_mem_erase (hhandlers ▸ hx))

/-- The script's thread leaves monitors and handlers alone. -/
theorem Watching.congr (hw : Watching R s) (hhandlers : t.handlers = s.handlers)
    (hmonitors : t.monitors = s.monitors) (hnext : t.nextMonId = s.nextMonId) : Watching R t := by
  refine hw.frame (hw.registered.congr hmonitors hnext) hnext.ge
    (fun hlookup => .inl (hmonitors ▸ hlookup)) ?_ ?_ ?_
  · intro x hx _
    exact hhandlers ▸ hx
  · intro x hx
    exact ⟨x, hhandlers ▸ hx, rfl, rfl⟩
  · intro x hx
    rw [hmonitors]
    exact hw.live x (hhandlers ▸ hx)

theorem Watching.enable (hw : Watching R s) (env : ProtectAnswers) (addresses : List Addr)
    (sizes : List (BitVec 32)) (onAccess : Callback) :
    Watching R { s with toMonitorState :=
      (MemoryAccessMonitor.enable page os env addresses sizes onAccess s.toMonitorState).2 } := by
  have hregistered :=
    @Registered.enable page os s.toMonitorState hw.registered env addresses sizes onAccess
  unfold MemoryAccessMonitor.enable at hregistered ⊢
  split
  · exact hw
  · rename_i hlen
    rw [if_neg hlen] at hregistered
    refine hw.frame hregistered (Nat.le_succ _) ?_ (fun x hx _ => hx)
      (fun x hx => ⟨x, hx, rfl, rfl⟩) ?_
    · intro k m hlookup
      rcases lookup_insert_cases hlookup with ⟨rfl, -⟩ | ⟨-, hold⟩
      · exact .inr le_rfl
      · exact .inl hold
    · intro x hx
      obtain ⟨m, hlookup⟩ := hw.live x hx
      have hne : x.found.key ≠ s.nextMonId := Nat.ne_of_lt (hw.registered.below hlookup)
      exact ⟨m, (AList.lookup_insert_ne hne).trans hlookup⟩

/-- The monitor that goes has no handler in progress. -/
theorem Watching.disable (hw : Watching R s) (granted : ℕ → ℕ → Bool) (monId : ℕ) (js : JsThread)
    (hapart : ∀ x ∈ s.handlers, x.found.key ≠ monId) :
    Watching R { s with toMonitorState :=
      { MemoryAccessMonitor.disable granted monId s.toMonitorState with js := js } } := by
  have hregistered := (hw.registered.disable granted monId).congr
    (t := { MemoryAccessMonitor.disable granted monId s.toMonitorState with js := js }) rfl rfl
  unfold MemoryAccessMonitor.disable at hregistered ⊢
  split
  · exact hw.congr rfl rfl rfl
  · rename_i m hsome
    rw [hsome] at hregistered
    refine hw.frame hregistered le_rfl (fun hlookup => .inl (lookup_erase_cases hlookup).2)
      (fun x hx _ => hx) (fun x hx => ⟨x, hx, rfl, rfl⟩) ?_
    intro x hx
    obtain ⟨m', hlookup⟩ := hw.live x hx
    exact ⟨m', (AList.lookup_erase_ne (hapart x hx)).trans hlookup⟩

theorem Watching.disableAll (hw : Watching R s) (granted : ℕ → ℕ → Bool)
    (order : List (Σ _ : ℕ, MonitorEntry)) (js : JsThread) (hapart : s.handlers = []) :
    Watching R { s with toMonitorState :=
      { MemoryAccessMonitor.disableAll granted order s.toMonitorState with js := js } } := by
  refine hw.frame ?_ le_rfl (fun hlookup => by cases hlookup) (fun x hx _ => hx)
    (fun x hx => ⟨x, hx, rfl, rfl⟩) (fun x hx => ?_)
  · constructor <;> intro k m hlookup <;> cases hlookup
  · rw [show _ = s.handlers from rfl, hapart] at hx
    cases hx

/-- A range that a check finds was not raised before. -/
theorem Watching.fresh (hw : Watching R s) {ctx : ExceptionContext}
    {order : List (Σ _ : ℕ, MonitorEntry)} {f : Found} (horder : order.Perm s.monitors.entries)
    (hscan : scan ctx.faultAddress order = some f) (hapart : Apart s (.check ctx order)) :
    ∀ ctx' f', R ctx' f' → f'.target ≠ f.target := by
  obtain ⟨hlive, hmem, hwatch⟩ := scan_found horder hscan
  intro ctx' f' hR heq
  have hkey : f'.key = f.key := congrArg Prod.fst heq
  obtain ⟨x, hx, hstage, htarget⟩ := hw.unfired hR (by rw [hkey]; exact hlive) hmem
    (congrArg Prod.snd heq).symm hwatch.1
  exact hapart f hscan x hx hstage (htarget.trans heq)

/-- A fault is raised, and its handler begins. -/
theorem Watching.raise (hw : Watching R s) {ctx : ExceptionContext}
    {order : List (Σ _ : ℕ, MonitorEntry)} {f : Found} (horder : order.Perm s.monitors.entries)
    (hscan : scan ctx.faultAddress order = some f) :
    Watching (fun ctx' f' => R ctx' f' ∨ (ctx' = ctx ∧ f' = f))
      { s with handlers := ⟨ctx, f, .found⟩ :: s.handlers } := by
  obtain ⟨hlive, -, -⟩ := scan_found horder hscan
  refine ⟨hw.registered, ?_, ?_, ?_, ?_, ?_⟩
  · rintro ctx' f' (hR | ⟨rfl, rfl⟩)
    · exact hw.raised_id hR
    · exact ⟨hw.registered.id_eq hlive, hw.registered.below hlive⟩
  · rintro ctx' f' m (hR | ⟨rfl, rfl⟩) hlookup
    · exact hw.owner hR hlookup
    · rw [hlive] at hlookup
      cases hlookup
      rfl
  · rintro ctx' f' m r (hR | ⟨rfl, rfl⟩) hlookup hr hindex hfired
    · obtain ⟨x, hx, hstage, htarget⟩ := hw.unfired hR hlookup hr hindex hfired
      exact ⟨x, List.mem_cons_of_mem _ hx, hstage, htarget⟩
    · exact ⟨_, List.mem_cons_self, rfl, rfl⟩
  · intro x hx
    rcases List.mem_cons.mp hx with rfl | hx
    · exact .inr ⟨rfl, rfl⟩
    · exact .inl (hw.begun x hx)
  · intro x hx
    rcases List.mem_cons.mp hx with rfl | hx
    · exact ⟨_, hlive⟩
    · exact hw.live x hx

theorem mem_fireRange {r : WatchedRange} {i : ℕ} {m : MonitorEntry}
    (hr : r ∈ (fireRange i m).ranges) (hfired : r.fired = false) :
    r ∈ m.ranges ∧ r.rangeIndex ≠ i := by
  obtain ⟨r₀, hmem, heq⟩ := List.mem_map.mp hr
  by_cases hindex : r₀.rangeIndex = i
  · rw [if_pos hindex] at heq
    subst heq
    cases hfired
  · rw [if_neg hindex] at heq
    subst heq
    exact ⟨hmem, hindex⟩

theorem indices_fireRange (i : ℕ) (m : MonitorEntry) :
    (fireRange i m).ranges.map WatchedRange.rangeIndex =
      m.ranges.map WatchedRange.rangeIndex := by
  simp only [fireRange, List.map_map]
  refine List.map_congr_left fun r _ => ?_
  by_cases hindex : r.rangeIndex = i <;> simp [hindex]

/-- A handler marks its range: from now on the others find it fired. -/
theorem Watching.markFired (hw : Watching R s) (hmem : h ∈ s.handlers) :
    Watching R (MemoryAccessMonitor.markFired h s) := by
  obtain ⟨m, hm⟩ := hw.live h hmem
  have hmonitors : (MemoryAccessMonitor.markFired h s).monitors =
      s.monitors.insert h.found.key (fireRange h.found.range.rangeIndex m) := by
    show fireIn h.found s.monitors = _
    rw [fireIn, hm]
  have hid : m.id = h.found.key := hw.registered.id_eq hm
  have hregistered : Registered (MemoryAccessMonitor.markFired h s).toMonitorState := by
    refine hw.registered.insert hmonitors rfl le_rfl hid (hw.registered.below hm) ?_
    rw [indices_fireRange]
    exact hw.registered.indices hm
  have hlive : ∀ {k m'}, s.monitors.lookup k = some m' →
      ∃ m'', (MemoryAccessMonitor.markFired h s).monitors.lookup k = some m'' := by
    intro k m' hlookup
    rw [hmonitors]
    by_cases hk : k = h.found.key
    · exact ⟨_, by rw [hk]; exact AList.lookup_insert _⟩
    · exact ⟨m', (AList.lookup_insert_ne hk).trans hlookup⟩
  refine ⟨hregistered, hw.raised_id, ?_, ?_, ?_, ?_⟩
  · intro ctx f m' hR hlookup
    rw [hmonitors] at hlookup
    rcases lookup_insert_cases hlookup with ⟨hk, rfl⟩ | ⟨-, hold⟩
    · have hold : s.monitors.lookup f.key = some m := by rw [hk]; exact hm
      have howner := hw.owner hR hold
      exact howner
    · exact hw.owner hR hold
  · intro ctx f m' r hR hlookup hr hindex hfired
    -- a range that is still unfired is not the one that was marked, so its handler is another
    have hother : ∃ x ∈ s.handlers, x.stage = .found ∧ x.found.target = f.target ∧
        x.found.target ≠ h.found.target := by
      rw [hmonitors] at hlookup
      rcases lookup_insert_cases hlookup with ⟨hk, rfl⟩ | ⟨hk, hold⟩
      · obtain ⟨hr', hne⟩ := mem_fireRange hr hfired
        have hold : s.monitors.lookup f.key = some m := by rw [hk]; exact hm
        obtain ⟨x, hx, hstage, htarget⟩ := hw.unfired hR hold hr' hindex hfired
        refine ⟨x, hx, hstage, htarget, fun heq => hne (hindex.trans ?_)⟩
        exact congrArg Prod.snd (htarget.symm.trans heq)
      · obtain ⟨x, hx, hstage, htarget⟩ := hw.unfired hR hold hr hindex hfired
        exact ⟨x, hx, hstage, htarget, fun heq =>
          hk (congrArg Prod.fst (htarget.symm.trans heq))⟩
    obtain ⟨x, hx, hstage, htarget, hne⟩ := hother
    refine ⟨x, List.mem_cons_of_mem _ ((List.mem_erase_of_ne ?_).mpr hx), hstage, htarget⟩
    rintro rfl
    exact hne rfl
  · intro x hx
    rcases List.mem_cons.mp hx with rfl | hx
    · exact hw.begun h hmem
    · exact hw.begun x (List.mem_of_mem_erase hx)
  · intro x hx
    rcases List.mem_cons.mp hx with rfl | hx
    · exact hlive hm
    · obtain ⟨m', hm'⟩ := hw.live x (List.mem_of_mem_erase hx)
      exact hlive hm'

end Watch

/-! ## §3  The ring -/

/-- What the script's thread has read of an entry. -/
def Looked (R : ExceptionContext → Found → Prop) (e : Event) : Reading → Prop
  | .looking => True
  | .arguments m left read => ∃ ctx f, R ctx f ∧ e = f.event ctx ∧ m.id = f.monitor.id ∧
      m.onAccess = f.monitor.onAccess ∧
      ∀ field ∈ argumentFields, field ∉ left → Agree e read field

/-- A slot has one handler at most, which has written the fields it is past, and a ready slot
without a handler holds what was raised. -/
structure Filed (R : ExceptionContext → Found → Prop) (s : ThreadedState) : Prop where
  written : ∀ h ∈ s.handlers, ∀ {idx left}, h.stage = .writing idx left → ∀ field ∉ left,
    Agree h.event (s.ring.entries (slotOf idx)).event field
  exclusive : s.handlers.Pairwise fun h h' => ∀ slot, ¬ (h.Writes slot ∧ h'.Writes slot)
  noted : ∀ {slot}, (s.ring.entries slot).ready = true → s.Free slot →
    ∃ ctx f, R ctx f ∧ (s.ring.entries slot).event = f.event ctx
  reading : ∀ {r}, s.reading = some r → ∃ call readIdx writeIdx,
    s.js = .draining call readIdx writeIdx ∧
    (s.ring.entries (slotOf readIdx)).ready = true ∧ s.Free (slotOf readIdx) ∧
    Looked R (s.ring.entries (slotOf readIdx)).event r

section Ring

variable {s t : ThreadedState} {h : Handler} {R : ExceptionContext → Found → Prop}
  {slot : Fin 256}

theorem not_writes {h : Handler} (hstage : ∀ idx left, h.stage ≠ .writing idx left)
    (slot : Fin 256) : ¬ h.Writes slot := by
  rintro ⟨idx, left, heq, -⟩
  exact hstage idx left heq

theorem writes_writing {h : Handler} {idx : BitVec 32} {left : List Field}
    (hstage : h.stage = .writing idx left) : h.Writes slot ↔ slotOf idx = slot := by
  simp [Handler.Writes, hstage]

/-- The handlers but one. -/
theorem free_iff_erase (hmem : h ∈ s.handlers) :
    s.Free slot ↔ ¬ h.Writes slot ∧ ∀ x ∈ s.handlers.erase h, ¬ x.Writes slot := by
  constructor
  · intro hfree
    exact ⟨hfree h hmem, fun x hx => hfree x (List.mem_of_mem_erase hx)⟩
  · rintro ⟨hh, hrest⟩ x hx
    rcases List.mem_cons.mp ((List.perm_cons_erase hmem).mem_iff.mp hx) with rfl | hx
    · exact hh
    · exact hrest x hx

/-- A slot that a handler writes no other handler does. -/
theorem Filed.others (hf : Filed R s) (hmem : h ∈ s.handlers) (hwrites : h.Writes slot) :
    ∀ x ∈ s.handlers.erase h, ¬ x.Writes slot := by
  have hsymm : ∀ {x y : Handler}, (∀ slot, ¬ (x.Writes slot ∧ y.Writes slot)) →
      ∀ slot, ¬ (y.Writes slot ∧ x.Writes slot) := fun hxy slot hyx => hxy slot hyx.symm
  have hpairs := ((List.perm_cons_erase hmem).pairwise_iff hsymm).mp hf.exclusive
  intro x hx hother
  exact (List.pairwise_cons.mp hpairs).1 x hx slot ⟨hwrites, hother⟩

/-- A change of the handlers that leaves the writers alone. -/
theorem Filed.quiet (hf : Filed R s)
    (hwriters : ∀ x ∈ t.handlers, ∀ {idx left}, x.stage = .writing idx left → x ∈ s.handlers)
    (hexclusive : t.handlers.Pairwise fun h h' => ∀ slot, ¬ (h.Writes slot ∧ h'.Writes slot))
    (hfree : ∀ slot, t.Free slot ↔ s.Free slot) (hentries : t.ring.entries = s.ring.entries)
    (hreading : t.reading = none ∨ (t.reading = s.reading ∧ t.js = s.js)) : Filed R t where
  written x hx _ _ hstage field hfield := by
    rw [hentries]
    exact hf.written x (hwriters x hx hstage) hstage field hfield
  exclusive := hexclusive
  noted hready hslot := by
    rw [hentries] at hready ⊢
    exact hf.noted hready ((hfree _).mp hslot)
  reading hr := by
    rcases hreading with hnone | ⟨hsame, hjs⟩
    · rw [hnone] at hr
      cases hr
    · obtain ⟨call, readIdx, writeIdx, hdraining, hready, hslot, hlooked⟩ :=
        hf.reading (hsame ▸ hr)
      exact ⟨call, readIdx, writeIdx, hjs.trans hdraining, hentries ▸ hready,
        (hfree _).mpr hslot, hentries ▸ hlooked⟩

/-- A handler that writes nothing goes on to a stage where it writes nothing. -/
theorem Filed.moved (hf : Filed R s) (hmem : h ∈ s.handlers)
    (hstage : ∀ idx left, h.stage ≠ .writing idx left) {h' : Handler}
    (hstage' : ∀ idx left, h'.stage ≠ .writing idx left)
    (hhandlers : t.handlers = h' :: s.handlers.erase h) (hentries : t.ring.entries = s.ring.entries)
    (hreading : t.reading = s.reading) (hjs : t.js = s.js) : Filed R t := by
  refine hf.quiet ?_ ?_ ?_ hentries (.inr ⟨hreading, hjs⟩)
  · intro x hx idx left hx'
    rw [hhandlers] at hx
    rcases List.mem_cons.mp hx with rfl | hx
    · exact absurd hx' (hstage' idx left)
    · exact List.mem_of_mem_erase hx
  · rw [hhandlers, List.pairwise_cons]
    refine ⟨fun x _ slot hboth => not_writes hstage' slot hboth.1, ?_⟩
    exact hf.exclusive.sublist List.erase_sublist
  · intro slot
    rw [free_iff_erase hmem, ThreadedState.Free, hhandlers, List.forall_mem_cons]
    simp only [not_writes hstage slot, not_writes hstage' slot]

theorem Filed.raise (hf : Filed R s) (hnew : ∀ idx left, h.stage ≠ .writing idx left)
    (hhandlers : t.handlers = h :: s.handlers) (hentries : t.ring.entries = s.ring.entries)
    (hreading : t.reading = s.reading) (hjs : t.js = s.js) : Filed R t := by
  refine hf.quiet ?_ ?_ ?_ hentries (.inr ⟨hreading, hjs⟩)
  · intro x hx idx left hx'
    rw [hhandlers] at hx
    rcases List.mem_cons.mp hx with rfl | hx
    · exact absurd hx' (hnew idx left)
    · exact hx
  · rw [hhandlers, List.pairwise_cons]
    exact ⟨fun x _ slot hboth => not_writes hnew slot hboth.1, hf.exclusive⟩
  · intro slot
    rw [ThreadedState.Free, hhandlers, List.forall_mem_cons]
    simp only [not_writes hnew slot, not_false_eq_true, true_and]
    rfl

/-- More faults were raised. -/
theorem Filed.mono {R' : ExceptionContext → Found → Prop} (hf : Filed R s)
    (hle : ∀ ctx f, R ctx f → R' ctx f) : Filed R' s where
  written := hf.written
  exclusive := hf.exclusive
  noted hready hfree := by
    obtain ⟨ctx, f, hR, heq⟩ := hf.noted hready hfree
    exact ⟨ctx, f, hle ctx f hR, heq⟩
  reading {r} hr := by
    obtain ⟨call, readIdx, writeIdx, hjs, hready, hfree, hlooked⟩ := hf.reading hr
    refine ⟨call, readIdx, writeIdx, hjs, hready, hfree, ?_⟩
    cases r with
    | looking => trivial
    | arguments m left read =>
        obtain ⟨ctx, f, hR, hrest⟩ := hlooked
        exact ⟨ctx, f, hle ctx f hR, hrest⟩

/-- The slots of a handler that goes on. -/
theorem free_moveTo {stage : Stage}
    (hhandlers : t.handlers = { h with stage := stage } :: s.handlers.erase h) :
    t.Free slot ↔ ¬ ({ h with stage := stage } : Handler).Writes slot ∧
      ∀ x ∈ s.handlers.erase h, ¬ x.Writes slot := by
  rw [ThreadedState.Free, hhandlers, List.forall_mem_cons]

theorem free_takeIndex (hmem : h ∈ s.handlers) (hstage : ∀ idx left, h.stage ≠ .writing idx left) :
    (takeIndex h s).Free slot ↔ slotOf s.ring.writeIdx ≠ slot ∧ s.Free slot := by
  rw [free_iff_erase hmem, free_moveTo rfl, writes_writing rfl]
  simp only [not_writes hstage slot, not_false_eq_true, true_and, ne_eq]

theorem free_writeField (hmem : h ∈ s.handlers) {idx : BitVec 32} {field : Field}
    {left : List Field} (hstage : h.stage = .writing idx (field :: left)) {stale : Found} :
    (writeField h idx field left stale s).Free slot ↔ s.Free slot := by
  rw [free_iff_erase hmem, free_moveTo rfl, writes_writing rfl, writes_writing hstage]

theorem free_storeReady (hmem : h ∈ s.handlers) {idx : BitVec 32}
    (hstage : h.stage = .writing idx []) (hslot : slot ≠ slotOf idx) :
    (storeReady h idx s).Free slot ↔ s.Free slot := by
  rw [free_iff_erase hmem, writes_writing hstage]
  exact ⟨fun hall => ⟨hslot.symm, hall⟩, fun hall => hall.2⟩

/-- A handler takes a slot that nobody uses. -/
theorem Filed.takeIndex (hf : Filed R s) (hmem : h ∈ s.handlers)
    (hstage : ∀ idx left, h.stage ≠ .writing idx left)
    (hreads : ¬ s.Reads (slotOf s.ring.writeIdx)) (hfree : s.Free (slotOf s.ring.writeIdx)) :
    Filed R (MemoryAccessMonitor.takeIndex h s) := by
  refine ⟨?_, ?_, ?_, ?_⟩
  · intro x hx idx left hx' field hfield
    rcases List.mem_cons.mp hx with rfl | hx
    · cases hx'
      exact absurd (by cases field <;> decide) hfield
    · exact hf.written x (List.mem_of_mem_erase hx) hx' field hfield
  · refine List.pairwise_cons.mpr ⟨?_, hf.exclusive.sublist List.erase_sublist⟩
    rintro x hx slot ⟨hnew, hold⟩
    rw [writes_writing rfl] at hnew
    exact hfree x (List.mem_of_mem_erase hx) (hnew ▸ hold)
  · intro slot hready hslot
    exact hf.noted hready ((free_takeIndex hmem hstage).mp hslot).2
  · intro r hr
    obtain ⟨call, readIdx, writeIdx, hjs, hready, hslot, hlooked⟩ := hf.reading hr
    refine ⟨{ call with alone := false }, readIdx, writeIdx, ?_, hready, ?_, hlooked⟩
    · show s.js.disturb = _
      rw [hjs]
      rfl
    · refine (free_takeIndex hmem hstage).mpr
        ⟨fun heq => hreads ⟨?_, call, readIdx, writeIdx, hjs, heq.symm⟩, hslot⟩
      rw [show s.reading = some r from hr]
      exact Option.some_ne_none r

/-- A handler writes a field into its slot. -/
theorem Filed.writeField (hf : Filed R s) (hmem : h ∈ s.handlers) {idx : BitVec 32}
    {field : Field} {left : List Field} (hstage : h.stage = .writing idx (field :: left))
    {m : MonitorEntry} (hlive : s.monitors.lookup h.found.key = some m) (stale : Found) :
    Filed R (MemoryAccessMonitor.writeField h idx field left stale s) := by
  have hothers := hf.others hmem ((writes_writing hstage).mpr rfl)
  have hview : (h.view stale s).event h.ctx = h.event := by
    simp [Handler.view, hlive, Handler.event]
  have hentry : ∀ slot, slot ≠ slotOf idx →
      (MemoryAccessMonitor.writeField h idx field left stale s).ring.entries slot =
        s.ring.entries slot := fun slot hne => Function.update_of_ne hne _ _
  have hown : (MemoryAccessMonitor.writeField h idx field left stale s).ring.entries (slotOf idx) =
      { s.ring.entries (slotOf idx) with
        event := h.event.copyField field (s.ring.entries (slotOf idx)).event } := by
    rw [← hview]
    exact Function.update_self _ _ _
  have hne_of_free : ∀ {slot}, s.Free slot → slot ≠ slotOf idx := by
    rintro slot hslot rfl
    exact hslot h hmem ((writes_writing hstage).mpr rfl)
  refine ⟨?_, ?_, ?_, ?_⟩
  · intro x hx idx' left' hx' other hother
    rcases List.mem_cons.mp hx with rfl | hx
    · cases hx'
      rw [hown]
      by_cases heq : other = field
      · subst heq
        exact agree_copyField_self
      · exact agree_copyField (hf.written h hmem hstage other (by simp [heq, hother]))
    · have hne : slotOf idx' ≠ slotOf idx := fun heq =>
        hothers x hx ((writes_writing hx').mpr heq)
      rw [hentry _ hne]
      exact hf.written x (List.mem_of_mem_erase hx) hx' other hother
  · refine List.pairwise_cons.mpr ⟨?_, hf.exclusive.sublist List.erase_sublist⟩
    rintro x hx slot ⟨hnew, hold⟩
    rw [writes_writing rfl] at hnew
    exact hothers x hx (hnew ▸ hold)
  · intro slot hready hslot
    have hslot' := (free_writeField hmem hstage).mp hslot
    rw [hentry _ (hne_of_free hslot')] at hready ⊢
    exact hf.noted hready hslot'
  · intro r hr
    obtain ⟨call, readIdx, writeIdx, hjs, hready, hslot, hlooked⟩ := hf.reading hr
    refine ⟨call, readIdx, writeIdx, hjs, ?_, (free_writeField hmem hstage).mpr hslot, ?_⟩
    · rw [hentry _ (hne_of_free hslot)]
      exact hready
    · rw [hentry _ (hne_of_free hslot)]
      exact hlooked

/-- The entry is written: from now on it is what the fault was. -/
theorem Filed.storeReady (hf : Filed R s) (hmem : h ∈ s.handlers) {idx : BitVec 32}
    (hstage : h.stage = .writing idx []) (hbegun : R h.ctx h.found) :
    Filed R (MemoryAccessMonitor.storeReady h idx s) := by
  have hothers := hf.others hmem ((writes_writing hstage).mpr rfl)
  have hevent : h.event = (s.ring.entries (slotOf idx)).event :=
    eq_of_agree fun field => hf.written h hmem hstage field (by simp)
  have hentry : ∀ slot, slot ≠ slotOf idx →
      (MemoryAccessMonitor.storeReady h idx s).ring.entries slot = s.ring.entries slot :=
    fun slot hne => Function.update_of_ne hne _ _
  have hown : (MemoryAccessMonitor.storeReady h idx s).ring.entries (slotOf idx) =
      { s.ring.entries (slotOf idx) with ready := true } := Function.update_self _ _ _
  refine ⟨?_, hf.exclusive.sublist List.erase_sublist, ?_, ?_⟩
  · intro x hx idx' left' hx' field hfield
    have hne : slotOf idx' ≠ slotOf idx := fun heq =>
      hothers x hx ((writes_writing hx').mpr heq)
    rw [hentry _ hne]
    exact hf.written x (List.mem_of_mem_erase hx) hx' field hfield
  · intro slot hready hslot
    by_cases heq : slot = slotOf idx
    · subst heq
      rw [hown]
      exact ⟨h.ctx, h.found, hbegun, hevent.symm⟩
    · rw [hentry _ heq] at hready ⊢
      exact hf.noted hready ((free_storeReady hmem hstage heq).mp hslot)
  · intro r hr
    obtain ⟨call, readIdx, writeIdx, hjs, hready, hslot, hlooked⟩ := hf.reading hr
    have hne : slotOf readIdx ≠ slotOf idx := fun heq =>
      hslot h hmem ((writes_writing hstage).mpr heq.symm)
    refine ⟨call, readIdx, writeIdx, hjs, ?_, (free_storeReady hmem hstage hne).mpr hslot, ?_⟩
    · rw [hentry _ hne]
      exact hready
    · rw [hentry _ hne]
      exact hlooked

/-- Outside the loop nothing is being read. -/
theorem Filed.reading_eq_none (hf : Filed R s)
    (hjs : ∀ call readIdx writeIdx, s.js ≠ .draining call readIdx writeIdx) : s.reading = none := by
  cases hreading : s.reading with
  | none => rfl
  | some r =>
      obtain ⟨call, readIdx, writeIdx, hdraining, -⟩ := hf.reading hreading
      exact absurd hdraining (hjs call readIdx writeIdx)

/-- The script's thread does not write entries here. -/
theorem Filed.congr (hf : Filed R s) (hhandlers : t.handlers = s.handlers)
    (hentries : t.ring.entries = s.ring.entries)
    (hreading : t.reading = none ∨ (t.reading = s.reading ∧ t.js = s.js)) : Filed R t := by
  refine hf.quiet ?_ ?_ ?_ hentries hreading
  · intro x hx _ _ _
    exact hhandlers ▸ hx
  · exact hhandlers ▸ hf.exclusive
  · intro slot
    rw [ThreadedState.Free, hhandlers, ThreadedState.Free]

/-- The entry that was read is given back. -/
theorem Filed.clearRead (hf : Filed R s) (call : Call) (readIdx writeIdx : BitVec 32) :
    Filed R (MemoryAccessMonitor.clearRead call readIdx writeIdx s) := by
  have hentry : ∀ slot, slot ≠ slotOf readIdx →
      (MemoryAccessMonitor.clearRead call readIdx writeIdx s).ring.entries slot =
        s.ring.entries slot := fun slot hne => Function.update_of_ne hne _ _
  have hown :
      (MemoryAccessMonitor.clearRead call readIdx writeIdx s).ring.entries (slotOf readIdx) =
      { s.ring.entries (slotOf readIdx) with ready := false } := Function.update_self _ _ _
  refine ⟨?_, hf.exclusive, ?_, fun hr => by cases hr⟩
  · intro x hx idx left hx' field hfield
    have hold := hf.written x hx hx' field hfield
    by_cases heq : slotOf idx = slotOf readIdx
    · rw [heq] at hold ⊢
      rw [hown]
      exact hold
    · rw [hentry _ heq]
      exact hold
  · intro slot hready hslot
    by_cases heq : slot = slotOf readIdx
    · subst heq
      rw [hown] at hready
      cases hready
    · rw [hentry _ heq] at hready ⊢
      exact hf.noted hready hslot

theorem Filed.loadReady (hf : Filed R s) {call : Call} {readIdx writeIdx : BitVec 32}
    (hjs : s.js = .draining call readIdx writeIdx) (hreading : s.reading = none)
    (hapart : Apart s .loadReady) :
    Filed R (MemoryAccessMonitor.loadReady call readIdx writeIdx s) := by
  unfold MemoryAccessMonitor.loadReady
  split_ifs with hend hready
  · exact hf.congr rfl rfl (.inl hreading)
  · exact hf.congr rfl rfl (.inl hreading)
  · have hready' : (s.ring.entries (slotOf readIdx)).ready = true := by simpa using hready
    refine ⟨hf.written, hf.exclusive, hf.noted, ?_⟩
    rintro r ⟨⟩
    exact ⟨call, readIdx, writeIdx, hjs, hready', hapart call readIdx writeIdx hjs hend hready',
      trivial⟩

/-- The monitor that is found is the one the entry was noted for: identifiers are not reused. -/
theorem Filed.findMonitor (hf : Filed R s) (hw : Watching R s) {call : Call}
    {readIdx writeIdx : BitVec 32} (hjs : s.js = .draining call readIdx writeIdx)
    (hreading : s.reading = some .looking) :
    Filed R (MemoryAccessMonitor.findMonitor call readIdx writeIdx s) := by
  unfold MemoryAccessMonitor.findMonitor
  cases hlookup : s.monitors.lookup (s.ring.entries (slotOf readIdx)).event.monitorId with
  | none => exact hf.clearRead call readIdx writeIdx
  | some m =>
      obtain ⟨call', readIdx', writeIdx', hjs', hready, hslot, -⟩ := hf.reading hreading
      rw [hjs] at hjs'
      cases hjs'
      obtain ⟨ctx, f, hR, hevent⟩ := hf.noted hready hslot
      have hid : f.monitor.id = f.key := (hw.raised_id hR).1
      rw [hevent] at hlookup
      have hlive : s.monitors.lookup f.key = some m := by rw [← hid]; exact hlookup
      refine ⟨hf.written, hf.exclusive, hf.noted, ?_⟩
      rintro r ⟨⟩
      refine ⟨call, readIdx, writeIdx, hjs, hready, hslot, ctx, f, hR, hevent, ?_,
        hw.owner hR hlive, fun field hfield hleft => absurd hfield hleft⟩
      exact (hw.registered.id_eq hlive).trans hid.symm

theorem Filed.readField (hf : Filed R s) {call : Call} {readIdx writeIdx : BitVec 32}
    {m : MonitorEntry} {left : List Field} {read : Event} {field : Field}
    (hjs : s.js = .draining call readIdx writeIdx)
    (hreading : s.reading = some (.arguments m left read)) :
    Filed R (MemoryAccessMonitor.readField m readIdx field left read s) := by
  obtain ⟨call', readIdx', writeIdx', hjs', hready, hslot, ctx, f, hR, hevent, hid, honAccess,
    hagree⟩ := hf.reading hreading
  rw [hjs] at hjs'
  cases hjs'
  refine ⟨hf.written, hf.exclusive, hf.noted, ?_⟩
  rintro r ⟨⟩
  refine ⟨call, readIdx, writeIdx, hjs, hready, hslot, ctx, f, hR, hevent, hid, honAccess, ?_⟩
  intro other hother hleft
  by_cases heq : other = field
  · subst heq
    exact agree_copyField_self
  · exact agree_copyField (hagree other hother fun hmem =>
      hleft ((List.mem_erase_of_ne heq).mpr hmem))

end Ring

/-! ## §4  The account -/

/-- The slot whose event is with the callback. -/
def current : JsThread → Option (Fin 256)
  | .inCallback _ readIdx _ => some (slotOf readIdx)
  | _ => none

/-- Ready entries that no handler writes, without the one a callback was already called for. -/
def unread (s : ThreadedState) : Fin 256 → Option Event := fun slot =>
  if (s.ring.entries slot).ready = true ∧ current s.js ≠ some slot ∧ s.Free slot then
    some (s.ring.entries slot).event
  else none

/-- Keys of the calls made, of the entries to be read and of the handlers in progress. -/
def outstanding (s : ThreadedState) : Multiset (ℕ × ℕ) :=
  (s.delivered.map Invocation.key : Multiset (ℕ × ℕ)) + (contents (unread s)).map Event.key +
    (s.handlers.map (fun h => h.found.target) : Multiset (ℕ × ℕ))

/-- Whatever is called, to be read or in progress was raised, and once only. -/
structure Accounted (R : ExceptionContext → Found → Prop) (s : ThreadedState) : Prop where
  watching : Watching R s
  filed : Filed R s
  called : ∀ v ∈ s.delivered, ∃ ctx f, R ctx f ∧ v = f.monitor.invocation (f.event ctx)
  once : (outstanding s).Nodup

section Account

variable {page : PageSize} {os : Os} {s t : ThreadedState} {h : Handler}
  {R : ExceptionContext → Found → Prop}

theorem unread_congr (hentries : t.ring.entries = s.ring.entries)
    (hcurrent : current t.js = current s.js) (hfree : ∀ slot, t.Free slot ↔ s.Free slot) :
    unread t = unread s := by
  funext slot
  simp only [unread, hentries, hcurrent, hfree]

/-- One slot apart the unread entries are the same. -/
theorem unread_update {slot : Fin 256}
    (hentries : ∀ k, k ≠ slot → t.ring.entries k = s.ring.entries k)
    (hcurrent : ∀ k, k ≠ slot → (current t.js = some k ↔ current s.js = some k))
    (hfree : ∀ k, k ≠ slot → (t.Free k ↔ s.Free k)) :
    unread t = Function.update (unread s) slot (unread t slot) := by
  funext k
  by_cases hk : k = slot
  · rw [hk, Function.update_self]
  · rw [Function.update_of_ne hk]
    simp only [unread, hentries k hk, hfree k hk, ne_eq, hcurrent k hk]

/-- Nothing comes into the account. -/
theorem outstanding_le (hdelivered : t.delivered = s.delivered)
    (hunread : contents (unread t) ≤ contents (unread s))
    (hhandlers : (t.handlers.map fun h => h.found.target).Perm
      (s.handlers.map fun h => h.found.target)) : outstanding t ≤ outstanding s := by
  unfold outstanding
  rw [hdelivered, Multiset.coe_eq_coe.mpr hhandlers]
  exact add_le_add (add_le_add le_rfl (Multiset.map_le_map hunread)) le_rfl

theorem map_target_moveTo (hmem : h ∈ s.handlers) {stage : Stage} :
    (({ h with stage := stage } :: s.handlers.erase h).map fun h => h.found.target).Perm
      (s.handlers.map fun h => h.found.target) :=
  ((List.perm_cons_erase hmem).map fun h => h.found.target).symm

/-- A key of the account was raised. -/
theorem Accounted.raised_of_outstanding (ha : Accounted R s) {k : ℕ × ℕ}
    (hk : k ∈ outstanding s) : ∃ ctx f, R ctx f ∧ f.target = k := by
  have hkey : ∀ {ctx f}, R ctx f → (f.event ctx).key = f.target := by
    intro ctx f hR
    show (f.monitor.id, _) = (f.key, _)
    rw [(ha.watching.raised_id hR).1]
    rfl
  simp only [outstanding, Multiset.mem_add, Multiset.mem_coe, List.mem_map, Multiset.mem_map]
    at hk
  rcases hk with (⟨v, hv, rfl⟩ | ⟨e, he, rfl⟩) | ⟨x, hx, rfl⟩
  · obtain ⟨ctx, f, hR, rfl⟩ := ha.called v hv
    exact ⟨ctx, f, hR, (hkey hR).symm⟩
  · rw [mem_contents] at he
    obtain ⟨slot, hslot⟩ := he
    unfold unread at hslot
    split at hslot
    · rename_i hready
      obtain ⟨ctx, f, hR, heq⟩ := ha.filed.noted hready.1 hready.2.2
      refine ⟨ctx, f, hR, ?_⟩
      rw [← Option.some.inj hslot, heq, hkey hR]
    · cases hslot
  · exact ⟨x.ctx, x.found, ha.watching.begun x hx, rfl⟩

theorem Accounted.start (exc : ExceptionState) (prot : Addr → Prot) :
    Accounted (fun _ _ => False) (.start exc prot) where
  watching :=
    { registered := .start exc prot
      raised_id := False.elim
      owner := fun hR => False.elim hR
      unfired := fun hR => False.elim hR
      begun := by simp [ThreadedState.start]
      live := by simp [ThreadedState.start] }
  filed :=
    { written := by simp [ThreadedState.start]
      exclusive := List.Pairwise.nil
      noted := fun hready => by cases hready
      reading := fun hr => by cases hr }
  called := by simp [ThreadedState.start, MonitorState.start]
  once := by
    have hnone : unread (.start exc prot) = fun _ => none := rfl
    rw [outstanding, hnone, contents_none]
    simp [ThreadedState.start, MonitorState.start]

/-- Steps that take nothing into the account. -/
theorem Accounted.frame (ha : Accounted R s) (hwatching : Watching R t) (hfiled : Filed R t)
    (hdelivered : t.delivered = s.delivered) (hunread : contents (unread t) ≤ contents (unread s))
    (hhandlers : (t.handlers.map fun h => h.found.target).Perm
      (s.handlers.map fun h => h.found.target)) : Accounted R t where
  watching := hwatching
  filed := hfiled
  called := hdelivered ▸ ha.called
  once := Multiset.nodup_of_le (outstanding_le hdelivered hunread hhandlers) ha.once

/-- Steps of the script's thread outside the loop. -/
theorem Accounted.outside (ha : Accounted R s) (hwatching : Watching R t)
    (hjs : ∀ call readIdx writeIdx, s.js ≠ .draining call readIdx writeIdx)
    (hentries : t.ring.entries = s.ring.entries) (hcurrent : current t.js = current s.js)
    (hhandlers : t.handlers = s.handlers) (hreading : t.reading = s.reading)
    (hdelivered : t.delivered = s.delivered) : Accounted R t := by
  have hnone := hreading.trans (ha.filed.reading_eq_none hjs)
  have hfree : ∀ slot, t.Free slot ↔ s.Free slot := fun slot => by
    rw [ThreadedState.Free, hhandlers, ThreadedState.Free]
  refine ha.frame hwatching (ha.filed.congr hhandlers hentries (.inl hnone)) hdelivered ?_ ?_
  · rw [unread_congr hentries hcurrent hfree]
  · rw [hhandlers]

/-- A fault whose check finds a range begins a handler. -/
theorem Accounted.raise (ha : Accounted R s) {ctx : ExceptionContext}
    {order : List (Σ _ : ℕ, MonitorEntry)} {f : Found} (horder : order.Perm s.monitors.entries)
    (hscan : scan ctx.faultAddress order = some f) (hapart : Apart s (.check ctx order)) :
    Accounted (fun ctx' f' => R ctx' f' ∨ (ctx' = ctx ∧ f' = f))
      { s with handlers := ⟨ctx, f, .found⟩ :: s.handlers } := by
  have hnew : ∀ idx left, (⟨ctx, f, .found⟩ : Handler).stage ≠ .writing idx left :=
    fun _ _ heq => by cases heq
  have hfresh : f.target ∉ outstanding s := by
    intro hmem
    obtain ⟨ctx', f', hR, htarget⟩ := ha.raised_of_outstanding hmem
    exact ha.watching.fresh horder hscan hapart ctx' f' hR htarget
  refine ⟨ha.watching.raise horder hscan,
    (ha.filed.mono fun _ _ => Or.inl).raise hnew rfl rfl rfl rfl, ?_, ?_⟩
  · intro v hv
    obtain ⟨ctx', f', hR, heq⟩ := ha.called v hv
    exact ⟨ctx', f', .inl hR, heq⟩
  · have hunread : unread { s with handlers := ⟨ctx, f, .found⟩ :: s.handlers } = unread s := by
      refine unread_congr rfl rfl fun slot => ?_
      rw [ThreadedState.Free, List.forall_mem_cons]
      exact and_iff_right (not_writes hnew slot)
    have hsplit : outstanding { s with handlers := ⟨ctx, f, .found⟩ :: s.handlers } =
        f.target ::ₘ outstanding s := by
      rw [outstanding, hunread, List.map_cons, ← Multiset.cons_coe, Multiset.add_cons]
      rfl
    rw [hsplit]
    exact Multiset.nodup_cons.mpr ⟨hfresh, ha.once⟩

/-- A handler that neither begins nor ends to write. -/
theorem Accounted.moved (ha : Accounted R s) (hmem : h ∈ s.handlers)
    (hwriting : ∀ idx left, h.stage ≠ .writing idx left) {stage : Stage}
    (hstage : ∀ idx left, stage ≠ .writing idx left) (hwatching : Watching R t)
    (hhandlers : t.handlers = { h with stage := stage } :: s.handlers.erase h)
    (hring : t.ring = s.ring) (hreading : t.reading = s.reading) (hjs : t.js = s.js)
    (hdelivered : t.delivered = s.delivered) : Accounted R t := by
  have hfree : ∀ slot, t.Free slot ↔ s.Free slot := by
    intro slot
    rw [free_iff_erase hmem, free_moveTo hhandlers]
    simp only [not_writes hwriting slot, not_writes (h := { h with stage := stage }) hstage slot]
  refine ha.frame hwatching ?_ hdelivered ?_ (hhandlers ▸ map_target_moveTo hmem)
  · exact ha.filed.moved hmem hwriting hstage hhandlers (by rw [hring]) hreading hjs
  · rw [unread_congr (by rw [hring]) (by rw [hjs]) hfree]

theorem current_disturb (js : JsThread) : current js.disturb = current js := by
  cases js <;> rfl

/-- Whatever was in the slot that is taken leaves the account. -/
theorem Accounted.takeIndex (ha : Accounted R s) (hmem : h ∈ s.handlers)
    (hstage : h.stage = .opened) (hapart : Apart s (.takeIndex h)) :
    Accounted R (MemoryAccessMonitor.takeIndex h s) := by
  have hwriting : ∀ idx left, h.stage ≠ .writing idx left := fun _ _ heq => by
    rw [hstage] at heq
    cases heq
  have hwatching : Watching R (MemoryAccessMonitor.takeIndex h s) :=
    ha.watching.moved hmem (by rw [hstage]; exact fun heq => by cases heq) rfl rfl rfl
  refine ha.frame hwatching (ha.filed.takeIndex hmem hwriting hapart.1 hapart.2) rfl ?_
    (map_target_moveTo hmem)
  have hwrites : (⟨h.ctx, h.found, .writing s.ring.writeIdx entryFields⟩ : Handler).Writes
      (slotOf s.ring.writeIdx) := (writes_writing rfl).mpr rfl
  have hslot : unread (MemoryAccessMonitor.takeIndex h s) (slotOf s.ring.writeIdx) = none :=
    if_neg fun hready => hready.2.2 _ List.mem_cons_self hwrites
  have hupdate : unread (MemoryAccessMonitor.takeIndex h s) =
      Function.update (unread s) (slotOf s.ring.writeIdx) none := by
    rw [← hslot]
    refine unread_update (fun _ _ => rfl) (fun k _ => ?_) fun k hk => ?_
    · show current s.js.disturb = some k ↔ _
      rw [current_disturb]
    · rw [free_takeIndex hmem hwriting]
      exact and_iff_right hk.symm
  rw [hupdate]
  simpa using contents_update_le (unread s) (slotOf s.ring.writeIdx) none

/-- A field is written where no entry is to be read. -/
theorem Accounted.writeField (ha : Accounted R s) (hmem : h ∈ s.handlers) {idx : BitVec 32}
    {field : Field} {left : List Field} (hstage : h.stage = .writing idx (field :: left))
    (stale : Found) : Accounted R (MemoryAccessMonitor.writeField h idx field left stale s) := by
  obtain ⟨m, hlive⟩ := ha.watching.live h hmem
  have hwatching : Watching R (MemoryAccessMonitor.writeField h idx field left stale s) :=
    ha.watching.moved hmem (by rw [hstage]; exact fun heq => by cases heq) rfl rfl rfl
  refine ha.frame hwatching (ha.filed.writeField hmem hstage hlive stale) rfl ?_
    (map_target_moveTo hmem)
  have hbusy : ¬ s.Free (slotOf idx) := fun hslot =>
    hslot h hmem ((writes_writing hstage).mpr rfl)
  have hslot : unread s (slotOf idx) = none := if_neg fun hready => hbusy hready.2.2
  have hslot' : unread (MemoryAccessMonitor.writeField h idx field left stale s) (slotOf idx) =
      none := if_neg fun hready => hbusy ((free_writeField hmem hstage).mp hready.2.2)
  have hupdate : unread (MemoryAccessMonitor.writeField h idx field left stale s) =
      Function.update (unread s) (slotOf idx) none := by
    rw [← hslot']
    exact unread_update (fun k hk => Function.update_of_ne hk _ _) (fun _ _ => Iff.rfl)
      fun k _ => free_writeField hmem hstage
  rw [hupdate, ← hslot, Function.update_eq_self]

/-- The handler's key becomes that of an entry to be read. -/
theorem Accounted.storeReady (ha : Accounted R s) (hmem : h ∈ s.handlers) {idx : BitVec 32}
    (hstage : h.stage = .writing idx []) :
    Accounted R (MemoryAccessMonitor.storeReady h idx s) := by
  have hbegun := ha.watching.begun h hmem
  have hevent : h.event = (s.ring.entries (slotOf idx)).event :=
    eq_of_agree fun field => ha.filed.written h hmem hstage field (by simp)
  refine ⟨ha.watching.ended (by rw [hstage]; exact fun heq => by cases heq) rfl rfl rfl,
    ha.filed.storeReady hmem hstage hbegun, ha.called, ?_⟩
  have hkey : h.event.key = h.found.target := by
    show (h.found.monitor.id, _) = (h.found.key, _)
    rw [(ha.watching.raised_id hbegun).1]
    rfl
  have hbag : bag (unread (MemoryAccessMonitor.storeReady h idx s) (slotOf idx)) ≤ {h.event} := by
    unfold unread
    split
    · rw [bag_some]
      simp [MemoryAccessMonitor.storeReady, hevent]
    · simp
  have hcontents : contents (unread (MemoryAccessMonitor.storeReady h idx s)) ≤
      contents (unread s) + {h.event} := by
    have hupdate : unread (MemoryAccessMonitor.storeReady h idx s) =
        Function.update (unread s) (slotOf idx)
          (unread (MemoryAccessMonitor.storeReady h idx s) (slotOf idx)) :=
      unread_update (fun k hk => Function.update_of_ne hk _ _) (fun _ _ => Iff.rfl)
        fun k hk => free_storeReady hmem hstage hk
    rw [hupdate]
    exact (contents_update_le _ _ _).trans (add_le_add le_rfl hbag)
  have hkeys := Multiset.map_le_map (f := Event.key) hcontents
  rw [Multiset.map_add, Multiset.map_singleton, hkey] at hkeys
  have hhandlers : (s.handlers.map (fun h => h.found.target) : Multiset (ℕ × ℕ)) =
      {h.found.target} + ((s.handlers.erase h).map (fun h => h.found.target) : Multiset (ℕ × ℕ)) :=
    Multiset.coe_eq_coe.mpr ((List.perm_cons_erase hmem).map _)
  refine Multiset.nodup_of_le ?_ ha.once
  calc outstanding (MemoryAccessMonitor.storeReady h idx s)
      ≤ (s.delivered.map Invocation.key : Multiset (ℕ × ℕ)) +
          ((contents (unread s)).map Event.key + {h.found.target}) +
          ((s.handlers.erase h).map (fun h => h.found.target) : Multiset (ℕ × ℕ)) := by
        unfold outstanding
        exact add_le_add (add_le_add le_rfl hkeys) le_rfl
    _ = outstanding s := by
        unfold outstanding
        rw [hhandlers]
        ac_rfl

/-- The entry that is given back is not to be read any more. -/
theorem Accounted.clearRead (ha : Accounted R s) (call : Call) {readIdx : BitVec 32}
    (writeIdx : BitVec 32) (hcurrent : current s.js = none ∨ current s.js = some (slotOf readIdx)) :
    Accounted R (MemoryAccessMonitor.clearRead call readIdx writeIdx s) := by
  refine ha.frame (ha.watching.congr rfl rfl rfl) (ha.filed.clearRead call readIdx writeIdx) rfl ?_
    (List.Perm.refl _)
  have hslot : unread (MemoryAccessMonitor.clearRead call readIdx writeIdx s) (slotOf readIdx) =
      none := by
    simp [unread, MemoryAccessMonitor.clearRead, clearEntry]
  have hupdate : unread (MemoryAccessMonitor.clearRead call readIdx writeIdx s) =
      Function.update (unread s) (slotOf readIdx) none := by
    rw [← hslot]
    refine unread_update (fun k hk => Function.update_of_ne hk _ _) (fun k hk => ?_)
      fun _ _ => Iff.rfl
    refine iff_of_false (fun heq => by cases heq) ?_
    rcases hcurrent with hnone | hsome
    · rw [hnone]
      exact fun heq => by cases heq
    · rw [hsome]
      exact fun heq => hk (Option.some.inj heq).symm
  rw [hupdate]
  simpa using contents_update_le (unread s) (slotOf readIdx) none

/-- A turn that only looks leaves the account as it is. -/
theorem Accounted.looked (ha : Accounted R s) (hfiled : Filed R t)
    (hmonitors : t.monitors = s.monitors) (hnext : t.nextMonId = s.nextMonId)
    (hentries : t.ring.entries = s.ring.entries) (hcurrent : current t.js = current s.js)
    (hhandlers : t.handlers = s.handlers) (hdelivered : t.delivered = s.delivered) :
    Accounted R t := by
  have hfree : ∀ slot, t.Free slot ↔ s.Free slot := fun slot => by
    rw [ThreadedState.Free, hhandlers, ThreadedState.Free]
  refine ha.frame (ha.watching.congr hhandlers hmonitors hnext) hfiled hdelivered ?_ ?_
  · rw [unread_congr hentries hcurrent hfree]
  · rw [hhandlers]

theorem Accounted.loadReady (ha : Accounted R s) {call : Call} {readIdx writeIdx : BitVec 32}
    (hjs : s.js = .draining call readIdx writeIdx) (hreading : s.reading = none)
    (hapart : Apart s .loadReady) :
    Accounted R (MemoryAccessMonitor.loadReady call readIdx writeIdx s) := by
  have hfiled := ha.filed.loadReady hjs hreading hapart
  have hcurrent : current s.js = none := by rw [hjs]; rfl
  unfold MemoryAccessMonitor.loadReady at hfiled ⊢
  split_ifs at hfiled ⊢
  · exact ha.looked hfiled rfl rfl rfl hcurrent.symm rfl rfl
  · exact ha.looked hfiled rfl rfl rfl hcurrent.symm rfl rfl
  · exact ha.looked hfiled rfl rfl rfl rfl rfl rfl

theorem Accounted.findMonitor (ha : Accounted R s) {call : Call} {readIdx writeIdx : BitVec 32}
    (hjs : s.js = .draining call readIdx writeIdx) (hreading : s.reading = some .looking) :
    Accounted R (MemoryAccessMonitor.findMonitor call readIdx writeIdx s) := by
  have hfiled := ha.filed.findMonitor ha.watching hjs hreading
  unfold MemoryAccessMonitor.findMonitor at hfiled ⊢
  split
  · exact ha.clearRead call writeIdx (.inl (by rw [hjs]; rfl))
  · rename_i m hlookup
    rw [hlookup] at hfiled
    exact ha.looked hfiled rfl rfl rfl rfl rfl rfl

/-- A call is made for an entry to be read, which from then on counts as called. -/
theorem Accounted.callOnAccess (ha : Accounted R s) {call : Call} {readIdx writeIdx : BitVec 32}
    {m : MonitorEntry} {read : Event} (hjs : s.js = .draining call readIdx writeIdx)
    (hreading : s.reading = some (.arguments m [] read)) :
    Accounted R (MemoryAccessMonitor.callOnAccess call readIdx writeIdx m read s) := by
  obtain ⟨call', readIdx', writeIdx', hjs', hready, hslot, ctx, f, hR, hevent, hid, honAccess,
    hagree⟩ := ha.filed.reading hreading
  rw [hjs] at hjs'
  cases hjs'
  have hinvocation : m.invocation read = f.monitor.invocation (f.event ctx) := by
    have hall : ∀ field ∈ argumentFields, Agree (f.event ctx) read field := fun field hfield =>
      hevent ▸ hagree field hfield (by simp)
    have haddress : (f.event ctx).faultAddress = read.faultAddress :=
      hall .faultAddress (by decide)
    have hpageBase : (f.event ctx).pageBase = read.pageBase := hall .pageBase (by decide)
    have hindex : (f.event ctx).rangeIndex = read.rangeIndex := hall .rangeIndex (by decide)
    have hcode : (f.event ctx).accessTypeCode = read.accessTypeCode :=
      hall .accessTypeCode (by decide)
    simp only [MonitorEntry.invocation, hid, honAccess, haddress, hpageBase, hindex, hcode]
  have hkey : (m.invocation read).key = (s.ring.entries (slotOf readIdx)).event.key := by
    rw [hinvocation, hevent]
    rfl
  have hcurrent : current s.js = none := by rw [hjs]; rfl
  have hunread : unread s (slotOf readIdx) = some (s.ring.entries (slotOf readIdx)).event :=
    if_pos ⟨hready, hcurrent ▸ (Option.some_ne_none _).symm, hslot⟩
  have hcalled : unread (MemoryAccessMonitor.callOnAccess call readIdx writeIdx m read s)
      (slotOf readIdx) = none := if_neg fun hready => hready.2.1 rfl
  have hupdate : unread (MemoryAccessMonitor.callOnAccess call readIdx writeIdx m read s) =
      Function.update (unread s) (slotOf readIdx) none := by
    rw [← hcalled]
    refine unread_update (fun _ _ => rfl) (fun k hk => ?_) fun _ _ => Iff.rfl
    refine iff_of_false (fun heq => hk (Option.some.inj heq).symm) ?_
    rw [hcurrent]
    exact fun heq => by cases heq
  refine ⟨ha.watching.congr rfl rfl rfl, ha.filed.congr rfl rfl (.inl rfl), ?_, ?_⟩
  · intro v hv
    rcases List.mem_append.mp hv with hold | hnew
    · exact ha.called v hold
    · exact ⟨ctx, f, hR, (List.mem_singleton.mp hnew).trans hinvocation⟩
  · -- the key moves from the entries to the calls
    have hsplit : contents (unread s) = {(s.ring.entries (slotOf readIdx)).event} +
        contents (unread (MemoryAccessMonitor.callOnAccess call readIdx writeIdx m read s)) := by
      rw [contents_eq_add (unread s) (slotOf readIdx), hunread, hupdate, bag_some]
    have hcalls : ((MemoryAccessMonitor.callOnAccess call readIdx writeIdx m read s).delivered.map
        Invocation.key : Multiset (ℕ × ℕ)) = (s.delivered.map Invocation.key : Multiset (ℕ × ℕ)) +
          {(s.ring.entries (slotOf readIdx)).event.key} := by
      show ((s.delivered ++ [m.invocation read]).map Invocation.key : Multiset (ℕ × ℕ)) = _
      rw [List.map_append, ← Multiset.coe_add, List.map_singleton, hkey, Multiset.coe_singleton]
    have hsame : outstanding (MemoryAccessMonitor.callOnAccess call readIdx writeIdx m read s) =
        outstanding s := by
      unfold outstanding
      rw [hcalls, hsplit, Multiset.map_add, Multiset.map_singleton,
        show (MemoryAccessMonitor.callOnAccess call readIdx writeIdx m read s).handlers =
          s.handlers from rfl]
      ac_rfl
    rw [hsame]
    exact ha.once

/-! ## §5  Runs -/

/-- The faults raised after a step. -/
theorem raised_snoc {tr : List (ThreadedState × Label)} {p : ThreadedState × Label}
    {ctx : ExceptionContext} {f : Found} :
    Raised (tr ++ [p]) ctx f ↔ Raised tr ctx f ∨ Checked p ctx f := by
  simp [Raised, or_and_right, exists_or]

/-- Only a check raises faults. -/
theorem raised_or_checked {l : Label} (hl : ∀ ctx order, l ≠ .check ctx order) :
    (fun ctx f => R ctx f ∨ Checked (s, l) ctx f) = R := by
  funext ctx f
  refine propext (or_iff_left ?_)
  rintro ⟨order, hlabel, -⟩
  exact hl ctx order hlabel

theorem enable_frame {env : ProtectAnswers} {addresses : List Addr} {sizes : List (BitVec 32)}
    {onAccess : Callback} (s : MonitorState) :
    (enable page os env addresses sizes onAccess s).2.ring = s.ring ∧
      (enable page os env addresses sizes onAccess s).2.js = s.js ∧
      (enable page os env addresses sizes onAccess s).2.delivered = s.delivered := by
  unfold enable
  split <;> exact ⟨rfl, rfl, rfl⟩

theorem disable_frame {granted : ℕ → ℕ → Bool} {monId : ℕ} (s : MonitorState) :
    (disable granted monId s).ring = s.ring ∧
      (disable granted monId s).delivered = s.delivered := by
  unfold disable
  split <;> exact ⟨rfl, rfl⟩

/-- The fault of a check is accounted for when a range is found for it. -/
theorem Accounted.check {ctx : ExceptionContext} {order : List (Σ _ : ℕ, MonitorEntry)}
    (ha : Accounted R s) (horder : order.Perm s.monitors.entries)
    (hapart : Apart s (.check ctx order)) :
    Accounted (fun ctx' f' => R ctx' f' ∨ Checked (s, .check ctx order) ctx' f')
      (MemoryAccessMonitor.check ctx order s) := by
  cases hscan : scan ctx.faultAddress order with
  | none =>
      have hsame : (fun ctx' f' => R ctx' f' ∨ Checked (s, .check ctx order) ctx' f') = R := by
        funext ctx' f'
        refine propext (or_iff_left ?_)
        rintro ⟨order', hlabel, -, hfound⟩
        cases hlabel
        rw [hscan] at hfound
        cases hfound
      rw [hsame, MemoryAccessMonitor.check, hscan]
      exact ha
  | some f =>
      have hraised : (fun ctx' f' => R ctx' f' ∨ Checked (s, .check ctx order) ctx' f') =
          fun ctx' f' => R ctx' f' ∨ (ctx' = ctx ∧ f' = f) := by
        funext ctx' f'
        refine propext (or_congr_right ⟨?_, ?_⟩)
        · rintro ⟨order', hlabel, -, hfound⟩
          cases hlabel
          rw [hscan] at hfound
          exact ⟨rfl, (Option.some.inj hfound).symm⟩
        · rintro ⟨rfl, rfl⟩
          exact ⟨order, rfl, horder, hscan⟩
      rw [hraised, MemoryAccessMonitor.check, hscan]
      exact ha.raise horder hscan hapart

/-- All other steps keep the account as it is. -/
theorem Accounted.keep {l : Label} (ha : Accounted R s) (hstep : Step page os s l t)
    (hapart : Apart s l) (hl : ∀ ctx order, l ≠ .check ctx order) : Accounted R t := by
  cases hstep with
  | check => exact absurd rfl (hl _ _)
  | @enable env addresses sizes onAccess hjs =>
      obtain ⟨hring, hjs', hdelivered⟩ := @enable_frame page os env addresses sizes onAccess
        s.toMonitorState
      exact ha.outside (ha.watching.enable env addresses sizes onAccess)
        (by rw [hjs]; exact fun _ _ _ heq => by cases heq) (congrArg _ hring)
        (congrArg current hjs') rfl rfl hdelivered
  | @markFired h hmem hstage =>
      exact ha.moved hmem (by rw [hstage]; exact fun _ _ heq => by cases heq)
        (fun _ _ heq => by cases heq) (ha.watching.markFired hmem) rfl rfl rfl rfl rfl
  | @openPages h granted stale hmem hstage =>
      exact ha.moved hmem (by rw [hstage]; exact fun _ _ heq => by cases heq)
        (fun _ _ heq => by cases heq)
        (ha.watching.moved hmem (by rw [hstage]; exact fun heq => by cases heq) rfl rfl rfl)
        rfl rfl rfl rfl rfl
  | takeIndex hmem hstage => exact ha.takeIndex hmem hstage hapart
  | writeField hmem hstage => exact ha.writeField hmem hstage _
  | storeReady hmem hstage => exact ha.storeReady hmem hstage
  | begin hjs =>
      exact ha.outside (ha.watching.congr rfl rfl rfl)
        (by rw [hjs]; exact fun _ _ _ heq => by cases heq) rfl (by rw [hjs]; rfl) rfl rfl rfl
  | loadReady hjs hreading => exact ha.loadReady hjs hreading hapart
  | findMonitor hjs hreading => exact ha.findMonitor hjs hreading
  | readField hjs hreading hfield =>
      exact ha.looked (ha.filed.readField hjs hreading) rfl rfl rfl rfl rfl rfl
  | callOnAccess hjs hreading => exact ha.callOnAccess hjs hreading
  | callbackReturns hjs => exact ha.clearRead _ _ (.inr (by rw [hjs]; rfl))
  | drained hjs htask =>
      exact ha.outside (ha.watching.congr rfl rfl rfl)
        (by rw [hjs]; exact fun _ _ _ heq => by cases heq) rfl (by rw [hjs]; rfl) rfl rfl rfl
  | @disable call granted order monId hjs htask =>
      obtain ⟨hring, hdelivered⟩ := @disable_frame granted monId s.toMonitorState
      have hunused : ∀ x ∈ s.handlers, x.found.key ≠ monId := fun x hx heq =>
        (hapart call hjs x hx).1 (by rw [htask, heq])
      exact ha.outside (ha.watching.disable granted monId .idle hunused)
        (by rw [hjs]; exact fun _ _ _ heq => by cases heq) (congrArg _ hring) (by rw [hjs]; rfl)
        rfl rfl hdelivered
  | @disableAll call granted order hjs htask horder =>
      have hnone : s.handlers = [] := List.eq_nil_iff_forall_not_mem.mpr fun x hx =>
        (hapart call hjs x hx).2 htask
      exact ha.outside (ha.watching.disableAll granted order .idle hnone)
        (by rw [hjs]; exact fun _ _ _ heq => by cases heq) rfl (by rw [hjs]; rfl) rfl rfl rfl

theorem Accounted.step {l : Label} (ha : Accounted R s) (hstep : Step page os s l t)
    (hapart : Apart s l) : Accounted (fun ctx f => R ctx f ∨ Checked (s, l) ctx f) t := by
  by_cases hl : ∃ ctx order, l = .check ctx order
  · obtain ⟨ctx, order, rfl⟩ := hl
    cases hstep with
    | check horder => exact ha.check horder hapart
  · have hother : ∀ ctx order, l ≠ .check ctx order := fun ctx order heq => hl ⟨ctx, order, heq⟩
    rw [raised_or_checked hother]
    exact ha.keep hstep hapart hother

theorem accounted_of_run {exc : ExceptionState} {prot : Addr → Prot}
    {tr : List (ThreadedState × Label)} (run : Run (Step page os) (.start exc prot) tr t)
    (apart : Guarded Apart tr) : Accounted (Raised tr) t := by
  induction run with
  | nil =>
      have hnone : Raised [] = fun _ _ => False := by
        funext ctx f
        simp [Raised]
      rw [hnone]
      exact .start exc prot
  | @snoc tr s l t _ hstep ih =>
      obtain ⟨hbefore, hlast⟩ := guarded_snoc.mp apart
      have hraised : Raised (tr ++ [(s, l)]) =
          fun ctx f => Raised tr ctx f ∨ Checked (s, l) ctx f := by
        funext ctx f
        exact propext raised_snoc
      rw [hraised]
      exact (ih hbefore).step hstep hlast

/-- The account of calls alone: a monitor and a range are in it once. -/
theorem Accounted.keys_nodup (ha : Accounted R s) : (s.delivered.map Invocation.key).Nodup := by
  have hle : (s.delivered.map Invocation.key : Multiset (ℕ × ℕ)) ≤ outstanding s := by
    unfold outstanding
    rw [add_assoc]
    exact Multiset.le_add_right _ _
  exact Multiset.coe_nodup.mp (Multiset.nodup_of_le hle ha.once)

/-- Every call tells of a fault in the trace. -/
theorem Accounted.tells {tr : List (ThreadedState × Label)} (ha : Accounted (Raised tr) s)
    {v : Invocation} (hv : v ∈ s.delivered) : ∃ p ∈ tr, Tells p v := by
  obtain ⟨ctx, f, ⟨p, hp, order, hlabel, horder, hscan⟩, rfl⟩ := ha.called v hv
  obtain ⟨hlive, hmem, hwatches⟩ := scan_found horder hscan
  exact ⟨p, hp, ctx, f, ⟨order, hlabel, horder, hscan⟩,
    { live := hlive
      range := hmem
      watches := hwatches
      monitorId := (ha.watching.raised_id ⟨p, hp, order, hlabel, horder, hscan⟩).1
      onAccess := rfl
      address := rfl
      pageBase := rfl
      operation := accessCodeToString_accessCode ctx.accessType
      rangeIndex := rfl }⟩

/-- A fault is told of one monitor and range. -/
theorem Tells.key_eq {p : ThreadedState × Label} {v w : Invocation} (hv : Tells p v)
    (hw : Tells p w) : v.key = w.key := by
  obtain ⟨ctx, f, ⟨order, hlabel, -, hscan⟩, hreport⟩ := hv
  obtain ⟨ctx', f', ⟨order', hlabel', -, hscan'⟩, hreport'⟩ := hw
  rw [hlabel] at hlabel'
  cases hlabel'
  obtain rfl : f = f' := Option.some.inj (hscan.symm.trans hscan')
  exact Prod.ext (hreport.monitorId.trans hreport'.monitorId.symm)
    (hreport.rangeIndex.trans hreport'.rangeIndex.symm)

end Account

/-! ## §6  Two threads

One thread reads the first of two buffers and another one reads the first or the second. Both
handlers have found their range before either marks it. -/

section TwoThreads

def watchedTwo : ThreadedState where
  toMonitorState := enabled 0x1000 0x3000
  handlers := []
  reading := none

def watchedFirst : WatchedRange := ⟨0x1000, 0x1000, .readWrite, 0, false⟩

def watchedSecond : WatchedRange := ⟨0x3000, 0x1000, .readWrite, 1, false⟩

def twoBuffers : MonitorEntry := ⟨1, [watchedFirst, watchedSecond], 0, 1, 2⟩

def foundFirst : Found :=
  ⟨1, twoBuffers, watchedFirst, [{ watchedFirst with fired := true }, watchedSecond]⟩

def foundSecond : Found :=
  ⟨1, twoBuffers, watchedSecond, [watchedFirst, { watchedSecond with fired := true }]⟩

/-- What the handler of the other thread is called for and finds. -/
def otherRead (second : Bool) : ExceptionContext := readAt (if second then 0x3000 else 0x1000)

def otherFound (second : Bool) : Found := if second then foundSecond else foundFirst

theorem scan_first : scan (readAt 0x1000).faultAddress watchedTwo.monitors.entries =
    some foundFirst := by
  decide

theorem scan_other (second : Bool) :
    scan (otherRead second).faultAddress watchedTwo.monitors.entries =
      some (otherFound second) := by
  cases second <;> decide

/-- Both handlers have found their range. -/
def overlapping (second : Bool) : ThreadedState :=
  { watchedTwo with
    handlers :=
      [⟨otherRead second, otherFound second, .found⟩, ⟨readAt 0x1000, foundFirst, .found⟩] }

theorem step_first : Step smallPages .linux watchedTwo
    (.check (readAt 0x1000) watchedTwo.monitors.entries)
    { watchedTwo with handlers := [⟨readAt 0x1000, foundFirst, .found⟩] } := by
  have hstep := @Step.check smallPages .linux watchedTwo (readAt 0x1000) _ (List.Perm.refl _)
  rw [check, scan_first] at hstep
  exact hstep

theorem step_other (second : Bool) : Step smallPages .linux
    { watchedTwo with handlers := [⟨readAt 0x1000, foundFirst, .found⟩] }
    (.check (otherRead second) watchedTwo.monitors.entries) (overlapping second) := by
  have hstep := @Step.check smallPages .linux
    { watchedTwo with handlers := [⟨readAt 0x1000, foundFirst, .found⟩] } (otherRead second) _
    (List.Perm.refl _)
  rw [check, scan_other] at hstep
  exact hstep

/-- The other handler has taken an index. -/
def otherNoted (second : Bool) : ThreadedState where
  toMonitorState := noteFound (otherRead second) true (otherFound second) (enabled 0x1000 0x3000)
  handlers := [⟨otherRead second, otherFound second, .writing 0 entryFields⟩,
    ⟨readAt 0x1000, foundFirst, .found⟩]
  reading := none

/-- Both handlers have. -/
def bothNoted (second : Bool) : ThreadedState where
  toMonitorState := noteFound (readAt 0x1000) true foundFirst (otherNoted second).toMonitorState
  handlers := [⟨readAt 0x1000, foundFirst, .writing 1 entryFields⟩,
    ⟨otherRead second, otherFound second, .writing 0 entryFields⟩]
  reading := none

/-- The other handler is done. -/
def otherPublished (second : Bool) : ThreadedState where
  toMonitorState := publish 0 ((otherFound second).event (otherRead second))
    (bothNoted second).toMonitorState
  handlers := [⟨readAt 0x1000, foundFirst, .writing 1 entryFields⟩]
  reading := none

/-- Both handlers are. -/
def bothPublished (second : Bool) : ThreadedState where
  toMonitorState :=
    publish 1 (foundFirst.event (readAt 0x1000)) (otherPublished second).toMonitorState
  handlers := []
  reading := none

theorem reaches_otherNoted (second : Bool) :
    Reaches smallPages .linux (overlapping second) (otherNoted second) := by
  have hlive : (overlapping second).monitors.lookup (otherFound second).key = some twoBuffers := by
    cases second <;> decide
  have hfree : (overlapping second).Free (slotOf (overlapping second).ring.writeIdx) := by
    intro x hx
    rcases List.mem_pair.mp hx with rfl | rfl <;>
      exact not_writes (fun _ _ heq => by cases heq) _
  convert @reaches_noteFound smallPages .linux (overlapping second) _ _ _ List.mem_cons_self hlive
    true (fun h => h.1 rfl) hfree using 1
  cases second <;> rfl

theorem reaches_bothNoted (second : Bool) :
    Reaches smallPages .linux (otherNoted second) (bothNoted second) := by
  have hlive : ∃ m, (otherNoted second).monitors.lookup foundFirst.key = some m := by
    cases second <;> exact ⟨_, rfl⟩
  obtain ⟨m, hm⟩ := hlive
  have hfree : (otherNoted second).Free (slotOf (otherNoted second).ring.writeIdx) := by
    intro x hx
    rcases List.mem_pair.mp hx with rfl | rfl
    · rw [writes_writing rfl]
      exact (by decide : slotOf 0 ≠ slotOf 1)
    · exact not_writes (fun _ _ heq => by cases heq) _
  convert @reaches_noteFound smallPages .linux (otherNoted second) _ _ _
    (List.mem_cons_of_mem _ List.mem_cons_self) hm true (fun h => h.1 rfl) hfree using 1
  cases second <;> rfl

theorem reaches_bothPublished (second : Bool) :
    Reaches smallPages .linux (bothNoted second) (bothPublished second) := by
  have hother : ∃ m, (bothNoted second).monitors.lookup (otherFound second).key = some m := by
    cases second <;> exact ⟨_, rfl⟩
  have hfirst : ∃ m, (otherPublished second).monitors.lookup foundFirst.key = some m := by
    cases second <;> exact ⟨_, rfl⟩
  obtain ⟨m, hm⟩ := hother
  obtain ⟨m', hm'⟩ := hfirst
  have hdone : Reaches smallPages .linux (bothNoted second) (otherPublished second) := by
    convert @reaches_publish smallPages .linux (bothNoted second) _ _ _ _
      (List.mem_cons_of_mem _ List.mem_cons_self) hm using 1
    cases second <;> rfl
  refine hdone.trans ?_
  convert @reaches_publish smallPages .linux (otherPublished second) _ _ _ _ List.mem_cons_self hm'
    using 1
  cases second <;> rfl

/-- A drain has called `onAccess` for the other fault. -/
def otherCalled (second : Bool) : ThreadedState where
  toMonitorState := drainTurn ⟨.drain, 0, true⟩ 0 2
    (beginDrain .drain (bothPublished second).toMonitorState)
  handlers := []
  reading := none

/-- It has called it for both. -/
def bothCalled (second : Bool) : ThreadedState where
  toMonitorState := drainTurn ⟨.drain, 1, true⟩ 1 2
    (clearRead ⟨.drain, 0, true⟩ 0 2 (otherCalled second)).toMonitorState
  handlers := []
  reading := none

theorem reaches_bothCalled (second : Bool) :
    Reaches smallPages .linux (bothPublished second) (bothCalled second) := by
  have hbegun := (@Reaches.refl smallPages .linux (bothPublished second)).snoc
    (@Step.begin smallPages .linux _ .drain (by cases second <;> rfl)) trivial
  have hother : Reaches smallPages .linux _ (otherCalled second) :=
    hbegun.trans (reaches_drainTurn (by cases second <;> rfl) rfl fun x hx => by cases hx)
  have hreturned := hother.snoc (@Step.callbackReturns smallPages .linux _ ⟨.drain, 0, true⟩ 0 2
    (by cases second <;> rfl)) trivial
  exact hreturned.trans (reaches_drainTurn (by cases second <;> rfl) rfl fun x hx => by cases hx)

theorem keys_bothCalled (second : Bool) : (bothCalled second).delivered.map Invocation.key =
    [(1, if second then 1 else 0), (1, 0)] := by
  cases second <;> rfl

/-- Before any monitor. -/
def threadsAtStart : ThreadedState := .start (ExceptionState.start defaultActions) writable

theorem reaches_first : Reaches smallPages .linux threadsAtStart
    { watchedTwo with handlers := [⟨readAt 0x1000, foundFirst, .found⟩] } := by
  have hwatched : Step smallPages .linux threadsAtStart
      (.enable allGranted [0x1000, 0x3000] [4, 4] 0) watchedTwo := .enable rfl
  refine (Reaches.refl.snoc hwatched trivial).snoc step_first ?_
  intro f _ h hmem
  cases hmem

theorem reaches_reports (second : Bool) :
    Reaches smallPages .linux (overlapping second) (bothCalled second) :=
  (((reaches_otherNoted second).trans (reaches_bothNoted second)).trans
    (reaches_bothPublished second)).trans (reaches_bothCalled second)

end TwoThreads

end Threads

end MemoryAccessMonitor

end Chromatic
