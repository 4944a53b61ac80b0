import Chromatic.ExceptionHandler
import Chromatic.Foundation.IndexedRegistry

/-!
# Memory access monitors

`NativeMemoryAccessMonitor` and its handler. The handler runs on whichever thread
faults and the other functions on the script's thread. What a handler does up to
`writeIdx.fetch_add` is one step and the rest of it another, and so is a turn of the
drain up to the callback: handlers do not come between each other there. Those that do
are in `MonitorThreads`.

The script's callbacks run under `g_monMutex`, so a call they make of this interface
changes nothing or does not return, and is no step.

§1 page protections · §2 monitors · §3 the ring · §4 the state · §5 enable ·
§6 the handler · §7 draining · §8 disable and disableAll · §9 steps · §10 what a scan
finds · §11 registered monitors · §12 two buffers.
-/

namespace Chromatic

open Foundation ExceptionHandler

namespace MemoryAccessMonitor

/-! ## §1  Page protections -/

inductive Prot where
  | none
  | readWrite
  | other (p : ℕ)
deriving DecidableEq, Repr

/-- A page size, a power of two. -/
structure PageSize where
  bits : ℕ
  lt : bits < 64

def PageSize.size (page : PageSize) : BitVec 64 := 1 <<< page.bits

/-- The address lies between `start` and `start + len`, as 64-bit integers compare. -/
def Between (start : Addr) (len : BitVec 64) (a : Addr) : Prop :=
  start ≤ a ∧ a < start + len

instance (start : Addr) (len : BitVec 64) (a : Addr) : Decidable (Between start len a) := by
  unfold Between; infer_instance

/-- `mprotect` or `VirtualProtect`, answers ignored. The protection of a page is that of
its addresses. A region that is empty or wraps is refused, and so is one that
`granted` says is. -/
def setProtection (granted : Bool) (addr : Addr) (size : BitVec 64) (prot : Prot)
    (m : Addr → Prot) : Addr → Prot :=
  fun a => if granted = true ∧ Between addr size a then prot else m a

/-! ## §2  Monitors -/

/-- `rangeIndex` is an `int`, which holds the indices of an array a script can make. -/
structure WatchedRange where
  pageBase : Addr
  pageSize : BitVec 64
  originalProt : Prot
  rangeIndex : ℕ
  fired : Bool
deriving DecidableEq, Repr

/-- `onAccess` is made of a script's function and never empty. -/
structure MonitorEntry where
  id : ℕ
  ranges : List WatchedRange
  onAccess : Callback
  segvHandlerId : ℕ
  busHandlerId : ℕ
deriving DecidableEq, Repr

abbrev Monitors : Type := HashMap ℕ MonitorEntry

/-- `faultAddr >= pageBase && faultAddr < pageBase + pageSize`. -/
def WatchedRange.Covers (r : WatchedRange) (a : Addr) : Prop := Between r.pageBase r.pageSize a

instance (r : WatchedRange) (a : Addr) : Decidable (r.Covers a) := by
  unfold WatchedRange.Covers; infer_instance

/-- The range has not fired and covers the address. -/
def WatchedRange.Watches (r : WatchedRange) (a : Addr) : Prop := r.fired = false ∧ r.Covers a

instance (r : WatchedRange) (a : Addr) : Decidable (r.Watches a) := by
  unfold WatchedRange.Watches; infer_instance

/-! ## §3  The ring -/

/-- What the handler notes of an access. -/
structure Event where
  monitorId : ℕ
  faultAddress : Addr
  pageBase : Addr
  rangeIndex : ℕ
  accessTypeCode : ℕ
deriving DecidableEq, Repr

structure RingEntry where
  ready : Bool
  event : Event
deriving DecidableEq, Repr

/-- `MAX_PENDING`. -/
def maxPending : ℕ := 256

structure PendingRing where
  entries : Fin 256 → RingEntry
  writeIdx : BitVec 32
  readIdx : BitVec 32

/-- `idx % MAX_PENDING`. -/
def slotOf (idx : BitVec 32) : Fin 256 := ⟨idx.toNat % maxPending, Nat.mod_lt _ (by decide)⟩

def PendingRing.start : PendingRing where
  entries := fun _ => ⟨false, ⟨0, 0, 0, 0, 0⟩⟩
  writeIdx := 0
  readIdx := 0

def accessCodeToString : ℕ → String
  | 1 => "read"
  | 2 => "write"
  | 3 => "execute"
  | _ => "unknown"

/-- The code the handler notes for an access. -/
def accessCode : AccessType → ℕ
  | .read => 1
  | .write => 2
  | .execute => 3
  | .unknown => 0

/-- A call of a monitor's `onAccess`. -/
structure Invocation where
  monitorId : ℕ
  onAccess : Callback
  address : Addr
  pageBase : Addr
  operation : String
  rangeIndex : ℕ
deriving DecidableEq, Repr

def MonitorEntry.invocation (m : MonitorEntry) (e : Event) : Invocation where
  monitorId := m.id
  onAccess := m.onAccess
  address := e.faultAddress
  pageBase := e.pageBase
  operation := accessCodeToString e.accessTypeCode
  rangeIndex := e.rangeIndex

/-! ## §4  The state -/

inductive Task where
  | drain
  | disable (monId : ℕ)
  | disableAll
deriving DecidableEq, Repr

/-- A call under way. `count` is what `drainPending` counts; `alone` is history: no
handler was in progress at any time in the call. -/
structure Call where
  task : Task
  count : ℕ
  alone : Bool
deriving DecidableEq, Repr

/-- Where the script's thread is: outside, in the loop of `drainPending` with its two
variables, in a callback, or behind the loop. -/
inductive JsThread where
  | idle
  | draining (call : Call) (readIdx writeIdx : BitVec 32)
  | inCallback (call : Call) (readIdx writeIdx : BitVec 32)
  | finishing (call : Call)
deriving DecidableEq, Repr

/-- An access noted by the handler for a monitor: history. -/
structure Recorded where
  monitor : MonitorEntry
  event : Event
deriving DecidableEq, Repr

def Recorded.invocation (r : Recorded) : Invocation := r.monitor.invocation r.event

/-- `inProgress` are the handlers between `writeIdx.fetch_add` and `ready.store`, with
the index they took. `recorded` and `delivered` are history. -/
structure MonitorState where
  exc : ExceptionState
  prot : Addr → Prot
  nextMonId : ℕ
  monitors : Monitors
  ring : PendingRing
  inProgress : List (BitVec 32 × Event)
  js : JsThread
  recorded : List Recorded
  delivered : List Invocation

def MonitorState.start (exc : ExceptionState) (prot : Addr → Prot) : MonitorState where
  exc := exc
  prot := prot
  nextMonId := 1
  monitors := ∅
  ring := .start
  inProgress := []
  js := .idle
  recorded := []
  delivered := []

/-! ## §5  enable -/

/-- The pages of the `sz` bytes from `addr` on: their base and their total size. -/
def widen (page : PageSize) (addr : Addr) (sz : BitVec 64) : Addr × BitVec 64 :=
  let pageBase := addr &&& ~~~(page.size - 1)
  (pageBase, (addr + sz - pageBase + page.size - 1) &&& ~~~(page.size - 1))

/-- What the protection calls of `enable` answer. `uninitialised` is what `oldProt`
holds when `VirtualProtect` is refused. -/
structure ProtectAnswers where
  granted : ℕ → Bool
  uninitialised : Prot

/-- One turn of the loop over the ranges: the range and the protections after it. -/
def watch (page : PageSize) (os : Os) (env : ProtectAnswers) (i : ℕ) (addr : Addr)
    (size : BitVec 32) (prot : Addr → Prot) : WatchedRange × (Addr → Prot) :=
  let (pageBase, totalSize) := widen page addr (size.signExtend 64)
  let originalProt :=
    if os = .windows then if env.granted i then prot pageBase else env.uninitialised
    else .readWrite
  (⟨pageBase, totalSize, originalProt, i, false⟩,
    setProtection (env.granted i) pageBase totalSize .none prot)

/-- The loop from range `i` on. -/
def watchAll (page : PageSize) (os : Os) (env : ProtectAnswers) :
    ℕ → List (Addr × BitVec 32) → (Addr → Prot) → List WatchedRange × (Addr → Prot)
  | _, [], prot => ([], prot)
  | i, (addr, size) :: rest, prot =>
      let (range, prot) := watch page os env i addr size prot
      let (ranges, prot) := watchAll page os env (i + 1) rest prot
      (range :: ranges, prot)

def enable (page : PageSize) (os : Os) (env : ProtectAnswers) (addresses : List Addr)
    (sizes : List (BitVec 32)) (onAccess : Callback) (s : MonitorState) :
    Except String ℕ × MonitorState :=
  if addresses.length ≠ sizes.length then
    (.error "addresses and sizes arrays must have the same length", s)
  else
    let exc := refEnable s.exc
    let id := s.nextMonId
    let (ranges, prot) := watchAll page os env 0 (addresses.zip sizes) s.prot
    let (segvHandlerId, exc) := registerHandler .accessViolation .monitorSegvHandler exc
    let (busHandlerId, exc) := registerHandler .busError .monitorSegvHandler exc
    let monitor : MonitorEntry := ⟨id, ranges, onAccess, segvHandlerId, busHandlerId⟩
    (.ok id, { s with
      exc := exc
      prot := prot
      nextMonId := id + 1
      monitors := s.monitors.insert id monitor })

/-! ## §6  The handler -/

/-- The first range that watches the address, and the ranges with it fired. -/
def fireFirst (a : Addr) : List WatchedRange → Option (WatchedRange × List WatchedRange)
  | [] => none
  | r :: rs =>
      if r.Watches a then some (r, { r with fired := true } :: rs)
      else (fireFirst a rs).map fun found => (found.1, r :: found.2)

/-- What the scan of the monitors finds. -/
structure Found where
  key : ℕ
  monitor : MonitorEntry
  range : WatchedRange
  ranges : List WatchedRange
deriving DecidableEq, Repr

/-- The scan of `g_monitors` in the order the map yields them. -/
def scan (a : Addr) : List (Σ _ : ℕ, MonitorEntry) → Option Found
  | [] => none
  | e :: es =>
      match fireFirst a e.2.ranges with
      | some (r, rs) => some ⟨e.1, e.2, r, rs⟩
      | none => scan a es

def Found.event (f : Found) (ctx : ExceptionContext) : Event where
  monitorId := f.monitor.id
  faultAddress := ctx.faultAddress
  pageBase := f.range.pageBase
  rangeIndex := f.range.rangeIndex
  accessTypeCode := accessCode ctx.accessType

/-- A call in progress is no longer alone. -/
def JsThread.disturb : JsThread → JsThread
  | .idle => .idle
  | .draining c readIdx writeIdx => .draining { c with alone := false } readIdx writeIdx
  | .inCallback c readIdx writeIdx => .inCallback { c with alone := false } readIdx writeIdx
  | .finishing c => .finishing { c with alone := false }

/-- The range fires, its pages are opened and the next index is taken. -/
def noteAccess (ctx : ExceptionContext) (granted : Bool) (f : Found) (s : MonitorState) :
    MonitorState :=
  { s with
    monitors := s.monitors.insert f.key { f.monitor with ranges := f.ranges }
    prot := setProtection granted f.range.pageBase f.range.pageSize f.range.originalProt s.prot
    ring := { s.ring with writeIdx := s.ring.writeIdx + 1 }
    inProgress := s.inProgress ++ [(s.ring.writeIdx, f.event ctx)]
    js := s.js.disturb
    recorded := s.recorded ++ [⟨f.monitor, f.event ctx⟩] }

/-- `monitorSegvHandler` up to `writeIdx.fetch_add`. -/
def monitorSegvHandler (ctx : ExceptionContext) (order : List (Σ _ : ℕ, MonitorEntry))
    (granted : Bool) (s : MonitorState) : HandleAction × MonitorState :=
  match scan ctx.faultAddress order with
  | none => (.notHandled, s)
  | some f => (.handled, noteAccess ctx granted f s)

/-- The rest of it: the entry's fields and `ready.store(true)`. -/
def publish (idx : BitVec 32) (e : Event) (s : MonitorState) : MonitorState :=
  { s with
    ring := { s.ring with entries := Function.update s.ring.entries (slotOf idx) ⟨true, e⟩ }
    inProgress := s.inProgress.erase (idx, e) }

/-! ## §7  Draining -/

/-- `readIdx.load` and `writeIdx.load`. -/
def beginDrain (task : Task) (s : MonitorState) : MonitorState :=
  { s with
    js := .draining ⟨task, 0, s.inProgress.isEmpty⟩ s.ring.readIdx s.ring.writeIdx }

/-- `ready.store(false); readIdx++; readIdx.store`. -/
def clearEntry (call : Call) (readIdx writeIdx : BitVec 32) (s : MonitorState) :
    MonitorState :=
  { s with
    ring := { s.ring with
      entries := Function.update s.ring.entries (slotOf readIdx)
        { s.ring.entries (slotOf readIdx) with ready := false }
      readIdx := readIdx + 1 }
    js := .draining { call with count := call.count + 1 } (readIdx + 1) writeIdx }

/-- One turn of the loop, up to the callback if there is one. -/
def drainTurn (call : Call) (readIdx writeIdx : BitVec 32) (s : MonitorState) : MonitorState :=
  let entry := s.ring.entries (slotOf readIdx)
  if readIdx = writeIdx then { s with js := .finishing call }
  else if entry.ready = false then { s with js := .finishing call }
  else
    match s.monitors.lookup entry.event.monitorId with
    | some m =>
        { s with
          js := .inCallback call readIdx writeIdx
          delivered := s.delivered ++ [m.invocation entry.event] }
    | none => clearEntry call readIdx writeIdx s

/-! ## §8  disable and disableAll -/

/-- The loop over the ranges of a monitor that goes; `granted` answers for a monitor and a
range. -/
def restoreRanges (granted : ℕ → ℕ → Bool) (m : MonitorEntry) (prot : Addr → Prot) :
    Addr → Prot :=
  m.ranges.foldl (fun prot r =>
    if r.fired then prot
    else setProtection (granted m.id r.rangeIndex) r.pageBase r.pageSize r.originalProt prot)
    prot

def releaseHandlers (m : MonitorEntry) (exc : ExceptionState) : ExceptionState :=
  refDisable (unregisterHandler m.busHandlerId (unregisterHandler m.segvHandlerId exc))

/-- `disable` behind `drainPending`. -/
def disable (granted : ℕ → ℕ → Bool) (monId : ℕ) (s : MonitorState) : MonitorState :=
  match s.monitors.lookup monId with
  | none => s
  | some m =>
      { s with
        prot := restoreRanges granted m s.prot
        exc := releaseHandlers m s.exc
        monitors := s.monitors.erase monId }

/-- `disableAll` behind `drainPending`, over the monitors in the order of the map. -/
def disableAll (granted : ℕ → ℕ → Bool) (order : List (Σ _ : ℕ, MonitorEntry))
    (s : MonitorState) : MonitorState :=
  { s with
    prot := order.foldl (fun prot e => restoreRanges granted e.2 prot) s.prot
    exc := order.foldl (fun exc e => releaseHandlers e.2 exc) s.exc
    monitors := ∅ }

/-! ## §9  Steps -/

inductive Label where
  | enable (env : ProtectAnswers) (addresses : List Addr) (sizes : List (BitVec 32))
      (onAccess : Callback)
  | begin (task : Task)
  | turn
  | callbackReturns
  | finish (granted : ℕ → ℕ → Bool) (order : List (Σ _ : ℕ, MonitorEntry))
  | fault (ctx : ExceptionContext) (order : List (Σ _ : ℕ, MonitorEntry)) (granted : Bool)
  | publish (idx : BitVec 32) (e : Event)

/-- The script's thread makes one call after the other. A fault finds the monitors in
whatever order the map yields them. -/
inductive Step (page : PageSize) (os : Os) : MonitorState → Label → MonitorState → Prop
  | enable {s env addresses sizes onAccess} (hjs : s.js = .idle) :
      Step page os s (.enable env addresses sizes onAccess)
        (MemoryAccessMonitor.enable page os env addresses sizes onAccess s).2
  | begin {s task} (hjs : s.js = .idle) :
      Step page os s (.begin task) (beginDrain task s)
  | turn {s call readIdx writeIdx} (hjs : s.js = .draining call readIdx writeIdx) :
      Step page os s .turn (drainTurn call readIdx writeIdx s)
  | callbackReturns {s call readIdx writeIdx}
      (hjs : s.js = .inCallback call readIdx writeIdx) :
      Step page os s .callbackReturns (clearEntry call readIdx writeIdx s)
  | drained {s call granted order} (hjs : s.js = .finishing call) (htask : call.task = .drain) :
      Step page os s (.finish granted order) { s with js := .idle }
  | disable {s call granted order monId} (hjs : s.js = .finishing call)
      (htask : call.task = .disable monId) :
      Step page os s (.finish granted order)
        { MemoryAccessMonitor.disable granted monId s with js := .idle }
  | disableAll {s call granted order} (hjs : s.js = .finishing call)
      (htask : call.task = .disableAll) (horder : order.Perm s.monitors.entries) :
      Step page os s (.finish granted order)
        { MemoryAccessMonitor.disableAll granted order s with js := .idle }
  | fault {s ctx order granted} (horder : order.Perm s.monitors.entries) :
      Step page os s (.fault ctx order granted) (monitorSegvHandler ctx order granted s).2
  | publish {s idx e} (hmem : (idx, e) ∈ s.inProgress) :
      Step page os s (.publish idx e) (MemoryAccessMonitor.publish idx e s)

/-! ## §10  What a scan finds -/

section Scan

variable {a : Addr} {r : WatchedRange} {rs rs' : List WatchedRange}
  {order : List (Σ _ : ℕ, MonitorEntry)} {monitors : Monitors} {f : Found}

/-- All that firing does: one range changes, and none before it watches the address. -/
theorem fireFirst_some (h : fireFirst a rs = some (r, rs')) :
    ∃ front back, rs = front ++ r :: back ∧ r.Watches a ∧
      rs' = front ++ { r with fired := true } :: back ∧ ∀ x ∈ front, ¬ x.Watches a := by
  induction rs generalizing rs' with
  | nil => cases h
  | cons x rs ih =>
      unfold fireFirst at h
      by_cases hx : x.Watches a
      · rw [if_pos hx] at h
        obtain ⟨rfl, rfl⟩ := Prod.mk.inj (Option.some.inj h)
        exact ⟨[], rs, rfl, hx, rfl, by simp⟩
      · rw [if_neg hx] at h
        obtain ⟨⟨r', rs''⟩, hrest, heq⟩ := Option.map_eq_some_iff.mp h
        obtain ⟨rfl, rfl⟩ : r' = r ∧ x :: rs'' = rs' := Prod.mk.inj heq
        obtain ⟨front, back, hrs, hr, hrs', hfront⟩ := ih hrest
        refine ⟨x :: front, back, by rw [hrs]; rfl, hr, by rw [hrs']; rfl, ?_⟩
        intro y hy
        cases hy with
        | head => exact hx
        | tail _ hy => exact hfront y hy

theorem fireFirst_eq_none : fireFirst a rs = none ↔ ∀ x ∈ rs, ¬ x.Watches a := by
  induction rs with
  | nil => simp [fireFirst]
  | cons x rs ih =>
      unfold fireFirst
      by_cases hx : x.Watches a
      · rw [if_pos hx]
        simp [hx]
      · rw [if_neg hx, Option.map_eq_none_iff, ih]
        simp [hx]

theorem scan_some (h : scan a order = some f) :
    ⟨f.key, f.monitor⟩ ∈ order ∧ fireFirst a f.monitor.ranges = some (f.range, f.ranges) := by
  induction order with
  | nil => cases h
  | cons e es ih =>
      unfold scan at h
      cases hfire : fireFirst a e.2.ranges with
      | some found =>
          rw [hfire] at h
          obtain rfl := Option.some.inj h
          exact ⟨List.mem_cons_self, hfire⟩
      | none =>
          rw [hfire] at h
          obtain ⟨hmem, hfound⟩ := ih h
          exact ⟨List.mem_cons_of_mem _ hmem, hfound⟩

theorem scan_eq_none : scan a order = none ↔ ∀ e ∈ order, ∀ x ∈ e.2.ranges, ¬ x.Watches a := by
  induction order with
  | nil => simp [scan]
  | cons e es ih =>
      unfold scan
      cases hfire : fireFirst a e.2.ranges with
      | some found =>
          have hnot : ¬ ∀ x ∈ e.2.ranges, ¬ x.Watches a := by
            rw [← fireFirst_eq_none, hfire]
            simp
          simp only [reduceCtorEq, List.forall_mem_cons, false_iff, not_and]
          intro hall
          exact absurd hall hnot
      | none =>
          rw [List.forall_mem_cons]
          exact ih.trans ⟨fun h => ⟨fireFirst_eq_none.mp hfire, h⟩, fun h => h.2⟩

/-- What the handler finds is a live monitor and a range of it that watches the address. -/
theorem scan_found (horder : order.Perm monitors.entries) (h : scan a order = some f) :
    monitors.lookup f.key = some f.monitor ∧ f.range ∈ f.monitor.ranges ∧
      f.range.Watches a := by
  obtain ⟨hmem, hfire⟩ := scan_some h
  obtain ⟨front, back, hranges, hwatch, -⟩ := fireFirst_some hfire
  refine ⟨AList.mem_lookup_iff.mpr (horder.mem_iff.mp hmem), ?_, hwatch⟩
  rw [hranges]
  exact List.mem_append_right _ List.mem_cons_self

/-- A range left unfired by the handler is not the one that fired. -/
theorem index_ne_of_fired (hscan : scan a order = some f)
    (hindices : (f.monitor.ranges.map WatchedRange.rangeIndex).Nodup)
    (hr : r ∈ f.ranges) (hfired : r.fired = false) :
    r ∈ f.monitor.ranges ∧ r.rangeIndex ≠ f.range.rangeIndex := by
  obtain ⟨front, back, hranges, -, hafter, -⟩ := fireFirst_some (scan_some hscan).2
  rw [hranges, List.map_append, List.map_cons] at hindices
  rw [hranges]
  rw [hafter, List.mem_append, List.mem_cons] at hr
  obtain ⟨-, hback, hapart⟩ := List.nodup_append.mp hindices
  rcases hr with hr | rfl | hr
  · exact ⟨List.mem_append_left _ hr,
      hapart _ (List.mem_map_of_mem hr) _ List.mem_cons_self⟩
  · cases hfired
  · refine ⟨List.mem_append_right _ (List.mem_cons_of_mem _ hr), fun heq => ?_⟩
    exact (List.nodup_cons.mp hback).1 (heq ▸ List.mem_map_of_mem hr)

theorem indices_of_fired (h : scan a order = some f) :
    f.ranges.map WatchedRange.rangeIndex = f.monitor.ranges.map WatchedRange.rangeIndex := by
  obtain ⟨front, back, hranges, -, hfired, -⟩ := fireFirst_some (scan_some h).2
  rw [hfired, hranges]
  simp

end Scan

/-! ## §11  Registered monitors -/

theorem watchAll_indices (page : PageSize) (os : Os) (env : ProtectAnswers) (i : ℕ)
    (l : List (Addr × BitVec 32)) (prot : Addr → Prot) :
    (watchAll page os env i l prot).1.map WatchedRange.rangeIndex = List.range' i l.length := by
  induction l generalizing i prot with
  | nil => rfl
  | cons x l ih =>
      obtain ⟨addr, size⟩ := x
      rw [watchAll, List.length_cons, List.range'_succ]
      exact congrArg (i :: ·) (ih _ _)

/-- Monitors are filed under their identifiers, identifiers are not given out again, and
a monitor's ranges have their own indices. -/
structure Registered (s : MonitorState) : Prop where
  id_eq : ∀ {k m}, s.monitors.lookup k = some m → m.id = k
  below : ∀ {k m}, s.monitors.lookup k = some m → k < s.nextMonId
  indices : ∀ {k m}, s.monitors.lookup k = some m →
    (m.ranges.map WatchedRange.rangeIndex).Nodup

section Registry

variable {page : PageSize} {os : Os} {s t : MonitorState} {l : Label}

theorem Registered.start (exc : ExceptionState) (prot : Addr → Prot) :
    Registered (.start exc prot) := by
  constructor <;> intro k m h <;> cases h

theorem Registered.congr (h : Registered s) (hmonitors : t.monitors = s.monitors)
    (hnext : t.nextMonId = s.nextMonId) : Registered t := by
  obtain ⟨id_eq, below, indices⟩ := h
  constructor
  · rw [hmonitors]; exact id_eq
  · rw [hmonitors, hnext]; exact below
  · rw [hmonitors]; exact indices

theorem Registered.insert {k : ℕ} {m : MonitorEntry} {n : ℕ} (h : Registered s)
    (hmonitors : t.monitors = s.monitors.insert k m) (hnext : t.nextMonId = n)
    (hn : s.nextMonId ≤ n) (hid : m.id = k) (hk : k < n)
    (hindices : (m.ranges.map WatchedRange.rangeIndex).Nodup) : Registered t := by
  constructor <;> intro k' m' hlookup <;> rw [hmonitors] at hlookup
  · rcases lookup_insert_cases hlookup with ⟨rfl, rfl⟩ | ⟨-, hold⟩
    · exact hid
    · exact h.id_eq hold
  · rcases lookup_insert_cases hlookup with ⟨rfl, rfl⟩ | ⟨-, hold⟩
    · exact hnext ▸ hk
    · exact hnext ▸ Nat.lt_of_lt_of_le (h.below hold) hn
  · rcases lookup_insert_cases hlookup with ⟨rfl, rfl⟩ | ⟨-, hold⟩
    · exact hindices
    · exact h.indices hold

theorem Registered.noteAccess (h : Registered s) {ctx : ExceptionContext}
    {order : List (Σ _ : ℕ, MonitorEntry)} {f : Found} (granted : Bool)
    (horder : order.Perm s.monitors.entries) (hscan : scan ctx.faultAddress order = some f) :
    Registered (noteAccess ctx granted f s) := by
  obtain ⟨hlive, -, -⟩ := scan_found horder hscan
  have hid : f.monitor.id = f.key := h.id_eq hlive
  refine h.insert rfl rfl le_rfl hid (h.below hlive) ?_
  rw [indices_of_fired hscan]
  exact h.indices hlive

/-- What the handler does: nothing, or noting the access it found. -/
theorem monitorSegvHandler_cases (ctx : ExceptionContext)
    (order : List (Σ _ : ℕ, MonitorEntry)) (granted : Bool) (s : MonitorState) :
    (scan ctx.faultAddress order = none ∧ monitorSegvHandler ctx order granted s =
      (.notHandled, s)) ∨
    ∃ f, scan ctx.faultAddress order = some f ∧ monitorSegvHandler ctx order granted s =
      (.handled, MemoryAccessMonitor.noteAccess ctx granted f s) := by
  unfold monitorSegvHandler
  cases hscan : scan ctx.faultAddress order with
  | none => exact .inl ⟨rfl, rfl⟩
  | some f => exact .inr ⟨f, rfl, rfl⟩

theorem Registered.enable (h : Registered s) (env : ProtectAnswers) (addresses : List Addr)
    (sizes : List (BitVec 32)) (onAccess : Callback) :
    Registered (MemoryAccessMonitor.enable page os env addresses sizes onAccess s).2 := by
  unfold MemoryAccessMonitor.enable
  split
  · exact h
  · refine h.insert rfl rfl (Nat.le_succ _) rfl (Nat.lt_succ_self _) ?_
    rw [watchAll_indices]
    exact List.nodup_range'

theorem Registered.disable (h : Registered s) (granted : ℕ → ℕ → Bool) (monId : ℕ) :
    Registered (MemoryAccessMonitor.disable granted monId s) := by
  unfold MemoryAccessMonitor.disable
  split
  · exact h
  · constructor <;> intro k m hlookup
    · exact h.id_eq (lookup_erase_cases hlookup).2
    · exact h.below (lookup_erase_cases hlookup).2
    · exact h.indices (lookup_erase_cases hlookup).2

/-- A turn of the drain loop touches neither monitors nor protections nor handlers. -/
theorem drainTurn_frame (call : Call) (readIdx writeIdx : BitVec 32) (s : MonitorState) :
    (drainTurn call readIdx writeIdx s).monitors = s.monitors ∧
      (drainTurn call readIdx writeIdx s).nextMonId = s.nextMonId ∧
      (drainTurn call readIdx writeIdx s).prot = s.prot ∧
      (drainTurn call readIdx writeIdx s).exc = s.exc := by
  unfold drainTurn
  dsimp only
  split
  · exact ⟨rfl, rfl, rfl, rfl⟩
  · split
    · exact ⟨rfl, rfl, rfl, rfl⟩
    · split <;> exact ⟨rfl, rfl, rfl, rfl⟩

theorem Registered.step (h : Registered s) (hstep : Step page os s l t) : Registered t := by
  cases hstep with
  | enable hjs => exact h.enable _ _ _ _
  | begin hjs => exact h.congr rfl rfl
  | turn hjs =>
      obtain ⟨hmonitors, hnext, -, -⟩ := drainTurn_frame _ _ _ s
      exact h.congr hmonitors hnext
  | callbackReturns hjs => exact h.congr rfl rfl
  | drained hjs htask => exact h.congr rfl rfl
  | disable hjs htask => exact (h.disable _ _).congr rfl rfl
  | disableAll hjs htask horder =>
      constructor <;> intro k m hlookup <;> cases hlookup
  | @fault ctx order granted horder =>
      rcases monitorSegvHandler_cases ctx order granted s with ⟨-, heq⟩ | ⟨f, hscan, heq⟩
      · rw [heq]; exact h
      · rw [heq]; exact h.noteAccess granted horder hscan
  | publish hmem => exact h.congr rfl rfl

end Registry

/-! ## §12  Two buffers -/

section Concrete

def smallPages : PageSize := ⟨12, by decide⟩

def writable : Addr → Prot := fun _ => .readWrite

def allGranted : ProtectAnswers := ⟨fun _ => true, .readWrite⟩

def atStart : MonitorState := .start (ExceptionState.start defaultActions) writable

/-- A monitor of two buffers of four bytes. -/
def enabled (first second : Addr) : MonitorState :=
  (enable smallPages .linux allGranted [first, second] [4, 4] 0 atStart).2

def watchTwo (first second : Addr) : Label := .enable allGranted [first, second] [4, 4] 0

theorem step_watchTwo (first second : Addr) :
    Step smallPages .linux atStart (watchTwo first second) (enabled first second) :=
  .enable rfl

def readAt (a : Addr) : ExceptionContext := ⟨.accessViolation, a, .read, 0⟩

/-- The state after a read at `a`. -/
def hit (a : Addr) (s : MonitorState) : MonitorState :=
  (monitorSegvHandler (readAt a) s.monitors.entries true s).2

def hitAt (a : Addr) (s : MonitorState) : Label := .fault (readAt a) s.monitors.entries true

theorem step_hit (a : Addr) (s : MonitorState) :
    Step smallPages .linux s (hitAt a s) (hit a s) :=
  .fault (List.Perm.refl _)

/-- The event of a read of the `i`-th range of the first monitor, at its page base. -/
def readEvent (a : Addr) (i : ℕ) : Event := ⟨1, a, a, i, 1⟩

/-- The handler has noted a read of the first buffer and is done. -/
def oneReady : MonitorState :=
  publish 0 (readEvent 0x1000 0) (hit 0x1000 (enabled 0x1000 0x3000))

theorem run_oneReady : Run (Step smallPages .linux) atStart
    [(atStart, watchTwo 0x1000 0x3000),
      (enabled 0x1000 0x3000, hitAt 0x1000 (enabled 0x1000 0x3000)),
      (hit 0x1000 (enabled 0x1000 0x3000), .publish 0 (readEvent 0x1000 0))] oneReady :=
  ((Run.nil.snoc (step_watchTwo 0x1000 0x3000)).snoc (step_hit 0x1000 _)).snoc
    (.publish (by decide))

end Concrete

end MemoryAccessMonitor

end Chromatic
