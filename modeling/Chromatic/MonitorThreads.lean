import Chromatic.MemoryAccessMonitor
import Chromatic.Foundation.Runs

/-!
# Handlers that overlap

`monitorSegvHandler` and `drainPending` one access of shared memory at a time, with handlers on
several threads. No lock is held in the handler: a range that one of them found is still unfired
to the others until it is marked, and an entry is written field by field. What is read through a
pointer to a monitor that was deleted may be anything.

§1 the fields of an entry · §2 handlers in progress · §3 the state · §4 what a handler does ·
§5 what the drain does · §6 steps · §7 threads that keep apart · §8 handlers that are not
interrupted · §9 drains that are not interrupted.
-/

namespace Chromatic

open Foundation ExceptionHandler

namespace MemoryAccessMonitor

/-! ## §1  The fields of an entry -/

inductive Field where
  | monitorId
  | faultAddress
  | pageBase
  | rangeIndex
  | accessTypeCode
deriving DecidableEq, Repr

/-- `old` with one field of `e`. -/
def Event.copyField (e : Event) (field : Field) (old : Event) : Event :=
  match field with
  | .monitorId => { old with monitorId := e.monitorId }
  | .faultAddress => { old with faultAddress := e.faultAddress }
  | .pageBase => { old with pageBase := e.pageBase }
  | .rangeIndex => { old with rangeIndex := e.rangeIndex }
  | .accessTypeCode => { old with accessTypeCode := e.accessTypeCode }

/-- As the handler writes them. -/
def entryFields : List Field := [.monitorId, .faultAddress, .pageBase, .rangeIndex, .accessTypeCode]

/-- What `onAccess` is called with, evaluated in any order. -/
def argumentFields : List Field := [.faultAddress, .pageBase, .accessTypeCode, .rangeIndex]

/-- The two events agree in the field. -/
def Agree (e e' : Event) : Field → Prop
  | .monitorId => e.monitorId = e'.monitorId
  | .faultAddress => e.faultAddress = e'.faultAddress
  | .pageBase => e.pageBase = e'.pageBase
  | .rangeIndex => e.rangeIndex = e'.rangeIndex
  | .accessTypeCode => e.accessTypeCode = e'.accessTypeCode

section Fields

variable {e e' old : Event} {field other : Field}

theorem agree_copyField_self : Agree e (e.copyField field old) field := by
  cases field <;> rfl

theorem agree_copyField (h : Agree e old other) : Agree e (e.copyField field old) other := by
  cases field <;> cases other <;> first | rfl | exact h

theorem eq_of_agree (h : ∀ field, Agree e e' field) : e = e' := by
  obtain ⟨monitorId, faultAddress, pageBase, rangeIndex, accessTypeCode⟩ := e
  obtain rfl : monitorId = e'.monitorId := h .monitorId
  obtain rfl : faultAddress = e'.faultAddress := h .faultAddress
  obtain rfl : pageBase = e'.pageBase := h .pageBase
  obtain rfl : rangeIndex = e'.rangeIndex := h .rangeIndex
  obtain rfl : accessTypeCode = e'.accessTypeCode := h .accessTypeCode
  rfl

end Fields

/-! ## §2  Handlers in progress -/

/-- How far a handler is behind the check that found its range: `range.fired = true`,
`setProtection`, `writeIdx.fetch_add`, and the fields up to `ready.store`. -/
inductive Stage where
  | found
  | marked
  | opened
  | writing (idx : BitVec 32) (left : List Field)
deriving DecidableEq, Repr

structure Handler where
  ctx : ExceptionContext
  found : Found
  stage : Stage
deriving DecidableEq, Repr

def Handler.event (h : Handler) : Event := h.found.event h.ctx

/-- The monitor and the range that a scan stopped at. -/
def Found.target (f : Found) : ℕ × ℕ := (f.key, f.range.rangeIndex)

/-- The handler writes the slot. -/
def Handler.Writes (h : Handler) (slot : Fin 256) : Prop :=
  ∃ idx left, h.stage = .writing idx left ∧ slotOf idx = slot

instance (h : Handler) (slot : Fin 256) : Decidable (h.Writes slot) :=
  match hstage : h.stage with
  | .writing idx left => decidable_of_iff (slotOf idx = slot) (by simp [Handler.Writes, hstage])
  | .found | .marked | .opened => isFalse (by simp [Handler.Writes, hstage])

/-! ## §3  The state -/

/-- What the script's thread does between `ready.load` and the call of `onAccess`. -/
inductive Reading where
  | looking
  | arguments (monitor : MonitorEntry) (left : List Field) (read : Event)
deriving DecidableEq, Repr

/-- `js` says where the script's thread is up to `reading`. -/
structure ThreadedState extends MonitorState where
  handlers : List Handler
  reading : Option Reading

def ThreadedState.start (exc : ExceptionState) (prot : Addr → Prot) : ThreadedState where
  toMonitorState := .start exc prot
  handlers := []
  reading := none

/-- No handler writes the slot. -/
def ThreadedState.Free (s : ThreadedState) (slot : Fin 256) : Prop :=
  ∀ h ∈ s.handlers, ¬ h.Writes slot

instance (s : ThreadedState) (slot : Fin 256) : Decidable (s.Free slot) := by
  unfold ThreadedState.Free; infer_instance

/-- The script's thread reads the slot. -/
def ThreadedState.Reads (s : ThreadedState) (slot : Fin 256) : Prop :=
  s.reading ≠ none ∧ ∃ call readIdx writeIdx, s.js = .draining call readIdx writeIdx ∧
    slotOf readIdx = slot

/-! ## §4  What a handler does -/

/-- What a handler reads of its monitor and range; `stale` is what is left of a deleted one. -/
def Handler.view (h : Handler) (stale : Found) (s : ThreadedState) : Found :=
  if (s.monitors.lookup h.found.key).isSome then h.found else stale

/-- A handler goes on to its next stage. -/
def Handler.moveTo (h : Handler) (stage : Stage) (s : ThreadedState) : ThreadedState :=
  { s with handlers := { h with stage := stage } :: s.handlers.erase h }

/-- The loop over the monitors up to the range whose `fired` was read as false. -/
def check (ctx : ExceptionContext) (order : List (Σ _ : ℕ, MonitorEntry)) (s : ThreadedState) :
    ThreadedState :=
  match scan ctx.faultAddress order with
  | none => s
  | some f => { s with handlers := ⟨ctx, f, .found⟩ :: s.handlers }

/-- The ranges of a monitor with one of them fired. -/
def fireRange (rangeIndex : ℕ) (m : MonitorEntry) : MonitorEntry :=
  { m with ranges := m.ranges.map fun r =>
      if r.rangeIndex = rangeIndex then { r with fired := true } else r }

/-- `range.fired = true`, which is lost if the monitor was deleted. -/
def fireIn (f : Found) (monitors : Monitors) : Monitors :=
  match monitors.lookup f.key with
  | none => monitors
  | some m => monitors.insert f.key (fireRange f.range.rangeIndex m)

def markFired (h : Handler) (s : ThreadedState) : ThreadedState :=
  { h.moveTo .marked s with monitors := fireIn h.found s.monitors }

/-- `setProtection(range.pageBase, range.pageSize, range.originalProt)`. -/
def openPages (h : Handler) (granted : Bool) (stale : Found) (s : ThreadedState) :
    ThreadedState :=
  let f := h.view stale s
  { h.moveTo .opened s with
    prot := setProtection granted f.range.pageBase f.range.pageSize f.range.originalProt s.prot }

/-- `writeIdx.fetch_add(1)`. -/
def takeIndex (h : Handler) (s : ThreadedState) : ThreadedState :=
  { h.moveTo (.writing s.ring.writeIdx entryFields) s with
    ring := { s.ring with writeIdx := s.ring.writeIdx + 1 }
    inProgress := s.inProgress ++ [(s.ring.writeIdx, h.event)]
    js := s.js.disturb
    recorded := s.recorded ++ [⟨h.found.monitor, h.event⟩] }

/-- One field of the entry. -/
def writeField (h : Handler) (idx : BitVec 32) (field : Field) (left : List Field)
    (stale : Found) (s : ThreadedState) : ThreadedState :=
  let entry := s.ring.entries (slotOf idx)
  { h.moveTo (.writing idx left) s with
    ring := { s.ring with
      entries := Function.update s.ring.entries (slotOf idx)
        { entry with event := ((h.view stale s).event h.ctx).copyField field entry.event } } }

/-- `ready.store(true)`. -/
def storeReady (h : Handler) (idx : BitVec 32) (s : ThreadedState) : ThreadedState :=
  { s with
    ring := { s.ring with
      entries := Function.update s.ring.entries (slotOf idx)
        { s.ring.entries (slotOf idx) with ready := true } }
    inProgress := s.inProgress.erase (idx, h.event)
    handlers := s.handlers.erase h }

/-! ## §5  What the drain does -/

/-- `readIdx != writeIdx` and `ready.load()`. -/
def loadReady (call : Call) (readIdx writeIdx : BitVec 32) (s : ThreadedState) : ThreadedState :=
  if readIdx = writeIdx then { s with js := .finishing call }
  else if (s.ring.entries (slotOf readIdx)).ready = false then { s with js := .finishing call }
  else { s with reading := some .looking }

/-- `ready.store(false); readIdx++; readIdx.store`. -/
def clearRead (call : Call) (readIdx writeIdx : BitVec 32) (s : ThreadedState) : ThreadedState :=
  { s with
    toMonitorState := clearEntry call readIdx writeIdx s.toMonitorState
    reading := none }

/-- `g_monitors.find(entry.monitorId)`. -/
def findMonitor (call : Call) (readIdx writeIdx : BitVec 32) (s : ThreadedState) :
    ThreadedState :=
  match s.monitors.lookup (s.ring.entries (slotOf readIdx)).event.monitorId with
  | none => clearRead call readIdx writeIdx s
  | some m => { s with reading := some (.arguments m argumentFields ⟨0, 0, 0, 0, 0⟩) }

def readField (m : MonitorEntry) (readIdx : BitVec 32) (field : Field) (left : List Field)
    (read : Event) (s : ThreadedState) : ThreadedState :=
  { s with reading := some (.arguments m (left.erase field)
      ((s.ring.entries (slotOf readIdx)).event.copyField field read)) }

def callOnAccess (call : Call) (readIdx writeIdx : BitVec 32) (m : MonitorEntry) (read : Event)
    (s : ThreadedState) : ThreadedState :=
  { s with
    js := .inCallback call readIdx writeIdx
    reading := none
    delivered := s.delivered ++ [m.invocation read] }

/-! ## §6  Steps -/

namespace Threads

inductive Label where
  | enable (env : ProtectAnswers) (addresses : List Addr) (sizes : List (BitVec 32))
      (onAccess : Callback)
  | check (ctx : ExceptionContext) (order : List (Σ _ : ℕ, MonitorEntry))
  | markFired (h : Handler)
  | openPages (h : Handler) (granted : Bool) (stale : Found)
  | takeIndex (h : Handler)
  | writeField (h : Handler) (stale : Found)
  | storeReady (h : Handler)
  | begin (task : Task)
  | loadReady
  | findMonitor
  | readField (field : Field)
  | callOnAccess
  | callbackReturns
  | finish (granted : ℕ → ℕ → Bool) (order : List (Σ _ : ℕ, MonitorEntry))

inductive Step (page : PageSize) (os : Os) : ThreadedState → Label → ThreadedState → Prop
  | enable {s env addresses sizes onAccess} (hjs : s.js = .idle) :
      Step page os s (.enable env addresses sizes onAccess)
        { s with toMonitorState :=
            (MemoryAccessMonitor.enable page os env addresses sizes onAccess s.toMonitorState).2 }
  | check {s ctx order} (horder : order.Perm s.monitors.entries) :
      Step page os s (.check ctx order) (MemoryAccessMonitor.check ctx order s)
  | markFired {s h} (hmem : h ∈ s.handlers) (hstage : h.stage = .found) :
      Step page os s (.markFired h) (MemoryAccessMonitor.markFired h s)
  | openPages {s h granted stale} (hmem : h ∈ s.handlers) (hstage : h.stage = .marked) :
      Step page os s (.openPages h granted stale) (MemoryAccessMonitor.openPages h granted stale s)
  | takeIndex {s h} (hmem : h ∈ s.handlers) (hstage : h.stage = .opened) :
      Step page os s (.takeIndex h) (MemoryAccessMonitor.takeIndex h s)
  | writeField {s h idx field left stale} (hmem : h ∈ s.handlers)
      (hstage : h.stage = .writing idx (field :: left)) :
      Step page os s (.writeField h stale)
        (MemoryAccessMonitor.writeField h idx field left stale s)
  | storeReady {s h idx} (hmem : h ∈ s.handlers) (hstage : h.stage = .writing idx []) :
      Step page os s (.storeReady h) (MemoryAccessMonitor.storeReady h idx s)
  | begin {s task} (hjs : s.js = .idle) :
      Step page os s (.begin task) { s with toMonitorState := beginDrain task s.toMonitorState }
  | loadReady {s call readIdx writeIdx} (hjs : s.js = .draining call readIdx writeIdx)
      (hreading : s.reading = none) :
      Step page os s .loadReady (MemoryAccessMonitor.loadReady call readIdx writeIdx s)
  | findMonitor {s call readIdx writeIdx} (hjs : s.js = .draining call readIdx writeIdx)
      (hreading : s.reading = some .looking) :
      Step page os s .findMonitor (MemoryAccessMonitor.findMonitor call readIdx writeIdx s)
  | readField {s call readIdx writeIdx m left read field}
      (hjs : s.js = .draining call readIdx writeIdx)
      (hreading : s.reading = some (.arguments m left read)) (hfield : field ∈ left) :
      Step page os s (.readField field)
        (MemoryAccessMonitor.readField m readIdx field left read s)
  | callOnAccess {s call readIdx writeIdx m read} (hjs : s.js = .draining call readIdx writeIdx)
      (hreading : s.reading = some (.arguments m [] read)) :
      Step page os s .callOnAccess
        (MemoryAccessMonitor.callOnAccess call readIdx writeIdx m read s)
  | callbackReturns {s call readIdx writeIdx} (hjs : s.js = .inCallback call readIdx writeIdx) :
      Step page os s .callbackReturns (clearRead call readIdx writeIdx s)
  | drained {s call granted order} (hjs : s.js = .finishing call) (htask : call.task = .drain) :
      Step page os s (.finish granted order) { s with js := .idle }
  | disable {s call granted order monId} (hjs : s.js = .finishing call)
      (htask : call.task = .disable monId) :
      Step page os s (.finish granted order)
        { s with toMonitorState :=
            { MemoryAccessMonitor.disable granted monId s.toMonitorState with js := .idle } }
  | disableAll {s call granted order} (hjs : s.js = .finishing call)
      (htask : call.task = .disableAll) (horder : order.Perm s.monitors.entries) :
      Step page os s (.finish granted order)
        { s with toMonitorState :=
            { MemoryAccessMonitor.disableAll granted order s.toMonitorState with js := .idle } }

/-! ## §7  Threads that keep apart -/

/-- What no lock enforces. A range that a handler found is not found again before it is marked. A
slot that is written is not taken or read, and one that is read is not taken. A monitor is not
deleted under a handler. -/
def Apart (s : ThreadedState) : Label → Prop
  | .check ctx order => ∀ f, scan ctx.faultAddress order = some f →
      ∀ h ∈ s.handlers, h.stage = .found → h.found.target ≠ f.target
  | .takeIndex _ => ¬ s.Reads (slotOf s.ring.writeIdx) ∧ s.Free (slotOf s.ring.writeIdx)
  | .loadReady => ∀ call readIdx writeIdx, s.js = .draining call readIdx writeIdx →
      readIdx ≠ writeIdx → (s.ring.entries (slotOf readIdx)).ready = true →
      s.Free (slotOf readIdx)
  | .finish _ _ => ∀ call, s.js = .finishing call → ∀ h ∈ s.handlers,
      call.task ≠ .disable h.found.key ∧ call.task ≠ .disableAll
  | _ => True

/-! ## §8  Handlers that are not interrupted -/

/-- A run with threads that keep apart. -/
def Reaches (page : PageSize) (os : Os) (s t : ThreadedState) : Prop :=
  ∃ tr, Run (Step page os) s tr t ∧ Guarded Apart tr

section Uninterrupted

variable {page : PageSize} {os : Os} {s t u : ThreadedState} {l : Label} {ctx : ExceptionContext}
  {f : Found} {m : MonitorEntry}

theorem Reaches.refl : Reaches page os s s := ⟨[], .nil, by simp [Guarded]⟩

theorem Reaches.snoc (h : Reaches page os s t) (hstep : Step page os t l u) (hapart : Apart t l) :
    Reaches page os s u := by
  obtain ⟨tr, run, guarded⟩ := h
  exact ⟨_, run.snoc hstep, guarded_snoc.mpr ⟨guarded, hapart⟩⟩

theorem Reaches.trans (h : Reaches page os s t) (h' : Reaches page os t u) :
    Reaches page os s u := by
  obtain ⟨tr, run, guarded⟩ := h
  obtain ⟨tr', run', guarded'⟩ := h'
  exact ⟨_, run.append run', guarded_append.mpr ⟨guarded, guarded'⟩⟩

/-- What a handler does up to `writeIdx.fetch_add`. -/
def noteFound (ctx : ExceptionContext) (granted : Bool) (f : Found) (s : MonitorState) :
    MonitorState :=
  { s with
    monitors := fireIn f s.monitors
    prot := setProtection granted f.range.pageBase f.range.pageSize f.range.originalProt s.prot
    ring := { s.ring with writeIdx := s.ring.writeIdx + 1 }
    inProgress := s.inProgress ++ [(s.ring.writeIdx, f.event ctx)]
    js := s.js.disturb
    recorded := s.recorded ++ [⟨f.monitor, f.event ctx⟩] }

/-- In one step it is what `monitorSegvHandler` notes. -/
theorem noteFound_eq {s : MonitorState} {order : List (Σ _ : ℕ, MonitorEntry)} {granted : Bool}
    (hregistered : Registered s) (horder : order.Perm s.monitors.entries)
    (hscan : scan ctx.faultAddress order = some f) :
    noteFound ctx granted f s = noteAccess ctx granted f s := by
  obtain ⟨hlive, -, -⟩ := scan_found horder hscan
  obtain ⟨front, back, hranges, -, hfired, -⟩ := fireFirst_some (scan_some hscan).2
  have hindices := hregistered.indices hlive
  rw [hranges, List.map_append, List.map_cons] at hindices
  obtain ⟨-, hback, hapart⟩ := List.nodup_append.mp hindices
  -- the other ranges have other indices
  have hfront : ∀ r ∈ front, r.rangeIndex ≠ f.range.rangeIndex := fun r hr =>
    hapart _ (List.mem_map_of_mem hr) _ List.mem_cons_self
  have hbehind : ∀ r ∈ back, r.rangeIndex ≠ f.range.rangeIndex := fun r hr heq =>
    (List.nodup_cons.mp hback).1 (heq ▸ List.mem_map_of_mem hr)
  have hsame : (fireRange f.range.rangeIndex f.monitor).ranges = f.ranges := by
    simp only [fireRange, hranges, hfired, List.map_append, List.map_cons, if_true]
    rw [List.map_congr_left fun r hr => if_neg (hfront r hr),
      List.map_congr_left fun r hr => if_neg (hbehind r hr), List.map_id'', List.map_id''] <;>
      exact fun _ => rfl
  have hmonitors : fireIn f s.monitors =
      s.monitors.insert f.key { f.monitor with ranges := f.ranges } := by
    rw [fireIn, hlive, ← hsame]
    rfl
  rw [noteFound, noteAccess, hmonitors]

/-- A handler that goes from its check to `writeIdx.fetch_add`. -/
theorem reaches_noteFound (hmem : ⟨ctx, f, .found⟩ ∈ s.handlers)
    (hlive : s.monitors.lookup f.key = some m) (granted : Bool)
    (hreads : ¬ s.Reads (slotOf s.ring.writeIdx)) (hfree : s.Free (slotOf s.ring.writeIdx)) :
    Reaches page os s { s with
      toMonitorState := noteFound ctx granted f s.toMonitorState
      handlers := ⟨ctx, f, .writing s.ring.writeIdx entryFields⟩ ::
        s.handlers.erase ⟨ctx, f, .found⟩ } := by
  have hmarked := (@Reaches.refl page os s).snoc (.markFired hmem rfl) trivial
  have hopened :=
    hmarked.snoc (@Step.openPages page os _ _ granted f List.mem_cons_self rfl) trivial
  have htaken := hopened.snoc (.takeIndex List.mem_cons_self rfl) ⟨hreads, ?_⟩
  · convert htaken using 1
    have hview : (fireIn f s.monitors).lookup f.key = some (fireRange f.range.rangeIndex m) := by
      rw [fireIn, hlive]
      exact AList.lookup_insert _
    simp [takeIndex, openPages, markFired, Handler.moveTo, Handler.view, hview, noteFound,
      Handler.event]
  · intro x hx
    simp only [openPages, markFired, Handler.moveTo, List.erase_cons_head, List.mem_cons] at hx
    rcases hx with rfl | hx
    · rintro ⟨idx, left, hstage, -⟩
      cases hstage
    · exact hfree x (List.mem_of_mem_erase hx)

/-- Uninterrupted this is one step of `MemoryAccessMonitor`. -/
theorem reaches_monitorSegvHandler {order : List (Σ _ : ℕ, MonitorEntry)}
    (hregistered : Registered s.toMonitorState) (horder : order.Perm s.monitors.entries)
    (hscan : scan ctx.faultAddress order = some f) (granted : Bool)
    (hfound : ∀ h ∈ s.handlers, h.stage = .found → h.found.target ≠ f.target)
    (hreads : ¬ s.Reads (slotOf s.ring.writeIdx)) (hfree : s.Free (slotOf s.ring.writeIdx)) :
    Reaches page os s { s with
      toMonitorState := (monitorSegvHandler ctx order granted s.toMonitorState).2
      handlers := ⟨ctx, f, .writing s.ring.writeIdx entryFields⟩ :: s.handlers } := by
  obtain ⟨hlive, -, -⟩ := scan_found horder hscan
  have hchecked : Step page os s (.check ctx order)
      { s with handlers := ⟨ctx, f, .found⟩ :: s.handlers } := by
    have hstep := @Step.check page os s ctx order horder
    rwa [check, hscan] at hstep
  have hbegun := (@Reaches.refl page os s).snoc hchecked (by
    intro f' hscan' h hmem hstage
    rw [hscan] at hscan'
    cases hscan'
    exact hfound h hmem hstage)
  have hfree' : ({ s with handlers := ⟨ctx, f, .found⟩ :: s.handlers } : ThreadedState).Free
      (slotOf s.ring.writeIdx) := by
    intro x hx
    rcases List.mem_cons.mp hx with rfl | hx
    · rintro ⟨idx, left, hstage, -⟩
      cases hstage
    · exact hfree x hx
  have hnoted := @reaches_noteFound page os { s with handlers := ⟨ctx, f, .found⟩ :: s.handlers }
    ctx f _ List.mem_cons_self hlive granted hreads hfree'
  convert hbegun.trans hnoted using 1
  rw [List.erase_cons_head, monitorSegvHandler, hscan]
  dsimp only
  rw [noteFound_eq hregistered horder hscan]

/-- The fields of an entry, one after the other. -/
theorem reaches_writeFields {idx : BitVec 32} {left : List Field} {rest : List Handler}
    (hhandlers : s.handlers = ⟨ctx, f, .writing idx left⟩ :: rest)
    (hlive : s.monitors.lookup f.key = some m) :
    Reaches page os s { s with
      ring := { s.ring with
        entries := Function.update s.ring.entries (slotOf idx)
          { s.ring.entries (slotOf idx) with
            event := left.foldl (fun old field => (f.event ctx).copyField field old)
              (s.ring.entries (slotOf idx)).event } }
      handlers := ⟨ctx, f, .writing idx []⟩ :: rest } := by
  induction left generalizing s with
  | nil =>
      convert @Reaches.refl page os s using 1
      rw [← hhandlers]
      simp
  | cons field left ih =>
      have hmem : ⟨ctx, f, .writing idx (field :: left)⟩ ∈ s.handlers :=
        hhandlers ▸ List.mem_cons_self
      have hfirst := (@Reaches.refl page os s).snoc
        (@Step.writeField page os s _ _ _ _ f hmem rfl) trivial
      have hrest := ih (s := writeField ⟨ctx, f, .writing idx (field :: left)⟩ idx field left f s)
        (by simp [writeField, Handler.moveTo, hhandlers]) hlive
      convert hfirst.trans hrest using 1
      simp [writeField, Handler.moveTo, Handler.view, hlive]

/-- A handler that goes from `writeIdx.fetch_add` to its end. -/
theorem reaches_publish {idx : BitVec 32} (hmem : ⟨ctx, f, .writing idx entryFields⟩ ∈ s.handlers)
    (hlive : s.monitors.lookup f.key = some m) :
    Reaches page os s { s with
      toMonitorState := publish idx (f.event ctx) s.toMonitorState
      handlers := s.handlers.erase ⟨ctx, f, .writing idx entryFields⟩ } := by
  have hfirst := (@Reaches.refl page os s).snoc
    (@Step.writeField page os s _ _ _ _ f hmem rfl) trivial
  have hwritten := hfirst.trans (reaches_writeFields rfl hlive)
  convert hwritten.snoc (.storeReady List.mem_cons_self rfl) trivial using 1
  simp [storeReady, publish, writeField, Handler.moveTo, Handler.view, hlive, Handler.event,
    Event.copyField]

end Uninterrupted

/-! ## §9  Drains that are not interrupted -/

section Drains

variable {page : PageSize} {os : Os} {s : ThreadedState} {call : Call}
  {readIdx writeIdx : BitVec 32} {m : MonitorEntry}

/-- The arguments of `onAccess`, in the order of the list. -/
theorem reaches_readFields {left : List Field} {read : Event}
    (hjs : s.js = .draining call readIdx writeIdx)
    (hreading : s.reading = some (.arguments m left read)) :
    Reaches page os s { s with
      reading := some (.arguments m [] (left.foldl (fun old field =>
        (s.ring.entries (slotOf readIdx)).event.copyField field old) read)) } := by
  induction left generalizing s read with
  | nil =>
      convert @Reaches.refl page os s using 1
      rw [List.foldl_nil, ← hreading]
  | cons field left ih =>
      have hfirst := (@Reaches.refl page os s).snoc
        (.readField hjs hreading List.mem_cons_self) trivial
      have hnext : (readField m readIdx field (field :: left) read s).reading =
          some (.arguments m left
            ((s.ring.entries (slotOf readIdx)).event.copyField field read)) := by
        rw [readField, List.erase_cons_head]
      exact hfirst.trans (ih hjs hnext)

/-- A turn of the loop, from `ready.load` to the call of `onAccess` or to the next turn. -/
theorem reaches_drainTurn (hjs : s.js = .draining call readIdx writeIdx)
    (hreading : s.reading = none) (hfree : s.Free (slotOf readIdx)) :
    Reaches page os s
      { s with toMonitorState := drainTurn call readIdx writeIdx s.toMonitorState } := by
  have hloaded := (@Reaches.refl page os s).snoc (.loadReady hjs hreading)
    (by
      intro call' readIdx' writeIdx' hjs' _ _
      rw [hjs] at hjs'
      cases hjs'
      exact hfree)
  unfold drainTurn
  dsimp only
  unfold loadReady at hloaded
  split_ifs at hloaded ⊢ with hend hready
  · exact hloaded
  · exact hloaded
  · have hfound := hloaded.snoc (.findMonitor hjs rfl) trivial
    unfold findMonitor at hfound
    cases hlookup : s.monitors.lookup (s.ring.entries (slotOf readIdx)).event.monitorId with
    | none =>
        simp only [hlookup, clearRead] at hfound ⊢
        convert hfound using 1
        rw [← hreading]
    | some m =>
        simp only [hlookup] at hfound ⊢
        have hread := hfound.trans (reaches_readFields hjs rfl)
        convert hread.snoc (.callOnAccess hjs rfl) trivial using 1
        simp [callOnAccess, argumentFields, Event.copyField, MonitorEntry.invocation, hreading]

end Drains

end Threads

end MemoryAccessMonitor

end Chromatic
