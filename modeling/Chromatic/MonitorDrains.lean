import Chromatic.MemoryAccessMonitor
import Chromatic.Foundation.Runs
import Chromatic.Foundation.RingQueue

/-!
# What the drains deliver

As long as the ring does not overflow and no monitor goes while an event of its own is
unread, the ring is a queue: the drains deliver what was recorded, in the order recorded,
and one that runs with no handler in progress leaves nothing behind.

§1 the condition on steps · §2 what is to be shown · §3 the ring as a queue · §4 calls and
the queue · §5 enable and the beginning of a call · §6 the handler · §7 the drain loop · §8 the
end of a call · §9 runs · §10 events lost.
-/

namespace Chromatic

open Foundation ExceptionHandler

namespace MemoryAccessMonitor

/-! ## §1  The condition on steps -/

/-- The call deletes the monitor `k` when its drain is over. -/
def Task.Deletes : Task → ℕ → Prop
  | .drain, _ => False
  | .disable monId, k => k = monId
  | .disableAll, _ => True

/-- The call under way. -/
def JsThread.call : JsThread → Option Call
  | .idle => none
  | .draining call _ _ => some call
  | .inCallback call _ _ => some call
  | .finishing call => some call

/-- No event of a monitor the task deletes is ready or in progress. -/
def Unconcerned (task : Task) (s : MonitorState) : Prop :=
  (∀ k, (s.ring.entries k).ready = true →
    ¬ task.Deletes (s.ring.entries k).event.monitorId) ∧
  ∀ p ∈ s.inProgress, ¬ task.Deletes p.2.monitorId

/-- The condition on a step: a handler finds room, and does not note an access for a monitor
that a call under way deletes; such a call does not stop at an entry whose handler is in
progress before the events of the monitors it deletes are read. -/
def Roomy (s : MonitorState) : Label → Prop
  | .fault ctx order _ => ∀ f, scan ctx.faultAddress order = some f →
      (s.ring.writeIdx - s.ring.readIdx).toNat < maxPending ∧
      ∀ call, s.js.call = some call → ¬ call.task.Deletes f.monitor.id
  | .turn => ∀ call readIdx writeIdx, s.js = .draining call readIdx writeIdx →
      readIdx ≠ writeIdx → (s.ring.entries (slotOf readIdx)).ready = false →
      Unconcerned call.task s
  | _ => True

/-! ## §2  What is to be shown -/

/-- The script's thread goes on in the drain loop. -/
def advance (s : MonitorState) : MonitorState :=
  match s.js with
  | .draining call readIdx writeIdx => drainTurn call readIdx writeIdx s
  | .inCallback call readIdx writeIdx => clearEntry call readIdx writeIdx s
  | _ => s

/-- Events are delivered in the order recorded. A drain that runs with no handler in
progress delivers all there are and leaves the ring empty, and it comes to its end. -/
structure Lossless (s : MonitorState) : Prop where
  inOrder : s.delivered <+: s.recorded.map Recorded.invocation
  complete : ∀ call, s.js = .finishing call → call.alone = true →
    s.delivered = s.recorded.map Recorded.invocation ∧
      s.ring.readIdx = s.ring.writeIdx ∧ ∀ k, (s.ring.entries k).ready = false
  ends : s.js = .idle → s.inProgress = [] → ∀ task, ∃ n call,
    (advance^[n] (beginDrain task s)).js = .finishing call ∧ call.task = task ∧
      call.alone = true

/-! ## §3  The ring as a queue -/

def RingEntry.pair (entry : RingEntry) : Bool × Event := (entry.ready, entry.event)

/-- The ring with its handlers in progress. -/
def MonitorState.queue (s : MonitorState) : Ring 32 256 Event where
  slots := RingEntry.pair ∘ s.ring.entries
  write := s.ring.writeIdx
  read := s.ring.readIdx
  writers := s.inProgress

theorem queue_noteAccess (ctx : ExceptionContext) (granted : Bool) (f : Found)
    (s : MonitorState) :
    (noteAccess ctx granted f s).queue = s.queue.take (f.event ctx) :=
  rfl

theorem queue_publish (idx : BitVec 32) (e : Event) (s : MonitorState) :
    (publish idx e s).queue = s.queue.fill idx e := by
  have hslots := Function.comp_update RingEntry.pair s.ring.entries (slotOf idx) ⟨true, e⟩
  exact congrArg (fun slots => { s.queue.fill idx e with slots := slots }) hslots

theorem queue_clearEntry (call : Call) (writeIdx : BitVec 32) (s : MonitorState) :
    (clearEntry call s.ring.readIdx writeIdx s).queue = s.queue.clear := by
  have hslots := Function.comp_update RingEntry.pair s.ring.entries (slotOf s.ring.readIdx)
    { s.ring.entries (slotOf s.ring.readIdx) with ready := false }
  exact congrArg (fun slots => { s.queue.clear with slots := slots }) hslots

theorem sizes : 256 ∣ 2 ^ 32 ∧ 256 < 2 ^ 32 := by decide

/-! ## §4  Calls and the queue -/

/-- A call whose loop ends `d` entries on. Nothing behind is of a monitor it deletes. -/
structure Reads (s : MonitorState) (pending : List Recorded) (call : Call) (d : ℕ) : Prop where
  alone : call.alone = true → s.inProgress = [] ∧ d = pending.length
  behind : ∀ ρ ∈ pending.drop d, ¬ call.task.Deletes ρ.event.monitorId

/-- Where the script's thread is in the queue. -/
def AtWork (s : MonitorState) (pending : List Recorded) : JsThread → Prop
  | .idle => True
  | .draining call readIdx writeIdx => readIdx = s.ring.readIdx ∧
      ∃ d ≤ pending.length, writeIdx = readIdx + BitVec.ofNat 32 d ∧ Reads s pending call d
  | .inCallback call readIdx writeIdx => readIdx = s.ring.readIdx ∧
      (s.ring.entries (slotOf readIdx)).ready = true ∧
      ∃ d ≤ pending.length, 0 < d ∧ writeIdx = readIdx + BitVec.ofNat 32 d ∧
        Reads s pending call d
  | .finishing call => Reads s pending call 0

/-- The events already with a callback among those not yet cleared. -/
def JsThread.held : JsThread → ℕ
  | .inCallback _ _ _ => 1
  | _ => 0

/-- What was recorded is what was read and what the ring holds. -/
structure Queue (s : MonitorState) (past pending : List Recorded) : Prop where
  registered : Registered s
  recorded : s.recorded = past ++ pending
  delivered : s.delivered = (past ++ pending.take s.js.held).map Recorded.invocation
  holds : s.queue.Holds (pending.map Recorded.event)
  live : ∀ ρ ∈ pending, ∃ m, s.monitors.lookup ρ.event.monitorId = some m ∧
    m.invocation ρ.event = ρ.invocation
  atWork : AtWork s pending s.js

section Drains

variable {page : PageSize} {os : Os} {s t : MonitorState} {l : Label}
  {past pending : List Recorded}

theorem Queue.start (exc : ExceptionState) (prot : Addr → Prot) :
    Queue (.start exc prot) [] [] where
  registered := .start exc prot
  recorded := rfl
  delivered := rfl
  holds := Ring.holds_nil rfl (fun _ => rfl) rfl
  live ρ h := by cases h
  atWork := trivial

theorem Queue.room (h : Queue s past pending) : pending.length ≤ 256 := by
  have hroom := h.holds.room
  rw [List.length_map] at hroom
  exact hroom

theorem Queue.writeIdx (h : Queue s past pending) :
    s.ring.writeIdx = s.ring.readIdx + BitVec.ofNat 32 pending.length := by
  have hwrite := h.holds.write
  rw [List.length_map] at hwrite
  exact hwrite

/-- An event that is unread is ready or in progress. -/
theorem Queue.unconcerned (h : Queue s past pending) {task : Task} (hfree : Unconcerned task s) :
    ∀ ρ ∈ pending, ¬ task.Deletes ρ.event.monitorId := by
  intro ρ hρ
  obtain ⟨j, hj⟩ := List.mem_iff_getElem?.mp (List.mem_map_of_mem (f := Recorded.event) hρ)
  rcases h.holds.slots hj with ⟨hslot, -⟩ | ⟨-, hprogress⟩
  · obtain ⟨hready, hevent⟩ := Prod.mk.inj hslot
    rw [← hevent]
    exact hfree.1 _ hready
  · exact hfree.2 _ hprogress

/-- Calls and monitors change, the ring does not. -/
theorem Queue.frame (h : Queue s past pending) (hregistered : Registered t)
    (hqueue : t.queue = s.queue) (hrecorded : t.recorded = s.recorded)
    (hdelivered : t.delivered = s.delivered) (hheld : t.js.held = s.js.held)
    (hlive : ∀ ρ ∈ pending, ∃ m, t.monitors.lookup ρ.event.monitorId = some m ∧
      m.invocation ρ.event = ρ.invocation) (hwork : AtWork t pending t.js) :
    Queue t past pending where
  registered := hregistered
  recorded := hrecorded.trans h.recorded
  delivered := by rw [hdelivered, hheld]; exact h.delivered
  holds := by rw [hqueue]; exact h.holds
  live := hlive
  atWork := hwork

/-! ## §5  enable and the beginning of a call -/

theorem Queue.enable (h : Queue s past pending) (hjs : s.js = .idle) (env : ProtectAnswers)
    (addresses : List Addr) (sizes : List (BitVec 32)) (onAccess : Callback) :
    Queue (MemoryAccessMonitor.enable page os env addresses sizes onAccess s).2 past pending := by
  have hregistered := @Registered.enable page os s h.registered env addresses sizes onAccess
  unfold MemoryAccessMonitor.enable at hregistered ⊢
  split
  · exact h
  · rename_i hlen
    rw [if_neg hlen] at hregistered
    apply h.frame hregistered rfl rfl rfl rfl
    · intro ρ hρ
      obtain ⟨m, hlookup, hinvocation⟩ := h.live ρ hρ
      -- the new identifier is above that of every unread event
      have hne : ρ.event.monitorId ≠ s.nextMonId := Nat.ne_of_lt (h.registered.below hlookup)
      exact ⟨m, (AList.lookup_insert_ne hne).trans hlookup, hinvocation⟩
    · show AtWork _ pending s.js
      rw [hjs]
      trivial

theorem Queue.begin (h : Queue s past pending) (hjs : s.js = .idle) (task : Task) :
    Queue (beginDrain task s) past pending := by
  refine h.frame (h.registered.congr rfl rfl) rfl rfl rfl (by rw [hjs]; rfl) h.live ?_
  refine ⟨rfl, pending.length, le_rfl, h.writeIdx, ?_, ?_⟩
  · intro halone
    exact ⟨List.isEmpty_iff.mp halone, rfl⟩
  · intro ρ hρ
    rw [List.drop_length] at hρ
    cases hρ

/-! ## §6  The handler -/

theorem Reads.append {call : Call} {d : ℕ} {ρ : Recorded} (h : Reads s pending call d)
    (hd : d ≤ pending.length) (hρ : ¬ call.task.Deletes ρ.event.monitorId) :
    Reads t (pending ++ [ρ]) { call with alone := false } d where
  alone h := by cases h
  behind := by
    rw [List.drop_append_of_le_length hd]
    intro ρ' hρ'
    rcases List.mem_append.mp hρ' with hold | hnew
    · exact h.behind ρ' hold
    · rw [List.mem_singleton.mp hnew]
      exact hρ

/-- The call goes on reading up to where it meant to, and is alone no more. -/
theorem AtWork.noteAccess {ctx : ExceptionContext} {granted : Bool} {f : Found} {js : JsThread}
    (h : AtWork s pending js)
    (hguard : ∀ call, js.call = some call → ¬ call.task.Deletes f.monitor.id) :
    AtWork (MemoryAccessMonitor.noteAccess ctx granted f s)
      (pending ++ [⟨f.monitor, f.event ctx⟩]) js.disturb := by
  have hlen : pending.length ≤ (pending ++ [(⟨f.monitor, f.event ctx⟩ : Recorded)]).length := by
    simp
  cases js with
  | idle => trivial
  | draining call readIdx writeIdx =>
      obtain ⟨hread, d, hd, hwrite, hreads⟩ := h
      exact ⟨hread, d, hd.trans hlen, hwrite, hreads.append hd (hguard call rfl)⟩
  | inCallback call readIdx writeIdx =>
      obtain ⟨hread, hready, d, hd, hpos, hwrite, hreads⟩ := h
      exact ⟨hread, hready, d, hd.trans hlen, hpos, hwrite,
        hreads.append hd (hguard call rfl)⟩
  | finishing call => exact Reads.append h (Nat.zero_le _) (hguard call rfl)

theorem held_disturb (js : JsThread) : js.disturb.held = js.held := by
  cases js <;> rfl

/-- The callback under way is for an unread event. -/
theorem AtWork.held_le {js : JsThread} (h : AtWork s pending js) : js.held ≤ pending.length := by
  cases js with
  | inCallback call readIdx writeIdx =>
      obtain ⟨-, -, d, hd, hpos, -⟩ := h
      exact Nat.le_trans hpos hd
  | _ => exact Nat.zero_le _

theorem Queue.noteAccess (h : Queue s past pending) {ctx : ExceptionContext}
    {order : List (Σ _ : ℕ, MonitorEntry)} {f : Found} (granted : Bool)
    (horder : order.Perm s.monitors.entries) (hscan : scan ctx.faultAddress order = some f)
    (hroom : (s.ring.writeIdx - s.ring.readIdx).toNat < maxPending)
    (hguard : ∀ call, s.js.call = some call → ¬ call.task.Deletes f.monitor.id) :
    Queue (MemoryAccessMonitor.noteAccess ctx granted f s) past
      (pending ++ [⟨f.monitor, f.event ctx⟩]) := by
  obtain ⟨hlive, -, -⟩ := scan_found horder hscan
  have hid : f.monitor.id = f.key := h.registered.id_eq hlive
  refine ⟨h.registered.noteAccess granted horder hscan, ?_, ?_, ?_, ?_,
    h.atWork.noteAccess hguard⟩
  · show s.recorded ++ _ = _
    rw [h.recorded, List.append_assoc]
  · show s.delivered = List.map _ (past ++ List.take s.js.disturb.held _)
    rw [held_disturb, List.take_append_of_le_length h.atWork.held_le]
    exact h.delivered
  · rw [queue_noteAccess, List.map_append]
    exact h.holds.take sizes.1 sizes.2 hroom
  · intro ρ hρ
    show ∃ m, (s.monitors.insert f.key { f.monitor with ranges := f.ranges }).lookup
      ρ.event.monitorId = some m ∧ _
    rcases List.mem_append.mp hρ with hold | hnew
    · obtain ⟨m, hlookup, hinvocation⟩ := h.live ρ hold
      by_cases hk : ρ.event.monitorId = f.key
      · -- the monitor that was hit keeps its identifier and its callback
        rw [hk, AList.lookup_insert]
        rw [hk, hlive] at hlookup
        obtain rfl := Option.some.inj hlookup
        exact ⟨_, rfl, hinvocation⟩
      · rw [AList.lookup_insert_ne hk]
        exact ⟨m, hlookup, hinvocation⟩
    · rw [List.mem_singleton.mp hnew]
      have hk : (f.event ctx).monitorId = f.key := hid
      rw [hk, AList.lookup_insert]
      exact ⟨_, rfl, rfl⟩

/-- With a handler in progress the call is not alone. -/
theorem AtWork.publish {idx : BitVec 32} {e : Event} {js : JsThread} (h : AtWork s pending js)
    (hmem : (idx, e) ∈ s.inProgress) :
    AtWork (MemoryAccessMonitor.publish idx e s) pending js := by
  have hreads : ∀ {call d}, Reads s pending call d →
      Reads (MemoryAccessMonitor.publish idx e s) pending call d := by
    intro call d hreads
    refine ⟨fun halone => ?_, hreads.behind⟩
    rw [(hreads.alone halone).1] at hmem
    cases hmem
  cases js with
  | idle => trivial
  | draining call readIdx writeIdx =>
      obtain ⟨hread, d, hd, hwrite, hold⟩ := h
      exact ⟨hread, d, hd, hwrite, hreads hold⟩
  | inCallback call readIdx writeIdx =>
      obtain ⟨hread, hready, d, hd, hpos, hwrite, hold⟩ := h
      refine ⟨hread, ?_, d, hd, hpos, hwrite, hreads hold⟩
      show (Function.update s.ring.entries (slotOf idx) ⟨true, e⟩ (slotOf readIdx)).ready = true
      by_cases hslot : slotOf readIdx = slotOf idx
      · rw [hslot, Function.update_self]
      · rw [Function.update_of_ne hslot]
        exact hready
  | finishing call => exact hreads h

theorem Queue.publish (h : Queue s past pending) {idx : BitVec 32} {e : Event}
    (hmem : (idx, e) ∈ s.inProgress) :
    Queue (MemoryAccessMonitor.publish idx e s) past pending where
  registered := h.registered.congr rfl rfl
  recorded := h.recorded
  delivered := h.delivered
  holds := by
    rw [queue_publish]
    exact h.holds.fill sizes.1 hmem
  live := h.live
  atWork := h.atWork.publish hmem

/-! ## §7  The drain loop -/

theorem Reads.finish {call : Call} (h : Reads s pending call 0) :
    Reads { s with js := .finishing call } pending call 0 :=
  ⟨h.alone, h.behind⟩

/-- The loop meant to read `d` entries on; where its indices differ there is one. -/
theorem exists_cons_of_ne {readIdx writeIdx : BitVec 32} {d : ℕ} (hd : d ≤ pending.length)
    (hwrite : writeIdx = readIdx + BitVec.ofNat 32 d) (hne : readIdx ≠ writeIdx) :
    0 < d ∧ ∃ ρ rest, pending = ρ :: rest := by
  have hpos : 0 < d := by
    rcases Nat.eq_zero_or_pos d with rfl | hpos
    · exact absurd (hwrite.trans (BitVec.add_zero _)).symm hne
    · exact hpos
  exact ⟨hpos, List.exists_cons_of_length_pos (Nat.lt_of_lt_of_le hpos hd)⟩

/-- A ready first entry is that of the first event. -/
theorem Queue.first_ready {ρ : Recorded} {rest : List Recorded} (h : Queue s past (ρ :: rest))
    (hready : (s.ring.entries (slotOf s.ring.readIdx)).ready = true) :
    (s.ring.entries (slotOf s.ring.readIdx)).event = ρ.event := by
  rcases h.holds.first with ⟨hslot, -⟩ | ⟨hnot, -⟩
  · exact congrArg Prod.snd hslot
  · exact absurd (hready.symm.trans hnot) (by decide)

/-- With no handler in progress the first entry is ready. -/
theorem Queue.first_of_alone {ρ : Recorded} {rest : List Recorded}
    (h : Queue s past (ρ :: rest)) (hnone : s.inProgress = []) :
    (s.ring.entries (slotOf s.ring.readIdx)).ready = true := by
  rcases h.holds.first with ⟨hslot, -⟩ | ⟨-, hmem⟩
  · exact congrArg Prod.fst hslot
  · have hmem' : (s.ring.readIdx, ρ.event) ∈ s.inProgress := hmem
    rw [hnone] at hmem'
    cases hmem'

/-- The callback for the first event. -/
theorem Queue.deliver {ρ : Recorded} {rest : List Recorded} {call : Call}
    {writeIdx : BitVec 32} (h : Queue s past (ρ :: rest)) (hheld : s.js.held = 0)
    (hwork : AtWork s (ρ :: rest) (.inCallback call s.ring.readIdx writeIdx)) :
    Queue { s with
      js := .inCallback call s.ring.readIdx writeIdx
      delivered := s.delivered ++ [ρ.invocation] } past (ρ :: rest) where
  registered := h.registered.congr rfl rfl
  recorded := h.recorded
  delivered := by
    show s.delivered ++ [_] = List.map _ (past ++ [ρ])
    rw [h.delivered, hheld, List.take_zero, List.append_nil, List.map_append]
    rfl
  holds := h.holds
  live := h.live
  atWork := by
    obtain ⟨hread, hready, d, hd, hpos, hwrite, hreads⟩ := hwork
    exact ⟨hread, hready, d, hd, hpos, hwrite, ⟨hreads.alone, hreads.behind⟩⟩

/-- One turn of the loop in a queue: the call ends, or the first event is delivered. -/
theorem Queue.turn (h : Queue s past pending) {call : Call} {readIdx writeIdx : BitVec 32}
    (hjs : s.js = .draining call readIdx writeIdx) (hguard : Roomy s .turn) :
    Queue (drainTurn call readIdx writeIdx s) past pending := by
  have hwork := h.atWork
  rw [hjs] at hwork
  obtain ⟨rfl, d, hd, hwrite, hreads⟩ := hwork
  have hheld : s.js.held = 0 := by rw [hjs]; rfl
  have hfinish : Reads s pending call 0 →
      Queue { s with js := .finishing call } past pending := fun hreads =>
    h.frame (h.registered.congr rfl rfl) rfl rfl rfl hheld.symm h.live hreads.finish
  unfold drainTurn
  dsimp only
  split
  · -- the loop has read all it meant to
    rename_i heq
    have hlt : d < 2 ^ 32 := Nat.lt_of_le_of_lt (hd.trans h.room) sizes.2
    obtain rfl := eq_zero_of_add_ofNat hlt (heq.trans hwrite)
    exact hfinish hreads
  · rename_i hne
    obtain ⟨hpos, ρ, rest, rfl⟩ := exists_cons_of_ne hd hwrite hne
    split
    · -- the first entry is a handler's in progress, so the call is not alone
      rename_i hready
      refine hfinish ⟨fun halone => ?_, h.unconcerned (hguard call _ _ hjs hne hready)⟩
      rw [h.first_of_alone (hreads.alone halone).1] at hready
      cases hready
    · -- the first event goes to its monitor, which is live
      rename_i hready
      have hready' := Bool.of_not_eq_false hready
      obtain ⟨m, hlookup, hinvocation⟩ := h.live ρ List.mem_cons_self
      rw [h.first_ready hready', hlookup]
      dsimp only
      rw [hinvocation]
      exact h.deliver hheld ⟨rfl, hready', d, hd, hpos, hwrite, hreads⟩

/-- Clearing the first entry takes its event from the queue. -/
theorem Queue.clearEntry (h : Queue s past pending) {call : Call} {readIdx writeIdx : BitVec 32}
    (hjs : s.js = .inCallback call readIdx writeIdx) :
    ∃ ρ rest, pending = ρ :: rest ∧
      Queue (MemoryAccessMonitor.clearEntry call readIdx writeIdx s) (past ++ [ρ]) rest := by
  have hwork := h.atWork
  rw [hjs] at hwork
  obtain ⟨rfl, hready, d, hd, hpos, hwrite, hreads⟩ := hwork
  obtain ⟨ρ, rest, rfl⟩ := List.exists_cons_of_length_pos (Nat.lt_of_lt_of_le hpos hd)
  refine ⟨ρ, rest, rfl, h.registered.congr rfl rfl, ?_, ?_, ?_, ?_, ?_⟩
  · rw [List.append_assoc]
    exact h.recorded
  · show s.delivered = List.map _ (past ++ [ρ] ++ [])
    rw [h.delivered, hjs, List.append_nil]
    rfl
  · rw [queue_clearEntry]
    exact Ring.Holds.clear sizes.1 h.holds hready
  · intro ρ' hρ'
    exact h.live ρ' (List.mem_cons_of_mem _ hρ')
  · -- the loop is to read one entry less
    obtain ⟨d, rfl⟩ := Nat.exists_eq_add_of_lt hpos
    rw [Nat.zero_add] at *
    refine ⟨rfl, d, Nat.le_of_succ_le_succ hd, ?_, ?_, ?_⟩
    · rw [succ_add_ofNat]
      exact hwrite
    · intro halone
      obtain ⟨hnone, hlength⟩ := hreads.alone halone
      exact ⟨hnone, Nat.succ.inj hlength⟩
    · exact hreads.behind

/-! ## §8  The end of a call -/

theorem Queue.drained (h : Queue s past pending) {call : Call} (hjs : s.js = .finishing call) :
    Queue { s with js := .idle } past pending :=
  h.frame (h.registered.congr rfl rfl) rfl rfl rfl (by rw [hjs]; rfl) h.live trivial

theorem Queue.disable (h : Queue s past pending) {call : Call} {monId : ℕ}
    (hjs : s.js = .finishing call) (htask : call.task = .disable monId)
    (granted : ℕ → ℕ → Bool) :
    Queue { MemoryAccessMonitor.disable granted monId s with js := .idle } past pending := by
  have hwork := h.atWork
  rw [hjs] at hwork
  have hregistered := (h.registered.disable granted monId).congr
    (t := { MemoryAccessMonitor.disable granted monId s with js := .idle }) rfl rfl
  unfold MemoryAccessMonitor.disable at hregistered ⊢
  split
  · rename_i hnone
    rw [hnone] at hregistered
    exact h.frame hregistered rfl rfl rfl (by rw [hjs]; rfl) h.live trivial
  · rename_i m hsome
    rw [hsome] at hregistered
    refine h.frame hregistered rfl rfl rfl (by rw [hjs]; rfl) ?_ trivial
    intro ρ hρ
    obtain ⟨m', hlookup, hinvocation⟩ := h.live ρ hρ
    have hne : ρ.event.monitorId ≠ monId := by
      have hnot := Reads.behind hwork ρ hρ
      rw [htask] at hnot
      exact hnot
    exact ⟨m', (AList.lookup_erase_ne hne).trans hlookup, hinvocation⟩

theorem Queue.disableAll (h : Queue s past pending) {call : Call}
    (hjs : s.js = .finishing call) (htask : call.task = .disableAll)
    (granted : ℕ → ℕ → Bool) (order : List (Σ _ : ℕ, MonitorEntry)) :
    Queue { MemoryAccessMonitor.disableAll granted order s with js := .idle } past pending := by
  have hwork := h.atWork
  rw [hjs] at hwork
  refine h.frame ?_ rfl rfl rfl (by rw [hjs]; rfl) ?_ trivial
  · constructor <;> intro k m hlookup <;> cases hlookup
  · intro ρ hρ
    have hnot := Reads.behind hwork ρ hρ
    rw [htask] at hnot
    exact absurd trivial hnot

/-! ## §9  Runs -/

theorem Queue.step (h : Queue s past pending) (hroomy : Roomy s l)
    (hstep : Step page os s l t) : ∃ past' pending', Queue t past' pending' := by
  cases hstep with
  | enable hjs => exact ⟨past, pending, h.enable hjs _ _ _ _⟩
  | begin hjs => exact ⟨past, pending, h.begin hjs _⟩
  | turn hjs => exact ⟨past, pending, h.turn hjs hroomy⟩
  | callbackReturns hjs =>
      obtain ⟨ρ, rest, -, hqueue⟩ := h.clearEntry hjs
      exact ⟨past ++ [ρ], rest, hqueue⟩
  | drained hjs htask => exact ⟨past, pending, h.drained hjs⟩
  | disable hjs htask => exact ⟨past, pending, h.disable hjs htask _⟩
  | disableAll hjs htask horder => exact ⟨past, pending, h.disableAll hjs htask _ _⟩
  | @fault ctx order granted horder =>
      rcases monitorSegvHandler_cases ctx order granted s with ⟨-, heq⟩ | ⟨f, hscan, heq⟩
      · rw [heq]; exact ⟨past, pending, h⟩
      · obtain ⟨hroom, hguard⟩ := hroomy f hscan
        rw [heq]
        exact ⟨past, _, h.noteAccess granted horder hscan hroom hguard⟩
  | publish hmem => exact ⟨past, pending, h.publish hmem⟩

/-- A call that is alone finds the first entry ready, or has come to its end. -/
theorem Queue.turn_alone (h : Queue s past pending) {call : Call} {readIdx writeIdx : BitVec 32}
    (hjs : s.js = .draining call readIdx writeIdx) (halone : call.alone = true) :
    Roomy s .turn ∧ (drainTurn call readIdx writeIdx s).js =
      if pending = [] then .finishing call else .inCallback call readIdx writeIdx := by
  have hwork := h.atWork
  rw [hjs] at hwork
  obtain ⟨rfl, d, hd, hwrite, hreads⟩ := hwork
  obtain ⟨hnone, rfl⟩ := hreads.alone halone
  unfold Roomy drainTurn
  rw [hjs]
  dsimp only
  cases pending with
  | nil =>
      have hend : s.ring.readIdx = writeIdx := (hwrite.trans (BitVec.add_zero _)).symm
      rw [if_pos hend, if_pos rfl]
      refine ⟨?_, rfl⟩
      rintro call' readIdx' writeIdx' heq hne
      obtain ⟨-, rfl, rfl⟩ := JsThread.draining.inj heq
      exact absurd hend hne
  | cons ρ rest =>
      have hne : s.ring.readIdx ≠ writeIdx := by
        intro heq
        have hlt := Nat.lt_of_le_of_lt h.room sizes.2
        exact absurd (eq_zero_of_add_ofNat hlt (heq.trans hwrite)) (Nat.succ_ne_zero _)
      have hready := h.first_of_alone hnone
      obtain ⟨m, hlookup, -⟩ := h.live ρ List.mem_cons_self
      rw [if_neg hne, hready, h.first_ready hready, if_neg (by decide), hlookup,
        if_neg (List.cons_ne_nil _ _)]
      refine ⟨?_, rfl⟩
      rintro call' readIdx' writeIdx' heq - hnot
      obtain ⟨-, rfl, -⟩ := JsThread.draining.inj heq
      exact absurd (hready.symm.trans hnot) (by decide)

/-- A call that is alone reads the queue to its end. -/
theorem Queue.ends (h : Queue s past pending) {call : Call} {readIdx writeIdx : BitVec 32}
    (hjs : s.js = .draining call readIdx writeIdx) (halone : call.alone = true) :
    ∃ n call', (advance^[n] s).js = .finishing call' ∧ call'.task = call.task ∧
      call'.alone = true := by
  induction pending generalizing s past call readIdx with
  | nil =>
      obtain ⟨-, hend⟩ := h.turn_alone hjs halone
      refine ⟨1, call, ?_, rfl, halone⟩
      show (advance s).js = _
      unfold advance
      rw [hjs]
      exact hend
  | cons ρ rest ih =>
      obtain ⟨hroomy, hcallback⟩ := h.turn_alone hjs halone
      rw [if_neg (List.cons_ne_nil _ _)] at hcallback
      obtain ⟨ρ', rest', heq, hqueue⟩ := (h.turn hjs hroomy).clearEntry hcallback
      obtain ⟨-, rfl⟩ := List.cons.inj heq
      -- two steps further there is one event less
      have htwo : advance (advance s) =
          MemoryAccessMonitor.clearEntry call readIdx writeIdx
            (drainTurn call readIdx writeIdx s) := by
        have hone : advance s = drainTurn call readIdx writeIdx s := by
          unfold advance
          rw [hjs]
        rw [hone]
        unfold advance
        rw [hcallback]
      obtain ⟨n, call', hfinishing, htask, halone'⟩ :=
        ih hqueue rfl halone
      refine ⟨n + 2, call', ?_, htask, halone'⟩
      rw [Function.iterate_add_apply]
      show (advance^[n] (advance (advance s))).js = _
      rw [htwo]
      exact hfinishing

/-- What `advance` does in the loop is a step of the script's thread. -/
theorem step_turn {call : Call} {readIdx writeIdx : BitVec 32}
    (hjs : s.js = .draining call readIdx writeIdx) : Step page os s .turn (advance s) := by
  unfold advance
  rw [hjs]
  exact .turn hjs

theorem step_callbackReturns {call : Call} {readIdx writeIdx : BitVec 32}
    (hjs : s.js = .inCallback call readIdx writeIdx) :
    Step page os s .callbackReturns (advance s) := by
  unfold advance
  rw [hjs]
  exact .callbackReturns hjs

theorem Queue.lossless (h : Queue s past pending) : Lossless s where
  inOrder := by
    rw [h.delivered, h.recorded]
    exact ((List.prefix_append_right_inj past).mpr (List.take_prefix _ _)).map _
  complete := by
    intro call hjs halone
    have hwork := h.atWork
    rw [hjs] at hwork
    obtain ⟨-, hlength⟩ := Reads.alone hwork halone
    obtain rfl : pending = [] := List.eq_nil_of_length_eq_zero hlength.symm
    obtain ⟨hread, hready⟩ := h.holds.empty
    refine ⟨?_, hread, hready⟩
    rw [h.delivered, h.recorded, List.take_nil]
  ends := by
    intro hjs hnone task
    apply (h.begin hjs task).ends rfl
    exact List.isEmpty_iff.mpr hnone

end Drains

/-! ## §10  Events lost -/

section Concrete

theorem roomy_oneReady : Guarded Roomy
    [(atStart, watchTwo 0x1000 0x3000),
      (enabled 0x1000 0x3000, hitAt 0x1000 (enabled 0x1000 0x3000)),
      (hit 0x1000 (enabled 0x1000 0x3000), .publish 0 (readEvent 0x1000 0))] := by
  intro p hp
  simp only [List.mem_cons, List.not_mem_nil, or_false] at hp
  rcases hp with rfl | rfl | rfl
  · trivial
  · intro f _
    exact ⟨by decide, fun call hcall => by cases hcall⟩
  · trivial

/-- The callback of the first event reads the second buffer while `disable` drains. -/
def readInCallback : MonitorState :=
  publish 1 (readEvent 0x3000 1) (hit 0x3000 (advance (beginDrain (.disable 1) oneReady)))

def disabled : MonitorState :=
  { disable (fun _ _ => true) 1 (advance (advance readInCallback)) with js := .idle }

/-- The event noted in the callback is behind what `disable` reads, and the monitor is gone
when the next drain comes to it. -/
theorem disable_forgets : ∃ tr t, Run (Step smallPages .linux) atStart tr t ∧
    t.js = .finishing ⟨.drain, 1, true⟩ ∧ t.delivered.length = 1 ∧ t.recorded.length = 2 := by
  have called := (run_oneReady.snoc (a := .begin (.disable 1)) (.begin rfl)).snoc (step_turn rfl)
  have noted : ∃ tr, Run (Step smallPages .linux) atStart tr readInCallback :=
    ⟨_, (called.snoc (step_hit 0x3000 _)).snoc (.publish (by decide))⟩
  obtain ⟨tr, run⟩ := noted
  have hdone : (advance (advance readInCallback)).js = .finishing ⟨.disable 1, 1, false⟩ := by
    decide
  have deleted : Step smallPages .linux (advance (advance readInCallback))
      (.finish (fun _ _ => true) []) disabled := .disable hdone rfl
  have gone := ((run.snoc (step_callbackReturns rfl)).snoc (step_turn rfl)).snoc deleted
  have drained := (gone.snoc (a := .begin .drain) (.begin rfl)).snoc (step_turn rfl)
  exact ⟨_, _, drained.snoc (step_turn rfl), by decide, by decide, by decide⟩

/-- The base of the `i`-th of many pages. -/
def pageAt (i : ℕ) : Addr := BitVec.ofNat 64 (0x1000 * (i + 1))

/-- A monitor of `n` pages. -/
def watchMany (n : ℕ) : Label :=
  .enable allGranted ((List.range n).map pageAt) (List.replicate n 4) 0

def manyWatched (n : ℕ) : MonitorState :=
  (enable smallPages .linux allGranted ((List.range n).map pageAt) (List.replicate n 4) 0
    atStart).2

/-- The `i`-th page is read and the handler runs to its end. -/
def readPage (s : MonitorState) (i : ℕ) : MonitorState :=
  match (hit (pageAt i) s).inProgress with
  | [] => hit (pageAt i) s
  | p :: _ => publish p.1 p.2 (hit (pageAt i) s)

theorem step_watchMany (n : ℕ) :
    Step smallPages .linux atStart (watchMany n) (manyWatched n) :=
  .enable rfl

theorem manyWatched_js (n : ℕ) : (manyWatched n).js = .idle := by
  unfold manyWatched enable
  split <;> rfl

theorem hit_js {s : MonitorState} (a : Addr) (hjs : s.js = .idle) : (hit a s).js = .idle := by
  unfold hit
  rcases monitorSegvHandler_cases (readAt a) s.monitors.entries true s with
    ⟨-, heq⟩ | ⟨f, -, heq⟩
  · rw [heq]
    exact hjs
  · rw [heq]
    show s.js.disturb = _
    rw [hjs]
    rfl

theorem run_readPages {s₀ s : MonitorState} {tr : List (MonitorState × Label)}
    (run : Run (Step smallPages .linux) s₀ tr s) (hjs : s.js = .idle) (pages : List ℕ) :
    ∃ tr', Run (Step smallPages .linux) s₀ tr' (pages.foldl readPage s) ∧
      (pages.foldl readPage s).js = .idle := by
  induction pages generalizing tr s with
  | nil => exact ⟨tr, run, hjs⟩
  | cons i pages ih =>
      have hnoted := run.snoc (step_hit (pageAt i) s)
      have hidle := hit_js (pageAt i) hjs
      unfold List.foldl readPage
      cases hprogress : (hit (pageAt i) s).inProgress with
      | nil => exact ih hnoted hidle
      | cons p rest =>
          exact ih (hnoted.snoc (.publish (hprogress ▸ List.mem_cons_self))) hidle

/-- All of 257 pages were read since the last drain, in order. -/
def overflown : MonitorState := (List.range 257).foldl readPage (manyWatched 257)

/-- The range of the first call and that of the first event. -/
theorem overflown_first :
    (advance (beginDrain .drain overflown)).delivered.map Invocation.rangeIndex = [256] ∧
      ((advance (beginDrain .drain overflown)).recorded.map
        (Invocation.rangeIndex ∘ Recorded.invocation)).head? = some 0 := by
  decide +kernel

end Concrete

end MemoryAccessMonitor

end Chromatic
