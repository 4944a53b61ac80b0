import Mathlib.Data.Prod.Lex
import Chromatic.MemoryAccessMonitor
import Chromatic.Foundation.Runs

/-!
# Callbacks that call the monitors

`drainPending` calls `onAccess` under `g_monMutex`, a `std::mutex`, which `enable`, `disable`,
`disableAll` and the drain loop itself lock. Here a callback makes calls, one after the other,
and those drain the ring and call further callbacks before they lock anything.

§1 callbacks with a script · §2 the functions on a thread that may hold the mutex · §3 steps ·
§4 what is to be shown · §5 where suspended drains stand · §6 steps that keep off the mutex ·
§7 runs · §8 monitors that disable themselves.
-/

namespace Chromatic

open Foundation ExceptionHandler

namespace MemoryAccessMonitor

/-! ## §1  Callbacks with a script -/

/-- A call that a callback makes. -/
inductive Request where
  | enable (env : ProtectAnswers) (addresses : List Addr) (sizes : List (BitVec 32))
      (onAccess : Callback)
  | run (task : Task)

/-- A drain whose callback has called a function that drains, and what the callback asks for
when that returns. -/
structure Suspended where
  call : Call
  readIdx : BitVec 32
  writeIdx : BitVec 32
  script : List Request

/-- `script` is what the callback under way has yet to ask for and `outer` are the drains below
it, the innermost first. `blocked` says that the thread locks the mutex that it holds. -/
structure Reentry where
  mon : MonitorState
  script : List Request
  outer : List Suspended
  blocked : Bool

def Reentry.start (exc : ExceptionState) (prot : Addr → Prot) : Reentry where
  mon := .start exc prot
  script := []
  outer := []
  blocked := false

/-! ## §2  The functions on a thread that may hold the mutex -/

/-- The thread is in a callback, or in a call that a callback made. -/
def Reentry.holdsMutex (s : Reentry) : Bool :=
  match s.mon.js with
  | .inCallback _ _ _ => true
  | _ => !s.outer.isEmpty

/-- `std::lock_guard<std::mutex> lock(g_monMutex)` and what follows it. -/
def Reentry.lock (s : Reentry) (behind : Reentry → Reentry) : Reentry :=
  if s.holdsMutex then { s with blocked := true } else behind s

/-- One turn of the loop. The callback, if there is one, will ask for `script`. -/
def Reentry.turn (call : Call) (readIdx writeIdx : BitVec 32) (script : List Request)
    (s : Reentry) : Reentry :=
  let proceed := fun s : Reentry =>
    { s with mon := drainTurn call readIdx writeIdx s.mon, script := script }
  if readIdx = writeIdx ∨ (s.mon.ring.entries (slotOf readIdx)).ready = false then proceed s
  else s.lock proceed

/-- The callback of the drain `x` makes its next call. -/
def Reentry.ask (page : PageSize) (os : Os) (x : Suspended) (s : Reentry) : Request → Reentry
  | .enable env addresses sizes onAccess =>
      if addresses.length ≠ sizes.length then { s with script := x.script }
      else s.lock fun s =>
        { s with
          mon := (enable page os env addresses sizes onAccess s.mon).2
          script := x.script }
  | .run task =>
      { s with mon := beginDrain task s.mon, script := [], outer := x :: s.outer }

/-- The drain of a call that the callback of the drain `x` made is over. -/
def Reentry.resume (granted : ℕ → ℕ → Bool) (order : List (Σ _ : ℕ, MonitorEntry)) (call : Call)
    (x : Suspended) (outer : List Suspended) (s : Reentry) : Reentry :=
  let back := fun s : Reentry =>
    { s with
      mon := { s.mon with
        js := .inCallback { x.call with alone := x.call.alone && call.alone }
          x.readIdx x.writeIdx }
      script := x.script
      outer := outer }
  match call.task with
  | .drain => back s
  | .disable monId => s.lock fun s => back { s with mon := disable granted monId s.mon }
  | .disableAll => s.lock fun s => back { s with mon := disableAll granted order s.mon }

/-! ## §3  Steps -/

inductive ReentryLabel where
  | mon (l : Label)
  | ask (q : Request)

/-- The handler locks nothing. -/
def Label.OfHandler : Label → Prop
  | .fault _ _ _ => True
  | .publish _ _ => True
  | _ => False

/-- What a script does outside callbacks, and the end of that. -/
def Label.Outermost : Label → Prop
  | .enable _ _ _ _ => True
  | .begin _ => True
  | .finish _ _ => True
  | _ => False

/-- The steps of calls of `drainPending`, `disable` and `disableAll`. -/
def ReentryLabel.OfCall : ReentryLabel → Prop
  | .mon .turn => True
  | .mon .callbackReturns => True
  | .mon (.finish _ _) => True
  | .ask _ => True
  | _ => False

/-- Every callback may ask for anything. -/
inductive ReentryStep (page : PageSize) (os : Os) : Reentry → ReentryLabel → Reentry → Prop
  | handler {s l t} (hl : l.OfHandler) (hstep : Step page os s.mon l t) :
      ReentryStep page os s (.mon l) { s with mon := t }
  | outermost {s l t} (hfree : s.blocked = false) (houter : s.outer = []) (hl : l.Outermost)
      (hstep : Step page os s.mon l t) : ReentryStep page os s (.mon l) { s with mon := t }
  | turn {s call readIdx writeIdx} (script : List Request) (hfree : s.blocked = false)
      (hjs : s.mon.js = .draining call readIdx writeIdx) :
      ReentryStep page os s (.mon .turn) (s.turn call readIdx writeIdx script)
  | ask {s call readIdx writeIdx q rest} (hfree : s.blocked = false)
      (hjs : s.mon.js = .inCallback call readIdx writeIdx) (hscript : s.script = q :: rest) :
      ReentryStep page os s (.ask q) (s.ask page os ⟨call, readIdx, writeIdx, rest⟩ q)
  | callbackReturns {s call readIdx writeIdx} (hfree : s.blocked = false)
      (hjs : s.mon.js = .inCallback call readIdx writeIdx) (hscript : s.script = []) :
      ReentryStep page os s (.mon .callbackReturns)
        { s with mon := clearEntry call readIdx writeIdx s.mon }
  | resume {s call x outer granted order} (hfree : s.blocked = false)
      (hjs : s.mon.js = .finishing call) (houter : s.outer = x :: outer)
      (horder : order.Perm s.mon.monitors.entries) :
      ReentryStep page os s (.mon (.finish granted order)) (s.resume granted order call x outer)

/-! ## §4  What is to be shown -/

/-- A call that comes back to the callback: an `enable` of arrays of different lengths, which
throws, and `drainPending` when the ring's indices are equal. -/
def Request.Harmless (s : Reentry) : Request → Prop
  | .enable _ addresses sizes _ => addresses.length ≠ sizes.length
  | .run .drain => s.mon.ring.readIdx = s.mon.ring.writeIdx
  | .run (.disable _) => False
  | .run .disableAll => False

/-- A step that asks for nothing, or for nothing that locks. -/
def Harmless (s : Reentry) : ReentryLabel → Prop
  | .ask q => q.Harmless s
  | .mon _ => True

section Ending

variable (page : PageSize) (os : Os)

/-- The script's thread can go on with the call it is in. -/
def Able (s : Reentry) : Prop := ∃ l u, l.OfCall ∧ ReentryStep page os s l u

def Own (s u : Reentry) : Prop := ∃ l, l.OfCall ∧ Harmless s l ∧ ReentryStep page os s l u

def Env (s u : Reentry) : Prop := ∃ l : Label, l.OfHandler ∧ ReentryStep page os s (.mon l) u

def Reentry.Idle (s : Reentry) : Prop := s.mon.js = .idle

/-- The thread waits for no mutex of its own, and the call it is in comes to an end however
often handlers run in between. -/
structure Unhindered (s : Reentry) : Prop where
  free : s.blocked = false
  ends : Ends (Able page os) Reentry.Idle (Own page os) (Env page os) s

end Ending

/-! ## §5  Where suspended drains stand -/

/-- A callback for the entry at `readIdx` is under way. -/
structure AtEntry (ring : PendingRing) (readIdx writeIdx : BitVec 32) : Prop where
  current : ring.readIdx = readIdx
  more : readIdx ≠ writeIdx
  ready : (ring.entries (slotOf readIdx)).ready = true

/-- Where the script's thread is, for the given drains below. A callback that called into the
monitors finds its own entry first, so it has no callbacks above it. -/
def Stands (ring : PendingRing) (outer : List Suspended) : JsThread → Prop
  | .idle => outer = []
  | .draining _ readIdx _ => ring.readIdx = readIdx ∧
      (outer = [] ∨ ∃ x, outer = [x] ∧ AtEntry ring x.readIdx x.writeIdx)
  | .inCallback _ readIdx writeIdx => AtEntry ring readIdx writeIdx ∧ outer = []
  | .finishing _ => outer = [] ∨ ∃ x, outer = [x] ∧ AtEntry ring x.readIdx x.writeIdx

def Nested (s : Reentry) : Prop := s.blocked = true ∨ Stands s.mon.ring s.outer s.mon.js

section Nesting

variable {page : PageSize} {os : Os} {s u : Reentry} {l : ReentryLabel} {ring ring' : PendingRing}
  {outer : List Suspended} {call : Call} {readIdx writeIdx : BitVec 32} {x : Suspended}

theorem Nested.start (exc : ExceptionState) (prot : Addr → Prot) : Nested (.start exc prot) :=
  .inr rfl

theorem Nested.stands (h : Nested s) (hfree : s.blocked = false) :
    Stands s.mon.ring s.outer s.mon.js := by
  rcases h with hblocked | h
  · rw [hfree] at hblocked
    cases hblocked
  · exact h

/-- The reading index and the entries that are ready are the script's thread's. -/
theorem AtEntry.keep (h : AtEntry ring readIdx writeIdx) (hread : ring'.readIdx = ring.readIdx)
    (hready : ∀ k, (ring.entries k).ready = true → (ring'.entries k).ready = true) :
    AtEntry ring' readIdx writeIdx :=
  ⟨hread.trans h.current, h.more, hready _ h.ready⟩

theorem Stands.keep {js : JsThread} (h : Stands ring outer js)
    (hread : ring'.readIdx = ring.readIdx)
    (hready : ∀ k, (ring.entries k).ready = true → (ring'.entries k).ready = true) :
    Stands ring' outer js := by
  cases js with
  | idle => exact h
  | draining call readIdx writeIdx =>
      obtain ⟨hcurrent, hout | ⟨x, hout, hx⟩⟩ := h
      · exact ⟨hread.trans hcurrent, .inl hout⟩
      · exact ⟨hread.trans hcurrent, .inr ⟨x, hout, hx.keep hread hready⟩⟩
  | inCallback call readIdx writeIdx => exact ⟨h.1.keep hread hready, h.2⟩
  | finishing call =>
      rcases h with hout | ⟨x, hout, hx⟩
      · exact .inl hout
      · exact .inr ⟨x, hout, hx.keep hread hready⟩

theorem Stands.disturb {js : JsThread} (h : Stands ring outer js) :
    Stands ring outer js.disturb := by
  cases js <;> exact h

/-- All that a handler's step changes of what a drain looks at. -/
theorem handler_cases {s t : MonitorState} {l : Label} (hl : l.OfHandler)
    (hstep : Step page os s l t) :
    (t.js = s.js ∨ t.js = s.js.disturb) ∧ t.ring.readIdx = s.ring.readIdx ∧
      ∀ k, (s.ring.entries k).ready = true → (t.ring.entries k).ready = true := by
  cases hstep with
  | @fault ctx order granted horder =>
      rcases monitorSegvHandler_cases ctx order granted s with ⟨-, heq⟩ | ⟨f, -, heq⟩ <;> rw [heq]
      · exact ⟨.inl rfl, rfl, fun _ => id⟩
      · exact ⟨.inr rfl, rfl, fun _ => id⟩
  | @publish idx e hmem =>
      refine ⟨.inl rfl, rfl, fun k hready => ?_⟩
      change (Function.update s.ring.entries (slotOf idx) ⟨true, e⟩ k).ready = true
      by_cases hk : k = slotOf idx
      · rw [hk, Function.update_self]
      · rwa [Function.update_of_ne hk]
  | enable | begin | turn | callbackReturns | drained | disable | disableAll => cases hl

/-- Outside callbacks nothing waits below. -/
theorem outermost_js {s t : MonitorState} {l : Label} (hl : l.Outermost)
    (hstep : Step page os s l t) :
    t.js = .idle ∨ ∃ task, t.js = .draining ⟨task, 0, s.inProgress.isEmpty⟩ s.ring.readIdx
      s.ring.writeIdx ∧ t.ring = s.ring := by
  cases hstep with
  | @enable env addresses sizes onAccess hjs =>
      refine .inl ?_
      unfold MemoryAccessMonitor.enable
      split
      · exact hjs
      · exact hjs
  | begin => exact .inr ⟨_, rfl, rfl⟩
  | drained | disable | disableAll => exact .inl rfl
  | turn | callbackReturns | fault | publish => cases hl

theorem lock_eq (s : Reentry) (behind : Reentry → Reentry) :
    (s.holdsMutex = true ∧ s.lock behind = { s with blocked := true }) ∨
      (s.holdsMutex = false ∧ s.lock behind = behind s) := by
  unfold Reentry.lock
  cases hheld : s.holdsMutex with
  | true => exact .inl ⟨rfl, if_pos rfl⟩
  | false => exact .inr ⟨rfl, if_neg (by simp)⟩

theorem holdsMutex_draining (hjs : s.mon.js = .draining call readIdx writeIdx) :
    s.holdsMutex = true ↔ s.outer ≠ [] := by
  unfold Reentry.holdsMutex
  rw [hjs]
  simp

theorem holdsMutex_finishing (hjs : s.mon.js = .finishing call) :
    s.holdsMutex = true ↔ s.outer ≠ [] := by
  unfold Reentry.holdsMutex
  rw [hjs]
  simp

theorem holdsMutex_inCallback (hjs : s.mon.js = .inCallback call readIdx writeIdx) :
    s.holdsMutex = true := by
  unfold Reentry.holdsMutex
  rw [hjs]

theorem turn_of_outermost (script : List Request)
    (hjs : s.mon.js = .draining call readIdx writeIdx) (hout : s.outer = []) :
    s.turn call readIdx writeIdx script =
      { s with mon := drainTurn call readIdx writeIdx s.mon, script := script } := by
  have hlock : ∀ behind : Reentry → Reentry, s.lock behind = behind s :=
    fun behind => if_neg fun hheld => (holdsMutex_draining hjs).mp hheld hout
  unfold Reentry.turn
  dsimp only
  rw [hlock, ite_self]

/-- All that a turn of the loop does: it ends the loop, blocks, or goes on to the callback or
the next entry. -/
theorem turn_cases (script : List Request) (hjs : s.mon.js = .draining call readIdx writeIdx) :
    ((readIdx = writeIdx ∨ (s.mon.ring.entries (slotOf readIdx)).ready = false) ∧
      s.turn call readIdx writeIdx script =
        { s with mon := { s.mon with js := .finishing call }, script := script }) ∨
    (readIdx ≠ writeIdx ∧ (s.mon.ring.entries (slotOf readIdx)).ready = true ∧
      ((s.outer ≠ [] ∧ s.turn call readIdx writeIdx script = { s with blocked := true }) ∨
      (s.outer = [] ∧ ∃ t, s.turn call readIdx writeIdx script =
          { s with mon := t, script := script } ∧
        ((t.js = .inCallback call readIdx writeIdx ∧ t.ring = s.mon.ring) ∨
        t = clearEntry call readIdx writeIdx s.mon)))) := by
  unfold Reentry.turn
  dsimp only
  by_cases hloop : readIdx = writeIdx ∨ (s.mon.ring.entries (slotOf readIdx)).ready = false
  · rw [if_pos hloop]
    refine .inl ⟨hloop, ?_⟩
    unfold drainTurn
    dsimp only
    rcases hloop with heq | hnot
    · rw [if_pos heq]
    · rw [if_pos hnot, ite_self]
  · rw [if_neg hloop]
    obtain ⟨hne, hready⟩ := not_or.mp hloop
    refine .inr ⟨hne, by simpa using hready, ?_⟩
    rcases lock_eq s _ with ⟨hheld, heq⟩ | ⟨hheld, heq⟩
    · exact .inl ⟨(holdsMutex_draining hjs).mp hheld, heq⟩
    · have hout : s.outer = [] := by
        by_contra hout
        rw [(holdsMutex_draining hjs).mpr hout] at hheld
        cases hheld
      refine .inr ⟨hout, _, heq, ?_⟩
      unfold drainTurn
      dsimp only
      rw [if_neg hne, if_neg hready]
      split
      · exact .inl ⟨rfl, rfl⟩
      · exact .inr rfl

/-- All that the end of a call from a callback does. -/
theorem resume_cases (granted : ℕ → ℕ → Bool) (order : List (Σ _ : ℕ, MonitorEntry))
    (outer : List Suspended) (hjs : s.mon.js = .finishing call) (hout : s.outer ≠ []) :
    (call.task ≠ .drain ∧ s.resume granted order call x outer = { s with blocked := true }) ∨
    (call.task = .drain ∧ s.resume granted order call x outer =
      { s with
        mon := { s.mon with
          js := .inCallback { x.call with alone := x.call.alone && call.alone }
            x.readIdx x.writeIdx }
        script := x.script
        outer := outer }) := by
  have hlock : ∀ behind : Reentry → Reentry, s.lock behind = { s with blocked := true } :=
    fun behind => if_pos ((holdsMutex_finishing hjs).mpr hout)
  unfold Reentry.resume
  cases htask : call.task with
  | drain => exact .inr ⟨rfl, rfl⟩
  | disable monId => exact .inl ⟨by simp, hlock _⟩
  | disableAll => exact .inl ⟨by simp, hlock _⟩

theorem Nested.step (h : Nested s) (hstep : ReentryStep page os s l u) : Nested u := by
  cases hstep with
  | handler hl hmon =>
      rcases h with hblocked | h
      · exact .inl hblocked
      · obtain ⟨hjs | hjs, hread, hready⟩ := handler_cases hl hmon
        · exact .inr (hjs ▸ h.keep hread hready)
        · exact .inr (hjs ▸ (h.keep hread hready).disturb)
  | outermost hfree houter hl hmon =>
      refine .inr ?_
      rcases outermost_js hl hmon with hjs | ⟨task, hjs, hring⟩
      · change Stands _ s.outer _
        rw [hjs]
        exact houter
      · change Stands _ s.outer _
        rw [hjs, hring]
        exact ⟨rfl, .inl houter⟩
  | @turn call readIdx writeIdx script hfree hjs =>
      have hstands := h.stands hfree
      rw [hjs] at hstands
      obtain ⟨hcurrent, hout⟩ := hstands
      rcases turn_cases script hjs with
        ⟨-, heq⟩ | ⟨hne, hready, ⟨-, heq⟩ | ⟨hnil, t, heq, ⟨hjs', hring⟩ | rfl⟩⟩ <;> rw [heq]
      · exact .inr hout
      · exact .inl rfl
      · refine .inr ?_
        change Stands t.ring s.outer t.js
        rw [hjs', hring]
        exact ⟨⟨hcurrent, hne, hready⟩, hnil⟩
      · exact .inr ⟨rfl, .inl hnil⟩
  | @ask call readIdx writeIdx q rest hfree hjs hscript =>
      have hstands := h.stands hfree
      rw [hjs] at hstands
      obtain ⟨hentry, hnil⟩ := hstands
      cases q with
      | enable env addresses sizes onAccess =>
          unfold Reentry.ask
          dsimp only
          split
          · refine .inr ?_
            change Stands s.mon.ring s.outer s.mon.js
            rw [hjs]
            exact ⟨hentry, hnil⟩
          · exact .inl (by rw [Reentry.lock, if_pos (holdsMutex_inCallback hjs)])
      | run task =>
          refine .inr ⟨rfl, .inr ⟨⟨call, readIdx, writeIdx, rest⟩, ?_, hentry⟩⟩
          exact congrArg _ hnil
  | callbackReturns hfree hjs hscript =>
      have hstands := h.stands hfree
      rw [hjs] at hstands
      exact .inr ⟨rfl, .inl hstands.2⟩
  | @resume call x outer granted order hfree hjs houter horder =>
      have hstands := h.stands hfree
      rw [hjs] at hstands
      have hne : s.outer ≠ [] := by rw [houter]; exact List.cons_ne_nil _ _
      rcases resume_cases (x := x) granted order outer hjs hne with ⟨-, heq⟩ | ⟨-, heq⟩ <;> rw [heq]
      · exact .inl rfl
      · rcases hstands with hnil | ⟨y, hout, hentry⟩
        · exact absurd hnil hne
        · obtain ⟨rfl, rfl⟩ := List.cons.inj (houter.symm.trans hout)
          exact .inr ⟨hentry, rfl⟩

end Nesting

/-! ## §6  Steps that keep off the mutex -/

/-- What is left of a call is `drainPending` of no entry. -/
def LocksNothing : JsThread → Prop
  | .draining call readIdx writeIdx => call.task = .drain ∧ readIdx = writeIdx
  | .finishing call => call.task = .drain
  | _ => True

structure OffMutex (s : Reentry) : Prop where
  free : s.blocked = false
  inner : s.outer = [] ∨ LocksNothing s.mon.js

section Keeping

variable {page : PageSize} {os : Os} {s u : Reentry} {l : ReentryLabel} {call : Call}
  {readIdx writeIdx : BitVec 32} {x : Suspended} {outer : List Suspended}

theorem LocksNothing.disturb {js : JsThread} (h : LocksNothing js) : LocksNothing js.disturb := by
  cases js <;> exact h

/-- Off the mutex a turn does not wait for it. -/
theorem OffMutex.turn_eq (h : OffMutex s) (script : List Request)
    (hjs : s.mon.js = .draining call readIdx writeIdx) :
    s.turn call readIdx writeIdx script =
      { s with mon := { s.mon with js := .finishing call }, script := script } ∨
    (readIdx ≠ writeIdx ∧ s.outer = [] ∧ ∃ t, s.turn call readIdx writeIdx script =
        { s with mon := t, script := script } ∧
      ((t.js = .inCallback call readIdx writeIdx ∧ t.ring = s.mon.ring) ∨
      t = clearEntry call readIdx writeIdx s.mon)) := by
  have hinner := h.inner
  rw [hjs] at hinner
  rcases turn_cases script hjs with
    ⟨-, heq⟩ | ⟨hne, -, ⟨hout, -⟩ | ⟨hnil, hturn⟩⟩
  · exact .inl heq
  · rcases hinner with hnil | ⟨-, hend⟩
    · exact absurd hnil hout
    · exact absurd hend hne
  · exact .inr ⟨hne, hnil, hturn⟩

/-- Nor does a call that comes back to a callback. -/
theorem OffMutex.resume_eq (h : OffMutex s) (granted : ℕ → ℕ → Bool)
    (order : List (Σ _ : ℕ, MonitorEntry)) (hjs : s.mon.js = .finishing call)
    (houter : s.outer = x :: outer) :
    s.resume granted order call x outer =
      { s with
        mon := { s.mon with
          js := .inCallback { x.call with alone := x.call.alone && call.alone }
            x.readIdx x.writeIdx }
        script := x.script
        outer := outer } := by
  have hinner := h.inner
  have hne : s.outer ≠ [] := houter ▸ List.cons_ne_nil _ _
  rw [hjs] at hinner
  rcases resume_cases (x := x) granted order outer hjs hne with ⟨htask, -⟩ | ⟨-, heq⟩
  · rcases hinner with hnil | hdrain
    · exact absurd hnil hne
    · exact absurd hdrain htask
  · exact heq

/-- `enable` throws before it locks. -/
theorem ask_enable {env : ProtectAnswers} {addresses sizes onAccess} {rest : List Request}
    (hlengths : addresses.length ≠ sizes.length) :
    s.ask page os ⟨call, readIdx, writeIdx, rest⟩ (.enable env addresses sizes onAccess) =
      { s with script := rest } :=
  if_pos hlengths

theorem OffMutex.step (hnested : Nested s) (h : OffMutex s) (hharmless : Harmless s l)
    (hstep : ReentryStep page os s l u) : OffMutex u := by
  have hstands := hnested.stands h.free
  cases hstep with
  | handler hl hmon =>
      refine ⟨h.free, h.inner.imp id fun hnothing => ?_⟩
      obtain ⟨hjs | hjs, -, -⟩ := handler_cases hl hmon <;> rw [hjs]
      · exact hnothing
      · exact hnothing.disturb
  | outermost hfree houter hl hmon => exact ⟨hfree, .inl houter⟩
  | @turn call readIdx writeIdx script hfree hjs =>
      rcases h.turn_eq script hjs with heq | ⟨-, hnil, t, heq, -⟩ <;> rw [heq]
      · have hinner := h.inner
        rw [hjs] at hinner
        exact ⟨hfree, hinner.imp id fun hnothing => hnothing.1⟩
      · exact ⟨hfree, .inl hnil⟩
  | @ask call readIdx writeIdx q rest hfree hjs hscript =>
      rw [hjs] at hstands
      cases q with
      | enable env addresses sizes onAccess =>
          rw [ask_enable hharmless]
          exact ⟨hfree, .inl hstands.2⟩
      | run task =>
          cases task with
          | drain => exact ⟨hfree, .inr ⟨rfl, hharmless⟩⟩
          | disable monId => exact hharmless.elim
          | disableAll => exact hharmless.elim
  | callbackReturns hfree hjs hscript =>
      rw [hjs] at hstands
      exact ⟨hfree, .inl hstands.2⟩
  | @resume call x outer granted order hfree hjs houter horder =>
      rw [h.resume_eq granted order hjs houter]
      exact ⟨hfree, .inr trivial⟩

theorem not_offMutex_of_harmful (hharmful : ¬ Harmless s l)
    (hstep : ReentryStep page os s l u) : ¬ OffMutex u := by
  cases hstep with
  | handler | outermost | turn | callbackReturns | resume => exact absurd trivial hharmful
  | @ask call readIdx writeIdx q rest hfree hjs hscript =>
      cases q with
      | enable env addresses sizes onAccess =>
          have heq : s.ask page os ⟨call, readIdx, writeIdx, rest⟩
              (.enable env addresses sizes onAccess) = { s with blocked := true } :=
            (if_neg hharmful).trans (if_pos (holdsMutex_inCallback hjs))
          rw [heq]
          exact fun h => Bool.noConfusion h.free
      | run task =>
          rintro ⟨-, hnil | hnothing⟩
          · exact List.cons_ne_nil _ _ hnil
          · cases task with
            | drain => exact hharmful hnothing.2
            | disable monId => cases hnothing.1
            | disableAll => cases hnothing.1

theorem not_ofCall {l : Label} (hl : l.OfHandler) : ¬ (ReentryLabel.mon l).OfCall := by
  cases l with
  | fault ctx order granted => exact id
  | publish idx e => exact id
  | enable | begin | turn | callbackReturns | finish => cases hl

theorem not_outermost {l : Label} (hl : l.OfHandler) : ¬ l.Outermost := by
  cases l with
  | fault ctx order granted => exact id
  | publish idx e => exact id
  | enable | begin | turn | callbackReturns | finish => cases hl

/-- A thread that waits for its own mutex stays where it is. -/
theorem not_ends_of_blocked (hblocked : s.blocked = true) (hjs : s.mon.js ≠ .idle) :
    ¬ Ends (Able page os) Reentry.Idle (Own page os) (Env page os) s := by
  rintro (hidle | ⟨can, -⟩)
  · exact hjs hidle
  · obtain ⟨l, u, hl, hstep⟩ := can s .refl
    cases hstep with
    | handler hhandler hmon => exact not_ofCall hhandler hl
    | outermost hfree | turn _ hfree | ask hfree | callbackReturns hfree | resume hfree =>
        rw [hblocked] at hfree
        cases hfree

theorem ends_next
    (h : Ends (Able page os) Reentry.Idle (Own page os) (Env page os) s) (hjs : s.mon.js ≠ .idle)
    (hown : Own page os s u) : Ends (Able page os) Reentry.Idle (Own page os) (Env page os) u := by
  rcases h with hidle | ⟨-, next⟩
  · exact absurd hidle hjs
  · exact next s u .refl hown

theorem drain_of_ends
    (hends : Ends (Able page os) Reentry.Idle (Own page os) (Env page os) s)
    (hfree : s.blocked = false) (hjs : s.mon.js = .finishing call) (hout : s.outer = [x]) :
    call.task = .drain := by
  have hne : s.outer ≠ [] := by rw [hout]; exact List.cons_ne_nil _ _
  have hbusy : s.mon.js ≠ .idle := by rw [hjs]; exact JsThread.noConfusion
  by_contra htask
  have hown : Own page os s { s with blocked := true } := by
    refine ⟨.mon (.finish (fun _ _ => true) s.mon.monitors.entries), trivial, trivial, ?_⟩
    rcases resume_cases (x := x) (fun _ _ => true) s.mon.monitors.entries [] hjs hne with
      ⟨-, heq⟩ | ⟨hdrain, -⟩
    · exact heq ▸ .resume hfree hjs hout (.refl _)
    · exact absurd hdrain htask
  exact absurd (ends_next hends hbusy hown) (not_ends_of_blocked rfl hbusy)

theorem drained_of_ends (hnested : Nested s) (hfree : s.blocked = false)
    (hends : Ends (Able page os) Reentry.Idle (Own page os) (Env page os) s) : OffMutex s := by
  refine ⟨hfree, ?_⟩
  have hstands := hnested.stands hfree
  cases hjs : s.mon.js with
  | idle => exact .inr trivial
  | inCallback call readIdx writeIdx => exact .inr trivial
  | finishing call =>
      rw [hjs] at hstands
      exact hstands.imp id fun ⟨x, hout, _⟩ => drain_of_ends hends hfree hjs hout
  | draining call readIdx writeIdx =>
      rw [hjs] at hstands
      obtain ⟨hcurrent, hnil | ⟨x, hout, hentry⟩⟩ := hstands
      · exact .inl hnil
      -- the turn that comes next finds the entry of the callback below
      · have hne : s.outer ≠ [] := by rw [hout]; exact List.cons_ne_nil _ _
        have hbusy : s.mon.js ≠ .idle := by rw [hjs]; exact JsThread.noConfusion
        have hready : (s.mon.ring.entries (slotOf readIdx)).ready = true := by
          rw [← hcurrent, hentry.current]
          exact hentry.ready
        have hown : Own page os s (s.turn call readIdx writeIdx []) :=
          ⟨.mon .turn, trivial, trivial, .turn [] hfree hjs⟩
        have hends' := ends_next hends hbusy hown
        rcases turn_cases [] hjs with
          ⟨hend | hnot, heq⟩ | ⟨-, -, ⟨-, heq⟩ | ⟨hnil, -⟩⟩
        · rw [heq] at hends'
          exact .inr ⟨drain_of_ends hends' hfree rfl hout, hend⟩
        · rw [hready] at hnot
          cases hnot
        · rw [heq] at hends'
          exact absurd hends' (not_ends_of_blocked rfl hbusy)
        · exact absurd hnil hne

end Keeping

/-! ## §7  Runs -/

/-- How many entries the loop goes on to at most. -/
def ahead (readIdx writeIdx : BitVec 32) : ℕ := (writeIdx - readIdx).toNat

theorem ahead_succ {readIdx writeIdx : BitVec 32} (hne : readIdx ≠ writeIdx) :
    ahead readIdx writeIdx = ahead (readIdx + 1) writeIdx + 1 := by
  unfold ahead
  bv_omega

/-- What is left of the call the script's thread is in: entries, then what the callback has
yet to ask for. -/
def Reentry.left (s : Reentry) : ℕ ×ₗ ℕ :=
  match s.outer, s.mon.js with
  | _, .idle => toLex (0, 0)
  | _, .inCallback _ readIdx writeIdx =>
      toLex (2 * ahead readIdx writeIdx + 1, 3 * s.script.length)
  | [], .draining _ readIdx writeIdx => toLex (2 * ahead readIdx writeIdx + 2, 0)
  | [], .finishing _ => toLex (1, 0)
  | x :: _, .draining _ _ _ => toLex (2 * ahead x.readIdx x.writeIdx + 1, 3 * x.script.length + 2)
  | x :: _, .finishing _ => toLex (2 * ahead x.readIdx x.writeIdx + 1, 3 * x.script.length + 1)

section Runs

variable {page : PageSize} {os : Os} {s u : Reentry} {l : ReentryLabel}
  {tr : List (Reentry × ReentryLabel)}

theorem able_of_free (hfree : s.blocked = false) (hbusy : ¬ s.Idle) : Able page os s := by
  cases hjs : s.mon.js with
  | idle => exact absurd hjs hbusy
  | draining call readIdx writeIdx => exact ⟨.mon .turn, _, trivial, .turn [] hfree hjs⟩
  | inCallback call readIdx writeIdx =>
      cases hscript : s.script with
      | nil => exact ⟨.mon .callbackReturns, _, trivial, .callbackReturns hfree hjs hscript⟩
      | cons q rest => exact ⟨.ask q, _, trivial, .ask hfree hjs hscript⟩
  | finishing call =>
      let label := Label.finish (fun _ _ => true) s.mon.monitors.entries
      cases houter : s.outer with
      | cons x outer => exact ⟨.mon label, _, trivial, .resume hfree hjs houter (.refl _)⟩
      | nil =>
          have hstep : ∃ t, Step page os s.mon label t := by
            cases htask : call.task with
            | drain => exact ⟨_, .drained hjs htask⟩
            | disable monId => exact ⟨_, .disable hjs htask⟩
            | disableAll => exact ⟨_, .disableAll hjs htask (.refl _)⟩
          obtain ⟨t, hstep⟩ := hstep
          exact ⟨.mon label, _, trivial, .outermost hfree houter trivial hstep⟩

/-- A handler leaves the script's thread where it is. -/
theorem left_of_handler {t : MonitorState} (hjs : t.js = s.mon.js ∨ t.js = s.mon.js.disturb) :
    ({ s with mon := t } : Reentry).left = s.left ∧ (t.js = .idle → s.mon.js = .idle) := by
  obtain ⟨mon, script, outer, blocked⟩ := s
  unfold Reentry.left
  rcases hjs with hjs | hjs <;> dsimp only at hjs ⊢ <;> rw [hjs] <;>
    cases mon.js <;> cases outer <;> simp [JsThread.disturb]

theorem left_of_idle (hjs : s.mon.js = .idle) : s.left = toLex (0, 0) := by
  unfold Reentry.left
  rw [hjs]

theorem left_of_inCallback {call : Call} {readIdx writeIdx : BitVec 32}
    (hjs : s.mon.js = .inCallback call readIdx writeIdx) :
    s.left = toLex (2 * ahead readIdx writeIdx + 1, 3 * s.script.length) := by
  unfold Reentry.left
  rw [hjs]

theorem left_of_draining {call : Call} {readIdx writeIdx : BitVec 32}
    (hjs : s.mon.js = .draining call readIdx writeIdx) :
    s.left = match s.outer with
      | [] => toLex (2 * ahead readIdx writeIdx + 2, 0)
      | x :: _ => toLex (2 * ahead x.readIdx x.writeIdx + 1, 3 * x.script.length + 2) := by
  unfold Reentry.left
  rw [hjs]
  cases s.outer <;> rfl

theorem left_of_finishing {call : Call} (hjs : s.mon.js = .finishing call) :
    s.left = match s.outer with
      | [] => toLex (1, 0)
      | x :: _ => toLex (2 * ahead x.readIdx x.writeIdx + 1, 3 * x.script.length + 1) := by
  unfold Reentry.left
  rw [hjs]
  cases s.outer <;> rfl

/-- The outermost call ends. -/
theorem left_lt_outermost {m : Label} {t : MonitorState} (houter : s.outer = [])
    (hl : m.Outermost) (hcall : (ReentryLabel.mon m).OfCall) (hmon : Step page os s.mon m t) :
    ({ s with mon := t } : Reentry).left < s.left := by
  have hbusy : ∃ call, s.mon.js = .finishing call := by
    cases hmon with
    | drained hjs | disable hjs | disableAll hjs => exact ⟨_, hjs⟩
    | enable | begin => cases hcall
    | turn | callbackReturns | fault | publish => cases hl
  obtain ⟨call, hjs⟩ := hbusy
  rcases outermost_js hl hmon with hidle | ⟨task, hdrain, -⟩
  · rw [left_of_finishing hjs, houter, left_of_idle hidle]
    exact Prod.Lex.toLex_lt_toLex.mpr (.inl Nat.one_pos)
  · cases hmon with
    | drained | disable | disableAll => cases hdrain
    | enable | begin => cases hcall
    | turn | callbackReturns | fault | publish => cases hl

/-- A turn finishes the loop, gets to the callback or leaves an entry behind. -/
theorem left_lt_turn {call : Call} {readIdx writeIdx : BitVec 32} (hoff : OffMutex s)
    (script : List Request) (hjs : s.mon.js = .draining call readIdx writeIdx) :
    (s.turn call readIdx writeIdx script).left < s.left := by
  rw [left_of_draining hjs]
  rcases hoff.turn_eq script hjs with
    heq | ⟨hne, hnil, t, heq, ⟨hcallback, -⟩ | rfl⟩
  · rw [heq, left_of_finishing rfl]
    change (match s.outer with | [] => _ | x :: _ => _) < _
    cases s.outer with
    | nil => exact Prod.Lex.toLex_lt_toLex.mpr (.inl (by omega))
    | cons x outer => exact Prod.Lex.toLex_lt_toLex.mpr (.inr ⟨rfl, by omega⟩)
  · rw [heq, left_of_inCallback hcallback, hnil]
    exact Prod.Lex.toLex_lt_toLex.mpr (.inl (by omega))
  · rw [heq, left_of_draining rfl, hnil, ahead_succ hne]
    exact Prod.Lex.toLex_lt_toLex.mpr (.inl (by omega))

/-- Every step of a call that keeps off the mutex leaves less to do. -/
theorem left_lt (hnested : Nested s) (hoff : OffMutex s) (hcall : l.OfCall)
    (hharmless : Harmless s l) (hstep : ReentryStep page os s l u) : u.left < s.left := by
  have hstands := hnested.stands hoff.free
  cases hstep with
  | handler hhandler hmon => exact absurd hcall (not_ofCall hhandler)
  | outermost hfree houter hl hmon => exact left_lt_outermost houter hl hcall hmon
  | turn script hfree hjs => exact left_lt_turn hoff script hjs
  | @ask call readIdx writeIdx q rest hfree hjs hscript =>
      rw [left_of_inCallback hjs, hscript, List.length_cons]
      cases q with
      | enable env addresses sizes onAccess =>
          rw [ask_enable hharmless, left_of_inCallback (s := { s with script := rest }) hjs]
          exact Prod.Lex.toLex_lt_toLex.mpr (.inr ⟨rfl, by dsimp only; omega⟩)
      | run task =>
          rw [Reentry.ask, left_of_draining rfl]
          exact Prod.Lex.toLex_lt_toLex.mpr (.inr ⟨rfl, by dsimp only; omega⟩)
  | @callbackReturns call readIdx writeIdx hfree hjs hscript =>
      rw [hjs] at hstands
      obtain ⟨hentry, hnil⟩ := hstands
      rw [left_of_inCallback hjs, left_of_draining rfl, ahead_succ hentry.more]
      change (match s.outer with | [] => _ | x :: _ => _) < _
      rw [hnil]
      exact Prod.Lex.toLex_lt_toLex.mpr (.inl (by omega))
  | resume hfree hjs houter horder =>
      rw [hoff.resume_eq _ _ hjs houter, left_of_finishing hjs, houter, left_of_inCallback rfl]
      exact Prod.Lex.toLex_lt_toLex.mpr (.inr ⟨rfl, Nat.lt_succ_self _⟩)

theorem OffMutex.unhindered (hnested : Nested s) (h : OffMutex s) : Unhindered page os s := by
  refine ⟨h.free, Ends.of_measure (I := fun s => Nested s ∧ OffMutex s) wellFounded_lt
    Reentry.left ?_ ?_ ?_ ⟨hnested, h⟩⟩
  · rintro s ⟨-, hoff⟩ hbusy
    exact able_of_free hoff.free hbusy
  · rintro s u ⟨hnested, hoff⟩ ⟨l, hcall, hharmless, hstep⟩
    exact ⟨⟨hnested.step hstep, hoff.step hnested hharmless hstep⟩,
      left_lt hnested hoff hcall hharmless hstep⟩
  · rintro s u ⟨hnested, hoff⟩ ⟨l, hl, hstep⟩
    have hharmless : Harmless s (.mon l) := trivial
    refine ⟨⟨hnested.step hstep, hoff.step hnested hharmless hstep⟩, ?_⟩
    cases hstep with
    | handler _ hmon => exact left_of_handler (handler_cases hl hmon).1
    | outermost _ _ houtermost => exact absurd houtermost (not_outermost hl)
    | turn | callbackReturns | resume => cases hl

theorem unhindered_iff (hnested : Nested s) : Unhindered page os s ↔ OffMutex s :=
  ⟨fun h => drained_of_ends hnested h.free h.ends, OffMutex.unhindered hnested⟩

/-- **Callbacks and the mutex.** The script's thread never locks the mutex it holds, and every
call it is in comes to an end, exactly when callbacks ask only for what locks nothing. -/
theorem unhindered_throughout_iff {exc : ExceptionState} {prot : Addr → Prot}
    (run : Run (ReentryStep page os) (.start exc prot) tr s) :
    Throughout (Unhindered page os) tr s ↔ Guarded Harmless tr := by
  have hnested : Throughout Nested tr s :=
    run.invariant (.start exc prot) fun _ _ _ h hstep => h.step hstep
  rw [throughout_congr hnested fun _ h => unhindered_iff h]
  refine Run.throughout_iff_guarded (I := Nested) (.start exc prot)
    (fun _ _ _ h hstep => h.step hstep) ⟨rfl, .inl rfl⟩ ?_ ?_ run
  · intro s l u hnested hoff hharmless hstep
    exact hoff.step hnested hharmless hstep
  · intro s l u _ _ hharmful hstep
    exact not_offMutex_of_harmful hharmful hstep

/-- Callbacks that ask for nothing. -/
def silent (s : MonitorState) : Reentry := ⟨s, [], [], false⟩

/-- The monitors' own steps are those under callbacks that ask for nothing. -/
theorem step_iff_silent {s t : MonitorState} {l : Label} :
    Step page os s l t ↔ ReentryStep page os (silent s) (.mon l) (silent t) := by
  constructor
  · intro hstep
    cases hstep with
    | enable hjs => exact .outermost rfl rfl trivial (.enable hjs)
    | begin hjs => exact .outermost rfl rfl trivial (.begin hjs)
    | @turn call readIdx writeIdx hjs =>
        have hstep : ReentryStep page os (silent s) (.mon .turn) _ := .turn [] rfl hjs
        rwa [turn_of_outermost [] hjs rfl] at hstep
    | callbackReturns hjs => exact .callbackReturns (s := silent s) rfl hjs rfl
    | drained hjs htask => exact .outermost rfl rfl trivial (.drained hjs htask)
    | disable hjs htask => exact .outermost rfl rfl trivial (.disable hjs htask)
    | disableAll hjs htask horder =>
        exact .outermost rfl rfl trivial (.disableAll hjs htask horder)
    | fault horder => exact .handler (s := silent s) trivial (.fault horder)
    | publish hmem => exact .handler (s := silent s) trivial (.publish hmem)
  · intro hstep
    generalize hu : silent t = u at hstep
    have hmon : t = u.mon := by rw [← hu]; rfl
    cases hstep with
    | handler hl hmonStep => exact hmon ▸ hmonStep
    | outermost hfree houter hl hmonStep => exact hmon ▸ hmonStep
    | @turn call readIdx writeIdx script hfree hjs =>
        rw [hmon, turn_of_outermost script hjs rfl]
        exact .turn hjs
    | callbackReturns hfree hjs hscript => exact hmon ▸ .callbackReturns hjs
    | resume hfree hjs houter horder => cases houter

end Runs

/-! ## §8  Monitors that disable themselves -/

section Concrete

/-- The script drains, and the callback of the one event will ask for `script`. -/
def inCallback (script : List Request) : Reentry :=
  (silent (beginDrain .drain oneReady)).turn ⟨.drain, 0, true⟩ 0 1 script

theorem run_inCallback (script : List Request) :
    ∃ tr, Run (ReentryStep smallPages .linux)
      (.start (ExceptionState.start defaultActions) writable) tr (inCallback script) ∧
      Guarded Harmless tr ∧ tr.map Prod.snd =
        [.mon (watchTwo 0x1000 0x3000), .mon (hitAt 0x1000 (enabled 0x1000 0x3000)),
          .mon (.publish 0 (readEvent 0x1000 0)), .mon (.begin .drain), .mon .turn] := by
  have hbegin : Step smallPages .linux oneReady (.begin .drain) _ := .begin rfl
  have run := (run_oneReady.snoc hbegin).map (I := fun _ => True) silent
    (fun _ => ReentryLabel.mon) trivial (fun _ _ _ _ _ => trivial)
    (fun _ _ _ _ => step_iff_silent.mp)
  refine ⟨_, run.snoc (.turn script rfl rfl), ?_, rfl⟩
  refine guarded_snoc.mpr ⟨fun p hp => ?_, trivial⟩
  obtain ⟨q, -, rfl⟩ := List.mem_map.mp hp
  exact trivial

def mismatched : Request := .enable allGranted [0x5000] [] 0

/-- A callback that enables a monitor with too few sizes. -/
theorem unhindered_mismatched : ∃ s, (∃ tr, Run (ReentryStep smallPages .linux)
      (.start (ExceptionState.start defaultActions) writable) tr s) ∧
    s.script = [] ∧ Unhindered smallPages .linux s := by
  obtain ⟨tr, run, hguard, -⟩ := run_inCallback [mismatched]
  have run' := run.snoc (.ask rfl rfl rfl)
  refine ⟨_, ⟨_, run'⟩, rfl, ((unhindered_throughout_iff run').mpr ?_).2⟩
  exact guarded_snoc.mpr ⟨hguard, Nat.one_ne_zero⟩

/-- A callback that disables its own monitor. -/
theorem disables_itself : ∃ tr s, Run (ReentryStep smallPages .linux)
      (.start (ExceptionState.start defaultActions) writable) tr s ∧
    tr.map Prod.snd =
      [.mon (watchTwo 0x1000 0x3000), .mon (hitAt 0x1000 (enabled 0x1000 0x3000)),
        .mon (.publish 0 (readEvent 0x1000 0)), .mon (.begin .drain), .mon .turn,
        .ask (.run (.disable 1)), .mon .turn] ∧
    s.blocked = true ∧ ¬ Unhindered smallPages .linux s := by
  obtain ⟨tr, run, -, hlabels⟩ := run_inCallback [.run (.disable 1)]
  have run' := run.snoc (.ask rfl rfl rfl)
  have run'' := run'.snoc (.turn [] rfl rfl)
  refine ⟨_, _, run'', by simp [hlabels], rfl, fun h => ?_⟩
  exact Bool.noConfusion h.free

end Concrete

end MemoryAccessMonitor

end Chromatic
