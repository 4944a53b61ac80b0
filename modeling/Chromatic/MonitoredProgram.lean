import Chromatic.MonitorProtections
import Chromatic.Foundation.Simulation

/-!
# Programs under memory monitors

A program of one thread whose accesses to memory meet the page protections that monitors leave,
on Linux and macOS. A refused access raises a signal; where the handler claims it the access is
made again, and no other comes between. Next to it the program without monitors.

§1 the program · §2 the program under monitors · §3 faults that are left · §4 one access ·
§5 whole runs.
-/

namespace Chromatic

open Foundation ExceptionHandler MemoryAccessMonitor

namespace MonitoredProgram

/-! ## §1  The program -/

inductive Access where
  | load (a : Addr) (n : ℕ)
  | store (a : Addr) (data : List Byte)
  | fetch (a : Addr) (n : ℕ)
deriving DecidableEq, Repr

namespace Access

def type : Access → AccessType
  | load _ _ => .read
  | store _ _ => .write
  | fetch _ _ => .execute

/-- The addresses it touches, the first one first. -/
def addresses : Access → List Addr
  | load a n => (List.range n).map fun i => a + BitVec.ofNat 64 i
  | store a data => (List.range data.length).map fun i => a + BitVec.ofNat 64 i
  | fetch a n => (List.range n).map fun i => a + BitVec.ofNat 64 i

/-- What it reads, and the memory behind it. -/
def perform : Access → Memory → List Byte × Memory
  | load a n, m => (readBytes m a n, m)
  | store a data, m => ([], writeBytes m a data)
  | fetch a n, m => (readBytes m a n, m)

end Access

/-- A program over states `σ`: its next access, and where it goes with what that reads. -/
structure Program (σ : Type) where
  next : σ → Option Access
  resume : σ → List Byte → σ

structure Config (σ : Type) where
  state : σ
  mem : Memory

/-- An access with what it read. -/
abbrev Made : Type := Access × List Byte

variable {σ : Type}

def Program.perform (p : Program σ) (access : Access) (c : Config σ) : List Made × Config σ :=
  let r := access.perform c.mem
  ([(access, r.1)], ⟨p.resume c.state r.1, r.2⟩)

/-- What a protection allows; `allows` tells it for the protections that monitors do not set. -/
def permits (allows : ℕ → AccessType → Bool) : Prot → AccessType → Bool
  | .none, _ => false
  | .readWrite, type => decide (type = .read ∨ type = .write)
  | .other p, type => allows p type

/-- The first address of the access that its page refuses. -/
def refused (allows : ℕ → AccessType → Bool) (prot : Addr → Prot) (access : Access) :
    Option Addr :=
  access.addresses.find? fun a => permits allows (prot a) access.type = false

/-- Without monitors a refused access ends the program. -/
def Program.plain (p : Program σ) (allows : ℕ → AccessType → Bool) (prot : Addr → Prot) :
    Stepper Made (Config σ) := fun c =>
  (p.next c.state).bind fun access =>
    match refused allows prot access with
    | none => some (p.perform access c)
    | some _ => none

/-! ## §2  The program under monitors -/

/-- The machine: which of the two signals an access to a closed page raises, what comes with it,
and the order in which `g_monitors` is gone through. -/
structure Machine where
  target : Target
  allows : ℕ → AccessType → Bool
  bus : Addr → AccessType → Bool
  code : SiCode
  pc : Addr
  order : MonitorState → List (Σ _ : ℕ, MonitorEntry)
  perm : ∀ s, (order s).Perm s.monitors.entries

structure Watched (σ : Type) where
  config : Config σ
  monitors : MonitorState

namespace Machine

variable (e : Machine)

def signal (a : Addr) (type : AccessType) : Sig := if e.bus a type then .sigbus else .sigsegv

def context (a : Addr) (type : AccessType) : ExceptionContext :=
  buildContextFromSignal e.target (e.signal a type) ⟨e.code, a, decide (type = .write), e.pc⟩

/-- `monitorSegvHandler` from its entry to its return, with the pages opened. -/
def handler (ctx : ExceptionContext) (s : MonitorState) : HandleAction × MonitorState :=
  let r := monitorSegvHandler ctx (e.order s) true s
  (r.1, (r.2.inProgress.drop s.inProgress.length).foldl (fun s p => publish p.1 p.2 s) r.2)

/-- The handlers of the chain: the others claim no signal of this kind. -/
def invoke (s : MonitorState) : HandlerFn → ExceptionContext → HandleAction × ExceptionContext
  | .monitorSegvHandler, ctx => ((e.handler ctx s).1, ctx)
  | .breakpointSigtrapHandler, ctx => (.notHandled, ctx)
  | .hwBpSigtrapHandler, ctx => (.notHandled, ctx)

/-- The signal of a refused access: the state behind it if `globalSignalHandler` is installed
and claims it. -/
def fault (a : Addr) (type : AccessType) (s : MonitorState) : Option MonitorState :=
  let sig := e.signal a type
  if s.exc.disposition sig = ownAction then
    match globalSignalHandler (e.invoke s) e.target s.exc sig
        ⟨e.code, a, decide (type = .write), e.pc⟩ with
    | (none, _) => some (e.handler (e.context a type) s).2
    | (some _, _) => none
  else none

end Machine

/-- A refused access is made again when its signal is claimed, and else ends the program. -/
def Program.monitored (p : Program σ) (e : Machine) : Stepper Made (Watched σ) := fun c =>
  (p.next c.config.state).bind fun access =>
    match refused e.allows c.monitors.prot access with
    | none =>
        let r := p.perform access c.config
        some (r.1, ⟨r.2, c.monitors⟩)
    | some a => (e.fault a access.type c.monitors).map fun s => ([], ⟨c.config, s⟩)

/-! ## §3  Faults that are left -/

/-- The ranges that have not fired. -/
def unfired (s : MonitorState) : ℕ :=
  (s.monitors.entries.map fun e => e.2.ranges.countP (!·.fired)).sum

section Counting

variable {s : MonitorState} {f : Found} {ctx : ExceptionContext}
  {order : List (Σ _ : ℕ, MonitorEntry)}

/-- A monitor that is replaced changes the count by its own. -/
theorem sum_insert {κ α : Type} [DecidableEq κ] {l : HashMap κ α} {k : κ} {old new : α}
    (g : (Σ _ : κ, α) → ℕ) (hold : l.lookup k = some old) :
    ((l.insert k new).entries.map g).sum + g ⟨k, old⟩ = (l.entries.map g).sum + g ⟨k, new⟩ := by
  have hmem : k ∈ l.entries.keys := AList.lookup_isSome.mp (by rw [hold]; rfl)
  obtain ⟨b, front, back, -, hentries, herase⟩ := List.exists_of_kerase hmem
  have hb : b = old := by
    have hb : l.lookup k = some b := AList.mem_lookup_iff.mpr (by rw [hentries]; simp)
    exact Option.some.inj (hb.symm.trans hold)
  have hinsert : (l.insert k new).entries = ⟨k, new⟩ :: (front ++ back) := by
    rw [AList.entries_insert, herase]
  rw [hinsert, hentries, hb]
  simp only [List.map_cons, List.map_append, List.sum_cons, List.sum_append]
  omega

/-- The handler leaves one range fewer. -/
theorem unfired_noteAccess (horder : order.Perm s.monitors.entries)
    (hscan : scan ctx.faultAddress order = some f) :
    unfired (noteAccess ctx true f s) + 1 = unfired s := by
  obtain ⟨hlive, -, -⟩ := scan_found horder hscan
  obtain ⟨front, back, hranges, hwatches, hafter, -⟩ := fireFirst_some (scan_some hscan).2
  have hcount : f.monitor.ranges.countP (!·.fired) = f.ranges.countP (!·.fired) + 1 := by
    rw [hranges, hafter, List.countP_append, List.countP_append,
      List.countP_cons_of_pos (by simp [hwatches.1]), List.countP_cons_of_neg (by simp)]
    omega
  have hsum : unfired (noteAccess ctx true f s) + f.monitor.ranges.countP (!·.fired) =
      unfired s + f.ranges.countP (!·.fired) := sum_insert _ hlive
  omega

end Counting

/-! ## §4  One access -/

section Access

variable {e : Machine} {s : MonitorState} {page : PageSize} {os : Os} {prot : Addr → Prot}
  {exc : ExceptionState} {tr : List (MonitorState × Label)} {a : Addr} {type : AccessType}

/-- What the machine is in: the monitors were enabled and disabled in some run. -/
structure Reachable (page : PageSize) (os : Os) (disposition : Sig → SigAction)
    (prot : Addr → Prot) (tr : List (MonitorState × Label)) (s : MonitorState) : Prop where
  run : Run (Step page os) (.start (ExceptionState.start disposition) prot) tr s
  permitted : Guarded (Permitted page os prot) tr

variable {disposition : Sig → SigAction}

theorem Reachable.routed (h : Reachable page os disposition prot tr s) : Routed s :=
  (h.run.invariant (Routed.start disposition prot) fun _ _ _ h hstep => h.step hstep).2

theorem faultAddress_context : (e.context a type).faultAddress = a := by
  unfold Machine.context Machine.signal buildContextFromSignal
  by_cases hbus : e.bus a type = true
  · rw [if_pos hbus]
  · rw [if_neg hbus]

/-- The handler returns with the event published. -/
theorem handler_eq {f : Found} (hscan : MemoryAccessMonitor.scan a (e.order s) = some f) :
    e.handler (e.context a type) s = (.handled, publish s.ring.writeIdx
      (f.event (e.context a type)) (noteAccess (e.context a type) true f s)) := by
  have hrun : monitorSegvHandler (e.context a type) (e.order s) true s =
      (.handled, noteAccess (e.context a type) true f s) := by
    unfold monitorSegvHandler
    rw [faultAddress_context, hscan]
  have hdrop : (noteAccess (e.context a type) true f s).inProgress.drop s.inProgress.length =
      [(s.ring.writeIdx, f.event (e.context a type))] := List.drop_left
  unfold Machine.handler
  simp only [hrun, hdrop, List.foldl_cons, List.foldl_nil]

/-- A covered address raises a fault that is claimed. -/
theorem fault_claimed (h : Reachable page os disposition prot tr s) (hcovered : Covered s a) :
    ∃ f, MemoryAccessMonitor.scan a (e.order s) = some f ∧
      e.fault a type s = some (publish s.ring.writeIdx (f.event (e.context a type))
        (noteAccess (e.context a type) true f s)) := by
  obtain ⟨k, r, ⟨m, hlive, hmem, hfired⟩, hcovers⟩ := hcovered
  have hscan : ∃ f, MemoryAccessMonitor.scan a (e.order s) = some f := by
    rw [← Option.isSome_iff_exists, Option.isSome_iff_ne_none]
    intro hnone
    have hentry : ⟨k, m⟩ ∈ e.order s :=
      (e.perm s).mem_iff.mpr (AList.mem_lookup_iff.mp hlive)
    exact scan_eq_none.mp hnone _ hentry r hmem ⟨hfired, hcovers⟩
  obtain ⟨f, hscan⟩ := hscan
  refine ⟨f, hscan, ?_⟩
  have hreached : Reached s.exc (e.signal a type) := by
    unfold Machine.signal
    by_cases hbus : e.bus a type = true
    · rw [if_pos hbus]
      exact (h.routed.reached hlive).2
    · rw [if_neg hbus]
      exact (h.routed.reached hlive).1
  have hclaim := @Reached.claimed s.exc (e.signal a type) hreached (e.invoke s) e.target
    ⟨e.code, a, decide (type = .write), e.pc⟩ (e.context a type)
    (congrArg (fun r => (r.1, e.context a type)) (handler_eq hscan))
  unfold Machine.fault
  rw [if_pos hreached.2.1, hclaim, handler_eq hscan]

/-- A range on the page of the address was asked for. -/
def Asked (page : PageSize) (tr : List (MonitorState × Label)) (a : Addr) : Prop :=
  ∃ p ∈ tr, p.2.asks page a = true

/-- Pages that were watched are executed no more. -/
def Runnable (page : PageSize) (tr : List (MonitorState × Label)) (access : Access) : Prop :=
  access.type = .execute → ∀ a ∈ access.addresses, ¬ Asked page tr a

/-- What refuses an access that the program could make without monitors is a range that has not
fired. -/
theorem covered_of_refused (h : Reachable page os disposition prot tr s) (hos : os ≠ .windows)
    (hplain : permits e.allows (prot a) type = true)
    (hrefused : permits e.allows (s.prot a) type = false)
    (htype : type = .read ∨ type = .write ∨ type = .execute ∧ ¬ Asked page tr a) :
    Covered s a := by
  by_contra hfree
  have hopen := (run_givesBack h.run h.permitted).2.free hfree
  rw [returned_posix hos] at hopen
  by_cases hasked : Asked page tr a
  · rw [hopen.trans (if_pos hasked)] at hrefused
    rcases htype with rfl | rfl | ⟨-, hnot⟩
    · cases hrefused
    · cases hrefused
    · exact hnot hasked
  · rw [hopen.trans (if_neg hasked), hplain] at hrefused
    cases hrefused

/-- The fault as a part of the run. -/
theorem Reachable.fault (h : Reachable page os disposition prot tr s) {f : Found}
    (hscan : MemoryAccessMonitor.scan a (e.order s) = some f) :
    ∃ first second, (∀ b, first.2.asks page b = false) ∧ (∀ b, second.2.asks page b = false) ∧
      Reachable page os disposition prot (tr ++ [first] ++ [second])
        (publish s.ring.writeIdx (f.event (e.context a type))
          (noteAccess (e.context a type) true f s)) := by
  have hfault : (monitorSegvHandler (e.context a type) (e.order s) true s).2 =
      noteAccess (e.context a type) true f s := by
    unfold monitorSegvHandler
    rw [faultAddress_context, hscan]
  have hstep : Step page os s (.fault (e.context a type) (e.order s) true)
      (noteAccess (e.context a type) true f s) := by
    rw [← hfault]
    exact .fault (e.perm s)
  have hmem : (s.ring.writeIdx, f.event (e.context a type)) ∈
      (noteAccess (e.context a type) true f s).inProgress :=
    List.mem_append_right _ List.mem_cons_self
  refine ⟨(s, .fault (e.context a type) (e.order s) true), (noteAccess (e.context a type) true f s,
    .publish s.ring.writeIdx (f.event (e.context a type))), fun _ => rfl, fun _ => rfl,
    (h.run.snoc hstep).snoc (.publish hmem), ?_⟩
  exact guarded_snoc.mpr ⟨guarded_snoc.mpr ⟨h.permitted, rfl⟩, trivial⟩

end Access

/-! ## §5  Whole runs -/

/-- `k` faults on the way, each of which fired one range and was recorded. -/
structure Faulted (page : PageSize) (os : Os) (disposition : Sig → SigAction) (prot : Addr → Prot)
    (tr : List (MonitorState × Label)) (s : MonitorState) (k : ℕ)
    (tr' : List (MonitorState × Label)) (s' : MonitorState) : Prop where
  reachable : Reachable page os disposition prot (tr ++ tr') s'
  quiet : ∀ q ∈ tr', ∀ b, q.2.asks page b = false
  fewer : unfired s' + k = unfired s
  recorded : s'.recorded.length = s.recorded.length + k

section Runs

variable {p : Program σ} {e : Machine} {page : PageSize} {os : Os} {disposition : Sig → SigAction}
  {prot : Addr → Prot} {tr tr' tr'' : List (MonitorState × Label)} {s s' s'' : MonitorState}
  {k k' : ℕ} {c : Config σ} {access : Access}

theorem Faulted.refl (h : Reachable page os disposition prot tr s) :
    Faulted page os disposition prot tr s 0 [] s where
  reachable := by
    rw [List.append_nil]
    exact h
  quiet _ hq := by cases hq
  fewer := rfl
  recorded := rfl

theorem Faulted.trans (h : Faulted page os disposition prot tr s k tr' s')
    (h' : Faulted page os disposition prot (tr ++ tr') s' k' tr'' s'') :
    Faulted page os disposition prot tr s (k + k') (tr' ++ tr'') s'' where
  reachable := by
    rw [← List.append_assoc]
    exact h'.reachable
  quiet q hq := (List.mem_append.mp hq).elim (h.quiet q) (h'.quiet q)
  fewer := by
    rw [← h.fewer, ← h'.fewer, Nat.add_assoc, Nat.add_comm k']
  recorded := by
    rw [h'.recorded, h.recorded, Nat.add_assoc]

/-- Faults ask for no range. -/
theorem Runnable.faulted (h : Runnable page tr access)
    (hfaulted : Faulted page os disposition prot tr s k tr' s') :
    Runnable page (tr ++ tr') access := by
  rintro htype a ha ⟨q, hq, hasks⟩
  rcases List.mem_append.mp hq with hold | hnew
  · exact h htype a ha ⟨q, hold, hasks⟩
  · rw [hfaulted.quiet q hnew a] at hasks
    cases hasks

/-- One fault. -/
theorem faulted_one (h : Reachable page os disposition prot tr s) {a : Addr} {type : AccessType}
    (hcovered : Covered s a) :
    ∃ tr' s', e.fault a type s = some s' ∧ Faulted page os disposition prot tr s 1 tr' s' := by
  obtain ⟨f, hscan, hfault⟩ := @fault_claimed e s page os prot tr a type disposition h hcovered
  obtain ⟨first, second, hfirst, hsecond, hreachable⟩ :=
    @Reachable.fault e s page os prot tr a type disposition h f hscan
  have hscan' : scan (e.context a type).faultAddress (e.order s) = some f := by
    rw [faultAddress_context]
    exact hscan
  refine ⟨[first] ++ [second], _, hfault, ?_, ?_, ?_, ?_⟩
  · rw [← List.append_assoc]
    exact hreachable
  · intro q hq
    rcases List.mem_append.mp hq with hq | hq
    · obtain rfl := List.mem_singleton.mp hq
      exact hfirst
    · obtain rfl := List.mem_singleton.mp hq
      exact hsecond
  · exact unfired_noteAccess (e.perm s) hscan'
  · exact List.length_append

theorem not_refused (allows : ℕ → AccessType → Bool) {prot : Addr → Prot}
    (h : refused allows prot access = none) {a : Addr} (ha : a ∈ access.addresses) :
    permits allows (prot a) access.type = true := by
  have hnot := List.find?_eq_none.mp h a ha
  simpa using hnot

theorem Access.type_cases (access : Access) :
    access.type = .read ∨ access.type = .write ∨ access.type = .execute := by
  cases access with
  | load a n => exact .inl rfl
  | store a data => exact .inr (.inl rfl)
  | fetch a n => exact .inr (.inr rfl)

/-- The access is made, or refused by a range that fires. -/
theorem access_step (h : Reachable page os disposition prot tr s) (hos : os ≠ .windows)
    (hnext : p.next c.state = some access) (hplain : refused e.allows prot access = none)
    (hrunnable : Runnable page tr access) :
    p.monitored e ⟨c, s⟩ = some ((p.perform access c).1, ⟨(p.perform access c).2, s⟩) ∨
      ∃ tr' s', p.monitored e ⟨c, s⟩ = some ([], ⟨c, s'⟩) ∧
        Faulted page os disposition prot tr s 1 tr' s' := by
  have hstep : p.monitored e ⟨c, s⟩ = match refused e.allows s.prot access with
      | none => some ((p.perform access c).1, ⟨(p.perform access c).2, s⟩)
      | some a => (e.fault a access.type s).map fun s => ([], ⟨c, s⟩) := by
    unfold Program.monitored
    rw [hnext]
    rfl
  rw [hstep]
  cases hrefused : refused e.allows s.prot access with
  | none => exact .inl rfl
  | some a =>
      have hmem : a ∈ access.addresses := List.mem_of_find?_eq_some hrefused
      have hclosed : permits e.allows (s.prot a) access.type = false := by
        simpa using List.find?_some hrefused
      have hcovered := covered_of_refused h hos (not_refused e.allows hplain hmem) hclosed (by
        rcases access.type_cases with htype | htype | htype
        · exact .inl htype
        · exact .inr (.inl htype)
        · exact .inr (.inr ⟨htype, hrunnable htype a hmem⟩))
      obtain ⟨tr', s', hfault, hfaulted⟩ := @faulted_one e page os disposition prot tr s h a
        access.type hcovered
      refine .inr ⟨tr', s', ?_, hfaulted⟩
      show (e.fault a access.type s).map _ = _
      rw [hfault]
      rfl

/-- An access that the program could make without monitors is made, after as many faults as
ranges fire on the way. -/
theorem access_made (h : Reachable page os disposition prot tr s) (hos : os ≠ .windows)
    (hnext : p.next c.state = some access) (hplain : refused e.allows prot access = none)
    (hrunnable : Runnable page tr access) :
    ∃ k tr' s', (p.monitored e).steps (k + 1) ⟨c, s⟩ =
        some ((p.perform access c).1, ⟨(p.perform access c).2, s'⟩) ∧
      Faulted page os disposition prot tr s k tr' s' := by
  -- each fault leaves a range fewer to fire
  induction hcount : unfired s generalizing tr s with
  | zero =>
      rcases access_step h hos hnext hplain hrunnable with hmade | ⟨tr', s', -, hfaulted⟩
      · exact ⟨0, [], s, (Stepper.steps_one _).trans hmade, Faulted.refl h⟩
      · have hfewer := hfaulted.fewer
        rw [hcount] at hfewer
        cases hfewer
  | succ n ih =>
      rcases access_step h hos hnext hplain hrunnable with hmade | ⟨tr', s', hstep, hfaulted⟩
      · exact ⟨0, [], s, (Stepper.steps_one _).trans hmade, Faulted.refl h⟩
      · have hfewer := hfaulted.fewer
        rw [hcount] at hfewer
        obtain ⟨k, tr'', s'', hsteps, hrest⟩ := ih hfaulted.reachable
          (hrunnable.faulted hfaulted) (Nat.succ.inj hfewer)
        refine ⟨1 + k, tr' ++ tr'', s'', ?_, hfaulted.trans hrest⟩
        rw [Nat.add_comm 1 k]
        exact Stepper.step_then hstep hsteps

/-- **Monitors do not change what a program does.** Whatever it does without them it does under
them: the same accesses with the same values, to the same state and memory. In between come faults,
each of which fires a range and is recorded, and there are no more of them than ranges. -/
theorem monitored_follows (p : Program σ) (e : Machine) {page : PageSize} {os : Os}
    {disposition : Sig → SigAction} {prot : Addr → Prot} {tr : List (MonitorState × Label)}
    {s : MonitorState} (h : Reachable page os disposition prot tr s) (hos : os ≠ .windows)
    (c : Config σ) :
    ∀ n es c', (p.plain e.allows prot).steps n c = some (es, c') →
      Stepper.Along (fun c => ∀ access, p.next c.state = some access → Runnable page tr access)
        (p.plain e.allows prot) n c →
      ∃ k tr' s', (p.monitored e).steps (n + k) ⟨c, s⟩ = some (es, ⟨c', s'⟩) ∧
        Faulted page os disposition prot tr s k tr' s' := by
  intro n
  induction n generalizing tr s c with
  | zero =>
      rintro es c' hrun -
      obtain ⟨rfl, rfl⟩ := Prod.mk.inj (Option.some.inj hrun)
      exact ⟨0, [], s, rfl, Faulted.refl h⟩
  | succ n ih =>
      rintro es c' hrun ⟨hrunnable, halong⟩
      obtain ⟨es₁, c₁, es₂, hstep, hrest, rfl⟩ := Stepper.steps_succ_eq_some.mp hrun
      obtain ⟨access, hnext, hmade⟩ := Option.bind_eq_some_iff.mp hstep
      have hplain : refused e.allows prot access = none := by
        cases hrefused : refused e.allows prot access with
        | none => rfl
        | some a =>
            rw [hrefused] at hmade
            cases hmade
      rw [hplain] at hmade
      obtain ⟨rfl, rfl⟩ := Prod.mk.inj (Option.some.inj hmade)
      obtain ⟨k, tr₁, s₁, hfirst, hfaulted⟩ :=
        access_made h hos hnext hplain (hrunnable access hnext)
      obtain ⟨k', tr₂, s₂, hthen, hfaulted'⟩ := ih hfaulted.reachable (p.perform access c).2 es₂ c'
        hrest (Stepper.Along.imp (fun c hc access hnext => (hc access hnext).faulted hfaulted)
          (halong _ _ hstep))
      refine ⟨k + k', tr₁ ++ tr₂, s₂, ?_, hfaulted.trans hfaulted'⟩
      rw [show n + 1 + (k + k') = (k + 1) + (n + k') by omega]
      exact Stepper.steps_trans hfirst hthen

end Runs

/-! A word of one watched page is read and a byte of another one written. -/

section Concrete

def readThenWrite : Program ℕ where
  next
    | 0 => some (.load 0x1000 4)
    | 1 => some (.store 0x2000 [7])
    | _ => none
  resume i _ := i + 1

def linuxMachine : Machine where
  target := ⟨.x64, .linux⟩
  allows _ _ := true
  bus _ _ := false
  code := .segvAccerr
  pc := 0x400000
  order s := s.monitors.entries
  perm _ := List.Perm.refl _

def zeros : Config ℕ := ⟨0, fun _ => 0⟩

theorem reachable_watchTwo : Reachable smallPages .linux defaultActions writable
    [(atStart, watchTwo 0x1000 0x2000)] (enabled 0x1000 0x2000) where
  run := Run.nil.snoc (step_watchTwo 0x1000 0x2000)
  permitted p hp := by
    obtain rfl := List.mem_singleton.mp hp
    intro hos
    cases hos

theorem monitored_follows_two : ∃ k s', (readThenWrite.monitored linuxMachine).steps (2 + k)
    ⟨zeros, enabled 0x1000 0x2000⟩ =
      some ([(.load 0x1000 4, [0, 0, 0, 0]), (.store 0x2000 [7], [])],
        ⟨⟨2, writeBytes (fun _ => 0) 0x2000 [7]⟩, s'⟩) ∧ unfired s' + k = 2 := by
  have halong : ∀ n c, Stepper.Along (fun c => ∀ access, readThenWrite.next c.state = some access →
      Runnable smallPages [(atStart, watchTwo 0x1000 0x2000)] access)
      (readThenWrite.plain linuxMachine.allows writable) n c := by
    intro n
    induction n with
    | zero => exact fun _ => trivial
    | succ n ih =>
        intro c
        refine ⟨fun access hnext htype => ?_, fun es t _ => ih t⟩
        rcases hstate : c.state with _ | _ | _ <;> rw [hstate] at hnext <;> cases hnext <;>
          cases htype
  obtain ⟨k, tr', s', hsteps, hfaulted⟩ := monitored_follows readThenWrite linuxMachine
    reachable_watchTwo (by decide) zeros 2 _ _ rfl (halong 2 zeros)
  exact ⟨k, s', hsteps, hfaulted.fewer⟩

end Concrete

end MonitoredProgram

end Chromatic
