import Chromatic.Foundation.Runs
import Chromatic.EmbeddedConfig

/-!
# Unloading the library

Three threads: `injectee_main` on a detached thread, the watcher it may start, and the thread
that runs the destructor. The destructor joins the watcher if it finds its handle, and waits
for nothing else.

§1 the library · §2 steps of the three threads · §3 what may not happen after the return ·
§4 where all is quiet · §5 runs · §6 the way to another use · §7 shutdown.
-/

namespace Chromatic

open Foundation EmbeddedConfig

namespace LibraryUnload

/-! ## §1  The library -/

/-- Where `injectee_main` is; from `clearing` on it is in `start_file_watcher`. A call under
way is not over: its step is still to come. -/
inductive StartupPc where
  | parsing
  | creating (config : EmbeddedConfigData)
  | resetting (config : EmbeddedConfigData)
  | reading
  | evaluating (watch : Bool)
  | clearing
  | stat
  | starting
  | storing
  | done
deriving DecidableEq, Repr

/-- The loop of the watcher. Both the delay and the test of the flag are at `top`. -/
inductive WatcherPc where
  | none
  | top
  | stat
  | reading
  | testing
  | resetting
  | evaluating
  | exited
deriving DecidableEq, Repr

inductive CleanupPc where
  | idle
  | testing
  | joining
  | disposing
  | returning
  | returned
deriving DecidableEq, Repr

/-- `g_stop_watching`, and whether `g_watch_thread` and `g_runtime` hold anything. -/
structure Library where
  startup : StartupPc
  watcher : WatcherPc
  cleanup : CleanupPc
  stopWatching : Bool
  watchThread : Bool
  runtime : Bool
  crashed : Bool
deriving DecidableEq, Repr

/-- The constructor has started the thread. -/
def Library.loaded : Library := ⟨.parsing, .none, .idle, false, false, false, false⟩

/-! ## §2  Steps of the three threads -/

inductive Thread where
  | startup
  | watcher
  | destructor
deriving DecidableEq, Repr

inductive Action where
  | parseEmbeddedConfig
  | makeRuntime (made : Bool)
  | reset
  | readFile
  | evalScript
  | clearStop
  | lastWriteTime
  | createThread
  | storeThread
  | beginPoll
  | leaveLoop
  | testRuntime
  | setStop
  | testThread
  | join
  | disposeRuntime
  | ret
deriving DecidableEq, Repr

/-- A call through `g_runtime`. Through null it ends the process. -/
def Library.call (s t : Library) : Library :=
  if s.runtime then t else { s with crashed := true }

/-- The switch over the mode. -/
def dispatch (config : EmbeddedConfigData) : StartupPc :=
  match config.mode with
  | .embedJs => if config.jsContent.getD "" = "" then .done else .evaluating false
  | .watchPath => if config.watchPath.getD "" = "" then .done else .reading
  | .other _ => .done

/-- `ok` is false where the call throws or its result is an error. -/
inductive StartupStep : Library → Action → Library → Prop
  | parse {s} (config : Option EmbeddedConfigData) (hpc : s.startup = .parsing) :
      StartupStep s .parseEmbeddedConfig
        { s with startup := config.elim .done .creating }
  | makeRuntime {s config} (ok : Bool) (hpc : s.startup = .creating config) :
      StartupStep s (.makeRuntime ok)
        { s with startup := if ok then .resetting config else .done, runtime := ok || s.runtime }
  | reset {s config} (ok : Bool) (hpc : s.startup = .resetting config) :
      StartupStep s .reset
        (s.call { s with startup := if ok then dispatch config else .done })
  | readFile {s} (content : String) (hpc : s.startup = .reading) :
      StartupStep s .readFile
        { s with startup := if content = "" then .done else .evaluating true }
  | evalScript {s watch} (ok : Bool) (hpc : s.startup = .evaluating watch) :
      StartupStep s .evalScript
        (s.call { s with startup := if watch && ok then .clearing else .done })
  | clearStop {s} (hpc : s.startup = .clearing) :
      StartupStep s .clearStop { s with startup := .stat, stopWatching := false }
  | lastWriteTime {s} (ok : Bool) (hpc : s.startup = .stat) :
      StartupStep s .lastWriteTime { s with startup := if ok then .starting else .done }
  | createThread {s} (hpc : s.startup = .starting) :
      StartupStep s .createThread { s with startup := .storing, watcher := .top }
  | noThread {s} (hpc : s.startup = .starting) :
      StartupStep s .createThread { s with startup := .done }
  | storeThread {s} (hpc : s.startup = .storing) :
      StartupStep s .storeThread { s with startup := .done, watchThread := true }

/-- `changed` is false where `last_write_time` throws. -/
inductive WatcherStep : Library → Action → Library → Prop
  | beginPoll {s} (hpc : s.watcher = .top) (hgo : s.stopWatching = false) :
      WatcherStep s .beginPoll { s with watcher := .stat }
  | leaveLoop {s} (hpc : s.watcher = .top) (hstop : s.stopWatching = true) :
      WatcherStep s .leaveLoop { s with watcher := .exited }
  | lastWriteTime {s} (changed : Bool) (hpc : s.watcher = .stat) :
      WatcherStep s .lastWriteTime { s with watcher := if changed then .reading else .top }
  | readFile {s} (content : String) (hpc : s.watcher = .reading) :
      WatcherStep s .readFile { s with watcher := if content = "" then .top else .testing }
  | testRuntime {s} (hpc : s.watcher = .testing) :
      WatcherStep s .testRuntime { s with watcher := if s.runtime then .resetting else .top }
  | reset {s} (ok : Bool) (hpc : s.watcher = .resetting) :
      WatcherStep s .reset (s.call { s with watcher := if ok then .evaluating else .top })
  | evalScript {s} (hpc : s.watcher = .evaluating) :
      WatcherStep s .evalScript (s.call { s with watcher := .top })

/-- `_library_cleanup`, and `DllMain` at the end. -/
inductive CleanupStep : Library → Action → Library → Prop
  | setStop {s} (hpc : s.cleanup = .idle) :
      CleanupStep s .setStop { s with cleanup := .testing, stopWatching := true }
  | testThread {s} (hpc : s.cleanup = .testing) :
      CleanupStep s .testThread
        { s with cleanup := if s.watchThread then .joining else .disposing }
  | join {s} (hpc : s.cleanup = .joining) (hexited : s.watcher = .exited) :
      CleanupStep s .join { s with cleanup := .disposing }
  | disposeRuntime {s} (hpc : s.cleanup = .disposing) :
      CleanupStep s .disposeRuntime { s with cleanup := .returning, runtime := false }
  | ret {s} (hpc : s.cleanup = .returning) :
      CleanupStep s .ret { s with cleanup := .returned }

/-- Any thread may take the next step. -/
inductive Step : Library → Thread × Action → Library → Prop
  | startup {s a t} (alive : s.crashed = false) (h : StartupStep s a t) : Step s (.startup, a) t
  | watcher {s a t} (alive : s.crashed = false) (h : WatcherStep s a t) : Step s (.watcher, a) t
  | destructor {s a t} (alive : s.crashed = false) (h : CleanupStep s a t) :
      Step s (.destructor, a) t

/-! ## §3  What may not happen after the return -/

def Action.usesRuntime : Action → Bool
  | .makeRuntime made => made
  | .reset | .evalScript | .testRuntime | .disposeRuntime => true
  | _ => false

/-- A thread started by the library begins a poll or uses the runtime. -/
def Uses (l : Thread × Action) : Prop :=
  l.1 ≠ .destructor ∧ (l.2 = .beginPoll ∨ l.2.usesRuntime = true)

/-- Whatever the order of the steps from here, none does so. -/
def Final (s : Library) : Prop := ∀ tr t, Run Step s tr t → ∀ p ∈ tr, ¬ Uses p.2

theorem Final.step {s t : Library} {l : Thread × Action} (h : Final s) (hstep : Step s l t) :
    ¬ Uses l ∧ Final t := by
  refine ⟨h _ _ (Run.nil.snoc hstep) (s, l) (by simp), fun tr u run p hp => ?_⟩
  exact h _ _ (run.cons hstep) p (List.mem_cons_of_mem _ hp)

/-! ## §4  Where all is quiet -/

/-- `injectee_main` is past its last use of the runtime and of the flag. -/
def StartupPc.Late : StartupPc → Prop
  | .stat | .starting | .storing | .done => True
  | _ => False

/-- The watcher is not within a turn of its loop. -/
def WatcherPc.BetweenPolls : WatcherPc → Prop
  | .none | .top | .exited => True
  | _ => False

/-- The watcher, if there is or will be one, finds the flag set. -/
structure Quiet (s : Library) : Prop where
  startup : s.startup.Late
  watcher : s.watcher.BetweenPolls
  stop : s.stopWatching = true ∨ s.startup = .done ∧ s.watcher ≠ .top

section Keeps

variable {s t : Library} {a : Action}

theorem Quiet.stop_of_startup (h : Quiet s) (hstartup : s.startup ≠ .done) :
    s.stopWatching = true :=
  h.stop.resolve_right fun hdone => hstartup hdone.1

theorem Quiet.startup_step (h : Quiet s) (hstep : StartupStep s a t) :
    Quiet t ∧ t.cleanup = s.cleanup ∧ ¬ Uses (.startup, a) := by
  have hstartup := h.startup
  have hwatcher := h.watcher
  cases hstep with
  | lastWriteTime ok hpc =>
      have hset := h.stop_of_startup (by rw [hpc]; nofun)
      refine ⟨⟨?_, hwatcher, .inl hset⟩, rfl, by simp [Uses, Action.usesRuntime]⟩
      cases ok <;> trivial
  | createThread hpc =>
      have hset := h.stop_of_startup (by rw [hpc]; nofun)
      exact ⟨⟨trivial, trivial, .inl hset⟩, rfl, by simp [Uses, Action.usesRuntime]⟩
  | noThread hpc =>
      have hset := h.stop_of_startup (by rw [hpc]; nofun)
      exact ⟨⟨trivial, hwatcher, .inl hset⟩, rfl, by simp [Uses, Action.usesRuntime]⟩
  | storeThread hpc =>
      have hset := h.stop_of_startup (by rw [hpc]; nofun)
      exact ⟨⟨trivial, hwatcher, .inl hset⟩, rfl, by simp [Uses, Action.usesRuntime]⟩
  | _ =>
      rename_i hpc
      rw [hpc] at hstartup
      exact hstartup.elim

theorem Quiet.watcher_step (h : Quiet s) (hstep : WatcherStep s a t) :
    Quiet t ∧ t.cleanup = s.cleanup ∧ ¬ Uses (.watcher, a) := by
  obtain ⟨hstartup, hwatcher, hstop⟩ := h
  cases hstep with
  | beginPoll hpc hgo =>
      rcases hstop with hset | ⟨-, htop⟩
      · rw [hgo] at hset
        cases hset
      · exact absurd hpc htop
  | leaveLoop hpc hset =>
      exact ⟨⟨hstartup, trivial, .inl hset⟩, rfl, by simp [Uses, Action.usesRuntime]⟩
  | _ =>
      rename_i hpc
      rw [hpc] at hwatcher
      exact hwatcher.elim

end Keeps

/-- After the return, what is quiet stays so. -/
theorem Quiet.step {s t : Library} {l : Thread × Action} (h : Quiet s)
    (hreturned : s.cleanup = .returned) (hstep : Step s l t) :
    Quiet t ∧ t.cleanup = .returned ∧ ¬ Uses l := by
  cases hstep with
  | startup _ hstep =>
      obtain ⟨hquiet, hcleanup, huses⟩ := h.startup_step hstep
      exact ⟨hquiet, hcleanup.trans hreturned, huses⟩
  | watcher _ hstep =>
      obtain ⟨hquiet, hcleanup, huses⟩ := h.watcher_step hstep
      exact ⟨hquiet, hcleanup.trans hreturned, huses⟩
  | destructor _ hstep =>
      cases hstep with
      | join hpc _ => exact absurd (hpc.symm.trans hreturned) nofun
      | _ =>
          rename_i hpc
          exact absurd (hpc.symm.trans hreturned) nofun

/-! ## §5  Runs -/

/-- What the threads have left for each other. -/
structure Consistent (s : Library) : Prop where
  fresh : s.startup ≠ .storing → s.startup ≠ .done → s.watcher = .none
  storing : s.startup = .storing → s.watcher ≠ .none
  exited : s.watcher = .exited → s.stopWatching = true

section Invariant

variable {s t : Library} {a : Action}

theorem Consistent.of_none (hwatcher : s.watcher = .none) (hstartup : s.startup ≠ .storing) :
    Consistent s :=
  ⟨fun _ _ => hwatcher, fun h => absurd h hstartup, fun h => by rw [hwatcher] at h; cases h⟩

theorem Consistent.none_before (h : Consistent s) {pc : StartupPc} (hpc : s.startup = pc)
    (hstoring : pc ≠ .storing) (hdone : pc ≠ .done) : s.watcher = .none :=
  h.fresh (hpc ▸ hstoring) (hpc ▸ hdone)

theorem Consistent.call (h : Consistent s) (ht : Consistent t) : Consistent (s.call t) := by
  unfold Library.call
  split
  · exact ht
  · exact ⟨h.fresh, h.storing, h.exited⟩

theorem dispatch_ne_storing (config : EmbeddedConfigData) : dispatch config ≠ .storing := by
  unfold dispatch
  split
  · split <;> nofun
  · split <;> nofun
  · nofun

theorem Consistent.startup_step (h : Consistent s) (hstep : StartupStep s a t) :
    Consistent t := by
  cases hstep with
  | parse config hpc =>
      refine .of_none (h.none_before hpc nofun nofun) ?_
      cases config <;> nofun
  | makeRuntime ok hpc =>
      refine .of_none (h.none_before hpc nofun nofun) ?_
      cases ok <;> nofun
  | @reset config ok hpc =>
      refine h.call (.of_none (h.none_before hpc nofun nofun) ?_)
      cases ok with
      | true => exact dispatch_ne_storing config
      | false => nofun
  | readFile content hpc =>
      refine .of_none (h.none_before hpc nofun nofun) ?_
      dsimp only
      split <;> nofun
  | evalScript ok hpc =>
      refine h.call (.of_none (h.none_before hpc nofun nofun) ?_)
      dsimp only
      split <;> nofun
  | clearStop hpc =>
      exact .of_none (h.none_before hpc nofun nofun) nofun
  | lastWriteTime ok hpc =>
      refine .of_none (h.none_before hpc nofun nofun) ?_
      cases ok <;> nofun
  | createThread hpc => exact ⟨fun hne => absurd rfl hne, fun _ => nofun, nofun⟩
  | noThread hpc => exact .of_none (h.none_before hpc nofun nofun) nofun
  | storeThread hpc => exact ⟨fun _ hne => absurd rfl hne, nofun, h.exited⟩

/-- A watcher that runs has been created, and goes on running. -/
theorem Consistent.of_running (h : Consistent s) (hstartup : t.startup = s.startup)
    (hbefore : s.watcher ≠ .none) (hafter : t.watcher ≠ .none)
    (hexited : t.watcher = .exited → t.stopWatching = true) : Consistent t := by
  refine ⟨fun hstoring hdone => ?_, fun _ => hafter, hexited⟩
  rw [hstartup] at hstoring hdone
  exact absurd (h.fresh hstoring hdone) hbefore

theorem Consistent.watcher_step (h : Consistent s) (hstep : WatcherStep s a t) :
    Consistent t := by
  cases hstep with
  | beginPoll hpc hgo => exact h.of_running rfl (by rw [hpc]; nofun) nofun nofun
  | leaveLoop hpc hstop => exact h.of_running rfl (by rw [hpc]; nofun) nofun fun _ => hstop
  | lastWriteTime changed hpc =>
      refine h.of_running rfl (by rw [hpc]; nofun) ?_ ?_ <;> cases changed <;> nofun
  | readFile content hpc =>
      refine h.of_running rfl (by rw [hpc]; nofun) ?_ ?_ <;> dsimp only <;> split <;> nofun
  | testRuntime hpc =>
      refine h.of_running rfl (by rw [hpc]; nofun) ?_ ?_ <;> dsimp only <;> split <;> nofun
  | reset ok hpc =>
      refine h.call (h.of_running rfl (by rw [hpc]; nofun) ?_ ?_) <;> cases ok <;> nofun
  | evalScript hpc => exact h.call (h.of_running rfl (by rw [hpc]; nofun) nofun nofun)

theorem Consistent.step {l : Thread × Action} (h : Consistent s) (hstep : Step s l t) :
    Consistent t := by
  cases hstep with
  | startup _ hstep => exact h.startup_step hstep
  | watcher _ hstep => exact h.watcher_step hstep
  | destructor _ hstep =>
      cases hstep with
      | setStop hpc => exact ⟨h.fresh, h.storing, fun _ => rfl⟩
      | _ => exact ⟨h.fresh, h.storing, h.exited⟩

theorem consistent_of_run {tr : List (Library × (Thread × Action))}
    (run : Run Step .loaded tr s) : Consistent s :=
  (run.invariant (I := Consistent) (.of_none rfl (by decide)) fun _ _ _ => Consistent.step).2

end Invariant

/-! ## §6  The way to another use -/

section Noisy

variable {s : Library} (h : Final s) (alive : s.crashed = false)
include h alive

theorem Final.startup {a : Action} {t : Library} (hstep : StartupStep s a t) :
    ¬ Uses (.startup, a) ∧ Final t :=
  h.step (.startup alive hstep)

theorem Final.watcher {a : Action} {t : Library} (hstep : WatcherStep s a t) :
    ¬ Uses (.watcher, a) ∧ Final t :=
  h.step (.watcher alive hstep)

theorem Final.not_top (hpc : s.watcher = .top) : s.stopWatching = true := by
  by_contra hstop
  have hgo := Bool.eq_false_iff.2 hstop
  exact (h.watcher alive (.beginPoll hpc hgo)).1 ⟨by decide, .inl rfl⟩

theorem Final.not_starting (hpc : s.startup = .starting) : s.stopWatching = true :=
  (h.startup alive (.createThread hpc)).2.not_top alive rfl

theorem Final.not_stat (hpc : s.startup = .stat) : s.stopWatching = true :=
  (h.startup alive (.lastWriteTime true hpc)).2.not_starting alive rfl

theorem Final.late : s.startup.Late := by
  cases hpc : s.startup with
  | parsing =>
      have hnext := (h.startup alive (.parse (some ⟨.embedJs, none, none, none⟩) hpc)).2
      exact ((hnext.startup alive (.makeRuntime true rfl)).1 ⟨by decide, .inr rfl⟩).elim
  | creating config =>
      exact ((h.startup alive (.makeRuntime true hpc)).1 ⟨by decide, .inr rfl⟩).elim
  | resetting config => exact ((h.startup alive (.reset true hpc)).1 ⟨by decide, .inr rfl⟩).elim
  | reading =>
      have hnext := (h.startup alive (.readFile "1" hpc)).2
      exact ((hnext.startup alive (.evalScript true rfl)).1 ⟨by decide, .inr rfl⟩).elim
  | evaluating watch =>
      exact ((h.startup alive (.evalScript true hpc)).1 ⟨by decide, .inr rfl⟩).elim
  | clearing =>
      -- the flag is cleared, and no one will set it again
      exact absurd ((h.startup alive (.clearStop hpc)).2.not_stat alive rfl) nofun
  | stat | starting | storing | done => trivial

theorem Final.not_testing (hpc : s.watcher = .testing) : False :=
  (h.watcher alive (.testRuntime hpc)).1 ⟨by decide, .inr rfl⟩

theorem Final.not_reading (hpc : s.watcher = .reading) : False :=
  (h.watcher alive (.readFile "1" hpc)).2.not_testing alive rfl

theorem Final.betweenPolls : s.watcher.BetweenPolls := by
  cases hpc : s.watcher with
  | stat => exact ((h.watcher alive (.lastWriteTime true hpc)).2.not_reading alive rfl).elim
  | reading => exact (h.not_reading alive hpc).elim
  | testing => exact (h.not_testing alive hpc).elim
  | resetting => exact ((h.watcher alive (.reset true hpc)).1 ⟨by decide, .inr rfl⟩).elim
  | evaluating => exact ((h.watcher alive (.evalScript hpc)).1 ⟨by decide, .inr rfl⟩).elim
  | none | top | exited => trivial

theorem Final.quiet (hs : Consistent s) : Quiet s := by
  have hlate := h.late alive
  have hbetween := h.betweenPolls alive
  refine ⟨hlate, hbetween, ?_⟩
  cases hpc : s.startup with
  | stat => exact .inl (h.not_stat alive hpc)
  | starting => exact .inl (h.not_starting alive hpc)
  | storing =>
      cases hwatcher : s.watcher with
      | none => exact absurd hwatcher (hs.storing hpc)
      | top => exact .inl (h.not_top alive hwatcher)
      | exited => exact .inl (hs.exited hwatcher)
      | _ =>
          rw [hwatcher] at hbetween
          exact hbetween.elim
  | done =>
      by_cases htop : s.watcher = .top
      · exact .inl (h.not_top alive htop)
      · exact .inr ⟨rfl, htop⟩
  | _ =>
      rw [hpc] at hlate
      exact hlate.elim

end Noisy

/-! ## §7  Shutdown -/

/-- The destructor returns only where all is quiet. -/
def ReturnsQuiet (s : Library) (l : Thread × Action) : Prop := l = (.destructor, .ret) → Quiet s

section Shutdown

variable {s t : Library} {tr : List (Library × (Thread × Action))}

theorem call_cleanup (h : t.cleanup = s.cleanup) : (s.call t).cleanup = s.cleanup := by
  unfold Library.call
  split
  · exact h
  · rfl

theorem StartupStep.cleanup_eq {a : Action} (hstep : StartupStep s a t) :
    t.cleanup = s.cleanup := by
  cases hstep with
  | reset | evalScript => exact call_cleanup rfl
  | _ => rfl

theorem WatcherStep.cleanup_eq {a : Action} (hstep : WatcherStep s a t) :
    t.cleanup = s.cleanup := by
  cases hstep with
  | reset | evalScript => exact call_cleanup rfl
  | _ => rfl

/-- Until the return anything goes, after it all is quiet. -/
theorem quiet_of_guarded (run : Run Step .loaded tr s) (guarded : Guarded ReturnsQuiet tr) :
    Throughout (fun s => s.cleanup = .returned → Quiet s) tr s := by
  refine run.guarded_invariant (by simp [Library.loaded]) (fun s l t h hl hstep hret => ?_) guarded
  by_cases hreturned : s.cleanup = .returned
  · exact ((h hreturned).step hreturned hstep).1
  · cases hstep with
    | startup _ hstep => exact absurd (hstep.cleanup_eq.symm.trans hret) hreturned
    | watcher _ hstep => exact absurd (hstep.cleanup_eq.symm.trans hret) hreturned
    | destructor _ hstep =>
        cases hstep with
        | ret hpc =>
            have hquiet := hl rfl
            exact ⟨hquiet.startup, hquiet.watcher, hquiet.stop⟩
        | testThread hpc =>
            dsimp only at hret
            split at hret <;> cases hret
        | _ => cases hret

/-- In a run whose return is quiet, nothing is used after it. -/
theorem no_use_of_guarded (run : Run Step .loaded tr s) (guarded : Guarded ReturnsQuiet tr) :
    ∀ p ∈ tr, p.1.cleanup = .returned → ¬ Uses p.2 := by
  intro p hp hreturned
  obtain ⟨u, hstep⟩ := run.step_of_mem hp
  exact (((quiet_of_guarded run guarded).1 p hp hreturned).step hreturned hstep).2.2

/-- A quiet return is final. -/
theorem Quiet.final (h : Quiet s) (hreturned : s.cleanup = .returned) : Final s := by
  intro tr t run p hp
  have hall : Throughout (fun s => Quiet s ∧ s.cleanup = .returned) tr t :=
    run.invariant ⟨h, hreturned⟩ fun s l t hs hstep =>
      let hnext := hs.1.step hs.2 hstep
      ⟨hnext.1, hnext.2.1⟩
  obtain ⟨u, hstep⟩ := run.step_of_mem hp
  exact ((hall.1 p hp).1.step (hall.1 p hp).2 hstep).2.2

/-- **Shutdown.** In a run where the destructor returns only when all is quiet, nothing is used
after its return; and after a return of any run it is certain that nothing will be exactly
when it was quiet. -/
theorem shutdown_final (run : Run Step .loaded tr s) :
    (Guarded ReturnsQuiet tr → ∀ p ∈ tr, p.1.cleanup = .returned → ¬ Uses p.2) ∧
      ∀ t, Step s (.destructor, .ret) t → (Final t ↔ Quiet s) := by
  refine ⟨no_use_of_guarded run, fun t hstep => ?_⟩
  have hconsistent := consistent_of_run run
  cases hstep with
  | destructor alive hstep =>
      cases hstep with
      | ret hpc =>
          constructor
          · intro hfinal
            have hquiet := hfinal.quiet alive
              ⟨hconsistent.fresh, hconsistent.storing, hconsistent.exited⟩
            exact ⟨hquiet.startup, hquiet.watcher, hquiet.stop⟩
          · intro hquiet
            exact Quiet.final ⟨hquiet.startup, hquiet.watcher, hquiet.stop⟩ rfl

end Shutdown

section Concrete

def watchConfig : EmbeddedConfigData := ⟨.watchPath, none, none, some "main.js"⟩

/-- `injectee_main` in WatchPath mode up to the start of the thread. -/
def startupTrace (cleanup : CleanupPc) (stop : Bool) : List (Library × (Thread × Action)) :=
  [(⟨.parsing, .none, cleanup, stop, false, false, false⟩, (.startup, .parseEmbeddedConfig)),
    (⟨.creating watchConfig, .none, cleanup, stop, false, false, false⟩,
      (.startup, .makeRuntime true)),
    (⟨.resetting watchConfig, .none, cleanup, stop, false, true, false⟩, (.startup, .reset)),
    (⟨.reading, .none, cleanup, stop, false, true, false⟩, (.startup, .readFile)),
    (⟨.evaluating true, .none, cleanup, stop, false, true, false⟩, (.startup, .evalScript)),
    (⟨.clearing, .none, cleanup, stop, false, true, false⟩, (.startup, .clearStop)),
    (⟨.stat, .none, cleanup, false, false, true, false⟩, (.startup, .lastWriteTime)),
    (⟨.starting, .none, cleanup, false, false, true, false⟩, (.startup, .createThread))]

theorem step_reset (cleanup : CleanupPc) (stop : Bool) :
    StartupStep ⟨.resetting watchConfig, .none, cleanup, stop, false, true, false⟩ .reset
      ⟨.reading, .none, cleanup, stop, false, true, false⟩ :=
  .reset (s := ⟨.resetting watchConfig, .none, cleanup, stop, false, true, false⟩) true rfl

theorem step_evalScript (cleanup : CleanupPc) (stop : Bool) :
    StartupStep ⟨.evaluating true, .none, cleanup, stop, false, true, false⟩ .evalScript
      ⟨.clearing, .none, cleanup, stop, false, true, false⟩ :=
  .evalScript (s := ⟨.evaluating true, .none, cleanup, stop, false, true, false⟩) true rfl

theorem run_startup (cleanup : CleanupPc) (stop : Bool) :
    Run Step ⟨.parsing, .none, cleanup, stop, false, false, false⟩ (startupTrace cleanup stop)
      ⟨.storing, .top, cleanup, false, false, true, false⟩ :=
  Run.nil.cons (.startup rfl (.createThread rfl)) |>.cons (.startup rfl (.lastWriteTime true rfl))
    |>.cons (.startup rfl (.clearStop rfl)) |>.cons (.startup rfl (step_evalScript cleanup stop))
    |>.cons (.startup rfl (.readFile "1" rfl)) |>.cons (.startup rfl (step_reset cleanup stop))
    |>.cons (.startup rfl (.makeRuntime true rfl))
    |>.cons (.startup rfl (.parse (some watchConfig) rfl))

/-- The destructor finds the thread, which finds the flag. -/
theorem joined_final :
    Final ⟨.done, .exited, .returned, true, true, false, false⟩ := by
  have hstored := (run_startup .idle false).snoc (.startup rfl (.storeThread rfl))
  have hset := hstored.snoc (.destructor rfl (.setStop rfl))
  have htested := hset.snoc (.destructor rfl (.testThread rfl))
  have hleft := htested.snoc (.watcher rfl (.leaveLoop rfl rfl))
  have hjoined := hleft.snoc (.destructor rfl (.join rfl rfl))
  have hdisposed := hjoined.snoc (.destructor rfl (.disposeRuntime rfl))
  exact ((shutdown_final hdisposed).2 _ (.destructor rfl (.ret rfl))).2
    ⟨trivial, trivial, .inl rfl⟩

/-- The destructor is through before `injectee_main` has begun. Then the script runs, the flag
is cleared, and a watcher begins to poll. -/
theorem early_notFinal :
    ∃ tr s t, Run Step .loaded tr s ∧ Step s (.destructor, .ret) t ∧ ¬ Final t ∧
      ∃ tr' u, Run Step t tr' u ∧ (∃ p ∈ tr', p.2 = (.startup, .evalScript)) ∧
        ∃ p ∈ tr', p.2 = (.watcher, .beginPoll) := by
  have hset : Run Step .loaded _ _ := Run.nil.snoc (.destructor rfl (.setStop rfl))
  have htested := hset.snoc (.destructor rfl (.testThread rfl))
  have hdisposed := htested.snoc (.destructor rfl (.disposeRuntime rfl))
  have hpolls := (run_startup .returned true).snoc (.watcher rfl (.beginPoll rfl rfl))
  refine ⟨_, _, ⟨.parsing, .none, .returned, true, false, false, false⟩, hdisposed,
    .destructor rfl (.ret rfl), fun h => ?_, _, _, hpolls, ?_, ?_⟩
  · exact h _ _ hpolls _ (List.mem_append_right _ (List.mem_singleton_self _))
      ⟨by decide, .inl rfl⟩
  · exact ⟨_, List.mem_append_left _ (.tail _ (.tail _ (.tail _ (.tail _ (.head _))))), rfl⟩
  · exact ⟨_, List.mem_append_right _ (List.mem_singleton_self _), rfl⟩

end Concrete

end LibraryUnload

end Chromatic
