import Chromatic.Foundation.Runs

/-!
# The file watcher

`injectee_main` in WatchPath mode and the thread of `start_file_watcher`. The watcher knows of
an edit by the time of the last write only. The loop takes the time first and reads the file
after it, so an edit in between shows at the next poll; the start-up reads the file first.

§1 the file and the two threads · §2 steps · §3 what a poll may rely on · §4 what a step keeps ·
§5 runs.
-/

namespace Chromatic

open Foundation

namespace FileWatcher

variable {Time : Type}

/-! ## §1  The file and the two threads -/

structure File (Time : Type) where
  content : String
  writeTime : Time
deriving DecidableEq, Repr

/-- Where `injectee_main` is, and behind it the loop of the watcher with its variable
`last_write_time`. Delays are between any two steps. -/
inductive Pc (Time : Type) where
  | reading
  | evaluating (content : String)
  | starting
  | polling (lastWriteTime : Time)
  | changed (lastWriteTime : Time)
  | resetting (lastWriteTime : Time) (newContent : String)
  | reloading (lastWriteTime : Time) (newContent : String)
  | gone
deriving DecidableEq, Repr

/-- `evaluated` is the text passed to `eval_script` last, `times` lists the times of all
writes: both are history. -/
structure System (Time : Type) where
  file : File Time
  pc : Pc Time
  evaluated : Option String
  times : List Time
deriving DecidableEq, Repr

/-- The runtime has been created and reset once, no script has been evaluated. -/
def System.start (content : String) (time : Time) : System Time :=
  ⟨⟨content, time⟩, .reading, none, [time]⟩

/-! ## §2  Steps -/

/-- What happens: a write by anybody, or a step of the injectee with what it meets. `opens`
says that `read_file` gets the file opened, `succeeds` that `eval_script` has a result, `stat`
that `last_write_time` does not throw, `resets` that `reset` does not. -/
inductive Label (Time : Type) where
  | write (content : String) (time : Time)
  | readFile (opens : Bool)
  | evalScript (succeeds : Bool)
  | lastWriteTime (stat : Bool)
  | reset (resets : Bool)
  | stop
deriving DecidableEq, Repr

/-- `read_file`: nothing of a file that cannot be opened. -/
def readFile (opens : Bool) (file : File Time) : String := if opens then file.content else ""

theorem readFile_eq_content {opens : Bool} {file : File Time} (h : readFile opens file ≠ "") :
    readFile opens file = file.content := by
  cases opens with
  | true => rfl
  | false => exact absurd rfl h

/-- Every write gives a fresh time. Exceptions in the loop end the turn. -/
inductive Step [DecidableEq Time] : System Time → Label Time → System Time → Prop
  | write {s content time} (fresh : time ∉ s.times) :
      Step s (.write content time)
        { s with file := ⟨content, time⟩, times := time :: s.times }
  | readInitial {s opens} (hpc : s.pc = .reading) :
      Step s (.readFile opens)
        { s with pc :=
            if readFile opens s.file = "" then .gone else .evaluating (readFile opens s.file) }
  | evalInitial {s content succeeds} (hpc : s.pc = .evaluating content) :
      Step s (.evalScript succeeds)
        { s with pc := if succeeds then .starting else .gone, evaluated := some content }
  | startWatcher {s stat} (hpc : s.pc = .starting) :
      Step s (.lastWriteTime stat)
        { s with pc := if stat then .polling s.file.writeTime else .gone }
  | poll {s last stat} (hpc : s.pc = .polling last) :
      Step s (.lastWriteTime stat)
        { s with pc :=
            if stat = true ∧ s.file.writeTime ≠ last then .changed s.file.writeTime
            else .polling last }
  | stop {s last} (hpc : s.pc = .polling last) : Step s .stop { s with pc := .gone }
  | readAgain {s last opens} (hpc : s.pc = .changed last) :
      Step s (.readFile opens)
        { s with pc :=
            if readFile opens s.file = "" then .polling last
            else .resetting last (readFile opens s.file) }
  | reset {s last content resets} (hpc : s.pc = .resetting last content) :
      Step s (.reset resets)
        { s with pc := if resets then .reloading last content else .polling last }
  | evalAgain {s last content succeeds} (hpc : s.pc = .reloading last content) :
      Step s (.evalScript succeeds)
        { s with pc := .polling last, evaluated := some content }

/-! ## §3  What a poll may rely on -/

/-- The file is empty or has the text evaluated last. -/
def Current (s : System Time) : Prop :=
  s.file.content = "" ∨ s.evaluated = some s.file.content

/-- A poll that finds the time it knows finds the script up to date. -/
def UpToDate (s : System Time) : Prop :=
  ∀ last, s.pc = .polling last → s.file.writeTime = last → Current s

/-- When the watcher takes its first time, no edit since the start-up's read has changed the
text. Where the loop gives up on a change whose time it has noted, the file has been written
again, is empty or is as evaluated. -/
def InTime (s : System Time) : Label Time → Prop
  | .lastWriteTime true => s.pc = .starting → Current s
  | .readFile false => ∀ last, s.pc = .changed last → s.file.writeTime = last → Current s
  | .reset false =>
      ∀ last content, s.pc = .resetting last content → s.file.writeTime = last → Current s
  | _ => True

/-! ## §4  What a step keeps -/

/-- The time that the watcher knows. -/
def Pc.last : Pc Time → Option Time
  | .polling last | .changed last | .resetting last _ | .reloading last _ => some last
  | .reading | .evaluating _ | .starting | .gone => none

/-- The text on its way to `eval_script` in the loop. -/
def Pc.newContent : Pc Time → Option String
  | .resetting _ content | .reloading _ content => some content
  | .reading | .evaluating _ | .starting | .polling _ | .changed _ | .gone => none

/-- All times known are those of writes, and the text read is the file's as long as the time
noted before it is. -/
structure Tracked (s : System Time) : Prop where
  fileTime : s.file.writeTime ∈ s.times
  lastTime : ∀ last, s.pc.last = some last → last ∈ s.times
  text : ∀ last content, s.pc.last = some last → s.pc.newContent = some content →
    s.file.writeTime = last → s.file.content = content

section Keeps

variable [DecidableEq Time] {s t : System Time} {l : Label Time}

theorem Tracked.step (h : Tracked s) (hstep : Step s l t) : Tracked t := by
  obtain ⟨hfile, hlast, htext⟩ := h
  cases hstep with
  | @write content time fresh =>
      refine ⟨List.mem_cons_self, fun last h => List.mem_cons_of_mem _ (hlast last h), ?_⟩
      rintro last text h - rfl
      exact absurd (hlast _ h) fresh
  | readInitial hpc =>
      refine ⟨hfile, fun last h => ?_, fun last content h => ?_⟩ <;>
        (dsimp only at h; split at h <;> cases h)
  | evalInitial hpc =>
      refine ⟨hfile, fun last h => ?_, fun last content h => ?_⟩ <;>
        (dsimp only at h; split at h <;> cases h)
  | startWatcher hpc =>
      refine ⟨hfile, fun last h => ?_, fun last content h hc => ?_⟩
      · dsimp only at h
        split at h
        · exact Option.some.inj h ▸ hfile
        · cases h
      · dsimp only at hc
        split at hc <;> cases hc
  | @poll last₀ stat hpc =>
      refine ⟨hfile, fun last h => ?_, fun last content h hc => ?_⟩
      · dsimp only at h
        split at h
        · exact Option.some.inj h ▸ hfile
        · exact hlast last (by rw [hpc]; exact h)
      · dsimp only at hc
        split at hc <;> cases hc
  | stop hpc =>
      refine ⟨hfile, fun last h => ?_, fun last content h => ?_⟩ <;> cases h
  | @readAgain last₀ opens hpc =>
      have hknown : last₀ ∈ s.times := hlast last₀ (by rw [hpc]; rfl)
      refine ⟨hfile, fun last h => ?_, fun last content h hc htime => ?_⟩
      · dsimp only at h
        split at h <;> exact Option.some.inj h ▸ hknown
      · dsimp only at hc
        split at hc
        · cases hc
        · rename_i hsome
          exact (readFile_eq_content hsome).symm.trans (Option.some.inj hc)
  | @reset last₀ content₀ resets hpc =>
      have hknown : last₀ ∈ s.times := hlast last₀ (by rw [hpc]; rfl)
      refine ⟨hfile, fun last h => ?_, fun last content h hc htime => ?_⟩
      · dsimp only at h
        split at h <;> exact Option.some.inj h ▸ hknown
      · dsimp only at h hc
        split at hc
        · rw [if_pos ‹_›] at h
          exact htext last content (by rw [hpc]; exact h) (by rw [hpc]; exact hc) htime
        · cases hc
  | @evalAgain last₀ content₀ succeeds hpc =>
      refine ⟨hfile, fun last h => hlast last (by rw [hpc]; exact h), fun last content h hc => ?_⟩
      cases hc

theorem UpToDate.step (hi : Tracked s) (h : UpToDate s) (htime : InTime s l)
    (hstep : Step s l t) : UpToDate t := by
  intro last hpc' hlast
  cases hstep with
  | @write content time fresh =>
      have hknown : last ∈ s.times := hi.lastTime last (by rw [show s.pc = _ from hpc']; rfl)
      exact absurd (show time = last from hlast) fun e => fresh (e ▸ hknown)
  | readInitial hpc => dsimp only at hpc'; split at hpc' <;> cases hpc'
  | evalInitial hpc => dsimp only at hpc'; split at hpc' <;> cases hpc'
  | @startWatcher stat hpc =>
      cases stat with
      | true => exact htime hpc
      | false => cases hpc'
  | @poll last₀ stat hpc =>
      dsimp only at hpc'
      split at hpc'
      · cases hpc'
      · obtain rfl := Pc.polling.inj hpc'
        exact h last₀ hpc hlast
  | stop hpc => cases hpc'
  | @readAgain last₀ opens hpc =>
      dsimp only at hpc'
      split at hpc'
      · rename_i hempty
        obtain rfl := Pc.polling.inj hpc'
        cases opens with
        | true => exact .inl hempty
        | false => exact htime last₀ hpc hlast
      · cases hpc'
  | @reset last₀ content resets hpc =>
      cases resets with
      | true => cases hpc'
      | false =>
          obtain rfl := Pc.polling.inj hpc'
          exact htime last₀ content hpc hlast
  | @evalAgain last₀ content succeeds hpc =>
      obtain rfl := Pc.polling.inj hpc'
      -- the file is as it was read
      have hsame := hi.text last₀ content (by rw [hpc]; rfl) (by rw [hpc]; rfl) hlast
      exact .inr (congrArg some hsame.symm)

/-- A step out of time leads to a poll that misses an edit. -/
theorem UpToDate.inTime (h : UpToDate t) (hstep : Step s l t) : InTime s l := by
  cases hstep with
  | @startWatcher stat hpc =>
      cases stat with
      | true => exact fun _ => h _ rfl rfl
      | false => trivial
  | @poll last₀ stat hpc =>
      cases stat with
      | true =>
          intro hstart
          rw [hpc] at hstart
          cases hstart
      | false => trivial
  | @readInitial opens hpc =>
      cases opens with
      | true => trivial
      | false =>
          intro last hchanged
          rw [hpc] at hchanged
          cases hchanged
  | @readAgain last₀ opens hpc =>
      cases opens with
      | true => trivial
      | false =>
          intro last hchanged hlast
          rw [hpc] at hchanged
          obtain rfl := Pc.changed.inj hchanged
          exact h last₀ rfl hlast
  | @reset last₀ content₀ resets hpc =>
      cases resets with
      | true => trivial
      | false =>
          intro last content hresetting hlast
          rw [hpc] at hresetting
          obtain ⟨rfl, rfl⟩ := Pc.resetting.inj hresetting
          exact h last₀ rfl hlast
  | _ => trivial

end Keeps

/-! ## §5  Runs -/

/-- **No edit is missed.** In every run, with writes anywhere, this holds of every poll exactly
when no edit between the start-up's read and the watcher's first time has changed the text,
and the loop gives up on a change only where the file has been written again since, is empty
or is as evaluated. -/
theorem upToDate_throughout_iff [DecidableEq Time] {content : String} {time : Time}
    {tr : List (System Time × Label Time)} {s : System Time}
    (run : Run Step (.start content time) tr s) :
    Throughout UpToDate tr s ↔ Guarded InTime tr := by
  refine run.throughout_iff_guarded (I := Tracked) ?_ (fun _ _ _ => Tracked.step) ?_
    (fun _ _ _ => UpToDate.step) fun s l t _ _ hnot hstep h => hnot (h.inTime hstep)
  · refine ⟨List.mem_singleton_self time, fun last h => ?_, fun last text h => ?_⟩ <;> cases h
  · intro last h
    cases h

section Concrete

/-- The file is written while the first script is evaluated. -/
def missed : System ℕ := ⟨⟨"new", 1⟩, .polling 1, some "old", [1, 0]⟩

theorem run_missed : Run Step (.start "old" 0)
    [(.start "old" 0, .readFile true),
      (⟨⟨"old", 0⟩, .evaluating "old", none, [0]⟩, .write "new" 1),
      (⟨⟨"new", 1⟩, .evaluating "old", none, [1, 0]⟩, .evalScript true),
      (⟨⟨"new", 1⟩, .starting, some "old", [1, 0]⟩, .lastWriteTime true)] missed :=
  (((Run.nil.snoc (.readInitial rfl)).snoc (.write (by decide))).snoc (.evalInitial rfl)).snoc
    (.startWatcher rfl)

/-- The next poll finds the time it knows. -/
theorem edit_missed : missed.file.writeTime = 1 ∧ missed.pc = .polling 1 ∧
    missed.file.content = "new" ∧ missed.evaluated = some "old" ∧
    ∃ tr, Run Step (System.start "old" 0) tr missed ∧ ¬ Throughout UpToDate tr missed := by
  refine ⟨rfl, rfl, rfl, rfl, _, run_missed, fun h => ?_⟩
  rcases h.2 1 rfl rfl with hempty | hsame
  · exact absurd hempty (by decide)
  · exact absurd hsame (by decide)

/-- The file is written when the watcher runs, and read again. -/
def seenTrace : List (System ℕ × Label ℕ) :=
  [(.start "old" 0, .readFile true),
    (⟨⟨"old", 0⟩, .evaluating "old", none, [0]⟩, .evalScript true),
    (⟨⟨"old", 0⟩, .starting, some "old", [0]⟩, .lastWriteTime true),
    (⟨⟨"old", 0⟩, .polling 0, some "old", [0]⟩, .write "new" 1),
    (⟨⟨"new", 1⟩, .polling 0, some "old", [1, 0]⟩, .lastWriteTime true),
    (⟨⟨"new", 1⟩, .changed 1, some "old", [1, 0]⟩, .readFile true),
    (⟨⟨"new", 1⟩, .resetting 1 "new", some "old", [1, 0]⟩, .reset true),
    (⟨⟨"new", 1⟩, .reloading 1 "new", some "old", [1, 0]⟩, .evalScript true)]

theorem step_noticed : Step ⟨⟨"new", 1⟩, .polling 0, some "old", [1, 0]⟩ (.lastWriteTime true)
    ⟨⟨"new", 1⟩, .changed 1, some "old", [1, 0]⟩ :=
  Step.poll (s := ⟨⟨"new", 1⟩, .polling 0, some "old", [1, 0]⟩) rfl

theorem run_seen : Run Step (.start "old" 0) seenTrace
    ⟨⟨"new", 1⟩, .polling 1, some "new", [1, 0]⟩ :=
  (((((((Run.nil.snoc (.readInitial rfl)).snoc (.evalInitial rfl)).snoc
    (.startWatcher rfl)).snoc (.write (by decide))).snoc step_noticed).snoc
    (.readAgain rfl)).snoc (.reset rfl)).snoc (.evalAgain rfl)

theorem edit_seen :
    Throughout UpToDate seenTrace ⟨⟨"new", 1⟩, .polling 1, some "new", [1, 0]⟩ := by
  refine (upToDate_throughout_iff run_seen).mpr fun p hp => ?_
  simp only [seenTrace, List.mem_cons, List.not_mem_nil, or_false] at hp
  rcases hp with rfl | rfl | rfl | rfl | rfl | rfl | rfl | rfl
  all_goals first
    | trivial
    | exact fun _ => .inr rfl
    | exact fun h => by cases h

end Concrete

end FileWatcher

end Chromatic
