import Chromatic.Foundation.Runs

/-!
# C modules

`NativeCModule` owns a state of the C compiler: its constructor compiles, `dispose` and the
destructor run the module's `finalize` and delete the state. The flags that keep them from
doing so twice are written when `finalize`, which may call back into the script, has returned.

§1 the calls made · §2 a module · §3 the constructor · §4 the methods · §5 runs · §6 what
every run keeps · §7 finalizing once.
-/

namespace Chromatic

open Foundation

namespace CModule

/-! ## §1  The calls made -/

/-- The calls into the compiler that matter, `state` telling whether they are given a state
or a null pointer, and the calls of `finalize`. -/
inductive Event where
  | tccCall (state : Bool)
  | tccDelete (state : Bool)
  | finalizeStarts
  | finalizeReturns
deriving DecidableEq, Repr

/-- What has happened so far, the latest first. -/
abbrev Log : Type := List Event

def Event.isDelete : Event → Bool
  | .tccDelete _ => true
  | _ => false

def starts (log : Log) : ℕ := log.count .finalizeStarts

def returns (log : Log) : ℕ := log.count .finalizeReturns

def deletes (log : Log) : ℕ := log.countP Event.isDelete

section Counts

variable (e : Event) (log : Log)

@[simp] theorem starts_cons :
    starts (e :: log) = starts log + if e = .finalizeStarts then 1 else 0 := by
  simp [starts, List.count_cons]

@[simp] theorem returns_cons :
    returns (e :: log) = returns log + if e = .finalizeReturns then 1 else 0 := by
  simp [returns, List.count_cons]

@[simp] theorem deletes_cons :
    deletes (e :: log) = deletes log + if e.isDelete then 1 else 0 := by
  simp [deletes, List.countP_cons]

end Counts

/-- What an event asks of those before it. -/
def Event.Allowed (hasFinalize : Bool) (earlier : Log) : Event → Prop
  | .tccCall state => state = true ∧ deletes earlier = 0
  | .tccDelete state =>
      state = true ∧ deletes earlier = 0 ∧ returns earlier = starts earlier ∧
        (hasFinalize = true → 0 < returns earlier)
  | .finalizeStarts => starts earlier = 0
  | .finalizeReturns => True

/-- The compiler is called on a state that is there, `finalize` is called once at most, and
the state deleted once at most and after that. -/
def Ordered (hasFinalize : Bool) : Log → Prop
  | [] => True
  | e :: earlier => Ordered hasFinalize earlier ∧ e.Allowed hasFinalize earlier

theorem Ordered.le_one {hasFinalize : Bool} {log : Log} (h : Ordered hasFinalize log) :
    starts log ≤ 1 ∧ deletes log ≤ 1 := by
  induction log with
  | nil => simp [starts, deletes]
  | cons e earlier ih =>
      obtain ⟨hordered, hallowed⟩ := h
      have hearlier := ih hordered
      cases e with
      | tccCall state => simpa [Event.isDelete] using hearlier
      | tccDelete state => simpa [Event.isDelete, hallowed.2.1] using hearlier.1
      | finalizeStarts =>
          have hnone : starts earlier = 0 := hallowed
          simpa [Event.isDelete, hnone] using hearlier.2
      | finalizeReturns => simpa [Event.isDelete] using hearlier

/-- Nothing is deleted before `finalize` has returned. -/
theorem Ordered.deletes_eq_zero {log : Log} (h : Ordered true log) (hreturns : returns log = 0) :
    deletes log = 0 := by
  induction log with
  | nil => rfl
  | cons e earlier ih =>
      obtain ⟨hordered, hallowed⟩ := h
      have hearlier : returns earlier = 0 := by
        rw [returns_cons] at hreturns
        omega
      cases e with
      | tccDelete state => exact absurd (hallowed.2.2.2 rfl) (by omega)
      | _ => simpa [Event.isDelete] using ih hordered hearlier

/-! ## §2  A module -/

/-- `dispose` of the script's `CModule`, or of the native object in it. -/
inductive Via where
  | cmodule
  | native
deriving DecidableEq, Repr

/-- The code that `finalize` returns to. -/
inductive Frame where
  | dispose (via : Via)
  | destructor
deriving DecidableEq, Repr

/-- A script that lets go of the native object has it destroyed. -/
inductive Life where
  | held
  | dying
  | destroyed
deriving DecidableEq, Repr

/-- `tcc` and `native` say whether `$impl->tcc` and `_native` are not null, `frames` are the
calls of `finalize` under way, the innermost first. -/
structure Module where
  tcc : Bool
  disposed : Bool
  native : Bool
  life : Life
  frames : List Frame
  log : Log
deriving DecidableEq, Repr

namespace Module

def emit (e : Event) (m : Module) : Module := { m with log := e :: m.log }

/-- A call that is given `$impl->tcc`. -/
def tccCall (m : Module) : Module := m.emit (.tccCall m.tcc)

/-- `tcc_delete($impl->tcc); $impl->tcc = nullptr`. -/
def tccDelete (m : Module) : Module := { m.emit (.tccDelete m.tcc) with tcc := false }

/-- `CModule.dispose` after the native one. -/
def returned : Via → Module → Module
  | .cmodule, m => { m with native := false }
  | .native, m => m

/-- What `dispose` and the destructor do after `callFinalize`. -/
def finish : Frame → Module → Module
  | .dispose via, m => returned via { m.tccDelete with disposed := true }
  | .destructor, m => { m.tccDelete with life := .destroyed }

/-- `callFinalize` and, if no function is called, what comes after it. -/
def callFinalize (hasFinalize : Bool) (frame : Frame) (m : Module) : Module :=
  if !m.tcc then finish frame m
  else
    let m := m.tccCall
    if hasFinalize then { m.emit .finalizeStarts with frames := frame :: m.frames }
    else finish frame m

end Module

/-! ## §3  The constructor -/

/-- How the calls of the constructor end, and whether `tcc_get_symbol` finds the functions. -/
structure Toolchain where
  symbolNames : ℕ
  symbolAddresses : ℕ
  injected : ℕ
  newOk : Bool
  compileOk : Bool
  relocateOk : Bool
  hasFinalize : Bool

/-- `~Impl`. -/
def destroyImpl (hasFinalize : Bool) (m : Module) : Module :=
  if m.tcc && !m.disposed then Module.callFinalize hasFinalize .destructor { m with life := .dying }
  else { m with life := .destroyed }

def tccCalls (n : ℕ) (m : Module) : Module :=
  { m with log := List.replicate n (.tccCall m.tcc) ++ m.log }

/-- The message is the one thrown, without the compiler's own. A constructor that throws has
`~Impl` run. -/
def construct (env : Toolchain) : Except String Unit × Module :=
  let m : Module := ⟨false, false, false, .held, [], []⟩
  let fail := fun (message : String) (m : Module) =>
    (Except.error message, destroyImpl env.hasFinalize m)
  if env.symbolNames ≠ env.symbolAddresses then
    fail "CModule: symbolNames and symbolAddresses must have same length" m
  else if !env.newOk then fail "CModule: tcc_new() failed" m
  else
    let m := { m with tcc := true }
    -- the error function, the options, the output type and the symbols
    let m := tccCalls (3 + env.injected + env.symbolNames) m
    let m := m.tccCall
    if !env.compileOk then fail "CModule: compilation failed" m.tccDelete
    else
      let m := m.tccCall
      if !env.relocateOk then fail "CModule: relocation failed" m.tccDelete
      else
        -- `init`, which has no way to reach the object
        (.ok (), { m.tccCall with native := true })

/-! ## §4  The methods -/

namespace Module

def nativeDispose (hasFinalize : Bool) (via : Via) (m : Module) : Module :=
  if !m.tcc || m.disposed then returned via m
  else callFinalize hasFinalize (.dispose via) m

def dispose (hasFinalize : Bool) : Via → Module → Module
  | .cmodule, m => if m.native then nativeDispose hasFinalize .cmodule m else m
  | .native, m => nativeDispose hasFinalize .native m

/-- `getSymbol` and `listSymbols`: one call of the compiler each. -/
def query (m : Module) : Module := if !m.tcc || m.disposed then m else m.tccCall

/-- `finalize` returns into the innermost frame. -/
def finalizeReturns (m : Module) : Module :=
  match m.frames with
  | [] => m
  | frame :: frames => finish frame { m.emit .finalizeReturns with frames := frames }

end Module

/-! ## §5  Runs -/

inductive Op where
  | dispose (via : Via)
  | getSymbol
  | listSymbols
  | destroy
  | finalizeReturns
deriving DecidableEq, Repr

def Op.exec (hasFinalize : Bool) (m : Module) : Op → Module
  | .dispose via => m.dispose hasFinalize via
  | .getSymbol => m.query
  | .listSymbols => m.query
  | .destroy => destroyImpl hasFinalize m
  | .finalizeReturns => m.finalizeReturns

/-- The script calls methods as long as it holds the object, also from within `finalize`; a
method under way holds it too. -/
def Op.Able (m : Module) : Op → Prop
  | .finalizeReturns => m.frames ≠ []
  | .destroy => m.life = .held ∧ m.frames = []
  | _ => m.life = .held

instance (m : Module) (op : Op) : Decidable (op.Able m) := by
  cases op <;> unfold Op.Able <;> infer_instance

def Step (hasFinalize : Bool) (m : Module) (op : Op) (m' : Module) : Prop :=
  op.Able m ∧ m' = op.exec hasFinalize m

/-- The module is not disposed of while its `finalize` is running. -/
def NotReentrant (m : Module) : Op → Prop
  | .dispose _ => m.frames = []
  | _ => True

/-- The calls are in order, and a module that is gone has been finalized and its state
deleted. -/
structure Lawful (hasFinalize : Bool) (m : Module) : Prop where
  ordered : Ordered hasFinalize m.log
  finalized : m.life = .destroyed →
    starts m.log = if hasFinalize then 1 else 0
  deleted : m.life = .destroyed → deletes m.log = 1

/-! ## §6  What every run keeps -/

/-- How the flags and the frames of a module follow from what has happened. -/
structure Tracks (hasFinalize : Bool) (m : Module) : Prop where
  balance : starts m.log = m.frames.length + returns m.log
  none : hasFinalize = false → starts m.log = 0
  live : m.tcc = true →
    deletes m.log = 0 ∧ returns m.log = 0 ∧
      m.disposed = false ∧ m.native = true
  dead : m.tcc = false → 0 < deletes m.log
  held : m.life = .held → .destructor ∉ m.frames
  dying : m.life = .dying → m.frames = [.destructor]
  destroyed : m.life = .destroyed → m.tcc = false ∧ m.frames = []

/-- The state behind a call of `callFinalize` that has come to its end. -/
structure Finishes (hasFinalize : Bool) (frame : Frame) (m : Module) : Prop where
  balance : starts m.log = m.frames.length + returns m.log
  none : hasFinalize = false → starts m.log = 0
  dispose : ∀ via, frame = .dispose via → m.life = .held ∧ .destructor ∉ m.frames
  destructor : frame = .destructor → m.frames = []

section Invariant

variable {hasFinalize : Bool} {m : Module}

theorem finish_log (frame : Frame) :
    (Module.finish frame m).log = .tccDelete m.tcc :: m.log ∧
      (Module.finish frame m).frames = m.frames ∧ (Module.finish frame m).tcc = false := by
  cases frame with
  | dispose via => cases via <;> exact ⟨rfl, rfl, rfl⟩
  | destructor => exact ⟨rfl, rfl, rfl⟩

theorem finish_life (frame : Frame) : (Module.finish frame m).life =
    match frame with
    | .dispose _ => m.life
    | .destructor => .destroyed := by
  cases frame with
  | dispose via => cases via <;> rfl
  | destructor => rfl

theorem Finishes.tracks {frame : Frame} (h : Finishes hasFinalize frame m) :
    Tracks hasFinalize (m.finish frame) := by
  obtain ⟨hlog, hframes, htcc⟩ := finish_log (m := m) frame
  have hlife := finish_life (m := m) frame
  constructor
  · rw [hlog, hframes]
    simpa using h.balance
  · intro hnone
    rw [hlog]
    simpa using h.none hnone
  · intro hlive
    rw [htcc] at hlive
    cases hlive
  · intro _
    simp [hlog, Event.isDelete]
  · intro hheld
    rw [hframes]
    cases frame with
    | dispose via => exact (h.dispose via rfl).2
    | destructor => rw [hlife] at hheld; cases hheld
  · intro hdying
    cases frame with
    | dispose via => rw [hlife, (h.dispose via rfl).1] at hdying; cases hdying
    | destructor => rw [hlife] at hdying; cases hdying
  · intro hdestroyed
    refine ⟨htcc, ?_⟩
    rw [hframes]
    cases frame with
    | dispose via => rw [hlife, (h.dispose via rfl).1] at hdestroyed; cases hdestroyed
    | destructor => exact h.destructor rfl

theorem Tracks.query (h : Tracks hasFinalize m) : Tracks hasFinalize m.query := by
  unfold Module.query
  split
  · exact h
  · obtain ⟨balance, none, live, dead, held, dying, destroyed⟩ := h
    constructor <;> simpa [Module.tccCall, Module.emit, Event.isDelete]

/-- How a module lives on while `finalize` runs. -/
def Frame.life : Frame → Life
  | .dispose _ => .held
  | .destructor => .dying

theorem Tracks.callFinalize {frame : Frame} (h : Tracks hasFinalize m) (htcc : m.tcc = true)
    (hheld : m.life = .held) (hdestructor : frame = .destructor → m.frames = []) :
    Tracks hasFinalize (Module.callFinalize hasFinalize frame { m with life := frame.life }) := by
  obtain ⟨balance, none, live, dead, held, dying, destroyed⟩ := h
  cases hasFinalize with
  | false =>
      have hfinishes : Finishes false frame
          (Module.tccCall { m with life := frame.life }) := by
        refine ⟨?_, ?_, ?_, hdestructor⟩
        · simpa [Module.tccCall, Module.emit] using balance
        · simpa [Module.tccCall, Module.emit] using none
        · rintro via rfl
          exact ⟨rfl, held hheld⟩
      simpa [Module.callFinalize, htcc] using hfinishes.tracks
  | true =>
      have hcalled : Module.callFinalize true frame { m with life := frame.life } =
          { m with
            life := frame.life
            frames := frame :: m.frames
            log := .finalizeStarts :: .tccCall true :: m.log } := by
        simp [Module.callFinalize, htcc, Module.tccCall, Module.emit]
      rw [hcalled]
      constructor
      · simp [balance]
        omega
      · simp
      · simpa [Event.isDelete] using live
      · simpa [Event.isDelete] using dead
      · intro hlife
        cases frame with
        | dispose via => simpa using held hheld
        | destructor => cases hlife
      · intro hlife
        cases frame with
        | dispose via => cases hlife
        | destructor => rw [hdestructor rfl]
      · intro hlife
        cases frame <;> cases hlife

/-- The guards of `dispose` hold as long as there is a state to delete. -/
theorem Tracks.dispose_live (h : Tracks hasFinalize m) (htcc : m.tcc = true) (via : Via) :
    m.dispose hasFinalize via = Module.callFinalize hasFinalize (.dispose via) m := by
  obtain ⟨-, -, hdisposed, hnative⟩ := h.live htcc
  cases via <;> simp [Module.dispose, Module.nativeDispose, htcc, hdisposed, hnative]

theorem dispose_dead (htcc : m.tcc = false) (via : Via) :
    m.dispose hasFinalize via = m ∨ m.dispose hasFinalize via = { m with native := false } := by
  cases via with
  | native => exact .inl (by simp [Module.dispose, Module.nativeDispose, htcc, Module.returned])
  | cmodule =>
      by_cases hnative : m.native = true
      · exact .inr (by simp [Module.dispose, Module.nativeDispose, hnative, htcc,
          Module.returned])
      · exact .inl (by simp [Module.dispose, hnative])

theorem Tracks.destroyImpl_live (h : Tracks hasFinalize m) (htcc : m.tcc = true) :
    destroyImpl hasFinalize m =
      Module.callFinalize hasFinalize .destructor { m with life := .dying } := by
  simp [destroyImpl, htcc, (h.live htcc).2.2.1]

theorem destroyImpl_dead (htcc : m.tcc = false) :
    destroyImpl hasFinalize m = { m with life := .destroyed } := by
  simp [destroyImpl, htcc]

theorem Tracks.dispose (h : Tracks hasFinalize m) (hheld : m.life = .held) (via : Via) :
    Tracks hasFinalize (m.dispose hasFinalize via) := by
  cases htcc : m.tcc with
  | true =>
      have hcalled := @Tracks.callFinalize _ _ (.dispose via) h htcc hheld nofun
      rw [Frame.life, ← hheld] at hcalled
      rw [h.dispose_live htcc]
      exact hcalled
  | false =>
      rcases @dispose_dead hasFinalize _ htcc via with heq | heq
      · rw [heq]
        exact h
      · rw [heq]
        obtain ⟨balance, none, live, dead, held, dying, destroyed⟩ := h
        refine ⟨balance, none, fun hlive => ?_, dead, held, dying, destroyed⟩
        cases htcc.symm.trans hlive

theorem Tracks.destroyImpl (h : Tracks hasFinalize m) (hheld : m.life = .held)
    (hframes : m.frames = []) : Tracks hasFinalize (destroyImpl hasFinalize m) := by
  cases htcc : m.tcc with
  | true =>
      rw [h.destroyImpl_live htcc]
      exact h.callFinalize htcc hheld fun _ => hframes
  | false =>
      rw [destroyImpl_dead htcc]
      obtain ⟨balance, none, live, dead, held, dying, destroyed⟩ := h
      exact ⟨balance, none, live, dead, nofun, nofun, fun _ => ⟨htcc, hframes⟩⟩

theorem Tracks.finalizeReturns (h : Tracks hasFinalize m) :
    Tracks hasFinalize m.finalizeReturns := by
  unfold Module.finalizeReturns
  split
  · exact h
  · rename_i frame frames hframes
    apply Finishes.tracks
    obtain ⟨balance, none, live, dead, held, dying, destroyed⟩ := h
    rw [hframes] at balance held dying destroyed
    constructor
    · simp [Module.emit, balance]
      omega
    · simpa [Module.emit] using none
    · rintro via rfl
      cases hlife : m.life with
      | held => exact ⟨hlife, fun hmem => held hlife (List.mem_cons_of_mem _ hmem)⟩
      | dying => cases dying hlife
      | destroyed => cases (destroyed hlife).2
    · rintro rfl
      cases hlife : m.life with
      | held => exact absurd List.mem_cons_self (held hlife)
      | dying => exact (List.cons.inj (dying hlife)).2
      | destroyed => cases (destroyed hlife).2

theorem Tracks.step {op : Op} {m' : Module} (h : Tracks hasFinalize m)
    (hstep : Step hasFinalize m op m') : Tracks hasFinalize m' := by
  obtain ⟨hable, rfl⟩ := hstep
  cases op with
  | dispose via => exact h.dispose hable via
  | getSymbol => exact h.query
  | listSymbols => exact h.query
  | destroy => exact h.destroyImpl hable.1 hable.2
  | finalizeReturns => exact h.finalizeReturns

end Invariant

/-! ## §7  Finalizing once -/

section Once

variable {hasFinalize : Bool} {m : Module}

/-- The end of a call of `callFinalize` with a state to delete. -/
theorem lawful_finish (frame : Frame) (hordered : Ordered hasFinalize m.log)
    (htcc : m.tcc = true) (hnone : deletes m.log = 0) (hclosed : returns m.log = starts m.log)
    (honce : starts m.log = if hasFinalize then 1 else 0) :
    Lawful hasFinalize (m.finish frame) := by
  obtain ⟨hlog, -, -⟩ := finish_log (m := m) frame
  constructor
  · rw [hlog, htcc]
    refine ⟨hordered, rfl, hnone, hclosed, ?_⟩
    rintro rfl
    rw [hclosed, honce]
    exact Nat.zero_lt_one
  · intro _
    simp [hlog, honce]
  · intro _
    simp [hlog, hnone, Event.isDelete]

theorem Lawful.query (htracks : Tracks hasFinalize m) (h : Lawful hasFinalize m) :
    Lawful hasFinalize m.query := by
  unfold Module.query
  cases htcc : m.tcc with
  | false => exact h
  | true =>
      obtain ⟨hnone, -, hdisposed, -⟩ := htracks.live htcc
      obtain ⟨ordered, finalized, deleted⟩ := h
      simp only [hdisposed, Module.tccCall, Module.emit, htcc]
      constructor
      · exact ⟨ordered, rfl, hnone⟩
      · simpa using finalized
      · simpa [Event.isDelete] using deleted

/-- `finalize` is called for the first time when nobody runs it and there is a state. -/
theorem Lawful.callFinalize {frame : Frame} (htracks : Tracks hasFinalize m)
    (h : Lawful hasFinalize m) (htcc : m.tcc = true) (hframes : m.frames = []) :
    Lawful hasFinalize (Module.callFinalize hasFinalize frame { m with life := frame.life }) := by
  obtain ⟨hnone, hreturns, -, -⟩ := htracks.live htcc
  have hstarts : starts m.log = 0 := by
    rw [htracks.balance, hframes, hreturns]
    rfl
  have hasked : Ordered hasFinalize (.tccCall true :: m.log) := ⟨h.ordered, rfl, hnone⟩
  cases hasFinalize with
  | false =>
      have hfinished := @lawful_finish false (Module.tccCall { m with life := frame.life }) frame
        (by simpa [Module.tccCall, Module.emit, htcc] using hasked) htcc
        (by simpa [Module.tccCall, Module.emit, Event.isDelete] using hnone)
        (by simp [Module.tccCall, Module.emit, hreturns, hstarts])
        (by simp [Module.tccCall, Module.emit, hstarts])
      simpa [Module.callFinalize, htcc] using hfinished
  | true =>
      have hlife : frame.life ≠ .destroyed := by cases frame <;> nofun
      simp only [Module.callFinalize, htcc, Module.tccCall, Module.emit]
      exact ⟨⟨hasked, by simpa [Event.Allowed] using hstarts⟩,
        fun hdestroyed => absurd hdestroyed hlife, fun hdestroyed => absurd hdestroyed hlife⟩

/-- While `finalize` runs for the first time, the state is there. -/
theorem Lawful.running (htracks : Tracks hasFinalize m) (h : Lawful hasFinalize m)
    (hframes : m.frames ≠ []) :
    hasFinalize = true ∧ m.frames.length = 1 ∧ returns m.log = 0 ∧ deletes m.log = 0 ∧
      m.tcc = true := by
  have hpos : 0 < m.frames.length := List.length_pos_iff.mpr hframes
  have hbalance := htracks.balance
  have hle := h.ordered.le_one.1
  have hfinalize : hasFinalize = true := by
    cases hasFinalize with
    | true => rfl
    | false =>
        have := htracks.none rfl
        omega
  subst hfinalize
  have hreturns : returns m.log = 0 := by omega
  have hnone := h.ordered.deletes_eq_zero hreturns
  refine ⟨rfl, by omega, hreturns, hnone, ?_⟩
  cases htcc : m.tcc with
  | true => rfl
  | false =>
      have := htracks.dead htcc
      omega

theorem Lawful.finalizeReturns (htracks : Tracks hasFinalize m) (h : Lawful hasFinalize m)
    (hframes : m.frames ≠ []) : Lawful hasFinalize m.finalizeReturns := by
  obtain ⟨rfl, hlength, hreturns, hnone, htcc⟩ := h.running htracks hframes
  obtain ⟨frame, hframe⟩ := List.length_eq_one_iff.mp hlength
  have hstarts : starts m.log = 1 := by
    rw [htracks.balance, hlength, hreturns]
  unfold Module.finalizeReturns
  rw [hframe]
  apply lawful_finish
  · exact ⟨h.ordered, trivial⟩
  · exact htcc
  · simpa [Module.emit, Event.isDelete] using hnone
  · simp [Module.emit, hreturns, hstarts]
  · simp [Module.emit, hstarts]

/-- A module that is finalized already is only let go of. -/
theorem Lawful.destroyed (htracks : Tracks hasFinalize m) (h : Lawful hasFinalize m)
    (htcc : m.tcc = false) (hframes : m.frames = []) :
    Lawful hasFinalize { m with life := .destroyed } := by
  have hdead := htracks.dead htcc
  obtain ⟨hstarts, hdeletes⟩ := h.ordered.le_one
  refine ⟨h.ordered, fun _ => ?_, fun _ => by dsimp only; omega⟩
  cases hasFinalize with
  | false => exact htracks.none rfl
  | true =>
      have hreturns : returns m.log ≠ 0 := by
        intro hzero
        have := h.ordered.deletes_eq_zero hzero
        omega
      have hbalance := htracks.balance
      rw [hframes, List.length_nil] at hbalance
      simp only [if_true]
      omega

theorem Lawful.step {op : Op} {m' : Module} (htracks : Tracks hasFinalize m)
    (h : Lawful hasFinalize m) (hok : NotReentrant m op) (hstep : Step hasFinalize m op m') :
    Lawful hasFinalize m' := by
  obtain ⟨hable, rfl⟩ := hstep
  cases op with
  | dispose via =>
      cases htcc : m.tcc with
      | true =>
          have hcalled := @Lawful.callFinalize _ _ (.dispose via) htracks h htcc hok
          rw [Frame.life, ← show m.life = .held from hable] at hcalled
          rw [Op.exec, htracks.dispose_live htcc]
          exact hcalled
      | false =>
          rw [Op.exec]
          rcases @dispose_dead hasFinalize _ htcc via with heq | heq
          · rw [heq]
            exact h
          · rw [heq]
            exact ⟨h.ordered, h.finalized, h.deleted⟩
  | getSymbol => exact h.query htracks
  | listSymbols => exact h.query htracks
  | destroy =>
      cases htcc : m.tcc with
      | true =>
          rw [Op.exec, htracks.destroyImpl_live htcc]
          exact h.callFinalize htracks htcc hable.2
      | false =>
          rw [Op.exec, destroyImpl_dead htcc]
          exact h.destroyed htracks htcc hable.2
  | finalizeReturns => exact h.finalizeReturns htracks hable

/-- Disposed of from within its `finalize`, a module is finalized again. -/
theorem not_lawful_of_reentrant {op : Op} {m' : Module} (htracks : Tracks hasFinalize m)
    (h : Lawful hasFinalize m) (hno : ¬ NotReentrant m op) (hstep : Step hasFinalize m op m') :
    ¬ Lawful hasFinalize m' := by
  obtain ⟨-, rfl⟩ := hstep
  cases op with
  | dispose via =>
      obtain ⟨rfl, hlength, hreturns, -, htcc⟩ := h.running htracks hno
      intro hlawful
      have hordered := hlawful.ordered
      rw [Op.exec, htracks.dispose_live htcc] at hordered
      simp only [Module.callFinalize, htcc, Module.tccCall, Module.emit] at hordered
      have hzero : starts (.tccCall true :: m.log) = 0 := hordered.2
      have hbalance := htracks.balance
      rw [starts_cons, if_neg (by decide)] at hzero
      omega
  | getSymbol => exact absurd trivial hno
  | listSymbols => exact absurd trivial hno
  | destroy => exact absurd trivial hno
  | finalizeReturns => exact absurd trivial hno

/-- The calls of the constructor. -/
theorem calls_log (n : ℕ) :
    starts (List.replicate n (.tccCall true)) = 0 ∧ returns (List.replicate n (.tccCall true)) = 0 ∧
      deletes (List.replicate n (.tccCall true)) = 0 ∧
      Ordered hasFinalize (List.replicate n (.tccCall true)) := by
  induction n with
  | zero => exact ⟨rfl, rfl, rfl, trivial⟩
  | succ n ih =>
      obtain ⟨hstarts, hreturns, hdeletes, hordered⟩ := ih
      rw [List.replicate_succ]
      refine ⟨by simp [hstarts], by simp [hreturns], by simp [hdeletes, Event.isDelete], ?_⟩
      exact ⟨hordered, rfl, hdeletes⟩

theorem construct_ok {env : Toolchain} (h : construct env = (.ok (), m)) :
    ∃ n, m = ⟨true, false, true, .held, [], List.replicate n (.tccCall true)⟩ := by
  unfold construct at h
  dsimp only at h
  split at h
  · cases h
  · split at h
    · cases h
    · split at h
      · cases h
      · split at h
        · cases h
        · refine ⟨3 + env.injected + env.symbolNames + 3, (Prod.mk.inj h).2.symm.trans ?_⟩
          simp [Module.tccCall, Module.emit, tccCalls, List.replicate_succ]

/-- A constructor that throws has deleted what it made, and nothing is left for `~Impl`. -/
theorem construct_error {env : Toolchain} {message : String}
    (h : construct env = (.error message, m)) :
    m.tcc = false ∧ starts m.log = 0 ∧ deletes m.log ≤ 1 := by
  unfold construct at h
  dsimp only at h
  obtain ⟨hstarts, -, hdeletes, -⟩ :=
    @calls_log false (3 + env.injected + env.symbolNames)
  split at h
  · rw [← (Prod.mk.inj h).2, destroyImpl_dead rfl]
    exact ⟨rfl, rfl, Nat.zero_le 1⟩
  · split at h
    · rw [← (Prod.mk.inj h).2, destroyImpl_dead rfl]
      exact ⟨rfl, rfl, Nat.zero_le 1⟩
    · split at h
      · rw [← (Prod.mk.inj h).2, destroyImpl_dead rfl]
        simp [Module.tccDelete, Module.tccCall, Module.emit, tccCalls, hstarts, hdeletes,
          Event.isDelete]
      · split at h
        · rw [← (Prod.mk.inj h).2, destroyImpl_dead rfl]
          simp [Module.tccDelete, Module.tccCall, Module.emit, tccCalls, hstarts, hdeletes,
            Event.isDelete]
        · cases h

end Once

/-- **Finalizing.** A construction that fails never finalizes and deletes the state once at
most. After one that succeeds, `finalize` is called once by the time the module is gone, the
state deleted once and after that, and the compiler never called without a state, exactly in
the runs in which the module is not disposed of while its `finalize` is running. -/
theorem finalizes_once_iff (env : Toolchain) :
    (∀ message m, construct env = (.error message, m) →
      starts m.log = 0 ∧ deletes m.log ≤ 1) ∧
    ∀ m₀ tr m, construct env = (.ok (), m₀) → Run (Step env.hasFinalize) m₀ tr m →
      (Throughout (Lawful env.hasFinalize) tr m ↔ Guarded NotReentrant tr) := by
  constructor
  · intro message m h
    exact (construct_error h).2
  · intro m₀ tr m hconstruct run
    obtain ⟨n, rfl⟩ := construct_ok hconstruct
    obtain ⟨hstarts, hreturns, hdeletes, hordered⟩ :=
      @calls_log env.hasFinalize n
    apply run.throughout_iff_guarded (I := Tracks env.hasFinalize)
    · exact ⟨by simp [hstarts, hreturns], fun _ => hstarts,
        fun _ => ⟨hdeletes, hreturns, rfl, rfl⟩, nofun, nofun, nofun, nofun⟩
    · intro m op m' htracks hstep
      exact htracks.step hstep
    · exact ⟨hordered, nofun, nofun⟩
    · intro m op m' htracks h hok hstep
      exact h.step htracks hok hstep
    · intro m op m' htracks h hno hstep
      exact not_lawful_of_reentrant htracks h hno hstep

section Concrete

/-- A module with a `finalize`. -/
def finalizing : Toolchain := ⟨0, 0, 0, true, true, true, true⟩

/-- The module after these calls. -/
def after (ops : List Op) : Module :=
  ops.foldl (fun m op => op.exec true m) (construct finalizing).2

/-- `finalize` disposes of the module, which calls `finalize` again; the second one to return
finds the state deleted. -/
theorem finalized_twice :
    Run (Step true) (construct finalizing).2
      [(after [], .dispose .cmodule),
        (after [.dispose .cmodule], .dispose .cmodule),
        (after [.dispose .cmodule, .dispose .cmodule], .finalizeReturns),
        (after [.dispose .cmodule, .dispose .cmodule, .finalizeReturns], .finalizeReturns)]
      (after [.dispose .cmodule, .dispose .cmodule, .finalizeReturns, .finalizeReturns]) ∧
    (after [.dispose .cmodule, .dispose .cmodule, .finalizeReturns, .finalizeReturns]).log.take 7 =
      [.tccDelete false, .finalizeReturns, .tccDelete true, .finalizeReturns, .finalizeStarts,
        .tccCall true, .finalizeStarts] ∧
    ¬ ∀ tr m, Run (Step true) (construct finalizing).2 tr m → Throughout (Lawful true) tr m := by
  have run : Run (Step true) (construct finalizing).2
      [(after [], .dispose .cmodule),
        (after [.dispose .cmodule], .dispose .cmodule),
        (after [.dispose .cmodule, .dispose .cmodule], .finalizeReturns),
        (after [.dispose .cmodule, .dispose .cmodule, .finalizeReturns], .finalizeReturns)]
      (after [.dispose .cmodule, .dispose .cmodule, .finalizeReturns, .finalizeReturns]) :=
    (((Run.nil.snoc ⟨by decide, rfl⟩).snoc ⟨by decide, rfl⟩).snoc ⟨by decide, rfl⟩).snoc
      ⟨by decide, rfl⟩
  refine ⟨run, by decide, fun h => ?_⟩
  have honce := (h _ _ run).2.ordered.le_one.1
  exact absurd honce (by decide)

end Concrete

end CModule

end Chromatic
