import Chromatic.ExceptionHandler

/-!
# Safe reads

`NativeMemory::safeReadMemory` takes the signals `SIGSEGV` and `SIGBUS` over while it copies
and gives them back afterwards. It remembers one action for both. Runs mix such reads with
the switches of the exception handler, beside the same run without the reads.

§1 the copy · §2 safeReadMemory · §3 what a read leaves behind · §4 runs.
-/

namespace Chromatic

open Foundation ExceptionHandler

namespace SafeRead

/-! ## §1  The copy -/

inductive Fault where
  | segv
  | bus
deriving DecidableEq, Repr

def Fault.sig : Fault → Sig
  | .segv => .sigsegv
  | .bus => .sigbus

/-- What `assign` meets: the byte at an address or the fault that reading it raises, and the
number of bytes that a vector can be given. -/
structure Process where
  byte : Addr → Except Fault Byte
  room : ℕ

/-- `assign(addr, addr + size)` throws: a negative difference is a length beyond all. -/
def Throws (p : Process) (size : ℤ) : Prop := size < 0 ∨ (p.room : ℤ) < size

instance (p : Process) (size : ℤ) : Decidable (Throws p size) :=
  inferInstanceAs (Decidable (_ ∨ _))

inductive Copy where
  | copied (bytes : List Byte)
  | faulted (fault : Fault)
  | thrown
deriving DecidableEq, Repr

def assign (p : Process) (addr : Addr) (size : ℤ) : Copy :=
  if Throws p size then .thrown
  else
    match (List.range size.toNat).mapM fun i => p.byte (addr + BitVec.ofNat 64 i) with
    | .ok bytes => .copied bytes
    | .error fault => .faulted fault

theorem assign_eq_thrown_iff {p : Process} {addr : Addr} {size : ℤ} :
    assign p addr size = .thrown ↔ Throws p size := by
  unfold assign
  by_cases hthrows : Throws p size
  · simp [hthrows]
  · rw [if_neg hthrows]
    simp only [hthrows, iff_false]
    split <;> simp

/-! ## §2  safeReadMemory -/

/-- The exception handler's globals with the dispositions, and `safe_read_active`. -/
structure ReadState where
  exc : ExceptionState
  active : Bool

/-- `sa.sa_handler = safe_read_signal_handler; sa.sa_flags = 0`: of the functions that are not
the exception handler's, the one with number 0. -/
def safeReadAction : SigAction := ⟨.foreign 0, false, false, 0, 0⟩

/-- `sigaction(sig, &action, nullptr)`. -/
def sigaction (sig : Sig) (action : SigAction) (s : ReadState) : ReadState :=
  { s with exc := { s.exc with
      disposition := Function.update s.exc.disposition sig action } }

def setActive (active : Bool) (s : ReadState) : ReadState := { s with active := active }

/-- How the call ends. On Windows nothing catches a fault. -/
inductive Result where
  | returned (bytes : List Byte)
  | thrown
  | unhandled (fault : Fault)
deriving DecidableEq, Repr

/-- `siglongjmp` out of `safe_read_signal_handler`. -/
def Jumps (s : ReadState) (fault : Fault) : Prop :=
  s.exc.disposition fault.sig = safeReadAction ∧ s.active = true

instance (s : ReadState) (fault : Fault) : Decidable (Jumps s fault) :=
  inferInstanceAs (Decidable (_ ∧ _))

/-- What stands before `sigsetjmp`. -/
def prepare (s : ReadState) : ReadState :=
  setActive true (sigaction .sigbus safeReadAction (sigaction .sigsegv safeReadAction s))

/-- What stands behind it: `old_sa` is the action that `SIGSEGV` had. -/
def restore (old_sa : SigAction) (s : ReadState) : ReadState :=
  sigaction .sigbus old_sa (sigaction .sigsegv old_sa (setActive false s))

def safeReadMemory (target : Target) (p : Process) (address : Addr) (size : ℤ)
    (s : ReadState) : Result × ReadState :=
  if target.os = .windows then
    match assign p address size with
    | .copied bytes => (.returned bytes, s)
    | .faulted fault => (.unhandled fault, s)
    | .thrown => (.thrown, s)
  else
    let old_sa := s.exc.disposition .sigsegv
    let s := prepare s
    match assign p address size with
    | .copied bytes => (.returned bytes, restore old_sa s)
    | .faulted fault =>
      if Jumps s fault then (.returned [], restore old_sa s) else (.unhandled fault, s)
    | .thrown => (.thrown, s)

/-- What `hexdump` of an address reads; it prints the bytes. -/
def hexdump (target : Target) (p : Process) (address : Addr) (offset length : ℤ)
    (s : ReadState) : Result × ReadState :=
  safeReadMemory target p (address + BitVec.ofInt 64 offset) length s

/-! ## §3  What a read leaves behind -/

section Read

variable {target : Target} {p : Process} {address : Addr} {size : ℤ} {s : ReadState}

/-- Every fault finds the handler that jumps back. -/
theorem jumps_prepare (s : ReadState) (fault : Fault) : Jumps (prepare s) fault := by
  cases fault <;> simp [Jumps, prepare, setActive, sigaction, Fault.sig]

/-- A read that throws leaves everything as it was prepared. -/
theorem safeReadMemory_state (h : target.os ≠ .windows) :
    (safeReadMemory target p address size s).2 =
      if Throws p size then prepare s
      else restore (s.exc.disposition .sigsegv) (prepare s) := by
  have hthrows := @assign_eq_thrown_iff p address size
  unfold safeReadMemory
  rw [if_neg h]
  cases hcopy : assign p address size with
  | copied bytes =>
      have hno : ¬ Throws p size := fun hyes => by simp [hthrows.mpr hyes] at hcopy
      rw [if_neg hno]
  | faulted fault =>
      have hno : ¬ Throws p size := fun hyes => by simp [hthrows.mpr hyes] at hcopy
      simp only [jumps_prepare, if_true]
      rw [if_neg hno]
  | thrown => rw [if_pos (hthrows.mp hcopy)]

theorem safeReadMemory_windows (h : target.os = .windows) :
    (safeReadMemory target p address size s).2 = s := by
  unfold safeReadMemory
  rw [if_pos h]
  cases assign p address size <;> rfl

/-- Nothing of the exception handler's own changes. -/
theorem exc_safeReadMemory :
    (safeReadMemory target p address size s).2.exc =
      { s.exc with
        disposition := (safeReadMemory target p address size s).2.exc.disposition } := by
  by_cases hos : target.os = .windows
  · rw [safeReadMemory_windows hos]
  · rw [safeReadMemory_state hos]
    split <;> rfl

/-- The read finds one action for both signals, and if it throws, the one that it leaves. -/
def Unnoticed (target : Target) (p : Process) (size : ℤ) (s : ExceptionState) : Prop :=
  target.os ≠ .windows →
    s.disposition .sigsegv = s.disposition .sigbus ∧
    (Throws p size → s.disposition .sigsegv = safeReadAction)

/-- A read leaves the dispositions as it finds them exactly then. -/
theorem disposition_safeReadMemory_iff :
    (safeReadMemory target p address size s).2.exc.disposition = s.exc.disposition ↔
      Unnoticed target p size s.exc := by
  unfold Unnoticed
  by_cases hos : target.os = .windows
  · simp [safeReadMemory_windows hos, hos]
  · have hleft : ∀ action : SigAction,
        Function.update (Function.update s.exc.disposition .sigsegv action) .sigbus action =
          s.exc.disposition ↔
        s.exc.disposition .sigsegv = action ∧ s.exc.disposition .sigbus = action := by
      intro action
      constructor
      · intro h
        exact ⟨by simpa using (congrFun h .sigsegv).symm, by simpa using (congrFun h .sigbus).symm⟩
      · rintro ⟨hsegv, hbus⟩
        funext sig
        cases sig <;> simp [hsegv, hbus]
    rw [safeReadMemory_state hos]
    by_cases hthrows : Throws p size
    · rw [if_pos hthrows]
      refine (hleft safeReadAction).trans ?_
      simp only [hos, ne_eq, not_false_eq_true, hthrows, forall_const]
      constructor
      · rintro ⟨hsegv, hbus⟩
        exact ⟨hsegv.trans hbus.symm, hsegv⟩
      · rintro ⟨hsame, hsegv⟩
        exact ⟨hsegv, hsame.symm.trans hsegv⟩
    · rw [if_neg hthrows]
      have hrestored : (restore (s.exc.disposition .sigsegv) (prepare s)).exc.disposition =
          Function.update (Function.update s.exc.disposition .sigsegv
            (s.exc.disposition .sigsegv)) .sigbus (s.exc.disposition .sigsegv) := by
        funext sig
        cases sig <;> simp [restore, prepare, setActive, sigaction]
      rw [hrestored, hleft]
      simp [hos, hthrows, eq_comm]

end Read

/-! ## §4  Runs -/

/-- A run with reads, beside the exception handler of the run without them. -/
structure Session where
  read : ReadState
  without : ExceptionState

def Session.start (disposition : Sig → SigAction) : Session where
  read := ⟨.start disposition, false⟩
  without := .start disposition

inductive Op where
  | switch (op : Switch)
  | safeReadMemory (p : Process) (address : Addr) (size : ℤ)
  | hexdump (p : Process) (address : Addr) (offset length : ℤ)

def Op.exec (target : Target) (s : Session) : Op → Session
  | .switch op => ⟨{ s.read with exc := op.exec s.read.exc }, op.exec s.without⟩
  | .safeReadMemory p address size =>
      { s with read := (SafeRead.safeReadMemory target p address size s.read).2 }
  | .hexdump p address offset length =>
      { s with read := (SafeRead.hexdump target p address offset length s.read).2 }

/-- Each `refDisable` matches an earlier `refEnable`. -/
def Step (target : Target) (s : Session) (op : Op) (t : Session) : Prop :=
  (op = .switch .refDisable → 0 < s.read.exc.refCount) ∧ t = op.exec target s

/-- The action that the kernel takes on a signal, and the one that `globalSignalHandler` falls
back to, are those of the run without the reads. -/
def Undisturbed (s : Session) : Prop :=
  s.read.exc.disposition = s.without.disposition ∧ s.read.exc.old = s.without.old

/-- A read goes unnoticed, by its arguments and the dispositions that it finds. -/
def Op.Unnoticed (target : Target) (s : Session) : Op → Prop
  | .switch _ => True
  | .safeReadMemory p _ size => SafeRead.Unnoticed target p size s.read.exc
  | .hexdump p _ _ length => SafeRead.Unnoticed target p length s.read.exc

/-- Reads leave the exception handler's own globals alone. -/
structure Matched (s : Session) : Prop where
  handlers : s.read.exc.handlers = s.without.handlers
  nextId : s.read.exc.nextId = s.without.nextId
  enabled : s.read.exc.enabled = s.without.enabled
  refCount : s.read.exc.refCount = s.without.refCount

theorem Matched.exc_eq {s : Session} (h : Matched s) (hsame : Undisturbed s) :
    s.read.exc = s.without := by
  obtain ⟨hhandlers, hnext, henabled, hcount⟩ := h
  obtain ⟨hdisposition, hold⟩ := hsame
  obtain ⟨⟨exc, active⟩, without⟩ := s
  cases exc
  cases without
  simp_all

section Steps

variable {target : Target} {s t : Session}

/-- One step, for both kinds of reads. -/
theorem exec_cases (op : Op) :
    (∃ switch, op = .switch switch ∧
      op.exec target s = ⟨{ s.read with exc := switch.exec s.read.exc }, switch.exec s.without⟩ ∧
      op.Unnoticed target s) ∨
    (∃ p address size,
      op.exec target s =
        { s with read := (safeReadMemory target p address size s.read).2 } ∧
      (op.Unnoticed target s ↔ Unnoticed target p size s.read.exc)) := by
  cases op with
  | switch op => exact .inl ⟨op, rfl, rfl, trivial⟩
  | safeReadMemory p address size => exact .inr ⟨p, address, size, rfl, Iff.rfl⟩
  | hexdump p address offset length =>
      exact .inr ⟨p, address + BitVec.ofInt 64 offset, length, rfl, Iff.rfl⟩

theorem Matched.switch (h : Matched s) (op : Switch) :
    Matched ⟨{ s.read with exc := op.exec s.read.exc }, op.exec s.without⟩ := by
  cases op with
  | enable =>
      simp only [Switch.exec, enable, h.enabled]
      split
      · exact h
      · exact ⟨h.handlers, h.nextId, rfl, h.refCount⟩
  | disable =>
      simp only [Switch.exec, disable, h.enabled, h.refCount]
      split
      · exact h
      · split
        · exact ⟨h.handlers, h.nextId, rfl, rfl⟩
        · exact ⟨h.handlers, h.nextId, rfl, rfl⟩
  | refEnable =>
      simp only [Switch.exec, refEnable, h.enabled, h.refCount]
      split
      · exact ⟨h.handlers, h.nextId, rfl, rfl⟩
      · exact ⟨h.handlers, h.nextId, rfl, rfl⟩
  | refDisable =>
      exact ⟨h.handlers, h.nextId, h.enabled, congrArg (· - 1) h.refCount⟩

theorem Matched.step {op : Op} (h : Matched s) (hstep : Step target s op t) : Matched t := by
  obtain ⟨-, rfl⟩ := hstep
  obtain ⟨switch, -, heq, -⟩ | ⟨p, address, size, heq, -⟩ := @exec_cases target s op
  · rw [heq]
    exact h.switch switch
  · rw [heq]
    constructor
    all_goals
      dsimp only
      rw [exc_safeReadMemory]
    exacts [h.handlers, h.nextId, h.enabled, h.refCount]

/-- With nothing disturbed so far, a step disturbs nothing exactly when it goes unnoticed. -/
theorem undisturbed_step {op : Op} (h : Matched s) (hsame : Undisturbed s)
    (hstep : Step target s op t) : Undisturbed t ↔ op.Unnoticed target s := by
  obtain ⟨-, rfl⟩ := hstep
  obtain ⟨switch, -, heq, hok⟩ | ⟨p, address, size, heq, hok⟩ :=
    @exec_cases target s op
  · rw [heq]
    simp only [hok, iff_true]
    unfold Undisturbed
    dsimp only
    rw [h.exc_eq hsame]
    exact ⟨rfl, rfl⟩
  · rw [heq, hok, ← @disposition_safeReadMemory_iff target p address size]
    unfold Undisturbed
    dsimp only
    constructor
    · rintro ⟨hdisposition, -⟩
      exact hdisposition.trans hsame.1.symm
    · intro hdisposition
      refine ⟨hdisposition.trans hsame.1, ?_⟩
      rw [exc_safeReadMemory]
      exact hsame.2

end Steps

/-- **Safe reads and signals.** A read leaves the dispositions of all signals as they were
exactly when it goes unnoticed: on Windows, or where `SIGSEGV` and `SIGBUS` have one action and
nothing is thrown unless that is the reads' own. And the signals of a run with reads go where
they go in the run without them exactly as long as every read goes unnoticed. -/
theorem reads_undisturbed_iff (target : Target) :
    (∀ (p : Process) (address : Addr) (size : ℤ) (s : ReadState),
      (safeReadMemory target p address size s).2.exc.disposition = s.exc.disposition ↔
        Unnoticed target p size s.exc) ∧
    ∀ (disposition : Sig → SigAction) (tr : List (Session × Op)) (t : Session),
      Run (Step target) (Session.start disposition) tr t →
      (Throughout Undisturbed tr t ↔ Guarded (fun s op => op.Unnoticed target s) tr) := by
  constructor
  · intro p address size s
    exact disposition_safeReadMemory_iff
  · intro disposition tr t run
    apply run.throughout_iff_guarded (I := Matched)
    · exact ⟨rfl, rfl, rfl, rfl⟩
    · intro s op u h hstep
      exact h.step hstep
    · exact ⟨rfl, rfl⟩
    · intro s op u h hsame hok hstep
      exact (undisturbed_step h hsame hstep).mpr hok
    · intro s op u h hsame hno hstep
      exact fun hafter => hno ((undisturbed_step h hsame hstep).mp hafter)

section Concrete

/-- Memory that can be read everywhere. -/
def zeros : Process := ⟨fun _ => .ok 0, 1⟩

/-- A process that handles `SIGSEGV` and leaves `SIGBUS` at its default. -/
def handlesSegv : Sig → SigAction :=
  Function.update defaultActions .sigsegv ⟨.foreign 1, true, false, 0, 1⟩

/-- One byte is read, and `SIGBUS` goes to the handler of `SIGSEGV`; with a negative size both
go to the handler of the reads. -/
theorem sigbus_redirected :
    (safeReadMemory ⟨.x64, .linux⟩ zeros 0x1000 1 (Session.start handlesSegv).read).1 =
      .returned [0] ∧
    (Session.start handlesSegv).read.exc.disposition .sigbus = ⟨.sigDfl, false, false, 0, 0⟩ ∧
    (safeReadMemory ⟨.x64, .linux⟩ zeros 0x1000 1
      (Session.start handlesSegv).read).2.exc.disposition .sigbus =
        ⟨.foreign 1, true, false, 0, 1⟩ ∧
    (safeReadMemory ⟨.x64, .linux⟩ zeros 0x1000 (-1)
      (Session.start handlesSegv).read).2.exc.disposition .sigsegv = safeReadAction ∧
    ¬ ∀ (p : Process) (address : Addr) (size : ℤ) (s : ReadState) (bytes : List Byte),
      (safeReadMemory ⟨.x64, .linux⟩ p address size s).1 = .returned bytes →
      (safeReadMemory ⟨.x64, .linux⟩ p address size s).2.exc.disposition =
        s.exc.disposition := by
  refine ⟨by decide, by decide, by decide, by decide, ?_⟩
  intro h
  have hkept := h zeros 0x1000 1 (Session.start handlesSegv).read [0] (by decide)
  exact absurd (congrFun hkept .sigbus) (by decide)

end Concrete

end SafeRead

end Chromatic
