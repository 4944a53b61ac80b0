import Chromatic.Trampoline

/-!
# What the x86_64 trampoline leaves as it was

The hooked code must not notice the trampoline. General registers and flags come back from
the words saved on the stack, whichever of its variants is built. The rest of what breakpoints
interrupt, the red zone and the vector registers, is not saved.

§1 runs with one and two calls · §2 registers and flags · §3 runs with vector registers ·
§4 what a breakpoint interrupts.
-/

namespace Chromatic

open Foundation Foundation.X86 Trampoline

namespace Transparency

/-! ## §1  Runs with one and two calls -/

section Run

variable {os : Os} {callee : Addr → State → State} {s t : State}
  {onEnterFn onLeaveFn userData relocatedAddr : Addr}

/-- The state in which `onEnterFn` is called. -/
def entering (os : Os) (onEnterFn userData : Addr) (s : State) : State :=
  enterState os onEnterFn userData (savedState s)

theorem exec_one :
    exec callee (buildTrampoline os onEnterFn 0 userData relocatedAddr) s =
      ⟨[(onEnterFn, entering os onEnterFn userData s)],
        restoredState os (back callee onEnterFn (entering os onEnterFn userData s)),
        some relocatedAddr⟩ := by
  rw [buildTrampoline, if_pos rfl, exec_saves, exec_enterCall, List.nil_append,
    exec_restoreCode]
  rfl

theorem exec_two (hleave : onLeaveFn ≠ 0) :
    let entered := back callee onEnterFn (entering os onEnterFn userData s)
    let leaving := leaveState os onLeaveFn userData entered
    exec callee (buildTrampoline os onEnterFn onLeaveFn userData relocatedAddr) s =
      ⟨[(onEnterFn, entering os onEnterFn userData s), (onLeaveFn, leaving)],
        restoredState os (back callee onLeaveFn leaving), some relocatedAddr⟩ := by
  dsimp only
  rw [buildTrampoline, if_neg hleave, exec_saves, exec_enterCall, exec_leaveCall,
    exec_restoreCode]
  rfl

theorem entering_delivered :
    Delivered os (frameBase s) userData (frameWords s) (entering os onEnterFn userData s) := by
  obtain ⟨hstack, hrsp⟩ := savedState_stacked s
  exact enterState_delivered onEnterFn userData hrsp hstack

theorem entering_flags : SameSystem (entering os onEnterFn userData s).rflags s.rflags := by
  have h := enterState_flags os onEnterFn userData (savedState s)
  rwa [savedState_rflags] at h

/-- No call of a dispatch function changes what user code cannot. -/
theorem entered_flags :
    SameSystem (back callee onEnterFn (entering os onEnterFn userData s)).rflags s.rflags :=
  (back_rflags callee onEnterFn _).trans entering_flags

theorem left_flags {t : State} (h : SameSystem t.rflags s.rflags) :
    SameSystem (back callee onLeaveFn (leaveState os onLeaveFn userData t)).rflags s.rflags :=
  ((back_rflags callee onLeaveFn _).trans (leaveState_flags os onLeaveFn userData t)).trans h

theorem leaveState_mem : (leaveState os onLeaveFn userData t).mem = t.mem := rfl

end Run

/-! ## §2  Registers and flags -/

/-- The words from `base` upwards, as many as the trampoline and its caller have there. -/
def wordsAt (base : Addr) (m : Memory) : List (BitVec 64) :=
  (List.range 17).map fun k => read64 m (slot base k)

theorem wordsAt_getElem? {base : Addr} {m : Memory} {k : ℕ} (hk : k < 17) :
    (wordsAt base m)[k]? = some (read64 m (slot base k)) := by
  simp [wordsAt, hk]

theorem stacked_wordsAt (base : Addr) (m : Memory) : Stacked m base (wordsAt base m) := by
  intro k v hk
  have hlt : k < 17 := by
    have := (List.getElem?_eq_some_iff.mp hk).1
    simpa [wordsAt] using this
  rw [wordsAt_getElem? hlt] at hk
  exact Option.some.inj hk

/-- Of the calling convention, that the stack pointer comes back. -/
def KeepsStack (callee : Addr → State → State) (fn : Addr) : Prop :=
  ∀ t, (callee fn t).reg .rsp = t.reg .rsp

/-- The registers and the flags that user code loads are those of the words saved, as memory `m`
has them; the other flags are those of the entry. -/
structure FromSlots (s : State) (m : Memory) (out : State) : Prop where
  rsp : out.reg .rsp = s.reg .rsp
  regs : ∀ (k : ℕ) (r : Reg), restoredRegs[k]? = some r →
    out.reg r = read64 m (slot (frameBase s) k)
  rflags : out.rflags = loadFlags s.rflags (read64 m (slot (frameBase s) 15))

/-- A run of the trampoline: the dispatch functions are called in turn with the address of the
same words, which at first are those of the entry state and come from one call to the next,
and control goes on with the registers and flags that the last call leaves in them. -/
structure Transparent (os : Os) (callee : Addr → State → State)
    (onEnterFn onLeaveFn userData relocatedAddr : Addr) (s : State) (out : Outcome) : Prop where
  target : out.target = some relocatedAddr
  calls : out.calls.map Prod.fst = onEnterFn :: if onLeaveFn = 0 then [] else [onLeaveFn]
  delivered : ∀ c ∈ out.calls, c.2.reg (arg0 os) = frameBase s ∧ c.2.reg (arg1 os) = userData
  initially : ∀ c, out.calls.head? = some c →
    Stacked c.2.mem (frameBase s) (restoredRegs.map s.reg ++ [s.rflags])
  passedOn : ∀ c c', out.calls = [c, c'] → c'.2.mem = (callee c.1 c.2).mem
  afterwards : ∀ c, out.calls.getLast? = some c → FromSlots s (callee c.1 c.2).mem out.state

/-- A call that writes to none of the words saved. -/
def SparesSlots (s : State) (t t' : State) : Prop :=
  ∀ k < 16, read64 t'.mem (slot (frameBase s) k) = read64 t.mem (slot (frameBase s) k)

section Slots

variable {os : Os} {callee : Addr → State → State} {s t : State} {m : Memory}
  {onEnterFn onLeaveFn userData relocatedAddr : Addr}

theorem fromSlots_restoredState (hrsp : t.reg .rsp = frameBase s - reserved os)
    (hflags : SameSystem t.rflags s.rflags) : FromSlots s t.mem (restoredState os t) := by
  obtain ⟨hsp, hregs, hrflags, -⟩ :=
    restoredState_restored ⟨hrsp, stacked_wordsAt (frameBase s) t.mem⟩ hflags (by simp [wordsAt])
  refine ⟨hsp, fun k r hk => ?_, hrflags _ (wordsAt_getElem? (by decide))⟩
  have hlt : k < 15 := (List.getElem?_eq_some_iff.mp hk).1
  exact hregs k r _ hk (wordsAt_getElem? (by omega))

/-- The words of the entry state give the entry state back. -/
theorem FromSlots.unchanged {out : State} (h : FromSlots s m out)
    (hwords : Stacked m (frameBase s) (restoredRegs.map s.reg ++ [s.rflags])) :
    out.reg = s.reg ∧ out.rflags = s.rflags := by
  constructor
  · funext r
    by_cases hr : r = .rsp
    · rw [hr, h.rsp]
    · obtain ⟨k, hk, hreg⟩ := mem_restoredRegs r hr
      rw [h.regs k r hreg]
      apply hwords k
      rw [List.getElem?_append_left (by rw [List.length_map]; exact hk), List.getElem?_map, hreg]
      rfl
  · rw [h.rflags, hwords 15 s.rflags rfl, loadFlags_self]

theorem entering_stacked :
    Stacked (entering os onEnterFn userData s).mem (frameBase s)
      (restoredRegs.map s.reg ++ [s.rflags]) := by
  have hsplit : frameWords s =
      (restoredRegs.map s.reg ++ [s.rflags]) ++ [read64 s.mem (s.reg .rsp)] := rfl
  intro k v hk
  have hlt := (List.getElem?_eq_some_iff.mp hk).1
  apply (@entering_delivered os s onEnterFn userData).words k v
  rw [hsplit, List.getElem?_append_left hlt]
  exact hk

theorem SparesSlots.stacked {t' : State} (h : SparesSlots s t t')
    (hwords : Stacked t.mem (frameBase s) (restoredRegs.map s.reg ++ [s.rflags])) :
    Stacked t'.mem (frameBase s) (restoredRegs.map s.reg ++ [s.rflags]) := by
  intro k v hk
  rw [h k (List.getElem?_eq_some_iff.mp hk).1]
  exact hwords k v hk

/-- A call comes back with the stack pointer that it was made with. -/
theorem KeepsStack.back {words : List (BitVec 64)} {fn : Addr}
    (keeps : KeepsStack callee fn) (h : Delivered os (frameBase s) userData words t) :
    (Trampoline.back callee fn t).reg .rsp = frameBase s - reserved os :=
  (keeps t).trans h.rsp

theorem leaving_delivered {fn : Addr} {t : State} (hrsp : t.reg .rsp = frameBase s - reserved os) :
    Delivered os (frameBase s) userData (wordsAt (frameBase s) t.mem)
      (leaveState os fn userData t) :=
  leaveState_delivered fn userData ⟨hrsp, stacked_wordsAt _ _⟩

theorem transparent_one (enter : KeepsStack callee onEnterFn) :
    Transparent os callee onEnterFn 0 userData relocatedAddr s
      (exec callee (buildTrampoline os onEnterFn 0 userData relocatedAddr) s) := by
  have hentering := @entering_delivered os s onEnterFn userData
  have hback := enter.back hentering
  rw [exec_one]
  constructor
  · rfl
  · rfl
  · intro c hc
    obtain rfl := List.mem_singleton.mp hc
    exact ⟨hentering.ctx, hentering.entry⟩
  · intro c hc
    obtain rfl := Option.some.inj hc
    exact entering_stacked
  · intro c c' hc
    cases hc
  · intro c hc
    obtain rfl := Option.some.inj hc
    have hfrom := fromSlots_restoredState hback entered_flags
    rwa [back_mem] at hfrom

theorem transparent_two (hleave : onLeaveFn ≠ 0) (enter : KeepsStack callee onEnterFn)
    (leave : KeepsStack callee onLeaveFn) :
    Transparent os callee onEnterFn onLeaveFn userData relocatedAddr s
      (exec callee (buildTrampoline os onEnterFn onLeaveFn userData relocatedAddr) s) := by
  have hentering := @entering_delivered os s onEnterFn userData
  have hleaving := @leaving_delivered os s userData onLeaveFn _ (enter.back hentering)
  have hback := leave.back hleaving
  rw [exec_two hleave]
  constructor
  · rfl
  · rw [if_neg hleave]
    rfl
  · intro c hc
    simp only [List.mem_cons, List.not_mem_nil, or_false] at hc
    rcases hc with rfl | rfl
    · exact ⟨hentering.ctx, hentering.entry⟩
    · exact ⟨hleaving.ctx, hleaving.entry⟩
  · intro c hc
    obtain rfl := Option.some.inj hc
    exact entering_stacked
  · intro c c' hc
    obtain ⟨rfl, hc'⟩ := List.cons.inj hc
    obtain ⟨rfl, -⟩ := List.cons.inj hc'
    exact leaveState_mem
  · intro c hc
    obtain rfl := Option.some.inj hc
    have hfrom := fromSlots_restoredState hback (left_flags entered_flags)
    rwa [back_mem] at hfrom

/-- Of what the calls leave untouched nothing is lost. -/
theorem Transparent.unchanged {out : Outcome}
    (h : Transparent os callee onEnterFn onLeaveFn userData relocatedAddr s out)
    (hspares : ∀ c ∈ out.calls, SparesSlots s c.2 (callee c.1 c.2)) :
    out.state.reg = s.reg ∧ out.state.rflags = s.rflags := by
  obtain ⟨-, hcalls, -, hinitially, hpassed, hafter⟩ := h
  match hlist : out.calls with
  | [] =>
      rw [hlist] at hcalls
      cases hcalls
  | [c] =>
      rw [hlist] at hinitially hafter hspares
      exact (hafter c rfl).unchanged ((hspares c (by simp)).stacked (hinitially c rfl))
  | [c, c'] =>
      rw [hlist] at hinitially hafter hspares
      have hfirst := (hspares c (by simp)).stacked (hinitially c rfl)
      rw [← hpassed c c' hlist] at hfirst
      exact (hafter c' rfl).unchanged ((hspares c' (by simp)).stacked hfirst)
  | c :: c' :: c'' :: rest =>
      rw [hlist] at hcalls
      split at hcalls <;> simp at hcalls

/-- **The trampoline is transparent.** On both conventions, with one dispatch function or two,
whatever these do to the saved words and elsewhere as long as the stack pointer comes back.
If they write to none of the saved words, the registers and flags are those at the entry. -/
theorem trampoline_transparent (enter : KeepsStack callee onEnterFn)
    (leave : onLeaveFn ≠ 0 → KeepsStack callee onLeaveFn) :
    let out := exec callee (buildTrampoline os onEnterFn onLeaveFn userData relocatedAddr) s
    Transparent os callee onEnterFn onLeaveFn userData relocatedAddr s out ∧
      ((∀ c ∈ out.calls, SparesSlots s c.2 (callee c.1 c.2)) →
        out.state.reg = s.reg ∧ out.state.rflags = s.rflags) := by
  have h : Transparent os callee onEnterFn onLeaveFn userData relocatedAddr s
      (exec callee (buildTrampoline os onEnterFn onLeaveFn userData relocatedAddr) s) := by
    by_cases hleave : onLeaveFn = 0
    · subst hleave
      exact transparent_one enter
    · exact transparent_two hleave enter (leave hleave)
  exact ⟨h, h.unchanged⟩

end Slots

section Concrete

/-- A dispatch function that clobbers `rax` and leaves the stack alone. -/
def clobbersRax : Addr → State → State := fun _ t => t.set .rax 7

/-- Something in every register. -/
def someState : State := ⟨fun r => if r = .rsp then 0x7FFE0008 else 5, 2, fun _ => 0⟩

theorem transparent_windows :
    (exec clobbersRax (buildTrampoline .windows 0x10 0x20 0x30 0x40) someState).target =
      some 0x40 ∧
    (exec clobbersRax (buildTrampoline .windows 0x10 0x20 0x30 0x40) someState).state.reg =
      someState.reg := by
  have keeps : ∀ fn, KeepsStack clobbersRax fn := fun fn t => State.set_reg_ne _ _ (by decide)
  obtain ⟨h, hunchanged⟩ := @trampoline_transparent .windows clobbersRax someState 0x10 0x20
    0x30 0x40 (keeps 0x10) fun _ => keeps 0x20
  exact ⟨h.target, (hunchanged fun c _ k _ => rfl).1⟩

/-- A thread that takes interrupts. -/
def interruptible : State := { someState with rflags := 0x202 }

/-- A dispatch function that writes zero into the word of the flags. -/
def zeroesFlags : Addr → State → State := fun _ t =>
  { t with mem := write64 t.mem (slot (frameBase interruptible) 15) 0 }

/-- The flags are not the word that the dispatch function wrote: user code does not switch
interrupts off. -/
theorem zeroedFlags_kept :
    let out := exec zeroesFlags (buildTrampoline .linux 0x10 0 0x30 0x40) interruptible
    (∀ fn, KeepsStack zeroesFlags fn) ∧
      (∀ c, out.calls.getLast? = some c →
        read64 (zeroesFlags c.1 c.2).mem (slot (frameBase interruptible) 15) = 0) ∧
      out.state.rflags = 0x202 := by
  have keeps : ∀ fn, KeepsStack zeroesFlags fn := fun _ _ => rfl
  have written : ∀ fn t,
      read64 (zeroesFlags fn t).mem (slot (frameBase interruptible) 15) = 0 :=
    fun _ _ => read64_write64_self _ _ _
  obtain ⟨-, hcalls, -, -, -, hafter⟩ :=
    @transparent_one .linux zeroesFlags interruptible 0x10 0x30 0x40 (keeps 0x10)
  refine ⟨keeps, fun c _ => written _ _, ?_⟩
  rcases hlast : (exec zeroesFlags (buildTrampoline .linux 0x10 0 0x30 0x40)
      interruptible).calls.getLast? with _ | c
  · rw [List.getLast?_eq_none_iff.mp hlast] at hcalls
    cases hcalls
  · rw [(hafter c hlast).rflags, written]
    rfl

end Concrete

/-! ## §3  Runs with vector registers -/

/-- `xmm0` to `xmm15`. -/
abbrev Vectors : Type := Fin 16 → BitVec 128

structure VectorOutcome where
  calls : List (Addr × State × Vectors)
  state : State
  vectors : Vectors
  target : Option Addr

/-- `exec` next to the vector registers, which only the functions called change. -/
def execVectors (callee : Addr → State × Vectors → State × Vectors) :
    List Insn → State → Vectors → VectorOutcome
  | [], s, x => ⟨[], s, x, none⟩
  | .jmpMem a :: _, s, x => ⟨[], s, x, some a⟩
  | .call r :: is, s, x =>
      let out := execVectors callee is (back (fun fn t => (callee fn (t, x)).1) (s.reg r) s)
        (callee (s.reg r) (s, x)).2
      { out with calls := (s.reg r, s, x) :: out.calls }
  | i :: is, s, x => execVectors callee is (i.step s) x

section Vectors

variable {callee : Addr → State × Vectors → State × Vectors} {is : List Insn}
  {s t u : State} {x : Vectors} {fn : Addr} {target : Option Addr}

theorem execVectors_of_no_call {callee' : Addr → State → State}
    (h : exec callee' is s = ⟨[], t, target⟩) :
    execVectors callee is s x = ⟨[], t, x, target⟩ := by
  induction is generalizing s with
  | nil =>
      cases h
      rfl
  | cons i is ih =>
      cases i with
      | jmpMem a =>
          cases h
          rfl
      | call r =>
          have hcalls := congrArg Outcome.calls h
          cases hcalls
      | _ => exact ih h

/-- With a single call the vector registers are those it is made with, and then those it
comes back with. -/
theorem execVectors_of_call
    (h : exec (fun fn t => (callee fn (t, x)).1) is s = ⟨[(fn, t)], u, target⟩) :
    execVectors callee is s x = ⟨[(fn, t, x)], u, (callee fn (t, x)).2, target⟩ := by
  induction is generalizing s with
  | nil => cases h
  | cons i is ih =>
      cases i with
      | jmpMem a => cases h
      | call r =>
          simp only [exec, Outcome.mk.injEq, List.cons.injEq, Prod.mk.injEq] at h
          obtain ⟨⟨⟨rfl, rfl⟩, hcalls⟩, hstate, htarget⟩ := h
          have hrest : exec (fun fn t => (callee fn (t, x)).1) is
              (back (fun fn t => (callee fn (t, x)).1) (s.reg r) s) = ⟨[], u, target⟩ := by
            rw [← hcalls, ← hstate, ← htarget]
          simp only [execVectors, execVectors_of_no_call hrest]
      | _ => exact ih h

end Vectors

/-! ## §4  What a breakpoint interrupts -/

/-- What the interrupted code may rely on: System V calls are made with an aligned stack,
and the red zone and the vector registers reach the relocated code as they were. -/
structure Respects (s : State) (x : Vectors) (relocatedAddr : Addr) (out : VectorOutcome) :
    Prop where
  aligned : ∀ c ∈ out.calls, (c.2.1.reg .rsp).toNat % 16 = 0
  target : out.target = some relocatedAddr
  redZone : ∀ a, InRegion (frameBase s) 128 a → out.state.mem a = s.mem a
  vectors : out.vectors = x

section Breakpoint

variable {os : Os} {callee : Addr → State × Vectors → State × Vectors} {s : State} {x : Vectors}
  {onHit userData relocatedAddr : Addr}

/-- The trampoline of a breakpoint has one dispatch function. -/
theorem execVectors_breakpoint :
    let entered := entering os onHit userData s
    execVectors callee (buildTrampoline os onHit 0 userData relocatedAddr) s x =
      ⟨[(onHit, entered, x)],
        restoredState os (back (fun fn t => (callee fn (t, x)).1) onHit entered),
        (callee onHit (entered, x)).2, some relocatedAddr⟩ :=
  execVectors_of_call exec_one

theorem aligned_iff (hos : os ≠ .windows) :
    ((entering os onHit userData s).reg .rsp).toNat % 16 = 0 ↔
      (s.reg .rsp).toNat % 16 = 8 := by
  have hreserved : reserved os = 8 := by
    cases os with
    | windows => exact absurd rfl hos
    | linux => rfl
    | darwin => rfl
  rw [(@entering_delivered os s onHit userData).rsp, hreserved, frameBase]
  bv_omega

/-- The red zone is where the sixteen words were saved. -/
theorem redZone_iff {m : Memory} :
    (∀ a, InRegion (frameBase s) 128 a → m a = s.mem a) ↔
      ∀ k < 16, read64 m (slot (frameBase s) k) = read64 s.mem (slot (frameBase s) k) :=
  (@words_eq_iff m s.mem (frameBase s) 16 (by decide)).symm

theorem respects_iff_slots (hos : os ≠ .windows) :
    let back := callee onHit (entering os onHit userData s, x)
    Respects s x relocatedAddr
        (execVectors callee (buildTrampoline os onHit 0 userData relocatedAddr) s x) ↔
      (s.reg .rsp).toNat % 16 = 8 ∧
        (∀ k < 16, read64 back.1.mem (slot (frameBase s) k) =
          read64 s.mem (slot (frameBase s) k)) ∧
        back.2 = x := by
  dsimp only
  rw [execVectors_breakpoint, ← @aligned_iff os s onHit userData hos, ← redZone_iff]
  constructor
  · rintro ⟨haligned, -, hredZone, hvectors⟩
    refine ⟨haligned _ List.mem_cons_self, ?_, hvectors⟩
    simpa using hredZone
  · rintro ⟨haligned, hredZone, hvectors⟩
    refine ⟨fun c hc => ?_, rfl, ?_, hvectors⟩
    · obtain rfl := List.mem_singleton.mp hc
      exact haligned
    · simpa using hredZone

/-- Of slots that the call leaves alone the red zone is what was saved there. -/
theorem slots_iff_stacked {t : State}
    (hspares : SparesSlots s (entering os onHit userData s) t) :
    (∀ k < 16, read64 t.mem (slot (frameBase s) k) = read64 s.mem (slot (frameBase s) k)) ↔
      Stacked s.mem (frameBase s) (restoredRegs.map s.reg ++ [s.rflags]) := by
  have hstacked := hspares.stacked (@entering_stacked os s onHit userData)
  constructor
  · intro h k v hk
    rw [← h k (List.getElem?_eq_some_iff.mp hk).1]
    exact hstacked k v hk
  · intro h k hk
    obtain ⟨v, hv⟩ : ∃ v, (restoredRegs.map s.reg ++ [s.rflags])[k]? = some v :=
      ⟨_, List.getElem?_eq_getElem (by simpa [restoredRegs] using hk)⟩
    rw [hstacked k v hv, h k v hv]

/-- **What a breakpoint interrupts is respected** when the stack is as at the entry of a
function, the dispatch function leaves in the saved words what the red zone had, and it
changes no vector register. If it writes to none of these words, the red zone must have had
the saved registers. -/
theorem breakpoint_respects_iff (hos : os ≠ .windows) :
    let entered := entering os onHit userData s
    let back := callee onHit (entered, x)
    let out := execVectors callee (buildTrampoline os onHit 0 userData relocatedAddr) s x
    (Respects s x relocatedAddr out ↔
      (s.reg .rsp).toNat % 16 = 8 ∧
        (∀ k < 16, read64 back.1.mem (slot (frameBase s) k) =
          read64 s.mem (slot (frameBase s) k)) ∧
        back.2 = x) ∧
    (SparesSlots s entered back.1 →
      (Respects s x relocatedAddr out ↔
        (s.reg .rsp).toNat % 16 = 8 ∧
          Stacked s.mem (frameBase s) (restoredRegs.map s.reg ++ [s.rflags]) ∧
          back.2 = x)) := by
  refine ⟨respects_iff_slots hos, fun hspares => ?_⟩
  rw [← slots_iff_stacked hspares]
  exact respects_iff_slots hos

end Breakpoint

section Interrupted

/-- A dispatch function that changes vector registers only. -/
def clobbersVectors : Addr → State × Vectors → State × Vectors := fun _ t => (t.1, fun _ => 7)

def keepsVectors : Addr → State × Vectors → State × Vectors := fun _ t => t

/-- Inside a function, where the stack is aligned. -/
def insideFunction : State := ⟨fun r => if r = .rsp then 0x8000 else 5, 2, fun _ => 0⟩

/-- At the entry of a function, all registers zero and the flags in the red zone. -/
def atEntry : State :=
  ⟨fun r => if r = .rsp then 0x7FFE0008 else 0, 2, write64 (fun _ => 0) 0x7FFE0000 2⟩

theorem atEntry_stacked :
    Stacked atEntry.mem (frameBase atEntry) (restoredRegs.map atEntry.reg ++ [atEntry.rflags]) := by
  have hwords : wordsAt (frameBase atEntry) atEntry.mem =
      (restoredRegs.map atEntry.reg ++ [atEntry.rflags]) ++ [0] := by decide
  intro k v hk
  have hlt := (List.getElem?_eq_some_iff.mp hk).1
  apply stacked_wordsAt (frameBase atEntry) atEntry.mem k v
  rw [hwords, List.getElem?_append_left hlt]
  exact hk

theorem atEntry_respected :
    Respects atEntry (fun _ => 0) 0x40
      (execVectors keepsVectors (buildTrampoline .linux 0x10 0 0x30 0x40) atEntry fun _ => 0) :=
  ((@breakpoint_respects_iff .linux keepsVectors atEntry (fun _ => 0) 0x10 0x30 0x40
    (by decide)).2 fun _ _ => rfl).mpr ⟨by decide, atEntry_stacked, rfl⟩

/-- A breakpoint inside a function: the dispatch function is called with the stack eight off,
the red zone has the saved registers and the vector registers have changed. -/
theorem insideFunction_disturbed :
    let out := execVectors clobbersVectors (buildTrampoline .linux 0x10 0 0x30 0x40)
      insideFunction fun _ => 0
    (∀ fn t, (clobbersVectors fn t).1 = t.1) ∧
      (∃ c ∈ out.calls, (c.2.1.reg .rsp).toNat % 16 = 8) ∧
      (∃ a, InRegion (frameBase insideFunction) 128 a ∧
        out.state.mem a ≠ insideFunction.mem a) ∧
      out.vectors ≠ (fun _ => 0) ∧
      ¬ Respects insideFunction (fun _ => 0) 0x40 out := by
  dsimp only
  rw [execVectors_breakpoint]
  refine ⟨fun _ _ => rfl, ⟨_, List.mem_cons_self, by decide⟩, ⟨0x7F80, by decide, by decide⟩, ?_,
    fun h => ?_⟩
  · intro h
    exact absurd (congrFun h 0) (by decide)
  · exact absurd (congrFun h.vectors 0) (by decide)

end Interrupted

end Transparency

end Chromatic
