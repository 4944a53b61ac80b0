import Chromatic.SoftwareBreakpoint
import Chromatic.Foundation.Runs
import Chromatic.Foundation.IndexedRegistry

/-!
# Software breakpoints and the code under them

On x86_64 a breakpoint overwrites one byte. Whatever is set and removed, the code is the
initial code with `INT3` at the live addresses, and every entry holds the initial byte of
its address.

§1 sessions · §2 code under breakpoints · §3 each call · §4 runs.
-/

namespace Chromatic

open Foundation SoftwareBreakpoint

namespace BreakpointMemory

/-! ## §1  Sessions -/

inductive Call where
  | set (env : Install) (address : Addr) (onHit : Callback)
  | remove (bpId : ℕ)
  | removeAll (order : List (Σ _ : ℕ, BreakpointEntry))

/-- `issued` lists the identifiers handed out: history. -/
structure Session where
  world : World
  issued : List ℕ

def Session.start (code : Memory) (disposition : Sig → SigAction) : Session :=
  ⟨World.start code disposition, []⟩

def Call.exec : Call → Session → Session
  | .set env address onHit, s =>
      match SoftwareBreakpoint.set .x64 env address onHit s.world with
      | (.error _, w) => ⟨w, s.issued⟩
      | (.ok id, w) => ⟨w, s.issued ++ [id]⟩
  | .remove bpId, s => ⟨(SoftwareBreakpoint.remove .x64 .ok bpId s.world).2, s.issued⟩
  | .removeAll order, s =>
      ⟨(SoftwareBreakpoint.removeAll .x64 (fun _ => .ok) order s.world).2, s.issued⟩

/-- Patching succeeds; `removeAll` visits the map in whatever order it yields. -/
def Call.Permitted (w : World) : Call → Prop
  | .set env _ _ => env.patch = .ok
  | .remove _ => True
  | .removeAll order => order.Perm w.bp.bpById.entries

inductive Step (s : Session) (c : Call) : Session → Prop where
  | intro (permitted : c.Permitted s.world) : Step s c (c.exec s)

/-! ## §2  Code under breakpoints -/

/-- The code with `INT3` at the given addresses. -/
def trapped (code : Memory) (live : HashMap Addr BreakpointEntry) : Memory :=
  fun a => if a ∈ live then 0xCC else code a

/-- The maps hold the same entries once each, every entry saved the initial byte of its
address, and identifiers are handed out once. -/
structure Mirrored (code : Memory) (s : Session) : Prop where
  code_eq : s.world.code = trapped code s.world.bp.bpByAddress
  saved : ∀ {a e}, s.world.bp.bpByAddress.lookup a = some e → e.originalBytes = [code a]
  indexed : Indexed BreakpointEntry.address s.world.bp.bpById s.world.bp.bpByAddress
    s.world.bp.nextBpId
  distinct : s.issued.Nodup
  below : ∀ id ∈ s.issued, id < s.world.bp.nextBpId
  live : ∀ {id e}, s.world.bp.bpById.lookup id = some e → id ∈ s.issued

/-- Calls for what is live already or not live at all do nothing. -/
structure Idle (w : World) : Prop where
  set : ∀ env address onHit, address ∈ w.bp.bpByAddress →
    (SoftwareBreakpoint.set .x64 env address onHit w).2 = w
  remove : ∀ patch bpId, bpId ∉ w.bp.bpById →
    (SoftwareBreakpoint.remove .x64 patch bpId w).2 = w

section Memory

variable {code : Memory} {live : HashMap Addr BreakpointEntry} {a : Addr}

theorem trapped_insert (e : BreakpointEntry) :
    trapped code (live.insert a e) = Function.update (trapped code live) a 0xCC := by
  funext x
  by_cases hx : x = a
  · simp [trapped, hx]
  · simp [trapped, hx]

theorem trapped_erase :
    trapped code (live.erase a) = Function.update (trapped code live) a (code a) := by
  funext x
  by_cases hx : x = a
  · simp [trapped, hx]
  · simp [trapped, hx]

/-- Writing back initial bytes leaves initial bytes at the addresses written. -/
theorem writeBack_apply {order : List (Σ _ : ℕ, BreakpointEntry)} (m : Memory)
    (hsaved : ∀ e ∈ order, e.2.originalBytes = [code e.2.address]) :
    writeBack .x64 order m a =
      if a ∈ order.map (·.2.address) then code a else m a := by
  induction order generalizing m with
  | nil => simp [writeBack]
  | cons e rest ih =>
      have hbyte : writeBytes m e.2.address (e.2.originalBytes.take Arch.x64.bpInsnSize) =
          Function.update m e.2.address (code e.2.address) := by
        rw [hsaved e List.mem_cons_self]
        exact writeBytes_singleton _ _ _
      have hrest := ih (Function.update m e.2.address (code e.2.address))
        fun e' he' => hsaved e' (List.mem_cons_of_mem _ he')
      rw [writeBack, List.foldl_cons, hbyte, ← writeBack, hrest, List.map_cons]
      by_cases hmem : a ∈ rest.map (·.2.address)
      · rw [if_pos hmem, if_pos (List.mem_cons_of_mem _ hmem)]
      · rw [if_neg hmem]
        by_cases hself : a = e.2.address
        · rw [hself, Function.update_self, if_pos List.mem_cons_self]
        · rw [Function.update_of_ne hself, if_neg]
          simp only [List.mem_cons, hself, hmem, or_self, not_false_eq_true]

end Memory

/-! ## §3  Each call -/

section Calls

variable {code : Memory} {s t : Session}

theorem Mirrored.unchanged {w : World} (h : Mirrored code s) (hun : Unchanged s.world w) :
    Mirrored code ⟨w, s.issued⟩ := by
  obtain ⟨code_eq, saved, indexed, distinct, below, live⟩ := h
  constructor <;> simp only [hun.code, hun.byId, hun.byAddress, hun.nextId] <;> assumption

theorem Mirrored.installed {w : World} {entry : BreakpointEntry} (h : Mirrored code s)
    (hi : Installed .x64 entry s.world w) :
    Mirrored code ⟨w, s.issued ++ [s.world.bp.nextBpId]⟩ where
  code_eq := by
    show w.code = trapped code w.bp.bpByAddress
    rw [hi.code, hi.byAddress, trapped_insert, ← h.code_eq]
    exact writeBytes_singleton _ _ _
  saved := by
    intro a e he
    simp only [hi.byAddress] at he
    rcases lookup_insert_cases he with ⟨rfl, rfl⟩ | ⟨-, hold⟩
    · -- the address was free, so the byte it saved is the initial one
      have hfree : trapped code s.world.bp.bpByAddress e.address = code e.address :=
        if_neg hi.free
      rw [hi.saved, h.code_eq, ← hfree]
      exact readBytes_one _ _
    · exact h.saved hold
  indexed := by
    simp only [hi.byId, hi.byAddress, hi.nextId]
    exact h.indexed.insert hi.free
  distinct := by
    apply h.distinct.append (List.nodup_singleton _)
    rw [List.disjoint_singleton]
    exact fun hmem => Nat.lt_irrefl _ (h.below _ hmem)
  below := by
    intro id hid
    simp only [hi.nextId]
    rcases List.mem_append.mp hid with hold | hnew
    · exact Nat.lt_succ_of_lt (h.below id hold)
    · rw [List.mem_singleton.mp hnew]
      exact Nat.lt_succ_self _
  live := by
    intro id e he
    simp only [hi.byId] at he
    rcases lookup_insert_cases he with ⟨rfl, -⟩ | ⟨-, hold⟩
    · exact List.mem_append_right _ List.mem_cons_self
    · exact List.mem_append_left _ (h.live hold)

theorem Mirrored.removed {w : World} {bpId : ℕ} {entry : BreakpointEntry}
    (h : Mirrored code s) (hr : Removed .x64 bpId entry s.world w) :
    Mirrored code ⟨w, s.issued⟩ where
  code_eq := by
    show w.code = trapped code w.bp.bpByAddress
    rw [hr.code, hr.byAddress, trapped_erase, ← h.code_eq,
      h.saved (h.indexed.toKey hr.live)]
    exact writeBytes_singleton _ _ _
  saved := by
    intro a e he
    simp only [hr.byAddress] at he
    exact h.saved (lookup_erase_cases he).2
  indexed := by
    simp only [hr.byId, hr.byAddress, hr.nextId]
    exact h.indexed.erase hr.live
  distinct := h.distinct
  below := by
    simp only [hr.nextId]
    exact h.below
  live := by
    intro id e he
    simp only [hr.byId] at he
    exact h.live (lookup_erase_cases he).2

theorem Mirrored.cleared {w : World} {order : List (Σ _ : ℕ, BreakpointEntry)}
    (h : Mirrored code s) (horder : order.Perm s.world.bp.bpById.entries)
    (hc : Cleared .x64 order s.world w) (hnext : w.bp.nextBpId = s.world.bp.nextBpId) :
    Mirrored code ⟨w, s.issued⟩ where
  code_eq := by
    show w.code = trapped code w.bp.bpByAddress
    have hsaved : ∀ e ∈ order, e.2.originalBytes = [code e.2.address] := by
      intro e he
      have hlive := AList.mem_lookup_iff.mpr (horder.mem_iff.mp he)
      exact h.saved (h.indexed.toKey hlive)
    funext a
    rw [hc.code, hc.byAddress, writeBack_apply _ hsaved, h.code_eq]
    -- the addresses written back are those of the live entries
    have hkeys := h.indexed.mem_keys_iff horder (k := a)
    by_cases ha : a ∈ order.map (·.2.address)
    · rw [if_pos ha]
      simp [trapped]
    · rw [if_neg ha]
      simp [trapped, hkeys.not.mp ha]
  saved := by
    intro a e he
    simp [hc.byAddress] at he
  indexed := by
    simp only [hc.byId, hc.byAddress]
    exact Indexed.empty
  distinct := h.distinct
  below := by
    simp only [hnext]
    exact h.below
  live := by
    intro id e he
    simp [hc.byId] at he

theorem Mirrored.step {c : Call} (h : Mirrored code s) (hstep : Step s c t) :
    Mirrored code t := by
  obtain ⟨hok⟩ := hstep
  cases c with
  | set env address onHit =>
      simp only [Call.exec]
      have hcases := set_result .x64 address onHit s.world hok
      generalize SoftwareBreakpoint.set .x64 env address onHit s.world = result at *
      obtain ⟨answer, w⟩ := result
      rcases hcases with ⟨e, rfl, hun⟩ | ⟨rfl, entry, -, hi⟩
      · exact h.unchanged hun
      · exact h.installed hi
  | remove bpId =>
      rcases remove_cases .x64 bpId s.world with hun | ⟨entry, hr⟩
      · exact h.unchanged hun
      · exact h.removed hr
  | removeAll order =>
      obtain ⟨w, heq, hc⟩ := removeAll_ok .x64 (fun _ => .ok) order s.world fun _ _ => rfl
      have hnext := removeAll_nextBpId .x64 (fun _ => .ok) order s.world
      rw [heq] at hnext
      simp only [Call.exec, heq]
      exact h.cleared hok hc hnext

theorem idle (w : World) : Idle w where
  set env address onHit hlive := by
    unfold SoftwareBreakpoint.set
    rw [if_pos hlive]
  remove patch bpId hdead := by
    unfold SoftwareBreakpoint.remove
    rw [AList.lookup_eq_none.mpr hdead]

end Calls

/-! ## §4  Runs -/

theorem Mirrored.start (code : Memory) (disposition : Sig → SigAction) :
    Mirrored code (Session.start code disposition) where
  code_eq := by
    funext a
    simp [Session.start, World.start, BreakpointState.start, trapped]
  saved h := by simp [Session.start, World.start, BreakpointState.start] at h
  indexed := Indexed.empty
  distinct := List.nodup_nil
  below _ h := by cases h
  live h := by simp [Session.start, World.start, BreakpointState.start] at h

/-- **Breakpoints match the code.** In every state of every run of `set`, `remove` and
`removeAll` the code is the initial code with `INT3` at exactly the live addresses, and the
maps, the saved bytes and the identifiers agree with it. -/
theorem mirrored_throughout {code : Memory} {disposition : Sig → SigAction}
    {tr : List (Session × Call)} {s : Session}
    (run : Run Step (Session.start code disposition) tr s) :
    Throughout (fun s => Mirrored code s ∧ Idle s.world) tr s :=
  run.invariant ⟨Mirrored.start code disposition, idle _⟩
    fun _ _ _ h hstep => ⟨h.1.step hstep, idle _⟩

section Concrete

def atStart : Session := Session.start (fun _ => 0x90) defaultActions

/-- A breakpoint is set at 0x1000, and a second attempt at the same address is refused. -/
def setOnce : Call := .set ⟨0x10, .ok (0x5000, 1), .ok 0x5100, .ok⟩ 0x1000 0

theorem mirrored_throughout_setOnce :
    Throughout (fun s => Mirrored (fun _ => 0x90) s ∧ Idle s.world)
      [(atStart, setOnce), (setOnce.exec atStart, setOnce)]
      (setOnce.exec (setOnce.exec atStart)) :=
  mirrored_throughout ((Run.nil.snoc ⟨rfl⟩).snoc ⟨rfl⟩)

end Concrete

end BreakpointMemory

end Chromatic
