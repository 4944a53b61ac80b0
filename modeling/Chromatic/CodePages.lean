import Mathlib.Data.List.TakeWhile
import Chromatic.Cleanup
import Chromatic.PageRounding

/-!
# Pages of code

The page protections behind `makeWritableAndPatch` and `NativeMemory::patchCode` of the Linux
build, under any sequence of breakpoint and hook operations. Code that could be executed at the
start can still be, unless a change of protection was refused halfway.

§1 mprotect · §2 patching · §3 calls · §4 what mprotect does · §5 what a patch leaves ·
§6 executable pages · §7 what is touched.
-/

namespace Chromatic

open Foundation MemoryAccessMonitor

namespace CodePages

/-! ## §1  mprotect -/

/-- `PROT_READ`, `PROT_WRITE` and `PROT_EXEC`. -/
structure Access where
  read : Bool
  write : Bool
  exec : Bool
deriving DecidableEq, Repr

def readWrite : Access := ⟨true, true, false⟩

def readExec : Access := ⟨true, false, true⟩

/-- The pages of the process by their numbers, as they are during one patch. `grants p access` is
false where no page is mapped or the system refuses the protection. -/
structure Mmu where
  page : PageSize
  grants : ℕ → Access → Bool
  bounded : ∀ p access, grants p access → (p + 1) * page.size.toNat ≤ 2 ^ 64

/-- What is refused differs from one patch to the next: `turn` counts them. -/
structure System where
  page : PageSize
  grants : ℕ → ℕ → Access → Bool
  bounded : ∀ turn p access, grants turn p access → (p + 1) * page.size.toNat ≤ 2 ^ 64

def System.mmu (y : System) (turn : ℕ) : Mmu := ⟨y.page, y.grants turn, y.bounded turn⟩

/-- What is refused once is refused always. -/
def Mmu.always (m : Mmu) : System := ⟨m.page, fun _ => m.grants, fun _ => m.bounded⟩

@[simp] theorem Mmu.always_mmu (m : Mmu) (turn : ℕ) : m.always.mmu turn = m := rfl

abbrev Protections : Type := ℕ → Access

/-- `mprotect` goes from page to page and stops at the first one that is refused. -/
def mprotect (m : Mmu) (access : Access) : List ℕ → Protections → Bool × Protections
  | [], prot => (true, prot)
  | p :: ps, prot =>
      if m.grants p access then mprotect m access ps (Function.update prot p access)
      else (false, prot)

/-- The pages of a region that starts on a page. -/
def Mmu.pages (m : Mmu) (start : Addr) (size : BitVec 64) : List ℕ :=
  List.range' (start.toNat / m.page.size.toNat)
    ((size.toNat + m.page.size.toNat - 1) / m.page.size.toNat)

/-! ## §2  Patching -/

/-- `pageStart` and `totalSize`. -/
def Mmu.span (m : Mmu) (addr : Addr) (len : ℕ) : List ℕ :=
  let pageStart := addr &&& ~~~(m.page.size - 1)
  let totalSize := addr + BitVec.ofNat 64 len - pageStart
  m.pages pageStart totalSize

/-- The span is the same at all times. -/
def System.span (y : System) (addr : Addr) (len : ℕ) : List ℕ := (y.mmu 0).span addr len

/-- The two `mprotect` calls of `makeWritableAndPatch`, which throws when one is refused. -/
def patchPages (m : Mmu) (addr : Addr) (len : ℕ) (prot : Protections) :
    PatchOutcome × Protections :=
  let ps := m.span addr len
  match mprotect m readWrite ps prot with
  | (false, prot) => (.rwDenied, prot)
  | (true, prot) =>
    match mprotect m readExec ps prot with
    | (false, prot) => (.rxDenied, prot)
    | (true, prot) => (.ok, prot)

/-- The two calls of `patchCode`, which ignores what they answer. -/
def patchCodePages (m : Mmu) (addr : Addr) (len : ℕ) (prot : Protections) : Protections :=
  let ps := m.span addr len
  (mprotect m readExec ps (mprotect m readWrite ps prot).2).2

/-- The bytes of a patch are on pages that may be written when `memcpy` comes to them. -/
def Writable (m : Mmu) (addr : Addr) (len : ℕ) (prot : Protections) : Prop :=
  ∀ k < len, (prot ((addr + BitVec.ofNat 64 k).toNat / m.page.size.toNat)).write = true

/-! ## §3  Calls -/

inductive Call where
  | set (env : SoftwareBreakpoint.Install) (address : Addr) (onHit : Callback)
  | remove (bpId : ℕ)
  | removeAll (order : List (Σ _ : ℕ, BreakpointEntry))
  | attach (env : Interceptor.Install) (target : Addr) (onEnter onLeave : Callback)
  | replace (env : Interceptor.Install) (target replacement : Addr)
  | detach (hookId : ℕ)
  | revert (target : Addr)
  | detachAll (order : List (Σ _ : ℕ, HookEntry))
  | patchCode (address : Addr) (bytes : List Byte)

/-- The patches that a call comes to, each with its length. -/
def Call.patches (arch : Arch) (w : World) : Call → List (Addr × ℕ)
  | .set env address _ =>
      if address ∉ w.bp.bpByAddress ∧ env.relocated.isOk ∧ env.trampoline.isOk then
        [(address, arch.bpInsnSize)]
      else []
  | .remove bpId => (w.bp.bpById.lookup bpId).toList.map fun e => (e.address, arch.bpInsnSize)
  | .removeAll order => order.map fun e => (e.2.address, arch.bpInsnSize)
  | .attach env target _ _ =>
      if target ∉ w.hooks.hooksByTarget ∧ env.relocated.isOk ∧ env.trampoline.isOk then
        [(target, arch.patchSize)]
      else []
  | .replace env target _ =>
      if target ∉ w.hooks.hooksByTarget ∧ env.relocated.isOk then [(target, arch.patchSize)]
      else []
  | .detach hookId => (w.hooks.hooksById.lookup hookId).toList.map fun e => (e.target, e.patchSize)
  | .revert target =>
      (w.hooks.hooksByTarget.lookup target).toList.map fun e => (e.target, e.patchSize)
  | .detachAll order => order.map fun e => (e.2.target, e.2.patchSize)
  | .patchCode _ _ => []

/-- The call, with what its patches answer. -/
def Call.exec (arch : Arch) (patch : Addr → PatchOutcome) : Call → World → World
  | .set env address onHit, w =>
      (SoftwareBreakpoint.set arch { env with patch := patch address } address onHit w).2
  | .remove bpId, w =>
      (SoftwareBreakpoint.remove arch
        (((w.bp.bpById.lookup bpId).map fun e => patch e.address).getD .ok) bpId w).2
  | .removeAll order, w => (SoftwareBreakpoint.removeAll arch patch order w).2
  | .attach env target onEnter onLeave, w =>
      (Interceptor.attach arch { env with patch := patch target } target onEnter onLeave w).2
  | .replace env target replacement, w =>
      (Interceptor.replace arch { env with patch := patch target } target replacement w).2
  | .detach hookId, w =>
      (Interceptor.detach
        (((w.hooks.hooksById.lookup hookId).map fun e => patch e.target).getD .ok) hookId w).2
  | .revert target, w =>
      (Interceptor.revert
        (((w.hooks.hooksByTarget.lookup target).map fun e => patch e.target).getD .ok) target w).2
  | .detachAll order, w => (Interceptor.detachAll patch order w).2
  | .patchCode address bytes, w => { w with code := writeBytes w.code address bytes }

/-- Patches one after the other, up to the first that is refused: what each of them answers and
the protections behind them. -/
def patchAll (y : System) (turn : ℕ) :
    List (Addr × ℕ) → Protections → List (Addr × PatchOutcome) × Protections
  | [], prot => ([], prot)
  | (addr, len) :: rest, prot =>
      match patchPages (y.mmu turn) addr len prot with
      | (.ok, prot) =>
          let r := patchAll y (turn + 1) rest prot
          ((addr, .ok) :: r.1, r.2)
      | (outcome, prot) => ([(addr, outcome)], prot)

/-- A process with the protections of its pages, after `turn` patches. -/
structure Paged where
  world : World
  prot : Protections
  turn : ℕ

/-- What a call leaves of the protections, and the answers of its patches. -/
def Call.protect (y : System) (arch : Arch) (c : Call) (s : Paged) :
    List (Addr × PatchOutcome) × Protections :=
  match c with
  | .patchCode address bytes => ([], patchCodePages (y.mmu s.turn) address bytes.length s.prot)
  | c => patchAll y s.turn (c.patches arch s.world) s.prot

/-- The regions that a call is to write. -/
def Call.regions (arch : Arch) (w : World) : Call → List (Addr × ℕ)
  | .patchCode address bytes => [(address, bytes.length)]
  | c => c.patches arch w

def Call.step (y : System) (arch : Arch) (c : Call) (s : Paged) : Paged :=
  let r := c.protect y arch s
  { world := c.exec arch (fun a => ((r.1.find? (·.1 = a)).map (·.2)).getD .ok) s.world
    prot := r.2
    turn := s.turn + (c.regions arch s.world).length }

/-- Bulk removals visit every live entry. `patchCode` copies onto pages that may be written, else
the process ends there. -/
def Call.Permitted (y : System) (s : Paged) : Call → Prop
  | .removeAll order => order.Perm s.world.bp.bpById.entries
  | .detachAll order => order.Perm s.world.hooks.hooksById.entries
  | .patchCode address bytes =>
      Writable (y.mmu s.turn) address bytes.length
        (mprotect (y.mmu s.turn) readWrite ((y.mmu s.turn).span address bytes.length) s.prot).2
  | _ => True

inductive Step (y : System) (arch : Arch) (s : Paged) (c : Call) : Paged → Prop where
  | intro (permitted : c.Permitted y s) : Step y arch s c (c.step y arch s)

/-! ## §4  What mprotect does -/

/-- The pages up to the first refusal. -/
def Mmu.granted (m : Mmu) (access : Access) (ps : List ℕ) : List ℕ :=
  ps.takeWhile (m.grants · access)

section Mprotect

variable {m : Mmu} {access : Access} {ps : List ℕ} {prot : Protections} {p : ℕ}

theorem Mmu.granted_of_granted (hp : m.grants p access) :
    m.granted access (p :: ps) = p :: m.granted access ps :=
  List.takeWhile_cons_of_pos hp

theorem Mmu.granted_of_refused (hp : ¬ m.grants p access) : m.granted access (p :: ps) = [] :=
  List.takeWhile_cons_of_neg hp

theorem Mmu.granted_eq_self : m.granted access ps = ps ↔ ∀ p ∈ ps, m.grants p access :=
  List.takeWhile_eq_self_iff

theorem Mmu.mem_of_granted (h : p ∈ m.granted access ps) : p ∈ ps :=
  List.takeWhile_subset _ h

theorem mprotect_answer (m : Mmu) (access : Access) (ps : List ℕ) (prot : Protections) :
    (mprotect m access ps prot).1 = decide (m.granted access ps = ps) := by
  induction ps generalizing prot with
  | nil => rfl
  | cons p ps ih =>
      unfold mprotect
      by_cases hp : m.grants p access
      · rw [if_pos hp, ih, Mmu.granted_of_granted hp]
        simp
      · rw [if_neg hp, Mmu.granted_of_refused hp]
        rfl

theorem mprotect_prot (m : Mmu) (access : Access) (ps : List ℕ) (prot : Protections) (p : ℕ) :
    (mprotect m access ps prot).2 p = if p ∈ m.granted access ps then access else prot p := by
  induction ps generalizing prot with
  | nil => rfl
  | cons q ps ih =>
      unfold mprotect
      by_cases hq : m.grants q access
      · rw [if_pos hq, ih, Mmu.granted_of_granted hq]
        by_cases hp : p = q
        · subst hp
          simp
        · simp [hp]
      · rw [if_neg hq, Mmu.granted_of_refused hq]
        simp

theorem mprotect_eq (m : Mmu) (access : Access) (ps : List ℕ) (prot : Protections) :
    mprotect m access ps prot = (decide (m.granted access ps = ps),
      fun p => if p ∈ m.granted access ps then access else prot p) :=
  Prod.ext (mprotect_answer m access ps prot) (funext (mprotect_prot m access ps prot))

end Mprotect

/-! ## §5  What a patch leaves -/

section Patch

variable {m : Mmu} {addr : Addr} {len p : ℕ} {prot : Protections}

theorem Mmu.toNat_pageStart (m : Mmu) (addr : Addr) :
    (addr &&& ~~~(m.page.size - 1)).toNat = addr.toNat / m.page.size.toNat * m.page.size.toNat := by
  have h : (addr &&& ~~~(m.page.size - 1)).toNat = alignDown m.page.size.toNat addr.toNat := by
    rw [m.page.toNat_size]
    exact toNat_and_not_mask m.page.lt addr
  exact h

/-- `totalSize` counts from the start of the first page to the end of the bytes, also where the
end of the address space comes in between. -/
theorem Mmu.toNat_totalSize (hlen : len + m.page.size.toNat ≤ 2 ^ 64) :
    (addr + BitVec.ofNat 64 len - (addr &&& ~~~(m.page.size - 1))).toNat =
      addr.toNat % m.page.size.toNat + len := by
  have hstart := m.toNat_pageStart addr
  have hdiv := Nat.div_add_mod' addr.toNat m.page.size.toNat
  have hmod := Nat.mod_lt addr.toNat m.page.size_pos
  generalize addr &&& ~~~(m.page.size - 1) = start at *
  rw [← hstart] at hdiv
  bv_omega

/-- The span is the pages of the bytes. -/
theorem Mmu.mem_span (hlen : len + m.page.size.toNat ≤ 2 ^ 64) :
    p ∈ m.span addr len ↔ addr.toNat / m.page.size.toNat ≤ p ∧
      p * m.page.size.toNat < addr.toNat + len := by
  have hP := m.page.size_pos
  unfold Mmu.span Mmu.pages
  rw [List.mem_range'_1, m.toNat_pageStart, Mmu.toNat_totalSize hlen, Nat.mul_div_cancel _ hP]
  apply and_congr_right
  intro hle
  obtain ⟨d, rfl⟩ := Nat.exists_eq_add_of_le hle
  have hdiv := Nat.div_add_mod' addr.toNat m.page.size.toNat
  have hcount : d < (addr.toNat % m.page.size.toNat + len + m.page.size.toNat - 1) /
      m.page.size.toNat ↔ d * m.page.size.toNat < addr.toNat % m.page.size.toNat + len := by
    rw [← Nat.succ_le_iff, Nat.le_div_iff_mul_le hP, Nat.succ_mul]
    omega
  rw [Nat.add_lt_add_iff_left, hcount, Nat.add_mul]
  omega

/-- A copy goes to pages that were made writable for it, if they all were. -/
theorem writable_of_granted (hlen : len + m.page.size.toNat ≤ 2 ^ 64)
    (hall : m.granted readWrite (m.span addr len) = m.span addr len) :
    Writable m addr len (mprotect m readWrite (m.span addr len) prot).2 := by
  have hP := m.page.size_pos
  have hgrants := Mmu.granted_eq_self.mp hall
  intro k hk
  -- the page of the last byte exists, so that no address wraps
  have hlast : (addr.toNat + len - 1) / m.page.size.toNat ∈ m.span addr len := by
    rw [Mmu.mem_span hlen]
    have hle := Nat.div_mul_le_self (addr.toNat + len - 1) m.page.size.toNat
    exact ⟨Nat.div_le_div_right (by omega), by omega⟩
  have hend := m.bounded _ _ (hgrants _ hlast)
  have hbelow : addr.toNat + len - 1 <
      ((addr.toNat + len - 1) / m.page.size.toNat + 1) * m.page.size.toNat :=
    (Nat.div_lt_iff_lt_mul hP).mp (Nat.lt_succ_self _)
  have hbyte : (addr + BitVec.ofNat 64 k).toNat = addr.toNat + k := by
    bv_omega
  rw [hbyte, mprotect_prot, hall, if_pos]
  · rfl
  · rw [Mmu.mem_span hlen]
    have hle := Nat.div_mul_le_self (addr.toNat + k) m.page.size.toNat
    exact ⟨Nat.div_le_div_right (by omega), by omega⟩

theorem patchPages_outcome (m : Mmu) (addr : Addr) (len : ℕ) (prot : Protections) :
    (patchPages m addr len prot).1 =
      if m.granted readWrite (m.span addr len) = m.span addr len then
        if m.granted readExec (m.span addr len) = m.span addr len then .ok else .rxDenied
      else .rwDenied := by
  by_cases hw : m.granted readWrite (m.span addr len) = m.span addr len
  · by_cases hx : m.granted readExec (m.span addr len) = m.span addr len
    · simp [patchPages, mprotect_eq, hw, hx]
    · simp [patchPages, mprotect_eq, hw, hx]
  · simp [patchPages, mprotect_eq, hw]

/-- What was made writable becomes executable as far as the second call comes, which is not made
when the first was refused. -/
theorem patchPages_prot (m : Mmu) (addr : Addr) (len : ℕ) (prot : Protections) (p : ℕ) :
    (patchPages m addr len prot).2 p =
      if p ∈ m.granted readWrite (m.span addr len) then
        if m.granted readWrite (m.span addr len) = m.span addr len ∧
            p ∈ m.granted readExec (m.span addr len) then readExec
        else readWrite
      else prot p := by
  by_cases hw : m.granted readWrite (m.span addr len) = m.span addr len
  · have hsub : p ∈ m.granted readExec (m.span addr len) → p ∈ m.span addr len :=
      Mmu.mem_of_granted
    by_cases hx : m.granted readExec (m.span addr len) = m.span addr len
    · by_cases hp : p ∈ m.span addr len
      · simp [patchPages, mprotect_eq, hw, hx, hp]
      · simp [patchPages, mprotect_eq, hw, hx, hp]
    · by_cases hp : p ∈ m.granted readExec (m.span addr len)
      · simp [patchPages, mprotect_eq, hw, hx, hp, hsub hp]
      · simp [patchPages, mprotect_eq, hw, hx, hp]
  · simp [patchPages, mprotect_eq, hw]

theorem patchCodePages_prot (m : Mmu) (addr : Addr) (len : ℕ) (prot : Protections) (p : ℕ) :
    patchCodePages m addr len prot p =
      if p ∈ m.granted readExec (m.span addr len) then readExec
      else if p ∈ m.granted readWrite (m.span addr len) then readWrite else prot p := by
  rw [patchCodePages, mprotect_prot, mprotect_prot]

end Patch

/-! ## §6  Executable pages -/

/-- The pages of a set can be executed. -/
def Executable (exec : Set ℕ) (prot : Protections) : Prop := ∀ p ∈ exec, (prot p).exec = true

/-- A patch makes no page of the set writable that it does not make executable again. -/
def SmoothPatch (m : Mmu) (exec : Set ℕ) (addr : Addr) (len : ℕ) : Prop :=
  ∀ p ∈ m.granted readWrite (m.span addr len), p ∈ exec →
    m.granted readWrite (m.span addr len) = m.span addr len ∧
      p ∈ m.granted readExec (m.span addr len)

/-- All protections are granted on all pages of the patch. -/
def Mmu.GrantsPatch (m : Mmu) (addr : Addr) (len : ℕ) : Prop :=
  ∀ p ∈ m.span addr len, m.grants p readWrite ∧ m.grants p readExec

/-- The same of each patch that is come to. -/
def SmoothPatches (y : System) (exec : Set ℕ) : ℕ → List (Addr × ℕ) → Prop
  | _, [] => True
  | turn, (addr, len) :: rest =>
      SmoothPatch (y.mmu turn) exec addr len ∧
        ((y.mmu turn).GrantsPatch addr len → SmoothPatches y exec (turn + 1) rest)

/-- `patchCode` makes no page of the set writable that it does not make executable again; it goes
on after a refusal. -/
def SmoothCode (m : Mmu) (exec : Set ℕ) (addr : Addr) (len : ℕ) : Prop :=
  ∀ p ∈ m.granted readWrite (m.span addr len), p ∈ exec → p ∈ m.granted readExec (m.span addr len)

def Call.Smooth (y : System) (arch : Arch) (exec : Set ℕ) (s : Paged) : Call → Prop
  | .patchCode address bytes => SmoothCode (y.mmu s.turn) exec address bytes.length
  | c => SmoothPatches y exec s.turn (c.patches arch s.world)

section Executable

variable {m : Mmu} {y : System} {arch : Arch} {exec : Set ℕ} {addr : Addr} {len turn : ℕ}
  {prot : Protections}

theorem patchPages_executable (h : Executable exec prot) :
    Executable exec (patchPages m addr len prot).2 ↔ SmoothPatch m exec addr len := by
  constructor
  · intro hafter p hw hp
    have hexec := hafter p hp
    rw [patchPages_prot, if_pos hw] at hexec
    by_contra hleft
    rw [if_neg hleft] at hexec
    cases hexec
  · intro hsmooth p hp
    rw [patchPages_prot]
    by_cases hw : p ∈ m.granted readWrite (m.span addr len)
    · rw [if_pos hw, if_pos (hsmooth p hw hp)]
      rfl
    · rw [if_neg hw]
      exact h p hp

theorem patchCodePages_executable (h : Executable exec prot) :
    Executable exec (patchCodePages m addr len prot) ↔ SmoothCode m exec addr len := by
  constructor
  · intro hafter p hw hp
    have hexec := hafter p hp
    rw [patchCodePages_prot] at hexec
    by_contra hx
    rw [if_neg hx, if_pos hw] at hexec
    cases hexec
  · intro hsmooth p hp
    rw [patchCodePages_prot]
    by_cases hx : p ∈ m.granted readExec (m.span addr len)
    · rw [if_pos hx]
      rfl
    · rw [if_neg hx, if_neg fun hw => hx (hsmooth p hw hp)]
      exact h p hp

theorem patchAll_of_ok {rest : List (Addr × ℕ)}
    (h : (patchPages (y.mmu turn) addr len prot).1 = .ok) :
    (patchAll y turn ((addr, len) :: rest) prot).2 =
      (patchAll y (turn + 1) rest (patchPages (y.mmu turn) addr len prot).2).2 := by
  rw [patchAll]
  generalize patchPages (y.mmu turn) addr len prot = r at *
  obtain ⟨outcome, prot'⟩ := r
  subst h
  rfl

theorem patchAll_of_refused {rest : List (Addr × ℕ)}
    (h : (patchPages (y.mmu turn) addr len prot).1 ≠ .ok) :
    (patchAll y turn ((addr, len) :: rest) prot).2 =
      (patchPages (y.mmu turn) addr len prot).2 := by
  rw [patchAll]
  generalize patchPages (y.mmu turn) addr len prot = r at *
  obtain ⟨outcome, prot'⟩ := r
  cases outcome with
  | ok => exact absurd rfl h
  | rwDenied => rfl
  | rxDenied => rfl

theorem grantsPatch_iff : m.GrantsPatch addr len ↔
    m.granted readWrite (m.span addr len) = m.span addr len ∧
      m.granted readExec (m.span addr len) = m.span addr len := by
  rw [Mmu.granted_eq_self, Mmu.granted_eq_self]
  exact forall₂_and

theorem patchPages_ok_iff :
    (patchPages m addr len prot).1 = .ok ↔ m.GrantsPatch addr len := by
  rw [patchPages_outcome, grantsPatch_iff]
  split_ifs <;> simp_all

/-- A patch that both calls grant leaves its pages executable. -/
theorem smoothPatch_of_granted (h : m.GrantsPatch addr len) : SmoothPatch m exec addr len := by
  obtain ⟨hw, hx⟩ := grantsPatch_iff.mp h
  intro p hp _
  rw [hw] at hp
  rw [hx]
  exact ⟨hw, hp⟩

theorem patchAll_executable {ps : List (Addr × ℕ)} (h : Executable exec prot) :
    Executable exec (patchAll y turn ps prot).2 ↔ SmoothPatches y exec turn ps := by
  induction ps generalizing prot turn with
  | nil => exact iff_of_true h trivial
  | cons patch rest ih =>
      obtain ⟨addr, len⟩ := patch
      have hone : Executable exec (patchPages (y.mmu turn) addr len prot).2 ↔
          SmoothPatch (y.mmu turn) exec addr len := patchPages_executable h
      by_cases hok : (patchPages (y.mmu turn) addr len prot).1 = .ok
      · have hgrants := patchPages_ok_iff.mp hok
        have hsmooth : SmoothPatch (y.mmu turn) exec addr len := smoothPatch_of_granted hgrants
        rw [patchAll_of_ok hok, ih (hone.mpr hsmooth)]
        exact ⟨fun hrest => ⟨hsmooth, fun _ => hrest⟩, fun hall => hall.2 hgrants⟩
      · rw [patchAll_of_refused hok, hone]
        refine ⟨fun hsmooth => ⟨hsmooth, fun hgrants => ?_⟩, fun hall => hall.1⟩
        exact absurd (patchPages_ok_iff.mpr hgrants) hok

theorem Call.protect_executable {s : Paged} (c : Call) (h : Executable exec s.prot) :
    Executable exec (c.step y arch s).prot ↔ c.Smooth y arch exec s := by
  cases c with
  | patchCode address bytes => exact patchCodePages_executable h
  | _ => exact patchAll_executable h

variable {w₀ : World} {prot₀ : Protections} {tr : List (Paged × Call)} {t : Paged}

/-- What can be executed at the start can be executed throughout, exactly as long as no call leaves
such a page writable: which takes a change of protection that is granted and refused on one page, or
granted on one and refused on a later one. -/
theorem executable_throughout_iff (run : Run (Step y arch) ⟨w₀, prot₀, 0⟩ tr t) :
    Throughout (fun s => ∀ p, (prot₀ p).exec = true → (s.prot p).exec = true) tr t ↔
      Guarded (fun s c => c.Smooth y arch {p | (prot₀ p).exec = true} s) tr := by
  apply run.throughout_iff_guarded (I := fun _ => True) trivial (fun _ _ _ _ _ => trivial)
  · intro p hp
    exact hp
  · intro s c u _ hexec hsmooth hstep
    cases hstep
    exact (c.protect_executable hexec).mpr hsmooth
  · intro s c u _ hexec hrough hstep hafter
    cases hstep
    exact hrough ((c.protect_executable hexec).mp hafter)

/-- Pages of 4 KiB, of which one may not be made executable in one of the patches. -/
def refusing (refused : Option (ℕ × ℕ)) : System where
  page := smallPages
  grants := fun turn p access =>
    decide ((p + 1) * 4096 ≤ 2 ^ 64) && (access ≠ readExec || refused ≠ some (turn, p))
  bounded := fun turn p access h => by
    have hp : (p + 1) * 4096 ≤ 2 ^ 64 := of_decide_eq_true (Bool.and_eq_true_iff.mp h).1
    exact hp

/-- Two bytes on either side of the end of page 1. -/
def acrossPages : Call := .patchCode 0x1FFF [0x90, 0xC3]

theorem span_acrossPages (refused : Option (ℕ × ℕ)) (turn : ℕ) :
    ((refusing refused).mmu turn).span 0x1FFF 2 = [1, 2] :=
  show ((refusing none).mmu 0).span 0x1FFF 2 = [1, 2] by decide

theorem permitted_acrossPages (refused : Option (ℕ × ℕ)) (s : Paged) :
    acrossPages.Permitted (refusing refused) s := by
  refine writable_of_granted (show 2 + 4096 ≤ 2 ^ 64 by decide) ?_
  rw [Mmu.granted_eq_self]
  show ∀ p ∈ ((refusing refused).mmu s.turn).span 0x1FFF 2, _
  rw [span_acrossPages]
  simp [System.mmu, refusing, readWrite, readExec]

def codeOnly : Paged := ⟨.start (fun _ => 0) defaultActions, fun _ => readExec, 0⟩

/-- The patch is made twice. -/
def once (refused : Option (ℕ × ℕ)) : Paged := acrossPages.step (refusing refused) .x64 codeOnly

def twice (refused : Option (ℕ × ℕ)) : Paged :=
  acrossPages.step (refusing refused) .x64 (once refused)

def traceTwice (refused : Option (ℕ × ℕ)) : List (Paged × Call) :=
  [(codeOnly, acrossPages), (once refused, acrossPages)]

theorem run_twice (refused : Option (ℕ × ℕ)) :
    Run (Step (refusing refused) .x64) codeOnly (traceTwice refused) (twice refused) :=
  (Run.nil.snoc ⟨permitted_acrossPages refused _⟩).snoc ⟨permitted_acrossPages refused _⟩

/-- All pages can be executed after two patches across two of them, but not when the second patch
is refused one. -/
theorem executable_throughout_twice :
    let stays := fun s : Paged => ∀ p, readExec.exec = true → (s.prot p).exec = true
    Throughout stays (traceTwice none) (twice none) ∧
      ¬ Throughout stays (traceTwice (some (1, 2))) (twice (some (1, 2))) := by
  intro stays
  constructor
  · apply (executable_throughout_iff (run_twice none)).mpr
    intro q hq
    rcases List.mem_pair.mp hq with rfl | rfl
    · exact fun p hp _ => hp
    · exact fun p hp _ => hp
  · intro h
    have hsmooth := (executable_throughout_iff (run_twice (some (1, 2)))).mp h
      (once (some (1, 2)), acrossPages) (List.mem_cons_of_mem _ List.mem_cons_self)
    have hlost := hsmooth 2 (by decide) rfl
    revert hlost
    decide

end Executable

/-! ## §7  What is touched -/

/-- Only bytes of the regions differ. -/
def Confined (regions : List (Addr × ℕ)) (before after : Memory) : Prop :=
  ∀ a, after a ≠ before a → ∃ r ∈ regions, InRegion r.1 r.2 a

/-- The patches one after the other are granted all they ask for. -/
def System.GrantsAll (y : System) : ℕ → List (Addr × ℕ) → Prop
  | _, [] => True
  | turn, (addr, len) :: rest =>
      (y.mmu turn).GrantsPatch addr len ∧ y.GrantsAll (turn + 1) rest

/-- No change of protection is refused. -/
def Call.Granted (y : System) (arch : Arch) (s : Paged) (c : Call) : Prop :=
  y.GrantsAll s.turn (c.regions arch s.world)

section Confined

variable {y : System} {arch : Arch} {turn : ℕ} {regions more : List (Addr × ℕ)}
  {before between after : Memory}

theorem Confined.refl : Confined regions before before := fun _ h => absurd rfl h

theorem Confined.mono (h : Confined more before after) (hsub : ∀ r ∈ more, r ∈ regions) :
    Confined regions before after := by
  intro a ha
  obtain ⟨r, hr, hin⟩ := h a ha
  exact ⟨r, hsub r hr, hin⟩

theorem Confined.trans (h : Confined regions before between) (h' : Confined more between after)
    (hsub : ∀ r ∈ more, r ∈ regions) : Confined regions before after := by
  intro a ha
  by_cases hb : between a = before a
  · exact h'.mono hsub a (hb ▸ ha)
  · exact h a hb

theorem Confined.write {addr : Addr} {data : List Byte} {len : ℕ}
    (hlen : data.length ≤ len) (hr : (addr, len) ∈ regions) :
    Confined regions before (writeBytes before addr data) := by
  intro a ha
  refine ⟨_, hr, ?_⟩
  by_contra hout
  exact ha (writeBytes_outside fun hin => hout (hin.trans_le hlen))

theorem Confined.patched (outcome : PatchOutcome) {addr : Addr} {data : List Byte} {len : ℕ}
    {w : World} (hlen : data.length ≤ len) (hr : (addr, len) ∈ regions) :
    Confined regions w.code (makeWritableAndPatch outcome addr data w).2.code := by
  cases outcome with
  | ok => exact .write hlen hr
  | rwDenied => exact .refl
  | rxDenied => exact .write hlen hr

theorem confined_set (env : SoftwareBreakpoint.Install) (address : Addr) (onHit : Callback)
    (w : World) : Confined (Call.patches arch w (.set env address onHit)) w.code
      (SoftwareBreakpoint.set arch env address onHit w).2.code := by
  unfold SoftwareBreakpoint.set
  by_cases hset : address ∈ w.bp.bpByAddress
  · rw [if_pos hset]
    exact .refl
  · rw [if_neg hset]
    obtain ⟨self, relocated, trampoline, patch⟩ := env
    cases relocated with
    | error e => exact fun a ha => absurd (by simp) ha
    | ok block =>
        cases trampoline with
        | error e => exact fun a ha => absurd (by simp) ha
        | ok code =>
            have hr : (address, arch.bpInsnSize) ∈
                Call.patches arch w (.set ⟨self, .ok block, .ok code, patch⟩ address onHit) := by
              simp [Call.patches, hset, Except.isOk, Except.toBool]
            intro a ha
            apply Confined.patched patch (length_bpInsn arch).le hr a
            cases patch with
            | ok => simpa [makeWritableAndPatch] using ha
            | rwDenied => exact absurd (by simp [makeWritableAndPatch]) ha
            | rxDenied => simpa [makeWritableAndPatch] using ha

theorem confined_attach (env : Interceptor.Install) (target : Addr) (onEnter onLeave : Callback)
    (w : World) : Confined (Call.patches arch w (.attach env target onEnter onLeave)) w.code
      (Interceptor.attach arch env target onEnter onLeave w).2.code := by
  unfold Interceptor.attach
  by_cases hset : target ∈ w.hooks.hooksByTarget
  · rw [if_pos hset]
    exact .refl
  · rw [if_neg hset]
    obtain ⟨self, relocated, trampoline, patch⟩ := env
    cases relocated with
    | error e => exact fun a ha => absurd (by simp) ha
    | ok block =>
        cases trampoline with
        | error e => exact fun a ha => absurd (by simp) ha
        | ok code =>
            have hr : (target, arch.patchSize) ∈ Call.patches arch w
                (.attach ⟨self, .ok block, .ok code, patch⟩ target onEnter onLeave) := by
              simp [Call.patches, hset, Except.isOk, Except.toBool]
            intro a ha
            apply Confined.patched patch (length_generatePatchBytes arch code).le hr a
            cases patch with
            | ok => simpa [makeWritableAndPatch, Interceptor.register] using ha
            | rwDenied => exact absurd (by simp [makeWritableAndPatch]) ha
            | rxDenied => simpa [makeWritableAndPatch, Interceptor.register] using ha

theorem confined_replace (env : Interceptor.Install) (target replacement : Addr) (w : World) :
    Confined (Call.patches arch w (.replace env target replacement)) w.code
      (Interceptor.replace arch env target replacement w).2.code := by
  unfold Interceptor.replace
  by_cases hset : target ∈ w.hooks.hooksByTarget
  · rw [if_pos hset]
    exact .refl
  · rw [if_neg hset]
    obtain ⟨self, relocated, trampoline, patch⟩ := env
    cases relocated with
    | error e => exact fun a ha => absurd (by simp) ha
    | ok block =>
        have hr : (target, arch.patchSize) ∈ Call.patches arch w
            (.replace ⟨self, .ok block, trampoline, patch⟩ target replacement) := by
          simp [Call.patches, hset, Except.isOk, Except.toBool]
        intro a ha
        apply Confined.patched patch
          (length_generatePatchBytes arch replacement).le hr a
        cases patch with
        | ok => simpa [makeWritableAndPatch, Interceptor.register] using ha
        | rwDenied => exact absurd (by simp [makeWritableAndPatch]) ha
        | rxDenied => simpa [makeWritableAndPatch, Interceptor.register] using ha

theorem confined_remove (patch : PatchOutcome) (bpId : ℕ) (w : World) :
    Confined (Call.patches arch w (.remove bpId)) w.code
      (SoftwareBreakpoint.remove arch patch bpId w).2.code := by
  unfold SoftwareBreakpoint.remove
  cases hl : w.bp.bpById.lookup bpId with
  | none => exact .refl
  | some e =>
      have hr : (e.address, arch.bpInsnSize) ∈ Call.patches arch w (.remove bpId) := by
        simp [Call.patches, hl]
      intro a ha
      apply Confined.patched patch (List.length_take_le _ e.originalBytes) hr a
      cases patch with
      | ok => simpa [makeWritableAndPatch] using ha
      | rwDenied => exact absurd (by simp [makeWritableAndPatch]) ha
      | rxDenied => simpa [makeWritableAndPatch] using ha

theorem confined_detach (arch : Arch) (patch : PatchOutcome) (hookId : ℕ) (w : World) :
    Confined (Call.patches arch w (.detach hookId)) w.code
      (Interceptor.detach patch hookId w).2.code := by
  unfold Interceptor.detach Interceptor.restore
  cases hl : w.hooks.hooksById.lookup hookId with
  | none => exact .refl
  | some e =>
      have hr : (e.target, e.patchSize) ∈ Call.patches arch w (.detach hookId) := by
        simp [Call.patches, hl]
      intro a ha
      apply Confined.patched patch (List.length_take_le _ e.originalBytes) hr a
      cases patch with
      | ok => simpa [makeWritableAndPatch] using ha
      | rwDenied => exact absurd (by simp [makeWritableAndPatch]) ha
      | rxDenied => simpa [makeWritableAndPatch] using ha

theorem confined_revert (arch : Arch) (patch : PatchOutcome) (target : Addr) (w : World) :
    Confined (Call.patches arch w (.revert target)) w.code
      (Interceptor.revert patch target w).2.code := by
  unfold Interceptor.revert Interceptor.restore
  cases hl : w.hooks.hooksByTarget.lookup target with
  | none => exact .refl
  | some e =>
      have hr : (e.target, e.patchSize) ∈ Call.patches arch w (.revert target) := by
        simp [Call.patches, hl]
      intro a ha
      apply Confined.patched patch (List.length_take_le _ e.originalBytes) hr a
      cases patch with
      | ok => simpa [makeWritableAndPatch] using ha
      | rwDenied => exact absurd (by simp [makeWritableAndPatch]) ha
      | rxDenied => simpa [makeWritableAndPatch] using ha

theorem confined_removeAll (patch : Addr → PatchOutcome) (order : List (Σ _ : ℕ, BreakpointEntry))
    (w : World) : Confined (Call.patches arch w (.removeAll order)) w.code
      (SoftwareBreakpoint.removeAll arch patch order w).2.code := by
  have hloop : Confined (order.map fun e => (e.2.address, arch.bpInsnSize)) w.code
      (SoftwareBreakpoint.restoreAll arch patch order w).2.code := by
    induction order generalizing w with
    | nil => exact .refl
    | cons e rest ih =>
        have hone : Confined ((e :: rest).map fun e => (e.2.address, arch.bpInsnSize)) w.code
            (makeWritableAndPatch (patch e.2.address) e.2.address
              (e.2.originalBytes.take arch.bpInsnSize) w).2.code :=
          .patched _ (List.length_take_le _ e.2.originalBytes) List.mem_cons_self
        unfold SoftwareBreakpoint.restoreAll
        generalize makeWritableAndPatch (patch e.2.address) e.2.address
          (e.2.originalBytes.take arch.bpInsnSize) w = r at *
        obtain ⟨answer, w'⟩ := r
        cases answer with
        | error _ => exact hone
        | ok _ =>
            have hrest := ih (SoftwareBreakpoint.releaseEntry e.2 w')
            rw [SoftwareBreakpoint.releaseEntry_code] at hrest
            exact hone.trans hrest fun _ => List.mem_cons_of_mem _
  unfold SoftwareBreakpoint.removeAll
  generalize SoftwareBreakpoint.restoreAll arch patch order w = r at *
  obtain ⟨answer, w'⟩ := r
  cases answer with
  | error _ => exact hloop
  | ok _ =>
      intro a ha
      exact hloop a (by simpa using ha)

theorem confined_detachAll (arch : Arch) (patch : Addr → PatchOutcome)
    (order : List (Σ _ : ℕ, HookEntry)) (w : World) :
    Confined (Call.patches arch w (.detachAll order)) w.code
      (Interceptor.detachAll patch order w).2.code := by
  have hloop : Confined (order.map fun e => (e.2.target, e.2.patchSize)) w.code
      (Interceptor.restoreAll patch order w).2.code := by
    induction order generalizing w with
    | nil => exact .refl
    | cons e rest ih =>
        have hone : Confined ((e :: rest).map fun e => (e.2.target, e.2.patchSize)) w.code
            (Interceptor.restore (patch e.2.target) e.2 w).2.code :=
          .patched _ (List.length_take_le _ e.2.originalBytes) List.mem_cons_self
        unfold Interceptor.restoreAll
        generalize Interceptor.restore (patch e.2.target) e.2 w = r at *
        obtain ⟨answer, w'⟩ := r
        cases answer with
        | error _ => exact hone
        | ok _ =>
            have hrest := ih (Interceptor.releaseEntry e.2 w')
            rw [Interceptor.releaseEntry_code] at hrest
            exact hone.trans hrest fun _ => List.mem_cons_of_mem _
  unfold Interceptor.detachAll
  generalize Interceptor.restoreAll patch order w = r at *
  obtain ⟨answer, w'⟩ := r
  cases answer with
  | error _ => exact hloop
  | ok _ => exact hloop

/-- A call writes its regions and no byte beside them. -/
theorem Call.confined (c : Call) (patch : Addr → PatchOutcome) (w : World) :
    Confined (c.regions arch w) w.code (c.exec arch patch w).code := by
  cases c with
  | set env address onHit => exact confined_set _ address onHit w
  | remove bpId => exact confined_remove _ bpId w
  | removeAll order => exact confined_removeAll patch order w
  | attach env target onEnter onLeave => exact confined_attach _ target onEnter onLeave w
  | replace env target replacement => exact confined_replace _ target replacement w
  | detach hookId => exact confined_detach arch _ hookId w
  | revert target => exact confined_revert arch _ target w
  | detachAll order => exact confined_detachAll arch patch order w
  | patchCode address bytes => exact .write le_rfl List.mem_cons_self

/-- One patch leaves a page alone, or the page is one of its own. -/
theorem patchPages_cases (m : Mmu) (addr : Addr) (len : ℕ) (prot : Protections) (p : ℕ) :
    (patchPages m addr len prot).2 p = prot p ∨ p ∈ m.span addr len ∧
      ((patchPages m addr len prot).2 p = readWrite ∨
        (patchPages m addr len prot).2 p = readExec) := by
  rw [patchPages_prot]
  by_cases hw : p ∈ m.granted readWrite (m.span addr len)
  · rw [if_pos hw]
    refine .inr ⟨Mmu.mem_of_granted hw, ?_⟩
    split_ifs
    · exact .inr rfl
    · exact .inl rfl
  · exact .inl (if_neg hw)

theorem patchAll_cases (y : System) (turn : ℕ) (ps : List (Addr × ℕ)) (prot : Protections)
    (p : ℕ) :
    (patchAll y turn ps prot).2 p = prot p ∨
      (∃ r ∈ ps, p ∈ y.span r.1 r.2) ∧
        ((patchAll y turn ps prot).2 p = readWrite ∨
          (patchAll y turn ps prot).2 p = readExec) := by
  induction ps generalizing prot turn with
  | nil => exact .inl rfl
  | cons patch rest ih =>
      obtain ⟨addr, len⟩ := patch
      have hone := patchPages_cases (y.mmu turn) addr len prot p
      by_cases hok : (patchPages (y.mmu turn) addr len prot).1 = .ok
      · rw [patchAll_of_ok hok]
        rcases ih (turn + 1) (patchPages (y.mmu turn) addr len prot).2 with
          hsame | ⟨⟨r, hr, hp⟩, hset⟩
        · rw [hsame]
          rcases hone with hfirst | ⟨hp, hset⟩
          · exact .inl hfirst
          · exact .inr ⟨⟨_, List.mem_cons_self, hp⟩, hset⟩
        · exact .inr ⟨⟨r, List.mem_cons_of_mem _ hr, hp⟩, hset⟩
      · rw [patchAll_of_refused hok]
        rcases hone with hfirst | ⟨hp, hset⟩
        · exact .inl hfirst
        · exact .inr ⟨⟨_, List.mem_cons_self, hp⟩, hset⟩

theorem patchAll_granted {ps : List (Addr × ℕ)} {prot : Protections} {p : ℕ}
    (hall : y.GrantsAll turn ps) (h : prot p = readExec ∨ ∃ r ∈ ps, p ∈ y.span r.1 r.2) :
    (patchAll y turn ps prot).2 p = readExec := by
  induction ps generalizing prot turn with
  | nil =>
      rcases h with hprot | ⟨r, hr, -⟩
      · exact hprot
      · cases hr
  | cons patch rest ih =>
      obtain ⟨addr, len⟩ := patch
      obtain ⟨hhere, hrest⟩ := hall
      obtain ⟨hw, hx⟩ := grantsPatch_iff.mp hhere
      rw [patchAll_of_ok (patchPages_ok_iff.mpr hhere)]
      apply ih hrest
      by_cases hp : p ∈ (y.mmu turn).span addr len
      · left
        rw [patchPages_prot, hw, hx, if_pos hp, if_pos ⟨rfl, hp⟩]
      · rw [patchPages_prot, hw, if_neg hp]
        rcases h with hprot | ⟨r, hr, hin⟩
        · exact .inl hprot
        · rcases List.mem_cons.mp hr with rfl | hr
          · exact absurd hin hp
          · exact .inr ⟨r, hr, hin⟩

/-- What one call leaves of the protection of a page. -/
theorem Call.protect_cases (c : Call) (s : Paged) (p : ℕ) :
    (c.step y arch s).prot p = s.prot p ∨
      (∃ r ∈ c.regions arch s.world, p ∈ y.span r.1 r.2) ∧
        ((c.step y arch s).prot p = readWrite ∨ (c.step y arch s).prot p = readExec) := by
  cases c with
  | patchCode address bytes =>
      show patchCodePages (y.mmu s.turn) address bytes.length s.prot p = s.prot p ∨
        (∃ r ∈ [(address, bytes.length)], p ∈ y.span r.1 r.2) ∧
          (patchCodePages (y.mmu s.turn) address bytes.length s.prot p = readWrite ∨
            patchCodePages (y.mmu s.turn) address bytes.length s.prot p = readExec)
      rw [patchCodePages_prot]
      split_ifs with hx hw
      · exact .inr ⟨⟨_, List.mem_cons_self, Mmu.mem_of_granted hx⟩, .inr rfl⟩
      · exact .inr ⟨⟨_, List.mem_cons_self, Mmu.mem_of_granted hw⟩, .inl rfl⟩
      · exact .inl rfl
  | _ => exact patchAll_cases y _ _ s.prot p

/-- A call that is granted everything makes its pages readable and executable. -/
theorem Call.protect_granted {c : Call} {s : Paged} {p : ℕ} (hall : c.Granted y arch s)
    (h : s.prot p = readExec ∨ ∃ r ∈ c.regions arch s.world, p ∈ y.span r.1 r.2) :
    (c.step y arch s).prot p = readExec := by
  cases c with
  | patchCode address bytes =>
      show patchCodePages (y.mmu s.turn) address bytes.length s.prot p = readExec
      obtain ⟨hw, hx⟩ := grantsPatch_iff.mp hall.1
      rw [patchCodePages_prot, hw, hx]
      rcases h with hprot | ⟨r, hr, hin⟩
      · split_ifs
        · rfl
        · exact hprot
      · obtain rfl := List.mem_singleton.mp hr
        exact if_pos hin
  | _ => exact patchAll_granted hall h

variable {w₀ : World} {prot₀ : Protections} {tr : List (Paged × Call)} {t : Paged}

/-- The regions of all calls of a run. -/
def touched (arch : Arch) (tr : List (Paged × Call)) : List (Addr × ℕ) :=
  tr.flatMap fun p => p.2.regions arch p.1.world

theorem touched_snoc {s : Paged} {c : Call} :
    touched arch (tr ++ [(s, c)]) = touched arch tr ++ c.regions arch s.world := by
  simp [touched]

theorem touched_prot (run : Run (Step y arch) ⟨w₀, prot₀, 0⟩ tr t) (p : ℕ) :
    t.prot p = prot₀ p ∨ (∃ r ∈ touched arch tr, p ∈ y.span r.1 r.2) ∧
      (t.prot p = readWrite ∨ t.prot p = readExec) := by
  induction run with
  | nil => exact .inl rfl
  | snoc _ hstep ih =>
      cases hstep
      rw [touched_snoc]
      rcases Call.protect_cases _ _ p with hsame | ⟨⟨r, hr, hin⟩, hset⟩
      · rw [hsame]
        rcases ih with hstart | ⟨⟨r, hr, hin⟩, hset⟩
        · exact .inl hstart
        · exact .inr ⟨⟨r, List.mem_append_left _ hr, hin⟩, hset⟩
      · exact .inr ⟨⟨r, List.mem_append_right _ hr, hin⟩, hset⟩

theorem touched_granted (run : Run (Step y arch) ⟨w₀, prot₀, 0⟩ tr t)
    (hall : Guarded (fun s c => c.Granted y arch s) tr) {p : ℕ}
    (h : ∃ r ∈ touched arch tr, p ∈ y.span r.1 r.2) : t.prot p = readExec := by
  induction run with
  | nil =>
      obtain ⟨r, hr, -⟩ := h
      cases hr
  | snoc _ hstep ih =>
      obtain ⟨hbefore, hlast⟩ := guarded_snoc.mp hall
      cases hstep
      rw [touched_snoc] at h
      obtain ⟨r, hr, hin⟩ := h
      apply Call.protect_granted hlast
      rcases List.mem_append.mp hr with hold | hnew
      · exact .inl (ih hbefore ⟨r, hold, hin⟩)
      · exact .inr ⟨r, hnew, hin⟩

theorem touched_code (run : Run (Step y arch) ⟨w₀, prot₀, 0⟩ tr t) :
    Confined (touched arch tr) w₀.code t.world.code := by
  induction run with
  | nil => exact .refl
  | snoc _ hstep ih =>
      cases hstep
      rw [touched_snoc]
      exact (ih.mono fun _ => List.mem_append_left _).trans (Call.confined _ _ _)
        fun _ => List.mem_append_right _

/-- After any run a page has the protection of the start, or it belongs to a patch and can be
written or executed but not both; a byte that differs from the start belongs to a patch. Where no
change of protection is refused, exactly the pages of the patches are readable and executable, and
all others as they were. -/
theorem protections_accounted (run : Run (Step y arch) ⟨w₀, prot₀, 0⟩ tr t) :
    (∀ p, t.prot p = prot₀ p ∨ (∃ r ∈ touched arch tr, p ∈ y.span r.1 r.2) ∧
      (t.prot p = readWrite ∨ t.prot p = readExec)) ∧
    (∀ a, t.world.code a ≠ w₀.code a → ∃ r ∈ touched arch tr, InRegion r.1 r.2 a) ∧
    (Guarded (fun s c => c.Granted y arch s) tr → ∀ p, t.prot p =
      if ∃ r ∈ touched arch tr, p ∈ y.span r.1 r.2 then readExec else prot₀ p) := by
  refine ⟨touched_prot run, touched_code run, fun hall p => ?_⟩
  split_ifs with h
  · exact touched_granted run hall h
  · rcases touched_prot run p with hsame | ⟨hin, -⟩
    · exact hsame
    · exact absurd hin h

/-- After the two patches across two pages, of which one was refused. -/
theorem protections_accounted_twice :
    (twice (some (1, 2))).prot 3 = readExec ∧
      ∀ a, (twice (some (1, 2))).world.code a ≠ 0 → InRegion 0x1FFF 2 a := by
  obtain ⟨hprot, hcode, -⟩ := protections_accounted (run_twice (some (1, 2)))
  have htouched : touched .x64 (traceTwice (some (1, 2))) = [(0x1FFF, 2), (0x1FFF, 2)] := rfl
  rw [htouched] at hprot hcode
  constructor
  · rcases hprot 3 with hsame | ⟨⟨r, hr, hin⟩, -⟩
    · exact hsame
    · simp only [List.mem_cons, List.not_mem_nil, or_false, or_self] at hr
      subst hr
      revert hin
      decide
  · intro a ha
    obtain ⟨r, hr, hin⟩ := hcode a ha
    simp only [List.mem_cons, List.not_mem_nil, or_false, or_self] at hr
    subst hr
    exact hin

end Confined

end CodePages

end Chromatic
