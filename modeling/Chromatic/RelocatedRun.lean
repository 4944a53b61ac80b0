import Chromatic.Arm64Relocator
import Chromatic.Foundation.Layouts

/-!
# What the relocator consumes

The loop of `buildRelocatedCode` in both builds: the instructions from the source on are laid
end to end, and it takes whole ones until the patch fits. The block it leaves is the code of
these instructions, and behind it a jump back.

§1 the loop · §2 what is consumed and emitted · §3 the x86_64 build · §4 the ARM64 build ·
§5 both builds.
-/

namespace Chromatic

open Foundation

/-! ## §1  The loop -/

/-- A decoder that fails or finds an instruction of 1 to 15 bytes. -/
structure BoundedDisasm (ι : Type) (size : ι → ℕ) where
  decode : List Byte → Addr → Option ι
  bounds : ∀ bytes addr insn, decode bytes addr = some insn → 1 ≤ size insn ∧ size insn ≤ 15

/-- The loop with its `size_t` offset: what it consumed and what it emitted, `none` while the
turns do not suffice. -/
def relocateLoop {χ : Type} (size : χ → ℕ) (turn : Addr → Except String χ)
    (source minBytes : BitVec 64) : ℕ → BitVec 64 → Option (Except String (BitVec 64 × List χ))
  | 0, _ => none
  | turns + 1, srcOffset =>
      if srcOffset < minBytes then
        match turn (source + srcOffset) with
        | .error e => some (.error e)
        | .ok chunk =>
            (relocateLoop size turn source minBytes turns
              (srcOffset + BitVec.ofNat 64 (size chunk))).map fun result =>
                result.map fun (bytesConsumed, chunks) => (bytesConsumed, chunk :: chunks)
      else some (.ok (srcOffset, []))

/-- The same loop with an offset that does not wrap. -/
structure LoopOf {χ : Type} (size : χ → ℕ) (turn : Addr → Except String χ) (source : Addr)
    (minBytes : ℕ) (loop : ℕ → Except String (List χ)) : Prop where
  done : ∀ off, minBytes ≤ off → loop off = .ok []
  failed : ∀ off e, off < minBytes → turn (source + BitVec.ofNat 64 off) = .error e →
    loop off = .error e
  went : ∀ off chunk, off < minBytes → turn (source + BitVec.ofNat 64 off) = .ok chunk →
    loop off = (loop (off + size chunk)).map (chunk :: ·)

/-- While the last instruction cannot reach past the addresses, the loop ends, with what the
unbounded offsets give. -/
theorem relocateLoop_ends {χ : Type} {size : χ → ℕ} {turn : Addr → Except String χ}
    {source minBytes : BitVec 64} {loop : ℕ → Except String (List χ)}
    (hloop : LoopOf size turn source minBytes.toNat loop)
    (hsize : ∀ addr chunk, turn addr = .ok chunk → 1 ≤ size chunk ∧ size chunk ≤ 15)
    (hfit : minBytes.toNat + 14 < 2 ^ 64) {off : ℕ} (hoff : off ≤ minBytes.toNat + 14) :
    ∃ turns, relocateLoop size turn source minBytes turns (BitVec.ofNat 64 off) =
      some ((loop off).map fun chunks =>
        (BitVec.ofNat 64 (off + (chunks.map size).sum), chunks)) := by
  have hnat : (BitVec.ofNat 64 off).toNat = off := by
    rw [BitVec.toNat_ofNat, Nat.mod_eq_of_lt (by omega)]
  -- each turn leaves less to cover
  induction hk : minBytes.toNat - off using Nat.strong_induction_on generalizing off with
  | _ k ih =>
      by_cases hlt : off < minBytes.toNat
      · have hmore : BitVec.ofNat 64 off < minBytes := by rwa [BitVec.lt_def, hnat]
        cases hturn : turn (source + BitVec.ofNat 64 off) with
        | error e =>
            refine ⟨1, ?_⟩
            rw [relocateLoop, if_pos hmore, hturn, hloop.failed off e hlt hturn]
            rfl
        | ok chunk =>
            obtain ⟨hpos, hle⟩ := hsize _ _ hturn
            have hnext : (BitVec.ofNat 64 (off + size chunk)).toNat = off + size chunk := by
              rw [BitVec.toNat_ofNat, Nat.mod_eq_of_lt (by omega)]
            obtain ⟨turns, hrest⟩ := ih (minBytes.toNat - (off + size chunk)) (by omega)
              (by omega) hnext rfl
            refine ⟨turns + 1, ?_⟩
            rw [relocateLoop, if_pos hmore, hturn, hloop.went off chunk hlt hturn]
            dsimp only
            rw [← BitVec.ofNat_add, hrest]
            cases loop (off + size chunk) with
            | error e => rfl
            | ok chunks =>
                simp only [Option.map_some, Except.map, List.map_cons, List.sum_cons, Nat.add_assoc]
      · have hdone : ¬ BitVec.ofNat 64 off < minBytes := by rwa [BitVec.lt_def, hnat]
        refine ⟨1, ?_⟩
        rw [relocateLoop, if_neg hdone, hloop.done off (Nat.not_lt.mp hlt)]
        rfl

/-! ## §2  What is consumed and emitted -/

/-- The text of a failure at an offset. -/
def cannotDisassemble (source : Addr) (off : ℕ) : String :=
  "Cannot disassemble at " ++ toHexAddr (source + BitVec.ofNat 64 off).toNat

/-- The code is one piece for each instruction from `addr` on, in their order. -/
def EmittedInOrder {ι ε : Type} (size : ι → ℕ) (Stands : Addr → ι → List ε → Prop) :
    Addr → List ι → List ε → Prop
  | _, [], code => code = []
  | addr, insn :: insns, code => ∃ piece rest, code = piece ++ rest ∧ Stands addr insn piece ∧
      EmittedInOrder size Stands (addr + BitVec.ofNat 64 (size insn)) insns rest

/-- Of the instructions from the source on the shortest run that is long enough is consumed. Its
code is emitted, and a jump to what follows the run, which the patch does not overwrite. -/
structure ConsumesWhole {ι ε : Type} (L : Layout ι) (Stands : Addr → ι → List ε → Prop)
    (jumpBack : Addr → List ε) (source : Addr) (minBytes : ℕ)
    (result : Except String (ℕ × List ε)) : Prop where
  throws : ∀ e, result = .error e ↔ ∃ run, L.Laid 0 run ∧ L.total run < minBytes ∧
    L.item (L.total run) = none ∧ e = cannotDisassemble source (L.total run)
  shortest : ∀ bytesConsumed block, result = .ok (bytesConsumed, block) →
    minBytes ≤ bytesConsumed ∧ bytesConsumed ≤ minBytes + 14 ∧
    ∃ run, L.Laid 0 run ∧ bytesConsumed = L.total run ∧
      (∀ run', L.Laid 0 run' → minBytes ≤ L.total run' → run <+: run') ∧
      ∃ body target, block = body ++ jumpBack target ∧
        EmittedInOrder L.size Stands source run body ∧
        target = source + BitVec.ofNat 64 bytesConsumed ∧ ¬ InRegion source minBytes target

section Cover

variable {ι χ ε : Type} {L : Layout ι} {Stands : Addr → ι → List ε → Prop} {source : Addr}
  {size : χ → ℕ} {code : χ → List ε} {piece : ℕ → ι → χ}

theorem mapError_eq_error {ε ε' α : Type} {f : ε → ε'} {x : Except ε α} {e' : ε'} :
    x.mapError f = .error e' ↔ ∃ e, x = .error e ∧ f e = e' := by
  cases x <;> simp [Except.mapError]

theorem mapError_eq_ok {ε ε' α : Type} {f : ε → ε'} {x : Except ε α} {a : α} :
    x.mapError f = .ok a ↔ x = .ok a := by
  cases x <;> simp [Except.mapError]

theorem map_eq_error {ε α β : Type} {f : α → β} {x : Except ε α} {e : ε} :
    x.map f = .error e ↔ x = .error e := by
  cases x <;> simp [Except.map]

theorem map_eq_ok {ε α β : Type} {f : α → β} {x : Except ε α} {b : β} :
    x.map f = .ok b ↔ ∃ a, x = .ok a ∧ f a = b := by
  cases x <;> simp [Except.map]

theorem sum_pieces (hsize : ∀ off insn, size (piece off insn) = L.size insn) (off : ℕ)
    (run : List ι) : ((L.pieces piece off run).map size).sum = L.total run := by
  induction run generalizing off with
  | nil => rfl
  | cons insn run ih =>
      rw [Layout.pieces, List.map_cons, List.sum_cons, hsize, ih, Layout.total_cons]

theorem emittedInOrder_pieces {off : ℕ} {run : List ι} (hlaid : L.Laid off run)
    (hstands : ∀ off insn, L.item off = some insn →
      Stands (source + BitVec.ofNat 64 off) insn (code (piece off insn))) :
    EmittedInOrder L.size Stands (source + BitVec.ofNat 64 off) run
      ((L.pieces piece off run).flatMap code) := by
  induction run generalizing off with
  | nil => rfl
  | cons insn run ih =>
      refine ⟨code (piece off insn), _, List.flatMap_cons, hstands off insn hlaid.1, ?_⟩
      rw [BitVec.add_assoc, ← BitVec.ofNat_add]
      exact ih hlaid.2

/-- Covering consumes whole instructions. -/
theorem consumesWhole_cover {minBytes : ℕ} {jumpBack : Addr → List ε}
    (hbound : ∀ off insn, L.item off = some insn → L.size insn ≤ 15)
    (hsize : ∀ off insn, size (piece off insn) = L.size insn)
    (hstands : ∀ off insn, L.item off = some insn →
      Stands (source + BitVec.ofNat 64 off) insn (code (piece off insn)))
    (hfit : minBytes + 14 < 2 ^ 64) :
    ConsumesWhole L Stands jumpBack source minBytes
      ((((L.cover minBytes 0).map (L.pieces piece 0)).mapError (cannotDisassemble source)).map
        fun chunks => ((chunks.map size).sum, chunks.flatMap code ++
          jumpBack (source + BitVec.ofNat 64 (chunks.map size).sum))) := by
  constructor
  · intro e
    rw [map_eq_error, mapError_eq_error]
    constructor
    · rintro ⟨off, hcover, rfl⟩
      obtain ⟨run, hlaid, heq, hlt, hnone⟩ :=
        Layout.laid_of_cover_error (map_eq_error.mp hcover)
      rw [Nat.zero_add] at heq
      subst heq
      exact ⟨run, hlaid, hlt, hnone, rfl⟩
    · rintro ⟨run, hlaid, hlt, hnone, rfl⟩
      exact ⟨L.total run, map_eq_error.mpr
        (Layout.cover_eq_error.mpr ⟨run, hlaid, Nat.zero_add _, hlt, hnone⟩), rfl⟩
  · intro bytesConsumed block h
    rw [map_eq_ok] at h
    obtain ⟨chunks, hchunks, hpair⟩ := h
    rw [mapError_eq_ok, map_eq_ok] at hchunks
    obtain ⟨run, hcover, rfl⟩ := hchunks
    rw [sum_pieces hsize, Prod.mk.injEq] at hpair
    obtain ⟨rfl, rfl⟩ := hpair
    obtain ⟨hlaid, hreach, hleast⟩ := Layout.laid_of_cover hcover
    have hlt := Layout.total_cover_lt hbound hcover (by omega)
    simp only [Nat.zero_add] at hreach hleast hlt
    refine ⟨hreach, by omega, run, hlaid, rfl, hleast, _, _, rfl, ?_, rfl, ?_⟩
    · have hemitted := emittedInOrder_pieces hlaid hstands
      rwa [BitVec.add_zero] at hemitted
    · rw [InRegion, offset_add source (by omega)]
      omega

end Cover

/-- A relocator's turns. They fail where there is no instruction, and else make its piece. -/
structure Turns {ι χ : Type} (L : Layout ι) (source : Addr) (size : χ → ℕ)
    (item : Addr → Option ι) (piece : Addr → ι → χ) (turn : Addr → Except String χ) : Prop where
  item_eq : ∀ off, L.item off = item (source + BitVec.ofNat 64 off)
  bounds : ∀ addr insn, item addr = some insn → 1 ≤ L.size insn ∧ L.size insn ≤ 15
  size_piece : ∀ addr insn, size (piece addr insn) = L.size insn
  failed : ∀ addr, item addr = none →
    turn addr = .error ("Cannot disassemble at " ++ toHexAddr addr.toNat)
  made : ∀ addr insn, item addr = some insn → turn addr = .ok (piece addr insn)

namespace Turns

variable {ι χ ε : Type} {L : Layout ι} {source : Addr} {size : χ → ℕ} {item : Addr → Option ι}
  {piece : Addr → ι → χ} {turn : Addr → Except String χ}

theorem chunk_bounds (h : Turns L source size item piece turn) {addr : Addr} {chunk : χ}
    (hturn : turn addr = .ok chunk) : 1 ≤ size chunk ∧ size chunk ≤ 15 := by
  cases hitem : item addr with
  | none =>
      rw [h.failed addr hitem] at hturn
      cases hturn
  | some insn =>
      rw [h.made addr insn hitem] at hturn
      cases hturn
      rw [h.size_piece]
      exact h.bounds addr insn hitem

/-- The loop covers `minBytes`. -/
theorem loop_eq_cover (h : Turns L source size item piece turn) {minBytes : ℕ}
    {loop : ℕ → Except String (List χ)} (hloop : LoopOf size turn source minBytes loop)
    (off : ℕ) :
    loop off = ((L.cover minBytes off).map (L.pieces
      (fun off insn => piece (source + BitVec.ofNat 64 off) insn) off)).mapError
        (cannotDisassemble source) := by
  apply Layout.eq_cover hloop.done
  · intro off hlt hnone
    exact hloop.failed off _ hlt (h.failed _ (h.item_eq off ▸ hnone))
  · intro off insn hlt hitem
    rw [hloop.went off _ hlt (h.made _ insn (h.item_eq off ▸ hitem)), h.size_piece]

theorem loop_ends (h : Turns L source size item piece turn) {minBytes : BitVec 64}
    {loop : ℕ → Except String (List χ)} (hloop : LoopOf size turn source minBytes.toNat loop)
    (hfit : minBytes.toNat + 14 < 2 ^ 64) :
    ∃ turns, relocateLoop size turn source minBytes turns 0 =
      some ((loop 0).map fun chunks => (BitVec.ofNat 64 (chunks.map size).sum, chunks)) := by
  have hends := relocateLoop_ends hloop (fun _ _ => h.chunk_bounds) hfit (Nat.zero_le _)
  simp only [Nat.zero_add] at hends
  exact hends

theorem consumesWhole (h : Turns L source size item piece turn) {minBytes : ℕ}
    {loop : ℕ → Except String (List χ)} (hloop : LoopOf size turn source minBytes loop)
    {code : χ → List ε} {Stands : Addr → ι → List ε → Prop} {jumpBack : Addr → List ε}
    (hstands : ∀ addr insn, item addr = some insn → Stands addr insn (code (piece addr insn)))
    (hfit : minBytes + 14 < 2 ^ 64) :
    ConsumesWhole L Stands jumpBack source minBytes
      ((loop 0).map fun chunks => ((chunks.map size).sum, chunks.flatMap code ++
        jumpBack (source + BitVec.ofNat 64 (chunks.map size).sum))) := by
  rw [h.loop_eq_cover hloop]
  apply consumesWhole_cover _ _ _ hfit
  · intro off insn hitem
    exact (h.bounds _ insn (h.item_eq off ▸ hitem)).2
  · intro off insn
    exact h.size_piece _ insn
  · intro off insn hitem
    exact hstands _ insn (h.item_eq off ▸ hitem)

end Turns

/-! ## §3  The x86_64 build -/

namespace CodeRelocator

/-- What may stand for the instruction at `addr`: its own bytes, unless it has an operand that is
an address and is a transfer to it. -/
inductive Stands (mem : Memory) (addr : Addr) (insn : CsInsn) : List Byte → Prop
  | plain (h : insn.pcOperand addr = none) : Stands mem addr insn (readBytes mem addr insn.size)
  | jmp (target : Addr) (h : insn.pcOperand addr = some target) (hfirst : mem addr = 0xE9) :
      Stands mem addr insn (generatePatchBytes .x64 target)
  | call (target : Addr) (h : insn.pcOperand addr = some target) (hfirst : mem addr = 0xE8) :
      Stands mem addr insn (callMem target)
  | branch (target : Addr) (h : insn.pcOperand addr = some target)
      (hfirst : mem addr ≠ 0xE9 ∧ mem addr ≠ 0xE8)
      (hgroups : .jump ∈ insn.groups ∧ .call ∉ insn.groups) :
      Stands mem addr insn
        (jumpUnless (conditionCode (mem addr) (mem (addr + 1))) target)
  | reference (target : Addr) (h : insn.pcOperand addr = some target)
      (hfirst : mem addr ≠ 0xE9 ∧ mem addr ≠ 0xE8)
      (hgroups : ¬ (.jump ∈ insn.groups ∧ .call ∉ insn.groups)) :
      Stands mem addr insn (readBytes mem addr insn.size)

/-- The body of the loop. -/
def relocateTurn (cs : CsDisasm) (mem : Memory) (addr : Addr) : Except String Chunk :=
  let insnSize := disassembleOne cs mem addr
  if insnSize = 0 then .error ("Cannot disassemble at " ++ toHexAddr addr.toNat)
  else .ok ⟨insnSize, relocateInsn cs mem addr⟩

section Consumes

variable {cs : BoundedDisasm CsInsn CsInsn.size} {mem : Memory} {source addr : Addr}

theorem bounds_of_csDisasm {insn : CsInsn} (h : csDisasm cs.decode mem addr = some insn) :
    1 ≤ insn.size ∧ insn.size ≤ 15 := by
  unfold csDisasm at h
  split_ifs at h
  exact cs.bounds _ _ _ h

/-- The instructions from `source` on. -/
def insns (cs : BoundedDisasm CsInsn CsInsn.size) (mem : Memory) (source : Addr) :
    Layout CsInsn where
  item off := csDisasm cs.decode mem (source + BitVec.ofNat 64 off)
  size := CsInsn.size
  size_pos _ _ h := (bounds_of_csDisasm h).1

theorem relocateTurn_of_none (h : csDisasm cs.decode mem addr = none) :
    relocateTurn cs.decode mem addr =
      .error ("Cannot disassemble at " ++ toHexAddr addr.toNat) := by
  have hzero : disassembleOne cs.decode mem addr = 0 := by rw [disassembleOne, h]
  rw [relocateTurn, hzero, if_pos rfl]

theorem relocateTurn_of_some {insn : CsInsn} (h : csDisasm cs.decode mem addr = some insn) :
    relocateTurn cs.decode mem addr = .ok ⟨insn.size, relocateInsn cs.decode mem addr⟩ := by
  have hsize : disassembleOne cs.decode mem addr = insn.size := by rw [disassembleOne, h]
  rw [relocateTurn, hsize, if_neg (Nat.one_le_iff_ne_zero.mp (bounds_of_csDisasm h).1)]

/-- The loop goes on behind what a turn took. -/
theorem loopOf_relocateInsns (minBytes : ℕ) :
    LoopOf Chunk.size (relocateTurn cs.decode mem) source minBytes
      (relocateInsns cs.decode mem source minBytes) := by
  constructor
  · intro off hle
    rw [relocateInsns, if_neg (Nat.not_lt.mpr hle)]
  · intro off e hlt hturn
    rw [relocateInsns, if_pos hlt]
    dsimp only [relocateTurn] at hturn ⊢
    split_ifs at hturn ⊢ with hzero
    rw [Except.error.inj hturn]
  · intro off chunk hlt hturn
    rw [relocateInsns, if_pos hlt]
    dsimp only [relocateTurn] at hturn ⊢
    split_ifs at hturn ⊢ with hzero
    cases hturn
    dsimp only
    cases relocateInsns cs.decode mem source minBytes (off + _) <;> rfl

theorem stands_relocateInsn {insn : CsInsn} (h : csDisasm cs.decode mem addr = some insn) :
    Stands mem addr insn (relocateInsn cs.decode mem addr) := by
  have hsize : disassembleOne cs.decode mem addr = insn.size := by rw [disassembleOne, h]
  cases hop : insn.pcOperand addr with
  | none =>
      have hemitted : relocateInsn cs.decode mem addr = readBytes mem addr insn.size := by
        simp [relocateInsn, analyzeInstruction, h, hop, hsize]
      rw [hemitted]
      exact .plain hop
  | some target =>
      simp only [relocateInsn, analyzeInstruction, h, hop, hsize, Option.isSome_some, if_true,
        Option.getD_some]
      split_ifs with hjmp hcall hbranch
      · exact .jmp target hop hjmp
      · exact .call target hop hcall
      · exact .branch target hop ⟨hjmp, hcall⟩ (by simpa using hbranch)
      · exact .reference target hop ⟨hjmp, hcall⟩ (by simpa using hbranch)

theorem turns : Turns (insns cs mem source) source Chunk.size (csDisasm cs.decode mem)
    (fun addr insn => ⟨insn.size, relocateInsn cs.decode mem addr⟩)
    (relocateTurn cs.decode mem) where
  item_eq _ := rfl
  bounds _ _ := bounds_of_csDisasm
  size_piece _ _ := rfl
  failed _ := relocateTurn_of_none
  made _ _ := relocateTurn_of_some

theorem map_buildRelocatedCode {β : Type} (minBytes : ℕ) (base : Addr) (f : List Chunk → β) :
    ((buildRelocatedCode cs.decode mem source minBytes (some base)).map fun built => f built.2) =
      (relocateInsns cs.decode mem source minBytes 0).map f := by
  unfold buildRelocatedCode
  cases relocateInsns cs.decode mem source minBytes 0 <;> rfl

theorem consumesWhole {minBytes : ℕ} (base : Addr) (hfit : minBytes + 14 < 2 ^ 64) :
    ConsumesWhole (insns cs mem source) (Stands mem) (generatePatchBytes .x64) source minBytes
      ((buildRelocatedCode cs.decode mem source minBytes (some base)).map fun built =>
        (bytesConsumed built.2, block source built.2)) := by
  rw [map_buildRelocatedCode minBytes base fun chunks =>
    (bytesConsumed chunks, block source chunks)]
  exact turns.consumesWhole (loopOf_relocateInsns minBytes) (fun _ _ => stands_relocateInsn) hfit

theorem loop_ends {minBytes : BitVec 64} (base : Addr) (hfit : minBytes.toNat + 14 < 2 ^ 64) :
    ∃ turns, relocateLoop Chunk.size (relocateTurn cs.decode mem) source minBytes turns 0 =
      some ((buildRelocatedCode cs.decode mem source minBytes.toNat (some base)).map
        fun built => (BitVec.ofNat 64 (bytesConsumed built.2), built.2)) := by
  rw [map_buildRelocatedCode minBytes.toNat base fun chunks =>
    (BitVec.ofNat 64 (bytesConsumed chunks), chunks)]
  exact turns.loop_ends (loopOf_relocateInsns minBytes.toNat) hfit

end Consumes

end CodeRelocator

/-! ## §4  The ARM64 build -/

namespace Arm64Relocator

/-- What may stand for the instruction at `addr`: its own bytes, unless it has an operand that is
an address and is one of four instructions. -/
inductive Stands (mem : Memory) (addr : Addr) (insn : CsInsn) : List Emitted → Prop
  | plain (h : insn.immediate = none) :
      Stands mem addr insn [.embed (readBytes mem addr insn.size)]
  | b (target : Addr) (h : insn.immediate = some target) (hname : insn.mnemonic = "b") :
      Stands mem addr insn [.mov 16 target, .br 16]
  | bl (target : Addr) (h : insn.immediate = some target) (hname : insn.mnemonic = "bl") :
      Stands mem addr insn [.mov 16 target, .blr 16]
  | address (target : Addr) (h : insn.immediate = some target)
      (hname : insn.mnemonic = "adr" ∨ insn.mnemonic = "adrp") :
      Stands mem addr insn
        [.mov ((Arm64.word (readBytes mem addr 4) &&& 0x1F).setWidth 5) target]
  | reference (target : Addr) (h : insn.immediate = some target)
      (hname : insn.mnemonic ∉ ["b", "bl", "adr", "adrp"]) :
      Stands mem addr insn [.embed (readBytes mem addr insn.size)]

/-- The body of the loop. -/
def relocateTurn (cs : CsDisasm) (mem : Memory) (addr : Addr) : Except String Chunk :=
  let insnSize := (disassembleOne cs mem addr).size
  if insnSize = 0 then .error ("Cannot disassemble at " ++ toHexAddr addr.toNat)
  else .ok ⟨insnSize, relocateInsn cs mem addr⟩

/-- The chunks and the jump back. -/
def block (source : Addr) (chunks : List Chunk) : List Emitted :=
  chunks.flatMap Chunk.code ++ jumpBack source chunks

section Consumes

variable {cs : BoundedDisasm CsInsn CsInsn.size} {mem : Memory} {source addr : Addr}

theorem bounds_of_csDisasm {insn : CsInsn} (h : csDisasm cs.decode mem addr = some insn) :
    1 ≤ insn.size ∧ insn.size ≤ 15 := by
  unfold csDisasm at h
  split_ifs at h
  exact cs.bounds _ _ _ h

/-- The instructions from `source` on. -/
def insns (cs : BoundedDisasm CsInsn CsInsn.size) (mem : Memory) (source : Addr) :
    Layout CsInsn where
  item off := csDisasm cs.decode mem (source + BitVec.ofNat 64 off)
  size := CsInsn.size
  size_pos _ _ h := (bounds_of_csDisasm h).1

theorem relocateTurn_of_none (h : csDisasm cs.decode mem addr = none) :
    relocateTurn cs.decode mem addr =
      .error ("Cannot disassemble at " ++ toHexAddr addr.toNat) := by
  have hzero : (disassembleOne cs.decode mem addr).size = 0 := by rw [disassembleOne, h]
  rw [relocateTurn, hzero, if_pos rfl]

theorem relocateTurn_of_some {insn : CsInsn} (h : csDisasm cs.decode mem addr = some insn) :
    relocateTurn cs.decode mem addr = .ok ⟨insn.size, relocateInsn cs.decode mem addr⟩ := by
  have hsize : (disassembleOne cs.decode mem addr).size = insn.size := by rw [disassembleOne, h]
  rw [relocateTurn, hsize, if_neg (Nat.one_le_iff_ne_zero.mp (bounds_of_csDisasm h).1)]

/-- The loop goes on behind what a turn took. -/
theorem loopOf_relocateInsns (minBytes : ℕ) :
    LoopOf Chunk.size (relocateTurn cs.decode mem) source minBytes
      (relocateInsns cs.decode mem source minBytes) := by
  constructor
  · intro off hle
    rw [relocateInsns, if_neg (Nat.not_lt.mpr hle)]
  · intro off e hlt hturn
    rw [relocateInsns, if_pos hlt]
    dsimp only [relocateTurn] at hturn ⊢
    split_ifs at hturn ⊢ with hzero
    rw [Except.error.inj hturn]
  · intro off chunk hlt hturn
    rw [relocateInsns, if_pos hlt]
    dsimp only [relocateTurn] at hturn ⊢
    split_ifs at hturn ⊢ with hzero
    cases hturn
    dsimp only
    cases relocateInsns cs.decode mem source minBytes (off + _) <;> rfl

theorem stands_relocateInsn {insn : CsInsn} (h : csDisasm cs.decode mem addr = some insn) :
    Stands mem addr insn (relocateInsn cs.decode mem addr) := by
  have hone : disassembleOne cs.decode mem addr = ⟨insn.size, insn.mnemonic⟩ := by
    rw [disassembleOne, h]
  cases hop : insn.immediate with
  | none =>
      have hemitted : relocateInsn cs.decode mem addr =
          [.embed (readBytes mem addr insn.size)] := by
        simp [relocateInsn, analyzeInstruction, h, hop, hone]
      rw [hemitted]
      exact .plain hop
  | some target =>
      simp only [relocateInsn, analyzeInstruction, h, hop, hone, Option.isSome_some, if_true,
        Option.getD_some]
      split_ifs with hb hbl hadr
      · exact .b target hop hb
      · exact .bl target hop hbl
      · exact .address target hop hadr
      · exact .reference target hop (by simpa [hb, hbl] using hadr)

theorem turns : Turns (insns cs mem source) source Chunk.size (csDisasm cs.decode mem)
    (fun addr insn => ⟨insn.size, relocateInsn cs.decode mem addr⟩)
    (relocateTurn cs.decode mem) where
  item_eq _ := rfl
  bounds _ _ := bounds_of_csDisasm
  size_piece _ _ := rfl
  failed _ := relocateTurn_of_none
  made _ _ := relocateTurn_of_some

theorem map_buildRelocatedCode {β : Type} (minBytes : ℕ) (base : Addr) (f : List Chunk → β) :
    ((buildRelocatedCode cs.decode mem source minBytes (some base)).map fun built => f built.2) =
      (relocateInsns cs.decode mem source minBytes 0).map f := by
  unfold buildRelocatedCode
  cases relocateInsns cs.decode mem source minBytes 0 <;> rfl

theorem consumesWhole {minBytes : ℕ} (base : Addr) (hfit : minBytes + 14 < 2 ^ 64) :
    ConsumesWhole (insns cs mem source) (Stands mem) (fun target => [.mov 16 target, .br 16])
      source minBytes
      ((buildRelocatedCode cs.decode mem source minBytes (some base)).map fun built =>
        (bytesConsumed built.2, block source built.2)) := by
  rw [map_buildRelocatedCode minBytes base fun chunks =>
    (bytesConsumed chunks, block source chunks)]
  exact turns.consumesWhole (loopOf_relocateInsns minBytes) (fun _ _ => stands_relocateInsn) hfit

theorem loop_ends {minBytes : BitVec 64} (base : Addr) (hfit : minBytes.toNat + 14 < 2 ^ 64) :
    ∃ turns, relocateLoop Chunk.size (relocateTurn cs.decode mem) source minBytes turns 0 =
      some ((buildRelocatedCode cs.decode mem source minBytes.toNat (some base)).map
        fun built => (BitVec.ofNat 64 (bytesConsumed built.2), built.2)) := by
  rw [map_buildRelocatedCode minBytes.toNat base fun chunks =>
    (BitVec.ofNat 64 (bytesConsumed chunks), chunks)]
  exact turns.loop_ends (loopOf_relocateInsns minBytes.toNat) hfit

end Consumes

end Arm64Relocator

/-! ## §5  Both builds -/

/-- **Whole instructions.** The loop ends for every number of bytes that leaves room for one more
instruction in a `size_t`, with the block of the instructions that it consumed. -/
theorem buildRelocatedCode_consumesWhole (mem : Memory) (source base : Addr)
    (minBytes : BitVec 64) (hfit : minBytes.toNat + 14 < 2 ^ 64) :
    (∀ cs : BoundedDisasm CodeRelocator.CsInsn CodeRelocator.CsInsn.size,
      (∃ turns, relocateLoop CodeRelocator.Chunk.size (CodeRelocator.relocateTurn cs.decode mem)
        source minBytes turns 0 =
          some ((CodeRelocator.buildRelocatedCode cs.decode mem source minBytes.toNat
            (some base)).map fun built =>
              (BitVec.ofNat 64 (CodeRelocator.bytesConsumed built.2), built.2))) ∧
      ConsumesWhole (CodeRelocator.insns cs mem source) (CodeRelocator.Stands mem)
        (generatePatchBytes .x64) source minBytes.toNat
        ((CodeRelocator.buildRelocatedCode cs.decode mem source minBytes.toNat (some base)).map
          fun built =>
            (CodeRelocator.bytesConsumed built.2, CodeRelocator.block source built.2))) ∧
    ∀ cs : BoundedDisasm Arm64Relocator.CsInsn Arm64Relocator.CsInsn.size,
      (∃ turns, relocateLoop Arm64Relocator.Chunk.size (Arm64Relocator.relocateTurn cs.decode mem)
        source minBytes turns 0 =
          some ((Arm64Relocator.buildRelocatedCode cs.decode mem source minBytes.toNat
            (some base)).map fun built =>
              (BitVec.ofNat 64 (Arm64Relocator.bytesConsumed built.2), built.2))) ∧
      ConsumesWhole (Arm64Relocator.insns cs mem source) (Arm64Relocator.Stands mem)
        (fun target => [.mov 16 target, .br 16]) source minBytes.toNat
        ((Arm64Relocator.buildRelocatedCode cs.decode mem source minBytes.toNat (some base)).map
          fun built =>
            (Arm64Relocator.bytesConsumed built.2, Arm64Relocator.block source built.2)) := by
  constructor
  · intro cs
    exact ⟨CodeRelocator.loop_ends base hfit, CodeRelocator.consumesWhole base hfit⟩
  · intro cs
    exact ⟨Arm64Relocator.loop_ends base hfit, Arm64Relocator.consumesWhole base hfit⟩

/-! A call and a load of ten bytes under a patch of fourteen, and two-byte instructions
everywhere. -/

section Decoded

open CodeRelocator

/-- `CALL rel32`, `MOVABS RAX, imm64` and `XCHG AX, AX`. -/
def fewDecode : CsDisasm := fun bytes addr =>
  match bytes with
  | 0xE8 :: b0 :: b1 :: b2 :: b3 :: _ =>
      some ⟨5, [.call, .branchRelative], [.imm (addr + 5 + (b3 ++ b2 ++ b1 ++ b0).signExtend 64)]⟩
  | 0x48 :: 0xB8 :: b0 :: b1 :: b2 :: b3 :: b4 :: b5 :: b6 :: b7 :: _ =>
      some ⟨10, [], [.other, .imm (b7 ++ b6 ++ b5 ++ b4 ++ b3 ++ b2 ++ b1 ++ b0)]⟩
  | 0x66 :: 0x90 :: _ => some ⟨2, [], [.other, .other]⟩
  | _ => none

def fewDisasm : BoundedDisasm CsInsn CsInsn.size where
  decode := fewDecode
  bounds := by
    intro bytes addr insn h
    unfold fewDecode at h
    split at h
    · obtain rfl := Option.some.inj h
      simp
    · obtain rfl := Option.some.inj h
      simp
    · obtain rfl := Option.some.inj h
      simp
    · cases h

/-- `CALL +0x100; MOVABS RAX, 0x1122334455667788`. -/
def callThenLoad : Memory := writeBytes (fun _ => 0) 0x1000
  [0xE8, 0x00, 0x01, 0x00, 0x00, 0x48, 0xB8, 0x88, 0x77, 0x66, 0x55, 0x44, 0x33, 0x22, 0x11]

theorem callThenLoad_built :
    buildRelocatedCode fewDisasm.decode callThenLoad 0x1000 14 (some 0x9000) =
      .ok (0x9000, [⟨5, callMem 0x1105⟩, ⟨10, readBytes callThenLoad 0x1005 10⟩]) := by
  have hloop := @loopOf_relocateInsns fewDisasm callThenLoad 0x1000 14
  have hinsns : relocateInsns fewDisasm.decode callThenLoad 0x1000 14 0 =
      .ok [⟨5, callMem 0x1105⟩, ⟨10, readBytes callThenLoad 0x1005 10⟩] := by
    have hlast : relocateInsns fewDisasm.decode callThenLoad 0x1000 14 15 = .ok [] :=
      hloop.done 15 (by decide)
    have hload : relocateInsns fewDisasm.decode callThenLoad 0x1000 14 5 =
        .ok [⟨10, readBytes callThenLoad 0x1005 10⟩] :=
      (hloop.went 5 ⟨10, readBytes callThenLoad 0x1005 10⟩ (by decide) rfl).trans
        (congrArg (Except.map _) hlast)
    exact (hloop.went 0 ⟨5, callMem 0x1105⟩ (by decide) rfl).trans
      (congrArg (Except.map _) hload)
  rw [buildRelocatedCode, hinsns]

theorem buildRelocatedCode_consumesWhole_fifteen :
    (14 : BitVec 64).toNat + 14 < 2 ^ 64 ∧
      ∃ turns, relocateLoop Chunk.size (relocateTurn fewDisasm.decode callThenLoad) 0x1000 14
        turns 0 =
          some (.ok (15, [⟨5, callMem 0x1105⟩, ⟨10, readBytes callThenLoad 0x1005 10⟩])) := by
  refine ⟨by decide, ?_⟩
  obtain ⟨turns, hturns⟩ := ((buildRelocatedCode_consumesWhole callThenLoad 0x1000 0x9000 14
    (by decide)).1 fewDisasm).1
  refine ⟨turns, hturns.trans ?_⟩
  rw [show (14 : BitVec 64).toNat = 14 from rfl, callThenLoad_built]
  rfl

/-- `XCHG AX, AX` at every odd address. -/
def twoByteNops : Memory := fun addr => if addr.toNat % 2 = 1 then 0x66 else 0x90

theorem relocateTurn_twoByteNops {addr : Addr} (hodd : addr.toNat % 2 = 1) :
    ∃ chunk, relocateTurn fewDisasm.decode twoByteNops addr = .ok chunk ∧ chunk.size = 2 := by
  have hne : addr ≠ 0 := by
    rintro rfl
    cases hodd
  have hfirst : twoByteNops addr = 0x66 := if_pos hodd
  have hsecond : twoByteNops (addr + 1) = 0x90 := if_neg (by bv_omega)
  have hwindow : readBytes twoByteNops addr 16 = 0x66 :: 0x90 :: (List.range 14).map fun i =>
      twoByteNops (addr + BitVec.ofNat 64 (i + 2)) := by
    rw [← hfirst, ← hsecond]
    simp [readBytes, List.range_succ_eq_map]
  have hinsn : csDisasm fewDisasm.decode twoByteNops addr = some ⟨2, [], [.other, .other]⟩ := by
    rw [csDisasm, if_neg hne, hwindow]
    rfl
  exact ⟨_, relocateTurn_of_some hinsn, rfl⟩

/-- An offset that only meets even numbers wraps before it reaches the last `size_t`. -/
theorem relocateLoop_endless :
    ¬ ∃ turns result, relocateLoop Chunk.size (relocateTurn fewDisasm.decode twoByteNops) 1
      (BitVec.allOnes 64) turns 0 = some result := by
  rintro ⟨turns, result, hresult⟩
  have hall : ∀ turns (off : BitVec 64), off.toNat % 2 = 0 →
      relocateLoop Chunk.size (relocateTurn fewDisasm.decode twoByteNops) 1 (BitVec.allOnes 64)
        turns off = none := by
    intro turns
    induction turns with
    | zero => intro off _; rfl
    | succ turns ih =>
        intro off heven
        have hlt : off < BitVec.allOnes 64 := by
          rw [BitVec.lt_def, BitVec.toNat_allOnes]
          omega
        obtain ⟨chunk, hturn, hsize⟩ := @relocateTurn_twoByteNops (1 + off) (by bv_omega)
        rw [relocateLoop, if_pos hlt, hturn]
        dsimp only
        rw [hsize, ih _ (by bv_omega)]
        rfl
  rw [hall turns 0 rfl] at hresult
  cases hresult

end Decoded

end Chromatic
