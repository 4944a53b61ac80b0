import Chromatic.State

/-!
# Writing patches into code

`makeWritableAndPatch`, the jump written at a hooked target and the trap
instruction written at a software breakpoint.

§1 sizes and bytes · §2 writing.
-/

namespace Chromatic

open Foundation

/-! ## §1  Sizes and bytes -/

/-- `PATCH_SIZE`, the length of an absolute jump. -/
def Arch.patchSize : Arch → ℕ
  | .arm64 => 16
  | .x64 => 14

/-- `BP_INSN_SIZE`. -/
def Arch.bpInsnSize : Arch → ℕ
  | .arm64 => 4
  | .x64 => 1

/-- ARM64: `LDR X16, #8; BR X16; .quad target`. x86_64: `JMP [RIP+0]; .quad target`. -/
def generatePatchBytes (arch : Arch) (jumpTarget : Addr) : List Byte :=
  match arch with
  | .arm64 => [0x50, 0x00, 0x00, 0x58] ++ [0x00, 0x02, 0x1F, 0xD6] ++ le64 jumpTarget
  | .x64 => [0xFF, 0x25] ++ [0x00, 0x00, 0x00, 0x00] ++ le64 jumpTarget

/-- ARM64: `BRK #1`. x86_64: `INT3`. -/
def bpInsn : Arch → List Byte
  | .arm64 => [0x20, 0x00, 0x20, 0xD4]
  | .x64 => [0xCC]

@[simp] theorem length_generatePatchBytes (arch : Arch) (j : Addr) :
    (generatePatchBytes arch j).length = arch.patchSize := by
  cases arch <;> rfl

@[simp] theorem length_bpInsn (arch : Arch) : (bpInsn arch).length = arch.bpInsnSize := by
  cases arch <;> rfl

theorem Arch.patchSize_le (arch : Arch) : arch.patchSize ≤ 2 ^ 64 := by
  cases arch <;> decide

/-! ## §2  Writing -/

/-- What the two `mprotect` calls around the `memcpy` answer. -/
inductive PatchOutcome where
  | ok
  | rwDenied
  | rxDenied
deriving DecidableEq, Repr

/-- `makeWritableAndPatch` as the Linux build has it. A refusal of the second
call comes after the bytes are written. -/
def makeWritableAndPatch (outcome : PatchOutcome) (addr : Addr) (data : List Byte)
    (w : World) : Except String Unit × World :=
  match outcome with
  | .ok => (.ok (), { w with code := writeBytes w.code addr data })
  | .rwDenied => (.error "mprotect(RW) failed", w)
  | .rxDenied =>
      (.error "mprotect(RX) failed", { w with code := writeBytes w.code addr data })

theorem makeWritableAndPatch_ok (addr : Addr) (data : List Byte) (w : World) :
    makeWritableAndPatch .ok addr data w =
      (.ok (), { w with code := writeBytes w.code addr data }) := rfl

/-- `toHexAddr`. -/
def toHexAddr (a : ℕ) : String := "0x" ++ String.ofList (Nat.toDigits 16 a)

end Chromatic
