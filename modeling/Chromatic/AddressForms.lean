import Chromatic.CallbackHandler

/-!
# Addresses in text and as bigints

`ptr` reads an address back from its hexadecimal text and from a bigint, and the same
conversion stands behind the pointer results of `NativeFunction`, the pointer arguments of
`NativeCallback` and the `cpuContext` of the interceptor. Each goes through a double.

§1 one conversion · §2 the forms of an address.
-/

namespace Chromatic

open Foundation Foundation.X86 NativeFunction InterceptorScript CallbackHandler

namespace AddressForms

/-! ## §1  One conversion -/

/-- The bits of `a` behind the 53 that begin with its leading one are zero. -/
def Fits (a : Addr) : Prop := 2 ^ (a.toNat.log2 - 52) ∣ a.toNat

instance (a : Addr) : Decidable (Fits a) := inferInstanceAs (Decidable (_ ∣ _))

/-- Rounding gives the address back only where there is nothing to round. -/
theorem ofNat_roundDouble_iff {a : Addr} :
    BitVec.ofNat 64 (roundDouble a.toNat) = a ↔ Fits a := by
  rw [Fits, ← exact_iff_dvd, Exact]
  constructor
  · intro h
    have hmod : roundDouble a.toNat % 2 ^ 64 = a.toNat := by
      rw [← BitVec.toNat_ofNat, h]
    have hbound : roundDouble a.toNat ≤ 2 ^ 64 := roundDouble_le a.isLt
    rcases hbound.lt_or_eq with hlt | heq
    · rwa [Nat.mod_eq_of_lt hlt] at hmod
    -- 2^64 would come back as 0, and 0 is not rounded up
    · rw [heq, Nat.mod_self] at hmod
      rw [← hmod] at heq
      exact absurd heq (by decide)
  · intro h
    rw [h, BitVec.ofNat_toNat, BitVec.setWidth_eq]

/-- What `parseInt` and `new NativePointer` make of the text of an address. -/
theorem pointerFromText_iff {a : Addr} :
    pointerFromText (toHexAddr a.toNat) = a ↔ Fits a := by
  rw [pointerFromText, parseInt16_toHexAddr]
  exact ofNat_roundDouble_iff

/-- What `Number` and `new NativePointer` make of the bigint. -/
theorem ofInt_nearest_iff {a : Addr} : BitVec.ofInt 64 (nearest a.toNat) = a ↔ Fits a := by
  have hnearest : nearest a.toNat = (roundDouble a.toNat : ℤ) := by
    rcases Nat.eq_zero_or_pos a.toNat with hzero | hpos
    · simp [hzero, nearest, roundDouble]
    · simp [nearest, Int.sign_natCast_of_ne_zero hpos.ne']
  rw [hnearest, BitVec.ofInt_natCast]
  exact ofNat_roundDouble_iff

/-! ## §2  The forms of an address -/

/-- The ways on which a script comes by an address that native code or another script has. -/
inductive Form where
  | text
  | bigint
  | functionResult
  | callbackArgument
  | cpuContext
deriving DecidableEq, Repr

/-- `a` arrives as `a`. For a function that is every call that returns `a`, for a callback
every pointer among the arguments, and for the interceptor every access to the saved words. -/
def Form.Keeps (a : Addr) : Form → Prop
  | .text => ptr (.string (toHexAddr a.toNat)) = a
  | .bigint => ptr (.bigint a.toNat) = a
  | .functionResult =>
      ∀ target env argTypes abi args text,
        callFunction target env "pointer" argTypes (serializeArgs argTypes args) abi = .ok text →
        (∀ words, env.call words = a) →
        _call target env "pointer" argTypes abi args = .ok (.nativePointer a)
  | .callbackArgument =>
      ∀ env argTypes args, ∀ i : ℕ, argTypes[i]? = some "pointer" → args[i]? = some a →
        (received env argTypes args)[i]? = some (.nativePointer a)
  | .cpuContext =>
      ∀ arch,
        (∀ idx, argPtr arch (toHexAddr a.toNat) idx =
          match arch with
          | .arm64 => some (slot a idx)
          | .x64 => regOffsets[idx]?.map (slot a)) ∧
        retvalPtr arch (toHexAddr a.toNat) =
          match arch with
          | .arm64 => a
          | .x64 => slot a 14

/-- A call that returns `a` prints it. -/
theorem _call_pointer {target : Target} {env : Outside} {argTypes : List String} {abi : String}
    {args : List JsArg} {text : String} {a : Addr}
    (hcall : callFunction target env "pointer" argTypes (serializeArgs argTypes args) abi =
      .ok text)
    (hreturns : ∀ words, env.call words = a) :
    _call target env "pointer" argTypes abi args =
      .ok (.nativePointer (pointerFromText (toHexAddr a.toNat))) := by
  have htext : text = toHexAddr a.toNat := by
    unfold callFunction at hcall
    cases hprep : env.prepCif (getFFIAbi target abi) (getFFIType "pointer")
        (argTypes.map getFFIType) with
    | false => simp [hprep, throw, throwThe, MonadExceptOf.throw, bind, Except.bind] at hcall
    | true =>
        cases hstore : storeArgs env (argTypes.map getFFIType)
            (serializeArgs argTypes args) with
        | error e => simp [hprep, hstore, bind, Except.bind] at hcall
        | ok words =>
            have hformat : formatReturn env "pointer" (env.call words) = text := by
              simpa [hprep, hstore, bind, Except.bind, pure, Except.pure] using hcall
            rw [← hformat, hreturns]
            rfl
  unfold _call
  rw [hcall, htext]
  rfl

/-- A pointer in a slot of the closure is printed and read. -/
theorem received_pointer {env : Outside} {argTypes : List String} {args : List (BitVec 64)}
    {i : ℕ} {a : Addr} (htype : argTypes[i]? = some "pointer") (harg : args[i]? = some a) :
    (received env argTypes args)[i]? =
      some (.nativePointer (pointerFromText (toHexAddr a.toNat))) := by
  have htext : (List.zipWith (readSlot env) (argTypes.map getFFIType) args)[i]? =
      some (toHexAddr a.toNat) := by
    rw [List.getElem?_zipWith, List.getElem?_map, htype, harg]
    rfl
  rw [received, convertArgs, List.getElem?_mapIdx, htext, htype]
  rfl

/-- Whichever way an address takes, it arrives as itself under the same condition. -/
theorem Form.keeps_iff (form : Form) (a : Addr) : form.Keeps a ↔ Fits a := by
  rw [← pointerFromText_iff]
  cases form with
  | text => exact Iff.rfl
  | bigint =>
      rw [pointerFromText_iff]
      exact ofInt_nearest_iff
  | functionResult =>
      constructor
      · intro h
        have hcall := h ⟨.x64, .linux⟩ (returning a) [] "default" [] (toHexAddr a.toNat) rfl
          fun _ => rfl
        rw [_call_pointer rfl fun _ => rfl] at hcall
        exact JsResult.nativePointer.inj (Except.ok.inj hcall)
      · intro h target env argTypes abi args text hcall hreturns
        rw [_call_pointer hcall hreturns, h]
  | callbackArgument =>
      constructor
      · intro h
        have hargs := h (returning a) ["pointer"] [a] 0 rfl rfl
        rw [received_pointer rfl rfl] at hargs
        exact JsParam.nativePointer.inj (Option.some.inj hargs)
      · intro h env argTypes args i htype harg
        rw [received_pointer htype harg, h]
  | cpuContext =>
      constructor
      · intro h
        exact (h .arm64).2
      · intro h arch
        cases arch with
        | arm64 => exact ⟨fun idx => congrArg (fun p => some (slot p idx)) h, h⟩
        | x64 =>
            refine ⟨fun idx => ?_, congrArg (fun p => slot p 14) h⟩
            simp only [argPtr, h]

/-- **Addresses in other forms.** An address arrives as itself in every form exactly when the
bits behind the 53 that begin with its leading one are zero; otherwise in none. -/
theorem addresses_kept_iff (a : Addr) :
    ((∀ form : Form, form.Keeps a) ↔ Fits a) ∧ ((∃ form : Form, form.Keeps a) → Fits a) := by
  constructor
  · constructor
    · intro h
      exact (Form.text.keeps_iff a).mp (h .text)
    · intro h form
      exact (form.keeps_iff a).mpr h
  · rintro ⟨form, h⟩
    exact (form.keeps_iff a).mp h

/-- A heap address with a tag in its top byte. -/
def tagged : Addr := 0xB400007FFFFFF001

/-- The address next to the tagged one is read in its place. -/
theorem tagged_lost :
    toHexAddr tagged.toNat = "0xb400007ffffff001" ∧
    ptr (.string "0xb400007ffffff001") = 0xB400007FFFFFF000 ∧
    ptr (.bigint 0xB400007FFFFFF001) = 0xB400007FFFFFF000 ∧
    ¬ ∀ (form : Form) (a : Addr), form.Keeps a := by
  refine ⟨by decide +kernel, by decide +kernel, by decide +kernel, ?_⟩
  intro h
  exact absurd (h .text tagged) (by unfold Form.Keeps; decide +kernel)

end AddressForms

end Chromatic
