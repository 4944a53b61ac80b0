import Chromatic.InterceptorScript
import Chromatic.Foundation.FloatText

/-!
# NativeFunction

`NativeFunction._call` and `NativeFFI::callFunction`. Arguments and the return value go
through text: JavaScript prints them, `stoll` and `stoull` read them, `to_string` prints the
result, `parseInt` and `BigInt` read it.

§1 numbers in text · §2 types by name · §3 callFunction · §4 _call · §5 integer types ·
§6 arguments · §7 return values · §8 whole calls.
-/

namespace Chromatic

open Foundation

namespace NativeFunction

/-! ## §1  Numbers in text -/

/-- What a call throws. `outOfBounds` is a read past the end of `args`, where the code is
undefined. -/
inductive CallError where
  | ffiPrepCif
  | invalidArgument
  | outOfRange
  | outOfBounds
  | syntaxError
deriving DecidableEq, Repr

def isSpace (c : Char) : Bool := c = ' ' ∨ (9 ≤ c.toNat ∧ c.toNat ≤ 13)

/-- `std::stoll(s)`. -/
def stoll (s : String) : Except CallError ℤ :=
  match readSigned (s.toList.dropWhile isSpace) with
  | none => .error .invalidArgument
  | some (v, _) => if -2 ^ 63 ≤ v ∧ v < 2 ^ 63 then .ok v else .error .outOfRange

/-- The leading hexadecimal digits, after `0x` if a digit follows it. -/
def readHexWord (cs : List Char) : Option ℕ :=
  let digits := match cs with
    | '0' :: x :: c :: rest =>
        if (x = 'x' ∨ x = 'X') ∧ (hexDigit c).isSome then c :: rest else cs
    | _ => cs
  match digits with
  | [] => none
  | c :: _ => if (hexDigit c).isSome then some (readHex 0 digits) else none

theorem readHexWord_digits {ds : List Char} (hne : ds ≠ [])
    (hds : ∀ c ∈ ds, (hexDigit c).isSome) : readHexWord ds = some (readHex 0 ds) := by
  unfold readHexWord
  split
  · rename_i x c rest
    have hx : ¬ (x = 'x' ∨ x = 'X') := by
      have hdigit := hds x (by simp)
      rintro (rfl | rfl) <;> exact absurd hdigit (by decide)
    rw [if_neg (fun h => hx h.1)]
    rfl
  · cases ds with
    | nil => exact absurd rfl hne
    | cons c cs => exact if_pos (hds c List.mem_cons_self)

theorem readHexWord_prefixed {ds : List Char} (hne : ds ≠ [])
    (hds : ∀ c ∈ ds, (hexDigit c).isSome) :
    readHexWord ('0' :: 'x' :: ds) = some (readHex 0 ds) := by
  cases ds with
  | nil => exact absurd rfl hne
  | cons c cs =>
      have hc := hds c List.mem_cons_self
      simp only [readHexWord, hc, true_or, and_self, if_true]

/-- `std::stoull(s, nullptr, 16)`: a minus sign negates the word. -/
def parseHexAddr (s : String) : Except CallError (BitVec 64) :=
  let (negative, cs) := match s.toList.dropWhile isSpace with
    | '-' :: cs => (true, cs)
    | '+' :: cs => (false, cs)
    | cs => (false, cs)
  match readHexWord cs with
  | none => .error .invalidArgument
  | some n =>
      if n < 2 ^ 64 then .ok (if negative then -BitVec.ofNat 64 n else BitVec.ofNat 64 n)
      else .error .outOfRange

/-- `parseInt(s, 10)`; `none` is `NaN`. The number is a double. -/
def parseInt10 (s : String) : Option ℤ :=
  (readSigned (s.toList.dropWhile isSpace)).map fun p => p.1.sign * roundDouble p.1.natAbs

/-- `BigInt(s)` of a decimal text. -/
def bigInt (s : String) : Except CallError ℤ :=
  match readSigned (s.toList.dropWhile isSpace) with
  | some (v, []) => .ok v
  | _ => .error .syntaxError

/-! ## §2  Types by name -/

inductive FfiType where
  | void
  | sint8
  | uint8
  | sint16
  | uint16
  | sint32
  | uint32
  | sint64
  | uint64
  | float
  | double
  | pointer
deriving DecidableEq, Repr

def getFFIType (typeName : String) : FfiType :=
  if typeName = "void" then .void
  else if typeName = "int" ∨ typeName = "int32" ∨ typeName = "sint32" then .sint32
  else if typeName = "uint" ∨ typeName = "uint32" then .uint32
  else if typeName = "long" ∨ typeName = "int64" ∨ typeName = "sint64" then .sint64
  else if typeName = "ulong" ∨ typeName = "uint64" then .uint64
  else if typeName = "int8" ∨ typeName = "sint8" ∨ typeName = "char" then .sint8
  else if typeName = "uint8" ∨ typeName = "uchar" then .uint8
  else if typeName = "int16" ∨ typeName = "sint16" ∨ typeName = "short" then .sint16
  else if typeName = "uint16" ∨ typeName = "ushort" then .uint16
  else if typeName = "float" then .float
  else if typeName = "double" then .double
  else if typeName = "pointer" ∨ typeName = "bool" then .pointer
  else .void

inductive FfiAbi where
  | default
  | win64
  | stdcall
deriving DecidableEq, Repr

def getFFIAbi (target : Target) (abi : String) : FfiAbi :=
  if abi = "default" ∨ abi = "" then .default
  else if target = ⟨.x64, .windows⟩ then if abi = "win64" then .win64 else .default
  else if target.os = .windows then if abi = "stdcall" then .stdcall else .default
  else .default

/-! ## §3  callFunction -/

/-- libffi, the function called, and what is the library's own about floating point: which
numbers too small for a full precision set `ERANGE`, and how the bits returned are printed. -/
structure Outside where
  prepCif : FfiAbi → FfiType → List FfiType → Bool
  call : List (BitVec 64) → BitVec 64
  underflow : Format → ℕ → ℕ → Bool
  floatText : BitVec 64 → String
  doubleText : BitVec 64 → String

/-- `s.find("0x") == 0 || s.find("0X") == 0`. -/
def hexPrefixed (s : String) : Bool :=
  match s.toList with
  | '0' :: 'x' :: _ => true
  | '0' :: 'X' :: _ => true
  | _ => false

/-- `std::stof` and `std::stod`. A text that says infinity is in range. -/
def readBits (env : Outside) (fmt : Format) (s : String) : Except CallError (BitVec 64) :=
  match readFloat (s.toList.dropWhile isSpace) with
  | none => .error .invalidArgument
  | some (negative, .infinity) => .ok (BitVec.ofNat 64 (fmt.signBit negative + fmt.infinityBits))
  | some (negative, .nan) => .ok (BitVec.ofNat 64 (fmt.signBit negative + fmt.nanBits))
  | some (negative, .finite num den) =>
      if fmt.infinityBits ≤ fmt.encode num den then .error .outOfRange
      else if fmt.Subnormal num den ∧ env.underflow fmt num den then .error .outOfRange
      else .ok (BitVec.ofNat 64 (fmt.signBit negative + fmt.encode num den))

def stof (env : Outside) : String → Except CallError (BitVec 64) := readBits env binary32

def stod (env : Outside) : String → Except CallError (BitVec 64) := readBits env binary64

/-- One turn of the loop that fills `argStorage` and `floatStorage`. -/
def storeArg (env : Outside) (type : FfiType) (arg : String) : Except CallError (BitVec 64) :=
  match type with
  | .pointer => parseHexAddr arg
  | .float => stof env arg
  | .double => stod env arg
  | .sint64 | .uint64 =>
      if hexPrefixed arg then parseHexAddr arg else (stoll arg).map (BitVec.ofInt 64)
  | _ =>
      if hexPrefixed arg then (parseHexAddr arg).map fun word => BitVec.ofInt 64 word.toInt
      else (stoll arg).map (BitVec.ofInt 64)

def storeArgs (env : Outside) : List FfiType → List String → Except CallError (List (BitVec 64))
  | [], _ => .ok []
  | _ :: _, [] => .error .outOfBounds
  | type :: types, arg :: args => do
      let word ← storeArg env type arg
      let words ← storeArgs env types args
      return word :: words

/-- `std::to_string` of what `ffi_call` left in `retVal`. -/
def formatReturn (env : Outside) (retType : String) (u64 : BitVec 64) : String :=
  if retType = "void" then "0"
  else if retType = "pointer" then toHexAddr u64.toNat
  else if retType = "float" then env.floatText u64
  else if retType = "double" then env.doubleText u64
  else if retType = "int64" ∨ retType = "sint64" ∨ retType = "long" then toString u64.toInt
  else if retType = "uint64" ∨ retType = "ulong" then toString u64.toNat
  else toString ((u64 &&& 0xFFFFFFFF).setWidth 32).toInt

def callFunction (target : Target) (env : Outside) (retType : String)
    (argTypes args : List String) (abi : String) : Except CallError String := do
  let ffiArgTypes := argTypes.map getFFIType
  if !env.prepCif (getFFIAbi target abi) (getFFIType retType) ffiArgTypes then
    throw .ffiPrepCif
  let argStorage ← storeArgs env ffiArgTypes args
  return formatReturn env retType (env.call argStorage)

/-! ## §4  _call -/

/-- An argument of the call. The numbers are the integers a double holds exactly; `other` is
anything else, by what `String` makes of it. -/
inductive JsArg where
  | nativePointer (value : Addr)
  | string (s : String)
  | number (v : ℤ) (safe : v.natAbs < 2 ^ 53)
  | bigint (v : ℤ)
  | other (text : String)

/-- `'0x' + v.toString(16)`. -/
def hexText (v : ℤ) : String :=
  if 0 ≤ v then toHexAddr v.toNat
  else "0x-" ++ String.ofList (Nat.toDigits 16 v.natAbs)

def serializeArg (type : Option String) (arg : JsArg) : String :=
  if type = some "pointer" then
    match arg with
    | .nativePointer value => toHexAddr value.toNat
    | .string s => s
    | .number v _ => hexText v
    | .bigint v => hexText v
    | .other _ => "0x0"
  else
    match arg with
    | .nativePointer value => toHexAddr value.toNat
    | .string s => s
    | .number v _ => toString v
    | .bigint v => toString v
    | .other text => text

/-- A result, `float` by the text that `parseFloat` reads. -/
inductive JsResult where
  | undefined
  | nativePointer (value : Addr)
  | float (text : String)
  | bigint (v : ℤ)
  | number (v : ℤ)
  | nan
deriving DecidableEq, Repr

def parseResult (retType result : String) : Except CallError JsResult :=
  if retType = "void" then .ok .undefined
  else if retType = "pointer" then
    .ok (.nativePointer (InterceptorScript.pointerFromText result))
  else if retType = "float" ∨ retType = "double" then .ok (.float result)
  else if retType = "int64" ∨ retType = "uint64" ∨ retType = "long" ∨ retType = "ulong" then
    (bigInt result).map .bigint
  else
    match parseInt10 result with
    | none => .ok .nan
    | some v => .ok (.number v)

def serializeArgs (argTypes : List String) (args : List JsArg) : List String :=
  args.mapIdx fun i arg => serializeArg argTypes[i]? arg

def _call (target : Target) (env : Outside) (retType : String) (argTypes : List String)
    (abi : String) (args : List JsArg) : Except CallError JsResult := do
  let result ← callFunction target env retType argTypes (serializeArgs argTypes args) abi
  parseResult retType result

/-! ## §5  Integer types -/

/-- The integer members of `NativeType`. -/
inductive IntegerType where
  | int | uint
  | int8 | uint8
  | int16 | uint16
  | int32 | uint32
  | int64 | uint64
  | long | ulong
  | char | uchar
  | short | ushort
deriving DecidableEq, Repr

namespace IntegerType

def name : IntegerType → String
  | .int => "int"
  | .uint => "uint"
  | .int8 => "int8"
  | .uint8 => "uint8"
  | .int16 => "int16"
  | .uint16 => "uint16"
  | .int32 => "int32"
  | .uint32 => "uint32"
  | .int64 => "int64"
  | .uint64 => "uint64"
  | .long => "long"
  | .ulong => "ulong"
  | .char => "char"
  | .uchar => "uchar"
  | .short => "short"
  | .ushort => "ushort"

def signed : IntegerType → Bool
  | .int | .int8 | .int16 | .int32 | .int64 | .long | .char | .short => true
  | .uint | .uint8 | .uint16 | .uint32 | .uint64 | .ulong | .uchar | .ushort => false

def width : IntegerType → ℕ
  | .int8 | .uint8 | .char | .uchar => 8
  | .int16 | .uint16 | .short | .ushort => 16
  | .int | .uint | .int32 | .uint32 => 32
  | .int64 | .uint64 | .long | .ulong => 64

def InRange (type : IntegerType) (v : ℤ) : Prop :=
  if type.signed then -2 ^ (type.width - 1) ≤ v ∧ v < 2 ^ (type.width - 1)
  else 0 ≤ v ∧ v < 2 ^ type.width

/-- A full register that holds `v` as libffi widens it. -/
def widen (type : IntegerType) (v : ℤ) : BitVec 64 :=
  if type.signed then (BitVec.ofInt type.width v).signExtend 64
  else (BitVec.ofInt type.width v).setWidth 64

theorem width_pos (type : IntegerType) : 0 < type.width := by
  cases type <;> decide

theorem width_le (type : IntegerType) : type.width ≤ 64 := by
  cases type <;> decide

theorem widen_eq {type : IntegerType} {v : ℤ} (h : type.InRange v) :
    type.widen v = BitVec.ofInt 64 v := by
  unfold InRange at h
  unfold widen
  by_cases hsigned : type.signed = true
  · rw [if_pos hsigned] at h ⊢
    exact signExtend_ofInt type.width_pos h.1 h.2
  · rw [if_neg hsigned] at h ⊢
    exact zeroExtend_ofInt h.1 h.2

/-- The upper half of 64 bits unsigned is not read by `stoll`. -/
def Readable (type : IntegerType) (v : ℤ) : Prop :=
  type.signed = false → type.width = 64 → v < 2 ^ 63

/-- The upper half of 32 bits unsigned is printed as a negative number. -/
def Printable (type : IntegerType) (v : ℤ) : Prop :=
  type.signed = false → type.width = 32 → v < 2 ^ 31

theorem readable_iff {type : IntegerType} {v : ℤ} (h : type.InRange v) :
    type.Readable v ↔ -2 ^ 63 ≤ v ∧ v < 2 ^ 63 := by
  unfold InRange at h
  unfold Readable
  cases type <;> simp only [signed, width] at h ⊢ <;> norm_num at h ⊢ <;> omega

theorem printable_iff {type : IntegerType} {v : ℤ} (h : type.InRange v)
    (hwidth : type.width ≠ 64) : type.Printable v ↔ -2 ^ 31 ≤ v ∧ v < 2 ^ 31 := by
  unfold InRange at h
  unfold Printable
  cases type <;> simp [signed, width] at h hwidth ⊢ <;> omega

end IntegerType

/-! ## §6  Arguments -/

/-- From the digits on no character is a blank. -/
theorem isSpace_eq_false {c : Char} (h : '0' ≤ c) : isSpace c = false := by
  have hval : 48 ≤ c.toNat := h
  simp only [isSpace, decide_eq_false_iff_not, not_or, not_and, not_le]
  refine ⟨?_, fun _ => by omega⟩
  rintro rfl
  exact absurd hval (by decide)

theorem dropWhile_toString (v : ℤ) :
    (toString v).toList.dropWhile isSpace = (toString v).toList := by
  obtain ⟨c, cs, htext, hc, -⟩ := toString_chars v
  rw [htext, List.dropWhile_cons_of_neg]
  rcases hc with rfl | hdigit
  · decide
  · unfold decDigit at hdigit
    split at hdigit
    · rename_i hrange
      simp only [isSpace_eq_false hrange.1, Bool.false_eq_true, not_false_eq_true]
    · cases hdigit

theorem stoll_toString (v : ℤ) : stoll (toString v) =
    if -2 ^ 63 ≤ v ∧ v < 2 ^ 63 then .ok v else .error .outOfRange := by
  rw [stoll, dropWhile_toString, readSigned_toString]

theorem hexPrefixed_toString (v : ℤ) : hexPrefixed (toString v) = false := by
  obtain ⟨c, cs, htext, -, hdigits⟩ := toString_chars v
  unfold hexPrefixed
  rw [htext]
  split
  · rename_i heq
    obtain ⟨-, rfl⟩ := List.cons.inj heq
    exact absurd (hdigits 'x' List.mem_cons_self) (by decide)
  · rename_i heq
    obtain ⟨-, rfl⟩ := List.cons.inj heq
    exact absurd (hdigits 'X' List.mem_cons_self) (by decide)
  · rfl

/-- Decimal text is read by `stoll` whatever the integer type. -/
theorem storeArg_integer (env : Outside) (type : IntegerType) {arg : String}
    (harg : hexPrefixed arg = false) :
    storeArg env (getFFIType type.name) arg = (stoll arg).map (BitVec.ofInt 64) := by
  cases type <;> simp [IntegerType.name, getFFIType, storeArg, harg]

/-- The integer a number or a bigint stands for. -/
def JsArg.integer : JsArg → Option ℤ
  | .number v _ => some v
  | .bigint v => some v
  | _ => none

/-- An integer of its type's range, as a number or as a bigint. -/
structure IntegerArg where
  type : IntegerType
  arg : JsArg
  value : ℤ
  is : arg.integer = some value
  inRange : type.InRange value

namespace IntegerArg

/-- The low bytes of the argument word are the two's complement of the value. -/
def Encodes (a : IntegerArg) (word : BitVec 64) : Prop :=
  word.setWidth a.type.width = BitVec.ofInt a.type.width a.value

theorem serializeArg_eq (a : IntegerArg) :
    serializeArg (some a.type.name) a.arg = toString a.value := by
  have hpointer : ¬ some a.type.name = some "pointer" := by
    cases a.type <;> decide
  have his := a.is
  unfold serializeArg
  rw [if_neg hpointer]
  cases harg : a.arg with
  | number v safe =>
      rw [harg] at his
      rw [← Option.some.inj his]
  | bigint v =>
      rw [harg] at his
      rw [← Option.some.inj his]
  | nativePointer value => simp [harg, JsArg.integer] at his
  | string s => simp [harg, JsArg.integer] at his
  | other text => simp [harg, JsArg.integer] at his

theorem serializeArgs_eq (args : List IntegerArg) :
    serializeArgs (args.map (·.type.name)) (args.map (·.arg)) =
      args.map fun a => toString a.value := by
  unfold serializeArgs
  apply List.ext_getElem
  · simp
  · intro i hi _
    have hlt : i < args.length := by simpa using hi
    simp [hlt, serializeArg_eq]

theorem storeArg_eq (env : Outside) (a : IntegerArg) :
    (a.type.Readable a.value →
      storeArg env (getFFIType a.type.name) (toString a.value) =
        .ok (BitVec.ofInt 64 a.value)) ∧
    (¬ a.type.Readable a.value →
      storeArg env (getFFIType a.type.name) (toString a.value) = .error .outOfRange) := by
  rw [storeArg_integer env a.type (hexPrefixed_toString _), stoll_toString,
    IntegerType.readable_iff a.inRange]
  constructor
  · intro h
    rw [if_pos h]
    rfl
  · intro h
    rw [if_neg h]
    rfl

theorem encodes_ofInt (a : IntegerArg) : a.Encodes (BitVec.ofInt 64 a.value) :=
  setWidth_ofInt a.type.width_le a.value

/-- All arguments are stored, each as it should be, exactly when each can be read. -/
theorem storeArgs_ok_iff (env : Outside) (args : List IntegerArg) :
    (∃ words, storeArgs env (args.map fun a => getFFIType a.type.name)
        (args.map fun a => toString a.value) = .ok words ∧
      List.Forall₂ Encodes args words) ↔
    ∀ a ∈ args, a.type.Readable a.value := by
  induction args with
  | nil => simp [storeArgs]
  | cons a rest ih =>
      obtain ⟨hok, herror⟩ := a.storeArg_eq env
      simp only [List.map_cons, storeArgs, List.forall_mem_cons]
      by_cases hread : a.type.Readable a.value
      · rw [hok hread]
        constructor
        · rintro ⟨words, hwords, henc⟩
          refine ⟨hread, ih.mp ?_⟩
          cases hrest : storeArgs env (rest.map fun a => getFFIType a.type.name)
              (rest.map fun a => toString a.value) with
          | error e =>
              rw [hrest] at hwords
              cases hwords
          | ok tail =>
              rw [hrest] at hwords
              obtain rfl := Except.ok.inj hwords
              exact ⟨tail, rfl, (List.forall₂_cons.mp henc).2⟩
        · rintro ⟨-, hrest⟩
          obtain ⟨tail, htail, henc⟩ := ih.mpr hrest
          rw [htail]
          exact ⟨_, rfl, .cons a.encodes_ofInt henc⟩
      · rw [herror hread]
        constructor
        · rintro ⟨words, hwords, -⟩
          cases hwords
        · rintro ⟨hread', -⟩
          exact absurd hread' hread

end IntegerArg

/-! ## §7  Return values -/

theorem parseInt10_toString {v : ℤ} (h : v.natAbs < 2 ^ 53) :
    parseInt10 (toString v) = some v := by
  rw [parseInt10, dropWhile_toString, readSigned_toString, Option.map_some,
    roundDouble_of_lt h, Int.sign_mul_natAbs]

theorem bigInt_toString (v : ℤ) : bigInt (toString v) = .ok v := by
  rw [bigInt, dropWhile_toString, readSigned_toString]

/-- The integer a result stands for. -/
def JsResult.integer : JsResult → Option ℤ
  | .number v => some v
  | .bigint v => some v
  | _ => none

/-- The low half of the register, read as `int`. -/
theorem lowHalf_ofInt (v : ℤ) :
    ((BitVec.ofInt 64 v &&& 0xFFFFFFFF).setWidth 32).toInt = v.bmod (2 ^ 32) := by
  have hmask : (BitVec.ofInt 64 v &&& 0xFFFFFFFF).setWidth 32 = BitVec.ofInt 32 v := by
    rw [BitVec.setWidth_and, setWidth_ofInt (by decide) v]
    exact BitVec.and_allOnes
  rw [hmask, BitVec.toInt_ofInt]

theorem lowHalf_natAbs (v : ℤ) : (v.bmod (2 ^ 32)).natAbs < 2 ^ 53 := by
  have hlow := Int.le_bmod (x := v) (m := 2 ^ 32) (by decide)
  have hhigh := Int.bmod_lt (x := v) (m := 2 ^ 32) (by decide)
  omega

section Format

variable (env : Outside) {type : IntegerType} (word : BitVec 64)

theorem formatReturn_wide (hwidth : type.width = 64) : formatReturn env type.name word =
    if type.signed then toString word.toInt else toString word.toNat := by
  cases type <;> first
    | (simp [IntegerType.width] at hwidth; done)
    | simp [formatReturn, IntegerType.name, IntegerType.signed]

theorem formatReturn_narrow (hwidth : type.width ≠ 64) : formatReturn env type.name word =
    toString ((word &&& 0xFFFFFFFF).setWidth 32).toInt := by
  cases type <;> first
    | exact absurd rfl hwidth
    | simp [formatReturn, IntegerType.name]

theorem parseResult_wide (hwidth : type.width = 64) (result : String) :
    parseResult type.name result = (bigInt result).map .bigint := by
  cases type <;> first
    | (simp [IntegerType.width] at hwidth; done)
    | simp [parseResult, IntegerType.name]

theorem parseResult_narrow (hwidth : type.width ≠ 64) (result : String) :
    parseResult type.name result =
      match parseInt10 result with
      | none => .ok .nan
      | some v => .ok (.number v) := by
  cases type <;> first
    | exact absurd rfl hwidth
    | simp [parseResult, IntegerType.name]

end Format

theorem lowHalf_eq_self_iff {v : ℤ} : v.bmod (2 ^ 32) = v ↔ -2 ^ 31 ≤ v ∧ v < 2 ^ 31 := by
  constructor
  · intro h
    have hlow := Int.le_bmod (x := v) (m := 2 ^ 32) (by decide)
    have hhigh := Int.bmod_lt (x := v) (m := 2 ^ 32) (by decide)
    omega
  · rintro ⟨hlow, hhigh⟩
    exact Int.bmod_eq_of_le (by omega) (by omega)

/-- Integers of 64 bits come back as they are, the others by their low half. -/
theorem parseResult_integer (env : Outside) {type : IntegerType} {v : ℤ}
    (h : type.InRange v) :
    parseResult type.name (formatReturn env type.name (type.widen v)) =
      .ok (if type.width = 64 then .bigint v else .number (v.bmod (2 ^ 32))) := by
  rw [IntegerType.widen_eq h]
  unfold IntegerType.InRange at h
  by_cases hwidth : type.width = 64
  · rw [if_pos hwidth, parseResult_wide hwidth, formatReturn_wide env _ hwidth]
    rw [hwidth] at h
    by_cases hsigned : type.signed = true
    · rw [if_pos hsigned] at h ⊢
      rw [BitVec.toInt_ofInt_eq_self (by decide) h.1 h.2, bigInt_toString]
      rfl
    · rw [if_neg hsigned] at h ⊢
      have hword : ((BitVec.ofInt 64 v).toNat : ℤ) = v := by
        rw [BitVec.toNat_ofInt]
        omega
      have htext : toString (BitVec.ofInt 64 v).toNat = toString v :=
        congrArg toString hword
      rw [htext, bigInt_toString]
      rfl
  · rw [if_neg hwidth, parseResult_narrow hwidth, formatReturn_narrow env _ hwidth,
      lowHalf_ofInt, parseInt10_toString (lowHalf_natAbs v)]

/-- The value comes back exactly when its low half is not printed as a negative number. -/
theorem integer_result_iff {type : IntegerType} {v : ℤ} (h : type.InRange v) :
    (if type.width = 64 then JsResult.bigint v else .number (v.bmod (2 ^ 32))).integer = some v ↔
      type.Printable v := by
  by_cases hwidth : type.width = 64
  · simp [hwidth, JsResult.integer, IntegerType.Printable]
  · rw [if_neg hwidth, JsResult.integer, Option.some.injEq, lowHalf_eq_self_iff,
      IntegerType.printable_iff h hwidth]

/-! ## §8  Whole calls -/

/-- A call that passes integers and gets an integer back: no exception, the words stored are
the arguments', and the result is the value returned. -/
structure Survives (target : Target) (env : Outside) (abi : String) (args : List IntegerArg)
    (ret : IntegerType) (v : ℤ) : Prop where
  passed : ∃ words,
    storeArgs env (args.map fun a => getFFIType a.type.name)
      (serializeArgs (args.map (·.type.name)) (args.map (·.arg))) = .ok words ∧
    List.Forall₂ IntegerArg.Encodes args words
  returned : ∃ result,
    _call target env ret.name (args.map (·.type.name)) abi (args.map (·.arg)) = .ok result ∧
    result.integer = some v

theorem _call_integer {target : Target} {env : Outside} {abi : String} {args : List IntegerArg}
    {ret : IntegerType} {words : List (BitVec 64)}
    (hprep : env.prepCif (getFFIAbi target abi) (getFFIType ret.name)
      (args.map fun a => getFFIType a.type.name) = true)
    (hwords : storeArgs env (args.map fun a => getFFIType a.type.name)
      (serializeArgs (args.map (·.type.name)) (args.map (·.arg))) = .ok words) :
    _call target env ret.name (args.map (·.type.name)) abi (args.map (·.arg)) =
      parseResult ret.name (formatReturn env ret.name (env.call words)) := by
  have htypes : (args.map (·.type.name)).map getFFIType =
      args.map fun a => getFFIType a.type.name := by
    rw [List.map_map]
    rfl
  unfold _call callFunction
  simp only [htypes, hprep, hwords]
  rfl

/-- **Integers survive a call.** Where libffi takes the types and the callee returns `v`, the
arguments arrive and `v` comes back exactly when no argument of 64 bits unsigned is in the
upper half of its range and `v` is not in the upper half of 32 bits unsigned. -/
theorem survives_iff {target : Target} {env : Outside} {abi : String} {args : List IntegerArg}
    {ret : IntegerType} {v : ℤ} (hv : ret.InRange v)
    (hprep : env.prepCif (getFFIAbi target abi) (getFFIType ret.name)
      (args.map fun a => getFFIType a.type.name) = true)
    (hret : ∀ words, env.call words = ret.widen v) :
    Survives target env abi args ret v ↔
      (∀ a ∈ args, a.type.Readable a.value) ∧ ret.Printable v := by
  have hresult : ∀ {words}, storeArgs env (args.map fun a => getFFIType a.type.name)
      (serializeArgs (args.map (·.type.name)) (args.map (·.arg))) = .ok words →
      _call target env ret.name (args.map (·.type.name)) abi (args.map (·.arg)) =
        .ok (if ret.width = 64 then .bigint v else .number (v.bmod (2 ^ 32))) := by
    intro words hwords
    rw [_call_integer hprep hwords, hret, parseResult_integer env hv]
  rw [← IntegerArg.storeArgs_ok_iff env args, ← integer_result_iff hv,
    ← IntegerArg.serializeArgs_eq]
  constructor
  · rintro ⟨⟨words, hwords, henc⟩, result, hcall, hresult'⟩
    obtain rfl := Except.ok.inj ((hresult hwords).symm.trans hcall)
    exact ⟨⟨words, hwords, henc⟩, hresult'⟩
  · rintro ⟨⟨words, hwords, henc⟩, hsame⟩
    exact ⟨⟨words, hwords, henc⟩, _, hresult hwords, hsame⟩

section Concrete

/-- libffi with a callee that returns `word`, and floating point that is zero. -/
def returning (word : BitVec 64) : Outside :=
  ⟨fun _ _ _ => true, fun _ => word, fun _ _ _ => true, fun _ => "0.000000", fun _ => "0.000000"⟩

/-- The least value in the upper half of 64 bits unsigned. -/
def halfway : IntegerArg where
  type := .uint64
  arg := .bigint (2 ^ 63)
  value := 2 ^ 63
  is := rfl
  inRange := by simp [IntegerType.InRange, IntegerType.signed, IntegerType.width]

theorem minusOne_inRange : IntegerType.int8.InRange (-1) := by
  simp [IntegerType.InRange, IntegerType.signed, IntegerType.width]

/-- A byte given as a number. -/
def minusOne : IntegerArg where
  type := .int8
  arg := .number (-1) (by decide)
  value := -1
  is := rfl
  inRange := minusOne_inRange

theorem survives_minusOne :
    Survives ⟨.x64, .linux⟩ (returning (IntegerType.short.widen (-2))) "default" [minusOne]
      .short (-2) :=
  (survives_iff (by simp [IntegerType.InRange, IntegerType.signed, IntegerType.width]) rfl
    fun _ => rfl).mpr
    ⟨by simp [minusOne, IntegerType.Readable, IntegerType.signed],
      by simp [IntegerType.Printable, IntegerType.signed]⟩

/-- `stoll` refuses the argument, and `uint` comes back negative. -/
theorem upper_halves_lost :
    _call ⟨.x64, .linux⟩ (returning 0) "int" ["uint64"] "default" [halfway.arg] =
      .error .outOfRange ∧
    IntegerType.uint.InRange (2 ^ 31) ∧
    _call ⟨.x64, .linux⟩ (returning (IntegerType.uint.widen (2 ^ 31))) "uint" [] "default" [] =
      .ok (.number (-2 ^ 31)) ∧
    ¬ Survives ⟨.x64, .linux⟩ (returning 0) "default" [halfway] .int 0 ∧
    ¬ Survives ⟨.x64, .linux⟩ (returning (IntegerType.uint.widen (2 ^ 31))) "default" []
      .uint (2 ^ 31) := by
  have hrefused : _call ⟨.x64, .linux⟩ (returning 0) "int" ["uint64"] "default"
      [halfway.arg] = .error .outOfRange := rfl
  have hnegative : _call ⟨.x64, .linux⟩ (returning (IntegerType.uint.widen (2 ^ 31))) "uint" []
      "default" [] = .ok (.number (-2 ^ 31)) := rfl
  refine ⟨hrefused, ?_, hnegative, ?_, ?_⟩
  · simp [IntegerType.InRange, IntegerType.signed, IntegerType.width]
  · rintro ⟨-, result, hcall, -⟩
    cases hrefused.symm.trans hcall
  · rintro ⟨-, result, hcall, hsame⟩
    obtain rfl := Except.ok.inj (hnegative.symm.trans hcall)
    cases hsame

end Concrete

end NativeFunction

end Chromatic
