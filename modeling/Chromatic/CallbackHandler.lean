import Chromatic.NativeCallback
import Chromatic.Foundation.DoubleText

/-!
# The handler behind a native callback

`callbackHandler` and the handler that the class `NativeCallback` wraps the script's in. The
arguments are read from the slots of the closure and printed, the script's result is printed
and read back.

§1 texts of numbers · §2 callbackHandler · §3 wrappedHandler · §4 arguments · §5 results ·
§6 whole callbacks.
-/

namespace Chromatic

open Foundation NativeFunction NativeCallback

namespace CallbackHandler

/-! ## §1  Texts of numbers -/

/-- `std::stoi(s)`. -/
def stoi (s : String) : Except CallError ℤ :=
  match readSigned (s.toList.dropWhile isSpace) with
  | none => .error .invalidArgument
  | some (v, _) => if -2 ^ 31 ≤ v ∧ v < 2 ^ 31 then .ok v else .error .outOfRange

/-- `std::stoull(s)`: a minus sign negates the word. -/
def stoull (s : String) : Except CallError (BitVec 64) :=
  match readSigned (s.toList.dropWhile isSpace) with
  | none => .error .invalidArgument
  | some (v, _) => if v.natAbs < 2 ^ 64 then .ok (BitVec.ofInt 64 v) else .error .outOfRange

/-- `Number(s)` of an integer's text; `none` is `NaN`. -/
def number (s : String) : Option ℤ :=
  if hexPrefixed s then (InterceptorScript.parseInt16 s).map fun n => nearest n
  else
    match readSigned s.toList with
    | some (v, []) => some (nearest v)
    | _ => none

/-! ## §2  callbackHandler -/

/-- What `argStrs` holds for one slot of the closure. -/
def readSlot (env : Outside) (type : FfiType) (slot : BitVec 64) : String :=
  match type with
  | .pointer => toHexAddr slot.toNat
  | .float => env.floatText slot
  | .double => env.doubleText slot
  | .sint64 => toString slot.toInt
  | .uint64 => toString slot.toNat
  | _ => toString (slot.setWidth 32).toInt

/-- A store of four bytes. -/
def writeLow (ret : BitVec 64) (low : BitVec 32) : BitVec 64 := ret.extractLsb' 32 32 ++ low

/-- `ret` after the result has been parsed into it. -/
def writeReturn (env : Outside) (retType : FfiType) (result : String) (ret : BitVec 64) :
    Except CallError (BitVec 64) :=
  match retType with
  | .void => .ok ret
  | .pointer => NativeFunction.parseHexAddr result
  | .float => (stof env result).map fun word => writeLow ret (word.setWidth 32)
  | .double => stod env result
  | .sint64 => (stoll result).map (BitVec.ofInt 64)
  | .uint64 => stoull result
  | _ => (stoi result).map fun v => writeLow ret (BitVec.ofInt 32 v)

/-- `run` calls a `std::function`, `ret` is the word that the caller provides. -/
def callbackHandler (env : Outside) (run : Callback → List String → String) (info : CallbackInfo)
    (args : List (BitVec 64)) (ret : BitVec 64) : Except CallError (BitVec 64) :=
  writeReturn env info.retType
    (run info.handler (List.zipWith (readSlot env) info.argTypes args)) ret

/-! ## §3  wrappedHandler -/

/-- What the script's handler receives, `float` by the text that `Number` reads. -/
inductive JsParam where
  | nativePointer (value : Addr)
  | float (text : String)
  | number (v : ℤ)
  | nan
deriving DecidableEq, Repr

/-- What the script's handler returns. The numbers are the integers of less than 22 digits
that a double holds; `other` is anything else, by what `String` and `ptr` make of it. -/
inductive JsValue where
  | nullish
  | nativePointer (value : Addr)
  | string (s : String)
  | number (v : ℤ) (small : v.natAbs < 10 ^ 21) (exact : Exact v.natAbs)
  | bigint (v : ℤ)
  | other (text : String) (address : Addr)

def convertArg (type : Option String) (arg : String) : JsParam :=
  if type = some "pointer" then .nativePointer (InterceptorScript.pointerFromText arg)
  else if type = some "float" ∨ type = some "double" then .float arg
  else
    match number arg with
    | none => .nan
    | some v => .number v

def convertArgs (argTypes rawArgs : List String) : List JsParam :=
  rawArgs.mapIdx fun i arg => convertArg argTypes[i]? arg

/-- `String(result ?? 0)`. -/
def resultText : JsValue → String
  | .nullish => "0"
  | .nativePointer value => toHexAddr value.toNat
  | .string s => s
  | .number v _ _ => toString (v.sign * shortest v.natAbs)
  | .bigint v => toString v
  | .other text _ => text

/-- `ptr(result)`. -/
def ptr : JsValue → Addr
  | .nullish => 0
  | .nativePointer value => value
  | .string s => InterceptorScript.pointerFromText s
  | .number v _ _ => BitVec.ofInt 64 v
  | .bigint v => BitVec.ofInt 64 (nearest v)
  | .other _ address => address

/-- The script's handler answers `none` when it throws. -/
def wrappedHandler (handler : List JsParam → Option JsValue) (retType : String)
    (argTypes rawArgs : List String) : String :=
  match handler (convertArgs argTypes rawArgs) with
  | none => "0"
  | some result =>
    if retType = "void" then "0"
    else if retType = "pointer" then toHexAddr (ptr result).toNat
    else resultText result

/-- What the script's handler is called with. -/
def received (env : Outside) (argTypes : List String) (args : List (BitVec 64)) :
    List JsParam :=
  convertArgs argTypes (List.zipWith (readSlot env) (argTypes.map getFFIType) args)

/-! ## §4  Arguments -/

theorem number_toString (v : ℤ) : number (toString v) = some (nearest v) := by
  rw [number, if_neg (by rw [hexPrefixed_toString]; decide), readSigned_toString]

section Types

variable (env : Outside) {type : IntegerType}

theorem readSlot_wide (slot : BitVec 64) (hwidth : type.width = 64) :
    readSlot env (getFFIType type.name) slot =
      if type.signed then toString slot.toInt else toString slot.toNat := by
  cases type <;> first
    | (simp [IntegerType.width] at hwidth; done)
    | simp [readSlot, getFFIType, IntegerType.name, IntegerType.signed]

theorem readSlot_narrow (slot : BitVec 64) (hwidth : type.width ≠ 64) :
    readSlot env (getFFIType type.name) slot = toString (slot.setWidth 32).toInt := by
  cases type <;> first
    | exact absurd rfl hwidth
    | simp [readSlot, getFFIType, IntegerType.name]

theorem convertArg_integer (arg : String) : convertArg (some type.name) arg =
    match number arg with
    | none => .nan
    | some v => .number v := by
  cases type <;> simp [convertArg, IntegerType.name]

theorem writeReturn_wide (hwidth : type.width = 64) (result : String) (ret : BitVec 64) :
    writeReturn env (getFFIType type.name) result ret =
      if type.signed then (stoll result).map (BitVec.ofInt 64) else stoull result := by
  cases type <;> first
    | (simp [IntegerType.width] at hwidth; done)
    | simp [writeReturn, getFFIType, IntegerType.name, IntegerType.signed]

theorem writeReturn_narrow (hwidth : type.width ≠ 64) (result : String) (ret : BitVec 64) :
    writeReturn env (getFFIType type.name) result ret =
      (stoi result).map fun v => writeLow ret (BitVec.ofInt 32 v) := by
  cases type <;> first
    | exact absurd rfl hwidth
    | simp [writeReturn, getFFIType, IntegerType.name]

theorem wrappedHandler_integer {handler : List JsParam → Option JsValue}
    {argTypes rawArgs : List String} {result : JsValue}
    (h : handler (convertArgs argTypes rawArgs) = some result) :
    wrappedHandler handler type.name argTypes rawArgs = resultText result := by
  rw [wrappedHandler, h]
  cases type <;> simp [IntegerType.name]

end Types

/-- An integer of its type's range in a slot of the closure, whose other bytes are arbitrary. -/
structure IntegerSlot where
  type : IntegerType
  value : ℤ
  slot : BitVec 64
  inRange : type.InRange value
  holds : slot.setWidth type.width = BitVec.ofInt type.width value

namespace IntegerSlot

/-- A double holds an integer of 64 bits; the low half of the slot of any other is its value
as an `int`. -/
def Arrives (a : IntegerSlot) : Prop :=
  if a.type.width = 64 then Exact a.value.natAbs
  else a.slot.setWidth 32 = BitVec.ofInt 32 a.value ∧ a.type.Printable a.value

/-- The integer printed for the slot. -/
def printed (a : IntegerSlot) : ℤ :=
  if a.type.width = 64 then a.value else (a.slot.setWidth 32).toInt

theorem readSlot_eq (env : Outside) (a : IntegerSlot) :
    readSlot env (getFFIType a.type.name) a.slot = toString a.printed := by
  unfold printed
  by_cases hwidth : a.type.width = 64
  · have hrange := a.inRange
    have hslot : a.slot = BitVec.ofInt 64 a.value := by
      have hholds := a.holds
      rw [hwidth] at hholds
      simpa using hholds
    unfold IntegerType.InRange at hrange
    rw [if_pos hwidth, readSlot_wide env a.slot hwidth, hslot]
    rw [hwidth] at hrange
    by_cases hsigned : a.type.signed = true
    · rw [if_pos hsigned] at hrange ⊢
      rw [BitVec.toInt_ofInt_eq_self (by decide) hrange.1 hrange.2]
    · rw [if_neg hsigned] at hrange ⊢
      have hword : ((BitVec.ofInt 64 a.value).toNat : ℤ) = a.value := by
        rw [BitVec.toNat_ofInt]
        omega
      exact congrArg toString hword
  · rw [if_neg hwidth, readSlot_narrow env a.slot hwidth]

theorem printed_small (a : IntegerSlot) (hwidth : a.type.width ≠ 64) :
    a.printed = (a.slot.setWidth 32).toInt ∧ a.printed.natAbs < 2 ^ 53 := by
  rw [printed, if_neg hwidth]
  have hlow := (a.slot.setWidth 32).le_toInt
  have hhigh := (a.slot.setWidth 32).toInt_lt
  refine ⟨rfl, ?_⟩
  omega

/-- What the handler receives for the slot is the value exactly when the slot allows it. -/
theorem nearest_printed_iff (a : IntegerSlot) : nearest a.printed = a.value ↔ a.Arrives := by
  unfold Arrives
  by_cases hwidth : a.type.width = 64
  · rw [if_pos hwidth, printed, if_pos hwidth, nearest_eq_iff]
  · obtain ⟨hprinted, hsmall⟩ := a.printed_small hwidth
    rw [if_neg hwidth, nearest_eq_iff.mpr (exact_of_lt hsmall), hprinted]
    rw [IntegerType.printable_iff a.inRange hwidth]
    constructor
    · intro h
      have hlow := (a.slot.setWidth 32).le_toInt
      have hhigh := (a.slot.setWidth 32).toInt_lt
      rw [← h, BitVec.ofInt_toInt]
      exact ⟨rfl, hlow, hhigh⟩
    · rintro ⟨hslot, hlow, hhigh⟩
      rw [hslot, BitVec.toInt_ofInt_eq_self (by decide) hlow hhigh]

end IntegerSlot

theorem received_eq (env : Outside) (args : List IntegerSlot) :
    received env (args.map (·.type.name)) (args.map (·.slot)) =
      args.map fun a => JsParam.number (nearest a.printed) := by
  have htexts : List.zipWith (readSlot env) ((args.map (·.type.name)).map getFFIType)
      (args.map (·.slot)) = args.map fun a => toString a.printed := by
    rw [List.map_map, List.zipWith_map, List.zipWith_self]
    exact List.map_congr_left fun a _ => a.readSlot_eq env
  unfold received convertArgs
  rw [htexts]
  apply List.ext_getElem
  · simp
  · intro i hi _
    have hlt : i < args.length := by simpa using hi
    have hnumber := number_toString args[i].printed
    simp only [Int.toString_eq_repr] at hnumber
    simp [hlt, convertArg_integer, hnumber]

/-- The handler receives the values exactly when every slot allows it. -/
theorem received_iff (env : Outside) (args : List IntegerSlot) :
    received env (args.map (·.type.name)) (args.map (·.slot)) =
        args.map (fun a => JsParam.number a.value) ↔
      ∀ a ∈ args, a.Arrives := by
  rw [received_eq, List.map_inj_left]
  refine forall₂_congr fun a _ => ?_
  rw [JsParam.number.injEq, a.nearest_printed_iff]

/-! ## §5  Results -/

theorem stoi_toString (v : ℤ) : stoi (toString v) =
    if -2 ^ 31 ≤ v ∧ v < 2 ^ 31 then .ok v else .error .outOfRange := by
  rw [stoi, dropWhile_toString, readSigned_toString]

theorem stoull_toString (v : ℤ) : stoull (toString v) =
    if v.natAbs < 2 ^ 64 then .ok (BitVec.ofInt 64 v) else .error .outOfRange := by
  rw [stoull, dropWhile_toString, readSigned_toString]

theorem writeLow_setWidth {w : ℕ} (ret : BitVec 64) (low : BitVec 32) (h : w ≤ 32) :
    (writeLow ret low).setWidth w = low.setWidth w := by
  rw [writeLow, BitVec.setWidth_append, dif_pos h]

/-- The integer a number or a bigint stands for. -/
def JsValue.integer : JsValue → Option ℤ
  | .number v _ _ => some v
  | .bigint v => some v
  | _ => none

/-- An integer of its type's range, returned as a number or as a bigint. -/
structure IntegerResult where
  type : IntegerType
  result : JsValue
  value : ℤ
  is : result.integer = some value
  inRange : type.InRange value

namespace IntegerResult

/-- The integer that the text of the result says. -/
def printed (r : IntegerResult) : ℤ :=
  match r.result with
  | .number v _ _ => v.sign * shortest v.natAbs
  | _ => r.value

/-- It is no `uint` in the upper half of its range, and the digits printed are its own. -/
def Leaves (r : IntegerResult) : Prop := r.type.Printable r.value ∧ r.printed = r.value

def Encodes (r : IntegerResult) (word : BitVec 64) : Prop :=
  word.setWidth r.type.width = BitVec.ofInt r.type.width r.value

theorem resultText_eq (r : IntegerResult) : resultText r.result = toString r.printed := by
  have his := r.is
  unfold printed
  cases hresult : r.result with
  | number v small exact => rfl
  | bigint v =>
      rw [hresult] at his
      rw [← Option.some.inj his]
      rfl
  | nullish => simp [hresult, JsValue.integer] at his
  | nativePointer value => simp [hresult, JsValue.integer] at his
  | string s => simp [hresult, JsValue.integer] at his
  | other text address => simp [hresult, JsValue.integer] at his

/-- The text has the sign of the value, and below 2^53 it is the value's. -/
theorem printed_cases (r : IntegerResult) :
    (0 ≤ r.value → 0 ≤ r.printed) ∧ (r.value.natAbs < 2 ^ 53 → r.printed = r.value) := by
  have his := r.is
  unfold printed
  cases hresult : r.result with
  | number v small exact =>
      rw [hresult] at his
      obtain rfl : v = r.value := Option.some.inj his
      refine ⟨fun h => ?_, fun h => ?_⟩
      · have hsign : 0 ≤ r.value.sign := Int.sign_nonneg_iff.mpr h
        exact mul_nonneg hsign (Int.natCast_nonneg _)
      · change r.value.sign * (shortest r.value.natAbs : ℤ) = r.value
        rw [shortest_of_lt h, Int.sign_mul_natAbs]
  | _ => exact ⟨id, fun _ => rfl⟩

theorem encodes_wide (r : IntegerResult) (word : BitVec 64) (hwidth : r.type.width = 64) :
    r.Encodes word ↔ word = BitVec.ofInt 64 r.value := by
  unfold Encodes
  generalize r.type.width = w at hwidth ⊢
  subst hwidth
  rw [BitVec.setWidth_eq]

/-- The word that a signed text of 64 bits gives is that of a value in range exactly when the
text is the value's. -/
theorem stoll_word_iff {printed value : ℤ} (hlow : -2 ^ 63 ≤ value) (hhigh : value < 2 ^ 63) :
    (∃ word, (stoll (toString printed)).map (BitVec.ofInt 64) = .ok word ∧
      word = BitVec.ofInt 64 value) ↔ printed = value := by
  rw [stoll_toString]
  constructor
  · rintro ⟨word, hword, rfl⟩
    split at hword
    · rename_i hbounds
      have hsame := congrArg BitVec.toInt (Except.ok.inj hword)
      rwa [BitVec.toInt_ofInt_eq_self (by decide) hbounds.1 hbounds.2,
        BitVec.toInt_ofInt_eq_self (by decide) hlow hhigh] at hsame
    · cases hword
  · rintro rfl
    rw [if_pos ⟨hlow, hhigh⟩]
    exact ⟨_, rfl, rfl⟩

/-- The same of an unsigned text, whose sign is no `-`. -/
theorem stoull_word_iff {printed value : ℤ} (hlow : 0 ≤ value) (hhigh : value < 2 ^ 64)
    (hpos : 0 ≤ printed) :
    (∃ word, stoull (toString printed) = .ok word ∧ word = BitVec.ofInt 64 value) ↔
      printed = value := by
  rw [stoull_toString]
  constructor
  · rintro ⟨word, hword, rfl⟩
    split at hword
    · rename_i hbound
      have hsame := congrArg BitVec.toNat (Except.ok.inj hword)
      rw [BitVec.toNat_ofInt, BitVec.toNat_ofInt] at hsame
      omega
    · cases hword
  · rintro rfl
    rw [if_pos (by omega)]
    exact ⟨_, rfl, rfl⟩

theorem writeReturn_wide_iff (env : Outside) (r : IntegerResult) (ret : BitVec 64)
    (hwidth : r.type.width = 64) :
    (∃ word, writeReturn env (getFFIType r.type.name) (toString r.printed) ret = .ok word ∧
      r.Encodes word) ↔ r.printed = r.value := by
  have hrange := r.inRange
  unfold IntegerType.InRange at hrange
  rw [hwidth] at hrange
  simp only [writeReturn_wide env hwidth, r.encodes_wide _ hwidth]
  by_cases hsigned : r.type.signed = true
  · rw [if_pos hsigned] at hrange
    simp only [if_pos hsigned]
    exact stoll_word_iff hrange.1 hrange.2
  · rw [if_neg hsigned] at hrange
    simp only [if_neg hsigned]
    exact stoull_word_iff hrange.1 hrange.2 (r.printed_cases.1 hrange.1)

theorem writeReturn_narrow_iff (env : Outside) (r : IntegerResult) (ret : BitVec 64)
    (hwidth : r.type.width ≠ 64) (hsame : r.printed = r.value) :
    (∃ word, writeReturn env (getFFIType r.type.name) (toString r.printed) ret = .ok word ∧
      r.Encodes word) ↔ -2 ^ 31 ≤ r.value ∧ r.value < 2 ^ 31 := by
  have hle : r.type.width ≤ 32 := by
    cases htype : r.type <;> simp_all [IntegerType.width]
  rw [writeReturn_narrow env hwidth, hsame, stoi_toString]
  constructor
  · rintro ⟨word, hword, -⟩
    split at hword
    · rename_i hbounds
      exact hbounds
    · cases hword
  · intro hbounds
    rw [if_pos hbounds]
    refine ⟨_, rfl, ?_⟩
    rw [Encodes, writeLow_setWidth _ _ hle, setWidth_ofInt hle]

/-- A word with the low bytes of the value is written exactly when the result allows it. -/
theorem writeReturn_iff (env : Outside) (r : IntegerResult) (ret : BitVec 64) :
    (∃ word, writeReturn env (getFFIType r.type.name) (toString r.printed) ret = .ok word ∧
      r.Encodes word) ↔ r.Leaves := by
  have hrange := r.inRange
  have hsmall := r.printed_cases.2
  unfold IntegerType.InRange at hrange
  unfold Leaves
  by_cases hwidth : r.type.width = 64
  · have hprint : r.type.Printable r.value := by
      intro _ h
      omega
    rw [r.writeReturn_wide_iff env ret hwidth]
    exact (and_iff_right hprint).symm
  · have hsame : r.printed = r.value := by
      apply hsmall
      cases htype : r.type <;> simp_all [IntegerType.signed, IntegerType.width] <;> omega
    rw [r.writeReturn_narrow_iff env ret hwidth hsame,
      IntegerType.printable_iff r.inRange hwidth]
    exact (and_iff_left hsame).symm

end IntegerResult

/-! ## §6  Whole callbacks -/

/-- `info` is one that `createCallback` makes for these types. -/
structure Made (info : CallbackInfo) (retType : String) (argTypes : List String) : Prop where
  args : info.argTypes = argTypes.map getFFIType
  ret : info.retType = getFFIType retType

theorem createCallback_made {target : Target} {install : Install} {handler : Callback}
    {retType : String} {argTypes : List String} {abi : String} {r r' : Runtime} {a : Addr}
    (h : createCallback target install handler retType argTypes abi r = (.ok a, r')) :
    ∃ info, r'.ffi.callbacks.lookup a = some info ∧ info.handler = handler ∧
      Made info retType argTypes := by
  unfold createCallback at h
  dsimp only at h
  split at h
  · cases h
  · split at h
    · cases h
    · split at h
      · cases h
      · obtain ⟨hok, rfl⟩ := Prod.mk.inj h
        obtain rfl := Except.ok.inj hok
        exact ⟨_, AList.lookup_insert _, rfl, rfl, rfl⟩

/-- A callback from native code with integers for arguments and an integer for result: the
script's handler receives the values, and the word written has the low bytes of the one it
returns. -/
structure Survives (env : Outside) (run : Callback → List String → String)
    (info : CallbackInfo) (args : List IntegerSlot) (r : IntegerResult) (ret : BitVec 64) :
    Prop where
  passed : received env (args.map (·.type.name)) (args.map (·.slot)) =
    args.map fun a => JsParam.number a.value
  returned : ∃ word, callbackHandler env run info (args.map (·.slot)) ret = .ok word ∧
    r.Encodes word

theorem callbackHandler_integer {env : Outside} {run : Callback → List String → String}
    {info : CallbackInfo} {handler : List JsParam → Option JsValue} {args : List IntegerSlot}
    {r : IntegerResult} (hmade : Made info r.type.name (args.map (·.type.name)))
    (hrun : run info.handler = wrappedHandler handler r.type.name (args.map (·.type.name)))
    (hreturns : handler (received env (args.map (·.type.name)) (args.map (·.slot))) =
      some r.result) (ret : BitVec 64) :
    callbackHandler env run info (args.map (·.slot)) ret =
      writeReturn env (getFFIType r.type.name) (toString r.printed) ret := by
  rw [callbackHandler, hmade.args, hmade.ret, hrun, wrappedHandler_integer hreturns,
    r.resultText_eq]

/-- **Integers survive a callback.** They do exactly when every argument of 64 bits is a
double, the low half of the slot of every other argument is its value as an `int`, and the
result is no `uint` in the upper half of its range and is printed by its own digits. -/
theorem callback_survives_iff {env : Outside} {run : Callback → List String → String}
    {info : CallbackInfo} {handler : List JsParam → Option JsValue} {args : List IntegerSlot}
    {r : IntegerResult} (hmade : Made info r.type.name (args.map (·.type.name)))
    (hrun : run info.handler = wrappedHandler handler r.type.name (args.map (·.type.name)))
    (hreturns : handler (received env (args.map (·.type.name)) (args.map (·.slot))) =
      some r.result) (ret : BitVec 64) :
    Survives env run info args r ret ↔ (∀ a ∈ args, a.Arrives) ∧ r.Leaves := by
  have hcall := callbackHandler_integer hmade hrun hreturns ret
  rw [← received_iff env args, ← r.writeReturn_iff env ret, ← hcall]
  constructor
  · rintro ⟨hpassed, hreturned⟩
    exact ⟨hpassed, hreturned⟩
  · rintro ⟨hpassed, hreturned⟩
    exact ⟨hpassed, hreturned⟩

section Concrete

/-- A callback with one argument whose handler returns the same whatever it is given. -/
def infoFor (a : IntegerSlot) (r : IntegerResult) : CallbackInfo :=
  ⟨0x10, 0, 0x20, 0x30, [getFFIType a.type.name], getFFIType r.type.name⟩

def runFor (a : IntegerSlot) (r : IntegerResult) : Callback → List String → String :=
  fun _ => wrappedHandler (fun _ => some r.result) r.type.name [a.type.name]

/-- A byte with nothing above it. -/
def byteArg : IntegerSlot where
  type := .int8
  value := -1
  slot := 0xFF
  inRange := minusOne_inRange
  holds := rfl

def uintArg : IntegerSlot where
  type := .uint
  value := 2 ^ 31
  slot := 0x80000000
  inRange := by simp [IntegerType.InRange, IntegerType.signed, IntegerType.width]
  holds := rfl

/-- The least positive integer that no double holds. -/
def int64Arg : IntegerSlot where
  type := .int64
  value := 2 ^ 53 + 1
  slot := 0x20000000000001
  inRange := by simp [IntegerType.InRange, IntegerType.signed, IntegerType.width]
  holds := rfl

def shortArg : IntegerSlot where
  type := .short
  value := -2
  slot := 0xFFFFFFFE
  inRange := by simp [IntegerType.InRange, IntegerType.signed, IntegerType.width]
  holds := rfl

def zero : IntegerResult where
  type := .int
  result := .bigint 0
  value := 0
  is := rfl
  inRange := by simp [IntegerType.InRange, IntegerType.signed, IntegerType.width]

def uintResult : IntegerResult where
  type := .uint
  result := .bigint (2 ^ 31)
  value := 2 ^ 31
  is := rfl
  inRange := by simp [IntegerType.InRange, IntegerType.signed, IntegerType.width]

theorem survives_short : Survives (returning 0) (runFor shortArg zero) (infoFor shortArg zero)
    [shortArg] zero 0 :=
  (callback_survives_iff ⟨rfl, rfl⟩ rfl rfl 0).mpr
    ⟨by simp [shortArg, IntegerSlot.Arrives, IntegerType.Printable, IntegerType.signed,
      IntegerType.width], by simp [zero, IntegerResult.Leaves, IntegerType.Printable,
      IntegerType.signed, IntegerResult.printed]⟩

/-- A byte comes as 255 for -1, `uint` negative, an integer of 64 bits as its neighbour, and
`stoi` refuses a `uint`. -/
theorem integers_lost :
    received (returning 0) ["int8"] [byteArg.slot] = [.number 255] ∧
    received (returning 0) ["uint"] [uintArg.slot] = [.number (-2 ^ 31)] ∧
    received (returning 0) ["int64"] [int64Arg.slot] = [.number (2 ^ 53)] ∧
    callbackHandler (returning 0) (runFor shortArg uintResult) (infoFor shortArg uintResult)
      [shortArg.slot] 0 = .error .outOfRange ∧
    (∀ a ∈ [byteArg, uintArg, int64Arg],
      ¬ Survives (returning 0) (runFor a zero) (infoFor a zero) [a] zero 0) ∧
    ¬ Survives (returning 0) (runFor shortArg uintResult) (infoFor shortArg uintResult)
      [shortArg] uintResult 0 := by
  have hrefused : callbackHandler (returning 0) (runFor shortArg uintResult)
      (infoFor shortArg uintResult) [shortArg.slot] 0 = .error .outOfRange := rfl
  refine ⟨rfl, rfl, rfl, hrefused, ?_, ?_⟩
  · intro a ha hsurvives
    have hpassed := hsurvives.passed
    simp only [List.mem_cons, List.not_mem_nil, or_false] at ha
    rcases ha with rfl | rfl | rfl
    · cases hpassed
    · cases hpassed
    · cases hpassed
  · rintro ⟨-, word, hword, -⟩
    cases hrefused.symm.trans hword

end Concrete

end CallbackHandler

end Chromatic
