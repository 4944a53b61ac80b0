import Chromatic.CallbackHandler
import Chromatic.ProcessMaps

/-!
# Callbacks that throw

`callbackHandler` is called by native code, which an exception must not reach. The script's
handler may throw or return anything; its result is printed by `wrappedHandler` and read back
by a conversion of the return type, which throws at what it cannot read.

§1 conversions · §2 what they accept · §3 the handler's result · §4 whole callbacks.
-/

namespace Chromatic

open Foundation NativeFunction NativeCallback CallbackHandler
open ProcessMaps (scanSign)

namespace CallbackErrors

/-! ## §1  Conversions -/

/-- The bits that a value of the type has. -/
def width : FfiType → ℕ
  | .void => 0
  | .sint8 | .uint8 => 8
  | .sint16 | .uint16 => 16
  | .sint32 | .uint32 | .float => 32
  | .sint64 | .uint64 | .double | .pointer => 64

/-- The library function that reads the result. -/
def convert (env : Outside) (type : FfiType) (result : String) : Except CallError (BitVec 64) :=
  match type with
  | .void => .ok 0
  | .pointer => NativeFunction.parseHexAddr result
  | .float => stof env result
  | .double => stod env result
  | .sint64 => (stoll result).map (BitVec.ofInt 64)
  | .uint64 => stoull result
  | _ => (stoi result).map (BitVec.ofInt 64)

/-- How its value gets into `ret`. -/
def store (type : FfiType) (ret word : BitVec 64) : BitVec 64 :=
  match type with
  | .void => ret
  | .pointer | .double | .sint64 | .uint64 => word
  | _ => writeLow ret (word.setWidth 32)

/-- The callback returns to native code, whatever was in `ret`, and has written a value of its
type. -/
def Returns (env : Outside) (run : Callback → List String → String) (info : CallbackInfo)
    (args : List (BitVec 64)) : Prop :=
  ∃ value : BitVec (width info.retType), ∀ ret, ∃ word,
    callbackHandler env run info args ret = .ok word ∧ word.setWidth (width info.retType) = value

section Conversions

variable {env : Outside} {type : FfiType} {result : String}

theorem writeReturn_eq (ret : BitVec 64) :
    writeReturn env type result ret = (convert env type result).map (store type ret) := by
  have hint : (stoi result).map (fun v => writeLow ret (BitVec.ofInt 32 v)) =
      ((stoi result).map (BitVec.ofInt 64)).map
        fun word => writeLow ret (word.setWidth 32) := by
    cases stoi result with
    | error e => rfl
    | ok v =>
        simp only [Except.map]
        rw [setWidth_ofInt (by decide)]
  have hword : ∀ x : Except CallError (BitVec 64), x = x.map fun word => word := by
    intro x
    cases x <;> rfl
  cases type with
  | void | float => rfl
  | pointer | double | sint64 | uint64 => exact hword _
  | sint8 | uint8 | sint16 | uint16 | sint32 | uint32 => exact hint

/-- What is stored does not depend on what was there. -/
theorem setWidth_store (ret ret' word : BitVec 64) :
    (store type ret word).setWidth (width type) = (store type ret' word).setWidth (width type) := by
  cases type with
  | void => exact BitVec.of_length_zero.trans BitVec.of_length_zero.symm
  | pointer | double | sint64 | uint64 => rfl
  | float | sint8 | uint8 | sint16 | uint16 | sint32 | uint32 =>
      exact (writeLow_setWidth _ _ (by decide)).trans (writeLow_setWidth _ _ (by decide)).symm

/-- The callback returns exactly when the text of the result can be converted. -/
theorem returns_iff_convert {run : Callback → List String → String} {info : CallbackInfo}
    {args : List (BitVec 64)} :
    Returns env run info args ↔ ∃ word, convert env info.retType
      (run info.handler (List.zipWith (readSlot env) info.argTypes args)) = .ok word := by
  unfold Returns callbackHandler
  simp only [writeReturn_eq]
  generalize run info.handler (List.zipWith (readSlot env) info.argTypes args) = result
  cases hconvert : convert env info.retType result with
  | error e =>
      refine iff_of_false ?_ (by simp)
      rintro ⟨_, h⟩
      obtain ⟨_, hok, -⟩ := h 0
      cases hok
  | ok word =>
      refine iff_of_true ⟨(store info.retType 0 word).setWidth _, fun ret => ?_⟩ ⟨word, rfl⟩
      exact ⟨_, rfl, setWidth_store ret 0 word⟩

end Conversions

/-! ## §2  What they accept -/

/-- A decimal number in a range starts the text, behind blanks and a sign. -/
def StartsDecimal (lo hi : ℤ) (s : String) : Prop :=
  ∃ v rest, readSigned (s.toList.dropWhile isSpace) = some (v, rest) ∧ lo ≤ v ∧ v < hi

/-- A hexadecimal number of at most 64 bits starts the text, behind blanks and a sign. -/
def StartsHex (s : String) : Prop :=
  ∃ n, readHexWord (scanSign (s.toList.dropWhile isSpace)).2 = some n ∧ n < 2 ^ 64

/-- Neither rounded to infinity nor small enough for the library to complain. -/
def InRange (env : Outside) (fmt : Format) : Magnitude → Prop
  | .infinity | .nan => True
  | .finite num den =>
      ¬ fmt.TooLarge num den ∧ ¬ (fmt.Subnormal num den ∧ env.underflow fmt num den)

/-- A number of the format starts the text, behind blanks and a sign, or `inf` or `nan` does. -/
def StartsFloat (env : Outside) (fmt : Format) (s : String) : Prop :=
  ∃ negative x, readFloat (s.toList.dropWhile isSpace) = some (negative, x) ∧ InRange env fmt x

/-- The text is one for the type. -/
def Convertible (env : Outside) (type : FfiType) (s : String) : Prop :=
  match type with
  | .void => True
  | .pointer => StartsHex s
  | .float => StartsFloat env binary32 s
  | .double => StartsFloat env binary64 s
  | .sint64 => StartsDecimal (-2 ^ 63) (2 ^ 63) s
  | .uint64 => StartsDecimal (-2 ^ 64 + 1) (2 ^ 64) s
  | _ => StartsDecimal (-2 ^ 31) (2 ^ 31) s

section Accepted

variable {env : Outside} {s : String}

theorem decimal_ok_iff {α : Type} {p : ℤ → Prop} [DecidablePred p] {f : ℤ → α}
    {cs : List Char} :
    (∃ word, (match readSigned cs with
      | none => Except.error CallError.invalidArgument
      | some (v, _) => if p v then Except.ok (f v) else Except.error CallError.outOfRange) =
        Except.ok word) ↔
      ∃ v rest, readSigned cs = some (v, rest) ∧ p v := by
  cases readSigned cs with
  | none => simp
  | some found =>
      obtain ⟨v, rest⟩ := found
      dsimp only
      split_ifs with hp
      · exact iff_of_true ⟨f v, rfl⟩ ⟨v, rest, rfl, hp⟩
      · refine iff_of_false (by simp) ?_
        rintro ⟨_, _, hsame, hp'⟩
        obtain ⟨rfl, -⟩ := Prod.mk.inj (Option.some.inj hsame)
        exact hp hp'

theorem map_ok_iff {α β : Type} {f : α → β} {x : Except CallError α} :
    (∃ b, x.map f = .ok b) ↔ ∃ a, x = .ok a := by
  cases x with
  | error e => exact iff_of_false nofun nofun
  | ok a => exact iff_of_true ⟨f a, rfl⟩ ⟨a, rfl⟩

theorem stoi_ok_iff : (∃ v, stoi s = .ok v) ↔ StartsDecimal (-2 ^ 31) (2 ^ 31) s :=
  decimal_ok_iff

theorem stoll_ok_iff : (∃ v, stoll s = .ok v) ↔ StartsDecimal (-2 ^ 63) (2 ^ 63) s :=
  decimal_ok_iff

theorem stoull_ok_iff :
    (∃ word, stoull s = .ok word) ↔ StartsDecimal (-2 ^ 64 + 1) (2 ^ 64) s := by
  refine Iff.trans decimal_ok_iff (exists_congr fun v => exists_congr fun rest => ?_)
  exact and_congr_right fun _ => by omega

theorem parseHexAddr_eq : NativeFunction.parseHexAddr s =
    match readHexWord (scanSign (s.toList.dropWhile isSpace)).2 with
    | none => .error .invalidArgument
    | some n =>
        if n < 2 ^ 64 then
          .ok (if (scanSign (s.toList.dropWhile isSpace)).1 then -BitVec.ofNat 64 n
            else BitVec.ofNat 64 n)
        else .error .outOfRange := rfl

theorem parseHexAddr_ok_iff :
    (∃ word, NativeFunction.parseHexAddr s = .ok word) ↔ StartsHex s := by
  rw [parseHexAddr_eq, StartsHex]
  cases readHexWord (scanSign (s.toList.dropWhile isSpace)).2 with
  | none => simp
  | some n =>
      dsimp only
      by_cases hlt : n < 2 ^ 64
      · rw [if_pos hlt]
        exact iff_of_true ⟨_, rfl⟩ ⟨n, rfl, hlt⟩
      · rw [if_neg hlt]
        refine iff_of_false (by simp) ?_
        rintro ⟨_, hsame, hlt'⟩
        exact hlt (Option.some.inj hsame ▸ hlt')

theorem readBits_ok_iff {fmt : Format} :
    (∃ word, readBits env fmt s = .ok word) ↔ StartsFloat env fmt s := by
  unfold readBits StartsFloat
  split
  · rename_i hread
    refine iff_of_false (by simp) ?_
    rintro ⟨negative, x, hsame, -⟩
    cases hread.symm.trans hsame
  · rename_i negative hread
    exact iff_of_true ⟨_, rfl⟩ ⟨negative, .infinity, hread, trivial⟩
  · rename_i negative hread
    exact iff_of_true ⟨_, rfl⟩ ⟨negative, .nan, hread, trivial⟩
  · rename_i negative num den hread
    have hin : (∃ negative x, readFloat (s.toList.dropWhile isSpace) = some (negative, x) ∧
        InRange env fmt x) ↔ InRange env fmt (.finite num den) := by
      rw [hread]
      refine ⟨?_, fun h => ⟨negative, _, rfl, h⟩⟩
      rintro ⟨_, x, hsame, hin⟩
      cases hsame
      exact hin
    rw [hin, InRange, ← fmt.infinityBits_le_encode_iff (readFloat_den_pos hread)]
    split_ifs with hlarge hsmall <;> simp [*]

theorem convert_ok_iff {type : FfiType} :
    (∃ word, convert env type s = .ok word) ↔ Convertible env type s := by
  cases type with
  | void => exact iff_of_true ⟨0, rfl⟩ trivial
  | pointer => exact parseHexAddr_ok_iff
  | float | double => exact readBits_ok_iff
  | sint64 => exact map_ok_iff.trans stoll_ok_iff
  | uint64 => exact stoull_ok_iff
  | sint8 | uint8 | sint16 | uint16 | sint32 | uint32 => exact map_ok_iff.trans stoi_ok_iff

end Accepted

/-! ## §3  The handler's result -/

/-- The handler throws, or `String` or `ptr` do at its result; or what it returns is not looked
at, or printed as an address, or has a text for the return type. -/
def Readable (env : Outside) (retType : String) : Option JsValue → Prop
  | none => True
  | some result => retType = "void" ∨ retType = "pointer" ∨
      Convertible env (getFFIType retType) (resultText result)

section Result

variable {env : Outside} {retType : String} {handler : List JsParam → Option JsValue}
  {argTypes rawArgs : List String}

/-- Addresses are printed as they are read. -/
theorem startsHex_toHexAddr (a : Addr) : StartsHex (toHexAddr a.toNat) := by
  obtain ⟨hread, hdigits⟩ := readHex_toDigits a.toNat
  have htext : (toHexAddr a.toNat).toList = '0' :: 'x' :: Nat.toDigits 16 a.toNat := by
    simp [toHexAddr]
  refine ⟨a.toNat, ?_, a.isLt⟩
  rw [htext, List.dropWhile_cons_of_neg (by decide), ProcessMaps.scanSign_digits (by decide),
    readHexWord_prefixed Nat.toDigits_ne_nil hdigits, hread]

theorem inRange_zero (fmt : Format) : InRange env fmt (.finite 0 1) := by
  refine ⟨?_, fun h => absurd h.1.1 (by decide)⟩
  rw [Format.TooLarge, Nat.zero_mul, Nat.mul_one, Nat.le_zero, Nat.mul_eq_zero, not_or]
  refine ⟨?_, (Nat.two_pow_pos _).ne'⟩
  have hone : 2 ^ 1 ≤ 2 ^ (fmt.precision + 1) := Nat.pow_le_pow_right (by decide) (by omega)
  omega

theorem convertible_zero (type : FfiType) : Convertible env type "0" := by
  cases type with
  | void => trivial
  | pointer => exact ⟨0, rfl, by decide⟩
  | float | double => exact ⟨false, .finite 0 1, rfl, inRange_zero _⟩
  | sint64 | uint64 | sint8 | uint8 | sint16 | uint16 | sint32 | uint32 =>
      exact ⟨0, [], rfl, by decide, by decide⟩

theorem convertible_wrappedHandler :
    Convertible env (getFFIType retType) (wrappedHandler handler retType argTypes rawArgs) ↔
      Readable env retType (handler (convertArgs argTypes rawArgs)) := by
  unfold wrappedHandler
  cases handler (convertArgs argTypes rawArgs) with
  | none => exact iff_of_true (convertible_zero _) trivial
  | some result =>
      dsimp only [Readable]
      by_cases hvoid : retType = "void"
      · rw [if_pos hvoid]
        exact iff_of_true (convertible_zero _) (.inl hvoid)
      · rw [if_neg hvoid, or_iff_right hvoid]
        by_cases hpointer : retType = "pointer"
        · rw [if_pos hpointer, hpointer]
          exact iff_of_true (startsHex_toHexAddr _) (.inl rfl)
        · rw [if_neg hpointer, or_iff_right hpointer]

end Result

/-! ## §4  Whole callbacks -/

/-- **A native callback that does not throw.** It returns to native code with a value of its
type exactly when the handler throws, or returns what is not looked at or can be read. -/
theorem callback_returns_iff {env : Outside}
    {run : Callback → List String → String} {info : CallbackInfo}
    {handler : List JsParam → Option JsValue} {retType : String} {argTypes : List String}
    (hmade : Made info retType argTypes)
    (hrun : run info.handler = wrappedHandler handler retType argTypes)
    (args : List (BitVec 64)) :
    Returns env run info args ↔ Readable env retType (handler (received env argTypes args)) := by
  rw [returns_iff_convert, convert_ok_iff, hrun, hmade.ret, hmade.args]
  exact convertible_wrappedHandler

section Concrete

/-- A callback without arguments. -/
def infoOf (retType : String) : CallbackInfo := ⟨0x10, 0, 0x20, 0x30, [], getFFIType retType⟩

def runOf (retType : String) (result : Option JsValue) : Callback → List String → String :=
  fun _ => wrappedHandler (fun _ => result) retType []

/-- `true` becomes the text "true". -/
def jsTrue : JsValue := .other "true" 0

/-- A number of the script that is too large for a `float`. -/
def large : JsValue := .other "1e+39" 0

theorem large_returns : Returns (returning 0) (runOf "double" (some large)) (infoOf "double") [] :=
  (@callback_returns_iff (returning 0) _ _ (fun _ => some large) "double" [] ⟨rfl, rfl⟩ rfl []).mpr
    (.inr (.inr ⟨false, .finite (10 ^ 39) 1, by decide +kernel, by decide +kernel,
      by decide +kernel⟩))

/-- `stoi` throws at `true`, `NaN` and 2^31, `stoull` at the text of a `bool`, `stof` at what is
too large. -/
theorem results_throw :
    (∀ result ∈ [jsTrue, .other "NaN" 0, .bigint (2 ^ 31), .string ""], ∃ e,
      callbackHandler (returning 0) (runOf "int" (some result)) (infoOf "int") [] 0 = .error e) ∧
    callbackHandler (returning 0) (runOf "bool" (some jsTrue)) (infoOf "bool") [] 0 =
      .error .invalidArgument ∧
    callbackHandler (returning 0) (runOf "float" (some large)) (infoOf "float") [] 0 =
      .error .outOfRange ∧
    ¬ Returns (returning 0) (runOf "int" (some jsTrue)) (infoOf "int") [] := by
  refine ⟨?_, rfl, ?_, ?_⟩
  · intro result hresult
    simp only [List.mem_cons, List.not_mem_nil, or_false] at hresult
    rcases hresult with rfl | rfl | rfl | rfl <;> exact ⟨_, rfl⟩
  · decide +kernel
  · rintro ⟨_, h⟩
    obtain ⟨_, hok, -⟩ := h 0
    cases hok

end Concrete

end CallbackErrors

end Chromatic
