import Chromatic.AddressForms

/-!
# A callback called from the script

A `NativeFunction` on the address of a `NativeCallback`: the script's arguments are printed and
stored, libffi carries them into the slots of the closure, they are printed again and read for
the script's handler, and its result takes the way back.

§1 libffi between the two · §2 arguments and results · §3 arguments that are stored ·
§4 arguments that are received · §5 results · §6 whole calls.
-/

namespace Chromatic

open Foundation NativeFunction NativeCallback CallbackHandler AddressForms

namespace CallbackCalls

/-! ## §1  libffi between the two -/

/-- What the closure finds in a slot for the word stored for an argument, and what the caller
gets for the word that the handler has written. -/
structure Glue where
  slot : FfiType → BitVec 64 → BitVec 64
  result : FfiType → BitVec 64 → BitVec 64

/-- libffi passes the bytes of an argument's type and widens an integer that is returned. -/
structure Glue.Faithful (glue : Glue) : Prop where
  slot_integer : ∀ (type : IntegerType) (word : BitVec 64),
    (glue.slot (getFFIType type.name) word).setWidth type.width = word.setWidth type.width
  slot_pointer : ∀ word, glue.slot .pointer word = word
  result_integer : ∀ (type : IntegerType) (word : BitVec 64) (v : ℤ), type.InRange v →
    word.setWidth type.width = BitVec.ofInt type.width v →
    glue.result (getFFIType type.name) word = type.widen v
  result_pointer : ∀ word, glue.result .pointer word = word

/-- The function that `env` calls is the closure of `info`. -/
def Enters (glue : Glue) (env : Outside) (run : Callback → List String → String)
    (info : CallbackInfo) (ret : BitVec 64) : Prop :=
  ∀ words word, callbackHandler env run info (List.zipWith glue.slot info.argTypes words) ret =
    .ok word → env.call words = glue.result info.retType word

/-! ## §2  Arguments and results -/

/-- An integer of its type's range, or a `NativePointer`. -/
inductive Passed where
  | integer (a : IntegerArg)
  | pointer (value : Addr)

namespace Passed

def type : Passed → String
  | .integer a => a.type.name
  | .pointer _ => "pointer"

def arg : Passed → JsArg
  | .integer a => a.arg
  | .pointer value => .nativePointer value

/-- What the handler is to receive. -/
def param : Passed → JsParam
  | .integer a => .number a.value
  | .pointer value => .nativePointer value

/-- `stoll` reads it, and what is in the slot is printed as the value and read as a double. -/
def Keeps (glue : Glue) : Passed → Prop
  | .integer a => a.type.Readable a.value ∧
      if a.type.width = 64 then Exact a.value.natAbs
      else (glue.slot (getFFIType a.type.name) (BitVec.ofInt 64 a.value)).setWidth 32 =
          BitVec.ofInt 32 a.value ∧ a.type.Printable a.value
  | .pointer value => Fits value

/-- The text that `callFunction` gets. -/
def text : Passed → String
  | .integer a => toString a.value
  | .pointer value => toHexAddr value.toNat

/-- The word that `callFunction` stores. -/
def word : Passed → BitVec 64
  | .integer a => BitVec.ofInt 64 a.value
  | .pointer value => value

end Passed

/-- An integer of its type's range, or anything that becomes a pointer. -/
inductive Returned where
  | integer (r : IntegerResult)
  | pointer (result : JsValue)

namespace Returned

def type : Returned → String
  | .integer r => r.type.name
  | .pointer _ => "pointer"

def result : Returned → JsValue
  | .integer r => r.result
  | .pointer result => result

/-- The result of the call is the handler's. -/
def Gives : Returned → JsResult → Prop
  | .integer r, result => result.integer = some r.value
  | .pointer value, result => result = .nativePointer (ptr value)

def Leaves : Returned → Prop
  | .integer r => r.Leaves
  | .pointer result => Fits (ptr result)

end Returned

/-! ## §3  Arguments that are stored -/

theorem parseHexAddr_toHexAddr (a : Addr) :
    NativeFunction.parseHexAddr (toHexAddr a.toNat) = .ok a := by
  obtain ⟨hread, hdigits⟩ := readHex_toDigits a.toNat
  have htext : (toHexAddr a.toNat).toList = '0' :: 'x' :: Nat.toDigits 16 a.toNat := by
    simp [toHexAddr]
  have hspace : ('0' :: 'x' :: Nat.toDigits 16 a.toNat).dropWhile isSpace =
      '0' :: 'x' :: Nat.toDigits 16 a.toNat :=
    List.dropWhile_cons_of_neg (by decide)
  have hword := readHexWord_prefixed Nat.toDigits_ne_nil hdigits
  rw [hread] at hword
  unfold NativeFunction.parseHexAddr
  simp [htext, hspace, hword, a.isLt]

theorem serializeArg_passed (a : Passed) : serializeArg (some a.type) a.arg = a.text := by
  cases a with
  | integer a => exact a.serializeArg_eq
  | pointer value => rfl

theorem serializeArgs_passed (args : List Passed) :
    serializeArgs (args.map (·.type)) (args.map (·.arg)) = args.map (·.text) := by
  unfold serializeArgs
  apply List.ext_getElem
  · simp
  · intro i hi _
    have hlt : i < args.length := by simpa using hi
    simp [hlt, serializeArg_passed]

theorem storeArg_of_keeps {env : Outside} {glue : Glue} {a : Passed} (h : a.Keeps glue) :
    storeArg env (getFFIType a.type) a.text = .ok a.word := by
  cases a with
  | integer a => exact (a.storeArg_eq env).1 h.1
  | pointer value => exact parseHexAddr_toHexAddr value

/-- The only argument that is refused is one that `stoll` cannot read. -/
theorem storeArg_inv {env : Outside} {a : Passed} {word : BitVec 64}
    (h : storeArg env (getFFIType a.type) a.text = .ok word) :
    word = a.word ∧ ∀ b, a = .integer b → b.type.Readable b.value := by
  cases a with
  | integer a =>
      obtain ⟨hok, herror⟩ := a.storeArg_eq env
      by_cases hread : a.type.Readable a.value
      · obtain rfl := Except.ok.inj ((hok hread).symm.trans h)
        refine ⟨rfl, ?_⟩
        rintro b ⟨rfl⟩
        exact hread
      · cases (herror hread).symm.trans h
  | pointer value =>
      obtain rfl := Except.ok.inj ((parseHexAddr_toHexAddr value).symm.trans h)
      refine ⟨rfl, ?_⟩
      rintro b ⟨⟩

theorem storeArgs_of_keeps {env : Outside} {glue : Glue} {args : List Passed}
    (h : ∀ a ∈ args, a.Keeps glue) :
    storeArgs env (args.map fun a => getFFIType a.type) (args.map (·.text)) =
      .ok (args.map (·.word)) := by
  induction args with
  | nil => rfl
  | cons a rest ih =>
      have hone : storeArg env (getFFIType a.type) a.text = .ok a.word :=
        storeArg_of_keeps (h a List.mem_cons_self)
      have hrest := ih fun b hb => h b (List.mem_cons_of_mem _ hb)
      simp only [List.map_cons, storeArgs, hone, hrest]
      rfl

theorem storeArgs_inv {env : Outside} {args : List Passed} {words : List (BitVec 64)}
    (h : storeArgs env (args.map fun a => getFFIType a.type) (args.map (·.text)) = .ok words) :
    words = args.map (·.word) ∧ ∀ b, .integer b ∈ args → b.type.Readable b.value := by
  induction args generalizing words with
  | nil =>
      obtain rfl := Except.ok.inj h
      refine ⟨rfl, fun b hb => ?_⟩
      cases hb
  | cons a rest ih =>
      simp only [List.map_cons, storeArgs] at h
      cases hone : storeArg env (getFFIType a.type) a.text with
      | error e =>
          rw [hone] at h
          cases h
      | ok word =>
          cases hrest : storeArgs env (rest.map fun a => getFFIType a.type)
              (rest.map (·.text)) with
          | error e =>
              rw [hone, hrest] at h
              cases h
          | ok tail =>
              rw [hone, hrest] at h
              obtain rfl := Except.ok.inj h
              obtain ⟨rfl, hread⟩ := storeArg_inv hone
              obtain ⟨rfl, hreadRest⟩ := ih hrest
              refine ⟨rfl, fun b hb => ?_⟩
              rcases List.mem_cons.mp hb with hhead | htail
              · exact hread b hhead.symm
              · exact hreadRest b htail

/-! ## §4  Arguments that are received -/

section Received

variable {env : Outside} {glue : Glue}

/-- What the handler receives. -/
def Passed.got (glue : Glue) : Passed → JsParam
  | .integer a => .number (nearest (if a.type.width = 64 then a.value else
      ((glue.slot (getFFIType a.type.name) (BitVec.ofInt 64 a.value)).setWidth 32).toInt))
  | .pointer value => .nativePointer (InterceptorScript.pointerFromText (toHexAddr value.toNat))

/-- The slot that libffi fills for an integer. -/
def slotOf (faithful : glue.Faithful) (a : IntegerArg) : IntegerSlot where
  type := a.type
  value := a.value
  slot := glue.slot (getFFIType a.type.name) (BitVec.ofInt 64 a.value)
  inRange := a.inRange
  holds := (faithful.slot_integer a.type _).trans (setWidth_ofInt a.type.width_le a.value)

theorem convertArg_passed (faithful : glue.Faithful) (a : Passed) :
    convertArg (some a.type)
      (readSlot env (getFFIType a.type) (glue.slot (getFFIType a.type) a.word)) =
        a.got glue := by
  cases a with
  | integer a =>
      have hread := (slotOf faithful a).readSlot_eq env
      show convertArg (some a.type.name) (readSlot env (getFFIType a.type.name)
        (slotOf faithful a).slot) = _
      rw [show getFFIType a.type.name = getFFIType (slotOf faithful a).type.name from rfl, hread,
        convertArg_integer, number_toString]
      rfl
  | pointer value =>
      show convertArg (some "pointer") (readSlot env .pointer (glue.slot .pointer value)) = _
      rw [faithful.slot_pointer]
      rfl

theorem received_passed (faithful : glue.Faithful) (args : List Passed) :
    received env (args.map (·.type)) (List.zipWith glue.slot
      ((args.map (·.type)).map getFFIType) (args.map (·.word))) = args.map (·.got glue) := by
  unfold received convertArgs
  apply List.ext_getElem
  · simp
  · intro i hi _
    have hlt : i < args.length := by simpa using hi
    simp [hlt, convertArg_passed faithful]

theorem got_iff (faithful : glue.Faithful) (a : Passed)
    (hread : ∀ b, a = .integer b → b.type.Readable b.value) :
    a.got glue = a.param ↔ a.Keeps glue := by
  cases a with
  | integer a =>
      have harrives := (slotOf faithful a).nearest_printed_iff
      show JsParam.number (nearest (slotOf faithful a).printed) = .number a.value ↔ _
      rw [JsParam.number.injEq]
      exact harrives.trans ⟨fun h => ⟨hread a rfl, h⟩, fun h => h.2⟩
  | pointer value =>
      show JsParam.nativePointer _ = .nativePointer value ↔ Fits value
      rw [JsParam.nativePointer.injEq]
      exact pointerFromText_iff

/-- The handler receives the arguments exactly when each is kept. -/
theorem received_passed_iff (faithful : glue.Faithful) (args : List Passed)
    (hread : ∀ b, .integer b ∈ args → b.type.Readable b.value) :
    received env (args.map (·.type)) (List.zipWith glue.slot
      ((args.map (·.type)).map getFFIType) (args.map (·.word))) = args.map (·.param) ↔
      ∀ a ∈ args, a.Keeps glue := by
  rw [received_passed faithful, List.map_inj_left]
  refine forall₂_congr fun a ha => ?_
  apply got_iff faithful a
  rintro b rfl
  exact hread b ha

end Received

/-! ## §5  Results -/

section Results

variable {env : Outside} {glue : Glue}

/-- The word written for the handler's result. -/
def written (env : Outside) (r : Returned) (ret : BitVec 64) : Except CallError (BitVec 64) :=
  match r with
  | .integer r => writeReturn env (getFFIType r.type.name) (toString r.printed) ret
  | .pointer result => .ok (ptr result)

theorem writeReturn_result {handler : List JsParam → Option JsValue} {r : Returned}
    {argTypes rawArgs : List String}
    (h : handler (convertArgs argTypes rawArgs) = some r.result) (ret : BitVec 64) :
    writeReturn env (getFFIType r.type) (wrappedHandler handler r.type argTypes rawArgs) ret =
      written env r ret := by
  cases r with
  | integer r =>
      rw [show wrappedHandler handler (Returned.integer r).type argTypes rawArgs =
        resultText r.result from wrappedHandler_integer h, r.resultText_eq]
      rfl
  | pointer result =>
      have htext : wrappedHandler handler "pointer" argTypes rawArgs =
          toHexAddr (ptr result).toNat := by
        rw [wrappedHandler, h]
        rfl
      exact (congrArg NativeFunction.parseHexAddr htext).trans (parseHexAddr_toHexAddr _)

/-- What the caller makes of the word written. -/
def readBack (env : Outside) (glue : Glue) (r : Returned) (word : BitVec 64) :
    Except CallError JsResult :=
  parseResult r.type (formatReturn env r.type (glue.result (getFFIType r.type) word))

/-- The value of the type that the low bytes of a word are. -/
theorem exists_inRange (type : IntegerType) (word : BitVec 64) :
    ∃ v, type.InRange v ∧ word.setWidth type.width = BitVec.ofInt type.width v := by
  by_cases hsigned : type.signed = true
  · refine ⟨(word.setWidth type.width).toInt, ?_, (BitVec.ofInt_toInt).symm⟩
    rw [IntegerType.InRange, if_pos hsigned]
    exact ⟨BitVec.le_toInt _, BitVec.toInt_lt⟩
  · refine ⟨(word.setWidth type.width).toNat, ?_, ?_⟩
    · rw [IntegerType.InRange, if_neg hsigned]
      exact ⟨Int.natCast_nonneg _, by exact_mod_cast (word.setWidth type.width).isLt⟩
    · rw [BitVec.ofInt_natCast, BitVec.ofNat_toNat, BitVec.setWidth_eq]

theorem readBack_integer (faithful : glue.Faithful) {r : IntegerResult} {word : BitVec 64} {v : ℤ}
    (hv : r.type.InRange v) (hword : word.setWidth r.type.width = BitVec.ofInt r.type.width v) :
    readBack env glue (.integer r) word =
      .ok (if r.type.width = 64 then .bigint v else .number (v.bmod (2 ^ 32))) := by
  show parseResult r.type.name (formatReturn env r.type.name
    (glue.result (getFFIType r.type.name) word)) = _
  rw [faithful.result_integer r.type word v hv hword]
  exact parseResult_integer env hv

/-- A word of less than 64 bits has the low bytes of the value, if it is written. -/
theorem encodes_of_narrow {r : IntegerResult} {ret word : BitVec 64} (hwidth : r.type.width ≠ 64)
    (h : writeReturn env (getFFIType r.type.name) (toString r.printed) ret = .ok word) :
    r.Encodes word := by
  have hrange := r.inRange
  unfold IntegerType.InRange at hrange
  have hle : r.type.width ≤ 32 := by
    cases htype : r.type <;> simp_all [IntegerType.width]
  have hsame : r.printed = r.value := by
    apply r.printed_cases.2
    cases htype : r.type <;> simp_all [IntegerType.signed, IntegerType.width] <;> omega
  rw [writeReturn_narrow env hwidth, hsame, stoi_toString] at h
  split at h
  · obtain rfl := Except.ok.inj h
    rw [IntegerResult.Encodes, writeLow_setWidth _ _ hle, setWidth_ofInt hle]
  · cases h

/-- The result comes back exactly when it leaves the handler as it is. -/
theorem returned_iff (faithful : glue.Faithful) (r : Returned) (ret : BitVec 64) :
    (∃ word result, written env r ret = .ok word ∧ readBack env glue r word = .ok result ∧
      r.Gives result) ↔ r.Leaves := by
  cases r with
  | integer r =>
      show _ ↔ r.Leaves
      rw [← r.writeReturn_iff env ret]
      constructor
      · rintro ⟨word, result, hwritten, hread, hgives⟩
        refine ⟨word, hwritten, ?_⟩
        by_cases hwidth : r.type.width = 64
        · obtain ⟨v, hv, hlow⟩ := exists_inRange r.type word
          rw [readBack_integer faithful hv hlow, if_pos hwidth] at hread
          obtain rfl := Except.ok.inj hread
          obtain rfl : v = r.value := Option.some.inj hgives
          exact hlow
        · exact encodes_of_narrow hwidth hwritten
      · rintro ⟨word, hwritten, hencodes⟩
        refine ⟨word, _, hwritten, readBack_integer faithful r.inRange hencodes, ?_⟩
        have hleaves := (r.writeReturn_iff env ret).mp ⟨word, hwritten, hencodes⟩
        exact (integer_result_iff r.inRange).mpr hleaves.1
  | pointer value =>
      show _ ↔ Fits (ptr value)
      have hread : readBack env glue (.pointer value) (ptr value) =
          .ok (.nativePointer
            (InterceptorScript.pointerFromText (toHexAddr (ptr value).toNat))) := by
        show parseResult "pointer"
          (formatReturn env "pointer" (glue.result .pointer (ptr value))) = _
        rw [faithful.result_pointer]
        rfl
      rw [← pointerFromText_iff]
      constructor
      · rintro ⟨word, result, hwritten, hback, hgives⟩
        obtain rfl := Except.ok.inj hwritten
        obtain rfl := Except.ok.inj (hread.symm.trans hback)
        exact JsResult.nativePointer.inj hgives
      · intro hfits
        refine ⟨_, _, rfl, hread, ?_⟩
        rw [hfits]
        rfl

end Results

/-! ## §6  Whole calls -/

/-- The handler receives what the script passes, writes its result without an exception, and the
script gets what the handler returns. -/
def Survives (target : Target) (env : Outside) (glue : Glue) (run : Callback → List String → String)
    (info : CallbackInfo) (abi : String) (args : List Passed) (r : Returned) (ret : BitVec 64) :
    Prop :=
  ∃ words word result,
    storeArgs env ((args.map (·.type)).map getFFIType)
      (serializeArgs (args.map (·.type)) (args.map (·.arg))) = .ok words ∧
    received env (args.map (·.type)) (List.zipWith glue.slot info.argTypes words) =
      args.map (·.param) ∧
    callbackHandler env run info (List.zipWith glue.slot info.argTypes words) ret = .ok word ∧
    _call target env r.type (args.map (·.type)) abi (args.map (·.arg)) = .ok result ∧
    r.Gives result

section Calls

variable {target : Target} {env : Outside} {glue : Glue} {run : Callback → List String → String}
  {info : CallbackInfo} {abi : String} {args : List Passed} {r : Returned} {ret : BitVec 64}
  {handler : List JsParam → Option JsValue}

theorem _call_passed {words : List (BitVec 64)} {word : BitVec 64}
    (henters : Enters glue env run info ret) (hret : info.retType = getFFIType r.type)
    (hprep : env.prepCif (getFFIAbi target abi) (getFFIType r.type)
      ((args.map (·.type)).map getFFIType) = true)
    (hwords : storeArgs env ((args.map (·.type)).map getFFIType)
      (serializeArgs (args.map (·.type)) (args.map (·.arg))) = .ok words)
    (hword : callbackHandler env run info (List.zipWith glue.slot info.argTypes words) ret =
      .ok word) :
    _call target env r.type (args.map (·.type)) abi (args.map (·.arg)) =
      readBack env glue r word := by
  unfold _call callFunction
  simp only [hprep, hwords]
  show parseResult r.type (formatReturn env r.type (env.call words)) = _
  rw [henters words word hword, hret]
  rfl

/-- **A call through a callback is a call of the handler.** The handler receives what the script
passes and the script gets what the handler returns, exactly when `stoll` reads every argument,
every slot holds what is printed as the value and read as a double, and so for the result. -/
theorem calls_survive_iff (faithful : glue.Faithful)
    (hmade : Made info r.type (args.map (·.type)))
    (hrun : run info.handler = wrappedHandler handler r.type (args.map (·.type)))
    (henters : Enters glue env run info ret)
    (hprep : env.prepCif (getFFIAbi target abi) (getFFIType r.type)
      ((args.map (·.type)).map getFFIType) = true)
    (hreturns : handler (args.map (·.param)) = some r.result) :
    Survives target env glue run info abi args r ret ↔
      (∀ a ∈ args, a.Keeps glue) ∧ r.Leaves := by
  have htypes : (args.map (·.type)).map getFFIType = args.map fun a => getFFIType a.type :=
    List.map_map
  have hhandler : ∀ words, received env (args.map (·.type))
      (List.zipWith glue.slot info.argTypes words) = args.map (·.param) →
      callbackHandler env run info (List.zipWith glue.slot info.argTypes words) ret =
        written env r ret := by
    intro words hreceived
    rw [callbackHandler, hmade.ret, hrun]
    apply writeReturn_result
    rw [received, ← hmade.args] at hreceived
    rw [hreceived, hreturns]
  have hresult : (∃ word result, written env r ret = .ok word ∧
      readBack env glue r word = .ok result ∧ r.Gives result) ↔ r.Leaves :=
    returned_iff faithful r ret
  rw [← hresult]
  constructor
  · rintro ⟨words, word, result, hwords, hreceived, hword, hcall, hgives⟩
    have hstored := hwords
    rw [htypes, serializeArgs_passed] at hstored
    obtain ⟨rfl, hread⟩ := storeArgs_inv hstored
    constructor
    · rw [hmade.args] at hreceived
      exact (received_passed_iff faithful args hread).mp hreceived
    · refine ⟨word, result, ?_, ?_, hgives⟩
      · rw [← hhandler _ hreceived]
        exact hword
      · rw [← _call_passed henters hmade.ret hprep hwords hword]
        exact hcall
  · rintro ⟨hkeeps, word, result, hwritten, hback, hgives⟩
    have hwords : storeArgs env ((args.map (·.type)).map getFFIType)
        (serializeArgs (args.map (·.type)) (args.map (·.arg))) = .ok (args.map (·.word)) := by
      rw [htypes, serializeArgs_passed]
      exact storeArgs_of_keeps hkeeps
    have hread : ∀ b, .integer b ∈ args → b.type.Readable b.value :=
      fun b hb => (hkeeps _ hb).1
    have hreceived : received env (args.map (·.type))
        (List.zipWith glue.slot info.argTypes (args.map (·.word))) = args.map (·.param) := by
      rw [hmade.args]
      exact (received_passed_iff faithful args hread).mpr hkeeps
    have hword := (hhandler _ hreceived).trans hwritten
    refine ⟨_, word, result, hwords, hreceived, hword, ?_, hgives⟩
    rw [_call_passed henters hmade.ret hprep hwords hword]
    exact hback

section Concrete

/-- libffi as it passes integers in registers: widened by their type. -/
def extend (type : FfiType) (word : BitVec 64) : BitVec 64 :=
  match type with
  | .sint8 => (word.setWidth 8).signExtend 64
  | .uint8 => (word.setWidth 8).setWidth 64
  | .sint16 => (word.setWidth 16).signExtend 64
  | .uint16 => (word.setWidth 16).setWidth 64
  | .sint32 => (word.setWidth 32).signExtend 64
  | .uint32 => (word.setWidth 32).setWidth 64
  | _ => word

def registers : Glue := ⟨extend, extend⟩

theorem extend_integer (type : IntegerType) (word : BitVec 64) :
    extend (getFFIType type.name) word =
      if type.signed then (word.setWidth type.width).signExtend 64
      else (word.setWidth type.width).setWidth 64 := by
  cases type <;> simp [extend, getFFIType, IntegerType.name, IntegerType.signed,
    IntegerType.width]

theorem setWidth_signExtend {w : ℕ} (x : BitVec w) (h : w ≤ 64) :
    (x.signExtend 64).setWidth w = x := by
  apply BitVec.eq_of_getLsbD_eq
  intro i hi
  have hlt : i < 64 := hi.trans_le h
  rw [BitVec.getLsbD_setWidth, BitVec.getLsbD_signExtend, if_pos hi, decide_eq_true hi,
    decide_eq_true hlt, Bool.true_and, Bool.true_and]

theorem registers_faithful : registers.Faithful where
  slot_integer := by
    intro type word
    show (extend (getFFIType type.name) word).setWidth type.width = _
    rw [extend_integer]
    split_ifs
    · exact setWidth_signExtend _ type.width_le
    · rw [BitVec.setWidth_setWidth_of_le _ type.width_le, BitVec.setWidth_eq]
  slot_pointer := fun _ => rfl
  result_integer := by
    intro type word v _ hword
    show extend (getFFIType type.name) word = _
    rw [extend_integer, hword]
    rfl
  result_pointer := fun _ => rfl

/-- A byte and a pointer. -/
def byteAndPointer : List Passed := [.integer minusOne, .pointer 0x7F0000001000]

theorem answer_inRange : IntegerType.short.InRange (-2) := by
  simp [IntegerType.InRange, IntegerType.signed, IntegerType.width]

/-- The handler answers with a `short`, whatever it receives. -/
def answer : IntegerResult where
  type := .short
  result := .number (-2) (by decide) (exact_of_lt (by decide))
  value := -2
  is := rfl
  inRange := answer_inRange

def answering : Callback → List String → String :=
  fun _ => wrappedHandler (fun _ => some answer.result) "short" ["int8", "pointer"]

def answerInfo : CallbackInfo := ⟨0x10, 0, 0x20, 0x30, [.sint8, .pointer], .sint16⟩

/-- `ffi_call` on the closure. -/
def callClosure (words : List (BitVec 64)) : BitVec 64 :=
  match callbackHandler (returning 0) answering answerInfo
    (List.zipWith registers.slot answerInfo.argTypes words) 0 with
  | .ok word => registers.result answerInfo.retType word
  | .error _ => 0

def entering : Outside := { returning 0 with call := callClosure }

theorem entering_enters : Enters registers entering answering answerInfo 0 := by
  intro words word h
  have hsame : callbackHandler (returning 0) answering answerInfo
      (List.zipWith registers.slot answerInfo.argTypes words) 0 = .ok word := h
  show callClosure words = _
  rw [callClosure, hsame]

theorem calls_survive_answer :
    Survives ⟨.x64, .linux⟩ entering registers answering answerInfo "default" byteAndPointer
      (.integer answer) 0 := by
  refine (calls_survive_iff registers_faithful ⟨rfl, rfl⟩ rfl entering_enters rfl rfl).mpr ⟨?_, ?_⟩
  · intro a ha
    rcases List.mem_cons.mp ha with rfl | ha
    · refine ⟨fun h => ?_, ?_⟩
      · cases h
      · rw [if_neg (by decide)]
        refine ⟨by decide, fun h => ?_⟩
        cases h
    · obtain rfl := List.mem_singleton.mp ha
      show Fits 0x7F0000001000
      decide
  · refine ⟨fun h => ?_, ?_⟩
    · cases h
    · rfl

end Concrete

end Calls

end CallbackCalls

end Chromatic
