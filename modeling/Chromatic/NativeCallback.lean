import Chromatic.State
import Chromatic.NativeFunction

/-!
# Native callbacks

`NativeFFI::createCallback` and `destroyCallback`: script functions behind closures of libffi.

§1 the state · §2 createCallback · §3 destroyCallback.
-/

namespace Chromatic

open Foundation NativeFunction

namespace NativeCallback

/-! ## §1  The state -/

/-- `self` is the address `new` returned. -/
structure CallbackInfo where
  self : Addr
  handler : Callback
  closure : Addr
  codeAddr : Addr
  argTypes : List FfiType
  retType : FfiType
deriving DecidableEq, Repr

/-- `closures` lists those allocated and not yet freed. -/
structure CallbackState where
  callbacks : HashMap Addr CallbackInfo
  closures : List Addr

/-- The hooking runtime and the callbacks. A `CallbackInfo` is on the same heap as the entries
of the registries. -/
structure Runtime where
  world : World
  ffi : CallbackState

def Runtime.start (code : Memory) (disposition : Sig → SigAction) : Runtime where
  world := .start code disposition
  ffi := ⟨∅, []⟩

/-! ## §2  createCallback -/

/-- What the calls inside `createCallback` answer: `new`, `ffi_prep_cif`, `ffi_closure_alloc`
(the closure and the address of its code) and `ffi_prep_closure_loc`. -/
structure Install where
  self : Addr
  prepCif : FfiAbi → FfiType → List FfiType → Bool
  closure : Option (Addr × Addr)
  prepClosure : Bool

def createCallback (target : Target) (env : Install) (handler : Callback) (retType : String)
    (argTypes : List String) (abi : String) (r : Runtime) : Except String Addr × Runtime :=
  let w := r.world.allocate env.self
  let types := argTypes.map getFFIType
  if !env.prepCif (getFFIAbi target abi) (getFFIType retType) types then
    (.error "ffi_prep_cif failed for callback", { r with world := w.delete env.self })
  else
    match env.closure with
    | none => (.error "ffi_closure_alloc failed", { r with world := w.delete env.self })
    | some (closure, codeAddr) =>
      let closures := closure :: r.ffi.closures
      if !env.prepClosure then
        (.error "ffi_prep_closure_loc failed",
          { r with
            world := w.delete env.self
            ffi := { r.ffi with closures := closures.erase closure } })
      else
        let info : CallbackInfo :=
          { self := env.self, handler := handler, closure := closure, codeAddr := codeAddr,
            argTypes := types, retType := getFFIType retType }
        (.ok codeAddr,
          { r with
            world := w
            ffi := ⟨r.ffi.callbacks.insert codeAddr info, closures⟩ })

/-! ## §3  destroyCallback -/

def destroyCallback (address : Addr) (r : Runtime) : Runtime :=
  match r.ffi.callbacks.lookup address with
  | none => r
  | some info =>
    { r with
      world := r.world.delete info.self
      ffi := ⟨r.ffi.callbacks.erase address, r.ffi.closures.erase info.closure⟩ }

end NativeCallback

end Chromatic
