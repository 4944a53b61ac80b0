import Chromatic.Foundation.TwosComplement

/-!
# Int64 and UInt64

The boxed integers of `int64.ts`, on unbounded integers as `bigint` has them. `UInt64` reduces in
its constructor, `Int64` nowhere.

§1 the two classes · §2 expressions · §3 UInt64 is arithmetic modulo 2^64 · §4 what Int64
computes · §5 when Int64 is 64-bit arithmetic.
-/

namespace Chromatic

open Foundation

namespace BoxedIntegers

/-! ## §1  The two classes -/

/-- `BigInt.asUintN(bits, z)`. -/
def asUintN (bits : ℕ) (z : ℤ) : ℤ := z % 2 ^ bits

theorem asUintN_mem (z : ℤ) : 0 ≤ asUintN 64 z ∧ asUintN 64 z < 2 ^ 64 :=
  ⟨Int.emod_nonneg z (by decide), Int.emod_lt_of_pos z (by decide)⟩

structure UInt64 where
  _value : ℤ
  inRange : 0 ≤ _value ∧ _value < 2 ^ 64

structure Int64 where
  _value : ℤ

/-- A parameter of a method: an integer that `BigInt` converts, or a box. -/
inductive Rhs (Box : Type) where
  | integer (z : ℤ)
  | box (b : Box)

/-- `-1`, `0` or `1`. -/
def ordering (a b : ℤ) : ℤ := if a < b then -1 else if a > b then 1 else 0

namespace UInt64

def new : Rhs UInt64 → UInt64
  | .box u => u
  | .integer z => ⟨asUintN 64 z, asUintN_mem z⟩

/-- `BigInt(rhs instanceof UInt64 ? rhs._value : rhs)`. -/
def toBigInt : Rhs UInt64 → ℤ
  | .box u => u._value
  | .integer z => z

/-- `new UInt64(this._value ∘ BigInt(rhs))`. -/
def binary (f : ℤ → ℤ → ℤ) (this : UInt64) (rhs : Rhs UInt64) : UInt64 :=
  new (.integer (f this._value (toBigInt rhs)))

def add : UInt64 → Rhs UInt64 → UInt64 := binary (· + ·)
def sub : UInt64 → Rhs UInt64 → UInt64 := binary (· - ·)
def and : UInt64 → Rhs UInt64 → UInt64 := binary Int.land
def or : UInt64 → Rhs UInt64 → UInt64 := binary Int.lor
def xor : UInt64 → Rhs UInt64 → UInt64 := binary Int.xor

def shr (this : UInt64) (n : ℕ) : UInt64 := new (.integer (this._value >>> n))

def shl (this : UInt64) (n : ℕ) : UInt64 := new (.integer (this._value <<< n))

def not (this : UInt64) : UInt64 := new (.integer (asUintN 64 (Int.lnot this._value)))

def equals (this : UInt64) (rhs : Rhs UInt64) : Bool := this._value = asUintN 64 (toBigInt rhs)

def compare (this : UInt64) (rhs : Rhs UInt64) : ℤ :=
  ordering this._value (asUintN 64 (toBigInt rhs))

end UInt64

namespace Int64

def new : Rhs Int64 → Int64
  | .box b => b
  | .integer z => ⟨z⟩

/-- `BigInt(rhs instanceof Int64 ? rhs._value : rhs)`. -/
def toBigInt : Rhs Int64 → ℤ
  | .box b => b._value
  | .integer z => z

/-- `new Int64(this._value ∘ BigInt(rhs))`. -/
def binary (f : ℤ → ℤ → ℤ) (this : Int64) (rhs : Rhs Int64) : Int64 :=
  new (.integer (f this._value (toBigInt rhs)))

def add : Int64 → Rhs Int64 → Int64 := binary (· + ·)
def sub : Int64 → Rhs Int64 → Int64 := binary (· - ·)
def and : Int64 → Rhs Int64 → Int64 := binary Int.land
def or : Int64 → Rhs Int64 → Int64 := binary Int.lor
def xor : Int64 → Rhs Int64 → Int64 := binary Int.xor

def shr (this : Int64) (n : ℕ) : Int64 := new (.integer (this._value >>> n))

def shl (this : Int64) (n : ℕ) : Int64 := new (.integer (this._value <<< n))

def not (this : Int64) : Int64 := new (.integer (Int.lnot this._value))

def equals (this : Int64) (rhs : Rhs Int64) : Bool := this._value = toBigInt rhs

def compare (this : Int64) (rhs : Rhs Int64) : ℤ := ordering this._value (toBigInt rhs)

end Int64

/-! ## §2  Expressions -/

inductive BinOp where
  | add
  | sub
  | and
  | or
  | xor
deriving DecidableEq, Repr

/-- The operator on unbounded integers. -/
def BinOp.apply : BinOp → ℤ → ℤ → ℤ
  | .add => (· + ·)
  | .sub => (· - ·)
  | .and => Int.land
  | .or => Int.lor
  | .xor => Int.xor

def BinOp.uint64 : BinOp → UInt64 → Rhs UInt64 → UInt64
  | .add => UInt64.add
  | .sub => UInt64.sub
  | .and => UInt64.and
  | .or => UInt64.or
  | .xor => UInt64.xor

def BinOp.int64 : BinOp → Int64 → Rhs Int64 → Int64
  | .add => Int64.add
  | .sub => Int64.sub
  | .and => Int64.and
  | .or => Int64.or
  | .xor => Int64.xor

theorem BinOp.uint64_eq (o : BinOp) : o.uint64 = UInt64.binary o.apply := by cases o <;> rfl

theorem BinOp.int64_eq (o : BinOp) : o.int64 = Int64.binary o.apply := by cases o <;> rfl

/-- What a script can write with one of the classes. `withInteger` has a plain integer on the
right, `withBox` an expression of its own. -/
inductive Expr where
  | new (z : ℤ)
  | withInteger (o : BinOp) (lhs : Expr) (z : ℤ)
  | withBox (o : BinOp) (lhs rhs : Expr)
  | not (e : Expr)
  | shl (e : Expr) (n : ℕ)
  | shr (e : Expr) (n : ℕ)
deriving DecidableEq, Repr

namespace Expr

def uint64 : Expr → UInt64
  | .new z => UInt64.new (.integer z)
  | .withInteger o lhs z => o.uint64 lhs.uint64 (.integer z)
  | .withBox o lhs rhs => o.uint64 lhs.uint64 (.box rhs.uint64)
  | .not e => e.uint64.not
  | .shl e n => e.uint64.shl n
  | .shr e n => e.uint64.shr n

def int64 : Expr → Int64
  | .new z => Int64.new (.integer z)
  | .withInteger o lhs z => o.int64 lhs.int64 (.integer z)
  | .withBox o lhs rhs => o.int64 lhs.int64 (.box rhs.int64)
  | .not e => e.int64.not
  | .shl e n => e.int64.shl n
  | .shr e n => e.int64.shr n

/-- The expression over the unbounded integers, with a meaning of `shr` given. -/
def evalWith (shiftRight : ℤ → ℕ → ℤ) : Expr → ℤ
  | .new z => z
  | .withInteger o lhs z => o.apply (lhs.evalWith shiftRight) z
  | .withBox o lhs rhs => o.apply (lhs.evalWith shiftRight) (rhs.evalWith shiftRight)
  | .not e => Int.lnot (e.evalWith shiftRight)
  | .shl e n => e.evalWith shiftRight <<< n
  | .shr e n => shiftRight (e.evalWith shiftRight) n

/-- `shr` is the logical shift of the residue. -/
def unbounded (e : Expr) : ℤ := e.evalWith fun v n => (v % 2 ^ 64) >>> n

/-- Every operator on unbounded integers. -/
def exact (e : Expr) : ℤ := e.evalWith fun v n => v >>> n

end Expr

/-- The right side of a comparison. -/
inductive Operand where
  | integer (z : ℤ)
  | box (e : Expr)

namespace Operand

def uint64 : Operand → Rhs UInt64
  | .integer z => .integer z
  | .box e => .box e.uint64

def int64 : Operand → Rhs Int64
  | .integer z => .integer z
  | .box e => .box e.int64

def unbounded : Operand → ℤ
  | .integer z => z
  | .box e => e.unbounded

def exact : Operand → ℤ
  | .integer z => z
  | .box e => e.exact

end Operand

/-! ## §3  UInt64 is arithmetic modulo 2^64 -/

section UInt64

theorem BinOp.apply_modEq (o : BinOp) {a a' b b' : ℤ} (ha : a ≡ a' [ZMOD 2 ^ 64])
    (hb : b ≡ b' [ZMOD 2 ^ 64]) : o.apply a b ≡ o.apply a' b' [ZMOD 2 ^ 64] := by
  cases o with
  | add => exact ha.add hb
  | sub => exact ha.sub hb
  | and => exact land_modEq ha hb
  | or => exact lor_modEq ha hb
  | xor => exact xor_modEq ha hb

/-- A shift to the right keeps a residue in its range. -/
theorem shiftRight_emod (z : ℤ) (n : ℕ) : (z % 2 ^ 64) >>> n % 2 ^ 64 = (z % 2 ^ 64) >>> n := by
  obtain ⟨hlow, hhigh⟩ := asUintN_mem z
  rw [asUintN] at hlow hhigh
  rw [Int.shiftRight_eq_div_pow]
  apply Int.emod_eq_of_lt
  · exact Int.ediv_nonneg hlow (by positivity)
  · exact lt_of_le_of_lt (Int.ediv_le_self _ hlow) hhigh

theorem Expr.uint64_value (e : Expr) : e.uint64._value = e.unbounded % 2 ^ 64 := by
  have hself : ∀ z : ℤ, z % 2 ^ 64 ≡ z [ZMOD 2 ^ 64] := fun z => Int.mod_modEq z _
  induction e with
  | new z => rfl
  | withInteger o lhs z ih =>
      show ((o.uint64 lhs.uint64 (.integer z))._value) = o.apply lhs.unbounded z % 2 ^ 64
      rw [BinOp.uint64_eq]
      apply o.apply_modEq ?_ rfl
      rw [ih]
      exact hself _
  | withBox o lhs rhs ihl ihr =>
      show (o.uint64 lhs.uint64 (.box rhs.uint64))._value =
        o.apply lhs.unbounded rhs.unbounded % 2 ^ 64
      rw [BinOp.uint64_eq]
      apply o.apply_modEq
      · rw [ihl]
        exact hself _
      · show rhs.uint64._value ≡ _ [ZMOD _]
        rw [ihr]
        exact hself _
  | not e ih =>
      show asUintN 64 (asUintN 64 (Int.lnot e.uint64._value)) = Int.lnot e.unbounded % 2 ^ 64
      rw [asUintN, asUintN, Int.emod_emod_of_dvd _ dvd_rfl, ih]
      exact lnot_modEq (hself _)
  | shl e n ih =>
      show asUintN 64 (e.uint64._value <<< n) = e.unbounded <<< n % 2 ^ 64
      rw [asUintN, ih]
      exact shiftLeft_modEq n (hself _)
  | shr e n ih =>
      show asUintN 64 (e.uint64._value >>> n) = (e.unbounded % 2 ^ 64) >>> n % 2 ^ 64
      rw [asUintN, ih]

theorem Operand.uint64_residue (r : Operand) :
    asUintN 64 (UInt64.toBigInt r.uint64) = r.unbounded % 2 ^ 64 := by
  cases r with
  | integer z => rfl
  | box e =>
      show e.uint64._value % 2 ^ 64 = e.unbounded % 2 ^ 64
      rw [e.uint64_value]
      exact Int.emod_emod_of_dvd _ dvd_rfl

/-- **UInt64 is arithmetic modulo 2^64.** -/
theorem uint64_modular (e : Expr) :
    (0 ≤ e.uint64._value ∧ e.uint64._value < 2 ^ 64) ∧
      e.uint64._value = e.unbounded % 2 ^ 64 ∧
      (∀ n, (e.uint64.shr n)._value = (e.unbounded % 2 ^ 64) >>> n) ∧
      (∀ r : Operand, e.uint64.equals r.uint64 = true ↔
        e.unbounded % 2 ^ 64 = r.unbounded % 2 ^ 64) ∧
      ∀ r : Operand, e.uint64.compare r.uint64 =
        ordering (e.unbounded % 2 ^ 64) (r.unbounded % 2 ^ 64) := by
  have hvalue := e.uint64_value
  refine ⟨e.uint64.inRange, hvalue, fun n => ?_, fun r => ?_, fun r => ?_⟩
  · show asUintN 64 (e.uint64._value >>> n) = _
    rw [hvalue]
    exact shiftRight_emod _ n
  · rw [UInt64.equals, decide_eq_true_eq, hvalue, r.uint64_residue]
  · rw [UInt64.compare, hvalue, r.uint64_residue]

end UInt64

/-! ## §4  What Int64 computes -/

section Int64

/-- Nothing is ever reduced. -/
theorem Expr.int64_value (e : Expr) : e.int64._value = e.exact := by
  induction e with
  | new z => rfl
  | withInteger o lhs z ih =>
      show (o.int64 lhs.int64 (.integer z))._value = o.apply lhs.exact z
      rw [BinOp.int64_eq, ← ih]
      rfl
  | withBox o lhs rhs ihl ihr =>
      show (o.int64 lhs.int64 (.box rhs.int64))._value = o.apply lhs.exact rhs.exact
      rw [BinOp.int64_eq, ← ihl, ← ihr]
      rfl
  | not e ih => exact congrArg Int.lnot ih
  | shl e n ih => exact congrArg (fun v : ℤ => v <<< n) ih
  | shr e n ih => exact congrArg (fun v : ℤ => v >>> n) ih

theorem Operand.int64_value (r : Operand) : Int64.toBigInt r.int64 = r.exact := by
  cases r with
  | integer z => rfl
  | box e => exact e.int64_value

/-- The 64-bit result of the last operation on the operands it has. -/
def Expr.result : Expr → ℤ
  | .new z => wrap 63 z
  | .withInteger o lhs z => wrap 63 (o.apply lhs.int64._value z)
  | .withBox o lhs rhs => wrap 63 (o.apply lhs.int64._value rhs.int64._value)
  | .not e => wrap 63 (Int.lnot e.int64._value)
  | .shl e n => wrap 63 (e.int64._value <<< n)
  | .shr e n => wrap 63 e.int64._value >>> n

/-- `p` holds of the expression and of all expressions in it. -/
def Expr.All (p : Expr → Prop) : Expr → Prop
  | .new z => p (.new z)
  | .withInteger o lhs z => p (.withInteger o lhs z) ∧ lhs.All p
  | .withBox o lhs rhs => p (.withBox o lhs rhs) ∧ lhs.All p ∧ rhs.All p
  | .not e => p (.not e) ∧ e.All p
  | .shl e n => p (.shl e n) ∧ e.All p
  | .shr e n => p (.shr e n) ∧ e.All p

def Operand.All (p : Expr → Prop) : Operand → Prop
  | .integer _ => True
  | .box e => e.All p

theorem Expr.All.self {p : Expr → Prop} {e : Expr} (h : e.All p) : p e := by
  cases e with
  | new z => exact h
  | withInteger o lhs z => exact h.1
  | withBox o lhs rhs => exact h.1
  | not e => exact h.1
  | shl e n => exact h.1
  | shr e n => exact h.1

/-- The value is a 64-bit integer and what the operation gives in 64 bits. -/
def Wrapped (e : Expr) : Prop :=
  SignedRange 63 e.int64._value ∧ e.int64._value = e.result

/-- Over the unbounded integers the value is one of 64 bits. -/
def Fits (e : Expr) : Prop := SignedRange 63 e.exact

theorem Wrapped.fits {e : Expr} (h : Wrapped e) : Fits e := by
  rw [Fits, ← e.int64_value]
  exact h.1

/-- Operations before which everything fits. -/
theorem Fits.wrapped {e : Expr} (h : e.All Fits) : Wrapped e := by
  have hself : SignedRange 63 e.int64._value := e.int64_value ▸ h.self
  refine ⟨hself, ?_⟩
  cases e with
  | new z => exact (wrap_eq_iff.mpr hself).symm
  | withInteger o lhs z =>
      have hvalue : (Expr.withInteger o lhs z).int64._value = o.apply lhs.int64._value z := by
        rw [Expr.int64, BinOp.int64_eq]
        rfl
      rw [hvalue] at hself ⊢
      exact (wrap_eq_iff.mpr hself).symm
  | withBox o lhs rhs =>
      have hvalue : (Expr.withBox o lhs rhs).int64._value =
          o.apply lhs.int64._value rhs.int64._value := by
        rw [Expr.int64, BinOp.int64_eq]
        rfl
      rw [hvalue] at hself ⊢
      exact (wrap_eq_iff.mpr hself).symm
  | not e => exact (wrap_eq_iff.mpr hself).symm
  | shl e n => exact (wrap_eq_iff.mpr hself).symm
  | shr e n =>
      -- the shift itself wraps nothing, its operand has to fit
      have hoperand : SignedRange 63 e.int64._value := e.int64_value ▸ h.2.self
      exact congrArg (fun v : ℤ => v >>> n) (wrap_eq_iff.mpr hoperand).symm

theorem Expr.all_wrapped_iff (e : Expr) : e.All Wrapped ↔ e.All Fits := by
  induction e with
  | new z => exact ⟨Wrapped.fits, fun h => Fits.wrapped h⟩
  | withInteger o lhs z ih =>
      exact ⟨fun h => ⟨h.1.fits, ih.mp h.2⟩, fun h => ⟨Fits.wrapped h, ih.mpr h.2⟩⟩
  | withBox o lhs rhs ihl ihr =>
      exact ⟨fun h => ⟨h.1.fits, ihl.mp h.2.1, ihr.mp h.2.2⟩,
        fun h => ⟨Fits.wrapped h, ihl.mpr h.2.1, ihr.mpr h.2.2⟩⟩
  | not e ih => exact ⟨fun h => ⟨h.1.fits, ih.mp h.2⟩, fun h => ⟨Fits.wrapped h, ih.mpr h.2⟩⟩
  | shl e n ih => exact ⟨fun h => ⟨h.1.fits, ih.mp h.2⟩, fun h => ⟨Fits.wrapped h, ih.mpr h.2⟩⟩
  | shr e n ih => exact ⟨fun h => ⟨h.1.fits, ih.mp h.2⟩, fun h => ⟨Fits.wrapped h, ih.mpr h.2⟩⟩

theorem Operand.all_wrapped_iff (r : Operand) : r.All Wrapped ↔ r.All Fits := by
  cases r with
  | integer z => rfl
  | box e => exact e.all_wrapped_iff

/-! ## §5  When Int64 is 64-bit arithmetic -/

/-- Comparisons answer as they would on reduced operands. -/
structure ComparesReduced (e : Expr) (r : Operand) : Prop where
  equals : e.int64.equals r.int64 = true ↔
    wrap 63 e.int64._value = wrap 63 (Int64.toBigInt r.int64)
  compare : e.int64.compare r.int64 =
    ordering (wrap 63 e.int64._value) (wrap 63 (Int64.toBigInt r.int64))

/-- The operand fits, or reducing it does not take it past `a`. -/
def Comparable (a z : ℤ) : Prop :=
  SignedRange 63 z ∨ (2 ^ 63 ≤ z ∧ a < wrap 63 z) ∨ (z < -2 ^ 63 ∧ wrap 63 z < a)

theorem ordering_wrap_iff {a z : ℤ} (ha : SignedRange 63 a) :
    ordering a z = ordering a (wrap 63 z) ↔ Comparable a z := by
  have hwrap := wrap_mem 63 z
  have hself := @wrap_eq_iff 63 z
  unfold Comparable ordering SignedRange at *
  generalize wrap 63 z = w at *
  by_cases hz : -2 ^ 63 ≤ z ∧ z < 2 ^ 63
  · rw [hself.mpr hz]
    exact iff_of_true rfl (.inl hz)
  · -- outside the range the order of `a` and `z` is known
    rcases (show z < -2 ^ 63 ∨ 2 ^ 63 ≤ z by omega) with hlow | hhigh
    · rw [if_neg (by omega), if_pos (show a > z by omega)]
      split_ifs <;> grind
    · rw [if_pos (show a < z by omega)]
      split_ifs <;> grind

theorem comparesReduced_iff {e : Expr} {r : Operand} (he : SignedRange 63 e.exact) :
    ComparesReduced e r ↔ Comparable e.exact r.exact := by
  have hself := wrap_eq_iff.mpr he
  constructor
  · rintro ⟨-, hcompare⟩
    rw [Int64.compare, e.int64_value, r.int64_value, hself] at hcompare
    exact (ordering_wrap_iff he).mp hcompare
  · intro h
    refine ⟨?_, ?_⟩
    · rw [Int64.equals, decide_eq_true_eq, e.int64_value, r.int64_value, hself]
      have hwrap := wrap_mem 63 r.exact
      have hfits := @wrap_eq_iff 63 r.exact
      unfold Comparable SignedRange at *
      generalize wrap 63 r.exact = w at *
      omega
    · rw [Int64.compare, e.int64_value, r.int64_value, hself]
      exact (ordering_wrap_iff he).mpr h

/-- **When Int64 is 64-bit arithmetic.** Every operation gives what it does in 64 bits, and the
comparisons answer for reduced operands, exactly when no value of the expressions leaves the 64
bits and the operand compared with fits or stays on its side of the value when it is reduced. -/
theorem int64_wraps_iff (e : Expr) (r : Operand) :
    (e.All Wrapped ∧ r.All Wrapped ∧ ComparesReduced e r) ↔
      e.All Fits ∧ r.All Fits ∧ Comparable e.exact r.exact := by
  rw [e.all_wrapped_iff, r.all_wrapped_iff]
  constructor
  · rintro ⟨he, hr, hcompares⟩
    exact ⟨he, hr, (comparesReduced_iff he.self).mp hcompares⟩
  · rintro ⟨he, hr, hcomparable⟩
    exact ⟨he, hr, (comparesReduced_iff he.self).mpr hcomparable⟩

/-- The greatest 64-bit integer and one. -/
def overflowing : Expr := .withInteger .add (.new (2 ^ 63 - 1)) 1

/-- The sum leaves the 64 bits, and `-1` is not the same as `2^64 - 1`. `UInt64` has 0 for the
one with a further bit, and the same for the other. -/
theorem int64_unreduced :
    overflowing.int64._value = 2 ^ 63 ∧ ¬ overflowing.All Wrapped ∧
      (Expr.new (-1)).int64.equals (.integer (2 ^ 64 - 1)) = false ∧
      (Expr.new (-1)).uint64.equals (.integer (2 ^ 64 - 1)) = true ∧
      ¬ ComparesReduced (.new (-1)) (.integer (2 ^ 64 - 1)) := by
  refine ⟨rfl, fun h => absurd h.1.1.2 (by decide), rfl, rfl, fun h => ?_⟩
  exact absurd (h.equals.mpr (by decide)) (by decide)

end Int64

end BoxedIntegers

end Chromatic
