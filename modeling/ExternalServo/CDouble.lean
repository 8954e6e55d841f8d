import Mathlib.Algebra.Order.Field.Basic
import Mathlib.Algebra.Order.Ring.Rat
import Mathlib.Data.Nat.Cast.Order.Field
import Mathlib.Data.Rat.Cast.Order
import Mathlib.Tactic.NormNum
import Mathlib.Tactic.Linarith

/-!
# The C type `double`, as an interface

A program over `double` is written once, over any type `D` with the operations C
has (`CDouble`): arithmetic, the two comparisons, the conversions from and to the
integer types. No law is part of the interface, so a fact proved over every
`CDouble` holds of binary64 with its rounding, its infinities and its NaN.

Two more layers:

* `LawfulCDouble` — the few laws that rounding does not break (the strict order,
  the rounded constants, `n / n = 1`), and `SymmetricCDouble` — those of the sign. A
  theorem that needs one of them takes it as an instance argument.
* `XRat` — **exact arithmetic**: the rationals, extended by the infinities and the
  NaN that C reaches by dividing by zero. It computes, so a program can be run on
  it, and `IsFin` says that a value stayed a rational.
-/

namespace CArith

/-- The operations of the C type `double`: those of the operators, the conversions, and the
functions of the mathematical library that the program calls. It is a class of operations only. What
rounds and what it rounds to is left to the instance, so that a theorem over every `CDouble` is one
about the program with binary64. -/
class CDouble (D : Type) extends Add D, Sub D, Mul D, Div D, Neg D where
  /-- the value of a decimal constant in the source -/
  lit : ℚ → D
  /-- conversion from an integer type -/
  ofInt : Int → D
  /-- positive infinity -/
  infinity : D
  /-- not a number -/
  nan : D
  /-- the integral part (truncation toward zero), for a value that has one -/
  trunc : D → Option Int
  /-- the nearest integral value, halves away from zero -/
  round : D → D
  /-- absolute value -/
  fabs : D → D
  /-- the operator `<` -/
  lt : D → D → Bool
  /-- the operator `==` -/
  eq : D → D → Bool

namespace CDouble

variable {D : Type} [CDouble D]

/-- A `double` used as a condition: true unless it compares equal to zero. -/
def truthy (x : D) : Bool := !eq x (lit 0)

/-- Conversion to a signed integer type of `w` bits. Out of range the language leaves the result
open; the target's conversion instruction delivers the least value of the type, for a NaN and for
the infinities as well. -/
def toSigned (w : Nat) (x : D) : Int :=
  match trunc x with
  | some z => if -2 ^ (w - 1) ≤ z ∧ z < 2 ^ (w - 1) then z else -2 ^ (w - 1)
  | none => -2 ^ (w - 1)

/-- Conversion to `int`. -/
def toInt32 (x : D) : Int := toSigned 32 x

/-- Conversion to `int64_t` (and to `long`, which has the same width on the target). -/
def toInt64 (x : D) : Int64 := Int64.ofInt (toSigned 64 x)

/-- Conversion to `unsigned int`: the low half of the 64-bit conversion. -/
def toUInt32 (x : D) : UInt32 := UInt32.ofInt (toSigned 64 x)

/-- Conversion to `uint16_t`: the low bits of the 32-bit conversion. -/
def toUInt16 (x : D) : UInt16 := UInt16.ofInt (toInt32 x)

/-- Conversion to `uint8_t`: the low bits of the 32-bit conversion. -/
def toUInt8 (x : D) : UInt8 := UInt8.ofInt (toInt32 x)

/-- Between the two bounds, by the comparisons of the language. A NaN is not, whatever the bounds
are, as all comparisons with it are false. -/
def inRange (lo hi x : D) : Bool := (lt lo x || eq lo x) && (lt x hi || eq x hi)

end CDouble

/-- Laws of `double` that hold with rounding and in the presence of NaN. None of them is about the
result of an operation, apart from `ofInt_div_self`: they are about the order, about constants and
about integers that are small enough to be converted exactly. -/
class LawfulCDouble (D : Type) [CDouble D] : Prop where
  /-- nothing is below itself -/
  lt_irrefl : ∀ x : D, CDouble.lt x x = false
  /-- the order is transitive -/
  lt_trans : ∀ x y z : D, CDouble.lt x y = true → CDouble.lt y z = true → CDouble.lt x z = true
  /-- rounding a constant keeps the order of the constants -/
  lit_mono : ∀ p q : ℚ, p ≤ q → CDouble.lt (CDouble.lit q : D) (CDouble.lit p) = false
  /-- a constant equals itself -/
  eq_lit : ∀ q : ℚ, CDouble.eq (CDouble.lit q : D) (CDouble.lit q) = true
  /-- integers of up to 53 bits are distinguished -/
  eq_ofInt : ∀ m n : Int, |m| ≤ 2 ^ 53 → |n| ≤ 2 ^ 53 →
    CDouble.eq (CDouble.ofInt m : D) (CDouble.ofInt n) = decide (m = n)
  /-- integers of up to 53 bits are converted exactly -/
  trunc_ofInt : ∀ n : Int, |n| ≤ 2 ^ 53 → CDouble.trunc (CDouble.ofInt n : D) = some n
  /-- a converted nonzero integer of 64 bits divided by itself is one -/
  ofInt_div_self : ∀ n : Int64, n ≠ 0 →
    (CDouble.ofInt n.toInt / CDouble.ofInt n.toInt : D) = CDouble.lit 1

/-- A value below `lo` is not above `hi` when the constants are in order. -/
theorem not_lt_and_gt {D : Type} [CDouble D] [LawfulCDouble D] {p q : ℚ} (hpq : p ≤ q) (v : D) :
    (CDouble.lt v (CDouble.lit p) && CDouble.lt (CDouble.lit q) v) = false := by
  cases hlo : CDouble.lt v (CDouble.lit p) with
  | false => rfl
  | true =>
    cases hhi : CDouble.lt (CDouble.lit q) v with
    | false => rfl
    | true =>
      have hqp := LawfulCDouble.lt_trans _ _ _ hhi hlo
      rw [LawfulCDouble.lit_mono p q hpq] at hqp
      cases hqp

section Integers

variable {D : Type} [CDouble D] [LawfulCDouble D]

/-- An integer of up to 53 bits is exact as a `double`, in a signed type that holds it. -/
theorem toSigned_ofInt {w : Nat} {n : Int} (habs : |n| ≤ 2 ^ 53)
    (hlo : -2 ^ (w - 1) ≤ n) (hhi : n < 2 ^ (w - 1)) :
    CDouble.toSigned w (CDouble.ofInt n : D) = n := by
  simp only [CDouble.toSigned, LawfulCDouble.trunc_ofInt n habs]
  exact if_pos ⟨hlo, hhi⟩

/-- An `int` survives the conversion to `double` and back. -/
theorem toInt32_ofInt {n : Int} (hlo : -2 ^ 31 ≤ n) (hhi : n < 2 ^ 31) :
    CDouble.toInt32 (CDouble.ofInt n : D) = n :=
  toSigned_ofInt (abs_le.mpr ⟨by omega, by omega⟩) hlo hhi

/-- The low half of an `int` survives the conversion to `double` and back. -/
theorem toUInt32_ofInt {n : Int} (hlo : -2 ^ 31 ≤ n) (hhi : n < 2 ^ 31) :
    CDouble.toUInt32 (CDouble.ofInt n : D) = UInt32.ofInt n := by
  rw [CDouble.toUInt32, toSigned_ofInt (abs_le.mpr ⟨by omega, by omega⟩) (by omega) (by omega)]

/-- A small integer survives the conversion to each of the unsigned types, and to `int64_t`. -/
theorem toUInt8_ofInt {n : Int} (hlo : 0 ≤ n) (hhi : n < 2 ^ 8) :
    ((CDouble.toUInt8 (CDouble.ofInt n : D)).toNat : Int) = n := by
  rw [CDouble.toUInt8, toInt32_ofInt (by omega) (by omega), UInt8.ofInt, UInt8.toNat_ofNat']
  omega

theorem toUInt16_ofInt {n : Int} (hlo : 0 ≤ n) (hhi : n < 2 ^ 16) :
    ((CDouble.toUInt16 (CDouble.ofInt n : D)).toNat : Int) = n := by
  rw [CDouble.toUInt16, toInt32_ofInt (by omega) (by omega), UInt16.ofInt, UInt16.toNat_ofNat']
  omega

theorem toNat_toUInt32_ofInt {n : Int} (hlo : 0 ≤ n) (hhi : n < 2 ^ 31) :
    ((CDouble.toUInt32 (CDouble.ofInt n : D)).toNat : Int) = n := by
  rw [toUInt32_ofInt (by omega) hhi, UInt32.ofInt, UInt32.toNat_ofNat']
  omega

theorem toInt_toInt64_ofInt {n : Int} (hlo : -2 ^ 31 ≤ n) (hhi : n < 2 ^ 31) :
    (CDouble.toInt64 (CDouble.ofInt n : D)).toInt = n := by
  rw [CDouble.toInt64, toSigned_ofInt (abs_le.mpr ⟨by omega, by omega⟩) (by omega) (by omega),
    Int64.toInt_ofInt_of_le (by omega) (by omega)]

end Integers

/-! ## Limits on both sides of zero -/

/-- Laws of the sign, which rounding does not break either: the sign of a binary64 value is a bit of
its own, so that negation is exact and turns the order. Two numbers can be compared, but a NaN is
neither above, nor below, nor equal to anything. -/
class SymmetricCDouble (D : Type) [CDouble D] : Prop extends LawfulCDouble D where
  /-- a number that is not below another one is above it or equal to it -/
  lt_or_eq : ∀ x y : D, CDouble.eq x x = true → CDouble.eq y y = true →
    CDouble.lt x y = false → (CDouble.lt y x || CDouble.eq y x) = true
  /-- negation only turns the sign -/
  neg_neg : ∀ x : D, - -x = x
  /-- it turns the order -/
  lt_neg : ∀ x y : D, CDouble.lt (-x) (-y) = CDouble.lt y x
  /-- it keeps what is equal -/
  eq_neg : ∀ x y : D, CDouble.eq (-x) (-y) = CDouble.eq y x
  /-- integers of up to 53 bits are on the side of zero that they belong to -/
  neg_le_ofInt : ∀ n : Int, 0 ≤ n → n ≤ 2 ^ 53 →
    (CDouble.lt (-CDouble.ofInt n : D) (CDouble.ofInt n) ||
      CDouble.eq (-CDouble.ofInt n : D) (CDouble.ofInt n)) = true

/-- Any value but a NaN. -/
def IsNumber {D : Type} [CDouble D] (x : D) : Prop := CDouble.eq x x = true

instance {D : Type} [CDouble D] (x : D) : Decidable (IsNumber x) :=
  inferInstanceAs (Decidable (CDouble.eq x x = true))

/-- A number that is not below its negation, and can thus be the limit of a symmetric range. An
infinity is one, a negative number and a NaN are not. -/
structure IsLimit {D : Type} [CDouble D] (m : D) : Prop where
  number : IsNumber m
  neg_le : (CDouble.lt (-m) m || CDouble.eq (-m) m) = true

section Limits

variable {D : Type} [CDouble D] [SymmetricCDouble D] {m x : D}

/-- An integer of up to 53 bits that is not negative is a limit. -/
theorem isLimit_ofInt {n : Int} (hnonneg : 0 ≤ n) (hle : n ≤ 2 ^ 53) :
    IsLimit (CDouble.ofInt n : D) := by
  have habs : |n| ≤ 2 ^ 53 := by rwa [abs_of_nonneg hnonneg]
  refine ⟨?_, SymmetricCDouble.neg_le_ofInt n hnonneg hle⟩
  rw [IsNumber, LawfulCDouble.eq_ofInt n n habs habs, decide_eq_true rfl]

theorem IsNumber.neg (hx : IsNumber x) : IsNumber (-x) := by
  rwa [IsNumber, SymmetricCDouble.eq_neg]

/-- The limits are within the limits. -/
theorem IsLimit.inRange (hm : IsLimit m) :
    CDouble.inRange (-m) m m = true ∧ CDouble.inRange (-m) m (-m) = true := by
  have hself : ∀ y : D, IsNumber y → (CDouble.lt y y || CDouble.eq y y) = true := by
    intro y hy
    rw [hy, Bool.or_true]
  rw [CDouble.inRange, CDouble.inRange, hm.neg_le, hself m hm.number, hself (-m) hm.number.neg]
  exact ⟨rfl, rfl⟩

/-- A number that is not beyond the limits is within them. A NaN is not beyond them either. -/
theorem IsLimit.inRange_of_not_lt (hm : IsLimit m) (hx : IsNumber x)
    (hlo : CDouble.lt x (-m) = false) (hhi : CDouble.lt m x = false) :
    CDouble.inRange (-m) m x = true := by
  rw [CDouble.inRange, SymmetricCDouble.lt_or_eq x (-m) hx hm.number.neg hlo,
    SymmetricCDouble.lt_or_eq m x hm.number hx hhi]
  rfl

/-- What is within the limits is within them on the other side of zero. -/
theorem inRange_neg (h : CDouble.inRange (-m) m x = true) :
    CDouble.inRange (-m) m (-x) = true := by
  rw [CDouble.inRange, Bool.and_eq_true] at h ⊢
  obtain ⟨hlo, hhi⟩ := h
  refine ⟨?_, ?_⟩
  · rwa [SymmetricCDouble.lt_neg, SymmetricCDouble.eq_neg]
  · rwa [← SymmetricCDouble.neg_neg m, SymmetricCDouble.lt_neg, SymmetricCDouble.eq_neg]

end Limits

/-! ## Exact arithmetic -/

/-- The rationals, extended by the values that leave them: a division by zero gives an infinity or a
NaN, as in C. There is one zero, so that the sign of a zero is not modelled; nothing in the program
reads it. -/
inductive XRat : Type where
  /-- not a number -/
  | nan : XRat
  /-- an infinity, negative if the flag is set -/
  | inf : Bool → XRat
  /-- a rational -/
  | fin : ℚ → XRat
  deriving DecidableEq

namespace XRat

/-- Addition; opposite infinities have no sum. -/
protected def add : XRat → XRat → XRat
  | nan, _ => nan
  | _, nan => nan
  | inf s, inf t => if s = t then inf s else nan
  | inf s, fin _ => inf s
  | fin _, inf t => inf t
  | fin p, fin q => fin (p + q)

/-- Negation. -/
protected def neg : XRat → XRat
  | nan => nan
  | inf s => inf !s
  | fin q => fin (-q)

/-- Multiplication; zero times an infinity is not a number. -/
protected def mul : XRat → XRat → XRat
  | nan, _ => nan
  | _, nan => nan
  | inf s, inf t => inf (s ^^ t)
  | inf s, fin q => if q = 0 then nan else inf (s ^^ decide (q < 0))
  | fin p, inf t => if p = 0 then nan else inf (decide (p < 0) ^^ t)
  | fin p, fin q => fin (p * q)

/-- Division; a nonzero number over zero is an infinity, `0 / 0` is not a number. -/
protected def div : XRat → XRat → XRat
  | nan, _ => nan
  | _, nan => nan
  | inf _, inf _ => nan
  | inf s, fin q => inf (s ^^ decide (q < 0))
  | fin _, inf _ => fin 0
  | fin p, fin q =>
    if q = 0 then (if p = 0 then nan else inf (decide (p < 0))) else fin (p / q)

/-- The operator `<`; every comparison with a NaN is false. -/
protected def lt : XRat → XRat → Bool
  | nan, _ => false
  | _, nan => false
  | inf s, inf t => s && !t
  | inf s, fin _ => s
  | fin _, inf t => !t
  | fin p, fin q => decide (p < q)

/-- The operator `==`. -/
protected def eq : XRat → XRat → Bool
  | nan, _ => false
  | _, nan => false
  | inf s, inf t => s == t
  | fin p, fin q => decide (p = q)
  | _, _ => false

/-- Absolute value. -/
protected def fabs : XRat → XRat
  | nan => nan
  | inf _ => inf false
  | fin q => fin |q|

/-- The integral part. -/
protected def trunc : XRat → Option Int
  | fin q => some (q.num.tdiv q.den)
  | _ => none

/-- The nearest integral value, halves away from zero. -/
protected def round : XRat → XRat
  | nan => nan
  | inf s => inf s
  | fin q => fin (if 0 ≤ q then (q + 1 / 2).floor else -(-q + 1 / 2).floor)

instance : CDouble XRat where
  add := XRat.add
  sub x y := XRat.add x y.neg
  mul := XRat.mul
  div := XRat.div
  neg := XRat.neg
  lit := fin
  ofInt n := fin n
  infinity := inf false
  nan := nan
  trunc := XRat.trunc
  round := XRat.round
  fabs := XRat.fabs
  lt := XRat.lt
  eq := XRat.eq

/-! On rationals the operations are those of `ℚ`. -/

section Rational

variable (p q : ℚ)

@[simp] theorem fin_add : (fin p + fin q : XRat) = fin (p + q) := rfl

@[simp] theorem fin_sub : (fin p - fin q : XRat) = fin (p - q) :=
  congrArg fin (sub_eq_add_neg p q).symm

@[simp] theorem fin_mul : (fin p * fin q : XRat) = fin (p * q) := rfl

@[simp] theorem neg_fin : (-fin p : XRat) = fin (-p) := rfl

/-- Negation only turns the sign. -/
protected theorem neg_neg (x : XRat) : - -x = x := by
  cases x with
  | nan => rfl
  | inf s => exact congrArg inf (Bool.not_not s)
  | fin q => exact congrArg fin (neg_neg q)

@[simp] theorem fabs_fin : CDouble.fabs (fin p) = fin |p| := rfl

@[simp] theorem lit_eq : (CDouble.lit p : XRat) = fin p := rfl

@[simp] theorem ofInt_eq (n : Int) : (CDouble.ofInt n : XRat) = fin n := rfl

@[simp] theorem lt_fin : CDouble.lt (fin p) (fin q) = decide (p < q) := rfl

@[simp] theorem eq_fin : CDouble.eq (fin p) (fin q) = decide (p = q) := rfl

theorem fin_div {q : ℚ} (hq : q ≠ 0) : (fin p / fin q : XRat) = fin (p / q) :=
  if_neg hq

@[simp] theorem truthy_fin : CDouble.truthy (fin p) = decide (p ≠ 0) := by
  simp [CDouble.truthy]

end Rational

theorem lt_irrefl (x : XRat) : XRat.lt x x = false := by
  cases x with
  | nan => rfl
  | inf s => cases s <;> rfl
  | fin q => simp [XRat.lt]

theorem lt_trans (x y z : XRat) (hxy : XRat.lt x y = true) (hyz : XRat.lt y z = true) :
    XRat.lt x z = true := by
  cases x <;> cases y <;> cases z <;> simp_all [XRat.lt]
  exact hxy.trans hyz

/-- The magnitude of a rational by its numerator. -/
theorem abs_eq_natAbs_div (q : ℚ) : |q| = (q.num.natAbs : ℚ) / q.den := by
  have hden : (0 : ℚ) < q.den := by exact_mod_cast q.pos
  conv_lhs => rw [← Rat.num_div_den q, abs_div, abs_of_pos hden]
  rw [Nat.cast_natAbs, Int.cast_abs]

/-- The integral part vanishes for magnitudes below one. -/
theorem tdiv_eq_zero_iff (q : ℚ) : q.num.tdiv q.den = 0 ↔ |q| < 1 := by
  have hden : (0 : ℚ) < q.den := by exact_mod_cast q.pos
  rw [abs_eq_natAbs_div, div_lt_one hden, ← Int.natAbs_eq_zero, Int.natAbs_tdiv, Int.natAbs_natCast]
  exact (Nat.div_eq_zero_iff_lt q.pos).trans Nat.cast_lt.symm

/-! Conversions to integers. -/

/-- The integral part of a rational. -/
def integral (q : ℚ) : Int := q.num.tdiv q.den

theorem integral_intCast (z : Int) : integral z = z := by
  rw [integral, Rat.num_intCast, Rat.den_intCast, Nat.cast_one, Int.tdiv_one]

/-- What is cut off is less than one. -/
theorem abs_sub_integral_lt (q : ℚ) : |q - integral q| < 1 := by
  have hden : (0 : ℚ) < q.den := by exact_mod_cast q.pos
  have hsplit : q - integral q = (q.num.tmod q.den : ℤ) / (q.den : ℚ) := by
    have hdivmod : ((q.den * integral q + q.num.tmod q.den : ℤ) : ℚ) = q.num :=
      congrArg Int.cast (Int.mul_tdiv_add_tmod q.num q.den)
    have hq : q * q.den = q.num := Rat.mul_den_eq_num q
    push_cast at hdivmod
    rw [eq_div_iff hden.ne']
    linarith
  rw [hsplit, abs_div, abs_of_pos hden, div_lt_one hden]
  have hmod : (q.num.tmod q.den).natAbs < q.den := by
    rw [Int.natAbs_tmod]
    exact Nat.mod_lt _ q.pos
  have habs : |q.num.tmod q.den| < (q.den : Int) := by
    rw [Int.abs_eq_natAbs]
    exact Int.ofNat_lt.mpr hmod
  exact_mod_cast habs

/-- Cutting off does not increase the magnitude. -/
theorem abs_integral_le (q : ℚ) : |(integral q : ℚ)| ≤ |q| := by
  have habs : |integral q| = ((q.num.natAbs / q.den : Nat) : Int) := by
    rw [Int.abs_eq_natAbs, integral, Int.natAbs_tdiv, Int.natAbs_natCast]
    rfl
  rw [abs_eq_natAbs_div q, ← Int.cast_abs, habs, Int.cast_natCast]
  exact Nat.cast_div_le

/-- A positive integral part is cut off from a larger value. -/
theorem integral_le_of_pos {q : ℚ} (h : 0 < integral q) : (integral q : ℚ) ≤ q := by
  have hone : (1 : ℚ) ≤ integral q := by exact_mod_cast h
  have hcut := (abs_lt.mp (abs_sub_integral_lt q)).1
  have hq : 0 < q := by linarith
  have habs := abs_integral_le q
  rwa [abs_of_pos (by linarith), abs_of_pos hq] at habs

/-- The conversion to `int64_t`, whatever it converts. -/
theorem toInt_toInt64 (q : ℚ) :
    (CDouble.toInt64 (fin q) : Int64).toInt = CDouble.toSigned 64 (fin q) := by
  have hrange : -2 ^ 63 ≤ CDouble.toSigned 64 (fin q) ∧ CDouble.toSigned 64 (fin q) < 2 ^ 63 := by
    simp only [CDouble.toSigned, CDouble.trunc, XRat.trunc]
    split <;> omega
  rw [CDouble.toInt64, Int64.toInt_ofInt_of_le hrange.1 hrange.2]

/-- In range it delivers the integral part. -/
theorem toInt64_integral {q : ℚ} (hlo : -2 ^ 63 ≤ integral q) (hhi : integral q < 2 ^ 63) :
    (CDouble.toInt64 (fin q) : Int64).toInt = integral q := by
  rw [toInt_toInt64]
  exact if_pos ⟨hlo, hhi⟩

/-- It is zero if the integral part is; out of range it delivers another value. -/
theorem toInt64_eq_zero_iff (q : ℚ) : (CDouble.toInt64 (fin q) : Int64) = 0 ↔ |q| < 1 := by
  rw [← Int64.toInt_inj, toInt_toInt64, ← tdiv_eq_zero_iff]
  simp only [CDouble.toSigned, CDouble.trunc, XRat.trunc]
  rw [Int64.toInt_zero, show 64 - 1 = 63 from rfl]
  split
  · exact Iff.rfl
  · next hout => exact iff_of_false (by decide) (by omega)

/-- The nearest integer, halves away from zero. -/
def nearest (q : ℚ) : Int := if 0 ≤ q then (q + 1 / 2).floor else -(-q + 1 / 2).floor

theorem abs_sub_nearest_le (q : ℚ) : |q - nearest q| ≤ 1 / 2 := by
  rw [nearest, abs_le]
  split
  · have hle := Rat.floor_le (q + 1 / 2)
    have hlt := Rat.lt_floor_add_one (q + 1 / 2)
    push_cast at hlt
    constructor <;> linarith
  · have hle := Rat.floor_le (-q + 1 / 2)
    have hlt := Rat.lt_floor_add_one (-q + 1 / 2)
    push_cast at hlt ⊢
    constructor <;> linarith

/-- Rounding does not go beyond an integer. -/
theorem abs_nearest_le {q : ℚ} {n : Int} (h : |q| ≤ n) : |nearest q| ≤ n := by
  obtain ⟨hlo, hhi⟩ := abs_le.mp h
  obtain ⟨hnearLo, hnearHi⟩ := abs_le.mp (abs_sub_nearest_le q)
  have hup : (nearest q : ℚ) < (n + 1 : Int) := by
    push_cast
    linarith
  have hdown : ((-(n + 1) : Int) : ℚ) < nearest q := by
    push_cast
    linarith
  have hup' := Int.cast_lt.mp hup
  have hdown' := Int.cast_lt.mp hdown
  rw [abs_le]
  refine ⟨?_, ?_⟩
  · omega
  · omega

/-- Less than one half is rounded to zero. -/
theorem nearest_eq_zero {q : ℚ} (h : |q| < 1 / 2) : nearest q = 0 := by
  obtain ⟨hlo, hhi⟩ := abs_lt.mp h
  obtain ⟨hnearLo, hnearHi⟩ := abs_le.mp (abs_sub_nearest_le q)
  have hup : (nearest q : ℚ) < (1 : Int) := by
    push_cast
    linarith
  have hdown : ((-1 : Int) : ℚ) < nearest q := by
    push_cast
    linarith
  have hup' := Int.cast_lt.mp hup
  have hdown' := Int.cast_lt.mp hdown
  omega

theorem round_fin (q : ℚ) : CDouble.round (fin q) = fin (nearest q) := by
  change fin _ = _
  rw [nearest]
  split
  · rfl
  · rw [Int.cast_neg]

instance : LawfulCDouble XRat where
  lt_irrefl := lt_irrefl
  lt_trans := lt_trans
  lit_mono p q hpq := by simpa using hpq
  eq_lit q := by simp
  eq_ofInt m n _ _ := by simp
  trunc_ofInt n _ := by simp [CDouble.trunc, XRat.trunc]
  ofInt_div_self n hn := by
    have hz : n.toInt ≠ 0 := by
      intro hz
      exact hn (Int64.toInt_inj.mp hz)
    have hq : (n.toInt : ℚ) ≠ 0 := Int.cast_ne_zero.mpr hz
    rw [ofInt_eq, fin_div _ hq, div_self hq, lit_eq]

/-- Two values that are numbers, and not in order. -/
protected theorem lt_or_eq (x y : XRat) (hx : XRat.eq x x = true) (hy : XRat.eq y y = true)
    (h : XRat.lt x y = false) : (XRat.lt y x || XRat.eq y x) = true := by
  cases x with
  | nan => cases hx
  | inf s =>
    cases y with
    | nan => cases hy
    | inf t => cases s <;> cases t <;> first | rfl | cases h
    | fin q => cases s <;> first | rfl | cases h
  | fin p =>
    cases y with
    | nan => cases hy
    | inf t => cases t <;> first | rfl | cases h
    | fin q =>
      rw [XRat.lt, decide_eq_false_iff_not, not_lt] at h
      simpa only [XRat.lt, XRat.eq, Bool.or_eq_true, decide_eq_true_eq] using h.lt_or_eq

instance : SymmetricCDouble XRat where
  lt_or_eq := XRat.lt_or_eq
  neg_neg := XRat.neg_neg
  lt_neg x y := by
    cases x <;> cases y
    case fin.fin p q => rw [neg_fin, neg_fin, lt_fin, lt_fin, decide_eq_decide, neg_lt_neg_iff]
    all_goals simp [CDouble.lt, Neg.neg, XRat.neg, XRat.lt, Bool.and_comm]
  eq_neg x y := by
    cases x <;> cases y
    case fin.fin p q => rw [neg_fin, neg_fin, eq_fin, eq_fin, decide_eq_decide, neg_inj, eq_comm]
    all_goals simp [CDouble.eq, Neg.neg, XRat.neg, XRat.eq, eq_comm]
  neg_le_ofInt n hnonneg _ := by
    have hcast : (0 : ℚ) ≤ n := Int.cast_nonneg hnonneg
    have hle : (-n : ℚ) ≤ n := by linarith
    simpa only [ofInt_eq, neg_fin, lt_fin, eq_fin, Bool.or_eq_true, decide_eq_true_eq] using
      hle.lt_or_eq

/-! ## Values that stayed rational -/

/-- The value is a rational. -/
def IsFin (x : XRat) : Prop := ∃ q, x = fin q

/-- The value is a rational of magnitude at most `m`. -/
def Within (m : ℚ) (x : XRat) : Prop := ∃ q, x = fin q ∧ |q| ≤ m

/-- The value is a rational that is not negative. -/
def Nonneg (x : XRat) : Prop := ∃ q, x = fin q ∧ 0 ≤ q

/-- The rational of a value that is one. -/
def value : XRat → ℚ
  | fin q => q
  | nan | inf _ => 0

/-- A property of a rational value is decided on the rational. -/
instance decidableExistsFin {P : ℚ → Prop} [DecidablePred P] :
    (x : XRat) → Decidable (∃ q, x = fin q ∧ P q)
  | nan => isFalse nofun
  | inf _ => isFalse nofun
  | fin q => decidable_of_iff (P q)
    ⟨fun h => ⟨q, rfl, h⟩, fun ⟨_, heq, h⟩ => (fin.inj heq).symm ▸ h⟩

instance (m : ℚ) (x : XRat) : Decidable (Within m x) := decidableExistsFin x

instance (x : XRat) : Decidable (Nonneg x) := decidableExistsFin x

instance : (x : XRat) → Decidable (IsFin x)
  | nan => isFalse nofun
  | inf _ => isFalse nofun
  | fin q => isTrue ⟨q, rfl⟩

theorem Nonneg.isFin {x : XRat} (h : Nonneg x) : IsFin x := by
  obtain ⟨q, rfl, -⟩ := h
  exact ⟨q, rfl⟩

theorem Within.isFin {m : ℚ} {x : XRat} (h : Within m x) : IsFin x := by
  obtain ⟨q, rfl, -⟩ := h
  exact ⟨q, rfl⟩

theorem Within.neg {m : ℚ} {x : XRat} (h : Within m x) : Within m (-x) := by
  obtain ⟨q, rfl, hq⟩ := h
  exact ⟨-q, rfl, by rwa [abs_neg]⟩

section Closure

variable {x y : XRat}

theorem IsFin.add (hx : IsFin x) (hy : IsFin y) : IsFin (x + y) := by
  obtain ⟨p, rfl⟩ := hx
  obtain ⟨q, rfl⟩ := hy
  exact ⟨p + q, rfl⟩

theorem IsFin.sub (hx : IsFin x) (hy : IsFin y) : IsFin (x - y) := by
  obtain ⟨p, rfl⟩ := hx
  obtain ⟨q, rfl⟩ := hy
  exact ⟨p - q, fin_sub p q⟩

theorem IsFin.mul (hx : IsFin x) (hy : IsFin y) : IsFin (x * y) := by
  obtain ⟨p, rfl⟩ := hx
  obtain ⟨q, rfl⟩ := hy
  exact ⟨p * q, rfl⟩

theorem IsFin.div (hx : IsFin x) {q : ℚ} (hq : q ≠ 0) : IsFin (x / fin q) := by
  obtain ⟨p, rfl⟩ := hx
  exact ⟨p / q, fin_div p hq⟩

end Closure

end XRat

end CArith
