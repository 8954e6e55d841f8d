import ExternalServo.CLib

/-!
# Time values (`tmv.h`, `utils.h`)

A time value is a signed 64-bit count of nanoseconds. Sums and differences are
computed in the unsigned type and therefore wrap around; a quotient truncates toward
zero. `tmvAdd_ofInt`, `tmvSub_ofInt` and `tmvDiv_ofInt` read the operations on the
integers the values stand for.
-/

namespace ExternalServo

open CArith

/-- `tmv_t`. -/
structure Tmv where
  /-- nanoseconds -/
  ns : Int64
  deriving DecidableEq

/-- `tmv_add` -/
def tmvAdd (a b : Tmv) : Tmv := ⟨a.ns + b.ns⟩

/-- `tmv_sub` -/
def tmvSub (a b : Tmv) : Tmv := ⟨a.ns - b.ns⟩

/-- `tmv_div` -/
def tmvDiv (a : Tmv) (divisor : Int) : Except Fault Tmv :=
  if divisor = 0 then .error .divByZero else .ok ⟨a.ns / Int64.ofInt divisor⟩

/-- `tmv_cmp` -/
def tmvCmp (a b : Tmv) : Int := if a.ns = b.ns then 0 else if b.ns < a.ns then 1 else -1

/-- `tmv_sign` -/
def tmvSign (x : Tmv) : Int := if x.ns = 0 then 0 else if 0 < x.ns then 1 else -1

/-- `tmv_is_zero` -/
def tmvIsZero (x : Tmv) : Bool := decide (x.ns = 0)

/-- `tmv_zero` -/
def tmvZero : Tmv := ⟨0⟩

/-- `tmv_to_nanoseconds` -/
def tmvToNanoseconds (x : Tmv) : Int64 := x.ns

/-- `tmv_dbl` -/
def tmvDbl {D : Type} [CDouble D] (x : Tmv) : D := CDouble.ofInt x.ns.toInt

/-- `dbl_tmv` -/
def dblTmv {D : Type} [CDouble D] (x : D) : Tmv := ⟨CDouble.toInt64 x⟩

/-- `struct Timestamp`, with the fields as they are loaded into integers. -/
structure Timestamp where
  /-- the upper 16 bits of the seconds -/
  secondsMsb : UInt16
  /-- the lower 32 bits of the seconds -/
  secondsLsb : UInt32
  /-- nanoseconds -/
  nanoseconds : UInt32
  deriving DecidableEq

/-- `tmv_to_Timestamp` -/
def tmvToTimestamp (x : Tmv) : Timestamp :=
  let sec : UInt64 := x.ns.toUInt64 / 1000000000
  let nsec : UInt64 := x.ns.toUInt64 % 1000000000
  { secondsLsb := (sec &&& 0xFFFFFFFF).toUInt32
    secondsMsb := ((sec >>> 32) &&& 0xFFFF).toUInt16
    nanoseconds := nsec.toUInt32 }

/-! ## On integers -/

/-- The integer is an `int64_t`. A sum, a difference or a quotient of time values is the exact one
where it fits, and wraps around elsewhere. -/
def Fits (x : Int) : Prop := -2 ^ 63 ≤ x ∧ x < 2 ^ 63

instance (x : Int) : Decidable (Fits x) := inferInstanceAs (Decidable (_ ∧ _))

/-- A sum that is in range is exact. -/
theorem toInt_add_of_fits {x y : Int64} (h : Fits (x.toInt + y.toInt)) :
    (x + y).toInt = x.toInt + y.toInt := by
  obtain ⟨hlo, hhi⟩ := h
  rw [Int64.toInt_add]
  exact Int.bmod_eq_of_le (by omega) (by omega)

/-- A difference that is in range is exact. -/
theorem toInt_sub_of_fits {x y : Int64} (h : Fits (x.toInt - y.toInt)) :
    (x - y).toInt = x.toInt - y.toInt := by
  obtain ⟨hlo, hhi⟩ := h
  rw [Int64.toInt_sub]
  exact Int.bmod_eq_of_le (by omega) (by omega)

theorem tmv_ext_toInt {a b : Tmv} (h : a.ns.toInt = b.ns.toInt) : a = b := by
  cases a; cases b
  exact congrArg Tmv.mk (Int64.toInt_inj.mp h)

theorem tmvAdd_ofInt (x y : Int) :
    tmvAdd ⟨Int64.ofInt x⟩ ⟨Int64.ofInt y⟩ = ⟨Int64.ofInt (x + y)⟩ := by
  rw [tmvAdd, Int64.ofInt_add]

theorem tmvSub_ofInt (x y : Int) :
    tmvSub ⟨Int64.ofInt x⟩ ⟨Int64.ofInt y⟩ = ⟨Int64.ofInt (x - y)⟩ := by
  rw [tmvSub, Int64.ofInt_sub]

/-- A value is the one made from its integer. -/
theorem tmv_eq_ofInt (a : Tmv) : a = ⟨Int64.ofInt a.ns.toInt⟩ := by
  rw [Int64.ofInt_toInt]

/-- Truncated division, when the dividend is in range. -/
theorem tmvDiv_ofInt {x d : Int} (hlo : -2 ^ 63 ≤ x) (hhi : x < 2 ^ 63) (hd : 0 < d)
    (hd' : d < 2 ^ 63) :
    tmvDiv ⟨Int64.ofInt x⟩ d = .ok ⟨Int64.ofInt (x.tdiv d)⟩ := by
  have hx : (Int64.ofInt x).toInt = x := Int64.toInt_ofInt_of_le hlo hhi
  have hdi : (Int64.ofInt d).toInt = d := Int64.toInt_ofInt_of_le (by omega) hd'
  have hq : (Int64.ofInt x / Int64.ofInt d).toInt = (Int64.ofInt (x.tdiv d)).toInt := by
    rw [Int64.toInt_div, hx, hdi, Int64.toInt_ofInt]
  rw [tmvDiv, if_neg hd.ne', Int64.toInt_inj.mp hq]

/-- A quotient of a sum that fits is exact. -/
theorem toInt_div_of_fits {x d : Int} (hx : Fits x) (hd : 0 < d) (hd' : d < 2 ^ 63) :
    (Int64.ofInt x / Int64.ofInt d).toInt = x.tdiv d := by
  obtain ⟨hlo, hhi⟩ := hx
  have hdiv := tmvDiv_ofInt hlo hhi hd hd'
  rw [tmvDiv, if_neg hd.ne'] at hdiv
  rw [Tmv.mk.inj (Except.ok.inj hdiv)]
  -- the quotient is not larger than the dividend
  have habs : (x.tdiv d).natAbs ≤ x.natAbs := by
    rw [Int.natAbs_tdiv]
    exact Nat.div_le_self _ _
  have hsign : x.tdiv d ≤ 0 ∨ 0 ≤ x := by
    rcases le_or_gt 0 x with h | h
    · exact .inr h
    · exact .inl ((Int.tdiv_le_tdiv hd h.le).trans_eq (Int.zero_tdiv d))
  apply Int64.toInt_ofInt_of_le
  · omega
  · omega

/-- Half of a value, truncated. -/
theorem toInt_half (x : Int64) : (x / 2).toInt = x.toInt.tdiv 2 := by
  have hquot := toInt_div_of_fits ⟨x.le_toInt, x.toInt_lt⟩ (by decide : (0 : Int) < 2) (by decide)
  have htwo : Int64.ofInt 2 = 2 := by decide
  rwa [Int64.ofInt_toInt, htwo] at hquot

theorem tmvSign_pos {x : Tmv} : 0 < tmvSign x ↔ 0 < x.ns := by
  rw [tmvSign]
  split
  · next h => simp [h]
  · split
    · next h => simp [h]
    · next h => simp [h]

theorem tmvCmp_le_zero {a b : Tmv} : tmvCmp a b ≤ 0 ↔ a.ns.toInt ≤ b.ns.toInt := by
  rw [tmvCmp]
  split
  · next h => simp [h]
  · next hne =>
    have hne' : a.ns.toInt ≠ b.ns.toInt := by
      intro h
      exact hne (Int64.toInt_inj.mp h)
    split
    · next h =>
      have hlt := Int64.lt_iff_toInt_lt.mp h
      exact iff_of_false (by decide) (by omega)
    · next h =>
      have hge : ¬ b.ns.toInt < a.ns.toInt := by
        intro hlt
        exact h (Int64.lt_iff_toInt_lt.mpr hlt)
      exact iff_of_true (by decide) (by omega)

end ExternalServo
