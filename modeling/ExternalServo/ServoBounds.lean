import ExternalServo.Servos
import ExternalServo.Runs

/-!
# Bounded output and anti-windup

In exact arithmetic, a servo with maximum frequency `m` returns frequencies in `[-m, m]` only.

* `piSample_bounded` — the integrator of the PI servo stays in `[-m, m]` as well. Only the
  sum of its three terms is limited, not the integrator; but the proportional and the
  integral term have the same sign, so that the integrator stays between its last value and
  that sum (`abs_add_le_of_same_sign`).
* `linregSample_bounded` — the clock frequency of the regression servo stays in `[-m, m]`
  where its regressions have nonzero divisors (`RegressionsDefined`).
* `servoSample_bounded` — both, over every run of samples and resets.
-/

namespace ExternalServo

open CArith XRat Runs

/-! ## Limits -/

/-- A part of a sum on one side of the rest is bounded with the sum. -/
theorem abs_add_le_of_same_sign {a b d m : ℚ} (hd : |d| ≤ m) (hsum : |a + d + b| ≤ m)
    (hsign : 0 ≤ a ∧ 0 ≤ b ∨ a ≤ 0 ∧ b ≤ 0) : |d + b| ≤ m := by
  rw [abs_le] at hd hsum ⊢
  rcases hsign with ⟨ha, hb⟩ | ⟨ha, hb⟩
  · exact ⟨by linarith, by linarith⟩
  · exact ⟨by linarith, by linarith⟩

/-- A product with two nonnegative factors has the sign of the third. -/
theorem mul_mul_nonneg_or {k o w : ℚ} (hk : 0 ≤ k) (hw : 0 ≤ w) :
    (0 ≤ o → 0 ≤ k * o * w) ∧ (o ≤ 0 → k * o * w ≤ 0) := by
  refine ⟨?_, ?_⟩
  · intro ho
    positivity
  · intro ho
    exact mul_nonpos_of_nonpos_of_nonneg (mul_nonpos_of_nonneg_of_nonpos hk ho) hw

section Clamp

variable {servo : ServoBase XRat} {m : ℚ} (hmax : servo.maxFrequency = fin m) (hm : 0 ≤ m)

include hmax

/-- A rational that compares within the limits is. -/
theorem within_of_not_lt {x : XRat} (hx : IsFin x)
    (hlo : CDouble.lt x (-servo.maxFrequency) = false)
    (hhi : CDouble.lt servo.maxFrequency x = false) : Within m x := by
  obtain ⟨q, rfl⟩ := hx
  rw [hmax, neg_fin, lt_fin, decide_eq_false_iff_not, not_lt] at hlo
  rw [hmax, lt_fin, decide_eq_false_iff_not, not_lt] at hhi
  exact ⟨q, rfl, abs_le.mpr ⟨hlo, hhi⟩⟩

include hm

theorem within_max : Within m servo.maxFrequency ∧ Within m (-servo.maxFrequency) := by
  have hin : Within m servo.maxFrequency := ⟨m, hmax, (abs_of_nonneg hm).le⟩
  exact ⟨hin, hin.neg⟩

theorem clampFrequency_within {x : XRat} (hx : IsFin x) : Within m (clampFrequency servo x) := by
  rw [clampFrequency]
  split_ifs with hlo hhi
  · exact (within_max hmax hm).2
  · exact (within_max hmax hm).1
  · exact within_of_not_lt hmax hx (Bool.eq_false_of_not_eq_true hlo)
      (Bool.eq_false_of_not_eq_true hhi)

theorem clampClockFreq_within {x : XRat} (hx : IsFin x) : Within m (clampClockFreq servo x) := by
  rw [clampClockFreq]
  split_ifs with hhi hlo
  · exact (within_max hmax hm).1
  · exact (within_max hmax hm).2
  · exact within_of_not_lt hmax hx (Bool.eq_false_of_not_eq_true hlo)
      (Bool.eq_false_of_not_eq_true hhi)

end Clamp

/-! ## The PI servo -/

/-- The drift and the gains are rational. -/
structure PiServo.Finite (s : PiServo XRat) : Prop where
  drift : IsFin s.drift
  kp : IsFin s.kp
  ki : IsFin s.ki

/-- **The invariant of the PI servo**: the drift and the frequency that was returned last are within
the limit, and the constants are rational and not negative. The limit is that of the common part of
the servo, which no call changes. -/
structure PiServo.Bounded (m : ℚ) (s : PiServo XRat) : Prop where
  drift : Within m s.drift
  lastFreq : Within m s.lastFreq
  kp : Nonneg s.kp
  ki : Nonneg s.ki

theorem PiServo.Bounded.finite {m : ℚ} {s : PiServo XRat} (h : s.Bounded m) : s.Finite :=
  ⟨h.drift.isFin, h.kp.isFin, h.ki.isFin⟩

/-- The measured drift is rational: the time between the samples is not zero. -/
theorem measuredDrift_isFin {s : PiServo XRat} (hdrift : IsFin s.drift)
    (hlocal : s.local0 < s.local1) : IsFin (measuredDrift s) := by
  have hdiff : ((s.local1 - s.local0).toNat : ℚ) ≠ 0 := by
    have hlt := UInt64.lt_iff_toNat_lt.mp hlocal
    rw [UInt64.toNat_sub_of_le _ _ (UInt64.le_of_lt hlocal)]
    exact Nat.cast_ne_zero.mpr (by omega)
  have hnum : IsFin ((CDouble.lit 1000000000 - s.drift) *
      CDouble.ofInt (s.offset1 - s.offset0).toInt) :=
    IsFin.mul (IsFin.sub ⟨_, rfl⟩ hdrift) ⟨_, rfl⟩
  exact IsFin.add hdrift (IsFin.div hnum (by exact_mod_cast hdiff))

section Pi

variable {servo : ServoBase XRat} {m : ℚ} (hmax : servo.maxFrequency = fin m) (hm : 0 ≤ m)
  {s : PiServo XRat} (offset : Int64) (localTs : UInt64) {weight : XRat}

theorem kiTerm_isFin (hs : s.Finite) (hweight : IsFin weight) :
    IsFin (kiTerm s offset weight) :=
  IsFin.mul (IsFin.mul hs.ki ⟨_, rfl⟩) hweight

theorem trackedPpb_isFin (hs : s.Finite) (hweight : IsFin weight) :
    IsFin (trackedPpb s offset weight) :=
  IsFin.add (IsFin.add (IsFin.mul (IsFin.mul hs.kp ⟨_, rfl⟩) hweight) hs.drift)
    (kiTerm_isFin offset hs hweight)

/-- The drift that is stored in the unsaturated case is bounded although nothing limits it. -/
theorem tracked_drift_within (hs : s.Bounded m) (hweight : Nonneg weight)
    (hppb : Within m (trackedPpb s offset weight)) :
    Within m (s.drift + kiTerm s offset weight) := by
  obtain ⟨d, hd, hdm⟩ := hs.drift
  obtain ⟨p, hp, hp0⟩ := hs.kp
  obtain ⟨i, hi, hi0⟩ := hs.ki
  obtain ⟨w, rfl, hw0⟩ := hweight
  obtain ⟨q, hq, hqm⟩ := hppb
  have hterm : kiTerm s offset (fin w) = fin (i * offset.toInt * w) := by
    rw [kiTerm, hi, ofInt_eq, fin_mul, fin_mul]
  rw [trackedPpb, hterm, hp, hd, ofInt_eq, fin_mul, fin_mul, fin_add, fin_add, fin.injEq] at hq
  rw [← hq] at hqm
  rw [hterm, hd, fin_add]
  refine ⟨_, rfl, abs_add_le_of_same_sign hdm hqm ?_⟩
  rcases le_total (0 : ℚ) offset.toInt with ho | ho
  · exact .inl ⟨(mul_mul_nonneg_or hp0 hw0).1 ho, (mul_mul_nonneg_or hi0 hw0).1 ho⟩
  · exact .inr ⟨(mul_mul_nonneg_or hp0 hw0).2 ho, (mul_mul_nonneg_or hi0 hw0).2 ho⟩

include hmax hm

/-- **A sample of the PI servo** keeps the invariant and returns a frequency in the limits. An
acquisition limits the drift that it estimates; tracking limits the sum of the terms, and keeps the
drift when the sum is beyond the limit. -/
theorem piSample_bounded (hs : s.Bounded m) (hweight : Nonneg weight) :
    (piSample servo s offset localTs weight).2.2.Bounded m ∧
      Within m (piSample servo s offset localTs weight).1 := by
  have hsampled := piSample_sampled servo s offset localTs weight
  generalize piSample servo s offset localTs weight = result at hsampled ⊢
  cases hsampled with
  | held => exact ⟨⟨hs.drift, hs.lastFreq, hs.kp, hs.ki⟩, hs.lastFreq⟩
  | acquired drift state hlocal hdrift hstate =>
    have hin : Within m drift := by
      rw [hdrift]
      exact clampFrequency_within hmax hm (measuredDrift_isFin hs.drift.isFin hlocal)
    exact ⟨⟨hin, hin, hs.kp, hs.ki⟩, hin⟩
  | saturated ppb hppb =>
    obtain ⟨hpos, hneg⟩ := within_max hmax hm
    have hin : Within m ppb := by
      rcases hppb with rfl | rfl
      · exact hneg
      · exact hpos
    exact ⟨⟨hs.drift, hin, hs.kp, hs.ki⟩, hin⟩
  | tracked hlo hhi =>
    have hin := within_of_not_lt hmax
      (trackedPpb_isFin offset hs.finite hweight.isFin) hlo hhi
    exact ⟨⟨tracked_drift_within offset hs hweight hin, hin, hs.kp, hs.ki⟩, hin⟩

end Pi

/-! ## The regression servo -/

/-- The regressions of a sample divide by no zero: for every size with enough points, neither the
sum of the weights nor the divisor of the slope vanishes. `LinregDivisors` says when that is so. -/
def RegressionsDefined (s : LinregServo XRat) : Prop :=
  ∀ k : SizeIndex, SizeIndex.points k ≤ s.numPoints →
    (newestSums s (SizeIndex.points k)).wSum ≠ fin 0 ∧
      (newestSums s (SizeIndex.points k)).denominator ≠ fin 0

instance (s : LinregServo XRat) : Decidable (RegressionsDefined s) :=
  inferInstanceAs (Decidable (∀ _, _))

/-- The sums of a regression are rational. -/
structure RegressSums.Finite (sums : RegressSums XRat) : Prop where
  xSum : IsFin sums.xSum
  ySum : IsFin sums.ySum
  xySum : IsFin sums.xySum
  x2Sum : IsFin sums.x2Sum
  wSum : IsFin sums.wSum

/-- The weights, the lines and the interval are rational. -/
structure LinregServo.Finite (s : LinregServo XRat) : Prop where
  weight : ∀ i, IsFin (s.points i).w
  slope : ∀ k, IsFin (s.results k).slope
  intercept : ∀ k, IsFin (s.results k).intercept
  interval : IsFin s.updateInterval

/-- **The invariant of the regression servo**: what it computed is rational and the frequency of its
clock is within the limit. The lines themselves are not limited, only what is made of them. -/
structure LinregServo.Bounded (m : ℚ) (s : LinregServo XRat) : Prop extends s.Finite where
  clockFreq : Within m s.clockFreq

section Sums

variable {s : LinregServo XRat}

theorem sumPoint_finite (hs : s.Finite) {sums : RegressSums XRat} (h : sums.Finite) (i : Nat) :
    (sumPoint s sums i).Finite := by
  have hw := hs.weight (Fin.ofNat MAX_POINTS (MAX_POINTS + s.lastPoint - i))
  exact
    { xSum := h.xSum.add (IsFin.mul ⟨_, rfl⟩ hw)
      ySum := h.ySum.add (IsFin.mul ⟨_, rfl⟩ hw)
      xySum := h.xySum.add (IsFin.mul ⟨_, rfl⟩ hw)
      x2Sum := h.x2Sum.add (IsFin.mul ⟨_, rfl⟩ hw)
      wSum := h.wSum.add hw }

theorem newestSums_finite (hs : s.Finite) (n : Nat) : (newestSums s n).Finite := by
  induction n with
  | zero => exact ⟨⟨_, rfl⟩, ⟨_, rfl⟩, ⟨_, rfl⟩, ⟨_, rfl⟩, ⟨_, rfl⟩⟩
  | succ n ih =>
    rw [newestSums, List.range_succ, List.foldl_append]
    exact sumPoint_finite hs ih n

/-- The line through points whose divisors are not zero. -/
theorem fitLine_isFin {sums : RegressSums XRat} (h : sums.Finite) (hw : sums.wSum ≠ fin 0)
    (hden : sums.denominator ≠ fin 0) (res : RegressResult XRat) :
    IsFin (fitLine sums res).slope ∧ IsFin (fitLine sums res).intercept := by
  obtain ⟨w, hwSum⟩ := h.wSum
  have hw0 : w ≠ 0 := by
    rintro rfl
    exact hw hwSum
  have hdiv : ∀ {x : XRat}, IsFin x → IsFin (x / sums.wSum) := by
    intro x hx
    rw [hwSum]
    exact hx.div hw0
  obtain ⟨d, hdenominator⟩ : IsFin sums.denominator :=
    h.x2Sum.sub (hdiv (h.xSum.mul h.xSum))
  have hd0 : d ≠ 0 := by
    rintro rfl
    exact hden hdenominator
  have hslope : IsFin (fitLine sums res).slope := by
    change IsFin (_ / sums.denominator)
    rw [hdenominator]
    exact (h.xySum.sub (hdiv (h.xSum.mul h.ySum))).div hd0
  exact ⟨hslope, hdiv (h.ySum.sub (hslope.mul h.xSum))⟩

end Sums

section Linreg

variable {s : LinregServo XRat}

theorem moveReference_finite (hs : s.Finite) (x y : Int64) : (moveReference s x y).Finite :=
  { weight := hs.weight
    slope := hs.slope
    intercept := fun k => (hs.intercept k).add
      (IsFin.sub (IsFin.mul ⟨_, rfl⟩ (hs.slope k)) ⟨_, rfl⟩)
    interval := hs.interval }

theorem stepped_finite (hs : s.Finite) (offset : Int64) : (stepped s offset).Finite := by
  have hmoved := moveReference_finite hs 0 (-offset)
  exact ⟨hmoved.weight, hmoved.slope, hmoved.intercept, hmoved.interval⟩

/-- The invariant does not depend on the frequency. -/
theorem LinregServo.Finite.setFreq (hs : s.Finite) (clockFreq frequencyRatio : XRat) :
    LinregServo.Finite { s with clockFreq, frequencyRatio } :=
  ⟨hs.weight, hs.slope, hs.intercept, hs.interval⟩

/-- The interval is converted to an integer: it does not matter here whether it was a number. -/
theorem updateReference_finite (hs : s.Finite) (localTs : UInt64) :
    (updateReference s localTs).Finite := by
  simp only [updateReference]
  split
  · exact ⟨hs.weight, hs.slope, (moveReference_finite hs _ _).intercept, hs.interval⟩
  · exact ⟨hs.weight, hs.slope, hs.intercept, hs.interval⟩

theorem addSample_finite (hs : s.Finite) (offset : Int64) {weight : XRat}
    (hweight : IsFin weight) : (addSample s offset weight).Finite := by
  refine ⟨?_, hs.slope, hs.intercept, hs.interval⟩
  intro i
  change IsFin (Function.update s.points (s.lastPoint + 1) _ i).w
  by_cases hi : i = s.lastPoint + 1
  · rw [hi, Function.update_self]
    exact hweight
  · rw [Function.update_of_ne hi]
    exact hs.weight i

theorem regress_finite (hs : s.Finite) (hdefined : RegressionsDefined s) :
    (regress s).Finite := by
  have hline : ∀ k, IsFin ((regress s).results k).slope ∧
      IsFin ((regress s).results k).intercept := by
    intro k
    rw [regress_eq]
    dsimp only [regressed]
    split
    · next hpoints =>
      exact fitLine_isFin (newestSums_finite hs _) (hdefined k hpoints).1 (hdefined k hpoints).2 _
    · exact ⟨hs.slope k, hs.intercept k⟩
  refine ⟨?_, ?_, ?_, ?_⟩
  · rw [regress_eq]
    exact hs.weight
  · intro k
    exact (hline k).1
  · intro k
    exact (hline k).2
  · rw [regress_eq]
    exact hs.interval

/-- A sample divides by no zero: the update interval was set, and the regressions are defined. -/
def SampleDefined (s : LinregServo XRat) (offset : Int64) (localTs : UInt64) (weight : XRat) :
    Prop :=
  s.updateInterval ≠ fin 0 ∧
    RegressionsDefined (addSample (updateReference s localTs) offset weight)

instance (s : LinregServo XRat) (offset : Int64) (localTs : UInt64) (weight : XRat) :
    Decidable (SampleDefined s offset localTs weight) :=
  inferInstanceAs (Decidable (_ ∧ _))

theorem linregUpdate_finite (hs : s.Finite) (offset : Int64) (localTs : UInt64) {weight : XRat}
    (hweight : IsFin weight) (hdefined : SampleDefined s offset localTs weight) :
    (linregUpdate s offset localTs weight).Finite := by
  have h := regress_finite (addSample_finite (updateReference_finite hs localTs) offset hweight)
    hdefined.2
  exact ⟨h.weight, h.slope, h.intercept, h.interval⟩

/-- The frequency that follows a size, before it is limited, is rational. -/
theorem targetFreq_isFin (hs : s.Finite) (hinterval : s.updateInterval ≠ fin 0) (k : SizeIndex) :
    IsFin (targetFreq s k) := by
  obtain ⟨t, ht⟩ := hs.interval
  have ht0 : t ≠ 0 := by
    rintro rfl
    exact hinterval ht
  have hcorr : ((corrInterval k : Nat) : ℚ) ≠ 0 := by
    have hpos : ∀ k : SizeIndex, corrInterval k ≠ 0 := by decide
    exact Nat.cast_ne_zero.mpr (hpos k)
  have hslope : IsFin (CDouble.lit 1000000000 * ((s.results k).slope - CDouble.lit 1)) :=
    IsFin.mul ⟨_, rfl⟩ ((hs.slope k).sub ⟨_, rfl⟩)
  refine hslope.add ?_
  rw [ht]
  exact ((hs.intercept k).div ht0).div (by exact_mod_cast hcorr)

variable {servo : ServoBase XRat} {m : ℚ} (hmax : servo.maxFrequency = fin m) (hm : 0 ≤ m)

include hmax hm

/-- **A sample of the regression servo**: while it waits for points the clock frequency stays,
otherwise it is limited; it is returned negated, so that both signs have to be in the limits. -/
theorem linregSample_finite (hs : s.Finite) (offset : Int64) (localTs : UInt64) {weight : XRat}
    (hweight : IsFin weight) (hdefined : SampleDefined s offset localTs weight) :
    (linregSample servo s offset localTs weight).2.2.Finite ∧
      (linregSample servo s offset localTs weight).1 =
        -(linregSample servo s offset localTs weight).2.2.clockFreq ∧
      (Within m (linregSample servo s offset localTs weight).2.2.clockFreq ∨
        (linregSample servo s offset localTs weight).2.1 = .unlocked ∧
          (linregSample servo s offset localTs weight).2.2.clockFreq = s.clockFreq) := by
  have hupdate := linregUpdate_finite hs offset localTs hweight hdefined
  obtain ⟨hclock, hsame⟩ := linregUpdate_frame s offset localTs weight
  have hinterval : (linregUpdate s offset localTs weight).updateInterval ≠ fin 0 :=
    hsame ▸ hdefined.1
  have hsampled := linregSample_sampled servo s offset localTs weight
  generalize linregSample servo s offset localTs weight = result at hsampled ⊢
  cases hsampled with
  | waiting => exact ⟨hupdate, rfl, .inr ⟨rfl, hclock⟩⟩
  | stepped k ratio =>
    have hstepped := stepped_finite hupdate offset
    have htarget := targetFreq_isFin hstepped hinterval k
    exact ⟨hstepped.setFreq _ ratio, rfl, .inl (clampClockFreq_within hmax hm htarget)⟩
  | followed k ratio =>
    have htarget := targetFreq_isFin hupdate hinterval k
    exact ⟨hupdate.setFreq _ ratio, rfl, .inl (clampClockFreq_within hmax hm htarget)⟩

theorem linregSample_bounded (hs : s.Bounded m) (offset : Int64) (localTs : UInt64)
    {weight : XRat} (hweight : IsFin weight)
    (hdefined : SampleDefined s offset localTs weight) :
    (linregSample servo s offset localTs weight).2.2.Bounded m ∧
      Within m (linregSample servo s offset localTs weight).1 := by
  obtain ⟨hfinite, hreturn, hclock⟩ :=
    linregSample_finite hmax hm hs.toFinite offset localTs hweight hdefined
  have hin : Within m (linregSample servo s offset localTs weight).2.2.clockFreq := by
    rcases hclock with hin | ⟨-, hsame⟩
    · exact hin
    · rw [hsame]
      exact hs.clockFreq
  exact ⟨⟨hfinite, hin⟩, hreturn ▸ hin.neg⟩

end Linreg

/-! ## Any servo, over a run -/

/-- The integrator of a servo is in the limits. -/
def Inner.WithinLimit (m : ℚ) : Inner XRat → Prop
  | .pi s => Within m s.drift
  | .linreg s => Within m s.clockFreq
  | .ntpshm _ => True

/-- The invariant of the servo's own state. -/
def Inner.Bounded (m : ℚ) : Inner XRat → Prop
  | .pi s => s.Bounded m
  | .linreg s => s.Bounded m
  | .ntpshm _ => True

theorem Inner.Bounded.withinLimit {m : ℚ} {inner : Inner XRat} (h : inner.Bounded m) :
    inner.WithinLimit m := by
  cases inner with
  | pi s => exact PiServo.Bounded.drift h
  | linreg s => exact LinregServo.Bounded.clockFreq h
  | ntpshm s => exact trivial

/-- The invariant of a servo. -/
def Servo.Bounded (m : ℚ) (servo : Servo XRat (Inner XRat)) : Prop :=
  servo.base.maxFrequency = fin m ∧ servo.inner.Bounded m

/-- A call in exact arithmetic: weights are in `[0, 1]`, the gains of the PI servo are not negative,
and the regression servo divides by no zero. The conditions are on the servo before the call, so
that they can be asked of every step of a run. -/
def Admissible (pow : XRat → XRat → XRat) (servo : Servo XRat (Inner XRat)) :
    ServoCall XRat → Prop
  | .sample offset localTs weight =>
    (∃ w, weight = fin w ∧ 0 ≤ w ∧ w ≤ 1) ∧
      match servo.inner with
      | .linreg s => SampleDefined s offset localTs weight
      | .pi _ | .ntpshm _ => True
  | .syncInterval interval =>
    match servo.inner with
    | .pi s => Nonneg (piSyncInterval pow s interval).kp ∧ Nonneg (piSyncInterval pow s interval).ki
    | .linreg _ => IsFin interval
    | .ntpshm _ => True
  | .reset => True

instance (pow : XRat → XRat → XRat) (servo : Servo XRat (Inner XRat)) :
    (call : ServoCall XRat) → Decidable (Admissible pow servo call)
  | .sample offset localTs weight =>
    match servo with
    | ⟨_, .linreg _⟩ => inferInstanceAs (Decidable (_ ∧ SampleDefined _ offset localTs weight))
    | ⟨_, .pi _⟩ | ⟨_, .ntpshm _⟩ => inferInstanceAs (Decidable (_ ∧ True))
  | .syncInterval interval =>
    match servo with
    | ⟨_, .pi s⟩ => inferInstanceAs (Decidable (Nonneg (piSyncInterval pow s interval).kp ∧ _))
    | ⟨_, .linreg _⟩ => inferInstanceAs (Decidable (IsFin interval))
    | ⟨_, .ntpshm _⟩ => isTrue trivial
  | .reset => isTrue trivial

/-- What a call returns is in the limits, and so is the integrator that it leaves. -/
def InLimits (pow : XRat → XRat → XRat) (m : ℚ) (servo : Servo XRat (Inner XRat)) :
    ServoCall XRat → Prop
  | .sample offset localTs weight =>
    Within m (servoSample (servoOps pow) servo offset localTs weight).1 ∧
      (servoSample (servoOps pow) servo offset localTs weight).2.2.inner.WithinLimit m
  | .syncInterval interval =>
    (servoSyncInterval (servoOps pow) servo interval).inner.WithinLimit m
  | .reset => (servoReset (servoOps pow) servo).inner.WithinLimit m

section Run

variable {pow : XRat → XRat → XRat} {m : ℚ} (hm : 0 ≤ m) {servo : Servo XRat (Inner XRat)}

include hm

/-- One sample of any servo keeps its numbers and its frequency bounded; the shared memory servo
returns zero. -/
theorem servoSample_step (hs : servo.Bounded m) {offset : Int64} {localTs : UInt64}
    {weight : XRat} (hadmissible : Admissible pow servo (.sample offset localTs weight)) :
    (servoSample (servoOps pow) servo offset localTs weight).2.2.Bounded m ∧
      Within m (servoSample (servoOps pow) servo offset localTs weight).1 := by
  obtain ⟨base, inner⟩ := servo
  obtain ⟨hmax, hinner⟩ := hs
  obtain ⟨⟨w, hw, hw0, -⟩, hdefined⟩ := hadmissible
  have hweight : Nonneg weight := ⟨w, hw, hw0⟩
  rw [servoSample_eq (servoOps pow) ⟨base, inner⟩ offset localTs weight rfl]
  have hbase : ∀ state, (baseAfter base offset state).maxFrequency = fin m := by
    intro state
    rw [baseAfter_maxFrequency]
    exact hmax
  cases inner with
  | pi s =>
    obtain ⟨hbounded, hreturn⟩ := piSample_bounded hmax hm offset localTs hinner hweight
    exact ⟨⟨hbase _, hbounded⟩, hreturn⟩
  | linreg s =>
    obtain ⟨hbounded, hreturn⟩ :=
      linregSample_bounded hmax hm hinner offset localTs hweight.isFin hdefined
    exact ⟨⟨hbase _, hbounded⟩, hreturn⟩
  | ntpshm s => exact ⟨⟨hbase _, trivial⟩, 0, rfl, by rwa [abs_zero]⟩

/-- One call: all but a sample leave the frequencies as they are. A sync interval sets the gains, or
the divisor of the regression, for which the run asks that they are numbers. -/
theorem servoStep_bounded {call : ServoCall XRat} {servo' : Servo XRat (Inner XRat)}
    (hs : servo.Bounded m) (hadmissible : Admissible pow servo call)
    (hstep : servoStep pow servo call = .ok servo') : servo'.Bounded m := by
  cases call with
  | sample offset localTs weight =>
    obtain rfl := Except.ok.inj hstep
    exact (servoSample_step hm hs hadmissible).1
  | syncInterval interval =>
    obtain ⟨base, inner⟩ := servo
    obtain ⟨hmax, hinner⟩ := hs
    obtain rfl := Except.ok.inj hstep
    cases inner with
    | pi s =>
      have hpi : s.Bounded m := hinner
      exact ⟨hmax, hpi.drift, hpi.lastFreq, hadmissible.1, hadmissible.2⟩
    | linreg s =>
      have hlinreg : s.Bounded m := hinner
      exact ⟨hmax, ⟨hlinreg.weight, hlinreg.slope, hlinreg.intercept, hadmissible⟩,
        hlinreg.clockFreq⟩
    | ntpshm s => exact ⟨hmax, trivial⟩
  | reset =>
    obtain ⟨base, inner⟩ := servo
    obtain ⟨hmax, hinner⟩ := hs
    obtain rfl := Except.ok.inj hstep
    cases inner with
    | pi s =>
      have hpi : s.Bounded m := hinner
      exact ⟨hmax, hpi.drift, hpi.lastFreq, hpi.kp, hpi.ki⟩
    | linreg s =>
      have hlinreg : s.Bounded m := hinner
      exact ⟨hmax, ⟨hlinreg.weight, fun _ => ⟨0, rfl⟩, hlinreg.intercept, hlinreg.interval⟩,
        hlinreg.clockFreq⟩
    | ntpshm s => exact ⟨hmax, trivial⟩

end Run

/-- A servo that was just created satisfies the invariant. -/
theorem servoCreate_bounded {env : ServoEnv} {cfg : ServoConfig XRat}
    {servo : Servo XRat (Inner XRat)} {m : ℚ} (hcreate : servoCreate env cfg = some servo)
    (hmax : servo.base.maxFrequency = fin m) (hadj : |(cfg.intialAdj : ℚ)| ≤ m) :
    servo.Bounded m := by
  obtain ⟨inner, hinner, rfl⟩ := Option.map_eq_some_iff.mp hcreate
  refine ⟨hmax, ?_⟩
  have hzero : IsFin (CDouble.lit 0) := ⟨0, rfl⟩
  split_ifs at hinner with halloc hpi hlinreg hntpshm
  · obtain rfl := Option.some.inj hinner
    have hnonneg : Nonneg (CDouble.lit 0) := ⟨0, rfl, le_refl 0⟩
    have hwithin : Within m (CDouble.ofInt cfg.intialAdj) := ⟨_, rfl, hadj⟩
    -- the constants of the user do not touch the frequencies
    obtain ⟨hdrift, hlast, hkp, hki⟩ := piServoCreate_init cfg
    exact ⟨hdrift ▸ hwithin, hlast ▸ hwithin, hkp ▸ hnonneg, hki ▸ hnonneg⟩
  · obtain rfl := Option.some.inj hinner
    refine ⟨⟨fun _ => hzero, fun _ => hzero, fun _ => hzero, hzero⟩, _, rfl, ?_⟩
    rwa [Int.cast_neg, abs_neg]
  · obtain ⟨s, -, rfl⟩ := Option.map_eq_some_iff.mp hinner
    exact trivial

/-- **Bounded output and anti-windup.** From a servo whose initial adjustment is within its maximum
frequency `m`, every admissible run of samples, resets and sync intervals returns frequencies in
`[-m, m]`, and keeps the integrator there. The integrator therefore never has to be unwound before
the output can move. -/
theorem servoSample_bounded {pow : XRat → XRat → XRat} {env : ServoEnv} {cfg : ServoConfig XRat}
    {servo : Servo XRat (Inner XRat)} {m : ℚ} {calls : List (ServoCall XRat)}
    (hcreate : servoCreate env cfg = some servo) (hmax : servo.base.maxFrequency = fin m)
    (hadj : |(cfg.intialAdj : ℚ)| ≤ m)
    (hcalls : Always (servoStep pow) (Admissible pow) servo calls) :
    servo.inner.WithinLimit m ∧ Always (servoStep pow) (InLimits pow m) servo calls := by
  have hm : 0 ≤ m := (abs_nonneg _).trans hadj
  have hinit := servoCreate_bounded hcreate hmax hadj
  have hstep : ∀ servo call servo', servo.Bounded m → Admissible pow servo call →
      servoStep pow servo call = .ok servo' → servo'.Bounded m := by
    intro servo call servo' hs hadmissible hok
    exact servoStep_bounded hm hs hadmissible hok
  refine ⟨hinit.2.withinLimit, Always.of_inv hstep ?_ hinit hcalls⟩
  intro servo call hs hadmissible
  cases call with
  | sample offset localTs weight =>
    obtain ⟨hbounded, hreturn⟩ := servoSample_step hm hs hadmissible
    exact ⟨hreturn, hbounded.2.withinLimit⟩
  | syncInterval interval => exact (hstep _ _ _ hs hadmissible rfl).2.withinLimit
  | reset => exact (hstep _ _ _ hs hadmissible rfl).2.withinLimit

/-- The settings of a regression servo with a maximum of 500 ppm. -/
def linregConfig : ServoConfig XRat :=
  { ServoConfig.zero with type := 1, maxFrequency := fin 500000 }

/-- Six samples, one a second, of a clock that is 50 ppb too fast. -/
def linregCalls : List (ServoCall XRat) :=
  .syncInterval (fin 1) :: (List.range 6).map fun i =>
    .sample (Int64.ofNat (50 * i)) (UInt64.ofNat (1000000000 * (i + 1))) (fin 1)

/-- Six samples of a clock that is 50 ppb too fast, followed well within the 500 ppm of the servo.
-/
theorem servoSample_bounded_linreg :
    ∃ servo ∈ servoCreate ⟨true, fun _ => none⟩ linregConfig,
      servo.inner.WithinLimit 500000 ∧
        Always (servoStep powOne) (InLimits powOne 500000) servo linregCalls := by
  have h : ∃ servo ∈ servoCreate ⟨true, fun _ => none⟩ linregConfig,
      servo.base.maxFrequency = fin 500000 ∧
        Always (servoStep powOne) (Admissible powOne) servo linregCalls := by decide +kernel
  obtain ⟨servo, hcreate, hmax, hcalls⟩ := h
  exact ⟨servo, hcreate, servoSample_bounded hcreate hmax (by decide +kernel) hcalls⟩

end ExternalServo
