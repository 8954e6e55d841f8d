import ExternalServo.FrequencyWords

/-!
# Requests within the limits of the kernel

The kernel refuses a tick that is more than a tenth off the nominal one, a frequency word beyond
the tolerance of the clock, and a step whose lower field is negative or a second or more.

* `advertised_settable_iff` — `clockadj_set_freq` keeps to the first two for every frequency up to
  the maximum that `clockadj_max_freq` advertises, as long as its `2 * f` is an `int`;
* `clockadjStep_canonical` — `clockadj_step` keeps to the third, for every step.
-/

namespace ExternalServo

open CArith XRat

/-! ## Steps -/

theorem NS_PER_SEC_LL_toInt : NS_PER_SEC_LL.toInt = 1000000000 := rfl

/-- Seconds and nanoseconds of a step that is not negative. -/
theorem step_split (step : Int64) (hstep : 0 ≤ step.toInt) :
    (step / NS_PER_SEC_LL).toInt = step.toInt / 1000000000 ∧
      (step % NS_PER_SEC_LL).toInt = step.toInt % 1000000000 := by
  have hne : NS_PER_SEC_LL ≠ -1 := by decide
  refine ⟨?_, ?_⟩
  · rw [Int64.toInt_div_of_ne_right _ _ hne, NS_PER_SEC_LL_toInt, Int.tdiv_eq_ediv_of_nonneg hstep]
  · rw [Int64.toInt_mod, NS_PER_SEC_LL_toInt, Int.tmod_eq_emod_of_nonneg hstep]

/-- The negation of a value that is not negative. -/
theorem toInt_neg_of_nonneg {x : Int64} (h : 0 ≤ x.toInt) : (-x).toInt = -x.toInt := by
  apply toInt_neg
  rintro rfl
  exact absurd h (by decide)

/-- The borrow of `clockadj_step`: a negative part of a second takes a second. -/
theorem borrow_toInt (sec nsec : Int64) (hsec : Fits (sec.toInt - 1))
    (hlo : -1000000000 < nsec.toInt) (hhi : nsec.toInt < 1000000000) :
    let split := if nsec < 0 then (sec - 1, nsec + 1000000000) else (sec, nsec)
    split.1.toInt * 1000000000 + split.2.toInt = sec.toInt * 1000000000 + nsec.toInt ∧
      0 ≤ split.2.toInt ∧ split.2.toInt < 1000000000 := by
  intro split
  have hone : (1 : Int64).toInt = 1 := rfl
  have hgiga : (1000000000 : Int64).toInt = 1000000000 := rfl
  by_cases hneg : nsec < 0
  · have hlt : nsec.toInt < 0 := Int64.lt_iff_toInt_lt.mp hneg
    have hsec' : (sec - 1).toInt = sec.toInt - 1 := by
      rw [toInt_sub_of_fits (by rwa [hone]), hone]
    have hnsec' : (nsec + 1000000000).toInt = nsec.toInt + 1000000000 := by
      rw [toInt_add_of_fits ⟨by omega, by omega⟩, hgiga]
    have hsplit : split = (sec - 1, nsec + 1000000000) := if_pos hneg
    rw [hsplit, hsec', hnsec']
    refine ⟨?_, ?_, ?_⟩ <;> omega
  · have hge : ¬ nsec.toInt < 0 := fun hlt => hneg (Int64.lt_iff_toInt_lt.mpr hlt)
    have hsplit : split = (sec, nsec) := if_neg hneg
    rw [hsplit]
    exact ⟨rfl, not_lt.mp hge, hhi⟩

/-- **A step is split exactly**, into whole seconds and a part of the next one. The least offset is
excepted, as its sign cannot be flipped. -/
theorem clockadjStep_canonical {step : Int64} (hstep : step ≠ Int64.minValue) :
    (clockadjStep step).tvSec.toInt * 1000000000 + (clockadjStep step).tvUsec.toInt = step.toInt ∧
      0 ≤ (clockadjStep step).tvUsec.toInt ∧ (clockadjStep step).tvUsec.toInt < 1000000000 := by
  have hlo := step.le_toInt
  have hhi := step.toInt_lt
  by_cases hneg : step < 0
  · have hlt : step.toInt < 0 := Int64.lt_iff_toInt_lt.mp hneg
    have hflip := toInt_neg hstep
    obtain ⟨hsec, hnsec⟩ := step_split (-step) (by omega)
    -- the magnitude is split, and both parts get the sign back
    have hsec' := toInt_neg_of_nonneg (x := -step / NS_PER_SEC_LL) (by omega)
    have hnsec' := toInt_neg_of_nonneg (x := -step % NS_PER_SEC_LL) (by omega)
    obtain ⟨hsum, hrange⟩ := borrow_toInt (-(-step / NS_PER_SEC_LL))
      (-(-step % NS_PER_SEC_LL)) ⟨by omega, by omega⟩ (by omega) (by omega)
    have htimes : step * -1 = -step := by rw [Int64.mul_neg, Int64.mul_one]
    simp only [clockadjStep, hneg, if_true, htimes, ← Int64.neg_eq_neg_one_mul]
    refine ⟨?_, hrange⟩
    rw [hsum]
    omega
  · have hge : 0 ≤ step.toInt := by
      by_contra hlt
      exact hneg (Int64.lt_iff_toInt_lt.mpr (not_le.mp hlt))
    obtain ⟨hsec, hnsec⟩ := step_split step hge
    obtain ⟨hsum, hrange⟩ := borrow_toInt (step / NS_PER_SEC_LL)
      (step % NS_PER_SEC_LL) ⟨by omega, by omega⟩ (by omega) (by omega)
    simp only [clockadjStep, hneg, if_false, Int64.one_mul]
    refine ⟨?_, hrange⟩
    rw [hsum]
    omega

/-- A step back by 1.5 s is requested as minus two seconds and half a second more, as the kernel
wants the nanoseconds not negative. -/
theorem clockadjStep_canonical_backwards :
    (clockadjStep (-1500000000)).tvSec = -2 ∧ (clockadjStep (-1500000000)).tvUsec = 500000000 ∧
      (clockadjStep (-1500000000)).tvSec.toInt * 1000000000 +
        (clockadjStep (-1500000000)).tvUsec.toInt = (-1500000000 : Int64).toInt :=
  ⟨by decide, by decide, (clockadjStep_canonical (by decide)).1⟩

/-! ## Frequencies -/

/-- The statics after `clockadj_init` with a frequency of the clock ticks. -/
def initStatics (statics : ClockStatics) (hz : Int) : ClockStatics :=
  clockadjInit statics CLOCK_REALTIME hz

/-- The tolerance of a clock in whole ppb: `tx.tolerance / 65.536`, converted. -/
def tolerancePpb (tx : Timex) : Int := integral (tx.tolerance.toInt / 65.536)

/-- The maximum that is advertised for the system clock. -/
def advertised (statics : ClockStatics) (tx : Timex) : Int :=
  (clockadjMaxFreq XRat statics CLOCK_REALTIME (some tx)).toInt

/-- The request for a frequency is within the limits of the kernel: the tick by a tenth of the
nominal one, the frequency word by the tolerance. A request beyond them is refused or cut, and the
clock does not run as it was told. -/
def Settable (statics : ClockStatics) (tx : Timex) (f : ℚ) : Prop :=
  |(setFreqWords statics f).tick.toInt - statics.realtimeNominalTick| ≤
      statics.realtimeNominalTick / 10 ∧
    |(setFreqWords statics f).freq.toInt| ≤ tx.tolerance.toInt

/-- The tolerance is an `int` in ppb, its double is not; and the nominal tick is known. The source
doubles it to compare it with the size of a tick, and with a negative double it takes the ticks for
too coarse. -/
def DoublingOverflows (statics : ClockStatics) (tx : Timex) : Prop :=
  statics.realtimeNominalTick ≠ 0 ∧ 2 ^ 30 ≤ tolerancePpb tx ∧ tolerancePpb tx < 2 ^ 31

section Nominal

variable {hz : Int} (hhz : 0 < hz) (statics : ClockStatics)

include hhz

/-- The statics with a positive frequency of the clock ticks. -/
theorem initStatics_eq : (initStatics statics hz).realtimeHz = hz ∧
    (initStatics statics hz).realtimeNominalTick = (1000000 + hz / 2) / hz := by
  have hinit : initStatics statics hz = { statics with
      realtimeHz := hz, realtimeNominalTick := (1000000 + hz / 2) / hz } := by
    rw [initStatics, clockadjInit, if_pos rfl]
    exact if_pos hhz
  rw [hinit]
  exact ⟨rfl, rfl⟩

/-- The nominal ticks of a second are a second, rounded. -/
theorem nominal_mul_le : 0 ≤ (initStatics statics hz).realtimeNominalTick ∧
    (initStatics statics hz).realtimeNominalTick * hz ≤ 1000000 + hz / 2 := by
  rw [(initStatics_eq hhz statics).2]
  exact ⟨Int.ediv_nonneg (by omega) hhz.le, Int.ediv_mul_le _ hhz.ne'⟩

/-- A tick is known up to two million ticks a second. -/
theorem hz_le_of_nominal (hne : (initStatics statics hz).realtimeNominalTick ≠ 0) :
    hz ≤ 2000000 := by
  obtain ⟨hnonneg, hmul⟩ := nominal_mul_le hhz statics
  have hone : 1 * hz ≤ (initStatics statics hz).realtimeNominalTick * hz :=
    Int.mul_le_mul_of_nonneg_right (by omega) hhz.le
  omega

/-- Ten times the tenth of the nominal tick. -/
theorem tenth_mul_le : 10 * ((initStatics statics hz).realtimeNominalTick / 10 * hz) ≤
    1000000 + hz / 2 := by
  obtain ⟨hnonneg, hmul⟩ := nominal_mul_le hhz statics
  generalize (initStatics statics hz).realtimeNominalTick = nominal at hmul
  have htenth : nominal / 10 * 10 ≤ nominal := Int.ediv_mul_le nominal (by decide)
  calc 10 * (nominal / 10 * hz) = nominal / 10 * 10 * hz := by ring
    _ ≤ nominal * hz := Int.mul_le_mul_of_nonneg_right htenth hhz.le
    _ ≤ 1000000 + hz / 2 := hmul

/-- A tenth of the nominal tick is less than two hundred million ppb. -/
theorem tenth_range (hne : (initStatics statics hz).realtimeNominalTick ≠ 0) :
    0 ≤ (initStatics statics hz).realtimeNominalTick / 10 * 1000 *
        (initStatics statics hz).realtimeHz ∧
      (initStatics statics hz).realtimeNominalTick / 10 * 1000 *
        (initStatics statics hz).realtimeHz ≤ 200000000 := by
  have hnonneg := (nominal_mul_le hhz statics).1
  have htenth := tenth_mul_le hhz statics
  have hle := hz_le_of_nominal hhz statics hne
  rw [(initStatics_eq hhz statics).1]
  generalize (initStatics statics hz).realtimeNominalTick = nominal at hnonneg htenth
  have hproduct : 0 ≤ nominal / 10 * hz := Int.mul_nonneg (by omega) hhz.le
  have hcomm : nominal / 10 * 1000 * hz = 1000 * (nominal / 10 * hz) := by ring
  rw [hcomm]
  refine ⟨?_, ?_⟩
  · omega
  · omega

/-- A tick a microsecond longer, in ppb. -/
theorem tickUnit_pos : (0 : ℚ) < 1000 * (initStatics statics hz).realtimeHz := by
  have hcast : (0 : ℚ) < (initStatics statics hz).realtimeHz := by
    rw [(initStatics_eq hhz statics).1]
    exact_mod_cast hhz
  exact mul_pos (by norm_num) hcast

end Nominal

/-- What the tolerance of a clock says of its frequency words. -/
theorem tolerancePpb_le {tx : Timex} (h : 0 < tolerancePpb tx) :
    (tolerancePpb tx : ℚ) * 65.536 ≤ tx.tolerance.toInt := by
  rw [← le_div_iff₀ (by norm_num)]
  exact integral_le_of_pos h

/-- The outcomes of `clockadj_max_freq`, for a tolerance of at least one ppb. Each has the condition
under which the source gets there, so a case analysis on it replaces one on the branches of the
source. -/
inductive Advertises (statics : ClockStatics) (tx : Timex) : Int → Prop where
  /-- the tolerance is no `int` in ppb -/
  | outOfRange (hlarge : 2 ^ 31 ≤ tolerancePpb tx) : Advertises statics tx (-2 ^ 31)
  /-- the tolerance itself -/
  | plain (hint : tolerancePpb tx < 2 ^ 31)
    (hgap : statics.realtimeNominalTick = 0 ∨ 2 ^ 30 ≤ tolerancePpb tx ∨
      2 * tolerancePpb tx < 1000 * statics.realtimeHz) :
    Advertises statics tx (tolerancePpb tx)
  /-- a tenth of the nominal tick -/
  | extended (hnominal : statics.realtimeNominalTick ≠ 0) (hfits : tolerancePpb tx < 2 ^ 30)
    (hgap : 1000 * statics.realtimeHz ≤ 2 * tolerancePpb tx) :
    Advertises statics tx (statics.realtimeNominalTick / 10 * 1000 * statics.realtimeHz)

/-- **The inversion of `clockadj_max_freq`.** The conversion of the tolerance is the first split:
where it does not fit, the result is the least `int`, whose double is zero. Where it fits, the
comparison of its double decides between the other two. -/
theorem advertised_advertises {hz : Int} (hhz : 0 < hz) (statics : ClockStatics) {tx : Timex}
    (htol : 0 < tolerancePpb tx) :
    Advertises (initStatics statics hz) tx (advertised (initStatics statics hz) tx) := by
  obtain ⟨hhz', -⟩ := initStatics_eq hhz statics
  have hdiv : (CDouble.ofInt tx.tolerance.toInt / CDouble.lit 65.536 : XRat) =
      fin (tx.tolerance.toInt / 65.536) := by
    rw [ofInt_eq, lit_eq, fin_div _ (by norm_num)]
  rw [advertised, clockadjMaxFreq, hdiv]
  by_cases hint : tolerancePpb tx < 2 ^ 31
  · have hlo : -2 ^ 31 ≤ tolerancePpb tx := by omega
    have hconvert : CDouble.toInt32 (fin (tx.tolerance.toInt / 65.536)) = tolerancePpb tx :=
      if_pos ⟨hlo, hint⟩
    rw [hconvert, if_neg htol.ne']
    split
    · next hcond =>
      obtain ⟨-, hnominal, hgap⟩ := hcond
      -- a double that overflows is negative, and does not get here
      have hfits : tolerancePpb tx < 2 ^ 30 := by
        by_contra hlarge
        rw [← Int.sub_bmod_right, Int.bmod_eq_of_le (by omega) (by omega)] at hgap
        omega
      rw [Int.bmod_eq_of_le (by omega) (by omega)] at hgap
      obtain ⟨hmin, hmax⟩ := tenth_range hhz statics hnominal
      rw [Int32.toInt_ofInt_of_le (by omega) (by omega)]
      exact .extended hnominal hfits hgap
    · next hcond =>
      rw [Int32.toInt_ofInt_of_le (by omega) hint]
      refine .plain hint ?_
      by_contra hnot
      rw [not_or, not_or, not_le, not_lt] at hnot
      obtain ⟨hnominal, hfits, hgap⟩ := hnot
      apply hcond
      rw [Int.bmod_eq_of_le (by omega) (by omega)]
      exact ⟨rfl, hnominal, hgap⟩
  · have hconvert : CDouble.toInt32 (fin (tx.tolerance.toInt / 65.536)) = -2 ^ 31 :=
      if_neg fun hrange => hint hrange.2
    have hdouble : (2 * (-2 ^ 31 : Int)).bmod (2 ^ 32) = 0 := by decide
    have hne : (-2 ^ 31 : Int) ≠ 0 := by decide
    rw [hconvert, if_neg hne, hdouble, if_neg (by omega)]
    exact .outOfRange (not_lt.mp hint)

/-- A frequency word of a value within the tolerance. -/
theorem abs_toInt64_le {q : ℚ} {t : Int64} (h : |q| ≤ t.toInt) :
    Fits (integral q) ∧ |integral q| ≤ t.toInt := by
  have habs : |integral q| ≤ t.toInt := by
    have hle := (abs_integral_le q).trans h
    exact_mod_cast hle
  obtain ⟨hlo, hhi⟩ := abs_le.mp habs
  have hlt := t.toInt_lt
  exact ⟨⟨by omega, by omega⟩, habs⟩

/-- Without a nominal tick the whole frequency goes to the frequency word. -/
theorem settable_of_noTick {statics : ClockStatics} (hzero : statics.realtimeNominalTick = 0)
    {tx : Timex} {f : ℚ} (hf : |f * 65.536| ≤ tx.tolerance.toInt) : Settable statics tx f := by
  obtain ⟨hfits, hle⟩ := abs_toInt64_le hf
  have hcond : ¬ (CLOCK_REALTIME = CLOCK_REALTIME ∧ statics.realtimeNominalTick ≠ 0) :=
    fun hcond => hcond.2 hzero
  rw [Settable, setFreqWords, clockadjSetFreq, if_neg hcond, hzero]
  dsimp only
  rw [lit_eq, fin_mul, toInt64_integral hfits.1 hfits.2]
  exact ⟨by decide, hle⟩

section Settable

variable {hz : Int} (hhz : 0 < hz) (statics : ClockStatics)
  (hnominal : (initStatics statics hz).realtimeNominalTick ≠ 0) {tx : Timex} {f : ℚ}

include hhz hnominal

/-- The words of a frequency that is not huge. -/
theorem wordsFit_init (hf : |f| ≤ 2 ^ 61) : WordsFit (initStatics statics hz) f := by
  obtain ⟨hnonneg, hmul⟩ := nominal_mul_le hhz statics
  have hle := hz_le_of_nominal hhz statics hnominal
  have hone : (initStatics statics hz).realtimeNominalTick * 1 ≤
      (initStatics statics hz).realtimeNominalTick * hz :=
    Int.mul_le_mul_of_nonneg_left (by omega) hnonneg
  have hhz' := (initStatics_eq hhz statics).1
  refine wordsFit_of_le (by omega) (by omega) ?_ hf
  rw [abs_of_nonneg hnonneg]
  omega

/-- A frequency is settable if its ticks and what is left of it are within the limits. -/
theorem settable_iff (hf : |f| ≤ 2 ^ 61) :
    Settable (initStatics statics hz) tx f ↔
      |nearest (f / (1000 * (initStatics statics hz).realtimeHz))| ≤
          (initStatics statics hz).realtimeNominalTick / 10 ∧
        |integral (remainder (initStatics statics hz) f)| ≤ tx.tolerance.toInt := by
  have hnonneg := (nominal_mul_le hhz statics).1
  have hhz' := (initStatics_eq hhz statics).1
  obtain ⟨htick, hfreq⟩ := setFreqWords_eq (by omega) (by omega)
    (wordsFit_init hhz statics hnominal hf)
  rw [Settable, htick, hfreq, tickWord, tickCount, div_div, add_sub_cancel_right]

/-- **Without ticks**: less than half a tick is left to the frequency word, so for a frequency
within the tolerance the tick stays nominal and the word is the frequency itself. -/
theorem settable_plain (htol : 0 < tolerancePpb tx) (hint : tolerancePpb tx < 2 ^ 31)
    (hgap : 2 * tolerancePpb tx < 1000 * (initStatics statics hz).realtimeHz)
    (hf : |f| ≤ tolerancePpb tx) : Settable (initStatics statics hz) tx f := by
  have hhz' := (initStatics_eq hhz statics).1
  have hpos := tickUnit_pos hhz statics
  have hhalf : |f / (1000 * (initStatics statics hz).realtimeHz)| < 1 / 2 := by
    have hcast : 2 * (tolerancePpb tx : ℚ) < 1000 * (initStatics statics hz).realtimeHz := by
      exact_mod_cast hgap
    rw [abs_div, abs_of_pos hpos, div_lt_iff₀ hpos]
    linarith
  have hsmall : (tolerancePpb tx : ℚ) ≤ 2 ^ 31 := by exact_mod_cast hint.le
  have hnonneg := (nominal_mul_le hhz statics).1
  rw [settable_iff hhz statics hnominal (hf.trans (hsmall.trans (by norm_num))),
    nearest_eq_zero hhalf]
  refine ⟨by rw [abs_zero]; omega, (abs_toInt64_le ?_).2⟩
  -- nothing went to the tick
  have hleft : remainder (initStatics statics hz) f = f * 65.536 := by
    have hmul := div_mul_cancel₀ f hpos.ne'
    rw [remainder_eq (by omega), nearest_eq_zero hhalf, Int.cast_zero, sub_zero]
    linear_combination 65.536 * hmul
  rw [hleft, abs_mul, abs_of_pos (by norm_num : (0 : ℚ) < 65.536)]
  have htolerance := tolerancePpb_le htol
  linarith

/-- **With ticks**: what rounding leaves is less than the tolerance, as half a tick is, and the tick
moves by a tenth at most. -/
theorem settable_extended (htol : 0 < tolerancePpb tx)
    (hgap : 1000 * (initStatics statics hz).realtimeHz ≤ 2 * tolerancePpb tx)
    (hf : |f| ≤ ((initStatics statics hz).realtimeNominalTick / 10 * 1000 *
      (initStatics statics hz).realtimeHz : Int)) : Settable (initStatics statics hz) tx f := by
  have hhz' := (initStatics_eq hhz statics).1
  have hpos := tickUnit_pos hhz statics
  have hsmall : (((initStatics statics hz).realtimeNominalTick / 10 * 1000 *
      (initStatics statics hz).realtimeHz : Int) : ℚ) ≤ 200000000 := by
    exact_mod_cast (tenth_range hhz statics hnominal).2
  rw [settable_iff hhz statics hnominal (hf.trans (hsmall.trans (by norm_num)))]
  refine ⟨?_, ?_⟩
  · apply abs_nearest_le
    rw [abs_div, abs_of_pos hpos, div_le_iff₀ hpos]
    push_cast at hf
    linarith
  · apply (abs_toInt64_le _).2
    have hround := abs_sub_nearest_le (f / (1000 * (initStatics statics hz).realtimeHz))
    have htolerance := tolerancePpb_le htol
    have hgap' : 1000 * ((initStatics statics hz).realtimeHz : ℚ) ≤ 2 * tolerancePpb tx := by
      exact_mod_cast hgap
    have hunit : (0 : ℚ) < 65536 * (initStatics statics hz).realtimeHz := by linarith
    rw [remainder_eq (by omega), abs_mul, abs_of_pos hunit]
    calc _ ≤ 1 / 2 * (65536 * ((initStatics statics hz).realtimeHz : ℚ)) := by gcongr
      _ ≤ tx.tolerance.toInt := by linarith

/-- The tolerance itself is too many ticks, if its double is no `int`. -/
theorem not_settable_tolerance (hlarge : 2 ^ 30 ≤ tolerancePpb tx)
    (hint : tolerancePpb tx < 2 ^ 31) :
    ¬ Settable (initStatics statics hz) tx (tolerancePpb tx) := by
  have hhz' := (initStatics_eq hhz statics).1
  have htenth := tenth_mul_le hhz statics
  have hle := hz_le_of_nominal hhz statics hnominal
  have hpos := tickUnit_pos hhz statics
  have hsmall : |(tolerancePpb tx : ℚ)| ≤ 2 ^ 61 := by
    have habs : |tolerancePpb tx| ≤ 2 ^ 61 := by rw [abs_of_nonneg] <;> omega
    exact_mod_cast habs
  rw [settable_iff hhz statics hnominal hsmall]
  rw [hhz'] at hpos ⊢
  rintro ⟨htick, -⟩
  generalize (initStatics statics hz).realtimeNominalTick = nominal at htick htenth
  -- the ticks are at least the frequency over a tick, less a half
  have hticks : 2 * tolerancePpb tx ≤ 1000 * hz * (2 * (nominal / 10) + 1) := by
    have hround := (abs_le.mp (abs_sub_nearest_le (tolerancePpb tx / (1000 * hz)))).2
    have hnear : (nearest (tolerancePpb tx / (1000 * hz)) : ℚ) ≤ (nominal / 10 : Int) := by
      exact_mod_cast (le_abs_self _).trans htick
    have hquot : (tolerancePpb tx : ℚ) / (1000 * hz) ≤ (nominal / 10 : Int) + 1 / 2 := by linarith
    rw [div_le_iff₀ hpos] at hquot
    have hcast : (2 * tolerancePpb tx : ℚ) ≤ 1000 * hz * (2 * (nominal / 10 : Int) + 1) := by
      linarith
    exact_mod_cast hcast
  have hcomm : 1000 * hz * (2 * (nominal / 10) + 1) =
      2000 * (nominal / 10 * hz) + 1000 * hz := by ring
  rcases le_or_gt (nominal / 10) 0 with hzero | hone
  · have hproduct : nominal / 10 * hz ≤ 0 := Int.mul_nonpos_of_nonpos_of_nonneg hzero hhz.le
    omega
  · have hproduct : 1 * hz ≤ nominal / 10 * hz := Int.mul_le_mul_of_nonneg_right hone hhz.le
    omega

end Settable

/-- **The advertised maximum is settable**: for every frequency of the clock ticks and every
tolerance of at least one ppb, all frequencies up to the maximum are within the limits of the
kernel, exactly unless the double of the tolerance overflows. Where it does, the tolerance is
advertised without ticks, and a frequency near it needs a tick that the kernel refuses. -/
theorem advertised_settable_iff {hz : Int} (hhz : 0 < hz) (statics : ClockStatics) {tx : Timex}
    (htol : 0 < tolerancePpb tx) :
    (∀ f : ℚ, |f| ≤ advertised (initStatics statics hz) tx →
        Settable (initStatics statics hz) tx f) ↔
      ¬ DoublingOverflows (initStatics statics hz) tx := by
  have hadvertises := advertised_advertises hhz statics htol
  have hcast : (0 : ℚ) < tolerancePpb tx := by exact_mod_cast htol
  refine ⟨?_, ?_⟩
  · rintro hall ⟨hnominal, hlarge, hint⟩
    apply not_settable_tolerance hhz statics hnominal hlarge hint
    apply hall
    generalize advertised (initStatics statics hz) tx = maximum at hadvertises
    rw [abs_of_pos hcast]
    cases hadvertises with
    | outOfRange hout => omega
    | plain => exact le_refl _
    | extended _ hfits => omega
  · intro hfits f hf
    generalize advertised (initStatics statics hz) tx = maximum at hadvertises hf
    cases hadvertises with
    | outOfRange =>
      have hnegative : ((-2 ^ 31 : Int) : ℚ) < 0 := by norm_num
      exact absurd (abs_nonneg f) (not_le.mpr (hf.trans_lt hnegative))
    | plain hint hgap =>
      by_cases hnominal : (initStatics statics hz).realtimeNominalTick = 0
      · have htolerance := tolerancePpb_le htol
        apply settable_of_noTick hnominal
        rw [abs_mul, abs_of_pos (by norm_num : (0 : ℚ) < 65.536)]
        linarith
      · rcases hgap with hzero | hlarge | hgap
        · exact absurd hzero hnominal
        · exact absurd ⟨hnominal, hlarge, hint⟩ hfits
        · exact settable_plain hhz statics hnominal htol hint hgap hf
    | extended hnominal _ hgap => exact settable_extended hhz statics hnominal htol hgap hf

/-- The tolerance that Linux reports, 500 ppm: a clock of 100 ticks a second can be adjusted by a
tenth. -/
theorem advertised_settable_linux :
    advertised (initStatics {} 100) { tolerance := 32768000 } = 100000000 ∧
      ∀ f : ℚ, |f| ≤ advertised (initStatics {} 100) { tolerance := 32768000 } →
        Settable (initStatics {} 100) { tolerance := 32768000 } f := by
  refine ⟨by decide +kernel, ?_⟩
  have hsmall : ¬ DoublingOverflows (initStatics {} 100) { tolerance := 32768000 } := by
    rintro ⟨-, hlarge, -⟩
    exact absurd hlarge (by decide +kernel)
  exact (advertised_settable_iff (by decide) {} (by decide +kernel)).mpr hsmall

/-- With a tolerance of `2 ^ 30` ppb the double of it overflows, and the tolerance is advertised.
That many ppb are more than ten thousand ticks. -/
theorem not_advertised_settable :
    0 < tolerancePpb { tolerance := 70368744178 } ∧
      ∃ f : ℚ, |f| ≤ advertised (initStatics {} 100) { tolerance := 70368744178 } ∧
        ¬ Settable (initStatics {} 100) { tolerance := 70368744178 } f := by
  have hlimit : ¬ |(setFreqWords (initStatics {} 100) 1073741824).tick.toInt -
      (initStatics {} 100).realtimeNominalTick| ≤
        (initStatics {} 100).realtimeNominalTick / 10 := by decide +kernel
  exact ⟨by decide +kernel, 1073741824, by decide +kernel, fun h => hlimit h.1⟩

end ExternalServo
