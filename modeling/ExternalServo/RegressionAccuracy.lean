import ExternalServo.Regression
import ExternalServo.LinregDivisors

/-!
# How accurate the regression servo is

The remote times that the servo measures are noisy. If the points in the buffer are near some line,
then so is the line that a regression fits to them, and the frequency that the servo returns is
that of the fitted line: noise of `δ` nanoseconds makes an error of the rate of at most `δ` over the
standard deviation of the local times, and at their mean an error of the offset of at most `δ`.

* `accurate_sample` — one sample;
* `regression_accurate` — every run of the program in which no sample is stalled.
-/

namespace ExternalServo

open CArith XRat Runs LeastSquares

/-! ## One sample -/

/-- The newest points of the buffer, as many as a size takes, relative to the reference. -/
def bufferData (s : LinregServo XRat) (k : SizeIndex) : List (Datum ℚ) :=
  (List.range k.points).map fun i => relative s.reference (s.points (newestIndex s i))

/-- The points are within `δ` of the line with slope `α` and intercept `β`. -/
def NearLine (data : List (Datum ℚ)) (α β δ : ℚ) : Prop :=
  ∀ d ∈ data, |d.y - α * d.x - β| ≤ δ

/-- The line with slope `a` and intercept `b` is as near to that line as the points are: over the
standard deviation of the places, and at their mean. The two add up as squares, so each of them
alone is at most `δ`. -/
def NearFit (data : List (Datum ℚ)) (a b α β δ : ℚ) : Prop :=
  (a - α) ^ 2 * variance data + ((a - α) * centre data + (b - β)) ^ 2 ≤ δ ^ 2

/-- The frequency of a line, in ppb: its rate, and the correction of its offset over a time. -/
def lineFreq (a b interval : ℚ) (k : SizeIndex) : ℚ :=
  1000000000 * (a - 1) + b / interval / corrInterval k

/-- For every size with enough points, a sample fits a line that is as near to any other one as the
points are; and if it locks with the size, it returns the frequency of the line, limited. The other
line may be any: that of the clock is the one a reader has in mind. -/
def AccurateSample (base : ServoBase XRat) (s : LinregServo XRat) (offset : Int64)
    (localTs : UInt64) (weight : XRat) : Prop :=
  ∀ k : SizeIndex, k.points ≤ (sampled s offset localTs weight).numPoints →
    ∃ a b, IsLine ((linregUpdate s offset localTs weight).results k) a b ∧
      (∀ α β δ, NearLine (bufferData (sampled s offset localTs weight) k) α β δ →
        NearFit (bufferData (sampled s offset localTs weight) k) a b α β δ) ∧
      ((linregUpdate s offset localTs weight).size = some k →
        (linregSample base s offset localTs weight).2.1 = .locked →
        ∃ interval, s.updateInterval = fin interval ∧ 0 < interval ∧
          (linregSample base s offset localTs weight).1 =
            -clampClockFreq base (fin (lineFreq a b interval k)))

section Sample

variable {s : LinregServo XRat} {offset : Int64} {localTs : UInt64} {weight : XRat}

/-- The buffer holds the window of the samples. -/
theorem bufferData_eq {history : List (Point XRat)} (h : Tracks s history) {k : SizeIndex}
    (hk : k.points ≤ s.numPoints) : bufferData s k = windowData s.reference history k := by
  rw [h.numPoints] at hk
  have hlength : k.points ≤ history.length := hk.trans (Nat.min_le_left _ _)
  have hmax : k.points ≤ MAX_POINTS := hk.trans (Nat.min_le_right _ _)
  rw [bufferData, windowData]
  apply List.ext_getElem
  · rw [List.length_map, List.length_map, List.length_range, List.length_take,
      Nat.min_eq_left hlength]
  · intro i hi hi'
    rw [List.length_map, List.length_range] at hi
    rw [List.getElem_map, List.getElem_map, List.getElem_range, List.getElem_take,
      h.newest i (hi.trans_le hlength) (hi.trans_le hmax)]

/-- A lock returns the frequency of the line of its size. -/
theorem linregSample_locked {base : ServoBase XRat} {k : SizeIndex}
    (hsize : (linregUpdate s offset localTs weight).size = some k)
    (h : (linregSample base s offset localTs weight).2.1 = .locked) :
    (linregSample base s offset localTs weight).1 =
      -clampClockFreq base (targetFreq (linregUpdate s offset localTs weight) k) := by
  have hsampled := linregSample_sampled base s offset localTs weight
  generalize linregSample base s offset localTs weight = result at hsampled h ⊢
  cases hsampled with
  | waiting hnone => cases h
  | stepped j ratio hsize' => cases h
  | followed j ratio hsize' =>
    obtain rfl := Option.some.inj (hsize.symm.trans hsize')
    rfl

/-- The target of a line. -/
theorem targetFreq_line {k : SizeIndex} {a b interval : ℚ} (hline : IsLine (s.results k) a b)
    (hsync : s.updateInterval = fin interval) (hpos : 0 < interval) :
    targetFreq s k = fin (lineFreq a b interval k) := by
  obtain ⟨hslope, hintercept⟩ := hline
  have hcorr : ((corrInterval k : Nat) : ℚ) ≠ 0 := by
    have hnonzero : ∀ k : SizeIndex, corrInterval k ≠ 0 := by decide
    exact_mod_cast hnonzero k
  simp only [targetFreq, hslope, hintercept, hsync, lit_eq, ofInt_eq, fin_sub, fin_mul,
    fin_div _ hpos.ne', Int.cast_natCast, fin_div _ hcorr, fin_add, lineFreq]

/-- The line that a sample fits to the points of a size, if it is not stalled. -/
theorem fitted_line {m : ℚ} (hs : Ready m s) (hweight : PosWeight weight)
    (hmoving : ¬ Stalled s localTs) {k : SizeIndex}
    (hk : k.points ≤ (sampled s offset localTs weight).numPoints) :
    (∀ d ∈ bufferData (sampled s offset localTs weight) k, 0 < d.w) ∧
      bufferData (sampled s offset localTs weight) k ≠ [] ∧
      ∃ a b, IsLine ((linregUpdate s offset localTs weight).results k) a b ∧
        NormalEquations (bufferData (sampled s offset localTs weight) k) a b := by
  obtain ⟨history, htracks, hpos, -⟩ := hs.window
  have hdefined := (regressionsDefined_iff hs offset localTs hweight).mpr hmoving
  have hsampled := tracks_sampled htracks offset localTs weight
  have hpos' : ∀ l ∈ recordedPoint s offset localTs weight :: history, PosWeight l.w :=
    List.forall_mem_cons.mpr ⟨hweight, hpos⟩
  have hinv : Traced.Inv ⟨s, history⟩ := ⟨htracks, fun l hl => (hpos l hl).isFin⟩
  have hlength : k.points ≤ windowLength ⟨s, history⟩ := by
    rw [hsampled.numPoints] at hk
    exact hk
  obtain ⟨a, b, hline, hnormal⟩ := regressed_line hinv hweight.isFin hdefined hlength
  have hdata : bufferData (sampled s offset localTs weight) k =
      sampleData ⟨s, history⟩ offset localTs weight k := bufferData_eq hsampled hk
  obtain ⟨hweights, hne⟩ := windowData_pos (updateReference s localTs).reference k hpos'
  rw [hdata]
  exact ⟨hweights, hne, a, b, hline, (hnormal a b).mpr ⟨rfl, rfl⟩⟩

/-- **One sample** that is not stalled: its points have a positive weight and are at two places at
least, so the fit is that of least squares, which is not further from a line than the points are. -/
theorem accurate_sample {m : ℚ} (hs : Ready m s) (base : ServoBase XRat)
    (hweight : PosWeight weight) (hmoving : ¬ Stalled s localTs) :
    AccurateSample base s offset localTs weight := by
  intro k hk
  obtain ⟨interval, hsync, hinterval⟩ := hs.sync
  obtain ⟨hweights, hne, a, b, hline, hnormal⟩ := fitted_line hs hweight hmoving hk
  refine ⟨a, b, hline, ?_, ?_⟩
  · intro α β δ hnear
    exact hnormal.accurate hweights hnear hne
  · intro hsize hlocked
    refine ⟨interval, hsync, hinterval, ?_⟩
    rw [linregSample_locked hsize hlocked, targetFreq_line hline
      ((linregUpdate_frame s offset localTs weight).2.trans hsync) hinterval]

end Sample

/-! ## Runs of the program -/

/-- A sample that reaches the regression servo is accurate. -/
def Accurate (sys : Sys XRat (Inner XRat)) : Handler → Prop
  | .clockUpdate t1 t2 => ∀ sample ∈ updateOffset sys t1 t2, ∀ s ∈ linregOf sys.servo.inner,
      AccurateSample sys.servo.base s sample.1.ns t2.toUInt64 sample.2
  | .pathDelay _ _ => True

/-- **The regression servo is as accurate as its samples.** In exact arithmetic, in every run of
`clock_update` and `path_delay` with a regression servo in which no sample is stalled, whatever line
the newest `2 ^ s` points are near to, the line fitted to them is as near; and a lock returns the
frequency of the line of the size that was chosen, limited. -/
theorem regression_accurate {env : ServoEnv} {cfg : ServoConfig XRat}
    {servo : Servo XRat (Inner XRat)} {m interval : ℚ}
    (hcreate : servoCreate env cfg = some servo) (htype : cfg.type = 1)
    (hmax : servo.base.maxFrequency = fin m) (hlimit : m < 1000000000)
    (hadj : |(cfg.intialAdj : ℚ)| ≤ m) (hinterval : 0 < interval) (pow : XRat → XRat → XRat)
    (dev : DeviceConfig) (tsp : Tsproc XRat) (calls : List (ClockCall XRat))
    {handlers : List Handler}
    (hmoving : Always (handle (servoOps pow) dev) Moving
      ⟨tsp, servoSyncInterval (servoOps pow) servo (fin interval), calls⟩ handlers) :
    Always (handle (servoOps pow) dev) Accurate
      ⟨tsp, servoSyncInterval (servoOps pow) servo (fin interval), calls⟩ handlers := by
  have hm : 0 ≤ m := (abs_nonneg _).trans hadj
  have hready := sysReady_create hcreate htype hmax hlimit hadj hinterval pow tsp calls
  refine Always.of_inv ?_ ?_ hready hmoving
  · intro sys h sys' hsys hmoving hok
    exact sysReady_handle hm hsys hmoving hok
  · rintro sys h ⟨-, s', hinner, hs⟩ hmoving
    cases h with
    | pathDelay t3 t4 => exact trivial
    | clockUpdate t1 t2 =>
      intro sample hsample s hs'
      have hmoves := hmoving sample hsample s hs'
      rw [hinner] at hs'
      obtain rfl := Option.some.inj hs'
      exact accurate_sample hs sys.servo.base (updateOffset_pos hsample) hmoves

/-- A clock that drifts does not stall. -/
theorem regression_accurate_drift :
    ∃ servo ∈ servoCreate ⟨true, fun _ => none⟩ linregConfig, ∃ tsp ∈ oneDelayTsproc,
      Always (handle (servoOps powOne) .zero) Accurate
        ⟨tsp, servoSyncInterval (servoOps powOne) servo (fin 1), []⟩ driftHandlers := by
  have h : ∃ servo ∈ servoCreate ⟨true, fun _ => none⟩ linregConfig, ∃ tsp ∈ oneDelayTsproc,
      servo.base.maxFrequency = fin 500000 ∧
        Always (handle (servoOps powOne) .zero) Moving
          ⟨tsp, servoSyncInterval (servoOps powOne) servo (fin 1), []⟩ driftHandlers := by
    decide +kernel
  obtain ⟨servo, hcreate, tsp, htsp, hmax, hmoving⟩ := h
  refine ⟨servo, hcreate, tsp, htsp, ?_⟩
  exact regression_accurate hcreate rfl hmax (by norm_num) (by decide +kernel) one_pos powOne .zero
    tsp [] hmoving

end ExternalServo
