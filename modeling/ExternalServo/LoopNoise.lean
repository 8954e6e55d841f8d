import ExternalServo.ClockModel
import ExternalServo.LoopStability
import ExternalServo.DisturbedOrbits

/-!
# The program in a closed loop, with noise

The program disciplines a clock: between two samples the clock runs at the frequency that was set
last, and how it runs decides what the next sample measures. The clock wanders, and the
measurements are noisy. Inside the `Margins` of the PI loop the noise is not amplified without
bound: the offset of the clock forgets where it started at a geometric rate, and stays within a
multiple of the noise.

* `ClosedLoop` — an interval of the closed loop;
* `ClosedLoop.step` — what it does to the deviation from the equilibrium;
* `noise_bounded` — the run.
-/

namespace ExternalServo

open CArith Recurrence Runs Matrix

/-! ## The servo -/

@[simp] theorem value_fin (q : ℚ) : (XRat.fin q).value = q := rfl

/-- The drift of a PI servo. -/
def driftOf : Inner XRat → ℚ
  | .pi s => s.drift.value
  | .linreg _ | .ntpshm _ => 0

/-- A PI servo that tracks, without the detection of stable locks, in exact arithmetic. With that
detection on, a lock can become a stable one, after which the program sets a phase. -/
structure Tracking (kp ki limit threshold : ℚ) (servo : Servo XRat (Inner XRat)) : Prop where
  inner : ∃ s : PiServo XRat, servo.inner = .pi s ∧ s.kp = .fin kp ∧ s.ki = .fin ki ∧
    s.drift = .fin (driftOf servo.inner) ∧ s.count = 2
  maxFrequency : servo.base.maxFrequency = .fin limit
  stepThreshold : servo.base.stepThreshold = .fin threshold
  offsetThreshold : servo.base.offsetThreshold = 0

section Sample

variable {kp ki limit threshold : ℚ} {servo : Servo XRat (Inner XRat)} {offset : Int64}

theorem toInt_llabs_le (x : Int64) : (llabs x).toInt ≤ |x.toInt| := by
  by_cases hx : x = Int64.minValue
  · rw [hx]
    decide
  · rw [toInt_llabs hx]

/-- An offset within the threshold keeps the lock. -/
theorem losesLock_of_le {base : ServoBase XRat} (hbase : base.stepThreshold = .fin threshold)
    (hle : threshold = 0 ∨ (|offset.toInt| : ℝ) ≤ threshold) : losesLock base offset = false := by
  rw [losesLock, hbase, XRat.truthy_fin]
  rcases hle with hzero | hle
  · rw [decide_eq_false (not_not.mpr hzero), Bool.false_and]
  · have hwithin : ¬ threshold < ((llabs offset).toInt : ℚ) := by
      rw [not_lt]
      have hmagnitude : ((llabs offset).toInt : ℚ) ≤ (|offset.toInt| : ℤ) :=
        Int.cast_le.mpr (toInt_llabs_le offset)
      refine hmagnitude.trans ?_
      exact_mod_cast hle
    rw [absOffset, XRat.ofInt_eq, XRat.lt_fin, decide_eq_false hwithin, Bool.and_false]

/-- **A sample of a servo that tracks**, in the terms of the loop: within the limits it is locked,
returns the frequency of the loop, and adds the integral part to its drift. -/
theorem Tracking.sample (h : Tracking kp ki limit threshold servo) (pow : XRat → XRat → XRat)
    (hlimit : |loopPpb kp ki ⟨offset.toInt, driftOf servo.inner⟩| ≤ limit)
    (hlock : threshold = 0 ∨ (|offset.toInt| : ℝ) ≤ threshold) (localTs : UInt64) :
    ∃ r : ℚ, ∃ servo', servoSample (servoOps pow) servo offset localTs (.fin 1) =
        (.fin r, .locked, servo') ∧
      Tracking kp ki limit threshold servo' ∧
      (r : ℝ) = loopPpb kp ki ⟨offset.toInt, driftOf servo.inner⟩ ∧
      (driftOf servo'.inner : ℝ) = driftOf servo.inner + ki * offset.toInt := by
  obtain ⟨base, inner⟩ := servo
  obtain ⟨⟨s, rfl, hkp, hki, hdrift, hcount⟩, hmax, hstep, hoff⟩ := h
  dsimp only at hlimit hdrift hmax hstep hoff ⊢
  have hunsaturated : |kp * offset.toInt + driftOf (.pi s) + ki * offset.toInt| ≤ limit := by
    rw [loopPpb] at hlimit
    dsimp only at hlimit
    exact_mod_cast hlimit
  obtain ⟨r, d', hsample, hr, hd'⟩ := piSample_track hkp hki hdrift hcount hmax
    (losesLock_of_le hstep hlock) hunsaturated localTs 0 0
  have hown : (servoOps pow).sample base (.pi s) offset localTs (.fin 1) =
      (.fin r, .locked, .pi { s with drift := .fin d', lastFreq := .fin r }) := by
    have hpi : (servoOps pow).sample base (.pi s) offset localTs (.fin 1) =
      ((piSample base s offset localTs (.fin 1)).1, (piSample base s offset localTs (.fin 1)).2.1,
        .pi (piSample base s offset localTs (.fin 1)).2.2) := rfl
    rw [hpi, hsample]
  refine ⟨r, ⟨baseAfter base offset .locked,
    .pi { s with drift := .fin d', lastFreq := .fin r }⟩, ?_, ⟨?_, ?_, ?_, ?_⟩, hr, ?_⟩
  · exact servoSample_of_zero (servoOps pow) hoff hown
  · exact ⟨_, rfl, hkp, hki, rfl, hcount⟩
  · exact (baseAfter_maxFrequency base offset .locked).trans hmax
  · obtain ⟨n, update, hbase⟩ := baseAfter_frame base offset .locked
    rw [hbase]
    exact hstep
  · exact (baseAfter_offsetThreshold base offset .locked).trans hoff
  · rw [track] at hd'
    exact hd'

end Sample

/-! ## An interval -/

/-- The messages from one sample to the next: a sync message, and any number of delay messages. The
latter adjust nothing, and have a part in the offset of the next sample alone. -/
structure Interval where
  masterTime : Int64
  slaveTime : Int64
  delays : List (Int64 × Int64)

/-- The calls for the messages. -/
def Interval.handlers (i : Interval) : List Handler :=
  .clockUpdate i.masterTime i.slaveTime :: i.delays.map fun (t3, t4) => .pathDelay t3 t4

/-- **An interval of the closed loop**, of `T` seconds: at its start the offset of the clock is `x`
and at its end `x'`, in nanoseconds. The clock is `f` ppb too fast, the offset is measured with an
error of `ε`, and the clock wanders by `ω`. The frequency in force is read off the adjustments that
the program made, so the loop is closed through the requests and not through the servo. -/
structure ClosedLoop (pow : XRat → XRat → XRat) (dev : DeviceConfig) (T : ℚ) (f ε ω x x' : ℝ)
    (sys sys' : Sys XRat (Inner XRat)) (i : Interval) : Prop where
  run : i.handlers.foldlM (handle (servoOps pow) dev) sys = .ok sys'
  sampled : ∃ offset : Tmv,
    updateOffset sys i.masterTime i.slaveTime = some (offset, .fin 1) ∧ |offset.ns.toInt - x| ≤ ε
  moved : ∀ g : ℚ, lastFreq dev.freqClkId sys'.calls = some (.fin g) →
    |x' - (x + T * (g + f))| ≤ ω

/-- The deviation of the clock and the servo from the equilibrium, in which the offset is zero and
the drift of the servo is the error of the clock. -/
noncomputable def deviationOf (f x : ℝ) (sys : Sys XRat (Inner XRat)) : Fin 2 → ℝ :=
  deviation f ⟨x, driftOf sys.servo.inner⟩

/-- What a servo makes of its deviation, at most. -/
noncomputable def gain (kp ki : ℚ) : ℝ := |(kp : ℝ)| + |(ki : ℝ)| + 1

/-- What an interval makes of its noise, at most. -/
noncomputable def noiseGain (kp ki T : ℚ) : ℝ :=
  |(T : ℝ)| * (|(kp : ℝ)| + |(ki : ℝ)|) + |(ki : ℝ)| + 1

/-- What the loop makes of its noise and of its initial deviation, at most, if the orbits of its
matrix decay with the factor `C` and the rate `ρ`. -/
noncomputable def amplification (kp ki T : ℚ) (C ρ : ℝ) : ℝ :=
  C + C / (1 - ρ) * noiseGain kp ki T + 1

theorem one_le_gain (kp ki : ℚ) : 1 ≤ gain kp ki := by
  rw [gain]
  linarith [abs_nonneg (kp : ℝ), abs_nonneg (ki : ℝ)]

theorem noiseGain_nonneg (kp ki T : ℚ) : 0 ≤ noiseGain kp ki T := by
  rw [noiseGain]
  positivity

theorem amplified_nonneg {kp ki T : ℚ} {C ρ : ℝ} (h : Decays (loopMatrix kp ki T) C ρ) :
    0 ≤ C / (1 - ρ) * noiseGain kp ki T := by
  have hgap : 0 < 1 - ρ := sub_pos.mpr h.rate_lt
  exact mul_nonneg (div_nonneg h.factor_pos.le hgap.le) (noiseGain_nonneg kp ki T)

theorem amplification_pos {kp ki T : ℚ} {C ρ : ℝ} (h : Decays (loopMatrix kp ki T) C ρ) :
    0 < amplification kp ki T C ρ := by
  rw [amplification]
  linarith [amplified_nonneg h, h.factor_pos]

section Step

variable {pow : XRat → XRat → XRat} {dev : DeviceConfig} {kp ki limit threshold T : ℚ}
variable {f ε ω x x' : ℝ} {sys sys' : Sys XRat (Inner XRat)} {i : Interval}

theorem abs_le_norm_deviation : |x| ≤ ‖deviationOf f x sys‖ ∧
    |driftOf sys.servo.inner - f| ≤ ‖deviationOf f x sys‖ :=
  ⟨norm_le_pi_norm (deviationOf f x sys) 0, norm_le_pi_norm (deviationOf f x sys) 1⟩

/-- Delay messages reach neither the servo nor the clocks. -/
theorem delays_keep {delays : List (Int64 × Int64)}
    (hrun : (delays.map fun (t3, t4) => Handler.pathDelay t3 t4).foldlM
      (handle (servoOps pow) dev) sys = .ok sys') :
    sys'.servo = sys.servo ∧ sys'.calls = sys.calls := by
  have hdelay : ∀ h ∈ delays.map fun (t3, t4) => Handler.pathDelay t3 t4,
      ∃ t3 t4, h = .pathDelay t3 t4 := by
    intro h hh
    obtain ⟨⟨t3, t4⟩, -, rfl⟩ := List.mem_map.mp hh
    exact ⟨t3, t4, rfl⟩
  have hstep : ∀ s h s', (s.servo = sys.servo ∧ s.calls = sys.calls) →
      (∃ t3 t4, h = Handler.pathDelay t3 t4) → handle (servoOps pow) dev s h = .ok s' →
      s'.servo = sys.servo ∧ s'.calls = sys.calls := by
    rintro s h s' ⟨hservo, hcalls⟩ ⟨t3, t4, rfl⟩ hok
    obtain ⟨hcalls', hservo'⟩ := handle_eq_ok hok
    refine ⟨hservo'.trans hservo, ?_⟩
    rw [hcalls', measured, Option.elim_none, List.append_nil, hcalls]
  exact run_inv hstep ⟨rfl, rfl⟩ (always_of_mem hdelay sys) hrun

/-- **An interval** makes the adjustments for its sample, and the servo becomes the one that
answered it. -/
theorem Interval.answered (hrun : i.handlers.foldlM (handle (servoOps pow) dev) sys = .ok sys')
    {offset : Tmv} {weight adj : XRat} {state : ServoState} {servo' : Servo XRat (Inner XRat)}
    (hoffset : updateOffset sys i.masterTime i.slaveTime = some (offset, weight))
    (hsample : servoSample (servoOps pow) sys.servo offset.ns i.slaveTime.toUInt64 weight =
      (adj, state, servo')) :
    sys'.servo = servo' ∧ sys'.calls = sys.calls ++ made dev ⟨offset.ns, adj, state⟩ := by
  rw [Interval.handlers, run_cons_eq_ok] at hrun
  obtain ⟨sys₁, hok, hrest⟩ := hrun
  obtain ⟨hcalls, hservo⟩ := handle_eq_ok hok
  obtain ⟨hservo', hcalls'⟩ := delays_keep hrest
  rw [servoAfter, hoffset, Option.elim_some, answer, hsample] at hservo
  rw [measured, hoffset, Option.map_some, Option.elim_some, answer, hsample] at hcalls
  exact ⟨hservo'.trans hservo, hcalls'.trans hcalls⟩

/-- **An interval that begins with a lock** sets the frequency that the servo returned, negated,
and does nothing else to the clocks. -/
theorem Interval.locked (hrun : i.handlers.foldlM (handle (servoOps pow) dev) sys = .ok sys')
    {offset : Tmv} {weight adj : XRat} {servo' : Servo XRat (Inner XRat)}
    (hoffset : updateOffset sys i.masterTime i.slaveTime = some (offset, weight))
    (hsample : servoSample (servoOps pow) sys.servo offset.ns i.slaveTime.toUInt64 weight =
      (adj, .locked, servo')) :
    lastFreq dev.freqClkId sys'.calls = some (-adj) ∧
      ∃ calls, sys'.calls = sys.calls ++ calls ∧
        ∀ call ∈ calls, call = .setFreq dev.freqClkId (-adj) ∨ call = .setSync := by
  obtain ⟨-, hcalls⟩ := Interval.answered hrun hoffset hsample
  refine ⟨?_, _, hcalls, ?_⟩
  · rw [hcalls, lastFreq_append, lastFreq_made, if_pos (.inr rfl), Option.some_or]
  · intro call hcall
    rcases List.mem_cons.mp hcall with rfl | hsync
    · exact .inl rfl
    · right
      split at hsync
      · exact List.mem_singleton.mp hsync
      · cases hsync

/-- The frequency of the loop, at an offset with an error. -/
theorem abs_loopPpb_sub_le {o d : ℝ} (hmeasured : |o - x| ≤ ε) {N : ℝ} (hx : |x| ≤ N)
    (hd : |d - f| ≤ N) : |loopPpb kp ki ⟨o, d⟩ - f| ≤ gain kp ki * (N + ε) := by
  have ho : |o| ≤ N + ε := by
    calc |o| = |x + (o - x)| := by rw [add_sub_cancel]
      _ ≤ |x| + |o - x| := abs_add_le _ _
      _ ≤ N + ε := by gcongr
  have hε : 0 ≤ ε := (abs_nonneg _).trans hmeasured
  calc |loopPpb kp ki ⟨o, d⟩ - f|
      = |kp * o + ki * o + (d - f)| := by
        rw [loopPpb]
        ring_nf
    _ ≤ |kp * o| + |ki * o| + |d - f| := abs_add_three _ _ _
    _ ≤ |(kp : ℝ)| * (N + ε) + |(ki : ℝ)| * (N + ε) + (N + ε) := by
        rw [abs_mul, abs_mul]
        gcongr
        linarith
    _ = gain kp ki * (N + ε) := by
        rw [gain]
        ring

/-- The noise of an interval: the deviation is multiplied by the matrix of the loop, up to the
error of the measurement and the wander of the clock. -/
theorem norm_noise_le {o d : ℝ} (hmeasured : |o - x| ≤ ε)
    (hmoved : |x' - (x + T * (-loopPpb kp ki ⟨o, d⟩ + f))| ≤ ω) :
    ‖deviation f ⟨x', d + ki * o⟩ - loopMatrix kp ki T *ᵥ deviation f ⟨x, d⟩‖ ≤
      noiseGain kp ki T * (ε + ω) := by
  have hε : 0 ≤ ε := (abs_nonneg _).trans hmeasured
  have hω : 0 ≤ ω := (abs_nonneg _).trans hmoved
  have hgain := noiseGain_nonneg kp ki T
  have hoffset : (deviation f ⟨x', d + ki * o⟩ - loopMatrix kp ki T *ᵥ deviation f ⟨x, d⟩) 0 =
      x' - (x + T * (-loopPpb kp ki ⟨o, d⟩ + f)) - T * (kp + ki) * (o - x) := by
    simp [deviation, loopMatrix, loopPpb]
    ring
  have hdrift : (deviation f ⟨x', d + ki * o⟩ - loopMatrix kp ki T *ᵥ deviation f ⟨x, d⟩) 1 =
      ki * (o - x) := by
    simp [deviation, loopMatrix]
    ring
  rw [pi_norm_le_iff_of_nonneg (by positivity)]
  intro j
  fin_cases j
  · change |(_ : ℝ)| ≤ _
    rw [Fin.zero_eta, hoffset]
    calc |x' - (x + T * (-loopPpb kp ki ⟨o, d⟩ + f)) - T * (kp + ki) * (o - x)|
        ≤ |x' - (x + T * (-loopPpb kp ki ⟨o, d⟩ + f))| + |(T : ℝ) * (kp + ki) * (o - x)| :=
          abs_sub _ _
      _ ≤ ω + |(T : ℝ)| * (|(kp : ℝ)| + |(ki : ℝ)|) * ε := by
          rw [abs_mul, abs_mul]
          gcongr
          exact abs_add_le _ _
      _ ≤ noiseGain kp ki T * (ε + ω) := by
          rw [noiseGain]
          nlinarith [abs_nonneg (ki : ℝ), mul_nonneg (abs_nonneg (T : ℝ))
            (add_nonneg (abs_nonneg (kp : ℝ)) (abs_nonneg (ki : ℝ)))]
  · change |(_ : ℝ)| ≤ _
    rw [Fin.mk_one, hdrift, abs_mul]
    calc |(ki : ℝ)| * |o - x| ≤ |(ki : ℝ)| * ε := by gcongr
      _ ≤ noiseGain kp ki T * (ε + ω) := by
          rw [noiseGain]
          nlinarith [abs_nonneg (ki : ℝ), mul_nonneg (abs_nonneg (T : ℝ))
            (add_nonneg (abs_nonneg (kp : ℝ)) (abs_nonneg (ki : ℝ)))]

/-- **An interval of a servo that tracks.** If the frequency stays within the limit and the offset
within the threshold, the program sets the frequency that the servo returns and does nothing else
to the clocks, and the deviation is multiplied by the matrix of the loop, up to the noise. -/
theorem ClosedLoop.step (h : ClosedLoop pow dev T f ε ω x x' sys sys' i)
    (htrack : Tracking kp ki limit threshold sys.servo) {N : ℝ} (hN : ‖deviationOf f x sys‖ ≤ N)
    (hlimit : |f| + gain kp ki * (N + ε) ≤ limit)
    (hthreshold : threshold = 0 ∨ N + ε ≤ threshold) :
    Tracking kp ki limit threshold sys'.servo ∧
      ‖deviationOf f x' sys' - loopMatrix kp ki T *ᵥ deviationOf f x sys‖ ≤
        noiseGain kp ki T * (ε + ω) ∧
      ∃ g : ℚ, |g + f| ≤ gain kp ki * (N + ε) ∧
        lastFreq dev.freqClkId sys'.calls = some (.fin g) ∧
        ∃ calls, sys'.calls = sys.calls ++ calls ∧
          ∀ call ∈ calls, call = .setFreq dev.freqClkId (.fin g) ∨ call = .setSync := by
  obtain ⟨hrun, ⟨offset, hoffset, hmeasured⟩, hmoved⟩ := h
  obtain ⟨hx, hd⟩ : |x| ≤ ‖deviationOf f x sys‖ ∧ _ := abs_le_norm_deviation
  have hfreq : |loopPpb kp ki ⟨offset.ns.toInt, driftOf sys.servo.inner⟩ - f| ≤
      gain kp ki * (N + ε) := abs_loopPpb_sub_le hmeasured (hx.trans hN) (hd.trans hN)
  -- the sample
  have hppb : |loopPpb kp ki ⟨offset.ns.toInt, driftOf sys.servo.inner⟩| ≤ limit := by
    refine le_trans ?_ hlimit
    have hsum := abs_add_le f (loopPpb kp ki ⟨offset.ns.toInt, driftOf sys.servo.inner⟩ - f)
    rw [add_sub_cancel] at hsum
    linarith
  have hlock : threshold = 0 ∨ (|offset.ns.toInt| : ℝ) ≤ threshold := by
    refine hthreshold.imp_right ?_
    intro hle
    have hsum := abs_add_le x (offset.ns.toInt - x)
    rw [add_sub_cancel] at hsum
    linarith
  obtain ⟨r, servo', hsample, htrack', hr, hdrift⟩ :=
    htrack.sample pow hppb hlock i.slaveTime.toUInt64
  obtain ⟨hservo', -⟩ := Interval.answered hrun hoffset hsample
  obtain ⟨hlast, hcalls⟩ := Interval.locked hrun hoffset hsample
  refine ⟨hservo' ▸ htrack', ?_, -r, ?_, hlast, hcalls⟩
  · have hmoved' := hmoved (-r) hlast
    rw [Rat.cast_neg, hr] at hmoved'
    rw [deviationOf, deviationOf, hservo', hdrift]
    exact norm_noise_le hmeasured hmoved'
  · rw [Rat.cast_neg, hr, neg_add_eq_sub, abs_sub_comm]
    exact hfreq

end Step

/-! ## Runs -/

section Run

variable {pow : XRat → XRat → XRat} {dev : DeviceConfig} {kp ki limit threshold T : ℚ}
variable {f ε ω : ℝ} {n : ℕ} {x : ℕ → ℝ} {sys : ℕ → Sys XRat (Inner XRat)} {i : ℕ → Interval}

/-- **A run of a servo that tracks.** If what the noise and the initial deviation can amount to
leaves room below the limits, the servo tracks on. The bound and the tracking are proved together,
as each interval needs the one for the other. -/
theorem tracking_run {C ρ : ℝ} (hdecays : Decays (loopMatrix kp ki T) C ρ) {N : ℕ → ℝ}
    (hη : 0 ≤ noiseGain kp ki T * (ε + ω))
    (hN : ∀ k, C * ρ ^ k * ‖deviationOf f (x 0) (sys 0)‖ +
      C / (1 - ρ) * (noiseGain kp ki T * (ε + ω)) ≤ N k)
    (hrun : ∀ k < n,
      ClosedLoop pow dev T f ε ω (x k) (x (k + 1)) (sys k) (sys (k + 1)) (i k))
    (htrack : Tracking kp ki limit threshold (sys 0).servo)
    (hlimit : ∀ k, |f| + gain kp ki * (N k + ε) ≤ limit)
    (hthreshold : threshold = 0 ∨ ∀ k, N k + ε ≤ threshold) :
    ∀ m ≤ n, Tracking kp ki limit threshold (sys m).servo ∧
      ‖deviationOf f (x m) (sys m)‖ ≤ N m := by
  -- with it, the noise of every interval that was before
  have hinv : ∀ m ≤ n, Tracking kp ki limit threshold (sys m).servo ∧
      (∀ k < m, ‖deviationOf f (x (k + 1)) (sys (k + 1)) -
        loopMatrix kp ki T *ᵥ deviationOf f (x k) (sys k)‖ ≤ noiseGain kp ki T * (ε + ω)) ∧
      ‖deviationOf f (x m) (sys m)‖ ≤ N m := by
    have hstays : ∀ m, (∀ k < m, ‖deviationOf f (x (k + 1)) (sys (k + 1)) -
        loopMatrix kp ki T *ᵥ deviationOf f (x k) (sys k)‖ ≤ noiseGain kp ki T * (ε + ω)) →
        ‖deviationOf f (x m) (sys m)‖ ≤ N m := by
      intro m hnoises
      exact (hdecays.disturbed (y := fun k => deviationOf f (x k) (sys k)) hη
        (fun k _ => (add_sub_cancel _ _).symm) hnoises).trans (hN m)
    intro m hm
    induction m with
    | zero => exact ⟨htrack, nofun, hstays 0 nofun⟩
    | succ m ih =>
      obtain ⟨htrack, hnoises, hbound⟩ := ih (Nat.le_of_succ_le hm)
      obtain ⟨htrack', hnoise', -⟩ :=
        (hrun m hm).step htrack hbound (hlimit m) (hthreshold.imp_right fun hle => hle m)
      have hnoises' : ∀ k < m + 1, ‖deviationOf f (x (k + 1)) (sys (k + 1)) -
          loopMatrix kp ki T *ᵥ deviationOf f (x k) (sys k)‖ ≤
            noiseGain kp ki T * (ε + ω) := by
        intro k hk
        rcases Nat.lt_succ_iff_lt_or_eq.mp hk with hk | rfl
        · exact hnoises k hk
        · exact hnoise'
      exact ⟨htrack', hnoises', hstays (m + 1) hnoises'⟩
  intro m hm
  obtain ⟨htrack', -, hbound⟩ := hinv m hm
  exact ⟨htrack', hbound⟩

/-- What the deviation of a run stays below: a multiple of the noise, and of what is left of the
initial deviation. It falls from one interval to the next, so that room below the limits at the
start is room in the whole run. -/
noncomputable def envelope (A ρ D ε ω : ℝ) (k : ℕ) : ℝ := A * (ρ ^ k * D + ε + ω)

/-- The initial deviation is only forgotten. -/
theorem envelope_le {A ρ D : ℝ} (hA : 0 ≤ A) (hρ : 0 ≤ ρ) (hρ1 : ρ ≤ 1) (hD : 0 ≤ D) (k : ℕ) :
    envelope A ρ D ε ω k ≤ A * (D + ε + ω) := by
  have hpow : ρ ^ k * D ≤ D := mul_le_of_le_one_left hD (pow_le_one₀ hρ hρ1)
  rw [envelope]
  gcongr

theorem le_gain_mul_envelope {A ρ D : ℝ} (hA : 0 ≤ A) (hρ : 0 ≤ ρ) (hD : 0 ≤ D) (hε : 0 ≤ ε)
    (hω : 0 ≤ ω) (k : ℕ) : envelope A ρ D ε ω k ≤ gain kp ki * envelope A ρ D ε ω k := by
  have hnonneg : 0 ≤ envelope A ρ D ε ω k := by
    rw [envelope]
    positivity
  exact le_mul_of_one_le_left hnonneg (one_le_gain kp ki)

/-- The envelope leaves room for an error of the measurement. -/
theorem decayed_le_envelope {C ρ D : ℝ} (h : Decays (loopMatrix kp ki T) C ρ) (hD : 0 ≤ D)
    (hε : 0 ≤ ε) (hω : 0 ≤ ω) (k : ℕ) :
    C * ρ ^ k * D + C / (1 - ρ) * (noiseGain kp ki T * (ε + ω)) ≤
      envelope (amplification kp ki T C ρ) ρ D ε ω k - ε := by
  have hleft : 0 ≤ ρ ^ k * D := mul_nonneg (pow_nonneg h.rate_pos.le k) hD
  have hamplified := amplified_nonneg h
  rw [envelope, amplification, ← mul_assoc (C / (1 - ρ))]
  generalize C / (1 - ρ) * noiseGain kp ki T = K at hamplified ⊢
  nlinarith [mul_nonneg hamplified hleft, mul_nonneg h.factor_pos.le hε,
    mul_nonneg h.factor_pos.le hω]

/-- **A run with room below the limits** stays within the envelope of its initial deviation. -/
theorem tracking_envelope {C ρ D : ℝ} (hdecays : Decays (loopMatrix kp ki T) C ρ) (hε : 0 ≤ ε)
    (hω : 0 ≤ ω) (hD : ‖deviationOf f (x 0) (sys 0)‖ = D)
    (hrun : ∀ k < n,
      ClosedLoop pow dev T f ε ω (x k) (x (k + 1)) (sys k) (sys (k + 1)) (i k))
    (htrack : Tracking kp ki limit threshold (sys 0).servo)
    (hlimit : ∀ k, |f| + gain kp ki * envelope (amplification kp ki T C ρ) ρ D ε ω k ≤ limit)
    (hthreshold : threshold = 0 ∨
      ∀ k, envelope (amplification kp ki T C ρ) ρ D ε ω k ≤ threshold) :
    ∀ m ≤ n, Tracking kp ki limit threshold (sys m).servo ∧
      ‖deviationOf f (x m) (sys m)‖ ≤ envelope (amplification kp ki T C ρ) ρ D ε ω m - ε := by
  have hD0 : 0 ≤ D := hD ▸ norm_nonneg _
  have hη : 0 ≤ noiseGain kp ki T * (ε + ω) :=
    mul_nonneg (noiseGain_nonneg kp ki T) (add_nonneg hε hω)
  refine tracking_run hdecays hη ?_ hrun htrack ?_ ?_
  · intro k
    rw [hD]
    exact decayed_le_envelope hdecays hD0 hε hω k
  · intro k
    rw [sub_add_cancel]
    exact hlimit k
  · refine hthreshold.imp_right ?_
    intro hle k
    rw [sub_add_cancel]
    exact hle k

end Run

/-- **Noise is not amplified without bound.** For gains within the margins there are a factor `M`
and a rate `ρ < 1`, such that in every run of the program in a closed loop, from a servo that
tracks, with room for `M` times the initial deviation and the noise below the limits: after every
interval the frequency of the clock is right and the offset is zero, up to `M` times the noise and
the initial deviation, of which the latter is forgotten at the rate `ρ`; and the clocks are never
stepped. -/
theorem noise_bounded {kp ki T : ℚ} (h : Margins kp ki T) :
    ∃ M ρ : ℝ, 0 < M ∧ 0 < ρ ∧ ρ < 1 ∧ ∀ {pow : XRat → XRat → XRat} {dev : DeviceConfig}
      {limit threshold : ℚ} {f ε ω : ℝ} {n : ℕ} {x : ℕ → ℝ} {sys : ℕ → Sys XRat (Inner XRat)}
      {i : ℕ → Interval}, 0 ≤ ε → 0 ≤ ω →
      (∀ k < n, ClosedLoop pow dev T f ε ω (x k) (x (k + 1)) (sys k) (sys (k + 1)) (i k)) →
      Tracking kp ki limit threshold (sys 0).servo →
      |f| + M * (‖deviationOf f (x 0) (sys 0)‖ + ε + ω) ≤ limit →
      (threshold = 0 ∨ M * (‖deviationOf f (x 0) (sys 0)‖ + ε + ω) ≤ threshold) →
      (∀ k ≤ n, |x k| ≤ M * (ρ ^ k * ‖deviationOf f (x 0) (sys 0)‖ + ε + ω)) ∧
      ∀ k < n, ∃ g : ℚ, lastFreq dev.freqClkId (sys (k + 1)).calls = some (.fin g) ∧
        |g + f| ≤ M * (ρ ^ k * ‖deviationOf f (x 0) (sys 0)‖ + ε + ω) ∧
        ∃ calls, (sys (k + 1)).calls = (sys k).calls ++ calls ∧
          ∀ call ∈ calls, call = .setFreq dev.freqClkId (.fin g) ∨ call = .setSync := by
  obtain ⟨C, ρ, hdecays⟩ := exists_decays (tendsto_mulVec h.contracting)
  have hρ := hdecays.rate_pos
  have hρ1 := hdecays.rate_lt
  have hA := amplification_pos hdecays
  generalize hamplification : amplification kp ki T C ρ = A at hA
  have hgain : 0 < gain kp ki := zero_lt_one.trans_le (one_le_gain kp ki)
  refine ⟨gain kp ki * A, ρ, mul_pos hgain hA, hρ, hρ1, ?_⟩
  intro pow dev limit threshold f ε ω n x sys i hε hω hrun htrack hlimit hthreshold
  generalize hD : ‖deviationOf f (x 0) (sys 0)‖ = D at hlimit hthreshold ⊢
  have hD0 : 0 ≤ D := hD ▸ norm_nonneg _
  -- the room at the start is room for the whole run
  have hroom : ∀ k, gain kp ki * envelope A ρ D ε ω k ≤ gain kp ki * A * (D + ε + ω) := by
    intro k
    rw [mul_assoc]
    exact mul_le_mul_of_nonneg_left (envelope_le hA.le hρ.le hρ1.le hD0 k) hgain.le
  have hscaled : ∀ k, envelope A ρ D ε ω k ≤ gain kp ki * envelope A ρ D ε ω k :=
    le_gain_mul_envelope hA.le hρ.le hD0 hε hω
  have hlimit' : ∀ k, |f| + gain kp ki * envelope A ρ D ε ω k ≤ limit := by
    intro k
    linarith [hroom k]
  have hthreshold' : threshold = 0 ∨ ∀ k, envelope A ρ D ε ω k ≤ threshold := by
    refine hthreshold.imp_right ?_
    intro hle k
    exact (hscaled k).trans ((hroom k).trans hle)
  have htracks : ∀ m ≤ n, Tracking kp ki limit threshold (sys m).servo ∧
      ‖deviationOf f (x m) (sys m)‖ ≤ envelope A ρ D ε ω m - ε := by
    subst hamplification
    exact tracking_envelope hdecays hε hω hD hrun htrack hlimit' hthreshold'
  refine ⟨?_, ?_⟩
  · intro k hk
    obtain ⟨-, hbound⟩ := htracks k hk
    have hx : |x k| ≤ ‖deviationOf f (x k) (sys k)‖ := abs_le_norm_deviation.1
    calc |x k| ≤ envelope A ρ D ε ω k := by linarith
      _ ≤ gain kp ki * A * (ρ ^ k * D + ε + ω) := by
        rw [mul_assoc]
        exact hscaled k
  · intro k hk
    obtain ⟨htrack, hbound⟩ := htracks k hk.le
    obtain ⟨-, -, g, hg, hlast, hcalls⟩ := (hrun k hk).step htrack hbound
      (by simpa only [sub_add_cancel] using hlimit' k)
      (hthreshold'.imp_right fun hle => by simpa only [sub_add_cancel] using hle k)
    rw [sub_add_cancel, envelope, ← mul_assoc] at hg
    exact ⟨g, hlast, hg, hcalls⟩

/-- A program without delays, whose PI servo tracks with the gains 1/2 and 1/4. -/
def trackingSys (limit : ℚ) : Sys XRat (Inner XRat) :=
  { tsp :=
      { mode := .filter, clockRateRatio := .fin 1, t1 := tmvZero, t2 := tmvZero, t3 := tmvZero,
        t4 := tmvZero, filteredDelay := tmvZero, filteredDelayValid := true,
        delayFilter := .mave ⟨0, 1, 0, tmvZero, [tmvZero]⟩ }
    servo :=
      { base :=
          { maxFrequency := .fin limit, stepThreshold := .fin 0, firstStepThreshold := .fin 0,
            firstUpdate := false, offsetThreshold := 0, numOffsetValues := 0,
            currOffsetValues := 0 }
        inner := .pi { piServoCreate ServoConfig.zero with
          kp := .fin (1 / 2), ki := .fin (1 / 4), drift := .fin 0, count := 2 } }
    calls := [] }

/-- A time stamp processor that measures offsets without a delay. -/
structure Undelayed (tsp : Tsproc XRat) : Prop where
  mode : tsp.mode = .filter
  valid : tsp.filteredDelayValid = true
  delay : tsp.filteredDelay = tmvZero

/-- The offset that it makes of a sync message. -/
theorem Undelayed.measures {sys : Sys XRat (Inner XRat)} (h : Undelayed sys.tsp)
    {master slave : Int64} (hmaster : master ≠ 0) (hslave : slave ≠ 0) :
    updateOffset sys master slave = some (⟨slave - master⟩, .fin 1) := by
  obtain ⟨hmode, hvalid, hdelay⟩ := h
  simp [updateOffset, tsprocDownTs, tsprocUpdateOffset, offsetDelay, offsetWeight,
    weighting, tmvIsZero, tmvSub, tmvZero, hmode, hvalid, hdelay, hmaster, hslave]

/-- An interval of a clock that runs at whatever frequency is set, and does not wander. -/
theorem Undelayed.interval {kp ki limit T : ℚ} {f ε x : ℝ} {sys : Sys XRat (Inner XRat)}
    (h : Undelayed sys.tsp) (htrack : Tracking kp ki limit 0 sys.servo) {i : Interval}
    (hdelays : i.delays = []) (hmaster : i.masterTime ≠ 0) (hslave : i.slaveTime ≠ 0) {o d : ℚ}
    (ho : (i.slaveTime - i.masterTime).toInt = o) (hd : driftOf sys.servo.inner = d)
    (hlimit : |loopPpb kp ki ⟨o, d⟩| ≤ limit) (hmeasured : |o - x| ≤ ε)
    (pow : XRat → XRat → XRat) (dev : DeviceConfig) :
    ∃ sys', clockUpdate (servoOps pow) dev sys i.masterTime i.slaveTime = .ok sys' ∧
      ClosedLoop pow dev T f ε 0 x (x + T * (f - loopPpb kp ki ⟨o, d⟩)) sys sys' i ∧
      Undelayed sys'.tsp ∧ Tracking kp ki limit 0 sys'.servo ∧
      driftOf sys'.servo.inner = d + ki * o := by
  have hoffset := h.measures hmaster hslave
  have hppb : loopPpb kp ki ⟨(i.slaveTime - i.masterTime).toInt, driftOf sys.servo.inner⟩ =
      loopPpb kp ki ⟨o, d⟩ := by
    rw [hd, ← Rat.cast_intCast, ho]
  rw [← hppb] at hlimit
  obtain ⟨r, servo', hsample, htrack', hr, hdrift⟩ :=
    htrack.sample pow hlimit (.inl rfl) i.slaveTime.toUInt64
  have hok : clockUpdate (servoOps pow) dev sys i.masterTime i.slaveTime = .ok _ :=
    clockUpdate_of_some hoffset hsample
  refine ⟨_, hok, ?_⟩
  generalize hsys' : Sys.mk _ _ _ = sys' at hok ⊢
  have hrun : i.handlers.foldlM (handle (servoOps pow) dev) sys = .ok sys' := by
    rw [Interval.handlers, hdelays]
    exact run_cons_eq_ok.mpr ⟨sys', hok, rfl⟩
  subst hsys'
  refine ⟨⟨hrun, ⟨_, hoffset, ?_⟩, ?_⟩, ⟨h.mode, h.valid, h.delay⟩, htrack', ?_⟩
  · rw [← Rat.cast_intCast, ho]
    exact hmeasured
  · intro g hg
    obtain ⟨hlast, -⟩ := Interval.locked hrun hoffset hsample
    obtain rfl := XRat.fin.inj (Option.some.inj (hg.symm.trans hlast))
    have hexact : x + T * (f - loopPpb kp ki ⟨o, d⟩) -
        (x + T * (-loopPpb kp ki ⟨o, d⟩ + f)) = 0 := by ring
    rw [Rat.cast_neg, hr, hppb, hexact, abs_zero]
  · have hreal : (driftOf servo'.inner : ℝ) = ((d + ki * o : ℚ) : ℝ) := by
      rw [hdrift, hd, ← Rat.cast_intCast, ho]
      push_cast
      ring
    exact_mod_cast hreal

/-- The program after the sync message of an interval. -/
def afterInterval (sys : Sys XRat (Inner XRat)) (i : Interval) : Sys XRat (Inner XRat) :=
  match clockUpdate (servoOps powOne) .zero sys i.masterTime i.slaveTime with
  | .ok sys => sys
  | .error _ => sys

/-- Three intervals in which a clock is measured. -/
def noisyInterval : ℕ → Interval
  | 0 => ⟨1000, 1001, []⟩
  | 1 => ⟨2000, 2000, []⟩
  | _ => ⟨3000, 2999, []⟩

/-- The program after `k` of them. -/
def noisySys (limit : ℚ) : ℕ → Sys XRat (Inner XRat)
  | 0 => trackingSys limit
  | k + 1 => afterInterval (noisySys limit k) (noisyInterval k)

/-- A clock, its measurement and the servo. -/
structure NoisyState where
  /-- the offset that is measured -/
  measured : ℚ
  /-- the offset of the clock -/
  offset : ℚ
  /-- the drift of the servo -/
  drift : ℚ

/-- The frequency that is returned. -/
def NoisyState.ppb (s : NoisyState) : ℚ := 1 / 2 * s.measured + s.drift + 1 / 4 * s.measured

/-- At the start of the intervals. -/
def noisyState : ℕ → NoisyState
  | 0 => ⟨1, 0, 0⟩
  | 1 => ⟨0, -3 / 4, 1 / 4⟩
  | 2 => ⟨-1, -1, 1 / 4⟩
  | _ => ⟨0, -1 / 2, 0⟩

/-- The program keeps to that: each of the three intervals is one of the closed loop, with the
numbers of the table. All that has to be computed are these numbers; what the program does with them
follows from the lemmas of the servo. -/
theorem noisySys_interval {limit : ℚ} (hlimit : 1 ≤ limit) {k : ℕ} (hk : k < 3)
    (h : Undelayed (noisySys limit k).tsp)
    (htrack : Tracking (1 / 2) (1 / 4) limit 0 (noisySys limit k).servo)
    (hd : driftOf (noisySys limit k).servo.inner = (noisyState k).drift) :
    ClosedLoop powOne .zero 1 0 1 0 (noisyState k).offset (noisyState (k + 1)).offset
        (noisySys limit k) (noisySys limit (k + 1)) (noisyInterval k) ∧
      Undelayed (noisySys limit (k + 1)).tsp ∧
      Tracking (1 / 2) (1 / 4) limit 0 (noisySys limit (k + 1)).servo ∧
      driftOf (noisySys limit (k + 1)).servo.inner = (noisyState (k + 1)).drift := by
  have hnumbers : ∀ k < 3, (noisyInterval k).delays = [] ∧ (noisyInterval k).masterTime ≠ 0 ∧
      (noisyInterval k).slaveTime ≠ 0 ∧
      ((noisyInterval k).slaveTime - (noisyInterval k).masterTime).toInt =
        (noisyState k).measured ∧
      |(noisyState k).ppb| ≤ 1 ∧ |(noisyState k).measured - (noisyState k).offset| ≤ 1 ∧
      (noisyState (k + 1)).offset = (noisyState k).offset - (noisyState k).ppb ∧
      (noisyState (k + 1)).drift = (noisyState k).drift + 1 / 4 * (noisyState k).measured := by
    decide +kernel
  obtain ⟨hdelays, hmaster, hslave, ho, hppb, hmeasured, hoffset, hdrift⟩ := hnumbers k hk
  have hloop : loopPpb (1 / 2) (1 / 4) ⟨(noisyState k).measured, (noisyState k).drift⟩ =
      (noisyState k).ppb := by
    rw [loopPpb, NoisyState.ppb]
    push_cast
    ring
  have hlimit' : |loopPpb (1 / 2) (1 / 4) ⟨(noisyState k).measured, (noisyState k).drift⟩| ≤
      limit := by
    rw [hloop]
    exact_mod_cast hppb.trans hlimit
  have hmeasured' : |((noisyState k).measured : ℝ) - (noisyState k).offset| ≤ 1 := by
    exact_mod_cast hmeasured
  obtain ⟨sys', hok, hclosed, htsp, htrack', hdrift'⟩ := h.interval (T := 1) (f := 0) htrack
    hdelays hmaster hslave ho hd hlimit' hmeasured' powOne .zero
  have hafter : noisySys limit (k + 1) = sys' := by
    rw [noisySys, afterInterval, hok]
  rw [hafter, hoffset, hdrift]
  refine ⟨?_, htsp, htrack', hdrift'⟩
  rw [hloop] at hclosed
  convert hclosed using 1
  push_cast
  ring

theorem noisySys_run {limit : ℚ} (hlimit : 1 ≤ limit) : ∀ k ≤ 3,
    Undelayed (noisySys limit k).tsp ∧
      Tracking (1 / 2) (1 / 4) limit 0 (noisySys limit k).servo ∧
      driftOf (noisySys limit k).servo.inner = (noisyState k).drift := by
  intro k hk
  induction k with
  | zero => exact ⟨⟨rfl, rfl, rfl⟩, ⟨⟨_, rfl, rfl, rfl, rfl, rfl⟩, rfl, rfl, rfl⟩, rfl⟩
  | succ k ih =>
    obtain ⟨htsp, htrack, hd⟩ := ih (Nat.le_of_succ_le hk)
    exact (noisySys_interval hlimit hk htsp htrack hd).2

/-- **Three intervals**, whose measurements are wrong by 1 ns, 3/4 ns and nothing: the offsets and
the frequencies stay within a multiple of the error. -/
theorem noise_bounded_three : ∃ M : ℝ, ∃ limit : ℚ,
    noisySys limit 0 = trackingSys limit ∧
    (∀ k < 3, (noisyInterval k).handlers.foldlM (handle (servoOps powOne) .zero)
      (noisySys limit k) = .ok (noisySys limit (k + 1))) ∧
    (∀ k ≤ 3, |((noisyState k).offset : ℝ)| ≤ M) ∧
    ∀ k < 3, ∃ g : ℚ,
      lastFreq DeviceConfig.zero.freqClkId (noisySys limit (k + 1)).calls = some (.fin g) ∧
      |(g : ℝ)| ≤ M := by
  have hmargins : Margins (1 / 2) (1 / 4) 1 := by refine ⟨?_, ?_, ?_, ?_⟩ <;> norm_num
  obtain ⟨M, ρ, hM, hρ, hρ1, hbound⟩ := noise_bounded hmargins
  obtain ⟨limit, hlimit⟩ := exists_nat_ge (M + 1)
  have hone : (1 : ℚ) ≤ limit := by
    have hreal : (1 : ℝ) ≤ limit := by linarith
    exact_mod_cast hreal
  have hruns := noisySys_run hone
  have hclosed : ∀ k < 3, ClosedLoop powOne .zero 1 0 1 0 (noisyState k).offset
      (noisyState (k + 1)).offset (noisySys limit k) (noisySys limit (k + 1))
      (noisyInterval k) := by
    intro k hk
    obtain ⟨htsp, htrack, hd⟩ := hruns k hk.le
    exact (noisySys_interval hone hk htsp htrack hd).1
  have hzero : ‖deviationOf 0 ((noisyState 0).offset : ℝ) (noisySys limit 0)‖ = 0 := by
    have hdrift : driftOf (noisySys limit 0).servo.inner = 0 := rfl
    rw [norm_eq_zero, deviationOf, hdrift]
    ext j
    fin_cases j <;> simp [deviation, noisyState]
  have hroom : |(0 : ℝ)| + M * (‖deviationOf 0 ((noisyState 0).offset : ℝ) (noisySys limit 0)‖ +
      1 + 0) ≤ ((limit : ℚ) : ℝ) := by
    rw [hzero, abs_zero]
    push_cast
    linarith
  obtain ⟨hoffsets, hfreqs⟩ := hbound zero_le_one le_rfl hclosed
    (hruns 0 (Nat.zero_le 3)).2.1 hroom (.inl rfl)
  refine ⟨M, limit, rfl, fun k hk => (hclosed k hk).run, ?_, ?_⟩
  · intro k hk
    have hle := hoffsets k hk
    rwa [hzero, mul_zero, zero_add, add_zero, mul_one] at hle
  · intro k hk
    obtain ⟨g, hlast, hg, -⟩ := hfreqs k hk
    rw [hzero, mul_zero, zero_add, add_zero, add_zero, mul_one] at hg
    exact ⟨g, hlast, hg⟩

end ExternalServo
