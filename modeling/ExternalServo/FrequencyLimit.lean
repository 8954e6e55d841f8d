import ExternalServo.Corrections

/-!
# The limits of the frequency

The operator's limit `M` is read from the configuration, and start-up replaces it by the
maximum adjustment `H` of the clock. What the servos enforce, over any arithmetic with the laws of
the sign, is `H`, as long as what they compute is a number: a NaN passes both comparisons of a
limit.

* `beforeLimit` — the frequency that a servo computes, before it is limited;
* `startServo_limit` — the maximum frequency of the servo that start-up creates;
* `handle_limited` — a handler keeps to that maximum;
* `frequencies_limited` — in every run of the program, `H` is not exceeded, and this is the
  limit of the configuration unless `M` is a number other than zero below `H`.
-/

namespace ExternalServo

open CArith Runs

section Limits

variable {D : Type} [CDouble D]

/-! ## What is limited -/

/-- The frequency that a PI servo computes from a sample, before it is limited: the drift at the end
of an acquisition, and the correction while it tracks. In the other cases the servo computes none.
-/
def piBeforeLimit (base : ServoBase D) (s : PiServo D) (offset : Int64) (localTs : UInt64)
    (weight : D) : Option D :=
  match s.count with
  | 0 => none
  | 1 =>
    if s.local0 < localTs ∧
        CDouble.lt (localDiff (second s offset localTs)) (freqEstInterval s) = false then
      some (measuredDrift (second s offset localTs))
    else none
  | 2 => if losesLock base offset then none else some (trackedPpb s offset weight)

/-- The frequency that a regression servo computes from a sample, before it is limited: that of the
line of the chosen size, after the step of the clock if there is one. -/
def linregBeforeLimit (base : ServoBase D) (s : LinregServo D) (offset : Int64) (localTs : UInt64)
    (weight : D) : Option D :=
  let s := linregUpdate s offset localTs weight
  s.size.map fun k =>
    if exceedsStepThreshold base (CDouble.fabs (s.results k).intercept) then
      targetFreq (stepped s offset) k
    else targetFreq s k

/-- The frequency that a servo computes from a sample, before it is limited. -/
def beforeLimit (servo : Servo D (Inner D)) (offset : Int64) (localTs : UInt64) (weight : D) :
    Option D :=
  match servo.inner with
  | .pi s => piBeforeLimit servo.base s offset localTs weight
  | .linreg s => linregBeforeLimit servo.base s offset localTs weight
  | .ntpshm _ => none

/-- A servo that tracks returns its correction, limited. -/
theorem piSample_followed {base : ServoBase D} {s : PiServo D} {offset : Int64}
    (hcount : s.count = 2) (hstep : losesLock base offset = false) (localTs : UInt64) (weight : D) :
    (piSample base s offset localTs weight).1 =
      clampFrequency base (trackedPpb s offset weight) := by
  rw [losesLock] at hstep
  simp only [piSample, hcount, hstep, Bool.false_eq_true, if_false]
  rw [clampFrequency, trackedPpb, kiTerm]
  split_ifs <;> rfl

/-- What a PI servo returns of a sample that is to be applied is its frequency, limited. -/
theorem piSample_limited {base : ServoBase D} {s : PiServo D} {offset : Int64} {localTs : UInt64}
    {weight : D} (h : (piSample base s offset localTs weight).2.1 ≠ .unlocked) :
    ∃ x ∈ piBeforeLimit base s offset localTs weight,
      (piSample base s offset localTs weight).1 = clampFrequency base x := by
  have hsample := piSample_step base s offset localTs weight
  generalize hresult : piSample base s offset localTs weight = result at hsample h ⊢
  rw [piBeforeLimit]
  cases hsample with
  | first | restarted | waited | lost => exact absurd rfl h
  | acquired hcount hlocal hwait drift hdrift =>
    rw [hcount]
    exact ⟨_, if_pos ⟨hlocal, hwait⟩, hdrift⟩
  | followed hcount hstep ppb drift =>
    have hppb := piSample_followed hcount hstep localTs weight
    rw [hresult] at hppb
    rw [hcount]
    exact ⟨_, if_neg (Bool.eq_false_iff.mp hstep), hppb⟩

/-- What a regression servo returns of it is its frequency, limited and negated. -/
theorem linregSample_limited {base : ServoBase D} {s : LinregServo D} {offset : Int64}
    {localTs : UInt64} {weight : D}
    (h : (linregSample base s offset localTs weight).2.1 ≠ .unlocked) :
    ∃ x ∈ linregBeforeLimit base s offset localTs weight,
      (linregSample base s offset localTs weight).1 = -clampClockFreq base x := by
  unfold linregSample at h ⊢
  unfold linregBeforeLimit
  dsimp only at h ⊢
  split at h
  · exact absurd rfl h
  · next k hsize =>
    rw [hsize, Option.map_some]
    dsimp only
    split_ifs
    · exact ⟨_, rfl, rfl⟩
    · exact ⟨_, rfl, rfl⟩

/-! ## One handler -/

/-- A frequency is at most `limit` in magnitude, by the comparisons of the language; a NaN is not.
The other adjustments carry none, so they are within any limit. -/
def FreqWithin (limit : D) : ClockCall D → Prop
  | .setFreq _ freq => CDouble.inRange (-limit) limit freq = true
  | .setPhase _ _ | .step _ _ | .setSync | .setLeap _ => True

instance (limit : D) : (call : ClockCall D) → Decidable (FreqWithin limit call)
  | .setFreq _ freq => inferInstanceAs (Decidable (CDouble.inRange (-limit) limit freq = true))
  | .setPhase _ _ | .step _ _ | .setSync | .setLeap _ => isTrue trivial

/-- What a handler makes the servo limit, if anything, is a number. A NaN passes both comparisons of
the clamp and would be returned as it is, so this is what the limit rests on. -/
def Computed (sys : Sys D (Inner D)) : Handler → Prop
  | .clockUpdate t1 t2 => ∀ sample ∈ updateOffset sys t1 t2,
      ∀ x ∈ beforeLimit sys.servo sample.1.ns t2.toUInt64 sample.2, IsNumber x
  | .pathDelay _ _ => True

instance (sys : Sys D (Inner D)) : (h : Handler) → Decidable (Computed sys h)
  | .clockUpdate t1 t2 =>
    inferInstanceAs (Decidable (∀ sample ∈ updateOffset sys t1 t2,
      ∀ x ∈ beforeLimit sys.servo sample.1.ns t2.toUInt64 sample.2, IsNumber x))
  | .pathDelay _ _ => isTrue trivial

variable [SymmetricCDouble D]

section Clamp

variable {base : ServoBase D} (hmax : IsLimit base.maxFrequency) {x : D}

include hmax

theorem clampFrequency_inRange (hx : IsNumber x) :
    CDouble.inRange (-base.maxFrequency) base.maxFrequency (clampFrequency base x) = true := by
  rw [clampFrequency]
  split_ifs with hlo hhi
  · exact hmax.inRange.2
  · exact hmax.inRange.1
  · exact hmax.inRange_of_not_lt hx (Bool.eq_false_of_not_eq_true hlo)
      (Bool.eq_false_of_not_eq_true hhi)

theorem clampClockFreq_inRange (hx : IsNumber x) :
    CDouble.inRange (-base.maxFrequency) base.maxFrequency (clampClockFreq base x) = true := by
  rw [clampClockFreq]
  split_ifs with hhi hlo
  · exact hmax.inRange.1
  · exact hmax.inRange.2
  · exact hmax.inRange_of_not_lt hx (Bool.eq_false_of_not_eq_true hlo)
      (Bool.eq_false_of_not_eq_true hhi)

end Clamp

section Handler

variable {pow : D → D → D}

/-- Whenever a sample is to be applied, its frequency is within the limits. -/
theorem servoSample_inRange {servo : Servo D (Inner D)} (hmax : IsLimit servo.base.maxFrequency)
    {offset : Int64} {localTs : UInt64} {weight : D}
    (hcomputed : ∀ x ∈ beforeLimit servo offset localTs weight, IsNumber x) {r : D}
    {state : ServoState} {inner : Inner D}
    (h : (servoOps pow).sample servo.base servo.inner offset localTs weight = (r, state, inner))
    (hstate : state ≠ .unlocked) :
    CDouble.inRange (-servo.base.maxFrequency) servo.base.maxFrequency r = true := by
  obtain ⟨base, start⟩ := servo
  cases start with
  | pi s =>
    obtain ⟨rfl, rfl, rfl⟩ := h
    obtain ⟨x, hx, hreturn⟩ := piSample_limited hstate
    exact hreturn ▸ clampFrequency_inRange hmax (hcomputed x hx)
  | linreg s =>
    obtain ⟨rfl, rfl, rfl⟩ := h
    obtain ⟨x, hx, hreturn⟩ := linregSample_limited hstate
    exact hreturn ▸ inRange_neg (clampClockFreq_inRange hmax (hcomputed x hx))
  | ntpshm s =>
    obtain ⟨rfl, rfl, rfl⟩ := h
    exact absurd rfl hstate

/-- What is measured in a handler is within the limits. -/
theorem measured_inRange {sys : Sys D (Inner D)} {h : Handler}
    (hmax : IsLimit sys.servo.base.maxFrequency) (hcomputed : Computed sys h)
    {meas : Measurement D} (hmeas : meas ∈ measured (servoOps pow) sys h)
    (hstate : meas.state ≠ .unlocked) :
    CDouble.inRange (-sys.servo.base.maxFrequency) sys.servo.base.maxFrequency meas.adj = true := by
  cases h with
  | pathDelay t3 t4 => cases hmeas
  | clockUpdate t1 t2 =>
    obtain ⟨sample, hsample, rfl⟩ := Option.map_eq_some_iff.mp hmeas
    cases hown : (servoOps pow).sample sys.servo.base sys.servo.inner sample.1.ns t2.toUInt64
        sample.2 with
    | mk r rest =>
      obtain ⟨state, inner⟩ := rest
      have hanswer := servoSample_eq (servoOps pow) sys.servo _ _ _ hown
      simp only [answer, hanswer] at hstate ⊢
      -- a servo that waits is reported to wait
      rw [ne_eq, reportedState_eq_unlocked] at hstate
      exact servoSample_inRange hmax (hcomputed sample hsample) hown hstate

/-- **One handler** keeps to the maximum frequency of the servo: what is applied of a measurement is
its frequency, negated, and the limits are symmetric, so the negation stays between them. -/
theorem handle_limited (dev : DeviceConfig) {sys : Sys D (Inner D)} {h : Handler}
    (hmax : IsLimit sys.servo.base.maxFrequency) (hcomputed : Computed sys h) :
    MakesOnly (servoOps pow) dev sys h (FreqWithin sys.servo.base.maxFrequency) := by
  rw [makesOnly_iff]
  intro meas hmeas call hcall
  cases correctionOf_of_mem hcall with
  | setFreq clkid hstate =>
    have hlocked : meas.state ≠ .unlocked := by
      rcases hstate with hstate | hstate <;> rw [hstate] <;> decide
    exact inRange_neg (measured_inRange hmax hcomputed hmeas hlocked)
  | step clkid hstate => exact trivial
  | setPhase clkid hstate => exact trivial
  | setSync => exact trivial

end Handler

/-! ## Runs of the program -/

/-- The servo of the program is limited by the maximum adjustment of the clock, whatever the
configuration says. -/
theorem startServo_limit {pow : D → D → D} {env : ServoEnv} {cfg : ServoConfig D}
    {maxAdj : Int32} {fadj : D} {servo : Servo D (Inner D)}
    (h : startServo pow env cfg maxAdj fadj = some servo) :
    servo.base.maxFrequency = CDouble.ofInt maxAdj.toInt := by
  obtain ⟨created, hcreate, rfl⟩ := Option.map_eq_some_iff.mp h
  obtain ⟨inner, -, rfl⟩ := Option.map_eq_some_iff.mp hcreate
  have hint : CDouble.toInt32 (CDouble.ofInt maxAdj.toInt : D) = maxAdj.toInt :=
    toInt32_ofInt maxAdj.le_toInt maxAdj.toInt_lt
  simp only [servoSyncInterval, servoMaxFrequency, hint, ite_self]

section Program

variable {pow : D → D → D} {host : Host} {globals : Globals D} {program : Program D}
  {handlers : List Handler}

omit [SymmetricCDouble D] in
theorem startup_servo (h : startup pow host globals = some program) :
    ∃ fadj, startServo pow host.servoEnv globals.servoConfig program.maxAdj fadj =
      some program.sys.servo := by
  unfold startup at h
  simp only [Option.bind_eq_bind, Option.bind_eq_some_iff, Option.pure_def, Option.some.injEq]
    at h
  obtain ⟨_, -, dev, -, tsp, -, limit, -, fadj, -, servo, hservo, rfl⟩ := h
  exact ⟨fadj, hservo⟩

/-- **The invariant**: the servo has the maximum frequency `n`. It is set when the servo is created,
and no call writes it. -/
def Limited (n : Int) (sys : Sys D (Inner D)) : Prop :=
  sys.servo.base.maxFrequency = CDouble.ofInt n

/-- In every run the frequencies are limited by the maximum adjustment of the clock. -/
theorem frequencies_within_hardware (hstart : startup pow host globals = some program)
    (hadj : 0 ≤ program.maxAdj.toInt)
    (hcomputed : Always (handle (servoOps pow) program.device) Computed program.sys handlers) :
    Always (handle (servoOps pow) program.device)
      (fun sys h => MakesOnly (servoOps pow) program.device sys h
        (FreqWithin (CDouble.ofInt program.maxAdj.toInt))) program.sys handlers := by
  have hlt := program.maxAdj.toInt_lt
  have hlimit : IsLimit (CDouble.ofInt program.maxAdj.toInt : D) :=
    isLimit_ofInt hadj (by omega)
  obtain ⟨fadj, hservo⟩ := startup_servo hstart
  have hinit : Limited program.maxAdj.toInt program.sys := startServo_limit hservo
  refine Always.of_inv ?_ ?_ hinit hcomputed
  · intro sys h sys' hmax _ hok
    exact (handle_frame hok).1.trans hmax
  · intro sys h hmax hcomp
    rw [Limited] at hmax
    rw [← hmax] at hlimit ⊢
    exact handle_limited program.device hlimit hcomp

/-- The limit of a frequency: the smaller one of the operator's limit and of what the hardware can
do, or the latter alone if the former is zero. This is what the limit should be; what the program
passes on is the adjustment of the hardware in every case. -/
def frequencyLimit (maxFrequency : D) (maxAdj : Int32) : D :=
  if CDouble.truthy maxFrequency && CDouble.lt maxFrequency (CDouble.ofInt maxAdj.toInt) then
    maxFrequency
  else CDouble.ofInt maxAdj.toInt

/-- **The limit of the configuration is enforced** in every run, unless it is a number other than
zero that is below the maximum adjustment of the clock, or the servo computes a NaN. In the first
case the servo is created with the maximum of the clock, and the smaller limit is not looked at
again. -/
theorem frequencies_limited (hstart : startup pow host globals = some program)
    (hadj : 0 ≤ program.maxAdj.toInt)
    (hlimit : ¬ (CDouble.truthy globals.servoConfig.maxFrequency &&
      CDouble.lt globals.servoConfig.maxFrequency (CDouble.ofInt program.maxAdj.toInt)) = true)
    (hcomputed : Always (handle (servoOps pow) program.device) Computed program.sys handlers) :
    Always (handle (servoOps pow) program.device)
      (fun sys h => MakesOnly (servoOps pow) program.device sys h
        (FreqWithin (frequencyLimit globals.servoConfig.maxFrequency program.maxAdj)))
      program.sys handlers := by
  rw [frequencyLimit, if_neg hlimit]
  exact frequencies_within_hardware hstart hadj hcomputed

end Program

end Limits

/-- The sample configuration without a limit. -/
def unlimited (globals : Globals XRat) : Globals XRat :=
  { globals with servoConfig := { globals.servoConfig with maxFrequency := .fin 0 } }

/-- Without a limit of the operator the sample program keeps to that of the clock. -/
theorem frequencies_limited_unlimited :
    ∃ globals ∈ sampleGlobals, ∃ program ∈ startup powOne sampleHost (unlimited globals),
      Always (handle (servoOps powOne) program.device)
        (fun sys h => MakesOnly (servoOps powOne) program.device sys h
          (FreqWithin (frequencyLimit (unlimited globals).servoConfig.maxFrequency
            program.maxAdj))) program.sys lockHandlers := by
  have h : ∃ globals ∈ sampleGlobals, ∃ program ∈ startup powOne sampleHost (unlimited globals),
      0 ≤ program.maxAdj.toInt ∧
      ¬ (CDouble.truthy (unlimited globals).servoConfig.maxFrequency &&
        CDouble.lt (unlimited globals).servoConfig.maxFrequency
          (CDouble.ofInt program.maxAdj.toInt)) = true ∧
      Always (handle (servoOps powOne) program.device) Computed program.sys lockHandlers := by
    decide +kernel
  obtain ⟨globals, hglobals, program, hstart, hadj, hlimit, hcomputed⟩ := h
  exact ⟨globals, hglobals, program, hstart,
    frequencies_limited hstart hadj hlimit hcomputed⟩

/-- With the limit of 100 ppb, the third sample sets the frequency to -2000 ppb. -/
theorem not_frequencies_limited_sample :
    ∃ globals ∈ sampleGlobals, ∃ program ∈ startup powOne sampleHost globals,
      ¬ Always (handle (servoOps powOne) program.device)
        (fun sys h => MakesOnly (servoOps powOne) program.device sys h
          (FreqWithin (frequencyLimit globals.servoConfig.maxFrequency program.maxAdj)))
        program.sys lockHandlers := by
  have h : ∃ globals ∈ sampleGlobals, ∃ program ∈ startup powOne sampleHost globals,
      ¬ Always (handle (servoOps powOne) program.device)
        (fun sys h => ∀ m ∈ measured (servoOps powOne) sys h, ∀ call ∈ made program.device m,
          FreqWithin (frequencyLimit globals.servoConfig.maxFrequency program.maxAdj) call)
        program.sys lockHandlers := by
    decide +kernel
  obtain ⟨globals, hglobals, program, hprogram, hnot⟩ := h
  exact ⟨globals, hglobals, program, hprogram, fun hlimited => hnot
    ((always_congr fun _ _ => makesOnly_iff).mp hlimited)⟩

end ExternalServo
