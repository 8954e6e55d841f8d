import ExternalServo.Tmv
import ExternalServo.ServoCalls
import Mathlib.Tactic.FieldSimp
import Mathlib.Tactic.Ring

/-!
# What an acquisition measures

From two samples the PI servo measures the rate error of the clock and adds it to `drift`. The
clock however runs at the frequency that the servo returned last. Until the first lock the two
agree, and the new frequency cancels the error; once the servo has tracked, the last frequency
differs from the drift by the proportional term, and the acquisition after a lost lock is off by
it.

`Driven` is the servo with the frequency that its clock runs at, the last one it returned with a
result that `clock_update` applies.
-/

namespace ExternalServo

open CArith Runs

/-! ## The clock -/

/-- A servo and the frequency in force on its clock, in ppb. The servo does not keep the latter: it
is what the clock was last told, and an acquisition is right if the frequency it starts from is that
one. -/
structure Driven (D : Type) where
  servo : Servo D (Inner D)
  freq : D

section Driven

variable {D : Type} [CDouble D]

/-- A new servo, on a clock with the initial adjustment. -/
def Driven.created (servo : Servo D (Inner D)) (cfg : ServoConfig D) : Driven D :=
  { servo, freq := CDouble.ofInt cfg.intialAdj }

/-- The frequency in force after a sample: what the servo returns, unless it is unlocked. -/
def freqAfter (freq : D) (r : D) : ServoState → D
  | .unlocked => freq
  | .jump | .locked | .lockedStable => r

/-- A call on the servo. -/
def drivenStep (pow : D → D → D) (driven : Driven D) (call : Call D) : Except Fault (Driven D) :=
  match call with
  | .sample offset localTs weight =>
    let (r, state, servo) := servoSample (servoOps pow) driven.servo offset localTs weight
    .ok ⟨servo, freqAfter driven.freq r state⟩
  | call => .ok ⟨(servoCall (servoOps pow) driven.servo call).1, driven.freq⟩

/-- The servo ends an acquisition at the sample: it moves from the count 1 to 2, which is where the
measured drift is computed. A sample that is too early or out of order leaves the count as it is or
sets it back. -/
def Moves (base : ServoBase D) (s : PiServo D) (offset : Int64) (localTs : UInt64) (weight : D) :
    Prop :=
  s.count = 1 ∧ (piSample base s offset localTs weight).2.2.count = 2

/-- The measured drift is not limited. -/
def Unclamped (base : ServoBase D) (s : PiServo D) (offset : Int64) (localTs : UInt64) : Prop :=
  clampFrequency base (measuredDrift (second s offset localTs)) =
    measuredDrift (second s offset localTs)

instance (base : ServoBase XRat) (s : PiServo XRat) (offset : Int64) (localTs : UInt64)
    (weight : XRat) : Decidable (Moves base s offset localTs weight) :=
  inferInstanceAs (Decidable (_ ∧ _))

instance (base : ServoBase XRat) (s : PiServo XRat) (offset : Int64) (localTs : UInt64) :
    Decidable (Unclamped base s offset localTs) := inferInstanceAs (Decidable (_ = _))

/-- Then the two samples are in order, and the measured drift is what is returned. -/
theorem Moves.acquired {base : ServoBase D} {s : PiServo D} {offset : Int64} {localTs : UInt64}
    {weight : D} (h : Moves base s offset localTs weight) :
    s.local0 < localTs ∧ (piSample base s offset localTs weight).1 =
      clampFrequency base (measuredDrift (second s offset localTs)) := by
  obtain ⟨hcount, hnext⟩ := h
  have hstep := piSample_step base s offset localTs weight
  generalize piSample base s offset localTs weight = result at hstep hnext ⊢
  cases hstep with
  | first hzero => rw [hcount] at hzero; cases hzero
  | restarted => cases hnext
  | waited =>
    change s.count = 2 at hnext
    rw [hcount] at hnext
    cases hnext
  | acquired hcount hlocal hwait drift hdrift => exact ⟨hlocal, hdrift⟩
  | lost => cases hnext
  | followed htwo => rw [hcount] at htwo; cases htwo

end Driven

/-! ## The measurement -/

/-- The frequency `f` cancels the rate error that was measured, over a time of the local and one of
the remote clock, while the frequency `p` was in force. The equation is the one between the two
rates; what it is for is the second field. -/
structure Cancels (f p localTime remoteTime : ℚ) : Prop where
  eq : (10 ^ 9 - f) * localTime = (10 ^ 9 - p) * remoteTime
  /-- a clock of that rate then goes with the remote one, and the offsets stay as they are -/
  constant : ∀ rate elapsed, rate * (1 - p / 10 ^ 9) * remoteTime = localTime →
    rate * (1 - f / 10 ^ 9) * elapsed = elapsed

/-- The equation is enough. -/
theorem Cancels.of_eq {f p localTime remoteTime : ℚ} (hlocal : 0 < localTime)
    (h : (10 ^ 9 - f) * localTime = (10 ^ 9 - p) * remoteTime) :
    Cancels f p localTime remoteTime := by
  refine ⟨h, ?_⟩
  intro rate elapsed hrate
  have hone : rate * (1 - f / 10 ^ 9) = 1 := by
    have hmul : rate * (1 - f / 10 ^ 9) * localTime = localTime := by
      calc rate * (1 - f / 10 ^ 9) * localTime
          = rate * ((10 ^ 9 - f) * localTime) / 10 ^ 9 := by ring
        _ = rate * (1 - p / 10 ^ 9) * remoteTime := by rw [h]; ring
        _ = localTime := hrate
    exact (mul_eq_right₀ hlocal.ne').mp hmul
  rw [hone, one_mul]

/-- The local time between the two samples of an acquisition. -/
def localTime (s : PiServo XRat) (localTs : UInt64) : ℚ := localTs.toNat - s.local0.toNat

/-- The remote time between them. -/
def remoteTime (s : PiServo XRat) (offset : Int64) (localTs : UInt64) : ℚ :=
  (localTs.toNat - offset.toInt) - (s.local0.toNat - s.offset0.toInt)

section Measured

variable {s : PiServo XRat} {offset : Int64} {localTs : UInt64}

theorem localTime_pos (h : s.local0 < localTs) : 0 < localTime s localTs := by
  have hlt : (s.local0.toNat : ℚ) < localTs.toNat := Nat.cast_lt.mpr (UInt64.lt_iff_toNat_lt.mp h)
  exact sub_pos.mpr hlt

/-- **The measured drift** cancels the rate error of a clock that runs at the drift: multiplied out,
the formula of the source is the equation of `Cancels` with the drift in place of the frequency that
is in force. -/
theorem measuredDrift_fin {d : ℚ} (hdrift : s.drift = .fin d) (hlocal : s.local0 < localTs)
    (hfits : Fits (offset.toInt - s.offset0.toInt)) :
    ∃ f, measuredDrift (second s offset localTs) = .fin f ∧
      (10 ^ 9 - f) * localTime s localTs = (10 ^ 9 - d) * remoteTime s offset localTs := by
  have hpos := localTime_pos hlocal
  have hle : s.local0.toNat ≤ localTs.toNat := (UInt64.lt_iff_toNat_lt.mp hlocal).le
  have hsub : (localTs - s.local0).toNat = localTs.toNat - s.local0.toNat :=
    UInt64.toNat_sub_of_le _ _ hle
  have hdiff : (((localTs.toNat - s.local0.toNat : Nat) : Int) : ℚ) = localTime s localTs := by
    rw [localTime, Int.cast_natCast, Nat.cast_sub hle]
  refine ⟨d + (10 ^ 9 - d) * (offset.toInt - s.offset0.toInt : Int) / localTime s localTs, ?_, ?_⟩
  · simp only [measuredDrift, second, hdrift, hsub, toInt_sub_of_fits hfits, XRat.lit_eq,
      XRat.ofInt_eq, hdiff, XRat.fin_sub, XRat.fin_mul, XRat.fin_div _ hpos.ne', XRat.fin_add]
    norm_num
  · have hremote : remoteTime s offset localTs =
        localTime s localTs - (offset.toInt - s.offset0.toInt : Int) := by
      rw [remoteTime, localTime]
      push_cast
      ring
    rw [hremote]
    field_simp
    ring

/-- Of a clock that runs at another frequency only if no remote time passed. -/
theorem cancels_iff {d f p : ℚ} (hlocal : s.local0 < localTs)
    (h : (10 ^ 9 - f) * localTime s localTs = (10 ^ 9 - d) * remoteTime s offset localTs) :
    Cancels f p (localTime s localTs) (remoteTime s offset localTs) ↔
      d = p ∨ remoteTime s offset localTs = 0 := by
  have heq : (10 ^ 9 - f) * localTime s localTs = (10 ^ 9 - p) * remoteTime s offset localTs ↔
      d = p ∨ remoteTime s offset localTs = 0 := by
    rw [h, mul_eq_mul_right_iff, sub_right_inj]
  refine ⟨?_, ?_⟩
  · intro hcancels
    exact heq.mp hcancels.eq
  · intro hor
    exact .of_eq (localTime_pos hlocal) (heq.mpr hor)

end Measured

/-! ## The frequency in force -/

section InForce

variable {D : Type} [CDouble D] (pow : D → D → D)

/-- **The invariant**: a PI servo whose last frequency is in force, and is the drift until the first
lock. After the first lock the two part, as the drift is then the integral of the offsets alone, and
the last frequency has the proportional part on top. -/
structure InForce (driven : Driven D) (s : PiServo D) : Prop where
  inner_eq : driven.servo.inner = .pi s
  freq_eq : s.lastFreq = driven.freq
  drift_eq : driven.servo.base.firstUpdate = true → s.drift = s.lastFreq

omit [CDouble D] in
/-- A stable lock is a lock. -/
theorem freqAfter_reported (base : ServoBase D) (offset : Int64) (freq r : D) (own : ServoState) :
    freqAfter freq r (reportedState base offset own) = freqAfter freq r own := by
  rw [reportedState]
  split
  · next hstable => rw [hstable.1]; rfl
  · rfl

/-- A sample of a PI servo. -/
theorem drivenStep_pi (base : ServoBase D) (s : PiServo D) (freq : D) (offset : Int64)
    (localTs : UInt64) (weight : D) {r : D} {own : ServoState} {s' : PiServo D}
    (h : piSample base s offset localTs weight = (r, own, s')) :
    drivenStep pow ⟨⟨base, .pi s⟩, freq⟩ (.sample offset localTs weight) =
      .ok ⟨⟨baseAfter base offset own, .pi s'⟩, freqAfter freq r own⟩ := by
  have hsample : (servoOps pow).sample base (.pi s) offset localTs weight = (r, own, .pi s') := by
    simp only [servoOps, piOps, h]
  rw [drivenStep, servoSample_eq (servoOps pow) ⟨base, .pi s⟩ offset localTs weight hsample,
    ← freqAfter_reported base offset freq r own]

/-- **One call** keeps the invariant. A sample returns the frequency it stores, and the servo above
returns it unless the sample is unlocked, where the clock keeps the one before. -/
theorem drivenStep_inForce {driven driven' : Driven D} {s : PiServo D} (h : InForce driven s)
    {call : Call D} (hok : drivenStep pow driven call = .ok driven') :
    ∃ s', InForce driven' s' := by
  obtain ⟨⟨base, inner⟩, freq⟩ := driven
  obtain ⟨rfl, rfl, hdrift⟩ := h
  cases call with
  | syncInterval interval =>
    obtain rfl := Except.ok.inj hok
    exact ⟨_, rfl, rfl, hdrift⟩
  | reset =>
    obtain rfl := Except.ok.inj hok
    exact ⟨_, rfl, rfl, hdrift⟩
  | leap leap =>
    obtain rfl := Except.ok.inj hok
    exact ⟨s, rfl, rfl, hdrift⟩
  | sample offset localTs weight =>
    have hstep := piSample_step base s offset localTs weight
    generalize hresult : piSample base s offset localTs weight = result at hstep
    cases hstep with
    | first | restarted | waited | lost =>
      -- an unlocked servo keeps drift and frequency
      rw [drivenStep_pi pow base s s.lastFreq offset localTs weight hresult] at hok
      obtain rfl := Except.ok.inj hok
      exact ⟨_, rfl, rfl, hdrift⟩
    | acquired hcount hlocal hwait drift =>
      rw [drivenStep_pi pow base s s.lastFreq offset localTs weight hresult] at hok
      obtain rfl := Except.ok.inj hok
      refine ⟨_, rfl, ?_, fun _ => rfl⟩
      rw [acquiredState]
      split <;> rfl
    | followed hcount hreset ppb drift =>
      rw [drivenStep_pi pow base s s.lastFreq offset localTs weight hresult] at hok
      obtain rfl := Except.ok.inj hok
      refine ⟨_, rfl, rfl, ?_⟩
      intro hcount
      cases hcount

/-- A servo that was just created, on a clock with the initial adjustment. -/
theorem inForce_created {env : ServoEnv} {cfg : ServoConfig D} {base : ServoBase D} {s : PiServo D}
    (hcreate : servoCreate env cfg = some ⟨base, .pi s⟩) :
    InForce (Driven.created ⟨base, .pi s⟩ cfg) s := by
  obtain ⟨hdrift, hfreq, -⟩ := piServoCreate_init cfg
  obtain rfl := servoCreate_pi hcreate
  exact ⟨rfl, hfreq.symm, fun _ => hdrift.symm.trans hfreq⟩

end InForce

/-! ## Runs -/

/-- A property of every sample that ends an acquisition, in exact arithmetic and without a limit: of
the servo before it, its offset and time, the frequency in force, the drift and the frequency that
is returned. All other samples and calls have it. -/
def AtAcquisition (P : PiServo XRat → Int64 → UInt64 → ℚ → ℚ → XRat → Prop)
    (driven : Driven XRat) : Call XRat → Prop
  | .sample offset localTs weight =>
    ∀ s p d, driven.servo.inner = .pi s → driven.freq = .fin p → s.drift = .fin d →
      Moves driven.servo.base s offset localTs weight →
      Unclamped driven.servo.base s offset localTs →
      P s offset localTs p d (piSample driven.servo.base s offset localTs weight).1
  | .syncInterval _ | .reset | .leap _ => True

/-- The new frequency cancels the rate error that was measured. -/
def AcquiresExactly : Driven XRat → Call XRat → Prop :=
  AtAcquisition fun s offset localTs p _ r =>
    ∃ f, r = .fin f ∧ Cancels f p (localTime s localTs) (remoteTime s offset localTs)

/-- The difference of the two offsets is an `int64_t`. -/
def OffsetsFit : Driven XRat → Call XRat → Prop :=
  AtAcquisition fun s offset _ _ _ _ => Fits (offset.toInt - s.offset0.toInt)

/-- The drift is the frequency in force, or no remote time passed. In the latter case the equation
of `Cancels` asks nothing of the frequency before, so the acquisition is exact whatever the drift
was. -/
def DriftInForce : Driven XRat → Call XRat → Prop :=
  AtAcquisition fun s offset localTs p d _ => d = p ∨ remoteTime s offset localTs = 0

/-- **One call.** The servo cancels the rate error that was measured at its drift; a frequency
cancels it at two frequencies only if these are the same, or no remote time passed. -/
theorem acquiresExactly_iff {driven : Driven XRat} {call : Call XRat}
    (hfits : OffsetsFit driven call) :
    AcquiresExactly driven call ↔ DriftInForce driven call := by
  cases call with
  | syncInterval | reset | leap => exact Iff.rfl
  | sample offset localTs weight =>
    have hmeasured : ∀ s p d, driven.servo.inner = .pi s → driven.freq = .fin p →
        s.drift = .fin d → Moves driven.servo.base s offset localTs weight →
        Unclamped driven.servo.base s offset localTs →
        ((∃ f, (piSample driven.servo.base s offset localTs weight).1 = .fin f ∧
          Cancels f p (localTime s localTs) (remoteTime s offset localTs)) ↔
          d = p ∨ remoteTime s offset localTs = 0) := by
      rintro s p d hinner hfreq hdrift hmoves hunclamped
      obtain ⟨hlocal, hr⟩ := hmoves.acquired
      obtain ⟨f, hf, heq⟩ := measuredDrift_fin hdrift hlocal
        (hfits s p d hinner hfreq hdrift hmoves hunclamped)
      rw [hr, hunclamped, hf, ← cancels_iff hlocal heq]
      refine ⟨?_, ?_⟩
      · rintro ⟨f', hf', hcancels⟩
        rwa [XRat.fin.inj hf']
      · intro hcancels
        exact ⟨f, rfl, hcancels⟩
    refine ⟨?_, ?_⟩
    · rintro h s p d hinner hfreq hdrift hmoves hunclamped
      exact (hmeasured s p d hinner hfreq hdrift hmoves hunclamped).mp
        (h s p d hinner hfreq hdrift hmoves hunclamped)
    · rintro h s p d hinner hfreq hdrift hmoves hunclamped
      exact (hmeasured s p d hinner hfreq hdrift hmoves hunclamped).mpr
        (h s p d hinner hfreq hdrift hmoves hunclamped)

/-- Until the first lock the drift is in force. -/
theorem driftInForce_first {driven : Driven XRat} {s : PiServo XRat} (h : InForce driven s)
    (hfirst : driven.servo.base.firstUpdate = true) (call : Call XRat) :
    DriftInForce driven call := by
  cases call with
  | syncInterval | reset | leap => exact trivial
  | sample offset localTs weight =>
    rintro s' p d hinner hfreq hdrift - -
    obtain rfl := Inner.pi.inj (h.inner_eq.symm.trans hinner)
    rw [h.drift_eq hfirst, h.freq_eq, hfreq] at hdrift
    exact .inl (XRat.fin.inj hdrift).symm

/-- **What an acquisition measures.** In every run of a PI servo from its creation, on a clock that
runs at the frequency returned last: that frequency is the servo's `last_freq`; every acquisition
before the first lock cancels the rate error; and all acquisitions do exactly if the drift is the
frequency in force at each of them (or no remote time passed). A later acquisition starts from the
drift, so what it misses is the proportional part of the frequency that was in force when the lock
was lost. -/
theorem acquisition_exact {env : ServoEnv} {cfg : ServoConfig XRat} {base : ServoBase XRat}
    {s : PiServo XRat} (hcreate : servoCreate env cfg = some ⟨base, .pi s⟩)
    (pow : XRat → XRat → XRat) (calls : List (Call XRat)) :
    Always (drivenStep pow) (fun driven _ => ∃ s, driven.servo.inner = .pi s ∧
        s.lastFreq = driven.freq) (Driven.created ⟨base, .pi s⟩ cfg) calls ∧
      Always (drivenStep pow) (fun driven call => driven.servo.base.firstUpdate = true →
        OffsetsFit driven call → AcquiresExactly driven call)
        (Driven.created ⟨base, .pi s⟩ cfg) calls ∧
      (Always (drivenStep pow) OffsetsFit (Driven.created ⟨base, .pi s⟩ cfg) calls →
        (Always (drivenStep pow) AcquiresExactly (Driven.created ⟨base, .pi s⟩ cfg) calls ↔
          Always (drivenStep pow) DriftInForce (Driven.created ⟨base, .pi s⟩ cfg) calls)) := by
  have hkeep : ∀ (driven : Driven XRat) call driven', (∃ s, InForce driven s) → True →
      drivenStep pow driven call = .ok driven' → ∃ s, InForce driven' s := by
    rintro driven call driven' ⟨s, hs⟩ - hok
    exact drivenStep_inForce pow hs hok
  have hforce : ∃ s', InForce (Driven.created ⟨base, .pi s⟩ cfg) s' :=
    ⟨s, inForce_created hcreate⟩
  refine ⟨?_, ?_, ?_⟩
  · refine Always.of_inv hkeep ?_ hforce (always_of_forall (fun _ _ => trivial) _ _)
    rintro driven call ⟨s, hs⟩ -
    exact ⟨s, hs.inner_eq, hs.freq_eq⟩
  · refine Always.of_inv hkeep ?_ hforce (always_of_forall (fun _ _ => trivial) _ _)
    rintro driven call ⟨s, hs⟩ - hfirst hfits
    exact (acquiresExactly_iff hfits).mpr (driftInForce_first hs hfirst call)
  · intro hfits
    refine ⟨?_, ?_⟩
    · intro hexact
      refine Always.imp ?_ (hfits.and hexact)
      rintro driven call ⟨hfits, hexact⟩
      exact (acquiresExactly_iff hfits).mp hexact
    · intro hdrift
      refine Always.imp ?_ (hfits.and hdrift)
      rintro driven call ⟨hfits, hdrift⟩
      exact (acquiresExactly_iff hfits).mpr hdrift

/-- The settings of a PI servo with a step threshold of a millisecond, for a clock that is not
adjusted yet. -/
def relockConfig : ServoConfig XRat :=
  { ServoConfig.zero with
    maxFrequency := .fin 500000, stepThreshold := .fin 0.001,
    kpNormMax := .fin 0.7, kiNormMax := .fin 0.3 }

/-- The servo locks, tracks an offset of 1000 ns and loses its lock. -/
def lostCalls : List (Call XRat) :=
  [.syncInterval (.fin 1), .sample 0 1000000000 (.fin 1), .sample 0 2000000000 (.fin 1),
    .sample 1000 3000000000 (.fin 1), .sample 2000000 4000000000 (.fin 1),
    .sample 2000000 5000000000 (.fin 1)]

/-- It acquires again, from an offset that did not change in a second. -/
def relockCalls : List (Call XRat) := lostCalls ++ [.sample 2000000 6000000000 (.fin 1)]

/-- The state of a PI servo. -/
def Driven.pi (driven : Driven XRat) : Option (PiServo XRat) :=
  match driven.servo.inner with
  | .pi s => some s
  | .linreg _ | .ntpshm _ => none

theorem Driven.inner_of_pi {driven : Driven XRat} {s : PiServo XRat} (h : s ∈ driven.pi) :
    driven.servo.inner = .pi s := by
  obtain ⟨⟨base, inner⟩, freq⟩ := driven
  cases inner with
  | pi s' =>
    obtain rfl := Option.some.inj h
    rfl
  | linreg s' => cases h
  | ntpshm s' => cases h

/-- The difference of the offset of a sample to the first one of its acquisition is an `int64_t`. -/
def differenceFits (driven : Driven XRat) : Call XRat → Bool
  | .sample offset _ _ => driven.pi.all fun s => decide (Fits (offset.toInt - s.offset0.toInt))
  | .syncInterval _ | .reset | .leap _ => true

theorem offsetsFit_of_differenceFits {driven : Driven XRat} {call : Call XRat}
    (h : differenceFits driven call = true) : OffsetsFit driven call := by
  cases call with
  | syncInterval | reset | leap => exact trivial
  | sample offset localTs weight =>
    rintro s p d hinner - - - -
    have hs : driven.pi = some s := by rw [Driven.pi, hinner]
    rw [differenceFits, hs] at h
    exact of_decide_eq_true h

/-- A run with two acquisitions: all acquisitions are exact if and only if the drift is the
frequency in force at both. -/
theorem acquisition_exact_relock :
    ∃ servo ∈ servoCreate ⟨true, fun _ => none⟩ relockConfig,
      Always (drivenStep powOne) (fun driven _ => ∃ s, driven.servo.inner = .pi s ∧
          s.lastFreq = driven.freq) (Driven.created servo relockConfig) relockCalls ∧
        Always (drivenStep powOne) (fun driven call => driven.servo.base.firstUpdate = true →
          OffsetsFit driven call → AcquiresExactly driven call)
          (Driven.created servo relockConfig) relockCalls ∧
        (Always (drivenStep powOne) AcquiresExactly (Driven.created servo relockConfig)
            relockCalls ↔
          Always (drivenStep powOne) DriftInForce (Driven.created servo relockConfig)
            relockCalls) := by
  have h : ∃ servo ∈ servoCreate ⟨true, fun _ => none⟩ relockConfig,
      servo.inner = .pi (piServoCreate relockConfig) ∧
      Always (drivenStep powOne) (fun driven call => differenceFits driven call = true)
        (Driven.created servo relockConfig) relockCalls := by
    refine ⟨_, rfl, rfl, ?_⟩
    decide +kernel
  obtain ⟨⟨base, inner⟩, hcreate, rfl, hdifferences⟩ := h
  have hfits := hdifferences.imp fun _ _ => offsetsFit_of_differenceFits
  obtain ⟨hfreq, hfirst, hexact⟩ := acquisition_exact hcreate powOne relockCalls
  exact ⟨_, hcreate, hfreq, hfirst, hexact hfits⟩

/-- At 1000 ppb the offset stayed, and the servo goes to 300 ppb, its drift. -/
theorem not_acquiresExactly_relock :
    ∃ servo ∈ servoCreate ⟨true, fun _ => none⟩ relockConfig,
      ¬ Always (drivenStep powOne) AcquiresExactly (Driven.created servo relockConfig)
        relockCalls := by
  have hservo : ∃ servo, servoCreate ⟨true, fun _ => none⟩ relockConfig = some servo := ⟨_, rfl⟩
  obtain ⟨servo, hcreate⟩ := hservo
  refine ⟨servo, hcreate, ?_⟩
  intro hexact
  -- the servo at the last sample
  have hfacts : ∃ driven ∈
      (lostCalls.foldlM (drivenStep powOne) (Driven.created servo relockConfig)).toOption,
      ∃ s ∈ driven.pi, driven.freq = .fin 1000 ∧ s.drift = .fin 300 ∧
        Moves driven.servo.base s 2000000 6000000000 (.fin 1) ∧
        Unclamped driven.servo.base s 2000000 6000000000 ∧
        (piSample driven.servo.base s 2000000 6000000000 (.fin 1)).1 = .fin 300 ∧
        localTime s 6000000000 = 10 ^ 9 ∧ remoteTime s 2000000 6000000000 = 10 ^ 9 := by
    obtain rfl := Option.some.inj hcreate
    decide +kernel
  obtain ⟨driven, hdriven, s, hs, hfreq, hdrift, hmoves, hunclamped, hr, hlocal, hremote⟩ := hfacts
  have hlast := always_iff_forall_prefix.mp hexact lostCalls _ [] _ rfl (mem_toOption.mp hdriven)
  obtain ⟨f, hf, hcancels⟩ :=
    hlast s 1000 300 (Driven.inner_of_pi hs) hfreq hdrift hmoves hunclamped
  rw [hr] at hf
  obtain rfl := XRat.fin.inj hf
  have heq := hcancels.eq
  rw [hlocal, hremote] at heq
  norm_num at heq

end ExternalServo
