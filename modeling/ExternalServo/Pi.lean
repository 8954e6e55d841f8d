import ExternalServo.Servo

/-!
# The PI servo (`pi.c`)

The servo acquires the frequency from two samples (`count` 0 and 1) and then tracks with
a proportional and an integral term (`count` 2). `drift` is the integrator; `lastFreq` is
what the last sample returned. `pow` of the C library is a parameter.
-/

namespace ExternalServo

open CArith

/-- `struct pi_servo`, after the common part. The configured constants are kept next to those in
use, as the sync interval scales the latter anew whenever it is set. -/
structure PiServo (D : Type) where
  /-- offsets of the two samples of an acquisition -/
  offset0 : Int64
  offset1 : Int64
  /-- local times of the two samples of an acquisition -/
  local0 : UInt64
  local1 : UInt64
  drift : D
  kp : D
  ki : D
  lastFreq : D
  count : Fin 3
  configuredPiKp : D
  configuredPiKi : D
  configuredPiKpScale : D
  configuredPiKpExponent : D
  configuredPiKpNormMax : D
  configuredPiKiScale : D
  configuredPiKiExponent : D
  configuredPiKiNormMax : D

/-- The values of `count`. -/
instance PiServo.neZeroCounts : NeZero (3 : Nat) := ⟨three_ne_zero⟩

/-- `HWTS_KP_SCALE` -/
def HWTS_KP_SCALE : ℚ := 0.7

/-- `HWTS_KI_SCALE` -/
def HWTS_KI_SCALE : ℚ := 0.3

/-- `SWTS_KP_SCALE` -/
def SWTS_KP_SCALE : ℚ := 0.1

/-- `SWTS_KI_SCALE` -/
def SWTS_KI_SCALE : ℚ := 0.001

/-- `MAX_KP_NORM_MAX` -/
def MAX_KP_NORM_MAX : ℚ := 1

/-- `MAX_KI_NORM_MAX` -/
def MAX_KI_NORM_MAX : ℚ := 2

/-- `FREQ_EST_MARGIN` -/
def FREQ_EST_MARGIN : ℚ := 0.001

variable {D : Type} [CDouble D]

/-- The time the servo waits between the samples of an acquisition, in seconds: the longer the
smaller the integral constant is, and at most 1000 s. -/
def freqEstInterval (s : PiServo D) : D :=
  let interval := CDouble.lit 0.016 / s.ki
  if CDouble.lt (CDouble.lit 1000) interval then CDouble.lit 1000 else interval

/-- The time between the samples of an acquisition, with a margin, in seconds. -/
def localDiff (s : PiServo D) : D :=
  let localdiff := CDouble.ofInt (s.local1 - s.local0).toNat / CDouble.lit 1000000000
  localdiff + localdiff * CDouble.lit FREQ_EST_MARGIN

/-- The drift after an acquisition, before it is limited. -/
def measuredDrift (s : PiServo D) : D :=
  s.drift + (CDouble.lit 1000000000 - s.drift) * CDouble.ofInt (s.offset1 - s.offset0).toInt /
    CDouble.ofInt (s.local1 - s.local0).toNat

/-- `pi_sample` -/
def piSample (servo : ServoBase D) (s : PiServo D) (offset : Int64) (localTs : UInt64)
    (weight : D) : D × ServoState × PiServo D :=
  match s.count with
  | 0 => (s.lastFreq, .unlocked, { s with offset0 := offset, local0 := localTs, count := 1 })
  | 1 =>
    let s := { s with offset1 := offset, local1 := localTs }
    -- make sure the first sample is older than the second
    if s.local1 ≤ s.local0 then (s.lastFreq, .unlocked, { s with count := 0 })
    -- wait long enough before estimating the frequency offset
    else if CDouble.lt (localDiff s) (freqEstInterval s) then (s.lastFreq, .unlocked, s)
    else
      let drift := clampFrequency servo (measuredDrift s)
      let state := if exceedsStepThreshold servo (absOffset offset) then .jump else .locked
      (drift, state, { s with drift, lastFreq := drift, count := 2 })
  | 2 =>
    -- reset the clock servo when the offset is greater than the step threshold
    if CDouble.truthy servo.stepThreshold && CDouble.lt servo.stepThreshold (absOffset offset) then
      (s.lastFreq, .unlocked, { s with count := 0 })
    else
      let offset : D := CDouble.ofInt offset.toInt
      let kiTerm := s.ki * offset * weight
      let ppb := s.kp * offset * weight + s.drift + kiTerm
      let (ppb, drift) :=
        if CDouble.lt ppb (-servo.maxFrequency) then (-servo.maxFrequency, s.drift)
        else if CDouble.lt servo.maxFrequency ppb then (servo.maxFrequency, s.drift)
        else (ppb, s.drift + kiTerm)
      (ppb, .locked, { s with drift, lastFreq := ppb })

/-- A gain: scaled by a power of the sync interval, and limited. -/
def scaledGain (pow : D → D → D) (scale exponent normMax interval : D) : D :=
  let gain := scale * pow interval exponent
  if CDouble.lt (normMax / interval) gain then normMax / interval else gain

/-- `pi_sync_interval` -/
def piSyncInterval (pow : D → D → D) (s : PiServo D) (interval : D) : PiServo D :=
  { s with
    kp := scaledGain pow s.configuredPiKpScale s.configuredPiKpExponent s.configuredPiKpNormMax
      interval
    ki := scaledGain pow s.configuredPiKiScale s.configuredPiKiExponent s.configuredPiKiNormMax
      interval }

/-- `pow` at the base 1, the only sync interval that the program sets. -/
def powOne (_ _ : XRat) : XRat := .fin 1

/-- `pi_reset` -/
def piReset (s : PiServo D) : PiServo D := { s with count := 0 }

/-- `pi_servo_create`, after the allocation. -/
def piServoCreate (cfg : ServoConfig D) : PiServo D :=
  let s : PiServo D :=
    { offset0 := 0, offset1 := 0, local0 := 0, local1 := 0, drift := CDouble.ofInt cfg.intialAdj,
      kp := CDouble.lit 0, ki := CDouble.lit 0, lastFreq := CDouble.ofInt cfg.intialAdj, count := 0,
      configuredPiKp := cfg.kp, configuredPiKi := cfg.ki, configuredPiKpScale := cfg.kpScale,
      configuredPiKpExponent := cfg.kpExponent, configuredPiKpNormMax := cfg.kpNormMax,
      configuredPiKiScale := cfg.kiScale, configuredPiKiExponent := cfg.kiExponent,
      configuredPiKiNormMax := cfg.kiNormMax }
  if CDouble.truthy s.configuredPiKp && CDouble.truthy s.configuredPiKi then
    -- the constants of the user, unless they make the servo unstable
    { s with
      configuredPiKpScale := s.configuredPiKp, configuredPiKiScale := s.configuredPiKi,
      configuredPiKpExponent := CDouble.lit 0, configuredPiKiExponent := CDouble.lit 0,
      configuredPiKpNormMax := CDouble.lit MAX_KP_NORM_MAX,
      configuredPiKiNormMax := CDouble.lit MAX_KI_NORM_MAX }
  else if !CDouble.truthy s.configuredPiKpScale || !CDouble.truthy s.configuredPiKiScale then
    if cfg.swTs ≠ 0 then
      { s with
        configuredPiKpScale := CDouble.lit SWTS_KP_SCALE,
        configuredPiKiScale := CDouble.lit SWTS_KI_SCALE }
    else
      { s with
        configuredPiKpScale := CDouble.lit HWTS_KP_SCALE,
        configuredPiKiScale := CDouble.lit HWTS_KI_SCALE }
  else s

/-- Whatever the settings, the servo starts with the initial adjustment and without gains. -/
theorem piServoCreate_init (cfg : ServoConfig D) :
    CDouble.ofInt cfg.intialAdj = (piServoCreate cfg).drift ∧
      CDouble.ofInt cfg.intialAdj = (piServoCreate cfg).lastFreq ∧
      CDouble.lit 0 = (piServoCreate cfg).kp ∧ CDouble.lit 0 = (piServoCreate cfg).ki := by
  simp only [piServoCreate]
  split_ifs <;> exact ⟨rfl, rfl, rfl, rfl⟩

/-- With both constants of the user the gains do not depend on the interval, but for the limits. -/
theorem piSyncInterval_user (pow : D → D → D) {cfg : ServoConfig D}
    (h : (CDouble.truthy cfg.kp && CDouble.truthy cfg.ki) = true) (interval : D) :
    (piSyncInterval pow (piServoCreate cfg) interval).kp =
        scaledGain pow cfg.kp (CDouble.lit 0) (CDouble.lit MAX_KP_NORM_MAX) interval ∧
      (piSyncInterval pow (piServoCreate cfg) interval).ki =
        scaledGain pow cfg.ki (CDouble.lit 0) (CDouble.lit MAX_KI_NORM_MAX) interval := by
  simp only [piSyncInterval, piServoCreate, if_pos h, and_self]

theorem piServoCreate_count (cfg : ServoConfig D) : (piServoCreate cfg).count = 0 := by
  simp only [piServoCreate]
  split_ifs <;> rfl

/-- The functions of a PI servo. -/
def piOps (pow : D → D → D) : ServoOps D (PiServo D) :=
  { sample := piSample, syncInterval := piSyncInterval pow, reset := piReset, rateRatio := none,
    leap := none }

/-! ## What a sample can do -/

/-- The integral part of a correction. -/
def kiTerm (s : PiServo D) (offset : Int64) (weight : D) : D :=
  s.ki * CDouble.ofInt offset.toInt * weight

/-- A correction, before it is limited. -/
def trackedPpb (s : PiServo D) (offset : Int64) (weight : D) : D :=
  s.kp * CDouble.ofInt offset.toInt * weight + s.drift + kiTerm s offset weight

/-- The outcomes of a sample. -/
inductive PiSampled (servo : ServoBase D) (s : PiServo D) (offset : Int64) (localTs : UInt64)
    (weight : D) : D × ServoState × PiServo D → Prop where
  /-- the servo waits: it returns the last frequency, and keeps at most the sample -/
  | held (offset0 offset1 : Int64) (local0 local1 : UInt64) (count : Fin 3) :
    PiSampled servo s offset localTs weight
      (s.lastFreq, .unlocked, { s with offset0, offset1, local0, local1, count })
  /-- the second sample of an acquisition: the drift is measured and limited -/
  | acquired (drift : D) (state : ServoState) (hlocal : s.local0 < localTs)
    (hdrift : drift = clampFrequency servo
      (measuredDrift { s with offset1 := offset, local1 := localTs }))
    (hstate : state = .jump ∨ state = .locked) :
    PiSampled servo s offset localTs weight
      (drift, state,
        { s with offset1 := offset, local1 := localTs, drift, lastFreq := drift, count := 2 })
  /-- tracking, beyond the maximum: the drift is kept -/
  | saturated (ppb : D) (hppb : ppb = -servo.maxFrequency ∨ ppb = servo.maxFrequency) :
    PiSampled servo s offset localTs weight (ppb, .locked, { s with lastFreq := ppb })
  /-- tracking, within the maximum -/
  | tracked
    (hlo : CDouble.lt (trackedPpb s offset weight) (-servo.maxFrequency) = false)
    (hhi : CDouble.lt servo.maxFrequency (trackedPpb s offset weight) = false) :
    PiSampled servo s offset localTs weight
      (trackedPpb s offset weight, .locked,
        { s with drift := s.drift + kiTerm s offset weight,
                 lastFreq := trackedPpb s offset weight })

/-- **The inversion of `pi_sample`.** -/
theorem piSample_sampled (servo : ServoBase D) (s : PiServo D) (offset : Int64)
    (localTs : UInt64) (weight : D) :
    PiSampled servo s offset localTs weight (piSample servo s offset localTs weight) := by
  rw [piSample]
  split
  · exact .held offset s.offset1 localTs s.local1 1
  · dsimp only
    split_ifs with hlocal hwait hjump
    · exact .held s.offset0 offset s.local0 localTs 0
    · exact .held s.offset0 offset s.local0 localTs s.count
    · exact .acquired _ _ (UInt64.not_le.mp hlocal) rfl (.inl rfl)
    · exact .acquired _ _ (UInt64.not_le.mp hlocal) rfl (.inr rfl)
  · dsimp only
    split_ifs with hreset hlo hhi
    · exact .held s.offset0 s.offset1 s.local0 s.local1 0
    · exact .saturated _ (.inl rfl)
    · exact .saturated _ (.inr rfl)
    · exact .tracked (Bool.eq_false_of_not_eq_true hlo) (Bool.eq_false_of_not_eq_true hhi)

/-- The servo itself does not know of stable locks. -/
theorem piSample_state (servo : ServoBase D) (s : PiServo D) (offset : Int64) (localTs : UInt64)
    (weight : D) : (piSample servo s offset localTs weight).2.1 ≠ .lockedStable := by
  have hsampled := piSample_sampled servo s offset localTs weight
  generalize piSample servo s offset localTs weight = result at hsampled ⊢
  cases hsampled with
  | acquired drift state hlocal hdrift hstate => rcases hstate with rfl | rfl <;> nofun
  | held | saturated | tracked => nofun

/-! ## The steps of an acquisition -/

/-- The servo when it looks at the second sample of an acquisition. -/
def second (s : PiServo D) (offset : Int64) (localTs : UInt64) : PiServo D :=
  { s with offset1 := offset, local1 := localTs }

/-- The state that an acquisition ends in. -/
def acquiredState (servo : ServoBase D) (offset : Int64) : ServoState :=
  if exceedsStepThreshold servo (absOffset offset) then .jump else .locked

/-- The offset loses the lock. -/
def losesLock (servo : ServoBase D) (offset : Int64) : Bool :=
  CDouble.truthy servo.stepThreshold && CDouble.lt servo.stepThreshold (absOffset offset)

/-- The steps of the servo, by its count: which sample it is in its acquisition, or that it tracks.
There is a step for every branch of the source, so that a case analysis over them is one over the
code. -/
inductive PiStep (servo : ServoBase D) (s : PiServo D) (offset : Int64) (localTs : UInt64)
    (weight : D) : D × ServoState × PiServo D → Prop where
  /-- the first sample of an acquisition -/
  | first (hcount : s.count = 0) :
    PiStep servo s offset localTs weight
      (s.lastFreq, .unlocked, { s with offset0 := offset, local0 := localTs, count := 1 })
  /-- the second sample is not the later one: the acquisition starts again -/
  | restarted (hcount : s.count = 1) (hlocal : localTs ≤ s.local0) :
    PiStep servo s offset localTs weight
      (s.lastFreq, .unlocked, { second s offset localTs with count := 0 })
  /-- the second sample comes too early -/
  | waited (hcount : s.count = 1) (hlocal : s.local0 < localTs)
    (hwait : CDouble.lt (localDiff (second s offset localTs)) (freqEstInterval s) = true) :
    PiStep servo s offset localTs weight (s.lastFreq, .unlocked, second s offset localTs)
  /-- the second sample ends the acquisition -/
  | acquired (hcount : s.count = 1) (hlocal : s.local0 < localTs)
    (hwait : CDouble.lt (localDiff (second s offset localTs)) (freqEstInterval s) = false)
    (drift : D)
    (hdrift : drift = clampFrequency servo (measuredDrift (second s offset localTs))) :
    PiStep servo s offset localTs weight
      (drift, acquiredState servo offset,
        { second s offset localTs with drift, lastFreq := drift, count := 2 })
  /-- the offset is beyond the step threshold: the lock is lost -/
  | lost (hcount : s.count = 2) (hstep : losesLock servo offset = true) :
    PiStep servo s offset localTs weight (s.lastFreq, .unlocked, { s with count := 0 })
  /-- the servo tracks -/
  | followed (hcount : s.count = 2) (hstep : losesLock servo offset = false) (ppb drift : D) :
    PiStep servo s offset localTs weight (ppb, .locked, { s with drift, lastFreq := ppb })

/-- **The inversion of `pi_sample`, by the count.** Properties of a sample are proved from the
cases, and no later proof unfolds the function. -/
theorem piSample_step (servo : ServoBase D) (s : PiServo D) (offset : Int64) (localTs : UInt64)
    (weight : D) :
    PiStep servo s offset localTs weight (piSample servo s offset localTs weight) := by
  rw [piSample]
  split
  · next hcount => exact .first hcount
  · next hcount =>
    dsimp only
    split_ifs with hlocal hwait hjump
    · exact .restarted hcount hlocal
    · exact .waited hcount (UInt64.not_le.mp hlocal) hwait
    all_goals
      have hacquired : PiStep servo s offset localTs weight (_, acquiredState servo offset, _) :=
        .acquired hcount (UInt64.not_le.mp hlocal) (Bool.eq_false_of_not_eq_true hwait) _ rfl
    · rwa [acquiredState, if_pos hjump] at hacquired
    · rwa [acquiredState, if_neg hjump] at hacquired
  · next hcount =>
    dsimp only
    split_ifs with hreset hlo hhi
    · exact .lost hcount hreset
    · exact .followed hcount (Bool.eq_false_of_not_eq_true hreset) _ s.drift
    · exact .followed hcount (Bool.eq_false_of_not_eq_true hreset) _ s.drift
    · exact .followed hcount (Bool.eq_false_of_not_eq_true hreset) _ _

/-- The clock is stepped for an offset beyond a threshold only. -/
theorem piSample_jump {servo : ServoBase D} {s : PiServo D} {offset : Int64} {localTs : UInt64}
    {weight : D} (h : (piSample servo s offset localTs weight).2.1 = .jump) :
    exceedsStepThreshold servo (absOffset offset) = true := by
  have hstep := piSample_step servo s offset localTs weight
  generalize piSample servo s offset localTs weight = result at hstep h
  cases hstep with
  | acquired hcount hlocal hwait drift hdrift =>
    by_contra hle
    rw [acquiredState, if_neg hle] at h
    cases h
  | first | restarted | waited | lost | followed => cases h

end ExternalServo
