import ExternalServo.Config

/-!
# The servo interface (`servo.h`, `servo.c`)

A servo turns the offset of each sample into a frequency correction. What all servos have
in common is a `ServoBase`; what they do is a `ServoOps`, the table of functions in
`struct servo`, over a state of their own. `servoSample` adds the detection of a stable
lock to the sample function of a servo.
-/

namespace ExternalServo

open CArith

/-- `enum servo_state`. The numbers of the source are not used: no code computes with them. -/
inductive ServoState : Type where
  /-- not synchronized to the master -/
  | unlocked : ServoState
  /-- the clock is to be stepped -/
  | jump : ServoState
  /-- tracking the master -/
  | locked : ServoState
  /-- tracking the master, stable -/
  | lockedStable : ServoState
  deriving DecidableEq

/-- The data of `struct servo`. The thresholds are in nanoseconds, and zero where they are off;
`firstUpdate` is set until a sample is locked or steps the clock. -/
structure ServoBase (D : Type) where
  maxFrequency : D
  stepThreshold : D
  firstStepThreshold : D
  /-- the clock was not adjusted yet -/
  firstUpdate : Bool
  offsetThreshold : Int64
  numOffsetValues : Int
  /-- samples below the threshold that are missing for a stable lock -/
  currOffsetValues : Int

/-- The functions of `struct servo`, for a servo with state `σ`. The last two can be null, which
`servo_rate_ratio` and `servo_leap` test. -/
structure ServoOps (D σ : Type) where
  /-- offset, local time stamp and weight of a sample; the correction in ppb and the state -/
  sample : ServoBase D → σ → Int64 → UInt64 → D → D × ServoState × σ
  syncInterval : σ → D → σ
  reset : σ → σ
  rateRatio : Option (σ → D)
  leap : Option (σ → Int → σ)

/-- `struct servo`. -/
structure Servo (D σ : Type) where
  base : ServoBase D
  inner : σ

variable {D σ : Type} [CDouble D]

/-- `NSEC_PER_SEC` -/
def NSEC_PER_SEC : ℚ := 1000000000

/-- A magnitude as it is compared with a threshold. -/
def absOffset (offset : Int64) : D := CDouble.ofInt (llabs offset).toInt

/-- The offset calls for a step of the clock, in the first update or in any. A threshold of zero
calls for none. -/
def exceedsStepThreshold (base : ServoBase D) (magnitude : D) : Bool :=
  (base.firstUpdate && CDouble.truthy base.firstStepThreshold &&
      CDouble.lt base.firstStepThreshold magnitude) ||
    (CDouble.truthy base.stepThreshold && CDouble.lt base.stepThreshold magnitude)

/-- A value limited to the maximum frequency on either side. -/
def clampFrequency (base : ServoBase D) (x : D) : D :=
  if CDouble.lt x (-base.maxFrequency) then -base.maxFrequency
  else if CDouble.lt base.maxFrequency x then base.maxFrequency
  else x

/-- `check_offset_threshold` -/
def checkOffsetThreshold (s : ServoBase D) (offset : Int64) : Bool × ServoBase D :=
  let absOffset := llabs offset
  if s.offsetThreshold ≠ 0 then
    let s :=
      if absOffset < s.offsetThreshold ∧ s.currOffsetValues ≠ 0 then
        { s with currOffsetValues := s.currOffsetValues - 1 }
      else s
    (s.currOffsetValues = 0, s)
  else (false, s)

/-- `servo_sample` -/
def servoSample (ops : ServoOps D σ) (servo : Servo D σ) (offset : Int64) (localTs : UInt64)
    (weight : D) : D × ServoState × Servo D σ :=
  let (r, state, inner) := ops.sample servo.base servo.inner offset localTs weight
  match state with
  | .unlocked =>
    (r, .unlocked,
      { base := { servo.base with currOffsetValues := servo.base.numOffsetValues }, inner })
  | .jump =>
    (r, .jump,
      { base := { servo.base with
          currOffsetValues := servo.base.numOffsetValues, firstUpdate := false }, inner })
  | .locked =>
    let (stable, base) := checkOffsetThreshold servo.base offset
    (r, if stable then .lockedStable else .locked,
      { base := { base with firstUpdate := false }, inner })
  | .lockedStable => (r, .lockedStable, { servo with inner })

/-- `servo_sync_interval` -/
def servoSyncInterval (ops : ServoOps D σ) (servo : Servo D σ) (interval : D) : Servo D σ :=
  { servo with inner := ops.syncInterval servo.inner interval }

/-- `servo_reset` -/
def servoReset (ops : ServoOps D σ) (servo : Servo D σ) : Servo D σ :=
  { servo with inner := ops.reset servo.inner }

/-- `servo_rate_ratio` -/
def servoRateRatio (ops : ServoOps D σ) (servo : Servo D σ) : D :=
  match ops.rateRatio with
  | some rateRatio => rateRatio servo.inner
  | none => CDouble.lit 1

/-- `servo_leap` -/
def servoLeap (ops : ServoOps D σ) (servo : Servo D σ) (leap : Int) : Servo D σ :=
  match ops.leap with
  | some f => { servo with inner := f servo.inner leap }
  | none => servo

/-! ## What a sample does around the servo's own function -/

omit [CDouble D] in
/-- Checking the threshold counts, and changes nothing else. -/
theorem checkOffsetThreshold_frame (s : ServoBase D) (offset : Int64) :
    ∃ n, (checkOffsetThreshold s offset).2 = { s with currOffsetValues := n } := by
  simp only [checkOffsetThreshold]
  split_ifs <;> exact ⟨_, rfl⟩

/-- The state that is reported: a stable lock is a lock whose threshold check succeeds. The servo
itself is not told, so that it corrects the frequency as in any lock. -/
def reportedState (base : ServoBase D) (offset : Int64) (state : ServoState) : ServoState :=
  if state = .locked ∧ (checkOffsetThreshold base offset).1 then .lockedStable else state

omit [CDouble D] in
theorem reportedState_eq_unlocked {base : ServoBase D} {offset : Int64} {state : ServoState} :
    reportedState base offset state = .unlocked ↔ state = .unlocked := by
  rw [reportedState]
  split
  · next hstable => simp [hstable.1]
  · exact Iff.rfl

/-- The common part of the servo after a sample. -/
def baseAfter (base : ServoBase D) (offset : Int64) : ServoState → ServoBase D
  | .unlocked => { base with currOffsetValues := base.numOffsetValues }
  | .jump => { base with currOffsetValues := base.numOffsetValues, firstUpdate := false }
  | .locked => { (checkOffsetThreshold base offset).2 with firstUpdate := false }
  | .lockedStable => base

omit [CDouble D] in
/-- A sample leaves the limits and the thresholds of the servo as they are. -/
theorem baseAfter_frame (base : ServoBase D) (offset : Int64) (state : ServoState) :
    ∃ n update, baseAfter base offset state =
      { base with currOffsetValues := n, firstUpdate := update } := by
  cases state with
  | locked =>
    obtain ⟨n, hcheck⟩ := checkOffsetThreshold_frame base offset
    exact ⟨n, false, by rw [baseAfter, hcheck]⟩
  | unlocked | jump | lockedStable => exact ⟨_, _, rfl⟩

omit [CDouble D] in
@[simp] theorem baseAfter_maxFrequency (base : ServoBase D) (offset : Int64)
    (state : ServoState) : (baseAfter base offset state).maxFrequency = base.maxFrequency := by
  obtain ⟨n, update, hbase⟩ := baseAfter_frame base offset state
  rw [hbase]

omit [CDouble D] in
@[simp] theorem baseAfter_offsetThreshold (base : ServoBase D) (offset : Int64)
    (state : ServoState) :
    (baseAfter base offset state).offsetThreshold = base.offsetThreshold := by
  obtain ⟨n, update, hbase⟩ := baseAfter_frame base offset state
  rw [hbase]

omit [CDouble D] in
/-- Without a threshold no lock is stable. -/
theorem checkOffsetThreshold_zero {base : ServoBase D} (h : base.offsetThreshold = 0)
    (offset : Int64) : (checkOffsetThreshold base offset).1 = false := by
  simp only [checkOffsetThreshold, h, ne_eq, not_true_eq_false, if_false]

omit [CDouble D] in
/-- **One sample.** The correction and the servo's own state are those of its sample function; the
common part only counts the samples below the threshold, and forgets that there was no update. -/
theorem servoSample_eq (ops : ServoOps D σ) (servo : Servo D σ) (offset : Int64)
    (localTs : UInt64) (weight : D) {r : D} {state : ServoState} {inner : σ}
    (h : ops.sample servo.base servo.inner offset localTs weight = (r, state, inner)) :
    servoSample ops servo offset localTs weight =
      (r, reportedState servo.base offset state, ⟨baseAfter servo.base offset state, inner⟩) := by
  rw [servoSample]
  rw [h]
  cases state with
  | locked => simp only [reportedState, true_and, baseAfter]
  | _ => rfl

omit [CDouble D] in
/-- Without the detection of stable locks the state is the servo's own. -/
theorem servoSample_of_zero (ops : ServoOps D σ) {servo : Servo D σ}
    (hzero : servo.base.offsetThreshold = 0) {offset : Int64} {localTs : UInt64} {weight r : D}
    {state : ServoState} {inner : σ}
    (h : ops.sample servo.base servo.inner offset localTs weight = (r, state, inner)) :
    servoSample ops servo offset localTs weight =
      (r, state, ⟨baseAfter servo.base offset state, inner⟩) := by
  have hreported : reportedState servo.base offset state = state := by
    rw [reportedState, if_neg]
    rintro ⟨-, hstable⟩
    rw [checkOffsetThreshold_zero hzero] at hstable
    cases hstable
  rw [servoSample_eq ops servo offset localTs weight h, hreported]

end ExternalServo
