import ExternalServo.Servos
import ExternalServo.Runs

/-!
# Calls on a servo

The functions of `servo.h` that change a servo, as the inputs of a system that cannot fault, and
what its caller sees of them: the offset and the time of a sample with the state that is reported
for it. What a run shows is a list of `Seen`, the history of the servo.
-/

namespace ExternalServo

open CArith Runs

variable {D σ : Type} [CDouble D]

/-- A call on a servo. -/
inductive Call (D : Type) : Type where
  /-- `servo_sample` -/
  | sample (offset : Int64) (localTs : UInt64) (weight : D) : Call D
  /-- `servo_sync_interval` -/
  | syncInterval (interval : D) : Call D
  /-- `servo_reset` -/
  | reset : Call D
  /-- `servo_leap` -/
  | leap (leap : Int) : Call D

/-- What is seen of a call. A history of these is what the theorems about runs of a servo speak of,
and no field of the servo is in it. -/
inductive Seen : Type where
  /-- a sample: the state of the servo's own sample function, and the state that is reported -/
  | sampled (offset : Int64) (localTs : UInt64) (own reported : ServoState) : Seen
  /-- a reset -/
  | reset : Seen
  /-- a new sync interval, or a leap second -/
  | set : Seen
  deriving DecidableEq

/-- The servo after a call, and what is seen of it. The state of the servo's own sample function is
seen next to the one that is reported, which can be a stable lock instead of a lock. -/
def servoCall (ops : ServoOps D σ) (servo : Servo D σ) : Call D → Servo D σ × Seen
  | .sample offset localTs weight =>
    let own := (ops.sample servo.base servo.inner offset localTs weight).2.1
    let (_, reported, servo) := servoSample ops servo offset localTs weight
    (servo, .sampled offset localTs own reported)
  | .syncInterval interval => (servoSyncInterval ops servo interval, .set)
  | .reset => (servoReset ops servo, .reset)
  | .leap leap => (servoLeap ops servo leap, .set)

/-- The offset of a sample is one that has a magnitude. The least `int64_t` is not: `llabs` leaves
it negative. An offset of decoded times is far from it. -/
def HasMagnitude : Call D → Prop
  | .sample offset _ _ => offset ≠ Int64.minValue
  | .syncInterval _ | .reset | .leap _ => True

instance : (call : Call D) → Decidable (HasMagnitude call)
  | .sample _ _ _ => inferInstanceAs (Decidable (_ ≠ _))
  | .syncInterval _ | .reset | .leap _ => isTrue trivial

/-- The state that is reported, for a sample. -/
def Seen.result : Seen → Option ServoState
  | .sampled _ _ _ reported => some reported
  | .reset | .set => none

omit [CDouble D] in
/-- A sample, by the servo's own sample function. -/
theorem servoCall_sample (ops : ServoOps D σ) (servo : Servo D σ) (offset : Int64)
    (localTs : UInt64) (weight : D) {r : D} {state : ServoState} {inner : σ}
    (h : ops.sample servo.base servo.inner offset localTs weight = (r, state, inner)) :
    servoCall ops servo (.sample offset localTs weight) =
      (⟨baseAfter servo.base offset state, inner⟩,
        .sampled offset localTs state (reportedState servo.base offset state)) := by
  rw [servoCall, servoSample_eq ops servo offset localTs weight h, h]

/-- A sample of a PI servo. -/
theorem servoCall_pi (pow : D → D → D) (base : ServoBase D) (s : PiServo D) (offset : Int64)
    (localTs : UInt64) (weight : D) :
    servoCall (servoOps pow) ⟨base, .pi s⟩ (.sample offset localTs weight) =
      (⟨baseAfter base offset (piSample base s offset localTs weight).2.1,
          .pi (piSample base s offset localTs weight).2.2⟩,
        .sampled offset localTs (piSample base s offset localTs weight).2.1
          (reportedState base offset (piSample base s offset localTs weight).2.1)) := by
  apply servoCall_sample (servoOps pow) ⟨base, .pi s⟩ offset localTs weight
  rfl

omit [CDouble D] in
/-- Only a sample changes what all servos have in common. -/
theorem servoCall_base (ops : ServoOps D σ) (servo : Servo D σ) {call : Call D}
    (h : ∀ offset localTs weight, call ≠ .sample offset localTs weight) :
    (servoCall ops servo call).1.base = servo.base := by
  cases call with
  | sample offset localTs weight => exact absurd rfl (h offset localTs weight)
  | syncInterval interval => rfl
  | reset => rfl
  | leap leap =>
    rw [servoCall, servoLeap]
    split <;> rfl

/-- The common part of a servo that was just created, by its settings. -/
theorem servoCreate_base {env : ServoEnv} {cfg : ServoConfig D} {servo : Servo D (Inner D)}
    (h : servoCreate env cfg = some servo) :
    servo.base =
      { maxFrequency := servoMaxFrequency cfg, stepThreshold := thresholdNs cfg.stepThreshold,
        firstStepThreshold := thresholdNs cfg.firstStepThreshold, firstUpdate := true,
        offsetThreshold := cfg.offsetThreshold, numOffsetValues := cfg.numOffsetValues,
        currOffsetValues := cfg.numOffsetValues } := by
  obtain ⟨inner, -, rfl⟩ := Option.map_eq_some_iff.mp h
  rfl

/-- A PI servo that was just created. -/
theorem servoCreate_pi {env : ServoEnv} {cfg : ServoConfig D} {base : ServoBase D} {s : PiServo D}
    (h : servoCreate env cfg = some ⟨base, .pi s⟩) : s = piServoCreate cfg := by
  obtain ⟨inner, hinner, heq⟩ := Option.map_eq_some_iff.mp h
  obtain rfl : inner = .pi s := congrArg Servo.inner heq
  split_ifs at hinner
  · exact (Inner.pi.inj (Option.some.inj hinner)).symm
  · cases hinner
  · obtain ⟨shm, -, heq⟩ := Option.map_eq_some_iff.mp hinner
    cases heq

end ExternalServo
