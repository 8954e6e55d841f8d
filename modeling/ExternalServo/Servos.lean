import ExternalServo.Pi
import ExternalServo.Linreg

/-!
# The servos that exist (`ntpshm.c`, `servo_create`)

Besides the PI and the regression servo there is one that adjusts nothing: it hands its
samples to another process, through a shared memory segment. `Inner` is the state of any
of the three, `servoOps` its table of functions and `servoCreate` the constructor.
-/

namespace ExternalServo

open CArith

/-! ## The shared memory servo -/

/-- `struct shmTime`, with the fields the servo writes: the segment that a reader in another process
sees. The count is incremented before and after each sample, which tells the reader whether it
changed meanwhile. -/
structure ShmTime where
  mode : Int
  count : Int32
  clockTimeStampSec : Nat
  clockTimeStampUSec : Nat
  receiveTimeStampSec : Nat
  receiveTimeStampUSec : Nat
  leap : Int
  precision : Int
  valid : Int
  clockTimeStampNSec : Nat
  receiveTimeStampNSec : Nat
  deriving DecidableEq

/-- `struct ntpshm_servo`, after the common part. -/
structure NtpshmServo where
  /-- the attached segment -/
  shm : ShmTime
  leap : Int
  deriving DecidableEq

/-- `NS_PER_SEC` -/
def NS_PER_SEC : Nat := 1000000000

/-- `LEAP_NORMAL` -/
def LEAP_NORMAL : Int := 0

/-- `LEAP_INSERT` -/
def LEAP_INSERT : Int := 1

/-- `LEAP_DELETE` -/
def LEAP_DELETE : Int := 2

/-- `SHMKEY` -/
def SHMKEY : Int := 0x4e545030

variable {D : Type} [CDouble D]

/-- `ntpshm_sample` -/
def ntpshmSample (_ : ServoBase D) (s : NtpshmServo) (offset : Int64) (localTs : UInt64)
    (_ : D) : D × ServoState × NtpshmServo :=
  let clockTs := (localTs - offset.toUInt64).toNat
  let localTs := localTs.toNat
  let shm : ShmTime :=
    { mode := 1
      -- counted before and after the write
      count := s.shm.count + 1 + 1
      clockTimeStampSec := clockTs / NS_PER_SEC
      clockTimeStampNSec := clockTs % NS_PER_SEC
      clockTimeStampUSec := clockTs % NS_PER_SEC / 1000
      receiveTimeStampSec := localTs / NS_PER_SEC
      receiveTimeStampNSec := localTs % NS_PER_SEC
      receiveTimeStampUSec := localTs % NS_PER_SEC / 1000
      precision := -30
      leap := if s.leap = -1 then LEAP_DELETE else if s.leap = 1 then LEAP_INSERT else LEAP_NORMAL
      valid := 1 }
  (CDouble.lit 0, .unlocked, { s with shm })

/-- `ntpshm_leap` -/
def ntpshmLeap (s : NtpshmServo) (leap : Int) : NtpshmServo := { s with leap }

/-- `ntpshm_servo_create`, after the allocation: it fails if the segment of a key cannot be
attached. -/
def ntpshmServoCreate (attach : Int → Option ShmTime) (cfg : ServoConfig D) :
    Option NtpshmServo :=
  (attach (SHMKEY + cfg.ntpshmSegment)).map fun shm => { shm, leap := 0 }

/-- The functions of a shared memory servo; `ntpshm_sync_interval` and `ntpshm_reset` are empty. -/
def ntpshmOps : ServoOps D NtpshmServo :=
  { sample := ntpshmSample, syncInterval := fun s _ => s, reset := fun s => s, rateRatio := none,
    leap := some ntpshmLeap }

/-! ## Any servo -/

/-- The state of a servo, after the common part: which of the three it is says what its functions
are. -/
inductive Inner (D : Type) : Type where
  | pi : PiServo D → Inner D
  | linreg : LinregServo D → Inner D
  | ntpshm : NtpshmServo → Inner D

/-- The functions of a servo, by the constructor that made it. A function that is null for one of
them does what its caller does without it: a rate ratio of one, and nothing for a leap second. -/
def servoOps (pow : D → D → D) : ServoOps D (Inner D) :=
  { sample := fun servo inner offset localTs weight =>
      match inner with
      | .pi s =>
        let (r, state, s) := (piOps pow).sample servo s offset localTs weight
        (r, state, .pi s)
      | .linreg s =>
        let (r, state, s) := linregOps.sample servo s offset localTs weight
        (r, state, .linreg s)
      | .ntpshm s =>
        let (r, state, s) := ntpshmOps.sample servo s offset localTs weight
        (r, state, .ntpshm s)
    syncInterval := fun inner interval =>
      match inner with
      | .pi s => .pi ((piOps pow).syncInterval s interval)
      | .linreg s => .linreg (linregOps.syncInterval s interval)
      | .ntpshm s => .ntpshm ((ntpshmOps (D := D)).syncInterval s interval)
    reset := fun inner =>
      match inner with
      | .pi s => .pi ((piOps pow).reset s)
      | .linreg s => .linreg (linregOps.reset s)
      | .ntpshm s => .ntpshm ((ntpshmOps (D := D)).reset s)
    rateRatio := some fun inner =>
      match inner with
      | .pi s => (piOps pow).rateRatio.elim (CDouble.lit 1) fun rateRatio => rateRatio s
      | .linreg s => linregOps.rateRatio.elim (CDouble.lit 1) fun rateRatio => rateRatio s
      | .ntpshm s => ntpshmOps.rateRatio.elim (CDouble.lit 1) fun rateRatio => rateRatio s
    leap := some fun inner leap =>
      match inner with
      | .pi s => .pi ((piOps pow).leap.elim s fun f => f s leap)
      | .linreg s => .linreg (linregOps.leap.elim s fun f => f s leap)
      | .ntpshm s => .ntpshm ((ntpshmOps (D := D)).leap.elim s fun f => f s leap) }

/-- No servo reports a stable lock by itself. -/
theorem servoOps_state (pow : D → D → D) (servo : ServoBase D) (inner : Inner D) (offset : Int64)
    (localTs : UInt64) (weight : D) :
    ((servoOps pow).sample servo inner offset localTs weight).2.1 ≠ .lockedStable := by
  cases inner with
  | pi s => exact piSample_state servo s offset localTs weight
  | linreg s => exact linregSample_state servo s offset localTs weight
  | ntpshm s => nofun

/-- A threshold in nanoseconds; one that is not positive is off. -/
def thresholdNs (threshold : D) : D :=
  if CDouble.lt (CDouble.lit 0) threshold then threshold * CDouble.lit NSEC_PER_SEC
  else CDouble.lit 0

/-- The maximum frequency of a servo: that of the configuration, without its fraction. -/
def servoMaxFrequency (cfg : ServoConfig D) : D :=
  let servoMaxFrequency := CDouble.toInt32 cfg.maxFrequency
  if servoMaxFrequency ≠ 0 ∧ CDouble.lt (CDouble.ofInt servoMaxFrequency) cfg.maxFrequency then
    CDouble.ofInt servoMaxFrequency
  else cfg.maxFrequency

/-- What the environment grants a constructor: zeroed memory and shared memory segments. -/
structure ServoEnv where
  /-- `calloc` succeeds -/
  allocates : Bool
  /-- `shmget` and `shmat` -/
  attach : Int → Option ShmTime

/-- `servo_create` -/
def servoCreate (env : ServoEnv) (cfg : ServoConfig D) : Option (Servo D (Inner D)) :=
  let inner : Option (Inner D) :=
    if !env.allocates then none
    else if cfg.type = 0 then some (.pi (piServoCreate cfg))
    else if cfg.type = 1 then some (.linreg (linregServoCreate cfg))
    else if cfg.type = 2 then (ntpshmServoCreate env.attach cfg).map .ntpshm
    else none
  inner.map fun inner =>
    { base :=
        { maxFrequency := servoMaxFrequency cfg
          stepThreshold := thresholdNs cfg.stepThreshold
          firstStepThreshold := thresholdNs cfg.firstStepThreshold
          firstUpdate := true
          offsetThreshold := cfg.offsetThreshold
          numOffsetValues := cfg.numOffsetValues
          currOffsetValues := cfg.numOffsetValues }
      inner }

/-! ## Runs -/

/-- A call on a servo. -/
inductive ServoCall (D : Type) : Type where
  /-- `servo_sample` -/
  | sample (offset : Int64) (localTs : UInt64) (weight : D) : ServoCall D
  /-- `servo_sync_interval` -/
  | syncInterval (interval : D) : ServoCall D
  /-- `servo_reset` -/
  | reset : ServoCall D

/-- The servo after a call; no call can fault. A run of a servo is a run of this step over any list
of calls. -/
def servoStep (pow : D → D → D) (servo : Servo D (Inner D)) :
    ServoCall D → Except Fault (Servo D (Inner D))
  | .sample offset localTs weight =>
    .ok (servoSample (servoOps pow) servo offset localTs weight).2.2
  | .syncInterval interval => .ok (servoSyncInterval (servoOps pow) servo interval)
  | .reset => .ok (servoReset (servoOps pow) servo)

end ExternalServo
