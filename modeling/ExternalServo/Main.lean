import ExternalServo.Servos
import ExternalServo.ClockAdj
import ExternalServo.Msg
import ExternalServo.Tsproc
import ExternalServo.ConfigParser
import ExternalServo.Runs

/-!
# The program (`main.c`)

* `startup` — from the parsed configuration to the receive loop: clocks are opened, the
  time stamp processor and the servo are created.
* `clockUpdate`, `pathDelay` — what a sync and a delay message do to the processor, the
  servo and the clocks. These three are `Sys`; the adjustments made are kept in the order
  they were made in.
* `receive` — the receiving half of an iteration of the loop, on the locals of `main`: the
  buffer is filled from its start, decoded, and the message type selects a `Handler`.
* `loopStep` — an iteration.

What the program gets from its system at start-up is a `Host`.
-/

namespace ExternalServo

open CArith

/-! ## Start-up -/

/-- The answers of the system at start-up: whether memory is granted, what the socket and the
devices are opened as, and what the clocks report about themselves. Each is a function of what it is
asked, and nothing is assumed of it. -/
structure Host where
  /-- memory and shared memory for the servo -/
  servoEnv : ServoEnv
  /-- memory for the time stamp processor -/
  grants : Nat → Bool
  /-- `uds_create`: a socket, or a negative value -/
  udsCreate : List UInt8 → Int
  /-- `open` of a device: a descriptor, or a negative value -/
  openDevice : List UInt8 → Int
  /-- `PTP_CLOCK_GETCAPS` of a clock: the result and `max_adj` -/
  getCaps : Int → Int × Int32
  /-- `max_adj` before it is written -/
  caps : Int32
  /-- `sysconf(_SC_CLK_TCK)` -/
  clkTck : Int
  /-- the system clock as `phc_caps_get` reads it -/
  capsReading : Option Timex
  /-- the system clock as it is read after `clockadj_init` -/
  maxReading : Option Timex
  /-- a clock as its frequency is read -/
  freqReading : Int → Option Timex

/-- A string in a buffer. -/
def cString (buffer : List UInt8) : List UInt8 := buffer.takeWhile fun b => b != 0

/-- `phc_init` -/
def phcInit (host : Host) (deviceName : List UInt8) : Int :=
  let fd := host.openDevice deviceName
  if fd < 0 then CLOCK_INVALID else fdToClockid fd

/-- `device_init`: `none` if a device cannot be opened. -/
def deviceInit (host : Host) (dev : DeviceConfig) : Option DeviceConfig :=
  let freqDevice := cString dev.freqDevice
  let todDevice := cString dev.todDevice
  if freqDevice = [] ∧ todDevice = [] then
    some { dev with freqClkId := CLOCK_REALTIME, todClkId := CLOCK_REALTIME }
  else if freqDevice = todDevice then
    -- the same device is controlled for frequency, phase and time of day
    let clockId := phcInit host freqDevice
    if clockId = CLOCK_INVALID then none
    else some { dev with freqClkId := clockId, todClkId := clockId }
  else
    let clockId := phcInit host todDevice
    if clockId = CLOCK_INVALID then none
    else
      let dev := { dev with todClkId := clockId }
      let clockId := phcInit host freqDevice
      if clockId = CLOCK_INVALID then none else some { dev with freqClkId := clockId }

/-- `phc_caps_get`: the result and `max_adj`. -/
def phcCapsGet (D : Type) [CDouble D] (host : Host) (clkid : Int) : Int × Int32 :=
  if clkid = CLOCK_REALTIME then
    -- before `clockadj_init`
    (0, clockadjMaxFreq D {} CLOCK_REALTIME host.capsReading)
  else if clkid ≠ CLOCK_INVALID then host.getCaps clkid
  else (0, host.caps)

/-- What the messages act on: the time stamp processor, the servo and the clocks. The clocks are
known by the adjustments that were made of them, in order. -/
structure Sys (D σ : Type) where
  tsp : Tsproc D
  servo : Servo D σ
  /-- the adjustments made so far -/
  calls : List (ClockCall D)

/-- The program when it enters the receive loop, with what the start left in its variables. -/
structure Program (D : Type) where
  device : DeviceConfig
  statics : ClockStatics
  /-- the maximum adjustment of the clock that is controlled, in ppb -/
  maxAdj : Int32
  sys : Sys D (Inner D)

variable {D σ : Type} [CDouble D]

/-- The maximum adjustment of the hardware, and the static variables of `clockadj.c` after it was
found. For the system clock it is read again after `clockadj_init`, as the ticks that it is computed
from are known only then. -/
def hardwareLimit (D : Type) [CDouble D] (host : Host) (dev : DeviceConfig) :
    Option (Int32 × ClockStatics) :=
  let (rv, maxAdj) := phcCapsGet D host dev.freqClkId
  if rv < 0 then none
  else if dev.todClkId = CLOCK_REALTIME then
    let statics := clockadjInit {} dev.todClkId host.clkTck
    let maxAdj := clockadjMaxFreq D statics CLOCK_REALTIME host.maxReading
    some (maxAdj, (sysclkSetLeap statics 0).2)
  else some (maxAdj, {})

/-- The servo of the program, with the maximum adjustment and the frequency of the clock. The
configured maximum is overwritten by that of the hardware, whatever it was. -/
def startServo (pow : D → D → D) (env : ServoEnv) (cfg : ServoConfig D) (maxAdj : Int32)
    (fadj : D) : Option (Servo D (Inner D)) :=
  let cfg := { cfg with
    maxFrequency := CDouble.ofInt maxAdj.toInt, intialAdj := CDouble.toInt32 (-fadj) }
  -- the sync interval is `1 << 0`
  (servoCreate env cfg).map fun servo => servoSyncInterval (servoOps pow) servo (CDouble.ofInt 1)

/-- `main`, from the parsed configuration to the receive loop: `none` if the program ends. -/
def startup (pow : D → D → D) (host : Host) (globals : Globals D) : Option (Program D) := do
  let dev := globals.deviceConfig
  let fd := host.udsCreate dev.udsAddress
  guard (0 ≤ fd)
  let dev ← deviceInit host { dev with fd }
  let tsp ← tsprocCreate host.grants dev.mode dev.filter dev.filterLen
  let (maxAdj, statics) ← hardwareLimit D host dev
  let fadj ← clockadjGetFreq statics dev.freqClkId (host.freqReading dev.freqClkId)
  let servo ← startServo pow host.servoEnv globals.servoConfig maxAdj fadj
  let setLeap := if dev.todClkId = CLOCK_REALTIME then [.setLeap 0] else []
  return { device := dev, statics, maxAdj,
           sys := { tsp, servo, calls := setLeap ++ [.setFreq dev.freqClkId fadj] } }

/-! ## Messages -/

/-- The adjustments for a sample, by the state the servo reports. A step is preceded by the
frequency, and a stable lock hands the frequency to the phase adjustment of the clock. -/
def corrections (dev : DeviceConfig) (state : ServoState) (adj : D) (offset : Int64) :
    List (ClockCall D) :=
  let setSync : List (ClockCall D) := if dev.freqClkId = CLOCK_REALTIME then [.setSync] else []
  match state with
  | .unlocked => []
  | .jump => [.setFreq dev.freqClkId (-adj), .step dev.todClkId (-offset)]
  | .locked => .setFreq dev.freqClkId (-adj) :: setSync
  -- the correction is converted to `long`
  | .lockedStable => .setPhase dev.freqClkId (CDouble.toInt64 (-adj)) :: setSync

/-- `clock_update` -/
def clockUpdate (ops : ServoOps D σ) (dev : DeviceConfig) (sys : Sys D σ) (t1 t2 : Int64) :
    Except Fault (Sys D σ) :=
  let remoteTs : Tmv := ⟨t1⟩
  let localTs : Tmv := ⟨t2⟩
  let tsp := tsprocDownTs sys.tsp remoteTs localTs
  match tsprocUpdateOffset tsp with
  | none => .ok { sys with tsp }
  | some (masterOffset, weight) => do
    let offset := tmvToNanoseconds masterOffset
    let (adj, state, servo) :=
      servoSample ops sys.servo offset (tmvToNanoseconds localTs).toUInt64 weight
    let tsp := tsprocSetClockRateRatio tsp (servoRateRatio ops servo)
    let tsp ← if state = .jump then tsprocReset tsp false else .ok tsp
    return { tsp, servo, calls := sys.calls ++ corrections dev state adj offset }

/-- Without the measurements that the mode needs, a sync message is only stored. -/
theorem clockUpdate_of_none {ops : ServoOps D σ} {dev : DeviceConfig} {sys : Sys D σ}
    {t1 t2 : Int64} (h : tsprocUpdateOffset (tsprocDownTs sys.tsp ⟨t1⟩ ⟨t2⟩) = none) :
    clockUpdate ops dev sys t1 t2 = .ok { sys with tsp := tsprocDownTs sys.tsp ⟨t1⟩ ⟨t2⟩ } := by
  simp only [clockUpdate, h]

/-- The processor after a sample: it forgets the measurements from before a step of the clock. -/
def afterSample (tsp : Tsproc D) (clockRateRatio : D) (state : ServoState) : Tsproc D :=
  let tsp := tsprocSetClockRateRatio tsp clockRateRatio
  if state = .jump then { tsp with t1 := tmvZero, t2 := tmvZero, t3 := tmvZero, t4 := tmvZero }
  else tsp

/-- A sync message that is a sample of the servo. -/
theorem clockUpdate_of_some {ops : ServoOps D σ} {dev : DeviceConfig} {sys : Sys D σ}
    {t1 t2 : Int64} {masterOffset : Tmv} {weight adj : D} {state : ServoState}
    {servo : Servo D σ}
    (h : tsprocUpdateOffset (tsprocDownTs sys.tsp ⟨t1⟩ ⟨t2⟩) = some (masterOffset, weight))
    (hsample : servoSample ops sys.servo masterOffset.ns t2.toUInt64 weight =
      (adj, state, servo)) :
    clockUpdate ops dev sys t1 t2 =
      .ok { tsp := afterSample (tsprocDownTs sys.tsp ⟨t1⟩ ⟨t2⟩) (servoRateRatio ops servo) state
            servo
            calls := sys.calls ++ corrections dev state adj masterOffset.ns } := by
  simp only [clockUpdate, h, tmvToNanoseconds, hsample, afterSample]
  split <;> rfl

/-- `path_delay` -/
def pathDelay (sys : Sys D σ) (t3 t4 : Int64) : Except Fault (Sys D σ) := do
  let tsp := tsprocUpTs sys.tsp ⟨t3⟩ ⟨t4⟩
  let (_, tsp) ← tsprocUpdateDelay tsp
  return { sys with tsp }

/-- A call that a message leads to. The order of the two times is that of the arguments, which the
two functions take in opposite orders. -/
inductive Handler : Type where
  /-- `clock_update` of the master's and the slave's time -/
  | clockUpdate (masterTime slaveTime : Int64) : Handler
  /-- `path_delay` of the slave's and the master's time -/
  | pathDelay (slaveTime masterTime : Int64) : Handler
  deriving DecidableEq

/-- The effect of a call. -/
def handle (ops : ServoOps D σ) (dev : DeviceConfig) (sys : Sys D σ) :
    Handler → Except Fault (Sys D σ)
  | .clockUpdate masterTime slaveTime => clockUpdate ops dev sys masterTime slaveTime
  | .pathDelay slaveTime masterTime => pathDelay sys slaveTime masterTime

/-! ## The receive loop -/

/-- `MAX_PKT_LEN` -/
def MAX_PKT_LEN : Nat := 1500

/-- The array `data` of `main`. It is never cleared, so that a datagram overwrites the first bytes
of what was there. -/
structure Buffer where
  bytes : List UInt8
  length_eq : bytes.length = MAX_PKT_LEN

/-- A datagram as it is delivered: one that is longer than the buffer is cut off. -/
structure Datagram where
  bytes : List UInt8
  length_le : bytes.length ≤ MAX_PKT_LEN

/-- What `uds_recv` does. A failure and a datagram both lead to the same code, which tells them
apart by a count of 16 bits. -/
inductive Recv : Type where
  /-- it returns -1 -/
  | failed : Recv
  /-- it delivers a datagram and returns its length -/
  | delivered (datagram : Datagram) : Recv

/-- The result of `uds_recv`. -/
def Recv.result : Recv → Int
  | failed => -1
  | delivered datagram => datagram.bytes.length

/-- The buffer after `uds_recv`. -/
def Buffer.recv (data : Buffer) : Recv → Buffer
  | .failed => data
  | .delivered datagram =>
    { bytes := datagram.bytes ++ data.bytes.drop datagram.bytes.length
      length_eq := by
        rw [List.length_append, List.length_drop, data.length_eq]
        exact Nat.add_sub_cancel' datagram.length_le }

/-- The locals of `main` that live through the loop. -/
structure Locals where
  vars : LoopVars
  data : Buffer

/-- The `switch` over the message type. -/
def handlerOf (vars : LoopVars) : Option Handler :=
  if vars.msgType = TLV_SLAVE_RX_SYNC_TIMING_DATA then
    some (.clockUpdate vars.masterTime vars.slaveTime)
  else if vars.msgType = SLAVE_DELAY_TIMING_DATA_NP then
    some (.pathDelay vars.slaveTime vars.masterTime)
  else none

/-- Receiving: the locals afterwards, and the call that follows. -/
def receive (locals : Locals) (recv : Recv) : Locals × Option Handler :=
  let data := locals.data.recv recv
  -- the result is narrowed to `uint16_t`, so that a failure is not zero either
  let count := UInt16.ofInt recv.result
  if count ≠ 0 then
    let vars := processMessage data.bytes locals.vars
    ({ vars, data }, handlerOf vars)
  else ({ locals with data }, none)

/-- The effect of an iteration. -/
def effect (ops : ServoOps D σ) (dev : DeviceConfig) (sys : Sys D σ) :
    Option Handler → Except Fault (Sys D σ)
  | none => .ok sys
  | some handler => handle ops dev sys handler

/-- The state of the receive loop. -/
structure Loop (D σ : Type) where
  locals : Locals
  sys : Sys D σ

/-- What `poll` reports; a failure of it ends the program, and is the end of every run of events. -/
inductive Event : Type where
  /-- a time-out, or an event that is not waited for -/
  | idle : Event
  /-- the socket is readable -/
  | readable (recv : Recv) : Event

/-- An iteration of the receive loop. The servo functions are a parameter, as some results hold for
any servo; a fault of a handler ends the run. -/
def loopStep (ops : ServoOps D σ) (dev : DeviceConfig) (loop : Loop D σ) :
    Event → Except Fault (Loop D σ)
  | .idle => .ok loop
  | .readable recv =>
    let (locals, handler) := receive loop.locals recv
    (effect ops dev loop.sys handler).map fun sys => { locals, sys }

/-! ## A program -/

/-- The tokens of a block with scalar settings. -/
def blockTokens (name : String) (pairs : List (String × String)) : List YamlToken :=
  [.key, .scalar name, .value, .blockMappingStart] ++
    (pairs.flatMap fun (k, v) => [.key, .scalar k, .value, .scalar v]) ++ [.blockEnd]

/-- A configuration of a PI servo for one PTP clock, with a limit of 100 ppb and a stable lock after
two samples within a millisecond. -/
def sampleFile : YamlFile :=
  { tokens := [.streamStart, .blockMappingStart] ++
      blockTokens "servo" [("type", "pi"), ("max_frequency", "100"),
        ("servo_offset_threshold", "1000000"), ("servo_num_offset_values", "2"),
        ("pi_proportional_norm_max", "0.7"), ("pi_integral_norm_max", "0.3")] ++
      blockTokens "device" [("tod_device", "/dev/ptp0"), ("freq_device", "/dev/ptp0"),
        ("delay_filter", "moving_median"), ("delay_filter_length", "1")] ++ [.blockEnd]
    scanError := false
    noEnd := by decide }

/-- A system whose PTP clock can be adjusted by 500 ppm and is not adjusted yet. -/
def sampleHost : Host :=
  { servoEnv := { allocates := true, attach := fun _ => none }
    grants := fun _ => true, udsCreate := fun _ => 4, openDevice := fun _ => 5
    getCaps := fun _ => (0, 500000), caps := 0, clkTck := 100, capsReading := none,
    maxReading := none, freqReading := fun _ => some {} }

/-- The global variables after the configuration was accepted. -/
def sampleGlobals : Option (Globals XRat) :=
  match servoConfigParse (some sampleFile) true (globalsInit true) 100 with
  | some (.ok (0, globals)) => some globals
  | _ => none

/-- The program of the configuration on the system. -/
def sampleProgram : Option (Program XRat) := sampleGlobals.bind (startup powOne sampleHost)

end ExternalServo
