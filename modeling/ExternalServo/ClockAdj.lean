import ExternalServo.CDouble

/-!
# Adjusting a clock (`clockadj.c`)

What the program asks of the kernel through `clock_adjtime`. A request is a `Timex`; a
reading is a `Timex` that the kernel filled in, or `none` if the call failed. The three
static variables of the file are `ClockStatics`.

`ClockCall` lists the adjustments as `main.c` makes them, `ClockCall.request` what each
of them asks of the kernel.
-/

namespace ExternalServo

open CArith

/-! ## Clocks -/

/-- `CLOCK_REALTIME` -/
def CLOCK_REALTIME : Int := 0

/-- `CLOCK_INVALID` -/
def CLOCK_INVALID : Int := -1

/-- `FD_TO_CLOCKID`: the complement of the descriptor above the three bits of `CLOCKFD`. -/
def fdToClockid (fd : Int) : Int := (-fd - 1) * 8 + 3

/-! ## Requests -/

/-- `ADJ_OFFSET` -/
def ADJ_OFFSET : Nat := 0x0001

/-- `ADJ_FREQUENCY` -/
def ADJ_FREQUENCY : Nat := 0x0002

/-- `ADJ_MAXERROR` -/
def ADJ_MAXERROR : Nat := 0x0004

/-- `ADJ_STATUS` -/
def ADJ_STATUS : Nat := 0x0010

/-- `ADJ_SETOFFSET` -/
def ADJ_SETOFFSET : Nat := 0x0100

/-- `ADJ_NANO` -/
def ADJ_NANO : Nat := 0x2000

/-- `ADJ_TICK` -/
def ADJ_TICK : Nat := 0x4000

/-- `STA_INS` -/
def STA_INS : Int := 0x0010

/-- `STA_DEL` -/
def STA_DEL : Int := 0x0020

/-- `struct timex`, with the fields the program uses; zeroed by default, as the source zeroes the
structure before each request. The words are those of the target, 64 bits wide. -/
structure Timex where
  modes : Nat := 0
  /-- phase offset, in nanoseconds under `ADJ_NANO` -/
  offset : Int64 := 0
  /-- frequency, in units of `2 ^ -16` ppm -/
  freq : Int64 := 0
  status : Int := 0
  /-- largest frequency offset, in the same units -/
  tolerance : Int64 := 0
  /-- microseconds between clock ticks -/
  tick : Int64 := 0
  tvSec : Int64 := 0
  /-- microseconds, or nanoseconds under `ADJ_NANO` -/
  tvUsec : Int64 := 0
  deriving DecidableEq

/-- The static variables of `clockadj.c`. They stay zero unless the system clock is among the
clocks, for which `clockadj_init` reads the rate of its ticks. -/
structure ClockStatics where
  realtimeLeapBit : Int := 0
  realtimeHz : Int := 0
  realtimeNominalTick : Int := 0
  deriving DecidableEq

/-- `NS_PER_SEC` of `clockadj.c`. -/
def NS_PER_SEC_LL : Int64 := 1000000000

/-! ## Functions -/

/-- `clockadj_init`, with what `sysconf` says of `_SC_CLK_TCK`. -/
def clockadjInit (statics : ClockStatics) (clkid clkTck : Int) : ClockStatics :=
  if clkid = CLOCK_REALTIME then
    let statics := { statics with realtimeHz := clkTck }
    if 0 < statics.realtimeHz then
      { statics with
        realtimeNominalTick := (1000000 + statics.realtimeHz / 2) / statics.realtimeHz }
    else statics
  else statics

section Double

variable {D : Type} [CDouble D]

/-- The frequency that a tick off the nominal one contributes. The ticks are subtracted in the type
`long` before they are converted. -/
def tickFreq (statics : ClockStatics) (tick : Int64) : D :=
  CDouble.lit 1000 * CDouble.ofInt statics.realtimeHz *
    CDouble.ofInt (tick - Int64.ofInt statics.realtimeNominalTick).toInt

/-- `clockadj_set_freq` -/
def clockadjSetFreq (statics : ClockStatics) (clkid : Int) (freq : D) : Timex :=
  -- with the system clock set also the tick length
  let (tx, freq) : Timex × D :=
    if clkid = CLOCK_REALTIME ∧ statics.realtimeNominalTick ≠ 0 then
      let tick := CDouble.toInt64
        (CDouble.round (freq / CDouble.lit 1000 / CDouble.ofInt statics.realtimeHz) +
          CDouble.ofInt statics.realtimeNominalTick)
      ({ modes := ADJ_TICK, tick }, freq - tickFreq statics tick)
    else ({}, freq)
  { tx with
    modes := tx.modes ||| ADJ_FREQUENCY
    freq := CDouble.toInt64 (freq * CDouble.lit 65.536) }

/-- `clockadj_get_freq`; a failed reading ends the program. -/
def clockadjGetFreq (statics : ClockStatics) (clkid : Int) (reading : Option Timex) : Option D :=
  reading.map fun tx =>
    let f := CDouble.ofInt tx.freq.toInt / CDouble.lit 65.536
    if clkid = CLOCK_REALTIME ∧ statics.realtimeNominalTick ≠ 0 ∧ tx.tick ≠ 0 then
      f + tickFreq statics tx.tick
    else f

/-- `clockadj_max_freq`, over the type of `double` that its quotient is computed in. -/
def clockadjMaxFreq (D : Type) [CDouble D] (statics : ClockStatics) (clkid : Int)
    (reading : Option Timex) : Int32 :=
  let f : Int :=
    match reading with
    | some tx => CDouble.toInt32 (CDouble.ofInt tx.tolerance.toInt / CDouble.lit 65.536 : D)
    | none => 0
  let f := if f = 0 then 500000 else f
  -- the tick length can be adjusted, if it leaves no gap between the frequencies; the double of
  -- `f` is an `int`
  if clkid = CLOCK_REALTIME ∧ statics.realtimeNominalTick ≠ 0 ∧
      1000 * statics.realtimeHz ≤ (2 * f).bmod (2 ^ 32) then
    Int32.ofInt (statics.realtimeNominalTick / 10 * 1000 * statics.realtimeHz)
  else Int32.ofInt f

end Double

/-- `clockadj_set_phase` -/
def clockadjSetPhase (offset : Int64) : Timex := { modes := ADJ_OFFSET ||| ADJ_NANO, offset }

/-- `clockadj_step` -/
def clockadjStep (step : Int64) : Timex :=
  let (sign, step) : Int64 × Int64 := if step < 0 then (-1, step * -1) else (1, step)
  let tvSec := sign * (step / NS_PER_SEC_LL)
  let tvUsec := sign * (step % NS_PER_SEC_LL)
  -- the value is the sum of the fields, the lower one is never negative
  let (tvSec, tvUsec) := if tvUsec < 0 then (tvSec - 1, tvUsec + 1000000000) else (tvSec, tvUsec)
  { modes := ADJ_SETOFFSET ||| ADJ_NANO, tvSec, tvUsec }

/-- `sysclk_set_leap` -/
def sysclkSetLeap (statics : ClockStatics) (leap : Int) : Timex × ClockStatics :=
  let status := if leap = -1 then STA_DEL else if leap = 1 then STA_INS else 0
  ({ modes := ADJ_STATUS, status }, { statics with realtimeLeapBit := status })

/-- `sysclk_set_sync` -/
def sysclkSetSync (statics : ClockStatics) : Timex :=
  { modes := ADJ_STATUS ||| ADJ_MAXERROR, status := statics.realtimeLeapBit }

/-! ## Calls -/

/-- An adjustment of a clock. The trace of a run is a list of these calls, in their order; what the
kernel makes of them is not part of the program. -/
inductive ClockCall (D : Type) : Type where
  /-- `clockadj_set_freq`, in ppb -/
  | setFreq (clkid : Int) (freq : D) : ClockCall D
  /-- `clockadj_set_phase`, in nanoseconds -/
  | setPhase (clkid : Int) (offset : Int64) : ClockCall D
  /-- `clockadj_step`, in nanoseconds -/
  | step (clkid : Int) (ns : Int64) : ClockCall D
  /-- `sysclk_set_sync` -/
  | setSync : ClockCall D
  /-- `sysclk_set_leap` -/
  | setLeap (leap : Int) : ClockCall D

/-- The clock and the request of a call: what reaches the kernel, with the words that the
frequencies and times were converted to. -/
def ClockCall.request {D : Type} [CDouble D] (statics : ClockStatics) :
    ClockCall D → Int × Timex
  | .setFreq clkid freq => (clkid, clockadjSetFreq statics clkid freq)
  | .setPhase clkid offset => (clkid, clockadjSetPhase offset)
  | .step clkid ns => (clkid, clockadjStep ns)
  | .setSync => (CLOCK_REALTIME, sysclkSetSync statics)
  | .setLeap leap => (CLOCK_REALTIME, (sysclkSetLeap statics leap).1)

end ExternalServo
