import ExternalServo.ServoCalls
import ExternalServo.Corrections
import Mathlib.Data.List.Induction

/-!
# The clock is stepped once

With `step_threshold` off only `first_step_threshold` is left, and it is looked at in the first
update only. `servo_sample` clears `first_update` for every result that is not unlocked, and no
call sets it again: whatever the servo and the calls, at most one sample is reported as a jump, and
`clock_update` makes at most one step.

* `servoCall_firstLock` — one call;
* `handle_steps` — one message;
* `singleJump` — the runs.
-/

namespace ExternalServo

open CArith Runs

/-! ## The history -/

/-- The result is a jump. -/
def Seen.jumps (seen : Seen) : Bool := decide (seen.result = some .jump)

/-- Every sample so far left the servo unlocked. -/
def NeverLocked (past : List Seen) : Prop := ∀ e ∈ past, ∀ state ∈ e.result, state = .unlocked

/-- A jump is the first result that is not unlocked. -/
def FirstLock (past : List Seen) (e : Seen) : Prop := e.jumps = true → NeverLocked past

theorem NeverLocked.concat {past : List Seen} {e : Seen} (h : NeverLocked past)
    (he : ∀ state ∈ e.result, state = .unlocked) : NeverLocked (past ++ [e]) := by
  intro e' he'
  rcases List.mem_append.mp he' with he' | he'
  · exact h e' he'
  · obtain rfl := List.mem_singleton.mp he'
    exact he

theorem NeverLocked.countP_jumps {past : List Seen} (h : NeverLocked past) :
    past.countP Seen.jumps = 0 := by
  rw [List.countP_eq_zero]
  rintro e he hjump
  cases h e he .jump (of_decide_eq_true hjump)

/-- If every jump is a first result, there is at most one. -/
theorem countP_jumps_le_one {seen : List Seen} (h : Each FirstLock seen) :
    seen.countP Seen.jumps ≤ 1 := by
  induction seen using List.reverseRecOn with
  | nil => exact Nat.zero_le 1
  | append_singleton past e ih =>
    obtain ⟨hpast, he⟩ := each_concat.mp h
    rw [List.countP_append, List.countP_singleton]
    by_cases hjump : e.jumps = true
    · rw [(he hjump).countP_jumps, if_pos hjump]
    · rw [if_neg hjump]
      exact ih hpast

/-! ## The threshold -/

variable {D σ : Type} [CDouble D]

/-- The step threshold is off. -/
def StepsOff (base : ServoBase D) : Prop := CDouble.truthy base.stepThreshold = false

/-- Then only the first update can call for a step. -/
theorem StepsOff.firstUpdate {base : ServoBase D} (h : StepsOff base) {magnitude : D}
    (hexceeds : exceedsStepThreshold base magnitude = true) : base.firstUpdate = true := by
  rw [exceedsStepThreshold, h, Bool.false_and, Bool.or_false, Bool.and_assoc,
    Bool.and_eq_true] at hexceeds
  exact hexceeds.1

theorem StepsOff.baseAfter {base : ServoBase D} (h : StepsOff base) (offset : Int64)
    (state : ServoState) : StepsOff (baseAfter base offset state) := by
  obtain ⟨n, update, hbase⟩ := baseAfter_frame base offset state
  rw [hbase]
  exact h

/-- A threshold of zero is off. -/
theorem thresholdNs_off [LawfulCDouble D] {threshold : D}
    (h : CDouble.lt (CDouble.lit 0) threshold = false) :
    CDouble.truthy (thresholdNs threshold) = false := by
  rw [thresholdNs, h, if_neg Bool.false_ne_true, CDouble.truthy, LawfulCDouble.eq_lit,
    Bool.not_true]

omit [CDouble D] in
/-- After a sample it is the first update still only if the sample left the servo unlocked. -/
theorem firstUpdate_baseAfter {base : ServoBase D} {offset : Int64} {own : ServoState}
    (hown : own ≠ .lockedStable) (h : (baseAfter base offset own).firstUpdate = true) :
    own = .unlocked ∧ base.firstUpdate = true := by
  cases own with
  | unlocked => exact ⟨rfl, h⟩
  | jump | locked => cases h
  | lockedStable => exact absurd rfl hown

omit [CDouble D] in
/-- A jump is reported for a jump of the servo's own. -/
theorem reportedState_jump {base : ServoBase D} {offset : Int64} {own : ServoState}
    (h : reportedState base offset own = .jump) : own = .jump := by
  rw [reportedState] at h
  split at h
  · cases h
  · exact h

/-- Every servo steps the clock for a magnitude beyond a threshold only. -/
theorem servoOps_jump (pow : D → D → D) {base : ServoBase D} {inner : Inner D} {offset : Int64}
    {localTs : UInt64} {weight : D}
    (h : ((servoOps pow).sample base inner offset localTs weight).2.1 = .jump) :
    ∃ magnitude, exceedsStepThreshold base magnitude = true := by
  cases inner with
  | pi s => exact ⟨_, piSample_jump h⟩
  | linreg s => exact linregSample_jump h
  | ntpshm s => cases h

/-! ## Calls -/

section Calls

variable (pow : D → D → D)

/-- **A sample** with the threshold off: only the first update can be a jump, and it is over unless
the sample leaves the servo unlocked. This holds for each of the three servos, the last of which
never steps. -/
theorem sample_firstUpdate {base : ServoBase D} (h : StepsOff base) (inner : Inner D)
    (offset : Int64) (localTs : UInt64) (weight : D) {r : D} {own : ServoState} {inner' : Inner D}
    (hsample : (servoOps pow).sample base inner offset localTs weight = (r, own, inner')) :
    (reportedState base offset own = .jump → base.firstUpdate = true) ∧
      ((baseAfter base offset own).firstUpdate = true →
        own = .unlocked ∧ base.firstUpdate = true) := by
  have hown := servoOps_state pow base inner offset localTs weight
  have hexceeds : ((servoOps pow).sample base inner offset localTs weight).2.1 = .jump →
      ∃ magnitude, exceedsStepThreshold base magnitude = true := servoOps_jump pow
  rw [hsample] at hown hexceeds
  refine ⟨?_, firstUpdate_baseAfter hown⟩
  intro hreported
  obtain ⟨magnitude, hmagnitude⟩ := hexceeds (reportedState_jump hreported)
  exact h.firstUpdate hmagnitude

/-- A call keeps the threshold off, and does not bring the first update back. -/
theorem servoCall_off {servo : Servo D (Inner D)} (h : StepsOff servo.base) (call : Call D) :
    StepsOff (servoCall (servoOps pow) servo call).1.base ∧
      ((servoCall (servoOps pow) servo call).1.base.firstUpdate = true →
        servo.base.firstUpdate = true) := by
  cases call with
  | sample offset localTs weight =>
    cases hsample : (servoOps pow).sample servo.base servo.inner offset localTs weight with
    | mk r rest =>
      obtain ⟨own, inner⟩ := rest
      rw [servoCall_sample (servoOps pow) servo offset localTs weight hsample]
      refine ⟨h.baseAfter offset own, ?_⟩
      intro hfirst
      exact ((sample_firstUpdate pow h servo.inner offset localTs weight hsample).2 hfirst).2
  | syncInterval interval => exact ⟨h, id⟩
  | reset => exact ⟨h, id⟩
  | leap leap =>
    have hbase : (servoCall (servoOps pow) servo (.leap leap)).1.base = servo.base :=
      servoCall_base (servoOps pow) servo nofun
    rw [hbase]
    exact ⟨h, id⟩

/-- **The invariant**: while it is the first update, the servo was never locked. Once it was, only
`step_threshold` could call for a step, and that is off. -/
structure Unused (base : ServoBase D) (past : List Seen) : Prop where
  off : StepsOff base
  neverLocked : base.firstUpdate = true → NeverLocked past

/-- **One call** keeps the invariant, and a jump is the first result. The flag for the first update
is cleared with the first result that is not unlocked, and only while it is set can the servo jump.
-/
theorem servoCall_firstLock {servo : Servo D (Inner D)} {past : List Seen}
    (h : Unused servo.base past) (call : Call D) :
    FirstLock past (servoCall (servoOps pow) servo call).2 ∧
      Unused (servoCall (servoOps pow) servo call).1.base
        (past ++ [(servoCall (servoOps pow) servo call).2]) := by
  -- a call without a result takes no part
  have hother : (∀ offset localTs weight, call ≠ .sample offset localTs weight) →
      (servoCall (servoOps pow) servo call).2.result = none →
      FirstLock past (servoCall (servoOps pow) servo call).2 ∧
        Unused (servoCall (servoOps pow) servo call).1.base
          (past ++ [(servoCall (servoOps pow) servo call).2]) := by
    intro hcall hresult
    rw [servoCall_base (servoOps pow) servo hcall]
    refine ⟨?_, h.off, ?_⟩
    · intro hjump
      rw [Seen.jumps, hresult] at hjump
      cases hjump
    · intro hfirst
      refine (h.neverLocked hfirst).concat ?_
      rw [hresult]
      nofun
  cases call with
  | syncInterval interval => exact hother nofun rfl
  | reset => exact hother nofun rfl
  | leap leap => exact hother nofun rfl
  | sample offset localTs weight =>
    cases hsample : (servoOps pow).sample servo.base servo.inner offset localTs weight with
    | mk r rest =>
      obtain ⟨own, inner⟩ := rest
      obtain ⟨hjump, hafter⟩ :=
        sample_firstUpdate pow h.off servo.inner offset localTs weight hsample
      rw [servoCall_sample (servoOps pow) servo offset localTs weight hsample]
      refine ⟨?_, h.off.baseAfter offset own, ?_⟩
      · intro hseen
        exact h.neverLocked (hjump (Option.some.inj (of_decide_eq_true hseen)))
      · intro hfirst
        obtain ⟨rfl, hbefore⟩ := hafter hfirst
        refine (h.neverLocked hbefore).concat ?_
        rintro state hstate
        exact (Option.some.inj hstate).symm

/-! ## Messages -/

/-- The call steps a clock. -/
def ClockCall.steps : ClockCall D → Bool
  | .step _ _ => true
  | .setFreq _ _ | .setPhase _ _ | .setSync | .setLeap _ => false

/-- The number of steps so far. -/
def Sys.steps (sys : Sys D σ) : Nat := sys.calls.countP ClockCall.steps

/-- A measurement leads to a step if the servo reports a jump, and to one only. -/
theorem countP_steps_made (dev : DeviceConfig) (m : Measurement D) :
    (made dev m).countP ClockCall.steps = if m.state = .jump then 1 else 0 := by
  obtain ⟨offset, adj, state⟩ := m
  have hsync : (if dev.freqClkId = CLOCK_REALTIME then [.setSync] else [] :
      List (ClockCall D)).countP ClockCall.steps = 0 := by
    split <;> rfl
  cases state with
  | unlocked | jump => rfl
  | locked | lockedStable =>
    rw [made, corrections, List.countP_cons_of_neg Bool.false_ne_true, hsync]
    rfl

/-- **The invariant** of the program: the one step is left while it is the first update. A trace
without a step and a servo that was never locked go together until then. -/
structure OneStep (sys : Sys D (Inner D)) : Prop where
  off : StepsOff sys.servo.base
  none_yet : sys.servo.base.firstUpdate = true → sys.steps = 0
  at_most : sys.steps ≤ 1

/-- **One message** keeps the invariant: the clock is stepped at a jump alone, and a jump clears the
flag that it needs. -/
theorem handle_steps {dev : DeviceConfig} {sys sys' : Sys D (Inner D)} (h : OneStep sys)
    {handler : Handler} (hok : handle (servoOps pow) dev sys handler = .ok sys') :
    OneStep sys' := by
  obtain ⟨hcalls, hservo⟩ := handle_eq_ok hok
  -- without a measurement nothing happens
  have hnone : measured (servoOps pow) sys handler = none →
      servoAfter (servoOps pow) sys handler = sys.servo → OneStep sys' := by
    intro hm hsame
    rw [hm, Option.elim_none, List.append_nil] at hcalls
    rw [hsame] at hservo
    have hsteps : sys'.steps = sys.steps := by rw [Sys.steps, hcalls, Sys.steps]
    refine ⟨hservo ▸ h.off, ?_, hsteps ▸ h.at_most⟩
    intro hfirst
    rw [hservo] at hfirst
    rw [hsteps, h.none_yet hfirst]
  cases handler with
  | pathDelay t3 t4 => exact hnone rfl rfl
  | clockUpdate t1 t2 =>
    cases hupdate : updateOffset sys t1 t2 with
    | none =>
      refine hnone ?_ ?_
      · rw [measured, hupdate, Option.map_none]
      · rw [servoAfter, hupdate, Option.elim_none]
    | some sample =>
      cases hsample : (servoOps pow).sample sys.servo.base sys.servo.inner sample.1.ns t2.toUInt64
          sample.2 with
      | mk r rest =>
        obtain ⟨own, inner⟩ := rest
        obtain ⟨hjump, hafter⟩ := sample_firstUpdate pow h.off sys.servo.inner sample.1.ns
          t2.toUInt64 sample.2 hsample
        simp only [servoAfter, measured, hupdate, Option.elim_some, Option.map_some, answer,
          servoSample_eq (servoOps pow) sys.servo _ _ _ hsample] at hservo hcalls
        have hsteps : sys'.steps = sys.steps +
            if reportedState sys.servo.base sample.1.ns own = .jump then 1 else 0 := by
          rw [Sys.steps, hcalls, List.countP_append, countP_steps_made, Sys.steps]
        refine ⟨?_, ?_, ?_⟩
        · rw [hservo]
          exact h.off.baseAfter _ _
        · intro hfirst
          rw [hservo] at hfirst
          obtain ⟨rfl, hbefore⟩ := hafter hfirst
          rw [hsteps, h.none_yet hbefore]
          rfl
        · rw [hsteps]
          split
          · next hreported => rw [h.none_yet (hjump hreported)]
          · exact h.at_most

/-- What can happen to the program: a message, or a call on its servo. The program itself calls its
servo through messages only; the other calls are those that the interface of the servo allows in
addition. -/
inductive SysCall (D : Type) : Type where
  | message (handler : Handler) : SysCall D
  | servo (call : Call D) : SysCall D

/-- The program after it. -/
def sysStep (ops : ServoOps D σ) (dev : DeviceConfig) (sys : Sys D σ) :
    SysCall D → Except Fault (Sys D σ)
  | .message handler => handle ops dev sys handler
  | .servo call => .ok { sys with servo := (servoCall ops sys.servo call).1 }

theorem sysStep_steps {dev : DeviceConfig} {sys sys' : Sys D (Inner D)} (h : OneStep sys)
    {call : SysCall D} (hok : sysStep (servoOps pow) dev sys call = .ok sys') : OneStep sys' := by
  cases call with
  | message handler => exact handle_steps pow h hok
  | servo call =>
    obtain rfl := Except.ok.inj hok
    obtain ⟨hoff, hfirst⟩ := servoCall_off pow h.off call
    exact ⟨hoff, fun hafter => h.none_yet (hfirst hafter), h.at_most⟩

end Calls

/-! ## Runs -/

/-- **The clock is stepped once.** With `step_threshold` off, every servo and every run of calls on
it from its creation reports at most one jump, for the first sample that does not leave the servo
unlocked; and in every run of messages and calls `clock_update` makes at most one step. A reset does
not make it the first update again. -/
theorem singleJump [LawfulCDouble D] {env : ServoEnv} {cfg : ServoConfig D}
    {servo : Servo D (Inner D)} (hcreate : servoCreate env cfg = some servo)
    (hoff : CDouble.lt (CDouble.lit 0) cfg.stepThreshold = false) (pow : D → D → D) :
    (∀ calls : List (Call D),
      Each FirstLock (history (servoCall (servoOps pow)) servo calls) ∧
        (history (servoCall (servoOps pow)) servo calls).countP Seen.jumps ≤ 1) ∧
    ∀ (dev : DeviceConfig) (sys sys' : Sys D (Inner D)) (calls : List (SysCall D)),
      sys.servo = servo → sys.steps = 0 →
      calls.foldlM (sysStep (servoOps pow) dev) sys = .ok sys' → sys'.steps ≤ 1 := by
  have hoff : StepsOff servo.base := by
    rw [StepsOff, servoCreate_base hcreate]
    exact thresholdNs_off hoff
  refine ⟨?_, ?_⟩
  · intro calls
    have hfirst : Each FirstLock (history (servoCall (servoOps pow)) servo calls) := by
      have hstep : ∀ (servo : Servo D (Inner D)) past (call : Call D), Unused servo.base past →
          True → FirstLock past (servoCall (servoOps pow) servo call).2 ∧
            Unused (servoCall (servoOps pow) servo call).1.base
              (past ++ [(servoCall (servoOps pow) servo call).2]) := by
        rintro servo past call hunused -
        exact servoCall_firstLock pow hunused call
      exact each_history hstep ⟨hoff, fun _ => nofun⟩ fun _ _ => trivial
    exact ⟨hfirst, countP_jumps_le_one hfirst⟩
  · rintro dev sys sys' calls rfl hsteps hrun
    have hone : OneStep sys := ⟨hoff, fun _ => hsteps, by omega⟩
    have hend : OneStep sys' := by
      refine run_inv (P := fun _ _ => True) ?_ hone (always_of_forall (fun _ _ => trivial) _ _) hrun
      rintro sys call sys' hone - hok
      exact sysStep_steps pow hone hok
    exact hend.at_most

/-- The settings of a PI servo that steps the clock at the first lock, beyond 20 microseconds. -/
def onceConfig : ServoConfig XRat :=
  { ServoConfig.zero with
    maxFrequency := .fin 500000, firstStepThreshold := .fin 0.00002,
    kpNormMax := .fin 0.7, kiNormMax := .fin 0.3 }

/-- The first lock is a jump. Later offsets of a millisecond are not, not even after a reset. -/
def onceCalls : List (Call XRat) :=
  [.syncInterval (.fin 1), .sample 50000 1000000000 (.fin 1), .sample 50000 2000000000 (.fin 1),
    .sample 1000000 3000000000 (.fin 1), .reset, .sample 1000000 4000000000 (.fin 1),
    .sample 1000000 5000000000 (.fin 1)]

/-- The same with messages, after a delay of 100 ns was measured. -/
def onceMessages : List (SysCall XRat) :=
  [.servo (.syncInterval (.fin 1)), .message (.clockUpdate 1000000000 1000050100),
    .message (.pathDelay 1000000050 999950150), .message (.clockUpdate 2000000000 2000050100),
    .message (.clockUpdate 3000000000 3000050100), .servo .reset,
    .message (.clockUpdate 4000000000 4001000100), .message (.clockUpdate 5000000000 5001000100)]

/-- The first lock steps the clock for an offset of 50 µs. The offsets of a millisecond afterwards
are twenty times as large and are locked without a step, also by the acquisition after the reset;
and so it is for the program that is sent messages with these offsets. -/
theorem singleJump_pi :
    ∃ servo ∈ servoCreate ⟨true, fun _ => none⟩ onceConfig,
      ∃ tsp ∈ tsprocCreate (fun _ => true) 0 1 1,
      (history (servoCall (servoOps powOne)) servo onceCalls).map Seen.result =
          [none, some .unlocked, some .jump, some .locked, none, some .unlocked, some .locked] ∧
        (history (servoCall (servoOps powOne)) servo onceCalls).countP Seen.jumps ≤ 1 ∧
        ∃ sys', onceMessages.foldlM (sysStep (servoOps powOne) DeviceConfig.zero)
            ⟨tsp, servo, []⟩ = .ok sys' ∧ sys'.calls.length = 4 ∧ sys'.steps ≤ 1 := by
  have hservo : ∃ servo, servoCreate ⟨true, fun _ => none⟩ onceConfig = some servo := ⟨_, rfl⟩
  have htsp : ∃ tsp : Tsproc XRat, tsprocCreate (fun _ => true) 0 1 1 = some tsp := ⟨_, rfl⟩
  obtain ⟨servo, hcreate⟩ := hservo
  obtain ⟨tsp, htsp⟩ := htsp
  obtain ⟨hcalls, hsteps⟩ := singleJump hcreate rfl powOne
  refine ⟨servo, hcreate, tsp, htsp, ?_, (hcalls onceCalls).2, ?_⟩
  · obtain rfl := Option.some.inj hcreate
    decide +kernel
  · have hlength : ((onceMessages.foldlM (sysStep (servoOps powOne) DeviceConfig.zero)
        ⟨tsp, servo, []⟩).map fun sys => sys.calls.length) = Except.ok 4 := by
      obtain rfl := Option.some.inj hcreate
      obtain rfl := Option.some.inj htsp
      decide +kernel
    cases hrun : onceMessages.foldlM (sysStep (servoOps powOne) DeviceConfig.zero)
        ⟨tsp, servo, []⟩ with
    | error e =>
      rw [hrun] at hlength
      cases hlength
    | ok sys' =>
      rw [hrun] at hlength
      exact ⟨sys', rfl, Except.ok.inj hlength, hsteps _ _ _ _ rfl rfl hrun⟩

end ExternalServo
