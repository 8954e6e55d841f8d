import ExternalServo.Corrections

/-!
# The regression servo's model of the clock

The regression servo removes its own frequency from the intervals it measures, and takes for it
the frequency it has returned last. `clock_update` passes this frequency on after a step and at a
lock, and not at a stable lock: there it goes to the phase, and the clock keeps the frequency it
had.

* `model_agrees_step` — a sample that is not a stable lock leaves the model right;
* `model_agrees_kept` — and without another lock it stays right;
* `model_agrees` — the same for runs, and what a stable lock does.
-/

namespace ExternalServo

open CArith Runs

variable {D : Type} [CDouble D]

/-! ## The frequency in force -/

/-- The frequency of a call that sets the frequency of the clock. -/
def ClockCall.freqOf (clkid : Int) : ClockCall D → Option D
  | .setFreq id freq => if id = clkid then some freq else none
  | .setPhase _ _ | .step _ _ | .setSync | .setLeap _ => none

/-- The frequency that was commanded to a clock last. A phase adjustment or a step leaves it in
force. -/
def lastFreq (clkid : Int) (calls : List (ClockCall D)) : Option D :=
  (calls.filterMap (ClockCall.freqOf clkid)).getLast?

omit [CDouble D] in
theorem lastFreq_append (clkid : Int) (calls calls' : List (ClockCall D)) :
    lastFreq clkid (calls ++ calls') = (lastFreq clkid calls').or (lastFreq clkid calls) := by
  rw [lastFreq, List.filterMap_append, List.getLast?_append]
  rfl

/-- What the servo takes for the frequency of the clock; the other servos have no such model. -/
def modelFreq : Inner D → Option D
  | .linreg s => some s.clockFreq
  | .pi _ | .ntpshm _ => none

/-- The model agrees with the clock. -/
def ModelAgrees (dev : DeviceConfig) (sys : Sys D (Inner D)) : Prop :=
  ∀ freq ∈ modelFreq sys.servo.inner, lastFreq dev.freqClkId sys.calls = some freq

/-- After a sample that does not leave the servo unlocked, the model agrees with the clock. An
unlocked servo commands nothing and keeps its model, so that nothing is asked then. -/
def AgreesAfter (pow : D → D → D) (dev : DeviceConfig) (sys : Sys D (Inner D)) (h : Handler) :
    Prop :=
  ∀ sys', handle (servoOps pow) dev sys h = .ok sys' →
    ∀ m ∈ measured (servoOps pow) sys h, m.state ≠ .unlocked → ModelAgrees dev sys'

/-! ## One sample -/

/-- A sample returns the negated frequency of the model. -/
theorem linregSample_adj (servo : ServoBase D) (s : LinregServo D) (offset : Int64)
    (localTs : UInt64) (weight : D) :
    (linregSample servo s offset localTs weight).1 =
      -(linregSample servo s offset localTs weight).2.2.clockFreq := by
  have hsampled := linregSample_sampled servo s offset localTs weight
  generalize linregSample servo s offset localTs weight = result at hsampled ⊢
  cases hsampled with
  | waiting hsize => rfl
  | stepped k ratio hsize => rfl
  | followed k ratio hsize => rfl

/-- Without a line the model stays as it is. -/
theorem linregSample_unlocked {servo : ServoBase D} {s : LinregServo D} {offset : Int64}
    {localTs : UInt64} {weight : D}
    (h : (linregSample servo s offset localTs weight).2.1 = .unlocked) :
    (linregSample servo s offset localTs weight).2.2.clockFreq = s.clockFreq := by
  have hsampled := linregSample_sampled servo s offset localTs weight
  generalize linregSample servo s offset localTs weight = result at hsampled h ⊢
  cases hsampled with
  | waiting hsize => exact (linregUpdate_frame s offset localTs weight).1
  | stepped k ratio hsize => cases h
  | followed k ratio hsize => cases h

section Handler

variable {pow : D → D → D} {sys : Sys D (Inner D)}

/-- The model after a sample is what the sample returned, negated. -/
theorem answer_adj {t2 : Int64} {sample : Tmv × D} {freq : D}
    (h : freq ∈ modelFreq (answer (servoOps pow) sys t2 sample).2.2.inner) :
    (answer (servoOps pow) sys t2 sample).1 = -freq := by
  rw [answer, servoSample_eq (servoOps pow) sys.servo sample.1.ns t2.toUInt64 sample.2 rfl] at h ⊢
  obtain ⟨tsp, ⟨base, inner⟩, calls⟩ := sys
  cases inner with
  | pi s => cases h
  | ntpshm s => cases h
  | linreg s =>
    obtain rfl := Option.some.inj h
    exact linregSample_adj base s sample.1.ns t2.toUInt64 sample.2

/-- An unlocked servo keeps its model. -/
theorem answer_unlocked {t2 : Int64} {sample : Tmv × D}
    (h : (answer (servoOps pow) sys t2 sample).2.1 = .unlocked) :
    modelFreq (answer (servoOps pow) sys t2 sample).2.2.inner = modelFreq sys.servo.inner := by
  rw [answer, servoSample_eq (servoOps pow) sys.servo sample.1.ns t2.toUInt64 sample.2 rfl] at h ⊢
  obtain ⟨tsp, ⟨base, inner⟩, calls⟩ := sys
  -- the servo itself reports it, as a stable lock takes the place of a lock only
  have hstate : ((servoOps pow).sample base inner sample.1.ns t2.toUInt64 sample.2).2.1 =
      .unlocked := reportedState_eq_unlocked.mp h
  cases inner with
  | pi s => rfl
  | ntpshm s => rfl
  | linreg s => exact congrArg some (linregSample_unlocked hstate)

omit [CDouble D] in
/-- The model after a handler, if it measures nothing. -/
theorem servoAfter_of_measured_none {σ : Type} [CDouble D] {ops : ServoOps D σ} {sys : Sys D σ}
    {h : Handler} (hm : measured ops sys h = none) : servoAfter ops sys h = sys.servo := by
  cases h with
  | pathDelay t3 t4 => rfl
  | clockUpdate t1 t2 =>
    rw [measured, Option.map_eq_none_iff] at hm
    rw [servoAfter, hm, Option.elim_none]

/-- The frequency that a measurement commands. -/
theorem lastFreq_made (dev : DeviceConfig) (m : Measurement D) :
    lastFreq dev.freqClkId (made dev m) =
      if m.state = .jump ∨ m.state = .locked then some (-m.adj) else none := by
  obtain ⟨offset, adj, state⟩ := m
  cases state with
  | unlocked => rfl
  | jump => simp [lastFreq, made, corrections, ClockCall.freqOf, List.filterMap_cons]
  | locked =>
    by_cases hclk : dev.freqClkId = CLOCK_REALTIME <;>
      simp [lastFreq, made, corrections, ClockCall.freqOf, List.filterMap_cons, hclk]
  | lockedStable =>
    by_cases hclk : dev.freqClkId = CLOCK_REALTIME <;>
      simp [lastFreq, made, corrections, ClockCall.freqOf, List.filterMap_cons, hclk]

/-! ## One handler -/

/-- A handler, by its measurement. -/
theorem agreesAfter_iff (dev : DeviceConfig) (h : Handler) :
    AgreesAfter pow dev sys h ↔
      ∀ m ∈ measured (servoOps pow) sys h, m.state ≠ .unlocked →
        ∀ freq ∈ modelFreq (servoAfter (servoOps pow) sys h).inner,
          lastFreq dev.freqClkId (sys.calls ++ made dev m) = some freq := by
  refine ⟨?_, ?_⟩
  · intro hafter m hm hlocked freq hfreq
    cases h with
    | pathDelay t3 t4 => cases hm
    | clockUpdate t1 t2 =>
      obtain ⟨tsp, hok⟩ := clockUpdate_eq (servoOps pow) dev sys t1 t2
      have hagrees := hafter _ hok m hm hlocked freq hfreq
      rw [Option.mem_def.mp hm, Option.elim_some] at hagrees
      exact hagrees
  · intro hlast sys' hok m hm hlocked freq hfreq
    obtain ⟨hcalls, hservo⟩ := handle_eq_ok hok
    rw [hcalls, Option.mem_def.mp hm, Option.elim_some]
    rw [hservo] at hfreq
    exact hlast m hm hlocked freq hfreq

/-- **A sample that is not a stable lock** and does not leave the servo unlocked makes the model
agree, whatever it was before: the frequency that the servo remembers is the one it returns, up to
the sign, and the program commands it. -/
theorem model_agrees_step (hneg : ∀ x : D, - -x = x) (dev : DeviceConfig) {h : Handler}
    (hstable : ¬ StableLock (servoOps pow) sys h) : AgreesAfter pow dev sys h := by
  rw [agreesAfter_iff]
  intro m hm hlocked freq hfreq
  have hcommanded : m.state = .jump ∨ m.state = .locked := by
    cases hstate : m.state with
    | unlocked => exact absurd hstate hlocked
    | jump => exact .inl rfl
    | locked => exact .inr rfl
    | lockedStable => exact absurd ((stableLock_iff pow sys h).mpr ⟨m, hm, hstate⟩) hstable
  have hadj : m.adj = -freq := by
    cases h with
    | pathDelay t3 t4 => cases hm
    | clockUpdate t1 t2 =>
      obtain ⟨sample, hsample, rfl⟩ := Option.map_eq_some_iff.mp (Option.mem_def.mp hm)
      rw [servoAfter, hsample, Option.elim_some] at hfreq
      exact answer_adj hfreq
  rw [lastFreq_append, lastFreq_made, if_pos hcommanded, hadj, hneg, Option.some_or]

/-- **A model that agrees** does so after every handler that is not a stable lock. Together with
`model_agrees_step` this covers the whole time from the first lock to the first stable one. -/
theorem model_agrees_kept (hneg : ∀ x : D, - -x = x) {dev : DeviceConfig} {h : Handler}
    {sys' : Sys D (Inner D)} (hagrees : ModelAgrees dev sys)
    (hstable : ¬ StableLock (servoOps pow) sys h)
    (hok : handle (servoOps pow) dev sys h = .ok sys') : ModelAgrees dev sys' := by
  obtain ⟨hcalls, hservo⟩ := handle_eq_ok hok
  cases hm : measured (servoOps pow) sys h with
  | none =>
    intro freq hfreq
    rw [hservo, servoAfter_of_measured_none hm] at hfreq
    rw [hcalls, hm, Option.elim_none, List.append_nil]
    exact hagrees freq hfreq
  | some m =>
    by_cases hunlocked : m.state = .unlocked
    · -- nothing is commanded, and the model stays
      intro freq hfreq
      cases h with
      | pathDelay t3 t4 => cases hm
      | clockUpdate t1 t2 =>
        obtain ⟨sample, hsample, rfl⟩ := Option.map_eq_some_iff.mp hm
        rw [hservo, servoAfter, hsample, Option.elim_some, answer_unlocked hunlocked] at hfreq
        rw [hcalls, hm, Option.elim_some, lastFreq_append, lastFreq_made, hunlocked]
        exact hagrees freq hfreq
    · exact model_agrees_step hneg dev hstable sys' hok m hm hunlocked

/-- At a stable lock the model agrees only if the servo happens to return the frequency that was
commanded before. -/
theorem agreesAfter_stable (dev : DeviceConfig) {h : Handler}
    (hstable : StableLock (servoOps pow) sys h) :
    AgreesAfter pow dev sys h ↔
      ∀ freq ∈ modelFreq (servoAfter (servoOps pow) sys h).inner,
        lastFreq dev.freqClkId sys.calls = some freq := by
  obtain ⟨m, hm, hstate⟩ := (stableLock_iff pow sys h).mp hstable
  have hsame : lastFreq dev.freqClkId (sys.calls ++ made dev m) =
      lastFreq dev.freqClkId sys.calls := by
    rw [lastFreq_append, lastFreq_made, hstate]
    rfl
  rw [agreesAfter_iff]
  refine ⟨?_, ?_⟩
  · intro hafter freq hfreq
    rw [← hsame]
    exact hafter m hm (by simp [hstate]) freq hfreq
  · intro hlast m' hm' _ freq hfreq
    obtain rfl := Option.mem_unique hm hm'
    rw [hsame]
    exact hlast freq hfreq

end Handler

/-! ## Runs -/

/-- **The model of the clock.** In every run without a stable lock, after every sample that does not
leave the servo unlocked the frequency in force on the clock is the one the regression servo removes
from its intervals; and in any run, a stable lock leaves them equal exactly if the servo returns the
frequency that was commanded before. A stable lock changes the model, and commands a phase instead
of the frequency. -/
theorem model_agrees (hneg : ∀ x : D, - -x = x) (pow : D → D → D) (dev : DeviceConfig)
    (sys : Sys D (Inner D)) (handlers : List Handler) :
    (Always (handle (servoOps pow) dev) (fun sys h => ¬ StableLock (servoOps pow) sys h) sys
        handlers →
      Always (handle (servoOps pow) dev) (AgreesAfter pow dev) sys handlers) ∧
    Always (handle (servoOps pow) dev)
      (fun sys h => StableLock (servoOps pow) sys h →
        (AgreesAfter pow dev sys h ↔
          ∀ freq ∈ modelFreq (servoAfter (servoOps pow) sys h).inner,
            lastFreq dev.freqClkId sys.calls = some freq)) sys handlers :=
  ⟨Always.imp fun _ _ hstable => model_agrees_step hneg dev hstable,
    always_of_forall (fun _ _ hstable => agreesAfter_stable dev hstable) sys handlers⟩

/-- A configuration of a regression servo for one PTP clock; with a threshold, the first sample
below it makes a lock stable. -/
def linregFile (threshold : String) : YamlFile :=
  { tokens := [.streamStart, .blockMappingStart] ++
      blockTokens "servo" [("type", "linreg"), ("servo_offset_threshold", threshold),
        ("servo_num_offset_values", "1")] ++
      blockTokens "device" [("tod_device", "/dev/ptp0"), ("freq_device", "/dev/ptp0"),
        ("delay_filter", "moving_median"), ("delay_filter_length", "1")] ++ [.blockEnd]
    scanError := false
    noEnd := by simp [blockTokens] }

/-- The program of this configuration. -/
def linregProgram (threshold : String) : Option (Program XRat) :=
  match servoConfigParse (some (linregFile threshold)) true (globalsInit true) 100 with
  | some (.ok (0, globals)) => startup powOne sampleHost globals
  | _ => none

/-- A delay of 100 ns, and four samples of a clock that is 50 ppb too fast. -/
def driftHandlers : List Handler :=
  [.clockUpdate 1000000000 1000000100, .pathDelay 1000000050 1000000150,
    .clockUpdate 2000000000 2000000100, .clockUpdate 3000000000 3000000150,
    .clockUpdate 4000000000 4000000200, .clockUpdate 5000000000 5000000250]

/-- Without a threshold the fourth sample is a lock, and sets the frequency. -/
theorem model_agrees_drift :
    ∃ program ∈ linregProgram "0",
      Always (handle (servoOps powOne) program.device) (AgreesAfter powOne program.device)
        program.sys driftHandlers := by
  have h : ∃ program ∈ linregProgram "0", program.sys.servo.base.offsetThreshold = 0 := by
    decide +kernel
  obtain ⟨program, hprogram, hoff⟩ := h
  refine ⟨program, hprogram, ?_⟩
  exact (model_agrees XRat.neg_neg powOne program.device program.sys driftHandlers).1
    (never_stableLock powOne program.device hoff driftHandlers)

/-- The fourth sample is a stable lock, and the clock keeps its frequency of 0 ppb; the servo goes
on with about -200 ppb. -/
theorem not_model_agrees_stable :
    ∃ program ∈ linregProgram "1000000",
      ¬ Always (handle (servoOps powOne) program.device) (AgreesAfter powOne program.device)
        program.sys driftHandlers := by
  have h : ∃ program ∈ linregProgram "1000000",
      ¬ Always (handle (servoOps powOne) program.device)
        (fun sys h => ∀ m ∈ measured (servoOps powOne) sys h, m.state ≠ .unlocked →
          ∀ freq ∈ modelFreq (servoAfter (servoOps powOne) sys h).inner,
            lastFreq program.device.freqClkId (sys.calls ++ made program.device m) = some freq)
        program.sys driftHandlers := by
    decide +kernel
  obtain ⟨program, hprogram, hnot⟩ := h
  refine ⟨program, hprogram, ?_⟩
  intro hafter
  exact hnot ((always_congr fun _ h => agreesAfter_iff program.device h).mp hafter)

/-- Once the model agrees, it does so at the end of every run without a stable lock. -/
theorem model_agrees_run (hneg : ∀ x : D, - -x = x) {pow : D → D → D} {dev : DeviceConfig}
    {sys sys' : Sys D (Inner D)} {handlers : List Handler} (hagrees : ModelAgrees dev sys)
    (hstable : Always (handle (servoOps pow) dev)
      (fun sys h => ¬ StableLock (servoOps pow) sys h) sys handlers)
    (hrun : handlers.foldlM (handle (servoOps pow) dev) sys = .ok sys') : ModelAgrees dev sys' :=
  run_inv (fun _ _ _ hagrees hstable hok => model_agrees_kept hneg hagrees hstable hok) hagrees
    hstable hrun

end ExternalServo
