import ExternalServo.Main

/-!
# The quantities that reach the clocks

A sample is measured, as an offset in nanoseconds, and answered by a servo, with a frequency
in ppb. Which of the two goes to a clock depends on the state the servo reports.

* `handle_eq_ok` — what a handler does to the trace and to the servo;
* `correctionOf_of_mem` — which adjustments can follow a measurement;
* `rightQuantities_iff` — the adjustments of a step are right exactly if it is not a stable
  lock, or the two quantities happen to agree;
* `corrections_right` — the same for runs.
-/

namespace ExternalServo

open CArith Runs

variable {D σ : Type} [CDouble D]

/-! ## One handler -/

/-- A sample and the answer of the servo: what `clock_update` knows when it adjusts the clocks. -/
structure Measurement (D : Type) where
  /-- the measured offset, in nanoseconds -/
  offset : Int64
  /-- the frequency returned by `servo_sample`, in ppb -/
  adj : D
  /-- the state it reports -/
  state : ServoState

/-- What `tsproc_update_offset` makes of two timestamps. -/
def updateOffset (sys : Sys D σ) (t1 t2 : Int64) : Option (Tmv × D) :=
  tsprocUpdateOffset (tsprocDownTs sys.tsp ⟨t1⟩ ⟨t2⟩)

/-- The answer of the servo to a sample. -/
def answer (ops : ServoOps D σ) (sys : Sys D σ) (t2 : Int64) (sample : Tmv × D) :
    D × ServoState × Servo D σ :=
  servoSample ops sys.servo sample.1.ns t2.toUInt64 sample.2

/-- The measurement of a handler, if there is one. -/
def measured (ops : ServoOps D σ) (sys : Sys D σ) : Handler → Option (Measurement D)
  | .clockUpdate t1 t2 => (updateOffset sys t1 t2).map fun sample =>
      ⟨sample.1.ns, (answer ops sys t2 sample).1, (answer ops sys t2 sample).2.1⟩
  | .pathDelay _ _ => none

/-- The servo after a handler. -/
def servoAfter (ops : ServoOps D σ) (sys : Sys D σ) : Handler → Servo D σ
  | .clockUpdate t1 t2 =>
    (updateOffset sys t1 t2).elim sys.servo fun sample => (answer ops sys t2 sample).2.2
  | .pathDelay _ _ => sys.servo

/-- The adjustments that a measurement leads to. -/
def made (dev : DeviceConfig) (m : Measurement D) : List (ClockCall D) :=
  corrections dev m.state m.adj m.offset

/-- A call of `clock_update` never faults. -/
theorem clockUpdate_eq (ops : ServoOps D σ) (dev : DeviceConfig) (sys : Sys D σ)
    (t1 t2 : Int64) :
    ∃ tsp, clockUpdate ops dev sys t1 t2 =
      .ok { tsp, servo := servoAfter ops sys (.clockUpdate t1 t2),
            calls := sys.calls ++
              (measured ops sys (.clockUpdate t1 t2)).elim [] (made dev) } := by
  cases hsample : updateOffset sys t1 t2 with
  | none =>
    refine ⟨tsprocDownTs sys.tsp ⟨t1⟩ ⟨t2⟩, ?_⟩
    rw [updateOffset] at hsample
    simp only [clockUpdate, servoAfter, measured, updateOffset, hsample, Option.elim_none,
      Option.map_none, List.append_nil]
  | some sample =>
    rw [updateOffset] at hsample
    cases hanswer : servoSample ops sys.servo sample.1.ns t2.toUInt64 sample.2 with
    | mk adj rest =>
      obtain ⟨state, servo⟩ := rest
      simp only [clockUpdate, servoAfter, measured, updateOffset, hsample, Option.elim_some,
        Option.map_some, made, answer, tmvToNanoseconds, hanswer]
      -- only after a step are the timestamps forgotten
      cases state <;> exact ⟨_, rfl⟩

/-- **A handler** appends the adjustments of its measurement to the trace, and the servo becomes the
one that answered. Without a measurement neither changes. All properties of the adjustments are
proved through this lemma. -/
theorem handle_eq_ok {ops : ServoOps D σ} {dev : DeviceConfig} {sys sys' : Sys D σ} {h : Handler}
    (hok : handle ops dev sys h = .ok sys') :
    sys'.calls = sys.calls ++ (measured ops sys h).elim [] (made dev) ∧
      sys'.servo = servoAfter ops sys h := by
  cases h with
  | clockUpdate t1 t2 =>
    obtain ⟨tsp, heq⟩ := clockUpdate_eq ops dev sys t1 t2
    rw [handle, heq] at hok
    obtain rfl := Except.ok.inj hok
    exact ⟨rfl, rfl⟩
  | pathDelay t3 t4 =>
    rw [handle, pathDelay] at hok
    cases hdelay : tsprocUpdateDelay (tsprocUpTs sys.tsp ⟨t3⟩ ⟨t4⟩) with
    | error e => simp [hdelay, bind, Except.bind] at hok
    | ok r =>
      simp only [hdelay, bind, Except.bind, pure, Except.pure, Except.ok.injEq] at hok
      rw [← hok]
      exact ⟨(List.append_nil _).symm, rfl⟩

/-- Every adjustment that a handler makes has a property. -/
def MakesOnly (ops : ServoOps D σ) (dev : DeviceConfig) (sys : Sys D σ) (h : Handler)
    (P : ClockCall D → Prop) : Prop :=
  ∀ sys', handle ops dev sys h = .ok sys' →
    ∃ calls, sys'.calls = sys.calls ++ calls ∧ ∀ call ∈ calls, P call

/-- The adjustments of a handler are those of its measurement, so a property of all of them can be
shown of the measurement, without a run of the handler. -/
theorem makesOnly_iff {ops : ServoOps D σ} {dev : DeviceConfig} {sys : Sys D σ} {h : Handler}
    {P : ClockCall D → Prop} :
    MakesOnly ops dev sys h P ↔ ∀ m ∈ measured ops sys h, ∀ call ∈ made dev m, P call := by
  refine ⟨?_, ?_⟩
  · intro honly m hm call hcall
    cases h with
    | pathDelay t3 t4 => cases hm
    | clockUpdate t1 t2 =>
      obtain ⟨tsp, heq⟩ := clockUpdate_eq ops dev sys t1 t2
      obtain ⟨calls, hcalls, hall⟩ := honly _ heq
      have hmade : made dev m = calls := by
        rw [← List.append_cancel_left hcalls, Option.mem_def.mp hm, Option.elim_some]
      exact hall call (hmade ▸ hcall)
  · intro hall sys' hok
    refine ⟨_, (handle_eq_ok hok).1, ?_⟩
    intro call hcall
    cases hm : measured ops sys h with
    | none =>
      rw [hm] at hcall
      cases hcall
    | some m =>
      rw [hm] at hcall
      exact hall m hm call hcall

/-! ## Which quantity a call carries -/

/-- The adjustments that can follow a measurement, each with the states that lead to it. The state
is that which was reported, so that a stable lock is not a lock here. -/
inductive CorrectionOf (m : Measurement D) : ClockCall D → Prop where
  /-- after a step and while tracking: the negated frequency -/
  | setFreq (clkid : Int) (hstate : m.state = .jump ∨ m.state = .locked) :
    CorrectionOf m (.setFreq clkid (-m.adj))
  /-- a step by the negated offset -/
  | step (clkid : Int) (hstate : m.state = .jump) : CorrectionOf m (.step clkid (-m.offset))
  /-- at a stable lock: the negated frequency, as a phase -/
  | setPhase (clkid : Int) (hstate : m.state = .lockedStable) :
    CorrectionOf m (.setPhase clkid (CDouble.toInt64 (-m.adj)))
  /-- the system clock is marked as synchronized -/
  | setSync : CorrectionOf m .setSync

/-- **The inversion of the `switch` in `clock_update`.** Each adjustment is one of four kinds, with
the quantity that the source passes to it; an unlocked sample makes none. -/
theorem correctionOf_of_mem {dev : DeviceConfig} {m : Measurement D} {call : ClockCall D}
    (h : call ∈ made dev m) : CorrectionOf m call := by
  obtain ⟨offset, adj, state⟩ := m
  have hsync : ∀ call ∈ (if dev.freqClkId = CLOCK_REALTIME then [.setSync] else [] :
      List (ClockCall D)), CorrectionOf ⟨offset, adj, state⟩ call := by
    intro call hcall
    split at hcall
    · obtain rfl := List.mem_singleton.mp hcall
      exact .setSync
    · cases hcall
  cases state with
  | unlocked => cases h
  | jump =>
    rcases List.mem_cons.mp h with rfl | h
    · exact .setFreq _ (.inl rfl)
    · obtain rfl := List.mem_singleton.mp h
      exact .step _ rfl
  | locked =>
    rcases List.mem_cons.mp h with rfl | h
    · exact .setFreq _ (.inr rfl)
    · exact hsync call h
  | lockedStable =>
    rcases List.mem_cons.mp h with rfl | h
    · exact .setPhase _ rfl
    · exact hsync call h

/-- The call carries the quantity that its interface asks for: the negated frequency, or the
negated offset. -/
def RightQuantity (m : Measurement D) : ClockCall D → Prop
  | .setFreq _ freq => freq = -m.adj
  | .setPhase _ offset => offset = -m.offset
  | .step _ ns => ns = -m.offset
  | .setSync | .setLeap _ => True

/-- Every adjustment that a handler makes carries the right quantity of its measurement. -/
def RightQuantities (ops : ServoOps D σ) (dev : DeviceConfig) (sys : Sys D σ) (h : Handler) :
    Prop :=
  MakesOnly ops dev sys h fun call => ∃ m, measured ops sys h = some m ∧ RightQuantity m call

/-- The sample completes a stable lock: the servo's own state is a lock, and the threshold check of
`servo_sample` succeeds. Both can be told before the sample is taken. -/
def StableLock (ops : ServoOps D σ) (sys : Sys D σ) : Handler → Prop
  | .clockUpdate t1 t2 => ∃ sample, updateOffset sys t1 t2 = some sample ∧
      (ops.sample sys.servo.base sys.servo.inner sample.1.ns t2.toUInt64 sample.2).2.1 = .locked ∧
      (checkOffsetThreshold sys.servo.base sample.1.ns).1 = true
  | .pathDelay _ _ => False

/-- The frequency, converted to `long`, is the offset. -/
def QuantitiesAgree (m : Measurement D) : Prop := CDouble.toInt64 (-m.adj) = -m.offset

/-- In every state but the stable lock the right quantities are passed. -/
theorem rightQuantity_made (dev : DeviceConfig) (m : Measurement D) :
    (∀ call ∈ made dev m, RightQuantity m call) ↔
      (m.state = .lockedStable → QuantitiesAgree m) := by
  refine ⟨?_, ?_⟩
  · intro hall hstate
    have hphase : .setPhase dev.freqClkId (CDouble.toInt64 (-m.adj)) ∈ made dev m := by
      rw [made, hstate]
      exact List.mem_cons_self
    exact hall _ hphase
  · intro hagree call hcall
    cases correctionOf_of_mem hcall with
    | setFreq clkid hstate => exact rfl
    | step clkid hstate => exact rfl
    | setPhase clkid hstate => exact hagree hstate
    | setSync => exact trivial

/-- A step, by its measurement. -/
theorem rightQuantities_iff (ops : ServoOps D σ) (dev : DeviceConfig) (sys : Sys D σ)
    (h : Handler) :
    RightQuantities ops dev sys h ↔
      ∀ m ∈ measured ops sys h, m.state = .lockedStable → QuantitiesAgree m := by
  rw [RightQuantities, makesOnly_iff]
  refine ⟨?_, ?_⟩
  · intro hall m hm
    rw [← rightQuantity_made dev]
    intro call hcall
    obtain ⟨m', hm', hright⟩ := hall m hm call hcall
    obtain rfl := Option.mem_unique hm hm'
    exact hright
  · intro hall m hm call hcall
    exact ⟨m, hm, (rightQuantity_made dev m).mpr (hall m hm) call hcall⟩

/-! ## The servos of the program -/

section Servos

variable (pow : D → D → D)

/-- A stable lock is reported for a lock whose threshold check succeeds, and for nothing else. -/
theorem answer_stable_iff (sys : Sys D (Inner D)) (t2 : Int64) (sample : Tmv × D) :
    (answer (servoOps pow) sys t2 sample).2.1 = .lockedStable ↔
      ((servoOps pow).sample sys.servo.base sys.servo.inner sample.1.ns t2.toUInt64
        sample.2).2.1 = .locked ∧
      (checkOffsetThreshold sys.servo.base sample.1.ns).1 = true := by
  have hown := servoOps_state pow sys.servo.base sys.servo.inner sample.1.ns t2.toUInt64 sample.2
  cases hs : (servoOps pow).sample sys.servo.base sys.servo.inner sample.1.ns t2.toUInt64
      sample.2 with
  | mk r rest =>
    obtain ⟨state, inner⟩ := rest
    rw [hs] at hown
    rw [answer, servoSample_eq (servoOps pow) sys.servo _ _ _ hs]
    change reportedState _ _ state = _ ↔ state = _ ∧ _
    rw [reportedState]
    split
    · next hstable => exact iff_of_true rfl hstable
    · next hstable => exact iff_of_false hown hstable

/-- The stable locks of a handler are those it measures. -/
theorem stableLock_iff (sys : Sys D (Inner D)) (h : Handler) :
    StableLock (servoOps pow) sys h ↔
      ∃ m ∈ measured (servoOps pow) sys h, m.state = .lockedStable := by
  cases h with
  | pathDelay t3 t4 =>
    refine ⟨?_, ?_⟩
    · intro hstable
      cases hstable
    · rintro ⟨m, hm, -⟩
      cases hm
  | clockUpdate t1 t2 =>
    refine ⟨?_, ?_⟩
    · rintro ⟨sample, hsample, hstable⟩
      exact ⟨_, Option.mem_def.mpr (by rw [measured, hsample, Option.map_some]),
        (answer_stable_iff pow sys t2 sample).mpr hstable⟩
    · rintro ⟨m, hm, hstate⟩
      obtain ⟨sample, hsample, rfl⟩ := Option.map_eq_some_iff.mp (Option.mem_def.mp hm)
      exact ⟨sample, hsample, (answer_stable_iff pow sys t2 sample).mp hstate⟩

/-- At a stable lock the frequency is passed for the offset. -/
theorem rightQuantities_stable (dev : DeviceConfig) {sys : Sys D (Inner D)} {h : Handler}
    (hstable : StableLock (servoOps pow) sys h) :
    RightQuantities (servoOps pow) dev sys h ↔
      ∃ m ∈ measured (servoOps pow) sys h, QuantitiesAgree m := by
  obtain ⟨m, hm, hstate⟩ := (stableLock_iff pow sys h).mp hstable
  rw [rightQuantities_iff]
  refine ⟨?_, ?_⟩
  · intro hall
    exact ⟨m, hm, hall m hm hstate⟩
  · rintro ⟨m', hm', hagree⟩ m'' hm'' -
    obtain rfl := Option.mem_unique hm' hm''
    exact hagree

theorem rightQuantities_of_not_stable (dev : DeviceConfig) {sys : Sys D (Inner D)} {h : Handler}
    (hstable : ¬ StableLock (servoOps pow) sys h) :
    RightQuantities (servoOps pow) dev sys h := by
  rw [rightQuantities_iff]
  intro m hm hstate
  exact absurd ((stableLock_iff pow sys h).mpr ⟨m, hm, hstate⟩) hstable

/-- The servo after a handler has the limits and thresholds of the one before. -/
theorem servoAfter_frame (ops : ServoOps D σ) (sys : Sys D σ) (h : Handler) :
    (servoAfter ops sys h).base.maxFrequency = sys.servo.base.maxFrequency ∧
      (servoAfter ops sys h).base.offsetThreshold = sys.servo.base.offsetThreshold := by
  cases h with
  | pathDelay t3 t4 => exact ⟨rfl, rfl⟩
  | clockUpdate t1 t2 =>
    cases hsample : updateOffset sys t1 t2 with
    | none => simp only [servoAfter, hsample, Option.elim_none, and_self]
    | some sample =>
      simp only [servoAfter, hsample, Option.elim_some, answer,
        servoSample_eq ops sys.servo sample.1.ns t2.toUInt64 sample.2 rfl,
        baseAfter_maxFrequency, baseAfter_offsetThreshold, and_self]

theorem handle_frame {ops : ServoOps D σ} {dev : DeviceConfig} {sys sys' : Sys D σ} {h : Handler}
    (hok : handle ops dev sys h = .ok sys') :
    sys'.servo.base.maxFrequency = sys.servo.base.maxFrequency ∧
      sys'.servo.base.offsetThreshold = sys.servo.base.offsetThreshold := by
  rw [(handle_eq_ok hok).2]
  exact servoAfter_frame ops sys h

theorem not_stableLock_of_zero (ops : ServoOps D σ) {sys : Sys D σ}
    (hoff : sys.servo.base.offsetThreshold = 0) (h : Handler) : ¬ StableLock ops sys h := by
  intro hstable
  cases h with
  | pathDelay t3 t4 => exact hstable
  | clockUpdate t1 t2 =>
    obtain ⟨sample, -, -, hcheck⟩ := hstable
    rw [checkOffsetThreshold_zero hoff] at hcheck
    cases hcheck

/-- **With the threshold off**, which is the default, no run reaches a stable lock, and the first
part of `corrections_right` is about all runs. -/
theorem never_stableLock (dev : DeviceConfig) {sys : Sys D (Inner D)}
    (hoff : sys.servo.base.offsetThreshold = 0) (handlers : List Handler) :
    Always (handle (servoOps pow) dev) (fun sys h => ¬ StableLock (servoOps pow) sys h) sys
      handlers := by
  have hstep : ∀ (sys : Sys D (Inner D)) h sys', sys.servo.base.offsetThreshold = 0 → True →
      handle (servoOps pow) dev sys h = .ok sys' → sys'.servo.base.offsetThreshold = 0 := by
    intro sys h sys' hoff _ hok
    rw [(handle_frame hok).2, hoff]
  have hunstable : ∀ (sys : Sys D (Inner D)) h, sys.servo.base.offsetThreshold = 0 → True →
      ¬ StableLock (servoOps pow) sys h := by
    intro sys h hoff _
    exact not_stableLock_of_zero (servoOps pow) hoff h
  exact Always.of_inv hstep hunstable hoff (always_of_forall (fun _ _ => trivial) sys handlers)

/-- **The right quantities.** In every run without a stable lock, every frequency is the negated
frequency of the servo and every step the negated offset; and in any run, a stable lock passes the
right quantity exactly if the frequency in ppb, converted to `long`, happens to be the offset in
nanoseconds. A stable lock hands the one to a function that expects the other. -/
theorem corrections_right (dev : DeviceConfig) (sys : Sys D (Inner D)) (handlers : List Handler) :
    (Always (handle (servoOps pow) dev) (fun sys h => ¬ StableLock (servoOps pow) sys h) sys
        handlers →
      Always (handle (servoOps pow) dev) (RightQuantities (servoOps pow) dev) sys handlers) ∧
    Always (handle (servoOps pow) dev)
      (fun sys h => StableLock (servoOps pow) sys h →
        (RightQuantities (servoOps pow) dev sys h ↔
          ∃ m ∈ measured (servoOps pow) sys h, QuantitiesAgree m)) sys handlers :=
  ⟨Always.imp fun _ _ hstable => rightQuantities_of_not_stable pow dev hstable,
    always_of_forall (fun _ _ hstable => rightQuantities_stable pow dev hstable) sys handlers⟩

end Servos

instance (m : Measurement D) : Decidable (QuantitiesAgree m) :=
  inferInstanceAs (Decidable (_ = _))

/-- A delay of 100 ns, and three samples: the first two at 1 s and 2 s with an offset of zero, then
one with an offset of 2000 ns that completes the lock, and one that makes it stable. -/
def lockHandlers : List Handler :=
  [.clockUpdate 1000000000 1000000100, .pathDelay 1000000050 1000000150,
    .clockUpdate 2000000000 2000000100, .clockUpdate 3000000000 3000002100,
    .clockUpdate 4000000000 4000002100]

/-- The last sample sets the phase to the frequency of the servo, -3999, while the offset is
2000 ns. -/
theorem not_rightQuantities_lock :
    ∃ program ∈ sampleProgram,
      ¬ Always (handle (servoOps powOne) program.device)
        (RightQuantities (servoOps powOne) program.device) program.sys lockHandlers := by
  have h : ∃ program ∈ sampleProgram,
      ¬ Always (handle (servoOps powOne) program.device)
        (fun sys h => ∀ m ∈ measured (servoOps powOne) sys h,
          m.state = .lockedStable → QuantitiesAgree m) program.sys lockHandlers := by
    decide +kernel
  obtain ⟨program, hprogram, hnot⟩ := h
  exact ⟨program, hprogram, fun hright => hnot
    ((always_congr (rightQuantities_iff (servoOps powOne) program.device)).mp hright)⟩

end ExternalServo
