import ExternalServo.FilterWindow
import ExternalServo.Requests

/-!
# What the program computes from what it heard

A `Ledger` is the program without its memory: it keeps a journal of the messages, the newest
first, and computes every sample from the journal alone. A sync message since the last step of the
clock is the down measurement (`lastDown`), a delay message the up measurement (`lastUp`); a delay
message that finds a sync message to go with yields a raw delay (`rawDelays`), and the filtered
delay is the mean or the median of the last of them (`filteredDelay`). `sampleOf` is the sample of
a sync message, in the four modes.

`program_refines_ledger`: over every list of events a started program makes the adjustments of the
ledger and hands its samples to the servo, whatever it keeps in the fields of `struct tsproc` and
in the ring buffers of the filters.
-/

namespace ExternalServo

open CArith Runs SlidingWindow

variable {D σ : Type} [CDouble D]

/-! ## The journal -/

/-- A message that was handled, with its times as they were passed on. A journal is a list of these,
the newest first, and nothing else is kept. -/
inductive Heard (D : Type) : Type where
  /-- a sync message; if it was a sample, the rate ratio of the servo and whether it steps -/
  | sync (t1 t2 : Int64) (answer : Option (D × Bool)) : Heard D
  /-- a delay message -/
  | delay (t3 t4 : Int64) : Heard D

/-- The clock was stepped after the message. -/
def Heard.steps : Heard D → Bool
  | .sync _ _ (some (_, true)) => true
  | _ => false

/-- The times of a sync message. -/
def Heard.down : Heard D → Option (Int64 × Int64)
  | .sync t1 t2 _ => some (t1, t2)
  | .delay _ _ => none

/-- The times of a delay message. -/
def Heard.up : Heard D → Option (Int64 × Int64)
  | .sync _ _ _ => none
  | .delay t3 t4 => some (t3, t4)

/-- The rate ratio that the servo answered with. -/
def Heard.ratio : Heard D → Option D
  | .sync _ _ answer => answer.map Prod.fst
  | .delay _ _ => none

/-- The messages since the clock was last stepped. The step itself is after its message, so that
message is from before it. -/
def sinceStep (journal : List (Heard D)) : List (Heard D) := journal.takeWhile fun m => !m.steps

/-- The latest down measurement since the last step; zero times stand for none. -/
def lastDown (journal : List (Heard D)) : Int64 × Int64 :=
  ((sinceStep journal).findSome? Heard.down).getD (0, 0)

/-- The latest up measurement since the last step. -/
def lastUp (journal : List (Heard D)) : Int64 × Int64 :=
  ((sinceStep journal).findSome? Heard.up).getD (0, 0)

/-- The rate ratio that the servo last answered with, across the steps. Before the first answer it
is one. -/
def lastRatio (journal : List (Heard D)) : D :=
  (journal.findSome? Heard.ratio).getD (CDouble.lit 1)

/-- Half of the round trip of two messages, with the time between them in the rate of the
master. -/
def roundTripDelay (ratio : D) (down up : Int64 × Int64) : Tmv :=
  let t23 := down.2 - up.1
  let t23 :=
    if CDouble.eq ratio (CDouble.lit 1) then t23
    else CDouble.toInt64 (CDouble.ofInt t23.toInt * ratio)
  ⟨(t23 + (up.2 - down.1)) / 2⟩

/-- The raw delays, the newest first: a delay message yields one if it has a local time and there
is a down measurement since the last step. -/
def rawDelays : List (Heard D) → List Tmv
  | [] => []
  | .sync _ _ _ :: journal => rawDelays journal
  | .delay t3 t4 :: journal =>
    if (lastDown journal).2 = 0 ∨ t3 = 0 then rawDelays journal
    else roundTripDelay (lastRatio journal) (lastDown journal) (t3, t4) :: rawDelays journal

/-! ## Samples -/

/-- How delays are processed. -/
structure Processing where
  mode : TsprocMode
  filter : FilterType
  /-- the length of the filter -/
  length : Nat

/-- The processing that a device is configured for. -/
def processingOf (dev : DeviceConfig) : Option Processing := do
  let mode ← TsprocMode.ofRaw dev.mode
  let filter ← FilterType.ofRaw dev.filter
  return { mode, filter, length := dev.filterLen.toNat }

/-- The statistic of a window of delays. -/
def FilterType.statistic : FilterType → List Tmv → Tmv
  | .movingAverage => windowMean
  | .movingMedian => windowMedian

/-- The statistic of the last raw delays, across the steps of the clock: a step resets the stamps of
the processor, and its delay filter stays as it is. -/
def filteredDelay (p : Processing) (journal : List (Heard D)) : Option Tmv :=
  if rawDelays journal = [] then none
  else some (p.filter.statistic ((rawDelays journal).take p.length).reverse)

/-- The weight of a sample: less for a delay above the filtered one. -/
def weightOf (filtered raw : Tmv) : D :=
  if 0 < filtered.ns ∧ 0 < raw.ns then
    let weight : D := CDouble.ofInt filtered.ns.toInt / CDouble.ofInt raw.ns.toInt
    if CDouble.lt (CDouble.lit 1) weight then CDouble.lit 1 else weight
  else CDouble.lit 1

/-- The sample of a sync message that was heard after the journal: its offset and weight. -/
def sampleOf (p : Processing) (journal : List (Heard D)) (t1 t2 : Int64) : Option (Int64 × D) :=
  let raw := roundTripDelay (lastRatio journal) (t1, t2) (lastUp journal)
  let filtered := filteredDelay p journal
  if t1 = 0 ∨ t2 = 0 then none
  else if p.mode ≠ .filter ∧ (lastUp journal).1 = 0 then none
  else
    match p.mode with
    | .filter => filtered.map fun delay => (t2 - t1 - delay.ns, CDouble.lit 1)
    | .raw => some (t2 - t1 - raw.ns, CDouble.lit 1)
    | .filterWeight => filtered.map fun delay => (t2 - t1 - delay.ns, weightOf delay raw)
    | .rawWeight => some (t2 - t1 - raw.ns, weightOf (filtered.getD tmvZero) raw)

/-- A round trip of two seconds, of which the slave is ahead by one. -/
example : sampleOf ⟨.filterWeight, .movingMedian, 1⟩
    ([.delay 7 7, .sync 5 7 none] : List (Heard XRat)) 8 10 = some (1, .fin 1) := by
  decide +kernel

/-- The journal, the servo, and the adjustments so far. Of the program this keeps the servo alone;
the processor and its filters are computed from the journal when they are needed. -/
structure Ledger (D σ : Type) where
  journal : List (Heard D)
  servo : Servo D σ
  calls : List (ClockCall D)

/-- A message is noted, and if it is a sample, answered by the servo. -/
def Ledger.step (p : Processing) (ops : ServoOps D σ) (dev : DeviceConfig) (l : Ledger D σ) :
    Handler → Ledger D σ
  | .clockUpdate t1 t2 =>
    match sampleOf p l.journal t1 t2 with
    | none => { l with journal := .sync t1 t2 none :: l.journal }
    | some (offset, weight) =>
      let (adj, state, servo) := servoSample ops l.servo offset t2.toUInt64 weight
      { journal := .sync t1 t2 (some (servoRateRatio ops servo, state = .jump)) :: l.journal
        servo, calls := l.calls ++ corrections dev state adj offset }
  | .pathDelay t3 t4 => { l with journal := .delay t3 t4 :: l.journal }

/-! ## The fields of the processor -/

section Journal

variable {journal : List (Heard D)} {t1 t2 : Int64} {answer : Option (D × Bool)}

omit [CDouble D] in
theorem sinceStep_cons (m : Heard D) :
    sinceStep (m :: journal) = if m.steps then [] else m :: sinceStep journal := by
  rw [sinceStep, List.takeWhile_cons]
  cases m.steps with
  | true => rfl
  | false => rfl

omit [CDouble D] in
theorem lastDown_sync : lastDown (.sync t1 t2 answer :: journal) =
    if (Heard.sync t1 t2 answer).steps then (0, 0) else (t1, t2) := by
  rw [lastDown, sinceStep_cons]
  split <;> rfl

omit [CDouble D] in
theorem lastUp_sync : lastUp (.sync t1 t2 answer :: journal) =
    if (Heard.sync t1 t2 answer).steps then (0, 0) else lastUp journal := by
  rw [lastUp, sinceStep_cons]
  split <;> rfl

end Journal

/-- The filter of a device returns the statistic it is configured for. -/
theorem filterCreate_statistic {grants : Nat → Bool} {type : UInt32} {length : Int} {f : Filter}
    (h : filterCreate grants type length = some f) :
    ∃ kind, FilterType.ofRaw type = some kind ∧ ∀ w, f.statistic w = kind.statistic w := by
  unfold filterCreate at h
  split at h
  · next htype =>
    obtain ⟨m, -, rfl⟩ := Option.map_eq_some_iff.mp h
    exact ⟨.movingAverage, htype, fun _ => rfl⟩
  · next htype =>
    obtain ⟨m, -, rfl⟩ := Option.map_eq_some_iff.mp h
    exact ⟨.movingMedian, htype, fun _ => rfl⟩
  · cases h

/-- **The refinement**: the fields of the processor are functions of the journal. The ring buffers
are covered by the window of the filter, which holds the newest raw delays of the journal. -/
structure Journaled (p : Processing) (sys : Sys D σ) (l : Ledger D σ) : Prop where
  servo : sys.servo = l.servo
  calls : sys.calls = l.calls
  mode : sys.tsp.mode = p.mode
  ratio : sys.tsp.clockRateRatio = lastRatio l.journal
  down : (sys.tsp.t1.ns, sys.tsp.t2.ns) = lastDown l.journal
  up : (sys.tsp.t3.ns, sys.tsp.t4.ns) = lastUp l.journal
  filtered : sys.tsp.filteredDelay = (filteredDelay p l.journal).getD tmvZero
  valid : sys.tsp.filteredDelayValid = (filteredDelay p l.journal).isSome
  statistic : ∀ w, sys.tsp.delayFilter.statistic w = p.filter.statistic w
  len : sys.tsp.delayFilter.len = p.length
  window : sys.tsp.delayFilter.Tracks ((rawDelays l.journal).take p.length).reverse

/-! ### Samples -/

/-- The raw delay of the processor. -/
theorem getRawDelay_eq (tsp : Tsproc D) : getRawDelay tsp =
    roundTripDelay tsp.clockRateRatio (tsp.t1.ns, tsp.t2.ns) (tsp.t3.ns, tsp.t4.ns) := by
  unfold getRawDelay roundTripDelay
  cases CDouble.eq tsp.clockRateRatio (CDouble.lit 1) with
  | true => rfl
  | false => rfl

theorem tmvSign_pos_iff {x : Tmv} : tmvSign x > 0 ↔ 0 < x.ns := by
  unfold tmvSign
  split
  · next hzero => simp [hzero]
  · split
    · next hpos => simp [hpos]
    · next hneg => simp [hneg]

/-- The weight of a sample, in the modes that have one. -/
theorem offsetWeight_eq (tsp : Tsproc D) (raw : Tmv) : offsetWeight tsp raw =
    if weighting tsp then weightOf tsp.filteredDelay raw else CDouble.lit 1 := by
  unfold offsetWeight weightOf
  simp only [Bool.and_eq_true, decide_eq_true_eq, tmvSign_pos_iff, tmvDbl, and_assoc]
  cases weighting tsp with
  | true =>
    simp only [true_and, if_true]
    exact if_congr Iff.rfl rfl rfl
  | false => simp only [Bool.false_eq_true, false_and, if_false]

/-- The sample of a sync message. The fields of the processor are replaced by what the journal says
of them, and then the two definitions are compared mode by mode. -/
theorem Journaled.sample {p : Processing} {sys : Sys D σ} {l : Ledger D σ}
    (h : Journaled p sys l) (t1 t2 : Int64) :
    (tsprocUpdateOffset (tsprocDownTs sys.tsp ⟨t1⟩ ⟨t2⟩)).map (fun s => (s.1.ns, s.2)) =
      sampleOf p l.journal t1 t2 := by
  set tsp := tsprocDownTs sys.tsp ⟨t1⟩ ⟨t2⟩ with htsp
  have hraw : getRawDelay tsp =
      roundTripDelay (lastRatio l.journal) (t1, t2) (lastUp l.journal) := by
    rw [getRawDelay_eq, ← h.ratio, ← h.up]
    rfl
  have hup : tmvIsZero tsp.t3 = decide ((lastUp l.journal).1 = 0) := by
    rw [← h.up]
    rfl
  have hmode : tsp.mode = p.mode := h.mode
  have hfiltered : tsp.filteredDelay = (filteredDelay p l.journal).getD tmvZero := h.filtered
  have hvalid : tsp.filteredDelayValid = (filteredDelay p l.journal).isSome := h.valid
  unfold tsprocUpdateOffset sampleOf
  have hdown : (tmvIsZero tsp.t1 || tmvIsZero tsp.t2) = decide (t1 = 0 ∨ t2 = 0) := by
    rw [Bool.decide_or]
    rfl
  rw [hdown]
  by_cases hzero : t1 = 0 ∨ t2 = 0
  · simp [hzero]
  rw [if_neg (by simpa using hzero), if_neg hzero]
  simp only [offsetDelay, offsetWeight_eq, weighting, hmode, hraw, hup, hfiltered, hvalid]
  cases p.mode with
  | filter =>
    cases filteredDelay p l.journal with
    | none => simp
    | some delay => simp [tmvSub, tsprocDownTs, htsp]
  | raw | rawWeight =>
    by_cases hmissing : (lastUp l.journal).1 = 0
    · simp [hmissing]
    · simp [hmissing, tmvSub, tsprocDownTs, htsp]
  | filterWeight =>
    by_cases hmissing : (lastUp l.journal).1 = 0
    · simp [hmissing]
    · cases filteredDelay p l.journal with
      | none => simp
      | some delay => simp [hmissing, tmvSub, tsprocDownTs, htsp]

/-! ### Steps -/

section Steps

variable {p : Processing} {sys : Sys D σ} {l : Ledger D σ}

/-- A sync message. Without an offset it is only noted. With one, the servo answers the same in
both, and after a step the two latest measurements are zero in the processor and none in the
journal. -/
theorem Journaled.clockUpdate (h : Journaled p sys l) (ops : ServoOps D σ) (dev : DeviceConfig)
    (t1 t2 : Int64) : ∃ sys', clockUpdate ops dev sys t1 t2 = .ok sys' ∧
      Journaled p sys' (l.step p ops dev (.clockUpdate t1 t2)) := by
  have hsample := h.sample t1 t2
  cases hoffset : tsprocUpdateOffset (tsprocDownTs sys.tsp ⟨t1⟩ ⟨t2⟩) with
  | none =>
    rw [hoffset, Option.map_none] at hsample
    refine ⟨_, clockUpdate_of_none hoffset, ?_⟩
    simp only [Ledger.step, ← hsample]
    exact { h with down := rfl }
  | some sample =>
    obtain ⟨offset, weight⟩ := sample
    rw [hoffset, Option.map_some] at hsample
    obtain ⟨adj, state, servo, hanswer⟩ : ∃ adj state servo,
        servoSample ops sys.servo offset.ns t2.toUInt64 weight = (adj, state, servo) :=
      ⟨_, _, _, rfl⟩
    refine ⟨_, clockUpdate_of_some hoffset hanswer, ?_⟩
    rw [h.servo] at hanswer
    simp only [Ledger.step, ← hsample, hanswer]
    by_cases hjump : state = .jump
    · -- the clock is stepped: the messages so far are no measurements any more
      rw [afterSample, if_pos hjump]
      exact { h with
        servo := rfl, calls := congrArg (· ++ _) h.calls, ratio := rfl
        down := by simp [lastDown_sync, Heard.steps, hjump, tmvZero]
        up := by simp [lastUp_sync, Heard.steps, hjump, tmvZero] }
    · rw [afterSample, if_neg hjump]
      exact { h with
        servo := rfl, calls := congrArg (· ++ _) h.calls, ratio := rfl
        down := by simp [lastDown_sync, Heard.steps, hjump, tsprocSetClockRateRatio, tsprocDownTs]
        up := by
          simp only [lastUp_sync, Heard.steps, hjump, decide_false]
          exact h.up }

/-- A delay message. If the update is refused, the raw delays and their statistic are as before;
otherwise the new raw delay is the first of the list, and the window of the filter slides over it.
-/
theorem Journaled.pathDelay (h : Journaled p sys l) (ops : ServoOps D σ) (dev : DeviceConfig)
    (t3 t4 : Int64) : ∃ sys', pathDelay sys t3 t4 = .ok sys' ∧
      Journaled p sys' (l.step p ops dev (.pathDelay t3 t4)) := by
  set tsp := tsprocUpTs sys.tsp ⟨t3⟩ ⟨t4⟩ with htsp
  have hraw : getRawDelay tsp =
      roundTripDelay (lastRatio l.journal) (lastDown l.journal) (t3, t4) := by
    rw [getRawDelay_eq, ← h.ratio, ← h.down]
    rfl
  have hrun : ExternalServo.pathDelay sys t3 t4 =
      (tsprocUpdateDelay tsp).map fun r => { sys with tsp := r.2 } := rfl
  have hguard : (tmvIsZero tsp.t2 || tmvIsZero tsp.t3) = true ↔
      (lastDown l.journal).2 = 0 ∨ t3 = 0 := by
    rw [Bool.or_eq_true, ← h.down]
    simp [tmvIsZero, htsp, tsprocUpTs]
  by_cases hzero : (lastDown l.journal).2 = 0 ∨ t3 = 0
  · -- the delay update is refused
    have hraws : rawDelays (.delay t3 t4 :: l.journal) = rawDelays l.journal := by
      rw [rawDelays, if_pos hzero]
    have hsame : filteredDelay p (.delay t3 t4 :: l.journal) = filteredDelay p l.journal := by
      rw [filteredDelay, hraws, filteredDelay]
    refine ⟨{ sys with tsp }, ?_, ?_⟩
    · rw [hrun, tsprocUpdateDelay, if_pos (hguard.mpr hzero)]
      rfl
    · exact { h with
        up := rfl
        filtered := h.filtered.trans (congrArg (Option.getD · tmvZero) hsame.symm)
        valid := h.valid.trans (congrArg Option.isSome hsame.symm)
        window := hraws ▸ h.window }
  · -- the raw delay is fed to the filter
    have hraws : rawDelays (.delay t3 t4 :: l.journal) =
        getRawDelay tsp :: rawDelays l.journal := by
      rw [rawDelays, if_neg hzero, hraw]
    have hslide : slide p.length ((rawDelays l.journal).take p.length).reverse (getRawDelay tsp) =
        ((rawDelays (.delay t3 t4 :: l.journal)).take p.length).reverse := by
      rw [slide_reverse_take, hraws]
    obtain ⟨filter', hsample, htracks, hkind⟩ := filterSample_spec h.window (getRawDelay tsp)
    rw [h.len, hslide, h.statistic] at hsample
    rw [h.len, hslide] at htracks
    obtain ⟨filtered, hvalue⟩ : ∃ filtered, p.filter.statistic
        ((rawDelays (.delay t3 t4 :: l.journal)).take p.length).reverse = filtered := ⟨_, rfl⟩
    have hfiltered : filteredDelay p (.delay t3 t4 :: l.journal) = some filtered := by
      rw [filteredDelay, if_neg (by simp [hraws]), hvalue]
    rw [hvalue] at hsample
    refine ⟨{ sys with tsp := { tsp with
      filteredDelay := filtered, delayFilter := filter', filteredDelayValid := true } }, ?_, ?_⟩
    · rw [hrun, tsprocUpdateDelay_of_sample (mt hguard.mp hzero) hsample]
      rfl
    · exact { h with
        up := rfl
        filtered := by simp only [Ledger.step, hfiltered, Option.getD_some]
        valid := by simp only [Ledger.step, hfiltered, Option.isSome_some]
        statistic := fun w => (hkind.statistic_eq w).trans (h.statistic w)
        len := hkind.len_eq.trans h.len
        window := htracks }

end Steps

/-! ## Runs -/

/-- The calls that the events lead to, which only the receive loop decides on: neither the processor
nor the servo has a say in which handler comes next. -/
def dispatched : Locals → List Event → List Handler
  | _, [] => []
  | locals, .idle :: events => dispatched locals events
  | locals, .readable recv :: events =>
    (receive locals recv).2.toList ++ dispatched (receive locals recv).1 events

/-- The receive loop makes these calls, one after the other, and stops at the first that faults. Its
locals do not depend on what the calls do. -/
theorem loop_dispatched (ops : ServoOps D σ) (dev : DeviceConfig) (locals : Locals)
    (sys : Sys D σ) (events : List Event) :
    (events.foldlM (loopStep ops dev) ⟨locals, sys⟩).map Loop.sys =
      (dispatched locals events).foldlM (handle ops dev) sys := by
  induction events generalizing locals sys with
  | nil => rfl
  | cons event events ih =>
    cases event with
    | idle => exact ih locals sys
    | readable recv =>
      have hloop : loopStep ops dev ⟨locals, sys⟩ (.readable recv) =
          (effect ops dev sys (receive locals recv).2).map fun sys =>
            ⟨(receive locals recv).1, sys⟩ := rfl
      rw [dispatched, List.foldlM_cons, List.foldlM_append, hloop]
      cases (receive locals recv).2 with
      | none => exact ih _ sys
      | some handler =>
        have hone : (some handler).toList.foldlM (handle ops dev) sys =
            handle ops dev sys handler := by
          rw [Option.toList_some, List.foldlM_cons]
          exact bind_pure _
        rw [hone, effect]
        cases handle ops dev sys handler with
        | error e => rfl
        | ok sys' => exact ih _ sys'

/-- A program that was just started has heard nothing: its journal is empty, and its filter has no
delay yet. -/
theorem startup_journaled {pow : D → D → D} {host : Host} {globals : Globals D}
    {program : Program D} (hstart : startup pow host globals = some program)
    (hlength : 1 ≤ program.device.filterLen) :
    ∃ p ∈ processingOf program.device,
      Journaled p program.sys ⟨[], program.sys.servo, program.sys.calls⟩ := by
  unfold startup at hstart
  simp only [Option.bind_eq_bind, Option.bind_eq_some_iff, Option.pure_def, Option.some.injEq]
    at hstart
  obtain ⟨_, -, dev, -, tsp, htsp, limit, -, fadj, -, servo, -, rfl⟩ := hstart
  obtain ⟨hmode, hfilter, htsp⟩ := tsprocCreate_eq_some htsp
  obtain ⟨kind, hkind, hstatistic⟩ := filterCreate_statistic hfilter
  obtain ⟨htracks, hlen⟩ := filterCreate_tracks (by exact hlength) hfilter
  refine ⟨⟨tsp.mode, kind, dev.filterLen.toNat⟩, ?_, ?_⟩
  · simp [processingOf, hmode, hkind]
  · rw [htsp]
    exact {
      servo := rfl, calls := rfl, mode := rfl, ratio := rfl, down := rfl, up := rfl
      filtered := rfl, valid := rfl, statistic := hstatistic
      len := by
        dsimp only
        omega
      window := by simpa [rawDelays] using htracks }

/-- A call keeps the journal. -/
theorem Journaled.step {p : Processing} {sys : Sys D σ} {l : Ledger D σ} (h : Journaled p sys l)
    (ops : ServoOps D σ) (dev : DeviceConfig) (handler : Handler) :
    ∃ sys', handle ops dev sys handler = .ok sys' ∧
      Journaled p sys' (l.step p ops dev handler) := by
  cases handler with
  | clockUpdate t1 t2 => exact h.clockUpdate ops dev t1 t2
  | pathDelay t3 t4 => exact h.pathDelay ops dev t3 t4

/-- **The program computes from what it heard.** Over every list of events, a started program with a
filter that is not empty runs without a fault, and its servo and its adjustments are those of the
ledger, which keeps nothing but the journal. So every offset that the servo gets is a function of
the messages before it, and of the answers of the servo to them. -/
theorem program_refines_ledger {pow : D → D → D} {host : Host} {globals : Globals D}
    {program : Program D} (hstart : startup pow host globals = some program)
    (hlength : 1 ≤ program.device.filterLen) (locals : Locals) (events : List Event) :
    ∃ p ∈ processingOf program.device, ∃ loop,
      events.foldlM (loopStep (servoOps pow) program.device) ⟨locals, program.sys⟩ = .ok loop ∧
      let l := (dispatched locals events).foldl (Ledger.step p (servoOps pow) program.device)
        ⟨[], program.sys.servo, program.sys.calls⟩
      loop.sys.servo = l.servo ∧ loop.sys.calls = l.calls := by
  obtain ⟨p, hp, hjournaled⟩ := startup_journaled hstart hlength
  have hstep : ∀ (sys : Sys D (Inner D)) (l : Ledger D (Inner D)) handler, Journaled p sys l →
      ∃ sys', handle (servoOps pow) program.device sys handler = .ok sys' ∧
        Journaled p sys' (l.step p (servoOps pow) program.device handler) := by
    intro sys l handler h
    exact h.step (servoOps pow) program.device handler
  obtain ⟨sys, hrun, h⟩ := run_fold hstep hjournaled (dispatched locals events)
  rw [← loop_dispatched] at hrun
  obtain ⟨loop, hloop, rfl⟩ := map_eq_ok.mp hrun
  exact ⟨p, hp, loop, hloop, h.servo, h.calls⟩

/-- The sample program over messages that lock its servo: the servo and the adjustments of the
clocks are those that the ledger computes from nothing but the list of the calls. -/
theorem program_refines_ledger_lock :
    ∃ globals ∈ sampleGlobals, ∃ program ∈ startup powOne sampleHost globals,
      ∃ p ∈ processingOf program.device, ∃ loop,
        lockEvents.foldlM (loopStep (servoOps powOne) program.device)
          ⟨zeroLocals, program.sys⟩ = .ok loop ∧
        let l := (dispatched zeroLocals lockEvents).foldl
          (Ledger.step p (servoOps powOne) program.device)
          ⟨[], program.sys.servo, program.sys.calls⟩
        loop.sys.servo = l.servo ∧ loop.sys.calls = l.calls := by
  have h : ∃ globals ∈ sampleGlobals, ∃ program ∈ startup powOne sampleHost globals,
      1 ≤ program.device.filterLen := by
    decide +kernel
  obtain ⟨globals, hglobals, program, hprogram, hlength⟩ := h
  exact ⟨globals, hglobals, program, hprogram,
    program_refines_ledger hprogram hlength zeroLocals lockEvents⟩

end ExternalServo
