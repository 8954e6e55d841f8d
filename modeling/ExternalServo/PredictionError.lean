import ExternalServo.Regression

/-!
# Prediction errors

For every size a regression measures how far the new sample is from the line of the last sample.
The line is stored as an intercept relative to the reference, which moves with every interval, step
and leap second. A `Charted` servo carries along where its reference is in absolute coordinates,
the lines of the last sample in these coordinates, and the errors that were counted since the last
reset.

* `Known` — the result of a size is its line, seen from the reference, and up to the tenth error the
  mean of its errors; every move of the reference keeps this (`Known.move`);
* `predictionErrors` — in every run the errors are the distances from the lines of the last sample,
  and `err` is the mean of the first ten;
* `not_predictionErrors` — the eleventh error is smoothed, although `err_updates` stays ten.
-/

namespace ExternalServo

open CArith XRat Runs

/-! ## Absolute coordinates -/

/-- A place in absolute coordinates, which do not wrap. The reference of the servo wraps around in
words of 64 bits; where it went is followed in these. -/
structure Location where
  x : Int
  y : Int

/-- The place of a reference that moved from `old` to `new`, by an `int64_t` on each axis. -/
def Location.follow (p : Location) (old new : Point XRat) : Location :=
  { x := p.x + (new.x - old.x).toInt64.toInt
    y := p.y + (new.y - old.y).toInt64.toInt }

/-- A line, by its slope and its value at zero. -/
structure Line where
  slope : ℚ
  value : ℚ

/-- The line at `x`. -/
def Line.eval (l : Line) (x : ℚ) : ℚ := l.slope * x + l.value

/-- The line with slope `a` and intercept `b` relative to a place. -/
def Line.through (p : Location) (a b : ℚ) : Line := { slope := a, value := p.y + b - a * p.x }

/-! ## The charted servo -/

section Errors

variable {D : Type} [CDouble D]

/-- The error that `regress` computes for a size: from the newest point to its line. -/
def predictionError (s : LinregServo D) (k : SizeIndex) : D :=
  CDouble.fabs ((s.results k).intercept - newestY s)

/-- `regress` counts an error: the size has enough points, and a slope from the last sample. -/
def Predicted (s : LinregServo D) (k : SizeIndex) : Prop :=
  CDouble.truthy (s.results k).slope = true ∧ k.points ≤ s.numPoints

instance (s : LinregServo D) (k : SizeIndex) : Decidable (Predicted s k) :=
  inferInstanceAs (Decidable (_ ∧ _))

end Errors

/-- The lines that were computed for the sizes with enough points, with the reference at `p`. -/
def computedLines (p : Location) (s : LinregServo XRat) (k : SizeIndex) : Option Line :=
  if k.points ≤ s.numPoints then
    some (.through p (s.results k).slope.value (s.results k).intercept.value)
  else none

/-- The errors since the last reset, after those that `regress` counts. -/
def countedErrors (s : LinregServo XRat) (errors : SizeIndex → List ℚ) (k : SizeIndex) : List ℚ :=
  if Predicted s k then (predictionError s k).value :: errors k else errors k

/-- A servo with the place of its reference, the lines of the last sample, and the errors since the
last reset, the newest first. The lines are in absolute coordinates, so a step of the clock does not
change them. -/
structure Charted where
  traced : Traced XRat
  reference : Location
  line : SizeIndex → Option Line
  errors : SizeIndex → List ℚ

/-- The servo itself. -/
def Charted.servo (c : Charted) : LinregServo XRat := c.traced.servo

/-- A servo that was just created. -/
def Charted.init (cfg : ServoConfig XRat) : Charted :=
  { traced := Traced.init cfg, reference := ⟨0, 0⟩, line := fun _ => none, errors := fun _ => [] }

/-- The place of the reference when a sample takes its regressions. -/
def Charted.sampledAt (c : Charted) (offset : Int64) (localTs : UInt64) (weight : XRat) :
    Location :=
  c.reference.follow c.servo.reference (sampled c.servo offset localTs weight).reference

/-- The chart of the servo that a call leaves. A sample computes new lines, before it steps the
clock. -/
def Charted.after (c : Charted) (traced : Traced XRat) : LinregCall XRat → Charted
  | .sample _ offset localTs weight =>
    let s := sampled c.servo offset localTs weight
    let p := c.sampledAt offset localTs weight
    { traced
      reference := p.follow s.reference traced.servo.reference
      line := computedLines p (regress s)
      errors := countedErrors s c.errors }
  | .syncInterval _ | .leap _ =>
    { c with traced, reference := c.reference.follow c.servo.reference traced.servo.reference }
  | .reset =>
    { traced
      reference := c.reference.follow c.servo.reference traced.servo.reference
      line := fun _ => none
      errors := fun _ => [] }

@[simp] theorem after_traced (c : Charted) (traced : Traced XRat) (call : LinregCall XRat) :
    (c.after traced call).traced = traced := by
  cases call <;> rfl

/-- A call on the servo. -/
def Charted.step (c : Charted) (call : LinregCall XRat) : Except Fault Charted :=
  (c.traced.step call).map fun traced => c.after traced call

/-! ## The results -/

/-- If the size has a slope, its result is the line, seen from the place `p`: the same slope, and as
intercept the distance of the line from the place. -/
def Charts (p : Location) (line : Option Line) (res : RegressResult XRat) : Prop :=
  CDouble.truthy res.slope = true →
    ∃ l ∈ line, res.slope = fin l.slope ∧ res.intercept = fin (l.eval p.x - p.y)

/-- The arithmetic mean. -/
def mean (errors : List ℚ) : ℚ := errors.sum / errors.length

/-- The result holds the mean of the errors, if these are at most ten. From then on the source
weights the old mean and the new error by constants, which is not a mean any more. -/
structure Counts (errors : List ℚ) (res : RegressResult XRat) : Prop where
  finite : IsFin res.err
  errUpdates : res.errUpdates = min errors.length ERR_INITIAL_UPDATES
  err : errors ≠ [] → errors.length ≤ ERR_INITIAL_UPDATES → res.err = fin (mean errors)

/-- What the result of a size holds, with the reference at `p`. -/
structure Known (p : Location) (line : Option Line) (errors : List ℚ) (res : RegressResult XRat) :
    Prop where
  charts : Charts p line res
  counts : Counts errors res

theorem follow_self (p : Location) (r : Point XRat) : p.follow r r = p := by
  simp [Location.follow]

/-- Where the reference is after a move. -/
theorem follow_moveReference (p : Location) (s : LinregServo XRat) (x y : Int64) :
    p.follow s.reference (moveReference s x y).reference =
      { x := p.x + x.toInt, y := p.y + y.toInt } := by
  have hadvance : ∀ (r : UInt64) (d : Int64), (r + d.toUInt64 - r).toInt64 = d := by
    intro r d
    rw [UInt64.add_comm, UInt64.add_sub_cancel, Int64.toInt64_toUInt64]
  simp only [Location.follow, moveReference, hadvance]

section Move

variable {p : Location} {line : Option Line} {errors : List ℚ} {s : LinregServo XRat}
  {k : SizeIndex}

/-- **A move of the reference keeps the line**: the intercept moves along, by what the line rises
over the way of the reference. -/
theorem Known.move (h : Known p line errors (s.results k)) (x y : Int64) :
    Known (p.follow s.reference (moveReference s x y).reference) line errors
      ((moveReference s x y).results k) := by
  refine ⟨?_, ⟨h.counts.finite, h.counts.errUpdates, h.counts.err⟩⟩
  intro hslope
  obtain ⟨l, hl, ha, hb⟩ := h.charts hslope
  refine ⟨l, hl, ha, ?_⟩
  change (s.results k).intercept + (CDouble.ofInt x.toInt * (s.results k).slope -
    CDouble.ofInt y.toInt) = _
  rw [follow_moveReference, ha, hb, ofInt_eq, ofInt_eq, fin_mul, fin_sub, fin_add, Line.eval,
    Line.eval]
  congr 1
  push_cast
  ring

theorem Known.updateReference (h : Known p line errors (s.results k)) (localTs : UInt64) :
    Known (p.follow s.reference (updateReference s localTs).reference) line errors
      ((updateReference s localTs).results k) := by
  simp only [ExternalServo.updateReference]
  split
  · exact h.move _ _
  · rw [follow_self]
    exact h

theorem Known.leap (h : Known p line errors (s.results k)) (leap : Int) :
    Known (p.follow s.reference (linregLeap s leap).reference) line errors
      ((linregLeap s leap).results k) := by
  simp only [linregLeap]
  split
  · exact h.move _ _
  · rw [follow_self]
    exact h

/-- What follows the regressions of a sample: the size is chosen, and the clock may be stepped. -/
theorem Known.sample {offset : Int64} {localTs : UInt64} {weight : XRat}
    (h : Known p line errors ((regress (sampled s offset localTs weight)).results k))
    (servo : ServoBase XRat) :
    Known (p.follow (sampled s offset localTs weight).reference
      (linregSample servo s offset localTs weight).2.2.reference) line errors
      ((linregSample servo s offset localTs weight).2.2.results k) := by
  have hreference : (linregUpdate s offset localTs weight).reference =
      (sampled s offset localTs weight).reference := by
    rw [linregUpdate, regress_eq]
    rfl
  rw [← hreference]
  have hsampled := linregSample_sampled servo s offset localTs weight
  generalize linregSample servo s offset localTs weight = result at hsampled ⊢
  cases hsampled with
  | waiting hsize =>
    rw [follow_self]
    exact h
  | stepped j ratio hsize =>
    have hupdate : Known p line errors ((linregUpdate s offset localTs weight).results k) := h
    exact hupdate.move 0 (-offset)
  | followed j ratio hsize =>
    rw [follow_self]
    exact h

end Move

/-! ## A sample -/

/-- **A sample leaves new lines.** A size with a slope has enough points, so its line is the one
that was computed now; it is the same line whether it is given by its value at zero or by its
intercept at the place. -/
theorem charts_regress {t : Traced XRat} {offset : Int64} {localTs : UInt64} {weight : XRat}
    (ht : t.Inv) (hweight : IsFin weight)
    (hdefined : RegressionsDefined (sampled t.servo offset localTs weight)) (p : Location)
    (k : SizeIndex) :
    Charts p (computedLines p (regress (sampled t.servo offset localTs weight)) k)
      ((regress (sampled t.servo offset localTs weight)).results k) := by
  intro hslope
  have htracks := (tracks_sampled ht.tracks offset localTs weight).regress
  have hpoints : k.points ≤ (regress (sampled t.servo offset localTs weight)).numPoints := by
    by_contra hfew
    obtain ⟨hzero, -⟩ := htracks.stale k (Nat.lt_of_not_le hfew)
    rw [hzero] at hslope
    simp at hslope
  obtain ⟨a, b, hline, -⟩ := regressed_line ht hweight hdefined (htracks.numPoints ▸ hpoints)
  obtain ⟨ha, hb⟩ : IsLine ((regress (sampled t.servo offset localTs weight)).results k) a b :=
    hline
  refine ⟨.through p a b, ?_, ha, ?_⟩
  · rw [computedLines, if_pos hpoints, ha, hb]
    rfl
  · rw [hb, Line.eval, Line.through]
    congr 1
    ring

/-- The remote time of a sample, if the reference is at `p` when it comes: the offset is taken from
the local time. The offset `INT64_MIN`, which has no negation, is taken for its own. -/
def measuredTime (p : Location) (offset : Int64) : Int := p.y + (-offset).toInt

theorem newestY_sampled (s : LinregServo XRat) (offset : Int64) (localTs : UInt64)
    (weight : XRat) : newestY (sampled s offset localTs weight) = fin (-offset).toInt := by
  have hpoint : (sampled s offset localTs weight).points
      (sampled s offset localTs weight).lastPoint = recordedPoint s offset localTs weight :=
    Function.update_self _ _ _
  have hy : (recordedPoint s offset localTs weight).y -
      (sampled s offset localTs weight).reference.y = (-offset).toUInt64 := by
    change (updateReference s localTs).reference.y - offset.toUInt64 -
      (updateReference s localTs).reference.y = _
    rw [Int64.toUInt64_neg, UInt64.sub_eq_add_neg (updateReference s localTs).reference.y,
      UInt64.add_comm, UInt64.add_sub_cancel]
  rw [newestY, hpoint, hy, Int64.toInt64_toUInt64, ofInt_eq]

/-- **The error is the distance** of the new sample from the line of the last one. Both are taken at
the reference, which is at the time of the new sample, so the intercept is what the line predicts
for it. -/
theorem predictionError_eq {p : Location} {line : Option Line} {s : LinregServo XRat}
    {k : SizeIndex}
    (h : Charts p line (s.results k)) (hslope : CDouble.truthy (s.results k).slope = true)
    {offset : Int64} (hy : newestY s = fin (-offset).toInt) :
    ∃ l ∈ line, predictionError s k = fin |l.eval p.x - measuredTime p offset| := by
  obtain ⟨l, hl, -, hb⟩ := h hslope
  refine ⟨l, hl, ?_⟩
  rw [predictionError, hb, hy, fin_sub, fabs_fin, measuredTime, Int.cast_add, sub_sub]

/-- What the mean is multiplied by is the number of errors, also before the first one. -/
theorem Counts.err_mul {errors : List ℚ} {res : RegressResult XRat} (h : Counts errors res)
    (hfew : res.errUpdates < ERR_INITIAL_UPDATES) :
    res.errUpdates = errors.length ∧ res.err * CDouble.ofInt res.errUpdates = fin errors.sum := by
  have hlength : res.errUpdates = errors.length := by
    have hmin := h.errUpdates
    omega
  refine ⟨hlength, ?_⟩
  rcases eq_or_ne errors [] with rfl | hne
  · -- a value from before the last reset does not matter
    obtain ⟨q, hq⟩ := h.finite
    rw [hlength, hq, ofInt_eq, fin_mul]
    simp
  · have hpos : (errors.length : ℚ) ≠ 0 := by simpa using hne
    rw [h.err hne (by omega), hlength, ofInt_eq, fin_mul, mean, Int.cast_natCast,
      div_mul_cancel₀ _ hpos]

/-- **One more error.** The update is the recursion of a mean up to the tenth error, with the number
of errors as its weight. -/
theorem Counts.updateErr {errors : List ℚ} {res : RegressResult XRat} (h : Counts errors res)
    {y0 : XRat} {e : ℚ} (hslope : CDouble.truthy res.slope = true)
    (he : CDouble.fabs (res.intercept - y0) = fin e) :
    Counts (e :: errors) (updateErr y0 res) := by
  rw [ExternalServo.updateErr, if_pos hslope]
  dsimp only
  rw [he]
  split
  · next hfew =>
    obtain ⟨hlength, hsum⟩ := h.err_mul hfew
    have hmean : (res.err * CDouble.ofInt res.errUpdates + fin e) /
        CDouble.ofInt (res.errUpdates + 1 : Nat) = fin (mean (e :: errors)) := by
      have hpos : ((errors.length + 1 : Nat) : ℚ) ≠ 0 := by positivity
      rw [hsum, hlength, ofInt_eq, fin_add, Int.cast_natCast, fin_div _ hpos, mean, List.sum_cons,
        List.length_cons, add_comm e]
    refine ⟨⟨_, hmean⟩, ?_, fun _ _ => hmean⟩
    rw [List.length_cons]
    change res.errUpdates + 1 = _
    omega
  · next hmany =>
    have hmin := h.errUpdates
    obtain ⟨q, hq⟩ := h.finite
    refine ⟨?_, ?_, ?_⟩
    · exact ⟨q + ERR_SMOOTH * (e - q), by rw [hq]; simp⟩
    · rw [List.length_cons]
      change res.errUpdates = _
      omega
    · intro _ hlength
      rw [List.length_cons] at hlength
      omega

/-- The regressions of a sample count one error more for the sizes that have a line. -/
theorem counts_regress {p : Location} {line : Option Line} {errors : SizeIndex → List ℚ}
    {s : LinregServo XRat} {k : SizeIndex} (h : Known p line (errors k) (s.results k))
    {offset : Int64} (hy : newestY s = fin (-offset).toInt) :
    Counts (countedErrors s errors k) ((regress s).results k) := by
  -- a new line does not change the errors
  have hfit : ∀ {errors sums} {res : RegressResult XRat}, Counts errors res →
      Counts errors (fitLine sums res) := fun h => ⟨h.finite, h.errUpdates, h.err⟩
  rw [regress_eq]
  change Counts _ (regressed (newestY s) s k)
  rw [regressed, countedErrors]
  by_cases hpoints : k.points ≤ s.numPoints
  · rw [if_pos hpoints]
    by_cases hslope : CDouble.truthy (s.results k).slope = true
    · obtain ⟨l, -, he⟩ := predictionError_eq h.charts hslope hy
      rw [if_pos ⟨hslope, hpoints⟩, he]
      exact hfit (h.counts.updateErr hslope he)
    · rw [if_neg fun hpredicted => hslope hpredicted.1, ExternalServo.updateErr, if_neg hslope]
      exact hfit h.counts
  · rw [if_neg hpoints, if_neg fun hpredicted => hpoints hpredicted.2]
    exact h.counts

/-! ## Runs -/

/-- The errors that a sample counts are its distances from the lines of the last sample. -/
def Predicts (c : Charted) : LinregCall XRat → Prop
  | .sample _ offset localTs weight =>
    ∀ k, Predicted (sampled c.servo offset localTs weight) k →
      ∃ l ∈ c.line k, predictionError (sampled c.servo offset localTs weight) k =
        fin |l.eval (c.sampledAt offset localTs weight).x -
          measuredTime (c.sampledAt offset localTs weight) offset|
  | .syncInterval _ | .reset | .leap _ => True

/-- From the first to the tenth error since the last reset, `err` is their mean. -/
def Averages (c : Charted) : Prop :=
  ∀ k, c.errors k ≠ [] → (c.errors k).length ≤ ERR_INITIAL_UPDATES →
    (c.servo.results k).err = fin (mean (c.errors k)) ∧
      (c.servo.results k).errUpdates = (c.errors k).length

/-- The errors of a call are distances, and leave means behind. -/
def PredictsAndAverages (c : Charted) (call : LinregCall XRat) : Prop :=
  Predicts c call ∧ ∀ c', c.step call = .ok c' → Averages c'

/-- The invariant of a charted servo: its buffer is that of the history, and what each size holds is
known from the chart. -/
structure Charted.Inv (c : Charted) : Prop where
  traced : c.traced.Inv
  known : ∀ k, Known c.reference (c.line k) (c.errors k) (c.servo.results k)

theorem charted_init (cfg : ServoConfig XRat) : (Charted.init cfg).Inv := by
  refine ⟨traced_init cfg, ?_⟩
  intro k
  refine ⟨?_, ⟨0, rfl⟩, rfl, fun hne => absurd rfl hne⟩
  intro hslope
  cases hslope

/-- What is known when a sample takes its regressions. -/
theorem Charted.Inv.sampled {c : Charted} (h : c.Inv) (offset : Int64) (localTs : UInt64)
    (weight : XRat) (k : SizeIndex) :
    Known (c.sampledAt offset localTs weight) (c.line k) (c.errors k)
      ((ExternalServo.sampled c.servo offset localTs weight).results k) :=
  (h.known k).updateReference localTs

/-- **Every call keeps the invariant.** A sample computes lines and counts errors before its step
moves the reference; a reset forgets both; a leap second moves the reference alone. -/
theorem Charted.Inv.step {c c' : Charted} {call : LinregCall XRat} (h : c.Inv)
    (hok : DividesOk c.traced call) (hstep : c.step call = .ok c') : c'.Inv := by
  obtain ⟨traced, htraced, rfl⟩ := map_eq_ok.mp hstep
  have htraced' := h.traced.step hok htraced
  refine ⟨by rwa [after_traced], ?_⟩
  intro k
  cases call with
  | sample servo offset localTs weight =>
    obtain rfl := Except.ok.inj htraced
    obtain ⟨hweight, hdefined⟩ := hok
    have hregress : Known (c.sampledAt offset localTs weight)
        (computedLines (c.sampledAt offset localTs weight)
          (regress (ExternalServo.sampled c.servo offset localTs weight)) k)
        (countedErrors (ExternalServo.sampled c.servo offset localTs weight) c.errors k)
        ((regress (ExternalServo.sampled c.servo offset localTs weight)).results k) :=
      ⟨charts_regress h.traced hweight hdefined _ k,
        counts_regress (h.sampled offset localTs weight k) (newestY_sampled _ _ _ _)⟩
    exact hregress.sample servo
  | syncInterval interval =>
    obtain rfl := Except.ok.inj htraced
    have hstay : c.reference.follow c.servo.reference c.servo.reference = c.reference :=
      follow_self _ _
    change Known (c.reference.follow c.servo.reference c.servo.reference) _ _ _
    rw [hstay]
    exact h.known k
  | reset =>
    obtain rfl := Except.ok.inj htraced
    refine ⟨?_, (h.known k).counts.finite, rfl, fun hne => absurd rfl hne⟩
    intro hslope
    cases hslope
  | leap leap =>
    obtain rfl := Except.ok.inj htraced
    exact (h.known k).leap leap

theorem Charted.Inv.predicts {c : Charted} (h : c.Inv) (call : LinregCall XRat) :
    Predicts c call := by
  cases call with
  | sample servo offset localTs weight =>
    rintro k ⟨hslope, -⟩
    exact predictionError_eq (h.sampled offset localTs weight k).charts hslope
      (newestY_sampled _ _ _ _)
  | syncInterval interval => exact trivial
  | reset => exact trivial
  | leap leap => exact trivial

theorem Charted.Inv.averages {c : Charted} (h : c.Inv) : Averages c := by
  intro k hne hfew
  have hcounts := (h.known k).counts
  refine ⟨hcounts.err hne hfew, ?_⟩
  rw [hcounts.errUpdates, Nat.min_eq_left hfew]

/-- **The errors are prediction errors.** In every run whose regressions divide by no zero, each
error is the distance of the new sample from the line of its size that the last sample computed,
wherever the reference has moved since then; and up to the tenth error since the last reset `err` is
their mean. Steps of the clock and leap seconds move the reference, and the prediction with it. -/
theorem predictionErrors (cfg : ServoConfig XRat) (calls : List (LinregCall XRat))
    (hcalls : Always Charted.step (fun c => DividesOk c.traced) (Charted.init cfg) calls) :
    Always Charted.step PredictsAndAverages (Charted.init cfg) calls := by
  refine Always.of_inv (fun c call c' => Charted.Inv.step) ?_ (charted_init cfg) hcalls
  intro c call h hok
  refine ⟨h.predicts call, ?_⟩
  intro c' hstep
  exact (h.step hok hstep).averages

/-- The common part of a servo that steps its clock by more than a microsecond, and changes no
frequency. -/
def steppingOnly : ServoBase XRat :=
  { maxFrequency := fin 0, stepThreshold := fin 1000, firstStepThreshold := fin 0,
    firstUpdate := true, offsetThreshold := 0, numOffsetValues := 0, currOffsetValues := 0 }

/-- Four samples of which the last one steps the clock by two microseconds, a leap second, a fifth
sample 10 ns above their line, which steps the clock back, and a sixth one on the new line. -/
def leapCalls : List (LinregCall XRat) :=
  [.syncInterval (fin 1), .sample steppingOnly 2000 1000000000 (fin 1),
    .sample steppingOnly 2000 2000000000 (fin 1), .sample steppingOnly 2000 3000000000 (fin 1),
    .sample steppingOnly 2000 4000000000 (fin 1), .leap 1, .leap 0,
    .sample steppingOnly 999999990 4999998000 (fin 1),
    .sample steppingOnly 0 4999998010 (fin 1)]

/-- The fifth sample is 10 ns above the line of the first four, and both the step back by two
microseconds and the leap second move the reference before it. The errors of the smallest size are
the measured distances all the same: 10 ns for the fifth sample and none for the sixth. -/
theorem predictionErrors_leap :
    (∃ c ∈ (leapCalls.foldlM Charted.step (Charted.init .zero)).toOption, c.errors 0 = [0, 10]) ∧
      Always Charted.step PredictsAndAverages (Charted.init .zero) leapCalls :=
  ⟨by decide +kernel, predictionErrors .zero leapCalls (by decide +kernel)⟩

/-- Fifteen samples, one a second, of a clock without an offset, but of 1100 ns in the last one. -/
def spikeCalls : List (LinregCall XRat) :=
  .syncInterval (fin 1) :: (List.range 15).map fun i =>
    .sample steppingOnly (if i = 14 then 1100 else 0) (UInt64.ofNat (1000000000 * (i + 1))) (fin 1)

/-- Four samples of a clock that is one nanosecond ahead. -/
def aheadCalls : List (LinregCall XRat) :=
  .syncInterval (fin 1) :: (List.range 4).map fun i =>
    .sample steppingOnly 1 (UInt64.ofNat (1000000000 * (i + 1))) (fin 1)

/-- The eleventh error is smoothed, while `err_updates` stays ten; and the offset `INT64_MIN` of a
fifth sample is not taken from the local time. -/
theorem not_predictionErrors :
    (Always Charted.step (fun c => DividesOk c.traced) (Charted.init .zero) spikeCalls ∧
      ∃ c ∈ (spikeCalls.foldlM Charted.step (Charted.init .zero)).toOption,
        (c.errors 0).length = 11 ∧ (c.servo.results 0).errUpdates ≤ ERR_INITIAL_UPDATES ∧
          mean (c.errors 0) = 100 ∧ (c.servo.results 0).err = fin 22) ∧
    Always Charted.step (fun c => DividesOk c.traced) (Charted.init .zero)
      (aheadCalls ++ [.sample steppingOnly Int64.minValue 5000000000 (fin 1)]) ∧
      ∃ c ∈ (aheadCalls.foldlM Charted.step (Charted.init .zero)).toOption,
        let s := sampled c.servo Int64.minValue 5000000000 (fin 1)
        let p := c.sampledAt Int64.minValue 5000000000 (fin 1)
        Predicted s 0 ∧ ∃ l ∈ c.line 0,
          predictionError s 0 ≠ fin |l.eval p.x - (p.y - Int64.minValue.toInt)| := by
  decide +kernel

end ExternalServo
