import ExternalServo.LinregWindow
import ExternalServo.ServoBounds

/-!
# What the regression servo computes

In exact arithmetic, and while no divisor of a regression vanishes, a sample leaves for every size
with enough samples the regression line through exactly that many newest samples since the last
reset, and chooses one of these sizes or none. The coordinates are relative to the reference at
the time of the sample; a step of the clock moves the reference, and with it the intercepts.

* `fitsWindow_step` — one sample of a servo whose buffer is the window of the samples;
* `fitsWindow` — every run;
* `not_fitsUnmoved_jump` — after a step the lines are not those of the reference before it.
-/

namespace ExternalServo

open CArith XRat Runs LeastSquares

/-! ## The lines of a sample -/

/-- By how much a sample moves the intercepts after its regressions: a step of the clock by the
negated offset moves the reference. -/
def moved (state : ServoState) (offset : Int64) : ℚ :=
  if state = .jump then -(-offset).toInt else 0

/-- The result is the line with slope `a` and intercept `b`. -/
def IsLine (res : RegressResult XRat) (a b : ℚ) : Prop := res.slope = fin a ∧ res.intercept = fin b

/-- The points of a size for a sample, relative to the reference at the time of the sample: the
newest samples since the last reset, this one included. The trace of the samples is kept apart from
the buffer, so that the buffer is compared with what it should hold. -/
def sampleData (t : Traced XRat) (offset : Int64) (localTs : UInt64) (weight : XRat)
    (k : SizeIndex) : List (Datum ℚ) :=
  windowData (updateReference t.servo localTs).reference
    (recordedPoint t.servo offset localTs weight :: t.history) k

/-- The number of samples since the last reset after another one, up to the capacity. -/
def windowLength (t : Traced XRat) : Nat := min (t.history.length + 1) MAX_POINTS

/-- After a sample every size with enough samples has the one line that solves its normal equations,
moved by the step that the sample makes; and the size that is chosen, if any, is one of these. The
move only changes the intercept, as the reference moves along the y axis. -/
def FitsWindow (t : Traced XRat) : LinregCall XRat → Prop
  | .sample servo offset localTs weight =>
    (∀ k, k.points ≤ windowLength t → ∃ a b,
      IsLine ((linregSample servo t.servo offset localTs weight).2.2.results k) a
        (b + moved (linregSample servo t.servo offset localTs weight).2.1 offset) ∧
      ∀ a' b', NormalEquations (sampleData t offset localTs weight k) a' b' ↔ a' = a ∧ b' = b) ∧
    ∀ k, (linregSample servo t.servo offset localTs weight).2.2.size = some k →
      k.points ≤ windowLength t
  | .syncInterval _ | .reset | .leap _ => True

/-- A sample has a rational weight, and its regressions divide by no zero. -/
def DividesOk (t : Traced XRat) : LinregCall XRat → Prop
  | .sample _ offset localTs weight =>
    IsFin weight ∧ RegressionsDefined (sampled t.servo offset localTs weight)
  | .syncInterval _ | .reset | .leap _ => True

instance (t : Traced XRat) : (call : LinregCall XRat) → Decidable (DividesOk t call)
  | .sample _ _ _ _ => inferInstanceAs (Decidable (_ ∧ _))
  | .syncInterval _ | .reset | .leap _ => isTrue trivial

/-- The invariant of a traced servo: the buffer is the window of the samples, which have rational
weights. It does not mention the lines, which every sample computes anew. -/
structure Traced.Inv (t : Traced XRat) : Prop where
  tracks : Tracks t.servo t.history
  weights : ∀ l ∈ t.history, IsFin l.w

section Sample

variable {t : Traced XRat} {offset : Int64} {localTs : UInt64} {weight : XRat}

/-- The line that a regression computes for a size is the one solution of the normal equations of
its points: the newest samples, the one that was just stored among them. -/
theorem regressed_line (ht : t.Inv) (hweight : IsFin weight)
    (hdefined : RegressionsDefined (sampled t.servo offset localTs weight)) {k : SizeIndex}
    (hk : k.points ≤ windowLength t) :
    ∃ a b, IsLine ((linregUpdate t.servo offset localTs weight).results k) a b ∧
      ∀ a' b', NormalEquations (sampleData t offset localTs weight k) a' b' ↔
        a' = a ∧ b' = b := by
  have htracks := tracks_sampled ht.tracks offset localTs weight
  have hweights : ∀ l ∈ recordedPoint t.servo offset localTs weight :: t.history, IsFin l.w :=
    List.forall_mem_cons.mpr ⟨hweight, ht.weights⟩
  have hpoints : k.points ≤ (sampled t.servo offset localTs weight).numPoints :=
    htracks.numPoints ▸ hk
  have hsums : newestSums (sampled t.servo offset localTs weight) k.points =
      .ofData (sampleData t offset localTs weight k) := newestSums_ofData htracks hweights hpoints
  -- the divisors are those of the samples
  obtain ⟨hwSum, hdenominator⟩ := hdefined k hpoints
  rw [hsums] at hwSum hdenominator
  have hw : LeastSquares.weight (sampleData t offset localTs weight k) ≠ 0 := by
    intro hzero
    exact hwSum (congrArg fin hzero)
  have hs : spread (sampleData t offset localTs weight k) ≠ 0 := by
    intro hzero
    rw [denominator_ofData hw, hzero] at hdenominator
    exact hdenominator rfl
  refine ⟨_, _, ?_, normalEquations_iff hw hs⟩
  have hresult : (linregUpdate t.servo offset localTs weight).results k =
      regressed (newestY (sampled t.servo offset localTs weight))
        (sampled t.servo offset localTs weight) k := by
    rw [linregUpdate, ← sampled, regress_eq]
    rfl
  rw [hresult, regressed, if_pos hpoints, hsums]
  exact fitLine_ofData hw hs _

/-- The size that a sample chooses. -/
theorem linregUpdate_size (ht : t.Inv) {k : SizeIndex}
    (hk : (linregUpdate t.servo offset localTs weight).size = some k) :
    k.points ≤ windowLength t := by
  have htracks := (tracks_sampled ht.tracks offset localTs weight).regress
  have hle := size_le htracks hk
  rw [htracks.numPoints] at hle
  exact hle

/-- A step moves a line with the reference. -/
theorem IsLine.stepped {s : LinregServo XRat} {k : SizeIndex} {a b : ℚ}
    (h : IsLine (s.results k) a b) (offset : Int64) :
    IsLine ((stepped s offset).results k) a (b + moved .jump offset) := by
  obtain ⟨hslope, hintercept⟩ := h
  refine ⟨hslope, ?_⟩
  change (s.results k).intercept + (CDouble.ofInt (0 : Int64).toInt * (s.results k).slope -
    CDouble.ofInt (-offset).toInt) = _
  rw [hslope, hintercept, ofInt_eq, ofInt_eq, fin_mul, fin_sub, fin_add]
  simp [moved, sub_eq_add_neg]

/-- **One sample.** The sums of the regression are those of the data of each size, and the formulas
solve the normal equations as long as their divisors are nonzero. -/
theorem fitsWindow_step (ht : t.Inv) (servo : ServoBase XRat) (hweight : IsFin weight)
    (hdefined : RegressionsDefined (sampled t.servo offset localTs weight)) :
    FitsWindow t (.sample servo offset localTs weight) := by
  have hchosen : ∀ k, (linregUpdate t.servo offset localTs weight).size = some k →
      k.points ≤ windowLength t := by
    intro k hk
    exact linregUpdate_size ht hk
  have hsampled := linregSample_sampled servo t.servo offset localTs weight
  rw [FitsWindow]
  generalize linregSample servo t.servo offset localTs weight = result at hsampled ⊢
  cases hsampled with
  | waiting hsize =>
    refine ⟨?_, hchosen⟩
    intro k hk
    obtain ⟨a, b, hab, hnormal⟩ := regressed_line ht hweight hdefined hk
    refine ⟨a, b, ?_, hnormal⟩
    simpa [moved] using hab
  | stepped j ratio hsize =>
    refine ⟨?_, hchosen⟩
    intro k hk
    obtain ⟨a, b, hab, hnormal⟩ := regressed_line ht hweight hdefined hk
    exact ⟨a, b, hab.stepped offset, hnormal⟩
  | followed j ratio hsize =>
    refine ⟨?_, hchosen⟩
    intro k hk
    obtain ⟨a, b, hab, hnormal⟩ := regressed_line ht hweight hdefined hk
    refine ⟨a, b, ?_, hnormal⟩
    simpa [moved] using hab

end Sample

/-! ## Runs -/

theorem Traced.Inv.step {t t' : Traced XRat} {call : LinregCall XRat} (ht : t.Inv)
    (hok : DividesOk t call) (hstep : t.step call = .ok t') : t'.Inv := by
  refine ⟨ht.tracks.step hstep, ?_⟩
  cases call with
  | sample servo offset localTs weight =>
    obtain rfl := Except.ok.inj hstep
    exact List.forall_mem_cons.mpr ⟨hok.1, ht.weights⟩
  | reset =>
    obtain rfl := Except.ok.inj hstep
    intro l hl
    cases hl
  | syncInterval interval =>
    obtain rfl := Except.ok.inj hstep
    exact ht.weights
  | leap leap =>
    obtain rfl := Except.ok.inj hstep
    exact ht.weights

theorem traced_init (cfg : ServoConfig XRat) : (Traced.init cfg).Inv := by
  refine ⟨tracks_init cfg, ?_⟩
  intro l hl
  cases hl

/-- **Regressions are least squares over the window.** In every run of a regression servo whose
divisors are nonzero, every sample leaves the lines that solve the normal equations of the newest
samples since the last reset, and chooses none or one of them. The samples of before a reset or a
wrapped buffer have no part in them. -/
theorem fitsWindow (cfg : ServoConfig XRat) (calls : List (LinregCall XRat))
    (hcalls : Always Traced.step DividesOk (Traced.init cfg) calls) :
    Always Traced.step FitsWindow (Traced.init cfg) calls := by
  refine Always.of_inv (fun t call t' => Traced.Inv.step) ?_ (traced_init cfg) hcalls
  intro t call ht hok
  cases call with
  | sample servo offset localTs weight => exact fitsWindow_step ht servo hok.1 hok.2
  | syncInterval interval => exact trivial
  | reset => exact trivial
  | leap leap => exact trivial

/-- The common part of a servo that steps the clock for more than 1 ns. -/
def steppingServo : ServoBase XRat :=
  { maxFrequency := fin 500000, stepThreshold := fin 1, firstStepThreshold := fin 0,
    firstUpdate := true, offsetThreshold := 0, numOffsetValues := 0, currOffsetValues := 0 }

/-- Four samples, one a second, of a clock that is 50 ppb too fast: the last one is a step. -/
def jumpCalls : List (LinregCall XRat) :=
  .syncInterval (fin 1) :: (List.range 4).map fun i =>
    .sample steppingServo (Int64.ofNat (50 * i)) (UInt64.ofNat (1000000000 * (i + 1))) (fin 1)

/-- The fourth sample is the first with a line, and steps the clock, as the clock is 150 ns ahead
and the threshold is 1 ns. -/
theorem fitsWindow_jump : Always Traced.step FitsWindow (Traced.init .zero) jumpCalls :=
  fitsWindow .zero jumpCalls (by decide +kernel)

/-- The lines after a sample solve the normal equations relative to the reference before any step
that the sample makes. -/
def FitsUnmoved (t : Traced XRat) : LinregCall XRat → Prop
  | .sample servo offset localTs weight =>
    ∀ k, k.points ≤ windowLength t → ∃ a b,
      IsLine ((linregSample servo t.servo offset localTs weight).2.2.results k) a b ∧
      NormalEquations (sampleData t offset localTs weight k) a b
  | .syncInterval _ | .reset | .leap _ => True

/-- The values of the result are such a line. -/
def SolvesUnmoved (t : Traced XRat) : LinregCall XRat → Prop
  | .sample servo offset localTs weight =>
    ∀ k, k.points ≤ windowLength t →
      NormalEquations (sampleData t offset localTs weight k)
        ((linregSample servo t.servo offset localTs weight).2.2.results k).slope.value
        ((linregSample servo t.servo offset localTs weight).2.2.results k).intercept.value
  | .syncInterval _ | .reset | .leap _ => True

instance (t : Traced XRat) : (call : LinregCall XRat) → Decidable (SolvesUnmoved t call)
  | .sample _ _ _ _ => inferInstanceAs (Decidable (∀ _, _))
  | .syncInterval _ | .reset | .leap _ => isTrue trivial

theorem FitsUnmoved.solves {t : Traced XRat} {call : LinregCall XRat} (h : FitsUnmoved t call) :
    SolvesUnmoved t call := by
  cases call with
  | sample servo offset localTs weight =>
    intro k hk
    obtain ⟨a, b, ⟨hslope, hintercept⟩, hnormal⟩ := h k hk
    rw [hslope, hintercept]
    exact hnormal
  | syncInterval interval => exact trivial
  | reset => exact trivial
  | leap leap => exact trivial

/-- The step of the last sample moves its intercept by the offset of 150 ns. -/
theorem not_fitsUnmoved_jump :
    Always Traced.step DividesOk (Traced.init .zero) jumpCalls ∧
      ¬ Always Traced.step FitsUnmoved (Traced.init .zero) jumpCalls := by
  have hsolves : ¬ Always Traced.step SolvesUnmoved (Traced.init .zero) jumpCalls := by
    decide +kernel
  refine ⟨by decide +kernel, ?_⟩
  intro hfits
  exact hsolves (hfits.imp fun _ _ => FitsUnmoved.solves)

end ExternalServo
