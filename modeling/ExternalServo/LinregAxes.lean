import ExternalServo.LinregDivisors
import Mathlib.Tactic.LinearCombination

/-!
# The axes of the regression servo

A step of the clock moves the local time stamps that follow it, and with them `reference.y` and
`last_update`, but none of the stored points. Between two resets one constant takes the time of the
clock, as if it had never been stepped, to the `y` axis:

* `Comparable` — the reference and the points, modulo `2 ^ 64`; `comparable_run` keeps the constant
  over any run;
* `Advanced` — in exact arithmetic the `x` axis, together with the remainder of the last rounding,
  is the sum of the intervals of all samples, without the frequency of the clock.
-/

namespace ExternalServo

open CArith XRat Runs

variable {D : Type} [CDouble D]

/-! ## Samples since a reset -/

/-- A sample as it came, with what the servo knew before it. -/
structure Taken (D : Type) where
  offset : Int64
  localTs : UInt64
  lastUpdate : UInt64
  clockFreq : D

/-- A servo with the samples since its last reset, the newest first: as they are stored, and as they
came. The stored ones are relative to a reference that moves with the clock, so the two can drift
apart, and the theorems say when they do not. -/
structure Timed (D : Type) where
  traced : Traced D
  taken : List (Taken D)

/-- The servo itself. -/
def Timed.servo (t : Timed D) : LinregServo D := t.traced.servo

/-- A servo without samples. -/
def Timed.start (s : LinregServo D) : Timed D :=
  { traced := { servo := s, history := [] }, taken := [] }

/-- The samples after a call. -/
def takenAfter (s : LinregServo D) (taken : List (Taken D)) : LinregCall D → List (Taken D)
  | .sample _ offset localTs _ => ⟨offset, localTs, s.lastUpdate, s.clockFreq⟩ :: taken
  | .syncInterval _ | .leap _ => taken
  | .reset => []

/-- A call on the servo. -/
def Timed.step (t : Timed D) (call : LinregCall D) : Except Fault (Timed D) :=
  (t.traced.step call).map fun traced => { traced, taken := takenAfter t.servo t.taken call }

/-- The call belongs to a run between two resets: it is no reset, applies no leap second, and if it
is a sample after the first one, there is a last update. A leap second moves the reference by a
second that no clock counted, and a last update of zero would begin the axes anew. -/
def BetweenResets (t : Timed D) : LinregCall D → Prop
  | .sample _ _ _ _ => t.taken = [] ∨ t.servo.lastUpdate ≠ 0
  | .syncInterval _ => True
  | .reset => False
  | .leap leap => t.servo.leap = 0 ∨ leap ≠ 0

instance (t : Timed D) : (call : LinregCall D) → Decidable (BetweenResets t call)
  | .sample _ _ _ _ => inferInstanceAs (Decidable (_ ∨ _))
  | .syncInterval _ => isTrue trivial
  | .reset => isFalse id
  | .leap _ => inferInstanceAs (Decidable (_ ∨ _))

/-- The servo was just created, or reset. -/
def Restarted (s : LinregServo D) : Prop :=
  (∃ cfg, s = linregServoCreate cfg) ∨ ∃ s₀, s = linregReset s₀

theorem Restarted.tracks {s : LinregServo D} (h : Restarted s) : Tracks s [] := by
  rcases h with ⟨cfg, rfl⟩ | ⟨s₀, rfl⟩
  · exact tracks_init cfg
  · exact tracks_linregReset s₀

theorem Restarted.lastUpdate {s : LinregServo D} (h : Restarted s) : s.lastUpdate = 0 := by
  rcases h with ⟨cfg, rfl⟩ | ⟨s₀, rfl⟩
  · rfl
  · rfl

/-! ## The y axis -/

/-- **The y axis**: the reference is the last update, and each of the newest points the corrected
time of its own sample, plus one constant. All of it is in words of 64 bits, which wrap around, so
the differences that a regression takes are right wherever the axis begins. -/
structure Aligned (c : UInt64) (t : Timed D) : Prop where
  reference : t.servo.reference.y = t.servo.lastUpdate + c
  points : ∀ i < t.servo.numPoints, ∃ sample, t.taken[i]? = some sample ∧
    (t.servo.points (newestIndex t.servo i)).y = sample.localTs - sample.offset.toUInt64 + c

/-- The y axis after a call, once there was a sample. -/
def AlignedAfter (c : UInt64) (t : Timed D) (call : LinregCall D) : Prop :=
  ∀ t', t.step call = .ok t' → t'.taken ≠ [] → Aligned c t'

/-- A stored point is the corrected time of a sample, plus a constant. -/
def PointOf (c : UInt64) (l : Point D) (sample : Taken D) : Prop :=
  l.y = sample.localTs - sample.offset.toUInt64 + c

/-- **The invariant**, once there was a sample. The points of the buffer are those of the history,
and these are compared with the samples one by one. -/
structure Comparable (c : UInt64) (t : Timed D) : Prop where
  tracks : Tracks t.servo t.traced.history
  reference : t.servo.reference.y = t.servo.lastUpdate + c
  points : List.Forall₂ (PointOf c) t.traced.history t.taken
  nonempty : t.taken ≠ []

theorem Comparable.aligned {c : UInt64} {t : Timed D} (h : Comparable c t) : Aligned c t := by
  refine ⟨h.reference, ?_⟩
  intro i hi
  rw [h.tracks.numPoints] at hi
  have hlt : i < t.traced.history.length := lt_of_lt_of_le hi (Nat.min_le_left _ _)
  have hlt' : i < t.taken.length := h.points.length_eq ▸ hlt
  refine ⟨t.taken[i], List.getElem?_eq_getElem hlt', ?_⟩
  rw [h.tracks.newest i hlt (lt_of_lt_of_le hi (Nat.min_le_right _ _))]
  exact h.points.get hlt hlt'

/-- The reference moves with the time stamps. -/
theorem updateReference_y {s : LinregServo D} {c : UInt64} (hlast : s.lastUpdate ≠ 0)
    (hy : s.reference.y = s.lastUpdate + c) (localTs : UInt64) :
    (updateReference s localTs).reference.y = localTs + c := by
  simp only [updateReference, ne_eq, hlast, not_false_eq_true, if_true, moveReference,
    UInt64.toUInt64_toInt64, hy]
  grind

/-- The first sample leaves the reference where it is. -/
theorem updateReference_first {s : LinregServo D} (hlast : s.lastUpdate = 0) (localTs : UInt64) :
    (updateReference s localTs).reference.y = localTs + (s.reference.y - localTs) := by
  simp only [updateReference, ne_eq, hlast, not_true_eq_false, if_false]
  grind

/-- What a sample leaves: a step moves the reference and the last update alike. -/
theorem linregSample_y (servo : ServoBase D) (s : LinregServo D) (offset : Int64)
    (localTs : UInt64) (weight : D) :
    ∃ step : UInt64,
      (linregSample servo s offset localTs weight).2.2.reference.y =
          (updateReference s localTs).reference.y - step ∧
        (linregSample servo s offset localTs weight).2.2.lastUpdate = localTs - step := by
  have hreference : (linregUpdate s offset localTs weight).reference =
      (updateReference s localTs).reference := by
    rw [linregUpdate, regress_eq]
    rfl
  have hlast : (linregUpdate s offset localTs weight).lastUpdate = localTs := by
    rw [linregUpdate, regress_eq]
    rfl
  have hsampled := linregSample_sampled servo s offset localTs weight
  generalize linregSample servo s offset localTs weight = result at hsampled ⊢
  cases hsampled with
  | waiting hsize =>
    refine ⟨0, ?_, ?_⟩
    · rw [UInt64.sub_zero]
      exact congrArg Point.y hreference
    · rw [UInt64.sub_zero]
      exact hlast
  | stepped k ratio hsize =>
    refine ⟨offset.toUInt64, ?_, ?_⟩
    · dsimp only [stepped, moveReference]
      rw [hreference, Int64.toUInt64_neg, ← UInt64.sub_eq_add_neg]
    · dsimp only [stepped]
      rw [hlast]
  | followed k ratio hsize =>
    refine ⟨0, ?_, ?_⟩
    · rw [UInt64.sub_zero]
      exact congrArg Point.y hreference
    · rw [UInt64.sub_zero]
      exact hlast

/-- **A sample** keeps the invariant, and the first one begins it: its own local time and the
reference after it fix the constant. A step of the clock moves the reference and the last update
together. -/
theorem Comparable.sample {c : UInt64} {t t' : Timed D} {servo : ServoBase D} {offset : Int64}
    {localTs : UInt64} {weight : D} (htracks : Tracks t.servo t.traced.history)
    (hpoints : List.Forall₂ (PointOf c) t.traced.history t.taken)
    (hy : (updateReference t.servo localTs).reference.y = localTs + c)
    (hstep : t.step (.sample servo offset localTs weight) = .ok t') : Comparable c t' := by
  obtain rfl := Except.ok.inj hstep
  refine ⟨tracks_linregSample htracks servo offset localTs weight, ?_, ?_, List.cons_ne_nil _ _⟩
  · obtain ⟨step, hreference, hlast⟩ := linregSample_y servo t.servo offset localTs weight
    change (linregSample servo t.servo offset localTs weight).2.2.reference.y =
      (linregSample servo t.servo offset localTs weight).2.2.lastUpdate + c
    rw [hreference, hlast, hy]
    grind
  · refine List.Forall₂.cons ?_ hpoints
    change (updateReference t.servo localTs).reference.y - offset.toUInt64 =
      localTs - offset.toUInt64 + c
    rw [hy]
    grind

omit [CDouble D] in
theorem sample_or_quiet (call : LinregCall D) :
    (∃ servo offset localTs weight, call = .sample servo offset localTs weight) ∨
      ∀ servo offset localTs weight, call ≠ .sample servo offset localTs weight := by
  cases call with
  | sample servo offset localTs weight => exact .inl ⟨servo, offset, localTs, weight, rfl⟩
  | syncInterval interval => exact .inr nofun
  | reset => exact .inr nofun
  | leap leap => exact .inr nofun

/-- No call faults. -/
theorem step_total (t : Timed D) (call : LinregCall D) : ∃ t', t.step call = .ok t' := by
  cases call <;> exact ⟨_, rfl⟩

/-- A call between two resets that is no sample changes neither the axes nor the samples. -/
theorem step_quiet {t t' : Timed D} {call : LinregCall D} (hbetween : BetweenResets t call)
    (hcall : ∀ servo offset localTs weight, call ≠ .sample servo offset localTs weight)
    (hstep : t.step call = .ok t') :
    t'.taken = t.taken ∧ t'.traced.history = t.traced.history ∧
      t'.servo.reference = t.servo.reference ∧ t'.servo.lastUpdate = t.servo.lastUpdate ∧
      t'.servo.xRemainder = t.servo.xRemainder := by
  obtain ⟨traced, htraced, rfl⟩ := map_eq_ok.mp hstep
  cases call with
  | sample servo offset localTs weight => exact absurd rfl (hcall servo offset localTs weight)
  | syncInterval interval =>
    obtain rfl := Except.ok.inj htraced
    exact ⟨rfl, rfl, rfl, rfl, rfl⟩
  | reset => exact hbetween.elim
  | leap leap =>
    obtain rfl := Except.ok.inj htraced
    have hkeep : ¬ (t.traced.servo.leap ≠ 0 ∧ leap = 0) := by
      rintro ⟨hleap, rfl⟩
      rcases hbetween with hzero | hne
      · exact hleap hzero
      · exact hne rfl
    have hservo : linregLeap t.traced.servo leap = { t.traced.servo with leap } := by
      rw [linregLeap, if_neg hkeep]
    simp only [Timed.servo, takenAfter, hservo]
    exact ⟨trivial, trivial, trivial, trivial, trivial⟩

/-- The buffer goes on holding the samples. -/
theorem tracks_step {t t' : Timed D} {call : LinregCall D}
    (h : Tracks t.servo t.traced.history) (hstep : t.step call = .ok t') :
    Tracks t'.servo t'.traced.history := by
  obtain ⟨traced, htraced, rfl⟩ := map_eq_ok.mp hstep
  exact Tracks.step h htraced

/-- **The step lemma**: every call between two resets keeps the constant. -/
theorem Comparable.step {c : UInt64} {t t' : Timed D} {call : LinregCall D}
    (h : Comparable c t) (hbetween : BetweenResets t call) (hstep : t.step call = .ok t') :
    Comparable c t' := by
  rcases sample_or_quiet call with ⟨servo, offset, localTs, weight, rfl⟩ | hcall
  · rcases hbetween with hnil | hlast
    · exact absurd hnil h.nonempty
    · exact Comparable.sample h.tracks h.points (updateReference_y hlast h.reference localTs) hstep
  · obtain ⟨heq, hhistory, hreference, hlast, -⟩ := step_quiet hbetween hcall hstep
    refine ⟨tracks_step h.tracks hstep, ?_, ?_, ?_⟩
    · rw [hreference, hlast]
      exact h.reference
    · rw [heq, hhistory]
      exact h.points
    · rw [heq]
      exact h.nonempty

/-- **The run lemma.** -/
theorem comparable_run {c : UInt64} {t : Timed D} {calls : List (LinregCall D)}
    (h : Comparable c t) (hcalls : Always Timed.step BetweenResets t calls) :
    Always Timed.step (AlignedAfter c) t calls := by
  apply Always.of_inv _ _ h hcalls
  · intro t call t' h hbetween hstep
    exact h.step hbetween hstep
  · intro t call h hbetween t' hstep _
    exact (h.step hbetween hstep).aligned

/-- The constant is found at the first sample: it is the place of the reference less the local time.
Until then the calls leave the servo without samples and without a last update. -/
theorem exists_constant {t : Timed D} {calls : List (LinregCall D)}
    (htracks : Tracks t.servo t.traced.history) (hhistory : t.traced.history = [])
    (htaken : t.taken = []) (hlast : t.servo.lastUpdate = 0)
    (hcalls : Always Timed.step BetweenResets t calls) :
    ∃ c, Always Timed.step (AlignedAfter c) t calls := by
  induction calls generalizing t with
  | nil => exact ⟨0, trivial⟩
  | cons call calls ih =>
    obtain ⟨hbetween, hcalls⟩ := hcalls
    rcases sample_or_quiet call with ⟨servo, offset, localTs, weight, rfl⟩ | hcall
    · have hpoints : List.Forall₂ (PointOf (t.servo.reference.y - localTs))
          t.traced.history t.taken := by
        rw [hhistory, htaken]
        exact List.Forall₂.nil
      have hnext : ∀ t', t.step (.sample servo offset localTs weight) = .ok t' →
          Comparable (t.servo.reference.y - localTs) t' := by
        intro t' hstep
        exact Comparable.sample htracks hpoints (updateReference_first hlast localTs) hstep
      refine ⟨t.servo.reference.y - localTs, ?_, ?_⟩
      · intro t' hstep _
        exact (hnext t' hstep).aligned
      · intro t' hstep
        exact comparable_run (hnext t' hstep) (hcalls t' hstep)
    · obtain ⟨t₁, hstep⟩ := step_total t call
      obtain ⟨heq, hhistory', -, hlast', -⟩ := step_quiet hbetween hcall hstep
      obtain ⟨c, hrest⟩ := ih (tracks_step htracks hstep) (hhistory'.trans hhistory)
        (heq.trans htaken) (hlast'.trans hlast) (hcalls t₁ hstep)
      refine ⟨c, (always_cons_of_ok hstep).mpr ⟨?_, hrest⟩⟩
      intro t' hstep' hne
      obtain rfl := Except.ok.inj (hstep.symm.trans hstep')
      exact absurd (heq.trans htaken) hne

/-! ## The x axis -/

/-- The time that a sample adds to the x axis: what passed on the clock since the last update,
without the frequency of the clock. The first sample adds nothing. -/
def Taken.interval (sample : Taken XRat) : ℚ :=
  if sample.lastUpdate = 0 then 0
  else
    (sample.localTs - sample.lastUpdate).toInt64.toInt /
      (1 + sample.clockFreq.value / 1000000000)

/-- **The x axis**: from `s` on the reference has advanced by `n`, which together with the
remainders is the sum of the intervals. The remainder is below one, so the reference is never
further than that from the exact place, however many intervals were rounded. -/
def Advanced (s : LinregServo XRat) (t : Timed XRat) : Prop :=
  ∃ (n : Int) (r r' : ℚ), s.xRemainder = fin r ∧ t.servo.xRemainder = fin r' ∧ |r'| < 1 ∧
    t.servo.reference.x = s.reference.x + UInt64.ofInt n ∧
    n + r' = r + (t.taken.map Taken.interval).sum

/-- The x axis after a call. -/
def AdvancedAfter (s : LinregServo XRat) (t : Timed XRat) (call : LinregCall XRat) : Prop :=
  ∀ t', t.step call = .ok t' → Advanced s t'

/-- The interval of a sample can be divided by the ratio of the frequency, and fits `int64_t`. A
clock that is stopped by its frequency, or a sample after centuries, is excepted. -/
def IntervalFits (t : Timed XRat) : LinregCall XRat → Prop
  | .sample _ _ localTs _ => t.servo.lastUpdate ≠ 0 →
    IsFin t.servo.clockFreq ∧ 1 + t.servo.clockFreq.value / 1000000000 ≠ 0 ∧
      Fits (integral (elapsed t.servo localTs))
  | .syncInterval _ | .reset | .leap _ => True

instance (t : Timed XRat) : (call : LinregCall XRat) → Decidable (IntervalFits t call)
  | .sample _ _ localTs _ =>
    have : Decidable (Fits (integral (elapsed t.servo localTs))) :=
      inferInstanceAs (Decidable (_ ∧ _))
    inferInstanceAs (Decidable (_ → _ ∧ _ ∧ _))
  | .syncInterval _ | .reset | .leap _ => isTrue trivial

/-- What is left of a rounding. -/
def Fraction (x : XRat) : Prop := ∃ r, x = fin r ∧ |r| < 1

instance (x : XRat) : Decidable (Fraction x) := decidableExistsFin x

/-- An integer that fits, as the type it is added in. -/
theorem toUInt64_toInt64_fin {q : ℚ} (h : Fits (integral q)) :
    (CDouble.toInt64 (fin q) : Int64).toUInt64 = UInt64.ofInt (integral q) := by
  have hint := toInt64_integral h.1 h.2
  rw [← Int64.ofInt_toInt (CDouble.toInt64 (fin q)), hint, toUInt64_ofInt]

/-- **The update of the reference**: the integral part of the interval goes to the reference, and
the rest stays behind, where the next interval is added to it. -/
theorem updateReference_advance {s : LinregServo XRat} (hremainder : IsFin s.xRemainder)
    {localTs : UInt64} (hlast : s.lastUpdate ≠ 0) (hfreq : IsFin s.clockFreq)
    (hratio : 1 + s.clockFreq.value / 1000000000 ≠ 0)
    (hfits : Fits (integral (elapsed s localTs))) :
    (updateReference s localTs).reference.x =
        s.reference.x + UInt64.ofInt (integral (elapsed s localTs)) ∧
      (updateReference s localTs).xRemainder =
        fin (elapsed s localTs - integral (elapsed s localTs)) := by
  have hinterval := xInterval_fin hfreq hremainder hratio localTs
  simp only [updateReference, ne_eq, hlast, not_false_eq_true, if_true, hinterval, moveReference,
    toUInt64_toInt64_fin hfits, toInt64_integral hfits.1 hfits.2]
  exact ⟨trivial, fin_sub _ _⟩

theorem updateReference_stay {s : LinregServo XRat} (hlast : s.lastUpdate = 0) (localTs : UInt64) :
    (updateReference s localTs).reference.x = s.reference.x ∧
      (updateReference s localTs).xRemainder = s.xRemainder := by
  simp only [updateReference, ne_eq, hlast, not_true_eq_false, if_false]
  exact ⟨trivial, trivial⟩

/-- The remainder of any call is a fraction: it is what a conversion to an integer leaves, or as it
was before. -/
theorem fraction_step {t t' : Timed XRat} {call : LinregCall XRat}
    (h : Fraction t.servo.xRemainder) (hfits : IntervalFits t call) (hstep : t.step call = .ok t') :
    Fraction t'.servo.xRemainder := by
  obtain ⟨traced, htraced, rfl⟩ := map_eq_ok.mp hstep
  cases call with
  | sample servo offset localTs weight =>
    obtain rfl := Except.ok.inj htraced
    have hframe := (linregSample_frame servo t.servo offset localTs weight).1
    change Fraction (linregSample servo t.servo offset localTs weight).2.2.xRemainder
    rw [hframe]
    by_cases hlast : t.servo.lastUpdate = 0
    · rw [(updateReference_stay hlast localTs).2]
      exact h
    · obtain ⟨hfreq, hratio, hfits⟩ := hfits hlast
      obtain ⟨r, hr, -⟩ := h
      rw [(updateReference_advance ⟨r, hr⟩ hlast hfreq hratio hfits).2]
      exact ⟨_, rfl, abs_sub_integral_lt _⟩
  | syncInterval interval =>
    obtain rfl := Except.ok.inj htraced
    exact h
  | reset =>
    obtain rfl := Except.ok.inj htraced
    exact h
  | leap leap =>
    obtain rfl := Except.ok.inj htraced
    have hservo : (linregLeap t.traced.servo leap).xRemainder = t.servo.xRemainder := by
      simp only [linregLeap]
      split <;> rfl
    change Fraction (linregLeap t.traced.servo leap).xRemainder
    rw [hservo]
    exact h

/-- **The step lemma**: every call between two resets adds its interval. A sample adds the one since
the last update, in two parts, and the other calls none. -/
theorem Advanced.step {s : LinregServo XRat} {t t' : Timed XRat} {call : LinregCall XRat}
    (h : Advanced s t) (hbetween : BetweenResets t call) (hfits : IntervalFits t call)
    (hstep : t.step call = .ok t') : Advanced s t' := by
  obtain ⟨n, r, r', hr, hr', habs, hx, hsum⟩ := h
  rcases sample_or_quiet call with ⟨servo, offset, localTs, weight, rfl⟩ | hcall
  · obtain rfl := Except.ok.inj hstep
    obtain ⟨hremainder, -, hreference⟩ := linregSample_frame servo t.servo offset localTs weight
    by_cases hlast : t.servo.lastUpdate = 0
    · obtain ⟨hx', hkeep⟩ := updateReference_stay hlast localTs
      refine ⟨n, r, r', hr, ?_, habs, ?_, ?_⟩
      · exact hremainder.trans (hkeep.trans hr')
      · exact hreference.trans (hx'.trans hx)
      · simp only [takenAfter, List.map_cons, List.sum_cons, Taken.interval, hlast, if_true,
          zero_add]
        exact hsum
    · obtain ⟨hfreq, hratio, hfits⟩ := hfits hlast
      obtain ⟨hx', hrest⟩ := updateReference_advance ⟨r', hr'⟩ hlast hfreq hratio hfits
      refine ⟨n + integral (elapsed t.servo localTs), r, _, hr, hremainder.trans hrest,
        abs_sub_integral_lt _, ?_, ?_⟩
      · rw [UInt64.ofInt_add, ← UInt64.add_assoc, ← hx]
        exact hreference.trans hx'
      · simp only [takenAfter, List.map_cons, List.sum_cons, Taken.interval, hlast, if_false,
          Int.cast_add]
        have helapsed : elapsed t.servo localTs =
            (localTs - t.servo.lastUpdate).toInt64.toInt /
              (1 + t.servo.clockFreq.value / 1000000000) + r' := by
          rw [elapsed, hr']
          rfl
        linear_combination hsum + helapsed
  · obtain ⟨heq, -, hreference, -, hremainder⟩ := step_quiet hbetween hcall hstep
    refine ⟨n, r, r', hr, hremainder.trans hr', habs, ?_, ?_⟩
    · rw [hreference]
      exact hx
    · rw [heq]
      exact hsum

/-- The servo was created, or reset after any calls whose intervals fit. A reset does not clear the
remainder, so what it was before matters for the x axis. -/
def Started (s : LinregServo XRat) : Prop :=
  (∃ cfg, s = linregServoCreate cfg) ∨
    ∃ cfg calls t, Always Timed.step IntervalFits (Timed.start (linregServoCreate cfg)) calls ∧
      calls.foldlM Timed.step (Timed.start (linregServoCreate cfg)) = .ok t ∧
      s = linregReset t.servo

theorem Started.fraction {s : LinregServo XRat} (h : Started s) : Fraction s.xRemainder := by
  have hcreate : ∀ cfg, Fraction (Timed.start (linregServoCreate cfg)).servo.xRemainder := by
    intro cfg
    exact ⟨0, rfl, by norm_num⟩
  rcases h with ⟨cfg, rfl⟩ | ⟨cfg, calls, t, hcalls, hrun, rfl⟩
  · exact hcreate cfg
  · have hstep : ∀ (t : Timed XRat) call t', Fraction t.servo.xRemainder → IntervalFits t call →
        t.step call = .ok t' → Fraction t'.servo.xRemainder := by
      intro t call t' h hfits hstep
      exact fraction_step h hfits hstep
    exact run_inv hstep (hcreate cfg) hcalls hrun

/-- **The axes of the history.** Between two resets without a leap second, as long as `last_update`
is not zero again, steps of the clock do not corrupt the stored points; and in exact arithmetic, as
long as the intervals fit, roundings of the x axis do not accumulate. -/
theorem linregAxes (D : Type) [CDouble D] :
    (∀ s : LinregServo D, Restarted s → ∀ calls,
      Always Timed.step BetweenResets (Timed.start s) calls →
        ∃ c, Always Timed.step (AlignedAfter c) (Timed.start s) calls) ∧
    (∀ s : LinregServo XRat, Started s → ∀ calls,
      Always Timed.step BetweenResets (Timed.start s) calls →
        Always Timed.step IntervalFits (Timed.start s) calls →
          Always Timed.step (AdvancedAfter s) (Timed.start s) calls) := by
  refine ⟨?_, ?_⟩
  · intro s hs calls hcalls
    exact exists_constant hs.tracks rfl rfl hs.lastUpdate hcalls
  · intro s hs calls hcalls hfits
    obtain ⟨r, hr, habs⟩ := hs.fraction
    have hstart : Advanced s (Timed.start s) :=
      ⟨0, r, r, hr, hr, habs, (UInt64.add_zero _).symm, by simp [Timed.start]⟩
    apply Always.of_inv _ _ hstart (hcalls.and hfits)
    · rintro t call t' h ⟨hbetween, hfits⟩ hstep
      exact h.step hbetween hfits hstep
    · rintro t call h ⟨hbetween, hfits⟩ t' hstep
      exact h.step hbetween hfits hstep

/-- The common part of a servo that steps its clock by more than a microsecond. -/
def steppingBase : ServoBase XRat :=
  { maxFrequency := fin 500000, stepThreshold := fin 1000, firstStepThreshold := fin 0,
    firstUpdate := true, offsetThreshold := 0, numOffsetValues := 0, currOffsetValues := 0 }

/-- Five samples, one a second. The fourth one steps the clock by two milliseconds, which are
missing from the time stamp of the fifth. -/
def steppedCalls : List (LinregCall XRat) :=
  [.syncInterval (fin 1), .sample steppingBase 2000000 1000000000 (fin 1),
    .sample steppingBase 2000000 2000000000 (fin 1),
    .sample steppingBase 2000000 3000000000 (fin 1),
    .sample steppingBase 2000000 4000000000 (fin 1), .sample steppingBase 0 4998000000 (fin 1)]

/-- The clock is stepped back by two milliseconds after the fourth sample, and the axes of the servo
stay where they were: the points are aligned before and after the step, and the reference has
advanced by what the time stamps say without it. -/
theorem linregAxes_stepped :
    let s : LinregServo XRat := linregServoCreate ServoConfig.zero
    (∃ t ∈ ((steppedCalls.take 4).foldlM Timed.step (Timed.start s)).toOption,
      (linregSample steppingBase t.servo 2000000 4000000000 (fin 1)).2.1 = .jump) ∧
    (∃ c, Always Timed.step (AlignedAfter c) (Timed.start s) steppedCalls) ∧
    Always Timed.step (AdvancedAfter s) (Timed.start s) steppedCalls := by
  intro s
  obtain ⟨haligned, hadvanced⟩ := linregAxes XRat
  have hcalls : Always Timed.step BetweenResets (Timed.start s) steppedCalls := by decide +kernel
  refine ⟨by decide +kernel, ?_, ?_⟩
  · exact haligned s (.inl ⟨_, rfl⟩) _ hcalls
  · exact hadvanced s (.inl ⟨_, rfl⟩) _ hcalls (by decide +kernel)

/-- Four samples at one time, and a fifth one. -/
def repeatedCalls : List (LinregCall XRat) :=
  [.syncInterval (fin 1), .sample steppingBase 0 1000000000 (fin 1),
    .sample steppingBase 0 1000000000 (fin 1), .sample steppingBase 0 1000000000 (fin 1),
    .sample steppingBase 0 1000000000 (fin 1), .sample steppingBase 0 2000000000 (fin 1)]

/-- Two samples with 10 ^ 18 ns between them. -/
def distantCalls : List (LinregCall XRat) :=
  [.sample steppingBase 0 1 (fin 1), .sample steppingBase 0 1000000000000000001 (fin 1)]

/-- The remainder at the end of a run, unless it is empty. -/
theorem fraction_of_advanced {s : LinregServo XRat} {t₀ : Timed XRat}
    {calls : List (LinregCall XRat)} (hne : calls ≠ [])
    (h : Always Timed.step (AdvancedAfter s) t₀ calls) :
    ∀ t ∈ (calls.foldlM Timed.step t₀).toOption, Fraction t.servo.xRemainder := by
  induction calls generalizing t₀ with
  | nil => exact absurd rfl hne
  | cons call calls ih =>
    obtain ⟨t₁, hstep⟩ := step_total t₀ call
    obtain ⟨hadvanced, hcalls⟩ := (always_cons_of_ok hstep).mp h
    have hrun : (call :: calls).foldlM Timed.step t₀ = calls.foldlM Timed.step t₁ := by
      rw [List.foldlM_cons, hstep]
      rfl
    rw [hrun]
    rcases eq_or_ne calls [] with rfl | hcalls'
    · intro t ht
      obtain rfl := Option.some.inj ht
      obtain ⟨n, r, r', -, hr', habs, -⟩ := hadvanced t₁ hstep
      exact ⟨r', hr', habs⟩
    · exact ih hcalls' hcalls

/-- After a regression without a slope the remainder is no number; and at a tenth of its speed the
interval of a clock need not fit `int64_t`. -/
theorem not_advanced :
    (∃ s : LinregServo XRat, Started s ∧
      Always Timed.step BetweenResets (Timed.start s) repeatedCalls ∧
      ¬ Always Timed.step (AdvancedAfter s) (Timed.start s) repeatedCalls) ∧
    ∃ s : LinregServo XRat, Started s ∧
      Always Timed.step BetweenResets (Timed.start s) distantCalls ∧
      ¬ Always Timed.step (AdvancedAfter s) (Timed.start s) distantCalls := by
  refine ⟨?_, ?_⟩
  · refine ⟨linregServoCreate ServoConfig.zero, .inl ⟨_, rfl⟩, by decide +kernel, ?_⟩
    intro h
    exact absurd (fraction_of_advanced (List.cons_ne_nil _ _) h) (by decide +kernel)
  · refine ⟨linregServoCreate { ServoConfig.zero with intialAdj := 900000000 }, .inl ⟨_, rfl⟩,
      by decide +kernel, ?_⟩
    intro h
    exact absurd (fraction_of_advanced (List.cons_ne_nil _ _) h) (by decide +kernel)

end ExternalServo
