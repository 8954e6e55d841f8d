import ExternalServo.LinregAxes
import ExternalServo.LoopNoise
import ExternalServo.RegressionAccuracy
import ExternalServo.SizeChoice

/-!
# The regression servo in a closed loop

The regression servo disciplines a clock whose oscillator runs at a constant rate: the clock counts
what the oscillator counts, at the frequency that was set last. The servo sees the clock, and
removes its own frequency from what it sees; what is left are points near one line, the rate of the
oscillator, whatever the servo did to the clock.

* `SampledAt` — a stored sample, by what the oscillator counted since then;
* `Follows` — all samples of the buffer, and what the servo knows of the clock;
* `Follows.sample` — one sample of the servo;
* `offset_converges` — the run: the offset is forgotten at a geometric rate, up to a multiple of the
  error of the measurements.
-/

namespace ExternalServo

open CArith XRat Runs LeastSquares

/-! ## The clock -/

/-- A clock that is disciplined by a regression servo. Its oscillator has a constant rate, and the
samples come neither too early nor too late. -/
structure Oscillator where
  /-- nanoseconds of the master while the oscillator counts one -/
  rate : ℚ
  /-- error of a measured offset, in nanoseconds -/
  error : ℚ
  /-- what the oscillator counts between two samples, at least -/
  lo : ℚ
  /-- and at most -/
  hi : ℚ
  /-- sync interval of the servo, in seconds -/
  interval : ℚ
  /-- what is left of an offset after a sample, at most -/
  kept : ℚ
  lo_le : lo ≤ hi
  rate_pos : 0 < rate
  rate_lt : rate < 2
  error_nonneg : 0 ≤ error
  error_le : error ≤ 2 ^ 60
  lo_ge : 2 ≤ lo
  hi_le : hi ≤ 2 ^ 50
  interval_pos : 0 < interval
  kept_lt : kept < 1
  /-- a correction over three updates forgets enough of the offset -/
  lo_forgets : (1 - kept) * (3 * (1000000000 * interval)) ≤ lo
  /-- a correction over one update does not overshoot by more -/
  hi_forgets : hi ≤ (1 + kept) * (1000000000 * interval)

namespace Oscillator

variable (c : Oscillator)

/-- How far a point is from the line of the oscillator: its place is rounded to nanoseconds. -/
def pointNoise : ℚ := c.error + c.rate

/-- The error of the slope of a regression, at most. -/
def slopeNoise : ℚ := 2 * c.pointNoise / c.lo

/-- The error of its intercept, at most. -/
def interceptNoise : ℚ := 9 * c.pointNoise

/-- The offset that a sample adds to what it keeps, at most. -/
def stepNoise : ℚ := c.hi * c.slopeNoise + 2 * c.interceptNoise

/-- What the offsets amount to in the long run. -/
def floor : ℚ := c.stepNoise / (1 - c.kept)

theorem pointNoise_pos : 0 < c.pointNoise := add_pos_of_nonneg_of_pos c.error_nonneg c.rate_pos

theorem interceptNoise_nonneg : 0 ≤ c.interceptNoise :=
  mul_nonneg (by norm_num) c.pointNoise_pos.le

theorem lo_pos : 0 < c.lo := two_pos.trans_le c.lo_ge

/-- A correction over one update and one over three updates cannot both forget all of the offset. -/
theorem kept_nonneg : 0 ≤ c.kept := by
  by_contra hneg
  have hunit : 0 < 1000000000 * c.interval := mul_pos (by norm_num) c.interval_pos
  have hless : (1 + c.kept) * (1000000000 * c.interval) <
      (1 - c.kept) * (3 * (1000000000 * c.interval)) := by nlinarith
  linarith [c.lo_le, c.lo_forgets, c.hi_forgets]

theorem floor_nonneg : 0 ≤ c.floor := by
  have hslope : 0 ≤ c.slopeNoise := div_nonneg (by linarith [c.pointNoise_pos]) c.lo_pos.le
  have hhi : 0 ≤ c.hi := c.lo_pos.le.trans c.lo_le
  have hintercept := c.interceptNoise_nonneg
  have hgap : 0 < 1 - c.kept := by linarith [c.kept_lt]
  rw [floor, stepNoise]
  positivity

/-- What the noise adds is forgotten as well. -/
theorem kept_floor : c.kept * c.floor + c.stepNoise = c.floor := by
  have hgap : 1 - c.kept ≠ 0 := by linarith [c.kept_lt]
  rw [floor]
  field_simp
  ring

end Oscillator

/-! ## A stored sample -/

/-- The `i`th newest sample is stored as a point at which the oscillator was `-u` nanoseconds ago,
and the master as well, at its rate, up to the error of the measurement. The remainder is `r` and
the offset of the clock `x`. The time `u` is exact, and the stored place less than a nanosecond from
it, however often the reference was rounded since then. -/
structure SampledAt (c : Oscillator) (reference : Point XRat) (r x : ℚ) (i : ℕ) (l : Point XRat)
    (u : ℚ) : Prop where
  place : |(relative reference l).x - r - u| < 1
  early : -(i * c.hi) ≤ u
  late : u ≤ -(i * c.lo)
  remote : |(relative reference l).y - (c.rate * u - x)| ≤ c.error

/-- Bounds of a number, read as a rational one. -/
theorem fits_of_abs_le {n : Int} {m : ℚ} (hn : |(n : ℚ)| ≤ m) (hm : m < 2 ^ 63) : Fits n := by
  have hlt : |n| < 2 ^ 63 := by exact_mod_cast hn.trans_lt hm
  obtain ⟨hlower, hupper⟩ := abs_lt.mp hlt
  exact ⟨hlower.le, hupper⟩

/-- A place relative to one that moved, if nothing wraps. -/
theorem toInt_sub_move (a b : UInt64) {n : Int} (hn : Fits n)
    (h : Fits ((a - b).toInt64.toInt - n)) :
    (a - (b + UInt64.ofInt n)).toInt64.toInt = (a - b).toInt64.toInt - n := by
  have hmove : (a - (b + UInt64.ofInt n)).toInt64 = (a - b).toInt64 - Int64.ofInt n := by
    have hsplit : a - (b + UInt64.ofInt n) = a - b - UInt64.ofInt n := by grind
    rw [hsplit, ← toUInt64_ofInt, UInt64.toInt64_sub]
    rfl
  have hint : (Int64.ofInt n).toInt = n := Int64.toInt_ofInt_of_le hn.1 hn.2
  rw [hmove, toInt_sub_of_fits (by rw [hint]; exact h), hint]

section Advance

variable {c : Oscillator} {reference reference' l : Point XRat} {r x u e : ℚ} {i : ℕ}

/-- A sample of the buffer is not too far away for the arithmetic. -/
theorem SampledAt.bounds (h : SampledAt c reference r x i l u) (hi : i < MAX_POINTS)
    (hr : |r| < 1) (hx : |x| ≤ 2 ^ 60) :
    |(relative reference l).x| ≤ 2 ^ 57 ∧ |(relative reference l).y| ≤ 2 ^ 62 := by
  have hcount : (i : ℚ) ≤ 63 := by
    have hle : i ≤ 63 := Nat.le_of_lt_succ hi
    exact_mod_cast hle
  have hfar : i * c.hi ≤ 2 ^ 56 := by
    have hhi : 0 ≤ c.hi ∨ c.hi < 0 := le_or_gt 0 c.hi
    have hnonneg : (0 : ℚ) ≤ i := Nat.cast_nonneg i
    rcases hhi with hhi | hhi
    · calc (i : ℚ) * c.hi ≤ 63 * 2 ^ 50 := mul_le_mul hcount c.hi_le hhi (by norm_num)
        _ ≤ 2 ^ 56 := by norm_num
    · exact (mul_nonpos_of_nonneg_of_nonpos hnonneg hhi.le).trans (by norm_num)
  have hu : |u| ≤ 2 ^ 56 := by
    have hlo : 0 ≤ i * c.lo := mul_nonneg (Nat.cast_nonneg i) c.lo_pos.le
    rw [abs_le]
    refine ⟨?_, ?_⟩
    · linarith [h.early]
    · linarith [h.late]
  obtain ⟨hp1, hp2⟩ := abs_lt.mp h.place
  obtain ⟨hr1, hr2⟩ := abs_lt.mp hr
  obtain ⟨hu1, hu2⟩ := abs_le.mp hu
  obtain ⟨hx1, hx2⟩ := abs_le.mp hx
  obtain ⟨hy1, hy2⟩ := abs_le.mp h.remote
  have hrate : |c.rate * u| ≤ 2 * 2 ^ 56 := by
    rw [abs_mul, abs_of_pos c.rate_pos]
    exact mul_le_mul c.rate_lt.le hu (abs_nonneg u) (by norm_num)
  obtain ⟨hm1, hm2⟩ := abs_le.mp hrate
  have herror := c.error_le
  refine ⟨abs_le.mpr ⟨?_, ?_⟩, abs_le.mpr ⟨?_, ?_⟩⟩ <;> norm_num at * <;> linarith

/-- **The reference moves**, while the oscillator counts `e` and the clock `y`: the sample is `e`
further away. -/
theorem SampledAt.advance (h : SampledAt c reference r x i l u) (hi : i < MAX_POINTS)
    (hr : |r| < 1) (hx : |x| ≤ 2 ^ 60) (hlo : c.lo ≤ e) (hhi : e ≤ c.hi) {y : Int}
    (hy : |(y : ℚ)| ≤ 2 ^ 60)
    (hx' : reference'.x = reference.x + UInt64.ofInt (integral (e + r)))
    (hy' : reference'.y = reference.y + UInt64.ofInt y) :
    SampledAt c reference' (e + r - integral (e + r)) (x + y - c.rate * e) (i + 1) l (u - e) := by
  obtain ⟨hplace, hremote⟩ := h.bounds hi hr hx
  have he : |e + r| ≤ 2 ^ 51 := by
    obtain ⟨hr1, hr2⟩ := abs_lt.mp hr
    have hlo_pos := c.lo_pos
    have hhi_le := c.hi_le
    rw [abs_le]
    refine ⟨?_, ?_⟩ <;> norm_num at * <;> linarith
  have hmove : |(integral (e + r) : ℚ)| ≤ 2 ^ 51 := (abs_integral_le _).trans he
  have hxrel : (relative reference' l).x = (relative reference l).x - integral (e + r) := by
    have hdifference : |(((l.x - reference.x).toInt64.toInt - integral (e + r) : ℤ) : ℚ)| ≤
        2 ^ 57 + 2 ^ 51 := by
      rw [Int.cast_sub]
      exact (abs_sub _ _).trans (add_le_add hplace hmove)
    rw [relative, hx', toInt_sub_move _ _ (fits_of_abs_le hmove (by norm_num))
      (fits_of_abs_le hdifference (by norm_num)), Int.cast_sub]
    rfl
  have hyrel : (relative reference' l).y = (relative reference l).y - y := by
    have hdifference : |(((l.y - reference.y).toInt64.toInt - y : ℤ) : ℚ)| ≤ 2 ^ 62 + 2 ^ 60 := by
      rw [Int.cast_sub]
      exact (abs_sub _ _).trans (add_le_add hremote hy)
    rw [relative, hy', toInt_sub_move _ _ (fits_of_abs_le hy (by norm_num))
      (fits_of_abs_le hdifference (by norm_num)), Int.cast_sub]
    rfl
  refine ⟨?_, ?_, ?_, ?_⟩
  · rw [hxrel]
    convert h.place using 2
    ring
  · push_cast
    linarith [h.early]
  · push_cast
    linarith [h.late]
  · rw [hyrel]
    convert h.remote using 2
    ring

end Advance

/-! ## The buffer -/

/-- All samples of the buffer are near the line of the oscillator, which is `x` behind the clock at
the reference. This is the invariant of the window: it does not mention any frequency of the servo,
which is taken out of the places of the points. -/
structure OnLine (c : Oscillator) (x : ℚ) (s : LinregServo XRat) : Prop where
  remainder : ∃ r, s.xRemainder = fin r ∧ |r| < 1
  window : ∃ history, Tracks s history ∧ (∀ l ∈ history, l.w = fin 1) ∧
    (∀ l ∈ history.head?, l.x = s.reference.x) ∧
    ∀ i, ∀ hi : i < history.length, i < MAX_POINTS →
      ∃ u, SampledAt c s.reference s.xRemainder.value x i history[i] u

/-- What passed since the last sample: the offset of the clock changes by what the clock counts
more than the master, at the frequency that the servo knows. Before the first sample there is
nothing to compare with. -/
inductive Passed (c : Oscillator) (s : LinregServo XRat) (localTs : UInt64) (x : ℚ) : ℚ → Prop where
  | first (hnum : s.numPoints = 0) (hlast : s.lastUpdate = 0) (x' : ℚ) : Passed c s localTs x x'
  | later (hlast : s.lastUpdate ≠ 0) {g e : ℚ} (hfreq : s.clockFreq = fin g) (hlo : c.lo ≤ e)
    (hhi : e ≤ c.hi)
    (htime : ((localTs - s.lastUpdate).toInt64.toInt : ℚ) = e * (1 + g / 1000000000)) :
    Passed c s localTs x (x + e * (1 + g / 1000000000 - c.rate))

section Sampled

variable {c : Oscillator} {m x x' : ℚ} {s : LinregServo XRat} {offset : Int64} {localTs : UInt64}

/-- The ratio of the frequency that the servo knows. -/
theorem ratio_bounds (hs : Ready m s) {g : ℚ} (hfreq : s.clockFreq = fin g) :
    0 < 1 + g / 1000000000 ∧ 1 + g / 1000000000 ≤ 2 := by
  obtain ⟨f, hf, hfm⟩ := hs.clockFreq
  obtain rfl := fin.inj (hfreq.symm.trans hf)
  have hle := (abs_le.mp hfm).2
  have hlimit := hs.limit
  exact ⟨ratio_pos hfm hs.limit, by linarith⟩

/-- What the oscillator counted is what the servo makes of the time on the clock. -/
theorem elapsed_eq (hs : Ready m s) {g e r : ℚ} (hfreq : s.clockFreq = fin g)
    (hr : s.xRemainder = fin r)
    (htime : ((localTs - s.lastUpdate).toInt64.toInt : ℚ) = e * (1 + g / 1000000000)) :
    elapsed s localTs = e + r := by
  rw [elapsed, hfreq, hr, htime]
  exact congrArg (· + r) (mul_div_cancel_right₀ e (ratio_bounds hs hfreq).1.ne')

/-- The reference moves with the time, and the samples stay where they are. -/
theorem OnLine.moved (h : OnLine c x s) (hs : Ready m s)
    (hpassed : Passed c s localTs x x') (hx : |x| ≤ 2 ^ 60) :
    (∃ r, (updateReference s localTs).xRemainder = fin r ∧ |r| < 1) ∧
      ∃ history, Tracks s history ∧ (∀ l ∈ history, l.w = fin 1) ∧
        ∀ i, ∀ hi : i < history.length, i < MAX_POINTS →
          ∃ u, SampledAt c (updateReference s localTs).reference
            (updateReference s localTs).xRemainder.value x' (i + 1) history[i] u := by
  obtain ⟨⟨r, hr, hr1⟩, history, htracks, hweights, -, hsampled⟩ := h
  cases hpassed with
  | first hnum hlast =>
    rw [(updateReference_stay hlast localTs).2]
    refine ⟨⟨r, hr, hr1⟩, history, htracks, hweights, ?_⟩
    intro i hi
    have hlength : min history.length MAX_POINTS = 0 := htracks.numPoints ▸ hnum
    have hmax : MAX_POINTS = 64 := rfl
    omega
  | @later hlast g e hfreq hlo hhi htime =>
    obtain ⟨hratio, hratio2⟩ := ratio_bounds hs hfreq
    have helapsed := elapsed_eq hs hfreq hr htime
    have he : 0 < e := c.lo_pos.trans_le hlo
    have hhi50 := hhi.trans c.hi_le
    obtain ⟨hr0, hr2⟩ := abs_lt.mp hr1
    have hsum : |e + r| ≤ 2 ^ 51 := by
      rw [abs_le]
      refine ⟨?_, ?_⟩ <;> norm_num at * <;> linarith
    have hmove : Fits (integral (elapsed s localTs)) := by
      rw [helapsed]
      exact fits_of_abs_le ((abs_integral_le (e + r)).trans hsum) (by norm_num)
    obtain ⟨hx', hr'⟩ := updateReference_advance ⟨r, hr⟩ hlast ⟨g, hfreq⟩
      (by rw [hfreq]; exact hratio.ne') hmove
    rw [helapsed] at hx' hr'
    refine ⟨⟨_, hr', abs_sub_integral_lt _⟩, history, htracks, hweights, ?_⟩
    intro i hi hmax
    obtain ⟨u, hu⟩ := hsampled i hi hmax
    rw [hr] at hu
    have hy : (updateReference s localTs).reference.y =
        s.reference.y + UInt64.ofInt (localTs - s.lastUpdate).toInt64.toInt := by
      rw [← toUInt64_ofInt, Int64.ofInt_toInt]
      simp only [updateReference, ne_eq, hlast, not_false_eq_true, if_true,
        moveReference]
    have hybound : |((localTs - s.lastUpdate).toInt64.toInt : ℚ)| ≤ 2 ^ 60 := by
      rw [htime, abs_of_pos (mul_pos he hratio)]
      calc e * (1 + g / 1000000000) ≤ 2 ^ 50 * 2 :=
            mul_le_mul hhi50 hratio2 hratio.le (by norm_num)
        _ ≤ 2 ^ 60 := by norm_num
    have hadvance := hu.advance hmax hr1 hx hlo hhi hybound hx' hy
    rw [htime] at hadvance
    have hoffset : x + e * (1 + g / 1000000000) - c.rate * e =
        x + e * (1 + g / 1000000000 - c.rate) := by ring
    rw [hoffset] at hadvance
    refine ⟨u - e, ?_⟩
    rw [hr']
    exact hadvance

/-- The newest point, from the reference: it is there, and behind by the offset. -/
theorem relative_recordedPoint (s : LinregServo XRat) (offset : Int64) (localTs : UInt64) :
    (relative (updateReference s localTs).reference
        (recordedPoint s offset localTs (fin 1))).x = 0 ∧
      (relative (updateReference s localTs).reference
        (recordedPoint s offset localTs (fin 1))).y = (-offset).toInt := by
  refine ⟨?_, ?_⟩
  · simp [relative, recordedPoint]
  · have hy : (recordedPoint s offset localTs (fin 1)).y -
        (updateReference s localTs).reference.y = (-offset).toUInt64 := by
      change (updateReference s localTs).reference.y - offset.toUInt64 -
        (updateReference s localTs).reference.y = _
      rw [Int64.toUInt64_neg]
      grind
    have hint : ((recordedPoint s offset localTs (fin 1)).y -
        (updateReference s localTs).reference.y).toInt64.toInt = (-offset).toInt := by
      rw [hy, Int64.toInt64_toUInt64]
    exact congrArg (Int.cast (R := ℚ)) hint

/-- An offset that is near that of the clock can be negated. -/
theorem toInt_neg_of_measured (hx' : |x'| ≤ 2 ^ 60) (hmeasured : |offset.toInt - x'| ≤ c.error) :
    (-offset).toInt = -offset.toInt := by
  apply toInt_neg
  rintro rfl
  have hmin : (Int64.minValue.toInt : ℚ) = -2 ^ 63 := by
    rw [Int64.toInt_minValue]
    norm_num
  rw [hmin] at hmeasured
  have herror := c.error_le
  obtain ⟨hlower, -⟩ := abs_le.mp hmeasured
  obtain ⟨hx', -⟩ := abs_le.mp hx'
  norm_num at *
  linarith

/-- **A new sample** is on the line as well: it is stored at the reference, and the others move away
from it by what the oscillator counted. -/
theorem OnLine.recorded (h : OnLine c x s) (hs : Ready m s) (hpassed : Passed c s localTs x x')
    (hx : |x| ≤ 2 ^ 60) (hx' : |x'| ≤ 2 ^ 60) (hmeasured : |offset.toInt - x'| ≤ c.error) :
    OnLine c x' (sampled s offset localTs (fin 1)) := by
  obtain ⟨⟨r, hr, hr1⟩, history, htracks, hweights, hsampled⟩ := h.moved hs hpassed hx
  refine ⟨⟨r, hr, hr1⟩, recordedPoint s offset localTs (fin 1) :: history,
    tracks_sampled htracks offset localTs (fin 1), List.forall_mem_cons.mpr ⟨rfl, hweights⟩, ?_, ?_⟩
  · intro l hl
    obtain rfl := Option.some.inj hl
    rfl
  · intro i hi hmax
    cases i with
    | succ i => exact hsampled i (Nat.lt_of_succ_lt_succ hi) (Nat.lt_of_succ_lt hmax)
    | zero =>
      obtain ⟨hplace, hremote⟩ := relative_recordedPoint s offset localTs
      refine ⟨0, ?_, ?_, ?_, ?_⟩
      · change |(relative (updateReference s localTs).reference
          (recordedPoint s offset localTs (fin 1))).x -
            (updateReference s localTs).xRemainder.value - 0| < 1
        rw [hplace, hr, sub_zero, zero_sub, abs_neg]
        exact hr1
      · simp
      · simp
      · change |(relative (updateReference s localTs).reference
          (recordedPoint s offset localTs (fin 1))).y - (c.rate * 0 - x')| ≤ c.error
        rw [hremote, toInt_neg_of_measured hx' hmeasured]
        convert hmeasured using 1
        rw [← abs_neg, Int.cast_neg]
        congr 1
        ring

/-- The oscillator does not stall. -/
theorem OnLine.not_stalled (h : OnLine c x s) (hs : Ready m s) (hpassed : Passed c s localTs x x') :
    ¬ Stalled s localTs := by
  rintro ⟨hnum, -, -, hzero⟩
  cases hpassed with
  | first hnum' hlast =>
    rw [hnum'] at hnum
    omega
  | later hlast hfreq hlo hhi htime =>
    obtain ⟨r, hr, hr1⟩ := h.remainder
    rcases hzero with hzero | hzero
    · exact hlast hzero
    · rw [elapsed_eq hs hfreq hr htime] at hzero
      obtain ⟨-, hlt⟩ := abs_lt.mp hzero
      obtain ⟨hr1, -⟩ := abs_lt.mp hr1
      linarith [c.lo_ge]

end Sampled

/-! ## The line that is fitted -/

section Fit

variable {c : Oscillator} {x a b : ℚ} {s : LinregServo XRat} {k : SizeIndex}

theorem SizeIndex.points_le (k : SizeIndex) : k.points ≤ 64 := by
  have h : ∀ k : SizeIndex, k.points ≤ 64 := by decide
  exact h k

/-- The points of a size are samples of the buffer. -/
theorem mem_windowData {reference : Point XRat} {history : List (Point XRat)} {d : Datum ℚ} :
    d ∈ windowData reference history k ↔
      ∃ i, ∃ hi : i < history.length, i < k.points ∧ relative reference history[i] = d := by
  rw [windowData, List.mem_map]
  refine ⟨?_, ?_⟩
  · rintro ⟨l, hl, rfl⟩
    obtain ⟨i, hi, rfl⟩ := List.mem_iff_getElem.mp hl
    rw [List.length_take, Nat.lt_min] at hi
    exact ⟨i, hi.2, hi.1, by rw [List.getElem_take]⟩
  · rintro ⟨i, hi, hk, rfl⟩
    exact ⟨_, List.mem_take_iff_getElem.mpr ⟨i, Nat.lt_min.mpr ⟨hk, hi⟩, rfl⟩, rfl⟩

/-- A sample is near the line of the oscillator, seen from the reference. -/
theorem SampledAt.near {reference l : Point XRat} {r u : ℚ} {i : ℕ}
    (h : SampledAt c reference r x i l u) :
    |(relative reference l).y - c.rate * (relative reference l).x - (-x - c.rate * r)| ≤
      c.pointNoise := by
  have hplace : |c.rate * ((relative reference l).x - r - u)| ≤ c.rate := by
    rw [abs_mul, abs_of_pos c.rate_pos]
    exact mul_le_of_le_one_right c.rate_pos.le h.place.le
  calc |(relative reference l).y - c.rate * (relative reference l).x - (-x - c.rate * r)|
      = |(relative reference l).y - (c.rate * u - x) -
          c.rate * ((relative reference l).x - r - u)| := by
        congr 1
        ring
    _ ≤ |(relative reference l).y - (c.rate * u - x)| +
          |c.rate * ((relative reference l).x - r - u)| := abs_sub _ _
    _ ≤ c.pointNoise := add_le_add h.remote hplace

/-- The oldest point of a size is far from the newest one. -/
theorem SampledAt.far {reference l : Point XRat} {r u : ℚ} {n : ℕ} (hn : 4 ≤ n) (hr : |r| < 1)
    (h : SampledAt c reference r x (n - 1) l u) :
    n * c.lo ≤ 2 * |(relative reference l).x| := by
  have hcast : ((n - 1 : ℕ) : ℚ) = n - 1 := by
    rw [Nat.cast_sub (by omega), Nat.cast_one]
  have hlate := h.late
  rw [hcast] at hlate
  obtain ⟨-, hplace⟩ := abs_lt.mp h.place
  obtain ⟨-, hr⟩ := abs_lt.mp hr
  have hfar := neg_abs_le (relative reference l).x
  have hfour : (4 : ℚ) ≤ n := by exact_mod_cast hn
  have hlo := c.lo_ge
  nlinarith

/-- Points of weight one near the line of the oscillator, which passes `z` above the newest of them;
the oldest of the `n` points is far from it. -/
structure OscillatorPoints (c : Oscillator) (n : ℕ) (z : ℚ) (ds : List (Datum ℚ)) : Prop where
  ones : ∀ d ∈ ds, d.w = 1
  weight : LeastSquares.weight ds = n
  near : ∀ d ∈ ds, |d.y - c.rate * d.x - z| ≤ c.pointNoise
  newest : ∃ d ∈ ds, d.x = 0
  oldest : ∃ d ∈ ds, n * c.lo ≤ 2 * |d.x|

/-- The newest samples of the buffer are such points: of weight one, the newest of them at the
reference, and the oldest as far away as the samples before it took at least. -/
theorem OnLine.points (h : OnLine c x s) (hk : k.points ≤ s.numPoints) :
    ∃ r, |r| < 1 ∧ OscillatorPoints c k.points (-x - c.rate * r) (bufferData s k) := by
  obtain ⟨⟨r, hr, hr1⟩, history, htracks, hweights, hhead, hsampled⟩ := h
  rw [bufferData_eq htracks hk]
  rw [htracks.numPoints] at hk
  have hlength : k.points ≤ history.length := hk.trans (Nat.min_le_left _ _)
  have hmax : k.points ≤ MAX_POINTS := hk.trans (Nat.min_le_right _ _)
  have hfour := k.four_le
  have hsamples : ∀ i, ∀ hi : i < history.length, i < k.points →
      ∃ u, SampledAt c s.reference r x i history[i] u := by
    intro i hi hik
    have hsample := hsampled i hi (hik.trans_le hmax)
    rw [hr] at hsample
    exact hsample
  have hones : ∀ d ∈ windowData s.reference history k, d.w = 1 := by
    intro d hd
    obtain ⟨i, hi, -, rfl⟩ := mem_windowData.mp hd
    rw [relative, hweights _ (List.getElem_mem hi)]
    rfl
  refine ⟨r, hr1, hones, ?_, ?_, ⟨relative s.reference history[0], ?_, ?_⟩,
    relative s.reference history[k.points - 1], ?_, ?_⟩
  · rw [weight_of_ones hones, windowData, List.length_map, List.length_take,
      Nat.min_eq_left hlength]
  · intro d hd
    obtain ⟨i, hi, hik, rfl⟩ := mem_windowData.mp hd
    obtain ⟨u, hu⟩ := hsamples i hi hik
    exact hu.near
  · exact mem_windowData.mpr ⟨0, by omega, by omega, rfl⟩
  · have hx : history[0].x = s.reference.x :=
      hhead _ (by rw [List.head?_eq_getElem?]; exact List.getElem?_eq_getElem (by omega))
    rw [relative, hx, UInt64.sub_self]
    rfl
  · exact mem_windowData.mpr ⟨k.points - 1, by omega, by omega, rfl⟩
  · obtain ⟨u, hu⟩ := hsamples (k.points - 1) (by omega) (by omega)
    exact hu.far hfour hr1

section Points

variable {n : ℕ} {z : ℚ} {ds : List (Datum ℚ)}

theorem OscillatorPoints.pos (h : OscillatorPoints c n z ds) : ∀ d ∈ ds, 0 < d.w := by
  intro d hd
  rw [h.ones d hd]
  exact one_pos

/-- The slope of a line through them, by the distance of the oldest point. -/
theorem OscillatorPoints.slope (h : OscillatorPoints c n z ds) (hn : 4 ≤ n)
    (hnormal : NormalEquations ds a b) : |a - c.rate| ≤ c.slopeNoise := by
  obtain ⟨newest, hnewest, hzero⟩ := h.newest
  obtain ⟨oldest, holdest, hfar⟩ := h.oldest
  have hδ := c.pointNoise_pos
  have hlo := c.lo_pos
  have hfour : (4 : ℚ) ≤ n := by exact_mod_cast hn
  have hbetween := hnormal.near_between h.pos h.near hnewest holdest
    ((h.ones _ holdest).trans (h.ones _ hnewest).symm)
  rw [h.ones _ hnewest, hzero, zero_sub, h.weight, one_mul, mul_neg, neg_sq, mul_pow,
    ← sq_abs oldest.x] at hbetween
  generalize |oldest.x| = far at hfar hbetween
  have hspan : (n * c.lo) ^ 2 ≤ (2 * far) ^ 2 := pow_le_pow_left₀ (by positivity) hfar 2
  have hcounted : ((a - c.rate) * c.lo) ^ 2 * n ≤ 16 * c.pointNoise ^ 2 := by
    refine le_of_mul_le_mul_right ?_ (four_pos.trans_le hfour)
    calc ((a - c.rate) * c.lo) ^ 2 * n * n
        = (a - c.rate) ^ 2 * (n * c.lo) ^ 2 := by ring
      _ ≤ (a - c.rate) ^ 2 * (2 * far) ^ 2 := mul_le_mul_of_nonneg_left hspan (sq_nonneg _)
      _ ≤ 16 * c.pointNoise ^ 2 * n := by linarith
  have hscaled : |(a - c.rate) * c.lo| ≤ 2 * c.pointNoise := by
    apply abs_le_of_sq_le_sq _ (by positivity)
    nlinarith [mul_le_mul_of_nonneg_left hfour (sq_nonneg ((a - c.rate) * c.lo))]
  rw [abs_mul, abs_of_pos hlo] at hscaled
  exact (le_div_iff₀ hlo).mpr hscaled

/-- Its intercept, by the newest point. -/
theorem OscillatorPoints.intercept (h : OscillatorPoints c n z ds) (hn : n ≤ 64)
    (hnormal : NormalEquations ds a b) : |b - z| ≤ 8 * c.pointNoise := by
  obtain ⟨newest, hnewest, hzero⟩ := h.newest
  have hδ := c.pointNoise_pos
  have hmany : (n : ℚ) ≤ 64 := by exact_mod_cast hn
  have hat := hnormal.near_at h.pos h.near hnewest
  rw [h.ones _ hnewest, hzero, mul_zero, zero_add, one_mul, h.weight] at hat
  apply abs_le_of_sq_le_sq _ (by positivity)
  nlinarith [sq_nonneg c.pointNoise]

end Points

/-- **The line that is fitted** is near the line of the oscillator: the slope up to the noise over
the length of the window, as the oldest point is far from the newest, and the intercept up to a
multiple of the noise. -/
theorem OnLine.fit (h : OnLine c x s) (hk : k.points ≤ s.numPoints)
    (hnormal : NormalEquations (bufferData s k) a b) :
    |a - c.rate| ≤ c.slopeNoise ∧ |b + x| ≤ c.interceptNoise := by
  obtain ⟨r, hr, hpoints⟩ := h.points hk
  have hintercept := hpoints.intercept k.points_le hnormal
  have hplace : |c.rate * r| ≤ c.rate := by
    rw [abs_mul, abs_of_pos c.rate_pos]
    exact mul_le_of_le_one_right c.rate_pos.le hr.le
  have herror := c.error_nonneg
  refine ⟨hpoints.slope k.four_le hnormal, ?_⟩
  calc |b + x| = |b - (-x - c.rate * r) - c.rate * r| := by
        congr 1
        ring
    _ ≤ |b - (-x - c.rate * r)| + |c.rate * r| := abs_sub _ _
    _ ≤ c.interceptNoise := by
        rw [Oscillator.interceptNoise, Oscillator.pointNoise] at *
        linarith

end Fit

/-! ## One sample -/

/-- How far the frequency can be from that of the oscillator, at an offset of `y`. -/
def Oscillator.freqNoise (c : Oscillator) (y : ℚ) : ℚ :=
  1000000000 * c.slopeNoise + (y + c.interceptNoise) / c.interval

/-- An intercept of at most `M` does not make the servo step the clock. -/
def NeverSteps (M : ℚ) (base : ServoBase XRat) : Prop :=
  (∃ t, base.stepThreshold = fin t ∧ (t = 0 ∨ M ≤ t)) ∧
    ∃ t, base.firstStepThreshold = fin t ∧ (t = 0 ∨ M ≤ t)

theorem NeverSteps.not_exceeds {M b : ℚ} {base : ServoBase XRat} (h : NeverSteps M base)
    (hb : |b| ≤ M) : exceedsStepThreshold base (CDouble.fabs (fin b)) = false := by
  have hwithin : ∀ threshold : XRat, (∃ t, threshold = fin t ∧ (t = 0 ∨ M ≤ t)) →
      (CDouble.truthy threshold && CDouble.lt threshold (CDouble.fabs (fin b))) = false := by
    rintro threshold ⟨t, rfl, hzero | hle⟩
    · rw [truthy_fin, decide_eq_false (not_not.mpr hzero), Bool.false_and]
    · rw [fabs_fin, lt_fin, decide_eq_false (not_lt.mpr (hb.trans hle)), Bool.and_false]
  rw [exceedsStepThreshold, Bool.and_assoc, hwithin _ h.1, hwithin _ h.2, Bool.and_false,
    Bool.or_false]

/-- A size is chosen if the smallest one has a slope. -/
theorem updateSize_of_slope {s : LinregServo XRat}
    (h : CDouble.truthy (s.results 0).slope = true) : ∃ k, (updateSize s).size = some k := by
  have hkeeps : ∀ (ks : List SizeIndex) (best : Option SizeIndex × XRat), best.1.isSome = true →
      (ks.foldl (passStep s) best).1.isSome = true := by
    intro ks
    induction ks with
    | nil => exact fun _ hbest => hbest
    | cons k ks ih =>
      intro best hbest
      apply ih
      rw [passStep]
      split
      · rfl
      · exact hbest
  have hpick : passStep s (none, CDouble.lit 0) 0 = (some 0, (s.results 0).err) := by
    simp [passStep, betterSize, h]
  rw [updateSize_size_eq]
  apply Option.isSome_iff_exists.mp
  change (List.foldl (passStep s) (passStep s (none, CDouble.lit 0) 0) [1, 2, 3, 4]).1.isSome = true
  rw [hpick]
  exact hkeeps _ _ rfl

section Outcome

variable {D : Type} [CDouble D] {base : ServoBase D} {s : LinregServo D} {offset : Int64}
  {localTs : UInt64} {weight : D}

/-- A sample follows its line, if that is within the thresholds: it is locked, and the frequency of
the line is set, limited. -/
theorem linregSample_followed {k : SizeIndex}
    (hsize : (linregUpdate s offset localTs weight).size = some k)
    (hwithin : exceedsStepThreshold base
      (CDouble.fabs ((linregUpdate s offset localTs weight).results k).intercept) = false) :
    ∃ frequencyRatio, linregSample base s offset localTs weight =
      (-clampClockFreq base (targetFreq (linregUpdate s offset localTs weight) k), .locked,
        { linregUpdate s offset localTs weight with
          clockFreq := clampClockFreq base (targetFreq (linregUpdate s offset localTs weight) k)
          frequencyRatio }) := by
  have hlocked : (linregSample base s offset localTs weight).2.1 = .locked := by
    unfold linregSample
    dsimp only
    split
    · next hnone => cases hsize.symm.trans hnone
    · next j hsize' =>
      obtain rfl := Option.some.inj (hsize.symm.trans hsize')
      rw [hwithin]
      rfl
  have hsampled := linregSample_sampled base s offset localTs weight
  generalize linregSample base s offset localTs weight = result at hsampled hlocked ⊢
  cases hsampled with
  | waiting hsize' => cases hlocked
  | stepped j ratio hsize' => cases hlocked
  | followed j ratio hsize' =>
    obtain rfl := Option.some.inj (hsize.symm.trans hsize')
    exact ⟨ratio, rfl⟩

/-- Without a line a sample waits. -/
theorem linregSample_waits (hsize : (linregUpdate s offset localTs weight).size = none) :
    linregSample base s offset localTs weight =
      (-s.clockFreq, .unlocked, linregUpdate s offset localTs weight) := by
  have hunlocked : (linregSample base s offset localTs weight).2.1 = .unlocked := by
    unfold linregSample
    dsimp only
    split
    · rfl
    · next j hsize' => cases hsize.symm.trans hsize'
  have hsampled := linregSample_sampled base s offset localTs weight
  generalize linregSample base s offset localTs weight = result at hsampled hunlocked ⊢
  cases hsampled with
  | waiting hsize' => rw [(linregUpdate_frame s offset localTs weight).1]
  | stepped j ratio hsize' => cases hunlocked
  | followed j ratio hsize' => cases hunlocked

end Outcome

/-- What is on a line stays there, if the points and the reference do. -/
theorem OnLine.same {c : Oscillator} {x : ℚ} {s s' : LinregServo XRat} (h : OnLine c x s)
    (htracks : ∀ history, Tracks s history → Tracks s' history)
    (hremainder : s'.xRemainder = s.xRemainder) (hreference : s'.reference = s.reference) :
    OnLine c x s' := by
  obtain ⟨hr, history, hhistory, hweights, hhead, hsampled⟩ := h
  refine ⟨?_, history, htracks history hhistory, hweights, ?_, ?_⟩
  · rw [hremainder]
    exact hr
  · rw [hreference]
    exact hhead
  · rw [hremainder, hreference]
    exact hsampled

/-- What the servo knows of a clock that was `x` ahead at the last sample: it is ready for the next
one, with its sync interval and its window. -/
structure Follows (c : Oscillator) (limit x : ℚ) (s : LinregServo XRat) : Prop where
  ready : Ready limit s
  sync : s.updateInterval = fin c.interval
  line : OnLine c x s

/-- What a sample at the offset `x` makes of the servo: with three samples before it follows a line
near that of the oscillator. Until then it waits, and keeps the frequency as it is. -/
structure SampleFollows (c : Oscillator) (x : ℚ) (s : LinregServo XRat) (localTs : UInt64)
    (r : XRat) (state : ServoState) (s' : LinregServo XRat) : Prop where
  lastUpdate : s'.lastUpdate = localTs
  numPoints : s'.numPoints = min (s.numPoints + 1) MAX_POINTS
  waits : s.numPoints < 3 → state = .unlocked ∧ s'.clockFreq = s.clockFreq
  follows : 3 ≤ s.numPoints → state = .locked ∧ ∃ k a b, |a - c.rate| ≤ c.slopeNoise ∧
    |b + x| ≤ c.interceptNoise ∧ s'.clockFreq = fin (lineFreq a b c.interval k) ∧
    r = fin (-lineFreq a b c.interval k)

/-- The frequency of a line near that of the oscillator: the error of the slope is one of the
frequency, and the intercept is corrected over the interval or over more of them. -/
theorem abs_lineFreq_sub_le {c : Oscillator} {x a b : ℚ} (ha : |a - c.rate| ≤ c.slopeNoise)
    (hb : |b + x| ≤ c.interceptNoise) (k : SizeIndex) :
    |lineFreq a b c.interval k - 1000000000 * (c.rate - 1)| ≤ c.freqNoise |x| := by
  have hcorr : (1 : ℚ) ≤ corrInterval k := by
    have hone : ∀ k : SizeIndex, 1 ≤ corrInterval k := by decide
    exact_mod_cast hone k
  have hinterval := c.interval_pos
  have hbound : |b| ≤ |x| + c.interceptNoise := by
    calc |b| = |b + x - x| := by rw [add_sub_cancel_right]
      _ ≤ |b + x| + |x| := abs_sub _ _
      _ ≤ |x| + c.interceptNoise := by linarith
  have hcorrection : |b / c.interval / corrInterval k| ≤ (|x| + c.interceptNoise) / c.interval := by
    rw [abs_div, abs_div, abs_of_pos hinterval, abs_of_pos (one_pos.trans_le hcorr)]
    calc |b| / c.interval / corrInterval k ≤ |b| / c.interval :=
          div_le_self (div_nonneg (abs_nonneg b) hinterval.le) hcorr
      _ ≤ (|x| + c.interceptNoise) / c.interval := by gcongr
  calc |lineFreq a b c.interval k - 1000000000 * (c.rate - 1)|
      = |1000000000 * (a - c.rate) + b / c.interval / corrInterval k| := by
        rw [lineFreq]
        congr 1
        ring
    _ ≤ |1000000000 * (a - c.rate)| + |b / c.interval / corrInterval k| := abs_add_le _ _
    _ ≤ c.freqNoise |x| := by
        rw [abs_mul, abs_of_pos (by norm_num : (0 : ℚ) < 1000000000), Oscillator.freqNoise]
        gcongr

/-- A frequency within the limit is kept. -/
theorem clampClockFreq_of_le {base : ServoBase XRat} {limit q : ℚ}
    (hmax : base.maxFrequency = fin limit) (hq : |q| ≤ limit) :
    clampClockFreq base (fin q) = fin q := by
  obtain ⟨hlo, hhi⟩ := abs_le.mp hq
  rw [clampClockFreq, hmax, if_neg, if_neg]
  · rw [neg_fin, lt_fin, decide_eq_true_eq, not_lt]
    exact hlo
  · rw [lt_fin, decide_eq_true_eq, not_lt]
    exact hhi

section Servo

variable {c : Oscillator} {limit x x' : ℚ} {base : ServoBase XRat} {s : LinregServo XRat}
  {offset : Int64} {localTs : UInt64}

/-- The number of points after a sample. -/
theorem numPoints_sampled {history : List (Point XRat)} (h : Tracks s history) (offset : Int64)
    (localTs : UInt64) (weight : XRat) :
    (sampled s offset localTs weight).numPoints = min (s.numPoints + 1) MAX_POINTS := by
  have hsampled := (tracks_sampled h offset localTs weight).numPoints
  rw [hsampled, h.numPoints, List.length_cons]
  omega

/-- A servo that follows a clock is about to measure it `x'` ahead. -/
structure Measuring (c : Oscillator) (limit x x' : ℚ) (s : LinregServo XRat) (offset : Int64)
    (localTs : UInt64) : Prop where
  follows : Follows c limit x s
  passed : Passed c s localTs x x'
  last_le : |x| ≤ 2 ^ 60
  next_le : |x'| ≤ 2 ^ 60
  measured : |offset.toInt - x'| ≤ c.error

namespace Measuring

theorem recorded (h : Measuring c limit x x' s offset localTs) :
    OnLine c x' (sampled s offset localTs (fin 1)) :=
  h.follows.line.recorded h.follows.ready h.passed h.last_le h.next_le h.measured

/-- The regressions leave the samples where they are. -/
theorem updated (h : Measuring c limit x x' s offset localTs) :
    OnLine c x' (linregUpdate s offset localTs (fin 1)) := by
  refine h.recorded.same ?_ ?_ ?_
  · intro history htracks
    exact htracks.regress.same (updateSize_same _)
  · rw [linregUpdate, regress_eq]
    rfl
  · rw [linregUpdate, regress_eq]
    rfl

theorem lastUpdate_linregUpdate (s : LinregServo XRat) (offset : Int64) (localTs : UInt64) :
    (linregUpdate s offset localTs (fin 1)).lastUpdate = localTs := by
  rw [linregUpdate, regress_eq]
  rfl

theorem numPoints (h : Measuring c limit x x' s offset localTs) :
    (linregUpdate s offset localTs (fin 1)).numPoints = min (s.numPoints + 1) MAX_POINTS := by
  obtain ⟨-, history, htracks, -⟩ := h.follows.line
  rw [← numPoints_sampled htracks offset localTs (fin 1), linregUpdate, regress_eq]
  rfl

theorem sync (h : Measuring c limit x x' s offset localTs) :
    (linregUpdate s offset localTs (fin 1)).updateInterval = fin c.interval :=
  (linregUpdate_frame s offset localTs (fin 1)).2.trans h.follows.sync

/-- The invariant of the servo is kept. -/
theorem ready (h : Measuring c limit x x' s offset localTs)
    (hmax : base.maxFrequency = fin limit) :
    Ready limit (linregSample base s offset localTs (fin 1)).2.2 := by
  have hweight : PosWeight (fin 1) := ⟨1, rfl, one_pos⟩
  have hlimit : 0 ≤ limit := by
    obtain ⟨f, -, hf⟩ := h.follows.ready.clockFreq
    exact (abs_nonneg f).trans hf
  have hmoving := h.follows.line.not_stalled h.follows.ready h.passed
  exact Ready.sample hmax hlimit h.follows.ready offset localTs hweight
    ((regressionsDefined_iff h.follows.ready offset localTs hweight).mpr hmoving)

/-- The lines that are fitted are near the line of the oscillator. -/
theorem fit (h : Measuring c limit x x' s offset localTs) {k : SizeIndex}
    (hk : k.points ≤ min (s.numPoints + 1) MAX_POINTS) :
    ∃ a b, IsLine ((linregUpdate s offset localTs (fin 1)).results k) a b ∧
      |a - c.rate| ≤ c.slopeNoise ∧ |b + x'| ≤ c.interceptNoise := by
  have hweight : PosWeight (fin 1) := ⟨1, rfl, one_pos⟩
  have hmoving := h.follows.line.not_stalled h.follows.ready h.passed
  obtain ⟨-, history, htracks, -⟩ := h.follows.line
  rw [← numPoints_sampled htracks offset localTs (fin 1)] at hk
  obtain ⟨-, -, a, b, hab, hnormal⟩ := fitted_line h.follows.ready hweight hmoving hk
  exact ⟨a, b, hab, h.recorded.fit hk hnormal⟩

/-- A size that is chosen has all its points. -/
theorem size_le (h : Measuring c limit x x' s offset localTs) {k : SizeIndex}
    (hsize : (linregUpdate s offset localTs (fin 1)).size = some k) :
    k.points ≤ min (s.numPoints + 1) MAX_POINTS := by
  obtain ⟨-, history, htracks, -⟩ := h.recorded
  rw [← h.numPoints]
  exact ExternalServo.size_le htracks.regress hsize

/-- Before the fourth sample there are too few points for the smallest size. -/
theorem size_eq_none (h : Measuring c limit x x' s offset localTs) (hfew : s.numPoints < 3) :
    (linregUpdate s offset localTs (fin 1)).size = none := by
  cases hsize : (linregUpdate s offset localTs (fin 1)).size with
  | none => rfl
  | some k =>
    have hle := h.size_le hsize
    have hfour := k.four_le
    omega

/-- With it there is a size, as the oscillator does not stand still. -/
theorem exists_size (h : Measuring c limit x x' s offset localTs) (hmany : 3 ≤ s.numPoints)
    (hroom : 1000000000 * |c.rate - 1| + c.freqNoise |x'| ≤ limit) :
    ∃ k, (linregUpdate s offset localTs (fin 1)).size = some k := by
  have hmax : MAX_POINTS = 64 := rfl
  obtain ⟨a, b, ⟨hslope, -⟩, ha, -⟩ := h.fit (k := 0) (by
    change 4 ≤ _
    omega)
  have hpositive : 0 < a := by
    have hrest : 0 ≤ (|x'| + c.interceptNoise) / c.interval :=
      div_nonneg (add_nonneg (abs_nonneg x') c.interceptNoise_nonneg) c.interval_pos.le
    rw [Oscillator.freqNoise] at hroom
    have hlow := (abs_le.mp ha).1
    have hrate := neg_abs_le (c.rate - 1)
    linarith [h.follows.ready.limit]
  apply updateSize_of_slope
  change CDouble.truthy ((linregUpdate s offset localTs (fin 1)).results 0).slope = true
  rw [hslope, truthy_fin]
  exact decide_eq_true hpositive.ne'

/-- The frequency of a line near that of the oscillator is within the limit. -/
theorem abs_lineFreq_le {a b : ℚ} (ha : |a - c.rate| ≤ c.slopeNoise)
    (hb : |b + x'| ≤ c.interceptNoise) (k : SizeIndex)
    (hroom : 1000000000 * |c.rate - 1| + c.freqNoise |x'| ≤ limit) :
    |lineFreq a b c.interval k| ≤ limit := by
  have hnear := abs_lineFreq_sub_le ha hb k
  calc |lineFreq a b c.interval k|
      = |lineFreq a b c.interval k - 1000000000 * (c.rate - 1) +
          1000000000 * (c.rate - 1)| := by rw [sub_add_cancel]
    _ ≤ |lineFreq a b c.interval k - 1000000000 * (c.rate - 1)| +
          |1000000000 * (c.rate - 1)| := abs_add_le _ _
    _ ≤ limit := by
        rw [abs_mul, abs_of_pos (by norm_num : (0 : ℚ) < 1000000000)]
        linarith

/-- The first three samples wait. -/
theorem waits (h : Measuring c limit x x' s offset localTs)
    (hmax : base.maxFrequency = fin limit) (hfew : s.numPoints < 3) :
    ∃ r state s', linregSample base s offset localTs (fin 1) = (r, state, s') ∧
      Follows c limit x' s' ∧ SampleFollows c x' s localTs r state s' := by
  have hsample : linregSample base s offset localTs (fin 1) =
      (-s.clockFreq, .unlocked, linregUpdate s offset localTs (fin 1)) :=
    linregSample_waits (h.size_eq_none hfew)
  have hready := h.ready hmax
  rw [hsample] at hready
  refine ⟨_, _, _, hsample, ⟨hready, h.sync, h.updated⟩,
    lastUpdate_linregUpdate s offset localTs, h.numPoints, ?_, ?_⟩
  · exact fun _ => ⟨rfl, (linregUpdate_frame s offset localTs (fin 1)).1⟩
  · exact fun hmany => absurd hmany (not_le.mpr hfew)

/-- The others follow the line of the size that was chosen. There is room for its intercept below
the thresholds and for its frequency below the limit, so the servo does neither step nor clamp. -/
theorem locks (h : Measuring c limit x x' s offset localTs)
    (hmax : base.maxFrequency = fin limit) (hsteps : NeverSteps (|x'| + c.interceptNoise) base)
    (hroom : 1000000000 * |c.rate - 1| + c.freqNoise |x'| ≤ limit) (hmany : 3 ≤ s.numPoints) :
    ∃ r state s', linregSample base s offset localTs (fin 1) = (r, state, s') ∧
      Follows c limit x' s' ∧ SampleFollows c x' s localTs r state s' := by
  obtain ⟨k, hsize⟩ := h.exists_size hmany hroom
  obtain ⟨a, b, hab, ha, hb⟩ := h.fit (h.size_le hsize)
  have hwithin : exceedsStepThreshold base (CDouble.fabs
      ((linregUpdate s offset localTs (fin 1)).results k).intercept) = false := by
    rw [hab.2]
    apply hsteps.not_exceeds
    calc |b| = |b + x' - x'| := by rw [add_sub_cancel_right]
      _ ≤ |b + x'| + |x'| := abs_sub _ _
      _ ≤ |x'| + c.interceptNoise := by linarith
  have hfreq : clampClockFreq base (targetFreq (linregUpdate s offset localTs (fin 1)) k) =
      fin (lineFreq a b c.interval k) := by
    rw [targetFreq_line hab h.sync c.interval_pos]
    exact clampClockFreq_of_le hmax (abs_lineFreq_le ha hb k hroom)
  obtain ⟨ratio, hsample⟩ := linregSample_followed hsize hwithin
  rw [hfreq] at hsample
  have hready := h.ready hmax
  rw [hsample] at hready
  refine ⟨_, _, _, hsample, ⟨hready, h.sync, ?_⟩,
    lastUpdate_linregUpdate s offset localTs, h.numPoints, ?_, ?_⟩
  · exact h.updated.same (fun _ htracks => htracks.same (setFreq_same _ _ ratio)) rfl rfl
  · exact fun hfew => absurd hmany (not_le.mpr hfew)
  · exact fun _ => ⟨rfl, k, a, b, ha, hb, rfl, rfl⟩

end Measuring

/-- **One sample** of a servo that follows a clock. Within the limits it is neither stepped nor
clamped, so the frequency that is returned is that of the line which was fitted. -/
theorem Follows.sample (h : Follows c limit x s) (hpassed : Passed c s localTs x x')
    (hx : |x| ≤ 2 ^ 60) (hx' : |x'| ≤ 2 ^ 60) (hmeasured : |offset.toInt - x'| ≤ c.error)
    (hmax : base.maxFrequency = fin limit) (hsteps : NeverSteps (|x'| + c.interceptNoise) base)
    (hroom : 1000000000 * |c.rate - 1| + c.freqNoise |x'| ≤ limit) :
    ∃ r state s', linregSample base s offset localTs (fin 1) = (r, state, s') ∧
      Follows c limit x' s' ∧ SampleFollows c x' s localTs r state s' := by
  have hmeasuring : Measuring c limit x x' s offset localTs :=
    ⟨h, hpassed, hx, hx', hmeasured⟩
  rcases Nat.lt_or_ge s.numPoints 3 with hfew | hmany
  · exact hmeasuring.waits hmax hfew
  · exact hmeasuring.locks hmax hsteps hroom hmany

end Servo

/-! ## An interval -/

/-- **An interval of the closed loop.** At its sample the clock is `x` ahead, and `x'` at the next
one, which is at the local time `next`: the oscillator counted `e` nanoseconds, and the clock as
many at the frequency that was set last. -/
structure RegressionInterval (c : Oscillator) (pow : XRat → XRat → XRat) (dev : DeviceConfig)
    (x x' : ℚ) (sys sys' : Sys XRat (Inner XRat)) (i : Interval) (next : Int64) : Prop where
  run : i.handlers.foldlM (handle (servoOps pow) dev) sys = .ok sys'
  sampled : ∃ offset : Tmv, updateOffset sys i.masterTime i.slaveTime = some (offset, .fin 1) ∧
    |offset.ns.toInt - x| ≤ c.error
  moved : ∀ g : ℚ, lastFreq dev.freqClkId sys'.calls = some (.fin g) →
    ∃ e, c.lo ≤ e ∧ e ≤ c.hi ∧
      (next.toInt - i.slaveTime.toInt : ℚ) = e * (1 + g / 1000000000) ∧
      x' = x + e * (1 + g / 1000000000 - c.rate)

/-- The program before a sample, with `n` samples since the regression servo was started: it is
about to find the clock `x` ahead at the local time `localTs`, and knows at which frequency the
clock was running until then. -/
structure Disciplining (c : Oscillator) (dev : DeviceConfig) (limit M : ℚ) (n : ℕ) (x : ℚ)
    (localTs : Int64) (sys : Sys XRat (Inner XRat)) : Prop where
  maxFrequency : sys.servo.base.maxFrequency = fin limit
  offsetThreshold : sys.servo.base.offsetThreshold = 0
  thresholds : NeverSteps M sys.servo.base
  linreg : ∃ s x₀ g, sys.servo.inner = .linreg s ∧ Follows c limit x₀ s ∧ |x₀| ≤ 2 ^ 60 ∧
    s.numPoints = min n MAX_POINTS ∧ Passed c s localTs.toUInt64 x₀ x ∧ s.clockFreq = fin g ∧
    lastFreq dev.freqClkId sys.calls = some (fin g)

/-- The part of an offset that an interval corrects: neither too little nor too much. -/
theorem Oscillator.corrected (c : Oscillator) {e : ℚ} (k : SizeIndex) (hlo : c.lo ≤ e)
    (hhi : e ≤ c.hi) : ∃ γ, γ * (1000000000 * c.interval * corrInterval k) = e ∧ 0 < γ ∧
      |1 - γ| ≤ c.kept := by
  have hcorr : (1 : ℚ) ≤ corrInterval k ∧ (corrInterval k : ℚ) ≤ 3 := by
    have hbetween : ∀ k : SizeIndex, 1 ≤ corrInterval k ∧ corrInterval k ≤ 3 := by decide
    exact_mod_cast hbetween k
  have hcorr0 : (0 : ℚ) < corrInterval k := one_pos.trans_le hcorr.1
  have hunit : 0 < 1000000000 * c.interval := mul_pos (by norm_num) c.interval_pos
  have he : 0 < e := c.lo_pos.trans_le hlo
  have hspan : 0 < 1000000000 * c.interval * corrInterval k := mul_pos hunit hcorr0
  refine ⟨e / (1000000000 * c.interval * corrInterval k), div_mul_cancel₀ e hspan.ne',
    div_pos he hspan, ?_⟩
  rw [abs_le, neg_le_sub_iff_le_add, sub_le_comm]
  refine ⟨?_, ?_⟩
  · rw [div_le_iff₀ hspan]
    calc e ≤ (1 + c.kept) * (1000000000 * c.interval) := hhi.trans c.hi_forgets
      _ ≤ (1 + c.kept) * (1000000000 * c.interval * corrInterval k) :=
          mul_le_mul_of_nonneg_left (le_mul_of_one_le_right hunit.le hcorr.1)
            (by linarith [c.kept_nonneg])
  · rw [le_div_iff₀ hspan]
    calc (1 - c.kept) * (1000000000 * c.interval * corrInterval k)
        ≤ (1 - c.kept) * (3 * (1000000000 * c.interval)) := by
          apply mul_le_mul_of_nonneg_left _ (by linarith [c.kept_lt])
          rw [mul_comm]
          exact mul_le_mul_of_nonneg_right hcorr.2 hunit.le
      _ ≤ e := c.lo_forgets.trans hlo

/-- What an interval leaves of the offset, if the servo follows a line near that of the
oscillator. -/
theorem Oscillator.keeps (c : Oscillator) {x a b e : ℚ} (k : SizeIndex)
    (ha : |a - c.rate| ≤ c.slopeNoise) (hb : |b + x| ≤ c.interceptNoise) (hlo : c.lo ≤ e)
    (hhi : e ≤ c.hi) :
    |x + e * (1 + lineFreq a b c.interval k / 1000000000 - c.rate)| ≤
      c.kept * |x| + c.stepNoise := by
  obtain ⟨γ, hγe, hγ0, hkept⟩ := c.corrected k hlo hhi
  have he : 0 < e := c.lo_pos.trans_le hlo
  have htwo : γ ≤ 2 := by
    obtain ⟨hγ, -⟩ := abs_le.mp hkept
    linarith [c.kept_lt]
  have hsplit : x + e * (1 + lineFreq a b c.interval k / 1000000000 - c.rate) =
      (1 - γ) * x + e * (a - c.rate) + γ * (b + x) := by
    have hcorr : (corrInterval k : ℚ) ≠ 0 := by
      have hone : ∀ k : SizeIndex, corrInterval k ≠ 0 := by decide
      exact_mod_cast hone k
    have hinterval := c.interval_pos.ne'
    rw [lineFreq, ← hγe]
    field_simp
    ring
  have hhi0 : 0 ≤ c.hi := he.le.trans hhi
  have hnoise := c.interceptNoise_nonneg
  rw [hsplit]
  calc |(1 - γ) * x + e * (a - c.rate) + γ * (b + x)|
      ≤ |(1 - γ) * x| + |e * (a - c.rate)| + |γ * (b + x)| := abs_add_three _ _ _
    _ = |1 - γ| * |x| + e * |a - c.rate| + γ * |b + x| := by
        rw [abs_mul, abs_mul, abs_mul, abs_of_pos he, abs_of_pos hγ0]
    _ ≤ c.kept * |x| + c.hi * c.slopeNoise + 2 * c.interceptNoise := by gcongr
    _ = c.kept * |x| + c.stepNoise := by
        rw [Oscillator.stepNoise]
        ring

section Step

variable {c : Oscillator} {pow : XRat → XRat → XRat} {dev : DeviceConfig} {limit M x x' : ℚ}
  {n : ℕ} {sys sys' : Sys XRat (Inner XRat)} {i : Interval} {next : Int64}

/-- The time between two samples, as the servo computes it. -/
theorem toInt_localTs_sub {t t' : Int64} {e g : ℚ} (hlo : 0 < e) (hhi : e ≤ 2 ^ 50)
    (hratio : 0 < 1 + g / 1000000000) (hratio2 : 1 + g / 1000000000 ≤ 2)
    (htime : (t'.toInt - t.toInt : ℚ) = e * (1 + g / 1000000000)) :
    ((t'.toUInt64 - t.toUInt64).toInt64.toInt : ℚ) = e * (1 + g / 1000000000) := by
  have hbound : |((t'.toInt - t.toInt : ℤ) : ℚ)| ≤ 2 ^ 51 := by
    rw [Int.cast_sub, htime, abs_of_pos (mul_pos hlo hratio)]
    calc e * (1 + g / 1000000000) ≤ 2 ^ 50 * 2 := mul_le_mul hhi hratio2 hratio.le (by norm_num)
      _ = 2 ^ 51 := by norm_num
  have hfits : Fits (t'.toInt - t.toInt) := fits_of_abs_le hbound (by norm_num)
  have hsub : (t'.toUInt64 - t.toUInt64).toInt64 = t' - t := by
    rw [UInt64.toInt64_sub]
    rfl
  rw [hsub, toInt_sub_of_fits hfits, Int.cast_sub, htime]

/-- The answer of the servo to the sample of an interval. The thresholds leave room for the offset
and the noise of the intercept, and no stable lock is detected, so the result of the sample is
reported as it is. -/
theorem Disciplining.answer {offset : Tmv} (hsys : Disciplining c dev limit M n x i.slaveTime sys)
    (hx : |x| ≤ 2 ^ 60) (hM : |x| + c.interceptNoise ≤ M)
    (hroom : 1000000000 * |c.rate - 1| + c.freqNoise |x| ≤ limit)
    (hmeasured : |offset.ns.toInt - x| ≤ c.error) (pow : XRat → XRat → XRat) :
    ∃ s r state s', s.numPoints = min n MAX_POINTS ∧
      lastFreq dev.freqClkId sys.calls = some s.clockFreq ∧
      servoSample (servoOps pow) sys.servo offset.ns i.slaveTime.toUInt64 (.fin 1) =
        (r, state, ⟨baseAfter sys.servo.base offset.ns state, .linreg s'⟩) ∧
      Follows c limit x s' ∧ SampleFollows c x s i.slaveTime.toUInt64 r state s' := by
  obtain ⟨hmax, hstable, hsteps, s, x₀, g₀, hinner, hfollows, hx₀, hnum, hpassed, hg₀, hlast₀⟩ :=
    hsys
  have hthresholds : NeverSteps (|x| + c.interceptNoise) sys.servo.base := by
    obtain ⟨⟨t, ht, hle⟩, t', ht', hle'⟩ := hsteps
    exact ⟨⟨t, ht, hle.imp_right hM.trans⟩, t', ht', hle'.imp_right hM.trans⟩
  obtain ⟨r, state, s', hsample, hfollows', hafter⟩ :=
    hfollows.sample hpassed hx₀ hx hmeasured hmax hthresholds hroom
  have hown : (servoOps pow).sample sys.servo.base sys.servo.inner offset.ns i.slaveTime.toUInt64
      (.fin 1) = (r, state, .linreg s') := by
    have hlinreg : (servoOps pow).sample sys.servo.base (.linreg s) offset.ns
        i.slaveTime.toUInt64 (.fin 1) =
        ((linregSample sys.servo.base s offset.ns i.slaveTime.toUInt64 (.fin 1)).1,
          (linregSample sys.servo.base s offset.ns i.slaveTime.toUInt64 (.fin 1)).2.1,
          .linreg (linregSample sys.servo.base s offset.ns i.slaveTime.toUInt64 (.fin 1)).2.2) :=
      rfl
    rw [hinner, hlinreg, hsample]
  exact ⟨s, r, state, s', hnum, hg₀ ▸ hlast₀,
    servoSample_of_zero (servoOps pow) hstable hown, hfollows', hafter⟩

/-- **After an interval** the program disciplines on, whatever frequency is in force. -/
theorem RegressionInterval.continues (h : RegressionInterval c pow dev x x' sys sys' i next)
    (hsys : Disciplining c dev limit M n x i.slaveTime sys) (hx : |x| ≤ 2 ^ 60) {offset : Tmv}
    (hoffset : updateOffset sys i.masterTime i.slaveTime = some (offset, .fin 1))
    {s s' : LinregServo XRat} {r : XRat} {state : ServoState} {g : ℚ}
    (hservo : sys'.servo = ⟨baseAfter sys.servo.base offset.ns state, .linreg s'⟩)
    (hfollows : Follows c limit x s')
    (hafter : SampleFollows c x s i.slaveTime.toUInt64 r state s')
    (hnum : s.numPoints = min n MAX_POINTS) (hg : s'.clockFreq = fin g)
    (hlastFreq : lastFreq dev.freqClkId sys'.calls = some (fin g)) :
    Disciplining c dev limit M (n + 1) x' next sys' ∧
      ∃ e, c.lo ≤ e ∧ e ≤ c.hi ∧ x' = x + e * (1 + g / 1000000000 - c.rate) := by
  have hlast : s'.lastUpdate ≠ 0 := by
    obtain ⟨-, hnonzero, -⟩ := tsprocUpdateOffset_eq_some hoffset
    rw [hafter.lastUpdate]
    intro hzero
    have hslave : i.slaveTime = 0 := congrArg UInt64.toInt64 hzero
    exact absurd (decide_eq_true hslave) (Bool.eq_false_iff.mp hnonzero)
  obtain ⟨e, hlo, hhi, htime, hx'⟩ := h.moved g hlastFreq
  obtain ⟨hratio, hratio2⟩ := ratio_bounds hfollows.ready hg
  have hpassed : Passed c s' next.toUInt64 x x' := by
    rw [hx']
    refine .later hlast hg hlo hhi ?_
    rw [hafter.lastUpdate]
    exact toInt_localTs_sub (c.lo_pos.trans_le hlo) (hhi.trans c.hi_le) hratio hratio2 htime
  have hnum' : s'.numPoints = min (n + 1) MAX_POINTS := by
    rw [hafter.numPoints, hnum]
    omega
  obtain ⟨currOffsetValues, firstUpdate, hbase⟩ := baseAfter_frame sys.servo.base offset.ns state
  refine ⟨⟨?_, ?_, ?_, s', x, g, ?_, hfollows, hx, hnum', hpassed, hg, hlastFreq⟩,
    e, hlo, hhi, hx'⟩
  · rw [hservo, hbase]
    exact hsys.maxFrequency
  · rw [hservo, hbase]
    exact hsys.offsetThreshold
  · rw [hservo, hbase]
    exact hsys.thresholds
  · rw [hservo]

/-- **An interval**: with three samples before it, the program follows the oscillator. The frequency
of the line makes up for the rate of the oscillator and, over a sync interval or more, for the
offset, which leaves a part of it and the noise of the fit. -/
theorem RegressionInterval.step (h : RegressionInterval c pow dev x x' sys sys' i next)
    (hsys : Disciplining c dev limit M n x i.slaveTime sys) (hx : |x| ≤ 2 ^ 60)
    (hM : |x| + c.interceptNoise ≤ M)
    (hroom : 1000000000 * |c.rate - 1| + c.freqNoise |x| ≤ limit) :
    Disciplining c dev limit M (n + 1) x' next sys' ∧
      (n < 3 → sys'.calls = sys.calls) ∧
      (3 ≤ n → |x'| ≤ c.kept * |x| + c.stepNoise ∧
        ∃ g : ℚ, |g - 1000000000 * (c.rate - 1)| ≤ c.freqNoise |x| ∧
          lastFreq dev.freqClkId sys'.calls = some (.fin g) ∧
          ∃ calls, sys'.calls = sys.calls ++ calls ∧
            ∀ call ∈ calls, call = .setFreq dev.freqClkId (.fin g) ∨ call = .setSync) := by
  obtain ⟨offset, hoffset, hmeasured⟩ := h.sampled
  obtain ⟨s, r, state, s', hnum, hlast₀, hsample, hfollows, hafter⟩ :=
    hsys.answer hx hM hroom hmeasured pow
  obtain ⟨hservo, hcalls⟩ := Interval.answered h.run hoffset hsample
  have hmax64 : MAX_POINTS = 64 := rfl
  rcases Nat.lt_or_ge n 3 with hfew | hmany
  · -- nothing is commanded
    obtain ⟨rfl, hkeeps⟩ := hafter.waits (by omega)
    have hsame : sys'.calls = sys.calls := hcalls.trans (List.append_nil _)
    obtain ⟨g, hg, -⟩ := hfollows.ready.clockFreq
    have hlast : lastFreq dev.freqClkId sys'.calls = some (fin g) := by
      rw [hsame, hlast₀, ← hkeeps, hg]
    obtain ⟨hnext, -⟩ := h.continues hsys hx hoffset hservo hfollows hafter hnum hg hlast
    exact ⟨hnext, fun _ => hsame, fun hmany => absurd hmany (not_le.mpr hfew)⟩
  · obtain ⟨rfl, k, a, b, ha, hb, hfreq, rfl⟩ := hafter.follows (by omega)
    obtain ⟨hlast, hcommanded⟩ := Interval.locked h.run hoffset hsample
    rw [neg_fin, neg_neg] at hlast hcommanded
    obtain ⟨hnext, e, hlo, hhi, hx'⟩ :=
      h.continues hsys hx hoffset hservo hfollows hafter hnum hfreq hlast
    refine ⟨hnext, fun hfew => absurd hmany (not_le.mpr hfew), ?_⟩
    intro _
    refine ⟨?_, _, abs_lineFreq_sub_le ha hb k, hlast, hcommanded⟩
    rw [hx']
    exact c.keeps k ha hb hlo hhi

end Step

/-! ## Runs -/

section Run

variable {c : Oscillator} {pow : XRat → XRat → XRat} {dev : DeviceConfig} {limit N : ℚ}
  {n : ℕ} {x : ℕ → ℚ} {sys : ℕ → Sys XRat (Inner XRat)} {i : ℕ → Interval}

theorem Oscillator.freqNoise_mono {y y' : ℚ} (h : y ≤ y') : c.freqNoise y ≤ c.freqNoise y' := by
  have hinterval := c.interval_pos
  rw [freqNoise, freqNoise]
  gcongr

/-- What is left of the offset of the third sample, and the noise, is within the room. -/
theorem Oscillator.within_room {y : ℚ} (hy : |y| ≤ N) (m : ℕ) :
    c.kept ^ m * |y| + c.floor ≤ N + c.floor := by
  have hpow : c.kept ^ m ≤ 1 := pow_le_one₀ c.kept_nonneg c.kept_lt.le
  have hscaled := mul_le_of_le_one_left (abs_nonneg y) hpow
  linarith

/-- **The run lemma.** The offsets stay within the room that was asked for, so every interval is one
of a program that disciplines; and from the third one on each keeps a part of the offset before it.
-/
theorem disciplining_run
    (hrun : ∀ k < n, RegressionInterval c pow dev (x k) (x (k + 1)) (sys k) (sys (k + 1)) (i k)
      (i (k + 1)).slaveTime)
    (hstart : Disciplining c dev limit (N + c.floor + c.interceptNoise) 0 (x 0) (i 0).slaveTime
      (sys 0))
    (hfirst : ∀ k ≤ 3, |x k| ≤ N) (hsmall : N + c.floor ≤ 2 ^ 60)
    (hroom : 1000000000 * |c.rate - 1| + c.freqNoise (N + c.floor) ≤ limit) :
    ∀ k ≤ n, Disciplining c dev limit (N + c.floor + c.interceptNoise) k (x k) (i k).slaveTime
      (sys k) ∧ (3 ≤ k → |x k| ≤ c.kept ^ (k - 3) * |x 3| + c.floor) ∧ |x k| ≤ N + c.floor := by
  have hfloor := c.floor_nonneg
  intro k hk
  induction k with
  | zero =>
    refine ⟨hstart, fun h => absurd h (by omega), ?_⟩
    linarith [hfirst 0 (by omega)]
  | succ k ih =>
    obtain ⟨hsys, hbound, hwithin⟩ := ih (Nat.le_of_succ_le hk)
    obtain ⟨hsys', -, hlater⟩ := (hrun k hk).step hsys (hwithin.trans hsmall) (by linarith)
      (le_trans (by linarith [c.freqNoise_mono hwithin]) hroom)
    rcases Nat.lt_or_ge k 3 with hfew | hmany
    · -- the servo has no line yet
      have hle := hfirst (k + 1) (by omega)
      refine ⟨hsys', ?_, by linarith⟩
      intro h
      obtain rfl : k = 2 := by omega
      rw [Nat.sub_self, pow_zero, one_mul]
      linarith
    · have hnext : |x (k + 1)| ≤ c.kept ^ (k + 1 - 3) * |x 3| + c.floor := by
        calc |x (k + 1)| ≤ c.kept * |x k| + c.stepNoise := (hlater hmany).1
          _ ≤ c.kept * (c.kept ^ (k - 3) * |x 3| + c.floor) + c.stepNoise := by
              gcongr
              · exact c.kept_nonneg
              · exact hbound hmany
          _ = c.kept ^ (k + 1 - 3) * |x 3| + (c.kept * c.floor + c.stepNoise) := by
              rw [Nat.succ_sub hmany, pow_succ]
              ring
          _ = c.kept ^ (k + 1 - 3) * |x 3| + c.floor := by rw [c.kept_floor]
      exact ⟨hsys', fun _ => hnext, hnext.trans (c.within_room (hfirst 3 le_rfl) _)⟩

/-- **The regression servo brings the clock to its master.** In every run of the program in a closed
loop with an oscillator of a constant rate, from a regression servo without samples that knows the
frequency of the clock, with room for the offsets below the limits: nothing is commanded for the
first three samples; from then on every sample keeps at most the same part of the offset, up to a
multiple of the error of the measurements; the frequency of the clock is that of the oscillator, up
to what corrects the offset and the noise; and the clocks are never stepped. -/
theorem offset_converges
    (hrun : ∀ k < n, RegressionInterval c pow dev (x k) (x (k + 1)) (sys k) (sys (k + 1)) (i k)
      (i (k + 1)).slaveTime)
    (hstart : Disciplining c dev limit (N + c.floor + c.interceptNoise) 0 (x 0) (i 0).slaveTime
      (sys 0))
    (hfirst : ∀ k ≤ 3, |x k| ≤ N) (hsmall : N + c.floor ≤ 2 ^ 60)
    (hroom : 1000000000 * |c.rate - 1| + c.freqNoise (N + c.floor) ≤ limit) :
    (∀ k < n, k < 3 → (sys (k + 1)).calls = (sys k).calls) ∧
      (∀ k ≤ n, 3 ≤ k → |x k| ≤ c.kept ^ (k - 3) * |x 3| + c.floor) ∧
      ∀ k < n, 3 ≤ k → ∃ g : ℚ,
        |g - 1000000000 * (c.rate - 1)| ≤ c.freqNoise (c.kept ^ (k - 3) * |x 3| + c.floor) ∧
        lastFreq dev.freqClkId (sys (k + 1)).calls = some (.fin g) ∧
        ∃ calls, (sys (k + 1)).calls = (sys k).calls ++ calls ∧
          ∀ call ∈ calls, call = .setFreq dev.freqClkId (.fin g) ∨ call = .setSync := by
  have hruns := disciplining_run hrun hstart hfirst hsmall hroom
  have hstep : ∀ k < n, (k < 3 → (sys (k + 1)).calls = (sys k).calls) ∧
      (3 ≤ k → ∃ g : ℚ, |g - 1000000000 * (c.rate - 1)| ≤ c.freqNoise |x k| ∧
        lastFreq dev.freqClkId (sys (k + 1)).calls = some (.fin g) ∧
        ∃ calls, (sys (k + 1)).calls = (sys k).calls ++ calls ∧
          ∀ call ∈ calls, call = .setFreq dev.freqClkId (.fin g) ∨ call = .setSync) := by
    intro k hk
    obtain ⟨hsys, -, hwithin⟩ := hruns k hk.le
    obtain ⟨-, hwaits, hlater⟩ := (hrun k hk).step hsys (hwithin.trans hsmall) (by linarith)
      (le_trans (by linarith [c.freqNoise_mono hwithin]) hroom)
    exact ⟨hwaits, fun hmany => (hlater hmany).2⟩
  refine ⟨?_, ?_, ?_⟩
  · intro k hk hfew
    exact (hstep k hk).1 hfew
  · intro k hk hmany
    exact (hruns k hk).2.1 hmany
  · intro k hk hmany
    obtain ⟨g, hg, hcommanded⟩ := (hstep k hk).2 hmany
    exact ⟨g, hg.trans (c.freqNoise_mono ((hruns k hk.le).2.1 hmany)), hcommanded⟩

end Run

/-- A regression servo that was just created follows any clock whose frequency it was told. -/
theorem disciplining_create {c : Oscillator} {dev : DeviceConfig} {limit M : ℚ} {env : ServoEnv}
    {cfg : ServoConfig XRat} {servo : Servo XRat (Inner XRat)}
    (hcreate : servoCreate env cfg = some servo) (htype : cfg.type = 1)
    (hmax : servo.base.maxFrequency = fin limit) (hlimit : limit < 1000000000)
    (hadj : |(cfg.intialAdj : ℚ)| ≤ limit) (hstable : servo.base.offsetThreshold = 0)
    (hsteps : NeverSteps M servo.base) (pow : XRat → XRat → XRat) (tsp : Tsproc XRat)
    {calls : List (ClockCall XRat)} (hlast : lastFreq dev.freqClkId calls =
      some (CDouble.ofInt (-cfg.intialAdj))) (x : ℚ) (localTs : Int64) :
    Disciplining c dev limit M 0 x localTs
      ⟨tsp, servoSyncInterval (servoOps pow) servo (fin c.interval), calls⟩ := by
  obtain ⟨-, s, hinner, hready⟩ := sysReady_create hcreate htype hmax hlimit hadj c.interval_pos pow
    tsp calls
  have hs : s = linregSyncInterval (linregServoCreate cfg) (fin c.interval) := by
    obtain ⟨inner, hcreated, rfl⟩ := Option.map_eq_some_iff.mp hcreate
    simp only [htype] at hcreated
    split at hcreated
    · cases hcreated
    · obtain rfl := Option.some.inj hcreated
      exact (Inner.linreg.inj hinner).symm
  subst hs
  refine ⟨hmax, hstable, hsteps, _, 0, _, hinner, ⟨hready, rfl, ⟨0, rfl, ?_⟩, [], ?_, ?_, ?_, ?_⟩,
    ?_, rfl, .first rfl rfl x, rfl, hlast⟩
  · norm_num
  · exact (tracks_init cfg).same ⟨rfl, rfl, rfl, fun _ => rfl, fun _ => rfl⟩
  · exact List.forall_mem_nil _
  · nofun
  · nofun
  · norm_num

/-- An oscillator that is slow by 1 ppm, and measurements of it with an error of 2 ns. -/
def slowOscillator : Oscillator where
  rate := 1000001 / 1000000
  error := 2
  lo := 999990000
  hi := 1000010000
  interval := 1
  kept := 7 / 10
  lo_le := by norm_num
  rate_pos := by norm_num
  rate_lt := by norm_num
  error_nonneg := by norm_num
  error_le := by norm_num
  lo_ge := by norm_num
  hi_le := by norm_num
  interval_pos := one_pos
  kept_lt := by norm_num
  lo_forgets := by norm_num
  hi_forgets := by norm_num

/-- The offset that is measured in the second `k + 1`. -/
def slowMeasured (k : ℕ) : Int := [4001, 2999, 2000, 1001, 1, -1].getD k 0

/-- A sync message of that second, without a delay. -/
def slowInterval (k : ℕ) : Interval :=
  ⟨Int64.ofInt ((k + 1) * 1000000000 - slowMeasured k), Int64.ofNat ((k + 1) * 1000000000), []⟩

/-- The program after `k` of them. -/
def slowSys (servo : Servo XRat (Inner XRat)) : ℕ → Sys XRat (Inner XRat)
  | 0 =>
    { tsp := (trackingSys 0).tsp, servo := servoSyncInterval (servoOps powOne) servo (fin 1),
      calls := [.setFreq 0 (fin 0)] }
  | k + 1 => afterInterval (slowSys servo k) (slowInterval k)

/-- The frequency in force after `k` of them. -/
def slowFreq (servo : Servo XRat (Inner XRat)) (k : ℕ) : ℚ :=
  (lastFreq 0 (slowSys servo k).calls).elim 0 XRat.value

/-- What the oscillator counts in the next second of the clock. -/
def slowCount (servo : Servo XRat (Inner XRat)) (k : ℕ) : ℚ :=
  1000000000 / (1 + slowFreq servo (k + 1) / 1000000000)

/-- The offset of the clock, at first 4 µs. -/
def slowOffset (servo : Servo XRat (Inner XRat)) : ℕ → ℚ
  | 0 => 4000
  | k + 1 => slowOffset servo k +
      slowCount servo k * (1 + slowFreq servo (k + 1) / 1000000000 - slowOscillator.rate)

theorem slowOscillator_floor_le : slowOscillator.floor ≤ 201 := by
  simp only [Oscillator.floor, Oscillator.stepNoise, Oscillator.slopeNoise,
    Oscillator.interceptNoise, Oscillator.pointNoise, slowOscillator]
  norm_num

theorem slowOscillator_freqNoise_le (y : ℚ) : slowOscillator.freqNoise y ≤ y + 34 := by
  simp only [Oscillator.freqNoise, Oscillator.slopeNoise, Oscillator.interceptNoise,
    Oscillator.pointNoise, slowOscillator]
  norm_num
  linarith

/-- There is room for the frequencies below a limit of 500 ppm. -/
theorem slowOscillator_room : 1000000000 * |slowOscillator.rate - 1| +
    slowOscillator.freqNoise (4000 + slowOscillator.floor) ≤ 500000 := by
  have hfloor := slowOscillator_floor_le
  have hrate : |slowOscillator.rate - 1| = 1 / 1000000 := by
    rw [slowOscillator]
    norm_num
  rw [hrate]
  linarith [slowOscillator_freqNoise_le (4000 + slowOscillator.floor)]

/-- A second of the clock is an interval of the closed loop, if its sample and the count of the
oscillator are within their bounds. The offset at its end is what the definition computes. -/
theorem slowSys_interval {servo : Servo XRat (Inner XRat)} {k : ℕ}
    (hoffset : updateOffset (slowSys servo k) (slowInterval k).masterTime
      (slowInterval k).slaveTime = some (⟨Int64.ofInt (slowMeasured k)⟩, fin 1))
    (hmeasured : |(Int64.ofInt (slowMeasured k)).toInt - slowOffset servo k| ≤ 2)
    (hlast : lastFreq 0 (slowSys servo (k + 1)).calls = some (fin (slowFreq servo (k + 1))))
    (hlo : 999990000 ≤ slowCount servo k) (hhi : slowCount servo k ≤ 1000010000)
    (hcount : ((slowInterval (k + 1)).slaveTime.toInt - (slowInterval k).slaveTime.toInt : ℚ) =
      slowCount servo k * (1 + slowFreq servo (k + 1) / 1000000000)) :
    RegressionInterval slowOscillator powOne .zero (slowOffset servo k) (slowOffset servo (k + 1))
      (slowSys servo k) (slowSys servo (k + 1)) (slowInterval k)
      (slowInterval (k + 1)).slaveTime := by
  obtain ⟨tsp, hok⟩ := clockUpdate_eq (servoOps powOne) .zero (slowSys servo k)
    (slowInterval k).masterTime (slowInterval k).slaveTime
  refine ⟨?_, ⟨_, hoffset, hmeasured⟩, ?_⟩
  · apply run_cons_eq_ok.mpr
    refine ⟨_, hok, ?_⟩
    rw [slowSys, afterInterval, hok]
    rfl
  · intro g hg
    obtain rfl := fin.inj (Option.some.inj (hlast.symm.trans hg))
    exact ⟨slowCount servo k, hlo, hhi, hcount, rfl⟩

/-- The clock loses 1 µs a second until the fourth sample. Two samples after it the offset is within
what the theorem leaves of 1 µs, and the frequency makes up for the oscillator. -/
theorem offset_converges_slow :
    ∃ servo ∈ servoCreate ⟨true, fun _ => none⟩ linregConfig,
      slowOffset servo 3 = 1000 ∧ |slowOffset servo 6| ≤ 544 ∧ ∃ g : ℚ,
        lastFreq 0 (slowSys servo 6).calls = some (fin g) ∧ |g - 1000| ≤ 725 := by
  have h : ∃ servo ∈ servoCreate ⟨true, fun _ => none⟩ linregConfig,
      servo.base.maxFrequency = fin 500000 ∧ servo.base.offsetThreshold = 0 ∧
      servo.base.stepThreshold = fin 0 ∧ servo.base.firstStepThreshold = fin 0 ∧
      slowOffset servo 3 = 1000 ∧ (∀ k < 4, |slowOffset servo k| ≤ 4000) ∧
      ∀ k < 6, updateOffset (slowSys servo k) (slowInterval k).masterTime
          (slowInterval k).slaveTime = some (⟨Int64.ofInt (slowMeasured k)⟩, fin 1) ∧
        |(Int64.ofInt (slowMeasured k)).toInt - slowOffset servo k| ≤ 2 ∧
        lastFreq 0 (slowSys servo (k + 1)).calls = some (fin (slowFreq servo (k + 1))) ∧
        999990000 ≤ slowCount servo k ∧ slowCount servo k ≤ 1000010000 ∧
        1000000000 = slowCount servo k * (1 + slowFreq servo (k + 1) / 1000000000) := by
    decide +kernel
  obtain ⟨servo, hcreate, hmax, hstable, hstep, hfirst, hfourth, hearly, hsamples⟩ := h
  have hfloor := slowOscillator_floor_le
  have hseconds : ∀ k < 6, ((slowInterval (k + 1)).slaveTime.toInt -
      (slowInterval k).slaveTime.toInt : ℚ) = 1000000000 := by
    decide +kernel
  have hstart : Disciplining slowOscillator .zero 500000
      (4000 + slowOscillator.floor + slowOscillator.interceptNoise) 0 (slowOffset servo 0)
      (slowInterval 0).slaveTime (slowSys servo 0) :=
    disciplining_create hcreate rfl hmax (by norm_num) (by decide +kernel) hstable
      ⟨⟨0, hstep, .inl rfl⟩, 0, hfirst, .inl rfl⟩ powOne (trackingSys 0).tsp rfl 4000 _
  have hrun : ∀ k < 6, RegressionInterval slowOscillator powOne .zero (slowOffset servo k)
      (slowOffset servo (k + 1)) (slowSys servo k) (slowSys servo (k + 1)) (slowInterval k)
      (slowInterval (k + 1)).slaveTime := by
    intro k hk
    obtain ⟨hoffset, hmeasured, hlast, hlo, hhi, hcount⟩ := hsamples k hk
    exact slowSys_interval hoffset hmeasured hlast hlo hhi ((hseconds k hk).trans hcount)
  obtain ⟨-, hbound, hcommanded⟩ := offset_converges hrun hstart
    (fun k hk => hearly k (Nat.lt_succ_of_le hk)) (by linarith) slowOscillator_room
  refine ⟨servo, hcreate, hfourth, ?_, ?_⟩
  · have hle := hbound 6 le_rfl (by norm_num)
    rw [hfourth] at hle
    have hkept : slowOscillator.kept ^ (6 - 3) * |(1000 : ℚ)| = 343 := by
      rw [slowOscillator]
      norm_num
    linarith
  · obtain ⟨g, hg, hlast, -⟩ := hcommanded 5 (by norm_num) (by norm_num)
    refine ⟨g, hlast, ?_⟩
    rw [hfourth] at hg
    have hkept : slowOscillator.kept ^ (5 - 3) * |(1000 : ℚ)| = 490 := by
      rw [slowOscillator]
      norm_num
    have hrate : 1000000000 * (slowOscillator.rate - 1) = 1000 := by
      rw [slowOscillator]
      norm_num
    rw [hkept, hrate] at hg
    linarith [slowOscillator_freqNoise_le (490 + slowOscillator.floor)]

end ExternalServo
