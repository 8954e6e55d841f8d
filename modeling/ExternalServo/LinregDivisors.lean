import ExternalServo.LinregWindow
import ExternalServo.ServoBounds
import ExternalServo.ClockModel

/-!
# The divisors of the regression servo

A regression over points at one place has no slope: its divisor, the weighted variance of their
places, is zero. The servo takes samples as they come, also with a time stamp it has seen already,
while the PI servo waits for a later one. In exact arithmetic this is the only way to a zero
divisor: `Stalled` says that a sample would be the fourth one in a row at its place, and
`divisors_nonzero_iff` is the exact condition over the runs of `clock_update`.

* `regressionsDefined_iff` — the regressions of a sample;
* `Ready.sample` — a sample that is not stalled keeps the invariant;
* `dividesOk_iff` — all divisors of a sample.
-/

namespace ExternalServo

open CArith XRat Runs LeastSquares

/-! ## Stalled samples -/

/-- The nanoseconds that passed from the last sample to a local time stamp, without the frequency
of the clock and with the remainder. -/
def elapsed (s : LinregServo XRat) (localTs : UInt64) : ℚ :=
  (localTs - s.lastUpdate).toInt64.toInt / (1 + s.clockFreq.value / 1000000000) +
    s.xRemainder.value

/-- The time does not go on: there is no last time stamp, or less than a nanosecond passed. -/
def NoTimePassed (s : LinregServo XRat) (localTs : UInt64) : Prop :=
  s.lastUpdate = 0 ∨ |elapsed s localTs| < 1

/-- The sample is at the place of the three samples before it: no time passed between the four, so
that no line through them has a slope. Larger sizes contain these four points and more, and are not
worse off. -/
def Stalled (s : LinregServo XRat) (localTs : UInt64) : Prop :=
  3 ≤ s.numPoints ∧
    (s.points (newestIndex s 1)).x = (s.points (newestIndex s 0)).x ∧
    (s.points (newestIndex s 2)).x = (s.points (newestIndex s 0)).x ∧ NoTimePassed s localTs

instance (s : LinregServo XRat) (localTs : UInt64) : Decidable (NoTimePassed s localTs) :=
  inferInstanceAs (Decidable (_ ∨ _))

instance (s : LinregServo XRat) (localTs : UInt64) : Decidable (Stalled s localTs) :=
  inferInstanceAs (Decidable (_ ∧ _))

/-- A weight is a positive rational. -/
def PosWeight (w : XRat) : Prop := ∃ q, w = fin q ∧ 0 < q

/-- **The invariant.** The frequency is limited to less than 10^9 ppb, the sync interval is
positive, and the buffer is the window of samples with positive weights, the newest of them at the
place of the reference. The first part keeps the ratio of the two clocks positive, the last one
compares a new sample with the window. -/
structure Ready (m : ℚ) (s : LinregServo XRat) : Prop extends s.Bounded m where
  limit : m < 1000000000
  remainder : IsFin s.xRemainder
  sync : ∃ t, s.updateInterval = fin t ∧ 0 < t
  window : ∃ history, Tracks s history ∧ (∀ l ∈ history, PosWeight l.w) ∧
    ∀ l ∈ history.head?, l.x = s.reference.x

/-- The ratio of a limited frequency is positive. -/
theorem ratio_pos {m f : ℚ} (hf : |f| ≤ m) (hm : m < 1000000000) : 0 < 1 + f / 1000000000 := by
  have hlow : -1000000000 < f := by
    have h := (abs_le.mp hf).1
    linarith
  have hratio : -1 < f / 1000000000 := by
    rw [lt_div_iff₀ (by norm_num)]
    linarith
  linarith

/-- The divisor of the ratio, of a limited frequency. -/
theorem ratio_ne_zero {m : ℚ} {freq : XRat} (hfreq : Within m freq) (hm : m < 1000000000) :
    CDouble.lit 1 + freq / CDouble.lit 1000000000 ≠ (fin 0 : XRat) := by
  obtain ⟨f, rfl, hf⟩ := hfreq
  rw [lit_eq, lit_eq, fin_div f (by norm_num), fin_add]
  intro hzero
  exact (ratio_pos hf hm).ne' (fin.inj hzero)

/-- The measured interval, without the frequency of the clock. -/
theorem xInterval_fin {s : LinregServo XRat} (hfreq : IsFin s.clockFreq)
    (hremainder : IsFin s.xRemainder) (hratio : 1 + s.clockFreq.value / 1000000000 ≠ 0)
    (localTs : UInt64) :
    (CDouble.ofInt (localTs - s.lastUpdate).toInt64.toInt /
      (CDouble.lit 1 + s.clockFreq / CDouble.lit 1000000000) + s.xRemainder : XRat) =
      fin (elapsed s localTs) := by
  obtain ⟨f, hf⟩ := hfreq
  obtain ⟨r, hr⟩ := hremainder
  rw [hf] at hratio
  have hratio' : 1 + f / 1000000000 ≠ 0 := hratio
  rw [elapsed, hf, hr, lit_eq, lit_eq, ofInt_eq, fin_div f (by norm_num), fin_add,
    fin_div _ hratio', fin_add]
  rfl

section Reference

variable {m : ℚ} {s : LinregServo XRat} (hs : Ready m s) (localTs : UInt64)

include hs

/-- The measured interval, of a servo whose frequency is limited. -/
theorem xInterval_eq :
    (CDouble.ofInt (localTs - s.lastUpdate).toInt64.toInt /
      (CDouble.lit 1 + s.clockFreq / CDouble.lit 1000000000) + s.xRemainder : XRat) =
      fin (elapsed s localTs) := by
  obtain ⟨f, hf, hfm⟩ := hs.clockFreq
  have hratio : 1 + s.clockFreq.value / 1000000000 ≠ 0 := by
    rw [hf]
    exact (ratio_pos hfm hs.limit).ne'
  exact xInterval_fin ⟨f, hf⟩ hs.remainder hratio localTs

/-- The reference stays at its place if no time has passed. -/
theorem updateReference_x :
    (updateReference s localTs).reference.x = s.reference.x ↔ NoTimePassed s localTs := by
  rw [NoTimePassed]
  by_cases hlast : s.lastUpdate = 0
  · refine iff_of_true ?_ (.inl hlast)
    simp [updateReference, hlast]
  · have hmove : (updateReference s localTs).reference.x = s.reference.x +
        (CDouble.toInt64 (fin (elapsed s localTs))).toUInt64 := by
      simp only [updateReference, ne_eq, hlast, not_false_eq_true, if_true, xInterval_eq hs]
      rfl
    have hzero : ∀ z : Int64, s.reference.x + z.toUInt64 = s.reference.x ↔ z = 0 := by
      intro z
      rw [UInt64.add_eq_left]
      exact ⟨congrArg UInt64.toInt64, congrArg Int64.toUInt64⟩
    rw [hmove, hzero, toInt64_eq_zero_iff, or_iff_right hlast]

theorem updateReference_remainder : IsFin (updateReference s localTs).xRemainder := by
  by_cases hlast : s.lastUpdate = 0
  · simp only [updateReference, hlast, ne_eq, not_true_eq_false, if_false]
    exact hs.remainder
  · simp only [updateReference, ne_eq, hlast, not_false_eq_true, if_true, xInterval_eq hs]
    exact IsFin.sub ⟨_, rfl⟩ ⟨_, rfl⟩

end Reference

/-! ## The regressions of a sample -/

/-- Places relative to a reference are equal only if the places are. -/
theorem relative_x_inj (reference : Point XRat) {l l' : Point XRat} :
    (relative reference l).x = (relative reference l').x ↔ l.x = l'.x := by
  refine ⟨?_, ?_⟩
  · intro h
    have hint : (l.x - reference.x).toInt64.toInt = (l'.x - reference.x).toInt64.toInt :=
      Int.cast_injective h
    have hdifference : l.x - reference.x = l'.x - reference.x :=
      congrArg Int64.toUInt64 (Int64.toInt_inj.mp hint)
    exact (UInt64.sub_left_inj reference.x).mp hdifference
  · intro h
    rw [relative, relative, h]

theorem SizeIndex.four_le (k : SizeIndex) : 4 ≤ k.points := by
  have h : ∀ k : SizeIndex, 4 ≤ k.points := by decide
  exact h k

section Window

variable (reference : Point XRat) {p : Point XRat} {history : List (Point XRat)} (k : SizeIndex)

/-- The points of a size have positive weights, and there are some. -/
theorem windowData_pos (hpos : ∀ l ∈ p :: history, PosWeight l.w) :
    (∀ d ∈ windowData reference (p :: history) k, 0 < d.w) ∧
      windowData reference (p :: history) k ≠ [] := by
  refine ⟨?_, ?_⟩
  · intro d hd
    obtain ⟨l, hl, rfl⟩ := List.mem_map.mp hd
    obtain ⟨q, hq, hq0⟩ := hpos l (List.mem_of_mem_take hl)
    rw [relative, hq]
    exact hq0
  · intro hnil
    have hlength := congrArg List.length hnil
    have hfour := k.four_le
    simp only [windowData, List.length_map, List.length_take, List.length_cons,
      List.length_nil] at hlength
    omega

/-- The points of a size have no slope exactly if all of them are at the place of the newest. -/
theorem spread_windowData (hpos : ∀ l ∈ p :: history, PosWeight l.w) :
    spread (windowData reference (p :: history) k) = 0 ↔
      ∀ l ∈ (p :: history).take k.points, l.x = p.x := by
  obtain ⟨hweights, hne⟩ := windowData_pos reference k hpos
  rw [spread_eq_zero_iff hweights hne]
  refine ⟨?_, ?_⟩
  · rintro ⟨x, hx⟩ l hl
    have hnewest : p ∈ (p :: history).take k.points := by
      obtain ⟨n, hn⟩ := Nat.exists_eq_add_of_le' (Nat.le_of_lt k.four_le)
      rw [hn]
      exact List.mem_cons_self
    rw [← relative_x_inj reference, hx _ (List.mem_map_of_mem hl),
      hx _ (List.mem_map_of_mem hnewest)]
  · intro hequal
    refine ⟨(relative reference p).x, ?_⟩
    intro d hd
    obtain ⟨l, hl, rfl⟩ := List.mem_map.mp hd
    exact (relative_x_inj reference).mpr (hequal l hl)

end Window

section Regressions

variable {m : ℚ} {s : LinregServo XRat} {history : List (Point XRat)}

/-- A stalled sample, by the samples before it: the three newest ones are at the place that the new
one gets, so all points of the smallest window are at one place. -/
theorem stalled_iff (hs : Ready m s) (htracks : Tracks s history)
    (hhead : ∀ l ∈ history.head?, l.x = s.reference.x) (localTs : UInt64) :
    Stalled s localTs ↔ 3 ≤ history.length ∧
      ∀ l ∈ history.take 3, l.x = (updateReference s localTs).reference.x := by
  have hmax : MAX_POINTS = 64 := rfl
  have hcount : 3 ≤ s.numPoints ↔ 3 ≤ history.length := by
    rw [htracks.numPoints, hmax]
    omega
  rw [Stalled, hcount]
  refine and_congr_right fun hlength => ?_
  match history, hlength with
  | a :: b :: c :: rest, _ =>
    have ha : s.points (newestIndex s 0) = a := htracks.newest 0 (by simp) (by decide)
    have hb : s.points (newestIndex s 1) = b := htracks.newest 1 (by simp) (by decide)
    have hc : s.points (newestIndex s 2) = c := htracks.newest 2 (by simp) (by decide)
    have hax : a.x = s.reference.x := hhead a rfl
    rw [ha, hb, hc, hax, ← updateReference_x hs localTs]
    simp only [List.take_succ_cons, List.take_zero, List.forall_mem_cons, List.not_mem_nil,
      IsEmpty.forall_iff, implies_true, and_true, hax]
    refine ⟨?_, ?_⟩
    · rintro ⟨hb, hc, hsame⟩
      exact ⟨hsame.symm, hb.trans hsame.symm, hc.trans hsame.symm⟩
    · rintro ⟨hsame, hb, hc⟩
      exact ⟨hb.trans hsame.symm, hc.trans hsame.symm, hsame.symm⟩

/-- **The regressions of a sample** divide by no zero exactly if the sample is not stalled. Four
points at one place are what makes the divisor of the smallest size vanish; the divisor of any size
is a weighted sum of squares, and zero for equal places only. -/
theorem regressionsDefined_iff (hs : Ready m s) (offset : Int64) (localTs : UInt64)
    {weight : XRat} (hweight : PosWeight weight) :
    RegressionsDefined (sampled s offset localTs weight) ↔ ¬ Stalled s localTs := by
  obtain ⟨history, htracks, hpos, hhead⟩ := hs.window
  have hsampled := tracks_sampled htracks offset localTs weight
  have hpos' : ∀ l ∈ recordedPoint s offset localTs weight :: history, PosWeight l.w :=
    List.forall_mem_cons.mpr ⟨hweight, hpos⟩
  have hfin : ∀ l ∈ recordedPoint s offset localTs weight :: history, IsFin l.w := by
    intro l hl
    obtain ⟨q, hq, -⟩ := hpos' l hl
    exact ⟨q, hq⟩
  have hmax : MAX_POINTS = 64 := rfl
  have hnum := hsampled.numPoints
  rw [hmax, List.length_cons] at hnum
  rw [stalled_iff hs htracks hhead]
  refine ⟨?_, ?_⟩
  · -- the smallest size has no slope
    rintro hdefined ⟨hlength, hequal⟩
    have hpoints : SizeIndex.points 0 ≤ (sampled s offset localTs weight).numPoints := by
      change 4 ≤ _
      omega
    have hspread : spread (windowData (sampled s offset localTs weight).reference
        (recordedPoint s offset localTs weight :: history) 0) = 0 := by
      rw [spread_windowData _ _ hpos']
      exact List.forall_mem_cons.mpr ⟨rfl, hequal⟩
    apply (hdefined 0 hpoints).2
    obtain ⟨hweights, hne⟩ := windowData_pos
      (sampled s offset localTs weight).reference 0 hpos'
    rw [newestSums_ofData hsampled hfin hpoints,
      denominator_ofData (weight_pos hweights hne).ne', hspread]
  · intro hmoving k hpoints
    obtain ⟨hweights, hne⟩ := windowData_pos
      (sampled s offset localTs weight).reference k hpos'
    have hw := (weight_pos hweights hne).ne'
    rw [newestSums_ofData hsampled hfin hpoints]
    refine ⟨fun hzero => hw (fin.inj hzero), ?_⟩
    intro hzero
    rw [denominator_ofData hw, fin.injEq, spread_windowData _ _ hpos'] at hzero
    apply hmoving
    have hfour := k.four_le
    refine ⟨by omega, ?_⟩
    -- the newest three samples are among those of every size
    intro l hl
    apply hzero l
    obtain ⟨n, hn⟩ := Nat.exists_eq_add_of_le' hfour
    rw [hn, List.take_succ_cons]
    exact List.mem_cons_of_mem _ (List.take_subset_take_left _ (Nat.le_add_left _ _) hl)

end Regressions

/-! ## One sample -/

/-- What a sample leaves of the update of the reference: the remainder, the interval, and the
reference on the x axis, also where it steps the clock. -/
theorem linregSample_frame (servo : ServoBase XRat) (s : LinregServo XRat) (offset : Int64)
    (localTs : UInt64) (weight : XRat) :
    (linregSample servo s offset localTs weight).2.2.xRemainder =
        (updateReference s localTs).xRemainder ∧
      (linregSample servo s offset localTs weight).2.2.updateInterval = s.updateInterval ∧
      (linregSample servo s offset localTs weight).2.2.reference.x =
        (updateReference s localTs).reference.x := by
  have hinterval := (linregUpdate_frame s offset localTs weight).2
  have hremainder : (linregUpdate s offset localTs weight).xRemainder =
      (updateReference s localTs).xRemainder := by
    rw [linregUpdate, regress_eq]
    rfl
  have hreference : (linregUpdate s offset localTs weight).reference =
      (updateReference s localTs).reference := by
    rw [linregUpdate, regress_eq]
    rfl
  have hsampled := linregSample_sampled servo s offset localTs weight
  generalize linregSample servo s offset localTs weight = result at hsampled ⊢
  cases hsampled with
  | waiting hsize => exact ⟨hremainder, hinterval, by rw [hreference]⟩
  | stepped k ratio hsize =>
    -- a step moves the reference in `y` only
    dsimp only [stepped, moveReference]
    refine ⟨hremainder, hinterval, ?_⟩
    rw [hreference, Int64.toUInt64_ofNat, UInt64.add_zero]
  | followed k ratio hsize =>
    dsimp only
    exact ⟨hremainder, hinterval, by rw [hreference]⟩

theorem PosWeight.isFin {w : XRat} (h : PosWeight w) : IsFin w := by
  obtain ⟨q, hq, -⟩ := h
  exact ⟨q, hq⟩

theorem Ready.sync_ne_zero {m : ℚ} {s : LinregServo XRat} (hs : Ready m s) :
    s.updateInterval ≠ fin 0 := by
  obtain ⟨t, ht, ht0⟩ := hs.sync
  rw [ht]
  intro hzero
  exact ht0.ne' (fin.inj hzero)

/-- No divisor of a sample is zero, and what is computed with them is rational. The divisors are
listed one by one, by the functions that they are in. -/
structure DivisorsNonzero (servo : ServoBase XRat) (s : LinregServo XRat) (offset : Int64)
    (localTs : UInt64) (weight : XRat) : Prop where
  /-- in `update_reference` -/
  interval : CDouble.lit 1 + s.clockFreq / CDouble.lit 1000000000 ≠ fin 0
  /-- in `regress`, for every size that is processed -/
  regressions : RegressionsDefined (sampled s offset localTs weight)
  /-- the sync interval -/
  correction : s.updateInterval ≠ fin 0
  /-- for the new ratio -/
  ratio : CDouble.lit 1 + (linregSample servo s offset localTs weight).2.2.clockFreq /
    CDouble.lit 1000000000 ≠ fin 0
  /-- the slopes and the intercepts -/
  lines : ∀ k, IsFin ((linregSample servo s offset localTs weight).2.2.results k).slope ∧
    IsFin ((linregSample servo s offset localTs weight).2.2.results k).intercept
  /-- the frequency that is returned -/
  freq : IsFin (linregSample servo s offset localTs weight).1

section Sample

variable {m : ℚ} {servo : ServoBase XRat} (hmax : servo.maxFrequency = fin m) (hm : 0 ≤ m)
  {s : LinregServo XRat} (hs : Ready m s) (offset : Int64) (localTs : UInt64) {weight : XRat}
  (hweight : PosWeight weight)

include hmax hm hs hweight

/-- A sample without zero divisors keeps the invariant. -/
theorem Ready.sample (hdefined : RegressionsDefined (sampled s offset localTs weight)) :
    Ready m (linregSample servo s offset localTs weight).2.2 := by
  obtain ⟨hremainder, hinterval, hreference⟩ :=
    linregSample_frame servo s offset localTs weight
  obtain ⟨history, htracks, hpos, -⟩ := hs.window
  have hbounded := (linregSample_bounded hmax hm hs.toBounded offset localTs hweight.isFin
    ⟨hs.sync_ne_zero, hdefined⟩).1
  refine ⟨hbounded, hs.limit, ?_, ?_, ?_⟩
  · rw [hremainder]
    exact updateReference_remainder hs localTs
  · rw [hinterval]
    exact hs.sync
  · refine ⟨_, tracks_linregSample htracks servo offset localTs weight,
      List.forall_mem_cons.mpr ⟨hweight, hpos⟩, ?_⟩
    intro l hl
    obtain rfl := Option.some.inj hl
    exact hreference.symm

/-- **The divisors of a sample**, from the invariant: all of them but those of the regressions are
nonzero anyway, by the limit of the frequency and the sync interval. -/
theorem divisorsNonzero_iff :
    DivisorsNonzero servo s offset localTs weight ↔ ¬ Stalled s localTs := by
  rw [← regressionsDefined_iff hs offset localTs hweight]
  refine ⟨?_, ?_⟩
  · intro hdivisors
    exact hdivisors.regressions
  · intro hdefined
    have hnext := Ready.sample hmax hm hs offset localTs hweight hdefined
    obtain ⟨-, hreturn⟩ := linregSample_bounded hmax hm hs.toBounded offset localTs
      hweight.isFin ⟨hs.sync_ne_zero, hdefined⟩
    exact
      { interval := ratio_ne_zero hs.clockFreq hs.limit
        regressions := hdefined
        correction := hs.sync_ne_zero
        ratio := ratio_ne_zero hnext.clockFreq hnext.limit
        lines := fun k => ⟨hnext.slope k, hnext.intercept k⟩
        freq := hreturn.isFin }

end Sample

/-! ## Runs of `clock_update` -/

/-- The state of a regression servo. -/
def linregOf {D : Type} : Inner D → Option (LinregServo D)
  | .linreg s => some s
  | .pi _ | .ntpshm _ => none

/-- A sample that reaches the regression servo has no zero divisor. -/
def DividesSafely (sys : Sys XRat (Inner XRat)) : Handler → Prop
  | .clockUpdate t1 t2 => ∀ sample ∈ updateOffset sys t1 t2, ∀ s ∈ linregOf sys.servo.inner,
      DivisorsNonzero sys.servo.base s sample.1.ns t2.toUInt64 sample.2
  | .pathDelay _ _ => True

/-- A sample that reaches the regression servo is not stalled. -/
def Moving (sys : Sys XRat (Inner XRat)) : Handler → Prop
  | .clockUpdate t1 t2 => ∀ sample ∈ updateOffset sys t1 t2, ∀ s ∈ linregOf sys.servo.inner,
      ¬ Stalled s t2.toUInt64
  | .pathDelay _ _ => True

instance (sys : Sys XRat (Inner XRat)) : (h : Handler) → Decidable (Moving sys h)
  | .clockUpdate _ _ => inferInstanceAs (Decidable (∀ _ ∈ _, ∀ _ ∈ _, ¬ Stalled _ _))
  | .pathDelay _ _ => isTrue trivial

/-- The weights of the time stamp processor are positive: a ratio is taken of positive delays
only. -/
theorem offsetWeight_pos (tsp : Tsproc XRat) (rawDelay : Tmv) :
    PosWeight (offsetWeight tsp rawDelay) := by
  have hone : PosWeight (CDouble.lit 1) := ⟨1, rfl, one_pos⟩
  rw [offsetWeight]
  split
  · next hsign =>
    simp only [Bool.and_eq_true, decide_eq_true_eq, gt_iff_lt, tmvSign_pos] at hsign
    obtain ⟨⟨-, hfiltered⟩, hraw⟩ := hsign
    have hnum : (0 : ℚ) < tsp.filteredDelay.ns.toInt := by
      exact_mod_cast Int64.lt_iff_toInt_lt.mp hfiltered
    have hden : (0 : ℚ) < rawDelay.ns.toInt := by
      exact_mod_cast Int64.lt_iff_toInt_lt.mp hraw
    dsimp only
    split
    · exact hone
    · refine ⟨_, fin_div _ hden.ne', div_pos hnum hden⟩
  · exact hone

theorem updateOffset_pos {sys : Sys XRat (Inner XRat)} {t1 t2 : Int64} {sample : Tmv × XRat}
    (h : updateOffset sys t1 t2 = some sample) : PosWeight sample.2 := by
  obtain ⟨offset, weight⟩ := sample
  obtain ⟨-, -, delay, rawDelay, -, -, hweight⟩ := tsprocUpdateOffset_eq_some h
  rw [hweight]
  exact offsetWeight_pos _ rawDelay

/-- The invariant of a program with a regression servo. -/
structure SysReady (m : ℚ) (sys : Sys XRat (Inner XRat)) : Prop where
  maxFrequency : sys.servo.base.maxFrequency = fin m
  linreg : ∃ s, sys.servo.inner = .linreg s ∧ Ready m s

section Handle

variable {pow : XRat → XRat → XRat} {m : ℚ} (hm : 0 ≤ m) {sys : Sys XRat (Inner XRat)}
  (hsys : SysReady m sys)

include hm hsys

/-- One handler: its divisors are nonzero exactly if its sample is not stalled. -/
theorem dividesSafely_iff (h : Handler) : DividesSafely sys h ↔ Moving sys h := by
  obtain ⟨hmax, s, hinner, hs⟩ := hsys
  cases h with
  | pathDelay t3 t4 => exact Iff.rfl
  | clockUpdate t1 t2 =>
    have hone : ∀ sample ∈ updateOffset sys t1 t2, ∀ s' ∈ linregOf sys.servo.inner,
        (DivisorsNonzero sys.servo.base s' sample.1.ns t2.toUInt64 sample.2 ↔
          ¬ Stalled s' t2.toUInt64) := by
      intro sample hsample s' hs'
      rw [hinner] at hs'
      obtain rfl := Option.some.inj hs'
      exact divisorsNonzero_iff hmax hm hs sample.1.ns t2.toUInt64 (updateOffset_pos hsample)
    refine ⟨?_, ?_⟩
    · intro hdivides sample hsample s' hs'
      exact (hone sample hsample s' hs').mp (hdivides sample hsample s' hs')
    · intro hmoving sample hsample s' hs'
      exact (hone sample hsample s' hs').mpr (hmoving sample hsample s' hs')

/-- A handler whose sample is not stalled keeps the invariant. Without a sample the servo stays as
it is; with one, its regressions divide by no zero. -/
theorem sysReady_handle {dev : DeviceConfig} {sys' : Sys XRat (Inner XRat)} {h : Handler}
    (hmoving : Moving sys h) (hok : handle (servoOps pow) dev sys h = .ok sys') :
    SysReady m sys' := by
  obtain ⟨hmax, s, hinner, hs⟩ := hsys
  obtain ⟨-, hservo⟩ := handle_eq_ok hok
  refine ⟨(handle_frame hok).1.trans hmax, ?_⟩
  cases h with
  | pathDelay t3 t4 => exact ⟨s, hservo ▸ hinner, hs⟩
  | clockUpdate t1 t2 =>
    cases hsample : updateOffset sys t1 t2 with
    | none =>
      rw [servoAfter, hsample, Option.elim_none] at hservo
      exact ⟨s, hservo ▸ hinner, hs⟩
    | some sample =>
      have hweight := updateOffset_pos hsample
      have hnext := Ready.sample hmax hm hs sample.1.ns t2.toUInt64 hweight
        ((regressionsDefined_iff hs sample.1.ns t2.toUInt64 hweight).mpr
          (hmoving sample hsample s (by rw [hinner]; rfl)))
      refine ⟨_, ?_, hnext⟩
      rw [hservo, servoAfter, hsample, Option.elim_some, answer,
        servoSample_eq (servoOps pow) sys.servo _ _ _ rfl, hinner]
      rfl

/-- **Runs** from the invariant. A sample that is not stalled keeps it, so that the condition can be
asked of one sample after another. -/
theorem always_dividesSafely_iff (dev : DeviceConfig) (handlers : List Handler) :
    Always (handle (servoOps pow) dev) DividesSafely sys handlers ↔
      Always (handle (servoOps pow) dev) Moving sys handlers := by
  refine (always_congr_of_inv ?_ ?_ hsys).symm
  · intro sys h sys' hsys hmoving hok
    exact sysReady_handle hm hsys hmoving hok
  · intro sys h hsys
    exact (dividesSafely_iff hm hsys h).symm

end Handle

/-- A regression servo that was just created, with a positive sync interval, satisfies the
invariant: its buffer is empty, and its frequency the initial one. -/
theorem sysReady_create {env : ServoEnv} {cfg : ServoConfig XRat}
    {servo : Servo XRat (Inner XRat)} {m interval : ℚ}
    (hcreate : servoCreate env cfg = some servo) (htype : cfg.type = 1)
    (hmax : servo.base.maxFrequency = fin m) (hlimit : m < 1000000000)
    (hadj : |(cfg.intialAdj : ℚ)| ≤ m) (hinterval : 0 < interval) (pow : XRat → XRat → XRat)
    (tsp : Tsproc XRat) (calls : List (ClockCall XRat)) :
    SysReady m ⟨tsp, servoSyncInterval (servoOps pow) servo (fin interval), calls⟩ := by
  have hbounded := (servoCreate_bounded hcreate hmax hadj).2
  obtain ⟨inner, hinner, rfl⟩ := Option.map_eq_some_iff.mp hcreate
  have hlinreg : inner = .linreg (linregServoCreate cfg) := by
    simp only [htype] at hinner
    split at hinner
    · cases hinner
    · exact (Option.some.inj hinner).symm
  subst hlinreg
  have hs : (linregServoCreate cfg).Bounded m := hbounded
  refine ⟨hmax, linregSyncInterval (linregServoCreate cfg) (fin interval), rfl, ?_⟩
  refine ⟨⟨⟨hs.weight, hs.slope, hs.intercept, interval, rfl⟩, hs.clockFreq⟩, hlimit, ⟨0, rfl⟩,
    ⟨interval, rfl, hinterval⟩, [], ?_, ?_, ?_⟩
  · exact (tracks_init cfg).same ⟨rfl, rfl, rfl, fun _ => rfl, fun _ => rfl⟩
  · intro l hl
    cases hl
  · intro l hl
    cases hl

/-- **The divisors of the regression servo.** In every run of `clock_update` with a regression
servo, in exact arithmetic, all divisors are nonzero if and only if no sample is stalled, that is,
no four samples in a row are at one place. A sync message that is delivered four times is enough. -/
theorem divisors_nonzero_iff {env : ServoEnv} {cfg : ServoConfig XRat}
    {servo : Servo XRat (Inner XRat)} {m interval : ℚ}
    (hcreate : servoCreate env cfg = some servo) (htype : cfg.type = 1)
    (hmax : servo.base.maxFrequency = fin m) (hlimit : m < 1000000000)
    (hadj : |(cfg.intialAdj : ℚ)| ≤ m) (hinterval : 0 < interval) (pow : XRat → XRat → XRat)
    (dev : DeviceConfig) (tsp : Tsproc XRat) (calls : List (ClockCall XRat))
    (handlers : List Handler) :
    Always (handle (servoOps pow) dev) DividesSafely
        ⟨tsp, servoSyncInterval (servoOps pow) servo (fin interval), calls⟩ handlers ↔
      Always (handle (servoOps pow) dev) Moving
        ⟨tsp, servoSyncInterval (servoOps pow) servo (fin interval), calls⟩ handlers :=
  always_dividesSafely_iff ((abs_nonneg _).trans hadj)
    (sysReady_create hcreate htype hmax hlimit hadj hinterval pow tsp calls) dev handlers

/-- A time stamp processor with a median of one delay. -/
def oneDelayTsproc : Option (Tsproc XRat) := tsprocCreate (fun _ => true) 0 1 1

/-- A clock that drifts does not stall. -/
theorem divisors_nonzero_drift :
    ∃ servo ∈ servoCreate ⟨true, fun _ => none⟩ linregConfig, ∃ tsp ∈ oneDelayTsproc,
      Always (handle (servoOps powOne) .zero) DividesSafely
        ⟨tsp, servoSyncInterval (servoOps powOne) servo (fin 1), []⟩ driftHandlers := by
  have h : ∃ servo ∈ servoCreate ⟨true, fun _ => none⟩ linregConfig, ∃ tsp ∈ oneDelayTsproc,
      servo.base.maxFrequency = fin 500000 ∧
        Always (handle (servoOps powOne) .zero) Moving
          ⟨tsp, servoSyncInterval (servoOps powOne) servo (fin 1), []⟩ driftHandlers := by
    decide +kernel
  obtain ⟨servo, hcreate, tsp, htsp, hmax, hmoving⟩ := h
  refine ⟨servo, hcreate, tsp, htsp, ?_⟩
  exact (divisors_nonzero_iff hcreate rfl hmax (by norm_num) (by decide +kernel) one_pos powOne
    .zero tsp [] driftHandlers).mpr hmoving

/-- A delay of 100 ns, and the same sync message four times. -/
def repeatedHandlers : List Handler :=
  [.clockUpdate 1000000000 1000000100, .pathDelay 1000000050 1000000150] ++
    List.replicate 4 (.clockUpdate 2000000000 2000000100)

/-- The fourth sample is stalled. -/
theorem not_divisors_nonzero_repeated :
    ∃ servo ∈ servoCreate ⟨true, fun _ => none⟩ linregConfig, ∃ tsp ∈ oneDelayTsproc,
      servo.base.maxFrequency = fin 500000 ∧
        ¬ Always (handle (servoOps powOne) .zero) DividesSafely
          ⟨tsp, servoSyncInterval (servoOps powOne) servo (fin 1), []⟩ repeatedHandlers := by
  have h : ∃ servo ∈ servoCreate ⟨true, fun _ => none⟩ linregConfig, ∃ tsp ∈ oneDelayTsproc,
      servo.base.maxFrequency = fin 500000 ∧
        ¬ Always (handle (servoOps powOne) .zero) Moving
          ⟨tsp, servoSyncInterval (servoOps powOne) servo (fin 1), []⟩ repeatedHandlers := by
    decide +kernel
  obtain ⟨servo, hcreate, tsp, htsp, hmax, hstalls⟩ := h
  refine ⟨servo, hcreate, tsp, htsp, hmax, ?_⟩
  have hready := sysReady_create hcreate rfl hmax (by norm_num) (by decide +kernel) one_pos powOne
    tsp []
  exact mt (always_dividesSafely_iff (by norm_num) hready .zero repeatedHandlers).mp hstalls

end ExternalServo
