import ExternalServo.Servo

/-!
# The linear regression servo (`linreg.c`)

The servo keeps the last 64 samples in a circular buffer, in a time that is free of its
own corrections, and fits a line to the newest 4, 8, .., 64 of them. Each of these sizes
has its `RegressResult`; the servo follows the largest size with the smallest prediction
error.

A size is represented by its index in `results`, which is the source's `size - MIN_SIZE`.
-/

namespace ExternalServo

open CArith

/-- `MAX_SIZE` -/
def MAX_SIZE : Nat := 6

/-- `MIN_SIZE` -/
def MIN_SIZE : Nat := 2

/-- `MAX_POINTS` -/
def MAX_POINTS : Nat := 1 <<< MAX_SIZE

instance : NeZero MAX_POINTS := ⟨by decide⟩

/-- `ERR_SMOOTH` -/
def ERR_SMOOTH : ℚ := 0.02

/-- `ERR_INITIAL_UPDATES` -/
def ERR_INITIAL_UPDATES : Nat := 10

/-- `ERR_EQUALS` -/
def ERR_EQUALS : ℚ := 1.05

/-- `struct point`: uncorrected local time, remote time and weight. The times wrap around, and are
only ever used relative to the reference. -/
structure Point (D : Type) where
  x : UInt64
  y : UInt64
  w : D

/-- `struct result`: the line of a size, and how well its lines have predicted the samples that came
after them. A slope of zero says that there was no line yet. -/
structure RegressResult (D : Type) where
  slope : D
  intercept : D
  /-- exponential moving average of the prediction error -/
  err : D
  /-- number of initial updates of `err` -/
  errUpdates : Nat

/-- An index into `results`. -/
abbrev SizeIndex : Type := Fin (MAX_SIZE - MIN_SIZE + 1)

/-- `struct linreg_servo`, after the common part. The buffer, the reference and the errors survive a
reset of the servo; the count of points, the slopes and the numbers of updates do not. -/
structure LinregServo (D : Type) where
  /-- circular buffer of points -/
  points : Fin MAX_POINTS → Point D
  /-- current time in x, y; its weight is never used -/
  reference : Point D
  /-- number of stored points -/
  numPoints : Nat
  /-- index of the newest point -/
  lastPoint : Fin MAX_POINTS
  /-- remainder from the last update of `reference.x` -/
  xRemainder : D
  /-- local time stamp of the last update, zero before the first -/
  lastUpdate : UInt64
  /-- regression results for all sizes -/
  results : SizeIndex → RegressResult D
  /-- selected size; the source has 0 if there is none -/
  size : Option SizeIndex
  /-- current frequency offset of the clock -/
  clockFreq : D
  /-- expected interval between updates -/
  updateInterval : D
  /-- current ratio between remote and local frequency -/
  frequencyRatio : D
  /-- upcoming leap second -/
  leap : Int

variable {D : Type} [CDouble D]

/-- `move_reference` -/
def moveReference (s : LinregServo D) (x y : Int64) : LinregServo D :=
  { s with
    reference := { s.reference with
      x := s.reference.x + x.toUInt64, y := s.reference.y + y.toUInt64 }
    -- update intercepts for the new reference
    results := fun k =>
      let res := s.results k
      { res with
        intercept := res.intercept +
          (CDouble.ofInt x.toInt * res.slope - CDouble.ofInt y.toInt) } }

/-- `update_reference` -/
def updateReference (s : LinregServo D) (localTs : UInt64) : LinregServo D :=
  let s :=
    if s.lastUpdate ≠ 0 then
      let yInterval := (localTs - s.lastUpdate).toInt64
      -- remove the current frequency correction from the interval
      let xInterval : D := CDouble.ofInt yInterval.toInt /
        (CDouble.lit 1 + s.clockFreq / CDouble.lit 1000000000)
      let xInterval := xInterval + s.xRemainder
      let s := { s with xRemainder := xInterval - CDouble.ofInt (CDouble.toInt64 xInterval).toInt }
      moveReference s (CDouble.toInt64 xInterval) yInterval
    else s
  { s with lastUpdate := localTs }

/-- `add_sample` -/
def addSample (s : LinregServo D) (offset : Int64) (weight : D) : LinregServo D :=
  let lastPoint := s.lastPoint + 1
  { s with
    lastPoint
    points := Function.update s.points lastPoint
      { x := s.reference.x, y := s.reference.y - offset.toUInt64, w := weight }
    numPoints := if s.numPoints < MAX_POINTS then s.numPoints + 1 else s.numPoints }

/-- The sums a regression runs over its points. -/
structure RegressSums (D : Type) where
  xSum : D
  ySum : D
  xySum : D
  x2Sum : D
  wSum : D

/-- Add the `i`th newest point to the sums. -/
def sumPoint (s : LinregServo D) (sums : RegressSums D) (i : Nat) : RegressSums D :=
  let l := s.points (Fin.ofNat MAX_POINTS (MAX_POINTS + s.lastPoint - i))
  let x : D := CDouble.ofInt (l.x - s.reference.x).toInt64.toInt
  let y : D := CDouble.ofInt (l.y - s.reference.y).toInt64.toInt
  let w := l.w
  { xSum := sums.xSum + x * w
    ySum := sums.ySum + y * w
    xySum := sums.xySum + x * y * w
    x2Sum := sums.x2Sum + x * x * w
    wSum := sums.wSum + w }

/-- Update the moving average of the prediction error, if there was a prediction. -/
def updateErr (y0 : D) (res : RegressResult D) : RegressResult D :=
  if CDouble.truthy res.slope then
    let e := CDouble.fabs (res.intercept - y0)
    if res.errUpdates < ERR_INITIAL_UPDATES then
      let err := res.err * CDouble.ofInt res.errUpdates + e
      let errUpdates := res.errUpdates + 1
      { res with errUpdates, err := err / CDouble.ofInt errUpdates }
    else { res with err := res.err + CDouble.lit ERR_SMOOTH * (e - res.err) }
  else res

/-- What the slope of a regression is divided by. -/
def RegressSums.denominator (sums : RegressSums D) : D :=
  sums.x2Sum - sums.xSum * sums.xSum / sums.wSum

/-- Get the new intercept and slope. -/
def fitLine (sums : RegressSums D) (res : RegressResult D) : RegressResult D :=
  let slope := (sums.xySum - sums.xSum * sums.ySum / sums.wSum) / sums.denominator
  { res with slope, intercept := (sums.ySum - slope * sums.xSum) / sums.wSum }

/-- The number of points of a size. -/
def SizeIndex.points (k : SizeIndex) : Nat := 1 <<< (MIN_SIZE + k.val)

/-- The loop of `regress` over the sizes `ks`, with the sums of the `i` newest points. The sums are
carried from one size to the next, so that every point is added once; the first size without enough
points ends the loop. -/
def regressLoop (y0 : D) : List SizeIndex → RegressSums D → Nat → LinregServo D → LinregServo D
  | [], _, _, s => s
  | k :: ks, sums, i, s =>
    let n := SizeIndex.points k
    -- not enough points for this size
    if s.numPoints < n then s
    else
      -- from the newest to the oldest
      let sums := (List.range' i (n - i)).foldl (sumPoint s) sums
      let res := fitLine sums (updateErr y0 (s.results k))
      regressLoop y0 ks sums n { s with results := Function.update s.results k res }

/-- The sums over no point. -/
def RegressSums.zero : RegressSums D :=
  ⟨CDouble.lit 0, CDouble.lit 0, CDouble.lit 0, CDouble.lit 0, CDouble.lit 0⟩

/-- `regress` -/
def regress (s : LinregServo D) : LinregServo D :=
  let y0 := CDouble.ofInt ((s.points s.lastPoint).y - s.reference.y).toInt64.toInt
  regressLoop y0 (List.finRange _) RegressSums.zero 0 s

/-- A size is better than the best so far: the first one with a result, or a larger one with an
error that is not larger, up to a tolerance, once its error is an average of enough samples. -/
def betterSize (best : Option SizeIndex) (bestErr : D) (res : RegressResult D) : Bool :=
  (best.isNone && CDouble.truthy res.slope) ||
    (CDouble.lt res.err (bestErr * CDouble.lit ERR_EQUALS) &&
      decide (ERR_INITIAL_UPDATES ≤ res.errUpdates))

/-- `update_size` -/
def updateSize (s : LinregServo D) : LinregServo D :=
  let best := (List.finRange _).foldl
    (fun (best : Option SizeIndex × D) k =>
      if betterSize best.1 best.2 (s.results k) then (some k, (s.results k).err) else best)
    (none, CDouble.lit 0)
  { s with size := best.1 }

/-- What a sample does first: a new point, new regressions, a new choice of the size. What is
returned and what the clock is told is decided from the state afterwards. -/
def linregUpdate (s : LinregServo D) (offset : Int64) (localTs : UInt64) (weight : D) :
    LinregServo D :=
  updateSize (regress (addSample (updateReference s localTs) offset weight))

/-- The number of updates an offset is corrected over. -/
def corrInterval (k : SizeIndex) : Nat :=
  if MIN_SIZE + k.val ≤ 4 then 1 else (MIN_SIZE + k.val) / 2

/-- Limit a frequency; the upper limit is compared first. -/
def clampClockFreq (servo : ServoBase D) (x : D) : D :=
  if CDouble.lt servo.maxFrequency x then servo.maxFrequency
  else if CDouble.lt x (-servo.maxFrequency) then -servo.maxFrequency
  else x

/-- `linreg_sample` -/
def linregSample (servo : ServoBase D) (s : LinregServo D) (offset : Int64) (localTs : UInt64)
    (weight : D) : D × ServoState × LinregServo D :=
  let s := linregUpdate s offset localTs weight
  match s.size with
  -- not enough points, wait for more
  | none => (-s.clockFreq, .unlocked, s)
  | some k =>
    let (state, s) :=
      if exceedsStepThreshold servo (CDouble.fabs (s.results k).intercept) then
        -- the clock will be stepped by the offset
        let s := moveReference s 0 (-offset)
        (ServoState.jump, { s with lastUpdate := s.lastUpdate - offset.toUInt64 })
      else (ServoState.locked, s)
    let res := s.results k
    -- set the frequency to the slope and correct the time offset
    let clockFreq := CDouble.lit 1000000000 * (res.slope - CDouble.lit 1)
    let clockFreq := clockFreq +
      res.intercept / s.updateInterval / CDouble.ofInt (corrInterval k)
    let clockFreq := clampClockFreq servo clockFreq
    let frequencyRatio :=
      res.slope / (CDouble.lit 1 + clockFreq / CDouble.lit 1000000000)
    (-clockFreq, state, { s with clockFreq, frequencyRatio })

/-- `linreg_sync_interval` -/
def linregSyncInterval (s : LinregServo D) (interval : D) : LinregServo D :=
  { s with updateInterval := interval }

/-- `linreg_reset` -/
def linregReset (s : LinregServo D) : LinregServo D :=
  { s with
    numPoints := 0
    lastUpdate := 0
    size := none
    frequencyRatio := CDouble.lit 1
    results := fun k => { s.results k with slope := CDouble.lit 0, errUpdates := 0 } }

/-- `linreg_rate_ratio` -/
def linregRateRatio (s : LinregServo D) : D := s.frequencyRatio

/-- `linreg_leap`: the reference moves when a leap second was applied. The nanoseconds of the leap
second are an `int`, which holds two seconds and wraps around above. -/
def linregLeap (s : LinregServo D) (leap : Int) : LinregServo D :=
  let y := Int64.ofInt ((s.leap * 1000000000).bmod (2 ^ 32))
  let s := if s.leap ≠ 0 ∧ leap = 0 then moveReference s 0 y else s
  { s with leap }

/-- `linreg_servo_create`, after the allocation. -/
def linregServoCreate (cfg : ServoConfig D) : LinregServo D :=
  let zero : D := CDouble.lit 0
  { points := fun _ => ⟨0, 0, zero⟩, reference := ⟨0, 0, zero⟩, numPoints := 0, lastPoint := 0,
    xRemainder := zero, lastUpdate := 0, results := fun _ => ⟨zero, zero, zero, 0⟩, size := none,
    clockFreq := CDouble.ofInt (-cfg.intialAdj), updateInterval := zero,
    frequencyRatio := CDouble.lit 1, leap := 0 }

/-- The functions of a linear regression servo. -/
def linregOps : ServoOps D (LinregServo D) :=
  { sample := linregSample, syncInterval := linregSyncInterval, reset := linregReset,
    rateRatio := some linregRateRatio, leap := some linregLeap }

/-! ## What a regression computes -/

/-- The sums over the `n` newest points. -/
def newestSums (s : LinregServo D) (n : Nat) : RegressSums D :=
  (List.range n).foldl (sumPoint s) RegressSums.zero

/-- The offset of the newest point, against which a prediction is measured. -/
def newestY (s : LinregServo D) : D :=
  CDouble.ofInt ((s.points s.lastPoint).y - s.reference.y).toInt64.toInt

/-- The result of a size after a regression: the line through its points, if there are enough. -/
def regressed (y0 : D) (s : LinregServo D) (k : SizeIndex) : RegressResult D :=
  if SizeIndex.points k ≤ s.numPoints then
    fitLine (newestSums s (SizeIndex.points k)) (updateErr y0 (s.results k))
  else s.results k

/-- Adding older points to the sums of the newest ones. -/
theorem foldl_newestSums (s : LinregServo D) {i n : Nat} (hi : i ≤ n) :
    (List.range' i (n - i)).foldl (sumPoint s) (newestSums s i) = newestSums s n := by
  have hrange : List.range i ++ List.range' i (n - i) = List.range n := by
    have happend := List.range'_append_1 (s := 0) (m := i) (n := n - i)
    rw [Nat.zero_add, Nat.add_sub_cancel' hi] at happend
    rwa [List.range_eq_range', List.range_eq_range']
  rw [newestSums, ← List.foldl_append, hrange, newestSums]

/-- A loop over increasing sizes, with the sums of the points so far, updates the results of these
sizes. -/
theorem regressLoop_eq (y0 : D) {ks : List SizeIndex}
    (hsorted : ks.Pairwise fun j k => SizeIndex.points j < SizeIndex.points k) (i : Nat)
    (hi : ∀ k ∈ ks, i ≤ SizeIndex.points k) (s : LinregServo D) :
    ∃ results, regressLoop y0 ks (newestSums s i) i s = { s with results } ∧
      (∀ k ∈ ks, results k = regressed y0 s k) ∧ ∀ k ∉ ks, results k = s.results k := by
  induction ks generalizing i s with
  | nil =>
    refine ⟨s.results, rfl, ?_, ?_⟩
    · intro k hk
      cases hk
    · intro k _
      rfl
  | cons k ks ih =>
    obtain ⟨hfirst, hsorted⟩ := List.pairwise_cons.mp hsorted
    rw [regressLoop]
    dsimp only
    split
    · next hfew =>
      refine ⟨s.results, rfl, ?_, ?_⟩
      · -- too few points for this size, and for the larger ones
        intro j hj
        have hlarger : SizeIndex.points k ≤ SizeIndex.points j := by
          rcases List.mem_cons.mp hj with rfl | hj
          · exact le_refl _
          · exact (hfirst j hj).le
        rw [regressed, if_neg (by omega)]
      · intro j _
        rfl
    · next hmany =>
      rw [foldl_newestSums s (hi k List.mem_cons_self)]
      -- the results take no part in the sums
      let res := fitLine (newestSums s (SizeIndex.points k)) (updateErr y0 (s.results k))
      have hmore : ∀ j ∈ ks, SizeIndex.points k ≤ SizeIndex.points j := by
        intro j hj
        exact (hfirst j hj).le
      obtain ⟨results, hloop, hin, hout⟩ := ih hsorted (SizeIndex.points k) hmore
        { s with results := Function.update s.results k res }
      have hk : k ∉ ks := by
        intro hk
        exact absurd (hfirst k hk) (lt_irrefl _)
      refine ⟨results, hloop, ?_, ?_⟩
      · intro j hj
        rcases List.mem_cons.mp hj with rfl | hjs
        · rw [hout j hk, regressed, if_pos (by omega)]
          exact Function.update_self j res s.results
        · have hne : j ≠ k := by
            rintro rfl
            exact hk hjs
          rw [hin j hjs, regressed, regressed]
          simp only [Function.update_of_ne hne]
          rfl
      · intro j hj
        rw [List.mem_cons, not_or] at hj
        obtain ⟨hne, hj⟩ := hj
        rw [hout j hj]
        exact Function.update_of_ne hne res s.results

/-- **A regression** fits a line to the newest points of every size that has enough of them. The
sums that the loop carries are those of the newest points of each size, and writing one result does
not change another. -/
theorem regress_eq (s : LinregServo D) :
    regress s = { s with results := regressed (newestY s) s } := by
  have hsorted : (List.finRange (MAX_SIZE - MIN_SIZE + 1)).Pairwise fun j k =>
      SizeIndex.points j < SizeIndex.points k := by decide
  obtain ⟨results, hloop, hin, -⟩ :=
    regressLoop_eq (newestY s) hsorted 0 (fun k _ => Nat.zero_le _) s
  have hresults : results = regressed (newestY s) s := by
    funext k
    exact hin k (List.mem_finRange k)
  exact hloop.trans (by rw [hresults])

/-- The points and the lines are updated before the frequency is. -/
theorem linregUpdate_frame (s : LinregServo D) (offset : Int64) (localTs : UInt64) (weight : D) :
    (linregUpdate s offset localTs weight).clockFreq = s.clockFreq ∧
      (linregUpdate s offset localTs weight).updateInterval = s.updateInterval := by
  have hreference : (updateReference s localTs).clockFreq = s.clockFreq ∧
      (updateReference s localTs).updateInterval = s.updateInterval := by
    simp only [updateReference]
    split <;> exact ⟨rfl, rfl⟩
  rw [linregUpdate, regress_eq]
  exact hreference

/-! ## What a sample can do -/

/-- The frequency that follows the line of a size and corrects its offset, before it is limited. -/
def targetFreq (s : LinregServo D) (k : SizeIndex) : D :=
  CDouble.lit 1000000000 * ((s.results k).slope - CDouble.lit 1) +
    (s.results k).intercept / s.updateInterval / CDouble.ofInt (corrInterval k)

/-- The servo after a step of the clock: the reference moves with the clock, and so does the time of
the last update, as the next time stamp will not contain what the clock was stepped by. -/
def stepped (s : LinregServo D) (offset : Int64) : LinregServo D :=
  { moveReference s 0 (-offset) with lastUpdate := s.lastUpdate - offset.toUInt64 }

/-- The outcomes of a sample: there is no line yet, or the clock is stepped to its line, or it
follows it. In the last two the frequency is that of the line, limited. -/
inductive LinregSampled (servo : ServoBase D) (s : LinregServo D) (offset : Int64)
    (localTs : UInt64) (weight : D) : D × ServoState × LinregServo D → Prop where
  /-- there are not enough points -/
  | waiting (hsize : (linregUpdate s offset localTs weight).size = none) :
    LinregSampled servo s offset localTs weight
      (-(linregUpdate s offset localTs weight).clockFreq, .unlocked,
        linregUpdate s offset localTs weight)
  /-- the clock is stepped, and follows the line after the step -/
  | stepped (k : SizeIndex) (frequencyRatio : D)
    (hsize : (linregUpdate s offset localTs weight).size = some k) :
    LinregSampled servo s offset localTs weight
      (-clampClockFreq servo
          (targetFreq (stepped (linregUpdate s offset localTs weight) offset) k), .jump,
        { stepped (linregUpdate s offset localTs weight) offset with
          clockFreq := clampClockFreq servo
            (targetFreq (stepped (linregUpdate s offset localTs weight) offset) k)
          frequencyRatio })
  /-- the clock follows the line -/
  | followed (k : SizeIndex) (frequencyRatio : D)
    (hsize : (linregUpdate s offset localTs weight).size = some k) :
    LinregSampled servo s offset localTs weight
      (-clampClockFreq servo (targetFreq (linregUpdate s offset localTs weight) k), .locked,
        { linregUpdate s offset localTs weight with
          clockFreq := clampClockFreq servo
            (targetFreq (linregUpdate s offset localTs weight) k)
          frequencyRatio })

/-- **The inversion of `linreg_sample`.** Every result is one of the three outcomes, with the state
that `linregUpdate` left; later proofs go by cases and do not unfold the function. -/
theorem linregSample_sampled (servo : ServoBase D) (s : LinregServo D) (offset : Int64)
    (localTs : UInt64) (weight : D) :
    LinregSampled servo s offset localTs weight (linregSample servo s offset localTs weight) := by
  unfold linregSample
  dsimp only
  split
  · next hsize => exact .waiting hsize
  · next k hsize =>
    split
    · exact .stepped k _ hsize
    · exact .followed k _ hsize

/-- The servo itself does not know of stable locks. -/
theorem linregSample_state (servo : ServoBase D) (s : LinregServo D) (offset : Int64)
    (localTs : UInt64) (weight : D) :
    (linregSample servo s offset localTs weight).2.1 ≠ .lockedStable := by
  have hsampled := linregSample_sampled servo s offset localTs weight
  generalize linregSample servo s offset localTs weight = result at hsampled ⊢
  cases hsampled <;> nofun

/-- The clock is stepped for an intercept beyond a threshold only. -/
theorem linregSample_jump {servo : ServoBase D} {s : LinregServo D} {offset : Int64}
    {localTs : UInt64} {weight : D} (h : (linregSample servo s offset localTs weight).2.1 = .jump) :
    ∃ magnitude, exceedsStepThreshold servo magnitude = true := by
  unfold linregSample at h
  dsimp only at h
  split at h
  · cases h
  · split at h
    · next hexceeds => exact ⟨_, hexceeds⟩
    · cases h

end ExternalServo
