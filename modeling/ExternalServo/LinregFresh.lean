import ExternalServo.LinregWindow

/-!
# A reset of the regression servo (`linreg.c`)

`linreg_reset` leaves most of the servo as it is: the buffer, the reference, the errors and the
intercepts keep their old values. None of them is looked at again. Two servos with any histories
that agree in the frequency of the clock, the update interval, the remainder of the reference and
the leap second answer every later run of calls alike, once both are reset
(`linregReset_fresh`).

They do not become equal, they become `Alike`: the points have the same places relative to the
references, the results agree in what was computed since the reset. The one old value that could
come back is the error of a size, which is not cleared: `updateSize` compares it if the size has
a slope and was never compared before, while a larger size was often. It takes a slope of zero
for a smaller size to have been compared less often than a larger one (`Ranked`).
-/

namespace ExternalServo

open CArith Runs

variable {D : Type} [CDouble D]

/-! ## A sample, by the size -/

section Sample

/-- The servo after a sample that follows the line of a size, and what it returns. -/
def followed (servo : ServoBase D) (s : LinregServo D) (k : SizeIndex) (state : ServoState) :
    D × ServoState × LinregServo D :=
  let clockFreq := clampClockFreq servo (targetFreq s k)
  (-clockFreq, state,
    { s with
      clockFreq
      frequencyRatio := (s.results k).slope /
        (CDouble.lit 1 + clockFreq / CDouble.lit 1000000000) })

variable {s : LinregServo D} {offset : Int64} {localTs : UInt64} {weight : D}

/-- A sample, after the line of a size was chosen. -/
theorem linregSample_some (servo : ServoBase D) {k : SizeIndex}
    (hk : (linregUpdate s offset localTs weight).size = some k) :
    linregSample servo s offset localTs weight =
      if exceedsStepThreshold servo
          (CDouble.fabs ((linregUpdate s offset localTs weight).results k).intercept) then
        followed servo (stepped (linregUpdate s offset localTs weight) offset) k .jump
      else followed servo (linregUpdate s offset localTs weight) k .locked := by
  unfold linregSample
  dsimp only
  rw [hk]
  dsimp only
  split <;> rfl

/-- Before there is a line, the servo waits. -/
theorem linregSample_none (servo : ServoBase D)
    (hk : (linregUpdate s offset localTs weight).size = none) :
    linregSample servo s offset localTs weight =
      (-(linregUpdate s offset localTs weight).clockFreq, .unlocked,
        linregUpdate s offset localTs weight) := by
  unfold linregSample
  dsimp only
  rw [hk]

end Sample

/-! ## Servos that are alike -/

/-- The `i`th newest point, relative to the reference. -/
def LinregServo.relative (s : LinregServo D) (i : Nat) : Point D :=
  { x := (s.points (newestIndex s i)).x - s.reference.x
    y := (s.points (newestIndex s i)).y - s.reference.y
    w := (s.points (newestIndex s i)).w }

/-- The size has a slope, or an error. What else its result holds is not read then, and a reset does
not clear it. -/
def RegressResult.Used (res : RegressResult D) : Prop :=
  CDouble.truthy res.slope = true ∨ res.errUpdates ≠ 0

/-- The results agree in what is used. The error is not cleared by a reset either: it is multiplied
by zero when the first error after the reset is averaged in, which forgets a number, and makes a NaN
of an infinity or a NaN. -/
structure SameResult (res res' : RegressResult D) : Prop where
  slope : res'.slope = res.slope
  errUpdates : res'.errUpdates = res.errUpdates
  err : res.errUpdates ≠ 0 → res'.err = res.err
  zeroed : res'.err * CDouble.ofInt 0 = res.err * CDouble.ofInt 0
  intercept : res.Used → res'.intercept = res.intercept

/-- The servos differ only in what no sample looks at: the places of the points in the ring buffer,
the origin of the axes, and what is left over in results that are not used. -/
structure Alike (s s' : LinregServo D) : Prop where
  bound : s.numPoints ≤ MAX_POINTS
  numPoints : s'.numPoints = s.numPoints
  points : ∀ i < s.numPoints, s'.relative i = s.relative i
  results : ∀ k, SameResult (s.results k) (s'.results k)
  xRemainder : s'.xRemainder = s.xRemainder
  lastUpdate : s'.lastUpdate = s.lastUpdate
  size : s'.size = s.size
  clockFreq : s'.clockFreq = s.clockFreq
  updateInterval : s'.updateInterval = s.updateInterval
  frequencyRatio : s'.frequencyRatio = s.frequencyRatio
  leap : s'.leap = s.leap

section Alike

variable {s s' : LinregServo D}

/-- Moving the reference moves every point relative to it. -/
theorem relative_moveReference (s : LinregServo D) (x y : Int64) (i : Nat) :
    (moveReference s x y).relative i =
      { s.relative i with
        x := (s.relative i).x - x.toUInt64, y := (s.relative i).y - y.toUInt64 } := by
  have hx : ∀ a b c : UInt64, a - (b + c) = a - b - c := by
    intro a b c
    grind
  simp only [LinregServo.relative, moveReference, newestIndex, hx]

theorem Alike.moveReference (h : Alike s s') (x y : Int64) :
    Alike (moveReference s x y) (moveReference s' x y) := by
  refine ⟨h.bound, h.numPoints, ?_, ?_, h.xRemainder, h.lastUpdate, h.size, h.clockFreq,
    h.updateInterval, h.frequencyRatio, h.leap⟩
  · intro i hi
    rw [relative_moveReference, relative_moveReference, h.points i hi]
  · intro k
    obtain ⟨hslope, herrUpdates, herr, hzeroed, hintercept⟩ := h.results k
    refine ⟨hslope, herrUpdates, herr, hzeroed, ?_⟩
    intro hused
    change (s'.results k).intercept + _ = (s.results k).intercept + _
    rw [hintercept hused, hslope]

/-- The time of the last update is set. -/
theorem Alike.setLastUpdate (h : Alike s s') (localTs : UInt64) :
    Alike { s with lastUpdate := localTs } { s' with lastUpdate := localTs } :=
  ⟨h.bound, h.numPoints, h.points, h.results, h.xRemainder, rfl, h.size, h.clockFreq,
    h.updateInterval, h.frequencyRatio, h.leap⟩

theorem Alike.setRemainder (h : Alike s s') (r : D) :
    Alike { s with xRemainder := r } { s' with xRemainder := r } :=
  ⟨h.bound, h.numPoints, h.points, h.results, rfl, h.lastUpdate, h.size, h.clockFreq,
    h.updateInterval, h.frequencyRatio, h.leap⟩

theorem Alike.updateReference (h : Alike s s') (localTs : UInt64) :
    Alike (updateReference s localTs) (updateReference s' localTs) := by
  rcases s' with ⟨points, reference, numPoints, lastPoint, xRemainder, lastUpdate, results, size,
    clockFreq, updateInterval, frequencyRatio, leap⟩
  obtain rfl : xRemainder = s.xRemainder := h.xRemainder
  obtain rfl : lastUpdate = s.lastUpdate := h.lastUpdate
  obtain rfl : clockFreq = s.clockFreq := h.clockFreq
  unfold ExternalServo.updateReference
  dsimp only
  split
  · exact ((h.setRemainder _).moveReference _ _).setLastUpdate localTs
  · exact h.setLastUpdate localTs

omit [CDouble D] in
/-- The points after one was stored. -/
theorem relative_addSample (s : LinregServo D) (offset : Int64) (weight : D) :
    (addSample s offset weight).relative 0 = ⟨0, 0 - offset.toUInt64, weight⟩ ∧
      ∀ i, i + 1 < MAX_POINTS → (addSample s offset weight).relative (i + 1) = s.relative i := by
  have hlast : (addSample s offset weight).lastPoint = s.lastPoint + 1 := rfl
  refine ⟨?_, ?_⟩
  · have hy : ∀ a b : UInt64, a - b - a = 0 - b := by
      intro a b
      grind
    simp only [LinregServo.relative, newestIndex_zero, hlast]
    simp only [addSample, Function.update_self, hy]
    rw [UInt64.sub_self]
  · intro i hi
    obtain ⟨hindex, hne⟩ := newestIndex_succ hlast hi
    simp only [LinregServo.relative]
    simp only [addSample] at hindex hne ⊢
    rw [Function.update_of_ne hne, hindex]

/-- A sample is stored alike: the new point is at the reference of its servo, and the others keep
their distances to it. -/
theorem Alike.addSample (h : Alike s s') (offset : Int64) (weight : D) :
    Alike (addSample s offset weight) (addSample s' offset weight) := by
  have hnum : ∀ s : LinregServo D, (ExternalServo.addSample s offset weight).numPoints =
      if s.numPoints < MAX_POINTS then s.numPoints + 1 else s.numPoints := by
    intro s
    rfl
  obtain ⟨hzero, hsucc⟩ := relative_addSample s offset weight
  obtain ⟨hzero', hsucc'⟩ := relative_addSample s' offset weight
  have hbound := h.bound
  refine ⟨?_, ?_, ?_, h.results, h.xRemainder, h.lastUpdate, h.size, h.clockFreq,
    h.updateInterval, h.frequencyRatio, h.leap⟩
  · rw [hnum]
    split <;> omega
  · rw [hnum, hnum, h.numPoints]
  · intro i hi
    rw [hnum] at hi
    cases i with
    | zero => rw [hzero, hzero']
    | succ i =>
      have hlt : i < s.numPoints ∧ i + 1 < MAX_POINTS := by
        split at hi <;> omega
      rw [hsucc i hlt.2, hsucc' i hlt.2, h.points i hlt.1]

/-- A point is added to the sums by its place relative to the reference. -/
theorem sumPoint_congr {i : Nat} (h : s'.relative i = s.relative i) (sums : RegressSums D) :
    sumPoint s' sums i = sumPoint s sums i := by
  obtain ⟨hx, hy, hw⟩ := Point.mk.inj h
  rw [newestIndex, newestIndex] at hx hy hw
  simp only [sumPoint, hx, hy, hw]

theorem Alike.newestSums (h : Alike s s') {n : Nat} (hn : n ≤ s.numPoints) :
    newestSums s' n = newestSums s n := by
  induction n with
  | zero => simp only [ExternalServo.newestSums, List.range_zero, List.foldl_nil]
  | succ n ih =>
    have hsucc : ∀ s : LinregServo D,
        ExternalServo.newestSums s (n + 1) = sumPoint s (ExternalServo.newestSums s n) n := by
      intro s
      simp only [ExternalServo.newestSums, List.range_succ, List.foldl_append, List.foldl_cons,
        List.foldl_nil]
    rw [hsucc, hsucc, ih (Nat.le_of_succ_le hn), sumPoint_congr (h.points n hn)]

/-- A prediction error is added to what was computed since the reset. At the first one the error
from before is multiplied by zero, so it has to agree in this product only. -/
theorem SameResult.updateErr {res res' : RegressResult D} (h : SameResult res res')
    (y0 : D) : SameResult (updateErr y0 res) (updateErr y0 res') := by
  obtain ⟨hslope, herrUpdates, herr, hzeroed, hintercept⟩ := h
  by_cases htruthy : CDouble.truthy res.slope = true
  · have hused : res.Used := .inl htruthy
    have he := hintercept hused
    -- the first error does not depend on what it is averaged with
    have hfirst :
        res'.err * CDouble.ofInt res.errUpdates = res.err * CDouble.ofInt res.errUpdates := by
      by_cases hzero : res.errUpdates = 0
      · rw [hzero]
        exact hzeroed
      · rw [herr hzero]
    simp only [ExternalServo.updateErr, hslope, htruthy, if_true, herrUpdates, he]
    split
    · refine ⟨rfl, rfl, ?_, ?_, fun _ => rfl⟩
      · intro _
        simp only [hfirst]
      · simp only [hfirst]
    · next hmany =>
      have hne : res.errUpdates ≠ 0 := by
        have : ERR_INITIAL_UPDATES = 10 := rfl
        omega
      refine ⟨rfl, rfl, ?_, ?_, fun _ => rfl⟩
      · intro _
        simp only [herr hne]
      · simp only [herr hne]
  · simp only [ExternalServo.updateErr, hslope, htruthy]
    exact ⟨hslope, herrUpdates, herr, hzeroed, hintercept⟩

/-- A new line makes an old intercept unused. -/
theorem SameResult.fitLine {res res' : RegressResult D} (h : SameResult res res')
    (sums : RegressSums D) : SameResult (fitLine sums res) (fitLine sums res') :=
  ⟨rfl, h.errUpdates, h.err, h.zeroed, fun _ => rfl⟩

theorem Alike.regress (h : Alike s s') (hpos : 0 < s.numPoints) :
    Alike (regress s) (regress s') := by
  have hnewest : newestY s' = newestY s := by
    have hzero := h.points 0 hpos
    rw [LinregServo.relative, LinregServo.relative, newestIndex_zero, newestIndex_zero] at hzero
    rw [newestY, newestY, (Point.mk.inj hzero).2.1]
  rw [regress_eq, regress_eq, hnewest]
  refine ⟨h.bound, h.numPoints, h.points, ?_, h.xRemainder, h.lastUpdate, h.size, h.clockFreq,
    h.updateInterval, h.frequencyRatio, h.leap⟩
  intro k
  simp only [regressed, h.numPoints]
  split
  · next hk =>
    rw [h.newestSums hk]
    exact ((h.results k).updateErr _).fitLine _
  · exact h.results k

/-! ## The size -/

/-- The choice between the sizes `ks`, given the best one so far. This is the loop of `update_size`
as a fold, with the error of the best size beside it. -/
def chooseSize (results : SizeIndex → RegressResult D) (ks : List SizeIndex)
    (best : Option SizeIndex × D) : Option SizeIndex × D :=
  ks.foldl (fun best k =>
    if betterSize best.1 best.2 (results k) then (some k, (results k).err) else best) best

/-- Sizes of which each was compared at least as often as the later ones are chosen alike. -/
theorem chooseSize_congr {results results' : SizeIndex → RegressResult D}
    (h : ∀ k, SameResult (results k) (results' k)) {ks : List SizeIndex}
    (hranked : ks.Pairwise fun j k => (results k).errUpdates ≤ (results j).errUpdates)
    {best best' : Option SizeIndex × D} (hbest : best'.1 = best.1)
    (herr : best'.2 = best.2 ∨ best.1 ≠ none ∧ ∀ k ∈ ks, (results k).errUpdates = 0) :
    (chooseSize results' ks best').1 = (chooseSize results ks best).1 := by
  induction ks generalizing best best' with
  | nil => exact hbest
  | cons k ks ih =>
    obtain ⟨hk, hranked⟩ := List.pairwise_cons.mp hranked
    rw [chooseSize, chooseSize, List.foldl_cons, List.foldl_cons]
    rcases herr with herr | ⟨hsome, hzero⟩
    · have hsame : betterSize best'.1 best'.2 (results' k) =
          betterSize best.1 best.2 (results k) := by
        rw [betterSize, betterSize, hbest, herr, (h k).slope, (h k).errUpdates]
        by_cases hzero : (results k).errUpdates = 0
        · -- an error that was never updated is not compared
          rw [hzero]
          simp [ERR_INITIAL_UPDATES]
        · rw [(h k).err hzero]
      rw [hsame]
      split
      · refine ih hranked rfl ?_
        by_cases hzero : (results k).errUpdates = 0
        · refine .inr ⟨Option.some_ne_none k, ?_⟩
          intro j hj
          have := hk j hj
          omega
        · exact .inl ((h k).err hzero)
      · exact ih hranked hbest (.inl herr)
    · have hnone : ∀ (res : RegressResult D) (b : Option SizeIndex) (e : D), b ≠ none →
          res.errUpdates = 0 → betterSize b e res = false := by
        intro res b e hb hres
        have hisNone : b.isNone = false := by
          cases b with
          | none => exact absurd rfl hb
          | some k => rfl
        rw [betterSize, hisNone, hres]
        simp [ERR_INITIAL_UPDATES]
      have hk0 := hzero k List.mem_cons_self
      have hk0' : (results' k).errUpdates = 0 := (h k).errUpdates.trans hk0
      rw [hnone _ _ _ hsome hk0, hnone _ _ _ (hbest ▸ hsome) hk0', if_neg Bool.false_ne_true,
        if_neg Bool.false_ne_true]
      refine ih hranked hbest (.inr ⟨hsome, ?_⟩)
      intro j hj
      exact hzero j (List.mem_cons_of_mem k hj)

/-- A size has a slope if it has enough points, and was compared at least as often as the larger
sizes. So where `update_size` compares a larger size with the first one, the error of the first one
was counted since the reset as well. -/
structure Ranked (s : LinregServo D) : Prop where
  bound : s.numPoints ≤ MAX_POINTS
  stale : ∀ k, s.numPoints < SizeIndex.points k → (s.results k).errUpdates = 0
  slope : ∀ k, SizeIndex.points k ≤ s.numPoints → CDouble.truthy (s.results k).slope = true
  ranked : ∀ j k, j < k → (s.results k).errUpdates ≤ (s.results j).errUpdates

theorem Alike.updateSize (h : Alike s s')
    (hranked : ∀ j k, j < k → (s.results k).errUpdates ≤ (s.results j).errUpdates) :
    Alike (updateSize s) (updateSize s') := by
  have hsize : (chooseSize s'.results (List.finRange _) (none, CDouble.lit 0)).1 =
      (chooseSize s.results (List.finRange _) (none, CDouble.lit 0)).1 := by
    refine chooseSize_congr h.results ?_ rfl (.inl rfl)
    exact (List.pairwise_lt_finRange _).imp fun hjk => hranked _ _ hjk
  exact ⟨h.bound, h.numPoints, h.points, h.results, h.xRemainder, h.lastUpdate, hsize, h.clockFreq,
    h.updateInterval, h.frequencyRatio, h.leap⟩

/-- The size that is chosen has a slope, or an error. The fold over the sizes takes one for the one
or the other, and keeps that of the sizes before it. -/
theorem used_of_size {k : SizeIndex} (h : (updateSize s).size = some k) : (s.results k).Used := by
  have hchoose : ∀ (ks : List SizeIndex) (best : Option SizeIndex × D),
      (∀ j, best.1 = some j → (s.results j).Used) →
        ∀ j, (chooseSize s.results ks best).1 = some j → (s.results j).Used := by
    intro ks
    induction ks with
    | nil =>
      intro best hbest j hj
      exact hbest j hj
    | cons i ks ih =>
      intro best hbest
      rw [chooseSize, List.foldl_cons]
      apply ih
      intro j hj
      split at hj
      · next hbetter =>
        obtain rfl := Option.some.inj hj
        rw [betterSize, Bool.or_eq_true, Bool.and_eq_true, Bool.and_eq_true,
          decide_eq_true_eq] at hbetter
        rcases hbetter with ⟨-, hslope⟩ | ⟨-, hmany⟩
        · exact .inl hslope
        · refine .inr ?_
          have : ERR_INITIAL_UPDATES = 10 := rfl
          omega
      · exact hbest j hj
  refine hchoose (List.finRange _) (none, CDouble.lit 0) ?_ k h
  intro j hj
  cases hj

/-! ## Calls -/

/-- The step of the clock. -/
theorem Alike.stepped (h : Alike s s') (offset : Int64) :
    Alike (stepped s offset) (stepped s' offset) := by
  have hmoved := h.moveReference 0 (-offset)
  have hset := hmoved.setLastUpdate (s.lastUpdate - offset.toUInt64)
  rw [ExternalServo.stepped, ExternalServo.stepped, h.lastUpdate]
  exact hset

/-- The frequency, and the ratio, that follow a size that is used. -/
theorem Alike.follow (h : Alike s s') {k : SizeIndex} (hused : (s.results k).Used) :
    targetFreq s' k = targetFreq s k ∧ (s'.results k).slope = (s.results k).slope ∧
      ∀ clockFreq frequencyRatio,
        Alike { s with clockFreq, frequencyRatio } { s' with clockFreq, frequencyRatio } := by
  refine ⟨?_, (h.results k).slope, ?_⟩
  · rw [targetFreq, targetFreq, (h.results k).slope, (h.results k).intercept hused,
      h.updateInterval]
  · intro clockFreq frequencyRatio
    exact ⟨h.bound, h.numPoints, h.points, h.results, h.xRemainder, h.lastUpdate, h.size, rfl,
      h.updateInterval, rfl, h.leap⟩

/-- Results of a sample that are alike. -/
def AlikeSampled (result result' : D × ServoState × LinregServo D) : Prop :=
  result'.1 = result.1 ∧ result'.2.1 = result.2.1 ∧ Alike result.2.2 result'.2.2

theorem Alike.followed (h : Alike s s') {k : SizeIndex} (hused : (s.results k).Used)
    (servo : ServoBase D) (state : ServoState) :
    AlikeSampled (followed servo s k state) (followed servo s' k state) := by
  obtain ⟨htarget, hslope, hset⟩ := h.follow hused
  simp only [ExternalServo.followed, htarget, hslope]
  exact ⟨rfl, rfl, hset _ _⟩

/-- **A sample** of servos that are alike: the same points relative to the reference give the same
sums and lines, the same errors, the same choice, and so the same frequency. -/
theorem Alike.sample (h : Alike s s') (servo : ServoBase D) (offset : Int64)
    (localTs : UInt64) (weight : D)
    (hranked : ∀ j k, j < k →
      ((ExternalServo.regress (sampled s offset localTs weight)).results k).errUpdates ≤
        ((ExternalServo.regress (sampled s offset localTs weight)).results j).errUpdates) :
    AlikeSampled (linregSample servo s offset localTs weight)
      (linregSample servo s' offset localTs weight) := by
  have hpos : 0 < (sampled s offset localTs weight).numPoints := by
    simp only [sampled, ExternalServo.addSample]
    split
    · omega
    · next hfull => exact Nat.lt_of_lt_of_le (by decide) (Nat.le_of_not_lt hfull)
  have hregress := ((h.updateReference localTs).addSample offset weight).regress hpos
  have hupdate : Alike (linregUpdate s offset localTs weight)
      (linregUpdate s' offset localTs weight) := hregress.updateSize hranked
  cases hk : (linregUpdate s offset localTs weight).size with
  | none =>
    rw [linregSample_none servo hk,
      linregSample_none servo (hupdate.size.trans hk)]
    exact ⟨congrArg Neg.neg hupdate.clockFreq, rfl, hupdate⟩
  | some k =>
    have hused : ((linregUpdate s offset localTs weight).results k).Used := used_of_size hk
    rw [linregSample_some servo hk,
      linregSample_some servo (hupdate.size.trans hk),
      (hupdate.results k).intercept hused]
    split
    · exact (hupdate.stepped offset).followed hused servo .jump
    · exact hupdate.followed hused servo .locked

end Alike

/-! ## Sizes in order -/

section Ranked

variable {s s' : LinregServo D}

/-- How often a size was compared, after one more prediction. -/
theorem updateErr_errUpdates (y0 : D) (res : RegressResult D) :
    (updateErr y0 res).errUpdates =
      if CDouble.truthy res.slope = true ∧ res.errUpdates < ERR_INITIAL_UPDATES then
        res.errUpdates + 1
      else res.errUpdates := by
  by_cases htruthy : CDouble.truthy res.slope = true
  · simp only [updateErr, htruthy, if_true, true_and]
    split <;> rfl
  · simp only [updateErr, htruthy, Bool.false_eq_true, if_false, false_and]

/-- How often a size was compared, after a regression. -/
theorem regressed_errUpdates (y0 : D) (s : LinregServo D) (k : SizeIndex) :
    (regressed y0 s k).errUpdates =
      if SizeIndex.points k ≤ s.numPoints then (updateErr y0 (s.results k)).errUpdates
      else (s.results k).errUpdates := by
  rw [regressed]
  split <;> rfl

theorem Ranked.same (h : Ranked s) (hsame : SameWindow s s') : Ranked s' := by
  refine ⟨?_, ?_, ?_, ?_⟩
  · rw [hsame.numPoints]
    exact h.bound
  · intro k hk
    rw [hsame.numPoints] at hk
    rw [hsame.errUpdates]
    exact h.stale k hk
  · intro k hk
    rw [hsame.numPoints] at hk
    rw [hsame.slope]
    exact h.slope k hk
  · intro j k hjk
    rw [hsame.errUpdates, hsame.errUpdates]
    exact h.ranked j k hjk

/-- A smaller size has fewer points. -/
theorem points_lt {j k : SizeIndex} (h : j < k) : SizeIndex.points j < SizeIndex.points k := by
  revert j k
  decide

/-- **A regression** keeps the sizes in order: the smaller of two sizes was fitted before, so it
is compared again. -/
theorem Ranked.regress (h : Ranked s) (offset : Int64) (weight : D) :
    (∀ k, (addSample s offset weight).numPoints < SizeIndex.points k →
        ((regress (addSample s offset weight)).results k).errUpdates = 0) ∧
      ∀ j k, j < k → ((regress (addSample s offset weight)).results k).errUpdates ≤
        ((regress (addSample s offset weight)).results j).errUpdates := by
  have hresults : ∀ k, (addSample s offset weight).results k = s.results k := fun _ => rfl
  have hnum : (addSample s offset weight).numPoints =
      if s.numPoints < MAX_POINTS then s.numPoints + 1 else s.numPoints := rfl
  have hbound := h.bound
  rw [regress_eq]
  refine ⟨?_, ?_⟩
  · intro k hk
    change (regressed _ _ k).errUpdates = 0
    rw [regressed_errUpdates, if_neg (Nat.not_le_of_lt hk), hresults]
    refine h.stale k ?_
    rw [hnum] at hk
    split at hk <;> omega
  · intro j k hjk
    change (regressed _ _ k).errUpdates ≤ (regressed _ _ j).errUpdates
    have hle := h.ranked j k hjk
    have hpoints := points_lt hjk
    have hgrows : s.numPoints ≤ (addSample s offset weight).numPoints := by
      rw [hnum]
      split <;> omega
    rw [regressed_errUpdates, regressed_errUpdates, hresults, hresults]
    by_cases hj : SizeIndex.points j ≤ s.numPoints
    · -- the smaller size has a line
      have hslope := h.slope j hj
      rw [updateErr_errUpdates, updateErr_errUpdates]
      simp only [hslope, true_and]
      split_ifs <;> omega
    · have hstale := h.stale k (by omega)
      have hfew : ¬ SizeIndex.points k ≤ (addSample s offset weight).numPoints := by
        rw [hnum]
        split <;> omega
      rw [if_neg hfew, hstale]
      exact Nat.zero_le _

/-- No size with enough points gets a slope of zero from the sample. The source takes such a slope
for a missing one, and counts no error of the size at the next sample, so that the sizes would get
out of order. -/
def SlopesNonzero (s : LinregServo D) : LinregCall D → Prop
  | .sample _ offset localTs weight =>
    ∀ k, SizeIndex.points k ≤ (sampled s offset localTs weight).numPoints →
      CDouble.truthy ((linregUpdate s offset localTs weight).results k).slope = true
  | .syncInterval _ | .reset | .leap _ => True

instance decidableSlopesNonzero (s : LinregServo D) :
    (call : LinregCall D) → Decidable (SlopesNonzero s call)
  | .sample _ _ _ _ => inferInstanceAs (Decidable (∀ _, _ → _ = true))
  | .syncInterval _ | .reset | .leap _ => isTrue trivial

/-- A sample keeps the sizes in order, if all regressions have a slope. The regressions count the
errors, and what comes after them touches neither slopes nor counts. -/
theorem Ranked.sample (h : Ranked s) (servo : ServoBase D) {offset : Int64} {localTs : UInt64}
    {weight : D} (hslopes : SlopesNonzero s (.sample servo offset localTs weight)) :
    Ranked (linregSample servo s offset localTs weight).2.2 := by
  obtain ⟨hstale, hranked⟩ := (h.same (updateReference_same s localTs)).regress offset weight
  have hbound := h.bound
  have hnum : (linregUpdate s offset localTs weight).numPoints =
      (sampled s offset localTs weight).numPoints := by
    rw [linregUpdate, regress_eq]
    rfl
  have hupdate : Ranked (linregUpdate s offset localTs weight) := by
    refine ⟨?_, ?_, ?_, hranked⟩
    · have hcount : (sampled s offset localTs weight).numPoints =
          if s.numPoints < MAX_POINTS then s.numPoints + 1 else s.numPoints := by
        have := (updateReference_same s localTs).numPoints
        rw [← this]
        rfl
      rw [hnum, hcount]
      split <;> omega
    · intro k hk
      rw [hnum] at hk
      exact hstale k hk
    · intro k hk
      rw [hnum] at hk
      exact hslopes k hk
  have hsampled := linregSample_sampled servo s offset localTs weight
  generalize linregSample servo s offset localTs weight = result at hsampled ⊢
  cases hsampled with
  | waiting hsize => exact hupdate
  | stepped k ratio hsize =>
    exact (hupdate.same (stepped_same _ offset)).same (setFreq_same _ _ ratio)
  | followed k ratio hsize => exact hupdate.same (setFreq_same _ _ ratio)

/-- A reset forgets all lines. -/
theorem ranked_reset (s : LinregServo D) : Ranked (linregReset s) := by
  refine ⟨Nat.zero_le _, fun _ _ => rfl, ?_, fun _ _ _ => Nat.le_refl 0⟩
  intro k hk
  have hpos : ∀ k : SizeIndex, 0 < SizeIndex.points k := by decide
  exact absurd hk (Nat.not_le_of_lt (hpos k))

end Ranked

/-! ## Runs -/

/-- What is seen of a call: the frequency and the state of a sample, and the ratio afterwards. -/
structure LinregSeen (D : Type) where
  result : Option (D × ServoState)
  frequencyRatio : D

/-- A call, and what is seen of it. -/
def linregCall (s : LinregServo D) :
    LinregCall D → LinregServo D × LinregSeen D
  | .sample servo offset localTs weight =>
    let (r, state, s) := linregSample servo s offset localTs weight
    (s, ⟨some (r, state), linregRateRatio s⟩)
  | .syncInterval interval =>
    let s := linregSyncInterval s interval
    (s, ⟨none, linregRateRatio s⟩)
  | .reset =>
    let s := linregReset s
    (s, ⟨none, linregRateRatio s⟩)
  | .leap leap =>
    let s := linregLeap s leap
    (s, ⟨none, linregRateRatio s⟩)

/-- Resets make servos alike that agree in what a reset keeps. -/
theorem alike_reset [LawfulCDouble D] {s s' : LinregServo D} (hclock : s'.clockFreq = s.clockFreq)
    (hinterval : s'.updateInterval = s.updateInterval) (hremainder : s'.xRemainder = s.xRemainder)
    (hleap : s'.leap = s.leap)
    (herr : ∀ k, (s'.results k).err * CDouble.ofInt 0 = (s.results k).err * CDouble.ofInt 0) :
    Alike (linregReset s) (linregReset s') := by
  refine ⟨Nat.zero_le _, rfl, ?_, ?_, hremainder, rfl, rfl, hclock, hinterval, rfl, hleap⟩
  · intro i hi
    exact absurd hi (Nat.not_lt_zero i)
  · intro k
    refine ⟨rfl, rfl, ?_, herr k, ?_⟩
    · intro hne
      exact absurd rfl hne
    · rintro (hslope | hne)
      · have hzero : CDouble.truthy (CDouble.lit 0 : D) = false := by
          rw [CDouble.truthy, LawfulCDouble.eq_lit, Bool.not_true]
        exact absurd (hzero.symm.trans hslope) Bool.false_ne_true
      · exact absurd rfl hne

/-- A call answers alike, and leaves the servos alike. For a sample the order of the sizes is
needed, as the choice reads errors that a reset does not clear. -/
theorem Alike.call [LawfulCDouble D] {s s' : LinregServo D} (h : Alike s s') (hranked : Ranked s)
    (call : LinregCall D) :
    (linregCall s' call).2 = (linregCall s call).2 ∧
      Alike (linregCall s call).1 (linregCall s' call).1 := by
  cases call with
  | sample servo offset localTs weight =>
    have hregress := (hranked.same (updateReference_same s localTs)).regress offset weight
    obtain ⟨hr, hstate, halike⟩ := h.sample servo offset localTs weight hregress.2
    refine ⟨?_, halike⟩
    simp only [linregCall, linregRateRatio, hr, hstate, halike.frequencyRatio]
  | syncInterval interval =>
    refine ⟨?_, h.bound, h.numPoints, h.points, h.results, h.xRemainder, h.lastUpdate, h.size,
      h.clockFreq, rfl, h.frequencyRatio, h.leap⟩
    simp only [linregCall, linregSyncInterval, linregRateRatio, h.frequencyRatio]
  | reset =>
    exact ⟨rfl, alike_reset h.clockFreq h.updateInterval h.xRemainder h.leap
      fun k => (h.results k).zeroed⟩
  | leap leap =>
    have hset : ∀ {t t' : LinregServo D}, Alike t t' → Alike { t with leap } { t' with leap } := by
      intro t t' h
      exact ⟨h.bound, h.numPoints, h.points, h.results, h.xRemainder, h.lastUpdate, h.size,
        h.clockFreq, h.updateInterval, h.frequencyRatio, rfl⟩
    have halike : Alike (linregLeap s leap) (linregLeap s' leap) := by
      rw [linregLeap, linregLeap, h.leap]
      split
      · exact hset (h.moveReference _ _)
      · exact hset h
    refine ⟨?_, halike⟩
    simp only [linregCall, linregRateRatio, halike.frequencyRatio]

/-- A call keeps the sizes in order. -/
theorem Ranked.call {s : LinregServo D} (h : Ranked s) {call : LinregCall D}
    (hslopes : SlopesNonzero s call) : Ranked (linregCall s call).1 := by
  cases call with
  | sample servo offset localTs weight => exact h.sample servo hslopes
  | syncInterval interval => exact h.same ⟨rfl, rfl, rfl, fun _ => rfl, fun _ => rfl⟩
  | reset => exact ranked_reset s
  | leap leap =>
    refine h.same ?_
    simp only [linregCall, linregLeap]
    split
    · exact ⟨rfl, rfl, rfl, fun _ => rfl, fun _ => rfl⟩
    · exact ⟨rfl, rfl, rfl, fun _ => rfl, fun _ => rfl⟩

/-- A call as a step, which cannot fault. -/
def linregStep (s : LinregServo D) (call : LinregCall D) : Except Fault (LinregServo D) :=
  .ok (linregCall s call).1

/-- **A reset is a fresh start.** Two regression servos with any histories that agree in the
frequency of the clock, the update interval, the remainder and the leap second, with errors that are
numbers, answer every run of calls alike after a reset, as long as no regression has slope zero: the
frequencies, the states and the rate ratios are the same. What the two agree in is what a reset
keeps on purpose; the points, the lines and the errors of before have no part in it. -/
theorem linregReset_fresh [LawfulCDouble D] {s s' : LinregServo D}
    (hclock : s'.clockFreq = s.clockFreq) (hinterval : s'.updateInterval = s.updateInterval)
    (hremainder : s'.xRemainder = s.xRemainder) (hleap : s'.leap = s.leap)
    (herr : ∀ k, (s'.results k).err * CDouble.ofInt 0 = (s.results k).err * CDouble.ofInt 0)
    (calls : List (LinregCall D))
    (hslopes : Always linregStep SlopesNonzero (linregReset s) calls) :
    history linregCall (linregReset s') calls = history linregCall (linregReset s) calls := by
  have halike := alike_reset hclock hinterval hremainder hleap herr
  have hranked := ranked_reset s
  generalize linregReset s = t at *
  generalize linregReset s' = t' at *
  induction calls generalizing t t' with
  | nil => rfl
  | cons call calls ih =>
    obtain ⟨hcall, hslopes⟩ := hslopes
    obtain ⟨hseen, halike'⟩ := halike.call hranked call
    rw [history, history, hseen, ih _ (hslopes _ rfl) (hranked.call hcall) _ halike']

/-- The common part of a servo that steps its clock by more than a microsecond. -/
def freshBase : ServoBase XRat :=
  { maxFrequency := .fin 500000, stepThreshold := .fin 1000, firstStepThreshold := .fin 0,
    firstUpdate := true, offsetThreshold := 0, numOffsetValues := 0, currOffsetValues := 0 }

/-- The samples of an earlier time: a clock that is right for six seconds. -/
def earlierCalls : List (LinregCall XRat) :=
  [.sample freshBase 0 1000000000 (.fin 1), .sample freshBase 0 2000000000 (.fin 1),
    .sample freshBase 0 3000000000 (.fin 1), .sample freshBase 0 4000000000 (.fin 1),
    .sample freshBase 0 5000000000 (.fin 1), .sample freshBase 0 6000000000 (.fin 1)]

/-- The samples after a reset. The fourth one steps the clock by two milliseconds. -/
def laterCalls : List (LinregCall XRat) :=
  [.sample freshBase 2000000 11000000000 (.fin 1), .sample freshBase 2000100 12000000000 (.fin 1),
    .sample freshBase 2000200 13000000000 (.fin 1), .sample freshBase 2000300 14000000000 (.fin 1),
    .sample freshBase 100 14998000000 (.fin 1)]

/-- A servo that followed its clock for six seconds has another reference than one that was just
created. After a reset the two answer five samples alike, a jump included. -/
theorem linregReset_fresh_earlier :
    let s := linregSyncInterval (linregServoCreate ServoConfig.zero) (.fin 1 : XRat)
    let s' := earlierCalls.foldl (fun s call => (linregCall s call).1) s
    s'.reference.x ≠ s.reference.x ∧
      history linregCall (linregReset s') laterCalls =
        history linregCall (linregReset s) laterCalls := by
  intro s s'
  refine ⟨by decide +kernel, ?_⟩
  apply linregReset_fresh
  · decide +kernel
  · decide +kernel
  · decide +kernel
  · decide +kernel
  · decide +kernel
  · decide +kernel

end ExternalServo
