import ExternalServo.Linreg
import ExternalServo.LeastSquares
import ExternalServo.Runs

/-!
# The window of the regression servo

The circular buffer of the regression servo, as the newest samples since the last reset. A
`Traced` servo carries all samples since the last reset next to the servo; `Tracks` says that the
buffer holds the newest of them, at the places where `regress` looks for them, and that the sizes
with too few points hold no line.

* `Tracks.step` — every call on the servo keeps it;
* `newestSums_eq` — the sums of a regression are those over the newest samples;
* `size_le` — the size that is chosen has enough samples.

In exact arithmetic the sums are the weighted totals of `LeastSquares`: `foldl_addPoint` and
`fitLine_ofData`.
-/

namespace ExternalServo

open CArith XRat Runs LeastSquares

variable {D : Type} [CDouble D]

/-! ## Calls -/

/-- A call on a regression servo. -/
inductive LinregCall (D : Type) : Type where
  /-- `linreg_sample`, with the common part of the servo -/
  | sample (servo : ServoBase D) (offset : Int64) (localTs : UInt64) (weight : D) : LinregCall D
  /-- `linreg_sync_interval` -/
  | syncInterval (interval : D) : LinregCall D
  /-- `linreg_reset` -/
  | reset : LinregCall D
  /-- `linreg_leap` -/
  | leap (leap : Int) : LinregCall D

/-- The servo when a sample takes its regressions: the reference was moved to the time of the
sample, and the sample is stored. Everything that a sample computes is a function of this servo. -/
def sampled (s : LinregServo D) (offset : Int64) (localTs : UInt64) (weight : D) :
    LinregServo D :=
  addSample (updateReference s localTs) offset weight

/-- The point that a sample is stored as. -/
def recordedPoint (s : LinregServo D) (offset : Int64) (localTs : UInt64) (weight : D) :
    Point D :=
  let reference := (updateReference s localTs).reference
  { x := reference.x, y := reference.y - offset.toUInt64, w := weight }

/-- A servo and the samples since its last reset, the newest first, as points. The history is longer
than the buffer, which keeps the newest ones. -/
structure Traced (D : Type) where
  servo : LinregServo D
  history : List (Point D)

/-- A servo that was just created. -/
def Traced.init (cfg : ServoConfig D) : Traced D :=
  { servo := linregServoCreate cfg, history := [] }

/-- A call on the servo; no call can fault. -/
def Traced.step (t : Traced D) : LinregCall D → Except Fault (Traced D)
  | .sample servo offset localTs weight =>
    .ok { servo := (linregSample servo t.servo offset localTs weight).2.2
          history := recordedPoint t.servo offset localTs weight :: t.history }
  | .syncInterval interval => .ok { t with servo := linregSyncInterval t.servo interval }
  | .reset => .ok { servo := linregReset t.servo, history := [] }
  | .leap leap => .ok { t with servo := linregLeap t.servo leap }

/-! ## The window -/

/-- The index of the `i`th newest point. -/
def newestIndex (s : LinregServo D) (i : Nat) : Fin MAX_POINTS :=
  Fin.ofNat MAX_POINTS (MAX_POINTS + s.lastPoint - i)

/-- **The invariant.** The buffer holds the newest samples, and a size without enough of them has no
line. The index of the source runs around in the buffer; `newestIndex` counts back from where it
stands. -/
structure Tracks (s : LinregServo D) (history : List (Point D)) : Prop where
  numPoints : s.numPoints = min history.length MAX_POINTS
  newest : ∀ i, ∀ hi : i < history.length, i < MAX_POINTS →
    s.points (newestIndex s i) = history[i]
  stale : ∀ k, s.numPoints < SizeIndex.points k →
    (s.results k).slope = CDouble.lit 0 ∧ (s.results k).errUpdates = 0

/-- What most of the calls leave as it is: the points, and for every size whether it has a line and
how often it was compared. -/
structure SameWindow (s s' : LinregServo D) : Prop where
  points : s'.points = s.points
  lastPoint : s'.lastPoint = s.lastPoint
  numPoints : s'.numPoints = s.numPoints
  slope : ∀ k, (s'.results k).slope = (s.results k).slope
  errUpdates : ∀ k, (s'.results k).errUpdates = (s.results k).errUpdates

theorem Tracks.same {s s' : LinregServo D} {history : List (Point D)} (h : Tracks s history)
    (hsame : SameWindow s s') : Tracks s' history := by
  refine ⟨?_, ?_, ?_⟩
  · rw [hsame.numPoints, h.numPoints]
  · intro i hi hmax
    rw [newestIndex, hsame.points, hsame.lastPoint]
    exact h.newest i hi hmax
  · intro k hk
    rw [hsame.numPoints] at hk
    rw [hsame.slope, hsame.errUpdates]
    exact h.stale k hk

theorem updateReference_same (s : LinregServo D) (localTs : UInt64) :
    SameWindow s (updateReference s localTs) := by
  simp only [updateReference]
  split
  · exact ⟨rfl, rfl, rfl, fun _ => rfl, fun _ => rfl⟩
  · exact ⟨rfl, rfl, rfl, fun _ => rfl, fun _ => rfl⟩

/-- A choice of the size. -/
theorem updateSize_same (s : LinregServo D) : SameWindow s (updateSize s) :=
  ⟨rfl, rfl, rfl, fun _ => rfl, fun _ => rfl⟩

omit [CDouble D] in
/-- A new frequency. -/
theorem setFreq_same (s : LinregServo D) (clockFreq frequencyRatio : D) :
    SameWindow s { s with clockFreq, frequencyRatio } :=
  ⟨rfl, rfl, rfl, fun _ => rfl, fun _ => rfl⟩

/-- A step of the clock. -/
theorem stepped_same (s : LinregServo D) (offset : Int64) : SameWindow s (stepped s offset) :=
  ⟨rfl, rfl, rfl, fun _ => rfl, fun _ => rfl⟩

omit [CDouble D] in
/-- The newest point is at the last index. -/
theorem newestIndex_zero (s : LinregServo D) : newestIndex s 0 = s.lastPoint := by
  apply Fin.ext
  have hlt : s.lastPoint.val < MAX_POINTS := s.lastPoint.isLt
  rw [newestIndex, Fin.val_ofNat, Nat.sub_zero, Nat.add_mod_left, Nat.mod_eq_of_lt hlt]

omit [CDouble D] in
/-- A new point moves every point one place down, and takes the place of the oldest one. -/
theorem newestIndex_succ {s s' : LinregServo D} (h : s'.lastPoint = s.lastPoint + 1) {i : Nat}
    (hi : i + 1 < MAX_POINTS) :
    newestIndex s' (i + 1) = newestIndex s i ∧ newestIndex s' (i + 1) ≠ s.lastPoint + 1 := by
  have hmax : MAX_POINTS = 64 := rfl
  have hlt : s.lastPoint.val < MAX_POINTS := s.lastPoint.isLt
  have hlast : (s.lastPoint + 1).val = (s.lastPoint.val + 1) % MAX_POINTS := by
    rw [Fin.val_add]
    rfl
  have hindex : (newestIndex s' (i + 1)).val =
      (MAX_POINTS + (s.lastPoint.val + 1) % MAX_POINTS - (i + 1)) % MAX_POINTS := by
    rw [newestIndex, Fin.val_ofNat, h, hlast]
  simp only [hmax] at hi hlt hlast hindex
  refine ⟨?_, ?_⟩
  · apply Fin.ext
    rw [hindex, newestIndex, Fin.val_ofNat]
    simp only [hmax]
    omega
  · intro heq
    rw [heq, hlast] at hindex
    omega

/-- Storing a sample puts its point before the others: the index moves on by one, and the slot that
is overwritten is that of the oldest point if the buffer is full. -/
theorem Tracks.addSample {s : LinregServo D} {history : List (Point D)} (h : Tracks s history)
    (offset : Int64) (weight : D) :
    Tracks (addSample s offset weight)
      (⟨s.reference.x, s.reference.y - offset.toUInt64, weight⟩ :: history) := by
  have hnum : (ExternalServo.addSample s offset weight).numPoints =
      if s.numPoints < MAX_POINTS then s.numPoints + 1 else s.numPoints := rfl
  refine ⟨?_, ?_, ?_⟩
  · rw [hnum, h.numPoints, List.length_cons]
    split <;> omega
  · intro i hi hmax
    change Function.update s.points (s.lastPoint + 1) _ _ = _
    cases i with
    | zero =>
      rw [newestIndex_zero]
      exact Function.update_self _ _ _
    | succ i =>
      have hlast : (ExternalServo.addSample s offset weight).lastPoint = s.lastPoint + 1 := rfl
      obtain ⟨hindex, hne⟩ := newestIndex_succ hlast hmax
      rw [Function.update_of_ne hne, hindex]
      exact h.newest i (Nat.lt_of_succ_lt_succ hi) (Nat.lt_of_succ_lt hmax)
  · intro k hk
    rw [hnum] at hk
    refine h.stale k ?_
    split at hk <;> omega

theorem tracks_sampled {s : LinregServo D} {history : List (Point D)} (h : Tracks s history)
    (offset : Int64) (localTs : UInt64) (weight : D) :
    Tracks (sampled s offset localTs weight)
      (recordedPoint s offset localTs weight :: history) :=
  (h.same (updateReference_same s localTs)).addSample offset weight

/-- The regressions. -/
theorem Tracks.regress {s : LinregServo D} {history : List (Point D)} (h : Tracks s history) :
    Tracks (regress s) history := by
  rw [regress_eq]
  refine ⟨h.numPoints, h.newest, ?_⟩
  intro k hk
  -- a size without enough points is not touched
  have hresult : regressed (newestY s) s k = s.results k := if_neg (Nat.not_le_of_lt hk)
  change (regressed (newestY s) s k).slope = _ ∧ (regressed (newestY s) s k).errUpdates = _
  rw [hresult]
  exact h.stale k hk

theorem tracks_linregUpdate {s : LinregServo D} {history : List (Point D)} (h : Tracks s history)
    (offset : Int64) (localTs : UInt64) (weight : D) :
    Tracks (linregUpdate s offset localTs weight)
      (recordedPoint s offset localTs weight :: history) :=
  (tracks_sampled h offset localTs weight).regress.same (updateSize_same _)

/-- A sample. -/
theorem tracks_linregSample {s : LinregServo D} {history : List (Point D)} (h : Tracks s history)
    (servo : ServoBase D) (offset : Int64) (localTs : UInt64) (weight : D) :
    Tracks (linregSample servo s offset localTs weight).2.2
      (recordedPoint s offset localTs weight :: history) := by
  have hupdate := tracks_linregUpdate h offset localTs weight
  have hsampled := linregSample_sampled servo s offset localTs weight
  generalize linregSample servo s offset localTs weight = result at hsampled ⊢
  cases hsampled with
  | waiting hsize => exact hupdate
  | stepped k ratio hsize =>
    exact (hupdate.same (stepped_same _ offset)).same (setFreq_same _ _ ratio)
  | followed k ratio hsize => exact hupdate.same (setFreq_same _ _ ratio)

theorem tracks_linregReset (s : LinregServo D) : Tracks (linregReset s) [] := by
  refine ⟨rfl, ?_, fun _ _ => ⟨rfl, rfl⟩⟩
  intro i hi
  cases hi

theorem tracks_init (cfg : ServoConfig D) : Tracks (linregServoCreate cfg) [] := by
  refine ⟨rfl, ?_, fun _ _ => ⟨rfl, rfl⟩⟩
  intro i hi
  cases hi

/-- **Every call keeps the invariant.** A sample stores its point and computes the lines of the
sizes that have enough of them; a reset empties the buffer; the others move the reference at most.
-/
theorem Tracks.step {t t' : Traced D} {call : LinregCall D} (h : Tracks t.servo t.history)
    (hstep : t.step call = .ok t') : Tracks t'.servo t'.history := by
  cases call with
  | sample servo offset localTs weight =>
    obtain rfl := Except.ok.inj hstep
    exact tracks_linregSample h servo offset localTs weight
  | syncInterval interval =>
    obtain rfl := Except.ok.inj hstep
    exact h.same ⟨rfl, rfl, rfl, fun _ => rfl, fun _ => rfl⟩
  | reset =>
    obtain rfl := Except.ok.inj hstep
    exact tracks_linregReset t.servo
  | leap leap =>
    obtain rfl := Except.ok.inj hstep
    refine h.same ?_
    simp only [linregLeap]
    split
    · exact ⟨rfl, rfl, rfl, fun _ => rfl, fun _ => rfl⟩
    · exact ⟨rfl, rfl, rfl, fun _ => rfl, fun _ => rfl⟩

/-! ## The sums of a regression -/

/-- Add a point to the sums. -/
def addPoint (reference : Point D) (sums : RegressSums D) (l : Point D) : RegressSums D :=
  let x : D := CDouble.ofInt (l.x - reference.x).toInt64.toInt
  let y : D := CDouble.ofInt (l.y - reference.y).toInt64.toInt
  { xSum := sums.xSum + x * l.w
    ySum := sums.ySum + y * l.w
    xySum := sums.xySum + x * y * l.w
    x2Sum := sums.x2Sum + x * x * l.w
    wSum := sums.wSum + l.w }

/-- **The sums of the `n` newest points** run over the `n` newest samples, in the order of the loop
of the source. This holds in any arithmetic, where a different order of the additions would give
another result. -/
theorem newestSums_eq {s : LinregServo D} {history : List (Point D)} (h : Tracks s history)
    {n : Nat} (hn : n ≤ history.length) (hmax : n ≤ MAX_POINTS) :
    newestSums s n = (history.take n).foldl (addPoint s.reference) RegressSums.zero := by
  induction n with
  | zero => rfl
  | succ n ih =>
    have hlt : n < history.length := hn
    have hpoint : s.points (newestIndex s n) = history[n] := h.newest n hlt hmax
    have hsums := ih hlt.le (Nat.le_of_succ_le hmax)
    rw [newestSums] at hsums
    rw [newestSums, List.range_succ, List.foldl_append, hsums,
      List.take_succ_eq_append_getElem hlt, List.foldl_append, ← hpoint]
    rfl

/-! ## Exact arithmetic -/

/-- A point in the coordinates of a regression: relative to the reference. -/
def relative (reference l : Point XRat) : Datum ℚ :=
  { x := (l.x - reference.x).toInt64.toInt
    y := (l.y - reference.y).toInt64.toInt
    w := l.w.value }

/-- The sums over weighted points. -/
def RegressSums.ofData (data : List (Datum ℚ)) : RegressSums XRat :=
  { xSum := fin (total Datum.x data)
    ySum := fin (total Datum.y data)
    xySum := fin (total (fun d => d.x * d.y) data)
    x2Sum := fin (total (fun d => d.x * d.x) data)
    wSum := fin (weight data) }

theorem addPoint_ofData (reference : Point XRat) (data : List (Datum ℚ)) {l : Point XRat}
    (hl : IsFin l.w) :
    addPoint reference (.ofData data) l = .ofData (data ++ [relative reference l]) := by
  obtain ⟨x, y, w⟩ := l
  obtain ⟨w, rfl⟩ := hl
  simp only [addPoint, RegressSums.ofData, weight, total_append, total_cons, total_nil, add_zero,
    relative, XRat.value, ofInt_eq, fin_mul, fin_add, mul_one]
  congr 2 <;> ring

/-- **The sums over rational points** are their weighted totals. -/
theorem foldl_addPoint (reference : Point XRat) {points : List (Point XRat)}
    (hpoints : ∀ l ∈ points, IsFin l.w) :
    points.foldl (addPoint reference) RegressSums.zero =
      .ofData (points.map (relative reference)) := by
  have hfold : ∀ (data : List (Datum ℚ)), points.foldl (addPoint reference) (.ofData data) =
      .ofData (data ++ points.map (relative reference)) := by
    induction points with
    | nil => simp
    | cons l points ih =>
      intro data
      obtain ⟨hl, hpoints⟩ := List.forall_mem_cons.mp hpoints
      rw [List.foldl_cons, addPoint_ofData reference data hl, ih hpoints]
      simp
  exact hfold []

theorem denominator_ofData {data : List (Datum ℚ)} (hweight : weight data ≠ 0) :
    (RegressSums.ofData data).denominator = fin (spread data) := by
  simp only [RegressSums.denominator, RegressSums.ofData, fin_mul, fin_div _ hweight, fin_sub]
  rfl

/-- **The line through rational points** is their regression line. The two divisors of the source
are the weight and the spread of the points, neither of which is zero here. -/
theorem fitLine_ofData {data : List (Datum ℚ)} (hweight : weight data ≠ 0)
    (hspread : spread data ≠ 0) (res : RegressResult XRat) :
    (fitLine (.ofData data) res).slope = fin (slope data) ∧
      (fitLine (.ofData data) res).intercept = fin (intercept data) := by
  have hslope : (fitLine (.ofData data) res).slope = fin (slope data) := by
    simp only [fitLine, denominator_ofData hweight]
    simp only [RegressSums.ofData, fin_mul, fin_div _ hweight, fin_sub, fin_div _ hspread]
    rfl
  refine ⟨hslope, ?_⟩
  change (_ - (fitLine (.ofData data) res).slope * _) / _ = _
  rw [hslope]
  simp only [RegressSums.ofData, fin_mul, fin_sub, fin_div _ hweight]
  rfl

/-- The points of a regression, relative to the reference: the newest samples. -/
def windowData (reference : Point XRat) (history : List (Point XRat)) (k : SizeIndex) :
    List (Datum ℚ) :=
  (history.take k.points).map (relative reference)

theorem newestSums_ofData {s : LinregServo XRat} {history : List (Point XRat)}
    (h : Tracks s history) (hweights : ∀ l ∈ history, IsFin l.w) {k : SizeIndex}
    (hk : k.points ≤ s.numPoints) :
    newestSums s k.points = .ofData (windowData s.reference history k) := by
  rw [h.numPoints] at hk
  rw [newestSums_eq h (hk.trans (Nat.min_le_left _ _)) (hk.trans (Nat.min_le_right _ _))]
  exact foldl_addPoint s.reference fun l hl => hweights l (List.mem_of_mem_take hl)

/-! ## The choice of the size -/

/-- A size that is chosen has a result with a slope, or a prediction error that is known. -/
theorem updateSize_size (s : LinregServo D) {k : SizeIndex} (hk : (updateSize s).size = some k) :
    CDouble.truthy (s.results k).slope = true ∨
      ERR_INITIAL_UPDATES ≤ (s.results k).errUpdates := by
  have hfold : ∀ (ks : List SizeIndex) (best : Option SizeIndex × D),
      (ks.foldl (fun best k => if betterSize best.1 best.2 (s.results k) then
        (some k, (s.results k).err) else best) best).1 = some k →
      best.1 = some k ∨ CDouble.truthy (s.results k).slope = true ∨
        ERR_INITIAL_UPDATES ≤ (s.results k).errUpdates := by
    intro ks
    induction ks with
    | nil =>
      intro best hbest
      exact .inl hbest
    | cons j ks ih =>
      intro best hbest
      rcases ih _ hbest with hhead | hresult
      · dsimp only at hhead
        split at hhead
        · next hbetter =>
          obtain rfl := Option.some.inj hhead
          rw [betterSize, Bool.or_eq_true, Bool.and_eq_true, Bool.and_eq_true,
            decide_eq_true_eq] at hbetter
          rcases hbetter with ⟨-, hslope⟩ | ⟨-, herr⟩
          · exact .inr (.inl hslope)
          · exact .inr (.inr herr)
        · exact .inl hhead
      · exact .inr hresult
  rcases hfold _ _ hk with hnone | hresult
  · cases hnone
  · exact hresult

/-- **A size that is chosen has enough points**, and so a line that this sample computed. A size
without enough of them has the slope zero and no errors, and the choice passes over it. -/
theorem size_le {s : LinregServo XRat} {history : List (Point XRat)} (h : Tracks s history)
    {k : SizeIndex} (hk : (updateSize s).size = some k) : k.points ≤ s.numPoints := by
  by_contra hfew
  obtain ⟨hslope, herr⟩ := h.stale k (Nat.lt_of_not_le hfew)
  rcases updateSize_size s hk with hresult | hresult
  · rw [hslope] at hresult
    simp at hresult
  · rw [herr] at hresult
    exact absurd hresult (by decide)

end ExternalServo
