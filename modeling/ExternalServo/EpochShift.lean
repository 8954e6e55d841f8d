import ExternalServo.MessageLoop
import ExternalServo.LinregFresh

/-!
# The epoch does not matter

All times that reach the program count nanoseconds from an epoch that it knows nothing about. Two
stations hear the same messages, with the times counted from different epochs: a freshly started
program makes the same adjustments of its clocks for both (`epoch_free`).

What is kept of a time stamp is shifted (`SameTime`, `SamePair`), everything else is equal:
intervals, delays, offsets, and all that the filters and the servos compute from them. A time that
is zero is no time, so no time may meet one of the epochs; for the regression servo this includes
the local time after a step (`AwayFromEpoch`).
-/

namespace ExternalServo

open CArith Runs

variable {D : Type} [CDouble D]

/-! ## Times -/

/-- The same time, counted from an epoch that is `c` nanoseconds earlier; after both epochs. A time
of zero stands for a missing one in the source, so times at or before an epoch are not the same in
both. -/
structure SameTime (c : Int) (x x' : Int64) : Prop where
  pos : 0 < x.toInt
  pos' : 0 < x'.toInt
  shift : x'.toInt = x.toInt + c

/-- The same for a time stamp of a clock. -/
def SameStamp (c : Int) (x x' : UInt64) : Prop := (x'.toNat : Int) = x.toNat + c

/-- Two measurements of a message: both were made, or none. The processor tests one of the two for
zero, and takes the difference of both, which the epoch does not change. -/
def SamePair (c : Int) (x y x' y' : Tmv) : Prop :=
  (x = tmvZero ∧ y = tmvZero ∧ x' = tmvZero ∧ y' = tmvZero) ∨
    (SameTime c x.ns x'.ns ∧ SameTime c y.ns y'.ns)

section Times

variable {c : Int}

theorem SameTime.ne_zero {x x' : Int64} (h : SameTime c x x') : x ≠ 0 ∧ x' ≠ 0 := by
  refine ⟨?_, ?_⟩
  · rintro rfl
    exact absurd h.pos (by decide)
  · rintro rfl
    exact absurd h.pos' (by decide)

/-- An interval does not depend on the epoch. -/
theorem SameTime.sub {x x' y y' : Int64} (hx : SameTime c x x') (hy : SameTime c y y') :
    x' - y' = x - y := by
  rw [← Int64.toInt_inj, Int64.toInt_sub, Int64.toInt_sub, hx.shift, hy.shift]
  congr 1
  omega

theorem toNat_toUInt64_of_pos {x : Int64} (h : 0 < x.toInt) :
    (x.toUInt64.toNat : Int) = x.toInt := by
  rw [Int64.toNat_toUInt64_of_le (Int64.le_iff_toInt_le.mpr (by simpa using h.le))]
  exact Int.toNat_of_nonneg h.le

theorem SameTime.toUInt64 {x x' : Int64} (h : SameTime c x x') :
    SameStamp c x.toUInt64 x'.toUInt64 ∧ x.toUInt64 ≠ 0 ∧ x'.toUInt64 ≠ 0 := by
  have hx := toNat_toUInt64_of_pos h.pos
  have hx' := toNat_toUInt64_of_pos h.pos'
  have hne : ∀ {z : UInt64}, 0 < (z.toNat : Int) → z ≠ 0 := by
    rintro z hz rfl
    exact absurd hz (by decide)
  refine ⟨?_, hne (hx.symm ▸ h.pos), hne (hx'.symm ▸ h.pos')⟩
  rw [SameStamp, hx, hx', h.shift]

/-- A stamp is shifted. -/
theorem SameStamp.eq_add {x x' : UInt64} (h : SameStamp c x x') : x' = x + UInt64.ofInt c := by
  have hc : (UInt64.ofInt c).toNat = (c % 2 ^ 64).toNat := by
    rw [UInt64.ofInt, UInt64.toNat_ofNat']
    omega
  have hx := x.toNat_lt
  have hx' := x'.toNat_lt
  rw [SameStamp] at h
  rw [← UInt64.toNat_inj, UInt64.toNat_add, hc]
  omega

theorem SameStamp.le_iff {x x' y y' : UInt64} (hx : SameStamp c x x') (hy : SameStamp c y y') :
    x' ≤ y' ↔ x ≤ y := by
  rw [SameStamp] at hx hy
  rw [UInt64.le_iff_toNat_le, UInt64.le_iff_toNat_le]
  omega

theorem add_sub_add_stamp (x y z : UInt64) : x + z - (y + z) = x - y := by grind

end Times

/-! ## The time stamp processor -/

/-- The processors differ only in the epoch of their measurements: all that is computed from
differences, the delays in the filter among them, is equal. -/
structure SameTsproc (c : Int) (tsp tsp' : Tsproc D) : Prop where
  mode : tsp'.mode = tsp.mode
  clockRateRatio : tsp'.clockRateRatio = tsp.clockRateRatio
  filteredDelay : tsp'.filteredDelay = tsp.filteredDelay
  filteredDelayValid : tsp'.filteredDelayValid = tsp.filteredDelayValid
  delayFilter : tsp'.delayFilter = tsp.delayFilter
  down : SamePair c tsp.t1 tsp.t2 tsp'.t1 tsp'.t2
  up : SamePair c tsp.t3 tsp.t4 tsp'.t3 tsp'.t4

section Tsproc

variable {c : Int} {tsp tsp' : Tsproc D}

theorem SamePair.isZero {x y x' y' : Tmv} (h : SamePair c x y x' y') :
    tmvIsZero x' = tmvIsZero x ∧ tmvIsZero y' = tmvIsZero y ∧ tmvIsZero x = tmvIsZero y := by
  rcases h with ⟨rfl, rfl, rfl, rfl⟩ | ⟨hx, hy⟩
  · exact ⟨rfl, rfl, rfl⟩
  · simp only [tmvIsZero, hx.ne_zero, hy.ne_zero, decide_false, and_self]

/-- Measurements that were made. -/
theorem SamePair.made {x y x' y' : Tmv} (h : SamePair c x y x' y') (hy : tmvIsZero y = false) :
    SameTime c x.ns x'.ns ∧ SameTime c y.ns y'.ns := by
  rcases h with ⟨-, rfl, -, -⟩ | h
  · exact absurd hy (by decide)
  · exact h

omit [CDouble D] in
theorem SameTsproc.downTs (h : SameTsproc c tsp tsp') {t1 t2 t1' t2' : Int64}
    (h1 : SameTime c t1 t1') (h2 : SameTime c t2 t2') :
    SameTsproc c (tsprocDownTs tsp ⟨t1⟩ ⟨t2⟩) (tsprocDownTs tsp' ⟨t1'⟩ ⟨t2'⟩) :=
  ⟨h.mode, h.clockRateRatio, h.filteredDelay, h.filteredDelayValid, h.delayFilter,
    .inr ⟨h1, h2⟩, h.up⟩

omit [CDouble D] in
theorem SameTsproc.upTs (h : SameTsproc c tsp tsp') {t3 t4 t3' t4' : Int64}
    (h3 : SameTime c t3 t3') (h4 : SameTime c t4 t4') :
    SameTsproc c (tsprocUpTs tsp ⟨t3⟩ ⟨t4⟩) (tsprocUpTs tsp' ⟨t3'⟩ ⟨t4'⟩) :=
  ⟨h.mode, h.clockRateRatio, h.filteredDelay, h.filteredDelayValid, h.delayFilter, h.down,
    .inr ⟨h3, h4⟩⟩

/-- The raw delay does not depend on the epoch. -/
theorem SameTsproc.rawDelay (h : SameTsproc c tsp tsp') (h2 : tmvIsZero tsp.t2 = false)
    (h3 : tmvIsZero tsp.t3 = false) : getRawDelay tsp' = getRawDelay tsp := by
  obtain ⟨ht1, ht2⟩ := h.down.made h2
  obtain ⟨ht3, ht4⟩ := h.up.made (h.up.isZero.2.2 ▸ h3)
  have h23 : tmvSub tsp'.t2 tsp'.t3 = tmvSub tsp.t2 tsp.t3 := congrArg Tmv.mk (ht2.sub ht3)
  have h41 : tmvSub tsp'.t4 tsp'.t1 = tmvSub tsp.t4 tsp.t1 := congrArg Tmv.mk (ht4.sub ht1)
  rw [getRawDelay, getRawDelay, h.clockRateRatio, h23, h41]

/-- The delay is updated alike: the tests for zero agree, the raw delay is a sum of differences, and
the filters are the same. -/
theorem SameTsproc.updateDelay (h : SameTsproc c tsp tsp') :
    Related (fun r r' => SameTsproc c r.2 r'.2) (tsprocUpdateDelay tsp)
      (tsprocUpdateDelay tsp') := by
  by_cases hzero : (tmvIsZero tsp.t2 || tmvIsZero tsp.t3) = true
  · have hzero' : (tmvIsZero tsp'.t2 || tmvIsZero tsp'.t3) = true := by
      rw [h.down.isZero.2.1, h.up.isZero.1]
      exact hzero
    rw [tsprocUpdateDelay, tsprocUpdateDelay, if_pos hzero, if_pos hzero']
    exact h
  · have hzero' : ¬ (tmvIsZero tsp'.t2 || tmvIsZero tsp'.t3) = true := by
      rw [h.down.isZero.2.1, h.up.isZero.1]
      exact hzero
    have hmade := hzero
    rw [Bool.or_eq_true, not_or, Bool.not_eq_true, Bool.not_eq_true] at hmade
    have hraw := h.rawDelay hmade.1 hmade.2
    cases hsample : filterSample tsp.delayFilter (getRawDelay tsp) with
    | error e =>
      have hsample' : filterSample tsp'.delayFilter (getRawDelay tsp') = .error e := by
        rw [h.delayFilter, hraw]
        exact hsample
      rw [tsprocUpdateDelay, tsprocUpdateDelay, if_neg hzero, if_neg hzero']
      simp only [hsample, hsample', bind, Except.bind]
      exact rfl
    | ok r =>
      obtain ⟨filtered, filter⟩ := r
      have hsample' :
          filterSample tsp'.delayFilter (getRawDelay tsp') = .ok (filtered, filter) := by
        rw [h.delayFilter, hraw]
        exact hsample
      rw [tsprocUpdateDelay_of_sample hzero hsample, tsprocUpdateDelay_of_sample hzero' hsample']
      exact ⟨h.mode, h.clockRateRatio, rfl, rfl, rfl, h.down, h.up⟩

/-- The offset and the weight do not depend on the epoch. In each mode the delay is the filtered one
or a raw one, and the weight a quotient of the two. -/
theorem SameTsproc.updateOffset (h : SameTsproc c tsp tsp') :
    tsprocUpdateOffset tsp' = tsprocUpdateOffset tsp := by
  obtain ⟨hz1, hz2, -⟩ := h.down.isZero
  obtain ⟨hz3, -, -⟩ := h.up.isZero
  rw [tsprocUpdateOffset, tsprocUpdateOffset, hz1, hz2]
  split
  · rfl
  · next hzero =>
    rw [Bool.or_eq_true, not_or, Bool.not_eq_true, Bool.not_eq_true] at hzero
    obtain ⟨ht1, ht2⟩ := h.down.made hzero.2
    have hraw := h.rawDelay hzero.2
    have hdelay : offsetDelay tsp' = offsetDelay tsp := by
      rw [offsetDelay, offsetDelay, h.mode, hz3, h.filteredDelay, h.filteredDelayValid]
      cases tsp.mode with
      | filter => rfl
      | raw | rawWeight | filterWeight =>
        cases h3 : tmvIsZero tsp.t3 with
        | true => rfl
        | false => simp only [hraw h3]
    have h21 : tmvSub tsp'.t2 tsp'.t1 = tmvSub tsp.t2 tsp.t1 := congrArg Tmv.mk (ht2.sub ht1)
    have hweight : ∀ rawDelay, offsetWeight tsp' rawDelay = offsetWeight tsp rawDelay := by
      intro rawDelay
      rw [offsetWeight, offsetWeight, weighting, weighting, h.mode, h.filteredDelay]
    simp only [hdelay, h21, hweight]

omit [CDouble D] in
/-- After a step of the clock both have no measurements. -/
theorem SameTsproc.afterSample (h : SameTsproc c tsp tsp') (clockRateRatio : D)
    (state : ServoState) :
    SameTsproc c (afterSample tsp clockRateRatio state)
      (afterSample tsp' clockRateRatio state) := by
  simp only [ExternalServo.afterSample]
  split
  · exact ⟨h.mode, rfl, h.filteredDelay, h.filteredDelayValid, h.delayFilter,
      .inl ⟨rfl, rfl, rfl, rfl⟩, .inl ⟨rfl, rfl, rfl, rfl⟩⟩
  · exact ⟨h.mode, rfl, h.filteredDelay, h.filteredDelayValid, h.delayFilter, h.down, h.up⟩

end Tsproc

/-! ## The servos -/

/-- The PI servos differ only in the epoch of an acquisition. What the fields `local` hold outside
of an acquisition is not read before it is written, so nothing is asked of it. -/
structure SamePi (c : Int) (s s' : PiServo D) : Prop where
  frame : s' = { s with local0 := s'.local0, local1 := s'.local1 }
  stamp : s.count = 1 → SameStamp c s.local0 s'.local0

/-- The regression servos differ only in the epoch of the last update, which the points of the
regression are relative to. An update of zero stands for none, in both or in neither. -/
structure SameLinreg (c : Int) (s s' : LinregServo D) : Prop where
  frame : s' = { s with lastUpdate := s'.lastUpdate }
  update : s.lastUpdate = 0 ∧ s'.lastUpdate = 0 ∨
    s.lastUpdate ≠ 0 ∧ s'.lastUpdate ≠ 0 ∧ s'.lastUpdate = s.lastUpdate + UInt64.ofInt c

/-- The servos differ only in an epoch; a shared memory servo reports it, and does nothing else. -/
def SameInner (c : Int) : Inner D → Inner D → Prop
  | .pi s, .pi s' => SamePi c s s'
  | .linreg s, .linreg s' => SameLinreg c s s'
  | .ntpshm _, .ntpshm _ => True
  | _, _ => False

/-- Results of a sample that differ only in an epoch. -/
def SameSampled {σ : Type} (R : σ → σ → Prop) (result result' : D × ServoState × σ) : Prop :=
  result'.1 = result.1 ∧ result'.2.1 = result.2.1 ∧ R result.2.2 result'.2.2

/-- **A sample of the PI servo.** It subtracts local times from each other and compares them, and
never looks at one alone; the differences and the order are the same in both epochs. -/
theorem SamePi.sample {c : Int} {s s' : PiServo D} (h : SamePi c s s') (servo : ServoBase D)
    (offset : Int64) {localTs localTs' : UInt64} (hlocal : SameStamp c localTs localTs')
    (weight : D) :
    SameSampled (SamePi c) (piSample servo s offset localTs weight)
      (piSample servo s' offset localTs' weight) := by
  obtain ⟨hframe, hstamp⟩ := h
  rw [hframe]
  rcases s with ⟨offset0, offset1, local0, local1, drift, kp, ki, lastFreq, count, a, b, d, e, f, g,
    i, j⟩
  have hcount : ∀ n : Fin 3, n = 0 ∨ n = 1 ∨ n = 2 := by decide
  have hzero : (0 : Fin 3) ≠ 1 := by decide
  have htwo : (2 : Fin 3) ≠ 1 := by decide
  rcases hcount count with rfl | rfl | rfl
  · exact ⟨rfl, rfl, rfl, fun _ => hlocal⟩
  · -- the acquisition compares and subtracts stamps
    have hstamp := hstamp rfl
    have hle := hlocal.le_iff hstamp
    have hsub : localTs' - s'.local0 = localTs - local0 := by
      rw [hlocal.eq_add, hstamp.eq_add, add_sub_add_stamp]
    simp only [piSample, localDiff, measuredDrift, freqEstInterval, hle, hsub]
    generalize (if CDouble.lt (CDouble.lit 1000) (CDouble.lit 0.016 / ki) = true then _ else _) =
      interval
    split_ifs
    · exact ⟨rfl, rfl, rfl, fun hone => absurd hone hzero⟩
    · exact ⟨rfl, rfl, rfl, fun _ => hstamp⟩
    · exact ⟨rfl, rfl, rfl, fun hone => absurd hone htwo⟩
    · exact ⟨rfl, rfl, rfl, fun hone => absurd hone htwo⟩
  · simp only [piSample]
    split_ifs
    · exact ⟨rfl, rfl, rfl, fun hone => absurd hone hzero⟩
    · exact ⟨rfl, rfl, rfl, fun hone => absurd hone htwo⟩
    · exact ⟨rfl, rfl, rfl, fun hone => absurd hone htwo⟩
    · exact ⟨rfl, rfl, rfl, fun hone => absurd hone htwo⟩

/-- The point, the lines and the size do not depend on the time of the last update. -/
theorem linregUpdate_same {c : Int} {s s' : LinregServo D} (h : SameLinreg c s s')
    (offset : Int64) {localTs localTs' : UInt64} (hlocal : SameStamp c localTs localTs')
    (weight : D) :
    linregUpdate s' offset localTs' weight =
      { linregUpdate s offset localTs weight with lastUpdate := localTs' } := by
  obtain ⟨hframe, hupdate⟩ := h
  have hreference : updateReference s' localTs' =
      { updateReference s localTs with lastUpdate := localTs' } := by
    rw [hframe]
    rcases hupdate with ⟨hzero, hzero'⟩ | ⟨hne, hne', hadd⟩
    · simp only [updateReference, hzero, hzero', ne_eq, not_true_eq_false, if_false]
    · have hsub : localTs' - s'.lastUpdate = localTs - s.lastUpdate := by
        rw [hlocal.eq_add, hadd, add_sub_add_stamp]
      simp only [updateReference, ne_eq, hne, hne', not_false_eq_true, if_true, hsub]
      rfl
  have hregress : ∀ (t : LinregServo D) (u : UInt64),
      regress { t with lastUpdate := u } = { regress t with lastUpdate := u } := by
    intro t u
    rw [regress_eq, regress_eq]
    rfl
  rw [linregUpdate, linregUpdate, hreference]
  change updateSize (regress { addSample (updateReference s localTs) offset weight with
    lastUpdate := localTs' }) = _
  rw [hregress]
  rfl

/-- **A sample of the regression servo.** It computes in unsigned words, in which the shift is an
addition even where it wraps around. The one test of a local time alone is that for zero, which is
why neither the stamp nor, after a step, the stamp less the offset may be an epoch. -/
theorem SameLinreg.sample {c : Int} {s s' : LinregServo D} (h : SameLinreg c s s')
    (servo : ServoBase D) {offset : Int64} {localTs localTs' : UInt64}
    (hlocal : SameStamp c localTs localTs') (hne : localTs ≠ 0) (hne' : localTs' ≠ 0)
    (haway : localTs - offset.toUInt64 ≠ 0 ∧ localTs' - offset.toUInt64 ≠ 0) (weight : D) :
    SameSampled (SameLinreg c) (linregSample servo s offset localTs weight)
      (linregSample servo s' offset localTs' weight) := by
  have hupdate := linregUpdate_same h offset hlocal weight
  have hlast : (linregUpdate s offset localTs weight).lastUpdate = localTs := by
    rw [linregUpdate, regress_eq]
    rfl
  have hadd : localTs' = localTs + UInt64.ofInt c := hlocal.eq_add
  cases hk : (linregUpdate s offset localTs weight).size with
  | none =>
    have hk' : (linregUpdate s' offset localTs' weight).size = none := by
      rw [hupdate]
      exact hk
    rw [linregSample_none servo hk, linregSample_none servo hk', hupdate]
    exact ⟨rfl, rfl, rfl, .inr ⟨by rwa [hlast], hne', by rw [hlast]; exact hadd⟩⟩
  | some k =>
    have hk' : (linregUpdate s' offset localTs' weight).size = some k := by
      rw [hupdate]
      exact hk
    rw [linregSample_some servo hk, linregSample_some servo hk', hupdate]
    generalize linregUpdate s offset localTs weight = t at hlast ⊢
    dsimp only
    split
    · refine ⟨rfl, rfl, rfl, .inr ⟨?_, haway.2, ?_⟩⟩
      · change t.lastUpdate - _ ≠ 0
        rw [hlast]
        exact haway.1
      · change localTs' - _ = t.lastUpdate - _ + _
        rw [hlast, hadd]
        grind
    · refine ⟨rfl, rfl, rfl, .inr ⟨?_, hne', ?_⟩⟩
      · change t.lastUpdate ≠ 0
        rwa [hlast]
      · change localTs' = t.lastUpdate + _
        rw [hlast, hadd]

/-! ## The station -/

/-- The calls are the same, but for the epoch of their times. -/
inductive SameCall (c : Int) : Option Handler → Option Handler → Prop where
  | none : SameCall c none none
  | clockUpdate {t1 t2 t1' t2' : Int64} (h1 : SameTime c t1 t1') (h2 : SameTime c t2 t2') :
    SameCall c (some (.clockUpdate t1 t2)) (some (.clockUpdate t1' t2'))
  | pathDelay {t3 t4 t3' t4' : Int64} (h3 : SameTime c t3 t3') (h4 : SameTime c t4 t4') :
    SameCall c (some (.pathDelay t3 t4)) (some (.pathDelay t3' t4'))

/-- The systems differ only in the epoch, and made the same adjustments. The adjustments are
offsets, frequencies and leap flags, none of which depends on the epoch. -/
structure SameSys (c : Int) (sys sys' : Sys D (Inner D)) : Prop where
  tsp : SameTsproc c sys.tsp sys'.tsp
  base : sys'.servo.base = sys.servo.base
  inner : SameInner c sys.servo.inner sys'.servo.inner
  calls : sys'.calls = sys.calls

/-- The stations differ only in the epoch. -/
structure SameStation (c : Int) (station station' : Station D (Inner D)) : Prop where
  last : SameCall c station.last station'.last
  sys : SameSys c station.sys station'.sys

/-- If the regression servo steps its clock by the offset of a sample, the local time afterwards is
neither epoch. A run that meets one would take the reference of its points for missing, and this
only in one of the epochs. -/
def StepsAway (c : Int) (sys : Sys D (Inner D)) : Option Handler → Prop
  | some (.clockUpdate t1 t2) =>
    match sys.servo.inner, tsprocUpdateOffset (tsprocDownTs sys.tsp ⟨t1⟩ ⟨t2⟩) with
    | .linreg _, some (offset, _) =>
      t2.toUInt64 - offset.ns.toUInt64 ≠ 0 ∧
        t2.toUInt64 + UInt64.ofInt c - offset.ns.toUInt64 ≠ 0
    | _, _ => True
  | _ => True

instance decidableStepsAway (c : Int) (sys : Sys D (Inner D)) (h : Option Handler) :
    Decidable (StepsAway c sys h) := by
  unfold StepsAway
  split
  · split <;> infer_instance
  · infer_instance

/-- The call after a message meets no epoch. -/
def AwayFromEpoch (c : Int) (station : Station D (Inner D)) (message : Message) : Prop :=
  StepsAway c station.sys (message.heard station.last)

instance decidableAwayFromEpoch (c : Int) (station : Station D (Inner D)) (message : Message) :
    Decidable (AwayFromEpoch c station message) :=
  inferInstanceAs (Decidable (StepsAway _ _ _))

section Station

variable {c : Int} {sys sys' : Sys D (Inner D)}

/-- A sample of any servo. -/
theorem SameInner.sample {inner inner' : Inner D} (h : SameInner c inner inner')
    (pow : D → D → D) (servo : ServoBase D) {offset : Int64} {localTs localTs' : UInt64}
    (hlocal : SameStamp c localTs localTs') (hne : localTs ≠ 0) (hne' : localTs' ≠ 0)
    (haway : ∀ s, inner = .linreg s →
      localTs - offset.toUInt64 ≠ 0 ∧ localTs' - offset.toUInt64 ≠ 0) (weight : D) :
    SameSampled (SameInner c) ((servoOps pow).sample servo inner offset localTs weight)
      ((servoOps pow).sample servo inner' offset localTs' weight) := by
  cases inner with
  | pi s =>
    cases inner' with
    | pi s' => exact SamePi.sample h servo offset hlocal weight
    | linreg s' | ntpshm s' => exact h.elim
  | linreg s =>
    cases inner' with
    | linreg s' => exact SameLinreg.sample h servo hlocal hne hne' (haway s rfl) weight
    | pi s' | ntpshm s' => exact h.elim
  | ntpshm s =>
    cases inner' with
    | ntpshm s' => exact ⟨rfl, rfl, trivial⟩
    | pi s' | linreg s' => exact h.elim

/-- The ratio that a servo reports. -/
theorem SameInner.rateRatio {servo servo' : Servo D (Inner D)}
    (h : SameInner c servo.inner servo'.inner) (pow : D → D → D) :
    servoRateRatio (servoOps pow) servo' = servoRateRatio (servoOps pow) servo := by
  rcases servo with ⟨base, inner⟩
  rcases servo' with ⟨base', inner'⟩
  cases inner with
  | pi s =>
    cases inner' with
    | pi s' => rfl
    | linreg s' | ntpshm s' => exact h.elim
  | linreg s =>
    cases inner' with
    | linreg s' =>
      have hratio : s'.frequencyRatio = s.frequencyRatio := congrArg (·.frequencyRatio) h.frame
      exact hratio
    | pi s' | ntpshm s' => exact h.elim
  | ntpshm s =>
    cases inner' with
    | ntpshm s' => rfl
    | pi s' | linreg s' => exact h.elim

/-- **A sync message.** The samples are the same, with local times in two epochs; so are the answers
of the servos, and with them the adjustments and the rate ratios. -/
theorem SameSys.clockUpdate (h : SameSys c sys sys') (pow : D → D → D) (dev : DeviceConfig)
    {t1 t2 t1' t2' : Int64} (h1 : SameTime c t1 t1') (h2 : SameTime c t2 t2')
    (haway : StepsAway c sys (some (.clockUpdate t1 t2))) :
    Related (SameSys c) (clockUpdate (servoOps pow) dev sys t1 t2)
      (clockUpdate (servoOps pow) dev sys' t1' t2') := by
  have hdown := h.tsp.downTs h1 h2
  cases hoffset : tsprocUpdateOffset (tsprocDownTs sys.tsp ⟨t1⟩ ⟨t2⟩) with
  | none =>
    rw [clockUpdate_of_none hoffset, clockUpdate_of_none (hdown.updateOffset.trans hoffset)]
    exact ⟨hdown, h.base, h.inner, h.calls⟩
  | some sample =>
    obtain ⟨masterOffset, weight⟩ := sample
    obtain ⟨hlocal, hne, hne'⟩ := h2.toUInt64
    have hsteps : ∀ s, sys.servo.inner = .linreg s →
        t2.toUInt64 - masterOffset.ns.toUInt64 ≠ 0 ∧
          t2'.toUInt64 - masterOffset.ns.toUInt64 ≠ 0 := by
      intro s hs
      simp only [StepsAway, hs, hoffset] at haway
      rwa [← hlocal.eq_add] at haway
    have hsampled := h.inner.sample pow sys.servo.base hlocal hne hne' hsteps weight
    rcases hresult : (servoOps pow).sample sys.servo.base sys.servo.inner masterOffset.ns
      t2.toUInt64 weight with ⟨r, state, inner⟩
    rcases hresult' : (servoOps pow).sample sys'.servo.base sys'.servo.inner masterOffset.ns
      t2'.toUInt64 weight with ⟨r', state', inner'⟩
    rw [h.base] at hresult'
    rw [hresult, hresult'] at hsampled
    obtain ⟨hr, hstate, hinner⟩ := hsampled
    obtain rfl : r' = r := hr
    obtain rfl : state' = state := hstate
    rw [← h.base] at hresult'
    have hratio : servoRateRatio (servoOps pow)
          ⟨baseAfter sys'.servo.base masterOffset.ns state', inner'⟩ =
        servoRateRatio (servoOps pow) ⟨baseAfter sys.servo.base masterOffset.ns state', inner⟩ :=
      SameInner.rateRatio (c := c) hinner pow
    rw [clockUpdate_of_some hoffset (servoSample_eq _ _ _ _ _ hresult),
      clockUpdate_of_some (hdown.updateOffset.trans hoffset) (servoSample_eq _ _ _ _ _ hresult'),
      hratio, h.calls, h.base]
    exact ⟨hdown.afterSample _ _, rfl, hinner, rfl⟩

/-- **A delay message.** -/
theorem SameSys.pathDelay (h : SameSys c sys sys') {t3 t4 t3' t4' : Int64}
    (h3 : SameTime c t3 t3') (h4 : SameTime c t4 t4') :
    Related (SameSys c) (pathDelay sys t3 t4) (pathDelay sys' t3' t4') := by
  refine (h.tsp.upTs h3 h4).updateDelay.bind ?_
  intro r r' htsp
  exact ⟨htsp, h.base, h.inner, h.calls⟩

/-- A call leaves the systems the same. -/
theorem SameSys.effect (h : SameSys c sys sys') (pow : D → D → D) (dev : DeviceConfig)
    {last last' : Option Handler} (hlast : SameCall c last last')
    (haway : StepsAway c sys last) :
    Related (SameSys c) (effect (servoOps pow) dev sys last)
      (effect (servoOps pow) dev sys' last') := by
  cases hlast with
  | none => exact h
  | clockUpdate h1 h2 => exact h.clockUpdate pow dev h1 h2 haway
  | pathDelay h3 h4 => exact h.pathDelay h3 h4

end Station

/-! ## Messages -/

/-- A time that is after both epochs, and can be counted from either in a signed word of 64 bits. -/
def Countable (c t : Int) : Prop :=
  0 < t ∧ 0 < t + c ∧ t < 2 ^ 63 ∧ t + c < 2 ^ 63

instance decidableCountable (c t : Int) : Decidable (Countable c t) :=
  inferInstanceAs (Decidable (_ ∧ _))

/-- The times of a message can be counted from either epoch. -/
def Message.Countable (c : Int) : Message → Prop
  | sync masterTime slaveTime =>
    ExternalServo.Countable c masterTime ∧ ExternalServo.Countable c slaveTime
  | delay slaveTime masterTime =>
    ExternalServo.Countable c slaveTime ∧ ExternalServo.Countable c masterTime
  | otherSignal | general => True

instance Message.decidableCountable (c : Int) : DecidablePred (Message.Countable c)
  | sync _ _ | delay _ _ => inferInstanceAs (Decidable (_ ∧ _))
  | otherSignal | general => isTrue trivial

/-- The message, with its times counted from an epoch that is `c` nanoseconds earlier. -/
def Message.shift (c : Int) : Message → Message
  | sync masterTime slaveTime => sync (masterTime + c) (slaveTime + c)
  | delay slaveTime masterTime => delay (slaveTime + c) (masterTime + c)
  | otherSignal => otherSignal
  | general => general

theorem Countable.sameTime {c t : Int} (h : Countable c t) :
    SameTime c (Int64.ofInt t) (Int64.ofInt (t + c)) := by
  obtain ⟨hpos, hpos', hlt, hlt'⟩ := h
  have ht : (Int64.ofInt t).toInt = t := Int64.toInt_ofInt_of_le (by omega) hlt
  have ht' : (Int64.ofInt (t + c)).toInt = t + c := Int64.toInt_ofInt_of_le (by omega) hlt'
  exact ⟨by rwa [ht], by rwa [ht'], by rw [ht, ht']⟩

/-- The call that is due is the same. -/
theorem SameCall.heard {c : Int} {last last' : Option Handler} (h : SameCall c last last')
    {message : Message} (hcount : message.Countable c) :
    SameCall c (message.heard last) ((message.shift c).heard last') := by
  cases message with
  | sync masterTime slaveTime => exact .clockUpdate hcount.1.sameTime hcount.2.sameTime
  | delay slaveTime masterTime => exact .pathDelay hcount.1.sameTime hcount.2.sameTime
  | otherSignal => exact .none
  | general => exact h

/-- **A message**, heard with either epoch: the handler that is due after it is the same one with
shifted times, and running it keeps the systems alike. -/
theorem SameStation.step {c : Int} {station station' : Station D (Inner D)}
    (h : SameStation c station station') (pow : D → D → D) (dev : DeviceConfig)
    {message : Message} (hcount : message.Countable c) (haway : AwayFromEpoch c station message) :
    Related (SameStation c) (messageStep (servoOps pow) dev station message)
      (messageStep (servoOps pow) dev station' (message.shift c)) := by
  have hlast := h.last.heard hcount
  refine (h.sys.effect pow dev hlast haway).bind ?_
  intro sys sys' hsys
  exact ⟨hlast, hsys⟩

/-! ## The program -/

/-- A system that was just started is the same with any epoch: it has no measurements, no
acquisition and no last update. -/
theorem sameSys_startup {pow : D → D → D} {host : Host} {globals : Globals D}
    {program : Program D} (h : startup pow host globals = some program) (c : Int) :
    SameSys c program.sys program.sys := by
  unfold startup at h
  simp only [Option.bind_eq_bind, Option.bind_eq_some_iff, Option.pure_def, Option.some.injEq]
    at h
  obtain ⟨_, -, dev, -, tsp, htsp, limit, -, fadj, -, servo, hservo, rfl⟩ := h
  obtain ⟨-, -, htsp⟩ := tsprocCreate_eq_some htsp
  refine ⟨?_, rfl, ?_, rfl⟩
  · dsimp only
    rw [htsp]
    exact ⟨rfl, rfl, rfl, rfl, rfl, .inl ⟨rfl, rfl, rfl, rfl⟩, .inl ⟨rfl, rfl, rfl, rfl⟩⟩
  · obtain ⟨servo₀, hcreate, rfl⟩ := Option.map_eq_some_iff.mp hservo
    obtain ⟨inner, hinner, rfl⟩ := Option.map_eq_some_iff.mp hcreate
    split_ifs at hinner
    · obtain rfl := Option.some.inj hinner
      refine ⟨rfl, ?_⟩
      intro hone
      have hcount : (piServoCreate (D := D) _).count = 1 := hone
      rw [piServoCreate_count] at hcount
      exact absurd hcount (by decide)
    · obtain rfl := Option.some.inj hinner
      exact ⟨rfl, .inl ⟨rfl, rfl⟩⟩
    · obtain ⟨s, -, rfl⟩ := Option.map_eq_some_iff.mp hinner
      exact trivial

/-- **The epoch does not matter.** A program was just started, with any servo, filter and mode. Two
receive loops of it hear the same messages, with all times counted from different epochs: they
fault alike or make the same adjustments of the clocks, in the same order. -/
theorem epoch_free {pow : D → D → D} {host : Host} {globals : Globals D} {program : Program D}
    (hstart : startup pow host globals = some program) (c : Int) {locals locals' : Locals}
    (hlast : handlerOf locals.vars = none) (hlast' : handlerOf locals'.vars = none)
    {events events' : List Event} (hlegible : ∀ event ∈ events, Legible event)
    (hlegible' : ∀ event ∈ events', Legible event)
    (hshift : messages events' = (messages events).map (Message.shift c))
    (hcount : ∀ message ∈ messages events, message.Countable c)
    (haway : Always (messageStep (servoOps pow) program.device) (AwayFromEpoch c)
      ⟨none, program.sys⟩ (messages events)) :
    (events'.foldlM (loopStep (servoOps pow) program.device) ⟨locals', program.sys⟩).map
        (fun loop => loop.sys.calls) =
      (events.foldlM (loopStep (servoOps pow) program.device) ⟨locals, program.sys⟩).map
        (fun loop => loop.sys.calls) := by
  have hstations : ∀ (locals : Locals) (events : List Event), handlerOf locals.vars = none →
      (∀ event ∈ events, Legible event) →
      (events.foldlM (loopStep (servoOps pow) program.device) ⟨locals, program.sys⟩).map
          (fun loop => loop.sys.calls) =
        ((messages events).foldlM (messageStep (servoOps pow) program.device)
          ⟨none, program.sys⟩).map (fun station => station.sys.calls) := by
    intro locals events hlast hlegible
    have hrefines := loop_refines (servoOps pow) program.device ⟨locals, program.sys⟩ hlegible
    rw [Loop.station, hlast] at hrefines
    rw [← hrefines]
    cases events.foldlM (loopStep (servoOps pow) program.device) ⟨locals, program.sys⟩ with
    | error e => rfl
    | ok loop => rfl
  rw [hstations _ _ hlast hlegible, hstations _ _ hlast' hlegible', hshift, List.foldlM_map]
  have hsame : SameStation c (⟨none, program.sys⟩ : Station D (Inner D)) ⟨none, program.sys⟩ :=
    ⟨.none, sameSys_startup hstart c⟩
  have hrun : Related (SameStation c)
      ((messages events).foldlM (messageStep (servoOps pow) program.device) ⟨none, program.sys⟩)
      ((messages events).foldlM (fun station message =>
        messageStep (servoOps pow) program.device station (message.shift c))
          ⟨none, program.sys⟩) := by
    refine Related.run_always ?_ hsame (haway.and (always_of_mem hcount _))
    rintro station station' message h ⟨haway, hcount⟩
    exact h.step pow program.device hcount haway
  exact (hrun.map_eq fun _ _ h => h.sys.calls.symm).symm

/-- A slave that is a second ahead of its master, in the fifth second of an epoch. -/
def aheadEvents (second : UInt8) : List Event :=
  [syncAt second (second + 2), delayAt (second + 2) (second + 2),
    syncAt (second + 3) (second + 5), syncAt (second + 4) (second + 6)]

/-- The same slave, counted from a minute earlier. -/
theorem epoch_free_minute :
    ∃ program ∈ sampleProgram,
      ((aheadEvents 65).foldlM (loopStep (servoOps powOne) program.device)
          ⟨zeroLocals, program.sys⟩).map (fun loop => loop.sys.calls) =
        ((aheadEvents 5).foldlM (loopStep (servoOps powOne) program.device)
          ⟨zeroLocals, program.sys⟩).map (fun loop => loop.sys.calls) := by
  have h : ∃ globals ∈ sampleGlobals, ∃ program ∈ startup powOne sampleHost globals,
      Always (messageStep (servoOps powOne) program.device) (AwayFromEpoch 60000000000)
        ⟨none, program.sys⟩ (messages (aheadEvents 5)) := by
    decide +kernel
  obtain ⟨globals, hglobals, program, hprogram, haway⟩ := h
  refine ⟨program, Option.bind_eq_some_iff.mpr ⟨globals, hglobals, hprogram⟩, ?_⟩
  have hlegible : ∀ second ∈ [5, 65], ∀ event ∈ aheadEvents second, Legible event := by
    simp only [aheadEvents, List.forall_mem_cons]
    decide +kernel
  refine epoch_free hprogram 60000000000 rfl rfl (hlegible 5 ?_) (hlegible 65 ?_) ?_ ?_ haway
  · decide
  · decide
  · decide +kernel
  · decide +kernel

end ExternalServo
