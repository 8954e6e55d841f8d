import ExternalServo.Filter

/-!
# The time stamp processor (`tsproc.c`)

A `Tsproc` keeps the latest timestamps of a message in each direction and turns them
into a path delay and an offset. A zero timestamp stands for a measurement that has
not been made. The two updates return `none` when a measurement is missing (the
source returns -1); only the delay update touches the filter.
-/

namespace ExternalServo

open CArith

/-- `enum tsproc_mode`. -/
inductive TsprocMode : Type where
  /-- `TSPROC_FILTER` -/
  | filter : TsprocMode
  /-- `TSPROC_RAW` -/
  | raw : TsprocMode
  /-- `TSPROC_FILTER_WEIGHT` -/
  | filterWeight : TsprocMode
  /-- `TSPROC_RAW_WEIGHT` -/
  | rawWeight : TsprocMode
  deriving DecidableEq

/-- The mode with a given number; an `enum` can hold others. -/
def TsprocMode.ofRaw (raw : UInt32) : Option TsprocMode :=
  if raw = 0 then some .filter else if raw = 1 then some .raw
  else if raw = 2 then some .filterWeight else if raw = 3 then some .rawWeight else none

/-- `struct tsproc`. Zero stands for a time stamp that was not measured, so that a measurement of
zero is missing as well; the filtered delay has a flag of its own. -/
structure Tsproc (D : Type) where
  /-- processing options -/
  mode : TsprocMode
  /-- current ratio between remote and local clock frequency -/
  clockRateRatio : D
  /-- latest down measurement, remote -/
  t1 : Tmv
  /-- latest down measurement, local -/
  t2 : Tmv
  /-- latest up measurement, local -/
  t3 : Tmv
  /-- latest up measurement, remote -/
  t4 : Tmv
  /-- current filtered delay -/
  filteredDelay : Tmv
  /-- there is a filtered delay -/
  filteredDelayValid : Bool
  /-- delay filter -/
  delayFilter : Filter

variable {D : Type} [CDouble D]

/-- `weighting` -/
def weighting (tsp : Tsproc D) : Bool :=
  match tsp.mode with
  | .filter | .raw => false
  | .filterWeight | .rawWeight => true

/-- Bytes of a `struct tsproc`. -/
def sizeofTsproc : Nat := 72

/-- `tsproc_create` -/
def tsprocCreate (grants : Nat → Bool) (mode delayFilter : UInt32) (filterLength : Int) :
    Option (Tsproc D) :=
  if !calloc grants sizeofTsproc then none
  else
    match TsprocMode.ofRaw mode with
    | none => none
    | some mode =>
      match filterCreate grants delayFilter filterLength with
      | none => none
      | some delayFilter => some
        { mode, clockRateRatio := CDouble.lit 1, t1 := tmvZero, t2 := tmvZero, t3 := tmvZero,
          t4 := tmvZero, filteredDelay := tmvZero, filteredDelayValid := false, delayFilter }

/-- `tsproc_down_ts` -/
def tsprocDownTs (tsp : Tsproc D) (remoteTs localTs : Tmv) : Tsproc D :=
  { tsp with t1 := remoteTs, t2 := localTs }

/-- `tsproc_up_ts` -/
def tsprocUpTs (tsp : Tsproc D) (localTs remoteTs : Tmv) : Tsproc D :=
  { tsp with t3 := localTs, t4 := remoteTs }

/-- `tsproc_set_clock_rate_ratio` -/
def tsprocSetClockRateRatio (tsp : Tsproc D) (clockRateRatio : D) : Tsproc D :=
  { tsp with clockRateRatio }

/-- `get_raw_delay`: `((t2 - t3) * rr + (t4 - t1)) / 2` -/
def getRawDelay (tsp : Tsproc D) : Tmv :=
  let t23 := tmvSub tsp.t2 tsp.t3
  let t23 :=
    if !CDouble.eq tsp.clockRateRatio (CDouble.lit 1) then
      dblTmv (tmvDbl t23 * tsp.clockRateRatio)
    else t23
  let t41 := tmvSub tsp.t4 tsp.t1
  -- the divisor is the constant 2
  ⟨(tmvAdd t23 t41).ns / 2⟩

/-- `tsproc_update_delay` -/
def tsprocUpdateDelay (tsp : Tsproc D) : Except Fault (Option Tmv × Tsproc D) :=
  if tmvIsZero tsp.t2 || tmvIsZero tsp.t3 then .ok (none, tsp)
  else do
    let rawDelay := getRawDelay tsp
    let (filteredDelay, delayFilter) ← filterSample tsp.delayFilter rawDelay
    let tsp := { tsp with filteredDelay, delayFilter, filteredDelayValid := true }
    let delay :=
      match tsp.mode with
      | .filter | .filterWeight => tsp.filteredDelay
      | .raw | .rawWeight => rawDelay
    return (some delay, tsp)

/-- The delay an offset is corrected by and the raw delay its weight is computed from, when the
measurements that the mode needs were made: the filtered delay where the mode filters, and the time
stamps of a delay message where it does not or weighs. -/
def offsetDelay (tsp : Tsproc D) : Option (Tmv × Tmv) :=
  match tsp.mode with
  | .filter =>
    if !tsp.filteredDelayValid then none else some (tsp.filteredDelay, tmvZero)
  | .raw | .rawWeight =>
    if tmvIsZero tsp.t3 then none else some (getRawDelay tsp, getRawDelay tsp)
  | .filterWeight =>
    if tmvIsZero tsp.t3 || !tsp.filteredDelayValid then none
    else some (tsp.filteredDelay, getRawDelay tsp)

/-- The weight of a sample, at most one: the filtered delay over the raw one, so that a sample whose
message took longer than usual counts less. Without both being positive every sample counts in full.
-/
def offsetWeight (tsp : Tsproc D) (rawDelay : Tmv) : D :=
  if weighting tsp && tmvSign tsp.filteredDelay > 0 && tmvSign rawDelay > 0 then
    let weight : D := tmvDbl tsp.filteredDelay / tmvDbl rawDelay
    if CDouble.lt (CDouble.lit 1) weight then CDouble.lit 1 else weight
  else CDouble.lit 1

/-- `tsproc_update_offset`: the offset and the weight of the sample. -/
def tsprocUpdateOffset (tsp : Tsproc D) : Option (Tmv × D) :=
  if tmvIsZero tsp.t1 || tmvIsZero tsp.t2 then none
  else
    match offsetDelay tsp with
    | none => none
    | some (delay, rawDelay) =>
      -- offset = t2 - t1 - delay
      some (tmvSub (tmvSub tsp.t2 tsp.t1) delay, offsetWeight tsp rawDelay)

/-- `tsproc_reset` -/
def tsprocReset (tsp : Tsproc D) (full : Bool) : Except Fault (Tsproc D) :=
  let tsp := { tsp with t1 := tmvZero, t2 := tmvZero, t3 := tmvZero, t4 := tmvZero }
  if full then do
    let delayFilter ← filterReset tsp.delayFilter
    return { tsp with
      clockRateRatio := CDouble.lit 1, delayFilter, filteredDelayValid := false }
  else .ok tsp

/-- What a time stamp processor is created from and starts with. -/
theorem tsprocCreate_eq_some {grants : Nat → Bool} {mode delayFilter : UInt32} {length : Int}
    {tsp : Tsproc D} (h : tsprocCreate grants mode delayFilter length = some tsp) :
    TsprocMode.ofRaw mode = some tsp.mode ∧
      filterCreate grants delayFilter length = some tsp.delayFilter ∧
      tsp = ⟨tsp.mode, CDouble.lit 1, tmvZero, tmvZero, tmvZero, tmvZero, tmvZero, false,
        tsp.delayFilter⟩ := by
  unfold tsprocCreate at h
  split at h
  · cases h
  · split at h
    · cases h
    · next hmode =>
      split at h
      · cases h
      · next hfilter =>
        obtain rfl := Option.some.inj h
        exact ⟨hmode, hfilter, rfl⟩

/-- Any reset forgets the stored measurements. -/
theorem tsprocReset_forgets {tsp tsp' : Tsproc D} {full : Bool}
    (h : tsprocReset tsp full = .ok tsp') :
    tsp'.t1 = tmvZero ∧ tsp'.t2 = tmvZero ∧ tsp'.t3 = tmvZero ∧ tsp'.t4 = tmvZero := by
  cases full with
  | false =>
    obtain rfl := Except.ok.inj h
    exact ⟨rfl, rfl, rfl, rfl⟩
  | true =>
    obtain ⟨filter, -, rfl⟩ := map_eq_ok.mp h
    exact ⟨rfl, rfl, rfl, rfl⟩

/-- The offset update is refused unless both down timestamps were measured. -/
theorem tsprocUpdateOffset_eq_some {tsp : Tsproc D} {offset : Tmv} {weight : D}
    (h : tsprocUpdateOffset tsp = some (offset, weight)) :
    tmvIsZero tsp.t1 = false ∧ tmvIsZero tsp.t2 = false ∧
      ∃ delay rawDelay, offsetDelay tsp = some (delay, rawDelay) ∧
        offset = tmvSub (tmvSub tsp.t2 tsp.t1) delay ∧ weight = offsetWeight tsp rawDelay := by
  unfold tsprocUpdateOffset at h
  split at h
  · cases h
  · next hzero =>
    rw [Bool.or_eq_true, not_or, Bool.not_eq_true, Bool.not_eq_true] at hzero
    split at h
    · cases h
    · next delay rawDelay hdelay =>
      obtain ⟨ht1, ht2⟩ := hzero
      obtain ⟨rfl, rfl⟩ := Prod.mk.inj (Option.some.inj h)
      exact ⟨ht1, ht2, delay, rawDelay, hdelay, rfl, rfl⟩

/-- The delay update is refused, leaving everything as it is, or feeds the raw delay to the
filter. -/
theorem tsprocUpdateDelay_eq_ok {tsp tsp' : Tsproc D} {delay : Option Tmv}
    (h : tsprocUpdateDelay tsp = .ok (delay, tsp')) :
    ((tmvIsZero tsp.t2 = true ∨ tmvIsZero tsp.t3 = true) ∧ delay = none ∧ tsp' = tsp) ∨
      (tmvIsZero tsp.t2 = false ∧ tmvIsZero tsp.t3 = false ∧ ∃ filtered filter',
        filterSample tsp.delayFilter (getRawDelay tsp) = .ok (filtered, filter') ∧
        tsp' = { tsp with
          filteredDelay := filtered, delayFilter := filter', filteredDelayValid := true } ∧
        delay = some (match tsp.mode with
          | .filter | .filterWeight => filtered
          | .raw | .rawWeight => getRawDelay tsp)) := by
  unfold tsprocUpdateDelay at h
  split at h
  · next hzero =>
    obtain ⟨rfl, rfl⟩ := Prod.mk.inj (Except.ok.inj h)
    exact .inl ⟨(Bool.or_eq_true _ _).mp hzero, rfl, rfl⟩
  · next hzero =>
    rw [Bool.or_eq_true, not_or, Bool.not_eq_true, Bool.not_eq_true] at hzero
    cases hsample : filterSample tsp.delayFilter (getRawDelay tsp) with
    | error e => simp [hsample, bind, Except.bind] at h
    | ok r =>
      obtain ⟨filtered, filter'⟩ := r
      simp only [hsample, bind, Except.bind, pure, Except.pure, Except.ok.injEq,
        Prod.mk.injEq] at h
      obtain ⟨ht2, ht3⟩ := hzero
      obtain ⟨hdelay, htsp⟩ := h
      exact .inr ⟨ht2, ht3, filtered, filter', rfl, htsp.symm, hdelay.symm⟩

/-- A delay update whose measurements were made. -/
theorem tsprocUpdateDelay_of_sample {tsp : Tsproc D} {filtered : Tmv} {filter' : Filter}
    (hzero : ¬ (tmvIsZero tsp.t2 || tmvIsZero tsp.t3) = true)
    (hsample : filterSample tsp.delayFilter (getRawDelay tsp) = .ok (filtered, filter')) :
    tsprocUpdateDelay tsp =
      .ok (some (if tsp.mode = .filter ∨ tsp.mode = .filterWeight then filtered
          else getRawDelay tsp),
        { tsp with
          filteredDelay := filtered, delayFilter := filter', filteredDelayValid := true }) := by
  rw [tsprocUpdateDelay, if_neg hzero]
  simp only [hsample, bind, Except.bind, pure, Except.pure]
  cases tsp.mode <;> rfl

/-- In every mode but one an offset needs a local up timestamp, and computes a raw delay. -/
theorem offsetDelay_raw {tsp : Tsproc D} {delay rawDelay : Tmv} (hmode : tsp.mode ≠ .filter)
    (h : offsetDelay tsp = some (delay, rawDelay)) :
    tmvIsZero tsp.t3 = false ∧ rawDelay = getRawDelay tsp := by
  rw [offsetDelay] at h
  cases hm : tsp.mode with
  | filter => exact absurd hm hmode
  | raw | rawWeight =>
    simp only [hm] at h
    split at h
    · cases h
    · next hzero =>
      obtain ⟨-, rfl⟩ := Prod.mk.inj (Option.some.inj h)
      exact ⟨Bool.eq_false_of_not_eq_true hzero, rfl⟩
  | filterWeight =>
    simp only [hm] at h
    split at h
    · cases h
    · next hzero =>
      rw [Bool.or_eq_true, not_or] at hzero
      obtain ⟨-, rfl⟩ := Prod.mk.inj (Option.some.inj h)
      exact ⟨Bool.eq_false_of_not_eq_true hzero.1, rfl⟩

/-! ## Runs -/

/-- A call on a time stamp processor. -/
inductive TsprocOp (D : Type) : Type where
  /-- `tsproc_down_ts` -/
  | downTs (remoteTs localTs : Tmv) : TsprocOp D
  /-- `tsproc_up_ts` -/
  | upTs (localTs remoteTs : Tmv) : TsprocOp D
  /-- `tsproc_set_clock_rate_ratio` -/
  | setClockRateRatio (clockRateRatio : D) : TsprocOp D
  /-- `tsproc_update_delay` -/
  | updateDelay : TsprocOp D
  /-- `tsproc_update_offset` -/
  | updateOffset : TsprocOp D
  /-- `tsproc_reset` -/
  | reset (full : Bool) : TsprocOp D

/-- The processor after a call. -/
def tsprocStep (tsp : Tsproc D) (op : TsprocOp D) : Except Fault (Tsproc D) :=
  match op with
  | .downTs remoteTs localTs => .ok (tsprocDownTs tsp remoteTs localTs)
  | .upTs localTs remoteTs => .ok (tsprocUpTs tsp localTs remoteTs)
  | .setClockRateRatio clockRateRatio => .ok (tsprocSetClockRateRatio tsp clockRateRatio)
  | .updateDelay => (tsprocUpdateDelay tsp).map Prod.snd
  | .updateOffset => .ok tsp
  | .reset full => tsprocReset tsp full

end ExternalServo
