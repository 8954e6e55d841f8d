import ExternalServo.FilterRuns
import Mathlib.Algebra.Order.Field.Basic

/-!
# A full reset is a fresh start

`tsproc_reset(tsp, 1)` against a processor that was just created with the same parameters.
Two things are left over: the arrays of the median filter, which no later call reads before
it writes them (`Filter.Tracks`), and `filtered_delay`.

* `Agree` — the states between which no call can distinguish; `Agree.results` is the
  simulation over any later calls.
* An invalid `filtered_delay` is read in one place only, the weight of a sample in the mode
  `TSPROC_RAW_WEIGHT`. `tsprocReset_fresh_iff` says when that can be observed.
-/

namespace ExternalServo

open CArith Runs SlidingWindow

variable {D : Type} [CDouble D]

/-! ## The interface -/

/-- `tsproc_set_delay`; the program does not call it. -/
def tsprocSetDelay (tsp : Tsproc D) (delay : Tmv) : Tsproc D :=
  { tsp with filteredDelay := delay, filteredDelayValid := true }

/-- A call in the history of a time stamp processor. `tsproc_set_delay`, which the program never
makes, belongs to the interface and is part of a history, but not of what comes after the reset. -/
inductive TsprocCall (D : Type) : Type where
  | op (op : TsprocOp D) : TsprocCall D
  /-- `tsproc_set_delay` -/
  | setDelay (delay : Tmv) : TsprocCall D

/-- The processor after a call of its history. -/
def tsprocCallStep (tsp : Tsproc D) : TsprocCall D → Except Fault (Tsproc D)
  | .op op => tsprocStep tsp op
  | .setDelay delay => .ok (tsprocSetDelay tsp delay)

/-- What a caller gets back. -/
inductive TsprocResult (D : Type) : Type where
  /-- the function returns nothing -/
  | done : TsprocResult D
  /-- the delay, or -1 -/
  | delay (result : Option Tmv) : TsprocResult D
  /-- the offset and its weight, or -1 -/
  | offset (result : Option (Tmv × D)) : TsprocResult D
  deriving DecidableEq

/-- A call with its result. -/
def tsprocObserve (tsp : Tsproc D) : TsprocOp D → Except Fault (TsprocResult D × Tsproc D)
  | .updateDelay => (tsprocUpdateDelay tsp).map fun (delay, tsp) => (.delay delay, tsp)
  | .updateOffset => .ok (.offset (tsprocUpdateOffset tsp), tsp)
  | op => (tsprocStep tsp op).map fun tsp => (.done, tsp)

/-- The results of a sequence of calls, one for each. They are all that a caller can tell two
processors apart by. -/
def tsprocResults (tsp : Tsproc D) : List (TsprocOp D) → Except Fault (List (TsprocResult D))
  | [] => .ok []
  | op :: ops => do
    let (result, tsp) ← tsprocObserve tsp op
    let results ← tsprocResults tsp ops
    return result :: results

/-! ## When the weight does not depend on the filtered delay -/

variable (D) in
/-- No raw delay is above the filtered delay, if that is positive at all: limited to one, their
quotient is always one. The weight does then not depend on the filtered delay. -/
def Saturates (filteredDelay : Tmv) : Prop :=
  0 < filteredDelay.ns → ∀ raw : Tmv, 0 < raw.ns → raw.ns.toInt < 2 ^ 62 →
    CDouble.lt (CDouble.lit 1) (tmvDbl filteredDelay / tmvDbl raw : D) = true ∨
      (tmvDbl filteredDelay / tmvDbl raw : D) = CDouble.lit 1

theorem saturates_zero : Saturates D tmvZero := by
  intro hpos
  exact absurd hpos (by decide)

/-- In exact arithmetic it is not positive, or at least the largest raw delay. -/
theorem saturates_exact (d : Tmv) :
    Saturates XRat d ↔ d.ns.toInt ≤ 0 ∨ 2 ^ 62 - 1 ≤ d.ns.toInt := by
  have hpos : ∀ {x : Int64}, 0 < x ↔ 0 < x.toInt := Int64.lt_iff_toInt_lt
  have hquot : ∀ {raw : Tmv}, 0 < raw.ns.toInt →
      (tmvDbl d / tmvDbl raw : XRat) = .fin (d.ns.toInt / raw.ns.toInt) := by
    intro raw hraw
    exact XRat.fin_div _ (Int.cast_ne_zero.mpr hraw.ne')
  refine ⟨?_, ?_⟩
  · intro hsat
    by_contra hnot
    rw [not_or, not_le, not_le] at hnot
    obtain ⟨hlo, hhi⟩ := hnot
    -- the largest raw delay
    have hraw : (Int64.ofInt (2 ^ 62 - 1)).toInt = 2 ^ 62 - 1 := by decide
    have hlt : (d.ns.toInt : ℚ) / ((2 ^ 62 - 1 : Int) : ℚ) < 1 := by
      rw [div_lt_one (by norm_num)]
      exact_mod_cast hhi
    have hsat' := hsat (hpos.mpr hlo) ⟨Int64.ofInt (2 ^ 62 - 1)⟩ (by decide) (by decide)
    rw [hquot (by rw [hraw]; norm_num), hraw, XRat.lit_eq, XRat.lt_fin, decide_eq_true_eq] at hsat'
    rcases hsat' with h | h
    · exact absurd h (not_lt.mpr hlt.le)
    · exact absurd (XRat.fin.inj h) hlt.ne
  · intro h hd raw hraw hmax
    have hd' := hpos.mp hd
    have hraw' := hpos.mp hraw
    have hle : raw.ns.toInt ≤ d.ns.toInt := by omega
    have hge : (1 : ℚ) ≤ d.ns.toInt / raw.ns.toInt := by
      rw [one_le_div (by exact_mod_cast hraw')]
      exact_mod_cast hle
    rw [hquot hraw', XRat.lit_eq, XRat.lt_fin, decide_eq_true_eq]
    rcases hge.lt_or_eq with h | h
    · exact .inl h
    · exact .inr (congrArg XRat.fin h.symm)

/-- A raw delay is half of something. -/
theorem getRawDelay_lt (tsp : Tsproc D) : (getRawDelay tsp).ns.toInt < 2 ^ 62 := by
  have hhalf : ∀ a : Int64, (a / 2).toInt < 2 ^ 62 := by
    intro a
    have hle := Int.tdiv_le_tdiv (by decide : (0 : Int) < 2) (Int.le_sub_one_of_lt a.toInt_lt)
    rw [toInt_half]
    exact hle.trans_lt (by decide)
  exact hhalf _

/-- The weight of a sample with a saturating filtered delay. -/
theorem offsetWeight_of_saturates {tsp : Tsproc D} {raw : Tmv} (hraw : raw.ns.toInt < 2 ^ 62)
    (h : Saturates D tsp.filteredDelay) : offsetWeight tsp raw = CDouble.lit 1 := by
  rw [offsetWeight]
  split
  · next hpos =>
    simp only [Bool.and_eq_true, decide_eq_true_eq, gt_iff_lt, tmvSign_pos] at hpos
    obtain ⟨⟨-, hfiltered⟩, hraw'⟩ := hpos
    dsimp only
    rcases h hfiltered raw hraw' hraw with hlt | heq
    · rw [if_pos hlt]
    · rw [heq]
      split <;> rfl
  · rfl

/-! ## The simulation -/

theorem tsprocReset_full {tsp : Tsproc D} {filter : Filter}
    (h : filterReset tsp.delayFilter = .ok filter) :
    tsprocReset tsp true = .ok
      { tsp with
        t1 := tmvZero, t2 := tmvZero, t3 := tmvZero, t4 := tmvZero
        clockRateRatio := CDouble.lit 1, delayFilter := filter, filteredDelayValid := false } := by
  simp only [tsprocReset, h, if_true, bind, Except.bind]
  rfl

/-- The offset depends on the down measurement, the delay and the weight. -/
theorem tsprocUpdateOffset_congr {s f : Tsproc D} (ht1 : f.t1 = s.t1) (ht2 : f.t2 = s.t2)
    (hdelay : offsetDelay f = offsetDelay s)
    (hweight : ∀ delay raw, offsetDelay s = some (delay, raw) →
      offsetWeight f raw = offsetWeight s raw) :
    tsprocUpdateOffset f = tsprocUpdateOffset s := by
  simp only [tsprocUpdateOffset, ht1, ht2, hdelay]
  split
  · rfl
  · cases hd : offsetDelay s with
    | none => rfl
    | some r =>
      obtain ⟨delay, raw⟩ := r
      simp only [hweight delay raw hd]

/-- Two processors that no caller can tell apart: they differ in their filters' arrays only, and in
a filtered delay that is invalid and, where the mode reads it anyway, saturates the weight. What a
reset leaves behind in the arrays is overwritten before it is read. -/
structure Agree (s f : Tsproc D) : Prop where
  same : f = { s with filteredDelay := f.filteredDelay, delayFilter := f.delayFilter }
  kind : s.delayFilter.SameKind f.delayFilter
  window : ∃ w, s.delayFilter.Tracks w ∧ f.delayFilter.Tracks w
  delay : f.filteredDelay = s.filteredDelay ∨ s.filteredDelayValid = false ∧
    (s.mode = .rawWeight → Saturates D s.filteredDelay ∧ Saturates D f.filteredDelay)

namespace Agree

variable {s f : Tsproc D}

/-- Neither the offset nor its weight tells them apart. Where the filtered delays differ, they are
not valid: the modes that use the filtered delay refuse then, and in the other weighted mode both
are so large that the weight saturates. -/
theorem updateOffset (h : Agree s f) : tsprocUpdateOffset f = tsprocUpdateOffset s := by
  obtain ⟨hsame, -, -, hdelay⟩ := h
  generalize f.filteredDelay = d at hsame hdelay
  generalize f.delayFilter = filter at hsame
  subst hsame
  rcases hdelay with rfl | ⟨hvalid, hweight⟩
  · rfl
  · apply tsprocUpdateOffset_congr
    · rfl
    · rfl
    · -- the filtered delay is not used as it is invalid
      cases hmode : s.mode with
      | filter | filterWeight => simp [offsetDelay, hmode, hvalid]
      | raw | rawWeight =>
        simp only [offsetDelay, hmode]
        rfl
    · intro delay raw hraw
      cases hmode : s.mode with
      | filter | filterWeight => simp [offsetDelay, hmode, hvalid] at hraw
      | raw => simp [offsetWeight, weighting, hmode]
      | rawWeight =>
        obtain ⟨hs, hf⟩ := hweight hmode
        have hbound : raw.ns.toInt < 2 ^ 62 := by
          simp only [offsetDelay, hmode] at hraw
          split at hraw
          · cases hraw
          · obtain ⟨-, rfl⟩ := Prod.mk.inj (Option.some.inj hraw)
            exact getRawDelay_lt s
        have hone : offsetWeight s raw = CDouble.lit 1 := offsetWeight_of_saturates hbound hs
        rw [hone]
        exact offsetWeight_of_saturates hbound hf

/-- A delay makes them agree on the filtered delay: the windows of the two filters are the same, so
they return the same value, which is then stored in both. -/
theorem updateDelay (h : Agree s f) : ∃ delay s' f', tsprocUpdateDelay s = .ok (delay, s') ∧
    tsprocUpdateDelay f = .ok (delay, f') ∧ Agree s' f' := by
  obtain ⟨hsame, hkind, ⟨w, hs, hf⟩, hdelay⟩ := h
  have ht2 : f.t2 = s.t2 := by rw [hsame]
  have ht3 : f.t3 = s.t3 := by rw [hsame]
  by_cases hzero : (tmvIsZero s.t2 || tmvIsZero s.t3) = true
  · refine ⟨none, s, f, if_pos hzero, if_pos ?_, hsame, hkind, ⟨w, hs, hf⟩, hdelay⟩
    rw [ht2, ht3, hzero]
  · have hraw : getRawDelay f = getRawDelay s := by
      rw [hsame]
      rfl
    have hmode : f.mode = s.mode := by rw [hsame]
    have hstatistic : f.delayFilter.statistic (slide f.delayFilter.len w (getRawDelay f)) =
        s.delayFilter.statistic (slide s.delayFilter.len w (getRawDelay s)) := by
      rw [hraw, hkind.len_eq, hkind.statistic_eq]
    obtain ⟨filter, hsample, htracks, hkind'⟩ := filterSample_spec hs (getRawDelay s)
    obtain ⟨filter', hsample', htracks', hkind''⟩ := filterSample_spec hf (getRawDelay f)
    rw [hstatistic] at hsample'
    rw [hraw, hkind.len_eq] at htracks'
    have hzero' : ¬ (tmvIsZero f.t2 || tmvIsZero f.t3) = true := by
      rw [ht2, ht3]
      exact hzero
    have hdelay := tsprocUpdateDelay_of_sample hzero hsample
    have hdelay' := tsprocUpdateDelay_of_sample hzero' hsample'
    rw [hmode, hraw] at hdelay'
    refine ⟨_, _, _, hdelay, hdelay', ?_, hkind.congr hkind' hkind'', ⟨_, htracks, htracks'⟩,
      .inl rfl⟩
    rw [hsame]

/-- A reset, full or not, keeps them together. -/
theorem reset (h : Agree s f) (full : Bool) :
    ∃ s' f', tsprocReset s full = .ok s' ∧ tsprocReset f full = .ok f' ∧ Agree s' f' := by
  obtain ⟨hsame, hkind, ⟨w, hs, hf⟩, hdelay⟩ := h
  cases full with
  | false =>
    refine ⟨_, _, rfl, rfl, ?_, hkind, ⟨w, hs, hf⟩, hdelay⟩
    rw [hsame]
  | true =>
    obtain ⟨filter, hreset, htracks, hkind'⟩ := filterReset_spec hs
    obtain ⟨filter', hreset', htracks', hkind''⟩ := filterReset_spec hf
    refine ⟨_, _, tsprocReset_full hreset, tsprocReset_full hreset', ?_,
      hkind.congr hkind' hkind'', ⟨[], htracks, htracks'⟩, ?_⟩
    · rw [hsame]
    · rcases hdelay with heq | ⟨-, hweight⟩
      · exact .inl heq
      · exact .inr ⟨rfl, hweight⟩

/-- **The step of the simulation.** Any call returns the same on both, or faults on neither, and
leaves them in agreement: the filters represent the same window, whatever else their arrays hold. -/
theorem observe (h : Agree s f) (op : TsprocOp D) : ∃ result s' f',
    tsprocObserve s op = .ok (result, s') ∧ tsprocObserve f op = .ok (result, f') ∧
      Agree s' f' := by
  cases op with
  | updateDelay =>
    obtain ⟨delay, s', f', hs, hf, h'⟩ := h.updateDelay
    refine ⟨.delay delay, s', f', ?_, ?_, h'⟩
    · rw [tsprocObserve, hs]
      rfl
    · rw [tsprocObserve, hf]
      rfl
  | updateOffset =>
    refine ⟨_, s, f, rfl, ?_, h⟩
    rw [tsprocObserve, h.updateOffset]
  | reset full =>
    obtain ⟨s', f', hs, hf, h'⟩ := h.reset full
    refine ⟨.done, s', f', ?_, ?_, h'⟩
    · simp only [tsprocObserve, tsprocStep, hs]
      rfl
    · simp only [tsprocObserve, tsprocStep, hf]
      rfl
  | downTs remoteTs localTs =>
    obtain ⟨hsame, hkind, hwindow, hdelay⟩ := h
    refine ⟨.done, _, _, rfl, rfl, ?_, hkind, hwindow, hdelay⟩
    rw [hsame]
    rfl
  | upTs localTs remoteTs =>
    obtain ⟨hsame, hkind, hwindow, hdelay⟩ := h
    refine ⟨.done, _, _, rfl, rfl, ?_, hkind, hwindow, hdelay⟩
    rw [hsame]
    rfl
  | setClockRateRatio clockRateRatio =>
    obtain ⟨hsame, hkind, hwindow, hdelay⟩ := h
    refine ⟨.done, _, _, rfl, rfl, ?_, hkind, hwindow, hdelay⟩
    rw [hsame]
    rfl

/-- **No sequence of calls tells them apart.** -/
theorem results (h : Agree s f) (ops : List (TsprocOp D)) :
    tsprocResults s ops = tsprocResults f ops := by
  induction ops generalizing s f with
  | nil => rfl
  | cons op ops ih =>
    obtain ⟨result, s', f', hs, hf, h'⟩ := h.observe op
    simp only [tsprocResults, hs, hf, bind, Except.bind, ih h']

end Agree

/-! ## Histories -/

/-- A processor with the mode and the kind of filter that it was created with, whose filter
represents a window. -/
structure MadeLike (fresh tsp : Tsproc D) : Prop where
  mode : tsp.mode = fresh.mode
  kind : fresh.delayFilter.SameKind tsp.delayFilter
  window : ∃ w, tsp.delayFilter.Tracks w

/-- No call faults, or changes what a processor was created with: the mode, the kind of its filter
and the length. -/
theorem MadeLike.step {fresh tsp : Tsproc D} (h : MadeLike fresh tsp) (call : TsprocCall D) :
    ∃ tsp', tsprocCallStep tsp call = .ok tsp' ∧ MadeLike fresh tsp' := by
  obtain ⟨hmode, hkind, w, hw⟩ := h
  cases call with
  | setDelay delay => exact ⟨_, rfl, hmode, hkind, w, hw⟩
  | op op =>
    cases op with
    | downTs remoteTs localTs => exact ⟨_, rfl, hmode, hkind, w, hw⟩
    | upTs localTs remoteTs => exact ⟨_, rfl, hmode, hkind, w, hw⟩
    | setClockRateRatio clockRateRatio => exact ⟨_, rfl, hmode, hkind, w, hw⟩
    | updateOffset => exact ⟨_, rfl, hmode, hkind, w, hw⟩
    | updateDelay =>
      by_cases hzero : (tmvIsZero tsp.t2 || tmvIsZero tsp.t3) = true
      · refine ⟨tsp, ?_, hmode, hkind, w, hw⟩
        simp only [tsprocCallStep, tsprocStep, tsprocUpdateDelay, if_pos hzero]
        rfl
      · obtain ⟨filter, hsample, htracks, hkind'⟩ := filterSample_spec hw (getRawDelay tsp)
        have hdelay := tsprocUpdateDelay_of_sample hzero hsample
        have hrun := congrArg (Except.map Prod.snd) hdelay
        exact ⟨_, hrun, hmode, hkind.trans hkind', _, htracks⟩
    | reset full =>
      cases full with
      | false => exact ⟨_, rfl, hmode, hkind, w, hw⟩
      | true =>
        obtain ⟨filter, hreset, htracks, hkind'⟩ := filterReset_spec hw
        exact ⟨_, tsprocReset_full hreset, hmode, hkind.trans hkind', [], htracks⟩

theorem MadeLike.run {fresh tsp : Tsproc D} (h : MadeLike fresh tsp)
    (history : List (TsprocCall D)) :
    ∃ tsp', history.foldlM tsprocCallStep tsp = .ok tsp' ∧ MadeLike fresh tsp' := by
  have hstep : ∀ (tsp : Tsproc D) call, MadeLike fresh tsp → True →
      ∃ tsp', tsprocCallStep tsp call = .ok tsp' ∧ MadeLike fresh tsp' := by
    intro tsp call h _
    exact h.step call
  have hall : ∀ call ∈ history, True := by
    intro call _
    trivial
  exact run_ok_of_inv hstep h hall

/-! ## A full reset -/

/-- What a fresh processor has in common with one that was reset. -/
theorem MadeLike.agree {fresh tsp : Tsproc D} (h : MadeLike fresh tsp)
    (hfresh : fresh = ⟨fresh.mode, CDouble.lit 1, tmvZero, tmvZero, tmvZero, tmvZero, tmvZero,
      false, fresh.delayFilter⟩) (hwindow : fresh.delayFilter.Tracks []) :
    ∃ tsp', tsprocReset tsp true = .ok tsp' ∧ tsp'.mode = tsp.mode ∧
      tsp'.clockRateRatio = CDouble.lit 1 ∧ tsp'.filteredDelay = tsp.filteredDelay ∧
      ((tsp.mode = .rawWeight → Saturates D tsp.filteredDelay) → Agree tsp' fresh) := by
  obtain ⟨hmode, hkind, w, hw⟩ := h
  obtain ⟨filter, hreset, htracks, hkind'⟩ := filterReset_spec hw
  refine ⟨_, tsprocReset_full hreset, rfl, rfl, rfl, ?_⟩
  intro hsaturates
  have hdelay : fresh.filteredDelay = tmvZero := by rw [hfresh]
  refine ⟨?_, (hkind.trans hkind').symm, ⟨[], htracks, hwindow⟩, .inr ⟨rfl, ?_⟩⟩
  · simp only [hmode, hdelay]
    exact hfresh
  · intro hraw
    rw [hdelay]
    exact ⟨hsaturates hraw, saturates_zero⟩

/-- Timestamps with a given raw delay, and the offset they make. -/
def delayProbe (raw : Int64) : List (TsprocOp D) :=
  [.downTs ⟨1⟩ ⟨1⟩, .upTs ⟨1⟩ ⟨2 * raw + 1⟩, .updateOffset]

/-- The weight of a sample, observed: three calls after which the raw delay is what was asked for,
and the weight in the result is the one that the left-over filtered delay gives it. -/
theorem tsprocResults_delayProbe [LawfulCDouble D] {tsp : Tsproc D} (hmode : tsp.mode = .rawWeight)
    (hratio : tsp.clockRateRatio = CDouble.lit 1) {raw : Int64} (hpos : 0 < raw)
    (hmax : raw.toInt < 2 ^ 62) :
    ∃ offset, tsprocResults tsp (delayProbe raw) =
      .ok [.done, .done, .offset (some (offset, offsetWeight tsp ⟨raw⟩))] := by
  have hraw : getRawDelay { tsp with t1 := ⟨1⟩, t2 := ⟨1⟩, t3 := ⟨1⟩, t4 := ⟨2 * raw + 1⟩ } =
      ⟨raw⟩ := by
    have hpos' : 0 < raw.toInt := Int64.lt_iff_toInt_lt.mp hpos
    have hsum : (tmvAdd (tmvSub ⟨1⟩ ⟨1⟩) (tmvSub ⟨2 * raw + 1⟩ ⟨1⟩)).ns =
        Int64.ofInt (2 * raw.toInt) := by
      rw [Int64.ofInt_mul, Int64.ofInt_toInt]
      change (1 - 1 + (2 * raw + 1 - 1) : Int64) = 2 * raw
      simp
    have hfits : (Int64.ofInt (2 * raw.toInt)).toInt = 2 * raw.toInt :=
      Int64.toInt_ofInt_of_le (by omega) (by omega)
    rw [getRawDelay, hratio, LawfulCDouble.eq_lit]
    apply tmv_ext_toInt
    simp only [Bool.not_true, Bool.false_eq_true, if_false, hsum]
    rw [toInt_half, hfits]
    exact Int.mul_tdiv_cancel_left _ (by decide)
  have hone : tmvIsZero ⟨1⟩ = false := by decide
  have hoffset : tsprocUpdateOffset
      { tsp with t1 := ⟨1⟩, t2 := ⟨1⟩, t3 := ⟨1⟩, t4 := ⟨2 * raw + 1⟩ } =
        some (tmvSub (tmvSub ⟨1⟩ ⟨1⟩) ⟨raw⟩, offsetWeight tsp ⟨raw⟩) := by
    simp only [tsprocUpdateOffset, offsetDelay, hone, hmode, Bool.or_false, Bool.false_eq_true,
      if_false]
    rw [← hmode, hraw]
    rfl
  refine ⟨tmvSub (tmvSub ⟨1⟩ ⟨1⟩) ⟨raw⟩, ?_⟩
  rw [← hoffset]
  rfl

/-- **A full reset is a fresh start, up to the filtered delay.** After any history and a full reset,
every later sequence of calls returns what it returns on a processor newly created with the same
parameters, exactly if the mode is not `TSPROC_RAW_WEIGHT` or the filtered delay that the history
left behind saturates every weight. The reset marks this delay as invalid, and the weights of that
mode read it without asking. -/
theorem tsprocReset_fresh_iff [LawfulCDouble D] {grants grants' : Nat → Bool}
    {mode delayFilter : UInt32} {length : Int} {tsp₀ fresh : Tsproc D} (hlen : 1 ≤ length)
    (hcreate : tsprocCreate grants mode delayFilter length = some tsp₀)
    (hcreate' : tsprocCreate grants' mode delayFilter length = some fresh)
    (history : List (TsprocCall D)) :
    ∃ tsp tsp', history.foldlM tsprocCallStep tsp₀ = .ok tsp ∧ tsprocReset tsp true = .ok tsp' ∧
      ((∀ ops, tsprocResults tsp' ops = tsprocResults fresh ops) ↔
        (tsp.mode = .rawWeight → Saturates D tsp.filteredDelay)) := by
  obtain ⟨hmode, hfilter, hfresh⟩ := tsprocCreate_eq_some hcreate'
  obtain ⟨hmode₀, hfilter₀, -⟩ := tsprocCreate_eq_some hcreate
  obtain ⟨hwindow, hlength⟩ := filterCreate_tracks (by omega) hfilter
  obtain ⟨hwindow₀, hlength₀⟩ := filterCreate_tracks (by omega) hfilter₀
  have hinit : MadeLike fresh tsp₀ :=
    { mode := Option.some.inj (hmode₀.symm.trans hmode)
      kind := filterCreate_sameKind hfilter hfilter₀
      window := ⟨[], hwindow₀⟩ }
  obtain ⟨tsp, hrun, hmade⟩ := hinit.run history
  obtain ⟨tsp', hreset, hmode', hratio', hdelay', hagree⟩ := hmade.agree hfresh hwindow
  refine ⟨tsp, tsp', hrun, hreset, ?_, ?_⟩
  · intro hsame hraw hpos raw hraw' hmax
    rw [← hmode'] at hraw
    have hraw'' : fresh.mode = .rawWeight := by rw [← hmade.mode, ← hmode', hraw]
    have hratio : fresh.clockRateRatio = CDouble.lit 1 := by rw [hfresh]
    obtain ⟨offset, hleft⟩ := tsprocResults_delayProbe hraw hratio' hraw' hmax
    obtain ⟨offset', hright⟩ := tsprocResults_delayProbe hraw'' hratio hraw' hmax
    -- the weights are the same, and that of the fresh processor is one
    have hweight : offsetWeight tsp' raw = offsetWeight fresh raw := by
      have heq := (hleft.symm.trans (hsame _)).trans hright
      simp only [Except.ok.injEq, List.cons.injEq, TsprocResult.offset.injEq, Option.some.injEq,
        Prod.mk.injEq] at heq
      exact heq.2.2.1.2
    have hone : offsetWeight fresh raw = CDouble.lit 1 := by
      rw [hfresh]
      exact offsetWeight_of_saturates hmax saturates_zero
    rw [hone, offsetWeight, if_pos ?_] at hweight
    · rw [hdelay'] at hweight
      dsimp only at hweight
      split at hweight
      · next hlt => exact .inl hlt
      · exact .inr hweight
    · simp only [weighting, hraw, hdelay', Bool.true_and, Bool.and_eq_true, decide_eq_true_eq,
        gt_iff_lt, tmvSign_pos]
      exact ⟨hpos, hraw'⟩
  · intro hsaturates ops
    exact (hagree hsaturates).results ops

/-- A processor in the mode `TSPROC_RAW_WEIGHT` with a median of one sample. -/
def rawWeightTsproc : Option (Tsproc XRat) := tsprocCreate (fun _ => true) 3 1 1

/-- A delay of one nanosecond was filtered. -/
def filteredHistory : List (TsprocCall XRat) :=
  [.op (.downTs ⟨1⟩ ⟨1⟩), .op (.upTs ⟨1⟩ ⟨3⟩), .op .updateDelay]

/-- In exact arithmetic a filtered delay saturates the weights if it is not positive or if no raw
delay is larger. -/
theorem tsprocReset_fresh_rawWeight :
    ∃ tsp₀ ∈ rawWeightTsproc, ∃ tsp tsp', filteredHistory.foldlM tsprocCallStep tsp₀ = .ok tsp ∧
      tsprocReset tsp true = .ok tsp' ∧
      ((∀ ops, tsprocResults tsp' ops = tsprocResults tsp₀ ops) ↔
        (tsp.mode = .rawWeight →
          tsp.filteredDelay.ns.toInt ≤ 0 ∨ 2 ^ 62 - 1 ≤ tsp.filteredDelay.ns.toInt)) := by
  have hlen : (1 : Int) ≤ 1 := by decide
  have hcreate : rawWeightTsproc = some _ := rfl
  obtain ⟨tsp, tsp', hrun, hreset, hfresh⟩ :=
    tsprocReset_fresh_iff hlen hcreate hcreate filteredHistory
  rw [saturates_exact] at hfresh
  exact ⟨_, hcreate, tsp, tsp', hrun, hreset, hfresh⟩

/-- After that history and a full reset the weight of a sample with a raw delay of two nanoseconds
is 1/2; on a new processor it is 1. -/
theorem not_tsprocReset_fresh :
    ∃ tsp₀ ∈ rawWeightTsproc, ∃ tsp tsp', filteredHistory.foldlM tsprocCallStep tsp₀ = .ok tsp ∧
      tsprocReset tsp true = .ok tsp' ∧
      ¬ ∀ ops, tsprocResults tsp' ops = tsprocResults tsp₀ ops := by
  refine ⟨_, rfl, _, _, rfl, rfl, ?_⟩
  intro hsame
  exact absurd (hsame (delayProbe 2)) (by decide +kernel)

end ExternalServo
