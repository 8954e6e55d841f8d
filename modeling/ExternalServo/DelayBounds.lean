import ExternalServo.NoiseFree
import ExternalServo.FilterRuns
import ExternalServo.OrderStatistics
import Mathlib.Data.List.GetD

/-!
# The time stamp processor with noise

Every message takes between `lo` and `hi`, whatever the one before it took: then every delay is
between `lo` and `hi`, and every offset is at most `hi - lo` off (`jitter_bounded`), in every mode
and with either filter. The moving median does not need all messages to be so fast: if fewer than
half of the raw delays in its window are outside, the filtered delay is inside, and an offset is
as close as that of the one message it is measured from (`median_rejects`).

Both rest on what the two statistics make of a window: the mean of values in an interval is in
the interval, and so is the median of values most of which are (`OrderStatistics`).
-/

namespace ExternalServo

open CArith Runs SlidingWindow OrderStatistics

variable {D : Type} [CDouble D]

/-! ## Statistics of values in an interval -/

/-- The value is between `lo` and `hi`. -/
def Tmv.Between (lo hi : Int) (x : Tmv) : Prop := lo ≤ x.ns.toInt ∧ x.ns.toInt ≤ hi

section Statistics

variable {lo hi : Int} {w : List Tmv}

/-- The sum of values in an interval. -/
theorem windowSum_between (h : ∀ x ∈ w, x.Between lo hi) :
    w.length * lo ≤ windowSum w ∧ windowSum w ≤ w.length * hi := by
  induction w with
  | nil => simp [windowSum]
  | cons x w ih =>
    obtain ⟨hx, hw⟩ := List.forall_mem_cons.mp h
    obtain ⟨hlo, hhi⟩ := ih hw
    obtain ⟨hxlo, hxhi⟩ := hx
    rw [windowSum_cons, List.length_cons, Nat.cast_succ, add_mul, add_mul, one_mul, one_mul]
    omega

/-- The mean of values in an interval that starts at zero or above. -/
theorem windowMean_between (hne : w ≠ []) (hlen : (w.length : Int) < 2 ^ 63) (hlo : 0 ≤ lo)
    (hsum : w.length * hi < 2 ^ 63) (h : ∀ x ∈ w, x.Between lo hi) :
    (windowMean w).Between lo hi := by
  obtain ⟨hge, hle⟩ := windowSum_between h
  have hpos : (0 : Int) < w.length := by
    have := List.length_pos_iff.mpr hne
    omega
  have hzero : 0 ≤ (w.length : Int) * lo := mul_nonneg hpos.le hlo
  rw [Tmv.Between, windowMean_toInt hne hlen ⟨by omega, by omega⟩]
  refine ⟨?_, ?_⟩
  · apply Int.le_tdiv_of_mul_le hpos
    rwa [mul_comm]
  · calc (windowSum w).tdiv w.length ≤ (w.length * hi).tdiv w.length :=
          Int.tdiv_le_tdiv hpos hle
      _ = hi := Int.mul_tdiv_cancel_left _ hpos.ne'

/-- The sorted window is sorted. -/
theorem pairwise_sortedWindow (w : List Tmv) :
    (sortedWindow w).Pairwise fun a b => a.ns.toInt ≤ b.ns.toInt := by
  have hsorted := @List.pairwise_mergeSort Tmv (fun a b => decide (a.ns.toInt ≤ b.ns.toInt))
    (fun a b c => by simpa using le_trans) (fun a b => by simpa using le_total _ _) w
  simpa [sortedWindow] using hsorted

/-- Half the sum of two values in an interval, when no sum wraps around. -/
theorem half_between {a b : Tmv} (hlo : Fits (2 * lo)) (hhi : Fits (2 * hi))
    (ha : a.Between lo hi) (hb : b.Between lo hi) :
    Tmv.Between lo hi ⟨(tmvAdd a b).ns / 2⟩ := by
  obtain ⟨halo, hahi⟩ := ha
  obtain ⟨hblo, hbhi⟩ := hb
  obtain ⟨hlo, -⟩ := hlo
  obtain ⟨-, hhi⟩ := hhi
  have hsum : (tmvAdd a b).ns.toInt = a.ns.toInt + b.ns.toInt :=
    toInt_add_of_fits ⟨by omega, by omega⟩
  rw [Tmv.Between, toInt_half, hsum]
  refine ⟨?_, ?_⟩
  · apply Int.le_tdiv_of_mul_le (by decide)
    omega
  · calc (a.ns.toInt + b.ns.toInt).tdiv 2 ≤ (2 * hi).tdiv 2 :=
          Int.tdiv_le_tdiv (by decide) (by omega)
      _ = hi := Int.mul_tdiv_cancel_left _ (by decide)

/-- The median of values most of which are in an interval. -/
theorem windowMedian_between (hlo : Fits (2 * lo)) (hhi : Fits (2 * hi))
    (h : Mostly (fun x : Tmv => x.ns.toInt) lo hi w) : (windowMedian w).Between lo hi := by
  have hpos : 0 < w.length := by
    rw [Mostly] at h
    omega
  have hperm : (sortedWindow w).Perm w := List.mergeSort_perm _ _
  have hlen : (sortedWindow w).length = w.length := hperm.length_eq
  have hget : ∀ k, k < w.length → w.length ≤ 2 * k + 2 → 2 * k ≤ w.length →
      ((sortedWindow w).getD k tmvZero).Between lo hi := by
    intro k hk hlower hupper
    have hk' : k < (sortedWindow w).length := by omega
    rw [List.getD_eq_getElem _ _ hk']
    exact (h.perm hperm.symm).middle (pairwise_sortedWindow w) hk' (by omega) (by omega)
  rw [windowMedian]
  split
  · exact hget _ (by omega) (by omega) (by omega)
  · exact half_between hlo hhi (hget _ (by omega) (by omega) (by omega))
      (hget _ (by omega) (by omega) (by omega))

/-- Either statistic of values in an interval. -/
theorem Filter.statistic_between (f : Filter) (hne : w ≠ []) (hlen : (w.length : Int) < 2 ^ 63)
    (hlo : 0 ≤ lo) (hsum : w.length * hi < 2 ^ 63) (hpair : 2 * hi < 2 ^ 63)
    (h : ∀ x ∈ w, x.Between lo hi) : (f.statistic w).Between lo hi := by
  have hle : lo ≤ hi := by
    obtain ⟨x, hx⟩ := List.exists_mem_of_ne_nil w hne
    exact (h x hx).1.trans (h x hx).2
  cases f with
  | mave m => exact windowMean_between hne hlen hlo hsum h
  | mmedian m =>
    exact windowMedian_between ⟨by omega, by omega⟩ ⟨by omega, by omega⟩ (mostly_of_forall hne h)

end Statistics

/-! ## Messages of bounded delay -/

/-- A call with a message that takes between `lo` and `hi`, between clocks that are `theta` apart; a
missing local timestamp says nothing. The rate ratio is one, as with clocks of the same rate the
time between two messages needs no conversion. -/
def BoundedOp (theta lo hi : Int) : TsprocOp D → Prop
  | .downTs remoteTs localTs => localTs.ns ≠ 0 →
      ∃ d, lo ≤ d ∧ d ≤ hi ∧ localTs.ns.toInt = remoteTs.ns.toInt + d + theta
  | .upTs localTs remoteTs => localTs.ns ≠ 0 →
      ∃ d, lo ≤ d ∧ d ≤ hi ∧ remoteTs.ns.toInt = localTs.ns.toInt + d - theta
  | .setClockRateRatio clockRateRatio => clockRateRatio = CDouble.lit 1
  | .updateDelay | .updateOffset | .reset _ => True

/-- A delay is between `lo` and `hi`; an offset is at most `hi - lo` from `theta`, and its weight is
not above one. Calls that only store a timestamp have no result to speak of. -/
def BoundedResult (theta lo hi : Int) (tsp : Tsproc D) : TsprocOp D → Prop
  | .updateDelay => ∀ delay tsp', tsprocUpdateDelay tsp = .ok (some delay, tsp') →
      delay.Between lo hi
  | .updateOffset => ∀ offset weight, tsprocUpdateOffset tsp = some (offset, weight) →
      |offset.ns.toInt - theta| ≤ hi - lo ∧ CDouble.lt (CDouble.lit 1) weight = false
  | .downTs _ _ | .upTs _ _ | .setClockRateRatio _ | .reset _ => True

/-- **The invariant**, for a filter of length `n`: the stored stamps are those of messages with a
bounded delay, or missing, and every delay in the window of the filter is bounded too, so that its
mean and its median are. -/
structure Bounded (theta lo hi : Int) (n : Nat) (tsp : Tsproc D) : Prop where
  ratio : tsp.clockRateRatio = CDouble.lit 1
  down : tsp.t2.ns ≠ 0 →
    ∃ d, lo ≤ d ∧ d ≤ hi ∧ tsp.t2.ns.toInt = tsp.t1.ns.toInt + d + theta
  up : tsp.t3.ns ≠ 0 → ∃ d, lo ≤ d ∧ d ≤ hi ∧ tsp.t4.ns.toInt = tsp.t3.ns.toInt + d - theta
  valid : tsp.filteredDelayValid = true → tsp.filteredDelay.Between lo hi
  len : tsp.delayFilter.len = n
  window : ∃ w, w.length ≤ n ∧ tsp.delayFilter.Tracks w ∧ ∀ x ∈ w, x.Between lo hi

/-- No weight is above one. -/
theorem offsetWeight_le_one [LawfulCDouble D] (tsp : Tsproc D) (rawDelay : Tmv) :
    CDouble.lt (CDouble.lit 1) (offsetWeight tsp rawDelay) = false := by
  rw [offsetWeight]
  split
  · dsimp only
    split
    · exact LawfulCDouble.lt_irrefl _
    · next hle => exact Bool.eq_false_of_not_eq_true hle
  · exact LawfulCDouble.lt_irrefl _

/-- An offset is as far from `theta` as the delay it is corrected by from that of its message. -/
theorem offset_near {theta lo hi d : Int} {t1 t2 delay : Tmv} (hlo : Fits (theta - (hi - lo)))
    (hhi : Fits (theta + (hi - lo))) (hd : lo ≤ d ∧ d ≤ hi)
    (ht2 : t2.ns.toInt = t1.ns.toInt + d + theta) (hdelay : delay.Between lo hi) :
    |(tmvSub (tmvSub t2 t1) delay).ns.toInt - theta| ≤ hi - lo := by
  obtain ⟨hd, hd'⟩ := hd
  obtain ⟨hdelay, hdelay'⟩ := hdelay
  obtain ⟨hlo, -⟩ := hlo
  obtain ⟨-, hhi⟩ := hhi
  have hoffset : tmvSub (tmvSub t2 t1) delay =
      ⟨Int64.ofInt (theta + (d - delay.ns.toInt))⟩ := by
    conv_lhs => rw [tmv_eq_ofInt t1, tmv_eq_ofInt t2, tmv_eq_ofInt delay, tmvSub_ofInt,
      tmvSub_ofInt, ht2]
    congr 2
    omega
  rw [hoffset, Int64.toInt_ofInt_of_le (by omega) (by omega), add_sub_cancel_left, abs_le]
  omega

section Step

variable [LawfulCDouble D] {theta lo hi : Int} {n : Nat} {tsp : Tsproc D}

/-- The raw delay of two measurements is half of their sum. -/
theorem getRawDelay_between (hlo : 0 ≤ lo) (hpair : 2 * hi < 2 ^ 63)
    (h : Bounded theta lo hi n tsp) (ht2 : tsp.t2.ns ≠ 0) (ht3 : tsp.t3.ns ≠ 0) :
    (getRawDelay tsp).Between lo hi := by
  obtain ⟨d, hd, hd', hdown⟩ := h.down ht2
  obtain ⟨d', he, he', hup⟩ := h.up ht3
  have hsum : tmvAdd (tmvSub tsp.t2 tsp.t3) (tmvSub tsp.t4 tsp.t1) =
      tmvAdd ⟨Int64.ofInt d⟩ ⟨Int64.ofInt d'⟩ := by
    rw [tmv_eq_ofInt tsp.t1, tmv_eq_ofInt tsp.t2, tmv_eq_ofInt tsp.t3, tmv_eq_ofInt tsp.t4,
      tmvSub_ofInt, tmvSub_ofInt, tmvAdd_ofInt, tmvAdd_ofInt, hdown, hup]
    congr 2
    omega
  have hvalue : ∀ e, lo ≤ e → e ≤ hi → Tmv.Between lo hi ⟨Int64.ofInt e⟩ := by
    intro e hlo' hhi'
    rw [Tmv.Between, Int64.toInt_ofInt_of_le (by omega) (by omega)]
    exact ⟨hlo', hhi'⟩
  have hhalf := half_between ⟨by omega, by omega⟩ ⟨by omega, by omega⟩ (hvalue d hd hd')
    (hvalue d' he he')
  simp only [getRawDelay, h.ratio, LawfulCDouble.eq_lit, Bool.not_true, Bool.false_eq_true,
    if_false, hsum]
  exact hhalf

/-- The delay update keeps the invariant and yields a delay in the interval. -/
theorem updateDelay_between (hlo : 0 ≤ lo) (hpair : 2 * hi < 2 ^ 63) (hn : 0 < n)
    (hn' : (n : Int) < 2 ^ 63) (hsum : (n : Int) * hi < 2 ^ 63) (h : Bounded theta lo hi n tsp) :
    ∃ result tsp', tsprocUpdateDelay tsp = .ok (result, tsp') ∧ Bounded theta lo hi n tsp' ∧
      ∀ delay, result = some delay → delay.Between lo hi := by
  by_cases hzero : (tmvIsZero tsp.t2 || tmvIsZero tsp.t3) = true
  · refine ⟨none, tsp, if_pos hzero, h, ?_⟩
    intro delay hdelay
    cases hdelay
  · have hmeasured := hzero
    rw [Bool.or_eq_true, not_or, tmvIsZero, tmvIsZero, decide_eq_true_eq, decide_eq_true_eq]
      at hmeasured
    obtain ⟨ht2, ht3⟩ := hmeasured
    have hraw := getRawDelay_between hlo hpair h ht2 ht3
    obtain ⟨w, hw, htracks, hwindow⟩ := h.window
    obtain ⟨filter', hsample, htracks', hkind⟩ := filterSample_spec htracks (getRawDelay tsp)
    rw [h.len] at hsample htracks'
    have hslide : ∀ x ∈ slide n w (getRawDelay tsp), x.Between lo hi := by
      intro x hx
      rcases List.mem_append.mp (List.mem_of_mem_drop hx) with hold | hnew
      · exact hwindow x hold
      · rw [List.mem_singleton.mp hnew]
        exact hraw
    have hlength : (slide n w (getRawDelay tsp)).length = min (w.length + 1) n := by
      rw [slide, length_rtake, List.length_append, List.length_singleton]
    have hhi : 0 ≤ hi := hlo.trans (hraw.1.trans hraw.2)
    have hle : ((slide n w (getRawDelay tsp)).length : Int) * hi ≤ n * hi :=
      mul_le_mul_of_nonneg_right (by omega) hhi
    have hne : slide n w (getRawDelay tsp) ≠ [] := by
      rw [← List.length_pos_iff]
      omega
    have hfiltered := tsp.delayFilter.statistic_between hne (by omega) hlo
      (hle.trans_lt hsum) hpair hslide
    refine ⟨_, _, tsprocUpdateDelay_of_sample hzero hsample, ?_, ?_⟩
    · exact ⟨h.ratio, h.down, h.up, fun _ => hfiltered, hkind.len_eq.trans h.len, _,
        by omega, htracks', hslide⟩
    · intro delay hdelay
      obtain rfl := Option.some.inj hdelay
      split
      · exact hfiltered
      · exact hraw

/-- The delay an offset is corrected by. -/
theorem offsetDelay_between (hlo : 0 ≤ lo) (hpair : 2 * hi < 2 ^ 63)
    (h : Bounded theta lo hi n tsp) (ht2 : tsp.t2.ns ≠ 0) {delay rawDelay : Tmv}
    (hdelay : offsetDelay tsp = some (delay, rawDelay)) : delay.Between lo hi := by
  unfold offsetDelay at hdelay
  cases hmode : tsp.mode with
  | filter | filterWeight =>
    simp only [hmode] at hdelay
    split at hdelay
    · cases hdelay
    · next hvalid =>
      obtain ⟨rfl, -⟩ := Prod.mk.inj (Option.some.inj hdelay)
      exact h.valid (by simp_all)
  | raw | rawWeight =>
    simp only [hmode] at hdelay
    split at hdelay
    · cases hdelay
    · next hmeasured =>
      obtain ⟨rfl, -⟩ := Prod.mk.inj (Option.some.inj hdelay)
      exact getRawDelay_between hlo hpair h ht2 (by simpa [tmvIsZero] using hmeasured)

/-- **The step lemma.** A call with a message of bounded delay succeeds and keeps the invariant. A
raw delay is half of the sum of two bounded delays, where the distance of the clocks cancels; the
mean and the median of bounded values are bounded. -/
theorem Bounded.step (hlo : 0 ≤ lo) (hpair : 2 * hi < 2 ^ 63) (hn : 0 < n)
    (hn' : (n : Int) < 2 ^ 63) (hsum : (n : Int) * hi < 2 ^ 63) (h : Bounded theta lo hi n tsp)
    {op : TsprocOp D} (hop : BoundedOp theta lo hi op) :
    ∃ tsp', tsprocStep tsp op = .ok tsp' ∧ Bounded theta lo hi n tsp' := by
  cases op with
  | downTs remoteTs localTs => exact ⟨_, rfl, h.ratio, hop, h.up, h.valid, h.len, h.window⟩
  | upTs localTs remoteTs => exact ⟨_, rfl, h.ratio, h.down, hop, h.valid, h.len, h.window⟩
  | setClockRateRatio clockRateRatio =>
    exact ⟨_, rfl, hop, h.down, h.up, h.valid, h.len, h.window⟩
  | updateDelay =>
    obtain ⟨result, tsp', hrun, htsp', -⟩ := updateDelay_between hlo hpair hn hn' hsum h
    exact ⟨tsp', by rw [tsprocStep, hrun]; rfl, htsp'⟩
  | updateOffset => exact ⟨tsp, rfl, h⟩
  | reset full =>
    cases full with
    | false =>
      exact ⟨_, rfl, h.ratio, fun hne => absurd rfl hne, fun hne => absurd rfl hne, h.valid,
        h.len, h.window⟩
    | true =>
      obtain ⟨w, -, htracks, -⟩ := h.window
      obtain ⟨filter', hreset, htracks', hkind⟩ := filterReset_spec htracks
      refine ⟨_, by simp only [tsprocStep, tsprocReset, hreset, if_true]; rfl, ?_⟩
      refine ⟨rfl, fun hne => absurd rfl hne, fun hne => absurd rfl hne, ?_,
        hkind.len_eq.trans h.len, [], n.zero_le, htracks', ?_⟩
      · intro hvalid
        cases hvalid
      · intro x hx
        cases hx

end Step

/-- A processor that was just created. -/
theorem bounded_create {grants : Nat → Bool} {mode delayFilter : UInt32} {length : Int}
    {tsp : Tsproc D} (theta lo hi : Int) (hlength : 1 ≤ length)
    (h : tsprocCreate grants mode delayFilter length = some tsp) :
    Bounded theta lo hi length.toNat tsp := by
  obtain ⟨-, hfilter, htsp⟩ := tsprocCreate_eq_some h
  obtain ⟨htracks, hlen⟩ := filterCreate_tracks (by omega) hfilter
  rw [htsp]
  refine ⟨rfl, fun hne => absurd rfl hne, fun hne => absurd rfl hne, ?_, by simp only; omega, [],
    Nat.zero_le _, htracks, ?_⟩
  · intro hvalid
    cases hvalid
  · intro x hx
    cases hx

/-- **Bounded jitter, bounded error.** Over every sequence of calls whose messages take between `lo`
and `hi`, from a processor of any mode and filter, no call faults, every delay is between `lo` and
`hi`, every offset is at most `hi - lo` from the true one, and no weight is above one. The bounds on
the products keep the sums of the filter and of the two delays in 64 bits. -/
theorem jitter_bounded [LawfulCDouble D] {grants : Nat → Bool} {mode delayFilter : UInt32}
    {length theta lo hi : Int} {tsp : Tsproc D} {ops : List (TsprocOp D)}
    (hlo : 0 ≤ lo) (hlength : 1 ≤ length) (hint : length < 2 ^ 31) (hsum : length * hi < 2 ^ 63)
    (hpair : 2 * hi < 2 ^ 63) (hlower : Fits (theta - (hi - lo)))
    (hupper : Fits (theta + (hi - lo)))
    (hcreate : tsprocCreate grants mode delayFilter length = some tsp)
    (hops : ∀ op ∈ ops, BoundedOp theta lo hi op) :
    Always tsprocStep (BoundedResult theta lo hi) tsp ops ∧
      ∃ tsp', ops.foldlM tsprocStep tsp = .ok tsp' := by
  have hcast : (length.toNat : Int) = length := Int.toNat_of_nonneg (by omega)
  have hstep : ∀ tsp op, Bounded theta lo hi length.toNat tsp → BoundedOp theta lo hi op →
      ∃ tsp', tsprocStep (D := D) tsp op = .ok tsp' ∧ Bounded theta lo hi length.toNat tsp' := by
    intro tsp op h hop
    exact h.step hlo hpair (by omega) (by omega) (by rwa [hcast]) hop
  have hresult : ∀ tsp op, Bounded theta lo hi length.toNat tsp → BoundedOp theta lo hi op →
      BoundedResult (D := D) theta lo hi tsp op := by
    intro tsp op h _
    cases op with
    | updateDelay =>
      intro delay tsp' hrun
      obtain ⟨result, tsp'', hrun', -, hbetween⟩ :=
        updateDelay_between hlo hpair (by omega) (by omega) (by rwa [hcast]) h
      rw [hrun] at hrun'
      exact hbetween delay (Prod.mk.inj (Except.ok.inj hrun')).1.symm
    | updateOffset =>
      intro offset weight hoffset
      obtain ⟨-, ht2, delay, rawDelay, hdelay, rfl, rfl⟩ := tsprocUpdateOffset_eq_some hoffset
      have ht2 : tsp.t2.ns ≠ 0 := by simpa [tmvIsZero] using ht2
      obtain ⟨d, hd, hd', hdown⟩ := h.down ht2
      exact ⟨offset_near hlower hupper ⟨hd, hd'⟩ hdown
        (offsetDelay_between hlo hpair h ht2 hdelay), offsetWeight_le_one tsp rawDelay⟩
    | _ => exact trivial
  have hinit := bounded_create theta lo hi hlength hcreate
  refine ⟨?_, ?_⟩
  · refine Always.of_inv ?_ hresult hinit (always_of_mem hops tsp)
    intro tsp op tsp' h hop hrun
    obtain ⟨tsp'', hrun', h'⟩ := hstep tsp op h hop
    obtain rfl := Except.ok.inj (hrun.symm.trans hrun')
    exact h'
  · obtain ⟨tsp', hrun, -⟩ := run_ok_of_inv hstep hinit hops
    exact ⟨tsp', hrun⟩

/-- Messages that take between 20 ns and 60 ns between clocks that are 500 ns apart, through a
median filter: every delay is between 20 ns and 60 ns, and the offset within their difference, 40
ns, of the 500 ns. -/
theorem jitter_bounded_median :
    Always tsprocStep (BoundedResult 500 20 60) medianTsproc
        [.upTs ⟨1000⟩ ⟨530⟩, .downTs ⟨2000⟩ ⟨2560⟩, .updateDelay, .downTs ⟨3000⟩ ⟨3520⟩,
          .updateDelay, .updateOffset] ∧
      ∃ tsp', [.upTs ⟨1000⟩ ⟨530⟩, .downTs ⟨2000⟩ ⟨2560⟩, .updateDelay, .downTs ⟨3000⟩ ⟨3520⟩,
        .updateDelay, .updateOffset].foldlM tsprocStep medianTsproc = .ok tsp' := by
  have hcreate : tsprocCreate (fun _ => true) 2 1 3 = some medianTsproc := rfl
  refine jitter_bounded (by decide) (by decide) (by decide) (by decide) (by decide) ⟨by decide,
    by decide⟩ ⟨by decide, by decide⟩ hcreate ?_
  simp only [List.forall_mem_cons, List.not_mem_nil, false_imp_iff, implies_true, and_true]
  exact ⟨fun _ => ⟨30, by decide⟩, fun _ => ⟨60, by decide⟩, trivial,
    fun _ => ⟨20, by decide⟩, trivial, trivial⟩

/-! ## Outliers -/

/-- The raw delays since the last full reset, after a call. -/
def rawDelaysAfter (tsp : Tsproc D) (raws : List Tmv) : TsprocOp D → List Tmv
  | .updateDelay =>
    if tmvIsZero tsp.t2 || tmvIsZero tsp.t3 then raws else raws ++ [getRawDelay tsp]
  | .reset true => []
  | .reset false | .downTs _ _ | .upTs _ _ | .setClockRateRatio _ | .updateOffset => raws

/-- A call, with the raw delays that were fed to the filter. They are kept beside the processor,
which forgets them when its ring buffer turns. -/
def watchStep (s : Tsproc D × List Tmv) (op : TsprocOp D) : Except Fault (Tsproc D × List Tmv) :=
  (tsprocStep s.1 op).map fun tsp => (tsp, rawDelaysAfter s.1 s.2 op)

/-- A delay update leaves fewer than half of the last `n` raw delays outside the interval. An update
that is refused for a missing timestamp feeds nothing, so nothing is asked of it. -/
def MostlyInside (lo hi : Int) (n : Nat) (s : Tsproc D × List Tmv) : TsprocOp D → Prop
  | .updateDelay => tmvIsZero s.1.t2 = false → tmvIsZero s.1.t3 = false →
      Mostly (fun x : Tmv => x.ns.toInt) lo hi ((s.2 ++ [getRawDelay s.1]).rtake n)
  | .reset _ | .downTs _ _ | .upTs _ _ | .setClockRateRatio _ | .updateOffset => True

instance decidableMostlyInside (lo hi : Int) (n : Nat) (s : Tsproc D × List Tmv) :
    (op : TsprocOp D) → Decidable (MostlyInside lo hi n s op)
  | .updateDelay => inferInstanceAs (Decidable (_ = false → _ = false → Mostly _ _ _ _))
  | .reset _ | .downTs _ _ | .upTs _ _ | .setClockRateRatio _ | .updateOffset => isTrue trivial

/-- A delay is between `lo` and `hi`; an offset is at most `hi - lo` from the true one if its own
message took between `lo` and `hi`. -/
def RejectsOutliers (lo hi : Int) (s : Tsproc D × List Tmv) : TsprocOp D → Prop
  | .updateDelay => ∀ delay tsp', tsprocUpdateDelay s.1 = .ok (some delay, tsp') →
      delay.Between lo hi
  | .updateOffset => ∀ offset weight, tsprocUpdateOffset s.1 = some (offset, weight) →
      ∀ theta d, lo ≤ d ∧ d ≤ hi → s.1.t2.ns.toInt = s.1.t1.ns.toInt + d + theta →
        Fits (theta - (hi - lo)) → Fits (theta + (hi - lo)) →
        |offset.ns.toInt - theta| ≤ hi - lo
  | .downTs _ _ | .upTs _ _ | .setClockRateRatio _ | .reset _ => True

/-- The filter is a median over the last `n` raw delays, and its value is inside. It says nothing
about the delays in the window themselves: some of them may be anything. -/
structure Rejecting (lo hi : Int) (n : Nat) (s : Tsproc D × List Tmv) : Prop where
  mode : s.1.mode = .filter ∨ s.1.mode = .filterWeight
  valid : s.1.filteredDelayValid = true → s.1.filteredDelay.Between lo hi
  window : ∃ m, s.1.delayFilter = .mmedian m ∧ m.Tracks (s.2.rtake n) ∧ m.len = n

section Reject

variable {lo hi : Int} {n : Nat} {s : Tsproc D × List Tmv}

/-- A delay update, most of whose window is inside. It is refused, or the filter returns the median
of the window, which is inside as well. -/
theorem Rejecting.updateDelay (hlo : Fits (2 * lo)) (hhi : Fits (2 * hi))
    (h : Rejecting lo hi n s) (hmostly : MostlyInside lo hi n s .updateDelay) :
    ∃ result tsp', tsprocUpdateDelay s.1 = .ok (result, tsp') ∧
      Rejecting lo hi n (tsp', rawDelaysAfter s.1 s.2 .updateDelay) ∧
      ∀ delay, result = some delay → delay.Between lo hi := by
  by_cases hzero : (tmvIsZero s.1.t2 || tmvIsZero s.1.t3) = true
  · rw [rawDelaysAfter, if_pos hzero]
    refine ⟨none, s.1, if_pos hzero, h, ?_⟩
    intro delay hdelay
    cases hdelay
  · rw [rawDelaysAfter, if_neg hzero]
    have hmeasured := hzero
    rw [Bool.or_eq_true, not_or, Bool.not_eq_true, Bool.not_eq_true] at hmeasured
    obtain ⟨m, hm, htracks, rfl⟩ := h.window
    obtain ⟨m', hsample, htracks', hlen⟩ := mmedianSample_spec htracks (getRawDelay s.1)
    rw [slide_rtake] at hsample htracks'
    have hbetween := windowMedian_between hlo hhi (hmostly hmeasured.1 hmeasured.2)
    have hfilter : filterSample s.1.delayFilter (getRawDelay s.1) =
        .ok (windowMedian ((s.2 ++ [getRawDelay s.1]).rtake m.len), .mmedian m') := by
      simp only [hm, filterSample, hsample, bind, Except.bind, pure, Except.pure]
    refine ⟨_, _, tsprocUpdateDelay_of_sample hzero hfilter, ⟨h.mode, fun _ => hbetween, m', rfl,
      htracks', hlen⟩, ?_⟩
    intro delay hdelay
    rw [if_pos h.mode] at hdelay
    obtain rfl := Option.some.inj hdelay
    exact hbetween

/-- In the two modes the offset is corrected by the filtered delay. -/
theorem Rejecting.offsetDelay (h : Rejecting lo hi n s) {delay rawDelay : Tmv}
    (hdelay : offsetDelay s.1 = some (delay, rawDelay)) : delay.Between lo hi := by
  unfold ExternalServo.offsetDelay at hdelay
  rcases h.mode with hmode | hmode
  · simp only [hmode] at hdelay
    split at hdelay
    · cases hdelay
    · next hvalid =>
      obtain ⟨rfl, -⟩ := Prod.mk.inj (Option.some.inj hdelay)
      exact h.valid (by simpa using hvalid)
  · simp only [hmode] at hdelay
    split at hdelay
    · cases hdelay
    · next hvalid =>
      obtain ⟨rfl, -⟩ := Prod.mk.inj (Option.some.inj hdelay)
      exact h.valid (by simp_all)

/-- **The step lemma.** The new window is the one that the condition speaks of, and the median of a
list most of which is inside an interval is inside too: with half of the values or more on one side
of the interval, it would not be `Mostly` inside. -/
theorem Rejecting.step (hlo : Fits (2 * lo)) (hhi : Fits (2 * hi)) (h : Rejecting lo hi n s)
    {op : TsprocOp D} (hop : MostlyInside lo hi n s op) :
    ∃ s', watchStep s op = .ok s' ∧ Rejecting lo hi n s' := by
  obtain ⟨hmode, hvalid, hwindow⟩ := h
  cases op with
  | downTs remoteTs localTs => exact ⟨_, rfl, hmode, hvalid, hwindow⟩
  | upTs localTs remoteTs => exact ⟨_, rfl, hmode, hvalid, hwindow⟩
  | setClockRateRatio clockRateRatio => exact ⟨_, rfl, hmode, hvalid, hwindow⟩
  | updateDelay =>
    obtain ⟨result, tsp', hrun, h', -⟩ :=
      Rejecting.updateDelay hlo hhi ⟨hmode, hvalid, hwindow⟩ hop
    exact ⟨_, by rw [watchStep, tsprocStep, hrun]; rfl, h'⟩
  | updateOffset => exact ⟨s, rfl, hmode, hvalid, hwindow⟩
  | reset full =>
    cases full with
    | false => exact ⟨_, rfl, hmode, hvalid, hwindow⟩
    | true =>
      obtain ⟨m, hm, htracks, hlen⟩ := hwindow
      obtain ⟨htracks', hlen'⟩ := mmedianReset_tracks htracks
      refine ⟨({ s.1 with
        t1 := tmvZero, t2 := tmvZero, t3 := tmvZero, t4 := tmvZero
        clockRateRatio := CDouble.lit 1, delayFilter := .mmedian (mmedianReset m)
        filteredDelayValid := false }, []), ?_, hmode, ?_, mmedianReset m, rfl, ?_,
        hlen'.trans hlen⟩
      · simp only [watchStep, tsprocStep, tsprocReset, hm, filterReset, if_true]
        rfl
      · intro hvalid
        cases hvalid
      · rw [List.rtake_nil]
        exact htracks'

end Reject

/-- **The median rejects outliers.** In the modes that use the filtered delay, with a moving median
of any length: over every sequence of calls with any timestamps, if at each delay update fewer than
half of the last raw delays are outside the interval from `lo` to `hi`, every delay is inside, and
every offset whose own message took between `lo` and `hi` is at most `hi - lo` off. The delays
outside may be as far away as the type allows. -/
theorem median_rejects {grants : Nat → Bool} {mode : UInt32} {length lo hi : Int} {tsp : Tsproc D}
    {ops : List (TsprocOp D)} (hmode : tsp.mode = .filter ∨ tsp.mode = .filterWeight)
    (hlo : Fits (2 * lo)) (hhi : Fits (2 * hi))
    (hcreate : tsprocCreate grants mode 1 length = some tsp)
    (hops : Always watchStep (MostlyInside lo hi length.toNat) (tsp, []) ops) :
    Always watchStep (RejectsOutliers lo hi) (tsp, []) ops ∧
      ∀ s', ops.foldlM watchStep (tsp, []) = .ok s' → s'.1.filteredDelayValid = true →
        s'.1.filteredDelay.Between lo hi := by
  have hinit : Rejecting lo hi length.toNat (tsp, []) := by
    obtain ⟨-, hfilter, htsp⟩ := tsprocCreate_eq_some hcreate
    obtain ⟨m, hm, hmedian⟩ := Option.map_eq_some_iff.mp hfilter
    obtain ⟨htracks, hlen, hpos⟩ := mmedianCreate_tracks hm
    refine ⟨hmode, ?_, m, hmedian.symm, by rwa [List.rtake_nil], by omega⟩
    intro hvalid
    rw [htsp] at hvalid
    cases hvalid
  have hstep : ∀ s op s', Rejecting lo hi length.toNat s → MostlyInside lo hi length.toNat s op →
      watchStep (D := D) s op = .ok s' → Rejecting lo hi length.toNat s' := by
    intro s op s' h hop hok
    obtain ⟨s'', hok', h'⟩ := h.step hlo hhi hop
    obtain rfl := Except.ok.inj (hok.symm.trans hok')
    exact h'
  refine ⟨Always.of_inv hstep ?_ hinit hops, ?_⟩
  · intro s op h hop
    cases op with
    | updateDelay =>
      intro delay tsp' hrun
      obtain ⟨result, tsp'', hrun', -, hbetween⟩ := h.updateDelay hlo hhi hop
      rw [hrun] at hrun'
      exact hbetween delay (Prod.mk.inj (Except.ok.inj hrun')).1.symm
    | updateOffset =>
      intro offset weight hoffset theta d hd hdown hlower hupper
      obtain ⟨-, -, delay, rawDelay, hdelay, rfl, -⟩ := tsprocUpdateOffset_eq_some hoffset
      exact offset_near hlower hupper hd hdown (h.offsetDelay hdelay)
    | _ => exact trivial
  · intro s' hrun
    exact (run_inv hstep hinit hops hrun).valid

/-- One slow message out of three: the raw delays are 25, 25 and 1025. -/
theorem median_rejects_one :
    Always watchStep (RejectsOutliers 20 30) (medianTsproc, [])
        [.upTs ⟨1000⟩ ⟨530⟩, .downTs ⟨2000⟩ ⟨2520⟩, .updateDelay, .updateDelay,
          .upTs ⟨3000⟩ ⟨4530⟩, .updateDelay, .updateOffset] ∧
      ∀ s', [.upTs ⟨1000⟩ ⟨530⟩, .downTs ⟨2000⟩ ⟨2520⟩, .updateDelay, .updateDelay,
          .upTs ⟨3000⟩ ⟨4530⟩, .updateDelay, .updateOffset].foldlM watchStep
            (medianTsproc, []) = .ok s' →
        s'.1.filteredDelayValid = true → s'.1.filteredDelay.Between 20 30 := by
  have hcreate : tsprocCreate (fun _ => true) 2 1 3 = some medianTsproc := rfl
  exact median_rejects (.inr rfl) ⟨by decide, by decide⟩ ⟨by decide, by decide⟩ hcreate
    (by decide +kernel)

end ExternalServo
