import ExternalServo.Tsproc
import ExternalServo.FilterWindow
import ExternalServo.Runs

/-!
# The time stamp processor without noise

The slave's clock is ahead by `theta`, a message takes `d` in either direction, and every
timestamp is exact. Whatever order the calls come in, the delays are `d`, the offsets are
`theta` and the weights are one.

The invariant, `Symmetric`, joins the two stored measurements with the contents of the
filter: each measurement is exact by itself, so the raw delay of any pair of them is `d`,
and the filter's window holds `d` only. The window is forgotten by a full reset while the
last filtered delay is kept, so that delay is zero or `d`.
-/

namespace ExternalServo

open CArith Runs SlidingWindow

variable {D : Type} [CDouble D]

/-- A call with exact timestamps: the message takes `d` in either direction, and the local clock is
`theta` ahead. Zero is excluded as a time, as it would count as missing; the times have to fit in 64
bits. -/
def NoiseFreeOp (theta d : Int) : TsprocOp D → Prop
  | .downTs remoteTs localTs =>
    remoteTs.ns ≠ 0 ∧ localTs.ns ≠ 0 ∧ localTs.ns.toInt = remoteTs.ns.toInt + d + theta ∧
      Fits (localTs.ns.toInt - remoteTs.ns.toInt)
  | .upTs localTs remoteTs =>
    localTs.ns ≠ 0 ∧ remoteTs.ns ≠ 0 ∧ remoteTs.ns.toInt = localTs.ns.toInt + d - theta ∧
      Fits (remoteTs.ns.toInt - localTs.ns.toInt)
  | .setClockRateRatio clockRateRatio => clockRateRatio = CDouble.lit 1
  | .updateDelay | .updateOffset | .reset _ => True

/-- A successful update of the delay yields `d`, one of the offset `theta` with weight one. An
update that misses a measurement yields nothing, and is no exception. -/
def ExactResult (theta d : Int) (tsp : Tsproc D) : TsprocOp D → Prop
  | .updateDelay => ∀ delay tsp', tsprocUpdateDelay tsp = .ok (some delay, tsp') →
      delay.ns.toInt = d
  | .updateOffset => ∀ offset weight, tsprocUpdateOffset tsp = some (offset, weight) →
      offset.ns.toInt = theta ∧ weight = CDouble.lit 1
  | .downTs _ _ | .upTs _ _ | .setClockRateRatio _ | .reset _ => True

/-- The delay as a time value. -/
def delayTmv (d : Int) : Tmv := ⟨Int64.ofInt d⟩

/-- **The invariant**, for a filter of length `n`: the time stamps of either direction, where there
are any, are `d` apart up to `theta`, the filtered delay is `d` if it is valid, and so is every
sample of the filter. The two directions need not be of the same time. -/
structure Symmetric (theta d : Int) (n : Nat) (tsp : Tsproc D) : Prop where
  ratio : tsp.clockRateRatio = CDouble.lit 1
  down : tsp.t2.ns ≠ 0 → tsp.t2.ns.toInt = tsp.t1.ns.toInt + d + theta ∧ Fits (d + theta)
  up : tsp.t3.ns ≠ 0 → tsp.t4.ns.toInt = tsp.t3.ns.toInt + d - theta ∧ Fits (d - theta)
  filtered : tsp.filteredDelay = tmvZero ∨ tsp.filteredDelay = delayTmv d
  valid : tsp.filteredDelayValid = true → tsp.filteredDelay = delayTmv d ∧ Fits (d - theta)
  len : tsp.delayFilter.len = n
  window : ∃ k, k ≤ n ∧ tsp.delayFilter.Tracks (List.replicate k (delayTmv d))

section Values

variable {theta d : Int} {n : Nat} {tsp : Tsproc D}

theorem delayTmv_toInt (hd : 0 ≤ d) (hpair : 2 * d < 2 ^ 63) : (delayTmv d).ns.toInt = d :=
  Int64.toInt_ofInt_of_le (by omega) (by omega)

/-- The raw delay of two exact measurements, whenever they were made. -/
theorem getRawDelay_exact [LawfulCDouble D] (hd : 0 ≤ d) (hpair : 2 * d < 2 ^ 63)
    (h : Symmetric theta d n tsp) (ht2 : tsp.t2.ns ≠ 0) (ht3 : tsp.t3.ns ≠ 0) :
    getRawDelay tsp = delayTmv d := by
  obtain ⟨hdown, -⟩ := h.down ht2
  obtain ⟨hup, -⟩ := h.up ht3
  have hsum : tmvAdd (tmvSub tsp.t2 tsp.t3) (tmvSub tsp.t4 tsp.t1) =
      ⟨Int64.ofInt (2 * d)⟩ := by
    rw [tmv_eq_ofInt tsp.t1, tmv_eq_ofInt tsp.t2, tmv_eq_ofInt tsp.t3, tmv_eq_ofInt tsp.t4,
      tmvSub_ofInt, tmvSub_ofInt, tmvAdd_ofInt, hdown, hup]
    congr 2
    omega
  have hfits : (Int64.ofInt (2 * d)).toInt = 2 * d := Int64.toInt_ofInt_of_le (by omega) hpair
  apply tmv_ext_toInt
  simp only [getRawDelay, h.ratio, LawfulCDouble.eq_lit, Bool.not_true, Bool.false_eq_true,
    if_false, hsum]
  rw [toInt_half, hfits, delayTmv_toInt hd hpair]
  exact Int.mul_tdiv_cancel_left _ (by decide)

/-- The weight of a sample whose raw delay is `d` or unknown. If both delays are positive, both are
`d` and their quotient is one; otherwise the weight is one anyway. -/
theorem offsetWeight_exact [LawfulCDouble D] (h : Symmetric theta d n tsp) {rawDelay : Tmv}
    (hraw : rawDelay = tmvZero ∨ rawDelay = delayTmv d) :
    offsetWeight tsp rawDelay = CDouble.lit 1 := by
  rw [offsetWeight]
  split
  · next hsign =>
    simp only [Bool.and_eq_true, decide_eq_true_eq, gt_iff_lt, tmvSign_pos] at hsign
    -- both delays are positive, so both are `d`
    obtain ⟨⟨-, hfiltered⟩, hpos⟩ := hsign
    have hf : tsp.filteredDelay = delayTmv d := by
      rcases h.filtered with hzero | hf
      · rw [hzero] at hfiltered
        exact absurd hfiltered (by decide)
      · exact hf
    have hr : rawDelay = delayTmv d := by
      rcases hraw with hzero | hr
      · rw [hzero] at hpos
        exact absurd hpos (by decide)
      · exact hr
    have hone : (tmvDbl (delayTmv d) / tmvDbl (delayTmv d) : D) = CDouble.lit 1 := by
      apply LawfulCDouble.ofInt_div_self
      intro hzero
      rw [hr, hzero] at hpos
      exact absurd hpos (by decide)
    simp only [hf, hr, hone, LawfulCDouble.lt_irrefl, Bool.false_eq_true, if_false]
  · rfl

end Values

/-! ## One call -/

section Step

variable [LawfulCDouble D] {theta d : Int} {n : Nat} {tsp tsp' : Tsproc D}

/-- The statistic of a window of equal delays, after one more of them. -/
theorem statistic_exact (filter : Filter) (hd : 0 ≤ d) (hpair : 2 * d < 2 ^ 63) (hn : 0 < n)
    (hn' : (n : Int) < 2 ^ 63) (hsum : (n : Int) * d < 2 ^ 63) (k : Nat) :
    filter.statistic (slide n (List.replicate k (delayTmv d)) (delayTmv d)) = delayTmv d := by
  have hvalue := delayTmv_toInt hd hpair
  have hle : ((min (k + 1) n : Nat) : Int) * d ≤ n * d :=
    mul_le_mul_of_nonneg_right (by omega) hd
  rw [slide_replicate]
  refine Filter.statistic_replicate _ (by omega) (by omega) ?_ ?_ ?_
  · rw [hvalue]
    exact hd
  · rw [hvalue]
    exact hle.trans_lt hsum
  · rw [hvalue]
    exact hpair

/-- The delay update feeds `d` to the filter and gets `d` back, as it is the mean and the median of
a window that holds nothing else. -/
theorem updateDelay_exact (hd : 0 ≤ d) (hpair : 2 * d < 2 ^ 63) (hn : 0 < n)
    (hn' : (n : Int) < 2 ^ 63) (hsum : (n : Int) * d < 2 ^ 63) (h : Symmetric theta d n tsp) :
    ∃ result tsp', tsprocUpdateDelay tsp = .ok (result, tsp') ∧ Symmetric theta d n tsp' ∧
      ∀ delay, result = some delay → delay.ns.toInt = d := by
  by_cases hzero : tmvIsZero tsp.t2 || tmvIsZero tsp.t3
  · refine ⟨none, tsp, if_pos hzero, h, ?_⟩
    intro delay hdelay
    cases hdelay
  · have hmeasured := hzero
    rw [Bool.or_eq_true, not_or, tmvIsZero, tmvIsZero, decide_eq_true_eq, decide_eq_true_eq]
      at hmeasured
    obtain ⟨ht2, ht3⟩ := hmeasured
    have hraw := getRawDelay_exact hd hpair h ht2 ht3
    obtain ⟨k, hk, htracks⟩ := h.window
    obtain ⟨filter', hsample, htracks', hkind⟩ := filterSample_spec htracks (delayTmv d)
    rw [h.len, statistic_exact _ hd hpair hn hn' hsum k] at hsample
    rw [slide_replicate, h.len] at htracks'
    refine ⟨some (delayTmv d), { tsp with
      filteredDelay := delayTmv d, delayFilter := filter', filteredDelayValid := true }, ?_, ?_, ?_⟩
    · rw [tsprocUpdateDelay, if_neg hzero, hraw]
      simp only [hsample, bind, Except.bind, pure, Except.pure]
      -- the filtered and the raw delay agree
      cases tsp.mode <;> rfl
    · refine ⟨h.ratio, h.down, h.up, .inr rfl, ?_, hkind.len_eq.trans h.len, _, by omega, htracks'⟩
      intro _
      exact ⟨rfl, (h.up ht3).2⟩
    · intro delay hdelay
      obtain rfl := Option.some.inj hdelay
      exact delayTmv_toInt hd hpair

/-- In every mode the delay an offset is corrected by is known, and then the offset is in range. -/
theorem offsetDelay_exact (hd : 0 ≤ d) (hpair : 2 * d < 2 ^ 63) (h : Symmetric theta d n tsp)
    (ht2 : tsp.t2.ns ≠ 0) {delay rawDelay : Tmv}
    (hdelay : offsetDelay tsp = some (delay, rawDelay)) :
    delay = delayTmv d ∧ (rawDelay = tmvZero ∨ rawDelay = delayTmv d) ∧ Fits (d - theta) := by
  have hraw : tsp.t3.ns ≠ 0 → getRawDelay tsp = delayTmv d := getRawDelay_exact hd hpair h ht2
  unfold offsetDelay at hdelay
  cases hmode : tsp.mode with
  | filter =>
    simp only [hmode] at hdelay
    split at hdelay
    · cases hdelay
    · next hvalid =>
      obtain ⟨rfl, rfl⟩ := Prod.mk.inj (Option.some.inj hdelay)
      obtain ⟨hfiltered, hfits⟩ := h.valid (by simpa using hvalid)
      exact ⟨hfiltered, .inl rfl, hfits⟩
  | filterWeight =>
    simp only [hmode] at hdelay
    split at hdelay
    · cases hdelay
    · next hmeasured =>
      obtain ⟨rfl, rfl⟩ := Prod.mk.inj (Option.some.inj hdelay)
      simp only [tmvIsZero, Bool.or_eq_true, decide_eq_true_eq, not_or, Bool.not_eq_true',
        Bool.not_eq_false] at hmeasured
      obtain ⟨ht3, hvalid⟩ := hmeasured
      obtain ⟨hfiltered, hfits⟩ := h.valid hvalid
      exact ⟨hfiltered, .inr (hraw ht3), hfits⟩
  | raw | rawWeight =>
    simp only [hmode] at hdelay
    split at hdelay
    · cases hdelay
    · next hmeasured =>
      obtain ⟨rfl, rfl⟩ := Prod.mk.inj (Option.some.inj hdelay)
      have ht3 : tsp.t3.ns ≠ 0 := by simpa [tmvIsZero] using hmeasured
      exact ⟨hraw ht3, .inr (hraw ht3), (h.up ht3).2⟩

/-- The offset update corrects the down measurement by `d`. -/
theorem updateOffset_exact (hd : 0 ≤ d) (hpair : 2 * d < 2 ^ 63) (h : Symmetric theta d n tsp)
    {offset : Tmv} {weight : D} (hoffset : tsprocUpdateOffset tsp = some (offset, weight)) :
    offset.ns.toInt = theta ∧ weight = CDouble.lit 1 := by
  obtain ⟨-, ht2, delay, rawDelay, hdelay, rfl, rfl⟩ := tsprocUpdateOffset_eq_some hoffset
  have ht2 : tsp.t2.ns ≠ 0 := by simpa [tmvIsZero] using ht2
  obtain ⟨hdown, hlo, hhi⟩ := h.down ht2
  obtain ⟨rfl, hraw, hlo', hhi'⟩ := offsetDelay_exact hd hpair h ht2 hdelay
  refine ⟨?_, offsetWeight_exact h hraw⟩
  have hvalue : tmvSub (tmvSub tsp.t2 tsp.t1) (delayTmv d) = ⟨Int64.ofInt theta⟩ := by
    rw [tmv_eq_ofInt tsp.t1, tmv_eq_ofInt tsp.t2, delayTmv, tmvSub_ofInt, tmvSub_ofInt, hdown]
    congr 2
    omega
  rw [hvalue]
  exact Int64.toInt_ofInt_of_le (by omega) (by omega)

/-- **The step lemma.** A call with exact timestamps succeeds and keeps the invariant. The raw delay
is half the sum of two times that are each `d`, whichever messages they are from. -/
theorem Symmetric.step (hd : 0 ≤ d) (hpair : 2 * d < 2 ^ 63) (hn : 0 < n)
    (hn' : (n : Int) < 2 ^ 63) (hsum : (n : Int) * d < 2 ^ 63) (h : Symmetric theta d n tsp)
    {op : TsprocOp D} (hop : NoiseFreeOp theta d op) :
    ∃ tsp', tsprocStep tsp op = .ok tsp' ∧ Symmetric theta d n tsp' := by
  cases op with
  | downTs remoteTs localTs =>
    obtain ⟨-, -, hdown, hfits⟩ := hop
    have hdiff : localTs.ns.toInt - remoteTs.ns.toInt = d + theta := by omega
    rw [hdiff] at hfits
    refine ⟨_, rfl, h.ratio, ?_, h.up, h.filtered, h.valid, h.len, h.window⟩
    intro _
    exact ⟨hdown, hfits⟩
  | upTs localTs remoteTs =>
    obtain ⟨-, -, hup, hfits⟩ := hop
    have hdiff : remoteTs.ns.toInt - localTs.ns.toInt = d - theta := by omega
    rw [hdiff] at hfits
    refine ⟨_, rfl, h.ratio, h.down, ?_, h.filtered, h.valid, h.len, h.window⟩
    intro _
    exact ⟨hup, hfits⟩
  | setClockRateRatio clockRateRatio =>
    exact ⟨_, rfl, hop, h.down, h.up, h.filtered, h.valid, h.len, h.window⟩
  | updateDelay =>
    obtain ⟨result, tsp', hrun, htsp', -⟩ := updateDelay_exact hd hpair hn hn' hsum h
    exact ⟨tsp', by rw [tsprocStep, hrun]; rfl, htsp'⟩
  | updateOffset => exact ⟨tsp, rfl, h⟩
  | reset full =>
    -- nothing is measured any more
    have hdown : tmvZero.ns ≠ 0 → tmvZero.ns.toInt = tmvZero.ns.toInt + d + theta ∧
        Fits (d + theta) := by
      intro hne
      exact absurd rfl hne
    have hup : tmvZero.ns ≠ 0 → tmvZero.ns.toInt = tmvZero.ns.toInt + d - theta ∧
        Fits (d - theta) := by
      intro hne
      exact absurd rfl hne
    cases full with
    | false => exact ⟨_, rfl, h.ratio, hdown, hup, h.filtered, h.valid, h.len, h.window⟩
    | true =>
      obtain ⟨k, -, htracks⟩ := h.window
      obtain ⟨filter', hreset, htracks', hkind⟩ := filterReset_spec htracks
      refine ⟨_, by simp only [tsprocStep, tsprocReset, hreset, if_true]; rfl, ?_⟩
      refine ⟨rfl, hdown, hup, h.filtered, ?_, hkind.len_eq.trans h.len, 0, n.zero_le, htracks'⟩
      intro hvalid
      cases hvalid

end Step

/-! ## Runs -/

/-- A processor that was just created knows no measurement. -/
theorem symmetric_create {grants : Nat → Bool} {mode delayFilter : UInt32} {length : Int}
    {tsp : Tsproc D} (theta d : Int) (hlength : 1 ≤ length)
    (h : tsprocCreate grants mode delayFilter length = some tsp) :
    Symmetric theta d length.toNat tsp := by
  obtain ⟨-, hfilter, htsp⟩ := tsprocCreate_eq_some h
  obtain ⟨htracks, hlen⟩ := filterCreate_tracks (by omega) hfilter
  rw [htsp]
  refine ⟨rfl, ?_, ?_, .inl rfl, ?_, by simp only; omega, 0, Nat.zero_le _, htracks⟩
  · intro hne
    exact absurd rfl hne
  · intro hne
    exact absurd rfl hne
  · intro hvalid
    cases hvalid

/-- **Noise-free exactness.** Over every sequence of calls with exact timestamps, from a processor
of any mode and filter, no call faults, every delay is `d`, and every offset is `theta` with weight
one. The calls may be interleaved in any way, resets included. -/
theorem noiseFree_exact [LawfulCDouble D] {grants : Nat → Bool} {mode delayFilter : UInt32}
    {length theta d : Int} {tsp : Tsproc D} {ops : List (TsprocOp D)}
    (hd : 0 ≤ d) (hlength : 1 ≤ length) (hint : length < 2 ^ 31) (hsum : length * d < 2 ^ 63)
    (hpair : 2 * d < 2 ^ 63) (hcreate : tsprocCreate grants mode delayFilter length = some tsp)
    (hops : ∀ op ∈ ops, NoiseFreeOp theta d op) :
    Always tsprocStep (ExactResult theta d) tsp ops ∧
      ∃ tsp', ops.foldlM tsprocStep tsp = .ok tsp' := by
  have hcast : (length.toNat : Int) = length := Int.toNat_of_nonneg (by omega)
  have hstep : ∀ tsp op, Symmetric theta d length.toNat tsp → NoiseFreeOp theta d op →
      ∃ tsp', tsprocStep (D := D) tsp op = .ok tsp' ∧ Symmetric theta d length.toNat tsp' := by
    intro tsp op h hop
    exact h.step hd hpair (by omega) (by omega) (by rwa [hcast]) hop
  have hresult : ∀ tsp op, Symmetric theta d length.toNat tsp → NoiseFreeOp theta d op →
      ExactResult (D := D) theta d tsp op := by
    intro tsp op h _
    cases op with
    | updateDelay =>
      intro delay tsp' hrun
      obtain ⟨result, tsp'', hrun', -, hexact⟩ :=
        updateDelay_exact hd hpair (by omega) (by omega) (by rwa [hcast]) h
      rw [hrun] at hrun'
      exact hexact delay (Prod.mk.inj (Except.ok.inj hrun')).1.symm
    | updateOffset =>
      intro offset weight hoffset
      exact updateOffset_exact hd hpair h hoffset
    | _ => exact trivial
  have hinit := symmetric_create theta d hlength hcreate
  refine ⟨?_, ?_⟩
  · refine Always.of_inv ?_ hresult hinit (always_of_mem hops tsp)
    intro tsp op tsp' h hop hrun
    obtain ⟨tsp'', hrun', h'⟩ := hstep tsp op h hop
    obtain rfl := Except.ok.inj (hrun.symm.trans hrun')
    exact h'
  · obtain ⟨tsp', hrun, -⟩ := run_ok_of_inv hstep hinit hops
    exact ⟨tsp', hrun⟩

/-- A processor with a median filter of length three, and no measurement yet. -/
def medianTsproc : Tsproc XRat :=
  ⟨.filterWeight, .fin 1, tmvZero, tmvZero, tmvZero, tmvZero, tmvZero, false,
    .mmedian ⟨0, 3, 0, [0, 0, 0], [tmvZero, tmvZero, tmvZero]⟩⟩

/-- Clocks 500 ns apart and messages of 20 ns each way, through a median filter of length three: the
delay is measured as 20 ns, the offset as 500 ns, and a full reset does no harm. -/
theorem noiseFree_median :
    Always tsprocStep (ExactResult 500 20) medianTsproc
        [.upTs ⟨1000⟩ ⟨520⟩, .downTs ⟨2000⟩ ⟨2520⟩, .updateDelay, .updateOffset, .reset true] ∧
      ∃ tsp', [.upTs ⟨1000⟩ ⟨520⟩, .downTs ⟨2000⟩ ⟨2520⟩, .updateDelay, .updateOffset,
        .reset true].foldlM tsprocStep medianTsproc = .ok tsp' := by
  have hcreate : tsprocCreate (fun _ => true) 2 1 3 = some medianTsproc := rfl
  exact noiseFree_exact (by decide) (by decide) (by decide) (by decide) (by decide) hcreate
    (by simp [NoiseFreeOp, Fits])

end ExternalServo
