import ExternalServo.FilterSafety
import Mathlib.Data.Int.ModEq

/-!
# The delay filters over a run

What the two filters return after any sequence of samples and resets, in terms of the samples
that were taken since the last reset (`samplesSinceReset`):

* `maveAccumulate_correct` — the running sum of the moving average is the sum of the last
  samples modulo `2 ^ 64`, whatever overflowed before; where the exact sum fits, the mean is its
  truncating quotient.
* `mmedianSample_correct` — the order of the moving median arranges the slots of the last samples
  by value, and the median is read off it.

Both are runs of a `Tracks` invariant against the window of the history (`run_fold`).
-/

namespace ExternalServo

open CArith Runs SlidingWindow

/-! ## The samples of a history -/

/-- The samples since the last reset after one more call: the history that a filter is compared
with. It grows without bound, where the filter keeps a ring buffer of the newest ones. -/
def samplesAfter (xs : List Tmv) : FilterOp → List Tmv
  | .sample x => xs ++ [x]
  | .reset => []

/-- The samples since the last reset, the oldest first. -/
def samplesSinceReset (ops : List FilterOp) : List Tmv := ops.foldl samplesAfter []

theorem samplesSinceReset_sample (ops : List FilterOp) (x : Tmv) :
    samplesSinceReset (ops ++ [.sample x]) = samplesSinceReset ops ++ [x] := by
  rw [samplesSinceReset, List.foldl_append]
  rfl

/-! ## Moving average -/

/-- A moving average after a call. -/
def maveStep (m : Mave) : FilterOp → Except Fault Mave
  | .sample x => (maveAccumulate m x).map Prod.snd
  | .reset => maveReset m

/-- A call keeps the window of the history. -/
theorem maveStep_tracks {len : Nat} {m : Mave} {xs : List Tmv} (op : FilterOp)
    (h : m.Tracks (xs.rtake len) ∧ m.len = len) :
    ∃ m', maveStep m op = .ok m' ∧ m'.Tracks ((samplesAfter xs op).rtake len) ∧ m'.len = len := by
  obtain ⟨htracks, rfl⟩ := h
  cases op with
  | sample x =>
    obtain ⟨m', hrun, htracks', hlen⟩ := maveAccumulate_spec htracks x
    rw [slide_rtake] at htracks'
    refine ⟨m', ?_, htracks', hlen⟩
    rw [maveStep, hrun]
    rfl
  | reset =>
    obtain ⟨m', hrun, htracks', hlen⟩ := maveReset_spec htracks
    refine ⟨m', hrun, ?_, hlen⟩
    rw [samplesAfter, List.rtake_nil]
    exact htracks'

/-- The window of a moving average after any calls. -/
theorem maveRun_tracks {grants : Nat → Bool} {length : Int} {m : Mave} (hlen : 1 ≤ length)
    (hcreate : maveCreate grants length = some m) (ops : List FilterOp) :
    ∃ m', ops.foldlM maveStep m = .ok m' ∧
      m'.Tracks ((samplesSinceReset ops).rtake length.toNat) ∧ m'.len = length.toNat := by
  obtain ⟨htracks, hm⟩ := maveCreate_tracks (by omega) hcreate
  have hinit : m.Tracks (([] : List Tmv).rtake length.toNat) ∧ m.len = length.toNat := by
    rw [List.rtake_nil]
    exact ⟨htracks, by omega⟩
  have hstep : ∀ (m : Mave) (xs : List Tmv) (op : FilterOp),
      m.Tracks (xs.rtake length.toNat) ∧ m.len = length.toNat →
        ∃ m', maveStep m op = .ok m' ∧
          (m'.Tracks ((samplesAfter xs op).rtake length.toNat) ∧ m'.len = length.toNat) := by
    intro m xs op h
    exact maveStep_tracks op h
  exact run_fold hstep hinit ops

/-- The mean of a window whose sum fits. -/
theorem windowMean_toInt {w : List Tmv} (hne : w ≠ []) (hlen : (w.length : Int) < 2 ^ 63)
    (hfits : Fits (windowSum w)) : (windowMean w).ns.toInt = (windowSum w).tdiv w.length := by
  have hpos : 0 < w.length := List.length_pos_iff.mpr hne
  rw [windowMean]
  exact toInt_div_of_fits hfits (by omega) hlen

/-- **The moving average is correct, with wrap-around.** After any samples and resets the running
sum is, modulo `2 ^ 64`, the sum of the last `min k length` of the `k` samples since the last reset;
the next sample returns the truncating mean of its window whenever the exact sum fits. A sum that
wrapped around does not spoil the later ones, as what leaves the window is subtracted again. -/
theorem maveAccumulate_correct {grants : Nat → Bool} {length : Int} {m : Mave}
    (hlen : 1 ≤ length) (hint : length < 2 ^ 31) (hcreate : maveCreate grants length = some m)
    (ops : List FilterOp) :
    ∃ m', ops.foldlM maveStep m = .ok m' ∧
      m'.sum.ns.toInt ≡ windowSum ((samplesSinceReset ops).rtake length.toNat) [ZMOD 2 ^ 64] ∧
      ∀ x, ∃ mean m'', maveAccumulate m' x = .ok (mean, m'') ∧
        let xs := samplesSinceReset (ops ++ [.sample x])
        m''.sum.ns.toInt ≡ windowSum (xs.rtake length.toNat) [ZMOD 2 ^ 64] ∧
        (Fits (windowSum (xs.rtake length.toNat)) →
          mean.ns.toInt =
            (windowSum (xs.rtake length.toNat)).tdiv (min xs.length length.toNat : Nat)) := by
  have hsum : ∀ {m : Mave} {w : List Tmv}, m.Tracks w →
      m.sum.ns.toInt ≡ windowSum w [ZMOD 2 ^ 64] := by
    intro m w h
    rw [h.sum_eq, Int64.toInt_ofInt]
    exact Int.bmod_emod
  obtain ⟨m', hrun, htracks, hm'⟩ := maveRun_tracks hlen hcreate ops
  refine ⟨m', hrun, hsum htracks, ?_⟩
  intro x
  obtain ⟨m'', hsample, htracks', -⟩ := maveAccumulate_spec htracks x
  rw [hm', slide_rtake, ← samplesSinceReset_sample] at hsample htracks'
  refine ⟨_, m'', hsample, hsum htracks', ?_⟩
  intro hfits
  have hlength := length_rtake length.toNat (samplesSinceReset (ops ++ [.sample x]))
  have hsamples : (samplesSinceReset (ops ++ [.sample x])).length =
      (samplesSinceReset ops).length + 1 := by
    rw [samplesSinceReset_sample, List.length_append, List.length_singleton]
  rw [← hlength]
  refine windowMean_toInt ?_ (by omega) hfits
  rw [← List.length_pos_iff]
  omega

/-- A window of two: the running sum overflows at the second sample and is right again at the
fourth. -/
theorem maveAccumulate_correct_overflow :
    ∃ m, maveCreate (fun _ => true) 2 = some m ∧
      ∃ m', [.sample ⟨Int64.maxValue⟩, .sample ⟨Int64.maxValue⟩, .sample ⟨3⟩].foldlM
          maveStep m = .ok m' ∧
        ∃ m'', maveAccumulate m' ⟨-10⟩ = .ok (⟨-3⟩, m'') := by
  refine ⟨_, rfl, ?_⟩
  obtain ⟨m', hrun, -, hnext⟩ := @maveAccumulate_correct (fun _ => true) 2 _ (by decide)
    (by decide) rfl [.sample ⟨Int64.maxValue⟩, .sample ⟨Int64.maxValue⟩, .sample ⟨3⟩]
  obtain ⟨mean, m'', hsample, -, hmean⟩ := hnext ⟨-10⟩
  have hvalue := hmean ⟨by decide +kernel, by decide +kernel⟩
  refine ⟨m', hrun, m'', ?_⟩
  have heq : mean = ⟨-3⟩ := tmv_ext_toInt (hvalue.trans (by decide +kernel))
  rw [hsample, heq]

/-! ## Moving median -/

/-- A moving median after a call. -/
def mmedianStep (m : Mmedian) : FilterOp → Except Fault Mmedian
  | .sample x => (mmedianSample m x).map Prod.snd
  | .reset => .ok (mmedianReset m)

/-- A call keeps the window of the history. -/
theorem mmedianStep_tracks {len : Nat} {m : Mmedian} {xs : List Tmv} (op : FilterOp)
    (h : m.Tracks (xs.rtake len) ∧ m.len = len) :
    ∃ m', mmedianStep m op = .ok m' ∧ m'.Tracks ((samplesAfter xs op).rtake len) ∧
      m'.len = len := by
  obtain ⟨htracks, rfl⟩ := h
  cases op with
  | sample x =>
    obtain ⟨m', hrun, htracks', hlen⟩ := mmedianSample_spec htracks x
    rw [slide_rtake] at htracks'
    refine ⟨m', ?_, htracks', hlen⟩
    rw [mmedianStep, hrun]
    rfl
  | reset =>
    obtain ⟨htracks', hlen⟩ := mmedianReset_tracks htracks
    refine ⟨mmedianReset m, rfl, ?_, hlen⟩
    rw [samplesAfter, List.rtake_nil]
    exact htracks'

/-- The window of a moving median after any calls. -/
theorem mmedianRun_tracks {grants : Nat → Bool} {length : Int} {m : Mmedian}
    (hcreate : mmedianCreate grants length = some m) (ops : List FilterOp) :
    ∃ m', ops.foldlM mmedianStep m = .ok m' ∧
      m'.Tracks ((samplesSinceReset ops).rtake length.toNat) ∧ m'.len = length.toNat := by
  obtain ⟨htracks, hm, hpos⟩ := mmedianCreate_tracks hcreate
  have hinit : m.Tracks (([] : List Tmv).rtake length.toNat) ∧ m.len = length.toNat := by
    rw [List.rtake_nil]
    exact ⟨htracks, by omega⟩
  have hstep : ∀ (m : Mmedian) (xs : List Tmv) (op : FilterOp),
      m.Tracks (xs.rtake length.toNat) ∧ m.len = length.toNat →
        ∃ m', mmedianStep m op = .ok m' ∧
          (m'.Tracks ((samplesAfter xs op).rtake length.toNat) ∧ m'.len = length.toNat) := by
    intro m xs op h
    exact mmedianStep_tracks op h
  exact run_fold hstep hinit ops

/-- The slots of the samples held, the oldest first. -/
def Mmedian.liveSlots (m : Mmedian) : List Nat := positions m.len m.index m.cnt

/-- The slots before the write position hold the window. -/
theorem Mmedian.Tracks.liveSlots {m : Mmedian} {w : List Tmv} (h : m.Tracks w) :
    m.liveSlots.map (slot m.samples) = w ∧ (m.order.take m.cnt).Perm m.liveSlots := by
  rw [Mmedian.liveSlots, ← h.len_eq]
  exact ⟨h.held.map_positions tmvZero, h.perm.trans h.held.positions_perm.symm⟩

/-- `r` is the median of the samples that `v` lists in non-decreasing order: the middle one, or
half the sum of the two in the middle, truncated, provided that it fits. -/
def IsMedian (v : List Tmv) (r : Tmv) : Prop :=
  (v.length % 2 = 1 → v[v.length / 2]? = some r) ∧
    (v.length % 2 = 0 → ∃ lo hi, v[v.length / 2 - 1]? = some lo ∧ v[v.length / 2]? = some hi ∧
      (Fits (lo.ns.toInt + hi.ns.toInt) →
        r.ns.toInt = (lo.ns.toInt + hi.ns.toInt).tdiv 2))

/-- The machine's median of a window is its median: the middle of the sorted window, or the half of
the sum of the two in the middle, where that sum does not overflow. -/
theorem windowMedian_isMedian {w : List Tmv} (hne : w ≠ []) :
    IsMedian (sortedWindow w) (windowMedian w) := by
  have hpos : 0 < w.length := List.length_pos_iff.mpr hne
  have hlen : (sortedWindow w).length = w.length := (List.mergeSort_perm _ _).length_eq
  have hget : ∀ k, k < w.length →
      (sortedWindow w)[k]? = some ((sortedWindow w).getD k tmvZero) := by
    intro k hk
    have hk' : k < (sortedWindow w).length := hlen.symm ▸ hk
    rw [List.getD_eq_getElem?_getD, List.getElem?_eq_getElem hk', Option.getD_some]
  rw [IsMedian, windowMedian, hlen]
  refine ⟨?_, ?_⟩
  · intro hodd
    rw [if_pos (by omega)]
    exact hget _ (by omega)
  · intro heven
    refine ⟨_, _, hget _ (by omega), hget _ (by omega), ?_⟩
    intro hfits
    rw [if_neg (by omega)]
    -- the sum is the wrapping one, which fits
    have hsum : ∀ a b : Tmv, (tmvAdd a b).ns = Int64.ofInt (a.ns.toInt + b.ns.toInt) := by
      intro a b
      conv_lhs => rw [tmv_eq_ofInt a, tmv_eq_ofInt b, tmvAdd_ofInt]
    dsimp only
    rw [hsum, toInt_half, Int64.toInt_ofInt_of_le hfits.1 hfits.2]

/-- **The moving median is correct.** After any samples and resets, the next sample leaves `order`
as an arrangement of the slots of the last `min k length` of the `k` samples since the last reset,
by non-decreasing value, and returns the median of these samples. The two loops of the source, which
take the oldest slot out of `order` and insert the new one, keep the order and drop no slot. -/
theorem mmedianSample_correct {grants : Nat → Bool} {length : Int} {m : Mmedian}
    (hcreate : mmedianCreate grants length = some m) (ops : List FilterOp) (x : Tmv) :
    ∃ m₁ median m', ops.foldlM mmedianStep m = .ok m₁ ∧ mmedianSample m₁ x = .ok (median, m') ∧
      let xs := samplesSinceReset (ops ++ [.sample x])
      m'.cnt = min xs.length length.toNat ∧
      m'.liveSlots.map (slot m'.samples) = xs.rtake length.toNat ∧
      (m'.order.take m'.cnt).Perm m'.liveSlots ∧
      SortedBy m'.samples (m'.order.take m'.cnt) ∧
      IsMedian ((m'.order.take m'.cnt).map (slot m'.samples)) median := by
  obtain ⟨m₁, hrun, htracks, hm₁⟩ := mmedianRun_tracks hcreate ops
  obtain ⟨m', hsample, htracks', -⟩ := mmedianSample_spec htracks x
  rw [hm₁, slide_rtake, ← samplesSinceReset_sample] at hsample htracks'
  obtain ⟨hlive, hperm⟩ := htracks'.liveSlots
  have hlength := length_rtake length.toNat (samplesSinceReset (ops ++ [.sample x]))
  refine ⟨m₁, _, m', hrun, hsample, ?_, hlive, hperm, htracks'.sorted, ?_⟩
  · rw [← hlength]
    exact htracks'.held.length_eq.symm
  · rw [htracks'.map_slot]
    apply windowMedian_isMedian
    obtain ⟨-, hcreated, hpos⟩ := mmedianCreate_tracks hcreate
    rw [← List.length_pos_iff, hlength, samplesSinceReset_sample, List.length_append,
      List.length_singleton]
    omega

/-- A window of three that wraps around after a reset, with equal samples. -/
theorem mmedianSample_correct_wraps :
    ∃ m, mmedianCreate (fun _ => true) 3 = some m ∧
      ∃ m₁ median m', [.sample ⟨9⟩, .reset, .sample ⟨5⟩, .sample ⟨-2⟩, .sample ⟨5⟩].foldlM
          mmedianStep m = .ok m₁ ∧ mmedianSample m₁ ⟨7⟩ = .ok (median, m') ∧
        m'.liveSlots.map (slot m'.samples) = [⟨-2⟩, ⟨5⟩, ⟨7⟩] := by
  refine ⟨_, rfl, ?_⟩
  obtain ⟨m₁, median, m', hrun, hsample, -, hlive, -⟩ := @mmedianSample_correct (fun _ => true) 3 _
    rfl [.sample ⟨9⟩, .reset, .sample ⟨5⟩, .sample ⟨-2⟩, .sample ⟨5⟩] ⟨7⟩
  exact ⟨m₁, median, m', hrun, hsample, hlive⟩

end ExternalServo
