import ExternalServo.Dispatch
import ExternalServo.FilterWindow
import ExternalServo.TimeFormat
import Mathlib.Data.List.GetD

/-!
# No overflow from the wire to the clocks

The times that `process_message` decodes span less than half of an `int64_t`, with their
corrections, so that a sum of two differences of them is still in range, but not of three. With a
moving median and a rate ratio of one no more than two are ever added. One operation does overflow:
`timestamp_ntohns` shifts the upper seconds as an `int`, which has no room for the sixteenth bit.

* `WireTime`, `Tmv.Within` — the range of a decoded time and of what is computed from two;
* `WireTsproc` — what the time stamp processor stores, the window of its filter included;
* `ShiftsExact`, `MsbsFit` — the shifts of a message, and when they are exact;
* `WireLoop.step` — an iteration of the receive loop keeps the ranges, and computes exactly;
* `wireRange` — no run overflows, but for the shifts.
-/

namespace ExternalServo

open CArith Runs SlidingWindow

/-! ## Ranges -/

/-- The latest time that is decoded: 32 bits of seconds and 32 of nanoseconds. -/
def maxTime : Int := (2 ^ 32 - 1) * 1000000000 + (2 ^ 32 - 1)

/-- The largest correction: 64 bits in units of `2 ^ -16` nanoseconds. -/
def maxCorrection : Int := 2 ^ 47

/-- The largest difference of two decoded times. -/
def maxDelay : Int := maxTime + 2 * maxCorrection

/-- A decoded time, corrected or not. The sum of two differences of such times fits in 64 bits, and
that is all that the processor computes from them. -/
def WireTime (x : Tmv) : Prop :=
  -maxCorrection ≤ x.ns.toInt ∧ x.ns.toInt ≤ maxTime + maxCorrection

/-- A value of at most a magnitude. -/
def Tmv.Within (b : Int) (x : Tmv) : Prop := -b ≤ x.ns.toInt ∧ x.ns.toInt ≤ b

/-- A sum of two differences fits. -/
theorem two_mul_maxDelay_lt : 2 * maxDelay < 2 ^ 63 := by decide

theorem wireTime_zero : WireTime tmvZero := ⟨by decide, by decide⟩

theorem Tmv.within_zero : tmvZero.Within maxDelay := ⟨by decide, by decide⟩

/-- A difference of decoded times. -/
theorem WireTime.sub {x y : Tmv} (hx : WireTime x) (hy : WireTime y) :
    (tmvSub x y).ns.toInt = x.ns.toInt - y.ns.toInt ∧ (tmvSub x y).Within maxDelay := by
  obtain ⟨hxlo, hxhi⟩ := hx
  obtain ⟨hylo, hyhi⟩ := hy
  have hbound := two_mul_maxDelay_lt
  have hmax : maxDelay = maxTime + 2 * maxCorrection := rfl
  have hexact : (tmvSub x y).ns.toInt = x.ns.toInt - y.ns.toInt := by
    apply toInt_sub_of_fits
    refine ⟨?_, ?_⟩
    · omega
    · omega
  refine ⟨hexact, ?_⟩
  rw [Tmv.Within, hexact]
  refine ⟨?_, ?_⟩
  · omega
  · omega

namespace Tmv.Within

variable {a b : Int} {x y : Tmv}

/-- A sum that is bounded is exact. -/
theorem add (hx : x.Within a) (hy : y.Within b) (hab : a + b < 2 ^ 63) :
    (tmvAdd x y).ns.toInt = x.ns.toInt + y.ns.toInt ∧ (tmvAdd x y).Within (a + b) := by
  obtain ⟨hxlo, hxhi⟩ := hx
  obtain ⟨hylo, hyhi⟩ := hy
  have hexact : (tmvAdd x y).ns.toInt = x.ns.toInt + y.ns.toInt := by
    apply toInt_add_of_fits
    refine ⟨?_, ?_⟩
    · omega
    · omega
  refine ⟨hexact, ?_⟩
  rw [Tmv.Within, hexact]
  refine ⟨?_, ?_⟩
  · omega
  · omega

/-- A difference that is bounded is exact. -/
theorem sub (hx : x.Within a) (hy : y.Within b) (hab : a + b < 2 ^ 63) :
    (tmvSub x y).ns.toInt = x.ns.toInt - y.ns.toInt ∧ (tmvSub x y).Within (a + b) := by
  obtain ⟨hxlo, hxhi⟩ := hx
  obtain ⟨hylo, hyhi⟩ := hy
  have hexact : (tmvSub x y).ns.toInt = x.ns.toInt - y.ns.toInt := by
    apply toInt_sub_of_fits
    refine ⟨?_, ?_⟩
    · omega
    · omega
  refine ⟨hexact, ?_⟩
  rw [Tmv.Within, hexact]
  refine ⟨?_, ?_⟩
  · omega
  · omega

/-- Half of a value. -/
theorem half (hx : x.Within (2 * a)) : Tmv.Within a ⟨x.ns / 2⟩ := by
  obtain ⟨hlo, hhi⟩ := hx
  have hle := Int.tdiv_le_tdiv (by decide : (0 : Int) < 2) hhi
  have hge := Int.tdiv_le_tdiv (by decide : (0 : Int) < 2) hlo
  rw [Int.mul_tdiv_cancel_left _ (by decide)] at hle
  rw [← Int.mul_neg, Int.mul_tdiv_cancel_left _ (by decide)] at hge
  rw [Tmv.Within, toInt_half]
  exact ⟨hge, hle⟩

/-- The magnitude and the negation of a bounded value, and the sign flip of `clockadj_step`. -/
theorem negated (hx : x.Within a) (ha : a < 2 ^ 63) :
    x.ns ≠ Int64.minValue ∧ (llabs x.ns).toInt = |x.ns.toInt| ∧ (-x.ns).toInt = -x.ns.toInt ∧
      (-x.ns * -1).toInt = x.ns.toInt := by
  have hne : x.ns ≠ Int64.minValue := by
    intro heq
    have hlo := hx.1
    rw [heq] at hlo
    have hmin : Int64.minValue.toInt = -2 ^ 63 := rfl
    omega
  have hflip : -x.ns * -1 = x.ns := by
    rw [Int64.mul_neg, Int64.mul_one, Int64.neg_neg]
  exact ⟨hne, toInt_llabs hne, toInt_neg hne, congrArg Int64.toInt hflip⟩

end Tmv.Within

/-! ## Decoding -/

/-- The time of a timestamp with 32 bits of seconds, exactly. Their upper half is joined with the
sixteen bits that the field has beyond them, as the source shifts these by sixteen places. -/
def exactTime (ts : Timestamp) : Int :=
  joinedSeconds (ntohs ts.secondsMsb).toNat (ntohl ts.secondsLsb).toNat * 1000000000 +
    (ntohl ts.nanoseconds).toNat

/-- A correction in whole nanoseconds, rounded down. -/
def exactCorrection (correctionField : UInt64) : Int :=
  (ntoh64 correctionField).toInt64.toInt / 2 ^ 16

theorem exactTime_range (ts : Timestamp) : 0 ≤ exactTime ts ∧ exactTime ts ≤ maxTime := by
  have hseconds := joinedSeconds_lt (ntohs ts.secondsMsb).toNat (ntohl ts.secondsLsb).toNat_lt
  have hnano := (ntohl ts.nanoseconds).toNat_lt
  rw [exactTime, maxTime]
  refine ⟨?_, ?_⟩
  · omega
  · omega

theorem exactCorrection_range (correctionField : UInt64) :
    -maxCorrection ≤ exactCorrection correctionField ∧
      exactCorrection correctionField ≤ maxCorrection := by
  have hlo := (ntoh64 correctionField).toInt64.le_toInt
  have hhi := (ntoh64 correctionField).toInt64.toInt_lt
  rw [exactCorrection, maxCorrection]
  refine ⟨?_, ?_⟩
  · omega
  · omega

/-- A corrected time fits, on either side of the time itself. -/
theorem fits_corrected (ts : Timestamp) (correctionField : UInt64) :
    Fits (exactTime ts + exactCorrection correctionField) ∧
      Fits (exactTime ts - exactCorrection correctionField) := by
  obtain ⟨hlo, hhi⟩ := exactTime_range ts
  obtain ⟨hclo, hchi⟩ := exactCorrection_range correctionField
  have hmax : maxTime + maxCorrection < 2 ^ 63 := by decide
  have hmin : 0 ≤ maxTime := by decide
  refine ⟨⟨?_, ?_⟩, ?_, ?_⟩ <;> omega

/-- The times of a sync record. -/
theorem processRxSyncMsg_exact (sync : SlaveRxSyncTimingRecord) :
    (processRxSyncMsg sync).1.toInt =
        exactTime sync.syncOriginTimestamp + exactCorrection sync.totalCorrectionField ∧
      (processRxSyncMsg sync).2.toInt = exactTime sync.syncEventIngressTimestamp := by
  refine ⟨?_, timestampNtohns_toInt _⟩
  have horigin : (timestampNtohns sync.syncOriginTimestamp).toInt64.toInt =
      exactTime sync.syncOriginTimestamp := timestampNtohns_toInt _
  have hshift : ((ntoh64 sync.totalCorrectionField).toInt64 >>> 16).toInt =
      exactCorrection sync.totalCorrectionField := toInt_shiftRight _
  have hfits := (fits_corrected sync.syncOriginTimestamp sync.totalCorrectionField).1
  rw [← horigin, ← hshift] at hfits ⊢
  exact toInt_add_of_fits hfits

/-- The times of a delay record. -/
theorem processDelayTimingMsg_exact (delay : SlaveDelayTimingRecord) :
    (processDelayTimingMsg delay).1.toInt = exactTime delay.delayOriginTimestamp ∧
      (processDelayTimingMsg delay).2.toInt =
        exactTime delay.delayResponseTimestamp - exactCorrection delay.totalCorrectionField := by
  refine ⟨timestampNtohns_toInt _, ?_⟩
  have hresponse : (timestampNtohns delay.delayResponseTimestamp).toInt64.toInt =
      exactTime delay.delayResponseTimestamp := timestampNtohns_toInt _
  have hshift : ((ntoh64 delay.totalCorrectionField).toInt64 >>> 16).toInt =
      exactCorrection delay.totalCorrectionField := toInt_shiftRight _
  have hfits := (fits_corrected delay.delayResponseTimestamp delay.totalCorrectionField).2
  rw [← hresponse, ← hshift] at hfits ⊢
  exact toInt_sub_of_fits hfits

/-- A decoded time, at most one correction away from its timestamp. -/
theorem wireTime_of_eq {ts : Timestamp} {x : Int64} {c : Int} (hx : x.toInt = exactTime ts + c)
    (hlo : -maxCorrection ≤ c) (hhi : c ≤ maxCorrection) : WireTime ⟨x⟩ := by
  obtain ⟨hmin, hmax⟩ := exactTime_range ts
  rw [WireTime, hx]
  refine ⟨?_, ?_⟩
  · omega
  · omega

/-- The timestamps of a message that `process_message` decodes. -/
def decodedTimestamps (data : List UInt8) : List Timestamp :=
  if messageType data = SIGNALING then
    if firstTlvType data = TLV_SLAVE_RX_SYNC_TIMING_DATA then
      let sync := loadSyncRecord data recordOffset
      [sync.syncOriginTimestamp, sync.syncEventIngressTimestamp]
    else if firstTlvType data = SLAVE_DELAY_TIMING_DATA_NP then
      let delay := loadDelayRecord data recordOffset
      [delay.delayOriginTimestamp, delay.delayResponseTimestamp]
    else []
  else []

/-- The upper seconds of a message are shifted without overflow. The shift is one of the signed type
that the 16 bits are promoted to, so the exact result has to fit there. -/
def ShiftsExact (data : List UInt8) : Prop :=
  ∀ ts ∈ decodedTimestamps data,
    (shiftedMsb (ntohs ts.secondsMsb)).toInt = (ntohs ts.secondsMsb).toNat * 2 ^ 16

/-- The upper seconds of a message have fifteen bits. -/
def MsbsFit (data : List UInt8) : Prop :=
  ∀ ts ∈ decodedTimestamps data, (ntohs ts.secondsMsb).toNat < 0x8000

instance (data : List UInt8) : Decidable (MsbsFit data) := List.decidableBAll _ _

theorem shiftsExact_iff {data : List UInt8} : ShiftsExact data ↔ MsbsFit data :=
  forall₂_congr fun ts _ => toInt_shiftedMsb_eq_iff (ntohs ts.secondsMsb)

/-- The times of a message are those of its bits, corrected, without overflow. Whatever the bits
are, this is a statement about the words that `process_message` leaves in the locals. -/
def DecodedExactly (data : List UInt8) (vars : LoopVars) : Prop :=
  messageType data = SIGNALING →
    (firstTlvType data = TLV_SLAVE_RX_SYNC_TIMING_DATA →
      let sync := loadSyncRecord data recordOffset
      (processMessage data vars).masterTime.toInt =
          exactTime sync.syncOriginTimestamp + exactCorrection sync.totalCorrectionField ∧
        (processMessage data vars).slaveTime.toInt = exactTime sync.syncEventIngressTimestamp) ∧
    (firstTlvType data = SLAVE_DELAY_TIMING_DATA_NP →
      let delay := loadDelayRecord data recordOffset
      (processMessage data vars).slaveTime.toInt = exactTime delay.delayOriginTimestamp ∧
        (processMessage data vars).masterTime.toInt =
          exactTime delay.delayResponseTimestamp - exactCorrection delay.totalCorrectionField)

theorem processMessage_decodedExactly (data : List UInt8) (vars : LoopVars) :
    DecodedExactly data vars := by
  intro hsignaling
  refine ⟨?_, ?_⟩
  · intro htlv
    simp only [processMessage, hsignaling, htlv, if_true]
    exact processRxSyncMsg_exact _
  · intro htlv
    have hne : SLAVE_DELAY_TIMING_DATA_NP ≠ TLV_SLAVE_RX_SYNC_TIMING_DATA := by decide
    simp only [processMessage, hsignaling, htlv, if_neg hne, if_true]
    exact processDelayTimingMsg_exact _

/-- The locals of the loop have the values that `process_message` wrote, as soon as their type has a
handler. Before the first message they have none: the handlers are not called then. -/
def Produced (vars : LoopVars) : Prop :=
  Handled vars.msgType →
    ∃ data vars₀, messageType data = SIGNALING ∧ vars = processMessage data vars₀

theorem Produced.processMessage {vars : LoopVars} (h : Produced vars) (data : List UInt8) :
    Produced (processMessage data vars) := by
  by_cases hsignaling : messageType data = SIGNALING
  · intro _
    exact ⟨data, vars, hsignaling, rfl⟩
  · have hkeep : ExternalServo.processMessage data vars = vars := if_neg hsignaling
    rwa [hkeep]

/-- The times that a handler is called with. -/
theorem Produced.wireTime {vars : LoopVars} (h : Produced vars) (hhandled : Handled vars.msgType) :
    WireTime ⟨vars.masterTime⟩ ∧ WireTime ⟨vars.slaveTime⟩ := by
  obtain ⟨data, vars₀, hsignaling, rfl⟩ := h hhandled
  obtain ⟨hsync, hdelay⟩ := processMessage_decodedExactly data vars₀ hsignaling
  have htype : (ExternalServo.processMessage data vars₀).msgType = firstTlvType data := by
    rw [processMessage_msgType, if_pos hsignaling]
  rw [htype] at hhandled
  have huncorrected : ∀ {ts : Timestamp} {x : Int64}, x.toInt = exactTime ts → WireTime ⟨x⟩ := by
    intro ts x hx
    exact wireTime_of_eq (hx.trans (Int.add_zero _).symm) (by decide) (by decide)
  rcases hhandled with htlv | htlv
  · obtain ⟨hmaster, hslave⟩ := hsync htlv
    obtain ⟨hlo, hhi⟩ :=
      exactCorrection_range (loadSyncRecord data recordOffset).totalCorrectionField
    exact ⟨wireTime_of_eq hmaster hlo hhi, huncorrected hslave⟩
  · obtain ⟨hslave, hmaster⟩ := hdelay htlv
    obtain ⟨hlo, hhi⟩ :=
      exactCorrection_range (loadDelayRecord data recordOffset).totalCorrectionField
    rw [Int.sub_eq_add_neg] at hmaster
    exact ⟨wireTime_of_eq hmaster (neg_le_neg hhi) (neg_le.mp hlo), huncorrected hslave⟩

/-! ## The time stamp processor -/

variable {D : Type} [CDouble D]

/-- **The invariant** of a time stamp processor with a moving median, in any mode: every stored time
is one that was decoded, and every delay at most the largest difference of two. -/
structure WireTsproc (tsp : Tsproc D) : Prop where
  t1 : WireTime tsp.t1
  t2 : WireTime tsp.t2
  t3 : WireTime tsp.t3
  t4 : WireTime tsp.t4
  ratio : tsp.clockRateRatio = CDouble.lit 1
  filtered : tsp.filteredDelay.Within maxDelay
  window : ∃ m w, tsp.delayFilter = .mmedian m ∧ m.Tracks w ∧ ∀ x ∈ w, x.Within maxDelay

/-- The three operations of `get_raw_delay` are exact: two differences and their sum, and then the
half of it. -/
def RawDelayExact (tsp : Tsproc D) : Prop :=
  let t23 := tmvSub tsp.t2 tsp.t3
  let t41 := tmvSub tsp.t4 tsp.t1
  t23.ns.toInt = tsp.t2.ns.toInt - tsp.t3.ns.toInt ∧
    t41.ns.toInt = tsp.t4.ns.toInt - tsp.t1.ns.toInt ∧
    (tmvAdd t23 t41).ns.toInt = t23.ns.toInt + t41.ns.toInt ∧
    (getRawDelay tsp).ns.toInt = (t23.ns.toInt + t41.ns.toInt).tdiv 2

/-- The sum of two samples in `mmedian_sample` is exact. -/
def MedianExact (m : Mmedian) (sample : Tmv) : Prop :=
  ∀ median m', mmedianSample m sample = .ok (median, m') → m'.cnt % 2 = 0 →
    ∃ lo hi, sampleAt m'.samples m'.order (m'.cnt / 2 - 1) = .ok lo ∧
      sampleAt m'.samples m'.order (m'.cnt / 2) = .ok hi ∧
      (tmvAdd lo hi).ns.toInt = lo.ns.toInt + hi.ns.toInt ∧
      median.ns.toInt = (lo.ns.toInt + hi.ns.toInt).tdiv 2

/-- The offset is the exact one, and what is done with it does not overflow: its magnitude, its
negation for the step of a clock, and the sign flip in `clockadj_step`. -/
def OffsetExact (tsp : Tsproc D) : Prop :=
  ∀ offset weight, tsprocUpdateOffset tsp = some (offset, weight) →
    ∃ delay rawDelay, offsetDelay tsp = some (delay, rawDelay) ∧
      (tmvSub tsp.t2 tsp.t1).ns.toInt = tsp.t2.ns.toInt - tsp.t1.ns.toInt ∧
      offset.ns.toInt = tsp.t2.ns.toInt - tsp.t1.ns.toInt - delay.ns.toInt ∧
      offset.ns ≠ Int64.minValue ∧ (llabs offset.ns).toInt = |offset.ns.toInt| ∧
      (-offset.ns).toInt = -offset.ns.toInt ∧ (-offset.ns * -1).toInt = offset.ns.toInt

section Tsproc

variable [LawfulCDouble D] {tsp : Tsproc D}

/-- **The raw delay** of stored times is exact, and at most the largest difference of two times, as
it is the half of a sum of two differences. -/
theorem WireTsproc.rawDelay (h : WireTsproc tsp) :
    RawDelayExact tsp ∧ (getRawDelay tsp).Within maxDelay := by
  obtain ⟨h23, hw23⟩ := h.t2.sub h.t3
  obtain ⟨h41, hw41⟩ := h.t4.sub h.t1
  have hfits : maxDelay + maxDelay < 2 ^ 63 := by
    rw [← two_mul]
    exact two_mul_maxDelay_lt
  obtain ⟨hsum, hwsum⟩ := hw23.add hw41 hfits
  have hraw : getRawDelay tsp =
      ⟨(tmvAdd (tmvSub tsp.t2 tsp.t3) (tmvSub tsp.t4 tsp.t1)).ns / 2⟩ := by
    simp only [getRawDelay, h.ratio, LawfulCDouble.eq_lit, Bool.not_true, Bool.false_eq_true,
      if_false]
  rw [← two_mul] at hwsum
  rw [RawDelayExact, hraw]
  refine ⟨⟨h23, h41, hsum, ?_⟩, hwsum.half⟩
  rw [← hsum]
  exact toInt_half _

end Tsproc

/-! ## The filter -/

section Median

variable {m : Mmedian} {w : List Tmv} {x : Tmv}

theorem mem_sortedWindow {v : Tmv} : v ∈ sortedWindow w ↔ v ∈ w :=
  (List.mergeSort_perm w _).mem_iff

/-- A new sample is the only one that a window did not have before. -/
theorem mem_slide {n : Nat} {v : Tmv} (h : v ∈ slide n w x) : v ∈ w ∨ v = x := by
  rw [slide, List.rtake] at h
  have happend := List.mem_of_mem_drop h
  simpa using happend

/-- **The median** of a bounded window is exact and bounded: the two slots in the middle hold
bounded values, whose sum fits, and the half of it is bounded again. -/
theorem median_exact {b : Int} (hb : 0 ≤ b) (hfits : 2 * b < 2 ^ 63) (h : m.Tracks w)
    (hw : ∀ v ∈ w, v.Within b) (hx : x.Within b) :
    MedianExact m x ∧ ∃ m', mmedianSample m x = .ok (windowMedian (slide m.len w x), m') ∧
      m'.Tracks (slide m.len w x) ∧ (∀ v ∈ slide m.len w x, v.Within b) ∧
      (windowMedian (slide m.len w x)).Within b := by
  obtain ⟨m', hsample, htracks, -⟩ := mmedianSample_spec h x
  have hslide : ∀ v ∈ slide m.len w x, v.Within b := by
    intro v hv
    rcases mem_slide hv with hold | rfl
    · exact hw v hold
    · exact hx
  have hget : ∀ k, ((sortedWindow (slide m.len w x)).getD k tmvZero).Within b := by
    intro k
    rcases Nat.lt_or_ge k (sortedWindow (slide m.len w x)).length with hk | hk
    · rw [List.getD_eq_getElem _ _ hk]
      exact hslide _ (mem_sortedWindow.mp (List.getElem_mem hk))
    · rw [List.getD_eq_default _ _ hk]
      exact ⟨neg_nonpos.mpr hb, hb⟩
  have hpair : ∀ j k, (tmvAdd ((sortedWindow (slide m.len w x)).getD j tmvZero)
      ((sortedWindow (slide m.len w x)).getD k tmvZero)).Within (2 * b) := by
    intro j k
    rw [two_mul]
    exact ((hget j).add (hget k) (by omega)).2
  have hcnt : (slide m.len w x).length = m'.cnt := htracks.held.length_eq
  refine ⟨?_, m', hsample, htracks, hslide, ?_⟩
  · intro median m₁ hrun heven
    obtain ⟨rfl, rfl⟩ := Prod.mk.inj (Except.ok.inj (hsample.symm.trans hrun))
    have hpos : 0 < m'.cnt := by
      have hlen : 0 < m.len := by
        rw [← h.len_eq]
        exact Nat.zero_lt_of_lt h.held.index_lt
      rw [← hcnt, slide, length_rtake, List.length_append, List.length_singleton]
      omega
    refine ⟨_, _, htracks.sampleAt (by omega), htracks.sampleAt (by omega), ?_, ?_⟩
    · exact ((hget _).add (hget _) (by omega)).1
    · rw [← ((hget _).add (hget _) (by omega)).1, ← toInt_half, windowMedian, hcnt,
        if_neg (by omega)]
  · rw [windowMedian]
    split
    · exact hget _
    · exact (hpair _ _).half

end Median

/-! ## One message -/

/-- The servos that leave the rate ratio at one. -/
def Inner.UnitRatio : Inner D → Prop
  | .pi _ | .ntpshm _ => True
  | .linreg _ => False

section Servo

variable (pow : D → D → D) {servo : Servo D (Inner D)}

theorem servoRateRatio_of_unit (h : servo.inner.UnitRatio) :
    servoRateRatio (servoOps pow) servo = CDouble.lit 1 := by
  obtain ⟨base, inner⟩ := servo
  cases inner with
  | pi s => rfl
  | ntpshm s => rfl
  | linreg s => exact h.elim

instance (inner : Inner D) : Decidable inner.UnitRatio :=
  match inner with
  | .pi _ | .ntpshm _ => .isTrue trivial
  | .linreg _ => .isFalse id

/-- A sample leaves a servo of its kind. -/
theorem unitRatio_sample (h : servo.inner.UnitRatio) (offset : Int64) (localTs : UInt64)
    (weight : D) :
    (servoSample (servoOps pow) servo offset localTs weight).2.2.inner.UnitRatio := by
  obtain ⟨base, inner⟩ := servo
  rw [servoSample_eq (servoOps pow) ⟨base, inner⟩ offset localTs weight rfl]
  cases inner with
  | pi s => exact trivial
  | ntpshm s => exact trivial
  | linreg s => exact h.elim

end Servo

/-- The times of a call. -/
def WireHandler : Handler → Prop
  | .clockUpdate masterTime slaveTime => WireTime ⟨masterTime⟩ ∧ WireTime ⟨slaveTime⟩
  | .pathDelay slaveTime masterTime => WireTime ⟨slaveTime⟩ ∧ WireTime ⟨masterTime⟩

/-- What a call computes from timestamps is exact. -/
def HandledExactly {σ : Type} (sys : Sys D σ) : Handler → Prop
  | .clockUpdate t1 t2 =>
    let tsp := tsprocDownTs sys.tsp ⟨t1⟩ ⟨t2⟩
    RawDelayExact tsp ∧ OffsetExact tsp
  | .pathDelay t3 t4 =>
    let tsp := tsprocUpTs sys.tsp ⟨t3⟩ ⟨t4⟩
    RawDelayExact tsp ∧ ∀ m, tsp.delayFilter = .mmedian m → MedianExact m (getRawDelay tsp)

section Updates

variable [LawfulCDouble D] {tsp : Tsproc D}

/-- The delay update, and the filter with it. -/
theorem WireTsproc.updateDelay (h : WireTsproc tsp) :
    (∀ m, tsp.delayFilter = .mmedian m → MedianExact m (getRawDelay tsp)) ∧
      ∃ delay tsp', tsprocUpdateDelay tsp = .ok (delay, tsp') ∧ WireTsproc tsp' := by
  obtain ⟨m, w, hfilter, htracks, hw⟩ := h.window
  obtain ⟨hexact, m', hsample, htracks', hslide, hmedian⟩ :=
    median_exact (by decide) two_mul_maxDelay_lt htracks hw h.rawDelay.2
  refine ⟨?_, ?_⟩
  · intro m₁ hm₁
    obtain rfl := Filter.mmedian.inj (hfilter.symm.trans hm₁)
    exact hexact
  · by_cases hzero : (tmvIsZero tsp.t2 || tmvIsZero tsp.t3) = true
    · exact ⟨none, tsp, if_pos hzero, h⟩
    · have hsample' : filterSample tsp.delayFilter (getRawDelay tsp) =
          .ok (windowMedian (slide m.len w (getRawDelay tsp)), .mmedian m') := by
        simp only [hfilter, filterSample, hsample, bind, Except.bind, pure, Except.pure]
      exact ⟨_, _, tsprocUpdateDelay_of_sample hzero hsample',
        h.t1, h.t2, h.t3, h.t4, h.ratio, hmedian, m', _, rfl, htracks', hslide⟩

/-- The delay that an offset is corrected by. -/
theorem WireTsproc.offsetDelay (h : WireTsproc tsp) {delay rawDelay : Tmv}
    (hdelay : offsetDelay tsp = some (delay, rawDelay)) : delay.Within maxDelay := by
  unfold ExternalServo.offsetDelay at hdelay
  cases hmode : tsp.mode with
  | filter | filterWeight =>
    simp only [hmode] at hdelay
    split at hdelay
    · cases hdelay
    · obtain ⟨rfl, -⟩ := Prod.mk.inj (Option.some.inj hdelay)
      exact h.filtered
  | raw | rawWeight =>
    simp only [hmode] at hdelay
    split at hdelay
    · cases hdelay
    · obtain ⟨rfl, -⟩ := Prod.mk.inj (Option.some.inj hdelay)
      exact h.rawDelay.2

/-- **The offset** is exact in every mode: a difference of two times less a delay, which is a raw
one or the median of raw ones. -/
theorem WireTsproc.updateOffset (h : WireTsproc tsp) : OffsetExact tsp := by
  intro offset weight hoffset
  obtain ⟨-, -, delay, rawDelay, hdelay, rfl, -⟩ := tsprocUpdateOffset_eq_some hoffset
  obtain ⟨hdiff, hwdiff⟩ := h.t2.sub h.t1
  have hfits := two_mul_maxDelay_lt
  rw [two_mul] at hfits
  obtain ⟨hexact, hwithin⟩ := hwdiff.sub (h.offsetDelay hdelay) hfits
  rw [hdiff] at hexact
  exact ⟨delay, rawDelay, hdelay, hdiff, hexact, hwithin.negated hfits⟩

end Updates

/-- The invariant of the processor and the servo. -/
structure WireSys (sys : Sys D (Inner D)) : Prop where
  tsp : WireTsproc sys.tsp
  servo : sys.servo.inner.UnitRatio

/-- **One message** is computed exactly, does not fault, and keeps the ranges. Its times are stored
as they are, and all that is computed from them was bounded for any such times; after a step the
times are zero. -/
theorem WireSys.handle [LawfulCDouble D] {sys : Sys D (Inner D)} (h : WireSys sys)
    (pow : D → D → D) (dev : DeviceConfig) {handler : Handler} (hwire : WireHandler handler) :
    HandledExactly sys handler ∧
      ∃ sys', ExternalServo.handle (servoOps pow) dev sys handler = .ok sys' ∧ WireSys sys' := by
  obtain ⟨htsp, hservo⟩ := h
  cases handler with
  | clockUpdate t1 t2 =>
    obtain ⟨ht1, ht2⟩ := hwire
    have hdown : WireTsproc (tsprocDownTs sys.tsp ⟨t1⟩ ⟨t2⟩) :=
      ⟨ht1, ht2, htsp.t3, htsp.t4, htsp.ratio, htsp.filtered, htsp.window⟩
    refine ⟨⟨hdown.rawDelay.1, hdown.updateOffset⟩, ?_⟩
    rw [ExternalServo.handle, clockUpdate]
    dsimp only
    split
    · exact ⟨_, rfl, hdown, hservo⟩
    · next masterOffset weight hoffset =>
      have hservo' := unitRatio_sample pow hservo (tmvToNanoseconds masterOffset)
        (tmvToNanoseconds ⟨t2⟩).toUInt64 weight
      have hratio := servoRateRatio_of_unit pow hservo'
      split
      · -- a step forgets the measurements
        exact ⟨_, rfl, ⟨wireTime_zero, wireTime_zero, wireTime_zero, wireTime_zero, hratio,
          hdown.filtered, hdown.window⟩, hservo'⟩
      · exact ⟨_, rfl, ⟨ht1, ht2, htsp.t3, htsp.t4, hratio, hdown.filtered, hdown.window⟩, hservo'⟩
  | pathDelay t3 t4 =>
    obtain ⟨ht3, ht4⟩ := hwire
    have hup : WireTsproc (tsprocUpTs sys.tsp ⟨t3⟩ ⟨t4⟩) :=
      ⟨htsp.t1, htsp.t2, ht3, ht4, htsp.ratio, htsp.filtered, htsp.window⟩
    obtain ⟨hmedian, delay, tsp', hdelay, htsp'⟩ := hup.updateDelay
    refine ⟨⟨hup.rawDelay.1, hmedian⟩, { sys with tsp := tsp' }, ?_, htsp', hservo⟩
    simp only [ExternalServo.handle, pathDelay, hdelay, bind, Except.bind, pure, Except.pure]

/-! ## The receive loop -/

/-- What an iteration computes from the joined seconds on is exact. -/
def ValuesExact {σ : Type} (loop : Loop D σ) : Event → Prop
  | .idle => True
  | .readable recv =>
    DecodedExactly (loop.locals.data.recv recv).bytes loop.locals.vars ∧
      ∀ handler ∈ (receive loop.locals recv).2, HandledExactly loop.sys handler

/-- A property of the message that an iteration decodes, if it decodes one. -/
def OfMessage {σ : Type} (P : List UInt8 → Prop) (loop : Loop D σ) : Event → Prop
  | .idle => True
  | .readable recv => ¬ recv.Empty → P (loop.locals.data.recv recv).bytes

instance {σ : Type} {P : List UInt8 → Prop} [DecidablePred P] (loop : Loop D σ) :
    (event : Event) → Decidable (OfMessage P loop event)
  | .idle => inferInstanceAs (Decidable True)
  | .readable recv =>
    inferInstanceAs (Decidable (¬ recv.Empty → P (loop.locals.data.recv recv).bytes))

/-- Whatever an iteration computes is exact. -/
def WireExact {σ : Type} (loop : Loop D σ) (event : Event) : Prop :=
  OfMessage ShiftsExact loop event ∧ ValuesExact loop event

/-- **The invariant** of the receive loop: its locals are those of a message, and the system has
only seen such times. -/
structure WireLoop (loop : Loop D (Inner D)) : Prop where
  vars : Produced loop.locals.vars
  sys : WireSys loop.sys

/-- A handler is called with times that were decoded. -/
theorem Produced.wireHandler {vars : LoopVars} (h : Produced vars) {handler : Handler}
    (hhandler : handlerOf vars = some handler) : WireHandler handler := by
  have hhandled : Handled vars.msgType := by
    by_contra hnot
    rw [handlerOf_eq_none.mpr hnot] at hhandler
    cases hhandler
  obtain ⟨hmaster, hslave⟩ := h.wireTime hhandled
  rw [handlerOf] at hhandler
  split_ifs at hhandler
  · obtain rfl := Option.some.inj hhandler
    exact ⟨hmaster, hslave⟩
  · obtain rfl := Option.some.inj hhandler
    exact ⟨hslave, hmaster⟩

/-- Receiving keeps the values of the locals produced. -/
theorem Produced.receive {locals : Locals} (h : Produced locals.vars) (recv : Recv) :
    Produced (receive locals recv).1.vars ∧
      ∀ handler ∈ (ExternalServo.receive locals recv).2, WireHandler handler := by
  by_cases hempty : recv.Empty
  · rw [receive_of_empty hempty]
    refine ⟨h, ?_⟩
    intro handler hhandler
    cases hhandler
  · rw [receive_of_not_empty hempty]
    have hvars := h.processMessage (locals.data.recv recv).bytes
    refine ⟨hvars, ?_⟩
    intro handler hhandler
    exact hvars.wireHandler hhandler

section Loop

variable [LawfulCDouble D] {loop : Loop D (Inner D)}

/-- **The step lemma.** An iteration computes exactly, does not fault, and keeps the invariant. -/
theorem WireLoop.step (h : WireLoop loop) (pow : D → D → D) (dev : DeviceConfig) (event : Event) :
    ValuesExact loop event ∧
      ∃ loop', loopStep (servoOps pow) dev loop event = .ok loop' ∧ WireLoop loop' := by
  cases event with
  | idle => exact ⟨trivial, loop, rfl, h⟩
  | readable recv =>
    obtain ⟨hvars, hwire⟩ := h.vars.receive recv
    have hdecoded := processMessage_decodedExactly (loop.locals.data.recv recv).bytes
      loop.locals.vars
    cases hhandler : (receive loop.locals recv).2 with
    | none =>
      refine ⟨⟨hdecoded, ?_⟩, ⟨(receive loop.locals recv).1, loop.sys⟩, ?_, hvars, h.sys⟩
      · intro handler hmem
        rw [hhandler] at hmem
        cases hmem
      · simp only [loopStep, hhandler, effect, Except.map]
    | some handler =>
      obtain ⟨hexact, sys', hok, hsys'⟩ := h.sys.handle pow dev (hwire handler hhandler)
      refine ⟨⟨hdecoded, ?_⟩, ⟨(receive loop.locals recv).1, sys'⟩, ?_, hvars, hsys'⟩
      · intro handler' hmem
        obtain rfl := Option.some.inj (hhandler.symm.trans hmem)
        exact hexact
      · simp only [loopStep, hhandler, effect, hok, Except.map]

/-- An iteration is exact if the upper seconds of its message fit, and only then. -/
theorem WireLoop.wireExact_iff (h : WireLoop loop) (pow : D → D → D) (dev : DeviceConfig)
    (event : Event) : WireExact loop event ↔ OfMessage MsbsFit loop event := by
  have hshifts : OfMessage ShiftsExact loop event ↔ OfMessage MsbsFit loop event := by
    cases event with
    | idle => exact Iff.rfl
    | readable recv => exact imp_congr_right fun _ => shiftsExact_iff
  rw [WireExact, hshifts]
  exact and_iff_left (h.step pow dev event).1

end Loop

theorem wireTsproc_create {grants : Nat → Bool} {mode : UInt32} {length : Int} {tsp : Tsproc D}
    (h : tsprocCreate grants mode 1 length = some tsp) : WireTsproc tsp := by
  obtain ⟨-, hfilter, hcreated⟩ := tsprocCreate_eq_some h
  obtain ⟨m, hm, hmedian⟩ := Option.map_eq_some_iff.mp hfilter
  obtain ⟨htracks, -⟩ := mmedianCreate_tracks hm
  rw [hcreated]
  refine ⟨wireTime_zero, wireTime_zero, wireTime_zero, wireTime_zero, rfl, Tmv.within_zero, m, [],
    hmedian.symm, htracks, ?_⟩
  intro x hx
  cases hx

/-- **No overflow from the wire to the step, but for one shift.** With a moving median of any
length, any mode and a servo whose rate ratio is one, over every sequence of datagrams: nothing
faults, and the times, the raw delays, the medians and the offsets, which can be negated, are the
exact ones. No operation overflows, the shifts of the upper seconds included, exactly if the upper
seconds of every timestamp that is decoded have fifteen bits. -/
theorem wireRange [LawfulCDouble D] {grants : Nat → Bool} {mode : UInt32} {length : Int}
    {tsp : Tsproc D} {servo : Servo D (Inner D)} {locals : Locals}
    (hcreate : tsprocCreate grants mode 1 length = some tsp) (hservo : servo.inner.UnitRatio)
    (hvars : Produced locals.vars) (pow : D → D → D) (dev : DeviceConfig)
    (calls : List (ClockCall D)) (events : List Event) :
    Always (loopStep (servoOps pow) dev) ValuesExact ⟨locals, tsp, servo, calls⟩ events ∧
      (∃ loop', events.foldlM (loopStep (servoOps pow) dev) ⟨locals, tsp, servo, calls⟩ =
        .ok loop') ∧
      (Always (loopStep (servoOps pow) dev) WireExact ⟨locals, tsp, servo, calls⟩ events ↔
        Always (loopStep (servoOps pow) dev) (OfMessage MsbsFit)
          ⟨locals, tsp, servo, calls⟩ events) := by
  have hloop : WireLoop ⟨locals, tsp, servo, calls⟩ := ⟨hvars, wireTsproc_create hcreate, hservo⟩
  have hrun : ∀ loop event, WireLoop loop → True →
      ∃ loop', loopStep (servoOps pow) dev loop event = .ok loop' ∧ WireLoop loop' := by
    intro loop event h _
    exact (h.step pow dev event).2
  have hevents : ∀ event ∈ events, True := by
    intro event _
    trivial
  have hstep : ∀ {Q : Loop D (Inner D) → Event → Prop} loop event loop', WireLoop loop →
      Q loop event → loopStep (servoOps pow) dev loop event = .ok loop' → WireLoop loop' := by
    intro Q loop event loop' h _ hok
    obtain ⟨-, loop₁, hok₁, h₁⟩ := h.step pow dev event
    obtain rfl := Except.ok.inj (hok₁.symm.trans hok)
    exact h₁
  obtain ⟨loop', hok, -⟩ := run_ok_of_inv hrun hloop hevents
  refine ⟨?_, ⟨loop', hok⟩, ?_⟩
  · apply Always.of_inv hstep _ hloop (always_of_mem hevents _)
    intro loop event h _
    exact (h.step pow dev event).1
  · apply always_congr_of_inv hstep _ hloop
    intro loop event h
    exact h.wireExact_iff pow dev event

/-- A signalling message whose TLV of a given type holds a record of ones, but for the upper seconds
of its timestamps: these begin with the byte `top`. -/
def onesDatagram (high low top : UInt8) : Datagram :=
  { bytes := [0x0C] ++ List.replicate 43 0 ++ [high, low] ++ List.replicate 12 0 ++
      [0xFF, 0xFF, top] ++ List.replicate 17 0xFF ++ [top, 0xFF, 0xFF, 0xFF, top] ++
      List.replicate 9 0xFF
    length_le := by simp [MAX_PKT_LEN] }

/-- The latest times without overflow, in both kinds of messages. -/
theorem wireRange_ones :
    ∃ tsp ∈ (tsprocCreate (fun _ => true) 0 1 2 : Option (Tsproc XRat)),
      ∃ servo ∈ servoCreate ⟨true, fun _ => none⟩ ServoConfig.zero,
        Always (loopStep (servoOps powOne) DeviceConfig.zero) WireExact
          ⟨zeroLocals, tsp, servo, []⟩
          [.readable (.delivered (onesDatagram 0x80 0x04 0x7F)),
            .readable (.delivered (onesDatagram 0x7f 0x00 0x7F)), .readable .failed] := by
  have h : ∃ tsp ∈ (tsprocCreate (fun _ => true) 0 1 2 : Option (Tsproc XRat)),
      ∃ servo ∈ servoCreate ⟨true, fun _ => none⟩ ServoConfig.zero,
        servo.inner.UnitRatio ∧ Always (loopStep (servoOps powOne) DeviceConfig.zero)
          (OfMessage MsbsFit) ⟨zeroLocals, tsp, servo, []⟩
          [.readable (.delivered (onesDatagram 0x80 0x04 0x7F)),
            .readable (.delivered (onesDatagram 0x7f 0x00 0x7F)), .readable .failed] := by
    decide +kernel
  have hvars : Produced zeroLocals.vars := by
    intro hhandled
    exact absurd hhandled (by decide)
  obtain ⟨tsp, hcreate, servo, hservo, hunit, hfit⟩ := h
  refine ⟨tsp, hcreate, servo, hservo, ?_⟩
  exact (wireRange hcreate hunit hvars powOne DeviceConfig.zero [] _).2.2.mpr hfit

/-- A record of nothing but ones: the shift of its upper seconds overflows. -/
theorem not_wireExact_ones :
    ∃ tsp ∈ (tsprocCreate (fun _ => true) 0 1 2 : Option (Tsproc XRat)),
      ∃ servo ∈ servoCreate ⟨true, fun _ => none⟩ (ServoConfig.zero : ServoConfig XRat),
        ¬ Always (loopStep (servoOps powOne) DeviceConfig.zero) WireExact
          ⟨zeroLocals, tsp, servo, []⟩
          [.readable (.delivered (onesDatagram 0x80 0x04 0xFF))] := by
  have hshifts : ¬ MsbsFit
      (zeroLocals.data.recv (.delivered (onesDatagram 0x80 0x04 0xFF))).bytes := by
    decide +kernel
  refine ⟨_, rfl, _, rfl, ?_⟩
  rintro ⟨⟨hexact, -⟩, -⟩
  exact hshifts (shiftsExact_iff.mp (hexact (by decide)))

end ExternalServo
