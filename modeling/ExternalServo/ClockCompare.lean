import ExternalServo.ClockAdj
import ExternalServo.Selection
import ExternalServo.Tmv
import Mathlib.Data.Int.ConditionallyCompleteOrder

/-!
# Comparing two clocks (`clockadj_compare`)

A clock is read between two readings of the system clock, several times, and the quickest of these
counts: half of its interval is added to the difference of the first two readings. As a selection
it is the pass of `Selection` without a tolerance.

* `clockadjCompare_failed` — a clock that cannot be read;
* `clockadjCompare_accurate` — the offset is right up to half of the shortest interval.
-/

namespace ExternalServo

open CArith

/-- `struct timespec`, with both fields as the 64-bit words they are on the machine. -/
structure Timespec where
  tvSec : Int64
  tvNsec : Int64
  deriving DecidableEq

/-- The three readings of an iteration. The clock that is compared is read between two readings of
the system clock, so the system clock showed a time between theirs when it was read. -/
structure ClockReadings where
  /-- the system clock, first -/
  tdst1 : Timespec
  /-- the clock that is compared -/
  tsrc : Timespec
  /-- the system clock, last -/
  tdst2 : Timespec
  deriving DecidableEq

/-- The results of `clockadj_compare`. -/
structure Comparison where
  offset : Int64
  ts : UInt64
  delay : Int64
  deriving DecidableEq

/-- `interval` -/
def ClockReadings.interval (r : ClockReadings) : Int64 :=
  (r.tdst2.tvSec - r.tdst1.tvSec) * NS_PER_SEC_LL + r.tdst2.tvNsec - r.tdst1.tvNsec

/-- The offset of an iteration. -/
def ClockReadings.offset (r : ClockReadings) : Int64 :=
  (r.tdst1.tvSec - r.tsrc.tvSec) * NS_PER_SEC_LL + r.tdst1.tvNsec - r.tsrc.tvNsec + r.interval / 2

/-- The time stamp of an iteration. -/
def ClockReadings.ts (r : ClockReadings) : UInt64 :=
  (r.tdst2.tvSec * NS_PER_SEC_LL + r.tdst2.tvNsec).toUInt64

/-- The loop over the iterations `is`. An iteration whose clocks cannot be read ends it, with the
error number, and leaves what was found so far in the results, except the delay, which is only
written at the end. -/
def compareLoop (read : Nat → Except Int ClockReadings) :
    List Nat → Int64 → Comparison → Int × Comparison
  | [], bestInterval, out => (0, { out with delay := bestInterval })
  | i :: is, bestInterval, out =>
    match read i with
    | .error errno => (-errno, out)
    | .ok r =>
      if r.interval < bestInterval then
        compareLoop read is r.interval { out with offset := r.offset, ts := r.ts }
      else compareLoop read is bestInterval out

/-- `clockadj_compare`: what it returns, and its results. -/
def clockadjCompare (read : Nat → Except Int ClockReadings) (readings : Int) (out : Comparison) :
    Int × Comparison :=
  compareLoop read (List.range readings.toNat) Int64.maxValue out

/-! ## A clock that cannot be read -/

/-- The first iteration that fails decides what is returned; the delay is not written. -/
theorem compareLoop_failed {read : Nat → Except Int ClockReadings} {past future : List Nat}
    {i : Nat} {errno : Int} (hpast : ∀ j ∈ past, ∃ r, read j = .ok r)
    (hread : read i = .error errno) (bestInterval : Int64) (out : Comparison) :
    (compareLoop read (past ++ i :: future) bestInterval out).1 = -errno ∧
      (compareLoop read (past ++ i :: future) bestInterval out).2.delay = out.delay := by
  induction past generalizing bestInterval out with
  | nil =>
    rw [List.nil_append, compareLoop, hread]
    exact ⟨rfl, rfl⟩
  | cons j past ih =>
    obtain ⟨⟨r, hr⟩, hpast⟩ := List.forall_mem_cons.mp hpast
    rw [List.cons_append, compareLoop, hr]
    dsimp only
    split
    · exact ih hpast _ _
    · exact ih hpast _ _

/-! ## The quickest reading -/

/-- An iteration that reads the clocks. -/
theorem compareLoop_cons {read : Nat → Except Int ClockReadings} {i : Nat} {is : List Nat}
    {r : ClockReadings} (hread : read i = .ok r) (bestInterval : Int64) (out : Comparison) :
    compareLoop read (i :: is) bestInterval out =
      if r.interval < bestInterval then
        compareLoop read is r.interval ⟨r.offset, r.ts, out.delay⟩
      else compareLoop read is bestInterval out := by
  rw [compareLoop, hread]

/-- While the iteration `k` is the best, the rest of the loop is a selection. -/
theorem compareLoop_select {read : Nat → Except Int ClockReadings} {r : Nat → ClockReadings}
    {is : List Nat} (hread : ∀ i ∈ is, read i = .ok (r i)) (k : Nat) (delay : Int64) :
    ∃ m, m = Selection.select id (fun i => (r i).interval.toInt) k is ∧
      compareLoop read is (r k).interval ⟨(r k).offset, (r k).ts, delay⟩ =
        (0, ⟨(r m).offset, (r m).ts, (r m).interval⟩) := by
  induction is generalizing k with
  | nil => exact ⟨k, rfl, by rw [compareLoop]⟩
  | cons i is ih =>
    obtain ⟨hi, hread⟩ := List.forall_mem_cons.mp hread
    rw [compareLoop_cons hi]
    by_cases hless : (r i).interval < (r k).interval
    · obtain ⟨m, hm, hloop⟩ := ih hread i
      refine ⟨m, ?_, ?_⟩
      · rw [hm, Selection.select, Selection.select, List.foldl_cons, id,
          if_pos (Int64.lt_iff_toInt_lt.mp hless)]
      · rw [if_pos hless, hloop]
    · obtain ⟨m, hm, hloop⟩ := ih hread k
      refine ⟨m, ?_, ?_⟩
      · rw [hm, Selection.select, Selection.select, List.foldl_cons, id,
          if_neg (mt Int64.lt_iff_toInt_lt.mpr hless)]
      · rw [if_neg hless, hloop]

/-! ## Times -/

/-- A time in nanoseconds. -/
def Timespec.toNs (t : Timespec) : Int := t.tvSec.toInt * 1000000000 + t.tvNsec.toInt

/-- A time of fewer than `2 ^ 32` seconds, with fewer nanoseconds than a second has. The bound on
the seconds keeps the products and differences of the source in 64 bits. -/
structure Timespec.Normal (t : Timespec) : Prop where
  sec_nonneg : 0 ≤ t.tvSec.toInt
  sec_lt : t.tvSec.toInt < 2 ^ 32
  nsec_nonneg : 0 ≤ t.tvNsec.toInt
  nsec_lt : t.tvNsec.toInt < 1000000000

/-- The readings are normal, and the clock was read while the system clock showed `x`. The time `x`
is not known to the program: the bound of the error is for any that the two outer readings allow. -/
structure ReadAt (r : ClockReadings) (x : Int) : Prop where
  tdst1 : r.tdst1.Normal
  tsrc : r.tsrc.Normal
  tdst2 : r.tdst2.Normal
  after : r.tdst1.toNs ≤ x
  before : x ≤ r.tdst2.toNs

/-- A difference of normal times does not wrap around. -/
theorem Timespec.Normal.sub {s t : Timespec} (hs : s.Normal) (ht : t.Normal) :
    ((s.tvSec - t.tvSec) * NS_PER_SEC_LL + s.tvNsec - t.tvNsec).toInt = s.toNs - t.toNs := by
  obtain ⟨hs1, hs2, hs3, hs4⟩ := hs
  obtain ⟨ht1, ht2, ht3, ht4⟩ := ht
  have hbillion : NS_PER_SEC_LL.toInt = 1000000000 := rfl
  have hsec : (s.tvSec - t.tvSec).toInt = s.tvSec.toInt - t.tvSec.toInt :=
    toInt_sub_of_fits (by unfold Fits; omega)
  have hmul : ((s.tvSec - t.tvSec) * NS_PER_SEC_LL).toInt =
      (s.tvSec.toInt - t.tvSec.toInt) * 1000000000 := by
    rw [Int64.toInt_mul, hsec, hbillion, Int.bmod_eq_of_le] <;> omega
  have hadd : ((s.tvSec - t.tvSec) * NS_PER_SEC_LL + s.tvNsec).toInt =
      (s.tvSec.toInt - t.tvSec.toInt) * 1000000000 + s.tvNsec.toInt := by
    rw [toInt_add_of_fits (by rw [hmul]; unfold Fits; omega), hmul]
  rw [toInt_sub_of_fits (by rw [hadd]; unfold Fits; omega), hadd, toNs, toNs]
  omega

theorem Timespec.Normal.range {t : Timespec} (h : t.Normal) :
    0 ≤ t.toNs ∧ t.toNs < 2 ^ 32 * 1000000000 := by
  obtain ⟨h1, h2, h3, h4⟩ := h
  rw [toNs]
  omega

/-- The time stamp is the last reading. -/
theorem ReadAt.ts_toNat {r : ClockReadings} {x : Int} (h : ReadAt r x) :
    (r.ts.toNat : Int) = r.tdst2.toNs := by
  obtain ⟨h1, h2, h3, h4⟩ := h.tdst2
  have hbillion : NS_PER_SEC_LL.toInt = 1000000000 := rfl
  have hmul : (r.tdst2.tvSec * NS_PER_SEC_LL).toInt = r.tdst2.tvSec.toInt * 1000000000 := by
    rw [Int64.toInt_mul, hbillion, Int.bmod_eq_of_le] <;> omega
  have hsum : (r.tdst2.tvSec * NS_PER_SEC_LL + r.tdst2.tvNsec).toInt = r.tdst2.toNs := by
    rw [toInt_add_of_fits (by rw [hmul]; unfold Fits; omega), hmul, Timespec.toNs]
  have hnonneg := h.tdst2.range.1
  rw [ClockReadings.ts, Int64.toNat_toUInt64_of_le
    (Int64.le_iff_toInt_le.mpr (by rw [hsum]; simpa using hnonneg)),
    ← Int64.toNat_toInt, hsum]
  exact Int.toNat_of_nonneg hnonneg

/-- A time between two others is half of their distance off the middle, which is rounded down. -/
theorem abs_middle_le {t₁ t₂ x y interval offset : Int} (hafter : t₁ ≤ x) (hbefore : x ≤ t₂)
    (hinterval : interval = t₂ - t₁) (hoffset : offset = t₁ - y + interval / 2) :
    2 * |offset - (x - y)| ≤ interval + 1 := by
  have hbound : |offset - (x - y)| ≤ (interval + 1) / 2 := by
    rw [abs_le]
    omega
  omega

/-- The interval of an iteration. -/
theorem ReadAt.interval_eq {r : ClockReadings} {x : Int} (h : ReadAt r x) :
    r.interval.toInt = r.tdst2.toNs - r.tdst1.toNs ∧ 0 ≤ r.interval.toInt ∧
      r.interval.toInt < 2 ^ 62 := by
  have hinterval : r.interval.toInt = r.tdst2.toNs - r.tdst1.toNs := by
    rw [ClockReadings.interval]
    exact h.tdst2.sub h.tdst1
  have hafter := h.after
  have hbefore := h.before
  have h1 := h.tdst1.range
  have h2 := h.tdst2.range
  generalize r.interval.toInt = interval at hinterval ⊢
  omega

/-- The offset of an iteration. -/
theorem ReadAt.offset_eq {r : ClockReadings} {x : Int} (h : ReadAt r x) :
    r.offset.toInt = r.tdst1.toNs - r.tsrc.toNs + r.interval.toInt / 2 := by
  obtain ⟨-, hnonneg, hlt⟩ := h.interval_eq
  have hdiff := h.tdst1.sub h.tsrc
  have hhalf := toInt_half r.interval
  rw [Int.tdiv_eq_ediv_of_nonneg hnonneg] at hhalf
  have hfits : Fits (r.tdst1.toNs - r.tsrc.toNs + r.interval.toInt / 2) := by
    have h1 := h.tdst1.range
    have h3 := h.tsrc.range
    generalize r.interval.toInt = interval at hnonneg hlt ⊢
    unfold Fits
    omega
  rw [ClockReadings.offset, toInt_add_of_fits (by rw [hdiff, hhalf]; exact hfits), hdiff, hhalf]

/-- **One iteration**: the offset is right up to half of the interval. The source adds half of the
interval to the first reading, so it takes the middle for the time of the inner reading, and no time
in the interval is further from it than half; the division rounds down by up to half a nanosecond
more. -/
theorem ReadAt.offset_error {r : ClockReadings} {x : Int} (h : ReadAt r x) :
    2 * |r.offset.toInt - (x - r.tsrc.toNs)| ≤ r.interval.toInt + 1 :=
  abs_middle_le h.after h.before h.interval_eq.1 h.offset_eq

/-! ## The comparison -/

/-- If all readings succeed, the first one with the shortest interval gives the results. -/
theorem clockadjCompare_first {read : Nat → Except Int ClockReadings} {r : Nat → ClockReadings}
    {n : Nat} (hread : ∀ i < n + 1, read i = .ok (r i))
    (hshort : (r 0).interval.toInt < 2 ^ 62) (out : Comparison) :
    ∃ k < n + 1,
      clockadjCompare read (n + 1 : Nat) out =
        (0, ⟨(r k).offset, (r k).ts, (r k).interval⟩) ∧
      ∀ j < n + 1, (r k).interval.toInt ≤ (r j).interval.toInt ∧
        (j < k → (r k).interval.toInt < (r j).interval.toInt) := by
  have hrange : List.range (n + 1) = 0 :: List.range' 1 n := by
    rw [List.range_eq_range', List.range'_succ]
  have hzero : (r 0).interval < Int64.maxValue := by
    rw [Int64.lt_iff_toInt_lt]
    exact hshort.trans (by decide)
  have hrest : ∀ i ∈ List.range' 1 n, read i = .ok (r i) := by
    intro i hi
    obtain ⟨-, hlt⟩ := List.mem_range'_1.mp hi
    exact hread i (by omega)
  have hsorted : (0 :: List.range' 1 n).Pairwise (· < ·) := by
    rw [← hrange]
    exact List.pairwise_lt_range
  obtain ⟨k, hk, hloop⟩ := compareLoop_select hrest 0 out.delay
  obtain ⟨hmem, hfirst⟩ :=
    Selection.select_id_first (fun i => (r i).interval.toInt) hsorted
  rw [← hk, ← hrange] at hmem hfirst
  refine ⟨k, List.mem_range.mp hmem, ?_, ?_⟩
  · rw [clockadjCompare, Int.toNat_natCast, hrange,
      compareLoop_cons (hread 0 (Nat.succ_pos n)), if_pos hzero, hloop]
  · intro j hj
    exact hfirst j (List.mem_range.mpr hj)

/-- If an iteration fails, the first one that does decides what is returned. -/
theorem clockadjCompare_failed {read : Nat → Except Int ClockReadings} {n i : Nat} {errno : Int}
    (hi : i < n) (hfail : read i = .error errno) (hpast : ∀ j < i, ∃ r, read j = .ok r)
    (out : Comparison) :
    (clockadjCompare read n out).1 = -errno ∧
      (clockadjCompare read n out).2.delay = out.delay := by
  obtain ⟨m, rfl⟩ : ∃ m, n = i + (m + 1) := ⟨n - (i + 1), by omega⟩
  have hsplit : List.range (i + (m + 1)) = List.range i ++ i :: List.range' (i + 1) m := by
    have happend := List.range'_append_1 (s := 0) (m := i) (n := m + 1)
    rw [Nat.zero_add, List.range'_succ] at happend
    rw [List.range_eq_range', List.range_eq_range', ← happend]
  rw [clockadjCompare, Int.toNat_natCast, hsplit]
  apply compareLoop_failed _ hfail
  intro j hj
  exact hpast j (List.mem_range.mp hj)

/-- **The comparison is as accurate as its quickest reading.** Whatever can be read is normal, and
the clock was read while the system clock showed `x i`. If all readings succeed, and there is at
least one, the delay is the shortest interval, the time stamp ends the first iteration that took it,
and the offset is the difference of the clocks in that iteration, up to half of the delay, rounded
up. If one fails, the error number of the first one is returned, and the delay is not written. -/
theorem clockadjCompare_accurate {read : Nat → Except Int ClockReadings} {readings : Nat}
    {x : Nat → Int} (hread : ∀ i, ∀ r, read i = .ok r → ReadAt r (x i)) (out : Comparison) :
    (∀ i < readings, ∀ errno, read i = .error errno → (∀ j < i, ∃ r, read j = .ok r) →
      (clockadjCompare read readings out).1 = -errno ∧
        (clockadjCompare read readings out).2.delay = out.delay) ∧
    (0 < readings → (∀ i < readings, ∃ r, read i = .ok r) →
      ∃ k < readings, ∃ r, read k = .ok r ∧
        (clockadjCompare read readings out).1 = 0 ∧
        (clockadjCompare read readings out).2.delay = r.interval ∧
        ((clockadjCompare read readings out).2.ts.toNat : Int) = r.tdst2.toNs ∧
        2 * |(clockadjCompare read readings out).2.offset.toInt - (x k - r.tsrc.toNs)| ≤
          (clockadjCompare read readings out).2.delay.toInt + 1 ∧
        ∀ j < readings, ∀ r', read j = .ok r' → r.interval.toInt ≤ r'.interval.toInt ∧
          (j < k → r.interval.toInt < r'.interval.toInt)) := by
  refine ⟨?_, ?_⟩
  · intro i hi errno hfail hpast
    exact clockadjCompare_failed hi hfail hpast out
  · intro hpos hall
    obtain ⟨n, rfl⟩ : ∃ n, readings = n + 1 := ⟨readings - 1, by omega⟩
    have hchoose : ∀ i, ∃ r, i < n + 1 → read i = .ok r := by
      intro i
      by_cases hi : i < n + 1
      · obtain ⟨r, hr⟩ := hall i hi
        exact ⟨r, fun _ => hr⟩
      · exact ⟨⟨⟨0, 0⟩, ⟨0, 0⟩, ⟨0, 0⟩⟩, fun h => absurd h hi⟩
    choose r hr using hchoose
    obtain ⟨-, -, hshort⟩ := (hread 0 _ (hr 0 (Nat.succ_pos n))).interval_eq
    obtain ⟨k, hk, hresult, hfirst⟩ := clockadjCompare_first hr hshort out
    have hreadk := hread k _ (hr k hk)
    rw [hresult]
    refine ⟨k, hk, r k, hr k hk, rfl, rfl, hreadk.ts_toNat, hreadk.offset_error, ?_⟩
    intro j hj r' hr'
    obtain rfl := Except.ok.inj ((hr j hj).symm.trans hr')
    exact hfirst j hj

/-- Two readings: the second is quicker. -/
def twoReadings (i : Nat) : Except Int ClockReadings :=
  .ok (if i = 0 then ⟨⟨5, 100⟩, ⟨3, 0⟩, ⟨5, 300⟩⟩ else ⟨⟨5, 400⟩, ⟨3, 300⟩, ⟨5, 410⟩⟩)

/-- The first of two readings took 200 ns and the second 10 ns: the second one is reported, with
half of its 10 ns as the bound for the error of the offset. -/
theorem clockadjCompare_accurate_two : ∃ k < 2, ∃ r, twoReadings k = .ok r ∧
    (clockadjCompare twoReadings 2 ⟨0, 0, 0⟩).2.delay = r.interval ∧
    2 * |(clockadjCompare twoReadings 2 ⟨0, 0, 0⟩).2.offset.toInt -
        ((if k = 0 then 5000000200 else 5000000405) - r.tsrc.toNs)| ≤
      (clockadjCompare twoReadings 2 ⟨0, 0, 0⟩).2.delay.toInt + 1 := by
  have hread : ∀ i, ∀ r, twoReadings i = .ok r →
      ReadAt r (if i = 0 then 5000000200 else 5000000405) := by
    intro i r hr
    obtain rfl := Except.ok.inj hr
    by_cases hi : i = 0
    · rw [if_pos hi, if_pos hi]
      refine ⟨⟨?_, ?_, ?_, ?_⟩, ⟨?_, ?_, ?_, ?_⟩, ⟨?_, ?_, ?_, ?_⟩, ?_, ?_⟩ <;> decide
    · rw [if_neg hi, if_neg hi]
      refine ⟨⟨?_, ?_, ?_, ?_⟩, ⟨?_, ?_, ?_, ?_⟩, ⟨?_, ?_, ?_, ?_⟩, ?_, ?_⟩ <;> decide
  obtain ⟨k, hk, r, hr, -, hdelay, -, herror, -⟩ :=
    (@clockadjCompare_accurate twoReadings 2 _ hread ⟨0, 0, 0⟩).2 Nat.two_pos (fun _ _ => ⟨_, rfl⟩)
  exact ⟨k, hk, r, hr, hdelay, herror⟩

end ExternalServo
