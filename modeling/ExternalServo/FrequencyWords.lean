import ExternalServo.ClockAdj
import ExternalServo.Tmv
import Mathlib.Tactic.LinearCombination
import Mathlib.Tactic.Ring

/-!
# The frequency of the system clock in words of the kernel

`clockadj_set_freq` splits a frequency between a whole number of ticks and a frequency word in units
of `2 ^ -16` ppm, and `clockadj_get_freq` puts the two together again. As long as both words, and
the distance of the tick from the nominal one, fit `long`:

* what is read back differs from what was written by less than one unit of the frequency word;
* what was read is written back without loss, since its remainder is a whole number of units, even
  when it is split between the words in another way.
-/

namespace ExternalServo

open CArith XRat

/-! ## The words -/

section Words

variable (statics : ClockStatics)

/-- The whole number of ticks that is nearest to a frequency. -/
def tickCount (f : ℚ) : Int := nearest (f / 1000 / statics.realtimeHz)

/-- The tick of a frequency: the nominal one and the whole number of ticks that is nearest. What
this leaves of the frequency is less than half a tick. -/
def tickWord (f : ℚ) : Int := tickCount statics f + statics.realtimeNominalTick

/-- The frequency that a number of ticks contributes, in ppb. -/
def tickPpb (count : Int) : ℚ := 1000 * statics.realtimeHz * count

/-- What is left for the frequency word, in its units. -/
def remainder (f : ℚ) : ℚ := (f - tickPpb statics (tickCount statics f)) * 65.536

/-- Both words of a frequency fit `long`, and so does the number of ticks, which is what is left of
the one word when the nominal tick is subtracted. The last is a condition of its own: for a word
near the least one the difference is none. -/
def WordsFit (f : ℚ) : Prop :=
  Fits (tickWord statics f) ∧ Fits (tickCount statics f) ∧ Fits (integral (remainder statics f))

/-- The request for a frequency. -/
def setFreqWords (f : ℚ) : Timex := clockadjSetFreq statics CLOCK_REALTIME (fin f)

/-- The kernel keeps the words it was given. -/
def Keeps (tx request : Timex) : Prop := tx.tick = request.tick ∧ tx.freq = request.freq

end Words

section Conversions

variable {statics : ClockStatics}

/-- The distance of a tick from the nominal one, as it is computed. -/
theorem tickFreq_fin (tick : Int64) : (tickFreq statics tick : XRat) =
    fin (tickPpb statics (tick - Int64.ofInt statics.realtimeNominalTick).toInt) := rfl

/-- The distance is the number of ticks, as long as that fits. -/
theorem toInt_sub_nominal {tick : Int64} {count : Int}
    (htick : tick.toInt = count + statics.realtimeNominalTick) (hcount : Fits count) :
    (tick - Int64.ofInt statics.realtimeNominalTick).toInt = count := by
  have hsize : Int64.size = 2 ^ 64 := rfl
  obtain ⟨hlo, hhi⟩ := hcount
  rw [Int64.toInt_sub, Int64.toInt_ofInt, hsize, Int.sub_bmod_bmod, htick, Int.add_sub_cancel]
  exact Int.bmod_eq_of_le (by omega) (by omega)

/-- **The words that are written.** Where both fit, the conversions of the source, which round and
cut off as the C library does, give the exact words. -/
theorem setFreqWords_eq (hhz : 0 < statics.realtimeHz) (hnominal : 0 < statics.realtimeNominalTick)
    {f : ℚ} (h : WordsFit statics f) :
    (setFreqWords statics f).tick.toInt = tickWord statics f ∧
      (setFreqWords statics f).freq.toInt = integral (remainder statics f) := by
  obtain ⟨⟨htickLo, htickHi⟩, hcount, hfreqLo, hfreqHi⟩ := h
  have hhz' : (statics.realtimeHz : ℚ) ≠ 0 := Int.cast_ne_zero.mpr hhz.ne'
  -- the tick is computed as a `double`
  have htick : CDouble.round (fin f / CDouble.lit 1000 / CDouble.ofInt statics.realtimeHz) +
      CDouble.ofInt statics.realtimeNominalTick = fin (tickWord statics f : ℚ) := by
    rw [lit_eq, ofInt_eq, fin_div _ (by norm_num), fin_div _ hhz', round_fin, ofInt_eq, fin_add,
      tickWord, tickCount]
    push_cast
    rfl
  have hint : (CDouble.toInt64 (fin (tickWord statics f : ℚ)) : Int64).toInt =
      tickWord statics f := by
    rw [toInt64_integral, integral_intCast]
    · rwa [integral_intCast]
    · rwa [integral_intCast]
  have hcond : CLOCK_REALTIME = CLOCK_REALTIME ∧ statics.realtimeNominalTick ≠ 0 :=
    ⟨rfl, hnominal.ne'⟩
  rw [setFreqWords, clockadjSetFreq, if_pos hcond]
  dsimp only
  rw [htick, tickFreq_fin, toInt_sub_nominal hint hcount, fin_sub, lit_eq, fin_mul]
  exact ⟨hint, toInt64_integral hfreqLo hfreqHi⟩

/-- **The frequency that is read** is the sum of what the two words contribute. The subtraction of
the nominal tick is one of 64 bits here, as in the source. -/
theorem clockadjGetFreq_fin (hnominal : 0 < statics.realtimeNominalTick) {tx : Timex}
    (htick : tx.tick ≠ 0) :
    clockadjGetFreq statics CLOCK_REALTIME (some tx) =
      some (fin (tx.freq.toInt / 65.536 +
        tickPpb statics (tx.tick - Int64.ofInt statics.realtimeNominalTick).toInt)) := by
  have hcond : CLOCK_REALTIME = CLOCK_REALTIME ∧ statics.realtimeNominalTick ≠ 0 ∧ tx.tick ≠ 0 :=
    ⟨rfl, hnominal.ne', htick⟩
  rw [clockadjGetFreq, Option.map_some]
  dsimp only
  rw [if_pos hcond, ofInt_eq, lit_eq, tickFreq_fin, fin_div _ (by norm_num), fin_add]

/-- What is read back of a frequency. -/
theorem readBack_eq (hhz : 0 < statics.realtimeHz) (hnominal : 0 < statics.realtimeNominalTick)
    {f : ℚ} (hfit : WordsFit statics f) (htick : (setFreqWords statics f).tick ≠ 0) {tx : Timex}
    (hkeeps : Keeps tx (setFreqWords statics f)) :
    clockadjGetFreq statics CLOCK_REALTIME (some tx) =
      some (fin (integral (remainder statics f) / 65.536 +
        tickPpb statics (tickCount statics f))) := by
  obtain ⟨hkeepsTick, hkeepsFreq⟩ := hkeeps
  obtain ⟨hwordTick, hwordFreq⟩ := setFreqWords_eq hhz hnominal hfit
  have hcount := toInt_sub_nominal hwordTick hfit.2.1
  rw [clockadjGetFreq_fin hnominal (hkeepsTick ▸ htick), hkeepsTick, hkeepsFreq, hcount, hwordFreq]

/-- **The error** is less than a unit of the frequency word. The tick is undone exactly, and the
word is cut off towards zero. -/
theorem abs_readBack_sub_lt (f : ℚ) :
    |(integral (remainder statics f) / 65.536 + tickPpb statics (tickCount statics f)) - f| <
      1 / 65.536 := by
  have herror := abs_sub_integral_lt (remainder statics f)
  have hsplit :
      (integral (remainder statics f) / 65.536 + tickPpb statics (tickCount statics f)) - f =
        -((remainder statics f - integral (remainder statics f)) / 65.536) := by
    rw [remainder]
    ring
  rw [hsplit, abs_neg, abs_div, abs_of_pos (by norm_num : (0 : ℚ) < 65.536)]
  exact div_lt_div_of_pos_right herror (by norm_num)

/-- **Integrality**: the remainder of a frequency that was read is a whole number of units. A tick
is a whole number of them too, so that moving ticks from one word to the other loses nothing. -/
theorem remainder_read (count freq : Int) :
    remainder statics (freq / 65.536 + tickPpb statics count) =
      (freq + 65536 * statics.realtimeHz *
        (count - tickCount statics (freq / 65.536 + tickPpb statics count)) : Int) := by
  rw [remainder]
  generalize tickCount statics (freq / 65.536 + tickPpb statics count) = count'
  simp only [tickPpb]
  push_cast
  ring

end Conversions

/-- An integer near a rational that is not large. -/
theorem fits_of_near {z : Int} {q : ℚ} (hnear : |q - z| ≤ 1) (hq : |q| ≤ 2 ^ 62) : Fits z := by
  obtain ⟨hlo, hhi⟩ := abs_le.mp hnear
  obtain ⟨hqlo, hqhi⟩ := abs_le.mp hq
  have hzlo : ((-2 ^ 63 : Int) : ℚ) ≤ z := by
    push_cast
    linarith
  have hzhi : (z : ℚ) < ((2 ^ 63 : Int) : ℚ) := by
    push_cast
    linarith
  exact ⟨Int.cast_le.mp hzlo, Int.cast_lt.mp hzhi⟩

/-- What is left is what rounding to a tick leaves. -/
theorem remainder_eq (hhz : 0 < statics.realtimeHz) (f : ℚ) :
    remainder statics f =
      (f / (1000 * statics.realtimeHz) - nearest (f / (1000 * statics.realtimeHz))) *
        (65536 * statics.realtimeHz) := by
  have hhz' : (0 : ℚ) < 1000 * statics.realtimeHz := by
    have hcast : (0 : ℚ) < statics.realtimeHz := by exact_mod_cast hhz
    linarith
  have hmul : f / (1000 * statics.realtimeHz) * (1000 * statics.realtimeHz) = f :=
    div_mul_cancel₀ f hhz'.ne'
  rw [remainder, tickPpb, tickCount, div_div, sub_mul]
  linear_combination (-65.536) * hmul

/-- The words fit for every clock and every frequency of ordinary size. Each of them is near a
rational number that is bounded: the quotient, the quotient and the nominal tick, and half a tick.
-/
theorem wordsFit_of_le (hhz : 0 < statics.realtimeHz) (hhz' : statics.realtimeHz ≤ 2 ^ 47)
    (hnominal : |statics.realtimeNominalTick| ≤ 2 ^ 61) {f : ℚ} (hf : |f| ≤ 2 ^ 61) :
    WordsFit statics f := by
  have hhz1 : (1 : ℚ) ≤ statics.realtimeHz := by exact_mod_cast hhz
  have hhzle : (statics.realtimeHz : ℚ) ≤ 2 ^ 47 := by exact_mod_cast hhz'
  have htick : (0 : ℚ) < 1000 * statics.realtimeHz := by linarith
  have hround := abs_sub_nearest_le (f / 1000 / statics.realtimeHz)
  rw [div_div] at hround
  have hquot : |f / (1000 * statics.realtimeHz)| ≤ 2 ^ 61 := by
    rw [abs_div, abs_of_pos htick]
    exact (div_le_self (abs_nonneg f) (by linarith)).trans hf
  refine ⟨?_, ?_, ?_⟩
  · have hnominal' : |(statics.realtimeNominalTick : ℚ)| ≤ 2 ^ 61 := by exact_mod_cast hnominal
    refine fits_of_near (q := f / (1000 * statics.realtimeHz) + statics.realtimeNominalTick) ?_ ?_
    · rw [tickWord, tickCount, div_div, Int.cast_add, add_sub_add_right_eq_sub]
      exact hround.trans (by norm_num)
    · have habs := abs_add_le (f / (1000 * statics.realtimeHz)) (statics.realtimeNominalTick : ℚ)
      linarith
  · refine fits_of_near (q := f / (1000 * statics.realtimeHz)) ?_ ?_
    · rw [tickCount, div_div]
      exact hround.trans (by norm_num)
    · exact hquot.trans (by norm_num)
  · refine fits_of_near (abs_sub_integral_lt (remainder statics f)).le ?_
    -- what is left is at most half a tick
    rw [remainder_eq hhz, abs_mul, abs_of_pos (by linarith : (0 : ℚ) < 65536 * statics.realtimeHz)]
    calc |f / (1000 * statics.realtimeHz) - nearest (f / (1000 * statics.realtimeHz))| *
          (65536 * statics.realtimeHz)
        ≤ 1 / 2 * (65536 * 2 ^ 47) := by gcongr
      _ = 2 ^ 62 := by norm_num

/-! ## Writing and reading back -/

/-- **The frequency survives.** Of every frequency whose words fit, with a nonzero tick, less than a
unit of the frequency word is lost. Of a frequency that was read from the clock nothing is. A tick
of zero is excepted, as `clockadj_get_freq` takes it for a clock without ticks. -/
theorem frequencyWords {statics : ClockStatics} (hhz : 0 < statics.realtimeHz)
    (hnominal : 0 < statics.realtimeNominalTick) :
    (∀ f : ℚ, WordsFit statics f → (setFreqWords statics f).tick ≠ 0 →
      ∀ tx, Keeps tx (setFreqWords statics f) →
        ∃ f', clockadjGetFreq statics CLOCK_REALTIME (some tx) = some (fin f') ∧
          |f' - f| < 1 / 65.536) ∧
    (∀ start : Timex, start.tick ≠ 0 →
      ∃ f, clockadjGetFreq statics CLOCK_REALTIME (some start) = some (fin f) ∧
        (WordsFit statics f → (setFreqWords statics f).tick ≠ 0 →
          ∀ tx, Keeps tx (setFreqWords statics f) →
            clockadjGetFreq statics CLOCK_REALTIME (some tx) = some (fin f))) := by
  refine ⟨?_, ?_⟩
  · intro f hfit htick tx hkeeps
    exact ⟨_, readBack_eq hhz hnominal hfit htick hkeeps, abs_readBack_sub_lt f⟩
  · intro start hstart
    refine ⟨_, clockadjGetFreq_fin hnominal hstart, ?_⟩
    intro hfit htick tx hkeeps
    rw [readBack_eq hhz hnominal hfit htick hkeeps, remainder_read, integral_intCast]
    congr 2
    simp only [tickPpb]
    push_cast
    ring

/-- A system clock with 100 ticks a second. -/
def statics100 : ClockStatics := { realtimeHz := 100, realtimeNominalTick := 10000 }

/-- At the start the tick is fast and the frequency word negative. What is read is written back as
the nominal tick and a positive word. -/
theorem frequencyWords_start :
    ∃ f, clockadjGetFreq statics100 CLOCK_REALTIME (some { tick := 10001, freq := -5368709 }) =
        some (fin f) ∧
      (setFreqWords statics100 f).tick = 10000 ∧ (setFreqWords statics100 f).freq = 1184891 ∧
      clockadjGetFreq statics100 CLOCK_REALTIME (some { tick := 10000, freq := 1184891 }) =
        some (fin f) := by
  have hhz : 0 < statics100.realtimeHz := by decide
  have hnominal : 0 < statics100.realtimeNominalTick := by decide
  obtain ⟨f, hread, hexact⟩ := (frequencyWords hhz hnominal).2
    { tick := 10001, freq := -5368709 } (by decide)
  have hf : f = -5368709 / 65.536 + 100000 :=
    fin.inj (Option.some.inj (hread.symm.trans (by decide +kernel)))
  have htick : (setFreqWords statics100 f).tick = 10000 := by
    rw [hf]
    decide +kernel
  have hfreq : (setFreqWords statics100 f).freq = 1184891 := by
    rw [hf]
    decide +kernel
  have hfit : WordsFit statics100 f := by
    refine wordsFit_of_le hhz (by decide) (by decide) ?_
    rw [hf]
    norm_num
  refine ⟨f, hread, htick, hfreq, hexact hfit ?_ _ ⟨htick.symm, hfreq.symm⟩⟩
  rw [htick]
  decide

/-- Of 10 ^ 30 ppb neither word fits `long`. -/
theorem not_frequencyWords_huge :
    ∃ f : ℚ, (setFreqWords statics100 f).tick ≠ 0 ∧ ∃ tx, Keeps tx (setFreqWords statics100 f) ∧
      ∃ f', clockadjGetFreq statics100 CLOCK_REALTIME (some tx) = some (fin f') ∧
        1 / 65.536 < |f' - f| := by
  have htick : (setFreqWords statics100 (10 ^ 30)).tick ≠ 0 := by decide +kernel
  exact ⟨10 ^ 30, htick, _, ⟨rfl, rfl⟩, _, clockadjGetFreq_fin (by decide) htick, by decide +kernel⟩

end ExternalServo
