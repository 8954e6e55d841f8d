import ExternalServo.JumpDiscipline
import Mathlib.Data.List.Chain
import Mathlib.Data.Rat.Cast.Order

/-!
# How long the PI servo is unlocked

The phases of `JumpDiscipline` say what the servo can report. With the time that an acquisition
takes they say exactly what it does report: it locks on the first later sample for which the time
since the first one, with its margin, is long enough, and stays locked until an offset is beyond
the step threshold. As long as the samples keep coming it is therefore never unlocked for long,
whatever the offsets are.

* `LocksExactly` — when a sample is locked, by the history of the servo;
* `servoCall_locks` — the servo locks exactly then;
* `acquires_in_time` — what this says of runs.
-/

namespace ExternalServo

open CArith Runs

/-! ## When a sample is locked -/

/-- The seconds an acquisition takes, with its margin. -/
def waitSeconds (ki : ℚ) : ℚ := min (0.016 / ki) 1000

/-- The seconds between two local times, with the margin. -/
def waited (local0 localTs : UInt64) : ℚ :=
  (localTs.toNat - local0.toNat) / 1000000000 * (1 + FREQ_EST_MARGIN)

/-- The sample is locked in the phase: never while the servo is idle, once the acquisition took long
enough, and while it tracks unless the offset is beyond the step threshold. This speaks of the phase
that can be told from outside, not of the fields of the servo. -/
def Phase.Locks (ki : ℚ) (base : ServoBase XRat) (offset : Int64) (localTs : UInt64) :
    Phase → Prop
  | .idle => False
  | .acquiring local0 => local0 < localTs ∧ waitSeconds ki ≤ waited local0 localTs
  | .tracking => losesLock base offset = false

/-- The sample is locked exactly if it is in the phase of the history. -/
def LocksExactly (ki : ℚ) (base : ServoBase XRat) (past : List Seen) : Seen → Prop
  | .sampled offset localTs _ reported =>
    reported ≠ .unlocked ↔ (phaseAfter past).Locks ki base offset localTs
  | .reset | .set => True

section Sample

variable {base : ServoBase XRat} {s : PiServo XRat} {ki : ℚ} {offset : Int64} {localTs : UInt64}

/-- The servo waits exactly if the time is too short. -/
theorem lt_freqEstInterval_iff (hki : s.ki = .fin ki) (hpos : 0 < ki)
    (hlocal : s.local0 < localTs) :
    CDouble.lt (localDiff (second s offset localTs)) (freqEstInterval s) = true ↔
      waited s.local0 localTs < waitSeconds ki := by
  have hle : s.local0.toNat ≤ localTs.toNat := (UInt64.lt_iff_toNat_lt.mp hlocal).le
  have hdiff : localDiff (second s offset localTs) = .fin (waited s.local0 localTs) := by
    have hsub : (((localTs - s.local0).toNat : Int) : ℚ) = localTs.toNat - s.local0.toNat := by
      rw [UInt64.toNat_sub_of_le _ _ hle, Int.cast_natCast, Nat.cast_sub hle]
    have hbillion : (1000000000 : ℚ) ≠ 0 := by norm_num
    simp only [localDiff, second, XRat.ofInt_eq, XRat.lit_eq, hsub, XRat.fin_div _ hbillion,
      XRat.fin_mul, XRat.fin_add, waited, mul_add, mul_one]
  have hwait : freqEstInterval s = .fin (waitSeconds ki) := by
    simp only [freqEstInterval, hki, XRat.lit_eq, XRat.fin_div _ hpos.ne', XRat.lt_fin,
      decide_eq_true_eq, waitSeconds]
    split
    · next hlong => rw [min_eq_right hlong.le]
    · next hshort => rw [min_eq_left (not_lt.mp hshort)]
  rw [hdiff, hwait, XRat.lt_fin, decide_eq_true_eq]

/-- **A sample** is locked exactly if it is in the phase of the servo. The time to wait is
a quotient by the integral constant in the source, which is positive here, so that in exact
arithmetic it is that of `waitSeconds`. -/
theorem piSample_locks (hki : s.ki = .fin ki) (hpos : 0 < ki) (weight : XRat) :
    (piSample base s offset localTs weight).2.1 ≠ .unlocked ↔
      (phaseOf s).Locks ki base offset localTs := by
  have hstep := piSample_step base s offset localTs weight
  generalize piSample base s offset localTs weight = result at hstep ⊢
  cases hstep with
  | first hcount =>
    simp only [phaseOf, hcount, Phase.Locks]
    exact iff_of_false (not_not.mpr rfl) id
  | restarted hcount hlocal =>
    simp only [phaseOf, hcount, Phase.Locks]
    refine iff_of_false (not_not.mpr rfl) ?_
    rintro ⟨hlater, -⟩
    exact UInt64.not_le.mpr hlater hlocal
  | waited hcount hlocal hwait =>
    simp only [phaseOf, hcount, Phase.Locks]
    refine iff_of_false (not_not.mpr rfl) ?_
    rintro ⟨-, hlong⟩
    exact absurd ((lt_freqEstInterval_iff hki hpos hlocal).mp hwait) (not_lt.mpr hlong)
  | acquired hcount hlocal hwait drift hdrift =>
    simp only [phaseOf, hcount, Phase.Locks]
    refine iff_of_true ?_ ⟨hlocal, ?_⟩
    · rw [acquiredState]
      split <;> exact ne_of_beq_false rfl
    · rw [← not_lt, ← lt_freqEstInterval_iff hki hpos hlocal, hwait]
      exact Bool.false_ne_true
  | lost hcount hlost =>
    simp only [phaseOf, hcount, Phase.Locks, hlost]
    exact iff_of_false (not_not.mpr rfl) Bool.noConfusion
  | followed hcount hkept ppb drift =>
    simp only [phaseOf, hcount, Phase.Locks]
    exact iff_of_true (ne_of_beq_false rfl) hkept

/-- A sample keeps the gain. -/
theorem piSample_ki (base : ServoBase XRat) (s : PiServo XRat) (offset : Int64)
    (localTs : UInt64) (weight : XRat) :
    (piSample base s offset localTs weight).2.2.ki = s.ki := by
  have hstep := piSample_step base s offset localTs weight
  generalize piSample base s offset localTs weight = result at hstep ⊢
  cases hstep <;> rfl

end Sample

/-! ## The servo -/

/-- A call that leaves the gain of the servo as it is: a sample or a reset. -/
def SampleOrReset : Call XRat → Prop
  | .sample _ _ _ | .reset => True
  | .syncInterval _ | .leap _ => False

/-- The servo is in the phase of its history, with a gain and a step threshold. This is the
invariant of a run of samples and resets, neither of which changes the settings. -/
def InTimedPhase (ki : ℚ) (base : ServoBase XRat) (servo : Servo XRat (Inner XRat))
    (past : List Seen) : Prop :=
  servo.base.stepThreshold = base.stepThreshold ∧
    ∃ s : PiServo XRat, servo.inner = .pi s ∧ s.ki = .fin ki ∧ phaseOf s = phaseAfter past

/-- **One call**: a sample is locked exactly if it is in the phase of the history. -/
theorem servoCall_locks {ki : ℚ} (hpos : 0 < ki) {base : ServoBase XRat}
    (pow : XRat → XRat → XRat) {servo : Servo XRat (Inner XRat)} {past : List Seen}
    {call : Call XRat} (h : InTimedPhase ki base servo past) (hcall : SampleOrReset call) :
    LocksExactly ki base past (servoCall (servoOps pow) servo call).2 ∧
      InTimedPhase ki base (servoCall (servoOps pow) servo call).1
        (past ++ [(servoCall (servoOps pow) servo call).2]) := by
  obtain ⟨base', inner⟩ := servo
  obtain ⟨hthreshold, s, rfl, hki, hphase⟩ := h
  have hinphase : InPhase ⟨base', .pi s⟩ past := ⟨s, rfl, hphase⟩
  obtain ⟨-, s', hs', hphase'⟩ := servoCall_phase pow hinphase call
  cases call with
  | syncInterval | leap => exact hcall.elim
  | reset =>
    obtain rfl := Inner.pi.inj hs'
    exact ⟨trivial, hthreshold, _, rfl, hki, hphase'⟩
  | sample offset localTs weight =>
    rw [servoCall_pi pow base' s offset localTs weight] at hs' hphase' ⊢
    obtain rfl := Inner.pi.inj hs'
    refine ⟨?_, ?_, _, rfl, (piSample_ki base' s offset localTs weight).trans hki, hphase'⟩
    · have hlocks : (piSample base' s offset localTs weight).2.1 ≠ .unlocked ↔
          (phaseOf s).Locks ki base' offset localTs := piSample_locks hki hpos weight
      have hlost : losesLock base' offset = losesLock base offset := by
        rw [losesLock, losesLock, show base'.stepThreshold = base.stepThreshold from hthreshold]
      have hsame : (phaseOf s).Locks ki base' offset localTs ↔
          (phaseAfter past).Locks ki base offset localTs := by
        rw [hphase]
        cases phaseAfter past with
        | idle | acquiring => exact Iff.rfl
        | tracking => rw [Phase.Locks, Phase.Locks, hlost]
      rw [LocksExactly, ← hsame, ← hlocks]
      exact not_congr reportedState_eq_unlocked
    · obtain ⟨n, update, hbase⟩ := baseAfter_frame base' offset
        (piSample base' s offset localTs weight).2.1
      rw [hbase]
      exact hthreshold

/-- Samples and resets are no settings. -/
theorem not_mem_history {calls : List (Call XRat)} (hcalls : ∀ call ∈ calls, SampleOrReset call)
    (pow : XRat → XRat → XRat) (servo : Servo XRat (Inner XRat)) :
    .set ∉ history (servoCall (servoOps pow)) servo calls := by
  induction calls generalizing servo with
  | nil => exact List.not_mem_nil
  | cons call calls ih =>
    obtain ⟨hcall, hcalls⟩ := List.forall_mem_cons.mp hcalls
    rw [history, List.mem_cons, not_or]
    refine ⟨?_, ih hcalls _⟩
    cases call with
    | syncInterval | leap => exact hcall.elim
    | reset =>
      intro h
      cases h
    | sample offset localTs weight =>
      intro h
      cases h

/-! ## Unlocked results in a row -/

/-- The sample after an unlocked one is at least `τ` nanoseconds later. After a step of the clock
the time can go back. -/
def Later (τ : ℕ) : Seen → Seen → Prop
  | .sampled _ last _ .unlocked, .sampled _ localTs _ _ => last.toNat + τ ≤ localTs.toNat
  | _, _ => True

/-- An acquisition began with an unlocked sample, and goes on with later ones. -/
theorem last_of_acquiring {past : List Seen} (hset : .set ∉ past)
    (hallows : Each (fun past => (phaseAfter past).Allows) past) {local0 : UInt64}
    (hphase : phaseAfter past = .acquiring local0) :
    ∃ offset last own, past.getLast? = some (.sampled offset last own .unlocked) ∧
      local0.toNat ≤ last.toNat := by
  induction past using List.reverseRecOn with
  | nil => cases hphase
  | append_singleton past e _ =>
    obtain ⟨-, he⟩ := each_concat.mp hallows
    rw [phaseAfter_concat] at hphase
    rw [List.getLast?_concat]
    cases e with
    | reset => cases hphase
    | set => exact absurd (List.mem_append_right _ (List.mem_singleton_self _)) hset
    | sampled offset localTs own reported =>
      cases hbefore : phaseAfter past with
      | idle =>
        rw [hbefore] at hphase he
        obtain rfl := Phase.acquiring.inj hphase
        obtain rfl : reported = .unlocked := he
        exact ⟨offset, localTs, own, rfl, le_refl _⟩
      | tracking =>
        rw [hbefore] at hphase
        cases reported <;> cases hphase
      | acquiring start =>
        rw [hbefore] at hphase
        cases reported with
        | jump | locked | lockedStable => cases hphase
        | unlocked =>
          rw [Phase.after] at hphase
          split at hphase
          · cases hphase
          · next hlater =>
            obtain rfl := Phase.acquiring.inj hphase
            have hlt := UInt64.lt_iff_toNat_lt.mp (UInt64.not_le.mp hlater)
            exact ⟨offset, localTs, own, rfl, hlt.le⟩

/-- What `n` unlocked results in a row leave of an acquisition that takes `N` samples: after the
loss of the lock and the first sample of the acquisition, `age` more were waited for. The age is
below `N`, since the sample of age `N` is locked, so `n` is at most `N + 1`. -/
def Overdue (N τ : ℕ) (past : List Seen) (n : ℕ) : Phase → Prop
  | .tracking => n = 0
  | .idle => n ≤ 1
  | .acquiring local0 => ∃ age offset last own,
      past.getLast? = some (.sampled offset last own .unlocked) ∧
      local0.toNat + age * τ ≤ last.toNat ∧ n ≤ age + 2 ∧ age < N

section Run

variable {ki : ℚ} {base : ServoBase XRat} {N τ : ℕ} {past : List Seen}

/-- **One more unlocked result.** The phase decides which one it is: the loss of the lock, the first
of an acquisition, or one more that is waited for, which is then later than the first by its age
times the least distance. -/
theorem Overdue.succ (hτ : 0 < τ)
    (hwait : waitSeconds ki ≤ N * τ / 1000000000 * (1 + FREQ_EST_MARGIN)) {n : ℕ}
    (h : Overdue N τ past n (phaseAfter past)) (hN : 0 < N) {offset : Int64} {localTs : UInt64}
    {own : ServoState}
    (hlocks : LocksExactly ki base past (.sampled offset localTs own .unlocked))
    (hspaced : ∀ e ∈ past.getLast?, Later τ e (.sampled offset localTs own .unlocked)) :
    Overdue N τ (past ++ [.sampled offset localTs own .unlocked]) (n + 1)
      (phaseAfter (past ++ [.sampled offset localTs own .unlocked])) := by
  rw [phaseAfter_concat]
  rw [LocksExactly] at hlocks
  cases hphase : phaseAfter past with
  | tracking =>
    rw [hphase] at h
    obtain rfl : n = 0 := h
    exact Nat.le_refl 1
  | idle =>
    rw [hphase] at h
    have hn : n ≤ 1 := h
    exact ⟨0, offset, localTs, own, List.getLast?_concat, by omega, by omega, hN⟩
  | acquiring local0 =>
    rw [hphase] at h hlocks
    obtain ⟨age, offset', last, own', hlast, hage, hn, -⟩ := h
    have hlater : last.toNat + τ ≤ localTs.toNat := hspaced _ hlast
    have hlong : local0.toNat + (age + 1) * τ ≤ localTs.toNat := by
      rw [Nat.succ_mul]
      omega
    have hlocal : local0 < localTs := by
      rw [UInt64.lt_iff_toNat_lt]
      omega
    rw [Phase.after, if_neg (UInt64.not_le.mpr hlocal)]
    refine ⟨age + 1, offset, localTs, own, List.getLast?_concat, hlong, by omega, ?_⟩
    -- the acquisition would be over
    by_contra hover
    have hlocked : (Phase.acquiring local0).Locks ki base offset localTs := by
      refine ⟨hlocal, hwait.trans ?_⟩
      have hcast : (N * τ : ℚ) ≤ localTs.toNat - local0.toNat := by
        have hsteps : N * τ ≤ (age + 1) * τ := Nat.mul_le_mul_right τ (not_lt.mp hover)
        have hnat : local0.toNat + N * τ ≤ localTs.toNat := by omega
        have hrat : (local0.toNat + N * τ : ℚ) ≤ localTs.toNat := by exact_mod_cast hnat
        linarith
      rw [waited]
      have hmargin : (0 : ℚ) ≤ 1 + FREQ_EST_MARGIN := by
        rw [FREQ_EST_MARGIN]
        norm_num
      gcongr
    exact hlocks.mpr hlocked rfl

/-- **Results in a row**, by induction from the last one: each unlocked result moves the count on,
and a locked one cannot stand among them. -/
theorem overdue_run (hτ : 0 < τ)
    (hwait : waitSeconds ki ≤ N * τ / 1000000000 * (1 + FREQ_EST_MARGIN)) (hN : 0 < N)
    {mid : List Seen} (hset : .set ∉ past)
    (hallows : Each (fun past => (phaseAfter past).Allows) past)
    (hlocks : Each (LocksExactly ki base) (past ++ mid))
    (hspaced : (past ++ mid).IsChain (Later τ)) (hmid : ∀ e ∈ mid, e.unlocked = true) :
    Overdue N τ (past ++ mid) mid.length (phaseAfter (past ++ mid)) := by
  induction mid using List.reverseRecOn with
  | nil =>
    rw [List.append_nil]
    cases hphase : phaseAfter past with
    | tracking => rfl
    | idle => exact Nat.zero_le 1
    | acquiring local0 =>
      obtain ⟨offset, last, own, hlast, hle⟩ := last_of_acquiring hset hallows hphase
      exact ⟨0, offset, last, own, hlast, by omega, Nat.zero_le _, hN⟩
  | append_singleton mid e ih =>
    rw [← List.append_assoc] at hlocks hspaced ⊢
    obtain ⟨hlocks, hlocksLast⟩ := each_concat.mp hlocks
    obtain ⟨hspaced, -, hspacedLast⟩ := List.isChain_append.mp hspaced
    have hbefore := ih hlocks hspaced fun e he => hmid e (List.mem_append_left _ he)
    have he := hmid e (List.mem_append_right _ (List.mem_singleton_self e))
    rw [List.length_append, List.length_singleton]
    cases e with
    | reset | set => cases he
    | sampled offset localTs own reported =>
      obtain rfl : reported = .unlocked := Option.some.inj (of_decide_eq_true he)
      exact hbefore.succ hτ hwait hN hlocksLast fun e he => hspacedLast e he _ rfl

end Run

/-- **The servo is never unlocked for long.** In exact arithmetic, in every run of samples and
resets of a PI servo with a positive integral constant that starts without an acquisition, a sample
is locked exactly if it ends an acquisition that took long enough, or keeps the lock; and if after
each unlocked sample the next one is at least `τ` nanoseconds later, and an acquisition takes at
most `N` times as long, at most `N + 1` results in a row are unlocked. -/
theorem acquires_in_time {base : ServoBase XRat} {s : PiServo XRat} {ki : ℚ}
    (hki : s.ki = .fin ki) (hpos : 0 < ki) (hcount : s.count = 0) (pow : XRat → XRat → XRat)
    {calls : List (Call XRat)} (hcalls : ∀ call ∈ calls, SampleOrReset call) :
    Each (LocksExactly ki base) (history (servoCall (servoOps pow)) ⟨base, .pi s⟩ calls) ∧
    ∀ N τ : ℕ, waitSeconds ki ≤ N * τ / 1000000000 * (1 + FREQ_EST_MARGIN) →
      (history (servoCall (servoOps pow)) ⟨base, .pi s⟩ calls).IsChain (Later τ) →
      ∀ past mid future,
        history (servoCall (servoOps pow)) ⟨base, .pi s⟩ calls = past ++ mid ++ future →
        (∀ e ∈ mid, e.unlocked = true) → mid.length ≤ N + 1 := by
  have hidle : phaseOf s = phaseAfter [] := by
    simp only [phaseOf, hcount]
    rfl
  have hlocks : Each (LocksExactly ki base)
      (history (servoCall (servoOps pow)) ⟨base, .pi s⟩ calls) := by
    have hstart : InTimedPhase ki base ⟨base, .pi s⟩ [] := ⟨rfl, s, rfl, hki, hidle⟩
    exact each_history (fun _ _ _ => servoCall_locks hpos pow) hstart hcalls
  have hallows : Each (fun past => (phaseAfter past).Allows)
      (history (servoCall (servoOps pow)) ⟨base, .pi s⟩ calls) := by
    have hstart : InPhase (⟨base, .pi s⟩ : Servo XRat (Inner XRat)) [] := ⟨s, rfl, hidle⟩
    have hstep : ∀ (servo : Servo XRat (Inner XRat)) past (call : Call XRat),
        InPhase servo past → SampleOrReset call →
        (phaseAfter past).Allows (servoCall (servoOps pow) servo call).2 ∧
          InPhase (servoCall (servoOps pow) servo call).1
            (past ++ [(servoCall (servoOps pow) servo call).2]) :=
      fun _ _ call h _ => servoCall_phase pow h call
    exact each_history hstep hstart hcalls
  refine ⟨hlocks, ?_⟩
  intro N τ hwait hspaced past mid future heq hmid
  have hset := not_mem_history hcalls pow ⟨base, .pi s⟩
  have hwaitPos : 0 < waitSeconds ki := by
    rw [waitSeconds]
    exact lt_min (div_pos (by norm_num) hpos) (by norm_num)
  have hNτ : 0 < N ∧ 0 < τ := by
    by_contra hzero
    rw [not_and_or, Nat.not_lt, Nat.not_lt, Nat.le_zero, Nat.le_zero] at hzero
    rcases hzero with rfl | rfl <;> simp at hwait <;> linarith
  rw [heq] at hlocks hallows hspaced hset
  have hover := overdue_run hNτ.2 hwait hNτ.1
    (fun hin => hset (List.mem_append_left _ (List.mem_append_left _ hin)))
    hallows.of_append.of_append hlocks.of_append hspaced.left_of_append hmid
  cases hphase : phaseAfter (past ++ mid) with
  | tracking =>
    rw [hphase] at hover
    have hlength : mid.length = 0 := hover
    omega
  | idle =>
    rw [hphase] at hover
    have hlength : mid.length ≤ 1 := hover
    omega
  | acquiring local0 =>
    rw [hphase] at hover
    obtain ⟨age, -, -, -, -, -, hlength, hage⟩ := hover
    omega

/-- A PI servo with a step threshold of a microsecond. -/
def thresholdServo : Servo XRat (Inner XRat) :=
  { base :=
      { maxFrequency := .fin 500, stepThreshold := .fin 1000, firstStepThreshold := .fin 0,
        firstUpdate := true, offsetThreshold := 0, numOffsetValues := 0, currOffsetValues := 0 }
    inner := .pi { piServoCreate ServoConfig.zero with kp := .fin (7 / 10), ki := .fin (3 / 10) } }

/-- The third sample loses the lock. -/
def slippingCalls : List (Call XRat) :=
  [.sample 50 1000000000 (.fin 1), .sample 60 2000000000 (.fin 1),
    .sample 5000 3000000000 (.fin 1), .sample 60 4000000000 (.fin 1),
    .sample 60 5000000000 (.fin 1)]

/-- What is seen of the calls. -/
def slippingSeen : List Seen :=
  [.sampled 50 1000000000 .unlocked .unlocked, .sampled 60 2000000000 .locked .locked,
    .sampled 5000 3000000000 .unlocked .unlocked, .sampled 60 4000000000 .unlocked .unlocked,
    .sampled 60 5000000000 .locked .locked]

/-- Five samples, one a second, of which the third loses the lock: each of the two acquisitions is
over with the second of its samples, so that no three results in a row are unlocked, whichever
stretch of the run is looked at. -/
theorem acquires_in_time_lost :
    history (servoCall (servoOps powOne)) thresholdServo slippingCalls = slippingSeen ∧
      ∀ past mid future, slippingSeen = past ++ mid ++ future →
        (∀ e ∈ mid, e.unlocked = true) → mid.length ≤ 2 := by
  have hseen :
      history (servoCall (servoOps powOne)) thresholdServo slippingCalls = slippingSeen := by
    decide +kernel
  have hspaced : (history (servoCall (servoOps powOne)) thresholdServo slippingCalls).IsChain
      (Later 1000000000) := by
    rw [hseen]
    simp [slippingSeen, Later]
  have hcalls : ∀ call ∈ slippingCalls, SampleOrReset call := by
    simp [slippingCalls, SampleOrReset]
  refine ⟨hseen, ?_⟩
  rw [← hseen]
  refine (acquires_in_time rfl (by norm_num) rfl powOne hcalls).2 1 1000000000 ?_ hspaced
  rw [waitSeconds, FREQ_EST_MARGIN]
  norm_num

end ExternalServo
