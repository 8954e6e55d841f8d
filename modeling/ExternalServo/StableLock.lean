import ExternalServo.ServoCalls
import Mathlib.Data.List.DropRight

/-!
# When a lock is stable

`check_offset_threshold` counts down: the counter is loaded when the servo loses its lock or steps
the clock, and a lock with a small offset decrements it until it is zero. Over a run this is a
condition on the history: a lock is reported as stable exactly when there were enough small locks
since the last result that was unlocked or a jump.

* `counter_step` — the counter is what is missing of the small locks;
* `staysStable_of_exact` — a stable lock lasts until the next unlock or jump;
* `stableLock_exact` — the runs.
-/

namespace ExternalServo

open CArith Runs

/-! ## The history -/

/-- The result ends a lock: the servo is unlocked, or the clock is stepped. -/
def Seen.unlocks (seen : Seen) : Bool :=
  decide (seen.result = some .unlocked ∨ seen.result = some .jump)

/-- A lock with an offset below the threshold. -/
def Seen.smallLock (threshold : Int64) : Seen → Bool
  | .sampled offset _ _ reported =>
    decide ((reported = .locked ∨ reported = .lockedStable) ∧
      |offset.toInt| < threshold.toInt)
  | .reset | .set => false

/-- The number of small locks since the last result that ended a lock. It is read off the history,
where the servo keeps a counter that runs down. -/
def smallLocks (threshold : Int64) (seen : List Seen) : Nat :=
  (seen.rtakeWhile fun e => !e.unlocks).countP (Seen.smallLock threshold)

theorem smallLocks_nil (threshold : Int64) : smallLocks threshold [] = 0 := rfl

/-- One more observation. -/
theorem smallLocks_concat (threshold : Int64) (seen : List Seen) (e : Seen) :
    smallLocks threshold (seen ++ [e]) =
      if e.unlocks then 0
      else smallLocks threshold seen + if e.smallLock threshold then 1 else 0 := by
  rw [smallLocks, List.rtakeWhile_concat]
  by_cases he : e.unlocks = true
  · simp [he]
  · simp [he, smallLocks, List.countP_append, List.countP_singleton]

/-- Without an end of the lock the number does not decrease. -/
theorem smallLocks_mono (threshold : Int64) (seen more : List Seen)
    (hmore : ∀ e ∈ more, e.unlocks = false) :
    smallLocks threshold seen ≤ smallLocks threshold (seen ++ more) := by
  induction more using List.reverseRecOn with
  | nil => rw [List.append_nil]
  | append_singleton more e ih =>
    have hle := ih fun e he => hmore e (List.mem_append_left _ he)
    have he : e.unlocks = false := hmore e (by simp)
    rw [← List.append_assoc, smallLocks_concat, he]
    simp only [Bool.false_eq_true, if_false]
    omega

/-- A sample is reported as a stable lock exactly if the servo's own function reports a lock, there
is a threshold, and the small locks since the last end of a lock, this one included, are enough. Any
other state of the function is reported as it is. -/
def StableExactly (threshold : Int64) (enough : Int) (past : List Seen) : Seen → Prop
  | .sampled offset localTs own reported =>
    (own ≠ .locked → reported = own) ∧
      (own = .locked → reported = .locked ∨ reported = .lockedStable) ∧
      (reported = .lockedStable ↔ own = .locked ∧ threshold ≠ 0 ∧
        enough ≤ smallLocks threshold (past ++ [.sampled offset localTs own reported]))
  | .reset | .set => True

/-- After a stable lock every result is a stable lock until one ends it. -/
def StaysStable (seen : List Seen) : Prop :=
  ∀ past e mid e' future, seen = past ++ e :: (mid ++ e' :: future) →
    e.result = some .lockedStable → (∀ m ∈ mid, m.unlocks = false) → e'.unlocks = false →
    ∀ state ∈ e'.result, state = .lockedStable

/-- A lock that is stable stays so: the small locks since the last end of a lock do not become
fewer, so the next lock has enough of them as well. -/
theorem staysStable_of_exact {threshold : Int64} {enough : Int} {seen : List Seen}
    (h : Each (StableExactly threshold enough) seen) : StaysStable seen := by
  rintro past e mid e' future heq hstable hmid he' state hstate
  have hfirst := h past e (mid ++ e' :: future) heq
  have hlast := h (past ++ e :: mid) e' future (by rw [heq]; simp)
  cases e with
  | reset | set => cases hstable
  | sampled offset localTs own reported =>
    obtain rfl : reported = .lockedStable := Option.some.inj hstable
    obtain ⟨-, hthreshold, henough⟩ := hfirst.2.2.mp rfl
    cases e' with
    | reset | set => cases hstate
    | sampled offset' localTs' own' reported' =>
      obtain rfl : reported' = state := Option.some.inj hstate
      obtain ⟨hother, hlocked, hiff⟩ := hlast
      cases own' with
      | unlocked | jump =>
        -- these results end a lock
        rw [hother nofun] at he'
        simp [Seen.unlocks, Seen.result] at he'
      | lockedStable => exact hother nofun
      | locked =>
        have hmono := smallLocks_mono threshold
          (past ++ [.sampled offset localTs own .lockedStable])
          (mid ++ [.sampled offset' localTs' .locked reported']) (by
            rintro m hm
            rcases List.mem_append.mp hm with hm | hm
            · exact hmid m hm
            · rw [List.mem_singleton.mp hm]
              exact he')
        simp only [List.append_assoc, List.cons_append, List.nil_append] at hmono hiff
        exact hiff.mpr ⟨trivial, hthreshold, by omega⟩

/-! ## The counter -/

variable {D σ : Type} [CDouble D]

/-- **The invariant**: the counter is what is missing of the small locks. It is set back at the end
of a lock, stops at zero, and a lock with a larger offset leaves it as it is. -/
structure Missing (threshold : Int64) (enough : Nat) (base : ServoBase D) (seen : List Seen) :
    Prop where
  threshold_eq : base.offsetThreshold = threshold
  enough_eq : base.numOffsetValues = enough
  counter : threshold ≠ 0 →
    base.currOffsetValues = (enough - smallLocks threshold seen : Nat)

section Counter

variable {threshold : Int64} {enough : Nat} {base : ServoBase D} {past : List Seen}
  {offset : Int64}

omit [CDouble D] in
/-- A magnitude below the threshold, as the program compares it. -/
theorem llabs_lt_iff (h : offset ≠ Int64.minValue) :
    llabs offset < threshold ↔ |offset.toInt| < threshold.toInt := by
  rw [Int64.lt_iff_toInt_lt, toInt_llabs h]

omit [CDouble D] in
/-- The check at a lock: the counter after it, and whether it is zero. -/
theorem checkOffsetThreshold_missing (h : Missing threshold enough base past)
    (hthreshold : threshold ≠ 0) (hoffset : offset ≠ Int64.minValue) {n : Nat}
    (hn : n = smallLocks threshold past +
      if |offset.toInt| < threshold.toInt then 1 else 0) :
    (checkOffsetThreshold base offset).2.currOffsetValues = (enough - n : Nat) ∧
      ((checkOffsetThreshold base offset).1 = true ↔ (enough : Int) ≤ n) := by
  have hcounter := h.counter hthreshold
  simp only [checkOffsetThreshold, h.threshold_eq, if_pos hthreshold, llabs_lt_iff hoffset]
  by_cases hsmall : |offset.toInt| < threshold.toInt
  · rw [if_pos hsmall] at hn
    by_cases hzero : base.currOffsetValues = 0
    · -- the counter has expired, and stays
      simp only [hsmall, hzero, ne_eq, not_true_eq_false, and_false, if_false, decide_true]
      refine ⟨by omega, iff_of_true trivial ?_⟩
      omega
    · simp only [hsmall, hzero, ne_eq, not_false_eq_true, and_true, if_true, decide_eq_true_eq]
      omega
  · rw [if_neg hsmall] at hn
    simp only [hsmall, false_and, if_false, decide_eq_true_eq]
    omega

omit [CDouble D] in
/-- **A sample** is reported as the history says, and keeps the invariant. The cases are those of
the state that the servo's own function reports. -/
theorem counter_step (h : Missing threshold enough base past)
    (hoffset : offset ≠ Int64.minValue) (localTs : UInt64) {own : ServoState}
    (hown : own ≠ .lockedStable) :
    StableExactly threshold enough past
        (.sampled offset localTs own (reportedState base offset own)) ∧
      Missing threshold enough (baseAfter base offset own)
        (past ++ [.sampled offset localTs own (reportedState base offset own)]) := by
  cases own with
  | lockedStable => exact absurd rfl hown
  | unlocked =>
    refine ⟨⟨fun _ => rfl, ?_, by simp [reportedState]⟩, h.threshold_eq, h.enough_eq, ?_⟩
    · intro hlocked
      cases hlocked
    intro _
    rw [smallLocks_concat]
    exact h.enough_eq
  | jump =>
    refine ⟨⟨fun _ => rfl, ?_, by simp [reportedState]⟩, h.threshold_eq, h.enough_eq, ?_⟩
    · intro hlocked
      cases hlocked
    intro _
    rw [smallLocks_concat]
    exact h.enough_eq
  | locked =>
    have hsmall : ∀ reported, reported = .locked ∨ reported = .lockedStable →
        smallLocks threshold (past ++ [.sampled offset localTs .locked reported]) =
          smallLocks threshold past + if |offset.toInt| < threshold.toInt then 1 else 0 := by
      rintro reported hreported
      rw [smallLocks_concat]
      rcases hreported with rfl | rfl <;> simp [Seen.unlocks, Seen.result, Seen.smallLock]
    have hreported : reportedState base offset .locked = .locked ∨
        reportedState base offset .locked = .lockedStable := by
      rw [reportedState]
      split <;> simp
    obtain ⟨n, hframe⟩ := checkOffsetThreshold_frame base offset
    by_cases hthreshold : threshold = 0
    · -- without a threshold no lock is stable
      have hcheck := checkOffsetThreshold_zero (h.threshold_eq.trans hthreshold) offset
      refine ⟨⟨fun hne => absurd rfl hne, fun _ => hreported, ?_⟩, ?_, ?_, ?_⟩
      · simp [reportedState, hcheck, hthreshold]
      · rw [baseAfter, hframe]
        exact h.threshold_eq
      · rw [baseAfter, hframe]
        exact h.enough_eq
      · intro hne
        exact absurd hthreshold hne
    · obtain ⟨hcounter, hcheck⟩ :=
        checkOffsetThreshold_missing h hthreshold hoffset (hsmall _ hreported)
      refine ⟨⟨fun hne => absurd rfl hne, fun _ => hreported, ?_⟩, ?_, ?_, fun _ => hcounter⟩
      · rw [← hcheck, reportedState]
        simp [hthreshold]
      · rw [baseAfter, hframe]
        exact h.threshold_eq
      · rw [baseAfter, hframe]
        exact h.enough_eq

omit [CDouble D] in
/-- A call that is not a sample takes no part. -/
theorem Missing.concat (h : Missing threshold enough base past) {e : Seen}
    (he : e.result = none) : Missing threshold enough base (past ++ [e]) := by
  refine ⟨h.threshold_eq, h.enough_eq, ?_⟩
  intro hthreshold
  rw [h.counter hthreshold, smallLocks_concat]
  cases e with
  | sampled offset localTs own reported => cases he
  | reset | set => simp [Seen.unlocks, Seen.result, Seen.smallLock]

end Counter

/-! ## Runs -/

/-- **When a lock is stable.** In every run of a servo from its creation, whatever its own sample
function is, a sample is reported as a stable lock exactly when it is a lock, there is a threshold
and the locks with an offset below it since the last unlock or jump (or the creation), this one
included, are at least `servo_num_offset_values`; and a stable lock lasts until the next unlock or
jump. -/
theorem stableLock_exact {env : ServoEnv} {cfg : ServoConfig D} {created : Servo D (Inner D)}
    (hcreate : servoCreate env cfg = some created) (henough : 0 ≤ cfg.numOffsetValues)
    {ops : ServoOps D σ} (hown : ∀ base inner offset localTs weight,
      (ops.sample base inner offset localTs weight).2.1 ≠ .lockedStable)
    (inner : σ) {calls : List (Call D)} (hcalls : ∀ call ∈ calls, HasMagnitude call) :
    Each (StableExactly cfg.offsetThreshold cfg.numOffsetValues)
        (history (servoCall ops) ⟨created.base, inner⟩ calls) ∧
      StaysStable (history (servoCall ops) ⟨created.base, inner⟩ calls) := by
  obtain ⟨enough, hn⟩ := Int.eq_ofNat_of_zero_le henough
  have hinit : Missing cfg.offsetThreshold enough created.base [] := by
    rw [servoCreate_base hcreate]
    refine ⟨rfl, hn, ?_⟩
    intro _
    rw [smallLocks_nil]
    exact hn
  have hexact : Each (StableExactly cfg.offsetThreshold enough)
      (history (servoCall ops) ⟨created.base, inner⟩ calls) := by
    refine each_history (R := fun servo past => Missing cfg.offsetThreshold enough servo.base past)
      ?_ hinit hcalls
    rintro servo past call hmissing hcall
    cases call with
    | sample offset localTs weight =>
      rw [servoCall_sample ops servo offset localTs weight rfl]
      exact counter_step hmissing hcall localTs (hown _ _ _ _ _)
    | syncInterval interval => exact ⟨trivial, hmissing.concat rfl⟩
    | reset => exact ⟨trivial, hmissing.concat rfl⟩
    | leap leap =>
      refine ⟨trivial, ?_⟩
      have hbase : (servoCall ops servo (.leap leap)).1.base = servo.base :=
        servoCall_base ops servo nofun
      rw [hbase]
      exact hmissing.concat rfl
  rw [hn]
  exact ⟨hexact, staysStable_of_exact hexact⟩

/-- The settings of a PI servo whose locks are stable after two offsets below 100 ns. -/
def stableConfig : ServoConfig XRat :=
  { ServoConfig.zero with
    maxFrequency := .fin 500000, offsetThreshold := 100, numOffsetValues := 2,
    kpNormMax := .fin 0.7, kiNormMax := .fin 0.3 }

/-- Four samples, one a second: the third offset is too large, and does not count. -/
def stableCalls : List (Call XRat) :=
  [.syncInterval (.fin 1), .sample 0 1000000000 (.fin 1), .sample 0 2000000000 (.fin 1),
    .sample 200 3000000000 (.fin 1), .sample (-99) 4000000000 (.fin 1),
    .sample 300 5000000000 (.fin 1)]

/-- The servo acquires with the first two samples; the lock of the second counts, as its offset is
zero. That of the third does not, and the fourth is the second one below the threshold: it is
reported as stable, and so is the fifth, whatever its offset is. -/
theorem stableLock_exact_pi :
    ∃ servo ∈ servoCreate ⟨true, fun _ => none⟩ stableConfig,
      ((history (servoCall (servoOps powOne)) servo stableCalls).map Seen.result =
          [none, some .unlocked, some .locked, some .locked, some .lockedStable,
            some .lockedStable]) ∧
        Each (StableExactly 100 2) (history (servoCall (servoOps powOne)) servo stableCalls) ∧
        StaysStable (history (servoCall (servoOps powOne)) servo stableCalls) := by
  have h : ∃ servo, servoCreate ⟨true, fun _ => none⟩ stableConfig = some servo := ⟨_, rfl⟩
  obtain ⟨servo, hcreate⟩ := h
  refine ⟨servo, hcreate, ?_, ?_⟩
  · obtain rfl := Option.some.inj hcreate
    decide +kernel
  · exact stableLock_exact hcreate (by decide) (servoOps_state powOne) servo.inner
      (by decide +kernel)

end ExternalServo
