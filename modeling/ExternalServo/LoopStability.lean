import ExternalServo.Pi
import ExternalServo.Recurrence

/-!
# The stability of the PI loop

A clock with a constant rate error `f`, measured without noise once in an interval `T`, and
corrected by the PI servo: the loop is linear, and its deviation from the equilibrium is multiplied
by `loopMatrix` in each interval. It is asymptotically stable inside the triangle `Margins`.

`pi_servo_create` and `pi_sync_interval` limit the gains of the user separately, `kp` to `1 / T`
and `ki` to `2 / T`. Both limits together are a corner of the triangle: there the loop has an
orbit of period two.
-/

namespace ExternalServo

open CArith Filter Matrix Recurrence Topology

/-! ## The loop -/

/-- The offset of the clock and the drift of the servo, which are all that an interval carries on to
the next one. -/
structure LoopState where
  offset : ℝ
  drift : ℝ

/-- The frequency that the servo returns, with the weight 1. -/
noncomputable def loopPpb (kp ki : ℚ) (s : LoopState) : ℝ := kp * s.offset + s.drift + ki * s.offset

/-- An interval of the loop. -/
noncomputable def track (kp ki T : ℚ) (f : ℝ) (s : LoopState) : LoopState :=
  { offset := s.offset - T * (loopPpb kp ki s - f), drift := s.drift + ki * s.offset }

/-- The deviation from the equilibrium. -/
noncomputable def deviation (f : ℝ) (s : LoopState) : Fin 2 → ℝ := ![s.offset, s.drift - f]

/-- What an interval does to the deviation: the loop is linear, and the error of the clock only
moves its equilibrium. -/
noncomputable def loopMatrix (kp ki T : ℚ) : Matrix (Fin 2) (Fin 2) ℝ :=
  !![1 - T * (kp + ki), -T; ki, 1]

/-- The loop stays near its equilibrium and tends to it: both halves of the usual notion, for every
error `f` of the clock. -/
structure AsymptoticallyStable (kp ki T : ℚ) : Prop where
  stable : ∀ ε : ℝ, 0 < ε → ∃ δ : ℝ, 0 < δ ∧ ∀ f s, ‖deviation f s‖ < δ →
    ∀ n, ‖deviation f ((track kp ki T f)^[n] s)‖ < ε
  attracted : ∀ f s, Tendsto (fun n => deviation f ((track kp ki T f)^[n] s)) atTop (𝓝 0)

/-- The loop has no orbit of period two besides its equilibrium. This is what goes wrong at the caps
of both gains, where the matrix has the eigenvalue minus one. -/
def NoPeriodTwo (kp ki T : ℚ) : Prop :=
  ∀ f s, track kp ki T f (track kp ki T f s) = s → deviation f s = 0

/-- The gains for which the loop is stable. They say that the eigenvalues of the matrix of the loop
are inside the unit circle; the second follows from the others. -/
structure Margins (kp ki T : ℚ) : Prop where
  kp_pos : 0 < kp * T
  kp_lt : kp * T < 2
  ki_pos : 0 < ki * T
  joint : 2 * kp * T + ki * T < 4

section Loop

variable {kp ki T : ℚ}

theorem deviation_track (f : ℝ) (s : LoopState) :
    deviation f (track kp ki T f s) = loopMatrix kp ki T *ᵥ deviation f s := by
  ext i
  fin_cases i
  · simp [deviation, loopMatrix, track, loopPpb, mulVec, dotProduct]
    ring
  · simp [deviation, loopMatrix, track, mulVec, dotProduct]
    ring

theorem deviation_iterate (f : ℝ) (s : LoopState) (n : ℕ) :
    deviation f ((track kp ki T f)^[n] s) = loopMatrix kp ki T ^ n *ᵥ deviation f s := by
  induction n with
  | zero => simp
  | succ n ih => rw [Function.iterate_succ_apply', deviation_track, ih, mulVec_mulVec, pow_succ']

/-- Every vector is a deviation. -/
theorem exists_deviation (f : ℝ) (v : Fin 2 → ℝ) : ∃ s, deviation f s = v := by
  refine ⟨⟨v 0, v 1 + f⟩, ?_⟩
  ext i
  fin_cases i <;> simp [deviation]

theorem deviation_injective {f : ℝ} {s s' : LoopState} (h : deviation f s = deviation f s') :
    s = s' := by
  have hoffset := congrFun h 0
  have hdrift := congrFun h 1
  cases s
  cases s'
  simp only [deviation, cons_val_zero, cons_val_one] at hoffset hdrift
  rw [hoffset, sub_left_injective hdrift]

theorem trace_loopMatrix : (loopMatrix kp ki T).trace = 2 - T * (kp + ki) := by
  rw [trace_fin_two, loopMatrix]
  simp only [of_apply, cons_val', cons_val_zero, cons_val_one, cons_val_fin_one]
  ring

theorem det_loopMatrix : (loopMatrix kp ki T).det = 1 - T * kp := by
  rw [loopMatrix, det_fin_two_of]
  ring

/-- Inside the triangle the loop is contracting. -/
theorem Margins.contracting (h : Margins kp ki T) :
    Contracting (loopMatrix kp ki T).trace (loopMatrix kp ki T).det := by
  have hkp : (0 : ℝ) < kp * T := by exact_mod_cast h.kp_pos
  have hkp' : (kp * T : ℝ) < 2 := by exact_mod_cast h.kp_lt
  have hki : (0 : ℝ) < ki * T := by exact_mod_cast h.ki_pos
  have hjoint : (2 * kp * T + ki * T : ℝ) < 4 := by exact_mod_cast h.joint
  rw [trace_loopMatrix, det_loopMatrix]
  refine ⟨?_, ?_⟩
  · rw [abs_lt]
    constructor <;> linarith
  · rw [abs_lt]
    constructor <;> linarith

/-- **The margins are enough.** The powers of the matrix decay at a geometric rate, since its
eigenvalues are inside the unit circle. -/
theorem Margins.asymptoticallyStable (h : Margins kp ki T) : AsymptoticallyStable kp ki T := by
  have htends := tendsto_mulVec h.contracting
  obtain ⟨C, hC, hbound⟩ := exists_bound htends
  refine ⟨?_, ?_⟩
  · intro ε hε
    refine ⟨ε / C, div_pos hε hC, ?_⟩
    intro f s hs n
    rw [deviation_iterate]
    calc ‖loopMatrix kp ki T ^ n *ᵥ deviation f s‖
        ≤ C * ‖deviation f s‖ := hbound _ n
      _ < C * (ε / C) := by gcongr
      _ = ε := mul_div_cancel₀ ε hC.ne'
  · intro f s
    simp only [deviation_iterate]
    exact htends (deviation f s)

/-- An orbit of period two does not tend to the equilibrium. -/
theorem AsymptoticallyStable.noPeriodTwo (h : AsymptoticallyStable kp ki T) :
    NoPeriodTwo kp ki T := by
  intro f s hperiod
  have htends := h.attracted f s
  simp only [deviation_iterate] at htends
  refine eq_zero_of_periodic htends two_pos ?_
  rw [← deviation_iterate]
  exact congrArg (deviation f) hperiod

/-- On the far side of the triangle there is one. -/
theorem not_noPeriodTwo (h : 2 * kp * T + ki * T = 4) : ¬ NoPeriodTwo kp ki T := by
  intro hnone
  have hedge : (2 * kp * T + ki * T : ℝ) = 4 := by exact_mod_cast h
  have hboundary : 1 + (loopMatrix kp ki T).trace + (loopMatrix kp ki T).det = 0 := by
    rw [trace_loopMatrix, det_loopMatrix]
    linarith
  obtain ⟨v, hv, hflipped⟩ := exists_flipped hboundary
  obtain ⟨s, hs⟩ := exists_deviation 0 v
  have hperiod : track kp ki T 0 (track kp ki T 0 s) = s := by
    apply deviation_injective (f := 0)
    rw [deviation_track, deviation_track, hs, hflipped, mulVec_neg, hflipped, neg_neg]
  exact hv (hs ▸ hnone 0 s hperiod)

end Loop

/-! ## The servo -/

section Servo

variable {pow : XRat → XRat → XRat}

/-- **The servo follows the loop**: while it tracks, unsaturated and with the weight 1, it returns
the frequency of the loop and its drift is the drift of the loop. -/
theorem piSample_track {base : ServoBase XRat} {s : PiServo XRat} {kp ki d limit : ℚ}
    {offset : Int64} (hkp : s.kp = .fin kp) (hki : s.ki = .fin ki) (hdrift : s.drift = .fin d)
    (hcount : s.count = 2) (hlimit : base.maxFrequency = .fin limit)
    (hlock : losesLock base offset = false)
    (hunsaturated : |kp * offset.toInt + d + ki * offset.toInt| ≤ limit) (localTs : UInt64)
    (T : ℚ) (f : ℝ) :
    ∃ r d' : ℚ, piSample base s offset localTs (.fin 1) =
        (.fin r, .locked, { s with drift := .fin d', lastFreq := .fin r }) ∧
      (r : ℝ) = loopPpb kp ki ⟨offset.toInt, d⟩ ∧
      (d' : ℝ) = (track kp ki T f ⟨offset.toInt, d⟩).drift := by
  obtain ⟨hlo, hhi⟩ := abs_le.mp hunsaturated
  refine ⟨kp * offset.toInt + d + ki * offset.toInt, d + ki * offset.toInt, ?_, ?_, ?_⟩
  · rw [losesLock] at hlock
    simp only [piSample, hcount, hlock, hkp, hki, hdrift, hlimit, XRat.ofInt_eq, XRat.fin_mul,
      XRat.fin_add, XRat.neg_fin, XRat.lt_fin, mul_one, not_lt.mpr hlo, not_lt.mpr hhi,
      Bool.false_eq_true, if_false, decide_false]
  · rw [loopPpb]
    push_cast
    rfl
  · rw [track]
    push_cast
    rfl

/-- A gain without a power, limited. -/
theorem scaledGain_fin (hpow : ∀ x, pow x (.fin 0) = .fin 1) (scale normMax : ℚ) {T : ℚ}
    (hT : 0 < T) :
    scaledGain pow (.fin scale) (.fin 0) (.fin normMax) (.fin T) =
      .fin (min scale (normMax / T)) := by
  simp only [scaledGain, hpow, XRat.fin_mul, mul_one, XRat.fin_div _ hT.ne', XRat.lt_fin,
    decide_eq_true_eq]
  split
  · next hlimited => rw [min_eq_right hlimited.le]
  · next hwithin => rw [min_eq_left (not_lt.mp hwithin)]

variable {cfg : ServoConfig XRat} {kpCfg kiCfg T : ℚ}

/-- **The gains of the user**, as they are left for a sync interval. -/
theorem piSyncInterval_gains (hpow : ∀ x, pow x (.fin 0) = .fin 1) (hkp : cfg.kp = .fin kpCfg)
    (hki : cfg.ki = .fin kiCfg) (hkp0 : 0 < kpCfg) (hki0 : 0 < kiCfg) (hT : 0 < T) :
    (piSyncInterval pow (piServoCreate cfg) (.fin T)).kp = .fin (min kpCfg (1 / T)) ∧
      (piSyncInterval pow (piServoCreate cfg) (.fin T)).ki = .fin (min kiCfg (2 / T)) := by
  have htruthy : (CDouble.truthy cfg.kp && CDouble.truthy cfg.ki) = true := by
    rw [hkp, hki, XRat.truthy_fin, XRat.truthy_fin, decide_eq_true hkp0.ne',
      decide_eq_true hki0.ne', Bool.and_self]
  obtain ⟨hgainKp, hgainKi⟩ := piSyncInterval_user pow htruthy (.fin T)
  rw [hgainKp, hgainKi, hkp, hki]
  exact ⟨scaledGain_fin hpow _ _ hT, scaledGain_fin hpow _ _ hT⟩

/-- The limited gains are inside the triangle unless both are at their limit. -/
theorem margins_limited_iff (hkp0 : 0 < kpCfg) (hki0 : 0 < kiCfg) (hT : 0 < T) :
    Margins (min kpCfg (1 / T)) (min kiCfg (2 / T)) T ↔ kpCfg * T < 1 ∨ kiCfg * T < 2 := by
  have hkp : min kpCfg (1 / T) * T = min (kpCfg * T) 1 := by
    rw [min_mul_of_nonneg _ _ hT.le, div_mul_cancel₀ _ hT.ne']
  have hki : min kiCfg (2 / T) * T = min (kiCfg * T) 2 := by
    rw [min_mul_of_nonneg _ _ hT.le, div_mul_cancel₀ _ hT.ne']
  have hkpT : 0 < kpCfg * T := mul_pos hkp0 hT
  have hkiT : 0 < kiCfg * T := mul_pos hki0 hT
  have hsum : 2 * min kpCfg (1 / T) * T + min kiCfg (2 / T) * T =
      2 * min (kpCfg * T) 1 + min (kiCfg * T) 2 := by
    rw [mul_assoc, hkp, hki]
  refine ⟨?_, ?_⟩
  · intro h
    by_contra hlimits
    obtain ⟨hkp1, hki2⟩ := not_or.mp hlimits
    have hjoint := h.joint
    rw [hsum, min_eq_right (not_lt.mp hkp1), min_eq_right (not_lt.mp hki2)] at hjoint
    norm_num at hjoint
  · intro hlimits
    refine ⟨?_, ?_, ?_, ?_⟩
    · rw [hkp]
      exact lt_min hkpT one_pos
    · rw [hkp]
      linarith [min_le_right (kpCfg * T) 1]
    · rw [hki]
      exact lt_min hkiT two_pos
    · rw [hsum]
      rcases hlimits with hlt | hlt
      · linarith [min_le_left (kpCfg * T) 1, min_le_right (kiCfg * T) 2]
      · linarith [min_le_right (kpCfg * T) 1, min_le_left (kiCfg * T) 2]

/-- **The stability of the loop with constants of the user.** The gains that `pi_servo_create` and
`pi_sync_interval` leave are within the margins, the loop is asymptotically stable, and it has no
orbit of period two, each of them exactly if one of the constants is below its limit. With both at
their limits the joint margin is met with equality, and there are orbits whose offset changes its
sign in every interval. -/
theorem loopStable_iff (hpow : ∀ x, pow x (.fin 0) = .fin 1) (hkp : cfg.kp = .fin kpCfg)
    (hki : cfg.ki = .fin kiCfg) (hkp0 : 0 < kpCfg) (hki0 : 0 < kiCfg) (hT : 0 < T) :
    ∃ kp ki, (piSyncInterval pow (piServoCreate cfg) (.fin T)).kp = .fin kp ∧
      (piSyncInterval pow (piServoCreate cfg) (.fin T)).ki = .fin ki ∧
      (Margins kp ki T ↔ kpCfg * T < 1 ∨ kiCfg * T < 2) ∧
      (AsymptoticallyStable kp ki T ↔ kpCfg * T < 1 ∨ kiCfg * T < 2) ∧
      (NoPeriodTwo kp ki T ↔ kpCfg * T < 1 ∨ kiCfg * T < 2) := by
  obtain ⟨hgainKp, hgainKi⟩ := piSyncInterval_gains hpow hkp hki hkp0 hki0 hT
  have hmargins := margins_limited_iff hkp0 hki0 hT
  have hnone : NoPeriodTwo (min kpCfg (1 / T)) (min kiCfg (2 / T)) T →
      kpCfg * T < 1 ∨ kiCfg * T < 2 := by
    intro hnone
    by_contra hlimits
    obtain ⟨hkp1, hki2⟩ := not_or.mp hlimits
    -- both gains are at their limits
    have hkpLimit : min kpCfg (1 / T) = 1 / T :=
      min_eq_right ((div_le_iff₀ hT).mpr (not_lt.mp hkp1))
    have hkiLimit : min kiCfg (2 / T) = 2 / T :=
      min_eq_right ((div_le_iff₀ hT).mpr (not_lt.mp hki2))
    refine not_noPeriodTwo ?_ hnone
    rw [hkpLimit, hkiLimit, mul_assoc, div_mul_cancel₀ _ hT.ne', div_mul_cancel₀ _ hT.ne']
    norm_num
  refine ⟨_, _, hgainKp, hgainKi, hmargins, ?_, ?_⟩
  · refine ⟨?_, ?_⟩
    · intro hstable
      exact hnone hstable.noPeriodTwo
    · intro hlimits
      exact (hmargins.mpr hlimits).asymptoticallyStable
  · refine ⟨?_, ?_⟩
    · exact hnone
    · intro hlimits
      exact (hmargins.mpr hlimits).asymptoticallyStable.noPeriodTwo

end Servo

/-- Settings with two constants of the user. -/
def gainConfig (kp ki : ℚ) : ServoConfig XRat :=
  { ServoConfig.zero with kp := .fin kp, ki := .fin ki }

/-- The constants 3/4 and 5 at an interval of one second: only the second is limited, to 2. -/
theorem loopStable_limited :
    (piSyncInterval powOne (piServoCreate (gainConfig (3 / 4) 5)) (.fin 1)).kp = .fin (3 / 4) ∧
      (piSyncInterval powOne (piServoCreate (gainConfig (3 / 4) 5)) (.fin 1)).ki = .fin 2 ∧
      AsymptoticallyStable (3 / 4) 2 1 := by
  have hgains : (piSyncInterval powOne (piServoCreate (gainConfig (3 / 4) 5)) (.fin 1)).kp =
      .fin (3 / 4) ∧
      (piSyncInterval powOne (piServoCreate (gainConfig (3 / 4) 5)) (.fin 1)).ki = .fin 2 := by
    decide +kernel
  have hpow : ∀ x, powOne x (.fin 0) = .fin 1 := fun _ => rfl
  have hkpCfg : (gainConfig (3 / 4) 5).kp = .fin (3 / 4) := rfl
  have hkiCfg : (gainConfig (3 / 4) 5).ki = .fin 5 := rfl
  obtain ⟨kp, ki, hkp, hki, -, hstable, -⟩ :=
    loopStable_iff hpow hkpCfg hkiCfg (by norm_num) (by norm_num) one_pos
  obtain rfl := XRat.fin.inj (hkp.symm.trans hgains.1)
  obtain rfl := XRat.fin.inj (hki.symm.trans hgains.2)
  exact ⟨hgains.1, hgains.2, hstable.mpr (.inl (by norm_num))⟩

/-- The constants 1 and 2 at an interval of one second are left as they are, and the offset can
change its sign only, for ever. -/
theorem not_loopStable_corner :
    (piSyncInterval powOne (piServoCreate (gainConfig 1 2)) (.fin 1)).kp = .fin 1 ∧
      (piSyncInterval powOne (piServoCreate (gainConfig 1 2)) (.fin 1)).ki = .fin 2 ∧
      ¬ Margins 1 2 1 ∧ ¬ AsymptoticallyStable 1 2 1 ∧ ¬ NoPeriodTwo 1 2 1 := by
  have hnone : ¬ NoPeriodTwo 1 2 1 := not_noPeriodTwo (by norm_num)
  refine ⟨by decide +kernel, by decide +kernel, ?_, ?_, hnone⟩
  · intro hmargins
    have hjoint := hmargins.joint
    norm_num at hjoint
  · intro hstable
    exact hnone hstable.noPeriodTwo

end ExternalServo
