import ExternalServo.Recurrence
import Mathlib.Analysis.SpecialFunctions.Pow.Real

/-!
# Disturbed linear systems

If the orbits of a matrix tend to zero, they decay at a geometric rate (`Decays`): some power of
the matrix halves every vector. A system that is disturbed in every step then forgets where it
started at the same rate, and stays within a multiple of its disturbances.

* `exists_decays` — the rate;
* `Decays.disturbed` — the disturbed system, over any finite number of steps.
-/

namespace Recurrence

open Filter Matrix Topology

variable {A : Matrix (Fin 2) (Fin 2) ℝ}

/-- The orbits decay at the rate `ρ`, from `C` times the vector that they start with. The factor
allows for a matrix that lengthens some vectors before it shortens them. -/
structure Decays (A : Matrix (Fin 2) (Fin 2) ℝ) (C ρ : ℝ) : Prop where
  factor_pos : 0 < C
  rate_pos : 0 < ρ
  rate_lt : ρ < 1
  le : ∀ v n, ‖A ^ n *ᵥ v‖ ≤ C * ρ ^ n * ‖v‖

/-! ## The rate -/

/-- A matrix is bounded by what it does to the two unit vectors. -/
theorem norm_mulVec_le {B : Matrix (Fin 2) (Fin 2) ℝ} {c₀ c₁ : ℝ}
    (h₀ : ‖B *ᵥ Pi.single 0 1‖ ≤ c₀) (h₁ : ‖B *ᵥ Pi.single 1 1‖ ≤ c₁) (v : Fin 2 → ℝ) :
    ‖B *ᵥ v‖ ≤ (c₀ + c₁) * ‖v‖ := by
  have hsplit : v = v 0 • Pi.single 0 1 + v 1 • Pi.single 1 1 := by
    ext i
    fin_cases i <;> simp
  have hentry : ∀ i, ‖v i‖ ≤ ‖v‖ := norm_le_pi_norm v
  calc ‖B *ᵥ v‖
      = ‖v 0 • (B *ᵥ Pi.single 0 1) + v 1 • (B *ᵥ Pi.single 1 1)‖ := by
        rw [← mulVec_smul, ← mulVec_smul, ← mulVec_add, ← hsplit]
    _ ≤ ‖v 0‖ * ‖B *ᵥ Pi.single 0 1‖ + ‖v 1‖ * ‖B *ᵥ Pi.single 1 1‖ := by
        rw [← norm_smul, ← norm_smul]
        exact norm_add_le _ _
    _ ≤ ‖v‖ * c₀ + ‖v‖ * c₁ := by
        gcongr
        · exact hentry 0
        · exact hentry 1
    _ = (c₀ + c₁) * ‖v‖ := by ring

/-- If all orbits tend to zero, some power halves every vector. -/
theorem exists_halving (h : ∀ v, Tendsto (fun n => A ^ n *ᵥ v) atTop (𝓝 0)) :
    ∃ N, 0 < N ∧ ∀ v, ‖A ^ N *ᵥ v‖ ≤ 1 / 2 * ‖v‖ := by
  have hsmall : ∀ i : Fin 2, ∀ᶠ n in atTop, ‖A ^ n *ᵥ Pi.single i 1‖ < 1 / 4 := by
    intro i
    have htends := (h (Pi.single i 1)).norm
    rw [norm_zero] at htends
    exact htends.eventually_lt_const (by norm_num)
  obtain ⟨N, ⟨h₀, h₁⟩, hN⟩ := (((hsmall 0).and (hsmall 1)).and (eventually_gt_atTop 0)).exists
  refine ⟨N, hN, ?_⟩
  intro v
  calc ‖A ^ N *ᵥ v‖
      ≤ (1 / 4 + 1 / 4) * ‖v‖ := norm_mulVec_le h₀.le h₁.le v
    _ = 1 / 2 * ‖v‖ := by ring

/-- A power that halves every vector does so again and again. -/
theorem halved_iterate {N : ℕ} (h : ∀ v, ‖A ^ N *ᵥ v‖ ≤ 1 / 2 * ‖v‖) (v : Fin 2 → ℝ) (q : ℕ) :
    ‖A ^ (N * q) *ᵥ v‖ ≤ (1 / 2) ^ q * ‖v‖ := by
  induction q with
  | zero => simp
  | succ q ih =>
    calc ‖A ^ (N * (q + 1)) *ᵥ v‖
        = ‖A ^ N *ᵥ (A ^ (N * q) *ᵥ v)‖ := by
          rw [mulVec_mulVec, ← pow_add, Nat.mul_succ, Nat.add_comm]
      _ ≤ 1 / 2 * ‖A ^ (N * q) *ᵥ v‖ := h _
      _ ≤ 1 / 2 * ((1 / 2) ^ q * ‖v‖) := by gcongr
      _ = (1 / 2) ^ (q + 1) * ‖v‖ := by ring

/-- **If all orbits tend to zero, they decay** at a geometric rate: some power of the matrix halves
both unit vectors, and with them every vector; what happens between its multiples is in the factor.
-/
theorem exists_decays (h : ∀ v, Tendsto (fun n => A ^ n *ᵥ v) atTop (𝓝 0)) :
    ∃ C ρ, Decays A C ρ := by
  obtain ⟨C, hC, hbound⟩ := exists_bound h
  obtain ⟨N, hN, hhalved⟩ := exists_halving h
  -- the rate of which `N` steps are a half
  have hroot : ((1 / 2 : ℝ) ^ ((N : ℝ)⁻¹)) ^ N = 1 / 2 :=
    Real.rpow_inv_natCast_pow (by norm_num) hN.ne'
  have hpos : 0 < (1 / 2 : ℝ) ^ ((N : ℝ)⁻¹) := Real.rpow_pos_of_pos (by norm_num) _
  have hlt : (1 / 2 : ℝ) ^ ((N : ℝ)⁻¹) < 1 := Real.rpow_lt_one (by norm_num) (by norm_num) (by
    positivity)
  generalize (1 / 2 : ℝ) ^ ((N : ℝ)⁻¹) = ρ at hroot hpos hlt
  refine ⟨2 * C, ρ, by positivity, hpos, hlt, ?_⟩
  intro v n
  -- a last block that is not complete costs at most a factor of two
  have hrest : (1 / 2 : ℝ) ≤ ρ ^ (n % N) := by
    rw [← hroot]
    exact pow_le_pow_of_le_one hpos.le hlt.le (Nat.mod_lt n hN).le
  have hrate : (1 / 2 : ℝ) ^ (n / N) ≤ 2 * ρ ^ n := by
    calc (1 / 2 : ℝ) ^ (n / N)
        = ρ ^ (N * (n / N)) * (2 * (1 / 2)) := by rw [pow_mul, hroot]; ring
      _ ≤ ρ ^ (N * (n / N)) * (2 * ρ ^ (n % N)) := by gcongr
      _ = 2 * (ρ ^ (N * (n / N)) * ρ ^ (n % N)) := by ring
      _ = 2 * ρ ^ n := by rw [← pow_add, Nat.div_add_mod]
  calc ‖A ^ n *ᵥ v‖
      = ‖A ^ (n % N) *ᵥ (A ^ (N * (n / N)) *ᵥ v)‖ := by
        rw [mulVec_mulVec, ← pow_add, Nat.mod_add_div]
    _ ≤ C * ‖A ^ (N * (n / N)) *ᵥ v‖ := hbound _ _
    _ ≤ C * ((1 / 2) ^ (n / N) * ‖v‖) := by gcongr; exact halved_iterate hhalved v (n / N)
    _ ≤ C * (2 * ρ ^ n * ‖v‖) := by gcongr
    _ = 2 * C * ρ ^ n * ‖v‖ := by ring

/-! ## Disturbances -/

section Disturbed

variable {C ρ η : ℝ} {y w : ℕ → Fin 2 → ℝ} {n : ℕ}

/-- What is left of the state after further undisturbed steps. The induction is on the disturbed
ones: each of them adds its disturbance, which decays in the steps that follow, and the sum of these
is a geometric one. The further steps are what makes the induction go through. -/
theorem Decays.disturbed_further (h : Decays A C ρ) (hη : 0 ≤ η)
    (hstep : ∀ k < n, y (k + 1) = A *ᵥ y k + w k) (hw : ∀ k < n, ‖w k‖ ≤ η) (m : ℕ) :
    ‖A ^ m *ᵥ y n‖ ≤ C * ρ ^ (m + n) * ‖y 0‖ + ρ ^ m * (C / (1 - ρ) * η) := by
  obtain ⟨hC, hρ, hρ1, hle⟩ := h
  have hgap : 0 < 1 - ρ := by linarith
  induction n generalizing m with
  | zero =>
    have hrest : 0 ≤ ρ ^ m * (C / (1 - ρ) * η) := by positivity
    rw [Nat.add_zero]
    linarith [hle (y 0) m]
  | succ n ih =>
    have hearlier := ih (fun k hk => hstep k (hk.trans n.lt_succ_self))
      (fun k hk => hw k (hk.trans n.lt_succ_self)) (m + 1)
    calc ‖A ^ m *ᵥ y (n + 1)‖
        = ‖A ^ (m + 1) *ᵥ y n + A ^ m *ᵥ w n‖ := by
          rw [hstep n n.lt_succ_self, mulVec_add, mulVec_mulVec, pow_succ]
      _ ≤ ‖A ^ (m + 1) *ᵥ y n‖ + ‖A ^ m *ᵥ w n‖ := norm_add_le _ _
      _ ≤ (C * ρ ^ (m + 1 + n) * ‖y 0‖ + ρ ^ (m + 1) * (C / (1 - ρ) * η)) +
          C * ρ ^ m * η := by
          gcongr
          exact (hle (w n) m).trans (by gcongr; exact hw n n.lt_succ_self)
      _ = C * ρ ^ (m + (n + 1)) * ‖y 0‖ + ρ ^ m * (C / (1 - ρ) * η) := by
          rw [Nat.add_right_comm m 1 n, pow_succ ρ m]
          field_simp
          ring

/-- **A disturbed system** forgets its start at the rate of the orbits, and stays within a multiple
of the disturbances: each of them is an orbit of its own from the step in which it happened, and the
orbits of all add up to a geometric series. -/
theorem Decays.disturbed (h : Decays A C ρ) (hη : 0 ≤ η)
    (hstep : ∀ k < n, y (k + 1) = A *ᵥ y k + w k) (hw : ∀ k < n, ‖w k‖ ≤ η) :
    ‖y n‖ ≤ C * ρ ^ n * ‖y 0‖ + C / (1 - ρ) * η := by
  have hzero := h.disturbed_further hη hstep hw 0
  rwa [pow_zero, one_mulVec, Nat.zero_add, pow_zero, one_mul] at hzero

end Disturbed

end Recurrence
