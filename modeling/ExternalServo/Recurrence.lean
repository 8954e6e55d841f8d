import Mathlib.LinearAlgebra.Matrix.Charpoly.Basic
import Mathlib.LinearAlgebra.Matrix.Charpoly.Coeff
import Mathlib.LinearAlgebra.Matrix.ToLinearEquiv
import Mathlib.Topology.Algebra.InfiniteSum.Real
import Mathlib.Topology.Instances.Matrix
import Mathlib.Analysis.Real.Sqrt
import Mathlib.Analysis.Normed.Module.Basic
import Mathlib.Tactic.FieldSimp
import Mathlib.Tactic.Linarith
import Mathlib.Tactic.Ring

/-!
# Linear systems of two variables

A sequence with `x (n + 2) = t * x (n + 1) - b * x n` tends to zero if `|b| < 1` and
`|t| < 1 + b` (`Contracting`): an energy, a quadratic form of two successive values, falls by a
multiple of their squares in every step. By the theorem of Cayley and Hamilton the orbits of a
matrix with trace `t` and determinant `b` are such sequences.

* `tendsto_zero_of_decrease` — what an energy pays for tends to zero;
* `Contracting.tendsto` — the recurrence;
* `tendsto_mulVec` — the orbits of a matrix;
* `exists_flipped` — on the boundary `t = -(1 + b)` there is an orbit that changes its sign only.
-/

namespace Recurrence

open Filter Matrix Topology

/-! ## Energies -/

/-- What is paid for out of an energy that stays nonnegative tends to zero. -/
theorem tendsto_zero_of_decrease {V w : ℕ → ℝ} {c : ℝ} (hc : 0 < c) (hV : ∀ n, 0 ≤ V n)
    (hw : ∀ n, 0 ≤ w n) (hdec : ∀ n, V (n + 1) + c * w n ≤ V n) : Tendsto w atTop (𝓝 0) := by
  have hpaid : ∀ n, V n + ∑ k ∈ Finset.range n, c * w k ≤ V 0 := by
    intro n
    induction n with
    | zero => simp
    | succ n ih =>
      rw [Finset.sum_range_succ]
      linarith [hdec n]
  have hsum : Summable fun n => c * w n := by
    refine summable_of_sum_range_le (c := V 0) (fun n => mul_nonneg hc.le (hw n)) ?_
    intro n
    linarith [hpaid n, hV n]
  have htends := hsum.tendsto_atTop_zero.const_mul c⁻¹
  rw [mul_zero] at htends
  refine htends.congr ?_
  intro n
  exact inv_mul_cancel_left₀ hc.ne' (w n)

/-- A sequence tends to zero if its squares do. -/
theorem tendsto_zero_of_sq {x : ℕ → ℝ} (h : Tendsto (fun n => x n ^ 2) atTop (𝓝 0)) :
    Tendsto x atTop (𝓝 0) := by
  have hsqrt := (Real.continuous_sqrt.tendsto 0).comp h
  rw [Real.sqrt_zero] at hsqrt
  rw [tendsto_zero_iff_abs_tendsto_zero]
  refine hsqrt.congr ?_
  intro n
  exact Real.sqrt_sq_eq_abs (x n)

/-! ## The recurrence -/

/-- The recurrence with the coefficients `t` and `b`. -/
def Satisfies (t b : ℝ) (x : ℕ → ℝ) : Prop := ∀ n, x (n + 2) = t * x (n + 1) - b * x n

/-- The coefficients of a recurrence whose solutions tend to zero. The conditions are those of the
Schur–Cohn test for a polynomial of degree two: both zeros of `z² - t z + b` are inside the unit
circle. -/
structure Contracting (t b : ℝ) : Prop where
  abs_b : |b| < 1
  abs_t : |t| < 1 + b

/-- What the energy loses, as a multiple of the squares. -/
noncomputable def margin (t b : ℝ) : ℝ := (1 - b) * ((1 + b) ^ 2 - t ^ 2) / (2 * (1 + b))

/-- The energy of two successive values, the later one first: a quadratic form that is positive for
contracting coefficients and that a step decreases by `margin` times the squares of the values it
starts from. -/
noncomputable def energy (t b u v : ℝ) : ℝ :=
  (u - t * b / (1 + b) * v) ^ 2 + (b ^ 2 + margin t b - (t * b / (1 + b)) ^ 2) * v ^ 2

section Energy

variable {t b : ℝ}

/-- **The energy falls** in every step, by a fixed part of the squares of the two values. As it
cannot become negative, the squares have a finite sum. -/
theorem energy_step (hb : 1 + b ≠ 0) (u v : ℝ) :
    energy t b (t * u - b * v) u + margin t b * (u ^ 2 + v ^ 2) = energy t b u v := by
  rw [energy, energy, margin]
  field_simp
  ring

namespace Contracting

variable (h : Contracting t b)
include h

theorem one_add_pos : 0 < 1 + b := by
  have hlo := (abs_lt.mp h.abs_b).1
  linarith

theorem sq_lt : t ^ 2 < (1 + b) ^ 2 := by
  rw [← sq_abs t]
  have := h.one_add_pos
  gcongr
  exact h.abs_t

theorem margin_pos : 0 < margin t b := by
  have hhi := (abs_lt.mp h.abs_b).2
  have hone := h.one_add_pos
  have hsq := h.sq_lt
  rw [margin]
  apply div_pos
  · exact mul_pos (by linarith) (by linarith)
  · linarith

theorem energy_nonneg (u v : ℝ) : 0 ≤ energy t b u v := by
  have hone := h.one_add_pos
  have hmargin := h.margin_pos
  -- the mixed term is not larger than `b`
  have hmixed : (t * b / (1 + b)) ^ 2 ≤ b ^ 2 := by
    rw [div_pow, div_le_iff₀ (by positivity), mul_pow, mul_comm]
    exact mul_le_mul_of_nonneg_left h.sq_lt.le (sq_nonneg b)
  rw [energy]
  have hrest : 0 ≤ (b ^ 2 + margin t b - (t * b / (1 + b)) ^ 2) * v ^ 2 :=
    mul_nonneg (by linarith) (sq_nonneg v)
  linarith [sq_nonneg (u - t * b / (1 + b) * v)]

/-- **The solutions tend to zero.** What the energy of the first two values pays for is finite, so
that the squares of the values are summable. -/
theorem tendsto {x : ℕ → ℝ} (hx : Satisfies t b x) : Tendsto x atTop (𝓝 0) := by
  refine tendsto_zero_of_sq (tendsto_zero_of_decrease h.margin_pos
    (fun n => h.energy_nonneg (x (n + 1)) (x n)) (fun n => sq_nonneg (x n)) ?_)
  intro n
  have hstep := energy_step h.one_add_pos.ne' (x (n + 1)) (x n) (t := t)
  rw [← hx n] at hstep
  have hlater := mul_nonneg h.margin_pos.le (sq_nonneg (x (n + 1)))
  linarith

end Contracting

end Energy

/-! ## Matrices -/

section Orbits

variable {A : Matrix (Fin 2) (Fin 2) ℝ}

/-- The square of a matrix, by its trace and its determinant. -/
theorem sq_eq (A : Matrix (Fin 2) (Fin 2) ℝ) : A ^ 2 = A.trace • A - A.det • 1 := by
  have h := A.aeval_self_charpoly
  rw [A.charpoly_fin_two] at h
  simp only [map_add, map_sub, map_mul, map_pow, Polynomial.aeval_X, Polynomial.aeval_C,
    Algebra.algebraMap_eq_smul_one, smul_mul_assoc, one_mul] at h
  rw [eq_sub_iff_add_eq, ← sub_eq_zero, ← h]
  abel

/-- Each coordinate of an orbit satisfies the recurrence. -/
theorem satisfies_mulVec (A : Matrix (Fin 2) (Fin 2) ℝ) (v : Fin 2 → ℝ) (i : Fin 2) :
    Satisfies A.trace A.det fun n => (A ^ n *ᵥ v) i := by
  intro n
  have hpow : A ^ (n + 2) = A.trace • A ^ (n + 1) - A.det • A ^ n := by
    rw [pow_add, sq_eq, mul_sub, mul_smul_comm, mul_smul_comm, mul_one, pow_succ]
  change (A ^ (n + 2) *ᵥ v) i = _
  rw [hpow, sub_mulVec, smul_mulVec, smul_mulVec]
  rfl

/-- **The orbits of a contracting matrix** tend to zero. By the theorem of Cayley and Hamilton each
coordinate of an orbit satisfies the recurrence with the trace and the determinant of the matrix. -/
theorem tendsto_mulVec (h : Contracting A.trace A.det) (v : Fin 2 → ℝ) :
    Tendsto (fun n => A ^ n *ᵥ v) atTop (𝓝 0) := by
  rw [tendsto_pi_nhds]
  intro i
  exact h.tendsto (satisfies_mulVec A v i)

/-- If all orbits tend to zero, they stay as small as they start, up to a factor. -/
theorem exists_bound (h : ∀ v, Tendsto (fun n => A ^ n *ᵥ v) atTop (𝓝 0)) :
    ∃ C, 0 < C ∧ ∀ v n, ‖A ^ n *ᵥ v‖ ≤ C * ‖v‖ := by
  -- the orbits of the two unit vectors are bounded
  have hunit : ∀ i : Fin 2, ∃ C, 0 < C ∧ ∀ n, ‖A ^ n *ᵥ Pi.single i 1‖ ≤ C := by
    intro i
    obtain ⟨C, hC⟩ := (Metric.isBounded_range_of_tendsto _ (h (Pi.single i 1))).exists_norm_le
    refine ⟨|C| + 1, by positivity, ?_⟩
    intro n
    have hle := hC _ (Set.mem_range_self n)
    linarith [le_abs_self C]
  obtain ⟨C₀, hC₀, h₀⟩ := hunit 0
  obtain ⟨C₁, hC₁, h₁⟩ := hunit 1
  refine ⟨C₀ + C₁, by linarith, ?_⟩
  intro v n
  have hsplit : v = v 0 • Pi.single 0 1 + v 1 • Pi.single 1 1 := by
    ext i
    fin_cases i <;> simp
  have hentry : ∀ i, ‖v i‖ ≤ ‖v‖ := norm_le_pi_norm v
  calc ‖A ^ n *ᵥ v‖
      = ‖v 0 • (A ^ n *ᵥ Pi.single 0 1) + v 1 • (A ^ n *ᵥ Pi.single 1 1)‖ := by
        rw [← mulVec_smul, ← mulVec_smul, ← mulVec_add, ← hsplit]
    _ ≤ ‖v 0‖ * ‖A ^ n *ᵥ Pi.single 0 1‖ + ‖v 1‖ * ‖A ^ n *ᵥ Pi.single 1 1‖ := by
        rw [← norm_smul, ← norm_smul]
        exact norm_add_le _ _
    _ ≤ ‖v‖ * C₀ + ‖v‖ * C₁ := by
        gcongr
        · exact hentry 0
        · exact h₀ n
        · exact hentry 1
        · exact h₁ n
    _ = (C₀ + C₁) * ‖v‖ := by ring

/-- An orbit that comes back to its start does not tend to zero, unless it is zero. -/
theorem eq_zero_of_periodic {v : Fin 2 → ℝ} (h : Tendsto (fun n => A ^ n *ᵥ v) atTop (𝓝 0))
    {m : ℕ} (hm : 0 < m) (hperiod : A ^ m *ᵥ v = v) : v = 0 := by
  have hpow : ∀ k, A ^ (m * k) *ᵥ v = v := by
    intro k
    induction k with
    | zero => simp
    | succ k ih => rw [Nat.mul_succ, pow_add, ← mulVec_mulVec, hperiod, ih]
  have hsub := h.comp (tendsto_id.const_mul_atTop' hm)
  refine tendsto_nhds_unique (tendsto_const_nhds.congr ?_) hsub
  intro k
  exact (hpow k).symm

/-- On the boundary some vector changes its sign only. -/
theorem exists_flipped (h : 1 + A.trace + A.det = 0) : ∃ v ≠ 0, A *ᵥ v = -v := by
  have hdet : (A + 1).det = 0 := by
    rw [trace_fin_two, det_fin_two] at h
    rw [det_fin_two]
    simp only [Matrix.add_apply, one_apply_eq, ne_eq, zero_ne_one, not_false_eq_true,
      one_apply_ne, one_ne_zero, add_zero]
    linarith
  obtain ⟨v, hv, hzero⟩ := exists_mulVec_eq_zero_iff.mpr hdet
  refine ⟨v, hv, ?_⟩
  rw [add_mulVec, one_mulVec] at hzero
  exact eq_neg_of_add_eq_zero_left hzero

end Orbits

end Recurrence
