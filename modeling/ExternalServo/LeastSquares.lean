import Mathlib.Algebra.Order.Field.Basic
import Mathlib.Tactic.FieldSimp
import Mathlib.Tactic.Linarith
import Mathlib.Tactic.Ring

/-!
# Weighted linear regression

Lines through weighted points, over any field. `NormalEquations` says that a line has the least
weighted sum of squared errors, by the derivatives; `slope` and `intercept` are the textbook
formulas in terms of the weighted totals.

* `normalEquations_iff` — with nonzero divisors, the formulas are the one solution;
* `spread_eq_total` — the divisor of the slope is the weighted sum of the squared deviations from
  the mean;
* `spread_eq_zero_iff` — for positive weights it vanishes exactly if all points are at one place;
* `NormalEquations.accurate` — if all points are near some line, the regression line is.
-/

namespace LeastSquares

/-- A point and its weight. Points are given by their place `x` and their value `y`; the weight says
how much the square of an error there counts. -/
structure Datum (K : Type) where
  x : K
  y : K
  w : K
  deriving DecidableEq

section Field

variable {K : Type} [Field K]

/-- The weighted total of a quantity. -/
def total (f : Datum K → K) (data : List (Datum K)) : K := (data.map fun d => d.w * f d).sum

@[simp] theorem total_nil (f : Datum K → K) : total f [] = 0 := rfl

@[simp] theorem total_cons (f : Datum K → K) (d : Datum K) (data : List (Datum K)) :
    total f (d :: data) = d.w * f d + total f data := by
  rw [total, List.map_cons, List.sum_cons]
  rfl

@[simp] theorem total_append (f : Datum K → K) (data data' : List (Datum K)) :
    total f (data ++ data') = total f data + total f data' := by
  rw [total, List.map_append, List.sum_append]
  rfl

/-- The sum of the weights. -/
def weight (data : List (Datum K)) : K := total (fun _ => 1) data

theorem weight_of_ones {data : List (Datum K)} (h : ∀ d ∈ data, d.w = 1) :
    weight data = data.length := by
  induction data with
  | nil => simp [weight]
  | cons d data ih =>
    obtain ⟨hd, h⟩ := List.forall_mem_cons.mp h
    have hrest := ih h
    rw [weight] at hrest ⊢
    rw [total_cons, hrest, hd, List.length_cons, Nat.cast_succ]
    ring

/-- The totals of an error against a line, seen through a quantity `f`. -/
theorem total_error (f : Datum K → K) (a b : K) (data : List (Datum K)) :
    total (fun d => f d * (d.y - a * d.x - b)) data =
      total (fun d => f d * d.y) data - a * total (fun d => f d * d.x) data - b * total f data := by
  induction data with
  | nil => simp
  | cons d data ih =>
    rw [total_cons, total_cons, total_cons, total_cons, ih]
    ring

/-- The line with slope `a` and intercept `b` has the least weighted sum of squared errors: the
derivatives by both vanish. Over an ordered field with positive weights this is the minimum; the
definition itself needs no order. -/
def NormalEquations (data : List (Datum K)) (a b : K) : Prop :=
  total (fun d => d.y - a * d.x - b) data = 0 ∧ total (fun d => d.x * (d.y - a * d.x - b)) data = 0

instance [DecidableEq K] (data : List (Datum K)) (a b : K) :
    Decidable (NormalEquations data a b) :=
  inferInstanceAs (Decidable (_ ∧ _))

/-- What the slope is divided by: the weighted sum of the squares of the places, without what their
mean contributes. `spread_eq_total` writes it as a sum of squares, from which its sign can be read.
-/
def spread (data : List (Datum K)) : K :=
  total (fun d => d.x * d.x) data - total Datum.x data * total Datum.x data / weight data

/-- The slope of the regression line. -/
def slope (data : List (Datum K)) : K :=
  (total (fun d => d.x * d.y) data - total Datum.x data * total Datum.y data / weight data) /
    spread data

/-- Its intercept. -/
def intercept (data : List (Datum K)) : K :=
  (total Datum.y data - slope data * total Datum.x data) / weight data

/-- The normal equations in terms of the totals. -/
theorem normalEquations_totals (data : List (Datum K)) (a b : K) :
    NormalEquations data a b ↔
      total Datum.y data - a * total Datum.x data - b * weight data = 0 ∧
        total (fun d => d.x * d.y) data - a * total (fun d => d.x * d.x) data -
          b * total Datum.x data = 0 := by
  have hone := total_error (fun _ => 1) a b data
  simp only [one_mul] at hone
  rw [NormalEquations, hone, total_error Datum.x a b data]
  exact Iff.rfl

/-- **The regression line** is the one solution of the normal equations, as long as neither divisor
vanishes. The formulas are those a program computes; the equations are what they are for. -/
theorem normalEquations_iff {data : List (Datum K)} (hweight : weight data ≠ 0)
    (hspread : spread data ≠ 0) (a b : K) :
    NormalEquations data a b ↔ a = slope data ∧ b = intercept data := by
  rw [normalEquations_totals]
  -- the first equation determines the intercept from the slope
  have hintercept : total Datum.y data - a * total Datum.x data - b * weight data = 0 ↔
      b = (total Datum.y data - a * total Datum.x data) / weight data := by
    rw [sub_eq_zero, eq_div_iff hweight, eq_comm]
  -- and with it the second one the slope
  have hslope : b = (total Datum.y data - a * total Datum.x data) / weight data →
      (total (fun d => d.x * d.y) data - a * total (fun d => d.x * d.x) data -
          b * total Datum.x data = 0 ↔ a = slope data) := by
    intro hb
    have hdifference : total (fun d => d.x * d.y) data - a * total (fun d => d.x * d.x) data -
        b * total Datum.x data =
        total (fun d => d.x * d.y) data - total Datum.x data * total Datum.y data / weight data -
          a * spread data := by
      rw [hb, spread]
      field_simp
      ring
    rw [hdifference, sub_eq_zero, slope, eq_div_iff hspread, eq_comm]
  rw [hintercept]
  refine ⟨?_, ?_⟩
  · rintro ⟨hb, hsecond⟩
    have ha : a = slope data := (hslope hb).mp hsecond
    refine ⟨ha, ?_⟩
    rw [hb, ha, intercept]
  · rintro ⟨ha, hb⟩
    have hb' : b = (total Datum.y data - a * total Datum.x data) / weight data := by
      rw [hb, ha, intercept]
    exact ⟨hb', (hslope hb').mpr ha⟩

/-- **The spread** is the weighted sum of the squared deviations from the mean. -/
theorem spread_eq_total {data : List (Datum K)} (hweight : weight data ≠ 0) :
    spread data = total (fun d => (d.x - total Datum.x data / weight data) ^ 2) data := by
  have hsquare : ∀ (m : K) (data : List (Datum K)), total (fun d => (d.x - m) ^ 2) data =
      total (fun d => d.x * d.x) data - 2 * m * total Datum.x data + m ^ 2 * weight data := by
    intro m data
    induction data with
    | nil => simp [weight]
    | cons d data ih =>
      simp only [weight, total_cons] at ih ⊢
      rw [ih]
      ring
  rw [hsquare, spread]
  field_simp
  ring

end Field

section Ordered

variable {K : Type} [Field K] [LinearOrder K] [IsStrictOrderedRing K] {data : List (Datum K)}

/-- Totals of nonnegative quantities, with positive weights. -/
theorem total_nonneg {f : Datum K → K} (hpos : ∀ d ∈ data, 0 < d.w) (hf : ∀ d, 0 ≤ f d) :
    0 ≤ total f data := by
  induction data with
  | nil => simp
  | cons d data ih =>
    obtain ⟨hd, hpos⟩ := List.forall_mem_cons.mp hpos
    rw [total_cons]
    exact add_nonneg (mul_nonneg hd.le (hf d)) (ih hpos)

theorem total_eq_zero_iff {f : Datum K → K} (hpos : ∀ d ∈ data, 0 < d.w) (hf : ∀ d, 0 ≤ f d) :
    total f data = 0 ↔ ∀ d ∈ data, f d = 0 := by
  induction data with
  | nil => simp
  | cons d data ih =>
    obtain ⟨hd, hpos⟩ := List.forall_mem_cons.mp hpos
    rw [total_cons, add_eq_zero_iff_of_nonneg (mul_nonneg hd.le (hf d)) (total_nonneg hpos hf),
      ih hpos, mul_eq_zero_iff_left hd.ne', List.forall_mem_cons]

theorem weight_pos (hpos : ∀ d ∈ data, 0 < d.w) (hne : data ≠ []) : 0 < weight data := by
  obtain ⟨d, data, rfl⟩ := List.exists_cons_of_ne_nil hne
  obtain ⟨hd, hpos⟩ := List.forall_mem_cons.mp hpos
  have hrest : 0 ≤ weight data := total_nonneg hpos fun _ => zero_le_one
  rw [weight, total_cons, mul_one]
  exact add_pos_of_pos_of_nonneg hd hrest

/-- **Points at one place** are those that no slope fits: with positive weights the divisor of the
slope vanishes for them and for no others. One point is always at one place. -/
theorem spread_eq_zero_iff (hpos : ∀ d ∈ data, 0 < d.w) (hne : data ≠ []) :
    spread data = 0 ↔ ∃ x, ∀ d ∈ data, d.x = x := by
  have hweight : weight data ≠ 0 := (weight_pos hpos hne).ne'
  rw [spread_eq_total hweight, total_eq_zero_iff hpos fun _ => sq_nonneg _]
  refine ⟨?_, ?_⟩
  · intro hzero
    refine ⟨total Datum.x data / weight data, ?_⟩
    intro d hd
    exact sub_eq_zero.mp (pow_eq_zero_iff two_ne_zero |>.mp (hzero d hd))
  · rintro ⟨x, hx⟩
    -- the mean of equal numbers
    have htotal : ∀ data : List (Datum K), (∀ d ∈ data, d.x = x) →
        total Datum.x data = x * weight data := by
      intro data hx
      induction data with
      | nil => simp [weight]
      | cons d data ih =>
        obtain ⟨hd, hx⟩ := List.forall_mem_cons.mp hx
        rw [total_cons, ih hx, hd, weight, weight, total_cons]
        ring
    intro d hd
    rw [htotal data hx, mul_div_cancel_right₀ x hweight, hx d hd, sub_self, zero_pow two_ne_zero]

/-! ### Points near a line -/

/-- The weighted mean of the places. -/
def centre (data : List (Datum K)) : K := total Datum.x data / weight data

/-- Their variance. -/
def variance (data : List (Datum K)) : K := spread data / weight data

theorem total_le_total {f g : Datum K → K} (hpos : ∀ d ∈ data, 0 < d.w)
    (h : ∀ d ∈ data, f d ≤ g d) : total f data ≤ total g data := by
  induction data with
  | nil => simp
  | cons d data ih =>
    obtain ⟨hd, hpos⟩ := List.forall_mem_cons.mp hpos
    obtain ⟨hle, h⟩ := List.forall_mem_cons.mp h
    rw [total_cons, total_cons]
    exact add_le_add (mul_le_mul_of_nonneg_left hle hd.le) (ih hpos h)

omit [LinearOrder K] [IsStrictOrderedRing K] in
/-- A sum of squares splits, up to the product. -/
theorem total_sq_add (f g : Datum K → K) (data : List (Datum K)) :
    total (fun d => (f d + g d) ^ 2) data = total (fun d => f d ^ 2) data +
      total (fun d => g d ^ 2) data + 2 * total (fun d => f d * g d) data := by
  induction data with
  | nil => simp
  | cons d data ih =>
    rw [total_cons, total_cons, total_cons, total_cons, ih]
    ring

omit [LinearOrder K] [IsStrictOrderedRing K] in
/-- The errors against the regression line are orthogonal to every line. -/
theorem NormalEquations.orthogonal {a b : K} (h : NormalEquations data a b) (p q : K) :
    total (fun d => (p * d.x + q) * (d.y - a * d.x - b)) data = 0 := by
  have hsplit : ∀ data : List (Datum K),
      total (fun d => (p * d.x + q) * (d.y - a * d.x - b)) data =
        p * total (fun d => d.x * (d.y - a * d.x - b)) data +
          q * total (fun d => d.y - a * d.x - b) data := by
    intro data
    induction data with
    | nil => simp
    | cons d data ih =>
      rw [total_cons, total_cons, total_cons, ih]
      ring
  rw [hsplit, h.1, h.2, mul_zero, mul_zero, add_zero]

/-- **The distance of the regression line from any other line** is at most that of the points. The
regression line is the projection of the points, and a projection does not increase distances. -/
theorem NormalEquations.total_sq_le {a b : K} (h : NormalEquations data a b)
    (hpos : ∀ d ∈ data, 0 < d.w) (α β : K) :
    total (fun d => ((a - α) * d.x + (b - β)) ^ 2) data ≤
      total (fun d => (d.y - α * d.x - β) ^ 2) data := by
  have hsplit : (fun d : Datum K => (d.y - α * d.x - β) ^ 2) =
      fun d => ((a - α) * d.x + (b - β) + (d.y - a * d.x - b)) ^ 2 := by
    funext d
    ring
  have herrors : 0 ≤ total (fun d : Datum K => (d.y - a * d.x - b) ^ 2) data :=
    total_nonneg hpos fun _ => sq_nonneg _
  have hsum := total_sq_add (fun d => (a - α) * d.x + (b - β)) (fun d => d.y - a * d.x - b) data
  rw [h.orthogonal, mul_zero, add_zero] at hsum
  rw [hsplit, hsum]
  exact le_add_of_nonneg_right herrors

omit [LinearOrder K] [IsStrictOrderedRing K] in
/-- The squares of a line, by its slope and its value at the mean. -/
theorem total_sq_line (hweight : weight data ≠ 0) (p q : K) :
    total (fun d => (p * d.x + q) ^ 2) data =
      weight data * (p ^ 2 * variance data + (p * centre data + q) ^ 2) := by
  have hsquare : ∀ data : List (Datum K), total (fun d => (p * d.x + q) ^ 2) data =
      p ^ 2 * total (fun d => d.x * d.x) data + 2 * p * q * total Datum.x data +
        q ^ 2 * weight data := by
    intro data
    induction data with
    | nil => simp [weight]
    | cons d data ih =>
      simp only [weight, total_cons] at ih ⊢
      rw [ih]
      ring
  rw [hsquare, variance, centre, spread]
  field_simp
  ring

/-- A point counts for at most the total. -/
theorem mul_le_total {f : Datum K → K} (hpos : ∀ d ∈ data, 0 < d.w) (hf : ∀ d, 0 ≤ f d)
    {d : Datum K} (hd : d ∈ data) : d.w * f d ≤ total f data := by
  induction data with
  | nil => cases hd
  | cons e data ih =>
    obtain ⟨he, hrest⟩ := List.forall_mem_cons.mp hpos
    rw [total_cons]
    rcases List.mem_cons.mp hd with rfl | hd
    · exact le_add_of_nonneg_right (total_nonneg hrest hf)
    · exact (ih hrest hd).trans (le_add_of_nonneg_left (mul_nonneg he.le (hf e)))

section Near

variable {a b α β δ : K} (h : NormalEquations data a b) (hpos : ∀ d ∈ data, 0 < d.w)
  (hnear : ∀ d ∈ data, |d.y - α * d.x - β| ≤ δ)

include h hpos hnear

/-- The distance of the regression line from a line that all points are near to. -/
theorem NormalEquations.total_sq_near :
    total (fun d => ((a - α) * d.x + (b - β)) ^ 2) data ≤ δ ^ 2 * weight data := by
  have hconst : ∀ data : List (Datum K), total (fun _ => δ ^ 2) data = δ ^ 2 * weight data := by
    intro data
    induction data with
    | nil => simp [weight]
    | cons d data ih =>
      simp only [weight, total_cons] at ih ⊢
      rw [ih]
      ring
  rw [← hconst]
  refine (h.total_sq_le hpos α β).trans (total_le_total hpos ?_)
  intro d hd
  exact sq_le_sq' (abs_le.mp (hnear d hd)).1 (abs_le.mp (hnear d hd)).2

/-- **If all points are near a line, the regression line is.** The error of its slope, over the
deviation of the places, and its error at their mean are together at most the distance of the
points. A slope is thus the more accurate the further apart the places are. -/
theorem NormalEquations.accurate (hne : data ≠ []) :
    (a - α) ^ 2 * variance data + ((a - α) * centre data + (b - β)) ^ 2 ≤ δ ^ 2 := by
  have hweight := weight_pos hpos hne
  have hle := h.total_sq_near hpos hnear
  rw [total_sq_line hweight.ne', mul_comm] at hle
  exact le_of_mul_le_mul_right hle hweight

/-- At a single point its error can be larger, by what the point weighs. -/
theorem NormalEquations.near_at {d : Datum K} (hd : d ∈ data) :
    d.w * ((a - α) * d.x + (b - β)) ^ 2 ≤ δ ^ 2 * weight data := by
  refine le_trans ?_ (h.total_sq_near hpos hnear)
  exact mul_le_total (f := fun e => ((a - α) * e.x + (b - β)) ^ 2) hpos (fun _ => sq_nonneg _) hd

/-- The error of its slope between two points. -/
theorem NormalEquations.near_between {d e : Datum K} (hd : d ∈ data) (he : e ∈ data)
    (hw : e.w = d.w) :
    d.w * ((a - α) * (d.x - e.x)) ^ 2 ≤ 4 * (δ ^ 2 * weight data) := by
  have hd' := h.near_at hpos hnear hd
  have he' := h.near_at hpos hnear he
  rw [hw] at he'
  have hsquare : ∀ p q : K, (p - q) ^ 2 ≤ 2 * (p ^ 2 + q ^ 2) := by
    intro p q
    nlinarith [sq_nonneg (p + q)]
  calc d.w * ((a - α) * (d.x - e.x)) ^ 2
      = d.w * (((a - α) * d.x + (b - β)) - ((a - α) * e.x + (b - β))) ^ 2 := by ring
    _ ≤ d.w * (2 * (((a - α) * d.x + (b - β)) ^ 2 + ((a - α) * e.x + (b - β)) ^ 2)) :=
        mul_le_mul_of_nonneg_left (hsquare _ _) (hpos d hd).le
    _ ≤ 4 * (δ ^ 2 * weight data) := by linarith

end Near

end Ordered

end LeastSquares
