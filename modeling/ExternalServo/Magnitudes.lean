import ExternalServo.CDouble
import Mathlib.Order.Basic

/-!
# Magnitudes in the C type `double`

The numbers that are not negative, infinity included, in the order of the operator `<`. Products
with a small constant are rounded, but neither fall below the number nor change the order:
`OrderedCDouble` has these laws, and exact arithmetic is an instance.
-/

namespace CArith

/-- A number that is not negative. -/
def IsMagnitude {D : Type} [CDouble D] (x : D) : Prop :=
  CDouble.eq x x = true ∧ CDouble.lt x (CDouble.lit 0) = false

instance {D : Type} [CDouble D] (x : D) : Decidable (IsMagnitude x) :=
  inferInstanceAs (Decidable (_ ∧ _))

/-- Laws of magnitudes and of constant factors between one and two. They hold of doubles as of exact
numbers: an order among numbers that are not negative, and multiplications that neither lose the
order nor shrink a number. -/
class OrderedCDouble (D : Type) [CDouble D] : Prop extends LawfulCDouble D where
  /-- what is not above a number is not above what that number is not above -/
  not_lt_trans : ∀ x y z : D, CDouble.eq y y = true →
    CDouble.lt y x = false → CDouble.lt z y = false → CDouble.lt z x = false
  /-- a product is a magnitude -/
  isMagnitude_mul : ∀ (x : D) (q : ℚ), 1 ≤ q → q ≤ 2 → IsMagnitude x →
    IsMagnitude (x * CDouble.lit q)
  /-- it is not below the number -/
  mul_not_lt : ∀ (x : D) (q : ℚ), 1 ≤ q → q ≤ 2 → IsMagnitude x →
    CDouble.lt (x * CDouble.lit q) x = false
  /-- products are in the order of the numbers -/
  mul_mono : ∀ (x y : D) (q : ℚ), 1 ≤ q → q ≤ 2 → IsMagnitude x → IsMagnitude y →
    CDouble.lt y x = false → CDouble.lt (y * CDouble.lit q) (x * CDouble.lit q) = false
  /-- zero stays zero -/
  zero_mul_not_lt : ∀ q : ℚ, 1 ≤ q → q ≤ 2 →
    CDouble.lt (CDouble.lit 0) (CDouble.lit 0 * CDouble.lit q : D) = false

/-- The magnitudes. -/
def Magnitude (D : Type) [CDouble D] : Type := {x : D // IsMagnitude x}

namespace Magnitude

variable {D : Type} [CDouble D]

variable [OrderedCDouble D]

/-- The order of the operator `<`. -/
instance : Preorder (Magnitude D) where
  le x y := CDouble.lt y.val x.val = false
  lt x y := CDouble.lt x.val y.val = true
  le_refl x := LawfulCDouble.lt_irrefl x.val
  le_trans x y z hxy hyz := OrderedCDouble.not_lt_trans x.val y.val z.val y.property.1 hxy hyz
  lt_iff_le_not_ge x y := by
    refine ⟨?_, ?_⟩
    · intro hlt
      refine ⟨?_, by simp [hlt]⟩
      by_contra hgt
      rw [Bool.not_eq_false] at hgt
      have hcycle := LawfulCDouble.lt_trans _ _ _ hlt hgt
      rw [LawfulCDouble.lt_irrefl] at hcycle
      cases hcycle
    · rintro ⟨-, hnot⟩
      exact (Bool.not_eq_false _).mp hnot

instance : DecidableLT (Magnitude D) :=
  fun x y => inferInstanceAs (Decidable (CDouble.lt x.val y.val = true))

/-- The order is total. -/
theorem le_of_not_lt (x y : Magnitude D) (h : ¬ x < y) : y ≤ x := (Bool.not_eq_true _).mp h

/-- The product with a constant between one and two. It is a magnitude again, which the subtype
carries along. -/
def scale {q : ℚ} (hlo : 1 ≤ q) (hhi : q ≤ 2) (x : Magnitude D) : Magnitude D :=
  ⟨x.val * CDouble.lit q, OrderedCDouble.isMagnitude_mul x.val q hlo hhi x.property⟩

variable {q : ℚ} (hlo : 1 ≤ q) (hhi : q ≤ 2)

theorem le_scale (x : Magnitude D) : x ≤ scale hlo hhi x :=
  OrderedCDouble.mul_not_lt x.val q hlo hhi x.property

theorem scale_mono : Monotone (scale (D := D) hlo hhi) := by
  intro x y hxy
  exact OrderedCDouble.mul_mono x.val y.val q hlo hhi x.property y.property hxy

end Magnitude

namespace XRat

/-- The magnitudes of exact arithmetic. -/
theorem isMagnitude_iff {x : XRat} : IsMagnitude x ↔ x = inf false ∨ ∃ q, x = fin q ∧ 0 ≤ q := by
  cases x with
  | nan => simp [IsMagnitude, CDouble.eq, XRat.eq]
  | inf s => cases s <;> simp [IsMagnitude, CDouble.eq, CDouble.lt, XRat.eq, XRat.lt]
  | fin q => simp [IsMagnitude]

/-- Infinity times a positive constant. -/
theorem inf_mul_lit {q : ℚ} (hq : 1 ≤ q) : (inf false * CDouble.lit q : XRat) = inf false := by
  have hne : q ≠ 0 := by linarith
  have hneg : decide (q < 0) = false := decide_eq_false (by linarith)
  change (if q = 0 then nan else inf (false ^^ decide (q < 0))) = _
  rw [if_neg hne, hneg]
  rfl

theorem not_lt_trans (x y z : XRat) (hy : XRat.eq y y = true) (hxy : XRat.lt y x = false)
    (hyz : XRat.lt z y = false) : XRat.lt z x = false := by
  cases x <;> cases y <;> cases z <;> simp_all [XRat.lt, XRat.eq]
  linarith

instance : OrderedCDouble XRat where
  not_lt_trans := not_lt_trans
  isMagnitude_mul x q hlo hhi hx := by
    rcases isMagnitude_iff.mp hx with rfl | ⟨p, rfl, hp⟩
    · rwa [inf_mul_lit hlo]
    · exact isMagnitude_iff.mpr (.inr ⟨p * q, rfl, mul_nonneg hp (by linarith)⟩)
  mul_not_lt x q hlo hhi hx := by
    rcases isMagnitude_iff.mp hx with rfl | ⟨p, rfl, hp⟩
    · rw [inf_mul_lit hlo]
      rfl
    · rw [lit_eq, fin_mul, lt_fin, decide_eq_false_iff_not, not_lt]
      exact le_mul_of_one_le_right hp hlo
  mul_mono x y q hlo hhi hx hy hxy := by
    rcases isMagnitude_iff.mp hx with rfl | ⟨p, rfl, hp⟩
    · rcases isMagnitude_iff.mp hy with rfl | ⟨p', rfl, hp'⟩
      · rw [inf_mul_lit hlo]
        rfl
      · cases hxy
    · rcases isMagnitude_iff.mp hy with rfl | ⟨p', rfl, hp'⟩
      · rw [inf_mul_lit hlo]
        rfl
      · rw [lt_fin, decide_eq_false_iff_not, not_lt] at hxy
        rw [lit_eq, fin_mul, fin_mul, lt_fin, decide_eq_false_iff_not, not_lt]
        exact mul_le_mul_of_nonneg_right hxy (by linarith)
  zero_mul_not_lt q hlo hhi := by simp

end XRat

end CArith
