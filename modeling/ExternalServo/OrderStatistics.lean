import Mathlib.Data.List.Count
import Mathlib.Order.Defs.LinearOrder
import Mathlib.Order.Lattice

/-!
# The middle of a sorted list

An element of a sorted list, bounded by counting: with at most `k` elements below `lo` the one at
position `k` is not below `lo`, and likewise above. If fewer than half of the elements are outside
an interval (`Mostly`), the elements in the middle are inside (`Mostly.middle`).
-/

namespace OrderStatistics

variable {α β : Type} [LinearOrder β] {f : α → β} {v : List α} {lo hi : β} {k : ℕ}

/-- At most `k` elements are below `lo`. -/
theorem le_getElem (hsorted : v.Pairwise fun a b => f a ≤ f b) (hk : k < v.length)
    (hcount : v.countP (fun x => decide (f x < lo)) ≤ k) : lo ≤ f v[k] := by
  by_contra hlt
  rw [not_le] at hlt
  have hbelow : ∀ x ∈ v.take (k + 1), decide (f x < lo) = true := by
    intro x hx
    obtain ⟨i, hi, rfl⟩ := List.mem_take_iff_getElem.mp hx
    rw [decide_eq_true_eq]
    rcases Nat.lt_or_ge i k with hik | hki
    · exact (List.pairwise_iff_getElem.mp hsorted i k (by omega) hk hik).trans_lt hlt
    · obtain rfl : i = k := by omega
      exact hlt
  have hlen : (v.take (k + 1)).countP (fun x => decide (f x < lo)) = k + 1 := by
    rw [List.countP_eq_length.mpr hbelow, List.length_take]
    omega
  have hle := hlen ▸ (List.take_sublist (k + 1) v).countP_le
  omega

/-- Fewer elements are above `hi` than there are from position `k` on. -/
theorem getElem_le (hsorted : v.Pairwise fun a b => f a ≤ f b) (hk : k < v.length)
    (hcount : v.countP (fun x => decide (hi < f x)) < v.length - k) : f v[k] ≤ hi := by
  by_contra hlt
  rw [not_le] at hlt
  have habove : ∀ x ∈ v.drop k, decide (hi < f x) = true := by
    intro x hx
    obtain ⟨i, hi, rfl⟩ := List.mem_drop_iff_getElem.mp hx
    rw [decide_eq_true_eq]
    rcases Nat.eq_zero_or_pos i with rfl | hpos
    · exact hlt
    · exact hlt.trans_le
        (List.pairwise_iff_getElem.mp hsorted k (k + i) hk (by omega) (by omega))
  have hlen : (v.drop k).countP (fun x => decide (hi < f x)) = v.length - k := by
    rw [List.countP_eq_length.mpr habove, List.length_drop]
  have hle := hlen ▸ (List.drop_sublist k v).countP_le
  omega

/-- The value is outside the interval from `lo` to `hi`. -/
def outside (lo hi : β) (y : β) : Bool := decide (y < lo) || decide (hi < y)

/-- Fewer than half of the elements are outside the interval. The elements may be outside on either
side, and by any distance. -/
def Mostly (f : α → β) (lo hi : β) (v : List α) : Prop :=
  2 * v.countP (fun x => outside lo hi (f x)) < v.length

instance decidableMostly : Decidable (Mostly f lo hi v) := inferInstanceAs (Decidable (_ < _))

/-- The elements are arranged in another order. -/
theorem Mostly.perm {w : List α} (h : Mostly f lo hi v) (hperm : v.Perm w) :
    Mostly f lo hi w := by
  rwa [Mostly, ← hperm.countP_eq, ← hperm.length_eq]

/-- None is outside. -/
theorem mostly_of_forall (hne : v ≠ []) (h : ∀ x ∈ v, lo ≤ f x ∧ f x ≤ hi) :
    Mostly f lo hi v := by
  have hnone : v.countP (fun x => outside lo hi (f x)) = 0 := by
    rw [List.countP_eq_zero]
    intro x hx
    obtain ⟨hlo, hhi⟩ := h x hx
    simp [outside, hlo, hhi]
  rw [Mostly, hnone]
  exact List.length_pos_iff.mpr hne

/-- **The middle.** One or two positions of a sorted list are in its middle; what stands there is
inside an interval that more than half of the elements are inside. If it were below the interval, so
would be half of the list before it, and likewise above. -/
theorem Mostly.middle (h : Mostly f lo hi v) (hsorted : v.Pairwise fun a b => f a ≤ f b)
    (hk : k < v.length) (hlower : v.length ≤ 2 * k + 2) (hupper : 2 * k ≤ v.length) :
    lo ≤ f v[k] ∧ f v[k] ≤ hi := by
  rw [Mostly] at h
  have hbelow : v.countP (fun x => decide (f x < lo)) ≤
      v.countP (fun x => outside lo hi (f x)) := by
    apply List.countP_mono_left
    intro x _ hx
    rw [outside, hx, Bool.true_or]
  have habove : v.countP (fun x => decide (hi < f x)) ≤
      v.countP (fun x => outside lo hi (f x)) := by
    apply List.countP_mono_left
    intro x _ hx
    rw [outside, hx, Bool.or_true]
  refine ⟨le_getElem hsorted hk ?_, getElem_le hsorted hk ?_⟩
  · omega
  · omega

end OrderStatistics
