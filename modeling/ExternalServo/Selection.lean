import Mathlib.Order.Lattice
import Mathlib.Order.Iterate
import Mathlib.Data.List.Basic

/-!
# Selection in one pass, with a tolerance

Elements with errors, in increasing order. One pass keeps an element and replaces it by a later one
whose error is below the tolerance of its own (`select`). As the tolerance is taken of the element
that is kept, it can compound: what is selected is not in general within the tolerance of the
smallest error.

* `select_spec` — it is the first element that no later one is below the tolerance of;
* `select_within_iff` — it is within the tolerance of all, if any such element is;
* `select_le_iterate` — the tolerance compounds once for each later element at most;
* `select_id_first` — without a tolerance, the first of the smallest errors is selected.
-/

namespace Selection

variable {ι α : Type} [Preorder α]

/-- One pass over the later elements `is`, from the element `i`. The element that is kept is
compared with, not the least error so far, so that the tolerance is taken again at each replacement.
-/
def select [DecidableLT α] (tol : α → α) (err : ι → α) (i : ι) (is : List ι) : ι :=
  is.foldl (fun best j => if err j < tol (err best) then j else best) i

/-- No later element of `is` is below the tolerance of `k`. An earlier one can be: the pass does not
come back to it. -/
def Unbeaten [LinearOrder ι] (tol : α → α) (err : ι → α) (is : List ι) (k : ι) : Prop :=
  ∀ j ∈ is, k < j → tol (err k) ≤ err j

variable {tol : α → α} {err : ι → α}

theorem Unbeaten.tail [LinearOrder ι] {j k : ι} {is : List ι} (h : Unbeaten tol err (j :: is) k) :
    Unbeaten tol err is k := by
  intro i hi
  exact h i (List.mem_cons_of_mem j hi)

section Pass

variable (err)
variable [DecidableLT α] (htotal : ∀ x y : α, ¬ x < y → y ≤ x) (htol : ∀ x, x ≤ tol x)

include htotal htol

/-- **What is selected**: the first element that no later one beats. The elements are in increasing
order, so that the first one is the least in it, and the pass is determined by this property. -/
theorem select_spec [LinearOrder ι] {i : ι} {is : List ι}
    (hsorted : (i :: is).Pairwise (· < ·)) :
    select tol err i is ∈ i :: is ∧ Unbeaten tol err is (select tol err i is) ∧
      ∀ k ∈ i :: is, Unbeaten tol err is k → select tol err i is ≤ k := by
  induction is generalizing i with
  | nil =>
    refine ⟨List.mem_singleton_self i, nofun, ?_⟩
    intro k hk _
    exact (List.mem_singleton.mp hk).ge
  | cons j is ih =>
    obtain ⟨hi, htail⟩ := List.pairwise_cons.mp hsorted
    obtain ⟨hij, his⟩ := List.forall_mem_cons.mp hi
    obtain ⟨hj, hrest⟩ := List.pairwise_cons.mp htail
    rw [select, List.foldl_cons]
    split
    · next hbeats =>
      obtain ⟨hmem, hunbeaten, hfirst⟩ := ih htail
      rw [select] at hmem hunbeaten hfirst
      generalize is.foldl _ j = s at hmem hunbeaten hfirst ⊢
      have hjs : j ≤ s := by
        rcases List.mem_cons.mp hmem with rfl | hs
        · exact le_refl s
        · exact (hj s hs).le
      refine ⟨List.mem_cons_of_mem i hmem, ?_, ?_⟩
      · apply List.forall_mem_cons.mpr ⟨?_, hunbeaten⟩
        intro hlt
        exact absurd hlt (not_lt.mpr hjs)
      · intro k hk hk'
        rcases List.mem_cons.mp hk with rfl | hk
        · exact absurd hbeats (hk' j List.mem_cons_self hij).not_gt
        · exact hfirst k hk hk'.tail
    · next hkeeps =>
      have hle := htotal _ _ hkeeps
      obtain ⟨hmem, hunbeaten, hfirst⟩ := ih (List.pairwise_cons.mpr ⟨his, hrest⟩)
      rw [select] at hmem hunbeaten hfirst
      generalize is.foldl _ i = s at hmem hunbeaten hfirst ⊢
      refine ⟨?_, ?_, ?_⟩
      · rcases List.mem_cons.mp hmem with rfl | hs
        · exact List.mem_cons_self
        · exact List.mem_cons_of_mem i (List.mem_cons_of_mem j hs)
      · apply List.forall_mem_cons.mpr ⟨?_, hunbeaten⟩
        intro hlt
        rcases List.mem_cons.mp hmem with rfl | hs
        · exact hle
        · exact absurd hlt (hj s hs).asymm
      · intro k hk hk'
        rcases List.mem_cons.mp hk with rfl | hk
        · exact hfirst k List.mem_cons_self hk'.tail
        · rcases List.mem_cons.mp hk with rfl | hk
          · -- an unbeaten element that does not beat `i` leaves `i` unbeaten
            have hi' : Unbeaten tol err is i := by
              intro l hl _
              exact hle.trans ((htol _).trans (hk'.tail l hl (hj l hl)))
            exact (hfirst i List.mem_cons_self hi').trans hij.le
          · exact hfirst k (List.mem_cons_of_mem i hk) hk'.tail

/-- **The criterion is met if it can be**: the selected element is within the tolerance of all the
elements `all`, if and only if some element that no later one beats is. Where none is, two goals of
the pass contradict each other, and it does not give up the order. -/
theorem select_within_iff [LinearOrder ι] {i : ι} {is : List ι}
    (hsorted : (i :: is).Pairwise (· < ·)) (all : ι → Prop) :
    (∀ j, all j → err (select tol err i is) ≤ tol (err j)) ↔
      ∃ k ∈ i :: is, Unbeaten tol err is k ∧ ∀ j, all j → err k ≤ tol (err j) := by
  obtain ⟨hmem, hunbeaten, hfirst⟩ : select tol err i is ∈ i :: is ∧
      Unbeaten tol err is (select tol err i is) ∧ _ := select_spec err htotal htol hsorted
  refine ⟨?_, ?_⟩
  · intro hwithin
    exact ⟨_, hmem, hunbeaten, hwithin⟩
  · rintro ⟨k, hk, hk', hwithin⟩
    rcases (hfirst k hk hk').eq_or_lt with heq | hlt
    · rwa [heq]
    · intro j hj
      -- it is not beaten by `k`
      have hkmem : k ∈ is := by
        rcases List.mem_cons.mp hk with rfl | hkmem
        · rcases List.mem_cons.mp hmem with heq | hs
          · exact absurd heq hlt.ne
          · exact absurd hlt ((List.pairwise_cons.mp hsorted).1 _ hs).asymm
        · exact hkmem
      exact ((htol _).trans (hunbeaten k hkmem hlt)).trans (hwithin j hj)

/-- **The tolerance compounds** at most once for each later element: an element that is replaced is
beaten by the tolerance of its error only, and the next one can be beaten in the same way again. -/
theorem select_le_iterate (hmono : Monotone tol) (i : ι) (is : List ι) :
    ∀ k ∈ i :: is, err (select tol err i is) ≤ tol^[is.length] (err k) := by
  induction is generalizing i with
  | nil =>
    intro k hk
    exact (congrArg err (List.mem_singleton.mp hk)).ge
  | cons j is ih =>
    have hgrow : ∀ x, tol^[is.length] x ≤ tol^[is.length + 1] x := by
      intro x
      rw [Function.iterate_succ_apply]
      exact hmono.iterate _ (htol x)
    rw [select, List.foldl_cons, List.length_cons]
    split
    · next hbeats =>
      intro k hk
      rcases List.mem_cons.mp hk with rfl | hk
      · -- the tolerance was used once
        apply (ih j j List.mem_cons_self).trans
        rw [Function.iterate_succ_apply]
        exact hmono.iterate _ hbeats.le
      · exact (ih j k hk).trans (hgrow _)
    · next hkeeps =>
      intro k hk
      rcases List.mem_cons.mp hk with rfl | hk
      · exact (ih k k List.mem_cons_self).trans (hgrow _)
      · rcases List.mem_cons.mp hk with rfl | hk
        · have hle : err i ≤ err k := (htol _).trans (htotal _ _ hkeeps)
          exact (ih i i List.mem_cons_self).trans ((hmono.iterate _ hle).trans (hgrow _))
        · exact (ih i k (List.mem_cons_of_mem i hk)).trans (hgrow _)

end Pass

/-- **Without a tolerance** the first of the smallest errors is selected. That it is smallest is the
general bound with the identity as the tolerance; an earlier one as small would be unbeaten, and so
not passed over. -/
theorem select_id_first {β : Type} [LinearOrder ι] [LinearOrder β] (err : ι → β) {i : ι}
    {is : List ι} (hsorted : (i :: is).Pairwise (· < ·)) :
    select id err i is ∈ i :: is ∧ ∀ j ∈ i :: is, err (select id err i is) ≤ err j ∧
      (j < select id err i is → err (select id err i is) < err j) := by
  have htotal : ∀ x y : β, ¬ x < y → y ≤ x := fun x y => not_lt.mp
  have htol : ∀ x : β, x ≤ id x := fun x => le_refl x
  obtain ⟨hmem, -, hfirst⟩ := select_spec err htotal htol hsorted
  have hleast : ∀ j ∈ i :: is, err (select id err i is) ≤ err j := by
    intro j hj
    have hle := select_le_iterate err htotal htol monotone_id i is j hj
    rwa [Function.iterate_id, id] at hle
  refine ⟨hmem, ?_⟩
  intro j hj
  refine ⟨hleast j hj, ?_⟩
  intro hlt
  apply lt_of_le_of_ne (hleast j hj)
  intro heq
  -- an earlier element with the smallest error is unbeaten
  have hunbeaten : Unbeaten id err is j := by
    intro k hk _
    exact heq.ge.trans (hleast k (List.mem_cons_of_mem i hk))
  exact absurd hlt (not_lt.mpr (hfirst j hj hunbeaten))

end Selection
