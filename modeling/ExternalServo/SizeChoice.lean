import ExternalServo.Linreg
import ExternalServo.Magnitudes
import ExternalServo.Selection
import Mathlib.Data.Fin.VecNotation
import Mathlib.Order.Fin.Basic

/-!
# The choice of the window

`update_size` goes over the sizes once. It begins with the smallest one that has a slope, and goes
on to every larger one with a known error below `ERR_EQUALS` times the error it has. It takes the
ratio of the error of the size it has, not of the smallest error, so that ratios compound.

`updateSize_chosen` says what it chooses, over any arithmetic with ordered magnitudes: the smallest
size that no larger one is considered equal to or better. That size has nearly the smallest error
whenever any such size has.
-/

namespace ExternalServo

open CArith Selection

section Choice

variable {D : Type} [CDouble D]

/-- The prediction error of a size is known: it was averaged over enough samples. Only these sizes
are compared by their errors. -/
def Candidate (s : LinregServo D) (k : SizeIndex) : Prop :=
  ERR_INITIAL_UPDATES ≤ (s.results k).errUpdates

/-- The smallest size with a slope. The loop takes it without a comparison, and then compares the
others with what it has. -/
def InitialPick (s : LinregServo D) (k : SizeIndex) : Prop :=
  CDouble.truthy (s.results k).slope = true ∧
    ∀ j < k, CDouble.truthy (s.results j).slope = false

/-- No error is negative. -/
def ErrorsMagnitudes (s : LinregServo D) : Prop := ∀ k, IsMagnitude (s.results k).err

/-- The error of the size is at most `ERR_EQUALS` times that of any candidate, and so of the
smallest one. Products and comparisons are those of the language. -/
def NearSmallest (s : LinregServo D) (k : SizeIndex) : Prop :=
  ∀ j, Candidate s j →
    CDouble.lt ((s.results j).err * CDouble.lit ERR_EQUALS) (s.results k).err = false

/-- No larger candidate has an error below `ERR_EQUALS` times that of the size. -/
def NoneLarger (s : LinregServo D) (k : SizeIndex) : Prop :=
  ∀ j, k < j → Candidate s j →
    CDouble.lt (s.results j).err ((s.results k).err * CDouble.lit ERR_EQUALS) = false

instance (s : LinregServo D) (k : SizeIndex) : Decidable (Candidate s k) :=
  inferInstanceAs (Decidable (_ ≤ _))

instance (s : LinregServo D) (k : SizeIndex) : Decidable (InitialPick s k) :=
  inferInstanceAs (Decidable (_ ∧ _))

instance (s : LinregServo D) : Decidable (ErrorsMagnitudes s) :=
  inferInstanceAs (Decidable (∀ _, _))

instance (s : LinregServo D) (k : SizeIndex) : Decidable (NearSmallest s k) :=
  inferInstanceAs (Decidable (∀ _, _))

instance (s : LinregServo D) (k : SizeIndex) : Decidable (NoneLarger s k) :=
  inferInstanceAs (Decidable (∀ _, _))

/-- All sizes, in the order of the loop. -/
def sizes : List SizeIndex := List.finRange (MAX_SIZE - MIN_SIZE + 1)

/-- The candidates among the sizes larger than the initial pick. -/
def laterCandidates (s : LinregServo D) (first : SizeIndex) : List SizeIndex :=
  (sizes.filter (first < ·)).filter (Candidate s ·)

omit [CDouble D] in
theorem mem_laterCandidates {s : LinregServo D} {first k : SizeIndex} :
    k ∈ laterCandidates s first ↔ first < k ∧ Candidate s k := by
  simp [laterCandidates, sizes, and_comm]

omit [CDouble D] in
/-- What the pass goes over. -/
theorem mem_candidates {s : LinregServo D} {first k : SizeIndex} (hfirst : Candidate s first) :
    k ∈ first :: laterCandidates s first ↔ first ≤ k ∧ Candidate s k := by
  rw [List.mem_cons, mem_laterCandidates]
  refine ⟨?_, ?_⟩
  · rintro (rfl | ⟨hlt, hk⟩)
    · exact ⟨le_refl k, hfirst⟩
    · exact ⟨hlt.le, hk⟩
  · rintro ⟨hle, hk⟩
    rcases hle.eq_or_lt with rfl | hlt
    · exact .inl rfl
    · exact .inr ⟨hlt, hk⟩

omit [CDouble D] in
theorem candidates_sorted (s : LinregServo D) (first : SizeIndex) :
    (first :: laterCandidates s first).Pairwise (· < ·) := by
  apply List.pairwise_cons.mpr
  refine ⟨?_, ?_⟩
  · intro k hk
    exact (mem_laterCandidates.mp hk).1
  · exact ((List.pairwise_lt_finRange _).filter _).filter _

omit [CDouble D] in
/-- At most four sizes are larger. -/
theorem length_laterCandidates (s : LinregServo D) (first : SizeIndex) :
    (laterCandidates s first).length ≤ 4 := by
  have hlarger : ∀ first : SizeIndex, (sizes.filter (first < ·)).length ≤ 4 := by decide
  exact (List.length_filter_le _ _).trans (hlarger first)

/-- The sizes, around one of them. -/
theorem sizes_split (first : SizeIndex) :
    sizes = sizes.filter (· < first) ++ first :: sizes.filter (first < ·) := by
  revert first
  decide

end Choice

section Pass

variable {D : Type} [CDouble D] [OrderedCDouble D] {s : LinregServo D}

theorem one_le_errEquals : 1 ≤ ERR_EQUALS := by
  rw [ERR_EQUALS]
  norm_num

theorem errEquals_le_two : ERR_EQUALS ≤ 2 := by
  rw [ERR_EQUALS]
  norm_num

/-- The tolerance of an error. -/
def tolerance (x : Magnitude D) : Magnitude D := x.scale one_le_errEquals errEquals_le_two

theorem le_tolerance (x : Magnitude D) : x ≤ tolerance x :=
  Magnitude.le_scale one_le_errEquals errEquals_le_two x

theorem tolerance_mono : Monotone (tolerance (D := D)) :=
  Magnitude.scale_mono one_le_errEquals errEquals_le_two

/-- The error of a size. -/
def errOf (h : ErrorsMagnitudes s) (k : SizeIndex) : Magnitude D := ⟨(s.results k).err, h k⟩

/-- The body of the loop of `update_size`. -/
def passStep (s : LinregServo D) (best : Option SizeIndex × D) (k : SizeIndex) :
    Option SizeIndex × D :=
  if betterSize best.1 best.2 (s.results k) then (some k, (s.results k).err) else best

omit [OrderedCDouble D] in
theorem updateSize_size_eq (s : LinregServo D) :
    (updateSize s).size = (sizes.foldl (passStep s) (none, CDouble.lit 0)).1 := by
  have hstep : passStep s = fun best k =>
      if betterSize best.1 best.2 (s.results k) then (some k, (s.results k).err) else best := rfl
  rw [updateSize, hstep, sizes]

/-- Before the initial pick nothing is chosen: an error is not below zero. -/
theorem foldl_none (h : ErrorsMagnitudes s) {ks : List SizeIndex}
    (hks : ∀ k ∈ ks, CDouble.truthy (s.results k).slope = false) :
    ks.foldl (passStep s) (none, CDouble.lit 0) = (none, CDouble.lit 0) := by
  induction ks with
  | nil => rfl
  | cons k ks ih =>
    obtain ⟨hk, hks⟩ := List.forall_mem_cons.mp hks
    have hzero : CDouble.lt (s.results k).err (CDouble.lit 0 * CDouble.lit ERR_EQUALS) = false :=
      OrderedCDouble.not_lt_trans _ _ _ (LawfulCDouble.eq_lit 0)
        (OrderedCDouble.zero_mul_not_lt _ one_le_errEquals errEquals_le_two) (h k).2
    have hstep : passStep s (none, CDouble.lit 0) k = (none, CDouble.lit 0) := by
      simp [passStep, betterSize, hk, hzero]
    rw [List.foldl_cons, hstep]
    exact ih hks

/-- A size is replaced by a candidate with an error below its tolerance. -/
theorem passStep_some (h : ErrorsMagnitudes s) (k j : SizeIndex) :
    passStep s (some k, (s.results k).err) j =
      if Candidate s j ∧ errOf h j < tolerance (errOf h k) then (some j, (s.results j).err)
      else (some k, (s.results k).err) := by
  have hbetter : betterSize (some k) (s.results k).err (s.results j) = true ↔
      Candidate s j ∧ errOf h j < tolerance (errOf h k) := by
    simp only [betterSize, Option.isNone_some, Bool.false_and, Bool.false_or, Bool.and_eq_true,
      decide_eq_true_iff]
    exact and_comm
  simp only [passStep, hbetter]

/-- **After it** the pass is a selection among the candidates: sizes that are no candidates change
nothing, and a candidate is taken if the error of the best one, with its tolerance, is above its
own. -/
theorem foldl_some (h : ErrorsMagnitudes s) (k : SizeIndex) (ks : List SizeIndex) :
    (ks.foldl (passStep s) (some k, (s.results k).err)).1 =
      some (select tolerance (errOf h) k (ks.filter (Candidate s ·))) := by
  induction ks generalizing k with
  | nil => rfl
  | cons j ks ih =>
    rw [List.foldl_cons, passStep_some h]
    by_cases hj : Candidate s j
    · rw [List.filter_cons_of_pos (by simpa using hj), select, List.foldl_cons]
      by_cases hlt : errOf h j < tolerance (errOf h k)
      · rw [if_pos ⟨hj, hlt⟩, if_pos hlt]
        exact ih j
      · rw [if_neg fun hboth => hlt hboth.2, if_neg hlt]
        exact ih k
    · rw [if_neg fun hboth => hj hboth.1, List.filter_cons_of_neg (by simpa using hj)]
      exact ih k

/-- **`update_size` is a selection** among the candidates from the initial pick on. What a selection
of this kind finds is known for any order and any tolerance. -/
theorem updateSize_select (h : ErrorsMagnitudes s) {first : SizeIndex}
    (hfirst : InitialPick s first) :
    (updateSize s).size = some (select tolerance (errOf h) first (laterCandidates s first)) := by
  obtain ⟨hslope, hsmaller⟩ := hfirst
  have hpick : passStep s (none, CDouble.lit 0) first = (some first, (s.results first).err) := by
    simp [passStep, betterSize, hslope]
  have hskipped : ∀ k ∈ sizes.filter (· < first), CDouble.truthy (s.results k).slope = false := by
    intro k hk
    exact hsmaller k (of_decide_eq_true (List.mem_filter.mp hk).2)
  rw [updateSize_size_eq, sizes_split first, List.foldl_append, foldl_none h hskipped,
    List.foldl_cons, hpick, foldl_some h, laterCandidates]

/-- What no later candidate beats. -/
theorem unbeaten_iff (h : ErrorsMagnitudes s) {first k : SizeIndex} (hk : first ≤ k) :
    Unbeaten tolerance (errOf h) (laterCandidates s first) k ↔ NoneLarger s k := by
  refine ⟨?_, ?_⟩
  · intro hunbeaten j hlt hj
    exact hunbeaten j (mem_laterCandidates.mpr ⟨hk.trans_lt hlt, hj⟩) hlt
  · intro hnone j hj hlt
    exact hnone j hlt (mem_laterCandidates.mp hj).2

end Pass

section Chosen

variable {D : Type} [CDouble D] [OrderedCDouble D] {s : LinregServo D}

/-- What `update_size` chooses, if the initial pick is a candidate. A choice that is compared with
the last best one only can move away from the smallest error step by step, so the two parts of the
rule can exclude each other. -/
structure Chosen (s : LinregServo D) (first k : SizeIndex) : Prop where
  first_le : first ≤ k
  candidate : Candidate s k
  /-- no larger candidate is considered equal or better -/
  noneLarger : NoneLarger s k
  /-- it is the smallest such candidate from the initial pick on -/
  smallest : ∀ j, first ≤ j → Candidate s j → NoneLarger s j → k ≤ j
  /-- it has nearly the smallest error, if any such candidate has -/
  nearSmallest_iff : NearSmallest s k ↔
    ∃ j, first ≤ j ∧ Candidate s j ∧ NoneLarger s j ∧ NearSmallest s j
  /-- in any case four ratios compound at most -/
  compounds : ∀ j, first ≤ j → Candidate s j →
    CDouble.lt ((s.results j).err * CDouble.lit ERR_EQUALS * CDouble.lit ERR_EQUALS *
      CDouble.lit ERR_EQUALS * CDouble.lit ERR_EQUALS) (s.results k).err = false

/-- **The choice of the window.** The errors are magnitudes in any ordered arithmetic; the laws of
the selection are applied to them with the tolerance of the source. -/
theorem updateSize_chosen (h : ErrorsMagnitudes s) {first : SizeIndex}
    (hpick : InitialPick s first) (hfirst : Candidate s first) :
    ∃ k, (updateSize s).size = some k ∧ Chosen s first k := by
  have hsorted := candidates_sorted s first
  have hspec := select_spec (errOf h) Magnitude.le_of_not_lt le_tolerance hsorted
  have hwithin :=
    select_within_iff (errOf h) Magnitude.le_of_not_lt le_tolerance hsorted (Candidate s)
  have hiterate := select_le_iterate (errOf h) Magnitude.le_of_not_lt le_tolerance tolerance_mono
    first (laterCandidates s first)
  refine ⟨_, updateSize_select h hpick, ?_⟩
  generalize select tolerance (errOf h) first (laterCandidates s first) = k at *
  obtain ⟨hmem, hunbeaten, hleast⟩ := hspec
  obtain ⟨hle, hk⟩ := (mem_candidates hfirst).mp hmem
  exact {
    first_le := hle
    candidate := hk
    noneLarger := (unbeaten_iff h hle).mp hunbeaten
    smallest := by
      intro j hj hcand hnone
      exact hleast j ((mem_candidates hfirst).mpr ⟨hj, hcand⟩) ((unbeaten_iff h hj).mpr hnone)
    nearSmallest_iff := by
      refine ⟨?_, ?_⟩
      · intro hnear
        exact ⟨k, hle, hk, (unbeaten_iff h hle).mp hunbeaten, hnear⟩
      · rintro ⟨j, hj, hcand, hnone, hnear⟩
        exact hwithin.mpr
          ⟨j, (mem_candidates hfirst).mpr ⟨hj, hcand⟩, (unbeaten_iff h hj).mpr hnone, hnear⟩
    compounds := by
      intro j hj hcand
      have hgrow : Monotone fun n => tolerance^[n] (errOf h j) :=
        tolerance_mono.monotone_iterate_of_le_map (le_tolerance _)
      exact (hiterate j ((mem_candidates hfirst).mpr ⟨hj, hcand⟩)).trans
        (hgrow (length_laterCandidates s first))
  }

/-- A servo that has the errors `errs`, each of them known, and slopes of one. -/
def withErrors (errs : SizeIndex → ℚ) : LinregServo XRat :=
  { linregServoCreate .zero with results := fun k => ⟨.fin 1, .fin 0, .fin (errs k), 10⟩ }

/-- Of 100, 90, 200, 93 and 300 the servo chooses 93, which is below 1.05 times 90. -/
theorem updateSize_chosen_93 :
    (updateSize (withErrors ![100, 90, 200, 93, 300])).size = some 3 ∧
      ∃ k, (updateSize (withErrors ![100, 90, 200, 93, 300])).size = some k ∧
        Chosen (withErrors ![100, 90, 200, 93, 300]) 0 k :=
  ⟨by decide +kernel,
    updateSize_chosen (by decide +kernel) (by decide +kernel) (by decide +kernel)⟩

/-- Of 100, 104, 108, 112 and 116 each is considered equal to the one before, and the servo chooses
116. No size at all has nearly the smallest error and none larger that is equal or better. -/
theorem not_nearSmallest_116 :
    let s := withErrors ![100, 104, 108, 112, 116]
    ErrorsMagnitudes s ∧ InitialPick s 0 ∧ Candidate s 0 ∧ (updateSize s).size = some 4 ∧
      ¬ NearSmallest s 4 ∧ ∀ k, ¬ (NearSmallest s k ∧ NoneLarger s k) := by
  decide +kernel

end Chosen

end ExternalServo
