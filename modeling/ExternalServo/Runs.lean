import Mathlib.Data.List.Basic

/-!
# Runs of a step function that may fault

A system is a step function `σ → ι → Except ε σ`; a run over a list of inputs is
`List.foldlM`, which stops at the first fault. The rules:

* `run_inv` — what every step preserves, the end of every run has;
* `Always` — a property of every step of a run (the state before it and its input),
  with the invariant rules `Always.of_inv` and `always_congr_of_inv` and the reading
  `always_iff_forall_prefix`;
* `run_fold` — a run refines a fold of a function that cannot fault; `run_ghost` — a run
  next to the fold of what it was given;
* `Related.run` — two runs over the same inputs stay related (simulation, and with a
  relation between states of one system, noninterference);
* `history` — what is seen of a run of a system that cannot fault, with the rule `each_history`
  for a property of every observation and those before it (`Each`).
-/

namespace Runs

variable {σ τ ι ε α : Type}

/-- The result of a run that succeeds. -/
theorem mem_toOption {x : Except ε σ} {s : σ} : s ∈ x.toOption ↔ x = .ok s := by
  cases x with
  | error e => simp [Except.toOption]
  | ok s' => simp [Except.toOption]

/-- The empty run ends where it starts. -/
theorem run_nil_eq_ok {step : σ → ι → Except ε σ} {s s' : σ} :
    [].foldlM step s = .ok s' ↔ s = s' := by
  rw [List.foldlM_nil]
  exact Except.ok.injEq s s' ▸ Iff.rfl

/-- A run of at least one step, by its first step. -/
theorem run_cons_eq_ok {step : σ → ι → Except ε σ} {s s' : σ} {i : ι} {is : List ι} :
    (i :: is).foldlM step s = .ok s' ↔ ∃ s₁, step s i = .ok s₁ ∧ is.foldlM step s₁ = .ok s' := by
  rw [List.foldlM_cons]
  cases hs : step s i with
  | error e => simp [bind, Except.bind]
  | ok s₁ => simp [bind, Except.bind]

/-- **Progress.** If every step from the invariant succeeds and keeps it, for an input that is `ok`,
every run over such inputs succeeds and keeps it. The invariant is what a step needs in order not to
fault; that it is kept makes it available to the next one. -/
theorem run_ok_of_inv {step : σ → ι → Except ε σ} {Inv : σ → Prop} {ok : ι → Prop}
    (hstep : ∀ s i, Inv s → ok i → ∃ s', step s i = .ok s' ∧ Inv s') {s : σ} (hs : Inv s)
    {is : List ι} (hok : ∀ i ∈ is, ok i) : ∃ s', is.foldlM step s = .ok s' ∧ Inv s' := by
  induction is generalizing s with
  | nil => exact ⟨s, rfl, hs⟩
  | cons i is ih =>
    obtain ⟨hi, his⟩ := List.forall_mem_cons.mp hok
    obtain ⟨s₁, h₁, hs₁⟩ := hstep s i hs hi
    obtain ⟨s', hrun, hs'⟩ := ih hs₁ his
    exact ⟨s', run_cons_eq_ok.mpr ⟨s₁, h₁, hrun⟩, hs'⟩

/-- **A run refines a fold.** If every step from related values succeeds and stays related to the
fold of the input, every run does. The fold is the abstract machine: a function of what it was
given, with no fault to reach and no state but its own. -/
theorem run_fold {step : σ → ι → Except ε σ} {fold : τ → ι → τ} {R : σ → τ → Prop}
    (hstep : ∀ s t i, R s t → ∃ s', step s i = .ok s' ∧ R s' (fold t i)) {s : σ} {t : τ}
    (hst : R s t) (is : List ι) : ∃ s', is.foldlM step s = .ok s' ∧ R s' (is.foldl fold t) := by
  induction is generalizing s t with
  | nil => exact ⟨s, rfl, hst⟩
  | cons i is ih =>
    obtain ⟨s₁, h₁, hst₁⟩ := hstep s t i hst
    obtain ⟨s', hrun, hst'⟩ := ih hst₁
    exact ⟨s', run_cons_eq_ok.mpr ⟨s₁, h₁, hrun⟩, hst'⟩

/-- A relation to a fold of the inputs that every successful step keeps holds at the end of the
run: the fold is a ghost of what has happened. -/
theorem run_ghost {step : σ → ι → Except ε σ} {fold : τ → ι → τ} {R : σ → τ → Prop}
    (hstep : ∀ s t i s', R s t → step s i = .ok s' → R s' (fold t i)) {s s' : σ} {t : τ}
    (hst : R s t) {is : List ι} (hrun : is.foldlM step s = .ok s') : R s' (is.foldl fold t) := by
  induction is generalizing s t with
  | nil =>
    obtain rfl := run_nil_eq_ok.mp hrun
    exact hst
  | cons i is ih =>
    obtain ⟨s₁, h₁, hrun⟩ := run_cons_eq_ok.mp hrun
    exact ih (hstep s t i s₁ hst h₁) hrun

/-! ## A property of every step -/

/-- `P` holds at every step of the run from `s` over the inputs: of the state before the step and
the input. After a fault there are no further steps, so that `Always` says nothing about whether the
run gets to its end; `run_ok_of_inv` does. -/
def Always (step : σ → ι → Except ε σ) (P : σ → ι → Prop) : σ → List ι → Prop
  | _, [] => True
  | s, i :: is => P s i ∧ ∀ s', step s i = .ok s' → Always step P s' is

section Always

variable {step : σ → ι → Except ε σ} {P Q : σ → ι → Prop}

/-- A run is checked by running it. -/
instance Always.decidable [∀ s i, Decidable (P s i)] :
    (s : σ) → (is : List ι) → Decidable (Always step P s is)
  | _, [] => isTrue trivial
  | s, i :: is =>
    match hs : step s i with
    | .ok s' =>
      have := Always.decidable s' is
      decidable_of_iff (P s i ∧ Always step P s' is) <| and_congr_right fun _ =>
        ⟨fun h _ heq => Except.ok.inj (hs.symm.trans heq) ▸ h, fun h => h s' hs⟩
    | .error _ =>
      decidable_of_iff (P s i) ⟨fun h => ⟨h, fun _ heq => nomatch hs.symm.trans heq⟩, And.left⟩

theorem Always.imp (h : ∀ s i, P s i → Q s i) {s : σ} {is : List ι}
    (hP : Always step P s is) : Always step Q s is := by
  induction is generalizing s with
  | nil => exact trivial
  | cons i is ih =>
    obtain ⟨hi, his⟩ := hP
    refine ⟨h s i hi, ?_⟩
    intro s' hs'
    exact ih (his s' hs')

theorem Always.and {s : σ} {is : List ι} (hP : Always step P s is) (hQ : Always step Q s is) :
    Always step (fun s i => P s i ∧ Q s i) s is := by
  induction is generalizing s with
  | nil => exact trivial
  | cons i is ih =>
    refine ⟨⟨hP.1, hQ.1⟩, ?_⟩
    intro s' hs'
    exact ih (hP.2 s' hs') (hQ.2 s' hs')

theorem always_congr (h : ∀ s i, P s i ↔ Q s i) {s : σ} {is : List ι} :
    Always step P s is ↔ Always step Q s is := by
  refine ⟨?_, ?_⟩
  · apply Always.imp
    intro s i
    exact (h s i).mp
  · apply Always.imp
    intro s i
    exact (h s i).mpr

/-- A run whose first step succeeds. -/
theorem always_cons_of_ok {s s₁ : σ} {i : ι} {is : List ι} (h : step s i = .ok s₁) :
    Always step P s (i :: is) ↔ P s i ∧ Always step P s₁ is := by
  refine ⟨?_, ?_⟩
  · rintro ⟨hi, his⟩
    exact ⟨hi, his s₁ h⟩
  · rintro ⟨hi, his⟩
    refine ⟨hi, ?_⟩
    intro s' hs'
    obtain rfl := Except.ok.inj (h.symm.trans hs')
    exact his

/-- What holds at every step from any state holds along every run. -/
theorem always_of_forall (h : ∀ s i, P s i) (s : σ) (is : List ι) : Always step P s is := by
  induction is generalizing s with
  | nil => exact trivial
  | cons i is ih =>
    refine ⟨h s i, ?_⟩
    intro s' _
    exact ih s'

/-- A property of the inputs alone. -/
theorem always_of_mem {ok : ι → Prop} {is : List ι} (h : ∀ i ∈ is, ok i) (s : σ) :
    Always step (fun _ i => ok i) s is := by
  induction is generalizing s with
  | nil => exact trivial
  | cons i is ih =>
    obtain ⟨hi, his⟩ := List.forall_mem_cons.mp h
    refine ⟨hi, ?_⟩
    intro s' _
    exact ih his s'

/-- **The invariant rule.** An invariant that every step with `P` preserves turns a run of steps
with `P` into a run of steps with `Q`, if `Q` is what `P` says in a state with the invariant. The
assumptions of a theorem about runs go into `P`, and its conclusion is `Q`. -/
theorem Always.of_inv {Inv : σ → Prop}
    (hstep : ∀ s i s', Inv s → P s i → step s i = .ok s' → Inv s')
    (hQ : ∀ s i, Inv s → P s i → Q s i) {s : σ} {is : List ι} (hs : Inv s)
    (hP : Always step P s is) : Always step Q s is := by
  induction is generalizing s with
  | nil => exact trivial
  | cons i is ih =>
    obtain ⟨hi, his⟩ := hP
    refine ⟨hQ s i hs hi, ?_⟩
    intro s' hs'
    exact ih (hstep s i s' hs hi hs') (his s' hs')

/-- Properties that agree under an invariant, which steps with one of them preserve. -/
theorem always_congr_of_inv {Inv : σ → Prop}
    (hstep : ∀ s i s', Inv s → P s i → step s i = .ok s' → Inv s')
    (hPQ : ∀ s i, Inv s → (P s i ↔ Q s i)) {s : σ} {is : List ι} (hs : Inv s) :
    Always step P s is ↔ Always step Q s is := by
  refine ⟨?_, ?_⟩
  · apply Always.of_inv hstep _ hs
    intro s i hinv hP
    exact (hPQ s i hinv).mp hP
  · apply Always.of_inv _ _ hs
    · intro s i s' hinv hQ hok
      exact hstep s i s' hinv ((hPQ s i hinv).mpr hQ) hok
    · intro s i hinv hQ
      exact (hPQ s i hinv).mpr hQ

/-- The invariant at the end of a run. -/
theorem run_inv {Inv : σ → Prop}
    (hstep : ∀ s i s', Inv s → P s i → step s i = .ok s' → Inv s')
    {s s' : σ} {is : List ι} (hs : Inv s) (hP : Always step P s is)
    (hrun : is.foldlM step s = .ok s') : Inv s' := by
  induction is generalizing s with
  | nil =>
    obtain rfl := run_nil_eq_ok.mp hrun
    exact hs
  | cons i is ih =>
    obtain ⟨hi, his⟩ := hP
    obtain ⟨s₁, h₁, hrun⟩ := run_cons_eq_ok.mp hrun
    exact ih (hstep s i s₁ hs hi h₁) (his s₁ h₁) hrun

/-- A property of every step, read at the step after any prefix of the run. -/
theorem always_iff_forall_prefix {s : σ} {is : List ι} :
    Always step P s is ↔
      ∀ pre i post s', is = pre ++ i :: post → pre.foldlM step s = .ok s' → P s' i := by
  induction is generalizing s with
  | nil => simp [Always]
  | cons j js ih =>
    refine ⟨?_, ?_⟩
    · rintro ⟨hj, hjs⟩ pre i post s' heq hrun
      cases pre with
      | nil =>
        obtain ⟨rfl, rfl⟩ := List.cons_eq_cons.mp heq
        obtain rfl := run_nil_eq_ok.mp hrun
        exact hj
      | cons k pre =>
        obtain ⟨rfl, rfl⟩ := List.cons_eq_cons.mp heq
        obtain ⟨s₁, h₁, hrun⟩ := run_cons_eq_ok.mp hrun
        exact ih.mp (hjs s₁ h₁) pre i post s' rfl hrun
    · intro h
      refine ⟨h [] j js s rfl rfl, ?_⟩
      intro s₁ h₁
      rw [ih]
      intro pre i post s' heq hrun
      have hprefix : j :: js = (j :: pre) ++ i :: post := by rw [heq, List.cons_append]
      exact h (j :: pre) i post s' hprefix (run_cons_eq_ok.mpr ⟨s₁, h₁, hrun⟩)

end Always

/-! ## Two runs -/

/-- Results related by `R`: both faulted in the same way, or both went on to related states. A fault
on one side only is not related to anything, which makes a simulation between two runs one of their
faults as well. -/
def Related (R : σ → τ → Prop) : Except ε σ → Except ε τ → Prop
  | .ok s, .ok t => R s t
  | .error e, .error e' => e = e'
  | _, _ => False

/-- Runs over the same inputs from related states stay related, if steps do. -/
theorem Related.run {R : σ → τ → Prop} {stepS : σ → ι → Except ε σ} {stepT : τ → ι → Except ε τ}
    {ok : ι → Prop}
    (hstep : ∀ s t i, R s t → ok i → Related R (stepS s i) (stepT t i))
    {s : σ} {t : τ} {is : List ι} (hst : R s t) (hok : ∀ i ∈ is, ok i) :
    Related R (is.foldlM stepS s) (is.foldlM stepT t) := by
  induction is generalizing s t with
  | nil => exact hst
  | cons i is ih =>
    have hrel := hstep s t i hst (hok i List.mem_cons_self)
    rw [List.foldlM_cons, List.foldlM_cons]
    cases hs : stepS s i with
    | error e =>
      cases ht : stepT t i with
      | error e' =>
        rw [hs, ht] at hrel
        exact hrel
      | ok t' =>
        rw [hs, ht] at hrel
        exact hrel.elim
    | ok s' =>
      cases ht : stepT t i with
      | error e' =>
        rw [hs, ht] at hrel
        exact hrel.elim
      | ok t' =>
        rw [hs, ht] at hrel
        refine ih hrel ?_
        intro j hj
        exact hok j (List.mem_cons_of_mem _ hj)

/-- What is done with related results. -/
theorem Related.bind {σ' τ' : Type} {R : σ → τ → Prop} {R' : σ' → τ' → Prop} {x : Except ε σ}
    {y : Except ε τ} {f : σ → Except ε σ'} {g : τ → Except ε τ'} (h : Related R x y)
    (hfg : ∀ s t, R s t → Related R' (f s) (g t)) : Related R' (x >>= f) (y >>= g) := by
  cases x with
  | error e =>
    cases y with
    | error e' => exact h
    | ok t => exact h.elim
  | ok s =>
    cases y with
    | error e' => exact h.elim
    | ok t => exact hfg s t h

theorem Related.imp {R R' : σ → τ → Prop} {x : Except ε σ} {y : Except ε τ} (h : Related R x y)
    (hR : ∀ s t, R s t → R' s t) : Related R' x y := by
  cases x with
  | error e =>
    cases y with
    | error e' => exact h
    | ok t => exact h.elim
  | ok s =>
    cases y with
    | error e' => exact h.elim
    | ok t => exact hR s t h

theorem Related.and_ok {R : σ → τ → Prop} {x : Except ε σ} {y : Except ε τ}
    (h : Related R x y) : Related (fun s t => x = .ok s ∧ R s t) x y := by
  cases x with
  | error e =>
    cases y with
    | error e' => exact h
    | ok t => exact h.elim
  | ok s =>
    cases y with
    | error e' => exact h.elim
    | ok t => exact ⟨rfl, h⟩

/-- The same, where a property of the first run is needed on the way. -/
theorem Related.run_always {R : σ → τ → Prop} {stepS : σ → ι → Except ε σ}
    {stepT : τ → ι → Except ε τ} {P : σ → ι → Prop}
    (hstep : ∀ s t i, R s t → P s i → Related R (stepS s i) (stepT t i))
    {s : σ} {t : τ} {is : List ι} (hst : R s t) (hP : Always stepS P s is) :
    Related R (is.foldlM stepS s) (is.foldlM stepT t) := by
  induction is generalizing s t with
  | nil => exact hst
  | cons i is ih =>
    obtain ⟨hi, his⟩ := hP
    rw [List.foldlM_cons, List.foldlM_cons]
    refine (hstep s t i hst hi).and_ok.bind ?_
    rintro s' t' ⟨hs, hst'⟩
    exact ih hst' (his s' hs)

/-- What related results agree in. -/
theorem Related.map_eq {R : σ → τ → Prop} {x : Except ε σ} {y : Except ε τ} {f : σ → α}
    {g : τ → α} (h : Related R x y) (hfg : ∀ s t, R s t → f s = g t) : x.map f = y.map g := by
  cases x with
  | error e =>
    cases y with
    | error e' => exact congrArg Except.error h
    | ok t => exact h.elim
  | ok s =>
    cases y with
    | error e' => exact h.elim
    | ok t => exact congrArg Except.ok (hfg s t h)

/-- A run, seen through an abstraction: each input is one of the abstract system, or none. -/
theorem run_filterMap {κ : Type*} {step : σ → ι → Except ε σ} {step' : τ → κ → Except ε τ}
    {abs : σ → τ} {input : ι → Option κ} {ok : ι → Prop}
    (hstep : ∀ s {i}, ok i →
      (step s i).map abs = (input i).elim (.ok (abs s)) (step' (abs s)))
    (s : σ) {is : List ι} (hok : ∀ i ∈ is, ok i) :
    (is.foldlM step s).map abs = (is.filterMap input).foldlM step' (abs s) := by
  induction is generalizing s with
  | nil => rfl
  | cons i is ih =>
    obtain ⟨hi, hok⟩ := List.forall_mem_cons.mp hok
    have hfirst := hstep s hi
    rw [List.foldlM_cons]
    cases hinput : input i with
    | none =>
      rw [hinput] at hfirst
      rw [List.filterMap_cons_none hinput]
      cases hs : step s i with
      | error e => simp [hs, Except.map] at hfirst
      | ok s' =>
        have habs : abs s' = abs s := by simpa [hs, Except.map] using hfirst
        rw [← habs]
        exact ih s' hok
    | some k =>
      rw [hinput] at hfirst
      rw [List.filterMap_cons_some hinput, List.foldlM_cons]
      change _ = step' (abs s) k at hfirst
      rw [← hfirst]
      cases hs : step s i with
      | error e => rfl
      | ok s' => exact ih s' hok

/-! ## Histories -/

/-- What is seen of a run of a system that cannot fault: one observation a step, in order. A step
decides itself what can be seen of it, so that a property of the observations is independent of the
state that is not shown. -/
def history (step : σ → ι → σ × α) : σ → List ι → List α
  | _, [] => []
  | s, i :: is => (step s i).2 :: history step (step s i).1 is

/-- Every observation has the property, given those before it, the first of which comes first. This
is how a property of a whole history is stated about each of its points. -/
def Each (P : List α → α → Prop) (seen : List α) : Prop :=
  ∀ past a future, seen = past ++ a :: future → P past a

section Each

variable {P Q : List α → α → Prop} {seen : List α}

theorem each_nil : Each P [] := by
  rintro past a future h
  simp at h

/-- A history with one more observation. -/
theorem each_concat {a : α} : Each P (seen ++ [a]) ↔ Each P seen ∧ P seen a := by
  refine ⟨?_, ?_⟩
  · intro h
    refine ⟨?_, h seen a [] rfl⟩
    rintro past b future rfl
    exact h past b (future ++ [a]) (by simp)
  · rintro ⟨hseen, ha⟩ past b future h
    rcases List.eq_nil_or_concat future with rfl | ⟨future, c, rfl⟩
    · obtain ⟨rfl, hb⟩ := List.append_inj' h rfl
      obtain rfl := List.singleton_inj.mp hb
      exact ha
    · -- the observation is an older one
      have hconcat : seen ++ [a] = (past ++ b :: future) ++ [c] := by simpa using h
      exact hseen past b future (List.append_inj' hconcat rfl).1

/-- The older part of a history. -/
theorem Each.of_append {past future : List α} (h : Each P (past ++ future)) : Each P past := by
  rintro older a newer rfl
  exact h older a (newer ++ future) (by simp)

/-- What a property of an observation and of all before it gives. -/
theorem Each.imp (hPQ : ∀ past a, Each P past → P past a → Q past a) (h : Each P seen) :
    Each Q seen := by
  rintro past a future rfl
  have hpast : Each P ((past ++ [a]) ++ future) := by rwa [List.append_assoc]
  obtain ⟨hpast, ha⟩ := each_concat.mp hpast.of_append
  exact hPQ past a hpast ha

/-- **The history rule.** A relation between the state and what was seen so far, which every step on
an input that is `ok` keeps, and from which its observation has the property, gives the property of
every observation. The relation is what the state remembers of the history. -/
theorem each_history {step : σ → ι → σ × α} {R : σ → List α → Prop} {ok : ι → Prop}
    (hstep : ∀ s past i, R s past → ok i →
      P past (step s i).2 ∧ R (step s i).1 (past ++ [(step s i).2]))
    {s : σ} (hs : R s []) {is : List ι} (hok : ∀ i ∈ is, ok i) : Each P (history step s is) := by
  have hrest : ∀ past, Each P past → R s past → Each P (past ++ history step s is) := by
    clear hs
    induction is generalizing s with
    | nil =>
      intro past hpast _
      rwa [history, List.append_nil]
    | cons i is ih =>
      intro past hpast hs
      obtain ⟨hi, his⟩ := List.forall_mem_cons.mp hok
      obtain ⟨hseen, hs'⟩ := hstep s past i hs hi
      have hnext := ih his _ (each_concat.mpr ⟨hpast, hseen⟩) hs'
      rwa [List.append_assoc] at hnext
  exact hrest [] each_nil hs

end Each

end Runs
