import ExternalServo.Main

/-!
# A missing measurement

A zero timestamp stands for a measurement that has not been made. `Guarded` is what a message
should do about it: compute from measurements only, or refuse and leave the delay as it is. The
two updates look at a part of the timestamps they use: the delay update at the local ones, the
offset update at the down measurement and the local up timestamp. `missing_guarded_iff` is the
exact condition, along any run of messages.
-/

namespace ExternalServo

open CArith Runs

variable {D σ : Type} [CDouble D]

/-! ## Guarded updates -/

/-- No timestamp is missing. -/
def Measured (timestamps : List Tmv) : Prop := ∀ t ∈ timestamps, tmvIsZero t = false

/-- The timestamps that enter a delay. -/
def delayInputs (tsp : Tsproc D) : List Tmv := [tsp.t1, tsp.t2, tsp.t3, tsp.t4]

/-- The timestamps that enter an offset and the raw delay computed with it. With a filtered delay
alone those of a delay message are not needed. -/
def offsetInputs (tsp : Tsproc D) : List Tmv :=
  match tsp.mode with
  | .filter => [tsp.t1, tsp.t2]
  | .raw | .filterWeight | .rawWeight => [tsp.t1, tsp.t2, tsp.t3, tsp.t4]

/-- The delay filter and the filtered delay are the same. -/
structure SameDelay (tsp tsp' : Tsproc D) : Prop where
  delayFilter : tsp'.delayFilter = tsp.delayFilter
  filteredDelay : tsp'.filteredDelay = tsp.filteredDelay
  filteredDelayValid : tsp'.filteredDelayValid = tsp.filteredDelayValid

/-- A message is processed without a missing measurement, or its update returns -1; and where the
update returns -1, the delay stays as it is. So a missing measurement leaves no trace in the delay
filter. -/
def Guarded (ops : ServoOps D σ) (dev : DeviceConfig) (sys : Sys D σ) : Handler → Prop
  | .clockUpdate t1 t2 =>
    let tsp := tsprocDownTs sys.tsp ⟨t1⟩ ⟨t2⟩
    (Measured (offsetInputs tsp) ∨ tsprocUpdateOffset tsp = none) ∧
      (tsprocUpdateOffset tsp = none →
        ∀ sys', clockUpdate ops dev sys t1 t2 = .ok sys' → SameDelay sys.tsp sys'.tsp)
  | .pathDelay t3 t4 =>
    let tsp := tsprocUpTs sys.tsp ⟨t3⟩ ⟨t4⟩
    (Measured (delayInputs tsp) ∨ ∃ tsp', tsprocUpdateDelay tsp = .ok (none, tsp')) ∧
      (∀ tsp', tsprocUpdateDelay tsp = .ok (none, tsp') → SameDelay sys.tsp tsp')

/-- The timestamps that the updates do not look at were measured whenever those that they look at
were. The updates look at both times of the message itself for an offset, and at the local times
alone otherwise. -/
def RemoteMeasured (sys : Sys D σ) : Handler → Prop
  | .clockUpdate t1 t2 =>
    sys.tsp.mode ≠ .filter → t1 ≠ 0 → t2 ≠ 0 → sys.tsp.t3.ns ≠ 0 →
      (sys.tsp.mode = .filterWeight → sys.tsp.filteredDelayValid = true) → sys.tsp.t4.ns ≠ 0
  | .pathDelay t3 t4 => sys.tsp.t2.ns ≠ 0 → t3 ≠ 0 → sys.tsp.t1.ns ≠ 0 ∧ t4 ≠ 0

instance (sys : Sys D σ) : (h : Handler) → Decidable (RemoteMeasured sys h)
  | .clockUpdate _ _ | .pathDelay _ _ => inferInstanceAs (Decidable (_ → _))

theorem tmvIsZero_eq_false {t : Tmv} : tmvIsZero t = false ↔ t.ns ≠ 0 := by
  simp [tmvIsZero]

/-! ## One message -/

section Updates

variable (tsp : Tsproc D)

theorem tsprocUpdateDelay_refused_iff :
    (∃ tsp', tsprocUpdateDelay tsp = .ok (none, tsp')) ↔ tsp.t2.ns = 0 ∨ tsp.t3.ns = 0 := by
  refine ⟨?_, ?_⟩
  · rintro ⟨tsp', h⟩
    rcases tsprocUpdateDelay_eq_ok h with ⟨hzero, -, -⟩ | ⟨-, -, filtered, filter', -, -, hdelay⟩
    · simpa [tmvIsZero] using hzero
    · cases hdelay
  · intro hzero
    exact ⟨tsp, if_pos (by simpa [tmvIsZero] using hzero)⟩

/-- A refused delay update leaves everything as it is. -/
theorem tsprocUpdateDelay_refused {tsp' : Tsproc D}
    (h : tsprocUpdateDelay tsp = .ok (none, tsp')) : tsp' = tsp := by
  rcases tsprocUpdateDelay_eq_ok h with ⟨-, -, heq⟩ | ⟨-, -, filtered, filter', -, -, hdelay⟩
  · exact heq
  · cases hdelay

/-- The delay update misses a missing remote timestamp. -/
theorem delay_guarded_iff :
    (Measured (delayInputs tsp) ∨ ∃ tsp', tsprocUpdateDelay tsp = .ok (none, tsp')) ↔
      (tsp.t2.ns ≠ 0 → tsp.t3.ns ≠ 0 → tsp.t1.ns ≠ 0 ∧ tsp.t4.ns ≠ 0) := by
  rw [tsprocUpdateDelay_refused_iff]
  simp only [Measured, delayInputs, List.forall_mem_cons, tmvIsZero_eq_false]
  refine ⟨?_, ?_⟩
  · rintro (⟨h1, -, -, h4, -⟩ | hzero | hzero) ht2 ht3
    · exact ⟨h1, h4⟩
    · exact absurd hzero ht2
    · exact absurd hzero ht3
  · intro h
    by_cases ht2 : tsp.t2.ns = 0
    · exact .inr (.inl ht2)
    · by_cases ht3 : tsp.t3.ns = 0
      · exact .inr (.inr ht3)
      · obtain ⟨h1, h4⟩ := h ht2 ht3
        refine .inl ⟨h1, ht2, ht3, h4, ?_⟩
        intro t ht
        cases ht

/-- When there is no delay to correct an offset by. -/
theorem offsetDelay_eq_none_iff :
    offsetDelay tsp = none ↔ (tsp.mode ≠ .filter ∧ tsp.t3.ns = 0) ∨
      ((tsp.mode = .filter ∨ tsp.mode = .filterWeight) ∧ tsp.filteredDelayValid = false) := by
  cases hmode : tsp.mode with
  | filter => simp [offsetDelay, hmode]
  | raw | rawWeight => simp [offsetDelay, hmode, tmvIsZero]
  | filterWeight =>
    by_cases h3 : tsp.t3.ns = 0
    · simp [offsetDelay, hmode, tmvIsZero, h3]
    · simp [offsetDelay, hmode, tmvIsZero, h3]

/-- When the offset update is refused. -/
theorem tsprocUpdateOffset_eq_none_iff :
    tsprocUpdateOffset tsp = none ↔
      tsp.t1.ns = 0 ∨ tsp.t2.ns = 0 ∨ (tsp.mode ≠ .filter ∧ tsp.t3.ns = 0) ∨
        ((tsp.mode = .filter ∨ tsp.mode = .filterWeight) ∧ tsp.filteredDelayValid = false) := by
  rw [← offsetDelay_eq_none_iff, tsprocUpdateOffset]
  split
  · next hzero =>
    have hzero' : tsp.t1.ns = 0 ∨ tsp.t2.ns = 0 := by simpa [tmvIsZero] using hzero
    refine iff_of_true rfl ?_
    rcases hzero' with h1 | h2
    · exact .inl h1
    · exact .inr (.inl h2)
  · next hzero =>
    have hzero' : tsp.t1.ns ≠ 0 ∧ tsp.t2.ns ≠ 0 := by simpa [tmvIsZero] using hzero
    obtain ⟨h1, h2⟩ := hzero'
    cases hdelay : offsetDelay tsp with
    | none => simp
    | some r => simp [h1, h2]

/-- The offset update misses a missing remote up timestamp. -/
theorem offset_guarded_iff :
    (Measured (offsetInputs tsp) ∨ tsprocUpdateOffset tsp = none) ↔
      (tsp.mode ≠ .filter → tsp.t1.ns ≠ 0 → tsp.t2.ns ≠ 0 → tsp.t3.ns ≠ 0 →
        (tsp.mode = .filterWeight → tsp.filteredDelayValid = true) → tsp.t4.ns ≠ 0) := by
  rw [tsprocUpdateOffset_eq_none_iff]
  cases hmode : tsp.mode with
  | filter =>
    simp only [Measured, offsetInputs, hmode, List.forall_mem_cons, tmvIsZero_eq_false]
    by_cases h1 : tsp.t1.ns = 0 <;> by_cases h2 : tsp.t2.ns = 0 <;> simp [h1, h2]
  | raw | rawWeight =>
    simp only [Measured, offsetInputs, hmode, List.forall_mem_cons, tmvIsZero_eq_false]
    by_cases h1 : tsp.t1.ns = 0 <;> by_cases h2 : tsp.t2.ns = 0 <;>
      by_cases h3 : tsp.t3.ns = 0 <;> simp [h1, h2, h3]
  | filterWeight =>
    simp only [Measured, offsetInputs, hmode, List.forall_mem_cons, tmvIsZero_eq_false]
    by_cases h1 : tsp.t1.ns = 0 <;> by_cases h2 : tsp.t2.ns = 0 <;>
      by_cases h3 : tsp.t3.ns = 0 <;> cases tsp.filteredDelayValid <;> simp [h1, h2, h3]

end Updates

/-- **One message** is guarded exactly if the timestamps are complete. An update that goes through
found the times that it looks at, so it is guarded if and only if the others are there as well; one
that is refused computes nothing. -/
theorem guarded_iff (ops : ServoOps D σ) (dev : DeviceConfig) (sys : Sys D σ) (h : Handler) :
    Guarded ops dev sys h ↔ RemoteMeasured sys h := by
  cases h with
  | clockUpdate t1 t2 =>
    refine Iff.trans (and_iff_left ?_) (offset_guarded_iff (tsprocDownTs sys.tsp ⟨t1⟩ ⟨t2⟩))
    intro hnone sys' hok
    rw [clockUpdate] at hok
    simp only [hnone] at hok
    obtain rfl := Except.ok.inj hok
    exact ⟨rfl, rfl, rfl⟩
  | pathDelay t3 t4 =>
    refine Iff.trans (and_iff_left ?_) (delay_guarded_iff (tsprocUpTs sys.tsp ⟨t3⟩ ⟨t4⟩))
    intro tsp' hnone
    rw [tsprocUpdateDelay_refused _ hnone]
    exact ⟨rfl, rfl, rfl⟩

/-! ## Every sequence of messages -/

/-- **A missing measurement enters no computation exactly if** no message meets a remote timestamp
that is missing where the local one is there. A zero stands for a missing timestamp, and the updates
compare some of them with it and not all. -/
theorem missing_guarded_iff (ops : ServoOps D σ) (dev : DeviceConfig) (sys : Sys D σ)
    (handlers : List Handler) :
    Always (handle ops dev) (Guarded ops dev) sys handlers ↔
      Always (handle ops dev) RemoteMeasured sys handlers :=
  always_congr (guarded_iff ops dev)

/-- A sync message with an empty origin time, and then a delay message: a delay is computed from
them. -/
theorem not_guarded_emptyOrigin :
    ∃ program ∈ sampleProgram,
      ¬ Always (handle (servoOps powOne) program.device)
        (Guarded (servoOps powOne) program.device) program.sys
        [.clockUpdate 0 1000000000, .pathDelay 1000000100 1000000200] := by
  have h : ∃ program ∈ sampleProgram,
      ¬ Always (handle (servoOps powOne) program.device) RemoteMeasured program.sys
        [.clockUpdate 0 1000000000, .pathDelay 1000000100 1000000200] := by
    decide +kernel
  obtain ⟨program, hprogram, hnot⟩ := h
  refine ⟨program, hprogram, ?_⟩
  intro hguarded
  exact hnot ((always_congr (guarded_iff (servoOps powOne) program.device)).mp hguarded)

end ExternalServo
