import ExternalServo.Main

/-!
# No measurement from before a step of the clock

A step of the clock makes the timestamps taken before it useless; `tsproc_reset` zeroes them,
and a zero field stands for a measurement that has not been made. `Ghost` records what the
processor was told, with the number of resets before it; `Stamps` is what a field that is not
zero means: it belongs to the latest measurement of its direction, and that was received after
the most recent reset.

`noMix` holds for every sequence of calls; `handlers_calls` says that the program only makes
some of them.
-/

namespace ExternalServo

open CArith Runs

variable {D σ : Type} [CDouble D]

/-! ## What was received -/

/-- A measurement in one direction, and the number of resets before it was received. The processor
stores the two timestamps only; the number is what the invariant remembers for it. -/
structure Received where
  remote : Tmv
  localTs : Tmv
  epoch : Nat

/-- What a sequence of calls told the processor. This is no state of the program: it is computed
beside a run, and the theorems compare the fields of the processor with it. -/
structure Ghost where
  /-- resets so far -/
  epoch : Nat
  /-- latest down measurement -/
  down : Option Received
  /-- latest up measurement -/
  up : Option Received

/-- What is known after one more call. -/
def ghostStep (g : Ghost) : TsprocOp D → Ghost
  | .downTs remoteTs localTs => { g with down := some ⟨remoteTs, localTs, g.epoch⟩ }
  | .upTs localTs remoteTs => { g with up := some ⟨remoteTs, localTs, g.epoch⟩ }
  | .reset _ => { g with epoch := g.epoch + 1 }
  | .setClockRateRatio _ | .updateDelay | .updateOffset => g

/-- What a history of calls told the processor. -/
def ghostOf (calls : List (TsprocOp D)) : Ghost := calls.foldl ghostStep ⟨0, none, none⟩

/-- The measurement is the latest one, and was received after the most recent reset. -/
def Ghost.Current (g : Ghost) (latest : Option Received) (m : Received) : Prop :=
  latest = some m ∧ m.epoch = g.epoch

/-- **The invariant**: the fields of a direction are zero, or those of a current measurement. A
reset of either kind zeroes them, so that a measurement from before it cannot be left over. -/
structure Stamps (tsp : Tsproc D) (g : Ghost) : Prop where
  down : (tsp.t1 = tmvZero ∧ tsp.t2 = tmvZero) ∨
    ∃ m, g.Current g.down m ∧ tsp.t1 = m.remote ∧ tsp.t2 = m.localTs
  up : (tsp.t3 = tmvZero ∧ tsp.t4 = tmvZero) ∨
    ∃ m, g.Current g.up m ∧ tsp.t3 = m.localTs ∧ tsp.t4 = m.remote

/-- A call keeps the invariant. A new measurement is current, a reset zeroes both directions, and
the other calls write no timestamp. -/
theorem Stamps.step {tsp tsp' : Tsproc D} {g : Ghost} {op : TsprocOp D} (h : Stamps tsp g)
    (hstep : tsprocStep tsp op = .ok tsp') : Stamps tsp' (ghostStep g op) := by
  obtain ⟨hdown, hup⟩ := h
  cases op with
  | downTs remoteTs localTs =>
    obtain rfl := Except.ok.inj hstep
    exact ⟨.inr ⟨_, ⟨rfl, rfl⟩, rfl, rfl⟩, hup⟩
  | upTs localTs remoteTs =>
    obtain rfl := Except.ok.inj hstep
    exact ⟨hdown, .inr ⟨_, ⟨rfl, rfl⟩, rfl, rfl⟩⟩
  | setClockRateRatio clockRateRatio =>
    obtain rfl := Except.ok.inj hstep
    exact ⟨hdown, hup⟩
  | updateOffset =>
    obtain rfl := Except.ok.inj hstep
    exact ⟨hdown, hup⟩
  | updateDelay =>
    obtain ⟨r, hdelay, rfl⟩ := map_eq_ok.mp hstep
    rcases tsprocUpdateDelay_eq_ok hdelay with ⟨-, -, heq⟩ | ⟨-, -, filtered, filter', -, heq, -⟩
    · rw [heq]
      exact ⟨hdown, hup⟩
    · rw [heq]
      exact ⟨hdown, hup⟩
  | reset full =>
    obtain ⟨h1, h2, h3, h4⟩ := tsprocReset_forgets hstep
    exact ⟨.inl ⟨h1, h2⟩, .inl ⟨h3, h4⟩⟩

theorem stamps_of_create {grants : Nat → Bool} {mode delayFilter : UInt32} {length : Int}
    {tsp : Tsproc D} (h : tsprocCreate grants mode delayFilter length = some tsp) :
    Stamps tsp ⟨0, none, none⟩ := by
  obtain ⟨-, -, hcreated⟩ := tsprocCreate_eq_some h
  rw [hcreated]
  exact ⟨.inl ⟨rfl, rfl⟩, .inl ⟨rfl, rfl⟩⟩

/-- The invariant after any calls. -/
theorem stamps_of_run {grants : Nat → Bool} {mode delayFilter : UInt32} {length : Int}
    {tsp tsp' : Tsproc D} (hcreate : tsprocCreate grants mode delayFilter length = some tsp)
    {calls : List (TsprocOp D)} (hrun : calls.foldlM tsprocStep tsp = .ok tsp') :
    Stamps tsp' (ghostOf calls) := by
  have hstep : ∀ (tsp : Tsproc D) g op tsp', Stamps tsp g → tsprocStep tsp op = .ok tsp' →
      Stamps tsp' (ghostStep g op) := by
    intro tsp g op tsp' h hok
    exact h.step hok
  exact run_ghost hstep (stamps_of_create hcreate) hrun

omit [CDouble D] in
/-- A down timestamp that is not zero is current. -/
theorem Stamps.down_of_ne {tsp : Tsproc D} {g : Ghost} (h : Stamps tsp g)
    (ht2 : tmvIsZero tsp.t2 = false) :
    ∃ m, g.Current g.down m ∧ tsp.t1 = m.remote ∧ tsp.t2 = m.localTs := by
  rcases h.down with ⟨-, hzero⟩ | hcurrent
  · rw [hzero] at ht2
    cases ht2
  · exact hcurrent

omit [CDouble D] in
/-- A local up timestamp that is not zero is current. -/
theorem Stamps.up_of_ne {tsp : Tsproc D} {g : Ghost} (h : Stamps tsp g)
    (ht3 : tmvIsZero tsp.t3 = false) :
    ∃ m, g.Current g.up m ∧ tsp.t3 = m.localTs ∧ tsp.t4 = m.remote := by
  rcases h.up with ⟨hzero, -⟩ | hcurrent
  · rw [hzero] at ht3
    cases ht3
  · exact hcurrent

/-! ## What is computed from it -/

/-- The raw delay of a down and an up measurement. -/
def rawDelayOf (tsp : Tsproc D) (down up : Received) : Tmv :=
  getRawDelay { tsp with
    t1 := down.remote, t2 := down.localTs, t3 := up.localTs, t4 := up.remote }

/-- What `tsproc_update_delay` does with a raw delay: the filter gets it in every mode, and only the
delay that is returned depends on the mode. -/
def feedDelay (tsp : Tsproc D) (rawDelay : Tmv) : Except Fault (Option Tmv × Tsproc D) := do
  let (filteredDelay, delayFilter) ← filterSample tsp.delayFilter rawDelay
  let delay :=
    match tsp.mode with
    | .filter | .filterWeight => filteredDelay
    | .raw | .rawWeight => rawDelay
  return (some delay, { tsp with filteredDelay, delayFilter, filteredDelayValid := true })

/-- The delay update is refused or feeds the raw delay of current measurements to the filter. -/
theorem Stamps.updateDelay {tsp : Tsproc D} {g : Ghost} (h : Stamps tsp g) :
    tsprocUpdateDelay tsp = .ok (none, tsp) ∨
      ∃ down up, g.Current g.down down ∧ g.Current g.up up ∧
        tsprocUpdateDelay tsp = feedDelay tsp (rawDelayOf tsp down up) := by
  by_cases hzero : (tmvIsZero tsp.t2 || tmvIsZero tsp.t3) = true
  · exact .inl (if_pos hzero)
  · have hzero' := hzero
    rw [Bool.or_eq_true, not_or, Bool.not_eq_true, Bool.not_eq_true] at hzero'
    obtain ⟨ht2, ht3⟩ := hzero'
    obtain ⟨down, hdown, ht1, ht2⟩ := h.down_of_ne ht2
    obtain ⟨up, hup, ht3, ht4⟩ := h.up_of_ne ht3
    refine .inr ⟨down, up, hdown, hup, ?_⟩
    have hraw : getRawDelay tsp = rawDelayOf tsp down up := by
      rw [rawDelayOf, ← ht1, ← ht2, ← ht3, ← ht4]
    rw [← hraw, tsprocUpdateDelay, if_neg hzero]
    rfl

/-- The offset update is refused or uses current measurements: the down measurement, and wherever
it computes a raw delay the up measurement too. -/
theorem Stamps.updateOffset {tsp : Tsproc D} {g : Ghost} (h : Stamps tsp g) :
    tsprocUpdateOffset tsp = none ∨
      ∃ down delay rawDelay, g.Current g.down down ∧ offsetDelay tsp = some (delay, rawDelay) ∧
        tsprocUpdateOffset tsp =
          some (tmvSub (tmvSub down.localTs down.remote) delay, offsetWeight tsp rawDelay) ∧
        (tsp.mode ≠ .filter → ∃ up, g.Current g.up up ∧ rawDelay = rawDelayOf tsp down up) := by
  cases hoffset : tsprocUpdateOffset tsp with
  | none => exact .inl rfl
  | some r =>
    obtain ⟨offset, weight⟩ := r
    obtain ⟨-, ht2, delay, rawDelay, hdelay, rfl, rfl⟩ := tsprocUpdateOffset_eq_some hoffset
    obtain ⟨down, hdown, ht1, ht2⟩ := h.down_of_ne ht2
    refine .inr ⟨down, delay, rawDelay, hdown, hdelay, ?_, ?_⟩
    · rw [ht1, ht2]
    · intro hmode
      obtain ⟨ht3, hraw⟩ := offsetDelay_raw hmode hdelay
      obtain ⟨up, hup, ht3, ht4⟩ := h.up_of_ne ht3
      refine ⟨up, hup, ?_⟩
      rw [hraw, rawDelayOf, ← ht1, ← ht2, ← ht3, ← ht4]

/-- **No delay or offset mixes timestamps from both sides of a step of the clock.** After any calls
on a new processor, in every mode: a delay update is refused or feeds the filter with the raw delay
of a down and an up measurement that were both received after the most recent reset; an offset
update is refused or uses such a down measurement, and its raw delay, if the mode has one, such an
up measurement as well. -/
theorem noMix {grants : Nat → Bool} {mode delayFilter : UInt32} {length : Int}
    {tsp₀ tsp : Tsproc D} (hcreate : tsprocCreate grants mode delayFilter length = some tsp₀)
    {calls : List (TsprocOp D)} (hrun : calls.foldlM tsprocStep tsp₀ = .ok tsp) :
    let g := ghostOf calls
    (tsprocUpdateDelay tsp = .ok (none, tsp) ∨
      ∃ down up, g.Current g.down down ∧ g.Current g.up up ∧
        tsprocUpdateDelay tsp = feedDelay tsp (rawDelayOf tsp down up)) ∧
    (tsprocUpdateOffset tsp = none ∨
      ∃ down delay rawDelay, g.Current g.down down ∧ offsetDelay tsp = some (delay, rawDelay) ∧
        tsprocUpdateOffset tsp =
          some (tmvSub (tmvSub down.localTs down.remote) delay, offsetWeight tsp rawDelay) ∧
        (tsp.mode ≠ .filter → ∃ up, g.Current g.up up ∧ rawDelay = rawDelayOf tsp down up)) := by
  have hstamps := stamps_of_run hcreate hrun
  exact ⟨hstamps.updateDelay, hstamps.updateOffset⟩

/-- The calls of a sync and of a delay message, a step of the clock, and a delay message. -/
def stepCalls : List (TsprocOp XRat) :=
  [.downTs ⟨1⟩ ⟨2⟩, .upTs ⟨3⟩ ⟨4⟩, .updateDelay, .reset false, .upTs ⟨5⟩ ⟨7⟩]

/-- The same, and another sync message. -/
def restartedCalls : List (TsprocOp XRat) := stepCalls ++ [.downTs ⟨8⟩ ⟨9⟩]

/-- After a step a delay message is refused until a sync message was received. After it the delay
and the offset are those of the messages since the step. -/
theorem noMix_afterStep :
    ∃ tsp₀ ∈ (tsprocCreate (fun _ => true) 1 1 1 : Option (Tsproc XRat)),
      (∃ tsp, stepCalls.foldlM tsprocStep tsp₀ = .ok tsp ∧
        tsprocUpdateDelay tsp = .ok (none, tsp)) ∧
      ∃ tsp, restartedCalls.foldlM tsprocStep tsp₀ = .ok tsp ∧
        (∃ down up : Received, down.epoch = 1 ∧ up.epoch = 1 ∧
          tsprocUpdateDelay tsp = feedDelay tsp (rawDelayOf tsp down up)) ∧
        ∃ (down : Received) (delay rawDelay : Tmv), down.epoch = 1 ∧
          tsprocUpdateOffset tsp =
            some (tmvSub (tmvSub down.localTs down.remote) delay, offsetWeight tsp rawDelay) := by
  have hcreate : (tsprocCreate (fun _ => true) 1 1 1 : Option (Tsproc XRat)) = some _ := rfl
  refine ⟨_, hcreate, ⟨_, rfl, rfl⟩, _, rfl, ?_⟩
  obtain ⟨hdelay, hoffset⟩ := @noMix XRat _ _ _ _ _ _ _ hcreate restartedCalls rfl
  refine ⟨?_, ?_⟩
  · rcases hdelay with hrefused | ⟨down, up, hdown, hup, hfed⟩
    · cases hrefused
    · exact ⟨down, up, hdown.2, hup.2, hfed⟩
  · rcases hoffset with hrefused | ⟨down, delay, rawDelay, hdown, -, hmeasured, -⟩
    · cases hrefused
    · exact ⟨down, delay, rawDelay, hdown.2, hmeasured⟩

/-! ## The calls of the program -/

/-- The calls on the processor that a message leads to, in their order. A sync message after which
the clock is stepped ends in a reset, and no other call stands between the measurement and the
reset. -/
inductive MessageCalls : List (TsprocOp D) → Prop where
  /-- a sync message without an offset -/
  | refused (t1 t2 : Tmv) : MessageCalls [.downTs t1 t2, .updateOffset]
  /-- a sync message -/
  | measured (t1 t2 : Tmv) (clockRateRatio : D) :
    MessageCalls [.downTs t1 t2, .updateOffset, .setClockRateRatio clockRateRatio]
  /-- a sync message after which the clock is stepped -/
  | stepped (t1 t2 : Tmv) (clockRateRatio : D) :
    MessageCalls
      [.downTs t1 t2, .updateOffset, .setClockRateRatio clockRateRatio, .reset false]
  /-- a delay message -/
  | delayed (t3 t4 : Tmv) : MessageCalls [.upTs t3 t4, .updateDelay]

/-- What a message does to the processor is one of the sequences of `MessageCalls`. The branches of
the handlers are read off one by one. -/
theorem handle_calls {ops : ServoOps D σ} {dev : DeviceConfig} {sys sys' : Sys D σ} {h : Handler}
    (hok : handle ops dev sys h = .ok sys') :
    ∃ calls, MessageCalls calls ∧ calls.foldlM tsprocStep sys.tsp = .ok sys'.tsp := by
  cases h with
  | clockUpdate t1 t2 =>
    rw [handle, clockUpdate] at hok
    dsimp only at hok
    split at hok
    · obtain rfl := Except.ok.inj hok
      exact ⟨_, .refused ⟨t1⟩ ⟨t2⟩, rfl⟩
    · next masterOffset weight hoffset =>
      split at hok
      · obtain rfl := Except.ok.inj hok
        exact ⟨_, .stepped ⟨t1⟩ ⟨t2⟩ _, rfl⟩
      · obtain rfl := Except.ok.inj hok
        exact ⟨_, .measured ⟨t1⟩ ⟨t2⟩ _, rfl⟩
  | pathDelay t3 t4 =>
    obtain ⟨r, hdelay, rfl⟩ := map_eq_ok.mp hok
    refine ⟨_, .delayed ⟨t3⟩ ⟨t4⟩, ?_⟩
    refine run_cons_eq_ok.mpr ⟨_, rfl, run_cons_eq_ok.mpr ⟨_, ?_, rfl⟩⟩
    rw [tsprocStep, hdelay]
    rfl

/-- **The sequences of calls that the program makes** are among those of `noMix`: for every list of
messages there is one. So what holds after any calls on a processor holds in the program. -/
theorem handlers_calls {ops : ServoOps D σ} {dev : DeviceConfig} {sys sys' : Sys D σ}
    {handlers : List Handler} (hrun : handlers.foldlM (handle ops dev) sys = .ok sys') :
    ∃ calls : List (List (TsprocOp D)), (∀ c ∈ calls, MessageCalls c) ∧
      calls.flatten.foldlM tsprocStep sys.tsp = .ok sys'.tsp := by
  induction handlers generalizing sys with
  | nil =>
    obtain rfl := run_nil_eq_ok.mp hrun
    refine ⟨[], ?_, rfl⟩
    intro c hc
    cases hc
  | cons h handlers ih =>
    obtain ⟨sys₁, h₁, hrun⟩ := run_cons_eq_ok.mp hrun
    obtain ⟨calls, hcalls, htsp⟩ := handle_calls h₁
    obtain ⟨rest, hrest, htsp'⟩ := ih hrun
    refine ⟨calls :: rest, ?_, ?_⟩
    · intro c hc
      rcases List.mem_cons.mp hc with rfl | hc
      · exact hcalls
      · exact hrest c hc
    · rw [List.flatten_cons, List.foldlM_append, htsp]
      exact htsp'

end ExternalServo
