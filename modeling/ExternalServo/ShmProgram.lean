import ExternalServo.MessageLoop
import ExternalServo.ShmProtocol

/-!
# A program that feeds another process

With the shared memory servo the program controls no clock: it measures offsets and leaves them in
the segment for another process. A `Monitor` is what remains of it: the receive loop, the time
stamp processor, and the samples in the order they were measured.

* `program_monitors` — a started program with this servo is the monitor, and never adjusts a clock;
* `feed_decodes` — with the stores of each sample interleaved with the loads of a reader, what the
  reader accepts between two samples is the newest sample before, of the datagrams so far.
-/

namespace ExternalServo

open CArith Runs

variable {D : Type} [CDouble D]

/-! ## The monitor -/

/-- The receive loop and the time stamp processor, with what was measured. There is no servo and no
clock in it: the samples are only listed. -/
structure Monitor (D : Type) where
  locals : Locals
  tsp : Tsproc D
  /-- the samples, the oldest first -/
  samples : List ShmCall

/-- What a handler measures: `clock_update` a sample, `path_delay` a delay for later samples. -/
def Monitor.measure (m : Monitor D) : Handler → Except Fault (Monitor D)
  | .clockUpdate t1 t2 =>
    let tsp := tsprocDownTs m.tsp ⟨t1⟩ ⟨t2⟩
    .ok { m with
      tsp
      samples := m.samples ++
        ((tsprocUpdateOffset tsp).map fun sample => ⟨0, sample.1.ns, t2.toUInt64⟩).toList }
  | .pathDelay t3 t4 =>
    (tsprocUpdateDelay (tsprocUpTs m.tsp ⟨t3⟩ ⟨t4⟩)).map fun result => { m with tsp := result.2 }

/-- An iteration of the receive loop. -/
def Monitor.step (m : Monitor D) : Event → Except Fault (Monitor D)
  | .idle => .ok m
  | .readable recv =>
    let (locals, handler) := receive m.locals recv
    (handler.elim (.ok m) m.measure).map fun m => { m with locals }

/-- The segment after some samples, each with all its stores. -/
def stored (shm : ShmTime) (samples : List ShmCall) : ShmTime :=
  samples.foldl (fun shm call => shmStores.foldl (ShmStore.apply call) shm) shm

theorem stored_concat (shm : ShmTime) (samples : List ShmCall) (call : ShmCall) :
    stored shm (samples ++ [call]) =
      shmStores.foldl (ShmStore.apply call) (stored shm samples) := by
  simp only [stored, List.foldl_append, List.foldl_cons, List.foldl_nil]

/-- The program is the monitor: no clock was adjusted, and the segment holds the samples. The rate
ratio stays at one, as the shared memory servo answers with no other. -/
structure Monitors (calls : List (ClockCall D)) (servo : NtpshmServo) (sys : Sys D (Inner D))
    (m : Monitor D) : Prop where
  calls : sys.calls = calls
  tsp : sys.tsp = m.tsp
  ratio : m.tsp.clockRateRatio = CDouble.lit 1
  leap : servo.leap = 0
  inner : sys.servo.inner = .ntpshm { servo with shm := stored servo.shm m.samples }

section Monitors

variable {calls : List (ClockCall D)} {servo : NtpshmServo} {sys : Sys D (Inner D)}
  {m : Monitor D}

/-- A sync message is a sample, or waits for a delay. The sample is stored in the segment, the servo
stays unlocked, and an unlocked sample adjusts nothing. -/
theorem Monitors.clockUpdate (h : Monitors calls servo sys m) (pow : D → D → D)
    (dev : DeviceConfig) (t1 t2 : Int64) :
    Related (Monitors calls servo) (clockUpdate (servoOps pow) dev sys t1 t2)
      (m.measure (.clockUpdate t1 t2)) := by
  obtain ⟨hcalls, htsp, hratio, hleap, hinner⟩ := h
  cases hoffset : tsprocUpdateOffset (tsprocDownTs sys.tsp ⟨t1⟩ ⟨t2⟩) with
  | none =>
    rw [clockUpdate_of_none hoffset]
    rw [htsp] at hoffset ⊢
    simp only [Monitor.measure, hoffset, Option.map_none, Option.toList_none, List.append_nil]
    exact ⟨hcalls, rfl, hratio, hleap, hinner⟩
  | some sample =>
    obtain ⟨offset, weight⟩ := sample
    have hsample : (servoOps pow).sample sys.servo.base sys.servo.inner offset.ns t2.toUInt64
        weight = (CDouble.lit 0, .unlocked,
          .ntpshm { servo with shm := stored servo.shm (m.samples ++
            [⟨0, offset.ns, t2.toUInt64⟩]) }) := by
      rw [hinner, stored_concat, ← hleap]
      rfl
    rw [clockUpdate_of_some hoffset (servoSample_eq _ _ _ _ _ hsample)]
    rw [htsp] at hoffset ⊢
    have hkeep : tsprocSetClockRateRatio (tsprocDownTs m.tsp ⟨t1⟩ ⟨t2⟩) (CDouble.lit 1) =
        tsprocDownTs m.tsp ⟨t1⟩ ⟨t2⟩ := by
      rw [← hratio]
      rfl
    simp only [Monitor.measure, hoffset, Option.map_some, Option.toList_some]
    refine ⟨?_, hkeep, hratio, hleap, rfl⟩
    exact (List.append_nil _).trans hcalls

/-- A delay message. -/
theorem Monitors.pathDelay (h : Monitors calls servo sys m) (t3 t4 : Int64) :
    Related (Monitors calls servo) (pathDelay sys t3 t4) (m.measure (.pathDelay t3 t4)) := by
  obtain ⟨hcalls, htsp, hratio, hleap, hinner⟩ := h
  simp only [ExternalServo.pathDelay, Monitor.measure, htsp]
  cases hresult : tsprocUpdateDelay (tsprocUpTs m.tsp ⟨t3⟩ ⟨t4⟩) with
  | error e => exact rfl
  | ok result =>
    refine ⟨hcalls, rfl, ?_, hleap, hinner⟩
    rcases tsprocUpdateDelay_eq_ok hresult with ⟨-, -, heq⟩ | ⟨-, -, _, _, -, heq, -⟩
    · exact (congrArg Tsproc.clockRateRatio heq).trans hratio
    · exact (congrArg Tsproc.clockRateRatio heq).trans hratio

/-- An iteration of the loop is a step of the monitor. -/
theorem Monitors.step {loop : Loop D (Inner D)} (h : Monitors calls servo loop.sys m)
    (hlocals : loop.locals = m.locals) (pow : D → D → D) (dev : DeviceConfig) (event : Event) :
    Related (fun loop m => Monitors calls servo loop.sys m ∧ loop.locals = m.locals)
      (loopStep (servoOps pow) dev loop event) (m.step event) := by
  cases event with
  | idle => exact ⟨h, hlocals⟩
  | readable recv =>
    simp only [loopStep, Monitor.step, hlocals]
    have heffect : Related (Monitors calls servo)
        (effect (servoOps pow) dev loop.sys (receive m.locals recv).2)
        ((receive m.locals recv).2.elim (.ok m) m.measure) := by
      cases (receive m.locals recv).2 with
      | none => exact h
      | some handler =>
        cases handler with
        | clockUpdate t1 t2 => exact h.clockUpdate pow dev t1 t2
        | pathDelay t3 t4 => exact h.pathDelay t3 t4
    refine heffect.bind ?_
    intro sys m' hsys
    exact ⟨⟨hsys.calls, hsys.tsp, hsys.ratio, hsys.leap, hsys.inner⟩, rfl⟩

end Monitors

/-- The servo of a started program with the shared memory servo. -/
theorem startup_ntpshm {pow : D → D → D} {host : Host} {globals : Globals D}
    {program : Program D} (hstart : startup pow host globals = some program)
    (htype : globals.servoConfig.type = 2) :
    program.sys.tsp.clockRateRatio = CDouble.lit 1 ∧
      ∃ servo : NtpshmServo, servo.leap = 0 ∧ program.sys.servo.inner = .ntpshm servo := by
  unfold startup at hstart
  simp only [Option.bind_eq_bind, Option.bind_eq_some_iff, Option.pure_def, Option.some.injEq]
    at hstart
  obtain ⟨_, -, dev, -, tsp, htsp, limit, -, fadj, -, servo, hservo, rfl⟩ := hstart
  obtain ⟨-, -, htsp⟩ := tsprocCreate_eq_some htsp
  refine ⟨congrArg Tsproc.clockRateRatio htsp, ?_⟩
  obtain ⟨servo₀, hcreate, rfl⟩ := Option.map_eq_some_iff.mp hservo
  obtain ⟨inner, hinner, rfl⟩ := Option.map_eq_some_iff.mp hcreate
  split at hinner
  · cases hinner
  rw [htype, if_neg (by decide), if_neg (by decide)] at hinner
  obtain ⟨s, hs, rfl⟩ := Option.map_eq_some_iff.mp hinner
  obtain ⟨shm, -, rfl⟩ := Option.map_eq_some_iff.mp hs
  exact ⟨_, rfl, rfl⟩

/-- **The program is a monitor.** A started program with the shared memory servo, over any events,
faults exactly if its time stamp processor does; it never adjusts a clock after its start, and the
segment holds what the samples of the processor store in it, one after the other. -/
theorem program_monitors {pow : D → D → D} {host : Host} {globals : Globals D}
    {program : Program D} (hstart : startup pow host globals = some program)
    (htype : globals.servoConfig.type = 2) (locals : Locals) (events : List Event) :
    ∃ servo : NtpshmServo, program.sys.servo.inner = .ntpshm servo ∧
      Related
        (fun loop m => loop.sys.calls = program.sys.calls ∧ loop.sys.tsp = m.tsp ∧
          loop.sys.servo.inner = .ntpshm { servo with shm := stored servo.shm m.samples })
        (events.foldlM (loopStep (servoOps pow) program.device) ⟨locals, program.sys⟩)
        (events.foldlM Monitor.step ⟨locals, program.sys.tsp, []⟩) := by
  obtain ⟨hratio, servo, hleap, hinner⟩ := startup_ntpshm hstart htype
  refine ⟨servo, hinner, ?_⟩
  have hmonitors : Monitors program.sys.calls servo program.sys
      ⟨locals, program.sys.tsp, []⟩ := ⟨rfl, rfl, hratio, hleap, hinner⟩
  have hall : ∀ event ∈ events, True := fun _ _ => trivial
  have hrun : Related (fun (loop : Loop D (Inner D)) m =>
      Monitors program.sys.calls servo loop.sys m ∧ loop.locals = m.locals)
      (events.foldlM (loopStep (servoOps pow) program.device) ⟨locals, program.sys⟩)
      (events.foldlM Monitor.step ⟨locals, program.sys.tsp, []⟩) := by
    refine Related.run ?_ ⟨hmonitors, rfl⟩ hall
    intro loop m event h _
    exact h.1.step h.2 pow program.device event
  refine hrun.imp ?_
  rintro loop m ⟨h, -⟩
  exact ⟨h.calls, h.tsp, h.inner⟩

/-- A system with an empty segment. -/
def shmHost : Host :=
  { sampleHost with servoEnv := { allocates := true, attach := fun _ => some .empty } }

/-- The settings with the shared memory servo. -/
def shmGlobals (globals : Globals XRat) : Globals XRat :=
  { globals with servoConfig := { globals.servoConfig with type := 2 } }

/-- Two sync messages with a delay message between them. -/
def shmEvents : List Event := [syncAt 5 7, delayAt 7 7, syncAt 8 10]

/-- The first sync message finds no delay that it could be corrected with, so that the second one is
the only sample; the monitor, which has neither a servo nor clocks, stores it as well. -/
theorem program_monitors_shm :
    ∃ globals ∈ sampleGlobals, ∃ program ∈ startup powOne shmHost (shmGlobals globals),
      ∃ servo : NtpshmServo, program.sys.servo.inner = .ntpshm servo ∧
        Related
          (fun loop m => loop.sys.calls = program.sys.calls ∧ loop.sys.tsp = m.tsp ∧
            loop.sys.servo.inner = .ntpshm { servo with shm := stored servo.shm m.samples })
          (shmEvents.foldlM (loopStep (servoOps powOne) program.device)
            ⟨zeroLocals, program.sys⟩)
          (shmEvents.foldlM Monitor.step ⟨zeroLocals, program.sys.tsp, []⟩) := by
  have h : ∃ globals ∈ sampleGlobals, ∃ program ∈ startup powOne shmHost (shmGlobals globals),
      True := by
    decide +kernel
  obtain ⟨globals, hglobals, program, hprogram, -⟩ := h
  exact ⟨globals, hglobals, program, hprogram, program_monitors hprogram rfl zeroLocals shmEvents⟩

/-! ## The feed -/

/-- The program in the stores of a sample, and the process that reads the segment. -/
structure Feed (D : Type) where
  monitor : Monitor D
  segment : ShmSystem

/-- A step of either process. -/
inductive FeedAction : Type where
  /-- an iteration of the receive loop, up to the first store of a sample -/
  | event (event : Event) : FeedAction
  /-- the next store of the sample -/
  | store : FeedAction
  /-- a load of the reader -/
  | load (load : SeqLock.Load ShmField) : FeedAction

/-- One step. While stores are left, the program is not in its receive loop, as `ntpshm_sample` is
called from there; the reader can load at any time. -/
def Feed.step (feed : Feed D) : FeedAction → Except Fault (Feed D)
  | .event event =>
    match feed.segment.pending with
    | [] => (feed.monitor.step event).map fun monitor =>
      let news := monitor.samples.drop feed.monitor.samples.length
      { monitor
        segment := news.foldl (fun segment call =>
          segment.step (.sample call.offset call.localTs)) feed.segment }
    | _ :: _ => .ok feed
  | .store => .ok { feed with segment := feed.segment.step .store }
  | .load load => .ok { feed with segment := feed.segment.step (.load load) }

/-- The program after its start. -/
def Feed.start (locals : Locals) (tsp : Tsproc D) (servo : NtpshmServo) : Feed D :=
  { monitor := ⟨locals, tsp, []⟩, segment := .attach servo }

/-- The calls that will be written when the stores that are left are done. -/
def ShmSystem.due (c : ShmSystem) : List ShmCall :=
  c.pending.foldl (ShmStore.complete c.call) c.written

/-- **The invariant.** The segment is in a run of the protocol, and the samples are the calls that
were written, or will be. So what is known of every run of the protocol is known of the program. -/
structure Fed (servo : NtpshmServo) (feed : Feed D) : Prop where
  run : ∃ actions : List ShmAction,
    feed.segment = actions.foldl ShmSystem.step (.attach servo)
  leap : feed.segment.servo.leap = 0
  due : feed.segment.due = feed.monitor.samples
  normal : ∀ call ∈ feed.monitor.samples, call.leap = 0

section Fed

variable {servo : NtpshmServo} {feed feed' : Feed D}

/-- An iteration of the loop adds a sample, or none. So between two iterations at most one call of
`ntpshm_sample` has to be stored. -/
theorem Monitor.step_samples {m m' : Monitor D} {event : Event} (h : m.step event = .ok m') :
    m'.samples = m.samples ∨
      ∃ offset localTs, m'.samples = m.samples ++ [⟨0, offset, localTs⟩] := by
  cases event with
  | idle =>
    obtain rfl := Except.ok.inj h
    exact .inl rfl
  | readable recv =>
    have hmap : ((receive m.locals recv).2.elim (.ok m) m.measure).map
        (fun m₁ => { m₁ with locals := (receive m.locals recv).1 }) = .ok m' := h
    obtain ⟨m₁, hm₁, rfl⟩ := map_eq_ok.mp hmap
    change m₁.samples = _ ∨ ∃ offset localTs, m₁.samples = _
    cases hhandler : (receive m.locals recv).2 with
    | none =>
      rw [hhandler] at hm₁
      obtain rfl := Except.ok.inj hm₁
      exact .inl rfl
    | some handler =>
      rw [hhandler] at hm₁
      cases handler with
      | clockUpdate t1 t2 =>
        obtain rfl := Except.ok.inj hm₁
        dsimp only
        cases tsprocUpdateOffset (tsprocDownTs m.tsp ⟨t1⟩ ⟨t2⟩) with
        | none => exact .inl (List.append_nil _)
        | some sample => exact .inr ⟨_, _, rfl⟩
      | pathDelay t3 t4 =>
        obtain ⟨result, -, rfl⟩ := map_eq_ok.mp hm₁
        exact .inl rfl

/-- What is written will stay written. -/
theorem written_prefix_due (c : ShmSystem) : c.written <+: c.due := by
  have hfold : ∀ (stores : List ShmStore) (written : List ShmCall),
      written <+: stores.foldl (ShmStore.complete c.call) written := by
    intro stores
    induction stores with
    | nil => exact fun written => List.prefix_refl written
    | cons store stores ih =>
      intro written
      refine List.IsPrefix.trans ?_ (ih _)
      cases store with
      | countAfter => exact List.prefix_append _ _
      | mode | countBefore | invalid | field f | valid => exact List.prefix_refl written
  exact hfold _ _

omit [CDouble D] in
/-- A step of the segment alone is one more action. -/
theorem Fed.segment (h : Fed servo feed) (action : ShmAction)
    (hleap : (feed.segment.step action).servo.leap = feed.segment.servo.leap)
    (hdue : (feed.segment.step action).due = feed.segment.due) :
    Fed servo { feed with segment := feed.segment.step action } := by
  obtain ⟨⟨actions, hactions⟩, hzero, hsamples, hnormal⟩ := h
  refine ⟨⟨actions ++ [action], ?_⟩, hleap.trans hzero, hdue.trans hsamples, hnormal⟩
  rw [List.foldl_append, ← hactions]
  rfl

/-- **One step.** An iteration of the receive loop is a call of `ntpshm_sample` or none, and a store
or a load is a step of the protocol. -/
theorem Fed.step (h : Fed servo feed) {action : FeedAction}
    (hstep : feed.step action = .ok feed') : Fed servo feed' := by
  cases action with
  | event event =>
    simp only [Feed.step] at hstep
    cases hpending : feed.segment.pending with
    | cons store pending =>
      rw [hpending] at hstep
      obtain rfl := Except.ok.inj hstep
      exact h
    | nil =>
      rw [hpending] at hstep
      obtain ⟨monitor, hmonitor, rfl⟩ := map_eq_ok.mp hstep
      obtain ⟨⟨actions, hactions⟩, hzero, hsamples, hnormal⟩ := h
      have hwritten : feed.segment.written = feed.monitor.samples := by
        rw [ShmSystem.due, hpending] at hsamples
        exact hsamples
      rcases Monitor.step_samples hmonitor with hnone | ⟨offset, localTs, hone⟩
      · rw [hnone, List.drop_length]
        exact ⟨⟨actions, hactions⟩, hzero, hsamples.trans hnone.symm, hnone ▸ hnormal⟩
      · rw [hone, List.drop_left]
        have hcall : feed.segment.step (.sample offset localTs) =
            { feed.segment with
              call := ⟨feed.segment.servo.leap, offset, localTs⟩, pending := shmStores } := by
          rw [ShmSystem.step, hpending]
        refine ⟨⟨actions ++ [.sample offset localTs], ?_⟩, ?_, ?_, ?_⟩
        · rw [List.foldl_append, ← hactions]
          rfl
        · simp only [List.foldl_cons, List.foldl_nil, hcall, hzero]
        · simp only [List.foldl_cons, List.foldl_nil, hcall, hone, hzero, ← hwritten]
          rfl
        · rw [hone]
          intro call hmem
          rcases List.mem_append.mp hmem with hold | hnew
          · exact hnormal call hold
          · rw [List.mem_singleton.mp hnew]
  | store =>
    obtain rfl := Except.ok.inj hstep
    cases hpending : feed.segment.pending with
    | nil =>
      have hstay : feed.segment.step .store = feed.segment := by rw [ShmSystem.step, hpending]
      rw [hstay]
      exact h
    | cons store pending =>
      refine h.segment .store ?_ ?_
      · rw [ShmSystem.step, hpending]
      · rw [ShmSystem.due, ShmSystem.due, ShmSystem.step, hpending]
        rfl
  | load load =>
    obtain rfl := Except.ok.inj hstep
    refine h.segment (.load load) ?_ rfl
    rw [ShmSystem.step]
    dsimp only
    split <;> rfl

end Fed

/-- **From the datagrams to the other process.** A program with the shared memory servo was just
started. In every interleaving of its receive loop, of the stores of its samples and of the loads
of a reader, what the reader accepts of all fields, if it began between two samples and no full
turn of `count` passed, decodes to the offset and the local time stamp of the newest sample that
was stored when it began. -/
theorem feed_decodes {pow : D → D → D} {host : Host} {globals : Globals D} {program : Program D}
    (hstart : startup pow host globals = some program) (htype : globals.servoConfig.type = 2)
    {servo : NtpshmServo} (hservo : program.sys.servo.inner = .ntpshm servo) (locals : Locals)
    (actions : List FeedAction) {feed : Feed D}
    (hrun : actions.foldlM Feed.step (.start locals program.sys.tsp servo) = .ok feed) :
    ∀ r ∈ feed.segment.reads, r.closed - r.opened < 2 ^ 32 → Even r.opened → 0 < r.index →
      (∀ f, (r.values f).isSome) →
      ∃ call ∈ feed.monitor.samples[r.index - 1]?, shmDecode r.values = some call := by
  intro r hr hshort heven hindex hall
  obtain ⟨-, servo₀, hleap, hinner⟩ := startup_ntpshm hstart htype
  obtain rfl : servo = servo₀ := Inner.ntpshm.inj (hservo.symm.trans hinner)
  have hfed : Fed servo (.start locals program.sys.tsp servo) :=
    ⟨⟨[], rfl⟩, hleap, rfl, by simp [Feed.start]⟩
  obtain ⟨⟨steps, hsteps⟩, -, hdue, hnormal⟩ : Fed servo feed := by
    refine run_inv ?_ hfed (always_of_forall (fun _ _ => trivial) _ actions) hrun
    intro feed action feed' h _ hstep
    exact h.step hstep
  rw [hsteps] at hr
  obtain ⟨call, hcall, hvalues⟩ := reads_value_run servo steps hr hshort heven hindex hall
  rw [← hsteps] at hcall
  have hsample : feed.monitor.samples[r.index - 1]? = some call := by
    obtain ⟨more, hmore⟩ := written_prefix_due feed.segment
    have hlt := (List.getElem?_eq_some_iff.mp hcall).1
    rw [← hdue, ← hmore, List.getElem?_append_left hlt]
    exact hcall
  refine ⟨call, hsample, ?_⟩
  have hzero := hnormal call (List.mem_of_getElem? hsample)
  rw [hvalues, shmDecode_value]
  rcases call with ⟨leap, offset, localTs⟩
  obtain rfl : leap = 0 := hzero
  rfl

/-- The shared memory servo, if this is one. -/
def ntpshmOf : Inner D → Option NtpshmServo
  | .ntpshm s => some s
  | .pi _ | .linreg _ => none

omit [CDouble D] in
theorem eq_of_mem_ntpshmOf {inner : Inner D} {s : NtpshmServo} (h : s ∈ ntpshmOf inner) :
    inner = .ntpshm s := by
  cases inner with
  | ntpshm s' => exact congrArg Inner.ntpshm (Option.some.inj h)
  | pi s' | linreg s' => cases h

/-- The messages, the stores of the one sample, and a read of all fields. -/
def feedActions : List FeedAction :=
  shmEvents.map .event ++ (shmStores.map fun _ => .store) ++ [.load .flag, .load .version] ++
    shmFields.map (fun f => .load (.cell f)) ++ [.load .check]

/-- The slave was a second ahead at its tenth second. -/
theorem feed_decodes_shm :
    ∃ globals ∈ sampleGlobals, ∃ program ∈ startup powOne shmHost (shmGlobals globals),
      ∃ servo, program.sys.servo.inner = .ntpshm servo ∧
        ∃ feed ∈ (feedActions.foldlM Feed.step
            (.start zeroLocals program.sys.tsp servo)).toOption,
          ∃ r ∈ feed.segment.reads, ∃ call ∈ feed.monitor.samples[r.index - 1]?,
            shmDecode r.values = some call := by
  have h : ∃ globals ∈ sampleGlobals, ∃ program ∈ startup powOne shmHost (shmGlobals globals),
      ∃ servo ∈ ntpshmOf program.sys.servo.inner,
        ∃ feed ∈ (feedActions.foldlM Feed.step
            (.start zeroLocals program.sys.tsp servo)).toOption,
          ∃ r ∈ feed.segment.reads, r.closed - r.opened < 2 ^ 32 ∧ r.opened % 2 = 0 ∧
            0 < r.index ∧ ∀ f ∈ shmFields, (r.values f).isSome := by
    decide +kernel
  obtain ⟨globals, hglobals, program, hprogram, servo, hservo, feed, hfeed, r, hr, hshort, heven,
    hindex, hall⟩ := h
  have hinner := eq_of_mem_ntpshmOf hservo
  refine ⟨globals, hglobals, program, hprogram, servo, hinner, feed, hfeed, r, hr, ?_⟩
  exact feed_decodes hprogram rfl hinner zeroLocals feedActions (mem_toOption.mp hfeed) r hr hshort
    (Nat.even_iff.mpr heven) hindex fun f => hall f (forall_mem_shmFields f)

end ExternalServo
