import ExternalServo.Main

/-!
# Dispatching a datagram

The message type that selects a handler is a local of `main`: only a signalling message
writes it, and an iteration that receives anything else dispatches on the type of an
earlier one.

* `processMessage_msgType` — what the type is after a datagram was decoded;
* `receive_handler_eq_none` — when no handler follows;
* `noEffect_after` — a message that is not signalling runs the handler of the last signalling
  message before it, and none only if that one had none;
* `strayInert_iff` — the datagrams that are not for the program have no effect, in a run,
  exactly if none of them meets a type that was left behind.
-/

namespace ExternalServo

open CArith Runs

/-! ## Receiving -/

/-- The type has a handler. -/
def Handled (tlvType : UInt16) : Prop :=
  tlvType = TLV_SLAVE_RX_SYNC_TIMING_DATA ∨ tlvType = SLAVE_DELAY_TIMING_DATA_NP

instance (tlvType : UInt16) : Decidable (Handled tlvType) :=
  inferInstanceAs (Decidable (_ ∨ _))

theorem handlerOf_eq_none {vars : LoopVars} : handlerOf vars = none ↔ ¬ Handled vars.msgType := by
  rw [handlerOf, Handled]
  split_ifs with hsync hdelay
  · simp [hsync]
  · simp [hdelay]
  · simp [hsync, hdelay]

/-- Only a signalling message writes the type. -/
theorem processMessage_msgType (data : List UInt8) (vars : LoopVars) :
    (processMessage data vars).msgType =
      if messageType data = SIGNALING then firstTlvType data else vars.msgType := by
  simp only [processMessage]
  split_ifs <;> rfl

/-- The one result of `uds_recv` that is zero as a `uint16_t`: an empty datagram. -/
def Recv.Empty : Recv → Prop
  | failed => False
  | delivered datagram => datagram.bytes = []

instance : (recv : Recv) → Decidable recv.Empty
  | .failed => .isFalse id
  | .delivered datagram => inferInstanceAs (Decidable (datagram.bytes = []))

theorem Recv.count_eq_zero (recv : Recv) : UInt16.ofInt recv.result = 0 ↔ recv.Empty := by
  cases recv with
  | failed => exact iff_of_false (by decide) id
  | delivered datagram =>
    have hle : datagram.bytes.length ≤ 1500 := datagram.length_le
    have hmod : ((datagram.bytes.length : Int) % 2 ^ 16).toNat = datagram.bytes.length := by omega
    have hlt : datagram.bytes.length < 2 ^ 16 := by omega
    rw [Recv.result, UInt16.ofInt, hmod, ← UInt16.toNat_inj, UInt16.toNat_ofNat_of_lt' hlt]
    exact List.length_eq_zero_iff

theorem receive_of_empty {recv : Recv} (h : recv.Empty) (locals : Locals) :
    receive locals recv = ({ locals with data := locals.data.recv recv }, none) :=
  if_neg (not_not.mpr (recv.count_eq_zero.mpr h))

theorem receive_of_not_empty {recv : Recv} (h : ¬ recv.Empty) (locals : Locals) :
    receive locals recv =
      (⟨processMessage (locals.data.recv recv).bytes locals.vars, locals.data.recv recv⟩,
        handlerOf (processMessage (locals.data.recv recv).bytes locals.vars)) :=
  if_pos (mt recv.count_eq_zero.mp h)

/-- The message type is in the first byte. -/
theorem messageType_recv (data : Buffer) {datagram : Datagram} (h : datagram.bytes ≠ []) :
    messageType (data.recv (.delivered datagram)).bytes = messageType datagram.bytes := by
  obtain ⟨b, bytes, hbytes⟩ := List.exists_cons_of_ne_nil h
  simp [Buffer.recv, messageType, hbytes]

/-- A field within the datagram is not mixed with what the buffer held before. -/
theorem field_recv (data : Buffer) {datagram : Datagram} {off w : Nat}
    (h : off + w ≤ datagram.bytes.length) :
    field (data.recv (.delivered datagram)).bytes off w = field datagram.bytes off w := by
  rw [← field_take h, Buffer.recv, List.take_left]

theorem firstTlvType_recv (data : Buffer) {datagram : Datagram}
    (h : suffixOffset + 2 ≤ datagram.bytes.length) :
    firstTlvType (data.recv (.delivered datagram)).bytes = firstTlvType datagram.bytes := by
  rw [firstTlvType, firstTlvType, load16, load16, field_recv data h]

/-! ## Datagrams that are not for the program -/

/-- A signalling message whose first TLV has a handled type, and is long enough to have a type of
its own. All other datagrams are not for the program. -/
def Relevant (bytes : List UInt8) : Prop :=
  messageType bytes = SIGNALING ∧ suffixOffset + 2 ≤ bytes.length ∧ Handled (firstTlvType bytes)

instance (bytes : List UInt8) : Decidable (Relevant bytes) :=
  inferInstanceAs (Decidable (_ ∧ _))

/-- The type that a datagram is dispatched on: that of its first TLV, with bytes of the buffer where
the datagram is too short for one, or the type that was left behind. It can be read off the state
before the datagram is received. -/
def dispatchType (locals : Locals) (datagram : Datagram) : UInt16 :=
  if messageType datagram.bytes = SIGNALING then
    firstTlvType (locals.data.recv (.delivered datagram)).bytes
  else locals.vars.msgType

/-- No handler follows an empty datagram, or one that is dispatched on a type without handler. -/
theorem receive_handler_eq_none (locals : Locals) (datagram : Datagram) :
    (receive locals (.delivered datagram)).2 = none ↔
      datagram.bytes = [] ∨ ¬ Handled (dispatchType locals datagram) := by
  by_cases hempty : datagram.bytes = []
  · have hrecv : (Recv.delivered datagram).Empty := hempty
    exact iff_of_true (by rw [receive_of_empty hrecv]) (.inl hempty)
  · have hrecv : ¬ (Recv.delivered datagram).Empty := hempty
    rw [receive_of_not_empty hrecv, handlerOf_eq_none, processMessage_msgType,
      messageType_recv _ hempty, dispatchType]
    exact (or_iff_right hempty).symm

variable {D σ : Type} [CDouble D]

/-- The iteration runs neither handler, and the time stamp processor, the servo and the clocks stay
as they are. The locals of the loop can change, as the datagram is received all the same. -/
def NoEffect (ops : ServoOps D σ) (dev : DeviceConfig) (loop : Loop D σ) (recv : Recv) : Prop :=
  (receive loop.locals recv).2 = none ∧
    ∃ loop', loopStep ops dev loop (.readable recv) = .ok loop' ∧ loop'.sys = loop.sys

/-- A datagram that is not for the program has no effect. An event without a datagram is none of
these. -/
def StrayInert (ops : ServoOps D σ) (dev : DeviceConfig) (loop : Loop D σ) : Event → Prop
  | .readable (.delivered datagram) =>
    ¬ Relevant datagram.bytes → NoEffect ops dev loop (.delivered datagram)
  | .idle | .readable .failed => True

/-- A datagram that is not for the program meets no type that has a handler: it is empty, a
signalling message that does not read one from its own bytes and the bytes left in the buffer, or
another message while the type that was left behind has none. -/
def StrayUnhandled (loop : Loop D σ) : Event → Prop
  | .readable (.delivered datagram) =>
    ¬ Relevant datagram.bytes →
      datagram.bytes = [] ∨ ¬ Handled (dispatchType loop.locals datagram)
  | .idle | .readable .failed => True

instance (loop : Loop D σ) : (event : Event) → Decidable (StrayUnhandled loop event)
  | .readable (.delivered _) => inferInstanceAs (Decidable (_ → _))
  | .idle | .readable .failed => isTrue trivial

/-- Without a handler nothing else happens in an iteration. -/
theorem noEffect_iff (ops : ServoOps D σ) (dev : DeviceConfig) (loop : Loop D σ) (recv : Recv) :
    NoEffect ops dev loop recv ↔ (receive loop.locals recv).2 = none := by
  refine ⟨?_, ?_⟩
  · rintro ⟨hnone, -⟩
    exact hnone
  · intro hnone
    refine ⟨hnone, ⟨(receive loop.locals recv).1, loop.sys⟩, ?_, rfl⟩
    simp only [loopStep, hnone, effect, Except.map]

theorem strayInert_step (ops : ServoOps D σ) (dev : DeviceConfig) (loop : Loop D σ)
    (event : Event) : StrayInert ops dev loop event ↔ StrayUnhandled loop event := by
  match event with
  | .idle | .readable .failed => exact Iff.rfl
  | .readable (.delivered datagram) =>
    rw [StrayInert, StrayUnhandled, noEffect_iff, receive_handler_eq_none]

/-! ## What a history leaves behind -/

/-- Each datagram is empty, not signalling, or long enough for the type of its first TLV. -/
def Complete : Event → Prop
  | .idle => True
  | .readable .failed => False
  | .readable (.delivered datagram) =>
    messageType datagram.bytes = SIGNALING → suffixOffset + 2 ≤ datagram.bytes.length

/-- The type of the last signalling message of a history that started with some type. -/
def lastType (tlvType : UInt16) (history : List Event) : UInt16 :=
  history.foldl
    (fun tlvType event =>
      match event with
      | .readable (.delivered datagram) =>
        if messageType datagram.bytes = SIGNALING then firstTlvType datagram.bytes else tlvType
      | .idle | .readable .failed => tlvType)
    tlvType

/-- One event: the type is that of its datagram if this is signalling, and stays otherwise. -/
theorem msgType_step {ops : ServoOps D σ} {dev : DeviceConfig} {loop loop' : Loop D σ}
    {event : Event} (hcomplete : Complete event) (hstep : loopStep ops dev loop event = .ok loop') :
    loop'.locals.vars.msgType = lastType loop.locals.vars.msgType [event] := by
  match event with
  | .idle =>
    obtain rfl := Except.ok.inj hstep
    rfl
  | .readable .failed => exact hcomplete.elim
  | .readable (.delivered datagram) =>
    have hlocals : loop'.locals = (receive loop.locals (.delivered datagram)).1 := by
      simp only [loopStep] at hstep
      cases heffect : effect ops dev loop.sys (receive loop.locals (.delivered datagram)).2 with
      | error e => simp [heffect, Except.map] at hstep
      | ok sys =>
        simp only [heffect, Except.map, Except.ok.injEq] at hstep
        rw [← hstep]
    rw [hlocals]
    by_cases hempty : datagram.bytes = []
    · have hrecv : (Recv.delivered datagram).Empty := hempty
      -- an empty datagram is not signalling
      have htype : messageType datagram.bytes ≠ SIGNALING := by rw [hempty]; decide
      rw [receive_of_empty hrecv]
      exact (if_neg htype).symm
    · have hrecv : ¬ (Recv.delivered datagram).Empty := hempty
      rw [receive_of_not_empty hrecv, processMessage_msgType, messageType_recv _ hempty]
      change (if _ then _ else _) = if _ then _ else _
      split
      · next htype => rw [firstTlvType_recv _ (hcomplete htype)]
      · rfl

/-- A history of complete datagrams leaves the type of its last signalling message behind. -/
theorem msgType_run {ops : ServoOps D σ} {dev : DeviceConfig} {loop loop' : Loop D σ}
    {history : List Event} (hcomplete : ∀ event ∈ history, Complete event)
    (hrun : history.foldlM (loopStep ops dev) loop = .ok loop') :
    loop'.locals.vars.msgType = lastType loop.locals.vars.msgType history := by
  induction history generalizing loop with
  | nil =>
    obtain rfl := run_nil_eq_ok.mp hrun
    rfl
  | cons event history ih =>
    obtain ⟨hevent, hcomplete⟩ := List.forall_mem_cons.mp hcomplete
    obtain ⟨loop₁, hstep, hrun⟩ := run_cons_eq_ok.mp hrun
    rw [ih hcomplete hrun, msgType_step hevent hstep]
    rfl

/-- **A stray message after a history.** One that is not signalling runs a handler exactly if the
last signalling message before it had one: nothing in between changes the type that is left behind.
-/
theorem noEffect_after {ops : ServoOps D σ} {dev : DeviceConfig} {loop loop' : Loop D σ}
    {history : List Event} (hcomplete : ∀ event ∈ history, Complete event)
    (hrun : history.foldlM (loopStep ops dev) loop = .ok loop') {datagram : Datagram}
    (hempty : datagram.bytes ≠ []) (hstray : messageType datagram.bytes ≠ SIGNALING) :
    NoEffect ops dev loop' (.delivered datagram) ↔
      ¬ Handled (lastType loop.locals.vars.msgType history) := by
  rw [noEffect_iff, receive_handler_eq_none, or_iff_right hempty, dispatchType, if_neg hstray,
    msgType_run hcomplete hrun]

/-! ## Runs -/

/-- **Stray datagrams.** In every run of the receive loop, from any state of it, the datagrams that
are not for the program have no effect if and only if each of them is dispatched on a type without
handler. As `msg_type` is not written for a message that is not signalling, any such message after a
handled one runs the handler again. -/
theorem strayInert_iff (ops : ServoOps D σ) (dev : DeviceConfig) (loop : Loop D σ)
    (events : List Event) :
    Always (loopStep ops dev) (StrayInert ops dev) loop events ↔
      Always (loopStep ops dev) StrayUnhandled loop events :=
  always_congr (strayInert_step ops dev)

/-- The locals of `main` with nothing in them. -/
def zeroLocals : Locals :=
  { vars := { msgType := 0, masterTime := 0, slaveTime := 0 }
    data := { bytes := List.replicate MAX_PKT_LEN 0, length_eq := List.length_replicate } }

/-- A sync record: sent by the master at 2 s, received at 3 s. -/
def syncDatagram : Datagram :=
  { bytes := [0x0C] ++ List.replicate 43 0 ++ [0x80, 0x04] ++ List.replicate 19 0 ++ [2] ++
      List.replicate 21 0 ++ [3] ++ List.replicate 4 0
    length_le := by decide }

/-- An announce message, which is not signalling. -/
def announceDatagram : Datagram :=
  { bytes := [0x0B] ++ List.replicate 63 0, length_le := by decide }

/-- After a sync record, an announce message runs `clock_update` once more. -/
theorem not_strayInert_announce :
    ∃ program ∈ sampleProgram,
      ¬ Always (loopStep (servoOps powOne) program.device)
        (StrayInert (servoOps powOne) program.device) ⟨zeroLocals, program.sys⟩
        [.readable (.delivered syncDatagram), .readable (.delivered announceDatagram)] := by
  have h : ∃ program ∈ sampleProgram,
      ¬ Always (loopStep (servoOps powOne) program.device) StrayUnhandled
        ⟨zeroLocals, program.sys⟩
        [.readable (.delivered syncDatagram), .readable (.delivered announceDatagram)] := by
    decide +kernel
  obtain ⟨program, hprogram, hnot⟩ := h
  refine ⟨program, hprogram, ?_⟩
  intro hinert
  exact hnot ((always_congr (strayInert_step (servoOps powOne) program.device)).mp hinert)

end ExternalServo
