import ExternalServo.StaleBytes
import ExternalServo.TimeFormat

/-!
# The receive loop, message by message

What the receive loop is for, without bytes: a `Station` hears messages that carry times, and
remembers the call that the last signalling message led to, because a message that is not
signalling repeats it. `messageOf` reads a datagram as the wire format says, in network order.

A datagram is `Legible` if it was delivered to its end and its seconds fit in 32 bits. Over such
datagrams the receive loop, with its buffer and its locals, is the station
(`loop_refines_station`), whatever the buffer and the locals held before.
-/

namespace ExternalServo

open CArith ByteOrder Runs

/-! ## Messages -/

/-- What a datagram says. The times are in nanoseconds, the correction is applied. They are
integers, which have room for the 48 bits of seconds that a datagram can carry. -/
inductive Message : Type where
  /-- a sync message left the master, and arrived -/
  | sync (masterTime slaveTime : Int) : Message
  /-- a delay request left the slave, and arrived -/
  | delay (slaveTime masterTime : Int) : Message
  /-- another signalling message -/
  | otherSignal : Message
  /-- not a signalling message -/
  | general : Message
  deriving DecidableEq

/-- The type of the first TLV, in network order. -/
def wireTlvType (bytes : List UInt8) : Nat := beValue (field bytes suffixOffset 2)

/-- A datagram, as the wire format says: the fields are read off the bytes in network order, with no
part of the program involved. -/
def messageOf (bytes : List UInt8) : Message :=
  if messageType bytes = SIGNALING then
    if wireTlvType bytes = 0x8004 then .sync (syncMasterTime bytes) (syncSlaveTime bytes)
    else if wireTlvType bytes = 0x7f00 then .delay (delaySlaveTime bytes) (delayMasterTime bytes)
    else .otherSignal
  else .general

/-- The call that is due after a message, given the one before. A message that is not a signalling
one leaves the locals of the loop as they are, so the call before it is made again. -/
def Message.heard (last : Option Handler) : Message → Option Handler
  | sync masterTime slaveTime =>
    some (.clockUpdate (Int64.ofInt masterTime) (Int64.ofInt slaveTime))
  | delay slaveTime masterTime =>
    some (.pathDelay (Int64.ofInt slaveTime) (Int64.ofInt masterTime))
  | otherSignal => none
  -- the message type of the last signalling message is still there
  | general => last

/-- The message of an event, if there is one. -/
def Event.message : Event → Option Message
  | idle | readable .failed => none
  | readable (.delivered datagram) =>
    if datagram.bytes = [] then none else some (messageOf datagram.bytes)

/-- The messages of a run. -/
def messages (events : List Event) : List Message := events.filterMap Event.message

/-! ## The station -/

/-- The program between two messages: of the receive loop only the last call is left, and neither
its buffer nor its locals. -/
structure Station (D σ : Type) where
  /-- the call of the last signalling message -/
  last : Option Handler
  sys : Sys D σ

variable {D σ : Type} [CDouble D]

/-- A message is heard. -/
def messageStep (ops : ServoOps D σ) (dev : DeviceConfig) (station : Station D σ)
    (message : Message) : Except Fault (Station D σ) :=
  let last := message.heard station.last
  (effect ops dev station.sys last).map fun sys => { last, sys }

omit [CDouble D] in
/-- The state of the receive loop, without its buffer and its locals. -/
def Loop.station (loop : Loop D σ) : Station D σ :=
  { last := handlerOf loop.locals.vars, sys := loop.sys }

/-! ## Legible datagrams -/

/-- The seconds of the times fit in 32 bits. -/
def SecondsFit (bytes : List UInt8) : Prop :=
  messageType bytes = SIGNALING →
    (wireTlvType bytes = 0x8004 →
      wireSeconds bytes (recordOffset + 2) < 2 ^ 32 ∧
        wireSeconds bytes (recordOffset + 24) < 2 ^ 32) ∧
    (wireTlvType bytes = 0x7f00 →
      wireSeconds bytes (recordOffset + 2) < 2 ^ 32 ∧
        wireSeconds bytes (recordOffset + 20) < 2 ^ 32)

instance decidableSecondsFit (bytes : List UInt8) : Decidable (SecondsFit bytes) :=
  inferInstanceAs (Decidable (_ → _))

/-- The datagram was delivered to the end of what is read of it, and its times are decoded. A
shorter one would be completed by what the buffer held before, and seconds beyond 32 bits are cut.
-/
def Legible : Event → Prop
  | .idle => True
  | .readable .failed => False
  | .readable (.delivered datagram) =>
    Covered (.delivered datagram) ∧ SecondsFit datagram.bytes

instance decidableLegible : DecidablePred Legible
  | .idle => isTrue trivial
  | .readable .failed => isFalse id
  | .readable (.delivered _) => inferInstanceAs (Decidable (_ ∧ _))

/-- A time of fewer than `2 ^ 32` seconds, with a correction. -/
theorem fits_wireTime {bytes : List UInt8} {off : Nat} (h : wireSeconds bytes off < 2 ^ 32)
    (hlength : off + 10 ≤ bytes.length) {k : Int} (hlo : -2 ^ 48 ≤ k) (hhi : k ≤ 2 ^ 48) :
    Fits (wireTime bytes off + k) := by
  have hnano : wireNanoseconds bytes off < 256 ^ 4 := by
    have hlt := beValue_lt (field bytes (off + 6) 4)
    rwa [length_field (by omega)] at hlt
  rw [wireTime]
  refine ⟨?_, ?_⟩ <;> omega

/-- A correction is less than two days. -/
theorem wireCorrection_range (bytes : List UInt8) (off : Nat) :
    -2 ^ 48 ≤ wireCorrection bytes off / 2 ^ 16 ∧ wireCorrection bytes off / 2 ^ 16 ≤ 2 ^ 48 := by
  have hlo : -(2 ^ 63) ≤ wireCorrection bytes off := by
    have := Int.le_bmod (x := (beValue (field bytes off 8) : Int)) (m := 2 ^ 64) (by decide)
    exact this
  have hhi : wireCorrection bytes off < 2 ^ 63 := by
    have := Int.bmod_lt (x := (beValue (field bytes off 8) : Int)) (m := 2 ^ 64) (by decide)
    exact this
  omega

section Legible

variable {bytes : List UInt8}

/-- The type of the first TLV, as the program reads it. -/
theorem firstTlvType_toNat (hlength : suffixOffset + 2 ≤ bytes.length) :
    (firstTlvType bytes).toNat = wireTlvType bytes :=
  ntohs_load16 hlength

/-- A legible sync message is decoded. -/
theorem handlerOf_sync (h : SyncMessage bytes)
    (hmaster : wireSeconds bytes (recordOffset + 2) < 2 ^ 32)
    (hslave : wireSeconds bytes (recordOffset + 24) < 2 ^ 32) (vars : LoopVars) :
    handlerOf (processMessage bytes vars) =
      some (.clockUpdate (Int64.ofInt (syncMasterTime bytes))
        (Int64.ofInt (syncSlaveTime bytes))) := by
  have hlength : recordOffset + 34 ≤ bytes.length := h.complete
  obtain ⟨hlo, hhi⟩ := wireCorrection_range bytes (recordOffset + 12)
  have hfits : Fits (syncMasterTime bytes) := fits_wireTime hmaster (by omega) hlo hhi
  have hfits' : Fits (syncSlaveTime bytes) := by
    have := fits_wireTime hslave (by omega) (k := 0) (by decide) (by decide)
    rwa [Int.add_zero] at this
  obtain ⟨hm, hs⟩ := (syncExact_iff vars h hfits hfits').mpr ⟨hmaster, hslave⟩
  have htype : (processMessage bytes vars).msgType = TLV_SLAVE_RX_SYNC_TIMING_DATA := by
    rw [processMessage_msgType, if_pos h.signalling, h.tlv]
  rw [handlerOf, if_pos htype, ← hm, ← hs, Int64.ofInt_toInt, Int64.ofInt_toInt]

/-- A legible delay message is decoded. -/
theorem handlerOf_delay (h : DelayMessage bytes)
    (hslave : wireSeconds bytes (recordOffset + 2) < 2 ^ 32)
    (hmaster : wireSeconds bytes (recordOffset + 20) < 2 ^ 32) (vars : LoopVars) :
    handlerOf (processMessage bytes vars) =
      some (.pathDelay (Int64.ofInt (delaySlaveTime bytes))
        (Int64.ofInt (delayMasterTime bytes))) := by
  have hlength : recordOffset + 30 ≤ bytes.length := h.complete
  obtain ⟨hlo, hhi⟩ := wireCorrection_range bytes (recordOffset + 12)
  have hfits : Fits (delayMasterTime bytes) := by
    rw [delayMasterTime, Int.sub_eq_add_neg]
    exact fits_wireTime hmaster (by omega) (neg_le_neg hhi) (neg_le.mp hlo)
  have hfits' : Fits (delaySlaveTime bytes) := by
    have := fits_wireTime hslave (by omega) (k := 0) (by decide) (by decide)
    rwa [Int.add_zero] at this
  obtain ⟨hs, hm⟩ := (delayExact_iff vars h hfits' hfits).mpr ⟨hslave, hmaster⟩
  have htype : (processMessage bytes vars).msgType = SLAVE_DELAY_TIMING_DATA_NP := by
    rw [processMessage_msgType, if_pos h.signalling, h.tlv]
  have hne : SLAVE_DELAY_TIMING_DATA_NP ≠ TLV_SLAVE_RX_SYNC_TIMING_DATA := by decide
  rw [handlerOf, htype, if_neg hne, if_pos rfl, ← hm, ← hs, Int64.ofInt_toInt,
    Int64.ofInt_toInt]

/-- What is read of a covered signalling message. -/
theorem covered_signalling {datagram : Datagram} (hcovered : Covered (.delivered datagram))
    (hempty : datagram.bytes ≠ []) (hsignaling : messageType datagram.bytes = SIGNALING) :
    suffixOffset + 2 ≤ datagram.bytes.length ∧
      (firstTlvType datagram.bytes = TLV_SLAVE_RX_SYNC_TIMING_DATA →
        SyncMessage datagram.bytes) ∧
      (firstTlvType datagram.bytes = SLAVE_DELAY_TIMING_DATA_NP →
        DelayMessage datagram.bytes) := by
  rcases hcovered with h | h | ⟨hlength, hsync, hdelay⟩
  · exact absurd h hempty
  · exact absurd hsignaling h
  · refine ⟨hlength, ?_, ?_⟩
    · intro htlv
      exact ⟨hsync htlv, hsignaling, htlv⟩
    · intro htlv
      exact ⟨hdelay htlv, hsignaling, htlv⟩

/-- A covered datagram is decoded from its own bytes. -/
theorem processMessage_delivered (data : Buffer) {datagram : Datagram}
    (hcovered : Covered (.delivered datagram)) (hempty : datagram.bytes ≠ []) (vars : LoopVars) :
    processMessage (data.recv (.delivered datagram)).bytes vars =
      processMessage datagram.bytes vars := by
  have htype := messageType_recv data hempty
  refine processMessage_congr vars htype ?_ ?_ ?_
  · intro hsignaling
    rw [htype] at hsignaling
    exact firstTlvType_recv data (covered_signalling hcovered hempty hsignaling).1
  · intro hsignaling htlv
    rw [htype] at hsignaling
    obtain ⟨hlength, hsync, -⟩ := covered_signalling hcovered hempty hsignaling
    rw [firstTlvType_recv data hlength] at htlv
    exact loadSyncRecord_recv data (hsync htlv).complete
  · intro hsignaling htlv
    rw [htype] at hsignaling
    obtain ⟨hlength, -, hdelay⟩ := covered_signalling hcovered hempty hsignaling
    rw [firstTlvType_recv data hlength] at htlv
    exact loadDelayRecord_recv data (hdelay htlv).complete

/-- **One datagram.** A legible datagram leads to the call of its message: the decoding of the
source and the wire format agree on it. -/
theorem handlerOf_heard {datagram : Datagram} (h : Legible (.readable (.delivered datagram)))
    (hempty : datagram.bytes ≠ []) (vars : LoopVars) :
    handlerOf (processMessage datagram.bytes vars) =
      (messageOf datagram.bytes).heard (handlerOf vars) := by
  obtain ⟨hcovered, hseconds⟩ := h
  rw [messageOf]
  split
  · next hsignaling =>
    obtain ⟨hlength, hsync, hdelay⟩ := covered_signalling hcovered hempty hsignaling
    have htlv := firstTlvType_toNat hlength
    obtain ⟨hfit, hfit'⟩ := hseconds hsignaling
    split
    · next hwire =>
      obtain ⟨hmaster, hslave⟩ := hfit hwire
      have htype : firstTlvType datagram.bytes = TLV_SLAVE_RX_SYNC_TIMING_DATA :=
        UInt16.toNat_inj.mp (htlv.trans hwire)
      exact handlerOf_sync (hsync htype) hmaster hslave vars
    · next hne =>
      split
      · next hwire =>
        obtain ⟨hslave, hmaster⟩ := hfit' hwire
        have htype : firstTlvType datagram.bytes = SLAVE_DELAY_TIMING_DATA_NP :=
          UInt16.toNat_inj.mp (htlv.trans hwire)
        exact handlerOf_delay (hdelay htype) hslave hmaster vars
      · next hne' =>
        -- a type without handler
        rw [Message.heard, handlerOf_eq_none, processMessage_msgType, if_pos hsignaling]
        rintro (htype | htype)
        · exact hne (htlv.symm.trans (congrArg UInt16.toNat htype))
        · exact hne' (htlv.symm.trans (congrArg UInt16.toNat htype))
  · next hgeneral =>
    have hkeep : processMessage datagram.bytes vars = vars := if_neg hgeneral
    rw [hkeep, Message.heard]

end Legible

/-! ## Refinement -/

/-- **One iteration** is a message, or nothing: a wait that timed out or an empty datagram leaves
the station where it was. -/
theorem station_step (ops : ServoOps D σ) (dev : DeviceConfig) (loop : Loop D σ) {event : Event}
    (h : Legible event) :
    (loopStep ops dev loop event).map Loop.station =
      event.message.elim (.ok loop.station) (messageStep ops dev loop.station) := by
  match event with
  | .idle => rfl
  | .readable .failed => exact h.elim
  | .readable (.delivered datagram) =>
    by_cases hempty : datagram.bytes = []
    · have hrecv : (Recv.delivered datagram).Empty := hempty
      simp only [loopStep, receive_of_empty hrecv, Event.message, if_pos hempty]
      rfl
    · have hrecv : ¬ (Recv.delivered datagram).Empty := hempty
      have hheard := handlerOf_heard h hempty loop.locals.vars
      rw [← processMessage_delivered loop.locals.data h.1 hempty] at hheard
      have hlast : Message.heard loop.station.last (messageOf datagram.bytes) =
          handlerOf (processMessage (loop.locals.data.recv (.delivered datagram)).bytes
            loop.locals.vars) := hheard.symm
      have hsys : loop.station.sys = loop.sys := rfl
      simp only [loopStep, receive_of_not_empty hrecv, Event.message, if_neg hempty, Option.elim,
        messageStep, hlast, hsys]
      cases effect ops dev loop.sys
        (handlerOf (processMessage (loop.locals.data.recv (.delivered datagram)).bytes
          loop.locals.vars)) with
      | error e => rfl
      | ok sys => rfl

/-- A run over legible events, from any state, as a run of the station. -/
theorem loop_refines (ops : ServoOps D σ) (dev : DeviceConfig) (loop : Loop D σ)
    {events : List Event} (hlegible : ∀ event ∈ events, Legible event) :
    (events.foldlM (loopStep ops dev) loop).map Loop.station =
      (messages events).foldlM (messageStep ops dev) loop.station :=
  run_filterMap (station_step ops dev) loop hlegible

/-- **The receive loop refines the station.** Over legible events, from any state of the loop and
of its buffer, the loop faults, or reaches the time stamp processor, the servo and the adjustments
of the clocks, exactly as the station does over the messages of the events. -/
theorem loop_refines_station (ops : ServoOps D σ) (dev : DeviceConfig) (loop : Loop D σ)
    (events : List Event) (hlegible : ∀ event ∈ events, Legible event) :
    (events.foldlM (loopStep ops dev) loop).map Loop.station =
      (messages events).foldlM (messageStep ops dev) loop.station :=
  loop_refines ops dev loop hlegible

/-- A sync record: sent by the master at a second, received at another. -/
def syncAt (master slave : UInt8) : Event :=
  .readable <| .delivered
    { bytes := [0x0C] ++ List.replicate 43 0 ++ [0x80, 0x04] ++ List.replicate 19 0 ++ [master] ++
        List.replicate 21 0 ++ [slave] ++ List.replicate 4 0
      length_le := by simp [MAX_PKT_LEN] }

/-- A delay record: sent by the slave at a second, received at another. -/
def delayAt (slave master : UInt8) : Event :=
  .readable <| .delivered
    { bytes := [0x0C] ++ List.replicate 43 0 ++ [0x7f, 0x00] ++ List.replicate 19 0 ++ [slave] ++
        List.replicate 17 0 ++ [master] ++ List.replicate 4 0
      length_le := by simp [MAX_PKT_LEN] }

/-- A sync message, and an announce message that repeats its call. -/
def repeatedEvents : List Event := [syncAt 2 3, .idle, .readable (.delivered announceDatagram)]

/-- An announce message is dispatched on the type that the sync message before it left in
`msg_type`, and runs `clock_update` again with the same times. The station does so too, as a general
message repeats the last call. -/
theorem loop_refines_station_repeated :
    messages repeatedEvents = [.sync 2000000000 3000000000, .general] ∧
      ∃ program ∈ sampleProgram,
        (repeatedEvents.foldlM (loopStep (servoOps powOne) program.device)
            ⟨zeroLocals, program.sys⟩).map Loop.station =
          (messages repeatedEvents).foldlM (messageStep (servoOps powOne) program.device)
            (Loop.station ⟨zeroLocals, program.sys⟩) := by
  refine ⟨by decide +kernel, ?_⟩
  have hsome : ∃ program ∈ sampleProgram, True := by decide +kernel
  obtain ⟨program, hprogram, -⟩ := hsome
  have hlegible : ∀ event ∈ repeatedEvents, Legible event := by
    simp only [repeatedEvents, List.forall_mem_cons]
    refine ⟨by decide +kernel, by decide +kernel, by decide +kernel, ?_⟩
    simp
  exact ⟨program, hprogram, loop_refines_station _ _ _ _ hlegible⟩

end ExternalServo
