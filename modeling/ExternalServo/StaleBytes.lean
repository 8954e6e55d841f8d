import ExternalServo.Dispatch

/-!
# Bytes left in the buffer

The decoder reads at fixed offsets, without the length of the datagram, and a failed receive
counts as 65535 bytes. A receive is `Covered` when every byte that is read was delivered by it.

* `bufferIndependent_iff` — for one iteration, from any state: the old contents of the buffer
  have no influence exactly if the receive is covered;
* `sameProtocol_step` — over covered receives, two runs stay together (`Related.run`).
-/

namespace ExternalServo

open CArith ByteOrder Runs

/-! ## What is read -/

/-- The bytes of a signalling message up to the end of a sync record. -/
def syncEnd : Nat := recordOffset + sizeofSyncRecord

/-- The bytes of a signalling message up to the end of a delay record. -/
def delayEnd : Nat := recordOffset + sizeofDelayRecord

/-- Every byte that is read was delivered. A failed receive delivers none and is decoded all the
same; an empty datagram is not decoded, one that is not signalling is read up to its message type,
and one that is signalling up to the end of its record, if its TLV has a type with one. -/
def Covered : Recv → Prop
  | .failed => False
  | .delivered datagram =>
    datagram.bytes = [] ∨ messageType datagram.bytes ≠ SIGNALING ∨
      (suffixOffset + 2 ≤ datagram.bytes.length ∧
        (firstTlvType datagram.bytes = TLV_SLAVE_RX_SYNC_TIMING_DATA →
          syncEnd ≤ datagram.bytes.length) ∧
        (firstTlvType datagram.bytes = SLAVE_DELAY_TIMING_DATA_NP →
          delayEnd ≤ datagram.bytes.length))

instance : DecidablePred Covered
  | .failed => inferInstanceAs (Decidable False)
  | .delivered _ => inferInstanceAs (Decidable (_ ∨ _))

/-- The decoder reads the record of the type it finds, and nothing else. -/
theorem processMessage_congr {data data' : List UInt8} (vars : LoopVars)
    (htype : messageType data = messageType data')
    (htlv : messageType data = SIGNALING → firstTlvType data = firstTlvType data')
    (hsync : messageType data = SIGNALING →
      firstTlvType data = TLV_SLAVE_RX_SYNC_TIMING_DATA →
        loadSyncRecord data recordOffset = loadSyncRecord data' recordOffset)
    (hdelay : messageType data = SIGNALING →
      firstTlvType data = SLAVE_DELAY_TIMING_DATA_NP →
        loadDelayRecord data recordOffset = loadDelayRecord data' recordOffset) :
    processMessage data vars = processMessage data' vars := by
  simp only [processMessage]
  rw [← htype]
  by_cases hsignaling : messageType data = SIGNALING
  · simp only [hsignaling, if_true, ← htlv hsignaling]
    split
    · next h => rw [hsync hsignaling h]
    · split
      · next h => rw [hdelay hsignaling h]
      · rfl
  · simp only [hsignaling, if_false]

section Delivered

variable (data : Buffer) {datagram : Datagram}

theorem loadTimestamp_recv {off : Nat} (h : off + sizeofTimestamp ≤ datagram.bytes.length) :
    loadTimestamp (data.recv (.delivered datagram)).bytes off =
      loadTimestamp datagram.bytes off := by
  have hend : off + 10 ≤ datagram.bytes.length := h
  rw [loadTimestamp, loadTimestamp, load16, load16, load32, load32, load32, load32,
    field_recv data (by omega), field_recv data (by omega), field_recv data (by omega)]

theorem loadSyncRecord_recv (h : syncEnd ≤ datagram.bytes.length) :
    loadSyncRecord (data.recv (.delivered datagram)).bytes recordOffset =
      loadSyncRecord datagram.bytes recordOffset := by
  have hend : recordOffset + 34 ≤ datagram.bytes.length := h
  rw [loadSyncRecord, loadSyncRecord, load64, load64,
    loadTimestamp_recv data (by unfold sizeofTimestamp; omega),
    loadTimestamp_recv data (by unfold sizeofTimestamp; omega), field_recv data (by omega)]

theorem loadDelayRecord_recv (h : delayEnd ≤ datagram.bytes.length) :
    loadDelayRecord (data.recv (.delivered datagram)).bytes recordOffset =
      loadDelayRecord datagram.bytes recordOffset := by
  have hend : recordOffset + 30 ≤ datagram.bytes.length := h
  rw [loadDelayRecord, loadDelayRecord, load64, load64,
    loadTimestamp_recv data (by unfold sizeofTimestamp; omega),
    loadTimestamp_recv data (by unfold sizeofTimestamp; omega), field_recv data (by omega)]

/-- What a covered datagram decodes to does not depend on the buffer it is received in. -/
theorem processMessage_recv (data' : Buffer) (vars : LoopVars) (hempty : datagram.bytes ≠ [])
    (hcovered : Covered (.delivered datagram)) :
    processMessage (data.recv (.delivered datagram)).bytes vars =
      processMessage (data'.recv (.delivered datagram)).bytes vars := by
  have hread : messageType datagram.bytes = SIGNALING →
      suffixOffset + 2 ≤ datagram.bytes.length ∧
        (firstTlvType datagram.bytes = TLV_SLAVE_RX_SYNC_TIMING_DATA →
          syncEnd ≤ datagram.bytes.length) ∧
        (firstTlvType datagram.bytes = SLAVE_DELAY_TIMING_DATA_NP →
          delayEnd ≤ datagram.bytes.length) := by
    intro hsignaling
    rcases hcovered with h | h | h
    · exact absurd h hempty
    · exact absurd hsignaling h
    · exact h
  refine processMessage_congr vars ?_ ?_ ?_ ?_
  · rw [messageType_recv data hempty, messageType_recv data' hempty]
  · intro hsignaling
    rw [messageType_recv data hempty] at hsignaling
    have hlength := (hread hsignaling).1
    rw [firstTlvType_recv data hlength, firstTlvType_recv data' hlength]
  · intro hsignaling htlv
    rw [messageType_recv data hempty] at hsignaling
    obtain ⟨hlength, hsync, -⟩ := hread hsignaling
    rw [firstTlvType_recv data hlength] at htlv
    rw [loadSyncRecord_recv data (hsync htlv), loadSyncRecord_recv data' (hsync htlv)]
  · intro hsignaling htlv
    rw [messageType_recv data hempty] at hsignaling
    obtain ⟨hlength, -, hdelay⟩ := hread hsignaling
    rw [firstTlvType_recv data hlength] at htlv
    rw [loadDelayRecord_recv data (hdelay htlv), loadDelayRecord_recv data' (hdelay htlv)]

end Delivered

/-! ## One byte of the buffer -/

/-- A buffer of zeros but for one byte. -/
def Buffer.single (k : Nat) (v : UInt8) : Buffer :=
  { bytes := (List.replicate MAX_PKT_LEN 0).set k v
    length_eq := by rw [List.length_set, List.length_replicate] }

/-- A byte beyond the datagram keeps its value. -/
theorem recv_single {datagram : Datagram} {k : Nat} (h : datagram.bytes.length ≤ k) (v : UInt8) :
    ((Buffer.single k v).recv (.delivered datagram)).bytes =
      (datagram.bytes ++ (List.replicate MAX_PKT_LEN 0).drop datagram.bytes.length).set k v := by
  change datagram.bytes ++ ((List.replicate MAX_PKT_LEN 0).set k v).drop _ = _
  rw [List.set_append_right _ _ h, List.drop_set, if_neg (by omega)]

/-- A byte outside a field does not count in it. -/
theorem field_set (bytes : List UInt8) {k off w : Nat} (v : UInt8) (h : off + w ≤ k) :
    field (bytes.set k v) off w = field bytes off w := by
  rw [field, field, List.drop_set]
  split
  · rfl
  · rw [List.take_set_of_le (by omega)]

/-- A field that ends with the byte. -/
theorem field_set_last {bytes : List UInt8} {k off w : Nat} (v : UInt8) (hk : off + w = k)
    (hlength : k < bytes.length) :
    field (bytes.set k v) off (w + 1) = field bytes off w ++ [v] := by
  have hw : w < (bytes.drop off).length := by rw [List.length_drop]; omega
  have htake : ((bytes.drop off).take w).length = w := List.length_take_of_le hw.le
  rw [field, field, List.drop_set, if_neg (by omega), show k - off = w by omega,
    List.take_set, List.take_add_one, List.getElem?_eq_getElem hw,
    List.set_append_right _ _ htake.le, htake, Nat.sub_self]
  rfl

/-- Two buffers that differ in the last byte of a field have different fields. -/
theorem beValue_single_ne {datagram : Datagram} {k off w : Nat} (hk : off + w = k)
    (hlength : datagram.bytes.length ≤ k) (hbuffer : k < MAX_PKT_LEN) :
    beValue (field ((Buffer.single k 0).recv (.delivered datagram)).bytes off (w + 1)) ≠
      beValue (field ((Buffer.single k 1).recv (.delivered datagram)).bytes off (w + 1)) := by
  have hinside : k < (datagram.bytes ++
      (List.replicate MAX_PKT_LEN (0 : UInt8)).drop datagram.bytes.length).length := by
    rw [List.length_append, List.length_drop, List.length_replicate]
    omega
  rw [recv_single hlength, recv_single hlength, field_set_last 0 hk hinside,
    field_set_last 1 hk hinside]
  intro h
  have hbyte : (0 : UInt8) = 1 := beValue_concat_inj h
  exact absurd hbyte (by decide)

/-- Two such buffers agree on the fields before that byte. -/
theorem field_single {datagram : Datagram} {k off w : Nat} (h : off + w ≤ k)
    (hlength : datagram.bytes.length ≤ k) :
    field ((Buffer.single k 0).recv (.delivered datagram)).bytes off w =
      field ((Buffer.single k 1).recv (.delivered datagram)).bytes off w := by
  rw [recv_single hlength, recv_single hlength, field_set _ _ h, field_set _ _ h]

/-- The nanoseconds count in a timestamp. -/
theorem timestampNtohns_ne {ts ts' : Timestamp} (hmsb : ts.secondsMsb = ts'.secondsMsb)
    (hlsb : ts.secondsLsb = ts'.secondsLsb)
    (hns : (ntohl ts.nanoseconds).toNat ≠ (ntohl ts'.nanoseconds).toNat) :
    timestampNtohns ts ≠ timestampNtohns ts' := by
  intro h
  unfold timestampNtohns at h
  rw [hmsb, hlsb] at h
  have hns64 := congrArg UInt64.toNat ((UInt64.add_right_inj _).mp h)
  rw [UInt32.toNat_toUInt64, UInt32.toNat_toUInt64] at hns64
  exact hns hns64

/-- A timestamp whose last byte was not delivered. -/
theorem loadTimestamp_single_ne {datagram : Datagram} {off : Nat}
    (hlength : datagram.bytes.length < off + sizeofTimestamp)
    (hbuffer : off + sizeofTimestamp ≤ MAX_PKT_LEN) :
    timestampNtohns (loadTimestamp
        ((Buffer.single (off + 9) 0).recv (.delivered datagram)).bytes off) ≠
      timestampNtohns (loadTimestamp
        ((Buffer.single (off + 9) 1).recv (.delivered datagram)).bytes off) := by
  unfold sizeofTimestamp at hlength hbuffer
  have hle : datagram.bytes.length ≤ off + 9 := by omega
  have hinside : ∀ data : Buffer,
      off + 6 + 4 ≤ (data.recv (.delivered datagram)).bytes.length := by
    intro data
    rw [(data.recv _).length_eq]
    omega
  refine timestampNtohns_ne ?_ ?_ ?_
  · rw [loadTimestamp, loadTimestamp, load16, load16, field_single (by omega) hle]
  · rw [loadTimestamp, loadTimestamp, load32, load32, load32, load32,
      field_single (by omega : off + 2 + 4 ≤ off + 9) hle]
  · rw [loadTimestamp, loadTimestamp, ntohl_load32 (hinside _), ntohl_load32 (hinside _)]
    exact beValue_single_ne (w := 3) (by omega) hle (by omega)

/-! ## Receives that read more than they deliver -/

section NotCovered

variable {datagram : Datagram}

/-- The TLV type of a datagram that ends before it. -/
theorem msgType_single_ne (vars : LoopVars) (hempty : datagram.bytes ≠ [])
    (hsignaling : messageType datagram.bytes = SIGNALING)
    (hlength : datagram.bytes.length < suffixOffset + 2) :
    (processMessage ((Buffer.single (suffixOffset + 1) 0).recv (.delivered datagram)).bytes
        vars).msgType ≠
      (processMessage ((Buffer.single (suffixOffset + 1) 1).recv (.delivered datagram)).bytes
        vars).msgType := by
  have hinside : ∀ data : Buffer,
      suffixOffset + 2 ≤ (data.recv (.delivered datagram)).bytes.length := by
    intro data
    rw [(data.recv _).length_eq]
    decide
  have htype : ∀ data : Buffer,
      messageType (data.recv (.delivered datagram)).bytes = SIGNALING := by
    intro data
    exact (messageType_recv data hempty).trans hsignaling
  rw [processMessage_msgType, processMessage_msgType, if_pos (htype _), if_pos (htype _)]
  intro h
  have hvalue := congrArg UInt16.toNat h
  rw [firstTlvType, firstTlvType, ntohs_load16 (hinside _), ntohs_load16 (hinside _)] at hvalue
  exact beValue_single_ne (w := 1) rfl (by omega) (by decide) hvalue

/-- The slave's time of a sync record that ends before it. -/
theorem slaveTime_single_ne (vars : LoopVars) (hempty : datagram.bytes ≠ [])
    (hsignaling : messageType datagram.bytes = SIGNALING)
    (hlength : suffixOffset + 2 ≤ datagram.bytes.length)
    (hsync : firstTlvType datagram.bytes = TLV_SLAVE_RX_SYNC_TIMING_DATA)
    (hend : datagram.bytes.length < syncEnd) :
    (processMessage ((Buffer.single (recordOffset + 24 + 9) 0).recv (.delivered datagram)).bytes
        vars).slaveTime ≠
      (processMessage ((Buffer.single (recordOffset + 24 + 9) 1).recv (.delivered datagram)).bytes
        vars).slaveTime := by
  have hslave : ∀ data : Buffer,
      (processMessage (data.recv (.delivered datagram)).bytes vars).slaveTime =
        (timestampNtohns (loadTimestamp (data.recv (.delivered datagram)).bytes
          (recordOffset + 24))).toInt64 := by
    intro data
    have htype := (messageType_recv data hempty).trans hsignaling
    have htlv := (firstTlvType_recv data hlength).trans hsync
    simp only [processMessage, htype, if_true, htlv]
    rfl
  rw [hslave, hslave]
  intro h
  exact loadTimestamp_single_ne hend (by decide) (congrArg Int64.toUInt64 h)

/-- The master's time of a delay record that ends before it. Two buffers that differ in one byte of
the missing part decode to different times, as the correction was delivered in full. -/
theorem masterTime_single_ne (vars : LoopVars) (hempty : datagram.bytes ≠ [])
    (hsignaling : messageType datagram.bytes = SIGNALING)
    (hlength : suffixOffset + 2 ≤ datagram.bytes.length)
    (hdelay : firstTlvType datagram.bytes = SLAVE_DELAY_TIMING_DATA_NP)
    (hend : datagram.bytes.length < delayEnd) :
    (processMessage ((Buffer.single (recordOffset + 20 + 9) 0).recv (.delivered datagram)).bytes
        vars).masterTime ≠
      (processMessage ((Buffer.single (recordOffset + 20 + 9) 1).recv (.delivered datagram)).bytes
        vars).masterTime := by
  have hmaster : ∀ data : Buffer,
      (processMessage (data.recv (.delivered datagram)).bytes vars).masterTime =
        (timestampNtohns (loadTimestamp (data.recv (.delivered datagram)).bytes
          (recordOffset + 20))).toInt64 -
        ((ntoh64 (load64 (data.recv (.delivered datagram)).bytes
          (recordOffset + 12))).toInt64 >>> 16) := by
    intro data
    have htype := (messageType_recv data hempty).trans hsignaling
    have htlv := (firstTlvType_recv data hlength).trans hdelay
    have hne : SLAVE_DELAY_TIMING_DATA_NP ≠ TLV_SLAVE_RX_SYNC_TIMING_DATA := by decide
    simp only [processMessage, htype, if_true, htlv, hne, if_false]
    rfl
  -- the corrections agree, the times do not
  have hcorr : field ((Buffer.single (recordOffset + 20 + 9) 0).recv (.delivered datagram)).bytes
      (recordOffset + 12) 8 =
      field ((Buffer.single (recordOffset + 20 + 9) 1).recv (.delivered datagram)).bytes
        (recordOffset + 12) 8 :=
    field_single (by decide) (Nat.le_of_lt_succ hend)
  rw [hmaster, hmaster, load64, load64, hcorr]
  intro h
  exact loadTimestamp_single_ne hend (by decide)
    (congrArg Int64.toUInt64 ((Int64.sub_left_inj _).mp h))

/-- A receive that is not covered decodes differently in some two buffers. What is missing is the
type of the TLV, or a part of the one record that is read, and each of them gets its own byte to
differ in. -/
theorem exists_processMessage_ne (vars : LoopVars) (hempty : datagram.bytes ≠ [])
    (hcovered : ¬ Covered (.delivered datagram)) :
    ∃ data data' : Buffer,
      processMessage (data.recv (.delivered datagram)).bytes vars ≠
        processMessage (data'.recv (.delivered datagram)).bytes vars := by
  unfold Covered at hcovered
  rw [not_or, not_or, not_not] at hcovered
  obtain ⟨-, hsignaling, hread⟩ := hcovered
  by_cases hlength : suffixOffset + 2 ≤ datagram.bytes.length
  · by_cases hsync : firstTlvType datagram.bytes = TLV_SLAVE_RX_SYNC_TIMING_DATA ∧
        datagram.bytes.length < syncEnd
    · refine ⟨Buffer.single (recordOffset + 24 + 9) 0, Buffer.single (recordOffset + 24 + 9) 1, ?_⟩
      intro h
      exact slaveTime_single_ne vars hempty hsignaling hlength hsync.1 hsync.2
        (congrArg LoopVars.slaveTime h)
    · by_cases hdelay : firstTlvType datagram.bytes = SLAVE_DELAY_TIMING_DATA_NP ∧
          datagram.bytes.length < delayEnd
      · refine ⟨Buffer.single (recordOffset + 20 + 9) 0,
          Buffer.single (recordOffset + 20 + 9) 1, ?_⟩
        intro h
        exact masterTime_single_ne vars hempty hsignaling hlength hdelay.1 hdelay.2
          (congrArg LoopVars.masterTime h)
      · -- otherwise the record that is read was delivered
        refine absurd ⟨hlength, ?_, ?_⟩ hread
        · intro htlv
          by_contra hlt
          exact hsync ⟨htlv, Nat.lt_of_not_le hlt⟩
        · intro htlv
          by_contra hlt
          exact hdelay ⟨htlv, Nat.lt_of_not_le hlt⟩
  · refine ⟨Buffer.single (suffixOffset + 1) 0, Buffer.single (suffixOffset + 1) 1, ?_⟩
    intro h
    exact msgType_single_ne vars hempty hsignaling (Nat.lt_of_not_le hlength)
      (congrArg LoopVars.msgType h)

end NotCovered

/-- A buffer with the start of a signalling message, whose TLV type is `v`. -/
def Buffer.signaling (v : UInt8) : Buffer :=
  { bytes := ((List.replicate MAX_PKT_LEN 0).set 0 SIGNALING).set (suffixOffset + 1) v
    length_eq := by rw [List.length_set, List.length_set, List.length_replicate] }

/-- After a failed receive the buffer is decoded as it is. -/
theorem exists_processMessage_failed_ne (vars : LoopVars) :
    ∃ data data' : Buffer, processMessage (data.recv .failed).bytes vars ≠
      processMessage (data'.recv .failed).bytes vars := by
  have hzero : (processMessage ((Buffer.signaling 0).recv .failed).bytes vars).msgType = 0 := by
    rw [processMessage_msgType, if_pos (by decide)]
    decide
  have hone : (processMessage ((Buffer.signaling 1).recv .failed).bytes vars).msgType = 1 := by
    rw [processMessage_msgType, if_pos (by decide)]
    decide
  refine ⟨Buffer.signaling 0, Buffer.signaling 1, ?_⟩
  intro h
  have htype := congrArg LoopVars.msgType h
  rw [hzero, hone] at htype
  exact absurd htype (by decide)

/-! ## Iterations -/

variable {D σ : Type} [CDouble D]

/-- What an iteration makes of the protocol state: of the locals other than the buffer, and of the
time stamp processor, the servo and the clocks. The buffer itself is left out, as it holds the old
bytes in any case. -/
def outcome (ops : ServoOps D σ) (dev : DeviceConfig) (loop : Loop D σ) (recv : Recv) :
    LoopVars × Except Fault (Sys D σ) :=
  let (locals, handler) := receive loop.locals recv
  (locals.vars, effect ops dev loop.sys handler)

theorem outcome_fst (ops : ServoOps D σ) (dev : DeviceConfig) (loop : Loop D σ) (recv : Recv) :
    (outcome ops dev loop recv).1 = (receive loop.locals recv).1.vars := rfl

/-- An iteration with a given protocol state has the same outcome whatever the buffer held. The two
runs that are compared receive the same; only the bytes that were there before differ. -/
def BufferIndependent (ops : ServoOps D σ) (dev : DeviceConfig) (vars : LoopVars) (sys : Sys D σ)
    (recv : Recv) : Prop :=
  ∀ data data' : Buffer,
    outcome ops dev ⟨⟨vars, data⟩, sys⟩ recv = outcome ops dev ⟨⟨vars, data'⟩, sys⟩ recv

/-- Two states of the loop with the same protocol state. Their buffers may hold different bytes, for
instance because one of them received longer datagrams earlier. -/
def SameProtocol (loop loop' : Loop D σ) : Prop :=
  loop.locals.vars = loop'.locals.vars ∧ loop.sys = loop'.sys

/-- A covered receive leads to the same locals and the same handler. -/
theorem receive_congr {locals locals' : Locals} (hvars : locals.vars = locals'.vars) {recv : Recv}
    (hcovered : Covered recv) :
    (receive locals recv).1.vars = (receive locals' recv).1.vars ∧
      (receive locals recv).2 = (receive locals' recv).2 := by
  cases recv with
  | failed => exact hcovered.elim
  | delivered datagram =>
    by_cases hempty : datagram.bytes = []
    · have hrecv : (Recv.delivered datagram).Empty := hempty
      rw [receive_of_empty hrecv, receive_of_empty hrecv]
      exact ⟨hvars, rfl⟩
    · have hrecv : ¬ (Recv.delivered datagram).Empty := hempty
      have hdecode :=
        processMessage_recv locals.data locals'.data locals'.vars hempty hcovered
      rw [receive_of_not_empty hrecv, receive_of_not_empty hrecv, hvars, hdecode]
      exact ⟨rfl, rfl⟩

/-- **One iteration.** From any protocol state, the old contents of the buffer have no influence on
the outcome if and only if the receive is covered. Where a byte is read that was not delivered, two
buffers that differ in it decode to different types or times. -/
theorem bufferIndependent_step (ops : ServoOps D σ) (dev : DeviceConfig) (vars : LoopVars)
    (sys : Sys D σ) (recv : Recv) :
    BufferIndependent ops dev vars sys recv ↔ Covered recv := by
  refine ⟨?_, ?_⟩
  · intro hindependent
    by_contra hcovered
    have hdecode : ∀ hempty : ¬ recv.Empty, ∀ data data' : Buffer,
        processMessage (data.recv recv).bytes vars =
          processMessage (data'.recv recv).bytes vars := by
      intro hempty data data'
      have hvars := congrArg Prod.fst (hindependent data data')
      rwa [outcome_fst, outcome_fst, receive_of_not_empty hempty, receive_of_not_empty hempty]
        at hvars
    cases recv with
    | failed =>
      obtain ⟨data, data', hne⟩ := exists_processMessage_failed_ne vars
      exact hne (hdecode id data data')
    | delivered datagram =>
      have hempty : datagram.bytes ≠ [] := by
        intro h
        exact hcovered (.inl h)
      obtain ⟨data, data', hne⟩ := exists_processMessage_ne vars hempty hcovered
      exact hne (hdecode hempty data data')
  · intro hcovered data data'
    have hlocals : (⟨vars, data⟩ : Locals).vars = (⟨vars, data'⟩ : Locals).vars := rfl
    obtain ⟨hvars, hhandler⟩ := receive_congr hlocals hcovered
    exact Prod.ext hvars (congrArg (effect ops dev sys) hhandler)

/-- The receives of an event are covered. -/
def Event.Covered : Event → Prop
  | .idle => True
  | .readable recv => ExternalServo.Covered recv

/-- An iteration keeps the protocol states of two loops together. -/
theorem sameProtocol_step (ops : ServoOps D σ) (dev : DeviceConfig) {loop loop' : Loop D σ}
    (event : Event) (h : SameProtocol loop loop') (hcovered : event.Covered) :
    Related SameProtocol (loopStep ops dev loop event) (loopStep ops dev loop' event) := by
  cases event with
  | idle => exact h
  | readable recv =>
    obtain ⟨hvars, hsys⟩ := h
    obtain ⟨hvars, hhandler⟩ := receive_congr hvars hcovered
    simp only [loopStep, hhandler, hsys]
    cases effect ops dev loop'.sys (receive loop'.locals recv).2 with
    | error e => exact rfl
    | ok sys => exact ⟨hvars, rfl⟩

/-- **Stale bytes.** The outcome of an iteration is independent of the old contents of the buffer
exactly if its receive is covered, whatever the protocol state; and over covered receives, two runs
from the same protocol state reach the same protocol states, with the same adjustments of the
clocks. -/
theorem bufferIndependent_iff (ops : ServoOps D σ) (dev : DeviceConfig) :
    (∀ vars sys recv, BufferIndependent ops dev vars sys recv ↔ Covered recv) ∧
      ∀ events : List Event, (∀ event ∈ events, event.Covered) →
        ∀ loop loop' : Loop D σ, SameProtocol loop loop' →
          Related SameProtocol (events.foldlM (loopStep ops dev) loop)
            (events.foldlM (loopStep ops dev) loop') := by
  refine ⟨bufferIndependent_step ops dev, ?_⟩
  intro events hcovered loop loop' h
  refine Related.run ?_ h hcovered
  intro loop loop' event h hevent
  exact sameProtocol_step ops dev event h hevent

/-- The buffer after a sync record was received into it. -/
def staleData : Buffer := zeroLocals.data.recv (.delivered syncDatagram)

/-- The time `t1` that a failed receive over a buffer leaves in the time stamp processor. -/
def t1AfterFailed (program : Program XRat) (data : Buffer) : Except Fault Tmv :=
  (outcome (servoOps powOne) program.device ⟨⟨zeroLocals.vars, data⟩, program.sys⟩ .failed).2.map
    fun sys => sys.tsp.t1

/-- A failed receive decodes a sync record that an earlier datagram left in the buffer and runs
`clock_update` on its times. Over a zeroed buffer the same receive calls nothing, and the times
stay missing. -/
theorem not_bufferIndependent_failed :
    ∃ program ∈ sampleProgram,
      (receive zeroLocals .failed).2 = none ∧
        (receive ⟨zeroLocals.vars, staleData⟩ .failed).2 =
          some (.clockUpdate 2000000000 3000000000) ∧
        t1AfterFailed program zeroLocals.data = .ok tmvZero ∧
        t1AfterFailed program staleData = .ok ⟨2000000000⟩ ∧
        ¬ BufferIndependent (servoOps powOne) program.device zeroLocals.vars program.sys
          .failed := by
  have h : ∃ program ∈ sampleProgram,
      t1AfterFailed program zeroLocals.data = .ok tmvZero ∧
        t1AfterFailed program staleData = .ok ⟨2000000000⟩ := by
    decide +kernel
  obtain ⟨program, hprogram, hkept, htaken⟩ := h
  refine ⟨program, hprogram, by decide +kernel, by decide +kernel, hkept, htaken, ?_⟩
  intro hindependent
  have heffect := congrArg (fun o => o.2.map fun sys => sys.tsp.t1)
    (hindependent zeroLocals.data staleData)
  exact absurd (hkept.symm.trans (heffect.trans htaken)) (by decide)

end ExternalServo
