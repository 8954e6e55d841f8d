import ExternalServo.Tmv
import ExternalServo.ByteOrder

/-!
# Messages (`msg.c`, `msg.h`)

A datagram is decoded in place: the structures of `msg.h` are packed, so each field is
at a fixed offset of the receive buffer, and the decoder is given the buffer without the
length of the datagram. The host is little-endian; `ntohs`, `ntohl` and `ntoh64` swap the
bytes of what was loaded.

`processMessage` has three out-parameters, `LoopVars`. They belong to the caller and keep
their values on the paths that do not write them.
-/

namespace ExternalServo

open CArith ByteOrder

/-- `SIGNALING` -/
def SIGNALING : UInt8 := 0xC

/-- `TLV_SLAVE_RX_SYNC_TIMING_DATA` -/
def TLV_SLAVE_RX_SYNC_TIMING_DATA : UInt16 := 0x8004

/-- `SLAVE_DELAY_TIMING_DATA_NP` -/
def SLAVE_DELAY_TIMING_DATA_NP : UInt16 := 0x7f00

/-! ## Loading fields -/

/-- The `w` bytes at offset `off`. -/
def field (data : List UInt8) (off w : Nat) : List UInt8 := (data.drop off).take w

/-- A 16-bit load. -/
def load16 (data : List UInt8) (off : Nat) : UInt16 := UInt16.ofNat (leValue (field data off 2))

/-- A 32-bit load. -/
def load32 (data : List UInt8) (off : Nat) : UInt32 := UInt32.ofNat (leValue (field data off 4))

/-- A 64-bit load. -/
def load64 (data : List UInt8) (off : Nat) : UInt64 := UInt64.ofNat (leValue (field data off 8))

/-- Network to host order, 16 bits. -/
def ntohs (x : UInt16) : UInt16 := UInt16.ofNat (byteSwap 2 x.toNat)

/-- Network to host order, 32 bits. -/
def ntohl (x : UInt32) : UInt32 := UInt32.ofNat (byteSwap 4 x.toNat)

/-- Network to host order, 64 bits. -/
def ntoh64 (x : UInt64) : UInt64 := UInt64.ofNat (byteSwap 8 x.toNat)

/-! ## Layout -/

/-- Bytes of a `struct PortIdentity`: an 8-byte clock identity and a port number. -/
def sizeofPortIdentity : Nat := 10

/-- Bytes of a `struct ptp_header`. -/
def sizeofPtpHeader : Nat := 34

/-- Bytes of a `struct Timestamp`. -/
def sizeofTimestamp : Nat := 10

/-- Offset of `suffix` in a `struct signaling_msg`: after the header and the target port. -/
def suffixOffset : Nat := sizeofPtpHeader + sizeofPortIdentity

/-- Offset of the first record of the first TLV: after its type, length and source port. The source
casts the suffix to the TLV and reads the record in place, whatever the TLV says about its length.
-/
def recordOffset : Nat := suffixOffset + 4 + sizeofPortIdentity

/-- A `struct Timestamp` at an offset. -/
def loadTimestamp (data : List UInt8) (off : Nat) : Timestamp :=
  { secondsMsb := load16 data off
    secondsLsb := load32 data (off + 2)
    nanoseconds := load32 data (off + 6) }

/-- The fields of a `struct slave_rx_sync_timing_record` that are used. They are loaded as the host
reads them, and are brought into its byte order by `process_rx_sync_msg`. -/
structure SlaveRxSyncTimingRecord where
  /-- when the sync message left the master -/
  syncOriginTimestamp : Timestamp
  /-- correction, in units of `2 ^ -16` nanoseconds -/
  totalCorrectionField : UInt64
  /-- when the sync message arrived -/
  syncEventIngressTimestamp : Timestamp

/-- Bytes of a `struct slave_rx_sync_timing_record`. -/
def sizeofSyncRecord : Nat := 34

/-- The record at an offset: a 2-byte sequence number stands before the fields, a 4-byte rate
offset before the last one. -/
def loadSyncRecord (data : List UInt8) (off : Nat) : SlaveRxSyncTimingRecord :=
  { syncOriginTimestamp := loadTimestamp data (off + 2)
    totalCorrectionField := load64 data (off + 12)
    syncEventIngressTimestamp := loadTimestamp data (off + 24) }

/-- The fields of a `struct slave_delay_timing_record` that are used. The correction is taken off
the response here, where a sync message adds it to the origin time. -/
structure SlaveDelayTimingRecord where
  /-- when the delay request left the slave -/
  delayOriginTimestamp : Timestamp
  /-- correction, in units of `2 ^ -16` nanoseconds -/
  totalCorrectionField : UInt64
  /-- when the delay request arrived -/
  delayResponseTimestamp : Timestamp

/-- Bytes of a `struct slave_delay_timing_record`. -/
def sizeofDelayRecord : Nat := 30

/-- The record at an offset: a 2-byte sequence number stands before the fields. -/
def loadDelayRecord (data : List UInt8) (off : Nat) : SlaveDelayTimingRecord :=
  { delayOriginTimestamp := loadTimestamp data (off + 2)
    totalCorrectionField := load64 data (off + 12)
    delayResponseTimestamp := loadTimestamp data (off + 20) }

/-! ## Decoding -/

/-- The upper seconds after `<< 16`. They are promoted to `int`, the type of the shift: a result
that is no `int` is an overflow in C, and wraps around on the target. -/
def shiftedMsb (msb : UInt16) : Int32 := msb.toUInt32.toInt32 <<< 16

/-- `timestamp_ntohns`. The upper seconds are shifted in the type `int` and joined with the lower
ones in 32 bits; the nanoseconds are computed in 64. -/
def timestampNtohns (ts : Timestamp) : UInt64 :=
  let sec : UInt32 := ntohl ts.secondsLsb ||| (shiftedMsb (ntohs ts.secondsMsb)).toUInt32
  let timeNs : UInt64 := sec.toUInt64
  let timeNs := timeNs * 1000000000
  timeNs + (ntohl ts.nanoseconds).toUInt64

/-- `process_rx_sync_msg`: `t1` and `t2`. -/
def processRxSyncMsg (sync : SlaveRxSyncTimingRecord) : Int64 × Int64 :=
  let t1 := (timestampNtohns sync.syncOriginTimestamp).toInt64
  let t2 := (timestampNtohns sync.syncEventIngressTimestamp).toInt64
  let corr := (ntoh64 sync.totalCorrectionField).toInt64
  (t1 + (corr >>> 16), t2)

/-- `process_delay_timing_msg`: `t3` and `t4`. -/
def processDelayTimingMsg (delay : SlaveDelayTimingRecord) : Int64 × Int64 :=
  let t3 := (timestampNtohns delay.delayOriginTimestamp).toInt64
  let t4 := (timestampNtohns delay.delayResponseTimestamp).toInt64
  let corr := (ntoh64 delay.totalCorrectionField).toInt64
  (t3, t4 - (corr >>> 16))

/-- A timestamp in network byte order. -/
def timestampHton (ts : Timestamp) : Timestamp :=
  { secondsMsb := ntohs ts.secondsMsb
    secondsLsb := ntohl ts.secondsLsb
    nanoseconds := ntohl ts.nanoseconds }

/-- What `process_message` writes through its out-parameters: locals of the receive loop. A message
that is not signalling writes none of them, and the times are written for the two kinds of records
only; what is not written keeps what an earlier message left. -/
structure LoopVars where
  /-- `msg_type` of the caller, the TLV type -/
  msgType : UInt16
  /-- `master_time` -/
  masterTime : Int64
  /-- `slave_time` -/
  slaveTime : Int64
  deriving DecidableEq

/-- The message type of a datagram. -/
def messageType (data : List UInt8) : UInt8 := data.getD 0 0 &&& 0xf

/-- The type of the first TLV of a signalling message. -/
def firstTlvType (data : List UInt8) : UInt16 := ntohs (load16 data suffixOffset)

/-- `process_message` -/
def processMessage (data : List UInt8) (vars : LoopVars) : LoopVars :=
  let msgType := messageType data
  if msgType = SIGNALING then
    let tlvType := firstTlvType data
    if tlvType = TLV_SLAVE_RX_SYNC_TIMING_DATA then
      let (masterTime, slaveTime) := processRxSyncMsg (loadSyncRecord data recordOffset)
      { msgType := tlvType, masterTime, slaveTime }
    else if tlvType = SLAVE_DELAY_TIMING_DATA_NP then
      let (slaveTime, masterTime) := processDelayTimingMsg (loadDelayRecord data recordOffset)
      { msgType := tlvType, masterTime, slaveTime }
    else { vars with msgType := tlvType }
  else vars

/-! ## Fields as numbers -/

theorem length_field {data : List UInt8} {off w : Nat} (h : off + w ≤ data.length) :
    (field data off w).length = w := by
  rw [field, List.length_take, List.length_drop]
  omega

/-- A field within the first `n` bytes depends on these only. -/
theorem field_take {data : List UInt8} {off w n : Nat} (h : off + w ≤ n) :
    field (data.take n) off w = field data off w := by
  rw [field, field, List.drop_take, List.take_take, Nat.min_eq_left (by omega)]

/-- As bits, the shift in `int` is the one without a sign. -/
theorem toUInt32_shiftedMsb (msb : UInt16) : (shiftedMsb msb).toUInt32 = msb.toUInt32 <<< 16 := rfl

/-- The shift in `int`, as a number. -/
theorem toInt_shiftedMsb (msb : UInt16) :
    (shiftedMsb msb).toInt = ((msb.toNat : Int) * 2 ^ 16).bmod (2 ^ 32) := by
  have hlt := msb.toNat_lt
  have hshift : (shiftedMsb msb).toBitVec.toNat = msb.toNat * 2 ^ 16 := by
    have hbits : (shiftedMsb msb).toBitVec.toNat = (msb.toUInt32 <<< 16).toNat := rfl
    rw [hbits]
    simp [Nat.shiftLeft_eq]
    omega
  rw [← Int32.toInt_toBitVec, BitVec.toInt_eq_toNat_bmod, hshift]
  push_cast
  rfl

/-- **The shift overflows from the sixteenth bit on**: it is the number that it should be exactly if
the upper seconds have fifteen bits, as the sixteenth one would be the sign. -/
theorem toInt_shiftedMsb_eq_iff (msb : UInt16) :
    (shiftedMsb msb).toInt = msb.toNat * 2 ^ 16 ↔ msb.toNat < 2 ^ 15 := by
  have hlt := msb.toNat_lt
  rw [toInt_shiftedMsb, Int.bmod_def]
  omega

theorem ntohs_ntohs (x : UInt16) : ntohs (ntohs x) = x := by
  have hlt : byteSwap 2 x.toNat < 2 ^ 16 := byteSwap_lt 2 _
  rw [ntohs, ntohs, UInt16.toNat_ofNat_of_lt' hlt, byteSwap_byteSwap x.toNat_lt, UInt16.ofNat_toNat]

theorem ntohl_ntohl (x : UInt32) : ntohl (ntohl x) = x := by
  have hlt : byteSwap 4 x.toNat < 2 ^ 32 := byteSwap_lt 4 _
  rw [ntohl, ntohl, UInt32.toNat_ofNat_of_lt' hlt, byteSwap_byteSwap x.toNat_lt, UInt32.ofNat_toNat]

/-- A complete field: what is loaded of it, what it means and how the two are related. -/
theorem field_spec {data : List UInt8} {off w : Nat} (h : off + w ≤ data.length) :
    leValue (field data off w) < 256 ^ w ∧ beValue (field data off w) < 256 ^ w ∧
      byteSwap w (leValue (field data off w)) = beValue (field data off w) := by
  have hle := leValue_lt (field data off w)
  have hbe := beValue_lt (field data off w)
  have hswap := byteSwap_leValue (field data off w)
  rw [length_field h] at hle hbe hswap
  exact ⟨hle, hbe, hswap⟩

theorem ntohs_load16 {data : List UInt8} {off : Nat} (h : off + 2 ≤ data.length) :
    (ntohs (load16 data off)).toNat = beValue (field data off 2) := by
  obtain ⟨hle, hbe, hswap⟩ := field_spec h
  rw [ntohs, load16, UInt16.toNat_ofNat_of_lt' hle, hswap, UInt16.toNat_ofNat_of_lt' hbe]

theorem ntohl_load32 {data : List UInt8} {off : Nat} (h : off + 4 ≤ data.length) :
    (ntohl (load32 data off)).toNat = beValue (field data off 4) := by
  obtain ⟨hle, hbe, hswap⟩ := field_spec h
  rw [ntohl, load32, UInt32.toNat_ofNat_of_lt' hle, hswap, UInt32.toNat_ofNat_of_lt' hbe]

theorem ntoh64_load64 {data : List UInt8} {off : Nat} (h : off + 8 ≤ data.length) :
    (ntoh64 (load64 data off)).toNat = beValue (field data off 8) := by
  obtain ⟨hle, hbe, hswap⟩ := field_spec h
  rw [ntoh64, load64, UInt64.toNat_ofNat_of_lt' hle, hswap, UInt64.toNat_ofNat_of_lt' hbe]

end ExternalServo
