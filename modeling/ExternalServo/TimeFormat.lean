import ExternalServo.Msg
import Mathlib.Tactic.NormNum.GCD
import Mathlib.Tactic.Ring

/-!
# The time format on the wire

A timestamp has 48 bits of seconds and 32 bits of nanoseconds, both big-endian. The decoder
joins the two parts of the seconds with a shift of 16 instead of 32 bits, in a 32-bit
integer:

* `timestampNtohns_toInt` — what is decoded, for every timestamp;
* `decodedTime_exact_iff` — it is the time on the wire exactly below `2 ^ 32` seconds,
  even modulo `2 ^ 64`;
* `timeFormat_iff` — the same for whole messages and for the round trip through
  `tmv_to_Timestamp`.
-/

namespace ExternalServo

open CArith ByteOrder

/-! ## Times on the wire -/

/-- The 48-bit seconds of a timestamp. -/
def wireSeconds (data : List UInt8) (off : Nat) : Nat := beValue (field data off 6)

/-- The nanoseconds of a timestamp. -/
def wireNanoseconds (data : List UInt8) (off : Nat) : Nat := beValue (field data (off + 6) 4)

/-- The time of a timestamp in nanoseconds. -/
def wireTime (data : List UInt8) (off : Nat) : Int :=
  wireSeconds data off * 1000000000 + wireNanoseconds data off

/-- A signed 64-bit correction, in units of `2 ^ -16` nanoseconds. -/
def wireCorrection (data : List UInt8) (off : Nat) : Int :=
  (beValue (field data off 8) : Int).bmod (2 ^ 64)

/-- The value of a decoder's seconds: the lower 32 bits joined with the upper 16, moved up by
half of the distance. -/
def joinedSeconds (msb lsb : Nat) : Nat := lsb ||| msb * 2 ^ 16 % 2 ^ 32

theorem joinedSeconds_lt (msb : Nat) {lsb : Nat} (hlsb : lsb < 2 ^ 32) :
    joinedSeconds msb lsb < 2 ^ 32 :=
  Nat.or_lt_two_pow hlsb (Nat.mod_lt _ (by decide))

theorem joinedSeconds_zero (lsb : Nat) : joinedSeconds 0 lsb = lsb := by
  simp [joinedSeconds]

/-- Fewer than `2 ^ 48` seconds are no multiple of `2 ^ 64` nanoseconds. -/
theorem seconds_eq_zero {d : Nat} (hd : d < 2 ^ 48) (h : 2 ^ 64 ∣ d * 1000000000) : d = 0 := by
  have hodd : 2 ^ 55 ∣ d * 1953125 := by
    obtain ⟨k, hk⟩ := h
    refine ⟨k, Nat.eq_of_mul_eq_mul_left (by norm_num : 0 < 512) ?_⟩
    calc 512 * (d * 1953125) = d * 1000000000 := by ring
      _ = 2 ^ 64 * k := hk
      _ = 512 * (2 ^ 55 * k) := by ring
  have hcoprime : Nat.Coprime (2 ^ 55) 1953125 := Nat.Coprime.pow_left 55 (by norm_num)
  exact Nat.eq_zero_of_dvd_of_lt (hcoprime.dvd_of_dvd_mul_right hodd) (hd.trans (by norm_num))

/-- Upper seconds are lost, even when times are compared modulo `2 ^ 64`. -/
theorem joinedSeconds_dvd_iff {msb lsb : Nat} (hmsb : msb < 2 ^ 16) (hlsb : lsb < 2 ^ 32) :
    (2 ^ 64 : Int) ∣ (msb * 2 ^ 32 + lsb : Nat) * 1000000000 -
        joinedSeconds msb lsb * 1000000000 ↔ msb = 0 := by
  rcases Nat.eq_zero_or_pos msb with rfl | hpos
  · simp [joinedSeconds_zero]
  · have hjoined := joinedSeconds_lt msb hlsb
    obtain ⟨d, hd⟩ := Nat.exists_eq_add_of_le
      (show joinedSeconds msb lsb ≤ msb * 2 ^ 32 + lsb by omega)
    have hne : d ≠ 0 := by omega
    have hlt : d < 2 ^ 48 := by omega
    refine iff_of_false ?_ hpos.ne'
    intro h
    apply hne
    apply seconds_eq_zero hlt
    have hsub : ((msb * 2 ^ 32 + lsb : Nat) : Int) * 1000000000 -
        joinedSeconds msb lsb * 1000000000 = (d * 1000000000 : Nat) := by
      rw [hd]
      push_cast
      ring
    rw [hsub] at h
    exact_mod_cast h

/-! ## One timestamp -/

section Timestamp

variable {data : List UInt8} {off : Nat}

/-- The seconds on the wire, from the two fields that are loaded. -/
theorem wireSeconds_eq (h : off + 10 ≤ data.length) :
    wireSeconds data off =
      (ntohs (loadTimestamp data off).secondsMsb).toNat * 2 ^ 32 +
        (ntohl (loadTimestamp data off).secondsLsb).toNat := by
  have hsplit : field data off 6 = field data off 2 ++ field data (off + 2) 4 := by
    simp only [field]
    rw [← List.drop_drop, ← List.take_add]
  have hlen : (field data (off + 2) 4).length = 4 := length_field (by omega)
  simp only [loadTimestamp]
  rw [ntohs_load16 (by omega), ntohl_load32 (by omega), wireSeconds, hsplit, beValue_append, hlen]
  norm_num

theorem toInt_toInt64 (x : UInt64) : x.toInt64.toInt = (x.toNat : Int).bmod (2 ^ 64) := by
  rw [← Int64.toInt_toBitVec, UInt64.toBitVec_toInt64, BitVec.toInt_eq_toNat_bmod]
  rfl

/-- What is decoded, for every timestamp: the 32 bits of the joined seconds and those of the
nanoseconds, with room for both in 64 bits. -/
theorem timestampNtohns_toInt (ts : Timestamp) :
    (timestampNtohns ts).toInt64.toInt =
      joinedSeconds (ntohs ts.secondsMsb).toNat (ntohl ts.secondsLsb).toNat * 1000000000 +
        (ntohl ts.nanoseconds).toNat := by
  have hjoined := joinedSeconds_lt (ntohs ts.secondsMsb).toNat (ntohl ts.secondsLsb).toNat_lt
  have hnano := (ntohl ts.nanoseconds).toNat_lt
  have hsec : (ntohl ts.secondsLsb ||| ((ntohs ts.secondsMsb).toUInt32 <<< 16)).toNat =
      joinedSeconds (ntohs ts.secondsMsb).toNat (ntohl ts.secondsLsb).toNat := by
    simp [joinedSeconds, Nat.shiftLeft_eq]
  have hnat : (timestampNtohns ts).toNat =
      joinedSeconds (ntohs ts.secondsMsb).toNat (ntohl ts.secondsLsb).toNat * 1000000000 +
        (ntohl ts.nanoseconds).toNat := by
    simp only [timestampNtohns, toUInt32_shiftedMsb, UInt64.toNat_add, UInt64.toNat_mul,
      UInt32.toNat_toUInt64, hsec]
    have hbillion : (1000000000 : UInt64).toNat = 1000000000 := rfl
    rw [hbillion]
    omega
  rw [toInt_toInt64, hnat, Int.bmod_eq_of_le]
  · push_cast
    rfl
  · omega
  · omega

/-- The time that is decoded at an offset. -/
def decodedTime (data : List UInt8) (off : Nat) : Int :=
  (timestampNtohns (loadTimestamp data off)).toInt64.toInt

/-- **A decoded time, corrected and wrapped around, is the time on the wire exactly below `2 ^ 32`
seconds**, provided the exact value is in range. -/
theorem decodedTime_exact_iff (h : off + 10 ≤ data.length) (k : Int)
    (hlo : -2 ^ 63 ≤ wireTime data off + k) (hhi : wireTime data off + k < 2 ^ 63) :
    (decodedTime data off + k).bmod (2 ^ 64) = wireTime data off + k ↔
      wireSeconds data off < 2 ^ 32 := by
  have hmsb := (ntohs (loadTimestamp data off).secondsMsb).toNat_lt
  have hlsb := (ntohl (loadTimestamp data off).secondsLsb).toNat_lt
  have hseconds := wireSeconds_eq h
  have hnano : (ntohl (loadTimestamp data off).nanoseconds).toNat = wireNanoseconds data off :=
    ntohl_load32 (by omega)
  have hiff : wireSeconds data off < 2 ^ 32 ↔
      (ntohs (loadTimestamp data off).secondsMsb).toNat = 0 := by omega
  rw [hiff, ← joinedSeconds_dvd_iff hmsb hlsb, ← hseconds, decodedTime, timestampNtohns_toInt,
    hnano]
  have hdiff : wireTime data off + k - (joinedSeconds
      (ntohs (loadTimestamp data off).secondsMsb).toNat
      (ntohl (loadTimestamp data off).secondsLsb).toNat * 1000000000 +
        wireNanoseconds data off + k) =
      wireSeconds data off * 1000000000 - joinedSeconds
        (ntohs (loadTimestamp data off).secondsMsb).toNat
        (ntohl (loadTimestamp data off).secondsLsb).toNat * 1000000000 := by
    rw [wireTime]
    ring
  have hlo' : -(((2 ^ 64 : Nat) : Int) / 2) ≤ wireTime data off + k := by omega
  have hhi' : wireTime data off + k < (((2 ^ 64 : Nat) : Int) + 1) / 2 := by omega
  rw [← hdiff, Int.bmod_eq_iff (by norm_num)]
  refine ⟨?_, ?_⟩
  · rintro ⟨-, -, hdvd⟩
    exact_mod_cast hdvd
  · intro hdvd
    exact ⟨hlo', hhi', by exact_mod_cast hdvd⟩

end Timestamp

/-! ## Messages -/

/-- A signalling message with a complete sync timing record. -/
structure SyncMessage (data : List UInt8) : Prop where
  complete : recordOffset + sizeofSyncRecord ≤ data.length
  signalling : messageType data = SIGNALING
  tlv : firstTlvType data = TLV_SLAVE_RX_SYNC_TIMING_DATA

/-- A signalling message with a complete delay timing record. -/
structure DelayMessage (data : List UInt8) : Prop where
  complete : recordOffset + sizeofDelayRecord ≤ data.length
  signalling : messageType data = SIGNALING
  tlv : firstTlvType data = SLAVE_DELAY_TIMING_DATA_NP

/-- Where a sync message was sent, by the master's clock: the origin time, corrected. -/
def syncMasterTime (data : List UInt8) : Int :=
  wireTime data (recordOffset + 2) + wireCorrection data (recordOffset + 12) / 2 ^ 16

/-- When a sync message arrived, by the slave's clock. -/
def syncSlaveTime (data : List UInt8) : Int := wireTime data (recordOffset + 24)

/-- When a delay request was sent, by the slave's clock. -/
def delaySlaveTime (data : List UInt8) : Int := wireTime data (recordOffset + 2)

/-- When a delay request arrived, by the master's clock: the response time, corrected. -/
def delayMasterTime (data : List UInt8) : Int :=
  wireTime data (recordOffset + 20) - wireCorrection data (recordOffset + 12) / 2 ^ 16

/-- A signed number is shifted to the right: the quotient is rounded down. -/
theorem toInt_shiftRight (x : Int64) : (x >>> 16).toInt = x.toInt / 2 ^ 16 := by
  have hshift : (x >>> 16).toBitVec = x.toBitVec.sshiftRight 16 := by
    rw [Int64.toBitVec_shiftRight]
    rfl
  rw [← Int64.toInt_toBitVec, hshift, BitVec.toInt_sshiftRight, Int64.toInt_toBitVec,
    Int.shiftRight_eq_div_pow, Nat.cast_pow, Nat.cast_ofNat]

theorem toInt_correction {data : List UInt8} {off : Nat} (h : off + 8 ≤ data.length) :
    ((ntoh64 (load64 data off)).toInt64 >>> 16).toInt = wireCorrection data off / 2 ^ 16 := by
  have hsigned : (ntoh64 (load64 data off)).toInt64.toInt = wireCorrection data off := by
    rw [toInt_toInt64, ntoh64_load64 h]
    rfl
  rw [toInt_shiftRight, hsigned]

/-- A decoded time without a correction. -/
theorem decodedTime_eq_iff {data : List UInt8} {off : Nat} (h : off + 10 ≤ data.length)
    (hfits : Fits (wireTime data off)) :
    decodedTime data off = wireTime data off ↔ wireSeconds data off < 2 ^ 32 := by
  obtain ⟨hlo, hhi⟩ := hfits
  have hexact := decodedTime_exact_iff h 0 (by simpa using hlo) (by simpa using hhi)
  have hrange : (decodedTime data off).bmod (2 ^ 64) = decodedTime data off := Int64.toInt_bmod _
  rwa [Int.add_zero, Int.add_zero, hrange] at hexact

section Decode

variable {data : List UInt8} (vars : LoopVars)

theorem processMessage_sync (h : SyncMessage data) :
    (processMessage data vars).masterTime.toInt =
        (decodedTime data (recordOffset + 2) +
          wireCorrection data (recordOffset + 12) / 2 ^ 16).bmod (2 ^ 64) ∧
      (processMessage data vars).slaveTime.toInt = decodedTime data (recordOffset + 24) := by
  have hcomplete : recordOffset + 34 ≤ data.length := h.complete
  rw [← toInt_correction (by omega)]
  simp only [processMessage, h.signalling, h.tlv, if_true]
  exact ⟨Int64.toInt_add _ _, rfl⟩

theorem processMessage_delay (h : DelayMessage data) :
    (processMessage data vars).masterTime.toInt =
        (decodedTime data (recordOffset + 20) -
          wireCorrection data (recordOffset + 12) / 2 ^ 16).bmod (2 ^ 64) ∧
      (processMessage data vars).slaveTime.toInt = decodedTime data (recordOffset + 2) := by
  have hcomplete : recordOffset + 30 ≤ data.length := h.complete
  have htlv : firstTlvType data ≠ TLV_SLAVE_RX_SYNC_TIMING_DATA := by
    rw [h.tlv]
    decide
  rw [← toInt_correction (by omega)]
  simp only [processMessage, h.signalling, h.tlv, if_true]
  exact ⟨Int64.toInt_sub _ _, rfl⟩

/-- The times of a sync message are decoded as they are on the wire: the origin time with the
correction, and the time of the arrival, both in nanoseconds. -/
def SyncExact (data : List UInt8) (vars : LoopVars) : Prop :=
  (processMessage data vars).masterTime.toInt = syncMasterTime data ∧
    (processMessage data vars).slaveTime.toInt = syncSlaveTime data

/-- The times of a delay message are decoded as they are on the wire. -/
def DelayExact (data : List UInt8) (vars : LoopVars) : Prop :=
  (processMessage data vars).slaveTime.toInt = delaySlaveTime data ∧
    (processMessage data vars).masterTime.toInt = delayMasterTime data

theorem syncExact_iff (h : SyncMessage data) (hmaster : Fits (syncMasterTime data))
    (hslave : Fits (syncSlaveTime data)) :
    SyncExact data vars ↔
      wireSeconds data (recordOffset + 2) < 2 ^ 32 ∧
        wireSeconds data (recordOffset + 24) < 2 ^ 32 := by
  have hcomplete : recordOffset + 34 ≤ data.length := h.complete
  obtain ⟨hm, hs⟩ := processMessage_sync vars h
  rw [SyncExact, hm, hs]
  obtain ⟨hlo, hhi⟩ := hmaster
  exact and_congr (decodedTime_exact_iff (by omega) _ hlo hhi)
    (decodedTime_eq_iff (by omega) hslave)

theorem delayExact_iff (h : DelayMessage data) (hslave : Fits (delaySlaveTime data))
    (hmaster : Fits (delayMasterTime data)) :
    DelayExact data vars ↔
      wireSeconds data (recordOffset + 2) < 2 ^ 32 ∧
        wireSeconds data (recordOffset + 20) < 2 ^ 32 := by
  have hcomplete : recordOffset + 30 ≤ data.length := h.complete
  obtain ⟨hm, hs⟩ := processMessage_delay vars h
  rw [DelayExact, hm, hs]
  rw [delayMasterTime, Int.sub_eq_add_neg] at hmaster
  rw [delayMasterTime, Int.sub_eq_add_neg, Int.sub_eq_add_neg]
  obtain ⟨hlo, hhi⟩ := hmaster
  exact and_congr (decodedTime_eq_iff (by omega) hslave)
    (decodedTime_exact_iff (by omega) _ hlo hhi)

end Decode

/-! ## The round trip -/

/-- The parts of a time value's timestamp. The masks are remainders by powers of two and the shift
is a division, so the three fields are digits of the time. -/
theorem tmvToTimestamp_toNat {x : Tmv} (hx : 0 ≤ x.ns.toInt) :
    (tmvToTimestamp x).secondsMsb.toNat = x.ns.toInt.toNat / 1000000000 / 2 ^ 32 ∧
      (tmvToTimestamp x).secondsLsb.toNat = x.ns.toInt.toNat / 1000000000 % 2 ^ 32 ∧
      (tmvToTimestamp x).nanoseconds.toNat = x.ns.toInt.toNat % 1000000000 := by
  have hlt : x.ns.toInt.toNat < 2 ^ 63 := by
    have hmax := x.ns.toInt_lt
    omega
  have hnat : x.ns.toUInt64.toNat = x.ns.toInt.toNat :=
    Int64.toNat_toUInt64_of_le (Int64.le_iff_toInt_le.mpr (by simpa using hx))
  have hmask16 : ∀ n : Nat, n &&& 65535 = n % 2 ^ 16 := by
    intro n
    exact Nat.and_two_pow_sub_one_eq_mod n 16
  have hmask32 : ∀ n : Nat, n &&& 4294967295 = n % 2 ^ 32 := by
    intro n
    exact Nat.and_two_pow_sub_one_eq_mod n 32
  have hbillion : (1000000000 : UInt64).toNat = 1000000000 := rfl
  have hupper : (0xFFFF : UInt64).toNat = 65535 := rfl
  have hlower : (0xFFFFFFFF : UInt64).toNat = 4294967295 := rfl
  have hshift : (32 : UInt64).toNat % 64 = 32 := rfl
  refine ⟨?_, ?_, ?_⟩
  · simp only [tmvToTimestamp, UInt64.toNat_toUInt16, UInt64.toNat_and, UInt64.toNat_shiftRight,
      UInt64.toNat_div, hnat, hbillion, hupper, hshift, hmask16, Nat.shiftRight_eq_div_pow]
    omega
  · simp only [tmvToTimestamp, UInt64.toNat_toUInt32, UInt64.toNat_and, UInt64.toNat_div, hnat,
      hbillion, hlower, hmask32]
    omega
  · simp only [tmvToTimestamp, UInt64.toNat_toUInt32, UInt64.toNat_mod, hnat, hbillion]
    omega

/-- A time value is recovered from its timestamp exactly below `2 ^ 32` seconds. -/
theorem timestampNtohns_tmvToTimestamp_iff {x : Tmv} (hx : 0 ≤ x.ns.toInt) :
    (timestampNtohns (timestampHton (tmvToTimestamp x))).toInt64 = x.ns ↔
      x.ns.toInt / 1000000000 < 2 ^ 32 := by
  have hmsb := (tmvToTimestamp x).secondsMsb.toNat_lt
  have hlsb := (tmvToTimestamp x).secondsLsb.toNat_lt
  obtain ⟨hmsb', hlsb', hnano⟩ := tmvToTimestamp_toNat hx
  have hdecoded : (timestampNtohns (timestampHton (tmvToTimestamp x))).toInt64.toInt =
      joinedSeconds (tmvToTimestamp x).secondsMsb.toNat (tmvToTimestamp x).secondsLsb.toNat *
        1000000000 + (tmvToTimestamp x).nanoseconds.toNat := by
    rw [timestampNtohns_toInt]
    simp only [timestampHton, ntohs_ntohs, ntohl_ntohl]
  have hbelow : x.ns.toInt / 1000000000 < 2 ^ 32 ↔ (tmvToTimestamp x).secondsMsb.toNat = 0 := by
    omega
  rw [← Int64.toInt_inj, hdecoded, hbelow]
  refine ⟨?_, ?_⟩
  · intro heq
    refine (joinedSeconds_dvd_iff hmsb hlsb).mp ?_
    have hzero : (((tmvToTimestamp x).secondsMsb.toNat * 2 ^ 32 +
        (tmvToTimestamp x).secondsLsb.toNat : Nat) : Int) * 1000000000 -
          joinedSeconds (tmvToTimestamp x).secondsMsb.toNat (tmvToTimestamp x).secondsLsb.toNat *
            1000000000 = 0 := by
      omega
    rw [hzero]
    exact dvd_zero _
  · intro hzero
    rw [hzero, joinedSeconds_zero]
    omega

/-- A sync message that was sent `2 ^ 32` seconds after the epoch, early in the year 2106, and
arrived at the epoch of the slave. -/
def lateSyncMessage : List UInt8 :=
  [0x0C] ++ List.replicate 43 0 ++ [0x80, 0x04] ++ List.replicate 14 0 ++ [0x00, 0x01] ++
    List.replicate 30 0

theorem syncMessage_late : SyncMessage lateSyncMessage :=
  ⟨by decide, by decide +kernel, by decide +kernel⟩

theorem fits_late :
    Fits (syncMasterTime lateSyncMessage) ∧ Fits (syncSlaveTime lateSyncMessage) := by
  simp only [Fits]
  decide +kernel

/-- **The time format is decoded exactly below `2 ^ 32` seconds**: in both kinds of messages, when
the exact values are in range, and in the round trip through a timestamp. The upper 16 bits of the
seconds have to be zero, as they are joined to the lower ones at the wrong place; then they do no
harm. -/
theorem timeFormat_iff (data : List UInt8) (vars : LoopVars) (x : Tmv) :
    (SyncMessage data → Fits (syncMasterTime data) → Fits (syncSlaveTime data) →
      (SyncExact data vars ↔ wireSeconds data (recordOffset + 2) < 2 ^ 32 ∧
        wireSeconds data (recordOffset + 24) < 2 ^ 32)) ∧
    (DelayMessage data → Fits (delaySlaveTime data) → Fits (delayMasterTime data) →
      (DelayExact data vars ↔ wireSeconds data (recordOffset + 2) < 2 ^ 32 ∧
        wireSeconds data (recordOffset + 20) < 2 ^ 32)) ∧
    (0 ≤ x.ns.toInt →
      ((timestampNtohns (timestampHton (tmvToTimestamp x))).toInt64 = x.ns ↔
        x.ns.toInt / 1000000000 < 2 ^ 32)) := by
  refine ⟨?_, ?_, ?_⟩
  · intro h hmaster hslave
    exact syncExact_iff vars h hmaster hslave
  · intro h hslave hmaster
    exact delayExact_iff vars h hslave hmaster
  · intro hx
    exact timestampNtohns_tmvToTimestamp_iff hx

/-- A sync message that was sent `2 ^ 32` seconds after the epoch meets the conditions of the
theorem; `not_syncExact_late` says that it is not decoded exactly. -/
theorem timeFormat_late :
    SyncExact lateSyncMessage ⟨0, 0, 0⟩ ↔
      wireSeconds lateSyncMessage (recordOffset + 2) < 2 ^ 32 ∧
        wireSeconds lateSyncMessage (recordOffset + 24) < 2 ^ 32 :=
  (timeFormat_iff _ _ tmvZero).1 syncMessage_late fits_late.1 fits_late.2

/-- The upper 16 bits of the seconds are joined to the lower ones at bit 16, not at bit 32: the
message is decoded as if it had been sent at 65536 s, although its times are in range. -/
theorem not_syncExact_late :
    SyncMessage lateSyncMessage ∧ Fits (syncMasterTime lateSyncMessage) ∧
      Fits (syncSlaveTime lateSyncMessage) ∧ ¬ SyncExact lateSyncMessage ⟨0, 0, 0⟩ := by
  refine ⟨syncMessage_late, fits_late.1, fits_late.2, ?_⟩
  rw [SyncExact]
  decide +kernel

end ExternalServo
