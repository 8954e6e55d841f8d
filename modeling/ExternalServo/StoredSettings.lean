import ExternalServo.RangeCheck
import ExternalServo.Main

/-!
# What becomes of a setting

A setting of a block has a field of the block's configuration (`settingField`). Storing a value
that is in range is expected to set that field and no other.

* `storeLogger_frame`, `storeServo_frame`, `storeDevice_frame` — no other field is touched;
* `stored_iff` — the field is set, except for two settings whose value is dropped;
* `namesOnly_iff` — an enumeration does not refuse a name that is not listed.
-/

namespace ExternalServo

open CArith

/-! ## Fields -/

/-- The fields of the three configurations, under one type, so that a setting of any block can be
said to write one of them and no other. -/
inductive Field : Type where
  | logLevel | useSyslog | msgTag | useStdout
  | type | swTs | maxFrequency | intialAdj | stepThreshold | firstStepThreshold | firstUpdate
  | offsetThreshold | numOffsetValues | currOffsetValues | kp | ki | kpScale | kpExponent
  | kpNormMax | kiScale | kiExponent | kiNormMax | ntpshmSegment | logMinDelayReqInterval
  | logSyncInterval
  | fd | todClkId | freqClkId | todDevice | freqDevice | udsAddress | pollTime | filter | filterLen
  | mode
  deriving DecidableEq

/-- The contents of a field. -/
inductive FieldValue (D : Type) : Type where
  /-- an integer, of any type -/
  | int (n : Int) : FieldValue D
  /-- a `double` -/
  | real (x : D) : FieldValue D
  /-- an array of characters -/
  | chars (bytes : List UInt8) : FieldValue D
  deriving DecidableEq

/-- The field of a setting. -/
def settingField : String → Option Field
  | "logging_level" => some .logLevel
  | "use_syslog" => some .useSyslog
  | "msg_tag" => some .msgTag
  | "use_stdout" => some .useStdout
  | "type" => some .type
  | "software_timestamp" => some .swTs
  | "max_frequency" => some .maxFrequency
  | "step_threshold" => some .stepThreshold
  | "first_step_threshold" => some .firstStepThreshold
  | "servo_offset_threshold" => some .offsetThreshold
  | "servo_num_offset_values" => some .numOffsetValues
  | "pi_proportional_const" => some .kp
  | "pi_integral_const" => some .ki
  | "pi_proportional_scale" => some .kpScale
  | "pi_proportional_exponent" => some .kpExponent
  | "pi_proportional_norm_max" => some .kpNormMax
  | "pi_integral_scale" => some .kiScale
  | "pi_integral_exponent" => some .kiExponent
  | "pi_integral_norm_max" => some .kiNormMax
  | "ntp_shm_segment" => some .ntpshmSegment
  | "logMinDelayReqInterval" => some .logMinDelayReqInterval
  | "logSyncInterval" => some .logSyncInterval
  | "tod_device" => some .todDevice
  | "freq_device" => some .freqDevice
  | "monitor_uds_address" => some .udsAddress
  | "poll_time" => some .pollTime
  | "tsproc_mode" => some .mode
  | "delay_filter" => some .filter
  | "delay_filter_length" => some .filterLen
  | _ => none

/-- The length of an array of characters. -/
def Field.capacity : Field → Nat
  | .msgTag => MAX_MSG_TAG_LEN
  | .todDevice | .freqDevice | .udsAddress => MAX_CONFIG_STR_LEN
  | _ => 0

section Fields

variable {D : Type}

/-- The contents of a field of the logger configuration. -/
def LoggerConfig.content (config : LoggerConfig) : Field → Option (FieldValue D)
  | .logLevel => some (.int config.logLevel.toNat)
  | .useSyslog => some (.int config.useSyslog.toNat)
  | .msgTag => some (.chars config.msgTag)
  | .useStdout => some (.int config.useStdout.toNat)
  | _ => none

/-- The contents of a field of the servo configuration. -/
def ServoConfig.content (config : ServoConfig D) : Field → Option (FieldValue D)
  | .type => some (.int config.type.toNat)
  | .swTs => some (.int config.swTs.toNat)
  | .maxFrequency => some (.real config.maxFrequency)
  | .intialAdj => some (.int config.intialAdj)
  | .stepThreshold => some (.real config.stepThreshold)
  | .firstStepThreshold => some (.real config.firstStepThreshold)
  | .firstUpdate => some (.int config.firstUpdate)
  | .offsetThreshold => some (.int config.offsetThreshold.toInt)
  | .numOffsetValues => some (.int config.numOffsetValues)
  | .currOffsetValues => some (.int config.currOffsetValues)
  | .kp => some (.real config.kp)
  | .ki => some (.real config.ki)
  | .kpScale => some (.real config.kpScale)
  | .kpExponent => some (.real config.kpExponent)
  | .kpNormMax => some (.real config.kpNormMax)
  | .kiScale => some (.real config.kiScale)
  | .kiExponent => some (.real config.kiExponent)
  | .kiNormMax => some (.real config.kiNormMax)
  | .ntpshmSegment => some (.int config.ntpshmSegment)
  | .logMinDelayReqInterval => some (.int config.logMinDelayReqInterval)
  | .logSyncInterval => some (.int config.logSyncInterval)
  | _ => none

/-- The contents of a field of the device configuration. -/
def DeviceConfig.content (config : DeviceConfig) : Field → Option (FieldValue D)
  | .fd => some (.int config.fd)
  | .todClkId => some (.int config.todClkId)
  | .freqClkId => some (.int config.freqClkId)
  | .todDevice => some (.chars config.todDevice)
  | .freqDevice => some (.chars config.freqDevice)
  | .udsAddress => some (.chars config.udsAddress)
  | .pollTime => some (.int config.pollTime.toNat)
  | .filter => some (.int config.filter.toNat)
  | .filterLen => some (.int config.filterLen)
  | .mode => some (.int config.mode.toNat)
  | _ => none

/-- The contents of a field of a block's configuration. -/
def Block.content : (b : Block) → b.Config D → Field → Option (FieldValue D)
  | .logging => LoggerConfig.content
  | .servo => ServoConfig.content
  | .device => DeviceConfig.content

end Fields

/-! ## No other field is touched -/

/-- The field that a setting's index stands for. -/
def LoggerIdx.field : LoggerIdx → Field
  | .loggingLevel => .logLevel
  | .useSyslog => .useSyslog
  | .messageTag => .msgTag
  | .useStdout => .useStdout

/-- The field that a setting's index stands for. -/
def ServoIdx.field : ServoIdx → Field
  | .servoType => .type
  | .swTs => .swTs
  | .maxFrequency => .maxFrequency
  | .stepThreshold => .stepThreshold
  | .firstStepThreshold => .firstStepThreshold
  | .offsetThreshold => .offsetThreshold
  | .numOffsetValues => .numOffsetValues
  | .currentOffsetValues => .currOffsetValues
  | .piProportional => .kp
  | .piIntegral => .ki
  | .piProportionalScale => .kpScale
  | .piProportionalExponent => .kpExponent
  | .piProportionalNormMax => .kpNormMax
  | .piIntegralScale => .kiScale
  | .piIntegralExponent => .kiExponent
  | .piIntegralNormalMax => .kiNormMax
  | .ntpshmSegment => .ntpshmSegment
  | .logMinDelayReqInterval => .logMinDelayReqInterval
  | .logSyncInterval => .logSyncInterval

/-- The field that a setting's index stands for. -/
def DeviceIdx.field : DeviceIdx → Field
  | .todDevice => .todDevice
  | .freqDevice => .freqDevice
  | .monitorUdsAddress => .udsAddress
  | .pollTime => .pollTime
  | .tsprocMode => .mode
  | .delayFilter => .filter
  | .filterLen => .filterLen

/-- The tables and the indices agree on the fields. -/
theorem settingField_idx :
    (∀ info ∈ loggerTbl, settingField info.fieldName = some info.idx.field) ∧
      (∀ info ∈ servoConfigTbl, settingField info.fieldName = some info.idx.field) ∧
      (∀ info ∈ deviceTbl, settingField info.fieldName = some info.idx.field) := by
  decide +kernel

section Frame

variable {D : Type} [CDouble D] (value : D) (keyVal : String)

theorem storeLogger_frame (idx : LoggerIdx) (config : LoggerConfig) {f : Field}
    (h : f ≠ idx.field) :
    (storeLogger idx value keyVal config).content (D := D) f = config.content f := by
  cases idx <;> cases f <;> first | rfl | exact absurd rfl h

theorem storeServo_frame (idx : ServoIdx) (config : ServoConfig D) {f : Field}
    (h : f ≠ idx.field) :
    (storeServo idx value keyVal config).content f = config.content f := by
  cases idx <;> cases f <;> first | rfl | exact absurd rfl h

theorem storeDevice_frame (idx : DeviceIdx) (config : DeviceConfig) {f : Field}
    (h : f ≠ idx.field) :
    (storeDevice idx value keyVal config).content (D := D) f = config.content f := by
  cases idx <;> cases f <;> first | rfl | exact absurd rfl h

end Frame

/-! ## Values -/

/-- The characters of a string that fit a field, leaving room for the NUL. -/
def cut (capacity : Nat) (val : String) : List UInt8 := (bytesOf val).take (capacity - 1)

/-- An array holds a string, cut to its capacity: up to the last character it is filled with the
string and with NUL, the last character is as before, and in an array that was zeroed it ends the
string. This is what `strncpy` does with one character less than the array has. -/
structure Copied (capacity : Nat) (val : String) (old new : List UInt8) : Prop where
  filled : new.take (capacity - 1) =
    cut capacity val ++ List.replicate (capacity - 1 - (bytesOf val).length) 0
  last : new.drop (capacity - 1) = old.drop (capacity - 1)
  terminated : old = List.replicate capacity 0 → 0 ∈ new ∧ cString new = cut capacity val

/-- The value is one that the setting's table allows. A string ends at its first NUL, so one that
contains it cannot come from a file. -/
def InRange (D : Type) [CDouble D] {ι : Type} (info : FieldInfo ι) (val : String) : Prop :=
  match info.varType with
  | .integer => info.min ≤ atoi val ∧ atoi val ≤ info.max
  | .double =>
    CDouble.inRange (CDouble.lit info.min) (CDouble.lit info.max) (strtod val : D) = true
  | .string => 0 ∉ bytesOf val
  | .enum => ∃ names, info.enumList = some names ∧ ∃ kv ∈ names, kv.key = val

/-- A field holds the value of a setting: by the type of the setting, and of the field. -/
inductive Holds {D : Type} [CDouble D] {ι : Type} (info : FieldInfo ι) (val : String)
    (capacity : Nat) (old : FieldValue D) : FieldValue D → Prop where
  | int (hvar : info.varType = .integer) : Holds info val capacity old (.int (atoi val))
  | double (hvar : info.varType = .integer) :
    Holds info val capacity old (.real (CDouble.ofInt (atoi val)))
  | real (hvar : info.varType = .double) : Holds info val capacity old (.real (strtod val))
  | name (hvar : info.varType = .enum) {names : List KeyVal} (hnames : info.enumList = some names)
    {kv : KeyVal} (hkv : kv ∈ names) (hkey : kv.key = val) :
    Holds info val capacity old (.int kv.val)
  | string (hvar : info.varType = .string) {bytes bytes' : List UInt8} (hold : old = .chars bytes)
    (hcopied : Copied capacity val bytes bytes') : Holds info val capacity old (.chars bytes')

/-- `strncpy` into all but the last character copies the string as far as it fits and fills up with
NUL. A string without a NUL in it ends where the filling begins, or at the last character. -/
theorem copied_strncpy {capacity : Nat} (hcapacity : 0 < capacity) {val : String}
    (hval : 0 ∉ bytesOf val) (old : List UInt8) :
    Copied capacity val old (strncpy old val (capacity - 1)) := by
  have hlength : (cut capacity val ++
      List.replicate (capacity - 1 - (bytesOf val).length) 0).length = capacity - 1 := by
    rw [cut, List.length_append, List.length_take, List.length_replicate]
    omega
  refine ⟨?_, ?_, ?_⟩
  · rw [strncpy, ← cut, List.take_append_of_le_length hlength.ge, List.take_of_length_le hlength.le]
  · rw [strncpy, ← cut, List.drop_append_of_le_length hlength.ge, List.drop_of_length_le hlength.le,
      List.nil_append]
  · rintro rfl
    have hcut : ∀ b ∈ cut capacity val, (b != 0) = true := by
      intro b hb
      rw [bne_iff_ne]
      rintro rfl
      exact hval (List.mem_of_mem_take hb)
    have hrest : List.drop (capacity - 1) (List.replicate capacity (0 : UInt8)) = [0] := by
      rw [List.drop_replicate, Nat.sub_sub_self hcapacity]
      rfl
    rw [strncpy, ← cut, hrest]
    refine ⟨by simp, ?_⟩
    rw [cString, List.append_assoc, List.takeWhile_append_of_pos hcut]
    cases capacity - 1 - (bytesOf val).length with
    | zero => simp
    | succ n => simp [List.replicate_succ]

/-- A name that is listed has its own value. -/
theorem getKeyVal_of_mem {names : List KeyVal} (hnames : (names.map KeyVal.key).Nodup) {kv : KeyVal}
    (h : kv ∈ names) : getKeyVal kv.key names = kv.val := by
  induction names with
  | nil => cases h
  | cons kv' names ih =>
    rw [List.map_cons, List.nodup_cons] at hnames
    rw [getKeyVal]
    rcases List.mem_cons.mp h with rfl | h
    · rw [if_pos rfl]
    · have hne : kv.key ≠ kv'.key := by
        intro heq
        exact hnames.1 (heq ▸ List.mem_map_of_mem h)
      rw [if_neg hne, ih hnames.2 h]

section Values

variable {D : Type} [CDouble D] {ι : Type} {info : FieldInfo ι} {val : String} {capacity : Nat}
  {old : FieldValue D}

/-- The value of a `double`, refused or not. -/
theorem holds_real (hvar : info.varType = .double) :
    Holds info val capacity old (.real (valueRangeCheck info val).2) := by
  have hvalue : (valueRangeCheck info val).2 = (strtod val : D) := by
    simp only [valueRangeCheck, hvar]
    split <;> rfl
  rw [hvalue]
  exact .real hvar

/-- The value of an integer in a field of type `double`. -/
theorem holds_double (hvar : info.varType = .integer) :
    Holds info val capacity old (.real (valueRangeCheck info val).2) := by
  rw [valueRangeCheck_integer hvar]
  exact .double hvar

/-- An integer in range. -/
theorem InRange.atoi_mem (h : InRange D info val) (hvar : info.varType = .integer) {lo hi : Int}
    (hlo : lo ≤ info.min) (hhi : info.max ≤ hi) : lo ≤ atoi val ∧ atoi val ≤ hi := by
  rw [InRange, hvar] at h
  exact ⟨by exact_mod_cast hlo.trans h.1, by exact_mod_cast h.2.trans hhi⟩

section Lawful

variable [LawfulCDouble D]

theorem holds_uint8 (hvar : info.varType = .integer) (hlo : ((0 : Int) : ℚ) ≤ info.min)
    (hhi : info.max ≤ ((255 : Int) : ℚ)) (h : InRange D info val) :
    Holds info val capacity old
      (.int (CDouble.toUInt8 (valueRangeCheck (D := D) info val).2).toNat) := by
  obtain ⟨hlo, hhi⟩ := h.atoi_mem hvar hlo hhi
  rw [valueRangeCheck_integer hvar, toUInt8_ofInt hlo (by omega)]
  exact .int hvar

theorem holds_uint16 (hvar : info.varType = .integer) (hlo : ((0 : Int) : ℚ) ≤ info.min)
    (hhi : info.max ≤ ((65535 : Int) : ℚ)) (h : InRange D info val) :
    Holds info val capacity old
      (.int (CDouble.toUInt16 (valueRangeCheck (D := D) info val).2).toNat) := by
  obtain ⟨hlo, hhi⟩ := h.atoi_mem hvar hlo hhi
  rw [valueRangeCheck_integer hvar, toUInt16_ofInt hlo (by omega)]
  exact .int hvar

theorem holds_int32 (hvar : info.varType = .integer) :
    Holds info val capacity old (.int (CDouble.toInt32 (valueRangeCheck (D := D) info val).2)) := by
  obtain ⟨hlo, hhi⟩ := atoi_range val
  rw [valueRangeCheck_integer hvar, toInt32_ofInt hlo hhi]
  exact .int hvar

theorem holds_int64 (hvar : info.varType = .integer) :
    Holds info val capacity old
      (.int (CDouble.toInt64 (valueRangeCheck (D := D) info val).2).toInt) := by
  obtain ⟨hlo, hhi⟩ := atoi_range val
  rw [valueRangeCheck_integer hvar, toInt_toInt64_ofInt hlo hhi]
  exact .int hvar

/-- The value of a listed name. -/
theorem holds_name (hvar : info.varType = .enum) {names : List KeyVal}
    (hnames : info.enumList = some names) (hkeys : (names.map KeyVal.key).Nodup)
    (hvals : ∀ kv ∈ names, 0 ≤ kv.val ∧ kv.val < 2 ^ 31) (h : InRange D info val) :
    Holds info val capacity old
      (.int (CDouble.toUInt32 (valueRangeCheck (D := D) info val).2).toNat) := by
  rw [InRange, hvar] at h
  obtain ⟨names', hnames', kv, hkv, rfl⟩ := h
  obtain rfl := Option.some.inj (hnames'.symm.trans hnames)
  obtain ⟨hlo, hhi⟩ := hvals kv hkv
  rw [valueRangeCheck_name hvar hnames', getKeyVal_of_mem hkeys hkv, toNat_toUInt32_ofInt hlo hhi]
  exact .name hvar hnames' hkv rfl

end Lawful

theorem holds_string (hvar : info.varType = .string) (hcapacity : 0 < capacity)
    (h : InRange D info val) (bytes : List UInt8) :
    Holds info val capacity (.chars bytes : FieldValue D)
      (.chars (strncpy bytes val (capacity - 1))) := by
  rw [InRange, hvar] at h
  exact .string hvar rfl (copied_strncpy hcapacity h bytes)

end Values

/-! ## The settings of each block -/

section Blocks

variable {D : Type} [CDouble D] [LawfulCDouble D] {val : String}

/-- A setting of the logger is stored. -/
theorem storeLogger_holds {info : FieldInfo LoggerIdx} (hinfo : info ∈ loggerTbl)
    (hval : InRange D info val) (config : LoggerConfig) :
    ∃ old new, config.content (D := D) info.idx.field = some old ∧
      (storeLogger info.idx (valueRangeCheck (D := D) info val).2 val config).content
        info.idx.field = some new ∧
      Holds info val info.idx.field.capacity old new := by
  simp only [loggerTbl, List.mem_cons, List.not_mem_nil, or_false] at hinfo
  rcases hinfo with rfl | rfl | rfl | rfl
  · exact ⟨_, _, rfl, rfl, holds_uint8 rfl (by norm_num) (by norm_num) hval⟩
  · exact ⟨_, _, rfl, rfl, holds_uint8 rfl (by norm_num) (by norm_num) hval⟩
  · exact ⟨_, _, rfl, rfl, holds_string rfl (by decide) hval _⟩
  · exact ⟨_, _, rfl, rfl, holds_uint8 rfl (by norm_num) (by norm_num) hval⟩

/-- A setting of the servo is stored, unless its value is dropped. The cases are the rows of the
table, in its order. -/
theorem storeServo_holds {info : FieldInfo ServoIdx} (hinfo : info ∈ servoConfigTbl)
    (hdropped : info.idx ≠ .logMinDelayReqInterval ∧ info.idx ≠ .logSyncInterval)
    (hval : InRange D info val) (config : ServoConfig D) :
    ∃ old new, config.content info.idx.field = some old ∧
      (storeServo info.idx (valueRangeCheck (D := D) info val).2 val config).content
        info.idx.field = some new ∧
      Holds info val info.idx.field.capacity old new := by
  obtain ⟨hdelay, hsync⟩ := hdropped
  simp only [servoConfigTbl, List.mem_cons, List.not_mem_nil, or_false] at hinfo
  rcases hinfo with rfl | rfl | rfl | rfl | rfl | rfl | rfl | rfl | rfl | rfl | rfl | rfl | rfl |
    rfl | rfl | rfl | rfl | rfl
  -- `type`
  · exact ⟨_, _, rfl, rfl, holds_name rfl rfl (by decide +kernel) (by decide +kernel) hval⟩
  · exact ⟨_, _, rfl, rfl, holds_uint8 rfl (by norm_num) (by norm_num) hval⟩
  · exact ⟨_, _, rfl, rfl, holds_double rfl⟩
  · exact ⟨_, _, rfl, rfl, holds_real rfl⟩
  · exact ⟨_, _, rfl, rfl, holds_real rfl⟩
  · exact ⟨_, _, rfl, rfl, holds_int64 rfl⟩
  · exact ⟨_, _, rfl, rfl, holds_int32 rfl⟩
  -- the constants, from `pi_proportional_const` to `pi_integral_norm_max`
  · exact ⟨_, _, rfl, rfl, holds_real rfl⟩
  · exact ⟨_, _, rfl, rfl, holds_real rfl⟩
  · exact ⟨_, _, rfl, rfl, holds_real rfl⟩
  · exact ⟨_, _, rfl, rfl, holds_real rfl⟩
  · exact ⟨_, _, rfl, rfl, holds_real rfl⟩
  · exact ⟨_, _, rfl, rfl, holds_real rfl⟩
  · exact ⟨_, _, rfl, rfl, holds_real rfl⟩
  · exact ⟨_, _, rfl, rfl, holds_real rfl⟩
  · exact ⟨_, _, rfl, rfl, holds_int32 rfl⟩
  · exact absurd rfl hdelay
  · exact absurd rfl hsync

/-- A setting of the device is stored. -/
theorem storeDevice_holds {info : FieldInfo DeviceIdx} (hinfo : info ∈ deviceTbl)
    (hval : InRange D info val) (config : DeviceConfig) :
    ∃ old new, config.content (D := D) info.idx.field = some old ∧
      (storeDevice info.idx (valueRangeCheck (D := D) info val).2 val config).content
        info.idx.field = some new ∧
      Holds info val info.idx.field.capacity old new := by
  simp only [deviceTbl, List.mem_cons, List.not_mem_nil, or_false] at hinfo
  rcases hinfo with rfl | rfl | rfl | rfl | rfl | rfl | rfl
  · exact ⟨_, _, rfl, rfl, holds_string rfl (by decide) hval _⟩
  · exact ⟨_, _, rfl, rfl, holds_string rfl (by decide) hval _⟩
  · exact ⟨_, _, rfl, rfl, holds_string rfl (by decide) hval _⟩
  · exact ⟨_, _, rfl, rfl, holds_uint16 rfl (by norm_num) (by norm_num) hval⟩
  · exact ⟨_, _, rfl, rfl, holds_name rfl rfl (by decide +kernel) (by decide +kernel) hval⟩
  · exact ⟨_, _, rfl, rfl, holds_name rfl rfl (by decide +kernel) (by decide +kernel) hval⟩
  · exact ⟨_, _, rfl, rfl, holds_int32 rfl⟩

end Blocks

/-! ## Updates -/

/-- A setting without its index, which is a number of its own in each table. -/
def FieldInfo.plain {ι : Type} (info : FieldInfo ι) : FieldInfo Unit :=
  { fieldName := info.fieldName, idx := (), varType := info.varType, min := info.min,
    max := info.max, enumList := info.enumList }

/-- The settings of a block. -/
def Block.settings : Block → List (FieldInfo Unit)
  | .logging => loggerTbl.map FieldInfo.plain
  | .servo => servoConfigTbl.map FieldInfo.plain
  | .device => deviceTbl.map FieldInfo.plain

/-- The update of a setting succeeds, its field holds the value, and every other field is as it was.
The last part is about all three configurations' fields at once. -/
structure Stored (D : Type) [CDouble D] (b : Block) (setting : FieldInfo Unit) (val : String)
    (config : b.Config D) : Prop where
  success : (b.update D config setting.fieldName val).1 = 0
  holds : ∃ f old new, settingField setting.fieldName = some f ∧ b.content config f = some old ∧
    b.content (b.update D config setting.fieldName val).2 f = some new ∧
    Holds setting val f.capacity old new
  frame : ∀ f, settingField setting.fieldName ≠ some f →
    b.content (b.update D config setting.fieldName val).2 f = b.content config f

/-- The settings whose value is dropped. -/
def Dropped (setting : FieldInfo Unit) : Prop :=
  setting.fieldName = "logMinDelayReqInterval" ∨ setting.fieldName = "logSyncInterval"

instance (setting : FieldInfo Unit) : Decidable (Dropped setting) :=
  inferInstanceAs (Decidable (_ ∨ _))

/-- The field of the setting holds the number already. -/
def HeldBefore {D : Type} (b : Block) (setting : FieldInfo Unit) (val : String)
    (config : b.Config D) : Prop :=
  ∃ f, settingField setting.fieldName = some f ∧ b.content config f = some (.int (atoi val))

section Updates

variable {D : Type} [CDouble D]

theorem Holds.plain {ι : Type} {info : FieldInfo ι} {val : String} {capacity : Nat}
    {old new : FieldValue D} (h : Holds info val capacity old new) :
    Holds info.plain val capacity old new := by
  cases h with
  | int hvar => exact .int hvar
  | double hvar => exact .double hvar
  | real hvar => exact .real hvar
  | name hvar hnames hkv hkey =>
    apply Holds.name
    · exact hvar
    · exact hnames
    · exact hkv
    · exact hkey
  | string hvar hold hcopied =>
    apply Holds.string
    · exact hvar
    · exact hold
    · exact hcopied

variable [LawfulCDouble D]

/-- No check refuses a value: not of a number, whose bounds are in order, nor of a name. -/
theorem valueRangeCheck_accepts {ι : Type} {info : FieldInfo ι} (hbounds : info.min ≤ info.max)
    (hvals : ∀ names ∈ info.enumList, ∀ kv ∈ names, |kv.val| < 2 ^ 31) (val : String) :
    (valueRangeCheck (D := D) info val).1 = 0 := by
  cases hvar : info.varType with
  | integer =>
    have hnumeric : info.numeric = some ⟨info.fieldName, false, info.min, info.max⟩ := by
      rw [FieldInfo.numeric, hvar]
    rw [valueRangeCheck_numeric (D := D) hnumeric hbounds val]
  | double =>
    have hnumeric : info.numeric = some ⟨info.fieldName, true, info.min, info.max⟩ := by
      rw [FieldInfo.numeric, hvar]
    rw [valueRangeCheck_numeric (D := D) hnumeric hbounds val]
  | string => rw [valueRangeCheck, hvar]
  | enum => exact valueRangeCheck_enum hvar hvals val

/-- The values of the names are small. -/
theorem abs_enumList_lt :
    (∀ info ∈ loggerTbl, ∀ names ∈ info.enumList, ∀ kv ∈ names, |kv.val| < 2 ^ 31) ∧
      (∀ info ∈ servoConfigTbl, ∀ names ∈ info.enumList, ∀ kv ∈ names, |kv.val| < 2 ^ 31) ∧
      (∀ info ∈ deviceTbl, ∀ names ∈ info.enumList, ∀ kv ∈ names, |kv.val| < 2 ^ 31) := by
  decide +kernel

/-- The update of a setting in a table stores the checked value. -/
theorem updateConfig_of_mem {ι C : Type} {tbl : List (FieldInfo ι)} {info : FieldInfo ι}
    (hinfo : info ∈ tbl) (hnames : (tbl.map FieldInfo.fieldName).Nodup)
    (hbounds : ∀ info ∈ tbl, info.min ≤ info.max)
    (hvals : ∀ info ∈ tbl, ∀ names ∈ info.enumList, ∀ kv ∈ names, |kv.val| < 2 ^ 31)
    (store : ι → D → String → C → C) (config : C) (val : String) :
    updateConfig tbl store config info.fieldName val =
      (0, store info.idx (valueRangeCheck info val).2 val config) := by
  have hrv := valueRangeCheck_accepts (D := D) (hbounds info hinfo) (hvals info hinfo) val
  rw [updateConfig, getFieldInfo_of_mem hnames hinfo]
  simp [hrv]

omit [LawfulCDouble D] in
/-- A setting is stored if its own field holds the value and the others are as they were. -/
theorem Stored.of_update {b : Block} {setting : FieldInfo Unit} {val : String}
    {config config' : b.Config D} (hupdate : b.update D config setting.fieldName val = (0, config'))
    {f : Field} (hf : settingField setting.fieldName = some f)
    (hholds : ∃ old new, b.content config f = some old ∧ b.content config' f = some new ∧
      Holds setting val f.capacity old new)
    (hframe : ∀ g, g ≠ f → b.content config' g = b.content config g) :
    Stored D b setting val config := by
  refine ⟨?_, ?_, ?_⟩
  · rw [hupdate]
  · rw [hupdate]
    exact ⟨f, hholds.imp fun old => .imp fun new ⟨hold, hnew, h⟩ => ⟨hf, hold, hnew, h⟩⟩
  · intro g hg
    rw [hupdate]
    refine hframe g ?_
    rintro rfl
    exact hg hf

theorem stored_logger {info : FieldInfo LoggerIdx} (hinfo : info ∈ loggerTbl) {val : String}
    (hval : InRange D info val) (config : LoggerConfig) :
    Stored D .logging info.plain val config := by
  have hupdate := updateConfig_of_mem (D := D) hinfo fieldName_nodup.1 min_le_max.1
    abs_enumList_lt.1 storeLogger config val
  obtain ⟨old, new, hold, hnew, hholds⟩ := storeLogger_holds hinfo hval config
  exact .of_update hupdate (settingField_idx.1 info hinfo) ⟨old, new, hold, hnew, hholds.plain⟩
    fun _ => storeLogger_frame _ _ _ _

theorem stored_device {info : FieldInfo DeviceIdx} (hinfo : info ∈ deviceTbl) {val : String}
    (hval : InRange D info val) (config : DeviceConfig) :
    Stored D .device info.plain val config := by
  have hupdate := updateConfig_of_mem (D := D) hinfo fieldName_nodup.2.2 min_le_max.2.2
    abs_enumList_lt.2.2 storeDevice config val
  obtain ⟨old, new, hold, hnew, hholds⟩ := storeDevice_holds hinfo hval config
  exact .of_update hupdate (settingField_idx.2.2 info hinfo) ⟨old, new, hold, hnew, hholds.plain⟩
    fun _ => storeDevice_frame _ _ _ _

theorem stored_servo {info : FieldInfo ServoIdx} (hinfo : info ∈ servoConfigTbl)
    (hdropped : info.idx ≠ .logMinDelayReqInterval ∧ info.idx ≠ .logSyncInterval) {val : String}
    (hval : InRange D info val) (config : ServoConfig D) :
    Stored D .servo info.plain val config := by
  have hupdate := updateConfig_of_mem (D := D) hinfo fieldName_nodup.2.1 min_le_max.2.1
    abs_enumList_lt.2.1 storeServo config val
  obtain ⟨old, new, hold, hnew, hholds⟩ := storeServo_holds hinfo hdropped hval config
  exact .of_update hupdate (settingField_idx.2.1 info hinfo) ⟨old, new, hold, hnew, hholds.plain⟩
    fun _ => storeServo_frame _ _ _ _

/-- A setting whose value is dropped is stored only if its field held the number before. -/
theorem stored_dropped_iff {info : FieldInfo ServoIdx} (hinfo : info ∈ servoConfigTbl)
    (hdropped : info.idx = .logMinDelayReqInterval ∨ info.idx = .logSyncInterval) {val : String}
    (config : ServoConfig D) :
    Stored D .servo info.plain val config ↔ HeldBefore .servo info.plain val config := by
  have hinteger : ∀ info ∈ servoConfigTbl,
      info.idx = .logMinDelayReqInterval ∨ info.idx = .logSyncInterval →
        info.varType = .integer := by
    decide +kernel
  have hvar := hinteger info hinfo hdropped
  have hf := settingField_idx.2.1 info hinfo
  have hupdate : updateServoConfig config info.fieldName val = (0, config) := by
    rw [updateServoConfig, updateConfig_of_mem hinfo fieldName_nodup.2.1 min_le_max.2.1
      abs_enumList_lt.2.1]
    rcases hdropped with hidx | hidx <;> rw [hidx] <;> rfl
  -- the two fields are integers
  have hint : ∃ n, config.content info.idx.field = some (.int n) := by
    rcases hdropped with hidx | hidx <;> rw [hidx] <;> exact ⟨_, rfl⟩
  obtain ⟨n, hn⟩ := hint
  refine ⟨?_, ?_⟩
  · intro hstored
    obtain ⟨f, old, new, hf', hold, hnew, hholds⟩ := hstored.holds
    obtain rfl : info.idx.field = f := Option.some.inj (hf.symm.trans hf')
    have hnew' : config.content info.idx.field = some new := by
      rw [← hnew]
      change _ = ServoConfig.content (updateServoConfig config info.fieldName val).2 _
      rw [hupdate]
    refine ⟨_, hf, ?_⟩
    change config.content info.idx.field = _
    rw [hnew']
    have hnumber : new = .int n := Option.some.inj (hnew'.symm.trans hn)
    cases hholds with
    | int => rfl
    | double | string => cases hnumber
    | real hreal => exact absurd (hvar.symm.trans hreal) nofun
    | name hname => exact absurd (hvar.symm.trans hname) nofun
  · rintro ⟨f, hf', hheld⟩
    exact .of_update hupdate hf' ⟨_, _, hheld, hheld, .int hvar⟩ fun _ _ => rfl

/-- Every value in range of any other setting is stored. -/
theorem stored_of_not_dropped {b : Block} {setting : FieldInfo Unit}
    (hsetting : setting ∈ b.settings) (hkept : ¬ Dropped setting) {val : String}
    (hval : InRange D setting val) (config : b.Config D) : Stored D b setting val config := by
  cases b with
  | logging =>
    obtain ⟨info, hinfo, rfl⟩ := List.mem_map.mp hsetting
    exact stored_logger hinfo hval config
  | device =>
    obtain ⟨info, hinfo, rfl⟩ := List.mem_map.mp hsetting
    exact stored_device hinfo hval config
  | servo =>
    obtain ⟨info, hinfo, rfl⟩ := List.mem_map.mp hsetting
    have hdropped : ∀ info ∈ servoConfigTbl,
        info.idx = .logMinDelayReqInterval ∨ info.idx = .logSyncInterval → Dropped info.plain := by
      decide +kernel
    exact stored_servo hinfo (not_or.mp fun h => hkept (hdropped info hinfo h)) hval config

/-- **What becomes of a setting.** Every value in range is accepted; its field holds it afterwards
and no other field changes, unless the value is dropped and the field did not hold it before. There
are two settings of this kind: they are checked, and no case of the update stores them. -/
theorem stored_iff {b : Block} {setting : FieldInfo Unit} (hsetting : setting ∈ b.settings)
    {val : String} (hval : InRange D setting val) (config : b.Config D) :
    Stored D b setting val config ↔ ¬ Dropped setting ∨ HeldBefore b setting val config := by
  by_cases hdropped : Dropped setting
  · have hiff : Stored D b setting val config ↔ HeldBefore b setting val config := by
      cases b with
      | logging =>
        have hkept : ∀ setting ∈ Block.logging.settings, ¬ Dropped setting := by decide +kernel
        exact absurd hdropped (hkept setting hsetting)
      | device =>
        have hkept : ∀ setting ∈ Block.device.settings, ¬ Dropped setting := by decide +kernel
        exact absurd hdropped (hkept setting hsetting)
      | servo =>
        obtain ⟨info, hinfo, rfl⟩ := List.mem_map.mp hsetting
        have hidx : ∀ info ∈ servoConfigTbl, Dropped info.plain →
            info.idx = .logMinDelayReqInterval ∨ info.idx = .logSyncInterval := by
          decide +kernel
        exact stored_dropped_iff hinfo (hidx info hinfo hdropped) config
    rw [hiff]
    simp [hdropped]
  · exact iff_of_true (stored_of_not_dropped hsetting hdropped hval config) (.inl hdropped)

end Updates

/-- The settings `poll_time` and `logSyncInterval`, as they are listed. -/
def pollTime : FieldInfo Unit :=
  { fieldName := "poll_time", idx := (), varType := .integer, min := 0, max := 255 }

def logSyncInterval : FieldInfo Unit :=
  { fieldName := "logSyncInterval", idx := (), varType := .integer, min := -128, max := 127 }

/-- A setting of the device block that the two dropped ones stand beside: its value arrives. -/
theorem stored_pollTime : Stored XRat .device pollTime "25" DeviceConfig.zero := by
  have hmem : pollTime ∈ Block.device.settings := by decide +kernel
  have hrange : InRange XRat pollTime "25" := by
    change (0 : ℚ) ≤ atoi "25" ∧ (atoi "25" : ℚ) ≤ 255
    decide +kernel
  have hkept : ¬ Dropped pollTime := by decide +kernel
  exact (stored_iff hmem hrange DeviceConfig.zero).mpr (.inl hkept)

/-- A sync interval of -3 is accepted, and its field stays zero. -/
theorem not_stored_logSyncInterval :
    logSyncInterval ∈ Block.servo.settings ∧ InRange XRat logSyncInterval "-3" ∧
      ¬ Stored XRat .servo logSyncInterval "-3" ServoConfig.zero := by
  have hmem : logSyncInterval ∈ Block.servo.settings := by decide +kernel
  have hrange : (-128 : ℚ) ≤ atoi "-3" ∧ (atoi "-3" : ℚ) ≤ 127 := by decide +kernel
  refine ⟨hmem, hrange, ?_⟩
  intro hstored
  obtain ⟨f, old, new, hf, hold, hnew, hholds⟩ := hstored.holds
  have hfield : settingField logSyncInterval.fieldName = some .logSyncInterval := by decide +kernel
  obtain rfl := Option.some.inj (hfield.symm.trans hf)
  have hzero : Block.content .servo (Block.update XRat .servo ServoConfig.zero
      logSyncInterval.fieldName "-3").2 .logSyncInterval = some (.int 0) := by
    decide +kernel
  obtain rfl := Option.some.inj (hzero.symm.trans hnew)
  -- an integer that is held would be -3
  generalize hn : (0 : Int) = n at hholds
  cases hholds with
  | int hvar =>
    have hne : (0 : Int) ≠ atoi "-3" := by decide +kernel
    exact hne hn
  | name hvar hnames => cases hvar

/-! ## Enumerations -/

/-- A setting accepts exactly the names of its list, and stores the value of the name; for any other
string it returns -1 and leaves the configuration as it is. -/
structure NamesOnly (D : Type) [CDouble D] (b : Block) (setting : FieldInfo Unit)
    (names : List KeyVal) (val : String) : Prop where
  accepted : ∀ config : b.Config D,
    (b.update D config setting.fieldName val).1 = 0 ↔ ∃ kv ∈ names, kv.key = val
  stored : ∀ config : b.Config D, ∀ kv ∈ names, kv.key = val →
    ∃ f, settingField setting.fieldName = some f ∧
      b.content (b.update D config setting.fieldName val).2 f = some (.int kv.val) ∧
      ∀ g, g ≠ f → b.content (b.update D config setting.fieldName val).2 g = b.content config g
  refused : (∀ kv ∈ names, kv.key ≠ val) → ∀ config : b.Config D,
    b.update D config setting.fieldName val = (-1, config)

section Names

variable {D : Type} [CDouble D] [LawfulCDouble D]

/-- No value of a setting is refused. -/
theorem Block.update_accepts {b : Block} {setting : FieldInfo Unit}
    (hsetting : setting ∈ b.settings) (config : b.Config D) (val : String) :
    (b.update D config setting.fieldName val).1 = 0 := by
  cases b with
  | logging =>
    obtain ⟨info, hinfo, rfl⟩ := List.mem_map.mp hsetting
    exact congrArg Prod.fst (updateConfig_of_mem (D := D) hinfo fieldName_nodup.1 min_le_max.1
      abs_enumList_lt.1 storeLogger config val)
  | servo =>
    obtain ⟨info, hinfo, rfl⟩ := List.mem_map.mp hsetting
    exact congrArg Prod.fst (updateConfig_of_mem (D := D) hinfo fieldName_nodup.2.1 min_le_max.2.1
      abs_enumList_lt.2.1 storeServo config val)
  | device =>
    obtain ⟨info, hinfo, rfl⟩ := List.mem_map.mp hsetting
    exact congrArg Prod.fst (updateConfig_of_mem (D := D) hinfo fieldName_nodup.2.2 min_le_max.2.2
      abs_enumList_lt.2.2 storeDevice config val)

/-- The names of an enumeration are distinct, and its value is not dropped. -/
theorem enum_settings (b : Block) :
    ∀ setting ∈ b.settings, setting.varType = .enum →
      ¬ Dropped setting ∧ ∀ names ∈ setting.enumList, (names.map KeyVal.key).Nodup := by
  cases b <;> decide +kernel

/-- **An enumeration checks its names exactly where they are listed.** The value that stands for no
name is compared as a `double` with an unsigned integer, which are never equal, so a string that is
no name is accepted. -/
theorem namesOnly_iff {b : Block} {setting : FieldInfo Unit} (hsetting : setting ∈ b.settings)
    (hvar : setting.varType = .enum) {names : List KeyVal} (hnames : setting.enumList = some names)
    (val : String) : NamesOnly D b setting names val ↔ ∃ kv ∈ names, kv.key = val := by
  refine ⟨?_, ?_⟩
  · intro honly
    exact (honly.accepted (b.zero D)).mp (Block.update_accepts hsetting _ val)
  · intro hlisted
    obtain ⟨hkept, hkeys⟩ := enum_settings b setting hsetting hvar
    have hrange : InRange D setting val := by
      rw [InRange, hvar]
      exact ⟨names, hnames, hlisted⟩
    refine ⟨?_, ?_, ?_⟩
    · intro config
      exact iff_of_true (Block.update_accepts hsetting config val) hlisted
    · rintro config kv hkv rfl
      have hstored := stored_of_not_dropped hsetting hkept hrange config
      obtain ⟨f, old, new, hf, hold, hnew, hholds⟩ := hstored.holds
      refine ⟨f, hf, ?_, ?_⟩
      · rw [hnew]
        cases hholds with
        | int hint => exact absurd (hvar.symm.trans hint) nofun
        | double hint => exact absurd (hvar.symm.trans hint) nofun
        | real hreal => exact absurd (hvar.symm.trans hreal) nofun
        | string hstring => exact absurd (hvar.symm.trans hstring) nofun
        | @name _ names' hnames' kv' hkv' hkey =>
          obtain rfl : names = names' := Option.some.inj (hnames.symm.trans hnames')
          have hnodup := hkeys names hnames
          rw [← getKeyVal_of_mem hnodup hkv', hkey, getKeyVal_of_mem hnodup hkv]
      · intro g hg
        refine hstored.frame g ?_
        rw [hf]
        intro heq
        exact hg (Option.some.inj heq).symm
    · intro hnone
      obtain ⟨kv, hkv, hkey⟩ := hlisted
      exact absurd hkey (hnone kv hkv)

end Names

/-- The setting `type` of the servo, as it is listed. -/
def servoType : FieldInfo Unit :=
  { fieldName := "type", idx := (), varType := .enum, enumList := some servoTypes }

/-- A name that the table lists is stored as its value; `not_namesOnly_kalman` is about one that it
does not list. -/
theorem namesOnly_linreg : NamesOnly XRat .servo servoType servoTypes "linreg" := by
  have hmem : servoType ∈ Block.servo.settings := by decide +kernel
  exact (namesOnly_iff hmem rfl rfl "linreg").mpr ⟨⟨"linreg", 1⟩, by decide +kernel, rfl⟩

/-- A name that does not exist is accepted, and stored as the largest `unsigned int`. -/
theorem not_namesOnly_kalman :
    servoType ∈ Block.servo.settings ∧
      Block.content .servo (Block.update XRat .servo ServoConfig.zero "type" "kalman").2 .type =
        some (.int 4294967295) ∧
      ¬ NamesOnly XRat .servo servoType servoTypes "kalman" := by
  refine ⟨by decide +kernel, by decide +kernel, ?_⟩
  intro honly
  have haccepted :
      (Block.update XRat .servo ServoConfig.zero servoType.fieldName "kalman").1 = 0 := by
    decide +kernel
  have hlisted := (honly.accepted ServoConfig.zero).mp haccepted
  revert hlisted
  decide +kernel

end ExternalServo
