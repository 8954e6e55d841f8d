import ExternalServo.CLib

/-!
# Settings (`config.c`, `config.h`, `logger.h`)

The three tables of settings and what storing one does:

* `loggerTbl`, `servoConfigTbl`, `deviceTbl` — the settings of a block: name, type,
  bounds, names of an enumeration;
* `valueRangeCheck` — converts and checks the value of a setting;
* `updateLoggerConfig`, `updateServoConfig`, `updateDeviceConfig` — look a setting up,
  check its value and store it. They are one function, `updateConfig`, over a table and
  the assignments of the block.

A table's index constants are an enumeration of their own. A bound is kept as the number
written in the source; it is a `double` where it is compared.
-/

namespace ExternalServo

open CArith

/-! ## Field tables -/

/-- The `VAR_TYPE` constants. -/
inductive VarType : Type where
  /-- `VAR_TYPE_INTEGER` -/
  | integer : VarType
  /-- `VAR_TYPE_STRING` -/
  | string : VarType
  /-- `VAR_TYPE_ENUM` -/
  | enum : VarType
  /-- `VAR_TYPE_DOUBLE` -/
  | double : VarType
  deriving DecidableEq

/-- `struct key_val`. -/
structure KeyVal where
  /-- key -/
  key : String
  /-- value -/
  val : Int
  deriving DecidableEq

/-- `struct field_info`, with what the checks read of it. The index says what a value is stored as;
its type is that of the block, so that no setting can be stored in another block. -/
structure FieldInfo (ι : Type) where
  /-- name of the setting -/
  fieldName : String
  /-- index -/
  idx : ι
  /-- variable type -/
  varType : VarType
  /-- minimum value -/
  min : ℚ := 0
  /-- maximum value -/
  max : ℚ := 0
  /-- enum list -/
  enumList : Option (List KeyVal) := none
  deriving DecidableEq

/-- `servo_types` -/
def servoTypes : List KeyVal := [⟨"pi", 0⟩, ⟨"linreg", 1⟩, ⟨"ntpshm", 2⟩]

/-- `tsproc_types` -/
def tsprocTypes : List KeyVal :=
  [⟨"filter", 0⟩, ⟨"raw", 1⟩, ⟨"filter_weight", 2⟩, ⟨"raw_weight", 3⟩]

/-- `delay_filters` -/
def delayFilters : List KeyVal := [⟨"moving_average", 0⟩, ⟨"moving_median", 1⟩]

/-- `INT_MAX` -/
def INT_MAX : ℚ := 2 ^ 31 - 1

/-- `INT_MIN` -/
def INT_MIN : ℚ := -2 ^ 31

/-- The largest `double`. -/
def DBL_MAX : ℚ := (2 ^ 53 - 1) * 2 ^ 971

/-- The smallest positive normal `double`. -/
def DBL_MIN : ℚ := 1 / 2 ^ 1022

/-- Indices of the logger settings. -/
inductive LoggerIdx : Type where
  | loggingLevel | useSyslog | messageTag | useStdout
  deriving DecidableEq

/-- `logger_tbl` -/
def loggerTbl : List (FieldInfo LoggerIdx) :=
  [ { fieldName := "logging_level", idx := .loggingLevel, varType := .integer, min := 0, max := 7 },
    { fieldName := "use_syslog", idx := .useSyslog, varType := .integer, min := 0, max := 1 },
    { fieldName := "msg_tag", idx := .messageTag, varType := .string },
    { fieldName := "use_stdout", idx := .useStdout, varType := .integer, min := 0, max := 1 } ]

/-- Indices of the servo settings. -/
inductive ServoIdx : Type where
  | servoType | swTs | maxFrequency | stepThreshold | firstStepThreshold | offsetThreshold
  | numOffsetValues | currentOffsetValues | piProportional | piIntegral | piProportionalScale
  | piProportionalExponent | piProportionalNormMax | piIntegralScale | piIntegralExponent
  | piIntegralNormalMax | ntpshmSegment | logMinDelayReqInterval | logSyncInterval
  deriving DecidableEq

/-- `servo_config_tbl` -/
def servoConfigTbl : List (FieldInfo ServoIdx) :=
  [ { fieldName := "type", idx := .servoType, varType := .enum, enumList := some servoTypes },
    { fieldName := "software_timestamp", idx := .swTs, varType := .integer, min := 0, max := 1 },
    { fieldName := "max_frequency", idx := .maxFrequency, varType := .integer,
      min := 0, max := INT_MAX },
    { fieldName := "step_threshold", idx := .stepThreshold, varType := .double,
      min := 0, max := DBL_MAX },
    { fieldName := "first_step_threshold", idx := .firstStepThreshold, varType := .double,
      min := 0, max := DBL_MAX },
    { fieldName := "servo_offset_threshold", idx := .offsetThreshold, varType := .integer,
      min := 0, max := INT_MAX },
    { fieldName := "servo_num_offset_values", idx := .numOffsetValues, varType := .integer,
      min := 0, max := INT_MAX },
    { fieldName := "pi_proportional_const", idx := .piProportional, varType := .double,
      min := 0, max := DBL_MAX },
    { fieldName := "pi_integral_const", idx := .piIntegral, varType := .double,
      min := 0, max := DBL_MAX },
    { fieldName := "pi_proportional_scale", idx := .piProportionalScale, varType := .double,
      min := 0, max := DBL_MAX },
    { fieldName := "pi_proportional_exponent", idx := .piProportionalExponent,
      varType := .double, min := DBL_MIN, max := DBL_MAX },
    { fieldName := "pi_proportional_norm_max", idx := .piProportionalNormMax,
      varType := .double, min := DBL_MIN, max := DBL_MAX },
    { fieldName := "pi_integral_scale", idx := .piIntegralScale, varType := .double,
      min := 0, max := DBL_MAX },
    { fieldName := "pi_integral_exponent", idx := .piIntegralExponent, varType := .double,
      min := DBL_MIN, max := DBL_MAX },
    { fieldName := "pi_integral_norm_max", idx := .piIntegralNormalMax, varType := .double,
      min := DBL_MIN, max := 2 },
    { fieldName := "ntp_shm_segment", idx := .ntpshmSegment, varType := .integer,
      min := INT_MIN, max := INT_MAX },
    { fieldName := "logMinDelayReqInterval", idx := .logMinDelayReqInterval,
      varType := .integer, min := -128, max := 127 },
    { fieldName := "logSyncInterval", idx := .logSyncInterval, varType := .integer,
      min := -128, max := 127 } ]

/-- Indices of the device settings. -/
inductive DeviceIdx : Type where
  | todDevice | freqDevice | monitorUdsAddress | pollTime | tsprocMode | delayFilter | filterLen
  deriving DecidableEq

/-- `device_tbl` -/
def deviceTbl : List (FieldInfo DeviceIdx) :=
  [ { fieldName := "tod_device", idx := .todDevice, varType := .string },
    { fieldName := "freq_device", idx := .freqDevice, varType := .string },
    { fieldName := "monitor_uds_address", idx := .monitorUdsAddress, varType := .string },
    { fieldName := "poll_time", idx := .pollTime, varType := .integer, min := 0, max := 255 },
    { fieldName := "tsproc_mode", idx := .tsprocMode, varType := .enum,
      enumList := some tsprocTypes },
    { fieldName := "delay_filter", idx := .delayFilter, varType := .enum,
      enumList := some delayFilters },
    { fieldName := "delay_filter_length", idx := .filterLen, varType := .integer,
      min := 1, max := INT_MAX } ]

/-! ## Configurations -/

/-- `MAX_MSG_TAG_LEN` -/
def MAX_MSG_TAG_LEN : Nat := 16

/-- `MAX_CONFIG_STR_LEN` -/
def MAX_CONFIG_STR_LEN : Nat := 32

/-- `struct logger_config`. -/
structure LoggerConfig where
  /-- minimum log level required to appear in a log -/
  logLevel : UInt8
  /-- set if syslog should be used -/
  useSyslog : UInt8
  /-- tag reported in logs -/
  msgTag : List UInt8
  /-- set to log information on stdout -/
  useStdout : UInt8
  deriving DecidableEq

/-- `struct servo_config`. What the configuration does not set is zero, and stays so until the
start-up code fills in the limits of the hardware. -/
structure ServoConfig (D : Type) where
  type : UInt32
  swTs : UInt8
  maxFrequency : D
  /-- the frequency correction in force at start-up -/
  intialAdj : Int
  stepThreshold : D
  firstStepThreshold : D
  firstUpdate : Int
  offsetThreshold : Int64
  numOffsetValues : Int
  currOffsetValues : Int
  kp : D
  ki : D
  kpScale : D
  kpExponent : D
  kpNormMax : D
  kiScale : D
  kiExponent : D
  kiNormMax : D
  ntpshmSegment : Int
  logMinDelayReqInterval : Int
  logSyncInterval : Int

/-- `struct device_config`, without the socket address. The names are buffers of fixed length, which
hold at most one byte less than they are long. -/
structure DeviceConfig where
  /-- the socket -/
  fd : Int
  /-- the clock whose time is stepped -/
  todClkId : Int
  /-- the clock whose frequency is adjusted -/
  freqClkId : Int
  todDevice : List UInt8
  freqDevice : List UInt8
  udsAddress : List UInt8
  pollTime : UInt16
  filter : UInt32
  filterLen : Int
  mode : UInt32
  deriving DecidableEq

/-- A zeroed `struct logger_config`. -/
def LoggerConfig.zero : LoggerConfig :=
  { logLevel := 0, useSyslog := 0, msgTag := List.replicate MAX_MSG_TAG_LEN 0, useStdout := 0 }

/-- A zeroed `struct device_config`. -/
def DeviceConfig.zero : DeviceConfig :=
  { fd := 0, todClkId := 0, freqClkId := 0, todDevice := List.replicate MAX_CONFIG_STR_LEN 0,
    freqDevice := List.replicate MAX_CONFIG_STR_LEN 0,
    udsAddress := List.replicate MAX_CONFIG_STR_LEN 0, pollTime := 0, filter := 0,
    filterLen := 0, mode := 0 }

variable {D : Type} [CDouble D]

/-- A zeroed `struct servo_config`. -/
def ServoConfig.zero : ServoConfig D :=
  { type := 0, swTs := 0, maxFrequency := CDouble.lit 0, intialAdj := 0,
    stepThreshold := CDouble.lit 0, firstStepThreshold := CDouble.lit 0, firstUpdate := 0,
    offsetThreshold := 0, numOffsetValues := 0, currOffsetValues := 0, kp := CDouble.lit 0,
    ki := CDouble.lit 0, kpScale := CDouble.lit 0, kpExponent := CDouble.lit 0,
    kpNormMax := CDouble.lit 0, kiScale := CDouble.lit 0, kiExponent := CDouble.lit 0,
    kiNormMax := CDouble.lit 0, ntpshmSegment := 0, logMinDelayReqInterval := 0,
    logSyncInterval := 0 }

/-! ## Checking a value -/

/-- `get_key_val`: -1 if the key is not found. -/
def getKeyVal (key : String) : List KeyVal → Int
  | [] => -1
  | kv :: tbl => if key = kv.key then kv.val else getKeyVal key tbl

/-- `get_field_info` -/
def getFieldInfo {ι : Type} (key : String) (tbl : List (FieldInfo ι)) : Option (FieldInfo ι) :=
  tbl.find? fun field => key = field.fieldName

/-- `value_range_check`: -1 if the value is refused, and the value as a `double`. -/
def valueRangeCheck {ι : Type} (field : FieldInfo ι) (val : String) : Int × D :=
  match field.varType with
  | .integer =>
    let value : D := CDouble.ofInt (atoi val)
    if CDouble.lt value (CDouble.lit field.min) && CDouble.lt (CDouble.lit field.max) value then
      (-1, value)
    else (0, value)
  | .double =>
    let value : D := strtod val
    if CDouble.lt value (CDouble.lit field.min) && CDouble.lt (CDouble.lit field.max) value then
      (-1, value)
    else (0, value)
  | .string => (0, CDouble.lit 0)
  | .enum =>
    match field.enumList with
    | none => (0, CDouble.lit 0)
    | some enumList =>
      let value : D := CDouble.ofInt (getKeyVal val enumList)
      -- the value of a missing name is compared as an unsigned number
      if CDouble.eq value (CDouble.ofInt 4294967295) then (-1, value) else (0, value)

/-! ## Storing a value -/

/-- Look a setting up in a table, check its value and store it; -1 and the configuration as it was,
if the setting is unknown or the value refused. The update functions of the three blocks are this
function with a table and a list of assignments. -/
def updateConfig {ι C : Type} (tbl : List (FieldInfo ι)) (store : ι → D → String → C → C)
    (config : C) (key keyVal : String) : Int × C :=
  match getFieldInfo key tbl with
  | none => (-1, config)
  | some fieldInfo =>
    let (rv, value) := valueRangeCheck fieldInfo keyVal
    if rv = -1 then (-1, config) else (0, store fieldInfo.idx value keyVal config)

/-- The assignments of `update_logger_config`. -/
def storeLogger (idx : LoggerIdx) (value : D) (keyVal : String) (config : LoggerConfig) :
    LoggerConfig :=
  match idx with
  | .loggingLevel => { config with logLevel := CDouble.toUInt8 value }
  | .useSyslog => { config with useSyslog := CDouble.toUInt8 value }
  | .messageTag => { config with msgTag := strncpy config.msgTag keyVal (MAX_MSG_TAG_LEN - 1) }
  | .useStdout => { config with useStdout := CDouble.toUInt8 value }

/-- The assignments of `update_servo_config`. -/
def storeServo (idx : ServoIdx) (value : D) (_keyVal : String) (config : ServoConfig D) :
    ServoConfig D :=
  match idx with
  | .servoType => { config with type := CDouble.toUInt32 value }
  | .swTs => { config with swTs := CDouble.toUInt8 value }
  | .maxFrequency => { config with maxFrequency := value }
  | .stepThreshold => { config with stepThreshold := value }
  | .firstStepThreshold => { config with firstStepThreshold := value }
  | .offsetThreshold => { config with offsetThreshold := CDouble.toInt64 value }
  | .numOffsetValues => { config with numOffsetValues := CDouble.toInt32 value }
  | .currentOffsetValues => { config with currOffsetValues := CDouble.toInt32 value }
  | .piProportional => { config with kp := value }
  | .piIntegral => { config with ki := value }
  | .piProportionalScale => { config with kpScale := value }
  | .piProportionalExponent => { config with kpExponent := value }
  | .piProportionalNormMax => { config with kpNormMax := value }
  | .piIntegralScale => { config with kiScale := value }
  | .piIntegralExponent => { config with kiExponent := value }
  | .piIntegralNormalMax => { config with kiNormMax := value }
  | .ntpshmSegment => { config with ntpshmSegment := CDouble.toInt32 value }
  | .logMinDelayReqInterval => config
  | .logSyncInterval => config

/-- The assignments of `update_device_config`. -/
def storeDevice (idx : DeviceIdx) (value : D) (keyVal : String) (config : DeviceConfig) :
    DeviceConfig :=
  match idx with
  | .todDevice =>
    { config with todDevice := strncpy config.todDevice keyVal (MAX_CONFIG_STR_LEN - 1) }
  | .freqDevice =>
    { config with freqDevice := strncpy config.freqDevice keyVal (MAX_CONFIG_STR_LEN - 1) }
  | .monitorUdsAddress =>
    { config with udsAddress := strncpy config.udsAddress keyVal (MAX_CONFIG_STR_LEN - 1) }
  | .pollTime => { config with pollTime := CDouble.toUInt16 value }
  | .tsprocMode => { config with mode := CDouble.toUInt32 value }
  | .delayFilter => { config with filter := CDouble.toUInt32 value }
  | .filterLen => { config with filterLen := CDouble.toInt32 value }

variable (D)

/-- `update_logger_config` -/
def updateLoggerConfig (config : LoggerConfig) (key keyVal : String) : Int × LoggerConfig :=
  updateConfig (D := D) loggerTbl storeLogger config key keyVal

variable {D}

/-- `update_servo_config` -/
def updateServoConfig (config : ServoConfig D) (key keyVal : String) : Int × ServoConfig D :=
  updateConfig servoConfigTbl storeServo config key keyVal

variable (D)

/-- `update_device_config` -/
def updateDeviceConfig (config : DeviceConfig) (key keyVal : String) : Int × DeviceConfig :=
  updateConfig (D := D) deviceTbl storeDevice config key keyVal

variable {D}

/-! ## What a check delivers -/

section Value

variable {ι : Type} {field : FieldInfo ι}

/-- The value of an integer, refused or not. -/
theorem valueRangeCheck_integer (hvar : field.varType = .integer) (val : String) :
    (valueRangeCheck field val).2 = (CDouble.ofInt (atoi val) : D) := by
  simp only [valueRangeCheck, hvar]
  split <;> rfl

/-- The value of a name, refused or not. -/
theorem valueRangeCheck_name {enumList : List KeyVal} (hvar : field.varType = .enum)
    (henum : field.enumList = some enumList) (val : String) :
    (valueRangeCheck field val).2 = (CDouble.ofInt (getKeyVal val enumList) : D) := by
  simp only [valueRangeCheck, hvar, henum]
  split <;> rfl

end Value

/-! ## What an update can do -/

section Update

variable {ι C : Type} {tbl : List (FieldInfo ι)} {store : ι → D → String → C → C}

/-- An update is refused and changes nothing, or stores a checked value. -/
theorem updateConfig_cases (tbl : List (FieldInfo ι)) (store : ι → D → String → C → C)
    (config : C) (key keyVal : String) :
    updateConfig tbl store config key keyVal = (-1, config) ∨
      ∃ field, getFieldInfo key tbl = some field ∧
        (valueRangeCheck (D := D) field keyVal).1 ≠ -1 ∧
        updateConfig tbl store config key keyVal =
          (0, store field.idx (valueRangeCheck field keyVal).2 keyVal config) := by
  rw [updateConfig]
  cases hfield : getFieldInfo key tbl with
  | none => exact .inl rfl
  | some field =>
    by_cases hrv : (valueRangeCheck (D := D) field keyVal).1 = -1
    · left
      simp [hrv]
    · right
      refine ⟨field, rfl, hrv, ?_⟩
      simp [hrv]

/-- A refused update leaves the configuration as it was. -/
theorem updateConfig_refused {config : C} {key keyVal : String}
    (h : (updateConfig tbl store config key keyVal).1 = -1) :
    (updateConfig tbl store config key keyVal).2 = config := by
  rcases updateConfig_cases tbl store config key keyVal with heq | ⟨_, _, _, heq⟩
  · rw [heq]
  · rw [heq] at h
    cases h

/-- Whether an update is refused depends on the setting and its value only. -/
theorem updateConfig_fst (config config' : C) (key keyVal : String) :
    (updateConfig tbl store config key keyVal).1 =
      if (updateConfig tbl store config' key keyVal).1 ≠ -1 then 0 else -1 := by
  unfold updateConfig
  cases getFieldInfo key tbl with
  | none => rfl
  | some field =>
    by_cases hrv : (valueRangeCheck (D := D) field keyVal).1 = -1
    · simp [hrv]
    · simp [hrv]

end Update

/-- The name in a table's entry finds the entry: no name is listed twice. -/
theorem getFieldInfo_of_mem {ι : Type} {tbl : List (FieldInfo ι)} {field : FieldInfo ι}
    (hnames : (tbl.map FieldInfo.fieldName).Nodup) (h : field ∈ tbl) :
    getFieldInfo field.fieldName tbl = some field := by
  induction tbl with
  | nil => cases h
  | cons f fs ih =>
    rw [List.map_cons, List.nodup_cons] at hnames
    obtain ⟨hname, hnames⟩ := hnames
    rw [getFieldInfo, List.find?_cons]
    rcases List.mem_cons.mp h with rfl | h
    · simp
    · have hne : field.fieldName ≠ f.fieldName := by
        intro heq
        rw [← heq] at hname
        exact hname (List.mem_map_of_mem h)
      simpa [hne, getFieldInfo] using ih hnames h

theorem getKeyVal_of_notMem {key : String} {tbl : List KeyVal}
    (h : key ∉ tbl.map KeyVal.key) : getKeyVal key tbl = -1 := by
  induction tbl with
  | nil => rfl
  | cons kv tbl ih =>
    rw [List.map_cons, List.mem_cons, not_or] at h
    obtain ⟨hne, h⟩ := h
    rw [getKeyVal, if_neg hne, ih h]

end ExternalServo
