import ExternalServo.Reading

/-!
# Range checking of numeric settings

`value_range_check` refuses a number that is below the minimum *and* above the maximum.
The bounds of every setting are in order (`min_le_max`), so no number is refused
(`valueRangeCheck_numeric`), and a setting is checked as its table says exactly for the
values within the bounds (`rangeChecked_iff`).
-/

namespace ExternalServo

open CArith

variable (D : Type) [CDouble D]

/-- A setting of type `VAR_TYPE_INTEGER` or `VAR_TYPE_DOUBLE`, from a field table: what its value is
parsed with, and the bounds that are listed for it. The bounds are constants of the source, rounded
when they are compared. -/
structure NumericField where
  fieldName : String
  /-- `VAR_TYPE_DOUBLE` -/
  double : Bool
  min : ℚ
  max : ℚ
  deriving DecidableEq

/-- The number a value string is parsed to. -/
def NumericField.number (field : NumericField) (val : String) : D :=
  if field.double then strtod val else CDouble.ofInt (atoi val)

/-- The number is within the bounds of the setting. -/
def NumericField.InBounds (field : NumericField) (val : String) : Prop :=
  CDouble.inRange (CDouble.lit field.min) (CDouble.lit field.max) (field.number D val) = true

/-- A table entry as a numeric setting. -/
def FieldInfo.numeric {ι : Type} (field : FieldInfo ι) : Option NumericField :=
  match field.varType with
  | .integer => some ⟨field.fieldName, false, field.min, field.max⟩
  | .double => some ⟨field.fieldName, true, field.min, field.max⟩
  | .string | .enum => none

/-- The numeric settings of a block. -/
def Block.numericFields : Block → List NumericField
  | .logging => loggerTbl.filterMap FieldInfo.numeric
  | .servo => servoConfigTbl.filterMap FieldInfo.numeric
  | .device => deviceTbl.filterMap FieldInfo.numeric

/-- The file holds the key with the value in the block: the four tokens of the pair, after tokens
that are read and end in the block. What comes before must not be refused, as the pair is not read
otherwise. -/
def YamlFile.Holds (file : YamlFile) (b : Block) (key val : String) : Prop :=
  ∃ pre post r, file.tokens = pre ++ [.key, .scalar key, .value, .scalar val] ++ post ∧
    read D pre = .ok r ∧ r.place = .inside b

/-- The assignment to a setting in a table. -/
def assignIn {ι C : Type} (tbl : List (FieldInfo ι)) (store : ι → D → String → C → C) (key : String)
    (value : D) (keyVal : String) (config : C) : C :=
  match getFieldInfo key tbl with
  | none => config
  | some fieldInfo => store fieldInfo.idx value keyVal config

/-- The assignment to a setting of a block. -/
def Block.assign : (b : Block) → String → D → String → b.Config D → b.Config D
  | .logging => assignIn D loggerTbl storeLogger
  | .servo => assignIn D servoConfigTbl storeServo
  | .device => assignIn D deviceTbl storeDevice

/-- The setting's value is stored if its number is in range, and only then. Otherwise the update
returns -1 and leaves the configuration as it is, and so does parsing for every file with the pair.
This is range checking, for one setting and one text of its value. -/
structure RangeChecked (b : Block) (field : NumericField) (val : String) : Prop where
  stored : field.InBounds D val → ∀ config, b.update D config field.fieldName val =
    (0, b.assign D field.fieldName (field.number D val) val config)
  accepted : ∀ config, (b.update D config field.fieldName val).1 = 0 → field.InBounds D val
  refused : ¬ field.InBounds D val → ∀ config,
    b.update D config field.fieldName val = (-1, config)
  parse : ¬ field.InBounds D val → ∀ (file : YamlFile) (g : Globals D),
    file.Holds D b field.fieldName val →
      ∃ fuel g', servoConfigParse (some file) true g fuel = some (.ok (-1, g'))

/-! ## No number is refused -/

/-- The bounds of every setting are in order. -/
theorem min_le_max :
    (∀ field ∈ loggerTbl, field.min ≤ field.max) ∧
      (∀ field ∈ servoConfigTbl, field.min ≤ field.max) ∧
      (∀ field ∈ deviceTbl, field.min ≤ field.max) := by
  decide +kernel

/-- Every setting is named once in its table. -/
theorem fieldName_nodup :
    (loggerTbl.map FieldInfo.fieldName).Nodup ∧ (servoConfigTbl.map FieldInfo.fieldName).Nodup ∧
      (deviceTbl.map FieldInfo.fieldName).Nodup := by
  decide +kernel

/-- The value of a name is listed, or -1. -/
theorem abs_getKeyVal_lt {tbl : List KeyVal} (h : ∀ kv ∈ tbl, |kv.val| < 2 ^ 31) (key : String) :
    |getKeyVal key tbl| < 2 ^ 31 := by
  induction tbl with
  | nil => exact (by decide : |(-1 : Int)| < 2 ^ 31)
  | cons kv tbl ih =>
    obtain ⟨hval, h⟩ := List.forall_mem_cons.mp h
    rw [getKeyVal]
    split
    · exact hval
    · exact ih h

variable {D}

section Numeric

variable [LawfulCDouble D] {ι : Type}

/-- A numeric setting's check succeeds for every string, with the number of the string. -/
theorem valueRangeCheck_numeric {field : FieldInfo ι} {numeric : NumericField}
    (hnumeric : field.numeric = some numeric) (hbounds : field.min ≤ field.max) (val : String) :
    valueRangeCheck field val = (0, numeric.number D val) := by
  have hcheck : ∀ v : D,
      (CDouble.lt v (CDouble.lit field.min) && CDouble.lt (CDouble.lit field.max) v) = false :=
    not_lt_and_gt hbounds
  rw [valueRangeCheck]
  cases hvar : field.varType with
  | integer | double =>
    simp only [FieldInfo.numeric, hvar, Option.some.injEq] at hnumeric
    rw [← hnumeric]
    simp only [hcheck, NumericField.number, Bool.false_eq_true, if_false, if_true]
  | string => simp [FieldInfo.numeric, hvar] at hnumeric
  | enum => simp [FieldInfo.numeric, hvar] at hnumeric

/-- The value of a missing name is not the one it is compared with: no check of an enumeration
refuses a string. -/
theorem valueRangeCheck_enum {field : FieldInfo ι} (hvar : field.varType = .enum)
    (hvals : ∀ enumList, field.enumList = some enumList → ∀ kv ∈ enumList, |kv.val| < 2 ^ 31)
    (val : String) : (valueRangeCheck (D := D) field val).1 = 0 := by
  simp only [valueRangeCheck, hvar]
  cases henum : field.enumList with
  | none => rfl
  | some enumList =>
    have hkey := abs_getKeyVal_lt (hvals enumList henum) val
    have hne : getKeyVal val enumList ≠ 4294967295 := by
      intro heq
      rw [heq] at hkey
      norm_num at hkey
    have heq := LawfulCDouble.eq_ofInt (D := D) (getKeyVal val enumList) 4294967295
      (hkey.le.trans (by norm_num)) (by norm_num)
    simp only [heq, hne, decide_false, Bool.false_eq_true, if_false]

theorem FieldInfo.fieldName_numeric {field : FieldInfo ι} {numeric : NumericField}
    (h : field.numeric = some numeric) : numeric.fieldName = field.fieldName := by
  cases hvar : field.varType with
  | integer | double =>
    simp only [FieldInfo.numeric, hvar, Option.some.injEq] at h
    rw [← h]
  | string | enum =>
    simp only [FieldInfo.numeric, hvar] at h
    cases h

/-- A numeric setting's update stores the number of every string. -/
theorem updateConfig_numeric {C : Type} {tbl : List (FieldInfo ι)}
    {store : ι → D → String → C → C} {field : NumericField}
    (hfield : field ∈ tbl.filterMap FieldInfo.numeric)
    (hnames : (tbl.map FieldInfo.fieldName).Nodup) (hbounds : ∀ info ∈ tbl, info.min ≤ info.max)
    (config : C) (val : String) :
    updateConfig tbl store config field.fieldName val =
      (0, assignIn D tbl store field.fieldName (field.number D val) val config) := by
  obtain ⟨info, hmem, hinfo⟩ := List.mem_filterMap.mp hfield
  have hrv := valueRangeCheck_numeric (D := D) hinfo (hbounds info hmem) val
  rw [info.fieldName_numeric hinfo]
  simp [updateConfig, assignIn, getFieldInfo_of_mem hnames hmem, hrv]

end Numeric

/-- **The check never refuses a number**, and the number is stored: it asks whether the value is
below the minimum and above the maximum, which nothing is. The constants of every row are in order,
so that this is so with rounding as well. -/
theorem Block.update_numeric [LawfulCDouble D] {b : Block} {field : NumericField}
    (hfield : field ∈ b.numericFields) (config : b.Config D) (val : String) :
    b.update D config field.fieldName val =
      (0, b.assign D field.fieldName (field.number D val) val config) := by
  obtain ⟨hlogging, hservo, hdevice⟩ := fieldName_nodup
  obtain ⟨hlogging', hservo', hdevice'⟩ := min_le_max
  cases b with
  | logging => exact updateConfig_numeric hfield hlogging hlogging' config val
  | servo => exact updateConfig_numeric hfield hservo hservo' config val
  | device => exact updateConfig_numeric hfield hdevice hdevice' config val

/-- **A numeric setting is range checked exactly at the values within its bounds.** In range the
value is stored, as it should be; any other value is stored as well, instead of being refused. -/
theorem rangeChecked_iff [LawfulCDouble D] {b : Block} {field : NumericField}
    (hfield : field ∈ b.numericFields) (val : String) :
    RangeChecked D b field val ↔ field.InBounds D val := by
  refine ⟨?_, ?_⟩
  · intro h
    refine h.accepted (b.zero D) ?_
    rw [Block.update_numeric hfield]
  · intro h
    refine ⟨?_, ?_, ?_, ?_⟩
    · intro _ config
      exact Block.update_numeric hfield config val
    · intro _ _
      exact h
    · intro hout
      exact absurd h hout
    · intro hout
      exact absurd h hout

/-- The setting of the logging level. -/
def loggingLevelField : NumericField := ⟨"logging_level", false, 0, 7⟩

/-- Of the values 7 and 9 the first one is within the bounds. -/
theorem rangeChecked_logging_level :
    RangeChecked XRat .logging loggingLevelField "7" ∧
      ¬ RangeChecked XRat .logging loggingLevelField "9" := by
  have hfield : loggingLevelField ∈ Block.logging.numericFields := by decide +kernel
  have hin : loggingLevelField.InBounds XRat "7" := by
    rw [NumericField.InBounds]
    decide +kernel
  have hout : ¬ loggingLevelField.InBounds XRat "9" := by
    rw [NumericField.InBounds]
    decide +kernel
  exact ⟨(rangeChecked_iff hfield "7").mpr hin, mt (rangeChecked_iff hfield "9").mp hout⟩

/-- The update accepts a logging level of 9. -/
theorem not_rangeChecked_logging_level :
    ¬ RangeChecked XRat .logging loggingLevelField "9" := by
  intro h
  have hstored : (Block.update XRat .logging LoggerConfig.zero "logging_level" "9").1 = 0 := by
    decide +kernel
  have hout : ¬ loggingLevelField.InBounds XRat "9" := by
    rw [NumericField.InBounds]
    decide +kernel
  exact hout (h.accepted LoggerConfig.zero hstored)

end ExternalServo
