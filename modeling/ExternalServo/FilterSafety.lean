import ExternalServo.RangeCheck
import ExternalServo.Tsproc
import ExternalServo.FilterWindow
import ExternalServo.Runs

/-!
# Safety of the configured delay filter

From the device block of a document to the filter that `tsproc_create` hands out, and to
every later run of it. The last value of a setting counts, and a setting that is absent is
zero (`deviceConfig_ofPairs`). The median's constructor checks the length; the average's
does not, and a length of zero reaches it when the setting is absent or parsed to zero.
-/

namespace ExternalServo

open CArith Runs

/-! ## The last value of a setting -/

/-- The value of the last pair with the key. -/
def lastValue (key : String) (pairs : List (String × String)) : Option String :=
  pairs.reverse.lookup key

theorem lastValue_append (key k v : String) (pairs : List (String × String)) :
    lastValue key (pairs ++ [(k, v)]) = if k = key then some v else lastValue key pairs := by
  rw [lastValue, List.reverse_append, List.reverse_singleton, List.singleton_append,
    List.lookup_cons]
  by_cases hkey : k = key
  · simp [hkey]
  · have hne : (key == k) = false := beq_eq_false_iff_ne.mpr (Ne.symm hkey)
    simp [hkey, hne, lastValue]

variable {D : Type} [CDouble D]

/-- What one update does to a part of the configuration, a whole block does with the last value. -/
theorem Block.ofPairs_last (b : Block) {β : Type} (proj : b.Config D → β) {key : String}
    {conv : String → β}
    (hstep : ∀ config k v,
      proj (b.update D config k v).2 = if k = key then conv v else proj config)
    (pairs : List (String × String)) :
    proj (b.ofPairs D pairs) = (lastValue key pairs).elim (proj (b.zero D)) conv := by
  induction pairs using List.reverseRecOn with
  | nil => rfl
  | append_singleton pairs kv ih =>
    obtain ⟨k, v⟩ := kv
    rw [b.ofPairs_append, hstep, lastValue_append]
    split
    · rfl
    · exact ih

section Device

variable [LawfulCDouble D]

/-- No listed setting of a device is refused. -/
theorem valueRangeCheck_device {field : FieldInfo DeviceIdx} (hmem : field ∈ deviceTbl)
    (val : String) : (valueRangeCheck (D := D) field val).1 = 0 := by
  have hbounds := min_le_max.2.2 field hmem
  cases hvar : field.varType with
  | integer =>
    have hnumeric : field.numeric = some ⟨field.fieldName, false, field.min, field.max⟩ := by
      simp only [FieldInfo.numeric, hvar]
    rw [valueRangeCheck_numeric (D := D) hnumeric hbounds val]
  | double =>
    have hnumeric : field.numeric = some ⟨field.fieldName, true, field.min, field.max⟩ := by
      simp only [FieldInfo.numeric, hvar]
    rw [valueRangeCheck_numeric (D := D) hnumeric hbounds val]
  | string => simp only [valueRangeCheck, hvar]
  | enum =>
    have hvals : ∀ f ∈ deviceTbl, ∀ kv ∈ f.enumList.getD [], |kv.val| < 2 ^ 31 := by
      decide +kernel
    refine valueRangeCheck_enum hvar ?_ val
    intro enumList henum kv hkv
    apply hvals field hmem kv
    rw [henum]
    exact hkv

/-- What an update does to a part of the configuration that one setting stores. -/
theorem updateDeviceConfig_proj {β : Type} {proj : DeviceConfig → β} {conv : String → β}
    (field : FieldInfo DeviceIdx) (hmem : field ∈ deviceTbl)
    (hother : ∀ idx ≠ field.idx, ∀ (value : D) val config,
      proj (storeDevice idx value val config) = proj config)
    (hstore : ∀ val config,
      proj (storeDevice field.idx (valueRangeCheck (D := D) field val).2 val config) = conv val)
    (config : DeviceConfig) (key val : String) :
    proj (updateDeviceConfig D config key val).2 =
      if key = field.fieldName then conv val else proj config := by
  rw [updateDeviceConfig, updateConfig]
  cases hget : getFieldInfo key deviceTbl with
  | none =>
    have hne : key ≠ field.fieldName := by
      rintro rfl
      rw [getFieldInfo_of_mem fieldName_nodup.2.2 hmem] at hget
      cases hget
    simp [hne]
  | some f =>
    have hf : f ∈ deviceTbl := List.mem_of_find?_eq_some hget
    have hname : key = f.fieldName := by simpa using List.find?_some hget
    have hidx : (deviceTbl.map FieldInfo.idx).Nodup := by decide +kernel
    simp only [valueRangeCheck_device (D := D) hf]
    by_cases hkey : key = field.fieldName
    · rw [hkey, getFieldInfo_of_mem fieldName_nodup.2.2 hmem] at hget
      obtain rfl := Option.some.inj hget
      simp [hkey, hstore]
    · have hne : f.idx ≠ field.idx := by
        intro heq
        obtain rfl : f = field := List.inj_on_of_nodup_map hidx hf hmem heq
        exact hkey hname
      simp [hkey, hother f.idx hne]

/-- A name's value as it is stored in an enumeration. -/
theorem toUInt32_getKeyVal {tbl : List KeyVal} (htbl : ∀ kv ∈ tbl, |kv.val| < 2 ^ 31)
    (val : String) :
    CDouble.toUInt32 (CDouble.ofInt (getKeyVal val tbl) : D) =
      UInt32.ofInt (getKeyVal val tbl) := by
  obtain ⟨hlo, hhi⟩ := abs_lt.mp (abs_getKeyVal_lt htbl val)
  exact toUInt32_ofInt hlo.le hhi

/-- The fields of a device's configuration that create its filter, from the pairs of its block. -/
theorem deviceConfig_ofPairs (pairs : List (String × String)) :
    let config : DeviceConfig := Block.device.ofPairs D pairs
    config.mode = (lastValue "tsproc_mode" pairs).elim 0
        (fun val => UInt32.ofInt (getKeyVal val tsprocTypes)) ∧
      config.filter = (lastValue "delay_filter" pairs).elim 0
        (fun val => UInt32.ofInt (getKeyVal val delayFilters)) ∧
      config.filterLen = (lastValue "delay_filter_length" pairs).elim 0 atoi := by
  refine ⟨Block.device.ofPairs_last DeviceConfig.mode ?_ pairs,
    Block.device.ofPairs_last DeviceConfig.filter ?_ pairs,
    Block.device.ofPairs_last DeviceConfig.filterLen ?_ pairs⟩
  · refine updateDeviceConfig_proj
      { fieldName := "tsproc_mode", idx := .tsprocMode, varType := .enum,
        enumList := some tsprocTypes } (by decide +kernel) ?_ ?_
    · intro idx hidx value val config
      cases idx <;> first | rfl | exact absurd rfl hidx
    · intro val config
      rw [valueRangeCheck_name rfl rfl]
      exact toUInt32_getKeyVal (by decide +kernel) val
  · refine updateDeviceConfig_proj
      { fieldName := "delay_filter", idx := .delayFilter, varType := .enum,
        enumList := some delayFilters } (by decide +kernel) ?_ ?_
    · intro idx hidx value val config
      cases idx <;> first | rfl | exact absurd rfl hidx
    · intro val config
      rw [valueRangeCheck_name rfl rfl]
      exact toUInt32_getKeyVal (by decide +kernel) val
  · refine updateDeviceConfig_proj
      { fieldName := "delay_filter_length", idx := .filterLen, varType := .integer, min := 1,
        max := INT_MAX } (by decide +kernel) ?_ ?_
    · intro idx hidx value val config
      cases idx <;> first | rfl | exact absurd rfl hidx
    · intro val config
      rw [valueRangeCheck_integer rfl]
      exact toInt32_ofInt (atoi_range val).1 (atoi_range val).2

end Device

/-! ## Runs of a filter -/

/-- A call on a filter. The program makes no others between the creation of a filter and its end. -/
inductive FilterOp : Type where
  /-- `filter_sample` -/
  | sample (x : Tmv) : FilterOp
  /-- `filter_reset` -/
  | reset : FilterOp

/-- The filter after a call. -/
def filterStep (f : Filter) (op : FilterOp) : Except Fault Filter :=
  match op with
  | .sample x => (filterSample f x).map Prod.snd
  | .reset => filterReset f

/-- No sequence of calls faults: none divides by a count of zero or indexes outside the buffer. -/
def FilterSafe (f : Filter) : Prop :=
  ∀ ops : List FilterOp, ∃ f', ops.foldlM filterStep f = .ok f'

/-- A filter that represents a window goes on doing so. -/
theorem filterSafe_of_tracks {f : Filter} {w : List Tmv} (h : f.Tracks w) : FilterSafe f := by
  intro ops
  have hstep : ∀ f op, (∃ w, Filter.Tracks f w) → True →
      ∃ f', filterStep f op = .ok f' ∧ ∃ w, f'.Tracks w := by
    rintro f op ⟨w, h⟩ -
    cases op with
    | sample x =>
      obtain ⟨f', hrun, htracks, -⟩ := filterSample_spec h x
      exact ⟨f', by rw [filterStep, hrun]; rfl, _, htracks⟩
    | reset =>
      obtain ⟨f', hrun, htracks, -⟩ := filterReset_spec h
      exact ⟨f', hrun, _, htracks⟩
  have hops : ∀ op ∈ ops, True := by
    intro op _
    trivial
  obtain ⟨f', hrun, -⟩ := run_ok_of_inv hstep ⟨w, h⟩ hops
  exact ⟨f', hrun⟩

/-- The first sample of an average filter without slots is already outside the buffer. -/
theorem not_filterSafe_empty (cnt index : Nat) (sum : Tmv) :
    ¬ FilterSafe (.mave { cnt, len := 0, index, sum, val := [] }) := by
  intro h
  obtain ⟨f', hrun⟩ := h [.sample tmvZero]
  obtain ⟨s, hstep, -⟩ := run_cons_eq_ok.mp hrun
  cases hstep

/-- A median filter is created with at least one slot only. -/
theorem filterCreate_median {grants : Nat → Bool} {type : UInt32} {length : Int} {f : Filter}
    (htype : type ≠ 0) (h : filterCreate grants type length = some f) : 0 < length := by
  unfold filterCreate at h
  split at h
  · next hraw =>
    unfold FilterType.ofRaw at hraw
    rw [if_neg htype] at hraw
    split_ifs at hraw
    cases hraw
  · obtain ⟨m, hm, -⟩ := Option.map_eq_some_iff.mp h
    unfold mmedianCreate at hm
    split_ifs at hm with hlen
    omega
  · cases h

/-- An average filter of a negative length asks for more memory than there is. -/
theorem filterCreate_nonneg {grants : Nat → Bool} {type : UInt32} {length : Int} {f : Filter}
    (hlength : -2 ^ 31 ≤ length) (h : filterCreate grants type length = some f) :
    0 ≤ length := by
  by_contra hneg
  rcases eq_or_ne type 0 with rfl | htype
  · obtain ⟨m, hm, -⟩ := Option.map_eq_some_iff.mp h
    rw [maveCreate, calloc_negative grants (by omega) hlength (by decide) (by decide)] at hm
    split_ifs at hm with hmave hval
    exact hval rfl
  · exact hneg (filterCreate_median htype h).le

/-! ## From the document to the filter -/

variable (D) in
/-- The pairs of the last device block of a file; none if there is no such block. -/
def devicePairs (file : YamlFile) : List (String × String) :=
  match read D file.tokens with
  | .ok r => (r.committed .device).getD []
  | .error _ => []

/-- The settings ask for a moving average without slots: `delay_filter` is absent or
`moving_average`, `delay_filter_length` is absent or parsed to zero, and `tsproc_mode` is absent or
the name of a mode. An absent key leaves the zero of the static configuration, which the default of
the table does not replace. -/
structure EmptyAverage (pairs : List (String × String)) : Prop where
  filter : ∀ val, lastValue "delay_filter" pairs = some val → val = "moving_average"
  length : ∀ val, lastValue "delay_filter_length" pairs = some val → atoi val = 0
  mode : ∀ val, lastValue "tsproc_mode" pairs = some val → val ∈ tsprocTypes.map KeyVal.key

variable (D) in
/-- `servo_config_parse` accepts the file. -/
def Accepted (file : YamlFile) (logFp : Bool) (g' : Globals D) : Prop :=
  ∃ fuel, servoConfigParse (some file) true (globalsInit logFp) fuel = some (.ok (0, g'))

variable (D) in
/-- Every filter that `tsproc_create` hands out for the file has a slot and is safe. Where the
creation fails, as it does for an unknown mode, there is no filter to speak of. -/
def FiltersSafe (file : YamlFile) : Prop :=
  ∀ logFp (g' : Globals D), Accepted D file logFp g' → ∀ grants (tsp : Tsproc D),
    tsprocCreate grants g'.deviceConfig.mode g'.deviceConfig.filter g'.deviceConfig.filterLen =
      some tsp → 1 ≤ tsp.delayFilter.len ∧ FilterSafe tsp.delayFilter

/-- The device's configuration after a file was accepted. -/
theorem Accepted.deviceConfig {file : YamlFile} {logFp : Bool} {g' : Globals D}
    (h : Accepted D file logFp g') :
    g'.deviceConfig = Block.device.ofPairs D (devicePairs D file) := by
  obtain ⟨r, hread, -, -, rfl⟩ :=
    (parseResult_accepted file _).mp ((servoConfigParse_returns_iff file _ _).mp h)
  simp only [Reading.globals, devicePairs, hread]
  cases r.committed .device with
  | none => rfl
  | some pairs => rfl

theorem isSome_ofRaw_tsprocTypes (val : String) :
    (TsprocMode.ofRaw (UInt32.ofInt (getKeyVal val tsprocTypes))).isSome = true ↔
      val ∈ tsprocTypes.map KeyVal.key := by
  by_cases hmem : val ∈ tsprocTypes.map KeyVal.key
  · refine iff_of_true ?_ hmem
    revert val
    decide +kernel
  · rw [getKeyVal_of_notMem hmem]
    exact iff_of_false (by decide) hmem

theorem ofInt_getKeyVal_delayFilters (val : String) :
    UInt32.ofInt (getKeyVal val delayFilters) = 0 ↔ val = "moving_average" := by
  by_cases hmem : val ∈ delayFilters.map KeyVal.key
  · revert val
    decide +kernel
  · rw [getKeyVal_of_notMem hmem]
    refine iff_of_false (by decide) ?_
    rintro rfl
    exact hmem (by decide +kernel)

variable [LawfulCDouble D]

/-- The settings of an average without slots create one, if memory is granted. -/
theorem EmptyAverage.create {pairs : List (String × String)} (h : EmptyAverage pairs) :
    let config : DeviceConfig := Block.device.ofPairs D pairs
    ∃ tsp : Tsproc D,
      tsprocCreate (fun _ => true) config.mode config.filter config.filterLen = some tsp ∧
        tsp.delayFilter = .mave { cnt := 0, len := 0, index := 0, sum := tmvZero, val := [] } := by
  obtain ⟨hmode, hfilter, hlength⟩ := deviceConfig_ofPairs (D := D) pairs
  intro config
  have hfilter : config.filter = 0 := by
    rw [hfilter]
    cases hval : lastValue "delay_filter" pairs with
    | none => rfl
    | some val => exact (ofInt_getKeyVal_delayFilters val).mpr (h.filter val hval)
  have hlength : config.filterLen = 0 := by
    rw [hlength]
    cases hval : lastValue "delay_filter_length" pairs with
    | none => rfl
    | some val => exact h.length val hval
  obtain ⟨mode, hmode⟩ : ∃ mode, TsprocMode.ofRaw config.mode = some mode := by
    rw [hmode]
    cases hval : lastValue "tsproc_mode" pairs with
    | none => exact ⟨.filter, rfl⟩
    | some val =>
      exact Option.isSome_iff_exists.mp ((isSome_ofRaw_tsprocTypes val).mpr (h.mode val hval))
  rw [hfilter, hlength]
  refine ⟨⟨mode, CDouble.lit 1, tmvZero, tmvZero, tmvZero, tmvZero, tmvZero, false,
    .mave ⟨0, 0, 0, tmvZero, []⟩⟩, ?_, rfl⟩
  simp only [tsprocCreate, hmode]
  rfl

/-- Every other filter that can be created has a slot. A median of length zero is refused at its
creation; an average has the length that was configured, which is zero only for the excluded
settings. -/
theorem filterLen_pos {pairs : List (String × String)} (h : ¬ EmptyAverage pairs)
    {grants : Nat → Bool} {tsp : Tsproc D} :
    let config : DeviceConfig := Block.device.ofPairs D pairs
    tsprocCreate grants config.mode config.filter config.filterLen = some tsp →
      0 < config.filterLen := by
  obtain ⟨hmode, hfilter, hlength⟩ := deviceConfig_ofPairs (D := D) pairs
  intro config hcreate
  obtain ⟨hofRaw, hcreate, -⟩ := tsprocCreate_eq_some hcreate
  by_cases htype : config.filter = 0
  · -- an average: its length is not zero, and not negative
    have hrange : -2 ^ 31 ≤ config.filterLen := by
      rw [hlength]
      cases lastValue "delay_filter_length" pairs with
      | none => exact by decide
      | some val => exact (atoi_range val).1
    apply lt_of_le_of_ne (filterCreate_nonneg hrange hcreate)
    intro hzero
    apply h
    refine ⟨?_, ?_, ?_⟩
    · intro val hval
      rw [hfilter, hval] at htype
      exact (ofInt_getKeyVal_delayFilters val).mp htype
    · intro val hval
      rw [hlength, hval] at hzero
      exact hzero.symm
    · intro val hval
      rw [hmode, hval] at hofRaw
      exact (isSome_ofRaw_tsprocTypes val).mp (Option.isSome_iff_exists.mpr ⟨_, hofRaw⟩)
  · exact filterCreate_median htype hcreate

theorem not_filtersSafe {file : YamlFile} {logFp : Bool} {g' : Globals D}
    (haccept : Accepted D file logFp g') (h : EmptyAverage (devicePairs D file)) :
    ¬ FiltersSafe D file := by
  intro hsafe
  obtain ⟨tsp, hcreate, hfilter⟩ := h.create (D := D)
  rw [← haccept.deviceConfig] at hcreate
  have hfaults := (hsafe logFp g' haccept _ tsp hcreate).2
  rw [hfilter] at hfaults
  exact not_filterSafe_empty 0 0 tmvZero hfaults

/-- A device block that selects the moving average and no length. -/
def averageFile : YamlFile :=
  { tokens := [.streamStart, .blockMappingStart, .key, .scalar "device", .value,
      .blockMappingStart, .key, .scalar "delay_filter", .value, .scalar "moving_average",
      .blockEnd, .blockEnd]
    scanError := false
    noEnd := by decide }

/-- The file is accepted, and its settings ask for a moving average without slots: a length is
missing. -/
theorem averageFile_accepted :
    ∃ g', Accepted XRat averageFile true g' ∧ EmptyAverage (devicePairs XRat averageFile) := by
  have hread : (match read XRat averageFile.tokens with
      | .ok r => decide (r.place = .top ∧
          r.committed .device = some [("delay_filter", "moving_average")])
      | .error _ => false) = true := by decide +kernel
  cases hr : read XRat averageFile.tokens with
  | error refusal => simp [hr] at hread
  | ok r =>
    simp only [hr, decide_eq_true_eq] at hread
    obtain ⟨hplace, hpairs⟩ := hread
    refine ⟨r.globals (globalsInit true), ?_, ?_⟩
    · exact (servoConfigParse_returns_iff _ _ _).mpr
        ((parseResult_accepted _ _).mpr ⟨r, hr, rfl, hplace, rfl⟩)
    · have hdevice : devicePairs XRat averageFile = [("delay_filter", "moving_average")] := by
        simp [devicePairs, hr, hpairs]
      rw [hdevice]
      refine ⟨?_, ?_, ?_⟩
      · intro val hval
        exact (Option.some.inj hval).symm
      · intro val hval
        cases hval
      · intro val hval
        cases hval

/-- **The filters of an accepted file are safe exactly if its settings do not ask for a moving
average without slots.** With no slot the first sample takes the remainder of its index by the
length zero; with one, the invariants of the two filters hold from the creation on. The condition
reads the last value of each key alone, so it can be checked on the file. -/
theorem filtersSafe_iff {file : YamlFile}
    (haccept : ∃ logFp, ∃ g' : Globals D, Accepted D file logFp g') :
    FiltersSafe D file ↔ ¬ EmptyAverage (devicePairs D file) := by
  refine ⟨?_, ?_⟩
  · obtain ⟨logFp, g', haccept⟩ := haccept
    intro hsafe h
    exact not_filtersSafe haccept h hsafe
  · intro h logFp g' haccept grants tsp hcreate
    rw [haccept.deviceConfig] at hcreate
    obtain ⟨htracks, hlen⟩ := filterCreate_tracks (filterLen_pos h hcreate)
      (tsprocCreate_eq_some hcreate).2.1
    have hpos := filterLen_pos h hcreate
    exact ⟨by omega, filterSafe_of_tracks htracks⟩

/-- The file that asks for a moving average and does not say how long is accepted, so that the
theorem applies to it; `not_filtersSafe_averageFile` says which side it falls on. -/
theorem filtersSafe_averageFile :
    FiltersSafe XRat averageFile ↔ ¬ EmptyAverage (devicePairs XRat averageFile) := by
  obtain ⟨g', haccept, -⟩ := averageFile_accepted
  exact filtersSafe_iff ⟨true, g', haccept⟩

/-- Without `delay_filter_length` the length stays zero, as no default of the table is ever applied,
and the first delay message divides by the number of slots. -/
theorem not_filtersSafe_averageFile : ¬ FiltersSafe XRat averageFile := by
  obtain ⟨g', haccept, h⟩ := averageFile_accepted
  exact not_filtersSafe haccept h

end ExternalServo
