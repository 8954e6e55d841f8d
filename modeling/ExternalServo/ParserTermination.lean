import ExternalServo.Reading

/-!
# When parsing a file ends

The scan loop is left at `STOP_PARSE` only, which the state machine enters at the end of
the stream, at the top level of the document. `servoConfigParse_ends_iff` is the exact
condition for a result; the rest of the file names the streams that miss it:

* no mapping in block style ever opens: an empty file, a scalar, a sequence of scalars
  or a flow mapping at the top level (`servoConfigParse_no_mapping`);
* the stream ends in a configuration block, as it does after an unclosed flow collection;
* a mapping opens at the top level before any key, as in a mapping that is a key
  (a null pointer is compared).
-/

namespace ExternalServo

open CArith

variable {D : Type} [CDouble D]

/-- `servo_config_parse` leaves its loop with a result of 0 or -1. -/
def ParseEnds (file : YamlFile) (g : Globals D) : Prop :=
  ∃ fuel rv g', servoConfigParse (some file) true g fuel = some (.ok (rv, g')) ∧
    (rv = 0 ∨ rv = -1)

variable (D) in
/-- A pair of a configuration block is not accepted; or every mapping at the top level comes after a
key, and the tokens are followed by a scan error or end at the top level, after the first mapping
and outside the configuration blocks. In each of these cases the scan loop is left; in the others it
asks for a token after the last one, and gets none for ever, or the process ends at a null pointer.
-/
def EndsAtTopLevel (file : YamlFile) : Prop :=
  match read D file.tokens with
  | .error (.rejected _) => True
  | .error .nameless => False
  | .ok r => file.scanError = true ∨ r.place = .top

instance (file : YamlFile) : Decidable (EndsAtTopLevel D file) :=
  match h : read D file.tokens with
  | .error (.rejected _) => isTrue (by simp [EndsAtTopLevel, h])
  | .error .nameless => isFalse (by simp [EndsAtTopLevel, h])
  | .ok r => decidable_of_iff (file.scanError = true ∨ r.place = .top) (by simp [EndsAtTopLevel, h])

/-- **Parsing ends exactly for these streams**: some fuel is enough for the scan loop. The reading
of the tokens is defined without the parser, and a specification of the parser connects the two. -/
theorem servoConfigParse_ends_iff (file : YamlFile) (g : Globals D) :
    ParseEnds file g ↔ EndsAtTopLevel D file := by
  have hreturns : ParseEnds file g ↔
      ∃ rv g', parseResult file g = some (.ok (rv, g')) ∧ (rv = 0 ∨ rv = -1) := by
    refine ⟨?_, ?_⟩
    · rintro ⟨fuel, rv, g', hparse, hrv⟩
      exact ⟨rv, g', (servoConfigParse_returns_iff file g _).mp ⟨fuel, hparse⟩, hrv⟩
    · rintro ⟨rv, g', hparse, hrv⟩
      obtain ⟨fuel, hfuel⟩ := (servoConfigParse_returns_iff file g _).mpr hparse
      exact ⟨fuel, rv, g', hfuel, hrv⟩
  rw [hreturns, parseResult, EndsAtTopLevel]
  cases read D file.tokens with
  | error refusal =>
    cases refusal with
    | rejected r => exact iff_of_true ⟨-1, _, rfl, .inr rfl⟩ trivial
    | nameless =>
      refine iff_of_false ?_ id
      rintro ⟨rv, g', h, -⟩
      cases h
  | ok r =>
    cases herror : file.scanError with
    | true => exact iff_of_true ⟨-1, _, rfl, .inr rfl⟩ (.inl rfl)
    | false =>
      by_cases hplace : r.place = .top
      · exact iff_of_true ⟨0, r.globals g, by simp [hplace], .inl rfl⟩ (.inr hplace)
      · refine iff_of_false ?_ (by simp [hplace])
        rintro ⟨rv, g', h, -⟩
        simp [hplace] at h

/-- The tokens of an empty file. -/
def emptyFile : YamlFile :=
  { tokens := [.streamStart], scanError := false, noEnd := by decide }

/-- An empty file has a stream start and no block. The parser is not back at the top level when the
scanner has nothing left, and asks it for tokens forever. -/
theorem servoConfigParse_emptyFile : ¬ ParseEnds emptyFile (globalsInit true : Globals XRat) := by
  have hread : read XRat emptyFile.tokens = .ok Reading.init := rfl
  rintro ⟨fuel, rv, g', hparse, -⟩
  have hresult := (servoConfigParse_returns_iff _ _ _).mp ⟨fuel, hparse⟩
  rw [parseResult, hread] at hresult
  cases hresult

/-! ## Streams without an end -/

/-- Until a mapping opens, nothing is understood. -/
theorem read_no_mapping {tokens : List YamlToken} {r : Reading} (hplace : r.place = .start)
    (hmapping : YamlToken.blockMappingStart ∉ tokens) :
    tokens.foldlM (Reading.next D) r = .ok r := by
  induction tokens with
  | nil => rfl
  | cons token tokens ih =>
    rw [List.mem_cons, not_or] at hmapping
    obtain ⟨hne, hmapping⟩ := hmapping
    have hnext : r.next D token = .ok r := by
      rw [Reading.next, hplace]
      cases token with
      | blockMappingStart => exact absurd rfl hne
      | _ => rfl
    rw [List.foldlM_cons, hnext]
    exact ih hmapping

/-- A file in which no mapping opens in block style is never left. -/
theorem servoConfigParse_no_mapping {file : YamlFile} (g : Globals D) (fuel : Nat)
    (hmapping : YamlToken.blockMappingStart ∉ file.tokens) (herror : file.scanError = false) :
    servoConfigParse (some file) true g fuel = none := by
  have hread : read D file.tokens = .ok Reading.init := read_no_mapping rfl hmapping
  have hresult : parseResult file g = none := by
    simp [parseResult, hread, herror, Reading.init]
  rw [Option.eq_none_iff_forall_ne_some]
  intro x hx
  have hreturn := (servoConfigParse_returns_iff file g x).mp ⟨fuel, hx⟩
  rw [hresult] at hreturn
  cases hreturn

/-- A file that ends in a flow collection of the device block. -/
example : ¬ EndsAtTopLevel XRat
    { tokens := [.streamStart, .blockMappingStart, .key, .scalar "device", .value,
        .blockMappingStart, .key, .scalar "poll_time", .value, .flowSequenceStart],
      scanError := false, noEnd := by decide } := by
  decide +kernel

end ExternalServo
