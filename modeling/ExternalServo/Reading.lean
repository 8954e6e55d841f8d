import ExternalServo.ConfigParser
import Mathlib.Logic.Function.Basic

/-!
# What a token stream says

The purpose of the parser, without its data structures: a document is a sequence of
blocks, a block is a list of pairs, and the last block of a kind counts. A `Reading` is
what was understood of a stream so far; it is refused at a pair whose setting or value is
not accepted, and at a mapping that opens before there is a key to name it.

* `Reading.parser` — the parser's data that represents a reading;
* `servoConfigParser_spec` — one token: the state machine does what the reading does;
* `servoConfigParse_eq` — a file: the result of `servo_config_parse`, from the reading of
  the file's tokens. The loop is left unless the tokens end outside the top level.
-/

namespace ExternalServo

open CArith

/-- The blocks of a configuration. -/
inductive Block : Type where
  | logging : Block
  | servo : Block
  | device : Block
  deriving DecidableEq

/-- The block with a given name. -/
def Block.ofName (name : String) : Option Block :=
  if name = "logging" then some .logging else if name = "servo" then some .servo
  else if name = "device" then some .device else none

/-- The name of a block. -/
def Block.name : Block → String
  | .logging => "logging"
  | .servo => "servo"
  | .device => "device"

/-- Where in the document a reader stands. The document has two levels, the top level and the
blocks; a mapping inside a block is read as part of the block, and its end is taken for that of the
block. -/
inductive Place : Type where
  /-- before the first mapping -/
  | start : Place
  /-- at the top level, outside the blocks -/
  | top : Place
  /-- in a block -/
  | inside (b : Block) : Place
  deriving DecidableEq

/-- What was understood of a token stream. The three flags and the name are the memory between
tokens that the parser keeps in static variables and in its data; the pairs are what it makes of a
block, before they are applied to a configuration. -/
structure Reading where
  place : Place
  /-- the next scalar at the top level is a key -/
  topKey : Bool
  /-- scalars of a block are keys -/
  key : Bool
  /-- scalars of a block that are not keys are values -/
  value : Bool
  /-- the last key -/
  name : Option String
  /-- the pairs of the block that is being read -/
  pairs : List (String × String)
  /-- the pairs of the last complete block of each kind -/
  committed : Block → Option (List (String × String))

/-- Why a stream is refused. The parser returns -1 in the first case and dereferences a null pointer
in the second one, which no return value shows. -/
inductive Refusal : Type where
  /-- a setting or its value is not accepted, after this reading -/
  | rejected (r : Reading) : Refusal
  /-- a mapping or a value comes before any key -/
  | nameless : Refusal

/-- Nothing was read yet. -/
def Reading.init : Reading :=
  { place := .start, topKey := false, key := false, value := false, name := none, pairs := [],
    committed := fun _ => none }

variable (D : Type) [CDouble D]

/-- The configuration a block fills. -/
def Block.Config : Block → Type
  | .logging => LoggerConfig
  | .servo => ServoConfig D
  | .device => DeviceConfig

/-- The zeroed configuration of a block. -/
def Block.zero : (b : Block) → b.Config D
  | .logging => LoggerConfig.zero
  | .servo => (ServoConfig.zero : ServoConfig D)
  | .device => DeviceConfig.zero

/-- The update function of a block. -/
def Block.update : (b : Block) → b.Config D → String → String → Int × b.Config D
  | .logging => updateLoggerConfig D
  | .servo => updateServoConfig (D := D)
  | .device => updateDeviceConfig D

/-- The update of a block accepts the pair. -/
def accepts (b : Block) (key val : String) : Bool :=
  (b.update D (b.zero D) key val).1 ≠ -1

/-- Pairs applied to a zeroed configuration, in their order. -/
def Block.ofPairs (b : Block) (pairs : List (String × String)) : b.Config D :=
  pairs.foldl (fun config kv => (b.update D config kv.1 kv.2).2) (b.zero D)

/-- One token before the first mapping. -/
def Reading.atStart (r : Reading) (token : YamlToken) : Reading :=
  match token with
  | .blockMappingStart => { r with place := .top }
  | _ => r

/-- One token at the top level. -/
def Reading.atTop (r : Reading) (token : YamlToken) : Except Refusal Reading :=
  match token with
  | .key => .ok { r with topKey := true }
  | .scalar text =>
    if r.topKey then .ok { r with name := some (strdup text), topKey := false } else .ok r
  | .blockMappingStart =>
    match r.name with
    | none => .error .nameless
    | some name =>
      match Block.ofName name with
      | none => .ok r
      | some b => .ok { r with place := .inside b, pairs := [] }
  | _ => .ok r

/-- One token in a block. -/
def Reading.inBlock (r : Reading) (b : Block) (token : YamlToken) : Except Refusal Reading :=
  match token with
  | .key => .ok { r with key := true }
  | .value => if r.key then .ok { r with key := false, value := true } else .ok r
  | .blockMappingStart => .ok { r with key := false, value := false }
  | .scalar text =>
    if r.key then .ok { r with name := some (strdup text) }
    else if r.value then
      match r.name with
      | none => .error .nameless
      | some name =>
        if accepts D b name (strdup text) then
          .ok { r with pairs := r.pairs ++ [(name, strdup text)] }
        else .error (.rejected r)
    else .ok r
  | .blockEnd =>
    .ok { r with place := .top, committed := Function.update r.committed b (some r.pairs) }
  | _ => .ok r

/-- One token. -/
def Reading.next (r : Reading) (token : YamlToken) : Except Refusal Reading :=
  match r.place with
  | .start => .ok (r.atStart token)
  | .top => r.atTop token
  | .inside b => r.inBlock D b token

/-- The reading of a token stream. -/
def read (tokens : List YamlToken) : Except Refusal Reading :=
  tokens.foldlM (Reading.next D) Reading.init

variable {D}

/-- The global variables after the complete blocks of a reading, from those before it. A block takes
effect when it ends, and the last one of a kind replaces what the ones before it did; a block that
is not complete has no effect. -/
def Reading.globals (r : Reading) (g : Globals D) : Globals D :=
  { loggerConfig :=
      match r.committed .logging with
      | none => g.loggerConfig
      | some pairs =>
        let config : LoggerConfig := Block.logging.ofPairs D pairs
        if g.logFp then config else { config with useSyslog := 0 }
    servoConfig :=
      match r.committed .servo with
      | none => g.servoConfig
      | some pairs => Block.servo.ofPairs D pairs
    deviceConfig :=
      match r.committed .device with
      | none => g.deviceConfig
      | some pairs => Block.device.ofPairs D pairs
    logFp := g.logFp }

/-! ## The parser represents a reading -/

/-- The state of the parser in a block, with the configuration so far. -/
def Block.state : (b : Block) → b.Config D → ServoParserState D
  | .logging => .startLoggerBlock
  | .servo => .startServoBlock
  | .device => .startDeviceBlock

/-- The state of the parser at a place. -/
def Place.state (place : Place) (pairs : List (String × String)) : ServoParserState D :=
  match place with
  | .start => .startParse
  | .top => .startBlock
  | .inside b => b.state (b.ofPairs D pairs)

/-- The number of open blocks at a place. -/
def Place.blockId : Place → Nat
  | .start | .top => 0
  | .inside _ => 1

/-- The names of the open blocks at a place. -/
def Place.blockName : Place → List (Option String)
  | .start | .top => [none, none]
  | .inside b => [some b.name, none]

/-- The parser's data that represents a reading: the state with the configuration that the pairs so
far make, the stack of open blocks, the static flags and the globals. The value of the last pair is
left over in it, and nothing reads it again. -/
def Reading.parser (r : Reading) (g : Globals D) (val : Option String) : Parser D :=
  { data :=
      { state := r.place.state r.pairs, blockId := r.place.blockId,
        blockName := r.place.blockName, key := r.name, val }
    statics := { topKey := r.topKey, key := r.key, value := r.value }
    globals := r.globals g }

theorem parserInit_eq (g : Globals D) : parserInit g = Reading.init.parser g none := rfl

/-- What the state machine does, from what the reading does: go on with data that represent the new
reading, return -1, or apply `strcmp` to a null pointer. The globals are those of the complete
blocks in every case, also when it returns -1. -/
def Represents (g : Globals D) (result : Except Fault (Int × Parser D)) :
    Except Refusal Reading → Prop
  | .ok r => ∃ val, result = .ok (0, r.parser g val)
  | .error (.rejected r) => ∃ p, result = .ok (-1, p) ∧ p.globals = r.globals g
  | .error .nameless => result = .error .nullPointer

theorem Block.ofPairs_append (b : Block) (pairs : List (String × String)) (key val : String) :
    b.ofPairs D (pairs ++ [(key, val)]) = (b.update D (b.ofPairs D pairs) key val).2 := by
  rw [Block.ofPairs, List.foldl_append]
  rfl

/-- The result of an update says whether the pair is accepted. -/
theorem Block.update_fst (b : Block) (config : b.Config D) (key val : String) :
    (b.update D config key val).1 = if accepts D b key val then 0 else -1 := by
  simp only [accepts, decide_eq_true_eq]
  cases b <;> exact updateConfig_fst config _ key val

/-- Reading a pair updates the block's configuration. -/
theorem servoPrepareConfig_spec (b : Block) (config : b.Config D) (blockId : Nat)
    (blockName : List (Option String)) (key val : String) :
    servoPrepareConfig
        { state := b.state config, blockId, blockName, key := some key, val := some val } =
      .ok (if accepts D b key val then 0 else -1,
        { state := b.state (b.update D config key val).2, blockId, blockName, key := some key,
          val := some val }) := by
  rw [← b.update_fst config]
  cases b <;> rfl

/-- A null key faults in every block. -/
theorem servoPrepareConfig_null (b : Block) (config : b.Config D) (blockId : Nat)
    (blockName : List (Option String)) (val : Option String) :
    servoPrepareConfig { state := b.state config, blockId, blockName, key := none, val } =
      .error .nullPointer := by
  cases b <;> rfl

/-- Entering a block. -/
theorem openBlock_eq (name : String) :
    openBlock (D := D) name = (Block.ofName name).map fun b => b.state (b.zero D) := by
  rw [openBlock, Block.ofName]
  split_ifs with hlogging hservo hdevice <;> rfl

/-- Leaving a block commits its configuration. -/
theorem servoUpdateConfig_spec (r : Reading) (b : Block) (g : Globals D) :
    servoUpdateConfig (b.state (b.ofPairs D r.pairs)) (r.globals g) =
      Reading.globals { r with
        place := .top, committed := Function.update r.committed b (some r.pairs) } g := by
  cases b with
  | logging =>
    cases hfp : g.logFp <;>
      simp [Reading.globals, Block.state, servoUpdateConfig, loggerConfigure, hfp]
  | servo => simp [Reading.globals, Block.state, servoUpdateConfig, servoConfigure]
  | device => simp [Reading.globals, Block.state, servoUpdateConfig, deviceConfigure]

/-! ## One token -/

theorem startParse_spec (r : Reading) (g : Globals D) (val : Option String) (token : YamlToken)
    (hplace : r.place = .start) :
    Represents g (servoConfigParser (r.parser g val) token) (r.next D token) := by
  obtain ⟨place, topKey, key, value, name, pairs, committed⟩ := r
  obtain rfl := hplace
  cases token with
  | blockMappingStart => exact ⟨val, rfl⟩
  | _ => exact ⟨val, rfl⟩

theorem Block.name_of_ofName {name : String} {b : Block} (h : Block.ofName name = some b) :
    strdup name = b.name := by
  unfold Block.ofName at h
  split_ifs at h with hlogging hservo hdevice
  all_goals
    obtain rfl := Option.some.inj h
    subst name
    decide +kernel

/-- The outermost level of the parser does what the reading says. The one case with more to it is a
mapping: without a name it is a fault, and with the name of a block it opens the block. -/
theorem parserBlockManagement_spec (r : Reading) (g : Globals D) (val : Option String)
    (token : YamlToken) (hplace : r.place = .top) (hend : token ≠ .streamEnd) :
    Represents g (servoConfigParser (r.parser g val) token) (r.next D token) := by
  obtain ⟨place, topKey, key, value, name, pairs, committed⟩ := r
  obtain rfl := hplace
  cases token with
  | key => exact ⟨val, rfl⟩
  | streamEnd => exact absurd rfl hend
  | scalar text => cases topKey <;> exact ⟨val, rfl⟩
  | blockMappingStart =>
    cases name with
    | none => exact rfl
    | some name =>
      simp only [servoConfigParser, parserBlockManagement, Reading.parser, Reading.next,
        Reading.atTop, Place.state, nonNull, openBlock_eq, bind, Except.bind]
      cases hname : Block.ofName name with
      | none => exact ⟨val, rfl⟩
      | some b =>
        -- the slot of the outermost block is free
        refine ⟨val, ?_⟩
        simp only [Option.map_some, Place.blockName, Place.blockId, Block.name_of_ofName hname]
        rfl
  | _ => exact ⟨val, rfl⟩

/-- In a block the tokens go to `update_block_config`. -/
theorem servoConfigParser_inside (b : Block) (config : b.Config D) {p : Parser D}
    (hstate : p.data.state = b.state config) (token : YamlToken) :
    servoConfigParser p token = updateBlockConfig p token := by
  cases b <;> simp [servoConfigParser, hstate, Block.state]

/-- Inside a block the parser does what the reading says: keys and values are told apart by the two
marks, a pair is handed to the update of the block, and the end of the mapping commits the block. -/
theorem updateBlockConfig_spec (r : Reading) (g : Globals D) (val : Option String) (b : Block)
    (token : YamlToken) (hplace : r.place = .inside b) :
    Represents g (servoConfigParser (r.parser g val) token) (r.next D token) := by
  obtain ⟨place, topKey, key, value, name, pairs, committed⟩ := r
  obtain rfl := hplace
  rw [servoConfigParser_inside b (b.ofPairs D pairs) rfl]
  cases token with
  | key => exact ⟨val, rfl⟩
  | value => cases key <;> exact ⟨val, rfl⟩
  | scalar text =>
    cases key with
    | true => exact ⟨val, rfl⟩
    | false =>
      cases value with
      | false => exact ⟨val, rfl⟩
      | true =>
        cases name with
        | none =>
          simp only [updateBlockConfig, Reading.parser, Place.state, servoPrepareConfig_null,
            bind, Except.bind, Bool.false_eq_true, if_false, if_true]
          exact rfl
        | some name =>
          -- a value: the pair goes to the block's update
          simp only [updateBlockConfig, Reading.parser, Reading.next, Reading.inBlock, Place.state,
            servoPrepareConfig_spec, ← Block.ofPairs_append, bind, Except.bind,
            Bool.false_eq_true, if_false, if_true]
          by_cases haccepts : accepts D b name (strdup text) = true
          · rw [if_pos haccepts, if_pos haccepts]
            exact ⟨some (strdup text), rfl⟩
          · rw [if_neg haccepts, if_neg haccepts]
            exact ⟨_, rfl, rfl⟩
  | blockEnd =>
    have hcommit := servoUpdateConfig_spec
      ⟨.inside b, topKey, key, value, name, pairs, committed⟩ b g
    refine ⟨val, ?_⟩
    simp only [updateBlockConfig, Reading.parser, Place.state, Place.blockId, hcommit]
    rfl
  | _ => exact ⟨val, rfl⟩

/-- **One token.** From data that represent a reading, the state machine does what the reading does;
the end of the stream apart, which stops the machine at the top level and is ignored elsewhere. -/
theorem servoConfigParser_spec (r : Reading) (g : Globals D) (val : Option String)
    {token : YamlToken} (hend : token ≠ .streamEnd) :
    Represents g (servoConfigParser (r.parser g val) token) (r.next D token) := by
  cases hplace : r.place with
  | start => exact startParse_spec r g val token hplace
  | top => exact parserBlockManagement_spec r g val token hplace hend
  | inside b => exact updateBlockConfig_spec r g val b token hplace

/-! ## A file -/

variable (file : YamlFile) (g : Globals D)

theorem stopped_reading (r : Reading) (val : Option String) :
    stopped (r.parser g val) = false := by
  obtain ⟨place, topKey, key, value, name, pairs, committed⟩ := r
  cases place with
  | start => rfl
  | top => rfl
  | inside b => cases b <;> rfl

/-- The loop over the tokens of the file does what their reading does, in as many iterations. -/
theorem scanLoop_tokens (rest : List YamlToken) (n k : Nat) (r : Reading) (val : Option String)
    (hrest : file.tokens.drop n = rest) :
    match rest.foldlM (Reading.next D) r with
    | .ok r' => ∃ val', scanLoop file (rest.length + k) n (r.parser g val) =
        scanLoop file k (n + rest.length) (r'.parser g val')
    | .error (.rejected r') =>
      scanLoop file (rest.length + k) n (r.parser g val) = some (.ok (-1, r'.globals g))
    | .error .nameless =>
      scanLoop file (rest.length + k) n (r.parser g val) = some (.error .nullPointer) := by
  induction rest generalizing n r val with
  | nil => exact ⟨val, by simp⟩
  | cons token rest ih =>
    have hget : file.tokens[n]? = some token := by
      rw [← List.head?_drop, hrest, List.head?_cons]
    have hdrop : file.tokens.drop (n + 1) = rest := by
      rw [← List.tail_drop, hrest, List.tail_cons]
    have hend : token ≠ .streamEnd := by
      rintro rfl
      exact file.noEnd (List.mem_of_getElem? hget)
    have hscan : yamlParserScan file n = some token := by
      simp [yamlParserScan, hget]
    have hfuel : (token :: rest).length + k = rest.length + k + 1 := by
      simp only [List.length_cons]
      omega
    have hstep := servoConfigParser_spec r g val hend
    rw [List.foldlM_cons, hfuel]
    simp only [scanLoop, hscan]
    cases hnext : r.next D token with
    | ok r₁ =>
      rw [hnext] at hstep
      obtain ⟨val₁, hstep⟩ := hstep
      have hrun := ih (n + 1) r₁ val₁ hdrop
      simp only [hstep, stopped_reading]
      rw [List.length_cons, show n + (rest.length + 1) = n + 1 + rest.length by omega]
      exact hrun
    | error refusal =>
      rw [hnext] at hstep
      cases refusal with
      | rejected r₁ =>
        obtain ⟨p, hp, hglobals⟩ := hstep
        simp [hp, ← hglobals, bind, Except.bind]
      | nameless =>
        have hp : servoConfigParser (r.parser g val) token = .error .nullPointer := hstep
        simp [hp, bind, Except.bind]

/-- Before the first mapping and in a block, the end of the stream and what comes after it change
nothing. -/
theorem servoConfigParser_idle (r : Reading) (val : Option String) {token : YamlToken}
    (hplace : r.place ≠ .top) (htoken : token = .streamEnd ∨ token = .noToken) :
    servoConfigParser (r.parser g val) token = .ok (0, r.parser g val) := by
  obtain ⟨place, topKey, key, value, name, pairs, committed⟩ := r
  cases place with
  | top => exact absurd rfl hplace
  | start => rcases htoken with rfl | rfl <;> rfl
  | inside b =>
    rw [servoConfigParser_inside b (b.ofPairs D pairs) rfl]
    rcases htoken with rfl | rfl <;> rfl

/-- Past the tokens, outside the top level, the loop is never left. -/
theorem scanLoop_idle (fuel n : Nat) (r : Reading) (val : Option String)
    (hplace : r.place ≠ .top) (herror : file.scanError = false)
    (hn : file.tokens.length ≤ n) :
    scanLoop file fuel n (r.parser g val) = none := by
  induction fuel generalizing n with
  | zero => rfl
  | succ fuel ih =>
    have hget : file.tokens[n]? = none := List.getElem?_eq_none hn
    obtain ⟨token, htoken, hscan⟩ : ∃ token, (token = .streamEnd ∨ token = .noToken) ∧
        yamlParserScan file n = some token := by
      by_cases hlast : n = file.tokens.length
      · exact ⟨.streamEnd, .inl rfl, by simp [yamlParserScan, herror, hlast]⟩
      · exact ⟨.noToken, .inr rfl, by simp [yamlParserScan, hget, herror, hlast]⟩
    simp only [scanLoop, hscan, servoConfigParser_idle g r val hplace htoken, stopped_reading]
    exact ih (n + 1) (by omega)

/-- What `servo_config_parse` makes of a file that it can open, from the reading of the file's
tokens; `none` if it does not return. That is so when the tokens end inside a block or before the
first mapping and the scanner reports no error: only at the top level does the end of the stream
stop the machine, and the scanner delivers it once. -/
def parseResult : Option (Except Fault (Int × Globals D)) :=
  match read D file.tokens with
  | .error .nameless => some (.error .nullPointer)
  | .error (.rejected r) => some (.ok (-1, r.globals g))
  | .ok r =>
    if file.scanError then some (.ok (-1, r.globals g))
    else if r.place = .top then some (.ok (0, r.globals g))
    else none

/-- The files that are accepted, and what they leave in the global variables. -/
theorem parseResult_accepted {g' : Globals D} :
    parseResult file g = some (.ok (0, g')) ↔
      ∃ r, read D file.tokens = .ok r ∧ file.scanError = false ∧ r.place = .top ∧
        g' = r.globals g := by
  rw [parseResult]
  cases hread : read D file.tokens with
  | error refusal => cases refusal <;> simp
  | ok r =>
    cases file.scanError with
    | true => simp
    | false =>
      by_cases hplace : r.place = .top
      · simp [hplace, eq_comm]
      · simp [hplace]

/-- The loop past the tokens: a scan error is refused, at the outermost level the end of the stream
stops the parser, and anywhere else the scanner is asked again and again, so that no fuel is enough.
-/
theorem scanLoop_end (k : Nat) (r : Reading) (val : Option String) :
    scanLoop file (k + 1) file.tokens.length (r.parser g val) =
      if file.scanError then some (.ok (-1, r.globals g))
      else if r.place = .top then some (.ok (0, r.globals g))
      else none := by
  cases herror : file.scanError with
  | true =>
    have hscan : yamlParserScan file file.tokens.length = none := by
      simp [yamlParserScan, herror]
    simp only [scanLoop, hscan]
    rfl
  | false =>
    by_cases hplace : r.place = .top
    · have hscan : yamlParserScan file file.tokens.length = some .streamEnd := by
        simp [yamlParserScan, herror]
      have hstop : servoConfigParser (r.parser g val) .streamEnd =
          .ok (0, { r.parser g val with data.state := .stopParse }) := by
        simp [servoConfigParser, parserBlockManagement, Reading.parser, hplace, Place.state]
      simp only [scanLoop, hscan, hstop, hplace]
      rfl
    · rw [scanLoop_idle file g (k + 1) _ r val hplace herror le_rfl]
      simp [hplace]

/-- **A file.** With enough iterations the parser's result is the one its reading gives. One
iteration more than there are tokens is enough, as the end of the stream is delivered in it: after
that, nothing leaves the loop any more. -/
theorem servoConfigParse_eq {fuel : Nat} (hfuel : file.tokens.length < fuel) :
    servoConfigParse (some file) true g fuel = parseResult file g := by
  obtain ⟨k, rfl⟩ : ∃ k, fuel = file.tokens.length + (k + 1) :=
    ⟨fuel - file.tokens.length - 1, by omega⟩
  have htokens := scanLoop_tokens file g file.tokens 0 (k + 1) Reading.init none rfl
  rw [← parserInit_eq] at htokens
  simp only [servoConfigParse, parseResult, read, Bool.not_true, Bool.false_eq_true, if_false]
  cases hread : file.tokens.foldlM (Reading.next D) Reading.init with
  | ok r =>
    rw [hread] at htokens
    obtain ⟨val, hval⟩ := htokens
    rw [hval, Nat.zero_add, scanLoop_end]
  | error refusal =>
    rw [hread] at htokens
    cases refusal <;> exact htokens

/-- A result does not depend on the iterations left. -/
theorem scanLoop_mono {fuel n : Nat} {p : Parser D} {x : Except Fault (Int × Globals D)}
    (h : scanLoop file fuel n p = some x) (k : Nat) : scanLoop file (fuel + k) n p = some x := by
  induction fuel generalizing n p with
  | zero => cases h
  | succ fuel ih =>
    rw [show fuel + 1 + k = fuel + k + 1 by omega]
    simp only [scanLoop] at h ⊢
    cases hscan : yamlParserScan file n with
    | none => simpa [hscan] using h
    | some token =>
      simp only [hscan] at h ⊢
      cases hstep : servoConfigParser p token with
      | error e => simpa [hstep] using h
      | ok result =>
        obtain ⟨rv, p'⟩ := result
        simp only [hstep] at h ⊢
        split_ifs at h ⊢
        · exact h
        · exact h
        · exact ih h

/-- **The parser returns what the reading gives, or does not return.** No amount of iterations gives
another result, and if the reading gives none, no amount is enough. -/
theorem servoConfigParse_returns_iff (x : Except Fault (Int × Globals D)) :
    (∃ fuel, servoConfigParse (some file) true g fuel = some x) ↔ parseResult file g = some x := by
  refine ⟨?_, ?_⟩
  · rintro ⟨fuel, hfuel⟩
    have hlarge : file.tokens.length < fuel + (file.tokens.length + 1) := by omega
    rw [← servoConfigParse_eq file g hlarge]
    exact scanLoop_mono file hfuel _
  · intro h
    exact ⟨file.tokens.length + 1, (servoConfigParse_eq file g (by omega)).trans h⟩

end ExternalServo
