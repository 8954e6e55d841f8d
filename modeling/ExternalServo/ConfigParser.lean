import ExternalServo.Config

/-!
# The configuration parser (`config.c`)

`servo_config_parse` reads tokens from libyaml's scanner and hands each to a state
machine, until the machine reaches `STOP_PARSE`:

* at the top level (`parserBlockManagement`) a scalar after a key token is the current
  key, and a mapping that starts opens the block the key names;
* in a block (`updateBlockConfig`) scalars are keys and values of settings, and the end
  of a mapping or sequence commits the block to its global configuration.

The union `config` of the parser's data belongs to the state of the block that fills it:
entering a block zeroes the member, and no other state reads it. The static flags of the
two functions are zero when the process starts. The current key is a null pointer until
the first one was read (`Fault.nullPointer` where a string function is applied to it).
-/

namespace ExternalServo

open CArith

/-! ## The scanner -/

/-- `yaml_token_t`, with the value of a scalar. -/
inductive YamlToken : Type where
  | noToken | streamStart | streamEnd | versionDirective | tagDirective | documentStart
  | documentEnd | blockSequenceStart | blockMappingStart | blockEnd | flowSequenceStart
  | flowSequenceEnd | flowMappingStart | flowMappingEnd | blockEntry | flowEntry | key | value
  | alias | anchor | tag
  | scalar (value : String)
  deriving DecidableEq

/-- What the scanner makes of a file: the tokens it delivers, and whether they are followed by a
scan error or by the end of the stream. The scanner is not modelled, and any list of tokens is
allowed, also one that no file would be scanned to. -/
structure YamlFile where
  /-- the tokens before the end -/
  tokens : List YamlToken
  /-- the scanner fails after the tokens -/
  scanError : Bool
  /-- the end of the stream is delivered once -/
  noEnd : YamlToken.streamEnd ∉ tokens

/-- `yaml_parser_scan` for the `n`-th time; `none` for an error. After the end of the stream the
scanner goes on succeeding, without a token. -/
def yamlParserScan (file : YamlFile) (n : Nat) : Option YamlToken :=
  match file.tokens[n]? with
  | some token => some token
  | none =>
    if file.scanError then none
    else if n = file.tokens.length then some .streamEnd
    else some .noToken

/-! ## Data -/

/-- `MAX_BLOCK_LEVEL` -/
def MAX_BLOCK_LEVEL : Nat := 2

/-- `enum servo_parser_state`, each block's state with the block's configuration so far. In the
source the configuration is in a union next to the state, so that there is only ever that of the
block that is open. -/
inductive ServoParserState (D : Type) : Type where
  /-- `START_PARSE` -/
  | startParse : ServoParserState D
  /-- `START_BLOCK` -/
  | startBlock : ServoParserState D
  /-- `STOP_PARSE` -/
  | stopParse : ServoParserState D
  /-- `START_SERVO_BLOCK` -/
  | startServoBlock (servoConfig : ServoConfig D) : ServoParserState D
  /-- `START_DEVICE_BLOCK` -/
  | startDeviceBlock (deviceConfig : DeviceConfig) : ServoParserState D
  /-- `START_LOGGER_BLOCK` -/
  | startLoggerBlock (loggerConfig : LoggerConfig) : ServoParserState D

/-- `struct servo_parser_data`. The names of the open blocks are an array of two entries, in which
the number of open blocks is the index; a third block would be written beyond its end. -/
structure ServoParserData (D : Type) where
  /-- state of the parser, with the union -/
  state : ServoParserState D
  /-- number of open blocks -/
  blockId : Nat
  /-- names of the open blocks -/
  blockName : List (Option String)
  /-- current key -/
  key : Option String
  /-- current value -/
  val : Option String

/-- The static variables of the parser's functions. They are the memory from one token to the next,
and as they are never reset, also from one block to the next. -/
structure ParserStatics where
  /-- `key` of `parser_block_management` -/
  topKey : Bool
  /-- `key` of `update_block_config` -/
  key : Bool
  /-- `value` of `update_block_config` -/
  value : Bool
  deriving DecidableEq

/-- The global variables that the parser writes, and `log_fp` of the logger, on which it depends
whether a configured logger can use the log file. -/
structure Globals (D : Type) where
  /-- `logger_config` -/
  loggerConfig : LoggerConfig
  /-- `servo_config` -/
  servoConfig : ServoConfig D
  /-- `device_config` -/
  deviceConfig : DeviceConfig
  /-- the log file could be opened -/
  logFp : Bool

/-- The global variables when the process starts. Without a log file, `sys_log_init` has switched
syslog off. -/
def globalsInit {D : Type} [CDouble D] (logFp : Bool) : Globals D :=
  { loggerConfig :=
      { logLevel := 7, useSyslog := if logFp then 1 else 0,
        msgTag := strncpy (List.replicate MAX_MSG_TAG_LEN 0) "servo" (MAX_MSG_TAG_LEN - 1),
        useStdout := 1 }
    servoConfig := ServoConfig.zero
    deviceConfig := DeviceConfig.zero
    logFp }

/-- Everything the parser's functions read and write. -/
structure Parser (D : Type) where
  data : ServoParserData D
  statics : ParserStatics
  globals : Globals D

variable {D : Type} [CDouble D]

/-! ## Committing a block -/

/-- `logger_configure`; without a log file there is no syslog. -/
def loggerConfigure (globals : Globals D) (config : LoggerConfig) : Globals D :=
  let globals := { globals with loggerConfig := config }
  if !globals.logFp then
    { globals with loggerConfig := { globals.loggerConfig with useSyslog := 0 } }
  else globals

/-- `servo_configure` -/
def servoConfigure (globals : Globals D) (config : ServoConfig D) : Globals D :=
  { globals with servoConfig := config }

/-- `device_configure` -/
def deviceConfigure (globals : Globals D) (config : DeviceConfig) : Globals D :=
  { globals with deviceConfig := config }

/-- `servo_update_config` -/
def servoUpdateConfig (state : ServoParserState D) (globals : Globals D) : Globals D :=
  match state with
  | .startLoggerBlock config => loggerConfigure globals config
  | .startServoBlock config => servoConfigure globals config
  | .startDeviceBlock config => deviceConfigure globals config
  | .startParse | .startBlock | .stopParse => globals

/-! ## The state machine -/

/-- A string function's argument, which must not be null. -/
def nonNull (s : Option String) : Except Fault String :=
  match s with
  | some s => .ok s
  | none => .error .nullPointer

/-- `servo_prepare_config` -/
def servoPrepareConfig (data : ServoParserData D) : Except Fault (Int × ServoParserData D) :=
  match data.state with
  | .startLoggerBlock config => do
    let (rv, config) := updateLoggerConfig D config (← nonNull data.key) (← nonNull data.val)
    return (rv, { data with state := .startLoggerBlock config })
  | .startDeviceBlock config => do
    let (rv, config) := updateDeviceConfig D config (← nonNull data.key) (← nonNull data.val)
    return (rv, { data with state := .startDeviceBlock config })
  | .startServoBlock config => do
    let (rv, config) := updateServoConfig config (← nonNull data.key) (← nonNull data.val)
    return (rv, { data with state := .startServoBlock config })
  | .startParse | .startBlock | .stopParse => return (0, data)

/-- `update_block_config` -/
def updateBlockConfig (p : Parser D) (token : YamlToken) : Except Fault (Int × Parser D) :=
  match token with
  | .key => .ok (0, { p with statics.key := true })
  | .value =>
    if p.statics.key then
      .ok (0, { p with statics.key := false, statics.value := true })
    else .ok (0, p)
  | .blockMappingStart => .ok (0, { p with statics.key := false, statics.value := false })
  | .scalar tValue =>
    if p.statics.key then
      .ok (0, { p with data.key := some (strdup tValue) })
    else if p.statics.value then do
      let data := { p.data with val := some (strdup tValue) }
      let (rv, data) ← servoPrepareConfig data
      return (rv, { p with data })
    else .ok (0, p)
  | .blockEnd => do
    let p ←
      if p.data.blockId ≠ 0 then do
        let globals := servoUpdateConfig p.data.state p.globals
        let blockId := p.data.blockId - 1
        let blockName ← writeAt p.data.blockName blockId none
        pure { p with data.blockId := blockId, data.blockName := blockName, globals := globals }
      else pure p
    if p.data.blockId = 0 then return (0, { p with data.state := .startBlock })
    else return (0, p)
  | _ => .ok (0, p)

/-- The block a top-level key opens: its state with a zeroed configuration. -/
def openBlock (name : String) : Option (ServoParserState D) :=
  if name = "logging" then some (.startLoggerBlock LoggerConfig.zero)
  else if name = "servo" then some (.startServoBlock ServoConfig.zero)
  else if name = "device" then some (.startDeviceBlock DeviceConfig.zero)
  else none

/-- `parser_block_management` -/
def parserBlockManagement (p : Parser D) (token : YamlToken) : Except Fault (Int × Parser D) :=
  match token with
  | .key => .ok (0, { p with statics.topKey := true })
  | .blockMappingStart => do
    let value ← nonNull p.data.key
    match openBlock value with
    | none => return (0, p)
    | some state =>
      let blockName ← writeAt p.data.blockName p.data.blockId (some (strdup value))
      return (0, { p with
        data.state := state, data.blockName := blockName, data.blockId := p.data.blockId + 1 })
  | .scalar value =>
    if p.statics.topKey then
      .ok (0, { p with data.key := some (strdup value), statics.topKey := false })
    else .ok (0, p)
  | .streamEnd => .ok (0, { p with data.state := .stopParse })
  | _ => .ok (0, p)

/-- `servo_config_parser` -/
def servoConfigParser (p : Parser D) (token : YamlToken) : Except Fault (Int × Parser D) :=
  match p.data.state with
  | .startParse =>
    match token with
    | .blockMappingStart => .ok (0, { p with data.state := .startBlock })
    | _ => .ok (0, p)
  | .startBlock => parserBlockManagement p token
  | .startDeviceBlock _ | .startServoBlock _ | .startLoggerBlock _ => updateBlockConfig p token
  | .stopParse => .ok (0, p)

/-! ## Parsing a file -/

/-- The parser before the first token: zeroed data. -/
def parserInit (globals : Globals D) : Parser D :=
  { data :=
      { state := .startParse, blockId := 0, blockName := List.replicate MAX_BLOCK_LEVEL none,
        key := none, val := none }
    statics := { topKey := false, key := false, value := false }
    globals }

/-- The parser has stopped. -/
def stopped (p : Parser D) : Bool :=
  match p.data.state with
  | .stopParse => true
  | _ => false

/-- The scan loop of `servo_config_parse` from the `n`-th token on; `none` if `fuel` iterations do
not leave it. The source has no bound: a result for some amount of fuel is one that the loop
returns, and `none` for every amount says that it does not. -/
def scanLoop (file : YamlFile) : Nat → Nat → Parser D → Option (Except Fault (Int × Globals D))
  | 0, _, _ => none
  | fuel + 1, n, p =>
    match yamlParserScan file n with
    | none => some (.ok (-1, p.globals))
    | some token =>
      match servoConfigParser p token with
      | .error e => some (.error e)
      | .ok (rv, p) =>
        if rv = -1 then some (.ok (rv, p.globals))
        else if stopped p then some (.ok (rv, p.globals))
        else scanLoop file fuel (n + 1) p

/-- `servo_config_parse`: the result and the global variables. `file` is `none` if it cannot be
opened, and `initialized` says whether `yaml_parser_initialize` succeeded. -/
def servoConfigParse (file : Option YamlFile) (initialized : Bool) (globals : Globals D)
    (fuel : Nat) : Option (Except Fault (Int × Globals D)) :=
  match file with
  | none => some (.ok (-1, globals))
  | some file =>
    if !initialized then some (.ok (-1, globals))
    else scanLoop file fuel 0 (parserInit globals)

end ExternalServo
