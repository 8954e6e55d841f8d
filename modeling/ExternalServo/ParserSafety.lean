import ExternalServo.Reading
import ExternalServo.Runs

/-!
# Safety of the configuration parser

The state machine over any list of tokens, whatever a scanner can make of a file. Three of the
four safety properties hold for all of them: `block_name` is indexed within its bounds,
`block_id` counts the one block of a block state, and a configuration is committed in a block
state only. The fourth, that no string function gets a null pointer, is missed by a mapping that
opens at the top level before the first key was read there, as in a mapping that is a key:
`opensNameless` decides that on the tokens, and `parser_safe_iff` is the exact condition.
-/

namespace ExternalServo

open CArith Runs

variable {D : Type} [CDouble D]

/-! ## What is safe -/

/-- The parser is in the state of a block. -/
def inBlockState : ServoParserState D → Bool
  | .startLoggerBlock _ | .startServoBlock _ | .startDeviceBlock _ => true
  | .startParse | .startBlock | .stopParse => false

/-- The state in which `servo_update_config` is called for a token, if it is. -/
def updateConfigState (p : Parser D) (token : YamlToken) : Option (ServoParserState D) :=
  match p.data.state with
  | .startDeviceBlock _ | .startServoBlock _ | .startLoggerBlock _ =>
    if token = .blockEnd ∧ p.data.blockId ≠ 0 then some p.data.state else none
  | .startParse | .startBlock | .stopParse => none

/-- A token is handled safely. The first two fields speak of the faults of C, which would go
unnoticed or end the process; the last two of the bookkeeping that the parser relies on. -/
structure SafeToken (p : Parser D) (token : YamlToken) : Prop where
  /-- no string function is applied to a null pointer -/
  nonNull : servoConfigParser p token ≠ .error .nullPointer
  /-- `block_name`, which has `MAX_BLOCK_LEVEL` elements, is indexed within its bounds -/
  inBounds : p.data.blockName.length = MAX_BLOCK_LEVEL ∧
    servoConfigParser p token ≠ .error .outOfBounds
  /-- `block_id` is 1 in the block states and 0 otherwise -/
  blockId : p.data.blockId = if inBlockState p.data.state then 1 else 0
  /-- `servo_update_config` is called in a block state only, and nothing but this call touches the
  global variables -/
  updates : (∀ state ∈ updateConfigState p token, inBlockState state = true) ∧
    ∀ rv p', servoConfigParser p token = .ok (rv, p') →
      p'.globals = (updateConfigState p token).elim p.globals
        fun state => servoUpdateConfig state p.globals

omit [CDouble D] in
/-- A configuration is committed in a block state only. -/
theorem inBlockState_of_update {p : Parser D} {token : YamlToken} {state : ServoParserState D}
    (h : state ∈ updateConfigState p token) : inBlockState state = true := by
  rw [Option.mem_def, updateConfigState] at h
  cases hstate : p.data.state with
  | startParse | startBlock | stopParse => simp [hstate] at h
  | startServoBlock config | startDeviceBlock config | startLoggerBlock config =>
    simp only [hstate] at h
    split at h
    · obtain rfl := Option.some.inj h
      rfl
    · cases h

/-- How the scan loop is left at a token before the end. -/
inductive Left : Type where
  /-- the process ends -/
  | fault (e : Fault) : Left
  /-- `servo_config_parser` returned -1 -/
  | refused : Left

/-- One iteration of the scan loop; nothing happens once the parser has stopped. -/
def parserStep (p : Parser D) (token : YamlToken) : Except Left (Parser D) :=
  match servoConfigParser p token with
  | .error e => .error (.fault e)
  | .ok (rv, p) => if rv = -1 then .error .refused else .ok p

/-- In a block, only the token that ends it touches the global variables. -/
theorem updateBlockConfig_globals {p p' : Parser D} {token : YamlToken} {rv : Int}
    (h : updateBlockConfig p token = .ok (rv, p')) :
    p'.globals = if token = .blockEnd ∧ p.data.blockId ≠ 0
      then servoUpdateConfig p.data.state p.globals else p.globals := by
  cases token with
  | scalar text =>
    simp only [updateBlockConfig] at h
    split at h
    · obtain ⟨-, rfl⟩ := Prod.mk.inj (Except.ok.inj h)
      simp
    · split at h
      · obtain ⟨r, -, heq⟩ := map_eq_ok.mp h
        obtain ⟨-, rfl⟩ := Prod.mk.inj heq
        simp
      · obtain ⟨-, rfl⟩ := Prod.mk.inj (Except.ok.inj h)
        simp
  | value =>
    simp only [updateBlockConfig] at h
    split at h <;> obtain ⟨-, rfl⟩ := Prod.mk.inj (Except.ok.inj h) <;> simp
  | blockEnd =>
    by_cases hid : p.data.blockId = 0
    · simp only [updateBlockConfig, hid, ne_eq, not_true_eq_false, if_false, bind, Except.bind,
        pure, Except.pure] at h
      obtain ⟨-, rfl⟩ := Prod.mk.inj (Except.ok.inj h)
      simp [hid]
    · simp only [updateBlockConfig, ne_eq, hid, not_false_eq_true, if_true, bind, Except.bind,
        pure, Except.pure] at h
      cases hname : writeAt p.data.blockName (p.data.blockId - 1) none with
      | error e => simp [hname] at h
      | ok blockName =>
        simp only [hname] at h
        split at h <;> obtain ⟨-, rfl⟩ := Prod.mk.inj (Except.ok.inj h) <;> simp [hid]
  | _ =>
    obtain ⟨-, rfl⟩ := Prod.mk.inj (Except.ok.inj h)
    simp

/-- The top level does not touch the global variables: it reads names, and opens blocks with their
zero configuration. -/
theorem parserBlockManagement_globals {p p' : Parser D} {token : YamlToken} {rv : Int}
    (h : parserBlockManagement p token = .ok (rv, p')) : p'.globals = p.globals := by
  cases token with
  | scalar text =>
    simp only [parserBlockManagement] at h
    split at h <;> obtain ⟨-, rfl⟩ := Prod.mk.inj (Except.ok.inj h) <;> rfl
  | blockMappingStart =>
    cases hkey : p.data.key with
    | none => simp [parserBlockManagement, hkey, nonNull, bind, Except.bind] at h
    | some key =>
      simp only [parserBlockManagement, hkey, nonNull, bind, Except.bind] at h
      split at h
      · obtain ⟨-, rfl⟩ := Prod.mk.inj (Except.ok.inj h)
        rfl
      · cases hname : writeAt p.data.blockName p.data.blockId (some (strdup key)) with
        | error e => simp [hname] at h
        | ok blockName =>
          simp only [hname] at h
          obtain ⟨-, rfl⟩ := Prod.mk.inj (Except.ok.inj h)
          rfl
  | _ =>
    obtain ⟨-, rfl⟩ := Prod.mk.inj (Except.ok.inj h)
    rfl

/-- The call that `updateConfigState` reports is the one that changes the global variables. -/
theorem globals_of_updateConfigState {p p' : Parser D} {token : YamlToken} {rv : Int}
    (h : servoConfigParser p token = .ok (rv, p')) :
    p'.globals = (updateConfigState p token).elim p.globals
      fun state => servoUpdateConfig state p.globals := by
  cases hstate : p.data.state with
  | startParse =>
    simp only [servoConfigParser, hstate] at h
    simp only [updateConfigState, hstate, Option.elim_none]
    cases token <;> obtain ⟨-, rfl⟩ := Prod.mk.inj (Except.ok.inj h) <;> rfl
  | startBlock =>
    simp only [servoConfigParser, hstate] at h
    simp only [updateConfigState, hstate, Option.elim_none]
    exact parserBlockManagement_globals h
  | stopParse =>
    simp only [servoConfigParser, hstate] at h
    simp only [updateConfigState, hstate, Option.elim_none]
    obtain ⟨-, rfl⟩ := Prod.mk.inj (Except.ok.inj h)
    rfl
  | startServoBlock config | startDeviceBlock config | startLoggerBlock config =>
    simp only [servoConfigParser, hstate] at h
    rw [updateBlockConfig_globals h, hstate]
    simp only [updateConfigState, hstate]
    split <;> rfl

/-- Every token updates the configuration in a block state only. -/
theorem updates_safe (p : Parser D) (token : YamlToken) :
    (∀ state ∈ updateConfigState p token, inBlockState state = true) ∧
      ∀ rv p', servoConfigParser p token = .ok (rv, p') →
        p'.globals = (updateConfigState p token).elim p.globals
          fun state => servoUpdateConfig state p.globals := by
  refine ⟨?_, ?_⟩
  · intro state hstate
    exact inBlockState_of_update hstate
  · intro rv p' hrun
    exact globals_of_updateConfigState hrun

/-- A fault of the scan loop is a fault at a token of such a run. -/
theorem scanLoop_error {file : YamlFile} {fuel n : Nat} {p : Parser D} {e : Fault}
    (h : scanLoop file fuel n p = some (.error e)) :
    ∃ (tokens : List YamlToken) (token : YamlToken) (p' : Parser D),
      (∀ i < tokens.length, yamlParserScan file (n + i) = tokens[i]?) ∧
      yamlParserScan file (n + tokens.length) = some token ∧
      tokens.foldlM parserStep p = .ok p' ∧ servoConfigParser p' token = .error e := by
  induction fuel generalizing n p with
  | zero => cases h
  | succ fuel ih =>
    simp only [scanLoop] at h
    cases hscan : yamlParserScan file n with
    | none => simp [hscan] at h
    | some token =>
      simp only [hscan] at h
      cases hstep : servoConfigParser p token with
      | error e' =>
        simp only [hstep, Option.some.injEq, Except.error.injEq] at h
        refine ⟨[], token, p, ?_, hscan, rfl, hstep.trans (congrArg _ h)⟩
        intro i hi
        cases hi
      | ok r =>
        obtain ⟨rv, p₁⟩ := r
        simp only [hstep] at h
        split_ifs at h with hrv hstopped
        · simp at h
        · simp at h
        obtain ⟨tokens, last, p', hdelivered, hlast, hrun, hfault⟩ := ih h
        refine ⟨token :: tokens, last, p', ?_, ?_, ?_, hfault⟩
        · intro i hi
          cases i with
          | zero => exact hscan
          | succ i =>
            rw [show n + (i + 1) = n + 1 + i by omega]
            exact hdelivered i (by simpa using hi)
        · rw [List.length_cons, show n + (tokens.length + 1) = n + 1 + tokens.length by omega]
          exact hlast
        · refine run_cons_eq_ok.mpr ⟨p₁, ?_, hrun⟩
          simp [parserStep, hstep, hrv]

/-! ## The tokens that are not safe -/

/-- A mapping opens before a scalar that follows a key token; `key` says that there was a key token.
A scalar before any key token gives the parser no name. -/
def opensBeforeKey (key : Bool) : List YamlToken → Bool
  | [] => false
  | .blockMappingStart :: _ => true
  | .streamEnd :: _ => false
  | .key :: tokens => opensBeforeKey true tokens
  | .scalar _ :: tokens => !key && opensBeforeKey key tokens
  | _ :: tokens => opensBeforeKey key tokens

/-- After the first mapping, another mapping opens before a key was read. The parser compares the
name of the block then, which is a null pointer. -/
def opensNameless : List YamlToken → Bool
  | [] => false
  | .blockMappingStart :: tokens => opensBeforeKey false tokens
  | _ :: tokens => opensNameless tokens

/-! ## One token of a reading -/

/-- A parser that has stopped. -/
structure Stopped (p : Parser D) : Prop where
  state : p.data.state = .stopParse
  blockId : p.data.blockId = 0
  blockName : p.data.blockName.length = MAX_BLOCK_LEVEL

theorem Stopped.safe {p : Parser D} (h : Stopped p) (token : YamlToken) : SafeToken p token := by
  have hrun : servoConfigParser p token = .ok (0, p) := by
    simp only [servoConfigParser, h.state]
  refine ⟨?_, ⟨h.blockName, ?_⟩, ?_, updates_safe _ _⟩
  · simp [hrun]
  · simp [hrun]
  · rw [h.blockId, h.state]
    rfl

/-- Nothing happens to it any more. -/
theorem Stopped.step {p : Parser D} (h : Stopped p) (token : YamlToken) :
    parserStep p token = .ok p := by
  simp [parserStep, servoConfigParser, h.state]

/-- The counters of a parser that represents a reading are right. -/
theorem reading_counters (r : Reading) (g : Globals D) (val : Option String) :
    (r.parser g val).data.blockName.length = MAX_BLOCK_LEVEL ∧
      (r.parser g val).data.blockId =
        (if inBlockState (r.parser g val).data.state then 1 else 0) := by
  obtain ⟨place, topKey, key, value, name, pairs, committed⟩ := r
  cases place with
  | start | top => exact ⟨rfl, rfl⟩
  | inside b => cases b <;> exact ⟨rfl, rfl⟩

/-- A token is safe unless the reading has no name for it. The specification of the parser leaves no
other fault, and the bookkeeping is right in every state that represents a reading. -/
theorem safeToken_iff (r : Reading) (g : Globals D) (val : Option String) {token : YamlToken}
    (hend : token ≠ .streamEnd) :
    SafeToken (r.parser g val) token ↔ r.next D token ≠ .error .nameless := by
  have hspec := servoConfigParser_spec r g val hend
  obtain ⟨hlength, hid⟩ := reading_counters r g val
  refine ⟨?_, ?_⟩
  · intro hsafe hnext
    rw [hnext] at hspec
    exact hsafe.nonNull hspec
  · intro hnext
    have hfine : ∀ e, servoConfigParser (r.parser g val) token ≠ .error e := by
      intro e he
      cases hr : r.next D token with
      | ok r' =>
        rw [hr] at hspec
        obtain ⟨val', hrun⟩ := hspec
        rw [hrun] at he
        cases he
      | error refusal =>
        rw [hr] at hspec
        cases refusal with
        | nameless => exact hnext hr
        | rejected r' =>
          obtain ⟨p, hrun, -⟩ := hspec
          rw [hrun] at he
          cases he
    exact ⟨hfine _, ⟨hlength, hfine _⟩, hid, updates_safe _ _⟩

/-- A token the reading goes on with. -/
theorem parserStep_of_next {r r' : Reading} (g : Globals D) (val : Option String)
    {token : YamlToken} (hend : token ≠ .streamEnd) (hnext : r.next D token = .ok r') :
    ∃ val', parserStep (r.parser g val) token = .ok (r'.parser g val') := by
  have hspec := servoConfigParser_spec r g val hend
  rw [hnext] at hspec
  obtain ⟨val', hrun⟩ := hspec
  refine ⟨val', ?_⟩
  simp [parserStep, hrun]

/-- The end of the stream is safe; at the top level the parser stops. -/
theorem streamEnd_safe (r : Reading) (g : Globals D) (val : Option String) :
    SafeToken (r.parser g val) .streamEnd ∧
      ∃ p, parserStep (r.parser g val) .streamEnd = .ok p ∧
        (Stopped p ∨ p = r.parser g val) := by
  obtain ⟨hlength, hid⟩ := reading_counters r g val
  have hrun : ∃ p, servoConfigParser (r.parser g val) .streamEnd = .ok (0, p) ∧
      (Stopped p ∨ p = r.parser g val) := by
    by_cases hplace : r.place = .top
    · refine ⟨{ r.parser g val with data.state := .stopParse }, ?_, .inl ⟨rfl, ?_, hlength⟩⟩
      · simp only [servoConfigParser, parserBlockManagement, Reading.parser, hplace, Place.state]
      · simp only [Reading.parser, hplace, Place.blockId]
    · exact ⟨_, servoConfigParser_idle g r val hplace (.inl rfl), .inr rfl⟩
  obtain ⟨p, hp, hcases⟩ := hrun
  refine ⟨⟨?_, ⟨hlength, ?_⟩, hid, updates_safe _ _⟩, p, ?_, hcases⟩
  · simp [hp]
  · simp [hp]
  · simp [parserStep, hp]

/-! ## Every token stream -/

theorem Stopped.always {p : Parser D} (h : Stopped p) (tokens : List YamlToken) :
    Always parserStep SafeToken p tokens := by
  induction tokens with
  | nil => trivial
  | cons token tokens ih => exact (always_cons_of_ok (h.step token)).mpr ⟨h.safe token, ih⟩

/-- Once there is a key, there always is one: a token is read on, with a name, or its pair is
rejected. The cases are those of the place and the token. -/
theorem Reading.next_named {r : Reading} (hname : r.name.isSome = true) (token : YamlToken) :
    (∃ r', r.next D token = .ok r' ∧ r'.name.isSome = true) ∨
      ∃ r', r.next D token = .error (.rejected r') := by
  obtain ⟨place, topKey, key, value, name, pairs, committed⟩ := r
  obtain ⟨name, rfl⟩ := Option.isSome_iff_exists.mp hname
  cases place with
  | start => cases token <;> exact .inl ⟨_, rfl, rfl⟩
  | top =>
    cases token with
    | scalar text => cases topKey <;> exact .inl ⟨_, rfl, rfl⟩
    | blockMappingStart =>
      left
      simp only [Reading.next, Reading.atTop]
      cases Block.ofName name <;> exact ⟨_, rfl, rfl⟩
    | _ => exact .inl ⟨_, rfl, rfl⟩
  | inside b =>
    cases token with
    | value => cases key <;> exact .inl ⟨_, rfl, rfl⟩
    | scalar text =>
      cases key with
      | true => exact .inl ⟨_, rfl, rfl⟩
      | false =>
        cases value with
        | false => exact .inl ⟨_, rfl, rfl⟩
        | true =>
          simp only [Reading.next, Reading.inBlock, Bool.false_eq_true, if_false, if_true]
          split
          · exact .inl ⟨_, rfl, rfl⟩
          · exact .inr ⟨_, rfl⟩
    | _ => exact .inl ⟨_, rfl, rfl⟩

/-- **After the first key every stream is safe.** The name is never set back to null, so from then
on there is always one to compare. -/
theorem always_safe_of_named {r : Reading} (hname : r.name.isSome = true) (g : Globals D)
    (val : Option String) (tokens : List YamlToken) :
    Always parserStep SafeToken (r.parser g val) tokens := by
  induction tokens generalizing r val with
  | nil => trivial
  | cons token tokens ih =>
    by_cases hend : token = .streamEnd
    · rw [hend]
      obtain ⟨hsafe, p, hstep, hp⟩ := streamEnd_safe r g val
      refine (always_cons_of_ok hstep).mpr ⟨hsafe, ?_⟩
      rcases hp with hstopped | rfl
      · exact hstopped.always tokens
      · exact ih hname val
    · rcases r.next_named (D := D) hname token with ⟨r', hnext, hname'⟩ | ⟨r', hnext⟩
      · obtain ⟨val', hstep⟩ := parserStep_of_next g val hend hnext
        refine (always_cons_of_ok hstep).mpr ⟨(safeToken_iff r g val hend).mpr ?_, ih hname' val'⟩
        simp [hnext]
      · refine ⟨(safeToken_iff r g val hend).mpr (by simp [hnext]), ?_⟩
        intro p hstep
        -- the pair is refused and the loop is left
        have hspec := servoConfigParser_spec r g val hend
        rw [hnext] at hspec
        obtain ⟨p', hrun, -⟩ := hspec
        simp [parserStep, hrun] at hstep

/-- Between the first mapping and the first key. The induction is on the tokens: most of them leave
the reading without a name, a mapping is unsafe, and after the first key every token is safe. -/
theorem always_safe_of_nameless {r : Reading} (hplace : r.place = .top) (hname : r.name = none)
    (g : Globals D) (val : Option String) (tokens : List YamlToken) :
    Always parserStep SafeToken (r.parser g val) tokens ↔
      opensBeforeKey r.topKey tokens = false := by
  induction tokens generalizing r val with
  | nil => exact iff_of_true trivial rfl
  | cons token tokens ih =>
    -- a token after which there still is no key
    have hnameless : ∀ r', token ≠ .streamEnd → r.next D token = .ok r' → r'.place = .top →
        r'.name = none → opensBeforeKey r.topKey (token :: tokens) =
          opensBeforeKey r'.topKey tokens →
        (Always parserStep SafeToken (r.parser g val) (token :: tokens) ↔
          opensBeforeKey r.topKey (token :: tokens) = false) := by
      intro r' hend hnext hplace' hname' hopens
      obtain ⟨val', hstep⟩ := parserStep_of_next g val hend hnext
      rw [always_cons_of_ok hstep, ih hplace' hname' val', hopens]
      refine and_iff_right ((safeToken_iff r g val hend).mpr ?_)
      simp [hnext]
    cases token with
    | streamEnd =>
      obtain ⟨hsafe, p, hstep, hp⟩ := streamEnd_safe r g val
      have hstopped : Stopped p := by
        rcases hp with hstopped | rfl
        · exact hstopped
        · simp [parserStep, servoConfigParser, parserBlockManagement, Reading.parser, hplace,
            Place.state] at hstep
      exact iff_of_true ((always_cons_of_ok hstep).mpr ⟨hsafe, hstopped.always tokens⟩) rfl
    | blockMappingStart =>
      refine iff_of_false ?_ (by simp [opensBeforeKey])
      rintro ⟨hsafe, -⟩
      refine (safeToken_iff r g val (by decide)).mp hsafe ?_
      simp [Reading.next, Reading.atTop, hplace, hname]
    | key =>
      have hnext : r.next D .key = .ok { r with topKey := true } := by
        simp [Reading.next, Reading.atTop, hplace]
      exact hnameless _ (by decide) hnext hplace hname rfl
    | scalar text =>
      cases hkey : r.topKey with
      | false =>
        have hnext : r.next D (.scalar text) = .ok r := by
          simp [Reading.next, Reading.atTop, hplace, hkey]
        have hscalar := hnameless r (by simp) hnext hplace hname (by simp [opensBeforeKey, hkey])
        rw [hkey] at hscalar
        exact hscalar
      | true =>
        -- the first key
        have hnext : r.next D (.scalar text) =
            .ok { r with name := some (strdup text), topKey := false } := by
          simp [Reading.next, Reading.atTop, hplace, hkey]
        obtain ⟨val', hstep⟩ := parserStep_of_next g val (by simp) hnext
        refine iff_of_true ((always_cons_of_ok hstep).mpr ⟨?_, always_safe_of_named rfl g val' _⟩)
          (by simp [opensBeforeKey])
        exact (safeToken_iff r g val (by simp)).mpr (by simp [hnext])
    | _ =>
      refine hnameless r (by decide) ?_ hplace hname rfl
      simp [Reading.next, Reading.atTop, hplace]

/-- Before the first mapping no token is looked at but for the one that opens it, and from there on
the lemma for the time between the first mapping and the first key decides. -/
theorem always_safe_of_start {r : Reading} (hplace : r.place = .start) (hname : r.name = none)
    (hkey : r.topKey = false) (g : Globals D) (val : Option String) (tokens : List YamlToken) :
    Always parserStep SafeToken (r.parser g val) tokens ↔ opensNameless tokens = false := by
  induction tokens generalizing val with
  | nil => exact iff_of_true trivial rfl
  | cons token tokens ih =>
    have hsafe : token ≠ .streamEnd → SafeToken (r.parser g val) token := by
      intro hend
      refine (safeToken_iff r g val hend).mpr ?_
      simp [Reading.next, hplace]
    -- a token that is not looked at
    have hsame : token ≠ .streamEnd → r.next D token = .ok r →
        opensNameless (token :: tokens) = opensNameless tokens →
        (Always parserStep SafeToken (r.parser g val) (token :: tokens) ↔
          opensNameless (token :: tokens) = false) := by
      intro hend hnext hopens
      obtain ⟨val', hstep⟩ := parserStep_of_next g val hend hnext
      rw [always_cons_of_ok hstep, ih val', hopens]
      exact and_iff_right (hsafe hend)
    cases token with
    | streamEnd =>
      have hidle := servoConfigParser_idle g r val (by simp [hplace]) (.inl rfl)
      have hstep : parserStep (r.parser g val) .streamEnd = .ok (r.parser g val) := by
        simp [parserStep, hidle]
      rw [always_cons_of_ok hstep, ih val]
      exact and_iff_right (streamEnd_safe r g val).1
    | blockMappingStart =>
      have hnext : r.next D .blockMappingStart = .ok { r with place := .top } := by
        simp [Reading.next, Reading.atStart, hplace]
      obtain ⟨val', hstep⟩ := parserStep_of_next g val (by decide) hnext
      have hopened := always_safe_of_nameless (r := { r with place := .top }) rfl hname g val'
        tokens
      rw [always_cons_of_ok hstep, hopened, hkey]
      exact and_iff_right (hsafe (by decide))
    | _ => exact hsame (by simp) (by simp [Reading.next, Reading.atStart, hplace]) rfl

/-- **The parser is safe exactly for the token streams in which no mapping opens at the top level
before a key was read there.** The condition looks at the tokens alone, from the first mapping to
the first key, and says nothing of what comes later. -/
theorem parser_safe_iff (g : Globals D) (tokens : List YamlToken) :
    Always parserStep SafeToken (parserInit g) tokens ↔ opensNameless tokens = false := by
  rw [parserInit_eq]
  exact always_safe_of_start (r := Reading.init) rfl rfl rfl g none tokens

/-- A mapping that is a key of a mapping: `? a: 1`. -/
theorem not_parser_safe_complexKey :
    ¬ Always parserStep SafeToken (parserInit (globalsInit true : Globals XRat))
      [.streamStart, .blockMappingStart, .key, .blockMappingStart, .key, .scalar "a", .value,
        .scalar "1", .blockEnd, .blockEnd, .streamEnd] := by
  rintro ⟨-, h⟩
  obtain ⟨-, h⟩ := h _ rfl
  obtain ⟨-, h⟩ := h _ rfl
  obtain ⟨hsafe, -⟩ := h _ rfl
  exact hsafe.nonNull rfl

end ExternalServo
