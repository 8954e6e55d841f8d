import ExternalServo.Reading
import Mathlib.Data.List.Induction

/-!
# Two-level documents

A configuration file as it is meant: a block mapping whose entries map a name to nothing, to a
scalar or to a block mapping of settings. `Document` is such a file and `Document.tokens` the
tokens of it, between which a scanner may deliver tokens that the parser ignores everywhere
(`inert`). `Document.Applied` says what the file means, without the parser: the last block of a
kind counts, its pairs are applied to a zeroed configuration in their order.

`servoConfigParse_twoLevel` — the parser returns 0 exactly if every pair of the three blocks is
accepted, and then leaves that meaning in the global variables.
-/

namespace ExternalServo

open CArith

/-! ## Documents -/

/-- What a key is mapped to, if that is not a mapping. The parser tells the three cases apart by the
tokens that follow the key. -/
inductive Value : Type where
  /-- the key is not followed by a value token -/
  | absent : Value
  /-- there is nothing after the value token -/
  | empty : Value
  | scalar (text : String) : Value

/-- A setting: a key and its value. -/
structure Setting where
  key : String
  value : Value

/-- What a name is mapped to. -/
inductive Content : Type where
  | value (value : Value) : Content
  | mapping (settings : List Setting) : Content

/-- An entry of the outer mapping. Its name need not be that of a block: an entry of another name is
read over. -/
structure Entry where
  name : String
  content : Content

/-- A two-level document. -/
abbrev Document : Type := List Entry

def Value.tokens : Value → List YamlToken
  | .absent => []
  | .empty => [.value]
  | .scalar text => [.value, .scalar text]

def Setting.tokens (s : Setting) : List YamlToken := .key :: .scalar s.key :: s.value.tokens

def Content.tokens : Content → List YamlToken
  | .value v => v.tokens
  | .mapping settings =>
    .value :: .blockMappingStart :: settings.flatMap Setting.tokens ++ [.blockEnd]

def Entry.tokens (e : Entry) : List YamlToken := .key :: .scalar e.name :: e.content.tokens

/-- The tokens of a document. -/
def Document.tokens (doc : Document) : List YamlToken :=
  .blockMappingStart :: doc.flatMap Entry.tokens ++ [.blockEnd]

/-- Tokens that the parser ignores in every state: the ends of documents, directives, anchors and
tags. -/
def inert : YamlToken → Bool
  | .streamStart | .versionDirective | .tagDirective | .documentStart | .documentEnd | .anchor
  | .tag => true
  | _ => false

/-! ## What a document means -/

/-- The pairs of a mapping, as strings that end at the first NUL character. A key without a value
makes no pair. -/
def pairsOf (settings : List Setting) : List (String × String) :=
  settings.filterMap fun s =>
    match s.value with
    | .scalar text => some (strdup s.key, strdup text)
    | .absent | .empty => none

/-- The block an entry is. -/
def Entry.block (e : Entry) : Option (Block × List (String × String)) :=
  match e.content with
  | .mapping settings => (Block.ofName (strdup e.name)).map fun b => (b, pairsOf settings)
  | .value _ => none

/-- The logging, servo and device blocks in their order. -/
def Document.blocks (doc : Document) : List (Block × List (String × String)) :=
  doc.filterMap Entry.block

/-- The pairs of the last occurrence of a block. An earlier one has no effect: each block starts
from the zero configuration, and the last one is what is stored. -/
def Document.last (doc : Document) (b : Block) : Option (List (String × String)) :=
  ((doc.blocks.filter fun bp => bp.1 = b).getLast?).map Prod.snd

variable {D : Type} [CDouble D]

/-- The update function of a block returns 0 for every pair, one after the other. -/
def Block.AcceptsFrom (b : Block) : b.Config D → List (String × String) → Prop
  | _, [] => True
  | config, (key, val) :: pairs =>
    (b.update D config key val).1 = 0 ∧ b.AcceptsFrom (b.update D config key val).2 pairs

instance Block.decidableAcceptsFrom (b : Block) :
    (config : b.Config D) → (pairs : List (String × String)) →
      Decidable (b.AcceptsFrom config pairs)
  | _, [] => isTrue trivial
  | config, (key, val) :: pairs =>
    have := b.decidableAcceptsFrom (b.update D config key val).2 pairs
    inferInstanceAs (Decidable (_ ∧ _))

variable (D) in
/-- Every pair of the three blocks is accepted, in document order. The blocks that are overwritten
later are checked as well. -/
def Document.Accepted (doc : Document) : Prop :=
  ∀ bp ∈ doc.blocks, bp.1.AcceptsFrom (bp.1.zero D) bp.2

instance (doc : Document) : Decidable (doc.Accepted D) :=
  inferInstanceAs (Decidable (∀ bp ∈ doc.blocks, bp.1.AcceptsFrom (bp.1.zero D) bp.2))

/-- The global variables after a document that is accepted: each block that occurs replaces its
configuration as a whole, and the others stay. -/
structure Document.Applied (doc : Document) (g g' : Globals D) : Prop where
  /-- without a log file, syslog is switched off -/
  logger : g'.loggerConfig = (doc.last .logging).elim g.loggerConfig fun pairs =>
    let config : LoggerConfig := Block.logging.ofPairs D pairs
    if g.logFp then config else { config with useSyslog := 0 }
  servo : g'.servoConfig = (doc.last .servo).elim g.servoConfig (Block.servo.ofPairs D)
  device : g'.deviceConfig = (doc.last .device).elim g.deviceConfig (Block.device.ofPairs D)
  logFp : g'.logFp = g.logFp

/-! ## Reading tokens one part after the other -/

/-- From the reading `r` the tokens are read, with a postcondition, if what they say is accepted;
otherwise a pair of them is rejected. This is composed along the tokens of a document as they are
put together. -/
structure Reads (D : Type) [CDouble D] (r : Reading) (tokens : List YamlToken) (accepted : Prop)
    (post : Reading → Prop) : Prop where
  ok : accepted → ∃ r', tokens.foldlM (Reading.next D) r = .ok r' ∧ post r'
  rejected : ¬ accepted → ∃ r', tokens.foldlM (Reading.next D) r = .error (.rejected r')

section Rules

variable {r : Reading} {tokens tokens' : List YamlToken} {accepted accepted' : Prop}
  {post post' : Reading → Prop}

theorem Reads.nil (h : post r) : Reads D r [] True post := by
  refine ⟨?_, ?_⟩
  · intro _
    exact ⟨r, rfl, h⟩
  · intro hnot
    exact absurd trivial hnot

/-- A token that is always read. -/
theorem Reads.cons {r₁ : Reading} {token : YamlToken} (hnext : r.next D token = .ok r₁)
    (h : Reads D r₁ tokens accepted post) : Reads D r (token :: tokens) accepted post := by
  refine ⟨?_, ?_⟩
  · intro haccepted
    obtain ⟨r', hrun, hpost⟩ := h.ok haccepted
    refine ⟨r', ?_, hpost⟩
    rw [List.foldlM_cons, hnext]
    exact hrun
  · intro hnot
    obtain ⟨r', hrun⟩ := h.rejected hnot
    refine ⟨r', ?_⟩
    rw [List.foldlM_cons, hnext]
    exact hrun

/-- One part after the other. The second part is read from wherever the first one got to, and what
is rejected in the first one is rejected in the whole. -/
theorem Reads.append (h : Reads D r tokens accepted post)
    (h' : ∀ r', post r' → Reads D r' tokens' accepted' post') :
    Reads D r (tokens ++ tokens') (accepted ∧ accepted') post' := by
  by_cases haccepted : accepted
  · obtain ⟨r', hrun, hpost⟩ := h.ok haccepted
    refine ⟨?_, ?_⟩
    · rintro ⟨-, haccepted'⟩
      obtain ⟨r'', hrun', hpost'⟩ := (h' r' hpost).ok haccepted'
      refine ⟨r'', ?_, hpost'⟩
      rw [List.foldlM_append, hrun]
      exact hrun'
    · intro hnot
      obtain ⟨r'', hrun'⟩ := (h' r' hpost).rejected fun haccepted' => hnot ⟨haccepted, haccepted'⟩
      refine ⟨r'', ?_⟩
      rw [List.foldlM_append, hrun]
      exact hrun'
  · obtain ⟨r', hrun⟩ := h.rejected haccepted
    refine ⟨?_, ?_⟩
    · rintro ⟨haccepted', -⟩
      exact absurd haccepted' haccepted
    · intro _
      refine ⟨r', ?_⟩
      rw [List.foldlM_append, hrun]
      rfl

theorem Reads.congr (h : Reads D r tokens accepted post) (haccepted : accepted ↔ accepted')
    (hpost : ∀ r', post r' → post' r') : Reads D r tokens accepted' post' := by
  refine ⟨?_, ?_⟩
  · intro h'
    obtain ⟨r', hrun, hr'⟩ := h.ok (haccepted.mpr h')
    exact ⟨r', hrun, hpost r' hr'⟩
  · intro hnot
    exact h.rejected (mt haccepted.mp hnot)

/-- A last token that is always read. -/
theorem Reads.snoc {token : YamlToken} (h : Reads D r tokens accepted post)
    (hlast : ∀ r', post r' → ∃ r'', r'.next D token = .ok r'' ∧ post' r'') :
    Reads D r (tokens ++ [token]) accepted post' := by
  have hend : ∀ r', post r' → Reads D r' [token] True post' := by
    intro r' hr'
    obtain ⟨r'', hnext, hr''⟩ := hlast r' hr'
    exact Reads.cons hnext (Reads.nil hr'')
  exact (h.append hend).congr (iff_of_eq (and_true accepted)) fun _ => id

/-- A sequence of parts, with an index of the condition that holds between them. -/
theorem Reads.flatMap {α γ : Type} {P : γ → Reading → Prop} {tokensOf : α → List YamlToken}
    {ok : α → Prop} {next : γ → α → γ}
    (hpart : ∀ c x r, P c r → Reads D r (tokensOf x) (ok x) (P (next c x))) (xs : List α) {c : γ}
    (h : P c r) : Reads D r (xs.flatMap tokensOf) (∀ x ∈ xs, ok x) (P (xs.foldl next c)) := by
  induction xs generalizing c r with
  | nil =>
    refine (Reads.nil h).congr ?_ fun _ => id
    simp
  | cons x xs ih =>
    rw [List.flatMap_cons]
    refine ((hpart c x r h).append fun r' hr' => ih hr').congr ?_ fun _ => id
    simp

end Rules

/-! ## A block -/

/-- In the block `b`, with its pairs so far and the blocks before it. -/
structure InBlock (b : Block) (pairs : List (String × String))
    (committed : Block → Option (List (String × String))) (r : Reading) : Prop where
  place : r.place = .inside b
  topKey : r.topKey = false
  pairs : r.pairs = pairs
  committed : r.committed = committed

variable (D) in
/-- The block accepts the pairs. -/
def AcceptsAll (b : Block) (pairs : List (String × String)) : Prop :=
  ∀ kv ∈ pairs, accepts D b kv.1 kv.2 = true

theorem acceptsAll_nil (b : Block) : AcceptsAll D b [] := by
  intro kv hkv
  cases hkv

/-- A key of a block. -/
theorem InBlock.name {b : Block} {pairs : List (String × String)}
    {committed : Block → Option (List (String × String))} {r : Reading}
    (h : InBlock b pairs committed r) {tokens : List YamlToken} {accepted : Prop}
    {post : Reading → Prop} (text : String)
    (hrest : ∀ r', InBlock b pairs committed r' → r'.key = true →
      r'.name = some (strdup text) → Reads D r' tokens accepted post) :
    Reads D r (.key :: .scalar text :: tokens) accepted post := by
  have hkey : r.next D .key = .ok { r with key := true } := by
    simp [Reading.next, Reading.inBlock, h.place]
  have hname : Reading.next D { r with key := true } (.scalar text) =
      .ok { r with key := true, name := some (strdup text) } := by
    simp [Reading.next, Reading.inBlock, h.place]
  exact Reads.cons hkey (Reads.cons hname
    (hrest _ ⟨h.place, h.topKey, h.pairs, h.committed⟩ rfl rfl))

/-- A scalar that is a value of a block. -/
theorem InBlock.scalar {b : Block} {pairs : List (String × String)}
    {committed : Block → Option (List (String × String))} {r : Reading}
    (h : InBlock b pairs committed r) (hkey : r.key = false) (hvalue : r.value = true)
    {name : String} (hname : r.name = some name) (text : String) :
    Reads D r [.scalar text] (accepts D b name (strdup text) = true)
      (InBlock b (pairs ++ [(name, strdup text)]) committed) := by
  refine ⟨?_, ?_⟩
  · intro haccepted
    refine ⟨{ r with pairs := r.pairs ++ [(name, strdup text)] }, ?_, h.place, h.topKey, ?_,
      h.committed⟩
    · simp [Reading.next, Reading.inBlock, h.place, hkey, hvalue, hname, haccepted]
    · rw [h.pairs]
  · intro hrejected
    refine ⟨r, ?_⟩
    simp [Reading.next, Reading.inBlock, h.place, hkey, hvalue, hname, hrejected]

/-- One setting of a block: its key becomes the name, and its value, if it is a scalar, makes a pair
that the block accepts or rejects. Without a value there is no pair. -/
theorem reads_setting {b : Block} {pairs : List (String × String)}
    {committed : Block → Option (List (String × String))} {r : Reading}
    (h : InBlock b pairs committed r) (s : Setting) :
    Reads D r s.tokens (AcceptsAll D b (pairsOf [s]))
      (InBlock b (pairs ++ pairsOf [s]) committed) := by
  obtain ⟨k, v⟩ := s
  refine h.name k fun r' hr' hkey hname => ?_
  have hvalue : r'.next D .value = .ok { r' with key := false, value := true } := by
    simp [Reading.next, Reading.inBlock, hr'.place, hkey]
  -- without a value nothing is added
  have hsame : InBlock b pairs committed { r' with key := false, value := true } :=
    ⟨hr'.place, hr'.topKey, hr'.pairs, hr'.committed⟩
  cases v with
  | absent =>
    have hpairs : pairsOf [⟨k, .absent⟩] = [] := rfl
    rw [hpairs, List.append_nil]
    exact (Reads.nil hr').congr (iff_of_true trivial (acceptsAll_nil b)) fun _ => id
  | empty =>
    have hpairs : pairsOf [⟨k, .empty⟩] = [] := rfl
    rw [hpairs, List.append_nil]
    exact Reads.cons hvalue
      ((Reads.nil hsame).congr (iff_of_true trivial (acceptsAll_nil b)) fun _ => id)
  | scalar text =>
    have hpairs : pairsOf [⟨k, .scalar text⟩] = [(strdup k, strdup text)] := rfl
    rw [hpairs]
    refine Reads.cons hvalue ((hsame.scalar rfl rfl hname text).congr ?_ fun _ => id)
    simp [AcceptsAll]

theorem pairsOf_cons (s : Setting) (settings : List Setting) :
    pairsOf (s :: settings) = pairsOf [s] ++ pairsOf settings := by
  have happend : s :: settings = [s] ++ settings := rfl
  rw [happend, pairsOf, List.filterMap_append]
  rfl

/-- Each setting makes its own pairs. -/
theorem pairsOf_foldl (settings : List Setting) (pairs : List (String × String)) :
    settings.foldl (fun pairs s => pairs ++ pairsOf [s]) pairs = pairs ++ pairsOf settings := by
  induction settings generalizing pairs with
  | nil => exact (List.append_nil _).symm
  | cons s settings ih =>
    rw [List.foldl_cons, ih, pairsOf_cons s settings, List.append_assoc]

theorem acceptsAll_pairsOf (b : Block) (settings : List Setting) :
    (∀ s ∈ settings, AcceptsAll D b (pairsOf [s])) ↔ AcceptsAll D b (pairsOf settings) := by
  induction settings with
  | nil => simp [acceptsAll_nil, pairsOf]
  | cons s settings ih =>
    rw [List.forall_mem_cons, ih, pairsOf_cons s settings, AcceptsAll, AcceptsAll, AcceptsAll,
      List.forall_mem_append]

/-- The settings of a block. -/
theorem reads_settings {b : Block} {committed : Block → Option (List (String × String))}
    {r : Reading} (h : InBlock b [] committed r) (settings : List Setting) :
    Reads D r (settings.flatMap Setting.tokens) (AcceptsAll D b (pairsOf settings))
      (InBlock b (pairsOf settings) committed) := by
  have hread := Reads.flatMap (D := D) (P := fun pairs => InBlock b pairs committed)
    (fun pairs s r hr => reads_setting hr s) settings h
  refine hread.congr (acceptsAll_pairsOf b settings) ?_
  intro r' hr'
  rw [pairsOf_foldl] at hr'
  exact hr'

/-! ## The top level -/

/-- Between the entries of the outer mapping. -/
structure AtTop (committed : Block → Option (List (String × String))) (r : Reading) : Prop where
  place : r.place = .top
  topKey : r.topKey = false
  committed : r.committed = committed

/-- A key of the outer mapping. -/
theorem AtTop.name {committed : Block → Option (List (String × String))} {r : Reading}
    (h : AtTop committed r) {tokens : List YamlToken} {accepted : Prop} {post : Reading → Prop}
    (text : String)
    (hrest : ∀ r', AtTop committed r' → r'.name = some (strdup text) →
      Reads D r' tokens accepted post) :
    Reads D r (.key :: .scalar text :: tokens) accepted post := by
  have hkey : r.next D .key = .ok { r with topKey := true } := by
    simp [Reading.next, Reading.atTop, h.place]
  have hname : Reading.next D { r with topKey := true } (.scalar text) =
      .ok { r with topKey := false, name := some (strdup text) } := by
    simp [Reading.next, Reading.atTop, h.place]
  exact Reads.cons hkey (Reads.cons hname (hrest _ ⟨h.place, rfl, h.committed⟩ rfl))

/-- Values at the top level say nothing. -/
theorem AtTop.value {committed : Block → Option (List (String × String))} {r : Reading}
    (h : AtTop committed r) (v : Value) : Reads D r v.tokens True (AtTop committed) := by
  have hvalue : r.next D .value = .ok r := by
    simp [Reading.next, Reading.atTop, h.place]
  cases v with
  | absent => exact Reads.nil h
  | empty => exact Reads.cons hvalue (Reads.nil h)
  | scalar text =>
    have htext : r.next D (.scalar text) = .ok r := by
      simp [Reading.next, Reading.atTop, h.place, h.topKey]
    exact Reads.cons hvalue (Reads.cons htext (Reads.nil h))

/-- The settings of a block that is not known are read at the top level. -/
theorem AtTop.settings {committed : Block → Option (List (String × String))} {r : Reading}
    (h : AtTop committed r) (settings : List Setting) :
    Reads D r (settings.flatMap Setting.tokens) True (AtTop committed) := by
  have hsetting : ∀ (_ : Unit) (s : Setting) (r : Reading), AtTop committed r →
      Reads D r s.tokens True (AtTop committed) := by
    intro _ s r hr
    exact hr.name s.key fun r' hr' _ => hr'.value s.value
  have hread := @Reads.flatMap D _ r _ _ (fun _ => AtTop committed) Setting.tokens (fun _ => True)
    (fun c _ => c) hsetting settings () h
  refine hread.congr ?_ fun _ => id
  simp

/-- The blocks that count after an entry. -/
def commit (committed : Block → Option (List (String × String))) (e : Entry) :
    Block → Option (List (String × String)) :=
  match e.block with
  | none => committed
  | some (b, pairs) => Function.update committed b (some pairs)

variable (D) in
/-- The block accepts the pairs of an entry. -/
def Entry.Accepts (e : Entry) : Prop := ∀ bp ∈ e.block, AcceptsAll D bp.1 bp.2

theorem Entry.accepts_of_none {e : Entry} (h : e.block = none) : e.Accepts D := by
  intro bp hbp
  simp [h] at hbp

/-- A block of the document. -/
theorem AtTop.block {committed : Block → Option (List (String × String))} {r : Reading}
    (h : AtTop committed r) {b : Block} {text : String} (hname : r.name = some (strdup text))
    (hb : Block.ofName (strdup text) = some b) (settings : List Setting) :
    Reads D r (.blockMappingStart :: settings.flatMap Setting.tokens ++ [.blockEnd])
      (AcceptsAll D b (pairsOf settings))
      (AtTop (Function.update committed b (some (pairsOf settings)))) := by
  have hopen : r.next D .blockMappingStart =
      .ok { r with place := .inside b, pairs := [] } := by
    simp [Reading.next, Reading.atTop, h.place, hname, hb]
  have hinside : InBlock b [] committed { r with place := .inside b, pairs := [] } :=
    ⟨rfl, h.topKey, rfl, h.committed⟩
  have hsettings := reads_settings (D := D) hinside settings
  rw [List.cons_append]
  refine Reads.cons hopen (hsettings.snoc fun r' hr' => ?_)
  -- the end of the block commits the pairs
  refine ⟨{ r' with
    place := .top, committed := Function.update r'.committed b (some r'.pairs) }, ?_,
    rfl, hr'.topKey, ?_⟩
  · simp [Reading.next, Reading.inBlock, hr'.place]
  · rw [hr'.committed, hr'.pairs]

/-- A block that is not known. -/
theorem AtTop.unknown {committed : Block → Option (List (String × String))} {r : Reading}
    (h : AtTop committed r) {text : String} (hname : r.name = some (strdup text))
    (hb : Block.ofName (strdup text) = none) (settings : List Setting) :
    Reads D r (.blockMappingStart :: settings.flatMap Setting.tokens ++ [.blockEnd]) True
      (AtTop committed) := by
  have hopen : r.next D .blockMappingStart = .ok r := by
    simp [Reading.next, Reading.atTop, h.place, hname, hb]
  rw [List.cons_append]
  refine Reads.cons hopen ((h.settings settings).snoc fun r' hr' => ⟨r', ?_, hr'⟩)
  simp [Reading.next, Reading.atTop, hr'.place]

/-- **One entry of the document.** A block is committed at the end of its mapping; an entry of
another name, and a value, leave what was committed. -/
theorem reads_entry (committed : Block → Option (List (String × String))) (e : Entry)
    (r : Reading) (h : AtTop committed r) :
    Reads D r e.tokens (e.Accepts D) (AtTop (commit committed e)) := by
  obtain ⟨text, content⟩ := e
  refine AtTop.name h text fun r' hr' hname => ?_
  cases content with
  | value v =>
    have hblock : Entry.block ⟨text, .value v⟩ = none := rfl
    rw [commit, hblock]
    exact (hr'.value v).congr (iff_of_true trivial (Entry.accepts_of_none hblock)) fun _ => id
  | mapping settings =>
    have hvalue : r'.next D .value = .ok r' := by
      simp [Reading.next, Reading.atTop, hr'.place]
    refine Reads.cons hvalue ?_
    cases hb : Block.ofName (strdup text) with
    | none =>
      have hblock : Entry.block ⟨text, .mapping settings⟩ = none := by simp [Entry.block, hb]
      rw [commit, hblock]
      exact (hr'.unknown hname hb settings).congr
        (iff_of_true trivial (Entry.accepts_of_none hblock)) fun _ => id
    | some b =>
      have hblock : Entry.block ⟨text, .mapping settings⟩ = some (b, pairsOf settings) := by
        simp [Entry.block, hb]
      rw [commit, hblock]
      refine (hr'.block hname hb settings).congr ?_ fun _ => id
      simp [Entry.Accepts, hblock]

/-! ## The document -/

/-- Entry after entry, the last block of a kind is the one that counts. -/
theorem commit_eq_last (doc : Document) : doc.foldl commit (fun _ => none) = doc.last := by
  induction doc using List.reverseRecOn with
  | nil => rfl
  | append_singleton doc e ih =>
    funext b
    rw [List.foldl_append, List.foldl_cons, List.foldl_nil, ih, commit]
    cases hblock : e.block with
    | none => simp [Document.last, Document.blocks, hblock]
    | some bp =>
      obtain ⟨b', pairs⟩ := bp
      by_cases hb : b = b'
      · subst hb
        simp [Document.last, Document.blocks, hblock]
      · have hne : ¬ b' = b := fun h => hb h.symm
        simp [Document.last, Document.blocks, hblock, Function.update_of_ne hb, hne]

/-- The update function returns 0 for every pair if the pairs are accepted, whatever the
configuration so far. -/
theorem acceptsFrom_iff (b : Block) (config : b.Config D) (pairs : List (String × String)) :
    b.AcceptsFrom config pairs ↔ AcceptsAll D b pairs := by
  induction pairs generalizing config with
  | nil => exact iff_of_true trivial (acceptsAll_nil b)
  | cons kv pairs ih =>
    obtain ⟨key, val⟩ := kv
    have hfst : (b.update D config key val).1 = 0 ↔ accepts D b key val = true := by
      rw [Block.update_fst]
      split_ifs with h <;> simp [h]
    rw [Block.AcceptsFrom, hfst, ih, AcceptsAll, AcceptsAll, List.forall_mem_cons]

theorem accepted_iff (doc : Document) : doc.Accepted D ↔ ∀ e ∈ doc, e.Accepts D := by
  rw [Document.Accepted, Document.blocks]
  simp only [acceptsFrom_iff, List.mem_filterMap]
  refine ⟨?_, ?_⟩
  · intro h e he bp hbp
    exact h bp ⟨e, he, hbp⟩
  · rintro h bp ⟨e, he, hbp⟩
    exact h e he bp hbp

/-- **The reading of a document**, by induction on its entries: what is committed in the end is the
last occurrence of each block. -/
theorem reads_document (doc : Document) :
    Reads D Reading.init doc.tokens (doc.Accepted D) (AtTop doc.last) := by
  have hopen : Reading.init.next D .blockMappingStart =
      .ok { Reading.init with place := .top } := rfl
  have hentries := Reads.flatMap (D := D) reads_entry doc
    (r := { Reading.init with place := .top }) (c := fun _ => none) ⟨rfl, rfl, rfl⟩
  rw [commit_eq_last, ← accepted_iff] at hentries
  rw [Document.tokens, List.cons_append]
  refine Reads.cons hopen (hentries.snoc fun r' hr' => ⟨r', ?_, hr'⟩)
  simp [Reading.next, Reading.atTop, hr'.place]

/-! ## The file -/

theorem next_inert (r : Reading) {token : YamlToken} (h : inert token = true) :
    r.next D token = .ok r := by
  obtain ⟨place, topKey, key, value, name, pairs, committed⟩ := r
  cases token with
  | streamStart | versionDirective | tagDirective | documentStart | documentEnd | anchor | tag =>
    cases place <;> rfl
  | _ => simp [inert] at h

/-- Inert tokens do not change what is read. -/
theorem foldlM_inert (r : Reading) (tokens : List YamlToken) :
    (tokens.filter fun t => !inert t).foldlM (Reading.next D) r =
      tokens.foldlM (Reading.next D) r := by
  induction tokens generalizing r with
  | nil => rfl
  | cons token tokens ih =>
    by_cases h : inert token = true
    · rw [List.filter_cons_of_neg (by simp [h]), List.foldlM_cons, next_inert r h]
      exact ih r
    · rw [List.filter_cons_of_pos (by simp [h]), List.foldlM_cons, List.foldlM_cons]
      cases r.next D token with
      | error e => rfl
      | ok r' => exact ih r'

/-- The global variables of a reading that is at the end of the document. -/
theorem AtTop.applied {doc : Document} {r : Reading} (h : AtTop doc.last r) (g : Globals D) :
    doc.Applied g (r.globals g) := by
  refine ⟨?_, ?_, ?_, rfl⟩
  · rw [Reading.globals, h.committed]
    cases doc.last .logging <;> rfl
  · rw [Reading.globals, h.committed]
    cases doc.last .servo <;> rfl
  · rw [Reading.globals, h.committed]
    cases doc.last .device <;> rfl

/-- **Two-level documents are parsed as they are meant.** The parser returns, with one result: it is
0 exactly if every pair of the three blocks is accepted, and then the global variables hold what the
document means. Documents that differ in directives, anchors or tags alone mean the same. -/
theorem servoConfigParse_twoLevel (file : YamlFile) (g : Globals D) (doc : Document)
    (herror : file.scanError = false)
    (htokens : (file.tokens.filter fun t => !inert t) = doc.tokens) :
    ∃ rv g', (∀ result, (∃ fuel, servoConfigParse (some file) true g fuel = some result) ↔
        result = .ok (rv, g')) ∧
      (rv = 0 ↔ doc.Accepted D) ∧ (rv = 0 → doc.Applied g g') := by
  have hread : read D file.tokens = doc.tokens.foldlM (Reading.next D) Reading.init := by
    rw [read, ← foldlM_inert, htokens]
  have hdoc := reads_document (D := D) doc
  by_cases haccepted : doc.Accepted D
  · obtain ⟨r, hr, htop⟩ := hdoc.ok haccepted
    refine ⟨0, r.globals g, ?_, iff_of_true rfl haccepted, fun _ => htop.applied g⟩
    intro result
    rw [servoConfigParse_returns_iff, parseResult, hread, hr]
    simp [herror, htop.place, eq_comm]
  · obtain ⟨r, hr⟩ := hdoc.rejected haccepted
    refine ⟨-1, r.globals g, ?_, iff_of_false (by decide) haccepted, fun h => by cases h⟩
    intro result
    rw [servoConfigParse_returns_iff, parseResult, hread, hr]
    simp [eq_comm]

/-- Two device blocks with a block between them that is not known. -/
def repeatedDevice : Document :=
  [⟨"device", .mapping [⟨"delay_filter_length", .scalar "4"⟩]⟩,
   ⟨"other", .mapping [⟨"delay_filter_length", .scalar "none"⟩]⟩,
   ⟨"device", .mapping [⟨"delay_filter_length", .scalar "8"⟩, ⟨"delay_filter", .empty⟩,
     ⟨"delay_filter_length", .scalar "16"⟩]⟩]

def repeatedDeviceFile : YamlFile :=
  { tokens := .streamStart :: repeatedDevice.tokens, scanError := false, noEnd := by decide }

/-- The second device block counts, and in it the last length. -/
theorem servoConfigParse_twoLevel_repeatedDevice :
    ∃ g', (∃ fuel, servoConfigParse (some repeatedDeviceFile) true
        (globalsInit true : Globals XRat) fuel = some (.ok (0, g'))) ∧
      g'.servoConfig = ServoConfig.zero ∧
      g'.deviceConfig = { DeviceConfig.zero with filterLen := 16 } := by
  obtain ⟨rv, g', hparse, haccepted, happlied⟩ := servoConfigParse_twoLevel (D := XRat)
    repeatedDeviceFile (globalsInit true) repeatedDevice rfl rfl
  obtain rfl : rv = 0 := by
    apply haccepted.mpr
    decide +kernel
  have happlied := happlied rfl
  refine ⟨g', (hparse _).mpr rfl, ?_, ?_⟩
  · rw [happlied.servo]
    rfl
  · rw [happlied.device]
    decide +kernel

end ExternalServo
