import Mathlib.Data.List.Count
import Mathlib.Logic.Function.Iterate
import Mathlib.Algebra.Group.Nat.Even

/-!
# A record under a version counter

One side writes a record of several cells that another side reads, and neither can lock the
other out. The writer advances a version before the first store of a value and after the last,
lowers a flag while the cells change and raises it at the end. The reader waits for the flag,
loads the version, then the cells, then the version again, and uses what it loaded if both
versions are the same; it lowers the flag in any case.

Every load and every store is an action of its own and a run is any list of actions, so a run
is any interleaving of the two sides. An action that its side is not ready for does nothing.
The rules, for runs of any length:

* `reads_run` — an accepted read is one whole value, unless the writer was inside one when it
  loaded the version, and then the flag was loaded before the write in progress lowered it;
* `order_run` — accepted reads come in the order of the values, at most two of one value, and
  not more than one for each time the flag was raised and one for the flag found at the start.
-/

namespace SeqLock

variable {W F α : Type}

/-- What the two sides share: a version that is advanced before and after the cells of a value are
stored, and a flag that says that there is a value to read. -/
structure Shared (W F α : Type) where
  version : W
  cells : F → α
  flag : Bool

/-- Where the writer is in its stores. The writer is one process, which is in one phase at a time;
the reader can act between any two stores. -/
inductive Phase (F α : Type) where
  | idle : Phase F α
  /-- the version is advanced next -/
  | opening : (F → α) → Phase F α
  /-- the flag is lowered next -/
  | clearing : (F → α) → Phase F α
  /-- some cells are left to store, and then the version is advanced again -/
  | storing : (F → α) → List F → Phase F α
  /-- the flag is raised next -/
  | raising : Phase F α

/-- How often the writer stored the version and the flag. No side looks at it: the numbers grow
without bound where the version wraps around, and it is in them that the invariant is stated. -/
structure Counts where
  advanced : ℕ
  lowered : ℕ
  raised : ℕ

/-- A read that was accepted: the version it loaded, first and last, and the values; and how often
the flag had been lowered when it was loaded, and the version advanced when it was loaded first and
last, which the reader does not know. -/
structure Read (W F α : Type) where
  lowered : ℕ
  opened : ℕ
  closed : ℕ
  version : W
  values : F → Option α

/-- The value a read is of: how many were complete when it loaded the version. -/
def Read.index (r : Read W F α) : ℕ := r.opened / 2

/-- Where the reader is in its loads. It loads the flag, the version, any cells in any order, and
the version again, and accepts what it has loaded if the two versions are the same. -/
inductive Reader (W F α : Type) where
  | idle : Reader W F α
  /-- the flag was found raised -/
  | flagged : ℕ → Reader W F α
  /-- the version was loaded, and some of the cells -/
  | reading : ℕ → ℕ → W → (F → Option α) → Reader W F α
  /-- the versions were compared; the flag is lowered next -/
  | closing : Reader W F α

/-- What the reader does next. -/
inductive Load (F : Type) where
  | flag : Load F
  | version : Load F
  | cell : F → Load F
  | check : Load F
  | clear : Load F

section Model

variable [DecidableEq W] [DecidableEq F]

/-- The reader after an action, and what it accepted. -/
def Reader.next (shared : Shared W F α) (counts : Counts) :
    Reader W F α → Load F → Reader W F α × Option (Read W F α)
  | .idle, .flag => (if shared.flag then .flagged counts.lowered else .idle, none)
  | .flagged lowered, .version =>
    (.reading lowered counts.advanced shared.version fun _ => none, none)
  | .reading lowered opened first values, .cell f =>
    (.reading lowered opened first (Function.update values f (some (shared.cells f))), none)
  | .reading lowered opened first values, .check =>
    (.closing, if shared.version = first then some ⟨lowered, opened, counts.advanced, first, values⟩
      else none)
  | .closing, .clear => (.idle, none)
  | reader, _ => (reader, none)

/-- The reader lowers the flag. -/
def Reader.clears : Reader W F α → Load F → Bool
  | .closing, .clear => true
  | _, _ => false

/-- Both sides, what they share, and what they did: the values that were completed, with the
first content of the cells, and the reads that were accepted, the newest first. -/
structure State (W F α : Type) where
  shared : Shared W F α
  phase : Phase F α
  reader : Reader W F α
  counts : Counts
  published : List (F → α)
  reads : List (Read W F α)

/-- No value has been written yet. -/
def start (shared : Shared W F α) : State W F α :=
  { shared, phase := .idle, reader := .idle, counts := ⟨0, 0, 0⟩, published := [shared.cells],
    reads := [] }

/-- The next store of the writer. -/
def write (next : W → W) (order : List F) (s : State W F α) : State W F α :=
  match s.phase with
  | .idle => s
  | .opening v =>
    { s with
      shared := { s.shared with version := next s.shared.version }
      phase := .clearing v
      counts := { s.counts with advanced := s.counts.advanced + 1 } }
  | .clearing v =>
    { s with
      shared := { s.shared with flag := false }
      phase := .storing v order
      counts := { s.counts with lowered := s.counts.lowered + 1 } }
  | .storing v (f :: left) =>
    { s with
      shared := { s.shared with cells := Function.update s.shared.cells f (v f) }
      phase := .storing v left }
  | .storing v [] =>
    { s with
      shared := { s.shared with version := next s.shared.version }
      phase := .raising
      counts := { s.counts with advanced := s.counts.advanced + 1 }
      published := s.published ++ [v] }
  | .raising =>
    { s with
      shared := { s.shared with flag := true }
      phase := .idle
      counts := { s.counts with raised := s.counts.raised + 1 } }

/-- The next action of the reader. -/
def read (s : State W F α) (load : Load F) : State W F α :=
  let (reader, accepted) := s.reader.next s.shared s.counts load
  { s with
    shared := if s.reader.clears load then { s.shared with flag := false } else s.shared
    reader
    reads := accepted.toList ++ s.reads }

/-- An action of either side. -/
inductive Action (F α : Type) where
  /-- the writer is given a value -/
  | begin : (F → α) → Action F α
  | store : Action F α
  | load : Load F → Action F α

/-- One action. -/
def step (next : W → W) (order : List F) (s : State W F α) : Action F α → State W F α
  | .begin v =>
    match s.phase with
    | .idle => { s with phase := .opening v }
    | _ => s
  | .store => write next order s
  | .load load => read s load

end Model

/-! ## What the writer keeps -/

/-- The cells hold the newest value. -/
def Whole (s : State W F α) : Prop := s.published[s.counts.advanced / 2]? = some s.shared.cells

/-- What holds of the counts, the flag and the cells, by the store that comes next. While the cells
are stored the flag is lowered, and those which are not left to store have their new contents. -/
def AtPhase (s : State W F α) : Phase F α → Prop
  | .idle | .opening _ =>
    s.counts.advanced = 2 * s.counts.raised ∧ s.counts.lowered = s.counts.raised ∧ Whole s
  | .clearing _ =>
    s.counts.advanced = 2 * s.counts.raised + 1 ∧ s.counts.lowered = s.counts.raised
  | .storing v left =>
    s.counts.advanced = 2 * s.counts.raised + 1 ∧ s.counts.lowered = s.counts.raised + 1 ∧
      s.shared.flag = false ∧ ∀ f, f ∉ left → s.shared.cells f = v f
  | .raising =>
    s.counts.advanced = 2 * s.counts.raised + 2 ∧ s.counts.lowered = s.counts.raised + 1 ∧
      s.shared.flag = false ∧ Whole s

/-- The writer's side of the invariant. The version is the first one, advanced as often as was
counted, and half as many values were completed. -/
structure WriterInv (next : W → W) (first : W) (s : State W F α) : Prop where
  version : s.shared.version = next^[s.counts.advanced] first
  length : s.published.length = s.counts.advanced / 2 + 1
  phase : AtPhase s s.phase

namespace WriterInv

variable {next : W → W} {first : W} {s : State W F α}

/-- The flag is raised only between two values, or just after the version was advanced. -/
theorem lowered_of_flag (h : WriterInv next first s) (hflag : s.shared.flag = true) :
    s.counts.lowered = s.counts.raised ∧ s.counts.raised = s.counts.advanced / 2 := by
  have hphase := h.phase
  cases hp : s.phase with
  | idle =>
    rw [hp] at hphase
    obtain ⟨hadvanced, hlowered, -⟩ := hphase
    exact ⟨hlowered, by omega⟩
  | opening v =>
    rw [hp] at hphase
    obtain ⟨hadvanced, hlowered, -⟩ := hphase
    exact ⟨hlowered, by omega⟩
  | clearing v =>
    rw [hp] at hphase
    obtain ⟨hadvanced, hlowered⟩ := hphase
    exact ⟨hlowered, by omega⟩
  | storing v left =>
    rw [hp] at hphase
    exact absurd (hphase.2.2.1.symm.trans hflag) Bool.false_ne_true
  | raising =>
    rw [hp] at hphase
    exact absurd (hphase.2.2.1.symm.trans hflag) Bool.false_ne_true

/-- An even version means that the cells hold one value. -/
theorem whole_of_even (h : WriterInv next first s) (heven : Even s.counts.advanced) : Whole s := by
  have hphase := h.phase
  rw [Nat.even_iff] at heven
  cases hp : s.phase with
  | idle =>
    rw [hp] at hphase
    exact hphase.2.2
  | opening v =>
    rw [hp] at hphase
    exact hphase.2.2
  | clearing v =>
    rw [hp] at hphase
    have := hphase.1
    omega
  | storing v left =>
    rw [hp] at hphase
    have := hphase.1
    omega
  | raising =>
    rw [hp] at hphase
    exact hphase.2.2.2

/-- Raising the flag is the last store of a value, so it was raised as often as values were
completed, or once less. -/
theorem raised_le (h : WriterInv next first s) :
    s.counts.raised ≤ s.counts.advanced / 2 ∧ s.counts.advanced / 2 ≤ s.counts.raised + 1 := by
  have hphase := h.phase
  cases hp : s.phase with
  | idle =>
    rw [hp] at hphase
    have := hphase.1
    omega
  | opening v =>
    rw [hp] at hphase
    have := hphase.1
    omega
  | clearing v =>
    rw [hp] at hphase
    have := hphase.1
    omega
  | storing v left =>
    rw [hp] at hphase
    have := hphase.1
    omega
  | raising =>
    rw [hp] at hphase
    have := hphase.1
    omega

/-- The writer's invariant does not look at the reader, and a lower flag does not break it. -/
theorem of_reader (h : WriterInv next first s) {t : State W F α} (hphase : t.phase = s.phase)
    (hcounts : t.counts = s.counts) (hpublished : t.published = s.published)
    (hversion : t.shared.version = s.shared.version) (hcells : t.shared.cells = s.shared.cells)
    (hflag : s.shared.flag = false → t.shared.flag = false) : WriterInv next first t := by
  obtain ⟨hv, hl, hp⟩ := h
  refine ⟨by rw [hversion, hcounts, hv], by rw [hpublished, hcounts, hl], ?_⟩
  have hwhole : Whole s → Whole t := by
    intro hw
    rwa [Whole, hpublished, hcounts, hcells]
  rw [hphase]
  cases hs : s.phase with
  | idle =>
    rw [hs] at hp
    rw [AtPhase, hcounts]
    exact ⟨hp.1, hp.2.1, hwhole hp.2.2⟩
  | opening v =>
    rw [hs] at hp
    rw [AtPhase, hcounts]
    exact ⟨hp.1, hp.2.1, hwhole hp.2.2⟩
  | clearing v =>
    rw [hs] at hp
    rwa [AtPhase, hcounts]
  | storing v left =>
    rw [hs] at hp
    rw [AtPhase, hcounts, hcells]
    exact ⟨hp.1, hp.2.1, hflag hp.2.2.1, hp.2.2.2⟩
  | raising =>
    rw [hs] at hp
    rw [AtPhase, hcounts]
    exact ⟨hp.1, hp.2.1, hflag hp.2.2.1, hwhole hp.2.2.2⟩

end WriterInv

theorem writerInv_start (shared : Shared W F α) :
    WriterInv next shared.version (start shared) := by
  refine ⟨rfl, ?_, rfl, rfl, ?_⟩
  · simp [start]
  · simp [start, Whole]

/-! ## What an accepted read has -/

/-- Two versions with fewer than `period` advances between them are the same only if there are none.
For a counter of `n` bits the period is `2 ^ n`. -/
def Distinct (next : W → W) (first : W) (period : ℕ) : Prop :=
  ∀ m n, m ≤ n → n - m < period → next^[m] first = next^[n] first → m = n

/-- What an accepted read has: its version is the one that had been reached when it was loaded;
while fewer than `period` advances happened in it and none or both of a value had happened before,
its values are those of the value it is of; in any case the flag was loaded before the next value
lowered it. -/
def ReadOk (next : W → W) (first : W) (period : ℕ) (published : List (F → α)) (r : Read W F α) :
    Prop :=
  r.lowered ≤ r.index ∧ r.version = next^[r.opened] first ∧
    (r.closed - r.opened < period → r.closed = r.opened ∧
      (Even r.opened → ∃ v ∈ published[r.index]?, ∀ f, ∀ a ∈ r.values f, a = v f))

/-- Values that are completed later do not change what a read is of. -/
theorem ReadOk.append {next : W → W} {first : W} {period : ℕ} {published : List (F → α)}
    {r : Read W F α} (h : ReadOk next first period published r) (newer : List (F → α)) :
    ReadOk next first period (published ++ newer) r := by
  refine ⟨h.1, h.2.1, ?_⟩
  intro hshort
  obtain ⟨hclosed, hwhole⟩ := h.2.2 hshort
  refine ⟨hclosed, ?_⟩
  intro heven
  obtain ⟨v, hv, hvalues⟩ := hwhole heven
  refine ⟨v, ?_, hvalues⟩
  have hv' := Option.mem_def.mp hv
  obtain ⟨hlt, -⟩ := List.getElem?_eq_some_iff.mp hv'
  rw [List.getElem?_append_left hlt]
  exact hv

section Steps

variable [DecidableEq F] {next : W → W} {order : List F} {first : W}
  {s : State W F α}

theorem write_idle (hs : s.phase = .idle) : write next order s = s := by
  rw [write, hs]

theorem write_storing_cons {v : F → α} {f : F} {left : List F}
    (hs : s.phase = .storing v (f :: left)) :
    write next order s =
      { s with
        shared := { s.shared with cells := Function.update s.shared.cells f (v f) }
        phase := .storing v left } := by
  rw [write, hs]

/-- A store keeps the writer's invariant, if it stores every cell in the end. -/
theorem WriterInv.write (horder : ∀ f, f ∈ order) (h : WriterInv next first s) :
    WriterInv next first (write next order s) := by
  obtain ⟨hv, hl, hp⟩ := h
  cases hs : s.phase with
  | idle =>
    rw [write_idle hs]
    exact ⟨hv, hl, hp⟩
  | opening v =>
    rw [hs] at hp
    rw [SeqLock.write, hs]
    refine ⟨?_, ?_, ?_, hp.2.1⟩
    · rw [Function.iterate_succ_apply', ← hv]
    · have := hp.1
      simp only [hl]
      omega
    · simp only [hp.1]
  | clearing v =>
    rw [hs] at hp
    rw [SeqLock.write, hs]
    refine ⟨hv, hl, hp.1, ?_, rfl, ?_⟩
    · simp only [hp.2]
    · intro f hf
      exact absurd (horder f) hf
  | storing v left =>
    rw [hs] at hp
    obtain ⟨hadvanced, hlowered, hflag, hcells⟩ := hp
    cases left with
    | nil =>
      rw [SeqLock.write, hs]
      have hlength : s.published.length = (s.counts.advanced + 1) / 2 := by omega
      refine ⟨?_, ?_, ?_, hlowered, hflag, ?_⟩
      · rw [Function.iterate_succ_apply', ← hv]
      · rw [List.length_append, hlength, List.length_singleton]
      · simp only [hadvanced]
      · have hwhole : s.shared.cells = v := funext fun f => hcells f (List.not_mem_nil)
        rw [Whole, ← hlength, List.getElem?_concat_length, hwhole]
    | cons f left =>
      rw [write_storing_cons hs]
      refine ⟨hv, hl, hadvanced, hlowered, hflag, ?_⟩
      intro g hg
      by_cases hgf : g = f
      · rw [hgf]
        exact Function.update_self f (v f) s.shared.cells
      · exact (Function.update_of_ne hgf (v f) s.shared.cells).trans
          (hcells g (List.not_mem_cons_of_ne_of_not_mem hgf hg))
  | raising =>
    rw [hs] at hp
    obtain ⟨hadvanced, hlowered, hflag, hwhole⟩ := hp
    rw [SeqLock.write, hs]
    exact ⟨hv, hl, hadvanced, hlowered, hwhole⟩

/-! ## What the reader keeps -/

/-- What the reader knows, by what it has loaded. If it loaded the version between two values, and
the version was not advanced since then, the cells that it has loaded are still what they were. -/
def AtReader (next : W → W) (first : W) (s : State W F α) : Reader W F α → Prop
  | .idle | .closing => True
  | .flagged lowered => lowered ≤ s.counts.advanced / 2
  | .reading lowered opened version values =>
    lowered ≤ opened / 2 ∧ opened ≤ s.counts.advanced ∧ version = next^[opened] first ∧
      (Even opened → opened = s.counts.advanced →
        ∀ f, ∀ a ∈ values f, a = s.shared.cells f)

/-- The reader's side of the invariant: what the reader has loaded, and what the reads that it
accepted are. -/
structure ReaderInv (next : W → W) (first : W) (period : ℕ) (s : State W F α) : Prop where
  reader : AtReader next first s s.reader
  reads : ∀ r ∈ s.reads, ReadOk next first period s.published r

/-- A store does not change what the reader knows: the version only grows, and the cells change
only while it is odd. -/
theorem AtReader.write (hw : WriterInv next first s) {reader : Reader W F α}
    (h : AtReader next first s reader) : AtReader next first (write next order s) reader := by
  have hgrows : s.counts.advanced ≤ (SeqLock.write next order s).counts.advanced := by
    rw [SeqLock.write]
    split <;> simp
  have hcells : Even s.counts.advanced →
      (SeqLock.write next order s).shared.cells = s.shared.cells := by
    intro heven
    have hphase := hw.phase
    rw [SeqLock.write]
    split
    case h_4 v f left hs =>
      rw [hs] at hphase
      have hodd := hphase.1
      rw [Nat.even_iff] at heven
      omega
    all_goals rfl
  cases reader with
  | idle => trivial
  | flagged lowered => exact Nat.le_trans h (Nat.div_le_div_right hgrows)
  | reading lowered opened version values =>
    obtain ⟨hlowered, hopened, hversion, hvalues⟩ := h
    refine ⟨hlowered, Nat.le_trans hopened hgrows, hversion, ?_⟩
    intro heven hsame
    have hstill : opened = s.counts.advanced := by omega
    rw [hcells (hstill ▸ heven)]
    exact hvalues heven hstill
  | closing => trivial

/-- A store keeps the accepted reads. -/
theorem ReaderInv.write {period : ℕ} (hw : WriterInv next first s)
    (h : ReaderInv next first period s) : ReaderInv next first period (write next order s) := by
  have hpublished : ∃ newer, (SeqLock.write next order s).published = s.published ++ newer := by
    rw [SeqLock.write]
    split
    case h_5 v hs => exact ⟨[v], rfl⟩
    all_goals exact ⟨[], (List.append_nil _).symm⟩
  have hreader : (SeqLock.write next order s).reader = s.reader := by
    rw [SeqLock.write]
    split <;> rfl
  have hreads : (SeqLock.write next order s).reads = s.reads := by
    rw [SeqLock.write]
    split <;> rfl
  refine ⟨?_, ?_⟩
  · rw [hreader]
    exact h.reader.write hw
  · rw [hreads]
    intro r hr
    obtain ⟨newer, hnewer⟩ := hpublished
    rw [hnewer]
    exact (h.reads r hr).append newer

/-! ## Whole reads -/

variable [DecidableEq W]

theorem step_begin_idle (hs : s.phase = .idle) (v : F → α) :
    step next order s (.begin v) = { s with phase := .opening v } := by
  rw [step, hs]

theorem step_begin_busy (hs : s.phase ≠ .idle) (v : F → α) :
    step next order s (.begin v) = s := by
  rw [step]
  split
  · contradiction
  · rfl

/-- A load keeps the writer's invariant. -/
theorem WriterInv.read (h : WriterInv next first s) (load : Load F) :
    WriterInv next first (read s load) := by
  apply h.of_reader
  · rfl
  · rfl
  · rfl
  · rw [SeqLock.read]
    split_ifs <;> rfl
  · rw [SeqLock.read]
    split_ifs <;> rfl
  · intro hflag
    rw [SeqLock.read]
    split_ifs
    · rfl
    · exact hflag

theorem WriterInv.step (horder : ∀ f, f ∈ order) (h : WriterInv next first s) (a : Action F α) :
    WriterInv next first (step next order s a) := by
  cases a with
  | begin v =>
    by_cases hs : s.phase = .idle
    · have hphase := h.phase
      rw [hs] at hphase
      rw [step_begin_idle hs]
      exact ⟨h.version, h.length, hphase⟩
    · rwa [step_begin_busy hs]
  | store => exact h.write horder
  | load load => exact h.read load

/-- The writer's invariant holds along every run. -/
theorem writerInv_run {shared : Shared W F α} (horder : ∀ f, f ∈ order)
    (actions : List (Action F α)) :
    WriterInv next shared.version (actions.foldl (step next order) (start shared)) := by
  refine List.foldlRecOn actions (step next order) (motive := WriterInv next shared.version)
    (writerInv_start shared) ?_
  intro s hw a _
  exact hw.step horder a

/-- A load keeps the accepted reads: what is accepted has one version from its first load to its
last. -/
theorem ReaderInv.read {period : ℕ} (hdistinct : Distinct next first period)
    (hw : WriterInv next first s) (h : ReaderInv next first period s) (load : Load F) :
    ReaderInv next first period (read s load) := by
  obtain ⟨hreader, hreads⟩ := h
  rw [SeqLock.read]
  cases hs : s.reader with
  | idle =>
    rw [hs] at hreader
    cases load with
    | flag =>
      by_cases hflag : s.shared.flag = true
      · obtain ⟨hlowered, hraised⟩ := hw.lowered_of_flag hflag
        rw [Reader.next, if_pos hflag]
        exact ⟨Nat.le_of_eq (hlowered.trans hraised), hreads⟩
      · rw [Reader.next, if_neg hflag]
        exact ⟨trivial, hreads⟩
    | _ => exact ⟨trivial, hreads⟩
  | flagged lowered =>
    rw [hs] at hreader
    cases load with
    | version =>
      refine ⟨⟨hreader, Nat.le_refl _, hw.version, ?_⟩, hreads⟩
      intro _ _ f a ha
      exact absurd ha (Option.not_mem_none a)
    | _ => exact ⟨hreader, hreads⟩
  | reading lowered opened version values =>
    rw [hs] at hreader
    obtain ⟨hlowered, hopened, hversion, hvalues⟩ := hreader
    cases load with
    | cell f =>
      refine ⟨⟨hlowered, hopened, hversion, ?_⟩, hreads⟩
      intro heven hsame g a ha
      by_cases hgf : g = f
      · rw [hgf, Function.update_self] at ha
        rw [hgf, ← Option.mem_some.mp ha]
        rfl
      · rw [Function.update_of_ne hgf] at ha
        exact hvalues heven hsame g a ha
    | check =>
      refine ⟨trivial, ?_⟩
      intro r hr
      rcases List.mem_append.mp hr with hnew | hold
      · simp only [Reader.next, Option.mem_toList, Option.ite_none_right_eq_some,
          Option.some.injEq] at hnew
        obtain ⟨hsame, rfl⟩ := hnew
        refine ⟨hlowered, hversion, ?_⟩
        intro hshort
        have hcodes : next^[opened] first = next^[s.counts.advanced] first := by
          rw [← hversion, ← hw.version, hsame]
        have hnumber : opened = s.counts.advanced := hdistinct _ _ hopened hshort hcodes
        refine ⟨hnumber.symm, ?_⟩
        intro heven
        refine ⟨s.shared.cells, ?_, hvalues heven hnumber⟩
        have hwhole := hw.whole_of_even (hnumber ▸ heven)
        rw [Whole, ← hnumber] at hwhole
        exact hwhole
      · exact hreads r hold
    | _ => exact ⟨⟨hlowered, hopened, hversion, hvalues⟩, hreads⟩
  | closing =>
    rw [hs] at hreader
    cases load with
    | clear => exact ⟨trivial, hreads⟩
    | _ => exact ⟨trivial, hreads⟩

/-- An action keeps the accepted reads. -/
theorem ReaderInv.step {period : ℕ} (hdistinct : Distinct next first period)
    (hw : WriterInv next first s) (h : ReaderInv next first period s) (a : Action F α) :
    ReaderInv next first period (step next order s a) := by
  cases a with
  | begin v =>
    by_cases hs : s.phase = .idle
    · rw [step_begin_idle hs]
      exact ⟨h.reader, h.reads⟩
    · rwa [step_begin_busy hs]
  | store => exact h.write hw
  | load load => exact h.read hdistinct hw load

/-- **Accepted reads are whole.** In every interleaving, from any first content of the record, a
read that was accepted is one complete value or the first content, or the writer was inside a value
when it loaded the version. That the version was the same in the end rules out any store between the
loads, unless it came around in the meantime. -/
theorem reads_run {period : ℕ} {shared : Shared W F α}
    (hdistinct : Distinct next shared.version period) (horder : ∀ f, f ∈ order)
    (actions : List (Action F α)) :
    ∀ r ∈ (actions.foldl (step next order) (start shared)).reads,
      ReadOk next shared.version period
        (actions.foldl (step next order) (start shared)).published r := by
  have hinv : WriterInv next shared.version (actions.foldl (step next order) (start shared)) ∧
      ReaderInv next shared.version period (actions.foldl (step next order) (start shared)) := by
    refine List.foldlRecOn actions (step next order) (motive := fun s =>
      WriterInv next shared.version s ∧ ReaderInv next shared.version period s) ?_ ?_
    · exact ⟨writerInv_start shared, trivial, fun r hr => absurd hr List.not_mem_nil⟩
    · rintro s ⟨hw, hr⟩ a -
      exact ⟨hw.step horder a, hr.step hdistinct hw a⟩
  exact hinv.2.reads

/-! ## Reads in order -/

/-- The indices of accepted reads, the newest first, are at most `bound`, the older ones below. So a
value is accepted again only by the newest read. -/
def Behind (bound : ℕ) (indices : List ℕ) : Prop :=
  (∀ i ∈ indices, i ≤ bound) ∧ ∀ i ∈ indices.tail, i < bound

theorem Behind.mono {b b' : ℕ} {indices : List ℕ} (h : Behind b indices) (hle : b ≤ b') :
    Behind b' indices := by
  refine ⟨?_, ?_⟩
  · intro i hi
    exact Nat.le_trans (h.1 i hi) hle
  · intro i hi
    exact Nat.lt_of_lt_of_le (h.2 i hi) hle

/-- Of the indices behind a bound only the newest can be the bound. -/
theorem Behind.count_le {b : ℕ} {indices : List ℕ} (h : Behind b indices) :
    indices.count b ≤ 1 := by
  cases indices with
  | nil => simp
  | cons i indices =>
    have htail : indices.count b = 0 :=
      List.count_eq_zero.mpr fun hb => Nat.lt_irrefl b (h.2 b hb)
    rw [List.count_cons, htail]
    split <;> simp

/-- The indices of the accepted reads, the newest first. -/
def indices (s : State W F α) : List ℕ := s.reads.map Read.index

/-- There was a raised flag for one more read than were accepted, and after all but the newest. -/
def Room (s : State W F α) : Prop :=
  Behind s.counts.raised (indices s) ∧ (indices s).length ≤ s.counts.raised

/-- Whether there is room for the read in progress. -/
def RoomAt (s : State W F α) : Reader W F α → Prop
  | .idle => s.shared.flag = true → Room s
  | .flagged _ => Room s
  | .reading _ opened _ _ => Room s ∧ Behind (opened / 2) (indices s) ∧
      opened ≤ s.counts.advanced
  | .closing => True

/-- The accepted reads are in order, at most two of one value, and not more than the flag was
raised, counting the flag at the start. -/
structure OrderInv (s : State W F α) : Prop where
  sorted : (indices s).Pairwise (· ≥ ·)
  twice : ∀ k, (indices s).count k ≤ 2
  length : (indices s).length ≤ s.counts.raised + 1
  behind : Behind (s.counts.raised + 1) (indices s)
  room : RoomAt s s.reader

omit [DecidableEq W] in
/-- A store either leaves the counts that matter as they are, and the flag not higher, or raises
the flag once more. -/
theorem OrderInv.write (h : OrderInv s) : OrderInv (write next order s) := by
  obtain ⟨hsorted, htwice, hlength, hbehind, hroom⟩ := h
  have hgrows : s.counts.raised ≤ (SeqLock.write next order s).counts.raised ∧
      s.counts.advanced ≤ (SeqLock.write next order s).counts.advanced := by
    rw [SeqLock.write]
    split <;> simp
  have hreads : (SeqLock.write next order s).reads = s.reads := by
    rw [SeqLock.write]
    split <;> rfl
  have hreader : (SeqLock.write next order s).reader = s.reader := by
    rw [SeqLock.write]
    split <;> rfl
  have hindices : indices (SeqLock.write next order s) = indices s := by
    rw [indices, hreads, indices]
  have hflag : (SeqLock.write next order s).shared.flag = true →
      s.shared.flag = true ∨ (SeqLock.write next order s).counts.raised = s.counts.raised + 1 := by
    rw [SeqLock.write]
    split
    case h_3 => exact fun hraised => absurd hraised Bool.false_ne_true
    case h_6 => exact fun _ => .inr rfl
    all_goals exact .inl
  have hkeep : Room s → Room (SeqLock.write next order s) := by
    rintro ⟨hroom, hlen⟩
    rw [Room, hindices]
    exact ⟨hroom.mono hgrows.1, Nat.le_trans hlen hgrows.1⟩
  refine ⟨?_, ?_, ?_, ?_, ?_⟩
  · rwa [hindices]
  · rwa [hindices]
  · rw [hindices]
    exact Nat.le_trans hlength (Nat.succ_le_succ hgrows.1)
  · rw [hindices]
    exact hbehind.mono (Nat.succ_le_succ hgrows.1)
  · rw [hreader]
    cases hs : s.reader with
    | idle =>
      rw [hs] at hroom
      intro hnow
      rcases hflag hnow with hbefore | hraised
      · exact hkeep (hroom hbefore)
      · rw [Room, hindices, hraised]
        exact ⟨hbehind, hlength⟩
    | flagged lowered =>
      rw [hs] at hroom
      exact hkeep hroom
    | reading lowered opened version values =>
      rw [hs] at hroom
      obtain ⟨hroom, hopened, hadvanced⟩ := hroom
      refine ⟨hkeep hroom, ?_, Nat.le_trans hadvanced hgrows.2⟩
      rwa [hindices]
    | closing => trivial

/-- A read that is accepted has an index above those of all but the newest read, and not below
that one's. -/
theorem OrderInv.read (hw : WriterInv next first s) (h : OrderInv s) (load : Load F) :
    OrderInv (read s load) := by
  obtain ⟨hsorted, htwice, hlength, hbehind, hroom⟩ := h
  rw [SeqLock.read]
  cases hs : s.reader with
  | idle =>
    rw [hs] at hroom
    cases load with
    | flag =>
      refine ⟨hsorted, htwice, hlength, hbehind, ?_⟩
      by_cases hflag : s.shared.flag = true
      · rw [Reader.next, if_pos hflag]
        exact hroom hflag
      · rw [Reader.next, if_neg hflag]
        exact fun hflag' => absurd hflag' hflag
    | _ => exact ⟨hsorted, htwice, hlength, hbehind, hroom⟩
  | flagged lowered =>
    rw [hs] at hroom
    cases load with
    | version =>
      refine ⟨hsorted, htwice, hlength, hbehind, hroom, ?_, Nat.le_refl _⟩
      exact hroom.1.mono hw.raised_le.1
    | _ => exact ⟨hsorted, htwice, hlength, hbehind, hroom⟩
  | reading lowered opened version values =>
    rw [hs] at hroom
    obtain ⟨⟨hraised, hlen⟩, hopened, hadvanced⟩ := hroom
    cases load with
    | cell f => exact ⟨hsorted, htwice, hlength, hbehind, ⟨hraised, hlen⟩, hopened, hadvanced⟩
    | check =>
      by_cases hsame : s.shared.version = version
      · rw [Reader.next, if_pos hsame]
        have hindex : opened / 2 ≤ s.counts.raised + 1 :=
          Nat.le_trans (Nat.div_le_div_right hadvanced) hw.raised_le.2
        refine ⟨?_, ?_, Nat.succ_le_succ hlen, ⟨?_, ?_⟩, trivial⟩
        · exact List.pairwise_cons.mpr ⟨hopened.1, hsorted⟩
        · intro k
          change List.count k (opened / 2 :: indices s) ≤ 2
          rw [List.count_cons]
          split
          next heq =>
            obtain rfl := beq_iff_eq.mp heq
            exact Nat.succ_le_succ hopened.count_le
          next => exact htwice k
        · exact List.forall_mem_cons.mpr ⟨hindex, hbehind.1⟩
        · intro i hi
          exact Nat.lt_succ_of_le (hraised.1 i hi)
      · rw [Reader.next, if_neg hsame]
        exact ⟨hsorted, htwice, hlength, hbehind, trivial⟩
    | _ => exact ⟨hsorted, htwice, hlength, hbehind, ⟨hraised, hlen⟩, hopened, hadvanced⟩
  | closing =>
    cases load with
    | clear => exact ⟨hsorted, htwice, hlength, hbehind, fun hflag => nomatch hflag⟩
    | _ => exact ⟨hsorted, htwice, hlength, hbehind, trivial⟩

theorem OrderInv.step (hw : WriterInv next first s) (h : OrderInv s) (a : Action F α) :
    OrderInv (step next order s a) := by
  cases a with
  | begin v =>
    by_cases hs : s.phase = .idle
    · rw [step_begin_idle hs]
      exact ⟨h.sorted, h.twice, h.length, h.behind, h.room⟩
    · rwa [step_begin_busy hs]
  | store => exact h.write
  | load load => exact h.read hw load

variable (next) in
/-- **Reads come in order.** In every interleaving no value is read after a newer one, none is
accepted more than twice, and the number of accepted reads is at most one more than the number of
values that were completed. -/
theorem order_run (shared : Shared W F α) (horder : ∀ f, f ∈ order)
    (actions : List (Action F α)) :
    let s := actions.foldl (step next order) (start shared)
    (indices s).Pairwise (· ≥ ·) ∧ (∀ k, (indices s).count k ≤ 2) ∧
      (indices s).length ≤ s.published.length := by
  have hinv : WriterInv next shared.version (actions.foldl (step next order) (start shared)) ∧
      OrderInv (actions.foldl (step next order) (start shared)) := by
    refine List.foldlRecOn actions (step next order) (motive := fun s =>
      WriterInv next shared.version s ∧ OrderInv s) ?_ ?_
    · refine ⟨writerInv_start shared, .nil, fun _ => Nat.zero_le 2, Nat.zero_le _, ?_, ?_⟩
      · exact ⟨fun i hi => absurd hi List.not_mem_nil, fun i hi => absurd hi List.not_mem_nil⟩
      · intro _
        exact ⟨⟨fun i hi => absurd hi List.not_mem_nil, fun i hi => absurd hi List.not_mem_nil⟩,
          Nat.le_refl 0⟩
    · rintro s ⟨hw, ho⟩ a -
      exact ⟨hw.step horder a, ho.step hw a⟩
  obtain ⟨hw, ho⟩ := hinv
  refine ⟨ho.sorted, ho.twice, ?_⟩
  rw [hw.length]
  exact Nat.le_trans ho.length (Nat.succ_le_succ hw.raised_le.1)

end Steps

end SeqLock
