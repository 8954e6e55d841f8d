import ExternalServo.Tmv

/-!
# The delay filters (`filter.c`, `mave.c`, `mmedian.c`)

Two filters behind one interface. Both keep the samples in a circular buffer that
was allocated once, with the length given to the constructor:

* `Mave` — the moving average carries the running `sum` of the buffer and corrects
  it by the slot it overwrites;
* `Mmedian` — the moving median carries `order`, the slots in use arranged by value,
  and moves one entry of it by hand at each sample.

Array accesses, remainders and quotients can fault, so sampling returns in
`Except Fault`. The loops of the median filter are the three functions
`orderFind`, `orderClose` (both in `orderRoom`) and `orderInsert`.
-/

namespace ExternalServo

open CArith

/-! ## Moving average -/

/-- `struct mave`. The running sum is corrected by the slot that a sample overwrites, so that it has
to agree with the slots at all times; a slot that was never written counts as the zero it was
allocated with. -/
structure Mave where
  /-- samples held -/
  cnt : Nat
  /-- length of the filter -/
  len : Nat
  /-- slot of the next sample -/
  index : Nat
  /-- running sum of the slots -/
  sum : Tmv
  /-- the slots -/
  val : List Tmv
  deriving DecidableEq

/-- `mave_accumulate` -/
def maveAccumulate (m : Mave) (val : Tmv) : Except Fault (Tmv × Mave) := do
  let old ← readAt m.val m.index
  let sum := tmvSub m.sum old
  let vals ← writeAt m.val m.index val
  let index ← remainder (1 + m.index) m.len
  let sum := tmvAdd sum val
  let cnt := if m.cnt < m.len then m.cnt + 1 else m.cnt
  let mean ← tmvDiv sum cnt
  return (mean, { m with cnt, index, sum, val := vals })

/-- `mave_reset` -/
def maveReset (m : Mave) : Except Fault Mave := do
  let vals ← memset0 tmvZero m.val m.len
  return { m with cnt := 0, index := 0, sum := tmvZero, val := vals }

/-- Bytes of a `struct mave`. -/
def sizeofMave : Nat := 56

/-- Bytes of a `tmv_t`. -/
def sizeofTmv : Nat := 8

/-- `mave_create`. The length is not checked; a negative one asks for more memory than there is. -/
def maveCreate (grants : Nat → Bool) (length : Int) : Option Mave :=
  if !calloc grants sizeofMave then none
  else if !calloc grants (arraySize length sizeofTmv) then none
  else some
    { cnt := 0, len := length.toNat, index := 0, sum := tmvZero,
      val := List.replicate length.toNat tmvZero }

/-! ## Moving median -/

/-- `struct mmedian`. The samples stay in the slots that they were written to; `order` lists the
slots in use by their values, and only its first `cnt` entries mean anything. -/
structure Mmedian where
  /-- samples held -/
  cnt : Nat
  /-- length of the filter -/
  len : Nat
  /-- slot of the next sample -/
  index : Nat
  /-- slots sorted by value -/
  order : List Nat
  /-- values stored in circular buffer -/
  samples : List Tmv
  deriving DecidableEq

/-- The search for the replaced slot: the first position from `i` on, of `n` positions, whose entry
is `index`; past the last position if there is none, as the loop of the source then ends at `cnt`.
-/
def orderFind (order : List Nat) (index : Nat) : Nat → Nat → Except Fault Nat
  | 0, i => .ok i
  | n + 1, i => do
    let o ← readAt order i
    if o = index then return i
    orderFind order index n (i + 1)

/-- The gap at `i` is closed: each of the `n` entries after it moves one position down. -/
def orderClose : Nat → Nat → List Nat → Except Fault (List Nat)
  | 0, _, order => .ok order
  | n + 1, i, order => do
    let o ← readAt order (i + 1)
    let order ← writeAt order i o
    orderClose n (i + 1) order

/-- The new slot is inserted: entries below `i` with larger values move one position up until one is
found that is not larger. Of equal values the new one comes last. -/
def orderInsert (samples : List Tmv) (index : Nat) : Nat → List Nat → Except Fault (List Nat)
  | 0, order => writeAt order 0 index
  | i + 1, order => do
    let o ← readAt order i
    let below ← readAt samples o
    let new ← readAt samples index
    if tmvCmp below new ≤ 0 then writeAt order (i + 1) index
    else
      let order ← writeAt order (i + 1) o
      orderInsert samples index i order

/-- The count after the next sample, and the order without the slot the sample replaces. -/
def orderRoom (m : Mmedian) : Except Fault (Nat × List Nat) :=
  if m.cnt < m.len then .ok (m.cnt + 1, m.order)
  else do
    let i ← orderFind m.order m.index m.cnt 0
    let order ← orderClose (m.cnt - (i + 1)) i m.order
    return (m.cnt, order)

/-- The sample at a position of the order. -/
def sampleAt (samples : List Tmv) (order : List Nat) (i : Nat) : Except Fault Tmv := do
  let o ← readAt order i
  readAt samples o

/-- `mmedian_sample` -/
def mmedianSample (m : Mmedian) (sample : Tmv) : Except Fault (Tmv × Mmedian) := do
  let samples ← writeAt m.samples m.index sample
  let (cnt, order) ← orderRoom m
  let order ← orderInsert samples m.index (cnt - 1) order
  let index ← remainder (1 + m.index) m.len
  let m' : Mmedian := { m with cnt, index, order, samples }
  if cnt % 2 ≠ 0 then
    let median ← sampleAt samples order (cnt / 2)
    return (median, m')
  else
    let lo ← sampleAt samples order (cnt / 2 - 1)
    let hi ← sampleAt samples order (cnt / 2)
    let median ← tmvDiv (tmvAdd lo hi) 2
    return (median, m')

/-- `mmedian_reset`; the arrays keep their contents. -/
def mmedianReset (m : Mmedian) : Mmedian := { m with cnt := 0, index := 0 }

/-- Bytes of a `struct mmedian`. -/
def sizeofMmedian : Nat := 56

/-- Bytes of an `int`. -/
def sizeofInt : Nat := 4

/-- `mmedian_create` -/
def mmedianCreate (grants : Nat → Bool) (length : Int) : Option Mmedian :=
  if length < 1 then none
  else if !calloc grants sizeofMmedian then none
  else if !calloc grants (arraySize length sizeofInt) then none
  else if !calloc grants (arraySize length sizeofTmv) then none
  else some
    { cnt := 0, len := length.toNat, index := 0, order := List.replicate length.toNat 0,
      samples := List.replicate length.toNat tmvZero }

/-! ## The interface -/

/-- `struct filter`, by the filter behind it: the constructor stands for the table of functions,
which `container_of` leads back to the record. -/
inductive Filter : Type where
  /-- a moving average -/
  | mave : Mave → Filter
  /-- a moving median -/
  | mmedian : Mmedian → Filter
  deriving DecidableEq

/-- `enum filter_type`. -/
inductive FilterType : Type where
  /-- `FILTER_MOVING_AVERAGE` -/
  | movingAverage : FilterType
  /-- `FILTER_MOVING_MEDIAN` -/
  | movingMedian : FilterType
  deriving DecidableEq

/-- The filter type with a given number; an `enum` can hold others. -/
def FilterType.ofRaw (raw : UInt32) : Option FilterType :=
  if raw = 0 then some .movingAverage else if raw = 1 then some .movingMedian else none

/-- `filter_create` -/
def filterCreate (grants : Nat → Bool) (type : UInt32) (length : Int) : Option Filter :=
  match FilterType.ofRaw type with
  | some .movingAverage => (maveCreate grants length).map .mave
  | some .movingMedian => (mmedianCreate grants length).map .mmedian
  | none => none

/-- `filter_sample` -/
def filterSample (filter : Filter) (sample : Tmv) : Except Fault (Tmv × Filter) :=
  match filter with
  | .mave m => do
    let (mean, m) ← maveAccumulate m sample
    return (mean, .mave m)
  | .mmedian m => do
    let (median, m) ← mmedianSample m sample
    return (median, .mmedian m)

/-- `filter_reset` -/
def filterReset (filter : Filter) : Except Fault Filter :=
  match filter with
  | .mave m => do
    let m ← maveReset m
    return .mave m
  | .mmedian m => return .mmedian (mmedianReset m)

end ExternalServo
