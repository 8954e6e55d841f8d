import Mathlib.Data.List.Infix
import ExternalServo.SeqLock
import ExternalServo.Servos

/-!
# The shared memory segment, store by store (`ntpshm.c`)

`ntpshm_sample` is not atomic for the process that reads the segment. Here each of its stores is
a step, in the order of the program, and so is each load of a reader that follows the comment of
`struct shmTime` for mode 1: if `valid` is set, it uses the values if `count` is the same before
and after it read them, and it clears `valid`.

The system refines the record under a version counter of `SeqLock`: `count` is the version,
`valid` the flag, and a store of a field takes its value from the arguments of the call, though
the microseconds are computed from the nanoseconds in the segment.
-/

namespace ExternalServo

open CArith

/-- The fields of the segment a reader uses. -/
inductive ShmField where
  | clockTimeStampSec | clockTimeStampNSec | clockTimeStampUSec
  | receiveTimeStampSec | receiveTimeStampNSec | receiveTimeStampUSec
  | precision | leap
  deriving DecidableEq

/-- The value of a field. -/
def ShmField.load (shm : ShmTime) : ShmField → Int
  | .clockTimeStampSec => shm.clockTimeStampSec
  | .clockTimeStampNSec => shm.clockTimeStampNSec
  | .clockTimeStampUSec => shm.clockTimeStampUSec
  | .receiveTimeStampSec => shm.receiveTimeStampSec
  | .receiveTimeStampNSec => shm.receiveTimeStampNSec
  | .receiveTimeStampUSec => shm.receiveTimeStampUSec
  | .precision => shm.precision
  | .leap => shm.leap

/-- A store of `ntpshm_sample`. Each assignment of the source is one, and the loads of the other
process can fall between any two of them. -/
inductive ShmStore where
  /-- `mode = 1` -/
  | mode : ShmStore
  /-- `count++` before the fields -/
  | countBefore : ShmStore
  /-- `valid = 0` -/
  | invalid : ShmStore
  | field : ShmField → ShmStore
  /-- `count++` after the fields -/
  | countAfter : ShmStore
  /-- `valid = 1` -/
  | valid : ShmStore

/-- The fields in the order they are stored. -/
def shmFields : List ShmField :=
  [.clockTimeStampSec, .clockTimeStampNSec, .clockTimeStampUSec, .receiveTimeStampSec,
    .receiveTimeStampNSec, .receiveTimeStampUSec, .precision, .leap]

/-- The stores of `ntpshm_sample`, in order. -/
def shmStores : List ShmStore :=
  [.mode, .countBefore, .invalid] ++ shmFields.map .field ++ [.countAfter, .valid]

/-- A call of `ntpshm_sample`, with the leap the servo had. -/
structure ShmCall where
  leap : Int
  offset : Int64
  localTs : UInt64

/-- `clock_ts` -/
def ShmCall.clockTs (c : ShmCall) : UInt64 := c.localTs - c.offset.toUInt64

/-- The store of a field. -/
def ShmField.store (c : ShmCall) (shm : ShmTime) : ShmField → ShmTime
  | .clockTimeStampSec => { shm with clockTimeStampSec := c.clockTs.toNat / NS_PER_SEC }
  | .clockTimeStampNSec => { shm with clockTimeStampNSec := c.clockTs.toNat % NS_PER_SEC }
  | .clockTimeStampUSec => { shm with clockTimeStampUSec := shm.clockTimeStampNSec / 1000 }
  | .receiveTimeStampSec => { shm with receiveTimeStampSec := c.localTs.toNat / NS_PER_SEC }
  | .receiveTimeStampNSec => { shm with receiveTimeStampNSec := c.localTs.toNat % NS_PER_SEC }
  | .receiveTimeStampUSec => { shm with receiveTimeStampUSec := shm.receiveTimeStampNSec / 1000 }
  | .precision => { shm with precision := -30 }
  | .leap =>
    { shm with
      leap := if c.leap = -1 then LEAP_DELETE else if c.leap = 1 then LEAP_INSERT else LEAP_NORMAL }

/-- A store of a call. -/
def ShmStore.apply (c : ShmCall) (shm : ShmTime) : ShmStore → ShmTime
  | .mode => { shm with mode := 1 }
  | .countBefore | .countAfter => { shm with count := shm.count + 1 }
  | .invalid => { shm with valid := 0 }
  | .field f => f.store c shm
  | .valid => { shm with valid := 1 }

/-- **All stores of a call are `ntpshm_sample`**: nothing is left out and the order is that of the
source, so the protocol is about the function and not about a description of it. -/
theorem foldl_shmStores {D : Type} [CDouble D] (servo : ServoBase D) (s : NtpshmServo)
    (offset : Int64) (localTs : UInt64) (weight : D) :
    shmStores.foldl (ShmStore.apply ⟨s.leap, offset, localTs⟩) s.shm =
      (ntpshmSample servo s offset localTs weight).2.2.shm := rfl

/-- The value a field has after a call. -/
def ShmCall.value (c : ShmCall) : ShmField → Int
  | .clockTimeStampSec => ((c.clockTs.toNat / NS_PER_SEC : ℕ) : Int)
  | .clockTimeStampNSec => ((c.clockTs.toNat % NS_PER_SEC : ℕ) : Int)
  | .clockTimeStampUSec => ((c.clockTs.toNat % NS_PER_SEC / 1000 : ℕ) : Int)
  | .receiveTimeStampSec => ((c.localTs.toNat / NS_PER_SEC : ℕ) : Int)
  | .receiveTimeStampNSec => ((c.localTs.toNat % NS_PER_SEC : ℕ) : Int)
  | .receiveTimeStampUSec => ((c.localTs.toNat % NS_PER_SEC / 1000 : ℕ) : Int)
  | .precision => -30
  | .leap => if c.leap = -1 then LEAP_DELETE else if c.leap = 1 then LEAP_INSERT else LEAP_NORMAL

/-- What a call leaves in the segment is the value of each field. -/
theorem load_ntpshmSample {D : Type} [CDouble D] (servo : ServoBase D) (s : NtpshmServo)
    (offset : Int64) (localTs : UInt64) (weight : D) (f : ShmField) :
    f.load (ntpshmSample servo s offset localTs weight).2.2.shm =
      ShmCall.value ⟨s.leap, offset, localTs⟩ f := by
  cases f <;> rfl

/-! ## The servo and a reader -/

/-- What the two processes share, as a versioned record: `count` is the version, `valid` the flag,
and the fields are the cells. -/
def ShmTime.shared (shm : ShmTime) : SeqLock.Shared Int32 ShmField Int :=
  { version := shm.count, cells := fun f => f.load shm, flag := decide (shm.valid ≠ 0) }

/-- The servo in a call with some stores left, and the reader. The servo's process runs one call
after the other; the reader is described by its loads alone. -/
structure ShmSystem where
  servo : NtpshmServo
  call : ShmCall
  pending : List ShmStore
  reader : SeqLock.Reader Int32 ShmField Int
  counts : SeqLock.Counts
  /-- the calls whose `count` was counted twice, the oldest first -/
  written : List ShmCall
  /-- the reads that were accepted, the newest first -/
  reads : List (SeqLock.Read Int32 ShmField Int)

/-- The segment as it was found, and a servo that has not been called. -/
def ShmSystem.attach (servo : NtpshmServo) : ShmSystem :=
  { servo, call := ⟨0, 0, 0⟩, pending := [], reader := .idle, counts := ⟨0, 0, 0⟩, written := [],
    reads := [] }

/-- A step of the servo's process or of the reader. -/
inductive ShmAction where
  /-- `ntpshm_sample` is called -/
  | sample : Int64 → UInt64 → ShmAction
  /-- `ntpshm_leap` -/
  | leap : Int → ShmAction
  /-- the next store of the call -/
  | store : ShmAction
  | load : SeqLock.Load ShmField → ShmAction

/-- The counts after a store. -/
def ShmStore.count (counts : SeqLock.Counts) : ShmStore → SeqLock.Counts
  | .countBefore | .countAfter => { counts with advanced := counts.advanced + 1 }
  | .invalid => { counts with lowered := counts.lowered + 1 }
  | .valid => { counts with raised := counts.raised + 1 }
  | .mode | .field _ => counts

/-- The calls that are written, after a store. -/
def ShmStore.complete (call : ShmCall) (written : List ShmCall) : ShmStore → List ShmCall
  | .countAfter => written ++ [call]
  | _ => written

/-- One step. The servo's process is sequential: while stores are left, nothing is called. -/
def ShmSystem.step (c : ShmSystem) : ShmAction → ShmSystem
  | .sample offset localTs =>
    match c.pending with
    | [] => { c with call := ⟨c.servo.leap, offset, localTs⟩, pending := shmStores }
    | _ :: _ => c
  | .leap leap =>
    match c.pending with
    | [] => { c with servo := ntpshmLeap c.servo leap }
    | _ :: _ => c
  | .store =>
    match c.pending with
    | [] => c
    | store :: pending =>
      { c with
        servo := { c.servo with shm := store.apply c.call c.servo.shm }
        pending
        counts := store.count c.counts
        written := store.complete c.call c.written }
  | .load load =>
    let (reader, accepted) := c.reader.next c.servo.shm.shared c.counts load
    { c with
      servo :=
        if c.reader.clears load then { c.servo with shm := { c.servo.shm with valid := 0 } }
        else c.servo
      reader
      reads := accepted.toList ++ c.reads }

/-! ## The refinement -/

/-- The stores that are left, by where the record's writer is. The store of `mode` changes nothing
that is shared, so the version is advanced next before it and after it. -/
def PendingAt (c : ShmSystem) : SeqLock.Phase ShmField Int → Prop
  | .idle => c.pending = []
  | .opening v => (c.pending = shmStores ∨ c.pending = shmStores.tail) ∧ v = c.call.value
  | .clearing v => c.pending = shmStores.tail.tail ∧ v = c.call.value
  | .storing v left =>
    c.pending = left.map .field ++ [.countAfter, .valid] ∧ left ∈ shmFields.tails ∧
      v = c.call.value
  | .raising => c.pending = [.valid]

/-- The system of the segment refines the versioned record: what is shared, what the reader has
loaded and what it accepted are the same, and each completed call is a value of the record. -/
structure Refines (c : ShmSystem) (first : ShmField → Int) (s : SeqLock.State Int32 ShmField Int) :
    Prop where
  shared : s.shared = c.servo.shm.shared
  reader : s.reader = c.reader
  counts : s.counts = c.counts
  published : s.published = first :: c.written.map ShmCall.value
  reads : s.reads = c.reads
  phase : PendingAt c s.phase

theorem forall_mem_shmFields : ∀ f, f ∈ shmFields := by
  intro f
  cases f <;> decide

/-- The microseconds are stored after the nanoseconds they are computed from. -/
theorem not_mem_of_mem_tails : ∀ left ∈ shmFields.tails,
    (left.head? = some .clockTimeStampUSec → .clockTimeStampNSec ∉ left) ∧
      (left.head? = some .receiveTimeStampUSec → .receiveTimeStampNSec ∉ left) := by
  decide

/-- A store of a field gives it its value and leaves the others, if the fields stored before it
have theirs. -/
theorem shared_store {call : ShmCall} {shm : ShmTime} {f : ShmField} {left : List ShmField}
    (htails : f :: left ∈ shmFields.tails)
    (hstored : ∀ g, g ∉ f :: left → g.load shm = call.value g) :
    (f.store call shm).shared =
      { shm.shared with cells := Function.update shm.shared.cells f (call.value f) } := by
  obtain ⟨hclock, hreceive⟩ := not_mem_of_mem_tails _ htails
  have hcells : ∀ g, g.load (f.store call shm) =
      Function.update shm.shared.cells f (call.value f) g := by
    intro g
    by_cases hgf : g = f
    · rw [hgf, Function.update_self]
      cases f with
      | clockTimeStampUSec =>
        have hnsec := hstored _ (hclock rfl)
        simp only [ShmField.load, ShmCall.value, Int.natCast_inj] at hnsec
        simp only [ShmField.load, ShmField.store, ShmCall.value, hnsec]
      | receiveTimeStampUSec =>
        have hnsec := hstored _ (hreceive rfl)
        simp only [ShmField.load, ShmCall.value, Int.natCast_inj] at hnsec
        simp only [ShmField.load, ShmField.store, ShmCall.value, hnsec]
      | _ => rfl
    · rw [Function.update_of_ne hgf]
      cases f <;> cases g <;> first | rfl | exact absurd rfl hgf
  rw [ShmTime.shared, funext hcells]
  cases f <;> rfl

section Refinement

variable {c : ShmSystem} {first : ShmField → Int} {s : SeqLock.State Int32 ShmField Int}

/-- The store that comes next. -/
theorem step_store_cons {store : ShmStore} {pending : List ShmStore}
    (h : c.pending = store :: pending) :
    c.step .store =
      { c with
        servo := { c.servo with shm := store.apply c.call c.servo.shm }
        pending
        counts := store.count c.counts
        written := store.complete c.call c.written } := by
  rw [ShmSystem.step, h]

/-- Nothing is left to store only between two calls. -/
theorem Refines.idle_of_nil (h : Refines c first s) (hnil : c.pending = []) : s.phase = .idle := by
  have hphase := h.phase
  cases hp : s.phase with
  | idle => rfl
  | opening v =>
    rw [hp] at hphase
    rcases hphase.1 with hall | htail
    · exact absurd (hall.symm.trans hnil) (List.cons_ne_nil _ _)
    · exact absurd (htail.symm.trans hnil) (List.cons_ne_nil _ _)
  | clearing v =>
    rw [hp] at hphase
    exact absurd (hphase.1.symm.trans hnil) (List.cons_ne_nil _ _)
  | storing v left =>
    rw [hp] at hphase
    exact absurd (hphase.1.symm.trans hnil)
      (List.append_ne_nil_of_right_ne_nil _ (List.cons_ne_nil _ _))
  | raising =>
    rw [hp] at hphase
    exact absurd (hphase.symm.trans hnil) (List.cons_ne_nil _ _)

/-- A store of the servo is a store of the record, or none for `mode`. -/
theorem Refines.store {v₀ : Int32} (hw : SeqLock.WriterInv (· + 1) v₀ s) (h : Refines c first s) :
    Refines (c.step .store) first s ∨
      Refines (c.step .store) first (SeqLock.write (· + 1) shmFields s) := by
  obtain ⟨hshared, hreader, hcounts, hpublished, hreads, hphase⟩ := h
  cases hp : s.phase with
  | idle =>
    rw [hp] at hphase
    have hstay : c.step .store = c := by rw [ShmSystem.step, hphase]
    rw [hstay]
    exact .inl ⟨hshared, hreader, hcounts, hpublished, hreads, hp ▸ hphase⟩
  | opening v =>
    rw [hp] at hphase
    obtain ⟨hall | htail, hv⟩ := hphase
    · rw [step_store_cons hall]
      refine .inl ⟨hshared, hreader, hcounts, hpublished, hreads, ?_⟩
      rw [hp]
      exact ⟨.inr rfl, hv⟩
    · rw [step_store_cons htail, SeqLock.write, hp]
      refine .inr ⟨?_, hreader, ?_, hpublished, hreads, rfl, hv⟩
      · simp only [hshared]
        rfl
      · simp only [hcounts]
        rfl
  | clearing v =>
    rw [hp] at hphase
    obtain ⟨hpending, hv⟩ := hphase
    rw [step_store_cons hpending, SeqLock.write, hp]
    refine .inr ⟨?_, hreader, ?_, hpublished, hreads, rfl, by decide, hv⟩
    · simp only [hshared]
      rfl
    · simp only [hcounts]
      rfl
  | storing v left =>
    have hstored := hw.phase
    rw [hp] at hphase hstored
    obtain ⟨hpending, htails, hv⟩ := hphase
    obtain ⟨-, -, -, hcells⟩ := hstored
    cases left with
    | nil =>
      rw [step_store_cons hpending, SeqLock.write, hp]
      refine .inr ⟨?_, hreader, ?_, ?_, hreads, rfl⟩
      · simp only [hshared]
        rfl
      · simp only [hcounts]
        rfl
      · simp only [hpublished, hv, ShmStore.complete, List.map_append, List.map_cons, List.map_nil,
          List.cons_append]
    | cons f left =>
      rw [step_store_cons hpending, SeqLock.write_storing_cons hp]
      rw [hshared, hv] at hcells
      refine .inr ⟨?_, hreader, hcounts, hpublished, hreads, rfl, ?_, hv⟩
      · simp only [hshared, hv]
        exact (shared_store htails hcells).symm
      · exact (List.mem_tails _ _).mpr
          ((List.suffix_cons f left).trans ((List.mem_tails _ _).mp htails))
  | raising =>
    rw [hp] at hphase
    rw [step_store_cons hphase, SeqLock.write, hp]
    refine .inr ⟨?_, hreader, ?_, hpublished, hreads, rfl⟩
    · simp only [hshared]
      rfl
    · simp only [hcounts]
      rfl

/-- A load is a load of the record. -/
theorem Refines.load (h : Refines c first s) (load : SeqLock.Load ShmField) :
    Refines (c.step (.load load)) first (SeqLock.read s load) := by
  obtain ⟨hshared, hreader, hcounts, hpublished, hreads, hphase⟩ := h
  rw [ShmSystem.step, SeqLock.read, hshared, hreader, hcounts, hreads]
  refine ⟨?_, rfl, rfl, hpublished, rfl, ?_⟩
  · split_ifs <;> rfl
  · have hpending : ∀ c' : ShmSystem, c'.pending = c.pending → c'.call = c.call →
        PendingAt c' s.phase := by
      intro c' hpending hcall
      cases hp : s.phase with
      | _ =>
        rw [hp] at hphase
        simpa only [PendingAt, hpending, hcall] using hphase
    exact hpending _ rfl rfl

/-- Every step is a few actions on the record: a call begins a value, a store of `mode` and a leap
are none, and every other store and load is one. -/
theorem Refines.step {v₀ : Int32} (hw : SeqLock.WriterInv (· + 1) v₀ s) (h : Refines c first s)
    (a : ShmAction) :
    ∃ actions : List (SeqLock.Action ShmField Int),
      Refines (c.step a) first (actions.foldl (SeqLock.step (· + 1) shmFields) s) := by
  cases a with
  | sample offset localTs =>
    cases hpending : c.pending with
    | nil =>
      refine ⟨[.begin (ShmCall.value ⟨c.servo.leap, offset, localTs⟩)], ?_⟩
      rw [ShmSystem.step, hpending, List.foldl_cons, List.foldl_nil,
        SeqLock.step_begin_idle (h.idle_of_nil hpending)]
      exact ⟨h.shared, h.reader, h.counts, h.published, h.reads, .inl rfl, rfl⟩
    | cons store pending =>
      refine ⟨[], ?_⟩
      rw [ShmSystem.step, hpending]
      exact h
  | leap leap =>
    refine ⟨[], ?_⟩
    cases hpending : c.pending with
    | nil =>
      rw [ShmSystem.step, hpending]
      refine ⟨h.shared, h.reader, h.counts, h.published, h.reads, ?_⟩
      rw [List.foldl_nil, h.idle_of_nil hpending]
      rfl
    | cons store pending =>
      rw [ShmSystem.step, hpending]
      exact h
  | store =>
    rcases h.store hw with hstay | hwrite
    · exact ⟨[], hstay⟩
    · exact ⟨[.store], hwrite⟩
  | load load => exact ⟨[.load load], h.load load⟩

/-- Every run of the segment is a run of the versioned record. -/
theorem refines_run (servo : NtpshmServo) (actions : List ShmAction) :
    ∃ steps : List (SeqLock.Action ShmField Int),
      Refines (actions.foldl ShmSystem.step (.attach servo)) (fun f => f.load servo.shm)
      (steps.foldl (SeqLock.step (· + 1) shmFields) (SeqLock.start servo.shm.shared)) := by
  refine List.foldlRecOn actions ShmSystem.step (motive := fun c =>
    ∃ steps : List (SeqLock.Action ShmField Int), Refines c (fun f => f.load servo.shm)
      (steps.foldl (SeqLock.step (· + 1) shmFields) (SeqLock.start servo.shm.shared))) ?_ ?_
  · exact ⟨[], rfl, rfl, rfl, rfl, rfl, rfl⟩
  · rintro c ⟨steps, hrefines⟩ a -
    obtain ⟨more, hmore⟩ :=
      hrefines.step (SeqLock.writerInv_run forall_mem_shmFields steps) a
    refine ⟨steps ++ more, ?_⟩
    rwa [List.foldl_append]

end Refinement

/-- The count after some calls. -/
theorem iterate_count (v : Int32) (n : ℕ) : (· + 1)^[n] v = v + Int32.ofNat n := by
  induction n with
  | zero => exact (Int32.add_zero v).symm
  | succ n ih => rw [Function.iterate_succ_apply', ih, Int32.ofNat_add, Int32.add_assoc]; rfl

/-- Counts with less than a full turn between them differ. -/
theorem distinct_count (v : Int32) : SeqLock.Distinct (· + 1) v (2 ^ 32) := by
  intro m n hle hshort heq
  rw [iterate_count, iterate_count, Int32.add_right_inj] at heq
  have hbits := congrArg (fun i : Int32 => i.toBitVec.toNat) heq
  simp at hbits
  omega

/-- The parity of the count, which its overflow keeps, tells whether it was counted an even number
of times. -/
theorem even_iterate_count (v : Int32) (n : ℕ) :
    (Even ((· + 1)^[n] v).toInt ↔ Even v.toInt) ↔ Even n := by
  have hmod : ((· + 1)^[n] v).toInt % 2 = (v.toInt + n) % 2 := by
    have hdvd : (2 : Int) ∣ ((2 ^ 32 : ℕ) : Int) := by decide
    have hsum : ((· + 1)^[n] v).toInt = (v.toInt + n).bmod (2 ^ 32) := by
      rw [iterate_count, Int32.toInt_add, ← Int32.ofInt_eq_ofNat, Int32.toInt_ofInt]
      exact Int.add_bmod_bmod
    have hdiff := Int.dvd_trans hdvd (Int.dvd_self_sub_bmod (x := v.toInt + n) (m := 2 ^ 32))
    rw [← hsum] at hdiff
    omega
  rw [Int.even_iff, Int.even_iff, Nat.even_iff, hmod]
  omega

/-- What the segment held over a run: what was found in it, and then the values of each call that
was completed. -/
def ShmSystem.published (c : ShmSystem) (servo : NtpshmServo) : List (ShmField → Int) :=
  (fun f => f.load servo.shm) :: c.written.map ShmCall.value

/-- Accepted reads of the segment are accepted reads of the record. -/
theorem readOk_run (servo : NtpshmServo) (actions : List ShmAction) :
    ∀ r ∈ (actions.foldl ShmSystem.step (.attach servo)).reads,
      SeqLock.ReadOk (· + 1) servo.shm.count (2 ^ 32)
        ((actions.foldl ShmSystem.step (.attach servo)).published servo) r := by
  intro r hr
  obtain ⟨steps, hrefines⟩ := refines_run servo actions
  rw [← hrefines.reads] at hr
  rw [ShmSystem.published, ← hrefines.published]
  exact SeqLock.reads_run (distinct_count _) forall_mem_shmFields steps r hr

/-- The `count` that was loaded has the parity that the servo found if it loaded it between two
calls, or at least not between the two times that a call counts. -/
theorem even_opened_iff {servo : NtpshmServo} {actions : List ShmAction}
    {r : SeqLock.Read Int32 ShmField Int}
    (hr : r ∈ (actions.foldl ShmSystem.step (.attach servo)).reads) :
    (Even r.version.toInt ↔ Even servo.shm.count.toInt) ↔ Even r.opened := by
  rw [(readOk_run servo actions r hr).2.1]
  exact even_iterate_count servo.shm.count r.opened

/-- **No torn read.** In every interleaving of the calls of `ntpshm_sample` with the loads of a
reader, a read that is accepted at a `count` of the parity that the servo found in the segment, if
no full turn of it passed, has the values of one call, the newest one completed when it loaded
`count` first, or what was in the segment before all calls. At a `count` of the other parity it was
inside a call, and had loaded `valid` before this call cleared it. -/
theorem ntpshm_reads_whole (servo : NtpshmServo) (actions : List ShmAction) :
    ∀ r ∈ (actions.foldl ShmSystem.step (.attach servo)).reads,
      r.lowered ≤ r.index ∧ (r.closed - r.opened < 2 ^ 32 →
        (Even r.version.toInt ↔ Even servo.shm.count.toInt) → r.closed = r.opened ∧
        ∃ v ∈ ((actions.foldl ShmSystem.step (.attach servo)).published servo)[r.index]?,
          ∀ f, ∀ a ∈ r.values f, a = v f) := by
  intro r hr
  obtain ⟨hlowered, -, hwhole⟩ := readOk_run servo actions r hr
  refine ⟨hlowered, ?_⟩
  intro hshort hparity
  obtain ⟨hclosed, hvalues⟩ := hwhole hshort
  exact ⟨hclosed, hvalues ((even_opened_iff hr).mp hparity)⟩

/-- An empty segment. -/
def ShmTime.empty : ShmTime :=
  { mode := 0, count := 0, clockTimeStampSec := 0, clockTimeStampUSec := 0,
    receiveTimeStampSec := 0, receiveTimeStampUSec := 0, leap := 0, precision := 0, valid := 0,
    clockTimeStampNSec := 0, receiveTimeStampNSec := 0 }

/-- A call with all its stores. -/
def callActions (offset : Int64) (localTs : UInt64) : List ShmAction :=
  .sample offset localTs :: shmStores.map fun _ => .store

/-- A read of all fields. -/
def readActions : List ShmAction :=
  [.load .flag, .load .version] ++ shmFields.map (fun f => .load (.cell f)) ++
    [.load .check, .load .clear]

/-- A call, and then a read at the count of two. -/
theorem ntpshm_reads_whole_one :
    ∃ r ∈ ((callActions 5 100 ++ readActions).foldl ShmSystem.step
        (.attach ⟨.empty, 0⟩)).reads,
      r.closed = r.opened ∧ ∃ v ∈ (((callActions 5 100 ++ readActions).foldl ShmSystem.step
        (.attach ⟨.empty, 0⟩)).published ⟨.empty, 0⟩)[r.index]?,
        ∀ f, ∀ a ∈ r.values f, a = v f :=
  ⟨_, List.mem_cons_self,
    (ntpshm_reads_whole ⟨.empty, 0⟩ (callActions 5 100 ++ readActions) _ List.mem_cons_self).2
      (by decide) (by decide)⟩

/-- A call, and a read that begins inside the next one. -/
def tornActions : List ShmAction :=
  callActions 5 100 ++ [.sample 7 300, .store, .store, .load .flag, .load .version, .store, .store,
    .store, .load (.cell .clockTimeStampNSec), .load (.cell .receiveTimeStampNSec), .load .check]

/-- The exception is real: at an odd `count` the time stamps can be of two calls. -/
example :
    ∃ r ∈ (tornActions.foldl ShmSystem.step (.attach ⟨.empty, 0⟩)).reads, r.version = 3 ∧
      r.values .clockTimeStampNSec = some 293 ∧ r.values .receiveTimeStampNSec = some 100 :=
  ⟨_, List.mem_cons_self, rfl, rfl, rfl⟩

/-- **Reads come in order.** In every interleaving no accepted read is of an older call than one
before it, at most two are of one call, and at most as many are accepted as calls were completed,
and one more of what was in the segment before. A second read of one call is possible where the
reader found the flag of the call before, and loaded `count` when this one was complete and its own
flag not raised yet. -/
theorem ntpshm_reads_order (servo : NtpshmServo) (actions : List ShmAction) :
    let c := actions.foldl ShmSystem.step (.attach servo)
    (c.reads.map SeqLock.Read.index).Pairwise (· ≥ ·) ∧
      (∀ k, (c.reads.map SeqLock.Read.index).count k ≤ 2) ∧
      c.reads.length ≤ c.written.length + 1 := by
  obtain ⟨steps, hrefines⟩ := refines_run servo actions
  obtain ⟨hsorted, htwice, hlength⟩ :=
    SeqLock.order_run (· + 1) servo.shm.shared forall_mem_shmFields steps
  rw [SeqLock.indices, hrefines.reads] at hsorted htwice hlength
  refine ⟨hsorted, htwice, ?_⟩
  rwa [List.length_map, hrefines.published, List.length_cons, List.length_map] at hlength

/-! ## What a reader learns -/

/-- The call a reader makes out of the fields: the offset is the receive time stamp less that of the
clock, and the leap is one of three. It needs the fields of seconds and nanoseconds, and the leap;
those of microseconds repeat the nanoseconds. -/
def shmDecode (values : ShmField → Option Int) : Option ShmCall := do
  let clockSec ← values .clockTimeStampSec
  let clockNSec ← values .clockTimeStampNSec
  let receiveSec ← values .receiveTimeStampSec
  let receiveNSec ← values .receiveTimeStampNSec
  let leap ← values .leap
  let clockTs := UInt64.ofInt (clockSec * (NS_PER_SEC : Int) + clockNSec)
  let localTs := UInt64.ofInt (receiveSec * (NS_PER_SEC : Int) + receiveNSec)
  return ⟨if leap = LEAP_DELETE then -1 else if leap = LEAP_INSERT then 1 else 0,
    (localTs - clockTs).toInt64, localTs⟩

/-- The call with its leap as one of three. -/
def ShmCall.normal (c : ShmCall) : ShmCall :=
  { c with leap := if c.leap = -1 then -1 else if c.leap = 1 then 1 else 0 }

/-- Seconds and nanoseconds give back the time stamp. -/
theorem ofInt_sec_nsec (t : UInt64) :
    UInt64.ofInt (((t.toNat / NS_PER_SEC : ℕ) : Int) * (NS_PER_SEC : Int) +
      ((t.toNat % NS_PER_SEC : ℕ) : Int)) = t := by
  have hsum : ((t.toNat / NS_PER_SEC : ℕ) : Int) * (NS_PER_SEC : Int) +
      ((t.toNat % NS_PER_SEC : ℕ) : Int) = (t.toNat : Int) := by
    have := Nat.div_add_mod' t.toNat NS_PER_SEC
    exact_mod_cast this
  have hlt : (t.toNat : Int) % 2 ^ 64 = (t.toNat : Int) := by
    have := t.toNat_lt
    omega
  rw [hsum, UInt64.ofInt, hlt, Int.toNat_natCast, UInt64.ofNat_toNat]

/-- Decoding the fields of a call gives back the call. -/
theorem shmDecode_value (c : ShmCall) :
    shmDecode (fun f => some (c.value f)) = some c.normal := by
  have hoffset : c.localTs - c.clockTs = c.offset.toUInt64 := by
    rw [ShmCall.clockTs]
    grind
  have hleap : (if c.value .leap = LEAP_DELETE then (-1 : Int)
      else if c.value .leap = LEAP_INSERT then 1 else 0) =
      if c.leap = -1 then -1 else if c.leap = 1 then 1 else 0 := by
    simp only [ShmCall.value]
    split_ifs <;> simp_all [LEAP_DELETE, LEAP_INSERT, LEAP_NORMAL]
  simp only [shmDecode, Option.bind_eq_bind, Option.bind_some, Option.pure_def, hleap]
  simp only [ShmCall.value, ofInt_sec_nsec, hoffset, Int64.toInt64_toUInt64, ShmCall.normal]

/-- A read of all fields that was accepted and began between two calls, after the first one, has the
values of the newest call that was complete when it began. -/
theorem reads_value_run (servo : NtpshmServo) (actions : List ShmAction)
    {r : SeqLock.Read Int32 ShmField Int}
    (hr : r ∈ (actions.foldl ShmSystem.step (.attach servo)).reads)
    (hshort : r.closed - r.opened < 2 ^ 32) (heven : Even r.opened) (hindex : 0 < r.index)
    (hall : ∀ f, (r.values f).isSome) :
    ∃ call ∈ (actions.foldl ShmSystem.step (.attach servo)).written[r.index - 1]?,
      r.values = fun f => some (call.value f) := by
  obtain ⟨-, -, hwhole⟩ := readOk_run servo actions r hr
  obtain ⟨v, hv, hvalues⟩ := (hwhole hshort).2 heven
  obtain ⟨k, hk⟩ := Nat.exists_eq_succ_of_ne_zero (Nat.pos_iff_ne_zero.mp hindex)
  rw [hk, ShmSystem.published, List.getElem?_cons_succ, List.getElem?_map, Option.mem_def,
    Option.map_eq_some_iff] at hv
  obtain ⟨call, hcall, rfl⟩ := hv
  refine ⟨call, ?_, ?_⟩
  · rwa [hk, Nat.succ_sub_one]
  · funext f
    obtain ⟨a, ha⟩ := Option.isSome_iff_exists.mp (hall f)
    rw [ha, hvalues f a ha]

/-- **The reader gets what the servo was given.** In every interleaving a read of all fields that
was accepted at a `count` of the parity that the servo found, before a full turn of it and after
the first call, decodes to the leap, the offset and the local time stamp of the newest call that was
complete when it began. -/
theorem ntpshm_reads_decode (servo : NtpshmServo) (actions : List ShmAction) :
    ∀ r ∈ (actions.foldl ShmSystem.step (.attach servo)).reads,
      r.closed - r.opened < 2 ^ 32 → (Even r.version.toInt ↔ Even servo.shm.count.toInt) →
        0 < r.index → (∀ f, (r.values f).isSome) →
        ∃ call ∈ (actions.foldl ShmSystem.step (.attach servo)).written[r.index - 1]?,
          shmDecode r.values = some call.normal := by
  intro r hr hshort hparity hindex hall
  obtain ⟨call, hcall, hvalues⟩ :=
    reads_value_run servo actions hr hshort ((even_opened_iff hr).mp hparity) hindex hall
  refine ⟨call, hcall, ?_⟩
  rw [hvalues, shmDecode_value]

/-- The read of the call decodes to it. -/
theorem ntpshm_reads_decode_one :
    ∃ r ∈ ((callActions 5 100 ++ readActions).foldl ShmSystem.step
        (.attach ⟨.empty, 0⟩)).reads,
      ∃ call ∈ ((callActions 5 100 ++ readActions).foldl ShmSystem.step
        (.attach ⟨.empty, 0⟩)).written[r.index - 1]?, shmDecode r.values = some call.normal :=
  ⟨_, List.mem_cons_self,
    ntpshm_reads_decode ⟨.empty, 0⟩ (callActions 5 100 ++ readActions) _ List.mem_cons_self
      (by decide) (by decide) (by decide) (fun f => by cases f <;> rfl)⟩

end ExternalServo
