import ExternalServo.Filter
import ExternalServo.SlidingWindow
import Mathlib.Data.List.Sort
import Mathlib.Data.List.Perm.Basic

/-!
# What the delay filters compute

The two filters are statistics of a sliding window. `Mave.Tracks m w` and
`Mmedian.Tracks m w` say that a filter's arrays represent the window `w` (the samples
since the last reset, at most `len` of them, oldest first); sampling returns the
statistic of the window after the new sample and represents that window:

* `maveAccumulate_spec` — the mean, of the window's sum modulo `2 ^ 64`;
* `mmedianSample_spec` — the median, the sum of two middle samples modulo `2 ^ 64`;
* `Filter.Tracks` — both behind the interface, with `filterSample_spec` and
  `filterReset_spec`.

For a window of equal samples both statistics are that sample (`Filter.statistic_replicate`).
-/

namespace ExternalServo

open CArith SlidingWindow

/-! ## Statistics of a window -/

/-- The exact sum of the samples. -/
def windowSum (w : List Tmv) : Int := (w.map fun x => x.ns.toInt).sum

/-- The mean as the machine computes it: the sum wraps around, the quotient truncates. It is the
mean, truncated, whenever the sum of the window fits in 64 bits. -/
def windowMean (w : List Tmv) : Tmv := ⟨Int64.ofInt (windowSum w) / Int64.ofInt w.length⟩

/-- The samples in non-decreasing order. -/
def sortedWindow (w : List Tmv) : List Tmv :=
  w.mergeSort fun a b => decide (a.ns.toInt ≤ b.ns.toInt)

/-- The median as the machine computes it: the middle sample, or half the wrapping sum of the two in
the middle. Two samples that are apart by more than 63 bits can have any half. -/
def windowMedian (w : List Tmv) : Tmv :=
  let v := sortedWindow w
  if w.length % 2 ≠ 0 then v.getD (w.length / 2) tmvZero
  else ⟨(tmvAdd (v.getD (w.length / 2 - 1) tmvZero) (v.getD (w.length / 2) tmvZero)).ns / 2⟩

@[simp] theorem windowSum_append (w : List Tmv) (x : Tmv) :
    windowSum (w ++ [x]) = windowSum w + x.ns.toInt := by
  simp [windowSum]

@[simp] theorem windowSum_cons (x : Tmv) (w : List Tmv) :
    windowSum (x :: w) = x.ns.toInt + windowSum w := by
  simp [windowSum]

/-- A sorted arrangement of the window is the sorted window. -/
theorem eq_sortedWindow {v w : List Tmv} (hperm : v.Perm w)
    (hsorted : v.Pairwise fun a b => a.ns.toInt ≤ b.ns.toInt) : v = sortedWindow w := by
  have htrans : ∀ a b c : Tmv, decide (a.ns.toInt ≤ b.ns.toInt) = true →
      decide (b.ns.toInt ≤ c.ns.toInt) = true → decide (a.ns.toInt ≤ c.ns.toInt) = true := by
    intro a b c hab hbc
    simp only [decide_eq_true_eq] at *
    omega
  have htotal : ∀ a b : Tmv,
      (decide (a.ns.toInt ≤ b.ns.toInt) || decide (b.ns.toInt ≤ a.ns.toInt)) = true := by
    intro a b
    simp only [Bool.or_eq_true, decide_eq_true_eq]
    omega
  have hwindow : (sortedWindow w).Pairwise fun a b => a.ns.toInt ≤ b.ns.toInt := by
    simpa [sortedWindow] using List.pairwise_mergeSort htrans htotal w
  refine List.Perm.eq_of_pairwise ?_ hsorted hwindow (hperm.trans (List.mergeSort_perm w _).symm)
  intro a b _ _ hab hba
  exact tmv_ext_toInt (le_antisymm hab hba)

/-! ## Moving average -/

/-- The filter represents the window `w`: its slots hold the window, its sum is the window's sum
modulo `2 ^ 64`, and the slots that hold no sample are zero. The last part is what makes the
subtraction of a free slot harmless while the filter fills. -/
structure Mave.Tracks (m : Mave) (w : List Tmv) : Prop where
  /-- the slots hold the window -/
  held : Holds m.val m.index m.cnt w
  /-- the array has the length of the filter -/
  len_eq : m.val.length = m.len
  /-- the running sum -/
  sum_eq : m.sum.ns = Int64.ofInt (windowSum w)
  /-- free slots are zero -/
  free : ∀ v ∈ m.val.drop m.cnt, v = tmvZero

/-- Subtracting the overwritten slot and adding the new sample slides the sum. While the buffer is
filling, the slot holds zero; afterwards it holds the oldest sample, which leaves the window. -/
theorem Mave.Tracks.sum_slide {m : Mave} {w : List Tmv} (h : m.Tracks w)
    (hlt : m.index < m.val.length) (x : Tmv) :
    (tmvAdd (tmvSub m.sum m.val[m.index]) x).ns =
      Int64.ofInt (windowSum (slide m.len w x)) := by
  have hsum : tmvAdd (tmvSub m.sum m.val[m.index]) x =
      ⟨Int64.ofInt (windowSum w - m.val[m.index].ns.toInt + x.ns.toInt)⟩ := by
    have hm : m.sum = ⟨Int64.ofInt (windowSum w)⟩ := by rw [← h.sum_eq]
    conv_lhs => rw [hm, tmv_eq_ofInt m.val[m.index], tmv_eq_ofInt x, tmvSub_ofInt, tmvAdd_ofInt]
  rw [hsum]
  refine congrArg Int64.ofInt ?_
  rcases Nat.lt_or_ge m.cnt m.val.length with hcnt | hcnt
  · -- still filling: the slot is free, hence zero
    have hidx : m.index = m.cnt := h.held.index_eq_cnt hcnt
    have hmem : m.val[m.index] ∈ m.val.drop m.cnt := by
      simp only [hidx]
      exact List.mem_drop_iff_getElem.mpr ⟨0, by simpa using hcnt, by simp⟩
    have hw : w.length < m.len := by
      rw [h.held.length_eq, ← h.len_eq]
      exact hcnt
    rw [h.free _ hmem, slide_of_lt hw, windowSum_append]
    have hzero : tmvZero.ns.toInt = 0 := rfl
    omega
  · -- full: the slot holds the oldest sample
    have hfull : m.cnt = m.val.length := le_antisymm h.held.cnt_le hcnt
    obtain ⟨rest, hrest⟩ := h.held.evicted hfull hlt
    have hlen : m.len = rest.length + 1 := by
      rw [← h.len_eq, ← hfull, ← h.held.length_eq, hrest, List.length_cons]
    rw [hlen, hrest, slide_of_full, windowSum_cons, windowSum_append]
    omega

/-- **The moving average** returns the mean of the window after the new sample, and represents this
window. A filter without slots is the exception that `Tracks` excludes: its slot cannot be read. -/
theorem maveAccumulate_spec {m : Mave} {w : List Tmv} (h : m.Tracks w) (x : Tmv) :
    ∃ m', maveAccumulate m x = .ok (windowMean (slide m.len w x), m') ∧
      m'.Tracks (slide m.len w x) ∧ m'.len = m.len := by
  have hlt := h.held.index_lt
  have hpos : 0 < m.len := by
    rw [← h.len_eq]
    exact Nat.zero_lt_of_lt hlt
  have hpush := h.held.push x
  rw [h.len_eq] at hpush
  have hcnt : (slide m.len w x).length = if m.cnt < m.len then m.cnt + 1 else m.cnt :=
    hpush.length_eq
  have hcntpos : 0 < (if m.cnt < m.len then m.cnt + 1 else m.cnt) := by split <;> omega
  refine ⟨{ m with
      cnt := if m.cnt < m.len then m.cnt + 1 else m.cnt
      index := (1 + m.index) % m.len
      sum := tmvAdd (tmvSub m.sum m.val[m.index]) x
      val := m.val.set m.index x }, ?_, ⟨hpush, ?_, h.sum_slide hlt x, ?_⟩, rfl⟩
  · have hdiv : tmvDiv (tmvAdd (tmvSub m.sum m.val[m.index]) x)
        (if m.cnt < m.len then m.cnt + 1 else m.cnt : Nat) =
        .ok (windowMean (slide m.len w x)) := by
      rw [tmvDiv, if_neg (by omega), h.sum_slide hlt x, ← hcnt]
      rfl
    simp only [maveAccumulate, readAt_of_lt hlt, writeAt_of_lt hlt, remainder_of_pos hpos,
      bind, Except.bind, pure, Except.pure, hdiv]
  · rw [List.length_set, h.len_eq]
  · intro v hv
    simp only at hv
    refine h.free v ?_
    rcases Nat.lt_or_ge m.cnt m.len with hfilling | hfull
    · have hidx : m.index = m.cnt := h.held.index_eq_cnt (h.len_eq.symm ▸ hfilling)
      rw [if_pos hfilling, List.drop_set_of_lt (by omega)] at hv
      exact List.mem_of_mem_drop (by rwa [List.drop_drop])
    · -- no slot is free
      have hnone : (m.val.set m.index x).length ≤ m.cnt := by
        rw [List.length_set, h.len_eq]
        exact hfull
      rw [if_neg (by omega), List.drop_of_length_le hnone] at hv
      exact absurd hv List.not_mem_nil

theorem maveReset_spec {m : Mave} {w : List Tmv} (h : m.Tracks w) :
    ∃ m', maveReset m = .ok m' ∧ m'.Tracks [] ∧ m'.len = m.len := by
  have hpos : 0 < m.val.length := lt_of_le_of_lt (Nat.zero_le _) h.held.index_lt
  have hval : memset0 tmvZero m.val m.len = .ok (List.replicate m.len tmvZero) := by
    rw [memset0, if_pos h.len_eq.ge, ← h.len_eq, List.drop_length, List.append_nil]
  refine ⟨{ m with cnt := 0, index := 0, sum := tmvZero, val := List.replicate m.len tmvZero },
    ?_, ⟨Holds.empty ?_, List.length_replicate, rfl, ?_⟩, rfl⟩
  · simp only [maveReset, hval, bind, Except.bind, pure, Except.pure]
  · rw [List.length_replicate, ← h.len_eq]
    exact hpos
  · intro v hv
    exact List.eq_of_mem_replicate hv

theorem maveCreate_tracks {grants : Nat → Bool} {length : Int} {m : Mave} (hlen : 0 < length)
    (h : maveCreate grants length = some m) : m.Tracks [] ∧ (m.len : Int) = length := by
  unfold maveCreate at h
  split at h
  · cases h
  · split at h
    · cases h
    · obtain rfl := Option.some.inj h
      refine ⟨⟨Holds.empty (by simpa using hlen), List.length_replicate, rfl, ?_⟩, ?_⟩
      · intro v hv
        exact List.eq_of_mem_replicate hv
      · exact Int.toNat_of_nonneg hlen.le

/-! ## Moving median

The order array is taken apart as lists: the entries in use before and after the position the
loops work at. -/

/-- The sample in a slot. -/
def slot (samples : List Tmv) (i : Nat) : Tmv := samples.getD i tmvZero

theorem readAt_slot {samples : List Tmv} {i : Nat} (h : i < samples.length) :
    readAt samples i = .ok (slot samples i) := by
  rw [readAt_of_lt h, slot, List.getD_eq_getElem?_getD, List.getElem?_eq_getElem h,
    Option.getD_some]

/-- The slots are in non-decreasing order of their samples. -/
def SortedBy (samples : List Tmv) (order : List Nat) : Prop :=
  order.Pairwise fun i j => (slot samples i).ns.toInt ≤ (slot samples j).ns.toInt

theorem orderFind_succ {order : List Nat} {i o : Nat} (h : readAt order i = .ok o)
    (index n : Nat) :
    orderFind order index (n + 1) i =
      if o = index then .ok i else orderFind order index n (i + 1) := by
  simp only [orderFind, h, bind, Except.bind, pure, Except.pure]

/-- The search stops at the entry, when none before it is equal. -/
theorem orderFind_spec (pre as bs : List Nat) (index n : Nat) (has : index ∉ as)
    (hn : as.length < n) :
    orderFind (pre ++ (as ++ index :: bs)) index n pre.length =
      .ok (pre.length + as.length) := by
  induction as generalizing pre n with
  | nil =>
    obtain ⟨n, rfl⟩ := Nat.exists_eq_succ_of_ne_zero (by omega : n ≠ 0)
    have hread : readAt (pre ++ ([] ++ index :: bs)) pre.length = .ok index := by
      simp [readAt]
    rw [orderFind_succ hread, if_pos rfl]
    rfl
  | cons a as ih =>
    obtain ⟨n, rfl⟩ := Nat.exists_eq_succ_of_ne_zero (by omega : n ≠ 0)
    have hread : readAt (pre ++ (a :: as ++ index :: bs)) pre.length = .ok a := by
      simp [readAt]
    rw [List.mem_cons, not_or] at has
    obtain ⟨hne, has⟩ := has
    have hrest := ih (pre ++ [a]) n has (by simpa using hn)
    rw [List.append_assoc, List.length_append, List.length_singleton] at hrest
    rw [orderFind_succ hread, if_neg (Ne.symm hne), List.length_cons]
    exact hrest.trans (congrArg Except.ok (by omega))

/-- Closing the gap removes the entry; the last position keeps an old entry. -/
theorem orderClose_spec (as bs : List Nat) (x : Nat) :
    ∃ g, orderClose bs.length as.length (as ++ x :: bs) = .ok (as ++ bs ++ [g]) := by
  induction bs generalizing as x with
  | nil => exact ⟨x, by simp [orderClose]⟩
  | cons b bs ih =>
    obtain ⟨g, hg⟩ := ih (as ++ [b]) b
    have hread : readAt (as ++ x :: b :: bs) (as.length + 1) = .ok b := by
      simp [readAt]
    have hwrite : writeAt (as ++ x :: b :: bs) as.length b = .ok (as ++ [b] ++ b :: bs) := by
      simp [writeAt]
    refine ⟨g, ?_⟩
    simp only [List.length_cons, orderClose, hread, hwrite, bind, Except.bind]
    simpa using hg

/-- Insertion places the slot among the entries below the free position and keeps them sorted. -/
theorem orderInsert_spec (samples : List Tmv) (index : Nat) (hindex : index < samples.length)
    (as bs : List Nat) (x : Nat) (has : ∀ o ∈ as, o < samples.length) :
    ∃ as', orderInsert samples index as.length (as ++ x :: bs) = .ok (as' ++ bs) ∧
      as'.Perm (index :: as) ∧ (SortedBy samples as → SortedBy samples as') := by
  induction as using List.reverseRecOn generalizing x bs with
  | nil =>
    refine ⟨[index], by simp [orderInsert, writeAt], List.Perm.refl _, ?_⟩
    intro _
    exact List.pairwise_singleton _ _
  | append_singleton as o ih =>
    have ho : o < samples.length := has o (by simp)
    have hread : readAt (as ++ [o] ++ x :: bs) as.length = .ok o := by
      simp [readAt]
    rw [List.length_append, List.length_singleton]
    by_cases hle : tmvCmp (slot samples o) (slot samples index) ≤ 0
    · -- the entry is not larger: the slot goes after it
      refine ⟨as ++ [o] ++ [index], ?_, List.perm_append_singleton _ _, ?_⟩
      · have hwrite : writeAt (as ++ [o] ++ x :: bs) (as.length + 1) index =
            .ok (as ++ [o] ++ [index] ++ bs) := by
          simp [writeAt]
        simp only [orderInsert, hread, readAt_slot ho, readAt_slot hindex, hwrite, bind,
          Except.bind, if_pos hle]
      · intro hsorted
        have hlast := tmvCmp_le_zero.mp hle
        refine List.pairwise_append.mpr ⟨hsorted, List.pairwise_singleton _ _, ?_⟩
        intro i hi j hj
        obtain rfl := List.mem_singleton.mp hj
        rcases List.mem_append.mp hi with hi | hi
        · exact ((List.pairwise_append.mp hsorted).2.2 i hi o List.mem_cons_self).trans hlast
        · obtain rfl := List.mem_singleton.mp hi
          exact hlast
    · -- the entry is larger: it moves up and the search goes on below it
      have hbelow : ∀ p ∈ as, p < samples.length := by
        intro p hp
        exact has p (List.mem_append_left _ hp)
      obtain ⟨as', hrun, hperm, hkeep⟩ := ih (o :: bs) o hbelow
      refine ⟨as' ++ [o], ?_, ?_, ?_⟩
      · have hwrite : writeAt (as ++ [o] ++ x :: bs) (as.length + 1) o =
            .ok (as ++ o :: o :: bs) := by
          simp [writeAt]
        simp only [orderInsert, hread, readAt_slot ho, readAt_slot hindex, hwrite, bind,
          Except.bind, if_neg hle]
        simpa using hrun
      · exact hperm.append_right [o]
      · intro hsorted
        obtain ⟨hsorted, -, hlast⟩ := List.pairwise_append.mp hsorted
        refine List.pairwise_append.mpr ⟨hkeep hsorted, List.pairwise_singleton _ _, ?_⟩
        intro i hi j hj
        obtain rfl := List.mem_singleton.mp hj
        rcases List.mem_cons.mp (hperm.mem_iff.mp hi) with rfl | hi
        · have := mt tmvCmp_le_zero.mpr hle
          omega
        · exact hlast i hi j List.mem_cons_self

/-- The filter represents the window `w`: its slots hold the window and `order` lists the slots in
use, sorted by their samples. That the list is a permutation of the slots is what the search for the
replaced slot relies on. -/
structure Mmedian.Tracks (m : Mmedian) (w : List Tmv) : Prop where
  /-- the slots hold the window -/
  held : Holds m.samples m.index m.cnt w
  /-- the array has the length of the filter -/
  len_eq : m.samples.length = m.len
  /-- the order array has the length of the filter -/
  order_len : m.order.length = m.len
  /-- the order lists the slots in use -/
  perm : (m.order.take m.cnt).Perm (List.range m.cnt)
  /-- the order is sorted -/
  sorted : SortedBy m.samples (m.order.take m.cnt)

/-- A sample that is written to a slot leaves the order of the other slots as it is. -/
theorem SortedBy.set {samples : List Tmv} {as : List Nat} (hsorted : SortedBy samples as)
    {index : Nat} (hnot : index ∉ as) (x : Tmv) : SortedBy (samples.set index x) as := by
  refine List.Pairwise.imp_of_mem ?_ hsorted
  intro i j hi hj hij
  have hi' : index ≠ i := by
    rintro rfl
    exact hnot hi
  have hj' : index ≠ j := by
    rintro rfl
    exact hnot hj
  simpa [slot, List.getElem?_set_ne hi', List.getElem?_set_ne hj'] using hij

/-- What `orderRoom` makes of the order: `as` are the slots in use apart from the one of the new
sample, `g` is free for it, and `bs` is left over. With the slot of the new sample `as` are all
slots in use, still sorted. -/
structure Mmedian.Room (m : Mmedian) (as : List Nat) (g : Nat) (bs : List Nat) : Prop where
  run : orderRoom m = .ok (as.length + 1, as ++ g :: bs)
  total : as.length + 1 + bs.length = m.len
  count : as.length + 1 = if m.cnt < m.len then m.cnt + 1 else m.cnt
  perm : (m.index :: as).Perm (List.range (as.length + 1))
  sorted : SortedBy m.samples as

/-- While the filter is filling, the order has a free position and the slot is the next one. -/
theorem Mmedian.Tracks.room_filling {m : Mmedian} {w : List Tmv} (h : m.Tracks w)
    (hcnt : m.cnt < m.len) : ∃ as g bs, m.Room as g bs := by
  have hidx : m.index = m.cnt := h.held.index_eq_cnt (h.len_eq.symm ▸ hcnt)
  have hpos : m.cnt < m.order.length := h.order_len.symm ▸ hcnt
  have hlen : (m.order.take m.cnt).length = m.cnt := List.length_take_of_le hpos.le
  refine ⟨m.order.take m.cnt, m.order[m.cnt], m.order.drop (m.cnt + 1), ?_, ?_, ?_, ?_, h.sorted⟩
  · rw [orderRoom, if_pos hcnt, hlen, ← List.drop_eq_getElem_cons hpos, List.take_append_drop]
  · rw [hlen, List.length_drop, h.order_len]
    omega
  · rw [if_pos hcnt, hlen]
  · rw [hlen, List.range_succ, hidx]
    exact (h.perm.cons _).trans (List.perm_append_singleton _ _).symm

/-- Once the filter is full, the entry of the overwritten slot is removed. -/
theorem Mmedian.Tracks.room_full {m : Mmedian} {w : List Tmv} (h : m.Tracks w)
    (hcnt : m.len ≤ m.cnt) : ∃ as g bs, m.Room as g bs := by
  have hlt := h.held.index_lt
  have hfull : m.cnt = m.len := le_antisymm (h.len_eq ▸ h.held.cnt_le) hcnt
  have htake : m.order.take m.cnt = m.order := by
    rw [hfull, ← h.order_len, List.take_length]
  have hperm := h.perm
  have hsorted := h.sorted
  rw [htake] at hperm hsorted
  have hmem : m.index ∈ m.order := by
    rw [hperm.mem_iff, List.mem_range, hfull, ← h.len_eq]
    exact hlt
  obtain ⟨as, bs, hsplit⟩ := List.append_of_mem hmem
  have hmid : (m.index :: (as ++ bs)).Perm (List.range m.cnt) :=
    (List.perm_middle.symm.trans (List.Perm.of_eq hsplit.symm)).trans hperm
  have hnodup : (m.index :: (as ++ bs)).Nodup := hmid.nodup_iff.mpr List.nodup_range
  have hlen : as.length + bs.length + 1 = m.cnt := by simpa using hmid.length_eq
  have hbefore : m.index ∉ as := by
    intro has
    exact (List.nodup_cons.mp hnodup).1 (List.mem_append_left _ has)
  have hfind := orderFind_spec [] as bs m.index m.cnt hbefore (by omega)
  rw [List.nil_append, List.length_nil, Nat.zero_add, ← hsplit] at hfind
  obtain ⟨g, hclose⟩ := orderClose_spec as bs m.index
  rw [← hsplit] at hclose
  have hbs : m.cnt - (as.length + 1) = bs.length := by omega
  refine ⟨as ++ bs, g, [], ?_, ?_, ?_, ?_, ?_⟩
  · simp only [orderRoom, if_neg (Nat.not_lt.mpr hcnt), hfind, hbs, hclose, bind, Except.bind,
      pure, Except.pure, List.length_append, hlen]
  · rw [List.length_append, hlen, hfull]
    rfl
  · rw [if_neg (Nat.not_lt.mpr hcnt), List.length_append, hlen]
  · rw [List.length_append, hlen]
    exact hmid
  · rw [hsplit] at hsorted
    exact hsorted.sublist (List.Sublist.append (List.Sublist.refl as)
      (List.sublist_cons_self m.index bs))

theorem Mmedian.Tracks.room {m : Mmedian} {w : List Tmv} (h : m.Tracks w) :
    ∃ as g bs, m.Room as g bs := by
  rcases Nat.lt_or_ge m.cnt m.len with hcnt | hcnt
  · exact h.room_filling hcnt
  · exact h.room_full hcnt

/-- The new slot is none of the others. -/
theorem Mmedian.Room.index_notMem {m : Mmedian} {as bs : List Nat} {g : Nat}
    (h : m.Room as g bs) : m.index ∉ as := by
  have hnodup : (m.index :: as).Nodup := h.perm.nodup_iff.mpr List.nodup_range
  exact (List.nodup_cons.mp hnodup).1

/-- The samples of the slots `0 … cnt - 1`. -/
theorem map_slot_range {samples : List Tmv} {cnt : Nat} (h : cnt ≤ samples.length) :
    (List.range cnt).map (slot samples) = samples.take cnt := by
  apply List.ext_getElem
  · simp [h]
  · intro i hi hi'
    have hin : i < samples.length := lt_of_lt_of_le (by simpa using hi) h
    simp [slot, hin]

/-- The samples along an order that represents the window are the sorted window. -/
theorem Mmedian.Tracks.map_slot {m : Mmedian} {w : List Tmv} (h : m.Tracks w) :
    (m.order.take m.cnt).map (slot m.samples) = sortedWindow w := by
  refine eq_sortedWindow ?_ (List.pairwise_map.mpr h.sorted)
  calc ((m.order.take m.cnt).map (slot m.samples)).Perm
        ((List.range m.cnt).map (slot m.samples)) := h.perm.map _
    _ = m.samples.take m.cnt := map_slot_range h.held.cnt_le
    List.Perm _ w := h.held.perm

/-- Reading along the order reads the sorted window. -/
theorem Mmedian.Tracks.sampleAt {m : Mmedian} {w : List Tmv} (h : m.Tracks w) {k : Nat}
    (hk : k < m.cnt) :
    sampleAt m.samples m.order k = .ok ((sortedWindow w).getD k tmvZero) := by
  have hcnt : m.cnt ≤ m.samples.length := h.held.cnt_le
  have hlen : k < m.order.length := by
    rw [h.order_len, ← h.len_eq]
    omega
  have htake : k < (m.order.take m.cnt).length := by
    rw [List.length_take]
    omega
  have hmem : m.order[k] ∈ m.order.take m.cnt := by
    rw [← List.getElem_take (h := htake)]
    exact List.getElem_mem htake
  have hslot : m.order[k] < m.samples.length :=
    lt_of_lt_of_le (List.mem_range.mp (h.perm.mem_iff.mp hmem)) hcnt
  rw [← h.map_slot, ExternalServo.sampleAt, readAt_of_lt hlen]
  simp only [bind, Except.bind, readAt_slot hslot]
  rw [List.getD_eq_getElem?_getD, List.getElem?_map, List.getElem?_eq_getElem htake,
    List.getElem_take]
  rfl

/-- **The moving median** returns the median of the window after the new sample, and represents this
window. The search, the closing of the gap and the insertion stay inside the array, as the order has
an entry for every slot. -/
theorem mmedianSample_spec {m : Mmedian} {w : List Tmv} (h : m.Tracks w) (x : Tmv) :
    ∃ m', mmedianSample m x = .ok (windowMedian (slide m.len w x), m') ∧
      m'.Tracks (slide m.len w x) ∧ m'.len = m.len := by
  have hlt := h.held.index_lt
  have hpos : 0 < m.len := by
    rw [← h.len_eq]
    exact Nat.zero_lt_of_lt hlt
  obtain ⟨as, g, bs, hspace⟩ := h.room
  have hsorted := hspace.sorted.set hspace.index_notMem x
  obtain ⟨hroom, htotal, hcnt, hperm, -⟩ := hspace
  have hlen : (m.samples.set m.index x).length = m.len := List.length_set.trans h.len_eq
  have hbound : ∀ o ∈ as, o < (m.samples.set m.index x).length := by
    intro o ho
    have hused := List.mem_range.mp (hperm.mem_iff.mp (List.mem_cons_of_mem _ ho))
    omega
  have hindex : m.index < (m.samples.set m.index x).length := by
    rw [List.length_set]
    exact hlt
  obtain ⟨as', hinsert, hperm', hkeep⟩ :=
    orderInsert_spec (m.samples.set m.index x) m.index hindex as bs g hbound
  have hlen' : as'.length = as.length + 1 := by simpa using hperm'.length_eq
  have htake : (as' ++ bs).take (as.length + 1) = as' := by rw [← hlen', List.take_left]
  have hpush := h.held.push x
  rw [h.len_eq, ← hcnt] at hpush
  -- the state after the sample represents the new window
  have hnext : Mmedian.Tracks
      { m with
        cnt := as.length + 1
        index := (1 + m.index) % m.len
        order := as' ++ bs
        samples := (m.samples.set m.index x) } (slide m.len w x) :=
    { held := hpush
      len_eq := hlen
      order_len := by rw [List.length_append, hlen', htotal]
      perm := htake.symm ▸ hperm'.trans hperm
      sorted := htake.symm ▸ hkeep hsorted }
  refine ⟨_, ?_, hnext, rfl⟩
  have hhalf := hnext.sampleAt (k := (as.length + 1) / 2) (by simp only; omega)
  have hread : writeAt m.samples m.index x = .ok (m.samples.set m.index x) := writeAt_of_lt hlt x
  simp only [mmedianSample, hread, hroom, hinsert, remainder_of_pos hpos, bind, Except.bind, pure,
    Except.pure, Nat.add_sub_cancel] at hhalf ⊢
  rw [windowMedian, hpush.length_eq]
  split
  · rw [hhalf]
  · next heven =>
    have hbelow := hnext.sampleAt (k := (as.length + 1) / 2 - 1) (by simp only; omega)
    simp only at hbelow
    rw [hhalf, hbelow]
    rfl

theorem mmedianReset_tracks {m : Mmedian} {w : List Tmv} (h : m.Tracks w) :
    (mmedianReset m).Tracks [] ∧ (mmedianReset m).len = m.len :=
  ⟨⟨Holds.empty (lt_of_le_of_lt (Nat.zero_le _) h.held.index_lt), h.len_eq, h.order_len,
    List.Perm.refl _, List.Pairwise.nil⟩, rfl⟩

theorem mmedianCreate_tracks {grants : Nat → Bool} {length : Int} {m : Mmedian}
    (h : mmedianCreate grants length = some m) :
    m.Tracks [] ∧ (m.len : Int) = length ∧ 0 < length := by
  unfold mmedianCreate at h
  split at h
  · cases h
  · next hlen =>
    have hpos : 0 < length := by omega
    split at h
    · cases h
    · split at h
      · cases h
      · split at h
        · cases h
        · obtain rfl := Option.some.inj h
          exact ⟨⟨Holds.empty (by simpa using hpos), List.length_replicate,
            List.length_replicate, List.Perm.refl _, List.Pairwise.nil⟩,
            Int.toNat_of_nonneg hpos.le, hpos⟩

/-! ## Behind the interface -/

/-- The length a filter was created with. -/
def Filter.len : Filter → Nat
  | .mave m => m.len
  | .mmedian m => m.len

/-- The filter represents the window `w`. -/
def Filter.Tracks : Filter → List Tmv → Prop
  | .mave m, w => m.Tracks w
  | .mmedian m, w => m.Tracks w

/-- The statistic a filter returns for a window. -/
def Filter.statistic : Filter → List Tmv → Tmv
  | .mave _, w => windowMean w
  | .mmedian _, w => windowMedian w

/-- The filters are of one kind and length. -/
def Filter.SameKind : Filter → Filter → Prop
  | .mave m, .mave m' => m'.len = m.len
  | .mmedian m, .mmedian m' => m'.len = m.len
  | _, _ => False

theorem Filter.SameKind.len_eq {f f' : Filter} (h : f.SameKind f') : f'.len = f.len := by
  cases f <;> cases f' <;> first | exact h | exact h.elim

/-- Filters of one kind compute one statistic. -/
theorem Filter.SameKind.statistic_eq {f f' : Filter} (h : f.SameKind f') (w : List Tmv) :
    f'.statistic w = f.statistic w := by
  cases f <;> cases f' <;> first | rfl | exact h.elim

theorem Filter.SameKind.refl (f : Filter) : f.SameKind f := by
  cases f with
  | mave m => exact rfl
  | mmedian m => exact rfl

theorem Filter.SameKind.symm {f g : Filter} (h : f.SameKind g) : g.SameKind f := by
  cases f <;> cases g <;> first | exact Eq.symm h | exact h.elim

theorem Filter.SameKind.trans {f g h : Filter} (hfg : f.SameKind g) (hgh : g.SameKind h) :
    f.SameKind h := by
  cases f <;> cases g <;> cases h <;>
    first | exact Eq.trans hgh hfg | exact hfg.elim | exact hgh.elim

/-- Filters go on being of one kind. -/
theorem Filter.SameKind.congr {f f' g g' : Filter} (h : f.SameKind f') (hf : f.SameKind g)
    (hf' : f'.SameKind g') : g.SameKind g' :=
  hf.symm.trans (h.trans hf')

theorem filterSample_spec {f : Filter} {w : List Tmv} (h : f.Tracks w) (x : Tmv) :
    ∃ f', filterSample f x = .ok (f.statistic (slide f.len w x), f') ∧
      f'.Tracks (slide f.len w x) ∧ f.SameKind f' := by
  cases f with
  | mave m =>
    obtain ⟨m', hrun, htracks, hlen⟩ := maveAccumulate_spec h x
    exact ⟨.mave m', by simp only [filterSample, hrun, bind, Except.bind]; rfl, htracks, hlen⟩
  | mmedian m =>
    obtain ⟨m', hrun, htracks, hlen⟩ := mmedianSample_spec h x
    exact ⟨.mmedian m', by simp only [filterSample, hrun, bind, Except.bind]; rfl, htracks, hlen⟩

theorem filterReset_spec {f : Filter} {w : List Tmv} (h : f.Tracks w) :
    ∃ f', filterReset f = .ok f' ∧ f'.Tracks [] ∧ f.SameKind f' := by
  cases f with
  | mave m =>
    obtain ⟨m', hrun, htracks, hlen⟩ := maveReset_spec h
    exact ⟨.mave m', by simp only [filterReset, hrun, bind, Except.bind]; rfl, htracks, hlen⟩
  | mmedian m =>
    obtain ⟨htracks, hlen⟩ := mmedianReset_tracks h
    exact ⟨.mmedian (mmedianReset m), rfl, htracks, hlen⟩

/-- A filter created with a positive length represents the empty window. -/
theorem filterCreate_tracks {grants : Nat → Bool} {type : UInt32} {length : Int} {f : Filter}
    (hlen : 0 < length) (h : filterCreate grants type length = some f) :
    f.Tracks [] ∧ (f.len : Int) = length := by
  unfold filterCreate at h
  split at h
  · obtain ⟨m, hm, rfl⟩ := Option.map_eq_some_iff.mp h
    exact maveCreate_tracks hlen hm
  · obtain ⟨m, hm, rfl⟩ := Option.map_eq_some_iff.mp h
    obtain ⟨htracks, hlen', -⟩ := mmedianCreate_tracks hm
    exact ⟨htracks, hlen'⟩
  · cases h

/-- The parameters decide the kind of the filter and its length, whatever the memory was that it
got. -/
theorem filterCreate_sameKind {grants grants' : Nat → Bool} {type : UInt32} {length : Int}
    {f g : Filter} (hf : filterCreate grants type length = some f)
    (hg : filterCreate grants' type length = some g) : f.SameKind g := by
  simp only [filterCreate] at hf hg
  cases htype : FilterType.ofRaw type with
  | none => simp [htype] at hf
  | some kind =>
    cases kind with
    | movingAverage =>
      simp only [htype] at hf hg
      obtain ⟨m, hm, rfl⟩ := Option.map_eq_some_iff.mp hf
      obtain ⟨m', hm', rfl⟩ := Option.map_eq_some_iff.mp hg
      simp only [maveCreate] at hm hm'
      split_ifs at hm hm'
      obtain rfl := Option.some.inj hm
      obtain rfl := Option.some.inj hm'
      rfl
    | movingMedian =>
      simp only [htype] at hf hg
      obtain ⟨m, hm, rfl⟩ := Option.map_eq_some_iff.mp hf
      obtain ⟨m', hm', rfl⟩ := Option.map_eq_some_iff.mp hg
      simp only [mmedianCreate] at hm hm'
      split_ifs at hm hm'
      obtain rfl := Option.some.inj hm
      obtain rfl := Option.some.inj hm'
      rfl

/-! ## Windows of equal samples -/

theorem windowSum_replicate (n : Nat) (x : Tmv) :
    windowSum (List.replicate n x) = n * x.ns.toInt := by
  simp [windowSum]

theorem sortedWindow_replicate (n : Nat) (x : Tmv) :
    sortedWindow (List.replicate n x) = List.replicate n x :=
  List.perm_replicate.mp (List.mergeSort_perm _ _)

/-- The mean of equal samples, when their sum is in range. -/
theorem windowMean_replicate {n : Nat} {x : Tmv} (hn : 0 < n) (hn' : (n : Int) < 2 ^ 63)
    (hlo : -2 ^ 63 ≤ (n : Int) * x.ns.toInt) (hhi : (n : Int) * x.ns.toInt < 2 ^ 63) :
    windowMean (List.replicate n x) = x := by
  have hdiv := tmvDiv_ofInt hlo hhi (by omega : (0 : Int) < n) hn'
  rw [tmvDiv, if_neg (by omega), Int.mul_tdiv_cancel_left _ (by omega), Int64.ofInt_toInt] at hdiv
  rw [windowMean, windowSum_replicate, List.length_replicate]
  exact Except.ok.inj hdiv

/-- The median of equal samples, when the sum of two is in range. -/
theorem windowMedian_replicate {n : Nat} {x : Tmv} (hn : 0 < n)
    (hlo : -2 ^ 63 ≤ 2 * x.ns.toInt) (hhi : 2 * x.ns.toInt < 2 ^ 63) :
    windowMedian (List.replicate n x) = x := by
  have hget : ∀ k, k < n → (List.replicate n x).getD k tmvZero = x := by
    intro k hk
    simp [hk]
  rw [windowMedian, sortedWindow_replicate, List.length_replicate]
  split
  · exact hget _ (by omega)
  · have hsum : tmvAdd x x = ⟨Int64.ofInt (2 * x.ns.toInt)⟩ := by
      conv_lhs => rw [tmv_eq_ofInt x, tmvAdd_ofInt]
      rw [two_mul]
    have hdiv := tmvDiv_ofInt hlo hhi (by decide : (0 : Int) < 2) (by decide)
    rw [tmvDiv, if_neg (by decide), Int.mul_tdiv_cancel_left _ (by decide), Int64.ofInt_toInt]
      at hdiv
    simp only [hget _ (by omega : n / 2 - 1 < n), hget _ (by omega : n / 2 < n), hsum]
    exact Except.ok.inj hdiv

/-- Either statistic of equal samples is that sample, when no sum wraps around. -/
theorem Filter.statistic_replicate (f : Filter) {n : Nat} {x : Tmv} (hn : 0 < n)
    (hn' : (n : Int) < 2 ^ 63) (hx : 0 ≤ x.ns.toInt) (hsum : (n : Int) * x.ns.toInt < 2 ^ 63)
    (hpair : 2 * x.ns.toInt < 2 ^ 63) : f.statistic (List.replicate n x) = x := by
  cases f with
  | mave m =>
    have hpos : 0 ≤ (n : Int) * x.ns.toInt := mul_nonneg (by omega) hx
    exact windowMean_replicate hn hn' (by omega) hsum
  | mmedian m => exact windowMedian_replicate hn (by omega) hpair

end ExternalServo
