import Mathlib.Data.List.DropRight
import Mathlib.Data.List.Rotate

/-!
# A sliding window in a circular buffer

The last `n` elements of a growing list, and the array that holds them in place:

* `slide n w x` — the window after `x` arrived: at most the last `n` of `w ++ [x]`.
  Started empty it is the window of everything seen so far (`foldl_slide`).
* `Holds buf index cnt w` — an array that was filled up to `index = cnt`, or is full
  and wraps around at `index`, holds the window `w` (oldest first).
* `Holds.push` — writing at `index` and advancing it modulo the length slides the
  window; `Holds.evicted` says which element the write replaced.
* `positions len index cnt` — where the elements held are, oldest first.
-/

namespace SlidingWindow

variable {α : Type}

/-- The window of size `n` after one more element: it is appended, and the oldest one is dropped if
the window was full. No array and no index is part of it, so that it says what a buffer is for. -/
def slide (n : Nat) (w : List α) (x : α) : List α := (w ++ [x]).rtake n

theorem slide_of_lt {n : Nat} {w : List α} (h : w.length < n) (x : α) :
    slide n w x = w ++ [x] := by
  have hlen : w.length + 1 - n = 0 := by omega
  simp [slide, List.rtake, hlen]

theorem slide_of_full {y : α} {w : List α} (x : α) :
    slide (w.length + 1) (y :: w) x = w ++ [x] := by
  simp [slide, List.rtake]

/-- A window of equal elements. -/
theorem slide_replicate (n k : Nat) (x : α) :
    slide n (List.replicate k x) x = List.replicate (min (k + 1) n) x := by
  rw [slide, ← List.replicate_succ', List.rtake, List.drop_replicate, List.length_replicate]
  congr 1
  omega

/-- Sliding a window over a list leaves its last `n` elements. -/
theorem foldl_slide (n : Nat) (xs : List α) : xs.foldl (slide n) [] = xs.rtake n := by
  induction xs using List.reverseRecOn with
  | nil => simp
  | append_singleton xs x ih =>
    rw [List.foldl_append, List.foldl_cons, List.foldl_nil, ih, slide]
    cases n with
    | zero => simp
    | succ n =>
      rw [List.rtake_concat_succ, List.rtake_concat_succ]
      congr 1
      simp only [List.rtake, List.length_drop, List.drop_drop]
      congr 1
      omega

/-- The window slides over a list by one element. -/
theorem slide_rtake (n : Nat) (xs : List α) (x : α) :
    slide n (xs.rtake n) x = (xs ++ [x]).rtake n := by
  rw [← foldl_slide, ← foldl_slide, List.foldl_append]
  rfl

/-- The window over a list that is written the newest first. -/
theorem slide_reverse_take (n : Nat) (xs : List α) (x : α) :
    slide n (xs.take n).reverse x = ((x :: xs).take n).reverse := by
  rw [slide, List.rtake_eq_reverse_take_reverse, List.reverse_append, List.reverse_reverse]
  cases n with
  | zero => rfl
  | succ n => simp [List.take_take]

/-- A window has at most `n` elements. -/
theorem length_rtake (n : Nat) (xs : List α) : (xs.rtake n).length = min xs.length n := by
  rw [List.rtake, List.length_drop]
  omega

/-- The `cnt` positions before `index`, going around an array of `len`, the farthest first. -/
def positions (len index cnt : Nat) : List Nat := ((List.range len).rotate index).rtake cnt

/-- The array `buf` with write position `index` holds the `cnt` elements `w`, oldest first. Until
the array is full the count is the write position, and what is behind it does not matter; from then
on the write position is that of the oldest element. -/
inductive Holds (buf : List α) : Nat → Nat → List α → Prop where
  /-- not yet full: the elements are a prefix -/
  | filling {cnt : Nat} (h : cnt < buf.length) : Holds buf cnt cnt (buf.take cnt)
  /-- full: the oldest element is at the write position -/
  | full {index : Nat} (h : index < buf.length) :
    Holds buf index buf.length (buf.drop index ++ buf.take index)

namespace Holds

variable {buf w : List α} {index cnt : Nat}

theorem index_lt (h : Holds buf index cnt w) : index < buf.length := by
  cases h with
  | filling h => exact h
  | full h => exact h

theorem cnt_le (h : Holds buf index cnt w) : cnt ≤ buf.length := by
  cases h with
  | filling h => exact h.le
  | full _ => exact le_rfl

theorem length_eq (h : Holds buf index cnt w) : w.length = cnt := by
  cases h with
  | filling h => exact List.length_take_of_le h.le
  | full h =>
    rw [List.length_append, List.length_drop, List.length_take, Nat.min_eq_left h.le]
    omega

theorem index_eq_cnt (h : Holds buf index cnt w) (hlt : cnt < buf.length) : index = cnt := by
  cases h with
  | filling _ => rfl
  | full _ => exact absurd hlt (Nat.lt_irrefl _)

/-- The elements held are those at the first `cnt` positions, in some order. -/
theorem perm (h : Holds buf index cnt w) : (buf.take cnt).Perm w := by
  cases h with
  | filling _ => exact List.Perm.refl _
  | full _ =>
    rw [List.take_length]
    calc buf.Perm (buf.take index ++ buf.drop index) := by rw [List.take_append_drop]
      List.Perm _ (buf.drop index ++ buf.take index) := List.perm_append_comm

/-- What stands at the positions before the write position is what is held, oldest first. -/
theorem map_positions (h : Holds buf index cnt w) (d : α) :
    (positions buf.length index cnt).map (fun i => buf.getD i d) = w := by
  have hbuf : (List.range buf.length).map (fun i => buf.getD i d) = buf := by
    apply List.ext_getElem
    · simp
    · intro i hi hi'
      simp [hi']
  have hrotate : (positions buf.length index cnt).map (fun i => buf.getD i d) =
      (buf.rotate index).rtake cnt := by
    rw [positions, List.rtake, List.map_drop, List.map_rotate, hbuf, List.rtake,
      List.length_rotate, List.length_rotate, List.length_range]
  rw [hrotate, List.rotate_eq_drop_append_take h.index_lt.le]
  cases h with
  | filling h =>
    have hfree : (buf.drop index ++ buf.take index).length - index = (buf.drop index).length := by
      rw [List.length_append, List.length_drop, List.length_take]
      omega
    rw [List.rtake, hfree, List.drop_left]
  | full h =>
    have hall : (buf.drop index ++ buf.take index).length - buf.length = 0 := by
      rw [List.length_append, List.length_drop, List.length_take]
      omega
    rw [List.rtake, hall, List.drop_zero]

/-- The elements held are at the first `cnt` positions of the array, in some order. -/
theorem positions_perm (h : Holds buf index cnt w) :
    (positions buf.length index cnt).Perm (List.range cnt) := by
  cases h with
  | filling h =>
    have hpositions : positions buf.length index index = List.range index := by
      rw [positions, List.rotate_eq_drop_append_take (by simpa using h.le), List.rtake]
      have hfree :
          ((List.range buf.length).drop index ++ (List.range buf.length).take index).length -
          index = ((List.range buf.length).drop index).length := by
        rw [List.length_append, List.length_drop, List.length_take, List.length_range]
        omega
      rw [hfree, List.drop_left, List.take_range, Nat.min_eq_left h.le]
    rw [hpositions]
  | full h =>
    rw [positions, List.rtake, List.length_rotate, List.length_range, Nat.sub_self,
      List.drop_zero]
    exact List.rotate_perm _ _

/-- An empty array position: nothing is held yet. -/
theorem empty (h : 0 < buf.length) : Holds buf 0 0 [] := by
  simpa using Holds.filling h

/-- In a full array the element at the write position is the oldest one. -/
theorem evicted (h : Holds buf index cnt w) (hfull : cnt = buf.length)
    (hlt : index < buf.length) : ∃ rest, w = buf[index] :: rest := by
  cases h with
  | filling h => omega
  | full _ =>
    refine ⟨buf.drop (index + 1) ++ buf.take index, ?_⟩
    rw [List.drop_eq_getElem_cons hlt, List.cons_append]

/-- A write while there are free positions. -/
theorem push_filling (h : cnt < buf.length) (x : α) :
    Holds (buf.set cnt x) ((1 + cnt) % buf.length) (cnt + 1)
      (slide buf.length (buf.take cnt) x) := by
  have hlen : (buf.set cnt x).length = buf.length := List.length_set
  have hw : slide buf.length (buf.take cnt) x = (buf.set cnt x).take (cnt + 1) := by
    have htake : (buf.take cnt).length = cnt := List.length_take_of_le h.le
    rw [slide_of_lt (htake.symm ▸ h), List.take_succ_eq_append_getElem (hlen.symm ▸ h),
      List.getElem_set_self, List.take_set_of_le le_rfl]
  rw [hw]
  rcases Nat.lt_or_ge (cnt + 1) buf.length with hlt | hge
  · rw [Nat.mod_eq_of_lt (by omega), Nat.add_comm 1 cnt]
    exact Holds.filling (by omega)
  · -- the last free position: the array is full from now on
    obtain rfl : cnt = buf.length - 1 := by omega
    have hone : buf.length - 1 + 1 = buf.length := by omega
    have hzero : 0 < (buf.set (buf.length - 1) x).length := by omega
    have hnext := Holds.full hzero
    rw [List.drop_zero, List.take_zero, List.append_nil, hlen] at hnext
    rw [Nat.add_comm, hone, Nat.mod_self, List.take_of_length_le hlen.le]
    exact hnext

/-- A write over the oldest element. The window is the buffer read from the write position around;
the position moves on by one, and in the last slot it starts again at zero. -/
theorem push_full (h : index < buf.length) (x : α) :
    Holds (buf.set index x) ((1 + index) % buf.length) buf.length
      (slide buf.length (buf.drop index ++ buf.take index) x) := by
  have hlen : (buf.set index x).length = buf.length := List.length_set
  have hset : buf.set index x = buf.take index ++ x :: buf.drop (index + 1) :=
    List.set_eq_take_append_cons_drop.trans (if_pos h)
  have hw : slide buf.length (buf.drop index ++ buf.take index) x =
      buf.drop (index + 1) ++ buf.take index ++ [x] := by
    rw [List.drop_eq_getElem_cons h, List.cons_append]
    have hsize : buf.length = (buf.drop (index + 1) ++ buf.take index).length + 1 := by
      simp
      omega
    conv_lhs => rw [hsize]
    rw [slide_of_full]
  rw [hw]
  rcases Nat.lt_or_ge (index + 1) buf.length with hlt | hge
  · have hindex : index + 1 < (buf.set index x).length := by omega
    have hnext := Holds.full hindex
    rw [Nat.mod_eq_of_lt (by omega), Nat.add_comm 1 index]
    have htake : (buf.set index x).take (index + 1) = buf.take index ++ [x] := by
      have hpre : (buf.take index).length = index := List.length_take_of_le h.le
      rw [hset, List.take_append, hpre, Nat.add_sub_cancel_left, List.take_one,
        List.take_of_length_le (by omega)]
      rfl
    have hdrop : (buf.set index x).drop (index + 1) = buf.drop (index + 1) := by
      rw [List.drop_set_of_lt (by omega)]
    rw [htake, hdrop, hlen, ← List.append_assoc] at hnext
    exact hnext
  · -- the write position wraps around
    have hone : index + 1 = buf.length := by omega
    have hzero : 0 < (buf.set index x).length := by omega
    have hnext := Holds.full hzero
    rw [List.drop_zero, List.take_zero, List.append_nil, hlen] at hnext
    rw [hset, hone, List.drop_length] at hnext
    rw [Nat.add_comm, hone, Nat.mod_self, hset, hone, List.drop_length, List.nil_append]
    exact hnext

/-- **The step.** Write at `index`, advance it around the array, count up to the length: the window
slides by one element. The step that fills the array is the one where the two cases of `Holds` meet.
-/
theorem push (h : Holds buf index cnt w) (x : α) :
    Holds (buf.set index x) ((1 + index) % buf.length)
      (if cnt < buf.length then cnt + 1 else cnt) (slide buf.length w x) := by
  cases h with
  | filling h =>
    rw [if_pos h]
    exact push_filling h x
  | full h =>
    rw [if_neg (Nat.lt_irrefl _)]
    exact push_full h x

end Holds

end SlidingWindow
