import Mathlib.Logic.Function.Basic
import Mathlib.Data.Fin.Basic

/-!
# Bounded ring buffers

The classic single-array queue: a backing array of `n` cells, a read index
`head` and a write index `tail`, both advanced modulo `n`.  One cell is kept
free, so `head = tail` means empty and at most `n - 1` elements are stored.

`contents` is the abstract queue.  The two laws that matter are
`contents_pushAll` (pushing within the free space appends) and
`popN_eq` (popping returns the front and leaves the rest); wrap-around is confined to this file.
-/

/-- A ring of `n` cells.  The indices are in range by construction; stale
cells keep whatever was last written to them. -/
structure RingBuffer (α : Type*) (n : Nat) where
  buf : Fin n → α
  head : Fin n
  tail : Fin n

namespace RingBuffer

open List

variable {α : Type*} {n : Nat} (r : RingBuffer α n)

/-- Number of stored elements, computed as the usual
`(tail - head + n) % n`. -/
def avail : Nat := (r.tail.val + n - r.head.val) % n

/-- Number of elements that can still be pushed. -/
def free : Nat := n - 1 - r.avail

/-- The cell `k` places after index `i`, wrapping around. -/
def wrap (i : Fin n) (k : Nat) : Fin n :=
  ⟨(i.val + k) % n, Nat.mod_lt _ (Nat.lt_of_le_of_lt (Nat.zero_le _) i.isLt)⟩

/-- The stored elements, oldest first. -/
def contents : List α := (List.range r.avail).map (fun k => r.buf (wrap r.head k))

/-- Store one element at `tail` and advance it. -/
def push (x : α) : RingBuffer α n :=
  { r with buf := Function.update r.buf r.tail x, tail := wrap r.tail 1 }

/-- Store a whole block, element by element. -/
def pushAll : RingBuffer α n → List α → RingBuffer α n
  | r, [] => r
  | r, x :: xs => pushAll (r.push x) xs

/-- Read `k` elements one by one, advancing `head` past each. -/
def popN : RingBuffer α n → Nat → List α × RingBuffer α n
  | r, 0 => ([], r)
  | r, k + 1 =>
    let rest := popN { r with head := wrap r.head 1 } k
    (r.buf r.head :: rest.1, rest.2)

/-- The occupancy without the modulus: the indices are at most one lap
apart. -/
theorem avail_eq : r.avail =
    if r.head.val ≤ r.tail.val then r.tail.val - r.head.val
    else r.tail.val + n - r.head.val := by
  unfold avail
  split
  · have hsub : r.tail.val + n - r.head.val = (r.tail.val - r.head.val) + n := by
      omega
    rw [hsub, Nat.add_mod_right, Nat.mod_eq_of_lt (by omega)]
  · exact Nat.mod_eq_of_lt (by omega)

theorem wrap_val (i : Fin n) {k : Nat} (hk : k ≤ n) :
    (wrap i k).val = if i.val + k < n then i.val + k else i.val + k - n := by
  show (i.val + k) % n = _
  split
  · exact Nat.mod_eq_of_lt (by omega)
  · rw [Nat.mod_eq_sub_mod (by omega)]
    exact Nat.mod_eq_of_lt (by omega)

theorem wrap_zero (i : Fin n) : wrap i 0 = i :=
  Fin.ext (by rw [wrap_val i (Nat.zero_le n)]; have := i.isLt; split <;> omega)

theorem wrap_wrap (i : Fin n) (j k : Nat) : wrap (wrap i j) k = wrap i (j + k) :=
  Fin.ext (by simp [wrap, Nat.add_assoc])

theorem avail_lt : r.avail < n := by
  rw [avail_eq]
  split <;> omega

theorem avail_eq_zero_iff : r.avail = 0 ↔ r.head = r.tail := by
  rw [avail_eq, Fin.ext_iff]
  split <;> omega

theorem avail_add_free : r.avail + r.free = n - 1 := by
  have := r.avail_lt
  unfold free
  omega

@[simp] theorem contents_length : r.contents.length = r.avail := by
  simp [contents]

theorem contents_eq_nil_iff : r.contents = [] ↔ r.head = r.tail := by
  rw [← length_eq_zero_iff, contents_length, avail_eq_zero_iff]

/-- The write index is exactly `avail` places after the read index. -/
theorem wrap_head_avail : wrap r.head r.avail = r.tail := by
  apply Fin.ext
  rw [wrap_val r.head r.avail_lt.le, avail_eq]
  split <;> split <;> omega

theorem avail_push (x : α) (h : r.avail + 1 < n) : (r.push x).avail = r.avail + 1 := by
  have hw := wrap_val r.tail (k := 1) (by omega)
  have hnew : (r.push x).avail =
      if r.head.val ≤ (wrap r.tail 1).val then (wrap r.tail 1).val - r.head.val
      else (wrap r.tail 1).val + n - r.head.val := avail_eq (r.push x)
  have hold := avail_eq r
  split at hw <;> split at hnew <;> split at hold <;> omega

/-- No stored element sits in the cell that `push` overwrites. -/
theorem wrap_head_ne_tail {k : Nat} (hk : k < r.avail) : wrap r.head k ≠ r.tail := by
  have hlt := r.avail_lt
  rw [← wrap_head_avail]
  intro heq
  have hval := congrArg Fin.val heq
  rw [wrap_val r.head (by omega), wrap_val r.head hlt.le] at hval
  split at hval <;> split at hval <;> omega

/-- Pushing one element below capacity appends it to the queue. -/
theorem contents_push (x : α) (h : r.avail + 1 < n) : (r.push x).contents = r.contents ++ [x] := by
  unfold contents
  rw [avail_push r x h, range_succ, map_append]
  congr 1
  · apply map_congr_left
    intro k hk
    exact Function.update_of_ne
      (wrap_head_ne_tail r (mem_range.mp hk)) x r.buf
  · have hlast : wrap r.head r.avail = r.tail := wrap_head_avail r
    simp [push, hlast]

/-- Pushing a block that fits appends the whole block. -/
theorem contents_pushAll (xs : List α) (h : xs.length ≤ r.free) :
    (r.pushAll xs).contents = r.contents ++ xs := by
  induction xs generalizing r with
  | nil => simp [pushAll]
  | cons x xs ih =>
    have hroom : r.avail + 1 < n := by
      have := r.avail_add_free
      simp only [length_cons] at h
      omega
    have hrest : xs.length ≤ (r.push x).free := by
      grind [avail_add_free, avail_push]
    rw [pushAll, ih (r.push x) hrest, contents_push r x hroom]
    simp

/-- Advancing the read index past one stored element drops the front. -/
theorem contents_advance (h : 0 < r.avail) : r.contents =
      r.buf r.head :: ({ r with head := wrap r.head 1 } : RingBuffer α n).contents := by
  have hh := r.head.isLt
  have hn : 1 ≤ n := by omega
  have havail : ({ r with head := wrap r.head 1 } : RingBuffer α n).avail
      = r.avail - 1 := by
    have hw := wrap_val r.head hn
    rw [avail_eq] at h ⊢
    rw [avail_eq]
    simp only [hw]
    split at h <;> split <;> split <;> omega
  unfold contents
  rw [havail]
  obtain ⟨m, hm⟩ : ∃ m, r.avail = m + 1 := ⟨r.avail - 1, by omega⟩
  rw [hm, range_succ_eq_map, map_cons, wrap_zero, map_map]
  congr 1
  apply map_congr_left
  intro k _
  simp [wrap_wrap, Nat.add_comm]

/-- Popping within the occupancy returns the front of the queue and leaves
the rest. -/
theorem popN_eq (k : Nat) (h : k ≤ r.avail) : (r.popN k).1 = r.contents.take k ∧
      (r.popN k).2.contents = r.contents.drop k := by
  induction k generalizing r with
  | zero => simp [popN]
  | succ k ih =>
    have hadv := contents_advance r (by omega)
    have hlen := congrArg List.length hadv
    simp only [contents_length, length_cons] at hlen
    obtain ⟨hfst, hsnd⟩ := ih { r with head := wrap r.head 1 } (by omega)
    rw [hadv]
    simp [popN, hfst, hsnd]

/-- Full: one cell is left, and it stays free. -/
def Full : Prop := wrap r.tail 1 = r.head

theorem not_full_iff : ¬ r.Full ↔ r.avail + 1 < n := by
  have hh := r.head.isLt
  have hw := wrap_val r.tail (k := 1) (by omega)
  rw [Full, avail_eq, Fin.ext_iff]
  split at hw <;> split <;> omega

@[simp] theorem pushAll_head (xs : List α) : (r.pushAll xs).head = r.head := by
  induction xs generalizing r with
  | nil => rfl
  | cons x xs ih => exact ih (r.push x)

end RingBuffer
