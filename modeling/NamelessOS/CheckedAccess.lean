import NamelessOS.RingBuffer

/-!
# Bounds-checked execution

Code that walks a buffer with pointers is written in `Except Fault`: a pointer
is a buffer with an offset, every read through it is checked against the end
of the buffer and every store into an array against its size.  A run that ends
in `.ok` has made no access outside its objects.

A caller states what its pointer may be used for with `Has` (that many cells
lie ahead of it); `read_of_has`, `copy_of_has` and `pushFrom_of_has` then
replace the checked accesses by what they compute on `view`, the list of these
cells.  `writeAt` is the checked store of a run of cells into a block;
`writeAt_of_fits` and `writeAt_fault` say when it stays inside.

`Returns x Q` is total correctness of a checked run: it ends without a fault
in a value that satisfies `Q`.  There is one rule for each way to build a run.
-/

namespace Checked

open List

/-- What can go wrong. -/
inductive Fault
  | outOfBounds
  | outOfFuel
  deriving DecidableEq, Repr

universe u

@[simp] theorem ok_bind {α β : Type u} (x : α) (f : α → Except Fault β) :
    ((Except.ok x : Except Fault α) >>= f) = f x := rfl

/-- The run ends without a fault, with a value that satisfies `Q`. -/
def Returns {α : Type u} (x : Except Fault α) (Q : α → Prop) : Prop := ∃ r, x = .ok r ∧ Q r

namespace Returns

variable {α β : Type u} {P : α → Prop} {Q : β → Prop}

theorem ok {r : α} (h : P r) : Returns (.ok r) P := ⟨r, rfl, h⟩

variable {x : Except Fault α}

theorem of_eq {r : α} (hx : x = .ok r) (h : P r) : Returns x P := ⟨r, hx, h⟩

theorem bind {f : α → Except Fault β} (hx : Returns x P)
    (hf : ∀ r, P r → Returns (f r) Q) : Returns (x >>= f) Q := by
  obtain ⟨r, rfl, hr⟩ := hx
  exact hf r hr

theorem ite {c : Prop} [Decidable c] {y : Except Fault α} (hx : c → Returns x P)
    (hy : ¬ c → Returns y P) : Returns (if c then x else y) P := by
  by_cases h : c
  · rw [if_pos h]; exact hx h
  · rw [if_neg h]; exact hy h

/-- An early return. -/
theorem early {c : Prop} [Decidable c] {r : α} {y : Except Fault α} (hr : P r)
    (hy : ¬ c → Returns y P) : Returns (if c then .ok r else y) P :=
  .ite (fun _ => .ok hr) hy

theorem mono {P' : α → Prop} (h : Returns x P) (hP : ∀ r, P r → P' r) : Returns x P' := by
  obtain ⟨r, hx, hr⟩ := h
  exact ⟨r, hx, hP r hr⟩

end Returns

/-- A pointer into a buffer. -/
structure Ptr (α : Type*) where
  buf : List α
  off : Nat

namespace Ptr

variable {α : Type*} (p : Ptr α)

/-- `p + n`. -/
def add (n : Nat) : Ptr α := ⟨p.buf, p.off + n⟩

/-- `p[i]`. -/
def read (i : Nat) : Except Fault α :=
  match p.buf[p.off + i]? with
  | some x => .ok x
  | none => .error .outOfBounds

/-- The cells `p[0 .. n)`, read in order. -/
def copy : Ptr α → Nat → Except Fault (List α)
  | _, 0 => .ok []
  | p, n + 1 => do
      let x ← p.read 0
      let xs ← copy (p.add 1) n
      .ok (x :: xs)

/-- At least `n` cells lie ahead of the pointer. -/
def Has (n : Nat) : Prop := p.off + n ≤ p.buf.length

/-- The contents of the next `n` cells. -/
def view (n : Nat) : List α := (p.buf.drop p.off).take n

variable {p} {m i : Nat}

theorem Has.mono {n : Nat} (h : p.Has n) (hmn : m ≤ n) : p.Has m := by
  unfold Has at h ⊢
  omega

theorem Has.add {n : Nat} (h : p.Has (m + n)) : (p.add m).Has n := by
  simp only [Has, Ptr.add] at h ⊢
  omega

theorem view_length {n : Nat} (h : p.Has n) : (p.view n).length = n := by
  unfold Has at h
  rw [view, length_take, length_drop]
  omega

/-- The view from a later pointer is a slice of the earlier one. -/
theorem view_add {k n : Nat} (h : m + n ≤ k) : (p.add m).view n = ((p.view k).drop m).take n := by
  simp only [view, add, drop_take, drop_drop, take_take]
  rw [Nat.min_eq_left (by omega)]

/-- A view cut shorter. -/
theorem view_take {k n : Nat} (h : n ≤ k) : p.view n = (p.view k).take n := by
  rw [view, view, take_take, Nat.min_eq_left h]

/-- A read of one of the cells ahead succeeds. -/
theorem read_of_has {n : Nat} (h : p.Has n) (hi : i < n) (d : α) :
    p.read i = .ok ((p.view n).getD i d) := by
  unfold Has at h
  grind [view, read]

theorem Has.returns_read {n : Nat} (h : p.Has n) (hi : i < n) :
    Returns (p.read i) (fun _ => True) := by
  have hlt : p.off + i < p.buf.length := by
    unfold Has at h
    omega
  exact Returns.of_eq (by rw [read, List.getElem?_eq_getElem hlt]) trivial

theorem view_succ {n : Nat} {x : α} (h : p.buf[p.off]? = some x) :
    p.view (n + 1) = x :: (p.add 1).view n := by
  obtain ⟨hlt, hx⟩ := List.getElem?_eq_some_iff.mp h
  rw [view, drop_eq_getElem_cons hlt, hx]
  rfl

/-- Copying cells ahead of the pointer yields them. -/
theorem copy_of_has {n : Nat} (h : p.Has n) : p.copy n = .ok (p.view n) := by
  induction n generalizing p with
  | zero => simp [copy, view]
  | succ n ih =>
    have hnext : (p.add 1).Has n := Has.add (m := 1) (by rwa [Nat.add_comm])
    have hlt : p.off < p.buf.length := by
      unfold Has at h
      omega
    have hcell := List.getElem?_eq_getElem hlt
    have hread : p.read 0 = .ok p.buf[p.off] := by
      rw [read, Nat.add_zero, hcell]
    rw [copy, hread, ok_bind, ih hnext, ok_bind, view_succ hcell]

theorem Has.returns_copy {n : Nat} (h : p.Has n) :
    Returns (p.copy n) (fun xs => xs = p.view n) := .of_eq (copy_of_has h) rfl

variable (p) in
/-- The list lies in memory at the pointer. -/
structure Holds (xs : List α) : Prop where
  has : p.Has xs.length
  view_eq : p.view xs.length = xs

theorem holds_start (xs : List α) : Ptr.Holds ⟨xs, 0⟩ xs where
  has := by simp [Has]
  view_eq := by simp [view]

theorem Holds.append_left {xs ys : List α} (h : p.Holds (xs ++ ys)) : p.Holds xs where
  has := h.has.mono (by simp)
  view_eq := by
    rw [view_take (k := (xs ++ ys).length) (by simp), h.view_eq, take_left]

theorem Holds.append_right {xs ys : List α} (h : p.Holds (xs ++ ys)) :
    (p.add xs.length).Holds ys where
  has := Has.add (by simpa using h.has)
  view_eq := by
    rw [view_add (k := (xs ++ ys).length) (by simp), h.view_eq, drop_left,
      take_of_length_le le_rfl]

theorem Holds.read_eq {xs : List α} (h : p.Holds xs) (hi : i < xs.length) (d : α) :
    p.read i = .ok (xs.getD i d) := by
  rw [read_of_has h.has hi d, h.view_eq]

end Ptr

/-- `buf[i] = x` for an array of `n` cells. -/
def store {α : Type*} {n : Nat} (buf : Fin n → α) (i : Nat) (x : α) : Except Fault (Fin n → α) :=
  if h : i < n then .ok (Function.update buf ⟨i, h⟩ x) else .error .outOfBounds

/-- `block[off ..] = xs`, one cell after the other. -/
def writeAt {α : Type*} : List α → Nat → List α → Except Fault (List α)
  | block, _, [] => .ok block
  | block, off, x :: xs =>
    if off < block.length then writeAt (block.set off x) (off + 1) xs
    else .error .outOfBounds

section Write

variable {α : Type*} {block xs : List α} {off : Nat}

/-- Cells written inside the block replace those that were there. -/
theorem writeAt_of_fits (h : off + xs.length ≤ block.length) :
    writeAt block off xs = .ok (block.take off ++ xs ++ block.drop (off + xs.length)) := by
  induction xs generalizing block off with
  | nil => simp [writeAt]
  | cons x xs ih =>
    rw [length_cons] at h
    have hlt : off < block.length := by omega
    have htake : (block.set off x).take (off + 1) = block.take off ++ [x] := by
      rw [take_add_one, take_set_of_le le_rfl,
        List.getElem?_set_self hlt, Option.toList_some]
    have hdrop : (block.set off x).drop (off + 1 + xs.length)
        = block.drop (off + (x :: xs).length) := by
      rw [drop_set_of_lt (by omega), length_cons, Nat.add_assoc, Nat.add_comm 1]
    rw [writeAt, if_pos hlt, ih (by rw [length_set]; omega), htake, hdrop,
      append_assoc (block.take off), singleton_append]

/-- Cells behind the end of the block are not written. -/
theorem writeAt_fault (hxs : xs ≠ []) (h : block.length < off + xs.length) :
    writeAt block off xs = .error .outOfBounds := by
  induction xs generalizing block off with
  | nil => exact absurd rfl hxs
  | cons x xs ih =>
    rw [length_cons] at h
    rw [writeAt]
    split
    · have hrest : xs ≠ [] := by
        intro hnil
        rw [hnil, length_nil] at h
        omega
      exact ih hrest (by rw [length_set]; omega)
    · rfl

end Write

/-- The copy loop of a ring writer:
`for (j..) { buf[tail] = p[j]; tail = (tail + 1) % n; }`. -/
def ringCopy {α : Type*} {n : Nat} (p : Ptr α) :
    Nat → Nat → (Fin n → α) → Nat → Except Fault ((Fin n → α) × Nat)
  | 0, _, buf, tail => .ok (buf, tail)
  | k + 1, j, buf, tail => do
      let x ← p.read j
      let buf ← store buf tail x
      ringCopy p k (j + 1) buf ((tail + 1) % n)

/-- Run the loop on a ring and put the ring together again. -/
def pushFrom {α : Type*} {n : Nat} (r : RingBuffer α n) (p : Ptr α) (k : Nat) :
    Except Fault (RingBuffer α n) := do
  let (buf, tail) ← ringCopy p k 0 r.buf r.tail.val
  if h : tail < n then .ok { buf := buf, head := r.head, tail := ⟨tail, h⟩ }
  else .error .outOfBounds

section Ring

variable {α : Type*} {n : Nat} {p : Ptr α}

/-- Every index the loop stores at is below the size of the ring, and the loop
pushes the cells it reads. -/
theorem ringCopy_of_has (r : RingBuffer α n) {j k : Nat} (h : (p.add j).Has k) :
    ringCopy p k j r.buf r.tail.val =
      .ok ((r.pushAll ((p.add j).view k)).buf, (r.pushAll ((p.add j).view k)).tail.val) := by
  induction k generalizing j r with
  | zero => simp [ringCopy, Ptr.view, RingBuffer.pushAll]
  | succ k ih =>
    have hlt : p.off + j < p.buf.length := by
      simp only [Ptr.Has, Ptr.add] at h
      omega
    have hnext : (p.add (j + 1)).Has k := by
      simp only [Ptr.Has, Ptr.add] at h ⊢
      omega
    have hcell := List.getElem?_eq_getElem hlt
    have hread : p.read j = .ok p.buf[p.off + j] := by rw [Ptr.read, hcell]
    have hview : (p.add j).view (k + 1) = p.buf[p.off + j] :: (p.add (j + 1)).view k :=
      Ptr.view_succ hcell
    have hstore : store r.buf r.tail.val p.buf[p.off + j]
        = .ok (r.push p.buf[p.off + j]).buf := dif_pos r.tail.isLt
    rw [ringCopy, hread, ok_bind, hstore, ok_bind, hview, RingBuffer.pushAll]
    exact ih (r.push p.buf[p.off + j]) hnext

/-- Pushing cells that lie ahead of the pointer is pushing their list. -/
theorem pushFrom_of_has (r : RingBuffer α n) {k : Nat} (h : p.Has k) :
    pushFrom r p k = .ok (r.pushAll (p.view k)) := by
  have hloop : ringCopy p k 0 r.buf r.tail.val
      = .ok ((r.pushAll (p.view k)).buf, (r.pushAll (p.view k)).tail.val) :=
    ringCopy_of_has r (j := 0) h
  have hhead := r.pushAll_head (p.view k)
  rw [pushFrom, hloop, ok_bind]
  simp only [Fin.is_lt, dif_pos, ← hhead]

end Ring

end Checked
