import Mathlib.Algebra.GroupWithZero.Nat
import Mathlib.Data.List.Basic
import Mathlib.Logic.Function.Basic

/-!
# Files read and written through cursors

What an open descriptor is: a file and a position in it.  The contents belong to the
file and are seen by every descriptor of it; the position belongs to the descriptor.
`Step` says what each request may answer and do, and the last section what follows for
a whole sequence of writes through one descriptor and reads through another.
-/

namespace CursorFiles

open List Function

open Prod (fst snd)

variable {Fd File α : Type} [DecidableEq Fd] [DecidableEq File]

/-- Files and descriptors; `none` for a descriptor that is not open. -/
structure Store (Fd File α : Type) where
  contents : File → List α
  cursor : Fd → Option (File × Nat)

def Store.setCursor (s : Store Fd File α) (fd : Fd) (c : Option (File × Nat)) : Store Fd File α :=
  { s with cursor := update s.cursor fd c }

def Store.setContents (s : Store Fd File α) (f : File) (l : List α) : Store Fd File α :=
  { s with contents := update s.contents f l }

/-- At most `n` items from a position on. -/
def slice (l : List α) (pos n : Nat) : List α := (l.drop pos).take n

/-- The items from a position on are replaced, and the list grows as needed. -/
def overwrite (l : List α) (pos : Nat) (new : List α) : List α :=
  l.take pos ++ new ++ l.drop (pos + new.length)

inductive Op (Fd File α : Type) where
  | openFile (f : File)
  | read (fd : Fd) (n : Nat)
  | write (fd : Fd) (items : List α)
  | close (fd : Fd)

inductive Reply (Fd α : Type) where
  | failed
  | opened (fd : Fd)
  | items (count : Nat) (l : List α)
  | count (n : Nat)
  | done
deriving DecidableEq

/-- **What requests answer and do**, with the descriptors of `slots` to hand out. -/
inductive Step (slots : Fd → Prop) : Store Fd File α → Op Fd File α → Reply Fd α → Store Fd File α → Prop
  /-- a closed descriptor is opened at the start of the file -/
  | opened {s : Store Fd File α} {fd : Fd} (f : File) (hslot : slots fd) (hclosed : s.cursor fd = none) :
      Step slots s (.openFile f) (.opened fd) (s.setCursor fd (some (f, 0)))
  | full {s : Store Fd File α} (f : File) (hfull : ∀ fd, slots fd → s.cursor fd ≠ none) :
      Step slots s (.openFile f) .failed s
  /-- a read gives what the file holds at the cursor, and moves the cursor behind it -/
  | read {s : Store Fd File α} {fd : Fd} {f : File} {pos : Nat} (n : Nat)
      (hopen : s.cursor fd = some (f, pos)) :
      Step slots s (.read fd n)
        (.items (slice (s.contents f) pos n).length (slice (s.contents f) pos n))
        (s.setCursor fd (some (f, pos + (slice (s.contents f) pos n).length)))
  /-- a write puts its items at the cursor, and moves the cursor behind them -/
  | write {s : Store Fd File α} {fd : Fd} {f : File} {pos : Nat} (items : List α)
      (hopen : s.cursor fd = some (f, pos)) :
      Step slots s (.write fd items) (.count items.length)
        ((s.setContents f (overwrite (s.contents f) pos items)).setCursor fd
          (some (f, pos + items.length)))
  /-- a write that makes the file longer may fail, with no effect -/
  | noRoom {s : Store Fd File α} {fd : Fd} {f : File} {pos : Nat} (items : List α)
      (hopen : s.cursor fd = some (f, pos)) (hlong : (s.contents f).length < pos + items.length) :
      Step slots s (.write fd items) .failed s
  | close {s : Store Fd File α} (fd : Fd) : Step slots s (.close fd) .done (s.setCursor fd none)
  | readClosed {s : Store Fd File α} {fd : Fd} (n : Nat) (hclosed : s.cursor fd = none) :
      Step slots s (.read fd n) .failed s
  | writeClosed {s : Store Fd File α} {fd : Fd} (items : List α) (hclosed : s.cursor fd = none) :
      Step slots s (.write fd items) .failed s

/-- A run, with the answers. -/
inductive Steps (slots : Fd → Prop) :
    Store Fd File α → List (Op Fd File α × Reply Fd α) → Store Fd File α → Prop
  | nil (s : Store Fd File α) : Steps slots s [] s
  | cons {s₀ s₁ s₂ : Store Fd File α} {op : Op Fd File α} {r : Reply Fd α}
      {rest : List (Op Fd File α × Reply Fd α)} (head : Step slots s₀ op r s₁)
      (tail : Steps slots s₁ rest s₂) : Steps slots s₀ ((op, r) :: rest) s₂

/-! ## Lists -/

section Lists

/-- Reading on from where a read stopped; a short read has met the end. -/
theorem slice_append (l : List α) (pos n m : Nat) :
    slice l pos n ++ slice l (pos + (slice l pos n).length) m = slice l pos (n + m) := by
  unfold slice
  rw [take_add, length_take, length_drop]
  by_cases hshort : n ≤ l.length - pos
  · rw [Nat.min_eq_left hshort, drop_drop]
  grind [drop_of_length_le]

section Overwrite

variable (l : List α) {pos : Nat} (hpos : pos ≤ l.length) (new : List α)

include hpos

theorem take_overwrite : (overwrite l pos new).take (pos + new.length) = l.take pos ++ new := by
  have hlen : (l.take pos ++ new).length = pos + new.length := by
    rw [length_append, length_take, Nat.min_eq_left hpos]
  exact take_left' hlen

theorem drop_overwrite (k : Nat) :
    (overwrite l pos new).drop (pos + new.length + k) = l.drop (pos + new.length + k) := by
  have hlen : (l.take pos ++ new).length = pos + new.length := by
    rw [length_append, length_take, Nat.min_eq_left hpos]
  unfold overwrite
  rw [← drop_drop, drop_left' hlen, drop_drop]

/-- Writing on from where a write stopped. -/
theorem overwrite_overwrite (more : List α) :
    overwrite (overwrite l pos new) (pos + new.length) more = overwrite l pos (new ++ more) := by
  have hrest := drop_overwrite l hpos new more.length
  unfold overwrite at hrest ⊢
  rw [hrest, length_append, ← Nat.add_assoc, ← append_assoc (l.take pos)]
  congr 2
  exact take_overwrite l hpos new

theorem length_overwrite : (overwrite l pos new).length = max l.length (pos + new.length) := by
  unfold overwrite
  rw [length_append, length_append, length_take, length_drop, Nat.min_eq_left hpos]
  omega

/-- A write into a longer list that starts with `l`. -/
theorem overwrite_append (rest : List α) :
    overwrite (l ++ rest) pos new = overwrite l pos new ++ rest.drop (pos + new.length - l.length) := by
  unfold overwrite
  rw [take_append_of_le_length hpos, drop_append, append_assoc _ _ (List.drop _ rest)]

theorem take_overwrite_append (rest : List α) :
    (overwrite (l ++ rest) pos new).take (max l.length (pos + new.length)) = overwrite l pos new := by
  rw [overwrite_append l hpos]
  exact take_left' (length_overwrite l hpos new)

/-- What a reader at the place of the write finds. -/
theorem slice_overwrite (n : Nat) :
    slice (overwrite l pos new) pos n = (new ++ l.drop (pos + new.length)).take n := by
  unfold slice overwrite
  rw [append_assoc, drop_left' (length_take_of_le hpos)]

end Overwrite

end Lists

/-! ## A writer and a reader -/

variable {slots : Fd → Prop}

/-- The write requests of some chunks, all answered. -/
def writes (fd : Fd) (chunks : List (List α)) : List (Op Fd File α × Reply Fd α) :=
  chunks.map (fun c => (.write fd c, .count c.length))

/-- The read requests of some sizes, with what they gave. -/
def reads (fd : Fd) (answers : List (Nat × List α)) : List (Op Fd File α × Reply Fd α) :=
  answers.map (fun a => (.read fd a.1, .items a.2.length a.2))

variable {s : Store Fd File α} {chunks : List (List α)}

/-- **A sequence of writes** puts the chunks one after another, and moves no other
cursor. -/
theorem Steps.writes_spec {s' : Store Fd File α} {w : Fd} {f : File} {pos : Nat}
    (h : Steps slots s (writes w chunks) s')
    (hopen : s.cursor w = some (f, pos)) (hpos : pos ≤ (s.contents f).length) :
    s'.contents f = overwrite (s.contents f) pos chunks.flatten ∧
      ∀ fd, fd ≠ w → s'.cursor fd = s.cursor fd := by
  induction chunks generalizing s pos with
  | nil =>
    cases h
    exact ⟨by simp [overwrite], fun _ _ => rfl⟩
  | cons c chunks ih =>
    obtain _ | ⟨head, tail⟩ := h
    cases head with
    | write _ hcursor =>
      obtain ⟨rfl, rfl⟩ := Prod.mk.inj (Option.some.inj (hopen.symm.trans hcursor))
      have hlong := length_overwrite (s.contents f) hpos c
      have hend : pos + c.length ≤ ((s.setContents f (overwrite (s.contents f) pos c)).contents
          f).length := by
        show _ ≤ (update s.contents f _ f).length
        rw [update_self, hlong]
        exact Nat.le_max_right _ _
      obtain ⟨hcontents, hothers⟩ := ih tail (update_self _ _ _) hend
      refine ⟨?_, ?_⟩
      · rw [hcontents]
        show overwrite (update s.contents f _ f) _ _ = _
        rw [update_self, overwrite_overwrite _ hpos, flatten_cons]
      · intro fd hne
        rw [hothers fd hne]
        exact update_of_ne hne _ _

variable {answers : List (Nat × List α)}

/-- **A sequence of reads** gives the file from the cursor on. -/
theorem Steps.reads_spec {s' : Store Fd File α} {r : Fd} {f : File} {pos : Nat}
    (h : Steps slots s (reads r answers) s')
    (hopen : s.cursor r = some (f, pos)) :
    (answers.map snd).flatten = slice (s.contents f) pos (answers.map fst).sum := by
  induction answers generalizing s pos with
  | nil => simp [slice]
  | cons a answers ih =>
    obtain ⟨n, l⟩ := a
    obtain _ | ⟨head, tail⟩ := h
    generalize hreply : Reply.items l.length l = reply at head
    cases head with
    | read _ hcursor =>
      obtain ⟨rfl, rfl⟩ := Prod.mk.inj (Option.some.inj (hopen.symm.trans hcursor))
      have hl : l = slice (s.contents f) pos n := (Reply.items.inj hreply).2
      have hrest := ih tail (update_self _ _ _)
      show l ++ (answers.map snd).flatten = slice _ _ (n + (answers.map fst).sum)
      rw [hrest, hl, ← slice_append]
      rfl
    | readClosed _ _ => cases hreply

/-- **What was written is read.**  Two descriptors of one file at one position: whatever
the chunks of the writes and the sizes of the reads, the reader gets the chunks one
after another, then the rest of the file. -/
theorem Steps.written_is_read {s₁ s₂ : Store Fd File α} {w r : Fd} {f : File} {pos : Nat}
    (hwrites : Steps slots s (writes w chunks) s₁)
    (hreads : Steps slots s₁ (reads r answers) s₂) (hw : s.cursor w = some (f, pos))
    (hr : s.cursor r = some (f, pos)) (hne : r ≠ w) (hpos : pos ≤ (s.contents f).length) :
    (answers.map snd).flatten =
      (chunks.flatten ++ (s.contents f).drop (pos + chunks.flatten.length)).take
        (answers.map fst).sum := by
  obtain ⟨hcontents, hothers⟩ := hwrites.writes_spec hw hpos
  rw [hreads.reads_spec ((hothers r hne).trans hr), hcontents, slice_overwrite _ hpos]

end CursorFiles
