import Mathlib.Data.List.Nodup
import Mathlib.Logic.Function.Basic

/-!
# Null-terminated chains

Singly linked lists threaded through a `next` function, as a kernel keeps them
in memory.  `Chain next null a l` says that following `next` from `a` visits
exactly the nodes of `l` and ends in `null`.  Such a chain has no repeated
node, survives any change of `next` off its nodes, and the usual removal loop
(`while (*p && *p != target) p = &(*p)->next; if (*p) *p = target->next`)
erases its target.
-/

namespace LinkedChain

open List

open Function (update update_of_ne)

universe u

variable {α : Type u}

/-- Following `next` from `a` visits `l` and then reaches `null`. -/
def Chain (next : α → α) (null : α) : α → List α → Prop
  | a, [] => a = null
  | a, x :: xs => a = x ∧ x ≠ null ∧ Chain next null (next x) xs

variable {next next' : α → α} {null a : α} {l : List α}

/-- Only the nodes' own links matter. -/
theorem Chain.congr (h : Chain next null a l) (hsame : ∀ x ∈ l, next' x = next x) :
    Chain next' null a l := by
  induction l generalizing a with
  | nil => exact h
  | cons x xs ih =>
    obtain ⟨rfl, hne, hrest⟩ := h
    refine ⟨rfl, hne, ?_⟩
    rw [hsame a mem_cons_self]
    exact ih hrest (fun y hy => hsame y (mem_cons_of_mem a hy))

theorem Chain.eq_nil (h : Chain next null null l) : l = [] := by
  cases l with
  | nil => rfl
  | cons x xs => exact absurd h.1.symm h.2.1

section

variable (h : Chain next null a l)
include h

theorem Chain.uncons (hne : a ≠ null) : ∃ xs, l = a :: xs ∧ Chain next null (next a) xs := by
  cases l with
  | nil => exact absurd h hne
  | cons x xs =>
    obtain ⟨rfl, -, hrest⟩ := h
    exact ⟨xs, rfl, hrest⟩

theorem Chain.ne_null {x : α} (hx : x ∈ l) : x ≠ null := by
  induction l generalizing a with
  | nil => cases hx
  | cons y ys ih =>
    obtain ⟨rfl, hne, hrest⟩ := h
    rcases mem_cons.mp hx with rfl | hx
    · exact hne
    · exact ih hrest hx

/-- A start has one chain. -/
theorem Chain.det {l' : List α} (h' : Chain next null a l') : l = l' := by
  induction l generalizing a l' with
  | nil =>
    cases h
    exact h'.eq_nil.symm
  | cons x xs ih =>
    obtain ⟨rfl, hne, hrest⟩ := h
    obtain ⟨ys, rfl, hrest'⟩ := h'.uncons hne
    rw [ih hrest hrest']

end

/-- The chain from one of the nodes. -/
theorem Chain.drop {ys zs : List α} {x : α} (h : Chain next null a (ys ++ x :: zs)) :
    Chain next null x (x :: zs) := by
  induction ys generalizing a with
  | nil =>
    obtain ⟨rfl, hne, hrest⟩ := h
    exact ⟨rfl, hne, hrest⟩
  | cons y ys ih => exact ih h.2.2

/-- **A null-terminated chain never returns to a node.** -/
theorem Chain.nodup (h : Chain next null a l) : l.Nodup := by
  induction l generalizing a with
  | nil => exact nodup_nil
  | cons x xs ih =>
    refine nodup_cons.mpr ⟨?_, ih h.2.2⟩
    intro hmem
    obtain ⟨ys, zs, rfl⟩ := append_of_mem hmem
    obtain ⟨rfl, -, -⟩ := id h
    -- both occurrences of the node start the same chain
    have hfirst : Chain next null a (a :: (ys ++ a :: zs)) := h
    have hlen := congrArg List.length (hfirst.det h.2.2.drop)
    simp at hlen
    omega

section Unlink

variable [DecidableEq α]

/-- Bypassing a node. -/
theorem Chain.splice {ys post : List α} {x target : α}
    (h : Chain next null a (ys ++ x :: target :: post)) :
    Chain (update next x (next target)) null a (ys ++ x :: post) := by
  induction ys generalizing a with
  | nil =>
    have hnd := h.nodup
    obtain ⟨rfl, hne, htarget, -, hpost⟩ := h
    refine ⟨rfl, hne, ?_⟩
    grind [congr]
  | cons y ys ih =>
    have hnd := h.nodup
    obtain ⟨rfl, hne, hrest⟩ := h
    refine ⟨rfl, hne, ?_⟩
    rw [update_of_ne]
    · exact ih hrest
    · rintro rfl
      exact (nodup_cons.mp hnd).1 (by simp)

/-- A place that holds a link: the list's head or a node's own link. -/
inductive Slot (α : Type u)
  | head
  | next (x : α)

def Slot.load (head : α) (next : α → α) : Slot α → α
  | .head => head
  | .next x => next x

/-- `while (*p && *p != target) p = &(*p)->next`; `none` when the fuel ends. -/
def findSlot (head : α) (next : α → α) (null target : α) : Nat → Slot α → Option (Slot α)
  | 0, _ => none
  | fuel + 1, p =>
    let v := p.load head next
    if v = null ∨ v = target then some p
    else findSlot head next null target fuel (.next v)

/-- The removal loop followed by `if (*p) *p = target->next`: the new head
and the new links. -/
def unlink (head : α) (next : α → α) (null target : α) (fuel : Nat) : Option (α × (α → α)) :=
  (findSlot head next null target fuel .head).map (fun p =>
    if p.load head next = null then (head, next)
    else match p with
      | .head => (next target, next)
      | .next x => (head, update next x (next target)))

variable {head target : α} {fuel : Nat}

/-- Where the search stops: at the end, or at the slot before the target. -/
theorem findSlot_chain {p : Slot α} (h : Chain next null (p.load head next) l)
    (hfuel : l.length < fuel) : ∃ q, findSlot head next null target fuel p = some q ∧
      ((target ∉ l ∧ q.load head next = null) ∨
        ∃ pre post, l = pre ++ target :: post ∧ q.load head next = target ∧
          q = (pre.getLast?.map Slot.next).getD p) := by
  induction l generalizing p fuel with
  | nil =>
    obtain ⟨fuel, rfl⟩ : ∃ k, fuel = k + 1 := ⟨fuel - 1, by simp at hfuel; omega⟩
    refine ⟨p, ?_, .inl ⟨not_mem_nil, h⟩⟩
    rw [findSlot]
    exact if_pos (.inl h)
  | cons x xs ih =>
    obtain ⟨fuel, rfl⟩ : ∃ k, fuel = k + 1 := ⟨fuel - 1, by simp at hfuel; omega⟩
    obtain ⟨hload, hne, hrest⟩ := h
    rw [findSlot]
    by_cases hx : x = target
    · subst hx
      exact ⟨p, if_pos (.inr hload), .inr ⟨[], xs, rfl, hload, rfl⟩⟩
    · have hstep : ¬ (p.load head next = null ∨ p.load head next = target) := by
        rw [hload]
        exact not_or.mpr ⟨hne, hx⟩
      rw [if_neg hstep, hload]
      obtain ⟨q, hq, hcase⟩ := ih (p := .next x) hrest (Nat.lt_of_succ_lt_succ hfuel)
      grind

/-- **The removal loop erases its target** and writes to nodes of the chain
only. -/
theorem unlink_chain (target : α) (h : Chain next null head l) (hfuel : l.length < fuel) :
    ∃ head' next', unlink head next null target fuel = some (head', next') ∧
      Chain next' null head' (l.erase target) ∧ ∀ x, x ∉ l → next' x = next x := by
  have hslots : Chain next null (Slot.load head next .head) l := h
  obtain ⟨q, hq, hcase⟩ := findSlot_chain hslots hfuel
  unfold unlink
  rw [hq, Option.map_some]
  rcases hcase with ⟨hnot, hend⟩ | ⟨pre, post, rfl, hat, hslot⟩
  · rw [if_pos hend, erase_of_not_mem hnot]
    exact ⟨head, next, rfl, h, fun _ _ => rfl⟩
  · have hdrop := h.drop
    have hne : q.load head next ≠ null := by
      rw [hat]
      exact hdrop.2.1
    rw [if_neg hne]
    have hpre : target ∉ pre := by
      grind [Chain.nodup, nodup_append]
    have herase : (pre ++ target :: post).erase target = pre ++ post := by
      rw [erase_append_right _ hpre, erase_cons_head]
    rw [herase]
    rcases eq_nil_or_concat pre with rfl | ⟨ys, x, rfl⟩
    · subst hslot
      exact ⟨next target, next, rfl, hdrop.2.2, fun _ _ => rfl⟩
    · have hlast : q = .next x := by simpa using hslot
      subst hlast
      refine ⟨head, update next x (next target), rfl, ?_, ?_⟩
      · have hsplice : Chain next null head (ys ++ x :: target :: post) := by simpa using h
        simpa using hsplice.splice
      · intro y hy
        refine update_of_ne ?_ _ _
        rintro rfl
        exact hy (by simp)

end Unlink

end LinkedChain
