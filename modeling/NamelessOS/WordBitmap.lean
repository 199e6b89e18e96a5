import Mathlib.Data.BitVec
import Mathlib.Data.Finset.Card
import Mathlib.Data.Finset.Range
import Mathlib.Logic.Function.Basic

/-!
# Bitmaps in 64-bit words

A set of natural numbers kept as the bits of consecutive 64-bit words, with
the two operations that matter for an allocator: flipping one bit, and
scanning for the first clear bit while skipping words that are all ones.
`test` is the only observation; the lemmas say what each operation does to it
and to the number of clear bits.
-/

namespace WordBitmap

open List BitVec

open Function (update update_of_ne update_self)

abbrev Words := Nat → BitVec 64

/-- Bit `i` as the code reads it: shift the word down and mask. -/
def test (bm : Words) (i : Nat) : Bool := (bm (i / 64) >>> (i % 64)) &&& 1#64 != 0#64

def set (bm : Words) (i : Nat) : Words :=
  update bm (i / 64) (bm (i / 64) ||| 1#64 <<< (i % 64))

def clear (bm : Words) (i : Nat) : Words :=
  update bm (i / 64) (bm (i / 64) &&& ~~~(1#64 <<< (i % 64)))

/-- The lowest clear bit of a word. -/
def firstClearBit (word : BitVec 64) : Option Nat :=
  (List.range 64).find? (fun b => (word >>> b) &&& 1#64 == 0#64)

/-- The first clear bit of word `w`; a full word is skipped without looking at
its bits. -/
def clearInWord (bm : Words) (w : Nat) : Option Nat :=
  if bm w = ~~~0#64 then none else (firstClearBit (bm w)).map (fun b => w * 64 + b)

/-- The first clear bit of the first `n` words. -/
def firstClear (bm : Words) (n : Nat) : Option Nat := (List.range n).findSome? (clearInWord bm)

theorem low_bit_eq_zero_iff (word : BitVec 64) (b : Nat) :
    (word >>> b) &&& 1#64 = 0#64 ↔ word.getLsbD b = false := by
  constructor
  · intro h
    have hbit := congrArg (fun v => v.getLsbD 0) h
    simpa using hbit
  · intro h
    apply eq_of_getLsbD_eq
    intro j hj
    by_cases hj0 : j = 0
    · subst hj0
      simpa using h
    · simp [hj0]

theorem test_eq_getLsbD (bm : Words) (i : Nat) : test bm i = (bm (i / 64)).getLsbD (i % 64) := by
  cases hbit : (bm (i / 64)).getLsbD (i % 64) with
  | false => simpa [test] using (low_bit_eq_zero_iff _ _).mpr hbit
  | true =>
    have hne : ¬ (bm (i / 64) >>> (i % 64)) &&& 1#64 = 0#64 := by
      rw [low_bit_eq_zero_iff, hbit]
      simp
    simpa [test] using hne

variable {b w : Nat}

/-- The mask with one bit set. -/
theorem getLsbD_one_shiftLeft {c : Nat} (hc : c < 64) :
    (1#64 <<< b).getLsbD c = decide (c = b) := by
  rw [getLsbD_shiftLeft]
  rcases Nat.lt_trichotomy c b with h | rfl | h
  · have hne : c ≠ b := by omega
    simp [hc, h, hne]
  · simp [hc]
  · have hne : c ≠ b := by omega
    have hpos : c - b ≠ 0 := by omega
    simp [hne, hpos]

/-- Setting a bit changes that bit only. -/
@[simp] theorem test_set (bm : Words) (i j : Nat) :
    test (set bm i) j = (decide (j = i) || test bm j) := by
  rw [test_eq_getLsbD, test_eq_getLsbD, set]
  by_cases hword : j / 64 = i / 64
  · have hbit : j % 64 = i % 64 ↔ j = i := by omega
    rw [hword, update_self, getLsbD_or,
      getLsbD_one_shiftLeft (Nat.mod_lt j (by decide)), Bool.or_comm, decide_eq_decide.mpr hbit]
  · have hji : j ≠ i := fun h => hword (by rw [h])
    rw [update_of_ne hword, decide_eq_false hji, Bool.false_or]

/-- Clearing a bit changes that bit only. -/
@[simp] theorem test_clear (bm : Words) (i j : Nat) :
    test (clear bm i) j = (!decide (j = i) && test bm j) := by
  rw [test_eq_getLsbD, test_eq_getLsbD, clear]
  by_cases hword : j / 64 = i / 64
  · have hbit : j % 64 = i % 64 ↔ j = i := by omega
    have hlt : j % 64 < 64 := Nat.mod_lt j (by decide)
    rw [hword, update_self, getLsbD_and, getLsbD_not,
      getLsbD_one_shiftLeft hlt, decide_eq_true hlt, Bool.true_and, Bool.and_comm,
      decide_eq_decide.mpr hbit]
  · have hji : j ≠ i := fun h => hword (by rw [h])
    rw [update_of_ne hword, decide_eq_false hji, Bool.not_false, Bool.true_and]

/-- A word that is not all ones has a clear bit below 64. -/
theorem firstClearBit_isSome {word : BitVec 64} (h : word ≠ ~~~0#64) :
    ∃ b, firstClearBit word = some b := by
  rcases hfind : firstClearBit word with _ | b
  · refine absurd ?_ h
    apply eq_of_getLsbD_eq
    intro j hj
    have hall := List.find?_eq_none.mp hfind j (mem_range.mpr hj)
    rw [beq_iff_eq, low_bit_eq_zero_iff, Bool.not_eq_false] at hall
    rw [hall, getLsbD_not, decide_eq_true hj, getLsbD_zero]
    rfl
  · exact ⟨b, rfl⟩

theorem firstClearBit_spec {word : BitVec 64} (h : firstClearBit word = some b) :
    b < 64 ∧ word.getLsbD b = false ∧ ∀ c < b, word.getLsbD c = true := by
  obtain ⟨hzero, hmem, hbelow⟩ := List.find?_range_eq_some.mp h
  rw [beq_iff_eq, low_bit_eq_zero_iff] at hzero
  refine ⟨mem_range.mp hmem, hzero, fun c hc => ?_⟩
  have hset := hbelow c hc
  rw [Bool.not_eq_true', beq_eq_false_iff_ne, Ne, low_bit_eq_zero_iff, Bool.not_eq_false] at hset
  exact hset

variable {bm : Words}

/-- A word is passed over only if all its bits are set. -/
theorem clearInWord_none (h : clearInWord bm w = none) :
    ∀ b < 64, (bm w).getLsbD b = true := by
  intro b hb
  unfold clearInWord at h
  split at h
  · rename_i hfull
    rw [hfull, getLsbD_not, decide_eq_true hb, getLsbD_zero]
    rfl
  · rename_i hfull
    obtain ⟨c, hc⟩ := firstClearBit_isSome hfull
    rw [hc] at h
    cases h

variable {i n : Nat}

theorem clearInWord_some (h : clearInWord bm w = some i) :
    i / 64 = w ∧ (bm w).getLsbD (i % 64) = false ∧ ∀ c < i % 64, (bm w).getLsbD c = true := by
  unfold clearInWord at h
  split at h
  · cases h
  · obtain ⟨b, hb, rfl⟩ := Option.map_eq_some_iff.mp h
    obtain ⟨hb64, hspec⟩ := firstClearBit_spec hb
    grind

/-- **What the scan finds is the lowest clear bit of the scanned words.** -/
theorem firstClear_some (h : firstClear bm n = some i) :
    i < n * 64 ∧ test bm i = false ∧ ∀ j < i, test bm j = true := by
  obtain ⟨before, w, after, hsplit, hword, hskip⟩ := List.findSome?_eq_some_iff.mp h
  obtain ⟨hdiv, hclear, hlow⟩ := clearInWord_some hword
  have hwn : w < n := by
    have hmem : w ∈ List.range n := hsplit ▸ mem_append_right _ mem_cons_self
    exact mem_range.mp hmem
  refine ⟨by omega, by rw [test_eq_getLsbD, hdiv, hclear], fun j hj => ?_⟩
  rw [test_eq_getLsbD]
  by_cases hjw : j / 64 = w
  · rw [hjw]
    exact hlow _ (by omega)
  · -- an earlier word, which the scan has passed over
    have hsorted : (before ++ w :: after).Pairwise (· < ·) := hsplit ▸ pairwise_lt_range
    rw [pairwise_append, pairwise_cons] at hsorted
    have hall : j / 64 ∈ before ++ w :: after := by
      rw [← hsplit]
      exact mem_range.mpr (by omega)
    grind [clearInWord_none]

/-- **The scan fails only when every bit of the scanned words is set.** -/
theorem firstClear_none (h : firstClear bm n = none) : ∀ i < n * 64, test bm i = true := by
  intro i hi
  have hk : i / 64 < n := by omega
  have hword := List.findSome?_eq_none_iff.mp h (i / 64) (mem_range.mpr hk)
  rw [test_eq_getLsbD]
  exact clearInWord_none hword _ (Nat.mod_lt i (by decide))

/-! ## Counting the clear bits -/

/-- The clear ones among the first `n` bits. -/
def clearBits (bm : Words) (n : Nat) : Finset Nat :=
  (Finset.range n).filter (fun i => test bm i = false)

theorem mem_clearBits : i ∈ clearBits bm n ↔ i < n ∧ test bm i = false := by
  rw [clearBits, Finset.mem_filter, Finset.mem_range]

theorem card_clearBits_le (bm : Words) (n : Nat) : (clearBits bm n).card ≤ n := by
  simpa [clearBits] using Finset.card_filter_le (Finset.range n) (fun i => test bm i = false)

theorem card_clearBits_eq_zero : (clearBits bm n).card = 0 ↔ ∀ i < n, test bm i = true := by
  simp [clearBits, Finset.filter_eq_empty_iff]

theorem clearBits_set (bm : Words) (n i : Nat) :
    clearBits (set bm i) n = (clearBits bm n).erase i := by
  ext j
  simp only [mem_clearBits, test_set, Finset.mem_erase, Bool.or_eq_false_iff,
    decide_eq_false_iff_not]
  tauto

/-- Setting a clear bit takes one from the count. -/
theorem card_clearBits_set (hi : i < n) (hclear : test bm i = false) :
    (clearBits (set bm i) n).card + 1 = (clearBits bm n).card := by
  rw [clearBits_set]
  exact Finset.card_erase_add_one (mem_clearBits.mpr ⟨hi, hclear⟩)

/-- Clearing a set bit adds one to it. -/
theorem card_clearBits_clear (hi : i < n) (hset : test bm i = true) :
    (clearBits (clear bm i) n).card = (clearBits bm n).card + 1 := by
  have hins : clearBits (clear bm i) n = insert i (clearBits bm n) := by
    ext j
    by_cases hj : j = i
    · subst hj
      simp [mem_clearBits, hi]
    · simp [mem_clearBits, hj]
  have hnew : i ∉ clearBits bm n := by simp [mem_clearBits, hset]
  rw [hins, Finset.card_insert_of_notMem hnew]

end WordBitmap
