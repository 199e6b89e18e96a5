import Mathlib.Logic.Function.Basic
import NamelessOS.ByteOrder

/-!
# Memory in 64-bit words

Kernel data structures are accessed in aligned 64-bit words and in aligned
halves of them, so memory maps the address of each word to its contents.
Addresses split into a page and an offset: two cells are the same exactly when
both parts agree, which is what every separation argument comes down to.
-/

namespace WordMemory

open List Function BitVec

open BitVec (ofNat)

/-- The contents of the word at each (8-aligned) address. -/
abbrev Memory := U64 → U64

/-- The 32-bit field at the lower address of a word. -/
def lo (w : U64) : U32 := w.setWidth 32

/-- The 32-bit field at the higher address of a word. -/
def hi (w : U64) : U32 := (w >>> 32).setWidth 32

/-- The word with its lower field replaced. -/
def withLo (w : U64) (v : U32) : U64 := (hi w).setWidth 64 <<< 32 ||| v.setWidth 64

/-- The word with its higher field replaced. -/
def withHi (w : U64) (v : U32) : U64 := v.setWidth 64 <<< 32 ||| (lo w).setWidth 64

section

variable (w : U64) (v : U32)

@[simp] theorem lo_withLo : lo (withLo w v) = v := by
  ext i hi
  simp [lo, withLo]

@[simp] theorem lo_withHi : lo (withHi w v) = lo w := by
  ext i hi
  simp [lo, withHi]

@[simp] theorem hi_withHi : hi (withHi w v) = v := by
  ext i hi
  have hlt : 32 + i < 64 := by omega
  simp [WordMemory.hi, withHi, hi, hlt]

end

/-! ## Block operations -/

/-- `memset(dst, 0, n)`, for `n` a multiple of the word size. -/
def fillZero (m : Memory) (dst : U64) (n : Nat) : Memory :=
  fun x => if (x - dst).toNat < n then 0#64 else m x

/-- `memcpy(dst, src, 8 * n)`, word by word from the low end. -/
def copyWords (m : Memory) (dst src : U64) (n : Nat) : Memory := (List.range n).foldl (fun m j =>
    update m (dst + ofNat 64 (8 * j)) (m (src + ofNat 64 (8 * j)))) m

variable {n off : Nat} {x b dst : U64}

/-- A copy writes its destination range only. -/
theorem copyWords_of_outside (m : Memory) (dst src : U64)
    (h : ∀ j < n, x ≠ dst + ofNat 64 (8 * j)) : copyWords m dst src n x = m x := by
  induction n with
  | zero => rfl
  | succ n ih =>
    unfold copyWords at ih ⊢
    rw [range_succ, foldl_append]
    dsimp only [foldl_cons, foldl_nil]
    rw [update_of_ne (h n (Nat.lt_succ_self n))]
    exact ih (fun j hj => h j (Nat.lt_succ_of_lt hj))

/-- Writing `v j` to `addr j` for `j < n`, one after the other. -/
theorem foldl_write {addr : Nat → U64} {v : Nat → U64} (m : Memory)
    (hinj : ∀ i < n, ∀ j < n, addr i = addr j → i = j) :
    (∀ j < n, (List.range n).foldl (fun m j => update m (addr j) (v j)) m (addr j) = v j) ∧
      ∀ x, (∀ j < n, x ≠ addr j) →
        (List.range n).foldl (fun m j => update m (addr j) (v j)) m x = m x := by
  induction n with
  | zero => exact ⟨fun j hj => absurd hj (Nat.not_lt_zero j), fun _ _ => rfl⟩
  | succ n ih =>
    obtain ⟨hin, hout⟩ := ih (fun i hi j hj => hinj i (by omega) j (by omega))
    rw [range_succ, foldl_append]
    dsimp only [foldl_cons, foldl_nil]
    constructor
    · intro j hj
      by_cases hjn : j = n
      · subst hjn
        exact update_self _ _ _
      · have hlt : j < n := by omega
        rw [update_of_ne]
        · exact hin j hlt
        · exact fun heq => hjn (hinj j hj n (Nat.lt_succ_self n) heq)
    · intro x hx
      rw [update_of_ne (hx n (Nat.lt_succ_self n))]
      exact hout x (fun j hj => hx j (by omega))

/-! ## Pages and offsets -/

/-- The page an address lies in, by masking the low 12 bits. -/
def pageOf (a : U64) : U64 := a &&& ~~~4095#64

def PageAligned (b : U64) : Prop := b.toNat % 4096 = 0

instance (b : U64) : Decidable (PageAligned b) := inferInstanceAs (Decidable (_ = _))

/-- The cell `off` bytes into the page `b`. -/
def cell (b : U64) (off : Nat) : U64 := b + ofNat 64 off

@[simp] theorem cell_zero (b : U64) : cell b 0 = b := by
  simp [cell]

theorem toNat_pageOf (a : U64) : (pageOf a).toNat = a.toNat / 4096 * 4096 := by
  have hshift : pageOf a = (a >>> 12) <<< 12 := by
    ext i hi
    interval_cases i <;> simp [pageOf]
  rw [hshift, toNat_shiftLeft, toNat_ushiftRight, Nat.shiftLeft_eq,
    Nat.shiftRight_eq_div_pow, Nat.mod_eq_of_lt]
  omega

theorem pageAligned_pageOf (a : U64) : PageAligned (pageOf a) := by
  unfold PageAligned
  rw [toNat_pageOf]
  omega

/-- Offsets below the page size do not wrap. -/
theorem toNat_cell (hb : PageAligned b) (hoff : off < 4096) :
    (cell b off).toNat = b.toNat + off := by
  unfold PageAligned at hb
  rw [cell, toNat_add, toNat_ofNat]
  omega

theorem pageOf_cell (hb : PageAligned b) (hoff : off < 4096) :
    pageOf (cell b off) = b := by
  apply eq_of_toNat_eq
  rw [toNat_pageOf, toNat_cell hb hoff]
  unfold PageAligned at hb
  omega

/-- Clearing part of a page leaves the other pages alone. -/
theorem fillZero_outside (m : Memory) (hdst : PageAligned dst) (hn : n ≤ 4096)
    (hx : pageOf x ≠ dst) : fillZero m dst n x = m x := by
  refine if_neg (fun hlt => hx ?_)
  have hcell : x = cell dst (x - dst).toNat := by
    rw [cell, ofNat_toNat, setWidth_eq, add_comm, sub_add_cancel]
  rw [hcell]
  exact pageOf_cell hdst (by omega)

theorem fillZero_cell (m : Memory) (dst : U64) (hoff : off < n) (hn : n ≤ 4096) :
    fillZero m dst n (cell dst off) = 0#64 := by
  refine if_pos ?_
  rw [cell, add_comm, add_sub_cancel, toNat_ofNat]
  omega

/-- **Two cells agree exactly when page and offset do.** -/
theorem cell_inj {b' : U64} (hb : PageAligned b) (hb' : PageAligned b') {off' : Nat}
    (hoff : off < 4096) (hoff' : off' < 4096) :
    cell b off = cell b' off' ↔ b = b' ∧ off = off' := by
  grind [pageOf_cell, toNat_cell]

/-- Every address is a cell of its page. -/
theorem exists_cell (x : U64) : ∃ off < 4096, x = cell (pageOf x) off := by
  refine ⟨x.toNat % 4096, Nat.mod_lt _ (by decide), ?_⟩
  apply eq_of_toNat_eq
  rw [toNat_cell (pageAligned_pageOf x) (Nat.mod_lt _ (by decide)), toNat_pageOf]
  omega

/-- A copy between two pages. -/
theorem copyWords_page (m : Memory) {src : U64} (hd : PageAligned dst) (hs : PageAligned src)
    (hne : src ≠ dst) (hn : n ≤ 512) :
    (∀ j < n, copyWords m dst src n (cell dst (8 * j)) = m (cell src (8 * j))) ∧
      ∀ x, pageOf x ≠ dst → copyWords m dst src n x = m x := by
  have hout : ∀ n ≤ 512, ∀ x, pageOf x ≠ dst → copyWords m dst src n x = m x := by
    intro n hn x hx
    refine copyWords_of_outside m dst src (fun j hj heq => hx ?_)
    rw [heq]
    exact pageOf_cell hd (by omega)
  refine ⟨?_, hout n hn⟩
  induction n with
  | zero => exact fun j hj => absurd hj (Nat.not_lt_zero j)
  | succ n ih =>
    intro j hj
    have hstep : copyWords m dst src (n + 1) = update (copyWords m dst src n)
        (cell dst (8 * n)) (copyWords m dst src n (cell src (8 * n))) := by
      unfold copyWords cell
      rw [range_succ, foldl_append]
      rfl
    rw [hstep]
    grind [pageOf_cell, cell_inj]

/-- A page-sized `memset` clears its page and nothing else. -/
theorem fillZero_page (m : Memory) (hb : PageAligned b) (x : U64) :
    fillZero m b 4096 x = if pageOf x = b then 0#64 else m x := by
  unfold fillZero
  have hiff : (x - b).toNat < 4096 ↔ pageOf x = b := by
    constructor
    · intro h
      have hx : x = cell b (x - b).toNat := by
        rw [cell, ofNat_toNat, setWidth_eq, add_comm, sub_add_cancel]
      rw [hx]
      exact pageOf_cell hb h
    · rintro rfl
      obtain ⟨off, hoff, hx⟩ := exists_cell x
      have hsub : x - pageOf x = ofNat 64 off := by
        conv_lhs => rw [hx, pageOf_cell (pageAligned_pageOf x) hoff, cell]
        simp
      rw [hsub, toNat_ofNat]
      omega
  simp only [hiff]

end WordMemory
