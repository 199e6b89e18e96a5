import NamelessOS.Heap

/-!
# Size classes and the layout of a slab

Plain arithmetic behind `heap.c`: which cache serves a request, where the
objects of a slab lie, and that for the classes up to 2048 bytes the
descriptor leaves room for at least one object.  In the class of 4096 bytes
the descriptor, rounded up to the object size, fills the whole frame.
-/

namespace Heap

open Pmm LinkedChain WordMemory
open BitVec (ofNat shiftLeft_zero toNat_ofNat)

/-- The object size of cache `i`. -/
def classSize (i : Nat) : Nat := 8 * 2 ^ i

/-- The offset of the first object: the descriptor's 32 bytes, rounded up. -/
def classHdr (i : Nat) : Nat := if i ≤ 2 then 32 else classSize i

/-- The number of objects in a slab. -/
def classTotal (i : Nat) : Nat := (4096 - classHdr i) / classSize i

/-- The offset of object `k`. -/
def objectOffset (i k : Nat) : Nat := classHdr i + k * classSize i

/-- The address of object `k` of the slab at `b`. -/
def object (b : U64) (i k : Nat) : U64 := cell b (objectOffset i k)

/-- The cache that serves a request. -/
def sizeClass (size : U64) : Nat := cacheIndex (roundUpPow2 (if size < 8#64 then 8#64 else size))

/-! ## The code's numbers -/

theorem slabHdrSize_class : ∀ i ≤ 9,
    slabHdrSize ((ofNat 32 (classSize i)).setWidth 64) = ofNat 64 (classHdr i) := by
  decide

theorem slabTotal_class : ∀ i ≤ 9,
    ((slabSize - slabHdrSize ((ofNat 32 (classSize i)).setWidth 64)) /
      (ofNat 32 (classSize i)).setWidth 64).setWidth 32 = ofNat 32 (classTotal i) := by
  decide

theorem cacheIndex_class : ∀ i ≤ 9,
    cacheIndex ((ofNat 32 (classSize i)).setWidth 64) = i := by
  decide

theorem class_in_range : ∀ i ≤ 9,
    8#32 ≤ ofNat 32 (classSize i) ∧ ofNat 32 (classSize i) ≤ 4096#32 := by
  decide

/-- Up to 2048 bytes a slab has its descriptor, at least one object, and
nothing past the frame. -/
theorem class_bounds : ∀ i ≤ 8,
    32 ≤ classHdr i ∧ classHdr i + classTotal i * classSize i ≤ 4096 ∧ 8 ≤ classSize i ∧
      0 < classTotal i ∧ classTotal i ≤ 508 := by
  decide

/-- The rounding loop doubles until the size fits. -/
theorem roundUpFrom_spec (size : U64) (left : Nat) (s : U64) :
    ∃ j ≤ left, roundUpFrom size left s = s <<< j ∧ (∀ j' < j, s <<< j' < size) ∧
      (j < left → size ≤ s <<< j) := by
  induction left generalizing s with
  | zero =>
    refine ⟨0, le_rfl, (shiftLeft_zero s).symm, ?_, ?_⟩
    · intro j' hj'
      exact absurd hj' (Nat.not_lt_zero j')
    · intro h
      exact absurd h (Nat.lt_irrefl 0)
  | succ left ih =>
    rw [roundUpFrom]
    split
    · rename_i hlt
      obtain ⟨j, hj, hval, hbelow, hfit⟩ := ih (s <<< 1)
      have hshift : ∀ k, (s <<< 1) <<< k = s <<< (k + 1) := by
        intro k
        rw [← BitVec.shiftLeft_add, Nat.add_comm]
      refine ⟨j + 1, by omega, by rw [hval, hshift], ?_, ?_⟩
      · intro j' hj'
        rcases j' with _ | j'
        · rwa [shiftLeft_zero]
        · rw [← hshift]
          exact hbelow j' (by omega)
      · intro h
        rw [← hshift]
        exact hfit (by omega)
    · rename_i hge
      refine ⟨0, Nat.zero_le _, (shiftLeft_zero s).symm, ?_, ?_⟩
      · intro j' hj'
        exact absurd hj' (Nat.not_lt_zero j')
      · intro _
        rw [shiftLeft_zero]
        exact BitVec.not_lt.mp hge

variable {size : U64}

/-- A slab request is served by the smallest class that holds it. -/
theorem sizeClass_fit (hmax : size ≤ 4096#64) :
    sizeClass size ≤ 9 ∧ size.toNat ≤ classSize (sizeClass size) ∧
      ∀ j < sizeClass size, classSize j < max 8 size.toNat := by
  have hclass : ∀ j ≤ 9, cacheIndex (8#64 <<< j) = j ∧ (8#64 <<< j).toNat = classSize j := by
    decide
  obtain ⟨j, hj, hval, hbelow, hfit⟩ := roundUpFrom_spec (if size < 8#64 then 8#64 else size) 9 8#64
  grind [sizeClass, roundUpPow2, BitVec.lt_def]

/-- A request of at most 2048 bytes is served by a class that holds it. -/
theorem sizeClass_spec (hmax : size ≤ 2048#64) :
    sizeClass size ≤ 8 ∧ size.toNat ≤ classSize (sizeClass size) := by
  obtain ⟨hle, hfit, hbelow⟩ := sizeClass_fit (BitVec.le_trans hmax (by decide))
  refine ⟨?_, hfit⟩
  by_contra hcon
  have hlarge := hbelow 8 (by omega)
  have height : classSize 8 = 2048 := by decide
  have := BitVec.le_def.mp hmax
  simp only [toNat_ofNat, Nat.reducePow, Nat.reduceMod] at this
  omega

/-- The pages of a large request whose size does not wrap. -/
theorem toNat_numPages (h : size.toNat + 4103 < 2 ^ 64) :
    (numPages size).toNat = (size.toNat + 4103) / 4096 := by
  have hsum : (size + 8#64 + slabSize - 1#64).toNat = size.toNat + 4103 := by
    unfold slabSize
    bv_omega
  rw [numPages, BitVec.toNat_udiv, hsum]
  rfl

theorem numPages_pos (h : size.toNat + 4103 < 2 ^ 64) (hlarge : 4096#64 < size) :
    1 < (numPages size).toNat := by
  have hlt := BitVec.lt_def.mp hlarge
  rw [toNat_numPages h]
  simp only [toNat_ofNat] at hlt
  omega

/-! ## Objects -/

variable {b b' : U64} {i k k' : Nat}

theorem objectOffset_bounds (hi : i ≤ 8) (hk : k < classTotal i) :
    32 ≤ objectOffset i k ∧ objectOffset i k + classSize i ≤ 4096 := by
  obtain ⟨hhdr, hfit, -, -, -⟩ := class_bounds i hi
  have hmul : (k + 1) * classSize i ≤ classTotal i * classSize i := Nat.mul_le_mul_right _ hk
  rw [Nat.succ_mul] at hmul
  unfold objectOffset
  omega

theorem objectOffset_lt (hi : i ≤ 8) (hk : k < classTotal i) : objectOffset i k < 4096 := by
  obtain ⟨-, hfit⟩ := objectOffset_bounds hi hk
  obtain ⟨-, -, hsize, -, -⟩ := class_bounds i hi
  omega

/-- Different objects of a slab do not overlap. -/
theorem objectOffset_apart (h : k < k') : objectOffset i k + classSize i ≤ objectOffset i k' := by
  have hmul : (k + 1) * classSize i ≤ k' * classSize i := Nat.mul_le_mul_right _ h
  rw [Nat.succ_mul] at hmul
  unfold objectOffset
  omega

theorem objectOffset_inj (hi : i ≤ 8) (h : objectOffset i k = objectOffset i k') : k = k' := by
  obtain ⟨-, -, hsize, -, -⟩ := class_bounds i hi
  rcases Nat.lt_trichotomy k k' with hlt | heq | hgt
  · have := objectOffset_apart (i := i) hlt
    omega
  · exact heq
  · have := objectOffset_apart (i := i) hgt
    omega

section

variable (hb : PageAligned b) (hi : i ≤ 8) (hk : k < classTotal i)
include hb hi hk

theorem pageOf_object :
    pageOf (object b i k) = b :=
  pageOf_cell hb (objectOffset_lt hi hk)

theorem object_inj
    (hk' : k' < classTotal i) (h : object b i k = object b i k') : k = k' :=
  objectOffset_inj hi
    ((cell_inj hb hb (objectOffset_lt hi hk) (objectOffset_lt hi hk')).mp h).2

/-- Objects lie past the descriptor. -/
theorem object_ne_header {off : Nat}
    (hoff : off < 32) : object b i k ≠ cell b off := by
  obtain ⟨hpast, -⟩ := objectOffset_bounds hi hk
  intro h
  have := ((cell_inj hb hb (objectOffset_lt hi hk) (by omega)).mp h).2
  omega

theorem object_ne_zero :
    object b i k ≠ 0#64 := by
  obtain ⟨hpast, -⟩ := objectOffset_bounds hi hk
  intro h
  have hnat := toNat_cell hb (objectOffset_lt hi hk)
  rw [← object, h] at hnat
  simp only [toNat_ofNat] at hnat
  omega

end

/-- Where the code's loop puts object `k`. -/
theorem object_address (b : U64) (i k : Nat) :
    b + ofNat 64 (classHdr i) + ofNat 64 k * ofNat 64 (classSize i) =
      object b i k := by
  rw [object, cell, objectOffset, BitVec.ofNat_add, BitVec.ofNat_mul, BitVec.add_assoc]

end Heap
