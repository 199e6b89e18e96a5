import NamelessOS.MappedPages
import NamelessOS.PmmAccounting

/-!
# Mapping new pages

The loop that `sys_mmap` and `elf_load_segment` share: for each page in turn
take a frame, fill it, and map it; a frame that could not be mapped is freed
and the loop left.  What was mapped before that stays.
-/

namespace Vmm

open Pmm WordMemory PageTree WordBitmap List

/-- `PAGE_SIZE`. -/
def pageSize : U64 := 4096#64

/-- The `n` pages from `start` on. -/
def pagesFrom (start : U64) (n : Nat) : List U64 :=
  (List.range n).map (fun i => start + BitVec.ofNat 64 i * pageSize)

/-- The loop; `fill va m frame` is the memory with the frame filled for the page
`va`.  `false` when it was left early. -/
def mapNewPages (fill : U64 → Memory → U64 → Memory) (pml4 flags : U64) : List U64 → Vm → Vm × Bool
  | [], s => (s, true)
  | vaddr :: rest, s =>
    let frame := pmmAllocFrame s.pmm
    if frame.2 = 0#64 then ({ s with pmm := frame.1 }, false)
    else
      let r := vmmMapUserPage { pmm := frame.1, mem := fill vaddr s.mem frame.2 } pml4 vaddr
        frame.2 flags
      if r.2 ≠ 0 then (r.1.free frame.2, false)
      else mapNewPages fill pml4 flags rest r.1

/-- The filling writes its frame only. -/
def FillsFrame (fill : U64 → Memory → U64 → Memory) : Prop :=
  ∀ va m frame x, PageAligned frame → pageOf x ≠ frame → fill va m frame x = m x

/-- `memset` of the whole frame. -/
def zeroPage (_va : U64) (m : Memory) (frame : U64) : Memory := fillZero m frame 4096

theorem zeroPage_fillsFrame : FillsFrame zeroPage :=
  fun _ m _ _ haligned hx => fillZero_outside m haligned le_rfl hx

variable {fill : U64 → Memory → U64 → Memory} {vm : Vm} {live : List U64} {held : U64 → Prop}
  {allowed : U64 → U64 → Prop} {r : U64}

/-! ## Frames -/

variable {pmm' : PmmState}

/-- Where frames in use stay in use, the clear bits are among those before. -/
theorem clearBits_subset {pmm : PmmState} (hkept : ∀ p, PageAligned p → Used pmm p → Used pmm' p) :
    clearBits pmm'.bitmap pmmMaxFrames ⊆ clearBits pmm.bitmap pmmMaxFrames := by
  intro f hf
  obtain ⟨hmax, hclear⟩ := mem_clearBits.mp hf
  refine mem_clearBits.mpr ⟨hmax, Bool.eq_false_iff.mpr fun hset => ?_⟩
  have hframe := frameOf_address hmax
  rcases hkept _ (pageAligned_frame hmax) (.inr (by rwa [hframe])) with hbig | hset'
  · omega
  · rw [hframe, hclear] at hset'
    cases hset'

variable {d va : U64}

/-- And there are fewer if a free frame was taken. -/
theorem clearFrames_lt {pmm : PmmState}
    (hkept : ∀ p, PageAligned p → Used pmm p → Used pmm' p) (hfree : ¬ Used pmm d)
    (hused : Used pmm' d) : clearFrames pmm' < clearFrames pmm := by
  unfold Used at hfree hused
  rw [not_or, Nat.not_le, Bool.not_eq_true] at hfree
  refine Finset.card_lt_card ⟨clearBits_subset hkept, fun hsub => ?_⟩
  have hmem := (mem_clearBits.mp (hsub (mem_clearBits.mpr hfree))).2
  rcases hused with hbig | hset
  · omega
  · rw [hmem] at hset
    cases hset

/-- A frame is taken and filled. -/
theorem extends_take {s : Vm} (htree : Tree 3 s r) {m : Memory} (hfresh : ¬ Used s.pmm d)
    (hused : ∀ p, PageAligned p → (Used pmm' p ↔ Used s.pmm p ∨ p = d))
    (hmem : ∀ x, pageOf x ≠ d → m x = s.mem x) : Extends 3 s ⟨pmm', m⟩ r := by
  have hkept : ∀ p, PageAligned p → Used s.pmm p → Used pmm' p := fun p hp hu => (hused p hp).mpr (.inl hu)
  have hsame : ∀ x, Used s.pmm (pageOf x) → m x = s.mem x :=
    fun x hu => hmem x (fun heq => hfresh (heq ▸ hu))
  have hagree : Agree format 3 s.mem m r := fun x hx => hsame x (htree.used _ hx)
  refine ⟨hkept, fun x hu _ => hsame x hu, htree.congr (s := ⟨pmm', m⟩) hkept hagree, ?_, ?_⟩
  · intro a ha
    exact .inl ((hagree.frames_iff htree.aligned).mp ha)
  · intro j _ hj
    refine hsame _ ?_
    rw [pageOf_slot htree.aligned hj]
    exact htree.used r (frames_root _ _ _)

/-- The pages of a range that does not wrap. -/
theorem mem_pagesFrom {start : U64} {n : Nat} (hfits : start.toNat + n * 4096 < 2 ^ 64)
    (hva : va ∈ pagesFrom start n) : ∃ i < n, va.toNat = start.toNat + i * 4096 := by
  obtain ⟨i, hi, rfl⟩ := mem_map.mp hva
  have hi := mem_range.mp hi
  refine ⟨i, hi, ?_⟩
  unfold pageSize
  rw [BitVec.toNat_add, BitVec.toNat_mul, BitVec.toNat_ofNat, BitVec.toNat_ofNat]
  omega

/-- User addresses in one page. -/
theorem SamePage.page_eq {va' : U64} (h : SamePage va va') (hva : UserAddress va)
    (hva' : UserAddress va') : va.toNat / 4096 = va'.toNat / 4096 := userAddress_page hva hva' h

end Vmm
