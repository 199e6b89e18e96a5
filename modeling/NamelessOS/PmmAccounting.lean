import NamelessOS.PmmOwnership

/-!
# The count of free frames

`pmm.free_frames` is kept beside the bitmap by hand.  Every routine that flips a
bit adjusts it, so it stays equal to the number of clear bits, with one
exception: `pmm_init` takes back frame 0 without asking whether its bit was
clear.  On a memory map that leaves frame 0 alone the count is one short from
then on, unless no frame is left to count.
-/

namespace Pmm

open WordBitmap Runs Finset

/-- The number of clear bits. -/
def clearFrames (s : PmmState) : Nat := (clearBits s.bitmap pmmMaxFrames).card

/-- The count is right. -/
def Balanced (s : PmmState) : Prop := s.freeFrames.toNat = clearFrames s

/-- No frame is left. -/
def Exhausted (s : PmmState) : Prop := ∀ f < pmmMaxFrames, test s.bitmap f = true

/-- The count is one short, or was until the last frame was taken: it is not
taken below 0. -/
def Short (s : PmmState) : Prop := s.freeFrames.toNat + 1 = clearFrames s ∨ Balanced s ∧ Exhausted s

theorem clearFrames_eq_zero {s : PmmState} : clearFrames s = 0 ↔ Exhausted s :=
  card_clearBits_eq_zero

variable {s : PmmState}

/-! ## Flipping one bit -/

theorem toNat_sub_one {n : U64} (h : 0 < n.toNat) : (n - 1#64).toNat = n.toNat - 1 := by
  have hone : 1#64 ≤ n := h
  rw [BitVec.toNat_sub_of_le hone]
  rfl

theorem decFree_freeFrames (s : PmmState) :
    (decFree s).freeFrames.toNat = s.freeFrames.toNat - 1 := by
  unfold decFree
  split
  · rename_i hpos
    exact toNat_sub_one hpos
  · rename_i hzero
    have hzero : s.freeFrames.toNat = 0 := by simpa [BitVec.lt_def] using hzero
    rw [hzero]

variable {f fuel : Nat}

section

variable (h : Balanced s) (hf : f < pmmMaxFrames)
include h hf

/-- The last step of every release: one bit more and one on the count. -/
theorem Balanced.release (hset : test s.bitmap f = true) :
    Balanced { s with bitmap := clear s.bitmap f, freeFrames := s.freeFrames + 1#64 } := by
  have hcard := card_clearBits_clear hf hset
  have hmax := card_clearBits_le s.bitmap pmmMaxFrames
  have hfits : pmmMaxFrames < 2 ^ 63 := by decide
  unfold Balanced clearFrames at *
  rw [hcard, BitVec.toNat_add_of_lt, h]
  · rfl
  · rw [h, BitVec.toNat_ofNat]
    omega

/-- The last step of every taking. -/
theorem Balanced.take (hclear : test s.bitmap f = false) : 0 < s.freeFrames.toNat ∧
      Balanced { s with bitmap := set s.bitmap f, freeFrames := s.freeFrames - 1#64 } := by
  have hcard := card_clearBits_set hf hclear
  unfold Balanced clearFrames at *
  have hpos : 0 < s.freeFrames.toNat := by omega
  refine ⟨hpos, ?_⟩
  dsimp only
  rw [toNat_sub_one hpos]
  omega

/-! ## The memory map -/

theorem Balanced.markFree : Balanced (markFree s f) := by
  unfold Pmm.markFree
  split
  · rename_i hset
    exact h.release hf hset
  · exact h

end

theorem Balanced.markRangeFree (h : Balanced s) (base length : U64) :
    Balanced (markRangeFree s base length) := by
  refine List.foldlRecOn _ _ h fun s hs f hf => ?_
  exact hs.markFree (mem_frameRange.mp hf).2.2

theorem Balanced.mmapEntry (h : Balanced s) (mem : U64 → U8) (entryAddr : U64) :
    Balanced (mmapEntry mem entryAddr s) := by
  unfold Pmm.mmapEntry
  dsimp only
  split
  · exact h.markRangeFree _ _
  · exact h

variable {mem : U64 → U8}

theorem Balanced.walkEntries {mmapEnd entrySize : U64}
    {entryAddr : U64} {s' : PmmState} (h : Balanced s)
    (hwalk : walkEntries mem mmapEnd entrySize fuel entryAddr s = some s') : Balanced s' := by
  induction fuel generalizing entryAddr s with
  | zero => cases hwalk
  | succ fuel ih =>
    rw [Pmm.walkEntries] at hwalk
    split at hwalk
    · exact ih (h.mmapEntry mem entryAddr) hwalk
    · cases hwalk
      exact h

theorem Balanced.walkTags {endAddr : U64} {tagAddr : U64}
    {s' : PmmState} (h : Balanced s)
    (hwalk : walkTags mem endAddr fuel tagAddr s = some s') : Balanced s' := by
  induction fuel generalizing tagAddr s with
  | zero => cases hwalk
  | succ fuel ih =>
    rw [Pmm.walkTags] at hwalk
    dsimp only at hwalk
    split at hwalk
    · split at hwalk
      · cases hwalk
        exact h
      · split at hwalk
        · obtain ⟨mid, hmid, hrest⟩ := Option.bind_eq_some_iff.mp hwalk
          exact ih (h.walkEntries hmid) hrest
        · exact ih h hwalk
    · cases hwalk
      exact h

/-! ## Taking the kernel back -/

theorem Balanced.markUsed (h : Balanced s) (hf : f < pmmMaxFrames) : Balanced (markUsed s f) := by
  unfold Pmm.markUsed
  split
  · exact h
  · rename_i hclear
    have hcard := card_clearBits_set hf (Bool.eq_false_of_not_eq_true hclear)
    unfold Balanced clearFrames at *
    rw [decFree_freeFrames, decFree_bitmap, h]
    dsimp only
    omega

theorem Short.markUsed (h : Short s) (hf : f < pmmMaxFrames) : Short (markUsed s f) := by
  unfold Pmm.markUsed
  split
  · exact h
  · rename_i hclear
    have hcard := card_clearBits_set hf (Bool.eq_false_of_not_eq_true hclear)
    unfold Short at *
    rw [← clearFrames_eq_zero] at *
    unfold Balanced clearFrames at *
    rw [decFree_freeFrames, decFree_bitmap]
    dsimp only
    omega

theorem Balanced.markRangeUsed (h : Balanced s) (base length : U64) :
    Balanced (markRangeUsed s base length) := by
  refine List.foldlRecOn _ _ h fun s hs f hf => ?_
  exact hs.markUsed (mem_frameRange.mp hf).2.2

theorem Short.markRangeUsed (h : Short s) (base length : U64) :
    Short (markRangeUsed s base length) := by
  refine List.foldlRecOn _ _ h fun s hs f hf => ?_
  exact hs.markUsed (mem_frameRange.mp hf).2.2

/-- Frame 0 is taken back as `mark_range_used` would, if its bit was clear. -/
theorem take_frame_zero (hclear : test s.bitmap 0 = false) :
    decFree { s with bitmap := set s.bitmap 0 } = markUsed s 0 := by
  rw [markUsed, hclear]
  rfl

/-- If its bit was set, the count is decremented all the same. -/
theorem Balanced.frame_zero_twice (h : Balanced s) (hset : test s.bitmap 0 = true) :
    Short (decFree { s with bitmap := set s.bitmap 0 }) := by
  have hsame : clearBits (set s.bitmap 0) pmmMaxFrames = clearBits s.bitmap pmmMaxFrames := by
    rw [clearBits_set, erase_eq_of_notMem]
    simp [mem_clearBits, hset]
  unfold Short
  rw [← clearFrames_eq_zero]
  unfold Balanced clearFrames at *
  rw [decFree_freeFrames, decFree_bitmap]
  dsimp only
  rw [hsame]
  omega

theorem Short.balanced_iff (h : Short s) : Balanced s ↔ Exhausted s := by
  rcases h with hshort | hdone
  · rw [← clearFrames_eq_zero]
    unfold Balanced
    omega
  · exact iff_of_true hdone.1 hdone.2

/-- **When `pmm_init` counts right**: exactly if the memory map had freed frame
0, or no frame is left. -/
theorem reserveKernel_balanced (img : KernelImage) (h : Balanced s) :
    Balanced (reserveKernel img s) ↔ test s.bitmap 0 = false ∨ Exhausted (reserveKernel img s) := by
  unfold reserveKernel
  cases hzero : test s.bitmap 0 with
  | false =>
    rw [take_frame_zero hzero]
    have hmarked := h.markUsed (f := 0) (by decide)
    exact iff_of_true ((hmarked.markRangeUsed _ _).markRangeUsed _ _) (.inl rfl)
  | true =>
    simp only [Bool.true_eq_false, false_or]
    apply Short.balanced_iff
    exact ((h.frame_zero_twice hzero).markRangeUsed _ _).markRangeUsed _ _

/-! ## Boot and the calls after it -/

theorem mappedFrames_balanced {s₀ walked : PmmState}
    (h : mappedFrames mem fuel s₀ = some walked) : Balanced walked := by
  refine Balanced.walkTags ?_ h
  have hset : ∀ f < pmmMaxFrames, test (fun _ => ~~~0#64) f = true := by
    intro f _
    rw [test_eq_getLsbD, BitVec.getLsbD_not, BitVec.getLsbD_zero,
      decide_eq_true (Nat.mod_lt f (by decide))]
    rfl
  exact (card_clearBits_eq_zero.mpr hset).symm

def pmmStep (s : PmmState) : PmmCall → PmmState
  | .alloc => (pmmAllocFrame s).1
  | .free phys => pmmFreeFrame s phys

/-- An allocation does not raise the count and a free does not lower it: it does
not wrap. -/
def CountFollows (s : PmmState) : PmmCall → Prop
  | .alloc => (pmmStep s .alloc).freeFrames ≤ s.freeFrames
  | .free phys => s.freeFrames ≤ (pmmStep s (.free phys)).freeFrames

theorem Balanced.step (h : Balanced s) (call : PmmCall) :
    Balanced (pmmStep s call) ∧ CountFollows s call := by
  cases call with
  | alloc =>
    have hout := pmmAllocFrame_outcome s
    unfold CountFollows pmmStep
    generalize pmmAllocFrame s = r at hout ⊢
    cases hout with
    | full => exact ⟨h, BitVec.le_refl _⟩
    | frame f hmax hclear =>
      grind [take, BitVec.le_def]
  | free phys =>
    unfold CountFollows pmmStep
    unfold pmmFreeFrame
    dsimp only
    split
    · exact ⟨h, BitVec.le_refl _⟩
    · rename_i hmax
      split
      · rename_i hset
        have hfreed := h.release (Nat.not_le.mp hmax) hset
        have hcard := card_clearBits_clear (Nat.not_le.mp hmax) hset
        refine ⟨hfreed, BitVec.le_def.mpr ?_⟩
        unfold Balanced clearFrames at h hfreed
        dsimp only at hfreed ⊢
        omega
      · exact ⟨h, BitVec.le_refl _⟩

/-! ## Allocations in a row -/

/-- The results of `n` calls of `pmm_alloc_frame`. -/
def allocResults : Nat → PmmState → List U64
  | 0, _ => []
  | n + 1, s => (pmmAllocFrame s).2 :: allocResults n (pmmAllocFrame s).1

/-- The free frames, lowest first. -/
def freeList (s : PmmState) : List Nat := (List.range pmmMaxFrames).filter (fun f => !test s.bitmap f)

theorem freeList_take {s : PmmState} {f : Nat} (hmax : f < pmmMaxFrames) (hclear : test s.bitmap f = false)
    (hlow : ∀ g < f, test s.bitmap g = true) (n : U64) :
    freeList s = f :: freeList { s with bitmap := set s.bitmap f, freeFrames := n } := by
  have hsorted : ∀ s, (freeList s).Pairwise (· < ·) := fun s => List.pairwise_lt_range.filter _
  refine (hsorted s).eq_of_mem_iff (List.pairwise_cons.mpr ⟨fun g hg => ?_, hsorted _⟩) (fun g => ?_)
  · grind [freeList, test_set]
  · grind [freeList, test_set]

/-- **Allocations take the free frames lowest first, and all of them**, before they return 0. -/
theorem allocations_exhaust_frames (n : Nat) (s : PmmState) : allocResults n s =
      ((freeList s).map (fun f => BitVec.ofNat 64 (f * frameSize)) ++ List.replicate n 0#64).take n := by
  induction n generalizing s with
  | zero => rfl
  | succ n ih =>
    have hout := pmmAllocFrame_outcome s
    rw [allocResults]
    generalize pmmAllocFrame s = r at hout ⊢
    cases hout with
    | full hfull =>
      have hnone : freeList s = [] := by simpa [freeList] using hfull
      rw [ih, hnone]
      simp [List.replicate_succ]
    | frame f hmax hclear hlow =>
      have hpad : ∀ k, min (n - k) (n + 1) = min (n - k) n := fun k => by omega
      rw [ih, freeList_take hmax hclear hlow (s.freeFrames - 1#64), List.map_cons, List.cons_append,
        List.take_succ_cons, List.take_append, List.take_append, List.take_replicate, List.take_replicate, hpad]

end Pmm
