import NamelessOS.ByteOrder
import NamelessOS.WordBitmap

/-!
# The physical frame allocator

`pmm.c`: a bitmap with one bit per 4 KB frame of the first 4 GiB, filled at
boot from the Multiboot2 memory map and scanned first-fit afterwards.  All
address arithmetic is 64-bit and wraps, as in the source.

The Multiboot2 block is read from physical memory, given as a function from
addresses to bytes; the two loops of `pmm_init` advance by amounts found
there, so they take fuel and `none` means that the loop has not ended yet.
The log lines and the two counters that only feed them are not modelled.
-/

namespace Pmm

open ByteOrder WordBitmap
open BitVec (ofNat)

def frameSize : Nat := 4096

/-- `PMM_MAX_FRAMES`: 4 GiB of 4 KB frames. -/
def pmmMaxFrames : Nat := 1048576

def pmmBitmapWords : Nat := 16384

def kernelVma : U64 := 0xFFFFFFFF80000000#64

/-- `pmm_state_t`; a set bit is a frame in use. -/
structure PmmState where
  bitmap : Words
  totalFrames : U64
  freeFrames : U64
  mb2InfoPhys : U64
  deriving Inhabited

/-- What the linker script promises about the image: it is loaded from
physical `0x100000` on, so its end lies above that in the higher half. -/
structure KernelImage where
  kernelEnd : U64
  bitmapAddr : U64
  loaded : kernelVma + 0x100000#64 ≤ kernelEnd

/-- The physical address one past the image. -/
def KernelImage.kendPhys (img : KernelImage) : U64 := img.kernelEnd - kernelVma

/-! ## Marking ranges -/

/-- `if (free_frames > 0) free_frames--`. -/
def decFree (s : PmmState) : PmmState :=
  if 0#64 < s.freeFrames then { s with freeFrames := s.freeFrames - 1#64 } else s

/-- One round of the loop of `mark_range_used`. -/
def markUsed (s : PmmState) (f : Nat) : PmmState :=
  if test s.bitmap f then s else decFree { s with bitmap := set s.bitmap f }

/-- One round of the loop of `mark_range_free`. -/
def markFree (s : PmmState) (f : Nat) : PmmState :=
  if test s.bitmap f then
    { s with bitmap := clear s.bitmap f, freeFrames := s.freeFrames + 1#64 }
  else s

/-- `for (f = from; f < min(to, PMM_MAX_FRAMES); f++)`. -/
def frameRange (first past : U64) : List Nat :=
  List.range' first.toNat (min past.toNat pmmMaxFrames - first.toNat)

def markRangeUsed (s : PmmState) (base length : U64) : PmmState :=
  (frameRange (base / 4096#64) ((base + length + 4096#64 - 1#64) / 4096#64)).foldl markUsed s

def markRangeFree (s : PmmState) (base length : U64) : PmmState :=
  (frameRange (base / 4096#64) ((base + length) / 4096#64)).foldl markFree s

/-! ## Boot -/

def readU32 (mem : U64 → U8) (a : U64) : U32 :=
  load32 (mem a) (mem (a + 1#64)) (mem (a + 2#64)) (mem (a + 3#64))

def readU64 (mem : U64 → U8) (a : U64) : U64 :=
  (readU32 mem (a + 4#64)).setWidth 64 <<< 32 ||| (readU32 mem a).setWidth 64

def mb2TagEnd : U32 := 0#32
def mb2TagMmap : U32 := 6#32
def mb2MmapAvailable : U32 := 1#32

/-- One `mb2_mmap_entry_t`: base at 0, length at 8, type at 16. -/
def mmapEntry (mem : U64 → U8) (entryAddr : U64) (s : PmmState) : PmmState :=
  let baseAddr := readU64 mem entryAddr
  if readU32 mem (entryAddr + 16#64) = mb2MmapAvailable ∧ 0#64 < baseAddr then
    markRangeFree s baseAddr (readU64 mem (entryAddr + 8#64))
  else s

/-- The inner loop of `pmm_init`, over the entries of one memory-map tag. -/
def walkEntries (mem : U64 → U8) (mmapEnd entrySize : U64) : Nat → U64 → PmmState → Option PmmState
  | 0, _, _ => none
  | fuel + 1, entryAddr, s =>
    if entryAddr < mmapEnd then
      walkEntries mem mmapEnd entrySize fuel (entryAddr + entrySize) (mmapEntry mem entryAddr s)
    else some s

/-- The outer loop of `pmm_init`, over the tags. -/
def walkTags (mem : U64 → U8) (endAddr : U64) : Nat → U64 → PmmState → Option PmmState
  | 0, _, _ => none
  | fuel + 1, tagAddr, s =>
    if tagAddr < endAddr then
      let type := readU32 mem tagAddr
      let size := readU32 mem (tagAddr + 4#64)
      -- the rounding up to 8 is done on the 32-bit size
      let next := tagAddr + ((size + 7#32).setWidth 64 &&& ~~~7#64)
      if type = mb2TagEnd then some s
      else if type = mb2TagMmap then
        let entrySize := readU32 mem (tagAddr + 8#64)
        (walkEntries mem (tagAddr + size.setWidth 64) (entrySize.setWidth 64) fuel
          (tagAddr + 16#64) s).bind (walkTags mem endAddr fuel next)
      else walkTags mem endAddr fuel next s
    else some s

/-- The part of `pmm_init` after the walk: frame 0, the image and the bitmap
itself are taken back. -/
def reserveKernel (img : KernelImage) (s : PmmState) : PmmState :=
  let s := decFree { s with bitmap := set s.bitmap 0 }
  let s := markRangeUsed s 0x100000#64 (img.kendPhys - 0x100000#64)
  markRangeUsed s (img.bitmapAddr - kernelVma) (8#64 * ofNat 64 pmmBitmapWords)

/-- `pmm_init`, with the value it returns. -/
def pmmInit (img : KernelImage) (mem : U64 → U8) (fuel : Nat) (s : PmmState) :
    Option (PmmState × Int) :=
  let s := { s with
    bitmap := fun _ => ~~~0#64
    totalFrames := ofNat 64 pmmMaxFrames
    freeFrames := 0#64 }
  if s.mb2InfoPhys = 0#64 then some (s, -1)
  else
    let endAddr := s.mb2InfoPhys + (readU32 mem s.mb2InfoPhys).setWidth 64
    (walkTags mem endAddr fuel (s.mb2InfoPhys + 8#64) s).map
      (fun s => (reserveKernel img s, 0))

/-! ## Frames -/

/-- `pmm_alloc_frame`: the first clear bit, or 0. -/
def pmmAllocFrame (s : PmmState) : PmmState × U64 :=
  match firstClear s.bitmap pmmBitmapWords with
  | none => (s, 0#64)
  | some frame =>
    if pmmMaxFrames ≤ frame then (s, 0#64)
    else
      ({ s with bitmap := set s.bitmap frame, freeFrames := s.freeFrames - 1#64 },
        ofNat 64 (frame * frameSize))

/-- The frame of an address. -/
def frameOf (phys : U64) : Nat := phys.toNat / frameSize

/-- `pmm_free_frame`. -/
def pmmFreeFrame (s : PmmState) (phys : U64) : PmmState :=
  let frame := frameOf phys
  if pmmMaxFrames ≤ frame then s
  else if test s.bitmap frame then
    { s with bitmap := clear s.bitmap frame, freeFrames := s.freeFrames + 1#64 }
  else s

/-! ## What each routine does to the bitmap -/

@[simp] theorem decFree_bitmap (s : PmmState) : (decFree s).bitmap = s.bitmap := by
  unfold decFree
  split <;> rfl

@[simp] theorem test_markUsed (s : PmmState) (f g : Nat) :
    test (markUsed s f).bitmap g = (decide (g = f) || test s.bitmap g) := by
  unfold markUsed
  split
  · rename_i hset
    by_cases hgf : g = f
    · subst hgf
      simp [hset]
    · simp [hgf]
  · simp

/-- The loop of `mark_range_used` sets the frames it visits. -/
theorem test_foldl_markUsed (fs : List Nat) (s : PmmState) (g : Nat) :
    test (fs.foldl markUsed s).bitmap g = (decide (g ∈ fs) || test s.bitmap g) := by
  induction fs generalizing s with
  | nil => simp
  | cons f fs ih =>
    rw [List.foldl_cons, ih, test_markUsed]
    by_cases hgf : g = f <;> simp [hgf]

variable {f g : Nat}

theorem mem_frameRange {first past : U64} : f ∈ frameRange first past ↔
      first.toNat ≤ f ∧ f < past.toNat ∧ f < pmmMaxFrames := by
  rw [frameRange, List.mem_range'_1]
  omega

/-- `mark_range_used` clears nothing. -/
theorem markRangeUsed_keeps {s : PmmState} (base length : U64)
    (h : test s.bitmap g = true) : test (markRangeUsed s base length).bitmap g = true := by
  rw [markRangeUsed, test_foldl_markUsed, h, Bool.or_true]

/-- `mark_range_used` sets its range. -/
theorem markRangeUsed_covers (s : PmmState) {base length : U64}
    (h : g ∈ frameRange (base / 4096#64) ((base + length + 4096#64 - 1#64) / 4096#64)) :
    test (markRangeUsed s base length).bitmap g = true := by
  rw [markRangeUsed, test_foldl_markUsed, decide_eq_true h, Bool.true_or]

/-- The address of a frame below 4 GiB. -/
theorem frame_address {frame : Nat} (h : frame < pmmMaxFrames) :
    (ofNat 64 (frame * frameSize)).toNat = frame * frameSize := by
  unfold pmmMaxFrames at h
  rw [BitVec.toNat_ofNat, Nat.mod_eq_of_lt]
  unfold frameSize
  omega

theorem address_injective (hf : f < pmmMaxFrames) (hg : g < pmmMaxFrames)
    (h : ofNat 64 (f * frameSize) = ofNat 64 (g * frameSize)) : f = g := by
  have hnat := congrArg BitVec.toNat h
  rw [frame_address hf, frame_address hg] at hnat
  exact Nat.eq_of_mul_eq_mul_right (by decide) hnat

theorem frameOf_address (hf : f < pmmMaxFrames) :
    frameOf (ofNat 64 (f * frameSize)) = f := by
  rw [frameOf, frame_address hf]
  exact Nat.mul_div_cancel f (by decide)

theorem address_ne_zero (hf : f < pmmMaxFrames) (hpos : f ≠ 0) :
    ofNat 64 (f * frameSize) ≠ 0#64 := by
  intro h
  exact hpos (address_injective hf (by decide) (h.trans (by rfl)))

/-- **What `pmm_alloc_frame` can do**: take the lowest clear bit and return its frame,
or return 0 because every bit is set. -/
inductive AllocOutcome (s : PmmState) : PmmState × U64 → Prop
  | full (hfull : ∀ f < pmmMaxFrames, test s.bitmap f = true) : AllocOutcome s (s, 0#64)
  | frame (f : Nat) (hmax : f < pmmMaxFrames) (hclear : test s.bitmap f = false)
      (hlow : ∀ g < f, test s.bitmap g = true) :
      AllocOutcome s
        ({ s with bitmap := set s.bitmap f, freeFrames := s.freeFrames - 1#64 },
          ofNat 64 (f * frameSize))

theorem pmmAllocFrame_outcome (s : PmmState) : AllocOutcome s (pmmAllocFrame s) := by
  have hwords : pmmBitmapWords * 64 = pmmMaxFrames := rfl
  unfold pmmAllocFrame
  split
  · rename_i hnone
    exact .full (by simpa only [hwords] using firstClear_none hnone)
  · rename_i frame hsome
    obtain ⟨hlt, hclear, hlow⟩ := firstClear_some hsome
    rw [if_neg (by omega)]
    exact .frame frame hlt hclear hlow

/-- Freeing clears one bit at most. -/
theorem test_pmmFreeFrame (s : PmmState) (phys : U64) (g : Nat)
    (hmax : frameOf phys < pmmMaxFrames) : test (pmmFreeFrame s phys).bitmap g =
      (!decide (g = frameOf phys) && test s.bitmap g) := by
  unfold pmmFreeFrame
  rw [if_neg (Nat.not_le.mpr hmax)]
  split
  · exact test_clear s.bitmap _ g
  · rename_i hclear
    by_cases hg : g = frameOf phys
    · subst hg
      simpa using hclear
    · simp [hg]

end Pmm
