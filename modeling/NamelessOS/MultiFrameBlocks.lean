import NamelessOS.HeapSafety
import NamelessOS.KernelWindow

/-!
# Buffers of several frames

Two places put frames of the PMM together to one buffer: `large_alloc`, which counts on its
frames being contiguous, and `init_launch_impl`, whose kernel stack is "two consecutive
frames".  Both take the frames one at a time from a first-fit bitmap, so what they get is
consecutive exactly when the lowest clear bits are.  A block in frames from 2 GiB on has
addresses that wrap: the kernel's accesses then go to the frames 2 GiB below.
-/

namespace Heap

open Pmm WordBitmap BitVec
open BitVec (ofNat)

/-- The frame was free before and is in use now. -/
def Obtained (before after : PmmState) (f : Nat) : Prop :=
  f < pmmMaxFrames ∧ test before.bitmap f = false ∧ test after.bitmap f = true

/-- **Every frame under a large block, header included, is one that the call obtained.** -/
def CoversObtained (h : HeapState) (size : U64) : Prop := ∀ k < size.toNat + 8,
    Obtained h.pmm (kmalloc h size).1.pmm
      (frameOf (bootPhys ((kmalloc h size).2 - 8#64 + ofNat 64 k)))

theorem not_obtained_self (pmm : PmmState) (f : Nat) : ¬ Obtained pmm pmm f := by
  rintro ⟨-, hbefore, hafter⟩
  rw [hbefore] at hafter
  cases hafter

theorem toNat_numPages_wrapped {size : U64} (h : ¬ size.toNat + 4103 < 2 ^ 64) :
    (numPages size).toNat ≤ 1 := by
  have hsum : (size + 8#64 + slabSize - 1#64).toNat = size.toNat + 4103 - 2 ^ 64 := by
    unfold slabSize
    bv_omega
  rw [numPages, toNat_udiv, hsum]
  show (size.toNat + 4103 - 2 ^ 64) / 4096 ≤ 1
  omega

/-- The frame that an access to byte `k` of the block at frame `f` reaches. -/
theorem frameOf_block {f k : Nat} (hk : f * 4096 + k < 2 ^ 33) :
    frameOf (bootPhys (physToVirt (ofNat 64 (f * frameSize)) + 8#64 - 8#64 + ofNat 64 k)) =
      if f * 4096 + k < 2 ^ 31 then f + k / 4096 else f + k / 4096 - 0x80000 := by
  have hvma : kernelVma.toNat = 0xFFFFFFFF80000000 := rfl
  have haddr : (physToVirt (ofNat 64 (f * frameSize)) + 8#64 - 8#64 + ofNat 64 k).toNat =
      (0xFFFFFFFF80000000 + f * 4096 + k) % 2 ^ 64 := by
    rw [add_sub_cancel, toNat_add, Vmm.toNat_physToVirt, toNat_ofNat, toNat_ofNat]
    unfold frameSize
    omega
  generalize physToVirt (ofNat 64 (f * frameSize)) + 8#64 - 8#64 + ofNat 64 k = va at haddr
  unfold bootPhys frameOf
  show _ / 4096 = _
  by_cases hlow : f * 4096 + k < 2 ^ 31
  · have hwin : kernelVma ≤ va := by
      rw [le_def, hvma]
      omega
    rw [if_pos hwin, if_pos hlow, virtToPhys, toNat_sub_of_le hwin, hvma]
    omega
  · have hwin : ¬ kernelVma ≤ va := by
      rw [le_def, hvma]
      omega
    rw [if_neg hwin, if_neg hlow]
    omega

/-- **Large blocks.**  A block that is handed out lies in frames of its own exactly when the
size does not wrap and the lowest clear frames follow each other and lie in the window. -/
theorem coversObtained_iff (h : HeapState) {size : U64} (hlarge : 4096#64 < size)
    (hsome : (kmalloc h size).2 ≠ 0#64) : CoversObtained h size ↔
      size.toNat + 4103 < 2 ^ 64 ∧ Unbroken h.pmm (numPages size).toNat ∧
        InWindow h.pmm (numPages size).toNat := by
  have hsize : 4096 < size.toNat := lt_def.mp hlarge
  have hcall : kmalloc h size = largeAlloc h size := by
    rw [kmalloc, if_neg, if_pos hlarge]
    rintro rfl
    exact absurd hsize (by decide)
  have hout := largeAlloc_outcome h size
  unfold CoversObtained
  rw [hcall] at hsome ⊢
  generalize largeAlloc h size = r at hout hsome
  cases hout with
  | none pmm hkeep => exact absurd rfl hsome
  | short f n hmax hpos hclear => exact absurd rfl hsome
  | empty hpages =>
    refine iff_of_false (fun hall => not_obtained_self h.pmm _ (hall 0 (by omega))) ?_
    grind [numPages_pos]
  | block f hpages hmax hpos hclear hlow hok =>
    have hf : f < 1048576 := hmax
    by_cases hnowrap : size.toNat + 4103 < 2 ^ 64
    · have hcount := toNat_numPages hnowrap
      constructor
      · intro hall
        -- a byte beyond the window is one of a frame below `f`, which is not clear
        have hwin : f + (numPages size).toNat ≤ 0x80000 := by
          by_contra hbeyond
          have hbyte := hall ((max f 0x80000 - f) * 4096) (by omega)
          rw [frameOf_block (by omega), if_neg (by omega)] at hbyte
          obtain ⟨-, hbefore, -⟩ := hbyte
          rw [hlow _ (by omega)] at hbefore
          cases hbefore
        refine ⟨hnowrap, ?_, ?_⟩
        · -- the page with number `j` of the block is one of its frames
          rintro f' hlow' hclear' j hj ⟨g, hgj, hgmax, hg⟩
          obtain rfl : f = f' := eq_base_of_lowest hmax hclear hlow hlow' (fun _ => hclear')
          have hpage := hall (j * 4096) (by omega)
          rw [frameOf_block (by omega), if_pos (by omega),
            Nat.mul_div_cancel j (by decide)] at hpage
          exact hpage.2.1
        · intro f' hmax' hlow' hclear'
          obtain rfl : f = f' := eq_base_of_lowest hmax hclear hlow hlow' (fun _ => hclear')
          exact hwin
      · rintro ⟨-, hrun, hwindow⟩ k hk
        have hwin := hwindow f hmax hlow hclear
        obtain ⟨hmax', hclear', ⟨g, hgmax, haddr, hused⟩, -⟩ :=
          block_frames hrun hmax hpos hclear hlow hok (k / 4096) (by omega)
        rw [frameOf_block (by omega), if_pos (by omega)]
        rw [← address_injective hmax' hgmax haddr] at hused
        exact ⟨hmax', hclear', hused⟩
    · -- the call got one frame, and the next one is part of the block
      refine iff_of_false (fun hall => ?_) (fun hcond => hnowrap hcond.1)
      have hone : (numPages size).toNat - 1 = 0 := by
        have := toNat_numPages_wrapped hnowrap
        omega
      have hnext := hall 4096 (by omega)
      rw [frameOf_block (by omega), hone] at hnext
      obtain ⟨-, hbefore, hafter⟩ := hnext
      generalize hg : (if f * 4096 + 4096 < 2 ^ 31 then f + 4096 / 4096
        else f + 4096 / 4096 - 0x80000) = g at hbefore hafter
      have hsame : test (set h.pmm.bitmap f) g = true := hafter
      rw [test_set, hbefore, Bool.or_false, decide_eq_true_eq] at hsame
      split at hg <;> omega

/-! ## The kernel stack of init -/

/-- `KSTACK_SIZE`. -/
def kstackSize : U64 := 8192#64

/-- The stack of the new process: `kstack` goes into its descriptor, `kstack_top` into its
first frame and its saved stack pointer. -/
structure InitKstack where
  kstack : U64
  kstackTop : U64
  deriving DecidableEq

/-- Step 5 of `init_launch_impl`, up to `kstack_top`; the memory is zeroed elsewhere. -/
def initKstack (s : PmmState) : PmmState × Option InitKstack :=
  let frame0 := pmmAllocFrame s
  let frame1 := pmmAllocFrame frame0.1
  if frame0.2 = 0#64 ∨ frame1.2 = 0#64 then
    (if frame0.2 ≠ 0#64 then pmmFreeFrame frame1.1 frame0.2 else frame1.1, none)
  else (frame1.1, some ⟨frame0.2, frame1.2 + 4096#64⟩)

/-- The stack pointer that `scheduler_yield` loads for a process. -/
def schedulerRsp0 (kstack : U64) : U64 := kstack + kstackSize

theorem initKstack_frames {s : PmmState} {k : InitKstack} (hk : (initKstack s).2 = some k) :
    ∃ f g, f < g ∧ g < pmmMaxFrames ∧ (∀ i < f, test s.bitmap i = true) ∧
      test s.bitmap f = false ∧ (∀ i, f < i → i < g → test s.bitmap i = true) ∧
      test s.bitmap g = false ∧ k.kstack = ofNat 64 (f * frameSize) ∧
      k.kstackTop = ofNat 64 (g * frameSize) + 4096#64 := by
  unfold initKstack at hk
  dsimp only at hk
  have hout := pmmAllocFrame_outcome s
  generalize pmmAllocFrame s = r at hout hk
  cases hout with
  | full hfull =>
    cases hk
  | frame f hmax hclear hlow =>
    generalize hs : ({ s with
      bitmap := set s.bitmap f, freeFrames := s.freeFrames - 1#64 } : PmmState) = s' at hk
    have hout' := pmmAllocFrame_outcome s'
    generalize pmmAllocFrame s' = r' at hout' hk
    cases hout' with
    | full hfull =>
      rw [if_pos (.inr rfl)] at hk
      cases hk
    | frame g hgmax hgclear hglow =>
      split_ifs at hk
      cases hk
      rw [← hs, test_set, Bool.or_eq_false_iff, decide_eq_false_iff_not] at hgclear
      have hlt : f < g := by
        grind
      refine ⟨f, g, hlt, hgmax, hlow, hclear, fun i hfi hig => ?_, hgclear.2, rfl, rfl⟩
      have hset := hglow i hig
      rwa [← hs, test_set, decide_eq_false (by omega), Bool.false_or] at hset

/-- **The kernel stack of init** is one block of `KSTACK_SIZE` bytes exactly when the two
lowest clear frames follow each other. -/
theorem initKstack_top_iff {s : PmmState} {k : InitKstack} (hk : (initKstack s).2 = some k) :
    k.kstackTop = schedulerRsp0 k.kstack ↔ Unbroken s 2 := by
  obtain ⟨f, g, hfg, hgmax, hlow, hclear, hbetween, hgclear, hkstack, htop⟩ := initKstack_frames hk
  have hg : g < 1048576 := hgmax
  have hnat : k.kstackTop = schedulerRsp0 k.kstack ↔ g = f + 1 := by
    rw [hkstack, htop, schedulerRsp0, kstackSize, frameSize]
    constructor
    · intro heq
      bv_omega
    · rintro rfl
      bv_omega
  rw [hnat]
  constructor
  · rintro rfl f' hlow' hclear' j hj -
    grind [Nat.lt_succ_iff_lt_or_eq]
  · intro hrun
    have hnext := hrun f hlow hclear 1 (by decide) ⟨g, hfg, hgmax, hgclear⟩
    by_contra hne
    rw [hbetween (f + 1) (by omega) (by omega)] at hnext
    cases hnext

/-- **Buffers of several frames are contiguous exactly when the clear frames are**: large
blocks, whose size must not wrap and whose frames must lie in the window, and the kernel
stack of init. -/
theorem multi_frame_buffers_contiguous_iff (h : HeapState) (size : U64) (s : PmmState) :
    (4096#64 < size → (kmalloc h size).2 ≠ 0#64 → (CoversObtained h size ↔
        size.toNat + 4103 < 2 ^ 64 ∧ Unbroken h.pmm (numPages size).toNat ∧
          InWindow h.pmm (numPages size).toNat)) ∧
      ∀ k, (initKstack s).2 = some k → (k.kstackTop = schedulerRsp0 k.kstack ↔ Unbroken s 2) :=
  ⟨fun hlarge hsome => coversObtained_iff h hlarge hsome, fun _ hk => initKstack_top_iff hk⟩

theorem multi_frame_buffers_contiguous_openFrames : CoversObtained openWorld.heap 5000#64 ∧
      (initKstack openFrames).2 = some ⟨0x200000#64, 0x202000#64⟩ ∧
      (0x202000#64 : U64) = schedulerRsp0 0x200000#64 := by
  have hk : (initKstack openFrames).2 = some ⟨0x200000#64, 0x202000#64⟩ := by decide +kernel
  obtain ⟨hblock, hstack⟩ := multi_frame_buffers_contiguous_iff openWorld.heap 5000#64 openFrames
  exact ⟨(hblock (by decide) (by decide +kernel)).mpr
      ⟨by decide, unbroken_openFrames _,
        inWindow_of_clear (g := 512) (by decide +kernel) (by decide)⟩, hk,
    (hstack _ hk).mpr (unbroken_openFrames 2)⟩

/-- Three frames have been allocated after boot; the first and the third are free again. -/
def holedFrames : PmmState :=
  let s := (pmmAllocFrame (pmmAllocFrame (pmmAllocFrame openFrames).1).1).1
  pmmFreeFrame (pmmFreeFrame s 0x200000#64) 0x202000#64

def holedHeap : HeapState := { openWorld.heap with pmm := holedFrames }

/-- The second page of the block is a frame of another owner, and the stack that
`scheduler_yield` sets up begins at the top of that frame. -/
theorem holed_frames_shared : (kmalloc holedHeap 5000#64).2 = 0xFFFFFFFF80200008#64 ∧
      test holedHeap.pmm.bitmap (frameOf (bootPhys (0xFFFFFFFF80200008#64 - 8#64 + 4096#64))) = true ∧
      ¬ CoversObtained holedHeap 5000#64 ∧
      (initKstack holedFrames).2 = some ⟨0x200000#64, 0x203000#64⟩ ∧
      (0x203000#64 : U64) ≠ schedulerRsp0 0x200000#64 := by
  have hblock : (kmalloc holedHeap 5000#64).2 = 0xFFFFFFFF80200008#64 := by decide +kernel
  have hother : test holedHeap.pmm.bitmap
      (frameOf (bootPhys (0xFFFFFFFF80200008#64 - 8#64 + ofNat 64 4096))) = true := by
    decide +kernel
  refine ⟨hblock, hother, fun hall => ?_, by decide +kernel, by decide⟩
  obtain ⟨-, hfree, -⟩ := hall 4096 (by decide)
  rw [hblock, hother] at hfree
  cases hfree

end Heap
