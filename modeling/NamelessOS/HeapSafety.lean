import NamelessOS.HeapRun

/-!
# Where blocks lie, and how they are told apart

Two results about whole runs.  For requests of at most 2048 bytes every live
block lies in a frame the heap holds, past the descriptor, apart from every
other.  And a live block is freed and reallocated by its provenance as long as
the word the code tests does not happen to look like an object size in a large
block.  The class of 4096 bytes breaks the first: its objects start where the
frame ends.  An owner's data breaks the second.  Both need the frames of the
heap to lie below 2 GiB: memory is indexed by the kernel's addresses, and from
2 GiB on two of these lead to the same byte.
-/

namespace Heap

open Pmm LinkedChain WordMemory WordBitmap Runs List

/-! ## Placement -/

/-- The block lies in one frame the heap holds, past the descriptor. -/
def Placed (h : HeapState) (blk : Block) : Prop := ∃ phys ∈ h.held, UsedFrame h.pmm phys ∧
    (physToVirt phys).toNat + 32 ≤ blk.ptr.toNat ∧
    blk.ptr.toNat + blk.req.toNat ≤ (physToVirt phys).toNat + 4096

/-- The blocks share no byte. -/
def Apart (blk other : Block) : Prop := blk.ptr.toNat + blk.req.toNat ≤ other.ptr.toNat ∨
    other.ptr.toNat + other.req.toNat ≤ blk.ptr.toNat

/-- Calls of the slab allocator: requests of 1 to 2048 bytes, frees of live
pointers, and anything outside the allocator. -/
def SlabCalls (w : World) : HeapCall → Prop
  | .kmalloc size => size ≠ 0#64 ∧ size ≤ 2048#64
  | .kfree ptr => ptr ∈ w.live.map Block.ptr
  | .krealloc _ _ => False
  | .elsewhere pmm mem => ElsewhereOK w.heap w.live pmm mem

/-- Calls of the slab allocator in which a slab, when one is needed, is created
below 2 GiB, where the kernel's window ends. -/
def SlabsInWindow (w : World) (call : HeapCall) : Prop :=
  SlabCalls w call ∧ ∀ size, call = .kmalloc size →
    (w.heap.caches (sizeClass size)).partialList = 0#64 →
      (pmmAllocFrame w.heap.pmm).2 < 0x80000000#64

variable {h : HeapState} {v : View} {live : List Block} {b : U64} {i k : Nat} {free : List Nat}

section

variable (hc : Consistent h v live)
include hc

variable {blk : Block}

theorem Consistent.slabBlock_span (hs : SlabBlock v blk b i free k) :
    blk.ptr.toNat = b.toNat + objectOffset i k ∧ 32 ≤ objectOffset i k ∧
      objectOffset i k + blk.req.toNat ≤ 4096 := by
  obtain ⟨hi8, -⟩ := hc.slab b i free hs.use
  obtain ⟨hlow, hhigh⟩ := objectOffset_bounds hi8 hs.index
  have hreq := hs.req
  refine ⟨?_, hlow, by omega⟩
  rw [hs.ptr]
  exact toNat_cell (hc.aligned hs.use) (objectOffset_lt hi8 hs.index)

theorem Consistent.slabBlock_placed
    (hs : SlabBlock v blk b i free k) : Placed h blk := by
  obtain ⟨hptr, hlow, hhigh⟩ := hc.slabBlock_span hs
  have hheld := hc.page b _ hs.use
  refine ⟨virtToPhys b, hheld, hc.held _ hheld, ?_, ?_⟩ <;> rw [physToVirt_virtToPhys] <;> omega

/-- Two slab blocks with different addresses share no byte. -/
theorem Consistent.slabBlock_apart {other : Block} {b' : U64}
    {i' k' : Nat} {free' : List Nat} (hs : SlabBlock v blk b i free k)
    (hs' : SlabBlock v other b' i' free' k') (hne : blk.ptr ≠ other.ptr) : Apart blk other := by
  obtain ⟨hptr, hlow, hhigh⟩ := hc.slabBlock_span hs
  obtain ⟨hptr', hlow', hhigh'⟩ := hc.slabBlock_span hs'
  have halign := hc.aligned hs.use
  have halign' := hc.aligned hs'.use
  unfold PageAligned at halign halign'
  unfold Apart
  by_cases hb : b = b'
  · subst hb
    have huse := hs.use.symm.trans hs'.use
    cases huse
    have hreq := hs.req
    have hreq' := hs'.req
    rcases Nat.lt_trichotomy k k' with hlt | rfl | hgt
    · have hapart := objectOffset_apart (i := i) hlt
      omega
    · exact absurd (hs.ptr.trans hs'.ptr.symm) hne
    · have hapart := objectOffset_apart (i := i) hgt
      omega
  · have hnat : b.toNat ≠ b'.toNat := fun heq => hb (BitVec.eq_of_toNat_eq heq)
    omega

end

/-- The slab allocator's part of a run: sound, and with slab blocks only. -/
def SlabSound (w : World) : Prop := Sound w ∧ ∀ blk ∈ w.live, blk.origin ≤ 2048#64

variable {w : World} {call : HeapCall}

theorem SlabCalls.proper (hw : SlabSound w) (hok : SlabCalls w call) : Proper w call := by
  cases call with
  | kmalloc size => exact .inl hok.2
  | kfree ptr =>
    obtain ⟨blk, hblk, rfl⟩ := mem_map.mp hok
    refine ⟨blk, hblk, rfl, fun hlarge => ?_⟩
    have hle := BitVec.le_trans (hw.2 blk hblk) (by decide : 2048#64 ≤ 4096#64)
    exact absurd hle (BitVec.not_le.mpr hlarge)
  | krealloc ptr size => exact absurd hok id
  | elsewhere pmm mem => exact hok

theorem SlabSound.step (hw : SlabSound w) (hok : SlabCalls w call) :
    SlabSound (heapStep w call) := by
  refine ⟨hw.1.step (hok.proper hw), ?_⟩
  cases call with
  | kmalloc size =>
    intro blk hblk
    simp only [heapStep] at hblk
    split at hblk
    · exact hw.2 blk hblk
    · rcases mem_cons.mp hblk with rfl | hblk
      · exact hok.2
      · exact hw.2 blk hblk
  | kfree ptr =>
    intro blk hblk
    simp only [heapStep] at hblk
    split at hblk
    · exact hw.2 blk hblk
    · exact hw.2 blk (mem_without.mp hblk).1
  | krealloc ptr size => exact absurd hok id
  | elsewhere pmm mem => exact hw.2

theorem SlabSound.safe (hw : SlabSound w) :
    (∀ blk ∈ w.live, Placed w.heap blk) ∧ w.live.Pairwise Apart := by
  obtain ⟨⟨-, v, hc⟩, hsmall⟩ := hw
  have hslab : ∀ blk ∈ w.live, ∃ b i free k, SlabBlock v blk b i free k := by
    intro blk hblk
    rcases hc.block blk hblk with hs | ⟨b, hl⟩
    · exact hs
    · exact absurd (BitVec.le_trans (hsmall blk hblk) (by decide)) hl.not_le
  constructor
  · intro blk hblk
    obtain ⟨b, i, free, k, hs⟩ := hslab blk hblk
    exact hc.slabBlock_placed hs
  · have hne : w.live.Pairwise (fun blk other => blk.ptr ≠ other.ptr) :=
      pairwise_map.mp hc.live_nodup
    grind [List.Pairwise.imp_of_mem, Consistent.slabBlock_apart]

/-- **Block safety of the slab allocator.**  In every state of a run of
requests of 1 to 2048 bytes and frees of live pointers with slabs below 2 GiB,
every call has returned, every live block lies in a frame the heap holds past
its descriptor, and no two live blocks share a byte. -/
theorem slab_blocks_safe (pmm : PmmState) (mem : Memory) (caches : Nat → SlabCache)
    (calls : List HeapCall)
    (hcalls : StepsMeet heapStep SlabsInWindow (bootWorld pmm mem caches) calls) :
    let w := run heapStep (bootWorld pmm mem caches) calls
    w.hung = false ∧ (∀ blk ∈ w.live, Placed w.heap blk) ∧ w.live.Pairwise Apart := by
  have hboot : SlabSound (bootWorld pmm mem caches) :=
    ⟨sound_boot pmm mem caches, fun blk hblk => by cases hblk⟩
  have hend := run_invariant SlabSound (fun w call hw hok => hw.step hok.1) hboot hcalls
  exact ⟨hend.1.1, hend.safe⟩

/-- Two free frames, at `0x200000` and `0x201000`. -/
def twoFrames : PmmState where
  bitmap := fun w => if w = 8 then ~~~3#64 else ~~~0#64
  totalFrames := 1048576#64
  freeFrames := 2#64
  mb2InfoPhys := 0#64

def twoFrameWorld : World := bootWorld twoFrames (fun _ => 0#64) (fun _ => ⟨0#32, 0#64, 0#64⟩)

theorem slab_blocks_safe_reuse :
    let w := run heapStep twoFrameWorld
      [.kmalloc 1000#64, .kmalloc 2048#64, .kfree 0xFFFFFFFF80200400#64, .kmalloc 512#64]
    w.live.map Block.ptr = [0xFFFFFFFF80200200#64, 0xFFFFFFFF80201800#64] ∧
      w.hung = false ∧ (∀ blk ∈ w.live, Placed w.heap blk) ∧ w.live.Pairwise Apart := by
  refine ⟨by decide +kernel, slab_blocks_safe _ _ _ _ ?_⟩
  have hkmalloc : ∀ (w : World) (n : U64), n ≠ 0#64 → n ≤ 2048#64 →
      (pmmAllocFrame w.heap.pmm).2 < 0x80000000#64 → SlabsInWindow w (.kmalloc n) :=
    fun w n hne hle hlow => ⟨⟨hne, hle⟩, fun _ _ _ => hlow⟩
  refine ⟨hkmalloc _ _ (by decide) (by decide) (by decide +kernel),
    hkmalloc _ _ (by decide) (by decide) (by decide +kernel), ⟨?_, nofun⟩,
    hkmalloc _ _ (by decide) (by decide) (by decide +kernel), trivial⟩
  show 0xFFFFFFFF80200400#64 ∈ (run heapStep twoFrameWorld
    [.kmalloc 1000#64, .kmalloc 2048#64]).live.map Block.ptr
  decide +kernel

/-- The descriptor of a 4096-byte slab fills the frame, so the object handed
out begins at the next frame. -/
theorem page_object_outside_frame :
    let w := run heapStep twoFrameWorld [.kmalloc 4096#64]
    ∃ blk ∈ w.live, blk.origin = 4096#64 ∧ ¬ Placed w.heap blk := by
  have hlive : (run heapStep twoFrameWorld [.kmalloc 4096#64]).live.map
      (fun blk => (blk.ptr, blk.req, blk.origin)) =
        [(0xFFFFFFFF80201000#64, 4096#64, 4096#64)] := by decide +kernel
  have hheld : (run heapStep twoFrameWorld [.kmalloc 4096#64]).heap.held = [0x200000#64] := by
    decide +kernel
  obtain ⟨blk, hblk, heq⟩ : ∃ blk ∈ (run heapStep twoFrameWorld [.kmalloc 4096#64]).live,
      (blk.ptr, blk.req, blk.origin) = (0xFFFFFFFF80201000#64, 4096#64, 4096#64) :=
    mem_map.mp (hlive ▸ mem_cons_self)
  obtain ⟨hptr, hreq, horigin⟩ : blk.ptr = 0xFFFFFFFF80201000#64 ∧ blk.req = 4096#64 ∧
      blk.origin = 4096#64 := by simpa using heq
  refine ⟨blk, hblk, horigin, ?_⟩
  rintro ⟨phys, hmem, -, -, hend⟩
  rw [hheld, mem_singleton] at hmem
  rw [hmem, hptr, hreq] at hend
  exact absurd hend (by decide)

/-! ## Provenance -/

/-- A call on a live block does what the block's request calls for. -/
def ByProvenance (w : World) : HeapCall → Prop
  | .kfree ptr => ∀ blk ∈ w.live, blk.ptr = ptr → kfree w.heap ptr = freeAs blk w.heap
  | .krealloc ptr size => ∀ blk ∈ w.live, blk.ptr = ptr →
      krealloc w.heap ptr size = reallocAs blk w.heap size
  | _ => True

/-- From the lowest clear bit on, `n` frames lie below 2 GiB. -/
def InWindow (pmm : PmmState) (n : Nat) : Prop := ∀ f < pmmMaxFrames,
    (∀ g < f, test pmm.bitmap g = true) → test pmm.bitmap f = false → f + n ≤ 0x80000

theorem inWindow_of_clear {pmm : PmmState} {g n : Nat} (hclear : test pmm.bitmap g = false)
    (hn : g + n ≤ 0x80000) : InWindow pmm n := by
  intro f _ hlow _
  by_contra hbeyond
  rw [hlow g (by omega)] at hclear
  cases hclear

/-- The frames that a request needs lie below 2 GiB; an object of a partial
slab needs none. -/
def FramesInWindow (h : HeapState) (size : U64) : Prop :=
  (size ≤ 2048#64 ∧ (h.caches (sizeClass size)).partialList ≠ 0#64) ∨
    InWindow h.pmm (numPages size).toNat

/-- Proper calls that take no frame from 2 GiB on, where the kernel's window
ends. -/
def ProperInWindow (w : World) (call : HeapCall) : Prop := Proper w call ∧
  match call with
  | .kmalloc size => FramesInWindow w.heap size
  | .krealloc ptr size => (∀ blk ∈ w.live, blk.ptr = ptr → capacity blk < size) →
      FramesInWindow w.heap size
  | _ => True

theorem Sound.byProvenance (hw : Sound w) (hok : Proper w call) : ByProvenance w call := by
  obtain ⟨-, v, hc⟩ := hw
  cases call with
  | kmalloc size => trivial
  | kfree ptr =>
    obtain ⟨blk, hblk, rfl, htold⟩ := hok
    intro other hother hptr
    rw [inj_on_of_nodup_map hc.live_nodup hother hblk hptr]
    exact hc.kfree_eq hblk htold
  | krealloc ptr size =>
    rcases hok with ⟨rfl, -⟩ | ⟨blk, hblk, rfl, htold, hserv⟩
    · intro other hother hptr
      exact absurd hptr (hc.ptr_ne_zero hother)
    · intro other hother hptr
      rw [inj_on_of_nodup_map hc.live_nodup hother hblk hptr]
      exact hc.krealloc_eq hblk htold hserv
  | elsewhere pmm mem => trivial

/-- **Provenance decides.**  In every run of proper calls with frames below
2 GiB, `kfree` and `krealloc` treat a block served for more than 4096 bytes as a
large block and every other one as an object of its own class, and every call
returns. -/
theorem blocks_treated_by_provenance (pmm : PmmState) (mem : Memory) (caches : Nat → SlabCache)
    (calls : List HeapCall)
    (hcalls : StepsMeet heapStep ProperInWindow (bootWorld pmm mem caches) calls) :
    StepsMeet heapStep ByProvenance (bootWorld pmm mem caches) calls ∧
      (run heapStep (bootWorld pmm mem caches) calls).hung = false :=
  ⟨stepsMeet_of_invariant Sound (fun _ _ hw hok => hw.step hok.1)
      (fun _ _ hw hok => hw.byProvenance hok.1) (sound_boot pmm mem caches) hcalls,
    (run_invariant Sound (fun _ _ hw hok => hw.step hok.1) (sound_boot pmm mem caches) hcalls).1⟩

/-- Every frame from `0x200000` on is free. -/
def openFrames : PmmState where
  bitmap := fun w => if w < 8 then ~~~0#64 else 0#64
  totalFrames := 1048576#64
  freeFrames := 1048064#64
  mb2InfoPhys := 0#64

theorem test_openFrames (f : Nat) : test openFrames.bitmap f = decide (f < 512) := by
  have hbit : f % 64 < 64 := Nat.mod_lt f (by decide)
  rw [test_eq_getLsbD]
  unfold openFrames
  by_cases hf : f < 512
  · have hword : f / 64 < 8 := by omega
    simp only [hword, if_true, hf, decide_true]
    rw [BitVec.getLsbD_not, decide_eq_true hbit, BitVec.getLsbD_zero]
    rfl
  · have hword : ¬ f / 64 < 8 := by omega
    simp [hword, hf]

theorem unbroken_openFrames (n : Nat) : Unbroken openFrames n := by
  intro f _ hclear j _ _
  rw [test_openFrames, decide_eq_false_iff_not] at hclear ⊢
  omega

def openWorld : World := bootWorld openFrames (fun _ => 0#64) (fun _ => ⟨0#32, 0#64, 0#64⟩)

theorem blocks_treated_by_provenance_largeAndSlab : StepsMeet heapStep ByProvenance openWorld
        [.kmalloc 5000#64, .kmalloc 1024#64, .kfree 0xFFFFFFFF80200008#64,
          .krealloc 0xFFFFFFFF80202400#64 600#64] ∧
      (run heapStep openWorld
        [.kmalloc 5000#64, .kmalloc 1024#64, .kfree 0xFFFFFFFF80200008#64,
          .krealloc 0xFFFFFFFF80202400#64 600#64]).hung = false := by
  have hroom : ∀ h : HeapState, ∀ size : U64, test h.pmm.bitmap 515 = false →
      515 + (numPages size).toNat ≤ 0x80000 → FramesInWindow h size :=
    fun h size hclear hn => .inr (inWindow_of_clear hclear hn)
  refine blocks_treated_by_provenance _ _ _ _ ⟨⟨?_, hroom _ _ (by decide +kernel) (by decide)⟩,
    ⟨?_, hroom _ _ (by decide +kernel) (by decide)⟩, ⟨?_, trivial⟩,
    ⟨?_, fun _ => hroom _ _ (by decide +kernel) (by decide)⟩, trivial⟩
  · exact .inr ⟨by decide, by decide, unbroken_openFrames _⟩
  · exact .inl (by decide)
  · show ∃ blk ∈ (run heapStep openWorld [.kmalloc 5000#64, .kmalloc 1024#64]).live,
      blk.ptr = 0xFFFFFFFF80200008#64 ∧
        ToldApart (run heapStep openWorld [.kmalloc 5000#64, .kmalloc 1024#64]).heap blk
    decide +kernel
  · have hmem : ∃ blk ∈ (run heapStep openWorld
          [.kmalloc 5000#64, .kmalloc 1024#64, .kfree 0xFFFFFFFF80200008#64]).live,
        blk.ptr = 0xFFFFFFFF80202400#64 ∧ ToldApart (run heapStep openWorld
            [.kmalloc 5000#64, .kmalloc 1024#64, .kfree 0xFFFFFFFF80200008#64]).heap blk := by
      decide +kernel
    simp only [run_cons, run_nil, openWorld] at hmem
    obtain ⟨blk, hblk, hptr, htold⟩ := hmem
    exact .inr ⟨blk, hblk, hptr, htold, fun _ => .inl (by decide)⟩

/-- The state after the owner of a 5000-byte block has stored the number 64 in
its second word. -/
def ownerStored64 : World := heapStep (heapStep openWorld (.kmalloc 5000#64))
    (.elsewhere (heapStep openWorld (.kmalloc 5000#64)).heap.pmm
      (Function.update (heapStep openWorld (.kmalloc 5000#64)).heap.mem 0xFFFFFFFF80200010#64 64#64))

/-- The owner's word is taken for a descriptor: freeing the large block puts
its page on the partial list of the 64-byte cache, which has no slab. -/
theorem large_block_freed_as_slab :
    (∃ blk ∈ ownerStored64.live, blk.ptr = 0xFFFFFFFF80200008#64 ∧ blk.origin = 5000#64 ∧
      blk.Contains 0xFFFFFFFF80200010#64) ∧
      (ownerStored64.heap.caches 3).partialList = 0#64 ∧
      ((kfree ownerStored64.heap 0xFFFFFFFF80200008#64).map
        (fun h => (h.caches 3).partialList)) = some 0xFFFFFFFF80200000#64 := by
  refine ⟨?_, by decide +kernel, by decide +kernel⟩
  unfold Block.Contains
  decide +kernel

end Heap
