import NamelessOS.HeapSafety

/-!
# The books of the slab allocator

Every frame the slab allocator holds is a slab with a live object: `slab_create`
is followed by an allocation from the new slab, and `cache_free` gives the frame
back with the last object (`Occupied`).  With the heap invariant this says what
each list, counter and free list holds (`Book`), and that nothing is left once
every block is freed.

The exception is the frame at 2 GiB, whose address in the kernel's window is 0:
`cache_alloc` takes the new slab for a failure and forgets the frame.
-/

namespace Heap

open Pmm LinkedChain WordMemory WordBitmap Runs List

variable {h : HeapState} {v : View} {live : List Block} {b : U64} {i k : Nat} {free : List Nat}

/-! ## Frames and live blocks -/

/-- Every frame held has a live block in it. -/
def Occupied (h : HeapState) (live : List Block) : Prop :=
  ∀ phys ∈ h.held, ∃ blk ∈ live, slabOf blk.ptr = physToVirt phys

theorem allocFromPartial_held (h : HeapState) (idx : Nat) :
    (allocFromPartial h idx).1.held = h.held := by
  unfold allocFromPartial
  dsimp only
  split <;> rfl

theorem Consistent.allocFromPartial_page (hc : Consistent h v live) (hi8 : i ≤ 8)
    (hne : (h.caches i).partialList ≠ 0#64) :
    slabOf (Heap.allocFromPartial h i).2 = (h.caches i).partialList := by
  obtain ⟨b, rest, k, free, m, ht⟩ := hc.frontTaken hi8 hne
  obtain ⟨-, hs⟩ := hc.slab b i _ ht.use
  have hobj : slabOf (object b i k) = b :=
      pageOf_object (hc.aligned ht.use) hi8 (hs.bound k mem_cons_self)
  unfold Heap.allocFromPartial
  dsimp only
  rw [ht.head, ht.take]
  split <;> exact hobj

theorem physToVirt_ne_zero {f : Nat} (hlow : BitVec.ofNat 64 (f * frameSize) < 0x80000000#64) :
    physToVirt (BitVec.ofNat 64 (f * frameSize)) ≠ 0#64 := by
  have hvma : kernelVma = 0xFFFFFFFF80000000#64 := rfl
  unfold physToVirt
  rw [hvma]
  bv_omega

/-- `cache_alloc` takes a frame only for the object it returns. -/
theorem Consistent.cacheAlloc_held (hc : Consistent h v live) (hi8 : i ≤ 8)
    (hlow : (h.caches i).partialList = 0#64 → (pmmAllocFrame h.pmm).2 < 0x80000000#64) :
    (Heap.cacheAlloc h i).1.held = h.held ∨
      ∃ phys, (Heap.cacheAlloc h i).1.held = phys :: h.held ∧ (Heap.cacheAlloc h i).2 ≠ 0#64 ∧
        slabOf (Heap.cacheAlloc h i).2 = physToVirt phys := by
  unfold Heap.cacheAlloc
  by_cases hempty : (h.caches i).partialList = 0#64
  · rw [if_pos hempty, hc.objSize i (by omega)]
    have hlow := hlow hempty
    have hout := takeFrame_outcome h
    have hphys : (takeFrame h).2 = (pmmAllocFrame h.pmm).2 := by
      unfold takeFrame
      generalize pmmAllocFrame h.pmm = frame
      rfl
    rw [← hphys] at hlow
    generalize htake : takeFrame h = r at hout hlow
    cases hout with
    | none pmm hkeep =>
      grind [slabCreate]
    | frame f hmax hpos hclear =>
      have hfresh := hc.not_held hmax hclear
      have hnone := hc.use_of_not_held hfresh
      have hzero := physToVirt_ne_zero hlow
      generalize hvirt : physToVirt (BitVec.ofNat 64 (f * frameSize)) = b at hnone hzero
      obtain ⟨m, hrun, hs, hlink, hpage⟩ := slabCreate_page hi8 htake hmax hpos hvirt
      have hhold := hc.hold hfresh (m := m) ⟨f, hmax, rfl, by simp⟩
        (fun phys hp => (hc.held phys hp).set f (h.pmm.freeFrames - 1#64))
        (by rw [hvirt]; exact hpage)
      have hadd := hhold.addSlab hi8 hzero hnone hempty
        (by rw [← hvirt, virtToPhys_physToVirt]; exact mem_cons_self) hs hlink
      have hslab := hadd.allocFromPartial_page hi8 (by simpa [setCache] using hzero)
      rw [hrun]
      rw [if_neg hzero, allocFromPartial_held]
      have hpart : (setCache
          { h with
            mem := m
            pmm := { h.pmm with
              bitmap := set h.pmm.bitmap f, freeFrames := h.pmm.freeFrames - 1#64 }
            held := BitVec.ofNat 64 (f * frameSize) :: h.held } i
          { h.caches i with partialList := b }).caches i = { h.caches i with partialList := b } :=
        Function.update_self _ _ _
      rw [hpart] at hslab
      refine .inr ⟨BitVec.ofNat 64 (f * frameSize), rfl, ?_, hslab.trans hvirt.symm⟩
      intro hnull
      rw [hnull] at hslab
      exact hzero hslab.symm
  · rw [if_neg hempty]
    exact .inl (allocFromPartial_held h i)

variable {size ptr : U64}

theorem kmalloc_slab (h : HeapState) (hne : size ≠ 0#64) (hle : size ≤ 2048#64) :
    kmalloc h size = cacheAlloc h (sizeClass size) := by
  have hnot : ¬ 4096#64 < size := BitVec.not_lt.mpr (BitVec.le_trans hle (by decide))
  rw [kmalloc, if_neg hne, if_neg hnot]
  rfl

theorem Occupied.kmalloc (hocc : Occupied h live) (hc : Consistent h v live)
    (hne : size ≠ 0#64) (hle : size ≤ 2048#64)
    (hlow : (h.caches (sizeClass size)).partialList = 0#64 →
      (pmmAllocFrame h.pmm).2 < 0x80000000#64) : Occupied (kmalloc h size).1
      (if (kmalloc h size).2 = 0#64 then live else newBlock (kmalloc h size).2 size :: live) := by
  have hheld := hc.cacheAlloc_held (sizeClass_spec hle).1 hlow
  rw [kmalloc_slab h hne hle]
  generalize cacheAlloc h (sizeClass size) = r at hheld ⊢
  have hold : ∀ phys ∈ h.held, ∃ blk ∈ (if r.2 = 0#64 then live else newBlock r.2 size :: live),
      slabOf blk.ptr = physToVirt phys := by
    intro phys hphys
    obtain ⟨blk, hblk, hpage⟩ := hocc phys hphys
    refine ⟨blk, ?_, hpage⟩
    split
    · exact hblk
    · exact mem_cons_of_mem _ hblk
  intro phys hphys
  rcases hheld with hsame | ⟨new, hcons, hptr, hpage⟩
  · rw [hsame] at hphys
    exact hold phys hphys
  · rw [hcons] at hphys
    rcases mem_cons.mp hphys with rfl | hphys
    · refine ⟨newBlock r.2 size, ?_, hpage⟩
      rw [if_neg hptr]
      exact mem_cons_self
    · exact hold phys hphys

variable {h' : HeapState}

theorem returnObject_held (hrun : returnObject h i ptr = some h') :
    h'.held = h.held := by
  unfold returnObject at hrun
  dsimp only at hrun
  split at hrun
  · obtain ⟨_, -, rfl⟩ := Option.map_eq_some_iff.mp hrun
    rfl
  · cases hrun
    rfl

theorem releaseIfEmpty_held (hrun : releaseIfEmpty h i b = some h') :
    h'.held = if hi (h.mem (cell b 16)) = lo (h.mem (cell b 24)) then h.held.erase (virtToPhys b)
      else h.held := by
  unfold releaseIfEmpty at hrun
  split at hrun
  · rename_i hempty
    obtain ⟨_, -, rfl⟩ := Option.map_eq_some_iff.mp hrun
    rw [if_pos hempty]
    rfl
  · rename_i hsome
    cases hrun
    rw [if_neg hsome]

theorem Consistent.live_object (hc : Consistent h v live) (huse : v.use b = some (.slab i free))
    (hlen : free.length ≠ classTotal i) : ∃ blk ∈ live, slabOf blk.ptr = b := by
  obtain ⟨hi8, hs⟩ := hc.slab b i free huse
  have hlt := lt_of_le_of_ne (length_le_total hs.free_nodup hs.bound) hlen
  obtain ⟨k, hk, hnot⟩ : ∃ k < classTotal i, k ∉ free := by
    by_contra hall
    push Not at hall
    have hsub : List.range (classTotal i) ⊆ free := fun k hk => hall k (mem_range.mp hk)
    have hle := (subperm_of_subset nodup_range hsub).length_le
    rw [length_range] at hle
    omega
  obtain ⟨blk, hblk, hptr⟩ := hc.accounted b i free k huse hk hnot
  refine ⟨blk, hblk, ?_⟩
  rw [hptr]
  exact pageOf_object (hc.aligned huse) hi8 hk

theorem Occupied.cacheFree (hocc : Occupied h live) (hc : Consistent h v live) {blk : Block}
    (hblk : SlabBlock v blk b i free k)
    (hrun : cacheFree h i blk.ptr = some h') : Occupied h' (without live blk.ptr) := by
  obtain ⟨hi8, -⟩ := hc.slab b i free hblk.use
  have hslab : slabOf blk.ptr = b := by
    rw [hblk.ptr]
    exact pageOf_object (hc.aligned hblk.use) hi8 hblk.index
  obtain ⟨h₁, part, full, hret, hc₁⟩ := hc.returnObject hblk
  have huse := withSlab_use_self v b i (some (k :: free)) part full
  obtain ⟨-, hs⟩ := hc₁.slab b i (k :: free) huse
  rw [Heap.cacheFree, hret, Option.bind_some, hslab] at hrun
  have hheld := releaseIfEmpty_held hrun
  rw [returnObject_held hret, hs.count, hs.total] at hheld
  intro phys hphys
  by_cases hpage : physToVirt phys = b
  · rw [hpage]
    grind [Consistent.live_object, Consistent.held_nodup, virtToPhys_physToVirt]
  · have hbefore : phys ∈ h.held := by
      rw [hheld] at hphys
      split at hphys
      · exact mem_of_mem_erase hphys
      · exact hphys
    obtain ⟨other, hother, hat⟩ := hocc phys hbefore
    refine ⟨other, mem_without.mpr ⟨hother, ?_⟩, hat⟩
    intro hsame
    rw [hsame, hslab] at hat
    exact hpage hat.symm

/-! ## The books -/

/-- The fields of `slab_t`. -/
def slabFreelist (m : Memory) (slab : U64) : U64 := m (cell slab 8)
def slabObjSize (m : Memory) (slab : U64) : U32 := lo (m (cell slab 16))
def slabFreeCount (m : Memory) (slab : U64) : U32 := hi (m (cell slab 16))
def slabTotal (m : Memory) (slab : U64) : U32 := lo (m (cell slab 24))

/-- The objects of a slab: `total` of them, after the descriptor. -/
def slabObjects (m : Memory) (slab : U64) : List U64 :=
  let size := (slabObjSize m slab).setWidth 64
  (List.range (slabTotal m slab).toNat).map (fun k =>
    slab + slabHdrSize size + BitVec.ofNat 64 k * size)

/-- **The books of the slab allocator**: `part` and `full` are the slabs on the
two lists of each cache, `free` the objects on each slab's free list. -/
structure Book (h : HeapState) (live : List Block) (part full : Nat → List U64)
    (free : U64 → List U64) : Prop where
  partial_list : ∀ i < heapNumCaches, Chain h.mem 0#64 (h.caches i).partialList (part i) ∧
    (part i).Nodup
  full_list : ∀ i < heapNumCaches, Chain h.mem 0#64 (h.caches i).fullList (full i) ∧ (full i).Nodup
  listed : ∀ phys ∈ h.held, ∃ i < heapNumCaches,
    slabObjSize h.mem (physToVirt phys) = (h.caches i).objSize ∧
      Xor (physToVirt phys ∈ part i) (physToVirt phys ∈ full i)
  only_slabs : ∀ i < heapNumCaches, ∀ slab, slab ∈ part i ∨ slab ∈ full i →
    virtToPhys slab ∈ h.held ∧ slabObjSize h.mem slab = (h.caches i).objSize
  full_count : ∀ i < heapNumCaches, ∀ slab ∈ full i, slabFreeCount h.mem slab = 0#32
  partial_count : ∀ i < heapNumCaches, ∀ slab ∈ part i,
    0#32 < slabFreeCount h.mem slab ∧ slabFreeCount h.mem slab < slabTotal h.mem slab
  freelist : ∀ phys ∈ h.held, Chain h.mem 0#64 (slabFreelist h.mem (physToVirt phys))
      (free (physToVirt phys)) ∧ (free (physToVirt phys)).Nodup ∧
    (free (physToVirt phys)).length = (slabFreeCount h.mem (physToVirt phys)).toNat
  objects : ∀ phys ∈ h.held, ∀ x, x ∈ free (physToVirt phys) ↔
    x ∈ slabObjects h.mem (physToVirt phys) ∧ x ∉ live.map Block.ptr
  held : ∀ phys, phys ∈ h.held ↔ ∃ blk ∈ live, slabOf blk.ptr = physToVirt phys

theorem SlabOK.objects_eq {m : Memory} (hs : SlabOK m b i free) (hi8 : i ≤ 8) :
    slabObjects m b = (List.range (classTotal i)).map (object b i) := by
  obtain ⟨-, -, -, -, htotal⟩ := class_bounds i hi8
  have hwidth : ∀ i ≤ 8, (BitVec.ofNat 32 (classSize i)).setWidth 64 =
      BitVec.ofNat 64 (classSize i) := by decide
  unfold slabObjects slabObjSize slabTotal
  grind [size, total, slabHdrSize_class, map_congr_left, object_address]

theorem SlabOK.toNat_freeCount {m : Memory} (hs : SlabOK m b i free) (hi8 : i ≤ 8) :
    (slabFreeCount m b).toNat = free.length := by
  obtain ⟨-, -, -, -, htotal⟩ := class_bounds i hi8
  have hlen := length_le_total hs.free_nodup hs.bound
  rw [slabFreeCount, hs.count, BitVec.toNat_ofNat]
  omega

theorem Consistent.mem_free_iff (hc : Consistent h v live) (huse : v.use b = some (.slab i free))
    (x : U64) : x ∈ free.map (object b i) ↔ x ∈ slabObjects h.mem b ∧ x ∉ live.map Block.ptr := by
  obtain ⟨hi8, hs⟩ := hc.slab b i free huse
  have halign := hc.aligned huse
  rw [hs.objects_eq hi8, mem_map, mem_map]
  constructor
  · intro hx
    obtain ⟨k, hk, rfl⟩ := hx
    refine ⟨⟨k, mem_range.mpr (hs.bound k hk), rfl⟩, ?_⟩
    intro hlive
    obtain ⟨blk, hblk, hptr⟩ := mem_map.mp hlive
    have hpage : slabOf blk.ptr = b := by
      rw [hptr]
      exact pageOf_object halign hi8 (hs.bound k hk)
    obtain ⟨k', hs'⟩ := hc.block_on_page hblk hpage huse
    have hkk : k = k' := object_inj halign hi8 (hs.bound k hk) hs'.index (hptr.symm.trans hs'.ptr)
    exact hs'.taken (hkk ▸ hk)
  grind [accounted]

/-- The free objects of a page, as addresses. -/
def View.freeObjects (v : View) (b : U64) : List U64 :=
  match v.use b with
  | some (.slab i free) => free.map (object b i)
  | _ => []

section

variable (hc : Consistent h v live)
include hc

theorem Consistent.held_slab (hocc : Occupied h live)
    (hsmall : ∀ blk ∈ live, blk.origin ≤ 2048#64) {phys : U64} (hphys : phys ∈ h.held) :
    ∃ i free, v.use (physToVirt phys) = some (.slab i free) ∧ free.length < classTotal i := by
  obtain ⟨blk, hblk, hpage⟩ := hocc phys hphys
  rcases hc.block blk hblk with ⟨b, i, free, k, hs⟩ | ⟨b, hl⟩
  · obtain ⟨hi8, hslab⟩ := hc.slab b i free hs.use
    have hb : slabOf blk.ptr = b := by
      rw [hs.ptr]
      exact pageOf_object (hc.aligned hs.use) hi8 hs.index
    rw [← hpage, hb]
    refine ⟨i, free, hs.use, lt_of_le_of_ne (length_le_total hslab.free_nodup hslab.bound) ?_⟩
    exact fun hlen => hc.no_block_left hs.use hlen blk hblk hb
  · exact absurd (BitVec.le_trans (hsmall blk hblk) (by decide)) hl.not_le

/-- A slab on a list of cache `i`. -/
theorem Consistent.listed_slab {x : U64} (hx : OnLists v i x) :
    ∃ free, v.use x = some (.slab i free) ∧ i ≤ 8 ∧ SlabOK h.mem x i free ∧
      virtToPhys x ∈ h.held := by
  obtain ⟨free, huse⟩ := hc.onLists_use hx
  obtain ⟨hi8, hs⟩ := hc.slab x i free huse
  exact ⟨free, huse, hi8, hs, hc.page x _ huse⟩

/-- **The books of a consistent heap whose frames are all occupied.** -/
theorem Consistent.book (hocc : Occupied h live)
    (hsmall : ∀ blk ∈ live, blk.origin ≤ 2048#64) : Book h live v.part v.full v.freeObjects := by
  have hcaches : heapNumCaches = 10 := rfl
  have hsize : ∀ {x : U64} {i : Nat} {free : List Nat}, i ≤ 8 → SlabOK h.mem x i free →
      slabObjSize h.mem x = (h.caches i).objSize :=
    fun hi8 hs => hs.size.trans (hc.objSize _ (by omega)).symm
  refine ⟨?_, ?_, ?_, ?_, ?_, ?_, ?_, ?_, ?_⟩
  · exact fun i hi => ⟨hc.partChain i (by omega), (hc.partChain i (by omega)).nodup⟩
  · exact fun i hi => ⟨hc.fullChain i (by omega), (hc.fullChain i (by omega)).nodup⟩
  · intro phys hphys
    obtain ⟨i, free, huse, -⟩ := hc.held_slab hocc hsmall hphys
    obtain ⟨hi8, hs⟩ := hc.slab _ i free huse
    refine ⟨i, by omega, hsize hi8 hs, ?_⟩
    rw [hc.mem_part, hc.mem_full, huse]
    by_cases hfull : free = []
    · exact .inr ⟨by rw [hfull], by simp [hfull]⟩
    · exact .inl ⟨⟨free, rfl, hfull⟩, by simp [hfull]⟩
  · intro i _ x hx
    obtain ⟨free, -, hi8, hs, hheld⟩ := hc.listed_slab hx
    exact ⟨hheld, hsize hi8 hs⟩
  · intro i _ x hx
    obtain ⟨-, hs⟩ := hc.slab x i [] ((hc.mem_full i x).mp hx)
    exact hs.count
  · intro i _ x hx
    obtain ⟨free, huse, hfree⟩ := (hc.mem_part i x).mp hx
    obtain ⟨hi8, hs⟩ := hc.slab x i free huse
    obtain ⟨i', free', huse', hlt⟩ := hc.held_slab hocc hsmall (hc.page x _ huse)
    rw [physToVirt_virtToPhys, huse] at huse'
    cases huse'
    obtain ⟨-, -, -, -, htotal⟩ := class_bounds i hi8
    grind [length_pos_of_ne_nil, BitVec.lt_def, SlabOK.toNat_freeCount, slabTotal, SlabOK.total]
  · intro phys hphys
    obtain ⟨i, free, huse, -⟩ := hc.held_slab hocc hsmall hphys
    obtain ⟨hi8, hs⟩ := hc.slab _ i free huse
    rw [View.freeObjects, huse]
    exact ⟨hs.chain, hs.chain.nodup, by rw [length_map, hs.toNat_freeCount hi8]⟩
  · intro phys hphys x
    obtain ⟨i, free, huse, -⟩ := hc.held_slab hocc hsmall hphys
    rw [View.freeObjects, huse]
    exact hc.mem_free_iff huse x
  · intro phys
    constructor
    · exact hocc phys
    · intro hlive
      obtain ⟨blk, hblk, hpage⟩ := hlive
      obtain ⟨u, huse⟩ := hc.block_page hblk
      have hheld := hc.page _ u huse
      change virtToPhys (slabOf blk.ptr) ∈ h.held at hheld
      rwa [hpage, virtToPhys_physToVirt] at hheld

end

/-! ## Runs -/

/-- The slab allocator's part of a run in which no frame is lost. -/
def BookSound (w : World) : Prop := SlabSound w ∧ Occupied w.heap w.live

variable {w : World}

theorem BookSound.book (hw : BookSound w) :
    ∃ part full free, Book w.heap w.live part full free := by
  obtain ⟨⟨⟨-, v, hc⟩, hsmall⟩, hocc⟩ := hw
  exact ⟨v.part, v.full, v.freeObjects, hc.book hocc hsmall⟩

theorem BookSound.kfree (hw : BookSound w) (hlive : ptr ∈ w.live.map Block.ptr) :
    BookSound (heapStep w (.kfree ptr)) ∧ (heapStep w (.kfree ptr)).live = without w.live ptr := by
  obtain ⟨hslab, hocc⟩ := hw
  have hcall : SlabCalls w (.kfree ptr) := hlive
  have hafter := hslab.step hcall
  obtain ⟨blk, hblk, rfl, htold⟩ := hcall.proper hslab
  obtain ⟨⟨-, v, hc⟩, hsmall⟩ := hslab
  obtain ⟨h', -, hfree, -⟩ := hc.freeAs hblk
  have heq : Heap.kfree w.heap blk.ptr = some h' := (hc.kfree_eq hblk htold).trans hfree
  rcases hc.block blk hblk with ⟨b, i, free, k, hs⟩ | ⟨b, hl⟩
  · rw [Heap.freeAs, if_pos hs.origin_le, hs.served] at hfree
    simp only [heapStep, heq] at hafter ⊢
    exact ⟨⟨hafter, hocc.cacheFree hc hs hfree⟩, trivial⟩
  · exact absurd (BitVec.le_trans (hsmall blk hblk) (by decide)) hl.not_le

theorem BookSound.step (hw : BookSound w) {call : HeapCall}
    (hok : SlabsInWindow w call) : BookSound (heapStep w call) := by
  obtain ⟨hcall, hlow⟩ := hok
  cases call with
  | kmalloc size =>
    obtain ⟨⟨⟨-, v, hc⟩, -⟩, hocc⟩ := id hw
    exact ⟨hw.1.step hcall, hocc.kmalloc hc hcall.1 hcall.2 (hlow size rfl)⟩
  | kfree ptr => exact (hw.kfree hcall).1
  | krealloc ptr size => exact absurd hcall id
  | elsewhere pmm mem => exact ⟨hw.1.step hcall, hw.2⟩

theorem bookSound_boot (pmm : PmmState) (mem : Memory) (caches : Nat → SlabCache) :
    BookSound (bootWorld pmm mem caches) :=
  ⟨⟨sound_boot pmm mem caches, fun blk hblk => by cases hblk⟩, fun phys hphys => by cases hphys⟩

theorem BookSound.free_all (hw : BookSound w) {order : List U64}
    (horder : order.Perm (w.live.map Block.ptr)) :
    (run heapStep w (order.map .kfree)).heap.held = [] := by
  induction order generalizing w with
  | nil =>
    have hnone : w.live = [] := map_eq_nil_iff.mp horder.symm.eq_nil
    obtain ⟨-, hocc⟩ := hw
    refine eq_nil_iff_forall_not_mem.mpr (fun phys hphys => ?_)
    obtain ⟨blk, hblk, -⟩ := hocc phys hphys
    rw [hnone] at hblk
    cases hblk
  | cons ptr order ih =>
    obtain ⟨hafter, hlive⟩ := hw.kfree (horder.subset mem_cons_self)
    refine ih hafter ?_
    obtain ⟨⟨⟨-, v, hc⟩, -⟩, -⟩ := hw
    have hnodup := horder.nodup_iff.mpr hc.live_nodup
    obtain ⟨hnot, hrest⟩ := nodup_cons.mp hnodup
    rw [hlive, perm_ext_iff_of_nodup hrest (nodup_without hc.live_nodup ptr)]
    grind [mem_without]

/-- **Slab bookkeeping loses nothing.**  In every state of a run of requests of
1 to 2048 bytes and frees of live pointers whose slabs lie in the kernel's
window, every call has returned, the lists, counters and free lists of the
caches are in order, the frames held are the slabs with a live object, and
freeing every block gives back every frame. -/
theorem slab_bookkeeping (pmm : PmmState) (mem : Memory) (caches : Nat → SlabCache)
    (calls : List HeapCall)
    (hcalls : StepsMeet heapStep SlabsInWindow (bootWorld pmm mem caches) calls) :
    let w := run heapStep (bootWorld pmm mem caches) calls
    w.hung = false ∧ (∃ part full free, Book w.heap w.live part full free) ∧
      ∀ order : List U64, order.Perm (w.live.map Block.ptr) →
        (run heapStep w (order.map .kfree)).heap.held = [] := by
  have hend := run_invariant BookSound (fun w call hw hok => hw.step hok)
    (bookSound_boot pmm mem caches) hcalls
  exact ⟨hend.1.1.1, hend.book, fun order horder => hend.free_all horder⟩

/-- A run with a slab of one object, which is full after one request and gone
after one free. -/
theorem slab_bookkeeping_single :
    let calls : List HeapCall := [.kmalloc 2048#64, .kmalloc 16#64, .kfree 0xFFFFFFFF80200800#64]
    let w := run heapStep twoFrameWorld calls
    w.heap.held = [0x201000#64] ∧ w.hung = false ∧
      (∃ part full free, Book w.heap w.live part full free) ∧
      ∀ order : List U64, order.Perm (w.live.map Block.ptr) →
        (run heapStep w (order.map .kfree)).heap.held = [] := by
  refine ⟨by decide +kernel, slab_bookkeeping _ _ _ _ ?_⟩
  refine ⟨⟨by constructor <;> decide, ?_⟩, ⟨by constructor <;> decide, ?_⟩, ⟨?_, ?_⟩, trivial⟩
  · exact fun _ _ _ => by decide +kernel
  · exact fun _ _ _ => by decide +kernel
  · show 0xFFFFFFFF80200800#64 ∈ (run heapStep twoFrameWorld
      [.kmalloc 2048#64, .kmalloc 16#64]).live.map Block.ptr
    decide +kernel
  · exact fun _ heq => by cases heq

/-- The only free frame is the one at 2 GiB. -/
def lastWindowFrame : PmmState where
  bitmap := fun w => if w = 8192 then ~~~1#64 else ~~~0#64
  totalFrames := 1048576#64
  freeFrames := 1#64
  mb2InfoPhys := 0#64

theorem slab_at_null_lost :
    let w := run heapStep (bootWorld lastWindowFrame (fun _ => 0#64) (fun _ => ⟨0#32, 0#64, 0#64⟩))
      [.kmalloc 8#64]
    w.live.map Block.ptr = [] ∧ w.heap.held = [0x80000000#64] ∧
      ¬ ∃ part full free, Book w.heap w.live part full free := by
  intro w
  have hlive : w.live.map Block.ptr = [] := by decide +kernel
  have hheld : w.heap.held = [0x80000000#64] := by decide +kernel
  grind [Book.held, mem_singleton_self, map_eq_nil_iff]

end Heap
