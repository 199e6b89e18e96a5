import NamelessOS.HeapLarge
import NamelessOS.Runs

/-!
# Runs of the heap

The calls of `heap.h` interleaved with everything else the kernel does: owners
writing into their blocks, other code using memory and frames of its own.  A
live block never overlaps the allocator's metadata, so such writes keep the
heap consistent, and each call is shown to keep it consistent too.
-/

namespace Heap

open Pmm LinkedChain WordMemory WordBitmap Runs List
open BitVec (add_assoc ofNat ofNat_add toNat_ofNat)

variable {h h' : HeapState} {v : View} {live : List Block} {b : U64} {i k : Nat}
  {free : List Nat}

/-! ## Where the bytes of a block lie -/

/-- An address `d` bytes past an aligned page start. -/
theorem pageOf_add (hb : PageAligned b) (d : Nat) :
    pageOf (b + ofNat 64 d) = b + ofNat 64 (d / 4096 * 4096) := by
  have halign : PageAligned (b + ofNat 64 (d / 4096 * 4096)) := by
    unfold PageAligned at hb ⊢
    rw [BitVec.toNat_add, toNat_ofNat]
    omega
  have hcell : b + ofNat 64 d = cell (b + ofNat 64 (d / 4096 * 4096)) (d % 4096) := by
    rw [cell, add_assoc, ← ofNat_add, Nat.div_add_mod']
  rw [hcell, pageOf_cell halign (Nat.mod_lt d (by decide))]

theorem eq_add_sub (x p : U64) : x = p + ofNat 64 (x - p).toNat := by
  rw [BitVec.ofNat_toNat, BitVec.setWidth_eq, BitVec.add_comm, BitVec.sub_add_cancel]

/-- The bytes of a slab block are those of its object. -/
theorem SlabBlock.contains {blk : Block} (hs : SlabBlock v blk b i free k) {x : U64}
    (hx : blk.Contains x) :
    ∃ off, x = cell b off ∧ objectOffset i k ≤ off ∧ off < objectOffset i k + classSize i := by
  refine ⟨objectOffset i k + (x - blk.ptr).toNat, ?_, by omega, ?_⟩
  · rw [cell, ofNat_add, ← add_assoc]
    have hptr : b + ofNat 64 (objectOffset i k) = blk.ptr := hs.ptr.symm
    rw [hptr]
    exact eq_add_sub x blk.ptr
  · have hlt : (x - blk.ptr).toNat < blk.req.toNat := hx
    have hreq := hs.req
    omega

variable {m : Memory}

/-- The bytes of a large block lie on its pages, past its header. -/
theorem LargeBlock.contains {blk : Block} (hl : LargeBlock m v blk b)
    (hb : PageAligned b) {x : U64} (hx : blk.Contains x) :
    v.use (pageOf x) = some (.large b) ∧ x ≠ b := by
  have hlt : (x - blk.ptr).toNat < blk.req.toNat := hx
  have hreq := hl.req
  have hpages := toNat_numPages hl.nowrap
  have hnowrap := hl.nowrap
  have hat : x = b + ofNat 64 (8 + (x - blk.ptr).toNat) := by
    rw [ofNat_add, ← add_assoc]
    have hptr : b + ofNat 64 8 = blk.ptr := hl.ptr.symm
    rw [hptr]
    exact eq_add_sub x blk.ptr
  generalize (x - blk.ptr).toNat = e at hlt hat
  constructor
  · rw [hat, pageOf_add hb]
    exact hl.pages _ (by omega)
  · intro heq
    have hzero : ofNat 64 (8 + e) = 0#64 := by
      have hsub : x - b = ofNat 64 (8 + e) := by
        rw [hat]
        bv_omega
      rw [← hsub, heq]
      exact BitVec.sub_self b
    have hnat := congrArg BitVec.toNat hzero
    simp only [toNat_ofNat] at hnat
    omega

/-- **Live blocks hold no metadata.** -/
theorem Consistent.metadata_not_contained (hc : Consistent h v live) {x : U64}
    (hx : Metadata v x) {blk : Block} (hblk : blk ∈ live) : ¬ blk.Contains x := by
  intro hin
  rcases hc.block blk hblk with ⟨b, i, free, k, hs⟩ | ⟨b, hl⟩
  · obtain ⟨off, hoff, hlow, hhigh⟩ := hs.contains hin
    obtain ⟨hi8, -⟩ := hc.slab b i free hs.use
    have halign := hc.aligned hs.use
    have hbounds := objectOffset_bounds hi8 hs.index
    cases hx with
    | header b' i' free' off' huse hoff' =>
      have heq := (cell_inj (hc.aligned huse) halign (by omega) (by omega)).mp hoff
      omega
    | object b' i' free' k' huse hk' =>
      obtain ⟨hi8', hs'⟩ := hc.slab b' i' free' huse
      have hlt := objectOffset_lt hi8' (hs'.bound k' hk')
      obtain ⟨rfl, heq⟩ := (cell_inj (hc.aligned huse) halign hlt (by omega)).mp hoff
      rw [hs.use] at huse
      cases huse
      rcases Nat.lt_trichotomy k k' with hkk | rfl | hkk
      · have hapart := objectOffset_apart (i := i) hkk
        omega
      · exact hs.taken hk'
      · have hapart := objectOffset_apart (i := i) hkk
        omega
    | large _ huse =>
      have hzero : cell x 0 = cell b off := by rwa [cell_zero]
      have heq := ((cell_inj (hc.aligned huse) halign (by decide) (by omega)).mp hzero).2
      omega
  · obtain ⟨hlarge, hne⟩ := hl.contains (hc.aligned hl.first) hin
    cases hx with
    | header b' i' free' off' huse hoff' =>
      rw [pageOf_cell (hc.aligned huse) (by omega), huse] at hlarge
      cases hlarge
    | object b' i' free' k' huse hk' =>
      obtain ⟨hi8', hs'⟩ := hc.slab b' i' free' huse
      rw [pageOf_object (hc.aligned huse) hi8' (hs'.bound k' hk'), huse] at hlarge
      cases hlarge
    | large _ huse =>
      rw [pageOf_self (hc.aligned huse), huse] at hlarge
      cases hlarge
      exact hne rfl

/-- What code outside the allocator may do: write into live blocks and into
memory the heap does not hold, and use frames the heap does not hold. -/
structure ElsewhereOK (h : HeapState) (live : List Block) (pmm : PmmState) (m : Memory) : Prop where
  frames : ∀ phys ∈ h.held, UsedFrame pmm phys
  words : ∀ x, virtToPhys (pageOf x) ∈ h.held → (∀ blk ∈ live, ¬ blk.Contains x) → m x = h.mem x

theorem Consistent.elsewhere (hc : Consistent h v live) {pmm : PmmState}
    (hok : ElsewhereOK h live pmm m) : Consistent { h with mem := m, pmm := pmm } v live := by
  grind [congr, ElsewhereOK.words, metadata_page, page, metadata_not_contained, ElsewhereOK.frames]

/-! ## Allocation -/

/-- Requests the heap can serve soundly: a slab object of a class whose
descriptor leaves room, or a large block whose size does not wrap and whose
frames come out consecutive. -/
def Servable (pmm : PmmState) (size : U64) : Prop := size ≤ 2048#64 ∨
    (4096#64 < size ∧ size.toNat + 4103 < 2 ^ 64 ∧ Unbroken pmm (numPages size).toNat)

theorem Consistent.kmalloc (hc : Consistent h v live) {size : U64} (hok : Servable h.pmm size) :
    Serves h v live size (kmalloc h size) := by
  unfold Heap.kmalloc
  by_cases hzero : size = 0#64
  · rw [if_pos hzero]
    exact ⟨fun _ _ _ => rfl, .inl ⟨rfl, v, hc⟩⟩
  · rw [if_neg hzero]
    rcases hok with hsmall | ⟨hlarge, hnowrap, hrun⟩
    · have hnot : ¬ 4096#64 < size := by
        rw [BitVec.not_lt]
        exact BitVec.le_trans hsmall (by decide)
      rw [if_neg hnot]
      exact hc.cacheAlloc (sizeClass_spec hsmall).1 hsmall rfl
    · rw [if_pos hlarge]
      exact hc.largeAlloc hlarge hnowrap hrun

/-! ## Provenance

What a call on a live block should do is fixed by the request the block was
served for, not by what its page holds. -/

/-- `kfree` by provenance. -/
def freeAs (blk : Block) (h : HeapState) : Option HeapState :=
  if blk.origin ≤ 4096#64 then cacheFree h (sizeClass blk.origin) blk.ptr
  else some (largeFree h blk.ptr)

/-- The size of the block behind a pointer, by provenance. -/
def capacity (blk : Block) : U64 :=
  if blk.origin ≤ 4096#64 then ofNat 64 (classSize (sizeClass blk.origin))
  else numPages blk.origin * slabSize - 8#64

/-- `krealloc` by provenance. -/
def reallocAs (blk : Block) (h : HeapState) (size : U64) : Option (HeapState × U64) :=
  if size = 0#64 then (freeAs blk h).map (fun h => (h, 0#64))
  else if size ≤ capacity blk then some (h, blk.ptr)
  else
    let r := kmalloc h size
    if r.2 = 0#64 then some (r.1, 0#64)
    else
      let h := { r.1 with mem := copyWords r.1.mem r.2 blk.ptr ((capacity blk).toNat / 8) }
      (freeAs blk h).map (fun h => (h, r.2))

/-- The word that tells slabs from large blocks does not mislead: for a large
block it is not a size of the caches' range. -/
def ToldApart (h : HeapState) (blk : Block) : Prop :=
  4096#64 < blk.origin → looksLikeSlab h blk.ptr = false

instance (h : HeapState) (blk : Block) : Decidable (ToldApart h blk) :=
  inferInstanceAs (Decidable (_ → _))

theorem SlabBlock.origin_le {blk : Block} (hs : SlabBlock v blk b i free k) :
    blk.origin ≤ 4096#64 :=
  BitVec.le_trans hs.origin (by decide)

theorem LargeBlock.not_le {blk : Block} (hl : LargeBlock m v blk b) :
    ¬ blk.origin ≤ 4096#64 :=
  BitVec.not_le.mpr hl.origin

section

variable (hc : Consistent h v live)
include hc

theorem Consistent.ptr_ne_zero {blk : Block} (hblk : blk ∈ live) : blk.ptr ≠ 0#64 := by
  rcases hc.block blk hblk with ⟨b, i, free, k, hs⟩ | ⟨b, hl⟩
  · obtain ⟨hi8, -⟩ := hc.slab b i free hs.use
    rw [hs.ptr]
    exact object_ne_zero (hc.aligned hs.use) hi8 hs.index
  · have hnat : (cell b 8).toNat = b.toNat + 8 := toNat_cell (hc.aligned hl.first) (by decide)
    rw [hl.ptr]
    intro hzero
    rw [hzero] at hnat
    simp at hnat

/-- A live slab object is recognised, with its own class. -/
theorem Consistent.slab_recognised {blk : Block}
    (hs : SlabBlock v blk b i free k) : looksLikeSlab h blk.ptr = true ∧
      lo (h.mem (cell (slabOf blk.ptr) 16)) = ofNat 32 (classSize i) := by
  obtain ⟨hi8, hok⟩ := hc.slab b i free hs.use
  have hslab : slabOf blk.ptr = b := by
    rw [hs.ptr]
    exact pageOf_object (hc.aligned hs.use) hi8 hs.index
  unfold looksLikeSlab
  rw [hslab, hok.size]
  exact ⟨decide_eq_true (class_in_range i (by omega)), rfl⟩

/-- **`kfree` goes by provenance** when the word tells the kinds apart. -/
theorem Consistent.kfree_eq {blk : Block} (hblk : blk ∈ live)
    (htold : ToldApart h blk) : Heap.kfree h blk.ptr = freeAs blk h := by
  unfold Heap.kfree freeAs
  rw [if_neg (hc.ptr_ne_zero hblk)]
  rcases hc.block blk hblk with ⟨b, i, free, k, hs⟩ | ⟨b, hl⟩
  · obtain ⟨hlooks, hsize⟩ := hc.slab_recognised hs
    obtain ⟨hi8, -⟩ := hc.slab b i free hs.use
    rw [if_pos hlooks, if_pos hs.origin_le, hsize, cacheIndex_class i (by omega), hs.served]
  · rw [htold hl.origin, if_neg hl.not_le]
    rfl

theorem Consistent.oldSize_eq {blk : Block} (hblk : blk ∈ live)
    (htold : ToldApart h blk) : oldSize h blk.ptr = capacity blk := by
  unfold oldSize capacity
  rcases hc.block blk hblk with ⟨b, i, free, k, hs⟩ | ⟨b, hl⟩
  · obtain ⟨hlooks, hsize⟩ := hc.slab_recognised hs
    obtain ⟨hi8, -⟩ := hc.slab b i free hs.use
    have hwidth : ∀ i ≤ 8, (ofNat 32 (classSize i)).setWidth 64 =
        ofNat 64 (classSize i) := by decide
    rw [if_pos hlooks, if_pos hs.origin_le, hsize, hwidth i hi8, hs.served]
  · have hbase : blk.ptr - 8#64 = b := by
      rw [hl.ptr, cell]
      bv_omega
    rw [htold hl.origin, if_neg hl.not_le, hbase, hl.header]
    rfl

/-- Freeing a live block returns and removes it. -/
theorem Consistent.freeAs {blk : Block} (hblk : blk ∈ live) :
    ∃ h' v', freeAs blk h = some h' ∧ Consistent h' v' (without live blk.ptr) := by
  unfold Heap.freeAs
  rcases hc.block blk hblk with ⟨b, i, free, k, hs⟩ | ⟨b, hl⟩
  · rw [if_pos hs.origin_le, hs.served]
    exact hc.cacheFree hs
  · rw [if_neg hl.not_le]
    exact ⟨_, _, rfl, hc.largeFree hl⟩

/-! ## Reallocation -/

/-- The page of a byte of a live block names the block's kind. -/
theorem Consistent.contained_use {blk : Block} (hblk : blk ∈ live)
    {x : U64} (hx : blk.Contains x) : (∃ i free, v.use (pageOf x) = some (.slab i free)) ∨
      ∃ b, v.use (pageOf x) = some (.large b) ∧ blk.ptr = cell b 8 := by
  rcases hc.block blk hblk with ⟨b, i, free, k, hs⟩ | ⟨b, hl⟩
  · obtain ⟨off, rfl, -, hhigh⟩ := hs.contains hx
    obtain ⟨hi8, -⟩ := hc.slab b i free hs.use
    have hbounds := objectOffset_bounds hi8 hs.index
    exact .inl ⟨i, free, by rw [pageOf_cell (hc.aligned hs.use) (by omega), hs.use]⟩
  · exact .inr ⟨b, (hl.contains (hc.aligned hl.first) hx).1, hl.ptr⟩

end

/-- The destination words of `krealloc`'s copy lie in the new block. -/
theorem copy_in_block {ptr cap size : U64} (hbig : cap < size) {j : Nat}
    (hj : j < cap.toNat / 8) : (newBlock ptr size).Contains (ptr + ofNat 64 (8 * j)) := by
  have hlt := BitVec.lt_def.mp hbig
  have hsub : ptr + ofNat 64 (8 * j) - ptr = ofNat 64 (8 * j) := by
    bv_omega
  show (ptr + ofNat 64 (8 * j) - ptr).toNat < size.toNat
  rw [hsub, toNat_ofNat]
  omega

section Move

variable {blk : Block} {size : U64}

/-- The state in which a moving `krealloc` frees the old block: both blocks
are live, the new one holds the copy. -/
def moved (h : HeapState) (blk : Block) (size : U64) : HeapState :=
  { (kmalloc h size).1 with
    mem := copyWords (kmalloc h size).1.mem (kmalloc h size).2 blk.ptr ((capacity blk).toNat / 8) }

theorem Consistent.moved (hc : Consistent h v live) (hblk : blk ∈ live)
    (hbig : capacity blk < size) (hserv : Servable h.pmm size)
    (hne : (Heap.kmalloc h size).2 ≠ 0#64) :
    (∃ v', Consistent (Heap.moved h blk size) v' (newBlock (Heap.kmalloc h size).2 size :: live)) ∧
      (ToldApart h blk → ToldApart (Heap.moved h blk size) blk) := by
  obtain ⟨hspare, hcase⟩ := hc.kmalloc hserv
  rcases hcase with ⟨hzero, -⟩ | ⟨-, v', hc'⟩
  · exact absurd hzero hne
  generalize hr : Heap.kmalloc h size = r at hspare hc' hne
  have hcopy : ∀ x, ¬ (newBlock r.2 size).Contains x → (Heap.moved h blk size).mem x = r.1.mem x := by
    intro x hx
    unfold Heap.moved
    rw [hr]
    refine copyWords_of_outside _ _ _ ?_
    rintro j hj rfl
    exact hx (copy_in_block hbig hj)
  refine ⟨⟨v', ?_⟩, ?_⟩
  · have helse : ElsewhereOK r.1 (newBlock r.2 size :: live) r.1.pmm (Heap.moved h blk size).mem :=
      ⟨hc'.held, fun x _ hx => hcopy x (hx _ mem_cons_self)⟩
    have hmoved := hc'.elsewhere helse
    unfold Heap.moved at hmoved ⊢
    rwa [hr] at hmoved ⊢
  · intro htold hlarge
    rcases hc.block blk hblk with ⟨b, i, free, k, hs⟩ | ⟨b, hl⟩
    · exact absurd hs.origin_le (BitVec.not_le.mpr hlarge)
    have halign := hc.aligned hl.first
    have hslab : slabOf blk.ptr = b := by
      rw [hl.ptr]
      exact pageOf_cell halign (by decide)
    have hword : (Heap.moved h blk size).mem (cell b 16) = h.mem (cell b 16) := by
      have hpage : pageOf (cell b 16) = b := pageOf_cell halign (by decide)
      rw [hcopy, hspare (cell b 16) b (by rw [hpage, hl.first])]
      -- the tested word is on the old block's page, not on the new block's
      intro hin
      have hfresh : (newBlock r.2 size).ptr ∉ live.map Block.ptr :=
        (nodup_cons.mp hc'.live_nodup).1
      have huse : v'.use b = some (.large b) := by
        rcases hc'.block blk (mem_cons_of_mem _ hblk) with ⟨b', i, free, k, hs⟩ | ⟨b', hl'⟩
        · exact absurd hs.origin_le hl.not_le
        · have hcell : cell b' 8 = cell b 8 := hl'.ptr.symm.trans hl.ptr
          grind [cell_inj, aligned, LargeBlock.first]
      grind [contained_use, mem_cons_self, LargeBlock.ptr]
    have hfalse := htold hlarge
    unfold looksLikeSlab at hfalse ⊢
    rw [hslab] at hfalse ⊢
    rwa [hword]

/-- **`krealloc` goes by provenance** when the word tells the kinds apart. -/
theorem Consistent.krealloc_eq (hc : Consistent h v live) (hblk : blk ∈ live)
    (htold : ToldApart h blk) (hserv : capacity blk < size → Servable h.pmm size) :
    Heap.krealloc h blk.ptr size = reallocAs blk h size := by
  unfold Heap.krealloc reallocAs
  rw [if_neg (hc.ptr_ne_zero hblk), hc.kfree_eq hblk htold, hc.oldSize_eq hblk htold]
  dsimp only
  refine if_congr Iff.rfl rfl ?_
  by_cases hle : size ≤ capacity blk
  · rw [if_pos hle, if_pos hle]
  · rw [if_neg hle, if_neg hle]
    by_cases hnull : (Heap.kmalloc h size).2 = 0#64
    · rw [if_pos hnull, if_pos hnull]
    · rw [if_neg hnull, if_neg hnull]
      have hbig := BitVec.not_le.mp hle
      obtain ⟨⟨v', hc'⟩, htold'⟩ := hc.moved hblk hbig (hserv hbig) hnull
      have hfree := hc'.kfree_eq (mem_cons_of_mem _ hblk) (htold' htold)
      unfold Heap.moved at hfree
      rw [hfree]

/-- The live blocks after `krealloc(ptr, size)` returned `q`. -/
def afterRealloc (live : List Block) (ptr size q : U64) : List Block :=
  if ptr = 0#64 then if q = 0#64 then live else newBlock q size :: live
  else if size = 0#64 then without live ptr
  else if q = 0#64 then live
  else if q = ptr then live.map (fun blk => if blk.ptr = ptr then { blk with req := size } else blk)
  else newBlock q size :: without live ptr

/-- Growing or shrinking a block within its capacity. -/
theorem Consistent.resize (hc : Consistent h v live) (hblk : blk ∈ live)
    (hle : size ≤ capacity blk) : Consistent h v (live.map (fun other =>
      if other.ptr = blk.ptr then { other with req := size } else other)) := by
  have hptr : ∀ other : Block,
      (if other.ptr = blk.ptr then { other with req := size } else other : Block).ptr = other.ptr := by
    intro other
    split <;> rfl
  have hfun : Block.ptr ∘ (fun other : Block =>
      if other.ptr = blk.ptr then { other with req := size } else other) = Block.ptr :=
    funext hptr
  exact { hc with
    block := by
      intro new hnew
      obtain ⟨other, hother, rfl⟩ := mem_map.mp hnew
      split
      · rename_i heq
        have hsame : other = blk := inj_on_of_nodup_map hc.live_nodup hother hblk heq
        subst hsame
        have hnat := BitVec.le_def.mp hle
        unfold capacity at hnat
        rcases hc.block other hother with ⟨b, i, free, k, hs⟩ | ⟨b, hl⟩
        · refine .inl ⟨b, i, free, k, { hs with req := ?_ }⟩
          rw [if_pos hs.origin_le, hs.served, toNat_ofNat] at hnat
          exact Nat.le_trans hnat (Nat.mod_le _ _)
        · refine .inr ⟨b, { hl with req := ?_ }⟩
          have hpages := toNat_numPages hl.nowrap
          have hnowrap := hl.nowrap
          rw [if_neg hl.not_le] at hnat
          have hcap : (numPages other.origin * slabSize - 8#64).toNat =
              (numPages other.origin).toNat * 4096 - 8 := by
            unfold slabSize
            bv_omega
          rw [hcap] at hnat
          exact hnat
      · exact hc.block other hother
    accounted := by
      intro b i free k huse hk hnot
      obtain ⟨other, hother, hat⟩ := hc.accounted b i free k huse hk hnot
      exact ⟨_, mem_map.mpr ⟨other, hother, rfl⟩, (hptr other).trans hat⟩
    live_nodup := by
      rw [map_map, hfun]
      exact hc.live_nodup }

/-- Reallocating a live block returns, and leaves the block resized, moved or,
when memory is short, as it was. -/
theorem Consistent.reallocAs (hc : Consistent h v live) (hblk : blk ∈ live)
    (hserv : capacity blk < size → Servable h.pmm size) :
    ∃ h' q v', Heap.reallocAs blk h size = some (h', q) ∧
      Consistent h' v' (afterRealloc live blk.ptr size q) := by
  have hptr := hc.ptr_ne_zero hblk
  unfold Heap.reallocAs
  by_cases hzero : size = 0#64
  · obtain ⟨h', v', hrun, hc'⟩ := hc.freeAs hblk
    rw [if_pos hzero, hrun]
    refine ⟨h', 0#64, v', rfl, ?_⟩
    rwa [afterRealloc, if_neg hptr, if_pos hzero]
  · rw [if_neg hzero]
    by_cases hle : size ≤ capacity blk
    · rw [if_pos hle]
      refine ⟨h, blk.ptr, v, rfl, ?_⟩
      rw [afterRealloc, if_neg hptr, if_neg hzero, if_neg hptr, if_pos rfl]
      exact hc.resize hblk hle
    · rw [if_neg hle]
      have hbig := BitVec.not_le.mp hle
      obtain ⟨-, hcase⟩ := hc.kmalloc (hserv hbig)
      dsimp only
      rcases hcase with ⟨hnull, v', hc'⟩ | ⟨hne, -⟩
      · rw [if_pos hnull]
        refine ⟨_, _, v', rfl, ?_⟩
        rwa [afterRealloc, if_neg hptr, if_neg hzero, if_pos rfl]
      · rw [if_neg hne]
        obtain ⟨⟨v', hc'⟩, -⟩ := hc.moved hblk hbig (hserv hbig) hne
        obtain ⟨h'', v'', hrun, hc''⟩ := hc'.freeAs (mem_cons_of_mem _ hblk)
        have hfresh : (Heap.kmalloc h size).2 ≠ blk.ptr := by
          intro heq
          refine (nodup_cons.mp hc'.live_nodup).1 (mem_map.mpr ⟨blk, hblk, heq.symm⟩)
        unfold Heap.moved at hrun
        rw [hrun]
        refine ⟨h'', _, v'', rfl, ?_⟩
        rw [afterRealloc, if_neg hptr, if_neg hzero, if_neg hne, if_neg hfresh]
        have hwithout : without (newBlock (Heap.kmalloc h size).2 size :: live) blk.ptr =
            newBlock (Heap.kmalloc h size).2 size :: without live blk.ptr := by
          simp [without, newBlock, hfresh]
        rwa [hwithout] at hc''

end Move

/-! ## The machine -/

/-- The heap, the blocks its callers hold, and whether a call failed to
return. -/
structure World where
  heap : HeapState
  live : List Block
  hung : Bool

inductive HeapCall
  | kmalloc (size : U64)
  | kfree (ptr : U64)
  | krealloc (ptr size : U64)
  /-- code outside the allocator: the frames and the memory after it ran -/
  | elsewhere (pmm : PmmState) (mem : Memory)

def heapStep (w : World) : HeapCall → World
  | .kmalloc size =>
    let r := kmalloc w.heap size
    { w with heap := r.1, live := if r.2 = 0#64 then w.live else newBlock r.2 size :: w.live }
  | .kfree ptr =>
    match kfree w.heap ptr with
    | none => { w with hung := true }
    | some h => { w with heap := h, live := without w.live ptr }
  | .krealloc ptr size =>
    match krealloc w.heap ptr size with
    | none => { w with hung := true }
    | some (h, q) => { w with heap := h, live := afterRealloc w.live ptr size q }
  | .elsewhere pmm mem => { w with heap := { w.heap with mem := mem, pmm := pmm } }

/-- The calls after which the heap is still sound. -/
def Proper (w : World) : HeapCall → Prop
  | .kmalloc size => Servable w.heap.pmm size
  | .kfree ptr => ∃ blk ∈ w.live, blk.ptr = ptr ∧ ToldApart w.heap blk
  | .krealloc ptr size =>
    (ptr = 0#64 ∧ Servable w.heap.pmm size) ∨ ∃ blk ∈ w.live, blk.ptr = ptr ∧ ToldApart w.heap blk ∧
        (capacity blk < size → Servable w.heap.pmm size)
  | .elsewhere pmm mem => ElsewhereOK w.heap w.live pmm mem

/-- Every call has returned and memory is consistent. -/
def Sound (w : World) : Prop := w.hung = false ∧ ∃ v, Consistent w.heap v w.live

theorem Sound.served {w : World} (hw : Sound w) {size : U64} (hok : Servable w.heap.pmm size) :
    ∃ v, Consistent (kmalloc w.heap size).1 v
      (if (kmalloc w.heap size).2 = 0#64 then w.live
        else newBlock (kmalloc w.heap size).2 size :: w.live) := by
  obtain ⟨-, v, hc⟩ := hw
  obtain ⟨-, hcase⟩ := hc.kmalloc hok
  rcases hcase with ⟨hnull, hc'⟩ | ⟨hne, hc'⟩
  · rwa [if_pos hnull]
  · rwa [if_neg hne]

/-- **One proper call keeps the heap sound.** -/
theorem Sound.step {w : World} (hw : Sound w) {call : HeapCall} (hok : Proper w call) :
    Sound (heapStep w call) := by
  obtain ⟨hrun, v, hc⟩ := id hw
  cases call with
  | kmalloc size => exact ⟨hrun, hw.served hok⟩
  | kfree ptr =>
    obtain ⟨blk, hblk, rfl, htold⟩ := hok
    obtain ⟨h', v', hfree, hc'⟩ := hc.freeAs hblk
    have heq : kfree w.heap blk.ptr = some h' := (hc.kfree_eq hblk htold).trans hfree
    simp only [heapStep, heq]
    exact ⟨hrun, v', hc'⟩
  | krealloc ptr size =>
    rcases hok with ⟨rfl, hserv⟩ | ⟨blk, hblk, rfl, htold, hserv⟩
    · have heq : krealloc w.heap 0#64 size = some (kmalloc w.heap size) := if_pos rfl
      simp only [heapStep, heq]
      exact ⟨hrun, hw.served hserv⟩
    · obtain ⟨h', q, v', hre, hc'⟩ := hc.reallocAs hblk hserv
      have heq : krealloc w.heap blk.ptr size = some (h', q) :=
        (hc.krealloc_eq hblk htold hserv).trans hre
      simp only [heapStep, heq]
      exact ⟨hrun, v', hc'⟩
  | elsewhere pmm mem => exact ⟨hrun, v, hc.elsewhere hok⟩

/-- The heap right after `heap_init`, over any memory and any PMM state. -/
def bootWorld (pmm : PmmState) (mem : Memory) (caches : Nat → SlabCache) : World where
  heap := heapInit { pmm := pmm, mem := mem, caches := caches, held := [] }
  live := []
  hung := false

theorem sound_boot (pmm : PmmState) (mem : Memory) (caches : Nat → SlabCache) :
    Sound (bootWorld pmm mem caches) := by
  have hcaches : ∀ i ≤ 9, (bootWorld pmm mem caches).heap.caches i =
      { objSize := ofNat 32 (classSize i), partialList := 0#64, fullList := 0#64 } := by
    intro i hi
    have hsize : ∀ i ≤ 9, 1#32 <<< (3 + i) = ofNat 32 (classSize i) := by decide
    have hlt : i < heapNumCaches := Nat.lt_succ_of_le hi
    simp [bootWorld, heapInit, hlt, hsize i hi]
  refine ⟨rfl, ⟨fun _ => none, fun _ => [], fun _ => []⟩, ?_⟩
  exact {
    objSize := fun i hi => by rw [hcaches i hi]
    partChain := fun i hi => by rw [hcaches i hi]; rfl
    fullChain := fun i hi => by rw [hcaches i hi]; rfl
    mem_part := by simp
    mem_full := by simp
    slab := by simp
    page := by simp
    held := fun phys hmem => by cases hmem
    held_nodup := nodup_nil
    block := fun blk hmem => by cases hmem
    accounted := by simp
    live_nodup := nodup_nil }

end Heap
