import NamelessOS.HeapSlab

/-!
# Freeing keeps the heap consistent

`cache_free` in its two halves: the object returns to its slab, and a slab
without live objects returns to the PMM.  Freeing the last live object of a
slab releases exactly its frame, because a slab whose free list has as many
entries as there are objects has no live block left.
-/

namespace Heap

open Pmm LinkedChain WordMemory WordBitmap List
open Function (update update_of_ne update_self)

variable {h h' : HeapState} {v : View} {live : List Block} {b : U64} {i k : Nat}
  {free : List Nat}

/-- The live blocks other than the one at `ptr`. -/
def without (live : List Block) (ptr : U64) : List Block := live.filter (fun blk => blk.ptr ≠ ptr)

variable {blk : Block}

theorem mem_without {ptr : U64} : blk ∈ without live ptr ↔ blk ∈ live ∧ blk.ptr ≠ ptr := by
  simp [without]

theorem nodup_without (hnd : (live.map Block.ptr).Nodup) (ptr : U64) :
    ((without live ptr).map Block.ptr).Nodup :=
  hnd.sublist (filter_sublist.map Block.ptr)

/-! ## Putting an object back -/

/-- The object becomes the first free one; three words change. -/
theorem SlabOK.push {m : Memory} (hs : SlabOK m b i free) (hb : PageAligned b) (hi8 : i ≤ 8)
    (hk : k < classTotal i) (htaken : k ∉ free) :
    SlabOK (pushObject m b (object b i k)) b i (k :: free) ∧
      ∀ x, x ≠ object b i k → x ≠ cell b 8 → x ≠ cell b 16 →
        pushObject m b (object b i k) x = m x := by
  have h816 : cell b 8 ≠ cell b 16 := cell_ne hb (by decide) (by decide) (by decide)
  have h824 : cell b 24 ≠ cell b 8 := cell_ne hb (by decide) (by decide) (by decide)
  have h1624 : cell b 24 ≠ cell b 16 := cell_ne hb (by decide) (by decide) (by decide)
  have hobj : ∀ {k'}, k' < classTotal i → ∀ {off}, off < 32 → object b i k' ≠ cell b off :=
    fun hk' _ hoff => object_ne_header hb hi8 hk' hoff
  have hobj8 : object b i k ≠ cell b 8 := hobj hk (by decide)
  have hobj16 : object b i k ≠ cell b 16 := hobj hk (by decide)
  have hobj24 : object b i k ≠ cell b 24 := hobj hk (by decide)
  refine ⟨⟨?_, ?_, ?_, ?_, ?_⟩, ?_⟩
  · simp [pushObject, h816.symm, hobj16.symm, hs.size]
  · have hcount := hs.count
    simp only [pushObject, update_self, update_of_ne h816.symm,
      update_of_ne hobj16.symm, hi_withHi, hcount, length_cons]
    bv_omega
  · simp [pushObject, h824, h1624, hobj24.symm, hs.total]
  · refine ⟨?_, object_ne_zero hb hi8 hk, ?_⟩
    · simp [pushObject, h816]
    · have hnext : pushObject m b (object b i k) (object b i k) = m (cell b 8) := by
        simp [pushObject, hobj8, hobj16]
      rw [hnext]
      refine hs.chain.congr (fun x hx => ?_)
      obtain ⟨k', hk', rfl⟩ := mem_map.mp hx
      have hbound := hs.bound k' hk'
      have hne : object b i k' ≠ object b i k := by
        intro heq
        rw [object_inj hb hi8 hbound hk heq] at hk'
        exact htaken hk'
      simp [pushObject, hne, hobj hbound]
  · intro k' hk'
    rcases mem_cons.mp hk' with rfl | hk'
    · exact hk
    · exact hs.bound k' hk'
  · intro x hx h8 h16
    simp [pushObject, hx, h8, h16]

section

variable (hc : Consistent h v live) (hblk : SlabBlock v blk b i free k)
include hc hblk

/-- The blocks that stay when object `k` goes back. -/
theorem Consistent.blocks_after_push {m : Memory} {part full : List U64} (hch : ChangedAt v b i h.mem m) :
    ∀ other ∈ without live blk.ptr,
      BlockOK m (v.withSlab b i (some (k :: free)) part full) other := by
  intro other hother
  obtain ⟨hmem, hne⟩ := mem_without.mp hother
  by_cases hpage : pageOf other.ptr = b
  · obtain ⟨k', hs'⟩ := hc.block_on_page hmem hpage hblk.use
    refine .inl ⟨b, i, k :: free, k', { hs' with use := withSlab_use_self _ _ _ _ _ _, taken := ?_ }⟩
    intro hk'
    rcases mem_cons.mp hk' with rfl | hk'
    · exact hne (hs'.ptr.trans hblk.ptr.symm)
    · exact hs'.taken hk'
  · exact hc.other_block (.inr ⟨_, hblk.use⟩) hch hmem hpage

theorem Consistent.accounted_after_push :
    ∀ free' k', some (k :: free) = some free' → k' < classTotal i → k' ∉ free' →
      ∃ other ∈ without live blk.ptr, other.ptr = object b i k' := by
  rintro free' k' ⟨⟩ hk' hnot
  obtain ⟨hkk, hfree⟩ := not_or.mp (fun hor => hnot (mem_cons.mpr hor))
  obtain ⟨other, hmem, hptr⟩ := hc.accounted b i free k' hblk.use hk' hfree
  refine ⟨other, mem_without.mpr ⟨hmem, ?_⟩, hptr⟩
  rw [hptr, hblk.ptr]
  intro heq
  obtain ⟨hi8, -⟩ := hc.slab b i free hblk.use
  exact hkk (object_inj (hc.aligned hblk.use) hi8 hk' hblk.index heq)

end

/-- The memory `m` right after object `k` went back to its slab. -/
structure Pushed (h : HeapState) (v : View) (live : List Block) (blk : Block) (b : U64) (i k : Nat)
    (free : List Nat) (m : Memory) : Prop where
  slab : SlabOK m b i (k :: free)
  page : ∀ x, pageOf x ≠ b → m x = h.mem x
  partChain : Chain m 0#64 (h.caches i).partialList (v.part i)
  fullChain : Chain m 0#64 (h.caches i).fullList (v.full i)
  keep : ∀ other ∈ live, pageOf other.ptr ≠ b → other ∈ without live blk.ptr

section

variable (hc : Consistent h v live)
include hc

theorem Consistent.pushed (hblk : SlabBlock v blk b i free k) :
    Pushed h v live blk b i k free (pushObject h.mem b (object b i k)) := by
  obtain ⟨hi8, hs⟩ := hc.slab b i free hblk.use
  have halign := hc.aligned hblk.use
  have hslab : slabOf (object b i k) = b := pageOf_object halign hi8 hblk.index
  obtain ⟨hs', hsame⟩ := hs.push halign hi8 hblk.index hblk.taken
  generalize pushObject h.mem b (object b i k) = m at hs' hsame
  have hpage : ∀ x, pageOf x ≠ b → m x = h.mem x := by
    intro x hx
    refine hsame x ?_ ?_ ?_ <;> rintro rfl
    · exact hx hslab
    · exact hx (pageOf_cell halign (by decide))
    · exact hx (pageOf_cell halign (by decide))
  have hlinks : ∀ x, OnLists v i x → m x = h.mem x := by
    intro x hx
    by_cases hxb : x = b
    · subst hxb
      apply hsame
      · have hne : object x i k ≠ cell x 0 := object_ne_header halign hi8 hblk.index (by decide)
        rw [cell_zero] at hne
        exact hne.symm
      · exact (link_ne halign (by decide) (by decide)).symm
      · exact (link_ne halign (by decide) (by decide)).symm
    · exact hpage x (hc.page_ne hx hxb)
  refine ⟨hs', hpage, ?_, ?_, ?_⟩
  · exact (hc.partChain i (by omega)).congr (fun x hx => hlinks x (.inl hx))
  · exact (hc.fullChain i (by omega)).congr (fun x hx => hlinks x (.inr hx))
  · intro other hother hne
    refine mem_without.mpr ⟨hother, ?_⟩
    intro heq
    rw [heq, hblk.ptr] at hne
    exact hne hslab

/-- The slab was full: it moves to the partial list. -/
theorem Consistent.returnObject_full (hblk : SlabBlock v blk b i [] k) :
    ∃ h' part full, returnObject h i blk.ptr = some h' ∧
      Consistent h' (v.withSlab b i (some [k]) part full) (without live blk.ptr) := by
  obtain ⟨hi8, hs⟩ := hc.slab b i [] hblk.use
  have halign := hc.aligned hblk.use
  have hslab : slabOf (object b i k) = b := pageOf_object halign hi8 hblk.index
  have hpush := hc.pushed hblk
  generalize hm : pushObject h.mem b (object b i k) = m at hpush
  have hzero : hi (h.mem (cell b 16)) = 0#32 := hs.count
  have hfull : b ∈ v.full i := (hc.mem_full i b).mpr hblk.use
  have hnotPart : b ∉ v.part i := by
    rw [hc.mem_part]
    rintro ⟨free', huse, hne⟩
    rw [hblk.use] at huse
    cases huse
    exact hne rfl
  obtain ⟨head', next', hun, hchain, hrest⟩ :=
    unlink_chain b hpush.fullChain (length_lt_walkFuel hpush.fullChain.nodup)
  rw [hblk.ptr]
  unfold Heap.returnObject
  dsimp only
  rw [hslab, if_pos hzero, hm, hun]
  refine ⟨_, b :: v.part i, (v.full i).erase b, rfl, ?_⟩
  have hmem' : ∀ x, x ≠ b → ¬ OnLists v i x ∨ x ∈ v.part i →
      update next' b (h.caches i).partialList x = m x := by
    intro x hx hor
    rw [update_of_ne hx, hrest]
    rcases hor with hnot | hpart
    · exact fun hmemf => hnot (.inr hmemf)
    · grind [mem_part, mem_full]
  have hch : ChangedAt v b i h.mem (update next' b (h.caches i).partialList) := by
    intro x hx hnot
    have hxb : x ≠ b := by
      rintro rfl
      exact hx (pageOf_self halign)
    rw [hmem' x hxb (.inl hnot), hpush.page x hx]
  refine hc.reslab hi8 (.inr ⟨_, hblk.use⟩) hch (fun j hj => update_of_ne hj _ _) ?_ ?_ ?_ ?_ ?_ ?_
    (fun _ => hc.page b _ hblk.use) (fun phys hp _ => hp) hc.held hc.held_nodup
    (hblk.ptr ▸ hc.blocks_after_push hblk hch) (hblk.ptr ▸ hpush.keep)
    (hblk.ptr ▸ hc.accounted_after_push hblk) (nodup_without hc.live_nodup _)
  · simp [setCache]
  · simp only [setCache, update_self]
    refine ⟨rfl, hpush.fullChain.ne_null hfull, ?_⟩
    rw [update_self]
    refine hpush.partChain.congr (fun x hx => hmem' x ?_ (.inr hx))
    rintro rfl
    exact hnotPart hx
  · simp only [setCache, update_self]
    refine hchain.congr (fun x hx => update_of_ne ?_ _ _)
    rintro rfl
    exact hpush.fullChain.nodup.not_mem_erase hx
  · intro x
    by_cases hx : x = b <;> simp [hx]
  · intro x
    by_cases hx : x = b
    · subst hx
      simpa using hpush.fullChain.nodup.not_mem_erase
    · simp [hx, mem_erase_of_ne hx]
  · rintro free' ⟨⟩
    have hbody : ∀ off, 8 ≤ off → off < 4096 →
        update next' b (h.caches i).partialList (cell b off) = m (cell b off) :=
      fun off hlow hhigh => hmem' _ (link_ne halign (by omega) hhigh)
        (.inl (hc.not_onLists halign (by omega) hhigh))
    refine hpush.slab.congr (fun off hlow hhigh => hbody off hlow (by omega)) (fun k' hk' => ?_)
    have hoff := objectOffset_bounds hi8 (hpush.slab.bound k' hk')
    exact hbody _ (by omega) (objectOffset_lt hi8 (hpush.slab.bound k' hk'))

/-- The slab stays on the partial list. -/
theorem Consistent.returnObject_partial
    (hblk : SlabBlock v blk b i free k) (hsome : free ≠ []) :
    ∃ h' part full, returnObject h i blk.ptr = some h' ∧
      Consistent h' (v.withSlab b i (some (k :: free)) part full) (without live blk.ptr) := by
  obtain ⟨hi8, hs⟩ := hc.slab b i free hblk.use
  have hslab : slabOf (object b i k) = b := pageOf_object (hc.aligned hblk.use) hi8 hblk.index
  have hpush := hc.pushed hblk
  generalize hm : pushObject h.mem b (object b i k) = m at hpush
  have hpos : hi (h.mem (cell b 16)) ≠ 0#32 := by
    rw [hs.count, Ne, count_eq_zero_iff hi8 (length_le_total hs.free_nodup hs.bound)]
    exact hsome
  have hpart : b ∈ v.part i := (hc.mem_part i b).mpr ⟨free, hblk.use, hsome⟩
  have hnot : b ∉ v.full i := by
    rw [hc.mem_full, hblk.use]
    rintro ⟨⟩
    exact hsome rfl
  rw [hblk.ptr]
  unfold Heap.returnObject
  rw [hslab, if_neg hpos, hm]
  refine ⟨_, v.part i, v.full i, rfl, ?_⟩
  have hch : ChangedAt v b i h.mem m := .of_page hpush.page
  refine hc.reslab hi8 (.inr ⟨_, hblk.use⟩) hch (fun j _ => rfl) rfl hpush.partChain hpush.fullChain
    ?_ ?_ ?_ (fun _ => hc.page b _ hblk.use) (fun phys hp _ => hp) hc.held hc.held_nodup
    (hblk.ptr ▸ hc.blocks_after_push hblk hch) (hblk.ptr ▸ hpush.keep)
    (hblk.ptr ▸ hc.accounted_after_push hblk) (nodup_without hc.live_nodup _)
  · intro x
    by_cases hx : x = b
    · simpa [hx] using hpart
    · simp [hx]
  · intro x
    by_cases hx : x = b
    · simpa [hx] using hnot
    · simp [hx]
  · rintro free' ⟨⟩
    exact hpush.slab

/-- **The first half of `cache_free`.** -/
theorem Consistent.returnObject (hblk : SlabBlock v blk b i free k) :
    ∃ h' part full, returnObject h i blk.ptr = some h' ∧
      Consistent h' (v.withSlab b i (some (k :: free)) part full) (without live blk.ptr) := by
  by_cases hlast : free = []
  · subst hlast
    exact hc.returnObject_full hblk
  · exact hc.returnObject_partial hblk hlast

end

/-! ## Releasing an empty slab -/

/-- The other frames stay used when one is given back. -/
theorem UsedFrame.give {pmm : PmmState} {phys phys' : U64} (hused : UsedFrame pmm phys)
    (hused' : UsedFrame pmm phys') (hne : phys' ≠ phys) :
    UsedFrame (pmmFreeFrame pmm phys) phys' := by
  obtain ⟨f, hf, rfl, -⟩ := hused
  obtain ⟨g, hg, rfl, hset⟩ := hused'
  refine ⟨g, hg, rfl, ?_⟩
  have hgf : g ≠ f := by
    rintro rfl
    exact hne rfl
  rw [test_pmmFreeFrame _ _ _ (by rwa [frameOf_address hf]), frameOf_address hf]
  simp [hgf, hset]

section

variable (hc : Consistent h v live)
include hc

theorem Consistent.frames_after_give {phys : U64} (hmem : phys ∈ h.held) :
    ∀ phys' ∈ h.held.erase phys, UsedFrame (pmmFreeFrame h.pmm phys) phys' := by
  grind [held_nodup, UsedFrame.give, held]

/-- No live block is left on the page of a slab whose objects are all free. -/
theorem Consistent.no_block_left (huse : v.use b = some (.slab i free))
    (hlen : free.length = classTotal i) : ∀ blk ∈ live, pageOf blk.ptr ≠ b := by
  intro blk hblk hpage
  obtain ⟨-, hs⟩ := hc.slab b i free huse
  obtain ⟨k, hs'⟩ := hc.block_on_page hblk hpage huse
  exact hs'.taken (mem_of_length_total hs.free_nodup hs.bound hlen hs'.index)

/-- **The second half of `cache_free`.** -/
theorem Consistent.releaseIfEmpty
    (huse : v.use b = some (.slab i free)) (hfree : free ≠ []) :
    ∃ h' v', releaseIfEmpty h i b = some h' ∧ Consistent h' v' live := by
  obtain ⟨hi8, hs⟩ := hc.slab b i free huse
  have halign := hc.aligned huse
  have hold : SlabOrNone v b i := .inr ⟨_, huse⟩
  have hlen := length_le_total hs.free_nodup hs.bound
  obtain ⟨-, -, -, -, htotal⟩ := class_bounds i hi8
  unfold Heap.releaseIfEmpty
  rw [hs.count, hs.total]
  by_cases hempty : free.length = classTotal i
  · have hpartChain := hc.partChain i (by omega)
    have hfullChain := hc.fullChain i (by omega)
    have hheld := hc.page b _ huse
    have hnotFull : ∀ x ∈ v.full i, x ∉ v.part i := by
      grind [mem_part, mem_full]
    have hbFull : b ∉ v.full i := by
      rw [hc.mem_full, huse]
      rintro ⟨⟩
      exact hfree rfl
    obtain ⟨head', next', hun, hchain, hrest⟩ :=
      unlink_chain b hpartChain (length_lt_walkFuel hpartChain.nodup)
    rw [hempty, if_pos rfl]
    dsimp only
    rw [hun]
    refine ⟨_, v.withSlab b i none ((v.part i).erase b) (v.full i), rfl, ?_⟩
    have hch : ChangedAt v b i h.mem next' := fun x _ hnot => hrest x (fun hx => hnot (.inl hx))
    have hleft := hc.no_block_left huse hempty
    refine hc.reslab hi8 hold hch (fun j hj => update_of_ne hj _ _) ?_ ?_ ?_ ?_ ?_ ?_
      (fun hne => absurd rfl hne) (fun phys hp hne => (mem_erase_of_ne hne).mpr hp)
      (hc.frames_after_give hheld) (hc.held_nodup.erase _)
      (fun blk hblk => hc.other_block hold hch hblk (hleft blk hblk)) (fun blk hblk _ => hblk) ?_
      hc.live_nodup
    · simp [giveFrame, setCache]
    · simpa [giveFrame, setCache] using hchain
    · simp only [giveFrame, setCache, update_self]
      exact hfullChain.congr (fun x hx => hrest x (hnotFull x hx))
    · intro x
      by_cases hx : x = b
      · subst hx
        simpa using hpartChain.nodup.not_mem_erase
      · simp [hx, mem_erase_of_ne hx]
    · intro x
      by_cases hx : x = b
      · simpa [hx] using hbFull
      · simp [hx]
    · rintro free' ⟨⟩
    · rintro free' k' ⟨⟩
  grind [BitVec.toNat_ofNat]

/-- **`cache_free` on a live slab object** returns and removes that block. -/
theorem Consistent.cacheFree (hblk : SlabBlock v blk b i free k) :
    ∃ h' v', cacheFree h i blk.ptr = some h' ∧ Consistent h' v' (without live blk.ptr) := by
  obtain ⟨hi8, -⟩ := hc.slab b i free hblk.use
  have hslab : slabOf blk.ptr = b := by
    rw [hblk.ptr]
    exact pageOf_object (hc.aligned hblk.use) hi8 hblk.index
  obtain ⟨h₁, part, full, hrun, hc₁⟩ := hc.returnObject hblk
  have huse : (v.withSlab b i (some (k :: free)) part full).use b =
      some (.slab i (k :: free)) := withSlab_use_self _ _ _ _ _ _
  obtain ⟨h₂, v₂, hrun₂, hc₂⟩ := hc₁.releaseIfEmpty huse (cons_ne_nil k free)
  refine ⟨h₂, v₂, ?_, hc₂⟩
  rw [Heap.cacheFree, hrun, hslab]
  exact hrun₂

end

/-! ## Large blocks -/

/-- The view without page `b`. -/
def View.drop (v : View) (b : U64) : View := { v with use := update v.use b none }

theorem drop_use_self (v : View) (b : U64) : (v.drop b).use b = none := update_self _ _ _

variable {b' : U64}

theorem drop_use_of_ne (hne : b' ≠ b) : (v.drop b).use b' = v.use b' :=
  update_of_ne hne _ _

/-- Dropping a large page leaves the slabs. -/
theorem drop_slab_iff (huse : v.use b = some (.large b)) :
    (v.drop b).use b' = some (.slab i free) ↔ v.use b' = some (.slab i free) := by
  by_cases hb : b' = b
  · subst hb
    rw [drop_use_self, huse]
    constructor <;> rintro ⟨⟩
  · rw [drop_use_of_ne hb]

/-- Two large blocks do not share their first page. -/
theorem LargeBlock.base_ne {m : Memory} {other : Block}
    (hblk : LargeBlock m v blk b) (hother : LargeBlock m v other b') (hne : other.ptr ≠ blk.ptr) :
    b' ≠ b := by
  rintro rfl
  exact hne (hother.ptr.trans hblk.ptr.symm)

/-- **`large_free` on a live large block** gives its first frame back. -/
theorem Consistent.largeFree (hc : Consistent h v live) (hblk : LargeBlock h.mem v blk b) :
    Consistent (largeFree h blk.ptr) (v.drop b) (without live blk.ptr) := by
  have hfirst := hblk.first
  have halign := hc.aligned hfirst
  have hheld := hc.page b _ hfirst
  have hbase : blk.ptr - 8#64 = b := by
    rw [hblk.ptr, cell]
    bv_omega
  have hpage : pageOf blk.ptr = b := by
    rw [hblk.ptr]
    exact pageOf_cell halign (by decide)
  have hdrop : ∀ {b' u}, (v.drop b).use b' = some u → b' ≠ b ∧ v.use b' = some u := by
    grind [drop_use_self, drop_use_of_ne]
  unfold Heap.largeFree giveFrame
  rw [hbase]
  exact { hc with
    mem_part := by
      intro i b'
      simp only [drop_slab_iff hfirst]
      exact hc.mem_part i b'
    mem_full := by
      intro i b'
      rw [drop_slab_iff hfirst]
      exact hc.mem_full i b'
    slab := by
      intro b' i free huse
      exact hc.slab b' i free ((drop_slab_iff hfirst).mp huse)
    page := by
      intro b' u huse
      obtain ⟨hb, huse'⟩ := hdrop huse
      refine (mem_erase_of_ne (fun heq => hb ?_)).mpr (hc.page b' u huse')
      rw [← physToVirt_virtToPhys b', heq, physToVirt_virtToPhys]
    held := hc.frames_after_give hheld
    held_nodup := hc.held_nodup.erase _
    block := by
      intro other hother
      obtain ⟨hmem, hne⟩ := mem_without.mp hother
      rcases hc.block other hmem with ⟨b', i, free, k, hs⟩ | ⟨b', hl⟩
      · exact .inl ⟨b', i, free, k, { hs with use := (drop_slab_iff hfirst).mpr hs.use }⟩
      · refine .inr ⟨b', { hl with pages := ?_ }⟩
        grind [drop_use_of_ne, LargeBlock.pages, LargeBlock.base_ne]
    accounted := by
      intro b' i free k huse hk hnot
      have huse' := (drop_slab_iff hfirst).mp huse
      obtain ⟨other, hmem, hptr⟩ := hc.accounted b' i free k huse' hk hnot
      refine ⟨other, mem_without.mpr ⟨hmem, ?_⟩, hptr⟩
      intro heq
      obtain ⟨hi8, -⟩ := hc.slab b' i free huse'
      rw [← heq, hptr, pageOf_object (hc.aligned huse') hi8 hk] at hpage
      rw [hpage, hfirst] at huse'
      cases huse'
    live_nodup := nodup_without hc.live_nodup _ }

end Heap
