import NamelessOS.HeapLayout

/-!
# What the heap's memory means

The ghost view of the heap says what each page is used for: a slab of some
class with the list of its free objects, or a page of a large block; and for
each cache which slabs are on its two lists, in order.  `Consistent` relates
the view, the live blocks and the bytes in memory.  It depends on memory only
through the cells the allocator owns (`Metadata`), so nothing an owner writes
into a live block can disturb it.
-/

namespace Heap

open Pmm LinkedChain WordMemory WordBitmap List Function
open BitVec (ofNat)

/-- What a page is used for. -/
inductive PageUse
  | slab (i : Nat) (free : List Nat)
  | large (b : U64)

structure View where
  use : U64 → Option PageUse
  part : Nat → List U64
  full : Nat → List U64

/-- A block in the hands of a caller: its address, the bytes the caller may
use, and the size of the request that was served with it. -/
structure Block where
  ptr : U64
  req : U64
  origin : U64

/-- The address lies in the bytes of the block. -/
def Block.Contains (blk : Block) (x : U64) : Prop := (x - blk.ptr).toNat < blk.req.toNat

/-- A slab page holds a descriptor and the chain of its free objects. -/
structure SlabOK (m : Memory) (b : U64) (i : Nat) (free : List Nat) : Prop where
  size : lo (m (cell b 16)) = ofNat 32 (classSize i)
  count : hi (m (cell b 16)) = ofNat 32 free.length
  total : lo (m (cell b 24)) = ofNat 32 (classTotal i)
  chain : Chain m 0#64 (m (cell b 8)) (free.map (object b i))
  bound : ∀ k ∈ free, k < classTotal i

/-- The block is object `k` of a slab, and not a free one. -/
structure SlabBlock (v : View) (blk : Block) (b : U64) (i : Nat) (free : List Nat) (k : Nat) :
    Prop where
  use : v.use b = some (.slab i free)
  index : k < classTotal i
  taken : k ∉ free
  ptr : blk.ptr = object b i k
  origin : blk.origin ≤ 2048#64
  served : sizeClass blk.origin = i
  req : blk.req.toNat ≤ classSize i

/-- The block starts one word into the page `b` and owns the pages after it. -/
structure LargeBlock (m : Memory) (v : View) (blk : Block) (b : U64) : Prop where
  ptr : blk.ptr = cell b 8
  origin : 4096#64 < blk.origin
  nowrap : blk.origin.toNat + 4103 < 2 ^ 64
  header : m b = numPages blk.origin
  req : blk.req.toNat ≤ (numPages blk.origin).toNat * 4096 - 8
  pages : ∀ j < (numPages blk.origin).toNat, v.use (b + ofNat 64 (j * 4096)) = some (.large b)

def BlockOK (m : Memory) (v : View) (blk : Block) : Prop :=
  (∃ b i free k, SlabBlock v blk b i free k) ∨ ∃ b, LargeBlock m v blk b

/-- The address is that of a frame the PMM counts as used. -/
def UsedFrame (pmm : PmmState) (phys : U64) : Prop :=
  ∃ f < pmmMaxFrames, phys = ofNat 64 (f * frameSize) ∧ test pmm.bitmap f = true

/-- **The heap invariant.** -/
structure Consistent (h : HeapState) (v : View) (live : List Block) : Prop where
  objSize : ∀ i ≤ 9, (h.caches i).objSize = ofNat 32 (classSize i)
  partChain : ∀ i ≤ 9, Chain h.mem 0#64 (h.caches i).partialList (v.part i)
  fullChain : ∀ i ≤ 9, Chain h.mem 0#64 (h.caches i).fullList (v.full i)
  mem_part : ∀ i b, b ∈ v.part i ↔ ∃ free, v.use b = some (.slab i free) ∧ free ≠ []
  mem_full : ∀ i b, b ∈ v.full i ↔ v.use b = some (.slab i [])
  slab : ∀ b i free, v.use b = some (.slab i free) → i ≤ 8 ∧ SlabOK h.mem b i free
  page : ∀ b u, v.use b = some u → virtToPhys b ∈ h.held
  held : ∀ phys ∈ h.held, UsedFrame h.pmm phys
  held_nodup : h.held.Nodup
  block : ∀ blk ∈ live, BlockOK h.mem v blk
  accounted : ∀ b i free k, v.use b = some (.slab i free) → k < classTotal i → k ∉ free →
    ∃ blk ∈ live, blk.ptr = object b i k
  live_nodup : (live.map Block.ptr).Nodup

/-! ## Frames and pages -/

@[simp] theorem virtToPhys_physToVirt (phys : U64) : virtToPhys (physToVirt phys) = phys := by
  unfold virtToPhys physToVirt
  bv_omega

@[simp] theorem physToVirt_virtToPhys (b : U64) : physToVirt (virtToPhys b) = b := by
  unfold virtToPhys physToVirt
  bv_omega

theorem pageAligned_physToVirt {f : Nat} (hf : f < pmmMaxFrames) :
    PageAligned (physToVirt (ofNat 64 (f * frameSize))) := by
  have hvma : kernelVma.toNat = 0xFFFFFFFF80000000 := rfl
  have haddr := frame_address hf
  unfold PageAligned physToVirt
  rw [BitVec.toNat_add, haddr, hvma]
  unfold frameSize
  omega

variable {pmm : PmmState}

theorem UsedFrame.aligned {b : U64} (h : UsedFrame pmm (virtToPhys b)) : PageAligned b := by
  obtain ⟨f, hf, haddr, -⟩ := h
  rw [← physToVirt_virtToPhys b, haddr]
  exact pageAligned_physToVirt hf

variable {h h' : HeapState} {v : View} {live live' : List Block} {b : U64} {i : Nat}
  {free : List Nat}

theorem pageOf_self (hb : PageAligned b) : pageOf b = b := by
  have hcell : pageOf (cell b 0) = b := pageOf_cell hb (by decide)
  rwa [cell_zero] at hcell

theorem Consistent.aligned (hc : Consistent h v live) {u : PageUse} (huse : v.use b = some u) :
    PageAligned b :=
  (hc.held _ (hc.page b u huse)).aligned

/-- What `takeFrame` can do. -/
inductive TakeOutcome (h : HeapState) : HeapState × U64 → Prop
  | none (pmm : PmmState) (hkeep : ∀ phys, UsedFrame h.pmm phys → UsedFrame pmm phys) :
      TakeOutcome h ({ h with pmm := pmm }, 0#64)
  | frame (f : Nat) (hmax : f < pmmMaxFrames) (hpos : f ≠ 0)
      (hclear : test h.pmm.bitmap f = false) (hlow : ∀ g < f, test h.pmm.bitmap g = true) :
      TakeOutcome h
        ({ h with
            pmm := { h.pmm with
              bitmap := set h.pmm.bitmap f, freeFrames := h.pmm.freeFrames - 1#64 }
            held := ofNat 64 (f * frameSize) :: h.held },
          ofNat 64 (f * frameSize))

variable {phys x b' : U64}

theorem UsedFrame.set (h : UsedFrame pmm phys) (f : Nat) (count : U64) :
    UsedFrame { pmm with bitmap := set pmm.bitmap f, freeFrames := count } phys := by
  obtain ⟨g, hg, haddr, hset⟩ := h
  exact ⟨g, hg, haddr, by simp [hset]⟩

theorem takeFrame_outcome (h : HeapState) : TakeOutcome h (takeFrame h) := by
  have hout := pmmAllocFrame_outcome h.pmm
  unfold takeFrame
  generalize pmmAllocFrame h.pmm = r at hout ⊢
  cases hout with
  | full => exact .none h.pmm (fun _ hu => hu)
  | frame f hmax hclear hlow =>
    dsimp only
    by_cases hf : f = 0
    · subst hf
      have hzero : ofNat 64 (0 * frameSize) = 0#64 := by simp
      rw [hzero, if_pos rfl]
      exact .none _ (fun _ hu => hu.set 0 _)
    · rw [if_neg (address_ne_zero hmax hf)]
      exact .frame f hmax hf hclear hlow

/-- A clear frame is not one the heap holds. -/
theorem Consistent.not_held (hc : Consistent h v live) {f : Nat} (hmax : f < pmmMaxFrames)
    (hclear : test h.pmm.bitmap f = false) : ofNat 64 (f * frameSize) ∉ h.held := by
  intro hmem
  obtain ⟨g, hg, haddr, hset⟩ := hc.held _ hmem
  rw [address_injective hmax hg haddr, hset] at hclear
  cases hclear

/-! ## Which cells matter -/

variable {m m' : Memory}

/-- A slab depends on its descriptor past the link and on its free objects. -/
theorem SlabOK.congr (hs : SlabOK m b i free)
    (hhdr : ∀ off, 8 ≤ off → off < 32 → m' (cell b off) = m (cell b off))
    (hobj : ∀ k ∈ free, m' (object b i k) = m (object b i k)) : SlabOK m' b i free where
  size := by rw [hhdr 16 (by decide) (by decide), hs.size]
  count := by rw [hhdr 16 (by decide) (by decide), hs.count]
  total := by rw [hhdr 24 (by decide) (by decide), hs.total]
  chain := by
    rw [hhdr 8 (by decide) (by decide)]
    refine hs.chain.congr (fun x hx => ?_)
    obtain ⟨k, hk, rfl⟩ := mem_map.mp hx
    exact hobj k hk
  bound := hs.bound

theorem SlabOK.free_nodup (hs : SlabOK m b i free) : free.Nodup := hs.chain.nodup.of_map _

/-- The pages of the two lists of a cache. -/
def OnLists (v : View) (i : Nat) (x : U64) : Prop := x ∈ v.part i ∨ x ∈ v.full i

theorem Consistent.onLists_use (hc : Consistent h v live) (hx : OnLists v i x) :
    ∃ free, v.use x = some (.slab i free) := by
  rcases hx with hx | hx
  · obtain ⟨free, huse, -⟩ := (hc.mem_part i x).mp hx
    exact ⟨free, huse⟩
  · exact ⟨[], (hc.mem_full i x).mp hx⟩

variable {j : Nat}

/-- A cell past the link word of its page is on no list. -/
theorem Consistent.not_onLists (hc : Consistent h v live) (hb : PageAligned b) {off : Nat}
    (hpos : off ≠ 0) (hoff : off < 4096) : ¬ OnLists v j (cell b off) := by
  intro hx
  obtain ⟨free, huse⟩ := hc.onLists_use hx
  have halign := hc.aligned huse
  have hcell : cell b off = cell (cell b off) 0 := (cell_zero _).symm
  exact hpos ((cell_inj hb halign hoff (by decide)).mp hcell).2

/-- The cells the allocator owns. -/
inductive Metadata (v : View) : U64 → Prop
  | header (b : U64) (i : Nat) (free : List Nat) (off : Nat)
      (huse : v.use b = some (.slab i free)) (hoff : off < 32) : Metadata v (cell b off)
  | object (b : U64) (i : Nat) (free : List Nat) (k : Nat)
      (huse : v.use b = some (.slab i free)) (hk : k ∈ free) : Metadata v (object b i k)
  | large (b : U64) (huse : v.use b = some (.large b)) : Metadata v b

theorem LargeBlock.first {blk : Block} (hb : LargeBlock m v blk b) : v.use b = some (.large b) := by
  have hpos := numPages_pos hb.nowrap hb.origin
  simpa using hb.pages 0 (by omega)

section

variable (hc : Consistent h v live)
include hc

/-- **The invariant depends on memory through the metadata only.** -/
theorem Consistent.congr (hmem : ∀ x, Metadata v x → m x = h.mem x)
    (hpmm : ∀ phys ∈ h.held, UsedFrame pmm phys) :
    Consistent { h with mem := m, pmm := pmm } v live where
  __ := hc
  partChain := by
    intro j hj
    refine (hc.partChain j hj).congr (fun x hx => hmem x ?_)
    obtain ⟨free, huse⟩ := hc.onLists_use (.inl hx)
    simpa using Metadata.header x j free 0 huse (by decide)
  fullChain := by
    intro j hj
    refine (hc.fullChain j hj).congr (fun x hx => hmem x ?_)
    obtain ⟨free, huse⟩ := hc.onLists_use (.inr hx)
    simpa using Metadata.header x j free 0 huse (by decide)
  slab := by
    intro b i free huse
    obtain ⟨hi, hs⟩ := hc.slab b i free huse
    exact ⟨hi, hs.congr (fun off _ hoff => hmem _ (.header b i free off huse hoff))
      (fun k hk => hmem _ (.object b i free k huse hk))⟩
  held := hpmm
  block := by
    intro blk hblk
    rcases hc.block blk hblk with hslab | ⟨b, hlarge⟩
    · exact .inl hslab
    · exact .inr ⟨b, { hlarge with header := (hmem b (.large b hlarge.first)).trans hlarge.header }⟩

/-- Metadata lies on pages in use. -/
theorem Consistent.metadata_page (hx : Metadata v x) : ∃ u, v.use (pageOf x) = some u := by
  cases hx with
  | header b i free off huse hoff =>
    exact ⟨_, by rw [pageOf_cell (hc.aligned huse) (by omega), huse]⟩
  | object b i free k huse hk =>
    obtain ⟨hi, hs⟩ := hc.slab b i free huse
    exact ⟨_, by rw [pageOf_object (hc.aligned huse) hi (hs.bound k hk), huse]⟩
  | large _ huse =>
    exact ⟨_, by rw [pageOf_self (hc.aligned huse), huse]⟩

/-- A page outside the heap's frames has no use. -/
theorem Consistent.use_of_not_held
    (hfresh : phys ∉ h.held) : v.use (physToVirt phys) = none := by
  rcases huse : v.use (physToVirt phys) with _ | u
  · rfl
  · have hmem := hc.page _ u huse
    rw [virtToPhys_physToVirt] at hmem
    exact absurd hmem hfresh

/-- The heap takes over a fresh frame, whatever it writes there. -/
theorem Consistent.hold (hfresh : phys ∉ h.held) (hused : UsedFrame pmm phys)
    (hkeep : ∀ phys' ∈ h.held, UsedFrame pmm phys')
    (hmem : ∀ x, pageOf x ≠ physToVirt phys → m x = h.mem x) :
    Consistent { h with pmm := pmm, mem := m, held := phys :: h.held } v live := by
  have hnone := hc.use_of_not_held hfresh
  have hbase : Consistent { h with mem := m, pmm := pmm } v live := by
    grind [congr, metadata_page]
  exact { hbase with
    page := fun b u huse => mem_cons_of_mem _ (hc.page b u huse)
    held := by
      intro phys' hmem'
      rcases mem_cons.mp hmem' with rfl | hmem'
      · exact hused
      · exact hkeep phys' hmem'
    held_nodup := nodup_cons.mpr ⟨hfresh, hc.held_nodup⟩ }

end

/-! ## One slab at a time

Every slab operation changes one page of one class, the lists of that class,
and link words on those lists.  `withSlab` is that change of the view;
`reslab` re-establishes the invariant from the facts about the one slab. -/

/-- The view in which page `b` is a slab of class `i` with the given free
objects (or no slab any more), and the lists of class `i` are replaced. -/
def View.withSlab (v : View) (b : U64) (i : Nat) (new : Option (List Nat))
    (part full : List U64) : View where
  use := update v.use b (new.map (PageUse.slab i))
  part := update v.part i part
  full := update v.full i full

variable {new : Option (List Nat)} {part full : List U64}

theorem withSlab_use_of_ne (hne : b' ≠ b) : (v.withSlab b i new part full).use b' = v.use b' :=
  update_of_ne hne _ _

theorem withSlab_use_self (v : View) (b : U64) (i : Nat) (new : Option (List Nat))
    (part full : List U64) : (v.withSlab b i new part full).use b = new.map (PageUse.slab i) :=
  update_self _ _ _

theorem withSlab_slab_iff : (v.withSlab b i new part full).use b' = some (.slab j free) ↔
      if b' = b then i = j ∧ new = some free else v.use b' = some (.slab j free) := by
  grind [withSlab_use_self, Option.map_eq_some_iff, withSlab_use_of_ne]

/-- The page is free or a slab of class `i`. -/
def SlabOrNone (v : View) (b : U64) (i : Nat) : Prop :=
  v.use b = none ∨ ∃ free, v.use b = some (.slab i free)

theorem SlabOrNone.not_large (hold : SlabOrNone v b i) (b' : U64) : v.use b ≠ some (.large b') := by
  intro h
  rcases hold with h' | ⟨free, h'⟩ <;> rw [h] at h' <;> cases h'

theorem SlabOrNone.class_ne (hold : SlabOrNone v b i) (hij : i ≠ j) (free : List Nat) :
    v.use b ≠ some (.slab j free) := by
  intro h
  rcases hold with h' | ⟨free', h'⟩ <;> rw [h] at h' <;> cases h'
  exact hij rfl

/-- Memory changed on page `b` and on the lists of class `i` only. -/
def ChangedAt (v : View) (b : U64) (i : Nat) (m m' : Memory) : Prop :=
  ∀ x, pageOf x ≠ b → ¬ OnLists v i x → m' x = m x

section

variable (hc : Consistent h v live)
include hc

/-- A page of another use keeps its link word. -/
theorem Consistent.other_page
    (hch : ChangedAt v b i h.mem m') {u : PageUse} (huse : v.use b' = some u)
    (hne : b' ≠ b) (hclass : ∀ free, u ≠ .slab i free) : m' b' = h.mem b' := by
  refine hch b' ?_ ?_
  · rwa [pageOf_self (hc.aligned huse)]
  grind [onLists_use]

/-- The lists of another class keep their links. -/
theorem Consistent.other_list (hold : SlabOrNone v b i)
    (hch : ChangedAt v b i h.mem m') (hji : j ≠ i) (hx : OnLists v j x) : m' x = h.mem x := by
  obtain ⟨free, huse⟩ := hc.onLists_use hx
  refine hc.other_page hch huse ?_ ?_
  · rintro rfl
    exact hold.class_ne (Ne.symm hji) free huse
  · rintro f ⟨⟩
    exact hji rfl

/-- A slab on another page is untouched. -/
theorem Consistent.other_slab
    (hch : ChangedAt v b i h.mem m') (huse : v.use b' = some (.slab j free))
    (hne : b' ≠ b) : SlabOK m' b' j free := by
  obtain ⟨hj, hs⟩ := hc.slab b' j free huse
  have halign := hc.aligned huse
  have hsame : ∀ off, off ≠ 0 → off < 4096 → m' (cell b' off) = h.mem (cell b' off) := by
    intro off hpos hoff
    refine hch _ ?_ (hc.not_onLists halign hpos hoff)
    rwa [pageOf_cell halign hoff]
  refine hs.congr (fun off hlow hhigh => hsame off (by omega) (by omega)) (fun k hk => ?_)
  have hoff := objectOffset_bounds hj (hs.bound k hk)
  exact hsame _ (by omega) (objectOffset_lt hj (hs.bound k hk))

/-- A block on another page keeps its meaning. -/
theorem Consistent.other_block (hold : SlabOrNone v b i)
    (hch : ChangedAt v b i h.mem m') {blk : Block} (hblk : blk ∈ live)
    (hne : pageOf blk.ptr ≠ b) : BlockOK m' (v.withSlab b i new part full) blk := by
  rcases hc.block blk hblk with ⟨b', j, free, k, hs⟩ | ⟨b', hl⟩
  · left
    refine ⟨b', j, free, k, { hs with use := ?_ }⟩
    rw [withSlab_use_of_ne, hs.use]
    rintro rfl
    obtain ⟨hj, -⟩ := hc.slab b' j free hs.use
    rw [hs.ptr, pageOf_object (hc.aligned hs.use) hj hs.index] at hne
    exact hne rfl
  · right
    have hlarge : ∀ b'', v.use b'' = some (.large b') → b'' ≠ b := by
      rintro b'' huse rfl
      exact hold.not_large b' huse
    refine ⟨b', { hl with header := ?_, pages := ?_ }⟩
    · rw [← hl.header]
      exact hc.other_page hch hl.first (hlarge b' hl.first) (by rintro free ⟨⟩)
    · intro j hj
      rw [withSlab_use_of_ne (hlarge _ (hl.pages j hj)), hl.pages j hj]

/-- **The one-slab rule.** -/
theorem Consistent.reslab (hi : i ≤ 8) (hold : SlabOrNone v b i)
    (hch : ChangedAt v b i h.mem h'.mem) (hcaches : ∀ j, j ≠ i → h'.caches j = h.caches j)
    (hsize : (h'.caches i).objSize = (h.caches i).objSize)
    (hpart : Chain h'.mem 0#64 (h'.caches i).partialList part)
    (hfull : Chain h'.mem 0#64 (h'.caches i).fullList full)
    (hmemPart : ∀ x, x ∈ part ↔ if x = b then ∃ free, new = some free ∧ free ≠ [] else x ∈ v.part i)
    (hmemFull : ∀ x, x ∈ full ↔ if x = b then new = some [] else x ∈ v.full i)
    (hslab : ∀ free, new = some free → SlabOK h'.mem b i free)
    (hself : new ≠ none → virtToPhys b ∈ h'.held)
    (hother : ∀ phys ∈ h.held, phys ≠ virtToPhys b → phys ∈ h'.held)
    (hframes : ∀ phys ∈ h'.held, UsedFrame h'.pmm phys) (hnodup : h'.held.Nodup)
    (hblock : ∀ blk ∈ live', BlockOK h'.mem (v.withSlab b i new part full) blk)
    (hkeep : ∀ blk ∈ live, pageOf blk.ptr ≠ b → blk ∈ live')
    (hacc : ∀ free k, new = some free → k < classTotal i → k ∉ free →
      ∃ blk ∈ live', blk.ptr = object b i k) (hlive : (live'.map Block.ptr).Nodup) :
    Consistent h' (v.withSlab b i new part full) live' where
  objSize := by
    intro j hj
    by_cases hji : j = i
    · subst hji
      rw [hsize, hc.objSize j hj]
    · rw [hcaches j hji, hc.objSize j hj]
  partChain := by
    intro j hj
    by_cases hji : j = i
    · subst hji
      simpa [View.withSlab] using hpart
    · simp only [View.withSlab, update_of_ne hji, hcaches j hji]
      exact (hc.partChain j hj).congr (fun x hx => hc.other_list hold hch hji (.inl hx))
  fullChain := by
    intro j hj
    by_cases hji : j = i
    · subst hji
      simpa [View.withSlab] using hfull
    · simp only [View.withSlab, update_of_ne hji, hcaches j hji]
      exact (hc.fullChain j hj).congr (fun x hx => hc.other_list hold hch hji (.inr hx))
  mem_part := by
    intro j b'
    simp only [withSlab_slab_iff]
    by_cases hji : j = i
    · subst hji
      by_cases hb : b' = b
      · simp [View.withSlab, hmemPart, hb]
      · simp [View.withSlab, hmemPart, hb, hc.mem_part]
    · have hij : i ≠ j := Ne.symm hji
      by_cases hb : b' = b
      · subst hb
        simp [View.withSlab, update_of_ne hji, hij, hc.mem_part, hold.class_ne hij]
      · simp [View.withSlab, update_of_ne hji, hb, hc.mem_part]
  mem_full := by
    intro j b'
    rw [withSlab_slab_iff]
    by_cases hji : j = i
    · subst hji
      by_cases hb : b' = b
      · simp [View.withSlab, hmemFull, hb]
      · simp [View.withSlab, hmemFull, hb, hc.mem_full]
    · have hij : i ≠ j := Ne.symm hji
      by_cases hb : b' = b
      · subst hb
        simp [View.withSlab, update_of_ne hji, hij, hc.mem_full, hold.class_ne hij]
      · simp [View.withSlab, update_of_ne hji, hb, hc.mem_full]
  slab := by
    intro b' j free huse
    rw [withSlab_slab_iff] at huse
    split at huse
    · rename_i hb
      obtain ⟨rfl, hf⟩ := huse
      exact ⟨hi, hb ▸ hslab free hf⟩
    · rename_i hb
      exact ⟨(hc.slab b' j free huse).1, hc.other_slab hch huse hb⟩
  page := by
    intro b' u huse
    by_cases hb : b' = b
    · subst hb
      rw [withSlab_use_self] at huse
      refine hself ?_
      rintro rfl
      cases huse
    · rw [withSlab_use_of_ne hb] at huse
      refine hother _ (hc.page b' u huse) (fun heq => hb ?_)
      rw [← physToVirt_virtToPhys b', heq, physToVirt_virtToPhys]
  held := hframes
  held_nodup := hnodup
  block := hblock
  accounted := by
    intro b' j free k huse hk hnot
    rw [withSlab_slab_iff] at huse
    split at huse
    · rename_i hb
      obtain ⟨rfl, hf⟩ := huse
      rw [hb]
      exact hacc free k hf hk hnot
    · rename_i hb
      obtain ⟨blk, hblk, hptr⟩ := hc.accounted b' j free k huse hk hnot
      refine ⟨blk, hkeep blk hblk ?_, hptr⟩
      obtain ⟨hj, -⟩ := hc.slab b' j free huse
      rwa [hptr, pageOf_object (hc.aligned huse) hj hk]
  live_nodup := hlive

end

end Heap
