import NamelessOS.HeapInvariant

/-!
# The slab operations keep the heap consistent

Taking an object from a partial slab, creating a slab in a fresh frame,
putting an object back and releasing an empty slab, each by the one-slab rule.
-/

namespace Heap

open Pmm LinkedChain WordMemory WordBitmap List
open BitVec (ofNat toNat)
open Function (update update_of_ne update_self)

variable {h h' : HeapState} {v : View} {live : List Block} {b : U64} {i k : Nat}
  {free : List Nat}

/-! ## Small facts about one slab -/

theorem cell_ne (hb : PageAligned b) {off off' : Nat} (hoff : off < 4096) (hoff' : off' < 4096)
    (hne : off ≠ off') : cell b off ≠ cell b off' :=
  fun heq => hne ((cell_inj hb hb hoff hoff').mp heq).2

theorem link_ne (hb : PageAligned b) {off : Nat} (hpos : off ≠ 0) (hoff : off < 4096) :
    cell b off ≠ b := by
  have hne : cell b off ≠ cell b 0 := cell_ne hb hoff (by decide) hpos
  rwa [cell_zero] at hne

section

variable (hnd : free.Nodup) (hbound : ∀ k ∈ free, k < classTotal i)
include hnd hbound

theorem length_le_total : free.length ≤ classTotal i := by
  have hsub : free ⊆ range (classTotal i) :=
    fun k hk => mem_range.mpr (hbound k hk)
  simpa using (subperm_of_subset hnd hsub).length_le

/-- When as many objects are free as there are, all of them are. -/
theorem mem_of_length_total
    (hlen : free.length = classTotal i) (hk : k < classTotal i) : k ∈ free := by
  have hsub : free ⊆ range (classTotal i) :=
    fun k hk => mem_range.mpr (hbound k hk)
  have hperm := (subperm_of_subset hnd hsub).perm_of_length_le (by simp [hlen])
  exact hperm.mem_iff.mpr (mem_range.mpr hk)

end

/-- The counter is zero exactly for a full slab. -/
theorem count_eq_zero_iff (hi : i ≤ 8) (hlen : free.length ≤ classTotal i) :
    ofNat 32 free.length = 0#32 ↔ free = [] := by
  obtain ⟨-, -, -, -, htotal⟩ := class_bounds i hi
  grind [BitVec.toNat_ofNat]

/-- A list of distinct addresses is shorter than the walk's fuel. -/
theorem length_lt_walkFuel {l : List U64} (hnd : l.Nodup) : l.length < walkFuel := by
  have hmap : (l.map toNat).Nodup := hnd.map (fun x y hxy => BitVec.eq_of_toNat_eq hxy)
  have hsub : l.map toNat ⊆ range (2 ^ 64) := by
    intro n hn
    obtain ⟨x, -, rfl⟩ := mem_map.mp hn
    exact mem_range.mpr x.isLt
  have hlen := (subperm_of_subset hmap hsub).length_le
  rw [length_map, length_range] at hlen
  unfold walkFuel
  omega

/-- Live blocks start on pages in use. -/
theorem Consistent.block_page (hc : Consistent h v live) {blk : Block} (hblk : blk ∈ live) :
    ∃ u, v.use (pageOf blk.ptr) = some u := by
  rcases hc.block blk hblk with ⟨b', j, free', k, hs⟩ | ⟨b', hl⟩
  · obtain ⟨hj, -⟩ := hc.slab b' j free' hs.use
    exact ⟨_, by rw [hs.ptr, pageOf_object (hc.aligned hs.use) hj hs.index, hs.use]⟩
  · exact ⟨_, by rw [hl.ptr, pageOf_cell (hc.aligned hl.first) (by decide), hl.first]⟩

/-- The live blocks on a slab's page are its taken objects. -/
theorem Consistent.block_on_page (hc : Consistent h v live) {blk : Block} (hblk : blk ∈ live)
    (hpage : pageOf blk.ptr = b) (huse : v.use b = some (.slab i free)) :
    ∃ k, SlabBlock v blk b i free k := by
  rcases hc.block blk hblk with ⟨b', j, free', k, hs⟩ | ⟨b', hl⟩
  · obtain ⟨hj, -⟩ := hc.slab b' j free' hs.use
    rw [hs.ptr, pageOf_object (hc.aligned hs.use) hj hs.index] at hpage
    subst hpage
    have heq := hs.use.symm.trans huse
    cases heq
    exact ⟨k, hs⟩
  · have hfirst := hl.first
    rw [hl.ptr, pageOf_cell (hc.aligned hfirst) (by decide)] at hpage
    subst hpage
    rw [huse] at hfirst
    cases hfirst

/-! ## Taking an object -/

/-- `slab_alloc_from` takes the first free object and writes two words of the
descriptor. -/
theorem SlabOK.take (hs : SlabOK h.mem b i (k :: free)) (hb : PageAligned b) (hi8 : i ≤ 8) :
    ∃ m, slabAllocFrom h b = ({ h with mem := m }, object b i k) ∧ SlabOK m b i free ∧
      ∀ x, x ≠ cell b 8 → x ≠ cell b 16 → m x = h.mem x := by
  obtain ⟨hobj, -, hrest⟩ := hs.chain
  have h816 : cell b 8 ≠ cell b 16 := cell_ne hb (by decide) (by decide) (by decide)
  have h824 : cell b 24 ≠ cell b 8 := cell_ne hb (by decide) (by decide) (by decide)
  have h1624 : cell b 24 ≠ cell b 16 := cell_ne hb (by decide) (by decide) (by decide)
  refine ⟨_, by rw [slabAllocFrom, hobj]; rfl, ?_, ?_⟩
  · refine ⟨?_, ?_, ?_, ?_, ?_⟩
    · simp [write, h816.symm, hs.size]
    · have hcount := hs.count
      simp only [write, update_self, update_of_ne h816.symm, hi_withHi, hcount, length_cons]
      bv_omega
    · simp [write, h824, h1624, hs.total]
    · simp only [write, update_of_ne h816, update_self]
      grind [Chain.congr, bound, object_ne_header]
    · exact fun k' hk' => hs.bound k' (mem_cons_of_mem k hk')
  · intro x h8 h16
    simp [write, h8, h16]

/-- No cell of a large block changes. -/
def SparesLarge (v : View) (m m' : Memory) : Prop :=
  ∀ x b', v.use (pageOf x) = some (.large b') → m' x = m x

theorem ChangedAt.of_page {m m' : Memory} (hpage : ∀ x, pageOf x ≠ b → m' x = m x) :
    ChangedAt v b i m m' :=
  fun x hx _ => hpage x hx

theorem sparesLarge_of_page {m m' : Memory} (hpage : ∀ x, pageOf x ≠ b → m' x = m x)
    (hold : SlabOrNone v b i) : SparesLarge v m m' := by
  intro x b' huse
  refine hpage x ?_
  rintro rfl
  exact hold.not_large b' huse

/-- The other members of a list are other pages. -/
theorem Consistent.page_ne (hc : Consistent h v live) {x : U64} (hx : OnLists v i x)
    (hne : x ≠ b) : pageOf x ≠ b := by
  obtain ⟨free', huse⟩ := hc.onLists_use hx
  rwa [pageOf_self (hc.aligned huse)]

/-- The block that a request of size `n` receives. -/
def newBlock (ptr n : U64) : Block := ⟨ptr, n, n⟩

section TakeObject

variable {n : U64}

section

variable (hc : Consistent h v live) (huse : v.use b = some (.slab i (k :: free)))
include hc huse

/-- The new block and the old ones after object `k` has been taken. -/
theorem Consistent.blocks_after_take {m : Memory} {part full : List U64} (hsmall : n ≤ 2048#64) (hclass : sizeClass n = i)
    (hch : ChangedAt v b i h.mem m) : ∀ blk ∈ newBlock (object b i k) n :: live,
      BlockOK m (v.withSlab b i (some free) part full) blk := by
  obtain ⟨hi, hs⟩ := hc.slab b i _ huse
  have hnd := nodup_cons.mp hs.free_nodup
  have hself : (v.withSlab b i (some free) part full).use b = some (.slab i free) :=
    withSlab_use_self _ _ _ _ _ _
  intro blk hmem
  rcases mem_cons.mp hmem with rfl | hblk
  · refine .inl ⟨b, i, free, k, hself, hs.bound k mem_cons_self, hnd.1, rfl, hsmall, hclass, ?_⟩
    have hfit := (sizeClass_spec hsmall).2
    rwa [hclass] at hfit
  · by_cases hpage : pageOf blk.ptr = b
    · obtain ⟨k', hs'⟩ := hc.block_on_page hblk hpage huse
      exact .inl ⟨b, i, free, k', { hs' with
        use := hself, taken := fun hk' => hs'.taken (mem_cons_of_mem k hk') }⟩
    · exact hc.other_block (.inr ⟨_, huse⟩) hch hblk hpage

theorem Consistent.nodup_after_take :
    ((newBlock (object b i k) n :: live).map Block.ptr).Nodup := by
  obtain ⟨hi, hs⟩ := hc.slab b i _ huse
  have hbound := hs.bound k mem_cons_self
  refine nodup_cons.mpr ⟨?_, hc.live_nodup⟩
  intro hmem
  obtain ⟨blk, hblk, hptr⟩ := mem_map.mp hmem
  have hpage : pageOf blk.ptr = b := by
    rw [hptr]
    exact pageOf_object (hc.aligned huse) hi hbound
  obtain ⟨k', hs'⟩ := hc.block_on_page hblk hpage huse
  have hkk : k' = k := object_inj (hc.aligned huse) hi hs'.index hbound (hs'.ptr.symm.trans hptr)
  subst hkk
  exact hs'.taken mem_cons_self

theorem Consistent.accounted_after_take :
    ∀ free' k', some free = some free' → k' < classTotal i → k' ∉ free' →
      ∃ blk ∈ newBlock (object b i k) n :: live, blk.ptr = object b i k' := by
  rintro free' k' ⟨⟩ hk' hnot
  by_cases hkk : k' = k
  · subst hkk
    exact ⟨_, mem_cons_self, rfl⟩
  · obtain ⟨blk, hblk, hptr⟩ := hc.accounted b i _ k' huse hk' (by simp [hkk, hnot])
    exact ⟨blk, mem_cons_of_mem _ hblk, hptr⟩

end

/-- What an allocation of `n` bytes may do: fail and leave the live blocks
as they are, or add one block for the request. -/
def Serves (h : HeapState) (v : View) (live : List Block) (n : U64) (r : HeapState × U64) : Prop :=
  SparesLarge v h.mem r.1.mem ∧ ((r.2 = 0#64 ∧ ∃ v', Consistent r.1 v' live) ∨
      (r.2 ≠ 0#64 ∧ ∃ v', Consistent r.1 v' (newBlock r.2 n :: live)))

/-- The slab `b` at the front of the partial list, and the memory `m` right after its
first free object `k` was taken. -/
structure FrontTaken (h : HeapState) (v : View) (i : Nat) (b : U64) (rest : List U64) (k : Nat)
    (free : List Nat) (m : Memory) : Prop where
  use : v.use b = some (.slab i (k :: free))
  head : (h.caches i).partialList = b
  ne_null : b ≠ 0#64
  part : v.part i = b :: rest
  restChain : Chain h.mem 0#64 (h.mem b) rest
  take : slabAllocFrom h b = ({ h with mem := m }, object b i k)
  slab : SlabOK m b i free
  page : ∀ x, pageOf x ≠ b → m x = h.mem x
  link : m b = h.mem b

theorem Consistent.frontTaken (hc : Consistent h v live) (hi8 : i ≤ 8)
    (hne : (h.caches i).partialList ≠ 0#64) :
    ∃ b rest k free m, FrontTaken h v i b rest k free m := by
  obtain ⟨rest, hpart, hrest⟩ := (hc.partChain i (by omega)).uncons hne
  generalize hb : (h.caches i).partialList = b at hpart hrest hne
  obtain ⟨free₀, huse, hfree⟩ := (hc.mem_part i b).mp (hpart ▸ mem_cons_self)
  obtain ⟨k, free, rfl⟩ := exists_cons_of_ne_nil hfree
  obtain ⟨-, hs⟩ := hc.slab b i _ huse
  have halign := hc.aligned huse
  obtain ⟨m, htake, hs', hsame⟩ := hs.take halign hi8
  refine ⟨b, rest, k, free, m, huse, hb, hne, hpart, hrest, htake, hs', ?_, ?_⟩
  · intro x hx
    refine hsame x ?_ ?_ <;> rintro rfl <;> exact hx (pageOf_cell halign (by decide))
  · apply hsame
    · exact (link_ne halign (by decide) (by decide)).symm
    · exact (link_ne halign (by decide) (by decide)).symm

section FrontTaken

variable {rest : List U64} {m : Memory} (hc : Consistent h v live) (ht : FrontTaken h v i b rest k free m)
include hc ht

theorem FrontTaken.not_mem_rest (hi8 : i ≤ 8) : b ∉ rest := by
  have hnd := (hc.partChain i (by omega)).nodup
  rw [ht.part] at hnd
  exact (nodup_cons.mp hnd).1

theorem FrontTaken.not_mem_full : b ∉ v.full i := by
  intro hmem
  rw [hc.mem_full, ht.use] at hmem
  cases hmem

theorem FrontTaken.rest_page (hi8 : i ≤ 8) {x : U64} (hx : x ∈ rest) : pageOf x ≠ b := by
  refine hc.page_ne (.inl (ht.part ▸ mem_cons_of_mem b hx)) ?_
  rintro rfl
  exact ht.not_mem_rest hc hi8 hx

theorem FrontTaken.full_page {x : U64} (hx : x ∈ v.full i) : pageOf x ≠ b := by
  refine hc.page_ne (.inr hx) ?_
  rintro rfl
  exact ht.not_mem_full hc hx

theorem FrontTaken.object_ne_null (hi8 : i ≤ 8) : object b i k ≠ 0#64 := by
  obtain ⟨-, hs⟩ := hc.slab b i _ ht.use
  exact object_ne_zero (hc.aligned ht.use) hi8 (hs.bound k mem_cons_self)

end FrontTaken

section

variable (hc : Consistent h v live) (hi8 : i ≤ 8)
include hc hi8

/-- The last free object: the slab moves to the full list. -/
theorem Consistent.allocFromPartial_last {rest : List U64} {m : Memory} (hsmall : n ≤ 2048#64) (hclass : sizeClass n = i)
    (ht : FrontTaken h v i b rest k [] m) : Serves h v live n (allocFromPartial h i) := by
  have halign := hc.aligned ht.use
  have hold : SlabOrNone v b i := .inr ⟨_, ht.use⟩
  have hzero : hi (m (cell b 16)) = 0#32 := ht.slab.count
  have hrun : Heap.allocFromPartial h i =
      (setCache { h with mem := update m b (h.caches i).fullList } i
        { h.caches i with partialList := m b, fullList := b }, object b i k) := by
    simp only [Heap.allocFromPartial, ht.head, ht.take, hzero, if_true, write]
  have hpage' : ∀ x, pageOf x ≠ b → update m b (h.caches i).fullList x = h.mem x := by
    intro x hx
    rw [update_of_ne, ht.page x hx]
    rintro rfl
    exact hx (pageOf_self halign)
  rw [hrun]
  refine ⟨sparesLarge_of_page hpage' hold, .inr ⟨ht.object_ne_null hc hi8,
    v.withSlab b i (some []) rest (b :: v.full i), ?_⟩⟩
  have hch : ChangedAt v b i h.mem (update m b (h.caches i).fullList) := .of_page hpage'
  refine hc.reslab hi8 hold hch (fun j hj => update_of_ne hj _ _) ?_ ?_ ?_ ?_ ?_ ?_
    (fun _ => hc.page b _ ht.use) (fun phys hp _ => hp) hc.held hc.held_nodup
    (hc.blocks_after_take ht.use hsmall hclass hch)
    (fun blk hblk _ => mem_cons_of_mem _ hblk) (hc.accounted_after_take ht.use)
    (hc.nodup_after_take ht.use)
  · simp [setCache]
  · simp only [setCache, update_self, ht.link]
    exact ht.restChain.congr (fun x hx => hpage' x (ht.rest_page hc hi8 hx))
  · simp only [setCache, update_self]
    refine ⟨rfl, ht.ne_null, ?_⟩
    rw [update_self]
    exact (hc.fullChain i (by omega)).congr (fun x hx => hpage' x (ht.full_page hc hx))
  · intro x
    by_cases hx : x = b
    · subst hx
      simpa using ht.not_mem_rest hc hi8
    · simp [hx, ht.part]
  · intro x
    by_cases hx : x = b <;> simp [hx]
  · rintro free' ⟨⟩
    refine ht.slab.congr (fun off hlow hhigh => ?_) (fun k' hk' => by cases hk')
    exact update_of_ne (link_ne halign (by omega) (by omega)) _ _

/-- Free objects are left: the slab stays where it is. -/
theorem Consistent.allocFromPartial_more {rest : List U64} {m : Memory} (hsmall : n ≤ 2048#64) (hclass : sizeClass n = i)
    (ht : FrontTaken h v i b rest k free m) (hmore : free ≠ []) :
    Serves h v live n (allocFromPartial h i) := by
  have hold : SlabOrNone v b i := .inr ⟨_, ht.use⟩
  have hlen := length_le_total ht.slab.free_nodup ht.slab.bound
  have hpos : hi (m (cell b 16)) ≠ 0#32 := by
    rw [ht.slab.count, Ne, count_eq_zero_iff hi8 hlen]
    exact hmore
  have hrun : Heap.allocFromPartial h i = ({ h with mem := m }, object b i k) := by
    simp only [Heap.allocFromPartial, ht.head, ht.take, hpos, if_false]
  rw [hrun]
  refine ⟨sparesLarge_of_page ht.page hold, .inr ⟨ht.object_ne_null hc hi8,
    v.withSlab b i (some free) (v.part i) (v.full i), ?_⟩⟩
  have hch : ChangedAt v b i h.mem m := .of_page ht.page
  refine hc.reslab hi8 hold hch (fun j _ => rfl) rfl ?_ ?_ ?_ ?_ ?_
    (fun _ => hc.page b _ ht.use) (fun phys hp _ => hp) hc.held hc.held_nodup
    (hc.blocks_after_take ht.use hsmall hclass hch)
    (fun blk hblk _ => mem_cons_of_mem _ hblk) (hc.accounted_after_take ht.use)
    (hc.nodup_after_take ht.use)
  · dsimp only
    rw [ht.part, ht.head]
    refine ⟨rfl, ht.ne_null, ?_⟩
    rw [ht.link]
    exact ht.restChain.congr (fun x hx => ht.page x (ht.rest_page hc hi8 hx))
  · exact (hc.fullChain i (by omega)).congr (fun x hx => ht.page x (ht.full_page hc hx))
  · intro x
    by_cases hx : x = b
    · subst hx
      simp [ht.part, hmore]
    · simp [hx]
  · intro x
    by_cases hx : x = b
    · subst hx
      simpa [hmore] using ht.not_mem_full hc
    · simp [hx]
  · rintro free' ⟨⟩
    exact ht.slab

/-- **Allocation from a partial slab.** -/
theorem Consistent.allocFromPartial
    (hne : (h.caches i).partialList ≠ 0#64) (hsmall : n ≤ 2048#64) (hclass : sizeClass n = i) :
    Serves h v live n (allocFromPartial h i) := by
  grind [frontTaken, allocFromPartial_last, allocFromPartial_more]

end

end TakeObject

/-! ## Creating a slab -/

/-- A null-terminated array of links is a chain. -/
theorem chain_range {m : Memory} {addr : Nat → U64} {total : Nat} (hne : ∀ j < total, addr j ≠ 0#64)
    (hlink : ∀ j < total, m (addr j) = if j + 1 < total then addr (j + 1) else 0#64)
    (count j : Nat) (hsum : j + count = total) (hpos : 0 < count) :
    Chain m 0#64 (addr j) ((List.range' j count).map addr) := by
  induction count generalizing j with
  | zero => exact absurd hpos (Nat.lt_irrefl 0)
  | succ count ih =>
    rw [List.range'_succ, map_cons]
    refine ⟨rfl, hne j (by omega), ?_⟩
    rw [hlink j (by omega)]
    rcases Nat.eq_zero_or_pos count with rfl | hcount
    · rw [if_neg (by omega)]
      rfl
    · rw [if_pos (by omega)]
      exact ih (j + 1) (by omega) hcount

/-- The words of a fresh descriptor. -/
theorem slabDescriptor_words (m : Memory) {b : U64} (hb : PageAligned b) (objSize total : U32)
    (base : U64) : slabDescriptor m b objSize total base b = 0#64 ∧
      slabDescriptor m b objSize total base (cell b 8) = base ∧
      lo (slabDescriptor m b objSize total base (cell b 16)) = objSize ∧
      hi (slabDescriptor m b objSize total base (cell b 16)) = total ∧
      lo (slabDescriptor m b objSize total base (cell b 24)) = total ∧
      ∀ x, pageOf x ≠ b → slabDescriptor m b objSize total base x = m x := by
  have h08 : b ≠ cell b 8 := (link_ne hb (by decide) (by decide)).symm
  have h016 : cell b 16 ≠ b := link_ne hb (by decide) (by decide)
  have h024 : cell b 24 ≠ b := link_ne hb (by decide) (by decide)
  have h816 : cell b 16 ≠ cell b 8 := cell_ne hb (by decide) (by decide) (by decide)
  have h824 : cell b 24 ≠ cell b 8 := cell_ne hb (by decide) (by decide) (by decide)
  have h1624 : cell b 16 ≠ cell b 24 := cell_ne hb (by decide) (by decide) (by decide)
  refine ⟨?_, ?_, ?_, ?_, ?_, ?_⟩
  · simp [slabDescriptor, h08]
  · simp [slabDescriptor]
  · simp [slabDescriptor, h016, h816, h1624]
  · simp [slabDescriptor, h016, h816]
  · simp [slabDescriptor, h024, h824, h1624.symm]
  · intro x hx
    have hcell : ∀ off < 4096, x ≠ cell b off := by
      rintro off hoff rfl
      exact hx (pageOf_cell hb hoff)
    have hlink : x ≠ b := by
      rintro rfl
      exact hx (pageOf_self hb)
    simp [slabDescriptor, hcell, hlink, fillZero_page m hb, hx]

/-- The loop links every object to the next. -/
theorem buildFreelist_objects (m : Memory) {b : U64} (hb : PageAligned b) (hi8 : i ≤ 8) :
    let m' := buildFreelist m (b + ofNat 64 (classHdr i)) (ofNat 64 (classSize i))
      (classTotal i)
    (∀ j < classTotal i,
      m' (object b i j) = if j + 1 < classTotal i then object b i (j + 1) else 0#64) ∧
    (∀ x, (∀ j < classTotal i, x ≠ object b i j) → m' x = m x) := by
  unfold buildFreelist
  simp only [object_address]
  exact foldl_write m (fun j hj j' hj' heq => object_inj hb hi8 hj hj' heq)

/-- The page that `slab_create` writes: a descriptor and all objects free. -/
theorem slabCreate_page {f : Nat} (hi8 : i ≤ 8) {r : HeapState}
    (htake : takeFrame h = (r, ofNat 64 (f * frameSize))) (hmax : f < pmmMaxFrames)
    (hpos : f ≠ 0) (hslab : physToVirt (ofNat 64 (f * frameSize)) = b) :
    ∃ m, slabCreate h (ofNat 32 (classSize i)) = ({ r with mem := m }, b) ∧
      SlabOK m b i (range (classTotal i)) ∧ m b = 0#64 ∧
      ∀ x, pageOf x ≠ b → m x = r.mem x := by
  have hb : PageAligned b := hslab ▸ pageAligned_physToVirt hmax
  have hne := address_ne_zero hmax hpos
  obtain ⟨-, -, -, hsome, htotal⟩ := class_bounds i hi8
  have hwidth : ∀ i ≤ 8, (ofNat 32 (classSize i)).setWidth 64 = ofNat 64 (classSize i) := by decide
  obtain ⟨hzero, hfirst, hsize, hfree, htot, hout⟩ := slabDescriptor_words r.mem hb
    (ofNat 32 (classSize i)) (ofNat 32 (classTotal i))
    (b + ofNat 64 (classHdr i))
  obtain ⟨hin, hoff⟩ := buildFreelist_objects (slabDescriptor r.mem b
    (ofNat 32 (classSize i)) (ofNat 32 (classTotal i))
    (b + ofNat 64 (classHdr i))) hb hi8
  have hhdr := fun off (hoff' : off < 32) =>
    hoff (cell b off) (fun j hj => (object_ne_header hb hi8 hj hoff').symm)
  refine ⟨buildFreelist (slabDescriptor r.mem b (ofNat 32 (classSize i))
    (ofNat 32 (classTotal i)) (b + ofNat 64 (classHdr i)))
    (b + ofNat 64 (classHdr i)) (ofNat 64 (classSize i)) (classTotal i),
    ?_, ⟨?_, ?_, ?_, ?_, ?_⟩, ?_, ?_⟩
  · unfold slabCreate
    grind [slabTotal_class, slabHdrSize_class]
  · rw [hhdr 16 (by decide), hsize]
  · rw [hhdr 16 (by decide), hfree, length_range]
  · rw [hhdr 24 (by decide), htot]
  · have hbase : b + ofNat 64 (classHdr i) = object b i 0 := by
      simpa using object_address b i 0
    have hchain := chain_range (fun j hj => object_ne_zero hb hi8 hj) hin _ 0 (Nat.zero_add _) hsome
    rw [← hbase] at hchain
    rwa [hhdr 8 (by decide), hfirst, range_eq_range']
  · exact fun k hk => mem_range.mp hk
  · rw [← hzero]
    simpa using hhdr 0 (by decide)
  · intro x hx
    rw [hoff x, hout x hx]
    rintro j hj rfl
    exact hx (pageOf_object hb hi8 hj)

/-- A new slab joins an empty partial list. -/
theorem Consistent.addSlab (hc : Consistent h v live) (hi8 : i ≤ 8) (hne : b ≠ 0#64)
    (hnone : v.use b = none) (hempty : (h.caches i).partialList = 0#64)
    (hheld : virtToPhys b ∈ h.held) (hs : SlabOK h.mem b i (range (classTotal i)))
    (hlink : h.mem b = 0#64) : Consistent (setCache h i { h.caches i with partialList := b })
      (v.withSlab b i (some (range (classTotal i))) [b] (v.full i)) live := by
  obtain ⟨-, -, -, hsome, -⟩ := class_bounds i hi8
  have hold : SlabOrNone v b i := .inl hnone
  have hch : ChangedAt v b i h.mem (setCache h i { h.caches i with partialList := b }).mem :=
    fun _ _ _ => rfl
  have hnil : v.part i = [] := by
    have hchain := hc.partChain i (by omega)
    rw [hempty] at hchain
    exact hchain.eq_nil
  have hpage : ∀ blk ∈ live, pageOf blk.ptr ≠ b := by
    rintro blk hblk rfl
    obtain ⟨u, huse⟩ := hc.block_page hblk
    rw [hnone] at huse
    cases huse
  refine hc.reslab hi8 hold hch (fun j hj => update_of_ne hj _ _) ?_ ?_ ?_ ?_ ?_ ?_
    (fun _ => hheld) (fun phys hp _ => hp) hc.held hc.held_nodup
    (fun blk hblk => hc.other_block hold hch hblk (hpage blk hblk)) (fun blk hblk _ => hblk) ?_
    hc.live_nodup
  · simp [setCache]
  · simp only [setCache, update_self]
    exact ⟨rfl, hne, hlink⟩
  · simpa [setCache] using hc.fullChain i (by omega)
  · intro x
    by_cases hx : x = b
    · simpa [hx] using Nat.ne_of_gt hsome
    · simp [hx, hnil]
  · intro x
    by_cases hx : x = b
    · subst hx
      have hnot : x ∉ v.full i := by
        rw [hc.mem_full, hnone]
        rintro ⟨⟩
      simpa [hnot] using Nat.ne_of_gt hsome
    · simp [hx]
  · rintro free' ⟨⟩
    exact hs
  · rintro free' k' ⟨⟩ hk' hnot
    exact absurd (mem_range.mpr hk') hnot

/-- **`cache_alloc` serves a request of its class.** -/
theorem Consistent.cacheAlloc (hc : Consistent h v live) {n : U64} (hi8 : i ≤ 8)
    (hsmall : n ≤ 2048#64) (hclass : sizeClass n = i) : Serves h v live n (cacheAlloc h i) := by
  unfold Heap.cacheAlloc
  by_cases hempty : (h.caches i).partialList = 0#64
  · rw [if_pos hempty, hc.objSize i (by omega)]
    have hout := takeFrame_outcome h
    generalize htake : takeFrame h = r at hout
    cases hout with
    | none pmm hkeep =>
      have hrun : slabCreate h (ofNat 32 (classSize i)) = ({ h with pmm := pmm }, 0#64) := by
        rw [slabCreate, htake]
        rfl
      rw [hrun]
      refine ⟨fun _ _ _ => rfl, .inl ⟨rfl, v, ?_⟩⟩
      exact hc.congr (fun _ _ => rfl) (fun phys hp => hkeep phys (hc.held phys hp))
    | frame f hmax hpos hclear =>
      have hfresh := hc.not_held hmax hclear
      have hnone := hc.use_of_not_held hfresh
      generalize hvirt : physToVirt (ofNat 64 (f * frameSize)) = b at hnone
      obtain ⟨m, hrun, hs, hlink, hpage⟩ := slabCreate_page hi8 htake hmax hpos hvirt
      have hhold := hc.hold hfresh (m := m) ⟨f, hmax, rfl, by simp⟩
        (fun phys hp => (hc.held phys hp).set f (h.pmm.freeFrames - 1#64))
        (by rw [hvirt]; exact hpage)
      have hspare := sparesLarge_of_page (i := i) hpage (.inl hnone)
      rw [hrun]
      by_cases hzero : b = 0#64
      · rw [if_pos hzero]
        exact ⟨hspare, .inl ⟨rfl, v, hhold⟩⟩
      · rw [if_neg hzero]
        have hadd := hhold.addSlab hi8 hzero hnone hempty
          (by rw [← hvirt, virtToPhys_physToVirt]; exact mem_cons_self) hs hlink
        obtain ⟨hspare', hcase⟩ := hadd.allocFromPartial hi8 (by simpa [setCache] using hzero)
          hsmall hclass
        refine ⟨?_, hcase⟩
        intro x b' huse
        refine (hspare' x b' ?_).trans (hspare x b' huse)
        rw [withSlab_use_of_ne, huse]
        intro heq
        rw [heq, hnone] at huse
        cases huse
  · rw [if_neg hempty]
    exact hc.allocFromPartial hi8 hempty hsmall hclass

end Heap
