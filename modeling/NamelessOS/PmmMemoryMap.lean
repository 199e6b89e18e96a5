import NamelessOS.PmmAccounting

/-!
# Which frames the memory map frees

`pmm_init` applies the entries of the Multiboot2 memory map one after the
other, and only those that are available RAM: `mark_range_free` clears the
frames from the one its base lies in to the last one that ends inside it.  So
the end of a range is rounded inwards but its start outwards, and a range of
another type takes nothing back.

The two loops read a list of entries off the block (`mapEntries`), and a bit is
clear after `pmm_init` exactly if some entry of the list frees it and the last
phase does not take it back.  `frees_only_ram_iff` says when that is RAM.
-/

namespace Pmm

open WordBitmap ByteOrder Runs List

/-- `mb2_mmap_entry_t`. -/
structure MmapEntry where
  baseAddr : U64
  length : U64
  memType : U32
  deriving DecidableEq

def readEntry (mem : U64 → U8) (entryAddr : U64) : MmapEntry where
  baseAddr := readU64 mem entryAddr
  length := readU64 mem (entryAddr + 8#64)
  memType := readU32 mem (entryAddr + 16#64)

namespace MmapEntry

def Available (e : MmapEntry) : Prop := e.memType = mb2MmapAvailable

instance (e : MmapEntry) : Decidable e.Available := inferInstanceAs (Decidable (_ = _))

/-- The byte at physical address `a` belongs to the range. -/
def Covers (e : MmapEntry) (a : Nat) : Prop :=
  e.baseAddr.toNat ≤ a ∧ a < e.baseAddr.toNat + e.length.toNat

/-- What `pmm_init` does for the entry. -/
def apply (e : MmapEntry) (s : PmmState) : PmmState :=
  if e.memType = mb2MmapAvailable ∧ 0#64 < e.baseAddr then markRangeFree s e.baseAddr e.length else s

/-- The frames it clears. -/
def Frees (e : MmapEntry) (f : Nat) : Prop := (e.Available ∧ 0#64 < e.baseAddr) ∧
    f ∈ frameRange (e.baseAddr / 4096#64) ((e.baseAddr + e.length) / 4096#64)

end MmapEntry

/-! ## The entries of the block -/

/-- The entries the inner loop of `pmm_init` reads. -/
def tagEntries (mem : U64 → U8) (mmapEnd entrySize : U64) : Nat → U64 → Option (List MmapEntry)
  | 0, _ => none
  | fuel + 1, entryAddr =>
    if entryAddr < mmapEnd then
      (tagEntries mem mmapEnd entrySize fuel (entryAddr + entrySize)).map
        (readEntry mem entryAddr :: ·)
    else some []

/-- The entries the outer loop reads. -/
def mapEntries (mem : U64 → U8) (endAddr : U64) : Nat → U64 → Option (List MmapEntry)
  | 0, _ => none
  | fuel + 1, tagAddr =>
    if tagAddr < endAddr then
      let type := readU32 mem tagAddr
      let size := readU32 mem (tagAddr + 4#64)
      let next := tagAddr + ((size + 7#32).setWidth 64 &&& ~~~7#64)
      if type = mb2TagEnd then some []
      else if type = mb2TagMmap then
        (tagEntries mem (tagAddr + size.setWidth 64)
            ((readU32 mem (tagAddr + 8#64)).setWidth 64) fuel (tagAddr + 16#64)).bind
          (fun here => (mapEntries mem endAddr fuel next).map (here ++ ·))
      else mapEntries mem endAddr fuel next
    else some []

/-- The memory map `pmm_init` reads, if its loops end. -/
def bootEntries (mem : U64 → U8) (fuel : Nat) (s : PmmState) : List MmapEntry :=
  (mapEntries mem (s.mb2InfoPhys + (readU32 mem s.mb2InfoPhys).setWidth 64) fuel
    (s.mb2InfoPhys + 8#64)).getD []

/-- Applying a list of entries in order. -/
def applyEntries (es : List MmapEntry) (s : PmmState) : PmmState :=
  es.foldl (fun s e => e.apply s) s

theorem walkEntries_eq (mem : U64 → U8) (mmapEnd entrySize : U64) (fuel : Nat) (entryAddr : U64)
    (s : PmmState) : walkEntries mem mmapEnd entrySize fuel entryAddr s =
      (tagEntries mem mmapEnd entrySize fuel entryAddr).map (applyEntries · s) := by
  induction fuel generalizing entryAddr s with
  | zero => rfl
  | succ fuel ih =>
    rw [walkEntries, tagEntries]
    split
    · rw [ih, Option.map_map]
      rfl
    · rfl

theorem walkTags_eq (mem : U64 → U8) (endAddr : U64) (fuel : Nat) (tagAddr : U64) (s : PmmState) :
    walkTags mem endAddr fuel tagAddr s =
      (mapEntries mem endAddr fuel tagAddr).map (applyEntries · s) := by
  induction fuel generalizing tagAddr s with
  | zero => rfl
  | succ fuel ih =>
    rw [walkTags, mapEntries]
    dsimp only
    split
    · split
      · rfl
      · split
        · rw [walkEntries_eq]
          cases tagEntries mem _ _ fuel (tagAddr + 16#64) with
          | none => rfl
          | some here =>
            simp only [Option.map_some, Option.bind_some, ih, Option.map_map]
            congr 1
            funext rest
            exact (foldl_append ..).symm
        · exact ih _ s
    · rfl

/-! ## What they clear -/

theorem test_markFree (s : PmmState) (f g : Nat) :
    test (markFree s f).bitmap g = (!decide (g = f) && test s.bitmap g) := by
  unfold markFree
  by_cases hset : test s.bitmap f = true
  · rw [if_pos hset, test_clear]
  · rw [if_neg hset]
    by_cases hgf : g = f
    · subst hgf
      simpa using hset
    · simp [hgf]

theorem test_foldl_markFree (fs : List Nat) (s : PmmState) (g : Nat) :
    test (fs.foldl markFree s).bitmap g = (!decide (g ∈ fs) && test s.bitmap g) := by
  induction fs generalizing s with
  | nil => simp
  | cons f fs ih =>
    rw [foldl_cons, ih, test_markFree]
    by_cases hgf : g = f <;> simp [hgf]

theorem MmapEntry.test_apply (e : MmapEntry) (s : PmmState) (g : Nat) :
    test (e.apply s).bitmap g = false ↔ e.Frees g ∨ test s.bitmap g = false := by
  unfold MmapEntry.apply MmapEntry.Frees MmapEntry.Available
  split
  · rename_i havail
    rw [markRangeFree, test_foldl_markFree]
    by_cases hmem : g ∈ frameRange (e.baseAddr / 4096#64) ((e.baseAddr + e.length) / 4096#64) <;>
      simp [havail, hmem]
  · rename_i havail
    simp only [havail, false_and, false_or]

/-- Bits that were clear, and those some entry frees. -/
theorem test_applyEntries (es : List MmapEntry) (s : PmmState) (g : Nat) :
    test (applyEntries es s).bitmap g = false ↔
      (∃ e ∈ es, e.Frees g) ∨ test s.bitmap g = false := by
  induction es generalizing s with
  | nil => simp [applyEntries]
  | cons e es ih =>
    have hcons : applyEntries (e :: es) s = applyEntries es (e.apply s) := rfl
    rw [hcons, ih, e.test_apply]
    simp only [mem_cons, exists_eq_or_imp]
    rw [or_left_comm, or_assoc]

/-- The frames of the ranges the last phase takes back. -/
def TakenBack (img : KernelImage) (f : Nat) : Prop := f = 0 ∨ f ∈ frameRange (0x100000#64 / 4096#64)
      ((0x100000#64 + (img.kendPhys - 0x100000#64) + 4096#64 - 1#64) / 4096#64) ∨
    f ∈ frameRange ((img.bitmapAddr - kernelVma) / 4096#64)
      ((img.bitmapAddr - kernelVma + 8#64 * BitVec.ofNat 64 pmmBitmapWords + 4096#64 - 1#64) / 4096#64)

/-- What taking a range back leaves clear. -/
theorem test_markRangeUsed (s : PmmState) (base length : U64) (g : Nat) :
    test (markRangeUsed s base length).bitmap g = false ↔
      g ∉ frameRange (base / 4096#64) ((base + length + 4096#64 - 1#64) / 4096#64) ∧
        test s.bitmap g = false := by
  rw [markRangeUsed, test_foldl_markUsed, Bool.or_eq_false_iff, decide_eq_false_iff_not]

theorem test_reserveKernel (img : KernelImage) (s : PmmState) (g : Nat) :
    test (reserveKernel img s).bitmap g = false ↔ ¬ TakenBack img g ∧ test s.bitmap g = false := by
  have hfirst : test (decFree { s with bitmap := set s.bitmap 0 }).bitmap g = false ↔
      g ≠ 0 ∧ test s.bitmap g = false := by
    rw [decFree_bitmap, test_set, Bool.or_eq_false_iff, decide_eq_false_iff_not]
  rw [reserveKernel, test_markRangeUsed, test_markRangeUsed, hfirst, TakenBack, not_or, not_or]
  grind

/-- The bits that are clear when the loops over the memory map end. -/
theorem mappedFrames_clear_iff {mem : U64 → U8} {fuel : Nat} {s₀ walked : PmmState}
    (hwalk : mappedFrames mem fuel s₀ = some walked) (f : Nat) :
    test walked.bitmap f = false ↔ ∃ e ∈ bootEntries mem fuel s₀, e.Frees f := by
  rw [mappedFrames, walkTags_eq] at hwalk
  obtain ⟨es, hes, rfl⟩ := Option.map_eq_some_iff.mp hwalk
  have hboot : bootEntries mem fuel s₀ = es := by rw [bootEntries, hes, Option.getD_some]
  have hset : test (fun _ => ~~~0#64) f = true := by
    rw [test_eq_getLsbD, BitVec.getLsbD_not, BitVec.getLsbD_zero,
      decide_eq_true (Nat.mod_lt f (by decide))]
    rfl
  rw [test_applyEntries, hboot]
  simp only [hset, Bool.true_eq_false, or_false]

/-- **The bits `pmm_init` leaves clear.** -/
theorem pmmInit_clear_iff {img : KernelImage} {mem : U64 → U8} {fuel : Nat} {s₀ s : PmmState}
    (hinit : pmmInit img mem fuel s₀ = some (s, 0)) (f : Nat) :
    test s.bitmap f = false ↔ ¬ TakenBack img f ∧ ∃ e ∈ bootEntries mem fuel s₀, e.Frees f := by
  obtain ⟨walked, hwalk, rfl⟩ := pmmInit_accepted hinit
  rw [test_reserveKernel, mappedFrames_clear_iff hwalk]

/-! ## The count of free frames -/

/-- The map frees frame 0, or nothing that `pmm_init` does not take back. -/
def CountedMap (img : KernelImage) (es : List MmapEntry) : Prop :=
  (∃ e ∈ es, e.Frees 0) ∨ ∀ f < pmmMaxFrames, ∀ e ∈ es, e.Frees f → TakenBack img f

/-- No frame is left exactly if every frame that the map frees is taken back. -/
theorem exhausted_iff {img : KernelImage} {mem : U64 → U8} {fuel : Nat} {s₀ s : PmmState}
    (hinit : pmmInit img mem fuel s₀ = some (s, 0)) :
    Exhausted s ↔ ∀ f < pmmMaxFrames, ∀ e ∈ bootEntries mem fuel s₀, e.Frees f → TakenBack img f := by
  refine forall₂_congr fun f _ => ?_
  rw [← Bool.not_eq_false, pmmInit_clear_iff hinit]
  push Not
  exact ⟨fun h e he hfrees => by_contra fun htaken => h htaken e he hfrees,
    fun h htaken e he hfrees => htaken (h e he hfrees)⟩

/-- **Free-frame accounting.**  After an accepted memory map the count is right
exactly if the map frees frame 0, or nothing that is not taken back; it is then
right after any run of allocations and frees, and no call of the run makes it
wrap. -/
theorem free_frames_counted {img : KernelImage} {mem : U64 → U8} {fuel : Nat} {s₀ s : PmmState}
    (hinit : pmmInit img mem fuel s₀ = some (s, 0)) :
    (Balanced s ↔ CountedMap img (bootEntries mem fuel s₀)) ∧
      (CountedMap img (bootEntries mem fuel s₀) → ∀ calls,
        Balanced (run pmmStep s calls) ∧ StepsMeet pmmStep CountFollows s calls) := by
  have hboot : Balanced s ↔ CountedMap img (bootEntries mem fuel s₀) := by
    rw [CountedMap, ← exhausted_iff hinit]
    obtain ⟨walked, hwalk, rfl⟩ := pmmInit_accepted hinit
    rw [reserveKernel_balanced img (mappedFrames_balanced hwalk), mappedFrames_clear_iff hwalk]
  refine ⟨hboot, fun hcond calls => ?_⟩
  have hok : StepsMeet pmmStep (fun _ _ => True) s calls :=
    stepsMeet_of_forall (fun _ _ => trivial) _
  constructor
  · exact run_invariant Balanced (fun _ call h _ => (h.step call).1) (hboot.mpr hcond) hok
  · exact stepsMeet_of_invariant Balanced (fun _ call h _ => (h.step call).1)
      (fun _ call h _ => (h.step call).2) (hboot.mpr hcond) hok

/-- An information block at `0x9000` whose one region, of two frames, begins
inside frame 0. -/
def lowRegionMap (a : U64) : U8 := [56, 0, 0, 0, 0, 0, 0, 0,
    6, 0, 0, 0, 40, 0, 0, 0, 24, 0, 0, 0, 0, 0, 0, 0,
    0, 8, 0, 0, 0, 0, 0, 0, 0, 0x20, 0, 0, 0, 0, 0, 0, 1, 0, 0, 0, 0, 0, 0, 0,
    0, 0, 0, 0, 8, 0, 0, 0].getD (a - 0x9000#64).toNat 0

def unbooted : PmmState :=
  { bitmap := fun _ => 0#64, totalFrames := 0#64, freeFrames := 0#64, mb2InfoPhys := 0x9000#64 }

def lowRegionBoot : PmmState := ((pmmInit smallImage lowRegionMap 4 unbooted).getD default).1

theorem lowRegionBoot_accepted :
    pmmInit smallImage lowRegionMap 4 unbooted = some (lowRegionBoot, 0) :=
  accepted_of_returns_zero (by decide +kernel)

theorem lowRegion_frees_frame_zero :
    ∃ e ∈ bootEntries lowRegionMap 4 unbooted, e.Frees 0 := by
  have hentries : bootEntries lowRegionMap 4 unbooted =
      [⟨0x800#64, 0x2000#64, 1#32⟩] := by decide +kernel
  refine ⟨⟨0x800#64, 0x2000#64, 1#32⟩, by rw [hentries]; exact mem_singleton_self _,
    ⟨rfl, by decide⟩, ?_⟩
  show 0 ∈ frameRange 0#64 2#64
  decide

theorem free_frames_counted_lowRegion : lowRegionBoot.freeFrames = 1#64 ∧
      Balanced (run pmmStep lowRegionBoot [.alloc, .alloc, .free 0x1000#64]) :=
  ⟨by decide +kernel,
    ((free_frames_counted lowRegionBoot_accepted).2 (.inl lowRegion_frees_frame_zero) _).1⟩

/-- Two frames are free after boot and the count is 1; once both are allocated
it has wrapped. -/
theorem free_frames_underflow : oneRegionInit = some (oneRegionBoot, 0) ∧ ¬ Balanced oneRegionBoot ∧
      (run pmmStep oneRegionBoot [.alloc, .alloc]).freeFrames = BitVec.allOnes 64 := by
  refine ⟨oneRegionInit_accepted, ?_, by decide +kernel⟩
  have hpair : {512, 513} ⊆ clearBits oneRegionBoot.bitmap pmmMaxFrames := by
    intro f hf
    have hclear : test oneRegionBoot.bitmap 512 = false ∧
        test oneRegionBoot.bitmap 513 = false := by decide +kernel
    rcases Finset.mem_insert.mp hf with rfl | hf
    · exact mem_clearBits.mpr ⟨by decide, hclear.1⟩
    · rw [Finset.mem_singleton.mp hf]
      exact mem_clearBits.mpr ⟨by decide, hclear.2⟩
  have hcard := Finset.card_le_card hpair
  have hcount : oneRegionBoot.freeFrames.toNat = 1 := by decide +kernel
  unfold Balanced clearFrames
  rw [hcount]
  rw [Finset.card_pair (by decide)] at hcard
  omega

/-! ## RAM -/

/-- The bytes of frame `f`. -/
def InFrame (f a : Nat) : Prop := f * frameSize ≤ a ∧ a < (f + 1) * frameSize

/-- The frame lies in available RAM and meets no range of another type, nor
frame 0, nor the image. -/
structure RealRam (img : KernelImage) (es : List MmapEntry) (f : Nat) : Prop where
  inside : ∀ a, InFrame f a → ∃ e ∈ es, e.Available ∧ e.Covers a
  apart : ∀ e ∈ es, ¬ e.Available → ∀ a, InFrame f a → ¬ e.Covers a
  notNull : f ≠ 0
  notImage : ∀ a, InFrame f a → ¬ (0x100000 ≤ a ∧ a < img.kendPhys.toNat)

/-- What the map must satisfy: the part of a freed frame that lies below the
range that frees it is available as well, and no range of another type meets
the frame. -/
def Tidy (img : KernelImage) (es : List MmapEntry) : Prop :=
  ∀ e ∈ es, ∀ f, e.Frees f → ¬ TakenBack img f →
    (∀ a, InFrame f a → a < e.baseAddr.toNat → ∃ e' ∈ es, e'.Available ∧ e'.Covers a) ∧
    ∀ e' ∈ es, ¬ e'.Available → ∀ a, InFrame f a → ¬ e'.Covers a

/-- A freed frame ends inside the range, also if the sum of base and length
wraps: then nothing is freed. -/
theorem MmapEntry.Frees.covers {e : MmapEntry} {f a : Nat} (h : e.Frees f) (ha : InFrame f a)
    (hbase : e.baseAddr.toNat ≤ a) : e.Covers a := by
  obtain ⟨-, hmem⟩ := h
  obtain ⟨hlow, hhigh, -⟩ := mem_frameRange.mp hmem
  rw [BitVec.toNat_udiv] at hlow hhigh
  have hpage : (4096#64 : U64).toNat = 4096 := rfl
  rw [hpage] at hlow hhigh
  unfold InFrame frameSize at ha
  refine ⟨hbase, ?_⟩
  rw [BitVec.toNat_add] at hhigh
  omega

/-- The last phase takes back every frame that meets the image. -/
theorem takenBack_of_image {img : KernelImage} {f a : Nat} (hmax : f < pmmMaxFrames)
    (ha : InFrame f a) (himage : 0x100000 ≤ a ∧ a < img.kendPhys.toNat) : TakenBack img f := by
  unfold InFrame frameSize at ha
  refine .inr (.inl (image_frames_marked img hmax ?_ ?_)) <;> unfold frameSize <;> omega

/-- **When `pmm_init` frees only RAM.**  For every accepted memory map, with any
number of entries in any order: every frame left clear is RAM exactly if the map
is tidy. -/
theorem frees_only_ram_iff {img : KernelImage} {mem : U64 → U8} {fuel : Nat} {s₀ s : PmmState}
    (hinit : pmmInit img mem fuel s₀ = some (s, 0)) :
    (∀ f < pmmMaxFrames, test s.bitmap f = false → RealRam img (bootEntries mem fuel s₀) f) ↔
      Tidy img (bootEntries mem fuel s₀) := by
  constructor
  · intro hram e he f hfrees htaken
    obtain ⟨-, -, hmax⟩ := mem_frameRange.mp hfrees.2
    grind [pmmInit_clear_iff, RealRam.inside, RealRam.apart]
  · intro htidy f hmax hclear
    obtain ⟨htaken, e, he, hfrees⟩ := (pmmInit_clear_iff hinit f).mp hclear
    obtain ⟨hbelow, hapart⟩ := htidy e he f hfrees htaken
    refine ⟨fun a ha => ?_, hapart, fun h0 => htaken (.inl h0), fun a ha himage => ?_⟩
    · rcases Nat.lt_or_ge a e.baseAddr.toNat with hlow | hhigh
      · exact hbelow a ha hlow
      · exact ⟨e, he, hfrees.1.1, hfrees.covers ha hhigh⟩
    · exact htaken (takenBack_of_image hmax ha himage)

/-- One region that starts on a frame boundary. -/
theorem frees_only_ram_oneRegion : test oneRegionBoot.bitmap 513 = false ∧
      RealRam smallImage (bootEntries oneRegionMap 4 unbooted) 513 := by
  have hclear : test oneRegionBoot.bitmap 513 = false := by decide +kernel
  refine ⟨hclear, (frees_only_ram_iff oneRegionInit_accepted).mpr ?_ 513 (by decide) hclear⟩
  intro e he f hfrees _
  change e ∈ bootEntries oneRegionMap 4 unbooted at he
  obtain rfl := mem_singleton.mp he
  constructor
  · intro a ha hbelow
    obtain ⟨hlow, -, -⟩ := mem_frameRange.mp hfrees.2
    change 512 ≤ f at hlow
    change a < 0x200000 at hbelow
    unfold InFrame frameSize at ha
    omega
  · intro e' he' hother
    change e' ∈ bootEntries oneRegionMap 4 unbooted at he'
    rw [mem_singleton.mp he'] at hother
    exact absurd rfl hother

/-- An information block at `0x9000`: half a frame that is reserved, and
available memory from the middle of that frame on. -/
def halfFrameMap (a : U64) : U8 := [80, 0, 0, 0, 0, 0, 0, 0,
    6, 0, 0, 0, 64, 0, 0, 0, 24, 0, 0, 0, 0, 0, 0, 0,
    0, 0, 0x20, 0, 0, 0, 0, 0, 0, 8, 0, 0, 0, 0, 0, 0, 2, 0, 0, 0, 0, 0, 0, 0,
    0, 8, 0x20, 0, 0, 0, 0, 0, 0, 0x18, 0, 0, 0, 0, 0, 0, 1, 0, 0, 0, 0, 0, 0, 0,
    0, 0, 0, 0, 8, 0, 0, 0].getD (a - 0x9000#64).toNat 0

def halfFrameBoot : PmmState := ((pmmInit smallImage halfFrameMap 5 unbooted).getD default).1

/-- The frame that is half reserved is free after boot. -/
theorem half_reserved_frame_freed :
    pmmInit smallImage halfFrameMap 5 unbooted = some (halfFrameBoot, 0) ∧
      test halfFrameBoot.bitmap 512 = false ∧
      ¬ RealRam smallImage (bootEntries halfFrameMap 5 unbooted) 512 := by
  have hreserved : (⟨0x200000#64, 0x800#64, 2#32⟩ : MmapEntry) ∈
      bootEntries halfFrameMap 5 unbooted := by decide +kernel
  refine ⟨accepted_of_returns_zero (by decide +kernel), by decide +kernel, fun hram => ?_⟩
  refine hram.apart _ hreserved (by decide) 0x200000 ?_ ?_
  · unfold InFrame
    decide
  · unfold MmapEntry.Covers
    decide

end Pmm
