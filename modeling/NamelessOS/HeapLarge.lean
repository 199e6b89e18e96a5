import NamelessOS.HeapRelease

/-!
# Large allocations

`large_alloc` takes its frames one by one and hands out the first one's
address as if they were consecutive.  They are when no used frame lies among
the lowest clear bits of the bitmap (`Unbroken`); then a large block owns the
pages it spans and the heap stays consistent.
-/

namespace Heap

open Pmm LinkedChain WordMemory WordBitmap List
open BitVec (ofNat)

variable {h h' : HeapState} {v : View} {live : List Block} {b : U64} {i k : Nat}
  {free : List Nat}

/-- From the lowest clear bit on, the next `n` bits are clear as far as there
are clear bits at all. -/
def Unbroken (pmm : PmmState) (n : Nat) : Prop :=
  ∀ f, (∀ g < f, test pmm.bitmap g = true) → test pmm.bitmap f = false →
    ∀ j < n, (∃ g, f + j ≤ g ∧ g < pmmMaxFrames ∧ test pmm.bitmap g = false) →
      test pmm.bitmap (f + j) = false

/-- The heap when frame `f` has been taken. -/
def HeapState.tookFrame (h : HeapState) (f : Nat) : HeapState :=
  { h with
    pmm := { h.pmm with bitmap := set h.pmm.bitmap f, freeFrames := h.pmm.freeFrames - 1#64 }
    held := ofNat 64 (f * frameSize) :: h.held }

/-- The loop of `large_alloc` gives nothing back. -/
theorem takeFrames_keeps (h : HeapState) (n : Nat) :
    (∀ phys, UsedFrame h.pmm phys → UsedFrame (takeFrames h n).1.pmm phys) ∧
      (∀ phys ∈ h.held, phys ∈ (takeFrames h n).1.held) ∧ (takeFrames h n).1.mem = h.mem := by
  induction n generalizing h with
  | zero => exact ⟨fun _ hu => hu, fun _ hp => hp, rfl⟩
  | succ n ih =>
    have hout := takeFrame_outcome h
    rw [Heap.takeFrames]
    generalize takeFrame h = r at hout
    cases hout with
    | none pmm hkeep => exact ⟨hkeep, fun _ hp => hp, rfl⟩
    | frame f hmax hpos hclear hlow =>
      grind [UsedFrame.set]

variable {f : Nat}

/-- The lowest clear frame is `base` if there is a run of clear frames from `base` on. -/
theorem eq_base_of_lowest {pmm : PmmState} {base : Nat} (hmax : f < pmmMaxFrames)
    (hclear : test pmm.bitmap f = false) (hlowf : ∀ g < f, test pmm.bitmap g = true)
    (hlow : ∀ g < base, test pmm.bitmap g = true)
    (hrun : (∃ g, base ≤ g ∧ g < pmmMaxFrames ∧ test pmm.bitmap g = false) →
      test pmm.bitmap base = false) : f = base := by
  grind

/-- What is left of such a run when its first frame is taken. -/
theorem run_after_first {bm : Words} {n : Nat}
    (hrun : ∀ j < n + 1, (∃ g, f + j ≤ g ∧ g < pmmMaxFrames ∧ test bm g = false) →
      test bm (f + j) = false) :
    ∀ j < n, (∃ g, f + 1 + j ≤ g ∧ g < pmmMaxFrames ∧ test (set bm f) g = false) →
      test (set bm f) (f + 1 + j) = false := by
  rintro j hj ⟨g, hgj, hgmax, hg⟩
  have hgf : g ≠ f := by omega
  have hclear := hrun (j + 1) (by omega) ⟨g, by omega, hgmax, by simpa [hgf] using hg⟩
  have hne : f + 1 + j ≠ f := by omega
  rw [test_set, decide_eq_false hne, Bool.false_or]
  rwa [Nat.add_assoc, Nat.add_comm 1 j]

theorem low_after_first {bm : Words} (hlow : ∀ g < f, test bm g = true) :
    ∀ g < f + 1, test (set bm f) g = true := by
  intro g hg
  by_cases hgf : g = f
  · simp [hgf]
  · simp [hlow g (by omega)]

/-- The loop of `large_alloc` takes the frames from `base` on, in order. -/
theorem takeFrames_run (h : HeapState) (n base : Nat)
    (hlow : ∀ g < base, test h.pmm.bitmap g = true)
    (hrun : ∀ j < n, (∃ g, base + j ≤ g ∧ g < pmmMaxFrames ∧ test h.pmm.bitmap g = false) →
      test h.pmm.bitmap (base + j) = false) (hok : (takeFrames h n).2 = true) :
    ∀ j < n, base + j < pmmMaxFrames ∧ test h.pmm.bitmap (base + j) = false ∧
      UsedFrame (takeFrames h n).1.pmm (ofNat 64 ((base + j) * frameSize)) ∧
      ofNat 64 ((base + j) * frameSize) ∈ (takeFrames h n).1.held := by
  induction n generalizing h base with
  | zero =>
    intro j hj
    exact absurd hj (Nat.not_lt_zero j)
  | succ n ih =>
    have hout := takeFrame_outcome h
    rw [Heap.takeFrames] at hok ⊢
    generalize takeFrame h = r at hout hok
    cases hout with
    | none pmm hkeep => cases hok
    | frame f hmax hpos hclear hlowf =>
      obtain rfl : f = base := eq_base_of_lowest hmax hclear hlowf hlow (hrun 0 (Nat.succ_pos n))
      rw [if_neg (address_ne_zero hmax hpos)] at hok ⊢
      change (takeFrames (h.tookFrame f) n).2 = true at hok
      change ∀ j < n + 1, _ ∧ _ ∧ UsedFrame (takeFrames (h.tookFrame f) n).1.pmm _ ∧
        _ ∈ (takeFrames (h.tookFrame f) n).1.held
      obtain ⟨hused, hheld, -⟩ := takeFrames_keeps (h.tookFrame f) n
      intro j hj
      rcases j with _ | j
      · refine ⟨hmax, hclear, hused _ ⟨f, hmax, rfl, ?_⟩, hheld _ mem_cons_self⟩
        simp [HeapState.tookFrame]
      · obtain ⟨hmax', hclear', hused', hmem'⟩ :=
          ih (h.tookFrame f) (f + 1) (low_after_first hlow) (run_after_first hrun) hok j (by omega)
        have hne : f + 1 + j ≠ f := by omega
        rw [HeapState.tookFrame, test_set, decide_eq_false hne, Bool.false_or] at hclear'
        have hshift : f + (j + 1) = f + 1 + j := by omega
        rw [hshift]
        exact ⟨hmax', hclear', hused', hmem'⟩

/-- Taking frames leaves the heap consistent. -/
theorem Consistent.takeFrames (hc : Consistent h v live) (n : Nat) :
    Consistent (takeFrames h n).1 v live := by
  induction n generalizing h with
  | zero => exact hc
  | succ n ih =>
    have hout := takeFrame_outcome h
    rw [Heap.takeFrames]
    generalize takeFrame h = r at hout
    cases hout with
    | none pmm hkeep => exact hc.congr (fun _ _ => rfl) (fun phys hp => hkeep phys (hc.held phys hp))
    | frame f hmax hpos hclear hlowf =>
      rw [if_neg (address_ne_zero hmax hpos)]
      exact ih (hc.hold (hc.not_held hmax hclear) (m := h.mem) ⟨f, hmax, rfl, by simp⟩
        (fun phys hp => (hc.held phys hp).set f (h.pmm.freeFrames - 1#64)) (fun _ _ => rfl))

/-! ## What `large_alloc` can do -/

/-- How `large_alloc` can end: without a block, with the header of no page at all, or with
the block that begins at the lowest clear frame. -/
inductive LargeOutcome (h : HeapState) (size : U64) : HeapState × U64 → Prop
  | none (pmm : PmmState) (hkeep : ∀ phys, UsedFrame h.pmm phys → UsedFrame pmm phys) :
      LargeOutcome h size ({ h with pmm := pmm }, 0#64)
  | short (f n : Nat) (hmax : f < pmmMaxFrames) (hpos : f ≠ 0)
      (hclear : test h.pmm.bitmap f = false) :
      LargeOutcome h size ((takeFrames (h.tookFrame f) n).1, 0#64)
  | empty (hpages : numPages size = 0#64) :
      LargeOutcome h size (write h (physToVirt 0#64) 0#64, physToVirt 0#64 + 8#64)
  | block (f : Nat) (hpages : numPages size ≠ 0#64) (hmax : f < pmmMaxFrames) (hpos : f ≠ 0)
      (hclear : test h.pmm.bitmap f = false) (hlow : ∀ g < f, test h.pmm.bitmap g = true)
      (hok : (takeFrames (h.tookFrame f) ((numPages size).toNat - 1)).2 = true) :
      LargeOutcome h size
        (write (takeFrames (h.tookFrame f) ((numPages size).toNat - 1)).1
            (physToVirt (ofNat 64 (f * frameSize))) (numPages size),
          physToVirt (ofNat 64 (f * frameSize)) + 8#64)

theorem largeAlloc_outcome (h : HeapState) (size : U64) :
    LargeOutcome h size (largeAlloc h size) := by
  unfold largeAlloc
  dsimp only
  by_cases hpages : numPages size = 0#64
  · rw [if_pos hpages, hpages]
    exact .empty hpages
  · rw [if_neg hpages]
    have hout := takeFrame_outcome h
    generalize takeFrame h = r at hout
    cases hout with
    | none pmm hkeep => exact .none pmm hkeep
    | frame f hmax hpos hclear hlow =>
      rw [if_neg (address_ne_zero hmax hpos)]
      split
      · rename_i hok
        exact .block f hpages hmax hpos hclear hlow hok
      · exact .short f _ hmax hpos hclear

/-- The first frame of the loop is the lowest clear one. -/
theorem takeFrames_succ_of_lowest {h : HeapState} (hmax : f < pmmMaxFrames) (hpos : f ≠ 0)
    (hclear : test h.pmm.bitmap f = false) (hlow : ∀ g < f, test h.pmm.bitmap g = true) (n : Nat) :
    takeFrames h (n + 1) = takeFrames (h.tookFrame f) n := by
  have hout := pmmAllocFrame_outcome h.pmm
  rw [takeFrames, takeFrame]
  generalize pmmAllocFrame h.pmm = r at hout
  cases hout with
  | full hfull =>
    rw [hfull f hmax] at hclear
    cases hclear
  | frame g hgmax hgclear hglow =>
    obtain rfl : g = f := eq_base_of_lowest hgmax hgclear hglow hlow (fun _ => hclear)
    rw [if_neg (address_ne_zero hmax hpos), if_neg (address_ne_zero hmax hpos)]
    rfl

/-- The frames of a block that begins an unbroken run of clear frames. -/
theorem block_frames {h : HeapState} {n : Nat} (hrun : Unbroken h.pmm n) (hmax : f < pmmMaxFrames)
    (hpos : f ≠ 0) (hclear : test h.pmm.bitmap f = false) (hlow : ∀ g < f, test h.pmm.bitmap g = true)
    (hok : (takeFrames (h.tookFrame f) (n - 1)).2 = true) :
    ∀ j < n, f + j < pmmMaxFrames ∧ test h.pmm.bitmap (f + j) = false ∧
      UsedFrame (takeFrames (h.tookFrame f) (n - 1)).1.pmm (ofNat 64 ((f + j) * frameSize)) ∧
      ofNat 64 ((f + j) * frameSize) ∈ (takeFrames (h.tookFrame f) (n - 1)).1.held := by
  cases n with
  | zero =>
    intro j hj
    exact absurd hj (Nat.not_lt_zero j)
  | succ n =>
    rw [Nat.add_sub_cancel, ← takeFrames_succ_of_lowest hmax hpos hclear hlow n] at hok ⊢
    exact takeFrames_run h (n + 1) f hlow (hrun f hlow hclear) hok

/-! ## The new block -/

/-- The view in which the `n` pages from `b` on belong to the large block at
`b`. -/
def View.withLarge (v : View) (b : U64) (n : Nat) : View :=
  { v with use := fun x =>
      if ∃ j < n, x = b + ofNat 64 (j * 4096) then some (.large b) else v.use x }

variable {n : Nat}

theorem withLarge_use_new {j : Nat} (hj : j < n) :
    (v.withLarge b n).use (b + ofNat 64 (j * 4096)) = some (.large b) :=
  if_pos ⟨j, hj, rfl⟩

section

variable (hnone : ∀ j < n, v.use (b + ofNat 64 (j * 4096)) = none)
include hnone

/-- Pages in use keep their use. -/
theorem withLarge_use_old {x : U64}
    {u : PageUse} (huse : v.use x = some u) : (v.withLarge b n).use x = some u := by
  have hnot : ¬ ∃ j < n, x = b + ofNat 64 (j * 4096) := by
    rintro ⟨j, hj, rfl⟩
    rw [hnone j hj] at huse
    cases huse
  exact (if_neg hnot).trans huse

theorem withLarge_slab_iff
    {x : U64} : (v.withLarge b n).use x = some (.slab i free) ↔ v.use x = some (.slab i free) := by
  refine ⟨fun huse => ?_, withLarge_use_old hnone⟩
  by_cases hnew : ∃ j < n, x = b + ofNat 64 (j * 4096)
  · obtain ⟨j, hj, rfl⟩ := hnew
    rw [withLarge_use_new hj] at huse
    cases huse
  · exact (if_neg hnew).symm.trans huse

end

/-- A large block is added on fresh pages. -/
theorem Consistent.addLarge (hc : Consistent h v live) {size : U64} (hb : PageAligned b)
    (hlarge : 4096#64 < size) (hnowrap : size.toNat + 4103 < 2 ^ 64)
    (hheader : h.mem b = numPages size)
    (hnone : ∀ j < (numPages size).toNat, v.use (b + ofNat 64 (j * 4096)) = none)
    (hheld : ∀ j < (numPages size).toNat, virtToPhys (b + ofNat 64 (j * 4096)) ∈ h.held) :
    Consistent h (v.withLarge b (numPages size).toNat) (newBlock (cell b 8) size :: live) := by
  have hpos := numPages_pos hnowrap hlarge
  have hfirst : v.use b = none := by simpa using hnone 0 (by omega)
  have hnew : LargeBlock h.mem (v.withLarge b (numPages size).toNat)
      (newBlock (cell b 8) size) b := by
    refine ⟨rfl, hlarge, hnowrap, hheader, ?_, fun j hj => withLarge_use_new hj⟩
    show size.toNat ≤ (numPages size).toNat * 4096 - 8
    rw [toNat_numPages hnowrap]
    omega
  exact { hc with
    mem_part := by
      intro i b'
      simp only [withLarge_slab_iff hnone]
      exact hc.mem_part i b'
    mem_full := by
      intro i b'
      rw [withLarge_slab_iff hnone]
      exact hc.mem_full i b'
    slab := fun b' i free huse => hc.slab b' i free ((withLarge_slab_iff hnone).mp huse)
    page := by
      intro b' u huse
      by_cases hnew : ∃ j < (numPages size).toNat, b' = b + ofNat 64 (j * 4096)
      · obtain ⟨j, hj, rfl⟩ := hnew
        exact hheld j hj
      · exact hc.page b' u ((if_neg hnew).symm.trans huse)
    block := by
      intro blk hblk
      rcases mem_cons.mp hblk with rfl | hblk
      · exact .inr ⟨b, hnew⟩
      · rcases hc.block blk hblk with ⟨b', i, free, k, hs⟩ | ⟨b', hl⟩
        · exact .inl ⟨b', i, free, k, { hs with use := withLarge_use_old hnone hs.use }⟩
        · exact .inr ⟨b', { hl with
            pages := fun j hj => withLarge_use_old hnone (hl.pages j hj) }⟩
    accounted := by
      intro b' i free k huse hk hnot
      obtain ⟨blk, hblk, hptr⟩ :=
        hc.accounted b' i free k ((withLarge_slab_iff hnone).mp huse) hk hnot
      exact ⟨blk, mem_cons_of_mem _ hblk, hptr⟩
    live_nodup := by
      refine nodup_cons.mpr ⟨?_, hc.live_nodup⟩
      intro hmem
      obtain ⟨blk, hblk, hptr⟩ := mem_map.mp hmem
      have hpage : pageOf blk.ptr = b := by
        rw [hptr]
        exact pageOf_cell hb (by decide)
      obtain ⟨u, huse⟩ := hc.block_page hblk
      rw [hpage, hfirst] at huse
      cases huse }

/-- The window maps consecutive frames to consecutive pages. -/
theorem physToVirt_frame_add (f j : Nat) : physToVirt (ofNat 64 ((f + j) * frameSize)) =
      physToVirt (ofNat 64 (f * frameSize)) + ofNat 64 (j * 4096) := by
  unfold physToVirt frameSize
  rw [Nat.add_mul, BitVec.ofNat_add, BitVec.add_assoc]

/-- **`large_alloc` on an unbroken run of clear frames.** -/
theorem Consistent.largeAlloc (hc : Consistent h v live) {size : U64} (hlarge : 4096#64 < size)
    (hnowrap : size.toNat + 4103 < 2 ^ 64) (hrun : Unbroken h.pmm (numPages size).toNat) :
    Serves h v live size (largeAlloc h size) := by
  have hpages := numPages_pos hnowrap hlarge
  have htook : ∀ f < pmmMaxFrames, test h.pmm.bitmap f = false →
      Consistent (h.tookFrame f) v live := fun f hmax hclear =>
    hc.hold (hc.not_held hmax hclear) (m := h.mem) ⟨f, hmax, rfl, by simp⟩
      (fun phys hp => (hc.held phys hp).set f (h.pmm.freeFrames - 1#64)) (fun _ _ => rfl)
  have hout := largeAlloc_outcome h size
  generalize Heap.largeAlloc h size = r at hout
  cases hout with
  | none pmm hkeep =>
    refine ⟨fun _ _ _ => rfl, .inl ⟨rfl, v, ?_⟩⟩
    exact hc.congr (fun _ _ => rfl) (fun phys hp => hkeep phys (hc.held phys hp))
  | short f n hmax hpos hclear =>
    obtain ⟨-, -, hmem⟩ := takeFrames_keeps (h.tookFrame f) n
    exact ⟨fun x _ _ => congrFun hmem x, .inl ⟨rfl, v, (htook f hmax hclear).takeFrames n⟩⟩
  | empty hzero =>
    rw [hzero] at hpages
    exact absurd hpages (by decide)
  | block f _ hmax hne hclear hlow hok =>
    have hc' := (htook f hmax hclear).takeFrames ((numPages size).toNat - 1)
    obtain ⟨-, -, hmem⟩ := takeFrames_keeps (h.tookFrame f) ((numPages size).toNat - 1)
    -- every frame of the block is fresh and held
    have hall := block_frames hrun hmax hne hclear hlow hok
    generalize Heap.takeFrames (h.tookFrame f) ((numPages size).toNat - 1) = rest at hc' hmem hall
    have halign := pageAligned_physToVirt hmax
    have hnone : ∀ j < (numPages size).toNat,
        v.use (physToVirt (ofNat 64 (f * frameSize)) + ofNat 64 (j * 4096)) = none := by
      intro j hj
      obtain ⟨hmax', hclear', -, -⟩ := hall j hj
      rw [← physToVirt_frame_add]
      exact hc.use_of_not_held (hc.not_held hmax' hclear')
    have hown : ∀ j < (numPages size).toNat, virtToPhys (physToVirt (ofNat 64 (f * frameSize)) +
          ofNat 64 (j * 4096)) ∈ rest.1.held := by
      intro j hj
      rw [← physToVirt_frame_add, virtToPhys_physToVirt]
      exact (hall j hj).2.2.2
    generalize hvirt : physToVirt (ofNat 64 (f * frameSize)) = b at halign hnone hown ⊢
    have hfirst : v.use b = none := by simpa using hnone 0 (by omega)
    have hpage : ∀ x, pageOf x ≠ b → Function.update rest.1.mem b (numPages size) x = h.mem x := by
      intro x hx
      rw [Function.update_of_ne, hmem]
      · rfl
      · rintro rfl
        exact hx (pageOf_self halign)
    have hwritten : Consistent (write rest.1 b (numPages size)) v live := by
      refine hc'.congr (fun x hx => ?_) hc'.held
      refine (hpage x (fun heq => ?_)).trans (congrFun hmem x).symm
      obtain ⟨u, huse⟩ := hc'.metadata_page hx
      rw [heq, hfirst] at huse
      cases huse
    refine ⟨sparesLarge_of_page (i := 0) hpage (.inl hfirst), .inr ⟨?_, _,
      hwritten.addLarge halign hlarge hnowrap (Function.update_self _ _ _) hnone hown⟩⟩
    show cell b 8 ≠ 0#64
    intro hzero
    have hnat : (cell b 8).toNat = b.toNat + 8 := toNat_cell halign (by decide)
    rw [hzero] at hnat
    simp at hnat

end Heap
