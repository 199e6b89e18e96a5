import NamelessOS.AddressSpaceTeardown
import NamelessOS.Heap
import NamelessOS.PmmMemoryMap

/-!
# The kernel's window onto physical memory

`entry.asm` fills three tables before paging is enabled: a PML4, a PDPT for the
identity map and one for the higher half, with 1 GB pages at indices 508 to
511.  The kernel then reaches every frame through
`PHYS_TO_VIRT(p) = KERNEL_VMA + p`, and every address space shares the kernel
half of the boot PML4.  The window is 2 GiB wide, the PMM manages 4 GiB: from
2 GiB on the sum wraps to an address of the user half.
-/

namespace Vmm

open Pmm WordMemory PageTree Runs WordBitmap Heap List

/-! ## The tables of `entry.asm` -/

/-- The page-table labels of `.bss.pagetables`, which the linker script puts page
aligned into the boot section, inside the loaded image. -/
structure BootImage extends KernelImage where
  pml4 : U64
  pageAligned : PageAligned pml4
  low : 0x100000 ≤ pml4.toNat
  inside : pml4.toNat + 3 * 4096 ≤ toKernelImage.kendPhys.toNat

namespace BootImage

variable (img : BootImage)

/-- The tables follow each other. -/
def table (k : Nat) : U64 := img.pml4 + BitVec.ofNat 64 (4096 * k)

def pdptId : U64 := img.table 1
def pdptHh : U64 := img.table 2

end BootImage

def pdpePresent : U64 := 0x1#64
def pdpeWrite : U64 := 0x2#64
def pdpe1G : U64 := 1#64 <<< 7

/-- The part of `start` that builds the tables: the area is zeroed, the PML4 gets
its two entries, `.fill_id` runs, and the four higher-half pages are written. -/
def startTables (img : BootImage) (m : Memory) : Memory :=
  let m := fillZero m img.pml4 (4096 * 3)
  let m := Function.update m (slot img.pml4 0) (img.pdptId ||| (pdpePresent ||| pdpeWrite))
  let m := Function.update m (slot img.pml4 511) (img.pdptHh ||| (pdpePresent ||| pdpeWrite))
  let m := (List.range 4).foldl (fun m i => Function.update m (slot img.pdptId i)
    ((pdpePresent ||| pdpeWrite ||| pdpe1G) + BitVec.ofNat 64 i * 0x40000000#64)) m
  let m := Function.update m (slot img.pdptHh 508)
      (pdpePresent ||| pdpeWrite ||| pdpe1G ||| 0x80000000#64)
  let m := Function.update m (slot img.pdptHh 509)
      (pdpePresent ||| pdpeWrite ||| pdpe1G ||| 0xC0000000#64)
  let m := Function.update m (slot img.pdptHh 510)
      (pdpePresent ||| pdpeWrite ||| pdpe1G ||| 0x00000000#64)
  Function.update m (slot img.pdptHh 511) (pdpePresent ||| pdpeWrite ||| pdpe1G ||| 0x40000000#64)

/-- The processor's translation of a kernel access; the walk is also that of
`vmm_get_phys`. -/
def translate (m : Memory) (cr3 virt : U64) : Option U64 :=
  let e4 := m (slot cr3 (vaPml4Idx virt))
  if !has e4 ptePresent then none
  else
    let e3 := m (slot (pteAddr e4) (vaPdptIdx virt))
    if !has e3 ptePresent then none
    else if has e3 pteHuge then some ((e3 &&& 0x000FFFFFC0000000#64) ||| (virt &&& 0x3FFFFFFF#64))
    else
      let e2 := m (slot (pteAddr e3) (vaPdtIdx virt))
      if !has e2 ptePresent then none
      else if has e2 pteHuge then some ((e2 &&& 0x000FFFFFFFE00000#64) ||| (virt &&& 0x1FFFFF#64))
      else
        let e1 := m (slot (pteAddr e2) (vaPtIdx virt))
        if !has e1 ptePresent then none
        else some (pteAddr e1 ||| (virt &&& 0xFFF#64))

/-- With `cr3` loaded, every byte of frame `f` is reached through the window. -/
def WindowReaches (m : Memory) (cr3 f : U64) : Prop := kernelVma ≤ physToVirt f ∧
    ∀ off < 4096, translate m cr3 (cell (physToVirt f) off) = some (cell f off)

/-! ## What the tables hold -/

namespace BootImage

variable (img : BootImage)

theorem pml4_eq : img.pml4 = img.table 0 := by simp [table]

variable {k : Nat}

theorem toNat_table (hk : k < 3) : (img.table k).toNat = img.pml4.toNat + 4096 * k := by
  have hinside := img.inside
  rw [table, BitVec.toNat_add, BitVec.toNat_ofNat]
  omega

theorem pageAligned_table (hk : k < 3) : PageAligned (img.table k) := by
  have h := img.pageAligned
  unfold PageAligned at h ⊢
  rw [img.toNat_table hk]
  omega

theorem table_inj {j : Nat} (hj : j < 3) (hk : k < 3) : img.table j = img.table k ↔ j = k := by
  grind [toNat_table]

theorem slot_table_inj {j i i' : Nat} (hj : j < 3) (hk : k < 3) (hi : i < 512) (hi' : i' < 512) :
    slot (img.table j) i = slot (img.table k) i' ↔ j = k ∧ i = i' := by
  rw [slot_inj (img.pageAligned_table hj) (img.pageAligned_table hk) hi hi', img.table_inj hj hk]

/-- The tables lie in frames `pmm_init` takes back. -/
theorem table_used (hk : k < 3) {mem : U64 → U8} {fuel : Nat} {s₀ pmm : PmmState}
    (hinit : pmmInit img.toKernelImage mem fuel s₀ = some (pmm, 0)) : Used pmm (img.table k) := by
  have hinside := img.inside
  have hlow := img.low
  have haddr := img.toNat_table hk
  have hframe : frameOf (img.table k) * frameSize = (img.table k).toNat := by
    have h := img.pageAligned_table hk
    unfold PageAligned at h
    unfold frameOf frameSize
    omega
  rcases Nat.lt_or_ge (frameOf (img.table k)) pmmMaxFrames with hmax | hbig
  · refine .inr (Bool.eq_true_of_not_eq_false (fun hclear => ?_))
    refine ((pmmInit_clear_iff hinit _).mp hclear).1 (.inr (.inl ?_))
    exact image_frames_marked _ hmax (by omega) (by omega)
  · exact .inl hbig

end BootImage

variable {img : BootImage} {m : Memory} {k i : Nat}

theorem fillZero_table (img : BootImage) (m : Memory) (hk : k < 3) (hi : i < 512) :
    fillZero m img.pml4 (4096 * 3) (slot (img.table k) i) = 0#64 := by
  refine if_pos ?_
  grind [BootImage.toNat_table, toNat_cell, BootImage.pageAligned_table, slot, BitVec.toNat_sub_of_le,
    BitVec.le_def]

/-- A store to an entry of one table, read at an entry of another. -/
theorem BootImage.update_slot (img : BootImage) (m : Memory) (v : U64) {j i' : Nat} (hj : j < 3)
    (hk : k < 3) (hi : i < 512) (hi' : i' < 512) :
    Function.update m (slot (img.table k) i') v (slot (img.table j) i) =
      if j = k ∧ i = i' then v else m (slot (img.table j) i) := by
  rw [Function.update_apply]
  exact if_congr (img.slot_table_inj hj hk hi hi') rfl rfl

/-- An entry of any of the three tables after the stores of `start`. -/
theorem startTables_slot (m : Memory) (hk : k < 3) (hi : i < 512) :
    startTables img m (slot (img.table k) i) =
      if k = 2 ∧ i = 511 then 0x40000083#64 else if k = 2 ∧ i = 510 then 0x83#64
      else if k = 2 ∧ i = 509 then 0xC0000083#64 else if k = 2 ∧ i = 508 then 0x80000083#64
      else if k = 1 ∧ i = 3 then 0xC0000083#64 else if k = 1 ∧ i = 2 then 0x80000083#64
      else if k = 1 ∧ i = 1 then 0x40000083#64 else if k = 1 ∧ i = 0 then 0x83#64
      else if k = 0 ∧ i = 511 then img.table 2 ||| 3#64
      else if k = 0 ∧ i = 0 then img.table 1 ||| 3#64 else 0#64 := by
  have hzero := fillZero_table img m hk hi
  have hloop : List.range 4 = [0, 1, 2, 3] := rfl
  unfold startTables BootImage.pdptId BootImage.pdptHh
  rw [img.pml4_eq] at hzero ⊢
  generalize fillZero m (img.table 0) (4096 * 3) = m₀ at hzero ⊢
  have hstore : ∀ (m : Memory) (v : U64) (k' i' : Nat), k' < 3 → i' < 512 →
      Function.update m (slot (img.table k') i') v (slot (img.table k) i) =
        if k = k' ∧ i = i' then v else m (slot (img.table k) i) :=
    fun m v k' i' hk' hi' => img.update_slot m v hk hk' hi hi'
  -- the stores, the last one first
  rw [hstore _ _ 2 511 (by decide) (by decide), hstore _ _ 2 510 (by decide) (by decide),
    hstore _ _ 2 509 (by decide) (by decide), hstore _ _ 2 508 (by decide) (by decide), hloop]
  simp only [foldl_cons, foldl_nil]
  rw [hstore _ _ 1 3 (by decide) (by decide), hstore _ _ 1 2 (by decide) (by decide),
    hstore _ _ 1 1 (by decide) (by decide), hstore _ _ 1 0 (by decide) (by decide),
    hstore _ _ 0 511 (by decide) (by decide), hstore _ _ 0 0 (by decide) (by decide), hzero]
  rfl

theorem startTables_pml4 (m : Memory) (hi : i < 512) : startTables img m (slot img.pml4 i) =
      if i = 511 then img.pdptHh ||| 3#64 else if i = 0 then img.pdptId ||| 3#64 else 0#64 := by
  rw [img.pml4_eq, startTables_slot m (by decide) hi]
  simp only [Nat.reduceEqDiff, false_and, if_false, true_and]
  rfl

/-- The last table has the four pages of the window and nothing else. -/
theorem startTables_pdptHh (m : Memory) (hi : i < 512) : startTables img m (slot img.pdptHh i) =
      if i = 511 then 0x40000083#64 else if i = 510 then 0x83#64
      else if i = 509 then 0xC0000083#64 else if i = 508 then 0x80000083#64 else 0#64 := by
  rw [BootImage.pdptHh, startTables_slot m (by decide) hi]
  simp only [Nat.reduceEqDiff, false_and, if_false, true_and]

/-! ## Addresses of the window -/

variable {f r : U64}

theorem toNat_physToVirt (f : U64) :
    (physToVirt f).toNat = (0xFFFFFFFF80000000 + f.toNat) % 2 ^ 64 := BitVec.toNat_add _ _

/-- The sum stays in the kernel half exactly below 2 GiB. -/
theorem kernelVma_le_physToVirt (hf : f.toNat < 2 ^ 32) :
    kernelVma ≤ physToVirt f ↔ f.toNat < 2 ^ 31 := by
  have hvma : kernelVma.toNat = 0xFFFFFFFF80000000 := rfl
  rw [BitVec.le_def, toNat_physToVirt, hvma]
  omega

theorem toNat_and_low (v : U64) {n : Nat} (mask : U64) (hmask : mask.toNat = 2 ^ n - 1) :
    (v &&& mask).toNat = v.toNat % 2 ^ n := by
  rw [BitVec.toNat_and, hmask, Nat.and_two_pow_sub_one_eq_mod]

theorem vaPml4Idx_eq (va : U64) : vaPml4Idx va = va.toNat / 2 ^ 39 % 2 ^ 9 := by
  rw [vaPml4Idx, toNat_and_low _ 0x1FF#64 (n := 9) rfl, BitVec.toNat_ushiftRight,
    Nat.shiftRight_eq_div_pow]

theorem vaPdptIdx_eq (va : U64) : vaPdptIdx va = va.toNat / 2 ^ 30 % 2 ^ 9 := by
  rw [vaPdptIdx, toNat_and_low _ 0x1FF#64 (n := 9) rfl, BitVec.toNat_ushiftRight,
    Nat.shiftRight_eq_div_pow]

section
variable {off : Nat} (haligned : PageAligned f) (hlow : f.toNat < 2 ^ 31) (hoff : off < 4096)
include haligned hlow hoff

theorem toNat_window : (cell (physToVirt f) off).toNat = 0xFFFFFFFF80000000 + f.toNat + off := by
  unfold PageAligned at haligned
  rw [cell, BitVec.toNat_add, toNat_physToVirt, BitVec.toNat_ofNat]
  omega

theorem vaPml4Idx_window : vaPml4Idx (cell (physToVirt f) off) = 511 := by
  have hva := toNat_window haligned hlow hoff
  rw [vaPml4Idx_eq, hva]
  omega

theorem vaPdptIdx_window : vaPdptIdx (cell (physToVirt f) off) = 510 + f.toNat / 2 ^ 30 := by
  have hva := toNat_window haligned hlow hoff
  unfold PageAligned at haligned
  rw [vaPdptIdx_eq, hva]
  omega

/-- The page of the window and the offset in it give the address back. -/
theorem window_page (e : U64)
    (he : e &&& 0x000FFFFFC0000000#64 = BitVec.ofNat 64 (f.toNat / 2 ^ 30 * 2 ^ 30)) :
    (e &&& 0x000FFFFFC0000000#64) ||| (cell (physToVirt f) off &&& 0x3FFFFFFF#64) = cell f off := by
  have hva := toNat_window haligned hlow hoff
  have hf := toNat_cell haligned hoff
  have hapart : (e &&& 0x000FFFFFC0000000#64) &&& (cell (physToVirt f) off &&& 0x3FFFFFFF#64) =
      0#64 := by
    rw [BitVec.and_comm (cell _ _), BitVec.and_assoc, ← BitVec.and_assoc _ 0x3FFFFFFF#64]
    simp
  unfold PageAligned at haligned
  rw [← BitVec.add_eq_or_of_and_eq_zero _ _ hapart, he]
  apply BitVec.eq_of_toNat_eq
  rw [BitVec.toNat_add, toNat_and_low _ 0x3FFFFFFF#64 (n := 30) rfl, hva, hf, BitVec.toNat_ofNat]
  omega

end

/-- The address space has the window. -/
structure HasWindow (img : BootImage) (m : Memory) (r : U64) : Prop where
  pml4 : m (slot r 511) = img.pdptHh ||| 3#64
  low : m (slot img.pdptHh 510) = 0x83#64
  high : m (slot img.pdptHh 511) = 0x40000083#64

/-- The entry that leads to one of the three tables. -/
theorem BootImage.entry (img : BootImage) {k : Nat} (hk : k < 3) :
    pteAddr (img.table k ||| 3#64) = img.table k ∧
      has (img.table k ||| 3#64) ptePresent = true := by
  have hmasked : img.table k &&& pteAddrMask = img.table k :=
    masked_of_aligned (img.pageAligned_table hk) (by
      have hkend := (kendPhys_bounds img.toKernelImage).2
      have hinside := img.inside
      rw [img.toNat_table hk]
      omega)
  have hflags : img.table k ||| 3#64 = (3#64 &&& ~~~pteAddrMask) ||| img.table k := by
    rw [BitVec.or_comm]
    rfl
  obtain ⟨haddr, hkept⟩ := redirect (e := 3#64) hmasked
  rw [hflags]
  exact ⟨haddr, (has_of_flags (by decide) hkept).trans (by decide)⟩

theorem hhEntry (img : BootImage) :
    pteAddr (img.pdptHh ||| 3#64) = img.pdptHh ∧ has (img.pdptHh ||| 3#64) ptePresent = true :=
  img.entry (by decide)

theorem startTables_hasWindow (img : BootImage) (m : Memory) :
    HasWindow img (startTables img m) img.pml4 := by
  refine ⟨?_, ?_, ?_⟩
  · rw [startTables_pml4 m (by decide), if_pos rfl]
  · rw [startTables_pdptHh m (by decide), if_neg (by decide), if_pos rfl]
  · rw [startTables_pdptHh m (by decide), if_pos rfl]

theorem HasWindow.reaches (h : HasWindow img m r) (haligned : PageAligned f)
    (hlow : f.toNat < 2 ^ 31) {off : Nat} (hoff : off < 4096) :
    translate m r (cell (physToVirt f) off) = some (cell f off) := by
  obtain ⟨haddr, hpresent⟩ := hhEntry img
  have hpage := window_page haligned hlow hoff
  rw [translate, vaPml4Idx_window haligned hlow hoff, vaPdptIdx_window haligned hlow hoff, h.pml4,
    haddr, hpresent]
  rcases Nat.lt_or_ge f.toNat (2 ^ 30) with hfirst | hsecond
  · have hdiv : f.toNat / 2 ^ 30 = 0 := Nat.div_eq_of_lt hfirst
    rw [hdiv] at hpage ⊢
    rw [h.low, ← hpage 0x83#64 (by decide)]
    rfl
  · have hdiv : f.toNat / 2 ^ 30 = 1 := by omega
    rw [hdiv] at hpage ⊢
    rw [h.high, ← hpage 0x40000083#64 (by decide)]
    rfl

/-- Below the window the boot tables map the first 4 GiB to themselves. -/
theorem translate_identity (m : Memory) {va : U64} (hva : va.toNat < 2 ^ 32) :
    translate (startTables img m) img.pml4 va = some va := by
  have hpml4 : vaPml4Idx va = 0 := by
    rw [vaPml4Idx_eq]
    omega
  have hpdpt : vaPdptIdx va = va.toNat / 2 ^ 30 := by
    rw [vaPdptIdx_eq]
    omega
  have hlt : va.toNat / 2 ^ 30 < 4 := by omega
  obtain ⟨haddr, hpresent⟩ := img.entry (k := 1) (by decide)
  have hpage : ∀ e : U64, e &&& 0x000FFFFFC0000000#64 =
      BitVec.ofNat 64 (va.toNat / 2 ^ 30 * 2 ^ 30) →
      (e &&& 0x000FFFFFC0000000#64) ||| (va &&& 0x3FFFFFFF#64) = va := by
    intro e he
    have hapart : (e &&& 0x000FFFFFC0000000#64) &&& (va &&& 0x3FFFFFFF#64) = 0#64 := by
      rw [BitVec.and_comm va, BitVec.and_assoc, ← BitVec.and_assoc _ 0x3FFFFFFF#64]
      simp
    rw [← BitVec.add_eq_or_of_and_eq_zero _ _ hapart, he]
    apply BitVec.eq_of_toNat_eq
    rw [BitVec.toNat_add, toNat_and_low _ 0x3FFFFFFF#64 (n := 30) rfl, BitVec.toNat_ofNat]
    omega
  have hfirst : startTables img m (slot img.pml4 0) = img.table 1 ||| 3#64 := by
    rw [startTables_pml4 m (by decide), if_neg (by decide), if_pos rfl]
    rfl
  -- one large page for each of the four GiB
  obtain ⟨e, hentry, hp, hh, he⟩ : ∃ e, startTables img m
      (slot (img.table 1) (va.toNat / 2 ^ 30)) = e ∧ has e ptePresent = true ∧
      has e pteHuge = true ∧
      e &&& 0x000FFFFFC0000000#64 = BitVec.ofNat 64 (va.toNat / 2 ^ 30 * 2 ^ 30) := by
    generalize va.toNat / 2 ^ 30 = i at hlt
    have hvalue : startTables img m (slot (img.table 1) i) =
        BitVec.ofNat 64 (i * 2 ^ 30 + 0x83) := by
      rw [startTables_slot m (by decide) (by omega)]
      interval_cases i <;> simp
    refine ⟨_, hvalue, ?_⟩
    interval_cases i <;> decide
  rw [translate, hpml4, hpdpt, hfirst, haddr, hpresent, hentry]
  simp only [hp, hh, hpage e he, Bool.not_true, Bool.false_eq_true, if_false, if_true]

/-! ## Every address space has the window -/

/-- The state after `start` and `pmm_init`. -/
def bootedVm (img : BootImage) (pmm : PmmState) (m : Memory) : Vm := ⟨pmm, startTables img m⟩

section
variable {mem : U64 → U8} {fuel : Nat} {s₀ pmm : PmmState}
  (hinit : pmmInit img.toKernelImage mem fuel s₀ = some (pmm, 0))
include hinit

theorem pml4_used : Used pmm img.pml4 := by
  rw [img.pml4_eq]
  exact img.table_used (by decide) hinit

theorem bootedVm_booted (m : Memory) : Booted img.pml4 (bootedVm img pmm m) := by
  refine ⟨img.pageAligned, pml4_used hinit, ?_⟩
  rintro a ⟨i, hlow, hi, hp, ha⟩
  dsimp only [bootedVm] at hp ha
  have hentry : i = 511 := by
    by_contra hne
    rw [startTables_pml4 m hi, if_neg hne, if_neg (by omega)] at hp
    exact absurd hp (by decide)
  subst hentry
  rw [startTables_pml4 m hi, if_pos rfl, (hhEntry img).1] at ha
  rcases ha with rfl | ⟨j, ⟨hj, hchild⟩, -⟩
  · exact img.table_used (by decide) hinit
  · -- the entries are absent or large pages, so the walk ends here
    rw [startTables_pdptHh m hj] at hchild
    split_ifs at hchild <;> exact absurd hchild (by decide)

theorem Kept.hasWindow {s : Life} (h : Kept img.pml4 (bootedVm img pmm m) s)
    (hr : r = img.pml4 ∨ r ∈ s.live) : HasWindow img s.vm.mem r := by
  have hhh : PageAligned img.pdptHh := img.pageAligned_table (by decide)
  have hused : Used pmm img.pdptHh := img.table_used (by decide) hinit
  have hstart : (bootedVm img pmm m).mem = startTables img m := rfl
  have hkept : ∀ i < 512, s.vm.mem (slot img.pdptHh i) = startTables img m (slot img.pdptHh i) := by
    intro i hi
    rw [← hstart]
    exact h.mem _ (by rw [pageOf_slot hhh hi]; exact hused)
  have hpml4 : s.vm.mem (slot r 511) = startTables img m (slot img.pml4 511) := by
    rw [← hstart]
    rcases hr with rfl | hr
    · exact h.mem _ (by rw [pageOf_slot img.pageAligned (by decide)]; exact pml4_used hinit)
    · exact h.kernel r hr 511 (by decide) (by decide)
  refine ⟨?_, ?_, ?_⟩
  · rw [hpml4, startTables_pml4 m (by decide), if_pos rfl]
  · refine (hkept 510 (by decide)).trans ?_
    rw [startTables_pdptHh m (by decide), if_neg (by decide), if_pos rfl]
  · refine (hkept 511 (by decide)).trans ?_
    rw [startTables_pdptHh m (by decide), if_pos rfl]

end

/-- The frames that come into use lie below 2 GiB, so that the accesses of this
step through the window hit them. -/
def TakesLow (boot : U64) (s : Life) (op : LifeOp) : Prop :=
  ∀ p, PageAligned p → ¬ Used s.vm.pmm p → Used (s.step boot op).vm.pmm p → p.toNat < 2 ^ 31

/-- What the PMM hands out. -/
theorem pmmAllocFrame_bounds {p : PmmState} (hf : (pmmAllocFrame p).2 = f) :
    PageAligned f ∧ f.toNat < 2 ^ 32 := by
  subst hf
  have hout := pmmAllocFrame_outcome p
  generalize pmmAllocFrame p = res at hout ⊢
  cases hout with
  | full =>
    dsimp only
    exact ⟨rfl, by decide⟩
  | frame n hmax hclear hbelow =>
    refine ⟨pageAligned_frame hmax, ?_⟩
    rw [frame_address hmax]
    unfold pmmMaxFrames at hmax
    unfold frameSize
    omega

/-- **The window reaches exactly the frames below 2 GiB**: for every memory map,
every run of the address-space operations from boot, in the boot address space
and in every one alive then, and every frame that `pmm_alloc_frame` returns in
any state of the PMM. -/
theorem window_reaches_iff {img : BootImage} {mem : U64 → U8} {fuel : Nat} {s₀ pmm : PmmState}
    (hinit : pmmInit img.toKernelImage mem fuel s₀ = some (pmm, 0)) (m : Memory)
    {ops : List LifeOp}
    (hops : StepsMeet (Life.step img.pml4) (fun s op => OnLive s op ∧ TakesLow img.pml4 s op)
      (Life.start (bootedVm img pmm m)) ops)
    {r : U64} (hr : r = img.pml4 ∨
      r ∈ (run (Life.step img.pml4) (Life.start (bootedVm img pmm m)) ops).live)
    {p : PmmState} {f : U64} (hf : (pmmAllocFrame p).2 = f) :
    WindowReaches (run (Life.step img.pml4) (Life.start (bootedVm img pmm m)) ops).vm.mem r f ↔
      f.toNat < 2 ^ 31 := by
  obtain ⟨haligned, hlt⟩ := pmmAllocFrame_bounds hf
  have hboot := bootedVm_booted hinit m
  have hkept := run_invariant (Kept img.pml4 (bootedVm img pmm m))
    (fun _ _ h hop => h.step hboot hop.1) (kept_start _ _) hops
  rw [WindowReaches, kernelVma_le_physToVirt hlt, and_iff_left_iff_imp]
  intro hlow off hoff
  exact (hkept.hasWindow hinit hr).reaches haligned hlow hoff

def smallBootImage : BootImage where
  toKernelImage := smallImage
  pml4 := 0x100000#64
  pageAligned := rfl
  low := by decide
  inside := by decide

/-- The frames the map of `oneRegionMap` frees. -/
theorem oneRegion_clear {n : Nat} (h : test oneRegionBoot.bitmap n = false) : n = 512 ∨ n = 513 := by
  obtain ⟨-, e, he, -, hmem⟩ := (pmmInit_clear_iff oneRegionInit_accepted n).mp h
  change e ∈ bootEntries oneRegionMap 4 unbooted at he
  obtain rfl := mem_singleton.mp he
  obtain ⟨hlow, hhigh, -⟩ := mem_frameRange.mp hmem
  change 512 ≤ n at hlow
  change n < 514 at hhigh
  omega

/-- The next frame after the first address space was created is reached from
there. -/
theorem window_reaches_oneRegion : WindowReaches (run (Life.step smallBootImage.pml4)
      (Life.start (bootedVm smallBootImage oneRegionBoot (fun _ => 0#64))) [.create]).vm.mem
      0x200000#64 0x201000#64 := by
  have hops : StepsMeet (Life.step smallBootImage.pml4)
      (fun s op => OnLive s op ∧ TakesLow smallBootImage.pml4 s op)
      (Life.start (bootedVm smallBootImage oneRegionBoot (fun _ => 0#64))) [.create] := by
    refine ⟨⟨trivial, fun p hp hfree _ => ?_⟩, trivial⟩
    have hclear : test oneRegionBoot.bitmap (frameOf p) = false :=
      Bool.eq_false_of_not_eq_true (fun hset => hfree (.inr hset))
    have hframe := oneRegion_clear hclear
    unfold frameOf frameSize at hframe
    omega
  have hlive : 0x200000#64 ∈ (run (Life.step smallBootImage.pml4)
      (Life.start (bootedVm smallBootImage oneRegionBoot (fun _ => 0#64))) [.create]).live := by
    decide +kernel
  have halloc : (pmmAllocFrame (pmmAllocFrame oneRegionBoot).1).2 = 0x201000#64 := by
    decide +kernel
  have hinit : pmmInit smallBootImage.toKernelImage oneRegionMap 4 unbooted = some (oneRegionBoot, 0) :=
    oneRegionInit_accepted
  exact (window_reaches_iff hinit (fun _ => 0#64) hops (.inr hlive) halloc).mpr (by decide)

/-- An information block at `0x9000` with one available frame, at 2 GiB. -/
def highRegionMap (a : U64) : U8 := [56, 0, 0, 0, 0, 0, 0, 0,
    6, 0, 0, 0, 40, 0, 0, 0, 24, 0, 0, 0, 0, 0, 0, 0,
    0, 0, 0, 0x80, 0, 0, 0, 0, 0, 0x10, 0, 0, 0, 0, 0, 0, 1, 0, 0, 0, 0, 0, 0, 0,
    0, 0, 0, 0, 8, 0, 0, 0].getD (a - 0x9000#64).toNat 0

def highRegionBoot : PmmState := ((pmmInit smallImage highRegionMap 4 unbooted).getD default).1

/-- The only frame of the map is handed out; its window address is 0, which the
boot tables translate to frame 0. -/
theorem window_misses_high_frame :
    pmmInit smallImage highRegionMap 4 unbooted = some (highRegionBoot, 0) ∧
      (pmmAllocFrame highRegionBoot).2 = 0x80000000#64 ∧
      physToVirt 0x80000000#64 = 0#64 ∧
      translate (bootedVm smallBootImage highRegionBoot (fun _ => 0#64)).mem smallBootImage.pml4 0#64 =
        some 0#64 ∧
      ¬ WindowReaches (bootedVm smallBootImage highRegionBoot (fun _ => 0#64)).mem smallBootImage.pml4
        0x80000000#64 := by
  have haccepted : pmmInit smallImage highRegionMap 4 unbooted = some (highRegionBoot, 0) :=
    accepted_of_returns_zero (by decide +kernel)
  have halloc : (pmmAllocFrame highRegionBoot).2 = 0x80000000#64 := by
    decide +kernel
  refine ⟨haccepted, halloc, by decide, by decide +kernel, ?_⟩
  rintro ⟨hvma, -⟩
  exact absurd hvma (by decide)

end Vmm

namespace Heap

open Pmm WordMemory BitVec
open BitVec (ofNat)

/-- Where the tables of `entry.asm` lead a kernel access: through the window from
`KERNEL_VMA` on, and through the identity map below it. -/
def bootPhys (va : U64) : U64 := if kernelVma ≤ va then virtToPhys va else va

/-- It is the translation of the boot page tables. -/
theorem translate_bootPhys (img : Vmm.BootImage) (m : Memory) {va : U64}
    (hva : kernelVma ≤ va ∨ va.toNat < 2 ^ 32) :
    Vmm.translate (Vmm.startTables img m) img.pml4 va = some (bootPhys va) := by
  have hvma : kernelVma.toNat = 0xFFFFFFFF80000000 := rfl
  unfold bootPhys
  split
  · rename_i hwin
    rw [le_def, hvma] at hwin
    have hlt := va.isLt
    -- the page of the access and the offset in it
    obtain ⟨f, hf, hal, hlow⟩ : ∃ f : U64, f.toNat = (va.toNat - 0xFFFFFFFF80000000) / 4096 * 4096 ∧
        PageAligned f ∧ f.toNat < 2 ^ 31 := by
      refine ⟨ofNat 64 ((va.toNat - 0xFFFFFFFF80000000) / 4096 * 4096), ?_, ?_, ?_⟩ <;>
        (try unfold PageAligned) <;> rw [toNat_ofNat] <;> omega
    have hoff : (va.toNat - 0xFFFFFFFF80000000) % 4096 < 4096 := Nat.mod_lt _ (by decide)
    have hcell : va = cell (physToVirt f) ((va.toNat - 0xFFFFFFFF80000000) % 4096) := by
      apply eq_of_toNat_eq
      rw [Vmm.toNat_window hal hlow hoff]
      omega
    have hphys : virtToPhys va = cell f ((va.toNat - 0xFFFFFFFF80000000) % 4096) := by
      apply eq_of_toNat_eq
      rw [toNat_cell hal hoff, virtToPhys, toNat_sub_of_le (by rw [le_def, hvma]; exact hwin)]
      omega
    rw [hphys]
    conv_lhs => rw [hcell]
    exact (Vmm.startTables_hasWindow img m).reaches hal hlow hoff
  · rename_i hwin
    exact Vmm.translate_identity m (hva.resolve_left hwin)

end Heap
