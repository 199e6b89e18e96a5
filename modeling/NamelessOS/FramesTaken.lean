import NamelessOS.Heap
import NamelessOS.UserPages

/-!
# Calls that only take frames

Mapping a page, resolving a write fault, creating an address space and
`kmalloc` give no frame back that was in use before, whatever the page tables
look like.  A clone frees frames only on its way to failure, so a fork that
succeeds has taken at least the frame of the new PML4.
-/

namespace Vmm

open Pmm WordMemory WordBitmap PageTree

/-- Every frame that was in use still is. -/
structure KeepsUsed (pmm pmm' : PmmState) : Prop where
  kept : ∀ p, PageAligned p → Used pmm p → Used pmm' p

theorem KeepsUsed.refl (pmm : PmmState) : KeepsUsed pmm pmm := ⟨fun _ _ hu => hu⟩

variable {pmm pmm' : PmmState}

theorem KeepsUsed.trans {pmm'' : PmmState} (h : KeepsUsed pmm pmm')
    (h' : KeepsUsed pmm' pmm'') : KeepsUsed pmm pmm'' :=
  ⟨fun p hp hu => h'.kept p hp (h.kept p hp hu)⟩

theorem KeepsUsed.clearFrames_le (h : KeepsUsed pmm pmm') :
    clearFrames pmm' ≤ clearFrames pmm := Finset.card_le_card (clearBits_subset h.kept)

theorem alloc_keepsUsed (pmm : PmmState) : KeepsUsed pmm (pmmAllocFrame pmm).1 := by
  have halloc := pmmAllocFrame_result pmm
  generalize pmmAllocFrame pmm = r at halloc
  cases halloc with
  | none pmm' hkeep => exact ⟨fun p _ hu => hkeep p hu⟩
  | frame pmm' d _ _ _ _ hused => exact ⟨fun p hp hu => (hused p hp).mpr (.inl hu)⟩

/-- An allocation that succeeds leaves one free frame fewer. -/
theorem clearFrames_alloc (hne : (pmmAllocFrame pmm).2 ≠ 0#64)
    (hkeeps : KeepsUsed (pmmAllocFrame pmm).1 pmm') : clearFrames pmm' < clearFrames pmm := by
  have halloc := pmmAllocFrame_result pmm
  have hkept := (alloc_keepsUsed pmm).trans hkeeps
  generalize pmmAllocFrame pmm = r at halloc hne hkeeps hkept
  cases halloc with
  | none => exact absurd rfl hne
  | frame pmm₁ d _ haligned _ hfresh hused =>
    exact clearFrames_lt hkept.kept hfresh
      (hkeeps.kept d haligned ((hused d haligned).mpr (.inr rfl)))

/-! ## Mapping and faults -/

theorem getOrAllocTable_keepsUsed (s : Vm) (entry flags : U64) :
    KeepsUsed s.pmm (getOrAllocTable s entry flags).1.pmm := by
  have halloc := alloc_keepsUsed s.pmm
  unfold getOrAllocTable
  grind [KeepsUsed.refl]

theorem vmmMapUserPage_keepsUsed (s : Vm) (pml4 virt phys flags : U64) :
    KeepsUsed s.pmm (vmmMapUserPage s pml4 virt phys flags).1.pmm := by
  unfold vmmMapUserPage
  have h₁ := getOrAllocTable_keepsUsed s (slot pml4 (vaPml4Idx virt)) (pteWrite ||| pteUser)
  generalize getOrAllocTable s (slot pml4 (vaPml4Idx virt)) (pteWrite ||| pteUser) = r₁ at h₁ ⊢
  obtain ⟨s₁, _ | pdpt⟩ := r₁
  · exact h₁
  · dsimp only
    have h₂ := getOrAllocTable_keepsUsed s₁ (slot pdpt (vaPdptIdx virt)) (pteWrite ||| pteUser)
    generalize getOrAllocTable s₁ (slot pdpt (vaPdptIdx virt)) (pteWrite ||| pteUser) = r₂ at h₂ ⊢
    obtain ⟨s₂, _ | pdt⟩ := r₂
    · exact h₁.trans h₂
    · dsimp only
      have h₃ := getOrAllocTable_keepsUsed s₂ (slot pdt (vaPdtIdx virt)) (pteWrite ||| pteUser)
      generalize getOrAllocTable s₂ (slot pdt (vaPdtIdx virt)) (pteWrite ||| pteUser) = r₃ at h₃ ⊢
      obtain ⟨s₃, _ | pt⟩ := r₃
      · exact (h₁.trans h₂).trans h₃
      · exact (h₁.trans h₂).trans h₃

/-- The frame that could not be mapped is the one just taken. -/
theorem mapNewPages_keepsUsed (fill : U64 → Memory → U64 → Memory) (pml4 flags : U64)
    (vas : List U64) (s : Vm) : KeepsUsed s.pmm (mapNewPages fill pml4 flags vas s).1.pmm := by
  induction vas generalizing s with
  | nil => exact .refl _
  | cons va vas ih =>
    rw [mapNewPages]
    have halloc := pmmAllocFrame_result s.pmm
    have hkept := alloc_keepsUsed s.pmm
    generalize pmmAllocFrame s.pmm = frame at halloc hkept
    dsimp only
    split
    · exact hkept
    · rename_i hne
      have hmapped := hkept.trans (vmmMapUserPage_keepsUsed
        { pmm := frame.1, mem := fill va s.mem frame.2 } pml4 va frame.2 flags)
      generalize vmmMapUserPage { pmm := frame.1, mem := fill va s.mem frame.2 } pml4 va frame.2
        flags = r at hmapped
      split
      · cases halloc with
        | none => exact absurd rfl hne
        | frame pmm' d _ haligned _ hfresh _ =>
          refine ⟨fun p hp hu => (hmapped.kept p hp hu).free (fun heq => hfresh ?_)⟩
          rwa [← frameOf_inj hp haligned heq]
      · exact hmapped.trans (ih r.1)

theorem pageFaultHandlerC_keepsUsed (s : Vm) (pml4 cr2 err : U64) :
    KeepsUsed s.pmm (pageFaultHandlerC s pml4 cr2 err).1.pmm := by
  have hcopy : ∀ pte, KeepsUsed s.pmm (cowCopy s pte).1.pmm := by
    intro pte
    have halloc := alloc_keepsUsed s.pmm
    unfold cowCopy
    grind [KeepsUsed.refl]
  unfold pageFaultHandlerC cowHandle
  grind [KeepsUsed.refl]

/-! ## New address spaces -/

theorem vmmCreateUserPml4_takes (boot : U64) (s : Vm) (hne : (vmmCreateUserPml4 boot s).2 ≠ 0#64) :
    clearFrames (vmmCreateUserPml4 boot s).1.pmm < clearFrames s.pmm := by
  have htaken : (pmmAllocFrame s.pmm).2 ≠ 0#64 →
      clearFrames (pmmAllocFrame s.pmm).1 < clearFrames s.pmm :=
    fun hne => clearFrames_alloc hne (.refl _)
  unfold vmmCreateUserPml4 at hne ⊢
  generalize pmmAllocFrame s.pmm = r at hne htaken ⊢
  dsimp only at hne ⊢
  split at hne
  · exact absurd rfl hne
  · rename_i halloc
    rw [if_neg halloc]
    exact htaken halloc

/-- A clone that succeeds has only taken frames. -/
def TakesIfDone (clone : Vm → U64 → Vm × U64) : Prop :=
  ∀ s src, (clone s src).2 ≠ 0#64 → KeepsUsed s.pmm (clone s src).1.pmm

theorem cowClonePt_takesIfDone : TakesIfDone cowClonePt := by
  intro s src _
  have halloc := alloc_keepsUsed s.pmm
  unfold cowClonePt
  generalize pmmAllocFrame s.pmm = r at halloc ⊢
  dsimp only
  split
  · exact halloc
  · exact halloc

variable {clone : Vm → U64 → Vm × U64}

theorem cloneEntries_keepsUsed (verbatim : U64 → Bool)
    (hclone : TakesIfDone clone) (src dst : U64) (is : List Nat) (s : Vm)
    (hdone : (cloneEntries verbatim clone src dst is s).2 = true) :
    KeepsUsed s.pmm (cloneEntries verbatim clone src dst is s).1.pmm := by
  induction is generalizing s with
  | nil => exact .refl _
  | cons i is ih =>
    rw [cloneEntries] at hdone ⊢
    dsimp only at hdone ⊢
    split at hdone
    · rename_i habsent
      rw [if_pos habsent]
      exact ih _ hdone
    · rename_i hpresent
      rw [if_neg hpresent]
      split at hdone
      · rename_i hverbatim
        rw [if_pos hverbatim]
        exact ih _ hdone
      · rename_i hbelow
        rw [if_neg hbelow]
        split at hdone
        · cases hdone
        · rename_i hne
          rw [if_neg hne]
          exact KeepsUsed.trans (hclone s _ hne) (ih _ hdone)

theorem cowCloneDir_takesIfDone (hclone : TakesIfDone clone) :
    TakesIfDone (cowCloneDir clone) := by
  intro s src hne
  have halloc := alloc_keepsUsed s.pmm
  unfold cowCloneDir at hne ⊢
  generalize pmmAllocFrame s.pmm = r at halloc hne ⊢
  dsimp only at hne ⊢
  split at hne
  · exact absurd rfl hne
  · rename_i hframe
    rw [if_neg hframe]
    have hloop := cloneEntries_keepsUsed (has · pteHuge) hclone src r.2 (List.range ptEntries)
      { s with pmm := r.1 }
    generalize cloneEntries (has · pteHuge) clone src r.2 (List.range ptEntries)
      { s with pmm := r.1 } = c at hne hloop ⊢
    split at hne
    · rename_i hdone
      rw [if_pos hdone]
      exact halloc.trans (hloop hdone)
    · exact absurd rfl hne

/-- **A fork that succeeds takes frames.** -/
theorem vmmForkPml4_takes (s : Vm) (src : U64) (hne : (vmmForkPml4 s src).2 ≠ 0#64) :
    clearFrames (vmmForkPml4 s src).1.pmm < clearFrames s.pmm := by
  have hbelow : TakesIfDone cowClonePdpt :=
    cowCloneDir_takesIfDone (cowCloneDir_takesIfDone cowClonePt_takesIfDone)
  have htaken : ∀ pmm', (pmmAllocFrame s.pmm).2 ≠ 0#64 →
      KeepsUsed (pmmAllocFrame s.pmm).1 pmm' → clearFrames pmm' < clearFrames s.pmm :=
    fun _ => clearFrames_alloc
  unfold vmmForkPml4 at hne ⊢
  generalize pmmAllocFrame s.pmm = r at hne htaken ⊢
  dsimp only at hne ⊢
  split at hne
  · exact absurd rfl hne
  · rename_i hframe
    rw [if_neg hframe]
    have hloop := cloneEntries_keepsUsed (fun _ => false) hbelow src r.2 (List.range 256)
      { pmm := r.1, mem := shareKernelHalf s.mem src r.2 }
    generalize cloneEntries (fun _ => false) cowClonePdpt src r.2 (List.range 256)
      { pmm := r.1, mem := shareKernelHalf s.mem src r.2 } = c at hne hloop ⊢
    split at hne
    · rename_i hdone
      rw [if_pos hdone]
      exact htaken _ hframe (hloop hdone)
    · exact absurd rfl hne

end Vmm

namespace Heap

open Pmm Vmm WordMemory

theorem takeFrame_keepsUsed (h : HeapState) : KeepsUsed h.pmm (takeFrame h).1.pmm := by
  have halloc := alloc_keepsUsed h.pmm
  unfold takeFrame
  generalize pmmAllocFrame h.pmm = r at halloc ⊢
  exact halloc

theorem takeFrames_keepsUsed (n : Nat) (h : HeapState) : KeepsUsed h.pmm (takeFrames h n).1.pmm := by
  induction n generalizing h with
  | zero => exact .refl _
  | succ n ih =>
    grind [takeFrame_keepsUsed, takeFrames, KeepsUsed.trans]

theorem largeAlloc_keepsUsed (h : HeapState) (size : U64) :
    KeepsUsed h.pmm (largeAlloc h size).1.pmm := by
  have hfirst := takeFrame_keepsUsed h
  unfold largeAlloc
  generalize takeFrame h = first at hfirst ⊢
  dsimp only
  split
  · exact .refl _
  · split
    · exact hfirst
    · have hrest := hfirst.trans (takeFrames_keepsUsed ((numPages size).toNat - 1) first.1)
      generalize takeFrames first.1 ((numPages size).toNat - 1) = rest at hrest ⊢
      split
      · exact hrest
      · exact hrest

theorem takeFrames_mem (n : Nat) (h : HeapState) : (takeFrames h n).1.mem = h.mem := by
  induction n generalizing h with
  | zero => rfl
  | succ n ih =>
    have hfirst : (takeFrame h).1.mem = h.mem := by
      unfold takeFrame
      generalize pmmAllocFrame h.pmm = frame
      rfl
    rw [takeFrames]
    generalize takeFrame h = r at hfirst ⊢
    split
    · exact hfirst
    · exact (ih _).trans hfirst

/-- `large_alloc` writes the header of the block. -/
theorem largeAlloc_mem (h : HeapState) {size : U64} (hpages : numPages size ≠ 0#64) (a : U64) :
    (largeAlloc h size).1.mem a = h.mem a ∨
      ∃ d, PageAligned d ∧ ¬ Used h.pmm d ∧ a = physToVirt d := by
  have halloc := pmmAllocFrame_result h.pmm
  rw [largeAlloc, if_neg hpages, takeFrame]
  dsimp only
  generalize pmmAllocFrame h.pmm = frame at halloc ⊢
  cases halloc with
  | none => exact .inl rfl
  | frame pmm' d hd haligned _ hfresh _ =>
    rw [if_neg hd]
    have hrest := takeFrames_mem ((numPages size).toNat - 1)
      { h with pmm := pmm', held := if d = 0#64 then h.held else d :: h.held }
    generalize takeFrames _ ((numPages size).toNat - 1) = rest at hrest ⊢
    split
    · by_cases ha : a = physToVirt d
      · exact .inr ⟨d, haligned, hfresh, ha⟩
      · refine .inl ?_
        change Function.update rest.1.mem _ _ a = _
        rw [Function.update_of_ne ha, hrest]
    · exact .inl (by rw [hrest])

/-- A large block starts in a frame that was free. -/
theorem largeAlloc_fresh (h : HeapState) {size : U64} (hpages : numPages size ≠ 0#64)
    (hne : (largeAlloc h size).2 ≠ 0#64) :
    ¬ Used h.pmm (pageOf ((largeAlloc h size).2 - kernelVma)) := by
  have halloc := pmmAllocFrame_result h.pmm
  rw [largeAlloc, if_neg hpages, takeFrame] at hne ⊢
  dsimp only at hne ⊢
  generalize pmmAllocFrame h.pmm = frame at halloc hne ⊢
  generalize takeFrames _ ((numPages size).toNat - 1) = rest at hne ⊢
  cases halloc with
  | none => exact absurd rfl hne
  | frame pmm' d hd haligned _ hfresh _ =>
    rw [if_neg hd] at hne ⊢
    cases hrest : rest.2 with
    | false =>
      rw [if_neg (by simp [hrest])] at hne
      exact absurd rfl hne
    | true =>
      have hpage : pageOf (physToVirt d + 8#64 - kernelVma) = d := by
        have hoff : physToVirt d + 8#64 - kernelVma = d + 8#64 := by
          unfold physToVirt
          bv_omega
        rw [hoff]
        exact pageOf_cell haligned (by decide)
      rw [if_pos rfl, hpage]
      exact hfresh

end Heap
