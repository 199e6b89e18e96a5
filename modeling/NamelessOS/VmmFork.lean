import NamelessOS.VmmClone

/-!
# Forking an address space and resolving a write fault

`vmm_fork_pml4` meets the contract of the clone functions at the top level: a
failed fork is undone by `vmm_destroy_user_pml4`, which frees only frames of
the half-built copy.  `cow_handle` is described by its outcome: nothing
happens, or the faulting entry moves to a fresh copy of its page.
-/

namespace Vmm

open Pmm WordMemory PageTree List
open Function (update update_of_ne update_self)

variable {k : Nat} {s s' : Vm} {src dst : U64}

/-! ## The new PML4 -/

theorem shareKernelHalf_outside (m : Memory) (hdst : PageAligned dst) {x : U64}
    (hx : pageOf x ≠ dst) : shareKernelHalf m src dst x = m x := by
  have hzero : fillZero m dst 2048 x = m x := fillZero_outside m hdst (by omega) hx
  refine foldlRecOn (motive := fun m' : Memory => m' x = m x) _ _ hzero ?_
  grind [update_of_ne, pageOf_slot]

/-- The user half starts empty. -/
theorem shareKernelHalf_user (m : Memory) (hdst : PageAligned dst) {i : Nat} (hi : i < 256) :
    shareKernelHalf m src dst (slot dst i) = 0#64 := by
  have hzero : fillZero m dst 2048 (slot dst i) = 0#64 := fillZero_cell m dst (by omega) (by omega)
  refine foldlRecOn (motive := fun m' : Memory => m' (slot dst i) = 0#64) _ _ hzero ?_
  intro m' hm' j hj
  rw [mem_range] at hj
  rw [update_of_ne]
  · exact hm'
  · intro heq
    have := ((slot_inj hdst hdst (by omega) (by omega)).mp heq).2
    omega

/-- The kernel half is the source's. -/
theorem shareKernelHalf_kernel (m : Memory) (hsrc : PageAligned src) (hdst : PageAligned dst)
    (hne : src ≠ dst) {i : Nat} (hlow : 256 ≤ i) (hi : i < 512) :
    shareKernelHalf m src dst (slot dst i) = m (slot src i) := by
  have hkept : fillZero m dst 2048 (slot src i) = m (slot src i) :=
    fillZero_outside m hdst (by omega) (by rwa [pageOf_slot hsrc hi])
  have hloop : ∀ n ≤ 256, ∀ m₀ : Memory,
      (∀ j < n, (range n).foldl (fun m i => update m (slot dst (256 + i))
        (m (slot src (256 + i)))) m₀ (slot dst (256 + j)) = m₀ (slot src (256 + j))) ∧
      ∀ x, pageOf x ≠ dst → (range n).foldl (fun m i => update m (slot dst (256 + i))
        (m (slot src (256 + i)))) m₀ x = m₀ x := by
    intro n hn m₀
    induction n with
    | zero => exact ⟨fun j hj => absurd hj (Nat.not_lt_zero j), fun _ _ => rfl⟩
    | succ n ih =>
      obtain ⟨hin, hout⟩ := ih (by omega)
      rw [range_succ, foldl_append]
      dsimp only [foldl_cons, foldl_nil]
      constructor
      · intro j hj
        by_cases hjn : j = n
        · subst hjn
          rw [update_self]
          exact hout _ (by rwa [pageOf_slot hsrc (by omega)])
        · grind [update_of_ne, slot_inj]
      grind [update_of_ne, pageOf_slot]
  have hin := (hloop 256 le_rfl (fillZero m dst 2048)).1 (i - 256) (by omega)
  rw [show 256 + (i - 256) = i by omega] at hin
  exact hin.trans hkept

/-! ## Destroying a tree -/

/-- `s'` is `s` with some frames freed, and `p` not among them. -/
def FreedOthers (s s' : Vm) (p : U64) : Prop := s'.mem = s.mem ∧ Used s'.pmm p

variable {p pml4 pte : U64}

theorem FreedOthers.free {a : U64} (h : FreedOthers s s' p) (hp : PageAligned p)
    (ha : PageAligned a) (hne : a ≠ p) : FreedOthers s (s'.free a) p :=
  ⟨h.1, h.2.free (fun heq => hne (frameOf_inj hp ha heq).symm)⟩

/-- `free_user_pdpt` frees tables of the tree only. -/
theorem freeUserPdpt_freed {pdpt : U64} (h : FreedOthers s s' p) (hp : PageAligned p)
    (hpdpt : PageAligned pdpt) (hout : ¬ Frames format 2 s.mem pdpt p) :
    FreedOthers s (freeUserPdpt s' pdpt) p := by
  refine FreedOthers.free ?_ hp hpdpt (fun heq => hout (heq ▸ frames_root _ _ _))
  refine foldlRecOn (motive := fun t => FreedOthers s t p) _ _ h ?_
  intro t ht i hi
  dsimp only
  rw [ht.1]
  split
  · exact ht
  · rename_i hcond
    rw [Bool.or_eq_true, not_or, Bool.not_eq_true', Bool.not_eq_false] at hcond
    have hci : HasChild format 2 s.mem pdpt i := ⟨mem_range.mp hi, hcond.1⟩
    refine FreedOthers.free ?_ hp (pageAligned_pteAddr _)
      (fun heq => hout (heq ▸ (frames_root _ _ _).child hci))
    refine foldlRecOn (motive := fun t => FreedOthers s t p) _ _ ht ?_
    intro t' ht' j hj
    rw [ht'.1]
    split
    · exact ht'
    · rename_i hcond'
      rw [Bool.or_eq_true, not_or, Bool.not_eq_true', Bool.not_eq_false] at hcond'
      have hcj : HasChild format 1 s.mem (child format s.mem pdpt i) j :=
        ⟨mem_range.mp hj, hcond'.1⟩
      exact ht'.free hp (pageAligned_pteAddr _)
        (fun heq => hout (heq ▸ ((frames_root _ _ _).child hcj).child hci))

/-- `vmm_destroy_user_pml4` frees tables of the tree only. -/
theorem vmmDestroyUserPml4_freed (hp : PageAligned p) (hpml4 : PageAligned pml4)
    (hused : Used s.pmm p) (hout : ¬ Frames format 3 s.mem pml4 p) :
    FreedOthers s (vmmDestroyUserPml4 s pml4) p := by
  refine FreedOthers.free ?_ hp hpml4 (fun heq => hout (heq ▸ frames_root _ _ _))
  refine foldlRecOn (motive := fun t => FreedOthers s t p) _ _ ⟨rfl, hused⟩ ?_
  intro t ht i hi
  dsimp only
  rw [ht.1]
  split
  · exact ht
  · rename_i hcond
    rw [Bool.not_eq_true', Bool.not_eq_false] at hcond
    have hci : HasChild format 3 s.mem pml4 i := ⟨mem_range.mp hi, hcond⟩
    exact freeUserPdpt_freed ht hp (pageAligned_pteAddr _) (fun hmem => hout (hmem.child hci))

/-! ## Fork -/

/-- The loop of `vmm_fork_pml4` over the user half. -/
theorem fork_progress {s₁ : Vm} (htree : Tree 3 s src) (hprep : Prepared s s₁ dst) :
    ∃ done, Progress 2 s₁ (cloneEntries (fun _ => false) cowClonePdpt src dst (range 256) s₁).1
        src dst done ∧
      ((cloneEntries (fun _ => false) cowClonePdpt src dst (range 256) s₁).2 = true →
        ∀ i < format.fanout 3, i ∈ done) := by
  have hfanout : format.fanout (2 + 1) = 256 := rfl
  obtain ⟨done, hprog, hall⟩ := cloneEntries_progress (fun _ => false) cowClonePdpt_clones
    (hprep.loopStart htree) (fun _ _ => rfl) (range 256)
    (fun i hi => hfanout ▸ mem_range.mp hi) nodup_range
    (fun _ _ hmem => by cases hmem) (Progress.start _ src dst) (fun _ _ _ => Agree.refl _ _ _ _)
  exact ⟨done, hprog, fun hok i hi => hall hok i (.inl (mem_range.mpr (hfanout ▸ hi)))⟩

/-- A half-built child has fresh frames only: entries not reached are still
zero. -/
theorem fork_fresh {s₁ s₂ : Vm} {done : List Nat} (hprep : Prepared s s₁ dst)
    (huser : ∀ i < 256, s₁.mem (slot dst i) = 0#64) (hprog : Progress 2 s₁ s₂ src dst done)
    {a : U64} (ha : Frames format 3 s₂.mem dst a) : ¬ Used s.pmm a := by
  have hfanout : format.fanout (2 + 1) = 256 := rfl
  rcases ha with rfl | ⟨i, hi, ha⟩
  · exact hprep.fresh
  · by_cases hdone : i ∈ done
    · exact (hprog.fresh hprep hdone hi ha).1
    · have hzero := (hprog.pending i hi.lt hdone).trans (huser i (hfanout ▸ hi.1))
      have hp := hi.2
      rw [hzero] at hp
      exact absurd hp (by decide)

/-- **`vmm_fork_pml4` clones the user half.** -/
theorem vmmForkPml4_clones : Clones 3 vmmForkPml4 := by
  intro s src htree
  unfold vmmForkPml4
  have halloc := pmmAllocFrame_result s.pmm
  generalize pmmAllocFrame s.pmm = r at halloc
  cases halloc with
  | none pmm' hkeep =>
    dsimp only
    rw [if_pos rfl]
    exact ⟨⟨fun p _ hu => hkeep p hu, fun x _ => .inl rfl⟩, fun h => absurd rfl h⟩
  | frame pmm' d hne haligned hmask hfresh hused =>
    dsimp only
    rw [if_neg hne]
    have hout : ∀ x, pageOf x ≠ d → shareKernelHalf s.mem src d x = s.mem x :=
      fun x hx => shareKernelHalf_outside s.mem haligned hx
    have huser : ∀ i < 256, shareKernelHalf s.mem src d (slot d i) = 0#64 :=
      fun i hi => shareKernelHalf_user s.mem haligned hi
    generalize shareKernelHalf s.mem src d = m₀ at hout huser
    have hprep : Prepared s { pmm := pmm', mem := m₀ } d := ⟨haligned, hfresh, hused, hout⟩
    obtain ⟨done, hprog, hall⟩ := fork_progress htree hprep
    generalize cloneEntries (fun _ => false) cowClonePdpt src d (range 256)
      { pmm := pmm', mem := m₀ } = c at hprog hall
    have htouch := hprog.touches hprep htree
    by_cases hok : c.2 = true
    · rw [if_pos hok]
      exact ⟨htouch, fun _ => ⟨hmask, haligned, hprog.completed hprep htree (hall hok)⟩⟩
    · rw [if_neg hok]
      have hnew : ∀ a, Frames format 3 c.1.mem d a → ¬ Used s.pmm a :=
        fun a ha => fork_fresh hprep huser hprog ha
      have hfreed : ∀ p, PageAligned p → Used s.pmm p →
          FreedOthers c.1 (vmmDestroyUserPml4 c.1 d) p := fun p hp hu =>
        vmmDestroyUserPml4_freed hp haligned (htouch.kept p hp hu) (fun hmem => hnew p hmem hu)
      refine ⟨⟨fun p hp hu => (hfreed p hp hu).2, fun x hx => ?_⟩, fun h => absurd rfl h⟩
      rw [(hfreed _ (pageAligned_pageOf x) hx).1]
      exact htouch.mem x hx

/-- The child's kernel half is the parent's. -/
theorem vmmForkPml4_kernelHalf (htree : Tree 3 s src) (hok : (vmmForkPml4 s src).2 ≠ 0#64) {i : Nat}
    (hlow : 256 ≤ i) (hi : i < 512) :
    (vmmForkPml4 s src).1.mem (slot (vmmForkPml4 s src).2 i) = s.mem (slot src i) := by
  unfold vmmForkPml4 at hok ⊢
  have halloc := pmmAllocFrame_result s.pmm
  generalize pmmAllocFrame s.pmm = r at halloc hok ⊢
  cases halloc with
  | none pmm' hkeep => exact absurd rfl hok
  | frame pmm' d hne haligned hmask hfresh hused =>
    rw [if_neg hne] at hok ⊢
    have hout : ∀ x, pageOf x ≠ d → shareKernelHalf s.mem src d x = s.mem x :=
      fun x hx => shareKernelHalf_outside s.mem haligned hx
    have hsrcd : src ≠ d := fun h => hfresh (h ▸ htree.used src (frames_root _ _ _))
    have hkernel := shareKernelHalf_kernel s.mem htree.aligned haligned hsrcd hlow hi
    generalize shareKernelHalf s.mem src d = m₀ at hout hkernel hok ⊢
    have hprep : Prepared s { pmm := pmm', mem := m₀ } d := ⟨haligned, hfresh, hused, hout⟩
    obtain ⟨done, hprog, -⟩ := fork_progress htree hprep
    generalize cloneEntries (fun _ => false) cowClonePdpt src d (range 256)
      { pmm := pmm', mem := m₀ } = c at hprog hok ⊢
    by_cases hc : c.2 = true
    · rw [if_pos hc]
      refine (hprog.pending i hi (fun hdone => ?_)).trans hkernel
      have hfanout : format.fanout (2 + 1) = 256 := rfl
      have hlt := hprog.bounded i hdone
      omega
    · rw [if_neg hc] at hok
      exact absurd rfl hok

/-! ## Resolving a write fault -/

/-- The entry after the page was copied to `d`. -/
def privateEntry (e d : U64) : U64 := (e &&& ~~~(pteAddrMask ||| pteCow)) ||| d ||| pteWrite

theorem and_of_masked {d mask : U64} (hd : d &&& pteAddrMask = d) (hmask : pteAddrMask &&& mask = 0#64)
    (hw : pteWrite &&& mask = 0#64) : (d ||| pteWrite) &&& mask = 0#64 := by
  rw [← hd]
  apply BitVec.eq_of_getLsbD_eq
  intro i hi
  grind

section
variable {e d : U64} (hd : d &&& pteAddrMask = d)
include hd

theorem has_privateEntry {mask : U64} (ha : mask &&& (pteAddrMask ||| pteCow) = 0#64)
    (hm : pteAddrMask &&& mask = 0#64) (hw : pteWrite &&& mask = 0#64) :
    has (privateEntry e d) mask = has e mask := by
  unfold privateEntry
  rw [BitVec.or_assoc]
  exact has_update_other ha (and_of_masked hd hm hw)

theorem privateEntry_addr : pteAddr (privateEntry e d) = d := by
  unfold privateEntry pteAddr
  rw [BitVec.or_assoc, update_and_cleared (by decide)]
  have hsplit : (d ||| pteWrite) &&& pteAddrMask = (d &&& pteAddrMask) ||| (pteWrite &&& pteAddrMask) := by
    ext i hi
    simp [Bool.and_or_distrib_right]
  rw [hsplit, hd, show pteWrite &&& pteAddrMask = 0#64 by decide, BitVec.or_zero]

omit hd in
theorem privateEntry_write : has (privateEntry e d) pteWrite = true := by
  unfold privateEntry has
  rw [BitVec.or_assoc, update_and_set]
  · decide
  · ext i hi
    simp
    tauto

end

/-- **What `cow_handle` does** to the entry at `pte`: it refuses, finds no
frame, or moves the page to a frame of its own. -/
inductive CowOutcome (s : Vm) (pte : U64) : Vm × Bool → Prop
  | refused (hnot : has (s.mem pte) ptePresent = false ∨ has (s.mem pte) pteCow = false) :
      CowOutcome s pte (s, false)
  | full (pmm' : PmmState) (hkeep : ∀ p, Used s.pmm p → Used pmm' p)
      (hnone : (pmmAllocFrame s.pmm).2 = 0#64) : CowOutcome s pte ({ s with pmm := pmm' }, false)
  | copied (s' : Vm) (d : U64) (hp : has (s.mem pte) ptePresent = true)
      (hcow : has (s.mem pte) pteCow = true) (haligned : PageAligned d)
      (hmask : d &&& pteAddrMask = d) (hfresh : ¬ Used s.pmm d)
      (hused : ∀ p, PageAligned p → (Used s'.pmm p ↔ Used s.pmm p ∨ p = d))
      (hentry : s'.mem pte = privateEntry (s.mem pte) d)
      (hpage : ∀ j < 512, s'.mem (slot d j) = s.mem (slot (pteAddr (s.mem pte)) j))
      (hother : ∀ x, x ≠ pte → pageOf x ≠ d → s'.mem x = s.mem x) : CowOutcome s pte (s', true)

theorem cowCopy_outcome (hpte : Used s.pmm (pageOf pte))
    (hdata : has (s.mem pte) ptePresent = true → Used s.pmm (pteAddr (s.mem pte))) :
    CowOutcome s pte (cowCopy s pte) := by
  unfold cowCopy
  by_cases hp : has (s.mem pte) ptePresent = true
  · by_cases hcow : has (s.mem pte) pteCow = true
    · simp only [hp, hcow, Bool.not_true, Bool.or_self, Bool.false_eq_true, if_false]
      have halloc := pmmAllocFrame_result s.pmm
      generalize hr : pmmAllocFrame s.pmm = r at halloc
      cases halloc with
      | none pmm' hkeep =>
        rw [if_pos rfl]
        exact .full pmm' hkeep (by rw [hr])
      | frame pmm' d hne haligned hmask hfresh hused =>
        rw [if_neg hne]
        have hsd : pteAddr (s.mem pte) ≠ d := fun heq => hfresh (heq ▸ hdata hp)
        have hpd : pageOf pte ≠ d := fun heq => hfresh (heq ▸ hpte)
        obtain ⟨hin, hout⟩ := copyWords_page s.mem haligned (pageAligned_pteAddr _) hsd
          (n := ptEntries) le_rfl
        generalize copyWords s.mem d (pteAddr (s.mem pte)) ptEntries = m at hin hout
        refine .copied _ d hp hcow haligned hmask hfresh hused ?_ ?_ ?_
        · show update m pte _ pte = _
          rw [update_self, hout pte hpd]
          rfl
        · intro j hj
          show update m pte _ (slot d j) = _
          rw [update_of_ne]
          · exact hin j hj
          · intro heq
            exact hpd (by rw [← heq, pageOf_slot haligned hj])
        · grind
    · rw [Bool.not_eq_true] at hcow
      simp only [hp, hcow, Bool.not_true, Bool.not_false, Bool.or_true, if_true]
      exact .refused (.inr hcow)
  · rw [Bool.not_eq_true] at hp
    simp only [hp, Bool.not_false, Bool.true_or, if_true]
    exact .refused (.inl hp)

/-- The handler finds the entry that the processor's walk ends at. -/
theorem cowHandle_eq {va : U64} {es : List U64} (htree : Tree 3 s pml4)
    (hix : InRange format 3 (vaIndex va))
    (hwalk : walk format 3 s.mem pml4 (vaIndex va) = some (es, pte)) :
    cowHandle s pml4 va = cowCopy s pte := by
  obtain ⟨hp3, es₂, -, hwalk⟩ := walk_succ hwalk
  obtain ⟨hp2, es₁, -, hwalk⟩ := walk_succ hwalk
  obtain ⟨hp1, es₀, -, hwalk⟩ := walk_succ hwalk
  have hsmall3 := htree.small (vaPml4Idx va) ⟨hix 3 (by decide), hp3⟩
  have hsmall2 := hsmall3.2 (vaPdptIdx va) ⟨hix 2 (by decide), hp2⟩
  have hsmall1 := hsmall2.2 (vaPdtIdx va) ⟨hix 1 (by decide), hp1⟩
  have hhuge2 := hsmall2.1 (by decide)
  have hhuge1 := hsmall1.1 (by decide)
  cases hwalk
  have hchild : ∀ t i, pteAddr (s.mem (slot t i)) = child format s.mem t i := fun _ _ => rfl
  change has (s.mem (slot pml4 (vaPml4Idx va))) ptePresent = true at hp3
  change has (s.mem (slot (child format s.mem pml4 (vaPml4Idx va)) (vaPdptIdx va))) ptePresent =
    true at hp2
  change has (s.mem (slot (child format s.mem (child format s.mem pml4 (vaPml4Idx va))
    (vaPdptIdx va)) (vaPdtIdx va))) ptePresent = true at hp1
  unfold cowHandle
  simp only [hchild, hp3, hp2, hp1, hhuge2, hhuge1, Bool.not_true, Bool.false_or, Bool.false_eq_true,
    if_false]
  rfl

end Vmm
