import NamelessOS.AddressSpaceLife

/-!
# Which pages are mapped where

An upper bound on what is mapped in each address space (`UserSpaces.within`), kept
together with the forest of tables and with frames that belong to others
(`held`: the heap's, and pages not yet mapped).  Each VMM operation keeps the
bound; only `vmm_map_user_page` needs that its own page is allowed.
-/

namespace Vmm

open Pmm WordMemory PageTree

/-- The page of `va` is mapped. -/
def PageMapped (m : Memory) (root va : U64) : Prop := has (userLeaf m root va) ptePresent = true

structure UserSpaces (vm : Vm) (live : List U64) (held : U64 → Prop) (allowed : U64 → U64 → Prop) :
    Prop where
  forest : Forest vm live
  held : ∀ p, held p → PageAligned p ∧ Used vm.pmm p ∧ ¬ Table vm.mem live p
  within : ∀ r ∈ live, ∀ va, UserAddress va → PageMapped vm.mem r va → allowed r va

variable {vm vm' : Vm} {live : List U64} {held held' : U64 → Prop} {allowed allowed' : U64 → U64 → Prop}
  {r d : U64}

theorem UserSpaces.mono (h : UserSpaces vm live held allowed) (hheld : ∀ p, held' p → held p)
    (hallowed : ∀ r ∈ live, ∀ va, UserAddress va → PageMapped vm.mem r va → allowed r va → allowed' r va) :
    UserSpaces vm live held' allowed' where
  forest := h.forest
  held p hp := h.held p (hheld p hp)
  within r hr va hva hm := hallowed r hr va hva hm (h.within r hr va hva hm)

variable {va : U64}

/-- A tree whose tables did not change maps what it mapped. -/
theorem Agree.mapped_iff {m m' : Memory} (h : Agree format 3 m m' r) (hr : PageAligned r)
    (hva : UserAddress va) : PageMapped m' r va ↔ PageMapped m r va := by
  unfold PageMapped userLeaf
  rw [h.leaf_eq hr (vaIndex_inRange hva)]

section

variable (h : UserSpaces vm live held allowed)
include h

/-- What leaves the tables alone keeps the bound. -/
theorem UserSpaces.congr
    (hused : ∀ p, PageAligned p → Used vm.pmm p → Table vm.mem live p ∨ held' p → Used vm'.pmm p)
    (hmem : ∀ x, Table vm.mem live (pageOf x) → vm'.mem x = vm.mem x)
    (hheld : ∀ p, held' p → held p ∨ (PageAligned p ∧ Used vm'.pmm p ∧ ¬ Table vm.mem live p)) :
    UserSpaces vm' live held' allowed := by
  obtain ⟨hforest, htables⟩ := h.forest.congr vm'
    (fun a ha => hused a (h.forest.table_aligned ha) (h.forest.table_used ha) (.inl ha)) hmem
  refine ⟨hforest, fun p hp => ?_, fun r hr va hva hm => ?_⟩
  · rw [htables]
    grind [held]
  · have hagree : Agree format 3 vm.mem vm'.mem r := fun x hx => hmem x ⟨r, hr, hx⟩
    exact h.within r hr va hva ((Agree.mapped_iff hagree (h.forest.tree r hr).aligned hva).mp hm)

/-! ## Frames -/

theorem UserSpaces.of_pmm {pmm' : PmmState} (hkeep : ∀ p, Used vm.pmm p → Used pmm' p) :
    UserSpaces { vm with pmm := pmm' } live held allowed :=
  h.congr (fun p _ hu _ => hkeep p hu) (fun _ _ => rfl) (fun _ hp => .inl hp)

/-- A frame is taken and written. -/
theorem UserSpaces.take (vm' : Vm) (haligned : PageAligned d) (hfresh : ¬ Used vm.pmm d)
    (hused : ∀ p, PageAligned p → (Used vm'.pmm p ↔ Used vm.pmm p ∨ p = d))
    (hmem : ∀ x, pageOf x ≠ d → vm'.mem x = vm.mem x) :
    UserSpaces vm' live (fun p => held p ∨ p = d) allowed := by
  have hout : ¬ Table vm.mem live d := fun hd => hfresh (h.forest.table_used hd)
  grind [congr]

end

/-! ## Tables -/

section

variable (h : UserSpaces vm live held allowed)
include h

/-- What others hold survives every operation on the tables. -/
theorem UserSpaces.of_change {s' : Life} (hchange : Change ⟨vm, live, []⟩ s')
    (hwithin : ∀ r ∈ s'.live, ∀ va, UserAddress va → PageMapped s'.vm.mem r va → allowed r va) :
    UserSpaces s'.vm s'.live held allowed where
  forest := hchange.forest
  held p hp := by
    obtain ⟨haligned, hu, hout⟩ := h.held p hp
    refine ⟨haligned, hchange.kept p haligned hu hout, fun ht => ?_⟩
    exact (hchange.tables p ht).elim hout (fun hfresh => hfresh hu)
  within := hwithin

/-- **A page is mapped.** -/
theorem UserSpaces.map (hr : r ∈ live) {virt : U64} (hvirt : UserHalf virt) (phys flags : U64)
    (hallow : ∀ va, UserAddress va → SamePage va virt → allowed r va) :
    UserSpaces (vmmMapUserPage vm r virt phys flags).1 live held allowed := by
  have hix := inRange_of_userHalf hvirt
  rw [vmmMapUserPage_eq]
  obtain ⟨hext, hleaf⟩ := mapPath_spec (leafEntry phys flags) (h.forest.tree r hr) hix
  refine h.of_change (map_change (s := ⟨vm, live, []⟩) h.forest hr hext) ?_
  intro r' hr' va hva hm
  by_cases hne : r' = r
  · subst hne
    unfold PageMapped userLeaf at hm
    rw [hleaf _ (vaIndex_inRange hva)] at hm
    split at hm
    · rename_i hsame
      exact hallow va hva hsame.2
    · exact h.within r' hr va hva hm
  · unfold PageMapped at hm
    rw [h.forest.other_leaf hr hext hr' hne (userHalf_of_userAddress hva)] at hm
    exact h.within r' hr' va hva hm

/-- **An address space is created**, with nothing mapped. -/
theorem UserSpaces.create (boot : U64) :
    let r := vmmCreateUserPml4 boot vm
    (r.2 = 0#64 → UserSpaces r.1 live held allowed) ∧
      (r.2 ≠ 0#64 → r.2 ∉ live ∧ UserSpaces r.1 (live ++ [r.2]) held allowed ∧
        ∀ va, UserAddress va → ¬ PageMapped r.1.mem r.2 va) := by
  have hchange := create_change (s := ⟨vm, live, []⟩) boot h.forest
  unfold vmmCreateUserPml4 at hchange ⊢
  have halloc := pmmAllocFrame_result vm.pmm
  dsimp only at hchange ⊢
  generalize pmmAllocFrame vm.pmm = res at halloc hchange
  cases halloc with
  | none pmm' hkeep =>
    dsimp only
    rw [if_pos rfl]
    exact ⟨fun _ => h.of_pmm hkeep, fun hne => absurd rfl hne⟩
  | frame pmm' d hne haligned hmask hfresh hused =>
    rw [if_neg hne] at hchange ⊢
    rw [Life.add, if_neg hne] at hchange
    have hzero : format.present 0#64 = false := by decide
    have hout : ∀ x, pageOf x ≠ d → shareKernelHalf vm.mem boot d x = vm.mem x :=
      fun x hx => shareKernelHalf_outside vm.mem haligned hx
    have hblank : Blank format 3 (shareKernelHalf vm.mem boot d) d :=
      fun i hi => shareKernelHalf_user vm.mem haligned hi
    generalize shareKernelHalf vm.mem boot d = m at hout hblank hchange
    have hnew : d ∉ live := fun hd =>
      hfresh (h.forest.table_used ⟨d, hd, frames_root _ _ _⟩)
    have hempty : ∀ va, UserAddress va → ¬ PageMapped m d va := by
      intro va hva hm
      unfold PageMapped userLeaf at hm
      rw [hblank.leaf_eq hzero (vaIndex_inRange hva)] at hm
      exact absurd hm (by decide)
    refine ⟨fun h0 => absurd h0 hne, fun _ => ⟨hnew, h.of_change hchange ?_, hempty⟩⟩
    intro r hr va hva hm
    rcases List.mem_append.mp hr with hr | hr
    · have hagree : Agree format 3 vm.mem m r := by
        refine fun x hx => hout x (fun heq => hfresh ?_)
        exact heq ▸ h.forest.table_used ⟨r, hr, hx⟩
      exact h.within r hr va hva
        ((Agree.mapped_iff hagree (h.forest.tree r hr).aligned hva).mp hm)
    · obtain rfl := List.mem_singleton.mp hr
      exact absurd hm (hempty va hva)

theorem UserSpaces.destroy (hr : r ∈ live) :
    UserSpaces (vmmDestroyUserPml4 vm r) (live.erase r) held allowed := by
  refine h.of_change (destroy_change (s := ⟨vm, live, []⟩) h.forest hr) ?_
  grind [within, vmmDestroyUserPml4_mem]

end

end Vmm
