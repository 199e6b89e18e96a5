import NamelessOS.Runs
import NamelessOS.UserMemory
import NamelessOS.VmmTeardown

/-!
# Address spaces over their lifetime

Runs of `vmm_create_user_pml4`, `vmm_map_user_page`, `vmm_fork_pml4` and
`vmm_destroy_user_pml4`, in any order and on any address spaces that are alive,
with frames taken from the PMM for data in between.  `Change` collects what
every such step does: tables of the address spaces that are alive change,
appear in free frames or go; everything else in use stays.  From it follow the
isolation of mappings and the exactness of the teardown.
-/

namespace Vmm

open Pmm WordMemory PageTree Runs List

/-- The machine with the PML4s that are alive; `data` are the frames handed out
for data. -/
structure Life where
  vm : Vm
  live : List U64
  data : List U64

inductive LifeOp
  | create
  | map (root virt phys flags : U64)
  | fork (root : U64)
  | destroy (root : U64)
  | alloc

/-- A function that returns a new PML4, or 0, has returned. -/
def Life.add (s : Life) (r : Vm × U64) : Life :=
  if r.2 = 0#64 then { s with vm := r.1 } else { s with vm := r.1, live := s.live ++ [r.2] }

/-- A frame for data. -/
def Life.allocData (s : Life) (r : PmmState × U64) : Life :=
  { s with vm := { s.vm with pmm := r.1 }
           data := if r.2 = 0#64 then s.data else r.2 :: s.data }

/-- One operation; `boot` is the kernel's PML4. -/
def Life.step (boot : U64) (s : Life) : LifeOp → Life
  | .create => s.add (vmmCreateUserPml4 boot s.vm)
  | .map root virt phys flags => { s with vm := (vmmMapUserPage s.vm root virt phys flags).1 }
  | .fork root => s.add (vmmForkPml4 s.vm root)
  | .destroy root => { s with vm := vmmDestroyUserPml4 s.vm root, live := s.live.erase root }
  | .alloc => s.allocData (pmmAllocFrame s.vm.pmm)

/-- The operation is on an address space that is alive and a user-half
address. -/
def OnLive (s : Life) : LifeOp → Prop
  | .map root virt _ _ => root ∈ s.live ∧ UserHalf virt
  | .fork root => root ∈ s.live
  | .destroy root => root ∈ s.live
  | _ => True

/-- Nothing is alive yet. -/
def Life.start (s₀ : Vm) : Life := ⟨s₀, [], []⟩

/-! ## What one operation does -/

/-- **What every operation does** to tables, frames and memory. -/
structure Change (s s' : Life) : Prop where
  forest : Forest s'.vm s'.live
  kept : ∀ p, PageAligned p → Used s.vm.pmm p → ¬ Table s.vm.mem s.live p → Used s'.vm.pmm p
  mem : ∀ x, Used s.vm.pmm (pageOf x) → ¬ Table s.vm.mem s.live (pageOf x) →
    s'.vm.mem x = s.vm.mem x
  tables : ∀ a, Table s'.vm.mem s'.live a → Table s.vm.mem s.live a ∨ ¬ Used s.vm.pmm a
  data : ∀ f ∈ s'.data, f ∈ s.data ∨
    (PageAligned f ∧ Used s'.vm.pmm f ∧ ¬ Table s'.vm.mem s'.live f)

variable {s : Life} {boot r : U64}

/-- A failed allocation. -/
theorem Change.of_pmm (h : Forest s.vm s.live) {pmm' : PmmState}
    (hkeep : ∀ p, Used s.vm.pmm p → Used pmm' p) :
    Change s { s with vm := { s.vm with pmm := pmm' } } where
  forest := (h.congr { s.vm with pmm := pmm' } (fun _ ha => hkeep _ (h.table_used ha)) (fun _ _ => rfl)).1
  kept p _ hu _ := hkeep p hu
  mem _ _ _ := rfl
  tables _ ha := .inl ha
  data _ hf := .inl hf

theorem table_append {m : Memory} {procs : List U64} {d a : U64} :
    Table m (procs ++ [d]) a ↔ Table m procs a ∨ Frames format 3 m d a := by
  constructor
  · rintro ⟨r, hr, ha⟩
    rcases mem_append.mp hr with hr | hr
    · exact .inl ⟨r, hr, ha⟩
    · obtain rfl := mem_singleton.mp hr
      exact .inr ha
  · rintro (⟨r, hr, ha⟩ | ha)
    · exact ⟨r, mem_append_left _ hr, ha⟩
    · exact ⟨d, mem_append_right _ (mem_singleton.mpr rfl), ha⟩

theorem create_change (boot : U64) (h : Forest s.vm s.live) :
    Change s (s.add (vmmCreateUserPml4 boot s.vm)) := by
  unfold vmmCreateUserPml4
  have halloc := pmmAllocFrame_result s.vm.pmm
  generalize pmmAllocFrame s.vm.pmm = r at halloc
  cases halloc with
  | none pmm' hkeep =>
    rw [if_pos rfl, Life.add, if_pos rfl]
    exact .of_pmm h hkeep
  | frame pmm' d hne haligned hmask hfresh hused =>
    rw [if_neg hne, Life.add, if_neg hne]
    have hout : ∀ x, pageOf x ≠ d → shareKernelHalf s.vm.mem boot d x = s.vm.mem x :=
      fun x hx => shareKernelHalf_outside s.vm.mem haligned hx
    have hblank : Blank format 3 (shareKernelHalf s.vm.mem boot d) d :=
      fun i hi => shareKernelHalf_user s.vm.mem haligned hi
    generalize shareKernelHalf s.vm.mem boot d = m at hout hblank
    have hprep : Prepared s.vm { pmm := pmm', mem := m } d := ⟨haligned, hfresh, hused, hout⟩
    have hold := h.congr { pmm := pmm', mem := m }
      (fun a ha => (hused a (h.table_aligned ha)).mpr (.inl (h.table_used ha)))
      (fun x hx => hout x (fun heq => hfresh (heq ▸ h.table_used hx)))
    refine ⟨h.created hprep hblank, fun p hp hu _ => (hused p hp).mpr (.inl hu), ?_, ?_,
      fun _ hf => .inl hf⟩
    · exact fun x hu _ => hout x (fun heq => hfresh (heq ▸ hu))
    · intro a ha
      rcases table_append.mp ha with ha | ha
      · exact .inl ((hold.2 a).mp ha)
      · rw [hblank.frames_iff (by decide)] at ha
        exact .inr (ha ▸ hfresh)

section

variable (h : Forest s.vm s.live) (hr : r ∈ s.live)
include h hr

theorem map_change {vm : Vm} (hext : Extends 3 s.vm vm r) : Change s { s with vm := vm } where
  forest := (h.grown hr hext).1
  kept p hp hu _ := hext.kept p hp hu
  mem x hu hout := hext.mem x hu (fun hf => hout ⟨r, hr, hf⟩)
  tables := (h.grown hr hext).2
  data _ hf := .inl hf

theorem fork_change : Change s (s.add (vmmForkPml4 s.vm r)) := by
  obtain ⟨htouch, hok⟩ := vmmForkPml4_clones s.vm r (h.tree r hr)
  generalize vmmForkPml4 s.vm r = res at htouch hok
  have hleaves := h.forked_leaves hr htouch
  have hmem : ∀ x, Used s.vm.pmm (pageOf x) → ¬ Table s.vm.mem s.live (pageOf x) →
      res.1.mem x = s.vm.mem x := by
    intro x hu hout
    rcases htouch.mem x hu with hsame | ⟨hleaf, -⟩
    · exact hsame
    · exact absurd ⟨r, hr, hleaf.frames⟩ hout
  by_cases hz : res.2 = 0#64
  · rw [Life.add, if_pos hz]
    exact ⟨h.update hleaves htouch.kept, fun p hp hu _ => htouch.kept p hp hu, hmem,
      fun a ha => .inl ((h.table_iff hleaves).mp ha), fun _ hf => .inl hf⟩
  · rw [Life.add, if_neg hz]
    obtain ⟨-, hd, hcloned⟩ := hok hz
    refine ⟨h.forked hr htouch hcloned hd, fun p hp hu _ => htouch.kept p hp hu, hmem, ?_,
      fun _ hf => .inl hf⟩
    intro a ha
    rcases table_append.mp ha with ha | ha
    · exact .inl ((h.table_iff hleaves).mp ha)
    · exact .inr (hcloned.fresh a ha).1

/-- A table of the other address spaces is not a table of this one. -/
theorem table_erase {a : U64} (ha : Table s.vm.mem (s.live.erase r) a) :
    Table s.vm.mem s.live a ∧ ¬ Frames format 3 s.vm.mem r a := by
  obtain ⟨r', hr', ha⟩ := ha
  have hmem := mem_of_mem_erase hr'
  refine ⟨⟨r', hmem, ha⟩, fun ha' => ?_⟩
  obtain rfl := h.root_unique hmem hr ha ha'
  exact h.nodup.not_mem_erase hr'

theorem destroy_change :
    Change s { s with vm := vmmDestroyUserPml4 s.vm r, live := s.live.erase r } := by
  have hfreed : ∀ p, PageAligned p → Used s.vm.pmm p → ¬ Frames format 3 s.vm.mem r p →
      FreedOthers s.vm (vmmDestroyUserPml4 s.vm r) p :=
    fun p hp hu hout => vmmDestroyUserPml4_freed hp (h.tree r hr).aligned hu hout
  have hmem := vmmDestroyUserPml4_mem s.vm r
  have herase : Forest s.vm (s.live.erase r) :=
    ⟨fun r' hr' => h.tree r' (mem_of_mem_erase hr'), h.apart.sublist erase_sublist⟩
  have hforest := herase.congr (vmmDestroyUserPml4 s.vm r)
    (fun a ha => by
      obtain ⟨hold, hout⟩ := table_erase h hr ha
      exact (hfreed a (h.table_aligned hold) (h.table_used hold) hout).2)
    (fun x _ => by rw [hmem])
  refine ⟨hforest.1, ?_, ?_, ?_, fun _ hf => .inl hf⟩
  · exact fun p hp hu hout => (hfreed p hp hu (fun hf => hout ⟨r, hr, hf⟩)).2
  · exact fun x _ _ => by rw [hmem]
  · exact fun a ha => .inl (table_erase h hr ((hforest.2 a).mp ha)).1

end

theorem alloc_change (h : Forest s.vm s.live) : Change s (s.allocData (pmmAllocFrame s.vm.pmm)) := by
  unfold Life.allocData
  have halloc := pmmAllocFrame_result s.vm.pmm
  generalize pmmAllocFrame s.vm.pmm = r at halloc
  cases halloc with
  | none pmm' hkeep =>
    rw [if_pos rfl]
    exact .of_pmm h hkeep
  | frame pmm' d hne haligned hmask hfresh hused =>
    rw [if_neg hne]
    refine ⟨(h.congr { s.vm with pmm := pmm' }
      (fun a ha => (hused a (h.table_aligned ha)).mpr (.inl (h.table_used ha)))
      (fun _ _ => rfl)).1, fun p hp hu _ => (hused p hp).mpr (.inl hu), fun _ _ _ => rfl,
      fun _ ha => .inl ha, ?_⟩
    grind [Forest.table_used]

/-- **What one operation can do.** -/
theorem step_change (boot : U64) (h : Forest s.vm s.live) {op : LifeOp} (hop : OnLive s op) :
    Change s (s.step boot op) := by
  cases op with
  | create => exact create_change boot h
  | map root virt phys flags =>
    refine map_change h hop.1 ?_
    rw [vmmMapUserPage_eq]
    exact (mapPath_spec _ (h.tree root hop.1) (inRange_of_userHalf hop.2)).1
  | fork root => exact fork_change h hop
  | destroy root => exact destroy_change h hop
  | alloc => exact alloc_change h

theorem forest_start (s₀ : Vm) : Forest (Life.start s₀).vm (Life.start s₀).live :=
  ⟨fun _ hr => absurd hr not_mem_nil, List.Pairwise.nil⟩

/-! ## Mapping a page -/

/-- The entry that the walk of a page ends at; 0 where a table is missing. -/
def userLeaf (m : Memory) (root va : U64) : U64 := leaf format 3 m root (vaIndex va)

/-- Two addresses in one page. -/
def SamePage (va va' : U64) : Prop := ∀ j ≤ 3, vaIndex va j = vaIndex va' j

/-- The leaves of another address space do not change. -/
theorem Forest.other_leaf {vm vm' : Vm} {procs : List U64} {root root' va : U64}
    (h : Forest vm procs) (hroot : root ∈ procs) (hext : Extends 3 vm vm' root)
    (hroot' : root' ∈ procs) (hne : root' ≠ root) (hva : UserHalf va) :
    userLeaf vm'.mem root' va = userLeaf vm.mem root' va := by
  have hagree := hext.agree (h.tree root' hroot')
    (fun a ha ha' => hne (h.root_unique hroot' hroot ha ha'))
  exact hagree.leaf_eq (h.tree root' hroot').aligned (inRange_of_userHalf hva)

/-- **A call of `vmm_map_user_page` that keeps address spaces apart**: it changes
the leaf of its page to the new entry if it returns 0, and no leaf of any
address space otherwise. -/
def MapsOnly (s : Life) (root virt entry : U64) (r : Vm × Int) : Prop :=
  (r.2 = 0 → userLeaf r.1.mem root virt = entry ∧
    ∀ root' ∈ s.live, ∀ va, UserHalf va → ¬ (root' = root ∧ SamePage va virt) →
      userLeaf r.1.mem root' va = userLeaf s.vm.mem root' va) ∧
  (r.2 ≠ 0 → r.2 = -1 ∧ ∀ root' ∈ s.live, ∀ va, UserHalf va →
    userLeaf r.1.mem root' va = userLeaf s.vm.mem root' va)

/-- Mapping in a forest changes the leaf of the page alone. -/
theorem Forest.mapsOnly {s : Life} {root virt : U64} (hforest : Forest s.vm s.live)
    (phys flags : U64) (hroot : root ∈ s.live) (hvirt : UserHalf virt) :
    MapsOnly s root virt ((phys &&& pteAddrMask) ||| flags ||| ptePresent)
      (vmmMapUserPage s.vm root virt phys flags) := by
  have hix := inRange_of_userHalf hvirt
  obtain ⟨hext, hleaf⟩ := mapPath_spec (leafEntry phys flags) (hforest.tree root hroot) hix
  have hresult := mapPath_result (leafEntry phys flags) 3 s.vm root (vaIndex virt)
  rw [vmmMapUserPage_eq]
  refine ⟨fun hret => ⟨?_, fun root' hroot' va hva hother => ?_⟩, fun hret =>
    ⟨hresult.resolve_left hret, fun root' hroot' va hva => ?_⟩⟩
  · exact (hleaf (vaIndex virt) hix).trans (if_pos ⟨hret, fun _ _ => rfl⟩)
  · by_cases hne : root' = root
    · subst hne
      refine (hleaf (vaIndex va) (inRange_of_userHalf hva)).trans (if_neg ?_)
      exact fun hc => hother ⟨rfl, hc.2⟩
    · exact hforest.other_leaf hroot hext hroot' hne hva
  · by_cases hne : root' = root
    · subst hne
      exact (hleaf (vaIndex va) (inRange_of_userHalf hva)).trans (if_neg (fun hc => hret hc.1))
    · exact hforest.other_leaf hroot hext hroot' hne hva

end Vmm
