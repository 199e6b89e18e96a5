import NamelessOS.FramesTaken
import NamelessOS.ProcessMemory

/-!
# The frames of a program image

While `sys_execve` builds the new image, every page it maps is a frame it has
just taken; so frames that belong to others (`held`) are neither tables nor
pages of the new image (`Building`).  The frames of the old image other than
its tables are such frames: they stay in use, and nothing refers to them any
more.
-/

namespace Vmm

open Pmm WordMemory PageTree

/-- The address space maps a page to frame `p`. -/
def Maps (m : Memory) (root p : U64) : Prop :=
  ∃ va, UserAddress va ∧ PageMapped m root va ∧ pteAddr (userLeaf m root va) = p

variable {d flags : U64}

theorem pteAddr_leafEntry (hd : d &&& pteAddrMask = d)
    (hflags : flags &&& pteAddrMask = 0#64) : pteAddr (leafEntry d flags) = d := by
  have hpresent : ptePresent &&& pteAddrMask = 0#64 := by decide
  unfold pteAddr leafEntry
  grind [BitVec.and_or_distrib_right]

/-- A tree whose tables did not change maps the same frames. -/
theorem Agree.maps_iff {m m' : Memory} {r p : U64} (h : Agree format 3 m m' r)
    (hr : PageAligned r) : Maps m' r p ↔ Maps m r p := by
  have hleaf : ∀ va, UserAddress va → userLeaf m' r va = userLeaf m r va := fun va hva =>
    h.leaf_eq hr (vaIndex_inRange hva)
  constructor
  · intro hmaps
    obtain ⟨va, hva, hm, hp⟩ := hmaps
    exact ⟨va, hva, (Agree.mapped_iff h hr hva).mp hm, hleaf va hva ▸ hp⟩
  · intro hmaps
    obtain ⟨va, hva, hm, hp⟩ := hmaps
    exact ⟨va, hva, (Agree.mapped_iff h hr hva).mpr hm, (hleaf va hva).symm ▸ hp⟩

/-- An address space under construction: it uses none of the frames of
others. -/
structure Building (vm : Vm) (live : List U64) (held : U64 → Prop) (root : U64) : Prop where
  spaces : UserSpaces vm live held (fun _ _ => True)
  mem : root ∈ live
  maps : ∀ p, held p → ¬ Maps vm.mem root p

variable {vm vm' : Vm} {live : List U64} {held held' : U64 → Prop} {root : U64}

theorem Building.create (h : UserSpaces vm live held (fun _ _ => True)) (boot : U64)
    (hne : (vmmCreateUserPml4 boot vm).2 ≠ 0#64) :
    Building (vmmCreateUserPml4 boot vm).1 (live ++ [(vmmCreateUserPml4 boot vm).2]) held
      (vmmCreateUserPml4 boot vm).2 := by
  obtain ⟨-, hspaces, hempty⟩ := (h.create boot).2 hne
  refine ⟨hspaces, List.mem_append_right _ (List.mem_singleton.mpr rfl), ?_⟩
  intro p _ hmaps
  obtain ⟨va, hva, hm, -⟩ := hmaps
  exact hempty va hva hm

variable {fill : U64 → Memory → U64 → Memory}

/-- A frame is taken, filled and mapped, or could not be mapped. -/
theorem Building.page (h : Building vm live held root)
    (hfill : FillsFrame fill) {virt : U64} (hvirt : UserHalf virt)
    (hflags : flags &&& pteAddrMask = 0#64) {pmm' : PmmState}
    (halloc : AllocResult vm.pmm (pmm', d)) (hne : d ≠ 0#64) :
    Building (vmmMapUserPage { pmm := pmm', mem := fill virt vm.mem d } root virt d flags).1 live
      held root := by
  cases halloc with
  | none => exact absurd rfl hne
  | frame _ _ _ haligned hmask hfresh hused =>
    have hout : ∀ x, pageOf x ≠ d → fill virt vm.mem d x = vm.mem x :=
      fun x hx => hfill virt vm.mem d x haligned hx
    generalize fill virt vm.mem d = m at hout ⊢
    have htaken := h.spaces.take { pmm := pmm', mem := m } haligned hfresh hused hout
    have hagree : Agree format 3 vm.mem m root := fun x hx => hout x (fun heq =>
      hfresh (heq ▸ h.spaces.forest.table_used ⟨root, h.mem, hx⟩))
    have haligned_root := (h.spaces.forest.tree root h.mem).aligned
    refine ⟨(htaken.map h.mem hvirt d flags (fun _ _ _ => trivial)).mono (fun p hp => .inl hp)
      (fun _ _ _ _ _ ha => ha), h.mem, ?_⟩
    intro p hp hmaps
    obtain ⟨va, hva, hm, hframe⟩ := hmaps
    rw [vmmMapUserPage_eq] at hm hframe
    have hleaf := (mapPath_spec (leafEntry d flags) (htaken.forest.tree root h.mem)
      (inRange_of_userHalf hvirt)).2 _ (vaIndex_inRange hva)
    unfold PageMapped at hm
    unfold userLeaf at hm hframe
    rw [hleaf] at hm hframe
    split at hframe
    · -- the page itself: its frame was free
      rw [pteAddr_leafEntry hmask hflags] at hframe
      exact hfresh (hframe ▸ (h.spaces.held p hp).2.1)
    · rename_i hother
      rw [if_neg hother] at hm
      exact h.maps p hp ((Agree.maps_iff hagree haligned_root).mp ⟨va, hva, hm, hframe⟩)

theorem Building.mapNewPages (h : Building vm live held root) (hfill : FillsFrame fill)
    (hflags : flags &&& pteAddrMask = 0#64) {vas : List U64} (hvas : ∀ va ∈ vas, UserHalf va)
    (hdone : (mapNewPages fill root flags vas vm).2 = true) :
    Building (mapNewPages fill root flags vas vm).1 live held root := by
  induction vas generalizing vm with
  | nil => exact h
  | cons virt vas ih =>
    rw [Vmm.mapNewPages] at hdone ⊢
    have halloc := pmmAllocFrame_result vm.pmm
    generalize pmmAllocFrame vm.pmm = frame at halloc hdone ⊢
    dsimp only at hdone ⊢
    split at hdone
    · cases hdone
    · rename_i hne
      rw [if_neg hne]
      have hpage := h.page hfill (hvas virt List.mem_cons_self) hflags halloc hne
      generalize vmmMapUserPage { pmm := frame.1, mem := fill virt vm.mem frame.2 } root virt
        frame.2 flags = r at hpage hdone ⊢
      split at hdone
      · cases hdone
      grind

end Vmm

namespace Elf

open Vmm Pmm

variable {vm : Vm} {live : List U64} {held : U64 → Prop} {root : U64}

/-- Segment flags leave the address bits alone. -/
theorem pteFlags_mask (ph : Phdr) : ph.pteFlags &&& pteAddrMask = 0#64 := by
  unfold Phdr.pteFlags
  split
  · split <;> decide
  · split <;> decide

theorem loadSegments_building {f : File} (hpages : ∀ va ∈ f.pages, UserHalf va) {is : List Nat}
    (his : ∀ i ∈ is, i < f.hdr.ePhnum.toNat) {loaded : Nat} (h : Building vm live held root)
    (hdone : (loadSegments f root is loaded vm).2 ≠ none) :
    Building (loadSegments f root is loaded vm).1 live held root := by
  induction is generalizing loaded vm with
  | nil => exact h
  | cons i is ih =>
    have hrest := fun j hj => his j (List.mem_cons_of_mem i hj)
    rw [loadSegments] at hdone ⊢
    by_cases htype : (f.phdr i).pType ≠ ptLoad
    · rw [if_pos htype] at hdone ⊢
      exact ih hrest h hdone
    · rw [if_neg htype] at hdone ⊢
      have hseg : (elfLoadSegment f (f.phdr i) root vm).2 = true →
          Building (elfLoadSegment f (f.phdr i) root vm).1 live held root := by
        unfold elfLoadSegment
        split
        · exact fun _ => h
        · rename_i hmemsz
          split
          · exact fun _ => h
          · refine h.mapNewPages (fillPage_fillsFrame f _) (pteFlags_mask _) (fun va hva => ?_)
            refine hpages va (List.mem_flatMap.mpr
              ⟨i, List.mem_range.mpr (his i List.mem_cons_self), ?_⟩)
            rwa [if_pos ⟨not_not.mp htype, hmemsz⟩]
      grind

/-- **A program that was loaded** lies in frames of its own. -/
theorem elfLoad_building {f : File} (hpages : ∀ va ∈ f.pages, UserHalf va)
    (h : Building vm live held root) (hdone : (elfLoad f root vm).2 ≠ none) :
    Building (elfLoad f root vm).1 live held root := by
  unfold elfLoad at hdone ⊢
  split at hdone
  · rename_i hcheck
    rw [if_pos hcheck]
    have hload : (loadSegments f root (List.range f.hdr.ePhnum.toNat) 0 vm).2 ≠ none →
        Building (loadSegments f root (List.range f.hdr.ePhnum.toNat) 0 vm).1 live held root :=
      loadSegments_building hpages (fun i hi => List.mem_range.mp hi) h
    generalize loadSegments f root (List.range f.hdr.ePhnum.toNat) 0 vm = r at hload hdone ⊢
    dsimp only at hdone ⊢
    cases hr : r.2 with
    | none =>
      rw [hr] at hdone
      exact absurd rfl hdone
    | some loaded =>
      have hend := hload (by rw [hr]; exact Option.some_ne_none _)
      dsimp only
      split
      · exact hend
      · exact hend
  · exact absurd rfl hdone

end Elf

namespace Process

open ByteOrder Vmm Pmm WordMemory PageTree

variable {η : Type} {K : Kernel η} {vm : Vm} {live : List U64} {held : U64 → Prop} {root : U64}

theorem mapUserStack_building {is : List Nat} (his : ∀ i ∈ is, i < execUstackPages)
    (h : Building vm live held root) (hdone : (mapUserStack root is vm).2 = true) :
    Building (mapUserStack root is vm).1 live held root := by
  induction is generalizing vm with
  | nil => exact h
  | cons i is ih =>
    have huser : ∀ i < execUstackPages,
        UserAddress (execUstackTop - BitVec.ofNat 64 (execUstackPages - i) * pageSize) := by
      decide
    have hvirt := userHalf_of_userAddress (huser i (his i List.mem_cons_self))
    rw [mapUserStack] at hdone ⊢
    have halloc := pmmAllocFrame_result vm.pmm
    generalize pmmAllocFrame vm.pmm = frame at halloc hdone ⊢
    split at hdone
    · cases hdone
    · rename_i hne
      rw [if_neg hne]
      exact ih (fun j hj => his j (List.mem_cons_of_mem i hj))
        (h.page zeroPage_fillsFrame hvirt (by decide) halloc hne) hdone

variable {entry : U64}

/-- **The new image** lies in frames that nobody held. -/
theorem buildImage_building (h : UserSpaces vm live held (fun _ _ => True)) {f : Elf.File}
    (hpages : ∀ va ∈ f.pages, UserHalf va) (hdone : (K.buildImage f vm).2 = .ok (root, entry)) :
    Building (K.buildImage f vm).1 (live ++ [root]) held root := by
  unfold Kernel.buildImage at hdone ⊢
  have hcreate := Building.create h K.bootPml4
  generalize Vmm.vmmCreateUserPml4 K.bootPml4 vm = new at hcreate hdone ⊢
  dsimp only at hdone ⊢
  by_cases hz : new.2 = 0#64
  · rw [if_pos hz] at hdone
    cases hdone
  · rw [if_neg hz] at hdone ⊢
    have hload := Elf.elfLoad_building hpages (hcreate hz)
    generalize Elf.elfLoad f new.2 new.1 = loaded at hload hdone ⊢
    cases hentry : loaded.2 with
    | none =>
      rw [hentry] at hdone
      cases hdone
    | some e =>
      have hstack := mapUserStack_building
        (fun i (hi : i ∈ List.range execUstackPages) => List.mem_range.mp hi)
        (hload (by rw [hentry]; exact Option.some_ne_none _))
      grind

/-! ## A successful `sys_execve` -/

/-- The memory in which the new kernel stack is allocated: the new image is
there, the old address space is gone. -/
def Kernel.replaced (K : Kernel η) (f : Elf.File) (s : Mem η) (old : U64) : Mem η :=
  let vm := (K.buildImage f s.vm).1
  { s with vm := if old ≠ 0#64 then vmmDestroyUserPml4 vm old else vm }

variable {s : Mem η} {path : Option Path} {t : Table} {cur : Slot}

/-- How a call that enters the new program got there. -/
theorem sysExecve_entered
    (hcur : t.current = some cur) (h : (K.sysExecve s t path).2.2 = .entered entry) :
    ∃ f root, K.findElf path = some f ∧ (K.buildImage f s.vm).2 = .ok (root, entry) ∧
      let stack := K.heap.kmalloc (K.replaced f s (t.proc cur).pml4Phys) kstackSize
      stack.2 ≠ 0#64 ∧ (K.sysExecve s t path).1 = stack.1 ∧ (K.sysExecve s t path).2.1.proc cur =
          { t.proc cur with pml4Phys := root, mmapNext := 0#64, kstack := stack.2 } := by
  unfold Kernel.sysExecve at h ⊢
  cases hfind : K.findElf path with
  | none =>
    rw [hfind] at h
    cases h
  | some f =>
    rw [hcur]
    refine ⟨f, ?_⟩
    unfold Kernel.replaced
    unfold Mem.lift at h ⊢
    grind [Table.modify_self]

/-- The frame in which a kernel stack starts. -/
def stackFrame (p : Proc) : U64 := pageOf (p.kstack - kernelVma)

/-- The frames of a process: its tables, the pages that no other address space
maps, and its kernel stack. -/
def OwnFrame (m : Memory) (live : List U64) (proc : Proc) (p : U64) : Prop :=
  (proc.pml4Phys ≠ 0#64 ∧ (Frames format 3 m proc.pml4Phys p ∨
    (Maps m proc.pml4Phys p ∧ ∀ r ∈ live, r ≠ proc.pml4Phys → ¬ Maps m r p))) ∨
    p = stackFrame proc

/-- **The new image takes the place of the old one**: the frames in use after
the call are those before it without the old process's, the new process's, and
the further frames of its kernel stack. -/
def ExecReplaces (K : Kernel η) (live : List U64) (cur : Slot) (s : Mem η) (t : Table)
    (s' : Mem η) (t' : Table) : Prop :=
  ∀ p, PageAligned p → (Used s'.vm.pmm p ↔
    (Used s.vm.pmm p ∧ ¬ OwnFrame s.vm.mem live (t.proc cur) p) ∨
      OwnFrame s'.vm.mem live (t'.proc cur) p ∨
      (K.heap.frames s'.heap p ∧ ¬ K.heap.frames s.heap p))

/-- What is used of `kmalloc` here: it gives no frame back, and a kernel stack
starts in a frame that was free. -/
structure KernelHeap.TakesFrames (H : KernelHeap η) : Prop where
  keeps : ∀ s n, KeepsUsed s.vm.pmm (H.kmalloc s n).1.vm.pmm
  stack : ∀ s, (H.kmalloc s kstackSize).2 ≠ 0#64 →
    ¬ Used s.vm.pmm (pageOf ((H.kmalloc s kstackSize).2 - kernelVma))

/-- The old address space is given back under the new image. -/
theorem replaced_building {f : Elf.File} {old root : U64} {held : U64 → Prop}
    (h : UserSpaces s.vm live held (fun _ _ => True)) (hold : old ≠ 0#64 → old ∈ live)
    (hpages : ∀ va ∈ f.pages, UserHalf va) (hbuilt : (K.buildImage f s.vm).2 = .ok (root, entry)) :
    ∃ live', Building (K.replaced f s old).vm live' held root := by
  have hbuilding := buildImage_building h hpages hbuilt
  unfold Kernel.replaced
  dsimp only
  split
  · rename_i hne
    refine ⟨(live ++ [root]).erase old, ?_, ?_, ?_⟩
    · exact hbuilding.spaces.destroy (List.mem_append_left _ (hold hne))
    · rw [List.erase_append_left _ (hold hne)]
      exact List.mem_append_right _ (List.mem_singleton.mpr rfl)
    · rw [vmmDestroyUserPml4_mem]
      exact hbuilding.maps
  · exact ⟨live ++ [root], hbuilding⟩

variable {own : U64 → Prop}

/-- Allocating the kernel stack leaves the image alone. -/
theorem HeapOnly.building {H : KernelHeap η} {s' : Mem η} {root : U64}
    (honly : HeapOnly H.frames s s')
    (h : Building s.vm live (fun q => H.frames s.heap q ∨ own q) root) (hkeeps : KeepsUsed s.vm.pmm s'.vm.pmm) :
    Building s'.vm live own root := by
  have htable : ∀ x, Vmm.Table s.vm.mem live (pageOf x) → s'.vm.mem x = s.vm.mem x := by
    intro x hx
    apply honly.mem x (h.spaces.forest.table_used hx)
    intro hframe
    exact (h.spaces.held _ (.inl hframe)).2.2 hx
  refine ⟨h.spaces.congr (fun p hp hu _ => hkeeps.kept p hp hu) htable (fun _ hp => .inl (.inr hp)),
    h.mem, ?_⟩
  intro p hp hmaps
  have hagree : Agree format 3 s.vm.mem s'.vm.mem root := fun x hx => htable x ⟨root, h.mem, hx⟩
  exact h.maps p (.inr hp)
    ((Agree.maps_iff hagree (h.spaces.forest.tree root h.mem).aligned).mp hmaps)

/-- **Only tables are given back.**  A frame in use that is no table when a
process calls `sys_execve` is still in use when the new program starts, and is
none of its frames. -/
theorem sysExecve_abandons (hheap : K.heap.TakesFrames) (hcur : t.current = some cur)
    (hspaces : UserSpaces s.vm live (fun q => K.heap.frames s.heap q ∨ own q) (fun _ _ => True))
    (hroot : (t.proc cur).pml4Phys ≠ 0#64 → (t.proc cur).pml4Phys ∈ live)
    (hpages : ∀ f, K.findElf path = some f → ∀ va ∈ f.pages, UserHalf va)
    (hdone : (K.sysExecve s t path).2.2 = .entered entry) {p : U64} (hp : own p) :
    let r := K.sysExecve s t path
    Used r.1.vm.pmm p ∧ ¬ OwnFrame r.1.vm.mem live (r.2.1.proc cur) p ∧
      (K.heap.frames r.1.heap p → K.heap.frames s.heap p) := by
  obtain ⟨f, root, hfind, hbuilt, hne, hmem, hproc⟩ := sysExecve_entered hcur hdone
  obtain ⟨live', hbuilding⟩ := replaced_building hspaces hroot (hpages f hfind) hbuilt
  have hheap_eq : (K.replaced f s (t.proc cur).pml4Phys).heap = s.heap := rfl
  generalize K.replaced f s (t.proc cur).pml4Phys = s₁ at *
  rw [← hheap_eq] at hbuilding
  have honly := K.heap.kmalloc_only s₁ kstackSize
  have hkeeps := hheap.keeps s₁ kstackSize
  have hfresh := hheap.stack s₁ hne
  obtain ⟨haligned, hused, -⟩ := hbuilding.spaces.held p (.inr hp)
  have hafter := honly.building hbuilding hkeeps
  dsimp only
  rw [hmem, hproc, ← hheap_eq]
  refine ⟨hkeeps.kept p haligned hused, ?_, ?_⟩
  · intro hown
    cases hown with
    | inl himage =>
      obtain ⟨-, htable | hmaps⟩ := himage
      · exact (hafter.spaces.held p hp).2.2 ⟨root, hafter.mem, htable⟩
      · exact hafter.maps p hp hmaps.1
    | inr hstack =>
      rw [hstack] at hused
      exact hfresh hused
  · intro hframe
    obtain ⟨-, -, hold | hfree⟩ := honly.frames p hframe
    · exact hold
    · exact absurd hused hfree

/-- So the old frames other than tables are not replaced. -/
theorem not_execReplaces (hheap : K.heap.TakesFrames) (hcur : t.current = some cur)
    (hspaces : UserSpaces s.vm live (fun q => K.heap.frames s.heap q ∨ own q) (fun _ _ => True))
    (hroot : (t.proc cur).pml4Phys ≠ 0#64 → (t.proc cur).pml4Phys ∈ live)
    (hpages : ∀ f, K.findElf path = some f → ∀ va ∈ f.pages, UserHalf va)
    (hdone : (K.sysExecve s t path).2.2 = .entered entry) {p : U64} (hp : own p)
    (hown : OwnFrame s.vm.mem live (t.proc cur) p) :
    ¬ ExecReplaces K live cur s t (K.sysExecve s t path).1 (K.sysExecve s t path).2.1 := by
  intro hreplaces
  obtain ⟨hused, hout, hframes⟩ := sysExecve_abandons hheap hcur hspaces hroot hpages hdone hp
  rcases (hreplaces p (hspaces.held p (.inr hp)).1).mp hused with hkept | hnew | hstack
  · exact hkept.2 hown
  · exact hout hnew
  · exact hstack.2 (hframes hstack.1)

end Process
