import NamelessOS.AddressSpaceLife

/-!
# What a teardown frees

Invariants of the runs of `AddressSpaceLife` from the state the kernel boots
into: the frames in use at boot, the kernel-half tables among them, are never
written and never become tables of an address space; every address space has
the boot PML4's kernel half; frames handed out for data are never tables.  So
`vmm_destroy_user_pml4` frees the tables of its address space, each once, and
nothing else.
-/

namespace Vmm

open Pmm WordMemory PageTree Runs WordBitmap List

/-! ## The kernel half -/

/-- Entries below the kernel half, where large pages end a walk. -/
def kernelFormat : Format where
  present e := has e ptePresent && !has e pteHuge
  addr := pteAddr
  flags e := e &&& ~~~pteAddrMask
  fanout _ := 512
  addr_aligned := pageAligned_pteAddr
  present_flags e e' h := by
    have hpresent : has e ptePresent = has e' ptePresent := has_of_flags (by decide) h
    have hhuge : has e pteHuge = has e' pteHuge := has_of_flags (by decide) h
    rw [hpresent, hhuge]
  fanout_le _ := le_rfl

/-- `a` is a table of the kernel half of `pml4`. -/
def KernelTable (m : Memory) (pml4 a : U64) : Prop :=
  ∃ i, 256 ≤ i ∧ i < 512 ∧ has (m (slot pml4 i)) ptePresent = true ∧
    Frames kernelFormat 2 m (pteAddr (m (slot pml4 i))) a

/-- The kernel half of `r` in `m'` is that of `src` in `m`. -/
def KernelHalf (m : Memory) (src : U64) (m' : Memory) (r : U64) : Prop :=
  ∀ i, 256 ≤ i → i < 512 → m' (slot r i) = m (slot src i)

/-- The state the kernel boots into: its PML4 and the tables of its kernel half
are in use. -/
structure Booted (boot : U64) (s₀ : Vm) : Prop where
  aligned : PageAligned boot
  used : Used s₀.pmm boot
  kernel : ∀ a, KernelTable s₀.mem boot a → Used s₀.pmm a

variable {s : Life} {boot r : U64} {s₀ : Vm}

theorem KernelHalf.of_agree {m m' : Memory} (hr : PageAligned r)
    (h : ∀ x, pageOf x = r → m' x = m x) : KernelHalf m r m' r :=
  fun _ _ hi => h _ (pageOf_slot hr hi)

variable {src : U64}

/-- A page that is a table is the root of one tree only. -/
theorem Forest.root_not_leafTable {vm : Vm} {procs : List U64} {r : U64} (h : Forest vm procs)
    (hr : r ∈ procs) (hsrc : src ∈ procs) : ¬ LeafTable format 3 vm.mem src r := by
  intro hleaf
  obtain rfl := h.root_unique hr hsrc (frames_root _ _ _) hleaf.frames
  exact (h.tree r hr).separate.root_not_leafTable hleaf

theorem create_kernelHalf (h : Forest s.vm s.live) (hboot : PageAligned boot)
    (hused : Used s.vm.pmm boot) (hr : r ∈ (s.add (vmmCreateUserPml4 boot s.vm)).live) :
    ∃ src, (src = boot ∨ src ∈ s.live) ∧
      KernelHalf s.vm.mem src (s.add (vmmCreateUserPml4 boot s.vm)).vm.mem r := by
  unfold vmmCreateUserPml4 at hr ⊢
  have halloc := pmmAllocFrame_result s.vm.pmm
  generalize pmmAllocFrame s.vm.pmm = res at halloc hr ⊢
  cases halloc with
  | none pmm' hkeep => exact ⟨r, .inr hr, fun _ _ _ => rfl⟩
  | frame pmm' d hne haligned hmask hfresh hused' =>
    have hout : ∀ x, pageOf x ≠ d → shareKernelHalf s.vm.mem boot d x = s.vm.mem x :=
      fun x hx => shareKernelHalf_outside s.vm.mem haligned hx
    have hkernel : KernelHalf s.vm.mem boot (shareKernelHalf s.vm.mem boot d) d :=
      fun i hlow hi => shareKernelHalf_kernel s.vm.mem hboot haligned
        (fun heq => hfresh (heq ▸ hused)) hlow hi
    dsimp only at hr ⊢
    generalize shareKernelHalf s.vm.mem boot d = m at hout hkernel hr ⊢
    rw [if_neg hne, Life.add, if_neg hne] at hr ⊢
    rcases mem_append.mp hr with hr | hr
    · refine ⟨r, .inr hr, KernelHalf.of_agree (h.tree r hr).aligned (fun x hx => ?_)⟩
      refine hout x (fun heq => hfresh ?_)
      rw [← heq, hx]
      exact (h.tree r hr).used r (frames_root _ _ _)
    · obtain rfl := mem_singleton.mp hr
      exact ⟨boot, .inl rfl, hkernel⟩

theorem fork_kernelHalf (h : Forest s.vm s.live) (hsrc : src ∈ s.live)
    (hr : r ∈ (s.add (vmmForkPml4 s.vm src)).live) : ∃ src', src' ∈ s.live ∧
      KernelHalf s.vm.mem src' (s.add (vmmForkPml4 s.vm src)).vm.mem r := by
  have htree := h.tree src hsrc
  obtain ⟨htouch, -⟩ := vmmForkPml4_clones s.vm src htree
  have hchild : (vmmForkPml4 s.vm src).2 ≠ 0#64 → KernelHalf s.vm.mem src
      (vmmForkPml4 s.vm src).1.mem (vmmForkPml4 s.vm src).2 :=
    fun hok i hlow hi => vmmForkPml4_kernelHalf htree hok hlow hi
  generalize vmmForkPml4 s.vm src = res at htouch hchild hr ⊢
  have hold : r ∈ s.live → KernelHalf s.vm.mem r res.1.mem r := by
    intro hr
    refine KernelHalf.of_agree (h.tree r hr).aligned (fun x hx => ?_)
    have hu := (h.tree r hr).used r (frames_root _ _ _)
    rcases htouch.mem x (hx ▸ hu) with hsame | ⟨hleaf, -⟩
    · exact hsame
    · exact absurd (hx ▸ hleaf) (h.root_not_leafTable hr hsrc)
  grind [Life.add]

variable {op : LifeOp}

/-- Every PML4 after an operation has the kernel half that the boot PML4 or one
that was alive had before. -/
theorem step_kernelHalf (h : Forest s.vm s.live) (hboot : PageAligned boot)
    (hused : Used s.vm.pmm boot) (hop : OnLive s op)
    (hr : r ∈ (s.step boot op).live) : ∃ src, (src = boot ∨ src ∈ s.live) ∧
      KernelHalf s.vm.mem src (s.step boot op).vm.mem r := by
  cases op <;> rw [Life.step] at hr ⊢
  case create => exact create_kernelHalf h hboot hused hr
  case map root virt phys flags =>
      have hext := (mapPath_spec (leafEntry phys flags) (h.tree root hop.1)
        (inRange_of_userHalf hop.2)).1
      refine ⟨r, .inr hr, ?_⟩
      by_cases hne : r = root
      · subst hne
        exact hext.beyond
      · refine KernelHalf.of_agree (h.tree r hr).aligned (fun x hx => ?_)
        refine hext.mem x ?_ ?_ <;> rw [hx]
        · exact (h.tree r hr).used r (frames_root _ _ _)
        · exact fun hf => hne (h.root_unique hr hop.1 (frames_root _ _ _) hf)
  case fork root =>
      obtain ⟨src, hsrc, hhalf⟩ := fork_kernelHalf h hop hr
      exact ⟨src, .inr hsrc, hhalf⟩
  case destroy root =>
      have hmem := vmmDestroyUserPml4_mem s.vm root
      generalize vmmDestroyUserPml4 s.vm root = vm at hmem hr ⊢
      exact ⟨r, .inr (mem_of_mem_erase hr), fun _ _ _ => congrFun hmem _⟩
  case alloc =>
      generalize pmmAllocFrame s.vm.pmm = res at hr ⊢
      exact ⟨r, .inr hr, fun _ _ _ => rfl⟩

/-! ## What a run keeps -/

/-- **The invariant** of the runs from `s₀`. -/
structure Kept (boot : U64) (s₀ : Vm) (s : Life) : Prop where
  forest : Forest s.vm s.live
  reserved : ∀ p, PageAligned p → Used s₀.pmm p → Used s.vm.pmm p ∧ ¬ Table s.vm.mem s.live p
  mem : ∀ x, Used s₀.pmm (pageOf x) → s.vm.mem x = s₀.mem x
  data : ∀ f ∈ s.data, PageAligned f ∧ Used s.vm.pmm f ∧ ¬ Table s.vm.mem s.live f
  kernel : ∀ r ∈ s.live, KernelHalf s₀.mem boot s.vm.mem r

/-- A frame in use that is no table stays so. -/
theorem Change.untouched {s' : Life} (h : Change s s') {p : U64} (hp : PageAligned p)
    (hused : Used s.vm.pmm p) (hnot : ¬ Table s.vm.mem s.live p) :
    Used s'.vm.pmm p ∧ ¬ Table s'.vm.mem s'.live p := by
  grind [kept, tables]

theorem Kept.step (h : Kept boot s₀ s) (hboot : Booted boot s₀) (hop : OnLive s op) :
    Kept boot s₀ (s.step boot op) := by
  have hchange := step_change boot h.forest hop
  refine ⟨hchange.forest, fun p hp hu => ?_, fun x hu => ?_, fun f hf => ?_, fun r hr => ?_⟩
  · obtain ⟨hused, hnot⟩ := h.reserved p hp hu
    exact hchange.untouched hp hused hnot
  · obtain ⟨hused, hnot⟩ := h.reserved _ (pageAligned_pageOf x) hu
    rw [hchange.mem x hused hnot, h.mem x hu]
  · rcases hchange.data f hf with hf | hf
    · obtain ⟨hp, hused, hnot⟩ := h.data f hf
      exact ⟨hp, hchange.untouched hp hused hnot⟩
    · exact hf
  · obtain ⟨src, hsrc, hhalf⟩ := step_kernelHalf h.forest hboot.aligned
      (h.reserved boot hboot.aligned hboot.used).1 hop hr
    intro i hlow hi
    rw [hhalf i hlow hi]
    rcases hsrc with rfl | hsrc
    · exact h.mem _ (by rw [pageOf_slot hboot.aligned hi]; exact hboot.used)
    · exact h.kernel src hsrc i hlow hi

theorem kept_start (boot : U64) (s₀ : Vm) : Kept boot s₀ (Life.start s₀) where
  forest := forest_start s₀
  reserved p _ hu := ⟨hu, fun ht => by
    obtain ⟨r, hr, -⟩ := ht
    exact not_mem_nil hr⟩
  mem _ _ := rfl
  data f hf := absurd hf not_mem_nil
  kernel r hr := absurd hr not_mem_nil

/-- The kernel-half tables of every address space are those of the boot PML4. -/
theorem Kept.kernelTable (h : Kept boot s₀ s) (hboot : Booted boot s₀) (hr : r ∈ s.live) {a : U64}
    (ha : KernelTable s.vm.mem r a) : KernelTable s₀.mem boot a := by
  obtain ⟨i, hlow, hi, hp, ha⟩ := ha
  rw [h.kernel r hr i hlow hi] at hp ha
  have hagree : Agree kernelFormat 2 s₀.mem s.vm.mem (pteAddr (s₀.mem (slot boot i))) :=
    fun x hx => h.mem x (hboot.kernel _ ⟨i, hlow, hi, hp, hx⟩)
  exact ⟨i, hlow, hi, hp, (hagree.frames_iff (pageAligned_pteAddr _)).mp ha⟩

/-! ## Pages that are mapped -/

/-- The mapping is given a frame that was handed out for data. -/
def MapsData (s : Life) : LifeOp → Prop
  | .map _ _ phys flags => pteAddr (leafEntry phys flags) ∈ s.data
  | _ => True

/-- Every page that is mapped has a data frame. -/
def Mapped (s : Life) : Prop :=
  ∀ r ∈ s.live, ∀ ix, InRange format 3 ix → has (leaf format 3 s.vm.mem r ix) ptePresent = true →
    pteAddr (leaf format 3 s.vm.mem r ix) ∈ s.data

/-- What a fork leaves of a leaf entry. -/
def MarkedOr (e e' : U64) : Prop := e' = e ∨ e' = markCow e

theorem MarkedOr.page {e e' : U64} (h : MarkedOr e e') :
    has e' ptePresent = has e ptePresent ∧ pteAddr e' = pteAddr e := by
  rcases h with rfl | rfl
  · exact ⟨rfl, rfl⟩
  · exact ⟨has_markCow (by decide) (by decide), markCow_addr e⟩

/-- After a fork every leaf of the address spaces that were alive is as before or
marked. -/
theorem Forest.forked_leaf {vm vm' : Vm} {procs : List U64} {r : U64} (h : Forest vm procs)
    (hsrc : src ∈ procs) (htouch : Touches 3 vm vm' src) (hr : r ∈ procs) {ix : Nat → Nat}
    (hix : InRange format 3 ix) :
    MarkedOr (leaf format 3 vm.mem r ix) (leaf format 3 vm'.mem r ix) := by
  have hleaves := h.forked_leaves hsrc htouch
  have hrew : Rewritten format MarkedOr 3 vm.mem vm'.mem r := by
    refine Rewritten.of_leaves (h.tree r hr).aligned (h.tree r hr).separate ?_ ?_
    · intro x hx hnot
      refine hleaves x ⟨r, hr, hx⟩ (fun r' hr' hleaf => ?_)
      obtain rfl := h.root_unique hr hr' hx hleaf.frames
      exact hnot hleaf
    · intro b hb i hi
      have hpage := pageOf_slot (hb.frames.aligned (h.tree r hr).aligned)
        (Nat.lt_of_lt_of_le hi (format.fanout_le 0))
      rcases htouch.mem (slot b i) (by rw [hpage]; exact (h.tree r hr).used b hb.frames) with
        hsame | ⟨-, hmark⟩
      · exact .inl hsame
      · exact .inr hmark
  exact hrew.leaf_rel hix (.inl rfl)

section

variable (h : Forest s.vm s.live) (hmapped : Mapped s)
include h hmapped

theorem fork_mapped (hsrc : src ∈ s.live) : Mapped (s.add (vmmForkPml4 s.vm src)) := by
  obtain ⟨htouch, hok⟩ := vmmForkPml4_clones s.vm src (h.tree src hsrc)
  generalize vmmForkPml4 s.vm src = res at htouch hok ⊢
  have hold : ∀ r ∈ s.live, ∀ ix, InRange format 3 ix →
      has (leaf format 3 res.1.mem r ix) ptePresent = true →
      pteAddr (leaf format 3 res.1.mem r ix) ∈ s.data := by
    intro r hr ix hix hp
    obtain ⟨hpresent, haddr⟩ := (h.forked_leaf hsrc htouch hr hix).page
    rw [hpresent] at hp
    rw [haddr]
    exact hmapped r hr ix hix hp
  by_cases hz : res.2 = 0#64
  · rw [Life.add, if_pos hz]
    exact hold
  · rw [Life.add, if_neg hz]
    obtain ⟨-, hd, hcloned⟩ := hok hz
    intro r hr ix hix hp
    rcases mem_append.mp hr with hr | hr
    · exact hold r hr ix hix hp
    · obtain rfl := mem_singleton.mp hr
      have hcopy := hcloned.mirrors.leaf_rel hix (by decide)
      rw [hcopy] at hp ⊢
      obtain ⟨hp, hcow⟩ := childEntry_of_present hp
      rw [hcow, cowEntry_addr]
      exact hmapped src hsrc ix hix hp

theorem create_mapped : Mapped (s.add (vmmCreateUserPml4 boot s.vm)) := by
  unfold vmmCreateUserPml4
  have halloc := pmmAllocFrame_result s.vm.pmm
  generalize pmmAllocFrame s.vm.pmm = res at halloc ⊢
  cases halloc with
  | none pmm' hkeep => exact hmapped
  | frame pmm' d hne haligned hmask hfresh hused' =>
    have hout : ∀ x, pageOf x ≠ d → shareKernelHalf s.vm.mem boot d x = s.vm.mem x :=
      fun x hx => shareKernelHalf_outside s.vm.mem haligned hx
    have hblank : Blank format 3 (shareKernelHalf s.vm.mem boot d) d :=
      fun i hi => shareKernelHalf_user s.vm.mem haligned hi
    dsimp only
    generalize shareKernelHalf s.vm.mem boot d = m at hout hblank ⊢
    rw [if_neg hne, Life.add, if_neg hne]
    intro r hr ix hix hp
    rcases mem_append.mp hr with hr | hr
    · have hagree : Agree format 3 s.vm.mem m r := fun x hx =>
        hout x (fun heq => hfresh (heq ▸ (h.tree r hr).used _ hx))
      rw [hagree.leaf_eq (h.tree r hr).aligned hix] at hp ⊢
      exact hmapped r hr ix hix hp
    · obtain rfl := mem_singleton.mp hr
      rw [hblank.leaf_eq (by decide) hix] at hp
      exact absurd hp (by decide)

theorem map_mapped {root virt phys flags : U64}
    (hroot : root ∈ s.live) (hvirt : UserHalf virt) (hdata : pteAddr (leafEntry phys flags) ∈ s.data) :
    Mapped { s with vm := (vmmMapUserPage s.vm root virt phys flags).1 } := by
  obtain ⟨hext, hleaf⟩ := mapPath_spec (leafEntry phys flags) (h.tree root hroot)
    (inRange_of_userHalf hvirt)
  rw [← vmmMapUserPage_eq] at hext hleaf
  intro r hr ix hix hp
  by_cases hne : r = root
  · subst hne
    have hthis := hleaf ix hix
    split at hthis
    · rw [hthis]
      exact hdata
    · rw [hthis] at hp ⊢
      exact hmapped r hr ix hix hp
  · have hagree := hext.agree (h.tree r hr) (fun a ha ha' => hne (h.root_unique hr hroot ha ha'))
    rw [hagree.leaf_eq (h.tree r hr).aligned hix] at hp ⊢
    exact hmapped r hr ix hix hp

end

theorem Mapped.step (hmapped : Mapped s) (h : Forest s.vm s.live) (hop : OnLive s op)
    (hdata : MapsData s op) : Mapped (s.step boot op) := by
  cases op <;> rw [Life.step]
  case create => exact create_mapped h hmapped
  case map root virt phys flags => exact map_mapped h hmapped hop.1 hop.2 hdata
  case fork root => exact fork_mapped h hmapped hop
  case destroy root =>
      have hmem := vmmDestroyUserPml4_mem s.vm root
      generalize vmmDestroyUserPml4 s.vm root = vm at hmem ⊢
      intro r hr ix hix hp
      rw [hmem] at hp ⊢
      exact hmapped r (mem_of_mem_erase hr) ix hix hp
  case alloc =>
      generalize pmmAllocFrame s.vm.pmm = res
      intro r hr ix hix hp
      have hf := hmapped r hr ix hix hp
      show _ ∈ if res.2 = 0#64 then s.data else res.2 :: s.data
      split
      · exact hf
      · exact mem_cons_of_mem _ hf

/-! ## The teardown -/

/-- **A teardown that frees its own tables**, and leaves `s'`: its `pmm_free_frame` calls are its
tables, each once; exactly their bits are cleared; no kernel-half table, no data
frame and no table of another address space is among them; and no walk
changes. -/
structure FreesOwnTables (s : Life) (root : U64) (s' : Vm) : Prop where
  calls : s' = (destroyCalls s.vm.mem root).foldl Vm.free s.vm
  once : (destroyCalls s.vm.mem root).Nodup
  tables : ∀ a, a ∈ destroyCalls s.vm.mem root ↔ Frames format 3 s.vm.mem root a
  wasUsed : ∀ a ∈ destroyCalls s.vm.mem root, test s.vm.pmm.bitmap (frameOf a) = true
  cleared : ∀ f, test s'.pmm.bitmap f = true ↔
    test s.vm.pmm.bitmap f = true ∧ ∀ a ∈ destroyCalls s.vm.mem root, frameOf a ≠ f
  kernel : ∀ a, KernelTable s.vm.mem root a → a ∉ destroyCalls s.vm.mem root
  data : ∀ a ∈ s.data, a ∉ destroyCalls s.vm.mem root
  others : ∀ root' ∈ s.live, root' ≠ root →
    ∀ a, Frames format 3 s.vm.mem root' a → a ∉ destroyCalls s.vm.mem root
  walks : ∀ root' va, walk format 3 s'.mem root' (vaIndex va) =
      walk format 3 s.vm.mem root' (vaIndex va) ∧
    userLeaf s'.mem root' va = userLeaf s.vm.mem root' va

theorem Kept.freesOwnTables (h : Kept boot s₀ s) (hboot : Booted boot s₀) (hr : r ∈ s.live) :
    FreesOwnTables s r (vmmDestroyUserPml4 s.vm r) := by
  have htree := h.forest.tree r hr
  have hmem := destroyCalls_eq htree
  have htables : ∀ a, a ∈ destroyCalls s.vm.mem r ↔ Frames format 3 s.vm.mem r a := by
    intro a
    rw [hmem, mem_postorder]
  -- tables lie in frames that were free at boot, so the PMM has a bit for each
  have hmanaged : ∀ a ∈ destroyCalls s.vm.mem r, frameOf a < pmmMaxFrames := by
    intro a ha
    rw [htables] at ha
    refine Nat.lt_of_not_le (fun hbig => ?_)
    exact (h.reserved a (ha.aligned htree.aligned) (.inl hbig)).2 ⟨r, hr, ha⟩
  refine ⟨vmmDestroyUserPml4_eq s.vm r, ?_, htables, ?_, ?_, ?_, ?_, ?_, ?_⟩
  · rw [hmem]
    exact nodup_postorder htree.separate
  · intro a ha
    have hsmall := hmanaged a ha
    rw [htables] at ha
    rcases htree.used a ha with hbig | hset
    · omega
    · exact hset
  · intro f
    rw [vmmDestroyUserPml4_eq, test_foldl_free _ hmanaged]
    simp only [Bool.and_eq_true, Bool.not_eq_true', decide_eq_false_iff_not, mem_map, not_exists,
      not_and]
    exact and_comm
  · intro a ha hcall
    rw [htables] at hcall
    have hused := hboot.kernel a (h.kernelTable hboot hr ha)
    exact (h.reserved a (hcall.aligned htree.aligned) hused).2 ⟨r, hr, hcall⟩
  · intro a ha hcall
    rw [htables] at hcall
    exact (h.data a ha).2.2 ⟨r, hr, hcall⟩
  · intro r' hr' hne a ha hcall
    rw [htables] at hcall
    exact hne (h.forest.root_unique hr' hr ha hcall)
  · intro r' va
    rw [vmmDestroyUserPml4_mem]
    exact ⟨rfl, rfl⟩

/-- In every state reached from boot a teardown frees its own tables, and if every
mapping was given a data frame, no frame that any address space maps. -/
theorem destroy_frees (boot : U64) {s₀ : Vm} (hboot : Booted boot s₀) {ops : List LifeOp}
    (hops : StepsMeet (Life.step boot) OnLive (Life.start s₀) ops) {root : U64}
    (hroot : root ∈ (run (Life.step boot) (Life.start s₀) ops).live) :
    let s := run (Life.step boot) (Life.start s₀) ops
    FreesOwnTables s root (vmmDestroyUserPml4 s.vm root) ∧
      (StepsMeet (Life.step boot) MapsData (Life.start s₀) ops →
        ∀ root' ∈ s.live, ∀ va, UserHalf va →
        has (userLeaf s.vm.mem root' va) ptePresent = true →
          pteAddr (userLeaf s.vm.mem root' va) ∉ destroyCalls s.vm.mem root) := by
  have hkept := run_invariant (Kept boot s₀) (fun _ _ h hop => h.step hboot hop)
    (kept_start boot s₀) hops
  intro s
  have hfrees := hkept.freesOwnTables hboot hroot
  refine ⟨hfrees, fun hdata root' hroot' va hva hp => hfrees.data _ ?_⟩
  have hboth := run_invariant (fun s => Kept boot s₀ s ∧ Mapped s)
    (fun _ _ h hop => ⟨h.1.step hboot hop.1, h.2.step h.1.forest hop.1 hop.2⟩)
    ⟨kept_start boot s₀, fun r hr => absurd hr not_mem_nil⟩ (hops.and hdata)
  exact hboth.2 root' hroot' _ (inRange_of_userHalf hva) hp

end Vmm
