import NamelessOS.FrameBudget
import NamelessOS.HeapInvariant
import NamelessOS.ImageFrames

/-!
# What a process leaves behind

A child that is forked, runs, exits and is reaped, with the frames counted.
`process_exit` and `process_waitpid` free nothing, so the tables and the kernel
stack that the fork took stay allocated, and with them every page the child
mapped or copied (`Lifetime.leaks`).  `sys_execve` frees the tables of the old
address space, but neither its pages nor the old kernel stack.
-/

namespace Process

open ByteOrder Vmm Pmm WordMemory PageTree WordBitmap Runs List Option
open Function (update)

variable {η : Type} (K : Kernel η)

/-! ## The machine with page faults -/

/-- A call of the current process, or a page fault of it. -/
inductive LifeCall
  | call (c : MemCall)
  | fault (cr2 err : U64)

/-- One step; `none` when a loop does not end or when a page fault is not
resolved, after which the machine halts. -/
def Kernel.lifeStep (k : Kern (Mem η)) : LifeCall → Option (Kern (Mem η))
  | .call c => K.memStep k c
  | .fault cr2 err =>
    match k.caller with
    | none => some k
    | some cur =>
      let r := pageFaultHandlerC k.mem.vm (k.table.proc cur).pml4Phys cr2 err
      if r.2 then some { k with mem := { k.mem with vm := r.1 } } else none

/-- The number of free frames. -/
def Kern.free (k : Kern (Mem η)) : Int := clearFrames k.mem.vm.pmm

/-- The machine from a fork on, with the frames that other processes than the
child took meanwhile, less those they gave back. -/
structure Watch (η : Type) where
  kern : Kern (Mem η)
  others : Int

/-- One step, counted for whoever takes it. -/
def Kernel.watch (child : Slot) (w : Option (Watch η)) (c : LifeCall) : Option (Watch η) :=
  w.bind (fun w => (K.lifeStep w.kern c).map (fun k =>
    { kern := k
      others :=
        if w.kern.table.current = some child then w.others
        else w.others + (w.kern.free - k.free) }))

/-- The child maps pages, takes page faults, is preempted and exits. -/
def ChildOnly (child : Slot) (w : Option (Watch η)) (c : LifeCall) : Prop :=
  ∀ w' ∈ w, w'.kern.table.current = some child →
    match c with
    | .fault _ _ => True
    | .call (.mmap _ _) => True
    | .call (.process (.exit _ _)) => True
    | .call (.process (.yield _)) => True
    | _ => False

/-- The frames a fork takes for the parent: a PML4 if it had none. -/
def promotion (p : Proc) : Int := if p.pml4Phys = 0#64 then 1 else 0

/-- **A lifetime**: `parent` forks `child`; calls and faults of all processes
follow, those of the child only mappings, faults and its exit; and `parent` reaps
`child`. -/
structure Lifetime (parent child : Slot) (k : Kern (Mem η)) (calls : List LifeCall)
    (w : Watch η) (k' : Kern (Mem η)) : Prop where
  caller : k.table.current = some parent
  life : ∃ forked, k.step K.platform .fork = some (forked, .forked child) ∧
    StepsMeet (K.watch child) (ChildOnly child)
      (some ⟨forked, promotion (k.table.proc parent)⟩) calls ∧
    run (K.watch child) (some ⟨forked, promotion (k.table.proc parent)⟩) calls = some w
  reaper : w.kern.table.current = some parent
  reaped : ∃ regs status, w.kern.step K.platform (.poll regs) = some (k', .reaped child status)

/-- **The lifetime conserves memory**: apart from what others took, as many
frames are free after it as before. -/
def Conserved (k : Kern (Mem η)) (w : Watch η) (k' : Kern (Mem η)) : Prop :=
  k'.free + w.others = k.free

/-! ## What a step takes -/

variable {K}

theorem forkSource_takes (m : Mem η) (p : Proc) (hne : (forkSource K.platform m p).2 ≠ 0#64) :
    (clearFrames (forkSource K.platform m p).1.vm.pmm : Int) + promotion p ≤
      clearFrames m.vm.pmm := by
  unfold forkSource promotion at *
  by_cases hroot : p.pml4Phys = 0#64
  · have hcreate : K.platform.vmmCreateUserPml4 m =
        m.lift (Vmm.vmmCreateUserPml4 K.bootPml4 m.vm) := rfl
    rw [if_neg (not_not.mpr hroot), hcreate] at hne ⊢
    have htaken := vmmCreateUserPml4_takes K.bootPml4 m.vm
    generalize Vmm.vmmCreateUserPml4 K.bootPml4 m.vm = r at hne htaken ⊢
    have hlt := htaken hne
    rw [if_pos hroot]
    change (clearFrames r.1.pmm : Int) + 1 ≤ _
    omega
  · rw [if_pos hroot, if_neg hroot]
    exact le_of_eq (Int.add_zero _)

variable {child : Slot} {cur parent : Slot}

/-- **A fork that succeeds takes frames** for the child, and gives none back. -/
theorem processFork_takes (hheap : K.heap.TakesFrames) {m : Mem η} {t : Table}
    (hcur : t.current = some cur) (hchild : (processFork K.platform m t).2.2 = some child) :
    (clearFrames (processFork K.platform m t).1.vm.pmm : Int) + promotion (t.proc cur) <
      clearFrames m.vm.pmm := by
  rw [processFork, hcur] at hchild ⊢
  dsimp only at hchild ⊢
  cases hpid : allocPid t with
  | none =>
    rw [hpid] at hchild
    cases hchild
  | some pid =>
    rw [hpid] at hchild
    dsimp only at hchild ⊢
    have hstack : KeepsUsed m.vm.pmm (K.platform.kmalloc m kstackSize).1.vm.pmm :=
      hheap.keeps m kstackSize
    generalize K.platform.kmalloc m kstackSize = stack at hstack hchild ⊢
    have hfewer := hstack.clearFrames_le
    rw [Table.modify_modify] at hchild ⊢
    by_cases hz : stack.2 = 0#64
    · rw [if_pos hz] at hchild
      cases hchild
    · rw [if_neg hz] at hchild ⊢
      -- the parent's slot has its old `pml4_phys` still
      have hroot : ∀ f : Proc → Proc, (∀ p, (f p).pml4Phys = p.pml4Phys) →
          promotion ((t.modify pid f).proc cur) = promotion (t.proc cur) := by
        intro f hf
        unfold promotion
        rw [t.field_modify pid cur f Proc.pml4Phys hf]
      rw [← hroot (fun p => { p with
        pid := pid, ppid := (t.proc cur).pid, exitStatus := 0#32, state := .ready,
        next := none, kstack := stack.2 }) (fun _ => rfl)]
      generalize (t.modify pid _) = t₁ at hchild ⊢
      have hsource := forkSource_takes (K := K) stack.1 (t₁.proc cur)
      generalize forkSource K.platform stack.1 (t₁.proc cur) = src at hsource hchild ⊢
      by_cases hsrc : src.2 = 0#64
      · rw [if_pos hsrc] at hchild
        cases hchild
      · rw [if_neg hsrc] at hchild ⊢
        have hspace := vmmForkPml4_takes src.1.vm src.2
        have hlift : K.platform.vmmForkPml4 src.1 src.2 =
            src.1.lift (Vmm.vmmForkPml4 src.1.vm src.2) := rfl
        rw [hlift] at hchild ⊢
        generalize Vmm.vmmForkPml4 src.1.vm src.2 = space at hspace hchild ⊢
        by_cases hdone : (src.1.lift space).2 = 0#64
        · rw [if_pos hdone] at hchild
          cases hchild
        · rw [if_neg hdone]
          have hlt := hspace hdone
          have hle := hsource hsrc
          change (clearFrames space.1.pmm : Int) + _ < _
          omega

theorem sysMmap_keepsUsed (s : Vm) (t : Table) (length flags : U64) :
    KeepsUsed s.pmm (sysMmap s t length flags).1.pmm := by
  unfold sysMmap
  split
  · exact .refl _
  · split
    · exact .refl _
    · split
      · exact .refl _
      grind [mapNewPages_keepsUsed, KeepsUsed.refl]

theorem switched_mem {σ : Type} {k k' : Kern σ} {r : Option (Table × Option Switch)}
    {regs : CpuContext} {event : Event} (h : k.switched r regs = some (k', event)) :
    k'.mem = k.mem := by
  obtain ⟨_, -, heq⟩ := map_eq_some_iff.mp h
  cases heq
  rfl

theorem step_mem {σ : Type} (env : Platform σ) {k k' : Kern σ} {c : Call} {event : Event}
    (hc : c ≠ .fork) (h : k.step env c = some (k', event)) : k'.mem = k.mem := by
  unfold Kern.step at h
  split at h
  · cases h
    rfl
  · split at h
    · exact switched_mem h
    · exact absurd rfl hc
    · exact switched_mem h
    · split at h
      · cases h
        rfl
      · cases h
        rfl
    · split at h
      · obtain ⟨_, -, heq⟩ := map_eq_some_iff.mp h
        cases heq
        rfl
      · exact switched_mem h
    · cases h
      rfl

variable {k : Kern (Mem η)}

theorem lifeStep_child {k' : Kern (Mem η)} {c : LifeCall} {others : Int}
    (hcur : k.table.current = some child) (hc : ChildOnly child (some ⟨k, others⟩) c)
    (hstep : K.lifeStep k c = some k') : k'.free ≤ k.free := by
  have honly := hc _ rfl hcur
  unfold Kern.free
  cases c with
  | fault cr2 err =>
    unfold Kernel.lifeStep at hstep
    cases hcaller : k.caller with
    | none =>
      rw [hcaller] at hstep
      cases hstep
      exact le_refl _
    | some cur =>
      rw [hcaller] at hstep
      dsimp only at hstep
      have hkept := pageFaultHandlerC_keepsUsed k.mem.vm (k.table.proc cur).pml4Phys cr2 err
      generalize pageFaultHandlerC k.mem.vm (k.table.proc cur).pml4Phys cr2 err = r
        at hkept hstep
      split at hstep
      · cases hstep
        exact Int.ofNat_le.mpr hkept.clearFrames_le
      · cases hstep
  | call c =>
    cases c with
    | mmap length flags =>
      change K.memStep k (.mmap length flags) = some k' at hstep
      unfold Kernel.memStep at hstep
      dsimp only at hstep
      split at hstep
      · cases hstep
        exact Int.ofNat_le.mpr (sysMmap_keepsUsed k.mem.vm k.table length flags).clearFrames_le
      · cases hstep
        exact le_refl _
    | execve path => exact honly.elim
    | process c =>
      have hfork : c ≠ .fork := fun heq => by
        subst heq
        exact honly
      obtain ⟨⟨k₁, event⟩, hk₁, rfl⟩ := map_eq_some_iff.mp
        (show (k.step K.platform c).map Prod.fst = some k' from hstep)
      rw [step_mem K.platform hfork hk₁]

/-! ## Lifetimes -/

/-- The frames free and taken by others do not become more. -/
def Bounded (bound : Int) (w : Option (Watch η)) : Prop :=
  ∀ w' ∈ w, w'.kern.free + w'.others ≤ bound

theorem watch_bounded {bound : Int} {w : Option (Watch η)} {c : LifeCall}
    (h : Bounded bound w) (hc : ChildOnly child w c) : Bounded bound (K.watch child w c) := by
  intro w' hw'
  obtain ⟨v, rfl, hv⟩ := bind_eq_some_iff.mp hw'
  obtain ⟨k, hstep, rfl⟩ := map_eq_some_iff.mp hv
  have hbound := h v rfl
  dsimp only
  split
  · rename_i hcur
    have hless := lifeStep_child hcur hc hstep
    omega
  · omega

theorem fork_event {forked : Kern (Mem η)} (hcur : k.table.current = some parent)
    (hfork : k.step K.platform .fork = some (forked, .forked child)) :
    (processFork K.platform k.mem k.table).2.2 = some child ∧
      forked.mem = (processFork K.platform k.mem k.table).1 := by
  grind [Kern.step]

/-- **Every lifetime leaks**: fewer frames are free after it than before, even
with what others took added back. -/
theorem Lifetime.leaks (hheap : K.heap.TakesFrames) {k' : Kern (Mem η)}
    {calls : List LifeCall} {w : Watch η} (h : Lifetime K parent child k calls w k') :
    k'.free + w.others < k.free := by
  obtain ⟨forked, hfork, honly, hrun⟩ := h.life
  obtain ⟨regs, status, hreaped⟩ := h.reaped
  obtain ⟨hchild, hmem⟩ := fork_event h.caller hfork
  have htaken := processFork_takes hheap h.caller hchild
  have hbounded : Bounded (forked.free + promotion (k.table.proc parent)) (some w) := by
    rw [← hrun]
    refine run_invariant (Bounded _) (fun _ _ hw hc => watch_bounded hw hc) ?_ honly
    rintro _ ⟨⟩
    exact le_refl _
  have hend : k'.free = w.kern.free := by
    unfold Kern.free
    rw [step_mem K.platform (fun hc => by cases hc) hreaped]
  have hbound := hbounded w rfl
  unfold Kern.free at *
  rw [hmem] at hbound
  omega

/-! ## A kernel whose stacks are large blocks -/

/-- The memory as the heap addresses it. -/
def heapView (s : Mem Unit) : Heap.HeapState where
  pmm := s.vm.pmm
  mem a := s.vm.mem (Heap.virtToPhys a)
  caches _ := ⟨8#32, 0#64, 0#64⟩
  held := []

/-- `kmalloc` of the only size that is asked for here, a large block. -/
def stackMalloc (s : Mem Unit) (n : U64) : Mem Unit × U64 :=
  if n = kstackSize then
    let r := Heap.largeAlloc (heapView s) kstackSize
    ({ s with vm := { pmm := r.1.pmm, mem := fun x => r.1.mem (Heap.physToVirt x) } }, r.2)
  else (s, 0#64)

theorem stackMalloc_keepsUsed (s : Mem Unit) (n : U64) :
    KeepsUsed s.vm.pmm (stackMalloc s n).1.vm.pmm := by
  have hkeeps := Heap.largeAlloc_keepsUsed (heapView s) kstackSize
  unfold stackMalloc
  generalize Heap.largeAlloc (heapView s) kstackSize = r at hkeeps ⊢
  split
  · exact hkeeps
  · exact .refl _

theorem stackMalloc_mem (s : Mem Unit) (n x : U64) (hused : Used s.vm.pmm (pageOf x)) :
    (stackMalloc s n).1.vm.mem x = s.vm.mem x := by
  have hback := Heap.virtToPhys_physToVirt x
  have hmem := Heap.largeAlloc_mem (heapView s) (show Heap.numPages kstackSize ≠ 0#64 by decide)
    (Heap.physToVirt x)
  unfold stackMalloc
  generalize Heap.largeAlloc (heapView s) kstackSize = r at hmem ⊢
  split
  · obtain hkept | ⟨d, haligned, hfree, hd⟩ := hmem
    · exact hkept.trans (congrArg s.vm.mem hback)
    · rw [hd, Heap.virtToPhys_physToVirt] at hback
      rw [← hback, Heap.pageOf_self haligned] at hused
      exact absurd hused hfree
  · rfl

theorem stackMalloc_only (s : Mem Unit) (n : U64) :
    HeapOnly (fun _ _ => False) s (stackMalloc s n).1 :=
  ⟨fun p hp hu _ => (stackMalloc_keepsUsed s n).kept p hp hu,
    fun x hu _ => stackMalloc_mem s n x hu, fun _ h => h.elim⟩

theorem stackFree_only (s : Mem Unit) (_ : U64) : HeapOnly (fun _ _ => False) s s :=
  ⟨fun _ _ hu _ => hu, fun _ _ _ => rfl, fun _ h => h.elim⟩

/-- A heap that serves kernel stacks and takes nothing back. -/
def stackHeap : KernelHeap Unit where
  frames _ _ := False
  kmalloc := stackMalloc
  kfree s _ := s
  kmalloc_only := stackMalloc_only
  kfree_only := stackFree_only

theorem stackHeap_takesFrames : stackHeap.TakesFrames where
  keeps := stackMalloc_keepsUsed
  stack s hne := by
    have hfresh := Heap.largeAlloc_fresh (heapView s) (show Heap.numPages kstackSize ≠ 0#64 by decide)
    change (stackMalloc s kstackSize).2 ≠ 0#64 at hne
    change ¬ Used s.vm.pmm (pageOf ((stackMalloc s kstackSize).2 - kernelVma))
    unfold stackMalloc at hne ⊢
    generalize Heap.largeAlloc (heapView s) kstackSize = r at hfresh hne ⊢
    exact hfresh hne

/-- An executable with one empty segment. -/
def emptyElf : Elf.File where
  buf a :=
    match a.toNat with
    | 0 => 0x7F#8
    | 1 => 0x45#8
    | 2 => 0x4C#8
    | 3 => 0x46#8
    | 4 => 2#8
    | 5 => 1#8
    | 16 => 2#8
    | 18 => 62#8
    | 32 => 64#8
    | 54 => 56#8
    | 56 => 1#8
    | 64 => 1#8
    | _ => 0#8
  size := 120#64

def stackKernel : Kernel Unit where
  heap := stackHeap
  bootPml4 := 0x1000#64
  forkSysretTrampoline := 0x8000#64
  shellElf := emptyElf
  httpdElf := emptyElf

/-! ### A run of it -/

/-- Zeroed memory; frames 0 to 3 are in use. -/
def stackMem : Mem Unit :=
  ⟨⟨⟨fun w => if w = 0 then 15#64 else 0#64, 1048576#64, 1048572#64, 0#64⟩, fun _ => 0#64⟩, ()⟩

/-- A heap apart from the PMM that never runs out. -/
def plainHeap : KernelHeap Unit where
  frames _ _ := False
  kmalloc s _ := (s, 0x9000#64)
  kfree s _ := s
  kmalloc_only _ _ := ⟨fun _ _ hu _ => hu, fun _ _ _ => rfl, nofun⟩
  kfree_only _ _ := ⟨fun _ _ hu _ => hu, fun _ _ _ => rfl, nofun⟩

def plainKernel : Kernel Unit where
  heap := plainHeap
  bootPml4 := 0x1000#64
  forkSysretTrampoline := 0x8000#64
  shellElf := ⟨fun _ => 0#8, 0⟩
  httpdElf := ⟨fun _ => 0#8, 0⟩

/-- Zeroed memory; frames 0 to 2 are in use. -/
def launchMem : Mem Unit :=
  ⟨⟨⟨fun w => if w = 0 then 7#64 else 0#64, 1048576#64, 1048573#64, 0#64⟩, fun _ => 0#64⟩, ()⟩

/-- A program with an empty address space, its PML4 in frame 2. -/
def program : Image :=
  { pml4Phys := 0x2000#64, kstack := 0x6000#64, kstackRsp := 0x7fd8#64, fn := 0x8000#64 }

/-- The table once the program runs. -/
def programTable : Table :=
  (plainKernel.step (some (plainKernel.boot launchMem [program])) (.process (.yield {}))).elim
    blankTable Kern.table

/-- The program of `programTable` with its kernel stack in frame 3. -/
def stackTable : Table :=
  programTable.modify 1 (fun p => { p with kstack := Heap.physToVirt 0x3000#64 })

theorem stackMem_stack : (stackMalloc stackMem kstackSize).2 ≠ 0#64 ∧
    Room 29 (stackMalloc stackMem kstackSize).1.vm.pmm := by
  refine ⟨by decide +kernel, .of_first 36 ?_ ?_ ?_⟩ <;> decide +kernel

/-- The heap's functions do not concern the address spaces. -/
theorem HeapOnly.spaces {H : KernelHeap η} {s s' : Mem η} {live : List U64} {allowed : U64 → U64 → Prop}
    (honly : HeapOnly H.frames s s') (h : UserSpaces s.vm live (H.frames s.heap) allowed) :
    UserSpaces s'.vm live (H.frames s'.heap) allowed := by
  have hout : ∀ {a}, Vmm.Table s.vm.mem live a → ¬ H.frames s.heap a :=
    fun ha hf => (h.held _ hf).2.2 ha
  refine h.congr ?_ ?_ ?_
  · rintro p haligned hu (ht | hf)
    · exact honly.kept p haligned hu (hout ht)
    · exact (honly.frames p hf).2.1
  · exact fun x hx => honly.mem x (h.forest.table_used hx) (hout hx)
  · intro p hp
    obtain ⟨haligned, hu, hf | hfree⟩ := honly.frames p hp
    · exact .inl hf
    · exact .inr ⟨haligned, hu, fun ht => hfree (h.forest.table_used ht)⟩

theorem stackMem_spaces : UserSpaces stackMem.vm [0x2000#64]
    (fun q => q = 0#64 ∨ q = 0x3000#64) (fun _ _ => True) := by
  have hzero : format.present 0#64 = false := by decide
  have hblank : Blank format 3 stackMem.vm.mem 0x2000#64 := fun _ _ => rfl
  have htable : ∀ a, Vmm.Table stackMem.vm.mem [0x2000#64] a → a = 0x2000#64 := by
    intro a ha
    obtain ⟨r, hr, hframe⟩ := ha
    rw [mem_singleton.mp hr] at hframe
    exact (hblank.frames_iff hzero).mp hframe
  refine ⟨⟨?_, pairwise_singleton _ _⟩, ?_, fun _ _ _ _ _ => trivial⟩
  · intro r hr
    rw [mem_singleton.mp hr]
    refine ⟨by decide, hblank.separate hzero, hblank.directories hzero _, fun a ha => ?_⟩
    rw [(hblank.frames_iff hzero).mp ha]
    exact .inr (by decide)
  · intro p hp
    obtain rfl | rfl := hp
    · exact ⟨by decide, .inr (by decide), fun ht => absurd (htable _ ht) (by decide)⟩
    · exact ⟨by decide, .inr (by decide), fun ht => absurd (htable _ ht) (by decide)⟩

theorem stackTable_execve :
    (stackKernel.sysExecve stackMem stackTable (some binShell)).2.2 = .entered 0#64 := by
  have hfind : stackKernel.findElf (some binShell) = some emptyElf := rfl
  have hcur : stackTable.current = some 1 := by decide +kernel
  have hroot : (stackTable.proc 1).pml4Phys = 0x2000#64 := by decide +kernel
  -- the image and the stack on the frames of this memory, evaluated
  have hbuilt : (stackKernel.buildImage emptyElf stackMem.vm).2 =
      .ok (0x4000#64, 0#64) := by decide +kernel
  have hstack : (stackMalloc (stackKernel.replaced emptyElf stackMem 0x2000#64) kstackSize).2 ≠
      0#64 := by
    decide +kernel
  rw [Kernel.sysExecve, hfind, hcur]
  dsimp only
  rw [hroot]
  unfold Kernel.replaced at hstack
  unfold Mem.lift
  generalize stackKernel.buildImage emptyElf stackMem.vm = built at hbuilt hstack ⊢
  rw [hbuilt]
  have hmalloc : stackKernel.heap.kmalloc = stackMalloc := rfl
  dsimp only
  rw [hmalloc]
  generalize stackMalloc _ kstackSize = stack at hstack ⊢
  rw [if_neg hstack]

/-- The child runs at once and exits, and the program reaps it. -/
def briefLife : List LifeCall :=
  [.call (.process (.waitpid 2)), .call (.process (.poll {})), .call (.process (.exit 0#32 {})),
    .call (.process (.yield {}))]

/-- The table after the fork. -/
def forkedTable (kstack pml4 : U64) : Table := schedulerAdd (stackTable.modify 2
    (forkChild stackKernel.platform (stackTable.proc 1) 2 kstack pml4)) 2

theorem forkedTable_lives (m : Mem Unit) (kstack pml4 : U64) :
    ∃ w k', StepsMeet (stackKernel.watch 2) (ChildOnly 2)
        (some ⟨⟨m, forkedTable kstack pml4, update (fun _ => none) 2 none⟩, 0⟩) briefLife ∧
      run (stackKernel.watch 2)
        (some ⟨⟨m, forkedTable kstack pml4, update (fun _ => none) 2 none⟩, 0⟩) briefLife =
        some w ∧
      w.kern.table.current = some 1 ∧
      w.kern.step stackKernel.platform (.poll {}) = some (k', .reaped 2 0#32) := by
  refine ⟨_, _, ⟨?_, ?_, ?_, ?_, trivial⟩, rfl, rfl, rfl⟩
  · intro w hw hcur
    cases hw
    cases (show some (1 : Slot) = some 2 from hcur)
  · intro w hw hcur
    cases hw
    cases (show some (1 : Slot) = some 2 from hcur)
  · exact fun _ _ _ => trivial
  · exact fun _ _ _ => trivial

theorem step_forks {σ : Type} {env : Platform σ} {k : Kern σ} {m : σ} {t : Table}
    (hcur : k.table.current = some cur) (hidle : k.waiting cur = none)
    (hfork : processFork env k.mem k.table = (m, t, some child)) :
    k.step env .fork = some (⟨m, t, update k.waiting child none⟩, .forked child) := by
  rw [Kern.step, hcur]
  dsimp only
  rw [hidle]
  rw [hfork]

theorem stackMem_forks : ∃ m kstack pml4,
    (⟨stackMem, stackTable, fun _ => none⟩ : Kern (Mem Unit)).step stackKernel.platform .fork =
      some (⟨m, forkedTable kstack pml4, update (fun _ => none) 2 none⟩, .forked 2) := by
  have hcur : stackTable.current = some 1 := by decide +kernel
  have hroot : (stackTable.proc 1).pml4Phys = 0x2000#64 := by decide +kernel
  have hpid : allocPid stackTable = some 2 := by decide +kernel
  have hplatform : stackKernel.platform.kmalloc = stackMalloc := rfl
  have hheap : stackHeap.kmalloc = stackMalloc := rfl
  obtain ⟨hkstack, hroom⟩ := stackMem_stack
  have hspaces := (stackHeap.kmalloc_only stackMem kstackSize).spaces
    (stackMem_spaces.mono (fun _ h => h.elim) (fun _ _ _ _ _ h => h))
  have hblank : Blank format 3 (stackMalloc stackMem kstackSize).1.vm.mem 0x2000#64 := by
    intro i hi
    apply stackMalloc_mem
    rw [pageOf_slot (by decide) (Nat.lt_of_lt_of_le hi (by decide))]
    exact .inr (by decide)
  rw [hheap] at hspaces
  have hfork : stackKernel.platform.kmalloc stackMem kstackSize = stackMalloc stackMem kstackSize := by
    rw [hplatform]
  generalize stackMalloc stackMem kstackSize = stack at hkstack hroom hspaces hblank hfork
  obtain ⟨hpml4, -⟩ := vmmForkPml4_affords stack.1.vm 0x2000#64 28
    (hspaces.forest.tree _ (mem_singleton_self _)) (by rwa [Blank.tables_eq hblank])
  have hclone : stackKernel.platform.vmmForkPml4 stack.1 (stackTable.proc 1).pml4Phys =
      stack.1.lift (vmmForkPml4 stack.1.vm 0x2000#64) := by
    rw [hroot]
    rfl
  generalize vmmForkPml4 stack.1.vm 0x2000#64 = space at hpml4 hclone
  have heq := processFork_eq stackKernel.platform hcur (by decide +kernel) hpid
    (by rw [hroot]; decide) hfork hkstack hclone hpml4
  exact ⟨(stack.1.lift space).1, stack.2, space.2,
    step_forks (k := ⟨stackMem, stackTable, fun _ => none⟩) hcur rfl heq⟩

theorem stackMem_lifetime : ∃ calls w k',
    Lifetime stackKernel 1 2 ⟨stackMem, stackTable, fun _ => none⟩ calls w k' := by
  have hcur : stackTable.current = some 1 := by decide +kernel
  have hpromotion : promotion (stackTable.proc 1) = 0 := by decide +kernel
  obtain ⟨m, kstack, pml4, hfork⟩ := stackMem_forks
  obtain ⟨w, k', honly, hrun, hback, hreaped⟩ := forkedTable_lives m kstack pml4
  refine ⟨briefLife, w, k', hcur, ⟨_, hfork, ?_⟩, hback, {}, 0#32, hreaped⟩
  rw [hpromotion]
  exact ⟨honly, hrun⟩

/-! ## Lifetimes and images leak -/

/-- **Memory is not conserved.**  After every lifetime fewer frames are free than
before it, what others took apart, and after every `sys_execve` that succeeds
the frames in use are not those of before with the new image in place of the
old one. -/
theorem process_lifetimes_leak (K : Kernel η) (hheap : K.heap.TakesFrames) :
    (∀ parent child k calls w k', Lifetime K parent child k calls w k' → ¬ Conserved k w k') ∧
    (∀ (s : Mem η) (t : Table) path cur entry live, t.current = some cur →
      UserSpaces s.vm live (fun q => K.heap.frames s.heap q ∨ q = stackFrame (t.proc cur))
        (fun _ _ => True) →
      ((t.proc cur).pml4Phys ≠ 0#64 → (t.proc cur).pml4Phys ∈ live) →
      (∀ f, K.findElf path = some f → ∀ va ∈ f.pages, UserHalf va) →
      (K.sysExecve s t path).2.2 = .entered entry →
      ¬ ExecReplaces K live cur s t (K.sysExecve s t path).1 (K.sysExecve s t path).2.1) := by
  constructor
  · intro parent child k calls w k' hlife hconserved
    have hleak := hlife.leaks hheap
    unfold Conserved at hconserved
    omega
  · intro s t path cur entry live hcur hspaces hroot hpages hdone
    exact not_execReplaces hheap hcur hspaces hroot hpages hdone rfl (.inr rfl)

theorem stackMem_not_conserved :
    ∃ calls w k', Lifetime stackKernel 1 2 ⟨stackMem, stackTable, fun _ => none⟩ calls w k' ∧
      ¬ Conserved ⟨stackMem, stackTable, fun _ => none⟩ w k' := by
  obtain ⟨calls, w, k', hlife⟩ := stackMem_lifetime
  have hleak := hlife.leaks stackHeap_takesFrames
  refine ⟨calls, w, k', hlife, ?_⟩
  unfold Conserved
  omega

theorem process_lifetimes_leak_program : stackKernel.heap.TakesFrames ∧
    (∃ calls w k', Lifetime stackKernel 1 2 ⟨stackMem, stackTable, fun _ => none⟩ calls w k' ∧
      ¬ Conserved ⟨stackMem, stackTable, fun _ => none⟩ w k') ∧
    (stackKernel.sysExecve stackMem stackTable (some binShell)).2.2 = .entered 0#64 ∧
    ¬ ExecReplaces stackKernel [0x2000#64] 1 stackMem stackTable
      (stackKernel.sysExecve stackMem stackTable (some binShell)).1
      (stackKernel.sysExecve stackMem stackTable (some binShell)).2.1 := by
  obtain ⟨hlives, himages⟩ := process_lifetimes_leak stackKernel stackHeap_takesFrames
  obtain ⟨calls, w, k', hlife⟩ := stackMem_lifetime
  have hframe : stackFrame (stackTable.proc 1) = 0x3000#64 := by decide +kernel
  have hroot : (stackTable.proc 1).pml4Phys = 0x2000#64 := by decide +kernel
  refine ⟨stackHeap_takesFrames, ⟨calls, w, k', hlife, hlives _ _ _ _ _ _ hlife⟩, stackTable_execve,
    himages _ _ _ _ _ _ (by decide +kernel) ?_ ?_ ?_ stackTable_execve⟩
  · rw [hframe]
    exact stackMem_spaces.mono (fun _ h => h.elim (fun h => h.elim) .inr) (fun _ _ _ _ _ h => h)
  · rw [hroot]
    exact fun _ => mem_singleton_self _
  · intro f hf va hva
    cases hf
    cases hva

end Process
