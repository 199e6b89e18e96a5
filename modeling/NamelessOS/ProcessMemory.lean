import NamelessOS.Elf
import NamelessOS.ProcessRuns

/-!
# System calls on a process's memory

`sys_mmap` of `dynlink.c` and `sys_execve` of `syscall.c` over the process
table and the address spaces, and the machine that interleaves them with the
calls of `ProcessRuns`.

The heap shares the PMM with the address spaces.  Of its functions only this is
used: they take frames that are free, give back frames of the heap, and write
only to the heap's frames.  `KernelHeap` carries that as its fields.
-/

namespace Process

open ByteOrder Vmm Pmm WordMemory Runs

/-- Physical memory with the PMM, and whatever else the heap keeps. -/
structure Mem (η : Type) where
  vm : Vm
  heap : η

/-- What a function of the heap may do: `frames` are the frames it owns. -/
structure HeapOnly {η : Type} (frames : η → U64 → Prop) (s s' : Mem η) : Prop where
  kept : ∀ p, PageAligned p → Used s.vm.pmm p → ¬ frames s.heap p → Used s'.vm.pmm p
  mem : ∀ x, Used s.vm.pmm (pageOf x) → ¬ frames s.heap (pageOf x) → s'.vm.mem x = s.vm.mem x
  frames : ∀ p, frames s'.heap p →
    PageAligned p ∧ Used s'.vm.pmm p ∧ (frames s.heap p ∨ ¬ Used s.vm.pmm p)

/-- `kmalloc` and `kfree`. -/
structure KernelHeap (η : Type) where
  frames : η → U64 → Prop
  kmalloc : Mem η → U64 → Mem η × U64
  kfree : Mem η → U64 → Mem η
  kmalloc_only : ∀ s n, HeapOnly frames s (kmalloc s n).1
  kfree_only : ∀ s p, HeapOnly frames s (kfree s p)

/-- The kernel around the calls: the heap, `pml4_phys` of the VMM, the
trampoline and the embedded programs. -/
structure Kernel (η : Type) where
  heap : KernelHeap η
  bootPml4 : U64
  forkSysretTrampoline : U64
  shellElf : Elf.File
  httpdElf : Elf.File

variable {η : Type} (K : Kernel η)

/-- A VMM function on the whole memory. -/
def Mem.lift {α : Type} (s : Mem η) (r : Vm × α) : Mem η × α := ({ s with vm := r.1 }, r.2)

/-- The heap and the VMM, as the process calls use them. -/
def Kernel.platform : Platform (Mem η) where
  kmalloc := K.heap.kmalloc
  kfree := K.heap.kfree
  vmmCreateUserPml4 s := s.lift (Vmm.vmmCreateUserPml4 K.bootPml4 s.vm)
  vmmForkPml4 s src := s.lift (Vmm.vmmForkPml4 s.vm src)
  forkSysretTrampoline := K.forkSysretTrampoline

/-! ## `sys_mmap` -/

def mapAnonymous : U64 := 0x20#64

/-- `MAP_FAILED`. -/
def mapFailed : U64 := BitVec.allOnes 64

def mmapBase : U64 := 0x10000000#64

def mmapLimit : U64 := 0x50000000#64

/-- The cursor is initialised on first use. -/
def initCursor (t : Table) (cur : Slot) : Table :=
  if (t.proc cur).mmapNext = 0#64 then t.modify cur (fun p => { p with mmapNext := mmapBase }) else t

/-- `pages`: the length in pages, rounded up. -/
def pageCount (length : U64) : U64 := (length + pageSize - 1#64) / pageSize

/-- `sys_mmap`; the other arguments are not used. -/
def sysMmap (s : Vm) (t : Table) (length flags : U64) : Vm × Table × U64 :=
  if flags &&& mapAnonymous = 0#64 then (s, t, mapFailed)
  else if length = 0#64 then (s, t, mapFailed)
  else
    let pages := pageCount length
    match t.current with
    | none => (s, t, mapFailed)
    | some cur =>
      let pml4Phys := (t.proc cur).pml4Phys
      if pml4Phys = 0#64 then (s, t, mapFailed)
      else
        let t := initCursor t cur
        let va := (t.proc cur).mmapNext
        if mmapLimit < va + pages * pageSize then (s, t, mapFailed)
        else
          let r := mapNewPages zeroPage pml4Phys (pteUser ||| pteWrite) (pagesFrom va pages.toNat) s
          if r.2 then
            (r.1, t.modify cur (fun p => { p with mmapNext := p.mmapNext + pages * pageSize }), va)
          else (r.1, t, mapFailed)

/-! ## `sys_execve` -/

def execUstackTop : U64 := 0x7FFFF000#64

def execUstackPages : Nat := 4

def enoent : Nat := 2
def esrch : Nat := 3
def enoexec : Nat := 8
def enomem : Nat := 12

/-- The bytes of a path before its NUL. -/
abbrev Path := List U8

/-- `/bin/shell`. -/
def binShell : Path := [0x2F, 0x62, 0x69, 0x6E, 0x2F, 0x73, 0x68, 0x65, 0x6C, 0x6C]

/-- `/bin/httpd`. -/
def binHttpd : Path := [0x2F, 0x62, 0x69, 0x6E, 0x2F, 0x68, 0x74, 0x74, 0x70, 0x64]

/-- The embedded program of a path; `none` is `NULL`. -/
def Kernel.findElf (path : Option Path) : Option Elf.File :=
  match path with
  | none => none
  | some path =>
    if path = binShell then some K.shellElf
    else if path = binHttpd then some K.httpdElf
    else none

/-- The loop that maps the user stack.  The result of `vmm_map_user_page` is not
looked at; `false` when a frame is missing. -/
def mapUserStack (pml4 : U64) : List Nat → Vm → Vm × Bool
  | [], s => (s, true)
  | i :: is, s =>
    let frame := pmmAllocFrame s.pmm
    if frame.2 = 0#64 then ({ s with pmm := frame.1 }, false)
    else
      let vaddr := execUstackTop - BitVec.ofNat 64 (execUstackPages - i) * pageSize
      mapUserStack pml4 is (vmmMapUserPage { pmm := frame.1, mem := fillZero s.mem frame.2 4096 }
        pml4 vaddr frame.2 (pteUser ||| pteWrite)).1

/-- How `sys_execve` ends: `-errno` is returned, or user mode is entered. -/
inductive ExecResult
  | error (errno : Nat)
  | entered (entry : U64)
  deriving DecidableEq

/-- `sys_execve` up to the point where the new address space is complete. -/
def Kernel.buildImage (f : Elf.File) (s : Vm) : Vm × Except Nat (U64 × U64) :=
  let new := Vmm.vmmCreateUserPml4 K.bootPml4 s
  if new.2 = 0#64 then (new.1, .error enomem)
  else
    let loaded := Elf.elfLoad f new.2 new.1
    match loaded.2 with
    | none => (vmmDestroyUserPml4 loaded.1 new.2, .error enoexec)
    | some entry =>
      let stack := mapUserStack new.2 (List.range execUstackPages) loaded.1
      if stack.2 then (stack.1, .ok (new.2, entry))
      else (vmmDestroyUserPml4 stack.1 new.2, .error enomem)

/-- `sys_execve`.  The registers, the TSS and the contents of the kernel stack
are not modelled. -/
def Kernel.sysExecve (s : Mem η) (t : Table) (path : Option Path) : Mem η × Table × ExecResult :=
  match K.findElf path with
  | none => (s, t, .error enoent)
  | some elf =>
    match t.current with
    | none => (s, t, .error esrch)
    | some cur =>
      let oldPml4 := (t.proc cur).pml4Phys
      match s.lift (K.buildImage elf s.vm) with
      | (s, .error errno) => (s, t, .error errno)
      | (s, .ok (newPml4, entry)) =>
        let t := t.modify cur (fun p => { p with pml4Phys := newPml4, mmapNext := 0#64 })
        let s := { s with
          vm := if oldPml4 ≠ 0#64 then vmmDestroyUserPml4 s.vm oldPml4 else s.vm }
        let stack := K.heap.kmalloc s kstackSize
        if stack.2 = 0#64 then
          -- the process keeps the address space that is destroyed here
          ({ stack.1 with vm := vmmDestroyUserPml4 stack.1.vm newPml4 }, t, .error enomem)
        else (stack.1, t.modify cur (fun p => { p with kstack := stack.2 }), .entered entry)

/-! ## The machine -/

/-- A call of the current process. -/
inductive MemCall
  | process (c : Call)
  | mmap (length flags : U64)
  | execve (path : Option Path)

/-- The process that makes the call, unless it is inside `process_waitpid`. -/
def Kern.caller (k : Kern (Mem η)) : Option Slot :=
  k.table.current.filter (fun cur => (k.waiting cur).isNone)

/-- One call of `sys_mmap` or `sys_execve`. -/
def Kernel.memStep (k : Kern (Mem η)) : MemCall → Option (Kern (Mem η))
  | .process c => (k.step K.platform c).map Prod.fst
  | .mmap length flags =>
    if k.caller.isSome then
      let r := sysMmap k.mem.vm k.table length flags
      some { k with mem := { k.mem with vm := r.1 }, table := r.2.1 }
    else some k
  | .execve path =>
    if k.caller.isSome then
      let r := K.sysExecve k.mem k.table path
      some { k with mem := r.1, table := r.2.1 }
    else some k

/-- The machine on states that may be hung in a loop. -/
def Kernel.step (s : Option (Kern (Mem η))) (c : MemCall) : Option (Kern (Mem η)) :=
  s.bind (fun k => K.memStep k c)

/-- Boot, with the address spaces of the launched programs prepared. -/
def Kernel.boot (m : Mem η) (images : List Image) : Kern (Mem η) := Process.boot K.platform m images

end Process
