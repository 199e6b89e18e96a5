import NamelessOS.ByteOrder
import NamelessOS.LinkedRing

/-!
# The process table and the run queue

`process.c` and `scheduler.c`: a fixed table of process slots, the run queue
threaded through the slots' `next` pointers, and the calls that create, end,
switch and reap processes.  A `process_t *` is a slot, or `none` for `NULL`.  A
pid is a slot number; the name of a process is only logged and is left out.

The memory the calls allocate comes from the heap and the VMM.  They are a
parameter here (`Platform`), with a state of their own, so that what is proved
about the table holds whatever they answer.
-/

namespace Process

open ByteOrder LinkedRing Function

/-- `PROC_MAX`. -/
def procMax : Nat := 64

/-- `KSTACK_SIZE`. -/
def kstackSize : U64 := 8192#64

abbrev Slot := Fin procMax

instance : NeZero procMax := ⟨by decide⟩

/-- The `PROC_*` constants. -/
inductive ProcState
  | unused
  | ready
  | running
  | blocked
  | zombie
  deriving DecidableEq, Repr

/-- `cpu_context_t`. -/
structure CpuContext where
  rbx : U64 := 0#64
  rbp : U64 := 0#64
  r12 : U64 := 0#64
  r13 : U64 := 0#64
  r14 : U64 := 0#64
  r15 : U64 := 0#64
  rsp : U64 := 0#64
  rip : U64 := 0#64
  deriving DecidableEq

/-- `process_t`. -/
structure Proc where
  pid : Nat := 0
  ppid : Nat := 0
  state : ProcState := .unused
  exitStatus : BitVec 32 := 0#32
  kstack : U64 := 0#64
  ctx : CpuContext := {}
  pml4Phys : U64 := 0#64
  userRip : U64 := 0#64
  userRsp : U64 := 0#64
  userRflags : U64 := 0#64
  mmapNext : U64 := 0#64
  next : Option Slot := none

/-- `proc_table`, `current_proc` and `run_queue`. -/
structure Table where
  proc : Slot → Proc
  current : Option Slot
  runQueue : Option Slot

namespace Table

def modify (t : Table) (p : Slot) (f : Proc → Proc) : Table :=
  { t with proc := Function.update t.proc p (f (t.proc p)) }

def setState (t : Table) (p : Slot) (st : ProcState) : Table :=
  t.modify p (fun q => { q with state := st })

def setNext (t : Table) (p : Slot) (link : Option Slot) : Table :=
  t.modify p (fun q => { q with next := link })

/-- The links of the run queue. -/
def next (t : Table) (p : Slot) : Option Slot := (t.proc p).next

def state (t : Table) (p : Slot) : ProcState := (t.proc p).state

variable (t : Table) (p q : Slot) (f : Proc → Proc)

@[simp] theorem modify_self : (t.modify p f).proc p = f (t.proc p) := update_self ..

@[simp] theorem modify_of_ne {p q : Slot} (h : q ≠ p) : (t.modify p f).proc q = t.proc q :=
  update_of_ne h ..

@[simp] theorem modify_current : (t.modify p f).current = t.current := rfl

theorem modify_modify (g : Proc → Proc) :
    (t.modify p f).modify p g = t.modify p (fun r => g (f r)) := by
  simp [modify]

theorem modify_comm {p q : Slot} (h : p ≠ q) (g : Proc → Proc) :
    (t.modify p f).modify q g = (t.modify q g).modify p f := by
  simp [modify, update_comm h, h, h.symm]

/-- A change that keeps a field keeps it in every slot. -/
theorem field_modify {β : Type} (field : Proc → β) (hf : ∀ r, field (f r) = field r) :
    field ((t.modify p f).proc q) = field (t.proc q) := by
  by_cases h : q = p
  · subst h
    rw [modify_self, hf]
  · rw [modify_of_ne t f h]

theorem state_modify (hf : ∀ r, (f r).state = r.state) : (t.modify p f).state = t.state :=
  funext (fun q => t.field_modify p q f Proc.state hf)

theorem next_modify (hf : ∀ r, (f r).next = r.next) : (t.modify p f).next = t.next :=
  funext (fun q => t.field_modify p q f Proc.next hf)

theorem state_modify_to {st : ProcState} (hf : ∀ r, (f r).state = st) :
    (t.modify p f).state = Function.update t.state p st := by
  funext q
  by_cases h : q = p
  · subst h
    simp [state, hf]
  · simp [state, h]

@[simp] theorem next_setState (st : ProcState) : (t.setState p st).next = t.next :=
  t.next_modify p _ (fun _ => rfl)

@[simp] theorem state_setNext (link : Option Slot) : (t.setNext p link).state = t.state :=
  t.state_modify p _ (fun _ => rfl)

@[simp] theorem state_setState (st : ProcState) :
    (t.setState p st).state = Function.update t.state p st :=
  t.state_modify_to p _ (fun _ => rfl)

@[simp] theorem next_setNext (link : Option Slot) :
    (t.setNext p link).next = Function.update t.next p link := by
  funext q
  by_cases h : q = p
  · subst h
    simp [next, setNext]
  · simp [next, setNext, h]

end Table

/-! ## The run queue -/

/-- `scheduler_add`. -/
def schedulerAdd (t : Table) (p : Slot) : Table :=
  match t.runQueue with
  | none => { t.setNext p (some p) with runQueue := some p }
  | some head => (t.setNext p (t.next head)).setNext head (some p)

/-- Linking a slot in changes links only. -/
theorem schedulerAdd_field {β : Type} (field : Proc → β)
    (hf : ∀ r link, field { r with next := link } = field r) (t : Table) (p q : Slot) :
    field ((schedulerAdd t p).proc q) = field (t.proc q) := by
  rw [schedulerAdd]
  split
  · exact t.field_modify p q _ field (fun r => hf r _)
  · next head _ =>
      exact ((t.setNext p (t.next head)).field_modify head q _ field (fun r => hf r _)).trans
        (t.field_modify p q _ field (fun r => hf r _))

/-- `scheduler_remove`; `none` when its loop does not end within `PROC_MAX`
rounds. -/
def schedulerRemove (t : Table) (p : Slot) : Option Table :=
  match t.runQueue with
  | none => some t
  | some head =>
    match seekLink t.next head p procMax head with
    | none => none
    | some none => some t
    | some (some prev) =>
      if t.next p = some p then some { t.setNext p none with runQueue := none }
      else
        let t := t.setNext prev (t.next p)
        let t := if head = p then { t with runQueue := t.next p } else t
        some (t.setNext p none)

/-- Whether the search of `scheduler_yield` stops at a slot. -/
def runnable (t : Table) (p : Slot) : Bool := t.state p == .ready || t.state p == .running

/-- What `scheduler_yield` hands to the processor: the arguments of
`context_switch` (whose context is saved, whose is restored, the new PML4) and
the kernel stack for the next entry from user mode, if it sets one. -/
structure Switch where
  old : Slot
  new : Slot
  newPml4 : U64
  kernelRsp : Option U64
  deriving DecidableEq

/-- The current process is ready again if it was running. -/
def preempt (t : Table) : Table :=
  match t.current with
  | none => t
  | some current => if t.state current = .running then t.setState current .ready else t

/-- `scheduler_yield` once the next process is found to be another one: up to
the call of `context_switch`. -/
def dispatch (t : Table) (next : Slot) : Table × Switch :=
  let old := t.current.getD next
  let t := (preempt { t with runQueue := some next }).setState next .running
  let kstack := (t.proc next).kstack
  ({ t with current := some next },
    { old := old
      new := next
      newPml4 := (t.proc next).pml4Phys
      kernelRsp := if kstack = 0#64 then none else some (kstack + kstackSize) })

/-- `scheduler_yield` up to the call of `context_switch`, if it makes one;
`none` when its loop does not end within `PROC_MAX` rounds. -/
def schedulerYield (t : Table) : Option (Table × Option Switch) :=
  match t.runQueue with
  | none => some (t, none)
  | some start =>
    match seek t.next (fun p => runnable t p || decide (p = start)) procMax start with
    | none => none
    | some next =>
      if some next = t.current then some (t, none)
      else
        let r := dispatch t next
        some (r.1, some r.2)

/-- What `context_switch` stores in the table: the registers at the call. -/
def saveContext (t : Table) (switch : Option Switch) (regs : CpuContext) : Table :=
  match switch with
  | none => t
  | some s => t.modify s.old (fun p => { p with ctx := regs })

/-! ## Creating processes -/

/-- `alloc_pid`. -/
def allocPid (t : Table) : Option Slot :=
  (List.finRange procMax).find? (fun p => t.state p == .unused)

/-- `process_get`. -/
def processGet (t : Table) (pid : Nat) : Option Slot :=
  if h : pid < procMax then
    if t.state ⟨pid, h⟩ = .unused then none else some ⟨pid, h⟩
  else none

/-- The pid 0 slot. -/
def idle : Slot := 0

/-- `process_init`. -/
def processInit (t : Table) : Table :=
  let t := { t with proc := fun p => { t.proc p with state := .unused } }
  let t := t.modify idle (fun p =>
    { p with pid := 0, state := .running, next := none, kstack := 0#64, pml4Phys := 0#64 })
  { t with current := some idle }

/-- `scheduler_init`, as far as the run queue is concerned. -/
def schedulerInit (t : Table) : Table :=
  match processGet t 0 with
  | none => t
  | some p => schedulerAdd t p

/-- What the calls need of the heap, the VMM and the linker; 0 is `NULL`, or
the frame number of a failed allocation. -/
structure Platform (σ : Type) where
  kmalloc : σ → U64 → σ × U64
  kfree : σ → U64 → σ
  vmmCreateUserPml4 : σ → σ × U64
  vmmForkPml4 : σ → U64 → σ × U64
  forkSysretTrampoline : U64

variable {σ : Type} (env : Platform σ)

/-- `kthread_create`. -/
def kthreadCreate (m : σ) (t : Table) (fn : U64) : σ × Table × Option Slot :=
  match allocPid t with
  | none => (m, t, none)
  | some pid =>
    let t := t.modify pid (fun p => { p with pid := pid, state := .ready, next := none })
    let r := env.kmalloc m kstackSize
    let t := t.modify pid (fun p => { p with kstack := r.2 })
    if r.2 = 0#64 then (r.1, t.setState pid .unused, none)
    else
      let t := t.modify pid (fun p =>
        { p with pml4Phys := 0#64, ctx := { rip := fn, rsp := r.2 + kstackSize - 8#64 } })
      (r.1, t, some pid)

/-- An address space and a kernel stack prepared for a process started at
boot. -/
structure Image where
  pml4Phys : U64
  kstack : U64
  kstackRsp : U64
  fn : U64

/-- The end of `launch_user_process` and of `init_launch_impl`: the slot, and
its place in the run queue. -/
def launch (m : σ) (t : Table) (image : Image) : σ × Table :=
  match kthreadCreate env m t image.fn with
  | (m, t, none) => (m, t)
  | (m, t, some p) =>
    let m := env.kfree m (t.proc p).kstack
    let t := t.modify p (fun q =>
      { q with
        kstack := image.kstack
        pml4Phys := image.pml4Phys
        ctx := { q.ctx with rsp := image.kstackRsp, rip := image.fn } })
    (m, schedulerAdd t p)

/-- The child's kernel context: it lands in `fork_sysret_trampoline`. -/
def forkContext (parent : Proc) (kstack : U64) : CpuContext :=
  { rip := env.forkSysretTrampoline
    rsp := kstack + kstackSize - 8#64
    rbx := 0#64
    rbp := 0#64
    r12 := parent.userRip
    r13 := parent.userRflags
    r14 := parent.userRsp
    r15 := 0#64 }

/-- The address space a fork clones: the parent's own, or a new one if it
shares the kernel's. -/
def forkSource (m : σ) (parent : Proc) : σ × U64 :=
  if parent.pml4Phys ≠ 0#64 then (m, parent.pml4Phys) else env.vmmCreateUserPml4 m

/-- `process_fork`; the result is the child's slot, or `none` for -1. -/
def processFork (m : σ) (t : Table) : σ × Table × Option Slot :=
  match t.current with
  | none => (m, t, none)
  | some cur =>
    match allocPid t with
    | none => (m, t, none)
    | some pid =>
      let t := t.modify pid (fun p =>
        { p with
          pid := pid, ppid := (t.proc cur).pid, exitStatus := 0#32, state := .ready,
          next := none })
      let stack := env.kmalloc m kstackSize
      let t := t.modify pid (fun p => { p with kstack := stack.2 })
      if stack.2 = 0#64 then (stack.1, t.setState pid .unused, none)
      else
        let src := forkSource env stack.1 (t.proc cur)
        if src.2 = 0#64 then (env.kfree src.1 stack.2, t.setState pid .unused, none)
        else
          let t := t.modify cur (fun p => { p with pml4Phys := src.2 })
          let space := env.vmmForkPml4 src.1 src.2
          let t := t.modify pid (fun p => { p with pml4Phys := space.2 })
          if space.2 = 0#64 then (env.kfree space.1 stack.2, t.setState pid .unused, none)
          else
            let parent := t.proc cur
            let t := t.modify pid (fun p =>
              { p with
                userRip := parent.userRip
                userRsp := parent.userRsp
                userRflags := parent.userRflags
                ctx := forkContext env parent p.kstack })
            (space.1, schedulerAdd t pid, some pid)

/-! ## System-call entry -/

/-- What the processor leaves of the user's context at a `SYSCALL`: RIP in rcx,
RFLAGS in r11, and the user's RSP. -/
structure UserContext where
  rip : U64
  rsp : U64
  rflags : U64
  deriving DecidableEq

/-- The context stored for a process. -/
def Proc.userContext (p : Proc) : UserContext :=
  { rip := p.userRip, rsp := p.userRsp, rflags := p.userRflags }

/-- `process_save_user_ctx`. -/
def processSaveUserCtx (t : Table) (ctx : UserContext) : Table :=
  match t.current with
  | none => t
  | some cur =>
    t.modify cur (fun p =>
      { p with userRip := ctx.rip, userRsp := ctx.rsp, userRflags := ctx.rflags })

theorem processSaveUserCtx_state (t : Table) (ctx : UserContext) :
    (processSaveUserCtx t ctx).state = t.state := by
  grind [processSaveUserCtx, Table.state_modify]

/-! ## Ending and reaping processes -/

/-- `process_exit`, up to the call of `context_switch`. -/
def processExit (t : Table) : Option (Table × Option Switch) :=
  match t.current with
  | none => schedulerYield t
  | some cur => schedulerYield (t.setState cur .zombie)

/-- `sys_exit`. -/
def sysExit (t : Table) (status : BitVec 32) : Option (Table × Option Switch) :=
  match t.current with
  | none => processExit t
  | some cur => processExit (t.modify cur (fun p => { p with exitStatus := status }))

/-- The table on which `sys_exit` calls `scheduler_yield`. -/
def exitTable (t : Table) (cur : Slot) (status : BitVec 32) : Table :=
  (t.modify cur (fun p => { p with exitStatus := status })).setState cur .zombie

theorem exitTable_state (t : Table) (cur : Slot) (status : BitVec 32) :
    (exitTable t cur status).state = Function.update t.state cur .zombie := by
  rw [exitTable, Table.state_setState,
    t.state_modify cur (fun p => { p with exitStatus := status }) (fun _ => rfl)]

theorem sysExit_eq {t : Table} {cur : Slot} (h : t.current = some cur) (status : BitVec 32) :
    sysExit t status = schedulerYield (exitTable t cur status) := by
  rw [sysExit, h]
  dsimp only
  rw [processExit, t.modify_current, h]
  rfl

/-- `process_waitpid` before its loop: the child, or `none` for -1. -/
def waitpidChild (t : Table) (cur : Slot) (pid : Nat) : Option Slot :=
  if h : pid < procMax then
    let child : Slot := ⟨pid, h⟩
    if t.state child = .unused then none
    else if (t.proc child).ppid ≠ (t.proc cur).pid then none
    else some child
  else none

/-- `process_waitpid` after its loop; the result is the status stored through
the caller's pointer. -/
def waitpidReap (t : Table) (child : Slot) : Option (Table × BitVec 32) :=
  (schedulerRemove t child).map (fun t =>
    (t.setState child .unused, (t.proc child).exitStatus))

end Process
