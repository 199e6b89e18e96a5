import NamelessOS.RunQueue
import NamelessOS.Runs

/-!
# Runs of the process calls

The machine whose steps are the process calls of the current process, started
by `process_init`, `scheduler_init` and the launches at boot.  `process_waitpid`
is not one step: its guards are read when it is called, and its loop is left at
the first look at the child that finds it a zombie, possibly many switches
later.  Where a process stands in that loop is a local variable on its kernel
stack (`waiting`).

What each call can do to the table is said once (`Forked`, `step_change`), and
every invariant is read off that.
-/

namespace Process

open ByteOrder LinkedRing Runs Option Function

variable {σ : Type} (env : Platform σ)

/-! ## What a fork does -/

/-- The slot of a forked child.  The cursor of `sys_mmap` is what the slot held
before. -/
def forkChild (parent : Proc) (pid : Slot) (kstack pml4 : U64) (old : Proc) : Proc :=
  { pid := pid
    ppid := parent.pid
    state := .ready
    exitStatus := 0#32
    kstack := kstack
    ctx := forkContext env parent kstack
    pml4Phys := pml4
    userRip := parent.userRip
    userRsp := parent.userRsp
    userRflags := parent.userRflags
    mmapNext := old.mmapNext
    next := none }

/-- The outcomes of `process_fork` called by `cur`. -/
inductive Forked (m : σ) (t : Table) (cur : Slot) : σ → Table → Option Slot → Prop
  | full : Forked m t cur m t none
  /-- A slot was taken and given back. -/
  | failed {m' : σ} {pid : Slot} (hfree : t.state pid = .unused) (src : U64) {f : Proc → Proc}
      (hunused : ∀ p, (f p).state = .unused) (hcursor : ∀ p, (f p).mmapNext = p.mmapNext) :
      Forked m t cur m'
        ((t.modify cur (fun p => { p with pml4Phys := src })).modify pid f) none
  | created {m' : σ} {pid : Slot} (hfree : t.state pid = .unused) {src kstack pml4 : U64} :
      Forked m t cur m'
        (schedulerAdd ((t.modify cur (fun p => { p with pml4Phys := src })).modify pid
          (forkChild env (t.proc cur) pid kstack pml4)) pid) (some pid)

variable {t : Table} {pid : Slot}

theorem allocPid_unused (h : allocPid t = some pid) : t.state pid = .unused := by
  simpa using List.find?_some h

/-- A failure before the parent's address space was touched. -/
theorem Forked.early {m m' : σ} {cur : Slot} (hfree : t.state pid = .unused)
    {f : Proc → Proc} (hunused : ∀ p, (f p).state = .unused)
    (hcursor : ∀ p, (f p).mmapNext = p.mmapNext) : Forked env m t cur m' (t.modify pid f) none := by
  have hkept : t.modify cur (fun p => { p with pml4Phys := (t.proc cur).pml4Phys }) = t := by
    simp [Table.modify]
  have hfailed : Forked env m t cur m'
      ((t.modify cur (fun p => { p with pml4Phys := (t.proc cur).pml4Phys })).modify pid f) none :=
    .failed hfree _ hunused hcursor
  rwa [hkept] at hfailed

theorem processFork_forked (m : σ) (t : Table) {cur : Slot} (hcur : t.current = some cur)
    (hused : t.state cur ≠ .unused) :
    Forked env m t cur (processFork env m t).1 (processFork env m t).2.1
      (processFork env m t).2.2 := by
  rw [processFork, hcur]
  cases hpid : allocPid t with
  | none => exact .full
  | some pid =>
    have hfree := allocPid_unused hpid
    have hne : pid ≠ cur := fun he => hused (he ▸ hfree)
    simp only [Table.setState, Table.modify_modify, Table.modify_comm _ _ hne,
      Table.modify_of_ne _ _ hne.symm, Table.modify_self]
    split
    · dsimp only
      refine .early env hfree ?_ ?_ <;> exact fun _ => rfl
    · split
      · dsimp only
        refine .early env hfree ?_ ?_ <;> exact fun _ => rfl
      · split
        · dsimp only
          refine .failed hfree _ ?_ ?_ <;> exact fun _ => rfl
        · exact .created hfree

/-- A fork with a free slot and allocations that succeed returns the slot. -/
theorem processFork_succeeds (m : σ) {cur : Slot}
    (hcur : t.current = some cur) (hpid : allocPid t = some pid)
    (hstack : (env.kmalloc m kstackSize).2 ≠ 0#64)
    (hsource : ∀ m parent, (forkSource env m parent).2 ≠ 0#64)
    (hspace : ∀ m src, (env.vmmForkPml4 m src).2 ≠ 0#64) :
    (processFork env m t).2.2 = some pid := by
  rw [processFork, hcur]
  simp only [hpid, if_neg hstack, if_neg (hsource _ _), if_neg (hspace _ _)]

/-- The state it leaves, if the parent has an address space of its own. -/
theorem processFork_eq {m m₁ m₂ : σ} {cur : Slot} {kstack pml4 : U64}
    (hcur : t.current = some cur) (hused : t.state cur ≠ .unused) (hpid : allocPid t = some pid)
    (hroot : (t.proc cur).pml4Phys ≠ 0#64) (hstack : env.kmalloc m kstackSize = (m₁, kstack))
    (hkstack : kstack ≠ 0#64) (hspace : env.vmmForkPml4 m₁ (t.proc cur).pml4Phys = (m₂, pml4))
    (hpml4 : pml4 ≠ 0#64) : processFork env m t =
      (m₂, schedulerAdd (t.modify pid (forkChild env (t.proc cur) pid kstack pml4)) pid, some pid) := by
  have hne : pid ≠ cur := fun he => hused (he ▸ allocPid_unused hpid)
  have hkept : t.modify cur (fun p => { p with pml4Phys := (t.proc cur).pml4Phys }) = t := by
    simp [Table.modify]
  rw [processFork, hcur]
  simp only [hpid, hstack, if_neg hkstack, forkSource, Table.modify_modify, Table.modify_comm _ _ hne,
    Table.modify_of_ne _ _ hne.symm, if_pos hroot, if_neg hroot, hspace, if_neg hpml4, hkept]
  rfl

/-! ## The machine -/

structure Kern (σ : Type) where
  mem : σ
  table : Table
  /-- The child a process is waiting for, inside the loop of
  `process_waitpid`. -/
  waiting : Slot → Option Slot

/-- A call of the current process; `regs` are the registers at a call of
`context_switch`. -/
inductive Call
  | fork
  | exit (status : BitVec 32) (regs : CpuContext)
  | yield (regs : CpuContext)
  | waitpid (pid : Nat)
  /-- One round of the loop of `process_waitpid`. -/
  | poll (regs : CpuContext)

/-- What a step brings about besides the new state. -/
inductive Event
  | quiet
  | forked (child : Slot)
  | reaped (child : Slot) (status : BitVec 32)
  deriving DecidableEq

/-- The state after a call that may have switched. -/
def Kern.switched (k : Kern σ) (r : Option (Table × Option Switch)) (regs : CpuContext) :
    Option (Kern σ × Event) :=
  r.map (fun r => ({ k with table := saveContext r.1 r.2 regs }, .quiet))

/-- One step; `none` when a loop does not end.  A process inside the loop of
`process_waitpid` makes no other call, but can be preempted. -/
def Kern.step (k : Kern σ) (c : Call) : Option (Kern σ × Event) :=
  match k.table.current with
  | none => some (k, .quiet)
  | some cur =>
    match k.waiting cur, c with
    | _, .yield regs => k.switched (schedulerYield k.table) regs
    | none, .fork =>
      let r := processFork env k.mem k.table
      match r.2.2 with
      | none => some ({ k with mem := r.1, table := r.2.1 }, .quiet)
      | some child =>
        -- the child starts on a fresh kernel stack
        some ({ mem := r.1, table := r.2.1, waiting := update k.waiting child none }, .forked child)
    | none, .exit status regs => k.switched (sysExit k.table status) regs
    | none, .waitpid pid =>
      match waitpidChild k.table cur pid with
      | none => some (k, .quiet)
      | some child =>
        some ({ k with waiting := update k.waiting cur (some child) }, .quiet)
    | some child, .poll regs =>
      if k.table.state child = .zombie then
        (waitpidReap k.table child).map (fun r =>
          ({ k with table := r.1, waiting := update k.waiting cur none }, .reaped child r.2))
      else k.switched (schedulerYield k.table) regs
    | _, _ => some (k, .quiet)

/-- The machine on states that may be hung in a loop. -/
def step (s : Option (Kern σ)) (c : Call) : Option (Kern σ) :=
  s.bind (fun k => (k.step env c).map Prod.fst)

/-- The tables of a kernel image before `process_init`: the zeroed `.bss`. -/
def blankTable : Table := { proc := fun _ => {}, current := none, runQueue := none }

/-- `process_init`, `scheduler_init` and the launches of `init_launch_impl`. -/
def boot (m : σ) (images : List Image) : Kern σ :=
  let r := images.foldl (fun r image => launch env r.1 r.2 image)
    (m, schedulerInit (processInit blankTable))
  { mem := r.1, table := r.2, waiting := fun _ => none }

/-! ## What a step does -/

/-- The effect of a step of the process `cur`. -/
inductive Change (k : Kern σ) (cur : Slot) : Call → Kern σ → Event → Prop
  | ignored {c : Call} : Change k cur c k .quiet
  | waits {pid : Nat} {child : Slot} (hidle : k.waiting cur = none)
      (hchild : waitpidChild k.table cur pid = some child) :
      Change k cur (.waitpid pid) { k with waiting := update k.waiting cur (some child) }
        .quiet
  | yields {c : Call} {t' : Table} (hlife : SameLife k.table t')
      (hcore : ∀ p, (t'.proc p).core = (k.table.proc p).core) :
      Change k cur c { k with table := t' } .quiet
  | exits {status : BitVec 32} {regs : CpuContext} {t' : Table} (hidle : k.waiting cur = none)
      (hlife : SameLife (exitTable k.table cur status) t')
      (hcore : ∀ p, (t'.proc p).core = ((exitTable k.table cur status).proc p).core) :
      Change k cur (.exit status regs) { k with table := t' } .quiet
  | forkFails {m' : σ} {t' : Table} (hidle : k.waiting cur = none)
      (hforked : Forked env k.mem k.table cur m' t' none) :
      Change k cur .fork { k with mem := m', table := t' } .quiet
  | forks {m' : σ} {t' : Table} {child : Slot} (hidle : k.waiting cur = none)
      (hforked : Forked env k.mem k.table cur m' t' (some child)) :
      Change k cur .fork
        { mem := m', table := t', waiting := update k.waiting child none }
        (.forked child)
  | reaps {regs : CpuContext} {t' : Table} {child : Slot} (hwait : k.waiting cur = some child)
      (hzombie : k.table.state child = .zombie)
      (hstate : t'.state = update k.table.state child .unused)
      (hcore : ∀ p, (t'.proc p).core = (k.table.proc p).core) :
      Change k cur (.poll regs)
        { k with table := t', waiting := update k.waiting cur none }
        (.reaped child (k.table.proc child).exitStatus)

section

variable {k : Kern σ} {cur : Slot} {rest : List Slot}

theorem saveContext_core (t : Table) (sw : Option Switch) (regs : CpuContext) (p : Slot) :
    ((saveContext t sw regs).proc p).core = (t.proc p).core := by
  cases sw with
  | none => rfl
  | some sw => exact t.field_modify sw.old p (fun q => { q with ctx := regs }) Proc.core (fun _ => rfl)

theorem saveContext_state (t : Table) (sw : Option Switch) (regs : CpuContext) :
    (saveContext t sw regs).state = t.state := by
  cases sw with
  | none => rfl
  | some sw => exact t.state_modify sw.old (fun q => { q with ctx := regs }) (fun _ => rfl)

theorem saveContext_next (t : Table) (sw : Option Switch) (regs : CpuContext) :
    (saveContext t sw regs).next = t.next := by
  cases sw with
  | none => rfl
  | some sw => exact t.next_modify sw.old (fun q => { q with ctx := regs }) (fun _ => rfl)

variable {t : Table}

theorem Scheduled.saveContext (h : Scheduled t cur rest) (sw : Option Switch)
    (regs : CpuContext) : Scheduled (saveContext t sw regs) cur rest := by
  refine ⟨h.toQueue.congr ?_ ?_ (saveContext_state t sw regs)
    (fun p _ => by rw [saveContext_next]), ?_⟩
  · cases sw <;> rfl
  · cases sw <;> rfl
  · rw [saveContext_state]
    exact h.running

/-- A call that ends in a yield. -/
theorem switched_yield (h : Queue t cur rest) (k : Kern σ) (regs : CpuContext) :
    ∃ t', k.switched (schedulerYield t) regs = some ({ k with table := t' }, .quiet) ∧
      (∃ head' rest', Scheduled t' head' rest') ∧ SameLife t t' ∧
      ∀ p, (t'.proc p).core = (t.proc p).core := by
  obtain ⟨t', sw, hyield, hcase⟩ := h.yield
  obtain ⟨⟨head', rest', hsched⟩, hlife, hcore⟩ := h.yielded hcase
  refine ⟨saveContext t' sw regs, ?_, ⟨head', rest', hsched.saveContext sw regs⟩, ?_, ?_⟩
  · rw [Kern.switched, hyield]
    rfl
  · intro p st hready hrunning
    rw [saveContext_state]
    exact hlife p st hready hrunning
  · intro p
    rw [saveContext_core, hcore]

/-- The table a process leaves when it exits. -/
theorem Scheduled.exited (h : Scheduled t cur rest) (hidle : cur ≠ idle)
    (status : BitVec 32) : Queue (exitTable t cur status) cur rest := by
  have hstates := exitTable_state t cur status
  have hlinks : (exitTable t cur status).next = t.next := by
    rw [exitTable, Table.next_setState,
      t.next_modify cur (fun p => { p with exitStatus := status }) (fun _ => rfl)]
  refine ⟨h.current, h.runQueue, hlinks ▸ h.ring, ?_, ?_, ?_, ?_⟩
  · intro p
    rw [h.members p, hstates]
    by_cases hp : p = cur
    · subst hp
      simp [h.running]
    · rw [update_of_ne hp]
  · intro p hp
    rw [hstates, update_of_ne hp]
    exact h.others p hp
  · exact .inr (by rw [hstates, update_self])
  · have := h.idle_runnable
    rw [runnable_iff] at this ⊢
    rwa [hstates, update_of_ne hidle.symm]

/-- A slot that is taken, filled and linked in. -/
theorem Scheduled.taken {pid : Slot} (h : Scheduled t cur rest)
    (hfree : t.state pid = .unused) {t' : Table} (hcurrent : t'.current = t.current)
    (hqueue : t'.runQueue = t.runQueue) (hstate : t'.state = update t.state pid .ready)
    (hnext : ∀ p, t.state p ≠ .unused → t'.next p = t.next p) :
    Scheduled (schedulerAdd t' pid) cur (pid :: rest) := by
  have hq := h.toQueue.add hfree hcurrent hqueue hstate hnext
  refine ⟨hq, ?_⟩
  have hne : cur ≠ pid := by
    rintro rfl
    exact h.head_used hfree
  have hkept : (schedulerAdd t' pid).state = t'.state := by
    rw [schedulerAdd, hqueue, h.runQueue, Table.state_setNext, Table.state_setNext]
  rw [hkept, hstate, update_of_ne hne]
  exact h.running

variable {f : Proc → Proc}

section

variable (h : Scheduled t cur rest)
include h

/-- A slot that is taken and given back. -/
theorem Scheduled.given_back {pid : Slot}
    (hfree : t.state pid = .unused) (hunused : ∀ p, (f p).state = .unused) :
    Scheduled (t.modify pid f) cur rest := by
  have hstate : (t.modify pid f).state = t.state := by
    rw [t.state_modify_to pid f hunused, ← hfree, update_eq_self]
  refine ⟨h.toQueue.congr rfl rfl hstate (fun p hp => ?_), by rw [hstate]; exact h.running⟩
  have hne : p ≠ pid := by
    rintro rfl
    exact hp hfree
  simp [Table.next, hne]

/-- A change of other fields does not concern the queue. -/
theorem Scheduled.modify (p : Slot)
    (hfs : ∀ q, (f q).state = q.state) (hfn : ∀ q, (f q).next = q.next) :
    Scheduled (t.modify p f) cur rest := by
  have hstate : (t.modify p f).state = t.state := t.state_modify p f hfs
  have hnext : (t.modify p f).next = t.next := t.next_modify p f hfn
  exact ⟨h.toQueue.congr rfl rfl hstate (fun p _ => by rw [hnext]), by rw [hstate]; exact h.running⟩

theorem Scheduled.setPml4 (src : U64) :
    Scheduled (t.modify cur (fun p => { p with pml4Phys := src })) cur rest := by
  refine h.modify cur ?_ ?_ <;> exact fun _ => rfl

/-- A slot filled with a ready process and linked in. -/
theorem Scheduled.filled {pid : Slot}
    (hfree : t.state pid = .unused) (hready : ∀ p, (f p).state = .ready) :
    Scheduled (schedulerAdd (t.modify pid f) pid) cur (pid :: rest) := by
  refine h.taken hfree rfl rfl (t.state_modify_to pid f hready) (fun p hp => ?_)
  have hne : p ≠ pid := by
    rintro rfl
    exact hp hfree
  simp [Table.next, hne]

theorem Forked.scheduled {env : Platform σ} {m m' : σ} {t' : Table} {r : Option Slot}
    (hforked : Forked env m t cur m' t' r) :
    ∃ rest', Scheduled t' cur rest' := by
  cases hforked with
  | full => exact ⟨rest, h⟩
  | failed hfree src hunused =>
    refine ⟨rest, (h.setPml4 src).given_back ?_ hunused⟩
    rwa [t.state_modify cur (fun p => { p with pml4Phys := src }) (fun _ => rfl)]
  | @created _ pid hfree src =>
    refine ⟨pid :: rest, (h.setPml4 src).filled ?_ (fun _ => rfl)⟩
    rwa [t.state_modify cur (fun p => { p with pml4Phys := src }) (fun _ => rfl)]

/-- `process_waitpid` reaps a zombie. -/
theorem Scheduled.reap {child : Slot} (hzombie : t.state child = .zombie) :
    ∃ t' rest', waitpidReap t child = some (t', (t.proc child).exitStatus) ∧
      Scheduled t' cur rest' ∧ t'.state = update t.state child .unused ∧
      ∀ p, (t'.proc p).core = (t.proc p).core := by
  have hne : child ≠ cur := by
    rintro rfl
    exact absurd (h.running.symm.trans hzombie) (by decide)
  obtain ⟨t₁, rest', hremove, hcurrent, hqueue, hring, hmem, hstate, hcore⟩ :=
    h.toQueue.remove hne (by simp [hzombie])
  have hstates : (t₁.setState child .unused).state = update t.state child .unused := by
    rw [Table.state_setState, hstate]
  have hstatus : (t₁.proc child).exitStatus = (t.proc child).exitStatus := by
    change (t₁.proc child).core.exitStatus = (t.proc child).core.exitStatus
    rw [hcore]
  have hruns : (t₁.setState child .unused).state cur = .running := by
    rw [hstates, update_of_ne hne.symm]
    exact h.running
  refine ⟨t₁.setState child .unused, rest', ?_, ⟨⟨hcurrent, hqueue, ?_, ?_, ?_, .inl hruns, ?_⟩,
    hruns⟩, hstates, ?_⟩
  · rw [waitpidReap, hremove, map_some, hstatus]
  · rw [Table.next_setState]
    exact hring
  · intro p
    rw [hmem p, h.members p, hstates]
    by_cases hp : p = child
    · simp [hp]
    · simp [hp]
  · intro p hp
    rw [hstates]
    by_cases hpc : p = child
    · simp [hpc]
    · rw [update_of_ne hpc]
      exact h.others p hp
  · have hidle := runnable_iff.mp h.idle_runnable
    have hic : idle ≠ child := by
      rintro rfl
      simp [hzombie] at hidle
    rw [runnable_iff, hstates, update_of_ne hic]
    exact hidle
  · intro p
    rw [core_setState, hcore]

end

/-- **What a step does.**  From a scheduled table every step of the current
process ends, leaves a scheduled table and has one of the listed effects. -/
theorem step_change (h : Scheduled k.table cur rest) (c : Call)
    (hidle : ∀ status regs, c = .exit status regs → cur ≠ idle) :
    ∃ k' event, k.step env c = some (k', event) ∧
      (∃ head' rest', Scheduled k'.table head' rest') ∧ Change env k cur c k' event := by
  have hyield : ∀ regs, ∃ k' event, k.switched (schedulerYield k.table) regs = some (k', event) ∧
        (∃ head' rest', Scheduled k'.table head' rest') ∧ Change env k cur c k' event := by
    intro regs
    obtain ⟨t', hstep, hsched, hlife, hcore⟩ := switched_yield h.toQueue k regs
    exact ⟨_, _, hstep, hsched, .yields hlife hcore⟩
  have hignored : ∃ k' event, some (k, Event.quiet) = some (k', event) ∧
      (∃ head' rest', Scheduled k'.table head' rest') ∧ Change env k cur c k' event :=
    ⟨k, .quiet, rfl, ⟨cur, rest, h⟩, .ignored⟩
  rw [Kern.step, h.current]
  dsimp only
  cases hwait : k.waiting cur with
  | none =>
    cases c with
    | yield regs => exact hyield regs
    | fork =>
      have hforked := processFork_forked env k.mem k.table h.current h.head_used
      generalize processFork env k.mem k.table = r at hforked ⊢
      obtain ⟨m', t', res⟩ := r
      obtain ⟨rest', hsched⟩ := hforked.scheduled h
      cases res with
      | none => exact ⟨_, _, rfl, ⟨cur, rest', hsched⟩, .forkFails hwait hforked⟩
      | some child => exact ⟨_, _, rfl, ⟨cur, rest', hsched⟩, .forks hwait hforked⟩
    | exit status regs =>
      dsimp only
      rw [sysExit_eq h.current]
      have hq := h.exited (hidle status regs rfl) status
      obtain ⟨t', hstep, hsched, hlife, hcore⟩ := switched_yield hq k regs
      exact ⟨_, _, hstep, hsched, .exits hwait hlife hcore⟩
    | waitpid pid =>
      cases hchild : waitpidChild k.table cur pid with
      | none => simpa only [hchild] using hignored
      | some child =>
        simp only [hchild]
        exact ⟨_, _, rfl, ⟨cur, rest, h⟩, .waits hwait hchild⟩
    | poll regs => exact hignored
  | some child =>
    cases c with
    | yield regs => exact hyield regs
    | poll regs =>
      by_cases hzombie : k.table.state child = .zombie
      · obtain ⟨t', rest', hreap, hsched, hstate, hcore⟩ := h.reap hzombie
        refine ⟨_, _, ?_, ⟨cur, rest', hsched⟩, .reaps hwait hzombie hstate hcore⟩
        simp only [if_pos hzombie, hreap, map_some]
      · simpa only [if_neg hzombie] using hyield regs
    | fork => exact hignored
    | exit status regs => exact hignored
    | waitpid pid => exact hignored

/-! ## Boot -/

/-- A launch at boot adds a process to the queue, or nothing. -/
theorem launch_scheduled (h : Scheduled t cur rest) (m : σ) (image : Image) :
    ∃ rest', Scheduled (launch env m t image).2 cur rest' := by
  rw [launch, kthreadCreate]
  cases hpid : allocPid t with
  | none => exact ⟨rest, h⟩
  | some pid =>
    have hfree := allocPid_unused hpid
    by_cases hstack : (env.kmalloc m kstackSize).2 = 0#64
    · simp only [hstack, if_true, Table.setState, Table.modify_modify]
      exact ⟨rest, h.given_back hfree (fun _ => rfl)⟩
    · simp only [hstack, if_false, Table.modify_modify]
      exact ⟨pid :: rest, h.filled hfree (fun _ => rfl)⟩

theorem init_scheduled : Scheduled (schedulerInit (processInit blankTable)) idle [] := by
  have hused : ∀ p, (schedulerInit (processInit blankTable)).state p =
      if p = idle then .running else .unused := by
    decide +kernel
  refine ⟨⟨rfl, rfl, .single rfl, ?_, ?_, .inl rfl, rfl⟩, rfl⟩
  · intro p
    rw [hused]
    by_cases hp : p = idle <;> simp [hp]
  · intro p hp
    simp [hused, hp]

theorem boot_scheduled (m : σ) (images : List Image) :
    ∃ rest, Scheduled (boot env m images).table idle rest := by
  have hlaunches : ∀ (images : List Image) (r : σ × Table),
      (∃ rest, Scheduled r.2 idle rest) → ∃ rest,
        Scheduled (images.foldl (fun r image => launch env r.1 r.2 image) r).2 idle rest := by
    intro images
    induction images with
    | nil => exact fun _ h => h
    | cons image images ih =>
      rintro r ⟨rest, h⟩
      exact ih _ (launch_scheduled env h r.1 image)
  exact hlaunches images _ ⟨[], init_scheduled⟩

end

/-! ## The invariant over whole runs -/

/-- The idle process does not exit. -/
def IdleStays (s : Option (Kern σ)) : Call → Prop
  | .exit _ _ => ∀ k ∈ s, k.table.current ≠ some idle
  | _ => True

/-- The shape of the run queue, in the kernel's own terms. -/
structure RunQueueOk (t : Table) : Prop where
  /-- The links from `run_queue` form one simple cycle, of the slots in use. -/
  cycle : ∃ head rest, t.runQueue = some head ∧ Ring t.next head rest ∧
    ∀ p, p ∈ head :: rest ↔ t.state p ≠ .unused
  current : t.runQueue = t.current
  running : ∀ p, t.state p = .running → t.current = some p

/-- `scheduler_yield` ends, and what it makes current is neither a zombie nor
unused. -/
def YieldsToLive (t : Table) : Prop := ∃ t' sw, schedulerYield t = some (t', sw) ∧
    ∀ p, t'.current = some p → t.state p ≠ .zombie ∧ t.state p ≠ .unused

theorem Scheduled.runQueueOk {head : Slot} {rest : List Slot}
    (h : Scheduled t head rest) : RunQueueOk t where
  cycle := ⟨head, rest, h.runQueue, h.ring, h.members⟩
  current := h.runQueue.trans h.current.symm
  running p hp := by
    by_contra hne
    refine h.others p ?_ hp
    rintro rfl
    exact hne h.current

theorem Queue.yieldsToLive {head : Slot} {rest : List Slot} (h : Queue t head rest) :
    YieldsToLive t := by
  obtain ⟨t', sw, hyield, hcase⟩ := h.yield
  refine ⟨t', sw, hyield, fun p hp => ?_⟩
  have hrun : runnable t p = true := by
    cases hcase with
    | stays hrun =>
      rw [h.current] at hp
      exact Option.some.inj hp ▸ hrun
    | switches hnext hrun => exact Option.some.inj hp ▸ hrun
  rcases runnable_iff.mp hrun with hst | hst <;> simp [hst]

/-- A run that has not hung and whose table is scheduled. -/
def Sound (s : Option (Kern σ)) : Prop := ∃ k, s = some k ∧ ∃ head rest, Scheduled k.table head rest

theorem step_sound {s : Option (Kern σ)} {c : Call} (h : Sound s) (hidle : IdleStays s c) :
    Sound (step env s c) := by
  obtain ⟨k, rfl, cur, rest, hsched⟩ := h
  have hstays : ∀ status regs, c = .exit status regs → cur ≠ idle := by
    rintro status regs rfl rfl
    exact hidle k rfl hsched.current
  obtain ⟨k', event, hstep, hsched', -⟩ := step_change env hsched c hstays
  exact ⟨k', by rw [step, bind_some, hstep]; rfl, hsched'⟩

/-- **The run queue over whole runs.**  After boot and any calls of the current
processes, as long as idle does not exit: the run has not hung in a loop, the
links from `run_queue` form one simple cycle of exactly the slots in use,
`run_queue` is the current process and only it is marked running; and whatever
is called next, the loops of `scheduler_yield` and `scheduler_remove` end, and
no yield makes a zombie or an unused slot current, not even that of an exit. -/
theorem run_queue_invariant (m : σ) (images : List Image) (calls : List Call)
    (hidle : StepsMeet (step env) IdleStays (some (boot env m images)) calls) :
    ∃ k, run (step env) (some (boot env m images)) calls = some k ∧
      RunQueueOk k.table ∧ YieldsToLive k.table ∧
      (∀ cur status, k.table.current = some cur → cur ≠ idle →
        YieldsToLive (exitTable k.table cur status)) ∧
      ∀ p, (schedulerRemove k.table p).isSome := by
  obtain ⟨rest, hboot⟩ := boot_scheduled env m images
  obtain ⟨k, hrun, head, rest, hsched⟩ := run_invariant Sound
    (fun s c hs hok => step_sound env hs hok) ⟨_, rfl, idle, rest, hboot⟩ hidle
  refine ⟨k, hrun, hsched.runQueueOk, hsched.yieldsToLive, ?_, hsched.toQueue.remove_ends⟩
  intro cur status hcur hne
  obtain rfl : head = cur := Option.some.inj (hsched.current.symm.trans hcur)
  exact (hsched.exited hne status).yieldsToLive

/-- A platform whose allocations succeed. -/
def ample : Platform Unit where
  kmalloc _ _ := ((), 0x1000#64)
  kfree _ _ := ()
  vmmCreateUserPml4 _ := ((), 0x2000#64)
  vmmForkPml4 _ _ := ((), 0x3000#64)
  forkSysretTrampoline := 0x4000#64

/-- A child is forked, runs, exits and is reaped, and its slot is used
again. -/
def reuse : List Call := [.fork, .yield {}, .exit 7#32 {}, .waitpid 1, .poll {}, .fork]

theorem run_queue_invariant_reuse :
    ∃ k, run (step ample) (some (boot ample () [])) reuse = some k ∧ RunQueueOk k.table ∧
      YieldsToLive k.table ∧
      (∀ cur status, k.table.current = some cur → cur ≠ idle →
        YieldsToLive (exitTable k.table cur status)) ∧
      ∀ p, (schedulerRemove k.table p).isSome :=
  run_queue_invariant ample () [] reuse
    ⟨trivial, trivial, by unfold IdleStays; decide +kernel, trivial, trivial, trivial, trivial⟩

end Process
