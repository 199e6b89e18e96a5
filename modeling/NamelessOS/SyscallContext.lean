import NamelessOS.ProcessRuns

/-!
# The user context of a system call

`syscall_entry` writes the user's RIP, RSP and RFLAGS to three globals, pushes
them on the caller's kernel stack and enables interrupts; only then does
`syscall_dispatch` copy the globals to the process by `process_save_user_ctx`.
The machine interleaves the system calls of all processes: entry is one step
(interrupts are off), the copy is another, and a switch can come between any
two.

The stack frame belongs to the process, the globals to nobody.  The copy is the
process's own context if no other process enters a system call between an entry
and its copy (`EntersAlone`), and it need not be otherwise.
-/

namespace Process

open ByteOrder LinkedRing Runs
open Function (update update_of_ne)

variable {σ : Type} (env : Platform σ)

/-! ## The machine -/

/-- Where a process stands.  `frame` is what `syscall_entry` pushed on its
kernel stack. -/
inductive Phase
  /-- A kernel thread: idle. -/
  | kernel
  | user
  /-- Between `sti` and `process_save_user_ctx`. -/
  | entered (frame : UserContext)
  /-- In the body of the system call. -/
  | serving (frame : UserContext)
  deriving DecidableEq

structure Machine (σ : Type) where
  kern : Kern σ
  /-- `syscall_saved_user_rip`, `syscall_saved_user_rsp` and
  `syscall_saved_user_rflags`. -/
  saved : UserContext
  phase : Slot → Phase

/-- A step of the running process; a `yield` is also what a timer interrupt
does to it. -/
inductive Act
  /-- `SYSCALL` with this user context, up to `sti`. -/
  | syscall (ctx : UserContext)
  /-- The call of `process_save_user_ctx` in `syscall_dispatch`. -/
  | save
  | call (c : Call)
  | sysret

/-- The phases after a step of the kernel: a forked child goes to user mode by
`fork_sysret_trampoline`. -/
def Machine.after (s : Machine σ) (k' : Kern σ) : Event → Machine σ
  | .forked child => { s with kern := k', phase := update s.phase child .user }
  | _ => { s with kern := k' }

def Machine.step (s : Machine σ) (a : Act) : Option (Machine σ) :=
  match s.kern.table.current with
  | none => some s
  | some cur =>
    match s.phase cur, a with
    | _, .call (.yield regs) =>
      (s.kern.step env (.yield regs)).map (fun r => s.after r.1 r.2)
    | .user, .syscall ctx =>
      some { s with saved := ctx, phase := update s.phase cur (.entered ctx) }
    | .entered frame, .save =>
      some
        { s with
          kern := { s.kern with table := processSaveUserCtx s.kern.table s.saved }
          phase := update s.phase cur (.serving frame) }
    | .serving _, .call c => (s.kern.step env c).map (fun r => s.after r.1 r.2)
    | .serving _, .sysret =>
      -- a process inside the loop of `process_waitpid` does not return
      if s.kern.waiting cur = none then
        some { s with phase := update s.phase cur .user }
      else some s
    | _, _ => some s

def machineStep (s : Option (Machine σ)) (a : Act) : Option (Machine σ) :=
  s.bind (fun s => s.step env a)

def Machine.boot (m : σ) (images : List Image) : Machine σ where
  kern := Process.boot env m images
  saved := { rip := 0#64, rsp := 0#64, rflags := 0#64 }
  phase p := if p = idle then .kernel else .user

/-! ## Entries and copies -/

/-- The context of a process between its entry and its copy. -/
def Phase.pending : Phase → Option UserContext
  | .entered frame => some frame
  | _ => none

/-- No process enters a system call while another stands between its own entry
and its copy. -/
def EntersAlone (s : Option (Machine σ)) : Act → Prop
  | .syscall _ => ∀ s' ∈ s, ∀ p, (s'.phase p).pending ≠ none → s'.kern.table.current = some p
  | _ => True

/-- What `process_save_user_ctx` stores for a process is the context it entered
with. -/
def SavesOwn (s : Option (Machine σ)) : Act → Prop
  | .save => ∀ s' ∈ s, ∀ cur ∈ s'.kern.table.current, ∀ frame ∈ (s'.phase cur).pending,
      ∀ s'' ∈ s'.step env .save, (s''.kern.table.proc cur).userContext = frame
  | _ => True

instance (s : Option (Machine σ)) : (a : Act) → Decidable (EntersAlone s a)
  | .syscall _ => inferInstanceAs (Decidable (∀ s' ∈ s, _))
  | .save | .call _ | .sysret => isTrue trivial

instance (s : Option (Machine σ)) : (a : Act) → Decidable (SavesOwn env s a)
  | .save => inferInstanceAs (Decidable (∀ s' ∈ s, _))
  | .syscall _ | .call _ | .sysret => isTrue trivial

/-- Between its entry and its copy a process finds its own context in the
globals. -/
structure Held (s : Machine σ) : Prop where
  scheduled : ∃ cur rest, Scheduled s.kern.table cur rest
  idle_kernel : s.phase idle = .kernel
  own : ∀ p frame, s.phase p = .entered frame → s.saved = frame

section

variable {env} {s : Machine σ} {cur : Slot} {rest : List Slot}

/-- A step of the kernel touches neither the globals nor the phase of a process
in a system call. -/
theorem Held.after {k' : Kern σ} {c : Call} {event : Event} (h : Held s)
    (hsched : Scheduled s.kern.table cur rest)
    (hsched' : ∃ cur' rest', Scheduled k'.table cur' rest')
    (hchange : Change env s.kern cur c k' event) : Held (s.after k' event) := by
  cases hchange with
  | @forks m' t' child hidle hforked =>
    have hfree : s.kern.table.state child = .unused := by
      cases hforked with
      | created hfree => exact hfree
    have hne : idle ≠ child := by
      rintro rfl
      have := runnable_iff.mp hsched.idle_runnable
      simp [hfree] at this
    refine ⟨hsched', (update_of_ne hne ..).trans h.idle_kernel, fun p frame hp => ?_⟩
    by_cases hpc : p = child
    · subst hpc
      simp [Machine.after] at hp
    · exact h.own p frame ((update_of_ne hpc ..).symm.trans hp)
  | _ => exact ⟨hsched', h.idle_kernel, h.own⟩

theorem Held.call (h : Held s) (hsched : Scheduled s.kern.table cur rest) (c : Call)
    (hexit : ∀ status regs, c = .exit status regs → cur ≠ idle) :
    ∃ s', (s.kern.step env c).map (fun r => s.after r.1 r.2) = some s' ∧ Held s' := by
  obtain ⟨k', event, hstep, hsched', hchange⟩ := step_change env hsched c hexit
  exact ⟨s.after k' event, by rw [hstep]; rfl, h.after hsched hsched' hchange⟩

theorem Held.moves (h : Held s) (cur : Slot) (hcur : s.phase cur ≠ .kernel) {s' : Machine σ}
    {phase : Phase}
    (hsched : ∃ cur' rest', Scheduled s'.kern.table cur' rest')
    (hphase : s'.phase = update s.phase cur phase)
    (hself : ∀ frame, phase = .entered frame → s'.saved = frame)
    (hothers : ∀ p frame, p ≠ cur → s.phase p = .entered frame → s'.saved = frame) : Held s' := by
  refine ⟨hsched, ?_, fun p frame hp => ?_⟩
  · have hne : idle ≠ cur := by
      rintro rfl
      exact hcur h.idle_kernel
    rw [hphase, update_of_ne hne]
    exact h.idle_kernel
  · rw [hphase] at hp
    grind

theorem processSaveUserCtx_scheduled {t : Table} (h : Scheduled t cur rest) (ctx : UserContext) :
    Scheduled (processSaveUserCtx t ctx) cur rest := by
  have hstate := processSaveUserCtx_state t ctx
  have hnext : (processSaveUserCtx t ctx).next = t.next := by
    grind [processSaveUserCtx, Table.next_modify]
  refine ⟨h.toQueue.congr ?_ ?_ hstate (fun p _ => by rw [hnext]), by rw [hstate]; exact h.running⟩
  · rw [processSaveUserCtx, h.current]
    exact h.current
  · rw [processSaveUserCtx, h.current]
    rfl

variable (env) in
theorem Held.step (h : Held s) {a : Act} (hok : EntersAlone (some s) a) :
    ∃ s', s.step env a = some s' ∧ Held s' := by
  obtain ⟨cur, rest, hsched⟩ := h.scheduled
  have hignored : ∃ s', some s = some s' ∧ Held s' := ⟨s, rfl, h⟩
  have hyield : ∀ regs, ∃ s', (s.kern.step env (.yield regs)).map (fun r => s.after r.1 r.2) =
      some s' ∧ Held s' :=
    fun regs => h.call hsched (.yield regs) (by rintro _ _ ⟨⟩)
  rw [Machine.step, hsched.current]
  dsimp only
  cases hphase : s.phase cur with
  | kernel =>
    cases a with
    | call c => cases c with
      | yield regs => exact hyield regs
      | _ => exact hignored
    | _ => exact hignored
  | user =>
    cases a with
    | call c => cases c with
      | yield regs => exact hyield regs
      | _ => exact hignored
    | syscall ctx =>
      refine ⟨_, rfl, h.moves cur (by simp [hphase]) ⟨cur, rest, hsched⟩ rfl ?_ ?_⟩
      · rintro frame ⟨⟩
        rfl
      · -- nobody else is between an entry and its copy
        intro p frame hp hentered
        have hcur := hok s rfl p (by simp [hentered, Phase.pending])
        exact absurd (Option.some.inj (hcur.symm.trans hsched.current)) hp
    | _ => exact hignored
  | entered frame =>
    cases a with
    | call c => cases c with
      | yield regs => exact hyield regs
      | _ => exact hignored
    | save =>
      refine ⟨_, rfl, h.moves cur (by simp [hphase])
        ⟨cur, rest, processSaveUserCtx_scheduled hsched s.saved⟩ rfl (by simp) ?_⟩
      exact fun p frame _ hentered => h.own p frame hentered
    | _ => exact hignored
  | serving frame =>
    have hne : cur ≠ idle := by
      rintro rfl
      rw [h.idle_kernel] at hphase
      cases hphase
    cases a with
    | call c => cases c with
      | yield regs => exact hyield regs
      | _ => exact h.call hsched _ (fun _ _ _ => hne)
    | sysret =>
      dsimp only
      split
      · refine ⟨_, rfl, h.moves cur (by simp [hphase]) ⟨cur, rest, hsched⟩ rfl
          (by simp) ?_⟩
        exact fun p frame _ hentered => h.own p frame hentered
      · exact hignored
    | _ => exact hignored

theorem Held.savesOwn (h : Held s) (a : Act) : SavesOwn env (some s) a := by
  cases a with
  | save =>
    rintro s' hs' cur hcur frame hframe s'' hs''
    obtain rfl : s = s' := Option.some.inj hs'
    have hphase : s.phase cur = .entered frame := by
      cases hp : s.phase cur with
      | entered frame' =>
        rw [hp] at hframe
        exact congrArg Phase.entered (Option.some.inj hframe)
      | _ => simp [hp, Phase.pending] at hframe
    have hstep : s.step env .save = some
        { s with
          kern := { s.kern with table := processSaveUserCtx s.kern.table s.saved }
          phase := update s.phase cur (.serving frame) } := by
      simp only [Machine.step, Option.mem_def.mp hcur, hphase]
    obtain rfl := Option.some.inj (hstep.symm.trans hs'')
    simp [processSaveUserCtx, Option.mem_def.mp hcur, Proc.userContext, h.own cur frame hphase]
  | _ => trivial

end

/-! ## Whole runs -/

def Running (s : Option (Machine σ)) : Prop := ∃ s', s = some s' ∧ Held s'

theorem running_boot (m : σ) (images : List Image) : Running (some (Machine.boot env m images)) := by
  refine ⟨_, rfl, ⟨idle, boot_scheduled env m images⟩, rfl, fun p frame hp => ?_⟩
  change (if p = idle then Phase.kernel else .user) = .entered frame at hp
  split at hp <;> cases hp

theorem running_step (s : Option (Machine σ)) (a : Act) (h : Running s) (hok : EntersAlone s a) :
    Running (machineStep env s a) := by
  obtain ⟨s, rfl, hheld⟩ := h
  obtain ⟨s', hstep, hheld'⟩ := hheld.step env hok
  exact ⟨s', hstep, hheld'⟩

/-- **Own contexts.**  On every interleaving of system calls in which no process
enters one while another stands between its entry and its copy, the kernel does
not hang and `process_save_user_ctx` stores for each process the context it
entered with. -/
theorem syscall_context_own (m : σ) (images : List Image) (acts : List Act)
    (hok : StepsMeet (machineStep env) EntersAlone (some (Machine.boot env m images)) acts) :
    (∃ s, run (machineStep env) (some (Machine.boot env m images)) acts = some s) ∧
      StepsMeet (machineStep env) (SavesOwn env) (some (Machine.boot env m images)) acts := by
  constructor
  · obtain ⟨s, hrun, -⟩ := run_invariant Running (running_step env) (running_boot env m images) hok
    exact ⟨s, hrun⟩
  · refine stepsMeet_of_invariant Running (running_step env) ?_ (running_boot env m images) hok
    rintro _ a ⟨s, rfl, hheld⟩ -
    exact hheld.savesOwn a

def shellContext : UserContext := { rip := 0x401000#64, rsp := 0x7FFFEF00#64, rflags := 0x202#64 }

def httpdContext : UserContext := { rip := 0x402000#64, rsp := 0x7FFFE000#64, rflags := 0x246#64 }

def twoImages : List Image :=
  [{ pml4Phys := 0x5000#64, kstack := 0x6000#64, kstackRsp := 0x7fd8#64, fn := 0x8000#64 },
    { pml4Phys := 0x9000#64, kstack := 0xa000#64, kstackRsp := 0xbfd8#64, fn := 0x8000#64 }]

/-- Two processes make system calls, preempted after their copies. -/
def takingTurns : List Act :=
  [.call (.yield {}), .syscall shellContext, .save, .call (.yield {}), .syscall httpdContext,
    .save, .call .fork, .sysret]

theorem syscall_context_own_takingTurns :
    (∃ s, run (machineStep ample) (some (Machine.boot ample () twoImages)) takingTurns = some s) ∧
      StepsMeet (machineStep ample) (SavesOwn ample) (some (Machine.boot ample () twoImages))
        takingTurns :=
  syscall_context_own ample () twoImages takingTurns (by decide +kernel)

/-- The first process is preempted between its entry and its copy, and the
second one enters a system call. -/
def preempted : List Act :=
  [.call (.yield {}), .syscall shellContext, .call (.yield {}), .syscall httpdContext, .save,
    .call (.yield {}), .call (.yield {}), .save]

/-- Back in its own call, the first process is given the context of the
second. -/
theorem preempted_saves_foreign :
    ((run (machineStep ample) (some (Machine.boot ample () twoImages)) preempted).bind (fun s =>
      s.kern.table.current.map (fun cur =>
        (s.phase cur, (s.kern.table.proc cur).userContext)))) =
      some (.serving shellContext, httpdContext) ∧
    ¬ StepsMeet (machineStep ample) (SavesOwn ample) (some (Machine.boot ample () twoImages))
      preempted := by
  constructor <;> decide +kernel

end Process
