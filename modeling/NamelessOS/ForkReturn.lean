import NamelessOS.Amd64
import NamelessOS.ProcessRuns

/-!
# The two returns of a fork

A fork system call returns twice.  The parent comes back through the end of
`syscall_entry`; the child's first return is a `context_switch` into the context
that `process_fork` built, whose `rip` is `fork_sysret_trampoline`.  The code of
`syscall_entry.asm` and `scheduler.asm` is executed instruction by instruction,
the C code in between is bound by the System V calling convention and by
`process_fork`.

The child resumes at the parent's RIP, RSP and RFLAGS.  The other registers are
those of the context: three zeros, and the three values the trampoline needs.
-/

namespace Process

open ByteOrder WordMemory Amd64 List
open Function (update update_apply)

/-! ## The code -/

/-- The addresses of the variables of `syscall_entry.asm`, and of
`syscall_entry`. -/
structure Symbols where
  savedUserRip : U64
  savedUserRsp : U64
  savedUserRflags : U64
  kernelRsp : U64
  syscallEntry : U64

/-- `SFMASK_VALUE`. -/
def sfmaskValue : U64 := 0x200#64 ||| 0x400#64

/-- `syscall_entry` up to the call of `syscall_dispatch`. -/
def syscallEntryCode (sym : Symbols) : List Instr := [.storeRel sym.savedUserRip .rcx,
    .storeRel sym.savedUserRsp .rsp,
    .storeRel sym.savedUserRflags .r11,
    .loadRel .rsp sym.kernelRsp,
    .push .r11,
    .push .rcx,
    .pushRel sym.savedUserRsp,
    .mov .r9 .r8,
    .mov .r8 .r10,
    .mov .rcx .rdx,
    .mov .rdx .rsi,
    .mov .rsi .rdi,
    .mov .rdi .rax,
    .sti]

/-- `syscall_entry` from the return of `syscall_dispatch` to the `sysret`. -/
def syscallExitCode : List Instr := [.cli, .load .rcx .rsp 8#64, .load .r11 .rsp 16#64, .pop .rsp]

/-- `context_switch`: the registers and the return address are saved. -/
def saveContextCode : List Instr := [.store .rdi 0#64 .rbx, .store .rdi 8#64 .rbp,
    .store .rdi 16#64 .r12,
    .store .rdi 24#64 .r13,
    .store .rdi 32#64 .r14,
    .store .rdi 40#64 .r15,
    .load .rax .rsp 0#64,
    .store .rdi 56#64 .rax,
    .lea .rax .rsp 8#64,
    .store .rdi 48#64 .rax]

/-- `context_switch`: the new registers and the new stack. -/
def restoreContextCode : List Instr := [.load .rbx .rsi 0#64, .load .rbp .rsi 8#64,
    .load .r12 .rsi 16#64,
    .load .r13 .rsi 24#64,
    .load .r14 .rsi 32#64,
    .load .r15 .rsi 40#64,
    .load .rsp .rsi 48#64]

/-- `context_switch`: the new address space, if there is one, and the jump. -/
def switchCr3Code : List Instr := [.test .rdx .rdx, .jz 6, .movFromCr3 .rax,
    .movImm .rcx 0xffffffffff000#64,
    .and .rax .rcx,
    .cmp .rax .rdx,
    .jz 1,
    .movToCr3 .rdx,
    .jmpMem .rsi 56#64]

/-- `context_switch`. -/
def contextSwitchCode : List Instr := saveContextCode ++ (restoreContextCode ++ switchCr3Code)

/-- `fork_sysret_trampoline` up to the `sysret`. -/
def trampolineCode : List Instr :=
  [.mov .rcx .r12, .mov .r11 .r13, .mov .rsp .r14, .xor32 .rax .rax]

/-! ## A fork system call -/

/-- The state in which `syscall_dispatch` is called, after a `SYSCALL` in the
state `user`. -/
def entered (sym : Symbols) (user : Cpu) : Cpu :=
  exec (syscallEntryCode sym) 0 (syscall sym.syscallEntry sfmaskValue user)

/-- The context that `syscall_dispatch` passes to `process_save_user_ctx`. -/
def savedContext (sym : Symbols) (m : Memory) : UserContext :=
  { rip := m sym.savedUserRip, rsp := m sym.savedUserRsp, rflags := m sym.savedUserRflags }

/-- The variables are apart from each other and from the top of the kernel
stack `k`. -/
structure Layout (sym : Symbols) (k : U64) : Prop where
  globals : [sym.savedUserRip, sym.savedUserRsp, sym.savedUserRflags, sym.kernelRsp].Nodup
  stack : ∀ a ∈ [sym.savedUserRip, sym.savedUserRsp, sym.savedUserRflags],
    a ≠ k - 8#64 ∧ a ≠ k - 16#64 ∧ a ≠ k - 24#64

/-- The words of a `cpu_context_t` at address `a`. -/
structure ContextAt (m : Memory) (a : U64) (ctx : CpuContext) : Prop where
  rbx : m (a + 0#64) = ctx.rbx
  rbp : m (a + 8#64) = ctx.rbp
  r12 : m (a + 16#64) = ctx.r12
  r13 : m (a + 24#64) = ctx.r13
  r14 : m (a + 32#64) = ctx.r14
  r15 : m (a + 40#64) = ctx.r15
  rsp : m (a + 48#64) = ctx.rsp
  rip : m (a + 56#64) = ctx.rip

/-- The offsets of the fields of a `cpu_context_t`. -/
def contextOffsets : List U64 := [0#64, 8#64, 16#64, 24#64, 32#64, 40#64, 48#64, 56#64]

variable {σ : Type} (env : Platform σ) (sym : Symbols)

/-- A fork system call of the process `cur`, to its return and to the switch to
the child. -/
structure ForkRun where
  /-- The registers at the `SYSCALL`; `rip` is the instruction behind it. -/
  user : Cpu
  layout : Layout sym (user.mem sym.kernelRsp)
  mem : σ
  table : Table
  cur : Slot
  current : table.current = some cur
  used : table.state cur ≠ .unused
  mem' : σ
  table' : Table
  child : Slot
  /-- `process_save_user_ctx` and `process_fork`, in `syscall_dispatch`. -/
  forked : processFork env mem
    (processSaveUserCtx table (savedContext sym (entered sym user).mem)) = (mem', table', some child)
  /-- The state in which `syscall_dispatch` returns. -/
  back : Cpu
  returned : Returned 3 (entered sym user) back
  result : back.reg .rax = BitVec.ofNat 64 child
  /-- The state in which `context_switch` is called for the child. -/
  switch : Cpu
  context : ContextAt switch.mem (switch.reg .rsi) (table'.proc child).ctx
  /-- The context saved is another one. -/
  apart : ∀ d ∈ contextOffsets, ∀ e ∈ contextOffsets, switch.reg .rsi + d ≠ switch.reg .rdi + e

/-- The parent's return to user mode. -/
def ForkRun.parentReturn {env : Platform σ} {sym : Symbols} (f : ForkRun env sym) : Cpu :=
  sysret (exec syscallExitCode 0 f.back)

/-- The child's first return to user mode, if the switch lands in the
trampoline. -/
def ForkRun.childReturn {env : Platform σ} {sym : Symbols} (f : ForkRun env sym) : Option Cpu :=
  let s := exec contextSwitchCode 0 f.switch
  if s.rip = env.forkSysretTrampoline then some (sysret (exec trampolineCode 0 s)) else none

/-! ## What the code does -/

section

variable {sym : Symbols} {user : Cpu}

/-- The registers and the memory in which `syscall_dispatch` is called. -/
theorem entered_eq (h : Layout sym (user.mem sym.kernelRsp)) : (entered sym user).reg =
        update (update (update (update (update
          (update (update (update user.reg .r11 user.rflags)
            .rsp (user.mem sym.kernelRsp - 24#64)) .r9 (user.reg .r8)) .r8 (user.reg .r10))
              .rcx (user.reg .rdx)) .rdx (user.reg .rsi)) .rsi (user.reg .rdi))
                .rdi (user.reg .rax) ∧
      (entered sym user).mem =
        update (update (update (update (update
          (update user.mem sym.savedUserRip user.rip) sym.savedUserRsp (user.reg .rsp))
            sym.savedUserRflags user.rflags) (user.mem sym.kernelRsp - 8#64) user.rflags)
              (user.mem sym.kernelRsp - 16#64) user.rip)
                (user.mem sym.kernelRsp - 24#64) (user.reg .rsp) := by
  obtain ⟨hglobals, hstack⟩ := h
  simp only [nodup_cons, mem_cons, not_mem_nil, or_false, not_or] at hglobals
  obtain ⟨⟨-, -, hrip⟩, ⟨hrsp', hrsp⟩, hrflags, -⟩ := hglobals
  obtain ⟨h1, h2, -⟩ := hstack sym.savedUserRsp (by simp)
  generalize hk : user.mem sym.kernelRsp = k at h1 h2 ⊢
  have hk1 : k - 8#64 - 8#64 = k - 16#64 := by bv_omega
  have hk2 : k - 16#64 - 8#64 = k - 24#64 := by bv_omega
  constructor
  · funext r
    cases r <;> simp [entered, syscall, syscallEntryCode, exec, Instr.step, Cpu.set, Cpu.store,
      update_apply, Ne.symm hrip, Ne.symm hrsp, Ne.symm hrflags, hk, hk1, hk2]
  · simp [entered, syscall, syscallEntryCode, exec, Instr.step, Cpu.set, Cpu.store,
      Ne.symm hrip, Ne.symm hrsp, Ne.symm hrflags, hk, hk1, hk2, h1, h2, hrsp']

/-- What `syscall_entry` has saved, on the stack and in its variables. -/
theorem entered_saved (h : Layout sym (user.mem sym.kernelRsp)) :
    (entered sym user).mem (user.mem sym.kernelRsp - 24#64) = user.reg .rsp ∧
      (entered sym user).mem (user.mem sym.kernelRsp - 16#64) = user.rip ∧
      (entered sym user).mem (user.mem sym.kernelRsp - 8#64) = user.rflags ∧
      savedContext sym (entered sym user).mem =
        { rip := user.rip, rsp := user.reg .rsp, rflags := user.rflags } := by
  have hmem := (entered_eq h).2
  obtain ⟨hglobals, hstack⟩ := h
  simp only [nodup_cons, mem_cons, not_mem_nil, or_false, not_or] at hglobals
  rw [savedContext, hmem]
  generalize user.mem sym.kernelRsp = k at *
  simp [*]

/-! ## Switching -/

variable {s : Cpu}

theorem saveCode_mem {a : U64} (ha : ∀ e ∈ contextOffsets, a ≠ s.reg .rdi + e) :
    (exec saveContextCode 0 s).mem a = s.mem a := by
  simp only [contextOffsets, forall_mem_cons, BitVec.add_zero] at ha
  simp [saveContextCode, exec, Instr.step, Cpu.set, Cpu.store, ha]

theorem saveCode_reg {r : Reg} (hr : r ≠ .rax) : (exec saveContextCode 0 s).reg r = s.reg r := by
  simp [saveContextCode, exec, Instr.step, Cpu.set, Cpu.store, hr]

/-- The registers `context_switch` restores. -/
theorem restoreCode_reg {ctx : CpuContext} (h : ContextAt s.mem (s.reg .rsi) ctx) :
    (exec restoreContextCode 0 s).reg =
      update (update (update (update (update
        (update (update s.reg .rbx ctx.rbx) .rbp ctx.rbp) .r12 ctx.r12)
          .r13 ctx.r13) .r14 ctx.r14) .r15 ctx.r15) .rsp ctx.rsp := by
  simp [restoreContextCode, exec, Instr.step, Cpu.set, h.rbp, h.r12, h.r13, h.r14, h.r15, h.rsp,
    ← h.rbx]

theorem restoreCode_mem : (exec restoreContextCode 0 s).mem = s.mem := rfl

/-- The change of address space uses rax and rcx only, and the jump goes where
the context says. -/
theorem switchCr3_spec : (∀ r, r ≠ .rax → r ≠ .rcx → (exec switchCr3Code 0 s).reg r = s.reg r) ∧
      (exec switchCr3Code 0 s).rip = s.mem (s.reg .rsi + 56#64) := by
  by_cases hnone : s.reg .rdx = 0#64
  · simp [switchCr3Code, exec, Instr.step, hnone]
  · by_cases hsame : s.cr3 &&& 0xffffffffff000#64 = s.reg .rdx
    · constructor
      · intro r hrax hrcx
        simp [switchCr3Code, exec, Instr.step, hnone, Cpu.set, hsame, hrax, hrcx]
      · simp [switchCr3Code, exec, Instr.step, hnone, Cpu.set, hsame]
    · constructor
      · intro r hrax hrcx
        simp [switchCr3Code, exec, Instr.step, hnone, Cpu.set, hsame, hrax, hrcx]
      · simp [switchCr3Code, exec, Instr.step, hnone, Cpu.set, hsame]

/-- **`context_switch` loads the new context** and goes to its `rip`; the
registers it does not mention keep what its caller left in them. -/
theorem contextSwitch_spec {ctx : CpuContext} (h : ContextAt s.mem (s.reg .rsi) ctx)
    (hapart : ∀ d ∈ contextOffsets, ∀ e ∈ contextOffsets, s.reg .rsi + d ≠ s.reg .rdi + e) :
    (exec contextSwitchCode 0 s).rip = ctx.rip ∧
      ∀ r, r ≠ .rax → r ≠ .rcx → (exec contextSwitchCode 0 s).reg r =
        update (update (update (update (update
          (update (update s.reg .rbx ctx.rbx) .rbp ctx.rbp) .r12 ctx.r12)
            .r13 ctx.r13) .r14 ctx.r14) .r15 ctx.r15) .rsp ctx.rsp r := by
  rw [contextSwitchCode, exec_append (by decide), exec_append (by decide)]
  have hrsi : (exec saveContextCode 0 s).reg .rsi = s.reg .rsi := saveCode_reg (by decide)
  have hkept : ∀ d ∈ contextOffsets, (exec saveContextCode 0 s).mem (s.reg .rsi + d) =
      s.mem (s.reg .rsi + d) := fun d hd => saveCode_mem (hapart d hd)
  have hctx : ContextAt (exec saveContextCode 0 s).mem
      ((exec saveContextCode 0 s).reg .rsi) ctx := by
    rw [hrsi]
    constructor <;> rw [hkept _ (by simp [contextOffsets])]
    exacts [h.rbx, h.rbp, h.r12, h.r13, h.r14, h.r15, h.rsp, h.rip]
  obtain ⟨hreg, hrip⟩ := @switchCr3_spec (exec restoreContextCode 0 (exec saveContextCode 0 s))
  constructor
  · rw [hrip, restoreCode_mem, restoreCode_reg hctx]
    simpa using hctx.rip
  · intro r hrax hrcx
    rw [hreg r hrax hrcx, restoreCode_reg hctx]
    simp only [update_apply, saveCode_reg hrax]

end

/-! ## The two returns -/

section

variable {env : Platform σ} {sym : Symbols} (f : ForkRun env sym)

/-- The parent returns to the instruction behind its `SYSCALL`, with its own
stack, flags and callee-saved registers; the others are what `syscall_dispatch`
left. -/
theorem ForkRun.parent_spec :
    f.parentReturn.rip = f.user.rip ∧ f.parentReturn.reg .rsp = f.user.reg .rsp ∧
      f.parentReturn.rflags = sysretFlags f.user.rflags ∧
      (∀ r ∈ calleeSaved, f.parentReturn.reg r = f.user.reg r) ∧
      ∀ r, r ≠ .rsp → r ≠ .rcx → r ≠ .r11 → f.parentReturn.reg r = f.back.reg r := by
  obtain ⟨hreg, -⟩ := entered_eq f.layout
  obtain ⟨hrsp, hrip, hrflags, -⟩ := entered_saved f.layout
  obtain ⟨hsaved, hsp, hframe⟩ := f.returned
  have hstack : (entered sym f.user).reg .rsp = f.user.mem sym.kernelRsp - 24#64 := by
    simp [hreg]
  rw [hstack] at hsp hframe
  have hframe0 := hframe 0 (by decide)
  have hframe1 := hframe 1 (by decide)
  have hframe2 := hframe 2 (by decide)
  generalize f.user.mem sym.kernelRsp = k at *
  have hk1 : k - 24#64 + 8#64 = k - 16#64 := by bv_omega
  have hk2 : k - 24#64 + 16#64 = k - 8#64 := by bv_omega
  simp [hk1, hk2, hrsp, hrip, hrflags] at hframe0 hframe1 hframe2
  have hother : ∀ r, r ≠ .rsp → r ≠ .rcx → r ≠ .r11 → f.parentReturn.reg r = f.back.reg r := by
    intro r h1 h2 h3
    simp [ForkRun.parentReturn, sysret, syscallExitCode, exec, Instr.step, h1, h2, h3]
  refine ⟨?_, ?_, ?_, fun r hr => ?_, hother⟩
  · simp [ForkRun.parentReturn, sysret, syscallExitCode, exec, Instr.step, hsp, hk1, hframe1]
  · simp [ForkRun.parentReturn, sysret, syscallExitCode, exec, Instr.step, hsp, hframe0]
  · simp [ForkRun.parentReturn, sysret, syscallExitCode, exec, Instr.step, hsp, hk2, hframe2]
  · have hne : r ≠ .rsp ∧ r ≠ .rcx ∧ r ≠ .r11 ∧ (entered sym f.user).reg r = f.user.reg r := by
      simp only [calleeSaved, mem_cons, not_mem_nil, or_false] at hr
      rcases hr with rfl | rfl | rfl | rfl | rfl | rfl <;> simp [hreg]
    rw [hother r hne.1 hne.2.1 hne.2.2.1, hsaved r hr, hne.2.2.2]

end

theorem Forked.child_ctx {env : Platform σ} {m m' : σ} {t t' : Table} {cur child : Slot}
    (h : Forked env m t cur m' t' (some child)) :
    ∃ kstack, (t'.proc child).ctx = forkContext env (t.proc cur) kstack := by
  cases h with
  | @created _ _ hfree src kstack pml4 =>
    refine ⟨kstack, ?_⟩
    rw [schedulerAdd_field Proc.ctx (fun _ _ => rfl), Table.modify_self]
    rfl

section

variable {env : Platform σ} {sym : Symbols} (f : ForkRun env sym)

/-- The context `process_fork` built for the child. -/
theorem ForkRun.child_context : ∃ kstack, (f.table'.proc f.child).ctx =
      { rip := env.forkSysretTrampoline
        rsp := kstack + kstackSize - 8#64
        r12 := f.user.rip
        r13 := f.user.rflags
        r14 := f.user.reg .rsp } := by
  obtain ⟨-, -, -, hctx⟩ := entered_saved f.layout
  have hsave : processSaveUserCtx f.table (savedContext sym (entered sym f.user).mem) =
      f.table.modify f.cur (fun p =>
        { p with
          userRip := f.user.rip, userRsp := f.user.reg .rsp, userRflags := f.user.rflags }) := by
    rw [processSaveUserCtx, f.current, hctx]
  have hcur : (processSaveUserCtx f.table
      (savedContext sym (entered sym f.user).mem)).current = some f.cur := by
    rw [hsave]
    exact f.current
  have hused : (processSaveUserCtx f.table
      (savedContext sym (entered sym f.user).mem)).state f.cur ≠ .unused := by
    rw [hsave, Table.state, Table.modify_self]
    exact f.used
  have hforked := processFork_forked env f.mem _ hcur hused
  rw [f.forked] at hforked
  obtain ⟨kstack, hchild⟩ := hforked.child_ctx
  refine ⟨kstack, ?_⟩
  rw [hchild, hsave, Table.modify_self]
  rfl

/-- The registers that neither the convention nor `SYSRET` determines. -/
def scratchRegs : List Reg := [.rdi, .rsi, .rdx, .r8, .r9, .r10]

theorem scratch_of_not {r : Reg} (hclobbered : r ∉ [Reg.rax, .rcx, .r11])
    (hcallee : r ∉ calleeSaved) (hrsp : r ≠ .rsp) : r ∈ scratchRegs := by
  revert hclobbered hcallee hrsp
  cases r <;> decide

/-- What the child's registers are compared with. -/
structure ForkRun.RegistersMatch : Prop where
  zeroed : f.user.reg .rbx = 0#64 ∧ f.user.reg .rbp = 0#64 ∧ f.user.reg .r15 = 0#64
  /-- The registers the trampoline is given its arguments in. -/
  arguments : f.user.reg .r12 = f.user.rip ∧ f.user.reg .r13 = f.user.rflags ∧
    f.user.reg .r14 = f.user.reg .rsp
  scratch : ∀ r ∈ scratchRegs, f.switch.reg r = f.back.reg r

/-- **The two returns of a fork.**  The child's first return has the RIP, RSP
and RFLAGS of the parent's, and 0 in RAX for the child's pid.  The registers
other than RAX and those that `SYSCALL` clobbers agree exactly if the parent had
zeros in RBX, RBP and R15, its own RIP, RFLAGS and RSP in R12, R13 and R14, and
if the C code of the two paths left the same values in the scratch registers. -/
theorem fork_returns : ∃ child, f.childReturn = some child ∧ child.rip = f.parentReturn.rip ∧
      child.reg .rsp = f.parentReturn.reg .rsp ∧ child.rflags = f.parentReturn.rflags ∧
      child.reg .rax = 0#64 ∧ f.parentReturn.reg .rax = BitVec.ofNat 64 f.child ∧
      ((∀ r, r ∉ [Reg.rax, .rcx, .r11] → child.reg r = f.parentReturn.reg r) ↔
        f.RegistersMatch) := by
  obtain ⟨hrip, hrsp, hrflags, hsaved, hother⟩ := f.parent_spec
  obtain ⟨kstack, hctx⟩ := f.child_context
  have hcontext := f.context
  rw [hctx] at hcontext
  obtain ⟨hjump, hregs⟩ := contextSwitch_spec hcontext f.apart
  have hchild : f.childReturn =
      some (sysret (exec trampolineCode 0 (exec contextSwitchCode 0 f.switch))) := by
    rw [ForkRun.childReturn, if_pos hjump]
  generalize exec contextSwitchCode 0 f.switch = s at hregs hchild
  have hr12 : s.reg .r12 = f.user.rip := by simp [hregs]
  have hr13 : s.reg .r13 = f.user.rflags := by simp [hregs]
  have hr14 : s.reg .r14 = f.user.reg .rsp := by simp [hregs]
  -- the trampoline writes rcx, r11, rsp and rax
  have htramp : ∀ r, r ≠ .rax → r ≠ .rcx → r ≠ .r11 → r ≠ .rsp →
      (sysret (exec trampolineCode 0 s)).reg r = s.reg r := by
    intro r h1 h2 h3 h4
    simp [sysret, trampolineCode, exec, Instr.step, h1, h2, h3, h4]
  have hchildRsp : (sysret (exec trampolineCode 0 s)).reg .rsp = f.user.reg .rsp := by
    simp [sysret, trampolineCode, exec, Instr.step, hr14]
  refine ⟨_, hchild, ?_, hchildRsp.trans hrsp.symm, ?_, ?_, ?_, ?_⟩
  · rw [hrip]
    simp [sysret, trampolineCode, exec, Instr.step, hr12]
  · rw [hrflags]
    simp [sysret, trampolineCode, exec, Instr.step, hr13]
  · simp [sysret, trampolineCode, exec, Instr.step]
  · rw [hother .rax (by decide) (by decide) (by decide), f.result]
  · -- both sides compare the context with the registers of the parent
    have hcallee : ∀ r ∈ calleeSaved, (sysret (exec trampolineCode 0 s)).reg r = s.reg r ∧
        r ∉ [Reg.rax, .rcx, .r11] := by
      intro r hr
      simp only [calleeSaved, mem_cons, not_mem_nil, or_false] at hr
      rcases hr with rfl | rfl | rfl | rfl | rfl | rfl <;> simp [htramp]
    have hscratch : ∀ r ∈ scratchRegs, (sysret (exec trampolineCode 0 s)).reg r = f.switch.reg r ∧
          f.parentReturn.reg r = f.back.reg r ∧ r ∉ [Reg.rax, .rcx, .r11] := by
      intro r hr
      simp only [scratchRegs, mem_cons, not_mem_nil, or_false] at hr
      rcases hr with rfl | rfl | rfl | rfl | rfl | rfl <;> simp [htramp, hregs, hother]
    constructor
    · intro hagree
      have heq : ∀ r ∈ calleeSaved, f.user.reg r = s.reg r := by
        intro r hr
        rw [← hsaved r hr, ← hagree r (hcallee r hr).2, (hcallee r hr).1]
      refine ⟨⟨?_, ?_, ?_⟩, ⟨?_, ?_, ?_⟩, fun r hr => ?_⟩
      · simp [heq .rbx (by decide), hregs]
      · simp [heq .rbp (by decide), hregs]
      · simp [heq .r15 (by decide), hregs]
      · rw [heq .r12 (by decide), hr12]
      · rw [heq .r13 (by decide), hr13]
      · rw [heq .r14 (by decide), hr14]
      · rw [← (hscratch r hr).1, ← (hscratch r hr).2.1, hagree r (hscratch r hr).2.2]
    · rintro ⟨⟨hrbx, hrbp, hr15⟩, ⟨h12, h13, h14⟩, hsame⟩ r hr
      by_cases hmem : r ∈ calleeSaved
      · rw [(hcallee r hmem).1, hsaved r hmem]
        simp only [calleeSaved, mem_cons, not_mem_nil, or_false] at hmem
        rcases hmem with rfl | rfl | rfl | rfl | rfl | rfl <;>
          simp [hregs, hrbx, hrbp, hr15, h12, h13, h14]
      · by_cases hsp : r = .rsp
        · rw [hsp, hchildRsp, hrsp]
        · have hin := scratch_of_not hr hmem hsp
          rw [(hscratch r hin).1, (hscratch r hin).2.1, hsame r hin]

end

/-! ## Two runs -/

def someSymbols : Symbols where
  savedUserRip := 0x10#64
  savedUserRsp := 0x18#64
  savedUserRflags := 0x20#64
  kernelRsp := 0x28#64
  syscallEntry := 0x1000#64

/-- A memory with a context at 0x30000. -/
def contextWords (ctx : CpuContext) : Memory := fun a =>
  if a = 0x30000#64 then ctx.rbx
  else if a = 0x30008#64 then ctx.rbp
  else if a = 0x30010#64 then ctx.r12
  else if a = 0x30018#64 then ctx.r13
  else if a = 0x30020#64 then ctx.r14
  else if a = 0x30028#64 then ctx.r15
  else if a = 0x30030#64 then ctx.rsp
  else if a = 0x30038#64 then ctx.rip
  else 0#64

theorem contextWords_at (ctx : CpuContext) : ContextAt (contextWords ctx) 0x30000#64 ctx := by
  constructor <;> simp [contextWords]

/-- The scratch registers at a switch from the context at 0x20000 to the one at
0x30000. -/
def switchRegs : Reg → U64
  | .rdi => 0x20000#64
  | .rsi => 0x30000#64
  | .rdx => 0x3000#64
  | _ => 0#64

theorem switchRegs_apart : ∀ d ∈ contextOffsets, ∀ e ∈ contextOffsets,
    switchRegs .rsi + d ≠ switchRegs .rdi + e := by
  simp [contextOffsets, switchRegs]

/-- The table before the fork, once the user's context is saved. -/
def savedTable (user : Cpu) : Table := processSaveUserCtx (schedulerInit (processInit blankTable))
    (savedContext someSymbols (entered someSymbols user).mem)

theorem savedTable_forks (user : Cpu) : (processFork ample () (savedTable user)).2.2 = some 1 := by
  have hpid : allocPid (savedTable user) = some 1 := by
    have hinit : allocPid (schedulerInit (processInit blankTable)) = some 1 := by decide +kernel
    have hstate : (savedTable user).state = (schedulerInit (processInit blankTable)).state :=
      processSaveUserCtx_state _ _
    rw [allocPid, hstate]
    exact hinit
  refine processFork_succeeds ample () rfl hpid (by decide) (fun m parent => ?_)
    (fun _ _ => by simp [ample])
  rw [forkSource]
  split
  · assumption
  · simp [ample]

/-- `syscall_dispatch` returns the child's pid. -/
def backState (user : Cpu) : Cpu :=
  { entered someSymbols user with
    reg := fun r =>
      if r ∈ calleeSaved ∨ r = .rsp then (entered someSymbols user).reg r
      else if r = .rax then 1#64 else switchRegs r }

theorem backState_returned (user : Cpu) :
    Returned 3 (entered someSymbols user) (backState user) := by
  refine ⟨fun r hr => ?_, ?_, fun _ _ => rfl⟩
  · simp [backState, hr]
  · simp [backState]

/-- The fork of a process with the registers `user`. -/
def forkOf (user : Cpu) (hlayout : Layout someSymbols (user.mem someSymbols.kernelRsp)) :
    ForkRun ample someSymbols where
  user := user
  layout := hlayout
  mem := ()
  table := schedulerInit (processInit blankTable)
  cur := idle
  current := rfl
  used := by decide
  mem' := ()
  table' := (processFork ample () (savedTable user)).2.1
  child := 1
  forked := Prod.ext rfl (Prod.ext rfl (savedTable_forks user))
  back := backState user
  returned := backState_returned user
  result := rfl
  switch :=
    { reg := switchRegs, rip := 0#64, rflags := 0x202#64, zf := false, cr3 := 0x2000#64
      mem := contextWords ((processFork ample () (savedTable user)).2.1.proc 1).ctx }
  context := contextWords_at _
  apart := switchRegs_apart

/-- A user state: the instruction behind the `SYSCALL` is 0x400a47. -/
def userState (callee : Reg → U64) : Cpu where
  reg r := if r = .rsp then 0x7FFFEF00#64 else if r ∈ calleeSaved then callee r else 0#64
  rip := 0x400a47#64
  rflags := 0x202#64
  zf := false
  cr3 := 0x2000#64
  mem a := if a = 0x28#64 then 0x8000#64 else 0#64

theorem userState_layout (callee : Reg → U64) :
    Layout someSymbols ((userState callee).mem someSymbols.kernelRsp) := by
  change Layout someSymbols 0x8000#64
  constructor <;> simp [someSymbols]

/-- The parent has in its registers what the context will have. -/
def plainFork : ForkRun ample someSymbols := forkOf (userState (fun
    | .r12 => 0x400a47#64
    | .r13 => 0x202#64
    | .r14 => 0x7FFFEF00#64
    | _ => 0#64)) (userState_layout _)

theorem fork_returns_plain :
    ∃ child, plainFork.childReturn = some child ∧ child.rip = plainFork.parentReturn.rip ∧
      child.reg .rsp = plainFork.parentReturn.reg .rsp ∧
      child.rflags = plainFork.parentReturn.rflags ∧ child.reg .rax = 0#64 ∧
      plainFork.parentReturn.reg .rax = BitVec.ofNat 64 plainFork.child ∧
      ∀ r, r ∉ [Reg.rax, .rcx, .r11] → child.reg r = plainFork.parentReturn.reg r := by
  obtain ⟨child, hchild, hrip, hrsp, hrflags, hrax, hpid, hiff⟩ := fork_returns plainFork
  refine ⟨child, hchild, hrip, hrsp, hrflags, hrax, hpid, hiff.mpr ⟨?_, ?_, ?_⟩⟩ <;>
    decide +kernel

/-- A parent with a frame pointer and values in its other callee-saved
registers, as compiled code has them. -/
def ordinaryFork : ForkRun ample someSymbols := forkOf (userState (fun
    | .rbx => 0x1234#64
    | .rbp => 0x7FFFEF40#64
    | .r12 => 0x5#64
    | _ => 0#64)) (userState_layout _)

/-- The child comes back without them. -/
theorem fork_loses_registers : [Reg.rbx, .rbp, .r12].map ordinaryFork.parentReturn.reg =
        [0x1234#64, 0x7FFFEF40#64, 0x5#64] ∧
      ordinaryFork.childReturn.map (fun child => [Reg.rbx, .rbp, .r12].map child.reg) =
        some [0#64, 0#64, 0x400a47#64] := by
  constructor <;> decide +kernel

end Process
