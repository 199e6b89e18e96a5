import NamelessOS.WordMemory

/-!
# A fragment of the AMD64 instruction set

The instructions a kernel's entry and context-switch code is made of, as
functions on a processor state.  Memory is read and written by aligned
quadwords.  Of the flags only ZF is computed by arithmetic; the rest of RFLAGS
matters where `SYSCALL` saves it and `SYSRET` loads it.  A conditional jump goes
forward, over the next `n` instructions.
-/

namespace Amd64

open WordMemory
open Function (update update_of_ne update_self)

inductive Reg
  | rax | rbx | rcx | rdx | rsi | rdi | rbp | rsp
  | r8 | r9 | r10 | r11 | r12 | r13 | r14 | r15
  deriving DecidableEq, Repr

structure Cpu where
  reg : Reg → U64
  rip : U64
  rflags : U64
  zf : Bool
  cr3 : U64
  mem : Memory

def Cpu.set (s : Cpu) (r : Reg) (v : U64) : Cpu := { s with reg := update s.reg r v }

def Cpu.store (s : Cpu) (a v : U64) : Cpu := { s with mem := update s.mem a v }

inductive Instr
  | mov (dst src : Reg)
  | movImm (dst : Reg) (v : U64)
  /-- `mov dst, [base + disp]`. -/
  | load (dst base : Reg) (disp : U64)
  /-- `mov [base + disp], src`. -/
  | store (base : Reg) (disp : U64) (src : Reg)
  /-- `mov dst, [rel label]`. -/
  | loadRel (dst : Reg) (label : U64)
  /-- `mov [rel label], src`. -/
  | storeRel (label : U64) (src : Reg)
  | lea (dst base : Reg) (disp : U64)
  | push (src : Reg)
  /-- `push qword [rel label]`. -/
  | pushRel (label : U64)
  | pop (dst : Reg)
  | and (dst src : Reg)
  /-- `xor` of the low halves; the high half of `dst` is cleared. -/
  | xor32 (dst src : Reg)
  | test (a b : Reg)
  | cmp (a b : Reg)
  | movFromCr3 (dst : Reg)
  | movToCr3 (src : Reg)
  | jz (n : Nat)
  /-- `jmp qword [base + disp]`. -/
  | jmpMem (base : Reg) (disp : U64)
  | sti
  | cli

/-- The interrupt flag. -/
def ifMask : U64 := 0x200#64

/-- One instruction; the jump over instructions is `exec`'s. -/
def Instr.step (s : Cpu) : Instr → Cpu
  | mov dst src => s.set dst (s.reg src)
  | movImm dst v => s.set dst v
  | load dst base disp => s.set dst (s.mem (s.reg base + disp))
  | store base disp src => s.store (s.reg base + disp) (s.reg src)
  | loadRel dst label => s.set dst (s.mem label)
  | storeRel label src => s.store label (s.reg src)
  | lea dst base disp => s.set dst (s.reg base + disp)
  | push src => (s.store (s.reg .rsp - 8#64) (s.reg src)).set .rsp (s.reg .rsp - 8#64)
  | pushRel label => (s.store (s.reg .rsp - 8#64) (s.mem label)).set .rsp (s.reg .rsp - 8#64)
  | pop dst =>
    -- the increment comes first, so that `pop rsp` leaves the value popped
    (s.set .rsp (s.reg .rsp + 8#64)).set dst (s.mem (s.reg .rsp))
  | and dst src =>
    let v := s.reg dst &&& s.reg src
    { s.set dst v with zf := v == 0#64 }
  | xor32 dst src =>
    let v := ((s.reg dst).setWidth 32 ^^^ (s.reg src).setWidth 32).setWidth 64
    { s.set dst v with zf := v == 0#64 }
  | test a b => { s with zf := s.reg a &&& s.reg b == 0#64 }
  | cmp a b => { s with zf := s.reg a == s.reg b }
  | movFromCr3 dst => s.set dst s.cr3
  | movToCr3 src => { s with cr3 := s.reg src }
  | jz _ => s
  | jmpMem base disp => { s with rip := s.mem (s.reg base + disp) }
  | sti => { s with rflags := s.rflags ||| ifMask }
  | cli => { s with rflags := s.rflags &&& ~~~ifMask }

/-- A block of code, from its first instruction but the next `skip`. -/
def exec : List Instr → Nat → Cpu → Cpu
  | [], _, s => s
  | _ :: code, skip + 1, s => exec code skip s
  | .jz n :: code, 0, s => exec code (if s.zf then n else 0) s
  | i :: code, 0, s => exec code 0 (i.step s)

/-- `SYSCALL`, with the entry point in LSTAR and the flags to clear in SFMASK. -/
def syscall (lstar sfmask : U64) (s : Cpu) : Cpu :=
  { (s.set .rcx s.rip).set .r11 s.rflags with rip := lstar, rflags := s.rflags &&& ~~~sfmask }

/-- The flags `SYSRET` loads from r11. -/
def sysretFlags (r11 : U64) : U64 := (r11 &&& 0x3C7FD7#64) ||| 2#64

/-- `SYSRET` to 64-bit code. -/
def sysret (s : Cpu) : Cpu := { s with rip := s.reg .rcx, rflags := sysretFlags (s.reg .r11) }

/-- The registers a System V callee leaves as they were. -/
def calleeSaved : List Reg := [.rbx, .rbp, .r12, .r13, .r14, .r15]

/-- What a System V function leaves to its caller: the callee-saved registers,
the stack pointer, and the `n` quadwords of the caller's frame above it. -/
structure Returned (n : Nat) (s s' : Cpu) : Prop where
  saved : ∀ r ∈ calleeSaved, s'.reg r = s.reg r
  rsp : s'.reg .rsp = s.reg .rsp
  frame : ∀ i < n, s'.mem (s.reg .rsp + 8#64 * BitVec.ofNat 64 i) =
    s.mem (s.reg .rsp + 8#64 * BitVec.ofNat 64 i)

section

variable (s : Cpu) (r : Reg) (a v : U64)

@[simp] theorem set_reg_self : (s.set r v).reg r = v := update_self ..

@[simp] theorem set_reg_of_ne {r r' : Reg} (h : r' ≠ r) : (s.set r v).reg r' = s.reg r' :=
  update_of_ne h ..

@[simp] theorem set_mem : (s.set r v).mem = s.mem := rfl

@[simp] theorem set_rip : (s.set r v).rip = s.rip := rfl

@[simp] theorem store_reg : (s.store a v).reg = s.reg := rfl

@[simp] theorem store_rip : (s.store a v).rip = s.rip := rfl

end

/-! ## Blocks of code -/

/-- Not a jump over instructions. -/
def Instr.straight : Instr → Bool
  | jz _ => false
  | _ => true

theorem exec_cons_straight {i : Instr} (h : i.straight = true) (code : List Instr) (s : Cpu) :
    exec (i :: code) 0 s = exec code 0 (i.step s) := by
  cases i <;> first | rfl | cases h

/-- Straight code runs before what follows it. -/
theorem exec_append {code : List Instr} (h : code.all Instr.straight = true) (rest : List Instr)
    (s : Cpu) : exec (code ++ rest) 0 s = exec rest 0 (exec code 0 s) := by
  induction code generalizing s with
  | nil => cases rest <;> rfl
  | cons i code ih =>
    rw [List.all_cons, Bool.and_eq_true] at h
    rw [List.cons_append, exec_cons_straight h.1, exec_cons_straight h.1, ih h.2]

end Amd64
