import NamelessOS.CowIsolation
import NamelessOS.FrameBudget

/-!
# Stores of the kernel into user buffers

A system call that returns data (`sys_read`, `sys_recvfrom`, the status word of
`sys_waitpid`) stores through the user's pointer in ring 0.  There the processor
looks at the WRITE bits only if CR0.WP is set, and `boot/entry.asm` adds PE and
PG to CR0 and nothing else.  With WP as the loader left it, this module says
exactly which of these stores another process can see.
-/

namespace Vmm

open Pmm WordMemory PageTree Runs List
open Bool (and_eq_true)

/-! ## Control register 0 -/

def cr0Pe : U32 := 1#32
def cr0Pg : U32 := 1#32 <<< 31

/-- CR0 once paging is on, from what the loader left in it. -/
def bootCr0 (cr0 : U32) : U32 := cr0 ||| (cr0Pg ||| cr0Pe)

/-- Ring 0 respects read-only pages: bit 16 of CR0. -/
def writeProtected (cr0 : U32) : Bool := (bootCr0 cr0).getLsbD 16

/-! ## A store in ring 0 -/

/-- The error code of a write fault in ring 0. -/
def kernelFault (present : Bool) : U64 := if present then 3#64 else 2#64

/-- Ring 0 may store to the page: a present 4 KB page, with WRITE on every
level if `wp`. -/
def kernelOk (wp : Bool) (es : List U64) (e : U64) : Bool :=
  has e ptePresent && es.all (!has · pteHuge) && (!wp || writeOk es e)

/-- A store in ring 0, tried at most `n` times; `false` if it never completes
(then the machine halts in the fault handler). -/
def kernelWrite (wp : Bool) : Nat → Vm → U64 → U64 → U8 → Vm × Bool
  | 0, s, _, _, _ => (s, false)
  | n + 1, s, pml4, va, x =>
    let fault (present : Bool) : Vm × Bool :=
      let r := pageFaultHandlerC s pml4 va (kernelFault present)
      if r.2 then kernelWrite wp n r.1 pml4 va x else (r.1, false)
    match walk format 3 s.mem pml4 (vaIndex va) with
    | none => fault false
    | some (es, pte) =>
      if kernelOk wp es (s.mem pte) then
        ({ s with mem := writeByte s.mem (pteAddr (s.mem pte)) va x }, true)
      else fault (has (s.mem pte) ptePresent)

variable {s : Vm} {procs : List U64} {r va pte : U64} {es : List U64} {wp : Bool}

theorem kernelFault_absent (s : Vm) (pml4 va : U64) :
    pageFaultHandlerC s pml4 va (kernelFault false) = (s, false) :=
  if_neg (by decide)

/-- `page_fault_handler_c` does not ask for the ring. -/
theorem kernelFault_present (s : Vm) (pml4 va : U64) :
    pageFaultHandlerC s pml4 va (kernelFault true) = cowHandle s pml4 va :=
  if_pos (by decide)

theorem kernelOk_present (hok : kernelOk wp es (s.mem pte) = true) :
    has (s.mem pte) ptePresent = true := by
  rw [kernelOk, and_eq_true, and_eq_true] at hok
  exact hok.1.1

theorem kernelOk_write (hok : kernelOk true es (s.mem pte) = true) :
    has (s.mem pte) pteWrite = true := by
  rw [kernelOk, and_eq_true, Bool.not_true, Bool.false_or] at hok
  exact (Bool.and_eq_true_iff.mp hok.2).1

theorem kernelOk_of_userOk (huser : userOk es (s.mem pte) = true) :
    kernelOk false es (s.mem pte) = true := by
  rw [userOk, and_eq_true, and_eq_true] at huser
  have hsmall : es.all (!has · pteHuge) = true := by
    rw [all_eq_true] at huser ⊢
    intro d hd
    exact (Bool.and_eq_true_iff.mp (huser.2 d hd)).2
  rw [kernelOk, huser.1.1, hsmall]
  rfl

theorem kernelWrite_store (n : Nat) (x : U8)
    (hwalk : walk format 3 s.mem r (vaIndex va) = some (es, pte))
    (hok : kernelOk wp es (s.mem pte) = true) : kernelWrite wp (n + 1) s r va x =
      ({ s with mem := writeByte s.mem (pteAddr (s.mem pte)) va x }, true) := by
  rw [kernelWrite]
  rw [hwalk]
  dsimp only
  rw [if_pos hok]

/-- **A store in ring 0**, however often it is tried: the invariant holds, and
with WP set the views change at its own address and only if it completes. -/
theorem kernelWrite_spec (n : Nat) (h : Spaces s procs) (hr : r ∈ procs) (hva : UserAddress va)
    (x : U8) : Spaces (kernelWrite wp n s r va x).1 procs ∧
      (wp = true → ∀ r' ∈ procs, ∀ va', UserAddress va' →
        userView (kernelWrite wp n s r va x).1.mem r' va' =
          viewAfter s.mem (kernelWrite wp n s r va x).2 r va x r' va') := by
  have hfailed : ∀ r' va', userView s.mem r' va' = viewAfter s.mem false r va x r' va' :=
    fun r' va' => (if_neg (fun hc => by cases hc.1)).symm
  induction n generalizing s with
  | zero => exact ⟨h, fun _ r' _ va' _ => hfailed r' va'⟩
  | succ n ih =>
    cases hwalk : walk format 3 s.mem r (vaIndex va) with
    | none =>
      grind [kernelWrite, kernelFault_absent]
    | some res =>
      obtain ⟨es, pte⟩ := res
      by_cases hok : kernelOk wp es (s.mem pte) = true
      · have hp := kernelOk_present hok
        rw [kernelWrite_store n x hwalk hok]
        refine ⟨h.store hr hva hwalk hp x, fun hwp r' hr' va' hva' => ?_⟩
        subst hwp
        rw [h.store_view hr hva hwalk hp x (kernelOk_write hok) hr' hva', viewAfter]
        simp only [true_and]
      · rw [kernelWrite]
        rw [hwalk]
        dsimp only
        rw [if_neg hok]
        by_cases hp : has (s.mem pte) ptePresent = true
        · rw [hp, kernelFault_present, cowHandle_eq (h.tree r hr) (vaIndex_inRange hva) hwalk]
          grind [Spaces.cowCopy_keeps, Spaces.walk_leaf, viewAfter]
        · rw [Bool.not_eq_true] at hp
          grind [kernelFault_absent]

/-! ## System calls that copy out -/

/-- What happens between two looks at the machine: a step of a process, or one
byte that a system call of process `pid` stores through the user's pointer. -/
inductive SysOp
  | user (op : UserOp)
  | copyOut (pid : Nat) (va : U64) (x : U8)

/-- The stores are to the user half. -/
def SysOp.InUserHalf : SysOp → Prop
  | .user op => op.InUserHalf
  | .copyOut _ va _ => UserAddress va

/-- One operation; a store that faults is retried at most `retries` times. -/
def Machine.sysStep (cr0 : U32) (retries : Nat) (M : Machine) : SysOp → Machine
  | .user op => (M.step (retries + 1) op).1
  | .copyOut pid va x =>
    match M.procs[pid]? with
    | none => M
    | some root =>
      { M with vm := (kernelWrite (writeProtected cr0) (retries + 1) M.vm root va x).1 }

variable {M : Machine} {root : U64}

theorem Machine.sysStep_copyOut {pid : Nat} (cr0 : U32) (retries : Nat)
    (hpid : M.procs[pid]? = some root) (va : U64) (x : U8) :
    M.sysStep cr0 retries (.copyOut pid va x) =
      { M with vm := (kernelWrite (writeProtected cr0) (retries + 1) M.vm root va x).1 } := by
  rw [Machine.sysStep, hpid]

/-- The processes' tables are kept apart by every operation, stores that are
seen by others included. -/
theorem Spaces.sysStep {cr0 : U32} {retries : Nat} (h : Spaces M.vm M.procs)
    {op : SysOp} (hop : op.InUserHalf) :
    Spaces (M.sysStep cr0 retries op).vm (M.sysStep cr0 retries op).procs := by
  cases op with
  | user op =>
    -- the private memories that go with it are whatever the processes see now
    have hcoupled : Coupled (M, M.procs.map (userView M.vm.mem)) := by
      refine ⟨h, length_map _, ?_⟩
      intro pid root P hpid hP va _
      rw [List.getElem?_map, hpid] at hP
      cases hP
      rfl
    exact (hcoupled.step (retries + 1) hop).spaces
  | copyOut pid va x =>
    rw [Machine.sysStep]
    cases hpid : M.procs[pid]? with
    | none => exact h
    | some root => exact (kernelWrite_spec _ h (mem_of_getElem? hpid) hop x).1

/-! ## Who sees a copy-out -/

/-- The place in memory that a user-mode load reads: frame and offset. -/
def userCell (m : Memory) (pml4 va : U64) : Option (U64 × Nat) :=
  match walk format 3 m pml4 (vaIndex va) with
  | none => none
  | some (es, pte) => if userOk es (m pte) then some (pteAddr (m pte), va.toNat % 4096) else none

/-- The page at `va` is the user's, read-only and marked PTE_COW. -/
def cowPage (m : Memory) (pml4 va : U64) : Bool :=
  match walk format 3 m pml4 (vaIndex va) with
  | none => false
  | some (es, pte) => userOk es (m pte) && !has (m pte) pteWrite && has (m pte) pteCow

/-- No other process reads anything new after process `pid` made the step. -/
def Unseen (pid : Nat) (M M' : Machine) : Prop :=
  ∀ (pid' : Nat) (r : U64), pid' ≠ pid → M.procs[pid']? = some r → ∀ va, UserAddress va →
    userRead M'.vm.mem r va = userRead M.vm.mem r va

/-- No other process reads the place that process `pid` reads at `va`. -/
def Alone (M : Machine) (pid : Nat) (root va : U64) : Prop :=
  ∀ (pid' : Nat) (r : U64), pid' ≠ pid → M.procs[pid']? = some r → ∀ va', UserAddress va' →
    userCell M.vm.mem r va' ≠ userCell M.vm.mem root va

theorem cowPage_some {m : Memory} (hcow : cowPage m r va = true) :
    ∃ es pte, walk format 3 m r (vaIndex va) = some (es, pte) ∧ userOk es (m pte) = true := by
  unfold cowPage at hcow
  split at hcow
  · cases hcow
  · rename_i es pte hwalk
    rw [and_eq_true, and_eq_true] at hcow
    exact ⟨es, pte, hwalk, hcow.1.1⟩

/-- The byte at a place. -/
def cellByte (m : Memory) (c : U64 × Nat) : U8 := ByteOrder.byteAt (m (cell c.1 (c.2 / 8 * 8))) (c.2 % 8)

theorem userRead_eq_cell (m : Memory) (r va : U64) :
    userRead m r va = (userCell m r va).map (cellByte m) := by
  unfold userRead userCell
  grind [cellByte, readByte]

/-- **A direct store is read by whoever reads its place.** -/
theorem Spaces.store_read (h : Spaces s procs) (hr : r ∈ procs) (hva : UserAddress va)
    (hwalk : walk format 3 s.mem r (vaIndex va) = some (es, pte))
    (huser : userOk es (s.mem pte) = true) (x : U8) {r' va' : U64} (hr' : r' ∈ procs)
    (hva' : UserAddress va') : userRead (writeByte s.mem (pteAddr (s.mem pte)) va x) r' va' =
      if userCell s.mem r' va' = userCell s.mem r va then some x else userRead s.mem r' va' := by
  have hp : has (s.mem pte) ptePresent = true := kernelOk_present (kernelOk_of_userOk huser)
  have hcell : userCell s.mem r va = some (pteAddr (s.mem pte), va.toNat % 4096) := by
    unfold userCell
    rw [hwalk]
    exact if_pos huser
  rw [userRead_eq, userRead_eq, hcell]
  cases hwalk' : walk format 3 s.mem r' (vaIndex va') with
  | none =>
    have hleaves : LeavesOnly s { s with mem := writeByte s.mem (pteAddr (s.mem pte)) va x } procs :=
      fun y hy _ => h.store_tables hr hva hwalk hp x hy rfl
    have hwalk_eq := h.walk_eq hleaves hr' hva'
    unfold userView userCell
    rw [hwalk_eq, hwalk']
    rfl
  | some res =>
    obtain ⟨es', pte'⟩ := res
    rw [h.store_view_at hr hva hwalk hp x hr' hva' hwalk']
    unfold userView userCell
    rw [hwalk']
    by_cases hok : userOk es' (s.mem pte') = true
    · simp only [if_pos hok, Option.some_inj, Prod.mk.injEq, Option.map_some]
      split <;> rfl
    · simp only [if_neg hok, Option.map_none, ite_self, reduceCtorEq, if_false]

/-- **Who sees a copy-out to a copy-on-write page**: with WP set nobody else;
without it every other process that reads the same place, unless the byte is the
one that stands there. -/
theorem Spaces.copyOut_unseen_iff (h : Spaces M.vm M.procs) (cr0 : U32) (retries : Nat)
    {pid : Nat} (hpid : M.procs[pid]? = some root) (hva : UserAddress va) (x : U8)
    (hcow : cowPage M.vm.mem root va = true) :
    Unseen pid M (M.sysStep cr0 retries (.copyOut pid va x)) ↔
      writeProtected cr0 = true ∨ userRead M.vm.mem root va = some x ∨ Alone M pid root va := by
  have hroot := mem_of_getElem? hpid
  rw [M.sysStep_copyOut cr0 retries hpid]
  cases hwp : writeProtected cr0 with
  | true =>
    refine iff_of_true (fun pid' r' hne hpid' va' hva' => ?_) (.inl rfl)
    have hother : r' ≠ root := by
      intro heq
      rw [heq] at hpid'
      exact hne (h.pid_unique hpid' hpid)
    have hview := (kernelWrite_spec (retries + 1) h hroot hva x).2 rfl r'
      (mem_of_getElem? hpid') va' hva'
    grind [userRead_eq, viewAfter]
  | false =>
    obtain ⟨es, pte, hwalk, huser⟩ := cowPage_some hcow
    rw [kernelWrite_store retries x hwalk (kernelOk_of_userOk huser)]
    constructor
    · intro hunseen
      rw [or_iff_right Bool.false_ne_true]
      by_contra hnot
      rw [not_or] at hnot
      refine hnot.2 (fun pid' r' hne hpid' va' hva' hcell => hnot.1 ?_)
      have hread := hunseen pid' r' hne hpid' va' hva'
      grind [userRead_eq_cell, store_read]
    · intro hcond pid' r' hne hpid' va' hva'
      rw [h.store_read hroot hva hwalk huser x (mem_of_getElem? hpid') hva']
      split
      · rename_i hcell
        rcases hcond with hfalse | hsame | halone
        · cases hfalse
        · rw [userRead_eq_cell M.vm.mem r', hcell, ← userRead_eq_cell, hsame]
        · exact absurd hcell (halone pid' r' hne hpid' va' hva')
      · rfl

/-- What the step is asked to do, at the state it is made in: a copy-out to a
copy-on-write page is seen by no other process exactly if the condition holds. -/
def CopyOutUnseen (cr0 : U32) (retries : Nat) (M : Machine) (op : SysOp) : Prop :=
  ∀ (pid : Nat) (root va : U64) (x : U8), op = .copyOut pid va x → M.procs[pid]? = some root →
    cowPage M.vm.mem root va = true →
    (Unseen pid M (M.sysStep cr0 retries op) ↔
      writeProtected cr0 = true ∨ userRead M.vm.mem root va = some x ∨ Alone M pid root va)

/-- **Copy-outs and copy-on-write.**  In every run of a parent and its
descendants with forks, stores and copy-outs, at every copy-out to a page that is
read-only and PTE_COW: no other process reads anything new exactly if CR0.WP was
set at boot, or the byte is the one that stood there, or no other process reads
its place. -/
theorem copyOuts_respect_cow (cr0 : U32) (retries : Nat) {s : Vm} {root : U64}
    (hparent : Parent s root) {ops : List SysOp} (hops : ∀ op ∈ ops, op.InUserHalf) :
    StepsMeet (Machine.sysStep cr0 retries) (CopyOutUnseen cr0 retries)
      { vm := s, procs := [root] } ops := by
  refine stepsMeet_of_invariant (fun M => Spaces M.vm M.procs) (fun M op h hop => h.sysStep hop)
    (fun M op h hop => ?_) hparent.spaces (stepsMeet_of_forall hops _)
  rintro pid r va x rfl hpid hcow
  exact h.copyOut_unseen_iff cr0 retries hpid hop x hcow

/-! ## The status word of a shared page -/

/-- After a fork parent and child read the same places, on pages marked
PTE_COW. -/
theorem Parent.forked_shares {s : Vm} (hparent : Parent s root) (hva : UserAddress va)
    (hfork : (vmmForkPml4 s root).2 ≠ 0#64)
    (hwalk : walk format 3 s.mem root (vaIndex va) = some (es, pte))
    (huser : userOk es (s.mem pte) = true) (hwrite : has (s.mem pte) pteWrite = true) :
    cowPage (vmmForkPml4 s root).1.mem root va = true ∧
      userCell (vmmForkPml4 s root).1.mem (vmmForkPml4 s root).2 va =
        userCell (vmmForkPml4 s root).1.mem root va ∧
      userRead (vmmForkPml4 s root).1.mem (vmmForkPml4 s root).2 va = userRead s.mem root va := by
  have h := hparent.spaces
  have hroot : root ∈ [root] := mem_singleton_self root
  obtain ⟨htouch, hok⟩ := vmmForkPml4_clones s root hparent.tree
  obtain ⟨-, -, hcloned⟩ := hok hfork
  generalize vmmForkPml4 s root = child at htouch hcloned ⊢
  have hp : has (s.mem pte) ptePresent = true := kernelOk_present (kernelOk_of_userOk huser)
  obtain ⟨hleaf, hslot⟩ := PageTree.walk_leaf hparent.tree.aligned (vaIndex_inRange hva) hwalk
  have hentry : child.1.mem pte = cowEntry (s.mem pte) := by
    have hmark := hcloned.marked (pageOf pte) hleaf (vaIndex va 0) (vaIndex_inRange hva 0 (by decide))
    rwa [← hslot, markCow, if_pos hp] at hmark
  obtain ⟨es', pte', hwalk', -, hentry'⟩ := hcloned.mirrors.walk_some (vaIndex_inRange hva) hwalk
  rw [childEntry, if_pos hp] at hentry'
  have hview : ∃ c, userView s.mem root va = some c := by
    unfold userView
    rw [hwalk]
    exact ⟨_, if_pos huser⟩
  obtain ⟨c, hview⟩ := hview
  -- the views are those before the fork, so both walks end at a user page
  obtain ⟨es₁, pte₁, hwalk₁, huser₁, -⟩ :=
    userView_some ((h.forked_view hroot htouch hroot hva).trans hview)
  obtain ⟨es₂, pte₂, hwalk₂, huser₂, -⟩ :=
    userView_some ((h.child_view hroot htouch hcloned hva).trans hview)
  rw [h.walk_eq (h.forest.forked_leaves hroot htouch) hroot hva, hwalk] at hwalk₁
  obtain ⟨rfl, rfl⟩ := Prod.mk.inj (Option.some.inj hwalk₁)
  have hparentWalk := (h.walk_eq (h.forest.forked_leaves hroot htouch) hroot hva).trans hwalk
  refine ⟨?_, ?_, ?_⟩
  · unfold cowPage
    rw [hparentWalk]
    dsimp only
    have hcow : has (cowEntry (s.mem pte)) pteCow = true := by
      have hboth := cowEntry_writable (s.mem pte)
      rwa [cowEntry_write, hwrite, Bool.false_or, Bool.true_or] at hboth
    rw [huser₁, hentry, cowEntry_write, hcow]
    rfl
  · unfold userCell
    grind
  · rw [userRead_eq, userRead_eq, h.child_view hroot htouch hcloned hva]

theorem Parent.sysStep_fork {s : Vm} (hparent : Parent s root) (cr0 : U32) (retries : Nat)
    (hva : UserAddress va) (hfork : (vmmForkPml4 s root).2 ≠ 0#64)
    (hwalk : walk format 3 s.mem root (vaIndex va) = some (es, pte))
    (huser : userOk es (s.mem pte) = true) (hwrite : has (s.mem pte) pteWrite = true)
    (hM : M = Machine.sysStep cr0 retries { vm := s, procs := [root] } (.user (.fork 0))) :
    ∃ child, M.procs = [root, child] ∧ cowPage M.vm.mem root va = true ∧
      userCell M.vm.mem child va = userCell M.vm.mem root va ∧
      userRead M.vm.mem child va = userRead s.mem root va := by
  have hshares := hparent.forked_shares hva hfork hwalk huser hwrite
  rw [Machine.sysStep, Machine.step_fork (retries + 1) (show _ = some root from rfl),
    Machine.forked, if_neg hfork] at hM
  grind

theorem twoPages_room : Room 4 twoPages.pmm := .of_first 11 (by decide) (by decide) (by decide +kernel)

theorem twoPages_forks : (vmmForkPml4 twoPages 0x1000#64).2 ≠ 0#64 := by
  have htables : tables 3 twoPages.mem 0x1000#64 = 4 := by decide +kernel
  refine (vmmForkPml4_affords twoPages 0x1000#64 0 twoPages_parent.tree ?_).1
  rw [htables]
  exact twoPages_room

/-- The machine after the parent with two pages forked. -/
def twoPagesForked (cr0 : U32) : Machine :=
  Machine.sysStep cr0 1 { vm := twoPages, procs := [0x1000#64] } (.user (.fork 0))

theorem twoPagesForked_spaces (cr0 : U32) :
    Spaces (twoPagesForked cr0).vm (twoPagesForked cr0).procs := by
  exact Spaces.sysStep twoPages_parent.spaces trivial

/-- Parent and child share the frame of the second page, and the child reads a
zero there. -/
theorem twoPagesForked_shares (cr0 : U32) : ∃ child,
    (twoPagesForked cr0).procs = [0x1000#64, child] ∧
    cowPage (twoPagesForked cr0).vm.mem 0x1000#64 0x1008#64 = true ∧
    userCell (twoPagesForked cr0).vm.mem child 0x1008#64 =
      userCell (twoPagesForked cr0).vm.mem 0x1000#64 0x1008#64 ∧
    userRead (twoPagesForked cr0).vm.mem child 0x1008#64 = some 0#8 := by
  have hva : UserAddress 0x1008#64 := by decide
  have hwalk : walk format 3 twoPages.mem 0x1000#64 (vaIndex 0x1008#64) =
      some ([0x2007#64, 0x3007#64, 0x4007#64], 0x4008#64) := by decide
  have hshares := twoPages_parent.sysStep_fork cr0 1 hva twoPages_forks hwalk (by decide) (by decide)
    (M := twoPagesForked cr0) rfl
  rwa [show userRead twoPages.mem 0x1000#64 0x1008#64 = some 0#8 by decide] at hshares

/-- **The status word of a wait reaches the child.**  With CR0 as a loader that
only turned protected mode on leaves it, a byte stored for the parent on its
second page, after a fork, is read by the child, whose own byte was 0. -/
theorem copyOut_seen_by_child : writeProtected 0x11#32 = false ∧
    cowPage (twoPagesForked 0x11#32).vm.mem 0x1000#64 0x1008#64 = true ∧
    ∃ child, (twoPagesForked 0x11#32).procs = [0x1000#64, child] ∧
      userRead (twoPagesForked 0x11#32).vm.mem child 0x1008#64 = some 0#8 ∧
      userRead ((twoPagesForked 0x11#32).sysStep 0x11#32 1 (.copyOut 0 0x1008#64 7#8)).vm.mem child
        0x1008#64 = some 7#8 := by
  have hva : UserAddress 0x1008#64 := by decide
  have hwp : writeProtected 0x11#32 = false := by decide
  have hspaces := twoPagesForked_spaces 0x11#32
  obtain ⟨child, hprocs, hcow, hcell, hread⟩ := twoPagesForked_shares 0x11#32
  generalize twoPagesForked 0x11#32 = M at hspaces hprocs hcow hcell hread ⊢
  refine ⟨hwp, hcow, child, hprocs, hread, ?_⟩
  have hpid : M.procs[0]? = some 0x1000#64 := by
    rw [hprocs]
    rfl
  obtain ⟨es, pte, hwalk, huser⟩ := cowPage_some hcow
  rw [M.sysStep_copyOut 0x11#32 1 hpid, hwp, kernelWrite_store 1 7#8 hwalk (kernelOk_of_userOk huser)]
  rw [hspaces.store_read (mem_of_getElem? hpid) hva hwalk huser 7#8 (by simp [hprocs]) hva,
    if_pos hcell]

/-- The same run with WP set by the loader. -/
theorem copyOuts_respect_cow_protected : writeProtected 0x10011#32 = true ∧
    Unseen 0 (twoPagesForked 0x10011#32)
      ((twoPagesForked 0x10011#32).sysStep 0x10011#32 1 (.copyOut 0 0x1008#64 7#8)) := by
  have hwp : writeProtected 0x10011#32 = true := by decide
  have hops : ∀ op ∈ [SysOp.user (.fork 0), .copyOut 0 0x1008#64 7#8], op.InUserHalf := by
    intro op hop
    simp only [mem_cons, not_mem_nil, or_false] at hop
    rcases hop with rfl | rfl
    · trivial
    · exact (by decide : UserAddress 0x1008#64)
  have hrun := copyOuts_respect_cow 0x10011#32 1 twoPages_parent hops
  have hstep : CopyOutUnseen 0x10011#32 1 (twoPagesForked 0x10011#32) (.copyOut 0 0x1008#64 7#8) :=
    hrun.2.1
  obtain ⟨child, hprocs, hcow, -, -⟩ := twoPagesForked_shares 0x10011#32
  generalize twoPagesForked 0x10011#32 = M at hstep hprocs hcow ⊢
  refine ⟨hwp, (hstep 0 0x1000#64 0x1008#64 7#8 rfl ?_ hcow).mpr (.inl hwp)⟩
  rw [hprocs]
  rfl

end Vmm
