import NamelessOS.CowIsolation
import NamelessOS.KernelAccess

/-!
# Fork isolation through the kernel's window

The functions of copy-on-write with every access of the kernel through its
window, as in `KernelAccess`; the processor itself walks the tables and reads
and writes the pages at their physical addresses.  Where tables, pages and free
frames lie below 2 GiB the machine is the one of `CowIsolation`, and stays so:
a new table or page was a free frame.
-/

namespace Vmm

open Pmm WordMemory PageTree List Runs
open Function (update)
open WordBitmap (test)

namespace Window

variable (w : U64 → U64)

/-- The end of `cow_handle`, for the entry at the place `pte`. -/
def cowCopy (s : Vm) (pte : U64) : Vm × Bool :=
  let e := s.mem pte
  if !has e ptePresent || !has e pteCow then (s, false)
  else
    let r := pmmAllocFrame s.pmm
    if r.2 = 0#64 then ({ s with pmm := r.1 }, false)
    else
      let m := copyWords s.mem (w r.2) (w (pteAddr e)) ptEntries
      ({ pmm := r.1
         mem := update m pte
          ((m pte &&& ~~~(pteAddrMask ||| pteCow)) ||| r.2 ||| pteWrite) }, true)

/-- `cow_handle`, with the faulting process's PML4 as `cr3`. -/
def cowHandle (s : Vm) (pml4 va : U64) : Vm × Bool :=
  let e4 := s.mem (slot (w pml4) (vaPml4Idx va))
  if !has e4 ptePresent then (s, false)
  else
    let e3 := s.mem (slot (w (pteAddr e4)) (vaPdptIdx va))
    if !has e3 ptePresent || has e3 pteHuge then (s, false)
    else
      let e2 := s.mem (slot (w (pteAddr e3)) (vaPdtIdx va))
      if !has e2 ptePresent || has e2 pteHuge then (s, false)
      else cowCopy w s (slot (w (pteAddr e2)) (vaPtIdx va))

/-- `page_fault_handler_c`. -/
def pageFaultHandlerC (s : Vm) (pml4 cr2 err : U64) : Vm × Bool :=
  if err &&& 3#64 = 3#64 then cowHandle w s pml4 cr2 else (s, false)

/-- A user-mode store, tried at most `n` times. -/
def userWrite : Nat → Vm → U64 → U64 → U8 → Vm × Bool
  | 0, s, _, _, _ => (s, false)
  | n + 1, s, pml4, va, x =>
    let fault (present : Bool) : Vm × Bool :=
      let r := pageFaultHandlerC w s pml4 va (writeFault present)
      if r.2 then userWrite n r.1 pml4 va x else (r.1, false)
    match walk format 3 s.mem pml4 (vaIndex va) with
    | none => fault false
    | some (es, pte) =>
      if userOk es (s.mem pte) && writeOk es (s.mem pte) then
        ({ s with mem := writeByte s.mem (pteAddr (s.mem pte)) va x }, true)
      else fault (has (s.mem pte) ptePresent)

end Window

/-- One operation; `w root` is the window while the PML4 `root` is loaded. -/
def Machine.stepThrough (w : U64 → U64 → U64) (tries : Nat) (M : Machine) :
    UserOp → Machine × Bool
  | .write pid va x =>
    match M.procs[pid]? with
    | none => (M, false)
    | some root =>
      let r := Window.userWrite (w root) tries M.vm root va x
      ({ M with vm := r.1 }, r.2)
  | .fork pid =>
    match M.procs[pid]? with
    | none => (M, false)
    | some root => M.forked (Window.vmmForkPml4 (w root) M.vm root)

/-- With the private memories in step. -/
def lockstepThrough (w : U64 → U64 → U64) (tries : Nat) (L : Machine × List Private)
    (op : UserOp) : Machine × List Private :=
  let r := L.1.stepThrough w tries op
  (r.1, if r.2 then privateStep L.2 op else L.2)

/-- Tables, pages and free frames lie below 2 GiB. -/
structure LowSpaces (s : Vm) (procs : List U64) : Prop where
  tables : ∀ a, Table s.mem procs a → a.toNat < 2 ^ 31
  pages : ∀ x, Leaf s.mem procs x → has (s.mem x) ptePresent = true →
    (pteAddr (s.mem x)).toNat < 2 ^ 31
  free : FreeBelow s.pmm

section

variable {s s' : Vm} {procs : List U64} {r va pte : U64}

/-- A change of leaf entries, from what they point to now. -/
theorem LowSpaces.update (hlow : LowSpaces s procs) (h : Spaces s procs)
    (hleaves : LeavesOnly s s' procs) (hfree : FreeBelow s'.pmm)
    (hpages : ∀ x, Leaf s.mem procs x → has (s'.mem x) ptePresent = true →
      (pteAddr (s'.mem x)).toNat < 2 ^ 31) : LowSpaces s' procs where
  tables a ha := by
    obtain ⟨r, hr, ha⟩ := ha
    exact hlow.tables a ⟨r, hr, (h.forest.rewritten hleaves hr).frames_iff.mp ha⟩
  pages x hx := hpages x ((h.leaf_iff hleaves).mp hx)
  free := hfree

/-- **`cow_handle`** moves a page to a frame that was free. -/
theorem LowSpaces.cowCopy (hlow : LowSpaces s procs) (h : Spaces s procs)
    (hpte : Leaf s.mem procs pte) : LowSpaces (cowCopy s pte).1 procs := by
  have hout := cowCopy_outcome (h.table_used (h.leaf_table hpte)) (fun hp => (h.data pte hpte hp).1)
  generalize Vmm.cowCopy s pte = res at hout
  cases hout with
  | refused => exact hlow
  | full pmm' hkeep hnone =>
    exact ⟨hlow.tables, hlow.pages, hlow.free.mono (fun p _ hu => hkeep p hu)⟩
  | copied s' d _ hcow haligned hmask hfresh hused hentry hpage hother =>
    refine hlow.update h (h.moved_leaves hpte hfresh hother)
      (hlow.free.mono (fun p hp hu => (hused p hp).mpr (.inl hu))) (fun x hx hp => ?_)
    by_cases hne : x = pte
    · rw [hne, hentry, privateEntry_addr hmask]
      exact hlow.free d haligned hfresh
    · rw [h.moved_other hfresh hother hx hne] at hp ⊢
      exact hlow.pages x hx hp

/-- **A store** goes to a page, not to a table. -/
theorem LowSpaces.store (hlow : LowSpaces s procs) (h : Spaces s procs) (hr : r ∈ procs)
    (hva : UserAddress va) {es : List U64}
    (hwalk : walk format 3 s.mem r (vaIndex va) = some (es, pte))
    (hp : has (s.mem pte) ptePresent = true) (x : U8) :
    LowSpaces { s with mem := writeByte s.mem (pteAddr (s.mem pte)) va x } procs := by
  have hsame : ∀ y, Table s.mem procs (pageOf y) →
      writeByte s.mem (pteAddr (s.mem pte)) va x y = s.mem y :=
    fun y hy => h.store_tables hr hva hwalk hp x hy rfl
  refine hlow.update h (fun y hy _ => hsame y hy) hlow.free (fun y hy hpy => ?_)
  dsimp only at hpy ⊢
  rw [hsame y (h.leaf_table hy)] at hpy ⊢
  exact hlow.pages y hy hpy

/-- **Fork** leaves the old pages where they are. -/
theorem LowSpaces.forked (hlow : LowSpaces s procs) (h : Spaces s procs) {src : U64}
    (hsrc : src ∈ procs) (htouch : Touches 3 s s' src) : LowSpaces s' procs := by
  refine hlow.update h (h.forest.forked_leaves hsrc htouch) (hlow.free.mono htouch.kept) ?_
  intro x hx hp
  rw [h.forked_present htouch hx] at hp
  rw [h.forked_addr htouch hx]
  exact hlow.pages x hx hp

/-- The child's tables were free frames, and its pages are the parent's. -/
theorem LowSpaces.add (hlow : LowSpaces s procs) (h : Spaces s procs) {src d : U64}
    (hsrc : src ∈ procs) (htouch : Touches 3 s s' src) (hd : PageAligned d)
    (hcloned : Cloned 3 s s' src d) : LowSpaces s' (procs ++ [d]) := by
  have hold := hlow.forked h hsrc htouch
  refine ⟨fun a ha => ?_, ?_, hold.free⟩
  · rcases table_append.mp ha with ha | ha
    · exact hold.tables a ha
    · exact hlow.free a (ha.aligned hd) (hcloned.fresh a ha).1
  · rintro x ⟨r, hr, hx⟩ hp
    rcases mem_append.mp hr with hr | hr
    · exact hold.pages x ⟨r, hr, hx⟩ hp
    · obtain ⟨y, hy, hentry, -⟩ := hcloned.child_leaf hsrc ⟨r, hr, hx⟩
      rw [hentry] at hp ⊢
      obtain ⟨hp, hcow⟩ := childEntry_of_present hp
      rw [hcow, cowEntry_addr]
      exact hlow.pages y hy hp

/-! ## The functions agree -/

variable {w : U64 → U64} (hw : LowWindow w)
include hw

theorem cowCopy_agrees (hfree : FreeBelow s.pmm)
    (hpage : has (s.mem pte) ptePresent = true → (pteAddr (s.mem pte)).toNat < 2 ^ 31) :
    Window.cowCopy w s pte = cowCopy s pte := by
  unfold Window.cowCopy cowCopy
  by_cases hp : has (s.mem pte) ptePresent = true
  · have halloc := pmmAllocFrame_result s.pmm
    generalize pmmAllocFrame s.pmm = res at halloc
    dsimp only
    rw [hw _ (hpage hp)]
    cases halloc with
    | none pmm' hkeep => rw [if_pos rfl, if_pos rfl]
    | frame pmm' d hne haligned hmask hfresh hused =>
      rw [hw d (hfree d haligned hfresh)]
  · rw [Bool.not_eq_true] at hp
    dsimp only
    rw [hp, Bool.not_false, Bool.true_or, if_pos rfl, if_pos rfl]

/-- **`cow_handle`** on low tables and pages. -/
theorem cowHandle_agrees (hlow : LowSpaces s procs) (hr : r ∈ procs) (hva : UserAddress va) :
    Window.cowHandle w s r va = cowHandle s r va := by
  have hix := vaIndex_inRange hva
  have hlow3 : LowTree 3 s.mem r := fun a ha => hlow.tables a ⟨r, hr, ha⟩
  unfold Window.cowHandle cowHandle
  dsimp only
  rw [hw r hlow3.root]
  split
  · rfl
  · rename_i hp3
    rw [Bool.not_eq_true', Bool.not_eq_false] at hp3
    have hi3 : HasChild format 3 s.mem r (vaPml4Idx va) := ⟨hix 3 (by decide), hp3⟩
    have hlow2 : LowTree 2 s.mem (pteAddr (s.mem (slot r (vaPml4Idx va)))) := hlow3.child hi3
    rw [hw _ hlow2.root]
    split
    · rfl
    · rename_i hp2
      rw [Bool.or_eq_true, not_or, Bool.not_eq_true', Bool.not_eq_false] at hp2
      have hi2 : HasChild format 2 s.mem _ (vaPdptIdx va) := ⟨hix 2 (by decide), hp2.1⟩
      have hlow1 : LowTree 1 s.mem (pteAddr (s.mem (slot (pteAddr (s.mem
        (slot r (vaPml4Idx va)))) (vaPdptIdx va)))) := hlow2.child hi2
      rw [hw _ hlow1.root]
      split
      · rfl
      · rename_i hp1
        rw [Bool.or_eq_true, not_or, Bool.not_eq_true', Bool.not_eq_false] at hp1
        have hi1 : HasChild format 1 s.mem _ (vaPdtIdx va) := ⟨hix 1 (by decide), hp1.1⟩
        have hlow0 : w (pteAddr (s.mem (slot (pteAddr (s.mem (slot (pteAddr (s.mem
          (slot r (vaPml4Idx va)))) (vaPdptIdx va)))) (vaPdtIdx va)))) = _ :=
          hw _ (hlow1.child hi1).root
        rw [hlow0]
        refine cowCopy_agrees hw hlow.free (hlow.pages _ ?_)
        exact ⟨r, hr, _, ⟨_, hi3, _, hi2, _, hi1, rfl⟩, _, hix 0 (by decide), rfl⟩

/-- **A user store** on low pages, however often it is tried. -/
theorem userWrite_agrees (n : Nat) (h : Spaces s procs) (hlow : LowSpaces s procs)
    (hr : r ∈ procs) (hva : UserAddress va) (x : U8) :
    Window.userWrite w n s r va x = userWrite n s r va x ∧
      LowSpaces (userWrite n s r va x).1 procs := by
  induction n generalizing s with
  | zero => exact ⟨rfl, hlow⟩
  | succ n ih =>
    -- a fault without PRESENT is not for `cow_handle`
    have hnone : Window.pageFaultHandlerC w s r va (writeFault false) = (s, false) ∧
        pageFaultHandlerC s r va (writeFault false) = (s, false) :=
      ⟨if_neg (by decide), if_neg (by decide)⟩
    rw [Window.userWrite, userWrite]
    cases hwalk : walk format 3 s.mem r (vaIndex va) with
    | none =>
      dsimp only
      rw [hnone.1, hnone.2, if_neg Bool.false_ne_true, if_neg Bool.false_ne_true]
      exact ⟨rfl, hlow⟩
    | some res =>
      obtain ⟨es, pte⟩ := res
      have hpte := h.walk_leaf hr hva hwalk
      dsimp only
      by_cases hok : (userOk es (s.mem pte) && writeOk es (s.mem pte)) = true
      · rw [if_pos hok, if_pos hok]
        obtain ⟨huser, hwrite⟩ := Bool.and_eq_true_iff.mp hok
        exact ⟨rfl, hlow.store h hr hva hwalk (present_write_of_ok huser hwrite).1 x⟩
      · rw [if_neg hok, if_neg hok]
        by_cases hp : has (s.mem pte) ptePresent = true
        · have hfault : Window.pageFaultHandlerC w s r va (writeFault true) = cowHandle s r va :=
            (if_pos (by decide)).trans (cowHandle_agrees hw hlow hr hva)
          rw [hp, hfault, writeFault_present, cowHandle_eq (h.tree r hr) (vaIndex_inRange hva) hwalk]
          have hnext := ih (h.cowCopy_keeps hpte).1 (hlow.cowCopy h hpte)
          split
          · exact hnext
          · exact ⟨rfl, hlow.cowCopy h hpte⟩
        · rw [Bool.not_eq_true] at hp
          rw [hp, hnone.1, hnone.2, if_neg Bool.false_ne_true, if_neg Bool.false_ne_true]
          exact ⟨rfl, hlow⟩

end

/-! ## The machine -/

section

variable {w : U64 → U64 → U64} (hw : ∀ root, LowWindow (w root)) (tries : Nat)
  {M : Machine} {op : UserOp}
include hw

/-- **Step.**  On low tables and pages the window makes no difference, and the
step takes low frames. -/
theorem Machine.step_agrees (h : Spaces M.vm M.procs) (hlow : LowSpaces M.vm M.procs)
    (hop : op.InUserHalf) : M.stepThrough w tries op = M.step tries op ∧
      LowSpaces (M.step tries op).1.vm (M.step tries op).1.procs := by
  cases op with
  | write pid va x =>
    rw [Machine.stepThrough, Machine.step]
    cases hpid : M.procs[pid]? with
    | none => exact ⟨rfl, hlow⟩
    | some root =>
      obtain ⟨hsame, hlow'⟩ :=
        userWrite_agrees (hw root) tries h hlow (mem_of_getElem? hpid) hop x
      dsimp only
      rw [hsame]
      exact ⟨rfl, hlow'⟩
  | fork pid =>
    rw [Machine.stepThrough, Machine.step]
    cases hpid : M.procs[pid]? with
    | none => exact ⟨rfl, hlow⟩
    | some root =>
      have hmem := mem_of_getElem? hpid
      have htree : LowTree 3 M.vm.mem root := fun a ha => hlow.tables a ⟨root, hmem, ha⟩
      dsimp only
      rw [vmmForkPml4_agrees (hw root) M.vm root (h.tree root hmem) hlow.free htree]
      refine ⟨rfl, ?_⟩
      obtain ⟨htouch, hok⟩ := vmmForkPml4_clones M.vm root (h.tree root hmem)
      generalize vmmForkPml4 M.vm root = r at htouch hok
      by_cases hz : r.2 = 0#64
      · rw [Machine.forked, if_pos hz]
        exact hlow.forked h hmem htouch
      · rw [Machine.forked, if_neg hz]
        exact hlow.add h hmem htouch (hok hz).2.1 (hok hz).2.2

end

/-- A run through the window. -/
def runThrough (w : U64 → U64 → U64) (tries : Nat) (s : Vm) (root : U64) (ops : List UserOp) :
    Machine × List Private :=
  run (lockstepThrough w tries) (startOf s root) ops

/-- **Copy-on-write fork isolates processes.**  After any run of forks and stores
by the parent and its descendants, with the parent's tables and pages and the
free frames of its start below 2 GiB, every process has its own memory. -/
theorem fork_isolation {w : U64 → U64 → U64} (hw : ∀ root, LowWindow (w root)) (tries : Nat)
    {s : Vm} {root : U64} (hparent : Parent s root) (hlow : LowSpaces s [root])
    {ops : List UserOp} (hops : ∀ op ∈ ops, op.InUserHalf) :
    Isolated tries (fun vm r va x => Window.userWrite (w r) tries vm r va x)
      (runThrough w tries s root ops) := by
  have hstep : ∀ (L : Machine × List Private) op, Coupled L ∧ LowSpaces L.1.vm L.1.procs →
      op.InUserHalf → Coupled (lockstep tries L op) ∧
        LowSpaces (lockstep tries L op).1.vm (lockstep tries L op).1.procs :=
    fun L op h hop => ⟨h.1.step tries hop, (Machine.step_agrees hw tries h.1.spaces h.2 hop).2⟩
  have hstart : Coupled (startOf s root) ∧ LowSpaces (startOf s root).1.vm (startOf s root).1.procs :=
    ⟨hparent.coupled, hlow⟩
  have hsteps : StepsMeet (lockstepThrough w tries) (fun _ op => op.InUserHalf) (startOf s root)
      ops := stepsMeet_of_forall hops _
  obtain ⟨hmeet, hrun⟩ := hsteps.run_eq (fun L => Coupled L ∧ LowSpaces L.1.vm L.1.procs) hstep
    (fun L op h hop => by
      rw [lockstepThrough, lockstep, (Machine.step_agrees hw tries h.1.spaces h.2 hop).1]) hstart
  obtain ⟨hcoupled, hend⟩ := run_invariant _ hstep hstart hmeet
  rw [runThrough, hrun]
  generalize run (lockstep tries) (startOf s root) ops = L at hcoupled hend
  intro pid r hpid
  obtain ⟨P, hP, hsees⟩ := hcoupled.isolated tries pid r hpid
  refine ⟨P, hP, fun va hva => ⟨(hsees va hva).1, fun x => ?_⟩⟩
  dsimp only
  rw [(userWrite_agrees (hw r) tries hcoupled.spaces hend (mem_of_getElem? hpid) hva x).1]
  exact (hsees va hva).2 x

theorem twoPages_lowSpaces : LowSpaces twoPages [0x1000#64] where
  tables a ha := by
    obtain ⟨j, hj, rfl⟩ := twoPages_table ha
    have hall : ∀ j ≤ 3, (twoPagesTable j).toNat < 2 ^ 31 := by decide
    exact hall j hj
  pages x hx hp := by
    have haddr : pteAddr (twoPages.mem x) = 0x5000#64 ∨ pteAddr (twoPages.mem x) = 0x6000#64 :=
      (twoPages_page hx hp).imp And.right And.right
    rcases haddr with haddr | haddr
    · rw [haddr]
      decide
    · rw [haddr]
      decide
  free := freeBelow_of_words (fun _ hi => if_neg hi)

/-- Parent and child store to the same address, and the child forks again. -/
theorem fork_isolation_twoPages :
    Parent twoPages 0x1000#64 ∧ userRead twoPages.mem 0x1000#64 0x1008#64 = some 0#8 ∧
      Isolated 2 (Window.userWrite bootWindow 2) (runThrough (fun _ => bootWindow) 2 twoPages
        0x1000#64 [.fork 0, .write 1 0x1008#64 7#8, .write 0 0x1008#64 9#8, .fork 1]) := by
  refine ⟨twoPages_parent, by decide, ?_⟩
  refine fork_isolation (fun _ => bootWindow_low) 2 twoPages_parent twoPages_lowSpaces ?_
  intro op hop
  simp only [mem_cons, not_mem_nil, or_false] at hop
  rcases hop with rfl | rfl | rfl | rfl
  · trivial
  · exact (by decide : UserAddress 0x1008#64)
  · exact (by decide : UserAddress 0x1008#64)
  · trivial

/-- The same parent with one free frame, 4 KB above 2 GiB. -/
def twoPagesHigh : Vm where
  pmm := { (default : PmmState) with bitmap := fun i => if i = 0x2000 then ~~~2#64 else ~~~0#64 }
  mem := twoPagesMem

/-- `PHYS_TO_VIRT` of that frame leads to the parent's PML4: fork clears its user
half, finds no entry to copy, and succeeds.  The parent has lost its memory. -/
theorem fork_wipes_parent :
    let L := runThrough (fun _ => bootWindow) 2 twoPagesHigh 0x1000#64 [.fork 0]
    Parent twoPagesHigh 0x1000#64 ∧ userRead twoPagesHigh.mem 0x1000#64 0x1008#64 = some 0#8 ∧
      L.1.procs = [0x1000#64, 0x80001000#64] ∧ L.2[0]?.bind (· 0x1008#64) = some (0#8, true) ∧
      userRead L.1.vm.mem 0x1000#64 0x1008#64 = none := by
  refine ⟨twoPagesMem_parent (by decide), ?_⟩
  decide +kernel

end Vmm
