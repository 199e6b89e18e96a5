import NamelessOS.AddressSpaces
import NamelessOS.Runs

/-!
# Fork isolation

Processes that fork and access their memory, side by side with processes that
own private memories: there a fork copies the whole memory, and a store changes
the storing process's copy only.  Along every run each process sees, at every
user address, what its private memory holds.
-/

namespace Vmm

open Pmm WordMemory PageTree Runs List

/-! ## A user store -/

variable {s : Vm} {procs : List U64} {r va : U64}

theorem present_write_of_ok {es : List U64} {e : U64} (huser : userOk es e = true)
    (hwrite : writeOk es e = true) : has e ptePresent = true ∧ has e pteWrite = true := by
  unfold userOk at huser
  unfold writeOk at hwrite
  rw [Bool.and_eq_true, Bool.and_eq_true] at huser
  rw [Bool.and_eq_true] at hwrite
  exact ⟨huser.1.1, hwrite.1⟩

/-- A write fault on a present page goes to `cow_handle`. -/
theorem writeFault_present (s : Vm) (pml4 va : U64) :
    pageFaultHandlerC s pml4 va (writeFault true) = cowHandle s pml4 va :=
  if_pos (by decide)

/-- What a view that shows a byte says about the entries. -/
theorem userView_some {m : Memory} {c : U8 × Bool} (hview : userView m r va = some c) :
    ∃ es pte, walk format 3 m r (vaIndex va) = some (es, pte) ∧ userOk es (m pte) = true ∧
      c.2 = (es.all (has · pteWrite) && (has (m pte) pteWrite || has (m pte) pteCow)) := by
  unfold userView at hview
  split at hview
  · cases hview
  · rename_i es pte hwalk
    split at hview
    · rename_i hok
      cases hview
      exact ⟨es, pte, hwalk, hok, rfl⟩
    · cases hview

/-- The byte at `va` can be stored without a fault. -/
def Storable (m : Memory) (r va : U64) : Prop :=
  ∃ es pte, walk format 3 m r (vaIndex va) = some (es, pte) ∧ userOk es (m pte) = true ∧
    writeOk es (m pte) = true

/-- **One attempt at a store**: it fails, and if the view allowed it there was
no frame; it goes through; or the fault was resolved without changing a view,
and it is tried again. -/
inductive Attempt (n : Nat) (s : Vm) (procs : List U64) (r va : U64) (x : U8) : Vm × Bool → Prop
  | failed (s' : Vm) (hspaces : Spaces s' procs)
      (hviews : ∀ r' ∈ procs, ∀ va', UserAddress va' → userView s'.mem r' va' = userView s.mem r' va')
      (hwhy : ∀ b, userView s.mem r va = some (b, true) → (pmmAllocFrame s.pmm).2 = 0#64) :
      Attempt n s procs r va x (s', false)
  | stored (es : List U64) (pte : U64) (hwalk : walk format 3 s.mem r (vaIndex va) = some (es, pte))
      (huser : userOk es (s.mem pte) = true) (hwrite : writeOk es (s.mem pte) = true) :
      Attempt n s procs r va x ({ s with mem := writeByte s.mem (pteAddr (s.mem pte)) va x }, true)
  | retried (s' : Vm) (hspaces : Spaces s' procs)
      (hviews : ∀ r' ∈ procs, ∀ va', UserAddress va' → userView s'.mem r' va' = userView s.mem r' va')
      (hnow : ∀ b, userView s.mem r va = some (b, true) → Storable s'.mem r va) :
      Attempt n s procs r va x (userWrite n s' r va x)

/-- `cow_handle` keeps the invariant and changes no view. -/
theorem Spaces.cowCopy_keeps {pte : U64} (h : Spaces s procs) (hpte : Leaf s.mem procs pte) :
    Spaces (cowCopy s pte).1 procs ∧ ∀ r' ∈ procs, ∀ va', UserAddress va' →
      userView (cowCopy s pte).1.mem r' va' = userView s.mem r' va' := by
  have hout := cowCopy_outcome (h.table_used (h.leaf_table hpte)) (fun hp => (h.data pte hpte hp).1)
  generalize cowCopy s pte = res at hout
  cases hout with
  | refused => exact ⟨h, fun _ _ _ _ => rfl⟩
  | full pmm' hkeep hnone =>
    refine ⟨?_, fun _ _ _ _ => rfl⟩
    exact h.update (fun _ _ _ => rfl) (fun p _ hu => hkeep p hu)
      (fun y hy hpy => ⟨hkeep _ (h.data y hy hpy).1, (h.data y hy hpy).2⟩) h.exclusive
  | copied s' d _ hcow haligned hmask hfresh hused hentry hpage hother =>
    grind [moved, moved_view]

section

variable (n : Nat) (h : Spaces s procs) (hr : r ∈ procs) (hva : UserAddress va) (x : U8)
include h hr hva

/-- A fault on a present page, by the outcome of `cow_handle`. -/
theorem fault_attempt {es : List U64} {pte : U64}
    (hwalk : walk format 3 s.mem r (vaIndex va) = some (es, pte))
    (hok : ¬ (userOk es (s.mem pte) = true ∧ writeOk es (s.mem pte) = true))
    (hp : has (s.mem pte) ptePresent = true) :
    Attempt n s procs r va x (if (cowCopy s pte).2 then userWrite n (cowCopy s pte).1 r va x
      else ((cowCopy s pte).1, false)) := by
  have hpte := h.walk_leaf hr hva hwalk
  -- what the view says about this very entry
  have hentries : ∀ b, userView s.mem r va = some (b, true) → userOk es (s.mem pte) = true ∧
      es.all (has · pteWrite) = true ∧ (has (s.mem pte) pteWrite || has (s.mem pte) pteCow) = true := by
    intro b hview
    obtain ⟨es', pte', hwalk', huser, hwrite⟩ := userView_some hview
    rw [hwalk] at hwalk'
    cases hwalk'
    exact ⟨huser, Bool.and_eq_true_iff.mp hwrite.symm⟩
  obtain ⟨hspaces, hviews⟩ := h.cowCopy_keeps hpte
  have hout := cowCopy_outcome (h.table_used (h.leaf_table hpte)) (fun hp => (h.data pte hpte hp).1)
  generalize cowCopy s pte = res at hout hspaces hviews
  cases hout with
  | refused hnot =>
    refine .failed s hspaces hviews (fun b hview => ?_)
    obtain ⟨huser, hdirs, hwc⟩ := hentries b hview
    have hcow : has (s.mem pte) pteCow = false := by
      rcases hnot with hno | hcow
      · rw [hp] at hno
        cases hno
      · exact hcow
    rw [hcow, Bool.or_false] at hwc
    exact absurd ⟨huser, Bool.and_eq_true_iff.mpr ⟨hwc, hdirs⟩⟩ hok
  | full pmm' hkeep hnone => exact .failed _ hspaces hviews (fun _ _ => hnone)
  | copied s' d _ hcow haligned hmask hfresh hused hentry hpage hother =>
    rw [if_pos rfl]
    refine .retried s' hspaces hviews ?_
    intro b hview
    obtain ⟨huser, hdirs, -⟩ := hentries b hview
    refine ⟨es, pte, (h.walk_eq (h.moved_leaves hpte hfresh hother) hr hva).trans hwalk, ?_, ?_⟩
    · unfold userOk at huser ⊢
      rw [hentry, has_privateEntry hmask (by decide) (by decide) (by decide),
        has_privateEntry hmask (by decide) (by decide) (by decide)]
      exact huser
    · unfold writeOk
      rw [hentry, privateEntry_write, hdirs]
      rfl

theorem userWrite_attempt : Attempt n s procs r va x (userWrite (n + 1) s r va x) := by
  have hfailed : userView s.mem r va = none → Attempt n s procs r va x (s, false) := by
    intro hnone
    refine .failed s h (fun _ _ _ _ => rfl) (fun b hview => ?_)
    rw [hnone] at hview
    cases hview
  rw [userWrite]
  cases hwalk : walk format 3 s.mem r (vaIndex va) with
  | none => exact hfailed (by rw [userView, hwalk])
  | some res =>
    obtain ⟨es, pte⟩ := res
    dsimp only
    by_cases hok : userOk es (s.mem pte) = true ∧ writeOk es (s.mem pte) = true
    · rw [if_pos (Bool.and_eq_true_iff.mpr hok)]
      exact .stored es pte hwalk hok.1 hok.2
    · rw [if_neg (fun hand => hok (Bool.and_eq_true_iff.mp hand))]
      by_cases hp : has (s.mem pte) ptePresent = true
      · rw [hp, writeFault_present, cowHandle_eq (h.tree r hr) (vaIndex_inRange hva) hwalk]
        exact fault_attempt n h hr hva x hwalk hok hp
      · rw [Bool.not_eq_true] at hp
        rw [hp]
        refine hfailed ?_
        rw [userView, hwalk]
        unfold userOk
        simp [hp]

end

/-- What a store, completed or not, makes of a view. -/
def viewAfter (m : Memory) (done : Bool) (r va : U64) (x : U8) (r' va' : U64) : Option (U8 × Bool) :=
  if done = true ∧ r' = r ∧ va' = va then (userView m r va).map (fun c => (x, c.2))
  else userView m r' va'

section

variable (n : Nat) (h : Spaces s procs) (hr : r ∈ procs) (hva : UserAddress va) (x : U8)
include h hr hva

/-- **A user store**, however often it is tried: the invariant holds, and the
views change at its own address and only if it completes. -/
theorem userWrite_spec : Spaces (userWrite n s r va x).1 procs ∧
      ∀ r' ∈ procs, ∀ va', UserAddress va' → userView (userWrite n s r va x).1.mem r' va' =
        viewAfter s.mem (userWrite n s r va x).2 r va x r' va' := by
  induction n generalizing s with
  | zero => exact ⟨h, fun r' _ va' _ => (if_neg (fun hc => by cases hc.1)).symm⟩
  | succ n ih =>
    have hattempt := userWrite_attempt n h hr hva x
    generalize userWrite (n + 1) s r va x = res at hattempt
    cases hattempt with
    | failed s' hspaces hviews _ =>
      grind [viewAfter]
    | stored es pte hwalk huser hwrite =>
      obtain ⟨hp, hw⟩ := present_write_of_ok huser hwrite
      refine ⟨h.store hr hva hwalk hp x, fun r' hr' va' hva' => ?_⟩
      rw [h.store_view hr hva hwalk hp x hw hr' hva', viewAfter]
      simp only [true_and]
    | retried s' hspaces hviews _ =>
      grind [viewAfter]

/-- A store that completes was allowed by the view. -/
theorem userWrite_allowed (hdone : (userWrite n s r va x).2 = true) : ∃ b,
    userView s.mem r va = some (b, true) := by
  induction n generalizing s with
  | zero => cases hdone
  | succ n ih =>
    have hattempt := userWrite_attempt n h hr hva x
    generalize userWrite (n + 1) s r va x = res at hattempt hdone
    cases hattempt with
    | failed => cases hdone
    | stored es pte hwalk huser hwrite =>
      rw [writeOk, Bool.and_eq_true] at hwrite
      refine ⟨readByte s.mem (pteAddr (s.mem pte)) va, ?_⟩
      rw [userView, hwalk]
      dsimp only
      rw [if_pos huser, hwrite.1, hwrite.2]
      rfl
    | retried s' hspaces hviews _ =>
      obtain ⟨b, hb⟩ := ih hspaces hdone
      exact ⟨b, (hviews r hr va hva).symm.trans hb⟩

end

/-- A store that needs no more faults completes. -/
theorem userWrite_storable (n : Nat) (x : U8) (hnow : Storable s.mem r va) :
    (userWrite (n + 1) s r va x).2 = true := by
  obtain ⟨es, pte, hwalk, huser, hwrite⟩ := hnow
  rw [userWrite]
  rw [hwalk]
  dsimp only
  rw [if_pos (Bool.and_eq_true_iff.mpr ⟨huser, hwrite⟩)]

/-- **A store that the view allows completes**, at the second attempt at the
latest, unless the PMM has run out of frames. -/
theorem userWrite_completes {n : Nat} (hn : 2 ≤ n) (h : Spaces s procs) (hr : r ∈ procs)
    (hva : UserAddress va) (x : U8) {b : U8} (hview : userView s.mem r va = some (b, true))
    (halloc : (pmmAllocFrame s.pmm).2 ≠ 0#64) : (userWrite n s r va x).2 = true := by
  obtain ⟨n, rfl⟩ : ∃ n', n = n' + 2 := ⟨n - 2, by omega⟩
  have hattempt := userWrite_attempt (n + 1) h hr hva x
  generalize userWrite (n + 1 + 1) s r va x = res at hattempt
  cases hattempt with
  | failed _ _ _ hwhy => exact absurd (hwhy b hview) halloc
  | stored => rfl
  | retried s' _ _ hnow => exact userWrite_storable n x (hnow b hview)

/-! ## Machine and private memories -/

/-- The processes by their PML4s. -/
structure Machine where
  vm : Vm
  procs : List U64

/-- What a process may do, besides loads. -/
inductive UserOp
  | write (pid : Nat) (va : U64) (x : U8)
  | fork (pid : Nat)

/-- Stores are to the user half. -/
def UserOp.InUserHalf : UserOp → Prop
  | .write _ va _ => UserAddress va
  | .fork _ => True

/-- The machine after `vmm_fork_pml4` returned, and whether there is a child. -/
def Machine.forked (M : Machine) (r : Vm × U64) : Machine × Bool :=
  if r.2 = 0#64 then ({ M with vm := r.1 }, false)
  else ({ vm := r.1, procs := M.procs ++ [r.2] }, true)

/-- One operation, and whether it succeeded; a store is tried `tries` times. -/
def Machine.step (tries : Nat) (M : Machine) : UserOp → Machine × Bool
  | .write pid va x =>
    match M.procs[pid]? with
    | none => (M, false)
    | some root =>
      let r := userWrite tries M.vm root va x
      ({ M with vm := r.1 }, r.2)
  | .fork pid =>
    match M.procs[pid]? with
    | none => (M, false)
    | some root => M.forked (vmmForkPml4 M.vm root)

variable {root : U64} {pid k : Nat} {M : Machine}

theorem Machine.step_fork (tries : Nat) (hpid : M.procs[pid]? = some root) :
    M.step tries (.fork pid) = M.forked (vmmForkPml4 M.vm root) := by
  rw [Machine.step, hpid]

/-- A private memory: the byte at each mapped address and whether it may be
written. -/
abbrev Private := U64 → Option (U8 × Bool)

def Private.store (va : U64) (x : U8) (P : Private) : Private :=
  Function.update P va ((P va).map (fun c => (x, c.2)))

/-- The operation on private memories: a fork copies all of it. -/
def privateStep (Ps : List Private) : UserOp → List Private
  | .write pid va x => Ps.modify pid (Private.store va x)
  | .fork pid => Ps ++ Ps[pid]?.toList

/-- Both in step: the private memories follow the operations that succeed. -/
def lockstep (tries : Nat) (L : Machine × List Private) (op : UserOp) : Machine × List Private :=
  let r := L.1.step tries op
  (r.1, if r.2 then privateStep L.2 op else L.2)

/-- A process sees a private memory. -/
def Sees (m : Memory) (root : U64) (P : Private) : Prop :=
  ∀ va, UserAddress va → userView m root va = P va

/-- **The relation kept by `lockstep`**: every process sees its own private
memory. -/
structure Coupled (L : Machine × List Private) : Prop where
  spaces : Spaces L.1.vm L.1.procs
  length : L.2.length = L.1.procs.length
  sees : ∀ (pid : Nat) (root : U64) (P : Private), L.1.procs[pid]? = some root →
    L.2[pid]? = some P → Sees L.1.vm.mem root P

theorem Spaces.pid_unique (h : Spaces s procs) {pid' : Nat} (hpid : procs[pid]? = some r)
    (hpid' : procs[pid']? = some r) : pid = pid' := by
  have hnodup : procs.Nodup := h.forest.nodup
  obtain ⟨hlt, -⟩ := List.getElem?_eq_some_iff.mp hpid
  exact (List.getElem?_inj hlt hnodup).mp (hpid.trans hpid'.symm)

/-- Private memories that exist for every process. -/
theorem Coupled.privateOf {L : Machine × List Private} (h : Coupled L)
    (hpid : L.1.procs[pid]? = some root) : ∃ P, L.2[pid]? = some P ∧ Sees L.1.vm.mem root P := by
  obtain ⟨hlt, -⟩ := List.getElem?_eq_some_iff.mp hpid
  rw [← h.length] at hlt
  exact ⟨L.2[pid], List.getElem?_eq_getElem hlt,
    h.sees pid root _ hpid (List.getElem?_eq_getElem hlt)⟩

variable {Ps : List Private}

/-- The private memories of a machine whose views did not change. -/
theorem Coupled.same_views (h : Coupled (M, Ps)) {vm : Vm} (hspaces : Spaces vm M.procs)
    (hviews : ∀ root ∈ M.procs, ∀ va, UserAddress va →
      userView vm.mem root va = userView M.vm.mem root va) : Coupled ({ M with vm := vm }, Ps) where
  spaces := hspaces
  length := h.length
  sees pid root P hpid hP va hva := by
    rw [hviews root (mem_of_getElem? hpid) va hva]
    exact h.sees pid root P hpid hP va hva

theorem Coupled.write (h : Coupled (M, Ps)) (tries : Nat) {va : U64}
    (hpid : M.procs[pid]? = some root) (hva : UserAddress va) (x : U8) :
    Coupled ({ M with vm := (userWrite tries M.vm root va x).1 },
      if (userWrite tries M.vm root va x).2 then privateStep Ps (.write pid va x) else Ps) := by
  obtain ⟨hspaces, hviews⟩ := userWrite_spec tries h.spaces (mem_of_getElem? hpid) hva x
  generalize userWrite tries M.vm root va x = res at hspaces hviews
  by_cases hdone : res.2 = true
  · rw [if_pos hdone]
    refine ⟨hspaces, ?_, ?_⟩
    · exact (length_modify ..).trans h.length
    · intro pid' root' P hpid' hP va' hva'
      rw [hviews root' (mem_of_getElem? hpid') va' hva', viewAfter, hdone]
      rw [privateStep, List.getElem?_modify] at hP
      obtain ⟨P₀, hP₀, rfl⟩ := Option.map_eq_some_iff.mp hP
      have hsees := h.sees pid' root' P₀ hpid' hP₀
      by_cases hsame : pid = pid'
      · subst hsame
        obtain rfl : root = root' := Option.some.inj (hpid.symm.trans hpid')
        rw [if_pos rfl, Private.store]
        by_cases hv : va' = va
        · subst hv
          rw [if_pos ⟨rfl, rfl, rfl⟩, Function.update_self, hsees va' hva']
        · rw [if_neg (fun hc => hv hc.2.2), Function.update_of_ne hv, hsees va' hva']
      · have hroot : root' ≠ root := by
          rintro rfl
          exact hsame (h.spaces.pid_unique hpid hpid')
        rw [if_neg (fun hc => hroot hc.2.1), if_neg hsame]
        exact hsees va' hva'
  grind [same_views, viewAfter]

theorem Coupled.fork (h : Coupled (M, Ps))
    {d : U64} {vm : Vm} (hpid : M.procs[pid]? = some root) (htouch : Touches 3 M.vm vm root)
    (hd : PageAligned d) (hcloned : Cloned 3 M.vm vm root d) :
    Coupled ({ vm := vm, procs := M.procs ++ [d] }, privateStep Ps (.fork pid)) := by
  have hmem := mem_of_getElem? hpid
  obtain ⟨P, hP, hsees⟩ := h.privateOf hpid
  have hstep : privateStep Ps (.fork pid) = Ps ++ [P] := by
    rw [privateStep, hP]
    rfl
  have hlen : Ps.length = M.procs.length := h.length
  rw [hstep]
  refine ⟨h.spaces.add hmem htouch hcloned hd, ?_, ?_⟩
  · dsimp only
    rw [length_append, length_append, hlen]
    rfl
  · intro pid' root' P' hpid' hP' va hva
    rcases Nat.lt_or_ge pid' M.procs.length with hlt | hge
    · rw [List.getElem?_append_left hlt] at hpid'
      rw [List.getElem?_append_left (by omega)] at hP'
      rw [h.spaces.forked_view hmem htouch (mem_of_getElem? hpid') hva]
      exact h.sees pid' root' P' hpid' hP' va hva
    · rw [List.getElem?_append_right hge, List.getElem?_singleton] at hpid'
      rw [List.getElem?_append_right (by omega), List.getElem?_singleton] at hP'
      split at hpid'
      · cases hpid'
        split at hP'
        · cases hP'
          rw [h.spaces.child_view hmem htouch hcloned hva]
          exact hsees va hva
        · cases hP'
      · cases hpid'

/-- **One operation keeps the coupling.** -/
theorem Coupled.step {L : Machine × List Private} (h : Coupled L) (tries : Nat) {op : UserOp}
    (hop : op.InUserHalf) : Coupled (lockstep tries L op) := by
  obtain ⟨M, Ps⟩ := L
  cases op with
  | write pid va x =>
    rw [lockstep, Machine.step]
    cases hpid : M.procs[pid]? with
    | none => exact h
    | some root => exact h.write tries hpid hop x
  | fork pid =>
    cases hpid : M.procs[pid]? with
    | none =>
      rw [lockstep, Machine.step, hpid]
      exact h
    | some root =>
      have hmem := mem_of_getElem? hpid
      obtain ⟨htouch, hok⟩ := vmmForkPml4_clones M.vm root (h.spaces.tree root hmem)
      rw [lockstep, Machine.step_fork tries hpid]
      generalize vmmForkPml4 M.vm root = r at htouch hok
      by_cases hz : r.2 = 0#64
      · rw [Machine.forked, if_pos hz]
        exact h.same_views (h.spaces.forked hmem htouch)
          (fun root' hroot' va hva => h.spaces.forked_view hmem htouch hroot' hva)
      grind [Machine.forked, fork]

/-! ## Isolation -/

/-- The parent at the start: its tables lie in frames of their own, it maps
4 KB pages only, every page it maps has a data frame of its own, and all these
frames are in use. -/
structure Parent (s : Vm) (root : U64) : Prop where
  tree : Tree 3 s root
  data : ∀ x, Leaf s.mem [root] x → has (s.mem x) ptePresent = true →
    Used s.pmm (pteAddr (s.mem x)) ∧ ¬ Table s.mem [root] (pteAddr (s.mem x))
  distinct : ∀ x y, Leaf s.mem [root] x → Leaf s.mem [root] y → x ≠ y →
    has (s.mem x) ptePresent = true → has (s.mem y) ptePresent = true →
    pteAddr (s.mem x) ≠ pteAddr (s.mem y)

theorem Parent.spaces (h : Parent s r) : Spaces s [r] where
  tree root hroot := by
    obtain rfl := mem_singleton.mp hroot
    exact h.tree
  apart := pairwise_singleton _ _
  data := h.data
  exclusive x y hx hy hne hpx hpy heq := absurd heq (h.distinct x y hx hy hne hpx hpy)

/-- The machine with the parent alone, and the parent's memory as a private
one. -/
def startOf (s : Vm) (root : U64) : Machine × List Private :=
  ({ vm := s, procs := [root] }, [userView s.mem root])

theorem Parent.coupled (h : Parent s r) : Coupled (startOf s r) where
  spaces := h.spaces
  length := rfl
  sees pid root P hpid hP va _ := by
    cases pid with
    | zero =>
      cases hpid
      cases hP
      rfl
    | succ pid => cases hpid

/-- **Every process has its own memory**: it reads at every user address what its
private memory holds; a store completes only where the private memory may be
written, and there it fails only if no frame is left. -/
def Isolated (tries : Nat) (write : Vm → U64 → U64 → U8 → Vm × Bool)
    (L : Machine × List Private) : Prop :=
  ∀ (pid : Nat) (r : U64), L.1.procs[pid]? = some r →
    ∃ P, L.2[pid]? = some P ∧ ∀ va, UserAddress va →
      userRead L.1.vm.mem r va = (P va).map Prod.fst ∧
      ∀ x, ((write L.1.vm r va x).2 = true → ∃ b, P va = some (b, true)) ∧
        (∀ b, P va = some (b, true) → 2 ≤ tries → (pmmAllocFrame L.1.vm.pmm).2 ≠ 0#64 →
          (write L.1.vm r va x).2 = true)

theorem Coupled.isolated {L : Machine × List Private} (hcoupled : Coupled L) (tries : Nat) :
    Isolated tries (userWrite tries) L := by
  intro pid r hpid
  have hmem := mem_of_getElem? hpid
  obtain ⟨P, hP, hsees⟩ := hcoupled.privateOf hpid
  refine ⟨P, hP, fun va hva => ⟨?_, fun x => ⟨fun hdone => ?_, fun b hb htries halloc => ?_⟩⟩⟩
  · rw [userRead_eq, hsees va hva]
  · obtain ⟨b, hb⟩ := userWrite_allowed tries hcoupled.spaces hmem hva x hdone
    exact ⟨b, (hsees va hva).symm.trans hb⟩
  · exact userWrite_completes htries hcoupled.spaces hmem hva x ((hsees va hva).trans hb) halloc

/-! ## A parent with two pages -/

/-- Tables at 0x1000 to 0x4000 that map the first two pages to 0x5000 and
0x6000, writable for user mode. -/
def twoPagesMem : Memory := fun x =>
  if x = 0x1000#64 then 0x2007#64 else if x = 0x2000#64 then 0x3007#64
  else if x = 0x3000#64 then 0x4007#64 else if x = 0x4000#64 then 0x5007#64
  else if x = 0x4008#64 then 0x6007#64 else 0#64

/-- The frames 7 to 63 are free. -/
def twoPages : Vm where
  pmm := { (default : PmmState) with bitmap := fun i => if i = 0 then 0x7F#64 else ~~~0#64 }
  mem := twoPagesMem

/-- Its table of level `k`. -/
def twoPagesTable (k : Nat) : U64 := BitVec.ofNat 64 (0x4000 - 0x1000 * k)

theorem twoPagesTable_inj : ∀ j ≤ 3, ∀ k ≤ 3, twoPagesTable j = twoPagesTable k → j = k := by
  decide

/-- Each directory has one entry, which points to the next table. -/
theorem twoPages_child {i : Nat} (hk : k + 1 ≤ 3)
    (h : HasChild format (k + 1) twoPagesMem (twoPagesTable (k + 1)) i) :
    i = 0 ∧ child format twoPagesMem (twoPagesTable (k + 1)) i = twoPagesTable k := by
  have h1 : ∀ i < 512, has (twoPagesMem (slot 0x3000#64 i)) ptePresent = true → i = 0 := by
    decide +kernel
  have h2 : ∀ i < 512, has (twoPagesMem (slot 0x2000#64 i)) ptePresent = true → i = 0 := by
    decide +kernel
  have h3 : ∀ i < 512, has (twoPagesMem (slot 0x1000#64 i)) ptePresent = true → i = 0 := by
    decide +kernel
  have hzero : i = 0 := by
    obtain rfl | rfl | rfl : k = 0 ∨ k = 1 ∨ k = 2 := by omega
    · exact h1 i h.lt h.2
    · exact h2 i h.lt h.2
    · exact h3 i h.lt h.2
  subst hzero
  refine ⟨rfl, ?_⟩
  obtain rfl | rfl | rfl : k = 0 ∨ k = 1 ∨ k = 2 := by omega
  all_goals decide

theorem twoPages_frames (hk : k ≤ 3) {a : U64}
    (h : Frames format k twoPagesMem (twoPagesTable k) a) : ∃ j ≤ k, a = twoPagesTable j := by
  induction k with
  | zero => exact ⟨0, le_rfl, h⟩
  | succ k ih =>
    rcases h with rfl | ⟨i, hi, h⟩
    · exact ⟨k + 1, le_rfl, rfl⟩
    · rw [(twoPages_child hk hi).2] at h
      obtain ⟨j, hj, rfl⟩ := ih (by omega) h
      exact ⟨j, by omega, rfl⟩

theorem twoPages_leafTable (hk : k ≤ 3) {b : U64}
    (h : LeafTable format k twoPagesMem (twoPagesTable k) b) : b = twoPagesTable 0 := by
  induction k with
  | zero => exact h
  | succ k ih =>
    obtain ⟨i, hi, h⟩ := h
    rw [(twoPages_child hk hi).2] at h
    exact ih (by omega) h

theorem twoPages_separate (hk : k ≤ 3) : Separate format k twoPagesMem (twoPagesTable k) := by
  induction k with
  | zero => trivial
  | succ k ih =>
    constructor
    · intro i hi
      rw [(twoPages_child hk hi).2]
      refine ⟨ih (by omega), fun hmem => ?_⟩
      obtain ⟨j, hj, heq⟩ := twoPages_frames (by omega) hmem
      have := twoPagesTable_inj (k + 1) hk j (by omega) heq
      omega
    · intro i j hi hj hne
      exact absurd ((twoPages_child hk hi).1.trans (twoPages_child hk hj).1.symm) hne

theorem twoPages_small (hk : k ≤ 3) :
    Directories format NoHuge k twoPagesMem (twoPagesTable k) := by
  induction k with
  | zero => trivial
  | succ k ih =>
    intro i hi
    obtain ⟨hzero, hchild⟩ := twoPages_child hk hi
    rw [hchild, hzero]
    refine ⟨fun _ => ?_, ih (by omega)⟩
    obtain rfl | rfl | rfl : k = 0 ∨ k = 1 ∨ k = 2 := by omega
    all_goals decide

/-- Its leaf entries are the first two of the page table. -/
theorem twoPages_page {x : U64} (h : Leaf twoPagesMem [0x1000#64] x)
    (hp : has (twoPagesMem x) ptePresent = true) :
    (x = 0x4000#64 ∧ pteAddr (twoPagesMem x) = 0x5000#64) ∨
      (x = 0x4008#64 ∧ pteAddr (twoPagesMem x) = 0x6000#64) := by
  have honly : ∀ i < 512, has (twoPagesMem (slot 0x4000#64 i)) ptePresent = true → i = 0 ∨ i = 1 := by
    decide +kernel
  obtain ⟨r, hr, b, hb, i, hi, rfl⟩ := h
  obtain rfl := mem_singleton.mp hr
  obtain rfl := twoPages_leafTable le_rfl hb
  rcases honly i hi hp with rfl | rfl
  · exact .inl (by decide)
  · exact .inr (by decide)

theorem twoPages_table {a : U64} (h : Table twoPagesMem [0x1000#64] a) :
    ∃ j ≤ 3, a = twoPagesTable j := by
  obtain ⟨r, hr, ha⟩ := h
  obtain rfl := mem_singleton.mp hr
  exact twoPages_frames le_rfl ha

/-- It is a parent as long as the first seven frames are in use. -/
theorem twoPagesMem_parent {pmm : PmmState}
    (hused : ∀ f < 7, WordBitmap.test pmm.bitmap f = true) :
    Parent ⟨pmm, twoPagesMem⟩ 0x1000#64 where
  tree := by
    refine ⟨by decide, twoPages_separate le_rfl, twoPages_small le_rfl, ?_⟩
    intro a ha
    obtain ⟨j, hj, rfl⟩ := twoPages_frames le_rfl ha
    have hlow : ∀ j ≤ 3, frameOf (twoPagesTable j) < 7 := by decide
    exact .inr (hused _ (hlow j hj))
  data x hx hp := by
    have hnot : ∀ j ≤ 3, 0x5000#64 ≠ twoPagesTable j ∧ 0x6000#64 ≠ twoPagesTable j := by decide
    dsimp only
    rcases twoPages_page hx hp with ⟨-, haddr⟩ | ⟨-, haddr⟩
    · rw [haddr]
      refine ⟨.inr (hused _ (by decide)), fun ht => ?_⟩
      obtain ⟨j, hj, heq⟩ := twoPages_table ht
      exact (hnot j hj).1 heq
    · rw [haddr]
      refine ⟨.inr (hused _ (by decide)), fun ht => ?_⟩
      obtain ⟨j, hj, heq⟩ := twoPages_table ht
      exact (hnot j hj).2 heq
  distinct x y hx hy hne hpx hpy := by
    dsimp only
    rcases twoPages_page hx hpx with ⟨rfl, hx⟩ | ⟨rfl, hx⟩ <;>
      rcases twoPages_page hy hpy with ⟨rfl, hy⟩ | ⟨rfl, hy⟩
    · exact absurd rfl hne
    · rw [hx, hy]
      decide
    · rw [hx, hy]
      decide
    · exact absurd rfl hne

theorem twoPages_parent : Parent twoPages 0x1000#64 := twoPagesMem_parent (by decide)

end Vmm
