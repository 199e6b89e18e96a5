import NamelessOS.KernelWindow

/-!
# Page tables through the kernel's window

`vmm.c` reaches a table of physical address `p` at `PHYS_TO_VIRT(p)`.  Here its
functions are given with the place `w p` that this address leads to: below
2 GiB the window maps every frame to itself, but from there on the sum wraps to
a low address.  `Vmm` has the same functions with every access at `p` itself.
As long as every free frame lies below 2 GiB the two agree, because every table
was a free frame once; so what is proved about the runs of the one holds for
the other.  With a table above 2 GiB it does not.
-/

namespace Vmm

open Pmm WordMemory PageTree List Runs
open Function (update update_self)
open WordBitmap (test)

namespace Window

variable (w : U64 → U64)

/-- `get_or_alloc_table`; `entry` is the place of the entry, and the result the
place of the table. -/
def getOrAllocTable (s : Vm) (entry flags : U64) : Vm × Option U64 :=
  if !has (s.mem entry) ptePresent then
    let r := pmmAllocFrame s.pmm
    if r.2 = 0#64 then ({ s with pmm := r.1 }, none)
    else
      let m := update (fillZero s.mem (w r.2) 4096) entry (r.2 ||| flags ||| ptePresent)
      ({ pmm := r.1, mem := m }, some (w (pteAddr (m entry))))
  else (s, some (w (pteAddr (s.mem entry))))

/-- `vmm_map_user_page`; the result is 0 or -1. -/
def vmmMapUserPage (s : Vm) (pml4 virt phys flags : U64) : Vm × Int :=
  match getOrAllocTable w s (slot (w pml4) (vaPml4Idx virt)) (pteWrite ||| pteUser) with
  | (s, none) => (s, -1)
  | (s, some pdpt) =>
    match getOrAllocTable w s (slot pdpt (vaPdptIdx virt)) (pteWrite ||| pteUser) with
    | (s, none) => (s, -1)
    | (s, some pdt) =>
      match getOrAllocTable w s (slot pdt (vaPdtIdx virt)) (pteWrite ||| pteUser) with
      | (s, none) => (s, -1)
      | (s, some pt) =>
        (s.write (slot pt (vaPtIdx virt)) ((phys &&& pteAddrMask) ||| flags ||| ptePresent), 0)

/-- The same by the levels it descends. -/
def mapPath (e : U64) : Nat → Vm → U64 → (Nat → Nat) → Vm × Int
  | 0, s, t, ix => (s.write (slot t (ix 0)) e, 0)
  | k + 1, s, t, ix =>
    match getOrAllocTable w s (slot t (ix (k + 1))) tableFlags with
    | (s, none) => (s, -1)
    | (s, some c) => mapPath e k s c ix

theorem vmmMapUserPage_levels (s : Vm) (pml4 virt phys flags : U64) :
    vmmMapUserPage w s pml4 virt phys flags =
      mapPath w (leafEntry phys flags) 3 s (w pml4) (vaIndex virt) := rfl

/-- `cow_clone_pt`: the new table's frame, or 0. -/
def cowClonePt (s : Vm) (src : U64) : Vm × U64 :=
  let r := pmmAllocFrame s.pmm
  if r.2 = 0#64 then ({ s with pmm := r.1 }, 0#64)
  else
    ({ pmm := r.1
       mem := (range ptEntries).foldl (cowCloneEntry (w src) (w r.2)) s.mem }, r.2)

/-- The common body of `cow_clone_pdt` and `cow_clone_pdpt`. -/
def cowCloneDir (clone : Vm → U64 → Vm × U64) (s : Vm) (src : U64) : Vm × U64 :=
  let r := pmmAllocFrame s.pmm
  if r.2 = 0#64 then ({ s with pmm := r.1 }, 0#64)
  else
    let c := cloneEntries (has · pteHuge) clone (w src) (w r.2) (range ptEntries)
      { s with pmm := r.1 }
    if c.2 then (c.1, r.2) else (c.1.free r.2, 0#64)

def cowClonePdt : Vm → U64 → Vm × U64 := cowCloneDir w (cowClonePt w)

def cowClonePdpt : Vm → U64 → Vm × U64 := cowCloneDir w (cowClonePdt w)

/-- `free_user_pdpt`. -/
def freeUserPdpt (s : Vm) (pdpt : U64) : Vm :=
  let s := (range ptEntries).foldl (fun s i =>
    let e2 := s.mem (slot (w pdpt) i)
    if !has e2 ptePresent || has e2 pteHuge then s
    else
      let s := (range ptEntries).foldl (fun s j =>
        let e1 := s.mem (slot (w (pteAddr e2)) j)
        if !has e1 ptePresent || has e1 pteHuge then s else s.free (pteAddr e1)) s
      s.free (pteAddr e2)) s
  s.free pdpt

/-- `vmm_destroy_user_pml4`. -/
def vmmDestroyUserPml4 (s : Vm) (pml4 : U64) : Vm :=
  let s := (range 256).foldl (fun s i =>
    let e := s.mem (slot (w pml4) i)
    if !has e ptePresent then s else freeUserPdpt w s (pteAddr e)) s
  s.free pml4

/-- `vmm_create_user_pml4`: the new PML4's frame, or 0; `boot` is
`pml4_phys`. -/
def vmmCreateUserPml4 (boot : U64) (s : Vm) : Vm × U64 :=
  let r := pmmAllocFrame s.pmm
  if r.2 = 0#64 then ({ s with pmm := r.1 }, 0#64)
  else ({ pmm := r.1, mem := shareKernelHalf s.mem (w boot) (w r.2) }, r.2)

/-- `vmm_fork_pml4`: the new PML4's frame, or 0. -/
def vmmForkPml4 (s : Vm) (src : U64) : Vm × U64 :=
  let r := pmmAllocFrame s.pmm
  if r.2 = 0#64 then ({ s with pmm := r.1 }, 0#64)
  else
    let c := cloneEntries (fun _ => false) (cowClonePdpt w) (w src) (w r.2) (range 256)
      { pmm := r.1, mem := shareKernelHalf s.mem (w src) (w r.2) }
    if c.2 then (c.1, r.2) else (vmmDestroyUserPml4 w c.1 r.2, 0#64)

end Window

/-- The window maps every frame below 2 GiB to itself. -/
def LowWindow (w : U64 → U64) : Prop := ∀ p : U64, p.toNat < 2 ^ 31 → w p = p

/-- The tables of the tree lie below 2 GiB. -/
def LowTree (k : Nat) (m : Memory) (t : U64) : Prop :=
  ∀ a, Frames format k m t a → a.toNat < 2 ^ 31

/-! ## The functions agree on low tables -/

section

variable {w : U64 → U64} (hw : LowWindow w) {k : Nat} {s : Vm} {t : U64}

theorem LowTree.root {m : Memory} (h : LowTree k m t) : t.toNat < 2 ^ 31 :=
  h t (frames_root _ _ _)

theorem LowTree.child {m : Memory} {i : Nat} (h : LowTree (k + 1) m t)
    (hi : HasChild format (k + 1) m t i) : LowTree k m (child format m t i) :=
  fun a ha => h a (ha.child hi)

theorem LowTree.agree {m m' : Memory} (h : LowTree k m t) (ht : PageAligned t)
    (hagree : Agree format k m m' t) : LowTree k m' t :=
  fun a ha => h a ((hagree.frames_iff ht).mp ha)

include hw

theorem getOrAllocTable_agrees {flags entry : U64} (hflags : DirFlags flags)
    (hfree : FreeBelow s.pmm)
    (hlow : has (s.mem entry) ptePresent = true → (pteAddr (s.mem entry)).toNat < 2 ^ 31) :
    Window.getOrAllocTable w s entry flags = getOrAllocTable s entry flags := by
  unfold Window.getOrAllocTable getOrAllocTable
  by_cases hp : has (s.mem entry) ptePresent = true
  · rw [hp, Bool.not_true, if_neg (by decide), if_neg (by decide), hw _ (hlow hp)]
  · rw [Bool.not_eq_true] at hp
    rw [hp, Bool.not_false, if_pos rfl, if_pos rfl]
    dsimp only
    have halloc := pmmAllocFrame_result s.pmm
    generalize pmmAllocFrame s.pmm = r at halloc
    cases halloc with
    | none pmm' hkeep => rw [if_pos rfl, if_pos rfl]
    | frame pmm' d hne haligned hmask hfresh hused =>
      have hd := hfree d haligned hfresh
      rw [if_neg hne, if_neg hne, hw d hd, update_self, (dirEntry hflags hmask).1, hw d hd]

theorem mapPath_agrees (e : U64) {ix : Nat → Nat} (htree : Tree k s t) (hlow : LowTree k s.mem t)
    (hfree : FreeBelow s.pmm) (hix : InRange format k ix) :
    Window.mapPath w e k s t ix = mapPath e k s t ix := by
  induction k generalizing s t with
  | zero => rfl
  | succ k ih =>
    have hi := hix (k + 1) le_rfl
    have hgot := getOrAllocTable_spec htree hi
    have hsame : Window.getOrAllocTable w s (slot t (ix (k + 1))) tableFlags =
        getOrAllocTable s (slot t (ix (k + 1))) tableFlags :=
      getOrAllocTable_agrees hw dirFlags_tableFlags hfree
        (fun hp => (hlow.child ⟨hi, hp⟩).root)
    rw [Window.mapPath, mapPath, hsame]
    generalize getOrAllocTable s (slot t (ix (k + 1))) tableFlags = r at hgot
    obtain ⟨s₁, c⟩ := r
    obtain ⟨hgrown, -, htable⟩ := hgot
    dsimp only at hgrown htable
    cases c with
    | none => rfl
    | some c =>
      obtain ⟨hi, rfl⟩ := htable c rfl
      -- the tables are those of before and frames that were free
      have hlow₁ : LowTree (k + 1) s₁.mem t := by
        intro a ha
        rcases hgrown.frames a ha with hold | hnew
        · exact hlow a hold
        · exact hfree a (ha.aligned htree.aligned) hnew
      exact ih (hgrown.tree.child hi) (hlow₁.child hi) (hfree.mono hgrown.kept)
        (fun j hj => hix j (by omega))

/-- **Mapping a page** in a tree of low tables. -/
theorem vmmMapUserPage_agrees {virt : U64} (phys flags : U64) (htree : Tree 3 s t)
    (hlow : LowTree 3 s.mem t) (hfree : FreeBelow s.pmm) (hvirt : UserHalf virt) :
    Window.vmmMapUserPage w s t virt phys flags = vmmMapUserPage s t virt phys flags := by
  rw [Window.vmmMapUserPage_levels, vmmMapUserPage_eq, hw t hlow.root]
  exact mapPath_agrees hw _ htree hlow hfree (inRange_of_userHalf hvirt)

theorem vmmCreateUserPml4_agrees {boot : U64} (hboot : boot.toNat < 2 ^ 31)
    (hfree : FreeBelow s.pmm) :
    Window.vmmCreateUserPml4 w boot s = vmmCreateUserPml4 boot s := by
  unfold Window.vmmCreateUserPml4 vmmCreateUserPml4
  have halloc := pmmAllocFrame_result s.pmm
  generalize pmmAllocFrame s.pmm = r at halloc
  cases halloc with
  | none pmm' hkeep => rw [if_pos rfl, if_pos rfl]
  | frame pmm' d hne haligned hmask hfresh hused =>
    rw [if_neg hne, if_neg hne, hw boot hboot, hw d (hfree d haligned hfresh)]

omit hw in
/-- Two loops that free frames and take the same turns, as memory does not
change. -/
theorem foldl_agrees {m : Memory} {f g : Vm → Nat → Vm} {is : List Nat}
    (hmem : ∀ s i, (g s i).mem = s.mem) (h : ∀ s i, s.mem = m → i ∈ is → f s i = g s i)
    (hs : s.mem = m) : is.foldl f s = is.foldl g s := by
  induction is generalizing s with
  | nil => rfl
  | cons i is ih =>
    rw [foldl_cons, foldl_cons, h s i hs mem_cons_self]
    exact ih (fun s j hs hj => h s j hs (mem_cons_of_mem i hj)) ((hmem s i).trans hs)

omit hw in
theorem Vm.free_mem (s : Vm) (p : U64) : (s.free p).mem = s.mem := rfl

omit hw in
theorem foldl_mem {f : Vm → Nat → Vm} (h : ∀ s i, (f s i).mem = s.mem) (is : List Nat) (s : Vm) :
    (is.foldl f s).mem = s.mem := by
  induction is generalizing s with
  | nil => rfl
  | cons i is ih => exact (ih (f s i)).trans (h s i)

omit hw in
theorem freeUserPdpt_mem (s : Vm) (pdpt : U64) : (freeUserPdpt s pdpt).mem = s.mem := by
  rw [freeUserPdpt_eq]
  exact foldl_free_mem _ s

theorem freeUserPdpt_agrees (hlow : LowTree 2 s.mem t) :
    Window.freeUserPdpt w s t = freeUserPdpt s t := by
  unfold Window.freeUserPdpt freeUserPdpt
  rw [hw t hlow.root]
  refine congrArg (fun s : Vm => s.free t) (foldl_agrees (fun s i => ?_) (fun s' i hs hi => ?_) rfl)
  · dsimp only
    split
    · rfl
    · rw [Vm.free_mem]
      refine foldl_mem (fun s j => ?_) _ s
      split
      · rfl
      · rfl
  · dsimp only
    rw [hs]
    split
    · rfl
    · rename_i hcond
      rw [Bool.or_eq_true, not_or, Bool.not_eq_true', Bool.not_eq_false] at hcond
      have hci : HasChild format 2 s.mem t i := ⟨mem_range.mp hi, hcond.1⟩
      have hlowi : (pteAddr (s.mem (slot t i))).toNat < 2 ^ 31 := (hlow.child hci).root
      rw [hw _ hlowi]

/-- **Teardown** of a tree of low tables. -/
theorem vmmDestroyUserPml4_agrees (hlow : LowTree 3 s.mem t) :
    Window.vmmDestroyUserPml4 w s t = vmmDestroyUserPml4 s t := by
  unfold Window.vmmDestroyUserPml4 vmmDestroyUserPml4
  rw [hw t hlow.root]
  refine congrArg (fun s : Vm => s.free t) (foldl_agrees (fun s i => ?_) (fun s' i hs hi => ?_) rfl)
  · dsimp only
    split
    · rfl
    · exact freeUserPdpt_mem _ _
  · dsimp only
    rw [hs]
    split
    · rfl
    · rename_i hcond
      rw [Bool.not_eq_true', Bool.not_eq_false] at hcond
      have hci : HasChild format 3 s.mem t i := ⟨mem_range.mp hi, hcond⟩
      exact freeUserPdpt_agrees hw (by rw [hs]; exact hlow.child hci)

/-! ### Clones -/

omit hw in
/-- Two clone functions for trees of level `k` agree on low tables. -/
def AgreesOn (k : Nat) (clone clone' : Vm → U64 → Vm × U64) : Prop :=
  ∀ s src, Tree k s src → FreeBelow s.pmm → LowTree k s.mem src → clone' s src = clone s src

theorem cowClonePt_agrees : AgreesOn 0 cowClonePt (Window.cowClonePt w) := by
  intro s src _ hfree hlow
  unfold Window.cowClonePt cowClonePt
  have halloc := pmmAllocFrame_result s.pmm
  generalize pmmAllocFrame s.pmm = r at halloc
  cases halloc with
  | none pmm' hkeep => rw [if_pos rfl, if_pos rfl]
  | frame pmm' d hne haligned hmask hfresh hused =>
    rw [if_neg hne, if_neg hne, hw src hlow.root, hw d (hfree d haligned hfresh)]

omit hw in
/-- **The loop over a directory** takes the same turns. -/
theorem cloneEntries_agrees {s₀ : Vm} {src dst : U64} {clone clone' : Vm → U64 → Vm × U64}
    {done : List Nat} (verbatim : U64 → Bool) (hclone : Clones k clone)
    (hagrees : AgreesOn k clone clone') (hstart : LoopStart k s₀ src dst)
    (hverb : ∀ i, HasChild format (k + 1) s₀.mem src i → verbatim (s₀.mem (slot src i)) = false)
    (hfree : FreeBelow s₀.pmm) (hlow : LowTree (k + 1) s₀.mem src) (is : List Nat)
    (hrange : ∀ i ∈ is, i < format.fanout (k + 1)) (hnodup : is.Nodup)
    (hnew : ∀ i ∈ is, i ∉ done) (h : Progress k s₀ s src dst done)
    (hun : ∀ i ∈ is, Untouched k s₀ s src i) :
    cloneEntries verbatim clone' src dst is s = cloneEntries verbatim clone src dst is s := by
  induction is generalizing s done with
  | nil => rfl
  | cons i is ih =>
    obtain ⟨hnot, hnodup⟩ := nodup_cons.mp hnodup
    have hsame : SameBelow k s₀ s src i clone clone' := by
      intro hchild
      have hagree := hun i mem_cons_self hchild
      exact hagrees s _ ((hstart.tree.child hchild).congr h.kept hagree) (hfree.mono h.kept)
        ((hlow.child hchild).agree (format.addr_aligned _) hagree)
    rcases cloneEntries_round verbatim hclone hstart hverb (hrange i mem_cons_self) hnot
      (hnew i mem_cons_self) h hun with ⟨-, -, hleft, -⟩ | ⟨s', hgoes, hprog, hunt, -⟩
    · rw [hleft clone' hsame, hleft clone (fun _ => rfl)]
    · rw [hgoes clone' hsame, hgoes clone (fun _ => rfl)]
      refine ih (fun j hj => hrange j (mem_cons_of_mem i hj)) hnodup (fun j hj hmem => ?_) hprog
        hunt
      rcases mem_cons.mp hmem with rfl | hmem
      · exact hnot hj
      · exact hnew j (mem_cons_of_mem i hj) hmem

theorem cowCloneDir_agrees {clone clone' : Vm → U64 → Vm × U64} (hk : k + 1 < 3)
    (hclone : Clones k clone) (hagrees : AgreesOn k clone clone') :
    AgreesOn (k + 1) (cowCloneDir clone) (Window.cowCloneDir w clone') := by
  intro s src htree hfree hlow
  unfold Window.cowCloneDir cowCloneDir
  have halloc := pmmAllocFrame_result s.pmm
  generalize pmmAllocFrame s.pmm = r at halloc
  cases halloc with
  | none pmm' hkeep => rw [if_pos rfl, if_pos rfl]
  | frame pmm' d hne haligned hmask hfresh hused =>
    rw [if_neg hne, if_neg hne]
    have hprep : Prepared s { s with pmm := pmm' } d := ⟨haligned, hfresh, hused, fun _ _ => rfl⟩
    have hfanout : format.fanout (k + 1) = ptEntries := if_neg (by omega)
    rw [hw src hlow.root, hw d (hfree d haligned hfresh),
      cloneEntries_agrees (has · pteHuge) hclone hagrees (hprep.loopStart htree)
        (fun i hi => (htree.small i hi).1 hk)
        (hfree.mono fun p hp hu => (hused p hp).mpr (.inl hu)) hlow (range ptEntries)
        (fun i hi => hfanout ▸ mem_range.mp hi) nodup_range (fun _ _ hmem => by cases hmem)
        (Progress.start _ src d) (fun _ _ _ => Agree.refl _ _ _ _)]

theorem cowClonePdpt_agrees : AgreesOn 2 cowClonePdpt (Window.cowClonePdpt w) :=
  cowCloneDir_agrees hw (by decide) cowClonePdt_clones
    (cowCloneDir_agrees hw (by decide) cowClonePt_clones (cowClonePt_agrees hw))

/-- **Fork** of a tree of low tables. -/
theorem vmmForkPml4_agrees : AgreesOn 3 vmmForkPml4 (Window.vmmForkPml4 w) := by
  intro s src htree hfree hlow
  unfold Window.vmmForkPml4 vmmForkPml4
  have halloc := pmmAllocFrame_result s.pmm
  generalize pmmAllocFrame s.pmm = r at halloc
  cases halloc with
  | none pmm' hkeep => rw [if_pos rfl, if_pos rfl]
  | frame pmm' d hne haligned hmask hfresh hused =>
    dsimp only
    rw [if_neg hne, if_neg hne, hw src hlow.root, hw d (hfree d haligned hfresh)]
    have hout : ∀ x, pageOf x ≠ d → shareKernelHalf s.mem src d x = s.mem x :=
      fun x hx => shareKernelHalf_outside s.mem haligned hx
    have huser : ∀ i < 256, shareKernelHalf s.mem src d (slot d i) = 0#64 :=
      fun i hi => shareKernelHalf_user s.mem haligned hi
    generalize shareKernelHalf s.mem src d = m₀ at hout huser
    have hprep : Prepared s { pmm := pmm', mem := m₀ } d := ⟨haligned, hfresh, hused, hout⟩
    obtain ⟨done, hprog, -⟩ := fork_progress htree hprep
    have hfanout : format.fanout (2 + 1) = 256 := rfl
    rw [cloneEntries_agrees (fun _ => false) cowClonePdpt_clones (cowClonePdpt_agrees hw)
      (hprep.loopStart htree) (fun _ _ => rfl)
      (hfree.mono fun p hp hu => (hused p hp).mpr (.inl hu))
      (hlow.agree htree.aligned (hprep.agree htree)) (range 256)
      (fun i hi => hfanout ▸ mem_range.mp hi) nodup_range (fun _ _ hmem => by cases hmem)
      (Progress.start _ src d) (fun _ _ _ => Agree.refl _ _ _ _)]
    rw [vmmDestroyUserPml4_agrees hw]
    intro a ha
    exact hfree a (ha.aligned haligned) (fork_fresh hprep huser hprog ha)

end

/-- Where `PHYS_TO_VIRT(p)` leads with the tables of `entry.asm` loaded: below
2 GiB to `p`, and from there on to the frame 2 GiB below. -/
def bootWindow (p : U64) : U64 := Heap.bootPhys (Heap.physToVirt p)

theorem bootWindow_low : LowWindow bootWindow := by
  intro p hp
  have hwin : kernelVma ≤ Heap.physToVirt p := by
    rw [Heap.physToVirt, BitVec.le_def, BitVec.toNat_add]
    have hvma : kernelVma.toNat = 0xFFFFFFFF80000000 := rfl
    omega
  rw [bootWindow, Heap.bootPhys, if_pos hwin]
  exact add_sub_cancel_left _ _

/-! ## Runs -/

/-- One operation, with every table reached through the window. -/
def Life.stepThrough (w : U64 → U64) (boot : U64) (s : Life) : LifeOp → Life
  | .create => s.add (Window.vmmCreateUserPml4 w boot s.vm)
  | .map root virt phys flags =>
    { s with vm := (Window.vmmMapUserPage w s.vm root virt phys flags).1 }
  | .fork root => s.add (Window.vmmForkPml4 w s.vm root)
  | .destroy root =>
    { s with vm := Window.vmmDestroyUserPml4 w s.vm root, live := s.live.erase root }
  | .alloc => s.allocData (pmmAllocFrame s.vm.pmm)

/-- The tables that are alive lie below 2 GiB, and so do the free frames. -/
structure Life.Low (s : Life) : Prop where
  forest : Forest s.vm s.live
  tables : ∀ a, Table s.vm.mem s.live a → a.toNat < 2 ^ 31
  free : FreeBelow s.vm.pmm

section

variable {w : U64 → U64} {boot : U64} {s : Life} {op : LifeOp}

theorem Life.Low.tree (h : s.Low) {r : U64} (hr : r ∈ s.live) : LowTree 3 s.vm.mem r :=
  fun a ha => h.tables a ⟨r, hr, ha⟩

/-- **Step.**  A new table was a free frame, and a frame that becomes free was a
table. -/
theorem Life.Low.step (boot : U64) (h : s.Low) (hop : OnLive s op) : (s.step boot op).Low := by
  have hchange := step_change boot h.forest hop
  refine ⟨hchange.forest, fun a ha => ?_, fun p hp hnot => ?_⟩
  · rcases hchange.tables a ha with hold | hnew
    · exact h.tables a hold
    · obtain ⟨r, hr, ha⟩ := ha
      exact h.free a (ha.aligned (hchange.forest.tree r hr).aligned) hnew
  · by_cases hu : Used s.vm.pmm p
    · by_cases ht : Table s.vm.mem s.live p
      · exact h.tables p ht
      · exact absurd (hchange.kept p hp hu ht) hnot
    · exact h.free p hp hu

/-- **Step.**  On low tables the window makes no difference. -/
theorem Life.Low.step_agrees (hw : LowWindow w) (hboot : boot.toNat < 2 ^ 31) (h : s.Low)
    (hop : OnLive s op) : s.stepThrough w boot op = s.step boot op := by
  cases op with
  | create =>
    rw [Life.stepThrough, Life.step, vmmCreateUserPml4_agrees hw hboot h.free]
  | map root virt phys flags =>
    rw [Life.stepThrough, Life.step, vmmMapUserPage_agrees hw phys flags
      (h.forest.tree root hop.1) (h.tree hop.1) h.free hop.2]
  | fork root =>
    rw [Life.stepThrough, Life.step,
      vmmForkPml4_agrees hw s.vm root (h.forest.tree root hop) h.free (h.tree hop)]
  | destroy root => rw [Life.stepThrough, Life.step, vmmDestroyUserPml4_agrees hw (h.tree hop)]
  | alloc => rfl

theorem low_start {s₀ : Vm} (hfree : FreeBelow s₀.pmm) : (Life.start s₀).Low :=
  ⟨forest_start s₀, fun _ ⟨_, hr, _⟩ => absurd hr not_mem_nil, hfree⟩

/-- **Run.**  With the free frames below 2 GiB the window makes no difference. -/
theorem run_agrees (hw : LowWindow w) (hboot : boot.toNat < 2 ^ 31) {s₀ : Vm}
    (hfree : FreeBelow s₀.pmm) {ok : Life → LifeOp → Prop} (hok : ∀ s op, ok s op → OnLive s op)
    {ops : List LifeOp} (hops : StepsMeet (Life.stepThrough w boot) ok (Life.start s₀) ops) :
    StepsMeet (Life.step boot) ok (Life.start s₀) ops ∧
      run (Life.stepThrough w boot) (Life.start s₀) ops =
        run (Life.step boot) (Life.start s₀) ops :=
  hops.run_eq Life.Low (fun s op h hop => h.step boot (hok s op hop))
    (fun s op h hop => h.step_agrees hw hboot (hok s op hop)) (low_start hfree)

theorem low_run {s₀ : Vm} (hfree : FreeBelow s₀.pmm) {ops : List LifeOp}
    (hops : StepsMeet (Life.step boot) OnLive (Life.start s₀) ops) :
    (run (Life.step boot) (Life.start s₀) ops).Low :=
  run_invariant Life.Low (fun _ _ h hop => h.step boot hop) (low_start hfree) hops

end

/-- **Address-space isolation of mapping.**  After any run on address spaces that
are alive, with the free frames of its start below 2 GiB, `vmm_map_user_page`
changes the leaf of its page to the new entry if it returns 0, and no leaf of
any address space otherwise. -/
theorem map_user_page_isolated {w : U64 → U64} (hw : LowWindow w) (boot : U64)
    (hboot : boot.toNat < 2 ^ 31) (s₀ : Vm) (hfree : FreeBelow s₀.pmm) (ops : List LifeOp)
    (hops : StepsMeet (Life.stepThrough w boot) OnLive (Life.start s₀) ops)
    (root virt phys flags : U64)
    (hroot : root ∈ (run (Life.stepThrough w boot) (Life.start s₀) ops).live)
    (hvirt : UserHalf virt) :
    let s := run (Life.stepThrough w boot) (Life.start s₀) ops
    MapsOnly s root virt ((phys &&& pteAddrMask) ||| flags ||| ptePresent)
      (Window.vmmMapUserPage w s.vm root virt phys flags) := by
  obtain ⟨hmeet, hrun⟩ := run_agrees hw hboot hfree (fun _ _ hop => hop) hops
  rw [hrun] at hroot ⊢
  have hlow := low_run hfree hmeet
  intro s
  rw [vmmMapUserPage_agrees hw phys flags (hlow.forest.tree root hroot) (hlow.tree hroot)
    hlow.free hvirt]
  exact hlow.forest.mapsOnly phys flags hroot hvirt

/-- Memory that is all zero, with the frames 2 to 63 free. -/
def emptyVm : Vm where
  pmm := { (default : PmmState) with bitmap := fun i => if i = 0 then 3#64 else ~~~0#64 }
  mem := fun _ => 0#64

/-- With the bits from word 1 on set, only the first 64 frames can be free. -/
theorem freeBelow_of_words {pmm : PmmState} (hones : ∀ i, i ≠ 0 → pmm.bitmap i = ~~~0#64) :
    FreeBelow pmm := by
  intro p _ hfree
  by_contra hhigh
  refine hfree (.inr ?_)
  have hword : frameOf p / 64 ≠ 0 := by
    unfold frameOf frameSize
    omega
  have hbit : ∀ k < 64, (~~~0#64 >>> k &&& 1#64 != 0#64) = true := by decide
  unfold test
  rw [hones _ hword]
  exact hbit _ (Nat.mod_lt _ (by decide))

theorem emptyVm_freeBelow : FreeBelow emptyVm.pmm := freeBelow_of_words (fun _ hi => if_neg hi)

/-- A run from boot, with the PML4 of the kernel at `0x1000`. -/
abbrev bootRun (s₀ : Vm) (ops : List LifeOp) : Life :=
  run (Life.stepThrough bootWindow 0x1000#64) (Life.start s₀) ops

/-- Two address spaces with a page each at one address. -/
def twoMapped : List LifeOp :=
  [.create, .create, .map 0x2000#64 0x400000#64 0x20000#64 7#64,
    .map 0x3000#64 0x400000#64 0x21000#64 7#64]

/-- A second page of the first of them leaves the three other leaves alone. -/
theorem map_user_page_isolated_second :
    let s := bootRun emptyVm twoMapped
    let r := Window.vmmMapUserPage bootWindow s.vm 0x2000#64 0x401000#64 0x22000#64 7#64
    r.2 = 0 ∧ userLeaf r.1.mem 0x2000#64 0x401000#64 = 0x22007#64 ∧
      userLeaf r.1.mem 0x2000#64 0x400000#64 = 0x20007#64 ∧
      userLeaf r.1.mem 0x3000#64 0x400000#64 = 0x21007#64 ∧
      userLeaf r.1.mem 0x3000#64 0x401000#64 = 0#64 := by
  have hops : StepsMeet (Life.stepThrough bootWindow 0x1000#64) OnLive (Life.start emptyVm)
      twoMapped := by
    refine ⟨trivial, trivial, ⟨?_, by decide⟩, ⟨?_, by decide⟩, trivial⟩
    · decide +kernel
    · decide +kernel
  have hroots : 0x2000#64 ∈ (bootRun emptyVm twoMapped).live ∧
      0x3000#64 ∈ (bootRun emptyVm twoMapped).live := by
    decide +kernel
  have hret : (Window.vmmMapUserPage bootWindow (bootRun emptyVm twoMapped).vm 0x2000#64
      0x401000#64 0x22000#64 7#64).2 = 0 := by
    decide +kernel
  have hbefore : userLeaf (bootRun emptyVm twoMapped).vm.mem 0x2000#64 0x400000#64 = 0x20007#64 ∧
      userLeaf (bootRun emptyVm twoMapped).vm.mem 0x3000#64 0x400000#64 = 0x21007#64 ∧
      userLeaf (bootRun emptyVm twoMapped).vm.mem 0x3000#64 0x401000#64 = 0#64 := by
    decide +kernel
  have hother : ∀ va, SamePage va 0x401000#64 → vaPtIdx va = 1 := fun va h => h 0 (by decide)
  have hisolated : MapsOnly (bootRun emptyVm twoMapped) 0x2000#64 0x401000#64 0x22007#64
      (Window.vmmMapUserPage bootWindow (bootRun emptyVm twoMapped).vm 0x2000#64 0x401000#64
        0x22000#64 7#64) :=
    map_user_page_isolated bootWindow_low 0x1000#64 (by decide) emptyVm emptyVm_freeBelow
      twoMapped hops 0x2000#64 0x401000#64 0x22000#64 7#64 hroots.1 (by decide)
  obtain ⟨hnew, hrest⟩ := hisolated.1 hret
  refine ⟨hret, hnew, ?_, ?_, ?_⟩
  · refine (hrest _ hroots.1 0x400000#64 (by decide) ?_).trans hbefore.1
    exact fun h => absurd (hother _ h.2) (by decide)
  · exact (hrest _ hroots.2 0x400000#64 (by decide) (fun h => absurd h.1 (by decide))).trans
      hbefore.2.1
  · exact (hrest _ hroots.2 0x401000#64 (by decide) (fun h => absurd h.1 (by decide))).trans
      hbefore.2.2

/-- One free frame at 2 MiB; the others lie from 2 GiB and 2 MiB on. -/
def highVm : Vm where
  pmm := { (default : PmmState) with
    bitmap := fun i => if i = 8 then ~~~1#64 else if i = 0x2008 then 0#64 else ~~~0#64 }
  mem := fun _ => 0#64

/-- The new table is zeroed and filled through the window at 2 MiB, in the PML4:
the call returns 0, and the page is not mapped. -/
theorem map_user_page_wraps :
    let s := bootRun highVm [.create]
    let r := Window.vmmMapUserPage bootWindow s.vm 0x200000#64 0x400000#64 0x9000#64 7#64
    0x200000#64 ∈ s.live ∧ r.2 = 0 ∧ userLeaf r.1.mem 0x200000#64 0x400000#64 = 0#64 := by
  decide +kernel

/-- **Teardown frees exactly its own tables**, in every state reached from boot
with the free frames below 2 GiB.  If moreover every mapping was given a data
frame, no frame that any address space maps is freed. -/
theorem destroy_frees_own_tables {w : U64 → U64} (hw : LowWindow w) (boot : U64)
    (hlow : boot.toNat < 2 ^ 31) (s₀ : Vm) (hboot : Booted boot s₀) (hfree : FreeBelow s₀.pmm)
    (ops : List LifeOp)
    (hops : StepsMeet (Life.stepThrough w boot) OnLive (Life.start s₀) ops) (root : U64)
    (hroot : root ∈ (run (Life.stepThrough w boot) (Life.start s₀) ops).live) :
    let s := run (Life.stepThrough w boot) (Life.start s₀) ops
    FreesOwnTables s root (Window.vmmDestroyUserPml4 w s.vm root) ∧
      (StepsMeet (Life.stepThrough w boot) MapsData (Life.start s₀) ops →
        ∀ root' ∈ s.live, ∀ va, UserHalf va →
        has (userLeaf s.vm.mem root' va) ptePresent = true →
          pteAddr (userLeaf s.vm.mem root' va) ∉ destroyCalls s.vm.mem root) := by
  obtain ⟨hmeet, hrun⟩ := run_agrees hw hlow hfree (fun _ _ hop => hop) hops
  have hdata : StepsMeet (Life.stepThrough w boot) MapsData (Life.start s₀) ops →
      StepsMeet (Life.step boot) MapsData (Life.start s₀) ops := by
    intro h
    exact (run_agrees hw hlow hfree (fun _ _ hop => hop.1) (hops.and h)).1.mono
      (fun _ _ hop => hop.2)
  rw [hrun] at hroot ⊢
  intro s
  rw [vmmDestroyUserPml4_agrees hw ((low_run hfree hmeet).tree hroot)]
  obtain ⟨hfrees, hmapped⟩ := destroy_frees boot hboot hmeet hroot
  exact ⟨hfrees, fun h => hmapped (hdata h)⟩

/-- `emptyVm` with a kernel half: one entry of the PML4 at `0x1000`, and its
table in frame 0. -/
def bootVm : Vm := { emptyVm with mem := Function.update emptyVm.mem (slot 0x1000#64 256) 1#64 }

theorem bootVm_booted : Booted 0x1000#64 bootVm := by
  refine ⟨by decide, .inr (by decide), ?_⟩
  rintro a ⟨i, hlow, hi, hp, ha⟩
  have hentry : i = 256 := by
    by_contra hne
    have hzero : bootVm.mem (slot 0x1000#64 i) = 0#64 := by
      refine Function.update_of_ne (fun heq => hne ?_) _ _
      exact ((slot_inj (by decide) (by decide) hi (by omega)).mp heq).2
    rw [hzero] at hp
    exact absurd hp (by decide)
  subst hentry
  have hblank : Blank kernelFormat 2 bootVm.mem 0#64 := by
    intro j hj
    refine Function.update_of_ne (fun heq => ?_) _ _
    have := ((slot_inj (by decide) (by decide) hj (by omega)).mp heq).1
    exact absurd this (by decide)
  have hroot : pteAddr (bootVm.mem (slot 0x1000#64 256)) = 0#64 := by decide
  rw [hroot, hblank.frames_iff (by decide)] at ha
  subst ha
  exact .inr (by decide)

/-- Two address spaces, one with a page. -/
def twoSpaces : List LifeOp := [.create, .create, .alloc, .map 0x2000#64 0x400000#64 0x4000#64 7#64]

theorem destroy_frees_own_tables_twoSpaces :
    let s := bootRun bootVm twoSpaces
    FreesOwnTables s 0x2000#64 (Window.vmmDestroyUserPml4 bootWindow s.vm 0x2000#64) ∧
      0x4000#64 ∉ destroyCalls s.vm.mem 0x2000#64 := by
  have hroot : 0x2000#64 ∈ (bootRun bootVm twoSpaces).live := by
    decide +kernel
  have hops : StepsMeet (Life.stepThrough bootWindow 0x1000#64) OnLive (Life.start bootVm)
      twoSpaces := by
    refine ⟨trivial, trivial, trivial, ⟨?_, by decide⟩, trivial⟩
    decide +kernel
  have hdata : StepsMeet (Life.stepThrough bootWindow 0x1000#64) MapsData (Life.start bootVm)
      twoSpaces := by
    refine ⟨trivial, trivial, trivial, ?_, trivial⟩
    show _ ∈ _
    decide +kernel
  have hleaf : userLeaf (bootRun bootVm twoSpaces).vm.mem 0x2000#64 0x400000#64 = 0x4007#64 := by
    decide +kernel
  obtain ⟨hfrees, hmapped⟩ := destroy_frees_own_tables bootWindow_low 0x1000#64
    (by decide) bootVm bootVm_booted emptyVm_freeBelow twoSpaces hops 0x2000#64 hroot
  have hpage := hmapped hdata 0x2000#64 hroot 0x400000#64 (by decide) (by rw [hleaf]; decide)
  rw [hleaf] at hpage
  exact ⟨hfrees, hpage⟩

section

variable {s : Vm} {f : Nat}

/-- No `pmm_free_frame` sets a bit. -/
theorem Vm.free_clear (h : test s.pmm.bitmap f = false) (p : U64) :
    test (s.free p).pmm.bitmap f = false := by
  by_cases hp : frameOf p < pmmMaxFrames
  · exact (test_pmmFreeFrame s.pmm p f hp).trans (by rw [h, Bool.and_false])
  · rw [Vm.free, pmmFreeFrame, if_pos (Nat.not_lt.mp hp)]
    exact h

theorem foldl_clear {step : Vm → Nat → Vm}
    (hstep : ∀ s i, test s.pmm.bitmap f = false → test (step s i).pmm.bitmap f = false)
    (is : List Nat) (h : test s.pmm.bitmap f = false) :
    test (is.foldl step s).pmm.bitmap f = false := by
  induction is generalizing s with
  | nil => exact h
  | cons i is ih => exact ih (hstep s i h)

theorem freeUserPdpt_clear (w : U64 → U64) (pdpt : U64) (h : test s.pmm.bitmap f = false) :
    test (Window.freeUserPdpt w s pdpt).pmm.bitmap f = false := by
  unfold Window.freeUserPdpt
  refine Vm.free_clear (foldl_clear (fun s i hs => ?_) _ h) pdpt
  dsimp only
  split
  · exact hs
  · refine Vm.free_clear (foldl_clear (fun s j hs => ?_) _ hs) _
    split
    · exact hs
    · exact Vm.free_clear hs _

/-- A teardown frees the table that the first entry it reads points to. -/
theorem destroy_frees_first (w : U64 → U64) (t : U64)
    (hp : has (s.mem (slot (w t) 0)) ptePresent = true)
    (hmax : frameOf (pteAddr (s.mem (slot (w t) 0))) < pmmMaxFrames) :
    test (Window.vmmDestroyUserPml4 w s t).pmm.bitmap
      (frameOf (pteAddr (s.mem (slot (w t) 0)))) = false := by
  unfold Window.vmmDestroyUserPml4
  refine Vm.free_clear ?_ t
  rw [show range 256 = 0 :: (range 255).map Nat.succ from range_succ_eq_map, foldl_cons]
  refine foldl_clear (fun s i hs => ?_) _ ?_
  · dsimp only
    split
    · exact hs
    · exact freeUserPdpt_clear w _ hs
  · dsimp only
    rw [hp, Bool.not_true, if_neg (by decide), Window.freeUserPdpt]
    refine (test_pmmFreeFrame _ _ _ hmax).trans ?_
    rw [decide_eq_true rfl, Bool.not_true, Bool.false_and]

end

/-- An address space in a frame above 2 GiB: its teardown reads the entries of
the one at 2 MiB, which is alive, and frees the frame that its first entry
points to. -/
theorem destroy_frees_live_table :
    let s := bootRun highVm [.create, .create, .map 0x200000#64 0x400000#64 0x9000#64 7#64]
    let s' := Window.vmmDestroyUserPml4 bootWindow s.vm 0x80200000#64
    s.live = [0x200000#64, 0x80200000#64] ∧
      s.vm.mem (slot 0x200000#64 0) = 0x80201007#64 ∧
      s.vm.mem (slot 0x80200000#64 0) = 0#64 ∧
      test s.vm.pmm.bitmap (frameOf 0x80201000#64) = true ∧
      test s'.pmm.bitmap (frameOf 0x80201000#64) = false := by
  intro s s'
  have hstate : s.live = [0x200000#64, 0x80200000#64] ∧
      s.vm.mem (slot 0x200000#64 0) = 0x80201007#64 ∧ s.vm.mem (slot 0x80200000#64 0) = 0#64 ∧
      test s.vm.pmm.bitmap (frameOf 0x80201000#64) = true := by
    decide +kernel
  refine ⟨hstate.1, hstate.2.1, hstate.2.2.1, hstate.2.2.2, ?_⟩
  have halias : bootWindow 0x80200000#64 = 0x200000#64 := by decide
  have hentry : s.vm.mem (slot (bootWindow 0x80200000#64) 0) = 0x80201007#64 := by
    rw [halias]
    exact hstate.2.1
  have hfreed := destroy_frees_first (s := s.vm) bootWindow 0x80200000#64 (by rw [hentry]; decide)
    (by rw [hentry]; decide)
  rw [hentry] at hfreed
  exact hfreed

end Vmm
