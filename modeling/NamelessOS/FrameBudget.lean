import NamelessOS.UserPages

/-!
# When mapping and forking succeed

A frame allocation fails only if no frame is free.  So a page is mapped if four
frames are free, one for the page and one for each table that may be missing,
and a fork succeeds if there is one for each table of the address space it
copies.  For the fork this is one statement per level (`Affords`), like the
contract of the clone functions, and the loop over a directory adds up.
-/

namespace Vmm

open Pmm WordMemory PageTree WordBitmap List

/-- At least `n` frames are free, and frame 0, whose address stands for none,
is not among them. -/
structure Room (n : Nat) (pmm : PmmState) : Prop where
  zero : test pmm.bitmap 0 = true
  free : n ≤ clearFrames pmm

variable {pmm : PmmState}

/-- The clear bits among the first `b` are enough. -/
theorem Room.of_first {n : Nat} (b : Nat) (hzero : test pmm.bitmap 0 = true) (hb : b ≤ pmmMaxFrames)
    (hfirst : (clearBits pmm.bitmap b).card = n) : Room n pmm := by
  refine ⟨hzero, ?_⟩
  rw [← hfirst]
  refine Finset.card_le_card (fun f hf => ?_)
  obtain ⟨hlt, hclear⟩ := mem_clearBits.mp hf
  exact mem_clearBits.mpr ⟨Nat.lt_of_lt_of_le hlt hb, hclear⟩

theorem Room.alloc {n : Nat} (h : Room (n + 1) pmm) :
    (pmmAllocFrame pmm).2 ≠ 0#64 ∧ Room n (pmmAllocFrame pmm).1 := by
  have hout := pmmAllocFrame_outcome pmm
  have hfree := h.free
  generalize pmmAllocFrame pmm = r at hout ⊢
  cases hout with
  | full hfull =>
    have hzero := clearFrames_eq_zero.mpr hfull
    omega
  | frame f hmax hclear =>
    have hf : f ≠ 0 := by
      rintro rfl
      rw [h.zero] at hclear
      cases hclear
    have hcard := card_clearBits_set hmax hclear
    refine ⟨address_ne_zero hmax hf, by simp [h.zero], ?_⟩
    unfold clearFrames at hfree ⊢
    dsimp only
    omega

variable {k n : Nat} {s s' s₀ : Vm} {t src dst : U64} {done : List Nat}

/-! ## Mapping -/

/-! ## Counting tables -/

/-- The number of tables. -/
def tables (k : Nat) (m : Memory) (t : U64) : Nat := (postorder format k m t).length

/-- What entry `i` contributes. -/
def tablesBelow (k : Nat) (m : Memory) (t : U64) (i : Nat) : Nat :=
  if format.present (m (slot t i)) then tables k m (child format m t i) else 0

theorem tables_succ (k : Nat) (m : Memory) (t : U64) : tables (k + 1) m t =
      ((range (format.fanout (k + 1))).map (tablesBelow k m t)).sum + 1 := by
  have hbelow : ∀ i, (if format.present (m (slot t i)) then
      postorder format k m (child format m t i) else []).length = tablesBelow k m t i := by
    intro i
    unfold tablesBelow
    split <;> rfl
  rw [tables, postorder, length_append, length_flatMap, length_singleton]
  simp only [hbelow]

variable {m m' : Memory}

theorem Agree.tables_eq (h : Agree format k m m' t) (ht : PageAligned t) :
    tables k m' t = tables k m t := by
  rw [tables, h.postorder_eq ht, tables]

theorem Blank.tables_eq (h : Blank format (k + 1) m t) : tables (k + 1) m t = 1 := by
  have hnone : ∀ i ∈ range (format.fanout (k + 1)), tablesBelow k m t i = 0 := by
    intro i hi
    rw [tablesBelow, h i (mem_range.mp hi)]
    exact if_neg (by decide)
  rw [tables_succ, map_congr_left hnone]
  simp

/-! ## What a fork costs -/

/-- **What a clone function costs.** -/
def Affords (k : Nat) (clone : Vm → U64 → Vm × U64) : Prop :=
  ∀ s src n, Tree k s src → Room (tables k s.mem src + n) s.pmm →
    (clone s src).2 ≠ 0#64 ∧ Room n (clone s src).1.pmm

theorem cowClonePt_affords : Affords 0 cowClonePt := by
  intro s src n _ hroom
  rw [show tables 0 s.mem src = 1 from rfl, Nat.add_comm] at hroom
  obtain ⟨hne, hrest⟩ := hroom.alloc
  unfold cowClonePt
  generalize pmmAllocFrame s.pmm = r at hne hrest ⊢
  rw [if_neg hne]
  exact ⟨hne, hrest⟩

variable {clone : Vm → U64 → Vm × U64}

section

variable (verbatim : U64 → Bool) (hclone : Clones k clone) (hafford : Affords k clone)
include hclone hafford

/-- The loop over a directory has enough frames if they cover the entries it
still has to clone. -/
theorem cloneEntries_affords (hstart : LoopStart k s₀ src dst)
    (hverb : ∀ i, HasChild format (k + 1) s₀.mem src i → verbatim (s₀.mem (slot src i)) = false)
    (is : List Nat) (hrange : ∀ i ∈ is, i < format.fanout (k + 1)) (hnodup : is.Nodup)
    (hnew : ∀ i ∈ is, i ∉ done) (h : Progress k s₀ s src dst done)
    (hun : ∀ i ∈ is, Untouched k s₀ s src i) {n : Nat}
    (hroom : Room ((is.map (tablesBelow k s₀.mem src)).sum + n) s.pmm) :
    (cloneEntries verbatim clone src dst is s).2 = true ∧
      Room n (cloneEntries verbatim clone src dst is s).1.pmm := by
  induction is generalizing s done with
  | nil =>
    rw [map_nil, sum_nil, Nat.zero_add] at hroom
    exact ⟨rfl, hroom⟩
  | cons i is ih =>
    obtain ⟨hnot, hnodup⟩ := nodup_cons.mp hnodup
    rw [map_cons, sum_cons, Nat.add_assoc] at hroom
    -- the clone below entry `i`, if there is one
    have hbelow : ∀ hchild : HasChild format (k + 1) s₀.mem src i,
        (clone s (child format s₀.mem src i)).2 ≠ 0#64 ∧
          Room ((is.map (tablesBelow k s₀.mem src)).sum + n)
            (clone s (child format s₀.mem src i)).1.pmm := by
      intro hchild
      have hagree := hun i mem_cons_self hchild
      rw [tablesBelow, if_pos hchild.2] at hroom
      refine hafford s _ _ ((hstart.tree.child hchild).congr h.kept hagree) ?_
      rwa [Agree.tables_eq hagree (format.addr_aligned _)]
    rcases cloneEntries_round verbatim hclone hstart hverb (hrange i mem_cons_self) hnot
      (hnew i mem_cons_self) h hun with ⟨hz, hchild, -⟩ | ⟨s', hgoes, hprog, hunt, hpmm⟩
    · exact absurd hz (hbelow hchild).1
    · rw [hgoes clone (fun _ => rfl)]
      refine ih (fun j hj => hrange j (mem_cons_of_mem i hj)) hnodup ?_ hprog hunt ?_
      · intro j hj hmem
        grind
      · rw [hpmm]
        split
        · rename_i hp
          exact (hbelow ⟨hrange i mem_cons_self, hp⟩).2
        · rename_i hp
          rwa [tablesBelow, if_neg hp, Nat.zero_add] at hroom

/-- A clone that has taken the frame of the new table runs its loop on what is
left. -/
theorem cloneEntries_affords_all (htree : Tree (k + 1) s src) (hprep : Prepared s s₀ dst)
    (hverb : ∀ i, HasChild format (k + 1) s₀.mem src i → verbatim (s₀.mem (slot src i)) = false)
    {n : Nat} (hroom : Room (tables (k + 1) s.mem src - 1 + n) s₀.pmm) :
    (cloneEntries verbatim clone src dst (range (format.fanout (k + 1))) s₀).2 = true ∧
      Room n (cloneEntries verbatim clone src dst (range (format.fanout (k + 1))) s₀).1.pmm := by
  refine cloneEntries_affords verbatim hclone hafford (hprep.loopStart htree) hverb _
    (fun i hi => mem_range.mp hi) nodup_range (fun _ _ hmem => by cases hmem)
    (Progress.start _ src dst) (fun _ _ _ => Agree.refl _ _ _ _) ?_
  rwa [← Agree.tables_eq (hprep.agree htree) htree.aligned, tables_succ, Nat.add_sub_cancel] at hroom

end

/-- The first frame goes to the new table itself. -/
theorem Room.split {n : Nat} (h : Room (tables (k + 1) m src + n) pmm) :
    (pmmAllocFrame pmm).2 ≠ 0#64 ∧ Room (tables (k + 1) m src - 1 + n) (pmmAllocFrame pmm).1 := by
  grind [tables_succ, alloc]

theorem cowCloneDir_affords (hk : k + 1 < 3) (hclone : Clones k clone)
    (hafford : Affords k clone) : Affords (k + 1) (cowCloneDir clone) := by
  intro s src n htree hroom
  obtain ⟨hne, hrest⟩ := hroom.split
  unfold cowCloneDir
  have halloc := pmmAllocFrame_result s.pmm
  generalize pmmAllocFrame s.pmm = r at halloc hne hrest
  cases halloc with
  | none pmm' hkeep => exact absurd rfl hne
  | frame pmm' d _ haligned hmask hfresh hused =>
    rw [if_neg hne]
    have hprep : Prepared s { s with pmm := pmm' } d := ⟨haligned, hfresh, hused, fun _ _ => rfl⟩
    have hfanout : format.fanout (k + 1) = ptEntries := if_neg (by omega)
    have hloop := cloneEntries_affords_all (has · pteHuge) hclone hafford htree hprep
      (fun i hi => (htree.small i hi).1 hk) hrest
    grind

/-- **A fork succeeds** if there is a free frame for each table of the
parent. -/
theorem vmmForkPml4_affords : Affords 3 vmmForkPml4 := by
  intro s src n htree hroom
  obtain ⟨hne, hrest⟩ := hroom.split
  have hpdpt : Affords 2 cowClonePdpt := cowCloneDir_affords (by decide) cowClonePdt_clones
    (cowCloneDir_affords (by decide) cowClonePt_clones cowClonePt_affords)
  unfold vmmForkPml4
  have halloc := pmmAllocFrame_result s.pmm
  generalize pmmAllocFrame s.pmm = r at halloc hne hrest
  cases halloc with
  | none pmm' hkeep => exact absurd rfl hne
  | frame pmm' d _ haligned hmask hfresh hused =>
    rw [if_neg hne]
    have hout : ∀ x, pageOf x ≠ d → shareKernelHalf s.mem src d x = s.mem x :=
      fun x hx => shareKernelHalf_outside s.mem haligned hx
    generalize shareKernelHalf s.mem src d = m₀ at hout
    have hprep : Prepared s { pmm := pmm', mem := m₀ } d := ⟨haligned, hfresh, hused, hout⟩
    have hloop := cloneEntries_affords_all (fun _ => false) cowClonePdpt_clones hpdpt htree hprep
      (fun _ _ => rfl) hrest
    rw [show format.fanout (2 + 1) = 256 from rfl] at hloop
    grind

end Vmm
