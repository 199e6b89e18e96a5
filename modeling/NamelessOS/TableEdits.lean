import NamelessOS.KernelMappings

/-!
# What the page-table functions write

`vmm_map_page`, `vmm_unmap_page`, `vmm_map_user_page` and `vmm_map_kernel_in_user_pml4` walk
down from a PML4 and write entries on their way.  As long as no entry on the way is a large
page, every word they write lies in a table of that PML4.  They do not test for large pages,
and below one they take the memory it maps for a table.

The states are those of the VMM's operations from boot: the user halves of the address spaces
form a forest, and the other tables have levels (`EditTables`).
-/

namespace Vmm

open Pmm WordMemory PageTree Runs WordBitmap
open Function (update update_of_ne update_self)

/-! ## The functions and the machine -/

/-- `vmm_get_phys`: the walk of the processor, with 0 for an address that is not mapped. -/
def vmmGetPhys (pml4Phys : U64) (s : Vm) (virt : U64) : U64 := (translate s.mem pml4Phys virt).getD 0#64

/-- The VMM's operations. -/
inductive EditOp
  | space (op : SpaceOp)
  | mapKernel (root virt phys flags : U64)

def Life.editStep (boot : U64) (s : Life) : EditOp → Life
  | .space op => s.spaceStep boot op
  | .mapKernel root virt phys flags => { s with vm :=
      (vmmMapKernelInUserPml4 s.vm root virt phys flags).1 }

/-- **Only page tables are written**: a word that changes lies in a table that is reached from
the PML4 without a large page. -/
def EditsTables (root : U64) (s s' : Vm) : Prop :=
  ∀ x, s'.mem x ≠ s.mem x → Frames kernelFormat 3 s'.mem root (pageOf x)

/-- The property of an operation; only the four edits are meant. -/
def TablesOnly (boot : U64) (s : Life) : EditOp → Prop
  | .space (.mapPage virt phys flags) => EditsTables boot s.vm (vmmMapPage boot s.vm virt phys flags).1
  | .space (.unmapPage virt) => EditsTables boot s.vm (vmmUnmapPage boot s.vm virt) ∧
      vmmGetPhys boot (vmmUnmapPage boot s.vm virt) virt = 0#64
  | .space (.user (.map root virt phys flags)) =>
    EditsTables root s.vm (vmmMapUserPage s.vm root virt phys flags).1
  | .space (.user _) => True
  | .mapKernel root virt phys flags =>
    EditsTables root s.vm (vmmMapKernelInUserPml4 s.vm root virt phys flags).1

/-- The condition: no large page on the way.  The operations on address spaces are on those
that are alive. -/
def SmallEdit (boot : U64) (s : Life) : EditOp → Prop
  | .space (.mapPage virt _ _) => SmallPath 3 s.vm.mem boot (vaIndex virt)
  | .space (.unmapPage virt) => SmallPath 3 s.vm.mem boot (vaIndex virt)
  | .space (.user (.map root virt _ _)) => root ∈ s.live ∧ SmallPath 3 s.vm.mem root (vaIndex virt)
  | .space (.user op) => OnLive s op
  | .mapKernel root virt _ _ => root ∈ s.live ∧ SmallPath 3 s.vm.mem root (vaIndex virt)

/-! ## One walk -/

variable {level level' : U64 → Option Nat} {s s' s₁ : Vm} {k : Nat} {t c flags : U64} {ix : Nat → Nat}
  {m : Memory} {i : Nat} {x : U64}

theorem edits_below {m₁ m' : Memory} (hi : i < 512) (hp : kernelFormat.present (m' (slot t i)) = true)
    (hc : pteAddr (m' (slot t i)) = c) (hfirst : ∀ x, m₁ x ≠ m x → pageOf x = t ∨ pageOf x = c)
    (hrest : ∀ x, m' x ≠ m₁ x → Frames kernelFormat k m' c (pageOf x)) (hx : m' x ≠ m x) :
    Frames kernelFormat (k + 1) m' t (pageOf x) := by
  have hbelow : ∀ a, Frames kernelFormat k m' c a → Frames kernelFormat (k + 1) m' t a := by
    intro a ha
    rw [← hc] at ha
    exact Frames.child ⟨hi, hp⟩ ha
  grind [frames_root]

theorem made_edits {d v : U64} (ht : PageAligned t) (hi : i < 512) (hd : PageAligned d)
    (hx : update (fillZero m d 4096) (slot t i) v x ≠ m x) : pageOf x = t ∨ pageOf x = d := by
  grind [pageOf_slot, fillZero_page]

/-- A kind of table in which a mapping may be made: it has a frame of its own, and
`get_or_alloc_table` leads from it to another such table, whose entry stays while
the mapping is made there. -/
structure Descent (flags e : U64) (ix : Nat → Nat) (I : Nat → Vm → U64 → Prop) : Prop where
  frame : ∀ k s t, I k s t → PageAligned t ∧ Used s.pmm t
  down : ∀ k s t s₁ c, I (k + 1) s t → SmallPath (k + 1) s.mem t ix →
    SmallPath k s₁.mem c ix → getOrAllocTable s (slot t (ix (k + 1))) flags = (s₁, some c) →
    I k s₁ c ∧ (mapPathWith flags e k s₁ c ix).1.mem (slot t (ix (k + 1))) =
      s₁.mem (slot t (ix (k + 1)))

/-- **A mapping writes tables only.** -/
theorem Descent.edits {I : Nat → Vm → U64 → Prop} {e : U64} (h : Descent flags e ix I)
    (hflags : DirFlags flags) (ht : I k s t) (hix : ∀ j ≤ k, ix j < 512)
    (hsmall : SmallPath k s.mem t ix) (hx : (mapPathWith flags e k s t ix).1.mem x ≠ s.mem x) :
    Frames kernelFormat k (mapPathWith flags e k s t ix).1.mem t (pageOf x) := by
  induction k generalizing s t x with
  | zero =>
    have hslot : x = slot t (ix 0) := by
      by_contra hne
      exact hx (update_of_ne hne _ _)
    rw [hslot]
    exact pageOf_slot (h.frame 0 s t ht).1 (hix 0 le_rfl)
  | succ k ih =>
    have hi := hix (k + 1) le_rfl
    have hix' : ∀ j ≤ k, ix j < 512 := fun j hj => hix j (by omega)
    obtain ⟨htaligned, htused⟩ := h.frame _ s t ht
    have hstep := getOrAllocTable_step hflags s (slot t (ix (k + 1)))
    have hdown := h.down k s t
    rw [mapPathWith] at hx ⊢
    generalize getOrAllocTable s (slot t (ix (k + 1))) flags = r at hstep hx hdown ⊢
    cases hstep with
    | there hp =>
      obtain ⟨hhuge, hbelow⟩ := hsmall hp
      obtain ⟨hc, hentry⟩ := hdown s _ ht hsmall hbelow rfl
      refine edits_below hi ?_ (congrArg pteAddr hentry) (fun y hy => absurd rfl hy)
        (fun y hy => ih hc hix' hbelow hy) hx
      exact (congrArg kernelFormat.present hentry).trans (kernelFormat_present.mpr ⟨hp, hhuge⟩)
    | noFrame pmm' hp hnone hkeep => exact absurd rfl hx
    | made pmm' d hp hsome haligned hmask hfresh hused =>
      have htd : t ≠ d := fun heq => hfresh (heq ▸ htused)
      have hblank := smallPath_made (m := s.mem) (v := d ||| flags ||| ptePresent) htaligned hi
        haligned htd hix'
      obtain ⟨hd, hentry⟩ := hdown _ d ht hsmall hblank rfl
      dsimp only at hentry
      rw [update_self] at hentry
      obtain ⟨haddr, hpresent, hhuge⟩ := dirEntry hflags hmask
      exact edits_below hi (by rw [hentry]; exact kernelFormat_present.mpr ⟨hpresent, hhuge⟩)
        (by rw [hentry, haddr]) (fun y hy => made_edits htaligned hi haligned hy)
        (fun y hy => ih hd hix' hblank hy) hx

/-- Below a table of the kernel, by levels. -/
theorem descent_levels (hflags : DirFlags flags) (e : U64) (n : Nat) (hix : ∀ j ≤ n, ix j < 512) :
    Descent flags e ix (fun k s t => k ≤ n ∧ ∃ level, Levels level s ∧ level t = some k) where
  frame k s t := by
    rintro ⟨-, level, h, ht⟩
    exact h.frame t k ht
  down k s t s₁ c := by
    rintro ⟨hk, level, h, ht⟩ hsmall hbelow hres
    have hstep := getOrAllocTable_step hflags s (slot t (ix (k + 1)))
    rw [hres] at hstep
    have hi := hix (k + 1) hk
    have hix' : ∀ j ≤ k, ix j < 512 := fun j hj => hix j (by omega)
    cases hstep with
    | there hp =>
      have hc := h.entry t k _ ht hi (kernelFormat_present.mpr ⟨hp, (hsmall hp).1⟩)
      obtain ⟨level', hmaps⟩ := mapPathWith_levels hflags e h hc hix' hbelow
      exact ⟨⟨by omega, level, h, hc⟩,
        (hmaps.through h ht hi hc (hix' k le_rfl)).present (Nat.succ_pos k) hp⟩
    | made pmm' d hp hsome haligned hmask hfresh hused =>
      obtain ⟨htaligned, htused⟩ := h.frame t _ ht
      have htd : t ≠ c := fun heq => hfresh (heq ▸ htused)
      have hhang := h.hang hflags ht hi haligned hmask hfresh hused
      have hd : update level c (some k) c = some k := update_self _ _ _
      obtain ⟨level', hmaps⟩ := mapPathWith_levels hflags e hhang hd hix' hbelow
      -- the new entry lies in a table of a higher level
      exact ⟨⟨by omega, _, hhang, hd⟩, hmaps.above (slot t (ix (k + 1))) (k + 1)
        (by rw [pageOf_slot htaligned hi, update_of_ne htd, ht]) (Nat.le_succ k)
        (fun heq => htd ((slot_inj htaligned haligned hi (hix' k le_rfl)).mp heq).1)⟩

/-- In a tree of the user half. -/
theorem descent_tree (hflags : DirFlags flags) (e : U64) (n : Nat) (hix : InRange format n ix) :
    Descent flags e ix (fun k s t => k ≤ n ∧ Tree k s t) where
  frame k s t h := ⟨h.2.aligned, h.2.used t (frames_root _ _ _)⟩
  down k s t s₁ c := by
    rintro ⟨hk, htree⟩ - - hres
    have hin := hix (k + 1) hk
    have hix' : InRange format k ix := fun j hj => hix j (by omega)
    have hgot := getOrAllocTable_got hflags htree hin
    rw [hres] at hgot
    obtain ⟨hchild, hc⟩ := hgot.table c rfl
    dsimp only at hchild hc
    subst hc
    have htree₁ := hgot.grown.tree
    have hsub := htree₁.child hchild
    exact ⟨⟨by omega, hsub⟩,
      ((mapPathWith_spec hflags e hsub hix').1.below htree₁ hchild).2.1⟩

/-- `vmm_unmap_page` writes the last entry only. -/
theorem clearPath_edits (h : Levels level s) (ht : level t = some k) (hix : ∀ j ≤ k, ix j < 512)
    (hsmall : SmallPath k s.mem t ix) (hx : (clearPath k s t ix).mem x ≠ s.mem x) :
    Frames kernelFormat k (clearPath k s t ix).mem t (pageOf x) := by
  induction k generalizing t x with
  | zero =>
    have hslot : x = slot t (ix 0) := by
      by_contra hne
      exact hx (update_of_ne hne _ _)
    rw [hslot]
    exact pageOf_slot (h.frame t 0 ht).1 (hix 0 le_rfl)
  | succ k ih =>
    have hi := hix (k + 1) le_rfl
    have hix' : ∀ j ≤ k, ix j < 512 := fun j hj => hix j (by omega)
    have hmaps := clearPath_levels h ht hix hsmall
    rw [clearPath] at hx hmaps ⊢
    by_cases hp : has (s.mem (slot t (ix (k + 1)))) ptePresent = true
    · rw [hp, Bool.not_true, if_neg Bool.false_ne_true] at hx hmaps ⊢
      obtain ⟨hhuge, hbelow⟩ := hsmall hp
      have hpresent := kernelFormat_present.mpr ⟨hp, hhuge⟩
      have hentry := hmaps.present (Nat.succ_pos k) hp
      exact edits_below hi (by rw [hentry]; exact hpresent) (congrArg pteAddr hentry)
        (fun y hy => absurd rfl hy) (fun y hy => ih (h.entry t k _ ht hi hpresent) hix' hbelow hy) hx
    · rw [Bool.not_eq_true] at hp
      rw [hp, Bool.not_false, if_pos rfl] at hx
      exact absurd rfl hx

/-- The walk meets an absent entry, and no large page before it. -/
def Unmapped : Nat → Memory → U64 → (Nat → Nat) → Prop
  | 0, m, t, ix => has (m (slot t (ix 0))) ptePresent = false
  | k + 1, m, t, ix => has (m (slot t (ix (k + 1)))) ptePresent = true →
      has (m (slot t (ix (k + 1)))) pteHuge = false ∧ Unmapped k m (pteAddr (m (slot t (ix (k + 1))))) ix

theorem Unmapped.translate {root virt : U64} (h : Unmapped 3 m root (vaIndex virt)) :
    translate m root virt = none := by
  unfold Vmm.translate
  dsimp only
  split
  · rfl
  · rename_i h4
    rw [Bool.not_eq_true', Bool.not_eq_false] at h4
    obtain ⟨-, h⟩ := h h4
    split
    · rfl
    · rename_i h3
      rw [Bool.not_eq_true', Bool.not_eq_false] at h3
      obtain ⟨hhuge, h⟩ := h h3
      refine (if_neg (Bool.eq_false_iff.mp hhuge)).trans ?_
      split
      · rfl
      · rename_i h2
        rw [Bool.not_eq_true', Bool.not_eq_false] at h2
        obtain ⟨hhuge, h⟩ := h h2
        exact (if_neg (Bool.eq_false_iff.mp hhuge)).trans (if_pos (congrArg Bool.not h))

theorem clearPath_unmapped (h : Levels level s) (ht : level t = some k) (hix : ∀ j ≤ k, ix j < 512)
    (hsmall : SmallPath k s.mem t ix) : Unmapped k (clearPath k s t ix).mem t ix := by
  induction k generalizing t with
  | zero =>
    show has (update s.mem (slot t (ix 0)) 0#64 (slot t (ix 0))) ptePresent = false
    rw [update_self]
    decide
  | succ k ih =>
    have hi := hix (k + 1) le_rfl
    have hmaps := clearPath_levels h ht hix hsmall
    intro hafter
    by_cases hp : has (s.mem (slot t (ix (k + 1)))) ptePresent = true
    · obtain ⟨hhuge, hbelow⟩ := hsmall hp
      rw [hmaps.present (Nat.succ_pos k) hp]
      refine ⟨hhuge, ?_⟩
      rw [clearPath, hp, Bool.not_true, if_neg Bool.false_ne_true]
      exact ih (h.entry t k _ ht hi (kernelFormat_present.mpr ⟨hp, hhuge⟩))
        (fun j hj => hix j (by omega)) hbelow
    · rw [Bool.not_eq_true] at hp
      rw [clearPath, hp, Bool.not_false, if_pos rfl, hp] at hafter
      cases hafter

/-! ## The tables of a state -/

/-- **The invariant**: the user halves form a forest; the tables of the boot PML4 and those
below the kernel halves have levels, and are none of the forest's. -/
structure EditTables (boot : U64) (s : Life) : Prop where
  forest : Forest s.vm s.live
  levels : ∃ level, Levels level s.vm ∧ level boot = some 3 ∧
    (∀ a j, level a = some j → ¬ Table s.vm.mem s.live a) ∧
    ∀ r ∈ s.live, ∀ i, 256 ≤ i → i < 512 → kernelFormat.present (s.vm.mem (slot r i)) = true →
      level (pteAddr (s.vm.mem (slot r i))) = some 2

variable {boot r virt : U64} {l : Life}

theorem EditTables.below (h : EditTables boot l) {vm : Vm}
    (hmaps : ∀ level, Levels level l.vm → level boot = some 3 →
      (∀ r ∈ l.live, ∀ i, 256 ≤ i → i < 512 → kernelFormat.present (l.vm.mem (slot r i)) = true →
        level (pteAddr (l.vm.mem (slot r i))) = some 2) →
      ∃ level', MapsBelow level level' l.vm vm k t ix) : EditTables boot { l with vm := vm } := by
  obtain ⟨level, hlevels, hboot, hapart, hhalf⟩ := h.levels
  obtain ⟨level', hmaps⟩ := hmaps level hlevels hboot hhalf
  obtain ⟨hforest, hapart', hroots⟩ := hmaps.forest h.forest hapart
  refine ⟨hforest, level', hmaps.levels, hmaps.old boot 3 hboot, hapart', ?_⟩
  intro r hr i hlow hi hp
  rw [hroots r hr i hi] at hp ⊢
  exact hmaps.old _ 2 (hhalf r hr i hlow hi hp)

/-! ## One operation -/

variable {pmm' : PmmState}

/-- The entries of the kernel half are not part of the tree below the user half. -/
theorem Tree.kernelSlot (h : Tree 3 s r) (hlow : 256 ≤ i) (hi : i < 512)
    (hkept : ∀ a, Frames format 3 s.mem r a → Used pmm' a)
    (hmem : ∀ x, Frames format 3 s.mem r (pageOf x) → x ≠ slot r i → m x = s.mem x) :
    Tree 3 ⟨pmm', m⟩ r ∧ ∀ a, Frames format 3 m r a ↔ Frames format 3 s.mem r a := by
  have hfan : format.fanout 3 = 256 := rfl
  have hentry : ∀ j < 256, m (slot r j) = s.mem (slot r j) := by
    grind [pageOf_slot, aligned, frames_root, slot_inj]
  have hhas : ∀ j, HasChild format 3 m r j ↔ HasChild format 3 s.mem r j := by
    intro j
    refine and_congr_right fun hj => ?_
    rw [hentry j (by omega)]
  have hchild : ∀ j, HasChild format 3 s.mem r j →
      PageTree.child format m r j = PageTree.child format s.mem r j := by
    intro j hj
    rw [PageTree.child, hentry j (by have := hj.1; omega), PageTree.child]
  have hagree : ∀ j, HasChild format 3 s.mem r j →
      Agree format 2 s.mem m (PageTree.child format s.mem r j) := by
    intro j hj x hx
    refine hmem x (hx.child hj) ?_
    rintro rfl
    rw [pageOf_slot h.aligned hi] at hx
    exact (h.separate.1 j hj).2 hx
  have hsub : ∀ j, HasChild format 3 s.mem r j → ∀ a,
      Frames format 2 m (PageTree.child format m r j) a ↔
      Frames format 2 s.mem (PageTree.child format s.mem r j) a := by
    intro j hj a
    rw [hchild j hj]
    exact (hagree j hj).frames_iff (format.addr_aligned _)
  have hframes : ∀ a, Frames format 3 m r a ↔ Frames format 3 s.mem r a := by
    intro a
    refine or_congr Iff.rfl (exists_congr fun j => ?_)
    rw [hhas j]
    exact and_congr_right fun hj => hsub j hj a
  refine ⟨⟨h.aligned, ⟨fun j hj => ?_, fun j j' hj hj' hne a ha ha' => ?_⟩, fun j hj => ?_,
    fun a ha => ?_⟩, hframes⟩
  · have hj' := (hhas j).mp hj
    refine ⟨?_, fun hr => (h.separate.1 j hj').2 ((hsub j hj' r).mp hr)⟩
    rw [hchild j hj']
    exact (hagree j hj').separate (format.addr_aligned _) (h.separate.1 j hj').1
  · exact h.separate.2 j j' ((hhas j).mp hj)
      ((hhas j').mp hj') hne a ((hsub j ((hhas j).mp hj) a).mp ha)
      ((hsub j' ((hhas j').mp hj') a).mp ha')
  · have hj' := (hhas j).mp hj
    obtain ⟨hsmall, hdirs⟩ := h.small j hj'
    dsimp only
    rw [hentry j (by have := hj'.1; omega), hchild j hj']
    exact ⟨hsmall, (hagree j hj').directories (format.addr_aligned _) hdirs⟩
  · exact hkept a ((hframes a).mp ha)

theorem Forest.kernelSlot {procs : List U64} (h : Forest s procs) (hr : r ∈ procs) (hlow : 256 ≤ i)
    (hi : i < 512) (hkept : ∀ p, PageAligned p → Used s.pmm p → Used pmm' p)
    (hmem : ∀ x, Table s.mem procs (pageOf x) → x ≠ slot r i → m x = s.mem x) :
    Forest ⟨pmm', m⟩ procs ∧ ∀ a, Table m procs a ↔ Table s.mem procs a := by
  have hframes : ∀ r' ∈ procs, Tree 3 ⟨pmm', m⟩ r' ∧
      ∀ a, Frames format 3 m r' a ↔ Frames format 3 s.mem r' a := by
    intro r' hr'
    have htree := h.tree r' hr'
    by_cases hne : r' = r
    · subst hne
      exact htree.kernelSlot hlow hi (fun a ha => hkept a (ha.aligned htree.aligned) (htree.used a ha))
        fun x hx hslot => hmem x ⟨r', hr', hx⟩ hslot
    · have hagree : Agree format 3 s.mem m r' := by
        intro x hx
        refine hmem x ⟨r', hr', hx⟩ ?_
        rintro rfl
        rw [pageOf_slot (h.tree r hr).aligned hi] at hx
        exact hne (h.root_unique hr' hr hx (frames_root _ _ _))
      exact ⟨htree.congr hkept hagree, fun a => hagree.frames_iff htree.aligned⟩
  refine ⟨⟨fun r' hr' => (hframes r' hr').1, ?_⟩, fun a =>
    exists_congr fun r' => and_congr_right fun hr' => (hframes r' hr').2 a⟩
  grind [List.Pairwise.imp_of_mem, apart]

section

variable (h : EditTables boot l)
include h

theorem EditTables.hang (hflags : DirFlags flags) (hr : r ∈ l.live) (hlow : 256 ≤ i)
    (hi : i < 512) {d : U64} (haligned : PageAligned d) (hmask : d &&& pteAddrMask = d)
    (hfresh : ¬ Used l.vm.pmm d) (hused : ∀ p, PageAligned p →
      (Used pmm' p ↔ Used l.vm.pmm p ∨ p = d)) :
    EditTables boot { l with vm :=
      ⟨pmm', update (fillZero l.vm.mem d 4096) (slot r i) (d ||| flags ||| ptePresent)⟩ } := by
  obtain ⟨level, hlevels, hboot, hapart, hhalf⟩ := h.levels
  have hroot := (h.forest.tree r hr).aligned
  have hrt : Table l.vm.mem l.live r := ⟨r, hr, frames_root _ _ _⟩
  have htd : ∀ {a}, Table l.vm.mem l.live a → a ≠ d :=
      fun ha heq => hfresh (heq ▸ h.forest.table_used ha)
  have hld : ∀ {a j}, level a = some j → a ≠ d := fun ha heq => hfresh (heq ▸ (hlevels.frame _ _ ha).2)
  have hkept : ∀ p, PageAligned p → Used l.vm.pmm p → Used pmm' p :=
      fun p hp hu => (hused p hp).mpr (.inl hu)
  have hsame : ∀ x, pageOf x ≠ d → x ≠ slot r i → update (fillZero l.vm.mem d 4096) (slot r i)
      (d ||| flags ||| ptePresent) x = l.vm.mem x := by
    intro x hx hslot
    rw [update_of_ne hslot, fillZero_page l.vm.mem haligned, if_neg hx]
  have hentry : update (fillZero l.vm.mem d 4096) (slot r i) (d ||| flags ||| ptePresent) (slot r i) =
      d ||| flags ||| ptePresent := update_self _ _ _
  have hzero : ∀ j < 512, update (fillZero l.vm.mem d 4096) (slot r i) (d ||| flags ||| ptePresent)
      (slot d j) = 0#64 := by
    intro j hj
    rw [update_of_ne, fillZero_page l.vm.mem haligned, if_pos (pageOf_slot haligned hj)]
    exact fun heq => htd hrt ((slot_inj haligned hroot hj hi).mp heq).1.symm
  generalize update (fillZero l.vm.mem d 4096) (slot r i) (d ||| flags ||| ptePresent) = m
    at hsame hentry hzero
  obtain ⟨hforest, htables⟩ := h.forest.kernelSlot hr hlow hi hkept
    fun x hx hslot => hsame x (htd hx) hslot
  refine ⟨hforest, update level d (some 2), ⟨?_, ?_⟩, ?_, ?_, ?_⟩
  · intro a j ha
    by_cases had : a = d
    · rw [had]
      exact ⟨haligned, (hused d haligned).mpr (.inr rfl)⟩
    · rw [update_of_ne had] at ha
      obtain ⟨ha', hu⟩ := hlevels.frame a j ha
      exact ⟨ha', hkept a ha' hu⟩
  · intro a j i' ha hi' hp
    dsimp only at hp ⊢
    by_cases had : a = d
    · rw [had, hzero i' hi'] at hp
      exact absurd hp (by decide)
    · rw [update_of_ne had] at ha
      obtain ⟨ha', -⟩ := hlevels.frame a _ ha
      have hkeep : m (slot a i') = l.vm.mem (slot a i') := by
        refine hsame _ (by rwa [pageOf_slot ha' hi']) ?_
        intro heq
        rw [((slot_inj ha' hroot hi' hi).mp heq).1] at ha
        exact hapart r _ ha hrt
      rw [hkeep] at hp ⊢
      have hc := hlevels.entry a j i' ha hi' hp
      rwa [update_of_ne (hld hc)]
  · rwa [update_of_ne (hld hboot)]
  · intro a j ha ht
    rw [htables] at ht
    rw [update_of_ne (htd ht)] at ha
    exact hapart a j ha ht
  · intro r' hr' i' hlow' hi' hp
    dsimp only at hp ⊢
    by_cases hslot : slot r' i' = slot r i
    · rw [hslot, hentry, (dirEntry hflags hmask).1, update_self]
    · have hkeep : m (slot r' i') = l.vm.mem (slot r' i') := by
        refine hsame _ ?_ hslot
        rw [pageOf_slot (h.forest.tree r' hr').aligned hi']
        exact htd ⟨r', hr', frames_root _ _ _⟩
      rw [hkeep] at hp ⊢
      have hc := hhalf r' hr' i' hlow' hi' hp
      rwa [update_of_ne (hld hc)]

theorem EditTables.mapBelow (hflags : DirFlags flags) (e : U64) (hr : r ∈ l.live)
    (hlow : 256 ≤ i) (hi : i < 512) (hix : ∀ j ≤ 2, ix j < 512)
    (hp : kernelFormat.present (l.vm.mem (slot r i)) = true)
    (hsmall : SmallPath 2 l.vm.mem (pteAddr (l.vm.mem (slot r i))) ix) :
    let s' := (mapPathWith flags e 2 l.vm (pteAddr (l.vm.mem (slot r i))) ix).1
    EditTables boot { l with vm := s' } ∧ s'.mem (slot r i) = l.vm.mem (slot r i) ∧
      ∀ x, s'.mem x ≠ l.vm.mem x → Frames kernelFormat 2 s'.mem (pteAddr (l.vm.mem (slot r i)))
        (pageOf x) := by
  obtain ⟨level, hlevels, hboot, hapart, hhalf⟩ := h.levels
  have hc := hhalf r hr i hlow hi hp
  obtain ⟨level', hmaps⟩ := mapPathWith_levels hflags e hlevels hc hix hsmall
  have htable : Table l.vm.mem l.live r := ⟨r, hr, frames_root _ _ _⟩
  have hpage := pageOf_slot (h.forest.tree r hr).aligned hi
  refine ⟨?_, ?_, fun x hx =>
    (descent_levels hflags e 2 hix).edits hflags ⟨le_rfl, level, hlevels, hc⟩ hix hsmall hx⟩
  · exact h.below fun level hlevels hboot hhalf =>
      mapPathWith_levels hflags e hlevels (hhalf r hr i hlow hi hp) hix hsmall
  · refine hmaps.outside _ ?_ ?_ <;> rw [hpage]
    · exact h.forest.table_used htable
    · cases hl : level r with
      | none => rfl
      | some j => exact absurd htable (hapart r j hl)

/-- **A mapping in the kernel half** of an address space. -/
theorem EditTables.mapKernelHalf (hflags : DirFlags flags) (e : U64) (hr : r ∈ l.live)
    (hlow : 256 ≤ ix 3) (hix : ∀ j ≤ 3, ix j < 512) (hsmall : SmallPath 3 l.vm.mem r ix) :
    EditTables boot { l with vm := (mapPathWith flags e 3 l.vm r ix).1 } ∧
      EditsTables r l.vm (mapPathWith flags e 3 l.vm r ix).1 := by
  have hi := hix 3 le_rfl
  have hix' : ∀ j ≤ 2, ix j < 512 := fun j hj => hix j (by omega)
  have hroot := (h.forest.tree r hr).aligned
  have hstep := getOrAllocTable_step hflags l.vm (slot r (ix 3))
  rw [mapPathWith]
  generalize getOrAllocTable l.vm (slot r (ix 3)) flags = res at hstep
  cases hstep with
  | there hp =>
    obtain ⟨hhuge, hbelow⟩ := hsmall hp
    have hpresent := kernelFormat_present.mpr ⟨hp, hhuge⟩
    obtain ⟨htables, hentry, hedits⟩ := h.mapBelow hflags e hr hlow hi hix' hpresent hbelow
    refine ⟨htables, fun x hx => ?_⟩
    exact edits_below hi (by rw [hentry]; exact hpresent) (congrArg pteAddr hentry)
      (fun y hy => absurd rfl hy)
      hedits hx
  | noFrame pmm' hp hnone hkeep =>
    exact ⟨h.below fun level hlevels _ _ => ⟨level, hlevels.unchanged 3 r ix hkeep⟩,
      fun x hx => absurd rfl hx⟩
  | made pmm' d hp hsome haligned hmask hfresh hused =>
    have hrd : r ≠ d := fun heq => hfresh (heq ▸ h.forest.table_used ⟨r, hr, frames_root _ _ _⟩)
    have hhung := h.hang hflags hr hlow hi haligned hmask hfresh hused
    obtain ⟨haddr, hpresent, hhuge⟩ := dirEntry hflags hmask
    have hblank := smallPath_made (m := l.vm.mem)
        (v := d ||| flags ||| ptePresent) hroot hi haligned hrd hix'
    have hbelow := hhung.mapBelow hflags e hr hlow hi hix'
    dsimp only at hbelow ⊢
    rw [update_self, haddr] at hbelow
    obtain ⟨htables, hentry, hedits⟩ := hbelow (kernelFormat_present.mpr ⟨hpresent, hhuge⟩) hblank
    refine ⟨htables, fun x hx => ?_⟩
    exact edits_below hi (by rw [hentry]; exact kernelFormat_present.mpr ⟨hpresent, hhuge⟩)
      (by rw [hentry, haddr]) (fun y hy => made_edits hroot hi haligned hy) hedits hx

theorem EditTables.of_change {l' : Life} (hchange : Change l l')
    (hhalves : ∀ r ∈ l'.live, ∃ src, (src = boot ∨ src ∈ l.live) ∧
      KernelHalf l.vm.mem src l'.vm.mem r) :
    EditTables boot l' := by
  obtain ⟨level, hlevels, hboot, hapart, hhalf⟩ := h.levels
  have hmem : ∀ a j i, level a = some j → i < 512 → l'.vm.mem (slot a i) = l.vm.mem (slot a i) := by
    grind [Levels.frame, pageOf_slot, Change.mem]
  have huntouched : ∀ a j, level a = some j → Used l'.vm.pmm a ∧ ¬ Table l'.vm.mem l'.live a := by
    grind [Levels.frame, Change.untouched]
  refine ⟨hchange.forest, level, ⟨fun a j ha => ⟨(hlevels.frame a j ha).1, (huntouched a j ha).1⟩,
    ?_⟩, hboot,
    fun a j ha => (huntouched a j ha).2, ?_⟩
  · intro a j i ha hi
    rw [hmem a _ i ha hi]
    exact hlevels.entry a j i ha hi
  · intro r hr i hlow hi hp
    obtain ⟨src, hsrc, hkernel⟩ := hhalves r hr
    rw [hkernel i hlow hi] at hp ⊢
    grind [Levels.entry]

theorem EditTables.user (op : LifeOp) (hop : OnLive l op) : EditTables boot (l.step boot op) := by
  obtain ⟨level, hlevels, hboot, -⟩ := h.levels
  obtain ⟨haligned, hused⟩ := hlevels.frame boot 3 hboot
  exact h.of_change (step_change boot h.forest hop) fun r hr =>
    step_kernelHalf h.forest haligned hused hop hr

/-- **A mapping in the user half.** -/
theorem EditTables.mapUserHalf (hflags : DirFlags flags) (e : U64) (hr : r ∈ l.live)
    (hix : InRange format 3 ix) (hsmall : SmallPath 3 l.vm.mem r ix) :
    EditTables boot { l with vm := (mapPathWith flags e 3 l.vm r ix).1 } ∧
      EditsTables r l.vm (mapPathWith flags e 3 l.vm r ix).1 := by
  have htree := h.forest.tree r hr
  have hext := (mapPathWith_spec hflags e htree hix).1
  refine ⟨h.of_change (map_change h.forest hr hext) fun r' hr' => ⟨r', .inr hr', ?_⟩,
    fun x hx => (descent_tree hflags e 3 hix).edits hflags ⟨le_rfl, htree⟩
      (fun j hj => Nat.lt_of_lt_of_le (hix j hj) (format.fanout_le j)) hsmall hx⟩
  by_cases hne : r' = r
  · subst hne
    exact hext.beyond
  · refine KernelHalf.of_agree (h.forest.tree r' hr').aligned fun x hx => ?_
    refine hext.mem x ?_ ?_ <;> rw [hx]
    · exact (h.forest.tree r' hr').used r' (frames_root _ _ _)
    · exact fun hf => hne (h.forest.root_unique hr' hr (frames_root _ _ _) hf)

theorem EditTables.mapIn (hflags : DirFlags flags) (e : U64) (hr : r ∈ l.live)
    (hsmall : SmallPath 3 l.vm.mem r (vaIndex virt)) :
    EditTables boot { l with vm := (mapPathWith flags e 3 l.vm r (vaIndex virt)).1 } ∧
      EditsTables r l.vm (mapPathWith flags e 3 l.vm r (vaIndex virt)).1 := by
  rcases Nat.lt_or_ge (vaPml4Idx virt) 256 with hlt | hge
  · exact h.mapUserHalf hflags e hr (inRange_of_userHalf hlt) hsmall
  · exact h.mapKernelHalf hflags e hr hge (fun j _ => vaIndex_lt virt j) hsmall

end

theorem vmmMapPage_path (pml4 : U64) (s : Vm) (virt phys flags : U64) :
    vmmMapPage pml4 s virt phys flags = mapPathWith tableFlags (leafEntry phys flags) 3 s pml4
      (vaIndex virt) := by
  rw [vmmMapPage, vmmMapUserPage_eq, mapPathWith_tableFlags]

theorem vmmMapKernelInUserPml4_path (s : Vm) (root virt phys flags : U64) :
    vmmMapKernelInUserPml4 s root virt phys flags =
      mapPathWith pteWrite (leafEntry phys flags) 3 s root (vaIndex virt) := rfl

/-! ## Whole runs -/

/-- **One operation** keeps the invariant and writes tables only. -/
theorem EditTables.step (h : EditTables boot l) {op : EditOp} (hop : SmallEdit boot l op) :
    EditTables boot (l.editStep boot op) ∧ TablesOnly boot l op := by
  have hix : ∀ virt j, j ≤ 3 → vaIndex virt j < 512 := fun virt j _ => vaIndex_lt virt j
  obtain ⟨level, hlevels, hboot, -⟩ := h.levels
  cases op with
  | mapKernel root virt phys flags =>
    rw [TablesOnly, Life.editStep, vmmMapKernelInUserPml4_path]
    exact h.mapIn dirFlags_pteWrite _ hop.1 hop.2
  | space op =>
    cases op with
    | mapPage virt phys flags =>
      rw [TablesOnly, Life.editStep, Life.spaceStep, vmmMapPage_path]
      exact ⟨h.below fun level hlevels hboot _ =>
          mapPathWith_levels dirFlags_tableFlags _ hlevels hboot (hix virt) hop,
        fun x hx => (descent_levels dirFlags_tableFlags _ 3 (hix virt)).edits dirFlags_tableFlags
          ⟨le_rfl, level, hlevels, hboot⟩ (hix virt) hop hx⟩
    | unmapPage virt =>
      rw [TablesOnly, Life.editStep, Life.spaceStep, vmmUnmapPage_eq]
      refine ⟨h.below fun level hlevels hboot _ =>
        ⟨level, clearPath_levels hlevels hboot (hix virt) hop⟩,
        fun x hx => clearPath_edits hlevels hboot (hix virt) hop hx, ?_⟩
      rw [vmmGetPhys, (clearPath_unmapped hlevels hboot (hix virt) hop).translate, Option.getD_none]
    | user op =>
      cases op with
      | map root virt phys flags =>
        rw [TablesOnly, Life.editStep, Life.spaceStep, Life.step, vmmMapUserPage_eq,
          ← mapPathWith_tableFlags]
        exact h.mapIn dirFlags_tableFlags _ hop.1 hop.2
      | create => exact ⟨h.user .create hop, trivial⟩
      | fork root => exact ⟨h.user (.fork root) hop, trivial⟩
      | destroy root => exact ⟨h.user (.destroy root) hop, trivial⟩
      | alloc => exact ⟨h.user .alloc hop, trivial⟩

theorem editTables_start {img : BootImage} {mem : U64 → U8} {fuel : Nat} {s₀ pmm : PmmState}
    (hinit : pmmInit img.toKernelImage mem fuel s₀ = some (pmm, 0)) (m : Memory) :
    EditTables img.pml4 (Life.start (bootedVm img pmm m)) := by
  have hstart := kernelTables_start hinit m
  obtain ⟨level, hlevels, hboot, hapart⟩ := hstart.levels
  refine ⟨hstart.forest, level, hlevels, hboot, hapart, ?_⟩
  intro r hr
  cases hr

/-- **Page-table edits write only to page tables, and an unmapped page is not mapped**, in
every run from boot in which no edit meets a large page on its way.  The free frames lie below
2 GiB, so that the kernel's stores reach the tables they are for. -/
theorem edits_write_only_tables {img : BootImage} {mem : U64 → U8} {fuel : Nat} {s₀ pmm : PmmState}
    (hinit : pmmInit img.toKernelImage mem fuel s₀ = some (pmm, 0)) (_hlow : FreeBelow pmm)
    (m : Memory) (ops : List EditOp)
    (hops : StepsMeet (Life.editStep img.pml4) (SmallEdit img.pml4)
      (Life.start (bootedVm img pmm m)) ops) :
    StepsMeet (Life.editStep img.pml4) (TablesOnly img.pml4) (Life.start (bootedVm img pmm m)) ops :=
  stepsMeet_of_invariant (EditTables img.pml4) (fun _ _ h hop => (h.step hop).1)
    (fun _ _ h hop => (h.step hop).2)
    (editTables_start hinit m) hops

/-- Two address spaces share a table of the kernel half: the mapping through the first of them
edits the table of both. -/
theorem edits_write_only_tables_shared :
    let ops : List EditOp := [.space (.user .create),
        .space (.mapPage 0xFFFFFF8000000000#64 0x5000#64 pteWrite),
      .mapKernel 0x200000#64 0xFFFFFF8000001000#64 0x6000#64 pteWrite,
        .space (.unmapPage 0xFFFFFF8000000000#64)]
    translate (run (Life.editStep 0x100000#64) eightFrameStart ops).vm.mem 0x100000#64
      0xFFFFFF8000001000#64 =
        some 0x6000#64 ∧
      StepsMeet (Life.editStep 0x100000#64) (TablesOnly 0x100000#64) eightFrameStart ops := by
  have hinit : pmmInit smallBootImage.toKernelImage eightFrameMap 4 unbooted =
      some (eightFrameBoot, 0) := eightFrameInit_accepted
  refine ⟨by decide +kernel, edits_write_only_tables hinit eightFrameBoot_freeBelow
    (fun _ => 0#64) _ ⟨trivial, ?_, ⟨?_, ?_⟩, ?_, trivial⟩⟩
  · exact of_decide_eq_true (p := SmallPath 3 _ _ _) (by decide +kernel)
  · decide +kernel
  · decide +kernel
  · exact of_decide_eq_true (p := SmallPath 3 _ _ _) (by decide +kernel)

/-- Under the kernel window, which entry.asm maps by large pages, a mapping stores its first
entry to physical address 0, which is no table, and an unmapped address is still mapped. -/
theorem edits_below_large_page :
    let s := (vmmMapPage 0x100000#64 eightFrameStart.vm 0xFFFFFFFF80000000#64 0x5000#64 pteWrite).1
    s.mem 0#64 ≠ eightFrameStart.vm.mem 0#64 ∧
      ¬ TablesOnly 0x100000#64 eightFrameStart
        (.space (.mapPage 0xFFFFFFFF80000000#64 0x5000#64 pteWrite)) ∧
      vmmGetPhys 0x100000#64 (vmmUnmapPage 0x100000#64 eightFrameStart.vm 0xFFFFFFFF80001000#64)
        0xFFFFFFFF80001000#64 = 0x1000#64 ∧
      ¬ TablesOnly 0x100000#64 eightFrameStart (.space (.unmapPage 0xFFFFFFFF80001000#64)) := by
  have hword : (vmmMapPage 0x100000#64 eightFrameStart.vm 0xFFFFFFFF80000000#64 0x5000#64
      pteWrite).1.mem 0#64 ≠
      eightFrameStart.vm.mem 0#64 := by decide +kernel
  have hphys : vmmGetPhys 0x100000#64 (vmmUnmapPage 0x100000#64 eightFrameStart.vm
      0xFFFFFFFF80001000#64)
      0xFFFFFFFF80001000#64 = 0x1000#64 := by decide +kernel
  -- the tables after the mapping are the two page directory pointer tables and the root
  have htables : pageOf 0#64 ∉ postorder kernelFormat 3 (vmmMapPage 0x100000#64 eightFrameStart.vm
      0xFFFFFFFF80000000#64 0x5000#64 pteWrite).1.mem 0x100000#64 := by decide +kernel
  refine ⟨hword, fun hmapped => ?_, hphys, fun hunmapped => ?_⟩
  · exact htables (mem_postorder.mpr (hmapped 0#64 hword))
  · exact absurd (hphys.symm.trans hunmapped.2) (by decide)

end Vmm
