import NamelessOS.KernelWindow

/-!
# Mappings of the kernel

`vmm_map_page` and `vmm_unmap_page` work on the boot PML4, whose kernel half
every address space copied when it was created.  A frame that is a table of the
boot PML4 has a level, and an entry of a table of level `k + 1` points to a table
of level `k` (`Levels`); mapping a page keeps this and gives levels to the frames
it takes.  So a mapping writes tables of the boot PML4 only, and the PML4 itself
only where its entry was absent: there the address spaces that exist already miss
the new table.
-/

namespace Vmm

open Pmm WordMemory PageTree Runs WordBitmap Function

/-! ## The functions -/

/-- `vmm_map_page`, line for line `vmm_map_user_page` on the VMM's own PML4. -/
def vmmMapPage (pml4Phys : U64) (s : Vm) (virt phys flags : U64) : Vm × Int :=
  vmmMapUserPage s pml4Phys virt phys flags

/-- `vmm_unmap_page`. -/
def vmmUnmapPage (pml4Phys : U64) (s : Vm) (virt : U64) : Vm :=
  let e4 := s.mem (slot pml4Phys (vaPml4Idx virt))
  if !has e4 ptePresent then s
  else
    let e3 := s.mem (slot (pteAddr e4) (vaPdptIdx virt))
    if !has e3 ptePresent then s
    else
      let e2 := s.mem (slot (pteAddr e3) (vaPdtIdx virt))
      if !has e2 ptePresent then s
      else s.write (slot (pteAddr e2) (vaPtIdx virt)) 0#64

/-! ## Levels -/

/-- The frames that are tables of the boot PML4 and their levels. -/
structure Levels (level : U64 → Option Nat) (s : Vm) : Prop where
  frame : ∀ a k, level a = some k → PageAligned a ∧ Used s.pmm a
  entry : ∀ a k i, level a = some (k + 1) → i < 512 →
    kernelFormat.present (s.mem (slot a i)) = true → level (pteAddr (s.mem (slot a i))) = some k

/-- No large page on the way down. -/
def SmallPath : Nat → Memory → U64 → (Nat → Nat) → Prop
  | 0, _, _, _ => True
  | k + 1, m, t, ix =>
    has (m (slot t (ix (k + 1)))) ptePresent = true →
      has (m (slot t (ix (k + 1)))) pteHuge = false ∧
        SmallPath k m (pteAddr (m (slot t (ix (k + 1))))) ix

instance decidableSmallPath :
    (k : Nat) → (m : Memory) → (t : U64) → (ix : Nat → Nat) → Decidable (SmallPath k m t ix)
  | 0, _, _, _ => isTrue trivial
  | k + 1, m, t, ix =>
    have := decidableSmallPath k m (pteAddr (m (slot t (ix (k + 1))))) ix
    inferInstanceAs (Decidable (_ → _ ∧ _))

/-- What a mapping below the table `t` of level `k` does. -/
structure MapsBelow (level level' : U64 → Option Nat) (s s' : Vm) (k : Nat) (t : U64)
    (ix : Nat → Nat) : Prop where
  levels : Levels level' s'
  kept : ∀ p, PageAligned p → Used s.pmm p → Used s'.pmm p
  old : ∀ a j, level a = some j → level' a = some j
  fresh : ∀ a j, level' a = some j → level a = some j ∨ ¬ Used s.pmm a
  outside : ∀ x, Used s.pmm (pageOf x) → level (pageOf x) = none → s'.mem x = s.mem x
  above : ∀ x j, level (pageOf x) = some j → k ≤ j → x ≠ slot t (ix k) → s'.mem x = s.mem x
  present : 0 < k → has (s.mem (slot t (ix k))) ptePresent = true →
    s'.mem (slot t (ix k)) = s.mem (slot t (ix k))

variable {level level' : U64 → Option Nat} {s s' : Vm} {k : Nat} {t : U64} {ix : Nat → Nat}

theorem vaIndex_lt (va : U64) (j : Nat) : vaIndex va j < 512 := by
  unfold vaIndex
  split
  · rw [vaPtIdx, toNat_index]
    omega
  · rw [vaPdtIdx, toNat_index]
    omega
  · rw [vaPdptIdx, toNat_index]
    omega
  · rw [vaPml4Idx, toNat_index]
    omega

theorem kernelFormat_present {e : U64} :
    kernelFormat.present e = true ↔ has e ptePresent = true ∧ has e pteHuge = false := by
  change (has e ptePresent && !has e pteHuge) = true ↔ _
  rw [Bool.and_eq_true, Bool.not_eq_true']

/-- A word of a table of level 0 is written. -/
theorem Levels.write_leaf (h : Levels level s) (ht : level t = some 0) (hlt : ix 0 < 512) (v : U64) :
    MapsBelow level level s (s.write (slot t (ix 0)) v) 0 t ix := by
  obtain ⟨haligned, hused⟩ := h.frame t 0 ht
  have hpage := pageOf_slot haligned hlt
  have hother : ∀ x, x ≠ slot t (ix 0) → (s.write (slot t (ix 0)) v).mem x = s.mem x :=
    fun x hx => update_of_ne hx _ _
  refine ⟨⟨h.frame, ?_⟩, fun _ _ hu => hu, fun _ _ ha => ha, fun _ _ ha => .inl ha, ?_,
    fun x j _ _ hx => hother x hx, fun hpos => absurd hpos (Nat.lt_irrefl 0)⟩
  · intro a j i ha hi
    grind [slot_inj, frame, entry]
  · intro x _ hx
    apply hother
    intro heq
    rw [heq, hpage, ht] at hx
    cases hx

variable {flags d virt : U64} {pmm' : PmmState} {i fuel : Nat}

/-- A fresh, cleared frame below an absent entry. -/
theorem Levels.hang (hflags : DirFlags flags) (h : Levels level s)
    (ht : level t = some (k + 1)) (hi : i < 512) (haligned : PageAligned d)
      (hmask : d &&& pteAddrMask = d)
    (hfresh : ¬ Used s.pmm d) (hused : ∀ p, PageAligned p → (Used pmm' p ↔ Used s.pmm p ∨ p = d)) :
    Levels (update level d (some k))
      { pmm := pmm', mem := update (fillZero s.mem d 4096) (slot t i)
          (d ||| flags ||| ptePresent) } := by
  obtain ⟨haddr, -, -⟩ := dirEntry hflags hmask
  obtain ⟨htaligned, htused⟩ := h.frame t _ ht
  refine ⟨?_, ?_⟩
  · intro a j ha
    grind [frame]
  · intro a j i' ha hi' hp
    by_cases had : a = d
    · -- the new table is empty
      have hzero : kernelFormat.present 0#64 = false := by decide
      grind [pageOf_slot, fillZero_page]
    · grind [frame, fillZero_page, pageOf_slot, entry]

section

variable (h : Levels level s) (ht : level t = some (k + 1)) (hi : ix (k + 1) < 512)
include h ht hi

/-- Through a present entry the mapping goes on below it. -/
theorem MapsBelow.through {c : U64} (hc : level c = some k) (hj : ix k < 512)
    (hbelow : MapsBelow level level' s s' k c ix) : MapsBelow level level' s s' (k + 1) t ix := by
  obtain ⟨hcaligned, -⟩ := h.frame c k hc
  have habove : ∀ x j, level (pageOf x) = some j → k + 1 ≤ j → s'.mem x = s.mem x := by
    grind [above, pageOf_slot]
  refine ⟨hbelow.levels, hbelow.kept, hbelow.old, hbelow.fresh, hbelow.outside,
    fun x j hx hle _ => habove x j hx hle, fun _ _ => habove _ (k + 1) ?_ le_rfl⟩
  rw [pageOf_slot (h.frame t _ ht).1 hi]
  exact ht

/-- Below a table that was hung up first. -/
theorem MapsBelow.hung (hj : ix k < 512) (habsent : has (s.mem (slot t (ix (k + 1)))) ptePresent =
    false) (haligned : PageAligned d)
    (hfresh : ¬ Used s.pmm d) (hused : ∀ p, PageAligned p → (Used pmm' p ↔ Used s.pmm p ∨ p = d))
    (hbelow : MapsBelow (update level d (some k)) level'
      { pmm := pmm', mem := update (fillZero s.mem d 4096) (slot t (ix (k + 1)))
          (d ||| flags ||| ptePresent) } s' k d ix) :
    MapsBelow level level' s s' (k + 1) t ix := by
  obtain ⟨htaligned, -⟩ := h.frame t _ ht
  have hpage := pageOf_slot htaligned hi
  have hne : ∀ {a j}, level a = some j → a ≠ d := fun ha heq => hfresh (heq ▸ (h.frame _ _ ha).2)
  have hkept : ∀ p, PageAligned p → Used s.pmm p → Used pmm' p :=
    fun p hp hu => (hused p hp).mpr (.inl hu)
  have hsame : ∀ x, pageOf x ≠ d → x ≠ slot t (ix (k + 1)) →
      update (fillZero s.mem d 4096) (slot t (ix (k + 1)))
        (d ||| flags ||| ptePresent) x = s.mem x := by
    intro x hx hslot
    rw [update_of_ne hslot, fillZero_page s.mem haligned, if_neg hx]
  refine ⟨hbelow.levels, fun p hp hu => hbelow.kept p hp (hkept p hp hu), ?_, ?_, ?_, ?_, ?_⟩
  · intro a j ha
    apply hbelow.old
    rw [update_of_ne (hne ha)]
    exact ha
  · intro a j ha
    rcases hbelow.fresh a j ha with hold | hnew
    · by_cases had : a = d
      · exact .inr (had ▸ hfresh)
      · rw [update_of_ne had] at hold
        exact .inl hold
    · exact .inr (fun hu => hnew (hkept a (hbelow.levels.frame a j ha).1 hu))
  · intro x hu hx
    have hxd : pageOf x ≠ d := fun heq => hfresh (heq ▸ hu)
    rw [hbelow.outside x (hkept _ (pageAligned_pageOf x) hu)
      (by rw [update_of_ne hxd]; exact hx)]
    refine hsame x hxd (fun heq => ?_)
    rw [heq, hpage, ht] at hx
    cases hx
  · intro x j hx hle hslot
    have hxd := hne hx
    rw [hbelow.above x j (by rw [update_of_ne hxd]; exact hx) (by omega) ?_]
    · exact hsame x hxd hslot
    · intro heq
      rw [heq, pageOf_slot haligned hj] at hxd
      exact hxd rfl
  · intro _ hpresent
    rw [habsent] at hpresent
    cases hpresent

end

variable {m : Memory}

/-- There is nothing below an empty table. -/
theorem smallPath_of_blank (hblank : ∀ i < 512, m (slot t i) = 0#64)
    (hix : ∀ j ≤ k, ix j < 512) : SmallPath k m t ix := by
  cases k with
  | zero => trivial
  | succ k =>
    intro hp
    rw [hblank _ (hix _ le_rfl)] at hp
    exact absurd hp (by decide)

/-- Nor below a new one. -/
theorem smallPath_made {v : U64} (ht : PageAligned t) (hi : i < 512) (hd : PageAligned d)
    (hne : t ≠ d) (hix : ∀ j ≤ k, ix j < 512) :
    SmallPath k (update (fillZero m d 4096) (slot t i) v) d ix := by
  grind [smallPath_of_blank, fillZero_page, pageOf_slot]

/-- No entry changed. -/
theorem Levels.unchanged (h : Levels level s) (k : Nat) (t : U64) (ix : Nat → Nat)
    (hkeep : ∀ p, Used s.pmm p → Used pmm' p) :
    MapsBelow level level s { s with pmm := pmm' } k t ix :=
  ⟨⟨fun a j ha => ⟨(h.frame a j ha).1, hkeep a (h.frame a j ha).2⟩, h.entry⟩,
    fun p _ hu => hkeep p hu, fun _ _ ha => ha, fun _ _ ha => .inl ha, fun _ _ _ => rfl,
    fun _ _ _ _ _ => rfl, fun _ _ => rfl⟩

/-- **A mapping keeps the levels**, with levels for the frames it takes. -/
theorem mapPathWith_levels (hflags : DirFlags flags) (e : U64) (h : Levels level s)
    (ht : level t = some k) (hix : ∀ j ≤ k, ix j < 512) (hsmall : SmallPath k s.mem t ix) :
    ∃ level', MapsBelow level level' s (mapPathWith flags e k s t ix).1 k t ix := by
  -- down the path: the table below is there, or a fresh one without entries
  induction k generalizing level s t with
  | zero => exact ⟨level, h.write_leaf ht (hix 0 le_rfl) e⟩
  | succ k ih =>
    have hi := hix (k + 1) le_rfl
    have hix' : ∀ j ≤ k, ix j < 512 := fun j hj => hix j (by omega)
    have hstep := getOrAllocTable_step hflags s (slot t (ix (k + 1)))
    rw [mapPathWith]
    generalize getOrAllocTable s (slot t (ix (k + 1))) flags = r at hstep
    cases hstep with
    | there hp =>
      obtain ⟨hhuge, hbelow⟩ := hsmall hp
      have hc := h.entry t k _ ht hi (kernelFormat_present.mpr ⟨hp, hhuge⟩)
      obtain ⟨level', hmaps⟩ := ih h hc hix' hbelow
      exact ⟨level', hmaps.through h ht hi hc (hix' k le_rfl)⟩
    | noFrame pmm' hp hnone hkeep => exact ⟨level, h.unchanged _ _ _ hkeep⟩
    | made pmm' d hp hsome haligned hmask hfresh hused =>
      obtain ⟨htaligned, htused⟩ := h.frame t _ ht
      have hhang := h.hang hflags ht hi haligned hmask hfresh hused
      obtain ⟨level', hmaps⟩ := ih hhang (update_self _ _ _) hix'
        (smallPath_made htaligned hi haligned (fun heq => hfresh (heq ▸ htused)) hix')
      exact ⟨level', hmaps.hung h ht hi (hix' k le_rfl) hp haligned hfresh hused⟩

theorem mapPath_levels (e : U64) (h : Levels level s) (ht : level t = some k)
    (hix : ∀ j ≤ k, ix j < 512) (hsmall : SmallPath k s.mem t ix) :
    ∃ level', MapsBelow level level' s (mapPath e k s t ix).1 k t ix := by
  rw [← mapPathWith_tableFlags]
  exact mapPathWith_levels dirFlags_tableFlags e h ht hix hsmall

/-- `vmm_unmap_page` by the levels it descends. -/
def clearPath : Nat → Vm → U64 → (Nat → Nat) → Vm
  | 0, s, t, ix => s.write (slot t (ix 0)) 0#64
  | k + 1, s, t, ix =>
    if !has (s.mem (slot t (ix (k + 1)))) ptePresent then s
    else clearPath k s (pteAddr (s.mem (slot t (ix (k + 1))))) ix

theorem vmmUnmapPage_eq (pml4 : U64) (s : Vm) (virt : U64) :
    vmmUnmapPage pml4 s virt = clearPath 3 s pml4 (vaIndex virt) := rfl

theorem clearPath_levels (h : Levels level s) (ht : level t = some k)
    (hix : ∀ j ≤ k, ix j < 512) (hsmall : SmallPath k s.mem t ix) :
    MapsBelow level level s (clearPath k s t ix) k t ix := by
  induction k generalizing t with
  | zero => exact h.write_leaf ht (hix 0 le_rfl) _
  | succ k ih =>
    have hi := hix (k + 1) le_rfl
    have hix' : ∀ j ≤ k, ix j < 512 := fun j hj => hix j (by omega)
    rw [clearPath]
    by_cases hp : has (s.mem (slot t (ix (k + 1)))) ptePresent = true
    · rw [hp, Bool.not_true, if_neg (by decide)]
      obtain ⟨hhuge, hbelow⟩ := hsmall hp
      have hc := h.entry t k _ ht hi (kernelFormat_present.mpr ⟨hp, hhuge⟩)
      exact (ih hc hix' hbelow).through h ht hi hc (hix' k le_rfl)
    · rw [Bool.not_eq_true] at hp
      rw [hp, Bool.not_false, if_pos rfl]
      exact h.unchanged _ _ _ (fun _ hu => hu)

/-! ## The machine -/

/-- The operations on the boot PML4 and those on address spaces. -/
inductive SpaceOp
  | mapPage (virt phys flags : U64)
  | unmapPage (virt : U64)
  | user (op : LifeOp)

/-- One operation; `boot` is `pml4_phys` of the VMM. -/
def Life.spaceStep (boot : U64) (s : Life) : SpaceOp → Life
  | .mapPage virt phys flags => { s with vm := (vmmMapPage boot s.vm virt phys flags).1 }
  | .unmapPage virt => { s with vm := vmmUnmapPage boot s.vm virt }
  | .user op => s.step boot op

/-- **The kernel half is shared**: an address of the kernel half translates in
every address space as it does in the boot PML4. -/
def KernelHalfShared (boot : U64) (s : Life) : Prop := ∀ r ∈ s.live, ∀ virt, 256 ≤ vaPml4Idx virt →
    translate s.vm.mem r virt = translate s.vm.mem boot virt

/-- Mapping an address of the kernel half in the PML4 `r` finds its top-level
entry present. -/
def EntryThere (m : Memory) (r virt : U64) : Prop := has (m (slot r (vaPml4Idx virt))) ptePresent = true

instance (m : Memory) (r virt : U64) : Decidable (EntryThere m r virt) :=
  inferInstanceAs (Decidable (_ = _))

/-- The operation does not take a large page for a table, and adds no entry to
the kernel half of a PML4 while address spaces exist. -/
def KeepsShared (boot : U64) (s : Life) : SpaceOp → Prop
  | .mapPage virt _ _ => SmallPath 3 s.vm.mem boot (vaIndex virt) ∧
      (256 ≤ vaPml4Idx virt → EntryThere s.vm.mem boot virt ∨ s.live = [])
  | .unmapPage virt => SmallPath 3 s.vm.mem boot (vaIndex virt)
  | .user (.map root virt phys flags) => OnLive s (.map root virt phys flags) ∨
      (root ∈ s.live ∧ 256 ≤ vaPml4Idx virt ∧ EntryThere s.vm.mem root virt ∧
        SmallPath 3 s.vm.mem root (vaIndex virt))
  | .user op => OnLive s op

/-- **The invariant.** -/
structure KernelTables (boot : U64) (s : Life) : Prop where
  forest : Forest s.vm s.live
  levels : ∃ level, Levels level s.vm ∧ level boot = some 3 ∧
    ∀ a j, level a = some j → ¬ Table s.vm.mem s.live a
  half : ∀ r ∈ s.live, KernelHalf s.vm.mem boot s.vm.mem r

theorem KernelTables.shared {boot : U64} {s : Life} (h : KernelTables boot s) :
    KernelHalfShared boot s := by
  intro r hr virt hvirt
  unfold translate
  rw [h.half r hr _ hvirt (vaIndex_lt virt 3)]

/-- What is written below such a table leaves a forest that has none of these tables. -/
theorem MapsBelow.forest {live : List U64} (hmaps : MapsBelow level level' s s' k t ix)
    (h : Forest s live)
    (hapart : ∀ a j, level a = some j → ¬ Table s.mem live a) :
    Forest s' live ∧ (∀ a j, level' a = some j → ¬ Table s'.mem live a) ∧
      ∀ r ∈ live, ∀ i < 512, s'.mem (slot r i) = s.mem (slot r i) := by
  have hnone : ∀ {a}, Table s.mem live a → level a = none := by
    intro a ha
    cases hl : level a with
    | none => rfl
    | some j => exact absurd ha (hapart a j hl)
  have hmem : ∀ x, Table s.mem live (pageOf x) → s'.mem x = s.mem x :=
    fun x hx => hmaps.outside x (h.table_used hx) (hnone hx)
  obtain ⟨hforest, htables⟩ := h.congr s'
    (fun a ha => hmaps.kept a (h.table_aligned ha) (h.table_used ha)) hmem
  refine ⟨hforest, fun a j ha ht => ?_, fun r hr i hi => hmem _ ?_⟩
  · rw [htables] at ht
    rcases hmaps.fresh a j ha with hold | hnew
    · exact hapart a j hold ht
    · exact hnew (h.table_used ht)
  · rw [pageOf_slot (h.tree r hr).aligned hi]
    exact ⟨r, hr, frames_root _ _ _⟩

/-- A mapping or unmapping below the boot PML4. -/
theorem KernelTables.below {boot : U64} {s : Life} (h : KernelTables boot s) {vm : Vm}
    (hmaps : ∀ level, Levels level s.vm → level boot = some 3 →
      ∃ level', MapsBelow level level' s.vm vm 3 boot (vaIndex virt))
    (hentry : 256 ≤ vaPml4Idx virt → vm.mem (slot boot (vaPml4Idx virt)) =
      s.vm.mem (slot boot (vaPml4Idx virt)) ∨ s.live = []) :
    KernelTables boot { s with vm := vm } := by
  obtain ⟨level, hlevels, hboot, hapart⟩ := h.levels
  obtain ⟨level', hmaps⟩ := hmaps level hlevels hboot
  have hbootAligned := (hlevels.frame boot 3 hboot).1
  obtain ⟨hforest, hapart', hroots⟩ := hmaps.forest h.forest hapart
  refine ⟨hforest, ⟨level', hmaps.levels, hmaps.old boot 3 hboot, hapart'⟩, ?_⟩
  intro r hr i hlow hi
  have hsame : vm.mem (slot boot i) = s.vm.mem (slot boot i) := by
    by_cases hidx : i = vaPml4Idx virt
    · rcases hentry (hidx ▸ hlow) with heq | hnil
      · rw [hidx, heq]
      · rw [hnil] at hr
        cases hr
    · refine hmaps.above _ 3 (by rw [pageOf_slot hbootAligned hi]; exact hboot) le_rfl ?_
      intro heq
      exact hidx ((slot_inj hbootAligned hbootAligned hi (vaIndex_lt virt 3)).mp heq).2
  rw [hroots r hr i hi, hsame, h.half r hr i hlow hi]

variable {boot : U64} {l : Life}

theorem KernelTables.mapPage (h : KernelTables boot l) (phys flags : U64)
    (hsmall : SmallPath 3 l.vm.mem boot (vaIndex virt))
    (hentry : 256 ≤ vaPml4Idx virt → EntryThere l.vm.mem boot virt ∨ l.live = []) :
    KernelTables boot { l with vm := (vmmMapPage boot l.vm virt phys flags).1 } := by
  have hmaps : ∀ level, Levels level l.vm → level boot = some 3 → ∃ level', MapsBelow level level'
      l.vm (vmmMapPage boot l.vm virt phys flags).1 3 boot (vaIndex virt) := by
    intro level hlevels hboot
    rw [vmmMapPage, vmmMapUserPage_eq]
    exact mapPath_levels _ hlevels hboot (fun j _ => vaIndex_lt virt j) hsmall
  refine h.below hmaps ?_
  intro hlow
  obtain ⟨level, hlevels, hboot, -⟩ := h.levels
  obtain ⟨level', hm⟩ := hmaps level hlevels hboot
  exact (hentry hlow).imp_left (hm.present (by decide))

theorem KernelTables.unmapPage (h : KernelTables boot l)
    (hsmall : SmallPath 3 l.vm.mem boot (vaIndex virt)) :
    KernelTables boot { l with vm := vmmUnmapPage boot l.vm virt } := by
  have hmaps : ∀ level, Levels level l.vm → level boot = some 3 → MapsBelow level level
      l.vm (vmmUnmapPage boot l.vm virt) 3 boot (vaIndex virt) := by
    intro level hlevels hboot
    rw [vmmUnmapPage_eq]
    exact clearPath_levels hlevels hboot (fun j _ => vaIndex_lt virt j) hsmall
  refine h.below (fun level hlevels hboot => ⟨level, hmaps level hlevels hboot⟩) ?_
  intro _
  obtain ⟨level, hlevels, hboot, -⟩ := h.levels
  by_cases hp : EntryThere l.vm.mem boot virt
  · exact .inl ((hmaps level hlevels hboot).present (by decide) hp)
  · unfold EntryThere at hp
    rw [Bool.not_eq_true] at hp
    rw [vmmUnmapPage]
    rw [hp, Bool.not_false, if_pos rfl]
    exact .inl rfl

theorem SmallPath.of_shared {t' : U64} (h : SmallPath (k + 1) m t ix)
    (hsame : m (slot t (ix (k + 1))) = m (slot t' (ix (k + 1)))) : SmallPath (k + 1) m t' ix := by
  unfold SmallPath at h ⊢
  rwa [hsame] at h

/-- Below a shared entry a mapping is the same in every PML4. -/
theorem vmmMapUserPage_shared {vm : Vm} {r r' : U64} (hthere : EntryThere vm.mem r virt)
    (hsame : vm.mem (slot r (vaPml4Idx virt)) = vm.mem (slot r' (vaPml4Idx virt))) (phys flags : U64) :
    vmmMapUserPage vm r virt phys flags = vmmMapUserPage vm r' virt phys flags := by
  unfold EntryThere at hthere
  have hthere' := hsame ▸ hthere
  unfold vmmMapUserPage
  rw [getOrAllocTable, getOrAllocTable, hthere, hthere', hsame]
  rfl

theorem KernelTables.user (h : KernelTables boot l) {op : LifeOp} (hop : OnLive l op) :
    KernelTables boot (l.step boot op) := by
  obtain ⟨level, hlevels, hboot, hapart⟩ := h.levels
  obtain ⟨hbootAligned, hbootUsed⟩ := hlevels.frame boot 3 hboot
  have hchange := step_change boot h.forest hop
  have hmem : ∀ a j i, level a = some j → i < 512 →
      (l.step boot op).vm.mem (slot a i) = l.vm.mem (slot a i) := by
    intro a j i ha hi
    obtain ⟨haligned, hused⟩ := hlevels.frame a j ha
    have hpage := pageOf_slot haligned hi
    exact hchange.mem _ (by rw [hpage]; exact hused) (by rw [hpage]; exact hapart a j ha)
  have huntouched : ∀ a j, level a = some j →
      Used (l.step boot op).vm.pmm a ∧ ¬ Table (l.step boot op).vm.mem (l.step boot op).live a := by
    intro a j ha
    obtain ⟨haligned, hused⟩ := hlevels.frame a j ha
    exact hchange.untouched haligned hused (hapart a j ha)
  refine ⟨hchange.forest, ⟨level, ⟨?_, ?_⟩, hboot, fun a j ha => (huntouched a j ha).2⟩, ?_⟩
  · exact fun a j ha => ⟨(hlevels.frame a j ha).1, (huntouched a j ha).1⟩
  · intro a j i ha hi
    rw [hmem a _ i ha hi]
    exact hlevels.entry a j i ha hi
  · intro r hr i hlow hi
    obtain ⟨src, hsrc, hhalf⟩ := step_kernelHalf h.forest hbootAligned hbootUsed hop hr
    rw [hhalf i hlow hi, hmem boot 3 i hboot hi]
    rcases hsrc with rfl | hsrc
    · rfl
    · exact h.half src hsrc i hlow hi

/-- **One operation keeps the kernel half shared.** -/
theorem KernelTables.step (h : KernelTables boot l) {op : SpaceOp} (hop : KeepsShared boot l op) :
    KernelTables boot (l.spaceStep boot op) := by
  cases op with
  | mapPage virt phys flags => exact h.mapPage phys flags hop.1 hop.2
  | unmapPage virt => exact h.unmapPage hop
  | user op =>
    rw [show l.spaceStep boot (.user op) = l.step boot op from rfl]
    cases op with
    | map root virt phys flags =>
      rcases hop with hlive | ⟨hroot, hlow, hthere, hsmall⟩
      · exact h.user hlive
      · -- a kernel address through an address space: the tables are the boot PML4's
        have hsame := h.half root hroot _ hlow (vaIndex_lt virt 3)
        change KernelTables boot
          { l with vm := (vmmMapUserPage l.vm root virt phys flags).1 }
        rw [vmmMapUserPage_shared hthere hsame]
        unfold EntryThere at hthere
        rw [hsame] at hthere
        exact h.mapPage phys flags (hsmall.of_shared hsame) (fun _ => .inl hthere)
    | create => exact h.user (show OnLive l .create from hop)
    | fork root => exact h.user (show OnLive l (.fork root) from hop)
    | destroy root => exact h.user (show OnLive l (.destroy root) from hop)
    | alloc => exact h.user (show OnLive l .alloc from hop)

/-! ## From boot -/

variable {img : BootImage}

/-- The identity map has large pages only. -/
theorem startTables_pdptId (m : Memory) (hi : i < 512) :
    kernelFormat.present (startTables img m (slot img.pdptId i)) = false := by
  rw [BootImage.pdptId, startTables_slot m (by decide) hi]
  simp only [Nat.reduceEqDiff, false_and, if_false, true_and]
  split_ifs <;> decide

theorem startTables_pdptHh_large (m : Memory) (hi : i < 512) :
    kernelFormat.present (startTables img m (slot img.pdptHh i)) = false := by
  rw [startTables_pdptHh m hi]
  split_ifs <;> decide

/-- The levels of the tables that `start` fills. -/
def bootLevel (img : BootImage) (a : U64) : Option Nat :=
  if a = img.pml4 then some 3 else if a = img.pdptId ∨ a = img.pdptHh then some 2 else none

theorem bootLevel_two {a : U64} {k : Nat} (h : bootLevel img a = some (k + 1)) :
    (k = 2 ∧ a = img.pml4) ∨ (k = 1 ∧ (a = img.pdptId ∨ a = img.pdptHh)) := by
  unfold bootLevel at h
  split_ifs at h with hroot hpdpt
  · cases h
    exact .inl ⟨rfl, hroot⟩
  · cases h
    exact .inr ⟨rfl, hpdpt⟩

variable {s₀ pmm : PmmState}

/-- The three tables of entry.asm have levels. -/
theorem levels_start {mem : U64 → U8}
    (hinit : pmmInit img.toKernelImage mem fuel s₀ = some (pmm, 0)) (m : Memory) :
    Levels (bootLevel img) (bootedVm img pmm m) := by
  have htable : ∀ {k}, k < 3 → PageAligned (img.table k) ∧ Used pmm (img.table k) :=
    fun hk => ⟨img.pageAligned_table hk, img.table_used hk hinit⟩
  have hroot : PageAligned img.pml4 ∧ Used pmm img.pml4 := by
    rw [img.pml4_eq]
    exact htable (by decide)
  have hlevel : ∀ {a k}, bootLevel img a = some k →
      a = img.pml4 ∨ a = img.pdptId ∨ a = img.pdptHh := by
    intro a k ha
    unfold bootLevel at ha
    split_ifs at ha with hpml4 hpdpt
    · exact .inl hpml4
    · exact .inr hpdpt
  constructor
  · intro a k ha
    rcases hlevel ha with rfl | rfl | rfl
    · exact hroot
    · exact htable (by decide)
    · exact htable (by decide)
  · intro a k i ha hi hp
    change kernelFormat.present (startTables img m (slot a i)) = true at hp
    change bootLevel img (pteAddr (startTables img m (slot a i))) = some k
    rcases bootLevel_two ha with ⟨rfl, rfl⟩ | ⟨rfl, rfl | rfl⟩
    · rw [startTables_pml4 m hi] at hp ⊢
      have hchild : ∀ {k}, k < 3 → 0 < k → (img.table k = img.pdptId ∨ img.table k = img.pdptHh) →
          bootLevel img (pteAddr (img.table k ||| 3#64)) = some 2 := by
        intro k hk hpos hpdpt
        have hne : img.table k ≠ img.pml4 := by
          rw [img.pml4_eq, Ne, img.table_inj hk (by decide)]
          omega
        rw [(img.entry hk).1, bootLevel, if_neg hne, if_pos hpdpt]
      split_ifs at hp ⊢ with hlast hfirst
      · exact hchild (by decide) (by decide) (.inr rfl)
      · exact hchild (by decide) (by decide) (.inl rfl)
      · exact absurd hp (by decide)
    · rw [startTables_pdptId m hi] at hp
      cases hp
    · rw [startTables_pdptHh_large m hi] at hp
      cases hp

theorem kernelTables_start {mem : U64 → U8}
    (hinit : pmmInit img.toKernelImage mem fuel s₀ = some (pmm, 0)) (m : Memory) :
    KernelTables img.pml4 (Life.start (bootedVm img pmm m)) := by
  refine ⟨forest_start _, ⟨bootLevel img, levels_start hinit m, if_pos rfl, ?_⟩, ?_⟩
  · intro a k _ ht
    obtain ⟨r, hr, -⟩ := ht
    cases hr
  · intro r hr
    cases hr

/-- **The kernel half is the same in every address space**, in every state of a
run of the VMM's operations from boot in which no mapping goes through a large
page and no PML4 gets a new kernel-half entry while address spaces exist.  The
free frames lie below 2 GiB, so that the kernel's stores reach the tables they
are for. -/
theorem kernel_half_shared {img : BootImage} {mem : U64 → U8} {fuel : Nat} {s₀ pmm : PmmState}
    (hinit : pmmInit img.toKernelImage mem fuel s₀ = some (pmm, 0)) (_hlow : FreeBelow pmm)
    (m : Memory) (ops : List SpaceOp)
    (hops : StepsMeet (Life.spaceStep img.pml4) (KeepsShared img.pml4)
      (Life.start (bootedVm img pmm m)) ops) : KernelHalfShared img.pml4
      (run (Life.spaceStep img.pml4) (Life.start (bootedVm img pmm m)) ops) :=
  (run_invariant (KernelTables img.pml4) (fun _ _ h hop => h.step hop)
    (kernelTables_start hinit m) hops).shared

/-- An information block at `0x9000` with one available region: eight frames at
`0x200000`. -/
def eightFrameMap (a : U64) : U8 := [56, 0, 0, 0, 0, 0, 0, 0,
    6, 0, 0, 0, 40, 0, 0, 0, 24, 0, 0, 0, 0, 0, 0, 0,
    0, 0, 0x20, 0, 0, 0, 0, 0, 0, 0x80, 0, 0, 0, 0, 0, 0, 1, 0, 0, 0, 0, 0, 0, 0,
    0, 0, 0, 0, 8, 0, 0, 0].getD (a - 0x9000#64).toNat 0

def eightFrameInit : Option (PmmState × Int) := pmmInit smallImage eightFrameMap 4 unbooted

def eightFrameBoot : PmmState := (eightFrameInit.getD default).1

theorem eightFrameInit_accepted : eightFrameInit = some (eightFrameBoot, 0) :=
  accepted_of_returns_zero (by decide +kernel)

/-- Its free frames are the eight of the region. -/
theorem eightFrameBoot_freeBelow : FreeBelow eightFrameBoot := by
  intro p _ hfree
  have hclear : test eightFrameBoot.bitmap (frameOf p) = false :=
    Bool.eq_false_of_not_eq_true (fun hset => hfree (.inr hset))
  obtain ⟨-, e, he, -, hmem⟩ := (pmmInit_clear_iff eightFrameInit_accepted (frameOf p)).mp hclear
  change e ∈ bootEntries eightFrameMap 4 unbooted at he
  obtain rfl := List.mem_singleton.mp he
  obtain ⟨-, hhigh, -⟩ := mem_frameRange.mp hmem
  change frameOf p < 520 at hhigh
  unfold frameOf frameSize at hhigh
  omega

def eightFrameStart : Life := Life.start (bootedVm smallBootImage eightFrameBoot (fun _ => 0#64))

theorem kernel_half_shared_below :
    let s := run (Life.spaceStep 0x100000#64) eightFrameStart
      [.user .create, .mapPage 0xFFFFFF8000000000#64 0x5000#64 pteWrite]
    translate s.vm.mem 0x200000#64 0xFFFFFF8000000000#64 = some 0x5000#64 ∧
      KernelHalfShared 0x100000#64 s := by
  have hinit : pmmInit smallBootImage.toKernelImage eightFrameMap 4 unbooted =
      some (eightFrameBoot, 0) := eightFrameInit_accepted
  refine ⟨by decide +kernel, kernel_half_shared hinit eightFrameBoot_freeBelow (fun _ => 0#64) _
    ⟨trivial, ⟨?_, ?_⟩, trivial⟩⟩
  · decide +kernel
  · exact fun _ => .inl (by decide +kernel)

/-- A mapping in an empty part of the kernel half after an address space was
created. -/
theorem kernel_half_diverges :
    let s := run (Life.spaceStep 0x100000#64) eightFrameStart
      [.user .create, .mapPage 0xFFFF800000000000#64 0x5000#64 pteWrite]
    s.live = [0x200000#64] ∧ translate s.vm.mem 0x100000#64 0xFFFF800000000000#64 = some 0x5000#64 ∧
      translate s.vm.mem 0x200000#64 0xFFFF800000000000#64 = none ∧
      ¬ KernelHalfShared 0x100000#64 s := by
  intro s
  have hlive : s.live = [0x200000#64] := by decide +kernel
  have hboot : translate s.vm.mem 0x100000#64 0xFFFF800000000000#64 = some 0x5000#64 := by
    decide +kernel
  have huser : translate s.vm.mem 0x200000#64 0xFFFF800000000000#64 = none := by decide +kernel
  refine ⟨hlive, hboot, huser, ?_⟩
  intro hshared
  have heq := hshared 0x200000#64 (by rw [hlive]; exact List.mem_singleton_self _)
    0xFFFF800000000000#64 (by decide)
  rw [hboot, huser] at heq
  cases heq

end Vmm
