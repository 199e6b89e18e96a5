import NamelessOS.VmmClone

/-!
# What mapping a page does

`vmm_map_user_page` descends three levels, creating the tables that are
missing, and writes one leaf entry.  Each level either follows an entry or
hangs an empty table under it; `Extends` is what both keep, and `graft` is the
one argument behind them: a tree whose subtree below one entry is replaced by a
tree of old tables of that subtree and of fresh frames.
-/

namespace Vmm

open Pmm WordMemory PageTree
open Function (update update_of_ne update_self)

variable {k i : Nat} {s s' s'' : Vm} {t : U64} {ix : Nat → Nat}

/-- The tree at `t` has grown into frames that were free, and nothing else that
was in use has changed. -/
structure Extends (k : Nat) (s s' : Vm) (t : U64) : Prop where
  kept : ∀ p, PageAligned p → Used s.pmm p → Used s'.pmm p
  mem : ∀ x, Used s.pmm (pageOf x) → ¬ Frames format k s.mem t (pageOf x) → s'.mem x = s.mem x
  tree : Tree k s' t
  frames : ∀ a, Frames format k s'.mem t a → Frames format k s.mem t a ∨ ¬ Used s.pmm a
  beyond : ∀ j, format.fanout k ≤ j → j < 512 → s'.mem (slot t j) = s.mem (slot t j)

theorem Extends.trans (h : Extends k s s' t) (h' : Extends k s' s'' t) : Extends k s s'' t where
  kept p hp hu := h'.kept p hp (h.kept p hp hu)
  mem x hu hout := by
    have hout' : ¬ Frames format k s'.mem t (pageOf x) := by
      intro hx
      rcases h.frames _ hx with hx | hx
      · exact hout hx
      · exact hx hu
    rw [h'.mem x (h.kept _ (pageAligned_pageOf x) hu) hout', h.mem x hu hout]
  tree := h'.tree
  frames a ha := by
    rcases h'.frames a ha with hold | hfresh
    · exact h.frames a hold
    · exact .inr (fun hu => hfresh (h.kept a (ha.aligned h'.tree.aligned) hu))
  beyond j hlow hj := (h'.beyond j hlow hj).trans (h.beyond j hlow hj)

/-- A tree apart from the one that grew does not change. -/
theorem Extends.agree {k' : Nat} {r : U64} (h : Extends k s s' t) (hr : Tree k' s r)
    (hapart : ∀ a, Frames format k' s.mem r a → ¬ Frames format k s.mem t a) :
    Agree format k' s.mem s'.mem r :=
  fun x hx => h.mem x (hr.used _ hx) (hapart _ hx)

/-- `a` is a table of the subtree below entry `i`. -/
def Below (k : Nat) (m : Memory) (t : U64) (i : Nat) (a : U64) : Prop :=
  HasChild format (k + 1) m t i ∧ Frames format k m (child format m t i) a

section graft
variable (htree : Tree (k + 1) s t) (hi : i < format.fanout (k + 1))
  (hkept : ∀ p, PageAligned p → Used s.pmm p → Used s'.pmm p)
  (hmem : ∀ x, Used s.pmm (pageOf x) → x ≠ slot t i → ¬ Below k s.mem t i (pageOf x) →
    s'.mem x = s.mem x)
include htree hi hmem

theorem graft_entry {j : Nat} (hj : j < 512) (hji : j ≠ i) : s'.mem (slot t j) = s.mem (slot t j) := by
  have hpage := pageOf_slot htree.aligned hj
  refine hmem _ ?_ ?_ ?_
  · rw [hpage]
    exact htree.used t (frames_root _ _ _)
  · intro heq
    exact hji ((slot_inj htree.aligned htree.aligned hj (Nat.lt_of_lt_of_le hi (format.fanout_le _))).mp
      heq).2
  · rw [hpage]
    rintro ⟨hc, hf⟩
    exact (htree.separate.1 i hc).2 hf

/-- The other subtrees are as before. -/
theorem graft_agree {j : Nat} (hj : HasChild format (k + 1) s.mem t j) (hji : j ≠ i) :
    Agree format k s.mem s'.mem (child format s.mem t j) := by
  intro x hx
  refine hmem x (htree.used _ (hx.child hj)) ?_ ?_
  · rintro rfl
    rw [pageOf_slot htree.aligned (Nat.lt_of_lt_of_le hi (format.fanout_le _))] at hx
    exact (htree.separate.1 j hj).2 hx
  · rintro ⟨hc, hf⟩
    exact htree.separate.2 j i hj hc hji _ hx hf

theorem graft_hasChild {j : Nat} (hj : HasChild format (k + 1) s'.mem t j) (hji : j ≠ i) :
    HasChild format (k + 1) s.mem t j ∧ child format s'.mem t j = child format s.mem t j := by
  have hentry := graft_entry htree hi hmem hj.lt hji
  refine ⟨⟨hj.1, ?_⟩, by rw [child, hentry, child]⟩
  rw [← hentry]
  exact hj.2

theorem graft_leaf (hix : InRange format (k + 1) ix) (hne : ix (k + 1) ≠ i) :
    leaf format (k + 1) s'.mem t ix = leaf format (k + 1) s.mem t ix := by
  have hlt := hix (k + 1) le_rfl
  have hentry := graft_entry htree hi hmem (Nat.lt_of_lt_of_le hlt (format.fanout_le _)) hne
  rw [leaf_succ, leaf_succ, child, hentry]
  by_cases hp : format.present (s.mem (slot t (ix (k + 1)))) = true
  · rw [if_pos hp, if_pos hp]
    exact (graft_agree htree hi hmem ⟨hlt, hp⟩ hne).leaf_eq (format.addr_aligned _)
      (fun j hj => hix j (by omega))
  · rw [if_neg hp, if_neg hp]

/-- The directory entries of the whole tree. -/
theorem graft_directories {P : Nat → U64 → Prop} (hdirs : Directories format P (k + 1) s.mem t)
    (hnew : HasChild format (k + 1) s'.mem t i → P (k + 1) (s'.mem (slot t i)) ∧
      Directories format P k s'.mem (child format s'.mem t i)) :
    Directories format P (k + 1) s'.mem t := by
  intro j hj
  by_cases hji : j = i
  · subst hji
    exact hnew hj
  · obtain ⟨hj', hchild⟩ := graft_hasChild htree hi hmem hj hji
    obtain ⟨hP, hsub⟩ := hdirs j hj'
    rw [graft_entry htree hi hmem hj.lt hji, hchild]
    exact ⟨hP, (graft_agree htree hi hmem hj' hji).directories (format.addr_aligned _) hsub⟩

include hkept

/-- **Replacing the subtree below one entry.** -/
theorem graft (hsmall : NoHuge (k + 1) (s'.mem (slot t i)))
    (hsub : Tree k s' (child format s'.mem t i))
    (hframes : ∀ a, Frames format k s'.mem (child format s'.mem t i) a →
      Below k s.mem t i a ∨ ¬ Used s.pmm a) : Extends (k + 1) s s' t := by
  have hroot : Used s.pmm t := htree.used t (frames_root _ _ _)
  -- a table of another subtree is not one of the new subtree
  have hdisj : ∀ j a, HasChild format (k + 1) s.mem t j → j ≠ i →
      Frames format k s.mem (child format s.mem t j) a →
      ¬ Frames format k s'.mem (child format s'.mem t i) a := by
    intro j a hj hji ha ha'
    rcases hframes a ha' with ⟨hc, hf⟩ | hfresh
    · exact htree.separate.2 j i hj hc hji a ha hf
    · exact hfresh (htree.used a (ha.child hj))
  have hother : ∀ {j a}, HasChild format (k + 1) s'.mem t j → j ≠ i →
      Frames format k s'.mem (child format s'.mem t j) a →
      HasChild format (k + 1) s.mem t j ∧ Frames format k s.mem (child format s.mem t j) a := by
    intro j a hj hji ha
    obtain ⟨hj', hchild⟩ := graft_hasChild htree hi hmem hj hji
    rw [hchild] at ha
    exact ⟨hj', ((graft_agree htree hi hmem hj' hji).frames_iff (format.addr_aligned _)).mp ha⟩
  refine ⟨hkept, ?_, ⟨htree.aligned, ⟨?_, ?_⟩,
    graft_directories htree hi hmem htree.small (fun _ => ⟨hsmall, hsub.small⟩), ?_⟩, ?_,
    fun j hlow hj => graft_entry htree hi hmem hj (by omega)⟩
  · intro x hu hout
    refine hmem x hu ?_ (fun hb => hout (hb.2.child hb.1))
    grind [pageOf_slot, Tree.aligned, Format.fanout_le, frames_root]
  · intro j hj
    by_cases hji : j = i
    · subst hji
      refine ⟨hsub.separate, fun hmem' => ?_⟩
      rcases hframes t hmem' with ⟨hc, hf⟩ | hfresh
      · exact (htree.separate.1 j hc).2 hf
      · exact hfresh hroot
    · obtain ⟨hj', hchild⟩ := graft_hasChild htree hi hmem hj hji
      refine ⟨?_, fun hf => (htree.separate.1 j hj').2 (hother hj hji hf).2⟩
      rw [hchild]
      exact (graft_agree htree hi hmem hj' hji).separate (format.addr_aligned _)
        (htree.separate.1 j hj').1
  · intro j j' hj hj' hne a ha ha'
    by_cases hji : j = i
    · subst hji
      obtain ⟨hc, hf⟩ := hother hj' (fun h => hne h.symm) ha'
      exact hdisj j' a hc (fun h => hne h.symm) hf ha
    · obtain ⟨hc, hf⟩ := hother hj hji ha
      by_cases hji' : j' = i
      · subst hji'
        exact hdisj j a hc hji hf ha'
      · obtain ⟨hc', hf'⟩ := hother hj' hji' ha'
        exact htree.separate.2 j j' hc hc' hne a hf hf'
  · rintro a (rfl | ⟨j, hj, ha⟩)
    · exact hkept a htree.aligned hroot
    · by_cases hji : j = i
      · subst hji
        exact hsub.used a ha
      · obtain ⟨hc, hf⟩ := hother hj hji ha
        exact hkept a (hf.aligned (format.addr_aligned _)) (htree.used a (hf.child hc))
  · rintro a (rfl | ⟨j, hj, ha⟩)
    · exact .inl (frames_root _ _ _)
    · by_cases hji : j = i
      · subst hji
        rcases hframes a ha with ⟨hc, hf⟩ | hfresh
        · exact .inl (hf.child hc)
        · exact .inr hfresh
      · obtain ⟨hc, hf⟩ := hother hj hji ha
        exact .inl (hf.child hc)

end graft

/-! ## One level -/

/-- Flags that a new directory entry may be given: neither part of the address nor a large
page. -/
structure DirFlags (flags : U64) : Prop where
  addr : flags &&& pteAddrMask = 0#64
  small : flags &&& pteHuge = 0#64

/-- The flags of a new directory entry of `vmm_map_page` and `vmm_map_user_page`. -/
def tableFlags : U64 := pteWrite ||| pteUser

theorem dirFlags_tableFlags : DirFlags tableFlags := ⟨by decide, by decide⟩

theorem dirFlags_pteWrite : DirFlags pteWrite := ⟨by decide, by decide⟩

variable {d flags : U64}

/-- The entry that hangs up a new table. -/
theorem dirEntry (hflags : DirFlags flags) (hd : d &&& pteAddrMask = d) :
    pteAddr (d ||| flags ||| ptePresent) = d ∧ has (d ||| flags ||| ptePresent) ptePresent = true ∧
      has (d ||| flags ||| ptePresent) pteHuge = false := by
  have hor : ∀ mask, (d ||| flags ||| ptePresent) &&& mask =
      (d &&& mask) ||| (flags &&& mask) ||| (ptePresent &&& mask) := by
    intro mask
    rw [BitVec.and_or_distrib_right, BitVec.and_or_distrib_right]
  have hhuge : d &&& pteHuge = 0#64 := by
    rw [← hd, BitVec.and_assoc, show pteAddrMask &&& pteHuge = 0#64 by decide, BitVec.and_zero]
  refine ⟨?_, has_or_right (by decide) (by decide), ?_⟩
  · rw [pteAddr, hor, hd, hflags.addr, show ptePresent &&& pteAddrMask = 0#64 by decide,
      BitVec.or_zero, BitVec.or_zero]
  · rw [has, hor, hhuge, hflags.small]
    decide

theorem tableEntry (hd : d &&& pteAddrMask = d) : pteAddr (d ||| tableFlags ||| ptePresent) = d ∧
      has (d ||| tableFlags ||| ptePresent) ptePresent = true ∧
      has (d ||| tableFlags ||| ptePresent) pteHuge = false :=
  dirEntry dirFlags_tableFlags hd

/-- What `get_or_alloc_table` can do. -/
inductive TableStep (flags : U64) (s : Vm) (entry : U64) : Vm × Option U64 → Prop
  | there (hp : has (s.mem entry) ptePresent = true) :
      TableStep flags s entry (s, some (pteAddr (s.mem entry)))
  | noFrame (pmm' : PmmState) (hp : has (s.mem entry) ptePresent = false)
      (hnone : (pmmAllocFrame s.pmm).2 = 0#64) (hkeep : ∀ p, Used s.pmm p → Used pmm' p) :
      TableStep flags s entry (⟨pmm', s.mem⟩, none)
  | made (pmm' : PmmState) (d : U64) (hp : has (s.mem entry) ptePresent = false)
      (hsome : (pmmAllocFrame s.pmm).2 ≠ 0#64) (haligned : PageAligned d)
      (hmask : d &&& pteAddrMask = d) (hfresh : ¬ Used s.pmm d)
      (hused : ∀ p, PageAligned p → (Used pmm' p ↔ Used s.pmm p ∨ p = d)) :
      TableStep flags s entry
        (⟨pmm', update (fillZero s.mem d 4096) entry (d ||| flags ||| ptePresent)⟩, some d)

theorem getOrAllocTable_step (hflags : DirFlags flags) (s : Vm) (entry : U64) :
    TableStep flags s entry (getOrAllocTable s entry flags) := by
  unfold getOrAllocTable
  by_cases hp : has (s.mem entry) ptePresent = true
  · rw [hp, Bool.not_true, if_neg (by decide)]
    exact .there hp
  · rw [Bool.not_eq_true] at hp
    rw [hp, Bool.not_false, if_pos rfl]
    dsimp only
    have halloc := pmmAllocFrame_result s.pmm
    generalize hres : pmmAllocFrame s.pmm = res at halloc
    cases halloc with
    | none pmm' hkeep =>
      rw [if_pos rfl]
      exact .noFrame pmm' hp (by rw [hres]) hkeep
    | frame pmm' d hne haligned hmask hfresh hused =>
      rw [if_neg hne, update_self, (dirEntry hflags hmask).1]
      exact .made pmm' d hp (by rw [hres]; exact hne) haligned hmask hfresh hused

/-- It with the flags of a user table. -/
abbrev TableResult (s : Vm) (entry : U64) : Vm × Option U64 → Prop := TableStep tableFlags s entry

theorem getOrAllocTable_result (s : Vm) (entry : U64) :
    TableResult s entry (getOrAllocTable s entry tableFlags) :=
  getOrAllocTable_step dirFlags_tableFlags s entry

theorem blank_made (m : Memory) {k : Nat} {entry v : U64} (hd : PageAligned d) (hne : pageOf entry ≠ d) :
    Blank format k (update (fillZero m d 4096) entry v) d := by
  intro j hj
  grind [pageOf_slot, Format.fanout_le, fillZero_page]

/-- What `get_or_alloc_table` does to entry `i` of the root: there is a table
below it afterwards, or the PMM had no frame, and no leaf changes. -/
structure GotTable (k : Nat) (s : Vm) (t : U64) (i : Nat) (r : Vm × Option U64) : Prop where
  grown : Extends (k + 1) s r.1 t
  leaves : ∀ ix, InRange format (k + 1) ix →
    leaf format (k + 1) r.1.mem t ix = leaf format (k + 1) s.mem t ix
  table : ∀ c, r.2 = some c → HasChild format (k + 1) r.1.mem t i ∧ c = child format r.1.mem t i

theorem Extends.of_pmm {pmm' : PmmState} (htree : Tree k s t)
    (hkeep : ∀ p, Used s.pmm p → Used pmm' p) : Extends k s { s with pmm := pmm' } t where
  kept p _ hu := hkeep p hu
  mem _ _ _ := rfl
  tree := htree.congr (fun p _ hu => hkeep p hu) (Agree.refl _ _ _ _)
  frames _ ha := .inl ha
  beyond _ _ _ := rfl

/-- A new table below entry `i` of the root: only the entry and the new table are written. -/
theorem made_mem {e x : U64} (haligned : PageAligned d)
    (hfresh : ¬ Used s.pmm d) (hu : Used s.pmm (pageOf x)) (hx : x ≠ slot t i) :
    update (fillZero s.mem d 4096) (slot t i) e x = s.mem x := by
  rw [update_of_ne hx, fillZero_page s.mem haligned, if_neg]
  rintro rfl
  exact hfresh hu

theorem getOrAllocTable_got (hflags : DirFlags flags) (htree : Tree (k + 1) s t)
    (hi : i < format.fanout (k + 1)) : GotTable k s t i (getOrAllocTable s (slot t i) flags) := by
  have hlt : i < 512 := Nat.lt_of_lt_of_le hi (format.fanout_le _)
  have hres := getOrAllocTable_step hflags s (slot t i)
  generalize getOrAllocTable s (slot t i) flags = r at hres
  cases hres with
  | there hp =>
    refine ⟨Extends.of_pmm htree (fun _ hu => hu), fun _ _ => rfl, ?_⟩
    rintro c ⟨⟩
    exact ⟨⟨hi, hp⟩, rfl⟩
  | noFrame pmm' hp hnone hkeep =>
    exact ⟨Extends.of_pmm htree hkeep, fun _ _ => rfl, by nofun⟩
  | made pmm' d hp hsome haligned hmask hfresh hused =>
    have hnone : ¬ HasChild format (k + 1) s.mem t i := by
      rintro ⟨-, hpresent⟩
      have hpresent' : has (s.mem (slot t i)) ptePresent = true := hpresent
      rw [hp] at hpresent'
      cases hpresent'
    obtain ⟨haddr, hpresent, hhuge⟩ := dirEntry hflags hmask
    have htd : pageOf (slot t i) ≠ d := by
      rw [pageOf_slot htree.aligned hlt]
      exact fun h => hfresh (h ▸ htree.used t (frames_root _ _ _))
    -- the new table is blank and hangs under entry i; nothing else changes
    have hentry : update (fillZero s.mem d 4096) (slot t i)
        (d ||| flags ||| ptePresent) (slot t i) = d ||| flags ||| ptePresent :=
      update_self _ _ _
    have hblank := blank_made s.mem (k := k) (v := d ||| flags ||| ptePresent) haligned htd
    have hmem : ∀ x, Used s.pmm (pageOf x) → x ≠ slot t i → ¬ Below k s.mem t i (pageOf x) →
        update (fillZero s.mem d 4096) (slot t i)
          (d ||| flags ||| ptePresent) x = s.mem x :=
      fun x hu hx _ => made_mem haligned hfresh hu hx
    generalize update (fillZero s.mem d 4096) (slot t i)
      (d ||| flags ||| ptePresent) = m at hentry hblank hmem
    have hchild : child format m t i = d := by
      rw [child, hentry]
      exact haddr
    have hkept : ∀ p, PageAligned p → Used s.pmm p → Used pmm' p :=
      fun p hp hu => (hused p hp).mpr (.inl hu)
    have hzero : format.present 0#64 = false := by decide
    have hsub : Tree k { pmm := pmm', mem := m } d :=
      ⟨haligned, hblank.separate hzero, hblank.directories hzero _, fun a ha => by
        rw [hblank.frames_iff hzero] at ha
        exact ha ▸ (hused d haligned).mpr (.inr rfl)⟩
    have hhas : HasChild format (k + 1) m t i := ⟨hi, by rw [hentry]; exact hpresent⟩
    refine ⟨graft htree hi hkept hmem ?_ ?_ ?_, ?_, ?_⟩
    · intro _
      dsimp only
      rw [hentry, hhuge]
    · dsimp only
      rw [hchild]
      exact hsub
    · dsimp only
      rw [hchild]
      intro a ha
      rw [hblank.frames_iff hzero] at ha
      exact .inr (ha ▸ hfresh)
    · intro ix hix
      by_cases hsame : ix (k + 1) = i
      · dsimp only
        rw [leaf_succ, leaf_succ, hsame, if_pos hhas.2, hchild, if_neg (fun h => hnone ⟨hi, h⟩)]
        exact hblank.leaf_eq hzero (fun j hj => hix j (by omega))
      · exact graft_leaf htree hi hmem hix hsame
    · rintro c ⟨⟩
      exact ⟨hhas, hchild.symm⟩

theorem getOrAllocTable_spec (htree : Tree (k + 1) s t) (hi : i < format.fanout (k + 1)) :
    GotTable k s t i (getOrAllocTable s (slot t i) tableFlags) :=
  getOrAllocTable_got dirFlags_tableFlags htree hi

/-! ## The whole path -/

/-- `vmm_map_user_page` by the levels it descends. -/
def mapPath (e : U64) : Nat → Vm → U64 → (Nat → Nat) → Vm × Int
  | 0, s, t, ix => (s.write (slot t (ix 0)) e, 0)
  | k + 1, s, t, ix =>
    match getOrAllocTable s (slot t (ix (k + 1))) tableFlags with
    | (s, none) => (s, -1)
    | (s, some c) => mapPath e k s c ix

/-- The same for any flags of new directory entries. -/
def mapPathWith (flags e : U64) : Nat → Vm → U64 → (Nat → Nat) → Vm × Int
  | 0, s, t, ix => (s.write (slot t (ix 0)) e, 0)
  | k + 1, s, t, ix =>
    match getOrAllocTable s (slot t (ix (k + 1))) flags with
    | (s, none) => (s, -1)
    | (s, some c) => mapPathWith flags e k s c ix

theorem mapPathWith_tableFlags (e : U64) (k : Nat) (s : Vm) (t : U64) (ix : Nat → Nat) :
    mapPathWith tableFlags e k s t ix = mapPath e k s t ix := by
  induction k generalizing s t with
  | zero => rfl
  | succ k ih =>
    rw [mapPathWith, mapPath]
    split
    · rfl
    · exact ih _ _

/-- The entry a page is mapped by. -/
def leafEntry (phys flags : U64) : U64 := (phys &&& pteAddrMask) ||| flags ||| ptePresent

theorem has_leafEntry (phys flags : U64) : has (leafEntry phys flags) ptePresent = true :=
  has_or_right (by decide) (by decide)

theorem vmmMapUserPage_eq (s : Vm) (pml4 virt phys flags : U64) :
    vmmMapUserPage s pml4 virt phys flags =
      mapPath (leafEntry phys flags) 3 s pml4 (vaIndex virt) := rfl

/-- What happens below an entry happens to the whole tree. -/
theorem Extends.below (htree : Tree (k + 1) s t) (hi : HasChild format (k + 1) s.mem t i)
    (h : Extends k s s' (child format s.mem t i)) :
    Extends (k + 1) s s' t ∧ s'.mem (slot t i) = s.mem (slot t i) ∧
      child format s'.mem t i = child format s.mem t i ∧
      ∀ ix, InRange format (k + 1) ix → ix (k + 1) ≠ i →
        leaf format (k + 1) s'.mem t ix = leaf format (k + 1) s.mem t ix := by
  have hentry : s'.mem (slot t i) = s.mem (slot t i) := by
    refine h.mem _ ?_ ?_ <;> rw [pageOf_slot htree.aligned hi.lt]
    · exact htree.used t (frames_root _ _ _)
    · exact (htree.separate.1 i hi).2
  have hchild : child format s'.mem t i = child format s.mem t i := by rw [child, hentry, child]
  have hmem : ∀ x, Used s.pmm (pageOf x) → x ≠ slot t i → ¬ Below k s.mem t i (pageOf x) →
      s'.mem x = s.mem x :=
    fun x hu _ hb => h.mem x hu (fun hf => hb ⟨hi, hf⟩)
  refine ⟨graft htree hi.1 h.kept hmem ?_ ?_ ?_, hentry, hchild, fun ix hix hne =>
    graft_leaf htree hi.1 hmem hix hne⟩
  · rw [hentry]
    exact (htree.small i hi).1
  · rw [hchild]
    exact h.tree
  · rw [hchild]
    exact fun a ha => (h.frames a ha).imp_left (fun hf => ⟨hi, hf⟩)

/-- **Mapping a page** grows the tree, and changes the leaf of its own path, if
it succeeds, and no other. -/
theorem mapPathWith_spec (hflags : DirFlags flags) (e : U64) (htree : Tree k s t)
    (hix : InRange format k ix) : Extends k s (mapPathWith flags e k s t ix).1 t ∧
      ∀ ix', InRange format k ix' → leaf format k (mapPathWith flags e k s t ix).1.mem t ix' =
        if (mapPathWith flags e k s t ix).2 = 0 ∧ ∀ j ≤ k, ix' j = ix j then e
        else leaf format k s.mem t ix' := by
  induction k generalizing s t with
  | zero =>
    have hlt : ix 0 < 512 := Nat.lt_of_lt_of_le (hix 0 le_rfl) (format.fanout_le 0)
    refine ⟨⟨fun _ _ hu => hu, ?_, ⟨htree.aligned, trivial, trivial, htree.used⟩,
      fun _ ha => .inl ha, fun j hlow hj => absurd hj (Nat.not_lt.mpr hlow)⟩, ?_⟩
    · intro x _ hout
      refine update_of_ne ?_ _ _
      rintro rfl
      rw [pageOf_slot htree.aligned hlt] at hout
      exact hout rfl
    · intro ix' hix'
      have hlt' : ix' 0 < 512 := Nat.lt_of_lt_of_le (hix' 0 le_rfl) (format.fanout_le 0)
      rw [leaf_zero, leaf_zero]
      show update s.mem (slot t (ix 0)) e (slot t (ix' 0)) = _
      by_cases hsame : ix' 0 = ix 0
      · rw [if_pos ⟨rfl, fun j hj => by obtain rfl : j = 0 := by omega
                                        exact hsame⟩, hsame, update_self]
      · rw [if_neg (fun h => hsame (h.2 0 le_rfl)), update_of_ne]
        exact fun heq => hsame ((slot_inj htree.aligned htree.aligned hlt' hlt).mp heq).2
  | succ k ih =>
    have hgot := getOrAllocTable_got hflags htree (hix (k + 1) le_rfl)
    rw [mapPathWith]
    generalize getOrAllocTable s (slot t (ix (k + 1))) flags = r at hgot
    obtain ⟨s₁, c⟩ := r
    obtain ⟨hgrown₁, hleaves, htable⟩ := hgot
    dsimp only at hgrown₁ hleaves htable ⊢
    cases c with
    | none =>
      refine ⟨hgrown₁, fun ix' hix' => ?_⟩
      rw [if_neg (fun h => by cases h.1)]
      exact hleaves ix' hix'
    | some c =>
      obtain ⟨hi, rfl⟩ := htable c rfl
      have hix₀ : InRange format k ix := fun j hj => hix j (by omega)
      obtain ⟨hgrown, hleaf⟩ := ih (hgrown₁.tree.child hi) hix₀
      obtain ⟨hext, hentry, hchild, hother⟩ := hgrown.below hgrown₁.tree hi
      refine ⟨hgrown₁.trans hext, fun ix' hix' => ?_⟩
      by_cases hsame : ix' (k + 1) = ix (k + 1)
      · have hpath : (∀ j ≤ k + 1, ix' j = ix j) ↔ ∀ j ≤ k, ix' j = ix j := by
          grind
        have hbefore := hleaves ix' hix'
        rw [leaf_succ, hsame, if_pos hi.2] at hbefore
        rw [leaf_succ, hsame, hentry, if_pos hi.2, hchild,
          hleaf ix' (fun j hj => hix' j (by omega)), hbefore]
        exact if_congr (and_congr_right (fun _ => hpath.symm)) rfl rfl
      · rw [if_neg (fun h => hsame (h.2 (k + 1) le_rfl))]
        exact (hother ix' hix' hsame).trans (hleaves ix' hix')

theorem mapPath_spec (e : U64) (htree : Tree k s t) (hix : InRange format k ix) :
    Extends k s (mapPath e k s t ix).1 t ∧
      ∀ ix', InRange format k ix' → leaf format k (mapPath e k s t ix).1.mem t ix' =
        if (mapPath e k s t ix).2 = 0 ∧ ∀ j ≤ k, ix' j = ix j then e
        else leaf format k s.mem t ix' := by
  rw [← mapPathWith_tableFlags]
  exact mapPathWith_spec dirFlags_tableFlags e htree hix

section directories

variable {P : Nat → U64 → Prop}

/-- What happens below an entry, and the directory entries of the whole tree. -/
theorem Extends.directories_below (htree : Tree (k + 1) s t) (hi : HasChild format (k + 1) s.mem t i)
    (h : Extends k s s' (child format s.mem t i)) (hdirs : Directories format P (k + 1) s.mem t)
    (hsub : Directories format P k s'.mem (child format s.mem t i)) :
    Directories format P (k + 1) s'.mem t := by
  obtain ⟨-, hentry, hchild, -⟩ := h.below htree hi
  refine graft_directories htree hi.1 (fun x hu _ hb => h.mem x hu (fun hf => hb ⟨hi, hf⟩)) hdirs
    (fun _ => ?_)
  rw [hentry, hchild]
  exact ⟨(hdirs i hi).1, hsub⟩

section

variable (hnew : ∀ k d, d &&& pteAddrMask = d → P k (d ||| tableFlags ||| ptePresent))
include hnew

/-- A new table hangs under an entry like every new table. -/
theorem getOrAllocTable_directories
    (htree : Tree (k + 1) s t) (hi : i < format.fanout (k + 1))
    (hdirs : Directories format P (k + 1) s.mem t) :
    Directories format P (k + 1) (getOrAllocTable s (slot t i) tableFlags).1.mem t := by
  have hres := getOrAllocTable_result s (slot t i)
  generalize getOrAllocTable s (slot t i) tableFlags = r at hres
  cases hres with
  | there => exact hdirs
  | noFrame => exact hdirs
  | made pmm' d hp hsome haligned hmask hfresh hused =>
    have htd : pageOf (slot t i) ≠ d := by
      grind [pageOf_slot, Tree.aligned, Format.fanout_le, Tree.used, frames_root]
    have hblank := blank_made s.mem (k := k) (v := d ||| tableFlags ||| ptePresent) haligned htd
    refine graft_directories htree hi
      (fun x hu hx _ => made_mem haligned hfresh hu hx) hdirs (fun _ => ⟨?_, ?_⟩)
    · dsimp only
      rw [update_self]
      exact hnew (k + 1) d hmask
    · dsimp only
      rw [child, update_self]
      show Directories format P k _ (pteAddr (d ||| tableFlags ||| ptePresent))
      rw [(tableEntry hmask).1]
      exact hblank.directories (by decide) P

/-- **Mapping a page keeps a property of directory entries** that new ones have. -/
theorem mapPath_directories
    (e : U64) (htree : Tree k s t) (hix : InRange format k ix) (hdirs : Directories format P k s.mem t) :
    Directories format P k (mapPath e k s t ix).1.mem t := by
  induction k generalizing s t with
  | zero => trivial
  | succ k ih =>
    have hgot := getOrAllocTable_spec htree (hix (k + 1) le_rfl)
    have hdirs₁ := getOrAllocTable_directories hnew htree (hix (k + 1) le_rfl) hdirs
    rw [mapPath]
    generalize getOrAllocTable s (slot t (ix (k + 1))) tableFlags = r at hgot hdirs₁
    obtain ⟨s₁, c⟩ := r
    obtain ⟨hgrown₁, -, htable⟩ := hgot
    dsimp only at hgrown₁ htable hdirs₁ ⊢
    cases c with
    | none => exact hdirs₁
    | some c =>
      obtain ⟨hi, rfl⟩ := htable c rfl
      have hix₀ : InRange format k ix := fun j hj => hix j (by omega)
      have hsub := hgrown₁.tree.child hi
      exact (mapPath_spec e hsub hix₀).1.directories_below hgrown₁.tree hi hdirs₁
        (ih hsub hix₀ (hdirs₁ _ hi).2)

end

end directories

theorem mapPath_result (e : U64) (k : Nat) (s : Vm) (t : U64) (ix : Nat → Nat) :
    (mapPath e k s t ix).2 = 0 ∨ (mapPath e k s t ix).2 = -1 := by
  induction k generalizing s t with
  | zero => exact .inl rfl
  | succ k ih =>
    rw [mapPath]
    split
    · exact .inr rfl
    · exact ih _ _

end Vmm
