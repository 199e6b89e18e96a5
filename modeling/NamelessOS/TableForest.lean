import Mathlib.Data.List.Pairwise
import NamelessOS.VmmFork
import NamelessOS.VmmMap

/-!
# The tables of all address spaces

The address spaces that are alive form a forest: each is a tree of tables in
frames of their own, and no table belongs to two of them.  Everything the
kernel does to page tables keeps the forest: leaf entries change, a tree grows
into free frames, a tree is added, a tree is taken away.
-/

namespace Vmm

open Pmm WordMemory PageTree List

/-- `a` is a table of one of the processes. -/
def Table (m : Memory) (procs : List U64) (a : U64) : Prop := ∃ r ∈ procs, Frames format 3 m r a

/-- **Trees that share no table.** -/
structure Forest (s : Vm) (procs : List U64) : Prop where
  tree : ∀ r ∈ procs, Tree 3 s r
  apart : procs.Pairwise (fun r r' =>
    ∀ a, Frames format 3 s.mem r a → ¬ Frames format 3 s.mem r' a)

variable {s s' : Vm} {procs : List U64} {r r' d src : U64}

section

variable (h : Forest s procs)
include h

/-- A table belongs to one process. -/
theorem Forest.root_unique (hr : r ∈ procs) (hr' : r' ∈ procs) {a : U64}
    (ha : Frames format 3 s.mem r a) (ha' : Frames format 3 s.mem r' a) : r = r' := by
  by_contra hne
  have hsymm : Std.Symm (fun r r' : U64 =>
      ∀ a, Frames format 3 s.mem r a → ¬ Frames format 3 s.mem r' a) :=
    ⟨fun _ _ hrr a ha ha' => hrr a ha' ha⟩
  exact h.apart.forall hr hr' hne a ha ha'

theorem Forest.table_used {a : U64} (ha : Table s.mem procs a) : Used s.pmm a := by
  obtain ⟨r, hr, ha⟩ := ha
  exact (h.tree r hr).used a ha

theorem Forest.table_aligned {a : U64} (ha : Table s.mem procs a) : PageAligned a := by
  obtain ⟨r, hr, ha⟩ := ha
  exact ha.aligned (h.tree r hr).aligned

theorem Forest.nodup : procs.Nodup := by
  refine h.apart.imp (fun hrr heq => ?_)
  exact hrr _ (frames_root _ _ _) (heq ▸ frames_root _ _ _)

end

/-! ## Changes confined to leaf entries -/

/-- The only tables that differ are leaf tables. -/
def LeavesOnly (s s' : Vm) (procs : List U64) : Prop :=
  ∀ x, Table s.mem procs (pageOf x) → (∀ r ∈ procs, ¬ LeafTable format 3 s.mem r (pageOf x)) →
    s'.mem x = s.mem x

section
variable (h : Forest s procs) (hleaves : LeavesOnly s s' procs)
include h hleaves

theorem Forest.rewritten (hr : r ∈ procs) :
    Rewritten format (fun _ _ => True) 3 s.mem s'.mem r := by
  refine Rewritten.of_leaves (h.tree r hr).aligned (h.tree r hr).separate ?_
    (fun _ _ _ _ => trivial)
  intro x hx hnot
  refine hleaves x ⟨r, hr, hx⟩ ?_
  intro r' hr' hleaf
  obtain rfl := h.root_unique hr hr' hx hleaf.frames
  exact hnot hleaf

theorem Forest.table_iff {a : U64} : Table s'.mem procs a ↔ Table s.mem procs a :=
  exists_congr (fun _ => and_congr_right (fun hr => (h.rewritten hleaves hr).frames_iff))

theorem Forest.update (hkept : ∀ p, PageAligned p → Used s.pmm p → Used s'.pmm p) :
    Forest s' procs where
  tree r hr := by
    have hrew := h.rewritten hleaves hr
    have htree := h.tree r hr
    refine ⟨htree.aligned, hrew.separate htree.separate, hrew.directories htree.small, ?_⟩
    intro a ha
    have ha' := hrew.frames_iff.mp ha
    exact hkept a (ha'.aligned htree.aligned) (htree.used a ha')
  apart := by
    refine h.apart.imp_of_mem ?_
    intro r r' hr hr' hrr a ha ha'
    exact hrr a ((h.rewritten hleaves hr).frames_iff.mp ha)
      ((h.rewritten hleaves hr').frames_iff.mp ha')

end

/-! ## A fork -/

theorem Forest.forked_leaves (h : Forest s procs) (hsrc : src ∈ procs)
    (htouch : Touches 3 s s' src) : LeavesOnly s s' procs := by
  intro x hx hnot
  rcases htouch.mem x (h.table_used hx) with hsame | ⟨hleaf, -⟩
  · exact hsame
  · exact absurd hleaf (hnot src hsrc)

/-- A tree in other tables joins. -/
theorem Forest.add (h : Forest s procs) (hd : Tree 3 s d)
    (hnew : ∀ a, Frames format 3 s.mem d a → ¬ Table s.mem procs a) : Forest s (procs ++ [d]) where
  tree r hr := by
    rcases mem_append.mp hr with hr | hr
    · exact h.tree r hr
    · obtain rfl := mem_singleton.mp hr
      exact hd
  apart := by
    refine pairwise_append.mpr ⟨h.apart, pairwise_singleton _ _, ?_⟩
    intro r hr r' hr' a ha ha'
    obtain rfl := mem_singleton.mp hr'
    exact hnew a ha' ⟨r, hr, ha⟩

theorem Cloned.tree (hcloned : Cloned 3 s s' src d) (hsrc : Tree 3 s src) (hd : PageAligned d) :
    Tree 3 s' d where
  aligned := hd
  separate := hcloned.separate
  small := hcloned.mirrors.directories
    (fun k e e' hflags hsmall hk => (has_of_flags (by decide) hflags).trans (hsmall hk)) hsrc.small
  used a ha := (hcloned.fresh a ha).2

section

variable (h : Forest s procs)
include h

theorem Forest.forked (hsrc : src ∈ procs) (htouch : Touches 3 s s' src)
    (hcloned : Cloned 3 s s' src d) (hd : PageAligned d) : Forest s' (procs ++ [d]) := by
  have hleaves := h.forked_leaves hsrc htouch
  refine (h.update hleaves htouch.kept).add (hcloned.tree (h.tree src hsrc) hd) ?_
  intro a ha htable
  exact (hcloned.fresh a ha).1 (h.table_used ((h.table_iff hleaves).mp htable))

/-! ## Other changes -/

/-- What leaves the tables alone leaves the forest. -/
theorem Forest.congr (s' : Vm) (hused : ∀ a, Table s.mem procs a → Used s'.pmm a)
    (hmem : ∀ x, Table s.mem procs (pageOf x) → s'.mem x = s.mem x) :
    Forest s' procs ∧ ∀ a, Table s'.mem procs a ↔ Table s.mem procs a := by
  have hagree : ∀ r ∈ procs, Agree format 3 s.mem s'.mem r := fun r hr x hx => hmem x ⟨r, hr, hx⟩
  have hframes : ∀ r ∈ procs, ∀ a, Frames format 3 s'.mem r a ↔ Frames format 3 s.mem r a :=
    fun r hr a => (hagree r hr).frames_iff (h.tree r hr).aligned
  refine ⟨⟨fun r hr => ?_, ?_⟩, fun a => exists_congr (fun r => and_congr_right (fun hr =>
    hframes r hr a))⟩
  · have htree := h.tree r hr
    refine ⟨htree.aligned, (hagree r hr).separate htree.aligned htree.separate,
      (hagree r hr).directories htree.aligned htree.small, fun a ha => ?_⟩
    exact hused a ⟨r, hr, (hframes r hr a).mp ha⟩
  · grind [List.Pairwise.imp_of_mem, apart]

/-- A mapping: one tree grows, the others stay. -/
theorem Forest.grown (hr : r ∈ procs) (hext : Extends 3 s s' r) :
    Forest s' procs ∧ ∀ a, Table s'.mem procs a → Table s.mem procs a ∨ ¬ Used s.pmm a := by
  have hagree : ∀ r' ∈ procs, r' ≠ r → Agree format 3 s.mem s'.mem r' := fun r' hr' hne =>
    hext.agree (h.tree r' hr') (fun a ha ha' => hne (h.root_unique hr' hr ha ha'))
  have hframes : ∀ r' ∈ procs, ∀ a, Frames format 3 s'.mem r' a →
      Frames format 3 s.mem r' a ∨ ¬ Used s.pmm a := by
    intro r' hr' a ha
    by_cases hne : r' = r
    · subst hne
      exact hext.frames a ha
    · exact .inl (((hagree r' hr' hne).frames_iff (h.tree r' hr').aligned).mp ha)
  have holds : ∀ r₁ ∈ procs, ∀ r₂ ∈ procs, r₁ ≠ r₂ → r₁ ≠ r →
      ∀ a, Frames format 3 s'.mem r₁ a → ¬ Frames format 3 s'.mem r₂ a := by
    intro r₁ h₁ r₂ h₂ hne hold a ha ha'
    have ha := ((hagree r₁ h₁ hold).frames_iff (h.tree r₁ h₁).aligned).mp ha
    rcases hframes r₂ h₂ a ha' with ha' | hfresh
    · exact hne (h.root_unique h₁ h₂ ha ha')
    · exact hfresh ((h.tree r₁ h₁).used a ha)
  refine ⟨⟨fun r' hr' => ?_, ?_⟩, ?_⟩
  · by_cases hne : r' = r
    · subst hne
      exact hext.tree
    · exact (h.tree r' hr').congr hext.kept (hagree r' hr' hne)
  · refine h.nodup.imp_of_mem ?_
    grind
  · rintro a ⟨r', hr', ha⟩
    exact (hframes r' hr' a ha).imp_left (fun ha => ⟨r', hr', ha⟩)

/-- A new PML4 with an empty user half in a fresh frame. -/
theorem Forest.created (hprep : Prepared s s' d)
    (hblank : Blank format 3 s'.mem d) : Forest s' (procs ++ [d]) := by
  have hzero : format.present 0#64 = false := by decide
  have hold := h.congr s' (fun a ha => (hprep.used a (h.table_aligned ha)).mpr (.inl (h.table_used ha)))
    (fun x hx => hprep.mem x (fun heq => hprep.fresh (heq ▸ h.table_used hx)))
  refine hold.1.add ⟨hprep.aligned, hblank.separate hzero, hblank.directories hzero _, ?_⟩ ?_
  · intro a ha
    rw [hblank.frames_iff hzero] at ha
    exact (ha ▸ (hprep.used d hprep.aligned).mpr (.inr rfl))
  · intro a ha htable
    rw [hblank.frames_iff hzero] at ha
    exact hprep.fresh (ha ▸ h.table_used ((hold.2 a).mp htable))

end

end Vmm
