import NamelessOS.WordMemory

/-!
# Radix trees of page-sized tables

A table is a page of words; an entry of a table above level 0 is absent or
points to a table one level down.  `Format` says how entries are read, so the
results hold for any page-table layout.  The frames of a tree, the walk along
a path of indices, and what memory a tree depends on are defined by recursion
on the level; two trees can be compared entry by entry (`Mirrors`), and one
tree before and after its leaf entries were rewritten (`Rewritten`).
-/

namespace PageTree

open WordMemory List

/-- How entries encode presence, the next table and everything else. -/
structure Format where
  present : U64 → Bool
  addr : U64 → U64
  flags : U64 → U64
  fanout : Nat → Nat
  addr_aligned : ∀ e, PageAligned (addr e)
  present_flags : ∀ e e', flags e = flags e' → present e = present e'
  fanout_le : ∀ k, fanout k ≤ 512

/-- The address of entry `i` of the table at `t`. -/
def slot (t : U64) (i : Nat) : U64 := cell t (8 * i)

variable {i : Nat}

theorem pageOf_slot {t : U64} (ht : PageAligned t) (hi : i < 512) : pageOf (slot t i) = t :=
  pageOf_cell ht (by omega)

theorem slot_inj {t t' : U64} (ht : PageAligned t) (ht' : PageAligned t') {i' : Nat}
    (hi : i < 512) (hi' : i' < 512) : slot t i = slot t' i' ↔ t = t' ∧ i = i' := by
  unfold slot
  grind [cell_inj]

variable (F : Format)

/-- The table below entry `i`. -/
def child (m : Memory) (t : U64) (i : Nat) : U64 := F.addr (m (slot t i))

/-- Entry `i` points to a table. -/
def HasChild (k : Nat) (m : Memory) (t : U64) (i : Nat) : Prop :=
  i < F.fanout k ∧ F.present (m (slot t i)) = true

/-- The tables of a tree of level `k`. -/
def Frames : Nat → Memory → U64 → U64 → Prop
  | 0, _, t, a => a = t
  | k + 1, m, t, a => a = t ∨ ∃ i, HasChild F (k + 1) m t i ∧ Frames k m (child F m t i) a

/-- Its tables of level 0. -/
def LeafTable : Nat → Memory → U64 → U64 → Prop
  | 0, _, t, a => a = t
  | k + 1, m, t, a => ∃ i, HasChild F (k + 1) m t i ∧ LeafTable k m (child F m t i) a

/-- No table occurs twice in the tree. -/
def Separate : Nat → Memory → U64 → Prop
  | 0, _, _ => True
  | k + 1, m, t =>
    (∀ i, HasChild F (k + 1) m t i →
      Separate k m (child F m t i) ∧ ¬ Frames F k m (child F m t i) t) ∧
    ∀ i j, HasChild F (k + 1) m t i → HasChild F (k + 1) m t j → i ≠ j →
      ∀ a, Frames F k m (child F m t i) a → ¬ Frames F k m (child F m t j) a

/-- Every entry that points to a table satisfies `P` at its level. -/
def Directories (P : Nat → U64 → Prop) : Nat → Memory → U64 → Prop
  | 0, _, _ => True
  | k + 1, m, t => ∀ i, HasChild F (k + 1) m t i →
      P (k + 1) (m (slot t i)) ∧ Directories P k m (child F m t i)

/-- The walk along the indices `ix k, …, ix 0`: the entries passed above the
leaf and the address of the leaf entry. -/
def walk : Nat → Memory → U64 → (Nat → Nat) → Option (List U64 × U64)
  | 0, _, t, ix => some ([], slot t (ix 0))
  | k + 1, m, t, ix =>
    if F.present (m (slot t (ix (k + 1)))) then
      (walk k m (child F m t (ix (k + 1))) ix).map
        (fun r => (m (slot t (ix (k + 1))) :: r.1, r.2))
    else none

/-- The leaf entry at the end of a walk; 0 where a table is missing. -/
def leaf (k : Nat) (m : Memory) (t : U64) (ix : Nat → Nat) : U64 :=
  match walk F k m t ix with
  | none => 0#64
  | some (_, a) => m a

/-- The indices of a path stay inside the tables. -/
def InRange (k : Nat) (ix : Nat → Nat) : Prop := ∀ j ≤ k, ix j < F.fanout j

variable {F} {k : Nat} {m m' : Memory} {t a : U64} {ix ix' : Nat → Nat}

theorem HasChild.lt (h : HasChild F k m t i) : i < 512 := Nat.lt_of_lt_of_le h.1 (F.fanout_le k)

theorem frames_root (k : Nat) (m : Memory) (t : U64) : Frames F k m t t := by
  cases k with
  | zero => rfl
  | succ k => exact .inl rfl

theorem Frames.child (hi : HasChild F (k + 1) m t i)
    (ha : Frames F k m (PageTree.child F m t i) a) : Frames F (k + 1) m t a :=
  .inr ⟨i, hi, ha⟩

theorem LeafTable.frames (h : LeafTable F k m t a) : Frames F k m t a := by
  induction k generalizing t with
  | zero => exact h
  | succ k ih =>
    obtain ⟨i, hi, ha⟩ := h
    exact (ih ha).child hi

/-- Tables are page-aligned if the root is. -/
theorem Frames.aligned (ht : PageAligned t) (h : Frames F k m t a) : PageAligned a := by
  induction k generalizing t with
  | zero =>
    cases h
    exact ht
  | succ k ih =>
    rcases h with rfl | ⟨i, -, ha⟩
    · exact ht
    · exact ih (F.addr_aligned _) ha

/-- A directory is not one of its own leaf tables. -/
theorem Separate.root_not_leafTable (hs : Separate F (k + 1) m t) :
    ¬ LeafTable F (k + 1) m t t := by
  rintro ⟨i, hi, hleaf⟩
  exact (hs.1 i hi).2 hleaf.frames

/-- A table below one entry is a leaf table of the tree only if it is one
below that entry. -/
theorem Separate.leafTable_child (hs : Separate F (k + 1) m t)
    (hi : HasChild F (k + 1) m t i) (ha : Frames F k m (PageTree.child F m t i) a)
    (hleaf : LeafTable F (k + 1) m t a) : LeafTable F k m (PageTree.child F m t i) a := by
  obtain ⟨j, hj, hleaf⟩ := hleaf
  by_cases hij : i = j
  · subst hij
    exact hleaf
  · exact absurd hleaf.frames (hs.2 i j hi hj hij a ha)

/-! ## Locality -/

/-- The two memories agree on the tables of the tree. -/
def Agree (F : Format) (k : Nat) (m m' : Memory) (t : U64) : Prop :=
  ∀ x, Frames F k m t (pageOf x) → m' x = m x

theorem Agree.entry (h : Agree F k m m' t) (ht : PageAligned t) (hi : i < 512) :
    m' (slot t i) = m (slot t i) := by
  refine h _ ?_
  rw [pageOf_slot ht hi]
  exact frames_root k m t

section

variable (h : Agree F (k + 1) m m' t)
include h

theorem Agree.child (hi : HasChild F (k + 1) m t i) : Agree F k m m' (PageTree.child F m t i) :=
  fun x hx => h x (hx.child hi)

theorem Agree.child_eq (ht : PageAligned t) (hi : i < 512) :
    PageTree.child F m' t i = PageTree.child F m t i := by
  unfold PageTree.child
  rw [h.entry ht hi]

theorem Agree.hasChild_iff (ht : PageAligned t) :
    HasChild F (k + 1) m' t i ↔ HasChild F (k + 1) m t i := by
  constructor <;> rintro ⟨hlt, hp⟩ <;> refine ⟨hlt, ?_⟩ <;>
    have hentry := h.entry ht (Nat.lt_of_lt_of_le hlt (F.fanout_le _))
  · rwa [hentry] at hp
  · rwa [hentry]

end

theorem Agree.frames_iff (h : Agree F k m m' t) (ht : PageAligned t) :
    Frames F k m' t a ↔ Frames F k m t a := by
  induction k generalizing t with
  | zero => exact Iff.rfl
  | succ k ih =>
    refine or_congr Iff.rfl (exists_congr (fun i => ?_))
    rw [h.hasChild_iff ht]
    refine and_congr_right (fun hi => ?_)
    rw [h.child_eq ht hi.lt]
    exact ih (h.child hi) (F.addr_aligned _)

theorem Agree.refl (F : Format) (k : Nat) (m : Memory) (t : U64) : Agree F k m m t :=
  fun _ _ => rfl

section

variable (h : Agree F k m m' t) (ht : PageAligned t)
include h ht

theorem Agree.symm : Agree F k m' m t :=
  fun x hx => (h x ((h.frames_iff ht).mp hx)).symm

theorem Agree.leafTable_iff : LeafTable F k m' t a ↔ LeafTable F k m t a := by
  induction k generalizing t with
  | zero => exact Iff.rfl
  | succ k ih =>
    refine exists_congr (fun i => ?_)
    rw [h.hasChild_iff ht]
    refine and_congr_right (fun hi => ?_)
    rw [h.child_eq ht hi.lt]
    exact ih (h.child hi) (F.addr_aligned _)

theorem Agree.separate (hs : Separate F k m t) : Separate F k m' t := by
  induction k generalizing t with
  | zero => trivial
  | succ k ih =>
    obtain ⟨hsub, hdisj⟩ := hs
    have hframes : ∀ {i}, HasChild F (k + 1) m t i → ∀ a,
        Frames F k m' (PageTree.child F m' t i) a ↔ Frames F k m (PageTree.child F m t i) a := by
      intro i hi a
      rw [h.child_eq ht hi.lt]
      exact (h.child hi).frames_iff (F.addr_aligned _)
    constructor
    · intro i hi'
      have hi := (h.hasChild_iff ht).mp hi'
      obtain ⟨hsep, hroot⟩ := hsub i hi
      refine ⟨?_, fun hmem => hroot ((hframes hi t).mp hmem)⟩
      rw [h.child_eq ht hi.lt]
      exact ih (h.child hi) (F.addr_aligned _) hsep
    grind [hasChild_iff]

end

variable {P : Nat → U64 → Prop}

theorem Agree.directories (h : Agree F k m m' t) (ht : PageAligned t)
    (hs : Directories F P k m t) : Directories F P k m' t := by
  induction k generalizing t with
  | zero => trivial
  | succ k ih =>
    intro i hi'
    have hi := (h.hasChild_iff ht).mp hi'
    obtain ⟨hP, hsub⟩ := hs i hi
    rw [h.entry ht hi.lt, h.child_eq ht hi.lt]
    exact ⟨hP, ih (h.child hi) (F.addr_aligned _) hsub⟩

theorem Agree.walk_eq (h : Agree F k m m' t) (ht : PageAligned t) (hix : InRange F k ix) :
    walk F k m' t ix = walk F k m t ix := by
  induction k generalizing t with
  | zero => rfl
  | succ k ih =>
    have hlt : ix (k + 1) < 512 := Nat.lt_of_lt_of_le (hix (k + 1) le_rfl) (F.fanout_le _)
    rw [walk, walk, h.entry ht hlt, h.child_eq ht hlt]
    by_cases hp : F.present (m (slot t (ix (k + 1)))) = true
    · rw [if_pos hp, if_pos hp]
      have hi : HasChild F (k + 1) m t (ix (k + 1)) := ⟨hix (k + 1) le_rfl, hp⟩
      rw [ih (h.child hi) (F.addr_aligned _) (fun j hj => hix j (by omega))]
    · rw [if_neg hp, if_neg hp]

/-! ## Walks -/

/-- Taking a walk apart at its first entry. -/
theorem walk_succ {r : List U64 × U64} (h : walk F (k + 1) m t ix = some r) :
    F.present (m (slot t (ix (k + 1)))) = true ∧ ∃ es, r.1 = m (slot t (ix (k + 1))) :: es ∧
        walk F k m (child F m t (ix (k + 1))) ix = some (es, r.2) := by
  rw [walk] at h
  split at h
  · rename_i hp
    obtain ⟨r', hr', rfl⟩ := Option.map_eq_some_iff.mp h
    exact ⟨hp, r'.1, rfl, hr'⟩
  · cases h

variable {es : List U64}

/-- The entries that a walk passes are directory entries. -/
theorem walk_directories (hix : InRange F k ix)
    (hs : Directories F P k m t) (h : walk F k m t ix = some (es, a)) : ∀ e ∈ es, ∃ j, P j e := by
  induction k generalizing t es with
  | zero =>
    cases h
    exact fun e he => absurd he not_mem_nil
  | succ k ih =>
    obtain ⟨hp, es', hes, hrest⟩ := walk_succ h
    obtain ⟨hP, hsub⟩ := hs (ix (k + 1)) ⟨hix (k + 1) le_rfl, hp⟩
    intro e he
    dsimp only at hes
    rw [hes] at he
    rcases mem_cons.mp he with rfl | he
    · exact ⟨k + 1, hP⟩
    · exact ih (fun j hj => hix j (by omega)) hsub hrest e he

/-- A walk ends in a leaf table, at its own index. -/
theorem walk_leaf (ht : PageAligned t) (hix : InRange F k ix) (h : walk F k m t ix = some (es, a)) :
    LeafTable F k m t (pageOf a) ∧ a = slot (pageOf a) (ix 0) := by
  induction k generalizing t es with
  | zero =>
    cases h
    have hlt : ix 0 < 512 := Nat.lt_of_lt_of_le (hix 0 le_rfl) (F.fanout_le 0)
    rw [pageOf_slot ht hlt]
    exact ⟨rfl, rfl⟩
  | succ k ih =>
    obtain ⟨hp, es', -, hrest⟩ := walk_succ h
    obtain ⟨hleaf, hat⟩ := ih (F.addr_aligned _) (fun j hj => hix j (by omega)) hrest
    exact ⟨⟨ix (k + 1), ⟨hix (k + 1) le_rfl, hp⟩, hleaf⟩, hat⟩

/-- In a tree without repeated tables different paths end at different
entries. -/
theorem walk_inj {es' : List U64} (ht : PageAligned t) (hs : Separate F k m t)
    (hix : InRange F k ix) (hix' : InRange F k ix') (h : walk F k m t ix = some (es, a))
    (h' : walk F k m t ix' = some (es', a)) : ∀ j ≤ k, ix j = ix' j := by
  induction k generalizing t es es' with
  | zero =>
    intro j hj
    obtain rfl : j = 0 := by omega
    cases h
    have hlt : ix 0 < 512 := Nat.lt_of_lt_of_le (hix 0 le_rfl) (F.fanout_le 0)
    have hlt' : ix' 0 < 512 := Nat.lt_of_lt_of_le (hix' 0 le_rfl) (F.fanout_le 0)
    have heq : slot t (ix' 0) = slot t (ix 0) := by
      have h'' := Option.some.inj h'
      exact congrArg Prod.snd h''
    exact ((slot_inj ht ht hlt' hlt).mp heq).2.symm
  | succ k ih =>
    obtain ⟨hp, es₁, -, hrest⟩ := walk_succ h
    obtain ⟨hp', es₂, -, hrest'⟩ := walk_succ h'
    have hchild : HasChild F (k + 1) m t (ix (k + 1)) := ⟨hix _ le_rfl, hp⟩
    have hchild' : HasChild F (k + 1) m t (ix' (k + 1)) := ⟨hix' _ le_rfl, hp'⟩
    have htop : ix (k + 1) = ix' (k + 1) := by
      by_contra hne
      have hleaf := (walk_leaf (F.addr_aligned _) (fun j hj => hix j (by omega)) hrest).1
      have hleaf' := (walk_leaf (F.addr_aligned _) (fun j hj => hix' j (by omega)) hrest').1
      exact hs.2 _ _ hchild hchild' hne _ hleaf.frames hleaf'.frames
    intro j hj
    rcases Nat.lt_or_ge k j with hlt | hge
    · obtain rfl : j = k + 1 := by omega
      exact htop
    · rw [← htop] at hrest'
      exact ih (F.addr_aligned _) (hs.1 _ hchild).1 (fun j hj => hix j (by omega))
        (fun j hj => hix' j (by omega)) hrest hrest' j hge

theorem leaf_zero (m : Memory) (t : U64) (ix : Nat → Nat) :
    leaf F 0 m t ix = m (slot t (ix 0)) := rfl

theorem leaf_succ (k : Nat) (m : Memory) (t : U64) (ix : Nat → Nat) :
    leaf F (k + 1) m t ix = if F.present (m (slot t (ix (k + 1)))) then
      leaf F k m (child F m t (ix (k + 1))) ix else 0#64 := by
  unfold leaf
  grind [walk]

theorem Agree.leaf_eq (h : Agree F k m m' t) (ht : PageAligned t) (hix : InRange F k ix) :
    leaf F k m' t ix = leaf F k m t ix := by
  unfold leaf
  rw [h.walk_eq ht hix]
  cases hwalk : walk F k m t ix with
  | none => rfl
  | some r => exact h r.2 (walk_leaf ht hix hwalk).1.frames

/-! ## An empty table -/

/-- Every entry of the table of level `k` is 0. -/
def Blank (F : Format) (k : Nat) (m : Memory) (t : U64) : Prop :=
  ∀ i < F.fanout k, m (slot t i) = 0#64

section
variable (hzero : F.present 0#64 = false) (h : Blank F k m t)
include hzero h

theorem Blank.not_hasChild (i : Nat) : ¬ HasChild F k m t i := by
  intro hi
  have hp := hi.2
  rw [h i hi.1, hzero] at hp
  cases hp

theorem Blank.frames_iff : Frames F k m t a ↔ a = t := by
  cases k with
  | zero => exact Iff.rfl
  | succ k =>
    constructor
    · rintro (rfl | ⟨i, hi, -⟩)
      · rfl
      · exact absurd hi (h.not_hasChild hzero i)
    · exact .inl

theorem Blank.separate : Separate F k m t := by
  cases k with
  | zero => trivial
  | succ k =>
    exact ⟨fun i hi => absurd hi (h.not_hasChild hzero i),
      fun i _ hi => absurd hi (h.not_hasChild hzero i)⟩

theorem Blank.directories (P : Nat → U64 → Prop) : Directories F P k m t := by
  cases k with
  | zero => trivial
  | succ k => exact fun i hi => absurd hi (h.not_hasChild hzero i)

theorem Blank.leaf_eq (hix : InRange F k ix) : leaf F k m t ix = 0#64 := by
  have hlt := hix k le_rfl
  cases k with
  | zero => exact h _ hlt
  | succ k =>
    rw [leaf_succ, h _ hlt, hzero]
    rfl

end

/-! ## The tables in order -/

/-- The tables of a tree, each after the tables below it. -/
def postorder (F : Format) : Nat → Memory → U64 → List U64
  | 0, _, t => [t]
  | k + 1, m, t => (List.range (F.fanout (k + 1))).flatMap (fun i =>
    if F.present (m (slot t i)) then postorder F k m (child F m t i) else []) ++ [t]

theorem mem_postorder : a ∈ postorder F k m t ↔ Frames F k m t a := by
  induction k generalizing t with
  | zero => exact mem_singleton
  | succ k ih =>
    rw [postorder, mem_append, mem_flatMap, mem_singleton, or_comm]
    refine or_congr Iff.rfl (exists_congr (fun i => ?_))
    rw [mem_range]
    constructor
    · rintro ⟨hi, ha⟩
      split at ha
      · rename_i hp
        exact ⟨⟨hi, hp⟩, ih.mp ha⟩
      · cases ha
    · rintro ⟨⟨hi, hp⟩, ha⟩
      rw [if_pos hp]
      exact ⟨hi, ih.mpr ha⟩

theorem Agree.postorder_eq (h : Agree F k m m' t) (ht : PageAligned t) :
    postorder F k m' t = postorder F k m t := by
  induction k generalizing t with
  | zero => rfl
  | succ k ih =>
    rw [postorder, postorder]
    refine congrArg (· ++ [t]) (flatMap_congr (fun i hi => ?_))
    have hi := mem_range.mp hi
    have hlt := Nat.lt_of_lt_of_le hi (F.fanout_le _)
    rw [h.entry ht hlt, h.child_eq ht hlt]
    by_cases hp : F.present (m (slot t i)) = true
    · rw [if_pos hp, if_pos hp, ih (h.child ⟨hi, hp⟩) (F.addr_aligned _)]
    · rw [if_neg hp, if_neg hp]

theorem nodup_postorder (hs : Separate F k m t) : (postorder F k m t).Nodup := by
  induction k generalizing t with
  | zero => exact nodup_singleton t
  | succ k ih =>
    -- what the subtree below entry i contributes
    have hbelow : ∀ {i a}, i ∈ List.range (F.fanout (k + 1)) →
        a ∈ (if F.present (m (slot t i)) then postorder F k m (child F m t i) else []) →
        HasChild F (k + 1) m t i ∧ Frames F k m (child F m t i) a := by
      intro i a hi ha
      split at ha
      · rename_i hp
        exact ⟨⟨mem_range.mp hi, hp⟩, mem_postorder.mp ha⟩
      · cases ha
    rw [postorder, nodup_append, nodup_flatMap]
    refine ⟨⟨fun i hi => ?_, ?_⟩, nodup_singleton t, ?_⟩
    · split
      · rename_i hp
        exact ih (hs.1 i ⟨mem_range.mp hi, hp⟩).1
      · exact nodup_nil
    · refine nodup_range.imp_of_mem (fun hi hj hij a ha ha' => ?_)
      obtain ⟨hci, hfi⟩ := hbelow hi ha
      obtain ⟨hcj, hfj⟩ := hbelow hj ha'
      exact hs.2 _ _ hci hcj hij a hfi hfj
    · intro a ha b hb heq
      obtain ⟨i, hi, ha⟩ := mem_flatMap.mp ha
      obtain ⟨hc, hf⟩ := hbelow hi ha
      rw [heq, mem_singleton.mp hb] at hf
      exact (hs.1 i hc).2 hf

/-! ## Copies and rewrites -/

/-- The tree at `d` in `m'` has the shape and flags of the tree at `s` in `m`,
and leaf entries related by `R`. -/
def Mirrors (F : Format) (R : U64 → U64 → Prop) : Nat → Memory → U64 → Memory → U64 → Prop
  | 0, m, s, m', d => ∀ i < F.fanout 0, R (m (slot s i)) (m' (slot d i))
  | k + 1, m, s, m', d => ∀ i < F.fanout (k + 1),
      if F.present (m (slot s i)) then
        F.flags (m' (slot d i)) = F.flags (m (slot s i)) ∧
          Mirrors F R k m (child F m s i) m' (child F m' d i)
      else F.present (m' (slot d i)) = false

/-- The tree at `t` keeps its tables; its leaf entries changed as `R` says. -/
def Rewritten (F : Format) (R : U64 → U64 → Prop) : Nat → Memory → Memory → U64 → Prop
  | 0, m, m', t => ∀ i < F.fanout 0, R (m (slot t i)) (m' (slot t i))
  | k + 1, m, m', t => ∀ i < F.fanout (k + 1), m' (slot t i) = m (slot t i) ∧
        (F.present (m (slot t i)) = true → Rewritten F R k m m' (child F m t i))

variable {R : U64 → U64 → Prop} {s d : U64} {n n' : Memory}

/-- A mirror depends on the two trees only. -/
theorem Mirrors.congr (h : Mirrors F R k m s m' d) (hs : PageAligned s) (hd : PageAligned d)
    (hm : Agree F k m n s) (hm' : Agree F k m' n' d) : Mirrors F R k n s n' d := by
  induction k generalizing s d with
  | zero =>
    intro i hi
    have hlt := Nat.lt_of_lt_of_le hi (F.fanout_le 0)
    rw [hm.entry hs hlt, hm'.entry hd hlt]
    exact h i hi
  | succ k ih =>
    intro i hi
    have hlt := Nat.lt_of_lt_of_le hi (F.fanout_le (k + 1))
    have hcase := h i hi
    rw [hm.entry hs hlt, hm'.entry hd hlt]
    by_cases hp : F.present (m (slot s i)) = true
    · rw [if_pos hp] at hcase ⊢
      obtain ⟨hflags, hsub⟩ := hcase
      have hp' : F.present (m' (slot d i)) = true := by
        rw [F.present_flags _ _ hflags, hp]
      rw [hm.child_eq hs hlt, hm'.child_eq hd hlt]
      exact ⟨hflags, ih hsub (F.addr_aligned _) (F.addr_aligned _) (hm.child ⟨hi, hp⟩)
        (hm'.child ⟨hi, hp'⟩)⟩
    · rw [if_neg hp] at hcase ⊢
      exact hcase

/-- A change confined to the leaf tables is a rewrite. -/
theorem Rewritten.of_leaves (ht : PageAligned t) (hs : Separate F k m t)
    (hdir : ∀ x, Frames F k m t (pageOf x) → ¬ LeafTable F k m t (pageOf x) → m' x = m x)
    (hleaf : ∀ b, LeafTable F k m t b → ∀ i < F.fanout 0, R (m (slot b i)) (m' (slot b i))) :
    Rewritten F R k m m' t := by
  induction k generalizing t with
  | zero => exact hleaf t rfl
  | succ k ih =>
    intro i hi
    constructor
    · refine hdir _ ?_ ?_ <;> rw [pageOf_slot ht (Nat.lt_of_lt_of_le hi (F.fanout_le _))]
      · exact frames_root _ _ _
      · exact hs.root_not_leafTable
    · intro hp
      refine ih (F.addr_aligned _) (hs.1 i ⟨hi, hp⟩).1 ?_ ?_
      · intro x hx hnot
        exact hdir x (hx.child ⟨hi, hp⟩) (fun hl => hnot (hs.leafTable_child ⟨hi, hp⟩ hx hl))
      · exact fun b hb => hleaf b ⟨i, ⟨hi, hp⟩, hb⟩

/-- A rewritten tree has the pointers it had. -/
theorem Rewritten.hasChild_iff (h : Rewritten F R (k + 1) m m' t) :
    HasChild F (k + 1) m' t i ↔ HasChild F (k + 1) m t i := by
  refine and_congr_right (fun hlt => ?_)
  rw [(h i hlt).1]

theorem Rewritten.child_eq (h : Rewritten F R (k + 1) m m' t) (hi : HasChild F (k + 1) m t i) :
    child F m' t i = child F m t i ∧ Rewritten F R k m m' (child F m t i) := by
  obtain ⟨hsame, hsub⟩ := h i hi.1
  exact ⟨by rw [child, hsame, child], hsub hi.2⟩

section

variable (h : Rewritten F R k m m' t)
include h

/-- Rewriting leaves moves no table. -/
theorem Rewritten.frames_iff : Frames F k m' t a ↔ Frames F k m t a := by
  induction k generalizing t with
  | zero => exact Iff.rfl
  | succ k ih =>
    refine or_congr Iff.rfl (exists_congr (fun i => ?_))
    refine Iff.trans (and_congr_left' h.hasChild_iff) (and_congr_right (fun hi => ?_))
    obtain ⟨hchild, hsub⟩ := h.child_eq hi
    rw [hchild, ih hsub]

theorem Rewritten.separate (hs : Separate F k m t) : Separate F k m' t := by
  induction k generalizing t with
  | zero => trivial
  | succ k ih =>
    constructor
    · intro i hi'
      have hi := h.hasChild_iff.mp hi'
      obtain ⟨hchild, hsub⟩ := h.child_eq hi
      obtain ⟨hsep, hroot⟩ := hs.1 i hi
      rw [hchild]
      exact ⟨ih hsub hsep, fun hmem => hroot (hsub.frames_iff.mp hmem)⟩
    · intro i j hi' hj' hne a ha ha'
      have hi := h.hasChild_iff.mp hi'
      have hj := h.hasChild_iff.mp hj'
      obtain ⟨hchild, hsub⟩ := h.child_eq hi
      obtain ⟨hchild', hsub'⟩ := h.child_eq hj
      rw [hchild] at ha
      rw [hchild'] at ha'
      exact hs.2 i j hi hj hne a (hsub.frames_iff.mp ha) (hsub'.frames_iff.mp ha')

theorem Rewritten.leafTable_iff : LeafTable F k m' t a ↔ LeafTable F k m t a := by
  induction k generalizing t with
  | zero => exact Iff.rfl
  | succ k ih =>
    refine exists_congr (fun i => ?_)
    refine Iff.trans (and_congr_left' h.hasChild_iff) (and_congr_right (fun hi => ?_))
    obtain ⟨hchild, hsub⟩ := h.child_eq hi
    rw [hchild, ih hsub]

theorem Rewritten.directories
    (hs : Directories F P k m t) : Directories F P k m' t := by
  induction k generalizing t with
  | zero => trivial
  | succ k ih =>
    intro i hi'
    have hi := h.hasChild_iff.mp hi'
    obtain ⟨hchild, hsub⟩ := h.child_eq hi
    obtain ⟨hP, hdirs⟩ := hs i hi
    rw [hchild, (h i hi.1).1]
    exact ⟨hP, ih hsub hdirs⟩

/-- **Walks through a rewritten tree** are the same, up to the leaf entry. -/
theorem Rewritten.walk_eq (hix : InRange F k ix) : walk F k m' t ix = walk F k m t ix ∧
      ∀ es a, walk F k m t ix = some (es, a) → R (m a) (m' a) := by
  induction k generalizing t with
  | zero =>
    refine ⟨rfl, ?_⟩
    rintro es a ⟨⟩
    exact h _ (hix 0 le_rfl)
  | succ k ih =>
    obtain ⟨hsame, hsub⟩ := h _ (hix (k + 1) le_rfl)
    have hrange : InRange F k ix := fun j hj => hix j (by omega)
    grind [walk, child, walk_succ]

theorem Rewritten.leaf_rel (hix : InRange F k ix) (hzero : R 0#64 0#64) :
    R (leaf F k m t ix) (leaf F k m' t ix) := by
  obtain ⟨hsame, hR⟩ := h.walk_eq hix
  unfold leaf
  rw [hsame]
  cases hwalk : walk F k m t ix with
  | none => exact hzero
  | some r => exact hR r.1 r.2 hwalk

end

/-- Entry by entry: a pointer of the copy copies a pointer. -/
theorem Mirrors.child (h : Mirrors F R (k + 1) m s m' d) (hi : HasChild F (k + 1) m' d i) :
    HasChild F (k + 1) m s i ∧ F.flags (m' (slot d i)) = F.flags (m (slot s i)) ∧
      Mirrors F R k m (PageTree.child F m s i) m' (PageTree.child F m' d i) := by
  obtain ⟨hlt, hp'⟩ := hi
  have hcase := h i hlt
  by_cases hp : F.present (m (slot s i)) = true
  · rw [if_pos hp] at hcase
    exact ⟨⟨hlt, hp⟩, hcase⟩
  · rw [if_neg hp] at hcase
    rw [hcase] at hp'
    cases hp'

/-- Each leaf table of the copy copies a leaf table. -/
theorem Mirrors.leafTable {b' : U64} (h : Mirrors F R k m s m' d) (hb : LeafTable F k m' d b') :
    ∃ b, LeafTable F k m s b ∧ ∀ i < F.fanout 0, R (m (slot b i)) (m' (slot b' i)) := by
  induction k generalizing s d with
  | zero =>
    cases hb
    exact ⟨s, rfl, h⟩
  | succ k ih =>
    obtain ⟨i, hi, hb⟩ := hb
    obtain ⟨hi', -, hsub⟩ := h.child hi
    obtain ⟨b, hleaf, hR⟩ := ih hsub hb
    exact ⟨b, ⟨i, hi', hleaf⟩, hR⟩

theorem Mirrors.directories
    (hflags : ∀ k e e', F.flags e' = F.flags e → P k e → P k e')
    (h : Mirrors F R k m s m' d) (hs : Directories F P k m s) : Directories F P k m' d := by
  induction k generalizing s d with
  | zero => trivial
  | succ k ih =>
    intro i hi
    obtain ⟨hi', heq, hsub⟩ := h.child hi
    obtain ⟨hP, hdirs⟩ := hs i hi'
    exact ⟨hflags _ _ _ heq hP, ih hsub hdirs⟩

section

variable (h : Mirrors F R k m s m' d) (hix : InRange F k ix)
include h hix

/-- **Walks through a mirror** pass entries with the same flags and end at
related leaf entries. -/
theorem Mirrors.walk_some
    (hwalk : walk F k m s ix = some (es, a)) :
    ∃ es' a', walk F k m' d ix = some (es', a') ∧ es'.map F.flags = es.map F.flags ∧
      R (m a) (m' a') := by
  induction k generalizing s d es with
  | zero =>
    cases hwalk
    exact ⟨[], slot d (ix 0), rfl, rfl, h _ (hix 0 le_rfl)⟩
  | succ k ih =>
    obtain ⟨hp, es₁, hes, hrest⟩ := walk_succ hwalk
    have hcase := h _ (hix (k + 1) le_rfl)
    rw [if_pos hp] at hcase
    obtain ⟨hflags, hsub⟩ := hcase
    obtain ⟨es', a', hwalk', hmap, hR⟩ := ih hsub (fun j hj => hix j (by omega)) hrest
    grind [walk, Format.present_flags]

theorem Mirrors.walk_none
    (hwalk : walk F k m s ix = none) : walk F k m' d ix = none := by
  induction k generalizing s d with
  | zero => cases hwalk
  | succ k ih =>
    have hcase := h _ (hix (k + 1) le_rfl)
    rw [walk] at hwalk ⊢
    by_cases hp : F.present (m (slot s (ix (k + 1)))) = true
    · rw [if_pos hp] at hcase hwalk
      obtain ⟨hflags, hsub⟩ := hcase
      rw [F.present_flags _ _ hflags, if_pos hp]
      rw [Option.map_eq_none_iff] at hwalk ⊢
      exact ih hsub (fun j hj => hix j (by omega)) hwalk
    · rw [if_neg hp] at hcase
      rw [hcase]
      rfl

theorem Mirrors.leaf_rel (hzero : R 0#64 0#64) : R (leaf F k m s ix) (leaf F k m' d ix) := by
  unfold leaf
  grind [walk_none, walk_some]

end

end PageTree
