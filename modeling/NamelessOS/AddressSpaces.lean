import NamelessOS.TableForest
import NamelessOS.UserMemory

/-!
# Address spaces that share pages

The invariant of a set of processes related by fork: their tables never
overlap, no table is a data page, and a page that some entry maps writable is
mapped by no other entry.  Three things happen to it: a store goes to a
writable page, a write fault moves one entry to a fresh copy, and a fork marks
the parent's entries and adds a tree.  For each of them this file says that the
invariant survives and how every process's view changes.
-/

namespace Vmm

open Pmm WordMemory PageTree List

/-- `x` is the address of a leaf entry of one of the processes. -/
def Leaf (m : Memory) (procs : List U64) (x : U64) : Prop :=
  ∃ r ∈ procs, ∃ b, LeafTable format 3 m r b ∧ ∃ i < 512, x = slot b i

/-- **The invariant.** -/
structure Spaces (s : Vm) (procs : List U64) : Prop where
  tree : ∀ r ∈ procs, Tree 3 s r
  apart : procs.Pairwise (fun r r' =>
    ∀ a, Frames format 3 s.mem r a → ¬ Frames format 3 s.mem r' a)
  data : ∀ x, Leaf s.mem procs x → has (s.mem x) ptePresent = true →
    Used s.pmm (pteAddr (s.mem x)) ∧ ¬ Table s.mem procs (pteAddr (s.mem x))
  exclusive : ∀ x y, Leaf s.mem procs x → Leaf s.mem procs y → x ≠ y →
    has (s.mem x) ptePresent = true → has (s.mem y) ptePresent = true →
    pteAddr (s.mem x) = pteAddr (s.mem y) → has (s.mem x) pteWrite = false

variable {s s' : Vm} {procs : List U64} {r r' va pte : U64} {es : List U64}

section

variable (h : Spaces s procs)
include h

theorem Spaces.forest : Forest s procs := ⟨h.tree, h.apart⟩

theorem Spaces.root_unique (hr : r ∈ procs) (hr' : r' ∈ procs) {a : U64}
    (ha : Frames format 3 s.mem r a) (ha' : Frames format 3 s.mem r' a) : r = r' :=
  h.forest.root_unique hr hr' ha ha'

theorem Spaces.leaf_table {x : U64} (hx : Leaf s.mem procs x) : Table s.mem procs (pageOf x) := by
  obtain ⟨r, hr, b, hb, i, hi, rfl⟩ := hx
  rw [pageOf_slot (hb.frames.aligned (h.tree r hr).aligned) hi]
  exact ⟨r, hr, hb.frames⟩

theorem Spaces.table_used {a : U64} (ha : Table s.mem procs a) : Used s.pmm a :=
  h.forest.table_used ha

/-- The walk of a user address ends at a leaf entry. -/
theorem Spaces.walk_leaf (hr : r ∈ procs) (hva : UserAddress va)
    (hwalk : walk format 3 s.mem r (vaIndex va) = some (es, pte)) : Leaf s.mem procs pte := by
  obtain ⟨hleaf, hat⟩ := PageTree.walk_leaf (h.tree r hr).aligned (vaIndex_inRange hva) hwalk
  exact ⟨r, hr, pageOf pte, hleaf, vaIndex va 0, vaIndex_inRange hva 0 (by decide), hat⟩

/-- The words of a present page are not in a table. -/
theorem Spaces.data_page {x : U64} (hx : Leaf s.mem procs x)
    (hp : has (s.mem x) ptePresent = true) {j : Nat} (hj : j < 512) :
    Used s.pmm (pageOf (slot (pteAddr (s.mem x)) j)) ∧
      ¬ Table s.mem procs (pageOf (slot (pteAddr (s.mem x)) j)) := by
  rw [pageOf_slot (pageAligned_pteAddr _) hj]
  exact h.data x hx hp

end

/-! ## Changes confined to leaf entries -/

section
variable (h : Spaces s procs) (hleaves : LeavesOnly s s' procs)
include h hleaves

theorem Spaces.leaf_iff {x : U64} : Leaf s'.mem procs x ↔ Leaf s.mem procs x :=
  exists_congr (fun _ => and_congr_right (fun hr =>
    exists_congr (fun _ => and_congr_left (fun _ => (h.forest.rewritten hleaves hr).leafTable_iff))))

theorem Spaces.walk_eq (hr : r ∈ procs) (hva : UserAddress va) :
    walk format 3 s'.mem r (vaIndex va) = walk format 3 s.mem r (vaIndex va) :=
  ((h.forest.rewritten hleaves hr).walk_eq (vaIndex_inRange hva)).1

/-- The invariant after a change of leaf entries, from what they are now. -/
theorem Spaces.update (hkept : ∀ p, PageAligned p → Used s.pmm p → Used s'.pmm p)
    (hdata : ∀ x, Leaf s.mem procs x → has (s'.mem x) ptePresent = true →
      Used s'.pmm (pteAddr (s'.mem x)) ∧ ¬ Table s.mem procs (pteAddr (s'.mem x)))
    (hexcl : ∀ x y, Leaf s.mem procs x → Leaf s.mem procs y → x ≠ y →
      has (s'.mem x) ptePresent = true → has (s'.mem y) ptePresent = true →
      pteAddr (s'.mem x) = pteAddr (s'.mem y) → has (s'.mem x) pteWrite = false) :
    Spaces s' procs where
  tree := (h.forest.update hleaves hkept).tree
  apart := (h.forest.update hleaves hkept).apart
  data x hx := by
    rw [h.forest.table_iff hleaves]
    exact hdata x ((h.leaf_iff hleaves).mp hx)
  exclusive x y hx hy := hexcl x y ((h.leaf_iff hleaves).mp hx) ((h.leaf_iff hleaves).mp hy)

/-- A process sees the same if its leaf entry is as good as before. -/
theorem Spaces.view_eq (hr : r ∈ procs) (hva : UserAddress va)
    (halike : ∀ pte, Leaf s.mem procs pte → Alike s.mem s'.mem (s.mem pte) (s'.mem pte)) :
    userView s'.mem r va = userView s.mem r va := by
  have hsame := h.walk_eq hleaves hr hva
  cases hwalk : walk format 3 s.mem r (vaIndex va) with
  | none =>
    unfold userView
    rw [hsame, hwalk]
  | some res =>
    obtain ⟨es, pte⟩ := res
    exact userView_of_alike hwalk (hsame.trans hwalk) rfl (halike pte (h.walk_leaf hr hva hwalk))

end

/-! ## A store -/

section
variable (h : Spaces s procs) (hr : r ∈ procs) (hva : UserAddress va)
  (hwalk : walk format 3 s.mem r (vaIndex va) = some (es, pte))
  (hp : has (s.mem pte) ptePresent = true) (x : U8)
include h hr hva hwalk hp

theorem Spaces.store_tables {a y : U64} (ha : Table s.mem procs a) (hy : pageOf y = a) :
    writeByte s.mem (pteAddr (s.mem pte)) va x y = s.mem y := by
  refine writeByte_outside _ (pageAligned_pteAddr _) va x (fun heq => ?_)
  refine (h.data pte (h.walk_leaf hr hva hwalk) hp).2 ?_
  rw [← heq, hy]
  exact ha

theorem Spaces.store :
    Spaces { s with mem := writeByte s.mem (pteAddr (s.mem pte)) va x } procs := by
  have hsame : ∀ y, Leaf s.mem procs y → writeByte s.mem (pteAddr (s.mem pte)) va x y = s.mem y :=
    fun y hy => h.store_tables hr hva hwalk hp x (h.leaf_table hy) rfl
  refine h.update (fun y hy _ => h.store_tables hr hva hwalk hp x hy rfl) (fun _ _ hu => hu) ?_ ?_
  · intro y hy
    dsimp only
    rw [hsame y hy]
    exact h.data y hy
  · intro y z hy hz
    dsimp only
    rw [hsame y hy, hsame z hz]
    exact h.exclusive y z hy hz

/-- **A store seen from any page**: whoever maps the byte's place reads the new
byte there. -/
theorem Spaces.store_view_at {r' va' pte' : U64} {es' : List U64} (hr' : r' ∈ procs)
    (hva' : UserAddress va') (hwalk' : walk format 3 s.mem r' (vaIndex va') = some (es', pte')) :
    userView (writeByte s.mem (pteAddr (s.mem pte)) va x) r' va' =
      if pteAddr (s.mem pte') = pteAddr (s.mem pte) ∧ va'.toNat % 4096 = va.toNat % 4096 then
        (userView s.mem r' va').map (fun c => (x, c.2))
      else userView s.mem r' va' := by
  have hsame : writeByte s.mem (pteAddr (s.mem pte)) va x pte' = s.mem pte' :=
    h.store_tables hr hva hwalk hp x (h.leaf_table (h.walk_leaf hr' hva' hwalk')) rfl
  have hleaves : LeavesOnly s { s with mem := writeByte s.mem (pteAddr (s.mem pte)) va x } procs :=
    fun y hy _ => h.store_tables hr hva hwalk hp x hy rfl
  have hwalk_eq := h.walk_eq hleaves hr' hva'
  rw [hwalk'] at hwalk_eq
  by_cases hframe : pteAddr (s.mem pte') = pteAddr (s.mem pte)
  · have hread := readByte_writeByte s.mem (pageAligned_pteAddr (s.mem pte)) va va' x
    unfold userView
    grind
  · rw [if_neg (fun hc => hframe hc.1)]
    refine userView_of_alike hwalk' hwalk_eq rfl ?_
    rw [hsame]
    refine ⟨rfl, fun _ => rfl, fun _ => rfl, ?_⟩
    grind [writeByte_outside, pageAligned_pteAddr, pageOf_slot]

/-- **A store to a writable page** is seen by its process at its address, and
nowhere else. -/
theorem Spaces.store_view (hw : has (s.mem pte) pteWrite = true) {r' va' : U64} (hr' : r' ∈ procs)
    (hva' : UserAddress va') : userView (writeByte s.mem (pteAddr (s.mem pte)) va x) r' va' =
      if r' = r ∧ va' = va then (userView s.mem r va).map (fun c => (x, c.2))
      else userView s.mem r' va' := by
  by_cases hself : r' = r ∧ va' = va
  · obtain ⟨rfl, rfl⟩ := hself
    rw [if_pos ⟨rfl, rfl⟩, h.store_view_at hr hva hwalk hp x hr' hva' hwalk, if_pos ⟨rfl, rfl⟩]
  · rw [if_neg hself]
    cases hwalk' : walk format 3 s.mem r' (vaIndex va') with
    | none =>
      have hleaves : LeavesOnly s
          { s with mem := writeByte s.mem (pteAddr (s.mem pte)) va x } procs :=
        fun y hy _ => h.store_tables hr hva hwalk hp x hy rfl
      have hwalk_eq := h.walk_eq hleaves hr' hva'
      unfold userView
      rw [hwalk_eq, hwalk']
    | some res =>
      obtain ⟨es', pte'⟩ := res
      rw [h.store_view_at hr hva hwalk hp x hr' hva' hwalk']
      by_cases hp' : has (s.mem pte') ptePresent = true
      · refine if_neg (fun hcell => hself ?_)
        by_cases hentry : pte' = pte
        · -- the same leaf entry: one process, one page
          subst hentry
          have hleaf := (PageTree.walk_leaf (h.tree r hr).aligned (vaIndex_inRange hva) hwalk).1
          have hleaf' :=
            (PageTree.walk_leaf (h.tree r' hr').aligned (vaIndex_inRange hva') hwalk').1
          obtain rfl := h.root_unique hr' hr hleaf'.frames hleaf.frames
          have hix := walk_inj (h.tree r' hr').aligned (h.tree r' hr').separate
            (vaIndex_inRange hva') (vaIndex_inRange hva) hwalk' hwalk
          exact ⟨rfl, userAddress_inj hva' hva hix hcell.2⟩
        · have hro := h.exclusive pte pte' (h.walk_leaf hr hva hwalk) (h.walk_leaf hr' hva' hwalk')
            (fun he => hentry he.symm) hp hp' hcell.1.symm
          rw [hw] at hro
          cases hro
      · have hnone : userView s.mem r' va' = none := by
          unfold userView userOk
          rw [hwalk']
          simp [hp']
        rw [hnone]
        exact ite_self _

end

/-! ## A resolved write fault -/

section
variable {d : U64} (h : Spaces s procs) (hpte : Leaf s.mem procs pte)
  (hcow : has (s.mem pte) pteCow = true) (hmask : d &&& pteAddrMask = d)
  (hfresh : ¬ Used s.pmm d)
  (hused : ∀ p, PageAligned p → (Used s'.pmm p ↔ Used s.pmm p ∨ p = d))
  (hentry : s'.mem pte = privateEntry (s.mem pte) d)
  (hother : ∀ x, x ≠ pte → pageOf x ≠ d → s'.mem x = s.mem x)
include h hfresh hother

theorem Spaces.moved_other {x : U64} (hx : Leaf s.mem procs x) (hne : x ≠ pte) :
    s'.mem x = s.mem x :=
  hother x hne (fun heq => hfresh (heq ▸ h.table_used (h.leaf_table hx)))

include hpte in
theorem Spaces.moved_leaves : LeavesOnly s s' procs := by
  intro x hx hnot
  refine hother x ?_ (fun heq => hfresh (heq ▸ h.table_used hx))
  rintro rfl
  obtain ⟨r, hr, b, hb, i, hi, rfl⟩ := hpte
  rw [pageOf_slot (hb.frames.aligned (h.tree r hr).aligned) hi] at hnot
  exact hnot r hr hb

include hpte hmask hused hentry in
theorem Spaces.moved (haligned : PageAligned d) : Spaces s' procs := by
  have haddr : pteAddr (s'.mem pte) = d := by rw [hentry, privateEntry_addr hmask]
  -- no other entry maps the new frame
  have hnew : ∀ x, Leaf s.mem procs x → x ≠ pte → has (s'.mem x) ptePresent = true →
      pteAddr (s'.mem x) ≠ d := by
    intro x hx hne hpx heq
    rw [h.moved_other hfresh hother hx hne] at hpx heq
    exact hfresh (heq ▸ (h.data x hx hpx).1)
  refine h.update (h.moved_leaves hpte hfresh hother)
    (fun p hp hu => (hused p hp).mpr (.inl hu)) ?_ ?_
  · intro x hx hpx
    by_cases hne : x = pte
    · rw [hne, haddr]
      exact ⟨(hused d haligned).mpr (.inr rfl), fun ht => hfresh (h.table_used ht)⟩
    · rw [h.moved_other hfresh hother hx hne] at hpx ⊢
      obtain ⟨hu, ht⟩ := h.data x hx hpx
      exact ⟨(hused _ (pageAligned_pteAddr _)).mpr (.inl hu), ht⟩
  · intro x y hx hy hne hpx hpy heq
    by_cases hxp : x = pte
    · have hyp : y ≠ pte := fun hyp => hne (hxp.trans hyp.symm)
      rw [hxp, haddr] at heq
      exact absurd heq.symm (hnew y hy hyp hpy)
    · by_cases hyp : y = pte
      · rw [hyp, haddr] at heq
        exact absurd heq (hnew x hx hxp hpx)
      · rw [h.moved_other hfresh hother hx hxp] at hpx heq ⊢
        rw [h.moved_other hfresh hother hy hyp] at hpy heq
        exact h.exclusive x y hx hy hne hpx hpy heq

include hpte hcow hmask hentry in
/-- **Moving a page to a fresh copy** changes no view. -/
theorem Spaces.moved_view
    (hpage : ∀ j < 512, s'.mem (slot d j) = s.mem (slot (pteAddr (s.mem pte)) j))
    (hr : r ∈ procs) (hva : UserAddress va) : userView s'.mem r va = userView s.mem r va := by
  refine h.view_eq (h.moved_leaves hpte hfresh hother) hr hva ?_
  intro x hx
  by_cases hne : x = pte
  · subst hne
    rw [hentry]
    refine ⟨has_privateEntry hmask (by decide) (by decide) (by decide),
      fun _ => has_privateEntry hmask (by decide) (by decide) (by decide), fun _ => ?_, ?_⟩
    · rw [privateEntry_write, hcow, Bool.true_or, Bool.or_true]
    · intro _ j hj
      rw [privateEntry_addr hmask]
      exact hpage j hj
  · rw [h.moved_other hfresh hother hx hne]
    refine ⟨rfl, fun _ => rfl, fun _ => rfl, ?_⟩
    intro hpx j hj
    obtain ⟨hu, ht⟩ := h.data_page hx hpx hj
    refine hother _ ?_ (fun heq => hfresh (heq ▸ hu))
    rintro heq
    exact ht (heq ▸ h.leaf_table hpte)

end

/-! ## A fork -/

section
variable {src d : U64} (h : Spaces s procs) (hsrc : src ∈ procs) (htouch : Touches 3 s s' src)
include h htouch

/-- A fork, successful or not, leaves each leaf entry or marks it. -/
theorem Spaces.forked_leaf {x : U64} (hx : Leaf s.mem procs x) :
    s'.mem x = s.mem x ∨ s'.mem x = markCow (s.mem x) := by
  rcases htouch.mem x (h.table_used (h.leaf_table hx)) with hsame | ⟨-, hmark⟩
  · exact .inl hsame
  · exact .inr hmark

theorem Spaces.forked_present {x : U64} (hx : Leaf s.mem procs x) :
    has (s'.mem x) ptePresent = has (s.mem x) ptePresent := by
  rcases h.forked_leaf htouch hx with hsame | hmark
  · rw [hsame]
  · rw [hmark, has_markCow (by decide) (by decide)]

theorem Spaces.forked_addr {x : U64} (hx : Leaf s.mem procs x) :
    pteAddr (s'.mem x) = pteAddr (s.mem x) := by
  rcases h.forked_leaf htouch hx with hsame | hmark
  · rw [hsame]
  · rw [hmark, markCow_addr]

/-- An entry that was not writable is not made so. -/
theorem Spaces.forked_write {x : U64} (hx : Leaf s.mem procs x)
    (hp : has (s.mem x) ptePresent = true) (hw : has (s.mem x) pteWrite = false) :
    has (s'.mem x) pteWrite = false := by
  rcases h.forked_leaf htouch hx with hsame | hmark
  · rw [hsame, hw]
  · rw [hmark, markCow, if_pos hp, cowEntry_write]

include hsrc

/-- Data pages are not written by a fork. -/
theorem Spaces.forked_page {x : U64} (hx : Leaf s.mem procs x)
    (hp : has (s.mem x) ptePresent = true) {j : Nat} (hj : j < 512) :
    s'.mem (slot (pteAddr (s.mem x)) j) = s.mem (slot (pteAddr (s.mem x)) j) := by
  obtain ⟨hu, ht⟩ := h.data_page hx hp hj
  rcases htouch.mem _ hu with hsame | ⟨hleaf, -⟩
  · exact hsame
  · exact absurd ⟨src, hsrc, hleaf.frames⟩ ht

theorem Spaces.forked : Spaces s' procs := by
  refine h.update (h.forest.forked_leaves hsrc htouch) htouch.kept ?_ ?_
  · intro x hx hp
    rw [h.forked_present htouch hx] at hp
    grind [forked_addr, data, Touches.kept, pageAligned_pteAddr]
  · grind [forked_write, forked_present, exclusive, forked_addr]

theorem Spaces.forked_view (hr : r ∈ procs) (hva : UserAddress va) :
    userView s'.mem r va = userView s.mem r va := by
  refine h.view_eq (h.forest.forked_leaves hsrc htouch) hr hva ?_
  intro x hx
  refine ⟨h.forked_present htouch hx, fun _ => ?_, fun hp => ?_, fun hp j hj => ?_⟩
  · rcases h.forked_leaf htouch hx with hsame | hmark
    · rw [hsame]
    · rw [hmark, has_markCow (by decide) (by decide)]
  · rcases h.forked_leaf htouch hx with hsame | hmark
    · rw [hsame]
    · rw [hmark, markCow, if_pos hp, cowEntry_writable]
  · rw [h.forked_addr htouch hx]
    exact h.forked_page hsrc htouch hx hp hj

variable (hcloned : Cloned 3 s s' src d)
include hcloned

omit h htouch in
/-- Each leaf entry of the child copies one of the parent. -/
theorem Cloned.child_leaf {x : U64} (hx : Leaf s'.mem [d] x) :
    ∃ y, Leaf s.mem procs y ∧ s'.mem x = childEntry (s.mem y) ∧ s'.mem y = markCow (s.mem y) := by
  obtain ⟨r, hr, b', hb', i, hi, rfl⟩ := hx
  obtain rfl := mem_singleton.mp hr
  obtain ⟨b, hb, hentry⟩ := hcloned.mirrors.leafTable hb'
  exact ⟨slot b i, ⟨src, hsrc, b, hb, i, hi, rfl⟩, hentry i hi, hcloned.marked b hb i hi⟩

/-- **A successful fork adds an address space.** -/
theorem Spaces.add (hd : PageAligned d) : Spaces s' (procs ++ [d]) := by
  have hold := h.forked hsrc htouch
  have hleaves := h.forest.forked_leaves hsrc htouch
  have hleaf : ∀ {x}, Leaf s'.mem (procs ++ [d]) x → Leaf s.mem procs x ∨ Leaf s'.mem [d] x := by
    rintro x ⟨r, hr, hx⟩
    rcases mem_append.mp hr with hr | hr
    · exact .inl ((h.leaf_iff hleaves).mp ⟨r, hr, hx⟩)
    · exact .inr ⟨r, hr, hx⟩
  have htable : ∀ {a}, Used s.pmm a → ¬ Table s.mem procs a → ¬ Table s'.mem (procs ++ [d]) a := by
    rintro a hu hnot ⟨r, hr, ha⟩
    rcases mem_append.mp hr with hr | hr
    · exact hnot ((h.forest.table_iff hleaves).mp ⟨r, hr, ha⟩)
    · obtain rfl := mem_singleton.mp hr
      exact (hcloned.fresh a ha).1 hu
  constructor
  case tree => exact (h.forest.forked hsrc htouch hcloned hd).tree
  case apart => exact (h.forest.forked hsrc htouch hcloned hd).apart
  case data =>
    intro x hx hp
    rcases hleaf hx with hx | hx
    · rw [h.forked_present htouch hx] at hp
      grind [data, forked_addr, Touches.kept, pageAligned_pteAddr]
    · obtain ⟨y, hy, hxy, -⟩ := hcloned.child_leaf hsrc hx
      rw [hxy] at hp ⊢
      obtain ⟨hpy, hcow⟩ := childEntry_of_present hp
      grind [data, cowEntry_addr, Touches.kept, pageAligned_pteAddr]
  case exclusive =>
    intro x y hx hy hne hpx hpy heq
    rcases hleaf hx with hx | hx
    · rcases hleaf hy with hy | hy
      · exact hold.exclusive x y ((h.leaf_iff hleaves).mpr hx) ((h.leaf_iff hleaves).mpr hy) hne
          hpx hpy heq
      · -- the entry that `y` copies is not writable any more; it may be `x` itself
        obtain ⟨y₀, hy₀, hcopy, hmark⟩ := hcloned.child_leaf hsrc hy
        rw [hcopy] at hpy heq
        obtain ⟨hpy₀, hcow⟩ := childEntry_of_present hpy
        grind [markCow, cowEntry_write, forked_write, forked_present, exclusive, forked_addr]
    · obtain ⟨x₀, -, hcopy, -⟩ := hcloned.child_leaf hsrc hx
      rw [hcopy] at hpx ⊢
      rw [(childEntry_of_present hpx).2, cowEntry_write]

/-- **The child sees what the parent saw.** -/
theorem Spaces.child_view (hva : UserAddress va) : userView s'.mem d va = userView s.mem src va := by
  have hix := vaIndex_inRange hva
  cases hwalk : walk format 3 s.mem src (vaIndex va) with
  | none =>
    unfold userView
    rw [hwalk, hcloned.mirrors.walk_none hix hwalk]
  | some res =>
    obtain ⟨es, pte⟩ := res
    have hpte := h.walk_leaf hsrc hva hwalk
    obtain ⟨es', pte', hwalk', hflags, hentry⟩ := hcloned.mirrors.walk_some hix hwalk
    refine userView_of_alike hwalk hwalk' hflags ?_
    rw [hentry]
    unfold childEntry
    by_cases hp : has (s.mem pte) ptePresent = true
    · rw [if_pos hp]
      refine ⟨has_cowEntry (by decide) (by decide), fun _ => has_cowEntry (by decide) (by decide),
        fun _ => cowEntry_writable _, fun _ j hj => ?_⟩
      rw [cowEntry_addr]
      exact h.forked_page hsrc htouch hpte hp hj
    · rw [if_neg hp]
      rw [Bool.not_eq_true] at hp
      refine ⟨by rw [hp]; decide, fun h => ?_, fun h => ?_, fun h => ?_⟩ <;>
        rw [hp] at h <;> cases h

end

end Vmm
