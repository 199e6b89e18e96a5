import NamelessOS.VmmEntries

/-!
# What cloning a page-table tree does

`cow_clone_pt`, `cow_clone_pdt` and `cow_clone_pdpt` satisfy one contract, by
induction on the level: frames in use stay in use, memory in use changes only
where a leaf entry of the source becomes copy-on-write (also when the clone
fails halfway), and on success the new tree lies in fresh frames and mirrors
the source entry by entry.  The loop over a directory is carried by
`Progress`, which says which entries of the new table are final.
-/

namespace Vmm

open Pmm WordMemory PageTree List
open Function (update update_of_ne update_self)

/-- What a fork leaves in a leaf entry of the parent. -/
def markCow (e : U64) : U64 := if has e ptePresent then cowEntry e else e

/-- What it puts into the child's entry. -/
def childEntry (e : U64) : U64 := if has e ptePresent then cowEntry e else 0#64

theorem has_markCow {e mask : U64} (hw : mask &&& pteWrite = 0#64) (hc : pteCow &&& mask = 0#64) :
    has (markCow e) mask = has e mask := by
  unfold markCow
  split
  · exact has_cowEntry hw hc
  · rfl

theorem markCow_addr (e : U64) : pteAddr (markCow e) = pteAddr e := by
  unfold markCow
  split
  · exact cowEntry_addr e
  · rfl

theorem childEntry_of_present {e : U64} (h : has (childEntry e) ptePresent = true) :
    has e ptePresent = true ∧ childEntry e = cowEntry e := by
  unfold childEntry at h ⊢
  split at h
  · rename_i hp
    exact ⟨hp, if_pos hp⟩
  · exact absurd h (by decide)

/-- Directory entries below the top level map no large page. -/
def NoHuge (k : Nat) (e : U64) : Prop := k < 3 → has e pteHuge = false

/-- A tree of tables, each in a frame of its own that is in use, without large
pages. -/
structure Tree (k : Nat) (s : Vm) (t : U64) : Prop where
  aligned : PageAligned t
  separate : Separate format k s.mem t
  small : Directories format NoHuge k s.mem t
  used : ∀ a, Frames format k s.mem t a → Used s.pmm a

/-- The effect of a clone of `src` on what was in use before. -/
structure Touches (k : Nat) (s s' : Vm) (src : U64) : Prop where
  kept : ∀ p, PageAligned p → Used s.pmm p → Used s'.pmm p
  mem : ∀ x, Used s.pmm (pageOf x) → s'.mem x = s.mem x ∨
    (LeafTable format k s.mem src (pageOf x) ∧ s'.mem x = markCow (s.mem x))

/-- The tree at `d` in `s'` is a copy of the tree at `src` in `s`, and the
source's leaf entries have been marked. -/
structure Cloned (k : Nat) (s s' : Vm) (src d : U64) : Prop where
  fresh : ∀ a, Frames format k s'.mem d a → ¬ Used s.pmm a ∧ Used s'.pmm a
  separate : Separate format k s'.mem d
  mirrors : Mirrors format (fun e e' => e' = childEntry e) k s.mem src s'.mem d
  marked : ∀ b, LeafTable format k s.mem src b →
    ∀ i < 512, s'.mem (slot b i) = markCow (s.mem (slot b i))

/-- **The contract of a clone function** for trees of level `k`. -/
def Clones (k : Nat) (clone : Vm → U64 → Vm × U64) : Prop :=
  ∀ s src, Tree k s src → Touches k s (clone s src).1 src ∧
    ((clone s src).2 ≠ 0#64 → (clone s src).2 &&& pteAddrMask = (clone s src).2 ∧
      PageAligned (clone s src).2 ∧ Cloned k s (clone s src).1 src (clone s src).2)

variable {k : Nat} {s₀ s s' : Vm} {src dst d : U64} {done : List Nat}

/-- A finished copy survives what leaves it and the marked entries alone. -/
theorem Cloned.after (h : Cloned k s₀ s src d) (hsrc : PageAligned src) (hd : PageAligned d)
    (hkept : ∀ p, PageAligned p → Used s.pmm p → Used s'.pmm p)
    (hagree : Agree format k s.mem s'.mem d) (hleaf : ∀ b, LeafTable format k s₀.mem src b →
      ∀ i < 512, s'.mem (slot b i) = s.mem (slot b i)) : Cloned k s₀ s' src d where
  fresh a ha := by
    have ha' := (hagree.frames_iff hd).mp ha
    obtain ⟨hnot, hused⟩ := h.fresh a ha'
    exact ⟨hnot, hkept a (ha'.aligned hd) hused⟩
  separate := hagree.separate hd h.separate
  mirrors := h.mirrors.congr hsrc hd (Agree.refl _ _ _ _) hagree
  marked b hb i hi := by rw [hleaf b hb i hi, h.marked b hb i hi]

/-- A copy made later is a copy of the earlier tree, if that had not changed. -/
theorem Cloned.before (h : Cloned k s s' src d) (hsrc : PageAligned src) (hd : PageAligned d)
    (hkept : ∀ p, PageAligned p → Used s₀.pmm p → Used s.pmm p)
    (hagree : Agree format k s₀.mem s.mem src) : Cloned k s₀ s' src d where
  fresh a ha := by
    obtain ⟨hnot, hused⟩ := h.fresh a ha
    exact ⟨fun hu => hnot (hkept a (ha.aligned hd) hu), hused⟩
  separate := h.separate
  mirrors := h.mirrors.congr hsrc hd (hagree.symm hsrc) (Agree.refl _ _ _ _)
  marked b hb i hi := by
    have hsame : s.mem (slot b i) = s₀.mem (slot b i) := by
      apply hagree
      rw [pageOf_slot (hb.frames.aligned hsrc) hi]
      exact hb.frames
    rw [h.marked b ((hagree.leafTable_iff hsrc).mpr hb) i hi, hsame]

/-- The same tree in a state that agrees on it. -/
theorem Tree.congr (h : Tree k s₀ src) (hkept : ∀ p, PageAligned p → Used s₀.pmm p → Used s.pmm p)
    (hagree : Agree format k s₀.mem s.mem src) : Tree k s src where
  aligned := h.aligned
  separate := hagree.separate h.aligned h.separate
  small := hagree.directories h.aligned h.small
  used a ha := by
    have ha' := (hagree.frames_iff h.aligned).mp ha
    exact hkept a (ha'.aligned h.aligned) (h.used a ha')

theorem Tree.child {i : Nat} (h : Tree (k + 1) s src) (hi : HasChild format (k + 1) s.mem src i) :
    Tree k s (child format s.mem src i) where
  aligned := format.addr_aligned _
  separate := (h.separate.1 i hi).1
  small := (h.small i hi).2
  used a ha := h.used a (ha.child hi)

/-! ## A page table -/

/-- One round writes the parent's entry and then the child's. -/
theorem cowCloneEntry_eq (src dst : U64) (m : Memory) (i : Nat) : cowCloneEntry src dst m i = update
      (update m (slot src i) (markCow (m (slot src i)))) (slot dst i)
      (childEntry (m (slot src i))) := by
  unfold cowCloneEntry markCow childEntry cowEntry
  by_cases hp : has (m (slot src i)) ptePresent = true
  · by_cases hw : has (m (slot src i)) pteWrite = true
    · simp [hp, hw]
    · simp [hp, hw]
  · simp [hp]

/-- The loop of `cow_clone_pt` after `n` rounds. -/
theorem cowCloneEntry_foldl (hsrc : PageAligned src) (hdst : PageAligned dst) (hne : src ≠ dst)
    (m : Memory) {n : Nat} (hn : n ≤ 512) :
    (∀ i < n, (range n).foldl (cowCloneEntry src dst) m (slot dst i) = childEntry (m (slot src i)) ∧
      (range n).foldl (cowCloneEntry src dst) m (slot src i) = markCow (m (slot src i))) ∧
    ∀ x, (∀ i < n, x ≠ slot dst i ∧ x ≠ slot src i) →
      (range n).foldl (cowCloneEntry src dst) m x = m x := by
  induction n with
  | zero => exact ⟨fun i hi => absurd hi (Nat.not_lt_zero i), fun _ _ => rfl⟩
  | succ n ih =>
    obtain ⟨hin, hout⟩ := ih (by omega)
    rw [range_succ, foldl_append]
    dsimp only [foldl_cons, foldl_nil]
    generalize (range n).foldl (cowCloneEntry src dst) m = m₁ at hin hout
    have hsrcn : m₁ (slot src n) = m (slot src n) := by
      apply hout
      intro i hi
      rw [Ne, Ne, slot_inj hsrc hdst (by omega) (by omega),
        slot_inj hsrc hsrc (by omega) (by omega)]
      exact ⟨fun h => hne h.1, fun h => by omega⟩
    rw [cowCloneEntry_eq, hsrcn]
    constructor
    · intro i hi
      have hdi : slot dst i = slot dst n ↔ i = n := by
        rw [slot_inj hdst hdst (by omega) (by omega)]
        simp
      have hsi : slot src i = slot src n ↔ i = n := by
        rw [slot_inj hsrc hsrc (by omega) (by omega)]
        simp
      have hsd : ∀ j ≤ n, ∀ j' ≤ n, slot src j ≠ slot dst j' := by
        intro j hj j' hj' heq
        exact hne ((slot_inj hsrc hdst (by omega) (by omega)).mp heq).1
      rcases Nat.lt_or_ge i n with hlt | hge
      · rw [update_of_ne (fun h => by have := hdi.mp h; omega),
          update_of_ne (fun h => hsd n le_rfl i (by omega) h.symm),
          update_of_ne (hsd i (by omega) n le_rfl),
          update_of_ne (fun h => by have := hsi.mp h; omega)]
        exact hin i hlt
      · obtain rfl : i = n := by omega
        rw [update_self, update_of_ne (hsd i le_rfl i le_rfl), update_self]
        exact ⟨rfl, rfl⟩
    grind

theorem cowClonePt_clones : Clones 0 cowClonePt := by
  intro s src htree
  unfold cowClonePt
  have halloc := pmmAllocFrame_result s.pmm
  generalize pmmAllocFrame s.pmm = r at halloc
  cases halloc with
  | none pmm' hkeep =>
    rw [if_pos rfl]
    exact ⟨⟨fun p _ hu => hkeep p hu, fun x _ => .inl rfl⟩, fun h => absurd rfl h⟩
  | frame pmm' d hne haligned hmask hfresh hused =>
    rw [if_neg hne]
    have hsd : src ≠ d := fun h => hfresh (h ▸ htree.used src rfl)
    obtain ⟨hin, hout⟩ :=
      cowCloneEntry_foldl htree.aligned haligned hsd s.mem (n := ptEntries) le_rfl
    generalize (range ptEntries).foldl (cowCloneEntry src d) s.mem = m' at hin hout ⊢
    refine ⟨⟨fun p hp hu => (hused p hp).mpr (.inl hu), ?_⟩, fun _ => ⟨hmask, haligned, ?_⟩⟩
    · intro x hx
      by_cases hslot : ∃ i < 512, x = slot src i
      · obtain ⟨i, hi, rfl⟩ := hslot
        right
        rw [pageOf_slot htree.aligned hi]
        exact ⟨rfl, (hin i hi).2⟩
      · left
        apply hout
        intro i hi
        refine ⟨?_, fun h => hslot ⟨i, hi, h⟩⟩
        rintro rfl
        rw [pageOf_slot haligned hi] at hx
        exact hfresh hx
    · refine ⟨?_, trivial, fun i hi => (hin i hi).1, ?_⟩
      · rintro a rfl
        exact ⟨hfresh, (hused a haligned).mpr (.inr rfl)⟩
      · rintro b rfl i hi
        exact (hin i hi).2

/-! ## The loop over a directory -/

/-- Where a directory clone starts: the source tree, and a new table outside
it that is already accounted for. -/
structure LoopStart (k : Nat) (s₀ : Vm) (src dst : U64) : Prop where
  tree : Tree (k + 1) s₀ src
  aligned : PageAligned dst
  used : Used s₀.pmm dst
  apart : ¬ Frames format (k + 1) s₀.mem src dst

/-- The state after the entries in `done` were written: the copies below them
are finished, pairwise disjoint and in frames that are new since `s₀`. -/
structure Progress (k : Nat) (s₀ s : Vm) (src dst : U64) (done : List Nat) : Prop where
  kept : ∀ p, PageAligned p → Used s₀.pmm p → Used s.pmm p
  mem : ∀ x, Used s₀.pmm (pageOf x) → pageOf x ≠ dst → s.mem x = s₀.mem x ∨
    (LeafTable format (k + 1) s₀.mem src (pageOf x) ∧ s.mem x = markCow (s₀.mem x))
  bounded : ∀ i ∈ done, i < format.fanout (k + 1)
  pending : ∀ i < 512, i ∉ done → s.mem (slot dst i) = s₀.mem (slot dst i)
  absent : ∀ i ∈ done, ¬ HasChild format (k + 1) s₀.mem src i → s.mem (slot dst i) = 0#64
  flags : ∀ i ∈ done, HasChild format (k + 1) s₀.mem src i →
    format.flags (s.mem (slot dst i)) = format.flags (s₀.mem (slot src i))
  cloned : ∀ i ∈ done, HasChild format (k + 1) s₀.mem src i →
    Cloned k s₀ s (child format s₀.mem src i) (child format s.mem dst i)
  disjoint : ∀ i ∈ done, ∀ j ∈ done, HasChild format (k + 1) s₀.mem src i →
    HasChild format (k + 1) s₀.mem src j → i ≠ j →
    ∀ a, Frames format k s.mem (child format s.mem dst i) a →
      ¬ Frames format k s.mem (child format s.mem dst j) a

/-- The tree below entry `i` of the source is as it was. -/
def Untouched (k : Nat) (s₀ s : Vm) (src : U64) (i : Nat) : Prop :=
  HasChild format (k + 1) s₀.mem src i → Agree format k s₀.mem s.mem (child format s₀.mem src i)

theorem Progress.start (s₀ : Vm) (src dst : U64) : Progress k s₀ s₀ src dst [] where
  kept _ _ hu := hu
  mem _ _ _ := .inl rfl
  bounded _ hi := by cases hi
  pending _ _ _ := rfl
  absent _ hi := by cases hi
  flags _ hi := by cases hi
  cloned _ hi := by cases hi
  disjoint _ hi := by cases hi

/-- Directory entries of the source do not change. -/
theorem Progress.entry (h : Progress k s₀ s src dst done) (hstart : LoopStart k s₀ src dst)
    {i : Nat} (hi : i < 512) : s.mem (slot src i) = s₀.mem (slot src i) := by
  have hpage := pageOf_slot hstart.tree.aligned hi
  have hroot := frames_root (F := format) (k + 1) s₀.mem src
  rcases h.mem (slot src i) (by rw [hpage]; exact hstart.tree.used src hroot)
    (by rw [hpage]; exact fun heq => hstart.apart (heq ▸ hroot)) with hsame | ⟨hleaf, -⟩
  · exact hsame
  · rw [hpage] at hleaf
    exact absurd hleaf hstart.tree.separate.root_not_leafTable

/-- A clone below entry `i` changes no table outside that subtree. -/
theorem Touches.outside {i : Nat} (htouch : Touches k s s' (child format s₀.mem src i))
    (hi : HasChild format (k + 1) s₀.mem src i) (hun : Untouched k s₀ s src i) {x : U64}
    (hused : Used s.pmm (pageOf x))
    (hout : ¬ Frames format k s₀.mem (child format s₀.mem src i) (pageOf x)) :
    s'.mem x = s.mem x := by
  rcases htouch.mem x hused with hsame | ⟨hleaf, -⟩
  · exact hsame
  · have hleaf' := ((hun hi).leafTable_iff (format.addr_aligned _)).mp hleaf
    exact absurd hleaf'.frames hout

section
variable (hstart : LoopStart k s₀ src dst) (h : Progress k s₀ s src dst done)
include hstart h

variable {i j : Nat}

section

variable (hi : HasChild format (k + 1) s₀.mem src i) (hun : Untouched k s₀ s src i)
  (htouch : Touches k s s' (child format s₀.mem src i))
include hi hun htouch

/-- Another clone leaves the new directory alone. -/
theorem Progress.touched_slot
    (hj : j < 512) : s'.mem (slot dst j) = s.mem (slot dst j) := by
  have hpage := pageOf_slot hstart.aligned hj
  apply htouch.outside hi hun <;> rw [hpage]
  · exact h.kept dst hstart.aligned hstart.used
  · exact fun hmem => hstart.apart (hmem.child hi)

/-- It leaves the finished copies alone too. -/
theorem Progress.touched_copy
    (hj : j ∈ done) (hcj : HasChild format (k + 1) s₀.mem src j) :
    child format s'.mem dst j = child format s.mem dst j ∧
      Agree format k s.mem s'.mem (child format s.mem dst j) := by
  constructor
  · rw [child, h.touched_slot hstart hi hun htouch hcj.lt, child]
  · intro x hx
    obtain ⟨hfresh, hused⟩ := (h.cloned j hj hcj).fresh _ hx
    exact htouch.outside hi hun hused
      (fun hmem => hfresh (hstart.tree.used _ (hmem.child hi)))

end

/-- Another clone, finished or not, keeps what the loop has achieved. -/
theorem Progress.touched (hi : HasChild format (k + 1) s₀.mem src i) (hnew : i ∉ done)
    (hun : Untouched k s₀ s src i) (htouch : Touches k s s' (child format s₀.mem src i)) :
    Progress k s₀ s' src dst done := by
  have hslot : ∀ {j}, j < 512 → s'.mem (slot dst j) = s.mem (slot dst j) :=
    h.touched_slot hstart hi hun htouch
  have hcopy : ∀ {j}, j ∈ done → HasChild format (k + 1) s₀.mem src j →
      child format s'.mem dst j = child format s.mem dst j ∧
        Agree format k s.mem s'.mem (child format s.mem dst j) :=
    h.touched_copy hstart hi hun htouch
  constructor
  case kept => exact fun p hp hu => htouch.kept p hp (h.kept p hp hu)
  case mem =>
    intro x hx hdst
    rcases htouch.mem x (h.kept _ (pageAligned_pageOf x) hx) with hsame | ⟨hleaf, hmark⟩
    · rw [hsame]
      exact h.mem x hx hdst
    · right
      have hleaf' := ((hun hi).leafTable_iff (format.addr_aligned _)).mp hleaf
      rw [hmark, hun hi x hleaf'.frames]
      exact ⟨⟨i, hi, hleaf'⟩, rfl⟩
  case bounded => exact h.bounded
  case pending =>
    intro j hj hpend
    rw [hslot hj]
    exact h.pending j hj hpend
  case absent =>
    intro j hj hcj
    rw [hslot (Nat.lt_of_lt_of_le (h.bounded j hj) (format.fanout_le _))]
    exact h.absent j hj hcj
  case flags =>
    intro j hj hcj
    rw [hslot hcj.lt]
    exact h.flags j hj hcj
  case cloned =>
    intro j hj hcj
    obtain ⟨hchild, hagree⟩ := hcopy hj hcj
    rw [hchild]
    refine (h.cloned j hj hcj).after (format.addr_aligned _) (format.addr_aligned _) htouch.kept
      hagree ?_
    intro b hb l hl
    have hpage := pageOf_slot (hb.frames.aligned (format.addr_aligned _)) hl
    have hij : j ≠ i := fun heq => hnew (heq ▸ hj)
    apply htouch.outside hi hun <;> rw [hpage]
    · exact h.kept b (hb.frames.aligned (format.addr_aligned _))
        (hstart.tree.used b (hb.frames.child hcj))
    · exact hstart.tree.separate.2 j i hcj hi hij b hb.frames
  case disjoint =>
    intro j hj l hl hcj hcl hne a ha ha'
    rw [(hcopy hj hcj).1, (hcopy hj hcj).2.frames_iff (format.addr_aligned _)] at ha
    rw [(hcopy hl hcl).1, (hcopy hl hcl).2.frames_iff (format.addr_aligned _)] at ha'
    exact h.disjoint j hj l hl hcj hcl hne a ha ha'

/-- Writing entry `i` of the new table finishes it. -/
theorem Progress.write {v : U64} (hlt : i < format.fanout (k + 1)) (hnew : i ∉ done)
    (habsent : ¬ HasChild format (k + 1) s₀.mem src i → v = 0#64)
    (hpresent : HasChild format (k + 1) s₀.mem src i →
      format.flags v = format.flags (s₀.mem (slot src i)) ∧
      Cloned k s₀ s (child format s₀.mem src i) (format.addr v) ∧
      ∀ j ∈ done, HasChild format (k + 1) s₀.mem src j →
        ∀ a, Frames format k s.mem (child format s.mem dst j) a →
          ¬ Frames format k s.mem (format.addr v) a) :
    Progress k s₀ (s.write (slot dst i) v) src dst (i :: done) := by
  have hi512 := Nat.lt_of_lt_of_le hlt (format.fanout_le _)
  have hout : ∀ x, pageOf x ≠ dst → (s.write (slot dst i) v).mem x = s.mem x := by
    intro x hx
    refine update_of_ne ?_ _ _
    rintro rfl
    exact hx (pageOf_slot hstart.aligned hi512)
  have hself : (s.write (slot dst i) v).mem (slot dst i) = v := update_self _ _ _
  have hother : ∀ j < 512, j ≠ i → (s.write (slot dst i) v).mem (slot dst j) = s.mem (slot dst j) := by
    intro j hj hne
    refine update_of_ne (fun heq => hne ?_) _ _
    exact ((slot_inj hstart.aligned hstart.aligned hj hi512).mp heq).2
  -- a copy has no table in the frame of the new directory, which is not new since `s₀`
  have hagree : ∀ {t d}, Cloned k s₀ s t d → Agree format k s.mem (s.write (slot dst i) v).mem d := by
    intro t d hcl x hx
    apply hout
    intro heq
    rw [heq] at hx
    exact (hcl.fresh dst hx).1 hstart.used
  have hafter : ∀ {j d}, HasChild format (k + 1) s₀.mem src j → PageAligned d →
      Cloned k s₀ s (child format s₀.mem src j) d →
      Cloned k s₀ (s.write (slot dst i) v) (child format s₀.mem src j) d := by
    intro j d hj hd hcl
    refine hcl.after (format.addr_aligned _) hd (fun _ _ hu => hu) (hagree hcl) ?_
    intro b hb l hl
    apply hout
    rw [pageOf_slot (hb.frames.aligned (format.addr_aligned _)) hl]
    rintro rfl
    exact hstart.apart (hb.frames.child hj)
  have hframes : ∀ {t d}, Cloned k s₀ s t d → PageAligned d → ∀ a,
      Frames format k (s.write (slot dst i) v).mem d a ↔ Frames format k s.mem d a :=
    fun hcl hd a => (hagree hcl).frames_iff hd
  have hchildi : child format (s.write (slot dst i) v).mem dst i = format.addr v := by
    rw [child, hself]
  have hchildj : ∀ j < 512, j ≠ i →
      child format (s.write (slot dst i) v).mem dst j = child format s.mem dst j := by
    intro j hj hne
    rw [child, hother j hj hne, child]
  constructor
  case kept => exact h.kept
  case mem =>
    intro x hx hdst
    rw [hout x hdst]
    exact h.mem x hx hdst
  case bounded =>
    intro j hj
    rcases mem_cons.mp hj with rfl | hj
    · exact hlt
    · exact h.bounded j hj
  case pending =>
    intro j hj hpend
    rw [mem_cons, not_or] at hpend
    rw [hother j hj hpend.1]
    exact h.pending j hj hpend.2
  case absent =>
    intro j hj hcj
    rcases mem_cons.mp hj with rfl | hj
    · rw [hself]
      exact habsent hcj
    · have hne : j ≠ i := fun heq => hnew (heq ▸ hj)
      rw [hother j (Nat.lt_of_lt_of_le (h.bounded j hj) (format.fanout_le _)) hne]
      exact h.absent j hj hcj
  case flags =>
    intro j hj hcj
    rcases mem_cons.mp hj with rfl | hj
    · rw [hself]
      exact (hpresent hcj).1
    · have hne : j ≠ i := fun heq => hnew (heq ▸ hj)
      rw [hother j hcj.lt hne]
      exact h.flags j hj hcj
  case cloned =>
    intro j hj hcj
    rcases mem_cons.mp hj with rfl | hj
    · rw [hchildi]
      exact hafter hcj (format.addr_aligned _) (hpresent hcj).2.1
    · have hne : j ≠ i := fun heq => hnew (heq ▸ hj)
      rw [hchildj j hcj.lt hne]
      exact hafter hcj (format.addr_aligned _) (h.cloned j hj hcj)
  case disjoint =>
    intro j hj l hl hcj hcl hne a ha ha'
    have hold : ∀ {j}, j ∈ done → j ≠ i := fun hj heq => hnew (heq ▸ hj)
    rcases mem_cons.mp hj with hji | hj' <;> rcases mem_cons.mp hl with hli | hl'
    · exact hne (hji.trans hli.symm)
    · subst hji
      rw [hchildi, hframes (hpresent hcj).2.1 (format.addr_aligned _)] at ha
      rw [hchildj l hcl.lt (hold hl'), hframes (h.cloned l hl' hcl) (format.addr_aligned _)] at ha'
      exact (hpresent hcj).2.2 l hl' hcl a ha' ha
    · subst hli
      rw [hchildj j hcj.lt (hold hj'), hframes (h.cloned j hj' hcj) (format.addr_aligned _)] at ha
      rw [hchildi, hframes (hpresent hcl).2.1 (format.addr_aligned _)] at ha'
      exact (hpresent hcl).2.2 j hj' hcj a ha ha'
    · rw [hchildj j hcj.lt (hold hj'), hframes (h.cloned j hj' hcj) (format.addr_aligned _)] at ha
      rw [hchildj l hcl.lt (hold hl'), hframes (h.cloned l hl' hcl) (format.addr_aligned _)] at ha'
      exact h.disjoint j hj' l hl' hcj hcl hne a ha ha'

/-- The subtrees still to come stay as they were. -/
theorem Untouched.touched (hi : HasChild format (k + 1) s₀.mem src i) (hne : j ≠ i)
    (hun : Untouched k s₀ s src i) (hunj : Untouched k s₀ s src j)
    (htouch : Touches k s s' (child format s₀.mem src i)) : Untouched k s₀ s' src j := by
  intro hj x hx
  rw [← hunj hj x hx]
  have haligned := hx.aligned (format.addr_aligned _)
  exact htouch.outside hi hun (h.kept _ haligned (hstart.tree.used _ (hx.child hj)))
    (hstart.tree.separate.2 j i hj hi hne _ hx)

omit h in
theorem Untouched.write (hi : i < 512) (v : U64) (hunj : Untouched k s₀ s src j) :
    Untouched k s₀ (s.write (slot dst i) v) src j := by
  intro hj x hx
  rw [← hunj hj x hx]
  refine update_of_ne ?_ _ _
  rintro rfl
  rw [pageOf_slot hstart.aligned hi] at hx
  exact hstart.apart (hx.child hj)

end

/-- The two functions do the same to the table below entry `i`, if there is one. -/
def SameBelow (k : Nat) (s₀ s : Vm) (src : U64) (i : Nat)
    (clone clone' : Vm → U64 → Vm × U64) : Prop :=
  HasChild format (k + 1) s₀.mem src i →
    clone' s (child format s₀.mem src i) = clone s (child format s₀.mem src i)

variable {clone : Vm → U64 → Vm × U64}

section

variable (verbatim : U64 → Bool) (hclone : Clones k clone) (hstart : LoopStart k s₀ src dst)
  (hverb : ∀ i, HasChild format (k + 1) s₀.mem src i → verbatim (s₀.mem (slot src i)) = false)
include hclone hstart hverb

/-- **One round of the loop**: the clone below entry `i` fails and the loop is
left, or the entry is finished.  The loop takes the same turn with any function
that does the same below this entry. -/
theorem cloneEntries_round
    {i : Nat} {is : List Nat} (hlt : i < format.fanout (k + 1)) (hnot : i ∉ is) (hnew : i ∉ done)
    (h : Progress k s₀ s src dst done) (hun : ∀ j ∈ i :: is, Untouched k s₀ s src j) :
    ((clone s (child format s₀.mem src i)).2 = 0#64 ∧ HasChild format (k + 1) s₀.mem src i ∧
      (∀ clone', SameBelow k s₀ s src i clone clone' →
        cloneEntries verbatim clone' src dst (i :: is) s =
          ((clone s (child format s₀.mem src i)).1, false)) ∧
      Progress k s₀ (clone s (child format s₀.mem src i)).1 src dst done) ∨
    ∃ s', (∀ clone', SameBelow k s₀ s src i clone clone' →
        cloneEntries verbatim clone' src dst (i :: is) s =
          cloneEntries verbatim clone' src dst is s') ∧
      Progress k s₀ s' src dst (i :: done) ∧ (∀ j ∈ is, Untouched k s₀ s' src j) ∧
      s'.pmm = if format.present (s₀.mem (slot src i)) then
        (clone s (child format s₀.mem src i)).1.pmm else s.pmm := by
  have hi512 := Nat.lt_of_lt_of_le hlt (format.fanout_le _)
  have huni := hun i mem_cons_self
  have hentry := h.entry hstart hi512
  have hunwrite : ∀ {s'} v, (∀ j ∈ is, Untouched k s₀ s' src j) →
      ∀ j ∈ is, Untouched k s₀ (s'.write (slot dst i) v) src j :=
    fun v hunt j hj => Untouched.write hstart hi512 v (hunt j hj)
  by_cases hp : has (s₀.mem (slot src i)) ptePresent = true
  · have hchild : HasChild format (k + 1) s₀.mem src i := ⟨hlt, hp⟩
    obtain ⟨htouch, hcl⟩ := hclone s (child format s₀.mem src i)
      ((hstart.tree.child hchild).congr h.kept (huni hchild))
    have hround : ∀ clone', SameBelow k s₀ s src i clone clone' →
        cloneEntries verbatim clone' src dst (i :: is) s =
          if (clone s (child format s₀.mem src i)).2 = 0#64 then
            ((clone s (child format s₀.mem src i)).1, false)
          else cloneEntries verbatim clone' src dst is
            ((clone s (child format s₀.mem src i)).1.write (slot dst i)
              ((s₀.mem (slot src i) &&& ~~~pteAddrMask) |||
                (clone s (child format s₀.mem src i)).2)) := by
      intro clone' hsame
      rw [cloneEntries, hentry, hp, hverb i hchild, ← hsame hchild]
      rfl
    rw [if_pos hchild.2]
    generalize clone s (child format s₀.mem src i) = r at htouch hcl hround ⊢
    have hprog := h.touched hstart hchild hnew huni htouch
    by_cases hz : r.2 = 0#64
    · exact .inl ⟨hz, hchild, fun clone' hsame => (hround clone' hsame).trans (if_pos hz), hprog⟩
    · obtain ⟨hmask, haligned, hcl⟩ := hcl hz
      have hred := redirect (e := s₀.mem (slot src i)) hmask
      have hcl₀ := hcl.before (format.addr_aligned _) haligned h.kept (huni hchild)
      refine .inr ⟨_, fun clone' hsame => (hround clone' hsame).trans (if_neg hz),
        hprog.write hstart hlt hnew (fun hno => absurd hchild hno) ?_, hunwrite _ ?_, rfl⟩
      · intro _
        refine ⟨hred.2, ?_, ?_⟩
        · rw [show format.addr _ = r.2 from hred.1]
          exact hcl₀
        · intro j hj hcj a ha hnewa
          rw [show format.addr _ = r.2 from hred.1] at hnewa
          obtain ⟨hsame, hagree⟩ := h.touched_copy hstart hchild huni htouch hj hcj
          rw [hsame, hagree.frames_iff (format.addr_aligned _)] at ha
          exact (hcl.fresh a hnewa).1 ((h.cloned j hj hcj).fresh a ha).2
      grind [Untouched.touched]
  · have hnone : ¬ HasChild format (k + 1) s₀.mem src i := fun hchild => hp hchild.2
    rw [if_neg (show ¬ format.present (s₀.mem (slot src i)) = true from hp)]
    rw [Bool.not_eq_true] at hp
    refine .inr ⟨_, fun clone' _ => ?_, h.write hstart hlt hnew (fun _ => rfl)
      (fun hchild => absurd hchild hnone),
      hunwrite _ (fun j hj => hun j (mem_cons_of_mem i hj)), rfl⟩
    rw [cloneEntries, hentry, hp]
    rfl

/-- **The loop over a directory.**  It ends with some entries finished, and
with all of them unless a clone failed. -/
theorem cloneEntries_progress
    (is : List Nat) (hrange : ∀ i ∈ is, i < format.fanout (k + 1)) (hnodup : is.Nodup)
    (hnew : ∀ i ∈ is, i ∉ done) (h : Progress k s₀ s src dst done)
    (hun : ∀ i ∈ is, Untouched k s₀ s src i) :
    ∃ done', Progress k s₀ (cloneEntries verbatim clone src dst is s).1 src dst done' ∧
      ((cloneEntries verbatim clone src dst is s).2 = true → ∀ i, i ∈ is ∨ i ∈ done → i ∈ done') := by
  induction is generalizing s done with
  | nil =>
    refine ⟨done, h, fun _ i hi => ?_⟩
    rcases hi with hi | hi
    · cases hi
    · exact hi
  | cons i is ih =>
    obtain ⟨hnot, hnodup⟩ := nodup_cons.mp hnodup
    rcases cloneEntries_round verbatim hclone hstart hverb (hrange i mem_cons_self) hnot
      (hnew i mem_cons_self) h hun with ⟨-, -, hleft, hprog⟩ | ⟨s', hgoes, hprog, hunt, -⟩
    · rw [hleft clone (fun _ => rfl)]
      exact ⟨done, hprog, fun hok => by cases hok⟩
    · rw [hgoes clone (fun _ => rfl)]
      obtain ⟨done', hprog', hall⟩ := ih (fun j hj => hrange j (mem_cons_of_mem i hj)) hnodup
        (fun j hj hmem => by
          rcases mem_cons.mp hmem with rfl | hmem
          · exact hnot hj
          · exact hnew j (mem_cons_of_mem i hj) hmem) hprog hunt
      refine ⟨done', hprog', fun hok j hj => hall hok j ?_⟩
      simp only [mem_cons] at hj ⊢
      tauto

end

/-! ## A directory -/

/-- `s₀` is `s` after the frame `dst` was taken and possibly written. -/
structure Prepared (s s₀ : Vm) (dst : U64) : Prop where
  aligned : PageAligned dst
  fresh : ¬ Used s.pmm dst
  used : ∀ p, PageAligned p → (Used s₀.pmm p ↔ Used s.pmm p ∨ p = dst)
  mem : ∀ x, pageOf x ≠ dst → s₀.mem x = s.mem x

section
variable (hprep : Prepared s s₀ dst) (htree : Tree (k + 1) s src)
include hprep htree

theorem Prepared.agree : Agree format (k + 1) s.mem s₀.mem src := by
  intro x hx
  refine hprep.mem x (fun heq => hprep.fresh ?_)
  rw [heq] at hx
  exact htree.used dst hx

theorem Prepared.loopStart : LoopStart k s₀ src dst where
  tree := htree.congr (fun p hp hu => (hprep.used p hp).mpr (.inl hu)) (hprep.agree htree)
  aligned := hprep.aligned
  used := (hprep.used dst hprep.aligned).mpr (.inr rfl)
  apart hmem := by
    rw [(hprep.agree htree).frames_iff htree.aligned] at hmem
    exact hprep.fresh (htree.used dst hmem)

variable (h : Progress k s₀ s' src dst done)
include h

theorem Progress.touches : Touches (k + 1) s s' src where
  kept p hp hu := h.kept p hp ((hprep.used p hp).mpr (.inl hu))
  mem x hx := by
    have hdst : pageOf x ≠ dst := fun heq => hprep.fresh (heq ▸ hx)
    have hpage := pageAligned_pageOf x
    rw [← hprep.mem x hdst, ← (hprep.agree htree).leafTable_iff htree.aligned]
    exact h.mem x ((hprep.used _ hpage).mpr (.inl hx)) hdst

omit hprep htree in
/-- A pointer in the new table is the copy of one in the source. -/
theorem Progress.hasChild {i : Nat} (hi : HasChild format (k + 1) s'.mem dst i) (hdone : i ∈ done) :
    HasChild format (k + 1) s₀.mem src i := by
  by_contra hno
  have hp := hi.2
  rw [h.absent i hdone hno] at hp
  exact absurd hp (by decide)

omit htree in
/-- The finished copies use frames that are new since `s`. -/
theorem Progress.fresh {i : Nat} (hdone : i ∈ done) (hi : HasChild format (k + 1) s'.mem dst i)
    {a : U64} (ha : Frames format k s'.mem (child format s'.mem dst i) a) :
    ¬ Used s.pmm a ∧ Used s'.pmm a := by
  obtain ⟨hnot, hused⟩ := (h.cloned i hdone (h.hasChild hi hdone)).fresh a ha
  have haligned := ha.aligned (format.addr_aligned _)
  exact ⟨fun hu => hnot ((hprep.used a haligned).mpr (.inl hu)), hused⟩

/-- **A completed loop** has cloned the directory. -/
theorem Progress.completed (hall : ∀ i < format.fanout (k + 1), i ∈ done) :
    Cloned (k + 1) s s' src dst := by
  have hdst : ¬ Used s.pmm dst ∧ Used s'.pmm dst := ⟨hprep.fresh,
    h.kept dst hprep.aligned ((hprep.used dst hprep.aligned).mpr (.inr rfl))⟩
  have hused₀ : Used s₀.pmm dst := (hprep.used dst hprep.aligned).mpr (.inr rfl)
  have hagree := hprep.agree htree
  have hsub : ∀ {i}, HasChild format (k + 1) s'.mem dst i →
      Cloned k s₀ s' (child format s₀.mem src i) (child format s'.mem dst i) :=
    fun hi => h.cloned _ (hall _ hi.1) (h.hasChild hi (hall _ hi.1))
  constructor
  case fresh =>
    rintro a (rfl | ⟨i, hi, ha⟩)
    · exact hdst
    · exact h.fresh hprep (hall i hi.1) hi ha
  case separate =>
    constructor
    · exact fun i hi => ⟨(hsub hi).separate, fun hmem => ((hsub hi).fresh dst hmem).1 hused₀⟩
    · intro i j hi hj hne
      exact h.disjoint i (hall i hi.1) j (hall j hj.1) (h.hasChild hi (hall i hi.1))
        (h.hasChild hj (hall j hj.1)) hne
  case mirrors =>
    have hmir : Mirrors format (fun e e' => e' = childEntry e) (k + 1) s₀.mem src s'.mem dst := by
      intro i hi
      by_cases hp : format.present (s₀.mem (slot src i)) = true
      · rw [if_pos hp]
        exact ⟨h.flags i (hall i hi) ⟨hi, hp⟩, (h.cloned i (hall i hi) ⟨hi, hp⟩).mirrors⟩
      · rw [if_neg hp, h.absent i (hall i hi) (fun hc => hp hc.2)]
        decide
    exact hmir.congr htree.aligned hprep.aligned (hagree.symm htree.aligned) (Agree.refl _ _ _ _)
  case marked =>
    intro b hb i hi
    have hb₀ := (hagree.leafTable_iff htree.aligned).mpr hb
    obtain ⟨j, hj, hleaf⟩ := hb₀
    have hsame : s₀.mem (slot b i) = s.mem (slot b i) := by
      apply hagree
      rw [pageOf_slot (hb.frames.aligned htree.aligned) hi]
      exact hb.frames
    rw [(h.cloned j (hall j hj.1) hj).marked b hleaf i hi, hsame]

end

theorem Touches.free (h : Touches k s s' src) (haligned : PageAligned d) (hfresh : ¬ Used s.pmm d) :
    Touches k s (s'.free d) src where
  kept p hp hu := by
    refine (h.kept p hp hu).free (fun heq => hfresh ?_)
    rw [← frameOf_inj hp haligned heq]
    exact hu
  mem := h.mem

/-- **Directories are cloned if the tables below them are.** -/
theorem cowCloneDir_clones (hk : k + 1 < 3) (hclone : Clones k clone) :
    Clones (k + 1) (cowCloneDir clone) := by
  intro s src htree
  unfold cowCloneDir
  have halloc := pmmAllocFrame_result s.pmm
  generalize pmmAllocFrame s.pmm = r at halloc
  cases halloc with
  | none pmm' hkeep =>
    rw [if_pos rfl]
    exact ⟨⟨fun p _ hu => hkeep p hu, fun x _ => .inl rfl⟩, fun h => absurd rfl h⟩
  | frame pmm' d hne haligned hmask hfresh hused =>
    rw [if_neg hne]
    have hprep : Prepared s { s with pmm := pmm' } d := ⟨haligned, hfresh, hused, fun _ _ => rfl⟩
    have hfanout : format.fanout (k + 1) = ptEntries := if_neg (by omega)
    obtain ⟨done, hprog, hall⟩ := cloneEntries_progress (has · pteHuge) hclone
      (hprep.loopStart htree) (fun i hi => (htree.small i hi).1 hk)
      (range ptEntries) (fun i hi => hfanout ▸ mem_range.mp hi)
      nodup_range (fun _ _ hmem => by cases hmem) (Progress.start _ src d)
      (fun _ _ _ => Agree.refl _ _ _ _)
    grind [Progress.touches, Progress.completed, Touches.free]

theorem cowClonePdt_clones : Clones 1 cowClonePdt :=
  cowCloneDir_clones (by decide) cowClonePt_clones

theorem cowClonePdpt_clones : Clones 2 cowClonePdpt :=
  cowCloneDir_clones (by decide) cowClonePdt_clones

end Vmm
