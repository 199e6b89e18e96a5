import NamelessOS.Vmm

/-!
# Page-table entries and frames

What the bit operations of `vmm.c` do to the fields of an entry, the entry
format as an instance of `PageTree.Format`, and which frames an allocation may
return.
-/

namespace Vmm

open Pmm WordMemory PageTree WordBitmap BitVec
open BitVec (ofNat)

/-! ## Masks -/

variable {x a b f : U64}

/-- Updating fields outside `f` leaves `f`. -/
theorem update_and_other (ha : f &&& a = 0#64) (hb : b &&& f = 0#64) :
    ((x &&& ~~~a) ||| b) &&& f = x &&& f := by
  apply eq_of_getLsbD_eq
  intro i hi
  have hai := congrArg (fun v => v.getLsbD i) ha
  have hbi := congrArg (fun v => v.getLsbD i) hb
  simp only [getLsbD_and, getLsbD_or, getLsbD_not, getLsbD_zero, hi,
    decide_true, Bool.true_and] at hai hbi ⊢
  revert hai hbi
  cases x.getLsbD i <;> cases a.getLsbD i <;> cases b.getLsbD i <;> cases f.getLsbD i <;> decide

/-- A field that is set reads as set. -/
theorem update_and_set (hb : b &&& f = f) : ((x &&& ~~~a) ||| b) &&& f = f := by
  apply eq_of_getLsbD_eq
  intro i hi
  have hbi := congrArg (fun v => v.getLsbD i) hb
  simp only [getLsbD_and, getLsbD_or, getLsbD_not, hi, decide_true,
    Bool.true_and] at hbi ⊢
  revert hbi
  cases x.getLsbD i <;> cases a.getLsbD i <;> cases b.getLsbD i <;> cases f.getLsbD i <;> decide

/-- A field that is replaced reads as its new value. -/
theorem update_and_cleared (ha : f &&& a = f) : ((x &&& ~~~a) ||| b) &&& f = b &&& f := by
  apply eq_of_getLsbD_eq
  intro i hi
  have hai := congrArg (fun v => v.getLsbD i) ha
  simp only [getLsbD_and, getLsbD_or, getLsbD_not, hi, decide_true,
    Bool.true_and] at hai ⊢
  revert hai
  cases x.getLsbD i <;> cases a.getLsbD i <;> cases b.getLsbD i <;> cases f.getLsbD i <;> decide

theorem has_update_other (ha : f &&& a = 0#64) (hb : b &&& f = 0#64) :
    has ((x &&& ~~~a) ||| b) f = has x f := by
  unfold has
  rw [update_and_other ha hb]

variable {mask e : U64}

/-- A bit that is set on one side is set in the union. -/
theorem has_or_right {a b : U64} (h : b &&& mask = mask) (hmask : mask ≠ 0#64) :
    has (a ||| b) mask = true := by
  have hand : (a ||| b) &&& mask = (a &&& mask) ||| mask := by rw [and_or_distrib_right, h]
  rw [has, hand, bne_iff_ne]
  intro hzero
  exact hmask (or_eq_zero_iff.mp hzero).2

/-! ## Addresses -/

theorem getLsbD_pteAddrMask : ∀ i < 64, pteAddrMask.getLsbD i = decide (12 ≤ i ∧ i < 52) := by
  decide

theorem pageAligned_pteAddr (e : U64) : PageAligned (pteAddr e) := by
  have hmask : pteAddrMask.toNat % 2 ^ 12 = 0 := by decide
  show (e &&& pteAddrMask).toNat % 2 ^ 12 = 0
  rw [toNat_and, Nat.and_mod_two_pow, hmask, Nat.and_zero]

/-- A page-aligned address below 2^52 is its own address field. -/
theorem masked_of_aligned (ha : PageAligned a) (hlt : a.toNat < 2 ^ 52) : a &&& pteAddrMask = a := by
  apply eq_of_getLsbD_eq
  intro i hi
  rw [getLsbD_and, getLsbD_pteAddrMask i hi]
  by_cases hmid : 12 ≤ i ∧ i < 52
  · simp [hmid]
  · have hzero : a.getLsbD i = false := by
      rw [BitVec.getLsbD]
      rcases Nat.lt_or_ge i 12 with hlow | hhigh
      · have hbit := Nat.testBit_mod_two_pow a.toNat 12 i
        have hmod : a.toNat % 2 ^ 12 = 0 := ha
        rw [hmod] at hbit
        simpa [hlow] using hbit.symm
      · exact Nat.testBit_lt_two_pow
          (Nat.lt_of_lt_of_le hlt (Nat.pow_le_pow_right (by decide) (by omega)))
    simp [hzero]

theorem masked_frame {n : Nat} (hn : n < pmmMaxFrames) :
    ofNat 64 (n * frameSize) &&& pteAddrMask = ofNat 64 (n * frameSize) := by
  have haddr := frame_address hn
  unfold pmmMaxFrames at hn
  unfold frameSize at haddr ⊢
  apply masked_of_aligned
  · unfold PageAligned
    rw [haddr]
    omega
  · rw [haddr]
    omega

theorem pageAligned_frame {n : Nat} (hn : n < pmmMaxFrames) :
    PageAligned (ofNat 64 (n * frameSize)) := by
  unfold PageAligned
  rw [frame_address hn]
  unfold frameSize
  omega

/-! ## The format -/

/-- A flag outside the address field depends on the flags only. -/
theorem has_of_flags {e' : U64} (hmask : mask &&& pteAddrMask = 0#64)
    (h : e &&& ~~~pteAddrMask = e' &&& ~~~pteAddrMask) : has e mask = has e' mask := by
  have hother : ∀ y : U64, y &&& mask = (y &&& ~~~pteAddrMask) &&& mask := by
    intro y
    have hupd := update_and_other (x := y) (b := 0#64) hmask (by simp)
    rw [or_zero] at hupd
    exact hupd.symm
  unfold has
  rw [hother e, hother e', h]

/-- Entries as the processor and the kernel read them. -/
def format : Format where
  present e := has e ptePresent
  addr := pteAddr
  flags e := e &&& ~~~pteAddrMask
  fanout := userFanout
  addr_aligned := pageAligned_pteAddr
  present_flags e e' h := has_of_flags (by decide) h
  fanout_le k := by
    unfold userFanout
    split <;> decide

/-- An entry pointed at another table. -/
theorem redirect {d : U64} (hd : d &&& pteAddrMask = d) :
    pteAddr ((e &&& ~~~pteAddrMask) ||| d) = d ∧
      ((e &&& ~~~pteAddrMask) ||| d) &&& ~~~pteAddrMask = e &&& ~~~pteAddrMask := by
  constructor
  · unfold pteAddr
    rw [update_and_cleared (by decide), hd]
  · grind

/-- The entry that both sides of a fork get. -/
def cowEntry (e : U64) : U64 := if has e pteWrite then (e &&& ~~~pteWrite) ||| pteCow else e

theorem has_cowEntry (hw : mask &&& pteWrite = 0#64) (hc : pteCow &&& mask = 0#64) :
    has (cowEntry e) mask = has e mask := by
  unfold cowEntry
  split
  · exact has_update_other hw hc
  · rfl

theorem cowEntry_addr (e : U64) : pteAddr (cowEntry e) = pteAddr e := by
  unfold cowEntry pteAddr
  split
  · exact update_and_other (by decide) (by decide)
  · rfl

theorem cowEntry_write (e : U64) : has (cowEntry e) pteWrite = false := by
  unfold cowEntry
  split
  · unfold has
    rw [update_and_cleared (by decide)]
    decide
  · rename_i hw
    simpa using hw

/-- Whether a page may be written after a fault is resolved is the same on
both sides of a fork. -/
theorem cowEntry_writable (e : U64) :
    (has (cowEntry e) pteWrite || has (cowEntry e) pteCow) = (has e pteWrite || has e pteCow) := by
  rw [cowEntry_write, Bool.false_or]
  unfold cowEntry
  split
  · rename_i hw
    rw [hw, Bool.true_or]
    unfold has
    rw [update_and_set (by decide)]
    decide
  · rename_i hw
    rw [Bool.not_eq_true] at hw
    rw [hw, Bool.false_or]

/-! ## Frames in use -/

/-- The PMM will not hand out the frame of this address. -/
def Used (pmm : PmmState) (phys : U64) : Prop :=
  pmmMaxFrames ≤ frameOf phys ∨ test pmm.bitmap (frameOf phys) = true

/-- Every free frame lies below 2 GiB, where the window of `PHYS_TO_VIRT` ends. -/
def FreeBelow (pmm : PmmState) : Prop := ∀ p, PageAligned p → ¬ Used pmm p → p.toNat < 2 ^ 31

theorem FreeBelow.mono {pmm pmm' : PmmState} (h : FreeBelow pmm)
    (hkept : ∀ p, PageAligned p → Used pmm p → Used pmm' p) : FreeBelow pmm' :=
  fun p hp hfree => h p hp (fun hu => hfree (hkept p hp hu))

/-- **What an allocation returns**: nothing, or the address of a frame that
was not in use and is the only one that became so. -/
inductive AllocResult (pmm : PmmState) : PmmState × U64 → Prop
  | none (pmm' : PmmState) (hkeep : ∀ p, Used pmm p → Used pmm' p) : AllocResult pmm (pmm', 0#64)
  | frame (pmm' : PmmState) (d : U64) (hne : d ≠ 0#64) (haligned : PageAligned d)
      (hmask : d &&& pteAddrMask = d) (hfresh : ¬ Used pmm d)
      (hused : ∀ p, PageAligned p → (Used pmm' p ↔ Used pmm p ∨ p = d)) :
      AllocResult pmm (pmm', d)

theorem frameOf_inj {p q : U64} (hp : PageAligned p) (hq : PageAligned q)
    (h : frameOf p = frameOf q) : p = q := by
  unfold PageAligned at hp hq
  unfold frameOf frameSize at h
  apply eq_of_toNat_eq
  omega

theorem pmmAllocFrame_result (pmm : PmmState) : AllocResult pmm (pmmAllocFrame pmm) := by
  have hout := pmmAllocFrame_outcome pmm
  generalize pmmAllocFrame pmm = r at hout
  cases hout with
  | full => exact .none pmm (fun _ hu => hu)
  | frame n hmax hclear hlow =>
    have hframe := frameOf_address hmax
    by_cases hn : n = 0
    · subst hn
      have hzero : ofNat 64 (0 * frameSize) = 0#64 := by simp
      rw [hzero]
      refine .none _ (fun p hu => ?_)
      rcases hu with hbig | hset
      · exact .inl hbig
      · exact .inr (by simp [hset])
    · refine .frame _ _ (address_ne_zero hmax hn) (pageAligned_frame hmax) (masked_frame hmax)
        ?_ ?_
      · intro hu
        rcases hu with hbig | hset
        · rw [hframe] at hbig
          omega
        · rw [hframe, hclear] at hset
          cases hset
      · intro p hp
        unfold Used
        rw [test_set, Bool.or_eq_true, decide_eq_true_iff]
        grind [frameOf_inj, pageAligned_frame]

/-- Freeing a frame leaves the other frames in use. -/
theorem Used.free {pmm : PmmState} {p q : U64} (hq : Used pmm q) (hne : frameOf q ≠ frameOf p) :
    Used (pmmFreeFrame pmm p) q := by
  rcases hq with hbig | hset
  · exact .inl hbig
  · right
    by_cases hp : frameOf p < pmmMaxFrames
    · rw [test_pmmFreeFrame _ _ _ hp]
      simp [hne, hset]
    · have hsame : pmmFreeFrame pmm p = pmm := if_pos (Nat.not_lt.mp hp)
      rwa [hsame]

end Vmm
