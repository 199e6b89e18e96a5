import NamelessOS.VmmFork

/-!
# User accesses

What a user-mode load returns and what a user-mode store does, by the walk
through the process's tables; a store that faults is retried while the page
fault handler resolves the fault.  `userView` collects what a process can see
at an address: the byte, and whether it may be written once copy-on-write
faults are resolved.
-/

namespace Vmm

open Pmm WordMemory PageTree ByteOrder List BitVec Function

/-- Addresses of the user half. -/
def UserAddress (va : U64) : Prop := va.toNat < 2 ^ 47

instance (va : U64) : Decidable (UserAddress va) := inferInstanceAs (Decidable (_ < _))

/-- Addresses that the lower half of a PML4 translates. -/
def UserHalf (va : U64) : Prop := vaPml4Idx va < 256

instance (va : U64) : Decidable (UserHalf va) := inferInstanceAs (Decidable (_ < _))

/-- User mode may use the page: present and USER on every level, and a 4 KB
page. -/
def userOk (es : List U64) (e : U64) : Bool :=
  has e ptePresent && has e pteUser && es.all (fun d => has d pteUser && !has d pteHuge)

/-- WRITE on every level. -/
def writeOk (es : List U64) (e : U64) : Bool := has e pteWrite && es.all (has · pteWrite)

/-- A user-mode load; `none` if it faults. -/
def userRead (m : Memory) (pml4 va : U64) : Option U8 :=
  match walk format 3 m pml4 (vaIndex va) with
  | none => none
  | some (es, pte) => if userOk es (m pte) then some (readByte m (pteAddr (m pte)) va) else none

/-- The error code of a user-mode write fault: PRESENT says that no entry was
absent. -/
def writeFault (present : Bool) : U64 := if present then 7#64 else 6#64

/-- A user-mode store, tried at most `n` times; `false` if it never completes. -/
def userWrite : Nat → Vm → U64 → U64 → U8 → Vm × Bool
  | 0, s, _, _, _ => (s, false)
  | n + 1, s, pml4, va, x =>
    let fault (present : Bool) : Vm × Bool :=
      let r := pageFaultHandlerC s pml4 va (writeFault present)
      if r.2 then userWrite n r.1 pml4 va x else (r.1, false)
    match walk format 3 s.mem pml4 (vaIndex va) with
    | none => fault false
    | some (es, pte) =>
      if userOk es (s.mem pte) && writeOk es (s.mem pte) then
        ({ s with mem := writeByte s.mem (pteAddr (s.mem pte)) va x }, true)
      else fault (has (s.mem pte) ptePresent)

/-- The byte a process sees at an address, and whether it may write it. -/
def userView (m : Memory) (pml4 va : U64) : Option (U8 × Bool) :=
  match walk format 3 m pml4 (vaIndex va) with
  | none => none
  | some (es, pte) =>
    if userOk es (m pte) then
      some (readByte m (pteAddr (m pte)) va,
        es.all (has · pteWrite) && (has (m pte) pteWrite || has (m pte) pteCow))
    else none

theorem userRead_eq (m : Memory) (pml4 va : U64) :
    userRead m pml4 va = (userView m pml4 va).map Prod.fst := by
  unfold userRead userView
  split
  · rfl
  · split <;> rfl

/-! ## Addresses -/

theorem toNat_index (va : U64) (n : Nat) : ((va >>> n) &&& 0x1FF#64).toNat = va.toNat / 2 ^ n % 512 := by
  rw [toNat_and, toNat_ushiftRight, Nat.shiftRight_eq_div_pow]
  exact Nat.and_two_pow_sub_one_eq_mod _ 9

theorem inRange_of_userHalf {va : U64} (hva : UserHalf va) : InRange format 3 (vaIndex va) := by
  intro j hj
  have hsplit : j = 0 ∨ j = 1 ∨ j = 2 ∨ j = 3 := by omega
  rcases hsplit with rfl | rfl | rfl | rfl
  · show vaPtIdx va < 512
    rw [vaPtIdx, toNat_index]
    omega
  · show vaPdtIdx va < 512
    rw [vaPdtIdx, toNat_index]
    omega
  · show vaPdptIdx va < 512
    rw [vaPdptIdx, toNat_index]
    omega
  · exact hva

theorem userHalf_of_userAddress {va : U64} (hva : UserAddress va) : UserHalf va := by
  unfold UserAddress at hva
  rw [UserHalf, vaPml4Idx, toNat_index]
  omega

theorem vaIndex_inRange {va : U64} (hva : UserAddress va) : InRange format 3 (vaIndex va) :=
  inRange_of_userHalf (userHalf_of_userAddress hva)

/-- The indices and the offset determine a user address. -/
theorem userAddress_page {va va' : U64} (h : UserAddress va) (h' : UserAddress va')
    (hix : ∀ j ≤ 3, vaIndex va j = vaIndex va' j) : va.toNat / 4096 = va'.toNat / 4096 := by
  unfold UserAddress at h h'
  have h0 : vaPtIdx va = vaPtIdx va' := hix 0 (by omega)
  have h1 : vaPdtIdx va = vaPdtIdx va' := hix 1 (by omega)
  have h2 : vaPdptIdx va = vaPdptIdx va' := hix 2 (by omega)
  have h3 : vaPml4Idx va = vaPml4Idx va' := hix 3 (by omega)
  rw [vaPtIdx, vaPtIdx, toNat_index, toNat_index] at h0
  rw [vaPdtIdx, vaPdtIdx, toNat_index, toNat_index] at h1
  rw [vaPdptIdx, vaPdptIdx, toNat_index, toNat_index] at h2
  rw [vaPml4Idx, vaPml4Idx, toNat_index, toNat_index] at h3
  omega

theorem userAddress_inj {va va' : U64} (h : UserAddress va) (h' : UserAddress va')
    (hix : ∀ j ≤ 3, vaIndex va j = vaIndex va' j) (hoff : va.toNat % 4096 = va'.toNat % 4096) :
    va = va' := by
  have hpage := userAddress_page h h' hix
  apply eq_of_toNat_eq
  omega

/-! ## Bytes -/

theorem getLsbD_withByte (w : U64) {k j : Nat} (hj : j < 64) (x : U8) : (withByte w k x).getLsbD j =
      if 8 * k ≤ j ∧ j < 8 * k + 8 then x.getLsbD (j - 8 * k) else w.getLsbD j := by
  have hff : ∀ n < 64, (0xFF#64).getLsbD n = decide (n < 8) := by decide
  unfold withByte
  simp only [getLsbD_or, getLsbD_and, getLsbD_not, getLsbD_shiftLeft,
    getLsbD_setWidth, hj, decide_true, Bool.true_and]
  rw [hff (j - 8 * k) (by omega)]
  by_cases hlow : j < 8 * k
  · have hnot : ¬ 8 * k ≤ j := by omega
    simp [hlow, hnot]
  · have hle : 8 * k ≤ j := by omega
    have hlt64 : j - 8 * k < 64 := by omega
    by_cases hin : j - 8 * k < 8
    · have hin' : j < 8 * k + 8 := by omega
      simp [hlow, hle, hin, hin', hlt64]
    · have hout : ¬ j < 8 * k + 8 := by omega
      have hzero : x.getLsbD (j - 8 * k) = false := getLsbD_of_ge x _ (by omega)
      simp [hlow, hin, hout, hzero]

theorem byteAt_withByte (w : U64) {k k' : Nat} (hk' : k' < 8) (x : U8) :
    byteAt (withByte w k x) k' = if k' = k then x else byteAt w k' := by
  apply eq_of_getLsbD_eq
  intro i hi
  rw [byteAt, getLsbD_extractLsb', getLsbD_withByte w (by omega)]
  by_cases hk : k' = k
  · subst hk
    have hsub : 8 * k' + i - 8 * k' = i := by omega
    simp [hi, hsub]
  · grind [byteAt]

/-- The word of a frame that holds the byte at `va`. -/
def wordIndex (va : U64) : Nat := va.toNat % 4096 / 8

theorem wordIndex_lt (va : U64) : wordIndex va < 512 := by
  unfold wordIndex
  omega

theorem readByte_eq (m : Memory) (frame va : U64) :
    readByte m frame va = byteAt (m (slot frame (wordIndex va))) (va.toNat % 8) := by
  rw [readByte, slot, Nat.mul_comm]
  rfl

theorem writeByte_eq (m : Memory) (frame va : U64) (x : U8) :
    writeByte m frame va x = Function.update m (slot frame (wordIndex va))
      (withByte (m (slot frame (wordIndex va))) (va.toNat % 8) x) := by
  rw [writeByte, slot, Nat.mul_comm 8]
  rfl

theorem writeByte_outside (m : Memory) {frame : U64} (hframe : PageAligned frame) (va : U64) (x : U8)
    {y : U64} (hy : pageOf y ≠ frame) : writeByte m frame va x y = m y := by
  rw [writeByte_eq]
  refine update_of_ne ?_ _ _
  rintro rfl
  exact hy (pageOf_slot hframe (wordIndex_lt va))

/-- Reading back from a frame after a store to it. -/
theorem readByte_writeByte (m : Memory) {frame : U64} (hframe : PageAligned frame) (va va' : U64)
    (x : U8) : readByte (writeByte m frame va x) frame va' =
      if va'.toNat % 4096 = va.toNat % 4096 then x else readByte m frame va' := by
  rw [readByte_eq, readByte_eq, writeByte_eq]
  by_cases hword : wordIndex va' = wordIndex va
  · rw [hword, update_self, byteAt_withByte _ (Nat.mod_lt _ (by decide))]
    unfold wordIndex at hword
    refine if_congr ?_ rfl rfl
    omega
  · rw [update_of_ne, if_neg]
    · unfold wordIndex at hword
      omega
    · intro heq
      exact hword ((slot_inj hframe hframe (wordIndex_lt va') (wordIndex_lt va)).mp heq).2

/-! ## When two views agree -/

/-- The leaf entries `e` in `m` and `e'` in `m'` give user mode the same page. -/
structure Alike (m m' : Memory) (e e' : U64) : Prop where
  present : has e' ptePresent = has e ptePresent
  user : has e ptePresent = true → has e' pteUser = has e pteUser
  writable : has e ptePresent = true →
    (has e' pteWrite || has e' pteCow) = (has e pteWrite || has e pteCow)
  page : has e ptePresent = true → ∀ j < 512, m' (slot (pteAddr e') j) = m (slot (pteAddr e) j)

theorem all_of_flags {P : U64 → Bool} (hP : ∀ e e', format.flags e = format.flags e' → P e = P e')
    {es es' : List U64} (h : es'.map format.flags = es.map format.flags) : es'.all P = es.all P := by
  induction es generalizing es' with
  | nil =>
    rw [map_nil, map_eq_nil_iff] at h
    rw [h]
  | cons e es ih =>
    cases es' with
    | nil => cases h
    | cons e' es' =>
      rw [map_cons, map_cons, List.cons.injEq] at h
      rw [all_cons, all_cons, hP e' e h.1, ih h.2]

variable {m m' : Memory} {r r' va pte pte' : U64} {es es' : List U64}

theorem userOk_of_flags {e e' : U64} (hflags : es'.map format.flags = es.map format.flags)
    (h : Alike m m' e e') : userOk es' e' = userOk es e := by
  unfold userOk
  have hall := all_of_flags (P := fun d => has d pteUser && !has d pteHuge)
    (fun d d' hd => by
      have huser : has d pteUser = has d' pteUser := has_of_flags (by decide) hd
      have hhuge : has d pteHuge = has d' pteHuge := has_of_flags (by decide) hd
      rw [huser, hhuge]) hflags
  rw [hall, h.present]
  by_cases hp : has e ptePresent = true
  · rw [h.user hp]
  · rw [Bool.not_eq_true] at hp
    simp [hp]

/-- **Alike entries behind like directories look the same to user mode.** -/
theorem userView_of_alike (hwalk : walk format 3 m r (vaIndex va) = some (es, pte))
    (hwalk' : walk format 3 m' r' (vaIndex va) = some (es', pte'))
    (hflags : es'.map format.flags = es.map format.flags) (h : Alike m m' (m pte) (m' pte')) :
    userView m' r' va = userView m r va := by
  have hok := userOk_of_flags hflags h
  have hall := all_of_flags (P := (has · pteWrite))
    (fun d d' hd => has_of_flags (by decide) hd) hflags
  unfold userView
  rw [hwalk, hwalk']
  dsimp only
  rw [hok, hall]
  by_cases hp : userOk es (m pte) = true
  · rw [if_pos hp, if_pos hp]
    have hpresent : has (m pte) ptePresent = true := by
      unfold userOk at hp
      rw [Bool.and_eq_true, Bool.and_eq_true] at hp
      exact hp.1.1
    rw [h.writable hpresent, readByte_eq, readByte_eq, h.page hpresent _ (wordIndex_lt va)]
  · rw [if_neg hp, if_neg hp]

end Vmm
