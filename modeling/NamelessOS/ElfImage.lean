import NamelessOS.ElfKernelHalf
import NamelessOS.ImageFrames

/-!
# The image that is loaded

Each page of each segment gets a frame of its own, zeroed and filled with the segment's
part of the page.  A page that two segments share is mapped twice, and the second frame
has nothing of the first segment.  So the image is the one of the program headers unless
an earlier segment has file bytes other than 0 in a page of a later one: `Laid` says what
the pages hold while the loop runs, by the segment that mapped each page last.
-/

namespace Elf

open Pmm Vmm WordMemory PageTree ByteOrder List

/-! ## The bytes of one page -/

variable {frame page : U64}

theorem readByte_fillZero (m : Memory) (haligned : PageAligned frame) (va : U64) :
    readByte (fillZero m frame 4096) frame va = 0#8 := by
  grind [readByte_eq, fillZero_page, pageOf_slot, wordIndex_lt, byteAt]

theorem copyBytes_succ (src : Nat → U8) (m : Memory) (frame : U64) (off n : Nat) :
    copyBytes src m frame off (n + 1) =
      writeByte (copyBytes src m frame off n) frame (BitVec.ofNat 64 (off + n)) (src n) := by
  rw [copyBytes, range_succ, foldl_append]
  rfl

theorem readByte_copyBytes (src : Nat → U8) (m : Memory) (haligned : PageAligned frame)
    {off n : Nat} (hfits : off + n ≤ 4096) (va : U64) :
    readByte (copyBytes src m frame off n) frame va =
      if off ≤ va.toNat % 4096 ∧ va.toNat % 4096 < off + n then src (va.toNat % 4096 - off)
      else readByte m frame va := by
  induction n with
  | zero =>
    rw [if_neg (by omega)]
    rfl
  | succ n ih =>
    have hoff : (BitVec.ofNat 64 (off + n)).toNat % 4096 = off + n := by
      rw [BitVec.toNat_ofNat]
      omega
    rw [copyBytes_succ, readByte_writeByte _ haligned, hoff, ih (by omega)]
    by_cases hlast : va.toNat % 4096 = off + n
    · rw [if_pos hlast, if_pos (by omega), hlast, Nat.add_sub_cancel_left]
    · rw [if_neg hlast]
      exact if_congr (by omega) rfl rfl

/-- The byte that a segment has at an address: a byte of the file, or 0. -/
def File.byteOf (f : File) (ph : Phdr) (va : U64) : U8 :=
  if ph.pVaddr.toNat ≤ va.toNat ∧ va.toNat < ph.pVaddr.toNat + ph.pFilesz.toNat then
    f.buf (ph.pOffset + (va - ph.pVaddr))
  else 0#8

/-- A segment of the user half, with its file bytes in the file. -/
structure Phdr.Fits (ph : Phdr) (f : File) : Prop where
  filesz : ph.pFilesz.toNat ≤ ph.pMemsz.toNat
  vaddr : ph.pVaddr.toNat + ph.pMemsz.toNat ≤ 2 ^ 47
  offset : 0 < ph.pFilesz.toNat → ph.pOffset.toNat + ph.pFilesz.toNat ≤ f.size.toNat

theorem toNat_copyVaStart (ph : Phdr) (page : U64) :
    (ph.copyVaStart page).toNat = max ph.pVaddr.toNat page.toNat := by
  unfold Phdr.copyVaStart
  split
  · rename_i hlt
    rw [BitVec.lt_def] at hlt
    omega
  · rename_i hge
    rw [BitVec.lt_def] at hge
    omega

theorem toNat_copyVaEnd (ph : Phdr) (page : U64) (hseg : ph.pVaddr.toNat + ph.pFilesz.toNat < 2 ^ 64)
    (hpage : page.toNat + 4096 < 2 ^ 64) :
    (ph.copyVaEnd page).toNat = min (page.toNat + 4096) (ph.pVaddr.toNat + ph.pFilesz.toNat) := by
  have hsum := BitVec.toNat_add_of_lt hseg
  have hend : (page + pageSize).toNat = page.toNat + 4096 := BitVec.toNat_add_of_lt (y := 4096#64) hpage
  unfold Phdr.copyVaEnd
  dsimp only
  split
  · rename_i hlt
    rw [BitVec.lt_def] at hlt
    omega
  · rename_i hge
    rw [BitVec.lt_def] at hge
    omega

/-- **The frame of a page** holds the segment's part of the page. -/
theorem readByte_fillPage {f : File} {ph : Phdr} (h : ph.Fits f) (hpage : PageAligned page)
    (hlow : page.toNat + 4096 ≤ 2 ^ 47) (m : Memory) (haligned : PageAligned frame) {va : U64}
    (hva : va.toNat / 4096 = page.toNat / 4096) :
    readByte (f.fillPage ph page m frame) frame va = f.byteOf ph va := by
  have hfilesz := h.filesz
  have hvaddr := h.vaddr
  have hstart := toNat_copyVaStart ph page
  have hend := toNat_copyVaEnd ph page (by omega) (by omega)
  unfold PageAligned at hpage
  -- from here on only the offset in the page matters
  have hin : va.toNat % 4096 = va.toNat - page.toNat ∧ page.toNat ≤ va.toNat ∧
      va.toNat < page.toNat + 4096 := by omega
  obtain ⟨hoff, hfirst, hlast⟩ := hin
  clear hva hpage
  unfold File.fillPage File.byteOf
  simp only [BitVec.lt_def, BitVec.le_def]
  generalize ph.copyVaStart page = start at hstart ⊢
  generalize ph.copyVaEnd page = stop at hend ⊢
  by_cases hslice : start.toNat < stop.toNat
  · have hoffset := h.offset (by omega)
    have hdst : (start - page).toNat = start.toNat - page.toNat :=
      BitVec.toNat_sub_of_le (BitVec.le_def.mpr (by omega))
    have hlen : (stop - start).toNat = stop.toNat - start.toNat :=
      BitVec.toNat_sub_of_le (BitVec.le_def.mpr (by omega))
    have hskip : (start - ph.pVaddr).toNat = start.toNat - ph.pVaddr.toNat :=
      BitVec.toNat_sub_of_le (BitVec.le_def.mpr (by omega))
    have hsrc : (ph.pOffset + (start - ph.pVaddr)).toNat =
        ph.pOffset.toNat + (start.toNat - ph.pVaddr.toNat) := by
      rw [BitVec.toNat_add_of_lt (by omega), hskip]
    have hcopied : (ph.pOffset + (start - ph.pVaddr) + (stop - start)).toNat ≤ f.size.toNat := by
      rw [BitVec.toNat_add_of_lt (by omega), hsrc, hlen]
      omega
    rw [if_pos hslice, if_pos hcopied, readByte_copyBytes _ _ haligned (by omega),
      readByte_fillZero _ haligned, hdst, hlen, hoff]
    by_cases hin : ph.pVaddr.toNat ≤ va.toNat ∧ va.toNat < ph.pVaddr.toNat + ph.pFilesz.toNat
    · rw [if_pos hin, if_pos (by omega)]
      congr 1
      have hback : (va - ph.pVaddr).toNat = va.toNat - ph.pVaddr.toNat :=
        BitVec.toNat_sub_of_le (BitVec.le_def.mpr hin.1)
      have hindex : (BitVec.ofNat 64 (va.toNat - page.toNat - (start.toNat - page.toNat))).toNat
          = va.toNat - page.toNat - (start.toNat - page.toNat) := by
        rw [BitVec.toNat_ofNat, Nat.mod_eq_of_lt (by omega)]
      apply BitVec.eq_of_toNat_eq
      rw [BitVec.toNat_add_of_lt (by omega), hsrc, hindex, BitVec.toNat_add_of_lt (by omega), hback]
      omega
    · rw [if_neg hin, if_neg (by omega)]
  · rw [if_neg hslice, readByte_fillZero _ haligned, if_neg (by omega)]

/-! ## The pages of a segment -/

/-- The number of the page of an address. -/
def pageNo (va : U64) : Nat := va.toNat / 4096

/-- The segment has a byte in page `n`. -/
def Phdr.Covers (ph : Phdr) (n : Nat) : Prop :=
  ph.pMemsz ≠ 0#64 ∧ ph.pVaddr.toNat / 4096 ≤ n ∧ n * 4096 < ph.pVaddr.toNat + ph.pMemsz.toNat

instance (ph : Phdr) (n : Nat) : Decidable (ph.Covers n) := inferInstanceAs (Decidable (_ ∧ _))

theorem pageMask_eq : pageMask = ~~~4095#64 := by decide

theorem toNat_vaddrStart (ph : Phdr) : ph.vaddrStart.toNat = ph.pVaddr.toNat / 4096 * 4096 := by
  rw [Phdr.vaddrStart, pageMask_eq]
  exact toNat_pageOf ph.pVaddr

theorem toNat_vaddrEnd {ph : Phdr} (h : ph.pVaddr.toNat + ph.pMemsz.toNat ≤ 2 ^ 47) :
    ph.vaddrEnd.toNat = (ph.pVaddr.toNat + ph.pMemsz.toNat + 4095) / 4096 * 4096 := by
  have hsum : (ph.pVaddr + ph.pMemsz + pageSize - 1#64).toNat =
      ph.pVaddr.toNat + ph.pMemsz.toNat + 4095 := by
    unfold pageSize
    rw [BitVec.toNat_sub, BitVec.toNat_add, BitVec.toNat_add, BitVec.toNat_ofNat, BitVec.toNat_ofNat]
    omega
  rw [Phdr.vaddrEnd, pageMask_eq]
  exact (toNat_pageOf _).trans (by rw [hsum])

/-- The loop of `elf_load_segment` comes to exactly the pages that the segment covers. -/
theorem mem_pages {ph : Phdr} (hvaddr : ph.pVaddr.toNat + ph.pMemsz.toNat ≤ 2 ^ 47)
    (hmemsz : ph.pMemsz ≠ 0#64) (page : U64) :
    page ∈ ph.pages ↔ PageAligned page ∧ ph.Covers (pageNo page) := by
  have hstart := toNat_vaddrStart ph
  have hend := toNat_vaddrEnd hvaddr
  have hpos : 0 < ph.pMemsz.toNat := by
    rw [Nat.pos_iff_ne_zero]
    exact fun hzero => hmemsz (BitVec.eq_of_toNat_eq hzero)
  have hlt : ph.vaddrStart < ph.vaddrEnd := by
    rw [BitVec.lt_def]
    omega
  have hcount : ((ph.vaddrEnd - ph.vaddrStart) / pageSize).toNat =
      (ph.vaddrEnd.toNat - ph.vaddrStart.toNat) / 4096 := by
    rw [BitVec.toNat_udiv, BitVec.toNat_sub_of_le (BitVec.le_of_lt hlt)]
    rfl
  unfold Phdr.pages Phdr.Covers PageAligned pageNo
  rw [if_pos hlt, hcount]
  constructor
  · intro hmem
    obtain ⟨i, hi, hpage⟩ := mem_pagesFrom (by omega) hmem
    exact ⟨by omega, hmemsz, by omega, by omega⟩
  · rintro ⟨haligned, -, hfirst, hlast⟩
    refine mem_map.mpr ⟨page.toNat / 4096 - ph.pVaddr.toNat / 4096, ?_, ?_⟩
    · rw [mem_range]
      omega
    · apply BitVec.eq_of_toNat_eq
      unfold pageSize
      rw [BitVec.toNat_add, BitVec.toNat_mul, BitVec.toNat_ofNat, BitVec.toNat_ofNat]
      omega

theorem mem_pages_pageNo {ph : Phdr} (hvaddr : ph.pVaddr.toNat + ph.pMemsz.toNat ≤ 2 ^ 47)
    (hmemsz : ph.pMemsz ≠ 0#64) (n : Nat) : n ∈ ph.pages.map pageNo ↔ ph.Covers n := by
  rw [mem_map]
  constructor
  · rintro ⟨page, hpage, rfl⟩
    exact ((mem_pages hvaddr hmemsz page).mp hpage).2
  · intro hcovers
    have hto : (BitVec.ofNat 64 (n * 4096)).toNat = n * 4096 := by
      have hlast := hcovers.2.2
      rw [BitVec.toNat_ofNat]
      omega
    have hno : pageNo (BitVec.ofNat 64 (n * 4096)) = n := by
      rw [pageNo, hto]
      omega
    grind [mem_pages, PageAligned]

theorem pages_low {ph : Phdr} (hvaddr : ph.pVaddr.toNat + ph.pMemsz.toNat ≤ 2 ^ 47)
    (hmemsz : ph.pMemsz ≠ 0#64) (hpage : page ∈ ph.pages) :
    PageAligned page ∧ page.toNat + 4096 ≤ 2 ^ 47 := by
  obtain ⟨haligned, -, -, hlast⟩ := (mem_pages hvaddr hmemsz page).mp hpage
  refine ⟨haligned, ?_⟩
  unfold PageAligned at haligned
  unfold pageNo at hlast
  omega

theorem samePage_of_pageNo {va va' : U64} (h : pageNo va = pageNo va') : SamePage va va' := by
  unfold pageNo at h
  intro j hj
  have hsplit : j = 0 ∨ j = 1 ∨ j = 2 ∨ j = 3 := by omega
  rcases hsplit with rfl | rfl | rfl | rfl
  · show vaPtIdx va = vaPtIdx va'
    rw [vaPtIdx, vaPtIdx, toNat_index, toNat_index]
    omega
  · show vaPdtIdx va = vaPdtIdx va'
    rw [vaPdtIdx, vaPdtIdx, toNat_index, toNat_index]
    omega
  · show vaPdptIdx va = vaPdptIdx va'
    rw [vaPdptIdx, vaPdptIdx, toNat_index, toNat_index]
    omega
  · show vaPml4Idx va = vaPml4Idx va'
    rw [vaPml4Idx, vaPml4Idx, toNat_index, toNat_index]
    omega

/-! ## What the pages hold -/

/-- A directory entry that lets user mode through. -/
def UserDir (_ : Nat) (e : U64) : Prop := has e pteUser = true ∧ has e pteHuge = false

/-- The address is mapped by a frame of its own, which holds the segment's byte. -/
structure Shown (f : File) (vm : Vm) (r : U64) (ph : Phdr) (va d : U64) : Prop where
  leaf : userLeaf vm.mem r va = leafEntry d ph.pteFlags
  aligned : PageAligned d
  mask : d &&& pteAddrMask = d
  used : Used vm.pmm d
  apart : ¬ Frames format 3 vm.mem r d
  byte : readByte vm.mem d va = f.byteOf ph va

/-- The address space while segments are loaded; `owner n` is the segment that page `n`
was last mapped for. -/
structure Laid (f : File) (vm : Vm) (r : U64) (owner : Nat → Option Phdr) : Prop where
  tree : Tree 3 vm r
  dirs : Directories format UserDir 3 vm.mem r
  pages : ∀ va, UserAddress va → ∀ ph, owner (pageNo va) = some ph → ∃ d, Shown f vm r ph va d

section Pages

variable {f : File} {vm vm' : Vm} {r va d : U64} {ph : Phdr} {owner : Nat → Option Phdr}

theorem readByte_extends (hext : Extends 3 vm vm' r) (haligned : PageAligned d) (hused : Used vm.pmm d)
    (hapart : ¬ Frames format 3 vm.mem r d) : readByte vm'.mem d va = readByte vm.mem d va := by
  grind [pageOf_slot, wordIndex_lt, readByte_eq, Extends.mem]

theorem Shown.extends (h : Shown f vm r ph va d) (hext : Extends 3 vm vm' r)
    (hleaf : userLeaf vm'.mem r va = userLeaf vm.mem r va) : Shown f vm' r ph va d where
  leaf := hleaf.trans h.leaf
  aligned := h.aligned
  mask := h.mask
  used := hext.kept d h.aligned h.used
  apart := by
    intro hframes
    rcases hext.frames d hframes with hold | hnew
    · exact h.apart hold
    · exact hnew h.used
  byte := (readByte_extends hext h.aligned h.used h.apart).trans h.byte

theorem userDir_new (k : Nat) {d : U64} (hd : d &&& pteAddrMask = d) :
    UserDir k (d ||| tableFlags ||| ptePresent) := by
  refine ⟨?_, (tableEntry hd).2.2⟩
  rw [BitVec.or_assoc]
  exact has_or_right (by decide) (by decide)

theorem pteFlags_user (ph : Phdr) : ph.pteFlags &&& pteUser = pteUser := by
  unfold Phdr.pteFlags
  split
  · split <;> decide
  · split <;> decide

theorem userLeaf_eq_of_walk {m : Memory} {es : List U64} {pte : U64}
    (h : walk format 3 m r (vaIndex va) = some (es, pte)) : userLeaf m r va = m pte := by
  rw [userLeaf, leaf, h]

/-- **A byte that is shown is what user mode reads.** -/
theorem Laid.userRead_eq (h : Laid f vm r owner) (hva : UserAddress va) (hd : Shown f vm r ph va d) :
    userRead vm.mem r va = some (f.byteOf ph va) := by
  have hpresent : has (leafEntry d ph.pteFlags) ptePresent = true := has_leafEntry d ph.pteFlags
  have huser : has (leafEntry d ph.pteFlags) pteUser = true := by
    unfold leafEntry
    rw [BitVec.or_assoc]
    refine has_or_right ?_ (by decide)
    rw [BitVec.and_or_distrib_right, pteFlags_user]
    decide
  unfold userRead
  cases hwalk : walk format 3 vm.mem r (vaIndex va) with
  | none =>
    have hzero : userLeaf vm.mem r va = 0#64 := by rw [userLeaf, PageTree.leaf, hwalk]
    rw [← hd.leaf, hzero] at hpresent
    cases hpresent
  | some res =>
    obtain ⟨es, pte⟩ := res
    have hpte : vm.mem pte = leafEntry d ph.pteFlags := (userLeaf_eq_of_walk hwalk).symm.trans hd.leaf
    have hes : es.all (fun d => has d pteUser && !has d pteHuge) = true := by
      rw [all_eq_true]
      intro e he
      obtain ⟨j, huser, hhuge⟩ := walk_directories (vaIndex_inRange hva) h.dirs hwalk e he
      rw [huser, hhuge]
      rfl
    grind [userOk, pteAddr_leafEntry, Shown.mask, pteFlags_mask, Shown.byte]

/-- The page is mapped for the segment. -/
def assign (owner : Nat → Option Phdr) (ph : Phdr) (n : Nat) : Nat → Option Phdr :=
  fun n' => if n' = n then some ph else owner n'

/-- **One page.** -/
theorem Laid.mapPage (h : Laid f vm r owner) (hfits : ph.Fits f) {page : U64} (hpage : PageAligned page)
    (hlow : page.toNat + 4096 ≤ 2 ^ 47) {pmm' : PmmState} (haligned : PageAligned d)
    (hmask : d &&& pteAddrMask = d) (hfresh : ¬ Used vm.pmm d)
    (hused : ∀ p, PageAligned p → (Used pmm' p ↔ Used vm.pmm p ∨ p = d))
    (hret : (vmmMapUserPage ⟨pmm', f.fillPage ph page vm.mem d⟩ r page d ph.pteFlags).2 = 0) :
    Laid f (vmmMapUserPage ⟨pmm', f.fillPage ph page vm.mem d⟩ r page d ph.pteFlags).1 r
      (assign owner ph (pageNo page)) := by
  have hpageUser : UserAddress page := by
    unfold UserAddress
    omega
  have hround := Round.of_alloc (fillPage_fillsFrame f ph) (Extends.of_pmm h.tree (fun _ hu => hu))
    haligned hfresh hused page
  have hagree : Agree format 3 vm.mem (f.fillPage ph page vm.mem d) r := by
    intro x hx
    exact fillPage_fillsFrame f ph page vm.mem d x haligned (fun heq => hfresh (heq ▸ h.tree.used _ hx))
  rw [vmmMapUserPage_eq] at hret ⊢
  obtain ⟨hext, hleaf⟩ := mapPath_spec (leafEntry d ph.pteFlags) hround.grown.tree
    (vaIndex_inRange hpageUser)
  have hdirs := mapPath_directories (fun k d hd => userDir_new k hd) (leafEntry d ph.pteFlags)
    hround.grown.tree (vaIndex_inRange hpageUser) (hagree.directories h.tree.aligned h.dirs)
  have hfilled : ∀ {va : U64}, pageNo va = pageNo page →
      readByte (f.fillPage ph page vm.mem d) d va = f.byteOf ph va := by
    intro va hva
    exact readByte_fillPage hfits hpage hlow vm.mem haligned hva
  generalize mapPath (leafEntry d ph.pteFlags) 3 ⟨pmm', f.fillPage ph page vm.mem d⟩ r (vaIndex page) =
    out at hret hext hleaf hdirs ⊢
  refine ⟨hext.tree, hdirs, ?_⟩
  intro va hva ph' howner
  have hleafVa := hleaf (vaIndex va) (vaIndex_inRange hva)
  unfold assign at howner
  by_cases hsame : pageNo va = pageNo page
  · rw [if_pos hsame] at howner
    cases howner
    rw [if_pos ⟨hret, samePage_of_pageNo hsame⟩] at hleafVa
    refine ⟨d, hleafVa, haligned, hmask, hext.kept d haligned hround.used, ?_, ?_⟩
    · intro hframes
      rcases hext.frames d hframes with hold | hnew
      · exact hround.apart hold
      · exact hnew hround.used
    · rw [readByte_extends hext haligned hround.used hround.apart]
      exact hfilled hsame
  · rw [if_neg hsame] at howner
    rw [if_neg (fun hall => hsame (SamePage.page_eq hall.2 hva hpageUser))] at hleafVa
    obtain ⟨d', hd'⟩ := h.pages va hva ph' howner
    refine ⟨d', hd'.extends (hround.grown.trans hext) (hleafVa.trans ?_)⟩
    exact hagree.leaf_eq h.tree.aligned (vaIndex_inRange hva)

/-- **The pages of a segment.** -/
theorem Laid.mapNewPages (h : Laid f vm r owner) (hfits : ph.Fits f) {vas : List U64}
    (hvas : ∀ va ∈ vas, PageAligned va ∧ va.toNat + 4096 ≤ 2 ^ 47)
    (hdone : (mapNewPages (f.fillPage ph) r ph.pteFlags vas vm).2 = true) :
    Laid f (mapNewPages (f.fillPage ph) r ph.pteFlags vas vm).1 r
      (vas.foldl (fun owner va => assign owner ph (pageNo va)) owner) := by
  induction vas generalizing vm owner with
  | nil => exact h
  | cons va rest ih =>
    rw [Vmm.mapNewPages] at hdone ⊢
    have halloc := pmmAllocFrame_result vm.pmm
    generalize pmmAllocFrame vm.pmm = frame at halloc hdone ⊢
    cases halloc with
    | none pmm' hkeep =>
      cases hdone
    | frame pmm' d hne haligned hmask hfresh hused =>
      grind [mapPage]

theorem foldl_assign (vas : List U64) (n : Nat) :
    vas.foldl (fun owner va => assign owner ph (pageNo va)) owner n =
      if n ∈ vas.map pageNo then some ph else owner n := by
  induction vas generalizing owner with
  | nil => rfl
  | cons va rest ih =>
    rw [foldl_cons, ih, map_cons]
    by_cases hrest : n ∈ rest.map pageNo
    · rw [if_pos hrest, if_pos (mem_cons_of_mem _ hrest)]
    · rw [if_neg hrest]
      refine if_congr ?_ rfl rfl
      rw [mem_cons, or_iff_left hrest]

end Pages

/-! ## The segments of a file -/

/-- Header `i` is that of a `PT_LOAD` segment. -/
def File.IsLoad (f : File) (i : Nat) : Prop := i < f.hdr.ePhnum.toNat ∧ (f.phdr i).pType = ptLoad

instance (f : File) (i : Nat) : Decidable (f.IsLoad i) := inferInstanceAs (Decidable (_ ∧ _))

/-- Segment `i` takes the pages that it covers. -/
def File.claim (f : File) (owner : Nat → Option Phdr) (i : Nat) : Nat → Option Phdr :=
  fun n => if (f.phdr i).pType = ptLoad ∧ (f.phdr i).Covers n then some (f.phdr i) else owner n

section Segments

variable {f : File} {vm : Vm} {r : U64} {owner : Nat → Option Phdr}

/-- **One segment.** -/
theorem Laid.elfLoadSegment (h : Laid f vm r owner) {i : Nat} (hload : (f.phdr i).pType = ptLoad)
    (hfilesz : (f.phdr i).pFilesz.toNat ≤ (f.phdr i).pMemsz.toNat)
    (huser : (f.phdr i).pMemsz ≠ 0#64 → (f.phdr i).pVaddr.toNat + (f.phdr i).pMemsz.toNat ≤ 2 ^ 47)
    (hoffset : 0 < (f.phdr i).pFilesz.toNat →
      (f.phdr i).pOffset.toNat + (f.phdr i).pFilesz.toNat < 2 ^ 64)
    (hdone : (elfLoadSegment f (f.phdr i) r vm).2 = true) :
    Laid f (elfLoadSegment f (f.phdr i) r vm).1 r (f.claim owner i) := by
  unfold Elf.elfLoadSegment at hdone ⊢
  unfold File.claim
  by_cases hmemsz : (f.phdr i).pMemsz = 0#64
  · rw [if_pos hmemsz]
    have hnone : ∀ n, ¬ ((f.phdr i).pType = ptLoad ∧ (f.phdr i).Covers n) := fun n hn => hn.2.1 hmemsz
    simp only [if_neg (hnone _)]
    exact h
  · rw [if_neg hmemsz] at hdone ⊢
    by_cases hbeyond : 0#64 < (f.phdr i).pFilesz ∧ f.size < (f.phdr i).pOffset + (f.phdr i).pFilesz
    · rw [if_pos hbeyond] at hdone
      cases hdone
    · rw [if_neg hbeyond] at hdone ⊢
      have hfits : (f.phdr i).Fits f := by
        refine ⟨hfilesz, huser hmemsz, fun hpos => ?_⟩
        grind [BitVec.toNat_add_of_lt, BitVec.lt_def]
      have hlaid := h.mapNewPages hfits (fun va => pages_low (huser hmemsz) hmemsz) hdone
      convert hlaid using 1
      funext n
      rw [foldl_assign]
      refine if_congr ?_ rfl rfl
      rw [mem_pages_pageNo (huser hmemsz) hmemsz, and_iff_right hload]

end Segments

/-! ## The whole file -/

/-- The files of the contract: `p_filesz ≤ p_memsz`, no address wraps, and no two segments
have a byte in common. -/
structure File.WellFormed (f : File) : Prop where
  filesz : ∀ i, f.IsLoad i → (f.phdr i).pFilesz.toNat ≤ (f.phdr i).pMemsz.toNat
  noWrap : ∀ i, f.IsLoad i → (f.phdr i).pVaddr.toNat + (f.phdr i).pMemsz.toNat ≤ 2 ^ 64
  disjoint : ∀ i j, f.IsLoad i → f.IsLoad j → i ≠ j → ∀ a,
    (f.phdr i).pVaddr.toNat ≤ a → a < (f.phdr i).pVaddr.toNat + (f.phdr i).pMemsz.toNat →
    (f.phdr j).pVaddr.toNat ≤ a → (f.phdr j).pVaddr.toNat + (f.phdr j).pMemsz.toNat ≤ a

/-- The address of byte `k` of a segment, and its place in the file. -/
def Phdr.addr (ph : Phdr) (k : Nat) : U64 := ph.pVaddr + BitVec.ofNat 64 k

@[inherit_doc Phdr.addr]
def Phdr.place (ph : Phdr) (k : Nat) : U64 := ph.pOffset + BitVec.ofNat 64 k

/-- **The image is the one of the headers**: user mode reads at every byte of every
segment the byte of the file, or 0 behind `p_filesz`. -/
def File.ImageLoaded (f : File) (m : Memory) (r : U64) : Prop :=
  ∀ i, f.IsLoad i → ∀ k < (f.phdr i).pMemsz.toNat,
    if k < (f.phdr i).pFilesz.toNat then
      (f.phdr i).pOffset.toNat + k < f.size.toNat ∧
        userRead m r ((f.phdr i).addr k) = some (f.buf ((f.phdr i).place k))
    else userRead m r ((f.phdr i).addr k) = some 0#8

/-- The segments end in the user half. -/
def File.UserSegments (f : File) : Prop :=
  ∀ i, f.IsLoad i → (f.phdr i).pMemsz ≠ 0#64 →
    (f.phdr i).pVaddr.toNat + (f.phdr i).pMemsz.toNat ≤ 2 ^ 47

/-- The places of the segments in the file do not wrap, and where a later segment
has a byte in a page of an earlier one, the file bytes of the earlier one in that
page are 0. -/
structure File.ImageFits (f : File) : Prop where
  offset : ∀ i, f.IsLoad i → 0 < (f.phdr i).pFilesz.toNat →
    (f.phdr i).pOffset.toNat + (f.phdr i).pFilesz.toNat < 2 ^ 64
  shared : ∀ i j, f.IsLoad i → f.IsLoad j → i < j → ∀ k < (f.phdr i).pFilesz.toNat,
    (f.phdr j).Covers (pageNo ((f.phdr i).addr k)) → f.buf ((f.phdr i).place k) = 0#8

section File

variable {f : File} {vm : Vm} {r : U64} {owner : Nat → Option Phdr}

/-- **The loop over the headers.** -/
theorem Laid.loadSegments (hf : f.WellFormed) (huser : ∀ i, f.IsLoad i → (f.phdr i).pMemsz ≠ 0#64 →
      (f.phdr i).pVaddr.toNat + (f.phdr i).pMemsz.toNat ≤ 2 ^ 47)
    (hoffset : ∀ i, f.IsLoad i → 0 < (f.phdr i).pFilesz.toNat →
      (f.phdr i).pOffset.toNat + (f.phdr i).pFilesz.toNat < 2 ^ 64)
    {is : List Nat} (his : ∀ i ∈ is, i < f.hdr.ePhnum.toNat) {loaded : Nat} (h : Laid f vm r owner)
    (hdone : (loadSegments f r is loaded vm).2 ≠ none) :
    Laid f (loadSegments f r is loaded vm).1 r (is.foldl f.claim owner) := by
  induction is generalizing loaded vm owner with
  | nil => exact h
  | cons i is ih =>
    have hrest := fun j hj => his j (mem_cons_of_mem i hj)
    rw [Elf.loadSegments] at hdone ⊢
    rw [foldl_cons]
    by_cases htype : (f.phdr i).pType = ptLoad
    · rw [if_neg (not_not.mpr htype)] at hdone ⊢
      have hload : f.IsLoad i := ⟨his i mem_cons_self, htype⟩
      grind [elfLoadSegment, File.WellFormed.filesz]
    · rw [if_pos htype] at hdone ⊢
      have hsame : f.claim owner i = owner := by
        funext n
        exact if_neg (fun hn => htype hn.1)
      rw [hsame]
      exact ih hrest h hdone

variable {i k : Nat}

theorem claim_range (n p : Nat) : ((List.range n).foldl f.claim (fun _ => none) p = none ∧
      ∀ j < n, ¬ ((f.phdr j).pType = ptLoad ∧ (f.phdr j).Covers p)) ∨
    ∃ j < n, ((f.phdr j).pType = ptLoad ∧ (f.phdr j).Covers p) ∧
      (List.range n).foldl f.claim (fun _ => none) p = some (f.phdr j) ∧
      ∀ j', j < j' → j' < n → ¬ ((f.phdr j').pType = ptLoad ∧ (f.phdr j').Covers p) := by
  induction n with
  | zero => exact .inl ⟨rfl, fun j hj => absurd hj (Nat.not_lt_zero j)⟩
  | succ n ih =>
    rw [range_succ, foldl_append, foldl_cons, foldl_nil]
    generalize (List.range n).foldl f.claim (fun _ => none) = owner at ih
    unfold File.claim
    by_cases hlast : (f.phdr n).pType = ptLoad ∧ (f.phdr n).Covers p
    · rw [if_pos hlast]
      exact .inr ⟨n, Nat.lt_succ_self n, hlast, rfl, fun j' hj hj' => absurd hj' (by omega)⟩
    grind

/-! ## One byte -/

section

variable (hf : f.WellFormed) (hi : f.IsLoad i) (hk : k < (f.phdr i).pMemsz.toNat)
include hf hi hk

theorem toNat_addr : ((f.phdr i).addr k).toNat = (f.phdr i).pVaddr.toNat + k := by
  have hwrap := hf.noWrap i hi
  unfold Phdr.addr
  rw [BitVec.toNat_add, BitVec.toNat_ofNat]
  omega

theorem covers_addr : (f.phdr i).Covers (pageNo ((f.phdr i).addr k)) := by
  rw [pageNo, toNat_addr hf hi hk]
  refine ⟨?_, by omega, by omega⟩
  intro hzero
  rw [hzero] at hk
  exact Nat.not_lt_zero k hk

theorem byteOf_self : f.byteOf (f.phdr i) ((f.phdr i).addr k) =
      if k < (f.phdr i).pFilesz.toNat then f.buf ((f.phdr i).place k) else 0#8 := by
  have haddr := toNat_addr hf hi hk
  unfold File.byteOf
  have hsub : (f.phdr i).addr k - (f.phdr i).pVaddr = BitVec.ofNat 64 k := by
    rw [Phdr.addr, BitVec.add_comm, BitVec.add_sub_cancel]
  rw [hsub, haddr]
  exact if_congr (by omega) rfl rfl

end

theorem byteOf_other (hf : f.WellFormed) {l : Nat} (hi : f.IsLoad i) (hl : f.IsLoad l) (hne : i ≠ l)
    (hk : k < (f.phdr i).pMemsz.toNat) : f.byteOf (f.phdr l) ((f.phdr i).addr k) = 0#8 := by
  have haddr := toNat_addr hf hi hk
  refine if_neg ?_
  rintro ⟨hlow, hhigh⟩
  have hfilesz := hf.filesz l hl
  have hout := hf.disjoint i l hi hl hne _ (by omega) (by omega) hlow
  omega

/-- **User mode reads the byte of the last segment that covers the page.** -/
theorem Laid.userRead_addr (hf : f.WellFormed)
    (h : Laid f vm r ((List.range f.hdr.ePhnum.toNat).foldl f.claim (fun _ => none)))
    (hi : f.IsLoad i) (hk : k < (f.phdr i).pMemsz.toNat) (hva : UserAddress ((f.phdr i).addr k)) :
    ∃ l, f.IsLoad l ∧ i ≤ l ∧ (f.phdr l).Covers (pageNo ((f.phdr i).addr k)) ∧
      (∀ j, l < j → f.IsLoad j → ¬ (f.phdr j).Covers (pageNo ((f.phdr i).addr k))) ∧
      userRead vm.mem r ((f.phdr i).addr k) = some (f.byteOf (f.phdr l) ((f.phdr i).addr k)) := by
  have hcovers := covers_addr hf hi hk
  rcases claim_range (f := f) f.hdr.ePhnum.toNat (pageNo ((f.phdr i).addr k)) with
    ⟨-, hall⟩ | ⟨l, hl, ⟨htype, hcov⟩, howner, hafter⟩
  · exact absurd ⟨hi.2, hcovers⟩ (hall i hi.1)
  · obtain ⟨d, hd⟩ := h.pages _ hva _ howner
    refine ⟨l, ⟨hl, htype⟩, ?_, hcov, fun j hlj hj hcovj => hafter j hlj hj.1 ⟨hj.2, hcovj⟩,
      h.userRead_eq hva hd⟩
    by_contra hlt
    exact hafter i (by omega) hi.1 ⟨hi.2, hcovers⟩

end File

/-! ## A new address space -/

section Image

variable {f : File} {vm : Vm} {r : U64}

/-- The addresses of the bytes. -/
theorem File.UserSegments.addr (huser : f.UserSegments) (hf : f.WellFormed) {i k : Nat}
    (hi : f.IsLoad i) (hk : k < (f.phdr i).pMemsz.toNat) : UserAddress ((f.phdr i).addr k) := by
  have hvaddr := huser i hi (covers_addr hf hi hk).1
  unfold UserAddress
  rw [toNat_addr hf hi hk]
  omega

theorem File.ImageLoaded.offset (hf : f.WellFormed) (himage : f.ImageLoaded vm.mem r) :
    ∀ i, f.IsLoad i → 0 < (f.phdr i).pFilesz.toNat →
      (f.phdr i).pOffset.toNat + (f.phdr i).pFilesz.toNat < 2 ^ 64 := by
  intro i hi hpos
  have hfilesz := hf.filesz i hi
  have hlast := himage i hi ((f.phdr i).pFilesz.toNat - 1) (by omega)
  rw [if_pos (by omega)] at hlast
  omega

variable (hlaid : Laid f vm r ((List.range f.hdr.ePhnum.toNat).foldl f.claim (fun _ => none)))
include hlaid

theorem File.ImageLoaded.shared (hf : f.WellFormed) (huser : f.UserSegments)
    (himage : f.ImageLoaded vm.mem r) :
    ∀ i j, f.IsLoad i → f.IsLoad j → i < j → ∀ k < (f.phdr i).pFilesz.toNat,
      (f.phdr j).Covers (pageNo ((f.phdr i).addr k)) → f.buf ((f.phdr i).place k) = 0#8 := by
  intro i j hi hj hij k hk hcovers
  have hkm := Nat.lt_of_lt_of_le hk (hf.filesz i hi)
  have hva := huser.addr hf hi hkm
  have hread := himage i hi k hkm
  grind [Laid.userRead_addr, byteOf_other]

theorem File.ImageFits.loaded (hf : f.WellFormed) (huser : f.UserSegments) (hfits : f.ImageFits)
    (hchecked : ∀ i, f.IsLoad i → (f.phdr i).pMemsz ≠ 0#64 →
      ¬ (0#64 < (f.phdr i).pFilesz ∧ f.size < (f.phdr i).pOffset + (f.phdr i).pFilesz)) :
    f.ImageLoaded vm.mem r := by
  intro i hi k hk
  have hpos : (f.phdr i).pMemsz ≠ 0#64 := (covers_addr hf hi hk).1
  have hva := huser.addr hf hi hk
  obtain ⟨l, hl, hil, hcovers, -, hread⟩ := hlaid.userRead_addr hf hi hk hva
  grind [BitVec.toNat_add_of_lt, offset, BitVec.lt_def, byteOf_self, byteOf_other, shared]

end Image

end Elf
