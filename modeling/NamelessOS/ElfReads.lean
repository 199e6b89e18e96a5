import NamelessOS.Elf

/-!
# What the loader reads

The run of `elf_load` as a trace: the program headers it comes to, with the machine at
that time, and the pages it fills.  From these follow the bytes of the buffer that are
read.  The checks of the source add offsets and sizes in 64 bits; a sum that wraps
passes them, and the read is outside the buffer.
-/

namespace Elf

open ByteOrder Pmm Vmm WordMemory List BitVec

/-! ## The trace -/

/-- A call of `vmm_map_user_page`: the machine before it, the page and its frame, which
is filled. -/
structure MapCall where
  vm : Vm
  page : U64
  frame : U64

/-- The calls that the loop of `mapNewPages` makes. -/
def mapCalls (fill : U64 → Memory → U64 → Memory) (pml4 flags : U64) : List U64 → Vm → List MapCall
  | [], _ => []
  | vaddr :: rest, s =>
    let frame := pmmAllocFrame s.pmm
    if frame.2 = 0#64 then []
    else
      let s' : Vm := { pmm := frame.1, mem := fill vaddr s.mem frame.2 }
      let r := vmmMapUserPage s' pml4 vaddr frame.2 flags
      ⟨s', vaddr, frame.2⟩ :: if r.2 ≠ 0 then [] else mapCalls fill pml4 flags rest r.1

/-- The calls for one segment. -/
def segmentCalls (f : File) (ph : Phdr) (pml4Phys : U64) (s : Vm) : List MapCall :=
  if ph.pMemsz = 0#64 then []
  else if 0#64 < ph.pFilesz ∧ f.size < ph.pOffset + ph.pFilesz then []
  else mapCalls (f.fillPage ph) pml4Phys ph.pteFlags ph.pages s

/-- The program headers that the loop of `elf_load` comes to. -/
def reachedFrom (f : File) (pml4Phys : U64) : List Nat → Vm → List (Nat × Vm)
  | [], _ => []
  | i :: is, s =>
    (i, s) ::
      if (f.phdr i).pType ≠ ptLoad then reachedFrom f pml4Phys is s
      else
        let r := elfLoadSegment f (f.phdr i) pml4Phys s
        if r.2 then reachedFrom f pml4Phys is r.1 else []

def File.reached (f : File) (pml4Phys : U64) (s : Vm) : List (Nat × Vm) :=
  if elfCheck f.hdr f.size then reachedFrom f pml4Phys (List.range f.hdr.ePhnum.toNat) s else []

/-- Header `i` is a segment to load, and the loop comes to it in the state `s`. -/
def File.Loads (f : File) (pml4Phys : U64) (vm : Vm) (i : Nat) (s : Vm) : Prop :=
  (i, s) ∈ f.reached pml4Phys vm ∧ (f.phdr i).pType = ptLoad

variable {s vm : Vm}

variable {pml4Phys : U64} {f : File}

/-- A read of `len` bytes at an offset from `buf`. -/
structure BufRead where
  off : U64
  len : Nat
deriving DecidableEq

/-- Every byte of the read lies in the buffer. -/
def BufRead.Inside (r : BufRead) (f : File) : Prop :=
  ∀ k < r.len, (r.off + BitVec.ofNat 64 k).toNat < f.size.toNat

/-- `elf_check` compares the size first. -/
def File.headerReads (f : File) : List BufRead := if f.size < hdrSize then [] else [⟨0#64, 64⟩]

/-- Where program header `i` starts. -/
def File.phdrAt (f : File) (i : Nat) : U64 :=
  f.hdr.ePhoff + BitVec.ofNat 64 i * f.hdr.ePhentsize.setWidth 64

/-- `p_type`; of a segment to load also `p_memsz`, `p_vaddr` and `p_flags` (for an empty
one the last two go to the log only), and of one that is not empty `p_offset` and
`p_filesz`. -/
def File.phdrReads (f : File) (i : Nat) : List BufRead := ⟨f.phdrAt i, 4⟩ ::
    if (f.phdr i).pType ≠ ptLoad then []
    else
      [⟨f.phdrAt i + 40#64, 8⟩, ⟨f.phdrAt i + 16#64, 8⟩, ⟨f.phdrAt i + 4#64, 4⟩] ++
        if (f.phdr i).pMemsz = 0#64 then [] else [⟨f.phdrAt i + 8#64, 8⟩, ⟨f.phdrAt i + 32#64, 8⟩]

def Phdr.srcOff (ph : Phdr) (vaddr : U64) : U64 := ph.pOffset + (ph.copyVaStart vaddr - ph.pVaddr)

def Phdr.copyLen (ph : Phdr) (vaddr : U64) : U64 := ph.copyVaEnd vaddr - ph.copyVaStart vaddr

/-- The source of the `memcpy` for a page. -/
def File.copyReads (f : File) (ph : Phdr) (vaddr : U64) : List BufRead :=
  if ph.copyVaStart vaddr < ph.copyVaEnd vaddr then
    if ph.srcOff vaddr + ph.copyLen vaddr ≤ f.size then [⟨ph.srcOff vaddr, (ph.copyLen vaddr).toNat⟩]
    else []
  else []

/-- `elf_load` reads at `r`. -/
inductive File.Reads (f : File) (pml4Phys : U64) (vm : Vm) : BufRead → Prop
  | header {r : BufRead} (hr : r ∈ f.headerReads) : f.Reads pml4Phys vm r
  | phdr {r : BufRead} {i : Nat} {s : Vm} (hi : (i, s) ∈ f.reached pml4Phys vm)
      (hr : r ∈ f.phdrReads i) : f.Reads pml4Phys vm r
  | copy {r : BufRead} {i : Nat} {s : Vm} {c : MapCall} (hi : f.Loads pml4Phys vm i s)
      (hc : c ∈ segmentCalls f (f.phdr i) pml4Phys s) (hr : r ∈ f.copyReads (f.phdr i) c.page) :
      f.Reads pml4Phys vm r

/-- Where the checks pass, their sums have not wrapped: the end of the program header
table, and the end of the file data of each page that is filled. -/
structure File.NoWrap (f : File) (pml4Phys : U64) (vm : Vm) : Prop where
  table : elfCheck f.hdr f.size = true →
    f.hdr.ePhoff.toNat + f.hdr.ePhnum.toNat * f.hdr.ePhentsize.toNat < 2 ^ 64
  slices : ∀ i s, f.Loads pml4Phys vm i s → ∀ c ∈ segmentCalls f (f.phdr i) pml4Phys s,
    (f.phdr i).copyVaStart c.page < (f.phdr i).copyVaEnd c.page →
    (f.phdr i).srcOff c.page + (f.phdr i).copyLen c.page ≤ f.size →
    ((f.phdr i).srcOff c.page).toNat + ((f.phdr i).copyLen c.page).toNat < 2 ^ 64

/-! ## Checks and reads -/

/-- What `elf_check` says about the header, with the end of the table in 64 bits. -/
theorem elfCheck_table (h : elfCheck f.hdr f.size = true) :
    64 ≤ f.size.toNat ∧ 56 ≤ f.hdr.ePhentsize.toNat ∧ 0 < f.hdr.ePhnum.toNat ∧
      f.hdr.ePhnum.toNat ≤ 16 ∧
      (f.hdr.ePhoff.toNat + f.hdr.ePhnum.toNat * f.hdr.ePhentsize.toNat) % 2 ^ 64 ≤ f.size.toNat := by
  unfold elfCheck at h
  simp only [Bool.and_eq_true, Bool.not_eq_true', decide_eq_false_iff_not, beq_eq_false_iff_ne] at h
  obtain ⟨⟨⟨⟨⟨⟨⟨⟨⟨⟨⟨⟨hsize, -⟩, -⟩, -⟩, -⟩, -⟩, -⟩, -⟩, -⟩, hent⟩, hnum⟩, hmax⟩, htable⟩ := h
  have hnumLt := f.hdr.ePhnum.isLt
  have hentLt := f.hdr.ePhentsize.isLt
  have hprod : f.hdr.ePhnum.toNat * f.hdr.ePhentsize.toNat < 2 ^ 64 :=
    Nat.lt_of_le_of_lt (Nat.mul_le_mul (Nat.le_of_lt hnumLt) (Nat.le_of_lt hentLt)) (by decide)
  have hend : (f.hdr.ePhoff + f.hdr.ePhnum.setWidth 64 * f.hdr.ePhentsize.setWidth 64).toNat =
      (f.hdr.ePhoff.toNat + f.hdr.ePhnum.toNat * f.hdr.ePhentsize.toNat) % 2 ^ 64 := by
    rw [toNat_add, toNat_mul, toNat_setWidth, toNat_setWidth,
      Nat.mod_eq_of_lt (show f.hdr.ePhnum.toNat < 2 ^ 64 by omega),
      Nat.mod_eq_of_lt (show f.hdr.ePhentsize.toNat < 2 ^ 64 by omega), Nat.mod_eq_of_lt hprod]
  rw [lt_def, hend, Nat.not_lt] at htable
  rw [lt_def, Nat.not_lt] at hsize hent hmax
  refine ⟨hsize, hent, ?_, hmax, htable⟩
  rw [Nat.pos_iff_ne_zero]
  exact fun hzero => hnum (eq_of_toNat_eq hzero)

variable {i : Nat}

/-- A header of a table that does not wrap. -/
theorem toNat_phdrAt (hi : i < f.hdr.ePhnum.toNat)
    (hfits : f.hdr.ePhoff.toNat + f.hdr.ePhnum.toNat * f.hdr.ePhentsize.toNat < 2 ^ 64) :
    (f.phdrAt i).toNat = f.hdr.ePhoff.toNat + i * f.hdr.ePhentsize.toNat := by
  have hle : i * f.hdr.ePhentsize.toNat ≤ f.hdr.ePhnum.toNat * f.hdr.ePhentsize.toNat :=
    Nat.mul_le_mul_right _ (Nat.le_of_lt hi)
  rw [File.phdrAt, toNat_add, toNat_mul, toNat_setWidth, toNat_ofNat,
    Nat.mod_eq_of_lt (show i < 2 ^ 64 by omega),
    Nat.mod_eq_of_lt (show f.hdr.ePhentsize.toNat < 2 ^ 64 by omega),
    Nat.mod_eq_of_lt (show i * f.hdr.ePhentsize.toNat < 2 ^ 64 by omega), Nat.mod_eq_of_lt (by omega)]

variable {r : BufRead}

/-- A read that ends inside the buffer without wrapping. -/
theorem BufRead.inside_of_le (h : r.off.toNat + r.len ≤ f.size.toNat) :
    r.Inside f := by
  intro k hk
  rw [toNat_add, toNat_ofNat]
  omega

/-- The fields of a header lie in its 56 bytes. -/
theorem phdrReads_inside (h : (f.phdrAt i).toNat + 56 ≤ f.size.toNat)
    (hr : r ∈ f.phdrReads i) : r.Inside f := by
  have hfield : ∀ off len : Nat, off + len ≤ 56 →
      BufRead.Inside ⟨f.phdrAt i + BitVec.ofNat 64 off, len⟩ f := by
    grind [BufRead.inside_of_le]
  have htype : BufRead.Inside ⟨f.phdrAt i, 4⟩ f :=
    BufRead.inside_of_le (show (f.phdrAt i).toNat + 4 ≤ _ by omega)
  rcases mem_cons.mp hr with rfl | hr
  · exact htype
  · split_ifs at hr with hload hempty
    · cases hr
    · rcases mem_append.mp hr with hr | hr
      · simp only [mem_cons, not_mem_nil, or_false] at hr
        rcases hr with rfl | rfl | rfl
        · exact hfield 40 8 (by omega)
        · exact hfield 16 8 (by omega)
        · exact hfield 4 4 (by omega)
      · cases hr
    · simp only [mem_append, mem_cons, not_mem_nil, or_false] at hr
      rcases hr with (rfl | rfl | rfl) | rfl | rfl
      · exact hfield 40 8 (by omega)
      · exact hfield 16 8 (by omega)
      · exact hfield 4 4 (by omega)
      · exact hfield 8 8 (by omega)
      · exact hfield 32 8 (by omega)

/-! ## Headers that are reached -/

theorem mem_reachedFrom {is : List Nat}
    (h : (i, s) ∈ reachedFrom f pml4Phys is vm) : i ∈ is := by
  induction is generalizing vm with
  | nil => cases h
  | cons j is ih =>
    rcases mem_cons.mp h with heq | h
    · rw [(Prod.mk.inj heq).1]
      exact mem_cons_self
    · dsimp only at h
      split_ifs at h
      · exact mem_cons_of_mem _ (ih h)
      · exact mem_cons_of_mem _ (ih h)
      · cases h

theorem mem_reached (h : (i, s) ∈ f.reached pml4Phys vm) :
    elfCheck f.hdr f.size = true ∧ i < f.hdr.ePhnum.toNat := by
  unfold File.reached at h
  split_ifs at h with hcheck
  · exact ⟨hcheck, mem_range.mp (mem_reachedFrom h)⟩
  · cases h

/-- The first header is reached whenever the check passes. -/
theorem reached_zero (pml4Phys : U64) (vm : Vm) (hcheck : elfCheck f.hdr f.size = true) :
    (0, vm) ∈ f.reached pml4Phys vm := by
  obtain ⟨-, -, hnum, -⟩ := elfCheck_table hcheck
  unfold File.reached
  rw [if_pos hcheck]
  obtain ⟨n, hn⟩ := Nat.exists_eq_add_of_lt hnum
  rw [hn, show 0 + n + 1 = n + 1 by omega, range_succ_eq_map]
  exact mem_cons_self

/-! ## The theorem -/

/-- `elf_load` reads only its input. -/
def File.ReadsInside (f : File) (pml4Phys : U64) (vm : Vm) : Prop :=
  ∀ r, f.Reads pml4Phys vm r → r.Inside f

theorem mem_copyReads {ph : Phdr} {vaddr : U64} :
    r ∈ f.copyReads ph vaddr ↔ ph.copyVaStart vaddr < ph.copyVaEnd vaddr ∧
      ph.srcOff vaddr + ph.copyLen vaddr ≤ f.size ∧ r = ⟨ph.srcOff vaddr, (ph.copyLen vaddr).toNat⟩ := by
  unfold File.copyReads
  split_ifs with hslice hsize
  · simp [hslice, hsize]
  · simp [hsize]
  · simp [hslice]

theorem File.NoWrap.readsInside (h : f.NoWrap pml4Phys vm) : f.ReadsInside pml4Phys vm := by
  intro r hread
  cases hread with
  | header hr =>
    unfold File.headerReads at hr
    split_ifs at hr with hsmall
    · cases hr
    · rw [mem_singleton.mp hr]
      rw [lt_def, Nat.not_lt] at hsmall
      exact BufRead.inside_of_le (show 0 + 64 ≤ _ by exact hsmall)
  | @phdr i s hi hr =>
    obtain ⟨hcheck, hlt⟩ := mem_reached hi
    obtain ⟨-, hent, -, -, hend⟩ := elfCheck_table hcheck
    have hfits := h.table hcheck
    refine phdrReads_inside ?_ hr
    rw [toNat_phdrAt hlt hfits]
    -- the header ends where the next one starts, or the table does
    have hnext : (i + 1) * f.hdr.ePhentsize.toNat ≤ f.hdr.ePhnum.toNat * f.hdr.ePhentsize.toNat :=
      Nat.mul_le_mul_right _ hlt
    rw [Nat.succ_mul] at hnext
    omega
  | copy hi hc hr =>
    obtain ⟨hslice, hsize, rfl⟩ := mem_copyReads.mp hr
    have hsum := h.slices _ _ hi _ hc hslice hsize
    rw [le_def, toNat_add, Nat.mod_eq_of_lt hsum] at hsize
    exact BufRead.inside_of_le hsize

/-- A read across the end of the 64-bit offsets is outside every buffer. -/
theorem not_inside_of_wraps {off : U64} {len : Nat} (h : 2 ^ 64 ≤ off.toNat + len) :
    ¬ BufRead.Inside ⟨off, len⟩ f := by
  intro hinside
  have hlast := hinside (2 ^ 64 - 1 - off.toNat) (show _ < len by omega)
  dsimp only at hlast
  rw [toNat_add, toNat_ofNat] at hlast
  omega

/-- **`elf_load` reads only its input exactly if no sum of its checks wraps**: the
condition is enough for every buffer and size, and it is needed for every buffer that is
smaller than half the address space. -/
theorem elf_reads_inside_iff (f : File) (pml4Phys : U64) (vm : Vm) :
    (f.NoWrap pml4Phys vm → f.ReadsInside pml4Phys vm) ∧
      (f.size.toNat < 2 ^ 63 → (f.ReadsInside pml4Phys vm ↔ f.NoWrap pml4Phys vm)) := by
  refine ⟨File.NoWrap.readsInside, fun hsmall => ⟨fun h => ⟨?_, ?_⟩, File.NoWrap.readsInside⟩⟩
  · intro hcheck
    obtain ⟨-, hent, hnum, hmax, -⟩ := elfCheck_table hcheck
    by_contra hwraps
    have hentLt := f.hdr.ePhentsize.isLt
    have hprod : f.hdr.ePhnum.toNat * f.hdr.ePhentsize.toNat ≤ 16 * 2 ^ 16 :=
      Nat.mul_le_mul hmax (Nat.le_of_lt hentLt)
    -- the table starts so high that already the first header is outside
    have hfirst := h _ (.phdr (reached_zero pml4Phys vm hcheck) mem_cons_self) 0 (show 0 < 4 by decide)
    have hat : f.phdrAt 0 + BitVec.ofNat 64 0 = f.hdr.ePhoff := by
      unfold File.phdrAt
      simp
    rw [hat] at hfirst
    omega
  · intro i s hi c hc hslice hsize
    by_contra hwraps
    exact not_inside_of_wraps (Nat.not_lt.mp hwraps)
      (h _ (.copy hi hc (mem_copyReads.mpr ⟨hslice, hsize, rfl⟩)))

/-! ## Small files -/

def File.ofBytes (l : List U8) : File := ⟨fun a => l.getD a.toNat 0, BitVec.ofNat 64 l.length⟩

/-- `n` little-endian in `k` bytes. -/
def leBytes (k n : Nat) : List U8 := (List.range k).map (fun i => BitVec.ofNat 8 (n / 256 ^ i))

/-- An ELF header of the accepted kind, with program headers of 56 bytes. -/
def elfHeader (phoff phnum : Nat) : List U8 :=
  [0x7F#8, 0x45#8, 0x4C#8, 0x46#8, 2, 1, 1, 0, 0, 0, 0, 0, 0, 0, 0, 0] ++
    leBytes 2 2 ++ leBytes 2 62 ++ leBytes 4 1 ++ leBytes 8 0x400000 ++ leBytes 8 phoff ++ leBytes 8 0 ++
    leBytes 4 0 ++ leBytes 2 64 ++ leBytes 2 56 ++ leBytes 2 phnum ++ leBytes 6 0

/-- A file of 64 bytes with one program header, at offset -56. -/
def wrappedTable : File := .ofBytes (elfHeader (2 ^ 64 - 56) 1)

/-- The end of the table wraps to 0, the check passes, and the header is read in front of
the buffer. -/
theorem wrapped_table_read_outside :
    elfCheck wrappedTable.hdr wrappedTable.size = true ∧ wrappedTable.phdrAt 0 = -56#64 ∧
      ∀ (pml4Phys : U64) (vm : Vm), ¬ wrappedTable.ReadsInside pml4Phys vm := by
  have hcheck : elfCheck wrappedTable.hdr wrappedTable.size = true := by decide +kernel
  have hat : wrappedTable.phdrAt 0 = -56#64 := by decide +kernel
  refine ⟨hcheck, hat, ?_⟩
  intro pml4Phys vm h
  have hfirst := h _ (.phdr (reached_zero pml4Phys vm hcheck) mem_cons_self) 0 (show 0 < 4 by decide)
  exact absurd hfirst (by decide)

end Elf
