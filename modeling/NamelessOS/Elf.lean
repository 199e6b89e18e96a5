import NamelessOS.UserPages

/-!
# The ELF loader

`elf.c`: the header check, and the loop that puts each `PT_LOAD` segment into
new pages of an address space.  A file is the buffer the loader is given and
its size; a field is read from the buffer at its offset in the packed
structure.  The log lines are left out.
-/

namespace Elf

open ByteOrder Pmm Vmm WordMemory List
open BitVec (ofNat)

/-- `buf` and `buf_size`. -/
structure File where
  buf : U64 → U8
  size : U64

def readU16 (mem : U64 → U8) (a : U64) : U16 := load16 (mem a) (mem (a + 1#64))

/-- The fields of `elf64_hdr_t` that the loader reads. -/
structure Hdr where
  eIdent : Nat → U8
  eType : U16
  eMachine : U16
  eEntry : U64
  ePhoff : U64
  ePhentsize : U16
  ePhnum : U16

def File.hdr (f : File) : Hdr where
  eIdent i := f.buf (ofNat 64 i)
  eType := readU16 f.buf 16#64
  eMachine := readU16 f.buf 18#64
  eEntry := readU64 f.buf 24#64
  ePhoff := readU64 f.buf 32#64
  ePhentsize := readU16 f.buf 54#64
  ePhnum := readU16 f.buf 56#64

/-- The fields of `elf64_phdr_t` that the loader reads. -/
structure Phdr where
  pType : U32
  pFlags : U32
  pOffset : U64
  pVaddr : U64
  pFilesz : U64
  pMemsz : U64
deriving DecidableEq

/-- Program header `i`. -/
def File.phdr (f : File) (i : Nat) : Phdr :=
  let at_ := f.hdr.ePhoff + ofNat 64 i * f.hdr.ePhentsize.setWidth 64
  { pType := readU32 f.buf at_
    pFlags := readU32 f.buf (at_ + 4#64)
    pOffset := readU64 f.buf (at_ + 8#64)
    pVaddr := readU64 f.buf (at_ + 16#64)
    pFilesz := readU64 f.buf (at_ + 32#64)
    pMemsz := readU64 f.buf (at_ + 40#64) }

/-- `sizeof(elf64_hdr_t)`. -/
def hdrSize : U64 := 64#64

/-- `sizeof(elf64_phdr_t)`. -/
def phdrSize : U16 := 56#16

def elfMaxPhdrs : U16 := 16#16

/-- `elf_check`: whether it returns 0. -/
def elfCheck (hdr : Hdr) (bufSize : U64) : Bool := !decide (bufSize < hdrSize) &&
  hdr.eIdent 0 == 0x7F#8 && hdr.eIdent 1 == 0x45#8 && hdr.eIdent 2 == 0x4C#8 &&
  hdr.eIdent 3 == 0x46#8 &&
  -- ELFCLASS64, ELFDATA2LSB, ET_EXEC, EM_X86_64
  hdr.eIdent 4 == 2#8 && hdr.eIdent 5 == 1#8 && hdr.eType == 2#16 && hdr.eMachine == 62#16 &&
  !decide (hdr.ePhentsize < phdrSize) &&
  !(hdr.ePhnum == 0#16) &&
  !decide (elfMaxPhdrs < hdr.ePhnum) &&
  !decide (bufSize < hdr.ePhoff + hdr.ePhnum.setWidth 64 * hdr.ePhentsize.setWidth 64)

/-! ## One segment -/

def pfX : U32 := 1#32 <<< 0
def pfW : U32 := 1#32 <<< 1
def pteNx : U64 := 1#64 <<< 63

/-- `pte_flags`. -/
def Phdr.pteFlags (ph : Phdr) : U64 :=
  let flags := if ph.pFlags &&& pfW ≠ 0#32 then pteUser ||| pteWrite else pteUser
  if ph.pFlags &&& pfX = 0#32 then flags ||| pteNx else flags

/-- `PAGE_MASK`. -/
def pageMask : U64 := ~~~(pageSize - 1#64)

def Phdr.vaddrStart (ph : Phdr) : U64 := ph.pVaddr &&& pageMask

def Phdr.vaddrEnd (ph : Phdr) : U64 := (ph.pVaddr + ph.pMemsz + pageSize - 1#64) &&& pageMask

/-- The values of `vaddr` in `while (vaddr < vaddr_end)`: both ends are
page-aligned. -/
def Phdr.pages (ph : Phdr) : List U64 :=
  if ph.vaddrStart < ph.vaddrEnd then
    pagesFrom ph.vaddrStart ((ph.vaddrEnd - ph.vaddrStart) / pageSize).toNat
  else []

/-- `memcpy` of `n` bytes to offset `off` of a frame. -/
def copyBytes (src : Nat → U8) (m : Memory) (frame : U64) (off n : Nat) : Memory :=
  (List.range n).foldl (fun m k => writeByte m frame (ofNat 64 (off + k)) (src k)) m

/-- `copy_va_start` and `copy_va_end`: the intersection of the page with
`[p_vaddr, p_vaddr + p_filesz)`. -/
def Phdr.copyVaStart (ph : Phdr) (vaddr : U64) : U64 :=
  if ph.pVaddr < vaddr then vaddr else ph.pVaddr

@[inherit_doc Phdr.copyVaStart]
def Phdr.copyVaEnd (ph : Phdr) (vaddr : U64) : U64 :=
  let pageEnd := vaddr + pageSize
  if pageEnd < ph.pVaddr + ph.pFilesz then pageEnd else ph.pVaddr + ph.pFilesz

/-- The frame of one page: zeroed, with the slice of file data that falls in
the page. -/
def File.fillPage (f : File) (ph : Phdr) (vaddr : U64) (m : Memory) (frame : U64) : Memory :=
  let m := fillZero m frame 4096
  if ph.copyVaStart vaddr < ph.copyVaEnd vaddr then
    let dstOff := ph.copyVaStart vaddr - vaddr
    let srcOff := ph.pOffset + (ph.copyVaStart vaddr - ph.pVaddr)
    let copyLen := ph.copyVaEnd vaddr - ph.copyVaStart vaddr
    if srcOff + copyLen ≤ f.size then
      copyBytes (fun k => f.buf (srcOff + ofNat 64 k)) m frame dstOff.toNat copyLen.toNat
    else m
  else m

/-- `elf_load_segment`: whether it returns 0. -/
def elfLoadSegment (f : File) (ph : Phdr) (pml4Phys : U64) (s : Vm) : Vm × Bool :=
  if ph.pMemsz = 0#64 then (s, true)
  else if 0#64 < ph.pFilesz ∧ f.size < ph.pOffset + ph.pFilesz then (s, false)
  else mapNewPages (f.fillPage ph) pml4Phys ph.pteFlags ph.pages s

/-! ## The file -/

def ptLoad : U32 := 1#32

/-- The loop over the program headers; the result is `loaded`, or `none` when
a segment failed. -/
def loadSegments (f : File) (pml4Phys : U64) : List Nat → Nat → Vm → Vm × Option Nat
  | [], loaded, s => (s, some loaded)
  | i :: is, loaded, s =>
    if (f.phdr i).pType ≠ ptLoad then loadSegments f pml4Phys is loaded s
    else
      let r := elfLoadSegment f (f.phdr i) pml4Phys s
      if r.2 then loadSegments f pml4Phys is (loaded + 1) r.1 else (r.1, none)

/-- `elf_load`: the entry point, or `none` for -1. -/
def elfLoad (f : File) (pml4Phys : U64) (s : Vm) : Vm × Option U64 :=
  if elfCheck f.hdr f.size then
    let r := loadSegments f pml4Phys (List.range f.hdr.ePhnum.toNat) 0 s
    match r.2 with
    | none => (r.1, none)
    | some loaded => if loaded = 0 then (r.1, none) else (r.1, some f.hdr.eEntry)
  else (s, none)

/-- The pages of a file: those of its `PT_LOAD` segments that are not empty. -/
def File.pages (f : File) : List U64 := (List.range f.hdr.ePhnum.toNat).flatMap (fun i =>
    if (f.phdr i).pType = ptLoad ∧ (f.phdr i).pMemsz ≠ 0#64 then (f.phdr i).pages else [])

/-! ## What loading maps -/

theorem copyBytes_outside (src : Nat → U8) (m : Memory) {frame x : U64} (off n : Nat)
    (haligned : PageAligned frame) (hx : pageOf x ≠ frame) :
    copyBytes src m frame off n x = m x := by
  refine List.foldlRecOn (motive := fun m' : Memory => m' x = m x) _ _ rfl ?_
  intro m' hm' k _
  rw [writeByte_outside m' haligned _ _ hx, hm']

theorem fillPage_fillsFrame (f : File) (ph : Phdr) : FillsFrame (f.fillPage ph) := by
  intro va m frame x haligned hx
  have hzero := fillZero_outside m haligned le_rfl hx
  unfold File.fillPage
  dsimp only
  split
  · split
    · rw [copyBytes_outside _ _ _ _ haligned hx, hzero]
    · exact hzero
  · exact hzero

end Elf
