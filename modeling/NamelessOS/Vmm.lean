import NamelessOS.PageTree
import NamelessOS.Pmm

/-!
# Copy-on-write address spaces

The part of `vmm.c` that builds, clones and destroys address spaces and resolves
write faults: `get_or_alloc_table`, `vmm_create_user_pml4`, `vmm_map_user_page`,
`cow_clone_pt`, `cow_clone_pdt`, `cow_clone_pdpt`, `vmm_fork_pml4`,
`vmm_destroy_user_pml4` and `cow_handle`, together with the processor's side of
a user access.  Memory is indexed by physical address: every access of the
source goes through `PHYS_TO_VIRT`, and the window is taken to map each frame
to itself.  The TLB is not modelled; the source flushes it after each change.
-/

namespace Vmm

open Pmm WordMemory PageTree ByteOrder
open Function (update)
open List (range)

def ptePresent : U64 := 1#64 <<< 0
def pteWrite : U64 := 1#64 <<< 1
def pteUser : U64 := 1#64 <<< 2
def pteHuge : U64 := 1#64 <<< 7
def pteCow : U64 := 1#64 <<< 9
def pteAddrMask : U64 := 0x000FFFFFFFFFF000#64

/-- `e & mask` as a condition. -/
def has (e mask : U64) : Bool := e &&& mask != 0#64

def pteAddr (e : U64) : U64 := e &&& pteAddrMask

def vaPml4Idx (va : U64) : Nat := ((va >>> 39) &&& 0x1FF#64).toNat
def vaPdptIdx (va : U64) : Nat := ((va >>> 30) &&& 0x1FF#64).toNat
def vaPdtIdx (va : U64) : Nat := ((va >>> 21) &&& 0x1FF#64).toNat
def vaPtIdx (va : U64) : Nat := ((va >>> 12) &&& 0x1FF#64).toNat

/-- `PT_ENTRIES`. -/
def ptEntries : Nat := 512

/-- The PMM and physical memory. -/
structure Vm where
  pmm : PmmState
  mem : Memory

def Vm.write (s : Vm) (a v : U64) : Vm := { s with mem := update s.mem a v }

def Vm.free (s : Vm) (phys : U64) : Vm := { s with pmm := pmmFreeFrame s.pmm phys }

/-! ## Mapping -/

/-- `get_or_alloc_table` for the entry at address `entry`; `none` is `NULL`. -/
def getOrAllocTable (s : Vm) (entry flags : U64) : Vm × Option U64 :=
  if !has (s.mem entry) ptePresent then
    let r := pmmAllocFrame s.pmm
    if r.2 = 0#64 then ({ s with pmm := r.1 }, none)
    else
      let m := update (fillZero s.mem r.2 4096) entry (r.2 ||| flags ||| ptePresent)
      ({ pmm := r.1, mem := m }, some (pteAddr (m entry)))
  else (s, some (pteAddr (s.mem entry)))

/-- `vmm_map_user_page`; the result is 0 or -1. -/
def vmmMapUserPage (s : Vm) (pml4 virt phys flags : U64) : Vm × Int :=
  match getOrAllocTable s (slot pml4 (vaPml4Idx virt)) (pteWrite ||| pteUser) with
  | (s, none) => (s, -1)
  | (s, some pdpt) =>
    match getOrAllocTable s (slot pdpt (vaPdptIdx virt)) (pteWrite ||| pteUser) with
    | (s, none) => (s, -1)
    | (s, some pdt) =>
      match getOrAllocTable s (slot pdt (vaPdtIdx virt)) (pteWrite ||| pteUser) with
      | (s, none) => (s, -1)
      | (s, some pt) =>
        (s.write (slot pt (vaPtIdx virt)) ((phys &&& pteAddrMask) ||| flags ||| ptePresent), 0)

/-- `vmm_map_kernel_in_user_pml4`. -/
def vmmMapKernelInUserPml4 (s : Vm) (pml4 virt phys flags : U64) : Vm × Int :=
  match getOrAllocTable s (slot pml4 (vaPml4Idx virt)) pteWrite with
  | (s, none) => (s, -1)
  | (s, some pdpt) =>
    match getOrAllocTable s (slot pdpt (vaPdptIdx virt)) pteWrite with
    | (s, none) => (s, -1)
    | (s, some pdt) =>
      match getOrAllocTable s (slot pdt (vaPdtIdx virt)) pteWrite with
      | (s, none) => (s, -1)
      | (s, some pt) =>
        (s.write (slot pt (vaPtIdx virt)) ((phys &&& pteAddrMask) ||| flags ||| ptePresent), 0)

/-! ## Cloning -/

/-- One round of the loop of `cow_clone_pt`. -/
def cowCloneEntry (src dst : U64) (m : Memory) (i : Nat) : Memory :=
  let e := m (slot src i)
  if !has e ptePresent then update m (slot dst i) 0#64
  else if has e pteWrite then
    -- read-only and COW in both parent and child
    let e := (e &&& ~~~pteWrite) ||| pteCow
    update (update m (slot src i) e) (slot dst i) e
  else update m (slot dst i) e

/-- `cow_clone_pt`: the new table's frame, or 0. -/
def cowClonePt (s : Vm) (src : U64) : Vm × U64 :=
  let r := pmmAllocFrame s.pmm
  if r.2 = 0#64 then ({ s with pmm := r.1 }, 0#64)
  else
    ({ pmm := r.1, mem := (range ptEntries).foldl (cowCloneEntry src r.2) s.mem }, r.2)

/-- The loop over the entries of a directory: absent entries become 0, entries
that satisfy `verbatim` are copied, and below the others the table is cloned.
`false` when a clone failed. -/
def cloneEntries (verbatim : U64 → Bool) (clone : Vm → U64 → Vm × U64) (src dst : U64) :
    List Nat → Vm → Vm × Bool
  | [], s => (s, true)
  | i :: is, s =>
    let e := s.mem (slot src i)
    if !has e ptePresent then
      cloneEntries verbatim clone src dst is (s.write (slot dst i) 0#64)
    else if verbatim e then cloneEntries verbatim clone src dst is (s.write (slot dst i) e)
    else
      let r := clone s (pteAddr e)
      if r.2 = 0#64 then (r.1, false)
      else
        cloneEntries verbatim clone src dst is
          (r.1.write (slot dst i) ((e &&& ~~~pteAddrMask) ||| r.2))

/-- The common body of `cow_clone_pdt` and `cow_clone_pdpt`. -/
def cowCloneDir (clone : Vm → U64 → Vm × U64) (s : Vm) (src : U64) : Vm × U64 :=
  let r := pmmAllocFrame s.pmm
  if r.2 = 0#64 then ({ s with pmm := r.1 }, 0#64)
  else
    let c := cloneEntries (has · pteHuge) clone src r.2 (range ptEntries)
      { s with pmm := r.1 }
    if c.2 then (c.1, r.2) else (c.1.free r.2, 0#64)

def cowClonePdt : Vm → U64 → Vm × U64 := cowCloneDir cowClonePt

def cowClonePdpt : Vm → U64 → Vm × U64 := cowCloneDir cowClonePdt

/-! ## Destroying and forking an address space -/

/-- `free_user_pdpt`. -/
def freeUserPdpt (s : Vm) (pdpt : U64) : Vm :=
  let s := (range ptEntries).foldl (fun s i =>
    let e2 := s.mem (slot pdpt i)
    if !has e2 ptePresent || has e2 pteHuge then s
    else
      let s := (range ptEntries).foldl (fun s j =>
        let e1 := s.mem (slot (pteAddr e2) j)
        if !has e1 ptePresent || has e1 pteHuge then s else s.free (pteAddr e1)) s
      s.free (pteAddr e2)) s
  s.free pdpt

/-- `vmm_destroy_user_pml4`. -/
def vmmDestroyUserPml4 (s : Vm) (pml4 : U64) : Vm :=
  let s := (range 256).foldl (fun s i =>
    let e := s.mem (slot pml4 i)
    if !has e ptePresent then s else freeUserPdpt s (pteAddr e)) s
  s.free pml4

/-- The start of the new PML4: an empty user half and the source's kernel
half. -/
def shareKernelHalf (m : Memory) (src dst : U64) : Memory := (range 256).foldl (fun m i =>
    update m (slot dst (256 + i)) (m (slot src (256 + i)))) (fillZero m dst 2048)

/-- `vmm_create_user_pml4`: the new PML4's frame, or 0; `boot` is
`pml4_phys`. -/
def vmmCreateUserPml4 (boot : U64) (s : Vm) : Vm × U64 :=
  let r := pmmAllocFrame s.pmm
  if r.2 = 0#64 then ({ s with pmm := r.1 }, 0#64)
  else ({ pmm := r.1, mem := shareKernelHalf s.mem boot r.2 }, r.2)

/-- `vmm_fork_pml4`: the new PML4's frame, or 0. -/
def vmmForkPml4 (s : Vm) (src : U64) : Vm × U64 :=
  let r := pmmAllocFrame s.pmm
  if r.2 = 0#64 then ({ s with pmm := r.1 }, 0#64)
  else
    let c := cloneEntries (fun _ => false) cowClonePdpt src r.2 (range 256)
      { pmm := r.1, mem := shareKernelHalf s.mem src r.2 }
    if c.2 then (c.1, r.2) else (vmmDestroyUserPml4 c.1 r.2, 0#64)

/-! ## Write faults -/

/-- `cow_handle` once the leaf entry is found: copy the page to a new frame and
remap the entry writable. -/
def cowCopy (s : Vm) (pte : U64) : Vm × Bool :=
  let e := s.mem pte
  if !has e ptePresent || !has e pteCow then (s, false)
  else
    let r := pmmAllocFrame s.pmm
    if r.2 = 0#64 then ({ s with pmm := r.1 }, false)
    else
      let m := copyWords s.mem r.2 (pteAddr e) ptEntries
      ({ pmm := r.1
         mem := update m pte
          ((m pte &&& ~~~(pteAddrMask ||| pteCow)) ||| r.2 ||| pteWrite) }, true)

/-- `cow_handle`, with the faulting process's PML4 as `cr3`. -/
def cowHandle (s : Vm) (pml4 va : U64) : Vm × Bool :=
  let e4 := s.mem (slot pml4 (vaPml4Idx va))
  if !has e4 ptePresent then (s, false)
  else
    let e3 := s.mem (slot (pteAddr e4) (vaPdptIdx va))
    if !has e3 ptePresent || has e3 pteHuge then (s, false)
    else
      let e2 := s.mem (slot (pteAddr e3) (vaPdtIdx va))
      if !has e2 ptePresent || has e2 pteHuge then (s, false)
      else cowCopy s (slot (pteAddr e2) (vaPtIdx va))

/-- `page_fault_handler_c`: whether the faulting instruction is retried.  The
other faults are reported and the machine halts. -/
def pageFaultHandlerC (s : Vm) (pml4 cr2 err : U64) : Vm × Bool :=
  -- PRESENT=1, WRITE=1
  if err &&& 3#64 = 3#64 then cowHandle s pml4 cr2 else (s, false)

/-! ## The processor's side of a user access -/

/-- How the processor reads the entries: four levels, with the user half of
the top one. -/
def userFanout (k : Nat) : Nat := if k = 3 then 256 else 512

/-- The indices of an address. -/
def vaIndex (va : U64) : Nat → Nat
  | 0 => vaPtIdx va
  | 1 => vaPdtIdx va
  | 2 => vaPdptIdx va
  | _ => vaPml4Idx va

/-- The byte of a frame that an address selects. -/
def readByte (m : Memory) (frame va : U64) : U8 :=
  byteAt (m (cell frame (va.toNat % 4096 / 8 * 8))) (va.toNat % 8)

/-- A word with byte `k` replaced. -/
def withByte (w : U64) (k : Nat) (x : U8) : U64 :=
  (w &&& ~~~(0xFF#64 <<< (8 * k))) ||| (x.setWidth 64 <<< (8 * k))

def writeByte (m : Memory) (frame va : U64) (x : U8) : Memory :=
  update m (cell frame (va.toNat % 4096 / 8 * 8))
    (withByte (m (cell frame (va.toNat % 4096 / 8 * 8))) (va.toNat % 8) x)

end Vmm
