import NamelessOS.LinkedChain
import NamelessOS.Pmm
import NamelessOS.WordMemory

/-!
# The kernel heap

`heap.c`: ten slab caches for the powers of two from 8 to 4096, each slab one
frame with its descriptor at the front and an intrusive free list over the
rest, and page-granular allocations above.  Memory is addressed through the
higher-half window, `PHYS_TO_VIRT(p) = KERNEL_VMA + p`; every access of the
source is an aligned word or an aligned half of one.

`slab_t` is laid out as `next` at 0, `freelist` at 8, `obj_size` and
`free_count` in the word at 16, `total` in the low half of the word at 24.
The list walks of `cache_free` carry fuel and `none` means that the call does
not return.
-/

namespace Heap

open Pmm LinkedChain WordMemory
open Function (update)

def physToVirt (phys : U64) : U64 := kernelVma + phys

def virtToPhys (virt : U64) : U64 := virt - kernelVma

def heapNumCaches : Nat := 10

/-- `slab_cache_t`. -/
structure SlabCache where
  objSize : U32
  partialList : U64
  fullList : U64

/-- The allocator's state and the memory behind it.  `held` is not in the
source: it records the frames taken from the PMM and not given back. -/
structure HeapState where
  pmm : PmmState
  mem : Memory
  caches : Nat → SlabCache
  held : List U64

/-- `pmm_alloc_frame` on behalf of the heap. -/
def takeFrame (h : HeapState) : HeapState × U64 :=
  let r := pmmAllocFrame h.pmm
  ({ h with pmm := r.1, held := if r.2 = 0#64 then h.held else r.2 :: h.held }, r.2)

/-- `pmm_free_frame` on behalf of the heap. -/
def giveFrame (h : HeapState) (phys : U64) : HeapState :=
  { h with pmm := pmmFreeFrame h.pmm phys, held := h.held.erase phys }

def write (h : HeapState) (a v : U64) : HeapState :=
  { h with mem := update h.mem a v }

def setCache (h : HeapState) (idx : Nat) (c : SlabCache) : HeapState :=
  { h with caches := update h.caches idx c }

/-! ## Size classes -/

/-- The loop of `cache_index`; the order never passes 12. -/
def cacheIndexFrom (size : U64) : Nat → U64 → Nat → Nat
  | 0, _, order => order
  | left + 1, s, order =>
    if s < size then cacheIndexFrom size left (s <<< 1) (order + 1) else order

/-- `cache_index`. -/
def cacheIndex (size : U64) : Nat := cacheIndexFrom size 9 8#64 3 - 3

/-- The loop of `round_up_pow2`, which has at most nine rounds for the sizes
up to 4096 it is called with. -/
def roundUpFrom (size : U64) : Nat → U64 → U64
  | 0, s => s
  | left + 1, s => if s < size then roundUpFrom size left (s <<< 1) else s

/-- `round_up_pow2`. -/
def roundUpPow2 (size : U64) : U64 := roundUpFrom size 9 8#64

/-! ## Slabs -/

def slabSize : U64 := 4096#64

/-- `sizeof(slab_t)` rounded up to a multiple of the object size. -/
def slabHdrSize (objSize : U64) : U64 :=
  if 32#64 % objSize ≠ 0#64 then 32#64 + (objSize - 32#64 % objSize) else 32#64

/-- The descriptor `slab_create` writes at the front of the cleared page. -/
def slabDescriptor (m : Memory) (slab : U64) (objSize total : U32) (base : U64) : Memory :=
  let m := fillZero m slab 4096
  let m := update m (cell slab 16) (withLo (m (cell slab 16)) objSize)
  let m := update m (cell slab 24) (withLo (m (cell slab 24)) total)
  let m := update m (cell slab 16) (withHi (m (cell slab 16)) total)
  let m := update m slab 0#64
  update m (cell slab 8) base

/-- The loop of `slab_create` that threads the free list. -/
def buildFreelist (m : Memory) (base size : U64) (total : Nat) : Memory :=
  (List.range total).foldl (fun m i =>
    update m (base + BitVec.ofNat 64 i * size)
      (if i + 1 < total then base + BitVec.ofNat 64 (i + 1) * size else 0#64)) m

/-- `slab_create`: the new slab's address, 0 if there is none. -/
def slabCreate (h : HeapState) (objSize : U32) : HeapState × U64 :=
  let r := takeFrame h
  if r.2 = 0#64 then (r.1, 0#64)
  else
    let slab := physToVirt r.2
    let size := objSize.setWidth 64
    let hdrSize := slabHdrSize size
    let total : U32 := ((slabSize - hdrSize) / size).setWidth 32
    let base := slab + hdrSize
    let m := slabDescriptor r.1.mem slab objSize total base
    ({ r.1 with mem := buildFreelist m base size total.toNat }, slab)

/-- `slab_alloc_from`. -/
def slabAllocFrom (h : HeapState) (slab : U64) : HeapState × U64 :=
  let obj := h.mem (cell slab 8)
  let h := write h (cell slab 8) (h.mem obj)
  let h := write h (cell slab 16) (withHi (h.mem (cell slab 16)) (hi (h.mem (cell slab 16)) - 1#32))
  (h, obj)

/-- The part of `cache_alloc` after a partial slab is at hand. -/
def allocFromPartial (h : HeapState) (idx : Nat) : HeapState × U64 :=
  let slab := (h.caches idx).partialList
  let r := slabAllocFrom h slab
  let h := r.1
  if hi (h.mem (cell slab 16)) = 0#32 then
    let c := h.caches idx
    let next := h.mem slab
    (setCache (write h slab c.fullList) idx { c with partialList := next, fullList := slab }, r.2)
  else (h, r.2)

/-- `cache_alloc`. -/
def cacheAlloc (h : HeapState) (idx : Nat) : HeapState × U64 :=
  if (h.caches idx).partialList = 0#64 then
    let r := slabCreate h (h.caches idx).objSize
    if r.2 = 0#64 then (r.1, 0#64)
    else
      allocFromPartial (setCache r.1 idx { r.1.caches idx with partialList := r.2 }) idx
  else allocFromPartial h idx

/-- `slab_of`. -/
def slabOf (ptr : U64) : U64 := pageOf ptr

/-- A walk through more slots than there are addresses repeats one of them
and, since it writes nothing, never ends. -/
def walkFuel : Nat := 2 ^ 64 + 1

/-- `obj->next = freelist; freelist = obj; free_count++`. -/
def pushObject (m : Memory) (slab ptr : U64) : Memory :=
  let m := update m ptr (m (cell slab 8))
  let m := update m (cell slab 8) ptr
  update m (cell slab 16) (withHi (m (cell slab 16)) (hi (m (cell slab 16)) + 1#32))

/-- The first half of `cache_free`: the object goes to the front of its slab's
free list, and a slab that was full moves to the partial list. -/
def returnObject (h : HeapState) (idx : Nat) (ptr : U64) : Option HeapState :=
  let slab := slabOf ptr
  let wasFull := hi (h.mem (cell slab 16)) = 0#32
  let h := { h with mem := pushObject h.mem slab ptr }
  if wasFull then
    let c := h.caches idx
    (unlink c.fullList h.mem 0#64 slab walkFuel).map (fun r =>
      setCache { h with mem := update r.2 slab c.partialList } idx
        { c with partialList := slab, fullList := r.1 })
  else some h

/-- The second half of `cache_free`: a slab without live objects leaves the
partial list and its frame goes back to the PMM. -/
def releaseIfEmpty (h : HeapState) (idx : Nat) (slab : U64) : Option HeapState :=
  if hi (h.mem (cell slab 16)) = lo (h.mem (cell slab 24)) then
    let c := h.caches idx
    (unlink c.partialList h.mem 0#64 slab walkFuel).map (fun r =>
      giveFrame (setCache { h with mem := r.2 } idx { c with partialList := r.1 })
        (virtToPhys slab))
  else some h

/-- `cache_free`. -/
def cacheFree (h : HeapState) (idx : Nat) (ptr : U64) : Option HeapState :=
  (returnObject h idx ptr).bind (fun h => releaseIfEmpty h idx (slabOf ptr))

/-! ## Large allocations -/

/-- `num_pages` of a large request: the header is one word. -/
def numPages (size : U64) : U64 := (size + 8#64 + slabSize - 1#64) / slabSize

/-- The loop of `large_alloc` from its second round on; `none` when the PMM
runs out, with the frames already taken left behind. -/
def takeFrames (h : HeapState) : Nat → HeapState × Bool
  | 0 => (h, true)
  | n + 1 =>
    let r := takeFrame h
    if r.2 = 0#64 then (r.1, false) else takeFrames r.1 n

/-- `large_alloc`. -/
def largeAlloc (h : HeapState) (size : U64) : HeapState × U64 :=
  let pages := numPages size
  if pages = 0#64 then
    -- only a size that wraps gets here: no frame, and `first` is still 0
    (write h (physToVirt 0#64) pages, physToVirt 0#64 + 8#64)
  else
    let first := takeFrame h
    if first.2 = 0#64 then (first.1, 0#64)
    else
      let rest := takeFrames first.1 (pages.toNat - 1)
      if rest.2 then
        (write rest.1 (physToVirt first.2) pages, physToVirt first.2 + 8#64)
      else (rest.1, 0#64)

/-- `large_free`: the first page only. -/
def largeFree (h : HeapState) (ptr : U64) : HeapState := giveFrame h (virtToPhys (ptr - 8#64))

/-! ## The interface -/

/-- `kmalloc`. -/
def kmalloc (h : HeapState) (size : U64) : HeapState × U64 :=
  if size = 0#64 then (h, 0#64)
  else if 4096#64 < size then largeAlloc h size
  else cacheAlloc h (cacheIndex (roundUpPow2 (if size < 8#64 then 8#64 else size)))

/-- The test of `kfree` and `krealloc`: does the page start with a descriptor
whose `obj_size` is in the range of the caches? -/
def looksLikeSlab (h : HeapState) (ptr : U64) : Bool :=
  8#32 ≤ lo (h.mem (cell (slabOf ptr) 16)) ∧ lo (h.mem (cell (slabOf ptr) 16)) ≤ 4096#32

/-- `kfree`. -/
def kfree (h : HeapState) (ptr : U64) : Option HeapState :=
  if ptr = 0#64 then some h
  else if looksLikeSlab h ptr then
    cacheFree h (cacheIndex ((lo (h.mem (cell (slabOf ptr) 16))).setWidth 64)) ptr
  else some (largeFree h ptr)

/-- `old_size` of `krealloc`. -/
def oldSize (h : HeapState) (ptr : U64) : U64 :=
  if looksLikeSlab h ptr then (lo (h.mem (cell (slabOf ptr) 16))).setWidth 64
  else h.mem (ptr - 8#64) * slabSize - 8#64

/-- `krealloc`. -/
def krealloc (h : HeapState) (ptr size : U64) : Option (HeapState × U64) :=
  if ptr = 0#64 then some (kmalloc h size)
  else if size = 0#64 then (kfree h ptr).map (fun h => (h, 0#64))
  else
    let old := oldSize h ptr
    if size ≤ old then some (h, ptr)
    else
      let r := kmalloc h size
      if r.2 = 0#64 then some (r.1, 0#64)
      else
        let h := { r.1 with mem := copyWords r.1.mem r.2 ptr (old.toNat / 8) }
        (kfree h ptr).map (fun h => (h, r.2))

/-- `heap_init`. -/
def heapInit (h : HeapState) : HeapState :=
  { h with caches := fun i =>
      if i < heapNumCaches then
        { objSize := 1#32 <<< (3 + i), partialList := 0#64, fullList := 0#64 }
      else h.caches i }

end Heap
