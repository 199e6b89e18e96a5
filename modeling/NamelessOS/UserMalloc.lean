import NamelessOS.ByteOrder
import NamelessOS.Runs

/-!
# The allocator of the user library

`malloc.c` of the user-space libc: a bump allocator over the program break.  The kernel is
the sequence of its replies to `brk`, which may be any; the one in this repository answers
every `SYS_BRK` with -ENOSYS.  `malloc` takes a reply for an address without a look at its
sign, and adds sizes to addresses without a look at the carry.  Where neither shows, the
blocks are cut one after another from what the kernel has granted.

`free` does nothing and is left out.  Memory is a function on addresses: a store that
faults is not modelled.
-/

namespace Libc

open ByteOrder Runs List
open BitVec (lt_def ofInt ofNat toNat_add_of_lt)

/-! ## The kernel's side -/

def enosys : Int := 38

/-- `sys_enosys`. -/
def sysEnosys (_a0 _a1 _a2 _a3 _a4 _a5 : U64) : U64 := ofInt 64 (-enosys)

/-- `dispatch_table[SYS_BRK]`. -/
def sysBrk : U64 → U64 → U64 → U64 → U64 → U64 → U64 := sysEnosys

/-- A call of `brk` and its reply. -/
structure Brk where
  addr : U64
  reply : U64
deriving DecidableEq

/-- The kernel has set the break at or above the address; a negative reply is an error. -/
def Brk.Ok (b : Brk) : Prop := 0 ≤ b.reply.toInt ∧ b.addr ≤ b.reply

instance (b : Brk) : Decidable b.Ok := inferInstanceAs (Decidable (_ ∧ _))

/-! ## The allocator -/

/-- The three statics, the memory, and the calls of `brk` so far. -/
structure Proc where
  heapStart : U64
  heapCur : U64
  heapEnd : U64
  mem : U64 → U8
  brks : List Brk

def heapInitSize : U64 := 0x10000#64

def heapGrowSize : U64 := 0x10000#64

/-- `ALIGN8`. -/
def align8 (x : U64) : U64 := (x + 7#64) &&& ~~~7#64

section Allocator

variable (replies : Nat → U64)

/-- `brk_syscall`: the kernel's next reply. -/
def brkSyscall (addr : U64) (s : Proc) : Proc × U64 :=
  ({ s with brks := s.brks ++ [⟨addr, replies s.brks.length⟩] }, replies s.brks.length)

/-- `heap_init`: whether it returns 0. -/
def heapInit (s : Proc) : Proc × Bool :=
  let r := brkSyscall replies 0#64 s
  let cur := r.2
  if cur = 0#64 then (r.1, false)
  else
    let r := brkSyscall replies (cur + heapInitSize) { r.1 with heapStart := cur, heapCur := cur }
    if r.2 < cur + heapInitSize then (r.1, false) else ({ r.1 with heapEnd := r.2 }, true)

/-- `heap_grow`: whether it returns 0. -/
def heapGrow (needed : U64) (s : Proc) : Proc × Bool :=
  let grow := if heapGrowSize < needed then needed else heapGrowSize
  let r := brkSyscall replies (s.heapEnd + grow) s
  if r.2 < s.heapEnd + grow then (r.1, false) else ({ r.1 with heapEnd := r.2 }, true)

/-- `malloc` once the heap is there. -/
def bump (size : U64) (s : Proc) : Proc × U64 :=
  let r := if s.heapEnd < s.heapCur + size then heapGrow replies size s else (s, true)
  if r.2 then ({ r.1 with heapCur := r.1.heapCur + size }, r.1.heapCur) else (r.1, 0#64)

/-- `malloc`: the block, or 0 for `NULL`. -/
def malloc (size : U64) (s : Proc) : Proc × U64 :=
  if size = 0#64 then (s, 0#64)
  else
    let r := if s.heapStart = 0#64 then heapInit replies s else (s, true)
    if r.2 then bump replies (align8 size) r.1 else (r.1, 0#64)

/-- `calloc`. -/
def calloc (nmemb size : U64) (s : Proc) : Proc × U64 :=
  let total := nmemb * size
  let r := malloc replies total s
  if r.2 = 0#64 then r
  else
    ({ r.1 with mem := (List.range total.toNat).foldl (fun m i =>
        Function.update m (r.2 + ofNat 64 i) 0#8) r.1.mem }, r.2)

/-- `realloc`: a new block, with `size` bytes copied from the old one. -/
def realloc (ptr size : U64) (s : Proc) : Proc × U64 :=
  let r := malloc replies size s
  if r.2 = 0#64 ∨ ptr = 0#64 then r
  else
    ({ r.1 with mem := (List.range size.toNat).foldl (fun m i =>
        Function.update m (r.2 + ofNat 64 i) (m (ptr + ofNat 64 i))) r.1.mem }, r.2)

end Allocator

/-! ## Runs -/

inductive Call where
  | malloc (size : U64)
  | calloc (nmemb size : U64)
  | realloc (ptr size : U64)

/-- The size that is asked for. -/
def Call.size : Call → Nat
  | .malloc size => size.toNat
  | .calloc nmemb size => nmemb.toNat * size.toNat
  | .realloc _ size => size.toNat

def Call.exec (replies : Nat → U64) : Call → Proc → Proc × U64
  | .malloc size => Libc.malloc replies size
  | .calloc nmemb size => Libc.calloc replies nmemb size
  | .realloc ptr size => Libc.realloc replies ptr size

/-- A block that was returned, with the size that was asked for. -/
structure Block where
  ptr : U64
  size : Nat
deriving DecidableEq

/-- The program and the blocks it was given. -/
structure Run where
  proc : Proc
  blocks : List Block

/-- A program before its first call. -/
def Run.start (mem : U64 → U8) : Run := ⟨⟨0#64, 0#64, 0#64, mem, []⟩, []⟩

def Run.step (replies : Nat → U64) (s : Run) (c : Call) : Run :=
  let r := c.exec replies s.proc
  ⟨r.1, if r.2 = 0#64 then s.blocks else s.blocks ++ [⟨r.2, c.size⟩]⟩

/-- The block lies between the break that the kernel named first and one that it has set. -/
def Block.Granted (brks : List Brk) (b : Block) : Prop :=
  ∃ first ∈ brks, ∃ last ∈ brks, first.addr = 0#64 ∧ first.Ok ∧ last.addr ≠ 0#64 ∧ last.Ok ∧
    first.reply.toNat ≤ b.ptr.toNat ∧ b.ptr.toNat + b.size ≤ last.reply.toNat

def Block.Apart (b b' : Block) : Prop :=
  b.ptr.toNat + b.size ≤ b'.ptr.toNat ∨ b'.ptr.toNat + b'.size ≤ b.ptr.toNat

/-- **Only memory that was granted is handed out, and none of it twice.** -/
structure Run.Sound (s : Run) : Prop where
  granted : ∀ b ∈ s.blocks, b.Granted s.proc.brks
  apart : s.blocks.Pairwise Block.Apart

/-- What the allocator takes for granted: the size leaves room below 2^63, the kernel's
next replies (a call asks three times at most) are no errors, and the kernel does not
refuse the first 64 KB once it has named the break. -/
structure CallOk (replies : Nat → U64) (s : Run) (c : Call) : Prop where
  size : c.size + 7 < 2 ^ 63
  noError : ∀ k < 3, 0 ≤ (replies (s.proc.brks.length + k)).toInt
  init : s.proc.heapStart = 0#64 → replies s.proc.brks.length ≠ 0#64 →
    (replies s.proc.brks.length).toNat + 0x10000 ≤ (replies (s.proc.brks.length + 1)).toNat

/-! ## The bump pointer -/

theorem toNat_align8 {x : U64} (h : x.toNat + 7 < 2 ^ 64) :
    (align8 x).toNat = (x.toNat + 7) / 8 * 8 := by
  have hshift : align8 x = ((x + 7#64) >>> 3) <<< 3 := by
    unfold align8
    ext i hi
    interval_cases i <;> simp
  grind [toNat_add_of_lt, Nat.shiftLeft_eq, Nat.shiftRight_eq_div_pow]

theorem toNat_lt_of_nonneg {x : U64} (h : 0 ≤ x.toInt) : x.toNat < 2 ^ 63 := by
  rw [BitVec.toInt_eq_toNat_cond] at h
  split at h <;> omega

/-- The heap is there: the blocks are cut from `[heap_start, heap_cur)`, and the kernel has
granted everything up to `heap_end`. -/
structure Arena (p : Proc) (blocks : List Block) : Prop where
  first : ⟨0#64, p.heapStart⟩ ∈ p.brks
  firstOk : 0 ≤ p.heapStart.toInt
  last : ∃ b ∈ p.brks, b.addr ≠ 0#64 ∧ b.Ok ∧ b.reply = p.heapEnd
  started : p.heapStart ≠ 0#64
  low : p.heapStart.toNat ≤ p.heapCur.toNat
  high : p.heapCur.toNat ≤ p.heapEnd.toNat
  inside : ∀ b ∈ blocks, p.heapStart.toNat ≤ b.ptr.toNat ∧ b.ptr.toNat + b.size ≤ p.heapCur.toNat
  apart : blocks.Pairwise Block.Apart

theorem Arena.end_lt {p : Proc} {blocks : List Block} (h : Arena p blocks) :
    p.heapEnd.toNat < 2 ^ 63 := by
  obtain ⟨b, -, -, hok, hreply⟩ := h.last
  rw [← hreply]
  exact toNat_lt_of_nonneg hok.1

theorem Arena.sound {s : Run} (h : Arena s.proc s.blocks) : s.Sound := by
  refine ⟨fun b hb => ?_, h.apart⟩
  obtain ⟨last, hlast, haddr, hok, hreply⟩ := h.last
  obtain ⟨hlow, hhigh⟩ := h.inside b hb
  refine ⟨_, h.first, last, hlast, rfl, ⟨h.firstOk, ?_⟩, haddr, hok, hlow, ?_⟩
  · exact BitVec.le_def.mpr (Nat.zero_le _)
  · rw [hreply]
    exact Nat.le_trans hhigh h.high

section Steps

variable {replies : Nat → U64} {p : Proc} {blocks : List Block}

/-- **A new heap.** -/
theorem heapInit_arena (hnone : 0 ≤ (replies p.brks.length).toInt)
    (hnone' : 0 ≤ (replies (p.brks.length + 1)).toInt) (hgrant : replies p.brks.length ≠ 0#64 →
      (replies p.brks.length).toNat + 0x10000 ≤ (replies (p.brks.length + 1)).toNat)
    (hstart : p.heapStart = 0#64) :
    ((heapInit replies p).2 = false ∧ (heapInit replies p).1.heapStart = 0#64) ∨
      ((heapInit replies p).2 = true ∧ Arena (heapInit replies p).1 [] ∧
        (heapInit replies p).1.brks.length = p.brks.length + 2) := by
  unfold heapInit brkSyscall
  dsimp only
  rw [length_append, length_singleton]
  by_cases hzero : replies p.brks.length = 0#64
  · rw [if_pos hzero]
    exact .inl ⟨rfl, hstart⟩
  · rw [if_neg hzero]
    have hlt := toNat_lt_of_nonneg hnone
    have hsum : (replies p.brks.length + heapInitSize).toNat =
        (replies p.brks.length).toNat + 0x10000 :=
      toNat_add_of_lt (y := 0x10000#64) (by
        show (replies p.brks.length).toNat + 0x10000 < 2 ^ 64
        omega)
    have hge : ¬ replies (p.brks.length + 1) < replies p.brks.length + heapInitSize := by
      rw [lt_def, hsum]
      have := hgrant hzero
      omega
    rw [if_neg hge]
    refine .inr ⟨rfl, ⟨?_, hnone, ?_, hzero, le_rfl, ?_, ?_, List.Pairwise.nil⟩, ?_⟩
    · exact mem_append_left _ (mem_append_right _ (mem_singleton.mpr rfl))
    · refine ⟨_, mem_append_right _ (mem_singleton.mpr rfl), ?_, ⟨hnone', ?_⟩, rfl⟩
      · intro haddr
        grind
      · exact BitVec.not_lt.mp hge
    · have := hgrant hzero
      dsimp only
      omega
    · exact fun b hb => absurd hb not_mem_nil
    · rw [length_append, length_append]
      rfl

variable {size : U64}

/-- What `heap_grow` asks for beyond `heap_end`. -/
theorem toNat_grow (hsize : size.toNat < 2 ^ 63) :
    size.toNat ≤ (if heapGrowSize < size then size else heapGrowSize).toNat ∧
      0 < (if heapGrowSize < size then size else heapGrowSize).toNat ∧
      (if heapGrowSize < size then size else heapGrowSize).toNat < 2 ^ 63 := by
  have hgrow : heapGrowSize.toNat = 0x10000 := rfl
  split
  · rename_i hlt
    rw [lt_def] at hlt
    omega
  · rename_i hge
    rw [lt_def] at hge
    omega

/-- **The heap grows**, or is as before. -/
theorem Arena.heapGrow (h : Arena p blocks) (hnone : 0 ≤ (replies p.brks.length).toInt)
    (hsize : size.toNat < 2 ^ 63) : Arena (heapGrow replies size p).1 blocks ∧
      (Libc.heapGrow replies size p).1.heapCur = p.heapCur ∧
      ((Libc.heapGrow replies size p).2 = true →
        p.heapEnd.toNat + size.toNat ≤ (Libc.heapGrow replies size p).1.heapEnd.toNat) := by
  obtain ⟨hle, hpos, hlt⟩ := toNat_grow hsize
  have hend := h.end_lt
  unfold Libc.heapGrow brkSyscall
  generalize (if heapGrowSize < size then size else heapGrowSize) = grow at hle hpos hlt ⊢
  have hsum : (p.heapEnd + grow).toNat = p.heapEnd.toNat + grow.toNat :=
    toNat_add_of_lt (by omega)
  have hfirst := mem_append_left [⟨p.heapEnd + grow, replies p.brks.length⟩] h.first
  by_cases hrefused : replies p.brks.length < p.heapEnd + grow
  · rw [if_pos hrefused]
    obtain ⟨b, hb, hlast⟩ := h.last
    exact ⟨{ h with first := hfirst, last := ⟨b, mem_append_left _ hb, hlast⟩ }, rfl,
      fun hret => by cases hret⟩
  · rw [if_neg hrefused]
    have hset : p.heapEnd.toNat + grow.toNat ≤ (replies p.brks.length).toNat := by
      rw [lt_def, hsum] at hrefused
      omega
    refine ⟨{ h with first := hfirst, last := ?_, high := ?_ }, rfl, fun _ => ?_⟩
    · refine ⟨_, mem_append_right _ (mem_singleton.mpr rfl), ?_,
        ⟨hnone, BitVec.not_lt.mp hrefused⟩, rfl⟩
      grind
    · have hhigh := h.high
      dsimp only
      omega
    · dsimp only
      omega

/-- A block of `size` bytes in front of `heap_end`, of which `n` were asked for. -/
theorem Arena.cut (h : Arena p blocks) (hroom : p.heapCur.toNat + size.toNat ≤ p.heapEnd.toNat)
    {n : Nat} (hn : n ≤ size.toNat) :
    Arena { p with heapCur := p.heapCur + size } (blocks ++ [⟨p.heapCur, n⟩]) := by
  have hsum : (p.heapCur + size).toNat = p.heapCur.toNat + size.toNat := toNat_add_of_lt (by omega)
  have hlow := h.low
  refine ⟨h.first, h.firstOk, h.last, h.started, ?_, ?_, ?_, ?_⟩
  · dsimp only
    omega
  · dsimp only
    omega
  · intro b hb
    dsimp only
    rcases mem_append.mp hb with hold | hnew
    · obtain ⟨hb₁, hb₂⟩ := h.inside b hold
      omega
    · rw [mem_singleton.mp hnew]
      dsimp only
      omega
  · refine pairwise_append.mpr ⟨h.apart, pairwise_singleton _ _, ?_⟩
    intro b hb b' hb'
    rw [mem_singleton.mp hb']
    exact .inl (h.inside b hb).2

/-- **A block is cut from the heap.** -/
theorem Arena.bump (h : Arena p blocks) (hnone : 0 ≤ (replies p.brks.length).toInt)
    (hsize : size.toNat < 2 ^ 63) {n : Nat} (hn : n ≤ size.toNat) :
    Arena (bump replies size p).1 (if (Libc.bump replies size p).2 = 0#64 then blocks
      else blocks ++ [⟨(Libc.bump replies size p).2, n⟩]) := by
  have hcut : ∀ q : Proc, Arena q blocks → q.heapCur.toNat + size.toNat ≤ q.heapEnd.toNat →
      Arena { q with heapCur := q.heapCur + size }
        (if q.heapCur = 0#64 then blocks else blocks ++ [⟨q.heapCur, n⟩]) := by
    intro q hq hroom
    have hstarted : q.heapCur ≠ 0#64 := by
      intro hzero
      have hlow := hq.low
      rw [hzero] at hlow
      exact hq.started (BitVec.eq_of_toNat_eq (Nat.le_zero.mp hlow))
    rw [if_neg hstarted]
    exact hq.cut hroom hn
  have hend := h.end_lt
  have hhigh := h.high
  unfold Libc.bump
  grind [heapGrow, lt_def]

/-- No heap yet, and nothing handed out; or the heap. -/
def Ready (p : Proc) (blocks : List Block) : Prop := (p.heapStart = 0#64 ∧ blocks = []) ∨ Arena p blocks

theorem Ready.stores (h : Ready p blocks) (m : U64 → U8) : Ready { p with mem := m } blocks :=
  h.imp_right fun h => { h with }

/-- **`malloc`.** -/
theorem Ready.malloc (h : Ready p blocks) (size : U64) (hsize : size.toNat + 7 < 2 ^ 63)
    (hnone : ∀ k < 3, 0 ≤ (replies (p.brks.length + k)).toInt)
    (hinit : p.heapStart = 0#64 → replies p.brks.length ≠ 0#64 →
      (replies p.brks.length).toNat + 0x10000 ≤ (replies (p.brks.length + 1)).toNat) :
    Ready (malloc replies size p).1 (if (Libc.malloc replies size p).2 = 0#64 then blocks
      else blocks ++ [⟨(Libc.malloc replies size p).2, size.toNat⟩]) := by
  have halign := toNat_align8 (x := size) (by omega)
  have hbump : ∀ q : Proc, Arena q blocks → 0 ≤ (replies q.brks.length).toInt →
      Ready (bump replies (align8 size) q).1 (if (bump replies (align8 size) q).2 = 0#64 then blocks
        else blocks ++ [⟨(bump replies (align8 size) q).2, size.toNat⟩]) := by
    intro q hq hreply
    exact .inr (hq.bump hreply (by omega) (by omega))
  unfold Libc.malloc
  by_cases hzero : size = 0#64
  · rw [if_pos hzero, if_pos rfl]
    exact h
  · rw [if_neg hzero]
    rcases h with ⟨hstart, rfl⟩ | h
    · rw [if_pos hstart]
      have hnew := heapInit_arena (hnone 0 (by decide)) (hnone 1 (by decide)) (hinit hstart) hstart
      generalize heapInit replies p = r at hnew
      rcases hnew with ⟨hret, hunset⟩ | ⟨hret, harena, hlen⟩
      · rw [if_neg (Bool.eq_false_iff.mp hret), if_pos rfl]
        exact .inl ⟨hunset, rfl⟩
      · rw [if_pos hret]
        refine hbump r.1 harena ?_
        rw [hlen]
        exact hnone 2 (by decide)
    · rw [if_neg h.started, if_pos rfl]
      exact hbump p h (hnone 0 (by decide))

/-- **One call.** -/
theorem Ready.step {s : Run} (h : Ready s.proc s.blocks) {c : Call} (hc : CallOk replies s c) :
    Ready (s.step replies c).proc (s.step replies c).blocks := by
  unfold Run.step
  cases c with
  | malloc size => exact h.malloc size hc.size hc.noError hc.init
  | calloc nmemb size =>
    have hsize := hc.size
    unfold Call.size at hsize ⊢
    dsimp only at hsize ⊢
    have htotal : (nmemb * size).toNat = nmemb.toNat * size.toNat :=
      BitVec.toNat_mul_of_lt (by omega)
    have hready := h.malloc (nmemb * size) (by omega) hc.noError hc.init
    rw [Call.exec, calloc, ← htotal]
    grind [stores]
  | realloc ptr size =>
    have hready := h.malloc size hc.size hc.noError hc.init
    rw [Call.exec, realloc, Call.size]
    grind [stores]

end Steps

theorem Ready.sound {s : Run} (h : Ready s.proc s.blocks) : s.Sound := by
  rcases h with ⟨-, hnone⟩ | harena
  · refine ⟨?_, ?_⟩
    · rw [hnone]
      exact fun b hb => absurd hb not_mem_nil
    · rw [hnone]
      exact List.Pairwise.nil
  · exact harena.sound

/-- **User-space `malloc` hands out what the kernel granted**, in every run in which the
sizes leave room and the replies of `brk` are no errors. -/
theorem malloc_hands_out_granted (replies : Nat → U64) (mem : U64 → U8) (calls : List Call)
    (hcalls : StepsMeet (Run.step replies) (CallOk replies) (Run.start mem) calls) :
    (run (Run.step replies) (Run.start mem) calls).Sound :=
  Ready.sound (run_invariant (fun s => Ready s.proc s.blocks) (fun _ _ h hc => h.step hc)
    (.inl ⟨rfl, rfl⟩) hcalls)

/-- A kernel that grants every request. -/
def grantingReplies : Nat → U64
  | 0 => 0x600000#64
  | 1 => 0x610000#64
  | _ => 0x630000#64

instance (replies : Nat → U64) (s : Run) (c : Call) : Decidable (CallOk replies s c) :=
  decidable_of_iff (c.size + 7 < 2 ^ 63 ∧ (∀ k < 3, 0 ≤ (replies (s.proc.brks.length + k)).toInt) ∧
    (s.proc.heapStart = 0#64 → replies s.proc.brks.length ≠ 0#64 →
      (replies s.proc.brks.length).toNat + 0x10000 ≤ (replies (s.proc.brks.length + 1)).toNat))
        ⟨fun h => ⟨h.1, h.2.1, h.2.2⟩, fun h => ⟨h.size, h.noError, h.init⟩⟩

theorem malloc_hands_out_granted_three :
    StepsMeet (Run.step grantingReplies) (CallOk grantingReplies) (Run.start (fun _ => 1#8))
      [.malloc 10#64, .calloc 3#64 5#64, .realloc 0x600000#64 0x20000#64] ∧
    (run (Run.step grantingReplies) (Run.start (fun _ => 1#8))
      [.malloc 10#64, .calloc 3#64 5#64, .realloc 0x600000#64 0x20000#64]).Sound := by
  have hcalls : StepsMeet (Run.step grantingReplies) (CallOk grantingReplies) (Run.start (fun _ => 1#8))
      [.malloc 10#64, .calloc 3#64 5#64, .realloc 0x600000#64 0x20000#64] := by decide +kernel
  exact ⟨hcalls, malloc_hands_out_granted _ _ _ hcalls⟩

/-- The kernel of this repository. -/
def kernelReplies (_ : Nat) : U64 := sysBrk 0#64 0#64 0#64 0#64 0#64 0#64

/-- A kernel that names the break and refuses to move it. -/
def refusingReplies (_ : Nat) : U64 := 0x600000#64

theorem not_sound_of_beyond {s : Run} {b : Block} (hb : b ∈ s.blocks)
    (hbeyond : ∀ last ∈ s.proc.brks, last.Ok → last.reply.toNat < b.ptr.toNat + b.size) :
      ¬ s.Sound := by
  intro hsound
  obtain ⟨-, -, last, hlast, -, -, -, hok, -, hend⟩ := hsound.granted b hb
  exact absurd hend (Nat.not_le.mpr (hbeyond last hlast hok))

/-- This kernel grants nothing, and `malloc(1)` returns the error code.  A kernel that
refuses to move the break has `malloc` hand out the memory behind it at the second call;
and with a kernel that grants every request, `SIZE_MAX` bytes are rounded up to none. -/
theorem malloc_returns_error_code :
    (malloc kernelReplies 1#64 (Run.start (fun _ => 0#8)).proc).2 = ofInt 64 (-38) ∧
    ¬ (run (Run.step kernelReplies) (Run.start (fun _ => 0#8)) [.malloc 1#64]).Sound ∧
    ¬ (run (Run.step refusingReplies) (Run.start (fun _ => 0#8)) [.malloc 1#64, .malloc 1#64]).Sound ∧
    ¬ (run (Run.step grantingReplies) (Run.start (fun _ => 0#8)) [.malloc (-1#64)]).Sound := by
  have hkernel : (run (Run.step kernelReplies) (Run.start (fun _ => 0#8)) [.malloc 1#64]).blocks =
      [⟨ofInt 64 (-38), 1⟩] := by decide +kernel
  have hrefused : (run (Run.step refusingReplies) (Run.start (fun _ => 0#8))
      [.malloc 1#64, .malloc 1#64]).blocks = [⟨0x600000#64, 1⟩] := by decide +kernel
  have hwrapped : (run (Run.step grantingReplies) (Run.start (fun _ => 0#8)) [.malloc (-1#64)]).blocks =
      [⟨0x600000#64, 2 ^ 64 - 1⟩] := by decide +kernel
  refine ⟨by decide +kernel, ?_, ?_, ?_⟩
  · exact not_sound_of_beyond (by rw [hkernel]; exact mem_singleton.mpr rfl) (by decide +kernel)
  · exact not_sound_of_beyond (by rw [hrefused]; exact mem_singleton.mpr rfl) (by decide +kernel)
  · exact not_sound_of_beyond (by rw [hwrapped]; exact mem_singleton.mpr rfl) (by decide +kernel)

end Libc
