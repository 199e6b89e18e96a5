import NamelessOS.CursorFiles
import NamelessOS.DeviceRoutes

/-!
# Descriptors of tmpfs files are cursors

An entry of the descriptor table holds a copy of a node and an offset; the bytes are in
the inode that the node's number names, in a block that moves when the file grows.
`FdsOk` is what keeps the two together, and with it every call is a step of the
reference model of `CursorFiles`.
-/

namespace Vfs

open Tmpfs Devfs Runs CursorFiles List Function
open BitVec (le_def lt_def ofNat toNat toNat_add)
open Nat (zero_le)
open Option (bind_eq_bind bind_none bind_some elim_some map_some some_inj)
open Prod (fst snd)

variable {σ : Type}

/-! ## Calls -/

/-- The node of a regular tmpfs file: what lookups hand out for it, and what the
descriptor table keeps. -/
structure IsFileNode (node : VfsNode) (i : InodeIdx) : Prop where
  ops : node.ops = some .tmpfsOps
  unmarked : node.flags &&& vfsMountpoint = 0
  inode : nodeToInode node = some i

structure FileNode where
  node : VfsNode
  idx : InodeIdx
  isFile : IsFileNode node idx

/-- The calls of a run.  Files come from `tmpfs_create`; a write passes a buffer of the
size it names. -/
inductive FileCall where
  | create (parent : VfsNode) (name : CStr) (flags : U32)
  | openFile (node : FileNode)
  | read (fd : Int) (size : U32)
  | write (fd : Int) (bytes : List U8)
  | close (fd : Int)

/-- The state after a call, and what the caller sees of it: the result, and of a read
the bytes in the buffer. -/
def FileCall.exec (env : Backends σ) (s : FsMem σ) : FileCall → Option (FsMem σ × Reply Int U8)
  | .create parent name flags => some ((tmpfsCreate s parent name flags).1, .done)
  | .openFile n =>
    (vfsFdOpen env s (some n.node)).map
      (fun r => (r.1, r.2.elim .failed (fun k => .opened (k.val : Int))))
  | .read fd size =>
    (vfsFdRead env s fd size).map
      (fun r => (r.1, if r.2.1 = failed then .failed else .items r.2.1.toNat r.2.2))
  | .write fd bytes =>
    (vfsFdWrite env s fd (ofNat 32 bytes.length) bytes).map
      (fun r => (r.1, if r.2 = failed then .failed else .count r.2.toNat))
  | .close fd => (vfsFdClose env s fd).map (fun s => (s, .done))

def FileCall.step (env : Backends σ) (s : FsMem σ) (c : FileCall) : FsMem σ :=
  ((c.exec env s).map fst).getD s

/-- Descriptors are opened on files, and no write goes past the size limit. -/
def FileCall.InLimits (s : FsMem σ) : FileCall → Prop
  | .openFile n => (s.inodePool n.idx).flags &&& vfsFile ≠ 0
  | .write fd bytes =>
    ∀ k, openFd s fd = some k → (s.fdTable k).offset.toNat + bytes.length ≤ 65536
  | _ => True

/-- `krealloc` gives a block of the size asked for that starts with the old contents. -/
def KeepsContents (env : Backends σ) : Prop :=
  ∀ others data n others' new, env.krealloc others data n = (others', some new) →
    n.toNat ≤ new.length ∧ new.take (min data.length n.toNat) = data.take (min data.length n.toNat)

/-! ## The reference model -/

/-- The bytes of a file. -/
def Inode.contents (x : Inode) : List U8 := x.data.take x.size.toNat

/-- The file and the offset of an entry. -/
def FdEntry.cursor (e : FdEntry) : Option (InodeIdx × Nat) :=
  (nodeToInode e.node).map (fun i => (i, e.offset.toNat))

/-- The files and cursors of a state. -/
def FsMem.cursors (s : FsMem σ) : Store Int InodeIdx U8 where
  contents i := (s.inodePool i).contents
  cursor fd := (openFd s fd).bind (fun k => (s.fdTable k).cursor)

/-- The numbers of descriptors. -/
def IsFd (fd : Int) : Prop := 0 ≤ fd ∧ fd < vfsMaxFds

/-- The request to the reference model; creating a file is none. -/
def FileCall.op : FileCall → Option (Op Int InodeIdx U8)
  | .create _ _ _ => none
  | .openFile n => some (.openFile n.idx)
  | .read fd size => some (.read fd size.toNat)
  | .write fd bytes => some (.write fd bytes)
  | .close fd => some (.close fd)

/-- A call that ends and does what the reference model does. -/
def FileCall.Follows (env : Backends σ) (s : FsMem σ) (c : FileCall) : Prop :=
  ∃ s' r, c.exec env s = some (s', r) ∧ (c.op = none → s'.cursors = s.cursors) ∧
    (∀ op, c.op = some op → CursorFiles.Step IsFd s.cursors op r s'.cursors)

/-! ## What calls keep -/

/-- An entry of the descriptor table: a file and a position inside it. -/
structure EntryOk (s : FsMem σ) (e : FdEntry) (i : InodeIdx) : Prop where
  node : IsFileNode e.node i
  file : (s.inodePool i).flags &&& vfsFile ≠ 0
  inside : e.offset.toNat ≤ (s.inodePool i).size.toNat

/-- An inode: the block holds the file, and files are at most 64 KiB. -/
structure InodeOk (x : Inode) : Prop where
  block : x.size.toNat ≤ x.data.length
  limit : x.size.toNat ≤ 65536
  unused : x.used = false → x.size = 0 ∧ x.flags = 0

structure FdsOk (s : FsMem σ) : Prop where
  inode : ∀ i, InodeOk (s.inodePool i)
  entry : ∀ k, (s.fdTable k).opened = true → ∃ i, EntryOk s (s.fdTable k) i

/-! ## tmpfs files through the dispatch helpers -/

section Dispatch

variable {env : Backends σ} {s : FsMem σ} {node : VfsNode} {i : InodeIdx} (h : IsFileNode node i)

include h

theorem IsFileNode.target_eq : node.target = some .self := if_pos h.unmarked

theorem IsFileNode.fnOf_eq {α : Type} (field : FsOps → Option α) :
    s.fnOf env node field = field tmpfsOps := by
  rw [FsMem.fnOf, h.ops]
  rfl

theorem IsFileNode.vfsRead_eq (offset size : U32) :
    vfsRead env s (some node) offset size = (tmpfsRead s node offset size).map (Prod.mk s) := by
  unfold vfsRead
  simp only [h.fnOf_eq, h.target_eq, bind_eq_bind, bind_some, FsMem.targetNode]
  rfl

theorem IsFileNode.vfsWrite_eq (offset size : U32) (buf : List U8) :
    vfsWrite env s (some node) offset size buf =
      (tmpfsWrite env s node offset size buf).map (fun r => (r.1, r.2.1, some r.2.2)) := by
  unfold vfsWrite
  simp only [h.fnOf_eq, h.target_eq, bind_eq_bind, bind_some, FsMem.targetNode]
  cases hwrite : tmpfsWrite env s node offset size buf with
  | none => simp [tmpfsOps, callWrite, hwrite]
  | some r => simp [tmpfsOps, callWrite, hwrite]

theorem IsFileNode.vfsOpen_eq : vfsOpen env s (some node) = some (s, 0) := by
  unfold vfsOpen
  simp only [h.fnOf_eq, h.target_eq, bind_eq_bind, bind_some, FsMem.targetNode]
  rfl

theorem IsFileNode.vfsClose_eq : vfsClose env s (some node) = some s := by
  unfold vfsClose
  simp only [h.fnOf_eq, h.target_eq, bind_eq_bind, bind_some, FsMem.targetNode]
  rfl

end Dispatch

/-! ## The functions of tmpfs on a file -/

variable {x : Inode}

theorem Inode.length_contents (h : InodeOk x) : x.contents.length = x.size.toNat := by
  rw [Inode.contents, length_take, Nat.min_eq_left h.block]

theorem slice_contents {offset n : Nat} (h : offset + n ≤ x.size.toNat) :
    slice x.contents offset n = (x.data.drop offset).take n := by
  rw [slice, Inode.contents, drop_take, take_take, Nat.min_eq_left (by omega)]

/-- **`tmpfs_read`** gives what the file holds at the offset. -/
theorem tmpfsRead_file {s : FsMem σ} {node : VfsNode} {i : InodeIdx} (hnode : IsFileNode node i)
    (hfile : (s.inodePool i).flags &&& vfsFile ≠ 0) (hi : InodeOk (s.inodePool i)) (offset size : U32) :
    ∃ ret, tmpfsRead s node offset size =
        some (ret, slice (s.inodePool i).contents offset.toNat size.toNat) ∧
      ret.toNat = (slice (s.inodePool i).contents offset.toNat size.toNat).length := by
  have hlen := Inode.length_contents hi
  have hslice : (slice (s.inodePool i).contents offset.toNat size.toNat).length =
      min size.toNat ((s.inodePool i).size.toNat - offset.toNat) := by
    rw [slice, length_take, length_drop, hlen]
  unfold tmpfsRead
  rw [hnode.inode]
  simp only [if_neg hfile]
  by_cases hend : (s.inodePool i).size ≤ offset
  · rw [if_pos hend]
    grind [length_eq_zero_iff, le_def]
  · rw [if_neg hend]
    rw [le_def, Nat.not_le] at hend
    have havail : ((s.inodePool i).size - offset).toNat = (s.inodePool i).size.toNat - offset.toNat :=
      BitVec.toNat_sub_of_le (by rw [le_def]; omega)
    generalize hn : (if size < (s.inodePool i).size - offset then size
      else (s.inodePool i).size - offset) = n
    have hmin : n.toNat = min size.toNat ((s.inodePool i).size.toNat - offset.toNat) := by
      rw [← hn]
      split_ifs with hlt
      · rw [lt_def, havail] at hlt
        omega
      · rw [lt_def, havail] at hlt
        omega
    have hblock : offset.toNat + n.toNat ≤ (s.inodePool i).data.length := by
      have := hi.block
      omega
    refine ⟨n, ?_, by rw [hslice, hmin]⟩
    rw [readBytes, if_pos (.inr hblock), map_some, some_inj, Prod.mk.injEq]
    refine ⟨rfl, ?_⟩
    rw [← slice_contents (by omega), slice, slice, hmin, ← hlen, ← length_drop,
      ← take_eq_take_min]

/-- What a write has made of a file. -/
structure Written (x x' : Inode) (pos : Nat) (bytes : List U8) : Prop where
  ok : InodeOk x'
  flags : x'.flags = x.flags
  contents : x'.contents = overwrite x.contents pos bytes

theorem InodeOk.used_of_file (h : InodeOk x) (hfile : x.flags &&& vfsFile ≠ 0) : x.used = true := by
  by_contra hused
  rw [(h.unused (Bool.eq_false_iff.mpr hused)).2] at hfile
  exact hfile (by decide)

variable {bytes : List U8} {pos : Nat}

theorem Written.of_block (h : InodeOk x) {block : List U8} {n : U32}
    (hfile : x.flags &&& vfsFile ≠ 0) (hpos : pos ≤ x.size.toNat)
    (hlimit : pos + bytes.length ≤ 65536) (hn : n.toNat = max x.size.toNat (pos + bytes.length))
    (hblock : n.toNat ≤ block.length) (hstart : block.take x.size.toNat = x.contents) :
    Written x { x with data := overwrite block pos bytes, size := n } pos bytes := by
  have hlen := Inode.length_contents h
  have hsplit : block = x.contents ++ block.drop x.size.toNat := by
    rw [← hstart, take_append_drop]
  have hlong : (overwrite block pos bytes).length = max block.length (pos + bytes.length) :=
    length_overwrite block (by omega) bytes
  refine ⟨⟨?_, ?_, ?_⟩, rfl, ?_⟩
  · show n.toNat ≤ (overwrite block pos bytes).length
    omega
  · show n.toNat ≤ 65536
    have := h.limit
    omega
  · intro hunused
    rw [h.used_of_file hfile] at hunused
    cases hunused
  · show (overwrite block pos bytes).take n.toNat = _
    rw [hsplit, hn, ← hlen]
    exact take_overwrite_append _ (by omega) bytes _

theorem writeBytes_eq {block : List U8} (h : pos + bytes.length ≤ block.length) :
    writeBytes block pos bytes = some (overwrite block pos bytes) := if_pos (.inr h)

/-- **`tmpfs_write`** inside the limits: the bytes are in the file, or there is no memory
for a longer one and nothing has changed. -/
theorem tmpfsWrite_file {env : Backends σ} (henv : KeepsContents env) {s : FsMem σ} {node : VfsNode}
    {i : InodeIdx} (hnode : IsFileNode node i) (hfile : (s.inodePool i).flags &&& vfsFile ≠ 0)
    (hi : InodeOk (s.inodePool i)) {offset : U32} (hoff : offset.toNat ≤ (s.inodePool i).size.toNat) (hlimit : offset.toNat + bytes.length ≤ 65536) :
    ∃ others, (tmpfsWrite env s node offset (ofNat 32 bytes.length) bytes =
          some ({ s with others := others }, failed, node) ∧
        (s.inodePool i).size.toNat < offset.toNat + bytes.length) ∨
      (∃ x node', tmpfsWrite env s node offset (ofNat 32 bytes.length) bytes =
          some ({ s with others := others }.setInode i x, ofNat 32 bytes.length, node') ∧
        IsFileNode node' i ∧ Written (s.inodePool i) x offset.toNat bytes) := by
  have hsize : (ofNat 32 bytes.length).toNat = bytes.length := by
    rw [BitVec.toNat_ofNat]
    omega
  have hend : (offset + ofNat 32 bytes.length).toNat = offset.toNat + bytes.length := by
    rw [toNat_add, hsize]
    omega
  have hall : readBytes bytes 0 (ofNat 32 bytes.length).toNat = some bytes := by
    rw [hsize, readBytes, if_pos (.inr (Nat.zero_add _).le), drop_zero, take_length]
  have hmax : ¬ tmpfsMaxFileSize < offset + ofNat 32 bytes.length := by
    rw [lt_def, hend]
    exact Nat.not_lt.mpr hlimit
  have hgap : ¬ (s.inodePool i).size < offset := by
    rw [lt_def]
    omega
  unfold tmpfsWrite
  rw [hnode.inode]
  simp only [if_neg hfile, if_neg hmax, if_neg hgap, hall, bind_eq_bind, bind_some]
  by_cases hgrow : (s.inodePool i).size < offset + ofNat 32 bytes.length
  · simp only [if_pos hgrow]
    rw [lt_def, hend] at hgrow
    cases hrealloc : env.krealloc s.others (s.inodePool i).data (offset + ofNat 32 bytes.length) with
    | mk others o =>
      refine ⟨others, ?_⟩
      cases o with
      | none => exact .inl ⟨rfl, hgrow⟩
      | some new =>
        obtain ⟨hlong, hkept⟩ := henv _ _ _ _ _ hrealloc
        rw [hend] at hlong
        -- the block that `krealloc` gave starts with the file
        have hstart : new.take (s.inodePool i).size.toNat = (s.inodePool i).contents := by
          have hle : (s.inodePool i).size.toNat ≤ min (s.inodePool i).data.length
              (offset + ofNat 32 bytes.length).toNat := by
            have := hi.block
            omega
          have := congrArg (List.take (s.inodePool i).size.toNat) hkept
          rwa [take_take, take_take, Nat.min_eq_left hle] at this
        dsimp only
        rw [writeBytes_eq hlong, bind_some]
        exact .inr ⟨_, _, rfl, ⟨hnode.ops, hnode.unmarked, hnode.inode⟩,
          Written.of_block hi hfile hoff hlimit (by omega) (by omega) hstart⟩
  · simp only [if_neg hgrow]
    rw [lt_def, hend, Nat.not_lt] at hgrow
    have := hi.block
    rw [writeBytes_eq (by omega), bind_some]
    exact ⟨s.others, .inr ⟨_, _, rfl, hnode,
      Written.of_block hi hfile hoff hlimit (by omega) (by omega) rfl⟩⟩

/-! ## Entries of the descriptor table -/

/-- The cursor of an entry, if it is open. -/
def FdEntry.openCursor (e : FdEntry) : Option (InodeIdx × Nat) := if e.opened then e.cursor else none

theorem openFd_val (s : FsMem σ) (k : Fin vfsMaxFds) :
    openFd s (k.val : Int) = if (s.fdTable k).opened then some k else none := by
  have hk : (0 : Int) ≤ (k.val : Int) ∧ (k.val : Int) < vfsMaxFds := ⟨by omega, by exact_mod_cast k.isLt⟩
  unfold openFd
  rw [dif_pos hk]
  rfl

theorem isFd_val (k : Fin vfsMaxFds) : IsFd (k.val : Int) := ⟨by omega, by exact_mod_cast k.isLt⟩

variable {fd : Int}

theorem exists_of_isFd (h : IsFd fd) : ∃ k : Fin vfsMaxFds, fd = (k.val : Int) :=
  ⟨⟨fd.toNat, by have := h.1; have := h.2; omega⟩, (Int.toNat_of_nonneg h.1).symm⟩

theorem openFd_outside {s : FsMem σ} (h : ¬ IsFd fd) : openFd s fd = none := dif_neg h

variable {k : Fin vfsMaxFds}

theorem openFd_some {s : FsMem σ} (h : openFd s fd = some k) :
    fd = (k.val : Int) ∧ (s.fdTable k).opened = true := by
  by_cases hfd : IsFd fd
  · obtain ⟨j, rfl⟩ := exists_of_isFd hfd
    rw [openFd_val] at h
    split_ifs at h with hopened
    cases h
    exact ⟨rfl, hopened⟩
  · rw [openFd_outside hfd] at h
    cases h

theorem cursor_val (s : FsMem σ) (k : Fin vfsMaxFds) :
    s.cursors.cursor (k.val : Int) = (s.fdTable k).openCursor := by
  show (openFd s _).bind _ = _
  rw [openFd_val, FdEntry.openCursor]
  split_ifs
  · rfl
  · rfl

theorem cursor_outside {s : FsMem σ} (h : ¬ IsFd fd) : s.cursors.cursor fd = none := by
  show (openFd s fd).bind _ = none
  rw [openFd_outside h, bind_none]

theorem cursors_setFd (s : FsMem σ) (k : Fin vfsMaxFds) (e : FdEntry) :
    (s.setFd k e).cursors = s.cursors.setCursor (k.val : Int) e.openCursor := by
  have hcursor : (s.setFd k e).cursors.cursor =
      update s.cursors.cursor (k.val : Int) e.openCursor := by
    funext fd
    by_cases hfd : IsFd fd
    · obtain ⟨j, rfl⟩ := exists_of_isFd hfd
      rw [cursor_val]
      by_cases hj : j = k
      · subst hj
        rw [update_self]
        exact congrArg FdEntry.openCursor (update_self _ _ _)
      · have hne : (j.val : Int) ≠ (k.val : Int) := fun heq => hj (Fin.ext (by omega))
        rw [update_of_ne hne, cursor_val]
        exact congrArg FdEntry.openCursor (update_of_ne hj _ _)
    · grind [isFd_val, cursor_outside]
  rw [Store.setCursor, ← hcursor]
  rfl

theorem cursors_setInode (s : FsMem σ) (i : InodeIdx) (x : Inode) :
    (s.setInode i x).cursors = s.cursors.setContents i x.contents := by
  have hcontents : (s.setInode i x).cursors.contents = update s.cursors.contents i x.contents := by
    funext j
    show (update s.inodePool i x j).contents = _
    exact apply_update (fun _ => Inode.contents) s.inodePool i x j
  rw [Store.setContents, ← hcontents]
  rfl

/-! ## Invariants of updates -/

theorem FdsOk.of_eq {s s' : FsMem σ} (h : FdsOk s) (hpool : s'.inodePool = s.inodePool)
    (htable : s'.fdTable = s.fdTable) : FdsOk s' where
  inode := by
    rw [hpool]
    exact h.inode
  entry := by
    intro k hk
    rw [htable] at hk ⊢
    obtain ⟨i, hi⟩ := h.entry k hk
    exact ⟨i, hi.node, by rw [hpool]; exact hi.file, by rw [hpool]; exact hi.inside⟩

theorem FdsOk.withOthers {s : FsMem σ} (h : FdsOk s) (others : Others σ) :
    FdsOk { s with others := others } := h.of_eq rfl rfl

variable {e : FdEntry}

theorem FdsOk.setFd {s : FsMem σ} (h : FdsOk s) (k : Fin vfsMaxFds)
    (he : e.opened = true → ∃ i, EntryOk s e i) : FdsOk (s.setFd k e) where
  inode := h.inode
  entry := fun j hj => by
    by_cases hjk : j = k
    · subst hjk
      have hself : (s.setFd j e).fdTable j = e := update_self _ _ _
      rw [hself] at hj ⊢
      obtain ⟨i, hi⟩ := he hj
      exact ⟨i, hi.node, hi.file, hi.inside⟩
    · have hother : (s.setFd k e).fdTable j = s.fdTable j := update_of_ne hjk _ _
      rw [hother] at hj ⊢
      obtain ⟨i, hi⟩ := h.entry j hj
      exact ⟨i, hi.node, hi.file, hi.inside⟩

theorem EntryOk.setInode {s : FsMem σ} {i j : InodeIdx} (h : EntryOk s e i)
    (hflags : x.flags = (s.inodePool j).flags) (hsize : (s.inodePool j).size.toNat ≤ x.size.toNat) :
    EntryOk (s.setInode j x) e i := by
  by_cases hij : i = j
  · subst hij
    refine ⟨h.node, ?_, ?_⟩
    · rw [FsMem.setInode_self, hflags]
      exact h.file
    · rw [FsMem.setInode_self]
      exact h.inside.trans hsize
  · refine ⟨h.node, ?_, ?_⟩
    · rw [FsMem.setInode_of_ne _ hij]
      exact h.file
    · rw [FsMem.setInode_of_ne _ hij]
      exact h.inside

theorem FdsOk.setInode {s : FsMem σ} (h : FdsOk s) {j : InodeIdx} (hx : InodeOk x)
    (hentry : ∀ e i, EntryOk s e i → EntryOk (s.setInode j x) e i) : FdsOk (s.setInode j x) where
  inode := fun i => by
    by_cases hij : i = j
    · rw [hij, FsMem.setInode_self]
      exact hx
    · rw [FsMem.setInode_of_ne _ hij]
      exact h.inode i
  entry := fun k hk => by
    obtain ⟨i, hi⟩ := h.entry k hk
    exact ⟨i, hentry _ i hi⟩

/-! ## Each call -/

theorem EntryOk.cursor_eq {s : FsMem σ} {i : InodeIdx} (h : EntryOk s e i) :
    e.cursor = some (i, e.offset.toNat) := by
  rw [FdEntry.cursor, h.node.inode]
  rfl

theorem FdsOk.openFd_some {s : FsMem σ} (h : FdsOk s) (hfd : openFd s fd = some k) :
    ∃ i, EntryOk s (s.fdTable k) i ∧ s.cursors.cursor fd = some (i, (s.fdTable k).offset.toNat) := by
  obtain ⟨i, hi⟩ := h.entry k (Vfs.openFd_some hfd).2
  refine ⟨i, hi, ?_⟩
  show (openFd s fd).bind _ = _
  rw [hfd, bind_some]
  exact hi.cursor_eq

theorem cursor_of_openFd_none {s : FsMem σ} (hfd : openFd s fd = none) :
    s.cursors.cursor fd = none := by
  show (openFd s fd).bind _ = none
  rw [hfd, bind_none]

theorem FdsOk.cursor_inside {s : FsMem σ} (h : FdsOk s) {f : InodeIdx}
    (hcursor : s.cursors.cursor fd = some (f, pos)) : pos ≤ (s.cursors.contents f).length := by
  cases hfd : openFd s fd with
  | none =>
    rw [cursor_of_openFd_none hfd] at hcursor
    cases hcursor
  | some k =>
    obtain ⟨i, hi, heq⟩ := h.openFd_some hfd
    rw [heq, some_inj, Prod.mk.injEq] at hcursor
    obtain ⟨rfl, rfl⟩ := hcursor
    exact hi.inside.trans (Inode.length_contents (h.inode i)).ge

theorem setFd_fdTable (s : FsMem σ) (k : Fin vfsMaxFds) : s.setFd k (s.fdTable k) = s := by
  rw [FsMem.setFd, update_eq_self]

theorem setFd_setFd (s : FsMem σ) (k : Fin vfsMaxFds) (e e' : FdEntry) :
    (s.setFd k e).setFd k e' = s.setFd k e' := by
  simp only [FsMem.setFd, update_idem]

variable {ret : U32}

/-- The offset moves by a count that is a positive `i32` or 0. -/
theorem advance_eq {s : FsMem σ} (hret : ret.toNat ≤ 65536) :
    advance s k ret = s.setFd k { s.fdTable k with offset := (s.fdTable k).offset + ret } := by
  have hsigned : ret.toInt = (ret.toNat : Int) := by
    rw [BitVec.toInt_eq_toNat_of_lt]
    omega
  unfold advance
  split_ifs with hpos
  · rfl
  · have hzero : ret = 0 := BitVec.eq_of_toNat_eq (by
      show ret.toNat = 0
      omega)
    rw [hzero, BitVec.ofNat_eq_ofNat, BitVec.add_zero, setFd_fdTable]

/-- The end of `vfs_fd_write`: the node and the offset of the entry. -/
theorem advance_setNodeAt {s : FsMem σ} (hret : ret.toNat ≤ 65536) (node : VfsNode) :
    advance (s.setNodeAt (.fd k) node) k ret =
      s.setFd k ⟨node, (s.fdTable k).offset + ret, (s.fdTable k).opened⟩ := by
  have hself : (s.setFd k { s.fdTable k with node := node }).fdTable k =
      { s.fdTable k with node := node } := update_self _ _ _
  rw [advance_eq hret, FsMem.setNodeAt, hself, setFd_setFd]

theorem ne_failed (hret : ret.toNat ≤ 65536) : ret ≠ failed := by
  intro heq
  rw [heq] at hret
  exact absurd hret (by decide)

theorem advance_failed (s : FsMem σ) (k : Fin vfsMaxFds) : advance s k failed = s :=
  if_neg (by decide)

section Calls

variable {env : Backends σ} {s : FsMem σ} (h : FdsOk s)

include h

/-- `vfs_fd_open` -/
theorem FdsOk.openFile (n : FileNode) (hfile : (s.inodePool n.idx).flags &&& vfsFile ≠ 0) :
    ∃ s' r, FileCall.exec env s (.openFile n) = some (s', r) ∧ FdsOk s' ∧
      CursorFiles.Step IsFd s.cursors (.openFile n.idx) r s'.cursors := by
  rw [FileCall.exec, vfsFdOpen]
  cases hfind : (List.finRange vfsMaxFds).find? (fun k => !(s.fdTable k).opened) with
  | none =>
    refine ⟨s, .failed, rfl, h, .full _ ?_⟩
    intro fd hfd
    obtain ⟨k, rfl⟩ := exists_of_isFd hfd
    have hopened := List.find?_eq_none.mp hfind k (mem_finRange k)
    obtain ⟨i, hi⟩ := h.entry k (by simpa using hopened)
    rw [cursor_val, FdEntry.openCursor, if_pos (by simpa using hopened), hi.cursor_eq]
    exact Option.some_ne_none _
  | some k =>
    have hclosed : (s.fdTable k).opened = false := by simpa using List.find?_some hfind
    have hentry : EntryOk s ⟨n.node, 0, true⟩ n.idx := ⟨n.isFile, hfile, zero_le _⟩
    refine ⟨s.setFd k ⟨n.node, 0, true⟩, .opened (k.val : Int), ?_, h.setFd k (fun _ => ⟨_, hentry⟩), ?_⟩
    · simp only [n.isFile.vfsOpen_eq, bind_eq_bind, bind_some, map_some]
      rfl
    · rw [cursors_setFd]
      have hcursor : FdEntry.openCursor ⟨n.node, 0, true⟩ = some (n.idx, 0) := hentry.cursor_eq
      rw [hcursor]
      refine .opened _ (isFd_val k) ?_
      rw [cursor_val, FdEntry.openCursor, hclosed]
      rfl

/-- `vfs_fd_read` -/
theorem FdsOk.read (fd : Int) (size : U32) :
    ∃ s' r, FileCall.exec env s (.read fd size) = some (s', r) ∧ FdsOk s' ∧
      CursorFiles.Step IsFd s.cursors (.read fd size.toNat) r s'.cursors := by
  rw [FileCall.exec, vfsFdRead]
  cases hfd : openFd s fd with
  | none => exact ⟨s, .failed, rfl, h, .readClosed _ (cursor_of_openFd_none hfd)⟩
  | some k =>
    obtain ⟨i, hi, hcursor⟩ := h.openFd_some hfd
    obtain ⟨ret, hread, hret⟩ :=
      tmpfsRead_file hi.node hi.file (h.inode i) (s.fdTable k).offset size
    have hlen := Inode.length_contents (h.inode i)
    generalize hbytes : slice (s.inodePool i).contents (s.fdTable k).offset.toNat size.toNat = bytes
      at hread hret
    have hshort : (s.fdTable k).offset.toNat + bytes.length ≤ (s.inodePool i).size.toNat := by
      have := hi.inside
      rw [← hbytes, slice, length_take, length_drop, hlen]
      omega
    have hlimit := (h.inode i).limit
    have hsum : ((s.fdTable k).offset + ret).toNat = (s.fdTable k).offset.toNat + bytes.length := by
      rw [toNat_add, hret]
      omega
    have hentry : EntryOk s { s.fdTable k with offset := (s.fdTable k).offset + ret } i :=
      ⟨hi.node, hi.file, by rw [hsum]; exact hshort⟩
    refine ⟨_, .items bytes.length bytes, ?_, h.setFd k (fun _ => ⟨i, hentry⟩), ?_⟩
    · simp only [hi.node.vfsRead_eq, hread, map_some, bind_eq_bind, bind_some,
        advance_eq (k := k) (s := s) (show ret.toNat ≤ 65536 by omega),
        if_neg (ne_failed (show ret.toNat ≤ 65536 by omega)), hret]
    · have hopened := (Vfs.openFd_some hfd).2
      rw [cursors_setFd, FdEntry.openCursor, if_pos hopened, hentry.cursor_eq,
        ← (Vfs.openFd_some hfd).1, hsum, ← hbytes]
      exact .read _ hcursor

/-- `vfs_fd_write` -/
theorem FdsOk.write (henv : KeepsContents env) (fd : Int) (bytes : List U8)
    (hlimit : ∀ k, openFd s fd = some k → (s.fdTable k).offset.toNat + bytes.length ≤ 65536) :
    ∃ s' r, FileCall.exec env s (.write fd bytes) = some (s', r) ∧ FdsOk s' ∧
      CursorFiles.Step IsFd s.cursors (.write fd bytes) r s'.cursors := by
  rw [FileCall.exec, vfsFdWrite]
  cases hfd : openFd s fd with
  | none => exact ⟨s, .failed, rfl, h, .writeClosed _ (cursor_of_openFd_none hfd)⟩
  | some k =>
    obtain ⟨i, hi, hcursor⟩ := h.openFd_some hfd
    have hopened := (Vfs.openFd_some hfd).2
    replace hlimit := hlimit k hfd
    obtain ⟨others, ⟨hwrite, hlong⟩ | ⟨x, node, hwrite, hnode, hx⟩⟩ :=
      tmpfsWrite_file henv hi.node hi.file (h.inode i) hi.inside hlimit
    · -- no memory for a longer file: the entry gets its own node back
      refine ⟨{ s with others := others }, .failed, ?_, h.withOthers others, ?_⟩
      · simp only [hi.node.vfsWrite_eq, hwrite, map_some, bind_eq_bind, bind_some,
          elim_some, FsMem.setNodeAt, advance_failed, if_true]
        exact congrArg some (congrArg₂ Prod.mk (setFd_fdTable _ k) rfl)
      · refine .noRoom bytes hcursor ?_
        show (s.inodePool i).contents.length < _
        rw [Inode.length_contents (h.inode i)]
        exact hlong
    · have hlen := Inode.length_contents (h.inode i)
      have hsize : x.size.toNat = max (s.inodePool i).size.toNat
          ((s.fdTable k).offset.toNat + bytes.length) := by
        have hover := length_overwrite (s.inodePool i).contents (hi.inside.trans hlen.ge) bytes
        rw [← hx.contents, Inode.length_contents hx.ok, hlen] at hover
        exact hover
      have hret : (ofNat 32 bytes.length).toNat = bytes.length := by
        rw [BitVec.toNat_ofNat]
        omega
      have hsmall : (ofNat 32 bytes.length).toNat ≤ 65536 := by omega
      have hsum : ((s.fdTable k).offset + ofNat 32 bytes.length).toNat =
          (s.fdTable k).offset.toNat + bytes.length := by
        rw [toNat_add, hret]
        omega
      have hgrows : (s.inodePool i).size.toNat ≤ x.size.toNat := by omega
      have hsame : ∀ e j, EntryOk { s with others := others } e j →
          EntryOk ({ s with others := others }.setInode i x) e j :=
        fun e j he => he.setInode hx.flags hgrows
      have hentry : EntryOk ({ s with others := others }.setInode i x)
          ⟨node, (s.fdTable k).offset + ofNat 32 bytes.length, (s.fdTable k).opened⟩ i := by
        refine ⟨hnode, ?_, ?_⟩
        · rw [FsMem.setInode_self, hx.flags]
          exact hi.file
        · rw [FsMem.setInode_self, hsum]
          omega
      refine ⟨_, .count bytes.length, ?_,
        ((h.withOthers others).setInode hx.ok hsame).setFd k (fun _ => ⟨i, hentry⟩), ?_⟩
      · simp only [hi.node.vfsWrite_eq, hwrite, map_some, bind_eq_bind, bind_some,
          elim_some, advance_setNodeAt hsmall, if_neg (ne_failed hsmall), hret]
        rfl
      · rw [cursors_setFd, cursors_setInode, FdEntry.openCursor, if_pos hopened, hentry.cursor_eq,
          ← (Vfs.openFd_some hfd).1, hsum, hx.contents]
        exact .write bytes hcursor

/-- `vfs_fd_close` -/
theorem FdsOk.close (fd : Int) : ∃ s' r, FileCall.exec env s (.close fd) = some (s', r) ∧ FdsOk s' ∧
      CursorFiles.Step IsFd s.cursors (.close fd) r s'.cursors := by
  rw [FileCall.exec, vfsFdClose]
  cases hfd : openFd s fd with
  | none =>
    have hsame : s.cursors.setCursor fd none = s.cursors := by
      rw [Store.setCursor, ← cursor_of_openFd_none hfd, update_eq_self]
    refine ⟨s, .done, rfl, h, ?_⟩
    nth_rewrite 2 [← hsame]
    exact .close fd
  | some k =>
    obtain ⟨i, hi, -⟩ := h.openFd_some hfd
    refine ⟨s.setFd k { s.fdTable k with opened := false, offset := 0 }, .done, ?_,
      h.setFd k (fun hopened => by cases hopened), ?_⟩
    · simp only [hi.node.vfsClose_eq, bind_eq_bind, bind_some, map_some]
    · rw [cursors_setFd, ← (Vfs.openFd_some hfd).1]
      exact .close fd

/-- `tmpfs_create` takes an inode that no descriptor is open on. -/
theorem FdsOk.create (parent : VfsNode) (name : CStr) (flags : U32) :
    FdsOk (tmpfsCreate s parent name flags).1 ∧
      (tmpfsCreate s parent name flags).1.cursors = s.cursors := by
  cases hcreate : tmpfsCreate s parent name flags with
  | mk s' o =>
    cases o with
    | none =>
      rw [tmpfsCreate_none hcreate]
      exact ⟨h, rfl⟩
    | some i =>
      obtain ⟨p, hparent, hdir⟩ := tmpfsCreate_parent hcreate
      have hused : (s.inodePool p).used = true := by
        by_contra hfree
        rw [((h.inode p).unused (Bool.eq_false_iff.mpr hfree)).2] at hdir
        exact hdir (by decide)
      obtain ⟨hfree, hne, rfl⟩ := tmpfsCreate_some hparent hused hcreate
      obtain ⟨hsize, hflags⟩ := (h.inode i).unused hfree
      have hnew : FdsOk (s.setInode i (newInode s i name flags)) := by
        refine h.setInode ⟨zero_le _, zero_le _, fun hunused => by cases hunused⟩ ?_
        intro e j he
        have hji : j ≠ i := by
          grind [EntryOk.file]
        refine ⟨he.node, ?_, ?_⟩
        · rw [FsMem.setInode_of_ne _ hji]
          exact he.file
        · rw [FsMem.setInode_of_ne _ hji]
          exact he.inside
      have hp : (s.setInode i (newInode s i name flags)).inodePool p = s.inodePool p :=
        FsMem.setInode_of_ne _ (Ne.symm hne) _
      refine ⟨hnew.setInode ?_ (fun e j he => he.setInode ?_ ?_), ?_⟩
      · exact ⟨(h.inode p).block, (h.inode p).limit, (h.inode p).unused⟩
      · rw [hp]
      · rw [hp]
      · have hempty : (newInode s i name flags).contents = s.cursors.contents i := by
          show _ = (s.inodePool i).data.take (s.inodePool i).size.toNat
          rw [hsize]
          rfl
        have hsame : Inode.contents { s.inodePool p with
            children := (s.inodePool p).children ++ [i] } = s.cursors.contents p := rfl
        rw [cursors_setInode, cursors_setInode, hempty, hsame]
        simp only [Store.setContents, update_eq_self]

end Calls

/-- **Every call follows the reference model**, and keeps what the next one needs. -/
theorem FdsOk.call {env : Backends σ} (henv : KeepsContents env) {s : FsMem σ} (h : FdsOk s)
    {c : FileCall}
    (hc : c.InLimits s) : c.Follows env s ∧ FdsOk (c.step env s) := by
  have hfollow : ∀ {op}, c.op = some op → (∃ s' r, c.exec env s = some (s', r) ∧ FdsOk s' ∧
        CursorFiles.Step IsFd s.cursors op r s'.cursors) →
      c.Follows env s ∧ FdsOk (c.step env s) := by
    intro op hop hspec
    obtain ⟨s', r, hexec, hok, hstep⟩ := hspec
    refine ⟨⟨s', r, hexec, fun hnone => ?_, fun op' hop' => ?_⟩, ?_⟩
    · rw [hop] at hnone
      cases hnone
    · rw [hop] at hop'
      cases hop'
      exact hstep
    · rw [FileCall.step, hexec]
      exact hok
  cases c with
  | create parent name flags =>
    obtain ⟨hok, hsame⟩ := h.create parent name flags
    exact ⟨⟨_, _, rfl, fun _ => hsame, fun op hop => by cases hop⟩, hok⟩
  | openFile n => exact hfollow rfl (h.openFile n hc)
  | read fd size => exact hfollow rfl (h.read fd size)
  | write fd bytes => exact hfollow rfl (h.write henv fd bytes hc)
  | close fd => exact hfollow rfl (h.close fd)

/-! ## Runs -/

/-- After `vfs_init`, `tmpfs_init` and `devfs_init`. -/
def bootFiles (env : Backends σ) (others : Others σ) : FsMem σ :=
  (bootFs env others).getD (FsMem.static others)

theorem fdsOk_register {s : FsMem σ} (h : FdsOk s) (name : CStr) (flags : U32) (ops : Option OpsRef) :
    FdsOk (devfsRegister s name flags ops).1 := by
  unfold devfsRegister
  grind [FdsOk.create, FdsOk.of_eq]

theorem fdsOk_rootMem (others : Others σ) : FdsOk (rootMem others) where
  inode := by
    intro i
    rw [rootMem_inodePool]
    by_cases hi : i = rootIdx
    · rw [hi, update_self]
      exact ⟨zero_le _, zero_le _, fun hunused => by cases hunused⟩
    · rw [update_of_ne hi]
      exact ⟨zero_le _, zero_le _, fun _ => ⟨rfl, rfl⟩⟩
  entry := by
    intro k hk
    cases hk

theorem fdsOk_devfsInit {s : FsMem σ} (h : FdsOk s) : FdsOk (devfsInit s).1 := by
  unfold devfsInit
  grind [FdsOk.create, fdsOk_register, FdsOk.of_eq]

theorem fdsOk_boot (env : Backends σ) (others : Others σ) : FdsOk (bootFiles env others) := by
  unfold bootFiles bootFs
  rw [tmpfsInit_eq]
  exact fdsOk_devfsInit (fdsOk_rootMem others)

/-- The answers along a run. -/
def replies (env : Backends σ) : FsMem σ → List FileCall → List (Option (Reply Int U8))
  | _, [] => []
  | s, c :: calls => (c.exec env s).map snd :: replies env (c.step env s) calls

section Chunks

variable {env : Backends σ} {s : FsMem σ}

theorem FileCall.Follows.exec_eq {c : FileCall} (h : c.Follows env s) {op : Op Int InodeIdx U8}
    (hop : c.op = some op) : ∃ r, (c.exec env s).map snd = some r ∧
      CursorFiles.Step IsFd s.cursors op r (c.step env s).cursors := by
  obtain ⟨s', r, hexec, -, hstep⟩ := h
  rw [FileCall.step, hexec]
  exact ⟨r, rfl, hstep op hop⟩

theorem steps_writes {fd : Int} {chunks : List (List U8)}
    (h : StepsMeet (FileCall.step env) (FileCall.Follows env) s (chunks.map (FileCall.write fd)))
    (hreplies : replies env s (chunks.map (FileCall.write fd)) =
      chunks.map (fun c => some (.count c.length))) :
    Steps IsFd s.cursors (writes fd chunks)
      (run (FileCall.step env) s (chunks.map (FileCall.write fd))).cursors := by
  induction chunks generalizing s with
  | nil => exact .nil _
  | cons c chunks ih =>
    obtain ⟨hhead, htail⟩ := List.cons.inj hreplies
    obtain ⟨r, hr, hstep⟩ := h.1.exec_eq rfl
    rw [hhead, some_inj] at hr
    subst hr
    exact .cons hstep (ih h.2 htail)

theorem steps_reads {fd : Int} {sizes : List U32} {f : InodeIdx} {pos : Nat}
    (h : StepsMeet (FileCall.step env) (FileCall.Follows env) s (sizes.map (FileCall.read fd)))
    (hopen : s.cursors.cursor fd = some (f, pos)) :
    ∃ answers : List (Nat × List U8), answers.map fst = sizes.map toNat ∧
      replies env s (sizes.map (FileCall.read fd)) =
        answers.map (fun a => some (.items a.2.length a.2)) ∧
      Steps IsFd s.cursors (reads fd answers)
        (run (FileCall.step env) s (sizes.map (FileCall.read fd))).cursors := by
  induction sizes generalizing s pos with
  | nil => exact ⟨[], rfl, rfl, .nil _⟩
  | cons n sizes ih =>
    obtain ⟨r, hr, hstep⟩ := h.1.exec_eq rfl
    have hbytes : ∃ l pos', r = .items l.length l ∧
        (FileCall.step env s (.read fd n)).cursors.cursor fd = some (f, pos') := by
      generalize (FileCall.step env s (.read fd n)).cursors = s' at hstep ⊢
      cases hstep with
      | read _ hcursor =>
        rw [hopen, some_inj, Prod.mk.injEq] at hcursor
        obtain ⟨rfl, rfl⟩ := hcursor
        exact ⟨_, _, rfl, update_self _ _ _⟩
      | readClosed _ hclosed =>
        rw [hopen] at hclosed
        cases hclosed
    obtain ⟨l, pos', rfl, hopen'⟩ := hbytes
    obtain ⟨answers, hsizes, hreplies, hsteps⟩ := ih h.2 hopen'
    refine ⟨(n.toNat, l) :: answers, ?_, ?_, .cons hstep hsteps⟩
    · rw [map_cons, map_cons, hsizes]
    · exact congrArg₂ List.cons hr hreplies

end Chunks

/-- **Descriptors are independent cursors over shared files.**  In every run of calls
from the start, each call does what the reference model does: a read gives the bytes
that the file has at the descriptor's own offset, a write puts its bytes there (or
fails, for lack of memory, with no effect), only the descriptor of the call moves, by
the count transferred, and a descriptor is opened at 0.  So the chunks written through
one descriptor are read back through another, in whatever sizes. -/
theorem descriptors_are_cursors {env : Backends σ} (henv : KeepsContents env) (others : Others σ)
    (calls : List FileCall)
    (hok : StepsMeet (FileCall.step env) FileCall.InLimits (bootFiles env others) calls) :
    StepsMeet (FileCall.step env) (FileCall.Follows env) (bootFiles env others) calls ∧
      ∀ (before : List FileCall) (w r : Int) (f : InodeIdx) (pos : Nat) (chunks : List (List U8))
        (sizes : List U32) (s : FsMem σ),
        calls = before ++ (chunks.map (FileCall.write w) ++ sizes.map (FileCall.read r)) →
        s = run (FileCall.step env) (bootFiles env others) before → r ≠ w →
        s.cursors.cursor w = some (f, pos) → s.cursors.cursor r = some (f, pos) →
        replies env s (chunks.map (FileCall.write w)) = chunks.map (fun c => some (.count c.length)) →
        ∃ answers : List (List U8),
          replies env (run (FileCall.step env) s (chunks.map (FileCall.write w)))
              (sizes.map (FileCall.read r)) = answers.map (fun l => some (.items l.length l)) ∧
            answers.flatten =
              (chunks.flatten ++ (s.cursors.contents f).drop (pos + chunks.flatten.length)).take
                (sizes.map toNat).sum := by
  have hfollows := stepsMeet_of_invariant FdsOk (fun _ _ h hc => (h.call henv hc).2)
    (fun _ _ h hc => (h.call henv hc).1) (fdsOk_boot env others) hok
  refine ⟨hfollows, ?_⟩
  intro before w r f pos chunks sizes s hcalls hs hne hw hr hwritten
  rw [hcalls] at hok hfollows
  obtain ⟨hbefore, -⟩ := (stepsMeet_append _ _ _).mp hok
  obtain ⟨-, hlater⟩ := (stepsMeet_append _ _ _).mp hfollows
  have hinv : FdsOk s := by
    rw [hs]
    exact run_invariant FdsOk (fun _ _ h hc => (h.call henv hc).2) (fdsOk_boot env others) hbefore
  rw [← hs] at hlater
  obtain ⟨hwrites, hreads⟩ := (stepsMeet_append _ _ _).mp hlater
  have hpos := hinv.cursor_inside hw
  have hsteps := steps_writes hwrites hwritten
  obtain ⟨answers, hsizes, hreplies, hread⟩ :=
    steps_reads hreads (((hsteps.writes_spec hw hpos).2 r hne).trans hr)
  refine ⟨answers.map snd, ?_, ?_⟩
  · rw [hreplies, map_map]
    rfl
  · rw [← hsizes]
    exact hsteps.written_is_read hread hw hr hne hpos

/-! ## A run -/

/-- A heap with room for everything. -/
def plainHeap : Backends Unit :=
  { noBackends with
    krealloc := fun others data n =>
      (others, some (data.take n.toNat ++ List.replicate (n.toNat - data.length) 0)) }

theorem plainHeap_keepsContents : KeepsContents plainHeap := by
  intro others data n others' new h
  cases h
  grind

/-- The first file made after the start, under the root. -/
def firstFile : FileNode where
  node := { VfsNode.zero with flags := vfsFile, inode := 4, ops := some .tmpfsOps }
  idx := ⟨4, by decide⟩
  isFile := ⟨rfl, by decide, rfl⟩

/-- Two descriptors of one file: two chunks go in through one, and come out through the
other in three reads. -/
def twoDescriptors : List FileCall :=
  [.create { VfsNode.zero with flags := vfsDir, ops := some .tmpfsOps } nullName vfsFile,
    .openFile firstFile, .openFile firstFile, .write 0 [1, 2, 3], .write 0 [4, 5],
    .read 1 2, .read 1 2, .read 1 2, .close 0]

instance decidableInLimits (s : FsMem σ) (c : FileCall) : Decidable (c.InLimits s) :=
  match c with
  | .create _ _ _ => isTrue trivial
  | .openFile n => inferInstanceAs (Decidable ((s.inodePool n.idx).flags &&& vfsFile ≠ 0))
  | .read _ _ => isTrue trivial
  | .write fd bytes => inferInstanceAs (Decidable (∀ k, openFd s fd = some k →
      (s.fdTable k).offset.toNat + bytes.length ≤ 65536))
  | .close _ => isTrue trivial

theorem twoDescriptors_inLimits :
    StepsMeet (FileCall.step plainHeap) FileCall.InLimits (bootFiles plainHeap noOthers)
      twoDescriptors := by
  decide +kernel

theorem descriptors_are_cursors_two :
    replies plainHeap (bootFiles plainHeap noOthers) twoDescriptors = [some .done, some (.opened 0),
      some (.opened 1), some (.count 3), some (.count 2), some (.items 2 [1, 2]), some (.items 2 [3, 4]),
      some (.items 1 [5]), some .done] ∧
    StepsMeet (FileCall.step plainHeap) (FileCall.Follows plainHeap) (bootFiles plainHeap noOthers)
      twoDescriptors :=
  ⟨by decide +kernel, (descriptors_are_cursors plainHeap_keepsContents noOthers twoDescriptors
    twoDescriptors_inLimits).1⟩

end Vfs
