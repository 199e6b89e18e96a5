import NamelessOS.VfsNode

/-!
# tmpfs

Files and directories in a pool of 64 inodes.  Nodes do not live in tmpfs: every
lookup builds one from an inode (`inodeToNode`), so what a caller changes in a node
is not seen by the next lookup.
-/

namespace Tmpfs

open Vfs LibString

variable {σ : Type}

/-! ## The functions of `tmpfs.c` -/

/-- `alloc_inode`: the first unused inode. -/
def allocInode (s : FsMem σ) : FsMem σ × Option InodeIdx :=
  match (List.finRange tmpfsMaxNodes).find? (fun i => !(s.inodePool i).used) with
  | some i =>
    (s.setInode i { s.inodePool i with used := true, children := [], data := [], size := 0 }, some i)
  | none => (s, none)

/-- `inode_to_node`; every byte of the node's name is written. -/
def inodeToNode (s : FsMem σ) (i : InodeIdx) : VfsNode where
  name := (Name.blank 127).set (s.inodePool i).name.str
  flags := (s.inodePool i).flags
  inode := BitVec.ofNat 32 i.val
  size := (s.inodePool i).size
  uid := 0
  gid := 0
  mask := 0o755#32
  ops := some .tmpfsOps
  ptr := .null

/-- `node_to_inode` -/
def nodeToInode (node : VfsNode) : Option InodeIdx :=
  if h : node.inode.toNat < tmpfsMaxNodes then some ⟨node.inode.toNat, h⟩ else none

/-- `memcpy` out of a block; `none` if it reads outside. -/
def readBytes (block : List U8) (offset n : Nat) : Option (List U8) :=
  if n = 0 ∨ offset + n ≤ block.length then some ((block.drop offset).take n) else none

/-- `memcpy` or `memset` into a block; `none` if it writes outside. -/
def writeBytes (block : List U8) (offset : Nat) (bytes : List U8) : Option (List U8) :=
  if bytes = [] ∨ offset + bytes.length ≤ block.length then
    some (block.take offset ++ bytes ++ block.drop (offset + bytes.length))
  else none

/-- `tmpfs_read`: the result and the bytes put into the buffer. -/
def tmpfsRead (s : FsMem σ) (node : VfsNode) (offset size : U32) : Option (U32 × List U8) :=
  match nodeToInode node with
  | none => some (failed, [])
  | some i =>
    if (s.inodePool i).flags &&& vfsFile = 0 then some (failed, [])
    else if (s.inodePool i).size ≤ offset then some (0, [])
    else
      let avail := (s.inodePool i).size - offset
      let n := if size < avail then size else avail
      (readBytes (s.inodePool i).data offset.toNat n.toNat).map (Prod.mk n)

/-- `tmpfs_write`: the state, the result and the caller's node.  The end of the
write is computed in 32 bits. -/
def tmpfsWrite (env : Backends σ) (s : FsMem σ) (node : VfsNode) (offset size : U32)
    (buf : List U8) : Option (FsMem σ × U32 × VfsNode) :=
  match nodeToInode node with
  | none => some (s, failed, node)
  | some i =>
    let x := s.inodePool i
    let fin := offset + size
    if x.flags &&& vfsFile = 0 then some (s, failed, node)
    else if tmpfsMaxFileSize < fin then some (s, failed, node)
    else if x.size < fin then
      match env.krealloc s.others x.data fin with
      | (others, none) => some ({ s with others := others }, failed, node)
      | (others, some newdata) => do
          -- zero any gap between the old size and the new offset
          let data ←
            if x.size < offset then
              writeBytes newdata x.size.toNat (List.replicate (offset - x.size).toNat 0)
            else some newdata
          let bytes ← readBytes buf 0 size.toNat
          let data ← writeBytes data offset.toNat bytes
          some ({ s with others := others }.setInode i { x with data := data, size := fin },
            size, { node with size := fin })
    else do
      let bytes ← readBytes buf 0 size.toNat
      let data ← writeBytes x.data offset.toNat bytes
      some (s.setInode i { x with data := data }, size, node)

/-- `tmpfs_finddir`: the first child of that name. -/
def tmpfsFinddir (s : FsMem σ) (node : VfsNode) (name : CStr) : Option VfsNode :=
  match nodeToInode node with
  | none => none
  | some i =>
    if (s.inodePool i).flags &&& vfsDir = 0 then none
    else ((s.inodePool i).children.find? (fun c => (s.inodePool c).name.is name)).map (inodeToNode s)

/-- The string "/". -/
def slash : CStr := ⟨[0x2F#8], by decide⟩

/-- `tmpfs_mount` fills in `node_pool[0]`, each time it is called. -/
def tmpfsMount (s : FsMem σ) : FsMem σ × Option NodeRef :=
  match allocInode s with
  | (s, none) => (s, none)
  | (s, some i) =>
    let s := s.setInode i { s.inodePool i with name := (s.inodePool i).name.set slash, flags := vfsDir }
    ({ s with nodePool := inodeToNode s i }, some .nodePool)

/-- `tmpfs_create` -/
def tmpfsCreate (s : FsMem σ) (parent : VfsNode) (name : CStr) (flags : U32) :
    FsMem σ × Option InodeIdx :=
  match nodeToInode parent with
  | none => (s, none)
  | some p =>
    if (s.inodePool p).flags &&& vfsDir = 0 then (s, none)
    else if tmpfsMaxChildren ≤ (s.inodePool p).children.length then (s, none)
    else
      match allocInode s with
      | (s, none) => (s, none)
      | (s, some i) =>
        let s := s.setInode i
          { s.inodePool i with name := (s.inodePool i).name.set name, flags := flags }
        let s := s.setInode p
          { s.inodePool p with children := (s.inodePool p).children ++ [i] }
        (s, some i)

/-! ## Lookups -/

theorem nodeToInode_inodeToNode (s : FsMem σ) (i : InodeIdx) :
    nodeToInode (inodeToNode s i) = some i := by
  have hlt : i.val < 64 := i.isLt
  have hval : (BitVec.ofNat 32 i.val).toNat = i.val := by
    rw [BitVec.toNat_ofNat]
    omega
  show (if h : (BitVec.ofNat 32 i.val).toNat < tmpfsMaxNodes then some _ else none) = some i
  rw [dif_pos (by rw [hval]; exact i.isLt)]
  exact congrArg some (Fin.ext hval)

variable {s s' : FsMem σ} {p i : InodeIdx}

/-- A lookup in a directory. -/
theorem tmpfsFinddir_eq {node : VfsNode} (hnode : nodeToInode node = some p)
    (hdir : (s.inodePool p).flags &&& vfsDir ≠ 0) (name : CStr) : tmpfsFinddir s node name =
      ((s.inodePool p).children.find? (fun c => (s.inodePool c).name.str = name)).map
        (inodeToNode s) := by
  have hsame : (fun c => (s.inodePool c).name.is name) =
      (fun c => decide ((s.inodePool c).name.str = name)) := by
    funext c
    rw [Bool.eq_iff_iff, Name.is_iff, decide_eq_true_iff]
  unfold tmpfsFinddir
  rw [hnode, ← hsame]
  exact if_neg hdir

/-! ## New inodes -/

/-- What `alloc_inode` hands out was unused, and is then empty. -/
theorem allocInode_some (h : allocInode s = (s', some i)) :
    (s.inodePool i).used = false ∧ s' = s.setInode i
      { s.inodePool i with used := true, children := [], data := [], size := 0 } := by
  unfold allocInode at h
  grind

/-- **`tmpfs_mount`** makes `node_pool[0]` the node of a new empty directory. -/
theorem tmpfsMount_some {root : NodeRef} (h : tmpfsMount s = (s', some root)) :
    s'.vfsRoot = s.vfsRoot ∧ ∃ i, s'.nodePool = inodeToNode s' i ∧ (s'.inodePool i).flags = vfsDir ∧
      (s'.inodePool i).children = [] := by
  unfold tmpfsMount at h
  cases halloc : allocInode s with
  | mk s₀ o =>
    rw [halloc] at h
    cases o with
    | none => cases h
    | some i =>
      obtain ⟨-, rfl⟩ := allocInode_some halloc
      cases h
      refine ⟨rfl, i, rfl, ?_⟩
      simp only [FsMem.setInode_self]
      exact ⟨trivial, trivial⟩

/-- The inode that `tmpfs_create` makes. -/
def newInode (s : FsMem σ) (i : InodeIdx) (name : CStr) (flags : U32) : Inode where
  name := (s.inodePool i).name.set name
  flags := flags
  data := []
  size := 0
  children := []
  used := true

variable {parent : VfsNode} {name : CStr} {flags : U32}

/-- **A successful `tmpfs_create`** in a directory that is in use: the child is a new
inode and comes last; nothing else changes. -/
theorem tmpfsCreate_some
    (hparent : nodeToInode parent = some p) (hused : (s.inodePool p).used = true)
    (h : tmpfsCreate s parent name flags = (s', some i)) : (s.inodePool i).used = false ∧ i ≠ p ∧
      s' = (s.setInode i (newInode s i name flags)).setInode p
        { s.inodePool p with children := (s.inodePool p).children ++ [i] } := by
  unfold tmpfsCreate at h
  rw [hparent] at h
  dsimp only at h
  split_ifs at h
  · cases h
  · cases h
  · cases halloc : allocInode s with
    | mk s₁ o =>
      rw [halloc] at h
      cases o with
      | none => cases h
      | some j =>
        obtain ⟨hfree, rfl⟩ := allocInode_some halloc
        cases h
        have hne : i ≠ p := by
          intro heq
          rw [heq, hused] at hfree
          cases hfree
        refine ⟨hfree, hne, ?_⟩
        simp only [FsMem.setInode_self, FsMem.setInode_of_ne _ (Ne.symm hne)]
        simp only [FsMem.setInode, Function.update_idem]
        rfl

/-- `tmpfs_create` makes children of directories. -/
theorem tmpfsCreate_parent
    (h : tmpfsCreate s parent name flags = (s', some i)) :
    ∃ p, nodeToInode parent = some p ∧ (s.inodePool p).flags &&& vfsDir ≠ 0 := by
  unfold tmpfsCreate at h
  cases hparent : nodeToInode parent with
  | none =>
    rw [hparent] at h
    cases h
  | some p =>
    rw [hparent] at h
    dsimp only at h
    split_ifs at h with hdir hfull
    · cases h
    · cases h
    · exact ⟨p, rfl, hdir⟩

/-- A failed `tmpfs_create` leaves everything as it was. -/
theorem tmpfsCreate_none
    (h : tmpfsCreate s parent name flags = (s', none)) : s' = s := by
  unfold tmpfsCreate at h
  cases hparent : nodeToInode parent with
  | none =>
    rw [hparent] at h
    cases h
    rfl
  | some p =>
    rw [hparent] at h
    dsimp only at h
    split_ifs at h
    · cases h
      rfl
    · cases h
      rfl
    · unfold allocInode at h
      grind

/-! ## Room for new inodes -/

/-- The first `n` inodes are the ones in use. -/
def UsedBelow (s : FsMem σ) (n : Nat) : Prop := ∀ i, (s.inodePool i).used = decide (i.val < n)

theorem UsedBelow.alloc (h : UsedBelow s i) : allocInode s = (s.setInode i
      { s.inodePool i with used := true, children := [], data := [], size := 0 }, some i) := by
  have hfind : (List.finRange tmpfsMaxNodes).find? (fun j => !(s.inodePool j).used) = some i := by
    rw [List.find?_eq_some_iff_getElem]
    refine ⟨by simp [h i], i.val, by simp, by simp, ?_⟩
    intro j hj
    simp [h _, hj]
  unfold allocInode
  rw [hfind]

/-- While there is room, `tmpfs_create` takes the next inode. -/
theorem UsedBelow.create (h : UsedBelow s i)
    (hparent : nodeToInode parent = some p) (hdir : (s.inodePool p).flags &&& vfsDir ≠ 0)
    (hroom : (s.inodePool p).children.length < tmpfsMaxChildren) (hp : p.val < i.val) (name : CStr)
    (flags : U32) : ∃ s', tmpfsCreate s parent name flags = (s', some i) ∧ UsedBelow s' (i + 1) := by
  have hcreate : (tmpfsCreate s parent name flags).2 = some i := by
    unfold tmpfsCreate
    rw [hparent]
    simp only [if_neg hdir, if_neg (Nat.not_le.mpr hroom), h.alloc]
  have hused : (s.inodePool p).used = true := by simp [h p, hp]
  generalize hr : tmpfsCreate s parent name flags = r at hcreate ⊢
  obtain ⟨s', o⟩ := r
  cases hcreate
  obtain ⟨-, hne, rfl⟩ := tmpfsCreate_some hparent hused hr
  refine ⟨_, rfl, ?_⟩
  intro j
  by_cases hj : j = p
  · subst hj
    rw [FsMem.setInode_self, decide_eq_true (Nat.lt_succ_of_lt hp)]
    exact hused
  · rw [FsMem.setInode_of_ne _ hj]
    by_cases hi : j = i
    · subst hi
      rw [FsMem.setInode_self, decide_eq_true (Nat.lt_succ_self _)]
      rfl
    · have hval : j.val ≠ i.val := fun heq => hi (Fin.ext heq)
      rw [FsMem.setInode_of_ne _ hi, h j, decide_eq_decide]
      omega

end Tmpfs
