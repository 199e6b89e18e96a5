import NamelessOS.Devfs

/-!
# The virtual file system

The dispatch helpers of `vfs.c`, which follow a mountpoint's `ptr`, the registry and
`vfs_mount`, and the descriptor table.  A node parameter is the node a pointer leads
to, `none` for `NULL`; a result `none` means that the code follows a pointer that is
`NULL` or leads to something else.
-/

namespace Vfs

open Tmpfs Devfs

variable {σ : Type}

/-! ## Calls through a vtable -/

def callRead (env : Backends σ) (s : FsMem σ) (node : VfsNode) (offset size : U32) :
    ReadFn → Option (FsMem σ × U32 × List U8)
  | .tmpfsRead => (tmpfsRead s node offset size).map (Prod.mk s)
  | .nullRead => some (s, nullRead)
  | .zeroRead => some (s, zeroRead size)
  | .other k =>
    let (others, r) := env.read k s.others node offset size
    some ({ s with others := others }, r)

/-- The node comes back, since `tmpfs_write` stores the new size in it. -/
def callWrite (env : Backends σ) (s : FsMem σ) (node : VfsNode) (offset size : U32) (buf : List U8) :
    WriteFn → Option (FsMem σ × U32 × VfsNode)
  | .tmpfsWrite => tmpfsWrite env s node offset size buf
  | .nullWrite => some (s, nullWrite size, node)
  | .other k =>
    let (others, r) := env.write k s.others node offset size buf
    some ({ s with others := others }, r)

def callOpen (env : Backends σ) (s : FsMem σ) (node : VfsNode) : OpenFn → FsMem σ × U32
  | .tmpfsOpen => (s, 0)
  | .other k =>
    let (others, r) := env.onOpen k s.others node
    ({ s with others := others }, r)

def callClose (env : Backends σ) (s : FsMem σ) (node : VfsNode) : CloseFn → FsMem σ
  | .tmpfsClose => s
  | .other k => { s with others := env.onClose k s.others node }

def callFinddir (env : Backends σ) (s : FsMem σ) (node : VfsNode) (name : CStr) :
    FinddirFn → Option (FsMem σ × Option VfsNode)
  | .tmpfsFinddir => some (s, tmpfsFinddir s node name)
  | .devFinddir => devFinddir env s node name
  | .other k =>
    let (others, out) := env.finddir k s.others node name
    some ({ s with others := others }, out)

def callMount (env : Backends σ) (s : FsMem σ) (dev : Option NodeRef) :
    MountFn → FsMem σ × Option NodeRef
  | .tmpfsMount => tmpfsMount s
  | .other k =>
    let (others, root) := env.mount k s.others dev
    ({ s with others := others }, root)

/-! ## The dispatch helpers -/

/-- Whom a request through a node goes to. -/
inductive Target where
  | self
  | mounted (r : NodeRef)
deriving DecidableEq

/-- `(node->flags & VFS_MOUNTPOINT) ? node->ptr : node`; `none` if `ptr` is not the
address of a node. -/
def VfsNode.target (node : VfsNode) : Option Target :=
  if node.flags &&& vfsMountpoint = 0 then some .self
  else
    match node.ptr with
    | .node r => some (.mounted r)
    | _ => none

def FsMem.targetNode (s : FsMem σ) (node : VfsNode) : Target → VfsNode
  | .self => node
  | .mounted r => s.nodeAt r

/-- A field of the vtable of a node; `none` for a missing vtable, too. -/
def FsMem.fnOf {α : Type} (env : Backends σ) (s : FsMem σ) (node : VfsNode) (field : FsOps → Option α) :
    Option α := node.ops.bind (fun r => field (s.opsAt env r))

/-- `vfs_read` -/
def vfsRead (env : Backends σ) (s : FsMem σ) (node : Option VfsNode) (offset size : U32) :
    Option (FsMem σ × U32 × List U8) :=
  match node with
  | none => some (s, failed, [])
  | some node =>
    if s.fnOf env node FsOps.read = none then some (s, failed, [])
    else do
      let t ← node.target
      let f ← s.fnOf env (s.targetNode node t) FsOps.read
      callRead env s (s.targetNode node t) offset size f

/-- `vfs_write`: the state, the result and the caller's node. -/
def vfsWrite (env : Backends σ) (s : FsMem σ) (node : Option VfsNode) (offset size : U32)
    (buf : List U8) : Option (FsMem σ × U32 × Option VfsNode) :=
  match node with
  | none => some (s, failed, none)
  | some node =>
    if s.fnOf env node FsOps.write = none then some (s, failed, some node)
    else do
      let t ← node.target
      let f ← s.fnOf env (s.targetNode node t) FsOps.write
      let (s, ret, target) ← callWrite env s (s.targetNode node t) offset size buf f
      match t with
      | .self => some (s, ret, some target)
      | .mounted r => some (s.setNodeAt r target, ret, some node)

/-- `vfs_open` -/
def vfsOpen (env : Backends σ) (s : FsMem σ) (node : Option VfsNode) : Option (FsMem σ × U32) :=
  match node with
  | none => some (s, failed)
  | some node => do
      let t ← node.target
      match s.fnOf env (s.targetNode node t) FsOps.onOpen with
      | some f => some (callOpen env s (s.targetNode node t) f)
      | none => some (s, 0)

/-- `vfs_close` -/
def vfsClose (env : Backends σ) (s : FsMem σ) (node : Option VfsNode) : Option (FsMem σ) :=
  match node with
  | none => some s
  | some node => do
      let t ← node.target
      match s.fnOf env (s.targetNode node t) FsOps.onClose with
      | some f => some (callClose env s (s.targetNode node t) f)
      | none => some s

/-- `vfs_finddir` -/
def vfsFinddir (env : Backends σ) (s : FsMem σ) (node : Option VfsNode) (name : CStr) :
    Option (FsMem σ × Option VfsNode) :=
  match node with
  | none => some (s, none)
  | some node =>
    if node.flags &&& vfsDir = 0 then some (s, none)
    else do
      let t ← node.target
      match s.fnOf env (s.targetNode node t) FsOps.finddir with
      | some f => callFinddir env s (s.targetNode node t) name f
      | none => some (s, none)

/-- A lookup through a directory node of tmpfs that is not marked as a mountpoint. -/
theorem vfsFinddir_tmpfs {env : Backends σ} {s : FsMem σ} {node : VfsNode}
    (hdir : node.flags &&& vfsDir ≠ 0) (hmark : node.flags &&& vfsMountpoint = 0)
    (hops : node.ops = some .tmpfsOps) (name : CStr) :
    vfsFinddir env s (some node) name = some (s, tmpfsFinddir s node name) := by
  have hfn : s.fnOf env node FsOps.finddir = some .tmpfsFinddir := by
    rw [FsMem.fnOf, hops]
    rfl
  have htarget : node.target = some .self := if_pos hmark
  unfold vfsFinddir
  simp only [if_neg hdir, htarget, Option.bind_eq_bind, Option.bind_some, FsMem.targetNode, hfn]
  rfl

/-- The node that `vfs_root` points to. -/
def FsMem.rootNode (s : FsMem σ) : Option VfsNode := s.vfsRoot.map s.nodeAt

/-! ## Registry and mounts -/

/-- `vfs_register_fs` -/
def vfsRegisterFs (s : FsMem σ) (fs : Filesystem) : FsMem σ × U32 :=
  if vfsMaxFs ≤ s.fsTable.length then (s, failed)
  else ({ s with fsTable := s.fsTable ++ [fs] }, 0)

/-- The backend that `vfs_mount` takes. -/
def findFs (s : FsMem σ) (fsName : CStr) : Option Filesystem :=
  s.fsTable.find? (fun fs => fs.name.is fsName)

/-- `if (*name == '/') name++;` -/
def skipSlash (path : CStr) : CStr where
  chars := if path.chars.head? = some 0x2F#8 then path.chars.tail else path.chars
  noNul := by
    split
    · exact fun h => path.noNul (List.mem_of_mem_tail h)
    · exact path.noNul

/-- `vfs_mount`.  The mark is put on `target`, a variable of the call. -/
def vfsMount (env : Backends σ) (s : FsMem σ) (fsName path : CStr) (dev : Option NodeRef) :
    Option (FsMem σ × U32) :=
  match findFs s fsName with
  | none => some (s, failed)
  | some fs =>
    match callMount env s dev fs.mount with
    | (s, none) => some (s, failed)
    | (s, some root) =>
      if path.same slash then some ({ s with vfsRoot := some root }, 0)
      else if s.vfsRoot = none then some (s, failed)
      else
        match vfsFinddir env s s.rootNode (skipSlash path) with
        | none => none
        | some (s, none) => some (s, failed)
        | some (s, some target) =>
          let _target := { target with flags := target.flags ||| vfsMountpoint, ptr := .node root }
          some (s, 0)

/-! ## Descriptors -/

/-- `vfs_fd_open`: the first closed entry gets a copy of the node; `none` inside for
-1. -/
def vfsFdOpen (env : Backends σ) (s : FsMem σ) (node : Option VfsNode) :
    Option (FsMem σ × Option (Fin vfsMaxFds)) :=
  match node with
  | none => some (s, none)
  | some node =>
    match (List.finRange vfsMaxFds).find? (fun i => !(s.fdTable i).opened) with
    | none => some (s, none)
    | some i => do
        let (s, _) ← vfsOpen env (s.setFd i ⟨node, 0, true⟩) (some node)
        some (s, some i)

/-- The descriptor of a number, if it is open. -/
def openFd (s : FsMem σ) (fd : Int) : Option (Fin vfsMaxFds) :=
  if h : 0 ≤ fd ∧ fd < vfsMaxFds then
    let i : Fin vfsMaxFds := ⟨fd.toNat, by omega⟩
    if (s.fdTable i).opened then some i else none
  else none

/-- `if (ret > 0) e->offset += (u32)ret;`, with the result as a signed number. -/
def advance (s : FsMem σ) (i : Fin vfsMaxFds) (ret : U32) : FsMem σ :=
  if 0 < ret.toInt then s.setFd i { s.fdTable i with offset := (s.fdTable i).offset + ret } else s

/-- `vfs_fd_read` -/
def vfsFdRead (env : Backends σ) (s : FsMem σ) (fd : Int) (size : U32) :
    Option (FsMem σ × U32 × List U8) :=
  match openFd s fd with
  | none => some (s, failed, [])
  | some i => do
      let (s, ret, bytes) ← vfsRead env s (some (s.fdTable i).node) (s.fdTable i).offset size
      some (advance s i ret, ret, bytes)

/-- `vfs_fd_write` -/
def vfsFdWrite (env : Backends σ) (s : FsMem σ) (fd : Int) (size : U32) (buf : List U8) :
    Option (FsMem σ × U32) :=
  match openFd s fd with
  | none => some (s, failed)
  | some i => do
      let offset := (s.fdTable i).offset
      let (s, ret, node) ← vfsWrite env s (some (s.fdTable i).node) offset size buf
      let s := node.elim s (s.setNodeAt (.fd i))
      some (advance s i ret, ret)

/-- `vfs_fd_close` -/
def vfsFdClose (env : Backends σ) (s : FsMem σ) (fd : Int) : Option (FsMem σ) :=
  match openFd s fd with
  | none => some s
  | some i => do
      let s ← vfsClose env s (some (s.fdTable i).node)
      some (s.setFd i { s.fdTable i with opened := false, offset := 0 })

/-! ## Initialisation -/

/-- `vfs_init` -/
def vfsInit (s : FsMem σ) : FsMem σ :=
  { s with
    fsTable := []
    vfsRoot := none
    fdTable := fun i => { s.fdTable i with opened := false, offset := 0 } }

/-- The string "tmpfs". -/
def tmpfsName : CStr := ⟨[0x74#8, 0x6D#8, 0x70#8, 0x66#8, 0x73#8], by decide⟩

/-- `tmpfs_fs` -/
def tmpfsFs : Filesystem := ⟨(Name.blank 31).set tmpfsName, .tmpfsMount⟩

/-- `tmpfs_init` -/
def tmpfsInit (env : Backends σ) (s : FsMem σ) : Option (FsMem σ × U32) :=
  let s := { s with inodePool := fun i => { s.inodePool i with used := false } }
  let s := (vfsRegisterFs s tmpfsFs).1
  match vfsMount env s tmpfsName slash none with
  | none => none
  | some (s, ret) => some (s, if ret = 0 then 0 else failed)

/-- The modules in the order of the module table; their results are not checked
there. -/
def bootFs (env : Backends σ) (others : Others σ) : Option (FsMem σ) :=
  (tmpfsInit env (vfsInit (FsMem.static others))).map (fun r => (devfsInit r.1).1)

end Vfs
