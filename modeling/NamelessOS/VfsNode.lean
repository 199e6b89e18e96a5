import NamelessOS.LibString

/-!
# Nodes, vtables and the memory of the file systems

The types of `vfs.h` and `tmpfs_internal.h`, and the static variables of `vfs.c`,
`tmpfs.c` and `devfs.c` as one state.  Function pointers and addresses of nodes and
vtables are inductive types; `other` stands for modules beyond these three (the
terminal, further file systems), whose code is a `Backends` and whose memory is a
part of the state that nothing is assumed about.
-/

namespace Vfs

open Function

/-! ## Limits and flags -/

def vfsMaxFs : Nat := 8
def vfsMaxFds : Nat := 64
def vfsNameMax : Nat := 128

def vfsFile : U32 := 0x01#32
def vfsDir : U32 := 0x02#32
def vfsChardev : U32 := 0x04#32
def vfsMountpoint : U32 := 0x20#32

def tmpfsMaxNodes : Nat := 64
def tmpfsMaxChildren : Nat := 16
def tmpfsMaxFileSize : U32 := 65536#32

def devfsMaxDevices : Nat := 16

/-- The return value -1 of the functions that return `i32` or `int`. -/
def failed : U32 := -1#32

/-! ## Function pointers and vtables -/

inductive ReadFn where
  | tmpfsRead
  | nullRead
  | zeroRead
  | other (k : Nat)
deriving DecidableEq

inductive WriteFn where
  | tmpfsWrite
  | nullWrite
  | other (k : Nat)
deriving DecidableEq

inductive OpenFn where
  | tmpfsOpen
  | other (k : Nat)
deriving DecidableEq

inductive CloseFn where
  | tmpfsClose
  | other (k : Nat)
deriving DecidableEq

inductive ReaddirFn where
  | tmpfsReaddir
  | other (k : Nat)
deriving DecidableEq

inductive FinddirFn where
  | tmpfsFinddir
  | devFinddir
  | other (k : Nat)
deriving DecidableEq

inductive MountFn where
  | tmpfsMount
  | other (k : Nat)
deriving DecidableEq

/-- `fs_ops_t`; `none` for `NULL`. -/
structure FsOps where
  read : Option ReadFn
  write : Option WriteFn
  onOpen : Option OpenFn
  onClose : Option CloseFn
  readdir : Option ReaddirFn
  finddir : Option FinddirFn
deriving DecidableEq

/-- The address of a vtable. -/
inductive OpsRef where
  | tmpfsOps
  | devDirOps
  | nullOps
  | zeroOps
  | other (k : Nat)
deriving DecidableEq

/-- The address of a node that outlives a call: `node_pool[0]`, `dev_dir`, a node in
the descriptor table, or a node of another module. -/
inductive NodeRef where
  | nodePool
  | devDir
  | fd (i : Fin vfsMaxFds)
  | other (k : Nat)
deriving DecidableEq

/-- The field `ptr`; devfs keeps the address of a vtable there. -/
inductive Ptr where
  | null
  | node (r : NodeRef)
  | ops (r : OpsRef)
deriving DecidableEq

/-- `vfs_node_t` -/
structure VfsNode where
  name : Name vfsNameMax
  flags : U32
  inode : U32
  size : U32
  uid : U32
  gid : U32
  mask : U32
  ops : Option OpsRef
  ptr : Ptr
deriving DecidableEq

/-- A node of static memory. -/
def VfsNode.zero : VfsNode where
  name := Name.blank 127
  flags := 0
  inode := 0
  size := 0
  uid := 0
  gid := 0
  mask := 0
  ops := none
  ptr := .null

/-! ## Static variables -/

/-- The number of an inode of the pool. -/
abbrev InodeIdx := Fin tmpfsMaxNodes

/-- `tmpfs_inode_t`.  `data` is the block that the field points to, and the first
`child_count` entries of `children` are kept. -/
structure Inode where
  name : Name 128
  flags : U32
  data : List U8
  size : U32
  children : List InodeIdx
  used : Bool
deriving DecidableEq

def Inode.zero : Inode where
  name := Name.blank 127
  flags := 0
  data := []
  size := 0
  children := []
  used := false

/-- `filesystem_t` -/
structure Filesystem where
  name : Name 32
  mount : MountFn
deriving DecidableEq

/-- `devfs_entry_t` -/
structure DevEntry where
  name : Name 32
  ops : Option OpsRef
deriving DecidableEq

/-- `fd_entry_t` -/
structure FdEntry where
  node : VfsNode
  offset : U32
  opened : Bool
deriving DecidableEq

/-- The memory of the other modules: their nodes, and everything else. -/
structure Others (σ : Type) where
  node : Nat → VfsNode
  mem : σ

/-- The state of the file systems. -/
structure FsMem (σ : Type) where
  inodePool : InodeIdx → Inode
  /-- `node_pool[0]`, the only entry that is used -/
  nodePool : VfsNode
  vfsRoot : Option NodeRef
  /-- the first `fs_count` entries -/
  fsTable : List Filesystem
  fdTable : Fin vfsMaxFds → FdEntry
  /-- the first `dev_count` entries -/
  devTable : List DevEntry
  devDir : VfsNode
  devDirOps : FsOps
  others : Others σ

/-- The code of the other modules, and `krealloc`.  A lookup gives the node it fills
in, or `none` for a result other than 0. -/
structure Backends (σ : Type) where
  ops : Nat → FsOps
  read : Nat → Others σ → VfsNode → U32 → U32 → Others σ × U32 × List U8
  write : Nat → Others σ → VfsNode → U32 → U32 → List U8 → Others σ × U32 × VfsNode
  onOpen : Nat → Others σ → VfsNode → Others σ × U32
  onClose : Nat → Others σ → VfsNode → Others σ
  readdir : Nat → Others σ → VfsNode → U32 → Others σ × Option VfsNode
  finddir : Nat → Others σ → VfsNode → CStr → Others σ × Option VfsNode
  mount : Nat → Others σ → Option NodeRef → Others σ × Option NodeRef
  krealloc : Others σ → List U8 → U32 → Others σ × Option (List U8)

variable {σ : Type}

/-- Static memory before any module is initialised. -/
def FsMem.static (others : Others σ) : FsMem σ where
  inodePool := fun _ => .zero
  nodePool := .zero
  vfsRoot := none
  fsTable := []
  fdTable := fun _ => ⟨.zero, 0, false⟩
  devTable := []
  devDir := .zero
  devDirOps := ⟨none, none, none, none, none, none⟩
  others := others

def FsMem.setInode (s : FsMem σ) (i : InodeIdx) (x : Inode) : FsMem σ :=
  { s with inodePool := update s.inodePool i x }

@[simp] theorem FsMem.setInode_self (s : FsMem σ) (i : InodeIdx) (x : Inode) :
    (s.setInode i x).inodePool i = x := update_self _ _ _

theorem FsMem.setInode_of_ne (s : FsMem σ) {i j : InodeIdx} (h : j ≠ i) (x : Inode) :
    (s.setInode i x).inodePool j = s.inodePool j := update_of_ne h _ _

def FsMem.setFd (s : FsMem σ) (i : Fin vfsMaxFds) (e : FdEntry) : FsMem σ :=
  { s with fdTable := update s.fdTable i e }

/-! ## Addresses -/

/-- `tmpfs_ops` -/
def tmpfsOps : FsOps where
  read := some .tmpfsRead
  write := some .tmpfsWrite
  onOpen := some .tmpfsOpen
  onClose := some .tmpfsClose
  readdir := some .tmpfsReaddir
  finddir := some .tmpfsFinddir

/-- `null_ops` -/
def nullOps : FsOps where
  read := some .nullRead
  write := some .nullWrite
  onOpen := none
  onClose := none
  readdir := none
  finddir := none

/-- `zero_ops` -/
def zeroOps : FsOps := { nullOps with read := some .zeroRead }

/-- The vtable at an address. -/
def FsMem.opsAt (env : Backends σ) (s : FsMem σ) : OpsRef → FsOps
  | .tmpfsOps => tmpfsOps
  | .devDirOps => s.devDirOps
  | .nullOps => nullOps
  | .zeroOps => zeroOps
  | .other k => env.ops k

/-- The node at an address. -/
def FsMem.nodeAt (s : FsMem σ) : NodeRef → VfsNode
  | .nodePool => s.nodePool
  | .devDir => s.devDir
  | .fd i => (s.fdTable i).node
  | .other k => s.others.node k

def FsMem.setNodeAt (s : FsMem σ) (r : NodeRef) (x : VfsNode) : FsMem σ :=
  match r with
  | .nodePool => { s with nodePool := x }
  | .devDir => { s with devDir := x }
  | .fd i => s.setFd i { s.fdTable i with node := x }
  | .other k => { s with others := { s.others with node := update s.others.node k x } }

end Vfs
