import NamelessOS.Tmpfs

/-!
# devfs

`/dev` is a tmpfs directory, and the vtables of the devices are in a table of their
own.  A copy of the directory's node, `dev_dir`, has a `finddir` that looks the child
up in tmpfs and then puts the vtable of the table into the node it found.
-/

namespace Devfs

open Vfs Tmpfs

variable {σ : Type}

def nullRead : U32 × List U8 := (0, [])

def nullWrite (size : U32) : U32 := size

def zeroRead (size : U32) : U32 × List U8 := (size, List.replicate size.toNat 0)

/-- The strings of `devfs_init`. -/
def devName : CStr := ⟨[0x64#8, 0x65#8, 0x76#8], by decide⟩
def nullName : CStr := ⟨[0x6E#8, 0x75#8, 0x6C#8, 0x6C#8], by decide⟩
def zeroName : CStr := ⟨[0x7A#8, 0x65#8, 0x72#8, 0x6F#8], by decide⟩

/-- The first entry of the table with that name. -/
def devEntry (s : FsMem σ) (name : CStr) : Option DevEntry := s.devTable.find? (fun e => e.name.is name)

/-- The vtable that `dev_finddir` puts into a node it found. -/
def patch (s : FsMem σ) (name : CStr) (node : VfsNode) : VfsNode :=
  match devEntry s name with
  | some e => { node with ops := e.ops }
  | none => node

/-- `orig->finddir(node, name, out)` in `dev_finddir`; `dev_finddir` itself would call
itself with the same node for ever. -/
def origFinddir (env : Backends σ) (s : FsMem σ) (node : VfsNode) (name : CStr) :
    FinddirFn → Option (FsMem σ × Option VfsNode)
  | .tmpfsFinddir => some (s, tmpfsFinddir s node name)
  | .devFinddir => none
  | .other k =>
    let (others, out) := env.finddir k s.others node name
    some ({ s with others := others }, out)

/-- `dev_finddir`.  The field `ptr` is taken for the address of a vtable; `none` if it
is that of a node. -/
def devFinddir (env : Backends σ) (s : FsMem σ) (node : VfsNode) (name : CStr) :
    Option (FsMem σ × Option VfsNode) :=
  match node.ptr with
  | .null => some (s, none)
  | .node _ => none
  | .ops orig =>
    match (s.opsAt env orig).finddir with
    | none => some (s, none)
    | some f => (origFinddir env s node name f).map (fun r => (r.1, r.2.map (patch r.1 name)))

/-- `devfs_register` -/
def devfsRegister (s : FsMem σ) (name : CStr) (flags : U32) (ops : Option OpsRef) : FsMem σ × U32 :=
  if devfsMaxDevices ≤ s.devTable.length then (s, failed)
  else
    match tmpfsCreate s s.devDir name flags with
    | (s, none) => (s, failed)
    | (s, some _) =>
      -- a field of the table ends in a NUL from the start
      ({ s with devTable := s.devTable ++ [⟨(Name.blank 31).set name, ops⟩] }, 0)

/-- `devfs_get_node` -/
def devfsGetNode (env : Backends σ) (s : FsMem σ) (name : CStr) : Option (FsMem σ × Option VfsNode) :=
  match devEntry s name with
  | some _ => devFinddir env s s.devDir name
  | none => some (s, none)

/-- `devfs_init` -/
def devfsInit (s : FsMem σ) : FsMem σ × U32 :=
  let s := { s with devTable := [] }
  match s.vfsRoot with
  | none => (s, failed)
  | some root =>
    match tmpfsCreate s (s.nodeAt root) devName vfsDir with
    | (s, none) => (s, failed)
    | (s, some i) =>
      let s := { s with
        devDir := { inodeToNode s i with ptr := .ops .tmpfsOps, ops := some .devDirOps }
        devDirOps := { tmpfsOps with finddir := some .devFinddir } }
      let s := (devfsRegister s nullName vfsChardev (some .nullOps)).1
      let s := (devfsRegister s zeroName vfsChardev (some .zeroOps)).1
      (s, 0)

end Devfs
