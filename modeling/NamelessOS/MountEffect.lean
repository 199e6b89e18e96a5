import NamelessOS.DeviceRoutes

/-!
# What a mount changes

`vfs_mount` looks its directory up, which fills in a variable of the call, and marks
that variable.  The next lookup builds a new node from the inode, without the mark: on
a tmpfs root a successful mount is not seen by anyone.  Mounting tmpfs a second time
even fails, after `tmpfs_mount` has turned `vfs_root` into a new empty directory.
-/

namespace Vfs

open Tmpfs Devfs Runs Option
open Prod (snd)

variable {σ : Type}

/-- The root is a node of tmpfs, as `tmpfs_mount` makes it. -/
structure TmpfsRoot (s : FsMem σ) : Prop where
  root : s.vfsRoot = some .nodePool
  ops : s.nodePool.ops = some .tmpfsOps
  dir : s.nodePool.flags &&& vfsDir ≠ 0
  unmarked : s.nodePool.flags &&& vfsMountpoint = 0

/-- The path "/d". -/
def rooted (d : CStr) : CStr :=
  ⟨0x2F#8 :: d.chars, fun h => (List.mem_cons.mp h).elim (by decide) d.noNul⟩

theorem rooted_ne_slash {d : CStr} (hd : d.chars ≠ []) : (rooted d).same slash = false := by
  rw [Bool.eq_false_iff, Ne, CStr.same_iff]
  intro heq
  exact hd (List.tail_eq_of_cons_eq (congrArg CStr.chars heq))

variable {s : FsMem σ}

/-- **A successful mount on a directory** is a call of the backend's `mount` and a
lookup; nothing is written after that. -/
theorem vfsMount_zero {env : Backends σ} {s' : FsMem σ} {fsName path : CStr} {dev : Option NodeRef}
    (hpath : path.same slash = false) (h : vfsMount env s fsName path dev = some (s', 0)) :
    ∃ fs s₁ root target, findFs s fsName = some fs ∧ callMount env s dev fs.mount = (s₁, some root) ∧
      vfsFinddir env s₁ s₁.rootNode (skipSlash path) = some (s', some target) := by
  have hne : failed ≠ 0 := by decide
  unfold vfsMount at h
  cases hfs : findFs s fsName with
  | none =>
    rw [hfs] at h
    cases h
  | some fs =>
    rw [hfs] at h
    dsimp only at h
    cases hmount : callMount env s dev fs.mount with
    | mk s₁ o =>
      rw [hmount] at h
      cases o with
      | none => cases h
      | some root =>
        simp only [hpath, Bool.false_eq_true, if_false] at h
        split_ifs at h with hroot
        · cases h
        grind

/-! ## Lookups on a tmpfs root -/

theorem TmpfsRoot.finddir (h : TmpfsRoot s) (env : Backends σ) (name : CStr) :
    vfsFinddir env s s.rootNode name = some (s, tmpfsFinddir s s.nodePool name) := by
  have hroot : s.rootNode = some s.nodePool := by
    rw [FsMem.rootNode, h.root]
    rfl
  rw [hroot, vfsFinddir_tmpfs h.dir h.unmarked h.ops]

theorem tmpfsFinddir_ptr {node out : VfsNode} {name : CStr}
    (h : tmpfsFinddir s node name = some out) : out.ptr = .null := by
  unfold tmpfsFinddir at h
  cases hnode : nodeToInode node with
  | none =>
    rw [hnode] at h
    cases h
  | some i =>
    rw [hnode] at h
    dsimp only at h
    split_ifs at h with hdir
    obtain ⟨c, -, rfl⟩ := map_eq_some_iff.mp h
    rfl

theorem target_of_null {node : VfsNode} (h : node.ptr = .null) (r : NodeRef) :
    node.target ≠ some (.mounted r) := by
  unfold VfsNode.target
  rw [h]
  split_ifs
  · intro heq
    cases heq
  · intro heq
    cases heq

/-- **`tmpfs_mount` takes the root away**: `vfs_root` points to the node it fills in, so
every later lookup from the root fails. -/
theorem tmpfsMount_empties_root {s₁ : FsMem σ} {root : NodeRef} (h : TmpfsRoot s)
    (hmount : tmpfsMount s = (s₁, some root)) (env : Backends σ) (name : CStr) :
    vfsFinddir env s₁ s₁.rootNode name = some (s₁, none) := by
  obtain ⟨hroot, i, hnode, hflags, hchildren⟩ := tmpfsMount_some hmount
  have hnodeFlags : s₁.nodePool.flags = vfsDir := by
    rw [hnode]
    exact hflags
  have h₁ : TmpfsRoot s₁ := {
    root := hroot.trans h.root
    ops := by rw [hnode]; rfl
    dir := by rw [hnodeFlags]; decide
    unmarked := by rw [hnodeFlags]; decide }
  have hdir : (s₁.inodePool i).flags &&& vfsDir ≠ 0 := by
    rw [hflags]
    decide
  grind [nodeToInode_inodeToNode, TmpfsRoot.finddir, tmpfsFinddir_eq]

/-! ## The mount and the next lookup -/

/-- A lookup of the directory gives a node whose requests go to the mounted one: all
dispatch helpers go to the node's `target`. -/
def TakesEffect (env : Backends σ) (s : FsMem σ) (d : CStr) (root : NodeRef) : Prop :=
  ∃ s' fresh, vfsFinddir env s s.rootNode d = some (s', some fresh) ∧
    fresh.target = some (.mounted root)

/-- **A successful mount has no effect.**  On a tmpfs root, for every registered file
system and every directory name: if `vfs_mount` on the directory returns 0, then the
backend returned a root, no lookup leads to it, and no lookup of any name from the root
is answered differently than before; only the backend's own memory may have changed. -/
theorem mount_takes_no_effect (env : Backends σ) {s s' : FsMem σ} (h : TmpfsRoot s) (fsName d : CStr)
    (hd : d.chars ≠ []) (dev : Option NodeRef)
    (hmount : vfsMount env s fsName (rooted d) dev = some (s', 0)) :
    ∃ fs root, findFs s fsName = some fs ∧ (callMount env s dev fs.mount).2 = some root ∧
      ¬ TakesEffect env s' d root ∧ s' = { s with others := s'.others } ∧
      ∀ name, (vfsFinddir env s' s'.rootNode name).map snd =
        (vfsFinddir env s s.rootNode name).map snd := by
  obtain ⟨fs, s₁, root, target, hfs, hcall, hfind⟩ := vfsMount_zero (rooted_ne_slash hd) hmount
  refine ⟨fs, root, hfs, by rw [hcall], ?_⟩
  cases hfn : fs.mount with
  | tmpfsMount =>
    -- the lookup in the new root cannot have succeeded
    rw [hfn] at hcall
    rw [tmpfsMount_empties_root h hcall] at hfind
    cases hfind
  | other k =>
    rw [hfn] at hcall
    have hs₁ : s₁ = { s with others := s₁.others } := by
      have hfst : (callMount env s dev (.other k)).1 = s₁ := by rw [hcall]
      rw [← hfst]
      rfl
    have h₁ : TmpfsRoot s₁ := by
      rw [hs₁]
      exact { h with }
    rw [h₁.finddir, some_inj, Prod.mk.injEq] at hfind
    obtain ⟨rfl, -⟩ := hfind
    refine ⟨?_, hs₁, ?_⟩
    · intro heffect
      obtain ⟨s₂, fresh, hfresh, htarget⟩ := heffect
      grind [target_of_null, tmpfsFinddir_ptr, TmpfsRoot.finddir]
    · intro name
      rw [h₁.finddir, h.finddir, hs₁]
      rfl

/-! ## A mounted file system that is not seen -/

/-- A node of a directory in which every name is found. -/
def ramNode : VfsNode := { VfsNode.zero with flags := vfsDir, ops := some (.other 0) }

def ramBackends : Backends Unit :=
  { noBackends with
    ops := fun _ => ⟨none, none, none, none, none, some (.other 0)⟩
    finddir := fun _ o _ _ => (o, some ramNode)
    mount := fun _ o _ => (o, some (.other 0)) }

/-- The strings "ram" and "mnt". -/
def ramName : CStr := ⟨[0x72#8, 0x61#8, 0x6D#8], by decide⟩
def mntName : CStr := ⟨[0x6D#8, 0x6E#8, 0x74#8], by decide⟩

/-- After `devfs_init`, with a directory `/mnt` and the file system registered. -/
def mntMem : FsMem Unit :=
  let s := (DevWorld.boot ramBackends ⟨fun _ => ramNode, ()⟩).mem
  let s := (tmpfsCreate s s.nodePool mntName vfsDir).1
  (vfsRegisterFs s ⟨(Name.blank 31).set ramName, .other 0⟩).1

/-- What the next lookup of `/mnt` gives after the mount. -/
def mntFresh : Option VfsNode := (vfsMount ramBackends mntMem ramName (rooted mntName) none).bind
    (fun r => (vfsFinddir ramBackends r.1 r.1.rootNode mntName).bind snd)

/-- **A mount that reports success.**  The mounted directory finds a name, and the
directory it was mounted on does not. -/
theorem mounted_not_seen :
    (vfsMount ramBackends mntMem ramName (rooted mntName) none).map snd = some 0 ∧
    (callMount ramBackends mntMem none (.other 0)).2 = some (.other 0) ∧
    ((vfsFinddir ramBackends mntMem (some (mntMem.nodeAt (.other 0))) zeroName).bind snd).isSome ∧
    mntFresh.map VfsNode.target = some (some .self) ∧
    ((vfsFinddir ramBackends mntMem mntFresh zeroName).bind snd) = none := by
  decide +kernel

theorem mntMem_tmpfsRoot : TmpfsRoot mntMem where
  root := by decide +kernel
  ops := by decide +kernel
  dir := by decide +kernel
  unmarked := by decide +kernel

/-- The mount on `/mnt` has no effect. -/
theorem mount_takes_no_effect_mnt :
    ∃ s' root, vfsMount ramBackends mntMem ramName (rooted mntName) none = some (s', 0) ∧
      ¬ TakesEffect ramBackends s' mntName root := by
  have hzero : (vfsMount ramBackends mntMem ramName (rooted mntName) none).map snd = some 0 := by
    decide +kernel
  obtain ⟨r, hmount, hret⟩ := map_eq_some_iff.mp hzero
  obtain ⟨s', ret⟩ := r
  cases hret
  obtain ⟨fs, root, -, -, hno, -⟩ :=
    mount_takes_no_effect ramBackends mntMem_tmpfsRoot ramName mntName (by decide) none hmount
  exact ⟨s', root, hmount, hno⟩

end Vfs
