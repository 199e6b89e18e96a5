import NamelessOS.Runs
import NamelessOS.Vfs

/-!
# Two routes to a device

`devfs_get_node` goes through `dev_dir`, the copy of the node of `/dev` with devfs's own
`finddir`; a path goes through the node that tmpfs builds for `/dev`.  Both find the same
inode.  `DevOk` is what registrations keep of the two tables, and the theorem at the end
says for which registrations the vtables agree, too.
-/

namespace Devfs

open Vfs Tmpfs Runs Option Function
open List (length_map)
open Prod (snd)

variable {σ : Type}

/-! ## Registrations -/

/-- A call of `devfs_register`. -/
structure Registration where
  name : CStr
  flags : U32
  ops : Option OpsRef
deriving DecidableEq

/-- The entry of the device table that a registration makes. -/
def Registration.entry (r : Registration) : DevEntry := ⟨(Name.blank 31).set r.name, r.ops⟩

/-- The file systems and the registrations that returned 0. -/
structure DevWorld (σ : Type) where
  mem : FsMem σ
  log : List Registration

def DevWorld.step (w : DevWorld σ) (r : Registration) : DevWorld σ where
  mem := (devfsRegister w.mem r.name r.flags r.ops).1
  log := if (devfsRegister w.mem r.name r.flags r.ops).2 = 0 then w.log ++ [r] else w.log

/-- The two registrations of `devfs_init`. -/
def builtin : List Registration :=
  [⟨nullName, vfsChardev, some .nullOps⟩, ⟨zeroName, vfsChardev, some .zeroOps⟩]

/-- After `vfs_init`, `tmpfs_init` and `devfs_init`. -/
def DevWorld.boot (env : Backends σ) (others : Others σ) : DevWorld σ where
  mem := (bootFs env others).getD (FsMem.static others)
  log := builtin

/-! ## What registrations keep -/

/-- The inodes of the root and of `/dev`. -/
def rootIdx : InodeIdx := ⟨0, by decide⟩
def devIdx : InodeIdx := ⟨1, by decide⟩

/-- The directories `/` and `/dev` and the nodes that lead to them. -/
structure DirsOk (s : FsMem σ) : Prop where
  vfsRoot : s.vfsRoot = some .nodePool
  rootInode : nodeToInode s.nodePool = some rootIdx
  rootFlags : s.nodePool.flags = vfsDir
  rootOps : s.nodePool.ops = some .tmpfsOps
  rootDir : (s.inodePool rootIdx).flags = vfsDir
  rootUsed : (s.inodePool rootIdx).used = true
  rootChildren : (s.inodePool rootIdx).children = [devIdx]
  devName : (s.inodePool devIdx).name.str = devName
  devFlags : (s.inodePool devIdx).flags = vfsDir
  devUsed : (s.inodePool devIdx).used = true
  devInode : nodeToInode s.devDir = some devIdx
  devPtr : s.devDir.ptr = .ops .tmpfsOps

/-- **The table and the directory follow the log.**  The table keeps 31 characters of a
name, the directory 127. -/
structure DevOk (w : DevWorld σ) : Prop where
  dirs : DirsOk w.mem
  table : w.mem.devTable = w.log.map Registration.entry
  names : (w.mem.inodePool devIdx).children.map (fun c => (w.mem.inodePool c).name.str) =
    w.log.map (fun r => Name.cut r.name 127)
  used : ∀ c ∈ (w.mem.inodePool devIdx).children, (w.mem.inodePool c).used = true

variable {s : FsMem σ}

theorem DirsOk.withTable (h : DirsOk s) (t : List DevEntry) : DirsOk { s with devTable := t } :=
  { h with }

variable {name : CStr}

/-- Adding a child to `/dev` keeps the directories. -/
theorem DirsOk.create {s' : FsMem σ} (h : DirsOk s) {i : InodeIdx} {flags : U32}
    (hcreate : tmpfsCreate s s.devDir name flags = (s', some i)) :
    DirsOk s' ∧ s'.devTable = s.devTable ∧
      (s'.inodePool devIdx).children = (s.inodePool devIdx).children ++ [i] ∧
      (s.inodePool i).used = false ∧
      (∀ c, c ≠ i → (s'.inodePool c).name = (s.inodePool c).name ∧
        (s'.inodePool c).used = (s.inodePool c).used) ∧
      (s'.inodePool i).name.str = Name.cut name 127 ∧ (s'.inodePool i).used = true := by
  obtain ⟨hfree, hne, rfl⟩ := tmpfsCreate_some h.devInode h.devUsed hcreate
  have hroot : rootIdx ≠ i := by
    intro heq
    rw [← heq, h.rootUsed] at hfree
    cases hfree
  have hrd : rootIdx ≠ devIdx := by decide
  -- the three places that are read: the root, `/dev` and the new inode
  have hatRoot : (((s.setInode i (newInode s i name flags)).setInode devIdx
      { s.inodePool devIdx with children := (s.inodePool devIdx).children ++ [i] }).inodePool rootIdx) =
      s.inodePool rootIdx := by
    rw [FsMem.setInode_of_ne _ hrd, FsMem.setInode_of_ne _ hroot]
  have hatNew : (((s.setInode i (newInode s i name flags)).setInode devIdx
      { s.inodePool devIdx with children := (s.inodePool devIdx).children ++ [i] }).inodePool i) =
      newInode s i name flags := by
    rw [FsMem.setInode_of_ne _ hne, FsMem.setInode_self]
  refine ⟨?_, rfl, by rw [FsMem.setInode_self], hfree, ?_, ?_, by rw [hatNew]; rfl⟩
  · exact { h with
      rootDir := by rw [hatRoot, h.rootDir]
      rootUsed := by rw [hatRoot, h.rootUsed]
      rootChildren := by rw [hatRoot, h.rootChildren]
      devName := by rw [FsMem.setInode_self]; exact h.devName
      devFlags := by rw [FsMem.setInode_self]; exact h.devFlags
      devUsed := by rw [FsMem.setInode_self]; exact h.devUsed }
  · intro c hc
    grind [FsMem.setInode_self, FsMem.setInode_of_ne]
  · rw [hatNew]
    exact Name.str_set _ _

theorem failed_ne_zero : failed ≠ 0 := by decide

variable {w : DevWorld σ}

theorem DevOk.step (h : DevOk w) (r : Registration) : DevOk (w.step r) := by
  unfold DevWorld.step devfsRegister
  by_cases hfull : devfsMaxDevices ≤ w.mem.devTable.length
  · simp only [if_pos hfull, if_neg failed_ne_zero]
    exact h
  · simp only [if_neg hfull]
    cases hcreate : tmpfsCreate w.mem w.mem.devDir r.name r.flags with
    | mk s' o =>
      cases o with
      | none =>
        simp only [if_neg failed_ne_zero]
        rw [tmpfsCreate_none hcreate]
        exact h
      | some i =>
        obtain ⟨hdirs, htable, hchildren, hfree, hsame, hname, hused⟩ := h.dirs.create hcreate
        have hold : ∀ c ∈ (w.mem.inodePool devIdx).children, c ≠ i := by
          intro c hc heq
          rw [← heq, h.used c hc] at hfree
          cases hfree
        simp only [if_true]
        refine ⟨hdirs.withTable _, ?_, ?_, ?_⟩
        · show s'.devTable ++ [r.entry] = (w.log ++ [r]).map Registration.entry
          rw [htable, h.table, List.map_append]
          rfl
        · show (s'.inodePool devIdx).children.map (fun c => (s'.inodePool c).name.str) =
            (w.log ++ [r]).map (fun r => Name.cut r.name 127)
          grind [names, List.map_congr_left]
        · grind [used]

/-- While there is room, a registration returns 0. -/
theorem DevOk.register (h : DevOk w) {i : InodeIdx} (hbelow : UsedBelow w.mem i)
    (hi : devIdx.val < i.val) (hroom : w.log.length < devfsMaxDevices) (r : Registration) :
    (w.step r).log = w.log ++ [r] ∧ UsedBelow (w.step r).mem (i + 1) := by
  have hdir : (w.mem.inodePool devIdx).flags &&& vfsDir ≠ 0 := by
    rw [h.dirs.devFlags]
    decide
  have hchildren : (w.mem.inodePool devIdx).children.length < tmpfsMaxChildren := by
    have hlen := congrArg List.length h.names
    rw [length_map, length_map] at hlen
    rw [hlen]
    exact hroom
  have htable : ¬ devfsMaxDevices ≤ w.mem.devTable.length := by
    rw [h.table, length_map]
    omega
  obtain ⟨s', hcreate, hbelow'⟩ := hbelow.create h.dirs.devInode hdir hchildren hi r.name r.flags
  unfold DevWorld.step devfsRegister
  simp only [if_neg htable, hcreate, if_true]
  exact ⟨trivial, hbelow'⟩

/-! ## After `devfs_init` -/

/-- The state after `tmpfs_init`. -/
def rootMem (others : Others σ) : FsMem σ :=
  { (tmpfsMount { FsMem.static others with fsTable := [tmpfsFs] }).1 with vfsRoot := some .nodePool }

theorem tmpfsInit_eq (env : Backends σ) (others : Others σ) :
    tmpfsInit env (vfsInit (FsMem.static others)) = some (rootMem others, 0) := by
  rfl

/-- The assignments to `dev_dir` in `devfs_init`. -/
def openDev (s : FsMem σ) : FsMem σ :=
  { s with
    devDir := { inodeToNode s devIdx with ptr := .ops .tmpfsOps, ops := some .devDirOps }
    devDirOps := { tmpfsOps with finddir := some .devFinddir } }

/-- The inode of the root directory, which is empty. -/
def rootInode : Inode :=
  { Inode.zero with name := (Name.blank 127).set slash, flags := vfsDir, used := true }

section

variable (others : Others σ)

theorem rootMem_inodePool :
    (rootMem others).inodePool = Function.update (fun _ => Inode.zero) rootIdx rootInode := by
  have hfree : UsedBelow { FsMem.static others with fsTable := [tmpfsFs] } rootIdx := fun _ => rfl
  unfold rootMem tmpfsMount
  rw [hfree.alloc]
  simp only [FsMem.setInode, update_idem, update_self]
  rfl

theorem rootMem_root : (rootMem others).inodePool rootIdx = rootInode := by
  rw [rootMem_inodePool, update_self]

theorem rootMem_devTable : (rootMem others).devTable = [] := by
  have hfree : UsedBelow { FsMem.static others with fsTable := [tmpfsFs] } rootIdx := fun _ => rfl
  unfold rootMem tmpfsMount
  rw [hfree.alloc]
  rfl

theorem rootMem_used : UsedBelow (rootMem others) 1 := by
  intro i
  rw [rootMem_inodePool]
  by_cases hi : i = rootIdx
  · subst hi
    rw [update_self]
    rfl
  · have hpos : ¬ i.val < 1 := fun hlt => hi (Fin.ext (Nat.lt_one_iff.mp hlt))
    rw [update_of_ne hi, decide_eq_false hpos]
    rfl

/-- `/dev` right after it was created. -/
theorem exists_openDev :
    ∃ s : FsMem σ, tmpfsCreate (rootMem others)
      (rootMem others).nodePool devName vfsDir = (s, some devIdx) ∧
      UsedBelow s 2 ∧ DevOk ⟨openDev s, []⟩ := by
  have hnode : nodeToInode (rootMem others).nodePool = some rootIdx := by rfl
  obtain ⟨s, hcreate, hbelow⟩ := UsedBelow.create (i := devIdx) (rootMem_used others) hnode
    (by rw [rootMem_root]; decide) (by rw [rootMem_root]; decide) (by decide) devName vfsDir
  refine ⟨s, hcreate, hbelow, ?_⟩
  obtain ⟨-, hne, hs⟩ := tmpfsCreate_some hnode (by rw [rootMem_root]; rfl) hcreate
  have hdev : s.inodePool devIdx = newInode (rootMem others) devIdx devName vfsDir := by
    rw [hs, FsMem.setInode_of_ne _ hne, FsMem.setInode_self]
  have hroot : s.inodePool rootIdx = { rootInode with children := [devIdx] } := by
    rw [hs, FsMem.setInode_self, rootMem_root]
    rfl
  have hchildren : (s.inodePool devIdx).children = [] := by
    rw [hdev]
    rfl
  exact {
    dirs := {
      vfsRoot := by rw [hs]; rfl
      rootInode := by rw [hs]; exact hnode
      rootFlags := by rw [hs]; rfl
      rootOps := by rw [hs]; rfl
      rootDir := (congrArg Inode.flags hroot).trans rfl
      rootUsed := (congrArg Inode.used hroot).trans rfl
      rootChildren := (congrArg Inode.children hroot).trans rfl
      devName := by
        show (s.inodePool devIdx).name.str = Devfs.devName
        rw [hdev]
        exact (Name.str_set _ _).trans ((Name.cut_eq_self_iff _ _).mpr (by decide))
      devFlags := (congrArg Inode.flags hdev).trans rfl
      devUsed := (congrArg Inode.used hdev).trans rfl
      devInode := nodeToInode_inodeToNode s devIdx
      devPtr := rfl }
    table := by rw [hs]; rfl
    names := by
      show (s.inodePool devIdx).children.map (fun c => (s.inodePool c).name.str) = []
      rw [hchildren]
      rfl
    used := by
      intro c hc
      replace hc : c ∈ (s.inodePool devIdx).children := hc
      rw [hchildren] at hc
      cases hc }

end

theorem devfsInit_mem {s' : FsMem σ} {root : NodeRef} (hroot : s.vfsRoot = some root)
    (htable : s.devTable = [])
    (hcreate : tmpfsCreate s (s.nodeAt root) devName vfsDir = (s', some devIdx)) :
    (devfsInit s).1 = (run DevWorld.step ⟨openDev s', []⟩ builtin).mem := by
  have hsame : { s with devTable := [] } = s := by
    cases s
    cases htable
    rfl
  unfold devfsInit
  rw [hsame]
  simp only [hroot, hcreate]
  rfl

/-- **`devfs_init` registers the built-in devices** in an empty `/dev`. -/
theorem devOk_boot (env : Backends σ) (others : Others σ) : DevOk (DevWorld.boot env others) := by
  obtain ⟨s, hcreate, hbelow, hok⟩ := exists_openDev others
  have hnull := hok.register (i := ⟨2, by decide⟩) hbelow (by decide) (show 0 < 16 by decide)
    ⟨nullName, vfsChardev, some .nullOps⟩
  have hzero := (hok.step _).register (i := ⟨3, by decide⟩) hnull.2 (by decide)
    (by rw [hnull.1]; exact (show 1 < 16 by decide)) ⟨zeroName, vfsChardev, some .zeroOps⟩
  have hmem : bootFs env others = some (run DevWorld.step ⟨openDev s, []⟩ builtin).mem := by
    unfold bootFs
    rw [tmpfsInit_eq, map_some]
    exact congrArg some (devfsInit_mem (show _ = some NodeRef.nodePool from rfl)
      (rootMem_devTable others) hcreate)
  have hlog : (run DevWorld.step ⟨openDev s, []⟩ builtin).log = builtin := by
    show ((DevWorld.step ⟨openDev s, []⟩ _).step _).log = _
    rw [hzero.1, hnull.1]
    rfl
  have hboot : DevWorld.boot env others = run DevWorld.step ⟨openDev s, []⟩ builtin := by
    unfold DevWorld.boot
    rw [hmem, getD_some]
    nth_rewrite 2 [← hlog]
    rfl
  rw [hboot]
  exact (hok.step _).step _

theorem devOk_run (env : Backends σ) (others : Others σ) (calls : List Registration) :
    DevOk (run DevWorld.step (DevWorld.boot env others) calls) :=
  run_invariant DevOk (fun _ r h _ => h.step r) (devOk_boot env others)
    (stepsMeet_of_forall (fun _ _ => trivial) _)

/-! ## Lookups -/

/-- The first child of `/dev` with a name. -/
def childOf (s : FsMem σ) (name : CStr) : Option InodeIdx :=
  (s.inodePool devIdx).children.find? (fun c => (s.inodePool c).name.str = name)

/-- What the first registration that the table keeps under a name passed. -/
def firstOps (log : List Registration) (name : CStr) : Option (Option OpsRef) :=
  (log.find? (fun r => Name.cut r.name 31 = name)).map Registration.ops

theorem firstOps_length {log : List Registration} {ops : Option OpsRef}
    (h : firstOps log name = some ops) : name.chars.length ≤ 31 := by
  obtain ⟨r, hfind, -⟩ := map_eq_some_iff.mp h
  have hcut := List.find?_some hfind
  rw [decide_eq_true_iff] at hcut
  rw [← hcut]
  exact List.length_take_le _ _

theorem DevOk.childOf_isSome (h : DevOk w)
    (hname : ∃ r ∈ w.log, Name.cut r.name 127 = name) : (childOf w.mem name).isSome := by
  have hmem : name ∈ (w.mem.inodePool devIdx).children.map (fun c => (w.mem.inodePool c).name.str) := by
    rw [h.names]
    exact List.mem_map.mpr hname
  obtain ⟨c, hc, hcname⟩ := List.mem_map.mp hmem
  rw [childOf, List.find?_isSome]
  exact ⟨c, hc, decide_eq_true hcname⟩

theorem DevOk.devEntry_eq (h : DevOk w) (name : CStr) :
    (devEntry w.mem name).map DevEntry.ops = firstOps w.log name := by
  have hsame : (fun e : DevEntry => e.name.is name) ∘ Registration.entry =
      fun r => decide (Name.cut r.name 31 = name) := by
    funext r
    rw [comp_apply, Bool.eq_iff_iff, Name.is_iff, decide_eq_true_iff, Registration.entry,
      Name.str_set]
  rw [devEntry, h.table, List.find?_map, hsame, map_map]
  rfl

/-- A lookup in `/dev`, through any node that leads there. -/
theorem DirsOk.finddir_dev (h : DirsOk s) {node : VfsNode}
    (hnode : nodeToInode node = some devIdx) (name : CStr) :
    tmpfsFinddir s node name = (childOf s name).map (inodeToNode s) :=
  tmpfsFinddir_eq hnode (by rw [h.devFlags]; decide) name

section

variable (h : DevOk w) (env : Backends σ)
include h

/-- The direct route. -/
theorem DevOk.devfsGetNode_eq (name : CStr) :
    devfsGetNode env w.mem name = some (w.mem, (firstOps w.log name).bind (fun ops =>
      (childOf w.mem name).map (fun c => { inodeToNode w.mem c with ops := ops }))) := by
  rw [devfsGetNode, ← h.devEntry_eq]
  cases hentry : devEntry w.mem name with
  | none => rfl
  | some e =>
    have hpatch : patch w.mem name = fun node => { node with ops := e.ops } := by
      funext node
      rw [patch, hentry]
    show devFinddir env w.mem w.mem.devDir name = _
    rw [devFinddir, h.dirs.devPtr]
    show (origFinddir env w.mem w.mem.devDir name .tmpfsFinddir).map _ = _
    rw [origFinddir, h.dirs.finddir_dev h.dirs.devInode, map_some, hpatch, map_map]
    rfl

/-- The route through the root. -/
theorem DevOk.finddir_root :
    vfsFinddir env w.mem w.mem.rootNode devName = some (w.mem, some (inodeToNode w.mem devIdx)) := by
  have hroot : w.mem.rootNode = some w.mem.nodePool := by
    rw [FsMem.rootNode, h.dirs.vfsRoot]
    rfl
  have hdir : (w.mem.inodePool rootIdx).flags &&& vfsDir ≠ 0 := by
    rw [h.dirs.rootDir]
    decide
  rw [hroot, vfsFinddir_tmpfs (by rw [h.dirs.rootFlags]; decide) (by rw [h.dirs.rootFlags]; decide)
    h.dirs.rootOps, tmpfsFinddir_eq h.dirs.rootInode hdir, h.dirs.rootChildren, List.find?_cons,
    decide_eq_true h.dirs.devName]
  rfl

theorem DevOk.finddir_path (name : CStr) :
    vfsFinddir env w.mem (some (inodeToNode w.mem devIdx)) name =
      some (w.mem, (childOf w.mem name).map (inodeToNode w.mem)) := by
  have hflags : (inodeToNode w.mem devIdx).flags = vfsDir := h.dirs.devFlags
  rw [vfsFinddir_tmpfs (by rw [hflags]; decide) (by rw [hflags]; decide) rfl,
    h.dirs.finddir_dev (nodeToInode_inodeToNode w.mem devIdx)]

end

/-! ## When the routes agree -/

/-- Both routes to a name succeed, with the same inode and the given vtable. -/
def RoutesAgree (env : Backends σ) (s : FsMem σ) (name : CStr) (ops : Option OpsRef) : Prop :=
  ∃ direct dev found, devfsGetNode env s name = some (s, some direct) ∧ direct.ops = ops ∧
    vfsFinddir env s s.rootNode devName = some (s, some dev) ∧
    vfsFinddir env s (some dev) name = some (s, some found) ∧
    found.inode = direct.inode ∧ found.ops = ops

/-- The table keeps the whole name, and both the registration and the first one that the
table keeps under this name passed tmpfs's own vtable. -/
def PlainTmpfs (log : List Registration) (r : Registration) : Prop :=
  r.name.chars.length ≤ 31 ∧ r.ops = some .tmpfsOps ∧ firstOps log r.name = some r.ops

/-- **When the two routes agree.**  After every sequence of calls of `devfs_register`
from `devfs_init` on, for each of those that returned 0 (the built-in devices among
them): the two routes succeed with the same inode and the registered vtable exactly if
the name has at most 31 characters and this and the first registration of the name
passed tmpfs's own vtable. -/
theorem device_routes_agree_iff (env : Backends σ) (others : Others σ) (calls : List Registration)
    (r : Registration) (hr : r ∈ (run DevWorld.step (DevWorld.boot env others) calls).log) :
    RoutesAgree env (run DevWorld.step (DevWorld.boot env others) calls).mem r.name r.ops ↔
      PlainTmpfs (run DevWorld.step (DevWorld.boot env others) calls).log r := by
  have h := devOk_run env others calls
  generalize run DevWorld.step (DevWorld.boot env others) calls = w at h hr ⊢
  constructor
  · intro hagree
    obtain ⟨direct, dev, found, hdirect, hops, hdev, hfound, -, hfops⟩ := hagree
    rw [h.devfsGetNode_eq, some_inj, Prod.mk.injEq, bind_eq_some_iff] at hdirect
    obtain ⟨-, first, hfirst, hdirect⟩ := hdirect
    obtain ⟨c, -, rfl⟩ := map_eq_some_iff.mp hdirect
    rw [h.finddir_root, some_inj, Prod.mk.injEq, some_inj] at hdev
    rw [← hdev.2, h.finddir_path, some_inj, Prod.mk.injEq] at hfound
    obtain ⟨c', -, rfl⟩ := map_eq_some_iff.mp hfound.2
    exact ⟨firstOps_length hfirst, hfops.symm, hfirst.trans (congrArg some hops)⟩
  · intro hplain
    obtain ⟨hlen, hops, hfirst⟩ := hplain
    have hcut : Name.cut r.name 127 = r.name := (Name.cut_eq_self_iff _ _).mpr (by omega)
    obtain ⟨c, hc⟩ := isSome_iff_exists.mp (h.childOf_isSome ⟨r, hr, hcut⟩)
    refine ⟨{ inodeToNode w.mem c with ops := r.ops }, inodeToNode w.mem devIdx, inodeToNode w.mem c,
      ?_, rfl, h.finddir_root env, ?_, rfl, hops.symm⟩
    · rw [h.devfsGetNode_eq, hfirst, hc]
      rfl
    · rw [h.finddir_path, hc]
      rfl

/-! ## Routes that disagree -/

/-- No modules beyond the three. -/
def noBackends : Backends Unit where
  ops := fun _ => ⟨none, none, none, none, none, none⟩
  read := fun _ o _ _ _ => (o, failed, [])
  write := fun _ o node _ _ _ => (o, failed, node)
  onOpen := fun _ o _ => (o, 0)
  onClose := fun _ o _ => o
  readdir := fun _ o _ _ => (o, none)
  finddir := fun _ o _ _ => (o, none)
  mount := fun _ o _ => (o, none)
  krealloc := fun o _ _ => (o, none)

def noOthers : Others Unit := ⟨fun _ => .zero, ()⟩

/-- The world after `devfs_init`. -/
def zeroWorld : DevWorld Unit := DevWorld.boot noBackends noOthers

/-- What a read of two bytes from a node gives. -/
def readTwo (w : DevWorld Unit) (node : Option VfsNode) : Option (U32 × List U8) :=
  (vfsRead noBackends w.mem node 0 2).map snd

/-- The node of `/dev/zero` by either route. -/
def zeroDirect : Option VfsNode := (devfsGetNode noBackends zeroWorld.mem zeroName).bind snd

def zeroByPath : Option VfsNode := (vfsFinddir noBackends zeroWorld.mem
    ((vfsFinddir noBackends zeroWorld.mem zeroWorld.mem.rootNode devName).bind snd) zeroName).bind
    snd

theorem zero_routes : zeroDirect.map VfsNode.ops = some (some .zeroOps) ∧
    zeroByPath.map VfsNode.ops = some (some .tmpfsOps) ∧
    readTwo zeroWorld zeroDirect = some (2, [0, 0]) ∧
    readTwo zeroWorld zeroByPath = some (failed, []) := by
  decide +kernel

/-- **`/dev/zero` by its path is not the device.**  Right after `devfs_init`,
`devfs_get_node("zero")` gives a node that reads zeros, and the path a node with tmpfs's
vtable, which refuses to read. -/
theorem zero_by_path_fails : readTwo zeroWorld zeroDirect = some (2, [0, 0]) ∧
    readTwo zeroWorld zeroByPath = some (failed, []) ∧
    ¬ RoutesAgree noBackends zeroWorld.mem zeroName (some .zeroOps) := by
  obtain ⟨-, hpath, hdirect, hread⟩ := zero_routes
  refine ⟨hdirect, hread, ?_⟩
  intro hagree
  obtain ⟨direct, dev, found, -, -, hdev, hfound, -, hops⟩ := hagree
  grind [zeroByPath]

/-- A registration with tmpfs's own vtable is reached by both routes. -/
theorem device_routes_agree_iff_plain :
    let r : Registration := ⟨⟨[0x74#8], by decide⟩, vfsFile, some .tmpfsOps⟩
    let w := run DevWorld.step (DevWorld.boot noBackends noOthers) [r]
    r ∈ w.log ∧ PlainTmpfs w.log r ∧ RoutesAgree noBackends w.mem r.name r.ops := by
  intro r w
  have hr : r ∈ w.log := by decide +kernel
  have hplain : PlainTmpfs w.log r := by
    unfold PlainTmpfs
    decide +kernel
  exact ⟨hr, hplain, (device_routes_agree_iff noBackends noOthers [r] r hr).mpr hplain⟩

end Devfs
