import NamelessOS.ProcessRuns

/-!
# Who reaps whom

A pid is a slot number, and a slot is used again as soon as its process has been
reaped; the parent of a process is the pid it was forked by.  To say that only a
parent reaps, the runs are given a memory: `Lineage` numbers the processes that
have occupied each slot and remembers which of them forked which, and whose exit
status has been collected.

A status is collected at most once on every run (`Census`).  That the collector
is the process that forked the zombie needs a condition (`Kinship`): no process
is reaped while a slot still names it as its parent.  An orphan keeps its `ppid`,
and the next process in its parent's slot passes the test of `process_waitpid`.
-/

namespace Process

open ByteOrder LinkedRing Runs List Function
open Prod (fst snd)

variable {σ : Type} (env : Platform σ)

/-! ## Numbered processes -/

structure Lineage (σ : Type) where
  kern : Kern σ
  /-- The number of the process in a slot. -/
  born : Slot → Nat
  /-- The number of the process that forked it; `none` for one started at
  boot. -/
  parent : Slot → Option Nat
  fresh : Nat
  /-- The processes whose status has been collected. -/
  collected : List Nat

/-- The memory of a step of the kernel to `k'`. -/
def Lineage.record (l : Lineage σ) (k' : Kern σ) : Event → Lineage σ
  | .quiet => { l with kern := k' }
  | .forked child =>
    { l with
      kern := k'
      born := update l.born child l.fresh
      parent := update l.parent child (l.kern.table.current.map l.born)
      fresh := l.fresh + 1 }
  | .reaped child _ => { l with kern := k', collected := l.born child :: l.collected }

def Lineage.step (l : Option (Lineage σ)) (c : Call) : Option (Lineage σ) :=
  l.bind (fun l => (l.kern.step env c).map (fun r => l.record r.1 r.2))

def Lineage.boot (m : σ) (images : List Image) : Lineage σ where
  kern := Process.boot env m images
  born p := p
  parent _ := none
  fresh := procMax
  collected := []

def Call.isYield : Call → Bool
  | .yield _ => true
  | _ => false

/-- The zombie a step has reaped. -/
def Event.zombie : Event → Option Slot
  | .reaped child _ => some child
  | _ => none

/-- The idle process only yields: its code is the loop at the end of
`kernel_main`. -/
def IdleYields (l : Option (Lineage σ)) (c : Call) : Prop :=
  ∀ l' ∈ l, l'.kern.table.current = some idle → c.isYield = true

/-- No process is reaped while a slot in use names it as its parent. -/
def NoOrphans (l : Option (Lineage σ)) (c : Call) : Prop :=
  ∀ l' ∈ l, ∀ r ∈ l'.kern.step env c, ∀ child ∈ r.2.zombie,
    ∀ p, l'.kern.table.state p ≠ .unused → (l'.kern.table.proc p).ppid ≠ child

/-- A process that reaps is the one that forked the zombie. -/
def ReapsOwnChild (l : Option (Lineage σ)) (c : Call) : Prop :=
  ∀ l' ∈ l, ∀ r ∈ l'.kern.step env c, ∀ child ∈ r.2.zombie,
    ∃ cur, l'.kern.table.current = some cur ∧ l'.parent child = some (l'.born cur)

instance (l : Option (Lineage σ)) (c : Call) : Decidable (IdleYields l c) :=
  inferInstanceAs (Decidable (∀ l' ∈ l, _))

instance (l : Option (Lineage σ)) (c : Call) : Decidable (NoOrphans env l c) :=
  inferInstanceAs (Decidable (∀ l' ∈ l, _))

instance (l : Option (Lineage σ)) (c : Call) : Decidable (ReapsOwnChild env l c) :=
  inferInstanceAs (Decidable (∀ l' ∈ l, _))

/-! ## Identities under the calls -/

/-- The numbers by which a process knows itself and its parent. -/
def Proc.ids (p : Proc) : Nat × Nat := (p.pid, p.ppid)

theorem ids_of_core {p q : Proc} (h : p.core = q.core) : p.ids = q.ids := by
  change p.core.ids = q.core.ids
  rw [h]

def SameIds (t t' : Table) : Prop := ∀ p, t.state p ≠ .unused → (t'.proc p).ids = (t.proc p).ids

section

variable {t t' : Table} {cur : Slot} {m m' : σ} {env}

theorem schedulerAdd_core (t : Table) (p q : Slot) :
    ((schedulerAdd t p).proc q).core = (t.proc q).core :=
  schedulerAdd_field Proc.core (fun _ _ => rfl) t p q

theorem schedulerAdd_state (t : Table) (p : Slot) : (schedulerAdd t p).state = t.state :=
  funext (schedulerAdd_field Proc.state (fun _ _ => rfl) t p)

/-- A slot in use, when the parent's address space is set and a free slot is
written. -/
theorem sameIds_taken {pid : Slot} (hfree : t.state pid = .unused) (src : U64) (f : Proc → Proc) :
    SameIds t ((t.modify cur (fun p => { p with pml4Phys := src })).modify pid f) := by
  intro p hp
  have hne : p ≠ pid := by
    rintro rfl
    exact hp hfree
  rw [Table.modify_of_ne _ f hne]
  exact t.field_modify cur p (fun p => { p with pml4Phys := src }) Proc.ids (fun _ => rfl)

theorem Forked.failed_ids (h : Forked env m t cur m' t' none) :
    t'.state = t.state ∧ SameIds t t' := by
  cases h with
  | full => exact ⟨rfl, fun _ _ => rfl⟩
  | @failed _ pid hfree src f hunused hcursor =>
    refine ⟨?_, sameIds_taken hfree src f⟩
    rw [Table.state_modify_to _ pid f hunused,
      t.state_modify cur (fun p => { p with pml4Phys := src }) (fun _ => rfl), ← hfree,
      update_eq_self]

/-- A fork gives the child the parent's pid as `ppid`. -/
theorem Forked.created_ids {child : Slot} (h : Forked env m t cur m' t' (some child)) :
    t.state child = .unused ∧ t'.state = update t.state child .ready ∧
      (t'.proc child).ids = (child.val, (t.proc cur).pid) ∧ SameIds t t' := by
  cases h with
  | @created _ _ hfree src kstack pml4 =>
    have hids : ∀ p, ((schedulerAdd ((t.modify cur (fun p => { p with pml4Phys := src })).modify
        child (forkChild env (t.proc cur) child kstack pml4)) child).proc p).ids =
        (((t.modify cur (fun p => { p with pml4Phys := src })).modify
          child (forkChild env (t.proc cur) child kstack pml4)).proc p).ids :=
      fun p => ids_of_core (schedulerAdd_core _ child p)
    refine ⟨hfree, ?_, ?_, fun p hp => ?_⟩
    · rw [schedulerAdd_state, Table.state_modify_to _ child
          (forkChild env (t.proc cur) child kstack pml4) (fun _ => rfl),
        t.state_modify cur (fun p => { p with pml4Phys := src }) (fun _ => rfl)]
    · rw [hids, Table.modify_self]
      rfl
    · rw [hids]
      exact sameIds_taken hfree src _ p hp

end

/-! ## Each status is collected once -/

/-- The numbering is sound: processes in use have different numbers, and none
of them has been collected. -/
structure Census (l : Lineage σ) : Prop where
  scheduled : ∃ cur rest, Scheduled l.kern.table cur rest
  pids : ∀ p, l.kern.table.state p ≠ .unused → (l.kern.table.proc p).pid = p
  distinct : ∀ p q, l.kern.table.state p ≠ .unused → l.kern.table.state q ≠ .unused →
    l.born p = l.born q → p = q
  counted : ∀ p, l.kern.table.state p ≠ .unused → l.born p < l.fresh
  reaped : ∀ n ∈ l.collected, n < l.fresh ∧ ∀ p, l.kern.table.state p ≠ .unused → l.born p ≠ n
  nodup : l.collected.Nodup

/-- What a change does to the slots in use. -/
inductive UseChange (t t' : Table) : Event → Prop
  | same (hused : ∀ p, t'.state p = .unused ↔ t.state p = .unused) (hids : SameIds t t') :
      UseChange t t' .quiet
  | forked {child cur : Slot} (hcur : t.current = some cur) (hfree : t.state child = .unused)
      (hstate : t'.state = update t.state child .ready)
      (hchild : (t'.proc child).ids = (child.val, (t.proc cur).pid)) (hids : SameIds t t') :
      UseChange t t' (.forked child)
  | reaped {child : Slot} {status : BitVec 32} (hzombie : t.state child = .zombie)
      (hstate : t'.state = update t.state child .unused) (hids : SameIds t t') :
      UseChange t t' (.reaped child status)

theorem Change.useChange {env : Platform σ} {k k' : Kern σ} {cur : Slot} {rest : List Slot}
    {c : Call} {event : Event} (hsched : Scheduled k.table cur rest)
    (h : Change env k cur c k' event) : UseChange k.table k'.table event := by
  have hlive : ∀ {t t' : Table}, SameLife t t' → ∀ p, t'.state p = .unused ↔ t.state p = .unused :=
    fun h p => h p .unused (by decide) (by decide)
  cases h with
  | ignored => exact .same (fun _ => Iff.rfl) (fun _ _ => rfl)
  | waits => exact .same (fun _ => Iff.rfl) (fun _ _ => rfl)
  | yields hlife hcore => exact .same (hlive hlife) (fun p _ => ids_of_core (hcore p))
  | @exits status regs t' hidle hlife hcore =>
    refine .same (fun p => ?_) (fun p _ => ?_)
    · rw [hlive hlife p, exitTable_state]
      by_cases hp : p = cur
      · subst hp
        simp [hsched.running]
      · rw [update_of_ne hp]
    · rw [ids_of_core (hcore p), exitTable, ids_of_core (core_setState _ cur .zombie p)]
      exact k.table.field_modify cur p (fun p => { p with exitStatus := status }) Proc.ids
        (fun _ => rfl)
  | forkFails _ hforked =>
    obtain ⟨hstate, hids⟩ := hforked.failed_ids
    exact .same (fun p => by rw [hstate]) hids
  | forks _ hforked =>
    obtain ⟨hfree, hstate, hchild, hids⟩ := hforked.created_ids
    exact .forked hsched.current hfree hstate hchild hids
  | reaps _ hzombie hstate hcore =>
    exact .reaped hzombie hstate (fun p _ => ids_of_core (hcore p))

theorem used_before_reap {t t' : Table} {child p : Slot}
    (hstate : t'.state = update t.state child .unused)
    (hused : t'.state p ≠ .unused) : p ≠ child ∧ t.state p ≠ .unused := by
  have hpc : p ≠ child := by
    intro heq
    rw [heq, hstate, update_self] at hused
    exact hused rfl
  exact ⟨hpc, by rwa [hstate, update_of_ne hpc] at hused⟩

theorem Census.record {l : Lineage σ} {k' : Kern σ} {event : Event} (h : Census l)
    (hsched : ∃ cur rest, Scheduled k'.table cur rest)
    (huse : UseChange l.kern.table k'.table event) : Census (l.record k' event) := by
  cases huse with
  | same hused hids =>
    have hiff : ∀ p, k'.table.state p ≠ .unused ↔ l.kern.table.state p ≠ .unused :=
      fun p => not_congr (hused p)
    refine ⟨hsched, fun p hp => ?_, fun p q hp hq => ?_, fun p hp => ?_, fun n hn => ?_, h.nodup⟩
    · exact (congrArg fst (hids p ((hiff p).mp hp))).trans (h.pids p ((hiff p).mp hp))
    · exact h.distinct p q ((hiff p).mp hp) ((hiff q).mp hq)
    · exact h.counted p ((hiff p).mp hp)
    · exact ⟨(h.reaped n hn).1, fun p hp => (h.reaped n hn).2 p ((hiff p).mp hp)⟩
  | @forked child cur hcur hfree hstate hchild hids =>
    -- the other slots in use were in use before
    have hold : ∀ p, p ≠ child → k'.table.state p ≠ .unused → l.kern.table.state p ≠ .unused := by
      intro p hp hused
      rwa [hstate, update_of_ne hp] at hused
    have hborn : ∀ p, p ≠ child → (l.record k' (.forked child)).born p = l.born p :=
      fun p hp => update_of_ne hp ..
    have hnew : (l.record k' (.forked child)).born child = l.fresh := update_self ..
    refine ⟨hsched, fun p hp => ?_, fun p q hp hq heq => ?_, fun p hp => ?_, fun n hn => ?_,
      h.nodup⟩
    · by_cases hpc : p = child
      · subst hpc
        exact congrArg fst hchild
      · exact (congrArg fst (hids p (hold p hpc hp))).trans (h.pids p (hold p hpc hp))
    · by_cases hpc : p = child <;> by_cases hqc : q = child
      · rw [hpc, hqc]
      · rw [hpc, hnew, hborn q hqc] at heq
        exact absurd heq (h.counted q (hold q hqc hq)).ne'
      · rw [hqc, hnew, hborn p hpc] at heq
        exact absurd heq (h.counted p (hold p hpc hp)).ne
      · rw [hborn p hpc, hborn q hqc] at heq
        exact h.distinct p q (hold p hpc hp) (hold q hqc hq) heq
    · by_cases hpc : p = child
      · rw [hpc, hnew]
        exact Nat.lt_succ_self _
      · rw [hborn p hpc]
        exact Nat.lt_succ_of_lt (h.counted p (hold p hpc hp))
    · obtain ⟨hlt, hne⟩ := h.reaped n hn
      refine ⟨Nat.lt_succ_of_lt hlt, fun p hp => ?_⟩
      by_cases hpc : p = child
      · rw [hpc, hnew]
        exact hlt.ne'
      · rw [hborn p hpc]
        exact hne p (hold p hpc hp)
  | @reaped child status hzombie hstate hids =>
    have hwas : l.kern.table.state child ≠ .unused := by simp [hzombie]
    have hold := fun p => used_before_reap (p := p) hstate
    refine ⟨hsched, fun p hp => ?_, fun p q hp hq => ?_, fun p hp => ?_, fun n hn => ?_, ?_⟩
    · exact (congrArg fst (hids p (hold p hp).2)).trans (h.pids p (hold p hp).2)
    · exact h.distinct p q (hold p hp).2 (hold q hq).2
    · exact h.counted p (hold p hp).2
    · rcases mem_cons.mp hn with rfl | hn
      · refine ⟨h.counted child hwas, fun p hp heq => (hold p hp).1 ?_⟩
        exact h.distinct p child (hold p hp).2 hwas heq
      · exact ⟨(h.reaped n hn).1, fun p hp => (h.reaped n hn).2 p (hold p hp).2⟩
    · refine nodup_cons.mpr ⟨fun hmem => ?_, h.nodup⟩
      exact (h.reaped _ hmem).2 child hwas rfl

/-! ## Reaping one's own children -/

/-- A slot in use that names a slot other than idle as its parent was forked by
the process in that slot, and a process waits for such a child. -/
structure Kinship (l : Lineage σ) : Prop where
  parents : ∀ p q : Slot, l.kern.table.state p ≠ .unused → (l.kern.table.proc p).ppid = q →
    q ≠ idle → l.kern.table.state q ≠ .unused ∧ l.parent p = some (l.born q)
  waits : ∀ p child, l.kern.waiting p = some child →
    l.kern.table.state child ≠ .unused ∧ (l.kern.table.proc child).ppid = p

theorem waitpidChild_some {t : Table} {cur child : Slot} {pid : Nat}
    (h : waitpidChild t cur pid = some child) :
    t.state child ≠ .unused ∧ (t.proc child).ppid = (t.proc cur).pid := by
  rw [waitpidChild] at h
  split at h
  · dsimp only at h
    split at h
    · cases h
    · split at h
      · cases h
      · grind
  · cases h

section

variable {l : Lineage σ} {k' : Kern σ} {cur : Slot} {rest : List Slot} {c : Call}

theorem Kinship.quiet (h : Kinship l)
    (hused : ∀ p, k'.table.state p = .unused ↔ l.kern.table.state p = .unused)
    (hids : SameIds l.kern.table k'.table)
    (hwaits : ∀ p child, k'.waiting p = some child → l.kern.waiting p = some child ∨
      l.kern.table.state child ≠ .unused ∧ (l.kern.table.proc child).ppid = p) :
    Kinship (l.record k' .quiet) := by
  have hiff : ∀ p, k'.table.state p ≠ .unused ↔ l.kern.table.state p ≠ .unused :=
    fun p => not_congr (hused p)
  have hppid : ∀ p, l.kern.table.state p ≠ .unused →
      (k'.table.proc p).ppid = (l.kern.table.proc p).ppid :=
    fun p hp => congrArg snd (hids p hp)
  refine ⟨fun p q hp hpq hq => ?_, fun p child hwait => ?_⟩
  · obtain ⟨hqused, hparent⟩ := h.parents p q ((hiff p).mp hp)
      ((hppid p ((hiff p).mp hp)).symm.trans hpq) hq
    exact ⟨(hiff q).mpr hqused, hparent⟩
  · obtain ⟨hchild, hpar⟩ : l.kern.table.state child ≠ .unused ∧
        (l.kern.table.proc child).ppid = p := by
      rcases hwaits p child hwait with hold | hnew
      · exact h.waits p child hold
      · exact hnew
    exact ⟨(hiff child).mpr hchild, (hppid child hchild).trans hpar⟩

theorem Kinship.forked {child : Slot} (h : Kinship l) (hcensus : Census l)
    (hsched : Scheduled l.kern.table cur rest) (hfree : l.kern.table.state child = .unused)
    (hstate : k'.table.state = update l.kern.table.state child .ready)
    (hchild : (k'.table.proc child).ids = (child.val, (l.kern.table.proc cur).pid))
    (hids : SameIds l.kern.table k'.table)
    (hwaiting : k'.waiting = update l.kern.waiting child none) :
    Kinship (l.record k' (.forked child)) := by
  have hold : ∀ p, p ≠ child → k'.table.state p ≠ .unused → l.kern.table.state p ≠ .unused := by
    intro p hp hused
    rwa [hstate, update_of_ne hp] at hused
  have hkept : ∀ p, l.kern.table.state p ≠ .unused → p ≠ child ∧ k'.table.state p ≠ .unused ∧
        (k'.table.proc p).ppid = (l.kern.table.proc p).ppid := by
    intro p hp
    have hpc : p ≠ child := by
      rintro rfl
      exact hp hfree
    exact ⟨hpc, by rwa [hstate, update_of_ne hpc], congrArg snd (hids p hp)⟩
  have hborn : ∀ p, p ≠ child → (l.record k' (.forked child)).born p = l.born p :=
    fun p hp => update_of_ne hp ..
  refine ⟨fun p q hp hpq hq => ?_, fun p other hwait => ?_⟩
  · by_cases hpc : p = child
    · -- the child names the slot of its parent
      subst hpc
      have hcur : q = cur := by
        have hppid : (k'.table.proc p).ppid = (l.kern.table.proc cur).pid := congrArg snd hchild
        rw [hcensus.pids cur hsched.head_used] at hppid
        exact Fin.ext (hpq.symm.trans hppid)
      subst hcur
      obtain ⟨hne, hused, -⟩ := hkept q hsched.head_used
      refine ⟨hused, ?_⟩
      rw [hborn q hne]
      simp [Lineage.record, hsched.current]
    · -- no slot in use names a free slot as its parent
      have hwas := hold p hpc hp
      obtain ⟨hqused, hparent⟩ := h.parents p q hwas ((hkept p hwas).2.2.symm.trans hpq) hq
      obtain ⟨hqc, hqused', -⟩ := hkept q hqused
      refine ⟨hqused', ?_⟩
      rw [hborn q hqc]
      simpa [Lineage.record, hpc] using hparent
  · have hpc : p ≠ child := by
      rintro rfl
      change k'.waiting p = some other at hwait
      rw [hwaiting, update_self] at hwait
      cases hwait
    have hwas : l.kern.waiting p = some other := by
      change k'.waiting p = some other at hwait
      rwa [hwaiting, update_of_ne hpc] at hwait
    obtain ⟨hused, hpar⟩ := h.waits p other hwas
    exact ⟨(hkept other hused).2.1, (hkept other hused).2.2.trans hpar⟩

theorem Kinship.reaped {child : Slot} {status : BitVec 32} (h : Kinship l)
    (hwait : l.kern.waiting cur = some child)
    (hstate : k'.table.state = update l.kern.table.state child .unused)
    (hids : SameIds l.kern.table k'.table) (hwaiting : k'.waiting = update l.kern.waiting cur none)
    (horphans : ∀ p, l.kern.table.state p ≠ .unused → (l.kern.table.proc p).ppid ≠ child) :
    Kinship (l.record k' (.reaped child status)) := by
  have hold := fun p => used_before_reap (p := p) hstate
  have hkept : ∀ p, p ≠ child → l.kern.table.state p ≠ .unused → k'.table.state p ≠ .unused := by
    intro p hpc hp
    rwa [hstate, update_of_ne hpc]
  have hppid : ∀ p, l.kern.table.state p ≠ .unused →
      (k'.table.proc p).ppid = (l.kern.table.proc p).ppid :=
    fun p hp => congrArg snd (hids p hp)
  refine ⟨fun p q hp hpq hq => ?_, fun p other hw => ?_⟩
  · have hwas := (hold p hp).2
    have hpq' := (hppid p hwas).symm.trans hpq
    obtain ⟨hqused, hparent⟩ := h.parents p q hwas hpq' hq
    have hqc : q ≠ child := by
      rintro rfl
      exact horphans p hwas hpq'
    exact ⟨hkept q hqc hqused, hparent⟩
  · have hpc : p ≠ cur := by
      rintro rfl
      change k'.waiting p = some other at hw
      rw [hwaiting, update_self] at hw
      cases hw
    have hwas : l.kern.waiting p = some other := by
      change k'.waiting p = some other at hw
      rwa [hwaiting, update_of_ne hpc] at hw
    obtain ⟨hused, hpar⟩ := h.waits p other hwas
    have hoc : other ≠ child := by
      grind [waits]
    exact ⟨hkept other hoc hused, (hppid other hused).trans hpar⟩

theorem Kinship.record {event : Event} (h : Kinship l) (hcensus : Census l)
    (hsched : Scheduled l.kern.table cur rest) (hchange : Change env l.kern cur c k' event)
    (horphans : ∀ child status, event = .reaped child status →
      ∀ p, l.kern.table.state p ≠ .unused → (l.kern.table.proc p).ppid ≠ child) :
    Kinship (l.record k' event) := by
  have huse := hchange.useChange hsched
  cases hchange with
  | ignored => exact h
  | @waits pid child hidle hchild =>
    refine h.quiet (fun _ => Iff.rfl) (fun _ _ => rfl) (fun p other hwait => ?_)
    by_cases hp : p = cur
    · subst hp
      obtain ⟨hused, hppid⟩ := waitpidChild_some hchild
      have hother : child = other := by simpa using hwait
      subst hother
      exact .inr ⟨hused, hppid.trans (hcensus.pids p hsched.head_used)⟩
    · exact .inl (by simpa [hp] using hwait)
  | yields | exits | forkFails =>
    obtain ⟨hused, hids⟩ := huse
    exact h.quiet hused hids (fun _ _ hwait => .inl hwait)
  | forks hidle hforked =>
    grind [Forked.created_ids, forked]
  | reaps hwait hzombie hstate hcore =>
    exact h.reaped hwait hstate (fun p _ => ids_of_core (hcore p)) rfl
      (horphans _ _ rfl)

end

/-! ## Boot -/

/-- The slots of a table in which no process has been forked yet. -/
def Unforked (t : Table) : Prop :=
  ∀ p, (t.proc p).ppid = 0 ∧ (t.state p ≠ .unused → (t.proc p).pid = p)

theorem Unforked.add {t : Table} (h : Unforked t) (p : Slot) : Unforked (schedulerAdd t p) := by
  intro q
  have hids := ids_of_core (schedulerAdd_core t p q)
  rw [schedulerAdd_state]
  exact ⟨(congrArg snd hids).trans (h q).1,
    fun hused => (congrArg fst hids).trans ((h q).2 hused)⟩

theorem Unforked.launch {t : Table} (h : Unforked t) (m : σ) (image : Image) :
    Unforked (launch env m t image).2 := by
  -- the slot taken is numbered, the others keep what they have
  have htaken : ∀ (pid : Slot) (f : Proc → Proc),
      (∀ p, (f p).ids = (pid.val, p.ppid)) → Unforked (t.modify pid f) := by
    intro pid f hf p
    by_cases hp : p = pid
    · subst hp
      have hids := hf (t.proc p)
      rw [← t.modify_self p f] at hids
      exact ⟨(congrArg snd hids).trans (h p).1, fun _ => congrArg fst hids⟩
    · simpa [Table.state, hp] using h p
  rw [Process.launch, kthreadCreate]
  cases allocPid t with
  | none => exact h
  | some pid =>
    by_cases hstack : (env.kmalloc m kstackSize).2 = 0#64
    · simp only [hstack, if_true, Table.setState, Table.modify_modify]
      exact htaken pid _ (fun _ => rfl)
    · simp only [hstack, if_false, Table.modify_modify]
      refine Unforked.add (htaken pid _ ?_) pid
      exact fun _ => rfl

section

variable (m : σ) (images : List Image)

theorem boot_unforked : Unforked (boot env m images).table := by
  have hlaunches : ∀ (images : List Image) (r : σ × Table), Unforked r.2 →
      Unforked (images.foldl (fun r image => launch env r.1 r.2 image) r).2 := by
    intro images
    induction images with
    | nil => exact fun _ h => h
    | cons image images ih => exact fun r h => ih _ (h.launch env r.1 image)
  have hinit : Unforked (schedulerInit (processInit blankTable)) := by
    unfold Unforked
    decide +kernel
  exact hlaunches images _ hinit

theorem census_boot : Census (Lineage.boot env m images) where
  scheduled := ⟨idle, boot_scheduled env m images⟩
  pids p hp := (boot_unforked env m images p).2 hp
  distinct _ _ _ _ heq := Fin.ext heq
  counted p _ := p.isLt
  reaped _ hn := absurd hn not_mem_nil
  nodup := nodup_nil

theorem kinship_boot : Kinship (Lineage.boot env m images) where
  parents p q _ hpq hq := by
    have hzero : q.val = idle.val := hpq.symm.trans (boot_unforked env m images p).1
    exact absurd (Fin.ext hzero) hq
  waits _ _ hwait := by cases hwait

end

/-! ## Whole runs -/

theorem lineage_step {l : Lineage σ} {c : Call} (h : Census l) (hidle : IdleYields (some l) c) :
    ∃ cur rest k' event, Scheduled l.kern.table cur rest ∧ l.kern.step env c = some (k', event) ∧
      Lineage.step env (some l) c = some (l.record k' event) ∧
      Change env l.kern cur c k' event ∧ Census (l.record k' event) := by
  obtain ⟨cur, rest, hsched⟩ := h.scheduled
  have hstays : ∀ status regs, c = .exit status regs → cur ≠ idle := by
    rintro status regs rfl rfl
    exact Bool.false_ne_true (hidle l rfl hsched.current)
  obtain ⟨k', event, hstep, hsched', hchange⟩ := step_change env hsched c hstays
  grind [Lineage.step, Census.record, Change.useChange]

/-- The numbering along a run. -/
def Numbered (l : Option (Lineage σ)) : Prop := ∃ l', l = some l' ∧ Census l'

def Related (l : Option (Lineage σ)) : Prop := ∃ l', l = some l' ∧ Census l' ∧ Kinship l'

theorem numbered_step (l : Option (Lineage σ)) (c : Call) (h : Numbered l)
    (hidle : IdleYields l c) : Numbered (Lineage.step env l c) := by
  obtain ⟨l, rfl, hcensus⟩ := h
  obtain ⟨-, -, k', event, -, -, hstep, -, hcensus'⟩ := lineage_step env hcensus hidle
  exact ⟨_, hstep, hcensus'⟩

section

variable (l : Option (Lineage σ)) (c : Call) (h : Related l)
  (hok : IdleYields l c ∧ NoOrphans env l c)
include h hok

theorem related_step : Related (Lineage.step env l c) := by
  obtain ⟨l, rfl, hcensus, hkin⟩ := h
  obtain ⟨cur, rest, k', event, hsched, hkern, hstep, hchange, hcensus'⟩ :=
    lineage_step env hcensus hok.1
  refine ⟨_, hstep, hcensus', hkin.record env hcensus hsched hchange ?_⟩
  rintro child status rfl
  exact hok.2 l rfl _ hkern child rfl

theorem related_reaps : ReapsOwnChild env l c := by
  obtain ⟨l, rfl, hcensus, hkin⟩ := h
  rintro l' hl' r hr child hchild
  obtain rfl : l = l' := Option.some.inj hl'
  obtain ⟨cur, rest, k', event, hsched, hkern, -, hchange, -⟩ := lineage_step env hcensus hok.1
  obtain rfl : (k', event) = r := Option.some.inj (hkern.symm.trans hr)
  cases hchange with
  | reaps hwait =>
    obtain rfl : _ = child := Option.some.inj hchild
    have hcur : cur ≠ idle := by
      rintro rfl
      exact Bool.false_ne_true (hok.1 l rfl hsched.current)
    obtain ⟨hused, hppid⟩ := hkin.waits cur _ hwait
    exact ⟨cur, hsched.current, (hkin.parents _ cur hused hppid hcur).2⟩
  | _ => cases hchild

end

/-- **Who reaps whom.**  On every run on which idle only yields, no process's
exit status is collected twice.  If moreover no process is reaped while a slot
in use names it as its parent, every process that is reaped is reaped by the
process that forked it. -/
theorem only_parent_reaps (m : σ) (images : List Image) (calls : List Call)
    (hidle : StepsMeet (Lineage.step env) IdleYields (some (Lineage.boot env m images)) calls) :
    (∃ l, run (Lineage.step env) (some (Lineage.boot env m images)) calls = some l ∧
      l.collected.Nodup) ∧
    (StepsMeet (Lineage.step env) (NoOrphans env) (some (Lineage.boot env m images)) calls →
      StepsMeet (Lineage.step env) (ReapsOwnChild env) (some (Lineage.boot env m images)) calls) := by
  have hcensus := census_boot env m images
  constructor
  · obtain ⟨l, hrun, hfinal⟩ := run_invariant Numbered (numbered_step env) ⟨_, rfl, hcensus⟩ hidle
    exact ⟨l, hrun, hfinal.nodup⟩
  · intro horphans
    exact stepsMeet_of_invariant Related (related_step env) (related_reaps env)
      ⟨_, rfl, hcensus, kinship_boot env m images⟩ (hidle.and horphans)

/-- A process started at boot. -/
def shell : Image :=
  { pml4Phys := 0x5000#64, kstack := 0x6000#64, kstackRsp := 0x7fd8#64, fn := 0x8000#64 }

/-- The shell forks a child, which exits, and reaps it. -/
def family : List Call :=
  [.yield {}, .fork, .yield {}, .exit 7#32 {}, .yield {}, .waitpid 2, .poll {}]

theorem only_parent_reaps_family :
    (∃ l, run (Lineage.step ample) (some (Lineage.boot ample () [shell])) family = some l ∧
      l.collected.Nodup) ∧
    StepsMeet (Lineage.step ample) (ReapsOwnChild ample) (some (Lineage.boot ample () [shell]))
      family :=
  let h := only_parent_reaps ample () [shell] family (by decide +kernel)
  ⟨h.1, h.2 (by decide +kernel)⟩

/-- The shell (pid 1) forks a process (pid 2), which forks another (pid 3) and
exits; the shell reaps pid 2 and forks again, into the same slot.  The new pid 2
waits for pid 3, which exits. -/
def adoption : List Call :=
  [.yield {}, .fork, .yield {}, .fork, .exit 0#32 {}, .yield {}, .yield {},
    .waitpid 2, .poll {}, .fork, .yield {}, .waitpid 3, .poll {}, .exit 9#32 {},
    .yield {}, .yield {}]

/-- An orphan is reaped, and its status collected, by a process that did not
fork it. -/
theorem orphan_reaped_by_stranger :
    StepsMeet (Lineage.step ample) IdleYields (some (Lineage.boot ample () [shell]))
      (adoption ++ [.poll {}]) ∧
    (run (Lineage.step ample) (some (Lineage.boot ample () [shell])) adoption).bind (fun l =>
      (l.kern.step ample (.poll {})).map (fun r =>
        (r.2, l.kern.table.current.map l.born, l.parent 3))) =
      some (.reaped 3 9#32, some 66, some 64) ∧
    ¬ StepsMeet (Lineage.step ample) (ReapsOwnChild ample)
      (some (Lineage.boot ample () [shell])) (adoption ++ [.poll {}]) := by
  refine ⟨?_, ?_, ?_⟩ <;> decide +kernel

end Process
