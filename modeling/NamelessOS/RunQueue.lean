import NamelessOS.Process

/-!
# The shape of the run queue

`Queue t head rest`: the slots in use are linked in one ring, which the run
queue enters at the current process, and no other slot is marked running.  Each
call of the scheduler is described once, by what it does to a table in this
shape: a yield stays or moves to a runnable slot of the ring, an insertion links
a fresh slot in behind the head, a removal takes a slot out.  In particular
their loops end.
-/

namespace Process

open ByteOrder LinkedRing List Function

structure Queue (t : Table) (head : Slot) (rest : List Slot) : Prop where
  current : t.current = some head
  runQueue : t.runQueue = some head
  ring : Ring t.next head rest
  members : ∀ p, p ∈ head :: rest ↔ t.state p ≠ .unused
  others : ∀ p, p ≠ head → t.state p ≠ .running
  /-- The current process runs, or has just exited. -/
  stage : t.state head = .running ∨ t.state head = .zombie
  idle_runnable : runnable t idle = true

/-- The shape between two calls: the current process is marked running. -/
structure Scheduled (t : Table) (head : Slot) (rest : List Slot) : Prop
    extends Queue t head rest where
  running : t.state head = .running

theorem runnable_iff {t : Table} {p : Slot} :
    runnable t p = true ↔ t.state p = .ready ∨ t.state p = .running := by
  simp [runnable]

/-- The slots that changed their state are ready or running before and after. -/
def SameLife (t t' : Table) : Prop :=
  ∀ p st, st ≠ .ready → st ≠ .running → (t'.state p = st ↔ t.state p = st)

theorem SameLife.refl (t : Table) : SameLife t t := fun _ _ _ _ => Iff.rfl

/-- A slot without the fields the scheduler writes. -/
def Proc.core (p : Proc) : Proc := { p with state := .unused, next := none, ctx := {} }

@[simp] theorem core_setState (t : Table) (p : Slot) (st : ProcState) (q : Slot) :
    ((t.setState p st).proc q).core = (t.proc q).core :=
  t.field_modify p q (fun r => { r with state := st }) Proc.core (fun _ => rfl)

@[simp] theorem core_setNext (t : Table) (p : Slot) (link : Option Slot) (q : Slot) :
    ((t.setNext p link).proc q).core = (t.proc q).core :=
  t.field_modify p q (fun r => { r with next := link }) Proc.core (fun _ => rfl)

namespace Queue

variable {t t' : Table} {head p : Slot} {rest : List Slot}

section

variable (h : Queue t head rest)
include h

/-- The shape depends on the links and states of the slots in use. -/
theorem congr (hcurrent : t'.current = t.current)
    (hqueue : t'.runQueue = t.runQueue) (hstate : t'.state = t.state)
    (hnext : ∀ p, t.state p ≠ .unused → t'.next p = t.next p) : Queue t' head rest where
  current := hcurrent.trans h.current
  runQueue := hqueue.trans h.runQueue
  ring := h.ring.congr (fun p hp => hnext p ((h.members p).mp hp))
  members p := by rw [hstate]; exact h.members p
  others p hp := by rw [hstate]; exact h.others p hp
  stage := by rw [hstate]; exact h.stage
  idle_runnable := by
    have := h.idle_runnable
    rw [runnable_iff] at this ⊢
    rwa [hstate]

theorem length_lt : rest.length < procMax := by
  have hcard := h.ring.nodup.length_le_card
  exact hcard

theorem head_used : t.state head ≠ .unused := (h.members head).mp mem_cons_self

/-! ## Insertion -/

/-- `scheduler_add` of a slot that has just been taken. -/
theorem add (hfree : t.state p = .unused)
    (hcurrent : t'.current = t.current) (hqueue : t'.runQueue = t.runQueue)
    (hstate : t'.state = Function.update t.state p .ready)
    (hnext : ∀ q, t.state q ≠ .unused → t'.next q = t.next q) :
    Queue (schedulerAdd t' p) head (p :: rest) := by
  have hout : p ∉ head :: rest := fun hp => (h.members p).mp hp hfree
  have hne : head ≠ p := fun he => hout (he ▸ mem_cons_self)
  have hring : Ring t'.next head rest := h.ring.congr (fun q hq => hnext q ((h.members q).mp hq))
  have hadd : schedulerAdd t' p = (t'.setNext p (t'.next head)).setNext head (some p) := by
    rw [schedulerAdd, hqueue, h.runQueue]
  have hstates : (schedulerAdd t' p).state = Function.update t.state p .ready := by
    rw [hadd, Table.state_setNext, Table.state_setNext, hstate]
  rw [hadd] at hstates ⊢
  refine ⟨hcurrent.trans h.current, hqueue.trans h.runQueue, ?_, ?_, ?_, ?_, ?_⟩
  · simpa using hring.insert hout
  · intro q
    rw [hstates]
    by_cases hq : q = p
    · simp [hq]
    · rw [update_of_ne hq, ← h.members q]
      simp [hq]
  · intro q hq
    rw [hstates]
    by_cases hqp : q = p
    · simp [hqp]
    · rw [update_of_ne hqp]
      exact h.others q hq
  · rw [hstates, update_of_ne hne]
    exact h.stage
  · have hrun := h.idle_runnable
    rw [runnable_iff] at hrun ⊢
    rw [hstates]
    by_cases hip : idle = p
    · simp [hip]
    · rwa [update_of_ne hip]

/-! ## Removal -/

/-- The loop of `scheduler_remove` ends, whatever slot it is given. -/
theorem remove_ends (p : Slot) : (schedulerRemove t p).isSome := by
  rw [schedulerRemove, h.runQueue]
  rcases seekLink_chain p h.ring.links (nodup_cons.mp h.ring.nodup).1 h.length_lt with
    ⟨hnone, -⟩ | ⟨prev, ys, post, hsome, -⟩
  · simp [hnone]
  · simp only [hsome]
    split <;> rfl

/-- `scheduler_remove` of a slot other than the head. -/
theorem remove (hp : p ≠ head) (hused : t.state p ≠ .unused) :
    ∃ t' rest', schedulerRemove t p = some t' ∧ t'.current = some head ∧
      t'.runQueue = some head ∧ Ring t'.next head rest' ∧
      (∀ q, q ∈ head :: rest' ↔ q ∈ head :: rest ∧ q ≠ p) ∧ t'.state = t.state ∧
      ∀ q, (t'.proc q).core = (t.proc q).core := by
  have hmem : p ∈ head :: rest := (h.members p).mpr hused
  rcases h.ring.seekLink_eq hp h.length_lt with
    ⟨-, hnot⟩ | ⟨prev, ys, post, hsome, hsplit⟩
  · exact absurd hmem hnot
  · have hnd : (ys ++ prev :: p :: post).Nodup := hsplit ▸ h.ring.nodup
    simp only [nodup_append, nodup_cons, mem_cons, not_or] at hnd
    obtain ⟨-, ⟨⟨hprevp, -⟩, hppost, -⟩, hys⟩ := hnd
    obtain ⟨rest', hrest', hring⟩ := h.ring.remove hsplit
    -- a slot that is its own successor has no other predecessor
    have hloop : t.next p ≠ some p := by
      intro hself
      have hlinks := h.ring.links
      rw [← cons_append, hsplit, append_assoc] at hlinks
      have hnextp := (isChain_append_cons_cons.mp hlinks).2.2
      cases post with
      | nil =>
        have : Link t.next p head := hnextp.rel
        exact hp (Option.some.inj (hself.symm.trans this))
      | cons y post =>
        have : Link t.next p y := hnextp.rel
        have hpy : p = y := Option.some.inj (hself.symm.trans this)
        exact hppost (hpy ▸ mem_cons_self)
    refine ⟨(t.setNext prev (t.next p)).setNext p none, rest', ?_, h.current, h.runQueue, ?_, ?_,
      by simp, by simp⟩
    · rw [schedulerRemove, h.runQueue]
      simp only [hsome, if_neg hloop, if_neg (Ne.symm hp)]
    · simpa using hring
    · intro q
      rw [hrest', hsplit]
      simp only [mem_append, mem_cons]
      grind

/-! ## Yielding -/

/-- What a switch to `next` does: the current process is ready again if it was
running, and `next` runs. -/
theorem dispatch_eq (next : Slot) : (dispatch t next).1.state = Function.update
        (if t.state head = .running then Function.update t.state head .ready else t.state)
        next .running ∧
      (dispatch t next).1.next = t.next ∧
      (∀ q, ((dispatch t next).1.proc q).core = (t.proc q).core) ∧
      (dispatch t next).1.runQueue = some next ∧ (dispatch t next).2.old = head := by
  have hpre : preempt { t with runQueue := some next } =
      if t.state head = .running then
        ({ t with runQueue := some next } : Table).setState head .ready
      else { t with runQueue := some next } := by
    rw [preempt]
    simp only [h.current]
    rfl
  refine ⟨?_, ?_, fun q => ?_, ?_, by simp [dispatch, h.current]⟩
  · change (Table.setState (preempt _) next .running).state = _
    rw [Table.state_setState, hpre]
    split
    · rw [Table.state_setState]
      rfl
    · rfl
  · change (Table.setState (preempt _) next .running).next = _
    rw [Table.next_setState, hpre]
    split
    · rw [Table.next_setState]
      rfl
    · rfl
  · change ((Table.setState (preempt _) next .running).proc q).core = _
    rw [core_setState, hpre]
    split
    · rw [core_setState]
    · rfl
  · change (preempt _).runQueue = _
    rw [hpre]
    split <;> rfl

end

/-- What `scheduler_yield` can do. -/
inductive Yielded (t : Table) (head : Slot) (rest : List Slot) : Table → Option Switch → Prop
  | stays (hrun : runnable t head = true) : Yielded t head rest t none
  | switches {next : Slot} (hnext : next ∈ rest) (hrun : runnable t next = true) :
      Yielded t head rest (dispatch t next).1 (some (dispatch t next).2)

/-- `scheduler_yield` ends: it stays when no other slot is runnable, and else it
switches to the first one behind the head. -/
theorem yield_first (h : Queue t head rest) :
    (∀ p ∈ rest, runnable t p = false) ∧ runnable t head = true ∧ schedulerYield t = some (t, none) ∨
      ∃ pre next post, rest = pre ++ next :: post ∧ (∀ p ∈ pre, runnable t p = false) ∧
        runnable t next = true ∧ schedulerYield t = some ((dispatch t next).1, some (dispatch t next).2) := by
  rw [schedulerYield, h.runQueue]
  simp only [h.ring.seek_eq (runnable t) h.length_lt, h.current, Option.some.injEq]
  cases hfind : rest.find? (runnable t) with
  | none =>
    have hnone : ∀ p ∈ rest, runnable t p = false := by simpa using hfind
    refine .inl ⟨hnone, ?_, by simp⟩
    -- a whole turn without a runnable slot would have missed idle
    have hused : t.state idle ≠ .unused := by
      rcases runnable_iff.mp h.idle_runnable with hst | hst <;> simp [hst]
    rcases mem_cons.mp ((h.members idle).mpr hused) with heq | hin
    · exact heq ▸ h.idle_runnable
    · exact absurd h.idle_runnable (by simp [hnone idle hin])
  | some next =>
    obtain ⟨hrun, pre, post, hsplit, hpre⟩ := List.find?_eq_some_iff_append.mp hfind
    have hne : next ≠ head := by
      rintro rfl
      exact (nodup_cons.mp h.ring.nodup).1 (by simp [hsplit])
    exact .inr ⟨pre, next, post, hsplit, by simpa using hpre, hrun, if_neg hne⟩

/-- What it selects is runnable. -/
theorem yield (h : Queue t head rest) :
    ∃ t' sw, schedulerYield t = some (t', sw) ∧ Yielded t head rest t' sw := by
  rcases h.yield_first with ⟨-, hrun, heq⟩ | ⟨pre, next, post, rfl, -, hrun, heq⟩
  · exact ⟨_, _, heq, .stays hrun⟩
  · exact ⟨_, _, heq, .switches (by simp) hrun⟩

theorem dispatch_life (h : Queue t head rest) {next : Slot} (hrun : runnable t next = true) :
    SameLife t (dispatch t next).1 := by
  intro p st hready hrunning
  rw [(h.dispatch_eq next).1]
  by_cases hp : p = next
  · subst hp
    rcases runnable_iff.mp hrun with hst | hst <;> simp [hst, hready.symm, hrunning.symm]
  · rw [update_of_ne hp]
    split
    · next hhead =>
        by_cases hph : p = head
        · subst hph
          simp [hhead, hready.symm, hrunning.symm]
        · rw [update_of_ne hph]
    · rfl

/-- The shape after a switch. -/
theorem dispatched {next : Slot} {pre post : List Slot} (h : Queue t head (pre ++ next :: post))
    (hrun : runnable t next = true) : Scheduled (dispatch t next).1 next (post ++ head :: pre) := by
  obtain ⟨hstate, hlinks, -, hqueue, -⟩ := h.dispatch_eq next
  have hruns : (dispatch t next).1.state next = .running := by rw [hstate, update_self]
  refine ⟨⟨rfl, hqueue, ?_, ?_, ?_, .inl hruns, ?_⟩, hruns⟩
  · rw [hlinks]
    exact h.ring.rotate
  · intro p
    rw [Ne, h.dispatch_life hrun p .unused (by decide) (by decide), ← Ne, ← h.members p]
    simp only [mem_cons, mem_append]
    tauto
  · intro p hp
    rw [hstate, update_of_ne hp]
    by_cases hph : p = head
    · subst hph
      split
      · simp
      · assumption
    · have := h.others p hph
      split
      · rwa [update_of_ne hph]
      · exact this
  · have hidle := runnable_iff.mp h.idle_runnable
    rw [runnable_iff, hstate]
    by_cases hin : idle = next
    · simp [hin]
    · rw [update_of_ne hin]
      split
      · by_cases hih : idle = head
        · simp [hih]
        · rwa [update_of_ne hih]
      · exact hidle

/-- What a yield leaves behind. -/
theorem yielded {sw : Option Switch} (h : Queue t head rest) (hy : Yielded t head rest t' sw) :
    (∃ head' rest', Scheduled t' head' rest') ∧ SameLife t t' ∧
      ∀ q, (t'.proc q).core = (t.proc q).core := by
  cases hy with
  | stays hrun =>
    have hruns : t.state head = .running := by
      rcases h.stage with hst | hst
      · exact hst
      · simp [runnable, hst] at hrun
    exact ⟨⟨head, rest, h, hruns⟩, .refl t, fun _ => rfl⟩
  | switches hnext hrun =>
    obtain ⟨pre, post, rfl⟩ := append_of_mem hnext
    exact ⟨⟨_, _, h.dispatched hrun⟩, h.dispatch_life hrun, (h.dispatch_eq _).2.2.1⟩

end Queue

end Process
