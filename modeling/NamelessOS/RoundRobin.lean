import Mathlib.Data.List.Rotate
import NamelessOS.ProcessRuns

/-!
# Round robin

In a run of yields the processes made current follow the cyclic order of the run queue, restricted
to the runnable ones: each yield turns that list by one.
-/

namespace Process

open Runs List

variable {σ : Type} (env : Platform σ) {t : Table} {head : Slot} {rest : List Slot}

/-- The runnable slots in the order of the run queue. -/
def turn (t : Table) (queue : List Slot) : List Slot := queue.filter (runnable t)

theorem SameLife.runnable_eq {t' : Table} (h : SameLife t t') : runnable t' = runnable t := by
  funext p
  have hunused := h p .unused (by decide) (by decide)
  have hblocked := h p .blocked (by decide) (by decide)
  have hzombie := h p .zombie (by decide) (by decide)
  rw [Bool.eq_iff_iff, runnable_iff, runnable_iff]
  cases h' : t'.state p <;> cases h'' : t.state p <;> simp_all

/-- **One yield** turns the list by one. -/
theorem Scheduled.yield_turn (h : Scheduled t head rest) :
    ∃ t' sw head' rest', schedulerYield t = some (t', sw) ∧ Scheduled t' head' rest' ∧
      runnable t' = runnable t ∧ turn t (head' :: rest') = (turn t (head :: rest)).rotate 1 := by
  have hhead : runnable t head = true := runnable_iff.mpr (.inr h.running)
  rcases h.yield_first with ⟨hnone, -, heq⟩ | ⟨pre, next, post, rfl, hpre, hrun, heq⟩
  · refine ⟨_, _, head, rest, heq, h, rfl, ?_⟩
    have hrest : rest.filter (runnable t) = [] := by simpa using hnone
    rw [turn, filter_cons_of_pos hhead, hrest, rotate_cons_succ, rotate_zero]
    rfl
  · refine ⟨_, _, next, post ++ head :: pre, heq, h.dispatched hrun,
      (h.dispatch_life hrun).runnable_eq, ?_⟩
    have hskip : pre.filter (runnable t) = [] := by simpa using hpre
    rw [turn, turn, filter_cons_of_pos hhead, rotate_cons_succ, rotate_zero]
    simp [hhead, hrun, hskip]

theorem Scheduled.turn_head (h : Scheduled t head rest) : (turn t (head :: rest)).head? = t.current := by
  have hhead : runnable t head = true := runnable_iff.mpr (.inr h.running)
  rw [turn, filter_cons_of_pos hhead, h.current]
  rfl

/-! ## Runs of yields -/

/-- The processes that a run of yields makes current, one for each. -/
def selected (s : Option (Kern σ)) : List CpuContext → List (Option Slot)
  | [] => []
  | regs :: more =>
    let s' := step env s (.yield regs)
    s'.bind (fun k => k.table.current) :: selected s' more

variable {env} {k : Kern σ}

theorem step_yield_turn (h : Scheduled k.table head rest) (regs : CpuContext) :
    ∃ k' head' rest', step env (some k) (.yield regs) = some k' ∧ Scheduled k'.table head' rest' ∧
      runnable k'.table = runnable k.table ∧
      turn k.table (head' :: rest') = (turn k.table (head :: rest)).rotate 1 := by
  obtain ⟨t', sw, head', rest', hyield, hsched, hrun, hturn⟩ := h.yield_turn
  refine ⟨{ k with table := saveContext t' sw regs }, head', rest', ?_, hsched.saveContext sw regs,
    ?_, hturn⟩
  · have hstep : k.step env (.yield regs) = k.switched (schedulerYield k.table) regs := by
      rw [Kern.step, h.current]
    rw [step, Option.bind_some, hstep, Kern.switched, hyield]
    rfl
  · rw [← hrun]
    funext p
    rw [Bool.eq_iff_iff, runnable_iff, runnable_iff, saveContext_state]

/-- **A run of yields** goes through the list in cyclic order. -/
theorem selected_eq (h : Scheduled k.table head rest) (regs : List CpuContext) :
    selected env (some k) regs =
      (List.range regs.length).map (fun i => ((turn k.table (head :: rest)).rotate (i + 1)).head?) := by
  induction regs generalizing k head rest with
  | nil => rfl
  | cons r regs ih =>
    obtain ⟨k', head', rest', hstep, hsched, hrun, hturn⟩ := step_yield_turn h r
    have hsame : turn k'.table (head' :: rest') = (turn k.table (head :: rest)).rotate 1 := by
      rw [turn, hrun]
      exact hturn
    have hfirst : k'.table.current = ((turn k.table (head :: rest)).rotate 1).head? := by
      rw [← hsame, hsched.turn_head]
    rw [selected, hstep, ih hsched, hsame, Option.bind_some, hfirst, length_cons,
      range_succ_eq_map, map_cons,
      map_map]
    simp only [rotate_rotate, Nat.add_comm 1]
    rfl

/-- One turn of a list, by the heads of its rotations. -/
theorem map_head_rotate (order : List Slot) :
    (List.range order.length).map (fun i => (order.rotate (i + 1)).head?) =
      (order.rotate 1).map some := by
  apply ext_getElem?
  intro i
  rw [List.getElem?_map, List.getElem?_map]
  rcases Nat.lt_or_ge i order.length with hlt | hge
  · have hlt' : i < (order.rotate 1).length := by rwa [length_rotate]
    rw [List.getElem?_range hlt, Option.map_some, Nat.add_comm, ← rotate_rotate,
      List.head?_rotate hlt', List.getElem?_eq_getElem hlt', Option.map_some]
  · rw [List.getElem?_eq_none (by simpa using hge), List.getElem?_eq_none (by simpa using hge)]
    rfl

/-- After boot and any calls in which idle does not exit, a run of yields makes current the runnable
processes in the cyclic order of the run queue, from the one behind the current process on; so as
many yields as there are runnable processes select each of them once and end at the current one. -/
theorem round_robin_order (env : Platform σ) (m : σ) (images : List Image) (calls : List Call)
    (hidle : StepsMeet (step env) IdleStays (some (boot env m images)) calls) :
    ∃ k head rest, run (step env) (some (boot env m images)) calls = some k ∧
      Scheduled k.table head rest ∧
      let order := turn k.table (head :: rest)
      order.Nodup ∧ (∀ p, p ∈ order ↔ runnable k.table p = true) ∧ order.head? = k.table.current ∧
      (∀ regs, selected env (some k) regs =
        (List.range regs.length).map (fun i => (order.rotate (i + 1)).head?)) ∧
      ∀ regs, regs.length = order.length → selected env (some k) regs = (order.rotate 1).map some := by
  obtain ⟨rest, hboot⟩ := boot_scheduled env m images
  obtain ⟨k, hrun, head, rest, hsched⟩ := run_invariant Sound
    (fun s c hs hok => step_sound env hs hok) ⟨_, rfl, idle, rest, hboot⟩ hidle
  refine ⟨k, head, rest, hrun, hsched, hsched.ring.nodup.filter _, ?_, hsched.turn_head,
    selected_eq hsched, ?_⟩
  · intro p
    rw [turn, mem_filter, and_iff_right_iff_imp]
    intro hp
    refine (hsched.members p).mpr ?_
    rcases runnable_iff.mp hp with hst | hst <;> simp [hst]
  · intro regs hlen
    rw [selected_eq hsched, hlen, map_head_rotate]

/-- The run in which a slot is used again. -/
theorem round_robin_order_reuse :
    ∃ k head rest, run (step ample) (some (boot ample () [])) reuse = some k ∧
      Scheduled k.table head rest ∧
      ∀ regs, selected ample (some k) regs =
        (List.range regs.length).map (fun i =>
          ((turn k.table (head :: rest)).rotate (i + 1)).head?) := by
  obtain ⟨k, head, rest, hrun, hsched, -, -, -, hselected, -⟩ := round_robin_order ample () [] reuse
    ⟨trivial, trivial, by unfold IdleStays; decide +kernel, trivial, trivial, trivial, trivial⟩
  exact ⟨k, head, rest, hrun, hsched, hselected⟩

end Process
