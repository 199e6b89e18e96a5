/-!
# Finite runs of a deterministic machine

A machine is a step function `step : σ → ε → σ` on states and events; a run
feeds it a list of events.  The verification of a stateful component always
asks the same two questions: which property survives every run, and which
property survives every run whose steps stay inside a stated condition.
`StepsMeet` is that condition, read along the run, so both questions are one
induction, done here once.

Ghost state (what has been handed out, what has been returned) is carried by
choosing a larger `σ`.
-/

namespace Runs

universe u v w

variable {σ : Type u} {ε : Type v}

/-- The state reached from `s` by feeding the events in order. -/
def run (step : σ → ε → σ) : σ → List ε → σ
  | s, [] => s
  | s, e :: es => run step (step s e) es

/-- Every step of the run meets `ok` in the state it is taken from. -/
def StepsMeet (step : σ → ε → σ) (ok : σ → ε → Prop) : σ → List ε → Prop
  | _, [] => True
  | s, e :: es => ok s e ∧ StepsMeet step ok (step s e) es

variable {step : σ → ε → σ} {ok : σ → ε → Prop}

instance decidableStepsMeet [∀ s e, Decidable (ok s e)] :
    (s : σ) → (es : List ε) → Decidable (StepsMeet step ok s es)
  | _, [] => isTrue trivial
  | s, e :: es =>
    let _ := decidableStepsMeet (step s e) es
    inferInstanceAs (Decidable (ok s e ∧ StepsMeet step ok (step s e) es))

@[simp] theorem run_nil (s : σ) : run step s [] = s := rfl

@[simp] theorem run_cons (s : σ) (e : ε) (es : List ε) :
    run step s (e :: es) = run step (step s e) es := rfl

theorem run_append (s : σ) (before after : List ε) :
    run step s (before ++ after) = run step (run step s before) after := by
  induction before generalizing s with
  | nil => rfl
  | cons e es ih => exact ih (step s e)

@[simp] theorem stepsMeet_nil (s : σ) : StepsMeet step ok s [] := trivial

@[simp] theorem stepsMeet_cons (s : σ) (e : ε) (es : List ε) :
    StepsMeet step ok s (e :: es) ↔ ok s e ∧ StepsMeet step ok (step s e) es :=
  Iff.rfl

theorem stepsMeet_append (s : σ) (before after : List ε) : StepsMeet step ok s (before ++ after) ↔
      StepsMeet step ok s before ∧ StepsMeet step ok (run step s before) after := by
  induction before generalizing s with
  | nil => exact ⟨fun h => ⟨trivial, h⟩, And.right⟩
  | cons e es ih => rw [List.cons_append, stepsMeet_cons, stepsMeet_cons, run_cons, ih, and_assoc]

variable {es : List ε}

section

variable (inv : σ → Prop) (hstep : ∀ s e, inv s → ok s e → inv (step s e))
include hstep

/-- **The invariant rule.**  What holds at the start and survives every
admitted step holds at the end of every admitted run. -/
theorem run_invariant
    {s : σ} (hs : inv s) (hok : StepsMeet step ok s es) : inv (run step s es) := by
  induction es generalizing s with
  | nil => exact hs
  | cons e es ih => exact ih (hstep s e hs hok.1) hok.2

/-- **Two machines.**  As long as the invariant makes every admitted step of the
second machine a step of the first, their runs are the same. -/
theorem StepsMeet.run_eq {step' : σ → ε → σ}
    (hsame : ∀ s e, inv s → ok s e → step' s e = step s e) {s : σ} (hs : inv s)
    (hok : StepsMeet step' ok s es) :
    StepsMeet step ok s es ∧ run step' s es = run step s es := by
  induction es generalizing s with
  | nil => exact ⟨trivial, rfl⟩
  | cons e es ih =>
    obtain ⟨he, hes⟩ := hok
    rw [hsame s e hs he] at hes
    obtain ⟨hmeet, hrun⟩ := ih (hstep s e hs he) hes
    refine ⟨⟨he, hmeet⟩, ?_⟩
    rw [run_cons, run_cons, hsame s e hs he, hrun]

/-- **The step rule.**  If an invariant of the admitted steps makes `post`
true of each of them, `post` holds of every step of every admitted run. -/
theorem stepsMeet_of_invariant {post : σ → ε → Prop} (hpost : ∀ s e, inv s → ok s e → post s e)
    {s : σ} (hs : inv s) (hok : StepsMeet step ok s es) : StepsMeet step post s es := by
  induction es generalizing s with
  | nil => trivial
  | cons e es ih =>
    exact ⟨hpost s e hs hok.1, ih (hstep s e hs hok.1) hok.2⟩

end

theorem StepsMeet.mono {post : σ → ε → Prop} (himp : ∀ s e, ok s e → post s e)
    {s : σ} (hok : StepsMeet step ok s es) : StepsMeet step post s es :=
  stepsMeet_of_invariant (fun _ => True) (fun _ _ _ _ => trivial)
    (fun s e _ h => himp s e h) trivial hok

/-- A condition on one part of a state, if that part steps by itself. -/
theorem StepsMeet.project {τ : Type w} {step' : τ → ε → τ} (part : τ → σ)
    (hpart : ∀ t e, part (step' t e) = step (part t) e) {t : τ}
    (hok : StepsMeet step' (fun t e => ok (part t) e) t es) : StepsMeet step ok (part t) es := by
  induction es generalizing t with
  | nil => trivial
  | cons e es ih =>
    refine ⟨hok.1, ?_⟩
    rw [← hpart]
    exact ih hok.2

theorem StepsMeet.and {ok' : σ → ε → Prop} {s : σ}
    (h : StepsMeet step ok s es) (h' : StepsMeet step ok' s es) :
    StepsMeet step (fun s e => ok s e ∧ ok' s e) s es := by
  induction es generalizing s with
  | nil => trivial
  | cons e es ih => exact ⟨⟨h.1, h'.1⟩, ih h.2 h'.2⟩

/-- A condition on the events alone is met by every step. -/
theorem stepsMeet_of_forall {allowed : ε → Prop} (h : ∀ e ∈ es, allowed e) (s : σ) :
    StepsMeet step (fun _ e => allowed e) s es := by
  induction es generalizing s with
  | nil => trivial
  | cons e es ih =>
    exact ⟨h e List.mem_cons_self, ih (fun e' he' => h e' (List.mem_cons_of_mem _ he')) (step s e)⟩

end Runs
