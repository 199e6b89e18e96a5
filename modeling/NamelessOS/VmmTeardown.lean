import NamelessOS.TableForest

/-!
# Tearing an address space down

`vmm_destroy_user_pml4` is three nested loops of `pmm_free_frame` calls.
`destroyCalls` lists these calls in order; for a tree without large pages they
are its tables, children first and each once, so the bitmap loses exactly the
bits of the tables.
-/

namespace Vmm

open Pmm WordMemory PageTree WordBitmap List

/-! ## The calls -/

/-- The `pmm_free_frame` calls of the inner loop of `free_user_pdpt`. -/
def pdtCalls (m : Memory) (pdt : U64) : List U64 := (range ptEntries).flatMap (fun j =>
    let e1 := m (slot pdt j)
    if !has e1 ptePresent || has e1 pteHuge then [] else [pteAddr e1])

/-- Those of `free_user_pdpt`. -/
def pdptCalls (m : Memory) (pdpt : U64) : List U64 := (range ptEntries).flatMap (fun i =>
    let e2 := m (slot pdpt i)
    if !has e2 ptePresent || has e2 pteHuge then [] else pdtCalls m (pteAddr e2) ++ [pteAddr e2]) ++
    [pdpt]

/-- Those of `vmm_destroy_user_pml4`. -/
def destroyCalls (m : Memory) (pml4 : U64) : List U64 := (range 256).flatMap (fun i =>
    let e := m (slot pml4 i)
    if !has e ptePresent then [] else pdptCalls m (pteAddr e)) ++ [pml4]

theorem foldl_free_mem (calls : List U64) (s : Vm) : (calls.foldl Vm.free s).mem = s.mem := by
  induction calls generalizing s with
  | nil => rfl
  | cons a calls ih => exact ih (s.free a)

/-- A loop whose rounds free frames frees the frames of all rounds. -/
theorem foldl_calls {m : Memory} {step : Vm → Nat → Vm} {calls : Nat → List U64}
    (hstep : ∀ s i, s.mem = m → step s i = (calls i).foldl Vm.free s) (is : List Nat) {s : Vm}
    (hs : s.mem = m) : is.foldl step s = (is.flatMap calls).foldl Vm.free s := by
  induction is generalizing s with
  | nil => rfl
  | cons i is ih =>
    rw [foldl_cons, flatMap_cons, foldl_append, hstep s i hs]
    exact ih ((foldl_free_mem _ s).trans hs)

theorem freeUserPdpt_eq (s : Vm) (pdpt : U64) :
    freeUserPdpt s pdpt = (pdptCalls s.mem pdpt).foldl Vm.free s := by
  unfold freeUserPdpt pdptCalls pdtCalls
  generalize range ptEntries = is
  rw [foldl_append]
  refine congrArg (Vm.free · pdpt) (foldl_calls (fun t i ht => ?_) _ rfl)
  dsimp only
  rw [ht]
  split
  · rfl
  · rw [foldl_append]
    refine congrArg (Vm.free · _) (foldl_calls (fun t' j ht' => ?_) _ ht)
    rw [ht']
    split <;> rfl

/-- The function is its calls. -/
theorem vmmDestroyUserPml4_eq (s : Vm) (pml4 : U64) :
    vmmDestroyUserPml4 s pml4 = (destroyCalls s.mem pml4).foldl Vm.free s := by
  unfold vmmDestroyUserPml4 destroyCalls
  generalize range 256 = is
  rw [foldl_append]
  refine congrArg (Vm.free · pml4) (foldl_calls (fun t i ht => ?_) _ rfl)
  dsimp only
  rw [ht]
  split
  · rfl
  · rw [freeUserPdpt_eq, ht]

/-- A teardown writes no memory. -/
theorem vmmDestroyUserPml4_mem (s : Vm) (pml4 : U64) : (vmmDestroyUserPml4 s pml4).mem = s.mem := by
  rw [vmmDestroyUserPml4_eq]
  exact foldl_free_mem _ s

/-! ## The calls of a tree -/

variable {k : Nat} {s : Vm} {t a : U64}

/-- Without large pages a directory entry is skipped only if it is absent. -/
theorem Tree.skip_iff (h : Tree (k + 1) s t) (hk : k + 1 < 3) {i : Nat}
    (hi : i < format.fanout (k + 1)) :
    (!has (s.mem (slot t i)) ptePresent || has (s.mem (slot t i)) pteHuge) =
      !format.present (s.mem (slot t i)) := by
  show _ = !has (s.mem (slot t i)) ptePresent
  by_cases hp : has (s.mem (slot t i)) ptePresent = true
  · rw [hp, (h.small i ⟨hi, hp⟩).1 hk]
    rfl
  · rw [Bool.not_eq_true] at hp
    rw [hp]
    rfl

theorem pdtCalls_eq (h : Tree 1 s t) : pdtCalls s.mem t ++ [t] = postorder format 1 s.mem t := by
  rw [postorder]
  refine congrArg (· ++ [t]) (flatMap_congr (fun j hj => ?_))
  dsimp only
  rw [h.skip_iff (by decide) (mem_range.mp hj)]
  cases format.present (s.mem (slot t j)) <;> rfl

theorem pdptCalls_eq (h : Tree 2 s t) : pdptCalls s.mem t = postorder format 2 s.mem t := by
  rw [postorder]
  refine congrArg (· ++ [t]) (flatMap_congr (fun i hi => ?_))
  dsimp only
  rw [h.skip_iff (by decide) (mem_range.mp hi)]
  by_cases hp : format.present (s.mem (slot t i)) = true
  · rw [hp, ← pdtCalls_eq (h.child ⟨mem_range.mp hi, hp⟩)]
    rfl
  · rw [Bool.not_eq_true] at hp
    rw [hp]
    rfl

/-- **The calls enumerate the tables.** -/
theorem destroyCalls_eq (h : Tree 3 s t) : destroyCalls s.mem t = postorder format 3 s.mem t := by
  rw [postorder]
  refine congrArg (· ++ [t]) (flatMap_congr (fun i hi => ?_))
  dsimp only
  by_cases hp : format.present (s.mem (slot t i)) = true
  · rw [if_pos hp, ← pdptCalls_eq (h.child ⟨mem_range.mp hi, hp⟩)]
    rw [show has (s.mem (slot t i)) ptePresent = true from hp]
    rfl
  · rw [if_neg hp]
    rw [Bool.not_eq_true] at hp
    rw [show has (s.mem (slot t i)) ptePresent = false from hp]
    rfl

/-! ## The bitmap -/

theorem test_foldl_free (calls : List U64) (hcalls : ∀ a ∈ calls, frameOf a < pmmMaxFrames) (s : Vm)
    (f : Nat) : test (calls.foldl Vm.free s).pmm.bitmap f =
      (!decide (f ∈ calls.map frameOf) && test s.pmm.bitmap f) := by
  induction calls generalizing s with
  | nil => simp
  | cons a calls ih =>
    rw [foldl_cons, ih (fun b hb => hcalls b (mem_cons_of_mem a hb))]
    rw [show test (s.free a).pmm.bitmap f = _ from
      test_pmmFreeFrame s.pmm a f (hcalls a mem_cons_self)]
    by_cases hf : f = frameOf a <;> simp [hf]

end Vmm
