import Mathlib.Data.List.Chain
import Mathlib.Data.List.Nodup
import Mathlib.Logic.Function.Basic

/-!
# Circular singly linked lists

Rings threaded through a `next` function whose links may be null, as a kernel
keeps its run queue.  `Ring next head rest` says that following the links from
`head` visits `rest` and comes back to `head`, meeting no node twice.  A ring
can be entered at any of its nodes, a node can be linked in behind the head or
bypassed, and the two loops a program runs over a ring (walk to the first node
of interest, walk to the node before a given one) end within one turn.
-/

namespace LinkedRing

open List Function

universe u

variable {α : Type u}

/-- The link of `a` leads to `b`. -/
def Link (next : α → Option α) (a b : α) : Prop := next a = some b

structure Ring (next : α → Option α) (head : α) (rest : List α) : Prop where
  nodup : (head :: rest).Nodup
  links : (head :: (rest ++ [head])).IsChain (Link next)

variable {next next' : α → Option α} {head p z : α} {rest l : List α}

/-- Only the links of the nodes passed matter. -/
theorem chain_congr (h : (l ++ [z]).IsChain (Link next)) (hsame : ∀ x ∈ l, next' x = next x) :
    (l ++ [z]).IsChain (Link next') := by
  induction l with
  | nil => exact .singleton z
  | cons x xs ih =>
    have hx : next' x = next x := hsame x mem_cons_self
    have hxs := ih h.tail (fun y hy => hsame y (mem_cons_of_mem x hy))
    cases xs with
    | nil => exact .cons_cons (hx.trans h.rel) hxs
    | cons y ys => exact .cons_cons (hx.trans h.rel) hxs

theorem Ring.congr (h : Ring next head rest) (hsame : ∀ x ∈ head :: rest, next' x = next x) :
    Ring next' head rest :=
  ⟨h.nodup, chain_congr (l := head :: rest) h.links hsame⟩

theorem Ring.single (h : next head = some head) : Ring next head [] :=
  ⟨nodup_singleton head, .cons_cons h (.singleton head)⟩

/-- The ring, entered at another of its nodes. -/
theorem Ring.rotate {pre post : List α} (h : Ring next head (pre ++ p :: post)) :
    Ring next p (post ++ head :: pre) := by
  refine ⟨?_, ?_⟩
  · have hperm : ((p :: post) ++ head :: pre).Perm ((head :: pre) ++ p :: post) :=
      perm_append_comm
    exact hperm.nodup_iff.mpr h.nodup
  · have hlinks : ((head :: pre) ++ p :: (post ++ [head])).IsChain (Link next) := by
      simpa using h.links
    grind [isChain_split]

variable [DecidableEq α]

/-- `p->next = head->next; head->next = p` links `p` in behind the head. -/
theorem Ring.insert (h : Ring next head rest) (hp : p ∉ head :: rest) :
    Ring (Function.update (Function.update next p (next head)) head (some p)) head
      (p :: rest) := by
  obtain ⟨hne, hnot⟩ := not_or.mp (fun hor => hp (mem_cons.mpr hor))
  refine ⟨?_, .cons_cons (update_self ..) ?_⟩
  · exact (List.Perm.swap head p rest).nodup_iff.mp (nodup_cons.mpr ⟨hp, h.nodup⟩)
  · have hlink : Function.update (Function.update next p (next head)) head (some p) p =
        next head := by
      rw [update_of_ne hne, update_self]
    -- behind the new node the links are the old ones
    have hold : (rest ++ [head]).IsChain (Link
        (Function.update (Function.update next p (next head)) head (some p))) := by
      refine chain_congr h.links.tail (fun x hx => ?_)
      rw [update_of_ne, update_of_ne]
      · rintro rfl
        exact hnot hx
      · rintro rfl
        exact (nodup_cons.mp h.nodup).1 hx
    cases rest with
    | nil => exact .cons_cons (hlink.trans h.links.rel) hold
    | cons y ys => exact .cons_cons (hlink.trans h.links.rel) hold

/-- `prev->next = p->next; p->next = NULL` takes `p` out. -/
theorem Ring.remove {prev : α} {ys post : List α} (h : Ring next head rest)
    (hsplit : head :: rest = ys ++ prev :: p :: post) :
    ∃ rest', head :: rest' = ys ++ prev :: post ∧
      Ring (Function.update (Function.update next prev (next p)) p none) head rest' := by
  obtain ⟨rest', hrest'⟩ : ∃ rest', head :: rest' = ys ++ prev :: post := by
    cases ys with
    | nil => exact ⟨post, by simp_all⟩
    | cons y ys => exact ⟨ys ++ prev :: post, by simp_all⟩
  have hnd : (ys ++ prev :: p :: post).Nodup := hsplit ▸ h.nodup
  have hlinks : (ys ++ prev :: p :: (post ++ [head])).IsChain (Link next) := by
    have := h.links
    rwa [← cons_append, hsplit, append_assoc] at this
  refine ⟨rest', hrest', ?_, ?_⟩
  · rw [hrest']
    exact hnd.sublist ((sublist_cons_self p post).cons_cons prev |>.append_left ys)
  · rw [← cons_append, hrest', append_assoc]
    obtain ⟨hbefore, -, hafter⟩ := isChain_append_cons_cons.mp hlinks
    have hoff : ∀ x, x ≠ prev → x ≠ p →
        Function.update (Function.update next prev (next p)) p none x = next x := by
      intro x hprev hx
      rw [update_of_ne hx, update_of_ne hprev]
    simp only [nodup_append, nodup_cons, mem_cons, not_or] at hnd
    obtain ⟨-, ⟨⟨hprevp, hprevpost⟩, hppost, -⟩, hys⟩ := hnd
    have hprevlink : Function.update (Function.update next prev (next p)) p none prev = next p := by
      rw [update_of_ne hprevp, update_self]
    have hhead : (ys ++ [prev]).IsChain (Link
        (Function.update (Function.update next prev (next p)) p none)) :=
      chain_congr hbefore (fun x hx =>
        hoff x (hys x hx prev (.inl rfl)) (hys x hx p (.inr (.inl rfl))))
    have htail : (post ++ [head]).IsChain (Link
        (Function.update (Function.update next prev (next p)) p none)) :=
      chain_congr hafter.tail (fun x hx => hoff x
        (fun he => hprevpost (he ▸ hx)) (fun he => hppost (he ▸ hx)))
    refine isChain_split.mpr ⟨hhead, ?_⟩
    cases post with
    | nil => exact .cons_cons (hprevlink.trans hafter.rel) htail
    | cons y ys => exact .cons_cons (hprevlink.trans hafter.rel) htail

/-! ## Loops -/

omit [DecidableEq α] in
/-- `do x = x->next; while (!stop(x))`: where it stops; `none` when the fuel
ends or a null link is followed. -/
def seek (next : α → Option α) (stop : α → Bool) : Nat → α → Option α
  | 0, _ => none
  | fuel + 1, x =>
    match next x with
    | none => none
    | some y => if stop y then some y else seek next stop fuel y

variable {fuel : Nat}

omit [DecidableEq α] in
theorem seek_chain (stop : α → Bool) {x : α}
    (h : (x :: (l ++ [z])).IsChain (Link next)) (hz : stop z = true) (hfuel : l.length < fuel) :
    seek next stop fuel x = (l ++ [z]).find? stop := by
  induction l generalizing x fuel with
  | nil =>
    obtain ⟨fuel, rfl⟩ := Nat.exists_eq_add_of_lt hfuel
    have hlink : next x = some z := h.rel
    simp [seek, hlink, hz]
  | cons y ys ih =>
    obtain ⟨fuel, rfl⟩ : ∃ k, fuel = k + 1 := ⟨fuel - 1, by simp at hfuel; omega⟩
    have hlink : next x = some y := h.rel
    rw [seek, hlink]
    by_cases hy : stop y = true
    · simp [hy]
    · simp only [hy, cons_append, List.find?_cons]
      exact ih h.tail (Nat.lt_of_succ_lt_succ hfuel)

/-- `do { if (prev->next == target) …found; prev = prev->next; } while (prev != head)`:
`some (some prev)` when found and `some none` after a whole turn. -/
def seekLink (next : α → Option α) (head target : α) : Nat → α → Option (Option α)
  | 0, _ => none
  | fuel + 1, prev =>
    if next prev = some target then some (some prev)
    else
      match next prev with
      | none => none
      | some q => if q = head then some none else seekLink next head target fuel q

theorem seekLink_chain (target : α) {x : α}
    (h : (x :: (l ++ [head])).IsChain (Link next)) (hhead : head ∉ l) (hfuel : l.length < fuel) :
    (seekLink next head target fuel x = some none ∧ target ∉ l ++ [head]) ∨
      ∃ prev ys post, seekLink next head target fuel x = some (some prev) ∧
        x :: (l ++ [head]) = ys ++ prev :: target :: post := by
  induction l generalizing x fuel with
  | nil =>
    obtain ⟨fuel, rfl⟩ := Nat.exists_eq_add_of_lt hfuel
    have hlink : next x = some head := h.rel
    by_cases ht : head = target
    · subst ht
      exact .inr ⟨x, [], [], by simp [seekLink, hlink], rfl⟩
    · exact .inl ⟨by simp [seekLink, hlink, ht], by simpa using Ne.symm ht⟩
  | cons y ys ih =>
    obtain ⟨fuel, rfl⟩ : ∃ k, fuel = k + 1 := ⟨fuel - 1, by simp at hfuel; omega⟩
    obtain ⟨hne, hnot⟩ := not_or.mp (fun hor => hhead (mem_cons.mpr hor))
    have hlink : next x = some y := h.rel
    by_cases ht : y = target
    · subst ht
      exact .inr ⟨x, [], ys ++ [head], by simp [seekLink, hlink], rfl⟩
    · have hround : seekLink next head target (fuel + 1) x = seekLink next head target fuel y := by
        simp [seekLink, hlink, ht, Ne.symm hne]
      rw [hround]
      rcases ih h.tail hnot (Nat.lt_of_succ_lt_succ hfuel) with
        ⟨hnone, habsent⟩ | ⟨prev, zs, post, hsome, hsplit⟩
      · refine .inl ⟨hnone, ?_⟩
        simp only [cons_append, mem_cons, not_or]
        exact ⟨Ne.symm ht, habsent⟩
      · exact .inr ⟨prev, x :: zs, post, hsome, by rw [cons_append, hsplit]; rfl⟩

/-- Within one turn of a ring the walk to a node of interest finds the first
one behind the head, or the head. -/
theorem Ring.seek_eq (h : Ring next head rest) (ok : α → Bool) (hfuel : rest.length < fuel) :
    seek next (fun x => ok x || decide (x = head)) fuel head = some ((rest.find? ok).getD head) := by
  have hseek := seek_chain (fun x => ok x || decide (x = head)) h.links (by simp) hfuel
  have hstop : ∀ x ∈ rest, (ok x || decide (x = head)) = ok x := by
    intro x hx
    have hne : x ≠ head := fun he => (nodup_cons.mp h.nodup).1 (he ▸ hx)
    simp [hne]
  have hfind : rest.find? (fun x => ok x || decide (x = head)) = rest.find? ok := by
    rw [← List.head?_filter, filter_congr hstop, List.head?_filter]
  rw [hseek, List.find?_append, hfind]
  cases rest.find? ok <;> simp

/-- Within one turn of a ring the walk to the node before `p` finds it, unless
`p` is not on the ring. -/
theorem Ring.seekLink_eq (h : Ring next head rest) (hp : p ≠ head) (hfuel : rest.length < fuel) :
    (seekLink next head p fuel head = some none ∧ p ∉ head :: rest) ∨
      ∃ prev ys post, seekLink next head p fuel head = some (some prev) ∧
        head :: rest = ys ++ prev :: p :: post := by
  rcases seekLink_chain p h.links (nodup_cons.mp h.nodup).1 hfuel with
    ⟨hnone, habsent⟩ | ⟨prev, ys, post, hsome, hsplit⟩
  · refine .inl ⟨hnone, ?_⟩
    simp only [mem_append, mem_cons, not_or] at habsent ⊢
    exact ⟨hp, habsent.1⟩
  · -- the turn ends in the head, which is not `p`
    refine .inr ⟨prev, ys, ?_⟩
    rcases eq_nil_or_concat' post with rfl | ⟨post, last, rfl⟩
    · have hlast := congrArg List.getLast? hsplit
      rw [← cons_append, List.getLast?_concat] at hlast
      simp at hlast
      exact absurd hlast.symm hp
    grind [dropLast_concat]

end LinkedRing
