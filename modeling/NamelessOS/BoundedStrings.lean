import NamelessOS.LibString

/-!
# The bounded string functions of the kernel and of the C library

`strncpy` is the same text on both sides and pads a short source one byte too far.  The two
`strncmp` differ: the one of the library tests its counter after it has been decremented once more
than characters were compared.
-/

namespace Libc

/-- `strncpy` of `libc/string.c`. -/
def strncpy : List U8 → List U8 → Nat → Option (List U8) := LibString.strncpy

/-- The loop of `strncmp`: the counter and the two characters on which it ends.  The counter is
decremented by every test. -/
def strncmpLoop : U64 → List U8 → List U8 → Option (U64 × U8 × U8)
  | n, a :: as, b :: bs =>
    if n ≠ 0#64 ∧ a ≠ 0#8 ∧ a = b then strncmpLoop (n - 1#64) as bs else some (n - 1#64, a, b)
  | _, _, _ => none

/-- `strncmp` of `libc/string.c`. -/
def strncmp (a b : List U8) (n : U64) : Option Int := do
  let (n, x, y) ← strncmpLoop n a b
  if n = 0#64 then some 0 else some ((x.toNat : Int) - y.toNat)

end Libc

namespace LibString

/-- `strncmp` of `lib/string.c`. -/
def strncmp : List U8 → List U8 → Nat → Option Int
  | _, _, 0 => some 0
  | a :: as, b :: bs, n + 1 =>
    let diff : Int := a.toNat - b.toNat
    if diff ≠ 0 ∨ a = 0#8 then some diff else strncmp as bs n
  | _, _, _ + 1 => none

/-! ## Copying -/

/-- A copy of at most `n` characters: an array of `n` bytes gets the characters of the source and
NULs, and what follows it is not touched. -/
def WritesBound (copy : List U8 → List U8 → Nat → Option (List U8)) (src : CStr) (n : Nat) : Prop :=
  ∀ dst rest, dst.length = n → copy (dst ++ rest) src.array n =
    some (src.chars.take n ++ List.replicate (n - src.chars.length) 0#8 ++ rest)

theorem strncpy_long {s src dst : List U8} (hs : 0#8 ∉ s) (rest : List U8)
    (hlen : dst.length ≤ s.length) :
    strncpy (dst ++ rest) (s ++ src) dst.length = some (s.take dst.length ++ rest) := by
  induction dst generalizing s with
  | nil => simp [strncpy]
  | cons x dst ih =>
    obtain ⟨c, s, rfl⟩ := List.exists_cons_of_length_pos (Nat.zero_lt_of_lt hlen)
    rw [List.mem_cons, not_or] at hs
    rw [List.cons_append, List.cons_append, List.length_cons, strncpy, if_neg (Ne.symm hs.1),
      ih hs.2 (Nat.le_of_succ_le_succ hlen)]
    rfl

theorem strncpyPad_short (dst : List U8) : strncpyPad dst (dst.length + 1) = none := by
  induction dst with
  | nil => rfl
  | cons x dst ih => rw [List.length_cons, strncpyPad, ih, Option.map_none]

/-- The padding of a short source leaves an array of `n` bytes. -/
theorem strncpy_short {s dst : List U8} (hs : 0#8 ∉ s) (hlen : s.length < dst.length) :
    strncpy dst (s ++ [0#8]) dst.length = none := by
  induction dst generalizing s with
  | nil => cases hlen
  | cons x dst ih =>
    cases s with
    | nil => rw [List.nil_append, List.length_cons, strncpy, if_pos rfl, strncpyPad_short,
        Option.map_none]
    | cons c s =>
      rw [List.mem_cons, not_or] at hs
      rw [List.cons_append, List.length_cons, strncpy, if_neg (Ne.symm hs.1),
        ih hs.2 (Nat.lt_of_succ_lt_succ hlen), Option.map_none]

/-- **`strncpy` writes exactly its bound** if and only if the source is not shorter than the
bound. -/
theorem strncpy_writes_bound_iff (src : CStr) (n : Nat) :
    WritesBound strncpy src n ∧ WritesBound Libc.strncpy src n ↔ n ≤ src.chars.length := by
  have hkernel : WritesBound strncpy src n ↔ n ≤ src.chars.length := by
    constructor
    · intro h
      by_contra hlt
      have hlen : (List.replicate n 0#8).length = n := List.length_replicate
      have hcopy := h (List.replicate n 0#8) [] hlen
      have hnone := strncpy_short src.noNul (hlen.symm ▸ Nat.lt_of_not_le hlt)
      rw [hlen] at hnone
      rw [List.append_nil, CStr.array, hnone] at hcopy
      cases hcopy
    · rintro hle dst rest rfl
      rw [CStr.array, strncpy_long src.noNul rest hle, Nat.sub_eq_zero_of_le hle]
      simp
  exact (and_iff_left_of_imp id).trans hkernel

/-- A name of one character copied into an array of two bytes: the byte behind it becomes 0. -/
theorem strncpy_clears_next_byte :
    strncpy [1, 2, 3, 4] [0x61, 0] 2 = some [0x61, 0, 0, 4] ∧
      ¬ WritesBound strncpy ⟨[0x61], by decide⟩ 2 := by
  refine ⟨by decide, fun h => ?_⟩
  have hcopy := h [1, 2] [3, 4] rfl
  revert hcopy
  decide

/-! ## Comparing -/

/-- Two strings, read in step up to their ends or to a difference. -/
inductive Walk : List U8 → List U8 → Prop
  | done : Walk [0#8] [0#8]
  | diff {x y : U8} (as bs : List U8) (hxy : x ≠ y) : Walk (x :: as) (y :: bs)
  | same {x : U8} {as bs : List U8} (hx : x ≠ 0#8) (rest : Walk as bs) : Walk (x :: as) (x :: bs)

theorem walk (s t : CStr) : Walk s.array t.array := by
  obtain ⟨a, ha⟩ := s
  obtain ⟨b, hb⟩ := t
  show Walk (a ++ [0#8]) (b ++ [0#8])
  induction a generalizing b with
  | nil =>
    cases b with
    | nil => exact .done
    | cons y b => exact .diff _ _ (fun h => hb (h ▸ List.mem_cons_self))
  | cons x a ih =>
    rw [List.mem_cons, not_or] at ha
    cases b with
    | nil => exact .diff _ _ (Ne.symm ha.1)
    | cons y b =>
      by_cases hxy : x = y
      · subst hxy
        exact .same (Ne.symm ha.1) (ih ha.2 b (fun h => hb (List.mem_cons_of_mem _ h)))
      · exact .diff _ _ hxy

/-- The first difference of two strings among their first `n` characters, the NULs at their ends
included, or 0. -/
def firstDiff (a b : List U8) (n : Nat) : Int :=
  (((a.zip b).take n).find? (fun p => p.1 ≠ p.2)).elim 0 (fun p => (p.1.toNat : Int) - p.2.toNat)

variable {a b : List U8} {x y : U8}

@[simp] theorem firstDiff_nil (n : Nat) : firstDiff [] b n = 0 := by simp [firstDiff]

@[simp] theorem firstDiff_zero : firstDiff a b 0 = 0 := by simp [firstDiff]

@[simp] theorem firstDiff_same (n : Nat) : firstDiff (x :: a) (x :: b) n = firstDiff a b (n - 1) := by
  cases n <;> simp [firstDiff]

@[simp] theorem firstDiff_cons (hxy : x ≠ y) (n : Nat) :
    firstDiff (x :: a) (y :: b) (n + 1) = (x.toNat : Int) - y.toNat := by
  simp [firstDiff, hxy]

theorem toNat_sub_ne_zero (hxy : x ≠ y) : (x.toNat : Int) - y.toNat ≠ 0 :=
  fun h => hxy (BitVec.eq_of_toNat_eq (by omega))

/-- **`strncmp` of the kernel** is the first difference. -/
theorem strncmp_eq (h : Walk a b) (n : Nat) : strncmp a b n = some (firstDiff a b n) := by
  induction h generalizing n with
  | done => cases n <;> simp [strncmp]
  | diff as bs hxy => cases n <;> simp [strncmp, hxy, toNat_sub_ne_zero]
  | same hx rest ih => cases n <;> simp [strncmp, hx, ih]

/-- One character more shows a difference only if there was none before. -/
theorem firstDiff_succ (h : Walk a b) {n : Nat} (hn : firstDiff a b n ≠ 0) :
    firstDiff a b (n + 1) = firstDiff a b n := by
  induction h generalizing n with
  | done => simp at hn
  | diff as bs hxy =>
    cases n with
    | zero => simp at hn
    | succ n => simp [hxy]
  | same hx rest ih =>
    cases n with
    | zero => simp at hn
    | succ n => simpa using ih (by simpa using hn)

end LibString

namespace Libc

open LibString

variable {a b : List U8}

/-- **`strncmp` of the library** does not see a difference in the last of the `n` characters, and
sees one in the character behind them. -/
theorem strncmp_eq (h : Walk a b) (n : U64) : strncmp a b n =
    some (firstDiff a b (n.toNat - 1) + (firstDiff a b (n.toNat + 1) - firstDiff a b n.toNat)) := by
  induction h generalizing n with
  | done => simp [strncmp, strncmpLoop]
  | diff as bs hxy =>
    have hlast : n - 1#64 = 0#64 ↔ n.toNat = 1 := by bv_omega
    simp only [strncmp, strncmpLoop, hxy, and_false, if_false, Option.bind_eq_bind,
      Option.bind_some, hlast]
    generalize n.toNat = m
    obtain _ | _ | m := m <;> simp [hxy]
  | same hx rest ih =>
    by_cases hn : n = 0#64
    · simp [strncmp, strncmpLoop, hn]
    · have hless : (n - 1#64).toNat = n.toNat - 1 := by bv_omega
      have hpos : n.toNat - 1 + 1 = n.toNat := by bv_omega
      have hrest := ih (n - 1#64)
      rw [hless, hpos] at hrest
      simpa [strncmp, strncmpLoop, hn, hx] using hrest

/-- **The two `strncmp`.**  The kernel gives the first difference among the first `n` characters;
the library has its sign exactly if the strings do not first differ in the last of these
characters or in the one behind them. -/
theorem strncmp_agrees_iff (a b : CStr) (n : U64) :
    ∃ r r', LibString.strncmp a.array b.array n.toNat = some r ∧ strncmp a.array b.array n = some r' ∧
      r = firstDiff a.array b.array n.toNat ∧
      (r'.sign = r.sign ↔ firstDiff a.array b.array (n.toNat - 1) =
        firstDiff a.array b.array (n.toNat + 1)) := by
  have h := walk a b
  refine ⟨_, _, LibString.strncmp_eq h _, strncmp_eq h n, rfl, ?_⟩
  have hnext := firstDiff_succ h (n := n.toNat)
  have hlast := firstDiff_succ h (n := n.toNat - 1)
  have hzero : n.toNat = 0 → firstDiff a.array b.array n.toNat = 0 := by
    intro h
    rw [h, firstDiff_zero]
  have hsucc : n.toNat ≠ 0 → n.toNat - 1 + 1 = n.toNat := by omega
  grind [Int.sign_eq_zero_iff_zero]

/-- The library takes "ab" and "ac" for equal in two characters, and tells "ab" from "ac" in one. -/
theorem strncmp_off_by_one :
    strncmp [0x61, 0x62, 0] [0x61, 0x63, 0] 2 = some 0 ∧
      LibString.strncmp [0x61, 0x62, 0] [0x61, 0x63, 0] 2 = some (-1) ∧
      strncmp [0x61, 0x62, 0] [0x61, 0x63, 0] 1 = some (-1) ∧
      LibString.strncmp [0x61, 0x62, 0] [0x61, 0x63, 0] 1 = some 0 := by
  decide

end Libc
