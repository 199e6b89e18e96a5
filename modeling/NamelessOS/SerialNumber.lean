import Mathlib.Data.BitVec

/-!
# Serial numbers

Counters that wrap modulo `2 ^ w`, compared by the sign of their difference.
`ahead a b` is the number of increments that lead from `a` to `b`; the
half-open interval `[a, b)` of a window is `ahead a x < ahead a b`.  The sign
test at both ends of a window accepts one point too many: the antipode of an
empty window.
-/

namespace SerialNumber

open BitVec (ofNat toNat_add)

variable {w : Nat}

/-- The number of increments from `a` to `b`. -/
def ahead (a b : BitVec w) : Nat := (b - a).toNat

theorem ahead_lt (a b : BitVec w) : ahead a b < 2 ^ w := (b - a).isLt

@[simp] theorem ahead_self (a : BitVec w) : ahead a a = 0 := by simp [ahead]

theorem ahead_add (a : BitVec w) {k : Nat} (hk : k < 2 ^ w) :
    ahead a (a + ofNat w k) = k := by
  rw [ahead, BitVec.add_comm, BitVec.add_sub_cancel, BitVec.toNat_ofNat, Nat.mod_eq_of_lt hk]

/-- Moving the end on, modulo the circle. -/
theorem ahead_add_ofNat (a b : BitVec w) (k : Nat) :
    ahead a (b + ofNat w k) = (ahead a b + k) % 2 ^ w := by
  rw [ahead, add_sub_right_comm, toNat_add, BitVec.toNat_ofNat, Nat.add_mod_mod, ahead]

theorem eq_add_ahead (a b : BitVec w) : b = a + ofNat w (ahead a b) := by
  rw [ahead, BitVec.ofNat_toNat, BitVec.setWidth_eq]
  exact (add_sub_cancel a b).symm

variable {a b x : BitVec w}

theorem ahead_eq_zero_iff : ahead a b = 0 ↔ a = b := by
  constructor
  · intro h
    have hzero : b - a = 0#w := BitVec.eq_of_toNat_eq (by simpa [ahead] using h)
    rw [BitVec.sub_eq_iff_eq_add, BitVec.zero_add] at hzero
    exact hzero.symm
  · rintro rfl
    exact ahead_self a

/-- Going on from `b` to `c` wraps around at most once. -/
theorem ahead_trans (a b c : BitVec w) :
    ahead a c = ahead a b + ahead b c ∨ ahead a c + 2 ^ w = ahead a b + ahead b c := by
  have hsplit : c - a = (b - a) + (c - b) := (sub_add_sub_cancel' b a c).symm
  have hsum : ahead a c = (ahead a b + ahead b c) % 2 ^ w := by
    rw [ahead, hsplit, toNat_add, ahead, ahead]
  have hab := ahead_lt a b
  have hbc := ahead_lt b c
  by_cases hwrap : ahead a b + ahead b c < 2 ^ w
  · left
    rw [hsum, Nat.mod_eq_of_lt hwrap]
  · right
    rw [hsum, Nat.mod_eq_sub_mod (by omega), Nat.mod_eq_of_lt (by omega)]
    omega

/-- A point of `[a, b)` lies in `[s, b)` for every earlier start `s`. -/
theorem ahead_lt_of_earlier {s : BitVec w} (hle : ahead a b ≤ ahead s b)
    (hx : ahead a x < ahead a b) : ahead s x < ahead s b := by
  have hsa := ahead_lt s a
  grind [ahead_trans]

/-- The sign test: `a` is not ahead of `b` when `b` is at most half the circle
further on. -/
theorem toInt_sub_nonpos_iff (a b : BitVec w) : (a - b).toInt ≤ 0 ↔ 2 * ahead a b ≤ 2 ^ w := by
  have hround := ahead_trans a b a
  have hab := ahead_lt a b
  have hself := ahead_self a
  have hint : (a - b).toInt =
      if 2 * ahead b a < 2 ^ w then (ahead b a : Int) else ahead b a - ((2 ^ w : Nat) : Int) :=
    BitVec.toInt_eq_toNat_cond (a - b)
  rw [hint]
  split
  · omega
  · omega

/-- A number between the ends of a window, by the sign test at both ends,
splits it; or the window is empty and the number is its antipode. -/
theorem split_window
    (hax : (a - x).toInt ≤ 0) (hxb : (x - b).toInt ≤ 0) :
    ahead a x + ahead x b = ahead a b ∨ (a = b ∧ 2 * ahead a x = 2 ^ w) := by
  grind [ahead_trans, ahead_eq_zero_iff, toInt_sub_nonpos_iff]

/-- Two numbers that pass the sign test in both directions are equal or
antipodes. -/
theorem eq_or_antipode (hab : (a - b).toInt ≤ 0)
    (hba : (b - a).toInt ≤ 0) : a = b ∨ 2 * ahead a b = 2 ^ w := by
  grind [ahead_trans, ahead_eq_zero_iff, toInt_sub_nonpos_iff]

/-- Moving the end of a window on by one admits at most its old end. -/
theorem ahead_lt_succ_cases (hw : 0 < w)
    (hx : ahead a x < ahead a (b + 1#w)) : ahead a x < ahead a b ∨ x = b := by
  have hone : ahead b (b + 1#w) = 1 := ahead_add b (Nat.one_lt_two_pow (by omega))
  have hle : ahead a x ≤ ahead a b := by
    rcases ahead_trans a b (b + 1#w) with hnext | hnext
    · omega
    · have hlt := ahead_lt a b
      omega
  grind [eq_add_ahead]

/-- **A window by two sign tests**: `x` is not behind `a`, and the end `a + k` of the window
is ahead of `x`. -/
theorem mem_window_iff {k : Nat} (hk : 2 * k < 2 ^ w) :
    (¬ (x - a).toInt < 0 ∧ ¬ (a + ofNat w k - x).toInt ≤ 0) ↔ ahead a x < k := by
  have hend : ahead a (a + ofNat w k) = k := ahead_add a (by omega)
  have hrest := ahead_lt (a + ofNat w k) x
  rw [BitVec.toInt_neg_iff, toInt_sub_nonpos_iff, ← ahead]
  rcases ahead_trans a (a + ofNat w k) x with hsum | hsum
  · omega
  · omega

end SerialNumber
