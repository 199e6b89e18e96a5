import Mathlib.Algebra.GroupWithZero.Nat
import Mathlib.Data.Fin.Basic

/-!
# Circular ranges

Two parties share a ring of `n` places through a head and a tail index; one of
them owns the range `[head, tail)`, which is empty when the indices are equal.
Seen from outside, the head has passed `d` places and the tail `a`, with
`d ≤ a < d + n`; the `k`-th place ever used is `place n k`.  Inside such a
window `place` is injective, and ownership is `d ≤ k < a`.
-/

namespace CircularRange

variable {n : Nat} [NeZero n]

/-- The place of the `k`-th use. -/
def place (n : Nat) [NeZero n] (k : Nat) : Fin n := Fin.ofNat n k

/-- `i` lies in the circular range `[head, tail)`. -/
def Owned (head tail i : Fin n) : Prop := (i - head).val < (tail - head).val

@[simp] theorem val_place (k : Nat) : (place n k).val = k % n := rfl

/-- An index is advanced by one modulo the size. -/
theorem place_succ (k : Nat) : place n k + 1 = place n (k + 1) := by
  apply Fin.ext
  rw [Fin.val_add, val_place, val_place, Fin.val_one', ← Nat.add_mod]

variable {d k : Nat}

/-- The distance from one place to a later one. -/
theorem val_place_sub (h : d ≤ k) : (place n k - place n d).val = (k - d) % n := by
  obtain ⟨j, rfl⟩ := Nat.exists_eq_add_of_le h
  have hmod := Nat.mod_lt d (Nat.pos_of_neZero n)
  have hsum : n - d % n + (d + j) = j + n * (d / n + 1) := by
    have hsplit := Nat.div_add_mod d n
    rw [Nat.mul_add, Nat.mul_one]
    omega
  rw [Fin.sub_def, Nat.add_sub_cancel_left]
  show (n - d % n + (d + j) % n) % n = j % n
  rw [Nat.add_mod_mod, hsum, Nat.add_mul_mod_self_left]

/-- **Places are distinct inside a window.** -/
theorem place_inj {j : Nat} (hj : d ≤ j) (hj' : j < d + n) (hk : d ≤ k) (hk' : k < d + n) :
    place n j = place n k ↔ j = k := by
  refine ⟨fun h => ?_, fun h => h ▸ rfl⟩
  have hdist : (j - d) % n = (k - d) % n := by rw [← val_place_sub hj, ← val_place_sub hk, h]
  rw [Nat.mod_eq_of_lt (by omega), Nat.mod_eq_of_lt (by omega)] at hdist
  omega

theorem place_ne (hk : d < k) (hk' : k < d + n) : place n k ≠ place n d := by
  intro heq
  have := (place_inj (Nat.le_of_lt hk) hk' le_rfl (by omega)).mp heq
  omega

/-- A lap later the place is the same. -/
theorem place_lap (k : Nat) : place n (k + n) = place n k := by
  apply Fin.ext
  rw [val_place, val_place, Nat.add_mod_right]

/-- **Ownership is the range of uses** between head and tail. -/
theorem owned_place {a : Nat} (hd : d ≤ a) (ha : a < d + n) (hk : d ≤ k) (hk' : k < d + n) :
    Owned (place n d) (place n a) (place n k) ↔ k < a := by
  unfold Owned
  rw [val_place_sub hk, val_place_sub hd, Nat.mod_eq_of_lt (by omega), Nat.mod_eq_of_lt (by omega)]
  omega

omit [NeZero n] in
theorem not_owned_of_eq (head i : Fin n) : ¬ Owned head head i := by
  have hzero : (head - head).val = 0 := by
    rw [Fin.sub_def]
    show (n - head.val + head.val) % n = 0
    rw [Nat.sub_add_cancel (Nat.le_of_lt head.isLt), Nat.mod_self]
  unfold Owned
  rw [hzero]
  exact Nat.not_lt_zero _

end CircularRange
