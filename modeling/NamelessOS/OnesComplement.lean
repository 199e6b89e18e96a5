import Mathlib.Data.BitVec

/-!
# One's-complement sums of 16-bit words

The Internet checksum adds the 16-bit words of a message with end-around
carry.  Folding the carries is reduction modulo `65535` with representatives
`1 .. 65535` for a nonzero sum (`fold16_mod`, `fold16_pos`, `fold16_lt`), so
a receiver's test "folds to `0xFFFF`" is divisibility by `65535`
(`fold16_eq_ones_iff`).

The last section is about byte order.  Since `256² ≡ 1` modulo `65535`,
summing byte-swapped words gives the byte-swapped sum, and a message is
insensitive to the order in which its checksum is stored exactly when the
word sum vanishes modulo `257`; `beWordSum_mod` says what that means for the
bytes: the two lanes of the message have sums congruent modulo `257`.  A
sender that sums little-endian words and stores its checksum the same way
needs no such luck: `fold16_beWordSum_of_le` carries the verdict over.
-/

namespace OnesComplement

open List

/-- The sum of a byte string read as big-endian 16-bit words, an odd last
byte being padded with a zero. -/
def beWordSum : List (BitVec 8) → Nat
  | [] => 0
  | [b0] => b0.toNat * 256
  | b0 :: b1 :: rest => b0.toNat * 256 + b1.toNat + beWordSum rest

/-- The sum of the bytes in the high lane, those at even offsets. -/
def highLane : List (BitVec 8) → Nat
  | [] => 0
  | [b0] => b0.toNat
  | b0 :: _ :: rest => b0.toNat + highLane rest

/-- The sum of the bytes in the low lane, those at odd offsets. -/
def lowLane : List (BitVec 8) → Nat
  | [] => 0
  | [_] => 0
  | _ :: b1 :: rest => b1.toNat + lowLane rest

/-- End-around carry: add the part above 16 bits back in until none is
left. -/
def fold16 (s : Nat) : Nat :=
  if s / 65536 = 0 then s else fold16 (s % 65536 + s / 65536)
termination_by s
decreasing_by omega

/-- Folding is reduction modulo `65535` ... -/
theorem fold16_mod (s : Nat) : fold16 s % 65535 = s % 65535 := by
  induction s using fold16.induct with
  | case1 s h => rw [fold16, if_pos h]
  | case2 s h ih =>
    rw [fold16, if_neg h, ih]
    omega

/-- ... into 16 bits ... -/
theorem fold16_lt (s : Nat) : fold16 s < 65536 := by
  induction s using fold16.induct with
  | case1 s h => rw [fold16, if_pos h]; omega
  | case2 s h ih => rw [fold16, if_neg h]; exact ih

variable {s : Nat}

/-- ... and never turns a nonzero sum into zero. -/
theorem fold16_pos (hs : 0 < s) : 0 < fold16 s := by
  induction s using fold16.induct with
  | case1 s h => rw [fold16, if_pos h]; exact hs
  | case2 s h ih => rw [fold16, if_neg h]; exact ih (by omega)

/-- A nonzero sum folds to all ones exactly when `65535` divides it. -/
theorem fold16_eq_ones_iff (hs : 0 < s) : fold16 s = 0xFFFF ↔ s % 65535 = 0 := by
  have hmod := fold16_mod s
  have hlt := fold16_lt s
  have hpos := fold16_pos hs
  omega

variable {xs : List (BitVec 8)}

theorem beWordSum_append (ys : List (BitVec 8)) (h : xs.length % 2 = 0) :
    beWordSum (xs ++ ys) = beWordSum xs + beWordSum ys := by
  induction xs using beWordSum.induct with
  | case1 => simp [beWordSum]
  | case2 b0 => simp at h
  | case3 b0 b1 rest ih =>
    have hrest : rest.length % 2 = 0 := by
      simp only [length_cons] at h
      omega
    simp only [cons_append, beWordSum, ih hrest]
    omega

theorem beWordSum_le (xs : List (BitVec 8)) : beWordSum xs ≤ 65535 * ((xs.length + 1) / 2) := by
  induction xs using beWordSum.induct with
  | case1 => simp [beWordSum]
  | case2 b0 =>
    simp only [beWordSum, length_cons, length_nil]
    omega
  | case3 b0 b1 rest ih =>
    simp only [beWordSum, length_cons]
    omega

theorem beWordSum_eq_lanes (xs : List (BitVec 8)) :
    beWordSum xs = 256 * highLane xs + lowLane xs := by
  induction xs using beWordSum.induct with
  | case1 => rfl
  | case2 b0 => simp [beWordSum, highLane, lowLane, Nat.mul_comm]
  | case3 b0 b1 rest ih =>
    simp only [beWordSum, highLane, lowLane, ih]
    omega

/-- The word sum vanishes modulo `257` exactly when the two byte lanes have
congruent sums. -/
theorem beWordSum_mod (xs : List (BitVec 8)) :
    beWordSum xs % 257 = 0 ↔ highLane xs % 257 = lowLane xs % 257 := by
  rw [beWordSum_eq_lanes]
  omega

/-- The checksum that goes with a word sum: the complement of the folded sum,
zero being sent as its other representation. -/
def complement16 (s : Nat) : Nat :=
  if 65535 - fold16 s = 0 then 65535 else 65535 - fold16 s

/-- The two bytes of a 16-bit value exchanged. -/
def swap16 (v : Nat) : Nat := v % 256 * 256 + v / 256

/-- A message completed with its checksum in the opposite byte order verifies
exactly when its word sum vanishes modulo `257`. -/
theorem fold16_add_swapped_complement (hs : 0 < s) :
    fold16 (s + swap16 (complement16 s)) = 0xFFFF ↔ s % 257 = 0 := by
  have hmod := fold16_mod s
  have hlt := fold16_lt s
  rw [fold16_eq_ones_iff (by omega)]
  unfold complement16 swap16
  split <;> omega

/-! ## Little-endian sums -/

/-- The sum of a byte string read as little-endian 16-bit words; an odd last
byte is the low half of its word. -/
def leWordSum : List (BitVec 8) → Nat
  | [] => 0
  | [b0] => b0.toNat
  | b0 :: b1 :: rest => b0.toNat + b1.toNat * 256 + leWordSum rest

theorem leWordSum_append (ys : List (BitVec 8)) (h : xs.length % 2 = 0) :
    leWordSum (xs ++ ys) = leWordSum xs + leWordSum ys := by
  induction xs using leWordSum.induct with
  | case1 => simp [leWordSum]
  | case2 b0 => simp at h
  | case3 b0 b1 rest ih =>
    have hrest : rest.length % 2 = 0 := by
      simp only [length_cons] at h
      omega
    simp only [cons_append, leWordSum, ih hrest]
    omega

theorem leWordSum_le (xs : List (BitVec 8)) : leWordSum xs ≤ 65535 * ((xs.length + 1) / 2) := by
  induction xs using leWordSum.induct with
  | case1 => simp [leWordSum]
  | case2 b0 =>
    simp only [leWordSum, length_cons, length_nil]
    omega
  | case3 b0 b1 rest ih =>
    simp only [leWordSum, length_cons]
    omega

/-- Exchanging the bytes of every word multiplies the sum by `256` modulo
`65535`, because `256² ≡ 1`. -/
theorem beWordSum_mod_leWordSum (xs : List (BitVec 8)) :
    beWordSum xs % 65535 = 256 * leWordSum xs % 65535 := by
  induction xs using leWordSum.induct with
  | case1 => rfl
  | case2 b0 => simp only [beWordSum, leWordSum, Nat.mul_comm]
  | case3 b0 b1 rest ih =>
    simp only [beWordSum, leWordSum]
    omega

theorem beWordSum_pos_of_leWordSum (h : 0 < leWordSum xs) : 0 < beWordSum xs := by
  induction xs using leWordSum.induct with
  | case1 => exact h
  | case2 b0 =>
    simp only [beWordSum, leWordSum] at h ⊢
    omega
  | case3 b0 b1 rest ih =>
    simp only [beWordSum, leWordSum] at h ⊢
    omega

/-- A message whose little-endian sum is a nonzero multiple of `65535`
verifies as big-endian words too. -/
theorem fold16_beWordSum_of_le (hpos : 0 < leWordSum xs)
    (hmod : leWordSum xs % 65535 = 0) : fold16 (beWordSum xs) = 0xFFFF := by
  rw [fold16_eq_ones_iff (beWordSum_pos_of_leWordSum hpos), beWordSum_mod_leWordSum]
  omega

/-- Adding the complement of a folded sum, in either representation of zero,
makes the sum a nonzero multiple of `65535`. -/
theorem add_complement {ck : Nat} (h : ck = 65535 - fold16 s ∨ ck = complement16 s) :
    0 < s + ck ∧ (s + ck) % 65535 = 0 := by
  have hmod := fold16_mod s
  have hlt := fold16_lt s
  have hzero : s = 0 → fold16 s = 0 := by
    rintro rfl
    rw [fold16]
    rfl
  unfold complement16 at h
  split at h <;> omega

end OnesComplement
