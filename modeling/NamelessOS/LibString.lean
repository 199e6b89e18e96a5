import Mathlib.Data.List.TakeWhile
import NamelessOS.ByteOrder

/-!
# Strings of `lib/string.c`

Arrays of characters are lists of bytes and a loop that would leave its array
gives `none`.  `CStr` is a string as its readers see it, `Name N` a field
`char name[N]` that always ends in a NUL; comparing and filling such fields is
comparing strings and cutting them at `N - 1` characters.
-/

namespace LibString

/-- What a reader of a NUL-terminated string sees of an array. -/
def text (a : List U8) : List U8 := a.takeWhile (· ≠ 0#8)

/-- `strcmp`; the characters are compared as unsigned. -/
def strcmp : List U8 → List U8 → Option Int
  | a :: as, b :: bs =>
    if a ≠ 0#8 ∧ a = b then strcmp as bs else some ((a.toNat : Int) - (b.toNat : Int))
  | _, _ => none

/-- The second loop of `strncpy`. -/
def strncpyPad : List U8 → Nat → Option (List U8)
  | dst, 0 => some dst
  | _ :: dst, n + 1 => (strncpyPad dst n).map (List.cons 0#8)
  | [], _ + 1 => none

/-- `strncpy`.  The first loop does not count the NUL that ends it, so a short
source is padded to `n + 1` bytes. -/
def strncpy : List U8 → List U8 → Nat → Option (List U8)
  | dst, _, 0 => some dst
  | _ :: dst, c :: src, n + 1 =>
    if c = 0#8 then (strncpyPad dst (n + 1)).map (List.cons c)
    else (strncpy dst src n).map (List.cons c)
  | _, _, _ + 1 => none

@[simp] theorem text_zero (a : List U8) : text (0#8 :: a) = [] := rfl

@[simp] theorem text_cons {c : U8} (h : c ≠ 0#8) (a : List U8) : text (c :: a) = c :: text a := by
  simp [text, h]

theorem zero_notMem_text (a : List U8) : 0#8 ∉ text a := by
  intro h
  have hne := List.mem_takeWhile_imp h
  simp at hne

theorem text_append_zero {s : List U8} (h : 0#8 ∉ s) (a : List U8) : text (s ++ 0#8 :: a) = s := by
  induction s with
  | nil => rfl
  | cons c s ih =>
    rw [List.mem_cons, not_or] at h
    obtain ⟨hc, hs⟩ := h
    rw [List.cons_append, text_cons (Ne.symm hc), ih hs]

/-- **`strcmp` compares strings.** -/
theorem strcmp_eq_zero_iff {a b : List U8} (ha : 0#8 ∈ a) (hb : 0#8 ∈ b) :
    strcmp a b = some 0 ↔ text a = text b := by
  induction a generalizing b with
  | nil => cases ha
  | cons x a ih =>
    cases b with
    | nil => cases hb
    | cons y b =>
      rw [strcmp]
      by_cases hx : x = 0#8
      · subst hx
        by_cases hy : y = 0#8
        · subst hy
          simp
        · have hpos : y.toNat ≠ 0 := fun h => hy (BitVec.eq_of_toNat_eq h)
          simp [hy, hpos]
      · by_cases hxy : x = y
        · subst hxy
          have ha' : 0#8 ∈ a := (List.mem_cons.mp ha).resolve_left (Ne.symm hx)
          have hb' : 0#8 ∈ b := (List.mem_cons.mp hb).resolve_left (Ne.symm hx)
          simp [hx, ih ha' hb']
        · -- the first difference
          have hdiff : (x.toNat : Int) - (y.toNat : Int) ≠ 0 := by
            have hne : x.toNat ≠ y.toNat := fun h => hxy (BitVec.eq_of_toNat_eq h)
            omega
          have htext : text (x :: a) ≠ text (y :: b) := by
            rw [text_cons hx]
            by_cases hy : y = 0#8
            · simp [hy]
            · simp [hy, hxy]
          simp [hxy, hdiff, htext]

theorem strncpyPad_all (dst : List U8) :
    strncpyPad dst dst.length = some (List.replicate dst.length 0#8) := by
  induction dst with
  | nil => rfl
  | cons x dst ih =>
    rw [List.length_cons, strncpyPad, ih]
    rfl

/-- **Filling a field.**  Into an array of `n + 1` bytes that ends in a NUL, `strncpy`
puts the first `n` characters of the source and NULs. -/
theorem strncpy_field {dst src : List U8} {n : Nat} (hlen : dst.length = n + 1)
    (hlast : dst.getLast? = some 0#8) (hsrc : 0#8 ∈ src) : strncpy dst src n =
      some ((text src).take n ++ List.replicate (n + 1 - ((text src).take n).length) 0#8) := by
  induction n generalizing dst src with
  | zero =>
    obtain ⟨x, rfl⟩ := List.length_eq_one_iff.mp hlen
    cases hlast
    rfl
  | succ n ih =>
    obtain ⟨x, dst, rfl⟩ := List.exists_cons_of_length_eq_add_one hlen
    obtain ⟨c, src, rfl⟩ := List.exists_cons_of_ne_nil (List.ne_nil_of_mem hsrc)
    rw [List.length_cons, Nat.add_right_cancel_iff] at hlen
    rw [strncpy]
    by_cases hc : c = 0#8
    · subst hc
      rw [if_pos rfl, ← hlen, strncpyPad_all, text_zero, List.take_nil]
      rfl
    · have hlast' : dst.getLast? = some 0#8 := by
        rwa [List.getLast?_cons_of_ne_nil (List.ne_nil_of_length_eq_add_one hlen)] at hlast
      have hsrc' : 0#8 ∈ src := (List.mem_cons.mp hsrc).resolve_left (Ne.symm hc)
      rw [if_neg hc, ih hlen hlast' hsrc', text_cons hc, List.take_succ_cons, List.length_cons,
        Nat.add_sub_add_right]
      rfl

end LibString

/-- A NUL-terminated string. -/
@[ext]
structure CStr where
  chars : List U8
  noNul : 0#8 ∉ chars
deriving DecidableEq

namespace CStr

/-- The array that a pointer to the string leads to. -/
def array (s : CStr) : List U8 := s.chars ++ [0#8]

theorem zero_mem_array (s : CStr) : 0#8 ∈ s.array := by simp [array]

@[simp] theorem text_array (s : CStr) : LibString.text s.array = s.chars :=
  LibString.text_append_zero s.noNul []

/-- `strcmp(s, t) == 0` -/
def same (s t : CStr) : Bool := LibString.strcmp s.array t.array = some 0

theorem same_iff (s t : CStr) : s.same t = true ↔ s = t := by
  simp [same, LibString.strcmp_eq_zero_iff, zero_mem_array, CStr.ext_iff]

end CStr

/-- A field `char name[N]` whose last byte is NUL. -/
structure Name (N : Nat) where
  bytes : List U8
  length_eq : bytes.length = N
  terminated : bytes.getLast? = some 0#8
deriving DecidableEq

namespace Name

open LibString Option

variable {N : Nat}

/-- A field of static memory that was not written yet. -/
def blank (n : Nat) : Name (n + 1) where
  bytes := List.replicate (n + 1) 0#8
  length_eq := List.length_replicate
  terminated := by rw [List.getLast?_replicate, if_neg (Nat.succ_ne_zero n)]

theorem zero_mem (f : Name N) : 0#8 ∈ f.bytes := List.mem_of_getLast? f.terminated

/-- The string in the field. -/
def str (f : Name N) : CStr := ⟨text f.bytes, zero_notMem_text f.bytes⟩

/-- `strcmp(field, s) == 0` -/
def is (f : Name N) (s : CStr) : Bool := strcmp f.bytes s.array = some 0

theorem is_iff (f : Name N) (s : CStr) : f.is s = true ↔ f.str = s := by
  rw [is, decide_eq_true_iff, strcmp_eq_zero_iff f.zero_mem s.zero_mem_array, CStr.text_array]
  exact (CStr.ext_iff (x := f.str)).symm

/-- What is left of a string in a field. -/
def cut (s : CStr) (n : Nat) : CStr := ⟨s.chars.take n, fun h => s.noNul (List.mem_of_mem_take h)⟩

theorem cut_eq_self_iff (s : CStr) (n : Nat) : cut s n = s ↔ s.chars.length ≤ n := by
  rw [CStr.ext_iff]
  exact List.take_eq_self_iff _

/-- The bytes of a field after `strncpy`. -/
def filled (s : CStr) (n : Nat) : List U8 :=
  s.chars.take n ++ List.replicate (n + 1 - (s.chars.take n).length) 0#8

theorem strncpy_bytes {n : Nat} (f : Name (n + 1)) (s : CStr) :
    strncpy f.bytes s.array n = some (filled s n) := by
  rw [strncpy_field f.length_eq f.terminated s.zero_mem_array, CStr.text_array]
  rfl

theorem filled_tail (s : CStr) (n : Nat) :
    filled s n = s.chars.take n ++ 0#8 :: List.replicate (n - (s.chars.take n).length) 0#8 := by
  have hle := List.length_take_le n s.chars
  rw [filled, Nat.succ_sub hle]
  rfl

/-- `strncpy(field, s, sizeof(field) - 1)` -/
def set {n : Nat} (f : Name (n + 1)) (s : CStr) : Name (n + 1) where
  bytes := (strncpy f.bytes s.array n).getD []
  length_eq := by
    have hle := List.length_take_le n s.chars
    rw [strncpy_bytes, getD_some, filled, List.length_append, List.length_replicate]
    omega
  terminated := by
    have hle := List.length_take_le n s.chars
    rw [strncpy_bytes, getD_some, filled, List.getLast?_append, List.getLast?_replicate,
      if_neg (by omega)]
    rfl

/-- **A field holds the string up to its length**, whatever was there before. -/
@[simp] theorem str_set {n : Nat} (f : Name (n + 1)) (s : CStr) : (f.set s).str = cut s n := by
  apply CStr.ext
  show text ((strncpy f.bytes s.array n).getD []) = s.chars.take n
  rw [strncpy_bytes, getD_some, filled_tail]
  exact text_append_zero (fun h => s.noNul (List.mem_of_mem_take h)) _

end Name
