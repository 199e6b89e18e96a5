import NamelessOS.ByteOrder
import NamelessOS.RingBuffer

/-!
# The keyboard driver

`keyboard_irq_handler` turns make codes into characters and stores them in a
ring; `keyboard_getc` takes them out.  Here `head` is the write index and `tail`
the read index, the other way round than in a `RingBuffer`; `Keyboard.ring`
crosses over.
-/

namespace Keyboard

def kbScMax : Nat := 0x58
def kbBufSize : Nat := 256
def kbBufMask : Nat := kbBufSize - 1

/-- Scancode set 1 to ASCII; 0 where there is no character. -/
def scToAscii : List U8 :=
  [0x00, 0x1B, 0x31, 0x32, 0x33, 0x34, 0x35, 0x36, 0x37, 0x38, 0x39, 0x30, 0x2D, 0x3D, 0x08, 0x09,
   0x71, 0x77, 0x65, 0x72, 0x74, 0x79, 0x75, 0x69, 0x6F, 0x70, 0x5B, 0x5D, 0x0A, 0x00, 0x61, 0x73,
   0x64, 0x66, 0x67, 0x68, 0x6A, 0x6B, 0x6C, 0x3B, 0x27, 0x60, 0x00, 0x5C, 0x7A, 0x78, 0x63, 0x76,
   0x62, 0x6E, 0x6D, 0x2C, 0x2E, 0x2F, 0x00, 0x2A, 0x00, 0x20, 0x00, 0x00, 0x00, 0x00, 0x00, 0x00,
   0x00, 0x00, 0x00, 0x00, 0x00, 0x00, 0x00, 0x37, 0x38, 0x39, 0x2D, 0x34, 0x35, 0x36, 0x2B, 0x31,
   0x32, 0x33, 0x30, 0x2E, 0x00, 0x00, 0x00, 0x00]

end Keyboard

/-- `kb_buf` and its two indices. -/
structure Keyboard where
  buf : Fin Keyboard.kbBufSize → U8
  /-- write index -/
  head : Fin Keyboard.kbBufSize
  /-- read index -/
  tail : Fin Keyboard.kbBufSize

namespace Keyboard

/-- `(i + 1) & KB_BUF_MASK`. -/
def next (i : Fin kbBufSize) : Fin kbBufSize :=
  ⟨(i.val + 1) &&& kbBufMask, Nat.lt_of_le_of_lt Nat.and_le_right (by decide)⟩

def bufPush (k : Keyboard) (ch : U8) : Keyboard :=
  if next k.head = k.tail then k   -- buffer full: drop
  else { k with buf := Function.update k.buf k.head ch, head := next k.head }

/-- The character that a scancode stores, if any. -/
def asciiOf (sc : U8) : Option U8 :=
  -- key releases and the extended code
  if sc &&& 0x80#8 ≠ 0#8 then none
  else if sc = 0xE0#8 then none
  else if sc.toNat < kbScMax then
    if scToAscii.getD sc.toNat 0#8 ≠ 0#8 then some (scToAscii.getD sc.toNat 0#8) else none
  else none

/-- `keyboard_irq_handler`, with the byte read from the data port. -/
def keyboardIrqHandler (k : Keyboard) (sc : U8) : Keyboard :=
  match asciiOf sc with
  | none => k
  | some ch => k.bufPush ch

/-- `keyboard_getc`; `none` for -1. -/
def keyboardGetc (k : Keyboard) : Option U8 × Keyboard :=
  if k.tail = k.head then (none, k)
  else (some (k.buf k.tail), { k with tail := next k.tail })

/-! ## The queue of characters -/

/-- The ring with the indices by their roles. -/
def ring (k : Keyboard) : RingBuffer U8 kbBufSize where
  buf := k.buf
  head := k.tail
  tail := k.head

/-- The characters that wait, oldest first. -/
def waiting (k : Keyboard) : List U8 := k.ring.contents

/-- The ring is full at a push. -/
def Full (k : Keyboard) : Prop := next k.head = k.tail

instance (k : Keyboard) : Decidable k.Full := inferInstanceAs (Decidable (_ = _))

/-- Masking is the modulus, the size being a power of two. -/
theorem next_eq_wrap (i : Fin kbBufSize) : next i = RingBuffer.wrap i 1 :=
  Fin.ext (Nat.and_two_pow_sub_one_eq_mod _ 8)

theorem full_iff (k : Keyboard) : k.Full ↔ k.ring.Full := by
  rw [Full, next_eq_wrap]
  rfl

variable {k : Keyboard}

theorem bufPush_waiting (ch : U8) (hroom : ¬ k.Full) :
    (k.bufPush ch).waiting = k.waiting ++ [ch] := by
  have hpush : (k.bufPush ch).ring = k.ring.push ch := by
    rw [bufPush, if_neg (show ¬ next k.head = k.tail from hroom), next_eq_wrap]
    rfl
  rw [full_iff, RingBuffer.not_full_iff] at hroom
  rw [waiting, hpush, RingBuffer.contents_push _ _ hroom]
  rfl

theorem waiting_eq_nil_iff (k : Keyboard) : k.waiting = [] ↔ k.tail = k.head :=
  k.ring.contents_eq_nil_iff

theorem keyboardGetc_nil (h : k.waiting = []) : k.keyboardGetc = (none, k) :=
  if_pos (k.waiting_eq_nil_iff.mp h)

/-- **First in, first out.** -/
theorem keyboardGetc_cons {ch : U8} {rest : List U8} (h : k.waiting = ch :: rest) :
    k.keyboardGetc.1 = some ch ∧ k.keyboardGetc.2.waiting = rest := by
  have hne : k.tail ≠ k.head := by
    intro heq
    rw [k.waiting_eq_nil_iff.mpr heq] at h
    cases h
  have havail : 0 < k.ring.avail := by
    rw [← RingBuffer.contents_length, show k.ring.contents = ch :: rest from h]
    exact Nat.succ_pos _
  have hadvance := k.ring.contents_advance havail
  rw [show k.ring.contents = ch :: rest from h] at hadvance
  obtain ⟨hhead, hrest⟩ := List.cons.inj hadvance
  rw [keyboardGetc, if_neg hne]
  refine ⟨congrArg some hhead.symm, ?_⟩
  rw [hrest, next_eq_wrap]
  rfl

/-- **An interrupt** appends the scancode's character, if it has one and there
is room. -/
theorem keyboardIrqHandler_waiting {sc : U8} (hroom : (asciiOf sc).isSome → ¬ k.Full) :
    (k.keyboardIrqHandler sc).waiting = k.waiting ++ (asciiOf sc).toList := by
  unfold keyboardIrqHandler
  grind [bufPush_waiting]

theorem waiting_length_lt (k : Keyboard) : k.waiting.length < kbBufSize := by
  rw [waiting, RingBuffer.contents_length]
  exact k.ring.avail_lt

end Keyboard
