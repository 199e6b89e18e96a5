import Mathlib.Data.BitVec
import Mathlib.Tactic.IntervalCases

/-!
# Machine words and byte order

The fixed-width types of `lib/types.h` are bit vectors.  The host is a
little-endian x86-64, so a multi-byte field of a packed structure sits in
memory lowest byte first (`store16`, `store32`); the network wants the
opposite order, which the kernel obtains by swapping the value before the
store (`htons`, `htonl` of `ethernet_internal.h`).  The two facts used
everywhere else are that a swapped value stored natively reads big-endian on
the wire, and that a load undoes a store.
-/

abbrev U8 := BitVec 8
abbrev U16 := BitVec 16
abbrev U32 := BitVec 32
abbrev U64 := BitVec 64

namespace ByteOrder

def htons (v : U16) : U16 := (v >>> 8) ||| (v <<< 8)

def ntohs (v : U16) : U16 := (v >>> 8) ||| (v <<< 8)

def htonl (v : U32) : U32 := ((v &&& 0x000000FF) <<< 24) ||| ((v &&& 0x0000FF00) <<< 8) |||
    ((v &&& 0x00FF0000) >>> 8) ||| ((v &&& 0xFF000000) >>> 24)

def ntohl (v : U32) : U32 := htonl v

/-- Byte `k` of a word, counted from the least significant one. -/
def byteAt {w : Nat} (v : BitVec w) (k : Nat) : U8 := v.extractLsb' (8 * k) 8

/-- The memory image of a native 16-bit store. -/
def store16 (v : U16) : List U8 := [byteAt v 0, byteAt v 1]

/-- The memory image of a native 32-bit store. -/
def store32 (v : U32) : List U8 := [byteAt v 0, byteAt v 1, byteAt v 2, byteAt v 3]

/-- A native 16-bit load from two consecutive bytes. -/
def load16 (b0 b1 : U8) : U16 := (b1.setWidth 16 <<< 8) ||| b0.setWidth 16

/-- A native 32-bit load from four consecutive bytes. -/
def load32 (b0 b1 b2 b3 : U8) : U32 := (b3.setWidth 32 <<< 24) ||| (b2.setWidth 32 <<< 16) |||
    (b1.setWidth 32 <<< 8) ||| b0.setWidth 32

theorem load16_store16 (v : U16) : load16 (byteAt v 0) (byteAt v 1) = v := by
  ext i hi
  interval_cases i <;> simp [load16, byteAt]

theorem load32_store32 (v : U32) :
    load32 (byteAt v 0) (byteAt v 1) (byteAt v 2) (byteAt v 3) = v := by
  ext i hi
  interval_cases i <;> simp [load32, byteAt]

theorem ntohs_htons (v : U16) : ntohs (htons v) = v := by
  ext i hi
  interval_cases i <;> simp [ntohs, htons]

theorem ntohl_htonl (v : U32) : ntohl (htonl v) = v := by
  ext i hi
  interval_cases i <;> simp [ntohl, htonl]

/-- A swapped 16-bit value stored natively reads big-endian. -/
theorem store16_htons (v : U16) : store16 (htons v) = [byteAt v 1, byteAt v 0] := by
  have h0 : byteAt (htons v) 0 = byteAt v 1 := by
    ext i hi
    interval_cases i <;> simp [htons, byteAt]
  have h1 : byteAt (htons v) 1 = byteAt v 0 := by
    ext i hi
    interval_cases i <;> simp [htons, byteAt]
  rw [store16, h0, h1]

/-- A swapped 32-bit value stored natively reads big-endian. -/
theorem store32_htonl (v : U32) :
    store32 (htonl v) = [byteAt v 3, byteAt v 2, byteAt v 1, byteAt v 0] := by
  have h0 : byteAt (htonl v) 0 = byteAt v 3 := by
    ext i hi
    interval_cases i <;> simp [htonl, byteAt]
  have h1 : byteAt (htonl v) 1 = byteAt v 2 := by
    ext i hi
    interval_cases i <;> simp [htonl, byteAt]
  have h2 : byteAt (htonl v) 2 = byteAt v 1 := by
    ext i hi
    interval_cases i <;> simp [htonl, byteAt]
  have h3 : byteAt (htonl v) 3 = byteAt v 0 := by
    ext i hi
    interval_cases i <;> simp [htonl, byteAt]
  rw [store32, h0, h1, h2, h3]

end ByteOrder
