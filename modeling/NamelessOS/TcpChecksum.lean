import NamelessOS.OnesComplement
import NamelessOS.TcpSegment

/-!
# The checksum routine of the TCP module

`csum_add` and `tcp_checksum` of `net/tcp/tcp.c`: a 32-bit accumulator over
big-endian words, folded and complemented.  A segment length is a `u16`, so
the accumulator cannot overflow, and `tcpChecksum_toNat` identifies the
routine's result with the complement of the mathematical word sum.
-/

namespace Tcp

open ByteOrder OnesComplement BitVec
open BitVec (ofNat)

/-- `csum_add`: add a buffer, two bytes at a time, high byte first. -/
def csumAdd (sum : U32) : List U8 → U32
  | [] => sum
  | [b0] => sum + (b0.setWidth 32 <<< 8)
  | b0 :: b1 :: rest =>
    csumAdd (sum + (b0.setWidth 32 <<< 8 ||| b1.setWidth 32)) rest

theorem high_half_eq_zero_iff (sum : U32) : sum >>> 16 = 0#32 ↔ sum.toNat / 65536 = 0 := by
  rw [← toNat_inj, toNat_ushiftRight, Nat.shiftRight_eq_div_pow]
  rfl

/-- One carry step adds the high half to the low half; it cannot overflow. -/
theorem carry_step_toNat (sum : U32) : ((sum &&& 0xFFFF#32) + (sum >>> 16)).toNat
      = sum.toNat % 65536 + sum.toNat / 65536 := by
  have hmask : (sum &&& 0xFFFF#32).toNat = sum.toNat % 65536 := by
    simpa using Nat.and_two_pow_sub_one_eq_mod sum.toNat 16
  rw [toNat_add, hmask, toNat_ushiftRight, Nat.shiftRight_eq_div_pow]
  omega

/-- `while (sum >> 16) sum = (sum & 0xFFFF) + (sum >> 16)`. -/
def foldSum (sum : U32) : U32 :=
  if sum >>> 16 = 0#32 then sum
  else foldSum ((sum &&& 0xFFFF#32) + (sum >>> 16))
termination_by sum.toNat
decreasing_by
  rename_i h
  rw [high_half_eq_zero_iff] at h
  rw [carry_step_toNat]
  omega

/-- The 12 pseudo-header bytes that precede a segment in its checksum. -/
def pseudoHeader (srcIp dstIp : U32) (segLen : U16) : List U8 :=
  [byteAt srcIp 3, byteAt srcIp 2, byteAt srcIp 1, byteAt srcIp 0,
   byteAt dstIp 3, byteAt dstIp 2, byteAt dstIp 1, byteAt dstIp 0,
   0, ipprotoTcp, byteAt segLen 1, byteAt segLen 0]

/-- Fold, complement and replace zero by its other representation: the tail
shared by `tcp_checksum` and `send_rst_reply`. -/
def csumFinish (sum : U32) : U16 :=
  let result : U16 := (~~~ foldSum sum).setWidth 16
  if result = 0 then 0xFFFF#16 else result

/-- `tcp_checksum`. -/
def tcpChecksum (srcIp dstIp : U32) (seg : List U8) : U16 :=
  let sum := csumAdd 0 (pseudoHeader srcIp dstIp (ofNat 16 seg.length))
  csumFinish (csumAdd sum seg)

/-- The receiver's test: pseudo-header and segment, checksum field included,
sum to all ones. -/
def Verifies (srcIp dstIp : U32) (seg : List U8) : Prop := fold16 (beWordSum
    (pseudoHeader srcIp dstIp (ofNat 16 seg.length) ++ seg)) = 0xFFFF

theorem beWord_toNat (b0 b1 : U8) :
    (b0.setWidth 32 <<< 8 ||| b1.setWidth 32).toNat = b0.toNat * 256 + b1.toNat := by
  have h1 := b1.isLt
  have hb0 : b0.toNat % 4294967296 = b0.toNat := Nat.mod_eq_of_lt (by omega)
  have hb1 : b1.toNat % 4294967296 = b1.toNat := Nat.mod_eq_of_lt (by omega)
  have hshift : (b0.toNat <<< 8) % 4294967296 = b0.toNat <<< 8 := by
    rw [Nat.shiftLeft_eq]
    omega
  simp only [toNat_or, toNat_shiftLeft, toNat_setWidth,
    Nat.reducePow, hb0, hb1, hshift]
  rw [← Nat.shiftLeft_add_eq_or_of_lt h1, Nat.shiftLeft_eq]

/-- Without overflow the accumulator is the mathematical word sum. -/
theorem csumAdd_toNat (sum : U32) (xs : List U8)
    (h : sum.toNat + 65535 * ((xs.length + 1) / 2) < 2 ^ 32) :
    (csumAdd sum xs).toNat = sum.toNat + beWordSum xs := by
  induction xs using beWordSum.induct generalizing sum with
  | case1 => rfl
  | case2 b0 =>
    have hlt := b0.isLt
    have hword : (b0.setWidth 32 <<< 8).toNat = b0.toNat * 256 := by
      simpa using beWord_toNat b0 0
    grind [csumAdd, beWordSum]
  | case3 b0 b1 rest ih =>
    have hword := beWord_toNat b0 b1
    have h0 := b0.isLt
    have h1 := b1.isLt
    grind [csumAdd, beWordSum]

/-- The folding loop is the mathematical fold. -/
theorem foldSum_toNat (sum : U32) : (foldSum sum).toNat = fold16 sum.toNat := by
  induction sum using foldSum.induct with
  | case1 sum h =>
    rw [foldSum, if_pos h, fold16, if_pos ((high_half_eq_zero_iff sum).mp h)]
  | case2 sum h ih =>
    grind [foldSum, carry_step_toNat, fold16]

theorem csumFinish_toNat (sum : U32) : (csumFinish sum).toNat = complement16 sum.toNat := by
  have hlt := fold16_lt sum.toNat
  -- complementing 32 bits and keeping 16 is subtraction from 65535
  have hnot : ((~~~ foldSum sum).setWidth 16).toNat = 65535 - fold16 sum.toNat := by
    rw [toNat_setWidth, toNat_not, foldSum_toNat]
    omega
  simp only [csumFinish, complement16, ← hnot, ← toNat_inj]
  split <;> split <;> simp_all

/-- The pseudo-header always contributes: its protocol byte is nonzero. -/
theorem beWordSum_pseudoHeader_pos (srcIp dstIp : U32) (segLen : U16) (rest : List U8) :
    0 < beWordSum (pseudoHeader srcIp dstIp segLen ++ rest) := by
  simp [pseudoHeader, beWordSum, ipprotoTcp]

/-- Summing the pseudo-header and then the segment sums their
concatenation. -/
theorem csumAdd_segment_toNat (srcIp dstIp : U32) (segLen : U16) {seg : List U8}
    (hseg : seg.length < 65536) :
    (csumAdd (csumAdd 0 (pseudoHeader srcIp dstIp segLen)) seg).toNat =
      beWordSum (pseudoHeader srcIp dstIp segLen ++ seg) := by
  have hlen : (pseudoHeader srcIp dstIp segLen).length = 12 := rfl
  have hle := beWordSum_le (pseudoHeader srcIp dstIp segLen)
  have hhead : (csumAdd 0 (pseudoHeader srcIp dstIp segLen)).toNat
      = beWordSum (pseudoHeader srcIp dstIp segLen) := by
    rw [csumAdd_toNat 0 _ (by rw [hlen]; decide)]
    exact Nat.zero_add _
  rw [csumAdd_toNat _ _ (by rw [hhead]; omega), hhead, beWordSum_append _ (by rw [hlen])]

/-- `tcp_checksum` of a segment is the complement of the word sum of its
pseudo-header and bytes. -/
theorem tcpChecksum_toNat (srcIp dstIp : U32) {seg : List U8} (hseg : seg.length < 65536) :
    (tcpChecksum srcIp dstIp seg).toNat = complement16 (beWordSum
        (pseudoHeader srcIp dstIp (ofNat 16 seg.length) ++ seg)) := by
  rw [tcpChecksum, csumFinish_toNat, csumAdd_segment_toNat _ _ _ hseg]

end Tcp
