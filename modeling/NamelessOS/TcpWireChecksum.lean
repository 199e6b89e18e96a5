import NamelessOS.TcpTable

/-!
# TCP checksums on the wire

`tcp_checksum` sums big-endian words, but its result is stored into the
packed header without a byte swap, so the two checksum bytes leave the
machine in the opposite order.  What a receiver then sees is settled by
`fold16_add_swapped_complement`: the segment verifies exactly when the word
sum of its pseudo-header and bytes, with the checksum field still zero,
vanishes modulo `257`, that is, when its even-offset and odd-offset bytes have
congruent sums.  `wire_checksum_iff` states this for every segment the stack
emits; `ack_checksum_fails` is an ordinary ACK that does not verify.
-/

namespace Tcp

open ByteOrder OnesComplement List
open BitVec (ofNat)

/-- The even-offset and the odd-offset bytes of pseudo-header and segment
have congruent sums modulo `257`. -/
def LanesAgree (srcIp dstIp : U32) (seg : List U8) : Prop :=
  let bytes := pseudoHeader srcIp dstIp (ofNat 16 seg.length) ++ seg
  highLane bytes % 257 = lowLane bytes % 257

/-- A segment handed to `ipv4_send` verifies at its receiver. -/
def Output.Verifies (srcIp : U32) : Output → Prop
  | .ipv4Send dstIp seg => Tcp.Verifies srcIp dstIp seg
  | _ => True

variable {seg : List U8}

theorem storeChecksum_split (h : tcpHdrLen ≤ seg.length) (ck : U16) : storeChecksum seg ck =
      seg.take 16 ++ (byteAt ck 0 :: byteAt ck 1 :: seg.drop 18) := by
  have hlen : 20 ≤ seg.length := h
  have hfront : (seg.take 16).length = 16 := by
    rw [length_take]
    omega
  have htake : (seg.set 16 (byteAt ck 0)).take 17 = seg.take 16 ++ [byteAt ck 0] := by
    rw [set_eq_take_append_cons_drop, if_pos (by omega), take_append, hfront]
    simp
  unfold storeChecksum
  rw [set_eq_take_append_cons_drop, if_pos (by rw [length_set]; omega),
    htake, drop_set_of_lt (by omega)]
  simp

theorem bytes_swapped (ck : U16) :
    (byteAt ck 0).toNat * 256 + (byteAt ck 1).toNat = swap16 ck.toNat := by
  simp only [byteAt, swap16, BitVec.extractLsb'_toNat, Nat.shiftRight_eq_div_pow]
  omega

theorem beWordSum_storeChecksum (h : tcpHdrLen ≤ seg.length) (ck : U16) :
    beWordSum (storeChecksum seg ck) = beWordSum (storeChecksum seg 0) + swap16 ck.toNat := by
  have hlen : 20 ≤ seg.length := h
  have hzero : swap16 (0 : U16).toNat = 0 := rfl
  grind [storeChecksum_split, beWordSum_append, beWordSum, bytes_swapped]

/-- A segment completed with the byte-swapped complement of its sum verifies
exactly when its lanes agree. -/
theorem verifies_storeChecksum_iff (srcIp dstIp : U32) {ck : U16} (hlen : tcpHdrLen ≤ seg.length)
    (hck : ck.toNat = complement16 (beWordSum
      (pseudoHeader srcIp dstIp (ofNat 16 seg.length) ++ storeChecksum seg 0))) :
    Verifies srcIp dstIp (storeChecksum seg ck) ↔ LanesAgree srcIp dstIp (storeChecksum seg 0) := by
  have hph : (pseudoHeader srcIp dstIp (ofNat 16 seg.length)).length % 2 = 0 := by
    simp [pseudoHeader]
  have hpos := beWordSum_pseudoHeader_pos srcIp dstIp (ofNat 16 seg.length)
    (storeChecksum seg 0)
  have hsum : beWordSum
      (pseudoHeader srcIp dstIp (ofNat 16 seg.length) ++ storeChecksum seg ck)
        = beWordSum (pseudoHeader srcIp dstIp (ofNat 16 seg.length) ++
            storeChecksum seg 0) + swap16 ck.toNat := by
    rw [beWordSum_append _ hph, beWordSum_append _ hph, beWordSum_storeChecksum hlen ck]
    omega
  rw [Verifies, LanesAgree, storeChecksum_length, storeChecksum_length, hsum, hck,
    fold16_add_swapped_complement hpos, beWordSum_mod]

/-- What `tcp_send_raw` sends. -/
theorem fillChecksum_verifies_iff (c : TcpConn)
    (hlen : tcpHdrLen ≤ seg.length) (hshort : seg.length < 65536) :
    Verifies c.localIp c.remoteIp (fillChecksum c seg) ↔
      LanesAgree c.localIp c.remoteIp (storeChecksum seg 0) := by
  rw [fillChecksum, storeChecksum_twice]
  apply verifies_storeChecksum_iff _ _ hlen
  rw [tcpChecksum_toNat _ _ (by simpa using hshort), storeChecksum_length]

theorem storeChecksum_bytes_zero {h : TcpHdr} (hzero : h.checksum = 0) :
    storeChecksum h.bytes 0 = h.bytes := by
  simp [storeChecksum, TcpHdr.bytes, store16, store32, hzero]

/-- What `send_rst_reply` sends. -/
theorem sendRstReply_verifies_iff (srcIp : U32) (srcPort : U16) (dstIp : U32)
    (dstPort : U16) (seq ack : U32) (flags : U8) :
    (sendRstReply srcIp srcPort dstIp dstPort seq ack flags).Verifies dstIp ↔
      LanesAgree dstIp srcIp (rstHdr srcPort dstPort seq ack flags).bytes := by
  have hzero : (rstHdr srcPort dstPort seq ack flags).checksum = 0 := rfl
  have hlen : (rstHdr srcPort dstPort seq ack flags).bytes.length = tcpHdrLen := rfl
  have hck : (csumFinish (csumAdd (csumAdd 0 (pseudoHeader dstIp srcIp
      (ofNat 16 tcpHdrLen))) (rstHdr srcPort dstPort seq ack flags).bytes)).toNat
        = complement16 (beWordSum (pseudoHeader dstIp srcIp (ofNat 16
            (rstHdr srcPort dstPort seq ack flags).bytes.length) ++
              storeChecksum (rstHdr srcPort dstPort seq ack flags).bytes 0)) := by
    rw [csumFinish_toNat, csumAdd_segment_toNat _ _ _ (by rw [hlen]; decide), hlen,
      storeChecksum_bytes_zero hzero]
  have hiff := verifies_storeChecksum_iff dstIp srcIp (Nat.le_of_eq hlen.symm) hck
  exact hiff

/-- **When emitted segments verify.**  A segment handed to `ipv4_send` by
`tcp_send_raw` (control, data or retransmission), or by `send_rst_reply`,
passes the receiver's test exactly when the even-offset and odd-offset bytes
of its pseudo-header and of itself, the checksum field counted as zero, have
congruent sums modulo `257`. -/
theorem wire_checksum_iff (c : TcpConn) (seg : Buffer) (srcIp : U32) (srcPort : U16) (dstIp : U32)
    (dstPort : U16) (seq ack : U32) (flags : U8) : (tcpHdrLen ≤ seg.bytes.length →
      ((tcpSendRaw c seg.bytes).Verifies c.localIp ↔
        LanesAgree c.localIp c.remoteIp (storeChecksum seg.bytes 0))) ∧
    ((sendRstReply srcIp srcPort dstIp dstPort seq ack flags).Verifies dstIp ↔
      LanesAgree dstIp srcIp (rstHdr srcPort dstPort seq ack flags).bytes) :=
  ⟨fun hlen => fillChecksum_verifies_iff c hlen seg.short,
    sendRstReply_verifies_iff srcIp srcPort dstIp dstPort seq ack flags⟩

/-- The addresses of a guest behind a user-mode network: 10.0.2.15 and its
gateway. -/
def guestConn : TcpConn :=
  { bssConn with
    state := .established, localIp := 0x0A00020F, localPort := 80
    remoteIp := 0x0A000202, remotePort := 5000 }

/-- An ACK of that connection whose checksum bytes happen to be equal. -/
theorem ack_checksum_verifies :
    (tcpSendRaw guestConn (connHdr guestConn tcpAck 119 2).bytes).Verifies
      guestConn.localIp :=
  ((wire_checksum_iff guestConn ⟨(connHdr guestConn tcpAck 119 2).bytes, by decide⟩
    0 0 0 0 0 0 0).1 (by decide)).mpr (by unfold LanesAgree; decide)

/-- The first ACK on that connection is rejected by its receiver. -/
theorem ack_checksum_fails : ¬ (sendCtrl guestConn tcpAck 1 2).Verifies guestConn.localIp := by
  intro h
  have hagree := (fillChecksum_verifies_iff guestConn le_rfl (by decide)).mp h
  exact absurd hagree (by unfold LanesAgree; decide)

end Tcp
