import NamelessOS.SerialNumber
import NamelessOS.TcpReceiveStream

/-!
# Segments that straddle `rcv_nxt`

`tcp_rx` accepts payload only of a segment that starts at `rcv_nxt`.  A segment that starts
before it and ends behind it carries new data, too: it is what a sender repeats when only
the front of its segment fitted into the ring.  Its new part is dropped, whatever room
there is.
-/

namespace Tcp

open SerialNumber Runs List
open BitVec (ofNat)

/-- Where in the payload the data begins that is still expected. -/
def restOffset (c : TcpConn) (seg : Segment) : Nat := ahead seg.seq c.rcvNxt

/-- The segment starts at or before `rcv_nxt` and ends behind it. -/
def Straddles (c : TcpConn) (seg : Segment) : Prop := restOffset c seg < seg.data.length

instance (c : TcpConn) (seg : Segment) : Decidable (Straddles c seg) :=
    inferInstanceAs (Decidable (_ < _))

/-- How many of the expected bytes fit. -/
def restLen (c : TcpConn) (seg : Segment) : Nat := min (seg.data.length - restOffset c seg) (rxFree c)

/-- **The expected part of the payload is appended to the ring**, up to the free space, and
`rcv_nxt` moves by as much. -/
structure TakesRest (c : TcpConn) (seg : Segment) (d : TcpConn) : Prop where
  ring : d.rx.contents = c.rx.contents ++ (seg.data.drop (restOffset c seg)).take (restLen c seg)
  rcvNxt : d.rcvNxt = c.rcvNxt + ofNat 32 (restLen c seg)

/-- A plain data segment of a connection that receives: data processing runs, and nothing
after it. -/
theorem rxConn_data (env : Env) (id : ConnIdx) {c : TcpConn} {seg : Segment} (srcIp dstIp : U32)
    (hrecv : receives c.state = true) (hrst : seg.has tcpRst = false) (hfin : seg.has tcpFin = false) :
    (rxConn env id c seg srcIp dstIp).1.rx = c.rx.pushAll (seg.data.take (acceptLen c seg)) ∧
      (rxConn env id c seg srcIp dstIp).1.rcvNxt = c.rcvNxt + ofNat 32 (acceptLen c seg) := by
  have hstate : c.state ≠ .synSent ∧ c.state ≠ .synRcvd ∧ c.state ≠ .lastAck := by
    refine ⟨?_, ?_, ?_⟩
    all_goals
      intro h
      rw [h] at hrecv
      cases hrecv
  have hpro : rxPrologue env id c seg srcIp dstIp = .next (ackUpdate env c seg) := by
    unfold rxPrologue rxSynRcvd
    rw [hrst, if_neg Bool.false_ne_true, if_neg hstate.1, if_neg hstate.2.1]
    dsimp only
    rw [rxAck_eq, if_neg (fun h => hstate.2.2 h.2.1)]
  have haccept : acceptLen (ackUpdate env c seg) seg = acceptLen c seg := by
    simp [acceptLen, rxFree, receives_ackNextState]
  unfold rxConn rxFin
  rw [hpro, hfin]
  dsimp only
  rw [if_neg Bool.false_ne_true, rxData_fst, haccept, ackUpdate_rx, ackUpdate_rcvNxt]
  exact ⟨rfl, rfl⟩

/-- What `tcp_rx` does to the slot a segment belongs to. -/
theorem tcpRx_conns {env : Env} {t : Table} {payload : Buffer} {srcIp dstIp : U32} {seg : Segment}
    {i : ConnIdx} (hparse : parseSegment payload = some seg)
    (hlookup : (lookup t seg srcIp (List.finRange tcpMaxConn) none).1 = some i) :
    (tcpRx env t payload srcIp dstIp).1.conns i = (rxConn env i (t.conns i) seg srcIp dstIp).1 := by
  unfold tcpRx
  grind [Table.set_same]

section Taken

variable {c : TcpConn} {seg : Segment}

/-- A segment that starts at `rcv_nxt` is taken as it should be. -/
theorem restLen_in_order (hrecv : receives c.state = true) (hseq : seg.seq = c.rcvNxt) :
    restOffset c seg = 0 ∧ restLen c seg = acceptLen c seg := by
  have hoff : restOffset c seg = 0 := by
    rw [restOffset, hseq, ahead_self]
  refine ⟨hoff, ?_⟩
  rw [restLen, hoff, acceptLen, if_pos ⟨hrecv, hseq⟩, Nat.sub_zero]

/-- Any other is dropped. -/
theorem acceptLen_out_of_order (hseq : seg.seq ≠ c.rcvNxt) : acceptLen c seg = 0 :=
  if_neg (fun h => hseq h.2)

/-- **What is taken**, by what data processing accepts. -/
theorem takesRest_iff {d : TcpConn} (hrecv : receives c.state = true) (hstraddles : Straddles c seg)
    (hrx : d.rx = c.rx.pushAll (seg.data.take (acceptLen c seg)))
    (hrcv : d.rcvNxt = c.rcvNxt + ofNat 32 (acceptLen c seg)) :
    TakesRest c seg d ↔ seg.seq = c.rcvNxt ∨ rxFree c = 0 := by
  have hring : d.rx.contents = c.rx.contents ++ seg.data.take (acceptLen c seg) := by
    rw [hrx, contents_accept]
  by_cases hseq : seg.seq = c.rcvNxt
  · obtain ⟨hoff, hlen⟩ := restLen_in_order hrecv hseq
    refine iff_of_true ⟨?_, ?_⟩ (.inl hseq)
    · rw [hring, hoff, hlen, drop_zero]
    · rw [hrcv, hlen]
  · rw [acceptLen_out_of_order hseq, take_zero, append_nil] at hring
    rw [acceptLen_out_of_order hseq] at hrcv
    constructor
    · intro h
      -- nothing was appended, so nothing was to be appended
      have hnone := h.ring
      rw [hring, self_eq_append_right, take_eq_nil_iff, drop_eq_nil_iff] at hnone
      unfold Straddles at hstraddles
      grind [restLen]
    · rintro (heq | hfull)
      · exact absurd heq hseq
      · have hzero : restLen c seg = 0 := by
          rw [restLen, hfull]
          exact Nat.min_zero _
        refine ⟨?_, ?_⟩
        · rw [hring, hzero, take_zero, append_nil]
        · rw [hrcv, hzero]

end Taken

/-- **Retransmissions that straddle `rcv_nxt`** are taken exactly when they do not reach
back before it, or when there is no room anyway. -/
theorem straddling_segment_taken_iff (env : Env) (t : Table) (payload : Buffer) (srcIp dstIp : U32)
    (seg : Segment) (i : ConnIdx) (hparse : parseSegment payload = some seg)
    (hlookup : (lookup t seg srcIp (List.finRange tcpMaxConn) none).1 = some i)
    (hrecv : receives (t.conns i).state = true)
    (hflags : seg.has tcpSyn = false ∧ seg.has tcpRst = false ∧ seg.has tcpFin = false)
    (hstraddles : Straddles (t.conns i) seg) :
    TakesRest (t.conns i) seg ((tcpRx env t payload srcIp dstIp).1.conns i) ↔
      seg.seq = (t.conns i).rcvNxt ∨ rxFree (t.conns i) = 0 := by
  obtain ⟨hrx, hrcv⟩ := rxConn_data env i srcIp dstIp hrecv hflags.2.1 hflags.2.2
  rw [tcpRx_conns hparse hlookup]
  exact takesRest_iff hrecv hstraddles hrx hrcv

/-! ## A segment that was taken in part -/

/-- The bytes 1, 2, 3, 4 from sequence number 100 on. -/
def fourBytes : Buffer := ⟨(sampleHdr tcpAck 100).bytes ++ [1, 2, 3, 4], by decide⟩

def fourBytesSegment : Segment := ⟨5000, 80, 100, 0, 0, tcpAck, [1, 2, 3, 4]⟩

theorem parse_fourBytes : parseSegment fourBytes = some fourBytesSegment := by decide +kernel

/-- A connection that expects sequence number 100. -/
def expecting : Table := initTable.set 0 (sampleConn 100)

theorem straddling_segment_taken_in_order :
    parseSegment fourBytes = some fourBytesSegment ∧ Straddles (expecting.conns 0) fourBytesSegment ∧
      TakesRest (expecting.conns 0) fourBytesSegment
        ((tcpRx quietEnv expecting fourBytes 7 9).1.conns 0) := by
  refine ⟨parse_fourBytes, by decide, ?_⟩
  rw [straddling_segment_taken_iff quietEnv expecting fourBytes 7 9 fourBytesSegment 0 parse_fourBytes
    (by decide) (by decide) (by decide) (by decide)]
  exact .inl rfl

/-- The same connection with room for two bytes only. -/
def nearlyFull : Table :=
  initTable.set 0 { sampleConn 100 with rx := { (sampleConn 100).rx with tail := ⟨4093, by decide⟩ } }

/-- The segment is taken in part, and everything is read. -/
def drained : Table := run step nearlyFull [⟨quietEnv, .rx fourBytes 7 9⟩, ⟨quietEnv, .read 0 4096⟩]

/-- The retransmission straddles `rcv_nxt`, the ring is empty, and nothing is taken. -/
theorem rest_of_segment_dropped :
    (drained.conns 0).state = .established ∧ (drained.conns 0).rcvNxt = 102 ∧
      (drained.conns 0).rx.contents = [] ∧ parseSegment fourBytes = some fourBytesSegment ∧
      Straddles (drained.conns 0) fourBytesSegment ∧
      ((tcpRx quietEnv drained fourBytes 7 9).1.conns 0).rcvNxt = 102 ∧
      ((tcpRx quietEnv drained fourBytes 7 9).1.conns 0).rx.contents = [] ∧
      ¬ TakesRest (drained.conns 0) fourBytesSegment
        ((tcpRx quietEnv drained fourBytes 7 9).1.conns 0) := by
  have hrcv : ((tcpRx quietEnv drained fourBytes 7 9).1.conns 0).rcvNxt = 102 := by decide +kernel
  have hlen : (drained.conns 0).rcvNxt + ofNat 32 (restLen (drained.conns 0) fourBytesSegment) =
      104 := by
    decide +kernel
  refine ⟨by decide +kernel, by decide +kernel, by decide +kernel,
    parse_fourBytes, by decide +kernel, hrcv,
    by decide +kernel, ?_⟩
  intro htakes
  have hmoved := htakes.rcvNxt
  rw [hrcv, hlen] at hmoved
  cases hmoved

end Tcp
