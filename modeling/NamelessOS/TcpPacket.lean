import NamelessOS.Ethernet
import NamelessOS.TcpTable

/-!
# `tcp_rx` on packet memory

The model of `tcp_rx` in `TcpTable` starts from the bytes of a segment.  Here
the function gets what the source gets, a pointer into the received frame and
a length: header fields and payload bytes are read where the code reads them,
and `rx_push` stores at the indices it computes.  `tcpRxAt_eq` says that on a
pointer to the whole segment nothing faults and the two agree.
-/

namespace Tcp

open ByteOrder Checked List

/-- The header checks of `tcp_rx`: the host-order fields, with the payload not
yet read, and the header length. -/
def rxHeader (p : Ptr U8) (len : U16) : Except Fault (Option (Segment × Nat)) :=
  if len.toNat < tcpHdrLen then .ok none
  else do
    let dataOff ← p.read 12
    let hdrLen := (dataOff >>> 4).toNat * 4
    if hdrLen < tcpHdrLen ∨ len.toNat < hdrLen then .ok none
    else do
      let srcPort ← p.load16 0
      let dstPort ← p.load16 2
      let seq ← p.load32 4
      let ack ← p.load32 8
      let window ← p.load16 14
      let flags ← p.read 13
      .ok (some
        ({ srcPort := ntohs srcPort, dstPort := ntohs dstPort, seq := ntohl seq,
           ack := ntohl ack, wnd := ntohs window, flags := flags, data := [] }, hdrLen))

/-- Data processing with `dataLen` payload bytes at `data`. -/
def rxDataAt (id : ConnIdx) (c : TcpConn) (seg : Segment) (data : Ptr U8) (dataLen : Nat) :
    Except Fault (TcpConn × List Output) :=
  if 0 < dataLen ∧ receives c.state then
    if seg.seq = c.rcvNxt then
      let accept := min dataLen (rxFree c)
      if 0 < accept then do
        let rx ← pushFrom c.rx data accept
        let c := { c with rx := rx, rcvNxt := c.rcvNxt + BitVec.ofNat 32 accept }
        .ok (c, callOnData c id (data.view accept) ++ [sendCtrl c tcpAck c.sndNxt c.rcvNxt])
      else .ok (c, [sendCtrl c tcpAck c.sndNxt c.rcvNxt])
    else .ok (c, [sendCtrl c tcpAck c.sndNxt c.rcvNxt])
  else .ok (c, [])

/-- `tcp_rx` once the segment has been matched to slot `id`. -/
def rxConnAt (env : Env) (id : ConnIdx) (c : TcpConn) (seg : Segment) (data : Ptr U8)
    (dataLen : Nat) (srcIp dstIp : U32) : Except Fault (TcpConn × List Output) :=
  match rxPrologue env id c seg srcIp dstIp with
  | .ret c out => .ok (c, out)
  | .next c => do
      let (c, dataOut) ← rxDataAt id c seg data dataLen
      let (c, finOut) := rxFin env id c seg
      .ok (c, dataOut ++ finOut)

/-- `tcp_rx`. -/
def tcpRxAt (env : Env) (t : Table) (p : Ptr U8) (len : U16) (srcIp dstIp : U32) :
    Except Fault (Table × List Output) := do
  match ← rxHeader p len with
  | none => .ok (t, [])
  | some (seg, hdrLen) =>
    match lookup t seg srcIp (List.finRange tcpMaxConn) none with
    | (some i, _) => do
        let (c, out) ← rxConnAt env i (t.conns i) seg (p.add hdrLen) (len.toNat - hdrLen)
          srcIp dstIp
        .ok (t.set i c, out)
    | (none, lstn) => .ok (rxUnmatched env t lstn seg srcIp dstIp)

/-! ## Agreement with the model on bytes -/

/-- A segment with its payload filled in. -/
def Segment.withData (seg : Segment) (data : List U8) : Segment := { seg with data := data }

/-- The bytes of a packet in memory. -/
def packetBytes (p : Ptr U8) (len : U16) : Buffer where
  bytes := p.view len.toNat
  short := by
    rw [Ptr.view, length_take]
    exact Nat.lt_of_le_of_lt (Nat.min_le_left _ _) len.isLt

variable {p data : Ptr U8}

/-- The header of a whole segment is read without fault, and filling in the
payload gives what `parseSegment` reads from the bytes. -/
theorem rxHeader_eq {len : U16} (h : p.Has len.toNat) : ∃ r, rxHeader p len = .ok r ∧
      parseSegment (packetBytes p len) = r.map (fun s =>
        s.1.withData ((p.add s.2).view (len.toNat - s.2))) ∧
      ∀ s ∈ r, s.2 ≤ len.toNat := by
  have hlen : (packetBytes p len).bytes.length = len.toNat := Ptr.view_length h
  simp only [rxHeader, parseSegment, hlen, gt_iff_lt]
  by_cases hshort : len.toNat < tcpHdrLen
  · rw [if_pos hshort, if_pos hshort]
    exact ⟨none, rfl, rfl, by simp⟩
  have h20 : ∀ i < tcpHdrLen, i < len.toNat := fun i hi =>
    Nat.lt_of_lt_of_le hi (Nat.le_of_not_lt hshort)
  have hoff : (TcpHdr.ofBytes (packetBytes p len).bytes).dataOff
      = (p.view len.toNat).getD 12 0 := rfl
  rw [if_neg hshort, if_neg hshort, Ptr.read_of_has h (h20 12 (by decide)) 0, ok_bind, hoff]
  generalize hhdr : ((p.view len.toNat).getD 12 0 >>> 4).toNat * 4 = hdrLen
  by_cases hbad : hdrLen < tcpHdrLen ∨ len.toNat < hdrLen
  · rw [if_pos hbad, if_pos hbad]
    exact ⟨none, rfl, rfl, by simp⟩
  rw [if_neg hbad, if_neg hbad, Ptr.load16_of_has h (h20 1 (by decide)), ok_bind,
    Ptr.load16_of_has h (h20 3 (by decide)), ok_bind,
    Ptr.load32_of_has h (h20 7 (by decide)), ok_bind,
    Ptr.load32_of_has h (h20 11 (by decide)), ok_bind,
    Ptr.load16_of_has h (h20 15 (by decide)), ok_bind,
    Ptr.read_of_has h (h20 13 (by decide)) 0, ok_bind]
  have hdata : (p.add hdrLen).view (len.toNat - hdrLen) = (p.view len.toNat).drop hdrLen := by
    rw [Ptr.view_add (k := len.toNat) (by omega), take_of_length_le]
    rw [length_drop, Ptr.view_length h]
  refine ⟨_, rfl, ?_, ?_⟩
  · rw [Option.map_some, hdata]
    rfl
  · rintro _ ⟨⟩
    omega

/-- Payload bytes are read from the packet and stored inside the ring. -/
theorem rxDataAt_eq (id : ConnIdx) (c : TcpConn) (seg : Segment)
    {dataLen : Nat} (h : data.Has dataLen) : rxDataAt id c seg data dataLen =
      .ok (rxData id c (seg.withData (data.view dataLen))) := by
  have hlen : (seg.withData (data.view dataLen)).data.length = dataLen := Ptr.view_length h
  have hseq : (seg.withData (data.view dataLen)).seq = seg.seq := rfl
  simp only [rxDataAt, rxData, hlen, hseq]
  split
  · split
    · split
      · rw [pushFrom_of_has _ (h.mono (Nat.min_le_left _ _)), ok_bind,
          Ptr.view_take (Nat.min_le_left dataLen _)]
        rfl
      · rfl
    · rfl
  · rfl

theorem rxConnAt_eq (env : Env) (id : ConnIdx) (c : TcpConn) (seg : Segment)
    {dataLen : Nat} (srcIp dstIp : U32) (h : data.Has dataLen) :
    rxConnAt env id c seg data dataLen srcIp dstIp =
      .ok (rxConn env id c (seg.withData (data.view dataLen)) srcIp dstIp) := by
  have hprologue : rxPrologue env id c (seg.withData (data.view dataLen)) srcIp dstIp
      = rxPrologue env id c seg srcIp dstIp := rfl
  rw [rxConnAt, rxConn, hprologue]
  cases rxPrologue env id c seg srcIp dstIp with
  | ret c out => rfl
  | next c =>
    dsimp only
    rw [rxDataAt_eq id c seg h]
    rfl

/-- Matching a segment to a slot does not look at its payload. -/
theorem lookup_withData (t : Table) (seg : Segment) (data : List U8) (srcIp : U32)
    (is : List ConnIdx) (lstn : Option ConnIdx) :
    lookup t (seg.withData data) srcIp is lstn = lookup t seg srcIp is lstn := by
  induction is generalizing lstn with
  | nil => rfl
  | cons i is ih =>
    simp only [lookup, ih]
    rfl

/-- **`tcp_rx` stays inside the packet.**  On a pointer to the whole segment
every read is in bounds, every byte is stored inside the receive ring, and the
result is that of `tcpRx` on the bytes. -/
theorem tcpRxAt_eq (env : Env) (t : Table) {len : U16} (srcIp dstIp : U32)
    (h : p.Has len.toNat) :
    tcpRxAt env t p len srcIp dstIp = .ok (tcpRx env t (packetBytes p len) srcIp dstIp) := by
  obtain ⟨r, hhdr, hparse, hle⟩ := rxHeader_eq h
  rw [tcpRxAt, tcpRx, hhdr, ok_bind, hparse]
  cases r with
  | none => rfl
  | some s =>
    obtain ⟨seg, hdrLen⟩ := s
    have hdr : hdrLen ≤ len.toNat := hle (seg, hdrLen) rfl
    have hdata : (p.add hdrLen).Has (len.toNat - hdrLen) := Ptr.Has.add (h.mono (by omega))
    dsimp only [Option.map_some]
    rw [lookup_withData]
    cases hfound : lookup t seg srcIp (List.finRange tcpMaxConn) none with
    | mk found lstn =>
      cases found with
      | none => rfl
      | some i =>
        dsimp only
        rw [rxConnAt_eq env i (t.conns i) seg srcIp dstIp hdata]
        rfl

end Tcp
