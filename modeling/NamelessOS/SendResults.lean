import NamelessOS.NetStack

/-!
# What a send reports

`tcp_send` moves `snd_nxt` and replaces the retransmit buffer before it calls `ipv4_send`,
and returns what that returns.  `sys_sendto` hands the low 16 bits of its length to
`tcp_send` or `udp_send` and, when they succeed, returns all 64.  Both run here through
the real `ipv4_send`, with the calls of `ipv4_send` as part of the result.
-/

namespace NetStack

open ByteOrder Checked Ethernet Ipv4 Socket List BitVec
open BitVec (ofNat)

/-- The peer of a connection. -/
def peerOf (t : Tcp.Table) (id : Int) : U32 :=
  match Tcp.connIdx id with
  | some i => (t.conns i).remoteIp
  | none => 0

/-- What `tcp_send` sees of the rest of the kernel: its segment goes to the peer of the
connection through `ipv4_send`. -/
def sendEnv (env : Env) (l : Link) (t : Tcp.Table) (id : Int) : Tcp.Env where
  ticks := env.ticks
  ourIp := l.ourIp
  kmallocOk := env.kmallocOk
  ipv4Ret := fun seg =>
    (ipv4Send env l (peerOf t id) ipprotoTcp seg (ofNat 16 seg.length)).ret

/-- `tcp_send`, with the table and the result. -/
def tcpSend (env : Env) (l : Link) (t : Tcp.Table) (id : Int) (data : Tcp.Buffer) :
    Tcp.Table × Int :=
  let r := Tcp.tcpSend (sendEnv env l t id) t id data
  (r.1, r.2.2)

/-- The segment that `tcp_send` passes to `ipv4_send`. -/
def sentSegment (t : Tcp.Table) (i : Tcp.ConnIdx) (data : Tcp.Buffer) : List U8 :=
  Tcp.fillChecksum (t.conns i) (Tcp.dataSegment (t.conns i) data)

/-- `ipv4_send` takes the segment. -/
def SegmentTaken (env : Env) (l : Link) (t : Tcp.Table) (i : Tcp.ConnIdx) (data : Tcp.Buffer) :
    Prop :=
  Takes env l (t.conns i).remoteIp ipprotoTcp (sentSegment t i data)
    (ofNat 16 (sentSegment t i data).length)

/-- The send sequence and the retransmit buffer of the connection are as before. -/
def StreamKept (t : Tcp.Table) (id : Int) (t' : Tcp.Table) : Prop := ∀ i, Tcp.connIdx id = some i →
    (t'.conns i).sndNxt = (t.conns i).sndNxt ∧
      (t'.conns i).retxBuf = (t.conns i).retxBuf ∧ (t'.conns i).retxLen = (t.conns i).retxLen

section TcpSend

variable {env : Env} {l : Link} {t : Tcp.Table} {id : Int} {i : Tcp.ConnIdx} {data : Tcp.Buffer}

section

variable (h : Tcp.Sends (sendEnv env l t id) t i id data)
include h

/-- A segment that gets as far as `ipv4_send` is reported as `ipv4_send` reports it. -/
theorem tcpSend_ret_nonneg_iff : 0 ≤ (tcpSend env l t id data).2 ↔ SegmentTaken env l t i data := by
  have hpeer : peerOf t id = (t.conns i).remoteIp := by rw [peerOf, h.1]
  rw [tcpSend, Tcp.tcpSend_of_sends h, SegmentTaken, ← hpeer]
  exact ipv4Send_ret_nonneg_iff env l _ ipprotoTcp _ _

/-- By then `snd_nxt` has moved. -/
theorem tcpSend_sndNxt : ((tcpSend env l t id data).1.conns i).sndNxt =
      (t.conns i).sndNxt + ofNat 32 data.bytes.length := by
  rw [tcpSend, Tcp.tcpSend_of_sends h]
  simp

theorem tcpSend_moves : ((tcpSend env l t id data).1.conns i).sndNxt ≠ (t.conns i).sndNxt := by
  have hshort := data.short
  have hpos : 0 < data.bytes.length := length_pos_iff.mpr h.2.2.1
  rw [tcpSend_sndNxt h]
  intro hsame
  have hnat := congrArg BitVec.toNat hsame
  grind

end

theorem tcpSend_refused (h : ∀ i, ¬ Tcp.Sends (sendEnv env l t id) t i id data) :
    (tcpSend env l t id data).1 = t := by
  grind [tcpSend, Tcp.tcpSend_of_refused]

/-- **Failed sends.**  A `tcp_send` that fails leaves the stream as it was exactly when it
fails before a segment is built, or not at all: `ipv4_send` would take the segment. -/
theorem failed_send_keeps_stream_iff (env : Env) (l : Link) (t : Tcp.Table) (id : Int)
    (data : Tcp.Buffer) :
    ((tcpSend env l t id data).2 < 0 → StreamKept t id (tcpSend env l t id data).1) ↔
      ∀ i, Tcp.Sends (sendEnv env l t id) t i id data → SegmentTaken env l t i data := by
  constructor
  · intro hkept i hsends
    by_contra hfails
    rw [← tcpSend_ret_nonneg_iff hsends, Int.not_le] at hfails
    exact tcpSend_moves hsends (hkept hfails i hsends.1).1
  · intro htaken hfails
    have hno : ∀ i, ¬ Tcp.Sends (sendEnv env l t id) t i id data := by
      intro i hsends
      exact absurd ((tcpSend_ret_nonneg_iff hsends).mpr (htaken i hsends)) (Int.not_le.mpr hfails)
    rw [tcpSend_refused hno]
    intro i _
    exact ⟨rfl, rfl, rfl⟩

end TcpSend

/-- A table whose first connection is established, with the peer 10.0.0.2. -/
def openTable : Tcp.Table := Tcp.initTable.set ⟨0, by decide⟩
    { Tcp.bssConn with state := .established, remoteIp := 0x0A000002 }

/-- The address of the peer is not in the ARP cache: the call fails, `snd_nxt` has moved by
the two bytes and they are kept for retransmission. -/
theorem unresolved_send_moves :
    (tcpSend quietEnv (initLink Arp.zeroMac) openTable 0 ⟨[1, 2], by decide⟩).2 = -1 ∧
      ((tcpSend quietEnv (initLink Arp.zeroMac) openTable 0 ⟨[1, 2], by decide⟩).1.conns 0).sndNxt
        = (openTable.conns 0).sndNxt + 2 ∧
      ((tcpSend quietEnv (initLink Arp.zeroMac) openTable 0
        ⟨[1, 2], by decide⟩).1.conns 0).retxBuf.isSome = true := by
  decide +kernel

/-! ## What `sys_sendto` reports -/

/-- A call of `ipv4_send`: where to, and the bytes passed. -/
structure Ipv4Call where
  dstIp : U32
  proto : U8
  bytes : List U8
  deriving DecidableEq, Repr

def segmentCall : Tcp.Output → Option Ipv4Call
  | .ipv4Send dstIp seg => some ⟨dstIp, ipprotoTcp, seg⟩
  | _ => none

/-- The total length of a datagram, as `udp_send` computes it. -/
def udpTotal (data : Tcp.Buffer) : U16 := ofNat 16 (udpHdrLen + data.bytes.length)

/-- The packet of `udp_send`. -/
def udpPacket (l : Link) (dstIp : U32) (srcPort dstPort : U16) (data : Tcp.Buffer) : List U8 :=
  (Udp.finishedHdr l dstIp srcPort dstPort data.bytes).bytes ++ data.bytes

/-- The call that `udp_send` makes when it gets its buffer. -/
def datagramCalls (env : Env) (l : Link) (dstIp : U32) (srcPort dstPort : U16)
    (data : Tcp.Buffer) : List Ipv4Call :=
  if env.kmalloc (udpTotal data).toNat then
    [⟨dstIp, ipprotoUdp, (udpPacket l dstIp srcPort dstPort data).take (udpTotal data).toNat⟩]
  else []

/-- Where `sys_sendto` sends a datagram. -/
def destination (s : Sock) (addr : Option SockAddrIn) : Option (U32 × U16) :=
  match addr with
  | some sa => some (ntohl sa.sinAddr, ntohs sa.sinPort)
  | none => if s.peerIp ≠ 0 then some (s.peerIp, s.peerPort) else none

/-- The calls of `ipv4_send` that a `sys_sendto` makes. -/
def sendtoCalls (env : Env) (h : Host) (fd : U64) (buf : Nat → U8) (len : U64)
    (addr : Option SockAddrIn) : List Ipv4Call :=
  match fdToIdx fd with
  | none => []
  | some i =>
    let s := h.net.socks i
    match s.type with
    | .tcp =>
      match s.connId with
      | none => []
      | some id => (Tcp.tcpSend (sendEnv env h.link h.net.tcp id.val) h.net.tcp id.val
          (userBytes buf len)).2.1.filterMap segmentCall
    | .udp =>
      match destination s addr with
      | none => []
      | some (ip, port) =>
        datagramCalls env h.link ip s.boundPort port (userBytes buf len)
    | .free => []

/-- The connection behind a descriptor. -/
def connOf (n : Net) (fd : U64) : Int :=
  match (fdToIdx fd).bind (fun i => (n.socks i).connId) with
  | some id => id.val
  | none => -1

/-- What a `sys_sendto` leaves behind. -/
structure Sendto where
  net : Net
  calls : List Ipv4Call
  result : U64

/-- `sys_sendto` on top of the stack. -/
def sysSendto (env : Env) (h : Host) (fd : U64) (buf : Nat → U8) (len : U64)
    (addr : Option SockAddrIn) : Sendto :=
  let r := Socket.sysSendto (sendEnv env h.link h.net.tcp (connOf h.net fd))
    (fun ip srcPort dstPort _ =>
      (Udp.udpSend env h.link ip srcPort dstPort (userBytes buf len)).ret)
    h.net fd buf len addr
  { net := r.1, calls := sendtoCalls env h fd buf len addr, result := r.2 }

/-- The first bytes of the caller's buffer. -/
def firstBytes (buf : Nat → U8) (n : Nat) : List U8 := (List.range n).map buf

/-- The first `n` bytes of the buffer were appended to the stream: `snd_nxt` has moved by `n`
and the segments passed on carry these bytes. -/
def Appended (c d : Tcp.TcpConn) (calls : List Ipv4Call) (buf : Nat → U8) (n : Nat) : Prop :=
  d.sndNxt = c.sndNxt + ofNat 32 n ∧
    calls.flatMap (fun call => call.bytes.drop Tcp.tcpHdrLen) = firstBytes buf n

/-- One datagram with the first `n` bytes of the buffer was passed on. -/
def OneDatagram (calls : List Ipv4Call) (buf : Nat → U8) (n : Nat) : Prop :=
  ∃ call, calls = [call] ∧ call.bytes.length = udpHdrLen + n ∧
    call.bytes.drop udpHdrLen = firstBytes buf n

/-- **The result is the number of bytes sent.** -/
structure Reported (h : Host) (fd : U64) (buf : Nat → U8) (r : Sendto) : Prop where
  tcp : ∀ i id, fdToIdx fd = some i → (h.net.socks i).type = .tcp →
    (h.net.socks i).connId = some id →
      Appended (h.net.tcp.conns id) (r.net.tcp.conns id) r.calls buf r.result.toNat
  udp : ∀ i, fdToIdx fd = some i → (h.net.socks i).type = .udp →
    OneDatagram r.calls buf r.result.toNat

/-! ### The two results -/

/-- `ret < 0 ? -EINVAL : len`. -/
def sendResult (ret : Int) (len : U64) : U64 := if ret < 0 then err eInval else len

/-- The result is a count exactly when the send succeeded and the length is one. -/
theorem sendResult_nonneg_iff (ret : Int) (len : U64) :
    0 ≤ (sendResult ret len).toInt ↔ 0 ≤ ret ∧ len.toNat < 2 ^ 63 := by
  have hlen : 0 ≤ len.toInt ↔ len.toNat < 2 ^ 63 := by
    rw [toInt_eq_toNat_cond]
    split
    · omega
    · omega
  unfold sendResult
  split
  · rename_i hneg
    refine iff_of_false (by decide) ?_
    intro h
    omega
  grind

theorem userBytes_length (buf : Nat → U8) (len : U64) :
    (userBytes buf len).bytes.length = len.toNat % 65536 := by
  simp [userBytes]

theorem userBytes_eq (buf : Nat → U8) {len : U64} (h : len.toNat < 65536) :
    (userBytes buf len).bytes = firstBytes buf len.toNat := by
  have hnat : (len.setWidth 16).toNat = len.toNat := by
    rw [toNat_setWidth]
    exact Nat.mod_eq_of_lt h
  show firstBytes buf (len.setWidth 16).toNat = _
  rw [hnat]

@[simp] theorem firstBytes_length (buf : Nat → U8) (n : Nat) : (firstBytes buf n).length = n := by
  simp [firstBytes]

section Tcp

variable (env : Env) (l : Link) (t : Tcp.Table) (id : Int) (data : Tcp.Buffer)

/-- `tcp_send` succeeds: the connection is open, and there are no data, or there is a buffer
and `ipv4_send` takes the segment. -/
def TcpAccepts : Prop := ∃ i, Tcp.connIdx id = some i ∧
    ((t.conns i).state = .established ∨ (t.conns i).state = .closeWait) ∧
    (data.bytes = [] ∨ Tcp.Sends (sendEnv env l t id) t i id data ∧ SegmentTaken env l t i data)

theorem tcpSend_nonneg_iff : 0 ≤ (tcpSend env l t id data).2 ↔ TcpAccepts env l t id data := by
  by_cases hsends : ∃ i, Tcp.Sends (sendEnv env l t id) t i id data
  · obtain ⟨i, hi⟩ := hsends
    rw [tcpSend_ret_nonneg_iff hi]
    constructor
    · exact fun htaken => ⟨i, hi.1, hi.2.1, .inr ⟨hi, htaken⟩⟩
    · rintro ⟨j, hj, -, hempty | ⟨-, htaken⟩⟩
      · exact absurd hempty hi.2.2.1
      · cases hi.1.symm.trans hj
        exact htaken
  · have hno : ∀ i, ¬ Tcp.Sends (sendEnv env l t id) t i id data := fun i hi => hsends ⟨i, hi⟩
    rw [tcpSend]
    rcases Tcp.tcpSend_of_refused hno with hret | ⟨hret, hempty, i, hid, hopen⟩
    · rw [hret]
      refine iff_of_false (by simp) ?_
      rintro ⟨i, hid, hopen, hempty | ⟨hi, -⟩⟩
      · rw [Tcp.tcpSend_of_empty hid hopen hempty] at hret
        cases hret
      · exact hno i hi
    · rw [hret]
      exact iff_of_true (Int.le_refl 0) ⟨i, hid, hopen, .inl hempty⟩

end Tcp

/-- The payload of the segment of a send: all of the data, or none when the length wrapped. -/
theorem sentSegment_payload_length (t : Tcp.Table) (i : Tcp.ConnIdx) (data : Tcp.Buffer) :
    ((sentSegment t i data).drop Tcp.tcpHdrLen).length =
      (Tcp.tcpHdrLen + data.bytes.length) % 65536 - Tcp.tcpHdrLen := by
  rw [sentSegment, length_drop, Tcp.fillChecksum_length, Tcp.dataSegment_length]

theorem sentSegment_payload (t : Tcp.Table) (i : Tcp.ConnIdx) {data : Tcp.Buffer}
    (hfits : Tcp.tcpHdrLen + data.bytes.length < 65536) :
    (sentSegment t i data).drop Tcp.tcpHdrLen = data.bytes := by
  rw [sentSegment, Tcp.fillChecksum_drop, Tcp.dataSegment_eq _ hfits]
  exact drop_left' (Tcp.TcpHdr.bytes_length _)

section Sendto

variable (env : Env) (h : Host) (fd : U64) (buf : Nat → U8) (len : U64) (addr : Option SockAddrIn)
  {i : SockIdx}

theorem sysSendto_tcp {id : Tcp.ConnIdx} (hi : fdToIdx fd = some i)
    (htype : (h.net.socks i).type = .tcp) (hid : (h.net.socks i).connId = some id) :
    let r := Tcp.tcpSend (sendEnv env h.link h.net.tcp id.val) h.net.tcp id.val
      (userBytes buf len)
    sysSendto env h fd buf len addr =
      ⟨h.net.tcpDone r.1 r.2.1, r.2.1.filterMap segmentCall, sendResult r.2.2 len⟩ := by
  have hconn : connOf h.net fd = id.val := by
    rw [connOf, hi]
    dsimp only [Option.bind]
    rw [hid]
  simp only [sysSendto, sendtoCalls, Socket.sysSendto, hconn, hi, htype, hid, sendResult]

theorem sysSendto_udp {ip : U32} {port : U16} (hi : fdToIdx fd = some i)
    (htype : (h.net.socks i).type = .udp)
    (hdst : destination (h.net.socks i) addr = some (ip, port)) : sysSendto env h fd buf len addr =
      ⟨h.net, datagramCalls env h.link ip (h.net.socks i).boundPort port (userBytes buf len),
        sendResult (Udp.udpSend env h.link ip (h.net.socks i).boundPort port
          (userBytes buf len)).ret len⟩ := by
  simp only [sysSendto, sendtoCalls, Socket.sysSendto, hi, htype, hdst, sendResult]
  cases addr with
  | some sa =>
    cases hdst
    rfl
  | none =>
    rw [destination] at hdst
    split at hdst
    · rename_i hpeer
      cases hdst
      simp only [if_pos hpeer]
    · cases hdst

end Sendto

theorem sendResult_of_nonneg {ret : Int} (h : 0 ≤ ret) (len : U64) : sendResult ret len = len :=
  if_neg (Int.not_lt.mpr h)

theorem reported_iff {P : U64 → Prop} {ret : Int} {len : U64} {bound : Nat} {accepts : Prop}
    (haccepts : 0 ≤ ret ↔ accepts)
    (hbound : accepts → len.toNat < 2 ^ 63 → (P len ↔ len.toNat < bound)) :
    (0 ≤ (sendResult ret len).toInt → P (sendResult ret len)) ↔
      (accepts → len.toNat < bound ∨ 2 ^ 63 ≤ len.toNat) := by
  grind [sendResult_nonneg_iff, sendResult_of_nonneg]

section Tcp

variable {h : Host} {fd : U64} {i : SockIdx} {id : Tcp.ConnIdx} (hi : fdToIdx fd = some i)
  (htype : (h.net.socks i).type = .tcp) (hid : (h.net.socks i).connId = some id)
include hi htype hid

theorem reported_tcp (buf : Nat → U8) (r : Sendto) : Reported h fd buf r ↔
      Appended (h.net.tcp.conns id) (r.net.tcp.conns id) r.calls buf r.result.toNat := by
  constructor
  · intro hr
    exact hr.tcp i id hi htype hid
  · intro hr
    refine ⟨?_, ?_⟩
    · intro j id' hj _ hid'
      cases hi.symm.trans hj
      cases hid.symm.trans hid'
      exact hr
    grind

omit hi htype hid in
theorem appended_nothing_iff (c : Tcp.TcpConn) (buf : Nat → U8) {len : U64}
    (hempty : (userBytes buf len).bytes = []) :
    Appended c c [] buf len.toNat ↔ len.toNat < 65516 := by
  have hlen := userBytes_length buf len
  rw [hempty, length_nil] at hlen
  constructor
  · intro hr
    have hnone := congrArg List.length hr.2
    rw [flatMap_nil, firstBytes_length, length_nil] at hnone
    omega
  · intro hlt
    have hzero : len.toNat = 0 := by omega
    rw [hzero]
    exact ⟨(add_zero _).symm, rfl⟩

omit hi htype hid in
theorem appended_segment_iff (t : Tcp.Table) (d : Tcp.TcpConn) (buf : Nat → U8) {len : U64}
    (hdata : (userBytes buf len).bytes ≠ [])
    (hnxt : d.sndNxt = (t.conns id).sndNxt + ofNat 32 (userBytes buf len).bytes.length) :
    Appended (t.conns id) d
        [⟨(t.conns id).remoteIp, ipprotoTcp, sentSegment t id (userBytes buf len)⟩] buf
        len.toNat ↔ len.toNat < 65516 := by
  have hlen := userBytes_length buf len
  have hpos := length_pos_iff.mpr hdata
  have hhdr : Tcp.tcpHdrLen = 20 := rfl
  constructor
  · intro hr
    have hcarried := congrArg List.length hr.2
    rw [flatMap_singleton, sentSegment_payload_length, firstBytes_length] at hcarried
    omega
  · intro hlt
    have hwhole : (userBytes buf len).bytes = firstBytes buf len.toNat :=
      userBytes_eq buf (by omega)
    refine ⟨?_, ?_⟩
    · rw [hnxt, hwhole, firstBytes_length]
    · rw [flatMap_singleton, sentSegment_payload t id (by omega), hwhole]

theorem sendto_tcp_iff (env : Env) (buf : Nat → U8) (len : U64) (addr : Option SockAddrIn) :
    (0 ≤ (sysSendto env h fd buf len addr).result.toInt →
        Reported h fd buf (sysSendto env h fd buf len addr)) ↔
      (TcpAccepts env h.link h.net.tcp id.val (userBytes buf len) →
        len.toNat < 65516 ∨ 2 ^ 63 ≤ len.toNat) := by
  rw [sysSendto_tcp env h fd buf len addr hi htype hid, reported_tcp hi htype hid]
  refine reported_iff (P := fun r => Appended _ _ _ buf r.toNat)
    (tcpSend_nonneg_iff env h.link h.net.tcp id.val (userBytes buf len)) ?_
  intro haccepts _
  obtain ⟨j, hj, hopen, hcase⟩ := haccepts
  cases (Tcp.connIdx_val id).symm.trans hj
  rcases hcase with hempty | ⟨hsends, -⟩
  · rw [Tcp.tcpSend_of_empty hj hopen hempty]
    exact appended_nothing_iff (h.net.tcp.conns id) buf hempty
  · have hnxt := tcpSend_sndNxt hsends
    rw [tcpSend] at hnxt
    rw [Tcp.tcpSend_of_sends hsends] at hnxt ⊢
    exact appended_segment_iff h.net.tcp _ buf hsends.2.2.1 hnxt

end Tcp

section Udp

variable (env : Env) (l : Link) (dstIp : U32) (srcPort dstPort : U16) (data : Tcp.Buffer)

/-- `udp_send` succeeds: there is a buffer, and `ipv4_send` takes the packet. -/
def UdpAccepts : Prop := env.kmalloc (udpTotal data).toNat = true ∧
    Takes env l dstIp ipprotoUdp (udpPacket l dstIp srcPort dstPort data) (udpTotal data)

theorem udpTotal_toNat : (udpTotal data).toNat = (udpHdrLen + data.bytes.length) % 65536 := by
  rw [udpTotal, toNat_ofNat]

theorem udpPacket_length :
    (udpPacket l dstIp srcPort dstPort data).length = udpHdrLen + data.bytes.length := by
  rw [udpPacket, length_append, Udp.UdpHdr.bytes_length]

theorem udpSend_nonneg_iff : 0 ≤ (Udp.udpSend env l dstIp srcPort dstPort data).ret ↔
      UdpAccepts env l dstIp srcPort dstPort data := by
  rw [Udp.udpSend, UdpAccepts]
  rw [← udpTotal]
  cases hmem : env.kmalloc (udpTotal data).toNat with
  | false => exact iff_of_false (by simp) (fun h => Bool.false_ne_true h.1)
  | true =>
    simp only [Bool.not_true, Bool.false_eq_true, if_false, true_and]
    exact ipv4Send_ret_nonneg_iff env l dstIp ipprotoUdp _ _

end Udp

theorem oneDatagram_iff {env : Env} (l : Link) (dstIp : U32) (srcPort dstPort : U16)
    (buf : Nat → U8) {len : U64} (hmem : env.kmalloc (udpTotal (userBytes buf len)).toNat = true) :
    OneDatagram (datagramCalls env l dstIp srcPort dstPort (userBytes buf len)) buf len.toNat ↔
      len.toNat < 65528 := by
  have hlen := userBytes_length buf len
  have htotal := udpTotal_toNat (userBytes buf len)
  have hhdr : udpHdrLen = 8 := rfl
  rw [datagramCalls, if_pos hmem]
  constructor
  · rintro ⟨call, hcall, hlength, -⟩
    cases hcall
    rw [length_take, udpPacket_length] at hlength
    omega
  · intro hlt
    have hwhole : (userBytes buf len).bytes = firstBytes buf len.toNat :=
      userBytes_eq buf (by omega)
    have hfull : (udpPacket l dstIp srcPort dstPort (userBytes buf len)).take
        (udpTotal (userBytes buf len)).toNat = udpPacket l dstIp srcPort dstPort (userBytes buf len) :=
      take_of_length_le (by rw [udpPacket_length]; omega)
    rw [hfull]
    refine ⟨_, rfl, ?_, ?_⟩
    · rw [udpPacket_length]
      omega
    · rw [udpPacket, drop_left' (Udp.UdpHdr.bytes_length _), hwhole]

theorem sendto_udp_iff {h : Host} {fd : U64} {i : SockIdx} {ip : U32} {port : U16}
    {addr : Option SockAddrIn} (hi : fdToIdx fd = some i) (htype : (h.net.socks i).type = .udp)
    (hdst : destination (h.net.socks i) addr = some (ip, port)) (env : Env) (buf : Nat → U8)
    (len : U64) : (0 ≤ (sysSendto env h fd buf len addr).result.toInt →
        Reported h fd buf (sysSendto env h fd buf len addr)) ↔
      (UdpAccepts env h.link ip (h.net.socks i).boundPort port (userBytes buf len) →
        len.toNat < 65528 ∨ 2 ^ 63 ≤ len.toNat) := by
  have hreported : ∀ r : Sendto, Reported h fd buf r ↔ OneDatagram r.calls buf r.result.toNat := by
    intro r
    constructor
    · intro hr
      exact hr.udp i hi htype
    · intro hr
      refine ⟨?_, fun _ _ _ => hr⟩
      grind
  rw [sysSendto_udp env h fd buf len addr hi htype hdst, hreported]
  refine reported_iff (P := fun r => OneDatagram _ buf r.toNat)
    (udpSend_nonneg_iff env h.link ip (h.net.socks i).boundPort port (userBytes buf len)) ?_
  intro haccepts _
  exact oneDatagram_iff h.link ip (h.net.socks i).boundPort port buf haccepts.1

/-- A call that reaches `ipv4_send` has a length that header and payload leave room for, or
one that is read as an error. -/
structure LengthOk (env : Env) (h : Host) (i : SockIdx) (buf : Nat → U8) (len : U64)
    (addr : Option SockAddrIn) : Prop where
  tcp : ∀ id, (h.net.socks i).type = .tcp → (h.net.socks i).connId = some id →
    TcpAccepts env h.link h.net.tcp id.val (userBytes buf len) →
      len.toNat < 65516 ∨ 2 ^ 63 ≤ len.toNat
  udp : ∀ ip port, (h.net.socks i).type = .udp →
    destination (h.net.socks i) addr = some (ip, port) →
    UdpAccepts env h.link ip (h.net.socks i).boundPort port (userBytes buf len) →
      len.toNat < 65528 ∨ 2 ^ 63 ≤ len.toNat

section Sockets

variable {env : Env} {h : Host} {i : SockIdx} {buf : Nat → U8} {len : U64}
  {addr : Option SockAddrIn}

theorem lengthOk_tcp {id : Tcp.ConnIdx} (htype : (h.net.socks i).type = .tcp)
    (hid : (h.net.socks i).connId = some id) : LengthOk env h i buf len addr ↔
      (TcpAccepts env h.link h.net.tcp id.val (userBytes buf len) →
        len.toNat < 65516 ∨ 2 ^ 63 ≤ len.toNat) := by
  constructor
  · intro hok
    exact hok.tcp id htype hid
  · intro hok
    refine ⟨?_, ?_⟩
    · intro id' _ hid'
      cases hid.symm.trans hid'
      exact hok
    · intro ip port hudp
      rw [htype] at hudp
      cases hudp

theorem lengthOk_udp {ip : U32} {port : U16} (htype : (h.net.socks i).type = .udp)
    (hdst : destination (h.net.socks i) addr = some (ip, port)) : LengthOk env h i buf len addr ↔
      (UdpAccepts env h.link ip (h.net.socks i).boundPort port (userBytes buf len) →
        len.toNat < 65528 ∨ 2 ^ 63 ≤ len.toNat) := by
  constructor
  · intro hok
    exact hok.udp ip port htype hdst
  · intro hok
    refine ⟨?_, ?_⟩
    · intro id htcp
      rw [htype] at htcp
      cases htcp
    · intro ip' port' _ hdst'
      cases hdst.symm.trans hdst'
      exact hok

theorem sysSendto_unroutable {fd : U64} (hi : fdToIdx fd = some i)
    (hconn : ∀ id, (h.net.socks i).type = .tcp → (h.net.socks i).connId ≠ some id)
    (hdst : ∀ ip port, (h.net.socks i).type = .udp →
      destination (h.net.socks i) addr ≠ some (ip, port)) :
    (sysSendto env h fd buf len addr).result.toInt < 0 := by
  cases htype : (h.net.socks i).type with
  | free =>
    simp only [sysSendto, Socket.sysSendto, hi, htype]
    decide
  | tcp =>
    cases hid : (h.net.socks i).connId with
    | none =>
      simp only [sysSendto, Socket.sysSendto, hi, htype, hid]
      decide
    | some id => exact absurd hid (hconn id htype)
  | udp =>
    cases addr with
    | some sa => exact absurd rfl (hdst _ _ htype)
    | none =>
      by_cases hpeer : (h.net.socks i).peerIp ≠ 0
      · exact absurd (by rw [destination, if_pos hpeer]) (hdst _ _ htype)
      · simp only [sysSendto, Socket.sysSendto, hi, htype, if_neg hpeer]
        decide

end Sockets

/-- **Reports of `sys_sendto`.**  Whenever the result is a count, that many bytes of the
buffer were sent, exactly when every call that succeeds has a length below 65516 on a TCP and
below 65528 on a UDP socket. -/
theorem sendto_reports_iff (env : Env) (h : Host) (fd : U64) (buf : Nat → U8) (len : U64)
    (addr : Option SockAddrIn) : (0 ≤ (sysSendto env h fd buf len addr).result.toInt →
        Reported h fd buf (sysSendto env h fd buf len addr)) ↔
      ∀ i, fdToIdx fd = some i → LengthOk env h i buf len addr := by
  cases hi : fdToIdx fd with
  | none =>
    refine iff_of_true ?_ (fun i hno => by cases hno)
    simp only [sysSendto, Socket.sysSendto, hi]
    exact fun hnonneg => absurd hnonneg (by decide)
  | some i =>
    have hsome : (∀ j, some i = some j → LengthOk env h j buf len addr) ↔
        LengthOk env h i buf len addr :=
      ⟨fun hall => hall i rfl, fun hok j hj => Option.some.inj hj ▸ hok⟩
    rw [hsome]
    by_cases hconn : ∃ id, (h.net.socks i).type = .tcp ∧ (h.net.socks i).connId = some id
    · obtain ⟨id, htype, hid⟩ := hconn
      rw [sendto_tcp_iff hi htype hid, lengthOk_tcp htype hid]
    · by_cases hdst : ∃ ip port, (h.net.socks i).type = .udp ∧
          destination (h.net.socks i) addr = some (ip, port)
      · obtain ⟨ip, port, htype, hdst⟩ := hdst
        rw [sendto_udp_iff hi htype hdst, lengthOk_udp htype hdst]
      · have hnoconn : ∀ id, (h.net.socks i).type = .tcp →
            (h.net.socks i).connId ≠ some id := fun id htype hid => hconn ⟨id, htype, hid⟩
        have hnodst : ∀ ip port, (h.net.socks i).type = .udp →
            destination (h.net.socks i) addr ≠ some (ip, port) :=
          fun ip port htype hto => hdst ⟨ip, port, htype, hto⟩
        refine iff_of_true ?_ ⟨?_, ?_⟩
        · intro hnonneg
          exact absurd (sysSendto_unroutable hi hnoconn hnodst) (Int.not_lt.mpr hnonneg)
        · intro id htype hid
          exact absurd hid (hnoconn id htype)
        · intro ip port htype hto
          exact absurd hto (hnodst ip port htype)

/-- A host with an established connection behind its first socket and UDP sockets behind the
others. -/
def openHost : Host where
  link := initLink Arp.zeroMac
  net :=
    { initNet [] with
      tcp := openTable
      socks := fun i =>
        if i.val = 0 then { bssSock with type := .tcp, connId := some ⟨0, by decide⟩ }
        else { bssSock with type := .udp } }
  dhcp := { state := .idle, offeredIp := 0, serverIp := 0, retryCount := 0, deadline := 0 }

/-- 65536 bytes are reported as sent on the connection, and nothing was; 65537 bytes are
reported as broadcast, and the datagram has one byte behind its header. -/
theorem truncated_send_reported :
    let r := sysSendto quietEnv openHost 64 (fun _ => 1) 65536 none
    let r' := sysSendto quietEnv openHost 65 (fun _ => 1) 65537 (some ⟨2, 0, 0xFFFFFFFF⟩)
    (r.result = 65536 ∧ r.calls = [] ∧
        (r.net.tcp.conns 0).sndNxt = (openHost.net.tcp.conns 0).sndNxt) ∧
      r'.result = 65537 ∧ r'.calls.map (fun call => call.bytes.length) = [udpHdrLen + 1] := by
  decide +kernel

end NetStack
