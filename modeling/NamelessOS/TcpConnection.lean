import NamelessOS.RingBuffer
import NamelessOS.TcpChecksum

/-!
# One TCP connection

The connection control block of `tcp_internal.h` and everything `tcp.c` does
to a single slot: building and sending segments, the retransmit slot, the
receive ring, and the body of `tcp_rx` for a segment that matched the slot.

`tcp_rx` is one long function with early returns.  Its phases are kept as
separate definitions in source order (`rxRst`, `rxSynSent`, `rxSynRcvd`,
`rxAck`, `rxData`, `rxFin`); `Flow` says whether a phase returned from
`tcp_rx` or fell through to the next one.  Calls that leave the module
(`ipv4_send`, the two callbacks) are recorded as `Output`s: none of them reads
or writes the connection table.
-/

namespace Tcp

open ByteOrder List
open BitVec (ofNat)

/-- `tcp_state_t`. -/
inductive TcpState
  | closed | listen | synSent | synRcvd | established | finWait1 | finWait2
  | closeWait | closing | lastAck | timeWait
  deriving DecidableEq, Repr

/-- The functions an `on_data` pointer can name. -/
inductive DataCb
  | tcpSockData
  deriving DecidableEq, Repr

/-- The functions an `on_close` pointer can name. -/
inductive CloseCb
  | tcpSockClose
  deriving DecidableEq, Repr

/-- An index into the connection table. -/
abbrev ConnIdx := Fin tcpMaxConn

/-- `tcp_conn_t`.  `rx` groups `rx_buf`, `rx_head` and `rx_tail`; a `NULL`
pointer is `none`. -/
structure TcpConn where
  state : TcpState
  localIp : U32
  localPort : U16
  remoteIp : U32
  remotePort : U16
  sndUna : U32
  sndNxt : U32
  sndWnd : U16
  rcvNxt : U32
  retxBuf : Option (List U8)
  retxLen : U16
  retxDeadline : U32
  retxCount : Nat
  rx : RingBuffer U8 tcpRxBufSize
  onData : Option DataCb
  onClose : Option CloseCb

/-- What the rest of the kernel answers during one call: the tick counter,
the configured address, whether `kmalloc` of a nonzero size succeeds, and the
result of `ipv4_send` for a segment. -/
structure Env where
  ticks : U64
  ourIp : U32
  kmallocOk : Nat → Bool
  ipv4Ret : List U8 → Int

/-- `kmalloc(n) != NULL`. -/
def Env.kmalloc (env : Env) (n : Nat) : Bool := n != 0 && env.kmallocOk n

/-- Calls out of the TCP module. -/
inductive Output
  | ipv4Send (dstIp : U32) (seg : List U8)
  | onData (cb : DataCb) (id : ConnIdx) (data : List U8)
  | onClose (cb : CloseCb) (id : ConnIdx)
  deriving DecidableEq, Repr

/-- Sequence-number comparisons: the sign of the 32-bit difference. -/
def seqLt (a b : U32) : Bool := (a - b).toInt < 0

def seqLeq (a b : U32) : Bool := (a - b).toInt ≤ 0

/-! ## Sending -/

/-- Store a checksum value into the header field at offset 16. -/
def storeChecksum (seg : List U8) (ck : U16) : List U8 :=
  (seg.set 16 (byteAt ck 0)).set 17 (byteAt ck 1)

@[simp] theorem storeChecksum_length (seg : List U8) (ck : U16) :
    (storeChecksum seg ck).length = seg.length := by
  simp [storeChecksum]

theorem storeChecksum_twice (seg : List U8) (ck ck' : U16) :
    storeChecksum (storeChecksum seg ck) ck' = storeChecksum seg ck' := by
  simp only [storeChecksum]
  rw [set_comm (byteAt ck 1) (byteAt ck' 0) (by decide), set_set, set_set]

/-- The checksum lies in the header. -/
theorem storeChecksum_drop (seg : List U8) (ck : U16) {n : Nat} (hn : tcpHdrLen ≤ n) :
    (storeChecksum seg ck).drop n = seg.drop n := by
  simp only [tcpHdrLen] at hn
  rw [storeChecksum, drop_set_of_lt (by omega), drop_set_of_lt (by omega)]

/-- The segment buffer after `tcp_send_raw` has filled in its checksum. -/
def fillChecksum (c : TcpConn) (seg : List U8) : List U8 :=
  let seg := storeChecksum seg 0
  storeChecksum seg (tcpChecksum c.localIp c.remoteIp seg)

@[simp] theorem fillChecksum_length (c : TcpConn) (seg : List U8) :
    (fillChecksum c seg).length = seg.length := by
  simp [fillChecksum]

theorem fillChecksum_drop (c : TcpConn) (seg : List U8) :
    (fillChecksum c seg).drop tcpHdrLen = seg.drop tcpHdrLen := by
  rw [fillChecksum, storeChecksum_drop _ _ le_rfl, storeChecksum_drop _ _ le_rfl]

/-- `tcp_send_raw`. -/
def tcpSendRaw (c : TcpConn) (seg : List U8) : Output := .ipv4Send c.remoteIp (fillChecksum c seg)

/-- The header every segment of a connection starts with. -/
def connHdr (c : TcpConn) (flags : U8) (seq ack : U32) : TcpHdr where
  srcPort := htons c.localPort
  dstPort := htons c.remotePort
  seq := htonl seq
  ack := htonl ack
  dataOff := tcpDataOffMin
  flags := flags
  window := htons (ofNat 16 tcpWindow)
  checksum := 0
  urgPtr := 0

/-- `send_ctrl`. -/
def sendCtrl (c : TcpConn) (flags : U8) (seq ack : U32) : Output :=
  tcpSendRaw c (connHdr c flags seq ack).bytes

/-- The header `send_rst_reply` builds before its checksum. -/
def rstHdr (srcPort dstPort : U16) (seq ack : U32) (flags : U8) : TcpHdr where
  srcPort := htons dstPort
  dstPort := htons srcPort
  seq := if flags &&& tcpAck ≠ 0 then htonl ack else 0
  ack := if flags &&& tcpAck ≠ 0 then 0 else htonl (seq + 1)
  dataOff := tcpDataOffMin
  flags := if flags &&& tcpAck ≠ 0 then tcpRst else tcpRst ||| tcpAck
  window := 0
  checksum := 0
  urgPtr := 0

/-- `send_rst_reply`: answer a segment that came from `srcIp`. -/
def sendRstReply (srcIp : U32) (srcPort : U16) (dstIp : U32) (dstPort : U16)
    (seq ack : U32) (flags : U8) : Output :=
  let seg := (rstHdr srcPort dstPort seq ack flags).bytes
  let sum := csumAdd 0 (pseudoHeader dstIp srcIp (ofNat 16 tcpHdrLen))
  .ipv4Send srcIp (storeChecksum seg (csumFinish (csumAdd sum seg)))

/-! ## The retransmit slot -/

/-- `retx_arm`: replace the kept segment.  When `kmalloc` fails the old one
is gone and nothing else changes. -/
def retxArm (env : Env) (c : TcpConn) (seg : List U8) : TcpConn :=
  if env.kmalloc seg.length then
    { c with
      retxBuf := some seg
      retxLen := ofNat 16 seg.length
      retxDeadline := (env.ticks + ofNat 64 tcpRtoMs).setWidth 32
      retxCount := 0 }
  else { c with retxBuf := none }

section retxArm

variable (env : Env) (c : TcpConn) (seg : List U8)

@[simp] theorem retxArm_state : (retxArm env c seg).state = c.state := by
  unfold retxArm; split <;> rfl

@[simp] theorem retxArm_sndUna : (retxArm env c seg).sndUna = c.sndUna := by
  unfold retxArm; split <;> rfl

@[simp] theorem retxArm_sndNxt : (retxArm env c seg).sndNxt = c.sndNxt := by
  unfold retxArm; split <;> rfl

@[simp] theorem retxArm_rcvNxt : (retxArm env c seg).rcvNxt = c.rcvNxt := by
  unfold retxArm; split <;> rfl

@[simp] theorem retxArm_rx : (retxArm env c seg).rx = c.rx := by
  unfold retxArm; split <;> rfl

@[simp] theorem retxArm_onClose : (retxArm env c seg).onClose = c.onClose := by
  unfold retxArm; split <;> rfl

theorem fillChecksum_retxArm (bytes : List U8) :
    fillChecksum (retxArm env c seg) bytes = fillChecksum c bytes := by
  unfold retxArm; split <;> rfl

theorem tcpSendRaw_retxArm (bytes : List U8) :
    tcpSendRaw (retxArm env c seg) bytes = tcpSendRaw c bytes := by
  unfold retxArm; split <;> rfl

end retxArm

/-- `retx_clear`. -/
def retxClear (c : TcpConn) : TcpConn :=
  { c with retxBuf := none, retxLen := 0, retxCount := 0 }

/-! ## The receive ring -/

/-- `rx_free`. -/
def rxFree (c : TcpConn) : Nat := tcpRxBufSize - 1 - c.rx.avail

/-- `rx_push`. -/
def rxPush (c : TcpConn) (data : List U8) : TcpConn :=
  { c with rx := c.rx.pushAll data }

/-! ## A segment for this connection -/

/-- Whether a phase of `tcp_rx` returned or fell through. -/
inductive Flow
  | ret (c : TcpConn) (out : List Output)
  | next (c : TcpConn)

/-- The connection a phase of `tcp_rx` leaves. -/
def Flow.conn : Flow → TcpConn
  | .ret c _ => c
  | .next c => c

/-- The `on_close` call, when the pointer is set. -/
def callOnClose (c : TcpConn) (id : ConnIdx) : List Output :=
  match c.onClose with
  | some cb => [.onClose cb id]
  | none => []

/-- The `on_data` call, when the pointer is set. -/
def callOnData (c : TcpConn) (id : ConnIdx) (data : List U8) : List Output :=
  match c.onData with
  | some cb => [.onData cb id data]
  | none => []

/-- RST handling: in `SYN_SENT` any reset is honoured, otherwise only one
inside the receive window. -/
def rxRst (id : ConnIdx) (c : TcpConn) (seg : Segment) : TcpConn × List Output :=
  if c.state = .synSent ∨ (!seqLt seg.seq c.rcvNxt &&
        !seqLeq (c.rcvNxt + ofNat 32 tcpWindow) seg.seq) then
    ({ retxClear c with state := .closed }, callOnClose c id)
  else (c, [])

/-- `SYN_SENT`: waiting for the SYN-ACK. -/
def rxSynSent (c : TcpConn) (seg : Segment) (srcIp dstIp : U32) : TcpConn × List Output :=
  if !seg.has tcpAck then (c, [])
  else if seg.ack ≠ c.sndNxt then
    (c, [sendRstReply srcIp seg.srcPort dstIp seg.dstPort seg.seq seg.ack seg.flags])
  else if !seg.has tcpSyn then (c, [])
  else
    let c := { c with sndUna := seg.ack, sndWnd := seg.wnd, rcvNxt := seg.seq + 1 }
    let c := { retxClear c with state := .established }
    (c, [sendCtrl c tcpAck c.sndNxt c.rcvNxt])

/-- `SYN_RCVD`: waiting for the ACK of our SYN-ACK; a segment that completes
the handshake falls through, it may also carry data. -/
def rxSynRcvd (c : TcpConn) (seg : Segment) : Flow :=
  if c.state = .synRcvd then
    if !seg.has tcpAck then .ret c []
    else if seg.ack = c.sndNxt then
      .next { retxClear { c with sndUna := seg.ack, sndWnd := seg.wnd } with
        state := .established }
    else .ret c []
  else .next c

/-- The states in which an acknowledgement moves `snd_una`. -/
def acksData (s : TcpState) : Bool :=
  s = .established || s = .finWait1 || s = .closeWait || s = .closing

/-- The part of ACK processing that moves `snd_una` and drops a fully
acknowledged retransmit segment. -/
def ackAdvance (c : TcpConn) (seg : Segment) : TcpConn :=
  if acksData c.state && seqLeq c.sndUna seg.ack && seqLeq seg.ack c.sndNxt then
    let c := { c with sndUna := seg.ack, sndWnd := seg.wnd }
    if c.retxBuf.isSome && seqLeq c.sndNxt c.sndUna then retxClear c else c
  else c

/-- The deadline at which `TIME_WAIT` expires. -/
def timeWaitDeadline (env : Env) : U32 := (env.ticks + ofNat 64 tcpTimeWaitMs).setWidth 32

/-- In `FIN_WAIT_1` the acknowledgement of our FIN leads to `FIN_WAIT_2`. -/
def ackFinWait1 (c : TcpConn) (seg : Segment) : TcpConn :=
  if c.state = .finWait1 ∧ seg.ack = c.sndNxt then { c with state := .finWait2 } else c

/-- In `CLOSING` it leads to `TIME_WAIT`. -/
def ackClosing (env : Env) (c : TcpConn) (seg : Segment) : TcpConn :=
  if c.state = .closing ∧ seg.ack = c.sndNxt then
    { c with state := .timeWait, retxDeadline := timeWaitDeadline env }
  else c

/-- ACK processing; in `LAST_ACK` the acknowledgement of our FIN closes the
connection. -/
def rxAck (env : Env) (id : ConnIdx) (c : TcpConn) (seg : Segment) : Flow :=
  if seg.has tcpAck then
    let c := ackAdvance c seg
    let c := ackFinWait1 c seg
    let c := ackClosing env c seg
    if c.state = .lastAck ∧ seg.ack = c.sndNxt then
      .ret { retxClear c with state := .closed } (callOnClose c id)
    else .next c
  else .next c

/-- The states in which payload is accepted. -/
def receives (s : TcpState) : Bool := s = .established || s = .finWait1 || s = .finWait2

/-- Data processing.  Every nonempty segment is answered with an ACK, in
order or not. -/
def rxData (id : ConnIdx) (c : TcpConn) (seg : Segment) : TcpConn × List Output :=
  if 0 < seg.data.length ∧ receives c.state then
    if seg.seq = c.rcvNxt then
      let accept := min seg.data.length (rxFree c)
      if 0 < accept then
        let c := rxPush c (seg.data.take accept)
        let c := { c with rcvNxt := c.rcvNxt + ofNat 32 accept }
        (c, callOnData c id (seg.data.take accept) ++ [sendCtrl c tcpAck c.sndNxt c.rcvNxt])
      else (c, [sendCtrl c tcpAck c.sndNxt c.rcvNxt])
    else (c, [sendCtrl c tcpAck c.sndNxt c.rcvNxt])
  else (c, [])

/-- FIN processing. -/
def rxFin (env : Env) (id : ConnIdx) (c : TcpConn) (seg : Segment) : TcpConn × List Output :=
  if seg.has tcpFin then
    let c := { c with rcvNxt := c.rcvNxt + 1 }
    if c.state = .established then
      let c := { c with state := .closeWait }
      (c, sendCtrl c tcpAck c.sndNxt c.rcvNxt :: callOnClose c id)
    else if c.state = .finWait1 then
      let c := { c with state := .closing }
      (c, [sendCtrl c tcpAck c.sndNxt c.rcvNxt])
    else if c.state = .finWait2 then
      let c := { c with state := .timeWait, retxDeadline := timeWaitDeadline env }
      (c, [sendCtrl c tcpAck c.sndNxt c.rcvNxt])
    else (c, [])
  else (c, [])

/-- Everything `tcp_rx` does before data processing. -/
def rxPrologue (env : Env) (id : ConnIdx) (c : TcpConn) (seg : Segment)
    (srcIp dstIp : U32) : Flow :=
  if seg.has tcpRst then
    let (c, out) := rxRst id c seg
    .ret c out
  else if c.state = .synSent then
    let (c, out) := rxSynSent c seg srcIp dstIp
    .ret c out
  else
    match rxSynRcvd c seg with
    | .ret c out => .ret c out
    | .next c => rxAck env id c seg

/-- `tcp_rx` once the segment has been matched to slot `id`. -/
def rxConn (env : Env) (id : ConnIdx) (c : TcpConn) (seg : Segment)
    (srcIp dstIp : U32) : TcpConn × List Output :=
  match rxPrologue env id c seg srcIp dstIp with
  | .ret c out => (c, out)
  | .next c =>
    let (c, dataOut) := rxData id c seg
    let (c, finOut) := rxFin env id c seg
    (c, dataOut ++ finOut)

/-- The FIN block of `tcp_rx` runs: the segment carries a FIN and no earlier
phase returned. -/
def finProcessed (env : Env) (id : ConnIdx) (c : TcpConn) (seg : Segment)
    (srcIp dstIp : U32) : Bool :=
  match rxPrologue env id c seg srcIp dstIp with
  | .ret _ _ => false
  | .next _ => seg.has tcpFin

/-! ## What the phases leave alone

The receive side and the send side of a connection are updated by different
phases; these equations say which. -/

section Frame

variable (env : Env) (id : ConnIdx) (c : TcpConn) (seg : Segment)

/-- Advancing `snd_una` touches nothing but the send side. -/
theorem ackAdvance_eq : ∃ una wnd buf len count, ackAdvance c seg =
    { c with sndUna := una, sndWnd := wnd, retxBuf := buf, retxLen := len,
             retxCount := count } := by
  unfold ackAdvance
  split
  · dsimp only
    split
    · exact ⟨_, _, _, _, _, rfl⟩
    · exact ⟨_, _, _, _, _, rfl⟩
  · exact ⟨_, _, _, _, _, rfl⟩

/-- The connection after ACK processing, when that does not close it. -/
def ackUpdate : TcpConn :=
  if seg.has tcpAck then ackClosing env (ackFinWait1 (ackAdvance c seg) seg) seg
  else c

/-- The state after ACK processing. -/
def ackNextState : TcpState :=
  if seg.has tcpAck ∧ c.state = .finWait1 ∧ seg.ack = c.sndNxt then .finWait2
  else if seg.has tcpAck ∧ c.state = .closing ∧ seg.ack = c.sndNxt then .timeWait
  else c.state

/-- ACK processing changes only the state and the send side. -/
theorem ackUpdate_eq : ∃ una wnd buf len deadline count, ackUpdate env c seg =
    { c with state := ackNextState c seg, sndUna := una, sndWnd := wnd,
             retxBuf := buf, retxLen := len, retxDeadline := deadline,
             retxCount := count } := by
  obtain ⟨una, wnd, buf, len, count, hadv⟩ := ackAdvance_eq c seg
  by_cases hack : seg.has tcpAck
  · simp only [ackUpdate, ackNextState, hack, if_true, true_and, hadv, ackFinWait1]
    split
    · simp only [ackClosing, reduceCtorEq, false_and, if_false]
      exact ⟨_, _, _, _, _, _, rfl⟩
    · simp only [ackClosing]
      split
      · exact ⟨_, _, _, _, _, _, rfl⟩
      · exact ⟨_, _, _, _, _, _, rfl⟩
  · simp only [ackUpdate, ackNextState, hack, if_false, false_and, Bool.false_eq_true]
    exact ⟨_, _, _, _, _, _, rfl⟩

@[simp] theorem ackUpdate_state : (ackUpdate env c seg).state = ackNextState c seg := by
  obtain ⟨_, _, _, _, _, _, h⟩ := ackUpdate_eq env c seg
  rw [h]

@[simp] theorem ackUpdate_rx : (ackUpdate env c seg).rx = c.rx := by
  obtain ⟨_, _, _, _, _, _, h⟩ := ackUpdate_eq env c seg
  rw [h]

@[simp] theorem ackUpdate_rcvNxt : (ackUpdate env c seg).rcvNxt = c.rcvNxt := by
  obtain ⟨_, _, _, _, _, _, h⟩ := ackUpdate_eq env c seg
  rw [h]

/-- ACK processing closes the connection only from `LAST_ACK`. -/
theorem rxAck_eq : rxAck env id c seg =
    if seg.has tcpAck ∧ c.state = .lastAck ∧ seg.ack = c.sndNxt then
      .ret { retxClear c with state := .closed } (callOnClose c id)
    else .next (ackUpdate env c seg) := by
  by_cases hack : seg.has tcpAck
  · by_cases hlast : c.state = .lastAck
    · have hadv : ackAdvance c seg = c := by simp [ackAdvance, acksData, hlast]
      simp [rxAck, ackUpdate, hack, hadv, ackFinWait1, ackClosing, hlast]
    · have hstate : (ackUpdate env c seg).state ≠ .lastAck := by
        rw [ackUpdate_state, ackNextState]
        split
        · simp
        · split
          · simp
          · exact hlast
      simp only [ackUpdate, hack, if_true] at hstate
      simp [rxAck, ackUpdate, hack, hlast, hstate]
  · simp [rxAck, ackUpdate, hack]

/-- How many payload bytes a segment contributes: all that fit if it starts
at `rcv_nxt`, and none otherwise. -/
def acceptLen : Nat :=
  if receives c.state ∧ seg.seq = c.rcvNxt then min seg.data.length (rxFree c) else 0

/-- Data processing appends what it accepts to the ring and moves `rcv_nxt`
by as much. -/
theorem rxData_fst : (rxData id c seg).1 =
    { c with rx := c.rx.pushAll (seg.data.take (acceptLen c seg)),
             rcvNxt := c.rcvNxt + ofNat 32 (acceptLen c seg) } := by
  have hnone : acceptLen c seg = 0 →
      { c with rx := c.rx.pushAll (seg.data.take (acceptLen c seg)),
               rcvNxt := c.rcvNxt + ofNat 32 (acceptLen c seg) } = c := by
    intro h
    simp [h, RingBuffer.pushAll]
  simp only [rxData]
  split
  · rename_i hdata
    split
    · rename_i hseq
      split
      · simp [acceptLen, hdata.2, hseq, rxPush]
      · rename_i hfull
        rw [hnone]
        simp only [acceptLen, hdata.2, hseq, true_and, if_true]
        omega
    · rename_i hseq
      rw [hnone]
      simp [acceptLen, hseq]
  · rename_i hdata
    rw [hnone]
    simp only [acceptLen]
    split
    · rename_i hrecv
      have hempty : ¬ 0 < seg.data.length := fun h => hdata ⟨h, hrecv.1⟩
      omega
    · rfl

/-- Where a FIN leads. -/
def finNextState : TcpState → TcpState
  | .established => .closeWait
  | .finWait1 => .closing
  | .finWait2 => .timeWait
  | s => s

/-- FIN processing moves `rcv_nxt` by one and the state along
`finNextState`. -/
theorem rxFin_fst : ∃ deadline, (rxFin env id c seg).1 =
    if seg.has tcpFin then
      { c with rcvNxt := c.rcvNxt + 1, state := finNextState c.state, retxDeadline := deadline }
    else c := by
  by_cases hfin : seg.has tcpFin
  · cases hstate : c.state <;> simp only [rxFin, hfin, hstate, finNextState, if_true,
      if_false, reduceCtorEq] <;> exact ⟨_, rfl⟩
  · exact ⟨0, by simp [rxFin, hfin]⟩

end Frame

end Tcp
