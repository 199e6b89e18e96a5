import NamelessOS.SocketOwnership
import NamelessOS.TcpPeerFin

/-!
# Reading after the peer's close

A peer may send its FIN before the application has read everything.
`tcp.h` promises `on_close` when the connection reaches `CLOSED`; the FIN
branch of `tcp_rx` already calls it on the way to `CLOSE_WAIT`, and
`tcp_sock_close` then takes the connection away from its socket together with
the bytes still in the ring.  `recv_after_fin_iff` says exactly when nothing
is lost.
-/

namespace Socket

open Tcp List
open BitVec (setWidth)
open Prod (snd)

/-- The states of the network after any run of calls. -/
def Reachable (n : Net) : Prop := ∃ udp es, n = Runs.run netStep (initNet udp) es

/-- Socket `a` holds connection `k`, and no other does. -/
def Owns (socks : SockIdx → Sock) (a : SockIdx) (k : ConnIdx) : Prop :=
  Holds socks a k ∧ ∀ b, Holds socks b k → b = a

/-- The results and bytes of one `sys_recvfrom` after the other. -/
def recvAll (n : Net) (fd : U64) : List U64 → List (U64 × List U8)
  | [] => []
  | len :: lens =>
    let r := sysRecvfrom n fd len
    (r.2.1, r.2.2.1) :: recvAll r.1 fd lens

/-- Whatever lengths are asked for, the calls return the bytes in order, all
of them when enough is asked for, and none fails with `-ENOTCONN` before
that. -/
structure StaysReadable (n : Net) (fd : U64) (bytes : List U8) : Prop where
  inOrder : ∀ lens, (recvAll n fd lens).flatMap snd <+: bytes
  all : ∀ lens, (∀ len ∈ lens, setWidth 16 len ≠ 0) →
    bytes.length ≤ lens.length → (recvAll n fd lens).flatMap snd = bytes
  beforeError : ∀ lens pre r post, recvAll n fd lens = pre ++ r :: post →
    r.1 = err eNotConn → pre.flatMap snd = bytes

/-! ## Reading from a socket that has its connection -/

variable {n : Net} {fd : U64} {i : SockIdx} {k : ConnIdx}

section

variable (hfd : fdToIdx fd = some i)
include hfd

theorem recv_held (hi : Holds n.socks i k) (len : U64) :
    let r := sysRecvfrom n fd len
    let ring := (n.tcp.conns k).rx
    let count := min ring.avail (setWidth 16 len).toNat
    r.1.socks = n.socks ∧ (r.1.tcp.conns k).rx.contents = ring.contents.drop count ∧
      r.2.2.1 = ring.contents.take count ∧ r.2.1 ≠ err eNotConn := by
  intro r ring count
  obtain ⟨htype, hk⟩ := hi
  obtain ⟨hbytes, hrest⟩ := ring.popN_eq count (Nat.min_le_left _ _)
  have hr : r = ({ n with tcp := n.tcp.set k { n.tcp.conns k with rx := (ring.popN count).2 } },
      if (ring.popN count).1.length = 0 then err eAgain
        else BitVec.ofNat 64 (ring.popN count).1.length,
      (ring.popN count).1, none) := by
    simp only [r, sysRecvfrom, hfd, htype, hk, tcpRead, connIdx_val]
    rfl
  refine ⟨by rw [hr], ?_, by rw [hr]; exact hbytes, ?_⟩
  · rw [hr]
    simpa using hrest
  · rw [hr]
    have hshort : (ring.popN count).1.length < 4096 := by
      rw [hbytes, length_take, RingBuffer.contents_length]
      have hlt : ring.avail < 4096 := ring.avail_lt
      omega
    dsimp only
    split
    · decide
    · intro heq
      have hnat := congrArg BitVec.toNat heq
      rw [BitVec.toNat_ofNat, Nat.mod_eq_of_lt (by omega)] at hnat
      have hbig : (err eNotConn).toNat = 2 ^ 64 - 107 := by decide
      omega

theorem recvAll_held (hi : Holds n.socks i k) (lens : List U64) :
    (recvAll n fd lens).flatMap snd <+: (n.tcp.conns k).rx.contents ∧
      ((∀ len ∈ lens, setWidth 16 len ≠ 0) → (n.tcp.conns k).rx.contents.length ≤ lens.length →
          (recvAll n fd lens).flatMap snd = (n.tcp.conns k).rx.contents) ∧
      ∀ r ∈ recvAll n fd lens, r.1 ≠ err eNotConn := by
  induction lens generalizing n with
  | nil =>
    refine ⟨ nil_prefix, ?_, by simp [recvAll]⟩
    intro _ hlen
    have hnil := length_eq_zero_iff.mp (Nat.le_zero.mp hlen)
    rw [hnil]
    rfl
  | cons len lens ih =>
    obtain ⟨hsocks, hrest, hbytes, hret⟩ := recv_held hfd hi len
    have hi' : Holds (sysRecvfrom n fd len).1.socks i k := by rw [hsocks]; exact hi
    obtain ⟨hpre, hall, herr⟩ := ih hi'
    rw [hrest] at hpre hall
    simp only [recvAll, flatMap_cons, hbytes]
    refine ⟨?_, ?_, ?_⟩
    · have happ := (prefix_append_right_inj ((n.tcp.conns k).rx.contents.take
        (min (n.tcp.conns k).rx.avail (setWidth 16 len).toNat))).mpr hpre
      rwa [take_append_drop] at happ
    · intro hlens hlen
      have hpos : setWidth 16 len ≠ 0 := hlens len mem_cons_self
      have hcount : (setWidth 16 len).toNat ≠ 0 := by
        intro hzero
        exact hpos (BitVec.eq_of_toNat_eq (by simpa using hzero))
      grind [RingBuffer.contents_length, take_append_drop]
    · intro r hr
      rcases mem_cons.mp hr with rfl | hr
      · exact hret
      · exact herr r hr

theorem staysReadable_held (hi : Holds n.socks i k) :
    StaysReadable n fd (n.tcp.conns k).rx.contents where
  inOrder := fun lens => (recvAll_held hfd hi lens).1
  all := fun lens => (recvAll_held hfd hi lens).2.1
  beforeError := by
    intro lens pre r post hsplit hret
    refine absurd hret ((recvAll_held hfd hi lens).2.2 r ?_)
    rw [hsplit]
    simp

/-! ## Reading from a socket that has lost its connection -/

section

variable (htype : (n.socks i).type = .tcp) (hlost : (n.socks i).connId = none)
include htype hlost

theorem recvAll_lost (lens : List U64) :
    recvAll n fd lens = lens.map (fun _ => (err eNotConn, [])) := by
  induction lens with
  | nil => rfl
  | cons len lens ih =>
    have hrecv : sysRecvfrom n fd len = (n, err eNotConn, [], none) := by
      simp only [sysRecvfrom, hfd, htype, hlost]
    simp only [recvAll, hrecv, ih, map_cons]

theorem staysReadable_lost_iff {bytes : List U8} : StaysReadable n fd bytes ↔ bytes = [] := by
  have hall := recvAll_lost hfd htype hlost
  constructor
  · intro h
    exact (h.beforeError [0] [] (err eNotConn, []) [] (by rw [hall]; rfl) rfl).symm
  · rintro rfl
    refine ⟨fun lens => ?_, fun lens _ _ => ?_, fun lens pre r post hsplit _ => ?_⟩
    · rw [hall]
      simp
    · rw [hall]
      simp
    · have hmem : ∀ x ∈ pre, x.2 = [] := by
        intro x hx
        have hin : x ∈ recvAll n fd lens := by rw [hsplit]; simp [hx]
        rw [hall, mem_map] at hin
        obtain ⟨_, _, rfl⟩ := hin
        rfl
      exact flatMap_eq_nil_iff.mpr hmem

end

end

/-! ## The FIN -/

theorem reachable_reports (h : Reachable n) : ReportsTo .tcpSockClose n.tcp := by
  obtain ⟨udp, es, rfl⟩ := h
  have hany : Runs.StepsMeet netStep (fun _ _ => True) (initNet udp) es :=
    Runs.stepsMeet_of_forall (fun _ _ => trivial) _
  refine Runs.run_invariant (fun n : Net => ReportsTo .tcpSockClose n.tcp) ?_ ?_ hany
  · intro n e hn _
    obtain ⟨env, udpRet, call⟩ := e
    have hchange := netStep_change n env udpRet call
    generalize netStep n ⟨env, udpRet, call⟩ = n' at hchange ⊢
    generalize returned n ⟨env, udpRet, call⟩ = ret at hchange
    cases hchange with
    | quiet htcp _ => rw [htcp]; exact hn
    | tcp te hcb _ _ _ _ => exact step_reportsTo hn hcb
    | listen _ _ _ _ _ => exact step_reportsTo hn rfl
    | connect _ _ _ _ _ _ _ _ _ => exact step_reportsTo hn rfl
    | accept _ _ _ _ _ _ _ => exact step_reportsTo hn trivial
    | release _ _ => exact step_reportsTo hn trivial
  · exact fun _ hopen => absurd rfl hopen

/-- The sole owner of a connection is the one that `tcp_sock_close` finds. -/
theorem tcpSockClose_owner {socks : SockIdx → Sock} (h : Owns socks i k) :
    tcpSockClose socks k = Function.update socks i { socks i with connId := none } := by
  unfold tcpSockClose
  split
  · rename_i hnone
    rw [List.find?_eq_none] at hnone
    exact absurd (decide_eq_true h.1) (hnone i (mem_finRange i))
  · rename_i j hfound
    have hj : Holds socks j k := by simpa [Holds] using List.find?_some hfound
    rw [h.2 j hj]

/-- A segment with the peer's FIN that belongs to slot `k` and is next in
sequence there. -/
structure FinArrives (t : Table) (k : ConnIdx) (payload : Buffer) (srcIp : U32)
    (seg : Segment) : Prop where
  parsed : parseSegment payload = some seg
  matched : (lookup t seg srcIp (List.finRange tcpMaxConn) none).1 = some k
  noRst : seg.has tcpRst = false
  fin : seg.has tcpFin = true
  inOrder : FinInOrder (t.conns k) seg

theorem receives_cases {s : TcpState} (h : receives s = true) :
    s = .established ∨ s = .finWait1 ∨ s = .finWait2 := by
  simpa [receives, or_assoc] using h

theorem fin_rxConn (env : Env) (k : ConnIdx) {c : TcpConn} {seg : Segment}
    (srcIp dstIp : U32) (hrst : seg.has tcpRst = false) (hfin : seg.has tcpFin = true)
    (hrecv : receives c.state = true) : (rxConn env k c seg srcIp dstIp).1.rx =
        c.rx.pushAll (seg.data.take (acceptLen c seg)) ∧
      closeCalls (rxConn env k c seg srcIp dstIp).2 =
        if c.state = .established then callOnClose c k else [] := by
  have hstates := receives_cases hrecv
  have hsynced : Synced c.state := by
    rcases hstates with h | h | h <;> simp [Synced, h]
  have hlast : ¬ (seg.has tcpAck ∧ c.state = .lastAck ∧ seg.ack = c.sndNxt) := by
    rintro ⟨-, hbad, -⟩
    rcases hstates with h | h | h <;> simp [h] at hbad
  have hprocessed : finProcessed env k c seg srcIp dstIp = true := by
    obtain ⟨-, hsent, hrcvd⟩ := hsynced
    simp only [finProcessed, rxPrologue, hrst, hsent, rxSynRcvd, hrcvd, rxAck_eq, hlast,
      if_false, Bool.false_eq_true]
    exact hfin
  have hlife := (rxConn_life env k c seg srcIp dstIp).2
  have heffect := rxConn_effect env k seg srcIp dstIp hsynced
  cases heffect with
  | early _ _ _ hno =>
    rw [hprocessed] at hno
    cases hno
  | full hrx _ hstate _ =>
    refine ⟨hrx, ?_⟩
    rw [hfin, if_pos rfl] at hstate
    rw [hstate] at hlife
    generalize closeCalls (rxConn env k c seg srcIp dstIp).2 = calls at hlife ⊢
    by_cases hest : c.state = .established
    · have hnext : finNextState (ackNextState c seg) = .closeWait := by
        simp [ackNextState, hest, finNextState]
      rw [hnext] at hlife
      rw [if_pos hest]
      -- from ESTABLISHED only the peer's FIN leads to CLOSE_WAIT
      generalize hto : TcpState.closeWait = st at hlife
      cases hlife with
      | stays => rw [hest] at hto; cases hto
      | opens _ => cases hto
      | ends => cases hto
      | peerFin _ => rfl
      | windsDown hdown _ => simp [WindingDown, hest] at hdown
    · rw [if_neg hest]
      have hto : finNextState (ackNextState c seg) = .closing ∨
          finNextState (ackNextState c seg) = .timeWait := by
        rcases hstates with h | h | h
        · exact absurd h hest
        · by_cases hack : seg.has tcpAck = true ∧ seg.ack = c.sndNxt
          · simp [ackNextState, h, finNextState, hack]
          · left
            simp [ackNextState, h, hack, finNextState]
        · simp [ackNextState, h, finNextState]
      generalize finNextState (ackNextState c seg) = st at hlife hto
      cases hlife with
      | stays => rfl
      | opens _ => rfl
      | ends => rcases hto with h | h <;> cases h
      | peerFin _ => rcases hto with h | h <;> cases h
      | windsDown _ _ => rfl

theorem fin_segment {payload : Buffer} {srcIp : U32}
    {seg : Segment} (hfin : FinArrives n.tcp k payload srcIp seg)
    (hcb : (n.tcp.conns k).onClose = some .tcpSockClose) (env : Env)
    (udpRet : U32 → U16 → U16 → List U8 → Int) (dstIp : U32) :
    let n' := netStep n ⟨env, udpRet, .segment payload srcIp dstIp⟩
    (n'.tcp.conns k).rx = (n.tcp.conns k).rx.pushAll
        (seg.data.take (acceptLen (n.tcp.conns k) seg)) ∧
      n'.socks = if (n.tcp.conns k).state = .established then tcpSockClose n.socks k
        else n.socks := by
  intro n'
  obtain ⟨hparse, hlookup, hrst, hflag, hrecv, horder⟩ := hfin
  obtain ⟨lstn, hpair⟩ : ∃ lstn, lookup n.tcp seg srcIp (List.finRange tcpMaxConn) none =
      (some k, lstn) := ⟨_, Prod.ext hlookup rfl⟩
  have hconn : n'.tcp.conns k = (rxConn env k (n.tcp.conns k) seg srcIp dstIp).1 := by
    simp [n', netStep, Net.tcpDone, tcpRx, hparse, hpair]
  have hsocks : n'.socks = closeSockets (closeCalls
      (rxConn env k (n.tcp.conns k) seg srcIp dstIp).2) n.socks := by
    rw [closeSockets_closeCalls, ← outputs_segment hparse hlookup]
    rfl
  obtain ⟨hrx, hcalls⟩ := fin_rxConn env k srcIp dstIp hrst hflag hrecv
  rw [hconn, hsocks, hcalls]
  refine ⟨hrx, ?_⟩
  split
  · rw [callOnClose, hcb]
    rfl
  · rfl

theorem ring_empty_iff (c : TcpConn) (seg : Segment) (hrecv : receives c.state = true) :
    (c.rx.pushAll (seg.data.take (acceptLen c seg))).contents = [] ↔
      c.rx.head = c.rx.tail ∧ (seg.data = [] ∨ seg.seq ≠ c.rcvNxt) := by
  rw [contents_accept, append_eq_nil_iff, RingBuffer.contents_eq_nil_iff]
  constructor
  · rintro ⟨hempty, hnone⟩
    refine ⟨hempty, ?_⟩
    by_contra hboth
    rw [not_or, not_not] at hboth
    grind [rxFree, RingBuffer.avail_eq_zero_iff, acceptLen, length_take_acceptLen]
  grind [acceptLen]

/-- **Reading after the peer's close.**  In every reachable state, when the
peer's FIN arrives in order for a connection that one socket owns, the bytes
then in the ring stay readable through that socket exactly when the connection
was past `ESTABLISHED`, or its ring was empty and the FIN brought no new
bytes. -/
theorem recv_after_fin_iff {n : Net} (hn : Reachable n) {fd : U64} {i : SockIdx}
    (hfd : fdToIdx fd = some i) {k : ConnIdx} (howns : Owns n.socks i k)
    {payload : Buffer} {srcIp : U32} {seg : Segment}
    (hfin : FinArrives n.tcp k payload srcIp seg) (env : Env)
    (udpRet : U32 → U16 → U16 → List U8 → Int) (dstIp : U32) :
    let n' := netStep n ⟨env, udpRet, .segment payload srcIp dstIp⟩
    StaysReadable n' fd (n'.tcp.conns k).rx.contents ↔ ((n.tcp.conns k).state = .established →
        (n.tcp.conns k).rx.head = (n.tcp.conns k).rx.tail ∧
          (seg.data = [] ∨ seg.seq ≠ (n.tcp.conns k).rcvNxt)) := by
  intro n'
  have hrecv := hfin.inOrder.1
  have hopen : (n.tcp.conns k).state ≠ .closed := (lookup_matched hfin.matched).1
  obtain ⟨hrx, hsocks⟩ := fin_segment hfin (reachable_reports hn k hopen) env udpRet dstIp
  by_cases hest : (n.tcp.conns k).state = .established
  · rw [if_pos hest, tcpSockClose_owner howns] at hsocks
    have hsock : n'.socks i = { n.socks i with connId := none } := by
      simp [n', hsocks]
    have htype : (n'.socks i).type = .tcp := by
      rw [hsock]
      exact howns.1.1
    grind [staysReadable_lost_iff, ring_empty_iff]
  · rw [if_neg hest] at hsocks
    have hi : Holds n'.socks i k := by
      rw [hsocks]
      exact howns.1
    exact ⟨fun _ h => absurd h hest, fun _ => staysReadable_held hfd hi⟩

/-- The client's FIN, right after the handshake or after one byte. -/
def clientFin (seq : U32) : Buffer :=
  ⟨(clientHdr (tcpFin ||| tcpAck) seq (nextIsn 0x12345678#32 + 1)).bytes,
    by rw [TcpHdr.bytes_length]; decide⟩

/-- One byte from the client. -/
def clientByte : NetEvent := quietCall (.segment ⟨(clientHdr tcpAck 101
    (nextIsn 0x12345678#32 + 1)).bytes ++ [65], by decide⟩ 7 9)

/-- The server of `serveOne` after its client has sent one byte. -/
def oneByteUnread : List NetEvent := serveOne ++ [clientByte]

/-- The FIN as `tcp_rx` reads it. -/
def clientFinSegment (seq : U32) : Segment where
  srcPort := 5000
  dstPort := 80
  seq := seq
  ack := nextIsn 0x12345678#32 + 1
  wnd := 4096
  flags := tcpFin ||| tcpAck
  data := []

/-- The byte comes after one of two sockets on the connection has shut it down. -/
def closedUnread : Net := Runs.run netStep (initNet [])
  (serveOne ++ [quietCall (.accept 64), quietCall (.shutdown 65), clientByte])

theorem recv_after_fin_serveOne :
    let n' := netStep closedUnread (quietCall (.segment (clientFin 102) 7 9))
    (n'.tcp.conns 1).rx.contents = [65] ∧ StaysReadable n' 66 (n'.tcp.conns 1).rx.contents := by
  have howns : Owns closedUnread.socks 2 1 := ⟨by decide, by decide⟩
  have hfin : FinArrives closedUnread.tcp 1 (clientFin 102) 7 (clientFinSegment 102) :=
    ⟨by decide, by decide, by decide, by decide, by unfold FinInOrder; decide⟩
  refine ⟨by decide, ?_⟩
  refine (recv_after_fin_iff ⟨[], _, rfl⟩ (by decide) howns hfin quietEnv
    (fun _ _ _ _ => 0) 9).mpr ?_
  intro hest
  exact absurd hest (by decide)

/-- One byte is in the ring when the FIN arrives: the next read fails. -/
theorem fin_discards_unread_byte :
    let n := Runs.run netStep (initNet []) oneByteUnread
    let n' := netStep n (quietCall (.segment (clientFin 102) 7 9))
    Owns n.socks 1 1 ∧ FinArrives n.tcp 1 (clientFin 102) 7 (clientFinSegment 102) ∧
      (n'.tcp.conns 1).rx.contents = [65] ∧
      ¬ StaysReadable n' 65 (n'.tcp.conns 1).rx.contents := by
  refine ⟨⟨by decide, by decide⟩, ⟨by decide, by decide, by decide, by decide, ?_⟩,
    by decide, ?_⟩
  · unfold FinInOrder
    decide
  · have hfd : fdToIdx 65 = some 1 := by decide
    rw [staysReadable_lost_iff hfd (by decide) (by decide)]
    decide

end Socket
