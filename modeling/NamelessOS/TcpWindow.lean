import NamelessOS.TcpEmission
import NamelessOS.TcpSendSpace
import NamelessOS.TcpStraddling

/-!
# Windows

What the receiver promises and what the sender respects.  Every segment that is sent for a
connection advertises the constant `TCP_WINDOW`, the size of the ring, in whatever state
the ring is; the ring keeps one slot free, so it never has room for that much.  In the
other direction `snd_wnd` is stored with every acknowledgement and not read: `tcp_send`
sends what it is given.
-/

namespace Tcp

open ByteOrder SerialNumber Runs List

/-! ## The window that is advertised -/

/-- What reads as a segment other than a reset advertises the whole ring. -/
def Advertises (bytes : List U8) : Prop :=
  ∀ s, readSegment bytes = some s → s.has tcpRst = false → s.wnd = BitVec.ofNat 16 tcpWindow

variable {bytes : List U8}

theorem advertises_fillChecksum (c : TcpConn) (h : Advertises bytes) :
    Advertises (fillChecksum c bytes) := by
  intro s hs
  rw [readSegment_fillChecksum] at hs
  exact h s hs

theorem advertises_ctrl (c : TcpConn) (flags : U8) (seq ack : U32) :
    Advertises (connHdr c flags seq ack).bytes := by
  intro s hs _
  rw [readSegment_connHdr] at hs
  cases hs
  rfl

variable {c : TcpConn} {seq ack dst : U32}

theorem advertises_sendCtrl {flags : U8}
    (h : .ipv4Send dst bytes = sendCtrl c flags seq ack) : Advertises bytes := by
  cases h
  exact advertises_fillChecksum c (advertises_ctrl c flags seq ack)

theorem advertises_rst {srcIp dstIp : U32} {srcPort dstPort : U16} {flags : U8}
    (h : .ipv4Send dst bytes = sendRstReply srcIp srcPort dstIp dstPort seq ack flags) :
    Advertises bytes := by
  intro s hs hno
  rw [(readSegment_rst h hs).2.2.1] at hno
  cases hno

/-- The header of a data segment, when the segment is long enough to have one. -/
theorem advertises_dataSegment (c : TcpConn) (data : Buffer) : Advertises (dataSegment c data) := by
  intro s hs _
  by_cases hfits : tcpHdrLen + data.bytes.length < 65536
  · have hshort : ((connHdr c (tcpPsh ||| tcpAck) c.sndNxt c.rcvNxt).bytes ++
        data.bytes).length < 65536 := by
      rwa [length_append, TcpHdr.bytes_length]
    rw [dataSegment_eq c hfits, readSegment, dif_pos hshort, parseSegment_bytes_append _ _ rfl] at hs
    cases hs
    simp only [connHdr, ntohs_htons]
  grind [Buffer.short, dataSegment_length, parseSegment, readSegment]

/-- The segment kept for retransmission advertises the whole ring. -/
def KeptAdvertises (c : TcpConn) : Prop := ∀ bytes, keptSegment c = some bytes → Advertises bytes

theorem keptAdvertises_of_none (h : c.retxBuf = none) : KeptAdvertises c := by
  intro bytes hkept
  rw [keptSegment, h] at hkept
  cases hkept

theorem keptAdvertises_retxArm {env : Env} {data : List U8}
    (hlen : data.length < 65536) (h : Advertises data) : KeptAdvertises (retxArm env c data) := by
  intro bytes hkept
  rw [keptSegment_retxArm_eq hlen hkept]
  exact h

theorem keptAdvertises_ctrl (env : Env) (c : TcpConn) (flags : U8) (seq ack : U32) :
    KeptAdvertises (retxArm env c (connHdr c flags seq ack).bytes) :=
  keptAdvertises_retxArm (by rw [TcpHdr.bytes_length]; decide) (advertises_ctrl c flags seq ack)

theorem KeepsOrDrops.keptAdvertises {d : TcpConn} (h : KeepsOrDrops c d)
    (hkeep : KeptAdvertises c) : KeptAdvertises d := by
  rcases h with ⟨hbuf, hlen⟩ | hnone
  · intro bytes hkept
    rw [keptSegment, hbuf, hlen] at hkept
    exact hkeep bytes hkept
  · exact keptAdvertises_of_none hnone

variable {t : Table}

theorem keptAdvertises_step (e : Event) {i : ConnIdx} (h : KeptAdvertises (t.conns i)) :
    KeptAdvertises ((step t e).conns i) := by
  have hchange := step_slotChange t e i
  generalize (step t e).conns i = c at hchange ⊢
  cases hchange with
  | same _ => exact h
  | segment _ _ => exact (keepsOrDrops_rxConn ..).keptAdvertises h
  | passive _ _ _ _ => exact keptAdvertises_ctrl _ _ _ _ _
  | listen _ => exact keptAdvertises_of_none rfl
  | connect _ => exact keptAdvertises_ctrl _ _ _ _ _
  | @send env id data hsends =>
    grind [keptAdvertises_retxArm, dataSegment_length, advertises_dataSegment]
  | close _ => exact (keepsOrDrops_closeConn _).keptAdvertises h
  | tick =>
    intro bytes hkept s hs
    obtain ⟨bytes', hkept', hread⟩ := readSegment_tick hkept
    exact h bytes' hkept' s (hread ▸ hs)
  | accept _ _ => exact h
  | read _ => exact h

theorem keptAdvertises_run (es : List Event) (i : ConnIdx) :
    KeptAdvertises ((run step initTable es).conns i) := by
  have hinit : ∀ j, KeptAdvertises (initTable.conns j) := fun _ => keptAdvertises_of_none rfl
  exact run_invariant (fun t : Table => ∀ j, KeptAdvertises (t.conns j))
    (fun t e h _ j => keptAdvertises_step e (h j)) hinit (stepsMeet_of_forall (fun _ _ => trivial) _) i

/-- **Every segment**, wherever it is built, advertises the whole ring. -/
theorem outputs_advertise (hkept : ∀ i, KeptAdvertises (t.conns i)) {e : Event}
    (h : .ipv4Send dst bytes ∈ outputs t e) : Advertises bytes := by
  obtain ⟨env, call⟩ := e
  cases call with
  | rx payload srcIp dstIp =>
    cases tcpRx_sends h with
    | reply _ _ hsent =>
      cases rxConn_answers _ _ _ _ _ _ _ _ hsent with
      | ctrl _ hctrl => exact advertises_sendCtrl hctrl
      | reset hrst => exact advertises_rst hrst
    | synAck _ _ _ hsent => exact advertises_sendCtrl hsent
    | reset _ hsent => exact advertises_rst hsent
  | connect remoteIp remotePort localPort onData onClose =>
    simp only [outputs, tcpConnect] at h
    split at h
    · cases h
    · have hsent := mem_singleton.mp h
      rw [tcpSendRaw_retxArm] at hsent
      exact advertises_sendCtrl hsent
  | send id data =>
    obtain ⟨i, -, hsent⟩ := mem_tcpSend h
    cases hsent
    exact advertises_fillChecksum _ (advertises_dataSegment _ data)
  | close id =>
    simp only [outputs, tcpClose] at h
    split at h
    · cases h
    · exact advertises_sendCtrl (mem_closeConn _ h)
  | tick =>
    obtain ⟨i, -, hi⟩ := mem_flatMap.mp h
    have heffect := tickConn_effect env i (t.conns i)
    generalize tickConn env i (t.conns i) = r at heffect hi
    cases heffect with
    | idle => cases hi
    | expire _ => cases hi
    | abort _ => exact absurd hi (not_mem_callOnClose _ i dst bytes)
    | retransmit _ hbuf _ =>
      cases mem_singleton.mp hi
      exact advertises_fillChecksum _ (hkept i _ (by rw [keptSegment, hbuf]; rfl))
  | listen localPort onData onClose => cases h
  | accept listenPort => cases h
  | read id len => cases h

theorem rxFree_lt_window (c : TcpConn) : rxFree c < tcpWindow := by
  have hring : tcpRxBufSize = 4096 := rfl
  have hwindow : tcpWindow = 4096 := rfl
  rw [rxFree]
  omega

/-- **The advertised window is never honest.**  Whatever is sent for a connection, after
whatever happened before, promises more than the ring of any connection can take, and of
the bytes of a peer that uses the window in full some are not accepted. -/
theorem advertised_window_exceeds_room (es : List Event) (e : Event) (dst : U32) (bytes : List U8)
    (s : Segment) (hsent : .ipv4Send dst bytes ∈ outputs (run step initTable es) e)
    (hread : readSegment bytes = some s) (hrst : s.has tcpRst = false) (i : ConnIdx) :
    rxFree ((step (run step initTable es) e).conns i) < s.wnd.toNat ∧
      ∀ seg : Segment, seg.data.length = s.wnd.toNat →
        acceptLen ((step (run step initTable es) e).conns i) seg < seg.data.length := by
  generalize hc : (step (run step initTable es) e).conns i = c
  have hwnd : s.wnd.toNat = tcpWindow := by
    rw [outputs_advertise (keptAdvertises_run es) hsent s hread hrst]
    rfl
  have hfree := rxFree_lt_window c
  refine ⟨by omega, fun seg hlen => ?_⟩
  rw [acceptLen]
  split
  · omega
  · omega

/-- The first thing a client does. -/
def dial : Event := ⟨quietEnv, .connect 7 80 49216 none none⟩

/-- The SYN it sends. -/
def dialledSyn : List U8 :=
  let c := synSentConn bssConn quietEnv.ourIp (nextIsn initTable.isnCounter) 7 80 49216 none none
  fillChecksum c (synHdr c).bytes

theorem advertised_window_exceeds_room_syn : .ipv4Send 7 dialledSyn ∈ outputs initTable dial ∧
      rxFree ((step initTable dial).conns 0) < tcpWindow := by
  have hsent : .ipv4Send 7 dialledSyn ∈ outputs initTable dial := by decide +kernel
  have hread : readSegment dialledSyn = some
      ⟨49216, 80, nextIsn 0x12345678#32, 0, 4096, tcpSyn, []⟩ := by
    decide +kernel
  exact ⟨hsent, (advertised_window_exceeds_room [] dial 7 dialledSyn _ hsent hread (by decide) 0).1⟩

/-- The SYN promises 4096 bytes, and the empty ring takes 4095. -/
theorem syn_promises_one_byte_too_many : .ipv4Send 7 dialledSyn ∈ outputs initTable dial ∧
      readSegment dialledSyn = some ⟨49216, 80, nextIsn 0x12345678#32, 0, 4096, tcpSyn, []⟩ ∧
      ((step initTable dial).conns 0).state = .synSent ∧
      rxFree ((step initTable dial).conns 0) = 4095 := by
  decide +kernel

/-! ## The window that is respected -/

/-- Data may be sent. -/
def SendOpen (s : TcpState) : Prop := s = .established ∨ s = .closeWait

instance (s : TcpState) : Decidable (SendOpen s) := inferInstanceAs (Decidable (_ ∨ _))

/-- Octets sent and not acknowledged. -/
def outstanding (c : TcpConn) : Nat := ahead c.sndUna c.sndNxt

/-- A `tcp_send` that reports success leaves no more outstanding than the peer's window. -/
def SendStaysInWindow (t : Table) (e : Event) : Prop :=
  ∀ id data i, e.call = .send id data → connIdx id = some i → 0 ≤ (tcpSend e.env t id data).2.2 →
      outstanding ((step t e).conns i) ≤ ((step t e).conns i).sndWnd.toNat

/-- Only a call on an open connection succeeds. -/
theorem tcpSend_sendOpen {env : Env} {id : Int} {data : Buffer} {i : ConnIdx}
    (hid : connIdx id = some i) (hret : 0 ≤ (tcpSend env t id data).2.2) :
    SendOpen (t.conns i).state := by
  unfold tcpSend at hret
  rw [hid] at hret
  dsimp only at hret
  by_contra hclosed
  rw [if_pos (not_or.mp hclosed)] at hret
  exact absurd hret (by decide : ¬ (0 : Int) ≤ -1)

theorem retxArm_sndWnd (env : Env) (c : TcpConn) (seg : List U8) :
    (retxArm env c seg).sndWnd = c.sndWnd := by
  unfold retxArm; split <;> rfl

/-- A successful `tcp_send` adds the length of its data to what is outstanding and leaves
the peer's window alone. -/
theorem tcpSend_outstanding {env : Env} {id : Int} {data : Buffer} {i : ConnIdx}
    (hid : connIdx id = some i) (hret : 0 ≤ (tcpSend env t id data).2.2) :
    outstanding ((tcpSend env t id data).1.conns i) =
        (outstanding (t.conns i) + data.bytes.length) % 2 ^ 32 ∧
      ((tcpSend env t id data).1.conns i).sndWnd = (t.conns i).sndWnd := by
  by_cases hsends : Sends env t i id data
  · rw [tcpSend_of_sends hsends, Table.set_same, retxArm_sndWnd]
    refine ⟨?_, rfl⟩
    rw [outstanding, retxArm_sndUna, retxArm_sndNxt]
    exact ahead_add_ofNat _ _ _
  · have hnone : ∀ j, ¬ Sends env t j id data := by
      intro j hj
      cases hid.symm.trans hj.1
      exact hsends hj
    rcases tcpSend_of_refused hnone with hret' | ⟨hret', hdata, -⟩
    · rw [hret'] at hret
      exact absurd hret (by decide : ¬ (0 : Int) ≤ -1)
    · have hlt : outstanding (t.conns i) < 2 ^ 32 := ahead_lt _ _
      rw [hret', hdata, length_nil, Nat.add_zero, Nat.mod_eq_of_lt hlt]
      exact ⟨rfl, rfl⟩

/-! ### The books of a sender -/

/-- What a sender knows of a connection from its traffic: the number the peer
acknowledged last and the window it advertised with it, and the number of the
next octet to send. -/
structure Account where
  acked : U32
  next : U32
  window : U16

namespace Account

/-- A segment of the peer to a connection in state `s`: the one that completes
the handshake opens the books, a later one acknowledges octets. -/
def onSegment (a : Account) (s : TcpState) (seg : Segment) : Account :=
  if seg.has tcpRst || !seg.has tcpAck then a
  else if s = .synSent ∨ s = .synRcvd then ⟨seg.ack, seg.ack, seg.wnd⟩
  else if seqLeq a.acked seg.ack && seqLeq seg.ack a.next then
    { a with acked := seg.ack, window := seg.wnd }
  else a

/-- One call, seen from slot `i`. -/
def after (a : Account) (t : Table) (i : ConnIdx) (e : Event) : Account :=
  match e.call with
  | .rx payload srcIp _ =>
    match parseSegment payload with
    | none => a
    | some seg =>
      if (lookup t seg srcIp (finRange tcpMaxConn) none).1 = some i then
        a.onSegment (t.conns i).state seg
      else a
  | .send id data =>
    if Sends e.env t i id data then { a with next := a.next + BitVec.ofNat 32 data.bytes.length }
    else a
  | _ => a

/-- The books agree with the connection. -/
structure Agrees (a : Account) (c : TcpConn) : Prop where
  acked : a.acked = c.sndUna
  next : a.next = c.sndNxt
  window : a.window = c.sndWnd

end Account

/-- The module and the books its user keeps. -/
structure Booked where
  table : Table
  books : ConnIdx → Account

def Booked.init : Booked := ⟨initTable, fun _ => ⟨0, 0, 0⟩⟩

def Booked.step (b : Booked) (e : Event) : Booked :=
  ⟨Tcp.step b.table e, fun i => (b.books i).after b.table i e⟩

/-- A `tcp_send` on an open connection passes no more octets than its books have
room for. -/
def LeavesRoom (b : Booked) (e : Event) : Prop :=
  ∀ id data i, e.call = .send id data → connIdx id = some i →
    SendOpen (b.table.conns i).state →
      ahead (b.books i).acked (b.books i).next + data.bytes.length ≤ (b.books i).window.toNat

/-- The books of every connection on which data may be sent agree with it. -/
def Booked.Right (b : Booked) : Prop :=
  ∀ i, SendOpen (b.table.conns i).state → (b.books i).Agrees (b.table.conns i)

/-- Data and FIN processing leave the send side alone. -/
theorem Account.Agrees.dataFin {a : Account} {c : TcpConn} (h : a.Agrees c) (env : Env)
    (id : ConnIdx) (seg : Segment) : a.Agrees (rxFin env id (rxData id c seg).1 seg).1 := by
  obtain ⟨deadline, hfin⟩ := rxFin_fst env id (rxData id c seg).1 seg
  rw [hfin, rxData_fst]
  split
  · exact ⟨h.acked, h.next, h.window⟩
  · exact ⟨h.acked, h.next, h.window⟩

/-- ACK processing in an open state enters the acknowledgement into the books. -/
theorem Account.Agrees.ackUpdate {a : Account} {c : TcpConn} {seg : Segment} (h : a.Agrees c)
    (env : Env) (hopen : SendOpen c.state) (hrst : seg.has tcpRst = false) :
    (a.onSegment c.state seg).Agrees (Tcp.ackUpdate env c seg) := by
  have hacks : acksData c.state = true := by
    rcases hopen with hs | hs <;> rw [hs] <;> rfl
  have hphase : ¬ (c.state = .synSent ∨ c.state = .synRcvd) := by
    rcases hopen with hs | hs <;> rw [hs] <;> decide
  -- no other part of ACK processing applies to an open connection
  have hrest : ∀ d : TcpConn, d.state = c.state → ackClosing env (ackFinWait1 d seg) seg = d := by
    intro d hd
    rcases hopen with hs | hs <;> simp [ackFinWait1, ackClosing, hd, hs]
  unfold Tcp.ackUpdate Account.onSegment
  cases hack : seg.has tcpAck with
  | false => simpa [hrst] using h
  | true =>
    simp only [hrst, Bool.not_true, Bool.or_false, Bool.false_eq_true, if_false, if_true, hphase,
      hrest _ (ackAdvance_state c seg), h.acked, h.next]
    unfold ackAdvance
    rw [hacks, Bool.true_and]
    split
    · dsimp only
      split
      · exact ⟨rfl, rfl, rfl⟩
      · exact ⟨rfl, rfl, rfl⟩
    · exact h

/-- A state in which data may be sent after ACK and FIN processing was one
before. -/
theorem sendOpen_of_rxFin {env : Env} {id : ConnIdx} {c : TcpConn} {seg : Segment}
    (h : SendOpen (rxFin env id (rxData id c seg).1 seg).1.state) : SendOpen c.state := by
  obtain ⟨deadline, hfin⟩ := rxFin_fst env id (rxData id c seg).1 seg
  rw [hfin, rxData_fst] at h
  split at h
  · revert h
    show SendOpen (finNextState c.state) → SendOpen c.state
    cases c.state <;> decide
  · exact h

theorem sendOpen_of_ackUpdate {env : Env} {c : TcpConn} {seg : Segment}
    (h : SendOpen (ackUpdate env c seg).state) : SendOpen c.state := by
  rw [ackUpdate_state] at h
  unfold ackNextState at h
  split at h
  · exact absurd h (by decide)
  · split at h
    · exact absurd h (by decide)
    · exact h

/-- The handshake opens the books; nothing is outstanding then. -/
theorem Account.agrees_opened (a : Account) {c d : TcpConn} {seg : Segment}
    (hphase : c.state = .synSent ∨ c.state = .synRcvd) (hrst : seg.has tcpRst = false)
    (hack : seg.has tcpAck = true) (huna : d.sndUna = seg.ack) (hnxt : d.sndNxt = seg.ack)
    (hwnd : d.sndWnd = seg.wnd) : (a.onSegment c.state seg).Agrees d := by
  have hopened : a.onSegment c.state seg = ⟨seg.ack, seg.ack, seg.wnd⟩ := by
    simp [Account.onSegment, hrst, hack, hphase]
  rw [hopened]
  exact ⟨huna.symm, hnxt.symm, hwnd.symm⟩

theorem Account.agrees_rxSynSent (a : Account) {c : TcpConn} {seg : Segment} {srcIp dstIp : U32}
    (hphase : c.state = .synSent) (hrst : seg.has tcpRst = false)
    (hopen : SendOpen (rxSynSent c seg srcIp dstIp).1.state) :
    (a.onSegment c.state seg).Agrees (rxSynSent c seg srcIp dstIp).1 := by
  have hclosed : ¬ SendOpen c.state := by rw [hphase]; decide
  unfold rxSynSent at hopen ⊢
  split at hopen
  · exact absurd hopen hclosed
  · rename_i hack
    split at hopen
    · exact absurd hopen hclosed
    · rename_i hnxt
      split at hopen
      · exact absurd hopen hclosed
      · rename_i hsyn
        rw [if_neg hack, if_neg hnxt, if_neg hsyn]
        exact a.agrees_opened (.inl hphase) hrst (by simpa using hack) rfl
          (not_not.mp hnxt).symm rfl

/-- ACK processing of a connection that is open, or has just become so. -/
theorem Account.agrees_rxAck {a : Account} {c : TcpConn} {seg : Segment} (env : Env)
    (id : ConnIdx) (h : SendOpen c.state → a.Agrees c) (hrst : seg.has tcpRst = false)
    (hopen : SendOpen (rxAck env id c seg).conn.state) :
    (a.onSegment c.state seg).Agrees (rxAck env id c seg).conn := by
  rw [rxAck_eq] at hopen ⊢
  split at hopen
  · exact absurd (show SendOpen .closed from hopen) (by decide)
  · rename_i hlast
    rw [if_neg hlast]
    have hbefore := sendOpen_of_ackUpdate hopen
    exact (h hbefore).ackUpdate env hbefore hrst

/-- The segment that completes a passive open goes on to ACK processing, which
finds nothing more to acknowledge. -/
theorem Account.agrees_rxSynRcvd (a : Account) {c d : TcpConn} {seg : Segment} (env : Env)
    (hphase : c.state = .synRcvd) (hrst : seg.has tcpRst = false)
    (hnext : rxSynRcvd c seg = .next d) : d.state = .established ∧
      (a.onSegment c.state seg).Agrees (Tcp.ackUpdate env d seg) := by
  unfold rxSynRcvd at hnext
  rw [if_pos hphase] at hnext
  split at hnext
  · cases hnext
  · rename_i hack
    replace hack : seg.has tcpAck = true := by simpa using hack
    split at hnext
    · rename_i hnxt
      cases hnext
      refine ⟨rfl, ?_⟩
      have hopened : a.onSegment c.state seg = ⟨seg.ack, seg.ack, seg.wnd⟩ := by
        simp [Account.onSegment, hrst, hack, hphase]
      have hagain : (⟨seg.ack, seg.ack, seg.wnd⟩ : Account).onSegment .established seg =
          ⟨seg.ack, seg.ack, seg.wnd⟩ := by
        simp [Account.onSegment, hrst, hack, seqLeq_self]
      rw [hopened, ← hagain]
      refine Account.Agrees.ackUpdate (c := { retxClear { c with
        sndUna := seg.ack, sndWnd := seg.wnd } with state := .established }) ?_ env (.inl rfl) hrst
      exact ⟨rfl, hnxt, rfl⟩
    · cases hnext

/-- The phases before data processing. -/
theorem Account.agrees_rxPrologue {a : Account} {c : TcpConn} (env : Env) (id : ConnIdx)
    (seg : Segment) (srcIp dstIp : U32) (h : SendOpen c.state → a.Agrees c)
    (hopen : SendOpen (rxPrologue env id c seg srcIp dstIp).conn.state) :
    (a.onSegment c.state seg).Agrees (rxPrologue env id c seg srcIp dstIp).conn := by
  unfold rxPrologue at hopen ⊢
  cases hrst : seg.has tcpRst with
  | true =>
    have hsame : a.onSegment c.state seg = a := by simp [Account.onSegment, hrst]
    rw [hsame]
    simp only [hrst, if_true, rxRst] at hopen ⊢
    split at hopen
    · exact absurd (show SendOpen .closed from hopen) (by decide)
    · rename_i hkept
      rw [if_neg hkept]
      exact h hopen
  | false =>
    simp only [hrst, Bool.false_eq_true, if_false] at hopen ⊢
    split at hopen
    · rename_i hsent
      rw [if_pos hsent]
      exact a.agrees_rxSynSent hsent hrst hopen
    · rename_i hsent
      rw [if_neg hsent]
      by_cases hrcvd : c.state = .synRcvd
      · cases hflow : rxSynRcvd c seg with
        | ret d out =>
          -- the handshake is not complete
          have hd : d = c := by
            unfold rxSynRcvd at hflow
            rw [if_pos hrcvd] at hflow
            grind
          rw [hflow] at hopen
          change SendOpen d.state at hopen
          rw [hd, hrcvd] at hopen
          exact absurd hopen (by decide)
        | next d =>
          obtain ⟨hd, hagrees⟩ := a.agrees_rxSynRcvd env hrcvd hrst hflow
          dsimp only
          rw [rxAck_eq, if_neg (by simp [hd])]
          exact hagrees
      · have hflow : rxSynRcvd c seg = .next c := by simp [rxSynRcvd, hrcvd]
        rw [hflow] at hopen ⊢
        exact Account.agrees_rxAck env id h hrst hopen

/-- **A segment and the books**: they agree with the connection afterwards, if
they did before or if the segment opens it. -/
theorem Account.agrees_rxConn {a : Account} {c : TcpConn} (env : Env) (id : ConnIdx)
    (seg : Segment) (srcIp dstIp : U32) (h : SendOpen c.state → a.Agrees c)
    (hopen : SendOpen (rxConn env id c seg srcIp dstIp).1.state) :
    (a.onSegment c.state seg).Agrees (rxConn env id c seg srcIp dstIp).1 := by
  have hpro := Account.agrees_rxPrologue env id seg srcIp dstIp h
  unfold rxConn at hopen ⊢
  generalize rxPrologue env id c seg srcIp dstIp = r at hopen hpro ⊢
  cases r with
  | ret d out => exact hpro hopen
  | next d => exact (hpro (sendOpen_of_rxFin hopen)).dataFin env id seg

theorem not_sendOpen_closeConn (c : TcpConn) : ¬ SendOpen (closeConn c).1.state := by
  unfold closeConn
  split <;> simp_all [SendOpen]

theorem Account.Agrees.of_same {a : Account} {c d : TcpConn} (h : a.Agrees c)
    (huna : d.sndUna = c.sndUna) (hnxt : d.sndNxt = c.sndNxt) (hwnd : d.sndWnd = c.sndWnd) :
    a.Agrees d := ⟨h.acked.trans huna.symm, h.next.trans hnxt.symm, h.window.trans hwnd.symm⟩

/-- A call that does not concern slot `i` leaves its books alone. -/
theorem Account.after_elsewhere (a : Account) {t : Table} {i : ConnIdx} {e : Event}
    (h : Elsewhere t i e) : a.after t i e = a := by
  obtain ⟨env, call⟩ := e
  cases call with
  | rx payload srcIp dstIp =>
    cases hparse : parseSegment payload with
    | none => simp [Account.after, hparse]
    | some seg => simp [Account.after, hparse, (h seg hparse).1]
  | send id data => exact if_neg h
  | _ => rfl

/-- **What a call does to the books**: they stay right. -/
theorem Booked.Right.step {b : Booked} (h : b.Right) (e : Event) : (b.step e).Right := by
  intro i hopen
  have hchange := step_slotChange b.table e i
  have hi := h i
  show ((b.books i).after b.table i e).Agrees ((Tcp.step b.table e).conns i)
  change SendOpen ((Tcp.step b.table e).conns i).state at hopen
  generalize (Tcp.step b.table e).conns i = c at hchange hopen ⊢
  cases hchange with
  | same helse =>
    rw [(b.books i).after_elsewhere helse]
    exact hi hopen
  | @segment env payload srcIp dstIp seg hparse hlookup =>
    have hafter : (b.books i).after b.table i ⟨env, .rx payload srcIp dstIp⟩ =
        (b.books i).onSegment (b.table.conns i).state seg := by
      simp [Account.after, hparse, hlookup]
    rw [hafter]
    exact Account.agrees_rxConn env i seg srcIp dstIp hi hopen
  | passive _ _ _ _ =>
    rw [retxArm_state] at hopen
    exact absurd (show SendOpen .synRcvd from hopen) (by decide)
  | listen _ => exact absurd (show SendOpen .listen from hopen) (by decide)
  | connect _ =>
    rw [retxArm_state] at hopen
    exact absurd (show SendOpen .synSent from hopen) (by decide)
  | @send env id data hsends =>
    rw [retxArm_state] at hopen
    have hbooks := hi hopen
    have hafter : (b.books i).after b.table i ⟨env, .send id data⟩ =
        { b.books i with next := (b.books i).next + BitVec.ofNat 32 data.bytes.length } :=
      if_pos hsends
    rw [hafter]
    refine ⟨?_, ?_, ?_⟩
    · rw [retxArm_sndUna]
      exact hbooks.acked
    · rw [retxArm_sndNxt, hbooks.next]
    · rw [retxArm_sndWnd]
      exact hbooks.window
  | close _ => exact absurd hopen (not_sendOpen_closeConn _)
  | @tick env =>
    have heffect := tickConn_effect env i (b.table.conns i)
    generalize tickConn env i (b.table.conns i) = r at heffect hopen ⊢
    cases heffect with
    | idle => exact hi hopen
    | expire _ => exact absurd (show SendOpen .closed from hopen) (by decide)
    | abort _ => exact absurd (show SendOpen .closed from hopen) (by decide)
    | retransmit _ _ _ => exact (hi hopen).of_same rfl rfl rfl
  | accept _ _ => exact (hi hopen).of_same rfl rfl rfl
  | read _ => exact (hi hopen).of_same rfl rfl rfl

/-- A `tcp_send` within the room of right books stays in the peer's window. -/
theorem Booked.Right.sendStaysInWindow {b : Booked} (h : b.Right) {e : Event}
    (hroom : LeavesRoom b e) : SendStaysInWindow b.table e := by
  obtain ⟨env, call⟩ := e
  intro id data i hcall hid hret
  cases hcall
  have hopen : SendOpen (b.table.conns i).state := tcpSend_sendOpen hid hret
  have hbooks := h i hopen
  have hfits := hroom id data i rfl hid hopen
  rw [hbooks.acked, hbooks.next, hbooks.window] at hfits
  obtain ⟨hout, hwnd⟩ := tcpSend_outstanding hid hret
  rw [Tcp.step, hout, hwnd]
  exact (Nat.mod_le _ _).trans hfits

/-- **The peer's window is kept in every run whose caller keeps it.**  Nothing in
`tcp_send` holds data back; if the caller keeps books of what it has sent and of
what the peer has acknowledged and advertised, and sends no more than they have
room for, then right after every successful `tcp_send` no more is outstanding
than the peer's window. -/
theorem sends_stay_in_window (es : List Event)
    (hroom : StepsMeet Booked.step LeavesRoom Booked.init es) :
    StepsMeet step SendStaysInWindow initTable es := by
  have hright : Booked.init.Right := by
    intro i hopen
    exact absurd (show SendOpen .closed from hopen) (by decide)
  have hall : StepsMeet Booked.step (fun b e => SendStaysInWindow b.table e) Booked.init es :=
    stepsMeet_of_invariant Booked.Right (fun _ e h _ => h.step e)
      (fun _ _ h hok => h.sendStaysInWindow hok) hright hroom
  exact hall.project Booked.table (fun _ _ => rfl)

/-- Two bytes sent in a row to a peer with a window of 4096. -/
theorem sends_stay_in_window_backToBack :
    StepsMeet step SendStaysInWindow initTable backToBackSends := by
  refine sends_stay_in_window _ ⟨nofun, nofun, ?_, ?_, trivial⟩
  · intro id data i hcall hid _
    cases hcall
    cases hid
    decide +kernel
  · intro id data i hcall hid _
    cases hcall
    cases hid
    decide +kernel

/-- A client that advertises a window of zero connects to port 80. -/
def zeroWindowClient : List Event := [⟨quietEnv, .listen 80 none none⟩,
   ⟨quietEnv, .rx ⟨(sampleHdr tcpSyn 100).bytes, by decide⟩ 7 9⟩,
   ⟨quietEnv, .rx ⟨({ sampleHdr tcpAck 101 with
      ack := htonl (nextIsn 0x12345678#32 + 1) } : TcpHdr).bytes, by decide⟩ 7 9⟩]

/-- One byte is sent to it, successfully. -/
theorem zero_window_overrun : ((run step initTable zeroWindowClient).conns 1).state = .established ∧
      ((run step initTable zeroWindowClient).conns 1).sndWnd = 0 ∧
      (tcpSend quietEnv (run step initTable zeroWindowClient) 1 ⟨[1], by decide⟩).2.2 = 0 ∧
      outstanding ((tcpSend quietEnv (run step initTable zeroWindowClient) 1
        ⟨[1], by decide⟩).1.conns 1) = 1 ∧
      ¬ StepsMeet step SendStaysInWindow initTable
        (zeroWindowClient ++ [⟨quietEnv, .send 1 ⟨[1], by decide⟩⟩]) := by
  have hret : (tcpSend quietEnv (run step initTable zeroWindowClient) 1 ⟨[1], by decide⟩).2.2 = 0 := by
    decide +kernel
  have hover : ¬ outstanding ((step (run step initTable zeroWindowClient)
        ⟨quietEnv, .send 1 ⟨[1], by decide⟩⟩).conns 1) ≤
      ((step (run step initTable zeroWindowClient)
        ⟨quietEnv, .send 1 ⟨[1], by decide⟩⟩).conns 1).sndWnd.toNat := by
    decide +kernel
  refine ⟨by decide +kernel, by decide +kernel, hret, by decide +kernel, fun h => ?_⟩
  rw [stepsMeet_append] at h
  exact hover (h.2.1 1 ⟨[1], by decide⟩ 1 rfl (by decide) (by
    rw [hret]))

end Tcp
