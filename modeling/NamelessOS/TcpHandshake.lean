import NamelessOS.TcpEmission

/-!
# A connection during its handshake

What `tcp_rx` and the other calls can do to a connection on which neither data
nor a FIN is sent: every slot that comes to hold it does so in one of five ways
(`Turn`), every segment sent on it is one of five kinds (`Said`).  A segment
that carries nothing moves such a connection at most from `SYN_RCVD` to
`ESTABLISHED`.
-/

namespace Tcp

/-! ## Segments that carry nothing -/

section Bare

variable (env : Env) (id : ConnIdx) {c : TcpConn} {seg : Segment} (srcIp dstIp : U32)

theorem rxConn_rst (hrst : seg.has tcpRst = true) :
    rxConn env id c seg srcIp dstIp = rxRst id c seg := by
  simp [rxConn, rxPrologue, hrst]

theorem rxConn_synSent (hrst : seg.has tcpRst = false) (hstate : c.state = .synSent) :
    rxConn env id c seg srcIp dstIp = rxSynSent c seg srcIp dstIp := by
  simp [rxConn, rxPrologue, hrst, hstate]

/-- The connection went on in `ESTABLISHED`, with nothing kept to send
again. -/
structure Acked (c d : TcpConn) : Prop where
  state : d.state = .established
  ident : ident d = ident c
  sndNxt : d.sndNxt = c.sndNxt
  rcvNxt : d.rcvNxt = c.rcvNxt
  retxBuf : d.retxBuf = none

theorem acked_ackUpdate (hstate : c.state = .established) (hretx : c.retxBuf = none) :
    Acked c (ackUpdate env c seg) := by
  have hadvance : Acked c (ackAdvance c seg) := by
    unfold ackAdvance
    split
    · dsimp only
      split
      · exact ⟨hstate, rfl, rfl, rfl, rfl⟩
      · exact ⟨hstate, rfl, rfl, rfl, hretx⟩
    · exact ⟨hstate, rfl, rfl, rfl, hretx⟩
  have hwait : ackFinWait1 (ackAdvance c seg) seg = ackAdvance c seg := by
    simp [ackFinWait1, hadvance.state]
  have hclosing : ackClosing env (ackAdvance c seg) seg = ackAdvance c seg := by
    simp [ackClosing, hadvance.state]
  unfold ackUpdate
  split
  · rwa [hwait, hclosing]
  · exact ⟨hstate, rfl, rfl, rfl, hretx⟩

/-- A bare segment that leaves the handshake phase is at most an
acknowledgement. -/
theorem rxConn_next {d : TcpConn} (hrst : seg.has tcpRst = false) (hbare : Bare seg)
    (hsent : c.state ≠ .synSent) (hnext : rxSynRcvd c seg = .next d)
    (hstate : d.state = .established) :
    rxConn env id c seg srcIp dstIp = (ackUpdate env d seg, []) := by
  have hack : rxAck env id d seg = .next (ackUpdate env d seg) := by
    rw [rxAck_eq, if_neg (by simp [hstate])]
  simp [rxConn, rxPrologue, hrst, hsent, hnext, hack, rxData, hbare.1, rxFin, hbare.2]

theorem rxConn_established (hrst : seg.has tcpRst = false) (hbare : Bare seg)
    (hstate : c.state = .established) :
    rxConn env id c seg srcIp dstIp = (ackUpdate env c seg, []) :=
  rxConn_next env id srcIp dstIp hrst hbare (by simp [hstate])
    (by simp [rxSynRcvd, hstate]) hstate

/-- The connection as the acknowledgement of its SYN-ACK leaves it. -/
def completed (c : TcpConn) (seg : Segment) : TcpConn :=
  { retxClear { c with sndUna := seg.ack, sndWnd := seg.wnd } with state := .established }

/-- In `SYN_RCVD` a bare segment is ignored unless it acknowledges our SYN. -/
theorem rxConn_synRcvd (hrst : seg.has tcpRst = false) (hbare : Bare seg)
    (hstate : c.state = .synRcvd) : rxConn env id c seg srcIp dstIp = (c, []) ∨
      (seg.has tcpAck = true ∧ seg.ack = c.sndNxt ∧
        ∃ d, rxConn env id c seg srcIp dstIp = (d, []) ∧ Acked c d) := by
  by_cases hack : seg.has tcpAck = true ∧ seg.ack = c.sndNxt
  · right
    -- the completed connection goes through ACK processing once more
    have hnext : rxSynRcvd c seg = .next (completed c seg) := by
      rw [rxSynRcvd, if_pos hstate, if_neg (by simp [hack.1]), if_pos hack.2]
      rfl
    have hdone : Acked (completed c seg) (ackUpdate env (completed c seg) seg) :=
      acked_ackUpdate env rfl rfl
    exact ⟨hack.1, hack.2, _,
      rxConn_next env id srcIp dstIp hrst hbare (by simp [hstate]) hnext rfl,
      hdone.state, hdone.ident, hdone.sndNxt, hdone.rcvNxt, hdone.retxBuf⟩
  · left
    have hret : rxSynRcvd c seg = .ret c [] := by
      rw [rxSynRcvd, if_pos hstate]
      split
      · rfl
      · rename_i hhas
        rw [if_neg (fun h => hack ⟨by simpa using hhas, h⟩)]
    simp [rxConn, rxPrologue, hrst, hstate, hret]

end Bare

/-! ## One connection in a table -/

theorem live_of_established {c : TcpConn} (h : c.state = .established) : Live c := by
  simp [Live, h]

theorem live_of_synSent {c : TcpConn} (h : c.state = .synSent) : Live c := by
  simp [Live, h]

/-- A slot without a connection and with nothing to send. -/
def Idle (c : TcpConn) : Prop := ¬ Live c ∧ c.retxBuf = none

/-- The slot is as far in the handshake as it was. -/
structure Carried (c d : TcpConn) : Prop where
  state : d.state = c.state
  sndNxt : d.sndNxt = c.sndNxt
  rcvNxt : d.rcvNxt = c.rcvNxt
  retxBuf : c.retxBuf = none → d.retxBuf = none
  kept : ∀ bytes, keptSegment d = some bytes →
    ∃ bytes', keptSegment c = some bytes' ∧ readSegment bytes = readSegment bytes'

theorem Carried.refl (c : TcpConn) : Carried c c :=
  ⟨rfl, rfl, rfl, id, fun bytes h => ⟨bytes, h, rfl⟩⟩

theorem Carried.idle {c d : TcpConn} (h : Carried c d) (hidle : Idle c) : Idle d := by
  refine ⟨?_, h.retxBuf hidle.2⟩
  unfold Live
  rw [h.state]
  exact hidle.1

/-- Every segment the slot keeps reads as one with property `P`. -/
def KeptReads (c : TcpConn) (P : Segment → Prop) : Prop :=
  ∀ bytes, keptSegment c = some bytes → ∀ s, readSegment bytes = some s → P s

variable {P : Segment → Prop}

theorem Carried.keptReads {c d : TcpConn} (h : Carried c d)
    (hkept : KeptReads c P) : KeptReads d P := by
  intro bytes hbytes s hs
  obtain ⟨bytes', hbytes', hread⟩ := h.kept bytes hbytes
  exact hkept bytes' hbytes' s (hread ▸ hs)

theorem keptReads_retxArm {env : Env} {c : TcpConn} {flags : U8} {seq ack : U32} (h : P (ctrlSegment c flags seq ack)) :
    KeptReads (retxArm env c (connHdr c flags seq ack).bytes) P := by
  intro bytes hbytes s hs
  rw [keptSegment_retxArm_eq (by rw [TcpHdr.bytes_length]; decide) hbytes,
    readSegment_connHdr] at hs
  cases hs
  exact h

/-- Outside `TIME_WAIT` a tick gives the connection up or leaves it. -/
theorem tick_carried (env : Env) (id : ConnIdx) {c : TcpConn} (hstate : c.state ≠ .timeWait) :
    Idle (tickConn env id c).1 ∨ Carried c (tickConn env id c).1 := by
  have hread : ∀ bytes, keptSegment (tickConn env id c).1 = some bytes →
      ∃ bytes', keptSegment c = some bytes' ∧ readSegment bytes = readSegment bytes' :=
    fun _ => readSegment_tick
  have heffect := tickConn_effect env id c
  generalize tickConn env id c = r at heffect hread ⊢
  cases heffect with
  | idle => exact .inr (.refl c)
  | expire h => exact absurd h hstate
  | abort _ => exact .inl ⟨fun h => h.1 rfl, rfl⟩
  | retransmit _ hbuf _ =>
    exact .inr ⟨rfl, rfl, rfl, fun h => absurd (h.symm.trans hbuf) (by simp), hread⟩

/-- A close that sends nothing leaves the slot or clears it. -/
theorem close_carried {c : TcpConn} (h : (closeConn c).2 = []) :
    Idle (closeConn c).1 ∨ Carried c (closeConn c).1 := by
  unfold closeConn at h ⊢
  split at h
  · cases h
  · cases h
  · cases h
  · exact .inl ⟨fun h => h.1 rfl, rfl⟩
  · exact .inl ⟨fun h => h.1 rfl, rfl⟩
  · exact .inr (.refl c)

/-- The call is the active open of connection `me`. -/
def Dials (e : Event) (me : U16 × U32 × U16) : Prop :=
  match e.call with
  | .connect remoteIp remotePort localPort _ _ => (localPort, remoteIp, remotePort) = me
  | _ => False

/-- Segments that arrive on connection `me` have property `P`, and the call
sends neither data nor a FIN on it. -/
def Meets (t : Table) (me : U16 × U32 × U16) (P : Segment → Prop) (e : Event) : Prop :=
  match e.call with
  | .rx payload srcIp _ =>
    ∀ seg, parseSegment payload = some seg → addressee seg srcIp = me → P seg
  | .send id _ => ∀ i, connIdx id = some i → ident (t.conns i) = me → outputs t e = []
  | .close id => ∀ i, connIdx id = some i → ident (t.conns i) = me → outputs t e = []
  | _ => True

/-- How slot `i` can come to hold connection `me` after a call. -/
inductive Turn (t : Table) (me : U16 × U32 × U16) (P : Segment → Prop) (e : Event)
    (i : ConnIdx) : TcpConn → Prop
  | idle {c : TcpConn} (h : Idle c) : Turn t me P e i c
  | carried {c : TcpConn} (hident : ident (t.conns i) = me) (h : Carried (t.conns i) c) :
      Turn t me P e i c
  | dialed {c : TcpConn} (hdials : Dials e me) (halloc : connAlloc t = some i)
      (hstate : c.state = .synSent) (hnxt : c.sndNxt = nextIsn t.isnCounter + 1)
      (hkept : KeptReads c (fun s => Bare s ∧ s.has tcpRst = false ∧ s.has tcpAck = false ∧
        s.seq = nextIsn t.isnCounter)) :
      Turn t me P e i c
  | heard {env : Env} {seg : Segment} {srcIp dstIp : U32} (hseg : P seg)
      (hlive : Live (t.conns i)) (hmatch : Matches (t.conns i) seg srcIp)
      (hident : ident (t.conns i) = me) :
      Turn t me P e i (rxConn env i (t.conns i) seg srcIp dstIp).1
  | opened {seg : Segment} {c : TcpConn} (hseg : P seg) (hsyn : seg.has tcpSyn = true)
      (hack : seg.has tcpAck = false) (hstate : c.state = .synRcvd)
      (hnxt : c.rcvNxt = seg.seq + 1)
      (hkept : KeptReads c (fun s => Bare s ∧ s.has tcpAck = true)) :
      Turn t me P e i c

variable {t : Table} {i : ConnIdx}

theorem outputs_send {env : Env} {id : Int} {data : Buffer}
    (h : Sends env t i id data) : outputs t ⟨env, .send id data⟩ ≠ [] := by
  have hnew : newSegment t ⟨env, .send id data⟩ i = some (dataSegment (t.conns i) data) := if_pos h
  exact List.ne_nil_of_mem (newSegment_sent hnew)

theorem outputs_close {env : Env} {id : Int} (hid : connIdx id = some i) :
    outputs t ⟨env, .close id⟩ = (closeConn (t.conns i)).2 := by
  simp only [outputs, tcpClose, hid]

/-- **What a call can do to a connection** that carries neither data nor a
FIN. -/
theorem step_turn {me : U16 × U32 × U16} {e : Event} (hmeets : Meets t me P e)
    (hwait : ident (t.conns i) = me → (t.conns i).state ≠ .timeWait)
    (hident : ident ((step t e).conns i) = me) : Turn t me P e i ((step t e).conns i) := by
  have hchange := step_slotChange t e i
  generalize (step t e).conns i = c at hchange hident ⊢
  cases hchange with
  | same _ => exact .carried hident (.refl _)
  | segment hparse hlookup =>
    obtain ⟨hopen, hlisten, hmatch⟩ := lookup_matched hlookup
    rw [ident_rxConn] at hident
    exact .heard (hmeets _ hparse ((ident_of_matches hmatch).symm.trans hident))
      ⟨hopen, hlisten⟩ hmatch hident
  | @passive env payload srcIp dstIp seg l hparse hopens _ _ =>
    rw [ident_retxArm] at hident
    refine .opened (hmeets seg hparse hident) hopens.2.2.1 hopens.2.2.2.1 ?_ ?_ ?_
    · rw [retxArm_state]
      rfl
    · rw [retxArm_rcvNxt]
      rfl
    · exact keptReads_retxArm ⟨⟨rfl, (by decide : ((tcpSyn ||| tcpAck) &&& tcpFin != 0) = false)⟩,
        (by decide : ((tcpSyn ||| tcpAck) &&& tcpAck != 0) = true)⟩
  | listen _ => exact .idle ⟨fun h => h.2 rfl, rfl⟩
  | connect halloc =>
    rw [ident_retxArm] at hident
    refine .dialed hident halloc ?_ ?_ ?_
    · rw [retxArm_state]
      rfl
    · rw [retxArm_sndNxt]
      rfl
    · exact keptReads_retxArm ⟨⟨rfl, (by decide : (tcpSyn &&& tcpFin != 0) = false)⟩,
        (by decide : (tcpSyn &&& tcpRst != 0) = false),
        (by decide : (tcpSyn &&& tcpAck != 0) = false), rfl⟩
  | send hsends =>
    rw [ident_retxArm] at hident
    exact absurd (hmeets i hsends.1 hident) (outputs_send hsends)
  | close hid =>
    rw [ident_closeConn] at hident
    have hquiet := hmeets i hid hident
    rw [outputs_close hid] at hquiet
    rcases close_carried hquiet with hidle | hcarried
    · exact .idle hidle
    · exact .carried hident hcarried
  | tick =>
    rw [ident_tickConn] at hident
    rcases tick_carried _ i (hwait hident) with hidle | hcarried
    · exact .idle hidle
    · exact .carried hident hcarried
  | accept _ _ => exact .carried hident ⟨rfl, rfl, rfl, id, fun bytes h => ⟨bytes, h, rfl⟩⟩
  | read _ => exact .carried hident ⟨rfl, rfl, rfl, id, fun bytes h => ⟨bytes, h, rfl⟩⟩

/-- How a call can come to send segment `s` on connection `me`. -/
inductive Said (t : Table) (me : U16 × U32 × U16) (P : Segment → Prop) (e : Event)
    (s : Segment) : Prop
  | reply {env : Env} {seg : Segment} {srcIp dstIp dst : U32} {i : ConnIdx} {bytes : List U8}
      (hseg : P seg) (hlive : Live (t.conns i)) (hident : ident (t.conns i) = me)
      (hstep : (step t e).conns i = (rxConn env i (t.conns i) seg srcIp dstIp).1)
      (hsent : .ipv4Send dst bytes ∈ (rxConn env i (t.conns i) seg srcIp dstIp).2)
      (hread : readSegment bytes = some s)
  | synAck {seg : Segment} (hseg : P seg) (hsyn : seg.has tcpSyn = true)
      (hnack : seg.has tcpAck = false) (hbare : Bare s) (hack : s.has tcpAck = true)
  | reset (hbare : Bare s) (hrst : s.has tcpRst = true) (hsyn : s.has tcpSyn = false)
  | syn {i : ConnIdx} (hdials : Dials e me) (halloc : connAlloc t = some i) (hbare : Bare s)
      (hrst : s.has tcpRst = false) (hack : s.has tcpAck = false)
      (hseq : s.seq = nextIsn t.isnCounter)
  | again {i : ConnIdx} {bytes : List U8} (hident : ident (t.conns i) = me)
      (hkept : keptSegment (t.conns i) = some bytes) (hread : readSegment bytes = some s)

/-- **What a call can send on a connection** that carries neither data nor a
FIN. -/
theorem outputs_said {me : U16 × U32 × U16} {e : Event}
    (hports : ∀ i, OwnPorts (t.conns i)) (hmeets : Meets t me P e) {dst : U32}
    {bytes : List U8} {s : Segment} (hsent : .ipv4Send dst bytes ∈ outputs t e)
    (hread : readSegment bytes = some s) (haddr : (s.srcPort, dst, s.dstPort) = me) :
    Said t me P e s := by
  have hnonempty : outputs t e ≠ [] := List.ne_nil_of_mem hsent
  have hemission := outputs_emission hsent hread
  clear hsent hread
  cases hemission with
  | @reply env payload srcIp dstIp dst seg s i bytes hparse hlookup hsent hread =>
    obtain ⟨hopen, hlisten, hmatch⟩ := lookup_matched hlookup
    have hident : ident (t.conns i) = me :=
      (rxConn_sentOn env i (t.conns i) seg srcIp dstIp hmatch dst bytes hsent s hread).symm.trans
        haddr
    exact .reply (hmeets seg hparse ((ident_of_matches hmatch).symm.trans hident))
      ⟨hopen, hlisten⟩ hident (step_segment hparse hlookup) hsent hread
  | synAck hparse hopens haddr' hbare hack =>
    exact .synAck (hmeets _ hparse (haddr'.symm.trans haddr)) hopens.2.2.1 hopens.2.2.2.1
      hbare hack
  | reset _ _ hbare hrst hsyn => exact .reset hbare hrst hsyn
  | syn halloc =>
    exact .syn haddr halloc ⟨rfl, (by decide : (tcpSyn &&& tcpFin != 0) = false)⟩
      (by decide : (tcpSyn &&& tcpRst != 0) = false)
      (by decide : (tcpSyn &&& tcpAck != 0) = false) rfl
  | @ofSlot env call dst s id i hcall hid haddr' =>
    have hident : ident (t.conns i) = me := haddr'.symm.trans haddr
    rcases hcall with rfl | ⟨data, rfl⟩
    · exact absurd (hmeets i hid hident) hnonempty
    · exact absurd (hmeets i hid hident) hnonempty
  | @again env bytes s i hkept hread =>
    exact .again ((hports i bytes hkept s hread).symm.trans haddr) hkept hread

end Tcp
