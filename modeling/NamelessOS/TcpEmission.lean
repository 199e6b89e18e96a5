import NamelessOS.TcpIdentity
import NamelessOS.TcpRetransmit

/-!
# What a host puts on the wire

A segment that leaves is the bytes handed to `ipv4_send`; what matters about it
is how the other side reads it.  `Emission` lists every way in which a call can
send a segment, in those terms, as `SlotChange` lists what a call does to a
slot.  A segment sent while handling another one goes back where that one came
from; one sent again by a tick carries the ports of its slot (`OwnPorts`).
-/

namespace Tcp

open ByteOrder Runs List

/-! ## Reading segments back -/

/-- What `tcp_rx` reads from the bytes of a segment. -/
def readSegment (bytes : List U8) : Option Segment :=
  if h : bytes.length < 65536 then parseSegment ⟨bytes, h⟩ else none

/-- The checksum is not read. -/
theorem readSegment_storeChecksum (bytes : List U8) (ck : U16) :
    readSegment (storeChecksum bytes ck) = readSegment bytes := by
  have hhdr : TcpHdr.ofBytes (storeChecksum bytes ck) =
      { TcpHdr.ofBytes bytes with
        checksum := (TcpHdr.ofBytes (storeChecksum bytes ck)).checksum } := by
    simp [TcpHdr.ofBytes, storeChecksum, getD_eq_getElem?_getD, List.getElem?_set]
  simp only [readSegment, parseSegment, storeChecksum_length]
  rw [hhdr]
  dsimp only
  by_cases hbad : ((TcpHdr.ofBytes bytes).dataOff >>> 4).toNat * 4 < tcpHdrLen ∨
      ((TcpHdr.ofBytes bytes).dataOff >>> 4).toNat * 4 > bytes.length
  · simp only [if_pos hbad]
  · simp only [if_neg hbad]
    rw [storeChecksum_drop bytes ck (Nat.le_of_not_lt (fun h => hbad (.inl h)))]

theorem readSegment_fillChecksum (c : TcpConn) (bytes : List U8) :
    readSegment (fillChecksum c bytes) = readSegment bytes := by
  rw [fillChecksum, readSegment_storeChecksum, readSegment_storeChecksum]

/-- A header without options, alone. -/
theorem readSegment_bytes {h : TcpHdr} (hoff : h.dataOff = tcpDataOffMin) :
    readSegment h.bytes = some
      { srcPort := ntohs h.srcPort, dstPort := ntohs h.dstPort, seq := ntohl h.seq,
        ack := ntohl h.ack, wnd := ntohs h.window, flags := h.flags, data := [] } := by
  have hparse := parseSegment_bytes_append h [] hoff (by simp [tcpHdrLen])
  rw [readSegment, dif_pos (by rw [TcpHdr.bytes_length]; decide)]
  simpa only [append_nil] using hparse

/-- A control segment of a connection as its receiver reads it. -/
def ctrlSegment (c : TcpConn) (flags : U8) (seq ack : U32) : Segment where
  srcPort := c.localPort
  dstPort := c.remotePort
  seq := seq
  ack := ack
  wnd := BitVec.ofNat 16 tcpWindow
  flags := flags
  data := []

theorem readSegment_connHdr (c : TcpConn) (flags : U8) (seq ack : U32) :
    readSegment (connHdr c flags seq ack).bytes = some (ctrlSegment c flags seq ack) := by
  rw [readSegment_bytes rfl]
  simp only [connHdr, ntohs_htons, ntohl_htonl]
  rfl

/-- Neither payload nor FIN. -/
def Bare (seg : Segment) : Prop := seg.data = [] ∧ seg.has tcpFin = false

variable {dst : U32} {bytes : List U8} {s : Segment}

/-- A reset goes back to the sender and carries no payload, no FIN and no
SYN. -/
theorem readSegment_rst {srcIp dstIp : U32} {srcPort dstPort : U16} {seq ack : U32} {flags : U8}
    (h : .ipv4Send dst bytes = sendRstReply srcIp srcPort dstIp dstPort seq ack flags)
    (hs : readSegment bytes = some s) :
    (s.srcPort, dst, s.dstPort) = (dstPort, srcIp, srcPort) ∧ Bare s ∧
      s.has tcpRst = true ∧ s.has tcpSyn = false := by
  cases h
  rw [readSegment_storeChecksum, readSegment_bytes rfl] at hs
  cases hs
  refine ⟨by simp only [rstHdr, ntohs_htons], ?_⟩
  dsimp only [rstHdr, Bare, Segment.has]
  split
  · decide
  · decide

/-! ## The connection a segment is sent on -/

/-- A segment to `dst` that reads as one is on connection `me`, seen from its
sender. -/
def SentOn (me : U16 × U32 × U16) (dst : U32) (bytes : List U8) : Prop :=
  ∀ s, readSegment bytes = some s → (s.srcPort, dst, s.dstPort) = me

/-- The connection a segment from `srcIp` is on, seen from its receiver. -/
def addressee (seg : Segment) (srcIp : U32) : U16 × U32 × U16 := (seg.dstPort, srcIp, seg.srcPort)

theorem ident_of_matches {c : TcpConn} {seg : Segment} {srcIp : U32}
    (h : Matches c seg srcIp) : ident c = addressee seg srcIp := by
  unfold ident addressee
  rw [h.1, h.2.1, h.2.2]

theorem sentOn_ctrl (c : TcpConn) (flags : U8) (seq ack : U32) :
    SentOn (ident c) c.remoteIp (connHdr c flags seq ack).bytes := by
  intro s hs
  rw [readSegment_connHdr] at hs
  cases hs
  rfl

theorem sentOn_sendCtrl {c : TcpConn} {flags : U8} {seq ack : U32}
    (h : .ipv4Send dst bytes = sendCtrl c flags seq ack) : SentOn (ident c) dst bytes := by
  cases h
  intro s hs
  rw [readSegment_fillChecksum] at hs
  exact sentOn_ctrl c flags seq ack s hs

/-- A data segment whose length wraps is too short to be read. -/
theorem sentOn_dataSegment (c : TcpConn) (data : Buffer) :
    SentOn (ident c) c.remoteIp (dataSegment c data) := by
  intro s hs
  by_cases hfits : tcpHdrLen + data.bytes.length < 65536
  · have hwhole : dataSegment c data =
        (connHdr c (tcpPsh ||| tcpAck) c.sndNxt c.rcvNxt).bytes ++ data.bytes := by
      rw [dataSegment, Nat.mod_eq_of_lt hfits, take_of_length_le]
      rw [length_append, TcpHdr.bytes_length]
    have hshort : ((connHdr c (tcpPsh ||| tcpAck) c.sndNxt c.rcvNxt).bytes ++
        data.bytes).length < 65536 := by
      rwa [length_append, TcpHdr.bytes_length]
    rw [hwhole, readSegment, dif_pos hshort, parseSegment_bytes_append _ _ rfl] at hs
    cases hs
    simp only [connHdr, ntohs_htons]
    rfl
  grind [Buffer.short, dataSegment, parseSegment, readSegment]

/-- Every segment among the outputs is on connection `me`. -/
def AllSentOn (me : U16 × U32 × U16) (out : List Output) : Prop :=
  ∀ dst bytes, .ipv4Send dst bytes ∈ out → SentOn me dst bytes

/-- What a slot sends in answer to a segment: a control segment of its connection, or the
reset that goes back to the sender. -/
inductive Answer (me : U16 × U32 × U16) (rst : Output) (dst : U32) (bytes : List U8) : Prop
  | ctrl {d : TcpConn} {flags : U8} {seq ack : U32} (hident : ident d = me)
      (hsent : .ipv4Send dst bytes = sendCtrl d flags seq ack)
  | reset (hsent : .ipv4Send dst bytes = rst)

/-- Every segment among the outputs is such an answer. -/
def Answers (me : U16 × U32 × U16) (rst : Output) (out : List Output) : Prop :=
  ∀ dst bytes, .ipv4Send dst bytes ∈ out → Answer me rst dst bytes

section Answers

variable {me : U16 × U32 × U16} {rst : Output}

theorem answers_nil : Answers me rst [] := by
  intro dst bytes h
  cases h

section

variable (c : TcpConn) (id : ConnIdx)

theorem not_mem_callOnClose (dst : U32) (bytes : List U8) :
    .ipv4Send dst bytes ∉ callOnClose c id := by
  unfold callOnClose
  split <;> simp

theorem answers_callOnClose : Answers me rst (callOnClose c id) :=
  fun dst bytes h => absurd h (not_mem_callOnClose c id dst bytes)

theorem answers_callOnData (data : List U8) : Answers me rst (callOnData c id data) := by
  intro dst bytes h
  unfold callOnData at h
  split at h <;> simp at h

end

theorem Answers.append {out out' : List Output} (h : Answers me rst out)
    (h' : Answers me rst out') : Answers me rst (out ++ out') := by
  intro dst bytes hmem
  exact (mem_append.mp hmem).elim (h dst bytes) (h' dst bytes)

theorem answers_sendCtrl {c : TcpConn} (hident : ident c = me) (flags : U8) (seq ack : U32) :
    Answers me rst [sendCtrl c flags seq ack] := fun _ _ h =>
  .ctrl hident (mem_singleton.mp h)

theorem answers_rst : Answers me rst [rst] := fun _ _ h => .reset (mem_singleton.mp h)

variable (env : Env) (id : ConnIdx) (c : TcpConn) (seg : Segment) (srcIp dstIp : U32)

/-- The calls a phase of `tcp_rx` makes before it returns. -/
def Flow.out : Flow → List Output
  | .ret _ out => out
  | .next _ => []

theorem rxRst_answers : Answers (ident c) rst (rxRst id c seg).2 := by
  unfold rxRst
  split
  · exact answers_callOnClose c id
  · exact answers_nil

theorem rxSynSent_answers : Answers (ident c)
    (sendRstReply srcIp seg.srcPort dstIp seg.dstPort seg.seq seg.ack seg.flags)
    (rxSynSent c seg srcIp dstIp).2 := by
  unfold rxSynSent
  split
  · exact answers_nil
  · split
    · exact answers_rst
    · split
      · exact answers_nil
      · exact answers_sendCtrl rfl _ _ _

theorem rxPrologue_answers : Answers (ident c)
    (sendRstReply srcIp seg.srcPort dstIp seg.dstPort seg.seq seg.ack seg.flags)
    (rxPrologue env id c seg srcIp dstIp).out := by
  unfold rxPrologue
  split
  · exact rxRst_answers id c seg
  · split
    · exact rxSynSent_answers c seg srcIp dstIp
    · have hsyn : (rxSynRcvd c seg).out = [] := by
        unfold rxSynRcvd
        repeat' split
        all_goals rfl
      generalize rxSynRcvd c seg = r at hsyn ⊢
      cases r with
      | ret d out =>
        rw [show out = [] from hsyn]
        exact answers_nil
      | next d =>
        change Answers _ _ (rxAck env id d seg).out
        rw [rxAck_eq]
        split
        · exact answers_callOnClose _ id
        · exact answers_nil

theorem rxData_answers : Answers (ident c) rst (rxData id c seg).2 := by
  unfold rxData
  dsimp only
  repeat' split
  · exact (answers_callOnData _ id _).append (answers_sendCtrl rfl _ _ _)
  · exact answers_sendCtrl rfl _ _ _
  · exact answers_sendCtrl rfl _ _ _
  · exact answers_nil

theorem rxFin_answers : Answers (ident c) rst (rxFin env id c seg).2 := by
  unfold rxFin
  dsimp only
  repeat' split
  · exact (answers_sendCtrl rfl _ _ _).append (answers_callOnClose _ id)
  · exact answers_sendCtrl rfl _ _ _
  · exact answers_sendCtrl rfl _ _ _
  · exact answers_nil
  · exact answers_nil

/-- **What a slot sends in answer to a segment.** -/
theorem rxConn_answers : Answers (ident c)
    (sendRstReply srcIp seg.srcPort dstIp seg.dstPort seg.seq seg.ack seg.flags)
    (rxConn env id c seg srcIp dstIp).2 := by
  have hpro := rxPrologue_answers env id c seg srcIp dstIp
  have hident := ident_rxPrologue env id c seg srcIp dstIp
  unfold rxConn
  generalize rxPrologue env id c seg srcIp dstIp = r at hpro hident ⊢
  cases r with
  | ret d out => exact hpro
  | next d =>
    have hdata := ident_rxData id d seg
    rw [← show ident d = ident c from hident]
    refine (rxData_answers id d seg).append ?_
    rw [← hdata]
    exact rxFin_answers env id _ seg

/-- `tcp_close` sends at most a FIN. -/
theorem mem_closeConn {o : Output} (h : o ∈ (closeConn c).2) :
    o = sendCtrl c (tcpFin ||| tcpAck) c.sndNxt c.rcvNxt := by
  unfold closeConn at h
  dsimp only at h
  split at h
  · exact mem_singleton.mp h
  · exact mem_singleton.mp h
  · exact mem_singleton.mp h
  · cases h
  · cases h
  · cases h

/-- A slot answers a segment only on its own connection. -/
theorem rxConn_sentOn (hmatch : Matches c seg srcIp) :
    AllSentOn (ident c) (rxConn env id c seg srcIp dstIp).2 := by
  intro dst bytes hmem
  cases rxConn_answers env id c seg srcIp dstIp dst bytes hmem with
  | ctrl hident hsent => exact hident ▸ sentOn_sendCtrl hsent
  | reset hsent =>
    intro s hs
    exact (readSegment_rst hsent hs).1.trans (ident_of_matches hmatch).symm

end Answers

/-! ## Every way to send a segment -/

/-- Every way in which a call can send, to `dst`, what reads as segment `s`. -/
inductive Emission (t : Table) : Event → U32 → Segment → Prop
  | reply {env : Env} {payload : Buffer} {srcIp dstIp dst : U32} {seg s : Segment} {i : ConnIdx}
      {bytes : List U8} (hparse : parseSegment payload = some seg)
      (hlookup : (lookup t seg srcIp (List.finRange tcpMaxConn) none).1 = some i)
      (hsent : .ipv4Send dst bytes ∈ (rxConn env i (t.conns i) seg srcIp dstIp).2)
      (hread : readSegment bytes = some s) :
      Emission t ⟨env, .rx payload srcIp dstIp⟩ dst s
  | synAck {env : Env} {payload : Buffer} {srcIp dstIp : U32} {seg s : Segment} {i : ConnIdx}
      (hparse : parseSegment payload = some seg) (hopens : Opens t i seg srcIp)
      (haddr : (s.srcPort, srcIp, s.dstPort) = addressee seg srcIp) (hbare : Bare s)
      (hack : s.has tcpAck = true) :
      Emission t ⟨env, .rx payload srcIp dstIp⟩ srcIp s
  | reset {env : Env} {payload : Buffer} {srcIp dstIp dst : U32} {seg s : Segment}
      (hparse : parseSegment payload = some seg)
      (haddr : (s.srcPort, dst, s.dstPort) = addressee seg srcIp) (hbare : Bare s)
      (hrst : s.has tcpRst = true) (hsyn : s.has tcpSyn = false) :
      Emission t ⟨env, .rx payload srcIp dstIp⟩ dst s
  | syn {env : Env} {remoteIp : U32} {remotePort localPort : U16} {onData : Option DataCb}
      {onClose : Option CloseCb} {i : ConnIdx} (halloc : connAlloc t = some i) :
      Emission t ⟨env, .connect remoteIp remotePort localPort onData onClose⟩ remoteIp
        (ctrlSegment (synSentConn (t.conns i) env.ourIp (nextIsn t.isnCounter) remoteIp
          remotePort localPort onData onClose) tcpSyn (nextIsn t.isnCounter) 0)
  | ofSlot {env : Env} {call : Call} {dst : U32} {s : Segment} {id : Int} {i : ConnIdx}
      (hcall : call = .close id ∨ ∃ data, call = .send id data) (hid : connIdx id = some i)
      (haddr : (s.srcPort, dst, s.dstPort) = ident (t.conns i)) :
      Emission t ⟨env, call⟩ dst s
  | again {env : Env} {bytes : List U8} {s : Segment} {i : ConnIdx}
      (hkept : keptSegment (t.conns i) = some bytes) (hread : readSegment bytes = some s) :
      Emission t ⟨env, .tick⟩ (t.conns i).remoteIp s

/-- Every way in which `tcp_rx` sends a segment. -/
inductive RxSends (env : Env) (t : Table) (payload : Buffer) (srcIp dstIp dst : U32)
    (bytes : List U8) : Prop
  | reply {seg : Segment} {i : ConnIdx} (hparse : parseSegment payload = some seg)
      (hlookup : (lookup t seg srcIp (List.finRange tcpMaxConn) none).1 = some i)
      (hsent : .ipv4Send dst bytes ∈ (rxConn env i (t.conns i) seg srcIp dstIp).2)
  | synAck {seg : Segment} {i : ConnIdx} {nc : TcpConn} (hparse : parseSegment payload = some seg)
      (hopens : Opens t i seg srcIp) (hident : ident nc = addressee seg srcIp)
      (hsent : .ipv4Send dst bytes = sendCtrl nc (tcpSyn ||| tcpAck) nc.sndUna nc.rcvNxt)
  | reset {seg : Segment} (hparse : parseSegment payload = some seg)
      (hsent : .ipv4Send dst bytes =
        sendRstReply srcIp seg.srcPort dstIp seg.dstPort seg.seq seg.ack seg.flags)

variable {t : Table}

theorem tcpRx_sends {env : Env} {payload : Buffer} {srcIp dstIp : U32}
    (h : .ipv4Send dst bytes ∈ (tcpRx env t payload srcIp dstIp).2) :
    RxSends env t payload srcIp dstIp dst bytes := by
  unfold tcpRx at h
  split at h
  · cases h
  · rename_i seg hparse
    split at h
    · rename_i i lstn hlookup
      exact .reply hparse (by rw [hlookup]) h
    · rename_i lstn hlookup
      unfold rxUnmatched at h
      split at h
      · rename_i l
        split at h
        · rename_i hflags
          simp only [Bool.and_eq_true, Bool.not_eq_true'] at hflags
          split at h
          · exact .reset hparse (mem_singleton.mp h)
          · rename_i i halloc
            have hsent := mem_singleton.mp h
            rw [tcpSendRaw_retxArm] at hsent
            exact .synAck hparse
              ⟨by rw [hlookup], by rw [hlookup]; rfl, hflags.1, hflags.2, halloc⟩ rfl hsent
        · split at h
          · exact .reset hparse (mem_singleton.mp h)
          · cases h
      · split at h
        · exact .reset hparse (mem_singleton.mp h)
        · cases h

theorem rx_emission {env : Env} {payload : Buffer} {srcIp dstIp : U32}
    (h : .ipv4Send dst bytes ∈ (tcpRx env t payload srcIp dstIp).2)
    (hread : readSegment bytes = some s) : Emission t ⟨env, .rx payload srcIp dstIp⟩ dst s := by
  cases tcpRx_sends h with
  | reply hparse hlookup hsent => exact .reply hparse hlookup hsent hread
  | @synAck seg i nc hparse hopens hident hsent =>
    cases hsent
    rw [readSegment_fillChecksum, readSegment_connHdr] at hread
    cases hread
    have hip : nc.remoteIp = srcIp := congrArg (fun me => me.2.1) hident
    rw [hip]
    exact .synAck hparse hopens
      (hip ▸ hident)
      ⟨rfl, (by decide : ((tcpSyn ||| tcpAck) &&& tcpFin != 0) = false)⟩
      (by decide : ((tcpSyn ||| tcpAck) &&& tcpAck != 0) = true)
  | reset hparse hsent =>
    obtain ⟨haddr, hbare, hrst, hsyn⟩ := readSegment_rst hsent hread
    exact .reset hparse haddr hbare hrst hsyn

/-- **Nothing is sent in any other way.** -/
theorem outputs_emission {e : Event}
    (h : .ipv4Send dst bytes ∈ outputs t e) (hread : readSegment bytes = some s) :
    Emission t e dst s := by
  obtain ⟨env, call⟩ := e
  cases call with
  | rx payload srcIp dstIp => exact rx_emission h hread
  | connect remoteIp remotePort localPort onData onClose =>
    simp only [outputs, tcpConnect] at h
    split at h
    · cases h
    · rename_i i halloc
      have hsent := mem_singleton.mp h
      rw [tcpSendRaw_retxArm] at hsent
      cases hsent
      rw [readSegment_fillChecksum, synHdr, readSegment_connHdr] at hread
      cases hread
      exact .syn halloc
  | send id data =>
    obtain ⟨i, hsends, hsent⟩ := mem_tcpSend h
    cases hsent
    rw [readSegment_fillChecksum] at hread
    exact .ofSlot (.inr ⟨data, rfl⟩) hsends.1 (sentOn_dataSegment (t.conns i) data s hread)
  | close id =>
    simp only [outputs, tcpClose] at h
    split at h
    · cases h
    · rename_i i hid
      exact .ofSlot (.inl rfl) hid (sentOn_sendCtrl (mem_closeConn _ h) s hread)
  | tick =>
    obtain ⟨i, -, hi⟩ := mem_flatMap.mp h
    have heffect := tickConn_effect env i (t.conns i)
    generalize tickConn env i (t.conns i) = r at heffect hi
    cases heffect with
    | idle => cases hi
    | expire _ => cases hi
    | abort _ => exact absurd hi (not_mem_callOnClose _ i dst bytes)
    | retransmit _ hbuf _ =>
      cases mem_singleton.mp hi
      rw [readSegment_fillChecksum] at hread
      exact .again (by rw [keptSegment, hbuf]; rfl) hread
  | listen localPort onData onClose => cases h
  | accept listenPort => cases h
  | read id len => cases h

/-! ## Kept segments -/

/-- The kept segment of a slot is on the slot's connection. -/
def OwnPorts (c : TcpConn) : Prop :=
  ∀ bytes, keptSegment c = some bytes → SentOn (ident c) c.remoteIp bytes

theorem ownPorts_of_none {c : TcpConn} (h : c.retxBuf = none) : OwnPorts c := by
  intro bytes hkept
  rw [keptSegment, h] at hkept
  cases hkept

theorem keptSegment_retxArm_eq {env : Env} {c : TcpConn} {data : List U8}
    (hlen : data.length < 65536) (h : keptSegment (retxArm env c data) = some bytes) :
    bytes = data := by
  cases halloc : env.kmalloc data.length with
  | true =>
    rw [keptSegment_retxArm c halloc hlen] at h
    exact (Option.some.inj h).symm
  | false =>
    simp [keptSegment, retxArm, halloc] at h

theorem ownPorts_retxArm {env : Env} {c : TcpConn} {data : List U8} (hlen : data.length < 65536)
    (h : SentOn (ident c) c.remoteIp data) : OwnPorts (retxArm env c data) := by
  intro bytes hkept
  rw [keptSegment_retxArm_eq hlen hkept, ident_retxArm]
  unfold retxArm
  split <;> exact h

theorem ownPorts_ctrl (env : Env) (c : TcpConn) (flags : U8) (seq ack : U32) :
    OwnPorts (retxArm env c (connHdr c flags seq ack).bytes) :=
  ownPorts_retxArm (by rw [TcpHdr.bytes_length]; decide) (sentOn_ctrl c flags seq ack)

/-- The kept segment is still there, or dropped. -/
def KeepsOrDrops (c d : TcpConn) : Prop :=
  (d.retxBuf = c.retxBuf ∧ d.retxLen = c.retxLen) ∨ d.retxBuf = none

theorem KeepsOrDrops.refl (c : TcpConn) : KeepsOrDrops c c := .inl ⟨rfl, rfl⟩

theorem KeepsOrDrops.trans {c d f : TcpConn} (h : KeepsOrDrops c d) (h' : KeepsOrDrops d f) :
    KeepsOrDrops c f := by
  rcases h' with ⟨hbuf', hlen'⟩ | hnone
  · rcases h with ⟨hbuf, hlen⟩ | hnone
    · exact .inl ⟨hbuf'.trans hbuf, hlen'.trans hlen⟩
    · exact .inr (hbuf'.trans hnone)
  · exact .inr hnone

theorem KeepsOrDrops.ownPorts {c d : TcpConn} (h : KeepsOrDrops c d) (hident : ident d = ident c)
    (hown : OwnPorts c) : OwnPorts d := by
  rcases h with ⟨hbuf, hlen⟩ | hnone
  · intro bytes hkept
    have hip : d.remoteIp = c.remoteIp := congrArg (fun me => me.2.1) hident
    rw [keptSegment, hbuf, hlen] at hkept
    rw [hident, hip]
    exact hown bytes hkept
  · exact ownPorts_of_none hnone

section Kept

variable (env : Env) (id : ConnIdx) (c : TcpConn) (seg : Segment) (srcIp dstIp : U32)

theorem keepsOrDrops_ackUpdate : KeepsOrDrops c (ackUpdate env c seg) := by
  have hadvance : KeepsOrDrops c (ackAdvance c seg) := by
    unfold ackAdvance
    dsimp only
    repeat' split
    · exact .inr rfl
    · exact .inl ⟨rfl, rfl⟩
    · exact .refl c
  unfold ackUpdate ackClosing ackFinWait1
  repeat' split
  all_goals first | exact hadvance | exact .refl c

theorem keepsOrDrops_rxPrologue : KeepsOrDrops c (rxPrologue env id c seg srcIp dstIp).conn := by
  unfold rxPrologue
  split
  · change KeepsOrDrops c (rxRst id c seg).1
    unfold rxRst
    split
    · exact .inr rfl
    · exact .refl c
  · split
    · change KeepsOrDrops c (rxSynSent c seg srcIp dstIp).1
      unfold rxSynSent
      repeat' split
      · exact .refl c
      · exact .refl c
      · exact .refl c
      · exact .inr rfl
    · have hsyn : KeepsOrDrops c (rxSynRcvd c seg).conn := by
        unfold rxSynRcvd
        repeat' split
        · exact .refl c
        · exact .inr rfl
        · exact .refl c
        · exact .refl c
      generalize rxSynRcvd c seg = r at hsyn ⊢
      cases r with
      | ret d out => exact hsyn
      | next d =>
        change KeepsOrDrops c (rxAck env id d seg).conn
        refine KeepsOrDrops.trans hsyn ?_
        rw [rxAck_eq]
        split
        · exact .inr rfl
        · exact keepsOrDrops_ackUpdate env d seg

theorem keepsOrDrops_rxConn : KeepsOrDrops c (rxConn env id c seg srcIp dstIp).1 := by
  have hpro := keepsOrDrops_rxPrologue env id c seg srcIp dstIp
  have hdata : ∀ d, KeepsOrDrops d (rxData id d seg).1 := by
    intro d
    unfold rxData
    dsimp only
    repeat' split
    all_goals exact .inl ⟨rfl, rfl⟩
  have hfin : ∀ d, KeepsOrDrops d (rxFin env id d seg).1 := by
    intro d
    unfold rxFin
    dsimp only
    repeat' split
    all_goals exact .inl ⟨rfl, rfl⟩
  unfold rxConn
  generalize rxPrologue env id c seg srcIp dstIp = r at hpro ⊢
  cases r with
  | ret d out => exact hpro
  | next d => exact (hpro.trans (hdata d)).trans (hfin _)

theorem keepsOrDrops_closeConn : KeepsOrDrops c (closeConn c).1 := by
  unfold closeConn
  dsimp only
  split
  · exact .inl ⟨rfl, rfl⟩
  · exact .inl ⟨rfl, rfl⟩
  · exact .inl ⟨rfl, rfl⟩
  · exact .inr rfl
  · exact .inr rfl
  · exact .refl c

end Kept

/-- A tick sends the kept segment again and keeps it, checksum apart. -/
theorem readSegment_tick {env : Env} {id : ConnIdx} {c : TcpConn}
    (h : keptSegment (tickConn env id c).1 = some bytes) :
    ∃ bytes', keptSegment c = some bytes' ∧ readSegment bytes = readSegment bytes' := by
  have heffect := tickConn_effect env id c
  generalize tickConn env id c = r at heffect h
  cases heffect with
  | idle => exact ⟨bytes, h, rfl⟩
  | expire _ => exact ⟨bytes, h, rfl⟩
  | abort _ => cases h
  | @retransmit buf _ hbuf _ =>
    grind [keptSegment, take_of_length_le, fillChecksum_length, readSegment_fillChecksum]

/-- **Kept segments carry the ports of their slot**, after every call. -/
theorem ownPorts_step (h : ∀ i, OwnPorts (t.conns i)) (e : Event) (i : ConnIdx) :
    OwnPorts ((step t e).conns i) := by
  have hchange := step_slotChange t e i
  generalize (step t e).conns i = c at hchange ⊢
  cases hchange with
  | same _ => exact h i
  | segment _ _ => exact (keepsOrDrops_rxConn ..).ownPorts (ident_rxConn ..) (h i)
  | passive _ _ _ _ => exact ownPorts_ctrl _ _ _ _ _
  | listen _ => exact ownPorts_of_none rfl
  | connect _ => exact ownPorts_ctrl _ _ _ _ _
  | @send env id data hsends =>
    refine ownPorts_retxArm ?_ (sentOn_dataSegment (t.conns i) data)
    rw [dataSegment, length_take]
    exact lt_of_le_of_lt (Nat.min_le_left _ _) (Nat.mod_lt _ (by decide))
  | close _ => exact (keepsOrDrops_closeConn _).ownPorts (ident_closeConn _) (h i)
  | @tick env =>
    intro bytes hkept s hs
    obtain ⟨bytes', hkept', hread⟩ := readSegment_tick hkept
    have hident := ident_tickConn env i (t.conns i)
    have hip : (tickConn env i (t.conns i)).1.remoteIp = (t.conns i).remoteIp :=
      congrArg (fun me => me.2.1) hident
    rw [hident, hip]
    exact h i bytes' hkept' s (hread ▸ hs)
  | accept _ _ => exact h i
  | read _ => exact h i

end Tcp
