import NamelessOS.SerialNumber
import NamelessOS.TcpTable

/-!
# The retransmit slot

A connection keeps one segment for `tcp_tick` to send again.  There is no send
queue: `tcp_send` replaces the kept segment, and `tcp_close` does not store its
FIN.  What the slot is good for is therefore stated against the last SYN or
data segment of the connection, which a run carries as ghost state (`Sending`):
whatever is outstanding of it is in `retx_buf`, in every run and for all eight
slots (`retx_covers_last_segment`).
-/

namespace Tcp

open ByteOrder SerialNumber List Option

/-- The sequence number of the first octet of a segment. -/
def segSeq (seg : List U8) : U32 := ntohl (TcpHdr.ofBytes seg).seq

/-- The sequence numbers a segment takes up: one for each payload byte, one
for a SYN and one for a FIN. -/
def segSpan (seg : List U8) : Nat := (seg.length - tcpHdrLen) +
    (if (TcpHdr.ofBytes seg).flags &&& tcpSyn ≠ 0 then 1 else 0) +
    (if (TcpHdr.ofBytes seg).flags &&& tcpFin ≠ 0 then 1 else 0)

/-- The sequence number `x` is inside the segment. -/
def SegCovers (seg : List U8) (x : U32) : Prop := ahead (segSeq seg) x < segSpan seg

/-- The sequence number `x` is in `[snd_una, snd_nxt)`. -/
def Outstanding (c : TcpConn) (x : U32) : Prop := ahead c.sndUna x < ahead c.sndUna c.sndNxt

/-- What `tcp_tick` would send again: the first `retx_len` bytes of
`retx_buf`. -/
def keptSegment (c : TcpConn) : Option (List U8) :=
  c.retxBuf.map (fun buf => buf.take c.retxLen.toNat)

/-- Two segments that differ in their checksum field at most. -/
def SameSegment (seg seg' : List U8) : Prop := storeChecksum seg 0 = storeChecksum seg' 0

/-- A slot that holds a connection. -/
def Connected (s : TcpState) : Prop := s ≠ .closed ∧ s ≠ .listen

/-! ## The last segment sent -/

/-- The SYN, SYN-ACK or data segment that a call makes slot `i` send. -/
def newSegment (t : Table) (e : Event) (i : ConnIdx) : Option (List U8) :=
  match e.call with
  | .rx payload srcIp dstIp =>
    match parseSegment payload with
    | none => none
    | some seg =>
      match (lookup t seg srcIp (List.finRange tcpMaxConn) none).2 with
      | none => none
      | some l =>
        if Opens t i seg srcIp then
          let nc := synRcvdConn (t.conns i) (t.conns l) (nextIsn t.isnCounter)
            seg srcIp dstIp
          some (connHdr nc (tcpSyn ||| tcpAck) nc.sndUna nc.rcvNxt).bytes
        else none
  | .connect remoteIp remotePort localPort onData onClose =>
    if connAlloc t = some i then
      some (synHdr (synSentConn (t.conns i) e.env.ourIp (nextIsn t.isnCounter)
        remoteIp remotePort localPort onData onClose)).bytes
    else none
  | .send id data =>
    if Sends e.env t i id data then some (dataSegment (t.conns i) data) else none
  | _ => none

variable {t : Table} {e : Event} {i id : ConnIdx}

/-- The segment is handed to `ipv4_send` during the call. -/
theorem newSegment_sent {seg : List U8} (h : newSegment t e i = some seg) :
    tcpSendRaw ((step t e).conns i) seg ∈ outputs t e := by
  obtain ⟨env, call⟩ := e
  cases call with
  | rx payload srcIp dstIp =>
    simp only [newSegment] at h
    split at h
    · cases h
    · rename_i rseg hparse
      split at h
      · cases h
      · rename_i l hlstn
        split at h
        · rename_i hopens
          cases h
          obtain ⟨hmatch, -, hsyn, hack, halloc⟩ := hopens
          have hlookup : lookup t rseg srcIp (List.finRange tcpMaxConn) none =
              (none, some l) := Prod.ext hmatch hlstn
          simp [step, outputs, tcpRx, hparse, hlookup, rxUnmatched, hsyn, hack, halloc, passiveOpen]
        · cases h
  | connect remoteIp remotePort localPort onData onClose =>
    simp only [newSegment] at h
    split at h
    · rename_i halloc
      cases h
      simp [step, outputs, tcpConnect, halloc]
    · cases h
  | send id data =>
    simp only [newSegment] at h
    split at h
    · rename_i hsends
      cases h
      simp [step, outputs, tcpSend_of_sends hsends, tcpSendRaw_retxArm]
      rfl
    · cases h
  | listen _ _ _ => cases h
  | close _ => cases h
  | tick => cases h
  | accept _ => cases h
  | read _ _ => cases h

/-- The table and, for each slot, the last such segment; the empty list
before the first. -/
structure Sending where
  table : Table
  last : ConnIdx → List U8

/-- One call. -/
def Sending.step (s : Sending) (e : Event) : Sending where
  table := Tcp.step s.table e
  last := fun i => (newSegment s.table e i).getD (s.last i)

def Sending.boot : Sending := ⟨initTable, fun _ => []⟩

/-! ## Reading segments back -/

theorem segSeq_connHdr (c : TcpConn) (flags : U8) (seq ack : U32) (data : List U8) :
    segSeq ((connHdr c flags seq ack).bytes ++ data) = seq := by
  rw [segSeq, TcpHdr.ofBytes_bytes_append]
  exact ntohl_htonl seq

theorem segSpan_connHdr (c : TcpConn) (flags : U8) (seq ack : U32) (data : List U8) :
    segSpan ((connHdr c flags seq ack).bytes ++ data) =
      data.length + (if flags &&& tcpSyn ≠ 0 then 1 else 0) +
        (if flags &&& tcpFin ≠ 0 then 1 else 0) := by
  rw [segSpan, TcpHdr.ofBytes_bytes_append, length_append, TcpHdr.bytes_length,
    Nat.add_sub_cancel_left]
  rfl

/-- Filling in the checksum leaves the fields read here alone. -/
theorem ofBytes_storeChecksum (seg : List U8) (ck : U16) :
    (TcpHdr.ofBytes (storeChecksum seg ck)).seq = (TcpHdr.ofBytes seg).seq ∧
      (TcpHdr.ofBytes (storeChecksum seg ck)).flags = (TcpHdr.ofBytes seg).flags := by
  simp [TcpHdr.ofBytes, storeChecksum, getD_eq_getElem?_getD, List.getElem?_set]

theorem segCovers_storeChecksum (seg : List U8) (ck : U16) (x : U32) :
    SegCovers (storeChecksum seg ck) x ↔ SegCovers seg x := by
  simp only [SegCovers, segSeq, segSpan, ofBytes_storeChecksum, storeChecksum_length]

theorem SameSegment.covers {seg seg' : List U8} (h : SameSegment seg seg') {x : U32}
    (hx : SegCovers seg' x) : SegCovers seg x := by
  rw [← segCovers_storeChecksum seg 0, h, segCovers_storeChecksum]
  exact hx

theorem sameSegment_fillChecksum (c : TcpConn) (seg : List U8) :
    SameSegment (fillChecksum c seg) seg := by
  simp only [SameSegment, fillChecksum, storeChecksum_twice]

variable {data : Buffer}

/-- A data segment whose length fits starts at `snd_nxt` and carries the whole
payload. -/
theorem dataSegment_whole (c : TcpConn)
    (hfits : tcpHdrLen + data.bytes.length < 65536) : segSeq (dataSegment c data) = c.sndNxt ∧
      segSpan (dataSegment c data) = data.bytes.length := by
  rw [dataSegment_eq c hfits, segSeq_connHdr, segSpan_connHdr]
  exact ⟨rfl, rfl⟩

/-- One whose length wrapped is cut off inside its header and covers
nothing. -/
theorem dataSegment_cut (c : TcpConn)
    (hwraps : ¬ tcpHdrLen + data.bytes.length < 65536) : segSpan (dataSegment c data) = 0 := by
  have hdata := data.short
  have hlen : (dataSegment c data).length - tcpHdrLen = 0 := by
    rw [dataSegment_length]
    omega
  -- the flags byte is PSH|ACK or beyond the cut
  have hflags : (TcpHdr.ofBytes (dataSegment c data)).flags = tcpPsh ||| tcpAck ∨
      (TcpHdr.ofBytes (dataSegment c data)).flags = 0 := by
    by_cases hk : 13 < (tcpHdrLen + data.bytes.length) % 65536
    · left
      simp only [TcpHdr.ofBytes, dataSegment, getD_eq_getElem?_getD,
        List.getElem?_take, hk, if_true]
      rfl
    · right
      simp only [TcpHdr.ofBytes, dataSegment, getD_eq_getElem?_getD,
        List.getElem?_take, hk, if_false]
      rfl
  rw [segSpan, hlen]
  rcases hflags with hf | hf
  · rw [hf]
    decide
  · rw [hf]
    decide

theorem segSpan_dataSegment (c : TcpConn) (data : Buffer) : segSpan (dataSegment c data) = 0 ∨
      (segSeq (dataSegment c data) = c.sndNxt ∧
        segSpan (dataSegment c data) = data.bytes.length) := by
  grind [dataSegment_whole, dataSegment_cut]

/-! ## What a call can do to the send side -/

/-- The states before our FIN has been sent. -/
def FinUnsent (s : TcpState) : Prop :=
  s = .synSent ∨ s = .synRcvd ∨ s = .established ∨ s = .closeWait

/-- The window loses sequence numbers at its lower end, most often none, and
the kept segment stays unless the window is empty. -/
structure Shrinks (c d : TcpConn) : Prop where
  unsent : FinUnsent d.state → FinUnsent c.state
  nxt : d.sndNxt = c.sndNxt
  split : ahead c.sndUna d.sndUna + ahead d.sndUna d.sndNxt = ahead c.sndUna c.sndNxt
  kept : d.sndUna = d.sndNxt ∨ ∀ seg, keptSegment c = some seg →
    ∃ seg', keptSegment d = some seg' ∧ SameSegment seg' seg

/-- What one call can do to the send side of slot `i`, with `last` its last
segment before: end the connection, shrink the window, send a FIN, send data,
or open a new connection. -/
inductive SendEffect (t : Table) (i : ConnIdx) (e : Event) (last : List U8) :
    TcpConn → List U8 → Prop
  | ended {d : TcpConn} {last' : List U8} (h : ¬ Connected d.state) :
      SendEffect t i e last d last'
  | shrinks {d : TcpConn} (h : Connected d.state → Connected (t.conns i).state ∧
      Shrinks (t.conns i) d) : SendEffect t i e last d last
  | fin {d : TcpConn} (id : Int) (hcall : e.call = .close id)
      (hid : connIdx id = some i)
      (hfrom : (t.conns i).state = .established ∨ (t.conns i).state = .synRcvd ∨
        (t.conns i).state = .closeWait)
      (hto : ¬ FinUnsent d.state) (huna : d.sndUna = (t.conns i).sndUna)
      (hnxt : d.sndNxt = (t.conns i).sndNxt + 1#32)
      (hkept : keptSegment d = keptSegment (t.conns i)) :
      SendEffect t i e last d last
  | data {d : TcpConn} {id : Int} {data : Buffer} (hcall : e.call = .send id data)
      (hsends : Sends e.env t i id data)
      (huna : d.sndUna = (t.conns i).sndUna)
      (hnxt : d.sndNxt = (t.conns i).sndNxt + BitVec.ofNat 32 data.bytes.length)
      (hkept : keptSegment d = some (dataSegment (t.conns i) data)) :
      SendEffect t i e last d (dataSegment (t.conns i) data)
  | opened {d : TcpConn} {seg : List U8} (hseq : segSeq seg = d.sndUna)
      (hspan : ahead d.sndUna d.sndNxt = segSpan seg)
      (hkept : keptSegment d = some seg) : SendEffect t i e last d seg

variable {c d : TcpConn}

theorem Shrinks.of_same (hunsent : FinUnsent d.state → FinUnsent c.state)
    (huna : d.sndUna = c.sndUna) (hnxt : d.sndNxt = c.sndNxt)
    (hbuf : d.retxBuf = c.retxBuf) (hlen : d.retxLen = c.retxLen) : Shrinks c d where
  unsent := hunsent
  nxt := hnxt
  split := by rw [huna, hnxt, ahead_self, Nat.zero_add]
  kept := by
    right
    intro seg hseg
    refine ⟨seg, ?_, rfl⟩
    rw [keptSegment, hbuf, hlen]
    exact hseg

theorem Shrinks.refl (c : TcpConn) : Shrinks c c := .of_same id rfl rfl rfl rfl

theorem Shrinks.trans {f : TcpConn} (h : Shrinks c d) (h' : Shrinks d f) : Shrinks c f where
  unsent := fun hf => h.unsent (h'.unsent hf)
  nxt := h'.nxt.trans h.nxt
  split := by
    have hsplit := h.split
    have hsplit' := h'.split
    have hbound := ahead_lt c.sndUna c.sndNxt
    rcases ahead_trans c.sndUna d.sndUna f.sndUna with hsum | hsum <;> omega
  kept := by
    rcases h'.kept with hempty | hkept'
    · exact .inl hempty
    · rcases h.kept with hempty | hkept
      · left
        have hsplit' := h'.split
        rw [hempty, ahead_self] at hsplit'
        exact ahead_eq_zero_iff.mp (by omega)
      · right
        intro seg hseg
        obtain ⟨seg', hseg', hsame⟩ := hkept seg hseg
        obtain ⟨seg'', hseg'', hsame'⟩ := hkept' seg' hseg'
        exact ⟨seg'', hseg'', hsame'.trans hsame⟩

/-- Everything up to `snd_nxt` is acknowledged. -/
theorem Shrinks.of_done (hunsent : FinUnsent d.state → FinUnsent c.state)
    (hnxt : d.sndNxt = c.sndNxt) (huna : d.sndUna = c.sndNxt) : Shrinks c d where
  unsent := hunsent
  nxt := hnxt
  split := by rw [huna, hnxt, ahead_self, Nat.add_zero]
  kept := .inl (huna.trans hnxt.symm)

/-! ## The phases of `tcp_rx` -/

/-- The one acknowledgement number that the sign tests misjudge. -/
def Antipodal (c : TcpConn) (seg : Segment) : Prop := seg.ack = c.sndNxt + 0x80000000#32

variable {seg : Segment}

theorem antipodal_of_ahead
    (h : 2 * ahead c.sndNxt seg.ack = 2 ^ 32) : Antipodal c seg := by
  have hhalf : ahead c.sndNxt seg.ack = 0x80000000 := by omega
  rw [Antipodal, eq_add_ahead c.sndNxt seg.ack, hhalf]

/-- An acknowledgement moves `snd_una` inside the window, and drops the kept
segment only when the window is then empty. -/
theorem shrinks_ackAdvance
    (hedge : acksData c.state → ¬ Antipodal c seg) : Shrinks c (ackAdvance c seg) := by
  unfold Tcp.ackAdvance
  split
  · rename_i hcond
    simp only [Bool.and_eq_true, seqLeq, decide_eq_true_eq] at hcond
    obtain ⟨⟨hacks, hlow⟩, hhigh⟩ := hcond
    have hsplit : ahead c.sndUna seg.ack + ahead seg.ack c.sndNxt = ahead c.sndUna c.sndNxt := by
      rcases split_window hlow hhigh with hsplit | ⟨hempty, hhalf⟩
      · exact hsplit
      · rw [hempty] at hhalf
        exact absurd (antipodal_of_ahead hhalf) (hedge hacks)
    dsimp only
    split
    · rename_i hdone
      simp only [Bool.and_eq_true, seqLeq, decide_eq_true_eq] at hdone
      refine .of_done id rfl ?_
      rcases eq_or_antipode hdone.2 hhigh with heq | hhalf
      · exact heq.symm
      · exact absurd (antipodal_of_ahead hhalf) (hedge hacks)
    · refine ⟨id, rfl, hsplit, .inr ?_⟩
      intro kept hkept
      exact ⟨kept, hkept, rfl⟩
  · exact .refl c

variable {env : Env}

theorem shrinks_ackUpdate
    (hedge : seg.has tcpAck → acksData c.state → ¬ Antipodal c seg) :
    Shrinks c (ackUpdate env c seg) := by
  unfold Tcp.ackUpdate
  split
  · rename_i hack
    refine (shrinks_ackAdvance (hedge hack)).trans (.trans (d := ackFinWait1
      (ackAdvance c seg) seg) ?_ ?_)
    · unfold ackFinWait1
      split
      · exact .of_same (by simp [FinUnsent]) rfl rfl rfl rfl
      · exact .refl _
    · unfold ackClosing
      split
      · exact .of_same (by simp [FinUnsent]) rfl rfl rfl rfl
      · exact .refl _
  · exact .refl c

/-- Data and FIN processing leave the send side alone. -/
theorem shrinks_dataFin (env : Env) (id : ConnIdx) (c : TcpConn) (seg : Segment) :
    Shrinks c (rxFin env id (rxData id c seg).1 seg).1 := by
  have hdata : Shrinks c (rxData id c seg).1 := by
    rw [rxData_fst]
    exact .of_same (fun h => h) rfl rfl rfl rfl
  obtain ⟨deadline, hfin⟩ := rxFin_fst env id (rxData id c seg).1 seg
  rw [hfin]
  split
  · refine hdata.trans (.of_same ?_ rfl rfl rfl rfl)
    cases hstate : (rxData id c seg).1.state <;> simp [FinUnsent, finNextState]
  · exact hdata

/-- `ackUpdate` is what the whole ACK phase leaves of a connection it does not
close. -/
theorem shrinks_rxAck
    (hedge : seg.has tcpAck → acksData c.state → ¬ Antipodal c seg)
    (h : rxAck env id c seg = .next d) : Shrinks c d := by
  rw [rxAck_eq] at h
  split at h
  · cases h
  · cases h
    exact shrinks_ackUpdate hedge

theorem ended_rxAck
    {out : List Output} (h : rxAck env id c seg = .ret d out) : ¬ Connected d.state := by
  rw [rxAck_eq] at h
  split at h
  · cases h
    exact fun hconn => hconn.1 rfl
  · cases h

/-- What the prologue hands on has shrunk, unless it ended the connection. -/
def Flow.Shrinks (c : TcpConn) : Flow → Prop
  | .ret d _ => Connected d.state → Tcp.Shrinks c d
  | .next d => Tcp.Shrinks c d

/-- A segment that matched the slot ends the connection or shrinks its
window. -/
theorem shrinks_rxConn
    {srcIp dstIp : U32} (hedge : seg.has tcpAck → seg.has tcpRst = false → acksData c.state →
      ¬ Antipodal c seg) (hconn : Connected (rxConn env id c seg srcIp dstIp).1.state) :
    Shrinks c (rxConn env id c seg srcIp dstIp).1 := by
  -- whatever the prologue leaves, data and FIN processing keep
  suffices hpro : (rxPrologue env id c seg srcIp dstIp).Shrinks c by
    unfold rxConn at hconn ⊢
    split at hconn
    · rename_i d out heq
      simp only [heq] at hpro ⊢
      exact hpro hconn
    · rename_i d heq
      simp only [heq] at hpro ⊢
      exact hpro.trans (shrinks_dataFin env id d seg)
  clear hconn
  unfold rxPrologue Flow.Shrinks
  by_cases hrst : seg.has tcpRst
  · simp only [hrst, if_true, rxRst]
    split
    · exact fun hconn => absurd rfl hconn.1
    · exact fun _ => .refl c
  · have hnorst : seg.has tcpRst = false := by simpa using hrst
    simp only [hnorst, if_false, Bool.false_eq_true]
    by_cases hsent : c.state = .synSent
    · simp only [hsent, if_true, rxSynSent]
      split
      · exact fun _ => .refl c
      · split
        · exact fun _ => .refl c
        · rename_i hacked
          split
          · exact fun _ => .refl c
          · exact fun _ => .of_done (fun _ => .inl hsent) rfl (not_ne_iff.mp hacked)
    · simp only [hsent, if_false]
      by_cases hrcvd : c.state = .synRcvd
      · simp only [rxSynRcvd, hrcvd, if_true]
        by_cases hack : seg.has tcpAck
        · by_cases hdone : seg.ack = c.sndNxt
          · simp only [hack, hdone, Bool.not_true, Bool.false_eq_true, if_true, if_false]
            split
            · rename_i heq
              exact fun hconn => absurd hconn (ended_rxAck heq)
            · rename_i heq
              refine Shrinks.trans ?_ (shrinks_rxAck ?_ heq)
              · exact .of_done (fun _ => .inr (.inl hrcvd)) rfl rfl
              · intro _ _ hhalf
                rw [Antipodal, hdone] at hhalf
                exact absurd hhalf (by simp [retxClear])
          · simp only [hack, hdone, Bool.not_true, Bool.false_eq_true, if_false]
            exact fun _ => .refl c
        · simp only [hack, Bool.not_false, if_true]
          exact fun _ => .refl c
      · simp only [rxSynRcvd, hrcvd, if_false]
        grind [ended_rxAck, shrinks_rxAck]

/-! ## One call -/

/-- A call that sends nothing from slot `i` keeps its last segment. -/
theorem newSegment_of_elsewhere
    (h : Elsewhere t i e) : newSegment t e i = none := by
  obtain ⟨env, call⟩ := e
  cases call with
  | rx payload srcIp dstIp =>
    simp only [newSegment]
    split
    · rfl
    · rename_i seg hparse
      split
      · rfl
      · rw [if_neg (h seg hparse).2]
  | connect remoteIp remotePort localPort onData onClose => exact if_neg h
  | send id data => exact if_neg h
  | listen _ _ _ => rfl
  | close _ => rfl
  | tick => rfl
  | accept _ => rfl
  | read _ _ => rfl

theorem keptSegment_retxArm (c : TcpConn) {seg : List U8}
    (halloc : env.kmalloc seg.length = true) (hshort : seg.length < 65536) :
    keptSegment (retxArm env c seg) = some seg := by
  have hlen : (BitVec.ofNat 16 seg.length).toNat = seg.length := by
    rw [BitVec.toNat_ofNat, Nat.mod_eq_of_lt hshort]
  simp only [retxArm, halloc, if_true, keptSegment, hlen, map_some, take_length]

theorem shrinks_tick (env : Env) (i : ConnIdx) (c : TcpConn)
    (hconn : Connected (tickConn env i c).1.state) :
    Connected c.state ∧ Shrinks c (tickConn env i c).1 := by
  have heffect := tickConn_effect env i c
  generalize tickConn env i c = r at heffect hconn ⊢
  cases heffect with
  | idle => exact ⟨hconn, .refl c⟩
  | expire _ => exact absurd rfl hconn.1
  | abort _ => exact absurd rfl hconn.1
  | @retransmit buf deadline hbuf _ =>
    refine ⟨hconn, ⟨fun h => h, rfl, by rw [ahead_self, Nat.zero_add], .inr ?_⟩⟩
    intro seg hseg
    rw [keptSegment, hbuf] at hseg
    obtain rfl := Option.some.inj hseg
    refine ⟨fillChecksum c (buf.take c.retxLen.toNat), ?_, sameSegment_fillChecksum _ _⟩
    simp [keptSegment, fillChecksum, take_of_length_le]

variable {last : List U8}

/-- A SYN or SYN-ACK just sent is the whole window. -/
theorem opened_syn {flags : U8} {ack : U32}
    (halloc : ∀ n, env.kmallocOk n = true) (hnxt : c.sndNxt = c.sndUna + 1#32)
    (hsyn : flags &&& tcpSyn ≠ 0) (hfin : flags &&& tcpFin = 0) :
    SendEffect t i e last (retxArm env c (connHdr c flags c.sndUna ack).bytes)
      (connHdr c flags c.sndUna ack).bytes := by
  have hseq := segSeq_connHdr c flags c.sndUna ack []
  have hspan := segSpan_connHdr c flags c.sndUna ack []
  rw [append_nil] at hseq hspan
  refine .opened (hseq.trans (retxArm_sndUna ..).symm) ?_ (keptSegment_retxArm c ?_ ?_)
  · rw [hspan, retxArm_sndUna, retxArm_sndNxt, hnxt]
    simp only [length_nil, hsyn, hfin, ne_eq, not_true, not_false_iff, if_true, if_false]
    exact ahead_add c.sndUna (by decide)
  · rw [TcpHdr.bytes_length, Env.kmalloc, halloc]
    rfl
  · rw [TcpHdr.bytes_length]
    decide

theorem effect_close {id : Int} (hcall : e.call = .close id) (hid : connIdx id = some i) :
    SendEffect t i e last (closeConn (t.conns i)).1 last := by
  unfold closeConn
  split
  · exact .fin id hcall hid (.inl ‹_›) (by simp [FinUnsent]) rfl rfl rfl
  · exact .fin id hcall hid (.inr (.inl ‹_›)) (by simp [FinUnsent]) rfl rfl rfl
  · exact .fin id hcall hid (.inr (.inr ‹_›)) (by simp [FinUnsent]) rfl rfl rfl
  · exact .ended (fun hconn => hconn.1 rfl)
  · exact .ended (fun hconn => hconn.1 rfl)
  · exact .shrinks (fun hconn => ⟨hconn, .refl _⟩)

/-- No acknowledgement that reaches a connection is its antipode. -/
def NoAntipodalAck (t : Table) (e : Event) : Prop :=
  match e.call with
  | .rx payload srcIp _ => ∀ seg i, parseSegment payload = some seg →
      (lookup t seg srcIp (List.finRange tcpMaxConn) none).1 = some i →
        seg.has tcpAck → seg.has tcpRst = false → acksData (t.conns i).state →
          ¬ Antipodal (t.conns i) seg
  | _ => True

/-- **What a call can do to the send side.** -/
theorem step_sendEffect {s : Sending} (i : ConnIdx)
    (halloc : ∀ n, e.env.kmallocOk n = true) (hok : NoAntipodalAck s.table e) :
    SendEffect s.table i e (s.last i) ((s.step e).table.conns i) ((s.step e).last i) := by
  have hchange := step_slotChange s.table e i
  simp only [Sending.step]
  generalize (step s.table e).conns i = c at hchange ⊢
  cases hchange with
  | same helse =>
    rw [newSegment_of_elsewhere helse]
    exact .shrinks (fun hconn => ⟨hconn, .refl _⟩)
  | @segment env payload srcIp dstIp seg hparse hlookup =>
    have hnew : newSegment s.table ⟨env, .rx payload srcIp dstIp⟩ i = none := by
      have hno : ¬ Opens s.table i seg srcIp := by simp [Opens, hlookup]
      simp only [newSegment, hparse, hno, if_false]
      split <;> rfl
    rw [hnew]
    obtain ⟨hopen, hnotListen, -⟩ := lookup_matched hlookup
    exact .shrinks (fun hconn => ⟨⟨hopen, hnotListen⟩,
      shrinks_rxConn (hok seg i hparse hlookup) hconn⟩)
  | @passive env payload srcIp dstIp seg l hparse hopens hlstn hlisten =>
    simp only [newSegment, hparse, hlstn, hopens, if_true, getD_some]
    exact opened_syn halloc rfl (by decide) (by decide)
  | listen hslot => exact .ended (fun hconn => hconn.2 rfl)
  | connect hslot =>
    simp only [newSegment, hslot, if_true, getD_some]
    exact opened_syn halloc rfl (by decide) (by decide)
  | @send env id data hsends =>
    simp only [newSegment, hsends, if_true, getD_some]
    have hshort : (dataSegment (s.table.conns i) data).length < 65536 := by
      rw [dataSegment, length_take]
      exact lt_of_le_of_lt (Nat.min_le_left _ _) (Nat.mod_lt _ (by decide))
    exact .data rfl hsends (retxArm_sndUna ..) (retxArm_sndNxt ..)
      (keptSegment_retxArm _ hsends.2.2.2 hshort)
  | close hid => exact effect_close rfl hid
  | tick => exact .shrinks (shrinks_tick _ i _)
  | accept hstate hport =>
    exact .shrinks (fun hconn => ⟨hconn, .of_same (fun h => h) rfl rfl rfl rfl⟩)
  | read hid => exact .shrinks (fun hconn => ⟨hconn, .of_same (fun h => h) rfl rfl rfl rfl⟩)

/-! ## The invariant -/

/-- The last segment is kept, unless none of it is outstanding any more; and
until our FIN is sent it ends at `snd_nxt`. -/
structure LastKept (c : TcpConn) (last : List U8) : Prop where
  kept : (∃ seg, keptSegment c = some seg ∧ SameSegment seg last) ∨
    ∀ x, Outstanding c x → ¬ SegCovers last x
  ends : FinUnsent c.state → segSpan last = 0 ∨ ahead (segSeq last) c.sndNxt = segSpan last

theorem LastKept.shrinks (h : LastKept c last) (hd : Shrinks c d) : LastKept d last where
  kept := by
    rcases hd.kept with hempty | hkept
    · right
      intro x hx
      rw [Outstanding, hempty, ahead_self] at hx
      exact absurd hx (Nat.not_lt_zero _)
    · rcases h.kept with ⟨seg, hseg, hsame⟩ | hnone
      · obtain ⟨seg', hseg', hsame'⟩ := hkept seg hseg
        exact .inl ⟨seg', hseg', hsame'.trans hsame⟩
      · right
        intro x hx
        apply hnone
        have hsplit := hd.split
        rw [Outstanding, hd.nxt] at hx
        rw [hd.nxt] at hsplit
        exact ahead_lt_of_earlier (by omega) hx
  ends := by
    intro hunsent
    rw [hd.nxt]
    exact h.ends (hd.unsent hunsent)

/-- Our FIN goes behind the last segment, not into it. -/
theorem LastKept.fin (h : LastKept c last) (hfrom : FinUnsent c.state) (hto : ¬ FinUnsent d.state)
    (huna : d.sndUna = c.sndUna) (hnxt : d.sndNxt = c.sndNxt + 1#32)
    (hkept : keptSegment d = keptSegment c) : LastKept d last where
  kept := by
    rw [hkept]
    rcases h.kept with hsome | hnone
    · exact .inl hsome
    · right
      intro x hx
      rw [Outstanding, huna, hnxt] at hx
      rcases ahead_lt_succ_cases (by decide) hx with hold | rfl
      · exact hnone x hold
      · intro hcovers
        rw [SegCovers] at hcovers
        rcases h.ends hfrom with hempty | hend <;> omega
  ends := fun hunsent => absurd hunsent hto

theorem lastKept_data
    (hnxt : d.sndNxt = c.sndNxt + BitVec.ofNat 32 data.bytes.length)
    (hkept : keptSegment d = some (dataSegment c data)) : LastKept d (dataSegment c data) where
  kept := .inl ⟨_, hkept, rfl⟩
  ends := by
    grind [segSpan_dataSegment, Buffer.short, ahead_add]

/-- One call keeps the invariant of a slot. -/
theorem SendEffect.lastKept {last' : List U8} (heffect : SendEffect t i e last d last')
    (h : Connected (t.conns i).state → LastKept (t.conns i) last)
    (hconn : Connected d.state) : LastKept d last' := by
  cases heffect with
  | ended hgone => exact absurd hconn hgone
  | shrinks hshrinks =>
    obtain ⟨hold, hd⟩ := hshrinks hconn
    exact (h hold).shrinks hd
  | fin id hcall hid hfrom hto huna hnxt hkept =>
    have hunsent : FinUnsent (t.conns i).state := by
      rcases hfrom with hs | hs | hs
      · exact .inr (.inr (.inl hs))
      · exact .inr (.inl hs)
      · exact .inr (.inr (.inr hs))
    have hold : Connected (t.conns i).state := by
      rcases hfrom with hs | hs | hs <;> simp [Connected, hs]
    exact (h hold).fin hunsent hto huna hnxt hkept
  | data hcall hsends huna hnxt hkept => exact lastKept_data hnxt hkept
  | opened hseq hspan hkept =>
    exact ⟨.inl ⟨_, hkept, rfl⟩, fun _ => .inr (by rw [hseq]; exact hspan)⟩

/-- The invariant of a whole run. -/
theorem run_lastKept {es : List Event} (halloc : ∀ e ∈ es, ∀ n, e.env.kmallocOk n = true)
    (hok : Runs.StepsMeet Sending.step (fun s e => NoAntipodalAck s.table e)
      Sending.boot es) (i : ConnIdx)
    (hconn : Connected ((Runs.run Sending.step Sending.boot es).table.conns i).state) :
    LastKept ((Runs.run Sending.step Sending.boot es).table.conns i)
      ((Runs.run Sending.step Sending.boot es).last i) := by
  have hboot : ∀ i, Connected (Sending.boot.table.conns i).state →
      LastKept (Sending.boot.table.conns i) (Sending.boot.last i) :=
    fun _ hconn => absurd rfl hconn.1
  have hmem : Runs.StepsMeet Sending.step (fun _ e => ∀ n, e.env.kmallocOk n = true)
      Sending.boot es := Runs.stepsMeet_of_forall halloc _
  exact Runs.run_invariant
    (fun s : Sending => ∀ i, Connected (s.table.conns i).state →
      LastKept (s.table.conns i) (s.last i))
    (fun _ _ h hboth i => (step_sendEffect i hboth.1 hboth.2).lastKept (h i))
    hboot (hmem.and hok) i hconn

/-- **The last segment is never forgotten.**  In every state of every run,
whatever is outstanding of the last SYN or data segment of a connection is in
the segment kept for retransmission, which is that segment up to its
checksum. -/
theorem retx_covers_last_segment (es : List Event)
    (halloc : ∀ e ∈ es, ∀ n, e.env.kmallocOk n = true)
    (hok : Runs.StepsMeet Sending.step (fun s e => NoAntipodalAck s.table e)
      Sending.boot es) (i : ConnIdx) :
    let s := Runs.run Sending.step Sending.boot es
    Connected (s.table.conns i).state →
      ∀ x, Outstanding (s.table.conns i) x → SegCovers (s.last i) x →
        ∃ seg, keptSegment (s.table.conns i) = some seg ∧ SameSegment seg (s.last i) ∧
          SegCovers seg x := by
  grind [LastKept.kept, run_lastKept, SameSegment.covers]

/-- The SYN-ACK that answers the first active open from port 80. -/
def synAckHdr : TcpHdr where
  srcPort := htons 5000
  dstPort := htons 80
  seq := htonl 300
  ack := htonl (nextIsn 0x12345678#32 + 1)
  dataOff := tcpDataOffMin
  flags := tcpSyn ||| tcpAck
  window := htons 4096
  checksum := 0
  urgPtr := 0

/-- An active open, its SYN-ACK, and two bytes sent one after the other. -/
def backToBackSends : List Event := [⟨quietEnv, .connect 7 5000 80 none none⟩,
   ⟨quietEnv, .rx ⟨synAckHdr.bytes ++ [], by decide⟩ 7 9⟩,
   ⟨quietEnv, .send 0 ⟨[65], by decide⟩⟩,
   ⟨quietEnv, .send 0 ⟨[66], by decide⟩⟩]

theorem retx_covers_last_segment_backToBackSends :
    ∃ seg, keptSegment ((Runs.run Sending.step Sending.boot
        backToBackSends).table.conns 0) = some seg ∧
      SameSegment seg ((Runs.run Sending.step Sending.boot backToBackSends).last 0) ∧
      SegCovers seg (nextIsn 0x12345678#32 + 2) := by
  refine retx_covers_last_segment backToBackSends ?_ ?_ 0 ?_ _ ?_ ?_
  · intro e he n
    simp only [backToBackSends, mem_cons, not_mem_nil, or_false] at he
    rcases he with rfl | rfl | rfl | rfl <;> rfl
  · refine ⟨trivial, ?_, trivial, trivial, trivial⟩
    -- the handshake is not over, so no slot takes acknowledgements of data
    intro seg i _ _ _ _ hacks
    have hnone : ∀ j, acksData ((Sending.boot.step
        ⟨quietEnv, .connect 7 5000 80 none none⟩).table.conns j).state = false := by decide
    rw [hnone i] at hacks
    cases hacks
  · unfold Connected
    decide
  · unfold Outstanding
    decide
  · unfold SegCovers
    decide

/-- After two sends in a row the kept segment holds only the second byte; the
first is outstanding and can no longer be sent again. -/
theorem back_to_back_sends_lose_octet :
    let c := (Runs.run step initTable backToBackSends).conns 0
    c.state = .established ∧ ∃ x, Outstanding c x ∧
      ¬ ∃ seg, keptSegment c = some seg ∧ SegCovers seg x := by
  refine ⟨by decide, nextIsn 0x12345678#32 + 1, by unfold Outstanding; decide, ?_⟩
  rintro ⟨seg, hseg, hcovers⟩
  have hmissed : ∀ seg ∈ keptSegment ((Runs.run step initTable backToBackSends).conns 0),
      ¬ ahead (segSeq seg) (nextIsn 0x12345678#32 + 1) < segSpan seg := by decide
  exact hmissed seg hseg hcovers

end Tcp
