import NamelessOS.TcpTable

/-!
# Connection lifetimes and the close callback

Which way the state of a slot can move in one call, and when `on_close` is
called on the way.  `RxLife` lists the moves a segment can cause together
with the callbacks; `step_leaves_holdable`, `step_onClose_state` and
`step_winding_down` are what the socket layer above relies on.
-/

namespace Tcp

open List

/-- The `on_close` calls among some outputs. -/
def closeCalls (out : List Output) : List Output := out.filter (fun o => match o with
    | .onClose _ _ => true
    | _ => false)

@[simp] theorem closeCalls_nil : closeCalls [] = [] := rfl

@[simp] theorem closeCalls_append (out out' : List Output) :
    closeCalls (out ++ out') = closeCalls out ++ closeCalls out' :=
  filter_append ..

@[simp] theorem closeCalls_send (dstIp : U32) (seg : List U8) (out : List Output) :
    closeCalls (.ipv4Send dstIp seg :: out) = closeCalls out := rfl

@[simp] theorem closeCalls_callOnClose (c : TcpConn) (id : ConnIdx) :
    closeCalls (callOnClose c id) = callOnClose c id := by
  unfold callOnClose
  split <;> rfl

@[simp] theorem closeCalls_callOnData (c : TcpConn) (id : ConnIdx) (data : List U8) :
    closeCalls (callOnData c id data) = [] := by
  unfold callOnData
  split <;> rfl

variable {cb : CloseCb} {j i : ConnIdx}

theorem mem_closeCalls {out : List Output} :
    .onClose cb j ∈ closeCalls out ↔ .onClose cb j ∈ out := by
  simp [closeCalls]

variable {c : TcpConn}

theorem mem_callOnClose {id : ConnIdx} :
    .onClose cb j ∈ callOnClose c id ↔ c.onClose = some cb ∧ j = id := by
  unfold callOnClose
  split
  · rename_i cb' hcb
    simp [hcb]
  · rename_i hcb
    simp [hcb]

/-- The states of a connection that a FIN, ours or the peer's, has ended. -/
def WindingDown (s : TcpState) : Prop :=
  s = .finWait1 ∨ s = .finWait2 ∨ s = .closeWait ∨ s = .closing ∨ s = .lastAck ∨ s = .timeWait

/-- What a segment can do to the state of its slot: the new state and the
`on_close` calls made. -/
inductive RxLife (id : ConnIdx) (c : TcpConn) : TcpState → List Output → Prop
  | stays : RxLife id c c.state []
  | opens (h : c.state = .synSent ∨ c.state = .synRcvd) : RxLife id c .established []
  | ends : RxLife id c .closed (callOnClose c id)
  | peerFin (h : c.state = .established ∨ c.state = .synRcvd) :
      RxLife id c .closeWait (callOnClose c id)
  | windsDown {s : TcpState} (h : WindingDown c.state) (h' : WindingDown s) :
      RxLife id c s []

/-- Data processing keeps the state and calls no `on_close`. -/
theorem rxData_life (id : ConnIdx) (c : TcpConn) (seg : Segment) :
    (rxData id c seg).1.state = c.state ∧ (rxData id c seg).1.onClose = c.onClose ∧
      closeCalls (rxData id c seg).2 = [] := by
  refine ⟨by rw [rxData_fst], by rw [rxData_fst], ?_⟩
  simp only [rxData]
  split
  · split
    · split
      · simp [sendCtrl, tcpSendRaw]
      · rfl
    · rfl
  · rfl

/-- FIN processing calls `on_close` exactly when it leaves `ESTABLISHED`. -/
theorem rxFin_life (env : Env) (id : ConnIdx) (c : TcpConn) (seg : Segment) :
    (rxFin env id c seg).1.onClose = c.onClose ∧
      (((rxFin env id c seg).1.state = c.state ∧ closeCalls (rxFin env id c seg).2 = []) ∨
      (c.state = .established ∧ (rxFin env id c seg).1.state = .closeWait ∧
        closeCalls (rxFin env id c seg).2 = callOnClose c id) ∨
      (WindingDown c.state ∧ WindingDown (rxFin env id c seg).1.state ∧
        closeCalls (rxFin env id c seg).2 = [])) := by
  by_cases hfin : seg.has tcpFin
  · by_cases hest : c.state = .established
    · refine ⟨by simp [rxFin, hfin, hest], .inr (.inl ⟨hest, ?_, ?_⟩)⟩
      · simp [rxFin, hfin, hest]
      · simp only [rxFin, hfin, hest, if_true, sendCtrl, tcpSendRaw, closeCalls_send]
        exact closeCalls_callOnClose _ id
    · by_cases hwait1 : c.state = .finWait1
      · refine ⟨by simp [rxFin, hfin, hwait1], .inr (.inr ⟨.inl hwait1, ?_, ?_⟩)⟩
        · simp [rxFin, hfin, hwait1, WindingDown]
        · simp [rxFin, hfin, hwait1, sendCtrl, tcpSendRaw]
      · by_cases hwait2 : c.state = .finWait2
        · refine ⟨by simp [rxFin, hfin, hwait2], .inr (.inr ⟨.inr (.inl hwait2), ?_, ?_⟩)⟩
          · simp [rxFin, hfin, hwait2, WindingDown]
          · simp [rxFin, hfin, hwait2, sendCtrl, tcpSendRaw]
        · refine ⟨by simp [rxFin, hfin, hest, hwait1, hwait2], .inl ⟨?_, ?_⟩⟩
          · simp [rxFin, hfin, hest, hwait1, hwait2]
          · simp [rxFin, hfin, hest, hwait1, hwait2]
  · simp [rxFin, hfin]

theorem ackUpdate_onClose (env : Env) (c : TcpConn) (seg : Segment) :
    (ackUpdate env c seg).onClose = c.onClose := by
  obtain ⟨_, _, _, _, _, _, h⟩ := ackUpdate_eq env c seg
  rw [h]

/-- ACK processing moves only connections that are winding down. -/
theorem ackNextState_life (c : TcpConn) (seg : Segment) : ackNextState c seg = c.state ∨
      (WindingDown c.state ∧ WindingDown (ackNextState c seg)) := by
  unfold ackNextState
  split
  · rename_i hwait1
    exact .inr ⟨.inl hwait1.2.1, .inr (.inl rfl)⟩
  · split
    · rename_i hclosing
      right
      simp [WindingDown, hclosing.2.1]
    · exact .inl rfl

/-- Either nothing happens, or the handshake is over. -/
theorem rxSynRcvd_life (c : TcpConn) (seg : Segment) :
    match rxSynRcvd c seg with
    | .ret d out => d = c ∧ out = []
    | .next d => d = c ∨ (c.state = .synRcvd ∧ d.state = .established ∧ d.onClose = c.onClose) := by
  unfold rxSynRcvd
  by_cases hrcvd : c.state = .synRcvd
  · rw [if_pos hrcvd]
    by_cases hack : seg.has tcpAck
    · by_cases hdone : seg.ack = c.sndNxt
      · simp [hack, hdone, hrcvd, retxClear]
      · simp [hack, hdone]
    · simp [hack]
  · rw [if_neg hrcvd]
    exact .inl rfl

/-- What the phases before data processing can do: ignore the segment, close
the connection, complete an active open, or go on after ACK processing. -/
inductive PrologueEffect (id : ConnIdx) (c : TcpConn) (seg : Segment) : Flow → Prop
  | ignored {out : List Output} (h : closeCalls out = []) : PrologueEffect id c seg (.ret c out)
  | closes : PrologueEffect id c seg
      (.ret { retxClear c with state := .closed } (callOnClose c id))
  | opens {d : TcpConn} {out : List Output} (h : c.state = .synSent)
      (hd : d.state = .established) (hcb : d.onClose = c.onClose) (hout : closeCalls out = []) :
      PrologueEffect id c seg (.ret d out)
  | goesOn {d : TcpConn} (hcb : d.onClose = c.onClose)
      (h : d.state = ackNextState c seg ∨ (c.state = .synRcvd ∧ d.state = .established)) :
      PrologueEffect id c seg (.next d)

theorem rxAck_effect (env : Env) (id : ConnIdx) (c : TcpConn) (seg : Segment) :
    PrologueEffect id c seg (rxAck env id c seg) := by
  rw [rxAck_eq]
  split
  · exact .closes
  · exact .goesOn (ackUpdate_onClose env c seg) (.inl (ackUpdate_state env c seg))

theorem rxPrologue_effect (env : Env) (id : ConnIdx) (c : TcpConn) (seg : Segment)
    (srcIp dstIp : U32) : PrologueEffect id c seg (rxPrologue env id c seg srcIp dstIp) := by
  unfold rxPrologue
  by_cases hrst : seg.has tcpRst
  · simp only [hrst, if_true, rxRst]
    split
    · exact .closes
    · exact .ignored rfl
  · simp only [hrst, if_false, Bool.false_eq_true]
    by_cases hsent : c.state = .synSent
    · simp only [hsent, if_true, rxSynSent]
      split
      · exact .ignored rfl
      · split
        · exact .ignored rfl
        · split
          · exact .ignored rfl
          · exact .opens hsent rfl rfl rfl
    · simp only [hsent, if_false]
      have hsyn := rxSynRcvd_life c seg
      generalize rxSynRcvd c seg = r at hsyn
      cases r with
      | ret d out =>
        obtain ⟨rfl, rfl⟩ := hsyn
        exact .ignored rfl
      | next d =>
        rcases hsyn with rfl | ⟨hrcvd, hest, hcb⟩
        · exact rxAck_effect env id d seg
        · -- the handshake is over, so ACK processing runs in `ESTABLISHED`
          dsimp only
          rw [rxAck_eq, if_neg (by simp [hest])]
          refine .goesOn (by rw [ackUpdate_onClose, hcb]) (.inr ⟨hrcvd, ?_⟩)
          simp [ackNextState, hest]

/-- How the phases before data processing leave a connection that goes on. -/
def Continues (c d : TcpConn) : Prop := d.onClose = c.onClose ∧ (d.state = c.state ∨
    (c.state = .synRcvd ∧ d.state = .established) ∨
    (WindingDown c.state ∧ WindingDown d.state))

theorem rxPrologue_life (env : Env) (id : ConnIdx) (c : TcpConn) (seg : Segment)
    (srcIp dstIp : U32) :
    match rxPrologue env id c seg srcIp dstIp with
    | .ret d out => d.onClose = c.onClose ∧ RxLife id c d.state (closeCalls out)
    | .next d => Continues c d := by
  have heffect := rxPrologue_effect env id c seg srcIp dstIp
  generalize rxPrologue env id c seg srcIp dstIp = r at heffect
  cases heffect with
  | ignored h => exact ⟨rfl, by rw [h]; exact .stays⟩
  | closes => exact ⟨rfl, by rw [closeCalls_callOnClose]; exact .ends⟩
  | opens h hd hcb hout => exact ⟨hcb, by rw [hd, hout]; exact .opens (.inl h)⟩
  | goesOn hcb h =>
    refine ⟨hcb, ?_⟩
    rcases h with h | h
    · rw [h]
      exact (ackNextState_life c seg).imp_right .inr
    · exact .inr (.inl h)

/-- The segment is a FIN that the connection takes in `ESTABLISHED`, or in
`SYN_RCVD` with the acknowledgement that completes the handshake. -/
def FinFor (c : TcpConn) (seg : Segment) : Prop :=
  seg.has tcpFin = true ∧ seg.has tcpRst = false ∧ (c.state = .established ∨
    c.state = .synRcvd ∧ seg.has tcpAck = true ∧ seg.ack = c.sndNxt)

/-- The call is a segment of that kind for slot `i`. -/
def TakesFin (t : Table) (e : Event) (i : ConnIdx) : Prop :=
  ∃ payload srcIp dstIp seg, e.call = .rx payload srcIp dstIp ∧
    parseSegment payload = some seg ∧
    (lookup t seg srcIp (List.finRange tcpMaxConn) none).1 = some i ∧ FinFor (t.conns i) seg

/-- A segment that gets past the first phases is no reset, and completes the
handshake if the connection was in `SYN_RCVD`. -/
theorem rxPrologue_next {env : Env} {id : ConnIdx} {c d : TcpConn} {seg : Segment}
    {srcIp dstIp : U32} (h : rxPrologue env id c seg srcIp dstIp = .next d) :
    seg.has tcpRst = false ∧
      (c.state = .synRcvd → seg.has tcpAck = true ∧ seg.ack = c.sndNxt) := by
  unfold rxPrologue at h
  cases hrst : seg.has tcpRst with
  | true =>
    rw [if_pos hrst] at h
    cases h
  | false =>
    refine ⟨rfl, fun hrcvd => ?_⟩
    rw [if_neg (by simp [hrst]), if_neg (by simp [hrcvd])] at h
    unfold rxSynRcvd at h
    rw [if_pos hrcvd] at h
    grind

/-- Only such a FIN leads to `CLOSE_WAIT`. -/
theorem finFor_of_closeWait {env : Env} {id : ConnIdx} {c : TcpConn} {seg : Segment}
    {srcIp dstIp : U32} (h : (rxConn env id c seg srcIp dstIp).1.state = .closeWait)
    (hbefore : c.state ≠ .closeWait) : FinFor c seg := by
  have heffect := rxPrologue_effect env id c seg srcIp dstIp
  have hnext := @rxPrologue_next env id c
  unfold rxConn at h
  cases hflow : rxPrologue env id c seg srcIp dstIp with
  | ret d out =>
    rw [hflow] at heffect h
    cases heffect with
    | ignored _ => exact absurd h hbefore
    | closes => cases h
    | opens _ hd _ _ => cases hd.symm.trans h
  | next d =>
    obtain ⟨hrst, hack⟩ := hnext hflow
    rw [hflow] at heffect h
    cases heffect with
    | goesOn _ hstate =>
      obtain ⟨deadline, hfin⟩ := rxFin_fst env id (rxData id d seg).1 seg
      dsimp only at h
      rw [hfin, rxData_fst] at h
      -- ACK processing does not lead to either of the two states
      have hkept : ∀ st, st = .closeWait ∨ st = .established → ackNextState c seg = st →
          c.state = st := by
        intro st hst heq
        unfold ackNextState at heq
        grind
      cases hflag : seg.has tcpFin with
      | false =>
        rw [if_neg (by simp [hflag])] at h
        rcases hstate with hs | ⟨-, hs⟩
        · exact absurd (hkept _ (.inl rfl) (hs.symm.trans h)) hbefore
        · cases hs.symm.trans h
      | true =>
        rw [if_pos hflag] at h
        refine ⟨hflag, hrst, ?_⟩
        rcases hstate with hs | ⟨hrcvd, -⟩
        · have hd : d.state = .closeWait ∨ d.state = .established := by
            change finNextState d.state = .closeWait at h
            generalize d.state = st at h
            cases st <;> simp_all [finNextState]
          rcases hd with hd | hd
          · exact absurd (hkept _ (.inl rfl) (hs.symm.trans hd)) hbefore
          · exact .inl (hkept _ (.inr rfl) (hs.symm.trans hd))
        · exact .inr ⟨hrcvd, hack hrcvd⟩

/-- **What a segment can do to the state of its slot.** -/
theorem rxConn_life (env : Env) (id : ConnIdx) (c : TcpConn) (seg : Segment) (srcIp dstIp : U32) :
    (rxConn env id c seg srcIp dstIp).1.onClose = c.onClose ∧
      RxLife id c (rxConn env id c seg srcIp dstIp).1.state
        (closeCalls (rxConn env id c seg srcIp dstIp).2) := by
  have hpro := rxPrologue_life env id c seg srcIp dstIp
  unfold rxConn
  split
  · rename_i d out heq
    rw [heq] at hpro
    exact hpro
  · rename_i d heq
    rw [heq] at hpro
    obtain ⟨hcb, hstate⟩ := hpro
    obtain ⟨hdstate, hdcb, hdcalls⟩ := rxData_life id d seg
    obtain ⟨hfcb, hfin⟩ := rxFin_life env id (rxData id d seg).1 seg
    have hcalls : callOnClose (rxData id d seg).1 id = callOnClose c id := by
      rw [callOnClose, hdcb, hcb, callOnClose]
    refine ⟨by rw [hfcb, hdcb, hcb], ?_⟩
    rw [closeCalls_append, hdcalls, nil_append]
    rw [hdstate, hcalls] at hfin
    rcases hfin with ⟨hsame, hnone⟩ | ⟨hest, hwait, hclose⟩ | ⟨hdown, hdown', hnone⟩
    · rw [hsame, hnone]
      rcases hstate with h | ⟨h, h'⟩ | ⟨h, h'⟩
      · rw [h]
        exact .stays
      · rw [h']
        exact .opens (.inr h)
      · exact .windsDown h h'
    · rw [hwait, hclose]
      rcases hstate with h | ⟨h, -⟩ | ⟨-, h'⟩
      · exact .peerFin (.inl (h.symm.trans hest))
      · exact .peerFin (.inr h)
      · rw [hest] at h'
        simp [WindingDown] at h'
    · rw [hnone]
      rcases hstate with h | ⟨-, h'⟩ | ⟨h, -⟩
      · exact .windsDown (h ▸ hdown) hdown'
      · rw [h'] at hdown
        simp [WindingDown] at hdown
      · exact .windsDown h hdown'

/-! ## One call -/

/-- **The way into `CLOSE_WAIT`** is a FIN of the peer. -/
theorem takesFin_of_closeWait {t : Table} {e : Event} {i : ConnIdx}
    (h : ((step t e).conns i).state = .closeWait) (hbefore : (t.conns i).state ≠ .closeWait) :
    TakesFin t e i := by
  have hchange := step_slotChange t e i
  generalize (step t e).conns i = c at hchange h
  cases hchange with
  | same _ => exact absurd h hbefore
  | @segment _ payload srcIp dstIp seg hparse hlookup =>
    exact ⟨payload, srcIp, dstIp, seg, rfl, hparse, hlookup, finFor_of_closeWait h hbefore⟩
  | passive _ _ _ _ =>
    rw [retxArm_state] at h
    cases h
  | listen _ => cases h
  | connect _ =>
    rw [retxArm_state] at h
    cases h
  | send _ =>
    rw [retxArm_state] at h
    exact absurd h hbefore
  | close _ =>
    unfold closeConn at h
    split at h
    all_goals first | cases h | exact absurd h hbefore
  | @tick env =>
    have heffect := tickConn_effect env i (t.conns i)
    generalize tickConn env i (t.conns i) = r at heffect h
    cases heffect with
    | idle => exact absurd h hbefore
    | expire _ => cases h
    | abort _ => cases h
    | retransmit _ _ _ => exact absurd h hbefore
  | accept _ _ => exact absurd h hbefore
  | read _ => exact absurd h hbefore

variable {env : Env} {t : Table} {payload : Buffer} {srcIp dstIp : U32}

theorem outputs_segment
    {seg : Segment} (hparse : parseSegment payload = some seg)
    (hlookup : (lookup t seg srcIp (finRange tcpMaxConn) none).1 = some i) :
    outputs t ⟨env, .rx payload srcIp dstIp⟩ = (rxConn env i (t.conns i) seg srcIp dstIp).2 := by
  obtain ⟨lstn, hpair⟩ : ∃ lstn, lookup t seg srcIp (finRange tcpMaxConn) none =
      (some i, lstn) := ⟨_, Prod.ext hlookup rfl⟩
  simp only [outputs, tcpRx, hparse, hpair]

theorem step_segment
    {seg : Segment} (hparse : parseSegment payload = some seg)
    (hlookup : (lookup t seg srcIp (finRange tcpMaxConn) none).1 = some i) :
    (step t ⟨env, .rx payload srcIp dstIp⟩).conns i =
      (rxConn env i (t.conns i) seg srcIp dstIp).1 := by
  obtain ⟨lstn, hpair⟩ : ∃ lstn, lookup t seg srcIp (finRange tcpMaxConn) none =
      (some i, lstn) := ⟨_, Prod.ext hlookup rfl⟩
  simp [step, tcpRx, hparse, hpair]

/-- Only the slot a segment belongs to is told of a close. -/
theorem onClose_segment
    (h : .onClose cb j ∈ outputs t ⟨env, .rx payload srcIp dstIp⟩) :
    ∃ seg, parseSegment payload = some seg ∧
      (lookup t seg srcIp (finRange tcpMaxConn) none).1 = some j := by
  simp only [outputs, tcpRx] at h
  split at h
  · simp at h
  · rename_i seg hparse
    split at h
    · rename_i i lstn hlookup
      have hlife := (rxConn_life env i (t.conns i) seg srcIp dstIp).2
      rw [← mem_closeCalls] at h
      generalize (rxConn env i (t.conns i) seg srcIp dstIp).1.state = st at hlife
      generalize closeCalls (rxConn env i (t.conns i) seg srcIp dstIp).2 = calls at hlife h
      have hj : j = i := by
        cases hlife with
        | stays => cases h
        | opens _ => cases h
        | ends => exact (mem_callOnClose.mp h).2
        | peerFin _ => exact (mem_callOnClose.mp h).2
        | windsDown _ _ => cases h
      subst hj
      exact ⟨seg, hparse, by rw [hlookup]⟩
    · simp only [rxUnmatched, sendRstReply, passiveOpen, tcpSendRaw] at h
      repeat' split at h
      all_goals simp at h

theorem onClose_tick : .onClose cb j ∈ outputs t ⟨env, .tick⟩ ↔
      .onClose cb j ∈ (tickConn env j (t.conns j)).2 := by
  simp only [outputs, tcpTick, mem_flatMap]
  constructor
  · rintro ⟨i, -, hi⟩
    have hij : j = i := by
      have heffect := tickConn_effect env i (t.conns i)
      generalize tickConn env i (t.conns i) = r at heffect hi
      cases heffect with
      | idle => cases hi
      | expire _ => cases hi
      | abort _ => exact (mem_callOnClose.mp hi).2
      | retransmit _ _ _ => simp [tcpSendRaw] at hi
    subst hij
    exact hi
  · intro hj
    exact ⟨j, mem_finRange j, hj⟩

/-- `on_close` is called for the slot of a segment, or by a tick. -/
theorem onClose_source {call : Call} (h : .onClose cb j ∈ outputs t ⟨env, call⟩) :
    (∃ payload srcIp dstIp seg, call = .rx payload srcIp dstIp ∧ parseSegment payload = some seg ∧
      (lookup t seg srcIp (finRange tcpMaxConn) none).1 = some j) ∨ call = .tick := by
  cases call with
  | rx payload srcIp dstIp =>
    obtain ⟨seg, hparse, hlookup⟩ := onClose_segment h
    exact .inl ⟨payload, srcIp, dstIp, seg, rfl, hparse, hlookup⟩
  | tick => exact .inr rfl
  | connect remoteIp remotePort localPort onData onClose =>
    simp only [outputs, tcpConnect] at h
    split at h <;> simp [tcpSendRaw] at h
  | send id data =>
    obtain ⟨i, -, hsent⟩ := mem_tcpSend h
    cases hsent
  | close id =>
    simp only [outputs, tcpClose, closeConn] at h
    repeat' split at h
    all_goals simp [sendCtrl, tcpSendRaw] at h
  | listen _ _ _ => cases h
  | accept _ => cases h
  | read _ _ => cases h

variable {e : Event}

/-- `on_close` is called when a slot closes or has seen the peer's FIN. -/
theorem step_onClose_state (h : .onClose cb j ∈ outputs t e) :
    ((step t e).conns j).state = .closed ∨ ((step t e).conns j).state = .closeWait := by
  obtain ⟨env, call⟩ := e
  rcases onClose_source h with ⟨payload, srcIp, dstIp, seg, rfl, hparse, hlookup⟩ | rfl
  · rw [outputs_segment hparse hlookup, ← mem_closeCalls] at h
    rw [step_segment hparse hlookup]
    have hlife := (rxConn_life env j (t.conns j) seg srcIp dstIp).2
    generalize (rxConn env j (t.conns j) seg srcIp dstIp).1.state = st at hlife ⊢
    generalize closeCalls (rxConn env j (t.conns j) seg srcIp dstIp).2 = calls at hlife h
    cases hlife with
    | stays => cases h
    | opens _ => cases h
    | ends => exact .inl rfl
    | peerFin _ => exact .inr rfl
    | windsDown _ _ => cases h
  · rw [onClose_tick] at h
    have heffect := tickConn_effect env j (t.conns j)
    simp only [step, tcpTick]
    generalize tickConn env j (t.conns j) = r at heffect h ⊢
    cases heffect with
    | idle => cases h
    | expire _ => cases h
    | abort _ => exact .inl rfl
    | retransmit _ _ _ => simp [tcpSendRaw] at h

/-- The states in which a socket may hold a slot. -/
def Holdable (s : TcpState) : Prop := s = .listen ∨ s = .synSent ∨ s = .established

theorem Holdable.ne_closed {s : TcpState} (h : Holdable s) : s ≠ .closed := by
  rintro rfl
  simp [Holdable] at h

/-- A slot leaves these states with an `on_close` call, or because it is closed
from above; inside them it only completes a handshake. -/
theorem step_leaves_holdable
    (hstate : Holdable (t.conns i).state) (hcb : (t.conns i).onClose = some cb)
    (hnotClose : ∀ id, e.call = .close id → connIdx id ≠ some i) :
    ((step t e).conns i).state = (t.conns i).state ∨
      ((t.conns i).state = .synSent ∧ ((step t e).conns i).state = .established) ∨
      .onClose cb i ∈ outputs t e := by
  have hclosed := hstate.ne_closed
  have hcall : .onClose cb i ∈ callOnClose (t.conns i) i := mem_callOnClose.mpr ⟨hcb, rfl⟩
  have hchange := step_slotChange t e i
  generalize (step t e).conns i = c at hchange ⊢
  cases hchange with
  | same _ => exact .inl rfl
  | @segment env payload srcIp dstIp seg hparse hlookup =>
    rw [outputs_segment hparse hlookup, ← mem_closeCalls]
    have hlife := (rxConn_life env i (t.conns i) seg srcIp dstIp).2
    generalize (rxConn env i (t.conns i) seg srcIp dstIp).1.state = st at hlife ⊢
    generalize closeCalls (rxConn env i (t.conns i) seg srcIp dstIp).2 = calls at hlife ⊢
    cases hlife with
    | stays => exact .inl rfl
    | opens h =>
      rcases h with h | h
      · exact .inr (.inl ⟨h, rfl⟩)
      · rcases hstate with hs | hs | hs <;> simp [hs] at h
    | ends => exact .inr (.inr hcall)
    | peerFin _ => exact .inr (.inr hcall)
    | windsDown h _ =>
      rcases hstate with hs | hs | hs <;> simp [hs, WindingDown] at h
  | passive hparse hopens hlstn hlisten =>
    exact absurd (connAlloc_closed hopens.2.2.2.2) hclosed
  | listen halloc => exact absurd (connAlloc_closed halloc) hclosed
  | connect halloc => exact absurd (connAlloc_closed halloc) hclosed
  | send hsends => exact .inl (retxArm_state ..)
  | close hid => exact absurd hid (hnotClose _ rfl)
  | @tick env =>
    rw [onClose_tick]
    have heffect := tickConn_effect env i (t.conns i)
    generalize tickConn env i (t.conns i) = r at heffect ⊢
    cases heffect with
    | idle => exact .inl rfl
    | expire h => rcases hstate with hs | hs | hs <;> simp [hs] at h
    | abort _ => exact .inr (.inr hcall)
    | retransmit _ _ _ => exact .inl rfl
  | accept _ _ => exact .inl rfl
  | read _ => exact .inl rfl

/-- A connection that is winding down can only close. -/
theorem step_winding_down (e : Event) (hstate : WindingDown (t.conns i).state) :
    WindingDown ((step t e).conns i).state ∨ ((step t e).conns i).state = .closed := by
  have hclosed : (t.conns i).state ≠ .closed := by
    intro h
    simp [WindingDown, h] at hstate
  have hchange := step_slotChange t e i
  generalize (step t e).conns i = c at hchange ⊢
  cases hchange with
  | same _ => exact .inl hstate
  | @segment env payload srcIp dstIp seg hparse hlookup =>
    have hlife := (rxConn_life env i (t.conns i) seg srcIp dstIp).2
    generalize (rxConn env i (t.conns i) seg srcIp dstIp).1.state = st at hlife ⊢
    generalize closeCalls (rxConn env i (t.conns i) seg srcIp dstIp).2 = calls at hlife
    cases hlife with
    | stays => exact .inl hstate
    | opens h => rcases h with h | h <;> simp [h, WindingDown] at hstate
    | ends => exact .inr rfl
    | peerFin _ => exact .inl (by simp [WindingDown])
    | windsDown _ h => exact .inl h
  | passive hparse hopens hlstn hlisten =>
    exact absurd (connAlloc_closed hopens.2.2.2.2) hclosed
  | listen halloc => exact absurd (connAlloc_closed halloc) hclosed
  | connect halloc => exact absurd (connAlloc_closed halloc) hclosed
  | send hsends =>
    left
    rw [retxArm_state]
    exact hstate
  | close hid =>
    unfold closeConn
    split
    · exact .inl (.inl rfl)
    · exact .inl (.inl rfl)
    · exact .inl (by simp [WindingDown])
    · exact .inr rfl
    · exact .inr rfl
    · exact .inl hstate
  | @tick env =>
    have heffect := tickConn_effect env i (t.conns i)
    generalize tickConn env i (t.conns i) = r at heffect ⊢
    cases heffect with
    | idle => exact .inl hstate
    | expire _ => exact .inr rfl
    | abort _ => exact .inr rfl
    | retransmit _ _ _ => exact .inl hstate
  | accept _ _ => exact .inl hstate
  | read _ => exact .inl hstate

/-- Every open slot reports to `cb`. -/
def ReportsTo (cb : CloseCb) (t : Table) : Prop :=
  ∀ i, (t.conns i).state ≠ .closed → (t.conns i).onClose = some cb

/-- The call installs no other callback. -/
def Installs (cb : CloseCb) (e : Event) : Prop :=
  match e.call with
  | .listen _ _ onClose => onClose = some cb
  | .connect _ _ _ _ onClose => onClose = some cb
  | _ => True

theorem closeConn_onClose (c : TcpConn) : (closeConn c).1.onClose = c.onClose := by
  unfold closeConn
  split <;> rfl

theorem closeConn_closed (h : c.state = .closed) :
    (closeConn c).1.state = .closed := by
  simp [closeConn, h]

theorem tickConn_reports (h : c.state ≠ .closed → c.onClose = some cb) :
    (tickConn env i c).1.state ≠ .closed → (tickConn env i c).1.onClose = some cb := by
  have heffect := tickConn_effect env i c
  generalize tickConn env i c = r at heffect ⊢
  cases heffect with
  | idle => exact h
  | expire _ => exact fun hopen => absurd rfl hopen
  | abort _ => exact fun hopen => absurd rfl hopen
  | retransmit _ _ _ => exact h

theorem step_reportsTo (h : ReportsTo cb t)
    (he : Installs cb e) : ReportsTo cb (step t e) := by
  intro i
  have hchange := step_slotChange t e i
  generalize (step t e).conns i = c at hchange ⊢
  cases hchange with
  | same _ => exact h i
  | @segment env payload srcIp dstIp seg hparse hlookup =>
    intro _
    rw [(rxConn_life env i (t.conns i) seg srcIp dstIp).1]
    exact h i (lookup_matched hlookup).1
  | @passive env payload srcIp dstIp seg l hparse hopens hlstn hlisten =>
    intro _
    rw [retxArm_onClose]
    exact h l (by rw [hlisten]; decide)
  | listen _ => exact fun _ => he
  | connect _ =>
    intro _
    rw [retxArm_onClose]
    exact he
  | send hsends =>
    rw [retxArm_onClose, retxArm_state]
    exact h i
  | close hid =>
    intro hopen
    rw [closeConn_onClose]
    exact h i (fun hclosed => hopen (closeConn_closed hclosed))
  | tick => exact tickConn_reports (h i)
  | accept _ _ => exact h i
  | read _ => exact h i

end Tcp
