import NamelessOS.TcpHandshake
import NamelessOS.TcpStraddling

/-!
# Resets

Which RST segments `tcp_rx` obeys.  Once a connection is past `SYN_SENT` the two wrapped
comparisons of the code are exactly the receive window, at every 32-bit value.  In
`SYN_SENT` there is no test at all: the acknowledgement that says whose SYN is being
refused is not looked at, although the segment without RST is checked for it a few lines
further down.
-/

namespace Tcp

open SerialNumber Runs

/-- The reset is one the peer of this connection can send: it acknowledges our SYN, or it
lies in the receive window. -/
def ResetAcceptable (c : TcpConn) (seg : Segment) : Prop :=
  if c.state = .synSent then seg.has tcpAck = true ∧ seg.ack = c.sndNxt
  else ahead c.rcvNxt seg.seq < tcpWindow

instance (c : TcpConn) (seg : Segment) : Decidable (ResetAcceptable c seg) := by
  unfold ResetAcceptable; infer_instance

/-- **The reset rule**: such a reset closes the connection, any other changes nothing. -/
structure ResetObeyed (c : TcpConn) (seg : Segment) (d : TcpConn) : Prop where
  closes : d.state = .closed ↔ ResetAcceptable c seg
  keeps : ¬ ResetAcceptable c seg → d = c

section Window

variable {id : ConnIdx} {c : TcpConn} {seg : Segment}

theorem reset_window_iff : (!seqLt seg.seq c.rcvNxt &&
      !seqLeq (c.rcvNxt + BitVec.ofNat 32 tcpWindow) seg.seq) = true ↔
    ahead c.rcvNxt seg.seq < tcpWindow := by
  rw [← mem_window_iff (by decide : 2 * tcpWindow < 2 ^ 32)]
  simp [seqLt, seqLeq]

theorem rxRst_synSent (hstate : c.state = .synSent) : (rxRst id c seg).1.state = .closed := by
  rw [rxRst, if_pos (.inl hstate)]

theorem rxRst_obeyed (hstate : c.state ≠ .synSent) (hopen : c.state ≠ .closed) :
    ResetObeyed c seg (rxRst id c seg).1 := by
  have hacc : ResetAcceptable c seg ↔ ahead c.rcvNxt seg.seq < tcpWindow := by
    rw [ResetAcceptable, if_neg hstate]
  by_cases hwin : ahead c.rcvNxt seg.seq < tcpWindow
  · rw [rxRst, if_pos (.inr (reset_window_iff.mpr hwin))]
    exact ⟨iff_of_true rfl (hacc.mpr hwin), fun h => absurd (hacc.mpr hwin) h⟩
  · have htest := mt reset_window_iff.mp hwin
    rw [rxRst, if_neg (fun h => h.elim hstate htest)]
    exact ⟨iff_of_false hopen (mt hacc.mp hwin), fun _ => rfl⟩

end Window

theorem tcpRx_conns_other {env : Env} {t : Table} {payload : Buffer} {srcIp dstIp : U32}
    {seg : Segment} {i j : ConnIdx} (hparse : parseSegment payload = some seg)
    (hlookup : (lookup t seg srcIp (List.finRange tcpMaxConn) none).1 = some j) (hne : i ≠ j) :
    (tcpRx env t payload srcIp dstIp).1.conns i = t.conns i := by
  unfold tcpRx
  grind [Table.set_other]

/-- **Reset acceptance.**  A reset that reaches the connection is treated by the rule
exactly when the connection is past `SYN_SENT` or the reset acknowledges our SYN.  One that
an earlier slot with the same addresses takes is lost on this connection, so there the rule
holds of the resets it is to ignore. -/
theorem reset_obeyed_iff (env : Env) (t : Table) (payload : Buffer) (srcIp dstIp : U32)
    (seg : Segment) (i : ConnIdx) (hparse : parseSegment payload = some seg)
    (hrst : seg.has tcpRst = true) (hlive : Live (t.conns i))
    (hmatch : Matches (t.conns i) seg srcIp) :
    ResetObeyed (t.conns i) seg ((tcpRx env t payload srcIp dstIp).1.conns i) ↔
      if (lookup t seg srcIp (List.finRange tcpMaxConn) none).1 = some i then
        (t.conns i).state ≠ .synSent ∨ (seg.has tcpAck = true ∧ seg.ack = (t.conns i).sndNxt)
      else ¬ ResetAcceptable (t.conns i) seg := by
  by_cases hfound : (lookup t seg srcIp (List.finRange tcpMaxConn) none).1 = some i
  · rw [if_pos hfound, tcpRx_conns hparse hfound, rxConn_rst env i srcIp dstIp hrst]
    by_cases hsent : (t.conns i).state = .synSent
    · have hclosed := @rxRst_synSent i _ seg hsent
      have hacc : ResetAcceptable (t.conns i) seg ↔
          seg.has tcpAck = true ∧ seg.ack = (t.conns i).sndNxt := by
        rw [ResetAcceptable, if_pos hsent]
      constructor
      · intro h
        exact .inr (hacc.mp (h.closes.mp hclosed))
      · intro h
        have hok := hacc.mpr (h.resolve_left (absurd hsent))
        exact ⟨iff_of_true hclosed hok, fun hno => absurd hok hno⟩
    · exact iff_of_true (rxRst_obeyed hsent hlive.1) (.inl hsent)
  · rw [if_neg hfound]
    have hsome : (lookup t seg srcIp (List.finRange tcpMaxConn) none).1 ≠ none :=
      lookup_isSome (List.mem_finRange i) hlive hmatch
    obtain ⟨j, hj⟩ := Option.ne_none_iff_exists'.mp hsome
    have hne : i ≠ j := fun h => hfound (h ▸ hj)
    rw [tcpRx_conns_other hparse hj hne]
    exact ⟨fun h hacc => hlive.1 (h.closes.mpr hacc),
      fun hno => ⟨iff_of_false hlive.1 hno, fun _ => rfl⟩⟩

/-- A reset in the window of `expecting`, from its peer. -/
def resetInWindow : Buffer := ⟨(sampleHdr tcpRst 4195).bytes, by decide⟩

def resetInWindowSegment : Segment := ⟨5000, 80, 4195, 0, 0, tcpRst, []⟩

theorem reset_obeyed_in_window : parseSegment resetInWindow = some resetInWindowSegment ∧
      ResetAcceptable (expecting.conns 0) resetInWindowSegment ∧
      ResetObeyed (expecting.conns 0) resetInWindowSegment
        ((tcpRx quietEnv expecting resetInWindow 7 9).1.conns 0) := by
  have hparse : parseSegment resetInWindow = some resetInWindowSegment := by decide +kernel
  refine ⟨hparse, by decide, ?_⟩
  rw [reset_obeyed_iff quietEnv expecting resetInWindow 7 9 resetInWindowSegment 0 hparse (by decide)
    (by decide) (by decide)]
  decide

/-- A connection to `7:80` whose SYN has just been sent. -/
def dialling : Table := run step initTable [⟨quietEnv, .connect 7 80 49216 none none⟩]

/-- A reset for it that acknowledges nothing, as any host can make one. -/
def blindReset : Buffer :=
  ⟨({ sampleHdr tcpRst 0 with srcPort := ByteOrder.htons 80, dstPort := ByteOrder.htons 49216 } :
    TcpHdr).bytes, by decide⟩

def blindResetSegment : Segment := ⟨80, 49216, 0, 0, 0, tcpRst, []⟩

/-- The connection that is being opened is closed by a reset without an acknowledgement. -/
theorem dialling_closed_by_blind_reset :
    (dialling.conns 0).state = .synSent ∧ parseSegment blindReset = some blindResetSegment ∧
      Matches (dialling.conns 0) blindResetSegment 7 ∧
      ¬ ResetAcceptable (dialling.conns 0) blindResetSegment ∧
      ((tcpRx quietEnv dialling blindReset 7 9).1.conns 0).state = .closed ∧
      ¬ ResetObeyed (dialling.conns 0) blindResetSegment
        ((tcpRx quietEnv dialling blindReset 7 9).1.conns 0) := by
  have hno : ¬ ResetAcceptable (dialling.conns 0) blindResetSegment := by decide +kernel
  have hclosed : ((tcpRx quietEnv dialling blindReset 7 9).1.conns 0).state = .closed := by
    decide +kernel
  exact ⟨by decide +kernel, by decide +kernel, by decide +kernel, hno, hclosed,
    fun h => hno (h.closes.mp hclosed)⟩

end Tcp
