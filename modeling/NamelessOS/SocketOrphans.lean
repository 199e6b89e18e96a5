import NamelessOS.SocketOwnership

/-!
# Connections without a socket

A user reaches a TCP slot only through the `conn_id` of a socket, so a slot
that no socket refers to can never be closed from above.  Two paths lose the
last reference: the peer's FIN runs `tcp_sock_close` while the slot goes to
`CLOSE_WAIT`, and `sys_listen` overwrites the `conn_id` of a socket that
already has one.  `KeepsHolders` excludes exactly these, and `no_orphaned_slots`
shows that nothing else does.
-/

namespace Tcp

/-- The states in which `tcp_close` still has something to do. -/
def Anchored (s : TcpState) : Prop :=
  s = .listen ∨ s = .synSent ∨ s = .synRcvd ∨ s = .established ∨ s = .closeWait

theorem closeConn_not_anchored (c : TcpConn) : ¬ Anchored (closeConn c).1.state := by
  unfold closeConn
  split
  all_goals simp_all [Anchored]

/-- ACK processing leads only to `FIN_WAIT_2` and `TIME_WAIT`. -/
theorem ackNextState_eq {c : TcpConn} {seg : Segment} {st : TcpState}
    (h : ackNextState c seg = st) (hwait2 : st ≠ .finWait2) (htime : st ≠ .timeWait) :
    c.state = st := by
  unfold ackNextState at h
  split at h
  · exact absurd h.symm hwait2
  · split at h
    · exact absurd h.symm htime
    · exact h

/-- A segment leads to `CLOSE_WAIT` only from the states before a FIN. -/
theorem rxConn_closeWait {env : Env} {i : ConnIdx} {c : TcpConn} {seg : Segment}
    {srcIp dstIp : U32} (h : (rxConn env i c seg srcIp dstIp).1.state = .closeWait) :
    c.state = .closeWait ∨ c.state = .established ∨ c.state = .synRcvd := by
  have heffect := rxPrologue_effect env i c seg srcIp dstIp
  unfold rxConn at h
  generalize rxPrologue env i c seg srcIp dstIp = r at heffect h
  cases heffect with
  | ignored _ => exact .inl h
  | closes => cases h
  | opens _ hd _ _ => simp [hd] at h
  | @goesOn d _ hstate =>
    obtain ⟨deadline, hfin⟩ := rxFin_fst env i (rxData i d seg).1 seg
    rw [hfin, rxData_fst] at h
    have hd : d.state = .closeWait ∨ d.state = .established := by
      split at h
      · generalize d.state = st at h
        cases st <;> simp_all [finNextState]
      · exact .inl h
    rcases hstate with hs | ⟨hs, -⟩
    · rw [hs] at hd
      rcases hd with hd | hd
      · exact .inl (ackNextState_eq hd (by decide) (by decide))
      · exact .inr (.inl (ackNextState_eq hd (by decide) (by decide)))
    · exact .inr (.inr hs)

theorem step_anchored {t : Table} {e : Event} {i : ConnIdx}
    (h : Anchored ((step t e).conns i).state) :
    (t.conns i).state = .closed ∨ Anchored (t.conns i).state := by
  have hchange := step_slotChange t e i
  generalize (step t e).conns i = c at hchange h
  cases hchange with
  | same _ => exact .inr h
  | @segment env payload srcIp dstIp seg hparse hlookup =>
    right
    have hwait := @rxConn_closeWait env i (t.conns i) seg srcIp dstIp
    have hlife := (rxConn_life env i (t.conns i) seg srcIp dstIp).2
    generalize (rxConn env i (t.conns i) seg srcIp dstIp).1.state = st at hlife h hwait
    generalize closeCalls (rxConn env i (t.conns i) seg srcIp dstIp).2 = calls at hlife
    cases hlife with
    | stays => exact h
    | opens hs => rcases hs with hs | hs <;> simp [Anchored, hs]
    | ends => simp [Anchored] at h
    | peerFin hs => rcases hs with hs | hs <;> simp [Anchored, hs]
    | windsDown _ hs =>
      -- of the states after a FIN only CLOSE_WAIT is one of these
      have hcw : st = .closeWait := by
        rcases hs with rfl | rfl | rfl | rfl | rfl | rfl <;> simp [Anchored] at h ⊢
      rcases hwait hcw with hs | hs | hs <;> simp [Anchored, hs]
  | passive _ hopens _ _ => exact .inl (connAlloc_closed hopens.2.2.2.2)
  | listen halloc => exact .inl (connAlloc_closed halloc)
  | connect halloc => exact .inl (connAlloc_closed halloc)
  | send hsends =>
    rw [retxArm_state] at h
    exact .inr h
  | close _ => exact absurd h (closeConn_not_anchored _)
  | @tick env =>
    have heffect := tickConn_effect env i (t.conns i)
    generalize tickConn env i (t.conns i) = r at heffect h
    cases heffect with
    | idle => exact .inr h
    | expire _ => simp [Anchored] at h
    | abort _ => simp [Anchored] at h
    | retransmit _ _ _ => exact .inr h
  | accept _ _ => exact .inr h
  | read _ => exact .inr h

/-- Only `tcp_listen` makes a listener. -/
theorem step_listen {t : Table} {e : Event} {i : ConnIdx}
    (h : ((step t e).conns i).state = .listen) : (t.conns i).state = .listen ∨
      ∃ port onData onClose, e.call = .listen port onData onClose ∧ connAlloc t = some i := by
  have hchange := step_slotChange t e i
  generalize (step t e).conns i = c at hchange h
  cases hchange with
  | same _ => exact .inl h
  | @segment env payload srcIp dstIp seg hparse hlookup =>
    have hlife := (rxConn_life env i (t.conns i) seg srcIp dstIp).2
    generalize (rxConn env i (t.conns i) seg srcIp dstIp).1.state = st at hlife h
    generalize closeCalls (rxConn env i (t.conns i) seg srcIp dstIp).2 = calls at hlife
    cases hlife with
    | stays => exact .inl h
    | opens _ => cases h
    | ends => cases h
    | peerFin _ => cases h
    | windsDown _ hs => simp [h, WindingDown] at hs
  | passive _ _ _ _ => simp [synRcvdConn] at h
  | listen halloc => exact .inr ⟨_, _, _, rfl, halloc⟩
  | connect _ => simp [synSentConn] at h
  | send hsends =>
    rw [retxArm_state] at h
    exact .inl h
  | close _ => exact absurd (.inl h) (closeConn_not_anchored _)
  | @tick env =>
    have heffect := tickConn_effect env i (t.conns i)
    generalize tickConn env i (t.conns i) = r at heffect h
    cases heffect with
    | idle => exact .inl h
    | expire _ => cases h
    | abort _ => cases h
    | retransmit _ _ _ => exact .inl h
  | accept _ _ => exact .inl h
  | read _ => exact .inl h

/-- A call that reports the close of a slot and leaves it in `CLOSE_WAIT` took
it there, and reported it once. -/
theorem onClose_closeWait {t : Table} {e : Event} {cb : CloseCb} {k : ConnIdx}
    (h : .onClose cb k ∈ outputs t e) (hwait : ((step t e).conns k).state = .closeWait) :
    (t.conns k).state ≠ .closeWait ∧ closeCalls (outputs t e) = [.onClose cb k] := by
  obtain ⟨env, call⟩ := e
  rcases onClose_source h with ⟨payload, srcIp, dstIp, seg, rfl, hparse, hlookup⟩ | rfl
  · rw [outputs_segment hparse hlookup, ← mem_closeCalls] at h
    rw [step_segment hparse hlookup] at hwait
    rw [outputs_segment hparse hlookup]
    have hlife := (rxConn_life env k (t.conns k) seg srcIp dstIp).2
    generalize (rxConn env k (t.conns k) seg srcIp dstIp).1.state = st at hlife hwait
    generalize closeCalls (rxConn env k (t.conns k) seg srcIp dstIp).2 = calls at hlife h ⊢
    cases hlife with
    | stays => cases h
    | opens _ => cases h
    | ends => cases hwait
    | peerFin hs =>
      refine ⟨by rcases hs with hs | hs <;> simp [hs], ?_⟩
      rw [callOnClose, (mem_callOnClose.mp h).1]
    | windsDown _ _ => cases h
  · rw [onClose_tick] at h
    simp only [step, tcpTick] at hwait
    have heffect := tickConn_effect env k (t.conns k)
    generalize tickConn env k (t.conns k) = r at heffect h hwait
    cases heffect with
    | idle => cases h
    | expire _ => cases h
    | abort _ => cases hwait
    | retransmit _ _ _ => simp [tcpSendRaw] at h

end Tcp

namespace Socket

open Tcp Runs Function

/-- **No orphans**: a slot that listens, or that was returned by an accept or a
connect and is open, is held by a socket.  A connection that was passed to
`sys_shutdown` has left these states. -/
def NoOrphans (s : Tracked) : Prop := ∀ k, ((s.net.tcp.conns k).state = .listen ∨ (s.handed k ∧
      ((s.net.tcp.conns k).state = .established ∨ (s.net.tcp.conns k).state = .closeWait))) →
    ∃ a, Holds s.net.socks a k

/-- A slot that must keep a socket. -/
def Needs (s : Tracked) (k : ConnIdx) : Prop :=
  (s.net.tcp.conns k).state = .listen ∨ (s.handed k ∧ Anchored (s.net.tcp.conns k).state)

/-- The condition on each call: a connection that was handed out and takes the
peer's FIN is held by two sockets, and a `sys_listen` that finds a free slot is
not made on the only socket of a slot that must keep one. -/
def KeepsHolders (s : Tracked) (e : NetEvent) : Prop :=
  (∀ payload srcIp dstIp k, e.call = .segment payload srcIp dstIp → s.handed k →
    TakesFin s.net.tcp ⟨e.env, .rx payload srcIp dstIp⟩ k →
      ∃ a b, a ≠ b ∧ Holds s.net.socks a k ∧ Holds s.net.socks b k) ∧
  ∀ fd i k, e.call = .listen fd → fdToIdx fd = some i → (connAlloc s.net.tcp).isSome = true →
    Holds s.net.socks i k → Needs s k → ∃ b ≠ i, Holds s.net.socks b k

/-! ## The sockets after the callbacks -/

variable {socks : SockIdx → Sock} {a : SockIdx} {k : ConnIdx}

/-- `tcp_sock_close` takes a connection from no socket of another one. -/
theorem Holds.tcpSockClose {id : ConnIdx}
    (h : Holds socks a k) (hne : k ≠ id) : Holds (tcpSockClose socks id) a k := by
  unfold Socket.tcpSockClose
  split
  · exact h
  · rename_i i hfound
    grind [Holds]

theorem holds_tcpSockClose_of_two {b : SockIdx}
    (hab : a ≠ b) (ha : Holds socks a k) (hb : Holds socks b k) :
    ∃ c, Holds (tcpSockClose socks k) c k := by
  unfold Socket.tcpSockClose
  split
  · exact ⟨a, ha⟩
  · rename_i i hfound
    by_cases hai : a = i
    · subst hai
      exact ⟨b, by rw [Holds, update_of_ne hab.symm]; exact hb⟩
    · exact ⟨a, by rw [Holds, update_of_ne hai]; exact ha⟩

theorem Holds.closeSockets
    {out : List Output} (h : Holds socks a k) (hout : .onClose .tcpSockClose k ∉ out) :
    Holds (closeSockets out socks) a k := by
  induction out generalizing socks with
  | nil => exact h
  | cons o out ih =>
    rw [List.mem_cons, not_or] at hout
    cases o with
    | onClose cb id =>
      cases cb
      refine ih (h.tcpSockClose ?_) hout.2
      rintro rfl
      exact hout.1 rfl
    | onData cb id data => exact ih h hout.2
    | ipv4Send dstIp seg => exact ih h hout.2

/-! ## One call and whole runs -/

/-- What holds in every state of an admitted run. -/
structure Tracked.Anchoring (s : Tracked) : Prop where
  held : ∀ k, Needs s k → ∃ a, Holds s.net.socks a k
  opened : ∀ k, s.handed k → (s.net.tcp.conns k).state ≠ .closed

variable {s : Tracked}

/-- A slot that needs a socket after a step of TCP needed one before it, unless
the step made it a listener. -/
theorem Tracked.Anchoring.needs_before (hs : s.Anchoring) {e : Event}
    (h : ((Tcp.step s.net.tcp e).conns k).state = .listen ∨
      (s.handed k ∧ Anchored ((Tcp.step s.net.tcp e).conns k).state)) :
    Needs s k ∨ ∃ port onData onClose, e.call = .listen port onData onClose ∧
      connAlloc s.net.tcp = some k := by
  rcases h with h | ⟨hk, h⟩
  · exact (step_listen h).imp_left .inl
  · rcases step_anchored h with hclosed | hanch
    · exact absurd hclosed (hs.opened k hk)
    · exact .inl (.inr ⟨hk, hanch⟩)

theorem Tracked.Anchoring.tcpStep (hs : s.Anchoring) {e : Event}
    (hnotListen : ∀ port onData onClose, e.call ≠ .listen port onData onClose)
    (hfin : s.handed k → TakesFin s.net.tcp e k →
      ∃ a b, a ≠ b ∧ Holds s.net.socks a k ∧ Holds s.net.socks b k)
    (h : ((Tcp.step s.net.tcp e).conns k).state = .listen ∨
      (s.handed k ∧ Anchored ((Tcp.step s.net.tcp e).conns k).state)) :
    ∃ a, Holds (closeSockets (outputs s.net.tcp e) s.net.socks) a k := by
  obtain hneeds | ⟨port, onData, onClose, hcall, -⟩ := hs.needs_before h
  swap
  · exact absurd hcall (hnotListen port onData onClose)
  obtain ⟨a, ha⟩ := hs.held k hneeds
  by_cases hcall : .onClose .tcpSockClose k ∈ outputs s.net.tcp e
  · rcases step_onClose_state hcall with hst | hst
    · rw [hst] at h
      simp [Anchored] at h
    · -- the callback takes one socket from a connection that has two
      have hk : s.handed k := by
        rcases h with h | h
        · simp [hst] at h
        · exact h.1
      obtain ⟨hbefore, honce⟩ := onClose_closeWait hcall hst
      obtain ⟨a, b, hab, ha, hb⟩ := hfin hk (takesFin_of_closeWait hst hbefore)
      rw [← closeSockets_closeCalls, honce]
      exact holds_tcpSockClose_of_two hab ha hb
  · exact ⟨a, ha.closeSockets hcall⟩

theorem Holds.update_other {i : SockIdx} (h : Holds socks a k) (hai : a ≠ i) (sock : Sock) :
    Holds (Function.update socks i sock) a k := by
  rw [Holds, update_of_ne hai]
  exact h

theorem Tracked.Anchoring.step (hs : s.Anchoring) {e : NetEvent}
    (hok : KeepsHolders s e) : (s.step e).Anchoring := by
  refine ⟨fun k hk => ?_, fun k hk => hk.1⟩
  obtain ⟨env, udpRet, call⟩ := e
  have hchange := netStep_change s.net env udpRet call
  simp only [KeepsHolders, Needs, Tracked.step] at hok hk ⊢
  generalize netStep s.net ⟨env, udpRet, call⟩ = n' at hchange hk ⊢
  generalize returned s.net ⟨env, udpRet, call⟩ = ret at hchange hk
  cases hchange with
  | quiet htcp hholds =>
    rw [htcp] at hk
    obtain ⟨a, ha⟩ := hs.held k (hk.imp_right (fun h => ⟨h.1.2.resolve_right (by rintro ⟨⟩), h.2⟩))
    exact ⟨a, (hholds a k).mpr ha⟩
  | tcp te hcb hnotClose hnotListen _ hrx =>
    refine hs.tcpStep hnotListen (fun hhanded hfin => ?_)
      (hk.imp_right (fun h => ⟨h.1.2.resolve_right (by rintro ⟨⟩), h.2⟩))
    obtain ⟨payload, srcIp, dstIp, seg, hcall, htaken⟩ := hfin
    exact hok.1 payload srcIp dstIp k (hrx _ _ _ hcall) hhanded
      ⟨payload, srcIp, dstIp, seg, rfl, htaken⟩
  | @listen fd i k' port hcall hfd htype hslot =>
    by_cases hkk : k' = k
    · subst hkk
      exact ⟨i, by rw [Holds]; simp [Net.setSock, htype]⟩
    obtain hneeds | ⟨_, _, _, -, halloc⟩ := hs.needs_before
      (hk.imp_right (fun h => ⟨h.1.2.resolve_right (by rintro ⟨⟩), h.2⟩))
    swap
    · exact absurd (Option.some.inj (hslot.symm.trans halloc)) hkk
    obtain ⟨a, ha⟩ := hs.held k hneeds
    by_cases hai : a = i
    · subst hai
      obtain ⟨b, hba, hb⟩ := hok.2 fd a k hcall hfd (by rw [hslot]; rfl) ha hneeds
      exact ⟨b, hb.update_other hba _⟩
    · exact ⟨a, ha.update_other hai _⟩
  | @connect _ _ i k' remoteIp remotePort localPort _ _ _ htype hconn hslot =>
    by_cases hkk : k' = k
    · subst hkk
      exact ⟨i, by rw [Holds]; simp [Net.setSock, htype]⟩
    obtain hneeds | ⟨_, _, _, hbad, -⟩ := hs.needs_before
      (hk.imp_right (fun h => ⟨h.1.2.resolve_right (by simpa using hkk), h.2⟩))
    swap
    · cases hbad
    obtain ⟨a, ha⟩ := hs.held k hneeds
    refine ⟨a, ha.update_other ?_ _⟩
    rintro rfl
    exact not_holds_of_none hconn k ha
  | @accept fd i j k' sock hcall hfd htype hfree hacc hfirst hsock =>
    by_cases hkk : k' = k
    · subst hkk
      exact ⟨j, by rw [Holds]; simp [Net.setSock, hsock]⟩
    obtain hneeds | ⟨_, _, _, hbad, -⟩ := hs.needs_before
      (hk.imp_right (fun h => ⟨h.1.2.resolve_right (by simpa using hkk), h.2⟩))
    swap
    · cases hbad
    obtain ⟨a, ha⟩ := hs.held k hneeds
    refine ⟨a, ha.update_other ?_ _⟩
    rintro rfl
    rw [Holds, hfree] at ha
    cases ha.1
  | @release i k' sock hi hsock =>
    by_cases hkk : k = k'
    · subst hkk
      have hanch : Anchored ((Tcp.step s.net.tcp ⟨env, .close k.val⟩).conns k).state :=
        hk.elim .inl And.right
      rw [step_close_conns, update_self] at hanch
      exact absurd hanch (closeConn_not_anchored _)
    obtain hneeds | ⟨_, _, _, hbad, -⟩ := hs.needs_before
      (hk.imp_right (fun h => ⟨h.1.2.resolve_right (by rintro ⟨⟩), h.2⟩))
    swap
    · cases hbad
    obtain ⟨a, ha⟩ := hs.held k hneeds
    refine ⟨a, ha.update_other ?_ _⟩
    rintro rfl
    exact hkk (Option.some.inj (ha.2.symm.trans hi.2))

end Socket
