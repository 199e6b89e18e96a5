import NamelessOS.TcpHandshake

/-!
# Agreement on sequence numbers

Two hosts and a network that loses, repeats and reorders segments but does not
make them up: what a host has sent stays in the network for good, and any of it
may be delivered at any time.  Host `a` dials a port of host `b` once; apart
from data and FINs on this connection both hosts may do anything else they
like, with each other and with third parties.

Whatever `b` answers, `a` sends one SYN and acknowledges one initial sequence
number.  So a slot of `b` that was opened by that SYN and completed by that
acknowledgement agrees with `a` on both sequence numbers, however many slots
`b` opened for the same peer before (`handshake_agreement`).  Nothing depends
on the initial sequence numbers being distinct.
-/

namespace Tcp

open Runs List Option

/-! ## The two sides -/

/-- What host `a` sends on the connection: resets, SYNs with sequence number
`x`, and acknowledgements of `r`. -/
def FromA (x r : Option U32) (s : Segment) : Prop :=
  Bare s ∧ ((s.has tcpRst = true ∧ s.has tcpSyn = false) ∨
    (s.has tcpRst = false ∧ s.has tcpAck = false ∧ x = some s.seq) ∨
    (s.has tcpRst = false ∧ s.has tcpSyn = false ∧ r = some s.ack))

/-- What host `b` sends on it: nothing that opens a connection. -/
def FromB (s : Segment) : Prop := Bare s ∧ (s.has tcpSyn = true → s.has tcpAck = true)

/-- The slot of `a` that dialed. -/
inductive SideA (x r : Option U32) (c : TcpConn) : Prop
  | synSent (y : U32) (hstate : c.state = .synSent) (hx : x = some y) (hnxt : c.sndNxt = y + 1)
      (hr : r = none) (hkept : KeptReads c (FromA x r))
  | established (y : U32) (hstate : c.state = .established) (hx : x = some y)
      (hnxt : c.sndNxt = y + 1) (hr : r = some c.rcvNxt) (hretx : c.retxBuf = none)

/-- A slot that `b` opened for it. -/
inductive SideB (x r : Option U32) (c : TcpConn) : Prop
  | synRcvd (y : U32) (hstate : c.state = .synRcvd) (hx : x = some y) (hnxt : c.rcvNxt = y + 1)
      (hkept : KeptReads c FromB)
  | established (y : U32) (hstate : c.state = .established) (hx : x = some y)
      (hnxt : c.rcvNxt = y + 1) (hr : r = some c.sndNxt) (hretx : c.retxBuf = none)

section Sides

variable {x r : Option U32} {c d : TcpConn}

theorem SideA.carried (h : SideA x r c) (hc : Carried c d) : SideA x r d := by
  cases h with
  | synSent y hstate hx hnxt hr hkept =>
    exact .synSent y (hc.state.trans hstate) hx (hc.sndNxt.trans hnxt) hr (hc.keptReads hkept)
  | established y hstate hx hnxt hr hretx =>
    exact .established y (hc.state.trans hstate) hx (hc.sndNxt.trans hnxt)
      (hc.rcvNxt.symm ▸ hr) (hc.retxBuf hretx)

theorem SideB.carried (h : SideB x r c) (hc : Carried c d) : SideB x r d := by
  cases h with
  | synRcvd y hstate hx hnxt hkept =>
    exact .synRcvd y (hc.state.trans hstate) hx (hc.rcvNxt.trans hnxt) (hc.keptReads hkept)
  | established y hstate hx hnxt hr hretx =>
    exact .established y (hc.state.trans hstate) hx (hc.rcvNxt.trans hnxt)
      (hc.sndNxt.symm ▸ hr) (hc.retxBuf hretx)

theorem Acked.carried (h : Acked c d) (hstate : c.state = .established) : Carried c d where
  state := h.state.trans hstate.symm
  sndNxt := h.sndNxt
  rcvNxt := h.rcvNxt
  retxBuf := fun _ => h.retxBuf
  kept := by
    intro bytes hbytes
    rw [keptSegment, h.retxBuf] at hbytes
    cases hbytes

variable {seg : Segment}

theorem rst_quiet (env : Env) (id : ConnIdx) (srcIp dstIp : U32)
    (hrst : seg.has tcpRst = true) :
    (Idle (rxConn env id c seg srcIp dstIp).1 ∨ (rxConn env id c seg srcIp dstIp).1 = c) ∧
      ∀ dst bytes, .ipv4Send dst bytes ∉ (rxConn env id c seg srcIp dstIp).2 := by
  rw [rxConn_rst env id srcIp dstIp hrst]
  unfold rxRst
  split
  · exact ⟨.inl ⟨fun h => h.1 rfl, rfl⟩, not_mem_callOnClose c id⟩
  · exact ⟨.inr rfl, fun _ _ h => by cases h⟩

/-- `b` sends nothing when a segment reaches one of its slots, and completes
the handshake only with what `a` acknowledged. -/
theorem SideB.heard {env : Env} {id : ConnIdx} {srcIp dstIp : U32}
    (h : SideB x r c) (hseg : FromA x r seg) :
    (Idle (rxConn env id c seg srcIp dstIp).1 ∨ SideB x r (rxConn env id c seg srcIp dstIp).1) ∧
      ∀ dst bytes, .ipv4Send dst bytes ∉ (rxConn env id c seg srcIp dstIp).2 := by
  obtain ⟨hbare, hkind⟩ := hseg
  cases hrst : seg.has tcpRst with
  | true =>
    grind [rst_quiet]
  | false =>
    cases h with
    | established y hstate hx hnxt hr hretx =>
      have hacked : Acked c (ackUpdate env c seg) := acked_ackUpdate env hstate hretx
      rw [rxConn_established env id srcIp dstIp hrst hbare hstate]
      exact ⟨.inr (SideB.carried (.established y hstate hx hnxt hr hretx)
        (hacked.carried hstate)), fun _ _ h => by cases h⟩
    | synRcvd y hstate hx hnxt hkept =>
      rcases rxConn_synRcvd env id srcIp dstIp hrst hbare hstate with
        hsame | ⟨hack, hnum, d, hrun, hacked⟩
      · rw [hsame]
        exact ⟨.inr (.synRcvd y hstate hx hnxt hkept), fun _ _ h => by cases h⟩
      · rw [hrun]
        refine ⟨.inr (.established y hacked.state hx (hacked.rcvNxt.trans hnxt) ?_
          hacked.retxBuf), fun _ _ h => by cases h⟩
        rcases hkind with ⟨hset, -⟩ | ⟨-, hnack, -⟩ | ⟨-, -, hr⟩
        · simp [hrst] at hset
        · simp [hack] at hnack
        · rw [hr, hnum, hacked.sndNxt]

/-- `a` completes the handshake with one segment, and acknowledges what that
segment carried. -/
theorem SideA.heard (env : Env) (id : ConnIdx) (srcIp dstIp : U32)
    (h : SideA x r c) (hseg : FromB seg) :
    (c.state = .synSent ∧ (rxConn env id c seg srcIp dstIp).1.state = .established ∧
      SideA x (some (rxConn env id c seg srcIp dstIp).1.rcvNxt)
        (rxConn env id c seg srcIp dstIp).1 ∧
      ∀ dst bytes s, .ipv4Send dst bytes ∈ (rxConn env id c seg srcIp dstIp).2 →
        readSegment bytes = some s →
        FromA x (some (rxConn env id c seg srcIp dstIp).1.rcvNxt) s) ∨
    ((Idle (rxConn env id c seg srcIp dstIp).1 ∨ SideA x r (rxConn env id c seg srcIp dstIp).1) ∧
      ∀ dst bytes s, .ipv4Send dst bytes ∈ (rxConn env id c seg srcIp dstIp).2 →
        readSegment bytes = some s → FromA x r s) := by
  cases hrst : seg.has tcpRst with
  | true =>
    grind [rst_quiet]
  | false =>
    cases hside : h with
    | established y hstate hx hnxt hr hretx =>
      have hacked : Acked c (ackUpdate env c seg) := acked_ackUpdate env hstate hretx
      rw [rxConn_established env id srcIp dstIp hrst hseg.1 hstate]
      grind [carried, Acked.carried]
    | synSent y hstate hx hnxt hr hkept =>
      rw [rxConn_synSent env id srcIp dstIp hrst hstate]
      unfold rxSynSent
      split
      · exact .inr ⟨.inr h, fun _ _ _ hsent => by cases hsent⟩
      · split
        · refine .inr ⟨.inr h, fun dst bytes s hsent hread => ?_⟩
          obtain ⟨-, hbare, hset, hsyn⟩ := readSegment_rst (mem_singleton.mp hsent) hread
          exact ⟨hbare, .inl ⟨hset, hsyn⟩⟩
        · split
          · exact .inr ⟨.inr h, fun _ _ _ hsent => by cases hsent⟩
          · refine .inl ⟨hstate, rfl, .established y rfl hx hnxt rfl rfl, ?_⟩
            intro dst bytes s hsent hread
            cases mem_singleton.mp hsent
            rw [readSegment_fillChecksum, readSegment_connHdr] at hread
            cases hread
            exact ⟨⟨rfl, (by decide : (tcpAck &&& tcpFin != 0) = false)⟩,
              .inr (.inr ⟨(by decide : (tcpAck &&& tcpRst != 0) = false),
                (by decide : (tcpAck &&& tcpSyn != 0) = false), rfl⟩)⟩

end Sides

/-! ## The two hosts -/

/-- A number that is drawn once. -/
def Grows (o o' : Option U32) : Prop := ∀ y, o = some y → o' = some y

theorem Grows.refl (o : Option U32) : Grows o o := fun _ h => h

section Hosts

variable {me : U16 × U32 × U16} {x r x' r' : Option U32} {t : Table} {e : Event}

theorem FromA.grows {s : Segment} (h : FromA x r s) (hx : Grows x x') (hr : Grows r r') :
    FromA x' r' s :=
  ⟨h.1, h.2.imp_right (Or.imp (fun hs => ⟨hs.1, hs.2.1, hx _ hs.2.2⟩)
    (fun hs => ⟨hs.1, hs.2.1, hr _ hs.2.2⟩))⟩

theorem SideB.grows {c : TcpConn} (h : SideB x r c) (hx : Grows x x') (hr : Grows r r') :
    SideB x' r' c := by
  cases h with
  | synRcvd y hstate hy hnxt hkept => exact .synRcvd y hstate (hx y hy) hnxt hkept
  | established y hstate hy hnxt hs hretx =>
    exact .established y hstate (hx y hy) hnxt (hr _ hs) hretx

/-- The slots of host `b` that hold the connection. -/
structure HostB (me : U16 × U32 × U16) (x r : Option U32) (t : Table) : Prop where
  slots : ∀ i, ident (t.conns i) = me → Idle (t.conns i) ∨ SideB x r (t.conns i)
  ports : ∀ i, OwnPorts (t.conns i)

theorem not_live_timeWait {c : TcpConn} (h : Idle c) : c.state ≠ .timeWait := by
  intro hstate
  exact h.1 ⟨by simp [hstate], by simp [hstate]⟩

variable {bytes : List U8}

theorem keptSegment_idle {c : TcpConn} (h : Idle c) : keptSegment c ≠ some bytes := by
  rw [keptSegment, h.2]
  simp

section

variable (h : HostB me x r t) (hmeets : Meets t me (FromA x r) e) (hdials : ¬ Dials e me)
include h hmeets hdials

theorem HostB.step : HostB me x r (step t e) := by
  refine ⟨fun i hident => ?_, ownPorts_step h.ports e⟩
  have hwait : ident (t.conns i) = me → (t.conns i).state ≠ .timeWait := by
    intro hme
    rcases h.slots i hme with hidle | hside
    · exact not_live_timeWait hidle
    · cases hside with
      | synRcvd _ hstate _ _ _ => simp [hstate]
      | established _ hstate _ _ _ _ => simp [hstate]
  have hturn := step_turn hmeets hwait hident
  generalize (Tcp.step t e).conns i = c at hturn ⊢
  cases hturn with
  | idle hidle => exact .inl hidle
  | carried hme hcarried =>
    exact (h.slots i hme).imp hcarried.idle (fun hside => hside.carried hcarried)
  | dialed hyes _ _ _ _ => exact absurd hyes hdials
  | heard hseg hlive _ hme =>
    exact ((h.slots i hme).resolve_left (fun hidle => hidle.1 hlive)).heard hseg |>.1
  | @opened seg c hseg hsyn hack hstate hnxt hkept =>
    -- the only segments of `a` with a SYN and no ACK are its SYNs
    rcases hseg.2 with ⟨-, hno⟩ | ⟨-, -, hx⟩ | ⟨-, hno, -⟩
    · simp [hsyn] at hno
    · refine .inr (.synRcvd seg.seq hstate hx hnxt (fun bytes hbytes s hs => ?_))
      obtain ⟨hbare, hacks⟩ := hkept bytes hbytes s hs
      exact ⟨hbare, fun _ => hacks⟩
    · simp [hsyn] at hno

theorem HostB.said {dst : U32} {s : Segment}
    (hsent : .ipv4Send dst bytes ∈ outputs t e) (hread : readSegment bytes = some s)
    (haddr : (s.srcPort, dst, s.dstPort) = me) : FromB s := by
  cases outputs_said h.ports hmeets hsent hread haddr with
  | reply hseg hlive hme _ hreply _ =>
    have hside := (h.slots _ hme).resolve_left (fun hidle => hidle.1 hlive)
    exact absurd hreply ((hside.heard hseg).2 _ _)
  | synAck _ _ _ hbare hack => exact ⟨hbare, fun _ => hack⟩
  | reset hbare _ hsyn => exact ⟨hbare, fun hyes => by simp [hsyn] at hyes⟩
  | syn hyes _ _ _ _ _ => exact absurd hyes hdials
  | again hme hkept hread' =>
    rcases h.slots _ hme with hidle | hside
    · exact absurd hkept (keptSegment_idle hidle)
    · cases hside with
      | synRcvd _ _ _ _ hreads => exact hreads _ hkept _ hread'
      | established _ _ _ _ _ hretx =>
        rw [keptSegment, hretx] at hkept
        cases hkept

end

/-- The slots of host `a` that hold the connection: the one that `tcp_connect`
returned, if any. -/
structure HostA (me : U16 × U32 × U16) (slot : Option ConnIdx) (x r : Option U32)
    (t : Table) : Prop where
  slots : ∀ i, ident (t.conns i) = me → Idle (t.conns i) ∨ (slot = some i ∧ SideA x r (t.conns i))
  ports : ∀ i, OwnPorts (t.conns i)
  undialed : slot = none → x = none ∧ r = none

/-- The slot `tcp_connect` returns, if the call dials connection `me`. -/
def dialedSlot (me : U16 × U32 × U16) (t : Table) (e : Event) : Option ConnIdx :=
  match e.call with
  | .connect remoteIp remotePort localPort onData onClose =>
    if (localPort, remoteIp, remotePort) = me then
      (tcpConnect e.env t remoteIp remotePort localPort onData onClose).2.2
    else none
  | _ => none

theorem dialedSlot_of_dials (h : Dials e me) : dialedSlot me t e = connAlloc t := by
  obtain ⟨env, call⟩ := e
  cases call with
  | connect remoteIp remotePort localPort onData onClose =>
    simp only [dialedSlot, if_pos (show (localPort, remoteIp, remotePort) = me from h), tcpConnect]
    split <;> simp [*]
  | rx _ _ _ => exact h.elim
  | listen _ _ _ => exact h.elim
  | send _ _ => exact h.elim
  | close _ => exact h.elim
  | tick => exact h.elim
  | accept _ => exact h.elim
  | read _ _ => exact h.elim

theorem dialedSlot_of_not (h : ¬ Dials e me) : dialedSlot me t e = none := by
  unfold dialedSlot
  split
  · rename_i remoteIp remotePort localPort onData onClose hcall
    rw [if_neg (by simpa [Dials, hcall] using h)]
  · rfl

variable {slot : Option ConnIdx}

theorem HostA.wait (h : HostA me slot x r t) (i : ConnIdx) (hme : ident (t.conns i) = me) :
    (t.conns i).state ≠ .timeWait := by
  rcases h.slots i hme with hidle | ⟨-, hside⟩
  · exact not_live_timeWait hidle
  · cases hside with
    | synSent _ hstate _ _ _ _ => simp [hstate]
    | established _ hstate _ _ _ _ => simp [hstate]

theorem HostA.kept (h : HostA me slot x r t) {i : ConnIdx} {s : Segment}
    (hme : ident (t.conns i) = me) (hkept : keptSegment (t.conns i) = some bytes)
    (hread : readSegment bytes = some s) : FromA x r s := by
  rcases h.slots i hme with hidle | ⟨-, hside⟩
  · exact absurd hkept (keptSegment_idle hidle)
  · cases hside with
    | synSent _ _ _ _ _ hreads => exact hreads bytes hkept s hread
    | established _ _ _ _ _ hretx =>
      rw [keptSegment, hretx] at hkept
      cases hkept

/-- `b` never opens a connection to `a`. -/
theorem FromB.not_open {seg : Segment} (h : FromB seg) (hsyn : seg.has tcpSyn = true)
    (hack : seg.has tcpAck = false) : False := by
  simp [h.2 hsyn] at hack

/-- What host `a` sends on the connection during a call. -/
def SaysA (me : U16 × U32 × U16) (x r : Option U32) (t : Table) (e : Event) : Prop :=
  ∀ dst bytes s, .ipv4Send dst bytes ∈ outputs t e → readSegment bytes = some s →
    (s.srcPort, dst, s.dstPort) = me → FromA x r s

/-- The one active open draws `x`. -/
theorem HostA.dial (h : HostA me none x r t) (hmeets : Meets t me FromB e) {k : ConnIdx}
    (halloc : connAlloc t = some k) :
    HostA me (some k) (some (nextIsn t.isnCounter)) none (step t e) ∧
      SaysA me (some (nextIsn t.isnCounter)) none t e := by
  have hidle : ∀ i, ident (t.conns i) = me → Idle (t.conns i) := fun i hme =>
    (h.slots i hme).resolve_right (fun hside => by cases hside.1)
  refine ⟨⟨fun i hident => ?_, ownPorts_step h.ports e, fun hno => by cases hno⟩, ?_⟩
  · have hturn := step_turn hmeets (h.wait i) hident
    generalize (Tcp.step t e).conns i = c at hturn ⊢
    cases hturn with
    | idle hc => exact .inl hc
    | carried hme hcarried => exact .inl (hcarried.idle (hidle i hme))
    | dialed _ halloc' hstate hnxt hkept =>
      refine .inr ⟨halloc.symm.trans halloc', .synSent _ hstate rfl hnxt rfl ?_⟩
      intro bytes hbytes s hs
      obtain ⟨hbare, hrst, hack, hseq⟩ := hkept bytes hbytes s hs
      exact ⟨hbare, .inr (.inl ⟨hrst, hack, by rw [hseq]⟩)⟩
    | heard _ hlive _ hme => exact absurd hlive (hidle i hme).1
    | opened hseg hsyn hack _ _ _ => exact (hseg.not_open hsyn hack).elim
  · intro dst bytes s hsent hread haddr
    cases outputs_said h.ports hmeets hsent hread haddr with
    | reply _ hlive hme _ _ _ => exact absurd hlive (hidle _ hme).1
    | synAck hseg hsyn hack _ _ => exact (hseg.not_open hsyn hack).elim
    | reset hbare hrst hsyn => exact ⟨hbare, .inl ⟨hrst, hsyn⟩⟩
    | syn _ _ hbare hrst hack hseq => exact ⟨hbare, .inr (.inl ⟨hrst, hack, by rw [hseq]⟩)⟩
    | again hme hkept _ => exact absurd hkept (keptSegment_idle (hidle _ hme))

section

variable (h : HostA me slot x r t) (hmeets : Meets t me FromB e)
include h hmeets

/-- The SYN-ACK that completes the handshake fixes `r`. -/
theorem HostA.complete
    (hdials : ¬ Dials e me) {i : ConnIdx} (hme : ident (t.conns i) = me)
    (hstate : (t.conns i).state = .synSent) (hdone : ((step t e).conns i).state = .established) :
    r = none ∧ HostA me slot x (some ((step t e).conns i).rcvNxt) (step t e) ∧
      SaysA me x (some ((step t e).conns i).rcvNxt) t e := by
  obtain ⟨hslot, hside⟩ := (h.slots i hme).resolve_left
    (fun hidle => hidle.1 (live_of_synSent hstate))
  have hother : ∀ j, ident (t.conns j) = me → j ≠ i → Idle (t.conns j) := fun j hj hne =>
    (h.slots j hj).resolve_right (fun hs => hne (Option.some.inj (hs.1.symm.trans hslot)))
  have hr : r = none := by
    cases hside with
    | synSent _ _ _ _ hr _ => exact hr
    | established _ hest _ _ _ _ => simp [hstate] at hest
  have hgrows : Grows r (some ((step t e).conns i).rcvNxt) := fun y hy => by simp [hr] at hy
  -- the segment that moved the slot to ESTABLISHED is the completing one
  have hheard : ∀ {env seg srcIp dstIp}, FromB seg →
      (step t e).conns i = (rxConn env i (t.conns i) seg srcIp dstIp).1 →
      SideA x (some ((step t e).conns i).rcvNxt) ((step t e).conns i) ∧
        ∀ dst bytes s, .ipv4Send dst bytes ∈ (rxConn env i (t.conns i) seg srcIp dstIp).2 →
          readSegment bytes = some s → FromA x (some ((step t e).conns i).rcvNxt) s := by
    intro env seg srcIp dstIp hseg hstep
    rcases hside.heard env i srcIp dstIp hseg with ⟨-, -, hside', hout⟩ | ⟨hconn, -⟩
    · rw [hstep]
      exact ⟨hside', hout⟩
    · rw [← hstep] at hconn
      rcases hconn with hidle | hside'
      · exact absurd (live_of_established hdone) hidle.1
      · cases hside' with
        | synSent _ hs _ _ _ _ => simp [hdone] at hs
        | established _ _ _ _ hr' _ => simp [hr] at hr'
  refine ⟨hr, ⟨fun j hident => ?_, ownPorts_step h.ports e, fun hno => ?_⟩, ?_⟩
  · have hturn := step_turn hmeets (h.wait j) hident
    by_cases hji : j = i
    · subst hji
      right
      refine ⟨hslot, ?_⟩
      generalize hc : (Tcp.step t e).conns j = c at hturn hdone hheard
      cases hturn with
      | idle hidle => exact absurd (live_of_established hdone) hidle.1
      | carried _ hcarried => simp [hcarried.state, hstate] at hdone
      | dialed hyes _ _ _ _ => exact absurd hyes hdials
      | heard hseg _ _ _ => exact (hheard hseg rfl).1
      | opened _ _ _ hs _ _ => simp [hs] at hdone
    · left
      generalize (Tcp.step t e).conns j = c at hturn
      cases hturn with
      | idle hidle => exact hidle
      | carried hj hcarried => exact hcarried.idle (hother j hj hji)
      | dialed hyes _ _ _ _ => exact absurd hyes hdials
      | heard _ hlive _ hj => exact absurd hlive (hother j hj hji).1
      | opened hseg hsyn hack _ _ _ => exact (hseg.not_open hsyn hack).elim
  · rw [hslot] at hno
    cases hno
  · intro dst bytes s hsent hread haddr
    cases outputs_said h.ports hmeets hsent hread haddr with
    | @reply env seg srcIp dstIp dst k bytes hseg hlive hk hstep hreply hread =>
      by_cases hki : k = i
      · subst hki
        exact (hheard hseg hstep).2 _ _ _ hreply hread
      · exact absurd hlive (hother k hk hki).1
    | synAck hseg hsyn hack _ _ => exact (hseg.not_open hsyn hack).elim
    | reset hbare hrst hsyn => exact ⟨hbare, .inl ⟨hrst, hsyn⟩⟩
    | syn hyes _ _ _ _ _ => exact absurd hyes hdials
    | again hk hkept hread => exact (h.kept hk hkept hread).grows (.refl x) hgrows

theorem HostA.quiet
    (hdials : ∀ k, Dials e me → connAlloc t ≠ some k)
    (hdone : ∀ i, ident (t.conns i) = me → (t.conns i).state = .synSent →
      ((step t e).conns i).state ≠ .established) :
    HostA me slot x r (step t e) ∧ SaysA me x r t e := by
  have hside : ∀ {i}, ident (t.conns i) = me → Live (t.conns i) →
      slot = some i ∧ SideA x r (t.conns i) := fun hme hlive =>
    (h.slots _ hme).resolve_left (fun hidle => hidle.1 hlive)
  refine ⟨⟨fun i hident => ?_, ownPorts_step h.ports e, h.undialed⟩, ?_⟩
  · have hturn := step_turn hmeets (h.wait i) hident
    have hstill := hdone i
    generalize (Tcp.step t e).conns i = c at hturn hstill ⊢
    cases hturn with
    | idle hidle => exact .inl hidle
    | carried hme hcarried =>
      exact (h.slots i hme).imp hcarried.idle (fun hs => ⟨hs.1, hs.2.carried hcarried⟩)
    | dialed hyes halloc _ _ _ => exact absurd halloc (hdials i hyes)
    | @heard env seg srcIp dstIp hseg hlive _ hme =>
      obtain ⟨hslot, hs⟩ := hside hme hlive
      rcases hs.heard env i srcIp dstIp hseg with ⟨hsyn, hest, -⟩ | ⟨hconn, -⟩
      · exact absurd hest (hstill hme hsyn)
      · exact hconn.imp_right (fun hs' => ⟨hslot, hs'⟩)
    | opened hseg hsyn hack _ _ _ => exact (hseg.not_open hsyn hack).elim
  · intro dst bytes s hsent hread haddr
    cases outputs_said h.ports hmeets hsent hread haddr with
    | @reply env seg srcIp dstIp dst i bytes hseg hlive hme hstep hreply hread =>
      rcases (hside hme hlive).2.heard env i srcIp dstIp hseg with ⟨hsyn, hest, -⟩ | ⟨-, hout⟩
      · rw [← hstep] at hest
        exact absurd hest (hdone i hme hsyn)
      · exact hout _ _ _ hreply hread
    | synAck hseg hsyn hack _ _ => exact (hseg.not_open hsyn hack).elim
    | reset hbare hrst hsyn => exact ⟨hbare, .inl ⟨hrst, hsyn⟩⟩
    | syn hyes halloc _ _ _ _ => exact absurd halloc (hdials _ hyes)
    | again hme hkept hread => exact h.kept hme hkept hread

/-- **One call of host `a`**: it draws `x` and fixes `r` at most once. -/
theorem HostA.step
    (hdials : Dials e me → slot = none) :
    ∃ x' r', Grows x x' ∧ Grows r r' ∧ HostA me ((dialedSlot me t e).or slot) x' r' (step t e) ∧
      SaysA me x' r' t e := by
  by_cases hdial : Dials e me
  · obtain rfl := hdials hdial
    rw [dialedSlot_of_dials hdial]
    obtain ⟨rfl, rfl⟩ := h.undialed rfl
    cases halloc : connAlloc t with
    | some k =>
      obtain ⟨hhost, hsays⟩ := h.dial hmeets halloc
      exact ⟨_, _, fun _ hy => (by cases hy), .refl _, hhost, hsays⟩
    | none =>
      obtain ⟨hhost, hsays⟩ := h.quiet hmeets (fun k _ => by simp [halloc])
        (fun i hme hsyn => by
          have hidle := (h.slots i hme).resolve_right (fun hs => by cases hs.1)
          exact absurd (live_of_synSent hsyn) hidle.1)
      exact ⟨_, _, .refl _, .refl _, hhost, hsays⟩
  · rw [dialedSlot_of_not hdial, none_or]
    by_cases hdone : ∃ i, ident (t.conns i) = me ∧ (t.conns i).state = .synSent ∧
        ((Tcp.step t e).conns i).state = .established
    · obtain ⟨i, hme, hsyn, hest⟩ := hdone
      obtain ⟨rfl, hhost, hsays⟩ := h.complete hmeets hdial hme hsyn hest
      exact ⟨_, _, .refl _, fun _ hy => (by cases hy), hhost, hsays⟩
    · obtain ⟨hhost, hsays⟩ := h.quiet hmeets (fun _ hyes => absurd hyes hdial)
        (fun i hme hsyn hest => hdone ⟨i, hme, hsyn, hest⟩)
      exact ⟨_, _, .refl _, .refl _, hhost, hsays⟩

end

end Hosts

/-! ## The network -/

/-- The connection dialed: host `a` at `aIp` connects from `aPort` to `bPort` of
host `b` at `bIp`. -/
structure Dial where
  aIp : U32
  aPort : U16
  bIp : U32
  bPort : U16

/-- The connection as `a` identifies it. -/
def Dial.atA (d : Dial) : U16 × U32 × U16 := (d.aPort, d.bIp, d.bPort)

/-- The connection as `b` identifies it. -/
def Dial.atB (d : Dial) : U16 × U32 × U16 := (d.bPort, d.aIp, d.aPort)

/-- Both tables, every segment either host ever sent with its destination, and
the slot that `a` dialed from. -/
structure World where
  a : Table
  b : Table
  fromA : List (U32 × List U8)
  fromB : List (U32 × List U8)
  dialed : Option ConnIdx

def World.boot : World := ⟨initTable, initTable, [], [], none⟩

/-- What goes to the network. -/
def datagrams (out : List Output) : List (U32 × List U8) := out.filterMap (fun o => match o with
    | .ipv4Send dst bytes => some (dst, bytes)
    | _ => none)

theorem mem_datagrams {out : List Output} {dst : U32} {bytes : List U8} :
    (dst, bytes) ∈ datagrams out ↔ .ipv4Send dst bytes ∈ out := by
  unfold datagrams
  rw [mem_filterMap]
  constructor
  · intro h
    obtain ⟨o, ho, heq⟩ := h
    split at heq
    · cases heq
      exact ho
    · cases heq
  · intro h
    exact ⟨_, h, rfl⟩

def World.callA (d : Dial) (w : World) (e : Event) : World :=
  { w with
    a := step w.a e
    fromA := w.fromA ++ datagrams (outputs w.a e)
    dialed := (dialedSlot d.atA w.a e).or w.dialed }

def World.callB (w : World) (e : Event) : World :=
  { w with
    b := step w.b e
    fromB := w.fromB ++ datagrams (outputs w.b e) }

/-- The call by which host `dst` takes a segment from the network; `ipv4_rx`
drops what is for somebody else. -/
def arrival (env : Env) (src dst : U32) (sent : U32 × List U8) : Option Event :=
  if h : sent.1 = dst ∧ sent.2.length < 65536 then some ⟨env, .rx ⟨sent.2, h.2⟩ src dst⟩
  else none

/-- A call at one of the hosts, or the delivery of the `k`-th segment the other
one has sent; nothing says that it is delivered once, in order or at all. -/
inductive Move
  | a (e : Event)
  | b (e : Event)
  | toA (env : Env) (k : Nat)
  | toB (env : Env) (k : Nat)

def World.step (d : Dial) (w : World) : Move → World
  | .a e => w.callA d e
  | .b e => w.callB e
  | .toA env k =>
    match w.fromB[k]?.bind (arrival env d.bIp d.aIp) with
    | some e => w.callA d e
    | none => w
  | .toB env k =>
    match w.fromA[k]?.bind (arrival env d.aIp d.bIp) with
    | some e => w.callB e
    | none => w

/-- The call is not a segment from the peer (these come from the network), and
sends neither data nor a FIN on connection `me`. -/
def Abstains (t : Table) (me : U16 × U32 × U16) (e : Event) : Prop :=
  match e.call with
  | .rx _ srcIp _ => srcIp ≠ me.2.1
  | .send id _ => ∀ i, connIdx id = some i → ident (t.conns i) = me → outputs t e = []
  | .close id => ∀ i, connIdx id = some i → ident (t.conns i) = me → outputs t e = []
  | _ => True

/-- `a` dials once, `b` does not dial back, and neither sends data or a FIN on
the connection. -/
def Allowed (d : Dial) (w : World) : Move → Prop
  | .a e => Abstains w.a d.atA e ∧ (Dials e d.atA → w.dialed = none)
  | .b e => Abstains w.b d.atB e ∧ ¬ Dials e d.atB
  | .toA _ _ => True
  | .toB _ _ => True

instance (e : Event) (me : U16 × U32 × U16) : Decidable (Dials e me) := by
  unfold Dials
  split <;> infer_instance

instance (t : Table) (me : U16 × U32 × U16) (e : Event) : Decidable (Abstains t me e) := by
  unfold Abstains
  split <;> infer_instance

instance (d : Dial) (w : World) (m : Move) : Decidable (Allowed d w m) := by
  unfold Allowed
  split <;> infer_instance

theorem Abstains.meets {t : Table} {me : U16 × U32 × U16} {e : Event} (h : Abstains t me e)
    (P : Segment → Prop) : Meets t me P e := by
  obtain ⟨env, call⟩ := e
  cases call with
  | rx payload srcIp dstIp =>
    intro seg _ haddr
    have hpeer : srcIp ≠ me.2.1 := h
    exact absurd (congrArg (fun id => id.2.1) haddr) hpeer
  | send _ _ => exact h
  | close _ => exact h
  | connect _ _ _ _ _ => trivial
  | listen _ _ _ => trivial
  | tick => trivial
  | accept _ => trivial
  | read _ _ => trivial

theorem arrival_meets {t : Table} {env : Env} {src dst : U32} {port peerPort : U16}
    {sent : U32 × List U8} {e : Event} {P : Segment → Prop} (h : arrival env src dst sent = some e)
    (hsent : ∀ s, readSegment sent.2 = some s →
      (s.srcPort, sent.1, s.dstPort) = (peerPort, dst, port) → P s) :
    Meets t (port, src, peerPort) P e ∧ ∀ me, ¬ Dials e me := by
  unfold arrival at h
  split at h
  · rename_i hto
    cases h
    refine ⟨fun seg hparse haddr => hsent seg ?_ ?_, fun _ hno => hno⟩
    · rw [readSegment, dif_pos hto.2]
      exact hparse
    · simp only [addressee, Prod.mk.injEq] at haddr
      rw [hto.1, haddr.1, haddr.2.2]
  · cases h

/-- What holds of the whole network: `x` is the sequence number of the SYN, `r`
the number `a` acknowledges. -/
structure Exchange (d : Dial) (x r : Option U32) (w : World) : Prop where
  hostA : HostA d.atA w.dialed x r w.a
  hostB : HostB d.atB x r w.b
  sentA : ∀ dst bytes s, (dst, bytes) ∈ w.fromA → readSegment bytes = some s →
    (s.srcPort, dst, s.dstPort) = d.atA → FromA x r s
  sentB : ∀ dst bytes s, (dst, bytes) ∈ w.fromB → readSegment bytes = some s →
    (s.srcPort, dst, s.dstPort) = d.atB → FromB s

section Exchange

variable {d : Dial} {x r : Option U32} {w : World}

theorem Exchange.callA (h : Exchange d x r w) {e : Event} (hmeets : Meets w.a d.atA FromB e)
    (hdials : Dials e d.atA → w.dialed = none) : ∃ x' r', Exchange d x' r' (w.callA d e) := by
  obtain ⟨x', r', hx, hr, hhost, hsays⟩ := h.hostA.step hmeets hdials
  refine ⟨x', r', hhost, ⟨fun j hj => ?_, h.hostB.ports⟩, ?_, h.sentB⟩
  · exact (h.hostB.slots j hj).imp_right (fun hside => hside.grows hx hr)
  · intro dst bytes s hmem hread haddr
    rcases mem_append.mp hmem with hold | hnew
    · exact (h.sentA dst bytes s hold hread haddr).grows hx hr
    · exact hsays dst bytes s (mem_datagrams.mp hnew) hread haddr

theorem Exchange.callB (h : Exchange d x r w) {e : Event}
    (hmeets : Meets w.b d.atB (FromA x r) e) (hdials : ¬ Dials e d.atB) :
    Exchange d x r (w.callB e) := by
  refine ⟨h.hostA, h.hostB.step hmeets hdials, h.sentA, ?_⟩
  intro dst bytes s hmem hread haddr
  rcases mem_append.mp hmem with hold | hnew
  · exact h.sentB dst bytes s hold hread haddr
  · exact h.hostB.said hmeets hdials (mem_datagrams.mp hnew) hread haddr

/-- **Every move keeps the exchange.** -/
theorem Exchange.step (h : Exchange d x r w) {m : Move} (hm : Allowed d w m) :
    ∃ x' r', Exchange d x' r' (w.step d m) := by
  cases m with
  | a e => exact h.callA (hm.1.meets FromB) hm.2
  | b e => exact ⟨x, r, h.callB (hm.1.meets (FromA x r)) hm.2⟩
  | toA env k =>
    simp only [World.step]
    cases hfind : w.fromB[k]?.bind (arrival env d.bIp d.aIp) with
    | none => exact ⟨x, r, h⟩
    | some e =>
      obtain ⟨sent, hsent, harrival⟩ := bind_eq_some_iff.mp hfind
      obtain ⟨hmeets, hdials⟩ := arrival_meets (t := w.a) harrival
        (fun s hread haddr => h.sentB sent.1 sent.2 s (mem_of_getElem? hsent) hread haddr)
      exact h.callA hmeets (fun hyes => absurd hyes (hdials _))
  | toB env k =>
    simp only [World.step]
    cases hfind : w.fromA[k]?.bind (arrival env d.aIp d.bIp) with
    | none => exact ⟨x, r, h⟩
    | some e =>
      obtain ⟨sent, hsent, harrival⟩ := bind_eq_some_iff.mp hfind
      obtain ⟨hmeets, hdials⟩ := arrival_meets (t := w.b) harrival
        (fun s hread haddr => h.sentA sent.1 sent.2 s (mem_of_getElem? hsent) hread haddr)
      exact ⟨x, r, h.callB hmeets (hdials _)⟩

end Exchange

theorem exchange_boot (d : Dial) : Exchange d none none World.boot where
  hostA := ⟨fun _ _ => .inl ⟨fun h => h.1 rfl, rfl⟩, fun _ => ownPorts_of_none rfl,
    fun _ => ⟨rfl, rfl⟩⟩
  hostB := ⟨fun _ _ => .inl ⟨fun h => h.1 rfl, rfl⟩, fun _ => ownPorts_of_none rfl⟩
  sentA := fun _ _ _ h => by cases h
  sentB := fun _ _ _ h => by cases h

/-- **Handshake agreement.**  Whenever both sides of the dialed connection are
established, each expects next what the other sends next. -/
theorem handshake_agreement (d : Dial) (ms : List Move)
    (hms : StepsMeet (World.step d) (Allowed d) World.boot ms) (i j : ConnIdx) :
    let w := run (World.step d) World.boot ms
    ident (w.a.conns i) = d.atA → (w.a.conns i).state = .established →
      ident (w.b.conns j) = d.atB → (w.b.conns j).state = .established →
      (w.a.conns i).sndNxt = (w.b.conns j).rcvNxt ∧
        (w.b.conns j).sndNxt = (w.a.conns i).rcvNxt := by
  intro w hidentA hestA hidentB hestB
  obtain ⟨x, r, h⟩ := run_invariant (fun w => ∃ x r, Exchange d x r w)
    (fun w m hw hm => by
      obtain ⟨x, r, hw⟩ := hw
      exact hw.step hm) ⟨none, none, exchange_boot d⟩ hms
  obtain ⟨-, hsideA⟩ := (h.hostA.slots i hidentA).resolve_left
    (fun hidle => hidle.1 (live_of_established hestA))
  have hsideB := (h.hostB.slots j hidentB).resolve_left
    (fun hidle => hidle.1 (live_of_established hestB))
  cases hsideA with
  | synSent _ hstate _ _ _ _ => exact absurd (hstate.symm.trans hestA) (by decide)
  | established y _ hx hnxt hr _ =>
    cases hsideB with
    | synRcvd _ hstate _ _ _ => exact absurd (hstate.symm.trans hestB) (by decide)
    | established y' _ hx' hnxt' hr' _ =>
      grind

/-- `7:5000` dials `9:80`; the SYN and the SYN-ACK both arrive twice. -/
def repeatedHandshake : List Move := [.b ⟨quietEnv, .listen 80 none none⟩,
   .a ⟨quietEnv, .connect 9 80 5000 none none⟩,
   .toB quietEnv 0, .toB quietEnv 0, .toA quietEnv 0, .toA quietEnv 0, .toB quietEnv 1]

theorem handshake_agreement_repeated :
    let w := run (World.step ⟨7, 5000, 9, 80⟩) World.boot repeatedHandshake
    (w.a.conns 0).state = .established ∧ (w.b.conns 1).state = .established ∧
      (w.a.conns 0).sndNxt = (w.b.conns 1).rcvNxt ∧
      (w.b.conns 1).sndNxt = (w.a.conns 0).rcvNxt :=
  ⟨by decide +kernel, by decide +kernel,
    handshake_agreement ⟨7, 5000, 9, 80⟩ repeatedHandshake (by decide +kernel) 0 1
      (by decide +kernel) (by decide +kernel) (by decide +kernel) (by decide +kernel)⟩

end Tcp
