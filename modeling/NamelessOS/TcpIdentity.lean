import NamelessOS.SocketOwnership

/-!
# Which connection a segment belongs to

A connection is identified by its local port and the peer's address and port;
`tcp_rx` gives a segment to the first slot that matches.  A passive open
happens only if no slot matches, an active open takes whatever port it is
given: `tcp_connect` does not look at the table.  Identities stay unique as
long as no active open takes one that is in use.
-/

namespace Tcp

/-- The identity of a connection. -/
def ident (c : TcpConn) : U16 × U32 × U16 := (c.localPort, c.remoteIp, c.remotePort)

/-- The slot holds a connection. -/
def Live (c : TcpConn) : Prop := c.state ≠ .closed ∧ c.state ≠ .listen

instance (c : TcpConn) : Decidable (Live c) := by
  unfold Live; infer_instance

/-- **Identities are unique.** -/
def IdentUnique (t : Table) : Prop :=
  ∀ i j, Live (t.conns i) → Live (t.conns j) → ident (t.conns i) = ident (t.conns j) → i = j

/-- No connection has the identity. -/
def Unused (t : Table) (id : U16 × U32 × U16) : Prop :=
  ∀ j, Live (t.conns j) → ident (t.conns j) ≠ id

/-- A call of `tcp_connect` asks for an identity that no connection has. -/
def DialsFresh (t : Table) (e : Event) : Prop :=
  ∀ remoteIp remotePort localPort onData onClose,
    e.call = .connect remoteIp remotePort localPort onData onClose →
      Unused t (localPort, remoteIp, remotePort)

/-! ## What keeps an identity -/

section
variable (env : Env) (id : ConnIdx) (c : TcpConn) (seg : Segment) (srcIp dstIp : U32)

@[simp] theorem ident_retxArm (data : List U8) : ident (retxArm env c data) = ident c := by
  unfold retxArm
  split <;> rfl

theorem ident_ackUpdate : ident (ackUpdate env c seg) = ident c := by
  unfold ackUpdate ackClosing ackFinWait1
  obtain ⟨una, wnd, buf, len, count, heq⟩ := ackAdvance_eq c seg
  rw [heq]
  split
  · split <;> split <;> rfl
  · rfl

theorem ident_rxAck : ident (rxAck env id c seg).conn = ident c := by
  rw [rxAck_eq]
  split
  · rfl
  · exact ident_ackUpdate env c seg

theorem ident_rxRst : ident (rxRst id c seg).1 = ident c := by
  unfold rxRst
  split <;> rfl

theorem ident_rxSynSent : ident (rxSynSent c seg srcIp dstIp).1 = ident c := by
  unfold rxSynSent
  repeat' split
  all_goals rfl

theorem ident_rxSynRcvd : ident (rxSynRcvd c seg).conn = ident c := by
  unfold rxSynRcvd
  repeat' split
  all_goals rfl

theorem ident_rxPrologue : ident (rxPrologue env id c seg srcIp dstIp).conn = ident c := by
  have hsyn := ident_rxSynRcvd c seg
  unfold rxPrologue
  generalize rxSynRcvd c seg = r at hsyn ⊢
  split
  · exact ident_rxRst id c seg
  · split
    · exact ident_rxSynSent c seg srcIp dstIp
    · cases r with
      | ret d out => exact hsyn
      | next d => exact (ident_rxAck env id d seg).trans hsyn

theorem ident_rxData : ident (rxData id c seg).1 = ident c := by
  unfold rxData
  dsimp only
  repeat' split
  all_goals rfl

theorem ident_rxFin : ident (rxFin env id c seg).1 = ident c := by
  unfold rxFin
  dsimp only
  repeat' split
  all_goals rfl

/-- A segment never moves a connection to other endpoints. -/
theorem ident_rxConn : ident (rxConn env id c seg srcIp dstIp).1 = ident c := by
  have hpro := ident_rxPrologue env id c seg srcIp dstIp
  unfold rxConn
  generalize rxPrologue env id c seg srcIp dstIp = r at hpro ⊢
  cases r with
  | ret d out => exact hpro
  | next d =>
    exact (ident_rxFin env id (rxData id d seg).1 seg).trans ((ident_rxData id d seg).trans hpro)

theorem ident_closeConn : ident (closeConn c).1 = ident c := by
  unfold closeConn
  split <;> rfl

theorem ident_tickConn : ident (tickConn env id c).1 = ident c := by
  have heffect := tickConn_effect env id c
  generalize tickConn env id c = r at heffect ⊢
  cases heffect <;> rfl

end

theorem live_closeConn {c : TcpConn} (h : Live (closeConn c).1) : Live c := by
  refine ⟨fun hc => ?_, fun hc => ?_⟩ <;> simp [Live, closeConn, hc] at h

theorem live_tickConn {env : Env} {id : ConnIdx} {c : TcpConn} (h : Live (tickConn env id c).1) :
    Live c := by
  have heffect := tickConn_effect env id c
  generalize tickConn env id c = r at heffect h
  cases heffect with
  | idle => exact h
  | expire _ => exact absurd rfl h.1
  | abort _ => exact absurd rfl h.1
  | retransmit _ _ _ => exact h

/-! ## One call -/

/-- What a call can do to the identity in a slot: keep it, give the slot up, or
open a connection with an identity nobody has. -/
inductive IdentChange (t : Table) (i : ConnIdx) (c : TcpConn) : Prop
  | kept (hident : ident c = ident (t.conns i)) (hlive : Live c → Live (t.conns i))
  | vacant (h : ¬ Live c)
  | opened (halloc : connAlloc t = some i)
      (hfresh : ∀ j, Live (t.conns j) → ident (t.conns j) ≠ ident c)

variable {t : Table}

/-- A slot that matches is found, if not this one then an earlier one. -/
theorem lookup_isSome {seg : Segment} {srcIp : U32} {is : List ConnIdx}
    {lstn : Option ConnIdx} {j : ConnIdx} (hj : j ∈ is) (hlive : Live (t.conns j))
    (hmatch : Matches (t.conns j) seg srcIp) : (lookup t seg srcIp is lstn).1 ≠ none := by
  induction is generalizing lstn with
  | nil => exact absurd hj List.not_mem_nil
  | cons i is ih =>
    rw [lookup]
    have hrest : j ≠ i → ∀ lstn', (lookup t seg srcIp is lstn').1 ≠ none := fun hne _ =>
      ih ((List.mem_cons.mp hj).resolve_left hne)
    split
    · rename_i hclosed
      exact hrest (fun heq => hlive.1 (heq ▸ hclosed)) _
    · split
      · rename_i hlisten
        exact hrest (fun heq => hlive.2 (heq ▸ hlisten.1)) _
      · split
        · exact Option.some_ne_none _
        · rename_i hother
          exact hrest (fun heq => hother (heq ▸ hmatch)) _

/-- **What every call does to identities.** -/
theorem step_identChange (t : Table) (e : Event) (hfresh : DialsFresh t e) (i : ConnIdx) :
    IdentChange t i ((step t e).conns i) := by
  have hchange := step_slotChange t e i
  generalize (step t e).conns i = c at hchange ⊢
  cases hchange with
  | same _ => exact .kept rfl id
  | segment hparse hlookup =>
    obtain ⟨hopen, hnotListen, -⟩ := lookup_matched hlookup
    exact .kept (ident_rxConn ..) (fun _ => ⟨hopen, hnotListen⟩)
  | @passive env payload srcIp dstIp seg l hparse hopens hlstn hlisten =>
    refine .opened hopens.2.2.2.2 (fun j hj heq => ?_)
    rw [ident_retxArm] at heq
    obtain ⟨hport, hip, hpeer⟩ : (t.conns j).localPort = seg.dstPort ∧
        (t.conns j).remoteIp = srcIp ∧ (t.conns j).remotePort = seg.srcPort := by
      simpa [ident, synRcvdConn] using heq
    exact lookup_isSome (List.mem_finRange j) hj ⟨hport, hpeer, hip⟩ hopens.1
  | listen _ => exact .vacant (fun h => h.2 rfl)
  | connect halloc =>
    refine .opened halloc ?_
    rw [ident_retxArm]
    exact hfresh _ _ _ _ _ rfl
  | send hsends =>
    refine .kept (ident_retxArm ..) (fun h => ?_)
    unfold Live at h ⊢
    rwa [retxArm_state] at h
  | close _ => exact .kept (ident_closeConn _) live_closeConn
  | tick => exact .kept (ident_tickConn ..) live_tickConn
  | accept _ _ => exact .kept rfl id
  | read _ => exact .kept rfl id

theorem IdentUnique.step (h : IdentUnique t) {e : Event}
    (hfresh : DialsFresh t e) : IdentUnique (step t e) := by
  intro i j hi hj heq
  have hci := step_identChange t e hfresh i
  have hcj := step_identChange t e hfresh j
  generalize (Tcp.step t e).conns i = c at hci hi heq
  generalize (Tcp.step t e).conns j = d at hcj hj heq
  cases hci with
  | vacant hno => exact absurd hi hno
  | kept hident hlive =>
    cases hcj with
    | vacant hno => exact absurd hj hno
    | kept hident' hlive' => exact h i j (hlive hi) (hlive' hj) (by rw [← hident, ← hident', heq])
    | opened _ hnew => exact absurd (hident.symm.trans heq) (hnew i (hlive hi))
  | opened halloc hnew =>
    cases hcj with
    | vacant hno => exact absurd hj hno
    | kept hident' hlive' => exact absurd (hident'.symm.trans heq.symm) (hnew j (hlive' hj))
    | opened halloc' _ => exact Option.some.inj (halloc.symm.trans halloc')

end Tcp

namespace Socket

open Tcp

/-! ## Runs -/

/-- A way into the network: a system call, a packet or a tick at the socket
layer, or a call of `tcp.h` by the kernel itself. -/
inductive Entry
  | socket (e : NetEvent)
  | tcp (e : Event)

def Entry.step (n : Net) : Entry → Net
  | .socket e => netStep n e
  | .tcp e => n.tcpDone (Tcp.step n.tcp e) (outputs n.tcp e)

/-- An active open asks for an identity that no connection has: `sys_connect` on
a stream socket without a connection, or `tcp_connect`. -/
def Entry.DialsFresh (n : Net) : Entry → Prop
  | .socket e => ∀ fd sa i, e.call = .connect fd sa → fdToIdx fd = some i →
      (n.socks i).type = .tcp → (n.socks i).connId = none →
        Unused n.tcp (dialed (n.socks i) fd sa)
  | .tcp e => Tcp.DialsFresh n.tcp e

end Socket
