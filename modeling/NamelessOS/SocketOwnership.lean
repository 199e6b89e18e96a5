import NamelessOS.SocketTable
import NamelessOS.TcpCloseCallback

/-!
# Who holds a connection

A connection is meant to have one socket.  `tcp_accept` is documented to skip
connections that are already claimed, but it only writes the claim marker; and
`sys_listen`, unlike `sys_connect`, does not ask whether its socket is
connected.  `AcceptsUnheld` is the condition under which neither matters, and
`connections_held_once` shows that every run of system calls, packets and
ticks that meets it keeps connections and sockets paired.

The connections handed out so far are ghost state (`Tracked`).
-/

namespace Socket

open Tcp List
open Function (update update_of_ne update_self)

/-- The in-use TCP socket `a` holds connection `k`. -/
def Holds (socks : SockIdx → Sock) (a : SockIdx) (k : ConnIdx) : Prop :=
  (socks a).type = .tcp ∧ (socks a).connId = some k

instance (socks : SockIdx → Sock) (a : SockIdx) (k : ConnIdx) : Decidable (Holds socks a k) := by
  unfold Holds; infer_instance

/-- No connection has two sockets. -/
def NoSharing (socks : SockIdx → Sock) : Prop := ∀ a b k, Holds socks a k → Holds socks b k → a = b

/-- The connection a call returns to its caller as a new one. -/
def returned (n : Net) (e : NetEvent) : Option ConnIdx :=
  match e.call with
  | .accept fd => (sysAccept n fd).2.2.map Prod.fst
  | .connect fd sa => (sysConnect e.env n fd sa).2.2
  | _ => none

/-- The network and the connections that have been returned and have not been
closed since. -/
structure Tracked where
  net : Net
  handed : ConnIdx → Prop

/-- One call. -/
def Tracked.step (s : Tracked) (e : NetEvent) : Tracked where
  net := netStep s.net e
  handed := fun k => ((netStep s.net e).tcp.conns k).state ≠ .closed ∧
    (s.handed k ∨ returned s.net e = some k)

def Tracked.boot (udp : List (U16 × UdpHandler)) : Tracked := ⟨initNet udp, fun _ => False⟩

/-- Slot `k` is one `tcp_accept` may return for the port. -/
def Acceptable (t : Table) (port : U16) (k : ConnIdx) : Prop :=
  (t.conns k).state = .established ∧ (t.conns k).localPort = port ∧ (t.conns k).remotePort ≠ 0

instance (t : Table) (port : U16) (k : ConnIdx) : Decidable (Acceptable t port k) := by
  unfold Acceptable; infer_instance

/-- The condition on each call.  At an accept that has a socket to give, the
first acceptable connection of the port has no socket yet; and a socket that
is made to listen on a free slot holds no connection, or an idle listener. -/
def AcceptsUnheld (n : Net) (e : NetEvent) : Prop :=
  match e.call with
  | .accept fd => ∀ i, fdToIdx fd = some i → (n.socks i).type = .tcp →
      (∃ j, (n.socks j).type = .free) → ∀ k, Acceptable n.tcp (n.socks i).boundPort k →
          (∀ j < k, ¬ Acceptable n.tcp (n.socks i).boundPort j) → ∀ a, ¬ Holds n.socks a k
  | .listen fd => ∀ i, fdToIdx fd = some i → (connAlloc n.tcp).isSome = true →
      ∀ k, Holds n.socks i k → (n.tcp.conns k).state = .listen
  | _ => True

/-! ## Closing sockets -/

variable {socks : SockIdx → Sock}

theorem holds_tcpSockClose (h : NoSharing socks) (id : ConnIdx) (a : SockIdx) (k : ConnIdx) :
    Holds (tcpSockClose socks id) a k ↔ Holds socks a k ∧ k ≠ id := by
  unfold tcpSockClose
  split
  · rename_i hnone
    rw [List.find?_eq_none] at hnone
    constructor
    · intro hold
      refine ⟨hold, ?_⟩
      rintro rfl
      exact hnone a (mem_finRange a) (decide_eq_true hold)
    · exact fun hold => hold.1
  · rename_i i hfound
    have hi : Holds socks i id := by simpa [Holds] using List.find?_some hfound
    by_cases ha : a = i
    · subst ha
      constructor
      · intro hold
        simp [Holds] at hold
      · rintro ⟨hold, hne⟩
        exact absurd (Option.some.inj (hold.2.symm.trans hi.2)) hne
    · have hsame : update socks i { socks i with connId := none } a = socks a := update_of_ne ha _ _
      constructor
      · intro hold
        rw [Holds, hsame] at hold
        refine ⟨hold, ?_⟩
        rintro rfl
        exact ha (h a i _ hold hi)
      · rintro ⟨hold, -⟩
        rw [Holds, hsame]
        exact hold

theorem noSharing_tcpSockClose (h : NoSharing socks)
    (id : ConnIdx) : NoSharing (tcpSockClose socks id) := by
  intro a b k ha hb
  rw [holds_tcpSockClose h] at ha hb
  exact h a b k ha.1 hb.1

/-- After the callbacks of a TCP step, a socket holds what it held before,
less the connections reported closed. -/
theorem holds_closeSockets (h : NoSharing socks) (out : List Output) (a : SockIdx) (k : ConnIdx) :
    Holds (closeSockets out socks) a k ↔ Holds socks a k ∧ .onClose .tcpSockClose k ∉ out := by
  induction out generalizing socks with
  | nil => simp [closeSockets]
  | cons o out ih =>
    cases o with
    | onClose cb id =>
      cases cb
      rw [closeSockets, ih (noSharing_tcpSockClose h id), holds_tcpSockClose h]
      simp only [mem_cons, Output.onClose.injEq, true_and, not_or, and_assoc]
    | onData cb id data => simp [closeSockets, ih h]
    | ipv4Send dstIp seg => simp [closeSockets, ih h]

/-! ## The invariant -/

/-- A connection on its way up or open. -/
def Dialled (s : TcpState) : Prop := s = .synSent ∨ s = .established

/-- Sockets and connections are paired: each held slot has one socket and is
listening, dialling or open; every open slot reports its close to the socket
layer; and a connection that was handed out is held until it winds down. -/
structure Paired (t : Table) (socks : SockIdx → Sock) (handed : ConnIdx → Prop) :
    Prop where
  noSharing : NoSharing socks
  holdable : ∀ a k, Holds socks a k → Holdable (t.conns k).state
  reports : ReportsTo .tcpSockClose t
  handed : ∀ k, handed k → WindingDown (t.conns k).state ∨
    (Dialled (t.conns k).state ∧ ∃ a, Holds socks a k)

theorem Dialled.holdable {s : TcpState} (h : Dialled s) : Holdable s := .inr h

variable {t : Table} {handed : ConnIdx → Prop} {k : ConnIdx}

/-- A closed slot is neither held nor handed out. -/
theorem Paired.closed_free
    (h : Paired t socks handed) (hclosed : (t.conns k).state = .closed) :
    (∀ a, ¬ Holds socks a k) ∧ ¬ handed k := by
  refine ⟨fun a ha => (h.holdable a k ha).ne_closed hclosed, ?_⟩
  intro hk
  rcases h.handed k hk with hdown | ⟨hdialled, -⟩
  · simp [hclosed, WindingDown] at hdown
  · exact hdialled.holdable.ne_closed hclosed

/-- A TCP step other than a close, with its callbacks. -/
theorem Paired.tcpStep
    (h : Paired t socks handed) {e : Event} (hcb : Installs .tcpSockClose e)
    (hnotClose : ∀ id, e.call ≠ .close id) :
    Paired (Tcp.step t e) (closeSockets (outputs t e) socks)
      (fun k => ((Tcp.step t e).conns k).state ≠ .closed ∧ handed k) where
  noSharing := by
    intro a b k ha hb
    rw [holds_closeSockets h.noSharing] at ha hb
    exact h.noSharing a b k ha.1 hb.1
  holdable := by
    intro a k ha
    rw [holds_closeSockets h.noSharing] at ha
    have hstate := h.holdable a k ha.1
    rcases step_leaves_holdable hstate (h.reports k hstate.ne_closed)
        (fun id hid => absurd hid (hnotClose id)) with hs | ⟨-, hs⟩ | hcall
    · rw [hs]
      exact hstate
    · exact .inr (.inr hs)
    · exact absurd hcall ha.2
  reports := step_reportsTo h.reports hcb
  handed := by
    rintro k ⟨hopen, hk⟩
    rcases h.handed k hk with hdown | ⟨hdialled, a, ha⟩
    · rcases step_winding_down e hdown with hd | hd
      · exact .inl hd
      · exact absurd hd hopen
    · by_cases hcall : .onClose .tcpSockClose k ∈ outputs t e
      · rcases step_onClose_state hcall with hs | hs
        · exact absurd hs hopen
        · left
          simp [hs, WindingDown]
      · right
        refine ⟨?_, a, (holds_closeSockets h.noSharing _ a k).mpr ⟨ha, hcall⟩⟩
        rcases step_leaves_holdable hdialled.holdable
            (h.reports k hdialled.holdable.ne_closed)
            (fun id hid => absurd hid (hnotClose id)) with hs | ⟨-, hs⟩ | hbad
        · rw [hs]
          exact hdialled
        · exact .inr hs
        · exact absurd hbad hcall

variable {i : SockIdx}

section

variable (h : Paired t socks handed)
include h

variable {handed' : ConnIdx → Prop}

/-- A socket takes a slot that nobody holds; at most it drops a listener. -/
theorem Paired.give {s : Sock} (hs : s.type = .tcp ∧ s.connId = some k)
    (hold : ∀ j, Holds socks i j → (t.conns j).state = .listen)
    (hfree : ∀ a, ¬ Holds socks a k) (hstate : Holdable (t.conns k).state) (hhanded : ∀ j, handed' j → handed j ∨
      (j = k ∧ Dialled (t.conns k).state)) : Paired t (update socks i s) handed' := by
  have hi : Holds (update socks i s) i k := by
    rw [Holds, update_self]
    exact hs
  have hother : ∀ {a j}, a ≠ i → (Holds (update socks i s) a j ↔ Holds socks a j) := by
    intro a j ha
    rw [Holds, update_of_ne ha, Holds]
  have honly : ∀ {j}, Holds (update socks i s) i j → j = k := by
    intro j hj
    exact Option.some.inj (hj.2.symm.trans hi.2)
  refine ⟨?_, ?_, h.reports, ?_⟩
  · intro a b j ha hb
    by_cases hai : a = i
    · by_cases hbi : b = i
      · exact hai.trans hbi.symm
      · subst hai
        rw [honly ha, hother hbi] at hb
        exact absurd hb (hfree b)
    · by_cases hbi : b = i
      · subst hbi
        rw [honly hb, hother hai] at ha
        exact absurd ha (hfree a)
      · rw [hother hai] at ha
        rw [hother hbi] at hb
        exact h.noSharing a b j ha hb
  · intro a j ha
    grind [holdable]
  · intro j hj
    rcases hhanded j hj with hj | ⟨rfl, hdialled⟩
    · rcases h.handed j hj with hdown | ⟨hdialled, a, ha⟩
      · exact .inl hdown
      · right
        refine ⟨hdialled, a, ?_⟩
        -- the holder of a dialled connection is not the socket that moves
        have hai : a ≠ i := by
          rintro rfl
          rw [hold j ha] at hdialled
          simp [Dialled] at hdialled
        exact (hother hai).mpr ha
    · exact .inr ⟨hdialled, i, hi⟩

/-- Sockets may change in every respect but the connections they hold. -/
theorem Paired.of_holds {socks' : SockIdx → Sock}
    (hsame : ∀ a k, Holds socks' a k ↔ Holds socks a k) : Paired t socks' handed where
  noSharing := by
    intro a b k ha hb
    exact h.noSharing a b k ((hsame a k).mp ha) ((hsame b k).mp hb)
  holdable := fun a k ha => h.holdable a k ((hsame a k).mp ha)
  reports := h.reports
  handed := by
    intro k hk
    rcases h.handed k hk with hdown | ⟨hdialled, a, ha⟩
    · exact .inl hdown
    · exact .inr ⟨hdialled, a, (hsame a k).mpr ha⟩

theorem Paired.mono (hle : ∀ k, handed' k → handed k) : Paired t socks handed' where
  __ := h
  handed := fun k hk => h.handed k (hle k hk)

end

/-- A socket is freed without holding anything. -/
theorem holds_update_none {s : Sock}
    (hs : s.connId = none) (hi : ∀ k, ¬ Holds socks i k) (a : SockIdx) (k : ConnIdx) :
    Holds (update socks i s) a k ↔ Holds socks a k := by
  by_cases ha : a = i
  · subst ha
    simp only [Holds, update_self, hs, reduceCtorEq, and_false, false_iff]
    exact hi k
  · rw [Holds, update_of_ne ha, Holds]

/-- Changes that keep type and connection change nothing here. -/
theorem holds_update_same {s : Sock}
    (htype : s.type = (socks i).type) (hconn : s.connId = (socks i).connId)
    (a : SockIdx) (k : ConnIdx) : Holds (update socks i s) a k ↔ Holds socks a k := by
  by_cases ha : a = i
  · subst ha
    simp only [Holds, update_self, htype, hconn]
  · rw [Holds, update_of_ne ha, Holds]

theorem step_close_conns (t : Table) (env : Env) (k : ConnIdx) :
    (Tcp.step t ⟨env, .close k.val⟩).conns = update t.conns k (closeConn (t.conns k)).1 := by
  simp [Tcp.step, tcpClose, Table.set]

/-- The holder of a connection closes it and is freed. -/
theorem Paired.release
    (h : Paired t socks handed) (hi : Holds socks i k)
    {s : Sock} (hs : s.connId = none) (env : Env) :
    Paired (Tcp.step t ⟨env, .close k.val⟩) (update socks i s)
      (fun j => ((Tcp.step t ⟨env, .close k.val⟩).conns j).state ≠ .closed ∧ handed j) := by
  have hconns := step_close_conns t env k
  have hsame : ∀ {j}, j ≠ k → (Tcp.step t ⟨env, .close k.val⟩).conns j = t.conns j := by
    intro j hj
    rw [hconns, update_of_ne hj]
  have hholds : ∀ {a j}, Holds (update socks i s) a j → Holds socks a j ∧ a ≠ i := by
    intro a j ha
    by_cases hai : a = i
    · subst hai
      simp [Holds, hs] at ha
    · rw [Holds, update_of_ne hai] at ha
      exact ⟨ha, hai⟩
  refine ⟨?_, ?_, step_reportsTo h.reports trivial, ?_⟩
  · intro a b j ha hb
    exact h.noSharing a b j (hholds ha).1 (hholds hb).1
  · intro a j ha
    obtain ⟨hold, hai⟩ := hholds ha
    have hjk : j ≠ k := by
      rintro rfl
      exact hai (h.noSharing a i j hold hi)
    rw [hsame hjk]
    exact h.holdable a j hold
  · rintro j ⟨hopen, hj⟩
    by_cases hjk : j = k
    · subst hjk
      left
      rw [hconns, update_self] at hopen ⊢
      rcases h.holdable i j hi with hst | hst | hst
      · simp [closeConn, hst] at hopen
      · simp [closeConn, hst] at hopen
      · simp [closeConn, hst, WindingDown]
    grind [handed, Holds]

/-! ## What a call can do -/

theorem allocSock_free
    (h : allocSock socks = some i) : (socks i).type = .free := by
  simpa using List.find?_some h

theorem not_holds_of_type
    (h : (socks i).type ≠ .tcp) (k : ConnIdx) : ¬ Holds socks i k :=
  fun hold => h hold.1

theorem not_holds_of_none
    (h : (socks i).connId = none) (k : ConnIdx) : ¬ Holds socks i k := by
  rintro ⟨-, hk⟩
  rw [h] at hk
  cases hk

/-- `tcp_accept` returns the first acceptable slot. -/
theorem tcpAccept_first {t' : Table} {port : U16} (h : tcpAccept t port = (t', some k)) :
    Acceptable t port k ∧ ∀ j < k, ¬ Acceptable t port j := by
  simp only [tcpAccept] at h
  split at h
  · cases h
  · rename_i i hfind
    cases h
    rw [List.find?_eq_some_iff_append] at hfind
    obtain ⟨hk, before, after, hlist, hbefore⟩ := hfind
    refine ⟨by simpa [Acceptable] using hk, fun j hj hacc => ?_⟩
    -- the slots before k in the scan are exactly the smaller ones
    have hsorted := pairwise_lt_finRange tcpMaxConn
    have hmem : j ∈ before := by
      have hall := mem_finRange j
      grind [rel_of_pairwise_cons]
    have hno := hbefore j hmem
    simp only [Bool.not_eq_true', decide_eq_false_iff_not] at hno
    exact hno hacc

/-- Only the callbacks among the outputs touch the sockets. -/
theorem closeSockets_closeCalls (out : List Output) (socks : SockIdx → Sock) :
    closeSockets (closeCalls out) socks = closeSockets out socks := by
  induction out generalizing socks with
  | nil => rfl
  | cons o out ih =>
    cases o with
    | onClose cb id =>
      cases cb
      exact ih (tcpSockClose socks id)
    | onData cb id data => exact ih socks
    | ipv4Send dstIp seg => exact ih socks

theorem closeSockets_quiet {out : List Output} (h : closeCalls out = [])
    (socks : SockIdx → Sock) : closeSockets out socks = socks := by
  rw [← closeSockets_closeCalls, h, closeSockets]

theorem closeConn_quiet (c : TcpConn) : closeCalls (closeConn c).2 = [] := by
  unfold closeConn
  split <;> rfl

/-- Every way in which one call can change the network, with the connection
it returns: nothing that matters here, a step of TCP with its callbacks, or
one of the four calls that pair or part a socket and a connection. -/
inductive NetChange (n : Net) (e : NetEvent) : Net → Option ConnIdx → Prop
  | quiet {n' : Net} (htcp : n'.tcp = n.tcp)
      (hholds : ∀ a k, Holds n'.socks a k ↔ Holds n.socks a k) : NetChange n e n' none
  | tcp (te : Event) (hcb : Installs .tcpSockClose te)
      (hnotClose : ∀ id, te.call ≠ .close id)
      (hnotListen : ∀ port onData onClose, te.call ≠ .listen port onData onClose)
      (hnotConnect : ∀ ip peer port onData onClose,
        te.call ≠ .connect ip peer port onData onClose)
      (hrx : ∀ payload srcIp dstIp, te.call = .rx payload srcIp dstIp →
        e.call = .segment payload srcIp dstIp) :
      NetChange n e (n.tcpDone (Tcp.step n.tcp te) (outputs n.tcp te)) none
  | listen {fd : U64} {i : SockIdx} {k : ConnIdx} (port : U16)
      (hcall : e.call = .listen fd) (hfd : fdToIdx fd = some i)
      (htype : (n.socks i).type = .tcp) (hslot : connAlloc n.tcp = some k) :
      NetChange n e
        ((n.tcpDone (Tcp.step n.tcp ⟨e.env, .listen port (some .tcpSockData)
            (some .tcpSockClose)⟩) []).setSock i
          { n.socks i with connId := some k }) none
  | connect {fd : U64} {sa : SockAddrIn} {i : SockIdx} {k : ConnIdx} (remoteIp : U32)
      (remotePort localPort : U16) (hcall : e.call = .connect fd sa) (hfd : fdToIdx fd = some i)
      (hdials : (localPort, remoteIp, remotePort) = dialed (n.socks i) fd sa)
      (htype : (n.socks i).type = .tcp) (hconn : (n.socks i).connId = none)
      (hslot : connAlloc n.tcp = some k) :
      NetChange n e
        ((n.tcpDone (Tcp.step n.tcp ⟨e.env, .connect remoteIp remotePort localPort
            (some .tcpSockData) (some .tcpSockClose)⟩) []).setSock i
          { n.socks i with connId := some k }) (some k)
  | accept {fd : U64} {i j : SockIdx} {k : ConnIdx} {s : Sock}
      (hcall : e.call = .accept fd) (hfd : fdToIdx fd = some i)
      (htype : (n.socks i).type = .tcp) (hfree : (n.socks j).type = .free)
      (hacc : Acceptable n.tcp (n.socks i).boundPort k)
      (hfirst : ∀ j < k, ¬ Acceptable n.tcp (n.socks i).boundPort j)
      (hs : s.type = .tcp ∧ s.connId = some k) :
      NetChange n e
        ((n.tcpDone (Tcp.step n.tcp ⟨e.env, .accept (n.socks i).boundPort⟩) []).setSock j s)
        (some k)
  | release {i : SockIdx} {k : ConnIdx} {s : Sock} (hi : Holds n.socks i k)
      (hs : s.connId = none) :
      NetChange n e
        ((n.tcpDone (Tcp.step n.tcp ⟨e.env, .close k.val⟩) []).setSock i s) none

variable {e : NetEvent}

theorem NetChange.same {n : Net} : NetChange n e n none :=
  .quiet rfl (fun _ _ => Iff.rfl)

section Calls

variable (n : Net) (env : Env) (udpRet : U32 → U16 → U16 → List U8 → Int)

theorem sysSocket_change (domain type : U64) :
    NetChange n ⟨env, udpRet, .socket domain type⟩ (sysSocket n domain type).1 none := by
  simp only [sysSocket]
  split
  · exact .same
  · split
    · exact .same
    · split
      · exact .same
      · rename_i i halloc
        refine .quiet rfl (holds_update_none rfl (not_holds_of_type ?_))
        rw [allocSock_free halloc]
        decide

theorem sysBind_change (fd : U64) (sa : SockAddrIn) :
    NetChange n ⟨env, udpRet, .bind fd sa⟩ (sysBind n fd sa).1 none := by
  simp only [sysBind]
  repeat' split
  all_goals first
    | exact .same
    | exact .quiet rfl (holds_update_same rfl rfl)

theorem sysListen_change (fd : U64) :
    NetChange n ⟨env, udpRet, .listen fd⟩ (sysListen env n fd).1 none := by
  simp only [sysListen]
  split
  · exact .same
  · rename_i i hfd
    split
    · exact .same
    · rename_i htype
      split
      · exact .same
      · simp only [tcpListen]
        cases hslot : connAlloc n.tcp with
        | none => exact .same
        | some k =>
          have hstep : Tcp.step n.tcp ⟨env, .listen (n.socks i).boundPort
              (some .tcpSockData) (some .tcpSockClose)⟩ = n.tcp.set k (listenConn
                (n.tcp.conns k) env.ourIp (n.socks i).boundPort (some .tcpSockData)
                (some .tcpSockClose)) := by
            simp only [Tcp.step, tcpListen, hslot]
          have hchange := NetChange.listen (n := n) (e := ⟨env, udpRet, .listen fd⟩)
            (n.socks i).boundPort rfl hfd (not_ne_iff.mp htype) hslot
          rw [hstep] at hchange
          exact hchange

theorem sysAccept_change (fd : U64) : NetChange n ⟨env, udpRet, .accept fd⟩ (sysAccept n fd).1
      ((sysAccept n fd).2.2.map Prod.fst) := by
  simp only [sysAccept]
  split
  · exact .same
  · rename_i i hfd
    split
    · exact .same
    · rename_i htype
      have hstep : Tcp.step n.tcp ⟨env, .accept (n.socks i).boundPort⟩ =
          (tcpAccept n.tcp (n.socks i).boundPort).1 := rfl
      have htcp := NetChange.tcp (n := n) (e := ⟨env, udpRet, .accept fd⟩)
        ⟨env, .accept (n.socks i).boundPort⟩ trivial (by nofun) (by nofun) (by nofun) (by nofun)
      rw [hstep] at htcp
      split
      · rename_i t hacc
        rw [hacc] at htcp
        exact htcp
      · rename_i t k hacc
        rw [hacc] at htcp hstep
        split
        · exact htcp
        · rename_i j halloc
          obtain ⟨hk, hfirst⟩ := tcpAccept_first hacc
          have hchange := NetChange.accept (n := n) (e := ⟨env, udpRet, .accept fd⟩)
            (s := { n.socks j with
              type := .tcp, connId := some k, boundPort := (n.socks i).boundPort
              rx := { (n.socks j).rx with head := 0, tail := 0 } })
            rfl hfd (not_ne_iff.mp htype) (allocSock_free halloc) hk hfirst ⟨rfl, rfl⟩
          rw [hstep] at hchange
          exact hchange

theorem sysConnect_change (fd : U64) (sa : SockAddrIn) :
    NetChange n ⟨env, udpRet, .connect fd sa⟩ (sysConnect env n fd sa).1
      (sysConnect env n fd sa).2.2 := by
  simp only [sysConnect]
  split
  · exact .same
  · rename_i i hfd
    split
    · exact .same
    · rename_i htype
      split
      · exact .same
      · rename_i hconn
        generalize hport : (if (n.socks i).boundPort ≠ 0 then (n.socks i).boundPort
          else BitVec.ofNat 16 49152 + fd.setWidth 16) = srcPort
        simp only [tcpConnect]
        cases hslot : connAlloc n.tcp with
        | none => exact .same
        | some k =>
          have hchange := NetChange.connect (n := n)
            (e := ⟨env, udpRet, .connect fd sa⟩) (ByteOrder.ntohl sa.sinAddr)
            (ByteOrder.ntohs sa.sinPort) srcPort rfl hfd (by rw [← hport]; rfl)
            (not_ne_iff.mp htype) (by simpa using hconn) hslot
          simp only [Tcp.step, tcpConnect, hslot] at hchange
          exact hchange

theorem sysSendto_change (fd : U64) (buf : Nat → U8) (len : U64) (addr : Option SockAddrIn) :
    NetChange n ⟨env, udpRet, .sendto fd buf len addr⟩
      (sysSendto env udpRet n fd buf len addr).1 none := by
  simp only [sysSendto]
  split
  · exact .same
  · rename_i i hfd
    split
    · split
      · exact .same
      · rename_i k hk
        exact .tcp ⟨env, .send k.val (userBytes buf len)⟩ trivial (by nofun) (by nofun) (by nofun) (by nofun)
    · split <;> exact .same
    · exact .same

theorem sysRecvfrom_change (fd len : U64) :
    NetChange n ⟨env, udpRet, .recvfrom fd len⟩ (sysRecvfrom n fd len).1 none := by
  simp only [sysRecvfrom]
  split
  · exact .same
  · rename_i i hfd
    split
    · split
      · exact .same
      · rename_i k hk
        exact .tcp ⟨env, .read k.val (len.setWidth 16)⟩ trivial (by nofun) (by nofun) (by nofun) (by nofun)
    · split
      · exact .same
      · exact .quiet rfl (holds_update_same rfl rfl)
    · exact .same

theorem sysShutdown_change (fd : U64) :
    NetChange n ⟨env, udpRet, .shutdown fd⟩ (sysShutdown n fd).1 none := by
  simp only [sysShutdown]
  split
  · exact .same
  · rename_i i hfd
    split
    · rename_i k htype hk
      have hquiet : closeSockets (tcpClose n.tcp k.val).2.1 n.socks = n.socks := by
        apply closeSockets_quiet
        simp only [tcpClose, connIdx_val]
        exact closeConn_quiet _
      have hchange := NetChange.release (n := n) (e := ⟨env, udpRet, .shutdown fd⟩)
        (s := { n.socks i with type := .free, connId := none }) ⟨htype, hk⟩ rfl
      simp only [Net.tcpDone, hquiet]
      exact hchange
    · rename_i hno
      refine .quiet rfl (holds_update_none rfl ?_)
      rintro k ⟨htype, hk⟩
      exact hno k htype hk

theorem udpRx_change (payload : Buffer) (srcIp : U32) :
    NetChange n ⟨env, udpRet, .datagram payload srcIp⟩ (udpRx n payload srcIp) none := by
  have hsock : ∀ data srcPort dstPort a k,
      Holds (udpSockRx n.socks data srcIp srcPort dstPort) a k ↔ Holds n.socks a k := by
    intro data srcPort dstPort a k
    unfold udpSockRx
    split
    · exact Iff.rfl
    · refine holds_update_same ?_ ?_ a k <;> rfl
  simp only [udpRx]
  split
  · exact .same
  · split
    · exact .same
    · split
      · exact .quiet rfl (hsock _ _ _)
      · exact .same

/-- **What a call can do.** -/
theorem netStep_change (call : SysCall) :
    NetChange n ⟨env, udpRet, call⟩ (netStep n ⟨env, udpRet, call⟩)
      (returned n ⟨env, udpRet, call⟩) := by
  cases call with
  | socket domain type => exact sysSocket_change n env udpRet domain type
  | bind fd sa => exact sysBind_change n env udpRet fd sa
  | listen fd => exact sysListen_change n env udpRet fd
  | accept fd => exact sysAccept_change n env udpRet fd
  | connect fd sa => exact sysConnect_change n env udpRet fd sa
  | sendto fd buf len addr => exact sysSendto_change n env udpRet fd buf len addr
  | recvfrom fd len => exact sysRecvfrom_change n env udpRet fd len
  | shutdown fd => exact sysShutdown_change n env udpRet fd
  | segment payload srcIp dstIp =>
    exact .tcp ⟨env, .rx payload srcIp dstIp⟩ trivial (by nofun) (by nofun) (by nofun)
      (by rintro _ _ _ ⟨⟩; rfl)
  | datagram payload srcIp => exact udpRx_change n env udpRet payload srcIp
  | tick => exact .tcp ⟨env, .tick⟩ trivial (by nofun) (by nofun) (by nofun) (by nofun)

end Calls

/-! ## One call and whole runs -/

theorem listen_conns (env : Env) (port : U16)
    (onData : Option DataCb) (onClose : Option CloseCb) (h : connAlloc t = some k) :
    ((Tcp.step t ⟨env, .listen port onData onClose⟩).conns k).state = .listen := by
  simp [Tcp.step, tcpListen, h, listenConn]

theorem connect_conns (env : Env) (remoteIp : U32)
    (remotePort localPort : U16) (onData : Option DataCb) (onClose : Option CloseCb)
    (h : connAlloc t = some k) :
    ((Tcp.step t ⟨env, .connect remoteIp remotePort localPort onData onClose⟩).conns
      k).state = .synSent := by
  simp [Tcp.step, tcpConnect, h, synSentConn]

theorem accept_conns (t : Table) (env : Env) (port : U16) (k : ConnIdx) :
    ((Tcp.step t ⟨env, .accept port⟩).conns k).state = (t.conns k).state := by
  simp only [Tcp.step, tcpAccept]
  split
  · rfl
  · rename_i j _
    refine Table.set_conns_cases (P := fun c => c.state = (t.conns k).state) t j k _
      (fun _ => rfl) ?_
    rintro rfl
    rfl

/-- What holds in every state of an admitted run. -/
def Tracked.Sound (s : Tracked) : Prop := Paired s.net.tcp s.net.socks s.handed

/-- An accept is only given a connection that nobody was handed before. -/
def HandsOutOnce (s : Tracked) (e : NetEvent) : Prop :=
  ∀ fd k addr, e.call = .accept fd → (sysAccept s.net fd).2.2 = some (k, addr) → ¬ s.handed k

theorem Tracked.Sound.step {s : Tracked} (h : s.Sound)
    (hok : AcceptsUnheld s.net e) : (s.step e).Sound := by
  obtain ⟨env, udpRet, call⟩ := e
  have hchange := netStep_change s.net env udpRet call
  simp only [Tracked.Sound, Tracked.step]
  generalize netStep s.net ⟨env, udpRet, call⟩ = n' at hchange ⊢
  generalize returned s.net ⟨env, udpRet, call⟩ = ret at hchange ⊢
  cases hchange with
  | quiet htcp hholds =>
    rw [htcp]
    refine (h.of_holds hholds).mono ?_
    rintro k ⟨-, hk | hk⟩
    · exact hk
    · cases hk
  | tcp te hcb hnotClose _ _ _ =>
    refine (h.tcpStep hcb hnotClose).mono ?_
    rintro k ⟨hopen, hk | hk⟩
    · exact ⟨hopen, hk⟩
    · cases hk
  | @listen fd i k port hcall hfd htype hslot =>
    obtain rfl : call = .listen fd := hcall
    have hfree := (h.closed_free (connAlloc_closed hslot)).1
    have hstep := h.tcpStep (e := ⟨env, .listen port (some .tcpSockData)
      (some .tcpSockClose)⟩) rfl (by rintro _ ⟨⟩)
    have hstate := listen_conns env port (some .tcpSockData) (some .tcpSockClose) hslot
    refine hstep.give (k := k) (s := { s.net.socks i with connId := some k })
      ⟨htype, rfl⟩ ?_ hfree (.inl hstate) ?_
    · -- the listener dropped, if any, is in another slot and stays one
      intro j hj
      have hlisten : (s.net.tcp.conns j).state = .listen :=
        hok i hfd (by rw [hslot]; rfl) j hj
      rcases step_leaves_holdable (e := ⟨env, .listen port (some .tcpSockData)
        (some .tcpSockClose)⟩) (.inl hlisten) (h.reports j (by simp [hlisten]))
        (by rintro _ ⟨⟩) with hs | ⟨hs, -⟩ | hcall
      · rw [hs, hlisten]
      · rw [hlisten] at hs
        cases hs
      · cases hcall
    · rintro j ⟨hopen, hj | hj⟩
      · exact .inl ⟨hopen, hj⟩
      · cases hj
  | @connect _ _ i k remoteIp remotePort localPort _ _ _ htype hconn hslot =>
    have hfree := (h.closed_free (connAlloc_closed hslot)).1
    have hstep := h.tcpStep (e := ⟨env, .connect remoteIp remotePort localPort
      (some .tcpSockData) (some .tcpSockClose)⟩) rfl (by rintro _ ⟨⟩)
    have hstate := connect_conns env remoteIp remotePort localPort (some .tcpSockData)
      (some .tcpSockClose) hslot
    have hquiet : closeSockets (outputs s.net.tcp ⟨env, .connect remoteIp remotePort
        localPort (some .tcpSockData) (some .tcpSockClose)⟩) s.net.socks =
        s.net.socks := by
      simp only [outputs, tcpConnect, hslot]
      rfl
    rw [hquiet] at hstep
    refine hstep.give (k := k) (s := { s.net.socks i with connId := some k })
      ⟨htype, rfl⟩ ?_ hfree (.inr (.inl hstate)) ?_
    · intro j hj
      exact absurd hj (not_holds_of_none hconn j)
    · rintro j ⟨hopen, hj | hj⟩
      · exact .inl ⟨hopen, hj⟩
      · exact .inr ⟨(Option.some.inj hj).symm, .inl hstate⟩
  | @accept fd i j k sock hcall hfd htype hfree hacc hfirst hs =>
    obtain rfl : call = .accept fd := hcall
    have hunheld := hok i hfd htype ⟨j, hfree⟩ k hacc hfirst
    have hstep := h.tcpStep (e := ⟨env, .accept (s.net.socks i).boundPort⟩) trivial
      (by rintro _ ⟨⟩)
    have hstate := (accept_conns s.net.tcp env (s.net.socks i).boundPort k).trans hacc.1
    refine hstep.give hs ?_ hunheld (.inr (.inr hstate)) ?_
    · intro l hl
      have hidle : (s.net.socks j).type ≠ .tcp := by rw [hfree]; decide
      exact absurd hl (not_holds_of_type hidle l)
    · rintro l ⟨hopen, hl | hl⟩
      · exact .inl ⟨hopen, hl⟩
      · exact .inr ⟨(Option.some.inj hl).symm, .inr hstate⟩
  | @release i k sock hi hs =>
    refine (h.release hi hs env).mono ?_
    rintro j ⟨hopen, hj | hj⟩
    · exact ⟨hopen, hj⟩
    · cases hj

/-- What an accept that succeeds has found. -/
theorem sysAccept_returns {n : Net} {fd : U64} {addr : SockAddrIn}
    (h : (sysAccept n fd).2.2 = some (k, addr)) :
    ∃ i, fdToIdx fd = some i ∧ (n.socks i).type = .tcp ∧
      (∃ j, (n.socks j).type = .free) ∧ Acceptable n.tcp (n.socks i).boundPort k ∧
      ∀ j < k, ¬ Acceptable n.tcp (n.socks i).boundPort j := by
  simp only [sysAccept] at h
  split at h
  · cases h
  · rename_i i hfd
    split at h
    · cases h
    · rename_i htype
      split at h
      · cases h
      · rename_i t k' hacc
        split at h
        · cases h
        · rename_i j halloc
          cases h
          obtain ⟨hk, hfirst⟩ := tcpAccept_first hacc
          exact ⟨i, hfd, not_ne_iff.mp htype, ⟨j, allocSock_free halloc⟩, hk, hfirst⟩

/-- The connection an admitted accept returns was never handed out. -/
theorem Tracked.Sound.handsOutOnce {s : Tracked} (h : s.Sound)
    (hok : AcceptsUnheld s.net e) : HandsOutOnce s e := by
  intro fd k addr hcall hret hk
  obtain ⟨env, udpRet, call⟩ := e
  obtain rfl : call = .accept fd := hcall
  obtain ⟨i, hfd, htype, hfree, hacc, hfirst⟩ := sysAccept_returns hret
  have hunheld := hok i hfd htype hfree k hacc hfirst
  rcases h.handed k hk with hdown | ⟨-, a, ha⟩
  · rw [hacc.1] at hdown
    simp [WindingDown] at hdown
  · exact hunheld a ha

theorem Tracked.boot_sound (udp : List (U16 × UdpHandler)) : (Tracked.boot udp).Sound where
  noSharing := by
    rintro a b k ⟨htype, -⟩
    cases htype
  holdable := by
    rintro a k ⟨htype, -⟩
    cases htype
  reports := fun _ hopen => absurd rfl hopen
  handed := fun _ hk => hk.elim

/-- **Each connection is handed out once.**  In every run of system calls,
packets and ticks whose calls meet `AcceptsUnheld`, no two sockets ever hold
one connection, and no accept returns a connection that an earlier accept or
connect returned and that has not been closed since. -/
theorem connections_held_once (udp : List (U16 × UdpHandler)) (es : List NetEvent)
    (hok : Runs.StepsMeet Tracked.step (fun s e => AcceptsUnheld s.net e) (Tracked.boot udp) es) :
    NoSharing (Runs.run Tracked.step (Tracked.boot udp) es).net.socks ∧
      Runs.StepsMeet Tracked.step HandsOutOnce (Tracked.boot udp) es := by
  constructor
  · exact (Runs.run_invariant Tracked.Sound (fun _ _ h he => h.step he)
      (Tracked.boot_sound udp) hok).noSharing
  · exact Runs.stepsMeet_of_invariant Tracked.Sound (fun _ _ h he => h.step he)
      (fun _ _ h he => h.handsOutOnce he) (Tracked.boot_sound udp) hok

/-- A segment from port 5000 of a client to port 80. -/
def clientHdr (flags : U8) (seq ack : U32) : TcpHdr where
  srcPort := ByteOrder.htons 5000
  dstPort := ByteOrder.htons 80
  seq := ByteOrder.htonl seq
  ack := ByteOrder.htonl ack
  dataOff := tcpDataOffMin
  flags := flags
  window := ByteOrder.htons 4096
  checksum := 0
  urgPtr := 0

def quietCall (call : SysCall) : NetEvent := ⟨quietEnv, fun _ _ _ _ => 0, call⟩

/-- A server on port 80, a client that completes the handshake, and one
accept. -/
def serveOne : List NetEvent := [quietCall (.socket 2 1),
   quietCall (.bind 64 ⟨2, ByteOrder.htons 80, 0⟩),
   quietCall (.listen 64),
   quietCall (.segment ⟨(clientHdr tcpSyn 100 0).bytes, by decide⟩ 7 9),
   quietCall (.segment ⟨(clientHdr tcpAck 101 (nextIsn 0x12345678#32 + 1)).bytes,
     by decide⟩ 7 9),
   quietCall (.accept 64)]

theorem connections_held_once_serveOne :
    NoSharing (Runs.run Tracked.step (Tracked.boot []) serveOne).net.socks ∧
      Runs.StepsMeet Tracked.step HandsOutOnce (Tracked.boot []) serveOne := by
  refine connections_held_once [] serveOne ⟨trivial, trivial, ?_, trivial, trivial, ?_, trivial⟩
  · show ∀ i, _ → _ → ∀ k, _ → _
    decide
  · show ∀ i, _ → _ → _ → ∀ k, _ → _ → ∀ a, _
    decide

/-- A second accept returns the same connection under a second descriptor. -/
theorem second_accept_shares_connection : ¬ NoSharing (Runs.run Tracked.step (Tracked.boot [])
        (serveOne ++ [quietCall (.accept 64)])).net.socks ∧
      ¬ HandsOutOnce (Runs.run Tracked.step (Tracked.boot []) serveOne)
        (quietCall (.accept 64)) := by
  constructor
  · intro h
    exact absurd (h 1 2 1 (by decide) (by decide)) (by decide)
  · intro h
    refine h 64 1 (sockAddr 7 5000) rfl (by decide) ⟨by decide, .inr ?_⟩
    decide

end Socket
