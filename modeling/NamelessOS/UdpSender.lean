import NamelessOS.UdpDelivery

/-!
# The sender that `recvfrom` names

Datagrams go into a ring of bytes without boundaries, and their source into one
field that every arrival overwrites.  `Inbox` keeps for every unread byte the
arrival it came with; this module says of every `sys_recvfrom` when its bytes come
from one datagram and the address it fills in is that datagram's source.
-/

namespace Socket

open ByteOrder Tcp Runs List Function
open Prod (snd)

/-- The sources of the datagrams that a socket got, in order, and the unread bytes
with the number of their datagram. -/
structure Inbox where
  arrivals : List (U32 × U16)
  queue : List (Nat × U8)

def Inbox.empty : Inbox := ⟨[], []⟩

/-- A datagram of which `free` bytes fit. -/
def Inbox.arrive (b : Inbox) (d : Datagram) (srcIp : U32) (free : Nat) : Inbox where
  arrivals := b.arrivals ++ [(srcIp, d.srcPort)]
  queue := b.queue ++ (d.data.take free).map (Prod.mk b.arrivals.length)

/-- The network with an inbox for every socket. -/
structure MailWorld where
  net : Net
  inbox : SockIdx → Inbox

/-- How many bytes `sys_recvfrom` takes from a UDP socket. -/
def recvCount (s : Sock) (len : U64) : Nat := min s.rx.avail (len.setWidth 16).toNat

/-- What a call does to the inboxes. -/
def MailWorld.record (w : MailWorld) : SysCall → SockIdx → Inbox
  | .socket domain type =>
    match fdToIdx (sysSocket w.net domain type).2 with
    | none => w.inbox
    | some i => update w.inbox i .empty
  | .datagram payload srcIp =>
    match datagramAt payload with
    | none => w.inbox
    | some d => (receiver w.net d).elim w.inbox (fun i =>
      update w.inbox i ((w.inbox i).arrive d srcIp (w.net.socks i).rx.free))
  | .recvfrom fd len =>
    match fdToIdx fd with
    | none => w.inbox
    | some i =>
      if (w.net.socks i).type = .udp then
        update w.inbox i
          { w.inbox i with queue := (w.inbox i).queue.drop (recvCount (w.net.socks i) len) }
      else w.inbox
  | _ => w.inbox

def MailWorld.step (w : MailWorld) (e : NetEvent) : MailWorld where
  net := netStep w.net e
  inbox := w.record e.call

def MailWorld.boot (udp : List (U16 × UdpHandler)) : MailWorld where
  net := initNet udp
  inbox := fun _ => .empty

/-! ## The inbox is the ring -/

/-- The ring holds the unread bytes, and the peer is the last arrival. -/
structure InboxOk (s : UdpSide) (b : Inbox) : Prop where
  bytes : b.queue.map snd = s.rx.contents
  known : ∀ q ∈ b.queue, q.1 < b.arrivals.length
  peer : ∀ a, b.arrivals.getLast? = some a → a = (s.peerIp, s.peerPort)

/-- **Every UDP socket's inbox is right.** -/
def MailOk (w : MailWorld) : Prop :=
  ∀ i, (w.net.socks i).type = .udp → InboxOk (w.net.socks i).udpSide (w.inbox i)

theorem mailOk_boot (udp : List (U16 × UdpHandler)) : MailOk (MailWorld.boot udp) := by
  intro i h
  cases h

theorem fdToIdx_fdOf (i : SockIdx) : fdToIdx (fdOf i) = some i := by
  revert i
  decide

theorem contents_reset (r : RingBuffer U8 sockRxBufSize) :
    ({ r with head := 0, tail := 0 } : RingBuffer U8 sockRxBufSize).contents = [] := by
  rw [RingBuffer.contents_eq_nil_iff]

theorem inboxOk_empty {s : UdpSide} (h : s.rx.contents = []) : InboxOk s .empty where
  bytes := h.symm
  known _ hq := by cases hq
  peer _ ha := by cases ha

variable {b : Inbox} {s : Sock}

theorem InboxOk.arrive (h : InboxOk s.udpSide b) (d : Datagram) (srcIp : U32) :
    InboxOk (s.receive d srcIp).udpSide (b.arrive d srcIp s.rx.free) where
  bytes := by
    show (b.queue ++ (d.data.take s.rx.free).map (Prod.mk b.arrivals.length)).map snd =
      (s.receive d srcIp).rx.contents
    rw [Sock.receive_contents, map_append, map_map, h.bytes]
    congr 1
    exact map_id _
  known q hq := by
    show q.1 < (b.arrivals ++ [(srcIp, d.srcPort)]).length
    rw [length_append, length_singleton]
    rcases mem_append.mp hq with hq | hq
    · have := h.known q hq
      omega
    · obtain ⟨x, -, rfl⟩ := mem_map.mp hq
      exact Nat.lt_succ_self _
  peer a ha := by
    rw [show (b.arrive d srcIp s.rx.free).arrivals = b.arrivals ++ [(srcIp, d.srcPort)] from rfl,
      List.getLast?_append_of_ne_nil _ (by simp)] at ha
    cases ha
    rfl

theorem InboxOk.drop (h : InboxOk s.udpSide b) {k : Nat} (hk : k ≤ s.rx.avail) :
    InboxOk { s.udpSide with rx := (s.rx.popN k).2 } { b with queue := b.queue.drop k } where
  bytes := by
    show (b.queue.drop k).map snd = (s.rx.popN k).2.contents
    rw [(s.rx.popN_eq k hk).2, map_drop, h.bytes]
    rfl
  known q hq := h.known q (mem_of_mem_drop hq)
  peer := h.peer

/-! ## Calls -/

variable {w : MailWorld}

theorem MailOk.same (h : MailOk w) {n : Net} (hsame : UdpSame w.net n) :
    MailOk { w with net := n } := by
  intro i htype
  have hside := hsame.side i
  have htype' : (w.net.socks i).type = .udp := (congrArg UdpSide.type hside).symm.trans htype
  rw [hside]
  exact h i htype'

variable {i : SockIdx}

theorem MailOk.set (h : MailOk w) (t : Table)
    (hs : s.type = .udp → InboxOk s.udpSide b) :
    MailOk { net := { w.net with tcp := t }.setSock i s, inbox := update w.inbox i b } := by
  intro j htype
  dsimp only at htype ⊢
  by_cases hj : j = i
  · rw [hj, Net.setSock_self] at htype ⊢
    rw [update_self]
    exact hs htype
  · rw [Net.setSock_ne _ _ hj] at htype ⊢
    rw [update_of_ne hj]
    exact h j htype

theorem MailOk.bind (h : MailOk w) (fd : U64) (sa : SockAddrIn) :
    MailOk { w with net := (sysBind w.net fd sa).1 } := by
  have hbound := sysBind_bound w.net fd sa
  generalize sysBind w.net fd sa = r at hbound
  cases hbound with
  | refused ret hret => exact h
  | bound i udp hfd htype hother hudp =>
    intro j hj
    by_cases hji : j = i
    · rw [hji, Net.setSock_self] at hj ⊢
      have hok := h i hj
      exact ⟨hok.bytes, hok.known, hok.peer⟩
    · rw [Net.setSock_ne _ _ hji] at hj ⊢
      exact h j hj

theorem MailOk.shutdown (h : MailOk w) (fd : U64) :
    MailOk { w with net := (sysShutdown w.net fd).1 } := by
  cases hfd : fdToIdx fd with
  | none =>
    rw [sysShutdown_none w.net hfd]
    exact h
  | some i =>
    obtain ⟨hfree, -, hother⟩ := sysShutdown_frees w.net hfd
    intro j hj
    have hji : j ≠ i := by
      rintro rfl
      rw [hfree] at hj
      cases hj
    have hside := hother j hji
    rw [hside]
    exact h j ((congrArg UdpSide.type hside).symm.trans hj)

/-- `sys_recvfrom` on a UDP socket. -/
theorem sysRecvfrom_udp {n : Net} {fd : U64} (hfd : fdToIdx fd = some i)
    (htype : (n.socks i).type = .udp) (len : U64) : sysRecvfrom n fd len =
      if (n.socks i).rx.avail = 0 then (n, err eAgain, [], none)
      else (n.setSock i { n.socks i with rx := ((n.socks i).rx.popN (recvCount (n.socks i) len)).2 },
        BitVec.ofNat 64 ((n.socks i).rx.popN (recvCount (n.socks i) len)).1.length,
        ((n.socks i).rx.popN (recvCount (n.socks i) len)).1,
        some (sockAddr (n.socks i).peerIp (n.socks i).peerPort)) := by
  unfold sysRecvfrom
  rw [hfd]
  dsimp only
  rw [htype]
  rfl

theorem recvCount_le (s : Sock) (len : U64) : recvCount s len ≤ s.rx.avail := Nat.min_le_left _ _

theorem MailOk.recvfrom (h : MailOk w) (fd len : U64) :
    MailOk { net := (sysRecvfrom w.net fd len).1, inbox := w.record (.recvfrom fd len) } := by
  rw [MailWorld.record]
  cases hfd : fdToIdx fd with
  | none =>
    unfold sysRecvfrom
    rw [hfd]
    exact h
  | some i =>
    dsimp only
    by_cases htype : (w.net.socks i).type = .udp
    · rw [if_pos htype, sysRecvfrom_udp hfd htype]
      have hcount := recvCount_le (w.net.socks i) len
      by_cases hnone : (w.net.socks i).rx.avail = 0
      · rw [if_pos hnone]
        rw [hnone, Nat.le_zero] at hcount
        rw [hcount, drop_zero, update_eq_self]
        exact h
      · rw [if_neg hnone]
        exact h.set w.net.tcp (fun _ => (h i htype).drop hcount)
    · rw [if_neg htype]
      have hreceived := sysRecvfrom_received w.net fd len
      generalize sysRecvfrom w.net fd len = r at hreceived
      cases hreceived with
      | same n' ret bytes hsame => exact h.same hsame
      | received j hfd' htype' ring bytes hpop =>
        rw [hfd] at hfd'
        cases hfd'
        exact absurd htype' htype

/-- **One call keeps the inboxes right.** -/
theorem MailOk.step (h : MailOk w) (e : NetEvent) : MailOk (w.step e) := by
  obtain ⟨env, udpRet, call⟩ := e
  cases call with
  | socket domain type =>
    have hopened := sysSocket_opened w.net domain type
    rw [MailWorld.step]
    dsimp only [netStep, MailWorld.record]
    generalize sysSocket w.net domain type = r at hopened
    cases hopened with
    | refused ret hret =>
      rw [hret]
      exact h
    | opened i type hfree =>
      rw [fdToIdx_fdOf]
      exact h.set w.net.tcp (fun _ => inboxOk_empty (contents_reset _))
  | bind fd sa => exact h.bind fd sa
  | accept fd =>
    have haccepted := sysAccept_accepted w.net fd
    rw [MailWorld.step]
    dsimp only [netStep, MailWorld.record]
    generalize (sysAccept w.net fd).1 = n at haccepted
    cases haccepted with
    | same n' hsame => exact h.same hsame
    | accepted j t s hfree htype =>
      have hset := h.set t (i := j) (s := s) (b := w.inbox j) (fun hudp => by
        rw [htype] at hudp
        cases hudp)
      rwa [update_eq_self] at hset
  | recvfrom fd len => exact h.recvfrom fd len
  | shutdown fd => exact h.shutdown fd
  | datagram payload srcIp =>
    rw [MailWorld.step]
    dsimp only [netStep, MailWorld.record]
    rw [udpRx_eq]
    cases datagramAt payload with
    | none => exact h
    | some d =>
      dsimp only
      cases receiver w.net d with
      | none => exact h
      | some i => exact h.set w.net.tcp (fun htype => (h i htype).arrive d srcIp)
  | listen fd => exact h.same (udpSame_netStep w.net _ trivial)
  | connect fd sa => exact h.same (udpSame_netStep w.net _ trivial)
  | sendto fd buf len addr => exact h.same (udpSame_netStep w.net _ trivial)
  | segment payload srcIp dstIp => exact h.same (udpSame_netStep w.net _ trivial)
  | tick => exact h.same (udpSame_netStep w.net _ trivial)

/-! ## One call of `sys_recvfrom` -/

/-- What the call is asked for: the bytes it returns come from one datagram, and
the address it fills in is that datagram's source. -/
def SenderRight (w : MailWorld) (fd len : U64) (i : SockIdx) : Prop :=
  ∀ addr, (sysRecvfrom w.net fd len).2.2.2 = some addr → (sysRecvfrom w.net fd len).2.2.1 ≠ [] →
    ∃ k src, (w.inbox i).arrivals[k]? = some src ∧ addr = sockAddr src.1 src.2 ∧
      (w.inbox i).queue.take (sysRecvfrom w.net fd len).2.2.1.length =
        (sysRecvfrom w.net fd len).2.2.1.map (Prod.mk k)

/-- The bytes that are taken belong to one datagram, and the last arrival has the
same source. -/
def OneSender (w : MailWorld) (len : U64) (i : SockIdx) : Prop :=
  recvCount (w.net.socks i) len ≠ 0 → ∃ k src, (w.inbox i).arrivals[k]? = some src ∧
    (∀ q ∈ (w.inbox i).queue.take (recvCount (w.net.socks i) len), q.1 = k) ∧
    (w.inbox i).arrivals.getLast? = some src

theorem sockAddr_inj {ip ip' : U32} {port port' : U16} (h : sockAddr ip port = sockAddr ip' port') :
    ip = ip' ∧ port = port' := by
  have hip : htonl ip = htonl ip' := congrArg SockAddrIn.sinAddr h
  have hport : htons port = htons port' := congrArg SockAddrIn.sinPort h
  exact ⟨by rw [← ntohl_htonl ip, hip, ntohl_htonl], by rw [← ntohs_htons port, hport, ntohs_htons]⟩

theorem map_snd_eq_iff {q : List (Nat × U8)} {k : Nat} :
    q = (q.map snd).map (Prod.mk k) ↔ ∀ p ∈ q, p.1 = k := by
  induction q with
  | nil => simp
  | cons p q ih =>
    rw [map_cons, map_cons, List.cons.injEq, ih, forall_mem_cons]
    exact and_congr_left' ⟨fun h => congrArg Prod.fst h, fun h => Prod.ext h rfl⟩

theorem InboxOk.queue_length {s : UdpSide} (h : InboxOk s b) : b.queue.length = s.rx.avail := by
  have hlen := congrArg List.length h.bytes
  rwa [length_map, RingBuffer.contents_length] at hlen

theorem InboxOk.taken (h : InboxOk s.udpSide b) {k : Nat} (hk : k ≤ s.rx.avail) :
    (s.rx.popN k).1 = (b.queue.take k).map snd := by
  rw [(s.rx.popN_eq k hk).1, map_take, h.bytes]
  rfl

theorem InboxOk.last {s : UdpSide} (h : InboxOk s b) (hne : b.queue ≠ []) :
    b.arrivals.getLast? = some (s.peerIp, s.peerPort) := by
  obtain ⟨q, hq⟩ := exists_mem_of_ne_nil _ hne
  have harrived : b.arrivals ≠ [] := by
    intro hnil
    have hknown := h.known q hq
    rw [hnil] at hknown
    exact absurd hknown (Nat.not_lt_zero _)
  have hsome := List.getLast?_eq_some_getLast harrived
  rw [hsome, h.peer _ hsome]

/-- **When `recvfrom` names the right sender.** -/
theorem senderRight_iff (h : MailOk w) {fd : U64}
    (hfd : fdToIdx fd = some i) (htype : (w.net.socks i).type = .udp) (len : U64) :
    SenderRight w fd len i ↔ OneSender w len i := by
  have hok := h i htype
  have hcount := recvCount_le (w.net.socks i) len
  have hqueue : (w.inbox i).queue.length = (w.net.socks i).rx.avail := hok.queue_length
  have hlen : ((w.inbox i).queue.take (recvCount (w.net.socks i) len)).length =
      recvCount (w.net.socks i) len := by
    rw [length_take, hqueue]
    exact Nat.min_eq_left hcount
  have hlast : recvCount (w.net.socks i) len ≠ 0 →
      (w.inbox i).arrivals.getLast? = some ((w.net.socks i).peerIp, (w.net.socks i).peerPort) := by
    intro hne
    apply hok.last
    intro hnil
    rw [hnil] at hqueue
    change 0 = _ at hqueue
    omega
  unfold SenderRight OneSender
  rw [sysRecvfrom_udp hfd htype]
  by_cases hnone : (w.net.socks i).rx.avail = 0
  · rw [if_pos hnone]
    exact iff_of_true (fun addr haddr => by cases haddr) (fun hne => absurd (by omega) hne)
  · rw [if_neg hnone]
    have hempty : ((w.inbox i).queue.take (recvCount (w.net.socks i) len)).map snd ≠ [] ↔
        recvCount (w.net.socks i) len ≠ 0 := by
      apply not_congr
      rw [← length_eq_zero_iff, length_map, hlen]
    rw [hok.taken hcount, hempty, length_map, hlen]
    constructor
    · intro hright hne
      obtain ⟨k, src, hk, haddr, htags⟩ := hright _ rfl hne
      obtain ⟨hip, hport⟩ := sockAddr_inj haddr
      refine ⟨k, src, hk, map_snd_eq_iff.mp htags, ?_⟩
      rw [hlast hne, hip, hport]
    grind [map_snd_eq_iff]

/-- What is said about a call of `sys_recvfrom` on a UDP socket. -/
def NamesSender (w : MailWorld) (e : NetEvent) : Prop :=
  ∀ fd len i, e.call = .recvfrom fd len → fdToIdx fd = some i → (w.net.socks i).type = .udp →
    (SenderRight w fd len i ↔ OneSender w len i)

/-- **Which calls of `recvfrom` name the right sender.**  In every run of system
calls, packets and ticks, at every `sys_recvfrom` on a UDP socket: the bytes it
returns come from one datagram, whose source it fills in, exactly if the bytes it
takes belong to one datagram and the last datagram that arrived at the socket has
the same source. -/
theorem recvfrom_names_sender (udp : List (U16 × UdpHandler)) (events : List NetEvent) :
    StepsMeet MailWorld.step NamesSender (MailWorld.boot udp) events := by
  refine stepsMeet_of_invariant MailOk (fun w e h _ => h.step e) (fun w e h _ => ?_)
    (mailOk_boot udp) (stepsMeet_of_forall (fun _ _ => trivial) (MailWorld.boot udp))
  intro fd len i _ hfd htype
  exact senderRight_iff h hfd htype len

/-! ## Two datagrams in one call -/

/-- A UDP socket bound to port 5000 gets one byte from 10.0.2.2, port 7, and one
from 10.0.2.3, port 9. -/
def twoSenders : List NetEvent :=
  [quietCall (.socket (BitVec.ofNat 64 afInet) (BitVec.ofNat 64 sockDgram)),
   quietCall (.bind 64 (portAddr 5000)),
   quietCall (.datagram ⟨store16 (htons 7) ++ store16 (htons 5000) ++ [0, 9, 0, 0, 0x41], by decide⟩
     0x0A000202),
   quietCall (.datagram ⟨store16 (htons 9) ++ store16 (htons 5000) ++ [0, 9, 0, 0, 0x42], by decide⟩
     0x0A000203)]

def twoSendersWorld : MailWorld := run MailWorld.step (MailWorld.boot [(68, .dhcpRx)]) twoSenders

theorem twoSendersWorld_recvfrom : (twoSendersWorld.inbox 0).queue = [(0, 0x41), (1, 0x42)] ∧
    (twoSendersWorld.inbox 0).arrivals = [(0x0A000202, 7), (0x0A000203, 9)] ∧
    (sysRecvfrom twoSendersWorld.net 64 100).2.2 = ([0x41, 0x42], some (sockAddr 0x0A000203 9)) ∧
    (sysRecvfrom twoSendersWorld.net 64 1).2.2 = ([0x41], some (sockAddr 0x0A000203 9)) := by
  decide +kernel

/-- **One call returns the bytes of two datagrams**, as if both came from the
second sender; and a call for one byte returns the first sender's byte under the
second sender's address. -/
theorem two_senders_mixed :
    (sysRecvfrom twoSendersWorld.net 64 100).2.2 = ([0x41, 0x42], some (sockAddr 0x0A000203 9)) ∧
    ¬ SenderRight twoSendersWorld 64 100 0 ∧
    (sysRecvfrom twoSendersWorld.net 64 1).2.2 = ([0x41], some (sockAddr 0x0A000203 9)) ∧
    ¬ SenderRight twoSendersWorld 64 1 0 := by
  obtain ⟨hqueue, harrivals, hall, hone⟩ := twoSendersWorld_recvfrom
  refine ⟨hall, ?_, hone, ?_⟩
  · intro hright
    obtain ⟨k, src, -, -, htags⟩ := hright _ (by rw [hall]) (by rw [hall]; simp)
    grind
  · intro hright
    obtain ⟨k, src, hk, haddr, htags⟩ := hright _ (by rw [hone]) (by rw [hone]; simp)
    grind [sockAddr_inj]

end Socket
