import NamelessOS.SocketOwnership

/-!
# Delivery to UDP sockets

`udp_rx` goes by a handler table of sixteen entries that only grows, and
`udp_sock_rx` by the ports of the sockets as they are now.  `delivery` puts the
two together: the socket, the source port and the data of a datagram.  Over every
run of system calls, packets and ticks this module says which bound sockets are
reached.
-/

namespace Socket

open ByteOrder Tcp Runs List
open BitVec (ofNat)
open Function (update update_of_ne update_self)

/-! ## The UDP side of a socket -/

/-- The fields of `sock_t` that matter to a UDP socket. -/
structure UdpSide where
  type : SockType
  boundPort : U16
  peerIp : U32
  peerPort : U16
  rx : RingBuffer U8 sockRxBufSize

def Sock.udpSide (s : Sock) : UdpSide where
  type := s.type
  boundPort := s.boundPort
  peerIp := s.peerIp
  peerPort := s.peerPort
  rx := s.rx

theorem tcpSockClose_udpSide (socks : SockIdx → Sock) (id : ConnIdx) (i : SockIdx) :
    (tcpSockClose socks id i).udpSide = (socks i).udpSide := by
  unfold tcpSockClose
  cases (List.finRange sockMax).find? (fun i => (socks i).type = .tcp ∧ (socks i).connId = some id) with
  | none => rfl
  | some j =>
    dsimp only
    by_cases hij : i = j
    · subst hij
      rw [update_self]
      rfl
    · rw [update_of_ne hij]

theorem closeSockets_udpSide (out : List Output) (socks : SockIdx → Sock) (i : SockIdx) :
    (closeSockets out socks i).udpSide = (socks i).udpSide := by
  fun_induction closeSockets out socks with
  | case1 => rfl
  | case2 socks id out ih => rw [ih, tcpSockClose_udpSide]
  | case3 socks o out h ih => exact ih

/-- The outcome of a TCP call takes at most the connection from a socket. -/
theorem Net.tcpDone_udpSide (n : Net) (t : Table) (out : List Output) (i : SockIdx) :
    ((n.tcpDone t out).socks i).udpSide = (n.socks i).udpSide :=
  closeSockets_udpSide out n.socks i

theorem Net.setSock_self (n : Net) (i : SockIdx) (s : Sock) : (n.setSock i s).socks i = s :=
  update_self ..

variable {i : SockIdx}

theorem Net.setSock_ne (n : Net) {j : SockIdx} (s : Sock) (h : j ≠ i) :
    (n.setSock i s).socks j = n.socks j :=
  update_of_ne h ..

theorem Net.setSock_udpSide (n : Net) (i : SockIdx) {s : Sock} (h : s.udpSide = (n.socks i).udpSide)
    (j : SockIdx) : ((n.setSock i s).socks j).udpSide = (n.socks j).udpSide := by
  by_cases hj : j = i
  · subst hj
    rw [n.setSock_self, h]
  · rw [n.setSock_ne s hj]

/-- The state keeps the UDP side of every socket and the handler table. -/
structure UdpSame (n n' : Net) : Prop where
  side : ∀ i, (n'.socks i).udpSide = (n.socks i).udpSide
  udp : n'.udp = n.udp

theorem UdpSame.refl (n : Net) : UdpSame n n := ⟨fun _ => rfl, rfl⟩

theorem udpSame_tcpDone (n : Net) (t : Table) (out : List Output) : UdpSame n (n.tcpDone t out) :=
  ⟨n.tcpDone_udpSide t out, rfl⟩

theorem udpSame_sysListen (env : Env) (n : Net) (fd : U64) : UdpSame n (sysListen env n fd).1 := by
  unfold sysListen
  split
  · exact .refl n
  · dsimp only
    split
    · exact .refl n
    · split
      · exact .refl n
      · split
        · exact ⟨fun _ => rfl, rfl⟩
        · exact ⟨Net.setSock_udpSide _ _ rfl, rfl⟩

theorem udpSame_sysConnect (env : Env) (n : Net) (fd : U64) (sa : SockAddrIn) :
    UdpSame n (sysConnect env n fd sa).1 := by
  unfold sysConnect
  split
  · exact .refl n
  · dsimp only
    split
    · exact .refl n
    · split
      · exact .refl n
      · split
        · exact udpSame_tcpDone n _ _
        · rename_i t out id _
          refine ⟨fun i => ?_, rfl⟩
          exact ((n.tcpDone t out).setSock_udpSide _ (by rfl) i).trans (n.tcpDone_udpSide t out i)

theorem udpSame_sysSendto (env : Env) (udpRet : U32 → U16 → U16 → List U8 → Int) (n : Net) (fd : U64)
    (buf : Nat → U8) (len : U64) (addr : Option SockAddrIn) :
    UdpSame n (sysSendto env udpRet n fd buf len addr).1 := by
  unfold sysSendto
  grind [UdpSame.refl, udpSame_tcpDone]

/-- The calls that do not concern UDP sockets. -/
def SysCall.SparesUdp : SysCall → Prop
  | .listen _ | .connect _ _ | .sendto _ _ _ _ | .segment _ _ _ | .tick => True
  | _ => False

theorem udpSame_netStep (n : Net) (e : NetEvent) (h : e.call.SparesUdp) :
    UdpSame n (netStep n e) := by
  obtain ⟨env, udpRet, call⟩ := e
  cases call with
  | listen fd => exact udpSame_sysListen env n fd
  | connect fd sa => exact udpSame_sysConnect env n fd sa
  | sendto fd buf len addr => exact udpSame_sysSendto env udpRet n fd buf len addr
  | segment payload srcIp dstIp => exact udpSame_tcpDone n _ _
  | tick => exact udpSame_tcpDone n _ _
  | _ => exact h.elim

/-! ## Where a datagram goes -/

/-- The UDP socket bound to a port. -/
def portSock (socks : SockIdx → Sock) (port : U16) : Option SockIdx :=
  (List.finRange sockMax).find? (fun i => (socks i).type = .udp ∧ (socks i).boundPort = port)

/-- The ports and the data of a payload that `udp_rx` accepts. -/
structure Datagram where
  srcPort : U16
  dstPort : U16
  data : List U8
  deriving DecidableEq

/-- `udp_rx` on the header. -/
def datagramAt (payload : Buffer) : Option Datagram :=
  let p := payload.bytes
  if p.length < udpHdrLen then none
  else
    let udpLen := (ntohs (load16 (p.getD 4 0) (p.getD 5 0))).toNat
    if udpLen < udpHdrLen ∨ p.length < udpLen then none
    else some
      { srcPort := ntohs (load16 (p.getD 0 0) (p.getD 1 0))
        dstPort := ntohs (load16 (p.getD 2 0) (p.getD 3 0))
        data := (p.drop udpHdrLen).take (udpLen - udpHdrLen) }

/-- The socket that gets a datagram. -/
def receiver (n : Net) (d : Datagram) : Option SockIdx :=
  if udpDispatch d.dstPort n.udp none = some .udpSockRx then portSock n.socks d.dstPort else none

/-- A socket after `udp_sock_rx` put a datagram into it. -/
def Sock.receive (s : Sock) (d : Datagram) (srcIp : U32) : Sock :=
  { s with peerIp := srcIp, peerPort := d.srcPort
           rx := s.rx.pushAll (d.data.take (min d.data.length (sockRxBufSize - 1 - s.rx.avail))) }

/-- **`udp_rx` changes the receiver, or nothing.** -/
theorem udpRx_eq (n : Net) (payload : Buffer) (srcIp : U32) : udpRx n payload srcIp =
      match datagramAt payload with
      | none => n
      | some d => (receiver n d).elim n (fun i => n.setSock i ((n.socks i).receive d srcIp)) := by
  unfold udpRx datagramAt
  dsimp only
  split
  · rfl
  · split
    · rfl
    · dsimp only [receiver]
      split
      · rename_i hdispatch
        rw [if_pos hdispatch, udpSockRx, portSock]
        split <;> rename_i hfind <;> rw [hfind] <;> rfl
      · rename_i hno
        rw [if_neg (fun hdispatch => hno hdispatch)]
        rfl

/-! ## The handler table -/

/-- What the table does with a port is settled: the port has an entry, or the
table is full. -/
def Settled (hs : List (U16 × UdpHandler)) (port : U16) : Prop :=
  (∃ h, (port, h) ∈ hs) ∨ udpMaxHandlers ≤ hs.length

variable {hs : List (U16 × UdpHandler)} {port p : U16}

/-- The first entry of a port decides, whatever is appended. -/
theorem udpDispatch_append (hentry : ∃ h, (port, h) ∈ hs)
    (more : List (U16 × UdpHandler)) (catchAll : Option UdpHandler) :
    udpDispatch port (hs ++ more) catchAll = udpDispatch port hs catchAll := by
  induction hs generalizing catchAll with
  | nil =>
    obtain ⟨h, hmem⟩ := hentry
    cases hmem
  | cons q hs ih =>
    obtain ⟨p, f⟩ := q
    rw [cons_append, udpDispatch, udpDispatch]
    by_cases hp : p = port
    · rw [if_pos hp, if_pos hp]
    · rw [if_neg hp, if_neg hp]
      apply ih
      grind

theorem Settled.register (h : Settled hs port) (q : U16)
    (f : UdpHandler) : Settled (udpRegister hs q f) port ∧
      udpDispatch port (udpRegister hs q f) none = udpDispatch port hs none := by
  unfold udpRegister
  by_cases hfull : udpMaxHandlers ≤ hs.length
  · rw [if_pos hfull]
    exact ⟨h, rfl⟩
  · rw [if_neg hfull]
    rcases h with hentry | hfull'
    · obtain ⟨g, hmem⟩ := hentry
      exact ⟨.inl ⟨g, mem_append_left _ hmem⟩, udpDispatch_append ⟨g, hmem⟩ _ none⟩
    · exact absurd hfull' hfull

theorem settled_register (hs : List (U16 × UdpHandler)) (port : U16) (f : UdpHandler) :
    Settled (udpRegister hs port f) port := by
  unfold udpRegister
  split
  · rename_i hfull
    exact .inr hfull
  · exact .inl ⟨f, mem_append_right _ (mem_singleton_self _)⟩

/-- After `udp_register(port, udp_sock_rx)` on this table, datagrams to the port
go to the sockets. -/
def Registers (hs : List (U16 × UdpHandler)) (port : U16) : Prop :=
  udpDispatch port (udpRegister hs port .udpSockRx) none = some .udpSockRx

instance (hs : List (U16 × UdpHandler)) (port : U16) : Decidable (Registers hs port) :=
  inferInstanceAs (Decidable (_ = _))

/-! ## Binding -/

/-- **What `sys_bind` does**: an error and nothing, or the port, which no other
socket has, and for a UDP socket an attempt to register it. -/
inductive Bound (n : Net) (fd : U64) (sa : SockAddrIn) : Net × U64 → Prop
  | refused (ret : U64) (hret : ret ≠ 0) : Bound n fd sa (n, ret)
  | bound (i : SockIdx) (udp : List (U16 × UdpHandler)) (hfd : fdToIdx fd = some i)
      (htype : (n.socks i).type ≠ .free)
      (hother : ∀ j, j ≠ i → (n.socks j).type ≠ .free → (n.socks j).boundPort ≠ ntohs sa.sinPort)
      (hudp : udp = if (n.socks i).type = .udp then udpRegister n.udp (ntohs sa.sinPort) .udpSockRx
        else n.udp) :
      Bound n fd sa
        ({ n.setSock i { n.socks i with boundPort := ntohs sa.sinPort } with udp := udp }, 0)

theorem sysBind_bound (n : Net) (fd : U64) (sa : SockAddrIn) : Bound n fd sa (sysBind n fd sa) := by
  unfold sysBind
  cases hfd : fdToIdx fd with
  | none => exact .refused _ (by decide)
  | some i =>
    dsimp only
    by_cases htype : (n.socks i).type = .free
    · rw [if_pos htype]
      exact .refused _ (by decide)
    · rw [if_neg htype]
      split
      · exact .refused _ (by decide)
      · split
        · exact .refused _ (by decide)
        · rename_i hany
          have hother : ∀ j, j ≠ i → (n.socks j).type ≠ .free →
              (n.socks j).boundPort ≠ ntohs sa.sinPort := by
            intro j hj hfree hport
            apply hany
            rw [any_eq_true]
            exact ⟨j, mem_finRange j, by simp [hj, hfree, hport]⟩
          split
          · rename_i hudp
            exact .bound i _ hfd htype hother (if_pos hudp).symm
          · rename_i htcp
            exact .bound i n.udp hfd htype hother (if_neg htcp).symm

/-- **What `sys_socket` does**: an error and nothing, or a new socket in place of
a free one. -/
inductive Opened (n : Net) : Net × U64 → Prop
  | refused (ret : U64) (hret : fdToIdx ret = none) : Opened n (n, ret)
  | opened (i : SockIdx) (type : SockType) (hfree : (n.socks i).type = .free) :
      Opened n (n.setSock i
        { type := type, connId := none, boundPort := 0, peerIp := 0, peerPort := 0
          rx := { (n.socks i).rx with head := 0, tail := 0 } }, fdOf i)

theorem sysSocket_opened (n : Net) (domain type : U64) : Opened n (sysSocket n domain type) := by
  unfold sysSocket
  split
  · exact .refused _ (by decide)
  · split
    · exact .refused _ (by decide)
    · split
      · exact .refused _ (by decide)
      · rename_i i halloc
        exact .opened i _ (allocSock_free halloc)

/-- **What `sys_accept` does**: nothing that concerns UDP, or a new TCP socket in
place of a free one. -/
inductive Accepted (n : Net) : Net → Prop
  | same (n' : Net) (h : UdpSame n n') : Accepted n n'
  | accepted (j : SockIdx) (t : Table) (s : Sock) (hfree : (n.socks j).type = .free)
      (htype : s.type = .tcp) : Accepted n ({ n with tcp := t }.setSock j s)

theorem sysAccept_accepted (n : Net) (fd : U64) : Accepted n (sysAccept n fd).1 := by
  unfold sysAccept
  split
  · exact .same n (.refl n)
  · dsimp only
    split
    · exact .same n (.refl n)
    · split
      · exact .same _ ⟨fun _ => rfl, rfl⟩
      · split
        · exact .same _ ⟨fun _ => rfl, rfl⟩
        · rename_i j halloc
          exact .accepted j _ _ (allocSock_free halloc) rfl

/-- **What `sys_recvfrom` does** to the sockets: it takes the front of the ring of
its own UDP socket, or nothing. -/
inductive Received (n : Net) (fd len : U64) : Net × U64 × List U8 × Option SockAddrIn → Prop
  | same (n' : Net) (ret : U64) (bytes : List U8) (h : UdpSame n n') :
      Received n fd len (n', ret, bytes, none)
  | received (i : SockIdx) (hfd : fdToIdx fd = some i) (htype : (n.socks i).type = .udp)
      (ring : RingBuffer U8 sockRxBufSize) (bytes : List U8)
      (hpop : (n.socks i).rx.popN (min (n.socks i).rx.avail (len.setWidth 16).toNat) = (bytes, ring)) :
      Received n fd len (n.setSock i { n.socks i with rx := ring }, ofNat 64 bytes.length, bytes,
        some (sockAddr (n.socks i).peerIp (n.socks i).peerPort))

theorem sysRecvfrom_received (n : Net) (fd len : U64) : Received n fd len (sysRecvfrom n fd len) := by
  unfold sysRecvfrom
  cases hfd : fdToIdx fd with
  | none => exact .same n _ _ (.refl n)
  | some i =>
    dsimp only
    split
    · split
      · exact .same n _ _ (.refl n)
      · exact .same _ _ _ ⟨fun _ => rfl, rfl⟩
    · rename_i htype
      split
      · exact .same n _ _ (.refl n)
      · exact .received i hfd htype _ _ rfl
    · exact .same n _ _ (.refl n)

/-- **What `sys_shutdown` does**: the socket is free, and the others are as they
were. -/
theorem sysShutdown_frees (n : Net) {fd : U64} (hfd : fdToIdx fd = some i) :
    ((sysShutdown n fd).1.socks i).type = .free ∧ (sysShutdown n fd).1.udp = n.udp ∧
      ∀ j, j ≠ i → ((sysShutdown n fd).1.socks j).udpSide = (n.socks j).udpSide := by
  unfold sysShutdown
  rw [hfd]
  dsimp only
  split
  · refine ⟨by rw [Net.setSock_self], rfl, fun j hj => ?_⟩
    rw [Net.setSock_ne _ _ hj, Net.tcpDone_udpSide]
  · refine ⟨by rw [Net.setSock_self], rfl, fun j hj => ?_⟩
    rw [Net.setSock_ne _ _ hj]

theorem sysShutdown_none (n : Net) {fd : U64} (hfd : fdToIdx fd = none) :
    (sysShutdown n fd).1 = n := by
  unfold sysShutdown
  rw [hfd]

/-! ## Bound sockets -/

/-- The network, and for every socket the port of its last successful `sys_bind`
as a UDP socket with the handler table that call found, until the socket is shut
down. -/
structure BindWorld where
  net : Net
  binds : SockIdx → Option (U16 × List (U16 × UdpHandler))

/-- What a call does to the record. -/
def BindWorld.record (w : BindWorld) : SysCall → SockIdx → Option (U16 × List (U16 × UdpHandler))
  | .bind fd sa =>
    match fdToIdx fd with
    | none => w.binds
    | some i =>
      if (sysBind w.net fd sa).2 = 0 ∧ (w.net.socks i).type = .udp then
        update w.binds i (some (ntohs sa.sinPort, w.net.udp))
      else w.binds
  | .shutdown fd =>
    match fdToIdx fd with
    | none => w.binds
    | some i => update w.binds i none
  | _ => w.binds

def BindWorld.step (w : BindWorld) (e : NetEvent) : BindWorld where
  net := netStep w.net e
  binds := w.record e.call

/-- Boot, with the handlers that other modules have registered by then. -/
def BindWorld.boot (udp : List (U16 × UdpHandler)) : BindWorld where
  net := initNet udp
  binds := fun _ => none

/-- **What the record says about the network**, and that no two UDP sockets have
one port. -/
structure BindsOk (w : BindWorld) : Prop where
  sock : ∀ i p hs, w.binds i = some (p, hs) →
    (w.net.socks i).type = .udp ∧ (w.net.socks i).boundPort = p
  handler : ∀ i p hs, w.binds i = some (p, hs) → Settled w.net.udp p ∧
    udpDispatch p w.net.udp none = udpDispatch p (udpRegister hs p .udpSockRx) none
  unique : ∀ i j, (w.net.socks i).type = .udp → (w.net.socks j).type = .udp →
    (w.net.socks i).boundPort = (w.net.socks j).boundPort → (w.net.socks i).boundPort ≠ 0 → i = j

theorem bindsOk_boot (udp : List (U16 × UdpHandler)) : BindsOk (BindWorld.boot udp) where
  sock _ _ _ h := by cases h
  handler _ _ _ h := by cases h
  unique _ _ h := by cases h

variable {w : BindWorld}

section

variable (h : BindsOk w)
include h

/-- A call that changes neither types nor ports. -/
theorem BindsOk.kept {n : Net} (htype : ∀ i, (n.socks i).type = (w.net.socks i).type)
    (hport : ∀ i, (n.socks i).boundPort = (w.net.socks i).boundPort) (hudp : n.udp = w.net.udp) :
    BindsOk { w with net := n } where
  sock i p hs hi := by
    rw [htype, hport]
    exact h.sock i p hs hi
  handler i p hs hi := by
    rw [hudp]
    exact h.handler i p hs hi
  unique i j := by
    rw [htype, htype, hport, hport]
    exact h.unique i j

theorem BindsOk.same {n : Net} (hsame : UdpSame w.net n) : BindsOk { w with net := n } :=
  h.kept (fun i => congrArg UdpSide.type (hsame.side i))
    (fun i => congrArg UdpSide.boundPort (hsame.side i)) hsame.udp

/-- A free socket is replaced by one that is not a bound UDP socket. -/
theorem BindsOk.fresh {s : Sock} (t : Table)
    (hfree : (w.net.socks i).type = .free) (hs : s.type = .udp → s.boundPort = 0) :
    BindsOk { w with net := { w.net with tcp := t }.setSock i s } where
  sock j p hs hj := by
    have hne : j ≠ i := by
      rintro rfl
      have htype := (h.sock j p hs hj).1
      rw [hfree] at htype
      cases htype
    rw [Net.setSock_ne _ _ hne]
    exact h.sock j p hs hj
  handler := h.handler
  unique a b ha hb hport hne := by
    by_cases hai : a = i <;> by_cases hbi : b = i
    · rw [hai, hbi]
    · rw [hai, Net.setSock_self] at ha hne
      exact absurd (hs ha) hne
    · rw [hbi, Net.setSock_self] at hb hport
      rw [hs hb] at hport
      exact absurd hport hne
    · rw [Net.setSock_ne _ _ hai] at ha hport hne
      rw [Net.setSock_ne _ _ hbi] at hb hport
      exact h.unique a b ha hb hport hne

theorem BindsOk.shutdown {fd : U64} (hfd : fdToIdx fd = some i) :
    BindsOk { net := (sysShutdown w.net fd).1, binds := update w.binds i none } := by
  obtain ⟨hfree, hudp, hother⟩ := sysShutdown_frees w.net hfd
  generalize (sysShutdown w.net fd).1 = n at hfree hudp hother
  have htype : ∀ j, j ≠ i → (n.socks j).type = (w.net.socks j).type :=
    fun j hj => congrArg UdpSide.type (hother j hj)
  have hport : ∀ j, j ≠ i → (n.socks j).boundPort = (w.net.socks j).boundPort :=
    fun j hj => congrArg UdpSide.boundPort (hother j hj)
  have hkept : ∀ j p hs, update w.binds i none j = some (p, hs) →
      j ≠ i ∧ w.binds j = some (p, hs) := by
    intro j p hs hj
    by_cases hji : j = i
    · rw [hji, update_self] at hj
      cases hj
    · rw [update_of_ne hji] at hj
      exact ⟨hji, hj⟩
  refine ⟨fun j p hs hj => ?_, fun j p hs hj => ?_, fun a b ha hb hab hnz => ?_⟩
  · obtain ⟨hji, hj⟩ := hkept j p hs hj
    rw [htype j hji, hport j hji]
    exact h.sock j p hs hj
  · obtain ⟨-, hj⟩ := hkept j p hs hj
    rw [hudp]
    exact h.handler j p hs hj
  · grind [unique]

/-- A port that no other socket has, on socket `i`. -/
theorem BindsOk.unique_bound {port : U16}
    (hother : ∀ j, j ≠ i → (w.net.socks j).type ≠ .free → (w.net.socks j).boundPort ≠ port)
    {n : Net} (hn : n.socks = (w.net.setSock i { w.net.socks i with boundPort := port }).socks)
    (a b : SockIdx) (ha : (n.socks a).type = .udp) (hb : (n.socks b).type = .udp)
    (hab : (n.socks a).boundPort = (n.socks b).boundPort) (hne : (n.socks a).boundPort ≠ 0) :
    a = b := by
  rw [hn] at ha hb hab hne
  grind [Net.setSock_ne, Net.setSock_self, unique]

theorem BindsOk.bind (fd : U64) (sa : SockAddrIn) :
    BindsOk { net := (sysBind w.net fd sa).1, binds := w.record (.bind fd sa) } := by
  have hbound := sysBind_bound w.net fd sa
  rw [BindWorld.record]
  generalize sysBind w.net fd sa = r at hbound
  cases hbound with
  | refused ret hret =>
    split
    · exact h
    · rw [if_neg (fun hc => hret hc.1)]
      exact h
  | bound i udp hfd htype hother hudp =>
    rw [hfd]
    dsimp only
    have hsame : ∀ j, j ≠ i → (w.net.setSock i
        { w.net.socks i with boundPort := ntohs sa.sinPort }).socks j = w.net.socks j :=
      fun j hj => Net.setSock_ne _ _ hj
    by_cases hu : (w.net.socks i).type = .udp
    · rw [if_pos hu] at hudp
      rw [if_pos ⟨rfl, hu⟩, hudp]
      refine ⟨fun j p hs hj => ?_, fun j p hs hj => ?_, h.unique_bound hother rfl⟩
      · dsimp only at hj ⊢
        grind [Net.setSock_self, sock]
      · grind [settled_register, handler, Settled.register]
    · rw [if_neg hu] at hudp
      rw [if_neg (fun hc => hu hc.2), hudp]
      refine ⟨fun j p hs hj => ?_, h.handler, h.unique_bound hother rfl⟩
      grind [sock]

/-- Bytes may go in and out of a socket. -/
theorem BindsOk.setSock {s : Sock}
    (htype : s.type = (w.net.socks i).type) (hport : s.boundPort = (w.net.socks i).boundPort) :
    BindsOk { net := w.net.setSock i s, binds := w.binds } := by
  refine h.kept (fun j => ?_) (fun j => ?_) rfl
  · by_cases hj : j = i
    · rw [hj, Net.setSock_self, htype]
    · rw [Net.setSock_ne _ _ hj]
  · by_cases hj : j = i
    · rw [hj, Net.setSock_self, hport]
    · rw [Net.setSock_ne _ _ hj]

/-- **One call keeps the record right.** -/
theorem BindsOk.step (e : NetEvent) : BindsOk (w.step e) := by
  obtain ⟨env, udpRet, call⟩ := e
  cases call with
  | socket domain type =>
    have hopened := sysSocket_opened w.net domain type
    rw [BindWorld.step]
    dsimp only [netStep, BindWorld.record]
    generalize sysSocket w.net domain type = r at hopened
    cases hopened with
    | refused ret hret => exact h
    | opened i type hfree => exact h.fresh w.net.tcp hfree (fun _ => rfl)
  | bind fd sa => exact h.bind fd sa
  | accept fd =>
    have haccepted := sysAccept_accepted w.net fd
    rw [BindWorld.step]
    dsimp only [netStep, BindWorld.record]
    generalize (sysAccept w.net fd).1 = n at haccepted
    cases haccepted with
    | same n' hsame => exact h.same hsame
    | accepted j t s hfree htype =>
      refine h.fresh t hfree (fun hudp => ?_)
      rw [htype] at hudp
      cases hudp
  | recvfrom fd len =>
    have hreceived := sysRecvfrom_received w.net fd len
    rw [BindWorld.step]
    dsimp only [netStep, BindWorld.record]
    generalize sysRecvfrom w.net fd len = r at hreceived
    cases hreceived with
    | same n' ret bytes hsame => exact h.same hsame
    | received i hfd htype ring bytes hpop =>
      exact h.setSock rfl rfl
  | shutdown fd =>
    rw [BindWorld.step]
    dsimp only [netStep, BindWorld.record]
    cases hfd : fdToIdx fd with
    | none =>
      rw [sysShutdown_none w.net hfd]
      exact h
    | some i => exact h.shutdown hfd
  | datagram payload srcIp =>
    rw [BindWorld.step]
    dsimp only [netStep, BindWorld.record]
    rw [udpRx_eq]
    split
    · exact h
    · cases receiver w.net _ with
      | none => exact h
      | some i =>
        rw [Option.elim_some]
        exact h.setSock rfl rfl
  | listen fd => exact h.same (udpSame_netStep w.net _ trivial)
  | connect fd sa => exact h.same (udpSame_netStep w.net _ trivial)
  | sendto fd buf len addr => exact h.same (udpSame_netStep w.net _ trivial)
  | segment payload srcIp dstIp => exact h.same (udpSame_netStep w.net _ trivial)
  | tick => exact h.same (udpSame_netStep w.net _ trivial)

end

/-! ## Reachability -/

/-- What fits is appended. -/
theorem Sock.receive_contents (s : Sock) (d : Datagram) (srcIp : U32) :
    (s.receive d srcIp).rx.contents = s.rx.contents ++ d.data.take s.rx.free := by
  have htake : d.data.take (min d.data.length (sockRxBufSize - 1 - s.rx.avail)) =
      d.data.take s.rx.free := by
    rw [take_eq_take_iff]
    show min (min d.data.length s.rx.free) d.data.length = min s.rx.free d.data.length
    omega
  show (s.rx.pushAll _).contents = _
  rw [htake, s.rx.contents_pushAll]
  rw [length_take]
  exact Nat.min_le_left _ _

/-- Every well-formed datagram to the port is appended to the socket's ring, up
to the free space. -/
def Reached (n : Net) (i : SockIdx) (port : U16) : Prop :=
  ∀ payload srcIp d, datagramAt payload = some d → d.dstPort = port →
    ((udpRx n payload srcIp).socks i).rx.contents =
      (n.socks i).rx.contents ++ d.data.take (n.socks i).rx.free

/-- A datagram with one byte of data. -/
def probe (port : U16) : Buffer where
  bytes := [0, 0] ++ store16 (htons port) ++ [0, 9, 0, 0, 0x41]
  short := by
    show 9 < 65536
    decide

theorem datagramAt_probe (port : U16) :
    datagramAt (probe port) = some { srcPort := 0, dstPort := port, data := [0x41] } := by
  have hport : ntohs (load16 (byteAt (htons port) 0) (byteAt (htons port) 1)) = port := by
    rw [load16_store16, ntohs_htons]
  have hlen : (probe port).bytes.length = 9 := rfl
  have hudp : (ntohs (load16 ((probe port).bytes.getD 4 0) ((probe port).bytes.getD 5 0))).toNat =
      9 := by
    show (ntohs (load16 0 9)).toNat = 9
    decide
  unfold datagramAt
  dsimp only
  rw [hlen, hudp, if_neg (by decide), if_neg (by decide)]
  show some ({ srcPort := ntohs (load16 0 0)
               dstPort := ntohs (load16 (byteAt (htons port) 0) (byteAt (htons port) 1))
               data := [0x41] } : Datagram) = _
  rw [hport]
  rfl

theorem BindsOk.portSock (h : BindsOk w) (hi : w.binds i = some (p, hs)) (hp : p ≠ 0) :
    portSock w.net.socks p = some i := by
  obtain ⟨htype, hport⟩ := h.sock i p hs hi
  cases hfound : Socket.portSock w.net.socks p with
  | none =>
    have hno := List.find?_eq_none.mp hfound i (mem_finRange i)
    simp [htype, hport] at hno
  | some j =>
    have hj := List.find?_some hfound
    simp only [decide_eq_true_eq] at hj
    rw [h.unique j i hj.1 htype (hj.2.trans hport.symm) (by rw [hj.2]; exact hp)]

/-- **A socket is reached exactly if the table leads to it**, or has no room. -/
theorem reached_iff {n : Net} (hi : portSock n.socks p = some i) :
    Reached n i p ↔ udpDispatch p n.udp none = some .udpSockRx ∨ (n.socks i).rx.free = 0 := by
  constructor
  · intro hreached
    by_cases hdispatch : udpDispatch p n.udp none = some .udpSockRx
    · exact .inl hdispatch
    · have hprobe := hreached (probe p) 0 _ (datagramAt_probe p) rfl
      rw [udpRx_eq, datagramAt_probe] at hprobe
      dsimp only [receiver] at hprobe
      rw [if_neg hdispatch, Option.elim_none] at hprobe
      right
      by_contra hfree
      obtain ⟨k, hk⟩ := Nat.exists_eq_succ_of_ne_zero hfree
      have hlen := congrArg List.length hprobe
      rw [hk, length_append] at hlen
      exact absurd hlen (by simp)
  · intro hcond payload srcIp d hd hport
    rw [udpRx_eq, hd]
    dsimp only [receiver]
    grind [Net.setSock_self, Sock.receive_contents]

/-- **Which bound sockets are reachable.**  After every run of system calls,
packets and ticks, whatever handlers other modules had registered at boot: a UDP
socket that was bound to a non-zero port, and not shut down or bound again since,
gets every well-formed datagram to the port, exactly if its `sys_bind` found a
handler table on which the registration takes effect, or its ring is full. -/
theorem bound_socket_reached (udp : List (U16 × UdpHandler)) (events : List NetEvent) {i : SockIdx}
    {p : U16} {hs : List (U16 × UdpHandler)}
    (hbind : (run BindWorld.step (BindWorld.boot udp) events).binds i = some (p, hs)) (hp : p ≠ 0) :
    Reached (run BindWorld.step (BindWorld.boot udp) events).net i p ↔
      Registers hs p ∨ ((run BindWorld.step (BindWorld.boot udp) events).net.socks i).rx.free = 0 := by
  have h : BindsOk (run BindWorld.step (BindWorld.boot udp) events) :=
    run_invariant BindsOk (fun w e hw _ => hw.step e) (bindsOk_boot udp)
      (stepsMeet_of_forall (fun _ _ => trivial) _)
  rw [reached_iff (h.portSock hbind hp), (h.handler i p hs hbind).2]
  rfl

/-! ## A table that has filled up -/

/-- An address with a port. -/
def portAddr (port : U16) : SockAddrIn := ⟨ofNat 16 afInet, htons port, 0⟩

/-- One UDP socket is bound to fifteen ports one after the other, and then to
port 2000; DHCP has the sixteenth entry. -/
def manyBinds : List NetEvent := [quietCall (.socket (ofNat 64 afInet) (ofNat 64 sockDgram))] ++
    (List.range 15).map (fun k => quietCall (.bind 64 (portAddr (ofNat 16 (1000 + k))))) ++
    [quietCall (.bind 64 (portAddr 2000))]

/-- **A bind that returns 0 and takes no effect.**  The last `sys_bind` of the
run returns 0, the ring is empty, and a datagram of one byte to port 2000 is
lost. -/
theorem full_table_drops :
    let w := run BindWorld.step (BindWorld.boot [(68, .dhcpRx)]) manyBinds
    let before := run BindWorld.step (BindWorld.boot [(68, .dhcpRx)]) manyBinds.dropLast
    (sysBind before.net 64 (portAddr 2000)).2 = 0 ∧
    (w.binds 0).map Prod.fst = some 2000 ∧
    (w.net.socks 0).rx.contents = [] ∧
    datagramAt (probe 2000) = some { srcPort := 0, dstPort := 2000, data := [0x41] } ∧
    ((udpRx w.net (probe 2000) 0).socks 0).rx.contents = [] := by
  decide +kernel

/-- The first of these binds takes effect. -/
theorem bound_socket_reached_first :
    (run BindWorld.step (BindWorld.boot [(68, .dhcpRx)]) (manyBinds.take 2)).binds 0 =
      some (1000, [(68, .dhcpRx)]) ∧
    Reached (run BindWorld.step (BindWorld.boot [(68, .dhcpRx)]) (manyBinds.take 2)).net 0 1000 := by
  have hbind : (run BindWorld.step (BindWorld.boot [(68, .dhcpRx)]) (manyBinds.take 2)).binds 0 =
      some (1000, [(68, .dhcpRx)]) := by decide +kernel
  exact ⟨hbind, (bound_socket_reached _ _ hbind (by decide)).mpr (.inl (by decide))⟩

end Socket
