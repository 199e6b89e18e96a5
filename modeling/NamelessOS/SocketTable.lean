import NamelessOS.TcpTable

/-!
# The socket layer

`net/socket/socket.c`: sixteen sockets over the TCP table and the UDP handler
table, with the eight system calls, the two callbacks that TCP and UDP make
into the layer, and `udp_rx` as far as it decides which handler runs.  A
system call gets the user memory it reads as an argument (`SockAddrIn` for an
address, a function from offsets for a buffer) and returns the memory it
writes beside its result.

TCP's calls to `on_close` are outputs of the TCP step; `closeSockets` feeds
them to `tcp_sock_close` in order.  `tcp_sock_data` changes nothing.
-/

namespace Socket

open ByteOrder Tcp
open BitVec (ofNat)
open Function (update)

abbrev sockMax : Nat := 16
abbrev sockFdBase : Nat := 64
abbrev sockRxBufSize : Nat := 2048

def afInet : Nat := 2
def sockStream : Nat := 1
def sockDgram : Nat := 2

def eAgain : Nat := 11
def eNoMem : Nat := 12
def eInval : Nat := 22
def eNotSock : Nat := 88
def eProtoNoSupport : Nat := 93
def eOpNotSupp : Nat := 95
def eAfNoSupport : Nat := 97
def eAddrInUse : Nat := 98
def eIsConn : Nat := 106
def eNotConn : Nat := 107

def udpHdrLen : Nat := 8
def udpMaxHandlers : Nat := 16

/-- `(u64)(i64)(-e)`. -/
def err (e : Nat) : U64 := BitVec.ofInt 64 (-(e : Int))

/-- `sock_type_t`. -/
inductive SockType
  | free | tcp | udp
  deriving DecidableEq, Repr

/-- An index into the socket table. -/
abbrev SockIdx := Fin sockMax

/-- `sock_t`; a negative `conn_id` is `none`. -/
structure Sock where
  type : SockType
  connId : Option ConnIdx
  boundPort : U16
  peerIp : U32
  peerPort : U16
  rx : RingBuffer U8 sockRxBufSize

/-- The fields of `sockaddr_in_t` that are used, as they lie in memory. -/
structure SockAddrIn where
  sinFamily : U16
  sinPort : U16
  sinAddr : U32
  deriving DecidableEq, Repr

/-- The functions that are ever given to `udp_register`. -/
inductive UdpHandler
  | udpSockRx | dhcpRx
  deriving DecidableEq, Repr

/-- The static data of `tcp.c`, `socket.c` and `udp.c`; `udp` holds the first
`handler_count` handlers. -/
structure Net where
  tcp : Table
  socks : SockIdx → Sock
  udp : List (U16 × UdpHandler)

/-- Replace one socket. -/
def Net.setSock (n : Net) (i : SockIdx) (s : Sock) : Net :=
  { n with socks := update n.socks i s }

def bssSock : Sock where
  type := .free
  connId := none
  boundPort := 0
  peerIp := 0
  peerPort := 0
  rx := { buf := fun _ => 0, head := 0, tail := 0 }

/-- After the network modules have been initialised. -/
def initNet (udp : List (U16 × UdpHandler)) : Net where
  tcp := initTable
  socks := fun _ => bssSock
  udp := udp

/-- `fd_to_idx((int)fd)`. -/
def fdToIdx (fd : U64) : Option SockIdx :=
  let idx := (fd.setWidth 32).toInt - sockFdBase
  if h : 0 ≤ idx ∧ idx < sockMax then some ⟨idx.toNat, by omega⟩ else none

/-- `(u64)(SOCK_FD_BASE + idx)`. -/
def fdOf (i : SockIdx) : U64 := ofNat 64 (sockFdBase + i.val)

/-- `alloc_sock`: the first free socket. -/
def allocSock (socks : SockIdx → Sock) : Option SockIdx :=
  (List.finRange sockMax).find? (fun i => (socks i).type = .free)

/-! ## Callbacks -/

/-- `tcp_sock_close`: the first TCP socket of the connection loses it. -/
def tcpSockClose (socks : SockIdx → Sock) (id : ConnIdx) : SockIdx → Sock :=
  match (List.finRange sockMax).find? (fun i =>
      (socks i).type = .tcp ∧ (socks i).connId = some id) with
  | none => socks
  | some i => update socks i { socks i with connId := none }

/-- The `on_close` calls among the outputs of a TCP step. -/
def closeSockets : List Output → (SockIdx → Sock) → SockIdx → Sock
  | [], socks => socks
  | .onClose .tcpSockClose id :: out, socks => closeSockets out (tcpSockClose socks id)
  | _ :: out, socks => closeSockets out socks

/-- Install the outcome of a TCP call. -/
def Net.tcpDone (n : Net) (t : Table) (out : List Output) : Net :=
  { n with tcp := t, socks := closeSockets out n.socks }

/-- `udp_sock_rx`: the first UDP socket bound to the port takes what fits. -/
def udpSockRx (socks : SockIdx → Sock) (data : List U8) (srcIp : U32)
    (srcPort dstPort : U16) : SockIdx → Sock :=
  match (List.finRange sockMax).find? (fun i =>
      (socks i).type = .udp ∧ (socks i).boundPort = dstPort) with
  | none => socks
  | some i =>
    let s := socks i
    let free := sockRxBufSize - 1 - s.rx.avail
    update socks i
      { s with peerIp := srcIp, peerPort := srcPort
               rx := s.rx.pushAll (data.take (min data.length free)) }

/-- The dispatch loop of `udp_rx`: the first handler of the port, else the
last catch-all. -/
def udpDispatch (port : U16) : List (U16 × UdpHandler) → Option UdpHandler → Option UdpHandler
  | [], catchAll => catchAll
  | (p, h) :: hs, catchAll =>
    if p = port then some h
    else udpDispatch port hs (if p = 0 then some h else catchAll)

/-- `udp_rx`; what `dhcp_rx` does with its message is outside this layer. -/
def udpRx (n : Net) (payload : Buffer) (srcIp : U32) : Net :=
  let p := payload.bytes
  if p.length < udpHdrLen then n
  else
    let srcPort := ntohs (load16 (p.getD 0 0) (p.getD 1 0))
    let dstPort := ntohs (load16 (p.getD 2 0) (p.getD 3 0))
    let udpLen := (ntohs (load16 (p.getD 4 0) (p.getD 5 0))).toNat
    if udpLen < udpHdrLen ∨ p.length < udpLen then n
    else
      let data := (p.drop udpHdrLen).take (udpLen - udpHdrLen)
      match udpDispatch dstPort n.udp none with
      | some .udpSockRx =>
        { n with socks := udpSockRx n.socks data srcIp srcPort dstPort }
      | _ => n

/-- `udp_register`. -/
def udpRegister (hs : List (U16 × UdpHandler)) (port : U16) (h : UdpHandler) :
    List (U16 × UdpHandler) :=
  if udpMaxHandlers ≤ hs.length then hs else hs ++ [(port, h)]

/-! ## System calls -/

/-- `sys_socket`. -/
def sysSocket (n : Net) (domain type : U64) : Net × U64 :=
  if domain ≠ ofNat 64 afInet then (n, err eAfNoSupport)
  else if type ≠ ofNat 64 sockStream ∧ type ≠ ofNat 64 sockDgram then
    (n, err eProtoNoSupport)
  else
    match allocSock n.socks with
    | none => (n, err eNoMem)
    | some i =>
      let s := n.socks i
      (n.setSock i
        { type := if type = ofNat 64 sockStream then .tcp else .udp
          connId := none, boundPort := 0, peerIp := 0, peerPort := 0
          rx := { s.rx with head := 0, tail := 0 } },
        fdOf i)

/-- `sys_bind`. -/
def sysBind (n : Net) (fd : U64) (sa : SockAddrIn) : Net × U64 :=
  match fdToIdx fd with
  | none => (n, err eNotSock)
  | some i =>
    let s := n.socks i
    if s.type = .free then (n, err eNotSock)
    else if sa.sinFamily ≠ ofNat 16 afInet then (n, err eAfNoSupport)
    else
      let port := ntohs sa.sinPort
      if (List.finRange sockMax).any (fun j =>
          j ≠ i && (n.socks j).type ≠ .free && (n.socks j).boundPort = port) then
        (n, err eAddrInUse)
      else
        let n := n.setSock i { s with boundPort := port }
        if s.type = .udp then
          ({ n with udp := udpRegister n.udp port .udpSockRx }, 0)
        else (n, 0)

/-- `sys_listen`. -/
def sysListen (env : Env) (n : Net) (fd : U64) : Net × U64 :=
  match fdToIdx fd with
  | none => (n, err eNotSock)
  | some i =>
    let s := n.socks i
    if s.type ≠ .tcp then (n, err eOpNotSupp)
    else if s.boundPort = 0 then (n, err eInval)
    else
      match tcpListen env n.tcp s.boundPort (some .tcpSockData) (some .tcpSockClose) with
      | (t, none) => ({ n with tcp := t }, err eInval)
      | (t, some id) =>
        ({ n with tcp := t }.setSock i { s with connId := some id }, 0)

/-- The address `sys_accept` and `sys_recvfrom` write. -/
def sockAddr (ip : U32) (port : U16) : SockAddrIn where
  sinFamily := ofNat 16 afInet
  sinPort := htons port
  sinAddr := htonl ip

/-- `sys_accept`; the third component is the connection handed out, with the
peer address that is written when the caller wants one. -/
def sysAccept (n : Net) (fd : U64) : Net × U64 × Option (ConnIdx × SockAddrIn) :=
  match fdToIdx fd with
  | none => (n, err eNotSock, none)
  | some i =>
    let s := n.socks i
    if s.type ≠ .tcp then (n, err eOpNotSupp, none)
    else
      match tcpAccept n.tcp s.boundPort with
      | (t, none) => ({ n with tcp := t }, err eAgain, none)
      | (t, some found) =>
        match allocSock n.socks with
        | none => ({ n with tcp := t }, err eNoMem, none)
        | some ni =>
          let ns := n.socks ni
          ({ n with tcp := t }.setSock ni
            { ns with type := .tcp, connId := some found, boundPort := s.boundPort
                      rx := { ns.rx with head := 0, tail := 0 } },
            fdOf ni,
            some (found, sockAddr (t.conns found).remoteIp (t.conns found).remotePort))

/-- `sys_connect`; the third component is the connection opened. -/
def sysConnect (env : Env) (n : Net) (fd : U64) (sa : SockAddrIn) : Net × U64 × Option ConnIdx :=
  match fdToIdx fd with
  | none => (n, err eNotSock, none)
  | some i =>
    let s := n.socks i
    if s.type ≠ .tcp then (n, err eOpNotSupp, none)
    else if s.connId.isSome then (n, err eIsConn, none)
    else
      let srcPort := if s.boundPort ≠ 0 then s.boundPort
        else ofNat 16 49152 + fd.setWidth 16
      match tcpConnect env n.tcp (ntohl sa.sinAddr) (ntohs sa.sinPort) srcPort
          (some .tcpSockData) (some .tcpSockClose) with
      | (t, out, none) => (n.tcpDone t out, err eInval, none)
      | (t, out, some id) =>
        let n := n.tcpDone t out
        (n.setSock i { n.socks i with connId := some id }, 0, some id)

/-- The local port, remote address and remote port that `sys_connect` hands to
`tcp_connect`. -/
def dialed (s : Sock) (fd : U64) (sa : SockAddrIn) : U16 × U32 × U16 :=
  (if s.boundPort ≠ 0 then s.boundPort else ofNat 16 49152 + fd.setWidth 16,
    ntohl sa.sinAddr, ntohs sa.sinPort)

/-- The `(u16)len` bytes at a user address. -/
def userBytes (buf : Nat → U8) (len : U64) : Buffer where
  bytes := (List.range (len.setWidth 16).toNat).map buf
  short := by
    rw [List.length_map, List.length_range]
    exact (len.setWidth 16).isLt

/-- `sys_sendto`; `udpRet` is what `udp_send` returns for the datagram. -/
def sysSendto (env : Env) (udpRet : U32 → U16 → U16 → List U8 → Int) (n : Net)
    (fd : U64) (buf : Nat → U8) (len : U64) (addr : Option SockAddrIn) : Net × U64 :=
  match fdToIdx fd with
  | none => (n, err eNotSock)
  | some i =>
    let s := n.socks i
    match s.type with
    | .tcp =>
      match s.connId with
      | none => (n, err eNotConn)
      | some id =>
        let (t, out, ret) := tcpSend env n.tcp id.val (userBytes buf len)
        (n.tcpDone t out, if ret < 0 then err eInval else len)
    | .udp =>
      let dst : Option (U32 × U16) :=
        match addr with
        | some sa => some (ntohl sa.sinAddr, ntohs sa.sinPort)
        | none => if s.peerIp ≠ 0 then some (s.peerIp, s.peerPort) else none
      match dst with
      | none => (n, err eNotConn)
      | some (ip, port) =>
        (n, if udpRet ip s.boundPort port (userBytes buf len).bytes < 0
          then err eInval else len)
    | .free => (n, err eNotSock)

/-- `sys_recvfrom`: the result, the bytes written to the buffer and the
address written when the caller wants one. -/
def sysRecvfrom (n : Net) (fd : U64) (len : U64) : Net × U64 × List U8 × Option SockAddrIn :=
  match fdToIdx fd with
  | none => (n, err eNotSock, [], none)
  | some i =>
    let s := n.socks i
    match s.type with
    | .tcp =>
      match s.connId with
      | none => (n, err eNotConn, [], none)
      | some id =>
        let (t, bytes) := tcpRead n.tcp id.val (len.setWidth 16)
        ({ n with tcp := t },
          if bytes.length = 0 then err eAgain else ofNat 64 bytes.length,
          bytes, none)
    | .udp =>
      let avail := s.rx.avail
      if avail = 0 then (n, err eAgain, [], none)
      else
        let (bytes, rx) := s.rx.popN (min avail (len.setWidth 16).toNat)
        (n.setSock i { s with rx := rx }, ofNat 64 bytes.length, bytes,
          some (sockAddr s.peerIp s.peerPort))
    | .free => (n, err eNotSock, [], none)

/-- `sys_shutdown`. -/
def sysShutdown (n : Net) (fd : U64) : Net × U64 :=
  match fdToIdx fd with
  | none => (n, err eNotSock)
  | some i =>
    let s := n.socks i
    let n :=
      match s.type, s.connId with
      | .tcp, some id =>
        let (t, out, _) := tcpClose n.tcp id.val
        n.tcpDone t out
      | _, _ => n
    (n.setSock i { n.socks i with type := .free, connId := none }, 0)

/-! ## Runs -/

/-- The ways into the layer: system calls, packets and the timer. -/
inductive SysCall
  | socket (domain type : U64)
  | bind (fd : U64) (sa : SockAddrIn)
  | listen (fd : U64)
  | accept (fd : U64)
  | connect (fd : U64) (sa : SockAddrIn)
  | sendto (fd : U64) (buf : Nat → U8) (len : U64) (addr : Option SockAddrIn)
  | recvfrom (fd len : U64)
  | shutdown (fd : U64)
  | segment (payload : Buffer) (srcIp dstIp : U32)
  | datagram (payload : Buffer) (srcIp : U32)
  | tick

/-- One call and what the kernel answers during it. -/
structure NetEvent where
  env : Env
  udpRet : U32 → U16 → U16 → List U8 → Int
  call : SysCall

/-- The state after one call. -/
def netStep (n : Net) (e : NetEvent) : Net :=
  match e.call with
  | .socket domain type => (sysSocket n domain type).1
  | .bind fd sa => (sysBind n fd sa).1
  | .listen fd => (sysListen e.env n fd).1
  | .accept fd => (sysAccept n fd).1
  | .connect fd sa => (sysConnect e.env n fd sa).1
  | .sendto fd buf len addr => (sysSendto e.env e.udpRet n fd buf len addr).1
  | .recvfrom fd len => (sysRecvfrom n fd len).1
  | .shutdown fd => (sysShutdown n fd).1
  | .segment payload srcIp dstIp =>
    let (t, out) := tcpRx e.env n.tcp payload srcIp dstIp
    n.tcpDone t out
  | .datagram payload srcIp => udpRx n payload srcIp
  | .tick =>
    let (t, out) := tcpTick e.env n.tcp
    n.tcpDone t out

end Socket
