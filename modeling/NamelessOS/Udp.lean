import NamelessOS.Ipv4
import NamelessOS.SocketTable

/-!
# UDP datagrams

`net/udp/udp.c` below the socket layer: `udp_send` with its checksum over
pseudo-header, header and data, and the parsing half of `udp_rx`.  The handler
table and its dispatch loop are those of the socket layer.
-/

namespace Udp

open ByteOrder Checked Ethernet Ipv4 Socket
open BitVec (ofNat)

/-- `udp_hdr_t`; the fields are in network order. -/
structure UdpHdr where
  srcPort : U16
  dstPort : U16
  length : U16
  checksum : U16
  deriving DecidableEq, Repr

def UdpHdr.bytes (h : UdpHdr) : List U8 :=
  store16 h.srcPort ++ store16 h.dstPort ++ store16 h.length ++ store16 h.checksum

@[simp] theorem UdpHdr.bytes_length (h : UdpHdr) : h.bytes.length = udpHdrLen := rfl

/-- `csum_native`. -/
def csumNative (sum : U32) (buf : List U8) : U32 := nativeSum sum buf

/-- The 12 pseudo-header bytes that precede a datagram in its checksum. -/
def pseudoHeader (srcIp dstIp : U32) (udpLen : U16) : List U8 :=
  [byteAt srcIp 3, byteAt srcIp 2, byteAt srcIp 1, byteAt srcIp 0,
   byteAt dstIp 3, byteAt dstIp 2, byteAt dstIp 1, byteAt dstIp 0,
   0, ipprotoUdp, byteAt udpLen 1, byteAt udpLen 0]

/-- The accumulator of `udp_checksum` before the carries are folded. -/
def udpSum (srcIp dstIp : U32) (hdr : UdpHdr) (data : List U8) : U32 :=
  let udpLen := ofNat 16 (udpHdrLen + data.length)
  let sum := csumNative 0 (pseudoHeader srcIp dstIp udpLen)
  let sum := csumNative sum hdr.bytes
  csumNative sum data

/-- `udp_checksum`. -/
def udpChecksum (srcIp dstIp : U32) (hdr : UdpHdr) (data : List U8) : U16 :=
  Tcp.csumFinish (udpSum srcIp dstIp hdr data)

/-- The header of a datagram, with a zero checksum field. -/
def udpHdr (srcPort dstPort total : U16) : UdpHdr where
  srcPort := htons srcPort
  dstPort := htons dstPort
  length := htons total
  checksum := 0

/-- The header with its checksum filled in. -/
def finishedHdr (l : Link) (dstIp : U32) (srcPort dstPort : U16) (data : List U8) : UdpHdr :=
  let hdr := udpHdr srcPort dstPort (ofNat 16 (udpHdrLen + data.length))
  { hdr with checksum := udpChecksum l.ourIp dstIp hdr data }

/-- `udp_send`.  The total length is a `u16`; that many bytes of header and
data are sent. -/
def udpSend (env : Env) (l : Link) (dstIp : U32) (srcPort dstPort : U16)
    (data : Tcp.Buffer) : Sent :=
  let total := ofNat 16 (udpHdrLen + data.bytes.length)
  if !env.kmalloc total.toNat then { link := l, frames := [], ret := -1 }
  else
    ipv4Send env l dstIp ipprotoUdp
      ((finishedHdr l dstIp srcPort dstPort data.bytes).bytes ++ data.bytes) total

/-- A handler call of `udp_rx`. -/
structure UdpCall where
  handler : UdpHandler
  data : Ptr U8
  len : U16
  srcIp : U32
  srcPort : U16
  dstPort : U16

/-- `udp_rx` up to the handler call. -/
def udpDemux (handlers : List (U16 × UdpHandler)) (p : Ptr U8) (len : U16) (srcIp : U32) :
    Except Fault (Option UdpCall) :=
  if len.toNat < udpHdrLen then .ok none
  else do
    let srcPort := ntohs (← p.load16 0)
    let dstPort := ntohs (← p.load16 2)
    let udpLen := ntohs (← p.load16 4)
    if udpLen.toNat < udpHdrLen ∨ len.toNat < udpLen.toNat then .ok none
    else
      match udpDispatch dstPort handlers none with
      | none => .ok none
      | some h => .ok (some
          { handler := h
            data := p.add udpHdrLen
            len := udpLen - ofNat 16 udpHdrLen
            srcIp := srcIp
            srcPort := srcPort
            dstPort := dstPort })

/-- Every read of `udp_rx` lies inside the datagram, and a handler gets a
pointer to all of the length it is told. -/
theorem returns_udpDemux (handlers : List (U16 × UdpHandler)) {p : Ptr U8} {len : U16}
    (srcIp : U32) (h : p.Has len.toNat) :
    Returns (udpDemux handlers p len srcIp) (fun r => ∀ c ∈ r, c.data.Has c.len.toNat) := by
  apply Returns.early (by simp)
  intro hlen
  have h8 : p.Has 8 := h.mono (Nat.le_of_not_lt hlen)
  apply (h8.returns_load16 (by decide)).bind
  intro srcPort _
  apply (h8.returns_load16 (by decide)).bind
  intro dstPort _
  apply (h8.returns_load16 (by decide)).bind
  intro udpLen _
  apply Returns.early (by simp)
  intro hudp
  split
  · exact .ok (by simp)
  · apply Returns.ok
    rintro _ ⟨⟩
    rw [sub_toNat (by omega)]
    exact Ptr.Has.add (h.mono (by omega))

/-- `udp_sock_rx`: the copy into the ring reads from the datagram. -/
def udpSockRxAt (socks : SockIdx → Sock) (data : Ptr U8) (len : U16) (srcIp : U32)
    (srcPort dstPort : U16) : Except Fault (SockIdx → Sock) :=
  match (List.finRange sockMax).find? (fun i =>
      (socks i).type = .udp ∧ (socks i).boundPort = dstPort) with
  | none => .ok socks
  | some i => do
      let s := socks i
      let free := sockRxBufSize - 1 - s.rx.avail
      let rx ← pushFrom s.rx data (min len.toNat free)
      .ok (Function.update socks i { s with peerIp := srcIp, peerPort := srcPort, rx := rx })

/-- On a pointer to the whole datagram the checked function computes what
`udpSockRx` computes from the bytes. -/
theorem udpSockRxAt_eq (socks : SockIdx → Sock) {data : Ptr U8} {len : U16} (srcIp : U32)
    (srcPort dstPort : U16) (h : data.Has len.toNat) :
    udpSockRxAt socks data len srcIp srcPort dstPort =
      .ok (udpSockRx socks (data.view len.toNat) srcIp srcPort dstPort) := by
  unfold udpSockRxAt udpSockRx
  grind [pushFrom_of_has, Ptr.Has.mono, ok_bind, Ptr.view_take]

end Udp
