import NamelessOS.Dhcp
import NamelessOS.Icmp
import NamelessOS.TcpPacket

/-!
# The receive path of a host

`ethernet_rx` with everything it calls: ARP, IPv4, ICMP, UDP with the socket
layer and the DHCP client, and TCP.  A frame is a byte string, and all of the
path works through pointers into it; the run faults on a read outside the
frame, on a store outside a receive ring and when the option parser would not
stop.  `ethernet_rx_never_faults` says that no frame makes it fault.

`Received` collects what a frame leads to: the state of the host, the frames
it sends in return and the handler calls of `udp_rx`.
-/

namespace NetStack

open ByteOrder Checked Ethernet Ipv4 Socket

/-- The static data of the network modules. -/
structure Host where
  link : Link
  net : Net
  dhcp : Dhcp.Client

/-- A datagram as a handler of `udp_rx` gets it. -/
structure Delivery where
  handler : UdpHandler
  data : List U8
  srcIp : U32
  srcPort : U16
  dstPort : U16
  deriving DecidableEq, Repr

/-- What comes of a frame. -/
structure Received where
  host : Host
  frames : List (List U8)
  deliveries : List Delivery

/-- Nothing. -/
def Received.dropped (h : Host) : Received := ⟨h, [], []⟩

/-- What TCP sees of the rest of the kernel; `tcp_rx` ignores the results of
`ipv4_send`. -/
def tcpEnv (env : Env) (l : Link) : Tcp.Env where
  ticks := env.ticks
  ourIp := l.ourIp
  kmallocOk := env.kmallocOk
  ipv4Ret := fun _ => 0

/-- The `ipv4_send` calls among the outputs of a TCP step. -/
def sendSegments (env : Env) : Link → List Tcp.Output → Link × List (List U8)
  | l, [] => (l, [])
  | l, .ipv4Send dstIp seg :: out =>
    let sent := ipv4Send env l dstIp ipprotoTcp seg (BitVec.ofNat 16 seg.length)
    let (l, frames) := sendSegments env sent.link out
    (l, sent.frames ++ frames)
  | l, _ :: out => sendSegments env l out

/-- `tcp_rx`. -/
def tcpRx (env : Env) (h : Host) (p : Ptr U8) (len : U16) (srcIp dstIp : U32) :
    Except Fault Received := do
  let (t, out) ← Tcp.tcpRxAt (tcpEnv env h.link) h.net.tcp p len srcIp dstIp
  let (link, frames) := sendSegments env h.link out
  .ok { host := { h with link := link, net := h.net.tcpDone t out }
        frames := frames, deliveries := [] }

/-- The handler call of `udp_rx`, with the frames the handler sends. -/
def deliver (env : Env) (h : Host) (c : Udp.UdpCall) : Except Fault (Host × List (List U8)) :=
  match c.handler with
  | .udpSockRx => do
      let socks ← Udp.udpSockRxAt h.net.socks c.data c.len c.srcIp c.srcPort c.dstPort
      .ok ({ h with net := { h.net with socks := socks } }, [])
  | .dhcpRx => do
      let (dhcp, link, frames) ← Dhcp.dhcpRx env h.dhcp h.link c.data c.len
      .ok ({ h with dhcp := dhcp, link := link }, frames)

/-- The datagram that a call passes. -/
def delivery (c : Udp.UdpCall) : Delivery where
  handler := c.handler
  data := c.data.view c.len.toNat
  srcIp := c.srcIp
  srcPort := c.srcPort
  dstPort := c.dstPort

/-- `udp_rx`. -/
def udpRx (env : Env) (h : Host) (p : Ptr U8) (len : U16) (srcIp : U32) :
    Except Fault Received := do
  match ← Udp.udpDemux h.net.udp p len srcIp with
  | none => .ok (.dropped h)
  | some c => do
      let (host, frames) ← deliver env h c
      .ok { host := host, frames := frames, deliveries := [delivery c] }

/-- `icmp_rx`. -/
def icmpRx (env : Env) (h : Host) (p : Ptr U8) (len : U16) (srcIp : U32) :
    Except Fault Received := do
  let (link, frames) ← Icmp.icmpRx env h.link p len srcIp
  .ok { host := { h with link := link }, frames := frames, deliveries := [] }

/-- `ipv4_rx`. -/
def ipv4Rx (env : Env) (h : Host) (p : Ptr U8) (len : U16) : Except Fault Received := do
  match ← ipv4Demux h.link p len with
  | none => .ok (.dropped h)
  | some c =>
    match c.handler with
    | .icmpRx => icmpRx env h c.payload c.len c.src
    | .udpRx => udpRx env h c.payload c.len c.src
    | .tcpRx => tcpRx env h c.payload c.len c.src c.dst

/-- `arp_rx`. -/
def arpRx (env : Env) (h : Host) (p : Ptr U8) (len : U16) : Except Fault Received := do
  let (arp, frames) ← Arp.arpRx env h.link.ourMac h.link.arp p len
  .ok { host := { h with link := { h.link with arp := arp } }
        frames := frames, deliveries := [] }

/-- `ethernet_rx` on a frame of a length that fits the `u16` it is passed
in. -/
def ethernetRx (env : Env) (h : Host) (frame : Tcp.Buffer) : Except Fault Received := do
  match ← ethernetDemux ⟨frame.bytes, 0⟩ (BitVec.ofNat 16 frame.bytes.length) with
  | none => .ok (.dropped h)
  | some (.arpRx, p, len) => arpRx env h p len
  | some (.ipv4Rx, p, len) => ipv4Rx env h p len

/-! ## No frame makes the path fault -/

section Safety

variable (env : Env) (h : Host) {p : Ptr U8} {len : U16}

theorem returns_tcpRx (srcIp dstIp : U32) (hp : p.Has len.toNat) :
    Returns (tcpRx env h p len srcIp dstIp) (fun _ => True) := by
  rw [tcpRx, Tcp.tcpRxAt_eq _ _ srcIp dstIp hp, ok_bind]
  exact .ok trivial

theorem returns_deliver {c : Udp.UdpCall} (hc : c.data.Has c.len.toNat) :
    Returns (deliver env h c) (fun _ => True) := by
  unfold deliver
  split
  · rw [Udp.udpSockRxAt_eq _ _ _ _ hc, ok_bind]
    exact .ok trivial
  · apply (Dhcp.returns_dhcpRx env h.dhcp h.link hc).bind
    intro r _
    exact .ok trivial

/-- A datagram for which `udp_rx` finds a handler is delivered once. -/
theorem returns_udpRx (srcIp : U32) (hp : p.Has len.toNat) :
    Returns (udpRx env h p len srcIp) (fun r => ∀ c,
      Udp.udpDemux h.net.udp p len srcIp = .ok (some c) → r.deliveries = [delivery c]) := by
  obtain ⟨found, hfound, hhas⟩ := Udp.returns_udpDemux h.net.udp srcIp hp
  grind [udpRx, ok_bind, Returns.ok, Returns.bind, returns_deliver]

theorem returns_icmpRx (srcIp : U32) (hp : p.Has len.toNat) :
    Returns (icmpRx env h p len srcIp) (fun _ => True) := by
  apply (Icmp.returns_icmpRx env h.link srcIp hp).bind
  intro r _
  exact .ok trivial

theorem returns_ipv4Rx (hp : p.Has len.toNat) : Returns (ipv4Rx env h p len) (fun _ => True) := by
  apply (returns_ipv4Demux h.link hp).bind
  intro found hhas
  cases found with
  | none => exact .ok trivial
  | some c =>
    have hc : c.payload.Has c.len.toNat := hhas c rfl
    dsimp only
    split
    · exact returns_icmpRx env h c.src hc
    · exact (returns_udpRx env h c.src hc).mono (fun _ _ => trivial)
    · exact returns_tcpRx env h c.src c.dst hc

theorem returns_arpRx (hp : p.Has len.toNat) : Returns (arpRx env h p len) (fun _ => True) := by
  apply (Arp.returns_arpRx env h.link.ourMac h.link.arp hp).bind
  intro r _
  exact .ok trivial

end Safety

/-- The pointer that `ethernet_rx` gets points to the whole frame. -/
theorem frame_has (frame : Tcp.Buffer) :
    Ptr.Has ⟨frame.bytes, 0⟩ (BitVec.ofNat 16 frame.bytes.length).toNat := by
  have hshort := frame.short
  rw [Ptr.Has, BitVec.toNat_ofNat, Nat.mod_eq_of_lt hshort, Nat.zero_add]

/-- **No frame drives the receive path out of bounds.**  For every frame and
every state of the host, `ethernet_rx` returns: each byte read from the packet
lies in the frame, each byte stored into a receive ring has an index below the
size of the ring, and the option parser stops. -/
theorem ethernet_rx_never_faults (env : Env) (h : Host) (frame : Tcp.Buffer) :
    ∃ r, ethernetRx env h frame = .ok r := by
  have hreturns : Returns (ethernetRx env h frame) (fun _ => True) := by
    apply (returns_ethernetDemux (frame_has frame)).bind
    intro found hhas
    cases found with
    | none => exact .ok trivial
    | some c =>
      grind [returns_arpRx, returns_ipv4Rx]
  obtain ⟨r, hr, _⟩ := hreturns
  exact ⟨r, hr⟩

end NetStack
