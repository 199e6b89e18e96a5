import NamelessOS.NetStack

/-!
# A datagram from one host to another

`udp_send` wraps its data in three headers and `ethernet_rx` takes them off
again.  Each parser gets one lemma: on memory that holds the header its
counterpart builds, it passes on the payload with the fields the sender put
in.  The length fields are exact, so bytes that the link appends after the
packet are never delivered.
-/

namespace NetStack

open ByteOrder Checked Ethernet Ipv4 Socket List
open BitVec (eq_of_toNat_eq ofNat toNat_ofNat)
open Nat (mod_eq_of_lt)

variable {handlers : List (U16 × UdpHandler)}

theorem udpDispatch_of_lookup {port : U16}
    {h : UdpHandler} (hfind : handlers.lookup port = some h) (catchAll : Option UdpHandler) :
    udpDispatch port handlers catchAll = some h := by
  induction handlers generalizing catchAll with
  | nil => cases hfind
  | cons entry rest ih =>
    obtain ⟨p, g⟩ := entry
    by_cases hp : p = port
    · subst hp
      rw [lookup_cons_self] at hfind
      rw [udpDispatch, if_pos rfl, hfind]
    · rw [lookup_cons, beq_false_of_ne (Ne.symm hp)] at hfind
      rw [udpDispatch, if_neg hp]
      exact ih hfind _

variable {payload data : List U8}

/-- `ethernet_rx` hands the payload of an IPv4 frame to `ipv4_rx`. -/
theorem ethernetDemux_frame {hdr : EthHdr}
    (htype : hdr.type = htons ethertypeIpv4) (hlen : (hdr.bytes ++ payload).length < 65536) :
    ethernetDemux ⟨hdr.bytes ++ payload, 0⟩ (ofNat 16 (hdr.bytes ++ payload).length) =
      .ok (some (.ipv4Rx, ⟨hdr.bytes ++ payload, ethHeaderLen⟩,
        ofNat 16 payload.length)) := by
  have hbytes : (hdr.bytes ++ payload).length = ethHeaderLen + payload.length := by
    rw [length_append, EthHdr.bytes_length]
  have hmod : (ofNat 16 (hdr.bytes ++ payload).length).toNat
      = ethHeaderLen + payload.length := by
    rw [toNat_ofNat, mod_eq_of_lt hlen, hbytes]
  have hload := (Ptr.holds_start (hdr.bytes ++ payload)).load16_eq (i := 12)
    (by rw [hbytes, ethHeaderLen]; omega)
  have hether : ntohs (ByteOrder.load16 ((hdr.bytes ++ payload).getD 12 0)
      ((hdr.bytes ++ payload).getD 13 0)) = ethertypeIpv4 := by
    have h := etherType_bytes_append hdr payload
    rw [htype, ntohs_htons] at h
    exact h
  have hsub : ofNat 16 (hdr.bytes ++ payload).length - ofNat 16 ethHeaderLen
      = ofNat 16 payload.length := by
    apply eq_of_toNat_eq
    rw [sub_toNat (by omega), hmod, toNat_ofNat, mod_eq_of_lt (by omega)]
    omega
  rw [ethernetDemux, if_neg (by omega), hload, ok_bind, hether, hsub]
  rfl

variable {len srcPort dstPort : U16} {l : Link} {dstIp : U32} {p : Ptr U8}

/-- `ipv4_rx` passes on exactly the payload of a packet that `ipv4_send`
built, however much follows it. -/
theorem ipv4Demux_packet {b : Link} {proto : U8} {avail : U16}
    {handler : IpHandler} (hhdr : p.Holds (ipHdr l dstIp proto len).finish.bytes)
    (hlen : len.toNat ≤ 1500 - ipHdrLen) (hfit : ipHdrLen + len.toNat ≤ avail.toNat)
    (hacc : b.Accepts dstIp) (hproto : ipHandlers.lookup proto = some handler) :
    ipv4Demux b p avail = .ok (some
      { handler := handler, payload := p.add ipHdrLen, len := len,
        src := l.ourIp, dst := dstIp }) := by
  have h20 : (ipHdr l dstIp proto len).finish.bytes.length = 20 := rfl
  have hver : p.read 0 = .ok ipVerIhl := hhdr.read_eq (by omega) 0
  have hprotoRead : p.read 9 = .ok proto := hhdr.read_eq (by omega) 0
  have htotal : p.load16 2 = .ok (htons (ofNat 16 (ipHdrLen + len.toNat))) :=
    (hhdr.load16_eq (by omega)).trans (congrArg _ (load16_store16 _))
  have hfrag : p.load16 6 = .ok (htons ipFlagDf) :=
    (hhdr.load16_eq (by omega)).trans (congrArg _ (load16_store16 _))
  have hsrc : p.load32 12 = .ok (htonl l.ourIp) :=
    (hhdr.load32_eq (by omega)).trans (congrArg _ (load32_store32 _))
  have hdst : p.load32 16 = .ok (htonl dstIp) :=
    (hhdr.load32_eq (by omega)).trans (congrArg _ (load32_store32 _))
  have hihl : ((ipVerIhl &&& 0x0F) * 4 : U8).toNat = ipHdrLen := rfl
  have hsub : ofNat 16 (ipHdrLen + len.toNat) - ofNat 16 ipHdrLen = len := by
    apply eq_of_toNat_eq
    rw [sub_toNat (by rw [totalLen_toNat hlen]; omega), totalLen_toNat hlen]
    omega
  rw [ipv4Demux, if_neg (by omega), hver, ok_bind, if_neg (by decide)]
  dsimp only
  rw [hihl, if_neg (by omega), htotal, ok_bind, ntohs_htons, totalLen_toNat hlen,
    if_neg (by omega), hfrag, ok_bind, ntohs_htons, if_neg (by decide), if_neg (by decide),
    hsrc, ok_bind, ntohl_htonl, hdst, ok_bind, ntohl_htonl, if_neg (not_not.mpr hacc),
    hprotoRead, ok_bind, hproto, hsub]

variable {handler : UdpHandler}

/-- `udp_rx` passes on exactly the data of a datagram that `udp_send`
built. -/
theorem udpDemux_datagram (srcIp : U32)
    (hhdr : p.Holds (Udp.finishedHdr l dstIp srcPort dstPort data).bytes)
    (hlen : len.toNat = udpHdrLen + data.length) (hfind : handlers.lookup dstPort = some handler) :
    Udp.udpDemux handlers p len srcIp = .ok (some
      { handler := handler, data := p.add udpHdrLen, len := ofNat 16 data.length,
        srcIp := srcIp, srcPort := srcPort, dstPort := dstPort }) := by
  have h8 : (Udp.finishedHdr l dstIp srcPort dstPort data).bytes.length = 8 := rfl
  have htot : ofNat 16 (udpHdrLen + data.length) = len := by
    rw [← hlen, BitVec.ofNat_toNat, BitVec.setWidth_eq]
  have hsrc : p.load16 0 = .ok (htons srcPort) :=
    (hhdr.load16_eq (by omega)).trans (congrArg _ (load16_store16 _))
  have hdst : p.load16 2 = .ok (htons dstPort) :=
    (hhdr.load16_eq (by omega)).trans (congrArg _ (load16_store16 _))
  have hudp : p.load16 4 = .ok (htons len) := by
    rw [← htot]
    exact (hhdr.load16_eq (by omega)).trans (congrArg _ (load16_store16 _))
  have hsub : len - ofNat 16 udpHdrLen = ofNat 16 data.length := by
    apply eq_of_toNat_eq
    rw [sub_toNat (by omega), hlen, toNat_ofNat, mod_eq_of_lt (by omega)]
    omega
  grind [Udp.udpDemux, ok_bind, ntohs_htons, udpDispatch_of_lookup]

theorem udpRx_datagram (env : Env) (b : Host) {srcIp : U32}
    (hmem : p.Holds ((Udp.finishedHdr l dstIp srcPort dstPort data).bytes ++ data))
    (hlen : len.toNat = udpHdrLen + data.length) (hfind : b.net.udp.lookup dstPort = some handler) :
    ∃ r, udpRx env b p len srcIp = .ok r ∧
      r.deliveries = [{ handler := handler, data := data, srcIp := srcIp,
                        srcPort := srcPort, dstPort := dstPort }] := by
  have hp : p.Has len.toNat := hmem.has.mono (by simp [hlen])
  have hdemux := udpDemux_datagram srcIp hmem.append_left hlen hfind
  have hdata : (p.add udpHdrLen).view (ofNat 16 data.length).toNat = data := by
    rw [toNat_ofNat, mod_eq_of_lt (by omega)]
    exact hmem.append_right.view_eq
  obtain ⟨r, hr, hdeliv⟩ := returns_udpRx env b srcIp hp
  refine ⟨r, hr, ?_⟩
  rw [hdeliv _ hdemux, delivery]
  rw [hdata]

/-- A packet in memory reaches `udp_rx`. -/
theorem ipv4Rx_packet (env : Env) (b : Host) {avail : U16} (hhdr : p.Holds (ipHdr l dstIp ipprotoUdp len).finish.bytes)
    (hlen : len.toNat ≤ 1500 - ipHdrLen) (hfit : ipHdrLen + len.toNat ≤ avail.toNat)
    (hacc : b.link.Accepts dstIp) :
    ipv4Rx env b p avail = udpRx env b (p.add ipHdrLen) len l.ourIp := by
  have hproto : ipHandlers.lookup ipprotoUdp = some .udpRx := rfl
  rw [ipv4Rx, ipv4Demux_packet hhdr hlen hfit hacc hproto, ok_bind]

/-- An IPv4 frame reaches `ipv4_rx`. -/
theorem ethernetRx_frame (env : Env) (b : Host) {hdr : EthHdr}
    {frame : Tcp.Buffer} (htype : hdr.type = htons ethertypeIpv4)
    (hbytes : frame.bytes = hdr.bytes ++ payload) : ethernetRx env b frame =
      ipv4Rx env b ⟨frame.bytes, ethHeaderLen⟩ (ofNat 16 payload.length) := by
  have hshort := frame.short
  rw [hbytes] at hshort
  rw [ethernetRx, hbytes, ethernetDemux_frame htype hshort, ok_bind]

/-- A frame of `udp_send` with a resolved next hop: three headers and the
data. -/
theorem udpSend_frame {env : Env}
    {data : Tcp.Buffer} {frame : List U8} (hdata : data.bytes.length ≤ 1472)
    (hres : (l.resolve dstIp).isSome)
    (h : frame ∈ (Udp.udpSend env l dstIp srcPort dstPort data).frames) :
    ∃ mac, frame = (EthHdr.mk mac l.ourMac (htons ethertypeIpv4)).bytes ++
      ((ipHdr l dstIp ipprotoUdp
          (ofNat 16 (udpHdrLen + data.bytes.length))).finish.bytes ++
        ((Udp.finishedHdr l dstIp srcPort dstPort data.bytes).bytes ++ data.bytes)) := by
  have htotal : (ofNat 16 (udpHdrLen + data.bytes.length)).toNat
      = udpHdrLen + data.bytes.length := by
    rw [toNat_ofNat, mod_eq_of_lt (by rw [udpHdrLen]; omega)]
  unfold Udp.udpSend at h
  dsimp only at h
  split at h
  · simp at h
  · rcases mem_ipv4Send h with ⟨_, hnone⟩ | ⟨_, mac, _, rfl⟩
    · rw [hnone] at hres
      cases hres
    · refine ⟨mac, ?_⟩
      rw [ipPacket, htotal, take_of_length_le (by simp)]

/-- **Datagram round trip.**  If `udp_send` on host `a` gives a frame to the
driver, the next hop being resolved, and that frame, with any bytes appended
by the link, reaches `ethernet_rx` of a host `b` that accepts the destination,
then the first handler `b` has registered for the port is called once, with
the data, the address of `a` and the two ports. -/
theorem udp_round_trip (env env' : Env) (a b : Host) (dstIp : U32) (srcPort dstPort : U16)
    (data : Tcp.Buffer) (frame padding : List U8) (handler : UdpHandler)
    (hdata : data.bytes.length ≤ 1472) (hres : (a.link.resolve dstIp).isSome)
    (hsent : frame ∈ (Udp.udpSend env a.link dstIp srcPort dstPort data).frames)
    (hlen : (frame ++ padding).length < 65536) (hacc : b.link.Accepts dstIp)
    (hfind : b.net.udp.lookup dstPort = some handler) :
    ∃ r, ethernetRx env' b ⟨frame ++ padding, hlen⟩ = .ok r ∧
      r.deliveries = [{ handler := handler, data := data.bytes, srcIp := a.link.ourIp,
                        srcPort := srcPort, dstPort := dstPort }] := by
  obtain ⟨mac, rfl⟩ := udpSend_frame hdata hres hsent
  generalize htot : ofNat 16 (udpHdrLen + data.bytes.length) = total at hlen ⊢
  generalize heth : EthHdr.mk mac a.link.ourMac (htons ethertypeIpv4) = eth at hlen ⊢
  have htype : eth.type = htons ethertypeIpv4 := by rw [← heth]
  have htotal : total.toNat = udpHdrLen + data.bytes.length := by
    rw [← htot, toNat_ofNat, mod_eq_of_lt (by rw [udpHdrLen]; omega)]
  have hmax : total.toNat ≤ 1500 - ipHdrLen := by
    rw [htotal, udpHdrLen, ipHdrLen]
    omega
  -- what lies in memory after the Ethernet header
  obtain ⟨packet, hpacket⟩ : ∃ packet, packet =
    (ipHdr a.link dstIp ipprotoUdp total).finish.bytes ++
      (((Udp.finishedHdr a.link dstIp srcPort dstPort data.bytes).bytes ++ data.bytes) ++
        padding) := ⟨_, rfl⟩
  generalize hframe : Tcp.Buffer.mk _ hlen = frame
  have hbytes : frame.bytes = eth.bytes ++ packet := by
    rw [← hframe, hpacket]
    simp only [append_assoc]
  have hmem : Ptr.Holds ⟨frame.bytes, ethHeaderLen⟩ packet := by
    have h := (Ptr.holds_start (eth.bytes ++ packet)).append_right
    rwa [EthHdr.bytes_length, Ptr.add, Nat.zero_add, ← hbytes] at h
  have hfit : ipHdrLen + total.toNat ≤ (ofNat 16 packet.length).toNat := by
    have hshort := frame.short
    rw [hbytes, length_append] at hshort
    rw [toNat_ofNat, mod_eq_of_lt (by omega), hpacket, htotal]
    simp only [length_append, IpHdr.bytes_length, Udp.UdpHdr.bytes_length]
    omega
  rw [ethernetRx_frame env' b htype hbytes]
  rw [hpacket] at hmem
  rw [ipv4Rx_packet env' b hmem.append_left hmax hfit hacc]
  exact udpRx_datagram env' b hmem.append_right.append_left htotal hfind

/-- A host just after start: no address, the DHCP client registered. -/
def bootHost : Host where
  link := initLink guestMac
  net := initNet [(Dhcp.dhcpClientPort, .dhcpRx)]
  dhcp := { state := .selecting, offeredIp := 0, serverIp := 0, retryCount := 0, deadline := 3000 }

def oneByte : Tcp.Buffer := ⟨[7], by decide⟩

/-- One byte broadcast to the DHCP port, padded by the link, arrives. -/
theorem udp_round_trip_oneByte : ∃ frame hlen r,
    (Udp.udpSend quietEnv bootHost.link limitedBroadcast 67 68 oneByte).frames = [frame] ∧
      ethernetRx quietEnv bootHost ⟨frame ++ [0, 0, 0], hlen⟩ = .ok r ∧
      r.deliveries = [{ handler := .dhcpRx, data := [7], srcIp := 0, srcPort := 67,
                        dstPort := 68 }] := by
  have hres : bootHost.link.resolve limitedBroadcast = some broadcast := by decide
  have htotal : ofNat 16 (udpHdrLen + oneByte.bytes.length) = 9#16 := rfl
  obtain ⟨frame, hsent, hlen⟩ : ∃ frame : List U8,
      (Udp.udpSend quietEnv bootHost.link limitedBroadcast 67 68 oneByte).frames = [frame] ∧
        (frame ++ [0, 0, 0]).length < 65536 := by
    rw [Udp.udpSend, htotal, if_neg (by decide), ipv4Send_frames ipprotoUdp _ (by decide) hres rfl]
    refine ⟨_, rfl, ?_⟩
    have hle := ipPacket_length_le bootHost.link limitedBroadcast ipprotoUdp
      ((Udp.finishedHdr bootHost.link limitedBroadcast 67 68 oneByte.bytes).bytes ++
        oneByte.bytes) 9#16
    have hbound : ipHdrLen + (9#16).toNat = 29 := rfl
    simp only [length_append, EthHdr.bytes_length, ethHeaderLen, length_cons,
      length_nil]
    omega
  obtain ⟨r, hr, hdeliv⟩ := udp_round_trip quietEnv quietEnv bootHost bootHost
    limitedBroadcast 67 68 oneByte frame [0, 0, 0] .dhcpRx (by decide) (by rw [hres]; rfl)
    (by rw [hsent]; exact mem_singleton_self frame) hlen (.inl rfl) rfl
  exact ⟨frame, hlen, r, hsent, hr, hdeliv⟩

end NetStack
