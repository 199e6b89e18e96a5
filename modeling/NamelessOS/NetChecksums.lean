import NamelessOS.Icmp
import NamelessOS.Udp

/-!
# IPv4, ICMP and UDP checksums on the wire

These three modules sum the words of a message as the little-endian machine
loads them and store the complement the same way, unlike TCP.  A checksum
field at an even offset then makes the native sum a multiple of `65535`
(`verifies_of_field`), and `fold16_beWordSum_of_le` turns that into the test a
receiver makes on big-endian words.

`udp_send` and `icmp_ping` keep the total length in a `u16`.  A payload of more
than 65528 bytes wraps it, passes the length check of `ipv4_send` and leaves a
message cut off inside its header.  A datagram then does not verify
(`truncated_datagram_fails`), and an echo request does if its checksum field is
still sent; `wire_checksums_verify_iff` says which payloads verify.
-/

namespace NetChecksums

open ByteOrder OnesComplement Checked Ethernet Ipv4 List BitVec
open BitVec (ofNat)

/-! ## A checksum field -/

variable {front f : List U8}

theorem leWordSum_field (back : List U8) (ck : U16)
    (heven : front.length % 2 = 0) : leWordSum (front ++ (store16 ck ++ back)) =
      leWordSum (front ++ (store16 0 ++ back)) + ck.toNat := by
  grind [leWordSum_append, leWordSum_store16]

/-- A message whose field at an even offset holds the complement of the native
sum, in either representation of zero, verifies. -/
theorem verifies_of_field {back : List U8} {ck : U16} (heven : front.length % 2 = 0)
    (hck : ck.toNat = 65535 - fold16 (leWordSum (front ++ (store16 0 ++ back))) ∨
      ck.toNat = complement16 (leWordSum (front ++ (store16 0 ++ back)))) :
    fold16 (beWordSum (front ++ (store16 ck ++ back))) = 0xFFFF := by
  grind [add_complement, fold16_beWordSum_of_le, leWordSum_field]

/-! ## What a receiver checks -/

/-- The packet a frame carries. -/
def packetOf (f : List U8) : List U8 := f.drop ethHeaderLen

/-- The test on an IPv4 header. -/
def HeaderVerifies (pkt : List U8) : Prop := fold16 (beWordSum (pkt.take ipHdrLen)) = 0xFFFF

/-- The test on an ICMP message. -/
def MessageVerifies (pkt : List U8) : Prop := fold16 (beWordSum (pkt.drop ipHdrLen)) = 0xFFFF

/-- The pseudo-header a receiver takes from the packet: the addresses, the
protocol and the length of what follows the header. -/
def wirePseudoHeader (pkt : List U8) : List U8 := (pkt.drop 12).take 8 ++ [0, pkt.getD 9 0] ++
    store16 (htons (ofNat 16 (pkt.length - ipHdrLen)))

/-- The test on a UDP datagram. -/
def DatagramVerifies (pkt : List U8) : Prop :=
  fold16 (beWordSum (wirePseudoHeader pkt ++ pkt.drop ipHdrLen)) = 0xFFFF

/-- The checksum field of the UDP header in a packet. -/
def udpChecksumField (pkt : List U8) : List U8 := (pkt.drop (ipHdrLen + 6)).take 2

theorem packetOf_frame (h : EthHdr) (pkt : List U8) : packetOf (h.bytes ++ pkt) = pkt := by
  rw [packetOf, ← EthHdr.bytes_length h, drop_left]

section Packet

variable (l : Link) (dstIp : U32) (proto : U8) (payload : List U8) (len : U16)

theorem take_ipPacket : (ipPacket l dstIp proto payload len).take ipHdrLen
    = (ipHdr l dstIp proto len).finish.bytes := by
  rw [ipPacket, ← IpHdr.bytes_length (ipHdr l dstIp proto len).finish, take_left]

theorem drop_ipPacket : (ipPacket l dstIp proto payload len).drop ipHdrLen
    = payload.take len.toNat := by
  rw [ipPacket, ← IpHdr.bytes_length (ipHdr l dstIp proto len).finish, drop_left]

theorem finish_verifies {h : IpHdr} (hzero : h.checksum = 0) :
    fold16 (beWordSum h.finish.bytes) = 0xFFFF := by
  -- the ten bytes before the field and the eight after it
  obtain ⟨front, back, heven, hsplit⟩ : ∃ front back : List U8, front.length % 2 = 0 ∧
      ∀ ck, ({ h with checksum := ck } : IpHdr).bytes = front ++ (store16 ck ++ back) := by
    refine ⟨[h.verIhl, h.dscpEcn] ++ store16 h.totalLen ++ store16 h.id ++
      store16 h.fragOff ++ [h.ttl, h.proto], store32 h.src ++ store32 h.dst, by simp [store16], ?_⟩
    intro ck
    simp [IpHdr.bytes]
  have hbytes : h.bytes = front ++ (store16 0 ++ back) := by
    rw [← hsplit, ← hzero]
  have htake : h.bytes.take (ofNat 16 ipHdrLen).toNat = h.bytes := by
    rw [take_of_length_le (by simp [ipHdrLen])]
  rw [IpHdr.finish, hsplit]
  apply verifies_of_field heven
  left
  rw [ipChecksum_toNat, htake, hbytes]

theorem headerVerifies_ipPacket : HeaderVerifies (ipPacket l dstIp proto payload len) := by
  rw [HeaderVerifies, take_ipPacket]
  exact finish_verifies rfl

end Packet

variable {env : Env}

/-- An IPv4 frame of `ipv4_send` carries its packet. -/
theorem packetOf_ipv4Send {l : Link} {dstIp : U32} {proto : U8}
    {payload : List U8} {len : U16}
    (h : f ∈ (ipv4Send env l dstIp proto payload len).frames)
    (htype : etherType f = ethertypeIpv4) :
    packetOf f = ipPacket l dstIp proto payload len ∧ len.toNat ≤ 1500 - ipHdrLen := by
  rcases mem_ipv4Send h with ⟨harp, _⟩ | ⟨hlen, mac, _, rfl⟩
  · rw [harp] at htype
    exact absurd htype (by decide)
  · exact ⟨packetOf_frame _ _, hlen⟩

/-! ## ICMP -/

variable {data : List U8}

/-- The message `icmp_ping` builds verifies if it is not cut off before the end
of its checksum field, at offset 2. -/
theorem ping_verifies (id seq : U16) {total : U16} (htotal : 4 ≤ total.toNat) :
    fold16 (beWordSum ((({ Icmp.echoHdr id seq with
      checksum := ipChecksum ((Icmp.echoHdr id seq).bytes ++ data) total } :
        Icmp.IcmpHdr).bytes ++ data).take total.toNat)) = 0xFFFF := by
  obtain ⟨rest, hrest⟩ := Nat.exists_eq_add_of_le' htotal
  have hsplit : ∀ h : Icmp.IcmpHdr, (h.bytes ++ data).take total.toNat =
      [h.type, h.code] ++ (store16 h.checksum ++
        (store16 h.id ++ store16 h.seq ++ data).take rest) := by
    intro h
    rw [hrest]
    simp [Icmp.IcmpHdr.bytes, store16]
  rw [hsplit]
  apply verifies_of_field (by simp)
  left
  rw [ipChecksum_toNat, hsplit]
  rfl

theorem storeChecksum_split {msg : List U8} (h : 4 ≤ msg.length) (ck : U16) :
    Icmp.storeChecksum msg ck = msg.take 2 ++ (store16 ck ++ msg.drop 4) := by
  rcases msg with _ | ⟨a, _ | ⟨b, _ | ⟨c, _ | ⟨d, rest⟩⟩⟩⟩
  · simp at h
  · simp at h
  · simp at h
  · simp at h
  · rfl

theorem echoReply_verifies {request : List U8} {len : U16} (hlen : request.length = len.toNat)
    (h8 : Icmp.icmpHdrLen ≤ len.toNat) :
    fold16 (beWordSum ((Icmp.echoReply request len).take len.toNat)) = 0xFFFF := by
  have hreply : ∀ ck, Icmp.storeChecksum (request.set 0 Icmp.icmpTypeEchoReply) ck =
      (request.set 0 Icmp.icmpTypeEchoReply).take 2 ++
        (store16 ck ++ (request.set 0 Icmp.icmpTypeEchoReply).drop 4) := by
    intro ck
    apply storeChecksum_split
    rw [length_set, hlen]
    exact Nat.le_trans (by decide) h8
  have htwice : ∀ msg ck ck', Icmp.storeChecksum (Icmp.storeChecksum msg ck) ck'
      = Icmp.storeChecksum msg ck' := by
    intro msg ck ck'
    simp only [Icmp.storeChecksum]
    rw [set_comm (byteAt ck 1) (byteAt ck' 0) (by decide), set_set, set_set]
  have hfull : ∀ ck, (Icmp.storeChecksum (request.set 0 Icmp.icmpTypeEchoReply) ck).length
      = len.toNat := by
    intro ck
    simp [Icmp.storeChecksum, hlen]
  rw [Icmp.echoReply, htwice, take_of_length_le (hfull _).le, hreply]
  apply verifies_of_field
  · rw [length_take, length_set, hlen, Nat.min_eq_left (Nat.le_trans (by decide) h8)]
  · left
    rw [ipChecksum_toNat, take_of_length_le (hfull 0).le, hreply 0]

/-- A reply that `icmp_rx` sends is the echo reply to the message it got. -/
theorem mem_icmpRx {l : Link} {p : Ptr U8} {len : U16} {srcIp : U32}
    {r : Link × List (List U8)} (hp : p.Has len.toNat)
    (h : Icmp.icmpRx env l p len srcIp = .ok r) (hf : f ∈ r.2) :
    Icmp.icmpHdrLen ≤ len.toNat ∧ f ∈ (ipv4Send env l srcIp ipprotoIcmp
      (Icmp.echoReply (p.view len.toNat) len) len).frames := by
  unfold Icmp.icmpRx at h
  split at h
  · cases h
    simp at hf
  · rename_i hlen
    have h8 : p.Has 8 := hp.mono (Nat.le_of_not_lt hlen)
    rw [Ptr.read_of_has h8 (by decide) 0, ok_bind, Ptr.read_of_has h8 (by decide) 0, ok_bind] at h
    split at h
    · split at h
      · cases h
        simp at hf
      grind [ok_bind, Ptr.load16_of_has, Ptr.copy_of_has]
    · cases h
      simp at hf

/-! ## UDP -/

/-- Addresses, protocol and length as the receiver finds them are those of the
sender's pseudo-header. -/
theorem wirePseudoHeader_ipPacket (l : Link) (dstIp : U32) {payload : List U8} {len : U16}
    (hlen : len.toNat ≤ payload.length) :
    wirePseudoHeader (ipPacket l dstIp ipprotoUdp payload len) =
      Udp.pseudoHeader l.ourIp dstIp len := by
  have hpay : (ipPacket l dstIp ipprotoUdp payload len).length - ipHdrLen = len.toNat := by
    rw [ipPacket, length_append, IpHdr.bytes_length, length_take]
    omega
  have haddr : ((ipPacket l dstIp ipprotoUdp payload len).drop 12).take 8
      = store32 (htonl l.ourIp) ++ store32 (htonl dstIp) := rfl
  have hproto : (ipPacket l dstIp ipprotoUdp payload len).getD 9 0 = ipprotoUdp := rfl
  rw [wirePseudoHeader, hpay, haddr, hproto, ofNat_toNat, setWidth_eq,
    store16_htons, store32_htonl, store32_htonl]
  rfl

/-- The accumulator of `udp_checksum` never overflows. -/
theorem udpSum_toNat (srcIp dstIp : U32) (hdr : Udp.UdpHdr) (hdata : data.length < 65536) :
    (Udp.udpSum srcIp dstIp hdr data).toNat = leWordSum
      (Udp.pseudoHeader srcIp dstIp (ofNat 16 (Socket.udpHdrLen + data.length)) ++
        (hdr.bytes ++ data)) := by
  generalize hph : Udp.pseudoHeader srcIp dstIp (ofNat 16 (Socket.udpHdrLen + data.length))
    = ph
  have hphlen : ph.length = 12 := by rw [← hph]; rfl
  have hhdrlen : hdr.bytes.length = 8 := rfl
  grind [leWordSum_le, Udp.csumNative, nativeSum_toNat, Udp.udpSum, leWordSum_append]

/-- The datagram `udp_send` builds verifies with its pseudo-header. -/
theorem datagram_verifies (l : Link) (dstIp : U32) (srcPort dstPort : U16)
    (hdata : data.length < 65536) : fold16 (beWordSum (Udp.pseudoHeader l.ourIp dstIp
        (ofNat 16 (Socket.udpHdrLen + data.length)) ++
      ((Udp.finishedHdr l dstIp srcPort dstPort data).bytes ++ data))) = 0xFFFF := by
  have hsplit : ∀ (ph : List U8) (h : Udp.UdpHdr), ph ++ (h.bytes ++ data) =
      (ph ++ (store16 h.srcPort ++ store16 h.dstPort ++ store16 h.length)) ++
        (store16 h.checksum ++ data) := by
    intro ph h
    simp [Udp.UdpHdr.bytes]
  rw [hsplit]
  apply verifies_of_field
  · simp [Udp.pseudoHeader, store16]
  · right
    rw [Udp.finishedHdr, Udp.udpChecksum, Tcp.csumFinish_toNat, udpSum_toNat _ _ _ hdata, hsplit]
    rfl

theorem udpChecksum_ne_zero (srcIp dstIp : U32) (hdr : Udp.UdpHdr) (data : List U8) :
    Udp.udpChecksum srcIp dstIp hdr data ≠ 0 := by
  unfold Udp.udpChecksum Tcp.csumFinish
  dsimp only
  split
  · decide
  · assumption

theorem udpTotal_toNat {n : Nat} (h : Socket.udpHdrLen + n < 65536) :
    (ofNat 16 (Socket.udpHdrLen + n)).toNat = Socket.udpHdrLen + n := by
  rw [toNat_ofNat, Nat.mod_eq_of_lt h]

/-! ## Emitted packets -/

/-- Every IPv4 packet among the frames satisfies a test; the other frames are
ARP requests for an unresolved next hop. -/
def PacketsPass (frames : List (List U8)) (test : List U8 → Prop) : Prop :=
  ∀ f ∈ frames, etherType f = ethertypeIpv4 → test (packetOf f)

theorem ipv4Send_pass (env : Env) (l : Link) (dstIp : U32) (proto : U8)
    (payload : List U8) (len : U16) {test : List U8 → Prop}
    (h : len.toNat ≤ 1500 - ipHdrLen → test (ipPacket l dstIp proto payload len)) :
    PacketsPass (ipv4Send env l dstIp proto payload len).frames test := by
  intro f hf htype
  obtain ⟨hpkt, hlen⟩ := packetOf_ipv4Send hf htype
  rw [hpkt]
  exact h hlen

/-- No memory is asked for, or none is there, and nothing is sent. -/
theorem packetsPass_nil (test : List U8 → Prop) : PacketsPass [] test :=
  fun _ hf => absurd hf not_mem_nil

theorem icmpPing_pass (env : Env) (l : Link) (dstIp : U32) (id seq : U16) {data : Tcp.Buffer}
    (hdata : data.bytes.length ≤ 65528 ∨ 65532 ≤ data.bytes.length) :
    PacketsPass (Icmp.icmpPing env l dstIp id seq data).frames MessageVerifies := by
  have hshort := data.short
  unfold Icmp.icmpPing
  dsimp only
  split
  · exact packetsPass_nil _
  · rename_i hmem
    -- a total of 0 is no allocation, one of 1 to 3 is excluded
    have hpos : (ofNat 16 (Icmp.icmpHdrLen + data.bytes.length)).toNat ≠ 0 := by
      intro hzero
      rw [hzero] at hmem
      exact hmem rfl
    apply ipv4Send_pass
    intro _
    rw [MessageVerifies, drop_ipPacket]
    apply ping_verifies
    rw [toNat_ofNat] at hpos ⊢
    unfold Icmp.icmpHdrLen at hpos ⊢
    omega

theorem icmpRx_pass {l : Link} {p : Ptr U8} {len : U16} {srcIp : U32}
    {r : Link × List (List U8)} (hp : p.Has len.toNat)
    (h : Icmp.icmpRx env l p len srcIp = .ok r) : PacketsPass r.2 MessageVerifies := by
  intro f hf htype
  obtain ⟨hlen, hf⟩ := mem_icmpRx hp h hf
  refine ipv4Send_pass env l srcIp ipprotoIcmp _ len ?_ f hf htype
  intro _
  rw [MessageVerifies, drop_ipPacket]
  exact echoReply_verifies (Ptr.view_length hp) hlen

theorem udpSend_pass (env : Env) (l : Link) (dstIp : U32) (srcPort dstPort : U16)
    {data : Tcp.Buffer} (hdata : data.bytes.length ≤ 65528) :
    PacketsPass (Udp.udpSend env l dstIp srcPort dstPort data).frames
      (fun pkt => DatagramVerifies pkt ∧ udpChecksumField pkt ≠ [0, 0]) := by
  unfold Udp.udpSend
  dsimp only
  split
  · exact packetsPass_nil _
  · rename_i hmem
    have hfits : Socket.udpHdrLen + data.bytes.length < 65536 := by
      refine Nat.lt_of_le_of_ne (Nat.add_le_add_left hdata 8) fun hwraps => ?_
      rw [hwraps] at hmem
      exact hmem rfl
    have htotal := udpTotal_toNat hfits
    apply ipv4Send_pass
    intro _
    generalize htot : ofNat 16 (Socket.udpHdrLen + data.bytes.length) = total at htotal
    have hlen : ((Udp.finishedHdr l dstIp srcPort dstPort data.bytes).bytes ++
        data.bytes).length = total.toNat := by
      rw [length_append, Udp.UdpHdr.bytes_length, htotal]
    constructor
    · rw [DatagramVerifies, wirePseudoHeader_ipPacket l dstIp hlen.ge, drop_ipPacket,
        take_of_length_le hlen.le, ← htot]
      exact datagram_verifies l dstIp srcPort dstPort data.short
    · rw [udpChecksumField, ← drop_drop, drop_ipPacket, take_of_length_le hlen.le]
      intro hzero
      have hck := congrArg₂ load16 (List.cons.inj hzero).1
        (List.cons.inj (List.cons.inj hzero).2).1
      rw [load16_store16] at hck
      exact udpChecksum_ne_zero _ _ _ _ hck

/-- A host with the hardware address of a virtual machine and no address
yet. -/
def guestLink : Link := initLink guestMac

theorem resolve_limitedBroadcast : guestLink.resolve limitedBroadcast = some broadcast := by
  decide

/-! ## Wrapped lengths -/

theorem quietEnv_kmalloc {n : Nat} (h : 0 < n) : quietEnv.kmalloc n = true := by
  simp [Env.kmalloc, quietEnv, h.ne']

theorem fold16_ne_ones {s : Nat} (h : s % 65535 ≠ 0) : fold16 s ≠ 0xFFFF := by
  intro hones
  have hmod := fold16_mod s
  rw [hones] at hmod
  exact h hmod.symm

/-- The first `n < 8` bytes of a datagram of `udp_send` do not verify, whatever
its checksum is. -/
theorem cut_datagram_sum {n : Nat} (hpos : 0 < n) (hcut : n < 8) (ck : U8) :
    beWordSum (Udp.pseudoHeader 0 limitedBroadcast (ofNat 16 n) ++
      ([0, 68, 0, 67, 0, ofNat 8 n, ck] : List U8).take n) % 65535 ≠ 0 := by
  revert ck
  interval_cases n <;> decide +kernel

theorem take_udpHdr {n : Nat} (hcut : n < 8) (ck : U16) (data : List U8) :
    (({ Udp.udpHdr 68 67 (ofNat 16 n) with checksum := ck } : Udp.UdpHdr).bytes ++ data).take n =
      ([0, 68, 0, 67, 0, ofNat 8 n, byteAt ck 0] : List U8).take n := by
  have hports : store16 (htons 68) ++ store16 (htons 67) = [0, 68, 0, 67] := by decide
  have hlen : store16 (htons (ofNat 16 n)) = [0, ofNat 8 n] := by
    interval_cases n <;> decide
  rw [Udp.UdpHdr.bytes, Udp.udpHdr, hports, hlen]
  interval_cases n <;> rfl

/-- **A wrapped length cuts the datagram off.**  A broadcast whose length has
wrapped to a value from 1 to 7 leaves the host and does not verify. -/
theorem truncated_datagram_fails (data : Tcp.Buffer) (hwrap : 65528 < data.bytes.length) :
    ∃ f ∈ (Udp.udpSend quietEnv guestLink limitedBroadcast 68 67 data).frames,
      etherType f = ethertypeIpv4 ∧ ¬ DatagramVerifies (packetOf f) := by
  obtain ⟨n, hn⟩ := Nat.exists_eq_add_of_le hwrap.le
  have hcut : n < 8 := by have := data.short; omega
  have htotal : ofNat 16 (Socket.udpHdrLen + data.bytes.length) = ofNat 16 n := by
    rw [hn]
    interval_cases n <;> rfl
  have hlen : (ofNat 16 n).toNat = n := by
    rw [toNat_ofNat, Nat.mod_eq_of_lt (by omega)]
  rw [Udp.udpSend, htotal, hlen, quietEnv_kmalloc (by omega), if_neg (by decide),
    ipv4Send_frames ipprotoUdp _ (by rw [hlen]; unfold ipHdrLen; omega) resolve_limitedBroadcast
      (quietEnv_kmalloc (Nat.add_pos_left (by decide) _))]
  refine ⟨_, mem_singleton_self _, ?_, ?_⟩
  · rw [etherType_bytes_append]
    exact ntohs_htons _
  · rw [packetOf_frame, DatagramVerifies, wirePseudoHeader_ipPacket, drop_ipPacket, hlen,
      Udp.finishedHdr, htotal, take_udpHdr hcut]
    · exact fold16_ne_ones (cut_datagram_sum (by omega) hcut _)
    · rw [hlen, length_append, Udp.UdpHdr.bytes_length]
      exact Nat.le_add_right_of_le hcut.le

/-- An echo request cut off inside its checksum field does not verify. -/
theorem truncated_ping_fails (data : Tcp.Buffer) (hwrap : 65528 < data.bytes.length)
    (hshort : data.bytes.length < 65532) :
    ∃ f ∈ (Icmp.icmpPing quietEnv guestLink limitedBroadcast 0 0 data).frames,
      etherType f = ethertypeIpv4 ∧ ¬ MessageVerifies (packetOf f) := by
  obtain ⟨n, hn⟩ := Nat.exists_eq_add_of_le hwrap.le
  have htotal : ofNat 16 (Icmp.icmpHdrLen + data.bytes.length) = ofNat 16 n := by
    have hcut : n < 4 := by omega
    rw [hn]
    interval_cases n <;> rfl
  have hlen : (ofNat 16 n).toNat = n := by
    rw [toNat_ofNat, Nat.mod_eq_of_lt (by omega)]
  -- only the low byte of the field may still be sent, and it is a high byte of the sum
  have hsum : ∀ (ck : U16) (rest : List U8), beWordSum ((({ Icmp.echoHdr 0 0 with
      checksum := ck } : Icmp.IcmpHdr).bytes ++ rest).take n) % 65535 ≠ 0 := by
    intro ck rest
    have hpos : 0 < n := by omega
    have hcut : n < 4 := by omega
    have hbyte : ∀ c : U8, beWordSum (([8, 0, c] : List U8).take n) % 65535 ≠ 0 := by
      interval_cases n <;> decide +kernel
    have htake : (({ Icmp.echoHdr 0 0 with checksum := ck } : Icmp.IcmpHdr).bytes ++ rest).take n =
        ([8, 0, byteAt ck 0] : List U8).take n := by
      interval_cases n <;> rfl
    rw [htake]
    exact hbyte _
  rw [Icmp.icmpPing, htotal, hlen, quietEnv_kmalloc (by omega), if_neg (by decide),
    ipv4Send_frames ipprotoIcmp _ (by rw [hlen]; unfold ipHdrLen; omega) resolve_limitedBroadcast
      (quietEnv_kmalloc (Nat.add_pos_left (by decide) _))]
  refine ⟨_, mem_singleton_self _, ?_, ?_⟩
  · rw [etherType_bytes_append]
    exact ntohs_htons _
  · rw [packetOf_frame, MessageVerifies, drop_ipPacket, hlen]
    exact fold16_ne_ones (hsum _ _)

/-- **Checksums on the wire.**  An echo request of every host to every
destination verifies exactly if its length does not wrap to 1, 2 or 3, and a
datagram, with a checksum that is not zero, exactly if its length does not wrap
to 1 to 7 (a length that wraps to 0 sends nothing).  The IPv4 header of every
packet and the echo reply to every received message verify, and neither
accumulator overflows. -/
theorem wire_checksums_verify_iff (data : Tcp.Buffer) :
    ((∀ env l dstIp id seq,
        PacketsPass (Icmp.icmpPing env l dstIp id seq data).frames MessageVerifies) ↔
      data.bytes.length ≤ 65528 ∨ 65532 ≤ data.bytes.length) ∧
    ((∀ env l dstIp srcPort dstPort,
        PacketsPass (Udp.udpSend env l dstIp srcPort dstPort data).frames
          (fun pkt => DatagramVerifies pkt ∧ udpChecksumField pkt ≠ [0, 0])) ↔
      data.bytes.length ≤ 65528) ∧
    (∀ env l dstIp proto payload len,
      PacketsPass (ipv4Send env l dstIp proto payload len).frames HeaderVerifies) ∧
    (∀ env l dstIp p len r, Ptr.Has p len.toNat → Icmp.icmpRx env l p len dstIp = .ok r →
      PacketsPass r.2 MessageVerifies) ∧
    (∀ xs : List U8, xs.length < 65536 → (nativeSum 0 xs).toNat = leWordSum xs) ∧
    (∀ srcIp dstIp hdr, (Udp.udpSum srcIp dstIp hdr data.bytes).toNat = leWordSum
      (Udp.pseudoHeader srcIp dstIp (ofNat 16 (Socket.udpHdrLen + data.bytes.length)) ++
        (hdr.bytes ++ data.bytes))) := by
  refine ⟨⟨fun hall => ?_, fun hdata env l dstIp id seq => ?_⟩,
    ⟨fun hall => ?_, fun hdata env l dstIp srcPort dstPort => ?_⟩, ?_, ?_, ?_, ?_⟩
  · by_contra hcut
    obtain ⟨f, hf, htype, hfails⟩ := truncated_ping_fails data (by omega) (by omega)
    exact hfails (hall _ _ _ _ _ f hf htype)
  · exact icmpPing_pass env l dstIp id seq hdata
  · by_contra hcut
    obtain ⟨f, hf, htype, hfails⟩ := truncated_datagram_fails data (by omega)
    exact hfails (hall _ _ _ _ _ f hf htype).1
  · exact udpSend_pass env l dstIp srcPort dstPort hdata
  · intro env l dstIp proto payload len
    exact ipv4Send_pass env l dstIp proto payload len
      (fun _ => headerVerifies_ipPacket l dstIp proto payload len)
  · intro env l dstIp p len r hp h
    exact icmpRx_pass hp h
  · intro xs hxs
    exact nativeSum_zero_toNat hxs
  · intro srcIp dstIp hdr
    exact udpSum_toNat srcIp dstIp hdr data.short

/-- A payload of 65530 bytes: with the header its length is 2 in a `u16`. -/
def wrappingData : Tcp.Buffer where
  bytes := List.replicate 65530 0
  short := length_replicate.trans_lt (by decide)

/-- The wrapped length passes the length check, and the two bytes that are sent
do not verify. -/
theorem wrapped_datagram_fails :
    ∃ f ∈ (Udp.udpSend quietEnv guestLink limitedBroadcast 68 67 wrappingData).frames,
      etherType f = ethertypeIpv4 ∧ ¬ DatagramVerifies (packetOf f) := by
  exact truncated_datagram_fails wrappingData (by rw [wrappingData, length_replicate]; decide)

end NetChecksums
