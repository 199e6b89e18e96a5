import NamelessOS.NetStack

/-!
# The answer to an ICMP message

`ipv4_rx` hands a message to `icmp_rx`, without the padding of its frame.  An
echo request is answered by one packet that mirrors it; nothing else makes
`icmp_rx` send a packet.
-/

namespace NetStack

open ByteOrder Checked Ethernet Ipv4 Icmp

/-- An echo request with a complete header. -/
def EchoRequest (msg : List U8) : Prop :=
  icmpHdrLen ≤ msg.length ∧ msg.getD 0 0 = icmpTypeEchoRequest ∧ msg.getD 1 0 = 0

instance (msg : List U8) : Decidable (EchoRequest msg) := inferInstanceAs (Decidable (_ ∧ _))

/-- The reply differs from the request in the type and in the checksum field only. -/
structure Mirrors (request reply : List U8) : Prop where
  length : reply.length = request.length
  type : reply[0]? = some icmpTypeEchoReply
  rest : ∀ i, i ≠ 0 → i ≠ 2 → i ≠ 3 → reply[i]? = request[i]?

theorem mirrors_echoReply {request : List U8} (h : 0 < request.length) (len : U16) :
    Mirrors request (echoReply request len) where
  length := by simp [echoReply, storeChecksum]
  type := by simp [echoReply, storeChecksum, h]
  rest := by
    intro i h0 h2 h3
    simp [echoReply, storeChecksum, h0.symm, h2.symm, h3.symm]

/-- `icmp_rx` on a message in memory: it passes the reply to `ipv4_send`, or it does nothing. -/
theorem icmpRx_cases (env : Env) (l : Link) {p : Ptr U8} {len : U16} (src : U32) (h : p.Has len.toNat) :
    (EchoRequest (p.view len.toNat) ∧ env.kmalloc len.toNat = true) ∧
        (let sent := ipv4Send env l src ipprotoIcmp (echoReply (p.view len.toNat) len) len
        Icmp.icmpRx env l p len src = .ok (sent.link, sent.frames)) ∨
      ¬ (EchoRequest (p.view len.toNat) ∧ env.kmalloc len.toNat = true) ∧
        Icmp.icmpRx env l p len src = .ok (l, []) := by
  have hlen := Ptr.view_length h
  have hholds : p.Holds (p.view len.toNat) := ⟨by rwa [hlen], by rw [hlen]⟩
  unfold Icmp.icmpRx EchoRequest
  by_cases h8 : len.toNat < icmpHdrLen
  · refine .inr ⟨?_, if_pos h8⟩
    rintro ⟨⟨hge, _⟩, _⟩
    omega
  have hin (i : Nat) (hi : i < icmpHdrLen) : i < (p.view len.toNat).length := by omega
  rw [if_neg h8, hholds.read_eq (hin 0 (by decide)) 0, ok_bind, hholds.read_eq (hin 1 (by decide)) 0,
    ok_bind, Ptr.copy_of_has h, ok_bind, hholds.load16_eq (hin 5 (by decide)), ok_bind,
    hholds.load16_eq (hin 7 (by decide)), ok_bind]
  by_cases hreq : (p.view len.toNat).getD 0 0 = icmpTypeEchoRequest ∧ (p.view len.toNat).getD 1 0 = 0
  · rw [if_pos hreq]
    cases hmem : env.kmalloc len.toNat with
    | false => exact .inr ⟨by simp, rfl⟩
    | true => exact .inl ⟨⟨⟨by omega, hreq⟩, rfl⟩, rfl⟩
  · exact .inr ⟨fun hall => hreq hall.1.2, if_neg hreq⟩

/-- What `ipv4_rx` sends for an ICMP message that it delivers: the reply to an
echo request, in one packet to the sender, when there is memory for the reply
and for its frame; nothing at all for any other message; and for an echo
request whose sender's route is not resolved an ARP request at most. -/
theorem echo_request_mirrored (env : Env) (h : Host) {p : Ptr U8} {len : U16} {c : IpCall}
    (hp : p.Has len.toNat) (hc : ipv4Demux h.link p len = .ok (some c)) (hicmp : c.handler = .icmpRx) :
    ∃ r, ipv4Rx env h p len = .ok r ∧
      (∀ mac, EchoRequest (c.payload.view c.len.toNat) → c.len.toNat ≤ 1480 →
        h.link.resolve c.src = some mac → env.kmalloc c.len.toNat = true →
        env.kmalloc (ethHeaderLen + (ipHdrLen + c.len.toNat)) = true →
        ∃ reply, Mirrors (c.payload.view c.len.toNat) reply ∧
          r.frames = [(EthHdr.mk mac h.link.ourMac (htons ethertypeIpv4)).bytes ++
            ipPacket h.link c.src ipprotoIcmp reply c.len]) ∧
      (¬ (EchoRequest (c.payload.view c.len.toNat) ∧ c.len.toNat ≤ 1480) → r.frames = []) ∧
      (h.link.resolve c.src = none → r.frames = [] ∨
        r.frames = Arp.arpRequest env h.link.ourMac h.link.arp (h.link.nextHop c.src)) := by
  obtain ⟨o, ho, hhas⟩ := returns_ipv4Demux h.link hp
  have hpayload : c.payload.Has c.len.toNat := hhas c (Except.ok.inj (ho.symm.trans hc))
  have hrx : ipv4Rx env h p len = NetStack.icmpRx env h c.payload c.len c.src := by
    rw [ipv4Rx, hc, ok_bind]
    simp only [hicmp]
  rw [hrx, NetStack.icmpRx]
  rcases icmpRx_cases env h.link c.src hpayload with ⟨⟨hreq, hbuf⟩, hrx⟩ | ⟨hnot, hrx⟩
  · refine ⟨_, by rw [hrx, ok_bind], ?_, ?_, ?_⟩
    · intro mac _ hlen hmac _ hframe
      have h0 : 0 < (c.payload.view c.len.toNat).length := Nat.lt_of_lt_of_le (by decide) hreq.1
      exact ⟨_, mirrors_echoReply h0 c.len, ipv4Send_frames ipprotoIcmp _ hlen hmac hframe⟩
    · intro hnot
      exact ipv4Send_long fun hlen => hnot ⟨hreq, hlen⟩
    · intro hnone
      exact ipv4Send_unresolved hnone
  · refine ⟨_, by rw [hrx, ok_bind], ?_, fun _ => rfl, fun _ => .inl rfl⟩
    intro mac hreq _ _ hbuf
    exact absurd ⟨hreq, hbuf⟩ hnot

/-- A host without an address that knows the hardware address of 10.0.0.1. -/
def pinged : Host where
  link := { initLink Arp.zeroMac with arp :=
    { table := fun _ => ⟨0x0A000001, Arp.zeroMac⟩, ourIp := 0 } }
  net := Socket.initNet []
  dhcp := ⟨.idle, 0, 0, 0, 0⟩

/-- An echo request from 10.0.0.1. -/
def ping : Ptr U8 :=
  ⟨[0x45, 0, 0, 28, 0, 1, 0, 0, 64, 1, 0, 0, 10, 0, 0, 1, 10, 0, 0, 2, 8, 0, 0xF7, 0xFD, 0, 1, 0, 1], 0⟩

def pingCall : IpCall := ⟨.icmpRx, ping.add 20, 8, 0x0A000001, 0x0A000002⟩

theorem echo_request_mirrored_ping :
    ∃ r, ipv4Rx ⟨0, fun _ => true, fun _ => 0⟩ pinged ping 28#16 = .ok r ∧
      ∃ reply, Mirrors (pingCall.payload.view 8) reply ∧ r.frames.length = 1 := by
  have hcall : ipv4Demux pinged.link ping 28#16 = .ok (some pingCall) := rfl
  obtain ⟨r, hr, hreply, _⟩ := echo_request_mirrored ⟨0, fun _ => true, fun _ => 0⟩ pinged
    (show ping.Has 28 from le_rfl) hcall rfl
  obtain ⟨reply, hmirrors, hframes⟩ := hreply Arp.zeroMac (by decide) (by decide) rfl rfl rfl
  exact ⟨r, hr, reply, hmirrors, by rw [hframes, List.length_singleton]⟩

/-- Without memory for the reply the request is not answered. -/
theorem ping_unanswered_without_memory :
    ipv4Demux pinged.link ping 28#16 = .ok (some pingCall) ∧ EchoRequest (pingCall.payload.view 8) ∧
      pinged.link.resolve pingCall.src = some Arp.zeroMac ∧
      ∃ r, ipv4Rx ⟨0, fun _ => false, fun _ => 0⟩ pinged ping 28#16 = .ok r ∧ r.frames = [] :=
  ⟨rfl, by decide, rfl, _, rfl, rfl⟩

end NetStack
