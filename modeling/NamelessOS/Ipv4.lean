import NamelessOS.Arp
import NamelessOS.TcpChecksum

/-!
# IPv4

`net/ipv4/ipv4.c`: routing and header construction on the way out, validation
and demultiplexing on the way in.  `Link` collects the static data that
sending a packet uses: our hardware address, the ARP cache and the address
configuration with its packet counter.

`ip_checksum` of `ipv4_internal.h` sums native, that is little-endian, words.
`nativeSum_toNat` is its overflow bound; `ipChecksum_toNat` identifies its
result with the complement of the mathematical sum.
-/

namespace Ipv4

open ByteOrder Checked Ethernet Arp OnesComplement List
open BitVec (ofNat)

def ipVersion : U8 := 4
def ipVerIhl : U8 := 0x45
def ipDefaultTtl : U8 := 64
def ipHdrLen : Nat := 20
def ipFlagDf : U16 := 0x4000
def ipv4MaxHandlers : Nat := 8

def ipprotoIcmp : U8 := 1
def ipprotoTcp : U8 := 6
def ipprotoUdp : U8 := 17

/-- The limited broadcast address. -/
def limitedBroadcast : U32 := 0xFFFFFFFF

/-! ## The checksum routine -/

/-- Add the words of a buffer as the machine loads them; a last odd byte is
added as it is. -/
def nativeSum (sum : U32) : List U8 → U32
  | [] => sum
  | [b0] => sum + b0.setWidth 32
  | b0 :: b1 :: rest => nativeSum (sum + (load16 b0 b1).setWidth 32) rest

/-- `ip_checksum`; `data` is what the pointer argument points to. -/
def ipChecksum (data : List U8) (len : U16) : U16 :=
  (~~~ Tcp.foldSum (nativeSum 0 (data.take len.toNat))).setWidth 16

theorem load16_toNat (b0 b1 : U8) : (load16 b0 b1).toNat = b0.toNat + b1.toNat * 256 := by
  have h0 := b0.isLt
  have hb0 : b0.toNat % 65536 = b0.toNat := Nat.mod_eq_of_lt (by omega)
  have hb1 : b1.toNat % 65536 = b1.toNat := Nat.mod_eq_of_lt (by omega)
  have hshift : (b1.toNat <<< 8) % 65536 = b1.toNat <<< 8 := by
    rw [Nat.shiftLeft_eq]
    omega
  simp only [load16, BitVec.toNat_or, BitVec.toNat_shiftLeft, BitVec.toNat_setWidth,
    Nat.reducePow, hb0, hb1, hshift]
  rw [← Nat.shiftLeft_add_eq_or_of_lt h0, Nat.shiftLeft_eq, Nat.add_comm]

/-- Without overflow the accumulator is the mathematical word sum. -/
theorem nativeSum_toNat (sum : U32) (xs : List U8)
    (h : sum.toNat + 65535 * ((xs.length + 1) / 2) < 2 ^ 32) :
    (nativeSum sum xs).toNat = sum.toNat + leWordSum xs := by
  induction xs using leWordSum.induct generalizing sum with
  | case1 => rfl
  | case2 b0 =>
    have hlt := b0.isLt
    grind [nativeSum, leWordSum]
  | case3 b0 b1 rest ih =>
    have hword := load16_toNat b0 b1
    have hlt := (load16 b0 b1).isLt
    grind [nativeSum, leWordSum]

/-- The accumulator of `ip_checksum` never overflows, whatever its `u16`
length. -/
theorem nativeSum_zero_toNat {xs : List U8} (h : xs.length < 65536) :
    (nativeSum 0 xs).toNat = leWordSum xs := by
  have hzero : (0 : U32).toNat = 0 := rfl
  rw [nativeSum_toNat 0 xs (by rw [hzero]; omega), hzero, Nat.zero_add]

/-- Complementing 32 bits and keeping 16 is subtraction from `65535`. -/
theorem not_foldSum_toNat (sum : U32) :
    ((~~~ Tcp.foldSum sum).setWidth 16).toNat = 65535 - fold16 sum.toNat := by
  have hlt := fold16_lt sum.toNat
  rw [BitVec.toNat_setWidth, BitVec.toNat_not, Tcp.foldSum_toNat]
  omega

theorem ipChecksum_toNat (data : List U8) (len : U16) :
    (ipChecksum data len).toNat = 65535 - fold16 (leWordSum (data.take len.toNat)) := by
  have hlen := len.isLt
  grind [ipChecksum, not_foldSum_toNat, nativeSum_zero_toNat]

/-- A value stored natively counts as itself in a native sum. -/
theorem leWordSum_store16 (v : U16) (rest : List U8) :
    leWordSum (store16 v ++ rest) = v.toNat + leWordSum rest := by
  simp only [store16, cons_append, nil_append, leWordSum, byteAt,
    BitVec.extractLsb'_toNat, Nat.shiftRight_eq_div_pow]
  omega

/-! ## The header -/

/-- `ip_hdr_t`; multi-byte fields are in network order. -/
structure IpHdr where
  verIhl : U8
  dscpEcn : U8
  totalLen : U16
  id : U16
  fragOff : U16
  ttl : U8
  proto : U8
  checksum : U16
  src : U32
  dst : U32
  deriving DecidableEq, Repr

def IpHdr.bytes (h : IpHdr) : List U8 :=
  [h.verIhl, h.dscpEcn] ++ store16 h.totalLen ++ store16 h.id ++ store16 h.fragOff ++
    [h.ttl, h.proto] ++ store16 h.checksum ++ store32 h.src ++ store32 h.dst

@[simp] theorem IpHdr.bytes_length (h : IpHdr) : h.bytes.length = ipHdrLen := rfl

/-- `hdr->checksum = ip_checksum(hdr, IP_HDR_LEN)` on a header whose field is
zero. -/
def IpHdr.finish (h : IpHdr) : IpHdr :=
  { h with checksum := ipChecksum h.bytes (ofNat 16 ipHdrLen) }

/-! ## Sending -/

/-- The static data of `ethernet.c`, `arp.c` and `ipv4.c` that sending
uses. -/
structure Link where
  ourMac : Mac
  arp : Cache
  ourIp : U32
  ourNetmask : U32
  ourGateway : U32
  pktId : U16

/-- The static data after initialisation: no address, an empty cache. -/
def initLink (mac : Mac) : Link where
  ourMac := mac
  arp := { table := fun _ => { ip := 0, mac := zeroMac }, ourIp := 0 }
  ourIp := 0
  ourNetmask := 0
  ourGateway := 0
  pktId := 1

/-- Off-link destinations go to the gateway. -/
def Link.nextHop (l : Link) (dstIp : U32) : U32 :=
  if l.ourIp ≠ 0 ∧ l.ourNetmask ≠ 0 then
    if dstIp &&& l.ourNetmask ≠ l.ourIp &&& l.ourNetmask then l.ourGateway else dstIp
  else dstIp

/-- The hardware address a packet is sent to, when it is known. -/
def Link.resolve (l : Link) (dstIp : U32) : Option Mac :=
  if l.nextHop dstIp = limitedBroadcast ∨ dstIp = limitedBroadcast then some broadcast
  else arpLookup l.arp (l.nextHop dstIp)

/-- The header of a packet, with a zero checksum field. -/
def ipHdr (l : Link) (dstIp : U32) (proto : U8) (len : U16) : IpHdr where
  verIhl := ipVerIhl
  dscpEcn := 0
  totalLen := htons (ofNat 16 (ipHdrLen + len.toNat))
  id := htons l.pktId
  fragOff := htons ipFlagDf
  ttl := ipDefaultTtl
  proto := proto
  checksum := 0
  src := htonl l.ourIp
  dst := htonl dstIp

/-- What a sending function leaves behind: the static data, the frames given
to `e1000_send` and the return value. -/
structure Sent where
  link : Link
  frames : List (List U8)
  ret : Int

/-- The IPv4 packet that `ipv4_send` builds. -/
def ipPacket (l : Link) (dstIp : U32) (proto : U8) (payload : List U8) (len : U16) : List U8 :=
  (ipHdr l dstIp proto len).finish.bytes ++ payload.take len.toNat

/-- `ipv4_send`; `payload` is what the pointer argument points to. -/
def ipv4Send (env : Env) (l : Link) (dstIp : U32) (proto : U8) (payload : List U8)
    (len : U16) : Sent :=
  if 1500 - ipHdrLen < len.toNat then { link := l, frames := [], ret := -1 }
  else
    match l.resolve dstIp with
    | none =>
      { link := l, frames := arpRequest env l.ourMac l.arp (l.nextHop dstIp), ret := -1 }
    | some dstMac =>
      let (frames, ret) := ethernetSend env l.ourMac dstMac ethertypeIpv4
        (ipPacket l dstIp proto payload len) (ofNat 16 (ipHdrLen + len.toNat))
      { link := { l with pktId := l.pktId + 1 }, frames := frames, ret := ret }

variable {len : U16}

/-- Only the bytes that are sent matter. -/
theorem ipv4Send_congr (env : Env) (l : Link) (dstIp : U32) (proto : U8)
    {payload payload' : List U8} (h : payload.take len.toNat = payload'.take len.toNat) :
    ipv4Send env l dstIp proto payload len = ipv4Send env l dstIp proto payload' len := by
  unfold ipv4Send ipPacket
  rw [h]

theorem totalLen_toNat (h : len.toNat ≤ 1500 - ipHdrLen) :
    (ofNat 16 (ipHdrLen + len.toNat)).toNat = ipHdrLen + len.toNat := by
  simp only [ipHdrLen] at h ⊢
  rw [BitVec.toNat_ofNat, Nat.mod_eq_of_lt (by omega)]

theorem ipPacket_length_le (l : Link) (dstIp : U32) (proto : U8) (payload : List U8)
    (len : U16) : (ipPacket l dstIp proto payload len).length ≤ ipHdrLen + len.toNat := by
  rw [ipPacket, length_append, IpHdr.bytes_length, length_take]
  omega

/-- A frame of `ipv4_send` is an ARP request, or the packet with a header
addressed to the resolved next hop. -/
theorem mem_ipv4Send {env : Env} {l : Link} {dstIp : U32} {proto : U8}
    {payload f : List U8} (h : f ∈ (ipv4Send env l dstIp proto payload len).frames) :
    etherType f = ethertypeArp ∧ l.resolve dstIp = none ∨
      len.toNat ≤ 1500 - ipHdrLen ∧ ∃ mac, l.resolve dstIp = some mac ∧
        f = (EthHdr.mk mac l.ourMac (htons ethertypeIpv4)).bytes ++
          ipPacket l dstIp proto payload len := by
  unfold ipv4Send at h
  split at h
  · simp at h
  · rename_i hlen
    have hle : len.toNat ≤ 1500 - ipHdrLen := Nat.le_of_not_lt hlen
    split at h
    · rename_i hnone
      left
      rw [mem_ethernetSend h, etherType_bytes_append]
      exact ⟨ntohs_htons _, hnone⟩
    · rename_i mac hmac
      right
      refine ⟨hle, mac, hmac, ?_⟩
      rw [mem_ethernetSend h, totalLen_toNat hle,
        take_of_length_le (ipPacket_length_le l dstIp proto payload len)]

/-- A payload that does not fit into a frame is not sent. -/
theorem ipv4Send_long {env : Env} {l : Link} {dstIp : U32} {proto : U8} {payload : List U8}
    (hlen : ¬ len.toNat ≤ 1500 - ipHdrLen) :
    (ipv4Send env l dstIp proto payload len).frames = [] := by
  unfold ipv4Send
  rw [if_pos (Nat.lt_of_not_le hlen)]

/-- Without a hardware address of the next hop at most an ARP request is sent. -/
theorem ipv4Send_unresolved {env : Env} {l : Link} {dstIp : U32} {proto : U8}
    {payload : List U8} (hnone : l.resolve dstIp = none) :
    (ipv4Send env l dstIp proto payload len).frames = [] ∨
      (ipv4Send env l dstIp proto payload len).frames =
        arpRequest env l.ourMac l.arp (l.nextHop dstIp) := by
  unfold ipv4Send
  split
  · exact .inl rfl
  · right
    simp only [hnone]

/-- With a resolved next hop and memory for the frame, exactly the packet is
sent. -/
theorem ipv4Send_frames {env : Env} {l : Link} {dstIp : U32} {mac : Mac} (proto : U8)
    (payload : List U8) (hlen : len.toNat ≤ 1500 - ipHdrLen) (hmac : l.resolve dstIp = some mac)
    (hmem : env.kmalloc (ethHeaderLen + (ipHdrLen + len.toNat)) = true) :
    (ipv4Send env l dstIp proto payload len).frames =
      [(EthHdr.mk mac l.ourMac (htons ethertypeIpv4)).bytes ++
        ipPacket l dstIp proto payload len] := by
  have hmax : ¬ ethMaxPayload < ipHdrLen + len.toNat := by
    simp only [ipHdrLen, ethMaxPayload] at hlen ⊢
    omega
  have htake := take_of_length_le (ipPacket_length_le l dstIp proto payload len)
  rw [ipv4Send, if_neg (Nat.not_lt.mpr hlen), hmac]
  simp only [ethernetSend, totalLen_toNat hlen, if_neg hmax, hmem, Bool.not_true,
    Bool.false_eq_true, if_false, htake]

/-- The packet is not too long, the next hop is resolved, there is memory for the frame and
the driver takes it. -/
def Takes (env : Env) (l : Link) (dstIp : U32) (proto : U8) (payload : List U8) (len : U16) :
    Prop :=
  len.toNat ≤ 1500 - ipHdrLen ∧ ∃ mac, l.resolve dstIp = some mac ∧
    env.kmalloc (ethHeaderLen + (ipHdrLen + len.toNat)) = true ∧
    0 ≤ env.e1000Ret ((EthHdr.mk mac l.ourMac (htons ethertypeIpv4)).bytes ++
      ipPacket l dstIp proto payload len)

/-- These are the conditions under which `ipv4_send` reports success. -/
theorem ipv4Send_ret_nonneg_iff (env : Env) (l : Link) (dstIp : U32) (proto : U8)
    (payload : List U8) (len : U16) :
    0 ≤ (ipv4Send env l dstIp proto payload len).ret ↔ Takes env l dstIp proto payload len := by
  unfold Takes
  by_cases hlen : len.toNat ≤ 1500 - ipHdrLen
  · rw [ipv4Send, if_neg (Nat.not_lt.mpr hlen)]
    cases hmac : l.resolve dstIp with
    | none =>
      refine iff_of_false (by simp) ?_
      rintro ⟨-, mac, hsome, -⟩
      cases hsome
    | some mac =>
      have hmax : ¬ ethMaxPayload < ipHdrLen + len.toNat := by
        simp only [ipHdrLen, ethMaxPayload] at hlen ⊢
        omega
      have htake := take_of_length_le (ipPacket_length_le l dstIp proto payload len)
      simp only [ethernetSend, totalLen_toNat hlen, if_neg hmax, htake]
      cases hmem : env.kmalloc (ethHeaderLen + (ipHdrLen + len.toNat)) with
      | false => simp
      | true => simp [hlen]
  · rw [ipv4Send, if_pos (Nat.lt_of_not_le hlen)]
    exact iff_of_false (by simp) (fun h => hlen h.1)

/-! ## Receiving -/

/-- The functions that are ever given to `ipv4_register`. -/
inductive IpHandler
  | icmpRx | udpRx | tcpRx
  deriving DecidableEq, Repr

/-- `ipv4_register`. -/
def ipv4Register (hs : List (U8 × IpHandler)) (proto : U8) (h : IpHandler) :
    List (U8 × IpHandler) :=
  if ipv4MaxHandlers ≤ hs.length then hs else hs ++ [(proto, h)]

/-- The table after the protocol modules have been initialised; nothing
registers later. -/
def ipHandlers : List (U8 × IpHandler) :=
  ipv4Register (ipv4Register (ipv4Register [] ipprotoIcmp .icmpRx) ipprotoUdp .udpRx)
    ipprotoTcp .tcpRx

/-- The directed broadcast address of our network. -/
def Link.bcast (l : Link) : U32 := (l.ourIp &&& l.ourNetmask) ||| ~~~ l.ourNetmask

/-- The destinations `ipv4_rx` accepts: everything before we have an address,
then our address and the broadcasts. -/
def Link.Accepts (l : Link) (dst : U32) : Prop :=
  l.ourIp = 0 ∨ dst = l.ourIp ∨ dst = l.bcast ∨ dst = limitedBroadcast

instance (l : Link) (dst : U32) : Decidable (l.Accepts dst) := by
  unfold Link.Accepts; infer_instance

/-- A handler call of `ipv4_rx`. -/
structure IpCall where
  handler : IpHandler
  payload : Ptr U8
  len : U16
  src : U32
  dst : U32

/-- `ipv4_rx` up to the handler call. -/
def ipv4Demux (l : Link) (p : Ptr U8) (len : U16) : Except Fault (Option IpCall) :=
  if len.toNat < ipHdrLen then .ok none
  else do
    let verIhl ← p.read 0
    if verIhl >>> 4 ≠ ipVersion then .ok none
    else
      let ihl : U8 := (verIhl &&& 0x0F) * 4
      if ihl.toNat < ipHdrLen ∨ len.toNat < ihl.toNat then .ok none
      else do
        let total := ntohs (← p.load16 2)
        if total.toNat < ihl.toNat ∨ len.toNat < total.toNat then .ok none
        else do
          let frag := ntohs (← p.load16 6)
          if frag &&& 0x1FFF ≠ 0 then .ok none
          else if frag &&& 0x2000 ≠ 0 then .ok none
          else do
            let src := ntohl (← p.load32 12)
            let dst := ntohl (← p.load32 16)
            if ¬ l.Accepts dst then .ok none
            else do
              let proto ← p.read 9
              match ipHandlers.lookup proto with
              | none => .ok none
              | some h => .ok (some
                  { handler := h
                    payload := p.add ihl.toNat
                    len := total - ofNat 16 ihl.toNat
                    src := src
                    dst := dst })

/-- Every read of `ipv4_rx` lies inside the packet, and a handler gets a
pointer to all of the length it is told. -/
theorem returns_ipv4Demux (l : Link) {p : Ptr U8} (h : p.Has len.toNat) :
    Returns (ipv4Demux l p len) (fun r => ∀ c ∈ r, c.payload.Has c.len.toNat) := by
  apply Returns.early (by simp)
  intro hlen
  have h20 : p.Has 20 := h.mono (Nat.le_of_not_lt hlen)
  apply (h20.returns_read (by decide)).bind
  intro verIhl _
  apply Returns.early (by simp)
  intro _
  apply Returns.early (by simp)
  intro hihl
  apply (h20.returns_load16 (by decide)).bind
  intro totalLen _
  apply Returns.early (by simp)
  intro htotal
  apply (h20.returns_load16 (by decide)).bind
  intro fragOff _
  apply Returns.early (by simp)
  intro _
  apply Returns.early (by simp)
  intro _
  apply (h20.returns_load32 (by decide)).bind
  intro src _
  apply (h20.returns_load32 (by decide)).bind
  intro dst _
  apply Returns.early (by simp)
  intro _
  apply (h20.returns_read (by decide)).bind
  intro proto _
  split
  · exact .ok (by simp)
  · grind [Returns.ok, Ptr.Has.add, Ptr.Has.mono]

end Ipv4
