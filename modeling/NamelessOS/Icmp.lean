import NamelessOS.Ipv4

/-!
# ICMP echo

`net/icmp/icmp.c`: the echo request that `icmp_ping` sends and the reply that
`icmp_rx` makes out of a received request.
-/

namespace Icmp

open ByteOrder Checked Ethernet Ipv4

def icmpTypeEchoReply : U8 := 0
def icmpTypeEchoRequest : U8 := 8
def icmpHdrLen : Nat := 8

/-- `icmp_hdr_t`; multi-byte fields are in network order. -/
structure IcmpHdr where
  type : U8
  code : U8
  checksum : U16
  id : U16
  seq : U16
  deriving DecidableEq, Repr

def IcmpHdr.bytes (h : IcmpHdr) : List U8 :=
  [h.type, h.code] ++ store16 h.checksum ++ store16 h.id ++ store16 h.seq

@[simp] theorem IcmpHdr.bytes_length (h : IcmpHdr) : h.bytes.length = icmpHdrLen := rfl

/-- The header of an echo request, with a zero checksum field. -/
def echoHdr (id seq : U16) : IcmpHdr where
  type := icmpTypeEchoRequest
  code := 0
  checksum := 0
  id := htons id
  seq := htons seq

/-- `icmp_ping`.  The total length is a `u16`; checksum and packet cover that
many bytes of header and data. -/
def icmpPing (env : Env) (l : Link) (dstIp : U32) (id seq : U16) (data : Tcp.Buffer) : Sent :=
  let total := BitVec.ofNat 16 (icmpHdrLen + data.bytes.length)
  if !env.kmalloc total.toNat then { link := l, frames := [], ret := -1 }
  else
    let hdr := echoHdr id seq
    let hdr := { hdr with checksum := ipChecksum (hdr.bytes ++ data.bytes) total }
    ipv4Send env l dstIp ipprotoIcmp (hdr.bytes ++ data.bytes) total

/-- Store a checksum value into the header field at offset 2. -/
def storeChecksum (msg : List U8) (ck : U16) : List U8 :=
  (msg.set 2 (byteAt ck 0)).set 3 (byteAt ck 1)

/-- The reply to a request: the same message with the type replaced and a new
checksum. -/
def echoReply (request : List U8) (len : U16) : List U8 :=
  let reply := storeChecksum (request.set 0 icmpTypeEchoReply) 0
  storeChecksum reply (ipChecksum reply len)

/-- `icmp_rx`: the static data afterwards and the frames sent. -/
def icmpRx (env : Env) (l : Link) (p : Ptr U8) (len : U16) (srcIp : U32) :
    Except Fault (Link × List (List U8)) :=
  if len.toNat < icmpHdrLen then .ok (l, [])
  else do
    let type ← p.read 0
    let code ← p.read 1
    if type = icmpTypeEchoRequest ∧ code = 0 then
      if !env.kmalloc len.toNat then .ok (l, [])
      else do
        let request ← p.copy len.toNat
        let sent := ipv4Send env l srcIp ipprotoIcmp (echoReply request len) len
        -- the log line reads the identifier and the sequence number
        let _id ← p.load16 4
        let _seq ← p.load16 6
        .ok (sent.link, sent.frames)
    else .ok (l, [])

/-- Every read of `icmp_rx` lies inside the message. -/
theorem returns_icmpRx (env : Env) (l : Link) {p : Ptr U8} {len : U16} (srcIp : U32)
    (h : p.Has len.toNat) : Returns (icmpRx env l p len srcIp) (fun _ => True) := by
  apply Returns.early trivial
  intro hlen
  have h8 : p.Has 8 := h.mono (Nat.le_of_not_lt hlen)
  apply (h8.returns_read (by decide)).bind
  intro type _
  apply (h8.returns_read (by decide)).bind
  intro code _
  apply Returns.ite
  · intro _
    apply Returns.early trivial
    intro _
    apply h.returns_copy.bind
    intro request _
    apply (h8.returns_load16 (by decide)).bind
    intro id _
    apply (h8.returns_load16 (by decide)).bind
    intro seq _
    exact .ok trivial
  · intro _
    exact .ok trivial

end Icmp
