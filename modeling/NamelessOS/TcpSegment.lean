import NamelessOS.ByteOrder

/-!
# TCP segments

The constants and the on-wire header of `net/tcp/tcp_internal.h`, and the
part of `tcp_rx` that turns a received byte string into the fields the state
machine works on.  Header fields hold network-order values, exactly as the
packed structure does; `TcpHdr.bytes` is its memory image.
-/

namespace Tcp

open ByteOrder

def tcpHdrLen : Nat := 20

def tcpFin : U8 := 0x01
def tcpSyn : U8 := 0x02
def tcpRst : U8 := 0x04
def tcpPsh : U8 := 0x08
def tcpAck : U8 := 0x10

/-- Five 32-bit words in the high nibble: a header without options. -/
def tcpDataOffMin : U8 := 0x50

abbrev tcpRxBufSize : Nat := 4096
def tcpWindow : Nat := tcpRxBufSize
def tcpRtoMs : Nat := 1000
def tcpMaxRetries : Nat := 5
def tcpTimeWaitMs : Nat := 4000
abbrev tcpMaxConn : Nat := 8

/-- `IPPROTO_TCP`. -/
def ipprotoTcp : U8 := 6

/-- A byte buffer together with the fact that its length fits the `u16` in
which every function of the stack receives it. -/
structure Buffer where
  bytes : List U8
  short : bytes.length < 65536

/-- `tcp_hdr_t`; multi-byte fields are in network order. -/
structure TcpHdr where
  srcPort : U16
  dstPort : U16
  seq : U32
  ack : U32
  dataOff : U8
  flags : U8
  window : U16
  checksum : U16
  urgPtr : U16
  deriving DecidableEq, Repr

/-- The packed header in memory. -/
def TcpHdr.bytes (h : TcpHdr) : List U8 :=
  store16 h.srcPort ++ store16 h.dstPort ++ store32 h.seq ++ store32 h.ack ++
    [h.dataOff, h.flags] ++
    store16 h.window ++ store16 h.checksum ++ store16 h.urgPtr

/-- Overlay the header structure on the first 20 bytes of a buffer. -/
def TcpHdr.ofBytes (p : List U8) : TcpHdr where
  srcPort := load16 (p.getD 0 0) (p.getD 1 0)
  dstPort := load16 (p.getD 2 0) (p.getD 3 0)
  seq := load32 (p.getD 4 0) (p.getD 5 0) (p.getD 6 0) (p.getD 7 0)
  ack := load32 (p.getD 8 0) (p.getD 9 0) (p.getD 10 0) (p.getD 11 0)
  dataOff := p.getD 12 0
  flags := p.getD 13 0
  window := load16 (p.getD 14 0) (p.getD 15 0)
  checksum := load16 (p.getD 16 0) (p.getD 17 0)
  urgPtr := load16 (p.getD 18 0) (p.getD 19 0)

@[simp] theorem TcpHdr.bytes_length (h : TcpHdr) : h.bytes.length = tcpHdrLen := rfl

/-- Reading a header back from the front of a segment. -/
theorem TcpHdr.ofBytes_bytes_append (h : TcpHdr) (data : List U8) :
    TcpHdr.ofBytes (h.bytes ++ data) = h := by
  cases h
  simp [TcpHdr.ofBytes, TcpHdr.bytes, store16, store32, load16_store16, load32_store32]

/-- What `tcp_rx` extracts from a packet: host-order header fields and the
bytes after the header. -/
structure Segment where
  srcPort : U16
  dstPort : U16
  seq : U32
  ack : U32
  wnd : U16
  flags : U8
  data : List U8
  deriving DecidableEq, Repr

/-- `flags & bit`. -/
def Segment.has (seg : Segment) (bit : U8) : Bool := seg.flags &&& bit != 0

/-- The length checks and field extraction at the head of `tcp_rx`; `none`
is one of its two silent drops. -/
def parseSegment (payload : Buffer) : Option Segment :=
  let len := payload.bytes.length
  if len < tcpHdrLen then none
  else
    let h := TcpHdr.ofBytes payload.bytes
    let hdrLen := (h.dataOff >>> 4).toNat * 4
    if hdrLen < tcpHdrLen ∨ hdrLen > len then none
    else some
      { srcPort := ntohs h.srcPort
        dstPort := ntohs h.dstPort
        seq := ntohl h.seq
        ack := ntohl h.ack
        wnd := ntohs h.window
        flags := h.flags
        data := payload.bytes.drop hdrLen }

/-- A header without options followed by a payload is accepted and read back
field by field. -/
theorem parseSegment_bytes_append (h : TcpHdr) (data : List U8)
    (hoff : h.dataOff = tcpDataOffMin) (hshort : (h.bytes ++ data).length < 65536) :
    parseSegment ⟨h.bytes ++ data, hshort⟩ = some
      { srcPort := ntohs h.srcPort
        dstPort := ntohs h.dstPort
        seq := ntohl h.seq
        ack := ntohl h.ack
        wnd := ntohs h.window
        flags := h.flags
        data := data } := by
  have hlen : (h.bytes ++ data).length = tcpHdrLen + data.length := by simp
  have hwords : (h.dataOff >>> 4).toNat * 4 = tcpHdrLen := by rw [hoff]; rfl
  have hdrop : (h.bytes ++ data).drop tcpHdrLen = data := by
    rw [← TcpHdr.bytes_length h, List.drop_left]
  simp only [parseSegment, TcpHdr.ofBytes_bytes_append, hwords, hdrop, hlen]
  rw [if_neg (by omega), if_neg (by omega)]

end Tcp
