import NamelessOS.HeapSafety
import NamelessOS.Icmp
import NamelessOS.Udp

/-!
# Packets built in heap blocks

`tcp_send`, `udp_send` and `icmp_ping` allocate a block for header and payload, store both
into it and pass it on to `ipv4_send`.  Here every store is checked against the end of the
block.  The size they ask for is computed in 16 bits: for the last few payload lengths it
wraps, and the payload is copied into a block that is hardly as long as its header.
-/

namespace PacketBuffers

open ByteOrder Checked Ethernet Ipv4 List

/-! ## Blocks -/

/-- The size of the block that `heap.c` sets aside for a request of `n` bytes. -/
def blockSize (n : Nat) : Nat := (Heap.capacity (Heap.newBlock 0 (BitVec.ofNat 64 n))).toNat

theorem le_blockSize {n : Nat} (h : n < 65536) : n ≤ blockSize n := by
  have hnat : (BitVec.ofNat 64 n).toNat = n := by
    rw [BitVec.toNat_ofNat]
    omega
  rw [blockSize, Heap.newBlock, Heap.capacity]
  generalize BitVec.ofNat 64 n = size at hnat
  by_cases hle : size ≤ 4096#64
  · obtain ⟨hclass, hfit, -⟩ := Heap.sizeClass_fit hle
    have hmax : ∀ j ≤ 9, Heap.classSize j < 2 ^ 64 := by decide
    rw [if_pos hle, BitVec.toNat_ofNat, Nat.mod_eq_of_lt (hmax _ hclass)]
    omega
  · have hpages : (Heap.numPages size).toNat = (size.toNat + 4103) / 4096 :=
      Heap.toNat_numPages (by omega)
    have hbytes : (Heap.numPages size * Heap.slabSize).toNat = (n + 4103) / 4096 * 4096 := by
      rw [BitVec.toNat_mul, hpages, hnat]
      show (n + 4103) / 4096 * 4096 % 2 ^ 64 = _
      omega
    rw [if_neg hle, BitVec.toNat_sub, hbytes]
    simp only [BitVec.toNat_ofNat]
    omega

theorem blockSize_small : ∀ n < 20, blockSize n ≤ 32 := by decide

/-- The answers of `kmalloc` during a call, by the size asked for: NULL, or a block of the
size that is set aside for the request. -/
structure Blocks where
  block : Nat → Option (List U8)
  zero : block 0 = none
  length_eq : ∀ {n : Nat} {b : List U8}, block n = some b → b.length = blockSize n

/-- The blocks of a heap; `fill` is what the bytes are before they are written. -/
def heapBlocks (h : Heap.HeapState) (fill : Nat → U8) : Blocks where
  block n :=
    if (Heap.kmalloc h (BitVec.ofNat 64 n)).2 = 0#64 then none
    else some ((List.range (blockSize n)).map fill)
  zero := rfl
  length_eq := by
    intro n b hb
    split at hb
    · cases hb
    · cases hb
      simp

/-! ## The builders -/

/-- What is passed to `ipv4_send`: the block and the length. -/
structure Packet where
  buf : List U8
  len : U16
  deriving DecidableEq, Repr

/-- The bytes that are sent. -/
def Packet.bytes (p : Packet) : List U8 := p.buf.take p.len.toNat

/-- The steps the builders share: allocate `total` bytes, store the header at the start and
the payload behind it, and store the checksum of the first `span` bytes into the header
field at `ckOff`. -/
def buildPacket (heap : Blocks) (total : U16) (hdr data : List U8) (ckOff span : Nat)
    (checksum : List U8 → U16) : Except Fault (Option Packet) :=
  match heap.block total.toNat with
  | none => .ok none
  | some block => do
      let pkt ← writeAt block 0 hdr
      let pkt ← writeAt pkt hdr.length data
      let summed ← Ptr.copy ⟨pkt, 0⟩ span
      let pkt ← writeAt pkt ckOff (store16 (checksum summed))
      .ok (some ⟨pkt, total⟩)

/-- `udp_send` up to the call of `ipv4_send`. -/
def udpSendAt (heap : Blocks) (l : Link) (dstIp : U32) (srcPort dstPort : U16)
    (data : Tcp.Buffer) : Except Fault (Option Packet) :=
  let total := BitVec.ofNat 16 (Socket.udpHdrLen + data.bytes.length)
  let hdr := Udp.udpHdr srcPort dstPort total
  buildPacket heap total hdr.bytes data.bytes 6 (Socket.udpHdrLen + data.bytes.length)
    (fun pkt => Udp.udpChecksum l.ourIp dstIp hdr (pkt.drop Socket.udpHdrLen))

/-- `icmp_ping` up to the call of `ipv4_send`. -/
def icmpPingAt (heap : Blocks) (id seq : U16) (data : Tcp.Buffer) : Except Fault (Option Packet) :=
  let total := BitVec.ofNat 16 (Icmp.icmpHdrLen + data.bytes.length)
  buildPacket heap total (Icmp.echoHdr id seq).bytes data.bytes 2 total.toNat
    (fun pkt => ipChecksum pkt total)

/-- The segment of `tcp_send`, finished by `tcp_send_raw`.  The checksum field that
`tcp_send_raw` clears first has been stored as zero with the header. -/
def tcpSegmentAt (heap : Blocks) (c : Tcp.TcpConn) (data : Tcp.Buffer) :
    Except Fault (Option Packet) :=
  let total := BitVec.ofNat 16 (Tcp.tcpHdrLen + data.bytes.length)
  buildPacket heap total (Tcp.connHdr c (Tcp.tcpPsh ||| Tcp.tcpAck) c.sndNxt c.rcvNxt).bytes
    data.bytes 16 total.toNat (Tcp.tcpChecksum c.localIp c.remoteIp)

/-- `tcp_send` up to the call of `ipv4_send`. -/
def tcpSendAt (heap : Blocks) (t : Tcp.Table) (id : Int) (data : Tcp.Buffer) :
    Except Fault (Option Packet) :=
  match Tcp.connIdx id with
  | none => .ok none
  | some i =>
    let c := t.conns i
    if c.state ≠ .established ∧ c.state ≠ .closeWait then .ok none
    else if data.bytes.length = 0 then .ok none
    else tcpSegmentAt heap c data

/-! ## What they write -/

/-- The payload with its header, the checksum stored into its field. -/
def finished (hdr data : List U8) (ckOff : Nat) (checksum : List U8 → U16) : List U8 :=
  hdr.take ckOff ++ store16 (checksum (hdr ++ data)) ++ hdr.drop (ckOff + 2) ++ data

section Build

variable {heap : Blocks} {total : U16} {hdr data block : List U8} {ckOff span : Nat}
  (checksum : List U8 → U16)

theorem finished_length (hck : ckOff + 2 ≤ hdr.length) :
    (finished hdr data ckOff checksum).length = hdr.length + data.length := by
  simp only [finished, length_append, length_take, length_drop, store16,
    length_cons, length_nil]
  omega

theorem buildPacket_of_fits (hblock : heap.block total.toNat = some block)
    (hfits : hdr.length + data.length ≤ block.length) (hck : ckOff + 2 ≤ hdr.length)
    (hspan : span = hdr.length + data.length) :
    buildPacket heap total hdr data ckOff span checksum = .ok (some
      ⟨finished hdr data ckOff checksum ++ block.drop (hdr.length + data.length), total⟩) := by
  have hhdr : writeAt block 0 hdr = .ok (hdr ++ block.drop hdr.length) := by
    rw [writeAt_of_fits (by omega), take_zero, nil_append, Nat.zero_add]
  have hdata : writeAt (hdr ++ block.drop hdr.length) hdr.length data
      = .ok (hdr ++ data ++ block.drop (hdr.length + data.length)) := by
    rw [writeAt_of_fits (by rw [length_append, length_drop]; omega), take_left,
      drop_length_add_append, drop_drop]
  have hholds := (Ptr.holds_start
    (hdr ++ data ++ block.drop (hdr.length + data.length))).append_left
  have hcopy : Ptr.copy ⟨hdr ++ data ++ block.drop (hdr.length + data.length), 0⟩ span
      = .ok (hdr ++ data) := by
    rw [hspan.trans length_append.symm, Ptr.copy_of_has hholds.has, hholds.view_eq]
  have htwo : ∀ ck : U16, (store16 ck).length = 2 := fun _ => rfl
  have hsum : ∀ ck : U16,
      writeAt (hdr ++ data ++ block.drop (hdr.length + data.length)) ckOff (store16 ck)
        = .ok (hdr.take ckOff ++ store16 ck ++ hdr.drop (ckOff + 2) ++ data ++
            block.drop (hdr.length + data.length)) := by
    intro ck
    rw [writeAt_of_fits (by rw [htwo]; simp only [length_append]; omega), htwo,
      append_assoc hdr data, take_append_of_le_length (by omega),
      drop_append_of_le_length hck]
    simp only [append_assoc]
  rw [buildPacket, hblock]
  dsimp only
  rw [hhdr, ok_bind, hdata, ok_bind, hcopy, ok_bind, hsum, ok_bind]
  rfl

theorem buildPacket_fault (hblock : heap.block total.toNat = some block)
    (hsmall : block.length < hdr.length + data.length) (hhdr : hdr ≠ []) (hdata : data ≠ []) :
    buildPacket heap total hdr data ckOff span checksum = .error .outOfBounds := by
  rw [buildPacket, hblock]
  dsimp only
  by_cases hle : hdr.length ≤ block.length
  · rw [writeAt_of_fits (by omega), ok_bind, writeAt_fault hdata ?_]
    · rfl
    · simp only [length_append, length_drop, length_take]
      omega
  · rw [writeAt_fault hhdr (by omega)]
    rfl

end Build

/-- What the three builders have in common: the total is header and payload in 16 bits, the
checksum field lies in a header of at most 20 bytes, and the checksum covers the packet. -/
structure Layout (total : U16) (hdr : List U8) (data : Tcp.Buffer) (ckOff span : Nat) : Prop where
  total_eq : total = BitVec.ofNat 16 (hdr.length + data.bytes.length)
  ckField : ckOff + 2 ≤ hdr.length
  short : hdr.length ≤ 20
  covered : hdr.length + data.bytes.length < 65536 → span = hdr.length + data.bytes.length

/-- `hdrLen` and the length of the payload add up in 16 bits, or `kmalloc` has no block for
what they add up to. -/
def SizeOk (heap : Blocks) (hdrLen : Nat) (data : Tcp.Buffer) : Prop :=
  hdrLen + data.bytes.length ≤ 65536 ∨ heap.block (hdrLen + data.bytes.length - 65536) = none

/-- No store leaves the block, which is as long as header and payload, and the lengths that
the packet carries are theirs. -/
def Inside (hdrLen : Nat) (data : Tcp.Buffer) (lengths : Packet → List Nat)
    (built : Except Fault (Option Packet)) : Prop :=
  Returns built (fun r => ∀ p ∈ r, hdrLen + data.bytes.length ≤ p.buf.length ∧
    ∀ n ∈ lengths p, n = hdrLen + data.bytes.length)

theorem Inside.nothing (hdrLen : Nat) (data : Tcp.Buffer) (lengths : Packet → List Nat) :
    Inside hdrLen data lengths (.ok none) := by
  apply Returns.ok
  intro p hp
  cases hp

namespace Layout

variable {heap : Blocks} {total : U16} {hdr : List U8} {data : Tcp.Buffer} {ckOff span : Nat}
  (checksum : List U8 → U16)

section

variable (hl : Layout total hdr data ckOff span)
include hl

theorem total_toNat
    (h : hdr.length + data.bytes.length < 65536) :
    total.toNat = hdr.length + data.bytes.length := by
  rw [hl.total_eq, BitVec.toNat_ofNat, Nat.mod_eq_of_lt h]

theorem wrapped_toNat
    (h : 65536 < hdr.length + data.bytes.length) :
    total.toNat = hdr.length + data.bytes.length - 65536 := by
  have hshort := data.short
  have hhdr := hl.short
  rw [hl.total_eq, BitVec.toNat_ofNat]
  omega

theorem build_of_short
    (h : hdr.length + data.bytes.length < 65536) :
    buildPacket heap total hdr data.bytes ckOff span checksum =
      .ok ((heap.block total.toNat).map (fun block =>
        ⟨finished hdr data.bytes ckOff checksum ++
          block.drop (hdr.length + data.bytes.length), total⟩)) := by
  cases hblock : heap.block total.toNat with
  | none => rw [buildPacket, hblock]; rfl
  | some block =>
    have htotal := hl.total_toNat h
    have hroom := le_blockSize (n := total.toNat) (by omega)
    grind [buildPacket_of_fits, Blocks.length_eq, ckField, covered]

theorem build_of_zero
    (h : hdr.length + data.bytes.length = 65536) :
    buildPacket heap total hdr data.bytes ckOff span checksum = .ok none := by
  have htotal : total.toNat = 0 := by rw [hl.total_eq, h]; rfl
  rw [buildPacket, htotal, heap.zero]

theorem build_of_wrapped
    (h : 65536 < hdr.length + data.bytes.length) {block : List U8}
    (hblock : heap.block (hdr.length + data.bytes.length - 65536) = some block) :
    buildPacket heap total hdr data.bytes ckOff span checksum = .error .outOfBounds := by
  have hshort := data.short
  have hhdr := hl.short
  have hsmall := blockSize_small (hdr.length + data.bytes.length - 65536) (by omega)
  grind [buildPacket_fault, wrapped_toNat, Blocks.length_eq, ne_nil_of_length_pos]

/-- **One builder.**  It stays inside its block exactly when the total does not wrap past
zero or there is no block. -/
theorem inside_iff {lengths : Packet → List Nat}
    (hlengths : ∀ rest, ∀ n ∈ lengths ⟨finished hdr data.bytes ckOff checksum ++ rest, total⟩,
      n = total.toNat) : Inside hdr.length data lengths
      (buildPacket heap total hdr data.bytes ckOff span checksum) ↔
        SizeOk heap hdr.length data := by
  rcases Nat.lt_trichotomy (hdr.length + data.bytes.length) 65536 with hlt | heq | hgt
  · refine iff_of_true ?_ (.inl (Nat.le_of_lt hlt))
    rw [hl.build_of_short checksum hlt]
    apply Returns.ok
    intro p hp
    obtain ⟨block, -, rfl⟩ := Option.map_eq_some_iff.mp hp
    grind [finished_length, ckField, total_toNat]
  · refine iff_of_true ?_ (.inl (Nat.le_of_eq heq))
    rw [hl.build_of_zero checksum heq]
    exact .nothing _ _ _
  · cases hblock : heap.block (hdr.length + data.bytes.length - 65536) with
    | none =>
      refine iff_of_true ?_ (.inr hblock)
      rw [buildPacket, hl.wrapped_toNat hgt, hblock]
      exact .nothing _ _ _
    | some block =>
      refine iff_of_false ?_ ?_
      · rw [hl.build_of_wrapped checksum hgt hblock]
        intro hin
        obtain ⟨r, hr, -⟩ := hin
        cases hr
      · intro hok
        rcases hok with hle | hnone
        · omega
        · rw [hblock] at hnone
          cases hnone

theorem of_ok {r : Option Packet}
    (hrun : buildPacket heap total hdr data.bytes ckOff span checksum = .ok r) :
    (heap.block total.toNat = none ∧ r = none) ∨ (heap.block total.toNat).isSome = true ∧
        total.toNat = hdr.length + data.bytes.length ∧
        ∃ p, r = some p ∧ p.len = total ∧ p.bytes = finished hdr data.bytes ckOff checksum := by
  cases hblock : heap.block total.toNat with
  | none =>
    rw [buildPacket, hblock] at hrun
    cases hrun
    exact .inl ⟨rfl, rfl⟩
  | some block =>
    have hlt : hdr.length + data.bytes.length < 65536 := by
      rcases Nat.lt_trichotomy (hdr.length + data.bytes.length) 65536 with hlt | heq | hgt
      · exact hlt
      · have htotal : total.toNat = 0 := by rw [hl.total_eq, heq]; rfl
        rw [htotal, heap.zero] at hblock
        cases hblock
      · rw [hl.wrapped_toNat hgt] at hblock
        rw [hl.build_of_wrapped checksum hgt hblock] at hrun
        cases hrun
    have htotal := hl.total_toNat hlt
    rw [hl.build_of_short checksum hlt, hblock] at hrun
    cases hrun
    refine .inr ⟨rfl, htotal, _, rfl, rfl, ?_⟩
    rw [Packet.bytes, htotal, ← finished_length checksum hl.ckField]
    exact take_left

end

end Layout

/-! ## The three builders -/

section Layouts

variable (l : Link) (c : Tcp.TcpConn) (srcPort dstPort id seq : U16) (data : Tcp.Buffer)

theorem udp_layout : Layout (BitVec.ofNat 16 (Socket.udpHdrLen + data.bytes.length))
    (Udp.udpHdr srcPort dstPort (BitVec.ofNat 16 (Socket.udpHdrLen + data.bytes.length))).bytes
    data 6 (Socket.udpHdrLen + data.bytes.length) where
  total_eq := rfl
  ckField := by rw [Udp.UdpHdr.bytes_length]; decide
  short := by rw [Udp.UdpHdr.bytes_length]; decide
  covered _ := rfl

theorem icmp_layout : Layout (BitVec.ofNat 16 (Icmp.icmpHdrLen + data.bytes.length))
    (Icmp.echoHdr id seq).bytes data 2
    (BitVec.ofNat 16 (Icmp.icmpHdrLen + data.bytes.length)).toNat where
  total_eq := rfl
  ckField := by rw [Icmp.IcmpHdr.bytes_length]; decide
  short := by rw [Icmp.IcmpHdr.bytes_length]; decide
  covered h := by
    rw [BitVec.toNat_ofNat]
    exact Nat.mod_eq_of_lt h

theorem tcp_layout : Layout (BitVec.ofNat 16 (Tcp.tcpHdrLen + data.bytes.length))
    (Tcp.connHdr c (Tcp.tcpPsh ||| Tcp.tcpAck) c.sndNxt c.rcvNxt).bytes data 16
    (BitVec.ofNat 16 (Tcp.tcpHdrLen + data.bytes.length)).toNat where
  total_eq := rfl
  ckField := by rw [Tcp.TcpHdr.bytes_length]; decide
  short := by rw [Tcp.TcpHdr.bytes_length]; decide
  covered h := by
    rw [BitVec.toNat_ofNat]
    exact Nat.mod_eq_of_lt h

end Layouts

/-- A call of `ipv4_send` that fails before it is made. -/
def notSent (l : Link) : Sent := { link := l, frames := [], ret := -1 }

theorem ipv4Send_packet (env : Env) (l : Link) (dstIp : U32) (proto : U8) {p : Packet}
    {bytes : List U8} {total : U16} (hlen : p.len = total) (hbytes : p.bytes = bytes)
    (hfull : bytes.length = total.toNat) :
    ipv4Send env l dstIp proto bytes total = ipv4Send env l dstIp proto p.buf p.len := by
  grind [ipv4Send_congr, Packet.bytes]

section Agreement

variable {env : Env} {heap : Blocks} (hmem : ∀ n, env.kmalloc n = (heap.block n).isSome)
  {r : Option Packet}
include hmem

/-- A run of `udp_send` that stays inside its block sends what the model over byte lists
sends. -/
theorem udpSendAt_agrees {l : Link} {dstIp : U32} {srcPort dstPort : U16} {data : Tcp.Buffer}
    (hrun : udpSendAt heap l dstIp srcPort dstPort data = .ok r) :
    Udp.udpSend env l dstIp srcPort dstPort data =
      r.elim (notSent l) (fun p => ipv4Send env l dstIp ipprotoUdp p.buf p.len) := by
  rcases (udp_layout srcPort dstPort data).of_ok _ hrun with
    ⟨hnone, rfl⟩ | ⟨hsome, htotal, p, rfl, hlen, hbytes⟩
  · rw [Udp.udpSend, hmem, hnone]
    rfl
  · rw [Udp.udpSend, hmem, hsome]
    exact ipv4Send_packet env l dstIp ipprotoUdp hlen hbytes (by rw [htotal, length_append]; rfl)

/-- The same of `icmp_ping`. -/
theorem icmpPingAt_agrees {l : Link} {dstIp : U32} {id seq : U16} {data : Tcp.Buffer}
    (hrun : icmpPingAt heap id seq data = .ok r) : Icmp.icmpPing env l dstIp id seq data =
      r.elim (notSent l) (fun p => ipv4Send env l dstIp ipprotoIcmp p.buf p.len) := by
  rcases (icmp_layout id seq data).of_ok _ hrun with
    ⟨hnone, rfl⟩ | ⟨hsome, htotal, p, rfl, hlen, hbytes⟩
  · rw [Icmp.icmpPing, hmem, hnone]
    rfl
  · rw [Icmp.icmpPing, hmem, hsome]
    exact ipv4Send_packet env l dstIp ipprotoIcmp hlen hbytes (by rw [htotal, length_append]; rfl)

end Agreement

/-- The same of `tcp_send`: what it passes on is the segment of the model. -/
theorem tcpSendAt_agrees {env : Tcp.Env} {heap : Blocks}
    (hmem : ∀ n, env.kmalloc n = (heap.block n).isSome) {t : Tcp.Table} {id : Int}
    {i : Tcp.ConnIdx} {data : Tcp.Buffer} {r : Option Packet} (hid : Tcp.connIdx id = some i)
    (hrun : tcpSendAt heap t id data = .ok r) : (Tcp.tcpSend env t id data).2.1 =
      (r.map (fun p => Tcp.Output.ipv4Send (t.conns i).remoteIp p.bytes)).toList := by
  rw [tcpSendAt, hid] at hrun
  rw [Tcp.tcpSend, hid]
  dsimp only at hrun ⊢
  split
  · rename_i hstate
    rw [if_pos hstate] at hrun
    cases hrun
    rfl
  rename_i hstate
  rw [if_neg hstate] at hrun
  split
  · rename_i hdata
    rw [if_pos hdata] at hrun
    cases hrun
    rfl
  rename_i hdata
  rw [if_neg hdata] at hrun
  have hlen : (Tcp.dataSegment (t.conns i) data).length
      = (BitVec.ofNat 16 (Tcp.tcpHdrLen + data.bytes.length)).toNat := by
    rw [Tcp.dataSegment_length, BitVec.toNat_ofNat]
  rw [hmem, hlen]
  rcases (tcp_layout (t.conns i) data).of_ok _ hrun with
    ⟨hnone, rfl⟩ | ⟨hsome, htotal, p, rfl, -, hbytes⟩
  · rw [hnone]
    rfl
  · have hfits : Tcp.tcpHdrLen + data.bytes.length < 65536 := by
      have hlt := (BitVec.ofNat 16 (Tcp.tcpHdrLen + data.bytes.length)).isLt
      rwa [htotal, Tcp.TcpHdr.bytes_length] at hlt
    rw [hsome, Tcp.tcpSendRaw_retxArm, Tcp.dataSegment_eq (t.conns i) hfits]
    show [Tcp.Output.ipv4Send _ _] = [Tcp.Output.ipv4Send _ _]
    rw [hbytes]
    rfl

/-- The length field of a UDP header. -/
def Packet.udpLength (p : Packet) : U16 := ntohs (load16 (p.buf.getD 4 0) (p.buf.getD 5 0))

/-- The connection is one that `tcp_send` sends on. -/
def CanSend (t : Tcp.Table) (id : Int) : Prop := ∃ i, Tcp.connIdx id = some i ∧
    ((t.conns i).state = .established ∨ (t.conns i).state = .closeWait)

theorem tcpSendAt_inside_iff (heap : Blocks) (t : Tcp.Table) (id : Int) (data : Tcp.Buffer) :
    Inside Tcp.tcpHdrLen data (fun p => [p.len.toNat]) (tcpSendAt heap t id data) ↔
      (CanSend t id → SizeOk heap Tcp.tcpHdrLen data) := by
  have hrefused : ¬ CanSend t id → (CanSend t id → SizeOk heap Tcp.tcpHdrLen data) :=
    fun hno h => absurd h hno
  unfold tcpSendAt
  split
  · rename_i hid
    refine iff_of_true (.nothing _ _ _) (hrefused ?_)
    intro hcan
    obtain ⟨i, hi, -⟩ := hcan
    cases hid.symm.trans hi
  · rename_i i hid
    dsimp only
    split
    · rename_i hstate
      refine iff_of_true (.nothing _ _ _) (hrefused ?_)
      intro hcan
      obtain ⟨j, hj, hopen⟩ := hcan
      cases hid.symm.trans hj
      exact hopen.elim hstate.1 hstate.2
    · rename_i hstate
      have hcan : CanSend t id := ⟨i, hid, by tauto⟩
      split
      · rename_i hdata
        refine iff_of_true (.nothing _ _ _) (fun _ => .inl ?_)
        rw [hdata]
        decide
      · rw [imp_iff_right hcan]
        refine (tcp_layout (t.conns i) data).inside_iff _ ?_
        intro rest n hn
        exact mem_singleton.mp hn

/-- **Packet builders.**  For every payload and whatever `kmalloc` answers, each builder
stays inside its block, and the lengths it passes on are those of header and payload, exactly
when these add up in 16 bits or there is no block for what they add up to. -/
theorem packets_inside_iff (heap : Blocks) (l : Link) (t : Tcp.Table) (conn : Int) (dstIp : U32)
    (srcPort dstPort id seq : U16) (data : Tcp.Buffer) :
    (Inside Tcp.tcpHdrLen data (fun p => [p.len.toNat]) (tcpSendAt heap t conn data) ↔
      (CanSend t conn → SizeOk heap Tcp.tcpHdrLen data)) ∧
    (Inside Socket.udpHdrLen data (fun p => [p.len.toNat, p.udpLength.toNat])
      (udpSendAt heap l dstIp srcPort dstPort data) ↔ SizeOk heap Socket.udpHdrLen data) ∧
    (Inside Icmp.icmpHdrLen data (fun p => [p.len.toNat]) (icmpPingAt heap id seq data) ↔
      SizeOk heap Icmp.icmpHdrLen data) := by
  refine ⟨tcpSendAt_inside_iff heap t conn data, ?_, ?_⟩
  · refine (udp_layout srcPort dstPort data).inside_iff _ ?_
    intro rest n hn
    have hfield : ∀ total : U16, ntohs (load16 (byteAt (htons total) 0) (byteAt (htons total) 1))
        = total := fun total => (congrArg ntohs (load16_store16 _)).trans (ntohs_htons total)
    rcases mem_cons.mp hn with hlen | hlen
    · exact hlen
    · rw [mem_singleton.mp hlen]
      exact congrArg BitVec.toNat (hfield _)
  · refine (icmp_layout id seq data).inside_iff _ ?_
    intro rest n hn
    exact mem_singleton.mp hn

/-- A payload of 65535 bytes. -/
def longData : Tcp.Buffer where
  bytes := List.replicate 65535 0
  short := by rw [length_replicate]; decide

/-- The heap after boot, with two free frames. -/
def bootBlocks : Blocks := heapBlocks Heap.twoFrameWorld.heap (fun _ => 0)

/-- One byte. -/
def oneByte : Tcp.Buffer := ⟨[7#8], by decide⟩

theorem tcpSendAt_agrees_oneByte :
    let t := Tcp.initTable.set 0 { Tcp.bssConn with state := .established }
    let env : Tcp.Env := ⟨0, 0, fun n => (bootBlocks.block n).isSome, fun _ => 0⟩
    ∃ r, tcpSendAt bootBlocks t 0 oneByte = .ok r ∧ (Tcp.tcpSend env t 0 oneByte).2.1 =
      (r.map (fun p => Tcp.Output.ipv4Send (t.conns 0).remoteIp p.bytes)).toList := by
  intro t env
  obtain ⟨r, hrun, -⟩ := (tcpSendAt_inside_iff bootBlocks t 0 oneByte).mpr (fun _ => .inl (by decide))
  exact ⟨r, hrun, tcpSendAt_agrees (fun n => by cases n <;> rfl) rfl hrun⟩

theorem bootBlocks_block {n : Nat}
    (h : (Heap.kmalloc Heap.twoFrameWorld.heap (BitVec.ofNat 64 n)).2 ≠ 0#64) :
    bootBlocks.block n = some ((List.range (blockSize n)).map (fun _ => 0)) := if_neg h

theorem Layout.longest {heap : Blocks} {total : U16} {hdr block : List U8} {data : Tcp.Buffer}
    {ckOff span : Nat} (checksum : List U8 → U16) (hl : Layout total hdr data ckOff span)
    (hlen : data.bytes.length = 65535) (hblock : heap.block (hdr.length - 1) = some block) :
    buildPacket heap total hdr data.bytes ckOff span checksum = .error .outOfBounds := by
  have hfield := hl.ckField
  grind [build_of_wrapped]

section Longest

variable {data : Tcp.Buffer} (hlen : data.bytes.length = 65535)
include hlen

theorem tcpSendAt_longest {t : Tcp.Table} {id : Int} {i : Tcp.ConnIdx}
    (hid : Tcp.connIdx id = some i) (hstate : (t.conns i).state = .established) :
    tcpSendAt bootBlocks t id data = .error .outOfBounds := by
  rw [tcpSendAt, hid]
  dsimp only
  rw [if_neg (fun h => h.1 hstate), if_neg (by omega)]
  exact (tcp_layout (t.conns i) data).longest _ hlen (bootBlocks_block (n := 19) (by decide +kernel))

theorem udpSendAt_longest (l : Link) (dstIp : U32) (srcPort dstPort : U16) :
    udpSendAt bootBlocks l dstIp srcPort dstPort data = .error .outOfBounds :=
  (udp_layout srcPort dstPort data).longest _ hlen (bootBlocks_block (n := 7) (by decide +kernel))

theorem icmpPingAt_longest (id seq : U16) :
    icmpPingAt bootBlocks id seq data = .error .outOfBounds :=
  (icmp_layout id seq data).longest _ hlen (bootBlocks_block (n := 7) (by decide +kernel))

end Longest

/-- A datagram of 65535 bytes is copied into a block of eight, and so is a ping; the segment of
an established connection is copied into a block of 32. -/
theorem long_payload_overruns :
    tcpSendAt bootBlocks (Tcp.initTable.set 0 { Tcp.bssConn with state := .established }) 0
        longData = .error .outOfBounds ∧
      udpSendAt bootBlocks (initLink Arp.zeroMac) 0 0 0 longData = .error .outOfBounds ∧
      icmpPingAt bootBlocks 0 0 longData = .error .outOfBounds := by
  have hlen : longData.bytes.length = 65535 := length_replicate
  refine ⟨tcpSendAt_longest hlen (i := 0) rfl ?_, udpSendAt_longest hlen _ _ _ _,
    icmpPingAt_longest hlen _ _⟩
  rw [Tcp.Table.set_same]

end PacketBuffers
