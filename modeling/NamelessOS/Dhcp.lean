import NamelessOS.Udp

/-!
# The DHCP client

`net/dhcp/dhcp.c`: the two messages the client sends, the option parser and
the state machine driven by received messages and by the timer.

`parse_options` walks type-length-value options with two cursors; its loop is
given fuel, and running out of fuel is a fault like a read outside the
message.  `parseLoop_eq` is what it computes.
-/

namespace Dhcp

open ByteOrder Checked Ethernet Ipv4 List
open BitVec (ofNat)

def dhcpClientPort : U16 := 68
def dhcpServerPort : U16 := 67

def dhcpOpRequest : U8 := 1
def dhcpOpReply : U8 := 2

def dhcpDiscover : U8 := 1
def dhcpOffer : U8 := 2
def dhcpRequest : U8 := 3
def dhcpAck : U8 := 5
def dhcpNak : U8 := 6

def dhcpOptSubnet : U8 := 1
def dhcpOptRouter : U8 := 3
def dhcpOptDns : U8 := 6
def dhcpOptReqip : U8 := 50
def dhcpOptMsgtype : U8 := 53
def dhcpOptServerid : U8 := 54
def dhcpOptParamreq : U8 := 55
def dhcpOptEnd : U8 := 255

def dhcpMagicCookie : U32 := 0x63825363
def dhcpXid : U32 := 0xDEADBEEF
def dhcpHdrLen : Nat := 240
def dhcpPktLen : Nat := 548
def dhcpMaxRetries : Nat := 5
def dhcpRetryMs : Nat := 3000

/-- `dhcp_state_t`. -/
inductive DhcpState
  | idle | selecting | requesting | bound | failed
  deriving DecidableEq, Repr

/-- The static data of `dhcp.c`. -/
structure Client where
  state : DhcpState
  offeredIp : U32
  serverIp : U32
  retryCount : Nat
  deadline : U32
  deriving DecidableEq, Repr

/-! ## Sending -/

/-- The fixed header of a message of ours; what is not set is zero. -/
def dhcpHdr (mac : Mac) : List U8 :=
  [dhcpOpRequest, 1, 6, 0] ++ store32 (htonl dhcpXid) ++ List.replicate 20 0 ++
    mac.bytes ++ List.replicate 202 0 ++ store32 (htonl dhcpMagicCookie)

/-- `opt_u8`. -/
def optU8 (code val : U8) : List U8 := [code, 1, val]

/-- `opt_u32`. -/
def optU32 (code : U8) (val : U32) : List U8 :=
  [code, 4, byteAt val 3, byteAt val 2, byteAt val 1, byteAt val 0]

/-- The parameter request list and the end marker. -/
def optTail : List U8 := [dhcpOptParamreq, 3, dhcpOptSubnet, dhcpOptRouter, dhcpOptDns, dhcpOptEnd]

/-- A message with its options, filled up with zeros. -/
def dhcpPkt (mac : Mac) (opts : List U8) : Tcp.Buffer where
  bytes := (dhcpHdr mac ++ opts ++ List.replicate dhcpPktLen 0).take dhcpPktLen
  short := by
    rw [length_take]
    exact Nat.lt_of_le_of_lt (Nat.min_le_left _ _) (by decide)

/-- `send_discover`. -/
def sendDiscover (env : Env) (l : Link) : Sent :=
  Udp.udpSend env l limitedBroadcast dhcpClientPort dhcpServerPort
    (dhcpPkt l.ourMac (optU8 dhcpOptMsgtype dhcpDiscover ++ optTail))

/-- `send_request`. -/
def sendRequest (env : Env) (l : Link) (reqIp srvIp : U32) : Sent :=
  Udp.udpSend env l limitedBroadcast dhcpClientPort dhcpServerPort
    (dhcpPkt l.ourMac (optU8 dhcpOptMsgtype dhcpRequest ++ optU32 dhcpOptReqip reqIp ++
      optU32 dhcpOptServerid srvIp ++ optTail))

/-! ## Options -/

/-- What `parse_options` returns and stores through its pointers. -/
structure Options where
  msgtype : U8
  srv : U32
  mask : U32
  gw : U32
  deriving DecidableEq, Repr

/-- `p[0] << 24 | p[1] << 16 | p[2] << 8 | p[3]`. -/
def readBe32 (p : Ptr U8) (i : Nat) : Except Fault U32 := do
  let b0 ← p.read i
  let b1 ← p.read (i + 1)
  let b2 ← p.read (i + 2)
  let b3 ← p.read (i + 3)
  .ok (b0.setWidth 32 <<< 24 ||| b1.setWidth 32 <<< 16 ||| b2.setWidth 32 <<< 8 ||| b3.setWidth 32)

/-- The `switch` on the option code; `i` is where the value starts. -/
def takeOption (p : Ptr U8) (i : Nat) (code olen : U8) (o : Options) : Except Fault Options :=
  if code = dhcpOptMsgtype then
    if 1 ≤ olen.toNat then do
      let v ← p.read i
      .ok { o with msgtype := v }
    else .ok o
  else if code = dhcpOptServerid then
    if 4 ≤ olen.toNat then do
      let v ← readBe32 p i
      .ok { o with srv := v }
    else .ok o
  else if code = dhcpOptSubnet then
    if 4 ≤ olen.toNat then do
      let v ← readBe32 p i
      .ok { o with mask := v }
    else .ok o
  else if code = dhcpOptRouter then
    if 4 ≤ olen.toNat then do
      let v ← readBe32 p i
      .ok { o with gw := v }
    else .ok o
  else .ok o

/-- The loop of `parse_options` from offset `i` of `len` option bytes. -/
def parseLoop (p : Ptr U8) (len : Nat) : Nat → Nat → Options → Except Fault Options
  | 0, _, _ => .error .outOfFuel
  | fuel + 1, i, o =>
    if len ≤ i then .ok o
    else do
      let code ← p.read i
      if code = dhcpOptEnd then .ok o
      else if code = 0 then parseLoop p len fuel (i + 1) o
      else if len ≤ i + 1 then .ok o
      else do
        let olen ← p.read (i + 1)
        if len < i + 2 + olen.toNat then .ok o
        else do
          let o ← takeOption p (i + 2) code olen o
          parseLoop p len fuel (i + 2 + olen.toNat) o

/-- `parse_options`, with the defaults its caller sets. -/
def parseOptions (p : Ptr U8) (len : U16) : Except Fault Options :=
  parseLoop p len.toNat (len.toNat + 1) 0
    { msgtype := 0, srv := 0, mask := 0xFFFFFF00, gw := 0 }

/-! ## The state machine -/

/-- The deadline of the next retry. -/
def retryDeadline (env : Env) : U32 := (env.ticks + ofNat 64 dhcpRetryMs).setWidth 32

/-- `ipv4_set_addr`. -/
def ipv4SetAddr (l : Link) (ip netmask gateway : U32) : Link :=
  { l with ourIp := ip, ourNetmask := netmask, ourGateway := gateway
           arp := { l.arp with ourIp := ip } }

/-- What the client does with the parsed message. -/
def onMessage (env : Env) (c : Client) (l : Link) (yiaddr : U32) (o : Options) :
    Client × Link × List (List U8) :=
  if c.state = .selecting ∧ o.msgtype = dhcpOffer then
    let c := { c with offeredIp := yiaddr, serverIp := o.srv }
    let sent := sendRequest env l c.offeredIp c.serverIp
    ({ c with state := .requesting, deadline := retryDeadline env }, sent.link, sent.frames)
  else if c.state = .requesting ∧ o.msgtype = dhcpAck then
    let gw := if o.gw = 0 then c.serverIp else o.gw
    ({ c with state := .bound }, ipv4SetAddr l yiaddr o.mask gw, [])
  else if o.msgtype = dhcpNak then
    let sent := sendDiscover env l
    ({ state := .selecting, offeredIp := 0, serverIp := 0, retryCount := 0,
       deadline := retryDeadline env }, sent.link, sent.frames)
  else (c, l, [])

/-- `dhcp_rx`. -/
def dhcpRx (env : Env) (c : Client) (l : Link) (p : Ptr U8) (len : U16) :
    Except Fault (Client × Link × List (List U8)) :=
  if len.toNat < dhcpHdrLen then .ok (c, l, [])
  else do
    let op ← p.read 0
    if op ≠ dhcpOpReply then .ok (c, l, [])
    else do
      let xid ← p.load32 4
      if ntohl xid ≠ dhcpXid then .ok (c, l, [])
      else do
        let magic ← p.load32 236
        if ntohl magic ≠ dhcpMagicCookie then .ok (c, l, [])
        else do
          let yiaddr ← p.load32 16
          if ntohl yiaddr = 0 then .ok (c, l, [])
          else do
            let o ← parseOptions (p.add dhcpHdrLen) (len - ofNat 16 dhcpHdrLen)
            .ok (onMessage env c l (ntohl yiaddr) o)

/-- `dhcp_tick`: also its return value. -/
def dhcpTick (env : Env) (c : Client) (l : Link) : Client × Link × List (List U8) × Int :=
  match c.state with
  | .bound => (c, l, [], 1)
  | .idle => (c, l, [], 0)
  | .failed => (c, l, [], -1)
  | .selecting | .requesting =>
    let now : U32 := env.ticks.setWidth 32
    if (now - c.deadline).toInt < 0 then (c, l, [], 0)
    else if dhcpMaxRetries ≤ c.retryCount then ({ c with state := .failed }, l, [], -1)
    else
      let c := { c with retryCount := c.retryCount + 1,
                        deadline := now + ofNat 32 dhcpRetryMs }
      let sent := if c.state = .selecting then sendDiscover env l
        else sendRequest env l c.offeredIp c.serverIp
      (c, sent.link, sent.frames, 0)

/-! ## Reads stay inside the message -/

section Safety

variable {p : Ptr U8} {xs : List U8}

theorem length_drop_lt (code olen : U8) (rest : List U8) (n : Nat) :
    (rest.drop n).length < (code :: olen :: rest).length := by
  rw [length_drop, length_cons, length_cons]
  omega

/-- The options of a byte string, code and value, up to the end marker or the first option that
is cut off. -/
def optionsOf : List U8 → List (U8 × List U8)
  | [] => []
  | code :: rest =>
    if code = dhcpOptEnd then []
    else if code = 0 then optionsOf rest
    else
      match rest with
      | [] => []
      | olen :: rest =>
        if rest.length < olen.toNat then []
        else (code, rest.take olen.toNat) :: optionsOf (rest.drop olen.toNat)
  termination_by xs => xs.length
  decreasing_by
  · exact Nat.lt_succ_self _
  · exact length_drop_lt ..

/-- The first four bytes, most significant first. -/
def be32 (v : List U8) : U32 := load32 (v.getD 3 0) (v.getD 2 0) (v.getD 1 0) (v.getD 0 0)

/-- What one option sets. -/
def Options.set (o : Options) (opt : U8 × List U8) : Options :=
  if opt.1 = dhcpOptMsgtype then
    if 1 ≤ opt.2.length then { o with msgtype := opt.2.getD 0 0 } else o
  else if opt.1 = dhcpOptServerid then
    if 4 ≤ opt.2.length then { o with srv := be32 opt.2 } else o
  else if opt.1 = dhcpOptSubnet then
    if 4 ≤ opt.2.length then { o with mask := be32 opt.2 } else o
  else if opt.1 = dhcpOptRouter then
    if 4 ≤ opt.2.length then { o with gw := be32 opt.2 } else o
  else o

theorem readBe32_eq (h : p.Holds xs) {i k : Nat} (hk : 4 ≤ k) (hi : i + k ≤ xs.length) :
    readBe32 p i = .ok (be32 ((xs.drop i).take k)) := by
  have hget : ∀ j < 4, ((xs.drop i).take k).getD j 0 = xs.getD (i + j) 0 := by
    intro j hj
    grind
  rw [readBe32, h.read_eq (by omega) 0, ok_bind, h.read_eq (by omega) 0, ok_bind, h.read_eq (by omega) 0,
    ok_bind, h.read_eq (by omega) 0, ok_bind, be32, hget 0 (by omega), hget 1 (by omega), hget 2 (by omega),
    hget 3 (by omega)]
  rfl

theorem takeOption_eq (h : p.Holds xs) {i : Nat} {olen : U8} (hi : i + olen.toNat ≤ xs.length) (code : U8)
    (o : Options) : takeOption p i code olen o = .ok (o.set (code, (xs.drop i).take olen.toNat)) := by
  have hlen : ((xs.drop i).take olen.toNat).length = olen.toNat := by
    rw [length_take, length_drop]
    omega
  have haddr : ∀ set : U32 → Options, (if 4 ≤ olen.toNat then do
      let v ← readBe32 p i
      .ok (set v) else .ok o) =
        .ok (if 4 ≤ olen.toNat then set (be32 ((xs.drop i).take olen.toNat)) else o) := by
    intro set
    split
    · rename_i hfour
      rw [readBe32_eq h hfour hi, ok_bind]
    · rfl
  unfold takeOption Options.set
  simp only [haddr, hlen]
  split_ifs with hcode hone
  · have hget : ((xs.drop i).take olen.toNat).getD 0 0 = xs.getD i 0 := by grind
    rw [h.read_eq (by omega) 0, ok_bind, hget]
  all_goals rfl

/-- **The loop of `parse_options`** takes the options in order.  One unit of fuel per remaining byte
and one for the last test suffice: the cursor grows with every turn. -/
theorem parseLoop_eq (h : p.Holds xs) {fuel i : Nat} (o : Options) (hi : i ≤ xs.length)
    (hfuel : xs.length < fuel + i) :
    parseLoop p xs.length fuel i o = .ok ((optionsOf (xs.drop i)).foldl Options.set o) := by
  induction fuel generalizing i o with
  | zero => omega
  | succ fuel ih =>
    rw [parseLoop]
    by_cases hend : xs.length ≤ i
    · rw [if_pos hend, drop_eq_nil_of_le hend, optionsOf]
      rfl
    have hlt : i < xs.length := Nat.lt_of_not_le hend
    have hcode : xs.getD i 0 = xs[i] := by grind
    rw [if_neg hend, h.read_eq hlt 0, ok_bind, hcode, drop_eq_getElem_cons hlt, optionsOf.eq_def]
    dsimp only
    split
    · rfl
    split
    · exact ih o hlt (by omega)
    by_cases hlen : xs.length ≤ i + 1
    · rw [if_pos hlen, drop_eq_nil_of_le hlen]
      rfl
    have hi' : i + 1 < xs.length := Nat.lt_of_not_le hlen
    have holen : xs.getD (i + 1) 0 = xs[i + 1] := by grind
    rw [if_neg hlen, h.read_eq hi' 0, ok_bind, holen, drop_eq_getElem_cons hi']
    dsimp only
    rw [length_drop]
    by_cases hcut : xs.length < i + 2 + xs[i + 1].toNat
    · rw [if_pos hcut, if_pos (by omega)]
      rfl
    · rw [if_neg hcut, if_neg (by omega), takeOption_eq h (by omega), ok_bind, ih _ (by omega) (by omega),
        foldl_cons, drop_drop]

theorem returns_parseOptions {len : U16} (h : p.Has len.toNat) :
    Returns (parseOptions p len) (fun _ => True) := by
  have hlen := Ptr.view_length h
  have hholds : p.Holds (p.view len.toNat) := ⟨by rwa [hlen], by rw [hlen]⟩
  rw [parseOptions, ← hlen]
  exact .of_eq (parseLoop_eq hholds _ (Nat.zero_le _) (by omega)) trivial

/-- Every read of `dhcp_rx` lies inside the message. -/
theorem returns_dhcpRx (env : Env) (c : Client) (l : Link) {len : U16}
    (h : p.Has len.toNat) : Returns (dhcpRx env c l p len) (fun _ => True) := by
  apply Returns.early trivial
  intro hlen
  have hhdr : dhcpHdrLen ≤ len.toNat := Nat.le_of_not_lt hlen
  have h240 : p.Has 240 := h.mono hhdr
  have hopts : (p.add dhcpHdrLen).Has (len - ofNat 16 dhcpHdrLen).toNat := by
    rw [sub_toNat hhdr]
    exact Ptr.Has.add (h.mono (by omega))
  apply (h240.returns_read (by decide)).bind
  intro op _
  apply Returns.early trivial
  intro _
  apply (h240.returns_load32 (by decide)).bind
  intro xid _
  apply Returns.early trivial
  intro _
  apply (h240.returns_load32 (by decide)).bind
  intro magic _
  apply Returns.early trivial
  intro _
  apply (h240.returns_load32 (by decide)).bind
  intro yiaddr _
  apply Returns.early trivial
  intro _
  apply (returns_parseOptions hopts).bind
  intro o _
  exact .ok trivial

end Safety

end Dhcp
