import NamelessOS.DhcpLease

/-!
# DHCP options and the refused lease

`parse_options` computes the last well-formed option of each code it knows (`lastValue`), for
every byte string, and reads back what the client's own messages say.  What `dhcp_rx` does with
a NAK depends on the address field, which servers leave zero in a NAK, and not on the state.
-/

namespace Dhcp

open ByteOrder Checked Ethernet Ipv4 List

/-! ## The option area -/

/-- The value of the last option of this code that has at least `least` bytes. -/
def lastValue (code : U8) (least : Nat) (xs : List U8) : Option (List U8) :=
  ((optionsOf xs).filter (fun opt => opt.1 = code ∧ least ≤ opt.2.length)).getLast?.map Prod.snd

/-- A field that only the options of one code set is set by the last of them. -/
theorem foldl_set_field {β : Type} (field : Options → β) (value : List U8 → β) {code : U8} {least : Nat}
    (hset : ∀ o opt, field (o.set opt) =
      if opt.1 = code ∧ least ≤ opt.2.length then value opt.2 else field o)
    (opts : List (U8 × List U8)) (o : Options) : field (opts.foldl Options.set o) =
      ((opts.filter (fun opt => opt.1 = code ∧ least ≤ opt.2.length)).getLast?.map Prod.snd).elim
        (field o) value := by
  induction opts using List.reverseRecOn generalizing o with
  | nil => rfl
  | append_singleton opts opt ih =>
    rw [foldl_append, foldl_cons, foldl_nil, hset, ih, filter_append]
    by_cases hmatch : opt.1 = code ∧ least ≤ opt.2.length
    · simp [hmatch]
    · simp [hmatch]

/-- **The options in order** leave the last value of each code. -/
theorem foldl_set_eq (xs : List U8) (o : Options) : (optionsOf xs).foldl Options.set o =
      { msgtype := (lastValue dhcpOptMsgtype 1 xs).elim o.msgtype (·.getD 0 0)
        srv := (lastValue dhcpOptServerid 4 xs).elim o.srv be32
        mask := (lastValue dhcpOptSubnet 4 xs).elim o.mask be32
        gw := (lastValue dhcpOptRouter 4 xs).elim o.gw be32 } := by
  have hfield : ∀ {β : Type} (field : Options → β) (value : List U8 → β) (code : U8) (least : Nat),
      (∀ o opt, field (o.set opt) = if opt.1 = code ∧
        least ≤ opt.2.length then value opt.2 else field o) →
      field ((optionsOf xs).foldl Options.set o) = (lastValue code least xs).elim (field o) value :=
    fun field value _ _ hset => foldl_set_field field value hset _ o
  have hcodes : dhcpOptMsgtype ≠ dhcpOptServerid ∧ dhcpOptMsgtype ≠ dhcpOptSubnet ∧
      dhcpOptMsgtype ≠ dhcpOptRouter ∧
      dhcpOptServerid ≠ dhcpOptSubnet ∧ dhcpOptServerid ≠ dhcpOptRouter ∧
        dhcpOptSubnet ≠ dhcpOptRouter := by decide
  have htype := hfield Options.msgtype (·.getD 0 0) dhcpOptMsgtype 1
      (fun o opt => by grind [Options.set])
  have hsrv := hfield Options.srv be32 dhcpOptServerid 4 (fun o opt => by grind [Options.set])
  have hmask := hfield Options.mask be32 dhcpOptSubnet 4 (fun o opt => by grind [Options.set])
  have hgw := hfield Options.gw be32 dhcpOptRouter 4 (fun o opt => by grind [Options.set])
  rw [← htype, ← hsrv, ← hmask, ← hgw]

/-! ## What the client writes -/

theorem optionsOf_cons {code : U8} (hend : code ≠ dhcpOptEnd) (hpad : code ≠ 0) {olen : U8} {v : List U8}
    (hlen : v.length = olen.toNat) (rest : List U8) :
    optionsOf (code :: olen :: (v ++ rest)) = (code, v) :: optionsOf rest := by
  rw [optionsOf.eq_def]
  dsimp only
  rw [if_neg hend, if_neg hpad, ← hlen]
  simp

theorem optionsOf_tail (rest : List U8) :
    optionsOf (optTail ++ rest) = [(dhcpOptParamreq, [dhcpOptSubnet, dhcpOptRouter, dhcpOptDns])] := by
  have hend : optionsOf (dhcpOptEnd :: rest) = [] := by
    rw [optionsOf.eq_def]
    exact if_pos rfl
  have hlist := optionsOf_cons (show dhcpOptParamreq ≠ dhcpOptEnd by decide) (by decide)
    (show [dhcpOptSubnet, dhcpOptRouter, dhcpOptDns].length = (3 : U8).toNat from rfl)
      (dhcpOptEnd :: rest)
  rw [hend] at hlist
  exact hlist

/-- The option area of a message of ours. -/
def optionArea (mac : Mac) (opts : List U8) : List U8 := (dhcpPkt mac opts).bytes.drop dhcpHdrLen

theorem optionArea_eq (mac : Mac) (opts : List U8) (hlen : opts.length ≤ 308) :
    ∃ pad, optionArea mac opts = opts ++ pad := by
  have hhdr : (dhcpHdr mac).length = dhcpHdrLen := by
    simp only [dhcpHdr, length_append, length_replicate, mac.length_eq]
    rfl
  refine ⟨(replicate dhcpPktLen 0).take (308 - opts.length), ?_⟩
  show ((dhcpHdr mac ++ opts ++ _).take dhcpPktLen).drop dhcpHdrLen = _
  rw [append_assoc, drop_take, ← hhdr, drop_left, hhdr, take_append,
    take_of_length_le (show opts.length ≤ dhcpPktLen - dhcpHdrLen from hlen)]
  rfl

/-- **Option parsing is the grammar**: for every byte string and every initial outputs, the loop ends,
reads only inside the string and leaves the values of the last well-formed options; and it
recovers what `send_discover` and `send_request` write. -/
theorem parse_options_grammar (xs : List U8) (o : Options) (mac : Mac) (reqIp srvIp : U32) :
    parseLoop ⟨xs, 0⟩ xs.length (xs.length + 1) 0 o =
      .ok { msgtype := (lastValue dhcpOptMsgtype 1 xs).elim o.msgtype (·.getD 0 0)
            srv := (lastValue dhcpOptServerid 4 xs).elim o.srv be32
            mask := (lastValue dhcpOptSubnet 4 xs).elim o.mask be32
            gw := (lastValue dhcpOptRouter 4 xs).elim o.gw be32 } ∧
    (let area := optionArea mac (optU8 dhcpOptMsgtype dhcpDiscover ++ optTail)
     parseLoop ⟨area, 0⟩ area.length (area.length + 1) 0 o = .ok { o with msgtype := dhcpDiscover }) ∧
    (let area := optionArea mac (optU8 dhcpOptMsgtype dhcpRequest ++ optU32 dhcpOptReqip reqIp ++
        optU32 dhcpOptServerid srvIp ++ optTail)
     parseLoop ⟨area, 0⟩ area.length (area.length + 1) 0 o =
       .ok { o with msgtype := dhcpRequest, srv := srvIp }) := by
  have hloop : ∀ xs : List U8, parseLoop ⟨xs, 0⟩ xs.length (xs.length + 1) 0 o =
      .ok ((optionsOf xs).foldl Options.set o) :=
    fun xs => parseLoop_eq (Ptr.holds_start xs) o (Nat.zero_le _) (by omega)
  have hbytes : be32 [byteAt srvIp 3, byteAt srvIp 2, byteAt srvIp 1, byteAt srvIp 0] = srvIp :=
    load32_store32 srvIp
  have htype : ∀ t rest, optionsOf (optU8 dhcpOptMsgtype t ++ rest) =
      (dhcpOptMsgtype, [t]) :: optionsOf rest :=
    fun t => optionsOf_cons (by decide) (by decide) rfl
  have haddr : ∀ code v rest, code ≠ dhcpOptEnd → code ≠ 0 → optionsOf (optU32 code v ++ rest) =
      (code, [byteAt v 3, byteAt v 2, byteAt v 1, byteAt v 0]) :: optionsOf rest :=
    fun code v rest hend hpad => optionsOf_cons hend hpad rfl rest
  refine ⟨?_, ?_, ?_⟩
  · rw [hloop, foldl_set_eq]
  · obtain ⟨pad, harea⟩ := optionArea_eq mac (optU8 dhcpOptMsgtype dhcpDiscover ++ optTail) (by decide)
    dsimp only
    rw [hloop, harea, append_assoc, htype, optionsOf_tail]
    rfl
  · obtain ⟨pad, harea⟩ := optionArea_eq mac (optU8 dhcpOptMsgtype dhcpRequest ++
      optU32 dhcpOptReqip reqIp ++ optU32 dhcpOptServerid srvIp ++ optTail) (Nat.le_of_ble_eq_true rfl)
    dsimp only
    rw [hloop, harea, append_assoc, append_assoc, append_assoc, htype,
      haddr _ _ _ (by decide) (by decide), haddr _ _ _ (by decide) (by decide), optionsOf_tail]
    simp [Options.set, hbytes, dhcpOptMsgtype, dhcpOptReqip, dhcpOptServerid, dhcpOptSubnet,
      dhcpOptRouter,
      dhcpOptParamreq]

/-! ## A refused lease -/

/-- What a NAK is for: a client that waits for the answer to its request starts over, and any
other client stays in its state. -/
def NakHandled (env : Env) (c : Client) (l : Link)
    (r : Except Fault (Client × Link × List (List U8))) : Prop :=
  if c.state = .requesting then
    r = .ok ({ state := .selecting, offeredIp := 0, serverIp := 0, retryCount := 0,
               deadline := retryDeadline env }, (sendDiscover env l).link, (sendDiscover env l).frames)
  else ∃ r', r = .ok r' ∧ r'.1.state = c.state

/-- **A NAK restarts the exchange** exactly if its address field is not zero, and leaves a client
that has not begun, is bound or has given up alone exactly if it is. -/
theorem nak_handled_iff (env : Env) (c : Client) (l : Link) {p : Ptr U8} {len : U16}
    (hlen : dhcpHdrLen ≤ len.toNat) (hop : p.read 0 = .ok dhcpOpReply)
    (hxid : p.load32 4 = .ok (htonl dhcpXid)) (hmagic : p.load32 236 = .ok (htonl dhcpMagicCookie))
    {yiaddr : U32} (haddr : p.load32 16 = .ok (htonl yiaddr)) {o : Options}
    (hopts : parseOptions (p.add dhcpHdrLen) (len - BitVec.ofNat 16 dhcpHdrLen) = .ok o)
    (hnak : o.msgtype = dhcpNak) : NakHandled env c l (dhcpRx env c l p len) ↔
      (c.state = .requesting → yiaddr ≠ 0#32) ∧
        (c.state = .idle ∨ c.state = .bound ∨ c.state = .failed → yiaddr = 0#32) := by
  have hrx : dhcpRx env c l p len =
      .ok (if yiaddr = 0#32 then (c, l, []) else onMessage env c l yiaddr o) := by
    rw [dhcpRx, if_neg (Nat.not_lt.mpr hlen), hop, ok_bind, if_neg (fun h => h rfl), hxid, ok_bind,
      if_neg (fun h => h (ntohl_htonl _)), hmagic, ok_bind, if_neg (fun h => h (ntohl_htonl _)),
        haddr, ok_bind,
      ntohl_htonl, hopts, ok_bind, apply_ite Except.ok]
    rfl
  have hmsg : onMessage env c l yiaddr o =
      ({ state := .selecting, offeredIp := 0, serverIp := 0, retryCount := 0,
         deadline := retryDeadline env }, (sendDiscover env l).link, (sendDiscover env l).frames) := by
    have hoffer : o.msgtype ≠ dhcpOffer := by rw [hnak]; decide
    have hack : o.msgtype ≠ dhcpAck := by rw [hnak]; decide
    rw [onMessage, if_neg (fun h => hoffer h.2), if_neg (fun h => hack h.2), if_pos hnak]
  obtain ⟨state, offeredIp, serverIp, retryCount, deadline⟩ := c
  rw [NakHandled, hrx, hmsg]
  by_cases hzero : yiaddr = 0#32
  · cases state <;> simp [hzero]
  · cases state <;> simp [hzero]

/-- A NAK with this address field. -/
def nak (yiaddr : U32) : Ptr U8 :=
  ⟨[dhcpOpReply, 1, 6, 0] ++ store32 (htonl dhcpXid) ++ replicate 8 0 ++ store32 (htonl yiaddr) ++
    replicate 216 0 ++ store32 (htonl dhcpMagicCookie) ++ optU8 dhcpOptMsgtype dhcpNak ++
      [dhcpOptEnd], 0⟩

/-- A client in a state. -/
def clientIn (state : DhcpState) : Client := ⟨state, 0x0A00020F#32, 0x0A000202#32, 1, 0⟩

theorem nak_handled_nonzero : NakHandled quietEnv (clientIn .requesting) (initLink Arp.zeroMac)
      (dhcpRx quietEnv (clientIn .requesting) (initLink Arp.zeroMac) (nak 0x0A00020F#32) 244#16) :=
  (nak_handled_iff quietEnv (clientIn .requesting) (initLink Arp.zeroMac) (by decide) (by decide)
    (by decide)
    (by decide) (show (nak 0x0A00020F#32).load32 16 = .ok (htonl 0x0A00020F#32) by decide)
    (o := ⟨dhcpNak, 0, 0xFFFFFF00, 0⟩) (by decide) rfl).mpr
      ⟨fun _ => by decide, fun h => by simp [clientIn] at h⟩

/-- The NAK that servers send is ignored, and one with an address takes a bound client out of
its state. -/
theorem nak_ignored_and_unbinds :
    let l := initLink Arp.zeroMac
    let waiting := dhcpRx quietEnv (clientIn .requesting) l (nak 0) 244#16
    let bound := dhcpRx quietEnv (clientIn .bound) l (nak 0x0A00020F#32) 244#16
    waiting.toOption.map (·.1.state) = some .requesting ∧
      ¬ NakHandled quietEnv (clientIn .requesting) l waiting ∧
      bound.toOption.map (·.1.state) = some .selecting ∧
        ¬ NakHandled quietEnv (clientIn .bound) l bound := by
  intro l waiting bound
  have hwaiting : waiting.toOption.map (·.1.state) = some .requesting := by decide +kernel
  have hbound : bound.toOption.map (·.1.state) = some .selecting := by decide +kernel
  refine ⟨hwaiting, fun h => ?_, hbound, fun h => ?_⟩
  · unfold NakHandled at h
    rw [h] at hwaiting
    cases hwaiting
  · obtain ⟨r, hr, hstate⟩ := h
    rw [hr] at hbound
    cases hstate.symm.trans (Option.some.inj hbound)

end Dhcp
