import Mathlib.Data.List.FinRange
import NamelessOS.Ethernet

/-!
# The ARP cache

`net/arp/arp.c`: sixteen entries, of which those with address zero are empty,
the request that asks for an address and the handler that learns from every
packet and answers requests for our own address.
-/

namespace Arp

open ByteOrder Checked Ethernet

def arpHtypeEthernet : U16 := 1
def arpPtypeIpv4 : U16 := 0x0800
def arpOpRequest : U16 := 1
def arpOpReply : U16 := 2

abbrev arpTableSize : Nat := 16

/-- `sizeof(arp_pkt_t)`. -/
def arpPktLen : Nat := 28

/-- `arp_entry_t`. -/
structure ArpEntry where
  ip : U32
  mac : Mac
  deriving DecidableEq

/-- The static data of `arp.c`. -/
structure Cache where
  table : Fin arpTableSize → ArpEntry
  ourIp : U32

/-- The first entry for an address. -/
def Cache.slot (a : Cache) (ip : U32) : Option (Fin arpTableSize) :=
  (List.finRange arpTableSize).find? (fun i => (a.table i).ip = ip)

/-- `arp_lookup`; `none` is the return value `-1`. -/
def arpLookup (a : Cache) (ip : U32) : Option Mac := (a.slot ip).map (fun i => (a.table i).mac)

/-- The slot that `arp_insert` writes: the entry of the address, else the first
empty one, else entry `0`. -/
def Cache.target (a : Cache) (ip : U32) : Fin arpTableSize :=
  (a.slot ip).getD ((a.slot 0).getD 0)

/-- `arp_insert` -/
def arpInsert (a : Cache) (ip : U32) (mac : Mac) : Cache :=
  { a with table := Function.update a.table (a.target ip) { ip := ip, mac := mac } }

/-- `arp_pkt_t`; multi-byte fields are in network order. -/
structure ArpPkt where
  htype : U16
  ptype : U16
  hlen : U8
  plen : U8
  oper : U16
  sha : Mac
  spa : U32
  tha : Mac
  tpa : U32

def ArpPkt.bytes (k : ArpPkt) : List U8 :=
  store16 k.htype ++ store16 k.ptype ++ [k.hlen, k.plen] ++ store16 k.oper ++
    k.sha.bytes ++ store32 k.spa ++ k.tha.bytes ++ store32 k.tpa

/-- The packet for an operation; the protocol addresses are in network
order. -/
def arpPkt (oper : U16) (sha : Mac) (spa : U32) (tha : Mac) (tpa : U32) : ArpPkt where
  htype := htons arpHtypeEthernet
  ptype := htons arpPtypeIpv4
  hlen := 6
  plen := 4
  oper := htons oper
  sha := sha
  spa := spa
  tha := tha
  tpa := tpa

/-- `memset(pkt.tha, 0, 6)`. -/
def zeroMac : Mac := ⟨List.replicate 6 0, by decide⟩

/-- `arp_request`: the frames it sends. -/
def arpRequest (env : Env) (ourMac : Mac) (a : Cache) (ip : U32) : List (List U8) :=
  (ethernetSend env ourMac broadcast ethertypeArp
    (arpPkt arpOpRequest ourMac (htonl a.ourIp) zeroMac (htonl ip)).bytes
    (BitVec.ofNat 16 arpPktLen)).1

/-- The reply to a request from `sha` and `spa`. -/
def arpReply (env : Env) (ourMac : Mac) (a : Cache) (sha : Mac) (spa : U32) : List (List U8) :=
  (ethernetSend env ourMac sha ethertypeArp
    (arpPkt arpOpReply ourMac (htonl a.ourIp) sha spa).bytes
    (BitVec.ofNat 16 arpPktLen)).1

/-- `arp_rx`: the cache afterwards and the frames sent. -/
def arpRx (env : Env) (ourMac : Mac) (a : Cache) (p : Ptr U8) (len : U16) :
    Except Fault (Cache × List (List U8)) :=
  if len.toNat < arpPktLen then .ok (a, [])
  else do
    let htype ← p.load16 0
    if ntohs htype ≠ arpHtypeEthernet then .ok (a, [])
    else do
      let ptype ← p.load16 2
      if ntohs ptype ≠ arpPtypeIpv4 then .ok (a, [])
      else do
        let hlen ← p.read 4
        let plen ← p.read 5
        if hlen ≠ 6 ∨ plen ≠ 4 then .ok (a, [])
        else do
          let oper ← p.load16 6
          let sha ← readMac p 8
          let spa ← p.load32 14
          let a := if ntohl spa ≠ 0 then arpInsert a (ntohl spa) sha else a
          if ntohs oper = arpOpRequest ∧ a.ourIp ≠ 0 then do
            let tpa ← p.load32 24
            if ntohl tpa ≠ a.ourIp then .ok (a, [])
            else .ok (a, arpReply env ourMac a sha spa)
          else .ok (a, [])

/-- Every read of `arp_rx` lies inside the packet. -/
theorem returns_arpRx (env : Env) (ourMac : Mac) (a : Cache) {p : Ptr U8} {len : U16}
    (h : p.Has len.toNat) : Returns (arpRx env ourMac a p len) (fun _ => True) := by
  apply Returns.early trivial
  intro hlen
  have h28 : p.Has 28 := h.mono (Nat.le_of_not_lt hlen)
  apply (h28.returns_load16 (by decide)).bind
  intro htype _
  apply Returns.early trivial
  intro _
  apply (h28.returns_load16 (by decide)).bind
  intro ptype _
  apply Returns.early trivial
  intro _
  apply (h28.returns_read (by decide)).bind
  intro hlen _
  apply (h28.returns_read (by decide)).bind
  intro plen _
  apply Returns.early trivial
  intro _
  apply (h28.returns_load16 (by decide)).bind
  intro oper _
  apply (returns_readMac h28 (by decide)).bind
  intro sha _
  apply (h28.returns_load32 (by decide)).bind
  intro spa _
  apply Returns.ite
  · intro _
    apply (h28.returns_load32 (by decide)).bind
    intro tpa _
    apply Returns.early trivial
    intro _
    exact .ok trivial
  · intro _
    exact .ok trivial

end Arp
