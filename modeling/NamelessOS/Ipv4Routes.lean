import NamelessOS.Ipv4

/-!
# Where `ipv4_send` sends a packet

`ipv4_rx` takes the directed broadcast of its network and 255.255.255.255 for broadcasts.
`ipv4_send` knows only the second: it asks ARP for the first, and it takes a gateway
255.255.255.255 for the broadcast.
-/

namespace Ipv4

open Ethernet Arp BitVec

/-- A host with the same mask and network. -/
def Link.Neighbour (l host : Link) : Prop :=
  host.ourNetmask = l.ourNetmask ∧ host.ourIp &&& l.ourNetmask = l.ourIp &&& l.ourNetmask

/-- The host's `ipv4_rx` accepts the address as a broadcast. -/
def Link.IsBroadcast (host : Link) (dst : U32) : Prop := dst = host.bcast ∨ dst = limitedBroadcast

/-- Some host of the network takes the address for a broadcast. -/
def Link.Broadcasts (l : Link) (dst : U32) : Prop := ∃ host, l.Neighbour host ∧ host.IsBroadcast dst

def Link.OnLink (l : Link) (dst : U32) : Prop := dst &&& l.ourNetmask = l.ourIp &&& l.ourNetmask

instance (l : Link) (dst : U32) : Decidable (l.OnLink dst) := inferInstanceAs (Decidable (_ = _))

/-- **The two sides agree**: what a neighbour takes for a broadcast goes to the Ethernet broadcast
address whatever the ARP cache holds, and any other packet to the entry of the destination or of
the gateway. -/
def Link.Agrees (l : Link) (dst : U32) : Prop :=
  (l.Broadcasts dst → ∀ a, { l with arp := a }.resolve dst = some broadcast) ∧
    (¬ l.Broadcasts dst → ∀ a,
      { l with arp := a }.resolve dst = arpLookup a (if l.OnLink dst then dst else l.ourGateway))

/-- The hosts of a network share its directed broadcast. -/
theorem Link.broadcasts_iff (l : Link) (dst : U32) : l.Broadcasts dst ↔ l.IsBroadcast dst := by
  constructor
  · rintro ⟨host, ⟨hmask, hnet⟩, hdst⟩
    have hbcast : host.bcast = l.bcast := by rw [Link.bcast, Link.bcast, hmask, hnet]
    rwa [Link.IsBroadcast, ← hbcast]
  · exact fun h => ⟨l, ⟨rfl, rfl⟩, h⟩

theorem Link.onLink_bcast (l : Link) : l.OnLink l.bcast := by
  unfold Link.OnLink Link.bcast
  ext i hi
  simp only [getElem_and, getElem_or, getElem_not]
  cases l.ourNetmask[i] <;> simp

variable {dst : U32}

theorem Link.nextHop_of_onLink {l : Link} (h : l.OnLink dst) : l.nextHop dst = dst := by
  unfold Link.OnLink at h
  simp [Link.nextHop, h]

/-- Off the link a host with an address uses its gateway: the network mask is not zero there. -/
theorem Link.nextHop_of_not_onLink {l : Link} (h : ¬ l.OnLink dst) :
    l.nextHop dst = if l.ourIp = 0#32 then dst else l.ourGateway := by
  have hmask : l.ourNetmask ≠ 0#32 := by
    intro h0
    simp [Link.OnLink, h0] at h
  unfold Link.OnLink at h
  by_cases hip : l.ourIp = 0#32 <;> simp [Link.nextHop, h, hmask, hip]

/-- A cache that knows one address only. -/
def onlyKnows (ip : U32) : Cache where
  table := fun _ => { ip := ip, mac := zeroMac }
  ourIp := 0

theorem arpLookup_onlyKnows (ip other : U32) :
    arpLookup (onlyKnows ip) other = if ip = other then some zeroMac else none := by
  unfold arpLookup Cache.slot onlyKnows
  by_cases h : ip = other
  · simp only [h, decide_true]
    rfl
  · simp only [h, decide_false]
    rfl

/-- A packet goes through the entry of an address, whatever the cache, only when that address is
the next hop and not 255.255.255.255. -/
theorem Link.resolves_through_iff {l : Link} {hop : U32} (hdst : dst ≠ limitedBroadcast) :
    (∀ a, { l with arp := a }.resolve dst = arpLookup a hop) ↔
      l.nextHop dst ≠ limitedBroadcast ∧ l.nextHop dst = hop := by
  constructor
  · intro h
    have hknows := h (onlyKnows hop)
    rw [arpLookup_onlyKnows, if_pos rfl] at hknows
    by_cases hlim : l.nextHop dst = limitedBroadcast
    · have hres : some broadcast = some zeroMac := (if_pos (.inl hlim)).symm.trans hknows
      exact absurd hres (by decide)
    · have hres : arpLookup (onlyKnows hop) (l.nextHop dst) = some zeroMac :=
        (if_neg (not_or.mpr ⟨hlim, hdst⟩)).symm.trans hknows
      rw [arpLookup_onlyKnows] at hres
      by_cases hhop : hop = l.nextHop dst
      · exact ⟨hlim, hhop.symm⟩
      · rw [if_neg hhop] at hres
        cases hres
  · rintro ⟨hlim, rfl⟩ a
    exact if_neg (not_or.mpr ⟨hlim, hdst⟩)

/-- The send path and the receive path agree exactly on 255.255.255.255 and on the addresses other
than the directed broadcast that are on the link, that go through a gateway other than
255.255.255.255, or that are the gateway of a host without an address. -/
theorem send_agrees_iff (l : Link) (dst : U32) :
    l.Agrees dst ↔ dst = limitedBroadcast ∨ dst ≠ l.bcast ∧
      (l.OnLink dst ∨ (if l.ourIp = 0#32 then dst = l.ourGateway else l.ourGateway ≠ limitedBroadcast)) := by
  unfold Link.Agrees
  rw [l.broadcasts_iff, Link.IsBroadcast]
  by_cases hlim : dst = limitedBroadcast
  · have hres (a : Cache) : { l with arp := a }.resolve dst = some broadcast := if_pos (.inr hlim)
    constructor
    · intro _
      exact .inl hlim
    · intro _
      exact ⟨fun _ => hres, fun h => absurd (.inr hlim) h⟩
  by_cases hb : dst = l.bcast
  · -- the directed broadcast is on the link, so it is looked up in the cache
    have hhop : l.nextHop dst = dst := Link.nextHop_of_onLink (hb ▸ l.onLink_bcast)
    have hhoplim : l.nextHop dst ≠ limitedBroadcast := by rwa [hhop]
    have hres : { l with arp := onlyKnows dst }.resolve dst ≠ some broadcast := by
      rw [(Link.resolves_through_iff hlim).mpr ⟨hhoplim, hhop⟩, arpLookup_onlyKnows, if_pos rfl]
      decide
    constructor
    · intro h
      exact absurd (h.1 (.inl hb) _) hres
    · rintro (h | h)
      · exact absurd h hlim
      · exact absurd hb h.1
  rw [Link.resolves_through_iff hlim]
  by_cases hon : l.OnLink dst
  · simp [hlim, hb, hon, Link.nextHop_of_onLink hon]
  · rw [if_neg hon, Link.nextHop_of_not_onLink hon]
    by_cases hip : l.ourIp = 0#32 <;> simp [hlim, hb, hon, hip]

/-- 192.168.1.5/24 with an empty cache. -/
def officeHost : Link where
  ourMac := zeroMac
  ourIp := 0xC0A80105
  ourNetmask := 0xFFFFFF00
  ourGateway := 0xC0A80101
  pktId := 0
  arp := onlyKnows 0

/-- A packet to 192.168.1.255, which every host of the network accepts as a broadcast, makes
`ipv4_send` send an ARP request instead. -/
theorem directed_broadcast_asks_arp :
    officeHost.IsBroadcast 0xC0A801FF ∧ officeHost.resolve 0xC0A801FF = none ∧
      ¬ officeHost.Agrees 0xC0A801FF := by
  refine ⟨.inl rfl, by decide, ?_⟩
  rintro ⟨h, -⟩
  exact absurd (h ⟨officeHost, ⟨rfl, rfl⟩, .inl rfl⟩ (onlyKnows 0)) (by decide)

end Ipv4
