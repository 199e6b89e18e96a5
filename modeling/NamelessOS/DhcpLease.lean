import NamelessOS.Dhcp

/-!
# The lease that was asked for

The client records an offer, asks for it with `send_request` and takes the next
ACK.  All exchanges share one transaction id, so the ACK may belong to another
one.  Over every sequence of received messages and ticks this module says which
ACKs configure the address that the last request named.
-/

namespace Dhcp

open Checked ByteOrder Ethernet Ipv4 Runs Option

/-! ## Messages -/

/-- The address and the options of a message that `dhcp_rx` goes on with. -/
def messageAt (p : Ptr U8) (len : U16) : Except Fault (Option (U32 × Options)) :=
  if len.toNat < dhcpHdrLen then .ok none
  else do
    let op ← p.read 0
    if op ≠ dhcpOpReply then .ok none
    else do
      let xid ← p.load32 4
      if ntohl xid ≠ dhcpXid then .ok none
      else do
        let magic ← p.load32 236
        if ntohl magic ≠ dhcpMagicCookie then .ok none
        else do
          let yiaddr ← p.load32 16
          if ntohl yiaddr = 0 then .ok none
          else do
            let o ← parseOptions (p.add dhcpHdrLen) (len - BitVec.ofNat 16 dhcpHdrLen)
            .ok (some (ntohl yiaddr, o))

/-- `dhcp_rx` on what it accepted. -/
def onReceived (env : Env) (c : Client) (l : Link) (m : Option (U32 × Options)) :
    Client × Link × List (List U8) :=
  m.elim (c, l, []) (fun m => onMessage env c l m.1 m.2)

/-- **`dhcp_rx` acts on the message only.** -/
theorem dhcpRx_eq (env : Env) (c : Client) (l : Link) (p : Ptr U8) (len : U16) :
    dhcpRx env c l p len = (messageAt p len).map (onReceived env c l) := by
  unfold dhcpRx messageAt
  split
  · rfl
  cases p.read 0 with
  | error f => rfl
  | ok op =>
  dsimp only [bind, Except.bind]
  split
  · rfl
  cases p.load32 4 with
  | error f => rfl
  | ok xid =>
  dsimp only
  split
  · rfl
  cases p.load32 236 with
  | error f => rfl
  | ok magic =>
  dsimp only
  split
  · rfl
  cases p.load32 16 with
  | error f => rfl
  | ok yiaddr =>
  dsimp only
  split
  · rfl
  cases parseOptions (p.add dhcpHdrLen) (len - BitVec.ofNat 16 dhcpHdrLen) with
  | error f => rfl
  | ok o => rfl

/-! ## Events -/

/-- A received datagram or a call of `dhcp_tick`, with the time, the outcome of
the sends and the state of the layers below at that moment. -/
inductive Event
  | rx (env : Env) (l : Link) (p : Ptr U8) (len : U16)
  | tick (env : Env) (l : Link)

/-- The message of an event. -/
def Event.message : Event → Option (U32 × Options)
  | .rx _ _ p len =>
    match messageAt p len with
    | .ok m => m
    | .error _ => none
  | .tick _ _ => none

/-- Client, layers below and frames sent after an event. -/
def Client.after (c : Client) : Event → Client × Link × List (List U8)
  | .rx env l p len =>
    match dhcpRx env c l p len with
    | .ok r => r
    | .error _ => (c, l, [])
  | .tick env l =>
    let r := dhcpTick env c l
    (r.1, r.2.1, r.2.2.1)

theorem Client.after_rx (c : Client) (env : Env) (l : Link) (p : Ptr U8) (len : U16) :
    c.after (.rx env l p len) = onReceived env c l (Event.rx env l p len).message := by
  rw [Client.after, dhcpRx_eq, Event.message]
  cases messageAt p len with
  | error f => rfl
  | ok m => rfl

/-- The tick is late and there are retries left. -/
def Client.Retries (c : Client) (env : Env) : Prop :=
  ¬ (env.ticks.setWidth 32 - c.deadline).toInt < 0 ∧ ¬ dhcpMaxRetries ≤ c.retryCount

instance (c : Client) (env : Env) : Decidable (c.Retries env) := inferInstanceAs (Decidable (_ ∧ _))

/-- The arguments of the `send_request` that an event leads to: requested
address and server identifier. -/
def Client.requestSent (c : Client) : Event → Option (U32 × U32)
  | .rx env l p len =>
    match (Event.rx env l p len).message with
    | some (yiaddr, o) =>
      if c.state = .selecting ∧ o.msgtype = dhcpOffer then some (yiaddr, o.srv) else none
    | none => none
  | .tick env _ =>
    if c.state = .requesting ∧ c.Retries env then some (c.offeredIp, c.serverIp) else none

def Event.env : Event → Env
  | .rx env _ _ _ => env
  | .tick env _ => env

def Event.link : Event → Link
  | .rx _ l _ _ => l
  | .tick _ l => l

variable {c : Client}

theorem dhcpTick_requesting {env : Env} (l : Link) (hstate : c.state = .requesting)
    (hretry : c.Retries env) :
    (dhcpTick env c l).1 = { c with
      retryCount := c.retryCount + 1
      deadline := env.ticks.setWidth 32 + BitVec.ofNat 32 dhcpRetryMs } ∧
      (dhcpTick env c l).2.2.1 = (sendRequest env l c.offeredIp c.serverIp).frames := by
  obtain ⟨hlate, hleft⟩ := hretry
  unfold dhcpTick
  grind

theorem Client.after_frames (c : Client) (e : Event) {ip srv : U32}
    (h : c.requestSent e = some (ip, srv)) :
    (c.after e).2.2 = (sendRequest e.env e.link ip srv).frames := by
  cases e with
  | rx env l p len =>
    rw [Client.after_rx]
    rw [Client.requestSent] at h
    cases hm : (Event.rx env l p len).message with
    | none =>
      rw [hm] at h
      cases h
    | some m =>
      rw [hm] at h
      dsimp only at h
      split at h
      · rename_i hoffer
        cases h
        rw [onReceived, elim_some, onMessage, if_pos hoffer]
        rfl
      · cases h
  | tick env l =>
    rw [Client.requestSent] at h
    split at h
    · rename_i hreq
      cases h
      exact (dhcpTick_requesting l hreq.1 hreq.2).2
    · cases h

/-! ## The last request -/

/-- The client, and the arguments of the most recent `send_request`. -/
structure World where
  client : Client
  lastRequest : Option (U32 × U32)

def World.step (w : World) (e : Event) : World where
  client := (w.client.after e).1
  lastRequest := (w.client.requestSent e).or w.lastRequest

/-- The client after `dhcp_init_impl`, which sends a DISCOVER. -/
def World.boot (env : Env) : World where
  client := { state := .selecting, offeredIp := 0, serverIp := 0, retryCount := 0
              deadline := retryDeadline env }
  lastRequest := none

/-- **While a request is out, the client remembers what it asked for.** -/
def World.Remembers (w : World) : Prop :=
  w.client.state = .requesting → w.lastRequest = some (w.client.offeredIp, w.client.serverIp)

theorem World.remembers_boot (env : Env) : (World.boot env).Remembers := fun h => by cases h

variable {w : World}

theorem World.Remembers.rx (h : w.Remembers) (env : Env) (l : Link) (p : Ptr U8)
    (len : U16) : (w.step (.rx env l p len)).Remembers := by
  intro hstate
  rw [World.step] at hstate ⊢
  rw [Client.after_rx] at hstate ⊢
  rw [Client.requestSent]
  cases hm : (Event.rx env l p len).message with
  | none =>
    rw [hm] at hstate
    exact h hstate
  | some m =>
    obtain ⟨yiaddr, o⟩ := m
    rw [hm] at hstate
    dsimp only [onReceived, elim_some] at hstate ⊢
    unfold onMessage at hstate ⊢
    by_cases hoffer : w.client.state = .selecting ∧ o.msgtype = dhcpOffer
    · rw [if_pos hoffer, if_pos hoffer]
      rfl
    · rw [if_neg hoffer] at hstate ⊢
      rw [if_neg hoffer]
      by_cases hack : w.client.state = .requesting ∧ o.msgtype = dhcpAck
      · rw [if_pos hack] at hstate
        cases hstate
      · rw [if_neg hack] at hstate ⊢
        by_cases hnak : o.msgtype = dhcpNak
        · rw [if_pos hnak] at hstate
          cases hstate
        · rw [if_neg hnak] at hstate ⊢
          exact h hstate

theorem dhcpTick_keeps (env : Env) (c : Client) (l : Link) :
    (dhcpTick env c l).1.offeredIp = c.offeredIp ∧ (dhcpTick env c l).1.serverIp = c.serverIp ∧
      ((dhcpTick env c l).1.state = c.state ∨ (dhcpTick env c l).1.state = .failed) := by
  unfold dhcpTick
  cases hstate : c.state with
  | idle => exact ⟨rfl, rfl, .inl hstate⟩
  | bound => exact ⟨rfl, rfl, .inl hstate⟩
  | failed => exact ⟨rfl, rfl, .inl hstate⟩
  | selecting =>
    dsimp only
    split
    · exact ⟨rfl, rfl, .inl hstate⟩
    · split
      · exact ⟨rfl, rfl, .inr rfl⟩
      · exact ⟨rfl, rfl, .inl rfl⟩
  | requesting =>
    dsimp only
    split
    · exact ⟨rfl, rfl, .inl hstate⟩
    · split
      · exact ⟨rfl, rfl, .inr rfl⟩
      · exact ⟨rfl, rfl, .inl rfl⟩

theorem World.Remembers.tick (h : w.Remembers) (env : Env) (l : Link) :
    (w.step (.tick env l)).Remembers := by
  intro hstate
  obtain ⟨hoffered, hserver, hkept⟩ := dhcpTick_keeps env w.client l
  rw [World.step] at hstate ⊢
  dsimp only [Client.after] at hstate ⊢
  rw [hoffered, hserver, Client.requestSent]
  have hbefore : w.client.state = .requesting := by
    grind
  split
  · rfl
  · exact h hbefore

/-- **A step keeps it.** -/
theorem World.Remembers.step (h : w.Remembers) (e : Event) : (w.step e).Remembers := by
  cases e with
  | rx env l p len => exact h.rx env l p len
  | tick env l => exact h.tick env l

/-! ## Entering BOUND -/

/-- The event takes the client to BOUND. -/
def World.EntersBound (w : World) (e : Event) : Prop :=
  w.client.state ≠ .bound ∧ (w.client.after e).1.state = .bound

instance (w : World) (e : Event) : Decidable (w.EntersBound e) := inferInstanceAs (Decidable (_ ∧ _))

/-- What the step is asked for: if it enters BOUND, the address now configured is
the one that the last request asked for, and the message names the server of that
request. -/
def World.LeaseAskedFor (w : World) (e : Event) : Prop :=
  w.EntersBound e → ∃ reqIp srvIp yiaddr o, w.lastRequest = some (reqIp, srvIp) ∧
    e.message = some (yiaddr, o) ∧ (w.client.after e).2.1.ourIp = reqIp ∧ o.srv = srvIp

/-- An ACK that comes while a request is out repeats the offered address and
names the server of the offer. -/
def World.AckMatches (w : World) (e : Event) : Prop :=
  w.client.state = .requesting → ∀ yiaddr o, e.message = some (yiaddr, o) → o.msgtype = dhcpAck →
    yiaddr = w.client.offeredIp ∧ o.srv = w.client.serverIp

/-- **Only an ACK enters BOUND**, from REQUESTING. -/
theorem onMessage_bound_iff (env : Env) (l : Link) (yiaddr : U32) (o : Options)
    (hne : c.state ≠ .bound) : (onMessage env c l yiaddr o).1.state = .bound ↔
      c.state = .requesting ∧ o.msgtype = dhcpAck := by
  unfold onMessage
  by_cases hoffer : c.state = .selecting ∧ o.msgtype = dhcpOffer
  · rw [if_pos hoffer, hoffer.1]
    exact iff_of_false (fun h => by cases h) (fun h => by cases h.1)
  · rw [if_neg hoffer]
    by_cases hack : c.state = .requesting ∧ o.msgtype = dhcpAck
    · rw [if_pos hack]
      exact iff_of_true rfl hack
    · rw [if_neg hack]
      refine iff_of_false (fun h => ?_) hack
      split at h
      · cases h
      · exact hne h

theorem onMessage_ack_addr (env : Env) (l : Link) (yiaddr : U32) {o : Options}
    (hstate : c.state = .requesting) (hack : o.msgtype = dhcpAck) :
    (onMessage env c l yiaddr o).2.1.ourIp = yiaddr := by
  have hoffer : ¬ (c.state = .selecting ∧ o.msgtype = dhcpOffer) := by
    intro h
    rw [hstate] at h
    cases h.1
  rw [onMessage, if_neg hoffer, if_pos ⟨hstate, hack⟩]
  rfl

/-- **Which ACKs are right**, at a step that remembers the request. -/
theorem World.leaseAskedFor_iff (h : w.Remembers) (e : Event) :
    w.LeaseAskedFor e ↔ w.AckMatches e := by
  cases e with
  | tick env l =>
    have hkept := (dhcpTick_keeps env w.client l).2.2
    refine iff_of_true (fun hbound => ?_) (fun _ _ _ hm => by cases hm)
    obtain ⟨hne, hafter⟩ := hbound
    dsimp only [Client.after] at hafter
    grind
  | rx env l p len =>
    unfold World.LeaseAskedFor World.AckMatches World.EntersBound
    rw [Client.after_rx]
    cases hm : (Event.rx env l p len).message with
    | none => exact iff_of_true (fun hbound => absurd hbound.2 hbound.1) (fun _ _ _ hm' => by cases hm')
    | some m =>
      obtain ⟨yiaddr, o⟩ := m
      dsimp only [onReceived, elim_some]
      constructor
      · intro hlease hstate yiaddr' o' hm' hack
        cases hm'
        have hne : w.client.state ≠ .bound := by
          rw [hstate]
          exact fun heq => by cases heq
        obtain ⟨reqIp, srvIp, _, _, hlast, hm', haddr, hsrv⟩ :=
          hlease ⟨hne, (onMessage_bound_iff env l yiaddr o hne).mpr ⟨hstate, hack⟩⟩
        cases hm'
        rw [h hstate] at hlast
        grind [onMessage_ack_addr]
      · intro hmatch hbound
        obtain ⟨hstate, hack⟩ := (onMessage_bound_iff env l yiaddr o hbound.1).mp hbound.2
        obtain ⟨haddr, hsrv⟩ := hmatch hstate yiaddr o rfl hack
        refine ⟨_, _, yiaddr, o, h hstate, rfl, ?_, hsrv⟩
        rw [onMessage_ack_addr env l yiaddr hstate hack, haddr]

/-- **DHCP and the lease it asked for.**  In every run of received messages and
ticks from initialisation, at every step: what is recorded as the last request is
what `send_request` sent, and the step that enters BOUND configures the address of
the last request, confirmed by its server, exactly if the ACK repeats the offered
address and names the server of the offer. -/
theorem dhcp_lease_asked_for (env : Env) (events : List Event) : StepsMeet World.step (fun w e =>
      (∀ ip srv, w.client.requestSent e = some (ip, srv) →
        (w.client.after e).2.2 = (sendRequest e.env e.link ip srv).frames) ∧
      (w.LeaseAskedFor e ↔ w.AckMatches e)) (World.boot env) events := by
  refine stepsMeet_of_invariant World.Remembers (fun w e h _ => h.step e) (fun w e h _ => ?_)
    (World.remembers_boot env) (stepsMeet_of_forall (fun _ _ => trivial) (World.boot env))
  exact ⟨fun ip srv hsent => w.client.after_frames e hsent, World.leaseAskedFor_iff h e⟩

/-! ## Two servers -/

/-- A reply that assigns `yiaddr`, of the given type, from the server `srv`. -/
def reply (yiaddr : U32) (msgtype : U8) (srv : U32) : Event := .rx quietEnv (initLink Arp.zeroMac)
    ⟨[dhcpOpReply, 1, 6, 0] ++ store32 (htonl dhcpXid) ++ List.replicate 8 0 ++
      store32 (htonl yiaddr) ++ List.replicate 216 0 ++ store32 (htonl dhcpMagicCookie) ++
      optU8 dhcpOptMsgtype msgtype ++ optU32 dhcpOptServerid srv ++ [dhcpOptEnd], 0⟩ 250#16

/-- 10.0.2.2 offers 10.0.2.15, which the client asks for. -/
def offered : World := (World.boot quietEnv).step (reply 0x0A00020F#32 dhcpOffer 0x0A000202#32)

/-- **An ACK from another server is taken.**  10.0.2.3 acknowledges 10.0.2.99 to
somebody else; the client enters BOUND and configures 10.0.2.99. -/
theorem foreign_ack_configures : offered.lastRequest = some (0x0A00020F#32, 0x0A000202#32) ∧
    offered.EntersBound (reply 0x0A000263#32 dhcpAck 0x0A000203#32) ∧
    (offered.client.after (reply 0x0A000263#32 dhcpAck 0x0A000203#32)).2.1.ourIp = 0x0A000263#32 ∧
    ¬ offered.LeaseAskedFor (reply 0x0A000263#32 dhcpAck 0x0A000203#32) := by
  have hlast : offered.lastRequest = some (0x0A00020F#32, 0x0A000202#32) := by decide +kernel
  have hbound : offered.EntersBound (reply 0x0A000263#32 dhcpAck 0x0A000203#32) := by
    decide +kernel
  have haddr : (offered.client.after (reply 0x0A000263#32 dhcpAck 0x0A000203#32)).2.1.ourIp =
      0x0A000263#32 := by decide +kernel
  refine ⟨hlast, hbound, haddr, fun hlease => ?_⟩
  obtain ⟨reqIp, srvIp, yiaddr, o, hreq, -, hset, -⟩ := hlease hbound
  grind

end Dhcp
