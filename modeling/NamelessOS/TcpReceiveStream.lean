import NamelessOS.TcpTable

/-!
# Integrity of the received byte stream

A peer numbers its bytes from `s0`; segments carrying slices of that stream
arrive lost, duplicated, reordered and overlapping, between reads of any
length, ticks and closes.  The receiver keeps one counter (`rcv_nxt`) and one
ring.  The theorem of this file is that the application always sees a prefix
of the stream: what `tcp_read` has returned so far, followed by what is still
in the ring.

The counter determines the prefix.  `Received` says how: it is `s0` plus the
length of the prefix plus one for every FIN the connection has processed, and
once a FIN has been processed the connection is in no state that accepts data.
-/

namespace Tcp

open List

open BitVec (add_assoc ofNat ofNat_add)

/-- The states a connection can be in once its handshake is over. -/
def Synced (s : TcpState) : Prop := s ≠ .listen ∧ s ≠ .synSent ∧ s ≠ .synRcvd

theorem receives_ackNextState (c : TcpConn) (seg : Segment) :
    receives (ackNextState c seg) = receives c.state := by
  unfold ackNextState
  split
  · rename_i h
    simp [receives, h.2.1]
  · split
    · rename_i h
      simp [receives, h.2.1]
    · rfl

variable {c c' : TcpConn}

theorem synced_ackNextState (seg : Segment) (h : Synced c.state) : Synced (ackNextState c seg) := by
  unfold ackNextState
  split
  · simp [Synced]
  · split
    · simp [Synced]
    · exact h

theorem synced_finNextState {s : TcpState} (h : Synced s) : Synced (finNextState s) := by
  cases s <;> simp_all [Synced, finNextState]

theorem not_receives_finNextState (s : TcpState) : receives (finNextState s) = false := by
  cases s <;> simp [receives, finNextState]

/-- Either `tcp_rx` returned before data processing and the receive side is
as before, or data and FIN processing ran on it. -/
inductive RxEffect (env : Env) (id : ConnIdx) (c : TcpConn) (seg : Segment)
    (srcIp dstIp : U32) (c' : TcpConn) : Prop
  | early (hrx : c'.rx = c.rx) (hrcv : c'.rcvNxt = c.rcvNxt)
      (hstate : c'.state = c.state ∨ c'.state = .closed)
      (hfin : finProcessed env id c seg srcIp dstIp = false)
  | full (hrx : c'.rx = c.rx.pushAll (seg.data.take (acceptLen c seg)))
      (hrcv : c'.rcvNxt = c.rcvNxt + ofNat 32 (acceptLen c seg) + ofNat 32 (seg.has tcpFin).toNat)
      (hstate : c'.state = if seg.has tcpFin then finNextState (ackNextState c seg)
        else ackNextState c seg)
      (hfin : finProcessed env id c seg srcIp dstIp = seg.has tcpFin)

/-- The receive-side effect of a segment on a synchronized connection. -/
theorem rxConn_effect (env : Env) (id : ConnIdx) (seg : Segment)
    (srcIp dstIp : U32) (hs : Synced c.state) :
    RxEffect env id c seg srcIp dstIp (rxConn env id c seg srcIp dstIp).1 := by
  obtain ⟨_, hsent, hrcvd⟩ := hs
  by_cases hrst : seg.has tcpRst
  · have hpro : rxPrologue env id c seg srcIp dstIp =
        .ret (rxRst id c seg).1 (rxRst id c seg).2 := by
      simp [rxPrologue, hrst]
    have hfin : finProcessed env id c seg srcIp dstIp = false := by
      simp [finProcessed, hpro]
    simp only [rxConn, hpro]
    simp only [rxRst]
    split
    · exact .early rfl rfl (.inr rfl) hfin
    · exact .early rfl rfl (.inl rfl) hfin
  · have hpro : rxPrologue env id c seg srcIp dstIp = rxAck env id c seg := by
      simp [rxPrologue, hrst, hsent, rxSynRcvd, hrcvd]
    rw [rxAck_eq] at hpro
    by_cases hlast : seg.has tcpAck ∧ c.state = .lastAck ∧ seg.ack = c.sndNxt
    · rw [if_pos hlast] at hpro
      simp only [rxConn, hpro]
      exact .early rfl rfl (.inr rfl) (by simp [finProcessed, hpro])
    · rw [if_neg hlast] at hpro
      have haccept : acceptLen (ackUpdate env c seg) seg = acceptLen c seg := by
        simp [acceptLen, rxFree, receives_ackNextState]
      obtain ⟨deadline, hfinEq⟩ := rxFin_fst env id (rxData id (ackUpdate env c seg) seg).1 seg
      simp only [rxConn, hpro]
      rw [hfinEq, rxData_fst, haccept]
      have hfin : finProcessed env id c seg srcIp dstIp = seg.has tcpFin := by
        simp [finProcessed, hpro]
      by_cases hflag : seg.has tcpFin
      · exact .full (by simp [hflag]) (by simp [hflag]) (by simp [hflag]) hfin
      · exact .full (by simp [hflag]) (by simp [hflag]) (by simp [hflag]) hfin

/-! ## Runs of one connection -/

/-- A call that does not touch the receive side: it leaves the connection
open or shut for data as it was, or closes it. -/
structure KeepsReceive (c c' : TcpConn) : Prop where
  rx : c'.rx = c.rx
  rcvNxt : c'.rcvNxt = c.rcvNxt
  synced : Synced c.state → Synced c'.state
  door : Synced c.state → c'.state = .closed ∨
    (receives c'.state = receives c.state ∧ (c.state = .closed → c'.state = .closed))

theorem keepsReceive_of_state (hrx : c'.rx = c.rx) (hrcv : c'.rcvNxt = c.rcvNxt)
    (hstate : c'.state = c.state ∨ c'.state = .closed) : KeepsReceive c c' := by
  rcases hstate with h | h
  · exact ⟨hrx, hrcv, by rw [h]; exact id, fun _ => .inr (by rw [h]; exact ⟨rfl, id⟩)⟩
  · exact ⟨hrx, hrcv, fun _ => by simp [h, Synced], fun _ => .inl h⟩

theorem keepsReceive_tick (env : Env) (id : ConnIdx) (c : TcpConn) :
    KeepsReceive c (tickConn env id c).1 := by
  have heffect := tickConn_effect env id c
  generalize tickConn env id c = r at heffect ⊢
  cases heffect with
  | idle => exact keepsReceive_of_state rfl rfl (.inl rfl)
  | expire _ => exact keepsReceive_of_state rfl rfl (.inr rfl)
  | abort _ => exact keepsReceive_of_state rfl rfl (.inr rfl)
  | retransmit _ _ _ => exact keepsReceive_of_state rfl rfl (.inl rfl)

theorem keepsReceive_close (c : TcpConn) : KeepsReceive c (closeConn c).1 := by
  cases hstate : c.state <;> constructor <;>
    simp [closeConn, hstate, retxClear, Synced, receives]

theorem keepsReceive_retxArm (env : Env) (seg : List U8) {d : TcpConn}
    (hrx : d.rx = c.rx) (hrcv : d.rcvNxt = c.rcvNxt) (hstate : d.state = c.state) :
    KeepsReceive c (retxArm env d seg) :=
  keepsReceive_of_state ((retxArm_rx ..).trans hrx) ((retxArm_rcvNxt ..).trans hrcv)
    (.inl ((retxArm_state ..).trans hstate))

/-- A connection and what has been observed of it: the bytes `tcp_read` has
returned for it so far and the number of FINs it has processed. -/
structure Observed where
  table : Table
  got : List U8
  fins : Nat

/-- The bytes a call returns for slot `i`. -/
def bytesRead (i : ConnIdx) (t : Table) (e : Event) : List U8 :=
  match e.call with
  | .read id len => if connIdx id = some i then (tcpRead t id len).2 else []
  | _ => []

/-- The number of FINs a call makes slot `i` process. -/
def finsProcessed (i : ConnIdx) (t : Table) (e : Event) : Nat :=
  match e.call with
  | .rx payload srcIp dstIp =>
    match parseSegment payload with
    | none => 0
    | some seg =>
      if (lookup t seg srcIp (List.finRange tcpMaxConn) none).1 = some i then
        (finProcessed e.env i (t.conns i) seg srcIp dstIp).toNat
      else 0
  | _ => 0

/-- One call, observed at slot `i`. -/
def observe (i : ConnIdx) (o : Observed) (e : Event) : Observed where
  table := step o.table e
  got := o.got ++ bytesRead i o.table e
  fins := o.fins + finsProcessed i o.table e

/-- The segment carries a slice of the stream `S` that starts at `s0`. -/
def CarriesSlice (s0 : U32) (S : List U8) (seg : Segment) : Prop :=
  ∃ o, o + seg.data.length ≤ S.length ∧ seg.seq = s0 + ofNat 32 o ∧
    seg.data = (S.drop o).take seg.data.length

/-- The calls that may be interleaved: segments of the stream (any flags but
SYN), sends, closes, ticks, accepts and reads. -/
def StreamCall (s0 : U32) (S : List U8) (e : Event) : Prop :=
  match e.call with
  | .rx payload _ _ => ∀ seg, parseSegment payload = some seg →
      seg.has tcpSyn = false ∧ CarriesSlice s0 S seg
  | .listen _ _ _ | .connect _ _ _ _ _ => False
  | _ => True

/-- The receive-side invariant of one connection. -/
structure Received (s0 : U32) (S : List U8) (c : TcpConn) (got : List U8)
    (fins : Nat) : Prop where
  synced : Synced c.state
  sofar : got ++ c.rx.contents <+: S
  counter : c.rcvNxt = s0 + ofNat 32 ((got ++ c.rx.contents).length + fins)
  quiet : fins ≠ 0 → receives c.state = false

variable {s0 : U32} {S got : List U8} {fins : Nat}

theorem Received.keeps (h : Received s0 S c got fins) (hk : KeepsReceive c c') :
    Received s0 S c' got fins where
  synced := hk.synced h.synced
  sofar := by rw [hk.rx]; exact h.sofar
  counter := by rw [hk.rx, hk.rcvNxt]; exact h.counter
  quiet := by
    intro hf
    rcases hk.door h.synced with hclosed | ⟨hsame, -⟩
    · simp [hclosed, receives]
    · rw [hsame]
      exact h.quiet hf

/-- Reading moves bytes from the ring to the application and nothing else. -/
theorem Received.read (h : Received s0 S c got fins) {n : Nat} (hn : n ≤ c.rx.avail) :
    Received s0 S { c with rx := (c.rx.popN n).2 } (got ++ (c.rx.popN n).1) fins := by
  obtain ⟨hfst, hsnd⟩ := c.rx.popN_eq n hn
  have hall : got ++ (c.rx.popN n).1 ++ (c.rx.popN n).2.contents
      = got ++ c.rx.contents := by
    rw [hfst, hsnd, append_assoc, take_append_drop]
  exact ⟨h.synced, by rw [hall]; exact h.sofar, by rw [hall]; exact h.counter, h.quiet⟩

/-- The arithmetic heart of the invariant: a slice whose sequence number is
`s0 + received` starts exactly where the received bytes end. -/
theorem slice_offset_eq {o received : Nat} (ho : o < 2 ^ 32) (hr : received < 2 ^ 32)
    (h : s0 + ofNat 32 o = s0 + ofNat 32 received) : o = received := by
  grind [BitVec.toNat_ofNat]

/-- Appending the first bytes of the slice that starts where a received
initial part ends gives a longer initial part. -/
theorem append_slice {sofar data : List U8} {k : Nat} (hsofar : sofar <+: S)
    (hdata : data = (S.drop sofar.length).take k) (a : Nat) : sofar ++ data.take a <+: S := by
  obtain ⟨rest, rfl⟩ := hsofar
  rw [hdata, drop_left, take_take]
  exact (prefix_append_right_inj sofar).mpr ( take_prefix _ rest)

theorem acceptLen_le_data (c : TcpConn) (seg : Segment) : acceptLen c seg ≤ seg.data.length := by
  unfold acceptLen
  split <;> omega

theorem acceptLen_le_free (c : TcpConn) (seg : Segment) : acceptLen c seg ≤ c.rx.free := by
  unfold acceptLen
  split
  · exact Nat.min_le_right _ _
  · exact Nat.zero_le _

theorem length_take_acceptLen (c : TcpConn) (seg : Segment) :
    (seg.data.take (acceptLen c seg)).length = acceptLen c seg := by
  rw [length_take]
  exact Nat.min_eq_left (acceptLen_le_data c seg)

/-- What data processing accepts is appended to the queue. -/
theorem contents_accept (c : TcpConn) (seg : Segment) :
    (c.rx.pushAll (seg.data.take (acceptLen c seg))).contents
      = c.rx.contents ++ seg.data.take (acceptLen c seg) := by
  apply RingBuffer.contents_pushAll
  rw [length_take_acceptLen]
  exact acceptLen_le_free c seg

section

variable (hS : S.length < 2 ^ 32) (h : Received s0 S c got fins)
include hS h

/-- The bytes accepted from a slice of the stream continue the part already
received. -/
theorem Received.accept {seg : Segment} (hslice : CarriesSlice s0 S seg) :
    got ++ c.rx.contents ++ seg.data.take (acceptLen c seg) <+: S := by
  obtain ⟨o, hlen, hseq, hdata⟩ := hslice
  by_cases hin : receives c.state ∧ seg.seq = c.rcvNxt
  · have hfins : fins = 0 := by
      by_contra hf
      rw [h.quiet hf] at hin
      exact absurd hin.1 (by simp)
    have hle := h.sofar.length_le
    have hstart : o = (got ++ c.rx.contents).length := by
      apply slice_offset_eq (by omega) (by omega)
      rw [← hseq, hin.2, h.counter, hfins, Nat.add_zero]
    exact append_slice h.sofar (hstart ▸ hdata) _
  · have hzero : acceptLen c seg = 0 := by simp [acceptLen, hin]
    rw [hzero]
    simpa using h.sofar

/-- A segment keeps the invariant. -/
theorem Received.segment {env : Env} {id : ConnIdx} {seg : Segment} {srcIp dstIp : U32} (hslice : CarriesSlice s0 S seg)
    (heffect : RxEffect env id c seg srcIp dstIp c') :
    Received s0 S c' got (fins + (finProcessed env id c seg srcIp dstIp).toNat) := by
  cases heffect with
  | early hrx hrcv hstate hfin =>
    rw [hfin]
    exact h.keeps (keepsReceive_of_state hrx hrcv hstate)
  | full hrx hrcv hstate hfin =>
    have hcontents : got ++ c'.rx.contents
        = got ++ c.rx.contents ++ seg.data.take (acceptLen c seg) := by
      rw [hrx, contents_accept, append_assoc]
    refine ⟨?_, ?_, ?_, ?_⟩
    · rw [hstate]
      split
      · exact synced_finNextState (synced_ackNextState seg h.synced)
      · exact synced_ackNextState seg h.synced
    · rw [hcontents]
      exact h.accept hS hslice
    · have hcount : (got ++ c'.rx.contents).length
          = (got ++ c.rx.contents).length + acceptLen c seg := by
        rw [hcontents, length_append, length_take_acceptLen]
      rw [hrcv, h.counter, hcount, hfin, add_assoc, add_assoc, ← ofNat_add, ← ofNat_add]
      congr 2
      omega
    · intro hf
      rw [hstate]
      split
      · exact not_receives_finNextState _
      · rename_i hflag
        rw [receives_ackNextState]
        exact h.quiet (by simpa [hfin, hflag] using hf)

end

/-- How a call that opens no connection shows at slot `i`. -/
inductive Observation (i : ConnIdx) (o : Observed) (e : Event) : Observed → Prop
  | keeps {o' : Observed} (hk : KeepsReceive (o.table.conns i) (o'.table.conns i))
      (hgot : o'.got = o.got) (hfins : o'.fins = o.fins) : Observation i o e o'
  | read {o' : Observed} {n : Nat} (hn : n ≤ (o.table.conns i).rx.avail)
      (hconn : o'.table.conns i =
        { o.table.conns i with rx := ((o.table.conns i).rx.popN n).2 })
      (hgot : o'.got = o.got ++ ((o.table.conns i).rx.popN n).1)
      (hfins : o'.fins = o.fins) : Observation i o e o'
  | segment {o' : Observed} {payload : Buffer} {srcIp dstIp : U32} {seg : Segment}
      (hcall : e.call = .rx payload srcIp dstIp)
      (hparse : parseSegment payload = some seg)
      (hlookup : (lookup o.table seg srcIp (List.finRange tcpMaxConn) none).1 = some i)
      (hconn : o'.table.conns i = (rxConn e.env i (o.table.conns i) seg srcIp dstIp).1)
      (hgot : o'.got = o.got)
      (hfins : o'.fins = o.fins + (finProcessed e.env i (o.table.conns i) seg srcIp dstIp).toNat) :
      Observation i o e o'

variable {e : Event}

/-- A call that is not addressed to slot `i` is not seen there. -/
theorem silent_of_elsewhere {i : ConnIdx} {t : Table}
    (h : Elsewhere t i e) : bytesRead i t e = [] ∧ finsProcessed i t e = 0 := by
  obtain ⟨env, call⟩ := e
  cases call with
  | rx payload srcIp dstIp =>
    refine ⟨rfl, ?_⟩
    simp only [finsProcessed]
    split
    · rfl
    · rename_i seg hparse
      rw [if_neg (h seg hparse).1]
  | read id len =>
    have hid : connIdx id ≠ some i := h
    simp [bytesRead, finsProcessed, hid]
  | listen _ _ _ => exact ⟨rfl, rfl⟩
  | connect _ _ _ _ _ => exact ⟨rfl, rfl⟩
  | send _ _ => exact ⟨rfl, rfl⟩
  | close _ => exact ⟨rfl, rfl⟩
  | tick => exact ⟨rfl, rfl⟩
  | accept _ => exact ⟨rfl, rfl⟩

theorem observe_observation (i : ConnIdx) (o : Observed) (he : StreamCall s0 S e) : Observation i o e (observe i o e) := by
  have hchange := step_slotChange o.table e i
  generalize hc' : (step o.table e).conns i = c' at hchange
  cases hchange with
  | same helse =>
    obtain ⟨hbytes, hfins⟩ := silent_of_elsewhere helse
    exact .keeps (keepsReceive_of_state (congrArg TcpConn.rx hc')
      (congrArg TcpConn.rcvNxt hc') (.inl (congrArg TcpConn.state hc')))
      (by simp [observe, hbytes]) (by simp [observe, hfins])
  | segment hparse hlookup =>
    exact .segment rfl hparse hlookup hc' (by simp [observe, bytesRead])
      (by simp [observe, finsProcessed, hparse, hlookup])
  | passive hparse hopens hlstn hlisten =>
    exact absurd hopens.2.2.1 (by simp [(he _ hparse).1])
  | listen _ => exact he.elim
  | connect _ => exact he.elim
  | send hsends =>
    refine .keeps ?_ (by simp [observe, bytesRead]) (by simp [observe, finsProcessed])
    rw [observe, hc']
    exact keepsReceive_retxArm _ _ rfl rfl rfl
  | close hid =>
    refine .keeps ?_ (by simp [observe, bytesRead]) (by simp [observe, finsProcessed])
    rw [observe, hc']
    exact keepsReceive_close _
  | tick =>
    refine .keeps ?_ (by simp [observe, bytesRead]) (by simp [observe, finsProcessed])
    rw [observe, hc']
    exact keepsReceive_tick _ _ _
  | accept hstate hport =>
    refine .keeps ?_ (by simp [observe, bytesRead]) (by simp [observe, finsProcessed])
    rw [observe, hc']
    exact keepsReceive_of_state rfl rfl (.inl rfl)
  | read hid =>
    exact .read (Nat.min_le_left _ _) hc'
      (by simp [observe, bytesRead, tcpRead, hid]) (by simp [observe, finsProcessed])

/-- One call keeps the invariant of slot `i`. -/
theorem observe_received {i : ConnIdx} {o : Observed} (hS : S.length < 2 ^ 32)
    (h : Received s0 S (o.table.conns i) o.got o.fins) (he : StreamCall s0 S e) :
    Received s0 S ((observe i o e).table.conns i) (observe i o e).got
      (observe i o e).fins := by
  have hobs := observe_observation i o he
  generalize observe i o e = o' at hobs
  cases hobs with
  | keeps hk hgot hfins =>
    rw [hgot, hfins]
    exact h.keeps hk
  | read hn hconn hgot hfins =>
    rw [hconn, hgot, hfins]
    exact h.read hn
  | @segment payload srcIp dstIp seg hcall hparse hlookup hconn hgot hfins =>
    have hslice : CarriesSlice s0 S seg := by
      rw [StreamCall, hcall] at he
      exact (he seg hparse).2
    rw [hconn, hgot, hfins]
    exact h.segment hS hslice (rxConn_effect e.env i seg srcIp dstIp h.synced)

/-- **Receive-stream integrity.**  From the moment a connection is
established with `rcv_nxt = s0` and an empty ring, under any interleaving of
segments of the stream `S` with sends, closes, ticks, accepts and reads, the
bytes returned by `tcp_read` followed by the bytes in the ring are an initial
part of `S`; until a FIN is processed its length is the distance of `rcv_nxt`
from `s0`. -/
theorem receive_stream_integrity (t : Table) (i : ConnIdx) (s0 : U32) (S : List U8)
    (hS : S.length < 2 ^ 32) (hest : (t.conns i).state = .established)
    (hrcv : (t.conns i).rcvNxt = s0) (hempty : (t.conns i).rx.head = (t.conns i).rx.tail)
    (es : List Event) (hes : ∀ e ∈ es, StreamCall s0 S e) :
    let o := Runs.run (observe i) ⟨t, [], 0⟩ es
    o.got ++ (o.table.conns i).rx.contents <+: S ∧
      (o.fins = 0 → (o.got ++ (o.table.conns i).rx.contents).length =
        ((o.table.conns i).rcvNxt - s0).toNat) := by
  have hnil : (t.conns i).rx.contents = [] := (RingBuffer.contents_eq_nil_iff _).mpr hempty
  have hstart : Received s0 S (t.conns i) [] 0 :=
    ⟨by simp [hest, Synced], by simp [hnil], by simp [hnil, hrcv], by simp⟩
  have hend := Runs.run_invariant
    (fun o : Observed => Received s0 S (o.table.conns i) o.got o.fins)
    (fun _ _ h he => observe_received hS h he) hstart
    (Runs.stepsMeet_of_forall hes ⟨t, [], 0⟩)
  refine ⟨hend.sofar, fun hfins => ?_⟩
  have hle := hend.sofar.length_le
  rw [hend.counter, hfins, Nat.add_zero, BitVec.add_comm s0, BitVec.add_sub_cancel,
    BitVec.toNat_ofNat, Nat.mod_eq_of_lt (by omega)]

/-- An established connection of port 80 that expects sequence number `s0`. -/
def sampleConn (s0 : U32) : TcpConn :=
  { bssConn with
    state := .established, localPort := 80, remoteIp := 7, remotePort := 5000
    rcvNxt := s0 }

/-- The header of a segment from the peer of `sampleConn`. -/
def sampleHdr (flags : U8) (seq : U32) : TcpHdr where
  srcPort := ByteOrder.htons 5000
  dstPort := ByteOrder.htons 80
  seq := ByteOrder.htonl seq
  ack := 0
  dataOff := tcpDataOffMin
  flags := flags
  window := 0
  checksum := 0
  urgPtr := 0

/-- Two overlapping segments and a read, with the sequence numbers wrapping
inside the stream. -/
def sampleRun : List Event :=
  [⟨quietEnv, .rx ⟨(sampleHdr tcpAck 0xFFFFFFFF).bytes ++ [10, 11], by decide⟩ 7 9⟩,
   ⟨quietEnv, .rx ⟨(sampleHdr tcpAck 0).bytes ++ [11, 12], by decide⟩ 7 9⟩,
   ⟨quietEnv, .read 0 1⟩]

theorem receive_stream_integrity_sampleRun :
    let o := Runs.run (observe 0) ⟨initTable.set 0 (sampleConn 0xFFFFFFFF), [], 0⟩
      sampleRun
    o.got ++ (o.table.conns 0).rx.contents <+: [10, 11, 12] ∧
      (o.fins = 0 → (o.got ++ (o.table.conns 0).rx.contents).length =
        ((o.table.conns 0).rcvNxt - 0xFFFFFFFF).toNat) := by
  refine receive_stream_integrity _ 0 0xFFFFFFFF [10, 11, 12] (by decide) rfl rfl rfl
    sampleRun ?_
  intro e he
  simp only [sampleRun, mem_cons, not_mem_nil, or_false] at he
  rcases he with rfl | rfl | rfl
  · intro seg hseg
    cases hseg
    exact ⟨by decide, 0, by decide, by decide, by decide⟩
  · intro seg hseg
    cases hseg
    exact ⟨by decide, 1, by decide, by decide, by decide⟩
  · trivial

end Tcp
