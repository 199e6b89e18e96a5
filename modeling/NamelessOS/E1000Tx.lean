import NamelessOS.ByteOrder
import NamelessOS.CircularRange
import NamelessOS.Runs

/-!
# The transmit ring of the e1000

`init_tx` and `e1000_send` against the 82540EM.  The driver writes a frame into
the buffer of the descriptor at `tx_tail`, fills the descriptor field by field
and moves the tail register TDT; the device transmits the descriptors of
`[TDH, TDT)` in order.  Every store of the driver and every action of the device
is a step of its own, so a run interleaves them at any relative speed.

Syscalls run with interrupts enabled and the timer interrupt polls the network,
which sends as well: a call of `e1000_send` can start while another is in
progress, so the state holds a list of calls.
-/

namespace E1000

open CircularRange Runs List
open Function (update update_of_ne update_self)

def e1000MaxFrame : Nat := 1518

def txdStatDd : U8 := 1#8
def txdCmdEop : U8 := 1#8
def txdCmdFcs : U8 := 2#8
def txdCmdRs : U8 := 8#8

/-- `E1000_NUM_TX_DESC` is 32; an index is kept modulo that. -/
abbrev TxIdx := Fin 32

instance numDesc_neZero : NeZero 32 := ⟨by decide⟩

/-- `e1000_tx_desc_t`; `addr` names the buffer the address belongs to. -/
structure TxDesc where
  addr : Option TxIdx
  length : U16
  cso : U8
  cmd : U8
  status : U8
  css : U8
  special : U16

/-- The stores of `e1000_send` to a descriptor. -/
inductive TxField
  | addr | length | cso | css | special | cmd | status
  deriving DecidableEq

/-- Their order. -/
def descStores : List TxField := [.addr, .length, .cso, .css, .special, .cmd, .status]

def TxDesc.store (d : TxDesc) (idx : TxIdx) (len : U16) : TxField → TxDesc
  | .addr => { d with addr := some idx }
  | .length => { d with length := len }
  | .cso => { d with cso := 0#8 }
  | .css => { d with css := 0#8 }
  | .special => { d with special := 0#16 }
  | .cmd => { d with cmd := txdCmdEop ||| txdCmdFcs ||| txdCmdRs }
  | .status => { d with status := 0#8 }

/-- Where a call of `e1000_send` stands. -/
inductive SendPc
  /-- the `i`-th look at the DD bit -/
  | poll (i : Nat)
  /-- `memcpy` has copied `k` bytes -/
  | copy (k : Nat)
  | fill (todo : List TxField)
  | tail
  | doorbell
  deriving DecidableEq

/-- A call in progress with its local `idx` and the `len` bytes at `buf`. -/
structure Call where
  idx : TxIdx
  frame : List U8
  pc : SendPc

def Call.len (c : Call) : U16 := BitVec.ofNat 16 c.frame.length

/-- What the device does next with the descriptor at TDH. -/
inductive TxUnit
  | fetch | report | advance
  deriving DecidableEq

/-- Driver and device.  `accepted` are the frames for which `e1000_send`
returned 0, with their descriptors; `wire` is what was transmitted. -/
structure Tx where
  e1000Ready : Bool
  txDescs : TxIdx → TxDesc
  txBufs : TxIdx → Nat → U8
  txTail : TxIdx
  calls : List Call
  tdh : TxIdx
  tdt : TxIdx
  unit : TxUnit
  accepted : List (TxIdx × List U8)
  wire : List (List U8)

/-- The state after `init_tx`; the buffers hold whatever they hold. -/
def initTx (bufs : TxIdx → Nat → U8) : Tx where
  e1000Ready := true
  txDescs _ := ⟨none, 0#16, 0#8, 0#8, txdStatDd, 0#8, 0#16⟩
  txBufs := bufs
  txTail := 0
  calls := []
  tdh := 0
  tdt := 0
  unit := .fetch
  accepted := []
  wire := []

/-- The bytes the descriptor at `i` describes. -/
def Tx.frameAt (s : Tx) (i : TxIdx) : List U8 :=
  match (s.txDescs i).addr with
  | none => []
  | some b => (List.range (s.txDescs i).length.toNat).map (s.txBufs b)

/-! ## Steps -/

/-- `e1000_send` is called. -/
def Tx.send (s : Tx) (frame : List U8) : Tx :=
  if !s.e1000Ready then s
  else if e1000MaxFrame < frame.length then s
  else { s with calls := s.calls ++ [⟨s.txTail, frame, .poll 0⟩] }

def Tx.writeByte (s : Tx) (i : TxIdx) (k : Nat) (b : U8) : Tx :=
  { s with txBufs := update s.txBufs i (update (s.txBufs i) k b) }

def Tx.writeDesc (s : Tx) (i : TxIdx) (d : TxDesc) : Tx :=
  { s with txDescs := update s.txDescs i d }

/-- Call `i` goes on at `pc`. -/
def Tx.goto (s : Tx) (i : Nat) (c : Call) (pc : SendPc) : Tx :=
  { s with calls := s.calls.set i { c with pc := pc } }

/-- Call `i` returns. -/
def Tx.return (s : Tx) (i : Nat) : Tx := { s with calls := s.calls.eraseIdx i }

/-- One store, or one look at a bit, of call `i`. -/
def Tx.advanceCall (s : Tx) (i : Nat) (c : Call) : Tx :=
  match c.pc with
  | .poll k =>
    if (s.txDescs c.idx).status &&& txdStatDd ≠ 0#8 then s.goto i c (.copy 0)
    else if k + 1 < 100000 then s.goto i c (.poll (k + 1))
    else s.return i
  | .copy k =>
    if h : k < c.frame.length then
      (s.writeByte c.idx k c.frame[k]).goto i c (.copy (k + 1))
    else s.goto i c (.fill descStores)
  | .fill [] => s.goto i c .tail
  | .fill (f :: fs) =>
    (s.writeDesc c.idx ((s.txDescs c.idx).store c.idx c.len f)).goto i c (.fill fs)
  | .tail => { s with txTail := c.idx + 1 }.goto i c .doorbell
  | .doorbell =>
    { s with tdt := s.txTail, accepted := s.accepted ++ [(c.idx, c.frame)] }.return i

/-- One action of the device: it transmits the frame at TDH, reports it if asked
to, and moves TDH. -/
def Tx.device (s : Tx) : Tx :=
  match s.unit with
  | .fetch =>
    if s.tdh = s.tdt then s
    else { s with wire := s.wire ++ [s.frameAt s.tdh], unit := .report }
  | .report =>
    let d := s.txDescs s.tdh
    let status := if d.cmd &&& txdCmdRs ≠ 0#8 then d.status ||| txdStatDd else d.status
    { s.writeDesc s.tdh { d with status := status } with unit := .advance }
  | .advance => { s with tdh := s.tdh + 1, unit := .fetch }

inductive TxEvent
  | send (frame : List U8)
  | driver (i : Nat)
  | device

def Tx.step (s : Tx) : TxEvent → Tx
  | .send frame => s.send frame
  | .driver i =>
    match s.calls[i]? with
    | none => s
    | some c => s.advanceCall i c
  | .device => s.device

/-! ## What the ring promises -/

/-- **The hand-off**: every accepted frame that was not transmitted yet is in
`[TDH, TDT)` with its bytes, and what was transmitted are the accepted frames in
order. -/
structure HandedOff (s : Tx) : Prop where
  inRing : ∀ j (h : j < s.accepted.length), s.wire.length ≤ j →
    Owned s.tdh s.tdt (s.accepted[j].1) ∧ s.frameAt (s.accepted[j].1) = s.accepted[j].2
  order : s.wire = (s.accepted.take s.wire.length).map Prod.snd

/-- Calls do not overlap, and the tail a call hands to the device has not caught
up with TDH. -/
def LeavesRoom (s : Tx) : TxEvent → Prop
  | .send _ => s.calls = []
  | .driver i => ∀ c ∈ s.calls[i]?, c.pc = .doorbell → s.txTail ≠ s.tdh
  | .device => True

instance (s : Tx) : (e : TxEvent) → Decidable (LeavesRoom s e)
  | .send _ => decidable_of_iff (s.calls.isEmpty = true) isEmpty_iff
  | .driver i => inferInstanceAs (Decidable (∀ c ∈ s.calls[i]?, c.pc = .doorbell → s.txTail ≠ s.tdh))
  | .device => isTrue trivial

/-! ## The invariant -/

/-- The descriptor at `i` and its buffer hold the frame. -/
structure Holds (s : Tx) (i : TxIdx) (frame : List U8) : Prop where
  small : frame.length ≤ e1000MaxFrame
  addr : (s.txDescs i).addr = some i
  length : (s.txDescs i).length = BitVec.ofNat 16 frame.length
  bytes : ∀ k (h : k < frame.length), s.txBufs i k = frame[k]

/-- The device has passed `d` descriptors: the accepted frames from there on are
held by the descriptors of `[TDH, TDT)`, one after the other. -/
structure TxRing (s : Tx) (d : Nat) : Prop where
  head : s.tdh = place 32 d
  tail : s.tdt = place 32 s.accepted.length
  passed : s.wire.length = if s.unit = .fetch then d else d + 1
  sent : s.wire.length ≤ s.accepted.length
  room : s.accepted.length < d + 32
  slots : ∀ j (h : j < s.accepted.length), s.accepted[j].1 = place 32 j
  frames : ∀ j (h : j < s.accepted.length), d ≤ j → Holds s (place 32 j) s.accepted[j].2
  order : s.wire = (s.accepted.take s.wire.length).map Prod.snd

/-- The first `k` bytes are in the buffer. -/
def Copied (s : Tx) (c : Call) (k : Nat) : Prop :=
  ∀ i (h : i < c.frame.length), i < k → s.txBufs c.idx i = c.frame[i]

/-- How far a call has come. -/
def Progress (s : Tx) (c : Call) : Prop :=
  match c.pc with
  | .poll _ => s.txTail = c.idx
  | .copy k => s.txTail = c.idx ∧ Copied s c k
  | .fill todo => s.txTail = c.idx ∧ Copied s c c.frame.length ∧
      (.addr ∉ todo → (s.txDescs c.idx).addr = some c.idx) ∧
      (.length ∉ todo → (s.txDescs c.idx).length = c.len)
  | .tail => s.txTail = c.idx ∧ Holds s c.idx c.frame
  | .doorbell => s.txTail = c.idx + 1 ∧ Holds s c.idx c.frame

/-- The calls: none, or one on the descriptor after the accepted ones. -/
inductive Calling (s : Tx) : Prop
  | idle (hcalls : s.calls = []) (htail : s.txTail = place 32 s.accepted.length)
  | busy (c : Call) (hcalls : s.calls = [c]) (hidx : c.idx = place 32 s.accepted.length)
      (hsmall : c.frame.length ≤ e1000MaxFrame) (hprogress : Progress s c)

variable {s s' : Tx} {d i : Nat} {c : Call} {frame : List U8}

theorem Holds.frameAt_eq {i : TxIdx} (h : Holds s i frame) : s.frameAt i = frame := by
  have hsmall := h.small
  unfold e1000MaxFrame at hsmall
  have hlen : (s.txDescs i).length.toNat = frame.length := by
    rw [h.length, BitVec.toNat_ofNat, Nat.mod_eq_of_lt (by omega)]
  unfold Tx.frameAt
  rw [h.addr, hlen]
  refine ext_getElem (by simp) (fun k hk hk' => ?_)
  rw [getElem_map, getElem_range]
  exact h.bytes k hk'

theorem Holds.congr {i : TxIdx} (h : Holds s i frame)
    (haddr : (s'.txDescs i).addr = (s.txDescs i).addr)
    (hlength : (s'.txDescs i).length = (s.txDescs i).length) (hbuf : s'.txBufs i = s.txBufs i) :
    Holds s' i frame :=
  ⟨h.small, haddr.trans h.addr, hlength.trans h.length, fun k hk => by rw [hbuf]; exact h.bytes k hk⟩

section

variable (h : TxRing s d)
include h

theorem TxRing.passed_le : d ≤ s.accepted.length := by
  have hpassed := h.passed
  have hsent := h.sent
  split at hpassed <;> omega

/-- The descriptor after the accepted ones is none of those in the ring. -/
theorem TxRing.next_free {j : Nat} (hd : d ≤ j) (hj : j < s.accepted.length) :
    place 32 j ≠ place 32 s.accepted.length := by
  have hroom := h.room
  intro heq
  have := (place_inj hd (by omega) h.passed_le hroom).mp heq
  omega

/-- Stores outside the ring keep it. -/
theorem TxRing.congr (htdh : s'.tdh = s.tdh) (htdt : s'.tdt = s.tdt)
    (hunit : s'.unit = s.unit) (haccepted : s'.accepted = s.accepted) (hwire : s'.wire = s.wire)
    (hdescs : ∀ i, i ≠ place 32 s.accepted.length → s'.txDescs i = s.txDescs i)
    (hbufs : ∀ i, i ≠ place 32 s.accepted.length → s'.txBufs i = s.txBufs i) : TxRing s' d := by
  refine ⟨?_, ?_, ?_, ?_, ?_, ?_, ?_, ?_⟩
  · rw [htdh, h.head]
  · rw [htdt, haccepted, h.tail]
  · rw [hwire, hunit, h.passed]
  · rw [hwire, haccepted]
    exact h.sent
  · rw [haccepted]
    exact h.room
  · simp only [haccepted]
    exact h.slots
  · simp only [haccepted]
    grind [next_free, Holds.congr, frames]
  · rw [hwire, haccepted]
    exact h.order

theorem TxRing.handedOff : HandedOff s := by
  refine ⟨fun j hj hwire => ?_, h.order⟩
  have hpassed := h.passed
  have hroom := h.room
  have hd : d ≤ j := by split at hpassed <;> omega
  rw [h.slots j hj]
  refine ⟨?_, (h.frames j hj hd).frameAt_eq⟩
  rw [h.head, h.tail, owned_place h.passed_le hroom hd (by omega)]
  exact hj

/-- The next descriptor joins the ring. -/
theorem TxRing.push (htdh : s'.tdh = s.tdh)
    (htdt : s'.tdt = place 32 (s.accepted.length + 1)) (hunit : s'.unit = s.unit)
    (haccepted : s'.accepted = s.accepted ++ [(place 32 s.accepted.length, frame)])
    (hwire : s'.wire = s.wire) (hdescs : s'.txDescs = s.txDescs) (hbufs : s'.txBufs = s.txBufs)
    (hroom : s.accepted.length + 1 < d + 32)
    (hholds : Holds s (place 32 s.accepted.length) frame) : TxRing s' d := by
  have hkeep : ∀ {i frame}, Holds s i frame → Holds s' i frame := fun hi =>
    hi.congr (by rw [hdescs]) (by rw [hdescs]) (by rw [hbufs])
  have hlen : s'.accepted.length = s.accepted.length + 1 := by rw [haccepted, length_append]; rfl
  -- an entry of the longer list is an old one or the new one
  have hentry : ∀ j (hj : j < s'.accepted.length), (∃ hold : j < s.accepted.length,
      s'.accepted[j] = s.accepted[j]) ∨
      (j = s.accepted.length ∧ s'.accepted[j] = (place 32 s.accepted.length, frame)) := by
    intro j hj
    simp only [haccepted]
    rcases Nat.lt_or_ge j s.accepted.length with hold | hnew
    · exact .inl ⟨hold, getElem_append_left hold⟩
    · obtain rfl : j = s.accepted.length := by omega
      exact .inr ⟨rfl, getElem_concat_length rfl _⟩
  refine ⟨htdh.trans h.head, by rw [htdt, hlen], by rw [hwire, hunit, h.passed],
    by rw [hwire, hlen]; exact Nat.le_succ_of_le h.sent, by rw [hlen]; exact hroom, ?_, ?_, ?_⟩
  · intro j hj
    rcases hentry j hj with ⟨hold, heq⟩ | ⟨rfl, heq⟩ <;> rw [heq]
    exact h.slots j hold
  · intro j hj hd
    grind [frames]
  · rw [hwire, haccepted, take_append_of_le_length h.sent]
    exact h.order

/-! ## Steps of the driver -/

theorem TxRing.goto (i : Nat) (c : Call) (pc : SendPc) : TxRing (s.goto i c pc) d :=
  h.congr rfl rfl rfl rfl rfl (fun _ _ => rfl) (fun _ _ => rfl)

theorem TxRing.return (i : Nat) : TxRing (s.return i) d :=
  h.congr rfl rfl rfl rfl rfl (fun _ _ => rfl) (fun _ _ => rfl)

end

/-- The call has come to `pc`. -/
theorem Calling.goto {pc : SendPc} (hcalls : s.calls = [c])
    (hidx : c.idx = place 32 s.accepted.length) (hsmall : c.frame.length ≤ e1000MaxFrame)
    (hprogress : Progress (s.goto 0 c pc) { c with pc := pc }) : Calling (s.goto 0 c pc) := by
  refine .busy { c with pc := pc } ?_ hidx hsmall hprogress
  rw [Tx.goto, hcalls]
  rfl

theorem Calling.return (hcalls : s.calls = [c]) (htail : s.txTail = place 32 s.accepted.length) :
    Calling (s.return 0) := by
  refine .idle ?_ htail
  rw [Tx.return, hcalls]
  rfl

section
variable (hring : TxRing s d) (hcalls : s.calls = [c]) (hidx : c.idx = place 32 s.accepted.length)
  (hsmall : c.frame.length ≤ e1000MaxFrame)
include hring hcalls hidx hsmall

theorem poll_step {k : Nat} (hpc : c.pc = .poll k) (hprogress : Progress s c) :
    TxRing (s.advanceCall 0 c) d ∧ Calling (s.advanceCall 0 c) := by
  rw [Progress, hpc] at hprogress
  rw [Tx.advanceCall, hpc]
  dsimp only
  split
  · refine ⟨hring.goto 0 c _, .goto hcalls hidx hsmall ⟨hprogress, ?_⟩⟩
    exact fun i _ hi => absurd hi (Nat.not_lt_zero i)
  · split
    · exact ⟨hring.goto 0 c _, .goto hcalls hidx hsmall hprogress⟩
    · exact ⟨hring.return 0, .return hcalls (hprogress.trans hidx)⟩

theorem copy_step {k : Nat} (hpc : c.pc = .copy k) (hprogress : Progress s c) :
    TxRing (s.advanceCall 0 c) d ∧ Calling (s.advanceCall 0 c) := by
  rw [Progress, hpc] at hprogress
  obtain ⟨htail, hcopied⟩ := hprogress
  rw [Tx.advanceCall, hpc]
  dsimp only
  split
  · rename_i hk
    have hwrite : TxRing (s.writeByte c.idx k c.frame[k]) d :=
      hring.congr rfl rfl rfl rfl rfl (fun _ _ => rfl)
        (fun i hi => update_of_ne (hidx ▸ hi) _ _)
    refine ⟨hwrite.goto 0 c _, .goto hcalls hidx hsmall ⟨htail, fun i hi hik => ?_⟩⟩
    show update s.txBufs c.idx _ c.idx i = _
    rw [update_self]
    rcases Nat.lt_succ_iff_lt_or_eq.mp hik with hlt | rfl
    · rw [update_of_ne (by omega)]
      exact hcopied i hi hlt
    · exact update_self ..
  · rename_i hk
    refine ⟨hring.goto 0 c _, .goto hcalls hidx hsmall ⟨htail, fun i hi _ => ?_, ?_, ?_⟩⟩
    · exact hcopied i hi (Nat.lt_of_lt_of_le hi (Nat.le_of_not_lt hk))
    · exact fun h => absurd (by decide) h
    · exact fun h => absurd (by decide) h

theorem fill_step {todo : List TxField} (hpc : c.pc = .fill todo) (hprogress : Progress s c) :
    TxRing (s.advanceCall 0 c) d ∧ Calling (s.advanceCall 0 c) := by
  rw [Progress, hpc] at hprogress
  obtain ⟨htail, hcopied, haddr, hlength⟩ := hprogress
  rw [Tx.advanceCall, hpc]
  cases todo with
  | nil =>
    have hholds : Holds s c.idx c.frame := ⟨hsmall, haddr not_mem_nil,
      hlength not_mem_nil, fun k hk => hcopied k hk hk⟩
    exact ⟨hring.goto 0 c _, .goto hcalls hidx hsmall ⟨htail, hholds.congr rfl rfl rfl⟩⟩
  | cons f fs =>
    have hwrite : TxRing (s.writeDesc c.idx ((s.txDescs c.idx).store c.idx c.len f)) d :=
      hring.congr rfl rfl rfl rfl rfl (fun i hi => update_of_ne (hidx ▸ hi) _ _)
        (fun _ _ => rfl)
    refine ⟨hwrite.goto 0 c _, .goto hcalls hidx hsmall ⟨htail, hcopied, fun hnot => ?_,
      fun hnot => ?_⟩⟩
    · show (update s.txDescs c.idx _ c.idx).addr = _
      rw [update_self]
      cases f <;> first | rfl | exact haddr (by simpa using hnot)
    · show (update s.txDescs c.idx _ c.idx).length = _
      rw [update_self]
      cases f <;> first | rfl | exact hlength (by simpa using hnot)

theorem tail_step (hpc : c.pc = .tail) (hprogress : Progress s c) :
    TxRing (s.advanceCall 0 c) d ∧ Calling (s.advanceCall 0 c) := by
  rw [Progress, hpc] at hprogress
  rw [Tx.advanceCall, hpc]
  have hwrite : TxRing { s with txTail := c.idx + 1 } d :=
    hring.congr rfl rfl rfl rfl rfl (fun _ _ => rfl) (fun _ _ => rfl)
  exact ⟨hwrite.goto 0 c _, .goto hcalls hidx hsmall ⟨rfl, hprogress.2.congr rfl rfl rfl⟩⟩

omit hsmall in
/-- The doorbell adds the frame to the ring if the tail does not meet TDH. -/
theorem doorbell_step (hpc : c.pc = .doorbell) (hprogress : Progress s c)
    (hroom : s.txTail ≠ s.tdh) : TxRing (s.advanceCall 0 c) d ∧ Calling (s.advanceCall 0 c) := by
  rw [Progress, hpc] at hprogress
  obtain ⟨htail, hholds⟩ := hprogress
  rw [hidx] at hholds
  rw [hidx, place_succ] at htail
  have hlt : s.accepted.length + 1 < d + 32 := by
    have hroom' := hring.room
    refine Nat.lt_of_le_of_ne (by omega) (fun heq => hroom ?_)
    rw [htail, hring.head, heq, place_lap]
  rw [Tx.advanceCall, hpc]
  constructor
  · exact hring.push rfl htail rfl (by rw [hidx]; rfl) rfl rfl rfl hlt hholds
  · refine .return hcalls (htail.trans ?_)
    rw [length_append]
    rfl

end

/-! ## Steps of the device -/

/-- What a call has done does not depend on registers of the device. -/
theorem Calling.congr (h : Calling s) (hcalls : s'.calls = s.calls) (htail : s'.txTail = s.txTail)
    (haccepted : s'.accepted = s.accepted) (hbufs : s'.txBufs = s.txBufs)
    (hdescs : ∀ i, (s'.txDescs i).addr = (s.txDescs i).addr ∧
      (s'.txDescs i).length = (s.txDescs i).length) : Calling s' := by
  cases h with
  | idle hnone hnext => exact .idle (hcalls.trans hnone) (by rw [htail, haccepted, hnext])
  | busy c hone hidx hsmall hprogress =>
    refine .busy c (hcalls.trans hone) (by rw [haccepted, hidx]) hsmall ?_
    have hholds : Holds s c.idx c.frame → Holds s' c.idx c.frame := fun hc =>
      hc.congr (hdescs _).1 (hdescs _).2 (by rw [hbufs])
    unfold Progress Copied at hprogress ⊢
    grind

theorem TxRing.fetch (h : TxRing s d) (hunit : s.unit = .fetch) (hne : s.tdh ≠ s.tdt) :
    TxRing { s with wire := s.wire ++ [s.frameAt s.tdh], unit := .report } d := by
  have hpassed := h.passed
  rw [if_pos hunit] at hpassed
  have hlt : d < s.accepted.length := by
    refine Nat.lt_of_le_of_ne h.passed_le (fun heq => hne ?_)
    rw [h.head, h.tail, heq]
  have hframe : s.frameAt s.tdh = s.accepted[d].2 := by
    rw [h.head]
    exact (h.frames d hlt le_rfl).frameAt_eq
  have hlen : (s.wire ++ [s.frameAt s.tdh]).length = d + 1 := by
    rw [length_append, hpassed]
    rfl
  refine ⟨h.head, h.tail, hlen, hlen.trans_le hlt, h.room, h.slots, ?_, ?_⟩
  · exact fun j hj hd => (h.frames j hj hd).congr rfl rfl rfl
  · grind [order, take_add_one]

/-- Reporting changes the status only. -/
theorem writeDesc_fields (s : Tx) (i : TxIdx) (status : U8) (j : TxIdx) :
    ((s.writeDesc i { s.txDescs i with status := status }).txDescs j).addr = (s.txDescs j).addr ∧
      ((s.writeDesc i { s.txDescs i with status := status }).txDescs j).length =
        (s.txDescs j).length := by
  unfold Tx.writeDesc
  rcases eq_or_ne j i with rfl | hne
  · simp only [update_self, and_self]
  · simp only [update_of_ne hne, and_self]

theorem TxRing.report (h : TxRing s d) (hunit : s.unit = .report) (status : U8) :
    TxRing { s.writeDesc s.tdh { s.txDescs s.tdh with status := status } with unit := .advance } d := by
  have hpassed := h.passed
  rw [hunit] at hpassed
  refine ⟨h.head, h.tail, hpassed, h.sent, h.room, h.slots, fun j hj hd => ?_, h.order⟩
  have hfields := writeDesc_fields s s.tdh status
  exact (h.frames j hj hd).congr (hfields _).1 (hfields _).2 rfl

theorem TxRing.advance (h : TxRing s d) (hunit : s.unit = .advance) :
    TxRing { s with tdh := s.tdh + 1, unit := .fetch } (d + 1) := by
  have hpassed := h.passed
  have hroom := h.room
  rw [hunit] at hpassed
  refine ⟨?_, h.tail, hpassed, h.sent, ?_, h.slots, fun j hj hd => ?_, h.order⟩
  · rw [h.head, place_succ]
  · exact Nat.lt_succ_of_lt hroom
  · exact (h.frames j hj (by omega)).congr rfl rfl rfl

/-! ## Runs -/

/-- **The invariant** of the runs. -/
structure TxSound (s : Tx) : Prop where
  ring : ∃ d, TxRing s d
  calling : Calling s

theorem TxSound.send (h : TxSound s) (frame : List U8) (hcalls : s.calls = []) :
    TxSound (s.send frame) := by
  obtain ⟨d, hring⟩ := h.ring
  unfold Tx.send
  split
  · exact h
  · split
    · exact h
    · rename_i hsmall
      refine ⟨⟨d, hring.congr rfl rfl rfl rfl rfl (fun _ _ => rfl) (fun _ _ => rfl)⟩, ?_⟩
      rcases h.calling with ⟨-, htail⟩ | ⟨c, hone, -⟩
      · refine .busy ⟨s.txTail, frame, .poll 0⟩ ?_ htail (Nat.le_of_not_lt hsmall) rfl
        rw [hcalls, nil_append]
      · rw [hcalls] at hone
        cases hone

theorem TxSound.driver (h : TxSound s) {i : Nat}
    (hroom : ∀ c ∈ s.calls[i]?, c.pc = .doorbell → s.txTail ≠ s.tdh) :
    TxSound (s.step (.driver i)) := by
  obtain ⟨d, hring⟩ := h.ring
  rw [Tx.step]
  split
  · exact h
  · rename_i c hcall
    rcases h.calling with ⟨hnone, -⟩ | ⟨c', hone, hidx, hsmall, hprogress⟩
    · rw [hnone] at hcall
      cases hcall
    · obtain ⟨rfl, rfl⟩ : i = 0 ∧ c' = c := by
        rw [hone, List.getElem?_singleton] at hcall
        split at hcall
        · exact ⟨‹_›, Option.some.inj hcall⟩
        · cases hcall
      suffices h : TxRing (s.advanceCall 0 c') d ∧ Calling (s.advanceCall 0 c') from ⟨⟨d, h.1⟩, h.2⟩
      cases hpc : c'.pc with
      | poll k => exact poll_step hring hone hidx hsmall hpc hprogress
      | copy k => exact copy_step hring hone hidx hsmall hpc hprogress
      | fill todo => exact fill_step hring hone hidx hsmall hpc hprogress
      | tail => exact tail_step hring hone hidx hsmall hpc hprogress
      | doorbell => exact doorbell_step hring hone hidx hpc hprogress (hroom c' hcall hpc)

theorem TxSound.device (h : TxSound s) : TxSound s.device := by
  obtain ⟨d, hring⟩ := h.ring
  unfold Tx.device
  split
  · rename_i hunit
    split
    · exact h
    · rename_i hne
      exact ⟨⟨d, hring.fetch hunit hne⟩, h.calling.congr rfl rfl rfl rfl (fun _ => ⟨rfl, rfl⟩)⟩
  · rename_i hunit
    exact ⟨⟨d, hring.report hunit _⟩, h.calling.congr rfl rfl rfl rfl (writeDesc_fields s s.tdh _)⟩
  · rename_i hunit
    exact ⟨⟨d + 1, hring.advance hunit⟩, h.calling.congr rfl rfl rfl rfl (fun _ => ⟨rfl, rfl⟩)⟩

theorem TxSound.step (h : TxSound s) {e : TxEvent} (hok : LeavesRoom s e) : TxSound (s.step e) := by
  cases e with
  | send frame => exact h.send frame hok
  | driver i => exact h.driver hok
  | device => exact h.device

theorem txSound_initTx (bufs : TxIdx → Nat → U8) : TxSound (initTx bufs) where
  ring := ⟨0, rfl, rfl, rfl, le_rfl, Nat.zero_lt_succ 31, fun _ h => absurd h (Nat.not_lt_zero _),
    fun _ h => absurd h (Nat.not_lt_zero _), rfl⟩
  calling := .idle rfl rfl

/-- **No accepted frame is stranded or overwritten**, in every interleaving of
calls and device steps in which calls do not overlap and no doorbell lets the
tail meet TDH. -/
theorem tx_accepted_in_ring (bufs : TxIdx → Nat → U8) (es : List TxEvent)
    (hok : StepsMeet Tx.step LeavesRoom (initTx bufs) es) :
    HandedOff (run Tx.step (initTx bufs) es) := by
  have hsound := run_invariant TxSound (fun _ _ h he => h.step he) (txSound_initTx bufs) hok
  obtain ⟨d, hring⟩ := hsound.ring
  exact hring.handedOff

/-- One call of `e1000_send` that finds its descriptor free. -/
def sendAll (frame : List U8) : List TxEvent :=
  .send frame :: List.replicate (frame.length + 12) (.driver 0)

def zeroBufs : TxIdx → Nat → U8 := fun _ _ => 0#8

/-- Two frames, the first transmitted while the second is being written. -/
def twoFrames : List TxEvent :=
  sendAll [1#8, 2#8] ++ (sendAll [3#8]).take 5 ++ [.device, .device, .device] ++
    (sendAll [3#8]).drop 5

theorem tx_accepted_in_ring_twoFrames :
    (run Tx.step (initTx zeroBufs) twoFrames).wire = [[1#8, 2#8]] ∧
      HandedOff (run Tx.step (initTx zeroBufs) twoFrames) := by
  exact ⟨by decide +kernel, tx_accepted_in_ring zeroBufs twoFrames (by decide +kernel)⟩

/-- 32 frames while the device does nothing. -/
def fillRing : List TxEvent := (List.range 32).flatMap (fun i => sendAll [BitVec.ofNat 8 i])

/-- The 32nd doorbell sets TDT to TDH: all frames are accepted, none is
transmitted, and the device sees an empty ring. -/
theorem full_ring_stranded :
    let s := run Tx.step (initTx zeroBufs) fillRing
    s.accepted.length = 32 ∧ s.wire = [] ∧ s.tdh = s.tdt ∧ ¬ HandedOff s := by
  intro s
  have hlen : s.accepted.length = 32 := by decide +kernel
  have hwire : s.wire = [] := by decide +kernel
  have hempty : s.tdh = s.tdt := by decide +kernel
  refine ⟨hlen, hwire, hempty, fun h => ?_⟩
  have howned := (h.inRing 0 (by rw [hlen]; decide) (by rw [hwire]; exact le_rfl)).1
  rw [hempty] at howned
  exact not_owned_of_eq _ _ howned

end E1000
