import NamelessOS.E1000Tx

/-!
# The receive ring of the e1000

The other half of the driver: `init_rx` and `e1000_poll` against the 82540EM.
The device stores an arriving frame in the buffer of the descriptor at RDH, sets
DD and EOP and moves RDH; it owns `[RDH, RDT)` and drops frames when that is
empty.  The driver takes frames from `rx_tail` on, gives each descriptor back
and moves RDT behind it, so RDT is always one behind `rx_tail`.  Every access of
the driver and every action of the device is a step of its own.  `e1000_poll` is
called from the timer interrupt only, so its calls do not overlap.
-/

namespace E1000

open CircularRange Runs List Function

def e1000RxBufSize : Nat := 2048

def rxdStatDd : U8 := 1#8
def rxdStatEop : U8 := 2#8

/-- `E1000_NUM_RX_DESC` is 32; an index is kept modulo that. -/
abbrev RxIdx := Fin 32

/-- The fields of `e1000_rx_desc_t` that the driver uses; `addr` names the buffer
the address belongs to. -/
structure RxDesc where
  addr : RxIdx
  length : U16
  status : U8

/-- Where `e1000_poll` stands, with its local `idx`. -/
inductive PollPc
  | idle
  /-- the head of the loop -/
  | check
  /-- DD was set -/
  | examine (idx : RxIdx)
  /-- `memcpy` to the heap copy has come to `frame` -/
  | copy (idx : RxIdx) (len : Nat) (frame : List U8)
  | clear (idx : RxIdx)
  | addr (idx : RxIdx)
  | tail (idx : RxIdx)
  | rdt (idx : RxIdx)

/-- What the device does with the descriptor at RDH. -/
inductive RxUnit
  | ready
  /-- `k` bytes of the frame are in the buffer -/
  | dma (frame : List U8) (k : Nat)
  | report (frame : List U8)
  | advance

/-- Driver and device.  `stored` are the frames the device reported in a
descriptor, `delivered` those the receive callback was called with. -/
structure Rx where
  e1000Ready : Bool
  rxCallback : Bool
  rxDescs : RxIdx → RxDesc
  rxBufs : RxIdx → Nat → U8
  rxTail : RxIdx
  pc : PollPc
  rdh : RxIdx
  rdt : RxIdx
  unit : RxUnit
  stored : List (List U8)
  delivered : List (List U8)

/-- The state after `init_rx` with a callback registered. -/
def initRx (bufs : RxIdx → Nat → U8) : Rx where
  e1000Ready := true
  rxCallback := true
  rxDescs i := ⟨i, 0#16, 0#8⟩
  rxBufs := bufs
  rxTail := 0
  pc := .idle
  rdh := 0
  rdt := 31
  unit := .ready
  stored := []
  delivered := []

/-! ## Steps -/

def Rx.writeDesc (s : Rx) (i : RxIdx) (d : RxDesc) : Rx :=
  { s with rxDescs := update s.rxDescs i d }

def Rx.writeByte (s : Rx) (i : RxIdx) (k : Nat) (b : U8) : Rx :=
  { s with rxBufs := update s.rxBufs i (update (s.rxBufs i) k b) }

/-- A frame arrives.  While the device is storing one the next waits outside;
frames that do not fit a buffer are discarded. -/
def Rx.arrive (s : Rx) (frame : List U8) : Rx :=
  match s.unit with
  | .ready =>
    if s.rdh = s.rdt ∨ e1000RxBufSize < frame.length then s
    else { s with unit := .dma frame 0 }
  | _ => s

/-- One action of the device. -/
def Rx.device (s : Rx) : Rx :=
  match s.unit with
  | .ready => s
  | .dma frame k =>
    if h : k < frame.length then
      { s.writeByte (s.rxDescs s.rdh).addr k frame[k] with unit := .dma frame (k + 1) }
    else { s with unit := .report frame }
  | .report frame =>
    let d := { s.rxDescs s.rdh with
      length := BitVec.ofNat 16 frame.length
      status := rxdStatDd ||| rxdStatEop }
    { s.writeDesc s.rdh d with unit := .advance, stored := s.stored ++ [frame] }
  | .advance => { s with rdh := s.rdh + 1, unit := .ready }

/-- `e1000_poll` is called. -/
def Rx.poll (s : Rx) : Rx :=
  match s.pc with
  | .idle => if !s.e1000Ready then s else { s with pc := .check }
  | _ => s

/-- One access of `e1000_poll`; `ok` says whether `kmalloc` succeeds. -/
def Rx.driver (s : Rx) (ok : Bool) : Rx :=
  match s.pc with
  | .idle => s
  | .check =>
    if (s.rxDescs s.rxTail).status &&& rxdStatDd = 0#8 then { s with pc := .idle }
    else { s with pc := .examine s.rxTail }
  | .examine idx =>
    let d := s.rxDescs idx
    if 0 < d.length.toNat ∧ d.status &&& rxdStatEop ≠ 0#8 then
      if s.rxCallback && ok then { s with pc := .copy idx d.length.toNat [] }
      else { s with pc := .clear idx }
    else { s with pc := .clear idx }
  | .copy idx len frame =>
    if frame.length < len then
      { s with pc := .copy idx len (frame ++ [s.rxBufs idx frame.length]) }
    else { s with pc := .clear idx, delivered := s.delivered ++ [frame] }
  | .clear idx => { s.writeDesc idx { s.rxDescs idx with status := 0#8 } with pc := .addr idx }
  | .addr idx => { s.writeDesc idx { s.rxDescs idx with addr := idx } with pc := .tail idx }
  | .tail idx => { s with rxTail := idx + 1, pc := .rdt idx }
  | .rdt idx => { s with rdt := idx, pc := .check }

inductive RxEvent
  | arrive (frame : List U8)
  | device
  | poll
  | driver (ok : Bool)

def Rx.step (s : Rx) : RxEvent → Rx
  | .arrive frame => s.arrive frame
  | .device => s.device
  | .poll => s.poll
  | .driver ok => s.driver ok

/-- Frames are not empty and `kmalloc` succeeds. -/
def Benign : RxEvent → Prop
  | .arrive frame => frame ≠ []
  | .driver ok => ok = true
  | _ => True

/-! ## The invariant -/

/-- A descriptor and its buffer hold a complete frame. -/
structure Arrived (d : RxDesc) (buf : Nat → U8) (frame : List U8) : Prop where
  fits : frame.length ≤ e1000RxBufSize
  nonempty : frame ≠ []
  length : d.length = BitVec.ofNat 16 frame.length
  status : d.status = rxdStatDd ||| rxdStatEop
  bytes : ∀ k (h : k < frame.length), buf k = frame[k]

/-- The frame at `rx_tail` was delivered. -/
def PollPc.handled : PollPc → Nat
  | .clear _ | .addr _ | .tail _ => 1
  | _ => 0

/-- Its descriptor was cleared. -/
def PollPc.cleared : PollPc → Nat
  | .addr _ | .tail _ => 1
  | _ => 0

/-- RDT has not followed `rx_tail` yet. -/
def PollPc.lagging : PollPc → Nat
  | .rdt _ => 1
  | _ => 0

/-- The frame at RDH was reported. -/
def RxUnit.reported : RxUnit → Nat
  | .advance => 1
  | _ => 0

/-- `p` descriptors were given back, the device has passed `h`: the stored
frames from the `p`-th on are in their descriptors, the descriptors after them
have no DD.  The last three numbers say where `e1000_poll` stands. -/
structure RxRing (s : Rx) (p h handled cleared lagging : Nat) : Prop where
  callback : s.rxCallback = true
  tail : s.rxTail = place 32 p
  head : s.rdh = place 32 h
  rdt : s.rdt = place 32 (p + 31 - lagging)
  stored : s.stored.length = h + s.unit.reported
  behind : p + handled ≤ s.stored.length
  owned : h + s.unit.reported ≤ p + 31 - lagging
  addrs : ∀ i, (s.rxDescs i).addr = i
  pending : ∀ j (hj : j < s.stored.length), p + cleared ≤ j →
    Arrived (s.rxDescs (place 32 j)) (s.rxBufs (place 32 j)) s.stored[j]
  free : ∀ j, s.stored.length ≤ j → j < p + cleared + 32 → (s.rxDescs (place 32 j)).status = 0#8
  delivered : s.delivered = s.stored.take (p + handled)

/-- What the device has written of the frame it is storing. -/
def Filling (s : Rx) (p h : Nat) : Prop :=
  match s.unit with
  | .dma frame k => (frame.length ≤ e1000RxBufSize ∧ frame ≠ []) ∧ h < p + 31 - s.pc.lagging ∧
      ∀ i (hi : i < frame.length), i < k → s.rxBufs (place 32 h) i = frame[i]
  | .report frame => (frame.length ≤ e1000RxBufSize ∧ frame ≠ []) ∧ h < p + 31 - s.pc.lagging ∧
      ∀ i (hi : i < frame.length), s.rxBufs (place 32 h) i = frame[i]
  | _ => True

/-- What `e1000_poll` has done with the frame at `rx_tail`. -/
def Polling (s : Rx) (p : Nat) : Prop :=
  match s.pc with
  | .idle | .check => True
  | .examine idx => idx = place 32 p ∧ p < s.stored.length
  | .copy idx len frame => idx = place 32 p ∧ ∃ hp : p < s.stored.length,
      len = (s.stored[p]).length ∧ frame.length ≤ len ∧ frame = (s.stored[p]).take frame.length
  | .clear idx | .addr idx | .tail idx => idx = place 32 p
  | .rdt idx => ∃ q, p = q + 1 ∧ idx = place 32 q

structure RxSound (s : Rx) (p h : Nat) : Prop where
  ring : RxRing s p h s.pc.handled s.pc.cleared s.pc.lagging
  filling : Filling s p h
  polling : Polling s p

variable {s : Rx} {p h a b c : Nat} {frame : List U8}

theorem Arrived.length_eq {d : RxDesc} {buf : Nat → U8}
    (harrived : Arrived d buf frame) : d.length.toNat = frame.length := by
  have hfits := harrived.fits
  unfold e1000RxBufSize at hfits
  rw [harrived.length, BitVec.toNat_ofNat, Nat.mod_eq_of_lt (by omega)]

/-! ## Steps of the driver -/

theorem RxRing.goto (hring : RxRing s p h a b c) (pc : PollPc) : RxRing { s with pc := pc } p h a b c :=
  { hring with }

variable {s' : Rx}

theorem Filling.mono {p' : Nat} (hfilling : Filling s p h) (hunit : s'.unit = s.unit)
    (hbufs : s'.rxBufs = s.rxBufs)
    (hbound : p + 31 - s.pc.lagging ≤ p' + 31 - s'.pc.lagging) : Filling s' p' h := by
  unfold Filling at hfilling ⊢
  grind

theorem Filling.goto (hfilling : Filling s p h) {old : PollPc} (hpc : s.pc = old)
    (hlagging : s'.pc.lagging = old.lagging) (hunit : s'.unit = s.unit)
    (hbufs : s'.rxBufs = s.rxBufs) : Filling s' p h := by
  refine hfilling.mono hunit hbufs ?_
  rw [hpc, hlagging]

theorem RxSound.check (hs : RxSound s p h) (hpc : s.pc = .check) (ok : Bool) :
    RxSound (s.driver ok) p h ∧
      ((s.driver ok).pc = .idle → (s.driver ok).delivered = (s.driver ok).stored) := by
  obtain ⟨hring, hfilling, -⟩ := hs
  rw [hpc] at hring
  have htail : s.rxDescs s.rxTail = s.rxDescs (place 32 p) := by rw [hring.tail]
  rw [Rx.driver, hpc]
  dsimp only
  split
  · rename_i hdd
    refine ⟨⟨hring.goto _, hfilling.goto hpc rfl rfl rfl, trivial⟩, fun _ => ?_⟩
    -- a frame that is waiting would have DD set
    have hall : s.stored.length ≤ p := by
      refine Nat.le_of_not_lt (fun hlt => ?_)
      rw [htail, (hring.pending p hlt le_rfl).status] at hdd
      exact absurd hdd (by decide)
    exact hring.delivered.trans (take_of_length_le hall)
  · rename_i hdd
    refine ⟨⟨hring.goto _, hfilling.goto hpc rfl rfl rfl, hring.tail, ?_⟩,
      fun hidle => by cases hidle⟩
    refine Nat.lt_of_le_of_ne hring.behind (fun heq => hdd ?_)
    rw [htail, hring.free p (Nat.le_of_eq heq.symm) (Nat.lt_add_of_pos_right (by decide))]
    decide

variable {idx : RxIdx}

section

variable (hs : RxSound s p h)
include hs

theorem RxSound.examine_eq (hpc : s.pc = .examine idx) : ∃ hlt : p < s.stored.length,
      s.driver true = { s with pc := .copy (place 32 p) s.stored[p].length [] } ∧
        s.stored[p].length ≤ e1000RxBufSize := by
  obtain ⟨hring, -, hpolling⟩ := hs
  rw [hpc] at hring
  rw [Polling, hpc] at hpolling
  obtain ⟨rfl, hlt⟩ := hpolling
  have harrived := hring.pending p hlt le_rfl
  have hpos := length_pos_iff.mpr harrived.nonempty
  have hdeliver : (s.rxCallback && true) = true := by rw [hring.callback]; rfl
  refine ⟨hlt, ?_, harrived.fits⟩
  rw [Rx.driver, hpc]
  dsimp only
  rw [harrived.length_eq, harrived.status, if_pos ⟨hpos, by decide⟩, if_pos hdeliver]

theorem RxSound.examine (hpc : s.pc = .examine idx) : RxSound (s.driver true) p h := by
  obtain ⟨hlt, heq, -⟩ := hs.examine_eq hpc
  have hring := hs.ring
  rw [hpc] at hring
  rw [heq]
  exact ⟨hring.goto _, hs.filling.goto hpc rfl rfl rfl, rfl, hlt, rfl, Nat.zero_le _, rfl⟩

/-- `memcpy` copies the stored frame, and the callback gets it. -/
theorem RxSound.copy {len : Nat}
    (hpc : s.pc = .copy idx len frame) : RxSound (s.driver true) p h := by
  obtain ⟨hring, hfilling, hpolling⟩ := hs
  rw [hpc] at hring
  rw [Polling, hpc] at hpolling
  obtain ⟨rfl, hlt, rfl, hle, hframe⟩ := hpolling
  have harrived := hring.pending p hlt le_rfl
  rw [Rx.driver, hpc]
  dsimp only
  split
  · rename_i hmore
    refine ⟨hring.goto _, hfilling.goto hpc rfl rfl rfl, rfl, hlt, rfl, ?_, ?_⟩
    · rw [length_append]
      exact hmore
    · grind [take_add_one, Arrived.bytes]
  · rename_i hdone
    have hwhole : frame = s.stored[p] := by
      rw [hframe, take_of_length_le (Nat.le_of_not_lt hdone)]
    refine ⟨{ hring with behind := hlt, delivered := ?_ }, hfilling.goto hpc rfl rfl rfl, rfl⟩
    show s.delivered ++ [frame] = s.stored.take (p + 1)
    have hdelivered : s.delivered = s.stored.take p := hring.delivered
    rw [take_add_one, hdelivered, List.getElem?_eq_getElem hlt, hwhole]
    rfl

theorem RxSound.clear (hpc : s.pc = .clear idx) : RxSound (s.driver true) p h := by
  obtain ⟨hring, hfilling, hpolling⟩ := hs
  rw [hpc] at hring
  rw [Polling, hpc] at hpolling
  obtain rfl := hpolling
  have hstored : s.stored.length ≤ p + 31 := hring.stored.trans_le hring.owned
  rw [Rx.driver, hpc]
  refine ⟨{ hring with addrs := fun i => ?_, pending := ?_, free := ?_ },
    hfilling.goto hpc rfl rfl rfl, rfl⟩
  · show (update s.rxDescs (place 32 p) _ i).addr = i
    rcases eq_or_ne i (place 32 p) with rfl | hne
    · rw [update_self]
      exact hring.addrs _
    · rw [update_of_ne hne]
      exact hring.addrs i
  · intro j (hj : j < s.stored.length) (hpj : p + 1 ≤ j)
    show Arrived (update s.rxDescs (place 32 p) _ (place 32 j)) _ _
    rw [update_of_ne (place_ne hpj (by omega))]
    exact hring.pending j hj (Nat.le_of_lt hpj)
  · intro j (hj : s.stored.length ≤ j) (hpj : j < p + 1 + 32)
    show (update s.rxDescs (place 32 p) _ (place 32 j)).status = 0#8
    rcases eq_or_ne (place 32 j) (place 32 p) with heq | hne
    · rw [heq, update_self]
    · rw [update_of_ne hne]
      refine hring.free j hj (Nat.lt_of_le_of_ne (by omega) (fun heq => hne ?_))
      rw [heq]
      exact place_lap p

end

theorem RxDesc.setAddr_eq {d : RxDesc} {i : RxIdx} (hd : d.addr = i) : { d with addr := i } = d := by
  subst hd
  rfl

section

variable (hs : RxSound s p h)
include hs

theorem RxSound.addr (hpc : s.pc = .addr idx) : RxSound (s.driver true) p h := by
  obtain ⟨hring, hfilling, hpolling⟩ := hs
  rw [hpc] at hring
  rw [Polling, hpc] at hpolling
  obtain rfl := hpolling
  rw [Rx.driver, hpc]
  dsimp only
  -- the address is there already
  rw [RxDesc.setAddr_eq (hring.addrs (place 32 p)), Rx.writeDesc, update_eq_self]
  exact ⟨hring.goto _, hfilling.goto hpc rfl rfl rfl, rfl⟩

/-- `rx_tail` moves on; RDT follows in the next step. -/
theorem RxSound.tail (hpc : s.pc = .tail idx) : RxSound (s.driver true) (p + 1) h := by
  obtain ⟨hring, hfilling, hpolling⟩ := hs
  rw [hpc] at hring
  rw [Polling, hpc] at hpolling
  obtain rfl := hpolling
  rw [Rx.driver, hpc]
  refine ⟨{ hring with tail := place_succ p }, hfilling.mono rfl rfl ?_, p, rfl, rfl⟩
  rw [hpc]
  exact le_rfl

theorem RxSound.rdt (hpc : s.pc = .rdt idx) : RxSound (s.driver true) p h := by
  obtain ⟨hring, hfilling, hpolling⟩ := hs
  rw [hpc] at hring
  rw [Polling, hpc] at hpolling
  obtain ⟨q, rfl, rfl⟩ := hpolling
  rw [Rx.driver, hpc]
  refine ⟨{ hring with rdt := (place_lap q).symm, owned := Nat.le_succ_of_le hring.owned },
    hfilling.mono rfl rfl ?_, trivial⟩
  rw [hpc]
  exact Nat.le_succ _

/-- **Every access of the driver** keeps the invariant. -/
theorem RxSound.driver : ∃ p', RxSound (s.driver true) p' h := by
  cases hpc : s.pc with
  | idle =>
    rw [Rx.driver, hpc]
    exact ⟨p, hs⟩
  | check => exact ⟨p, (hs.check hpc true).1⟩
  | examine idx => exact ⟨p, hs.examine hpc⟩
  | copy idx len frame => exact ⟨p, hs.copy hpc⟩
  | clear idx => exact ⟨p, hs.clear hpc⟩
  | addr idx => exact ⟨p, hs.addr hpc⟩
  | tail idx => exact ⟨p + 1, hs.tail hpc⟩
  | rdt idx => exact ⟨p, hs.rdt hpc⟩

theorem RxSound.poll : RxSound s.poll p h := by
  unfold Rx.poll
  split
  · rename_i hpc
    split
    · exact hs
    · have hring := hs.ring
      rw [hpc] at hring
      exact ⟨hring.goto _, hs.filling.goto hpc rfl rfl rfl, trivial⟩
  · exact hs

end

/-! ## Steps of the device -/

theorem Polling.congr (hpolling : Polling s p) (hpc : s'.pc = s.pc)
    (hstored : s'.stored = s.stored) : Polling s' p := by
  unfold Polling at hpolling ⊢
  simp only [hpc, hstored]
  exact hpolling

theorem Polling.append (hpolling : Polling s p) (hpc : s'.pc = s.pc) (frame : List U8)
    (hstored : s'.stored = s.stored ++ [frame]) : Polling s' p := by
  unfold Polling at hpolling ⊢
  grind

theorem RxRing.setUnit (hring : RxRing s p h a b c) (u : RxUnit) (bufs : RxIdx → Nat → U8)
    {old : RxUnit} (hunit : s.unit = old) (hreported : u.reported = old.reported)
    (hbufs : ∀ j < s.stored.length, p + b ≤ j → bufs (place 32 j) = s.rxBufs (place 32 j)) :
    RxRing { s with unit := u, rxBufs := bufs } p h a b c := by
  subst hunit
  refine { hring with stored := ?_, owned := ?_, pending := fun j hj hpj => ?_ }
  · exact hring.stored.trans (congrArg (h + ·) hreported.symm)
  · exact (congrArg (h + ·) hreported).trans_le hring.owned
  · grind [pending]

theorem RxSound.arrive (hs : RxSound s p h) (hne : frame ≠ []) : RxSound (s.arrive frame) p h := by
  unfold Rx.arrive
  split
  · rename_i hunit
    split
    · exact hs
    · rename_i hroom
      rw [not_or] at hroom
      obtain ⟨hring, -, hpolling⟩ := hs
      refine ⟨hring.setUnit (.dma frame 0) s.rxBufs hunit rfl (fun _ _ _ => rfl),
        ⟨⟨Nat.le_of_not_lt hroom.2, hne⟩, ?_, fun i _ hi => absurd hi (Nat.not_lt_zero i)⟩,
        hpolling.congr rfl rfl⟩
      have howned := hring.owned
      rw [hunit] at howned
      refine Nat.lt_of_le_of_ne howned (fun heq => hroom.1 ?_)
      rw [hring.head, hring.rdt]
      exact congrArg (place 32) heq
  · exact hs

theorem PollPc.cleared_le_handled (pc : PollPc) : pc.cleared ≤ pc.handled := by
  cases pc <;> simp [PollPc.cleared, PollPc.handled]

theorem RxRing.head_free (hring : RxRing s p h a b c) (hunit : s.unit.reported = 0)
    (hlt : h < p + 31 - c) {j : Nat} (hj : j < s.stored.length) (hpj : p + b ≤ j) :
    place 32 h ≠ place 32 j := by
  have hstored := hring.stored
  exact place_ne (by omega) (by omega)

section

variable (hs : RxSound s p h)
include hs

theorem RxSound.dma {k : Nat} (hunit : s.unit = .dma frame k) : RxSound s.device p h := by
  obtain ⟨hring, hfilling, hpolling⟩ := hs
  rw [Filling, hunit] at hfilling
  obtain ⟨hframe, hlt, hbytes⟩ := hfilling
  have hreported : s.unit.reported = 0 := by rw [hunit]; rfl
  rw [Rx.device, hunit]
  dsimp only
  split
  · rename_i hk
    rw [hring.addrs, hring.head]
    refine ⟨hring.setUnit (.dma frame (k + 1)) (s.writeByte (place 32 h) k frame[k]).rxBufs hunit rfl
      (fun j hj hpj => ?_), ⟨hframe, hlt, fun i hi hik => ?_⟩, hpolling.congr rfl rfl⟩
    · exact update_of_ne (hring.head_free hreported hlt hj hpj).symm _ _
    · show update s.rxBufs (place 32 h) _ (place 32 h) i = _
      rw [update_self]
      grind
  · rename_i hk
    refine ⟨hring.setUnit (.report frame) s.rxBufs hunit rfl (fun _ _ _ => rfl),
      ⟨hframe, hlt, fun i hi => ?_⟩,
      hpolling.congr rfl rfl⟩
    exact hbytes i hi (Nat.lt_of_lt_of_le hi (Nat.le_of_not_lt hk))

theorem RxSound.report (hunit : s.unit = .report frame) : RxSound s.device p h := by
  obtain ⟨hring, hfilling, hpolling⟩ := hs
  rw [Filling, hunit] at hfilling
  obtain ⟨hframe, hlt, hbytes⟩ := hfilling
  have hreported : s.unit.reported = 0 := by rw [hunit]; rfl
  have hstored : s.stored.length = h := by rw [hring.stored, hreported]; rfl
  have hbehind := hring.behind
  have hcleared := s.pc.cleared_le_handled
  have hlen : (s.stored ++ [frame]).length = h + 1 := by rw [length_append, hstored]; rfl
  rw [Rx.device, hunit]
  rw [hring.head]
  refine ⟨⟨hring.callback, hring.tail, hring.head, hring.rdt, hlen, ?_, hlt, fun i => ?_, ?_, ?_, ?_⟩,
    trivial, hpolling.append rfl frame rfl⟩
  · exact Nat.le_trans hbehind (by rw [hlen]; omega)
  · show (update s.rxDescs (place 32 h) _ i).addr = i
    rcases eq_or_ne i (place 32 h) with rfl | hne
    · rw [update_self]
      exact hring.addrs _
    · rw [update_of_ne hne]
      exact hring.addrs i
  · intro j (hj : j < (s.stored ++ [frame]).length) hpj
    show Arrived (update s.rxDescs (place 32 h) _ (place 32 j)) _ (s.stored ++ [frame])[j]
    rcases Nat.lt_or_ge j s.stored.length with hold | hnew
    · rw [update_of_ne (hring.head_free hreported hlt hold hpj).symm, getElem_append_left hold]
      exact hring.pending j hold hpj
    · obtain rfl : j = h := by omega
      rw [update_self, getElem_concat_length hstored.symm]
      exact ⟨hframe.1, hframe.2, rfl, rfl, hbytes⟩
  · intro j (hj : (s.stored ++ [frame]).length ≤ j) (hpj : j < p + s.pc.cleared + 32)
    show (update s.rxDescs (place 32 h) _ (place 32 j)).status = 0#8
    grind [place_ne, RxRing.free]
  · show s.delivered = (s.stored ++ [frame]).take (p + s.pc.handled)
    rw [take_append_of_le_length hbehind]
    exact hring.delivered

theorem RxSound.advance (hunit : s.unit = .advance) : RxSound s.device p (h + 1) := by
  obtain ⟨hring, -, hpolling⟩ := hs
  have hstored := hring.stored
  have howned := hring.owned
  rw [hunit] at hstored howned
  rw [Rx.device, hunit]
  exact ⟨{ hring with head := by rw [hring.head, place_succ], stored := hstored, owned := howned },
    trivial,
    hpolling.congr rfl rfl⟩

/-! ## Runs -/

theorem RxSound.device : ∃ h', RxSound s.device p h' := by
  cases hunit : s.unit with
  | ready =>
    rw [Rx.device, hunit]
    exact ⟨h, hs⟩
  | dma frame k => exact ⟨h, hs.dma hunit⟩
  | report frame => exact ⟨h, hs.report hunit⟩
  | advance => exact ⟨h + 1, hs.advance hunit⟩

end

/-- **The invariant** of the runs. -/
def RxInv (s : Rx) : Prop := ∃ p h, RxSound s p h

theorem RxInv.step (hinv : RxInv s) {e : RxEvent} (he : Benign e) : RxInv (s.step e) := by
  obtain ⟨p, h, hs⟩ := hinv
  cases e with
  | arrive frame => exact ⟨p, h, hs.arrive he⟩
  | device =>
    obtain ⟨h', hs'⟩ := hs.device
    exact ⟨p, h', hs'⟩
  | poll => exact ⟨p, h, hs.poll⟩
  | driver ok =>
    obtain rfl : ok = true := he
    obtain ⟨p', hs'⟩ := hs.driver
    exact ⟨p', h, hs'⟩

theorem rxInv_initRx (bufs : RxIdx → Nat → U8) : RxInv (initRx bufs) :=
  ⟨0, 0, ⟨rfl, rfl, rfl, rfl, rfl, le_rfl, Nat.zero_le _, fun _ => rfl,
    fun _ hj => absurd hj (Nat.not_lt_zero _), fun _ _ _ => rfl, rfl⟩, trivial, trivial⟩

/-! ## A poll ends, and has delivered everything -/

/-- How much `e1000_poll` has left to do in one round of its loop. -/
def PollPc.rank : PollPc → Nat
  | .idle => 0
  | .rdt _ => 2053
  | .check => 2052
  | .examine _ => 2051
  | .copy _ len frame => len - frame.length + 2
  | .clear _ => 2056
  | .addr _ => 2055
  | .tail _ => 2054

/-- What is left until the loop ends if no more frames are stored. -/
def Rx.remaining (s : Rx) : Nat := (s.stored.length - s.delivered.length) * 3000 + s.pc.rank

theorem RxSound.remaining_lt (hs : RxSound s p h) (hpc : s.pc ≠ .idle) :
    (s.driver true).remaining < s.remaining := by
  unfold Rx.remaining
  cases hat : s.pc with
  | idle => exact absurd hat hpc
  | check =>
    rw [Rx.driver, hat]
    dsimp only
    split <;> refine Nat.add_lt_add_left ?_ _
    · exact Nat.zero_lt_succ 2051
    · exact Nat.lt_succ_self 2051
  | examine idx =>
    obtain ⟨hlt, heq, hfits⟩ := hs.examine_eq hat
    rw [heq]
    refine Nat.add_lt_add_left (Nat.lt_succ_of_le ?_) _
    exact Nat.add_le_add_right hfits 2
  | copy idx len frame =>
    obtain ⟨hring, -, hpolling⟩ := hs
    rw [hat] at hring
    rw [Polling, hat] at hpolling
    obtain ⟨rfl, hlt, rfl, hle, -⟩ := hpolling
    have hdelivered : s.delivered.length = p := by
      rw [hring.delivered, length_take]
      exact Nat.min_eq_left (Nat.le_of_lt hlt)
    rw [Rx.driver, hat]
    dsimp only
    split
    · refine Nat.add_lt_add_left ?_ _
      simp only [PollPc.rank, length_append, length_singleton]
      omega
    · simp only [PollPc.rank, length_append, length_singleton]
      omega
  | clear idx | addr idx | tail idx | rdt idx =>
    rw [Rx.driver, hat]
    exact Nat.lt_succ_self _

theorem RxSound.ended (hs : RxSound s p h) (hpc : s.pc ≠ .idle) (hidle : (s.driver true).pc = .idle) :
    (s.driver true).delivered = (s.driver true).stored := by
  cases hat : s.pc with
  | idle => exact absurd hat hpc
  | check => exact (hs.check hat true).2 hidle
  | examine idx =>
    obtain ⟨hlt, heq, -⟩ := hs.examine_eq hat
    rw [heq] at hidle
    cases hidle
  | copy idx len frame =>
    rw [Rx.driver, hat] at hidle
    dsimp only at hidle
    split at hidle <;> cases hidle
  | clear idx | addr idx | tail idx | rdt idx =>
    rw [Rx.driver, hat] at hidle
    cases hidle

theorem driver_frame (s : Rx) (ok : Bool) :
    (s.driver ok).stored = s.stored ∧ (s.driver ok).e1000Ready = s.e1000Ready := by
  unfold Rx.driver
  split
  case h_2 => split <;> exact ⟨rfl, rfl⟩
  case h_3 =>
      dsimp only
      split
      · split <;> exact ⟨rfl, rfl⟩
      · exact ⟨rfl, rfl⟩
  case h_4 => split <;> exact ⟨rfl, rfl⟩
  all_goals exact ⟨rfl, rfl⟩

theorem poll_ends (n : Nat) : ∀ {s : Rx}, RxInv s → s.pc ≠ .idle → s.remaining ≤ n →
    ∃ k, (run Rx.step s (replicate k (.driver true))).pc = .idle ∧
      (run Rx.step s (replicate k (.driver true))).delivered = s.stored := by
  induction n with
  | zero =>
    rintro s ⟨p, h, hs⟩ hpc hle
    exact absurd (hs.remaining_lt hpc) (by omega)
  | succ n ih =>
    rintro s ⟨p, h, hs⟩ hpc hle
    have hlt := hs.remaining_lt hpc
    obtain ⟨p', hs'⟩ := hs.driver
    cases hidle : (s.driver true).pc with
    | idle =>
      refine ⟨1, hidle, ?_⟩
      show (s.driver true).delivered = s.stored
      rw [hs.ended hpc hidle, (driver_frame s true).1]
    | _ =>
      have hmore : (s.driver true).pc ≠ .idle := by
        intro heq
        rw [heq] at hidle
        cases hidle
      obtain ⟨k, hk⟩ := ih ⟨p', h, hs'⟩ hmore (by omega)
      rw [(driver_frame s true).1] at hk
      exact ⟨k + 1, hk⟩

/-- `e1000_ready` is never taken back. -/
theorem step_ready (s : Rx) (e : RxEvent) : (s.step e).e1000Ready = s.e1000Ready := by
  cases e with
  | arrive frame =>
    rw [Rx.step, Rx.arrive]
    split
    · split <;> rfl
    · rfl
  | device =>
    rw [Rx.step, Rx.device]
    split
    case h_2 => split <;> rfl
    all_goals rfl
  | poll =>
    rw [Rx.step, Rx.poll]
    split
    · split <;> rfl
    · rfl
  | driver ok => exact (driver_frame s ok).2

/-- **The callback gets exactly the stored frames**, in order and with their
bytes, in every interleaving of arrivals, device actions and polls: at any time
what was delivered is a prefix of what was stored, and the poll that is in
progress, or the next one, ends and delivers the rest. -/
theorem rx_delivers_stored (bufs : RxIdx → Nat → U8) (es : List RxEvent)
    (hes : ∀ e ∈ es, Benign e) :
    let s := run Rx.step (initRx bufs) es
    s.delivered <+: s.stored ∧
      ∃ n, (run Rx.step s (.poll :: replicate n (.driver true))).pc = .idle ∧
        (run Rx.step s (.poll :: replicate n (.driver true))).delivered = s.stored := by
  have hinv := run_invariant (fun s => RxInv s ∧ s.e1000Ready = true)
    (fun s e hs he => ⟨hs.1.step he, (step_ready s e).trans hs.2⟩)
    ⟨rxInv_initRx bufs, rfl⟩ (stepsMeet_of_forall hes (initRx bufs))
  intro s
  obtain ⟨⟨p, h, hs⟩, hready⟩ := hinv
  constructor
  · rw [hs.ring.delivered]
    exact take_prefix _ _
  · have hpoll : s.poll.pc ≠ .idle ∧ s.poll.stored = s.stored := by
      unfold Rx.poll
      split
      · rw [hready]
        exact ⟨fun hidle => (by cases hidle), rfl⟩
      · rename_i hbusy
        exact ⟨hbusy, rfl⟩
    obtain ⟨k, hk⟩ := poll_ends _ ⟨p, h, hs.poll⟩ hpoll.1 le_rfl
    rw [hpoll.2] at hk
    exact ⟨k, hk⟩

/-- Two frames arrive, the second while the first is being polled. -/
def twoArrivals : List RxEvent :=
  [.arrive [1#8], .device, .device, .device, .device, .poll, .driver true, .driver true,
    .arrive [2#8, 3#8]] ++ replicate 5 .device ++ replicate 3 (.driver true)

theorem rx_delivers_stored_twoArrivals :
    (run Rx.step (initRx (fun _ _ => 0#8)) twoArrivals).stored = [[1#8], [2#8, 3#8]] ∧
      (run Rx.step (initRx (fun _ _ => 0#8)) twoArrivals).delivered = [[1#8]] ∧
      ∃ n, (run Rx.step (run Rx.step (initRx (fun _ _ => 0#8)) twoArrivals)
        (.poll :: replicate n (.driver true))).delivered = [[1#8], [2#8, 3#8]] := by
  have hstored : (run Rx.step (initRx (fun _ _ => 0#8)) twoArrivals).stored = [[1#8], [2#8, 3#8]] := by
    decide +kernel
  have hbenign : ∀ e ∈ twoArrivals, Benign e := by
    intro e he
    simp only [twoArrivals, cons_append, nil_append, mem_cons, mem_append,
      mem_replicate] at he
    rcases he with rfl | rfl | rfl | rfl | rfl | rfl | rfl | rfl | rfl | ⟨-, rfl⟩ | ⟨-, rfl⟩ <;>
      simp [Benign]
  obtain ⟨-, n, -, hdelivered⟩ := rx_delivers_stored (fun _ _ => 0#8) twoArrivals hbenign
  exact ⟨hstored, by decide +kernel, n, hdelivered.trans hstored⟩

end E1000
