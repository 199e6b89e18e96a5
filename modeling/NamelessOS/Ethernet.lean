import Mathlib.Data.List.GetD
import NamelessOS.ByteOrder
import NamelessOS.CheckedAccess

/-!
# Ethernet frames

`net/ethernet/ethernet.c`.  A received frame is a byte
string; every function of the receive path gets a checked pointer into it and
the `u16` length its caller passes, so that a read outside the frame is a
fault of the run.  Frames handed to `e1000_send` are returned as a list, in
the order of the calls.
-/

namespace Checked.Ptr

open ByteOrder

/-- A 16-bit field of a packed structure at offset `i`. -/
def load16 (p : Ptr U8) (i : Nat) : Except Fault U16 := do
  let b0 ← p.read i
  let b1 ← p.read (i + 1)
  .ok (ByteOrder.load16 b0 b1)

/-- A 32-bit field of a packed structure at offset `i`. -/
def load32 (p : Ptr U8) (i : Nat) : Except Fault U32 := do
  let b0 ← p.read i
  let b1 ← p.read (i + 1)
  let b2 ← p.read (i + 2)
  let b3 ← p.read (i + 3)
  .ok (ByteOrder.load32 b0 b1 b2 b3)

variable {p : Ptr U8} {n : Nat} {i : Nat}

theorem load16_of_has (h : p.Has n) (hi : i + 1 < n) :
    p.load16 i = .ok (ByteOrder.load16 ((p.view n).getD i 0) ((p.view n).getD (i + 1) 0)) := by
  rw [load16, read_of_has h (by omega) 0, ok_bind, read_of_has h hi 0, ok_bind]

theorem load32_of_has (h : p.Has n) (hi : i + 3 < n) :
    p.load32 i = .ok (ByteOrder.load32 ((p.view n).getD i 0) ((p.view n).getD (i + 1) 0)
      ((p.view n).getD (i + 2) 0) ((p.view n).getD (i + 3) 0)) := by
  rw [load32, read_of_has h (by omega) 0, ok_bind, read_of_has h (by omega) 0, ok_bind,
    read_of_has h (by omega) 0, ok_bind, read_of_has h hi 0, ok_bind]

theorem Holds.load16_eq {xs : List U8} (h : p.Holds xs) (hi : i + 1 < xs.length) :
    p.load16 i = .ok (ByteOrder.load16 (xs.getD i 0) (xs.getD (i + 1) 0)) := by
  rw [load16_of_has h.has hi, h.view_eq]

theorem Holds.load32_eq {xs : List U8} (h : p.Holds xs) (hi : i + 3 < xs.length) :
    p.load32 i = .ok (ByteOrder.load32 (xs.getD i 0) (xs.getD (i + 1) 0)
      (xs.getD (i + 2) 0) (xs.getD (i + 3) 0)) := by
  rw [load32_of_has h.has hi, h.view_eq]

theorem Has.returns_load16 (h : p.Has n) (hi : i + 1 < n) :
    Returns (p.load16 i) (fun _ => True) := .of_eq (load16_of_has h hi) trivial

theorem Has.returns_load32 (h : p.Has n) (hi : i + 3 < n) :
    Returns (p.load32 i) (fun _ => True) := .of_eq (load32_of_has h hi) trivial

end Checked.Ptr

namespace Ethernet

open ByteOrder Checked

def ethHeaderLen : Nat := 14
def ethMaxPayload : Nat := 1500
def ethMaxHandlers : Nat := 8

def ethertypeIpv4 : U16 := 0x0800
def ethertypeArp : U16 := 0x0806

/-- A hardware address. -/
structure Mac where
  bytes : List U8
  length_eq : bytes.length = 6
  deriving DecidableEq

/-- Six address bytes of a packet. -/
def readMac (p : Ptr U8) (i : Nat) : Except Fault Mac := do
  let b0 ← p.read i
  let b1 ← p.read (i + 1)
  let b2 ← p.read (i + 2)
  let b3 ← p.read (i + 3)
  let b4 ← p.read (i + 4)
  let b5 ← p.read (i + 5)
  .ok ⟨[b0, b1, b2, b3, b4, b5], rfl⟩

theorem returns_readMac {p : Ptr U8} {n i : Nat} (h : p.Has n) (hi : i + 5 < n) :
    Returns (readMac p i) (fun _ => True) := by
  apply (h.returns_read (by omega)).bind
  intro b0 _
  apply (h.returns_read (by omega)).bind
  intro b1 _
  apply (h.returns_read (by omega)).bind
  intro b2 _
  apply (h.returns_read (by omega)).bind
  intro b3 _
  apply (h.returns_read (by omega)).bind
  intro b4 _
  apply (h.returns_read hi).bind
  intro b5 _
  exact .ok trivial

/-- `ETH_BROADCAST`. -/
def broadcast : Mac := ⟨List.replicate 6 0xFF, by decide⟩

/-- The address a virtual machine usually has. -/
def guestMac : Mac := ⟨[0x52, 0x54, 0x00, 0x12, 0x34, 0x56], rfl⟩

/-- What the rest of the kernel answers during one call: the tick counter,
whether `kmalloc` of a nonzero size succeeds, and the result of `e1000_send`
for a frame. -/
structure Env where
  ticks : U64
  kmallocOk : Nat → Bool
  e1000Ret : List U8 → Int

/-- `kmalloc(n) != NULL`. -/
def Env.kmalloc (env : Env) (n : Nat) : Bool := n != 0 && env.kmallocOk n

/-- No time passes, every allocation and every send succeeds. -/
def quietEnv : Env := ⟨0, fun _ => true, fun _ => 0⟩

/-- `eth_hdr_t`; the type is in network order. -/
structure EthHdr where
  dst : Mac
  src : Mac
  type : U16

def EthHdr.bytes (h : EthHdr) : List U8 := h.dst.bytes ++ h.src.bytes ++ store16 h.type

@[simp] theorem EthHdr.bytes_length (h : EthHdr) : h.bytes.length = ethHeaderLen := by
  simp [EthHdr.bytes, h.dst.length_eq, h.src.length_eq, store16, ethHeaderLen]

/-- `ethernet_send`: the frame given to the driver, if any, and the result.
`payload` is what the pointer argument points to. -/
def ethernetSend (env : Env) (ourMac dst : Mac) (type : U16) (payload : List U8)
    (len : U16) : List (List U8) × Int :=
  if ethMaxPayload < len.toNat then ([], -1)
  else if !env.kmalloc (ethHeaderLen + len.toNat) then ([], -1)
  else
    let hdr : EthHdr := { dst := dst, src := ourMac, type := htons type }
    let frame := hdr.bytes ++ payload.take len.toNat
    ([frame], env.e1000Ret frame)

/-- The only frame `ethernet_send` can hand over. -/
theorem mem_ethernetSend {env : Env} {ourMac dst : Mac} {type : U16} {payload : List U8}
    {len : U16} {f : List U8} (h : f ∈ (ethernetSend env ourMac dst type payload len).1) :
    f = (EthHdr.mk dst ourMac (htons type)).bytes ++ payload.take len.toNat := by
  unfold ethernetSend at h
  split at h
  · simp at h
  · split at h
    · simp at h
    · exact List.mem_singleton.mp h

/-- The type field of a frame, in host order. -/
def etherType (f : List U8) : U16 := ntohs (load16 (f.getD 12 0) (f.getD 13 0))

theorem etherType_bytes_append (h : EthHdr) (payload : List U8) :
    etherType (h.bytes ++ payload) = ntohs h.type := by
  have hlen : (h.dst.bytes ++ h.src.bytes).length = 12 := by
    simp [h.dst.length_eq, h.src.length_eq]
  have hsplit : h.bytes ++ payload
      = (h.dst.bytes ++ h.src.bytes) ++ (byteAt h.type 0 :: byteAt h.type 1 :: payload) := by
    simp [EthHdr.bytes, store16]
  grind [etherType, load16_store16]

/-- The functions that are ever given to `ethernet_register`. -/
inductive EthHandler
  | arpRx | ipv4Rx
  deriving DecidableEq, Repr

/-- `ethernet_register`. -/
def ethernetRegister (hs : List (U16 × EthHandler)) (ethertype : U16) (h : EthHandler) :
    List (U16 × EthHandler) :=
  if ethMaxHandlers ≤ hs.length then hs else hs ++ [(ethertype, h)]

/-- The table after `arp_init_impl` and `ipv4_init_impl`; nothing registers
later. -/
def ethHandlers : List (U16 × EthHandler) :=
  ethernetRegister (ethernetRegister [] ethertypeArp .arpRx) ethertypeIpv4 .ipv4Rx

/-- `ethernet_rx` up to the handler call: the handler with its payload pointer
and length.  The source address it also passes is read by no handler. -/
def ethernetDemux (buf : Ptr U8) (totalLen : U16) :
    Except Fault (Option (EthHandler × Ptr U8 × U16)) :=
  if totalLen.toNat < ethHeaderLen then .ok none
  else do
    let type := ntohs (← buf.load16 12)
    let payloadLen := totalLen - BitVec.ofNat 16 ethHeaderLen
    match ethHandlers.lookup type with
    | none => .ok none
    | some h => .ok (some (h, buf.add ethHeaderLen, payloadLen))

theorem sub_toNat {len : U16} {k : Nat} (hk : k ≤ len.toNat) :
    (len - BitVec.ofNat 16 k).toNat = len.toNat - k := by
  have hmod : k % 2 ^ 16 = k := Nat.mod_eq_of_lt (by omega)
  rw [BitVec.toNat_sub, BitVec.toNat_ofNat, hmod]
  omega

/-- Demultiplexing reads inside the frame and passes on a pointer to all of
the payload length. -/
theorem returns_ethernetDemux {buf : Ptr U8} {totalLen : U16} (h : buf.Has totalLen.toNat) :
    Returns (ethernetDemux buf totalLen) (fun r => ∀ c ∈ r, c.2.1.Has c.2.2.toNat) := by
  apply Returns.early (by simp)
  intro hlen
  have hhdr : ethHeaderLen ≤ totalLen.toNat := Nat.le_of_not_lt hlen
  have hpay : (buf.add ethHeaderLen).Has (totalLen.toNat - ethHeaderLen) :=
    Ptr.Has.add (h.mono (by omega))
  apply ((h.mono hhdr).returns_load16 (by decide)).bind
  intro type _
  dsimp only
  split
  · exact .ok (by simp)
  · apply Returns.ok
    rintro _ ⟨⟩
    rw [sub_toNat hhdr]
    exact hpay

end Ethernet
