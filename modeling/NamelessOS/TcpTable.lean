import Mathlib.Data.List.FinRange
import NamelessOS.Runs
import NamelessOS.TcpConnection

/-!
# The TCP connection table

The eight slots of `tcp.c`, the demultiplexing half of `tcp_rx` and the public
functions of `tcp.h`.  `Call` is the alphabet of the module: one constructor
for each way in, with `Env` for what the rest of the kernel answers during the
call.  `step` is the table after a call; the outputs of each function are
kept for the layer above.
-/

namespace Tcp

open List

open BitVec (ofNat)

/-- The static data of `tcp.c`: `conns` and `isn_counter`. -/
structure Table where
  conns : ConnIdx → TcpConn
  isnCounter : U32

/-- A slot as `.bss` and `tcp_init_impl` leave it. -/
def bssConn : TcpConn where
  state := .closed
  localIp := 0
  localPort := 0
  remoteIp := 0
  remotePort := 0
  sndUna := 0
  sndNxt := 0
  sndWnd := 0
  rcvNxt := 0
  retxBuf := none
  retxLen := 0
  retxDeadline := 0
  retxCount := 0
  rx := { buf := fun _ => 0, head := 0, tail := 0 }
  onData := none
  onClose := none

/-- The table after `tcp_init_impl`. -/
def initTable : Table where
  conns := fun _ => bssConn
  isnCounter := 0x12345678#32

/-- Replace one slot. -/
def Table.set (t : Table) (i : ConnIdx) (c : TcpConn) : Table :=
  { t with conns := Function.update t.conns i c }

@[simp] theorem Table.set_same (t : Table) (i : ConnIdx) (c : TcpConn) :
    (t.set i c).conns i = c := by
  simp [Table.set]

@[simp] theorem Table.set_other (t : Table) {i j : ConnIdx} (c : TcpConn)
    (h : j ≠ i) : (t.set i c).conns j = t.conns j := by
  simp [Table.set, h]

/-- `next_isn`. -/
def nextIsn (counter : U32) : U32 := counter * 1664525#32 + 1013904223#32

/-- `conn_alloc`: the first closed slot. -/
def connAlloc (t : Table) : Option ConnIdx :=
  (finRange tcpMaxConn).find? (fun i => (t.conns i).state = .closed)

/-- `id < 0 || id >= TCP_MAX_CONN` turned into an index. -/
def connIdx (id : Int) : Option ConnIdx :=
  if h : 0 ≤ id ∧ id < tcpMaxConn then
    some ⟨id.toNat, by omega⟩
  else none

@[simp] theorem connIdx_val (k : ConnIdx) : connIdx (k.val : Int) = some k := by
  rw [connIdx, dif_pos ⟨by omega, by omega⟩]
  simp

/-- The segment belongs to this connection. -/
def Matches (c : TcpConn) (seg : Segment) (srcIp : U32) : Prop :=
  c.localPort = seg.dstPort ∧ c.remotePort = seg.srcPort ∧ c.remoteIp = srcIp

instance (c : TcpConn) (seg : Segment) (srcIp : U32) : Decidable (Matches c seg srcIp) := by
  unfold Matches; infer_instance

/-- The scan at the head of `tcp_rx`: the first matching slot, and the last
listener on the port seen before it. -/
def lookup (t : Table) (seg : Segment) (srcIp : U32) :
    List ConnIdx → Option ConnIdx → Option ConnIdx × Option ConnIdx
  | [], lstn => (none, lstn)
  | i :: is, lstn =>
    let c := t.conns i
    if c.state = .closed then lookup t seg srcIp is lstn
    else if c.state = .listen ∧ c.localPort = seg.dstPort then
      lookup t seg srcIp is (some i)
    else if Matches c seg srcIp then (some i, lstn)
    else lookup t seg srcIp is lstn

/-- The slot a SYN to a listener opens. -/
def synRcvdConn (old lstn : TcpConn) (isn : U32) (seg : Segment) (srcIp dstIp : U32) : TcpConn :=
  { old with
    state := .synRcvd
    localIp := dstIp
    localPort := seg.dstPort
    remoteIp := srcIp
    remotePort := seg.srcPort
    sndUna := isn
    sndNxt := isn + 1
    sndWnd := seg.wnd
    rcvNxt := seg.seq + 1
    rx := { old.rx with head := 0, tail := 0 }
    retxBuf := none
    retxLen := 0
    onData := lstn.onData
    onClose := lstn.onClose }

/-- Passive open: take a closed slot and answer with a SYN-ACK. -/
def passiveOpen (env : Env) (t : Table) (id : ConnIdx) (lstn : TcpConn)
    (seg : Segment) (srcIp dstIp : U32) : Table × List Output :=
  let isn := nextIsn t.isnCounter
  let nc := synRcvdConn (t.conns id) lstn isn seg srcIp dstIp
  let synack := (connHdr nc (tcpSyn ||| tcpAck) nc.sndUna nc.rcvNxt).bytes
  let nc := retxArm env nc synack
  ({ t with isnCounter := isn }.set id nc, [tcpSendRaw nc synack])

/-- A segment that matches no connection. -/
def rxUnmatched (env : Env) (t : Table) (lstn : Option ConnIdx) (seg : Segment)
    (srcIp dstIp : U32) : Table × List Output :=
  let rst := sendRstReply srcIp seg.srcPort dstIp seg.dstPort seg.seq seg.ack seg.flags
  match lstn with
  | some l =>
    if seg.has tcpSyn && !seg.has tcpAck then
      match connAlloc t with
      | none => (t, [rst])
      | some id => passiveOpen env t id (t.conns l) seg srcIp dstIp
    else if !seg.has tcpRst then (t, [rst])
    else (t, [])
  | none => if !seg.has tcpRst then (t, [rst]) else (t, [])

/-- `tcp_rx`. -/
def tcpRx (env : Env) (t : Table) (payload : Buffer) (srcIp dstIp : U32) : Table × List Output :=
  match parseSegment payload with
  | none => (t, [])
  | some seg =>
    match lookup t seg srcIp (finRange tcpMaxConn) none with
    | (some i, _) =>
      let (c, out) := rxConn env i (t.conns i) seg srcIp dstIp
      (t.set i c, out)
    | (none, lstn) => rxUnmatched env t lstn seg srcIp dstIp

/-- The slot `tcp_listen` fills. -/
def listenConn (old : TcpConn) (ourIp : U32) (localPort : U16)
    (onData : Option DataCb) (onClose : Option CloseCb) : TcpConn :=
  { old with
    state := .listen
    localIp := ourIp
    localPort := localPort
    remoteIp := 0
    remotePort := 0
    rx := { old.rx with head := 0, tail := 0 }
    retxBuf := none
    retxLen := 0
    onData := onData
    onClose := onClose }

/-- `tcp_listen`; `none` is the return value `-1`. -/
def tcpListen (env : Env) (t : Table) (localPort : U16)
    (onData : Option DataCb) (onClose : Option CloseCb) : Table × Option ConnIdx :=
  match connAlloc t with
  | none => (t, none)
  | some id =>
    (t.set id (listenConn (t.conns id) env.ourIp localPort onData onClose), some id)

/-- The slot `tcp_connect` fills before it sends the SYN. -/
def synSentConn (old : TcpConn) (ourIp : U32) (isn : U32) (remoteIp : U32)
    (remotePort localPort : U16) (onData : Option DataCb) (onClose : Option CloseCb) : TcpConn :=
  { old with
    state := .synSent
    localIp := ourIp
    localPort := localPort
    remoteIp := remoteIp
    remotePort := remotePort
    sndUna := isn
    sndNxt := isn + 1
    sndWnd := 0
    rcvNxt := 0
    rx := { old.rx with head := 0, tail := 0 }
    retxBuf := none
    retxLen := 0
    onData := onData
    onClose := onClose }

/-- The SYN of an active open; its acknowledgement field is zero. -/
def synHdr (c : TcpConn) : TcpHdr := connHdr c tcpSyn c.sndUna 0

/-- `tcp_connect`; `none` is the return value `-1`. -/
def tcpConnect (env : Env) (t : Table) (remoteIp : U32)
    (remotePort localPort : U16) (onData : Option DataCb)
    (onClose : Option CloseCb) : Table × List Output × Option ConnIdx :=
  match connAlloc t with
  | none => (t, [], none)
  | some id =>
    let isn := nextIsn t.isnCounter
    let c := synSentConn (t.conns id) env.ourIp isn remoteIp remotePort localPort
      onData onClose
    let syn := (synHdr c).bytes
    let c := retxArm env c syn
    ({ t with isnCounter := isn }.set id c, [tcpSendRaw c syn], some id)

/-- The buffer `tcp_send` fills: header and payload, of which the first
`(u16)(TCP_HDR_LEN + len)` bytes are sent and kept. -/
def dataSegment (c : TcpConn) (data : Buffer) : List U8 :=
  ((connHdr c (tcpPsh ||| tcpAck) c.sndNxt c.rcvNxt).bytes ++ data.bytes).take
    ((tcpHdrLen + data.bytes.length) % 65536)

theorem dataSegment_length (c : TcpConn) (data : Buffer) :
    (dataSegment c data).length = (tcpHdrLen + data.bytes.length) % 65536 := by
  rw [dataSegment, length_take, length_append, TcpHdr.bytes_length]
  exact Nat.min_eq_left (Nat.mod_le _ _)

/-- A data segment whose length fits is the whole of header and payload. -/
theorem dataSegment_eq (c : TcpConn) {data : Buffer}
    (hfits : tcpHdrLen + data.bytes.length < 65536) : dataSegment c data =
      (connHdr c (tcpPsh ||| tcpAck) c.sndNxt c.rcvNxt).bytes ++ data.bytes := by
  have hlen : ((connHdr c (tcpPsh ||| tcpAck) c.sndNxt c.rcvNxt).bytes ++
      data.bytes).length = tcpHdrLen + data.bytes.length := by
    rw [length_append, TcpHdr.bytes_length]
  rw [dataSegment, Nat.mod_eq_of_lt hfits, ← hlen, take_length]

/-- `tcp_send`. -/
def tcpSend (env : Env) (t : Table) (id : Int) (data : Buffer) : Table × List Output × Int :=
  match connIdx id with
  | none => (t, [], -1)
  | some i =>
    let c := t.conns i
    if c.state ≠ .established ∧ c.state ≠ .closeWait then (t, [], -1)
    else if data.bytes.length = 0 then (t, [], 0)
    else
      let seg := dataSegment c data
      if !env.kmalloc seg.length then (t, [], -1)
      else
        let c := { c with sndNxt := c.sndNxt + ofNat 32 data.bytes.length }
        let c := retxArm env c seg
        (t.set i c, [tcpSendRaw c seg], env.ipv4Ret (fillChecksum c seg))

/-- What `tcp_close` does to its slot. -/
def closeConn (c : TcpConn) : TcpConn × List Output :=
  let fin := sendCtrl c (tcpFin ||| tcpAck) c.sndNxt c.rcvNxt
  match c.state with
  | .established | .synRcvd =>
    ({ c with sndNxt := c.sndNxt + 1, state := .finWait1 }, [fin])
  | .closeWait => ({ c with sndNxt := c.sndNxt + 1, state := .lastAck }, [fin])
  | .listen | .synSent => ({ retxClear c with state := .closed }, [])
  | _ => (c, [])

/-- `tcp_close`. -/
def tcpClose (t : Table) (id : Int) : Table × List Output × Int :=
  match connIdx id with
  | none => (t, [], -1)
  | some i =>
    let (c, out) := closeConn (t.conns i)
    (t.set i c, out, 0)

/-- The body of the loop of `tcp_tick`. -/
def tickConn (env : Env) (id : ConnIdx) (c : TcpConn) : TcpConn × List Output :=
  let now : U32 := env.ticks.setWidth 32
  if c.state = .timeWait then
    if 0 ≤ (now - c.retxDeadline).toInt then ({ c with state := .closed }, [])
    else (c, [])
  else
    match c.retxBuf with
    | none => (c, [])
    | some buf =>
      if c.retxLen = 0 then (c, [])
      else if (now - c.retxDeadline).toInt < 0 then (c, [])
      else if tcpMaxRetries ≤ c.retxCount then
        ({ retxClear c with state := .closed }, callOnClose c id)
      else
        let count := c.retxCount + 1
        let seg := buf.take c.retxLen.toNat
        ({ c with
            retxCount := count
            retxDeadline := now + ofNat 32 tcpRtoMs * (1#32 <<< count)
            retxBuf := some (fillChecksum c seg) },
          [tcpSendRaw c seg])

/-- `tcp_tick`: slots are independent, so the loop is a pointwise map. -/
def tcpTick (env : Env) (t : Table) : Table × List Output :=
  ({ t with conns := fun i => (tickConn env i (t.conns i)).1 },
    (finRange tcpMaxConn).flatMap (fun i => (tickConn env i (t.conns i)).2))

/-- `tcp_accept`: the first established slot on the port.  The claim marker
is written, not read. -/
def tcpAccept (t : Table) (listenPort : U16) : Table × Option ConnIdx :=
  match (finRange tcpMaxConn).find? (fun i =>
      (t.conns i).state = .established ∧ (t.conns i).localPort = listenPort ∧
        (t.conns i).remotePort ≠ 0) with
  | none => (t, none)
  | some i => (t.set i { t.conns i with onData := none }, some i)

/-- `tcp_read`: the bytes copied out. -/
def tcpRead (t : Table) (id : Int) (len : U16) : Table × List U8 :=
  match connIdx id with
  | none => (t, [])
  | some i =>
    let c := t.conns i
    let n := min c.rx.avail len.toNat
    let (bytes, rx) := c.rx.popN n
    (t.set i { c with rx := rx }, bytes)

/-- The ways into the module. -/
inductive Call
  | rx (payload : Buffer) (srcIp dstIp : U32)
  | listen (localPort : U16) (onData : Option DataCb) (onClose : Option CloseCb)
  | connect (remoteIp : U32) (remotePort localPort : U16)
      (onData : Option DataCb) (onClose : Option CloseCb)
  | send (id : Int) (data : Buffer)
  | close (id : Int)
  | tick
  | accept (listenPort : U16)
  | read (id : Int) (len : U16)

/-- One call and what the kernel answered during it. -/
structure Event where
  env : Env
  call : Call

/-- No time passes, every allocation and every send succeeds. -/
def quietEnv : Env := ⟨0, 9, fun _ => true, fun _ => 0⟩

/-- The table after one call. -/
def step (t : Table) (e : Event) : Table :=
  match e.call with
  | .rx payload srcIp dstIp => (tcpRx e.env t payload srcIp dstIp).1
  | .listen localPort onData onClose => (tcpListen e.env t localPort onData onClose).1
  | .connect remoteIp remotePort localPort onData onClose =>
    (tcpConnect e.env t remoteIp remotePort localPort onData onClose).1
  | .send id data => (tcpSend e.env t id data).1
  | .close id => (tcpClose t id).1
  | .tick => (tcpTick e.env t).1
  | .accept listenPort => (tcpAccept t listenPort).1
  | .read id len => (tcpRead t id len).1

/-- The calls out of the module during one call. -/
def outputs (t : Table) (e : Event) : List Output :=
  match e.call with
  | .rx payload srcIp dstIp => (tcpRx e.env t payload srcIp dstIp).2
  | .connect remoteIp remotePort localPort onData onClose =>
    (tcpConnect e.env t remoteIp remotePort localPort onData onClose).2.1
  | .send id data => (tcpSend e.env t id data).2.1
  | .close id => (tcpClose t id).2.1
  | .tick => (tcpTick e.env t).2
  | .listen _ _ _ | .accept _ | .read _ _ => []

/-! ## What a call can do to a slot -/

theorem connAlloc_closed {t : Table} {i : ConnIdx} (h : connAlloc t = some i) :
    (t.conns i).state = .closed := by
  simpa using List.find?_some h

/-- A matched slot is open, is not a listener, and has the segment's
addresses. -/
theorem lookup_matched {t : Table} {seg : Segment} {srcIp : U32}
    {is : List ConnIdx} {lstn : Option ConnIdx} {i : ConnIdx}
    (h : (lookup t seg srcIp is lstn).1 = some i) :
    (t.conns i).state ≠ .closed ∧ (t.conns i).state ≠ .listen ∧ Matches (t.conns i) seg srcIp := by
  induction is generalizing lstn with
  | nil => simp [lookup] at h
  | cons j is ih =>
    simp only [lookup] at h
    split at h
    · exact ih h
    · rename_i hopen
      split at h
      · exact ih h
      · rename_i hnotListener
        split at h
        · rename_i hmatch
          cases h
          exact ⟨hopen, fun hl => hnotListener ⟨hl, hmatch.1⟩, hmatch⟩
        · exact ih h

/-- A listener found on the way listens on the segment's port. -/
theorem lookup_listener {t : Table} {seg : Segment} {srcIp : U32}
    {is : List ConnIdx} {lstn : Option ConnIdx} {l : ConnIdx} (hlstn : ∀ l', lstn = some l' →
      (t.conns l').state = .listen ∧ (t.conns l').localPort = seg.dstPort)
    (h : (lookup t seg srcIp is lstn).2 = some l) :
    (t.conns l).state = .listen ∧ (t.conns l).localPort = seg.dstPort := by
  induction is generalizing lstn with
  | nil => exact hlstn l h
  | cons j is ih =>
    simp only [lookup] at h
    split at h
    · exact ih hlstn h
    · split at h
      · rename_i hj
        refine ih ?_ h
        intro l' hl'
        cases hl'
        exact hj
      · split at h
        · exact hlstn l h
        · exact ih hlstn h

/-- What a tick can do to a slot: nothing, expire `TIME_WAIT`, give up after
the last retry, or retransmit. -/
inductive TickEffect (id : ConnIdx) (c : TcpConn) : TcpConn × List Output → Prop
  | idle : TickEffect id c (c, [])
  | expire (h : c.state = .timeWait) : TickEffect id c ({ c with state := .closed }, [])
  | abort (h : c.retxBuf.isSome) :
      TickEffect id c ({ retxClear c with state := .closed }, callOnClose c id)
  | retransmit {buf : List U8} (deadline : U32) (h : c.retxBuf = some buf)
      (hlen : c.retxLen ≠ 0) :
      TickEffect id c
        ({ c with
            retxCount := c.retxCount + 1
            retxDeadline := deadline
            retxBuf := some (fillChecksum c (buf.take c.retxLen.toNat)) },
          [tcpSendRaw c (buf.take c.retxLen.toNat)])

theorem tickConn_effect (env : Env) (id : ConnIdx) (c : TcpConn) :
    TickEffect id c (tickConn env id c) := by
  simp only [tickConn]
  split
  · rename_i hstate
    split
    · exact .expire hstate
    · exact .idle
  · split
    · exact .idle
    · rename_i buf hbuf
      split
      · exact .idle
      · rename_i hlen
        split
        · exact .idle
        · split
          · exact .abort (by simp [hbuf])
          · exact .retransmit _ hbuf hlen

/-- A SYN that reaches only a listener and is given slot `i`. -/
def Opens (t : Table) (i : ConnIdx) (seg : Segment) (srcIp : U32) : Prop :=
  (lookup t seg srcIp (finRange tcpMaxConn) none).1 = none ∧
    (lookup t seg srcIp (finRange tcpMaxConn) none).2.isSome = true ∧
    seg.has tcpSyn = true ∧ seg.has tcpAck = false ∧ connAlloc t = some i

instance (t : Table) (i : ConnIdx) (seg : Segment) (srcIp : U32) :
    Decidable (Opens t i seg srcIp) := by
  unfold Opens; infer_instance

/-- A `tcp_send` that gets as far as sending a segment of slot `i`. -/
def Sends (env : Env) (t : Table) (i : ConnIdx) (id : Int) (data : Buffer) : Prop :=
  connIdx id = some i ∧ ((t.conns i).state = .established ∨ (t.conns i).state = .closeWait) ∧
    data.bytes ≠ [] ∧ env.kmalloc (dataSegment (t.conns i) data).length = true

instance (env : Env) (t : Table) (i : ConnIdx) (id : Int) (data : Buffer) :
    Decidable (Sends env t i id data) := by
  unfold Sends; infer_instance

section Send

variable {env : Env} {t : Table} {i : ConnIdx} {id : Int} {data : Buffer}

/-- A segment is sent: `snd_nxt` moves and the segment is kept before `ipv4_send` is
called. -/
theorem tcpSend_of_sends (h : Sends env t i id data) : tcpSend env t id data = (t.set i (retxArm env
        { t.conns i with sndNxt := (t.conns i).sndNxt + ofNat 32 data.bytes.length }
        (dataSegment (t.conns i) data)),
      [tcpSendRaw (t.conns i) (dataSegment (t.conns i) data)],
      env.ipv4Ret (fillChecksum (t.conns i) (dataSegment (t.conns i) data))) := by
  obtain ⟨hid, hstate, hdata, halloc⟩ := h
  have hopen : ¬ ((t.conns i).state ≠ .established ∧ (t.conns i).state ≠ .closeWait) := by tauto
  have hlen : ¬ data.bytes.length = 0 := fun hnil => hdata (length_eq_zero_iff.mp hnil)
  rw [tcpSend, hid]
  dsimp only
  rw [if_neg hopen, if_neg hlen, halloc, if_neg (by decide), tcpSendRaw_retxArm, fillChecksum_retxArm]
  rfl

/-- A call that sends nothing changes nothing; it succeeds only for no data on an open
connection. -/
theorem tcpSend_of_refused (h : ∀ i, ¬ Sends env t i id data) :
    tcpSend env t id data = (t, [], -1) ∨
      tcpSend env t id data = (t, [], 0) ∧ data.bytes = [] ∧ ∃ i, connIdx id = some i ∧
        ((t.conns i).state = .established ∨ (t.conns i).state = .closeWait) := by
  unfold tcpSend
  split
  · exact .inl rfl
  · rename_i i hid
    dsimp only
    split
    · exact .inl rfl
    · rename_i hstate
      split
      · rename_i hdata
        exact .inr ⟨rfl, length_eq_zero_iff.mp hdata, i, hid, by tauto⟩
      · rename_i hdata
        split
        · exact .inl rfl
        · rename_i halloc
          refine absurd ⟨hid, by tauto, ?_, by simpa using halloc⟩ (h i)
          exact fun hnil => hdata (by rw [hnil]; rfl)

/-- No data on an open connection. -/
theorem tcpSend_of_empty (hid : connIdx id = some i)
    (hstate : (t.conns i).state = .established ∨ (t.conns i).state = .closeWait)
    (hdata : data.bytes = []) : tcpSend env t id data = (t, [], 0) := by
  grind [tcpSend]

/-- The only call out of `tcp_send` passes on the segment. -/
theorem mem_tcpSend {o : Output} (h : o ∈ (tcpSend env t id data).2.1) :
    ∃ i, Sends env t i id data ∧ o = tcpSendRaw (t.conns i) (dataSegment (t.conns i) data) := by
  grind [tcpSend_of_sends, tcpSend_of_refused]

end Send

/-- The call does not address slot `i`: a segment that is dropped or belongs
elsewhere, an open of another slot, a send that is refused, a send, close or
read of another connection. -/
def Elsewhere (t : Table) (i : ConnIdx) (e : Event) : Prop :=
  match e.call with
  | .rx payload srcIp _ => ∀ seg, parseSegment payload = some seg →
      (lookup t seg srcIp (finRange tcpMaxConn) none).1 ≠ some i ∧ ¬ Opens t i seg srcIp
  | .connect _ _ _ _ _ => connAlloc t ≠ some i
  | .send id data => ¬ Sends e.env t i id data
  | .close id => connIdx id ≠ some i
  | .read id _ => connIdx id ≠ some i
  | _ => True

/-- Every way in which one call can leave slot `i`.  Each later invariant is
a case analysis over this list and never unfolds a call again. -/
inductive SlotChange (t : Table) (i : ConnIdx) : Event → TcpConn → Prop
  | same {e : Event} (h : Elsewhere t i e) : SlotChange t i e (t.conns i)
  | segment {env : Env} {payload : Buffer} {srcIp dstIp : U32} {seg : Segment}
      (hparse : parseSegment payload = some seg)
      (hlookup : (lookup t seg srcIp (finRange tcpMaxConn) none).1 = some i) :
      SlotChange t i ⟨env, .rx payload srcIp dstIp⟩
        (rxConn env i (t.conns i) seg srcIp dstIp).1
  | passive {env : Env} {payload : Buffer} {srcIp dstIp : U32} {seg : Segment}
      {l : ConnIdx} (hparse : parseSegment payload = some seg)
      (hopens : Opens t i seg srcIp)
      (hlstn : (lookup t seg srcIp (finRange tcpMaxConn) none).2 = some l)
      (hlisten : (t.conns l).state = .listen) :
      SlotChange t i ⟨env, .rx payload srcIp dstIp⟩
        (let nc := synRcvdConn (t.conns i) (t.conns l) (nextIsn t.isnCounter) seg
           srcIp dstIp
         retxArm env nc (connHdr nc (tcpSyn ||| tcpAck) nc.sndUna nc.rcvNxt).bytes)
  | listen {env : Env} {localPort : U16} {onData : Option DataCb}
      {onClose : Option CloseCb} (halloc : connAlloc t = some i) :
      SlotChange t i ⟨env, .listen localPort onData onClose⟩
        (listenConn (t.conns i) env.ourIp localPort onData onClose)
  | connect {env : Env} {remoteIp : U32} {remotePort localPort : U16}
      {onData : Option DataCb} {onClose : Option CloseCb}
      (halloc : connAlloc t = some i) :
      SlotChange t i ⟨env, .connect remoteIp remotePort localPort onData onClose⟩
        (let c := synSentConn (t.conns i) env.ourIp (nextIsn t.isnCounter) remoteIp
           remotePort localPort onData onClose
         retxArm env c (synHdr c).bytes)
  | send {env : Env} {id : Int} {data : Buffer}
      (hsends : Sends env t i id data) :
      SlotChange t i ⟨env, .send id data⟩
        (retxArm env { t.conns i with
            sndNxt := (t.conns i).sndNxt + ofNat 32 data.bytes.length }
          (dataSegment (t.conns i) data))
  | close {env : Env} {id : Int} (hid : connIdx id = some i) :
      SlotChange t i ⟨env, .close id⟩ (closeConn (t.conns i)).1
  | tick {env : Env} : SlotChange t i ⟨env, .tick⟩ (tickConn env i (t.conns i)).1
  | accept {env : Env} {listenPort : U16}
      (hstate : (t.conns i).state = .established)
      (hport : (t.conns i).localPort = listenPort) :
      SlotChange t i ⟨env, .accept listenPort⟩ { t.conns i with onData := none }
  | read {env : Env} {id : Int} {len : U16} (hid : connIdx id = some i) :
      SlotChange t i ⟨env, .read id len⟩
        { t.conns i with
          rx := ((t.conns i).rx.popN (min (t.conns i).rx.avail len.toNat)).2 }

theorem Table.set_conns_cases {P : TcpConn → Prop} (t : Table) (i j : ConnIdx)
    (c : TcpConn) (hother : j ≠ i → P (t.conns j)) (hsame : j = i → P c) :
    P ((t.set i c).conns j) := by
  by_cases h : j = i
  · subst h
    simpa using hsame rfl
  · simpa [h] using hother h

theorem rx_slotChange (env : Env) (t : Table) (payload : Buffer) (srcIp dstIp : U32) (i : ConnIdx) :
    SlotChange t i ⟨env, .rx payload srcIp dstIp⟩
      ((tcpRx env t payload srcIp dstIp).1.conns i) := by
  simp only [tcpRx]
  split
  · rename_i hparse
    exact .same (fun seg hseg => by simp [hparse] at hseg)
  · rename_i seg hparse
    split
    · rename_i j lstn hlookup
      apply Table.set_conns_cases
      · intro hne
        refine .same (fun seg' hseg' => ?_)
        rw [hparse] at hseg'
        cases hseg'
        simp [Opens, hlookup, Ne.symm hne]
      · rintro rfl
        exact .segment hparse (by rw [hlookup])
    · rename_i lstn hlookup
      -- no slot matched, so every slot but the one opened stays as it is
      have hsame : ¬ Opens t i seg srcIp →
          SlotChange t i ⟨env, .rx payload srcIp dstIp⟩ (t.conns i) := by
        intro hno
        refine .same (fun seg' hseg' => ?_)
        rw [hparse] at hseg'
        cases hseg'
        exact ⟨by simp [hlookup], hno⟩
      simp only [rxUnmatched]
      split
      · rename_i l
        have hl := lookup_listener (by nofun) (congrArg Prod.snd hlookup)
        split
        · rename_i hsyn
          simp only [Bool.and_eq_true, Bool.not_eq_true'] at hsyn
          split
          · rename_i hfull
            exact hsame (by simp [Opens, hfull])
          · rename_i id halloc
            refine Table.set_conns_cases _ id i _ ?_ ?_
            · intro hne
              exact hsame (by simp [Opens, halloc, Ne.symm hne])
            · rintro rfl
              exact .passive hparse
                ⟨congrArg Prod.fst hlookup, by simp [hlookup], hsyn.1, hsyn.2, halloc⟩
                (congrArg Prod.snd hlookup) hl.1
        · rename_i hsyn
          have hno : ¬ Opens t i seg srcIp := by
            rintro ⟨-, -, hs, ha, -⟩
            exact hsyn (by simp [hs, ha])
          split <;> exact hsame hno
      · have hno : ¬ Opens t i seg srcIp := by simp [Opens, hlookup]
        split <;> exact hsame hno

/-- **What a call can do.**  Every call changes every slot in one of the listed
ways. -/
theorem step_slotChange (t : Table) (e : Event) (i : ConnIdx) :
    SlotChange t i e ((step t e).conns i) := by
  obtain ⟨env, call⟩ := e
  cases call with
  | rx payload srcIp dstIp => exact rx_slotChange env t payload srcIp dstIp i
  | listen localPort onData onClose =>
    simp only [step, tcpListen]
    split
    · exact .same trivial
    · rename_i id halloc
      refine Table.set_conns_cases t id i _ (fun _ => .same trivial) ?_
      rintro rfl
      exact .listen halloc
  | connect remoteIp remotePort localPort onData onClose =>
    simp only [step, tcpConnect]
    split
    · rename_i hfull
      exact .same (by simp [Elsewhere, hfull])
    · rename_i id halloc
      refine Table.set_conns_cases _ id i _ ?_ ?_
      · intro hne
        exact .same (by simp [Elsewhere, halloc, Ne.symm hne])
      · rintro rfl
        exact .connect halloc
  | send id data =>
    by_cases hsends : ∃ j, Sends env t j id data
    · obtain ⟨j, hj⟩ := hsends
      simp only [step, tcpSend_of_sends hj]
      refine Table.set_conns_cases t j i _ ?_ ?_
      · intro hne
        exact .same (fun hi => hne (Option.some.inj (hi.1.symm.trans hj.1)))
      · rintro rfl
        exact .send hj
    · have hnone : ∀ j, ¬ Sends env t j id data := fun j hj => hsends ⟨j, hj⟩
      have hsame : (tcpSend env t id data).1 = t := by
        rcases tcpSend_of_refused hnone with hret | ⟨hret, -⟩
        · rw [hret]
        · rw [hret]
      simp only [step, hsame]
      exact .same (hnone i)
  | close id =>
    simp only [step, tcpClose]
    split
    · rename_i hid
      exact .same (by simp [Elsewhere, hid])
    · rename_i j hid
      apply Table.set_conns_cases
      · intro hne
        exact .same (by simp [Elsewhere, hid, Ne.symm hne])
      · rintro rfl
        exact .close hid
  | tick => exact .tick
  | accept listenPort =>
    simp only [step, tcpAccept]
    split
    · exact .same trivial
    · rename_i j hfind
      have hj := List.find?_some hfind
      simp only [decide_eq_true_eq] at hj
      refine Table.set_conns_cases t j i _ (fun _ => .same trivial) ?_
      rintro rfl
      exact .accept hj.1 hj.2.1
  | read id len =>
    simp only [step, tcpRead]
    split
    · rename_i hid
      exact .same (by simp [Elsewhere, hid])
    · rename_i j hid
      apply Table.set_conns_cases
      · intro hne
        exact .same (by simp [Elsewhere, hid, Ne.symm hne])
      · rintro rfl
        exact .read hid

end Tcp
