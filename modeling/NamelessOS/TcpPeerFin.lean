import NamelessOS.TcpReceiveStream

/-!
# The peer's FIN

A stream of `N` bytes is followed by one FIN, which consumes sequence number
`s0 + N`.  A receiver should take the FIN once and only after the `N` bytes.
Data processing of `tcp_rx` compares the segment's sequence number with
`rcv_nxt`; FIN processing does not, so a FIN that overtakes data ends the
stream early and a repeated FIN moves `rcv_nxt` again
(`overtaking_fin_cuts_stream`).

`FinInOrder` is the check that is missing, read on the state before the
segment: the connection still accepts data, and the FIN is next in sequence,
either already or as soon as the segment's own data is taken.  In every run
whose FINs pass it, the FIN is honoured as it should be (`fin_honoured`).
-/

namespace Tcp

open List

/-- The segment carries a slice of the stream, and a FIN only where the
stream ends. -/
def CarriesFinSlice (s0 : U32) (S : List U8) (seg : Segment) : Prop :=
  ∃ o, o + seg.data.length ≤ S.length ∧ seg.seq = s0 + BitVec.ofNat 32 o ∧
    seg.data = (S.drop o).take seg.data.length ∧
    (seg.has tcpFin → o + seg.data.length = S.length)

/-- The calls of a run in which the peer sends `S` and then its FIN. -/
def FinStreamCall (s0 : U32) (S : List U8) (e : Event) : Prop :=
  match e.call with
  | .rx payload _ _ => ∀ seg, parseSegment payload = some seg →
      seg.has tcpSyn = false ∧ CarriesFinSlice s0 S seg
  | .listen _ _ _ | .connect _ _ _ _ _ => False
  | _ => True

/-- What the stream's end asks of one call: `rcv_nxt` stays within the stream
and its FIN, and the connection leaves the data states for `CLOSE_WAIT`,
`CLOSING` or `TIME_WAIT` only with all of `S` accepted. -/
def FinHonoured (s0 : U32) (S : List U8) (i : ConnIdx) (o : Observed) (e : Event) : Prop :=
  let before := o.table.conns i
  let after := (observe i o e).table.conns i
  (after.rcvNxt - s0).toNat ≤ S.length + 1 ∧ (receives before.state →
      after.state = .closeWait ∨ after.state = .closing ∨ after.state = .timeWait →
      ((observe i o e).got ++ after.rx.contents).length = S.length)

/-- The FIN of this segment is the next thing the connection expects: its own
sequence number is `rcv_nxt`, or the segment starts at `rcv_nxt` and its data
fits into the ring. -/
def FinInOrder (c : TcpConn) (seg : Segment) : Prop := receives c.state = true ∧
    (c.rcvNxt = seg.seq + BitVec.ofNat 32 seg.data.length ∨
      (seg.seq = c.rcvNxt ∧ seg.data.length ≤ rxFree c))

/-- A FIN segment for slot `i` is a reset, or closes `LAST_ACK`, or is in
order. -/
def FinsInOrder (i : ConnIdx) (o : Observed) (e : Event) : Prop :=
  match e.call with
  | .rx payload srcIp _ => ∀ seg, parseSegment payload = some seg →
      (lookup o.table seg srcIp (List.finRange tcpMaxConn) none).1 = some i →
      seg.has tcpFin →
      seg.has tcpRst ∨
      (seg.has tcpAck ∧ (o.table.conns i).state = .lastAck ∧ seg.ack = (o.table.conns i).sndNxt) ∨
      FinInOrder (o.table.conns i) seg
  | _ => True

variable {s0 : U32} {S got : List U8} {e : Event}

theorem FinStreamCall.stream (h : FinStreamCall s0 S e) : StreamCall s0 S e := by
  obtain ⟨env, call⟩ := e
  cases call with
  | rx payload srcIp dstIp =>
    intro seg hparse
    obtain ⟨hsyn, o, hlen, hseq, hdata, _⟩ := h seg hparse
    exact ⟨hsyn, o, hlen, hseq, hdata⟩
  | listen _ _ _ => exact h
  | connect _ _ _ _ _ => exact h
  | send _ _ => trivial
  | close _ => trivial
  | tick => trivial
  | accept _ => trivial
  | read _ _ => trivial

variable {c : TcpConn} {id i : ConnIdx} {seg : Segment} {srcIp dstIp : U32}

/-- The FIN block runs on a synchronized connection only if the segment is no
reset and does not close `LAST_ACK`. -/
theorem finProcessed_synced {env : Env} (hs : Synced c.state) (h : finProcessed env id c seg srcIp dstIp = true) :
    seg.has tcpFin = true ∧ seg.has tcpRst = false ∧
      ¬(seg.has tcpAck ∧ c.state = .lastAck ∧ seg.ack = c.sndNxt) := by
  obtain ⟨_, hsent, hrcvd⟩ := hs
  by_cases hrst : seg.has tcpRst
  · simp [finProcessed, rxPrologue, hrst] at h
  · simp only [finProcessed, rxPrologue, hrst, hsent, rxSynRcvd, hrcvd, rxAck_eq,
      if_false, Bool.false_eq_true] at h
    by_cases hlast : seg.has tcpAck ∧ c.state = .lastAck ∧ seg.ack = c.sndNxt
    · simp [hlast] at h
    · rw [if_neg hlast] at h
      exact ⟨h, by simpa using hrst, hlast⟩

/-- The receive-side invariant with the end of the stream in view. -/
structure FinReceived (s0 : U32) (S : List U8) (c : TcpConn) (got : List U8)
    (fins : Nat) : Prop extends Received s0 S c got fins where
  once : fins ≤ 1
  all : fins ≠ 0 → (got ++ c.rx.contents).length = S.length
  left : receives c.state = true ∨ c.state = .closed ∨ fins ≠ 0

variable {fins : Nat}

/-- An in-order FIN completes the stream: after its own data nothing is
missing. -/
theorem FinReceived.complete (hS : S.length < 2 ^ 32)
    (h : FinReceived s0 S c got fins) (hslice : CarriesFinSlice s0 S seg)
    (hfin : seg.has tcpFin) (horder : FinInOrder c seg) :
    (got ++ c.rx.contents ++ seg.data.take (acceptLen c seg)).length = S.length := by
  obtain ⟨o, hlen, hseq, hdata, hend⟩ := hslice
  have hall := (h.accept hS ⟨o, hlen, hseq, hdata⟩).length_le
  have hle := h.sofar.length_le
  have hfins : fins = 0 := by
    by_contra hf
    have := h.quiet hf
    rw [horder.1] at this
    exact absurd this (by simp)
  have hcounter := h.counter
  rw [hfins, Nat.add_zero] at hcounter
  rcases horder.2 with hnext | ⟨hstart, hfits⟩
  · -- the stream was already complete: the FIN's number is `rcv_nxt`
    have hdone : S.length = (got ++ c.rx.contents).length := by
      apply slice_offset_eq hS (by omega)
      rw [← hcounter, hnext, hseq, ← hend hfin, BitVec.add_assoc, ← BitVec.ofNat_add]
    rw [length_append] at hall ⊢
    omega
  · -- the segment's data starts at `rcv_nxt` and is taken whole
    have ho : o = (got ++ c.rx.contents).length := by
      apply slice_offset_eq (by omega) (by omega)
      rw [← hseq, hstart, hcounter]
    have haccept : acceptLen c seg = seg.data.length := by
      simp only [acceptLen, horder.1, hstart, and_self, if_true]
      exact Nat.min_eq_left hfits
    have hfull := hend hfin
    rw [haccept, take_length, length_append]
    omega

theorem FinReceived.keeps {c' : TcpConn} (h : FinReceived s0 S c got fins) (hk : KeepsReceive c c') :
    FinReceived s0 S c' got fins where
  toReceived := h.toReceived.keeps hk
  once := h.once
  all := by rw [hk.rx]; exact h.all
  left := by
    rcases hk.door h.synced with hclosed | ⟨hsame, hstays⟩
    · exact .inr (.inl hclosed)
    · rw [hsame]
      rcases h.left with hr | hc | hf
      · exact .inl hr
      · exact .inr (.inl (hstays hc))
      · exact .inr (.inr hf)

theorem FinReceived.read (h : FinReceived s0 S c got fins) {n : Nat} (hn : n ≤ c.rx.avail) :
    FinReceived s0 S { c with rx := (c.rx.popN n).2 } (got ++ (c.rx.popN n).1) fins where
  toReceived := h.toReceived.read hn
  once := h.once
  all := by
    intro hf
    obtain ⟨hfst, hsnd⟩ := c.rx.popN_eq n hn
    rw [hfst, hsnd, append_assoc, take_append_drop]
    exact h.all hf
  left := h.left

/-- A segment whose FIN, if it has one, is in order keeps the invariant. -/
theorem FinReceived.segment {c' : TcpConn} {env : Env}
    (hS : S.length < 2 ^ 32) (h : FinReceived s0 S c got fins) (hslice : CarriesFinSlice s0 S seg)
    (horder : finProcessed env id c seg srcIp dstIp → FinInOrder c seg)
    (heffect : RxEffect env id c seg srcIp dstIp c') : FinReceived s0 S c' got
      (fins + (finProcessed env id c seg srcIp dstIp).toNat) := by
  have hplain : CarriesSlice s0 S seg := by
    obtain ⟨o, hlen, hseq, hdata, _⟩ := hslice
    exact ⟨o, hlen, hseq, hdata⟩
  have hreceived := h.toReceived.segment hS hplain heffect
  cases heffect with
  | early hrx hrcv hstate hfin =>
    rw [hfin]
    exact h.keeps (keepsReceive_of_state hrx hrcv hstate)
  | full hrx hrcv hstate hfin =>
    have hcontents : got ++ c'.rx.contents
        = got ++ c.rx.contents ++ seg.data.take (acceptLen c seg) := by
      rw [hrx, contents_accept, append_assoc]
    by_cases hflag : seg.has tcpFin
    · have hin := horder (hfin.trans hflag)
      have hfins : fins = 0 := by
        by_contra hf
        have := h.quiet hf
        rw [hin.1] at this
        exact absurd this (by simp)
      refine ⟨hreceived, ?_, ?_, ?_⟩
      · rw [hfin, hflag, hfins]
        exact le_rfl
      · intro _
        rw [hcontents]
        exact h.complete hS hslice hflag hin
      · right; right
        rw [hfin, hflag]
        simp
    · have hzero : (finProcessed env id c seg srcIp dstIp).toNat = 0 := by
        simp [hfin, hflag]
      refine ⟨hreceived, ?_, ?_, ?_⟩
      · rw [hzero]
        exact h.once
      · intro hf
        rw [hzero] at hf
        have hdone := h.all hf
        have hle := hreceived.sofar.length_le
        rw [hcontents] at hle ⊢
        rw [length_append] at hle ⊢
        omega
      · rw [hzero, hstate, if_neg hflag, receives_ackNextState]
        rcases h.left with hr | hc | hf
        · exact .inl hr
        · exact .inr (.inl (by simp [ackNextState, hc]))
        · exact .inr (.inr hf)

/-- One call whose FINs are in order keeps the invariant. -/
theorem observe_finReceived {o : Observed} (hS : S.length < 2 ^ 32) (h : FinReceived s0 S (o.table.conns i) o.got o.fins)
    (he : FinStreamCall s0 S e) (horder : FinsInOrder i o e) :
    FinReceived s0 S ((observe i o e).table.conns i) (observe i o e).got
      (observe i o e).fins := by
  have hobs := observe_observation i o he.stream
  generalize observe i o e = o' at hobs
  cases hobs with
  | keeps hk hgot hfins =>
    rw [hgot, hfins]
    exact h.keeps hk
  | read hn hconn hgot hfins =>
    rw [hconn, hgot, hfins]
    exact h.read hn
  | @segment payload srcIp dstIp seg hcall hparse hlookup hconn hgot hfins =>
    have hslice : CarriesFinSlice s0 S seg := by
      rw [FinStreamCall, hcall] at he
      exact (he seg hparse).2
    have hin : finProcessed e.env i (o.table.conns i) seg srcIp dstIp →
        FinInOrder (o.table.conns i) seg := by
      intro hproc
      obtain ⟨hflag, hrst, hlast⟩ := finProcessed_synced h.synced hproc
      rw [FinsInOrder, hcall] at horder
      rcases horder seg hparse hlookup hflag with hr | hl | hok
      · exact absurd hr (by simp [hrst])
      · exact absurd hl hlast
      · exact hok
    rw [hconn, hgot, hfins]
    exact h.segment hS hslice hin (rxConn_effect e.env i seg srcIp dstIp h.synced)

/-- The invariant after a call says that the stream's end is honoured. -/
theorem FinReceived.honoured {o : Observed} (h : FinReceived s0 S ((observe i o e).table.conns i) (observe i o e).got
      (observe i o e).fins) : FinHonoured s0 S i o e := by
  have hle := h.sofar.length_le
  refine ⟨?_, ?_⟩
  · have hfins := h.once
    rw [h.counter, BitVec.add_comm s0, BitVec.add_sub_cancel, BitVec.toNat_ofNat]
    exact Nat.le_trans (Nat.mod_le _ _) (by omega)
  · intro _ hstate
    rcases h.left with hr | hc | hf
    · rcases hstate with hs | hs | hs <;> simp [hs, receives] at hr
    · rcases hstate with hs | hs | hs <;> simp [hs] at hc
    · exact h.all hf

/-- **The peer's FIN is honoured once and in order**, in every run in which
the FINs that reach the connection are next in sequence: at every step
`rcv_nxt` stays within `s0 + N + 1` and the connection leaves the data states
only with the whole stream accepted. -/
theorem fin_honoured (t : Table) (i : ConnIdx) (s0 : U32) (S : List U8) (hS : S.length < 2 ^ 32)
    (hest : (t.conns i).state = .established) (hrcv : (t.conns i).rcvNxt = s0)
    (hempty : (t.conns i).rx.head = (t.conns i).rx.tail)
    (es : List Event) (hes : ∀ e ∈ es, FinStreamCall s0 S e)
    (horder : Runs.StepsMeet (observe i) (FinsInOrder i) ⟨t, [], 0⟩ es) :
    Runs.StepsMeet (observe i) (FinHonoured s0 S i) ⟨t, [], 0⟩ es := by
  have hnil : (t.conns i).rx.contents = [] := (RingBuffer.contents_eq_nil_iff _).mpr hempty
  have hstart : FinReceived s0 S (t.conns i) [] 0 :=
    ⟨⟨by simp [hest, Synced], by simp [hnil], by simp [hnil, hrcv], by simp⟩,
      by simp, by simp, by simp [hest, receives]⟩
  have hcalls : Runs.StepsMeet (observe i) (fun _ e => FinStreamCall s0 S e)
      ⟨t, [], 0⟩ es := Runs.stepsMeet_of_forall hes _
  exact Runs.stepsMeet_of_invariant
    (fun o : Observed => FinReceived s0 S (o.table.conns i) o.got o.fins)
    (fun _ _ h hok => observe_finReceived hS h hok.1 hok.2)
    (fun _ _ h hok => (observe_finReceived hS h hok.1 hok.2).honoured)
    hstart (hcalls.and horder)

/-- The one byte of a stream and then its FIN, in order. -/
def orderedFin : List Event :=
  [⟨quietEnv, .rx ⟨(sampleHdr tcpAck 100).bytes ++ [65], by decide⟩ 7 9⟩,
   ⟨quietEnv, .rx ⟨(sampleHdr (tcpFin ||| tcpAck) 101).bytes ++ [], by decide⟩ 7 9⟩]

/-- The same FIN on its own, ahead of the byte. -/
def overtakingFin : Event :=
  ⟨quietEnv, .rx ⟨(sampleHdr (tcpFin ||| tcpAck) 101).bytes ++ [], by decide⟩ 7 9⟩

theorem finStreamCall_overtakingFin : FinStreamCall 100 [65] overtakingFin := by
  intro seg hseg
  cases hseg
  exact ⟨by decide, 1, by decide, by decide, by decide, by decide⟩

theorem fin_honoured_orderedFin : Runs.StepsMeet (observe 0) (FinHonoured 100 [65] 0)
      ⟨initTable.set 0 (sampleConn 100), [], 0⟩ orderedFin := by
  refine fin_honoured _ 0 100 [65] (by decide) rfl rfl rfl orderedFin ?_ ?_
  · intro e he
    simp only [orderedFin, mem_cons, not_mem_nil, or_false] at he
    rcases he with rfl | rfl
    · intro seg hseg
      cases hseg
      exact ⟨by decide, 0, by decide, by decide, by decide, by decide⟩
    · exact finStreamCall_overtakingFin
  · refine ⟨?_, ?_, trivial⟩
    · intro seg hseg _ hfin
      cases hseg
      exact absurd hfin (by decide)
    · intro seg hseg _ _
      cases hseg
      exact .inr (.inr ⟨by decide, .inl (by decide)⟩)

/-- A FIN that overtakes the only byte of the stream is honoured at once: the
connection goes to `CLOSE_WAIT` with nothing accepted. -/
theorem overtaking_fin_cuts_stream : FinStreamCall 100 [65] overtakingFin ∧
      ¬ Runs.StepsMeet (observe 0) (FinHonoured 100 [65] 0)
        ⟨initTable.set 0 (sampleConn 100), [], 0⟩ [overtakingFin] := by
  refine ⟨finStreamCall_overtakingFin, ?_⟩
  intro h
  have hall := h.1.2 (by decide) (.inl (by decide))
  exact absurd hall (by decide)

end Tcp
