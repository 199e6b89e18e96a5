import NamelessOS.TcpRetransmit

/-!
# The send sequence space and the retransmit buffer

As long as no slot has half the sequence space outstanding, an acknowledgement that passes
the two sign tests of `tcp_rx` lies between `snd_una` and `snd_nxt`, and one that equals
`snd_nxt` is always taken.  So `snd_una` moves forward inside the window, and a FIN that is
acknowledged has emptied the retransmit slot on the way to `FIN_WAIT_2` and `TIME_WAIT`,
where nothing else would.
-/

namespace Tcp

open SerialNumber Runs

/-- What is outstanding is less than half the sequence space. -/
def SpanOk (c : TcpConn) : Prop := ahead c.sndUna c.sndNxt < 2 ^ 31

instance (c : TcpConn) : Decidable (SpanOk c) := inferInstanceAs (Decidable (_ < _))

/-- The states in which nothing is to be retransmitted. -/
def Quiet (s : TcpState) : Prop := s = .closed ∨ s = .listen ∨ s = .finWait2 ∨ s = .timeWait

instance (s : TcpState) : Decidable (Quiet s) := inferInstanceAs (Decidable (_ ∨ _))

/-- The retransmit buffer is owned by a connection that may use it. -/
def RetxOwned (c : TcpConn) : Prop := Quiet c.state → c.retxBuf = none

/-- `snd_una` moves forward, in the order of `seq_leq`, and not past `snd_nxt`. -/
structure SndForward (c d : TcpConn) : Prop where
  forward : seqLeq c.sndUna d.sndUna = true
  behind : seqLeq d.sndUna d.sndNxt = true
  inWindow : ahead c.sndUna d.sndUna ≤ ahead c.sndUna c.sndNxt

theorem seqLeq_iff (a b : U32) : seqLeq a b = true ↔ 2 * ahead a b ≤ 2 ^ 32 := by
  rw [seqLeq, decide_eq_true_eq, toInt_sub_nonpos_iff]

/-! ## One segment -/

/-- What a segment does to the send side of its connection. -/
structure AckEffect (c : TcpConn) (seg : Segment) (d : TcpConn) : Prop where
  nxt : d.sndNxt = c.sndNxt
  una : d.sndUna = c.sndUna ∨
    (d.sndUna = seg.ack ∧ seqLeq c.sndUna seg.ack = true ∧ seqLeq seg.ack c.sndNxt = true)
  owned : RetxOwned c → RetxOwned d

section Segment

variable {c d f : TcpConn} {seg : Segment}

/-- The send side is as before, and the state is not a quiet one unless it was. -/
theorem AckEffect.of_same (hnxt : d.sndNxt = c.sndNxt) (huna : d.sndUna = c.sndUna)
    (hbuf : d.retxBuf = c.retxBuf) (hstate : Quiet d.state → Quiet c.state) : AckEffect c seg d where
  nxt := hnxt
  una := .inl huna
  owned howned hquiet := hbuf.trans (howned (hstate hquiet))

theorem AckEffect.refl (c : TcpConn) (seg : Segment) : AckEffect c seg c := .of_same rfl rfl rfl id

theorem AckEffect.of_cleared (hnxt : d.sndNxt = c.sndNxt) (huna : d.sndUna = c.sndUna)
    (hbuf : d.retxBuf = none) : AckEffect c seg d := ⟨hnxt, .inl huna, fun _ _ => hbuf⟩

theorem AckEffect.trans (h : AckEffect c seg d) (h' : AckEffect d seg f) : AckEffect c seg f where
  nxt := h'.nxt.trans h.nxt
  una := by
    rcases h'.una with hsame | ⟨hack, hlow, hhigh⟩
    · rw [hsame]
      exact h.una
    · rcases h.una with hsame | ⟨-, hlow', hhigh'⟩
      · rw [hsame] at hlow
        rw [h.nxt] at hhigh
        exact .inr ⟨hack, hlow, hhigh⟩
      · exact .inr ⟨hack, hlow', hhigh'⟩
  owned howned := h'.owned (h.owned howned)

theorem seqLeq_sndNxt (hspan : SpanOk c) : seqLeq c.sndUna c.sndNxt = true := by
  unfold SpanOk at hspan
  rw [seqLeq_iff]
  omega

theorem seqLeq_self (a : U32) : seqLeq a a = true := by
  rw [seqLeq_iff, ahead_self]
  decide

/-- `snd_una` is moved to `snd_nxt` and the retransmit slot emptied. -/
theorem AckEffect.of_done (hspan : SpanOk c) (hack : seg.ack = c.sndNxt) (hnxt : d.sndNxt = c.sndNxt)
    (huna : d.sndUna = seg.ack) (hbuf : d.retxBuf = none) : AckEffect c seg d where
  nxt := hnxt
  una := by
    refine .inr ⟨huna, ?_, ?_⟩
    · rw [hack]
      exact seqLeq_sndNxt hspan
    · rw [hack]
      exact seqLeq_self _
  owned _ _ := hbuf

theorem ackAdvance_ackEffect (c : TcpConn) (seg : Segment) : AckEffect c seg (ackAdvance c seg) := by
  unfold ackAdvance
  by_cases hcond : (acksData c.state && seqLeq c.sndUna seg.ack && seqLeq seg.ack c.sndNxt) = true
  · rw [if_pos hcond]
    rw [Bool.and_eq_true, Bool.and_eq_true] at hcond
    dsimp only
    split
    · exact ⟨rfl, .inr ⟨rfl, hcond.1.2, hcond.2⟩, fun _ _ => rfl⟩
    · exact ⟨rfl, .inr ⟨rfl, hcond.1.2, hcond.2⟩, id⟩
  · rw [if_neg hcond]
    exact .refl c seg

theorem ackAdvance_done (hspan : SpanOk c) (hacks : acksData c.state = true)
    (hack : seg.ack = c.sndNxt) :
    (ackAdvance c seg).retxBuf = none := by
  have hcond : (acksData c.state && seqLeq c.sndUna seg.ack && seqLeq seg.ack c.sndNxt) = true := by
    rw [hacks, hack, seqLeq_sndNxt hspan, seqLeq_self]
    rfl
  unfold ackAdvance
  rw [if_pos hcond]
  dsimp only
  rw [hack, seqLeq_self, Bool.and_true]
  split
  · rfl
  · rename_i hnone
    exact Option.not_isSome_iff_eq_none.mp hnone

theorem ackAdvance_state (c : TcpConn) (seg : Segment) : (ackAdvance c seg).state = c.state := by
  obtain ⟨_, _, _, _, _, h⟩ := ackAdvance_eq c seg
  rw [h]

/-- **ACK processing.**  The two transitions into a quiet state happen on the
acknowledgement of everything. -/
theorem ackUpdate_ackEffect (env : Env) (hspan : SpanOk c) : AckEffect c seg (ackUpdate env c seg) := by
  have hadvance := ackAdvance_ackEffect c seg
  have hstate := ackAdvance_state c seg
  have hdone : acksData c.state = true → seg.ack = c.sndNxt → (ackAdvance c seg).retxBuf = none :=
    ackAdvance_done hspan
  unfold ackUpdate
  split
  · generalize ackAdvance c seg = d at hadvance hstate hdone
    unfold ackFinWait1
    by_cases hfin : d.state = .finWait1 ∧ seg.ack = d.sndNxt
    · rw [if_pos hfin]
      have hnone : d.retxBuf = none := by
        refine hdone ?_ (hfin.2.trans hadvance.nxt)
        rw [← hstate, hfin.1]
        rfl
      unfold ackClosing
      rw [if_neg (fun h => by cases h.1)]
      exact hadvance.trans (.of_cleared rfl rfl hnone)
    · rw [if_neg hfin]
      unfold ackClosing
      by_cases hclosing : d.state = .closing ∧ seg.ack = d.sndNxt
      · rw [if_pos hclosing]
        have hnone : d.retxBuf = none := by
          refine hdone ?_ (hclosing.2.trans hadvance.nxt)
          rw [← hstate, hclosing.1]
          rfl
        exact hadvance.trans (.of_cleared rfl rfl hnone)
      · rw [if_neg hclosing]
        exact hadvance
  · exact .refl c seg

theorem rxAck_ackEffect (env : Env) (id : ConnIdx) (hspan : SpanOk c) :
    AckEffect c seg (rxAck env id c seg).conn := by
  rw [rxAck_eq]
  split
  · exact .of_cleared rfl rfl rfl
  · exact ackUpdate_ackEffect env hspan

theorem rxRst_ackEffect (id : ConnIdx) (c : TcpConn) (seg : Segment) :
    AckEffect c seg (rxRst id c seg).1 := by
  unfold rxRst
  split
  · exact .of_cleared rfl rfl rfl
  · exact .refl c seg

theorem rxSynSent_ackEffect (srcIp dstIp : U32) (hspan : SpanOk c) :
    AckEffect c seg (rxSynSent c seg srcIp dstIp).1 := by
  unfold rxSynSent
  split
  · exact .refl c seg
  · split
    · exact .refl c seg
    · rename_i hack
      split
      · exact .refl c seg
      · exact .of_done hspan (not_not.mp hack) rfl rfl rfl

theorem rxSynRcvd_ackEffect (seg : Segment) (hspan : SpanOk c) :
    AckEffect c seg (rxSynRcvd c seg).conn ∧ SpanOk (rxSynRcvd c seg).conn := by
  unfold rxSynRcvd
  split
  · split
    · exact ⟨.refl c seg, hspan⟩
    · split
      · rename_i hack
        refine ⟨.of_done hspan hack rfl rfl rfl, ?_⟩
        show ahead seg.ack c.sndNxt < 2 ^ 31
        rw [hack, ahead_self]
        decide
      · exact ⟨.refl c seg, hspan⟩
  · exact ⟨.refl c seg, hspan⟩

theorem rxPrologue_ackEffect (env : Env) (id : ConnIdx) (seg : Segment) (srcIp dstIp : U32)
    (hspan : SpanOk c) :
    AckEffect c seg (rxPrologue env id c seg srcIp dstIp).conn := by
  unfold rxPrologue
  split
  · exact rxRst_ackEffect id c seg
  · split
    · exact rxSynSent_ackEffect srcIp dstIp hspan
    · have hsyn := rxSynRcvd_ackEffect seg hspan
      generalize rxSynRcvd c seg = r at hsyn ⊢
      cases r with
      | ret d out => exact hsyn.1
      | next d => exact hsyn.1.trans (rxAck_ackEffect env id hsyn.2)

theorem quiet_of_finNextState {s : TcpState} (h : Quiet (finNextState s)) : Quiet s := by
  revert h
  cases s <;> decide

theorem dataFin_ackEffect (env : Env) (id : ConnIdx) (c : TcpConn) (seg : Segment) :
    AckEffect c seg (rxFin env id (rxData id c seg).1 seg).1 := by
  obtain ⟨deadline, hfin⟩ := rxFin_fst env id (rxData id c seg).1 seg
  rw [hfin, rxData_fst]
  split
  · exact .of_same rfl rfl rfl quiet_of_finNextState
  · exact .of_same rfl rfl rfl (fun h => h)

/-- **A segment for the connection.** -/
theorem rxConn_ackEffect (env : Env) (id : ConnIdx) (seg : Segment) (srcIp dstIp : U32)
    (hspan : SpanOk c) :
    AckEffect c seg (rxConn env id c seg srcIp dstIp).1 := by
  have hpro := rxPrologue_ackEffect env id seg srcIp dstIp hspan
  unfold rxConn
  generalize rxPrologue env id c seg srcIp dstIp = r at hpro ⊢
  cases r with
  | ret d out => exact hpro
  | next d => exact hpro.trans (dataFin_ackEffect env id d seg)

/-- An acknowledgement inside the sign tests is inside the window, if what is then
outstanding is below half the space again. -/
theorem AckEffect.sndForward (h : AckEffect c seg d) (hspan : SpanOk c) (hspan' : SpanOk d) :
    SndForward c d := by
  have hbehind := seqLeq_sndNxt hspan'
  unfold SpanOk at hspan hspan'
  rcases h.una with hsame | ⟨hack, hlow, -⟩
  · refine ⟨?_, hbehind, ?_⟩
    · rw [hsame]
      exact seqLeq_self _
    · rw [hsame, ahead_self]
      exact Nat.zero_le _
  · rw [seqLeq_iff, ← hack] at hlow
    rw [h.nxt] at hspan'
    have hsplit : ahead c.sndUna d.sndUna ≤ ahead c.sndUna c.sndNxt := by
      rcases ahead_trans c.sndUna d.sndUna c.sndNxt with hsum | hsum
      · omega
      · omega
    refine ⟨?_, hbehind, hsplit⟩
    rw [seqLeq_iff]
    omega

end Segment

/-! ## One call -/

section Step

variable {c d : TcpConn}

theorem SndForward.of_una (huna : d.sndUna = c.sndUna) (hspan : SpanOk d) : SndForward c d := by
  refine ⟨?_, seqLeq_sndNxt hspan, ?_⟩
  · rw [huna]
    exact seqLeq_self _
  · rw [huna, ahead_self]
    exact Nat.zero_le _

theorem RetxOwned.of_not_quiet (h : ¬ Quiet d.state) : RetxOwned d := fun hquiet => absurd hquiet h

theorem RetxOwned.of_none (h : d.retxBuf = none) : RetxOwned d := fun _ => h

theorem closeConn_sndUna (c : TcpConn) : (closeConn c).1.sndUna = c.sndUna := by
  unfold closeConn
  split <;> rfl

theorem closeConn_retxOwned (h : RetxOwned c) : RetxOwned (closeConn c).1 := by
  unfold closeConn
  split
  · exact .of_not_quiet (show ¬ Quiet .finWait1 by decide)
  · exact .of_not_quiet (show ¬ Quiet .finWait1 by decide)
  · exact .of_not_quiet (show ¬ Quiet .lastAck by decide)
  · exact .of_none rfl
  · exact .of_none rfl
  · exact h

theorem tickConn_sndUna (env : Env) (i : ConnIdx) (c : TcpConn) :
    (tickConn env i c).1.sndUna = c.sndUna := by
  have heffect := tickConn_effect env i c
  generalize tickConn env i c = r at heffect ⊢
  cases heffect <;> rfl

/-- `TIME_WAIT` expires with the slot already empty. -/
theorem tickConn_retxOwned (env : Env) (i : ConnIdx) (h : RetxOwned c) :
    RetxOwned (tickConn env i c).1 := by
  have heffect := tickConn_effect env i c
  generalize tickConn env i c = r at heffect ⊢
  cases heffect with
  | idle => exact h
  | expire hstate => exact .of_none (h (.inr (.inr (.inr hstate))))
  | abort _ => exact .of_none rfl
  | retransmit deadline hbuf hlen =>
    refine .of_not_quiet (fun hquiet => ?_)
    have hnone := h hquiet
    rw [hbuf] at hnone
    cases hnone

/-- **What a call does to the send side of a slot.** -/
theorem sendSide_step {t : Table} (e : Event) {i : ConnIdx} (hspan : SpanOk (t.conns i))
    (howned : RetxOwned (t.conns i)) :
    RetxOwned ((step t e).conns i) ∧ ((t.conns i).state ≠ .closed → SpanOk ((step t e).conns i) →
      SndForward (t.conns i) ((step t e).conns i)) := by
  have hchange := step_slotChange t e i
  generalize (step t e).conns i = c at hchange ⊢
  cases hchange with
  | same _ => exact ⟨howned, fun _ => SndForward.of_una rfl⟩
  | @segment env _ srcIp dstIp seg _ _ =>
    grind [rxConn_ackEffect, AckEffect.owned, AckEffect.sndForward]
  | passive _ hopens _ _ =>
    refine ⟨.of_not_quiet ?_, fun hopen => absurd (connAlloc_closed hopens.2.2.2.2) hopen⟩
    rw [retxArm_state]
    show ¬ Quiet .synRcvd
    decide
  | listen halloc => exact ⟨.of_none rfl, fun hopen => absurd (connAlloc_closed halloc) hopen⟩
  | connect halloc =>
    refine ⟨.of_not_quiet ?_, fun hopen => absurd (connAlloc_closed halloc) hopen⟩
    rw [retxArm_state]
    show ¬ Quiet .synSent
    decide
  | send hsends =>
    refine ⟨.of_not_quiet ?_, fun _ => SndForward.of_una (retxArm_sndUna ..)⟩
    rw [retxArm_state]
    rcases hsends.2.1 with hstate | hstate
    · rw [hstate]
      decide
    · rw [hstate]
      decide
  | close _ => exact ⟨closeConn_retxOwned howned, fun _ => SndForward.of_una (closeConn_sndUna _)⟩
  | tick => exact ⟨tickConn_retxOwned _ i howned, fun _ => SndForward.of_una (tickConn_sndUna _ i _)⟩
  | accept _ _ => exact ⟨howned, fun _ => SndForward.of_una rfl⟩
  | read _ => exact ⟨howned, fun _ => SndForward.of_una rfl⟩

end Step

/-! ## Runs -/

/-- No slot has half the sequence space outstanding after the call. -/
def SpansOk (t : Table) (e : Event) : Prop := ∀ i, SpanOk ((step t e).conns i)

/-- The call moves `snd_una` forward, on every slot that has a connection. -/
def AllForward (t : Table) (e : Event) : Prop :=
  ∀ i, (t.conns i).state ≠ .closed → SndForward (t.conns i) ((step t e).conns i)

/-- What every reached state satisfies. -/
def SendOk (t : Table) : Prop := ∀ i, SpanOk (t.conns i) ∧ RetxOwned (t.conns i)

theorem sendOk_init : SendOk initTable := by
  intro i
  exact ⟨show SpanOk bssConn by decide, .of_none rfl⟩

theorem SendOk.step {t : Table} {e : Event} (h : SendOk t) (hspans : SpansOk t e) : SendOk (step t e) :=
  fun i => ⟨hspans i, (sendSide_step e (h i).1 (h i).2).1⟩

theorem tickConn_silent (env : Env) (i : ConnIdx) {c : TcpConn} (h : c.retxBuf = none) :
    (tickConn env i c).2 = [] := by
  unfold tickConn
  dsimp only
  split
  · split <;> rfl
  · rw [h]

/-- **Send-sequence discipline and buffer ownership.**  In every run in which the windows
stay below half the sequence space, every call moves `snd_una` forward inside the window,
every quiet slot is without a retransmit buffer, so that a slot that is given out again
leaks none, and a tick sends nothing for a closed slot. -/
theorem send_sequence_discipline (es : List Event) (hspans : StepsMeet step SpansOk initTable es) :
    StepsMeet step AllForward initTable es ∧ (∀ i, RetxOwned ((run step initTable es).conns i)) ∧
      (∀ i, connAlloc (run step initTable es) = some i →
        ((run step initTable es).conns i).retxBuf = none) ∧
      ∀ env i, ((run step initTable es).conns i).state = .closed →
        (tickConn env i ((run step initTable es).conns i)).2 = [] := by
  have hend : SendOk (run step initTable es) :=
    run_invariant SendOk (fun _ _ h hspans => h.step hspans) sendOk_init hspans
  have hclosed : ∀ i, ((run step initTable es).conns i).state = .closed →
      ((run step initTable es).conns i).retxBuf = none := fun i hi => (hend i).2 (.inl hi)
  refine ⟨?_, fun i => (hend i).2, fun i hi => hclosed i (connAlloc_closed hi),
    fun env i hi => tickConn_silent env i (hclosed i hi)⟩
  refine stepsMeet_of_invariant SendOk (fun _ _ h hspans => h.step hspans) ?_ sendOk_init hspans
  intro t e h hspans i hopen
  exact (sendSide_step e (h i).1 (h i).2).2 hopen (hspans i)

instance (t : Table) (e : Event) : Decidable (SpansOk t e) := inferInstanceAs (Decidable (∀ _, _))

theorem send_sequence_discipline_closing :
    StepsMeet step SpansOk initTable (backToBackSends ++ [⟨quietEnv, .close 0⟩]) ∧
      StepsMeet step AllForward initTable (backToBackSends ++ [⟨quietEnv, .close 0⟩]) := by
  have hspans : StepsMeet step SpansOk initTable (backToBackSends ++ [⟨quietEnv, .close 0⟩]) := by
    decide +kernel
  exact ⟨hspans, (send_sequence_discipline _ hspans).1⟩

end Tcp
