import NamelessOS.Arp
import NamelessOS.Runs

/-!
# The ARP cache as a partial map

What `arp_lookup` may answer, over every sequence of `arp_insert` calls and
received packets.  For an address other than 0 the cache is sound: a hit is the
last mapping taught.  Address 0 is the mark of an empty slot in the same field
that is searched, so for it the answer depends on which slots are empty, and the
module says exactly when it is right.
-/

namespace Arp

open Ethernet Checked ByteOrder Runs List Option

/-! ## What a packet teaches -/

/-- The fields of a packet. -/
def arpPktAt (p : Ptr U8) : Except Fault ArpPkt := do
  let htype ← p.load16 0
  let ptype ← p.load16 2
  let hlen ← p.read 4
  let plen ← p.read 5
  let oper ← p.load16 6
  let sha ← readMac p 8
  let spa ← p.load32 14
  let tha ← readMac p 18
  let tpa ← p.load32 24
  .ok { htype, ptype, hlen, plen, oper, sha, spa, tha, tpa }

/-- The mapping in an Ethernet and IPv4 packet with a sender. -/
def ArpPkt.mapping (k : ArpPkt) : Option (U32 × Mac) :=
  if ntohs k.htype = arpHtypeEthernet ∧ ntohs k.ptype = arpPtypeIpv4 ∧ k.hlen = 6 ∧ k.plen = 4 ∧
      ntohl k.spa ≠ 0 then
    some (ntohl k.spa, k.sha)
  else none

/-- The mapping that a received packet of `len` bytes teaches. -/
def packetMapping (p : Ptr U8) (len : U16) : Option (U32 × Mac) :=
  if len.toNat < arpPktLen then none
  else
    match arpPktAt p with
    | .ok k => k.mapping
    | .error _ => none

/-- The cache after a mapping was taught. -/
def Cache.learn (a : Cache) (m : U32 × Mac) : Cache := arpInsert a m.1 m.2

/-- **`arp_rx` learns what the packet teaches, and nothing else.** -/
theorem returns_arpRx_cache (env : Env) (ourMac : Mac) (a : Cache) {p : Ptr U8} {len : U16}
    (h : p.Has len.toNat) : Returns (arpRx env ourMac a p len)
      (fun r => r.1 = (packetMapping p len).elim a a.learn) := by
  unfold arpRx packetMapping
  by_cases hlen : len.toNat < arpPktLen
  · rw [if_pos hlen, if_pos hlen]
    exact .ok rfl
  · rw [if_neg hlen, if_neg hlen]
    have h28 : p.Has 28 := h.mono (Nat.le_of_not_lt hlen)
    obtain ⟨htype, hhtype, -⟩ := h28.returns_load16 (i := 0) (by decide)
    obtain ⟨ptype, hptype, -⟩ := h28.returns_load16 (i := 2) (by decide)
    obtain ⟨hl, hhl, -⟩ := h28.returns_read (i := 4) (by decide)
    obtain ⟨pl, hpl, -⟩ := h28.returns_read (i := 5) (by decide)
    obtain ⟨oper, hoper, -⟩ := h28.returns_load16 (i := 6) (by decide)
    obtain ⟨sha, hsha, -⟩ := returns_readMac (i := 8) h28 (by decide)
    obtain ⟨spa, hspa, -⟩ := h28.returns_load32 (i := 14) (by decide)
    obtain ⟨tha, htha, -⟩ := returns_readMac (i := 18) h28 (by decide)
    obtain ⟨tpa, htpa, -⟩ := h28.returns_load32 (i := 24) (by decide)
    let k : ArpPkt := { htype := htype, ptype := ptype, hlen := hl, plen := pl, oper := oper,
                        sha := sha, spa := spa, tha := tha, tpa := tpa }
    have hpkt : arpPktAt p = .ok k := by
      unfold arpPktAt
      rw [hhtype, hptype, hhl, hpl, hoper, hsha, hspa, htha, htpa]
      rfl
    have hnone : ¬ (ntohs htype = arpHtypeEthernet ∧ ntohs ptype = arpPtypeIpv4 ∧ hl = 6 ∧ pl = 4 ∧
        ntohl spa ≠ 0) → k.mapping = none := fun hc => if_neg hc
    rw [hpkt, hhtype, hptype, hhl, hpl, hoper, hsha, hspa, htpa]
    dsimp only [bind, Except.bind]
    apply Returns.ite
    · intro h1
      rw [hnone (fun hc => h1 hc.1)]
      exact .ok rfl
    · intro h1
      apply Returns.ite
      · intro h2
        rw [hnone (fun hc => h2 hc.2.1)]
        exact .ok rfl
      · intro h2
        apply Returns.ite
        · intro h3
          rw [hnone (fun hc => h3.elim (· hc.2.2.1) (· hc.2.2.2.1))]
          exact .ok rfl
        · intro h3
          rw [not_not] at h1 h2
          rw [not_or, not_not, not_not] at h3
          -- what is learned does not depend on the reply
          have hcache : (if ntohl spa ≠ 0 then arpInsert a (ntohl spa) sha else a) =
              k.mapping.elim a a.learn := by
            by_cases h4 : ntohl spa = 0
            · rw [hnone (fun hc => hc.2.2.2.2 h4), if_neg (not_not_intro h4)]
              rfl
            · rw [show k.mapping = some (ntohl spa, sha) from if_pos ⟨h1, h2, h3.1, h3.2, h4⟩,
                if_pos h4]
              rfl
          rw [hcache]
          exact .ite (fun _ => .ite (fun _ => .ok rfl) (fun _ => .ok rfl)) (fun _ => .ok rfl)

/-! ## Events -/

inductive Event
  | insert (ip : U32) (mac : Mac)
  | packet (p : Ptr U8) (len : U16)
  /-- `arp_set_ip`, which may come at any time -/
  | setIp (ip : U32)

/-- A packet is as long as its length says. -/
def Event.Readable : Event → Prop
  | .insert _ _ => True
  | .packet p len => p.Has len.toNat
  | .setIp _ => True

/-- The mapping that an event teaches. -/
def Event.taught : Event → Option (U32 × Mac)
  | .insert ip mac => some (ip, mac)
  | .packet p len => packetMapping p len
  | .setIp _ => none

/-- One event. -/
def Cache.step (env : Env) (ourMac : Mac) (a : Cache) : Event → Cache
  | .insert ip mac => arpInsert a ip mac
  | .packet p len =>
    match arpRx env ourMac a p len with
    | .ok r => r.1
    | .error _ => a
  | .setIp ip => { a with ourIp := ip }

/-- The cache after `arp_init_impl`. -/
def init : Cache where
  table := fun _ => { ip := 0, mac := zeroMac }
  ourIp := 0

theorem Cache.step_eq (env : Env) (ourMac : Mac) (a : Cache) {e : Event} (he : e.Readable) :
    ∃ ourIp, a.step env ourMac e = { e.taught.elim a a.learn with ourIp := ourIp } := by
  cases e with
  | insert ip mac => exact ⟨a.ourIp, rfl⟩
  | packet p len =>
    obtain ⟨r, hr, hcache⟩ := returns_arpRx_cache env ourMac a he
    refine ⟨r.1.ourIp, ?_⟩
    rw [Cache.step, hr]
    dsimp only
    rw [hcache]
    rfl
  | setIp ip => exact ⟨ip, rfl⟩

theorem run_learn_ourIp (b : Cache) (ourIp : U32) (ms : List (U32 × Mac)) :
    run Cache.learn { b with ourIp := ourIp } ms = { run Cache.learn b ms with ourIp := ourIp } := by
  induction ms generalizing b with
  | nil => rfl
  | cons m ms ih => exact ih (b.learn m)

theorem run_step_eq (env : Env) (ourMac : Mac) (a : Cache) {events : List Event}
    (hread : ∀ e ∈ events, e.Readable) : ∃ ourIp, run (Cache.step env ourMac) a events =
      { run Cache.learn a (events.filterMap Event.taught) with ourIp := ourIp } := by
  induction events generalizing a with
  | nil => exact ⟨a.ourIp, rfl⟩
  | cons e es ih =>
    obtain ⟨x, hx⟩ := a.step_eq env ourMac (hread e mem_cons_self)
    obtain ⟨y, hy⟩ := ih (a.step env ourMac e) (fun e' he' => hread e' (mem_cons_of_mem _ he'))
    grind [run_cons, run_learn_ourIp]

/-- The MAC of the last mapping taught for an address. -/
def lastTaught (taught : List (U32 × Mac)) (ip : U32) : Option Mac :=
  (taught.reverse.find? (fun m => m.1 = ip)).map Prod.snd

theorem lastTaught_append_self (taught : List (U32 × Mac)) (ip : U32) (mac : Mac) :
    lastTaught (taught ++ [(ip, mac)]) ip = some mac := by
  simp [lastTaught]

theorem lastTaught_append_ne (taught : List (U32 × Mac)) {ip ip' : U32} (mac : Mac) (h : ip ≠ ip') :
    lastTaught (taught ++ [(ip, mac)]) ip' = lastTaught taught ip' := by
  simp [lastTaught, h]

/-! ## One insertion -/

section
variable {a : Cache} {ip : U32} {m : U32 × Mac} {i : Fin arpTableSize}

theorem Cache.slot_some (h : a.slot ip = some i) : (a.table i).ip = ip := by
  simpa using List.find?_some h

theorem Cache.slot_none (h : a.slot ip = none) (i : Fin arpTableSize) : (a.table i).ip ≠ ip := by
  have hnone := List.find?_eq_none.mp h i (mem_finRange i)
  simpa using hnone

theorem Cache.slot_of_ip (h : (a.table i).ip = ip) : ∃ j, a.slot ip = some j := by
  cases hslot : a.slot ip with
  | none => exact absurd h (Cache.slot_none hslot i)
  | some j => exact ⟨j, rfl⟩

theorem Cache.slot_congr {b : Cache} (h : ∀ i, (a.table i).ip = ip ↔ (b.table i).ip = ip) :
    a.slot ip = b.slot ip := by
  unfold Cache.slot
  congr 1
  funext i
  exact decide_eq_decide.mpr (h i)

theorem Cache.learn_target (a : Cache) (m : U32 × Mac) :
    (a.learn m).table (a.target m.1) = { ip := m.1, mac := m.2 } :=
  Function.update_self ..

theorem Cache.learn_ne (a : Cache) (m : U32 × Mac) (h : i ≠ a.target m.1) :
    (a.learn m).table i = a.table i :=
  Function.update_of_ne h ..

theorem Cache.target_of_slot (h : a.slot ip = some i) : a.target ip = i := by
  rw [Cache.target, h]
  rfl

theorem Cache.learn_slot_other (a : Cache) (m : U32 × Mac) {ip' : U32} (hne : ip' ≠ m.1)
    (hold : ip' ≠ (a.table (a.target m.1)).ip) : (a.learn m).slot ip' = a.slot ip' := by
  apply Cache.slot_congr
  intro i
  by_cases hi : i = a.target m.1
  · subst hi
    rw [a.learn_target]
    exact iff_of_false (fun h => hne h.symm) (fun h => hold h.symm)
  · rw [a.learn_ne m hi]

/-- **At most one other address**: the one whose slot is written over. -/
theorem Cache.learn_other (a : Cache) (m : U32 × Mac) {ip' : U32} (hne : ip' ≠ m.1)
    (hold : ip' ≠ (a.table (a.target m.1)).ip) : arpLookup (a.learn m) ip' = arpLookup a ip' := by
  unfold arpLookup
  rw [a.learn_slot_other m hne hold]
  cases hfound : a.slot ip' with
  | none => rfl
  | some i =>
    grind [slot_some, learn_ne]

theorem Cache.learn_slot (a : Cache) (m : U32 × Mac) :
    (a.learn m).slot m.1 = some (a.target m.1) := by
  cases hfound : a.slot m.1 with
  | some i =>
    grind [target_of_slot, slot_congr, learn_target, slot_some, learn_ne]
  | none =>
    obtain ⟨j, hj⟩ := Cache.slot_of_ip (congrArg ArpEntry.ip (a.learn_target m))
    have htarget : j = a.target m.1 := by
      by_contra hne
      have hip := Cache.slot_some hj
      rw [a.learn_ne m hne] at hip
      exact Cache.slot_none hfound j hip
    rw [hj, htarget]

theorem Cache.learn_self (a : Cache) (m : U32 × Mac) : arpLookup (a.learn m) m.1 = some m.2 := by
  rw [arpLookup, a.learn_slot, map_some, a.learn_target]

end

/-! ## Addresses other than 0 -/

/-- The slots with an address hold distinct addresses, each with the MAC of its
last mapping. -/
structure Sound (a : Cache) (taught : List (U32 × Mac)) : Prop where
  unique : ∀ i j, (a.table i).ip ≠ 0 → (a.table i).ip = (a.table j).ip → i = j
  last : ∀ i, (a.table i).ip ≠ 0 → lastTaught taught (a.table i).ip = some (a.table i).mac

theorem sound_init : Sound init [] where
  unique _ _ h := absurd rfl h
  last _ h := absurd rfl h

variable {taught after : List (U32 × Mac)}

theorem Sound.other_ne {a : Cache} (h : Sound a taught) {ip : U32}
    {j : Fin arpTableSize} (hj : j ≠ a.target ip) (hne : (a.table j).ip ≠ 0) :
    (a.table j).ip ≠ ip := by
  intro heq
  obtain ⟨i, hi⟩ := Cache.slot_of_ip heq
  have hsame : (a.table j).ip = (a.table i).ip := heq.trans (Cache.slot_some hi).symm
  apply hj
  rw [Cache.target_of_slot hi]
  exact h.unique j i hne hsame

theorem Sound.learn {a : Cache} (h : Sound a taught) (m : U32 × Mac) :
    Sound (a.learn m) (taught ++ [m]) where
  unique i j hne heq := by
    by_cases hi : i = a.target m.1 <;> by_cases hj : j = a.target m.1
    · rw [hi, hj]
    · rw [hi, a.learn_target] at hne heq
      rw [a.learn_ne m hj] at heq
      exact absurd heq.symm (h.other_ne hj (heq ▸ hne))
    · rw [a.learn_ne m hi] at hne heq
      rw [hj, a.learn_target] at heq
      exact absurd heq (h.other_ne hi hne)
    · rw [a.learn_ne m hi] at hne heq
      rw [a.learn_ne m hj] at heq
      exact h.unique i j hne heq
  last i hne := by
    by_cases hi : i = a.target m.1
    · rw [hi, a.learn_target]
      exact lastTaught_append_self taught m.1 m.2
    · rw [a.learn_ne m hi] at hne ⊢
      rw [lastTaught_append_ne taught m.2 (h.other_ne hi hne).symm]
      exact h.last i hne

theorem Sound.run {a : Cache} (h : Sound a taught)
    (more : List (U32 × Mac)) : Sound (run Cache.learn a more) (taught ++ more) := by
  induction more generalizing a taught with
  | nil => rwa [append_nil]
  | cons m more ih =>
    have hrest := ih (h.learn m)
    rwa [append_assoc] at hrest

variable {mac : Mac}

theorem Sound.lookup {a : Cache} (h : Sound a taught) {ip : U32}
    (hip : ip ≠ 0) (hlookup : arpLookup a ip = some mac) : lastTaught taught ip = some mac := by
  obtain ⟨i, hi, rfl⟩ := map_eq_some_iff.mp hlookup
  have hslot := Cache.slot_some hi
  rw [← hslot] at hip ⊢
  exact h.last i hip

/-! ## Address 0 -/

/-- No slot is empty. -/
def Cache.Full (a : Cache) : Prop := ∀ i, (a.table i).ip ≠ 0

/-- Empty slots have the MAC they were initialised with. -/
def Cache.Blank (a : Cache) : Prop := ∀ i, (a.table i).ip = 0 → (a.table i).mac = zeroMac

/-- All empty slots have it, save the one that `arp_lookup(0)` finds. -/
def Cache.OthersBlank (a : Cache) : Prop :=
  ∀ i, (a.table i).ip = 0 → a.slot 0 ≠ some i → (a.table i).mac = zeroMac

theorem blank_init : init.Blank := fun _ _ => rfl

theorem Cache.Blank.others {a : Cache} (h : a.Blank) : a.OthersBlank := fun i hi _ => h i hi

theorem Cache.Blank.lookup {a : Cache} (h : a.Blank)
    (hlookup : arpLookup a 0 = some mac) : mac = zeroMac := by
  obtain ⟨i, hi, rfl⟩ := map_eq_some_iff.mp hlookup
  exact h i (Cache.slot_some hi)

theorem Cache.Blank.learn {a : Cache} (h : a.Blank) {m : U32 × Mac} (hm : m.1 ≠ 0) :
    (a.learn m).Blank := by
  intro i hi
  by_cases htarget : i = a.target m.1
  · rw [htarget, a.learn_target] at hi
    exact absurd hi hm
  · rw [a.learn_ne m htarget] at hi ⊢
    exact h i hi

theorem Cache.Blank.run {a : Cache} (h : a.Blank)
    (hafter : ∀ m ∈ after, m.1 ≠ 0) : (run Cache.learn a after).Blank := by
  induction after generalizing a with
  | nil => exact h
  | cons m after ih =>
    exact ih (h.learn (hafter m mem_cons_self))
      (fun m' hm' => hafter m' (mem_cons_of_mem _ hm'))

theorem Cache.target_known {a : Cache} {ip : U32} (hknown : (a.slot ip).isSome) :
    (a.table (a.target ip)).ip = ip := by
  obtain ⟨i, hi⟩ := isSome_iff_exists.mp hknown
  rw [Cache.target_of_slot hi, Cache.slot_some hi]

theorem Cache.learn_known {a : Cache} {m : U32 × Mac} (hm : m.1 ≠ 0)
    (hknown : (a.slot m.1).isSome) : arpLookup (a.learn m) 0 = arpLookup a 0 := by
  refine a.learn_other m hm.symm ?_
  rw [Cache.target_known hknown]
  exact hm.symm

/-- A new address goes to the slot that `arp_lookup(0)` found, if there is
one. -/
theorem Cache.OthersBlank.learn_new {a : Cache} (h : a.OthersBlank) {m : U32 × Mac} (hm : m.1 ≠ 0)
    (hnew : a.slot m.1 = none) : (a.learn m).Blank := by
  intro i hi
  by_cases htarget : i = a.target m.1
  · rw [htarget, a.learn_target] at hi
    exact absurd hi hm
  · rw [a.learn_ne m htarget] at hi ⊢
    refine h i hi (fun hslot => htarget ?_)
    rw [Cache.target, hnew, hslot]
    rfl

theorem Cache.OthersBlank.learn {a : Cache} (h : a.OthersBlank) (m : U32 × Mac) :
    (a.learn m).OthersBlank := by
  by_cases hm : m.1 = 0
  · -- the slot written is the one found, or the only empty one
    intro i hi hslot
    by_cases htarget : i = a.target m.1
    · rw [← hm, a.learn_slot, htarget] at hslot
      exact absurd rfl hslot
    · rw [a.learn_ne m htarget] at hi ⊢
      refine h i hi (fun hold => htarget ?_)
      rw [hm]
      exact (Cache.target_of_slot hold).symm
  · by_cases hnew : a.slot m.1 = none
    · exact (h.learn_new hm hnew).others
    · have htarget := Cache.target_known (isSome_iff_ne_none.mpr hnew)
      have hsame : (a.learn m).slot 0 = a.slot 0 :=
        a.learn_slot_other m (Ne.symm hm) (fun heq => hm (htarget.symm.trans heq.symm))
      intro i hi hslot
      by_cases heq : i = a.target m.1
      · rw [heq, a.learn_target] at hi
        exact absurd hi hm
      · rw [a.learn_ne m heq] at hi ⊢
        rw [hsame] at hslot
        exact h i hi hslot

theorem Cache.OthersBlank.blank {a : Cache} (h : a.OthersBlank)
    (hlookup : arpLookup a 0 = some zeroMac) : a.Blank := by
  intro i hi
  obtain ⟨j, hj, hmac⟩ := map_eq_some_iff.mp hlookup
  by_cases hij : j = i
  · rw [← hij]
    exact hmac
  · exact h i hi (fun hslot => hij (Option.some.inj (hj.symm.trans hslot)))

theorem Cache.OthersBlank.run {a : Cache} (h : a.OthersBlank) (taught : List (U32 × Mac)) :
    (run Cache.learn a taught).OthersBlank := by
  induction taught generalizing a with
  | nil => exact h
  | cons m taught ih => exact ih (h.learn m)

/-- `arp_lookup(0)` is right after the mappings `taught`: no slot is empty, or a
mapping for 0 was taught and since the last one either no new address was put
into a slot, or that mapping's MAC is the one empty slots have anyway. -/
def ZeroRight (taught : List (U32 × Mac)) : Prop := (run Cache.learn init taught).Full ∨
    ∃ (before : List (U32 × Mac)) (mac : Mac) (after : List (U32 × Mac)),
      taught = before ++ (0, mac) :: after ∧ (∀ m ∈ after, m.1 ≠ 0) ∧
      (mac = zeroMac ∨ StepsMeet Cache.learn (fun a m => (a.slot m.1).isSome)
        ((run Cache.learn init before).learn (0, mac)) after)

/-- Known addresses leave what `arp_lookup(0)` finds. -/
theorem lookup_zero_of_known {a : Cache} (hafter : ∀ m ∈ after, m.1 ≠ 0)
    (hknown : StepsMeet Cache.learn (fun a m => (a.slot m.1).isSome) a after) :
    arpLookup (run Cache.learn a after) 0 = arpLookup a 0 := by
  induction after generalizing a with
  | nil => rfl
  | cons m after ih =>
    have hm := hafter m mem_cons_self
    rw [run_cons, ih (fun m' hm' => hafter m' (mem_cons_of_mem _ hm')) hknown.2,
      Cache.learn_known hm hknown.1]

/-- And if the answer is still a MAC that empty slots do not have, the addresses
were known. -/
theorem known_of_lookup_zero {a : Cache} (h : a.OthersBlank)
    (hafter : ∀ m ∈ after, m.1 ≠ 0) (hmac : mac ≠ zeroMac)
    (hlookup : arpLookup (run Cache.learn a after) 0 = some mac) :
    StepsMeet Cache.learn (fun a m => (a.slot m.1).isSome) a after := by
  induction after generalizing a with
  | nil => trivial
  | cons m after ih =>
    have hm := hafter m mem_cons_self
    have hrest : ∀ m' ∈ after, m'.1 ≠ 0 := fun m' hm' => hafter m' (mem_cons_of_mem _ hm')
    refine ⟨?_, ih (h.learn m) hrest hlookup⟩
    apply isSome_iff_ne_none.mpr
    intro hnew
    exact hmac (((h.learn_new hm hnew).run hrest).lookup hlookup)

theorem lastTaught_append_none {before : List (U32 × Mac)} {ip : U32} (mac : Mac)
    (hafter : ∀ m ∈ after, m.1 ≠ ip) : lastTaught (before ++ (ip, mac) :: after) ip = some mac := by
  have hnone : after.reverse.find? (fun m => m.1 = ip) = none := by
    rw [List.find?_eq_none]
    intro m hm
    simpa using hafter m (mem_reverse.mp hm)
  simp [lastTaught, List.find?_append, hnone]

theorem lastTaught_split {ip : U32}
    (h : lastTaught taught ip = some mac) : ∃ before after, taught = before ++ (ip, mac) :: after ∧
      ∀ m ∈ after, m.1 ≠ ip := by
  obtain ⟨m, hm, rfl⟩ := map_eq_some_iff.mp h
  obtain ⟨hp, as, bs, hsplit, has⟩ := List.find?_eq_some_iff_append.mp hm
  rw [decide_eq_true_eq] at hp
  refine ⟨bs.reverse, as.reverse, ?_, fun m' hm' => ?_⟩
  · rw [← reverse_reverse taught, hsplit, ← hp]
    simp
  · simpa using has m' (mem_reverse.mp hm')

theorem zeroRight_iff (taught : List (U32 × Mac)) :
    (∀ mac, arpLookup (run Cache.learn init taught) 0 = some mac → lastTaught taught 0 = some mac) ↔
      ZeroRight taught := by
  constructor
  · intro hright
    by_cases hfull : (run Cache.learn init taught).Full
    · exact .inl hfull
    · obtain ⟨i, hi⟩ := not_forall_not.mp hfull
      obtain ⟨j, hj⟩ := Cache.slot_of_ip hi
      have hlookup : arpLookup (run Cache.learn init taught) 0 =
          some ((run Cache.learn init taught).table j).mac := by
        rw [arpLookup, hj]
        rfl
      obtain ⟨before, after, hsplit, hafter⟩ := lastTaught_split (hright _ hlookup)
      refine .inr ⟨before, _, after, hsplit, hafter, ?_⟩
      grind [known_of_lookup_zero, Cache.OthersBlank.learn, Cache.OthersBlank.run, Cache.Blank.others,
        blank_init, run_cons, run_append]
  · intro hright mac hlookup
    rcases hright with hfull | ⟨before, mac', after, rfl, hafter, hwhy⟩
    · obtain ⟨i, hi, -⟩ := map_eq_some_iff.mp hlookup
      exact absurd (Cache.slot_some hi) (hfull i)
    · grind [lastTaught_append_none, Cache.OthersBlank.learn, Cache.OthersBlank.run, Cache.Blank.others,
        blank_init, Cache.OthersBlank.blank, Cache.learn_self, Cache.Blank.lookup, Cache.Blank.run,
          run_cons,
        run_append, lookup_zero_of_known]

/-! ## The partial map -/

/-- **The ARP cache is a partial map, address 0 apart.**  After every sequence of
insertions and received packets: a hit for `ip` is the last mapping taught, for
every address other than 0, and for 0 exactly under `ZeroRight`; no address other
than 0 is in two slots; and an insertion changes the answer for at most one
address besides its own. -/
theorem arp_cache_partial_map (env : Env) (ourMac : Mac) {events : List Event}
    (hread : ∀ e ∈ events, e.Readable) :
    let a := run (Cache.step env ourMac) init events
    let taught := events.filterMap Event.taught
    (∀ ip, (∀ mac, arpLookup a ip = some mac → lastTaught taught ip = some mac) ↔
      (ip ≠ 0 ∨ ZeroRight taught)) ∧
    (∀ i j, (a.table i).ip ≠ 0 → (a.table i).ip = (a.table j).ip → i = j) ∧
    (∀ ip mac, ∃ other, ∀ ip', ip' ≠ ip → ip' ≠ other →
      arpLookup (arpInsert a ip mac) ip' = arpLookup a ip') := by
  intro a taught
  obtain ⟨ourIp, hrun⟩ : ∃ ourIp, a = { run Cache.learn init taught with ourIp := ourIp } :=
    run_step_eq env ourMac init hread
  have hsound : Sound a taught := by
    rw [hrun]
    exact ⟨(sound_init.run taught).unique, (sound_init.run taught).last⟩
  refine ⟨fun ip => ?_, hsound.unique, fun ip mac => ?_⟩
  · by_cases hip : ip = 0
    · have hsame : arpLookup a 0 = arpLookup (run Cache.learn init taught) 0 := by
        rw [hrun]
        rfl
      rw [hip, or_iff_right (not_not_intro rfl), hsame]
      exact zeroRight_iff taught
    · exact iff_of_true (fun mac hlookup => hsound.lookup hip hlookup) (.inl hip)
  · exact ⟨(a.table (a.target ip)).ip, fun ip' hne hold => a.learn_other (ip, mac) hne hold⟩

/-- The gateway that was never set is found in the empty cache, with MAC zero. -/
theorem arpLookup_zero_init : arpLookup init 0 = some zeroMac ∧ lastTaught [] 0 = none := by
  decide

/-- 10.0.2.2 is inserted, and then announces another MAC itself. -/
def gatewayEvents : List Event := [.insert 0x0A000202#32 zeroMac,
   .packet ⟨(arpPkt arpOpReply broadcast (htonl 0x0A000202#32) zeroMac 0).bytes, 0⟩ 28#16]

theorem arp_cache_partial_map_gateway :
    arpLookup (run (Cache.step quietEnv zeroMac) init gatewayEvents) 0x0A000202#32 = some broadcast ∧
    ∀ mac, arpLookup (run (Cache.step quietEnv zeroMac) init gatewayEvents) 0x0A000202#32 =
      some mac → lastTaught (gatewayEvents.filterMap Event.taught) 0x0A000202#32 = some mac := by
  have hread : ∀ e ∈ gatewayEvents, e.Readable := by
    intro e he
    simp only [gatewayEvents, mem_cons, not_mem_nil, or_false] at he
    rcases he with rfl | rfl
    · trivial
    · unfold Event.Readable Ptr.Has
      decide
  refine ⟨by decide, ?_⟩
  exact ((arp_cache_partial_map quietEnv zeroMac hread).1 0x0A000202#32).mpr (.inl (by decide))

end Arp
