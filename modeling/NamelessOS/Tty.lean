import NamelessOS.Keyboard
import NamelessOS.Runs

/-!
# The terminal

`tty_poll` drains the keyboard on every timer tick, edits the line in progress
and moves completed lines to the read ring; `tty_read` takes bytes from there.
`Cooked` says what the editing is for, without buffers, and the pipeline theorem
compares the two over every interleaving of interrupts, polls and readers.
-/

open Runs List Option

namespace Tty

def ttyLbufSize : Nat := 256
def ttyRbufSize : Nat := 1024

end Tty

/-- The line buffer, the read ring and what was put on the screen. -/
structure Tty where
  /-- the first `lbuf_len` bytes of `lbuf` -/
  lbuf : List U8
  rbuf : Fin Tty.ttyRbufSize → U8
  /-- next byte to consume -/
  rbufHead : Fin Tty.ttyRbufSize
  /-- next free slot -/
  rbufTail : Fin Tty.ttyRbufSize
  screen : List U8

namespace Tty

/-- `rbuf_avail`; the difference is taken in 32 bits. -/
def rbufAvail (t : Tty) : Nat := (t.rbufTail.val + 2 ^ 32 - t.rbufHead.val) % 2 ^ 32 % ttyRbufSize

def next (i : Fin ttyRbufSize) : Fin ttyRbufSize :=
  ⟨(i.val + 1) % ttyRbufSize, Nat.mod_lt _ (by decide)⟩

def rbufPush (t : Tty) (c : U8) : Tty :=
  if next t.rbufTail = t.rbufHead then t   -- full: drop
  else { t with rbuf := Function.update t.rbuf t.rbufTail c, rbufTail := next t.rbufTail }

/-- `rbuf_pop`; `none` for -1. -/
def rbufPop (t : Tty) : Option U8 × Tty :=
  if t.rbufHead = t.rbufTail then (none, t)
  else (some (t.rbuf t.rbufHead), { t with rbufHead := next t.rbufHead })

def vgaPutchar (t : Tty) (c : U8) : Tty := { t with screen := t.screen ++ [c] }

/-- What `tty_poll` does with one character; `char` is signed. -/
def ttyChar (t : Tty) (ch : U8) : Tty :=
  if ch = 0x0D#8 ∨ ch = 0x0A#8 then
    -- end of line: the line buffer goes to the ring, newline included
    let t := run rbufPush t (t.lbuf ++ [0x0A#8])
    vgaPutchar { t with lbuf := [] } 0x0A#8
  else if ch = 0x08#8 ∨ ch = 127#8 then
    if 0 < t.lbuf.length then
      run vgaPutchar { t with lbuf := t.lbuf.dropLast } [0x08#8, 0x20#8, 0x08#8]
    else t
  else if (0x20#8).sle ch ∧ ch.slt 0x7F#8 then
    if t.lbuf.length < ttyLbufSize - 1 then vgaPutchar { t with lbuf := t.lbuf ++ [ch] } ch else t
  else t

/-- The loop of `tty_poll`, at most `n` times, with the characters it took. -/
def pollLoop : Nat → Keyboard → Tty → List U8 × Keyboard × Tty
  | 0, k, t => ([], k, t)
  | n + 1, k, t =>
    match k.keyboardGetc with
    | (none, k') => ([], k', t)
    | (some ch, k') =>
      let r := pollLoop n k' (t.ttyChar ch)
      (ch :: r.1, r.2)

/-- `tty_poll`.  It runs in the timer interrupt, so nothing is pushed meanwhile
and the loop ends before it has gone round the keyboard's ring. -/
def ttyPoll (k : Keyboard) (t : Tty) : List U8 × Keyboard × Tty := pollLoop Keyboard.kbBufSize k t

/-- The terminal after `tty_init_impl`. -/
def init : Tty where
  lbuf := []
  rbuf := fun _ => 0#8
  rbufHead := ⟨0, by decide⟩
  rbufTail := ⟨0, by decide⟩
  screen := []

/-- A call of `tty_read`: the bytes it has put into `buf`, and whether it has
returned. -/
structure Call where
  size : Nat
  buf : List U8
  returned : Bool

/-- `tty_read` as it is entered. -/
def ttyRead (bufNull : Bool) (size : Nat) : Call where
  size := size
  buf := []
  returned := bufNull || size == 0

/-- Once round the loop of `tty_read`, with the byte it took. -/
def Call.iterate (c : Call) (t : Tty) : Call × Tty × Option U8 :=
  if c.returned then (c, t, none)
  else if c.buf.length < c.size then
    if 0 < t.rbufAvail then
      match t.rbufPop with
      | (none, t') => ({ c with returned := true }, t', none)
      | (some ch, t') =>
        -- stop at newline
        ({ c with buf := c.buf ++ [ch], returned := ch == 0x0A#8 }, t', some ch)
    else (c, t, none)   -- scheduler_yield
  else ({ c with returned := true }, t, none)

/-! ## What the editing is for -/

/-- Completed lines, newlines included, and the line in progress. -/
structure Cooked where
  done : List (List U8)
  line : List U8

/-- Cooked-mode editing of one character. -/
def Cooked.edit (c : Cooked) (ch : U8) : Cooked :=
  if ch = 0x0D#8 ∨ ch = 0x0A#8 then { done := c.done ++ [c.line ++ [0x0A#8]], line := [] }
  else if ch = 0x08#8 ∨ ch = 0x7F#8 then { c with line := c.line.dropLast }
  else if 0x20 ≤ ch.toNat ∧ ch.toNat < 0x7F ∧ c.line.length < 255 then
    { c with line := c.line ++ [ch] }
  else c

/-- The editing of a whole input. -/
def cooked (chs : List U8) : Cooked := run Cooked.edit ⟨[], []⟩ chs

/-! ## The read ring -/

variable {t : Tty}

/-- The read ring; here the indices have the library's roles. -/
def ring (t : Tty) : RingBuffer U8 ttyRbufSize where
  buf := t.rbuf
  head := t.rbufHead
  tail := t.rbufTail

/-- The bytes still in `rbuf`, oldest first. -/
def unread (t : Tty) : List U8 := t.ring.contents

/-- The ring is full at a push. -/
def RbufFull (t : Tty) : Prop := next t.rbufTail = t.rbufHead

instance (t : Tty) : Decidable t.RbufFull := inferInstanceAs (Decidable (_ = _))

theorem rbufAvail_eq (t : Tty) : t.rbufAvail = t.ring.avail := by
  have hh : t.rbufHead.val < 1024 := t.rbufHead.isLt
  show (t.rbufTail.val + 2 ^ 32 - t.rbufHead.val) % 2 ^ 32 % 1024 =
    (t.rbufTail.val + 1024 - t.rbufHead.val) % 1024
  omega

theorem rbufPush_unread (c : U8) (hroom : ¬ t.RbufFull) :
    (t.rbufPush c).unread = t.unread ++ [c] ∧ (t.rbufPush c).lbuf = t.lbuf := by
  have hpush : t.rbufPush c =
      { t with rbuf := Function.update t.rbuf t.rbufTail c, rbufTail := next t.rbufTail } :=
    if_neg hroom
  have hspace : t.ring.avail + 1 < ttyRbufSize := t.ring.not_full_iff.mp hroom
  rw [hpush]
  exact ⟨t.ring.contents_push c hspace, rfl⟩

theorem run_rbufPush_unread {cs : List U8}
    (hroom : StepsMeet rbufPush (fun t _ => ¬ t.RbufFull) t cs) :
    (run rbufPush t cs).unread = t.unread ++ cs := by
  induction cs generalizing t with
  | nil => exact (append_nil _).symm
  | cons c cs ih =>
    rw [run_cons, ih hroom.2, (rbufPush_unread c hroom.1).1, append_assoc]
    rfl

/-- **First in, first out.** -/
theorem rbufPop_cons (h : 0 < t.rbufAvail) : ∃ ch, t.rbufPop.1 = some ch ∧
    t.unread = ch :: t.rbufPop.2.unread ∧ t.rbufPop.2.lbuf = t.lbuf := by
  rw [rbufAvail_eq] at h
  have hne : t.rbufHead ≠ t.rbufTail := by
    intro heq
    rw [t.ring.avail_eq_zero_iff.mpr heq] at h
    exact absurd h (Nat.lt_irrefl 0)
  have hpop : t.rbufPop = (some (t.rbuf t.rbufHead), { t with rbufHead := next t.rbufHead }) :=
    if_neg hne
  rw [hpop]
  exact ⟨t.rbuf t.rbufHead, rfl, t.ring.contents_advance h, rfl⟩

/-! ## Editing -/

/-- Every push that the character causes finds room in the ring. -/
def CharFits (t : Tty) (ch : U8) : Prop := ch = 0x0D#8 ∨ ch = 0x0A#8 →
    StepsMeet rbufPush (fun t _ => ¬ t.RbufFull) t (t.lbuf ++ [0x0A#8])

instance (t : Tty) (ch : U8) : Decidable (t.CharFits ch) := inferInstanceAs (Decidable (_ → _))

/-- The terminal holds what the editing made, less the bytes taken by readers. -/
structure Matches (t : Tty) (c : Cooked) (taken : List U8) : Prop where
  line : t.lbuf = c.line
  text : taken ++ t.unread = c.done.flatten

theorem printable_iff (ch : U8) :
    ((0x20#8).sle ch ∧ ch.slt 0x7F#8) ↔ 0x20 ≤ ch.toNat ∧ ch.toNat < 0x7F := by
  rw [BitVec.sle_iff_toInt_le, BitVec.slt_iff_toInt_lt, BitVec.toInt_eq_toNat_cond ch]
  rw [show (0x20#8).toInt = 0x20 from rfl, show (0x7F#8).toInt = 0x7F from rfl]
  split <;> omega

theorem Matches.char {c : Cooked} {taken : List U8} (h : Matches t c taken) {ch : U8}
    (hfits : t.CharFits ch) : Matches (t.ttyChar ch) (c.edit ch) taken := by
  unfold ttyChar Cooked.edit
  by_cases hend : ch = 0x0D#8 ∨ ch = 0x0A#8
  · rw [if_pos hend, if_pos hend]
    refine ⟨rfl, ?_⟩
    show taken ++ (run rbufPush t (t.lbuf ++ [0x0A#8])).unread = _
    rw [run_rbufPush_unread (hfits hend), ← append_assoc, h.text, h.line]
    simp
  · rw [if_neg hend, if_neg hend]
    by_cases hbs : ch = 0x08#8 ∨ ch = 127#8
    · rw [if_pos hbs, if_pos hbs]
      split
      · exact ⟨congrArg List.dropLast h.line, h.text⟩
      · rename_i hempty
        have hnil : c.line = [] := by
          rw [← h.line]
          exact eq_nil_of_length_eq_zero (by omega)
        refine ⟨?_, h.text⟩
        show t.lbuf = c.line.dropLast
        rw [h.line, hnil]
        rfl
    · rw [if_neg hbs, if_neg hbs, if_congr (printable_iff ch) rfl rfl, ← h.line]
      by_cases hprint : 0x20 ≤ ch.toNat ∧ ch.toNat < 0x7F
      · rw [if_pos hprint]
        by_cases hlen : t.lbuf.length < 255
        · rw [if_pos (show t.lbuf.length < ttyLbufSize - 1 from hlen),
            if_pos ⟨hprint.1, hprint.2, hlen⟩]
          exact ⟨rfl, h.text⟩
        · rw [if_neg (show ¬ t.lbuf.length < ttyLbufSize - 1 from hlen),
            if_neg (fun hc => hlen hc.2.2)]
          exact h
      · rw [if_neg hprint, if_neg (fun hc => hprint ⟨hc.1, hc.2.1⟩)]
        exact h

theorem Matches.chars {c : Cooked} {taken : List U8} (h : Matches t c taken) {chs : List U8}
    (hfits : StepsMeet ttyChar CharFits t chs) :
    Matches (run ttyChar t chs) (run Cooked.edit c chs) taken := by
  induction chs generalizing t c with
  | nil => exact h
  | cons ch chs ih => exact ih (h.char hfits.1) hfits.2

/-- **One poll** takes all that waits, in order, and leaves the keyboard's ring
empty. -/
theorem pollLoop_eq {n : Nat} {k : Keyboard} (hn : k.waiting.length < n) (t : Tty) :
    (pollLoop n k t).1 = k.waiting ∧ (pollLoop n k t).2.1.waiting = [] ∧
      (pollLoop n k t).2.2 = run ttyChar t k.waiting := by
  induction n generalizing k t with
  | zero => exact absurd hn (Nat.not_lt_zero _)
  | succ n ih =>
    cases hk : k.waiting with
    | nil =>
      rw [pollLoop, Keyboard.keyboardGetc_nil hk]
      exact ⟨rfl, hk, rfl⟩
    | cons ch rest =>
      obtain ⟨hch, hrest⟩ := Keyboard.keyboardGetc_cons hk
      rw [pollLoop]
      generalize k.keyboardGetc = r at hch hrest
      obtain ⟨r₁, k'⟩ := r
      dsimp only at hch hrest
      subst hch hrest
      rw [hk, length_cons] at hn
      obtain ⟨h1, h2, h3⟩ := ih (k := k') (by omega) (t.ttyChar ch)
      exact ⟨congrArg (ch :: ·) h1, h2, h3⟩

theorem ttyPoll_eq (k : Keyboard) (t : Tty) :
    (ttyPoll k t).1 = k.waiting ∧ (ttyPoll k t).2.1.waiting = [] ∧
      (ttyPoll k t).2.2 = run ttyChar t k.waiting :=
  pollLoop_eq k.waiting_length_lt t

/-! ## Readers -/

/-- **Once round the reader's loop**: no byte, or the oldest one. -/
inductive Iterated (c : Call) (t : Tty) : Call × Tty × Option U8 → Prop
  | idle (returned : Bool) (hkept : returned = false → c.returned = false) :
      Iterated c t ({ c with returned := returned }, t, none)
  | took (ch : U8) (t' : Tty) (hopen : c.returned = false) (hroom : c.buf.length < c.size)
      (hunread : t.unread = ch :: t'.unread) (hline : t'.lbuf = t.lbuf) :
      Iterated c t ({ c with buf := c.buf ++ [ch], returned := ch == 0x0A#8 }, t', some ch)

theorem Call.iterate_spec (c : Call) (t : Tty) : Iterated c t (c.iterate t) := by
  unfold Call.iterate
  by_cases hret : c.returned = true
  · rw [if_pos hret]
    exact .idle c.returned id
  · rw [if_neg hret]
    by_cases hsize : c.buf.length < c.size
    · rw [if_pos hsize]
      by_cases havail : 0 < t.rbufAvail
      · rw [if_pos havail]
        obtain ⟨ch, hch, hunread, hline⟩ := rbufPop_cons havail
        generalize t.rbufPop = r at hch hunread hline
        obtain ⟨r₁, t'⟩ := r
        subst hch
        exact .took ch t' (Bool.not_eq_true _ ▸ hret) hsize hunread hline
      · rw [if_neg havail]
        exact .idle c.returned id
    · rw [if_neg hsize]
      exact .idle true (fun h => by cases h)

/-- What a call may have put into `buf`. -/
structure CallOk (c : Call) (bytes : List U8) : Prop where
  bytes : c.buf = bytes
  size : c.buf.length ≤ c.size
  last : 0x0A#8 ∉ c.buf.dropLast
  open_line : c.returned = false → 0x0A#8 ∉ c.buf

theorem callOk_ttyRead (bufNull : Bool) (size : Nat) : CallOk (ttyRead bufNull size) [] where
  bytes := rfl
  size := Nat.zero_le _
  last := not_mem_nil
  open_line _ := not_mem_nil

theorem CallOk.took {c : Call} {bytes : List U8} (h : CallOk c bytes) {ch : U8}
    (hopen : c.returned = false) (hroom : c.buf.length < c.size) :
    CallOk { c with buf := c.buf ++ [ch], returned := ch == 0x0A#8 } (bytes ++ [ch]) where
  bytes := congrArg (· ++ [ch]) h.bytes
  size := by
    rw [length_append]
    exact hroom
  last := by
    rw [dropLast_concat]
    exact h.open_line hopen
  open_line hnot := by
    rw [mem_append, mem_singleton]
    rintro (hmem | heq)
    · exact h.open_line hopen hmem
    · rw [← heq] at hnot
      cases hnot

/-! ## The pipeline -/

/-- Keyboard, terminal and the calls of `tty_read` made so far, with a record of
the scancodes that came in, the characters that polls drained, and the bytes
that calls took, each with the call's number. -/
structure World where
  kb : Keyboard
  tty : Tty
  calls : List Call
  scancodes : List U8
  drained : List U8
  taken : List (Nat × U8)

inductive Event
  | keyboardIrq (sc : U8)
  | poll
  | read (bufNull : Bool) (size : Nat)
  /-- the reader of call `i` runs once round its loop -/
  | loop (i : Nat)

namespace World

def step (w : World) : Event → World
  | .keyboardIrq sc =>
    { w with kb := w.kb.keyboardIrqHandler sc, scancodes := w.scancodes ++ [sc] }
  | .poll =>
    let r := ttyPoll w.kb w.tty
    { w with kb := r.2.1, tty := r.2.2, drained := w.drained ++ r.1 }
  | .read bufNull size => { w with calls := w.calls ++ [ttyRead bufNull size] }
  | .loop i =>
    match w.calls[i]? with
    | none => w
    | some c =>
      let r := c.iterate w.tty
      { w with
        calls := w.calls.set i r.1
        tty := r.2.1
        taken := w.taken ++ (r.2.2.map (Prod.mk i)).toList }

/-- The world when the terminal has been initialised, with an empty keyboard
ring. -/
def boot : World where
  kb := { buf := fun _ => 0#8, head := ⟨0, by decide⟩, tail := ⟨0, by decide⟩ }
  tty := init
  calls := []
  scancodes := []
  drained := []
  taken := []

/-- Neither ring is full at a push. -/
def NoOverflow (w : World) : Event → Prop
  | .keyboardIrq sc => (Keyboard.asciiOf sc).isSome → ¬ w.kb.Full
  | .poll => StepsMeet ttyChar CharFits w.tty w.kb.waiting
  | .read _ _ => True
  | .loop _ => True

instance (w : World) (e : Event) : Decidable (w.NoOverflow e) := by
  cases e with
  | keyboardIrq sc => exact inferInstanceAs (Decidable (_ → ¬ _))
  | poll => exact inferInstanceAs (Decidable (StepsMeet _ _ _ _))
  | read bufNull size => exact isTrue trivial
  | loop i => exact isTrue trivial

/-- The bytes that call `i` took, in order. -/
def bytesOf (taken : List (Nat × U8)) (i : Nat) : List U8 :=
  (taken.filter (fun p => p.1 = i)).map Prod.snd

theorem bytesOf_append_self (taken : List (Nat × U8)) (i : Nat) (ch : U8) :
    bytesOf (taken ++ [(i, ch)]) i = bytesOf taken i ++ [ch] := by
  simp [bytesOf]

variable {i j : Nat}

theorem bytesOf_append_ne (taken : List (Nat × U8)) (ch : U8) (h : i ≠ j) :
    bytesOf (taken ++ [(i, ch)]) j = bytesOf taken j := by
  simp [bytesOf, h]

/-- **What holds of the pipeline at every moment.** -/
structure Pipeline (w : World) : Prop where
  keys : w.drained ++ w.kb.waiting = w.scancodes.filterMap Keyboard.asciiOf
  edits : Matches w.tty (cooked w.drained) (w.taken.map Prod.snd)
  calls : ∀ i c, w.calls[i]? = some c → CallOk c (bytesOf w.taken i)
  known : ∀ p ∈ w.taken, p.1 < w.calls.length

theorem pipeline_boot : Pipeline boot where
  keys := by decide
  edits := ⟨rfl, by decide⟩
  calls _ _ h := by cases h
  known _ h := by cases h

variable {w : World}

theorem Pipeline.loop (h : Pipeline w) (i : Nat) : Pipeline (w.step (.loop i)) := by
  rw [World.step]
  cases hi : w.calls[i]? with
  | none => exact h
  | some c =>
    have hok := h.calls i c hi
    obtain ⟨hlt, -⟩ := List.getElem?_eq_some_iff.mp hi
    have hspec := c.iterate_spec w.tty
    dsimp only
    generalize c.iterate w.tty = r at hspec
    cases hspec with
    | idle returned hkept =>
      rw [map_none, toList_none, append_nil]
      refine ⟨h.keys, h.edits, fun j c' hj => ?_, fun p hp => ?_⟩
      · dsimp only at hj ⊢
        by_cases hij : i = j
        · subst hij
          rw [List.getElem?_set_self hlt] at hj
          cases hj
          exact ⟨hok.bytes, hok.size, hok.last, fun hr => hok.open_line (hkept hr)⟩
        · rw [List.getElem?_set_ne hij] at hj
          exact h.calls j c' hj
      · rw [length_set]
        exact h.known p hp
    | took ch t' hopen hroom hunread hline =>
      rw [map_some, toList_some]
      refine ⟨h.keys, ⟨hline.trans h.edits.line, ?_⟩, fun j c' hj => ?_, fun p hp => ?_⟩
      · dsimp only
        rw [map_append, append_assoc, ← h.edits.text, hunread]
        rfl
      · dsimp only at hj ⊢
        grind [bytesOf_append_self, CallOk.took, bytesOf_append_ne, calls]
      · rw [length_set]
        rcases mem_append.mp hp with hp | hp
        · exact h.known p hp
        · rw [mem_singleton.mp hp]
          exact hlt

/-- **One event keeps it.** -/
theorem Pipeline.step (h : Pipeline w) {e : Event} (hok : w.NoOverflow e) :
    Pipeline (w.step e) := by
  cases e with
  | keyboardIrq sc =>
    refine ⟨?_, h.edits, h.calls, h.known⟩
    show w.drained ++ (w.kb.keyboardIrqHandler sc).waiting =
      (w.scancodes ++ [sc]).filterMap Keyboard.asciiOf
    rw [Keyboard.keyboardIrqHandler_waiting hok, ← append_assoc, h.keys, filterMap_append]
    cases hsc : Keyboard.asciiOf sc <;> simp [hsc]
  | poll =>
    obtain ⟨hdrained, hempty, htty⟩ := ttyPoll_eq w.kb w.tty
    have hedits := h.edits.chars hok
    unfold World.step
    generalize ttyPoll w.kb w.tty = r at hdrained hempty htty
    obtain ⟨chs, k', t'⟩ := r
    subst hdrained htty
    refine ⟨?_, ?_, h.calls, h.known⟩
    · dsimp only
      rw [hempty, append_nil]
      exact h.keys
    · dsimp only
      rw [cooked, run_append]
      exact hedits
  | read bufNull size =>
    refine ⟨h.keys, h.edits, fun i c hi => ?_, fun p hp => ?_⟩
    · dsimp only [World.step] at hi ⊢
      rcases Nat.lt_or_ge i w.calls.length with hlt | hge
      · rw [List.getElem?_append_left hlt] at hi
        exact h.calls i c hi
      · rw [List.getElem?_append_right hge, List.getElem?_singleton] at hi
        split at hi
        · cases hi
          have hnone : bytesOf w.taken i = [] := by
            rw [bytesOf, map_eq_nil_iff, filter_eq_nil_iff]
            intro p hp heq
            have hknown := h.known p hp
            rw [decide_eq_true_eq] at heq
            omega
          rw [hnone]
          exact callOk_ttyRead bufNull size
        · cases hi
    · show p.1 < (w.calls ++ [ttyRead bufNull size]).length
      have := h.known p hp
      rw [length_append]
      omega
  | loop i => exact h.loop i

theorem flatten_range_skip {f : Nat → List U8} (m : Nat) (hf : ∀ j < i, f j = []) :
    ((List.range (i + (1 + m))).map f).flatten =
      f i ++ ((List.range m).map (fun j => f (i + (1 + j)))).flatten := by
  have hzero : ((List.range i).map f).flatten = [] := by
    grind [flatten_eq_nil_iff]
  rw [range_add, map_append, flatten_append, hzero, range_add]
  simp [Function.comp_def]

theorem bytesOf_cons_ne (taken : List (Nat × U8)) (ch : U8) (h : i ≠ j) :
    bytesOf ((i, ch) :: taken) j = bytesOf taken j := by
  simp [bytesOf, h]

/-- If no call takes a byte after a later call did, the calls' bytes one after
the other are the bytes taken. -/
theorem flatten_bytesOf {taken : List (Nat × U8)} {n : Nat}
    (hturn : (taken.map Prod.fst).Pairwise (· ≤ ·)) (hknown : ∀ p ∈ taken, p.1 < n) :
    ((List.range n).map (bytesOf taken)).flatten = taken.map Prod.snd := by
  induction taken with
  | nil => simp [bytesOf]
  | cons p taken ih =>
    obtain ⟨i, ch⟩ := p
    rw [map_cons, pairwise_cons] at hturn
    -- the later bytes were taken by call `i` or by later ones
    have hbelow : ∀ j < i, bytesOf taken j = [] := by
      intro j hj
      rw [bytesOf, map_eq_nil_iff, filter_eq_nil_iff]
      intro q hq heq
      rw [decide_eq_true_eq] at heq
      have := hturn.1 q.1 (mem_map_of_mem hq)
      omega
    have hbelow' : ∀ j < i, bytesOf ((i, ch) :: taken) j = [] := by
      intro j hj
      rw [bytesOf_cons_ne taken ch (by omega), hbelow j hj]
    have hlt := hknown (i, ch) mem_cons_self
    obtain ⟨m, rfl⟩ : ∃ m, n = i + (1 + m) := ⟨n - i - 1, by dsimp only at hlt; omega⟩
    have habove : (List.range m).map (fun j => bytesOf ((i, ch) :: taken) (i + (1 + j))) =
        (List.range m).map (fun j => bytesOf taken (i + (1 + j))) :=
      map_congr_left (fun j _ => bytesOf_cons_ne taken ch (by omega))
    have hself : bytesOf ((i, ch) :: taken) i = ch :: bytesOf taken i := by simp [bytesOf]
    grind [flatten_range_skip]

theorem Pipeline.calls_eq (h : Pipeline w) :
    w.calls.map Call.buf = (List.range w.calls.length).map (bytesOf w.taken) := by
  apply ext_getElem?
  intro i
  rw [List.getElem?_map, List.getElem?_map]
  rcases Nat.lt_or_ge i w.calls.length with hlt | hge
  · rw [List.getElem?_eq_getElem hlt, List.getElem?_range hlt]
    exact congrArg some (h.calls i _ (List.getElem?_eq_getElem hlt)).bytes
  grind

/-- **From the keyboard to the readers.**  After every sequence of interrupts,
polls and steps of readers in which neither ring is full at a push: the bytes
taken by all calls of `tty_read`, in the order they were taken, followed by the
bytes still in `rbuf`, are the completed lines that cooked-mode editing makes of
the drained characters, and the drained characters followed by those that wait
in the keyboard's ring are those of the scancodes.  Each call has the bytes it
took, at most `size` of them, with a newline only at the end; and when the calls
do not overlap, their results one after the other are the bytes taken. -/
theorem keyboard_to_read_pipeline {events : List Event}
    (hok : StepsMeet World.step NoOverflow boot events) :
    let w := run World.step boot events
    w.drained ++ w.kb.waiting = w.scancodes.filterMap Keyboard.asciiOf ∧
    w.taken.map Prod.snd ++ w.tty.unread = (cooked w.drained).done.flatten ∧
    (∀ i c, w.calls[i]? = some c → c.buf = bytesOf w.taken i ∧ c.buf.length ≤ c.size ∧
      0x0A#8 ∉ c.buf.dropLast) ∧
    ((w.taken.map Prod.fst).Pairwise (· ≤ ·) →
      (w.calls.map Call.buf).flatten ++ w.tty.unread = (cooked w.drained).done.flatten) := by
  intro w
  have h : Pipeline w := run_invariant Pipeline (fun _ _ hp hno => hp.step hno) pipeline_boot hok
  refine ⟨h.keys, h.edits.text, fun i c hi => ?_, fun hturn => ?_⟩
  · have hcall := h.calls i c hi
    exact ⟨hcall.bytes, hcall.size, hcall.last⟩
  · rw [h.calls_eq, flatten_bytesOf hturn h.known]
    exact h.edits.text

/-- The keys a, b, backspace and Enter, read in two calls. -/
def typing : List Event :=
  [.keyboardIrq 0x1E#8, .keyboardIrq 0x30#8, .poll, .keyboardIrq 0x0E#8, .read false 1,
   .keyboardIrq 0x1C#8, .loop 0, .poll, .loop 0, .loop 0, .read false 10, .loop 1]

theorem keyboard_to_read_pipeline_typing : StepsMeet World.step NoOverflow boot typing ∧
    (run World.step boot typing).calls.map Call.buf = [[0x61#8], [0x0A#8]] ∧
    (run World.step boot typing).taken.map Prod.snd ++ (run World.step boot typing).tty.unread =
      (cooked (run World.step boot typing).drained).done.flatten := by
  have hok : StepsMeet World.step NoOverflow boot typing := by decide +kernel
  exact ⟨hok, by decide +kernel, (keyboard_to_read_pipeline hok).2.1⟩

end World

end Tty
