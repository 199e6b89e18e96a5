import NamelessOS.ByteOrder

/-!
# Reading a request in `httpd`

`handle_client` looks for the end of the headers after every chunk.  One bound serves both
terminators, so an empty line that is two LFs is seen only with two more bytes behind it.
-/

namespace Httpd

open List

/-- `RBUF_SIZE` -/
def rbufSize : Nat := 512

/-- The search loop, `j` from the start of the list: four bytes are left as long as `j + 3 < n`. -/
def found : List U8 → Bool
  | a :: b :: c :: d :: rest =>
    if a = 13#8 ∧ b = 10#8 ∧ c = 13#8 ∧ d = 10#8 then true
    else if a = 10#8 ∧ b = 10#8 then true
    else found (b :: c :: d :: rest)
  | _ => false

/-- The read loop with the bytes that `recv` delivers: what was received when it ends, and `none`
as long as it needs another chunk, or for `goto done`. -/
def readLoop (rbuf : List U8) : List (List U8) → Option (List U8)
  | [] => if rbuf.length < rbufSize - 1 then none else some rbuf
  | got :: rest =>
    if rbuf.length < rbufSize - 1 then
      if got.length = 0 then none
      else if found (rbuf ++ got) then some (rbuf ++ got) else readLoop (rbuf ++ got) rest
    else some rbuf

/-- The end of the headers: an empty line, with or without CRs. -/
def HeadersEnd (xs : List U8) : Prop := [13#8, 10#8, 13#8, 10#8] <:+: xs ∨ [10#8, 10#8] <:+: xs

instance (xs : List U8) : Decidable (HeadersEnd xs) := inferInstanceAs (Decidable (_ ∨ _))

/-- An end of the headers at which the search looks. -/
def EndSeen (xs : List U8) : Prop :=
  [13#8, 10#8, 13#8, 10#8] <:+: xs ∨ [10#8, 10#8] <:+: xs.take (xs.length - 2)

/-- **The search** finds what lies before the bound. -/
theorem found_iff (xs : List U8) : found xs = true ↔ EndSeen xs := by
  fun_induction found xs with
  | case1 a b c d rest hcrlf =>
    obtain ⟨rfl, rfl, rfl, rfl⟩ := hcrlf
    exact iff_of_true rfl (.inl ⟨[], rest, rfl⟩)
  | case2 a b c d rest _ hlf =>
    obtain ⟨rfl, rfl⟩ := hlf
    exact iff_of_true rfl (.inr ⟨[], (c :: d :: rest).take rest.length, by simp⟩)
  | case3 a b c d rest hcrlf hlf ih =>
    have htake : (a :: b :: c :: d :: rest).take ((a :: b :: c :: d :: rest).length - 2) =
        a :: (b :: c :: d :: rest).take ((b :: c :: d :: rest).length - 2) := by simp
    have hfirst : ¬ [13#8, 10#8, 13#8, 10#8] <+: a :: b :: c :: d :: rest := by
      simpa [cons_prefix_cons, eq_comm] using hcrlf
    have hpair : ¬ [10#8, 10#8] <+: a :: (b :: c :: d :: rest).take ((b :: c :: d :: rest).length - 2) := by
      simpa [cons_prefix_cons, eq_comm] using hlf
    rw [ih, EndSeen, EndSeen, htake]
    exact (or_congr (infix_cons_iff.trans (or_iff_right hfirst))
      (infix_cons_iff.trans (or_iff_right hpair))).symm
  | case4 xs hshort =>
    have hlen : xs.length < 4 := by
      rcases xs with _ | ⟨a, _ | ⟨b, _ | ⟨c, _ | ⟨d, rest⟩⟩⟩⟩
      · decide
      · simp
      · simp
      · simp
      · exact (hshort a b c d rest rfl).elim
    refine iff_of_false Bool.false_ne_true ?_
    rintro (h | h)
    · exact Nat.not_le.mpr hlen h.length_le
    · have htwo := h.length_le
      rw [length_take, length_cons, length_singleton] at htwo
      omega

theorem EndSeen.headersEnd {xs : List U8} (h : EndSeen xs) : HeadersEnd xs :=
  h.imp_right (fun hlf => hlf.trans ( take_prefix _ _).isInfix)

/-- A chunk more for a loop that still reads. -/
theorem readLoop_append {rbuf last : List U8} {chunks : List (List U8)}
    (hchunks : ∀ c ∈ chunks ++ [last], c ≠ [])
    (htotal : (rbuf ++ (chunks ++ [last]).flatten).length < rbufSize - 1)
    (hreads : readLoop rbuf chunks = none) :
    (readLoop rbuf (chunks ++ [last])).isSome = found (rbuf ++ (chunks ++ [last]).flatten) := by
  induction chunks generalizing rbuf with
  | nil =>
    have hlast : last.length ≠ 0 := fun h => hchunks last (by simp) (length_eq_zero_iff.mp h)
    have hroom : rbuf.length < rbufSize - 1 ∧ (rbuf ++ last).length < rbufSize - 1 := by grind
    simp only [nil_append, readLoop, if_pos hroom.1, if_neg hlast, if_pos hroom.2]
    grind
  | cons got chunks ih =>
    have hgot : got.length ≠ 0 := fun h => hchunks got (by simp) (length_eq_zero_iff.mp h)
    have hroom : rbuf.length < rbufSize - 1 := by grind
    rw [readLoop, if_pos hroom, if_neg hgot] at hreads
    rw [cons_append, readLoop, if_pos hroom, if_neg hgot]
    split at hreads
    · cases hreads
    · rename_i hmiss
      rw [if_neg hmiss, ih (fun c hc => hchunks c (mem_cons_of_mem _ hc)) (by grind) hreads]
      simp

/-- **The read loop stops at the end of the headers** exactly if the last terminator it received
lies before the bound of the search. -/
theorem stops_at_end_iff {chunks : List (List U8)} {last : List U8}
    (hchunks : ∀ c ∈ chunks ++ [last], c ≠ []) (htotal : (chunks ++ [last]).flatten.length < 511)
    (hreads : readLoop [] chunks = none) :
    ((readLoop [] (chunks ++ [last])).isSome = true ↔ HeadersEnd (chunks ++ [last]).flatten) ↔
      (HeadersEnd (chunks ++ [last]).flatten → EndSeen (chunks ++ [last]).flatten) := by
  have hstops := readLoop_append hchunks htotal hreads
  rw [nil_append] at hstops
  rw [hstops, found_iff]
  exact ⟨fun h => h.mpr, fun h => ⟨EndSeen.headersEnd, h⟩⟩

/-- A request with CRs in two chunks. -/
theorem stops_at_end_crlf : readLoop [] [[0x47, 13, 10], [13, 10]] = some [0x47, 13, 10, 13, 10] ∧
    ((readLoop [] ([[0x47, 13, 10]] ++ [[13, 10]])).isSome = true ↔
      HeadersEnd ([[0x47, 13, 10]] ++ [[13, 10]]).flatten) :=
  ⟨by decide, (stops_at_end_iff (by decide) (by decide) (by decide)).mpr (fun _ => .inl ⟨[0x47], [], rfl⟩)⟩

/-- A request that ends in two LFs is complete, and the loop waits for more. -/
theorem waits_after_empty_line :
    HeadersEnd [0x47, 10, 10] ∧ readLoop [] [[0x47, 10, 10]] = none := by
  decide

end Httpd
