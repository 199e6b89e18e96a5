import NamelessOS.ByteOrder

/-!
# The text console

`vga_putchar` with its scrolling, and the page of unlimited length on which the same characters
are placed: the screen is a window on the page.  The character generator has no control
characters beyond LF, CR and TAB, so a backspace is a glyph like any other.
-/

open Function (update)

/-- The text buffer and the cursor, and the number of scrolls so far, which the code does not
keep. -/
structure Vga where
  buf : Nat → U16
  col : Nat
  row : Nat
  scrolls : Nat

namespace Vga

def vgaCols : Nat := 80
def vgaRows : Nat := 25

/-- A character with the default attribute. -/
def cell (c : U8) : U16 := 0x0700#16 ||| c.setWidth 16

def blank : U16 := cell 0x20#8

/-- A loop that stores one value from this index on. -/
def fill (buf : Nat → U16) (start n : Nat) : Nat → U16 :=
  (List.range n).foldl (fun b i => update b (start + i) blank) buf

/-- `vga_clear` -/
def vgaClear (v : Vga) : Vga :=
  { buf := fill v.buf 0 (vgaCols * vgaRows), col := 0, row := 0, scrolls := 0 }

/-- The first loops of `vga_scroll`, in the order of the stores. -/
def moveUp (buf : Nat → U16) (n : Nat) : Nat → U16 :=
  (List.range n).foldl (fun b i => update b i (b (i + vgaCols))) buf

/-- `vga_scroll` -/
def vgaScroll (v : Vga) : Vga where
  buf := fill (moveUp v.buf ((vgaRows - 1) * vgaCols)) ((vgaRows - 1) * vgaCols) vgaCols
  col := v.col
  row := vgaRows - 1
  scrolls := v.scrolls + 1

/-- Where the cursor goes for a character: column, and rows down. -/
def advance (c : U8) (col : Nat) : Nat × Nat :=
  if c = 0x0A#8 then (0, 1)
  else if c = 0x0D#8 then (0, 0)
  else
    let col := if c = 0x09#8 then (col + 8) / 8 * 8 else col + 1
    if vgaCols ≤ col then (0, 1) else (col, 0)

/-- The characters that are stored. -/
def isGlyph (c : U8) : Bool := c ≠ 0x0A#8 ∧ c ≠ 0x0D#8 ∧ c ≠ 0x09#8

/-- `vga_putchar`; `none` for a store outside the buffer. -/
def vgaPutchar (v : Vga) (c : U8) : Option Vga :=
  if isGlyph c ∧ vgaCols * vgaRows ≤ v.row * vgaCols + v.col then none
  else
    let buf := if isGlyph c then update v.buf (v.row * vgaCols + v.col) (cell c) else v.buf
    let v := { v with buf := buf, col := (advance c v.col).1, row := v.row + (advance c v.col).2 }
    some (if vgaRows ≤ v.row then vgaScroll v else v)

/-- `vga_write`, for the characters before the NUL. -/
def vgaWrite (v : Vga) : List U8 → Option Vga
  | [] => some v
  | c :: s => (vgaPutchar v c).bind (fun v => vgaWrite v s)

/-! ## The page -/

/-- A page of 80 columns and its cursor. -/
structure Page where
  cells : Nat → Nat → U16
  col : Nat
  row : Nat

/-- A character on the page. -/
def Page.put (p : Page) (c : U8) : Page where
  cells := if isGlyph c then update p.cells p.row (update (p.cells p.row) p.col (cell c)) else p.cells
  col := (advance c p.col).1
  row := p.row + (advance c p.col).2

/-- The empty page. -/
def Page.empty : Page := ⟨fun _ _ => blank, 0, 0⟩

/-- The buffer holds the 25 rows of the page from row `scrolls` on, and the page is empty below
the buffer and below the cursor, which may be in the row behind the buffer. -/
structure Placed (v : Vga) (p : Page) : Prop where
  col : v.col = p.col
  row : v.scrolls + v.row = p.row
  col_lt : v.col < vgaCols
  row_le : v.row ≤ vgaRows
  shows : ∀ r < vgaRows, ∀ c < vgaCols, v.buf (r * vgaCols + c) = p.cells (v.scrolls + r) c
  below : ∀ r, v.scrolls + vgaRows ≤ r ∨ p.row < r → ∀ c, p.cells r c = blank

/-- The screen is a window on the page. -/
def Window (v : Vga) (p : Page) : Prop := Placed v p ∧ v.row < vgaRows

theorem fill_apply (buf : Nat → U16) (start n i : Nat) :
    fill buf start n i = if start ≤ i ∧ i < start + n then blank else buf i := by
  induction n with
  | zero => simp [fill]
  | succ n ih =>
    rw [fill, List.range_succ, List.foldl_append, List.foldl_cons, List.foldl_nil, ← fill,
      Function.update_apply, ih]
    split_ifs <;> grind

theorem moveUp_apply (buf : Nat → U16) (n i : Nat) :
    moveUp buf n i = if i < n then buf (i + vgaCols) else buf i := by
  induction n generalizing i with
  | zero => simp [moveUp]
  | succ n ih =>
    have hcols : 0 < vgaCols := by decide
    rw [moveUp, List.range_succ, List.foldl_append, List.foldl_cons, List.foldl_nil, ← moveUp,
      Function.update_apply,
      ih, ih]
    split_ifs with h <;> first | rfl | omega | rw [h]

theorem vgaScroll_row (v : Vga) {r c : Nat} (hr : r < vgaRows) (hc : c < vgaCols) :
    (vgaScroll v).buf (r * vgaCols + c) =
      if r + 1 < vgaRows then v.buf ((r + 1) * vgaCols + c) else blank := by
  show fill _ _ _ _ = _
  rw [fill_apply, moveUp_apply]
  simp only [vgaRows, vgaCols] at hr hc ⊢
  rw [show r * 80 + c + 80 = (r + 1) * 80 + c by omega]
  split_ifs <;> grind

theorem settle_outside (v : Vga) {i : Nat} (hi : vgaCols * vgaRows ≤ i) :
    (if vgaRows ≤ v.row then vgaScroll v else v).buf i = v.buf i := by
  split
  · show fill _ _ _ _ = _
    simp only [vgaRows, vgaCols] at hi
    rw [fill_apply, moveUp_apply, if_neg, if_neg] <;> simp only [vgaRows, vgaCols] <;> omega
  · rfl

theorem index_inj {r r' c c' : Nat} (hc : c < vgaCols) (hc' : c' < vgaCols) :
    r * vgaCols + c = r' * vgaCols + c' ↔ r = r' ∧ c = c' := by
  simp only [vgaCols] at hc hc' ⊢
  omega

/-! ## The simulation -/

theorem advance_bounds (c : U8) (col : Nat) : (advance c col).1 < vgaCols ∧ (advance c col).2 ≤ 1 := by
  have hcols : 0 < vgaCols := by decide
  unfold advance
  split_ifs <;> grind

variable {v : Vga} {p : Page}

/-- Scrolling brings the cursor back into the buffer. -/
theorem Placed.settle (h : Placed v p) : Window (if vgaRows ≤ v.row then vgaScroll v else v) p := by
  split
  · rename_i hge
    have hrow : v.row = vgaRows := Nat.le_antisymm h.row_le hge
    have hlast : vgaRows - 1 < vgaRows := by decide
    have hup : (vgaScroll v).scrolls = v.scrolls + 1 := rfl
    have hback : (vgaScroll v).row = vgaRows - 1 := rfl
    have hcursor := h.row
    refine ⟨⟨h.col, by omega, h.col_lt, by omega, fun r hr c hc => ?_,
      fun r hr => h.below r (by omega)⟩, by omega⟩
    rw [vgaScroll_row v hr hc, hup]
    split
    · rename_i hnext
      rw [h.shows _ hnext c hc, Nat.add_right_comm, Nat.add_assoc]
    · exact (h.below _ (.inl (by omega)) c).symm
  · rename_i hlt
    exact ⟨h, Nat.lt_of_not_le hlt⟩

/-- **A character** goes to the same place of the screen and of the page. -/
theorem Window.putchar (h : Window v p) (c : U8) : ∃ v', vgaPutchar v c = some v' ∧
    Window v' (p.put c) := by
  obtain ⟨hplaced, hrow⟩ := h
  obtain ⟨hcol, hdown⟩ := advance_bounds c p.col
  have hcol' := hplaced.col_lt
  have hinside : ¬ (isGlyph c ∧ vgaCols * vgaRows ≤ v.row * vgaCols + v.col) := by
    simp only [vgaRows, vgaCols] at hrow hcol' ⊢
    omega
  have hcursor := hplaced.row
  unfold vgaPutchar
  rw [if_neg hinside, hplaced.col]
  refine ⟨_, rfl, Placed.settle ⟨rfl, ?_, hcol, by dsimp only; omega, fun r hr d hd => ?_,
    fun r hr d => ?_⟩⟩
  · rw [← Nat.add_assoc, hcursor]
    rfl
  · have hshow := hplaced.shows r hr d hd
    unfold Page.put
    dsimp only
    split
    · have hplace : r * vgaCols + d = v.row * vgaCols + v.col ↔ r = v.row ∧ d = v.col :=
          index_inj hd hcol'
      simp only [← hplaced.col, Function.update_apply, hplace, hshow]
      grind
    · exact hshow
  · have hold : p.row < r := by
      have hput : (p.put c).row = p.row + (advance c p.col).2 := rfl
      dsimp only at hr
      omega
    unfold Page.put
    dsimp only
    split
    · rw [Function.update_of_ne (Nat.ne_of_gt hold)]
      exact hplaced.below r (.inr hold) d
    · exact hplaced.below r (.inr hold) d

theorem vgaPutchar_outside {v' : Vga} {c : U8} (h : vgaPutchar v c = some v') {i : Nat}
    (hi : vgaCols * vgaRows ≤ i) : v'.buf i = v.buf i := by
  unfold vgaPutchar at h
  split at h
  · simp at h
  · rename_i hinside
    obtain rfl := Option.some.inj h
    have hstore : (if isGlyph c then update v.buf (v.row * vgaCols + v.col) (cell c) else v.buf)
        i = v.buf i := by
      split
      · exact Function.update_of_ne (by grind) ..
      · rfl
    exact (settle_outside _ hi).trans hstore

theorem vgaWrite_outside {v' : Vga} {s : List U8} (h : vgaWrite v s = some v') {i : Nat}
    (hi : vgaCols * vgaRows ≤ i) : v'.buf i = v.buf i := by
  induction s generalizing v with
  | nil => exact Option.some.inj h ▸ rfl
  | cons c s ih =>
    obtain ⟨w, hput, hrest⟩ := Option.bind_eq_some_iff.mp h
    exact (ih hrest).trans (vgaPutchar_outside hput hi)

theorem Window.write (h : Window v p) (s : List U8) :
    ∃ v', vgaWrite v s = some v' ∧ Window v' (s.foldl Page.put p) := by
  induction s generalizing v p with
  | nil => exact ⟨v, rfl, h⟩
  | cons c s ih =>
    obtain ⟨v', hput, h'⟩ := h.putchar c
    rw [vgaWrite, hput]
    exact ih h'

/-- **The console is a window on an unbounded page**: after `vga_clear`, every string is written
without a store outside the buffer, the cursor stays inside, and the buffer shows the rows of the
page from the number of scrolls on. -/
theorem console_is_window (v : Vga) (s : List U8) :
    ∃ v', vgaWrite (vgaClear v) s = some v' ∧ Window v' (s.foldl Page.put Page.empty) ∧
      ∀ i, vgaCols * vgaRows ≤ i → v'.buf i = v.buf i := by
  have hcols : 0 < vgaCols := by decide
  have hrows : 0 < vgaRows := by decide
  have hclear : Window (vgaClear v) Page.empty := by
    refine ⟨⟨rfl, rfl, hcols, hrows.le, fun r hr c hc => ?_, fun _ _ _ => rfl⟩, hrows⟩
    have hinside : 0 ≤ r * vgaCols + c ∧ r * vgaCols + c < 0 + vgaCols * vgaRows := by
      simp only [vgaRows, vgaCols] at hr hc ⊢
      omega
    unfold vgaClear Page.empty
    dsimp only
    rw [fill_apply, if_pos hinside]
  obtain ⟨v', hwrite, hwindow⟩ := hclear.write s
  refine ⟨v', hwrite, hwindow, fun i hi => (vgaWrite_outside hwrite hi).trans ?_⟩
  unfold vgaClear
  dsimp only
  rw [fill_apply, if_neg (by omega)]

end Vga
