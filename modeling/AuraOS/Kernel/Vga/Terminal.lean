import AuraOS.Kernel.Vga.Screen
import Mathlib.Data.List.GetD

/-!
# The screen as a window on a terminal

A `Terminal` has an unbounded list of rows and a cursor that only moves down.  Without `vga_set_cursor`
the driver is such a terminal of which the last 25 rows are visible: `Shows t s` is kept by every
character (`Shows.put`) and by every call (`Faithful.call`), so it holds after all calls from `vga_init` on,
and no access leaves the screen (`runCalls_shows`).
-/

namespace AuraOS.Kernel.Vga

open AuraOS.Lib

/-! ### The terminal -/

/-- A character on the terminal, and its colours. -/
structure Cell where
  char : UInt8
  color : UInt8

/-- The cell as it is stored in the buffer. -/
def Cell.entry (x : Cell) : UInt16 := vgaMakeEntry x.char x.color

/-- A row of spaces; only the first 80 columns count. -/
def blank (color : UInt8) : ℕ → Cell := fun _ => ⟨32, color⟩

/-- The rows since the last clear, the row and the column of the cursor, and the current colours. -/
structure Terminal where
  rows : List (ℕ → Cell)
  row : ℕ
  col : ℕ
  color : UInt8

namespace Terminal

variable (t : Terminal)

/-- A terminal of blank rows. -/
def fresh (color : UInt8) : Terminal := ⟨List.replicate 25 (blank color), 0, 0, color⟩

/-- The cell in row `i` and column `c`. -/
def cell (i c : ℕ) : Cell := t.rows.getD i (blank 0) c

/-- The cell in row `r` of the window, which shows the last 25 rows. -/
def window (r c : ℕ) : Cell := t.cell (t.rows.length - 25 + r) c

/-- To the next row, which is a new one if the cursor is in the last. -/
def lineFeed : Terminal :=
  { t with
    row := t.row + 1
    col := 0
    rows := if t.row + 1 < t.rows.length then t.rows else t.rows ++ [blank t.color] }

/-- To column `col`, or to the next row if there is no such column. -/
def advance (col : ℕ) : Terminal := if col < 80 then { t with col := col } else t.lineFeed

/-- The cell under the cursor is overwritten. -/
def setCell (x : Cell) : Terminal :=
  { t with rows := t.rows.modify t.row fun line => Function.update line t.col x }

/-- A character is put: newline, carriage return, tab, backspace, and all others. -/
def put (c : UInt8) : Terminal :=
  if c = 10 then t.lineFeed
  else if c = 13 then { t with col := 0 }
  else if c = 9 then t.advance (t.col / 8 * 8 + 8)
  else if c = 8 then
    if t.col = 0 then t else { t with col := t.col - 1 }.setCell ⟨32, t.color⟩
  else (t.setCell ⟨c, t.color⟩).advance (t.col + 1)

/-- What a call does to the terminal. -/
def call : Call → Terminal
  | .putchar c => t.put c
  | .print str => (CStr.text (str.getD [])).foldl put t
  | .clear => fresh t.color
  | .setColor fg bg => { t with color := vgaMakeColor fg bg }
  | .setCursor _ _ => t
  | .setSerialHook _ => t

/-- The calls one after the other. -/
def run (calls : List Call) : Terminal := calls.foldl call t

end Terminal

/-! ### The simulation -/

/-- The screen `s` shows the last 25 rows of `t`, and its cursor. -/
structure Shows (t : Terminal) (s : Screen) : Prop where
  height : 25 ≤ t.rows.length
  row : s.vgaRow.toNat + (t.rows.length - 25) = t.row
  row_lt : s.vgaRow.toNat < 25
  col : s.vgaCol.toNat = t.col
  col_lt : t.col < 80
  color : s.vgaColor = t.color
  cells : ∀ r < 25, ∀ c < 80, s.buffer (r * 80 + c) = (t.window r c).entry

section Cells

variable {t : Terminal} {i c : ℕ}

theorem cell_setCell (h : t.row < t.rows.length) (x : Cell) :
    (t.setCell x).cell i c = if i = t.row ∧ c = t.col then x else t.cell i c := by
  unfold Terminal.cell Terminal.setCell
  rw [List.getD_eq_getElem?_getD, List.getD_eq_getElem?_getD, List.getElem?_modify]
  by_cases hi : t.row = i
  · subst hi
    rw [List.getElem?_eq_getElem h]
    by_cases hc : c = t.col
    · simp [hc]
    · simp [hc, Function.update_of_ne]
  · simp [hi, Ne.symm hi]

end Cells

section Simulation

variable {t : Terminal} {s s' : Screen} {c : UInt8}

/-- Only the cells and the cursor count. -/
theorem Shows.adds (h : Shows t s) (h' : Adds s s') : Shows t s' := by
  obtain ⟨es, -, rfl⟩ := h'
  exact ⟨h.height, h.row, h.row_lt, h.col, h.col_lt, h.color, h.cells⟩

theorem Shows.row_lt_length (h : Shows t s) : t.row < t.rows.length := by
  have h1 := h.height
  have h2 := h.row
  have h3 := h.row_lt
  omega

theorem Shows.settled_eq (h : Shows t s) : settled s = s := by
  have := h.row_lt
  exact if_neg (by change ¬25 ≤ s.vgaRow.toNat; omega)

theorem Shows.setCol (h : Shows t s) {v : UInt8} (hv : v.toNat < 80) :
    Shows { t with col := v.toNat } { s with vgaCol := v } :=
  ⟨h.height, h.row, h.row_lt, rfl, hv, h.color, h.cells⟩

/-- **To the next row**, scrolling if it is a new one. -/
theorem Shows.lineFeed (h : Shows t s) :
    Shows t.lineFeed (settled { s with vgaCol := 0, vgaRow := s.vgaRow + 1 }) := by
  have hlen := h.height
  have hrow := h.row
  have hlt := h.row_lt
  have hsucc : (s.vgaRow + 1).toNat = s.vgaRow.toNat + 1 := by
    rw [UInt8.toNat_add]
    change (s.vgaRow.toNat + 1) % 256 = _
    omega
  by_cases hlast : s.vgaRow.toNat + 1 < 25
  · have hset : settled { s with vgaCol := 0, vgaRow := s.vgaRow + 1 } =
        { s with vgaCol := 0, vgaRow := s.vgaRow + 1 } := if_neg (by
      change ¬25 ≤ (s.vgaRow + 1).toNat
      omega)
    have hrows : t.lineFeed.rows = t.rows := if_pos (by omega)
    rw [hset]
    refine ⟨by rwa [hrows], ?_, ?_, rfl, (by decide : (0 : ℕ) < 80), h.color, fun r hr c hc => ?_⟩
    · rw [hrows]
      change (s.vgaRow + 1).toNat + _ = t.row + 1
      omega
    · change (s.vgaRow + 1).toNat < 25
      omega
    · rw [Terminal.window, Terminal.cell, hrows]
      exact h.cells r hr c hc
  · -- the new row is blank in the colours of now
    have hset : settled { s with vgaCol := 0, vgaRow := s.vgaRow + 1 } =
        scrolled { s with vgaCol := 0, vgaRow := s.vgaRow + 1 } := if_pos (by
      change 25 ≤ (s.vgaRow + 1).toNat
      omega)
    have hrows : t.lineFeed.rows = t.rows ++ [blank t.color] := if_neg (by omega)
    have hlength : t.lineFeed.rows.length = t.rows.length + 1 := by
      rw [hrows, List.length_append]
      rfl
    rw [hset]
    refine ⟨by omega, ?_, (by decide : (24 : UInt8).toNat < 25), rfl, (by decide : (0 : ℕ) < 80), h.color,
      fun r hr c hc => ?_⟩
    · rw [hlength]
      change 24 + _ = t.row + 1
      omega
    · rw [Terminal.window, hlength, Terminal.cell, hrows, buffer_scrolled]
      by_cases hr' : r < 24
      · rw [if_pos (by omega), List.getD_append _ _ _ _ (by omega)]
        have hcell := h.cells (r + 1) (by omega) c hc
        rw [show (r + 1) * 80 + c = r * 80 + c + 80 by omega] at hcell
        rw [show t.rows.length + 1 - 25 + r = t.rows.length - 25 + (r + 1) by omega]
        exact hcell
      · rw [if_neg (by omega), if_pos (by omega), List.getD_append_right _ _ _ _ (by omega),
          show t.rows.length + 1 - 25 + r - t.rows.length = 0 by omega]
        change vgaMakeEntry 32 s.vgaColor = vgaMakeEntry 32 t.color
        rw [h.color]

/-- To a column that may be beyond the edge. -/
theorem Shows.advance (h : Shows t s) (v : UInt8) :
    Shows (t.advance v.toNat) (settled (wrapLine { s with vgaCol := v })) := by
  unfold Terminal.advance wrapLine
  by_cases hv : v.toNat < 80
  · have hkeep := h.setCol hv
    rw [if_pos hv, if_neg (by change ¬80 ≤ v.toNat; omega), hkeep.settled_eq]
    exact hkeep
  · rw [if_neg hv, if_pos (by change 80 ≤ v.toNat; omega)]
    exact h.lineFeed

theorem Shows.setCell (h : Shows t s) (x : Cell) :
    Shows (t.setCell x) (s.store s.pos x.entry) := by
  have hlength : (t.setCell x).rows.length = t.rows.length := List.length_modify _ _ _
  refine ⟨by rw [hlength]; exact h.height, by rw [hlength]; exact h.row, h.row_lt, h.col, h.col_lt,
    h.color, fun r hr c hc => ?_⟩
  have hlt := h.row_lt
  have hcol := h.col
  have hcol' := h.col_lt
  have hrow := h.row
  have hpos : s.pos = s.vgaRow.toNat * 80 + s.vgaCol.toNat := rfl
  rw [Terminal.window, hlength, cell_setCell h.row_lt_length]
  change Function.update s.buffer s.pos x.entry (r * 80 + c) = _
  by_cases hat : r * 80 + c = s.pos
  · rw [hat, Function.update_self, if_pos ⟨by omega, by omega⟩]
  · rw [Function.update_of_ne hat, if_neg (by omega)]
    exact h.cells r hr c hc

/-- **Every character** does the same on the terminal and on the screen. -/
theorem Shows.put (h : Shows t s) (c : UInt8) : Shows (t.put c) (vgaPutchar c s) := by
  refine Shows.adds ?_ (adds_vgaPutchar c s)
  have hcol := h.col
  have hcol' := h.col_lt
  rcases control_cases c with rfl | rfl | rfl | rfl | hc
  · exact h.lineFeed
  · have hkeep := h.setCol (v := 0) (by decide)
    rw [place_return, hkeep.settled_eq]
    exact hkeep
  · have htab : ((s.vgaCol + 8) &&& ~~~7).toNat = t.col / 8 * 8 + 8 := by
      rw [UInt8.toNat_and, UInt8.toNat_add]
      refine (and_mask _ 3 5).trans ?_
      change (s.vgaCol.toNat + 8) % 256 / 8 % 32 * 8 = _
      omega
    have hadv := h.advance ((s.vgaCol + 8) &&& ~~~7)
    rw [htab] at hadv
    exact hadv
  · by_cases h0 : s.vgaCol = 0
    · have ht : t.col = 0 := by
        rw [← hcol, h0]
        rfl
      rw [place_backspace_zero h0, h.settled_eq]
      change Shows (if t.col = 0 then t else _) s
      rw [if_pos ht]
      exact h
    · obtain ⟨hlt, hsub⟩ := toNat_pred h0
      rw [hcol] at hlt hsub
      have hback := h.setCol (v := s.vgaCol - 1) (by omega)
      rw [hsub] at hback
      have hset := hback.setCell ⟨32, t.color⟩
      rw [pos_left h0, Cell.entry, ← h.color, ← place_backspace h0] at hset
      rw [hset.settled_eq]
      change Shows (if t.col = 0 then t else _) _
      rw [if_neg (by omega), ← h.color]
      exact hset
  · have hput : t.put c = (t.setCell ⟨c, t.color⟩).advance (t.col + 1) := by
      unfold Control at hc
      simp only [not_or] at hc
      simp [Terminal.put, hc]
    have hsucc : (s.vgaCol + 1).toNat = t.col + 1 := by
      rw [UInt8.toNat_add]
      change (s.vgaCol.toNat + 1) % 256 = _
      omega
    have hset := (h.setCell ⟨c, t.color⟩).advance (s.vgaCol + 1)
    rw [hsucc, Cell.entry, ← h.color] at hset
    rw [hput, place_of_not_control hc, ← h.color]
    exact hset

/-- The cell that a character touches is on the screen. -/
theorem Shows.touched_lt (h : Shows t s) {i : ℕ} (hi : i ∈ touched c s) : i < 2000 := by
  have hrow := h.row_lt
  have hcol := h.col
  have hcol' := h.col_lt
  have hpos : s.pos = s.vgaRow.toNat * 80 + s.vgaCol.toNat := rfl
  unfold touched at hi
  split at hi
  · cases hi
  · split at hi
    · split at hi
      · cases hi
        omega
      · cases hi
    · cases hi
      omega

/-- A clear starts a new terminal. -/
theorem shows_vgaClear (s : Screen) : Shows (Terminal.fresh s.vgaColor) (vgaClear s) := by
  refine Shows.adds ?_ (adds_vgaClear s)
  have hlength : (Terminal.fresh s.vgaColor).rows.length = 25 := List.length_replicate
  refine ⟨by omega, by rw [hlength]; rfl, (by decide : (0 : ℕ) < 25), rfl, (by decide : (0 : ℕ) < 80), rfl,
    fun r hr c hc => ?_⟩
  have hrow : (List.replicate 25 (blank s.vgaColor)).getD (25 - 25 + r) (blank 0) = blank s.vgaColor := by
    rw [List.getD_eq_getElem _ _ (by simpa using hr), List.getElem_replicate]
  rw [Terminal.window, hlength, buffer_cleared, if_pos (by omega)]
  change _ = ((List.replicate 25 (blank s.vgaColor)).getD (25 - 25 + r) (blank 0) c).entry
  rw [hrow]
  rfl

/-- What every call keeps: the window, and no access so far outside the screen. -/
def Faithful (t : Terminal) (s : Screen) : Prop := Shows t s ∧ ∀ e ∈ s.effects, e.Inside

theorem Faithful.put (h : Faithful t s) (c : UInt8) : Faithful (t.put c) (vgaPutchar c s) := by
  refine ⟨h.1.put c, ?_⟩
  rw [forall_effects_vgaPutchar (P := Effect.Inside) (fun _ he => he) fun _ _ => Iff.rfl]
  exact ⟨h.2, fun i hi => h.1.touched_lt hi⟩

theorem Faithful.emit (h : Faithful t s) (cs : List UInt8) : Faithful (cs.foldl Terminal.put t) (emit cs s) := by
  induction cs generalizing t s with
  | nil => exact h
  | cons c cs ih => exact ih (h.put c)

theorem faithful_vgaClear (h : ∀ e ∈ s.effects, e.Inside) :
    Faithful (Terminal.fresh s.vgaColor) (vgaClear s) := by
  refine ⟨shows_vgaClear s, ?_⟩
  rw [(adds_vgaClear s).forall_effects fun _ he => he]
  exact h

/-- **One call** but for `vga_set_cursor`. -/
theorem Faithful.call (h : Faithful t s) {a : Call} (ha : ∀ row col, a ≠ .setCursor row col) :
    Faithful (t.call a) (a.apply s) := by
  obtain ⟨hs, he⟩ := h
  cases a with
  | putchar c => exact Faithful.put ⟨hs, he⟩ c
  | print str =>
    change Faithful _ (vgaPrint str s)
    rw [vgaPrint_eq]
    exact Faithful.emit ⟨hs, he⟩ _
  | clear =>
    change Faithful (Terminal.fresh t.color) (vgaClear s)
    rw [← hs.color]
    exact faithful_vgaClear he
  | setColor fg bg => exact ⟨⟨hs.height, hs.row, hs.row_lt, hs.col, hs.col_lt, rfl, hs.cells⟩, he⟩
  | setCursor row col => exact absurd rfl (ha row col)
  | setSerialHook set => exact ⟨⟨hs.height, hs.row, hs.row_lt, hs.col, hs.col_lt, hs.color, hs.cells⟩, he⟩

theorem Faithful.run (h : Faithful t s) {calls : List Call} (hc : ∀ row col, Call.setCursor row col ∉ calls) :
    Faithful (t.run calls) (runCalls calls s) := by
  induction calls generalizing t s with
  | nil => exact h
  | cons a calls ih =>
    have ha : ∀ row col, a ≠ .setCursor row col := fun row col e => hc row col (e ▸ List.mem_cons_self)
    exact ih (h.call ha) fun row col hmem => hc row col (List.mem_cons_of_mem a hmem)

end Simulation

/-- The terminal after `vga_init`. -/
def Terminal.start : Terminal := fresh (vgaMakeColor vgaColorLightGreen vgaColorBlack)

theorem faithful_start (s₀ : Screen) : Faithful Terminal.start (start s₀) :=
  faithful_vgaClear (s := { s₀ with
    effects := [], vgaRow := 0, vgaCol := 0, vgaColor := vgaMakeColor vgaColorLightGreen vgaColorBlack })
    (by simp)

/-- **The screen is a window on the terminal**: after any calls without `vga_set_cursor`, the cursor is on
the screen, no access has been outside of it, and it shows the last 25 rows of the terminal that the same
calls have written. -/
theorem runCalls_shows (s₀ : Screen) {calls : List Call} (hc : ∀ row col, Call.setCursor row col ∉ calls) :
    (runCalls calls (start s₀)).vgaRow.toNat < 25 ∧ (runCalls calls (start s₀)).vgaCol.toNat < 80 ∧
      (∀ e ∈ (runCalls calls (start s₀)).effects, e.Inside) ∧
      (∀ r < 25, ∀ c < 80, (runCalls calls (start s₀)).buffer (r * 80 + c) =
        ((Terminal.start.run calls).window r c).entry) ∧
      (runCalls calls (start s₀)).vgaCol.toNat = (Terminal.start.run calls).col ∧
      (runCalls calls (start s₀)).vgaRow.toNat + ((Terminal.start.run calls).rows.length - 25) =
        (Terminal.start.run calls).row := by
  obtain ⟨hs, he⟩ := (faithful_start s₀).run hc
  exact ⟨hs.row_lt, hs.col ▸ hs.col_lt, he, hs.cells, hs.col, hs.row⟩

/-- A line feed, a tab, an `A` and 71 times `B` up to the end of the line, a `C` on the next one, and line
feeds until the first row is gone. -/
def scrollCalls : List Call :=
  [.print (some ([10, 9, 65] ++ List.replicate 71 66)), .putchar 67, .print (some (List.replicate 23 10))]

theorem runCalls_shows_scroll :
    (runCalls scrollCalls (start zeroVga)).buffer (0 * 80 + 8) = vgaMakeEntry 65 10 ∧
      (runCalls scrollCalls (start zeroVga)).buffer (0 * 80 + 79) = vgaMakeEntry 66 10 ∧
      (runCalls scrollCalls (start zeroVga)).buffer (1 * 80 + 0) = vgaMakeEntry 67 10 ∧
      (runCalls scrollCalls (start zeroVga)).vgaRow.toNat = 24 := by
  have hcur : ∀ row col, Call.setCursor row col ∉ scrollCalls := by simp [scrollCalls]
  obtain ⟨-, -, -, hcells, -, hrow⟩ := runCalls_shows zeroVga hcur
  have hA : ((Terminal.start.run scrollCalls).window 0 8).entry = vgaMakeEntry 65 10 := by decide +kernel
  have hB : ((Terminal.start.run scrollCalls).window 0 79).entry = vgaMakeEntry 66 10 := by decide +kernel
  have hC : ((Terminal.start.run scrollCalls).window 1 0).entry = vgaMakeEntry 67 10 := by decide +kernel
  have hend : (Terminal.start.run scrollCalls).rows.length = 26 ∧ (Terminal.start.run scrollCalls).row = 25 := by
    decide +kernel
  refine ⟨(hcells 0 (by omega) 8 (by omega)).trans hA, (hcells 0 (by omega) 79 (by omega)).trans hB,
    (hcells 1 (by omega) 0 (by omega)).trans hC, ?_⟩
  rw [hend.1, hend.2] at hrow
  omega

end AuraOS.Kernel.Vga
