import AuraOS.Kernel.Strings
import AuraOS.Kernel.Vga.Defs

/-!
# What the driver does to the screen

Every function of the driver is an update of the cells and of the cursor, and some effects.  `Adds s t`
says that `t` is `s` but for effects that stay inside the 2000 cells of the screen; `adds_vgaScroll`,
`adds_vgaClear` and `adds_vgaPutchar` give the functions in this form.  Only `place` can write outside, at
the index `touched`.
-/

namespace AuraOS.Kernel.Vga

open AuraOS.Lib

/-- The access is to a cell of the screen. -/
def Effect.Inside : Effect → Prop
  | read i => i < 2000
  | write i _ => i < 2000
  | _ => True

/-- `t` is `s` after some more effects, none of them outside the screen. -/
def Adds (s t : Screen) : Prop := ∃ es : List Effect, (∀ e ∈ es, e.Inside) ∧ t = s.add es

/-- The state with other cells. -/
def Screen.redraw (b : ℕ → UInt16) (s : Screen) : Screen := { s with buffer := b }

/-- The screen one row up, with a blank row at the bottom, and the cursor in the last row. -/
def scrolled (s : Screen) : Screen :=
  { s with
    vgaRow := 24
    buffer := fun i =>
      if i < 1920 then s.buffer (i + 80) else if i < 2000 then vgaMakeEntry 32 s.vgaColor else s.buffer i }

/-- A blank screen. -/
def cleared (s : Screen) : Screen :=
  { s with
    vgaRow := 0
    vgaCol := 0
    buffer := fun i => if i < 2000 then vgaMakeEntry 32 s.vgaColor else s.buffer i }

/-- The screen, scrolled if the cursor is below it. -/
def settled (s : Screen) : Screen := if s.vgaRow.toNat ≥ vgaHeight then scrolled s else s

/-- The index that `place` writes to. -/
def touched (c : UInt8) (s : Screen) : Option ℕ :=
  if c = 10 ∨ c = 13 ∨ c = 9 then none
  else if c = 8 then if s.vgaCol > 0 then some (s.pos - 1) else none
  else some s.pos

section Adds

variable {s t u : Screen} {es : List Effect} {i j : ℕ} {v : UInt16}

@[simp] theorem buffer_add : (s.add es).buffer = s.buffer := rfl
@[simp] theorem vgaRow_add : (s.add es).vgaRow = s.vgaRow := rfl
@[simp] theorem vgaCol_add : (s.add es).vgaCol = s.vgaCol := rfl
@[simp] theorem vgaColor_add : (s.add es).vgaColor = s.vgaColor := rfl
@[simp] theorem gSerialHook_add : (s.add es).gSerialHook = s.gSerialHook := rfl
@[simp] theorem effects_add : (s.add es).effects = s.effects ++ es := rfl
@[simp] theorem buffer_redraw (b : ℕ → UInt16) : (s.redraw b).buffer = b := rfl
@[simp] theorem redraw_buffer : s.redraw s.buffer = s := rfl

theorem buffer_scrolled : (scrolled s).buffer i =
    if i < 1920 then s.buffer (i + 80) else if i < 2000 then vgaMakeEntry 32 s.vgaColor else s.buffer i := rfl

theorem buffer_cleared : (cleared s).buffer i =
    if i < 2000 then vgaMakeEntry 32 s.vgaColor else s.buffer i := rfl

@[simp] theorem pos_add : (s.add es).pos = s.pos := rfl

theorem add_add (es' : List Effect) : (s.add es).add es' = s.add (es ++ es') := by simp [Screen.add]

theorem Adds.refl (s : Screen) : Adds s s := ⟨[], by simp, by simp [Screen.add]⟩

theorem Adds.trans (h : Adds s t) (h' : Adds t u) : Adds s u := by
  obtain ⟨es, hes, rfl⟩ := h
  obtain ⟨es', hes', rfl⟩ := h'
  refine ⟨es ++ es', fun e he => ?_, add_add es'⟩
  rcases List.mem_append.1 he with he | he
  · exact hes e he
  · exact hes' e he

theorem adds_add (h : ∀ e ∈ es, e.Inside) : Adds s (s.add es) := ⟨es, h, rfl⟩

theorem adds_vgaUpdateCursor (s : Screen) : Adds s (vgaUpdateCursor s) := adds_add (by simp [Effect.Inside])

/-- What holds of every access inside the screen is not disturbed. -/
theorem Adds.forall_effects {P : Effect → Prop} (h : Adds s t) (hP : ∀ e, e.Inside → P e) :
    (∀ e ∈ t.effects, P e) ↔ ∀ e ∈ s.effects, P e := by
  obtain ⟨es, hes, rfl⟩ := h
  constructor
  · exact fun h e he => h e (List.mem_append_left _ he)
  · intro h e he
    rcases List.mem_append.1 he with he | he
    · exact h e he
    · exact hP e (hes e he)

theorem Adds.vgaColor (h : Adds s t) : t.vgaColor = s.vgaColor := by
  obtain ⟨es, -, rfl⟩ := h
  rfl

theorem Adds.buffer (h : Adds s t) : t.buffer = s.buffer := by
  obtain ⟨es, -, rfl⟩ := h
  rfl

theorem Adds.redraw_trans {b b' : ℕ → UInt16} (h : Adds (s.redraw b) t) (h' : Adds (t.redraw b') u) :
    Adds (s.redraw b') u := by
  obtain ⟨es, hes, rfl⟩ := h
  exact Adds.trans ⟨es, hes, rfl⟩ h'

theorem Adds.store {b b' : ℕ → UInt16} (h : Adds (s.redraw b) t) (hi : i < 2000)
    (hb : b' = Function.update b i v) : Adds (s.redraw b') (t.store i v) := by
  obtain ⟨es, hes, rfl⟩ := h
  subst hb
  refine Adds.trans ⟨es, hes, rfl⟩ (@adds_add _ [.write i v] ?_)
  simpa [Effect.Inside] using hi

theorem Adds.copy {b b' : ℕ → UInt16} (h : Adds (s.redraw b) t) (hi : i < 2000) (hj : j < 2000)
    (hb : b' = Function.update b i (b j)) : Adds (s.redraw b') (t.copy i j) := by
  have hread : Adds (s.redraw b) (t.add [.read j]) :=
    h.trans (adds_add (by simpa [Effect.Inside] using hj))
  obtain ⟨es, -, rfl⟩ := h
  exact hread.store hi hb

end Adds

/-! ### The loops -/

section Loops

variable (s : Screen)

/-- The cells with `n` of them, from `off` on, set to `v`. -/
def filled (off n : ℕ) (v : UInt16) (b : ℕ → UInt16) : ℕ → UInt16 :=
  fun i => if off ≤ i ∧ i < off + n then v else b i

theorem filled_succ (off n : ℕ) (v : UInt16) (b : ℕ → UInt16) :
    filled off (n + 1) v b = Function.update (filled off n v b) (off + n) v := by
  funext i
  unfold filled
  by_cases hi : i = off + n
  · rw [hi, Function.update_self, if_pos ⟨by omega, by omega⟩]
  · rw [Function.update_of_ne hi]
    by_cases h : off ≤ i ∧ i < off + n
    · rw [if_pos h, if_pos ⟨h.1, by omega⟩]
    · rw [if_neg h, if_neg (by omega)]

@[simp] theorem filled_zero (off : ℕ) (v : UInt16) (b : ℕ → UInt16) : filled off 0 v b = b :=
  funext fun i => if_neg (by omega)

/-- The rows move up; before turn `k` the cells below `k` have been moved. -/
theorem adds_moveRows : Adds (s.redraw fun i => if i < 1920 then s.buffer (i + 80) else s.buffer i)
    (upTo 24 (fun row => upTo 80 fun col => Screen.copy (row * 80 + col) ((row + 1) * 80 + col)) s) := by
  refine upTo_grid (h := 24) (w := 80)
    (fun k t => Adds (s.redraw fun i => if i < k then s.buffer (i + 80) else s.buffer i) t)
    (by simpa using Adds.refl s) fun r hr c hc t ht => ?_
  refine ht.copy (by omega) (by omega) (funext fun i => ?_)
  by_cases hi : i = r * 80 + c
  · rw [hi, Function.update_self, if_pos (by omega), if_neg (by omega),
      show (r + 1) * 80 + c = r * 80 + c + 80 by omega]
  · rw [Function.update_of_ne hi]
    by_cases hlt : i < r * 80 + c
    · rw [if_pos hlt, if_pos (by omega)]
    · rw [if_neg hlt, if_neg (by omega)]

/-- A row of blank cells. -/
theorem adds_fillRow {off n : ℕ} (hn : off + n ≤ 2000) :
    Adds (s.redraw (filled off n (vgaMakeEntry 32 s.vgaColor) s.buffer))
      (upTo n (fun col t => t.store (off + col) (vgaMakeEntry 32 t.vgaColor)) s) := by
  refine upTo_induct (fun k t => Adds (s.redraw (filled off k (vgaMakeEntry 32 s.vgaColor) s.buffer)) t)
    (by simpa using Adds.refl s) fun c hc t ht => ?_
  rw [ht.vgaColor]
  exact ht.store (by omega) (filled_succ _ _ _ _)

/-- A screen of blank cells. -/
theorem adds_fillGrid : Adds (s.redraw (filled 0 2000 (vgaMakeEntry 32 s.vgaColor) s.buffer))
    (upTo 25 (fun row => upTo 80 fun col t => t.store (row * 80 + col) (vgaMakeEntry 32 t.vgaColor)) s) := by
  refine upTo_grid (h := 25) (w := 80)
    (fun k t => Adds (s.redraw (filled 0 k (vgaMakeEntry 32 s.vgaColor) s.buffer)) t)
    (by simpa using Adds.refl s) fun r hr c hc t ht => ?_
  rw [ht.vgaColor]
  refine ht.store (by omega) ?_
  rw [filled_succ, Nat.zero_add]
  rfl

/-- **Scrolling.** -/
theorem adds_vgaScroll (h : s.vgaRow > 0) : Adds (scrolled s) (vgaScroll s) := by
  have hmove := adds_moveRows s
  obtain ⟨t, ht⟩ : ∃ t, t = upTo 24 (fun row => upTo 80 fun col =>
    Screen.copy (row * 80 + col) ((row + 1) * 80 + col)) s := ⟨_, rfl⟩
  rw [← ht] at hmove
  have hfill := @adds_fillRow t (24 * 80) 80 (by omega)
  obtain ⟨u, hu⟩ : ∃ u, u = upTo 80 (fun col t =>
    t.store (24 * 80 + col) (vgaMakeEntry 32 t.vgaColor)) t := ⟨_, rfl⟩
  rw [← hu, hmove.vgaColor, hmove.buffer] at hfill
  have hscroll : vgaScroll s = if u.vgaRow > 0 then { u with vgaRow := 24 } else u := by
    rw [hu, ht]
    rfl
  have hcells : filled (24 * 80) 80 (vgaMakeEntry 32 s.vgaColor)
      (fun i => if i < 1920 then s.buffer (i + 80) else s.buffer i) = (scrolled s).buffer := by
    funext i
    simp only [filled, buffer_scrolled]
    by_cases h1 : i < 1920
    · rw [if_neg (by omega), if_pos h1, if_pos h1]
    · rw [if_neg h1, if_neg h1]
      exact if_congr (by omega) rfl rfl
  have hall : Adds (s.redraw (scrolled s).buffer) u := hmove.redraw_trans (hcells ▸ hfill)
  have hrow : u.vgaRow = s.vgaRow := by
    obtain ⟨es, -, rfl⟩ := hall
    rfl
  obtain ⟨es, hes, e⟩ := hall
  rw [hscroll, if_pos (hrow ▸ h), e]
  exact ⟨es, hes, rfl⟩

/-- **Clearing.** -/
theorem adds_vgaClear : Adds (cleared s) (vgaClear s) := by
  obtain ⟨es, hes, hu⟩ := adds_fillGrid s
  refine Adds.trans (t := (cleared s).add es) (adds_add hes) ?_
  have hcells : filled 0 2000 (vgaMakeEntry 32 s.vgaColor) s.buffer = (cleared s).buffer := by
    funext i
    simp [filled, cleared]
  convert adds_vgaUpdateCursor _ using 1
  unfold vgaClear
  simp only [vgaHeight, vgaWidth, hu, hcells]
  rfl

end Loops

/-! ### Characters -/

section Putchar

variable {c : UInt8} {s : Screen} {P : Effect → Prop}

/-- **`vgaPutchar`** places the character, scrolls if the cursor is below the screen, and no more. -/
theorem adds_vgaPutchar (c : UInt8) (s : Screen) : Adds (settled (place c s)) (vgaPutchar c s) := by
  have hscroll : Adds (settled (place c s))
      (if (place c s).vgaRow.toNat ≥ vgaHeight then vgaScroll (place c s) else place c s) := by
    unfold settled
    by_cases h : (place c s).vgaRow.toNat ≥ vgaHeight
    · rw [if_pos h, if_pos h]
      refine adds_vgaScroll _ ?_
      rw [gt_iff_lt, UInt8.lt_iff_toNat_lt]
      exact Nat.lt_of_lt_of_le (by decide) h
    · rw [if_neg h, if_neg h]
      exact Adds.refl _
  have hhook : ∀ t : Screen, Adds t (if t.gSerialHook then t.add [.hook c] else t) := by
    intro t
    split
    · exact adds_add (by simp [Effect.Inside])
    · exact Adds.refl t
  exact Adds.trans (hscroll.trans (hhook _)) (adds_vgaUpdateCursor _)

@[simp] theorem effects_wrapLine (s : Screen) : (wrapLine s).effects = s.effects := by
  unfold wrapLine
  split <;> rfl

@[simp] theorem effects_settled (s : Screen) : (settled s).effects = s.effects := by
  unfold settled
  split <;> rfl

/-- The characters that are not printed. -/
def Control (c : UInt8) : Prop := c = 10 ∨ c = 13 ∨ c = 9 ∨ c = 8

instance (c : UInt8) : Decidable (Control c) := inferInstanceAs (Decidable (_ ∨ _))

theorem control_cases (c : UInt8) : c = 10 ∨ c = 13 ∨ c = 9 ∨ c = 8 ∨ ¬Control c := by
  unfold Control
  tauto

theorem place_return : place 13 s = { s with vgaCol := 0 } := rfl

theorem place_tab : place 9 s = wrapLine { s with vgaCol := (s.vgaCol + 8) &&& ~~~7 } := rfl

/-- A backspace in the first column does nothing. -/
theorem place_backspace_zero (h : s.vgaCol = 0) : place 8 s = s := by
  simp [place, h]

/-- One column to the left. -/
theorem toNat_pred {x : UInt8} (h : x ≠ 0) : 0 < x.toNat ∧ (x - 1).toNat = x.toNat - 1 := by
  have hlt : 0 < x.toNat := Nat.pos_of_ne_zero fun e => h (UInt8.toNat.inj e)
  exact ⟨hlt, UInt8.toNat_sub_of_le _ _ (UInt8.le_iff_toNat_le.2 hlt)⟩

theorem pos_left (h : s.vgaCol ≠ 0) : ({ s with vgaCol := s.vgaCol - 1 } : Screen).pos = s.pos - 1 := by
  obtain ⟨hlt, hsub⟩ := toNat_pred h
  change s.vgaRow.toNat * 80 + (s.vgaCol - 1).toNat = s.vgaRow.toNat * 80 + s.vgaCol.toNat - 1
  omega

theorem place_backspace (h : s.vgaCol ≠ 0) : place 8 s =
    Screen.store (s.pos - 1) (vgaMakeEntry 32 s.vgaColor) { s with vgaCol := s.vgaCol - 1 } := by
  have hcol : 0 < s.vgaCol := UInt8.lt_iff_toNat_lt.2 (toNat_pred h).1
  rw [← pos_left h]
  exact if_pos hcol

theorem place_of_not_control (h : ¬Control c) : place c s =
    wrapLine { s.store s.pos (vgaMakeEntry c s.vgaColor) with vgaCol := s.vgaCol + 1 } := by
  unfold Control at h
  simp only [not_or] at h
  simp only [place, h, if_false]
  rfl

theorem touched_backspace (h : s.vgaCol ≠ 0) : touched 8 s = some (s.pos - 1) := by
  have hcol : 0 < s.vgaCol := UInt8.lt_iff_toNat_lt.2 (toNat_pred h).1
  exact if_pos hcol

theorem touched_backspace_zero (h : s.vgaCol = 0) : touched 8 s = none := by
  simp [touched, h]

theorem touched_of_not_control (h : ¬Control c) : touched c s = some s.pos := by
  unfold Control at h
  simp only [not_or] at h
  simp [touched, h]

/-- What `place` writes. -/
theorem effects_place (c : UInt8) (s : Screen) : touched c s = none ∧ (place c s).effects = s.effects ∨
    ∃ i v, touched c s = some i ∧ (place c s).effects = s.effects ++ [.write i v] := by
  rcases control_cases c with rfl | rfl | rfl | rfl | h
  · exact Or.inl ⟨rfl, rfl⟩
  · exact Or.inl ⟨rfl, rfl⟩
  · exact Or.inl ⟨rfl, by rw [place_tab, effects_wrapLine]⟩
  · by_cases h : s.vgaCol = 0
    · exact Or.inl ⟨touched_backspace_zero h, by rw [place_backspace_zero h]⟩
    · exact Or.inr ⟨_, _, touched_backspace h, by rw [place_backspace h]; rfl⟩
  · exact Or.inr ⟨_, _, touched_of_not_control h, by rw [place_of_not_control h, effects_wrapLine]; rfl⟩

/-- **What a character does to the accesses**: only the cell that it touches matters. -/
theorem forall_effects_vgaPutchar (hP : ∀ e, e.Inside → P e) (hw : ∀ i v, P (.write i v) ↔ i < 2000) :
    (∀ e ∈ (vgaPutchar c s).effects, P e) ↔ (∀ e ∈ s.effects, P e) ∧ ∀ i ∈ touched c s, i < 2000 := by
  rw [(adds_vgaPutchar c s).forall_effects hP, effects_settled]
  rcases effects_place c s with ⟨hnone, e⟩ | ⟨i, v, hsome, e⟩
  · simp [hnone, e]
  · simp [hsome, e, or_imp, forall_and, hw]

end Putchar

/-- Some characters one after the other. -/
def emit (cs : List UInt8) (s : Screen) : Screen := cs.foldl (fun s c => vgaPutchar c s) s

@[simp] theorem emit_nil (s : Screen) : emit [] s = s := rfl

@[simp] theorem emit_cons (c : UInt8) (cs : List UInt8) (s : Screen) : emit (c :: cs) s = emit cs (vgaPutchar c s) :=
  rfl

theorem emit_append (cs ds : List UInt8) (s : Screen) : emit (cs ++ ds) s = emit ds (emit cs s) :=
  List.foldl_append

theorem printLoop_eq (str : CStr) (s : Screen) : printLoop str s = emit str.text s := by
  induction str generalizing s with
  | nil => rfl
  | cons c str ih =>
    unfold printLoop
    by_cases h : c = 0
    · rw [if_pos h, h, CStr.text_cons_zero]
      rfl
    · rw [if_neg h, ih, CStr.text_cons h, emit_cons]

/-- The characters of a string that may be null. -/
theorem vgaPrint_eq (str : Option CStr) (s : Screen) : vgaPrint str s = emit (CStr.text (str.getD [])) s := by
  cases str with
  | none => rfl
  | some str => exact printLoop_eq str s

end AuraOS.Kernel.Vga
