import AuraOS.Kernel.Vga.Screen

/-!
# The cursor and the edge of the screen

`vga_set_cursor` takes any position, and `vga_putchar` brings the cursor back to the screen only after it
has written.  So a call sequence writes outside exactly if some `vga_set_cursor` beyond the last cell is
directly followed by a character that writes there (`runCalls_writes_iff`).  What carries the proof is that
after every other character the cursor is on the screen (`pos_vgaPutchar_lt`).
-/

namespace AuraOS.Kernel.Vga

open AuraOS.Lib

/-! ### Moves -/

/-- What a call does to the cursor. -/
inductive Move where
  | char (c : UInt8)
  | home
  | cursor (row col : UInt8)
  deriving DecidableEq, Repr

/-- The moves of a call; the colours and the hook do not move the cursor. -/
def Call.moves : Call → List Move
  | putchar c => [.char c]
  | print str => (CStr.text (str.getD [])).map .char
  | clear => [.home]
  | setColor _ _ => []
  | setCursor row col => [.cursor row col]
  | setSerialHook _ => []

/-- The character `c`, put with the cursor at `row` and `col`, writes behind the last cell. -/
def Overruns (row col c : UInt8) : Prop :=
  ¬Control c ∧ 2000 ≤ row.toNat * 80 + col.toNat ∨
    c = 8 ∧ 0 < col.toNat ∧ 2000 < row.toNat * 80 + col.toNat

/-- The move `b` may follow `a` directly. -/
def InOrder : Move → Move → Prop
  | .cursor row col, .char c => ¬Overruns row col c
  | _, _ => True

/-- The effect is not a write outside the screen. -/
def Effect.WriteInside : Effect → Prop
  | write i _ => i < 2000
  | _ => True

section Moves

variable {s : Screen} {c : UInt8} {l : List Move}

/-- On the screen every character writes inside. -/
theorem not_overruns_of_lt {row col : UInt8} (h : row.toNat * 80 + col.toNat < 2000) : ¬Overruns row col c := by
  unfold Overruns
  omega

theorem touched_lt_iff : (∀ i ∈ touched c s, i < 2000) ↔ ¬Overruns s.vgaRow s.vgaCol c := by
  have hpos : s.pos = s.vgaRow.toNat * 80 + s.vgaCol.toNat := rfl
  unfold Overruns
  rcases control_cases c with rfl | rfl | rfl | rfl | hc
  · simp [touched, Control]
  · simp [touched, Control]
  · simp [touched, Control]
  · by_cases h0 : s.vgaCol = 0
    · simp [touched_backspace_zero h0, Control, h0]
    · have hlt := (toNat_pred h0).1
      rw [touched_backspace h0]
      simp only [Option.mem_def, Option.some.injEq, forall_eq', Control, true_and, or_true, not_true_eq_false,
        false_and, false_or]
      omega
  · have h8 : c ≠ 8 := fun e => hc (by simp [Control, e])
    simp [touched_of_not_control hc, hc, h8, hpos]

/-- A scroll puts the cursor into the last row. -/
theorem pos_settled_lt (hlow : 25 ≤ s.vgaRow.toNat → s.vgaCol.toNat < 80)
    (hhigh : s.vgaRow.toNat < 25 → s.vgaRow.toNat * 80 + s.vgaCol.toNat < 2000) : (settled s).pos < 2000 := by
  unfold settled
  by_cases h : s.vgaRow.toNat ≥ vgaHeight
  · have hcol := hlow h
    rw [if_pos h]
    change 24 * 80 + s.vgaCol.toNat < 2000
    omega
  · rw [if_neg h]
    exact hhigh (by change ¬25 ≤ s.vgaRow.toNat at h; omega)

theorem pos_wrapLine_lt : (settled (wrapLine s)).pos < 2000 := by
  unfold wrapLine
  by_cases h : s.vgaCol.toNat ≥ vgaWidth
  · rw [if_pos h]
    refine pos_settled_lt (fun _ => (by decide : (0 : UInt8).toNat < 80)) fun hrow => ?_
    change (s.vgaRow + 1).toNat * 80 + 0 < 2000
    change (s.vgaRow + 1).toNat < 25 at hrow
    omega
  · rw [if_neg h]
    change ¬80 ≤ s.vgaCol.toNat at h
    exact pos_settled_lt (by omega) (by omega)

/-- **A character that does not write outside leaves the cursor on the screen.** -/
theorem pos_vgaPutchar_lt (h : ¬Overruns s.vgaRow s.vgaCol c) : (vgaPutchar c s).pos < 2000 := by
  obtain ⟨es, -, e⟩ := adds_vgaPutchar c s
  rw [e, pos_add]
  have hzero : (0 : UInt8).toNat = 0 := rfl
  rcases control_cases c with rfl | rfl | rfl | rfl | hc
  · refine pos_settled_lt (fun _ => (by decide : (0 : UInt8).toNat < 80)) fun hrow => ?_
    change (s.vgaRow + 1).toNat * 80 + 0 < 2000
    change (s.vgaRow + 1).toNat < 25 at hrow
    omega
  · refine pos_settled_lt (fun _ => (by decide : (0 : UInt8).toNat < 80)) fun hrow => ?_
    change s.vgaRow.toNat * 80 + 0 < 2000
    change s.vgaRow.toNat < 25 at hrow
    omega
  · rw [place_tab]
    exact pos_wrapLine_lt
  · by_cases h0 : s.vgaCol = 0
    · rw [place_backspace_zero h0]
      exact pos_settled_lt (by rw [h0]; omega) (by rw [h0]; omega)
    · obtain ⟨hlt, hsub⟩ := toNat_pred h0
      have hle : s.vgaRow.toNat * 80 + s.vgaCol.toNat ≤ 2000 := by
        by_contra hgt
        exact h (Or.inr ⟨rfl, hlt, by omega⟩)
      rw [place_backspace h0]
      refine pos_settled_lt (fun hrow => ?_) fun _ => ?_
      · change 25 ≤ s.vgaRow.toNat at hrow
        omega
      · change s.vgaRow.toNat * 80 + (s.vgaCol - 1).toNat < 2000
        omega
  · rw [place_of_not_control hc]
    exact pos_wrapLine_lt

/-- Any move may follow a move that leaves the cursor on the screen. -/
theorem isChain_cons_iff {a : Move} (h : ∀ b, InOrder a b) :
    List.IsChain InOrder (a :: l) ↔ List.IsChain InOrder l := by
  cases l with
  | nil => simp
  | cons b l => simp [h b]

theorem inOrder_cursor {row col : UInt8} (h : row.toNat * 80 + col.toNat < 2000) (b : Move) :
    InOrder (.cursor row col) b := by
  cases b with
  | char c => exact not_overruns_of_lt h
  | home => trivial
  | cursor row' col' => trivial

end Moves

/-! ### Runs -/

/-- No write so far was outside the screen, and none will be in the moves `l`. -/
def Good (s : Screen) (l : List Move) : Prop :=
  (∀ e ∈ s.effects, e.WriteInside) ∧ List.IsChain InOrder (.cursor s.vgaRow s.vgaCol :: l)

section Runs

variable {s t : Screen} {c : UInt8} {l : List Move}

theorem writeInside_of_inside {e : Effect} (h : e.Inside) : e.WriteInside := by
  cases e <;> first | exact h | trivial

/-- With the cursor on the screen the first move is free. -/
theorem good_iff_of_lt (h : s.pos < 2000) :
    Good s l ↔ (∀ e ∈ s.effects, e.WriteInside) ∧ List.IsChain InOrder l :=
  and_congr_right fun _ => isChain_cons_iff (inOrder_cursor h)

/-- **A character.** -/
theorem good_vgaPutchar : Good (vgaPutchar c s) l ↔ Good s (.char c :: l) := by
  have hchain : List.IsChain InOrder (.cursor s.vgaRow s.vgaCol :: .char c :: l) ↔
      ¬Overruns s.vgaRow s.vgaCol c ∧ List.IsChain InOrder l := by
    rw [List.isChain_cons_cons, isChain_cons_iff fun b => by cases b <;> trivial]
    rfl
  have heffects : (∀ e ∈ (vgaPutchar c s).effects, e.WriteInside) ↔
      (∀ e ∈ s.effects, e.WriteInside) ∧ ¬Overruns s.vgaRow s.vgaCol c := by
    rw [forall_effects_vgaPutchar (fun _ => writeInside_of_inside) fun _ _ => Iff.rfl, touched_lt_iff]
  unfold Good
  rw [heffects, hchain, and_assoc]
  refine and_congr_right fun _ => and_congr_right fun hover => ?_
  exact isChain_cons_iff (inOrder_cursor (pos_vgaPutchar_lt hover))

theorem good_emit (cs : List UInt8) : Good (emit cs s) l ↔ Good s (cs.map .char ++ l) := by
  induction cs generalizing s with
  | nil => exact Iff.rfl
  | cons c cs ih =>
    rw [emit_cons, ih, good_vgaPutchar]
    rfl

theorem good_vgaClear : Good (vgaClear s) l ↔ Good s (.home :: l) := by
  have hclear := adds_vgaClear s
  have hpos : (vgaClear s).pos < 2000 := by
    obtain ⟨es, -, e⟩ := hclear
    rw [e, pos_add]
    exact (by omega : 0 < 2000)
  rw [good_iff_of_lt hpos, hclear.forall_effects fun _ => writeInside_of_inside]
  refine and_congr_right fun _ => ?_
  rw [List.isChain_cons_cons, isChain_cons_iff fun b => by cases b <;> trivial]
  exact (and_iff_right trivial).symm

theorem good_vgaSetCursor {row col : UInt8} :
    Good (vgaSetCursor row col s) l ↔ Good s (.cursor row col :: l) := by
  have hset : Adds { s with vgaRow := row, vgaCol := col } (vgaSetCursor row col s) := adds_vgaUpdateCursor _
  unfold Good
  rw [hset.forall_effects fun _ => writeInside_of_inside, List.isChain_cons_cons]
  exact and_congr_right fun _ => (and_iff_right trivial).symm

/-- **A call** is as good as its moves. -/
theorem good_apply (a : Call) : Good (a.apply s) l ↔ Good s (a.moves ++ l) := by
  cases a with
  | putchar c => exact good_vgaPutchar
  | print str =>
    change Good (vgaPrint str s) l ↔ _
    rw [vgaPrint_eq]
    exact good_emit _
  | clear => exact good_vgaClear
  | setColor fg bg => exact Iff.rfl
  | setCursor row col => exact good_vgaSetCursor
  | setSerialHook set => exact Iff.rfl

theorem good_runCalls (calls : List Call) : Good (runCalls calls s) l ↔ Good s (calls.flatMap Call.moves ++ l) := by
  induction calls generalizing s with
  | nil => exact Iff.rfl
  | cons a calls ih =>
    change Good (runCalls calls (a.apply s)) l ↔ _
    rw [ih, good_apply, List.flatMap_cons, List.append_assoc]

theorem good_start (s₀ : Screen) : Good (start s₀) l ↔ List.IsChain InOrder l := by
  refine good_vgaClear.trans ((good_iff_of_lt (by exact (by omega : 0 < 2000))).trans ?_)
  rw [isChain_cons_iff fun b => by cases b <;> trivial]
  exact and_iff_right (by simp)

/-- **No write outside the screen** in a sequence of calls, exactly if no `vga_set_cursor` is directly
followed by a character that overruns the screen there. -/
theorem runCalls_writes_iff (s₀ : Screen) (calls : List Call) :
    (∀ i v, .write i v ∈ (runCalls calls (start s₀)).effects → i < 2000) ↔
      (calls.flatMap Call.moves).IsChain InOrder := by
  have hgood := good_runCalls (s := start s₀) (l := []) calls
  rw [List.append_nil, good_start] at hgood
  rw [← hgood]
  constructor
  · intro h
    refine ⟨fun e he => ?_, List.IsChain.singleton _⟩
    cases e with
    | write i v => exact h i v he
    | read i => trivial
    | outb port value => trivial
    | hook c => trivial
  · exact fun h i v hmem => h.1 _ hmem

/-- **The letter `A` at row and column 255** is written at index 20655. -/
theorem overrun_letter :
    (∃ v, .write 20655 v ∈ (runCalls [.setCursor 255 255, .putchar 65] (start zeroVga)).effects) ∧
      ¬∀ i v, .write i v ∈ (runCalls [.setCursor 255 255, .putchar 65] (start zeroVga)).effects → i < 2000 := by
  obtain ⟨s, hs⟩ : ∃ s, s = vgaSetCursor 255 255 (start zeroVga) := ⟨_, rfl⟩
  have hrun : runCalls [.setCursor 255 255, .putchar 65] (start zeroVga) = vgaPutchar 65 s := by
    rw [hs]
    rfl
  have hpos : s.pos = 20655 := by
    rw [hs]
    rfl
  have hwrite : ∃ v, .write 20655 v ∈ (vgaPutchar 65 s).effects := by
    obtain ⟨es, -, e⟩ := adds_vgaPutchar 65 s
    rw [e, effects_add, effects_settled]
    rcases effects_place 65 s with ⟨hnone, -⟩ | ⟨i, v, hsome, he⟩
    · rw [touched_of_not_control (by decide)] at hnone
      cases hnone
    · rw [touched_of_not_control (by decide), hpos] at hsome
      cases hsome
      exact ⟨v, by simp [he]⟩
  rw [hrun]
  refine ⟨hwrite, fun h => ?_⟩
  obtain ⟨v, hv⟩ := hwrite
  exact absurd (h _ _ hv) (by omega)

end Runs

end AuraOS.Kernel.Vga
