import AuraOS.Kernel.Vga.Screen

/-!
# What the screen driver passes on

Of the effects of the driver, other devices see the accesses to ports and the calls of the hook.  `Passes cs s t`
says that from `s` to `t` the hook was called with the characters `cs`, and that no ports but those of the cursor
were accessed.
-/

namespace AuraOS.Kernel.Vga

open AuraOS.Lib

/-- The character that is passed to the hook. -/
def Effect.hooked : Effect → Option UInt8
  | hook c => some c
  | _ => none

/-- No port but those of the cursor. -/
def Effect.Own : Effect → Prop
  | outb port _ => port = 0x3D4 ∨ port = 0x3D5
  | _ => True

/-- From `s` to `t` the hook was called with the characters `cs`. -/
def Passes (cs : List UInt8) (s t : Screen) : Prop :=
  t.gSerialHook = s.gSerialHook ∧
    ∃ es, t.effects = s.effects ++ es ∧ es.filterMap Effect.hooked = cs ∧ ∀ e ∈ es, e.Own

section Passes

variable {s t u : Screen} {cs ds : List UInt8} {es : List Effect} {n : ℕ} {f : ℕ → Screen → Screen}

theorem Passes.refl (s : Screen) : Passes [] s s := ⟨rfl, [], by simp, rfl, by simp⟩

theorem Passes.trans (h : Passes cs s t) (h' : Passes ds t u) : Passes (cs ++ ds) s u := by
  obtain ⟨hhook, es, hes, rfl, hown⟩ := h
  obtain ⟨hhook', es', hes', rfl, hown'⟩ := h'
  refine ⟨hhook'.trans hhook, es ++ es', by rw [hes', hes, List.append_assoc], List.filterMap_append, ?_⟩
  intro e he
  rcases List.mem_append.1 he with he | he
  · exact hown e he
  · exact hown' e he

theorem passes_add (h : ∀ e ∈ es, e.Own) : Passes (es.filterMap Effect.hooked) s (s.add es) :=
  ⟨rfl, es, rfl, rfl, h⟩

/-- The position of the cursor does not count. -/
theorem Passes.move (h : Passes cs s t) (row col : UInt8) :
    Passes cs s { t with vgaRow := row, vgaCol := col } := ⟨h.1, h.2⟩

theorem passes_store (i : ℕ) (v : UInt16) (s : Screen) : Passes [] s (s.store i v) :=
  ⟨rfl, [.write i v], rfl, rfl, by simp [Effect.Own]⟩

theorem passes_copy (i j : ℕ) (s : Screen) : Passes [] s (s.copy i j) := by
  have hown : ∀ e ∈ [Effect.read j], e.Own := by simp [Effect.Own]
  exact (passes_add hown).trans (passes_store i _ _)

theorem passes_upTo (h : ∀ i t, Passes [] t (f i t)) (n : ℕ) (s : Screen) : Passes [] s (upTo n f s) :=
  upTo_induct (fun _ t => Passes [] s t) (.refl s) fun i _ t ht => ht.trans (h i t)

theorem passes_vgaUpdateCursor (s : Screen) : Passes [] s (vgaUpdateCursor s) := passes_add (by simp [Effect.Own])

theorem passes_vgaScroll (s : Screen) : Passes [] s (vgaScroll s) := by
  have hmove := passes_upTo (fun row t => passes_upTo (fun col t =>
    passes_copy (row * vgaWidth + col) ((row + 1) * vgaWidth + col) t) vgaWidth t) (vgaHeight - 1) s
  have hblank := hmove.trans (passes_upTo (fun col (t : Screen) =>
    passes_store ((vgaHeight - 1) * vgaWidth + col) (vgaMakeEntry 32 t.vgaColor) t) vgaWidth _)
  unfold vgaScroll
  dsimp only
  split
  · exact hblank.move _ _
  · exact hblank

theorem passes_vgaClear (s : Screen) : Passes [] s (vgaClear s) := by
  have hblank := passes_upTo (fun row t => passes_upTo (fun col (t : Screen) =>
    passes_store (row * vgaWidth + col) (vgaMakeEntry 32 t.vgaColor) t) vgaWidth t) vgaHeight s
  exact (hblank.move 0 0).trans (passes_vgaUpdateCursor _)

theorem passes_wrapLine (s : Screen) : Passes [] s (wrapLine s) := by
  unfold wrapLine
  split
  · exact (Passes.refl s).move _ _
  · exact .refl s

theorem passes_place (c : UInt8) (s : Screen) : Passes [] s (place c s) := by
  unfold place
  split
  · exact (Passes.refl s).move _ _
  · split
    · exact (Passes.refl s).move _ _
    · split
      · exact ((Passes.refl s).move _ _).trans (passes_wrapLine _)
      · split
        · split
          · exact ((Passes.refl s).move _ _).trans (passes_store _ _ _)
          · exact .refl s
        · exact ((passes_store _ _ _).move _ _).trans (passes_wrapLine _)

/-- **A character** is passed on if there is a hook. -/
theorem passes_vgaPutchar (c : UInt8) (s : Screen) :
    Passes (if s.gSerialHook then [c] else []) s (vgaPutchar c s) := by
  have hscroll : Passes [] s (if (place c s).vgaRow.toNat ≥ vgaHeight then vgaScroll (place c s) else place c s) := by
    split
    · exact (passes_place c s).trans (passes_vgaScroll _)
    · exact passes_place c s
  unfold vgaPutchar
  dsimp only
  generalize (if (place c s).vgaRow.toNat ≥ vgaHeight then vgaScroll (place c s) else place c s) = t at hscroll ⊢
  rw [← hscroll.1]
  split
  · have hown : ∀ e ∈ [Effect.hook c], e.Own := by simp [Effect.Own]
    have hhook : Passes [c] t (t.add [.hook c]) := passes_add hown
    exact (hscroll.trans hhook).trans (passes_vgaUpdateCursor _)
  · exact hscroll.trans (passes_vgaUpdateCursor _)

/-- **A text** likewise. -/
theorem passes_emit (cs : List UInt8) (s : Screen) : Passes (if s.gSerialHook then cs else []) s (emit cs s) := by
  induction cs generalizing s with
  | nil => simpa using Passes.refl s
  | cons c cs ih =>
    have hput := passes_vgaPutchar c s
    have hrest := ih (vgaPutchar c s)
    rw [hput.1] at hrest
    rw [emit_cons]
    have h := hput.trans hrest
    cases hs : s.gSerialHook
    · simpa [hs] using h
    · simpa [hs] using h

theorem passes_vgaPrintln (str : Option CStr) (h : s.gSerialHook = true) :
    Passes (CStr.text (str.getD []) ++ [10]) s (vgaPrintln str s) := by
  have htext := passes_emit (CStr.text (str.getD [])) s
  rw [← vgaPrint_eq] at htext
  have hline := passes_vgaPutchar 10 (vgaPrint str s)
  rw [htext.1, if_pos h] at hline
  rw [if_pos h] at htext
  exact htext.trans hline

end Passes

/-! ### Calls -/

/-- The characters that a call puts. -/
def Call.text : Call → List UInt8
  | putchar c => [c]
  | print str => CStr.text (str.getD [])
  | _ => []

/-- Whether there is a hook after the call. -/
def Call.hookAfter (on : Bool) : Call → Bool
  | setSerialHook set => set
  | _ => on

/-- **A call** passes on what it puts, if there is a hook. -/
theorem passes_apply (a : Call) (s : Screen) : (a.apply s).gSerialHook = a.hookAfter s.gSerialHook ∧
    ∃ es, (a.apply s).effects = s.effects ++ es ∧
      es.filterMap Effect.hooked = (if s.gSerialHook then a.text else []) ∧ ∀ e ∈ es, e.Own := by
  cases a with
  | putchar c => exact passes_vgaPutchar c s
  | print str =>
    have h := passes_emit (CStr.text (str.getD [])) s
    rw [← vgaPrint_eq] at h
    exact h
  | clear =>
    have h := passes_vgaClear s
    rw [← ite_self (c := s.gSerialHook = true) []] at h
    exact h
  | setColor fg bg => exact ⟨rfl, [], by simp [Call.apply, vgaSetColor], by simp [Call.text], by simp⟩
  | setCursor row col =>
    have h := passes_vgaUpdateCursor { s with vgaRow := row, vgaCol := col }
    rw [← ite_self (c := s.gSerialHook = true) []] at h
    exact h
  | setSerialHook set => exact ⟨rfl, [], by simp [Call.apply, vgaSetSerialHook], by simp [Call.text], by simp⟩

end AuraOS.Kernel.Vga
