import AuraOS.Lib.Memory

/-!
# Words on a stack

A stack that grows down in a byte-addressed memory.  `Holds m a ws` says that the words `ws` stand at the address
`a` and behind it; a push puts a word in front of them, and nothing outside of the words matters.
-/

namespace AuraOS.Lib

/-- The words `ws` stand in the memory from the address `a` on. -/
def Holds (m : Mem) : ℕ → List UInt32 → Prop
  | _, [] => True
  | a, w :: ws => m.load32 a = w.toNat ∧ Holds m (a + 4) ws

section Holds

variable {m m' : Mem} {a b : ℕ} {w : UInt32} {ws : List UInt32}

theorem Holds.congr (h : Holds m a ws) (hm : ∀ x, a ≤ x → x < a + 4 * ws.length → m' x = m x) : Holds m' a ws := by
  induction ws generalizing a with
  | nil => trivial
  | cons w ws ih =>
    obtain ⟨hw, hws⟩ := h
    rw [List.length_cons] at hm
    refine ⟨?_, ih hws fun x hx hx' => hm x (by omega) (by omega)⟩
    rw [Mem.load32_congr fun x hx hx' => hm x hx (by omega)]
    exact hw

/-- **A push** puts a word in front. -/
theorem Holds.push (h : Holds m a ws) (ha : 4 ≤ a) (w : UInt32) :
    Holds (m.store32 (a - 4) w.toNat) (a - 4) (w :: ws) := by
  have hlt : w.toNat < 2 ^ 32 := w.toNat_lt
  refine ⟨by rw [Mem.load32_store32, Nat.mod_eq_of_lt hlt], ?_⟩
  rw [Nat.sub_add_cancel ha]
  exact h.congr fun x hx _ => Mem.store32_apply (by omega)

/-- **A pop** reads the word in front. -/
theorem Holds.head (h : Holds m a (w :: ws)) : UInt32.ofNat (m.load32 a) = w := by
  rw [h.1, UInt32.ofNat_toNat]

theorem Holds.drop (h : Holds m a ws) (n : ℕ) : Holds m (a + 4 * n) (ws.drop n) := by
  induction n generalizing a ws with
  | zero => exact h
  | succ n ih =>
    cases ws with
    | nil => trivial
    | cons w ws =>
      rw [show a + 4 * (n + 1) = a + 4 + 4 * n by omega]
      exact ih h.2

/-- **Word `i`** of the stack. -/
theorem Holds.word (h : Holds m a ws) {i : ℕ} (hi : ws[i]? = some w) : UInt32.ofNat (m.load32 (a + 4 * i)) = w := by
  have hdrop := h.drop i
  obtain ⟨hlt, hw⟩ := List.getElem?_eq_some_iff.1 hi
  rw [List.drop_eq_getElem_cons hlt, hw] at hdrop
  exact hdrop.head

end Holds

end AuraOS.Lib
