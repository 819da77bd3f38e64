import Mathlib.Tactic.Common

/-!
# Counting loops

`upTo n body s` is the loop `for (i = 0; i < n; i++)` on the state `s`.  An invariant is a family `I`, of
which `I i` holds before turn `i`; for a loop over the rows and columns of a grid it is indexed by the
position in row-major order (`upTo_grid`).
-/

namespace AuraOS.Lib

variable {σ : Type*}

/-- `n` turns of a counting loop, from turn `0` on. -/
def upTo (n : ℕ) (body : ℕ → σ → σ) (s : σ) : σ :=
  match n with
  | 0 => s
  | n + 1 => body n (upTo n body s)

section Loop

variable {s : σ} {n : ℕ} {body : ℕ → σ → σ}

@[simp] theorem upTo_zero : upTo 0 body s = s := rfl

theorem upTo_succ : upTo (n + 1) body s = body n (upTo n body s) := rfl

/-- **The invariant rule.** -/
theorem upTo_induct (I : ℕ → σ → Prop) (h0 : I 0 s) (hstep : ∀ i < n, ∀ t, I i t → I (i + 1) (body i t)) :
    I n (upTo n body s) := by
  induction n with
  | zero => exact h0
  | succ n ih =>
    rw [upTo_succ]
    exact hstep n (Nat.lt_succ_self n) _ (ih fun i hi => hstep i (by omega))

/-- The invariant rule for two nested loops, over `h` rows of `w` columns. -/
theorem upTo_grid {h w : ℕ} {cell : ℕ → ℕ → σ → σ} (I : ℕ → σ → Prop) (h0 : I 0 s)
    (hstep : ∀ r < h, ∀ c < w, ∀ t, I (r * w + c) t → I (r * w + c + 1) (cell r c t)) :
    I (h * w) (upTo h (fun r => upTo w (cell r)) s) := by
  refine upTo_induct (fun r => I (r * w)) (by simpa using h0) fun r hr t ht => ?_
  have hrow := upTo_induct (s := t) (fun c => I (r * w + c)) ht fun c hc u hu => hstep r hr c hc u hu
  rwa [← Nat.succ_mul] at hrow

end Loop

end AuraOS.Lib
