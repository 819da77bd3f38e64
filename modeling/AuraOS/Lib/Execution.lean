import AuraOS.Lib.Steps
import Mathlib.Algebra.Order.Group.Nat

/-!
# Executions

An execution is a run that does not end.  `LeadsTo P Q` says of one execution that behind every position with `P` there
is one with `Q`.  A phase that ends is left through one of its exits (`LeadsTo.of_exit`), and a measure that falls
from one visit of `P` to the next shows that the visits end (`LeadsTo.of_wf`).
-/

namespace AuraOS.Lib

variable {S A : Type*}

/-! ### Positions -/

/-- Behind every position with `P` there is one with `Q`. -/
def LeadsTo (P Q : ℕ → Prop) : Prop := ∀ n, P n → ∃ m, n ≤ m ∧ Q m

namespace LeadsTo

variable {P Q R : ℕ → Prop}

theorem of_next (h : ∀ n, P n → Q (n + 1)) : LeadsTo P Q := by
  intro n hn
  exact ⟨n + 1, Nat.le_succ n, h n hn⟩

theorem trans (h : LeadsTo P Q) (h' : LeadsTo Q R) : LeadsTo P R := by
  intro n hn
  obtain ⟨m, hm, hQ⟩ := h n hn
  obtain ⟨k, hk, hR⟩ := h' m hQ
  exact ⟨k, hm.trans hk, hR⟩

/-- **Exits**: where `P` is left there is a `Q` ahead, and `P` is left. -/
theorem of_exit (hstep : ∀ n, P n → P (n + 1) ∨ ∃ m, n ≤ m ∧ Q m) (hleft : LeadsTo P fun n => ¬P (n + 1)) :
    LeadsTo P Q := by
  intro n hn
  by_contra hno
  -- then `P` is never left
  have hstay : ∀ m, n ≤ m → P m := by
    intro m hm
    induction m, hm using Nat.le_induction with
    | base => exact hn
    | succ m hm ih =>
      rcases hstep m ih with h | ⟨k, hk, hQ⟩
      · exact h
      · exact absurd ⟨k, hm.trans hk, hQ⟩ hno
  obtain ⟨m, hm, hnot⟩ := hleft n hn
  exact hnot (hstay (m + 1) (Nat.le_succ_of_le hm))

/-- **Well-founded measures**: `P x` is visited with smaller and smaller `x` until `Q`. -/
theorem of_wf {M : Type*} {r : M → M → Prop} (hwf : WellFounded r) {P : M → ℕ → Prop}
    (h : ∀ x, LeadsTo (P x) fun n => Q n ∨ ∃ y, r y x ∧ P y n) (x : M) : LeadsTo (P x) Q := by
  induction x using hwf.induction with
  | h x ih =>
    intro n hn
    obtain ⟨m, hm, hQ | ⟨y, hy, hP⟩⟩ := h x n hn
    · exact ⟨m, hm, hQ⟩
    · obtain ⟨k, hk, hQ⟩ := ih y hy m hP
      exact ⟨k, hm.trans hk, hQ⟩

end LeadsTo

/-! ### Executions of a system -/

/-- A run of the system `step` that does not end. -/
structure Execution (step : S → A → S → Prop) where
  state : ℕ → S
  act : ℕ → A
  step : ∀ n, step (state n) (act n) (state (n + 1))

namespace Execution

variable {step : S → A → S → Prop} {s t : S} {a : A}

/-- The same step all the time. -/
def loop (h : step s a s) : Execution step := ⟨fun _ => s, fun _ => a, fun _ => h⟩

/-- One step more at the beginning. -/
def cons (e : Execution step) (h : step s a (e.state 0)) : Execution step where
  state
    | 0 => s
    | n + 1 => e.state n
  act
    | 0 => a
    | n + 1 => e.act n
  step
    | 0 => h
    | n + 1 => e.step n

end Execution

/-- **A run that can stay at its end** is the beginning of an execution. -/
theorem Run.exists_execution {step : S → A → S → Prop} {s t : S} {as : List A} {b : A} (h : Run step s as t)
    (hloop : step t b t) :
    ∃ e : Execution step, e.state 0 = s ∧ ∀ n, as.length ≤ n → e.state n = t ∧ e.act n = b := by
  induction h with
  | nil s => exact ⟨Execution.loop hloop, rfl, fun n _ => ⟨rfl, rfl⟩⟩
  | cons hstep _ ih =>
    obtain ⟨e, rfl, hend⟩ := ih hloop
    refine ⟨e.cons hstep, rfl, ?_⟩
    intro n hn
    cases n with
    | zero => simp at hn
    | succ n => exact hend n (Nat.le_of_succ_le_succ hn)

end AuraOS.Lib
