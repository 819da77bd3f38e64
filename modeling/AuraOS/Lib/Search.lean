import Mathlib.Data.List.Basic
import Mathlib.Tactic.Common

/-!
# Linear search

The loop `for (i = k; i < k + n; i++) if (p(i)) …` that looks for the first index with a property:
`first p n k`.  Its two results are described by `first_eq_some_iff` and `first_eq_none_iff`.
-/

namespace AuraOS.Lib

/-- The first of the `n` indices from `k` on at which `p` holds. -/
def first (p : ℕ → Bool) : ℕ → ℕ → Option ℕ
  | 0, _ => none
  | n + 1, k => if p k then some k else first p n (k + 1)

section First

variable {p q : ℕ → Bool}

theorem first_succ (n k : ℕ) : first p (n + 1) k = if p k then some k else first p n (k + 1) := rfl

theorem first_eq_none_iff {n k : ℕ} : first p n k = none ↔ ∀ i, k ≤ i → i < k + n → p i = false := by
  induction n generalizing k with
  | zero => exact ⟨fun _ i h1 h2 => absurd h2 (by omega), fun _ => rfl⟩
  | succ n ih =>
    rw [first_succ]
    by_cases hk : p k = true
    · rw [if_pos hk]
      refine ⟨nofun, fun h => ?_⟩
      rw [h k (Nat.le_refl k) (by omega)] at hk
      cases hk
    · rw [if_neg hk, ih]
      constructor
      · intro h i h1 h2
        rcases Nat.eq_or_lt_of_le h1 with rfl | h1
        · simpa using hk
        · exact h i h1 (by omega)
      · exact fun h i h1 h2 => h i (by omega) (by omega)

theorem first_eq_some_iff {n k i : ℕ} : first p n k = some i ↔
    k ≤ i ∧ i < k + n ∧ p i = true ∧ ∀ j, k ≤ j → j < i → p j = false := by
  induction n generalizing k with
  | zero =>
    refine ⟨nofun, ?_⟩
    rintro ⟨h1, h2, -⟩
    omega
  | succ n ih =>
    rw [first_succ]
    by_cases hk : p k = true
    · rw [if_pos hk]
      constructor
      · intro h
        obtain rfl := Option.some.inj h
        exact ⟨Nat.le_refl _, by omega, hk, fun j h1 h2 => absurd h2 (by omega)⟩
      · rintro ⟨h1, -, -, h4⟩
        rcases Nat.eq_or_lt_of_le h1 with h1 | h1
        · rw [h1]
        · have := h4 k (Nat.le_refl k) h1
          rw [hk] at this
          cases this
    · rw [if_neg hk, ih]
      constructor
      · rintro ⟨h1, h2, h3, h4⟩
        refine ⟨by omega, by omega, h3, fun j hj1 hj2 => ?_⟩
        rcases Nat.eq_or_lt_of_le hj1 with rfl | hj1
        · simpa using hk
        · exact h4 j hj1 hj2
      · rintro ⟨h1, h2, h3, h4⟩
        rcases Nat.eq_or_lt_of_le h1 with rfl | h1
        · exact absurd h3 hk
        · exact ⟨h1, by omega, h3, fun j hj1 hj2 => h4 j (by omega) hj2⟩

/-- The indices with the property, if these are the first ones. -/
theorem filter_range_lt {m n : ℕ} (hm : m ≤ n) (h : ∀ i < n, p i = decide (i < m)) :
    (List.range n).filter p = List.range m := by
  induction n with
  | zero => simp [Nat.le_zero.1 hm]
  | succ n ih =>
    rw [List.range_succ, List.filter_append, List.filter_singleton, h n (by omega)]
    rcases Nat.lt_or_ge n m with hlt | hge
    · obtain rfl : m = n + 1 := by omega
      have hall : (List.range n).filter p = List.range n :=
        List.filter_eq_self.2 fun i hi => by
          rw [List.mem_range] at hi
          simpa [h i (by omega)] using Nat.lt_succ_of_lt hi
      rw [hall, List.range_succ]
      simp
    · rw [ih hge fun i hi => h i (by omega)]
      simp [Nat.not_lt.2 hge]

end First

end AuraOS.Lib
