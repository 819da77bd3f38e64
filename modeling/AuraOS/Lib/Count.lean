import Mathlib.Data.List.Basic
import Mathlib.Tactic.Common

/-!
# Counting slots

`count p n` is the number of the indices below `n` at which `p` holds: what a counter kept beside a
table of `n` slots should say.  Changing the predicate at one index changes it by at most one
(`count_insert`, `count_erase`), and it is `n` exactly if the predicate holds everywhere (`count_eq_iff`).
A counter of type `int` goes up and down by one as long as it is away from its ends (`toInt_add_one`,
`toInt_sub_one`).
-/

namespace AuraOS.Lib

/-- The number of the indices below `n` at which `p` holds. -/
def count (p : ℕ → Bool) (n : ℕ) : ℕ := (List.range n).countP p

section Count

variable {p q : ℕ → Bool} {n j : ℕ}

@[simp] theorem count_zero : count p 0 = 0 := rfl

theorem count_succ : count p (n + 1) = count p n + (p n).toNat := by
  unfold count
  rw [List.range_succ, List.countP_append]
  cases hn : p n <;> simp [hn]

theorem count_le (p : ℕ → Bool) (n : ℕ) : count p n ≤ n := by
  induction n with
  | zero => simp
  | succ n ih =>
    rw [count_succ]
    have := Bool.toNat_le (p n)
    omega

theorem count_congr (h : ∀ i < n, q i = p i) : count q n = count p n := by
  induction n with
  | zero => simp
  | succ n ih =>
    rw [count_succ, count_succ, ih fun i hi => h i (by omega), h n (by omega)]

/-- The predicate changes at `j` only. -/
theorem count_update (hj : j < n) (h : ∀ i < n, i ≠ j → q i = p i) :
    count q n + (p j).toNat = count p n + (q j).toNat := by
  induction n with
  | zero => omega
  | succ n ih =>
    rw [count_succ, count_succ]
    rcases Nat.lt_succ_iff_lt_or_eq.1 hj with hlt | rfl
    · have := ih hlt fun i hi => h i (by omega)
      rw [h n (by omega) (by omega)]
      omega
    · rw [count_congr fun i hi => h i (by omega) (by omega)]
      omega

theorem count_insert (hj : j < n) (hp : p j = false) (hq : q j = true)
    (h : ∀ i < n, i ≠ j → q i = p i) : count q n = count p n + 1 := by
  simpa [hp, hq] using count_update hj h

theorem count_erase (hj : j < n) (hp : p j = true) (hq : q j = false)
    (h : ∀ i < n, i ≠ j → q i = p i) : count q n + 1 = count p n := by
  simpa [hp, hq] using count_update hj h

theorem count_eq_iff : count p n = n ↔ ∀ i < n, p i = true := by
  induction n with
  | zero => simp
  | succ n ih =>
    rw [count_succ]
    have hle := count_le p n
    constructor
    · intro h i hi
      cases hn : p n with
      | false =>
        rw [hn, Bool.toNat_false] at h
        omega
      | true =>
        rw [hn, Bool.toNat_true] at h
        rcases Nat.lt_succ_iff_lt_or_eq.1 hi with hlt | rfl
        · exact ih.1 (by omega) i hlt
        · exact hn
    · intro h
      rw [ih.2 fun i hi => h i (by omega), h n (by omega), Bool.toNat_true]

end Count

/-! ### Counters of type `int` -/

section Counter

variable {c : Int32}

/-- Counting up from any value but the largest. -/
theorem toInt_add_one (h : c ≠ Int32.maxValue) : (c + 1).toInt = c.toInt + 1 := by
  have hlow := c.le_toInt
  have hhigh := c.toInt_lt
  have hne : c.toInt ≠ 2147483647 := fun e => h (Int32.toInt_inj.1 e)
  rw [Int32.toInt_add]
  exact Int.bmod_eq_of_le (by simp; omega) (by simp; omega)

/-- Counting down from any value but the smallest. -/
theorem toInt_sub_one (h : c ≠ Int32.minValue) : (c - 1).toInt = c.toInt - 1 := by
  have hlow := c.le_toInt
  have hhigh := c.toInt_lt
  have hne : c.toInt ≠ -2147483648 := fun e => h (Int32.toInt_inj.1 e)
  rw [Int32.toInt_sub]
  exact Int.bmod_eq_of_le (by simp; omega) (by simp; omega)

theorem ne_maxValue_of_lt {n : ℕ} (h : c.toInt < n) (hn : n < 2147483648) : c ≠ Int32.maxValue := by
  rintro rfl
  change (2147483647 : Int) < n at h
  omega

theorem ne_minValue_of_lt {n : ℕ} (h : -(n : Int) < c.toInt) (hn : n ≤ 2147483648) : c ≠ Int32.minValue := by
  rintro rfl
  change -(n : Int) < -2147483648 at h
  omega

end Counter

end AuraOS.Lib
