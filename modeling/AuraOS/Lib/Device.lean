import AuraOS.Lib.Interaction
import Mathlib.Data.List.Basic
import Mathlib.Logic.Function.Basic
import Mathlib.Tactic.Common

/-!
# Addressed devices whose operations may fail

A `Device α` stores a value of type `α` at every address.  Every read or write is one *operation*;
operations are numbered in the order they are issued, and `fault n` says that operation `n` fails.  A
failed write leaves its cell alone.  `log` lists the writes that took effect, oldest first, and
`replay` performs a list of writes on the bare contents: a power cut after `k` writes leaves
`replay (ws.take k)`.

`issue` performs a list of writes one after the other and gives up at the first one that fails; its
whole effect is given by `issue_eq` through `streak`, the number of operations that succeed in a row.
-/

namespace AuraOS.Lib

/-! ### Replaying writes -/

/-- The contents after the writes `ws`, performed in order. -/
def replay {α : Type} : List (ℕ × α) → (ℕ → α) → ℕ → α
  | [], c => c
  | (a, v) :: ws, c => replay ws (Function.update c a v)

section Replay

variable {α : Type}

@[simp] theorem replay_nil (c : ℕ → α) : replay [] c = c := rfl

@[simp] theorem replay_cons (a : ℕ) (v : α) (ws : List (ℕ × α)) (c : ℕ → α) :
    replay ((a, v) :: ws) c = replay ws (Function.update c a v) := rfl

theorem replay_append (ws vs : List (ℕ × α)) (c : ℕ → α) :
    replay (ws ++ vs) c = replay vs (replay ws c) := by
  induction ws generalizing c with
  | nil => rfl
  | cons w ws ih => exact ih _

/-- The writes `(b, f 0), (b + 1, f 1), …` put `f i` into cell `b + i`. -/
theorem replay_range (b : ℕ) (f : ℕ → α) (n : ℕ) (c : ℕ → α) (x : ℕ) :
    replay ((List.range n).map fun i => (b + i, f i)) c x =
      if b ≤ x ∧ x < b + n then f (x - b) else c x := by
  induction n with
  | zero =>
    rw [if_neg (by omega)]
    rfl
  | succ n ih =>
    rw [List.range_succ, List.map_append, replay_append]
    simp only [List.map_cons, List.map_nil, replay_cons, replay_nil]
    by_cases hx : x = b + n
    · subst hx
      rw [Function.update_self, if_pos (by omega), Nat.add_sub_cancel_left]
    · rw [Function.update_of_ne hx, ih]
      exact if_congr (by omega) rfl rfl

end Replay

/-! ### Operations that succeed in a row -/

/-- How many of the `n` operations numbered from `t` on succeed before the first failure. -/
def streak (fault : ℕ → Bool) : ℕ → ℕ → ℕ
  | _, 0 => 0
  | t, n + 1 => if fault t then 0 else streak fault (t + 1) n + 1

section Streak

variable {fault : ℕ → Bool}

theorem streak_le (t n : ℕ) : streak fault t n ≤ n := by
  induction n generalizing t with
  | zero => exact Nat.le_refl 0
  | succ n ih =>
    have := ih (t + 1)
    unfold streak
    split <;> omega

theorem streak_eq_iff (t n : ℕ) : streak fault t n = n ↔ ∀ j < n, fault (t + j) = false := by
  induction n generalizing t with
  | zero => simp [streak]
  | succ n ih =>
    have hle : streak fault (t + 1) n ≤ n := streak_le (t + 1) n
    unfold streak
    cases h : fault t with
    | true =>
      simp only [if_true]
      constructor
      · intro h0
        omega
      · intro hall
        have := hall 0 (by omega)
        rw [Nat.add_zero, h] at this
        cases this
    | false =>
      simp only [Bool.false_eq_true, if_false, Nat.add_right_cancel_iff, ih]
      constructor
      · intro hall j hj
        rcases j with _ | j
        · rw [Nat.add_zero, h]
        · have := hall j (by omega)
          rwa [show t + (j + 1) = t + 1 + j by omega]
      · intro hall j hj
        have := hall (j + 1) (by omega)
        rwa [show t + 1 + j = t + (j + 1) by omega]

theorem le_streak_iff {m n : ℕ} (t : ℕ) (hm : m ≤ n) : m ≤ streak fault t n ↔ ∀ j < m, fault (t + j) = false := by
  induction n generalizing t m with
  | zero =>
    obtain rfl := Nat.le_zero.1 hm
    exact iff_of_true (Nat.zero_le _) (fun j hj => absurd hj (Nat.not_lt_zero j))
  | succ n ih =>
    cases m with
    | zero => exact iff_of_true (Nat.zero_le _) (fun j hj => absurd hj (Nat.not_lt_zero j))
    | succ m =>
      have hnext : (∀ j < m + 1, fault (t + j) = false) ↔
          fault t = false ∧ ∀ j < m, fault (t + 1 + j) = false := by
        rw [Nat.forall_lt_succ_left, Nat.add_zero]
        simp only [Nat.add_comm, Nat.add_left_comm]
      have hstreak : streak fault t (n + 1) = if fault t then 0 else streak fault (t + 1) n + 1 := rfl
      rw [hnext, ← ih (t + 1) (Nat.le_of_succ_le_succ hm), hstreak]
      cases fault t with
      | true => simp
      | false => simp

theorem streak_of_never (h : ∀ n, fault n = false) (t n : ℕ) : streak fault t n = n :=
  (streak_eq_iff t n).2 fun j _ => h (t + j)

theorem streak_shift (c t n : ℕ) : streak (fun j => fault (j + c)) t n = streak fault (t + c) n := by
  induction n generalizing t with
  | zero => rfl
  | succ n ih =>
    unfold streak
    rw [ih, Nat.add_right_comm]

end Streak

/-! ### The device -/

/-- A device with one cell of type `α` at every address. -/
structure Device (α : Type) where
  cell : ℕ → α
  fault : ℕ → Bool
  ops : ℕ
  log : List (ℕ × α)

namespace Device

variable {α : Type}

/-- Read cell `a`; `none` when the operation fails. -/
def read (d : Device α) (a : ℕ) : Option α × Device α :=
  (if d.fault d.ops then none else some (d.cell a), { d with ops := d.ops + 1 })

/-- Write `v` to cell `a`; `false` when the operation fails. -/
def write (d : Device α) (a : ℕ) (v : α) : Bool × Device α :=
  if d.fault d.ops then (false, { d with ops := d.ops + 1 })
  else (true, { d with cell := Function.update d.cell a v, ops := d.ops + 1, log := d.log ++ [(a, v)] })

/-- Perform the writes in order, up to the first one that fails. -/
def issue : List (ℕ × α) → Device α → Bool × Device α
  | [], d => (true, d)
  | (a, v) :: ws, d =>
    match d.write a v with
    | (true, d) => issue ws d
    | (false, d) => (false, d)

theorem issue_cons (a : ℕ) (v : α) (ws : List (ℕ × α)) (d : Device α) :
    issue ((a, v) :: ws) d =
      if (d.write a v).1 then issue ws (d.write a v).2 else d.write a v := by
  conv_lhs => unfold issue
  rcases d.write a v with ⟨_ | _, d'⟩ <;> rfl

theorem issue_append (ws vs : List (ℕ × α)) (d : Device α) :
    issue (ws ++ vs) d = if (issue ws d).1 then issue vs (issue ws d).2 else issue ws d := by
  induction ws generalizing d with
  | nil => rfl
  | cons w ws ih =>
    obtain ⟨a, v⟩ := w
    rw [List.cons_append, issue_cons, issue_cons]
    cases h : (d.write a v).1 with
    | true => exact ih _
    | false => simp [h]

/-- `d'` is `d` after `n` more operations, the writes `ws` among them having taken effect. -/
structure Wrote (d : Device α) (ws : List (ℕ × α)) (n : ℕ) (d' : Device α) : Prop where
  cell : d'.cell = replay ws d.cell
  fault : d'.fault = d.fault
  ops : d'.ops = d.ops + n
  log : d'.log = d.log ++ ws

theorem Wrote.refl (d : Device α) : d.Wrote [] 0 d := ⟨rfl, rfl, rfl, by simp⟩

theorem Wrote.trans {d d' d'' : Device α} {ws vs : List (ℕ × α)} {n m : ℕ} (h : d.Wrote ws n d')
    (h' : d'.Wrote vs m d'') : d.Wrote (ws ++ vs) (n + m) d'' :=
  ⟨by rw [h'.cell, h.cell, replay_append], h'.fault.trans h.fault,
    by rw [h'.ops, h.ops, Nat.add_assoc], by rw [h'.log, h.log, List.append_assoc]⟩

theorem wrote_read (d : Device α) (a : ℕ) : d.Wrote [] 1 (d.read a).2 := ⟨rfl, rfl, rfl, by simp [read]⟩

theorem read_fst_of_ok {d : Device α} (h : d.fault d.ops = false) (a : ℕ) :
    (d.read a).1 = some (d.cell a) := by
  unfold read
  rw [h]
  rfl

theorem read_fst_of_fault {d : Device α} (h : d.fault d.ops = true) (a : ℕ) : (d.read a).1 = none := by
  unfold read
  rw [h]
  rfl

theorem write_of_ok {d : Device α} (h : d.fault d.ops = false) (a : ℕ) (v : α) :
    (d.write a v).1 = true ∧ d.Wrote [(a, v)] 1 (d.write a v).2 := by
  unfold write
  rw [h]
  exact ⟨rfl, rfl, rfl, rfl, rfl⟩

theorem write_of_fault {d : Device α} (h : d.fault d.ops = true) (a : ℕ) (v : α) :
    (d.write a v).1 = false ∧ d.Wrote [] 1 (d.write a v).2 := by
  unfold write
  rw [h]
  exact ⟨rfl, rfl, rfl, rfl, by simp⟩

/-- **A list of writes takes effect up to its first failure.** -/
theorem issue_eq (ws : List (ℕ × α)) (d : Device α) :
    let k := streak d.fault d.ops ws.length
    (issue ws d).1 = decide (k = ws.length) ∧
      ∃ n, d.Wrote (ws.take k) n (issue ws d).2 := by
  induction ws generalizing d with
  | nil => exact ⟨rfl, 0, Wrote.refl d⟩
  | cons w ws ih =>
    obtain ⟨a, v⟩ := w
    cases h : d.fault d.ops with
    | true =>
      obtain ⟨h1, h2⟩ := write_of_fault h a v
      have hk : streak d.fault d.ops ((a, v) :: ws).length = 0 := by
        simp [streak, h]
      have hi : issue ((a, v) :: ws) d = (false, (d.write a v).2) := by
        rw [issue_cons, h1, if_neg Bool.false_ne_true, ← h1]
      simp only [hk, hi]
      exact ⟨rfl, 1, h2⟩
    | false =>
      obtain ⟨h1, h2⟩ := write_of_ok h a v
      have hi : issue ((a, v) :: ws) d = issue ws (d.write a v).2 := by
        rw [issue_cons, h1, if_pos rfl]
      have hk : streak d.fault d.ops ((a, v) :: ws).length =
          streak (d.write a v).2.fault (d.write a v).2.ops ws.length + 1 := by
        rw [h2.fault, h2.ops]
        simp [streak, h]
      obtain ⟨ih1, n, ih2⟩ := ih (d.write a v).2
      simp only [hk, hi]
      refine ⟨by rw [ih1]; simp, 1 + n, ?_⟩
      rw [List.take_succ_cons]
      exact h2.trans ih2

end Device

/-! ### Programs over a device -/

/-- A query to a device with cells of type `α`. -/
inductive CellQuery (α : Type) where
  | read (a : ℕ)
  | write (a : ℕ) (v : α)

/-- The address of the query. -/
def CellQuery.addr {α : Type} : CellQuery α → ℕ
  | .read a => a
  | .write a _ => a

/-- The value of the cell, or whether the write succeeded. -/
abbrev CellReply {α : Type} : CellQuery α → Type
  | .read _ => Option α
  | .write _ _ => Bool

/-- How the device answers. -/
def Device.answer {α : Type} (d : Device α) : (q : CellQuery α) → CellReply q × Device α
  | .read a => d.read a
  | .write a v => d.write a v

namespace Device

variable {α β : Type} {d d' : Device α}

/-- A query is one write at most. -/
theorem wrote_answer (d : Device α) (q : CellQuery α) : ∃ ws, ws.length ≤ 1 ∧ d.Wrote ws 1 (d.answer q).2 := by
  cases q with
  | read a => exact ⟨[], Nat.zero_le _, wrote_read d a⟩
  | write a v =>
    cases h : d.fault d.ops with
    | true => exact ⟨[], Nat.zero_le _, (write_of_fault h a v).2⟩
    | false => exact ⟨[(a, v)], Nat.le_refl _, (write_of_ok h a v).2⟩

theorem wrote_run (p : Prog CellReply β) (d : Device α) : ∃ ws n, d.Wrote ws n (p.run answer d).2 := by
  induction p generalizing d with
  | ret a => exact ⟨[], 0, Wrote.refl d⟩
  | ask q k ih =>
    obtain ⟨ws, -, h⟩ := wrote_answer d q
    obtain ⟨vs, n, h'⟩ := ih (d.answer q).1 (d.answer q).2
    exact ⟨ws ++ vs, 1 + n, h.trans h'⟩

/-- **A program that is stopped** has made the first ones of its writes. -/
theorem wrote_of_reaches {p p' : Prog CellReply β}
    (h : Prog.Reaches (fun (d : Device α) q r d' => d.answer q = (r, d')) d p d' p') :
    ∃ ws vs n, d.Wrote ws n d' ∧ (p.run answer d).2.log = d.log ++ (ws ++ vs) := by
  induction h with
  | refl d p =>
    obtain ⟨vs, n, h⟩ := wrote_run p d
    exact ⟨[], vs, 0, Wrote.refl d, h.log⟩
  | @ask d t u q r k p' hstep _ ih =>
    obtain ⟨ws, vs, n, hwrote, hlog⟩ := ih
    obtain ⟨ws₁, -, h₁⟩ := wrote_answer d q
    rw [Prog.run_ask]
    rw [hstep] at h₁ ⊢
    refine ⟨ws₁ ++ ws, vs, 1 + n, h₁.trans hwrote, ?_⟩
    rw [hlog, h₁.log, List.append_assoc, List.append_assoc]

/-- It may be stopped behind any number of its writes. -/
theorem exists_reaches (p : Prog CellReply β) (d : Device α) {ws : List (ℕ × α)}
    (hlog : (p.run answer d).2.log = d.log ++ ws) {k : ℕ} (hk : k ≤ ws.length) : ∃ d' p',
    Prog.Reaches (fun (d : Device α) q r d' => d.answer q = (r, d')) d p d' p' ∧
      d'.cell = replay (ws.take k) d.cell := by
  induction p generalizing d ws k with
  | ret a =>
    have hws : ws = [] := List.self_eq_append_right.1 hlog
    rw [hws, List.take_nil]
    exact ⟨d, _, .refl d _, rfl⟩
  | ask q f ih =>
    obtain ⟨ws₁, hone, h₁⟩ := wrote_answer d q
    obtain ⟨vs, n, h₂⟩ := wrote_run (f (d.answer q).1) (d.answer q).2
    obtain rfl : ws = ws₁ ++ vs := by
      have hall : d.log ++ ws = d.log ++ (ws₁ ++ vs) := by
        rw [← hlog, Prog.run_ask, h₂.log, h₁.log, List.append_assoc]
      exact List.append_cancel_left hall
    by_cases hle : k < ws₁.length
    · obtain rfl : k = 0 := by omega
      exact ⟨d, _, .refl d _, rfl⟩
    · rw [List.take_append, List.take_of_length_le (by omega), replay_append, ← h₁.cell]
      rw [List.length_append] at hk
      obtain ⟨d', p', hreach, hcell⟩ := ih (d.answer q).1 (d.answer q).2 h₂.log (k := k - ws₁.length) (by omega)
      exact ⟨d', p', .ask rfl hreach, hcell⟩

end Device

end AuraOS.Lib
