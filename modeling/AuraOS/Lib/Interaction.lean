import Mathlib.Tactic.Common

/-!
# Programs that talk to a device

A program of type `Prog R α` asks queries, one after the other; the reply to the query `q` is of type `R q`, and
what the program does next depends on it.  A device is a relation: `step s q r t` says that in the state `s` it
may answer the query `q` by the reply `r`, and is then in the state `t`.

`wp step p P s` says that from `s` on the device answers every query of `p` in some way, and that `p` ends with
`P` in whichever way it does.  It splits along the program (`wp_bind`), and a program over one device is carried
over to another one that implements its queries (`wp_translate`).  A program may also be stopped at any of its
queries (`Reaches`): an implementation then leaves a state near one in which the program may be stopped itself
(`Reaches.of_translate`).
-/

namespace AuraOS.Lib

/-- A program with a result of type `α`. -/
inductive Prog {Q : Type} (R : Q → Type) (α : Type) : Type where
  | ret (a : α) : Prog R α
  | ask (q : Q) (k : R q → Prog R α) : Prog R α

namespace Prog

variable {Q : Type} {R : Q → Type} {α β S : Type}

/-- First `p`, then `f` of its result. -/
def bind : Prog R α → (α → Prog R β) → Prog R β
  | ret a, f => f a
  | ask q k, f => ask q fun r => (k r).bind f

instance : Monad (Prog R) where
  pure := ret
  bind := bind

/-- One query. -/
def query (q : Q) : Prog R (R q) := ask q ret

/-! ### Executions -/

/-- In the state `s` the program ends in the state `t` with the result `a`. -/
inductive Exec (step : S → (q : Q) → R q → S → Prop) : S → Prog R α → α → S → Prop
  | ret (s : S) (a : α) : Exec step s (ret a) a s
  | ask {s t u : S} {q : Q} {r : R q} {k : R q → Prog R α} {a : α} : step s q r t → Exec step t (k r) a u →
      Exec step s (ask q k) a u

/-- Every execution of the program from `s` on goes through, and ends with `P`. -/
def wp (step : S → (q : Q) → R q → S → Prop) : Prog R α → (α → S → Prop) → S → Prop
  | ret a, P, s => P a s
  | ask q k, P, s => (∃ r t, step s q r t) ∧ ∀ r t, step s q r t → wp step (k r) P t

section Wp

variable {step : S → (q : Q) → R q → S → Prop} {p : Prog R α} {f : α → Prog R β} {P P' : α → S → Prop} {s t : S}

@[simp] theorem wp_ret {a : α} : wp step (ret a) P s ↔ P a s := Iff.rfl

@[simp] theorem wp_pure {a : α} : wp step (pure a) P s ↔ P a s := Iff.rfl

theorem wp_ask {q : Q} {k : R q → Prog R α} :
    wp step (ask q k) P s ↔ (∃ r t, step s q r t) ∧ ∀ r t, step s q r t → wp step (k r) P t := Iff.rfl

theorem wp_query {q : Q} {P : R q → S → Prop} :
    wp step (query q) P s ↔ (∃ r t, step s q r t) ∧ ∀ r t, step s q r t → P r t := Iff.rfl

/-- **Sequences**: the second program starts where the first one ends. -/
theorem wp_bind {P : β → S → Prop} :
    wp step (p >>= f) P s ↔ wp step p (fun a t => wp step (f a) P t) s := by
  induction p generalizing s with
  | ret a => rfl
  | ask q k ih =>
    constructor
    · rintro ⟨hans, h⟩
      exact ⟨hans, fun r t hstep => (ih r).1 (h r t hstep)⟩
    · rintro ⟨hans, h⟩
      exact ⟨hans, fun r t hstep => (ih r).2 (h r t hstep)⟩

theorem wp_bind_pure : wp step (p >>= pure) P s ↔ wp step p P s := wp_bind

theorem wp.mono (h : wp step p P s) (hle : ∀ a t, P a t → P' a t) : wp step p P' s := by
  induction p generalizing s with
  | ret a => exact hle a s h
  | ask q k ih => exact ⟨h.1, fun r t hstep => ih r (h.2 r t hstep)⟩

/-- What `wp` says about the executions. -/
theorem Exec.of_wp {a : α} (h : Exec step s p a t) (hwp : wp step p P s) : P a t := by
  induction h with
  | ret s a => exact hwp
  | ask hstep _ ih => exact ih (hwp.2 _ _ hstep)

/-- There is an execution. -/
theorem wp.exists_exec (h : wp step p P s) : ∃ a t, Exec step s p a t ∧ P a t := by
  induction p generalizing s with
  | ret a => exact ⟨a, s, Exec.ret s a, h⟩
  | ask q k ih =>
    obtain ⟨⟨r, t, hstep⟩, hall⟩ := h
    obtain ⟨a, u, hexec, hP⟩ := ih r (hall r t hstep)
    exact ⟨a, u, Exec.ask hstep hexec, hP⟩

end Wp

/-! ### Programs that are stopped -/

/-- The program `p`, started in the state `s`, may be in the state `t` with the program `p'` to go. -/
inductive Reaches (step : S → (q : Q) → R q → S → Prop) : S → Prog R α → S → Prog R α → Prop
  | refl (s : S) (p : Prog R α) : Reaches step s p s p
  | ask {s t u : S} {q : Q} {r : R q} {k : R q → Prog R α} {p' : Prog R α} : step s q r t →
      Reaches step t (k r) u p' → Reaches step s (ask q k) u p'

section Reaches

variable {step : S → (q : Q) → R q → S → Prop} {p p' : Prog R α} {f : α → Prog R β} {P : α → S → Prop} {s t : S}

/-- What holds of a program holds of the rest of it. -/
theorem Reaches.rest (h : Reaches step s p t p') (hp : wp step p P s) : wp step p' P t := by
  induction h with
  | refl s p => exact hp
  | ask hstep _ ih => exact ih (hp.2 _ _ hstep)

/-- A property of the state and of what is to go that every step keeps. -/
theorem Reaches.invariant {I : S → Prog R α → Prop}
    (hstep : ∀ s q k r t, I s (Prog.ask q k) → step s q r t → I t (k r)) (h : Reaches step s p t p') (hs : I s p) :
    I t p' := by
  induction h with
  | refl s p => exact hs
  | ask hst _ ih => exact ih (hstep _ _ _ _ _ hs hst)

theorem Exec.reaches {a : α} (h : Exec step s p a t) : Reaches step s p t (Prog.ret a) := by
  induction h with
  | ret s a => exact .refl s _
  | ask hstep _ ih => exact .ask hstep ih

/-- **A sequence is stopped** in its first part, or in the second one behind the first one. -/
theorem Reaches.of_bind {p' : Prog R β} (h : Reaches step s (p >>= f) t p') :
    (∃ p₁, Reaches step s p t p₁) ∨ ∃ a u, Exec step s p a u ∧ Reaches step u (f a) t p' := by
  induction p generalizing s with
  | ret a => exact Or.inr ⟨a, s, .ret s a, h⟩
  | ask q k ih =>
    cases h with
    | refl => exact Or.inl ⟨_, .refl _ _⟩
    | ask hstep hrest =>
      rcases ih _ hrest with ⟨p₁, h₁⟩ | ⟨a, u, hexec, h₂⟩
      · exact Or.inl ⟨p₁, .ask hstep h₁⟩
      · exact Or.inr ⟨a, u, .ask hstep hexec, h₂⟩

/-- The first part of a sequence goes through, and the second one is stopped. -/
theorem Exec.reaches_bind {a : α} {u : S} {p' : Prog R β} (h : Exec step s p a u)
    (h' : Reaches step u (f a) t p') : Reaches step s (p >>= f) t p' := by
  induction h with
  | ret s a => exact h'
  | ask hstep _ ih => exact .ask hstep (ih h')

end Reaches

/-! ### Loops within a number of turns -/

section Fuel

variable {step : S → (q : Q) → R q → S → Prop} {p : OptionT (Prog R) α} {f : α → OptionT (Prog R) β}
  {P P' : α → S → Prop} {s : S}

/-- The program, which gives up when a loop has used up its turns, does not do so and ends with `P`. -/
def done (step : S → (q : Q) → R q → S → Prop) (p : OptionT (Prog R) α) (P : α → S → Prop) (s : S) : Prop :=
  p.run.wp step (fun o t => ∃ a, o = some a ∧ P a t) s

theorem done_pure {a : α} (h : P a s) : done step (pure a) P s := ⟨a, rfl, h⟩

theorem done_lift {p : Prog R α} (h : p.wp step P s) : done step (liftM p) P s := by
  change (p >>= fun a => pure (some a)).wp step _ s
  exact wp_bind.2 (h.mono fun a t ha => ⟨a, rfl, ha⟩)

theorem done_bind {P : β → S → Prop} (h : done step p (fun a t => done step (f a) P t) s) :
    done step (p >>= f) P s := by
  unfold done
  rw [OptionT.run_bind, Option.elimM, wp_bind]
  refine h.mono fun o t => ?_
  rintro ⟨a, rfl, ha⟩
  exact ha

theorem done.mono (h : done step p P s) (hle : ∀ a t, P a t → P' a t) : done step p P' s := by
  refine wp.mono h fun o t => ?_
  rintro ⟨a, rfl, ha⟩
  exact ⟨a, rfl, hle a t ha⟩

/-- There is an execution. -/
theorem done.exists_exec (h : done step p P s) : ∃ a t, Exec step s p.run (some a) t ∧ P a t := by
  obtain ⟨o, t, hexec, a, rfl, ha⟩ := wp.exists_exec h
  exact ⟨a, t, hexec, ha⟩

end Fuel

/-! ### Devices that leave no choice -/

/-- The run of a program on a device that is a function. -/
def run (f : S → (q : Q) → R q × S) : Prog R α → S → α × S
  | ret a, s => (a, s)
  | ask q k, s => run f (k (f s q).1) (f s q).2

section Run

variable {f : S → (q : Q) → R q × S} {s : S}

@[simp] theorem run_ret (a : α) : run f (ret a) s = (a, s) := rfl

@[simp] theorem run_pure (a : α) : run f (pure a : Prog R α) s = (a, s) := rfl

@[simp] theorem run_ask (q : Q) (k : R q → Prog R α) : run f (ask q k) s = run f (k (f s q).1) (f s q).2 := rfl

@[simp] theorem run_query (q : Q) : run f (query q : Prog R (R q)) s = f s q := rfl

@[simp] theorem run_bind (p : Prog R α) (g : α → Prog R β) :
    run f (p >>= g) s = run f (g (run f p s).1) (run f p s).2 := by
  induction p generalizing s with
  | ret a => rfl
  | ask q k ih => exact ih _

theorem wp_iff_run {p : Prog R α} {P : α → S → Prop} :
    wp (fun s q r t => f s q = (r, t)) p P s ↔ P (run f p s).1 (run f p s).2 := by
  induction p generalizing s with
  | ret a => exact Iff.rfl
  | ask q k ih =>
    rw [wp_ask, run_ask]
    constructor
    · rintro ⟨-, h⟩
      exact (ih _).1 (h _ _ rfl)
    · intro h
      refine ⟨⟨_, _, rfl⟩, fun r t e => ?_⟩
      rw [Prod.ext_iff] at e
      obtain ⟨rfl, rfl⟩ := e
      exact (ih _).2 h

end Run

/-! ### What a program asks -/

/-- Whatever the replies are, the program asks good queries only, and ends with a result of the kind `post`. -/
def Within (good : Q → Prop) (post : α → Prop) : Prog R α → Prop
  | ret a => post a
  | ask q k => good q ∧ ∀ r, Within good post (k r)

section Within

variable {good : Q → Prop} {post : α → Prop} {p : Prog R α}

@[simp] theorem within_pure {a : α} : Within good post (pure a : Prog R α) ↔ post a := Iff.rfl

theorem within_query {q : Q} {post : R q → Prop} :
    Within good post (query q : Prog R (R q)) ↔ good q ∧ ∀ r, post r := Iff.rfl

theorem within_bind {f : α → Prog R β} {post : β → Prop} (h : Within good (fun a => Within good post (f a)) p) :
    Within good post (p >>= f) := by
  induction p with
  | ret a => exact h
  | ask q k ih => exact ⟨h.1, fun r => ih r (h.2 r)⟩

theorem Within.mono {post' : α → Prop} (h : Within good post p) (hle : ∀ a, post a → post' a) :
    Within good post' p := by
  induction p with
  | ret a => exact hle a h
  | ask q k ih => exact ⟨h.1, fun r => ih r (h.2 r)⟩

end Within

/-- The program asks at most `n` of the queries that `c` counts. -/
def AtMost (c : Q → Bool) : ℕ → Prog R α → Prop
  | _, ret _ => True
  | n, ask q k => (c q).toNat ≤ n ∧ ∀ r, AtMost c (n - (c q).toNat) (k r)

section AtMost

variable {c : Q → Bool} {p : Prog R α} {f : α → Prog R β} {n m : ℕ}

theorem AtMost.mono (h : AtMost c n p) (hle : n ≤ m) : AtMost c m p := by
  induction p generalizing n m with
  | ret a => trivial
  | ask q k ih => exact ⟨Nat.le_trans h.1 hle, fun r => ih r (h.2 r) (Nat.sub_le_sub_right hle _)⟩

theorem atMost_query {q : Q} (h : (c q).toNat ≤ n) : AtMost c n (query q : Prog R (R q)) := ⟨h, fun _ => trivial⟩

theorem atMost_bind (h : AtMost c n p) (hf : ∀ a, AtMost c m (f a)) : AtMost c (n + m) (p >>= f) := by
  induction p generalizing n with
  | ret a => exact (hf a).mono (Nat.le_add_left m n)
  | ask q k ih =>
    refine ⟨Nat.le_trans h.1 (Nat.le_add_right n m), fun r => ?_⟩
    rw [Nat.sub_add_comm h.1]
    exact ih r (h.2 r)

end AtMost

/-! ### Implementations -/

section Translate

variable {Q' : Type} {R' : Q' → Type} {T : Type}

/-- Every query `q` is implemented by the program `h q` over other queries. -/
def translate (h : (q : Q) → Prog R' (R q)) : Prog R α → Prog R' α
  | ret a => ret a
  | ask q k => (h q).bind fun r => translate h (k r)

theorem translate_ask (h : (q : Q) → Prog R' (R q)) (q : Q) (k : R q → Prog R α) :
    translate h (ask q k) = (h q >>= fun r => translate h (k r)) := rfl

/-- **Implementations compose**: where the implementation of each good query simulates the query, that of a
program which asks good queries only simulates the program. -/
theorem wp_translate {step : S → (q : Q) → R q → S → Prop} {step' : T → (q : Q') → R' q → T → Prop}
    {h : (q : Q) → Prog R' (R q)} {Sim : S → T → Prop} {good : Q → Prop} {post : α → Prop}
    (hsim : ∀ q s t, good q → Sim s t → wp step' (h q) (fun r t' => ∃ s', step s q r s' ∧ Sim s' t') t)
    {p : Prog R α} {P : α → S → Prop} {s : S} {t : T} (hgood : Within good post p) (hst : Sim s t)
    (hp : wp step p P s) : wp step' (translate h p) (fun a t' => ∃ s', P a s' ∧ Sim s' t') t := by
  induction p generalizing s t with
  | ret a => exact ⟨s, hp, hst⟩
  | ask q k ih =>
    rw [translate_ask, wp_bind]
    refine (hsim q s t hgood.1 hst).mono ?_
    rintro r t' ⟨s', hstep, hst'⟩
    exact ih r (hgood.2 r) hst' (hp.2 r s' hstep)

/-- **An implementation that is stopped**: where that of each good query leaves a state near the one before or the
one behind the query, the device is near a state in which the program itself may be stopped. -/
theorem Reaches.of_translate {step : S → (q : Q) → R q → S → Prop} {step' : T → (q : Q') → R' q → T → Prop}
    {h : (q : Q) → Prog R' (R q)} {Sim Near : S → T → Prop} {good : Q → Prop} {post : α → Prop}
    (hsim : ∀ q s t, good q → Sim s t → wp step' (h q) (fun r t' => ∃ s', step s q r s' ∧ Sim s' t') t)
    (hnear : ∀ s t, Sim s t → Near s t)
    (hstop : ∀ q s t u p', good q → Sim s t → Reaches step' t (h q) u p' →
      Near s u ∨ ∃ r s', step s q r s' ∧ Near s' u)
    {p : Prog R α} {s : S} {t u : T} {p' : Prog R' α} (hgood : Within good post p) (hst : Sim s t)
    (hp : Reaches step' t (translate h p) u p') : ∃ s' p₁, Reaches step s p s' p₁ ∧ Near s' u := by
  induction p generalizing s t with
  | ret a =>
    cases hp with
    | refl => exact ⟨s, _, .refl s _, hnear _ _ hst⟩
  | ask q k ih =>
    rcases Reaches.of_bind hp with ⟨p₁, hq⟩ | ⟨r, t', hexec, hrest⟩
    · rcases hstop q s t u p₁ hgood.1 hst hq with h₀ | ⟨r, s', hstep, h₁⟩
      · exact ⟨s, _, .refl s _, h₀⟩
      · exact ⟨s', _, .ask hstep (.refl s' _), h₁⟩
    · obtain ⟨s', hstep, hst'⟩ := hexec.of_wp (hsim q s t hgood.1 hst)
      obtain ⟨s'', p₁, hreach, hn⟩ := ih r (hgood.2 r) hst' hrest
      exact ⟨s'', p₁, .ask hstep hreach, hn⟩

/-- Where the device leaves no choice, its implementation can be stopped wherever the program can. -/
theorem Reaches.translate {step : S → (q : Q) → R q → S → Prop} {step' : T → (q : Q') → R' q → T → Prop}
    {h : (q : Q) → Prog R' (R q)} {Sim : S → T → Prop} {good : Q → Prop} {post : α → Prop}
    (hsim : ∀ q s t, good q → Sim s t → wp step' (h q) (fun r t' => ∃ s', step s q r s' ∧ Sim s' t') t)
    (hdet : ∀ {s q r t r' t'}, step s q r t → step s q r' t' → r = r' ∧ t = t')
    {p p₁ : Prog R α} {s s' : S} {t : T} (hp : Reaches step s p s' p₁) (hgood : Within good post p) (hst : Sim s t) :
    ∃ t', Reaches step' t (Prog.translate h p) t' (Prog.translate h p₁) ∧ Sim s' t' := by
  induction hp generalizing t with
  | refl s p => exact ⟨t, .refl t _, hst⟩
  | @ask s s₁ s' q r k p₁ hstep _ ih =>
    obtain ⟨r', t₁, hexec, s₂, hstep', hst'⟩ := (hsim q s t hgood.1 hst).exists_exec
    obtain ⟨rfl, rfl⟩ := hdet hstep hstep'
    obtain ⟨t', hreach, hst''⟩ := ih (hgood.2 r) hst'
    exact ⟨t', hexec.reaches_bind hreach, hst''⟩

end Translate

end Prog

end AuraOS.Lib
