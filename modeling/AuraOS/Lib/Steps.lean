import Mathlib.Tactic.Common

/-!
# Runs of labelled transition systems

`Run step s as t`: from `s` the steps with the labels `as` lead to `t`.  A property that every step
keeps holds after every run (`Run.invariant`), and one that is kept only by the steps with certain
labels holds after the runs of these (`Run.invariant_of_labels`).
-/

namespace AuraOS.Lib

variable {S A : Type*}

/-- The runs of the system `step`. -/
inductive Run (step : S → A → S → Prop) : S → List A → S → Prop
  | nil (s : S) : Run step s [] s
  | cons {s t u : S} {a : A} {as : List A} : step s a t → Run step t as u → Run step s (a :: as) u

namespace Run

variable {step : S → A → S → Prop} {s t u : S} {a : A} {as bs : List A}

@[simp] theorem nil_iff : Run step s [] t ↔ s = t := by
  constructor
  · rintro ⟨⟩
    rfl
  · rintro rfl
    exact Run.nil s

theorem cons_iff : Run step s (a :: as) u ↔ ∃ t, step s a t ∧ Run step t as u := by
  constructor
  · rintro (_ | ⟨h, h'⟩)
    exact ⟨_, h, h'⟩
  · rintro ⟨t, h, h'⟩
    exact Run.cons h h'

theorem append (h : Run step s as t) (h' : Run step t bs u) : Run step s (as ++ bs) u := by
  induction h with
  | nil => exact h'
  | cons hstep _ ih => exact Run.cons hstep (ih h')

theorem append_iff : Run step s (as ++ bs) u ↔ ∃ t, Run step s as t ∧ Run step t bs u := by
  refine ⟨fun h => ?_, fun ⟨t, h, h'⟩ => h.append h'⟩
  induction as generalizing s with
  | nil => exact ⟨s, Run.nil s, h⟩
  | cons a as ih =>
    obtain ⟨t, hstep, hrest⟩ := cons_iff.1 h
    obtain ⟨u, h1, h2⟩ := ih hrest
    exact ⟨u, Run.cons hstep h1, h2⟩

/-- **Induction on the last step**, for properties of the state and of the labels so far. -/
theorem history {I : List A → S → Prop} (hnil : I [] s)
    (hstep : ∀ as t a u, I as t → step t a u → I (as ++ [a]) u) (h : Run step s as t) : I as t := by
  have key : ∀ {s as t}, Run step s as t → ∀ pre, I pre s → I (pre ++ as) t := by
    intro s as t h
    induction h with
    | nil => exact fun pre hpre => by simpa using hpre
    | cons hs _ ih => exact fun pre hpre => by simpa using ih _ (hstep pre _ _ _ hpre hs)
  exact key h [] hnil

/-- A property of states that the steps with the labels in `as` keep. -/
theorem invariant_of_labels {I : S → Prop} (h : Run step s as t)
    (hI : ∀ a ∈ as, ∀ s t, I s → step s a t → I t) (hs : I s) : I t := by
  induction h with
  | nil => exact hs
  | cons hstep _ ih =>
    exact ih (fun a ha => hI a (List.mem_cons_of_mem _ ha)) (hI _ List.mem_cons_self _ _ hs hstep)

/-- **Invariants**: what every step keeps holds after every run. -/
theorem invariant {I : S → Prop} (hI : ∀ s a t, I s → step s a t → I t) (h : Run step s as t)
    (hs : I s) : I t :=
  h.invariant_of_labels (fun a _ s t => hI s a t) hs

/-- The states that a run passes satisfy its invariants. -/
theorem and_invariant {I : S → Prop} (hI : ∀ s a t, I s → step s a t → I t) (h : Run step s as t)
    (hs : I s) : Run (fun s a t => step s a t ∧ I s) s as t := by
  induction h with
  | nil s => exact Run.nil s
  | cons hstep _ ih => exact Run.cons ⟨hstep, hs⟩ (ih (hI _ _ _ hs hstep))

/-- A condition on the labels of a run. -/
theorem and_labels_iff {P : A → Prop} :
    Run (fun s a t => step s a t ∧ P a) s as t ↔ Run step s as t ∧ ∀ a ∈ as, P a := by
  induction as generalizing s with
  | nil => simp
  | cons a as ih =>
    simp only [cons_iff, ih, List.forall_mem_cons]
    constructor
    · rintro ⟨u, ⟨hstep, ha⟩, hrest, has⟩
      exact ⟨⟨u, hstep, hrest⟩, ha, has⟩
    · rintro ⟨⟨u, hstep, hrest⟩, ha, has⟩
      exact ⟨u, ⟨hstep, ha⟩, hrest, has⟩

/-- A system with more steps has more runs. -/
theorem mono {step' : S → A → S → Prop} (hle : ∀ s a t, step s a t → step' s a t)
    (h : Run step s as t) : Run step' s as t := by
  induction h with
  | nil s => exact Run.nil s
  | cons hstep _ ih => exact Run.cons (hle _ _ _ hstep) ih

/-- A map of the states and the labels that takes the steps with the labels in `as` to steps. -/
theorem map {S' A' : Type*} {step' : S' → A' → S' → Prop} (f : S → S') (g : A → A')
    (hle : ∀ a ∈ as, ∀ s t, step s a t → step' (f s) (g a) (f t)) (h : Run step s as t) :
    Run step' (f s) (as.map g) (f t) := by
  induction h with
  | nil s => exact Run.nil (f s)
  | cons hstep _ ih =>
    apply Run.cons (hle _ List.mem_cons_self _ _ hstep)
    exact ih fun a ha => hle a (List.mem_cons_of_mem _ ha)

/-- **Simulation**: where every step is one of the other system, so is every run. -/
theorem simulate {S' : Type*} {step' : S' → A → S' → Prop} {R : S → S' → Prop} {s' : S'}
    (hsim : ∀ s a t s', R s s' → step s a t → ∃ t', step' s' a t' ∧ R t t') (h : Run step s as t) (hs : R s s') :
    ∃ t', Run step' s' as t' ∧ R t t' := by
  induction h generalizing s' with
  | nil s => exact ⟨s', Run.nil s', hs⟩
  | cons hstep _ ih =>
    obtain ⟨t', hstep', ht⟩ := hsim _ _ _ _ hs hstep
    obtain ⟨u', hrun, hu⟩ := ih ht
    exact ⟨u', Run.cons hstep' hrun, hu⟩

/-- Two systems that have the same steps from the states of an invariant have the same runs. -/
theorem congr {step' : S → A → S → Prop} {I : S → Prop} (hI : ∀ s a t, I s → step s a t → I t)
    (hiff : ∀ s a t, I s → (step s a t ↔ step' s a t)) (hs : I s) :
    Run step s as t ↔ Run step' s as t := by
  constructor
  · intro h
    induction h with
    | nil s => exact Run.nil s
    | cons hstep _ ih => exact Run.cons ((hiff _ _ _ hs).1 hstep) (ih (hI _ _ _ hs hstep))
  · intro h
    induction h with
    | nil s => exact Run.nil s
    | cons hstep _ ih =>
      have hstep' := (hiff _ _ _ hs).2 hstep
      exact Run.cons hstep' (ih (hI _ _ _ hs hstep'))

end Run

end AuraOS.Lib
