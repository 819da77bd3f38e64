import AuraOS.Env.Registry.File

/-!
# Forged variables

A saved value may hold line ends, and `env_load` reads what is behind one as a line of its own.  So a value
can set other variables at the next boot.  Two saved registries that differ only in the value of one
variable load alike elsewhere if its key has no delimiter and both values have the same further lines
(`loaded_agree`).
-/

namespace AuraOS.Env

open AuraOS.Lib AuraOS.Kernel AuraOS.Env.Fat12

section Agree

variable {l l' as : Vars} {k x v w : List UInt8}

/-- Both registries set the same key, to the same value unless it is `k`. -/
theorem agreeOff_setVar (h : AgreeOff k l l') (hk : k.length ≤ 15) (hv : x ≠ k → v = w) :
    AgreeOff k (setVar x v l) (setVar x w l') := by
  have hv' : x ≠ k → v.take 31 = w.take 31 := fun hne => by rw [hv hne]
  unfold setVar
  rw [h.keys_eq, h.length_eq]
  by_cases hx : x ∈ keys l'
  · rw [if_pos hx, if_pos hx]
    exact h.assign hv'
  · rw [if_neg hx, if_neg hx]
    split
    · refine h.append (List.Forall₂.cons ⟨rfl, fun hne => hv' ?_⟩ List.Forall₂.nil)
      rintro rfl
      exact hne (List.take_of_length_le hk)
    · exact h

/-- Both registries are overlaid with the same entries. -/
theorem agreeOff_setVars (h : AgreeOff k l l') (hk : k.length ≤ 15) :
    AgreeOff k (setVars as l) (setVars as l') := by
  induction as generalizing l l' with
  | nil => exact h
  | cons e as ih => exact ih (agreeOff_setVar h hk fun _ => rfl)

theorem setVars_append (as bs l : Vars) : setVars (as ++ bs) l = setVars bs (setVars as l) :=
  List.foldl_append

/-- **Two texts** whose entries differ only in the value of `k` are loaded alike off `k`. -/
theorem agreeOff_render {l₁ l₂ : Vars} (heq : 61 ∉ k) (hnl : 10 ∉ k) (hk : k.length ≤ 15)
    (htext : CStr.text k = k) (hfurther : further 61 10 v = further 61 10 w) (m : Vars) :
    AgreeOff k (setVars (assignments 61 10 (render 61 10 (l₁ ++ (k, v) :: l₂))) m)
      (setVars (assignments 61 10 (render 61 10 (l₁ ++ (k, w) :: l₂))) m) := by
  rw [assignments_render_eq, assignments_render_eq, List.flatMap_append, List.flatMap_append,
    List.flatMap_cons, List.flatMap_cons, setVars_append, setVars_append, setVars_append, setVars_append]
  refine agreeOff_setVars ?_ hk
  rw [assignments_entry heq hnl (by decide), assignments_entry heq hnl (by decide), hfurther]
  refine agreeOff_setVars (agreeOff_setVar (AgreeOff.refl k _) hk fun hne => ?_) hk
  exact absurd htext hne

end Agree

section Loaded

variable {t t' t₀ u : EnvTable} {s s' r r' : Driver} {calls : List EnvCall} {key value : CStr}
  {v : List UInt8}

/-- **One variable does not forge another** if its key has no delimiter, and its two values have the same
further lines. -/
theorem loaded_agree (hr : Run EnvStep (envInit t₀) calls t) (hget : envGet (some key) t = some v)
    (hset : t' = (envSet (some key) (some value) t).2) (hfit : totalLen t < 512) (hfit' : totalLen t' < 512)
    (hp : Persisted t s s') (hp' : Persisted t' r r') (heq : 61 ∉ key.text) (hnl : 10 ∉ key.text)
    (hfurther : further 61 10 v = further 61 10 (value.text.take 31)) {key₂ : CStr}
    (hne : key₂.text ≠ key.text) :
    envGet (some key₂) (envLoad (envInit u) s').2.1 = envGet (some key₂) (envLoad (envInit u) r').2.1 := by
  obtain ⟨l, hl⟩ := run_represents hr
  subst hset
  have hl' := hl.envSet key value
  rw [hl.envGet_eq] at hget
  obtain ⟨l₁, l₂, rfl, hnot⟩ := List.lookup_eq_some_iff.1 hget
  have hnotMem : key.text ∉ keys l₁ := by
    intro hmem
    obtain ⟨e, he, hek⟩ := List.mem_map.1 hmem
    simpa [hek] using hnot e he
  have hmem : key.text ∈ keys (l₁ ++ (key.text, v) :: l₂) := by simp
  have hassign : setVar key.text value.text (l₁ ++ (key.text, v) :: l₂) =
      l₁ ++ (key.text, value.text.take 31) :: l₂ := by
    unfold setVar
    rw [if_pos hmem, assign_append hnotMem, assign_cons_self]
  rw [hassign] at hl'
  have hload := hl.reload hp u
  have hload' := hl'.reload hp' u
  rw [hl.saveBytes_of_fits hfit] at hload
  rw [hl'.saveBytes_of_fits hfit'] at hload'
  rw [hload.envGet_eq, hload'.envGet_eq]
  exact (agreeOff_render heq hnl (hl.key_le (key.text, v) (by simp))
    (CStr.text_eq_self (CStr.zero_notMem_text key)) hfurther bootVars).lookup_eq hne

/-- `A=1` becomes `A=2`. -/
theorem loaded_agree_oneVar :
    envGet (some envKeyOsName) (envLoad (envInit zeroTable)
      (envSave oneVar (.mounted blankDisk fun _ => false)).2).2.1 =
    envGet (some envKeyOsName) (envLoad (envInit zeroTable)
      (envSave (envSet (some [65]) (some [50]) oneVar).2 (.mounted blankDisk fun _ => false)).2).2.1 := by
  have h : Represents oneVar _ := (represents_envInit zeroTable).setAll [⟨[65], [49]⟩]
  have h' := h.envSet [65] [50]
  have hget : envGet (some [65]) oneVar = some [49] := by
    rw [h.envGet_eq]
    decide
  have hfit : totalLen oneVar < 512 := by
    rw [h.totalLen_eq]
    decide
  have hfit' : totalLen (envSet (some [65]) (some [50]) oneVar).2 < 512 := by
    rw [h'.totalLen_eq]
    decide
  exact loaded_agree (run_setAll _ _) hget rfl hfit hfit' h.persisted_blank h'.persisted_blank (by decide)
    (by decide) (by decide) (by decide)

/-- The value of `A` becomes `"x\nB=2"`. -/
def forgingVar : EnvTable := (envSet (some [65]) (some [120, 10, 66, 61, 50]) oneVar).2

/-- **`A` forges `B`**: after the change of `A`, the variable `B` appears at the next boot. -/
theorem forgingVar_sets_B :
    (envSet (some [65]) (some [120, 10, 66, 61, 50]) oneVar).1 = 0 ∧
    totalLen oneVar < 512 ∧ totalLen forgingVar < 512 ∧
    (∀ key₂ : CStr, key₂.text ≠ [65] → envGet (some key₂) forgingVar = envGet (some key₂) oneVar) ∧
    Persisted oneVar (.mounted blankDisk fun _ => false)
      (envSave oneVar (.mounted blankDisk fun _ => false)).2 ∧
    Persisted forgingVar (.mounted blankDisk fun _ => false)
      (envSave forgingVar (.mounted blankDisk fun _ => false)).2 ∧
    envGet (some [66]) (envLoad (envInit zeroTable)
      (envSave oneVar (.mounted blankDisk fun _ => false)).2).2.1 = none ∧
    envGet (some [66]) (envLoad (envInit zeroTable)
      (envSave forgingVar (.mounted blankDisk fun _ => false)).2).2.1 = some [50] := by
  have h : Represents oneVar _ := (represents_envInit zeroTable).setAll [⟨[65], [49]⟩]
  have h' : Represents forgingVar _ := h.envSet [65] [120, 10, 66, 61, 50]
  have hload := h.reload h.persisted_blank zeroTable
  have hload' := h'.reload h'.persisted_blank zeroTable
  have hfit : totalLen oneVar < 512 := by
    rw [h.totalLen_eq]
    decide
  have hfit' : totalLen forgingVar < 512 := by
    rw [h'.totalLen_eq]
    decide
  rw [h.saveBytes_of_fits hfit] at hload
  rw [h'.saveBytes_of_fits hfit'] at hload'
  refine ⟨by decide, hfit, hfit', fun key₂ hne => ?_, h.persisted_blank, h'.persisted_blank, ?_, ?_⟩
  · rw [h'.envGet_eq, h.envGet_eq]
    exact lookup_assign_of_ne hne
  · rw [hload.envGet_eq]
    decide
  · rw [hload'.envGet_eq]
    decide

end Loaded

end AuraOS.Env
