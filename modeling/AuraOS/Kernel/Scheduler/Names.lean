import AuraOS.Kernel.Scheduler.Accounting
import AuraOS.Kernel.Strings

/-!
# Removal by name

A slot in use holds the first 15 characters of the name under which its task was added (`names_of_run`), and
`scheduler_remove_task` compares all of its argument, up to 16 characters.  So a name that is longer finds no task,
and a name of 15 characters may find a task whose name was cut down to it; and as the search does not look at the
state, it also finds a task that was removed since the last tick.  Removal is what it should be exactly if nothing
of this happens (`removalFinds_iff`).
-/

namespace AuraOS.Kernel.Scheduler

open AuraOS.Lib

variable {F : Type}

/-! ### The names of the tasks -/

/-- The name that slot `i` stores. -/
def Sched.name (s : Sched F) (i : ℕ) : List UInt8 := str (s.taskTable i).name

/-- The name under which the last task was added to each slot, after the action. -/
def Act.rename : Act F → (ℕ → CStr) → ℕ → CStr
  | .add (some name) _ _ .ok (some i), names => Function.update names i name
  | _, names => names

/-- **The names** under which the tasks were added. -/
def addedNames (acts : List (Act F)) : ℕ → CStr := acts.foldl (fun names a => a.rename names) fun _ => []

/-- What slot `i` stores of the name `name`. -/
def cut (name : CStr) : List UInt8 := name.text.take (taskNameLen - 1)

section Names

variable {s t : Sys F} {a : Act F} {acts : List (Act F)} {names : ℕ → CStr} {i j : ℕ}

theorem addedNames_append (acts : List (Act F)) (a : Act F) :
    addedNames (acts ++ [a]) = a.rename (addedNames acts) := by
  simp [addedNames]

theorem name_setTask {s : Sched F} {task : Task F} (h : task.name = (s.taskTable j).name) :
    (s.setTask j task).name i = s.name i := by
  unfold Sched.name Sched.setTask
  dsimp only
  by_cases hij : i = j
  · rw [hij, Function.update_self, h]
  · rw [Function.update_of_ne hij]

theorem name_startTick {s : Sched F} : (startTick s).name i = s.name i := by
  unfold startTick Sched.name
  dsimp only
  split <;> rfl

theorem schedulerAddTask_name {name : Option CStr} {fn : Option F} {period : UInt32} {s s' : Sched F}
    (h : schedulerAddTask name fn period s = (.ok, s')) : ∃ text j, name = some text ∧ freeSlot s = some j ∧
      ∀ i, s'.name i = if i = j then cut text else s.name i := by
  unfold schedulerAddTask at h
  split at h
  next text _ =>
    by_cases hfull : (schedMaxTasks : Int) ≤ s.taskCountVal.toInt
    · rw [if_pos hfull] at h
      cases h
    · rw [if_neg hfull] at h
      cases hslot : freeSlot s <;> rw [hslot] at h <;> cases h
      refine ⟨text, _, rfl, rfl, ?_⟩
      intro i
      unfold Sched.name Sched.setTask
      dsimp only
      split
      next hij =>
        rw [hij, Function.update_self]
        exact str_strncpyK (by decide) (Nat.le_refl _)
      next hij => rw [Function.update_of_ne hij]
  next => cases h

theorem schedulerRemoveTask_name {name : CStr} {s s' : Sched F} {res : AuraStatus}
    (h : schedulerRemoveTask name s = (res, s')) : s'.name i = s.name i := by
  unfold schedulerRemoveTask at h
  cases hfind : findTask name s <;> rw [hfind] at h <;> cases h
  · rfl
  · exact name_setTask rfl

/-- The slots in use store the names `names`. -/
def Named (names : ℕ → CStr) (s : Sched F) : Prop := ∀ i, s.state i ≠ .empty → s.name i = cut (names i)

/-- The names stay, and no empty slot is filled. -/
theorem Named.keep {s s' : Sched F} (hn : Named names s) (hname : ∀ i, s'.name i = s.name i)
    (hempty : ∀ i, s.state i = .empty → s'.state i = .empty) : Named names s' := by
  intro i hi
  rw [hname i]
  apply hn
  intro h
  exact hi (hempty i h)

/-- A slot in use is written, but not its name. -/
theorem Named.setTask {s : Sched F} {task : Task F} (hn : Named names s) (hj : s.state j ≠ .empty)
    (hname : task.name = (s.taskTable j).name) : Named names (s.setTask j task) := by
  apply hn.keep fun i => name_setTask hname
  intro i hi
  rw [state_setTask, if_neg]
  · exact hi
  · rintro rfl
    exact hj hi

/-- **The step lemma.** -/
theorem Named.step (hn : Named names s.sched) (hbody : BodyInUse s) (h : Step s a t) :
    Named (a.rename names) t.sched := by
  cases h with
  | @add s s' c name fn period res _ e =>
    rcases schedulerAddTask_spec name fn period s with ⟨res', hres, e'⟩ | ⟨j, s'', e', hfree, hst⟩
    · cases e.symm.trans e'
      have hsame : (Act.add name fn period res (if res = .ok then freeSlot s else none)).rename names = names := by
        rw [if_neg hres]
        cases name <;> cases res <;> rfl
      rw [hsame]
      exact hn
    · cases e.symm.trans e'
      obtain ⟨text, j', rfl, hfree', hname⟩ := schedulerAddTask_name e
      obtain rfl : j = j' := Option.some.inj (hfree.symm.trans hfree')
      intro i hi
      dsimp only at hn hi ⊢
      rw [hst i] at hi
      rw [hname i, if_pos rfl, hfree]
      by_cases hij : i = j
      · rw [if_pos hij, hij]
        simp [Act.rename]
      · rw [if_neg hij] at hi ⊢
        rw [hn i hi]
        simp [Act.rename, hij]
  | @remove s s' c name res _ e =>
    rcases schedulerRemoveTask_spec name s with ⟨-, e'⟩ | ⟨j, s'', hfind, e', hst⟩
    · cases e.symm.trans e'
      exact hn
    · cases e.symm.trans e'
      apply hn.keep fun i => schedulerRemoveTask_name e
      intro i hi
      rw [hst i, if_neg]
      · exact hi
      · rintro rfl
        exact findTask_spec hfind hi
  | @tick s =>
    apply hn.keep fun i => name_startTick
    intro i hi
    dsimp only at hi ⊢
    rw [state_startTick]
    split
    · rfl
    · exact hi
  | @call s j _ hdue =>
    refine hn.setTask ?_ rfl
    dsimp only
    rw [hdue.1]
    nofun
  | pass _ _ => exact hn
  | @ret s j =>
    -- the slot of the function that returns is in use
    have huse := (hbody j rfl).2
    refine hn.setTask ?_ rfl
    intro hempty
    dsimp only at huse hempty
    rw [hempty] at huse
    rcases huse with e | e <;> cases e
  | publish => exact hn

/-- **The run lemma.** -/
theorem names_of_run {s₀ : Sched F} (hr : Run Step (boot s₀) acts s) : Named (addedNames acts) s.sched := by
  have hinv := hr.history (I := fun acts s => BodyInUse s ∧ Named (addedNames acts) s.sched)
    ⟨bodyInUse_boot s₀, fun i hi => absurd rfl hi⟩ ?_
  · exact hinv.2
  · rintro as s a t ⟨hbody, hn⟩ hstep
    rw [addedNames_append]
    exact ⟨hbody.step hstep, hn.step hbody hstep⟩

end Names

/-! ### Removal -/

/-- A live task, added under the name `name`, is in slot `i`. -/
def LiveUnder (names : ℕ → CStr) (s : Sched F) (name : CStr) (i : ℕ) : Prop :=
  i < schedMaxTasks ∧ (s.state i).isLive = true ∧ (names i).text = name.text

/-- **What removal by name should do**: one live task that was added under the name becomes a zombie, and no other
slot changes; without such a task nothing changes. -/
def RemovalFinds (names : ℕ → CStr) (s : Sched F) (name : CStr) : Prop :=
  ((∃ i, LiveUnder names s name i) → ∃ i s', LiveUnder names s name i ∧
    schedulerRemoveTask name s = (.ok, s') ∧ s'.taskTable i = { s.taskTable i with state := .zombie } ∧
      ∀ j, j ≠ i → s'.taskTable j = s.taskTable j) ∧
  ((¬∃ i, LiveUnder names s name i) → schedulerRemoveTask name s = (.notfound, s))

/-- Slot `i` is the first one in use whose name was cut down to the text of `name`. -/
def FirstUnder (names : ℕ → CStr) (s : Sched F) (name : CStr) (i : ℕ) : Prop :=
  (i < schedMaxTasks ∧ s.state i ≠ .empty ∧ cut (names i) = name.text) ∧
    ∀ j < i, s.state j ≠ .empty → cut (names j) ≠ name.text

/-- The first task in use whose name was cut down to `name`, if there is one, is live and was added under `name`
itself; and no live task was added under `name` if that has 16 characters or more. -/
def Findable (names : ℕ → CStr) (s : Sched F) (name : CStr) : Prop :=
  (∀ i, FirstUnder names s name i → (s.state i).isLive = true ∧ (names i).text = name.text) ∧
    (taskNameLen ≤ name.text.length → ¬∃ i, LiveUnder names s name i)

section Removal

variable {s : Sched F} {names : ℕ → CStr} {name : CStr} {i : ℕ}

theorem TaskState.ne_empty_of_isLive {st : TaskState} (h : st.isLive = true) : st ≠ .empty := by
  rintro rfl
  cases h

theorem cut_eq (h : name.text.length < taskNameLen) : cut name = name.text := by
  unfold cut
  apply List.take_of_length_le
  omega

theorem length_cut_lt (name : CStr) : (cut name).length < taskNameLen := by
  unfold cut
  rw [List.length_take]
  have : taskNameLen = 16 := rfl
  omega

/-- The comparison of a stored name with the argument. -/
theorem strncmpK_name (b : Buf taskNameLen) (h : str b = cut (names i)) :
    strncmpK b.rd name.chr taskNameLen = 0 ↔ cut (names i) = name.text := by
  rw [strncmpK_eq_zero_iff, chars_chr]
  change str b = _ ↔ _
  rw [h]
  have hlt := length_cut_lt (names i)
  constructor
  · intro e
    rw [e] at hlt ⊢
    rw [List.length_take] at hlt
    apply List.take_of_length_le
    omega
  · intro e
    rw [e] at hlt ⊢
    exact (List.take_of_length_le (Nat.le_of_lt hlt)).symm

theorem match_iff (hn : Named names s) (i : ℕ) :
    (s.state i ≠ .empty ∧ strncmpK (s.taskTable i).name.rd name.chr taskNameLen = 0) ↔
      (s.state i ≠ .empty ∧ cut (names i) = name.text) := by
  apply and_congr_right
  intro hi
  exact strncmpK_name _ (hn i hi)

theorem findTask_eq_some_iff (hn : Named names s) : findTask name s = some i ↔ FirstUnder names s name i := by
  unfold findTask FirstUnder
  rw [first_eq_some_iff]
  simp [match_iff hn, and_assoc]

theorem findTask_eq_none_iff (hn : Named names s) :
    findTask name s = none ↔ ∀ i < schedMaxTasks, s.state i ≠ .empty → cut (names i) ≠ name.text := by
  unfold findTask
  rw [first_eq_none_iff]
  simp [match_iff hn]

theorem LiveUnder.cut_names (h : LiveUnder names s name i) (hlen : name.text.length < taskNameLen) :
    cut (names i) = name.text := by
  have hcut := cut_eq hlen
  unfold cut at hcut ⊢
  rw [h.2.2]
  exact hcut

/-- The slot that becomes a zombie is the one that was found. -/
theorem findTask_of_zombie {s' : Sched F} (h : schedulerRemoveTask name s = (.ok, s'))
    (hi : s'.taskTable i = { s.taskTable i with state := .zombie }) (hlive : (s.state i).isLive = true) :
    findTask name s = some i := by
  cases hfind : findTask name s with
  | none =>
    rw [schedulerRemoveTask_of_none hfind] at h
    cases h
  | some j =>
    rw [schedulerRemoveTask_of_some hfind] at h
    obtain ⟨-, rfl⟩ := Prod.mk.inj h
    by_cases hij : i = j
    · rw [hij]
    · have hsame : s.taskTable i = { s.taskTable i with state := .zombie } :=
        (Function.update_of_ne hij _ _).symm.trans hi
      have hstate : s.state i = .zombie := congrArg Task.state hsame
      rw [hstate] at hlive
      cases hlive

theorem removalFinds_iff_findable (hn : Named names s) : RemovalFinds names s name ↔ Findable names s name := by
  constructor
  · rintro ⟨hsome, hnone⟩
    -- a live task under the name is found, or no task is found at all
    have hfound : (∃ i, LiveUnder names s name i) →
        ∃ i, LiveUnder names s name i ∧ findTask name s = some i := by
      intro hlive
      obtain ⟨i, s', hi, hrem, hz, -⟩ := hsome hlive
      exact ⟨i, hi, findTask_of_zombie hrem hz hi.2.1⟩
    constructor
    · intro i hfirst
      have hfind := (findTask_eq_some_iff hn).2 hfirst
      by_cases hlive : ∃ i, LiveUnder names s name i
      · obtain ⟨j, hj, hfind'⟩ := hfound hlive
        rw [hfind] at hfind'
        obtain rfl := Option.some.inj hfind'
        exact hj.2
      · have := hnone hlive
        rw [schedulerRemoveTask_of_some hfind] at this
        cases this
    · intro hlen hlive
      obtain ⟨i, -, hfind⟩ := hfound hlive
      have hcut := ((findTask_eq_some_iff hn).1 hfind).1.2.2
      have hlt := length_cut_lt (names i)
      rw [hcut] at hlt
      omega
  · rintro ⟨hfirst, hlong⟩
    constructor
    · rintro ⟨i, hi⟩
      have hlen : name.text.length < taskNameLen := by
        by_contra hlen
        exact hlong (Nat.le_of_not_lt hlen) ⟨i, hi⟩
      cases hfind : findTask name s with
      | none =>
        have hne := (findTask_eq_none_iff hn).1 hfind i hi.1 (TaskState.ne_empty_of_isLive hi.2.1)
        exact absurd (hi.cut_names hlen) hne
      | some j =>
        have hj := (findTask_eq_some_iff hn).1 hfind
        refine ⟨j, _, ⟨hj.1.1, hfirst j hj⟩, schedulerRemoveTask_of_some hfind, ?_, ?_⟩
        · exact Function.update_self _ _ _
        · intro k hk
          exact Function.update_of_ne hk _ _
    · intro hnone
      cases hfind : findTask name s with
      | none => exact schedulerRemoveTask_of_none hfind
      | some j =>
        have hj := (findTask_eq_some_iff hn).1 hfind
        exact absurd ⟨j, hj.1.1, hfirst j hj⟩ hnone

/-- **Removal by name**, in every state that is reached: it does what it should exactly if the name is findable. -/
theorem removalFinds_iff {s₀ : Sched F} {acts : List (Act F)} {s : Sys F} (hr : Run Step (boot s₀) acts s)
    (name : CStr) : RemovalFinds (addedNames acts) s.sched name ↔ Findable (addedNames acts) s.sched name :=
  removalFinds_iff_findable (names_of_run hr)

theorem removalFinds_oneTask :
    RemovalFinds (addedNames [Act.add (some [97]) (some 7) 0 .ok (some 0)]) oneTask [97] ↔
      Findable (addedNames [Act.add (some [97]) (some 7) 0 .ok (some 0)]) oneTask [97] :=
  removalFinds_iff run_oneTask [97]

/-! ### Names that are not found -/

/-- A name of 16 characters. -/
def longName : CStr := List.replicate 16 97

/-- A task under that name. -/
def longTask : Sched ℕ := (schedulerAddTask (some longName) (some 7) 0 (schedulerInit zeroSched)).2

/-- The actions up to there. -/
def longActs : List (Act ℕ) := [.add (some longName) (some 7) 0 .ok (some 0)]

theorem run_longTask : Run Step (boot zeroSched) longActs ⟨longTask, .idle⟩ :=
  Run.cons (Step.add trivial rfl) (Run.nil _)

/-- Two tasks `a`; the first one was removed. -/
def twoTasks : Sched ℕ := (schedulerRemoveTask [97] (schedulerAddTask (some [97]) (some 8) 0 oneTask).2).2

/-- The actions up to there. -/
def twoActs : List (Act ℕ) := [.add (some [97]) (some 7) 0 .ok (some 0), .add (some [97]) (some 8) 0 .ok (some 1),
  .remove [97] .ok (some 0)]

theorem run_twoTasks : Run Step (boot zeroSched) twoActs ⟨twoTasks, .idle⟩ :=
  run_oneTask.append (Run.cons (Step.add trivial rfl) (Run.cons (Step.remove trivial rfl) (Run.nil _)))

/-- **A live task is not found**: under a name of 16 characters; and behind a zombie of the same name, which is
removed again in its place. -/
theorem longTask_not_removed :
    Run Step (boot zeroSched) longActs ⟨longTask, .idle⟩ ∧ LiveUnder (addedNames longActs) longTask longName 0 ∧
      (schedulerRemoveTask longName longTask).1 = .notfound ∧
      ¬RemovalFinds (addedNames longActs) longTask longName ∧
    Run Step (boot zeroSched) twoActs ⟨twoTasks, .idle⟩ ∧ LiveUnder (addedNames twoActs) twoTasks [97] 1 ∧
      (schedulerRemoveTask [97] twoTasks).1 = .ok ∧
      ¬RemovalFinds (addedNames twoActs) twoTasks [97] := by
  have hlong : LiveUnder (addedNames longActs) longTask longName 0 := ⟨by decide, rfl, rfl⟩
  have htwo : LiveUnder (addedNames twoActs) twoTasks [97] 1 := ⟨by decide, rfl, rfl⟩
  refine ⟨run_longTask, hlong, by decide, ?_, run_twoTasks, htwo, by decide, ?_⟩
  · intro h
    rw [removalFinds_iff_findable (names_of_run run_longTask)] at h
    exact h.2 (by decide) ⟨0, hlong⟩
  · intro h
    rw [removalFinds_iff_findable (names_of_run run_twoTasks)] at h
    have hfirst : FirstUnder (addedNames twoActs) twoTasks [97] 0 := ⟨⟨by decide, by decide, rfl⟩, nofun⟩
    have hlive := (h.1 0 hfirst).1
    cases hlive

end Removal

end AuraOS.Kernel.Scheduler
