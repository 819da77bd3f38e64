import AuraOS.Kernel.Scheduler.Defs

/-!
# Removed tasks

`Step.state_cases` lists what a step can do to a slot of the task table.  A removed task is a zombie
until the next tick empties its slot, and neither a zombie nor an empty slot is called; but when a task
function returns, `scheduler_tick` makes its slot ready again without a look at it.  So a removal is
final if and only if the removed task is not the one that runs (`neverRunsAgain_iff`).
-/

namespace AuraOS.Kernel.Scheduler

open AuraOS.Lib

variable {F : Type}

/-! ### Slots -/

section Slots

variable {s : Sched F} {i j : ℕ}

@[simp] theorem state_setTask (task : Task F) :
    (s.setTask j task).state i = if i = j then task.state else s.state i := by
  change (Function.update s.taskTable j task i).state = _
  by_cases h : i = j
  · rw [if_pos h, h, Function.update_self]
  · rw [if_neg h, Function.update_of_ne h]
    rfl

@[simp] theorem state_startTick :
    (startTick s).state i = if s.state i = .zombie then .empty else s.state i := by
  unfold startTick Sched.state
  dsimp only
  split <;> rfl

/-- What no tick changes in a slot: the function and the period. -/
def Sched.job (s : Sched F) (i : ℕ) : Option F × UInt32 := ((s.taskTable i).fn, (s.taskTable i).period)

theorem job_setTask {task : Task F} (h : (task.fn, task.period) = s.job j) :
    (s.setTask j task).job i = s.job i := by
  unfold Sched.job Sched.setTask
  dsimp only
  by_cases hij : i = j
  · rw [hij, Function.update_self]
    exact h
  · rw [Function.update_of_ne hij]

theorem job_enterTask : (enterTask s j).job i = s.job i := job_setTask rfl

theorem job_leaveTask : (leaveTask s j).job i = s.job i := job_setTask rfl

theorem job_startTick : (startTick s).job i = s.job i := by
  unfold startTick Sched.job
  dsimp only
  split <;> rfl

theorem freeSlot_spec (h : freeSlot s = some j) : s.state j = .empty := by
  have := (first_eq_some_iff.1 h).2.2.1
  simpa using this

theorem findTask_spec {name : CStr} (h : findTask name s = some j) : s.state j ≠ .empty := by
  have := (first_eq_some_iff.1 h).2.2.1
  simp only [decide_eq_true_eq] at this
  exact this.1

/-- **`scheduler_add_task`** fills the first empty slot, or fails and changes nothing. -/
theorem schedulerAddTask_spec (name : Option CStr) (fn : Option F) (period : UInt32) (s : Sched F) :
    (∃ res, res ≠ .ok ∧ schedulerAddTask name fn period s = (res, s)) ∨
      ∃ j s', schedulerAddTask name fn period s = (.ok, s') ∧ freeSlot s = some j ∧
        ∀ i, s'.state i = if i = j then .ready else s.state i := by
  unfold schedulerAddTask
  split
  · by_cases hfull : (schedMaxTasks : Int) ≤ s.taskCountVal.toInt
    · rw [if_pos hfull]
      exact Or.inl ⟨.noslot, nofun, rfl⟩
    · rw [if_neg hfull]
      cases hslot : freeSlot s with
      | none => exact Or.inl ⟨.noslot, nofun, rfl⟩
      | some j => exact Or.inr ⟨j, _, rfl, rfl, fun i => state_setTask _⟩
  · exact Or.inl ⟨.err, nofun, rfl⟩

theorem schedulerRemoveTask_of_some {name : CStr} (h : findTask name s = some j) :
    schedulerRemoveTask name s = (.ok, { s.setTask j { s.taskTable j with state := .zombie } with
      taskCountVal := s.taskCountVal - 1 }) := by
  unfold schedulerRemoveTask
  rw [h]

theorem schedulerRemoveTask_of_none {name : CStr} (h : findTask name s = none) :
    schedulerRemoveTask name s = (.notfound, s) := by
  unfold schedulerRemoveTask
  rw [h]

/-- **`scheduler_remove_task`** makes the slot it finds a zombie, or fails and changes nothing. -/
theorem schedulerRemoveTask_spec (name : CStr) (s : Sched F) :
    (findTask name s = none ∧ schedulerRemoveTask name s = (.notfound, s)) ∨
      ∃ j s', findTask name s = some j ∧ schedulerRemoveTask name s = (.ok, s') ∧
        ∀ i, s'.state i = if i = j then .zombie else s.state i := by
  cases hfind : findTask name s with
  | none => exact Or.inl ⟨rfl, schedulerRemoveTask_of_none hfind⟩
  | some j => exact Or.inr ⟨j, _, rfl, schedulerRemoveTask_of_some hfind, fun i => state_setTask _⟩

end Slots

/-! ### Steps -/

/-- A task is registered in slot `i`. -/
def Act.Registers : Act F → ℕ → Prop
  | .add _ _ _ .ok (some j), i => i = j
  | _, _ => False

section Steps

variable {s t u : Sys F} {a : Act F} {acts : List (Act F)} {i : ℕ}

/-- **What a step can do to a slot.** -/
theorem Step.state_cases (h : Step s a t) (i : ℕ) :
    (t.sched.state i = s.sched.state i ∧ (∀ fn, a ≠ .call i fn) ∧
      (a = .tick → s.sched.state i ≠ .zombie)) ∨
    (a.Registers i ∧ s.sched.state i = .empty ∧ t.sched.state i = .ready) ∨
    (∃ name, a = .remove name .ok (some i) ∧ s.sched.state i ≠ .empty ∧ t.sched.state i = .zombie) ∨
    (a = .tick ∧ s.sched.state i = .zombie ∧ t.sched.state i = .empty) ∨
    (∃ fn, a = .call i fn ∧ s.sched.state i = .ready ∧ t.sched.state i = .running) ∨
    (a = .ret i ∧ s.control = .body i ∧ t.sched.state i = .ready) := by
  cases h with
  | @add s s' c name fn period res _ e =>
    rcases schedulerAddTask_spec name fn period s with ⟨res', -, e'⟩ | ⟨j, s'', e', hfree, hst⟩
    · cases e.symm.trans e'
      exact Or.inl ⟨rfl, nofun, nofun⟩
    · cases e.symm.trans e'
      have hsi := hst i
      by_cases hij : i = j
      · rw [if_pos hij] at hsi
        subst hij
        refine Or.inr (Or.inl ⟨?_, freeSlot_spec hfree, hsi⟩)
        rw [if_pos rfl, hfree]
        rfl
      · rw [if_neg hij] at hsi
        exact Or.inl ⟨hsi, nofun, nofun⟩
  | @remove s s' c name res _ e =>
    rcases schedulerRemoveTask_spec name s with ⟨-, e'⟩ | ⟨j, s'', hfind, e', hst⟩
    · cases e.symm.trans e'
      exact Or.inl ⟨rfl, nofun, nofun⟩
    · cases e.symm.trans e'
      have hsi := hst i
      by_cases hij : i = j
      · rw [if_pos hij] at hsi
        subst hij
        exact Or.inr (Or.inr (Or.inl ⟨name, by rw [hfind], findTask_spec hfind, hsi⟩))
      · rw [if_neg hij] at hsi
        exact Or.inl ⟨hsi, nofun, nofun⟩
  | @tick s =>
    have hsi : (startTick s).state i = _ := state_startTick
    by_cases hz : s.state i = .zombie
    · rw [if_pos hz] at hsi
      exact Or.inr (Or.inr (Or.inr (Or.inl ⟨rfl, hz, hsi⟩)))
    · rw [if_neg hz] at hsi
      exact Or.inl ⟨hsi, nofun, fun _ => hz⟩
  | @call s j _ hdue =>
    have hsi : (enterTask s j).state i = _ := state_setTask _
    by_cases hij : i = j
    · rw [if_pos hij] at hsi
      subst hij
      exact Or.inr (Or.inr (Or.inr (Or.inr (Or.inl ⟨_, rfl, hdue.1, hsi⟩))))
    · rw [if_neg hij] at hsi
      refine Or.inl ⟨hsi, fun fn e => ?_, nofun⟩
      cases e
      exact hij rfl
  | pass _ _ => exact Or.inl ⟨rfl, nofun, nofun⟩
  | @ret s j =>
    have hsi : (leaveTask s j).state i = _ := state_setTask _
    by_cases hij : i = j
    · rw [if_pos hij] at hsi
      subst hij
      exact Or.inr (Or.inr (Or.inr (Or.inr (Or.inr ⟨rfl, rfl, hsi⟩))))
    · rw [if_neg hij] at hsi
      exact Or.inl ⟨hsi, nofun, nofun⟩
  | publish => exact Or.inl ⟨rfl, nofun, nofun⟩

/-- A task function starts only by a call. -/
theorem Step.control_cases (h : Step s a t) (ht : t.control = .body i) :
    s.control = .body i ∨ ∃ fn, a = .call i fn := by
  cases h with
  | add _ _ => exact Or.inl ht
  | remove _ _ => exact Or.inl ht
  | call _ _ =>
    cases ht
    exact Or.inr ⟨_, rfl⟩
  | tick => cases ht
  | pass _ _ => cases ht
  | ret => cases ht
  | publish => cases ht

/-- The slot in the control state is one of the table. -/
theorem Step.control_lt (h : Step s a t) (hs : ∀ i, s.control = .body i → i < schedMaxTasks)
    (ht : t.control = .body i) : i < schedMaxTasks := by
  cases h with
  | add _ _ => exact hs i ht
  | remove _ _ => exact hs i ht
  | call hlt _ =>
    cases ht
    exact hlt
  | tick => cases ht
  | pass _ _ => cases ht
  | ret => cases ht
  | publish => cases ht

/-- The removed task is a zombie. -/
theorem Step.remove_spec {name : CStr} (h : Step s (.remove name .ok (some i)) t) :
    t.control = s.control ∧ t.sched.state i = .zombie := by
  generalize ha : Act.remove name .ok (some i) = a at h
  cases h with
  | @remove s s' c name' res _ e =>
    obtain ⟨rfl, rfl, hfind⟩ := Act.remove.inj ha
    rcases schedulerRemoveTask_spec name s with ⟨hnone, -⟩ | ⟨j, s'', hj, e', hst⟩
    · rw [hnone] at hfind
      cases hfind
    · rw [hj] at hfind
      cases hfind
      cases e.symm.trans e'
      exact ⟨rfl, (hst i).trans (if_pos rfl)⟩
  | add _ _ => cases ha
  | tick => cases ha
  | call _ _ => cases ha
  | pass _ _ => cases ha
  | ret => cases ha
  | publish => cases ha

theorem control_lt_of_run {s₀ : Sched F} (hr : Run Step (boot s₀) acts s)
    (hs : s.control = .body i) : i < schedMaxTasks := by
  have hinv := hr.invariant (I := fun s : Sys F => ∀ i, s.control = .body i → i < schedMaxTasks)
    (fun _ _ _ hs h _ ht => h.control_lt hs ht) nofun
  exact hinv i hs

end Steps

/-! ### Removal -/

/-- In every continuation in which no task is registered in slot `i`, the task in slot `i` is not called,
and from the next tick on the slot is empty. -/
structure NeverRunsAgain (i : ℕ) (s : Sys F) : Prop where
  not_called : ∀ acts t, Run Step s acts t → (∀ a ∈ acts, ¬a.Registers i) → ∀ fn, .call i fn ∉ acts
  empty : ∀ acts t, Run Step s acts t → (∀ a ∈ acts, ¬a.Registers i) → .tick ∈ acts →
    t.sched.state i = .empty

section Removal

variable {s t u : Sys F} {a : Act F} {acts : List (Act F)} {i : ℕ}

/-- What holds of a removed task after the steps `acts`. -/
structure Gone (i : ℕ) (acts : List (Act F)) (s : Sys F) : Prop where
  state : s.sched.state i = .zombie ∨ s.sched.state i = .empty
  control : s.control ≠ .body i
  ticked : .tick ∈ acts → s.sched.state i = .empty
  not_called : ∀ fn, .call i fn ∉ acts

/-- **The step lemma** for a removed task. -/
theorem Gone.step (hg : Gone i acts s) (h : Step s a t) (ha : ¬a.Registers i) :
    Gone i (acts ++ [a]) t := by
  have hnr : s.sched.state i ≠ .ready := by
    intro e
    rcases hg.state with e' | e' <;> rw [e] at e' <;> cases e'
  have hcall : ∀ fn, a ≠ .call i fn := by
    rintro fn rfl
    cases h with
    | call _ hdue => exact hnr hdue.1
  have hcontrol : t.control ≠ .body i := by
    intro e
    rcases h.control_cases e with e' | ⟨fn, e'⟩
    · exact hg.control e'
    · exact hcall fn e'
  have hnot : ∀ fn, .call i fn ∉ acts ++ [a] := by
    intro fn hmem
    rw [List.mem_append, List.mem_singleton] at hmem
    rcases hmem with hmem | e
    · exact hg.not_called fn hmem
    · exact hcall fn e.symm
  rcases h.state_cases i with ⟨e, -, htick⟩ | ⟨hreg, -⟩ | ⟨name, rfl, hne, e⟩ | ⟨rfl, hz, e⟩ |
    ⟨fn, rfl, hready, -⟩ | ⟨-, hbody, -⟩
  · refine ⟨e ▸ hg.state, hcontrol, fun hmem => ?_, hnot⟩
    rw [List.mem_append, List.mem_singleton] at hmem
    rcases hmem with hmem | rfl
    · rw [e, hg.ticked hmem]
    · rw [e]
      exact hg.state.resolve_left (htick rfl)
  · exact absurd hreg ha
  · refine ⟨Or.inl e, hcontrol, fun hmem => ?_, hnot⟩
    rw [List.mem_append, List.mem_singleton] at hmem
    rcases hmem with hmem | hmem
    · exact absurd (hg.ticked hmem) hne
    · cases hmem
  · exact ⟨Or.inr e, hcontrol, fun _ => e, hnot⟩
  · exact absurd hready hnr
  · exact absurd hbody hg.control

/-- The rest of a tick in which every task function returns at once. -/
theorem exists_run_idle (i n : ℕ) : ∀ (s : Sched F) (k : ℕ), k + n = schedMaxTasks →
    ∃ acts s', Run Step ⟨s, .loop k⟩ acts ⟨s', .idle⟩ ∧ (∀ a ∈ acts, ¬a.Registers i) ∧
      (s.state i = .ready → s'.state i = .ready) ∧ s'.job i = s.job i := by
  induction n with
  | zero =>
    rintro s k rfl
    refine ⟨[_], s, Run.cons Step.publish (Run.nil _), ?_, id, rfl⟩
    simp [Act.Registers]
  | succ n ih =>
    intro s k hk
    have hlt : k < schedMaxTasks := by omega
    by_cases hdue : Due s k
    · obtain ⟨acts, s', hr, hreg, hst, hjob⟩ := ih (leaveTask (enterTask s k) k) (k + 1) (by omega)
      refine ⟨_, s', Run.cons (Step.call hlt hdue) (Run.cons Step.ret hr), ?_, fun h => hst ?_, ?_⟩
      · simpa [Act.Registers] using hreg
      · unfold leaveTask enterTask
        rw [state_setTask, state_setTask]
        by_cases hik : i = k
        · rw [if_pos hik]
        · rw [if_neg hik, if_neg hik, h]
      · rw [hjob, job_leaveTask, job_enterTask]
    · obtain ⟨acts, s', hr, hreg, hst, hjob⟩ := ih s (k + 1) (by omega)
      refine ⟨_, s', Run.cons (Step.pass hlt hdue) hr, ?_, hst, hjob⟩
      simpa [Act.Registers] using hreg

/-- **Removal is final** exactly if the removed task is not the one that runs. -/
theorem neverRunsAgain_iff {s₀ : Sched F} {name : CStr} (hr : Run Step (boot s₀) acts s)
    (hrem : Step s (.remove name .ok (some i)) t) : NeverRunsAgain i t ↔ s.control ≠ .body i := by
  obtain ⟨hcontrol, hzombie⟩ := hrem.remove_spec
  constructor
  · -- if it runs, it becomes ready again when it returns, and still is after the next tick
    intro hnever hbody
    have hlt : i < schedMaxTasks := control_lt_of_run hr hbody
    obtain ⟨u, c⟩ := t
    obtain rfl : c = .body i := hcontrol.trans hbody
    obtain ⟨acts', u', hidle, hreg, hst, -⟩ :=
      exists_run_idle i (schedMaxTasks - (i + 1)) (leaveTask u i) (i + 1) (by omega)
    have hready : u'.state i = .ready := hst ((state_setTask _).trans (if_pos rfl))
    have hrun := Run.cons Step.ret (hidle.append (Run.cons Step.tick (Run.nil _)))
    have hempty := hnever.empty _ _ hrun ?_ (by simp)
    · change (startTick u').state i = .empty at hempty
      rw [state_startTick, hready] at hempty
      cases hempty
    · simpa [Act.Registers, or_imp, forall_and] using hreg
  · -- otherwise it stays gone
    intro hbody
    have hgone : Gone i [] t := ⟨Or.inl hzombie, hcontrol ▸ hbody, nofun, nofun⟩
    have key : ∀ acts u, Run Step t acts u → (∀ a ∈ acts, ¬a.Registers i) → Gone i acts u := by
      intro acts u hrun
      refine hrun.history (I := fun acts u => (∀ a ∈ acts, ¬a.Registers i) → Gone i acts u)
        (fun _ => hgone) ?_
      intro as v a w hI hstep hreg
      have hreg' : (∀ b ∈ as, ¬b.Registers i) ∧ ¬a.Registers i := by
        simpa [or_imp, forall_and] using hreg
      exact (hI hreg'.1).step hstep hreg'.2
    exact ⟨fun acts u hrun hreg => (key acts u hrun hreg).not_called,
      fun acts u hrun hreg => (key acts u hrun hreg).ticked⟩

end Removal

/-! ### A task that removes itself -/

/-- The table before `scheduler_init`. -/
def zeroSched : Sched ℕ := ⟨fun _ => ⟨Vector.replicate 16 0, none, .empty, 0, 0, 0⟩, 0, 0⟩

/-- Task `a`, in slot 0, was added to run in every tick. -/
def oneTask : Sched ℕ := (schedulerAddTask (some [97]) (some 7) 0 (schedulerInit zeroSched)).2

/-- It runs in the first tick. -/
def selfRemover : Sched ℕ := enterTask (startTick oneTask) 0

/-- It removes itself. -/
def selfRemoved : Sched ℕ := (schedulerRemoveTask [97] selfRemover).2

theorem run_oneTask : Run Step (boot zeroSched)
    [.add (some [97]) (some 7) 0 .ok (some 0)] ⟨oneTask, .idle⟩ :=
  Run.cons (Step.add trivial rfl) (Run.nil _)

theorem run_selfRemover : Run Step (boot zeroSched)
    [.add (some [97]) (some 7) 0 .ok (some 0), .tick, .call 0 (some 7)] ⟨selfRemover, .body 0⟩ :=
  run_oneTask.append
    (Run.cons Step.tick (Run.cons (Step.call (by decide) (by decide)) (Run.nil _)))

theorem step_selfRemoved : Step ⟨selfRemover, .body 0⟩ (.remove [97] .ok (some 0))
    ⟨selfRemoved, .body 0⟩ :=
  Step.remove trivial rfl

/-- **The task is called again**, although its removal succeeded. -/
theorem selfRemoved_runs_again :
    Run Step (boot zeroSched)
      [.add (some [97]) (some 7) 0 .ok (some 0), .tick, .call 0 (some 7)] ⟨selfRemover, .body 0⟩ ∧
    Step ⟨selfRemover, .body 0⟩ (.remove [97] .ok (some 0)) ⟨selfRemoved, .body 0⟩ ∧
    (∃ acts t, Run Step ⟨selfRemoved, .body 0⟩ (.ret 0 :: acts) t ∧
      (∀ a ∈ acts, ¬a.Registers 0) ∧ .call 0 (some 7) ∈ acts) ∧
    ¬NeverRunsAgain 0 ⟨selfRemoved, .body 0⟩ := by
  obtain ⟨acts, s, hidle, hreg, hst, hjob⟩ := exists_run_idle 0 15 (leaveTask selfRemoved 0) 1 rfl
  have hready : (startTick s).state 0 = .ready := by
    rw [state_startTick, hst rfl]
    rfl
  have hjob' : (startTick s).job 0 = (some 7, 0) := job_startTick.trans (hjob.trans rfl)
  obtain ⟨hfn, hperiod⟩ := Prod.mk.inj hjob'
  have hcall := Step.call (by decide) ⟨hready, Or.inl hperiod⟩
  rw [hfn] at hcall
  have hrun := Run.cons Step.ret (hidle.append (Run.cons Step.tick (Run.cons hcall (Run.nil _))))
  have hreg' : ∀ a ∈ acts ++ [.tick, .call 0 (some 7)], ¬a.Registers 0 := by
    simpa [Act.Registers, or_imp, forall_and] using hreg
  refine ⟨run_selfRemover, step_selfRemoved, ⟨_, _, hrun, hreg', by simp⟩, fun hnever => ?_⟩
  refine hnever.not_called _ _ hrun ?_ (some 7) (by simp)
  simpa [Act.Registers] using hreg'

/-- Removed between two ticks, the task is gone. -/
theorem neverRunsAgain_oneTask :
    NeverRunsAgain 0 ⟨(schedulerRemoveTask [97] oneTask).2, .idle⟩ := by
  have hrem : Step ⟨oneTask, .idle⟩ (.remove [97] .ok (some 0))
      ⟨(schedulerRemoveTask [97] oneTask).2, .idle⟩ := Step.remove trivial rfl
  exact (neverRunsAgain_iff run_oneTask hrem).2 nofun

end AuraOS.Kernel.Scheduler
