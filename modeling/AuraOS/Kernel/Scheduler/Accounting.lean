import AuraOS.Kernel.Scheduler.Removal
import AuraOS.Lib.Count

/-!
# Task accounting

`scheduler_task_count` against the number of live tasks.  `scheduler_remove_task` also finds a task that
was removed since the last tick, and counts it down again; and a task that was removed while it ran is
made ready again, but is not counted any more.  Both leave the counter too low, and it is right in every
state of a run if and only if neither happens (`taskCountVal_eq_live_iff`).  As long as it is never too
high, no empty slot is refused to a new task (`schedulerAddTask_admits`); it gets too high when it wraps
around, after `2 ^ 31 + 2` removals of one task (`drifted_refuses`).
-/

namespace AuraOS.Kernel.Scheduler

open AuraOS.Lib

variable {F : Type}

/-- A task in this state counts: it is ready, running or blocked. -/
def TaskState.isLive : TaskState → Bool
  | ready | running | blocked => true
  | empty | zombie => false

/-- The number of live tasks. -/
def live (s : Sched F) : ℕ := count (fun i => (s.state i).isLive) schedMaxTasks

/-- The step neither removes a task that is a zombie already, nor returns from a task function whose
task was removed. -/
def Counted (s : Sys F) : Act F → Prop
  | .remove name _ _ => ∀ i, findTask name s.sched = some i → s.sched.state i ≠ .zombie
  | .ret i => s.sched.state i ≠ .zombie
  | _ => True

/-- The counter is the number of live tasks, and so between `0` and the number of slots. -/
structure Accurate (s : Sched F) : Prop where
  eq_live : schedulerTaskCount s = live s
  nonneg : 0 ≤ schedulerTaskCount s
  le : schedulerTaskCount s ≤ schedMaxTasks

/-- The step does not count down from the smallest `int`. -/
def NoWrap (s : Sys F) : Act F → Prop
  | .remove name _ _ => ∀ i, findTask name s.sched = some i → s.sched.taskCountVal ≠ Int32.minValue
  | _ => True

/-! ### The counter and the live tasks in one step -/

section Steps

variable {s t : Sys F} {a : Act F} {acts : List (Act F)} {i j : ℕ}

theorem live_le (s : Sched F) : live s ≤ schedMaxTasks := count_le _ _

/-- One slot changes its state. -/
theorem live_update {s t : Sched F} (hj : j < schedMaxTasks) {st : TaskState}
    (h : ∀ i, t.state i = if i = j then st else s.state i) :
    live t + (s.state j).isLive.toNat = live s + st.isLive.toNat := by
  have hkey := count_update (p := fun i => (s.state i).isLive) (q := fun i => (t.state i).isLive) hj
    fun i _ hij => by rw [h i, if_neg hij]
  rw [h j, if_pos rfl] at hkey
  exact hkey

theorem live_startTick (s : Sched F) : live (startTick s) = live s := by
  refine count_congr fun i _ => ?_
  rw [state_startTick]
  split
  next h => rw [h]; rfl
  next => rfl

/-- Counting up: the guard keeps the counter far below the largest `int`. -/
theorem schedulerAddTask_count {name : Option CStr} {fn : Option F} {period : UInt32} {s s' : Sched F}
    (h : schedulerAddTask name fn period s = (.ok, s')) :
    schedulerTaskCount s' = schedulerTaskCount s + 1 := by
  unfold schedulerAddTask at h
  split at h
  · by_cases hfull : (schedMaxTasks : Int) ≤ s.taskCountVal.toInt
    · rw [if_pos hfull] at h
      cases h
    · rw [if_neg hfull] at h
      cases hslot : freeSlot s <;> rw [hslot] at h <;> cases h
      exact toInt_add_one (ne_maxValue_of_lt (Int.not_le.1 hfull) (by decide))
  · cases h

/-- Counting down, but from the smallest `int`. -/
theorem schedulerRemoveTask_count {name : CStr} {s s' : Sched F} (hlow : s.taskCountVal ≠ Int32.minValue)
    (h : schedulerRemoveTask name s = (.ok, s')) : schedulerTaskCount s' = schedulerTaskCount s - 1 := by
  unfold schedulerRemoveTask at h
  cases hfind : findTask name s <;> rw [hfind] at h <;> cases h
  exact toInt_sub_one hlow

/-- The task whose function runs was running when it was called, and may have been removed since. -/
def BodyInUse (s : Sys F) : Prop :=
  ∀ i, s.control = .body i → i < schedMaxTasks ∧ (s.sched.state i = .running ∨ s.sched.state i = .zombie)

theorem BodyInUse.step (hs : BodyInUse s) (h : Step s a t) : BodyInUse t := by
  intro i ht
  refine ⟨h.control_lt (fun i hi => (hs i hi).1) ht, ?_⟩
  rcases h.state_cases i with ⟨e, hcall, -⟩ | ⟨-, hempty, -⟩ | ⟨-, -, -, e⟩ | ⟨rfl, -, -⟩ | ⟨fn, -, -, e⟩ |
    ⟨rfl, -, -⟩
  · rw [e]
    rcases h.control_cases ht with hbody | ⟨fn, ha⟩
    · exact (hs i hbody).2
    · exact absurd ha (hcall fn)
  · rcases h.control_cases ht with hbody | ⟨fn, rfl⟩
    · have := (hs i hbody).2
      rw [hempty] at this
      rcases this with e | e <;> cases e
    · cases h with
      | call _ hdue =>
        have := hdue.1
        rw [hempty] at this
        cases this
  · exact Or.inr e
  · cases h
    cases ht
  · exact Or.inl e
  · cases h
    cases ht

/-- The number of live tasks that the counter misses. -/
def missed (s : Sys F) : Int := live s.sched - schedulerTaskCount s.sched

/-- **The step lemma**: the counter falls behind by one in a step that is not `Counted`, and in no other. -/
theorem Step.missed_eq (hs : BodyInUse s) (hw : NoWrap s a) (h : Step s a t) :
    (Counted s a → missed t = missed s) ∧ (¬Counted s a → missed t = missed s + 1) := by
  unfold missed
  cases h with
  | @add s s' c name fn period res _ e =>
    refine ⟨fun _ => ?_, fun hc => absurd trivial hc⟩
    rcases schedulerAddTask_spec name fn period s with ⟨res', -, e'⟩ | ⟨j, s'', e', hfree, hst⟩
    · cases e.symm.trans e'
      rfl
    · cases e.symm.trans e'
      have hj : j < schedMaxTasks := by simpa using (first_eq_some_iff.1 hfree).2.1
      have hlive := live_update hj hst
      have hcount := schedulerAddTask_count e
      rw [freeSlot_spec hfree] at hlive
      simp only [TaskState.isLive, Bool.toNat_false, Bool.toNat_true] at hlive
      simp only [hcount]
      omega
  | @remove s s' c name res _ e =>
    rcases schedulerRemoveTask_spec name s with ⟨hnone, e'⟩ | ⟨j, s'', hfind, e', hst⟩
    · cases e.symm.trans e'
      exact ⟨fun _ => rfl, fun hc => absurd (fun i hi => by rw [hnone] at hi; cases hi) hc⟩
    · cases e.symm.trans e'
      have hj : j < schedMaxTasks := by simpa using (first_eq_some_iff.1 hfind).2.1
      have hlive := live_update hj hst
      have hcount := schedulerRemoveTask_count (hw j hfind) e
      have hne := findTask_spec hfind
      have hcounted : Counted ⟨s, c⟩ (Act.remove name .ok (findTask name s) : Act F) ↔
          s.state j ≠ .zombie := by
        simp [Counted, hfind]
      rw [hcounted]
      cases hstate : s.state j <;> rw [hstate] at hlive hne
      all_goals simp [TaskState.isLive] at *
      all_goals omega
  | @tick s =>
    refine ⟨fun _ => ?_, fun hc => absurd trivial hc⟩
    dsimp only
    rw [live_startTick]
    rfl
  | @call s j hlt hdue =>
    refine ⟨fun _ => ?_, fun hc => absurd trivial hc⟩
    have hlive : live (enterTask s j) + _ = live s + _ := live_update hlt fun i => state_setTask _
    rw [hdue.1] at hlive
    have : live (enterTask s j) = live s := by simpa [TaskState.isLive] using hlive
    dsimp only
    rw [this]
    rfl
  | pass _ _ => exact ⟨fun _ => rfl, fun hc => absurd trivial hc⟩
  | @ret s j =>
    obtain ⟨hlt, hstate⟩ := hs j rfl
    have hlive : live (leaveTask s j) + _ = live s + _ := live_update hlt fun i => state_setTask _
    have hcount : schedulerTaskCount (leaveTask s j) = schedulerTaskCount s := rfl
    dsimp only at hstate ⊢
    rcases hstate with e | e
    · rw [e] at hlive
      simp [TaskState.isLive] at hlive
      simp [Counted, e, hlive, hcount]
    · rw [e] at hlive
      simp [TaskState.isLive] at hlive
      simp [Counted, e, hlive, hcount]
      omega
  | publish => exact ⟨fun _ => rfl, fun hc => absurd trivial hc⟩

/-- A step counts one task too many at most, and none too few. -/
theorem Step.missed_le (hs : BodyInUse s) (hw : NoWrap s a) (h : Step s a t) :
    missed s ≤ missed t ∧ missed t ≤ missed s + 1 := by
  obtain ⟨hcounted, hnot⟩ := h.missed_eq hs hw
  by_cases hc : Counted s a
  · rw [hcounted hc]
    omega
  · rw [hnot hc]
    omega

theorem accurate_iff {s : Sys F} : Accurate s.sched ↔ missed s = 0 := by
  have hle := live_le s.sched
  unfold missed
  constructor
  · rintro ⟨e, -, -⟩
    omega
  · intro e
    exact ⟨by omega, by omega, by omega⟩

theorem Accurate.noWrap (h : Accurate s.sched) (a : Act F) : NoWrap s a := by
  have hneg : -((1 : ℕ) : Int) < schedulerTaskCount s.sched := Int.lt_of_lt_of_le (by decide) h.nonneg
  cases a with
  | remove name res slot => exact fun i _ => ne_minValue_of_lt hneg (by decide)
  | _ => trivial

/-- A right counter stays right exactly in the `Counted` steps. -/
theorem Step.accurate_iff (hs : BodyInUse s) (ha : Accurate s.sched) (h : Step s a t) :
    Accurate t.sched ↔ Counted s a := by
  obtain ⟨hcounted, hnot⟩ := h.missed_eq hs (ha.noWrap a)
  have hzero := Scheduler.accurate_iff.1 ha
  rw [Scheduler.accurate_iff]
  constructor
  · intro e
    by_contra hc
    have := hnot hc
    omega
  · intro hc
    rw [hcounted hc, hzero]

end Steps

/-! ### Runs -/

section Runs

variable {s t : Sys F} {a : Act F} {acts : List (Act F)}

theorem bodyInUse_boot (s₀ : Sched F) : BodyInUse (boot s₀) := nofun

theorem missed_boot (s₀ : Sched F) : missed (boot s₀) = 0 := by
  have : live (schedulerInit s₀) = 0 := by
    have h : live (schedulerInit s₀) = count (fun _ => false) schedMaxTasks :=
      count_congr fun i _ => rfl
    rw [h]
    rfl
  unfold missed boot
  dsimp only
  rw [this]
  rfl

theorem accurate_boot (s₀ : Sched F) : Accurate (boot s₀).sched := accurate_iff.2 (missed_boot s₀)

/-- **The task counter** is right after `scheduler_init`, and in all states of a run exactly if every step
is `Counted`. -/
theorem taskCountVal_eq_live_iff {s₀ : Sched F} : Accurate (boot s₀).sched ∧
    (Run (fun s a t => Step s a t ∧ Accurate t.sched) (boot s₀) acts s ↔
      Run (fun s a t => Step s a t ∧ Counted s a) (boot s₀) acts s) := by
  refine ⟨accurate_boot s₀, Run.congr (I := fun s => BodyInUse s ∧ Accurate s.sched) ?_ ?_
    ⟨bodyInUse_boot s₀, accurate_boot s₀⟩⟩
  · rintro s a t ⟨hs, -⟩ ⟨hstep, ht⟩
    exact ⟨hs.step hstep, ht⟩
  · rintro s a t ⟨hs, ha⟩
    exact and_congr_right fun hstep => hstep.accurate_iff hs ha

/-- A task is added, removed, and cleaned up by the next tick. -/
theorem taskCountVal_eq_live_cleanedUp :
    Run (fun s a t => Step s a t ∧ Accurate t.sched) (boot zeroSched)
      [.add (some [97]) (some 7) 0 .ok (some 0), .remove [97] .ok (some 0), .tick]
      ⟨startTick (schedulerRemoveTask [97] oneTask).2, .loop 0⟩ := by
  refine taskCountVal_eq_live_iff.2.2 ?_
  refine Run.cons ⟨Step.add trivial rfl, trivial⟩ (Run.cons ⟨Step.remove trivial rfl, ?_⟩ ?_)
  · intro i hi
    cases hi
    decide
  · exact Run.cons ⟨Step.tick, trivial⟩ (Run.nil _)

/-- The task is removed twice between two ticks. -/
def twiceRemoved : Sched ℕ := (schedulerRemoveTask [97] (schedulerRemoveTask [97] oneTask).2).2

theorem run_twiceRemoved : Run Step (boot zeroSched)
    [.add (some [97]) (some 7) 0 .ok (some 0), .remove [97] .ok (some 0), .remove [97] .ok (some 0)]
    ⟨twiceRemoved, .idle⟩ := by
  refine run_oneTask.append (Run.cons (Step.remove trivial rfl) ?_)
  exact Run.cons (Step.remove trivial rfl) (Run.nil _)

/-- **The counter is `-1`** after one task was added and removed twice, both times with success. -/
theorem twiceRemoved_count :
    Run Step (boot zeroSched)
      [.add (some [97]) (some 7) 0 .ok (some 0), .remove [97] .ok (some 0), .remove [97] .ok (some 0)]
      ⟨twiceRemoved, .idle⟩ ∧
    schedulerTaskCount twiceRemoved = -1 ∧ live twiceRemoved = 0 :=
  ⟨run_twiceRemoved, rfl, rfl⟩

end Runs

/-! ### Admission -/

section Admission

variable {s t : Sys F} {a : Act F} {acts : List (Act F)} {i : ℕ}

/-- Slot `i` is the lowest one that is empty. -/
def LowestEmpty (s : Sched F) (i : ℕ) : Prop :=
  i < schedMaxTasks ∧ s.state i = .empty ∧ ∀ j < i, s.state j ≠ .empty

theorem freeSlot_eq_some_iff {s : Sched F} : freeSlot s = some i ↔ LowestEmpty s i := by
  unfold freeSlot LowestEmpty
  rw [first_eq_some_iff]
  simp

theorem freeSlot_eq_none_iff {s : Sched F} : freeSlot s = none ↔ ∀ i < schedMaxTasks, s.state i ≠ .empty := by
  unfold freeSlot
  rw [first_eq_none_iff]
  simp

/-- An empty slot is not counted as a live task. -/
theorem live_lt {s : Sched F} (hi : i < schedMaxTasks) (h : s.state i = .empty) : live s < schedMaxTasks := by
  apply Nat.lt_of_le_of_ne (live_le s)
  intro hlive
  have := count_eq_iff.1 hlive i hi
  rw [h] at this
  cases this

/-- **The counter never exceeds the number of live tasks** while it does not wrap around. -/
theorem taskCountVal_le_live {s₀ : Sched F} (hr : Run (fun s a t => Step s a t ∧ NoWrap s a) (boot s₀) acts s) :
    schedulerTaskCount s.sched ≤ live s.sched := by
  have hinv := hr.invariant (I := fun s => BodyInUse s ∧ 0 ≤ missed s) ?_
    ⟨bodyInUse_boot s₀, Int.le_of_eq (missed_boot s₀).symm⟩
  · have hmissed := hinv.2
    unfold missed at hmissed
    omega
  · rintro s a t ⟨hs, hle⟩ ⟨hstep, hw⟩
    exact ⟨hs.step hstep, Int.le_trans hle (hstep.missed_le hs hw).1⟩

/-- The counter does not wrap around in a run of at most `2 ^ 31` steps. -/
theorem noWrap_of_length {s₀ : Sched F} (hr : Run Step (boot s₀) acts s) (hlen : acts.length ≤ 2 ^ 31) :
    Run (fun s a t => Step s a t ∧ NoWrap s a) (boot s₀) acts s := by
  have hinv := hr.history (I := fun acts s => BodyInUse s ∧ (acts.length ≤ 2 ^ 31 →
    missed s ≤ acts.length ∧ Run (fun s a t => Step s a t ∧ NoWrap s a) (boot s₀) acts s)) ?_ ?_
  · exact (hinv.2 hlen).2
  · exact ⟨bodyInUse_boot s₀, fun _ => ⟨Int.le_of_eq (missed_boot s₀), Run.nil _⟩⟩
  · rintro as s a t ⟨hs, hrun⟩ hstep
    refine ⟨hs.step hstep, fun hlen => ?_⟩
    rw [List.length_append, List.length_singleton] at hlen ⊢
    obtain ⟨hle, hrun⟩ := hrun (by omega)
    -- the counter has been counted down at most once a step
    have hlow : -((2 ^ 31 : ℕ) : Int) < schedulerTaskCount s.sched := by
      unfold missed at hle
      omega
    have hw : NoWrap s a := by
      cases a with
      | remove name res slot => exact fun i _ => ne_minValue_of_lt hlow (Nat.le_refl _)
      | _ => trivial
    have := (hstep.missed_le hs hw).2
    exact ⟨by omega, hrun.append (Run.cons ⟨hstep, hw⟩ (Run.nil t))⟩

theorem exists_lowestEmpty {s : Sched F} (h : ∃ i < schedMaxTasks, s.state i = .empty) :
    ∃ i, LowestEmpty s i := by
  obtain ⟨i, hi, hempty⟩ := h
  cases hfree : freeSlot s with
  | none => exact absurd hempty (freeSlot_eq_none_iff.1 hfree i hi)
  | some j => exact ⟨j, freeSlot_eq_some_iff.1 hfree⟩

/-- The new task in slot `i`, and nothing else that changes but the counter. -/
structure Admitted (name : CStr) (fn : F) (period : UInt32) (s : Sched F) (i : ℕ) (s' : Sched F) : Prop where
  task : s'.taskTable i =
    ⟨strncpyK (s.taskTable i).name name taskNameLen, some fn, .ready, 0, period, 0⟩
  others : ∀ j, j ≠ i → s'.taskTable j = s.taskTable j
  count : s'.taskCountVal = s.taskCountVal + 1
  tick : s'.schedTick = s.schedTick

theorem schedulerAddTask_of_lowest {s : Sched F} (hle : schedulerTaskCount s ≤ live s) (hi : LowestEmpty s i)
    (name : CStr) (fn : F) (period : UInt32) :
    ∃ s', schedulerAddTask (some name) (some fn) period s = (.ok, s') ∧ Admitted name fn period s i s' := by
  have hlive := live_lt hi.1 hi.2.1
  have hroom : ¬(schedMaxTasks : Int) ≤ s.taskCountVal.toInt := by
    unfold schedulerTaskCount at hle
    omega
  unfold schedulerAddTask
  dsimp only
  rw [if_neg hroom, freeSlot_eq_some_iff.2 hi]
  refine ⟨_, rfl, ?_, ?_, rfl, rfl⟩
  · exact Function.update_self _ _ _
  · intro j hj
    exact Function.update_of_ne hj _ _

theorem schedulerAddTask_of_full {s : Sched F} (hfull : ∀ i < schedMaxTasks, s.state i ≠ .empty)
    (name : CStr) (fn : F) (period : UInt32) :
    schedulerAddTask (some name) (some fn) period s = (.noslot, s) := by
  unfold schedulerAddTask
  dsimp only
  rw [freeSlot_eq_none_iff.2 hfull]
  split <;> rfl

/-- **Admission**: while the counter does not wrap around, a task is accepted exactly if some slot is empty.
It gets the lowest one. -/
theorem schedulerAddTask_admits {s₀ : Sched F}
    (hr : Run (fun s a t => Step s a t ∧ NoWrap s a) (boot s₀) acts s) (name : CStr) (fn : F)
    (period : UInt32) :
    ((schedulerAddTask (some name) (some fn) period s.sched).1 = .ok ↔
      ∃ i < schedMaxTasks, s.sched.state i = .empty) ∧
    (∀ i, LowestEmpty s.sched i → ∃ s',
      schedulerAddTask (some name) (some fn) period s.sched = (.ok, s') ∧
        Admitted name fn period s.sched i s') ∧
    ((∀ i < schedMaxTasks, s.sched.state i ≠ .empty) →
      schedulerAddTask (some name) (some fn) period s.sched = (.noslot, s.sched)) := by
  have hle := taskCountVal_le_live hr
  refine ⟨⟨?_, ?_⟩, ?_, ?_⟩
  · intro hok
    by_contra hfull
    push Not at hfull
    rw [schedulerAddTask_of_full hfull] at hok
    cases hok
  · intro hempty
    obtain ⟨i, hi⟩ := exists_lowestEmpty hempty
    obtain ⟨s', hs', -⟩ := schedulerAddTask_of_lowest hle hi name fn period
    rw [hs']
  · intro i hi
    exact schedulerAddTask_of_lowest hle hi name fn period
  · intro hfull
    exact schedulerAddTask_of_full hfull name fn period

/-- A task for the table whose counter is `-1`. -/
theorem twiceRemoved_admits :
    ((schedulerAddTask (some [98]) (some 8) 0 twiceRemoved).1 = .ok ↔
      ∃ i < schedMaxTasks, twiceRemoved.state i = .empty) ∧
    (∀ i, LowestEmpty twiceRemoved i → ∃ s',
      schedulerAddTask (some [98]) (some 8) 0 twiceRemoved = (.ok, s') ∧ Admitted [98] 8 0 twiceRemoved i s') ∧
    ((∀ i < schedMaxTasks, twiceRemoved.state i ≠ .empty) →
      schedulerAddTask (some [98]) (some 8) 0 twiceRemoved = (.noslot, twiceRemoved)) :=
  schedulerAddTask_admits (noWrap_of_length run_twiceRemoved (by decide)) [98] 8 0

/-! ### A counter that wraps around -/

/-- The one task of the table is a zombie, and the counter is `-n`. -/
def drifted (n : ℕ) : Sched ℕ :=
  { (schedulerRemoveTask [97] oneTask).2 with taskCountVal := Int32.ofInt (-n) }

/-- The zombie is found once more. -/
theorem step_drifted (n : ℕ) :
    Step ⟨drifted n, .idle⟩ (.remove [97] .ok (some 0)) ⟨drifted (n + 1), .idle⟩ := by
  have hfind : findTask [97] (drifted n) = some 0 := rfl
  have hcount : (drifted n).taskCountVal - 1 = Int32.ofInt (-(n + 1 : ℕ)) := by
    have e : (-(n + 1 : ℕ) : Int) = -n - 1 := by omega
    rw [e, Int32.ofInt_sub]
    rfl
  have hslot : Function.update (drifted n).taskTable 0 { (drifted n).taskTable 0 with state := .zombie } =
      (drifted n).taskTable := Function.update_eq_self 0 _
  have hrem : schedulerRemoveTask [97] (drifted n) = (.ok, drifted (n + 1)) := by
    rw [schedulerRemoveTask_of_some hfind, hcount]
    unfold Sched.setTask
    rw [hslot]
    rfl
  have hstep := Step.remove (c := .idle) trivial hrem
  rwa [hfind] at hstep

theorem run_drifted (n : ℕ) : Run Step ⟨drifted 0, .idle⟩
    (List.replicate n (.remove [97] .ok (some 0))) ⟨drifted n, .idle⟩ := by
  induction n with
  | zero => exact Run.nil _
  | succ n ih =>
    rw [List.replicate_succ']
    exact ih.append (Run.cons (step_drifted n) (Run.nil _))

/-- **A new task is refused although there are empty slots**, after one task was added and removed
`2 ^ 31 + 2` times, always with success. -/
theorem drifted_refuses :
    Run Step (boot zeroSched)
      (.add (some [97]) (some 7) 0 .ok (some 0) :: List.replicate (2 ^ 31 + 2) (.remove [97] .ok (some 0)))
      ⟨drifted (2 ^ 31 + 1), .idle⟩ ∧
    (drifted (2 ^ 31 + 1)).state 1 = .empty ∧
    (schedulerAddTask (some [98]) (some 8) 0 (drifted (2 ^ 31 + 1))).1 = .noslot := by
  refine ⟨?_, rfl, ?_⟩
  · rw [List.replicate_succ]
    exact run_oneTask.append (Run.cons (Step.remove trivial rfl) (run_drifted (2 ^ 31 + 1)))
  · have hcount : (drifted (2 ^ 31 + 1)).taskCountVal.toInt = 2 ^ 31 - 1 := by decide
    unfold schedulerAddTask
    dsimp only
    rw [if_pos (by rw [hcount]; decide)]

end Admission

end AuraOS.Kernel.Scheduler
