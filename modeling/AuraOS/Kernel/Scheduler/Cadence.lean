import AuraOS.Kernel.Scheduler.Accounting

/-!
# Periods

When does a task run that nobody removes?  The rest of a tick decides about slot `i` once, when its loop passes the
slot (`Control.Passed`), and what it decides is a difference of two counters modulo `2 ^ 32`.  The period is less
than that, so a task runs again in the tick that is a period behind its last one, and in none before
(`cadence`).  A new task counts as run at the counter value 0, so its first run comes when the counter is next
beyond its period.
-/

namespace AuraOS.Kernel.Scheduler

open AuraOS.Lib

variable {F : Type}

/-! ### Counting -/

def Act.isTick : Act F → Bool
  | .tick => true
  | _ => false

/-- The function of slot `i` is called. -/
def Act.isCall (i : ℕ) : Act F → Bool
  | .call j _ => decide (j = i)
  | _ => false

/-- The number of ticks that were started. -/
def ticks (acts : List (Act F)) : ℕ := acts.countP Act.isTick

/-- The number of calls of the function of slot `i`. -/
def calls (i : ℕ) (acts : List (Act F)) : ℕ := acts.countP (Act.isCall i)

/-- The task in slot `i` is not removed. -/
def Keeps (i : ℕ) (acts : List (Act F)) : Prop := ∀ a ∈ acts, ∀ name, a ≠ .remove name .ok (some i)

section Counting

variable {acts : List (Act F)} {a : Act F} {i : ℕ}

theorem ticks_append (acts : List (Act F)) (a : Act F) : ticks (acts ++ [a]) = ticks acts + a.isTick.toNat := by
  unfold ticks
  rw [List.countP_append]
  cases h : a.isTick <;> simp [h]

theorem calls_append (i : ℕ) (acts : List (Act F)) (a : Act F) :
    calls i (acts ++ [a]) = calls i acts + (a.isCall i).toNat := by
  unfold calls
  rw [List.countP_append]
  cases h : a.isCall i <;> simp [h]

theorem keeps_append {acts' : List (Act F)} : Keeps i (acts ++ acts') ↔ Keeps i acts ∧ Keeps i acts' := by
  simp [Keeps, or_imp, forall_and]

theorem keeps_singleton : Keeps i [a] ↔ ∀ name, a ≠ .remove name .ok (some i) := by
  simp [Keeps]

end Counting

/-! ### A registered task -/

/-- The tick that is under way has passed slot `i`, or none is. -/
def Control.Passed : Control → ℕ → Prop
  | idle, _ => True
  | loop k, i => i < k
  | body k, i => i ≤ k

/-- What holds of the table in every state: the running task is the one whose function runs. -/
structure Settled (s : Sys F) : Prop where
  body : BodyInUse s
  running : ∀ i, s.sched.state i = .running → s.control = .body i
  blocked : ∀ i, s.sched.state i ≠ .blocked

/-- The task in slot `i` has the period `p`, and last ran when the counter was `r`. -/
structure Registered (i : ℕ) (p r : UInt32) (s : Sys F) : Prop where
  lt : i < schedMaxTasks
  state : s.sched.state i = .ready ∨ s.sched.state i = .running
  period : (s.sched.taskTable i).period = p
  lastRun : (s.sched.taskTable i).lastRun = r

section Slots

variable {s t : Sys F} {a : Act F} {acts : List (Act F)} {i j : ℕ} {p r : UInt32}

theorem taskTable_setTask (s : Sched F) (i : ℕ) (task : Task F) : (s.setTask i task).taskTable i = task :=
  Function.update_self _ _ _

theorem settled_boot (s₀ : Sched F) : Settled (boot s₀) := by
  refine ⟨bodyInUse_boot s₀, ?_, ?_⟩
  · intro i h
    cases h
  · intro i h
    cases h

/-- The step lemma. -/
theorem Settled.step (hs : Settled s) (h : Step s a t) : Settled t := by
  refine ⟨hs.body.step h, ?_, ?_⟩
  · intro i hrun
    rcases h.state_cases i with ⟨e, hcall, -⟩ | ⟨-, -, e⟩ | ⟨-, -, -, e⟩ | ⟨-, -, e⟩ | ⟨fn, rfl, -, -⟩ | ⟨-, -, e⟩
    · -- the function of slot `i` runs before the step, and still does
      have hbody := hs.running i (e ▸ hrun)
      cases h with
      | add _ _ => exact hbody
      | remove _ _ => exact hbody
      | tick => cases hbody
      | call _ _ => cases hbody
      | pass _ _ => cases hbody
      | ret =>
        cases hbody
        dsimp only at hrun
        unfold leaveTask at hrun
        rw [state_setTask, if_pos rfl] at hrun
        cases hrun
      | publish => cases hbody
    · rw [e] at hrun
      cases hrun
    · rw [e] at hrun
      cases hrun
    · rw [e] at hrun
      cases hrun
    · cases h
      rfl
    · rw [e] at hrun
      cases hrun
  · intro i hblocked
    rcases h.state_cases i with ⟨e, -⟩ | ⟨-, -, e⟩ | ⟨-, -, -, e⟩ | ⟨-, -, e⟩ | ⟨-, -, -, e⟩ | ⟨-, -, e⟩
    · exact hs.blocked i (e ▸ hblocked)
    all_goals
      rw [e] at hblocked
      cases hblocked

theorem settled_of_run {s₀ : Sched F} (hr : Run Step (boot s₀) acts s) : Settled s :=
  hr.invariant (fun _ _ _ hs h => hs.step h) (settled_boot s₀)

theorem schedulerAddTask_frame {name : Option CStr} {fn : Option F} {period : UInt32} {s s' : Sched F}
    {res : AuraStatus} (h : schedulerAddTask name fn period s = (res, s')) :
    s'.schedTick = s.schedTick ∧ ∀ i, s.state i ≠ .empty → s'.taskTable i = s.taskTable i := by
  unfold schedulerAddTask at h
  split at h
  · by_cases hfull : (schedMaxTasks : Int) ≤ s.taskCountVal.toInt
    · rw [if_pos hfull] at h
      cases h
      exact ⟨rfl, fun i _ => rfl⟩
    · rw [if_neg hfull] at h
      cases hslot : freeSlot s with
      | none =>
        rw [hslot] at h
        cases h
        exact ⟨rfl, fun i _ => rfl⟩
      | some j =>
        rw [hslot] at h
        cases h
        refine ⟨rfl, fun i hi => Function.update_of_ne ?_ _ _⟩
        rintro rfl
        exact hi (freeSlot_spec hslot)
  · cases h
    exact ⟨rfl, fun i _ => rfl⟩

theorem schedulerRemoveTask_frame {name : CStr} {s s' : Sched F} {res : AuraStatus}
    (h : schedulerRemoveTask name s = (res, s')) :
    s'.schedTick = s.schedTick ∧ ∀ i, findTask name s ≠ some i → s'.taskTable i = s.taskTable i := by
  unfold schedulerRemoveTask at h
  cases hfind : findTask name s with
  | none =>
    rw [hfind] at h
    cases h
    exact ⟨rfl, fun i _ => rfl⟩
  | some j =>
    rw [hfind] at h
    cases h
    refine ⟨rfl, fun i hi => Function.update_of_ne ?_ _ _⟩
    rintro rfl
    exact hi rfl

theorem Registered.congr (h : Registered i p r s) (ht : t.sched.taskTable i = s.sched.taskTable i) :
    Registered i p r t := by
  obtain ⟨hlt, hstate, hperiod, hlast⟩ := h
  unfold Sched.state at hstate
  rw [← ht] at hstate hperiod hlast
  exact ⟨hlt, hstate, hperiod, hlast⟩

/-- Only a tick changes the counter. -/
theorem Step.schedTick_eq (h : Step s a t) :
    t.sched.schedTick = if a.isTick then s.sched.schedTick + 1 else s.sched.schedTick := by
  cases h with
  | @add s s' c name fn period res _ e => exact (schedulerAddTask_frame e).1
  | remove _ e => exact (schedulerRemoveTask_frame e).1
  | tick => rfl
  | call _ _ => rfl
  | pass _ _ => rfl
  | ret => rfl
  | publish => rfl

/-- **The step lemma** for a task that is not removed: it stays registered, and only its own call changes when it
last ran. -/
theorem Registered.step (hreg : Registered i p r s) (h : Step s a t)
    (hk : ∀ name, a ≠ .remove name .ok (some i)) :
    Registered i p (if a.isCall i then s.sched.schedTick else r) t := by
  have huse : s.sched.state i ≠ .empty := by
    intro hempty
    rcases hreg.state with e | e <;> rw [hempty] at e <;> cases e
  cases h with
  | add _ e => exact hreg.congr ((schedulerAddTask_frame e).2 i huse)
  | @remove s s' c name res _ e =>
    have hfind : findTask name s ≠ some i := by
      intro hfind
      apply hk name
      rw [schedulerRemoveTask, hfind] at e
      obtain ⟨rfl, -⟩ := Prod.mk.inj e
      rw [hfind]
    exact hreg.congr ((schedulerRemoveTask_frame e).2 i hfind)
  | @tick s =>
    apply hreg.congr
    have hz : s.state i ≠ .zombie := by
      intro hz
      have hstate := hreg.state
      dsimp only at hstate
      rw [hz] at hstate
      rcases hstate with e | e <;> cases e
    exact if_neg hz
  | @call s j _ _ =>
    by_cases hij : j = i
    · subst hij
      have hset : (enterTask s j).taskTable j = { s.taskTable j with state := .running, lastRun := s.schedTick } :=
        taskTable_setTask s j _
      simp only [Act.isCall, decide_true, if_true]
      refine ⟨hreg.lt, Or.inr ?_, ?_, ?_⟩
      · exact congrArg Task.state hset
      · exact (congrArg Task.period hset).trans hreg.period
      · exact congrArg Task.lastRun hset
    · simp only [Act.isCall, hij, decide_false]
      exact hreg.congr (Function.update_of_ne (Ne.symm hij) _ _)
  | pass _ _ => exact hreg.congr rfl
  | @ret s j =>
    by_cases hij : i = j
    · subst hij
      have hset : (leaveTask s i).taskTable i =
          { s.taskTable i with tickCount := (s.taskTable i).tickCount + 1, state := .ready } :=
        taskTable_setTask s i _
      refine ⟨hreg.lt, Or.inl ?_, ?_, ?_⟩
      · exact congrArg Task.state hset
      · exact (congrArg Task.period hset).trans hreg.period
      · exact (congrArg Task.lastRun hset).trans hreg.lastRun
    · exact hreg.congr (Function.update_of_ne hij _ _)
  | publish => exact hreg.congr rfl

/-- **When a tick passes slot `i`**: by the call of its function, or because the task is not due. -/
theorem Step.passed_cases (h : Step s a t) (hi : i < schedMaxTasks) :
    (a = .tick ∧ s.control.Passed i ∧ ¬t.control.Passed i) ∨
    ((∃ fn, a = .call i fn) ∧ Due s.sched i ∧ ¬s.control.Passed i ∧ t.control.Passed i) ∨
    (a = .pass i ∧ ¬Due s.sched i ∧ ¬s.control.Passed i ∧ t.control.Passed i) ∨
    (a.isTick = false ∧ a.isCall i = false ∧ (t.control.Passed i ↔ s.control.Passed i)) := by
  cases h with
  | add _ _ => exact Or.inr (Or.inr (Or.inr ⟨rfl, rfl, Iff.rfl⟩))
  | remove _ _ => exact Or.inr (Or.inr (Or.inr ⟨rfl, rfl, Iff.rfl⟩))
  | tick => exact Or.inl ⟨rfl, trivial, Nat.not_lt_zero i⟩
  | @call s j _ hdue =>
    by_cases hij : j = i
    · subst hij
      exact Or.inr (Or.inl ⟨⟨_, rfl⟩, hdue, Nat.lt_irrefl j, Nat.le_refl j⟩)
    · refine Or.inr (Or.inr (Or.inr ⟨rfl, decide_eq_false hij, ?_⟩))
      change i ≤ j ↔ i < j
      omega
  | @pass s j _ hdue =>
    by_cases hij : j = i
    · subst hij
      exact Or.inr (Or.inr (Or.inl ⟨rfl, hdue, Nat.lt_irrefl j, Nat.lt_succ_self j⟩))
    · refine Or.inr (Or.inr (Or.inr ⟨rfl, rfl, ?_⟩))
      change i < j + 1 ↔ i < j
      omega
  | @ret s j =>
    refine Or.inr (Or.inr (Or.inr ⟨rfl, rfl, ?_⟩))
    change i < j + 1 ↔ i ≤ j
    omega
  | publish =>
    refine Or.inr (Or.inr (Or.inr ⟨rfl, rfl, ?_⟩))
    exact iff_of_true trivial hi

/-- Before the tick passes it, a registered task is ready, so that the two counters decide. -/
theorem Registered.due_iff (hreg : Registered i p r s) (hs : Settled s) (hp : ¬s.control.Passed i) :
    Due s.sched i ↔ p = 0 ∨ p ≤ s.sched.schedTick - r := by
  have hready : s.sched.state i = .ready := by
    apply hreg.state.resolve_right
    intro hrun
    rw [hs.running i hrun] at hp
    exact hp (Nat.le_refl i)
  unfold Due
  rw [hreg.period, hreg.lastRun]
  exact and_iff_right hready

end Slots

/-! ### The counter -/

section Counter

variable {c p : UInt32} {n : ℕ}

theorem counter_succ (c : UInt32) (n : ℕ) : c + UInt32.ofNat n + 1 = c + UInt32.ofNat (n + 1) := by
  rw [UInt32.ofNat_add, UInt32.add_assoc]
  rfl

/-- **The difference of the counters** is the number of ticks in between, across the wrap. -/
theorem le_elapsed_iff (h : n ≤ p.toNat) : p ≤ c + UInt32.ofNat n - c ↔ n = p.toNat := by
  have hlt : n < 2 ^ 32 := Nat.lt_of_le_of_lt h p.toNat_lt
  rw [UInt32.add_comm, UInt32.add_sub_cancel, UInt32.le_iff_toNat_le, UInt32.toNat_ofNat', Nat.mod_eq_of_lt hlt]
  omega

/-- Among `p + 1` values of the counter in a row there is one that is not below `p`. -/
theorem exists_le_counter (c p : UInt32) : ∃ k, 1 ≤ k ∧ k ≤ p.toNat + 1 ∧ ¬c + UInt32.ofNat k < p := by
  by_cases h : c + UInt32.ofNat 1 < p
  · -- the counter reaches `p` itself before it wraps
    have hp := p.toNat_lt
    rw [UInt32.lt_iff_toNat_lt] at h
    refine ⟨1 + (p.toNat - (c + UInt32.ofNat 1).toNat), by omega, by omega, ?_⟩
    have hsum : c + UInt32.ofNat (1 + (p.toNat - (c + UInt32.ofNat 1).toNat)) = p := by
      rw [UInt32.ofNat_add, ← UInt32.add_assoc]
      apply UInt32.toNat_inj.1
      rw [UInt32.toNat_add, UInt32.toNat_ofNat']
      omega
    rw [hsum]
    exact UInt32.lt_irrefl p
  · exact ⟨1, Nat.le_refl 1, by omega, h⟩

end Counter

/-! ### Runs -/

/-- What holds after the steps `acts` behind a call of the function of slot `i`, when the counter was `c`. -/
structure Waiting (i : ℕ) (p c : UInt32) (acts : List (Act F)) (s : Sys F) : Prop where
  settled : Settled s
  tick : s.sched.schedTick = c + UInt32.ofNat (ticks acts)
  before : ticks acts < p.toNat → calls i acts = 0 ∧ Registered i p c s
  now : ticks acts = p.toNat → (calls i acts = 0 ∧ ¬s.control.Passed i ∧ Registered i p c s) ∨
    (calls i acts = 1 ∧ s.control.Passed i)

/-- What holds of a task that runs in every tick, after the steps `acts` from a state between two ticks. -/
structure EveryTick (i : ℕ) (acts : List (Act F)) (s : Sys F) : Prop where
  settled : Settled s
  registered : ∃ r, Registered i 0 r s
  passed : s.control.Passed i → calls i acts = ticks acts
  ahead : ¬s.control.Passed i → calls i acts + 1 = ticks acts

/-- What holds after the steps `acts` behind the registration of the task in slot `i`, when the counter was `c`:
the ticks without a call had a value of the counter that is below the period. -/
structure Fresh (i : ℕ) (p c : UInt32) (acts : List (Act F)) (s : Sys F) : Prop where
  settled : Settled s
  tick : s.sched.schedTick = c + UInt32.ofNat (ticks acts)
  below : calls i acts = 0 → Registered i p 0 s ∧
    ∀ k, 1 ≤ k → k < ticks acts ∨ k = ticks acts ∧ s.control.Passed i → c + UInt32.ofNat k < p

section Runs

variable {s t u : Sys F} {a : Act F} {acts : List (Act F)} {i : ℕ} {p c : UInt32}

/-- The counter counts the ticks. -/
theorem Step.schedTick_append (h : Step s a t) (htick : s.sched.schedTick = c + UInt32.ofNat (ticks acts)) :
    t.sched.schedTick = c + UInt32.ofNat (ticks (acts ++ [a])) := by
  rw [h.schedTick_eq, ticks_append, htick]
  cases a.isTick
  · rfl
  · exact counter_succ c _

/-- **The step lemma** of a task that waits. -/
theorem Waiting.step (hw : Waiting i p c acts s) (hp : p ≠ 0) (hi : i < schedMaxTasks) (h : Step s a t)
    (hk : ∀ name, a ≠ .remove name .ok (some i)) : Waiting i p c (acts ++ [a]) t := by
  obtain ⟨hs, htick, hbefore, hnow⟩ := hw
  have hdue : ticks acts ≤ p.toNat → Registered i p c s → ¬s.control.Passed i →
      (Due s.sched i ↔ ticks acts = p.toNat) := by
    intro hle hreg hpassed
    rw [hreg.due_iff hs hpassed, htick, or_iff_right hp]
    exact le_elapsed_iff hle
  have hstep : a.isCall i = false → Registered i p c s → Registered i p c t := by
    intro hnc hreg
    have := hreg.step h hk
    rwa [hnc] at this
  refine ⟨hs.step h, h.schedTick_append htick, ?_, ?_⟩
  · intro hlt
    rw [ticks_append] at hlt
    obtain ⟨h0, hreg⟩ := hbefore (by omega)
    have hnc : a.isCall i = false := by
      rcases h.passed_cases hi with ⟨rfl, -, -⟩ | ⟨-, hd, hnot, -⟩ | ⟨rfl, -, -, -⟩ | ⟨-, hnc, -⟩
      · rfl
      · have := (hdue (by omega) hreg hnot).1 hd
        omega
      · rfl
      · exact hnc
    rw [calls_append, hnc]
    exact ⟨h0, hstep hnc hreg⟩
  · intro heq
    rw [ticks_append] at heq
    rw [calls_append]
    rcases h.passed_cases hi with ⟨rfl, -, hpassed⟩ | ⟨⟨fn, rfl⟩, hd, hnot, hpassed⟩ | ⟨rfl, hd, hnot, hpassed⟩ |
      ⟨hnt, hnc, hpassed⟩
    · -- the tick in which the task is due begins
      obtain ⟨h0, hreg⟩ := hbefore (Nat.lt_of_succ_le (Nat.le_of_eq heq))
      exact Or.inl ⟨h0, hpassed, hstep rfl hreg⟩
    · rcases hnow heq with ⟨h0, -, -⟩ | ⟨-, hpassed'⟩
      · rw [h0]
        exact Or.inr ⟨by simp [Act.isCall], hpassed⟩
      · exact absurd hpassed' hnot
    · rcases hnow heq with ⟨-, -, hreg⟩ | ⟨-, hpassed'⟩
      · exact absurd ((hdue (Nat.le_of_eq heq) hreg hnot).2 heq) hd
      · exact absurd hpassed' hnot
    · rw [hnt] at heq
      rw [hnc, hpassed]
      rcases hnow heq with ⟨h0, hnot, hreg⟩ | ⟨h1, hpassed'⟩
      · exact Or.inl ⟨h0, hnot, hstep hnc hreg⟩
      · exact Or.inr ⟨h1, hpassed'⟩

/-- The step lemma of a task that runs in every tick. -/
theorem EveryTick.step (he : EveryTick i acts s) (h : Step s a t)
    (hk : ∀ name, a ≠ .remove name .ok (some i)) : EveryTick i (acts ++ [a]) t := by
  obtain ⟨hs, ⟨r, hreg⟩, hpassed, hahead⟩ := he
  refine ⟨hs.step h, ⟨_, hreg.step h hk⟩, ?_, ?_⟩
  all_goals
    intro hcontrol
    rw [calls_append, ticks_append]
    rcases h.passed_cases hreg.lt with ⟨rfl, hp, hp'⟩ | ⟨⟨fn, rfl⟩, -, hp, hp'⟩ | ⟨rfl, hd, hp, hp'⟩ |
      ⟨hnt, hnc, hp⟩
  · exact absurd hcontrol hp'
  · simpa [Act.isCall, Act.isTick] using hahead hp
  · exact absurd ((hreg.due_iff hs hp).2 (Or.inl rfl)) hd
  · rw [hnt, hnc]
    exact hpassed (hp.1 hcontrol)
  · simpa [Act.isCall, Act.isTick] using hpassed hp
  · exact absurd hp' hcontrol
  · exact absurd hp' hcontrol
  · rw [hnt, hnc]
    exact hahead fun h => hcontrol (hp.2 h)

/-- The step lemma of a new task. -/
theorem Fresh.step (hf : Fresh i p c acts s) (hi : i < schedMaxTasks) (h : Step s a t)
    (hk : ∀ name, a ≠ .remove name .ok (some i)) : Fresh i p c (acts ++ [a]) t := by
  obtain ⟨hs, htick, hbelow⟩ := hf
  refine ⟨hs.step h, h.schedTick_append htick, ?_⟩
  intro h0
  rw [calls_append, Nat.add_eq_zero_iff] at h0
  obtain ⟨h0, hnc⟩ := h0
  have hnc : a.isCall i = false := by simpa using hnc
  obtain ⟨hreg, hlt⟩ := hbelow h0
  have hreg' := hreg.step h hk
  rw [hnc] at hreg'
  refine ⟨hreg', ?_⟩
  intro k hk1 hk2
  rw [ticks_append] at hk2
  rcases h.passed_cases hi with ⟨rfl, hp, hp'⟩ | ⟨⟨fn, rfl⟩, -, -, -⟩ | ⟨rfl, hd, hp, hp'⟩ | ⟨hnt, -, hp⟩
  · apply hlt k hk1
    rcases hk2 with hk2 | ⟨-, hcontrol⟩
    · rcases Nat.lt_succ_iff_lt_or_eq.1 hk2 with hk2 | hk2
      · exact Or.inl hk2
      · exact Or.inr ⟨hk2, hp⟩
    · exact absurd hcontrol hp'
  · simp [Act.isCall] at hnc
  · rcases hk2 with hk2 | ⟨rfl, -⟩
    · exact hlt k hk1 (Or.inl hk2)
    · -- the tick passes the slot, so the counter is still below the period
      rw [hreg.due_iff hs hp, not_or, htick, UInt32.sub_zero] at hd
      exact UInt32.not_le.1 hd.2
  · rw [hnt] at hk2
    rw [hp] at hk2
    exact hlt k hk1 hk2

/-- **The run lemma**: what the steps keep that do not remove the task. -/
theorem run_keeps {I : List (Act F) → Sys F → Prop} (hnil : I [] s)
    (hstep : ∀ acts s a t, I acts s → Step s a t → (∀ name, a ≠ .remove name .ok (some i)) → I (acts ++ [a]) t)
    (hr : Run Step s acts t) (hk : Keeps i acts) : I acts t := by
  refine hr.history (I := fun acts t => Keeps i acts → I acts t) (fun _ => hnil) ?_ hk
  intro as t a u hI h hk
  obtain ⟨hk, ha⟩ := keeps_append.1 hk
  exact hstep as t a u (hI hk) h (keeps_singleton.1 ha)

theorem Step.call_spec {fn : Option F} (h : Step s (.call i fn) t) :
    i < schedMaxTasks ∧ t.control = .body i ∧ t.sched.state i = .running ∧
      (t.sched.taskTable i).lastRun = t.sched.schedTick := by
  cases h with
  | @call s _ hlt _ =>
    have hset : (enterTask s i).taskTable i = { s.taskTable i with state := .running, lastRun := s.schedTick } :=
      taskTable_setTask s i _
    exact ⟨hlt, rfl, congrArg Task.state hset, congrArg Task.lastRun hset⟩

theorem Step.add_spec {name : Option CStr} {fn : Option F} (h : Step s (.add name fn p .ok (some i)) t) :
    i < schedMaxTasks ∧ t.control = s.control ∧ Registered i p 0 t := by
  generalize ha : Act.add name fn p .ok (some i) = a at h
  cases h with
  | @add s s' c name' fn' period res _ e =>
    obtain ⟨rfl, rfl, rfl, rfl, hslot⟩ := Act.add.inj ha
    rw [if_pos rfl] at hslot
    obtain ⟨hlt, -, -⟩ := freeSlot_eq_some_iff.1 hslot.symm
    unfold schedulerAddTask at e
    split at e
    · by_cases hfull : (schedMaxTasks : Int) ≤ s.taskCountVal.toInt
      · rw [if_pos hfull] at e
        cases e
      · rw [if_neg hfull, ← hslot] at e
        obtain ⟨-, rfl⟩ := Prod.mk.inj e
        refine ⟨hlt, rfl, hlt, Or.inl ?_, ?_, ?_⟩
        · exact congrArg Task.state (taskTable_setTask s i _)
        · exact congrArg Task.period (taskTable_setTask s i _)
        · exact congrArg Task.lastRun (taskTable_setTask s i _)
    · cases e
  | remove _ _ => cases ha
  | tick => cases ha
  | call _ _ => cases ha
  | pass _ _ => cases ha
  | ret => cases ha
  | publish => cases ha

/-- Between two ticks a live task is ready. -/
theorem Settled.ready (hs : Settled s) (hidle : s.control = .idle) (hlive : (s.sched.state i).isLive = true) :
    s.sched.state i = .ready := by
  cases hstate : s.sched.state i with
  | ready => rfl
  | running =>
    have hbody := hs.running i hstate
    rw [hidle] at hbody
    cases hbody
  | blocked => exact absurd hstate (hs.blocked i)
  | empty =>
    rw [hstate] at hlive
    cases hlive
  | zombie =>
    rw [hstate] at hlive
    cases hlive

/-- **A task with a period**, behind a call. -/
theorem calls_of_call {fn : Option F} (hs : Settled s) (hcall : Step s (.call i fn) t)
    (hp : (t.sched.taskTable i).period ≠ 0) (hrun : Run Step t acts u) (hk : Keeps i acts) :
    u.sched.schedTick = t.sched.schedTick + UInt32.ofNat (ticks acts) ∧
      (ticks acts < (t.sched.taskTable i).period.toNat → calls i acts = 0) ∧
      (ticks acts = (t.sched.taskTable i).period.toNat →
        calls i acts ≤ 1 ∧ (u.control = .idle → calls i acts = 1)) := by
  obtain ⟨hlt, hbody, hrunning, hlast⟩ := hcall.call_spec
  have hstart : Waiting i (t.sched.taskTable i).period t.sched.schedTick [] t := by
    refine ⟨hs.step hcall, (UInt32.add_zero _).symm, ?_, ?_⟩
    · intro _
      exact ⟨rfl, hlt, Or.inr hrunning, rfl, hlast⟩
    · intro hzero
      exact absurd (UInt32.toNat_inj.1 hzero.symm) hp
  have hw := run_keeps hstart (fun _ _ _ _ hw h hk => hw.step hp hlt h hk) hrun hk
  refine ⟨hw.tick, fun h => (hw.before h).1, ?_⟩
  intro heq
  rcases hw.now heq with ⟨h0, hnot, -⟩ | ⟨h1, -⟩
  · refine ⟨by omega, ?_⟩
    intro hidle
    rw [hidle] at hnot
    exact absurd trivial hnot
  · exact ⟨by omega, fun _ => h1⟩

/-- **A task without a period**, from between two ticks on. -/
theorem calls_of_no_period (hs : Settled s) (hidle : s.control = .idle) (hlt : i < schedMaxTasks)
    (hlive : (s.sched.state i).isLive = true) (hp : (s.sched.taskTable i).period = 0) (hrun : Run Step s acts t)
    (hk : Keeps i acts) : calls i acts ≤ ticks acts ∧ (t.control = .idle → calls i acts = ticks acts) := by
  have hstart : EveryTick i [] s := by
    refine ⟨hs, ⟨_, hlt, Or.inl (hs.ready hidle hlive), hp, rfl⟩, fun _ => rfl, ?_⟩
    intro hnot
    rw [hidle] at hnot
    exact absurd trivial hnot
  have he := run_keeps hstart (fun _ _ _ _ he h hk => he.step h hk) hrun hk
  constructor
  · by_cases hpassed : t.control.Passed i
    · exact Nat.le_of_eq (he.passed hpassed)
    · have hahead := he.ahead hpassed
      omega
  · intro hidle'
    apply he.passed
    rw [hidle']
    trivial

/-- **A task that is added**. -/
theorem calls_of_add {name : Option CStr} {fn : Option F} (hs : Settled s)
    (hadd : Step s (.add name fn p .ok (some i)) t) (hrun : Run Step t acts u) (hk : Keeps i acts)
    (hticks : p.toNat + 1 ≤ ticks acts) (hidle : u.control = .idle) : 1 ≤ calls i acts := by
  obtain ⟨hlt, -, hreg⟩ := hadd.add_spec
  have hstart : Fresh i p t.sched.schedTick [] t := by
    refine ⟨hs.step hadd, (UInt32.add_zero _).symm, fun _ => ⟨hreg, ?_⟩⟩
    rintro k hk1 (hk2 | ⟨rfl, -⟩)
    · cases hk2
    · cases hk1
  have hf := run_keeps hstart (fun _ _ _ _ hf h hk => hf.step hlt h hk) hrun hk
  by_contra hnone
  obtain ⟨-, hbelow⟩ := hf.below (by omega)
  -- one of the counter values since then is due
  obtain ⟨k, hk1, hk2, hk3⟩ := exists_le_counter t.sched.schedTick p
  apply hk3
  apply hbelow k hk1
  rcases Nat.lt_or_ge k (ticks acts) with hlt' | hge
  · exact Or.inl hlt'
  · refine Or.inr ⟨by omega, ?_⟩
    rw [hidle]
    trivial

end Runs

/-- **Periods are kept**, in every continuation `acts` in which the task in slot `i` is not removed.
* A task with a period, behind a call: no further call for as many ticks as the period has, less one; and exactly one
  call in the next tick, in which the counter is a period further.
* A task without a period, from between two ticks on: one call in every tick.
* A task that is added between two ticks: a call in one of the ticks that follow, one more than the period. -/
theorem cadence {s₀ : Sched F} {pre : List (Act F)} {s : Sys F} (hr : Run Step (boot s₀) pre s) (i : ℕ) :
    (∀ fn v acts t, Step s (.call i fn) v → (v.sched.taskTable i).period ≠ 0 → Run Step v acts t → Keeps i acts →
      t.sched.schedTick = v.sched.schedTick + UInt32.ofNat (ticks acts) ∧
      (ticks acts < (v.sched.taskTable i).period.toNat → calls i acts = 0) ∧
      (ticks acts = (v.sched.taskTable i).period.toNat →
        calls i acts ≤ 1 ∧ (t.control = .idle → calls i acts = 1))) ∧
    (∀ acts t, s.control = .idle → i < schedMaxTasks → (s.sched.state i).isLive = true →
      (s.sched.taskTable i).period = 0 → Run Step s acts t → Keeps i acts →
      calls i acts ≤ ticks acts ∧ (t.control = .idle → calls i acts = ticks acts)) ∧
    (∀ name fn p v acts t, s.control = .idle → Step s (.add name fn p .ok (some i)) v → Run Step v acts t →
      Keeps i acts → p.toNat + 1 ≤ ticks acts → t.control = .idle → 1 ≤ calls i acts) := by
  have hs := settled_of_run hr
  refine ⟨?_, ?_, ?_⟩
  · intro fn v acts t hcall hp hrun hk
    exact calls_of_call hs hcall hp hrun hk
  · intro acts t hidle hlt hlive hp hrun hk
    exact calls_of_no_period hs hidle hlt hlive hp hrun hk
  · intro name fn p v acts t _ hadd hrun hk hticks hidle
    exact calls_of_add hs hadd hrun hk hticks hidle

/-! ### Two ticks -/

/-- Task `a`, with the period `p`. -/
def periodTask (p : UInt32) : Sched ℕ := (schedulerAddTask (some [97]) (some 7) p (schedulerInit zeroSched)).2

/-- The task of slot 0 is the only one, and its tick ends; the counter is `c`. -/
def restOfTick (c : UInt32) : List (Act ℕ) :=
  .ret 0 :: (List.range' 1 15).map Act.pass ++ [.publish topicSchedulerSwitch c]

theorem run_passes {s : Sched F} {n i : ℕ} (h : i + n ≤ schedMaxTasks)
    (hempty : ∀ j < n, s.state (i + j) = .empty) :
    Run Step ⟨s, .loop i⟩ ((List.range' i n).map Act.pass) ⟨s, .loop (i + n)⟩ := by
  induction n generalizing i with
  | zero => exact Run.nil _
  | succ n ih =>
    have hdue : ¬Due s i := by
      intro hdue
      have := hempty 0 (Nat.succ_pos n)
      rw [Nat.add_zero, hdue.1] at this
      cases this
    have hrest := ih (i := i + 1) (by omega) fun j hj => by
      rw [Nat.add_right_comm]
      exact hempty (j + 1) (Nat.succ_lt_succ hj)
    rw [Nat.add_right_comm] at hrest
    exact Run.cons (Step.pass (by omega) hdue) hrest

theorem run_restOfTick {s : Sched ℕ} (hempty : ∀ j < 15, s.state (1 + j) = .empty) :
    Run Step ⟨s, .body 0⟩ (restOfTick s.schedTick) ⟨leaveTask s 0, .idle⟩ := by
  have hempty' : ∀ j < 15, (leaveTask s 0).state (1 + j) = .empty := by
    intro j hj
    unfold leaveTask
    rw [state_setTask, if_neg (by omega)]
    exact hempty j hj
  exact Run.cons Step.ret ((run_passes (by decide) hempty').append (Run.cons Step.publish (Run.nil _)))

theorem keeps_restOfTick (i : ℕ) (c : UInt32) : Keeps i (restOfTick c) := by
  rintro a ha name rfl
  simp [restOfTick] at ha

/-- The state in the first call of the function, and in the second. -/
def firstCall (p : UInt32) : Sched ℕ := enterTask (startTick (periodTask p)) 0
def secondCall (p : UInt32) : Sched ℕ := enterTask (startTick (leaveTask (firstCall p) 0)) 0

theorem run_periodTask (p : UInt32) : Run Step (boot zeroSched)
    [.add (some [97]) (some 7) p .ok (some 0)] ⟨periodTask p, .idle⟩ :=
  Run.cons (Step.add trivial rfl) (Run.nil _)

theorem step_firstCall : Step ⟨startTick (periodTask 1), .loop 0⟩ (.call 0 (some 7)) ⟨firstCall 1, .body 0⟩ :=
  Step.call (by decide) (by decide)

/-- From the first call to the end of the second tick. -/
theorem run_secondTick : Run Step ⟨firstCall 1, .body 0⟩
    (restOfTick 1 ++ ([.tick, .call 0 (some 7)] ++ restOfTick 2)) ⟨leaveTask (secondCall 1) 0, .idle⟩ := by
  have hfirst : Run Step ⟨firstCall 1, .body 0⟩ (restOfTick 1) ⟨leaveTask (firstCall 1) 0, .idle⟩ :=
    run_restOfTick (by decide)
  have hsecond : Run Step ⟨secondCall 1, .body 0⟩ (restOfTick 2) ⟨leaveTask (secondCall 1) 0, .idle⟩ :=
    run_restOfTick (by decide)
  have hcall : Step ⟨startTick (leaveTask (firstCall 1) 0), .loop 0⟩ (.call 0 (some 7)) ⟨secondCall 1, .body 0⟩ :=
    Step.call (by decide) (by decide)
  exact hfirst.append (Run.cons Step.tick (Run.cons hcall hsecond))

/-- A task with the period 1 runs once in the second tick; and within two ticks. -/
theorem cadence_periodTask :
    calls 0 (restOfTick 1 ++ ([.tick, .call 0 (some 7)] ++ restOfTick 2)) = 1 ∧
      1 ≤ calls 0 ([.tick, .call 0 (some 7)] ++ (restOfTick 1 ++ ([.tick, .call 0 (some 7)] ++ restOfTick 2))) := by
  have hcall : Keeps 0 [Act.tick, .call 0 (some 7)] := by simp [Keeps]
  have hk : Keeps 0 (restOfTick 1 ++ ([.tick, .call 0 (some 7)] ++ restOfTick 2)) :=
    keeps_append.2 ⟨keeps_restOfTick 0 1, keeps_append.2 ⟨hcall, keeps_restOfTick 0 2⟩⟩
  constructor
  · have hr := (run_periodTask 1).append (Run.cons Step.tick (Run.nil _))
    have h := (cadence hr 0).1 (some 7) _ _ _ step_firstCall (by decide) run_secondTick hk
    exact (h.2.2 rfl).2 rfl
  · have hr : Run Step (boot zeroSched) [] (boot zeroSched) := Run.nil _
    have hadd : Step (boot zeroSched) (.add (some [97]) (some 7) 1 .ok (some 0)) ⟨periodTask 1, .idle⟩ :=
      Step.add trivial rfl
    have hrun := Run.cons Step.tick (Run.cons step_firstCall run_secondTick)
    exact (cadence hr 0).2.2 _ _ 1 _ _ _ rfl hadd hrun (keeps_append.2 ⟨hcall, hk⟩) (by decide) rfl

end AuraOS.Kernel.Scheduler
