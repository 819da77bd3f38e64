import AuraOS.Kernel.System.Drain

/-!
# The timetable of the running system

Which tasks `scheduler_tick` calls is decided by 32-bit counters that wrap around.  In the running system it comes to
this: the tick `n`, counted from 1 and beyond the range of the counters, calls those of the built-in tasks whose
period divides `n`, in their order and each once; and the loop never gets stuck in a tick, unless a key of the menu
halts it (`timetable`).
-/

namespace AuraOS.Kernel.System

open AuraOS.Lib AuraOS.Kernel AuraOS.Env AuraOS.Modules

variable {H : Type}

/-- The task that is called in a step. -/
def Label.call : Label H → Option TaskFn
  | ran _ fn _ => some fn
  | _ => none

/-- A tick begins. -/
def Label.isTick : Label H → Bool
  | tick => true
  | _ => false

/-- The tasks that are called. -/
def calls (ls : List (Label H)) : List TaskFn := ls.filterMap Label.call

/-- The ticks that have begun. -/
def ticks (ls : List (Label H)) : ℕ := ls.countP Label.isTick

/-- Those of the tasks whose period divides `n`. -/
def due (n : ℕ) (tasks : List (CStr × TaskFn × UInt32)) : List TaskFn :=
  (tasks.filter fun task => n % task.2.2.toNat = 0).map fun task => task.2.1

/-- The last tick up to `n` with a call of the task. -/
def lastCall (n : ℕ) (task : CStr × TaskFn × UInt32) : ℕ := n - n % task.2.2.toNat

theorem calls_append (ls ls' : List (Label H)) : calls (ls ++ ls') = calls ls ++ calls ls' := List.filterMap_append

theorem calls_cons (l : Label H) (ls : List (Label H)) : calls (l :: ls) = l.call.toList ++ calls ls := by
  unfold calls
  rw [List.filterMap_cons]
  cases l.call with
  | none => rfl
  | some fn => rfl

theorem Label.isTick_of_ne {l : Label H} (h : l ≠ .tick) : l.isTick = false := by
  cases l with
  | tick => exact absurd rfl h
  | _ => rfl

theorem ticks_append (ls ls' : List (Label H)) : ticks (ls ++ ls') = ticks ls + ticks ls' := List.countP_append

theorem due_take_succ {n i : ℕ} {tasks : List (CStr × TaskFn × UInt32)} {task : CStr × TaskFn × UInt32}
    (h : tasks[i]? = some task) : due n (tasks.take (i + 1)) =
      due n (tasks.take i) ++ if n % task.2.2.toNat = 0 then [task.2.1] else [] := by
  unfold due
  rw [List.take_add_one, h, Option.toList_some, List.filter_append, List.map_append]
  congr 1
  by_cases h0 : n % task.2.2.toNat = 0
  · simp [h0]
  · simp [h0]

theorem due_take_of_none {n i : ℕ} {tasks : List (CStr × TaskFn × UInt32)} (h : tasks[i]? = none) :
    due n (tasks.take (i + 1)) = due n (tasks.take i) := by
  rw [List.take_add_one, h, Option.toList_none, List.append_nil]

theorem due_take_prefix (n i : ℕ) (tasks : List (CStr × TaskFn × UInt32)) :
    due n (tasks.take i) <+: due n tasks := by
  exact ((List.take_prefix i tasks).filter _).map _

/-! ### When a task is due -/

section Due

variable {s : Scheduler.Sched TaskFn} {n i : ℕ} {task : CStr × TaskFn × UInt32}

theorem builtinTasks_period (h : builtinTasks[i]? = some task) :
    i < Scheduler.schedMaxTasks ∧ 0 < task.2.2.toNat ∧ task.2.2.toNat < 2 ^ 32 := by
  have hi : i < 7 := (List.getElem?_eq_some_iff.1 h).1
  refine ⟨Nat.lt_trans hi (by decide), ?_, task.2.2.toNat_lt⟩
  interval_cases i <;> cases h <;> decide

/-- **In tick `n` a task is due** if its period divides `n`, whatever the counters have wrapped around. -/
theorem due_iff (h : Table builtinTasks s) (ht : builtinTasks[i]? = some task) (hn : 0 < n)
    (htick : s.schedTick = .ofNat n) (hlast : (s.taskTable i).lastRun = .ofNat (lastCall (n - 1) task)) :
    Scheduler.Due s i ↔ n % task.2.2.toNat = 0 := by
  obtain ⟨hi, hpos, hlt⟩ := builtinTasks_period ht
  obtain ⟨hready, hjob⟩ := h.of_some hi ht
  have hperiod : (s.taskTable i).period = task.2.2 := congrArg Prod.snd hjob
  unfold lastCall at hlast
  generalize hp : task.2.2.toNat = p at *
  have hmod := Nat.mod_lt (n - 1) hpos
  have hle := Nat.mod_le (n - 1) p
  have hsub : s.schedTick - (s.taskTable i).lastRun = .ofNat ((n - 1) % p + 1) := by
    rw [htick, hlast, ← UInt32.ofNat_sub (by omega)]
    congr 1
    omega
  have hnat : (s.schedTick - (s.taskTable i).lastRun).toNat = (n - 1) % p + 1 := by
    rw [hsub, UInt32.toNat_ofNat']
    exact Nat.mod_eq_of_lt (by omega)
  have hdiv : p ≤ (n - 1) % p + 1 ↔ n % p = 0 := by
    obtain ⟨m, rfl⟩ : ∃ m, n = m + 1 := ⟨n - 1, by omega⟩
    obtain ⟨q, rfl⟩ : ∃ q, p = q + 1 := ⟨p - 1, by omega⟩
    rw [Nat.add_sub_cancel] at hmod ⊢
    rw [Nat.succ_mod_succ_eq_zero_iff]
    omega
  unfold Scheduler.Due
  rw [hperiod, UInt32.le_iff_toNat_le, hnat, hp, hdiv]
  constructor
  · rintro ⟨-, h0 | h0⟩
    · rw [h0] at hp
      exact absurd hp.symm (Nat.ne_of_gt hpos)
    · exact h0
  · exact fun h0 => ⟨hready, Or.inr h0⟩

theorem lastCall_of_call (h0 : n % task.2.2.toNat = 0) : lastCall n task = n := by
  unfold lastCall
  rw [h0, Nat.sub_zero]

theorem lastCall_of_pass (hn : 0 < n) (hpos : 0 < task.2.2.toNat) (h0 : n % task.2.2.toNat ≠ 0) :
    lastCall n task = lastCall (n - 1) task := by
  unfold lastCall
  obtain ⟨m, rfl⟩ : ∃ m, n = m + 1 := ⟨n - 1, by omega⟩
  obtain ⟨q, hq⟩ : ∃ q, task.2.2.toNat = q + 1 := ⟨task.2.2.toNat - 1, by omega⟩
  rw [hq, Ne, Nat.succ_mod_succ_eq_zero_iff] at h0
  have hlt : m % (q + 1) < q + 1 := Nat.mod_lt m (Nat.succ_pos q)
  have hmod : (m + 1) % (q + 1) = m % (q + 1) + 1 := by
    rw [← Nat.mod_add_mod, Nat.mod_eq_of_lt (by omega)]
  rw [hq, hmod, Nat.add_sub_cancel]
  omega

end Due

/-! ### The invariant -/

/-- After `n` ticks, of which the last one has called the tasks `cs` so far; nothing follows a halt. -/
def Timed (n : ℕ) (cs : List TaskFn) (s : Scheduler.Sched TaskFn) : Scheduler.Control → Prop
  | .idle => Table builtinTasks s ∧ s.schedTick = .ofNat n ∧
      (∀ i task, builtinTasks[i]? = some task → (s.taskTable i).lastRun = .ofNat (lastCall n task)) ∧
      (0 < n → cs = due n builtinTasks)
  | .loop j => Table builtinTasks s ∧ s.schedTick = .ofNat n ∧
      (∀ i task, builtinTasks[i]? = some task →
        (s.taskTable i).lastRun = .ofNat (lastCall (if i < j then n else n - 1) task)) ∧
      0 < n ∧ j ≤ Scheduler.schedMaxTasks ∧ cs = due n (builtinTasks.take j)
  | .body j => 0 < n ∧ cs = due n (builtinTasks.take j)

section Timed

variable {s : Scheduler.Sched TaskFn} {n i : ℕ} {cs : List TaskFn} {task : CStr × TaskFn × UInt32}

/-- A tick begins. -/
theorem Timed.startTick (h : Timed n cs s .idle) : Timed (n + 1) [] (Scheduler.startTick s) (.loop 0) := by
  obtain ⟨htable, htick, hlast, -⟩ := h
  refine ⟨htable.startTick, ?_, fun i task ht => ?_, Nat.succ_pos n, Nat.zero_le _, rfl⟩
  · change s.schedTick + 1 = _
    rw [htick, UInt32.ofNat_add]
    rfl
  · rw [htable.taskTable_startTick (builtinTasks_period ht).1, hlast i task ht, if_neg (Nat.not_lt_zero i),
      Nat.add_sub_cancel]

/-- A slot is passed. -/
theorem Timed.pass (h : Timed n cs s (.loop i)) (hi : i < Scheduler.schedMaxTasks) (hdue : ¬Scheduler.Due s i) :
    Timed n cs s (.loop (i + 1)) := by
  obtain ⟨htable, htick, hlast, hn, -, hcs⟩ := h
  have hskip : ∀ task, builtinTasks[i]? = some task → n % task.2.2.toNat ≠ 0 := by
    intro task ht h0
    have hlast' := hlast i task ht
    rw [if_neg (Nat.lt_irrefl i)] at hlast'
    exact hdue ((due_iff htable ht hn htick hlast').2 h0)
  refine ⟨htable, htick, fun j task ht => ?_, hn, hi, ?_⟩
  · rw [hlast j task ht]
    by_cases hj : j = i
    · subst hj
      rw [if_neg (Nat.lt_irrefl j), if_pos (Nat.lt_succ_self j),
        lastCall_of_pass hn (builtinTasks_period ht).2.1 (hskip task ht)]
    · rw [if_congr (show j < i ↔ j < i + 1 by omega) rfl rfl]
  · rw [hcs]
    cases ht : builtinTasks[i]? with
    | none => rw [due_take_of_none ht]
    | some task => rw [due_take_succ ht, if_neg (hskip task ht), List.append_nil]

/-- **A task has run.** -/
theorem Timed.ran (h : Timed n cs s (.loop i)) (hi : i < Scheduler.schedMaxTasks) (hdue : Scheduler.Due s i)
    {fn : TaskFn} (hfn : (s.taskTable i).fn = some fn) :
    Timed n (cs ++ [fn]) (Scheduler.leaveTask (Scheduler.enterTask s i) i) (.loop (i + 1)) := by
  obtain ⟨htable, htick, hlast, hn, -, hcs⟩ := h
  obtain ⟨task, ht, hfn'⟩ := exists_task htable hi hdue
  obtain rfl : fn = task.2.1 := Option.some.inj (hfn.symm.trans hfn')
  have hlast' := hlast i task ht
  rw [if_neg (Nat.lt_irrefl i)] at hlast'
  have h0 := (due_iff htable ht hn htick hlast').1 hdue
  refine ⟨htable.leaveTask hdue.1, htick, fun j task' ht' => ?_, hn, hi, ?_⟩
  · have hslot : ((Scheduler.leaveTask (Scheduler.enterTask s i) i).taskTable j).lastRun =
        if j = i then s.schedTick else (s.taskTable j).lastRun := by
      unfold Scheduler.leaveTask Scheduler.enterTask Scheduler.Sched.setTask
      dsimp only
      by_cases hj : j = i
      · subst hj
        simp
      · rw [if_neg hj, Function.update_of_ne hj, Function.update_of_ne hj]
    rw [hslot]
    by_cases hj : j = i
    · subst hj
      obtain rfl : task' = task := Option.some.inj (ht'.symm.trans ht)
      rw [if_pos rfl, if_pos (Nat.lt_succ_self j), htick, lastCall_of_call h0]
    · rw [if_neg hj, hlast j task' ht', if_congr (show j < i ↔ j < i + 1 by omega) rfl rfl]
  · rw [hcs, due_take_succ ht, if_pos h0]

/-- **A tick ends.** -/
theorem Timed.switch (h : Timed n cs s (.loop Scheduler.schedMaxTasks)) : Timed n cs s .idle := by
  obtain ⟨htable, htick, hlast, -, -, hcs⟩ := h
  refine ⟨htable, htick, fun i task ht => ?_, fun _ => hcs⟩
  rw [hlast i task ht, if_pos (builtinTasks_period ht).1]

end Timed

/-! ### Runs -/

/-- The ticks, and the tasks that the last one has called so far. -/
def clock (ls : List (Label H)) : ℕ × List TaskFn :=
  ls.foldl (fun p l => if l.isTick then (p.1 + 1, []) else (p.1, p.2 ++ l.call.toList)) (0, [])

theorem clock_concat (ls : List (Label H)) (l : Label H) : clock (ls ++ [l]) =
    if l.isTick then ((clock ls).1 + 1, []) else ((clock ls).1, (clock ls).2 ++ l.call.toList) := by
  unfold clock
  rw [List.foldl_append, List.foldl_cons, List.foldl_nil]

theorem clock_fst (ls : List (Label H)) : (clock ls).1 = ticks ls := by
  induction ls using List.reverseRecOn with
  | nil => rfl
  | append_singleton ls l ih =>
    rw [clock_concat, ticks_append]
    unfold ticks at ih ⊢
    rw [List.countP_singleton]
    split
    · rw [ih]
    · exact ih

theorem clock_of_mid (pre : List (Label H)) {mid : List (Label H)} (hmid : .tick ∉ mid) :
    clock (pre ++ .tick :: mid) = (ticks pre + 1, calls mid) := by
  induction mid using List.reverseRecOn with
  | nil =>
    rw [clock_concat, clock_fst]
    rfl
  | append_singleton mid l ih =>
    rw [List.mem_append, List.mem_singleton, not_or] at hmid
    rw [← List.cons_append, ← List.append_assoc, clock_concat, Label.isTick_of_ne (Ne.symm hmid.2), ih hmid.1,
      calls_append]
    unfold calls
    cases hcall : l.call with
    | none => simp [hcall]
    | some fn => simp [hcall]

section Runs

variable [DecidableEq H] {s t u : Sys H} {l : Label H} {ls : List (Label H)} {k₀ k : State H}
  {boot : List (EventBus.Act H)} {n i : ℕ} {cs : List TaskFn}

/-- No task changes the table of tasks. -/
theorem Body.sched_eq {fn : TaskFn} {k k' : State H} {acts : List (EventBus.Act H)} (h : Body fn k acts k') :
    k'.sched = k.sched := by
  by_cases hfn : fn = .eventbusProcess
  · subst hfn
    cases h with
    | eventbusProcess _ => rfl
  · exact (h.adds hfn).2

/-- **The step lemma.** -/
theorem Timed.step (hs : Timed n cs s.state.sched s.control) (h : Step s l t) :
    if l.isTick then Timed (n + 1) [] t.state.sched t.control
    else Timed n (cs ++ l.call.toList) t.state.sched t.control := by
  cases h with
  | tick h =>
    cases h with
    | tick => exact hs.startTick
  | pass h =>
    cases h with
    | pass hi hdue =>
      change Timed n (cs ++ []) _ (.loop _)
      rw [List.append_nil]
      exact hs.pass hi hdue
  | ran hcall hbody hret =>
    obtain ⟨hi, hdue, hfn, rfl⟩ := call_spec hcall
    cases hret with
    | ret =>
      have hsched := hbody.sched_eq
      dsimp only at hsched
      rw [hsched]
      exact hs.ran hi hdue hfn
  | halt hcall _ =>
    obtain ⟨-, -, -, rfl⟩ := call_spec hcall
    obtain ⟨-, -, -, hn, -, hcs⟩ := hs
    exact ⟨hn, (List.append_nil _).trans hcs⟩
  | switch h hperf =>
    cases h with
    | publish =>
      have hsched := hperf.sched_eq
      dsimp only at hsched
      have hnext := hs.switch
      change Timed n (cs ++ []) _ .idle
      rw [hsched, List.append_nil]
      exact hnext

omit [DecidableEq H] in
theorem KernelMain.timed (h : KernelMain k₀ boot k) : Timed 0 [] k.sched .idle := by
  obtain ⟨htable, -, hlast, htick⟩ := h.fresh
  refine ⟨htable, htick, fun i task ht => ?_, fun h0 => absurd h0 (Nat.lt_irrefl 0)⟩
  rw [hlast i (List.getElem?_eq_some_iff.1 ht).1]
  unfold lastCall
  rw [Nat.zero_sub]
  rfl

theorem Timed.run (hs : Timed 0 [] s.state.sched s.control) (h : Run Step s ls t) :
    Timed (clock ls).1 (clock ls).2 t.state.sched t.control := by
  have hnil : Timed (clock ([] : List (Label H))).1 (clock ([] : List (Label H))).2 s.state.sched s.control := hs
  refine h.history (I := fun ls t => Timed (clock ls).1 (clock ls).2 t.state.sched t.control) hnil ?_
  intro ls t l u hI hstep
  have hnext := hI.step hstep
  rw [clock_concat]
  split
  next htick => rwa [if_pos htick] at hnext
  next htick => rwa [if_neg htick] at hnext

/-- Within a tick the calls add up. -/
theorem Timed.within (hs : Timed n cs s.state.sched s.control) (h : Run Step s ls t) (hl : .tick ∉ ls) :
    Timed n (cs ++ calls ls) t.state.sched t.control := by
  induction h generalizing cs with
  | nil s => rwa [show calls ([] : List (Label H)) = [] from rfl, List.append_nil]
  | @cons s t u l ls hstep _ ih =>
    rw [List.mem_cons, not_or] at hl
    have hone := hs.step hstep
    rw [Label.isTick_of_ne (Ne.symm hl.1), if_neg Bool.false_ne_true] at hone
    have hrest := ih hone hl.2
    rwa [List.append_assoc, ← calls_cons] at hrest

/-! ### No tick gets stuck -/

omit [DecidableEq H] in
theorem exists_tickAll (m : ℕ) : ∀ i, i + m = Plugin.pluginMax → ∀ k : State H, ∃ acts k', TickAll i k acts k' := by
  induction m with
  | zero =>
    intro i hi k
    obtain rfl : i = Plugin.pluginMax := hi
    exact ⟨[], k, .done k⟩
  | succ m ih =>
    intro i hi k
    have hlt : i < Plugin.pluginMax := by omega
    by_cases hdue : Plugin.Due k.plugins i
    · obtain ⟨hactive, hsome⟩ := hdue
      obtain ⟨f, hf⟩ := Option.isSome_iff_exists.1 hsome
      obtain ⟨acts, k₁, hperf⟩ := exists_performs (pluginTick f k)
      obtain ⟨acts', k', hrest⟩ := ih (i + 1) (by omega)
        { k₁ with loader := { k₁.loader with plugins := Plugin.leaveTick i .ok k₁.plugins } }
      exact ⟨_, k', .tick hlt hactive hf hperf hrest⟩
    · obtain ⟨acts, k', hrest⟩ := ih (i + 1) (by omega) k
      exact ⟨acts, k', .pass hlt hdue hrest⟩

/-- Every task can return; `menu_tick` does so without a key. -/
theorem exists_body (fn : TaskFn) (hb : NoHandlers k.bus) : ∃ acts k', Body fn k acts k' := by
  cases fn with
  | kernelHeartbeat => exact ⟨_, _, .kernelHeartbeat k⟩
  | eventbusProcess =>
    obtain ⟨acts, b, h⟩ := exists_drains hb
    exact ⟨acts, _, .eventbusProcess h⟩
  | mirrorSync =>
    obtain ⟨acts, k', h⟩ := exists_performs (mirrorSync ⟨0, 0, 0⟩ k)
    exact ⟨acts, k', .mirrorSync h⟩
  | pluginTickAll =>
    obtain ⟨acts, k', h⟩ := exists_tickAll Plugin.pluginMax 0 (Nat.zero_add _) k
    exact ⟨acts, k', .pluginTickAll h⟩
  | keyboardPoll => exact ⟨_, _, .keyboardPoll k⟩
  | menuTick =>
    have hnone : menuTick 0 ⟨0, 0, 0⟩ k = some ([], k) := rfl
    obtain ⟨acts, k', h⟩ := exists_performs (([], k) : Effect H)
    exact ⟨acts, k', .menuTick hnone h⟩
  | serialPoll => exact ⟨_, _, .serialPoll k⟩

/-- **Each slot is passed or its task runs**, and neither need halt. -/
theorem Timed.exists_slot (hs : Timed n cs k.sched (.loop i)) (hb : NoHandlers k.bus)
    (hi : i < Scheduler.schedMaxTasks) : ∃ l k', Step ⟨k, .loop i⟩ l ⟨k', .loop (i + 1)⟩ ∧ l ≠ .tick := by
  obtain ⟨htable, -⟩ := hs
  by_cases hdue : Scheduler.Due k.sched i
  · obtain ⟨task, ht, hfn⟩ := exists_task htable hi hdue
    have hcall : Scheduler.Step ⟨k.sched, .loop i⟩ (.call i (some task.2.1))
        ⟨Scheduler.enterTask k.sched i, .body i⟩ := hfn ▸ Scheduler.Step.call hi hdue
    obtain ⟨acts, k', hbody⟩ := exists_body (k := { k with sched := Scheduler.enterTask k.sched i }) task.2.1 hb
    exact ⟨_, _, .ran hcall hbody .ret, nofun⟩
  · exact ⟨_, _, .pass (.pass hi hdue), nofun⟩

/-- Behind the last slot the tick ends. -/
theorem exists_switch (k : State H) :
    ∃ l k', Step ⟨k, .loop Scheduler.schedMaxTasks⟩ l ⟨k', .idle⟩ ∧ l ≠ .tick := by
  obtain ⟨acts, k', hperf⟩ :=
    exists_performs (([(Scheduler.topicSchedulerSwitch, k.sched.schedTick)], k) : Effect H)
  exact ⟨_, _, .switch .publish hperf, nofun⟩

/-- **Progress.** -/
theorem Timed.exists_step (hs : Timed n cs s.state.sched s.control) (hb : NoHandlers s.state.bus)
    (hc : ∀ i, s.control ≠ .body i) : ∃ l t, Step s l t := by
  obtain ⟨k, _ | i | i⟩ := s
  · exact ⟨_, _, .tick .tick⟩
  · have hle := hs.2.2.2.2.1
    rcases Nat.lt_or_eq_of_le hle with hlt | rfl
    · obtain ⟨l, k', h, -⟩ := hs.exists_slot hb hlt
      exact ⟨l, _, h⟩
    · obtain ⟨l, k', h, -⟩ := exists_switch k
      exact ⟨l, _, h⟩
  · exact absurd rfl (hc i)

/-- **A tick can be brought to each slot**, without a key. -/
theorem Timed.exists_run_loop {m : ℕ} (hs : Timed n cs k.sched (.loop i)) (hI : Inv ⟨k, .loop i⟩)
    (hm : i + m ≤ Scheduler.schedMaxTasks) :
    ∃ ls k', Run Step ⟨k, .loop i⟩ ls ⟨k', .loop (i + m)⟩ ∧ .tick ∉ ls := by
  induction m generalizing i k cs with
  | zero => exact ⟨[], k, Run.nil _, List.not_mem_nil⟩
  | succ m ih =>
    obtain ⟨l, k₁, h, hl⟩ := hs.exists_slot hI.noHandlers (by omega)
    have hs₁ := hs.step h
    rw [Label.isTick_of_ne hl, if_neg Bool.false_ne_true] at hs₁
    obtain ⟨ls, k', hrun, hls⟩ := ih hs₁ (hI.step h).1 (by omega)
    refine ⟨l :: ls, k', ?_, fun hmem => (List.mem_cons.1 hmem).elim (fun e => hl e.symm) hls⟩
    rw [show i + (m + 1) = i + 1 + m by omega]
    exact Run.cons h hrun

/-- **Each tick can end.** -/
theorem Timed.exists_run_end (hs : Timed n cs k.sched (.loop i)) (hI : Inv ⟨k, .loop i⟩) :
    ∃ ls k', Run Step ⟨k, .loop i⟩ ls ⟨k', .idle⟩ ∧ .tick ∉ ls := by
  have hle := hs.2.2.2.2.1
  obtain ⟨m, hm⟩ := Nat.le.dest hle
  obtain ⟨ls, k₁, hrun, hls⟩ := hs.exists_run_loop (m := m) hI (by omega)
  rw [hm] at hrun
  obtain ⟨l, k', h, hl⟩ := exists_switch k₁
  refine ⟨ls ++ [l], k', hrun.append (Run.cons h (Run.nil _)), fun hmem => ?_⟩
  rcases List.mem_append.1 hmem with hmem | hmem
  · exact hls hmem
  · exact hl (List.mem_singleton.1 hmem).symm

/-- The steps that are left in a tick. -/
def left : Scheduler.Control → ℕ
  | .idle => 0
  | .loop i => Scheduler.schedMaxTasks + 1 - i
  | .body _ => 0

theorem Step.left_lt (h : Step s l t) (hl : l ≠ .tick) : left t.control < left s.control := by
  have hslot : ∀ i < Scheduler.schedMaxTasks, left (.loop (i + 1)) < left (.loop i) := by
    intro i hi
    change 17 - (i + 1) < 17 - i
    have hi' : i < 16 := hi
    omega
  cases h with
  | tick => exact absurd rfl hl
  | pass h =>
    cases h with
    | pass hi _ => exact hslot _ hi
  | ran hcall _ hret =>
    obtain ⟨hi, -⟩ := call_spec hcall
    cases hret with
    | ret => exact hslot _ hi
  | halt hcall _ =>
    obtain ⟨hi, -⟩ := call_spec hcall
    exact Nat.sub_pos_of_lt (Nat.lt_succ_of_lt hi)
  | switch h _ =>
    cases h with
    | publish => exact Nat.one_pos

/-- Within a tick the loop takes a bounded number of steps. -/
theorem left_of_run (h : Run Step s ls t) (hl : .tick ∉ ls) : left t.control + ls.length ≤ left s.control := by
  induction h with
  | nil s => exact Nat.le_refl _
  | cons hstep _ ih =>
    rw [List.mem_cons, not_or] at hl
    have hlt := hstep.left_lt (Ne.symm hl.1)
    have hle := ih hl.2
    rw [List.length_cons]
    omega

/-- **The timetable**: in every run of the system the tick `n` has called some of the first tasks whose period
divides `n`, and all of them when it has ended; every tick ends after at most 17 steps, and the loop is stuck only
after a halt. -/
theorem timetable (hboot : KernelMain k₀ boot k) (h : Run Step ⟨k, .idle⟩ ls t) :
    (∀ pre mid, ls = pre ++ .tick :: mid → .tick ∉ mid →
      calls mid <+: due (ticks pre + 1) builtinTasks ∧
      (t.control = .idle → calls mid = due (ticks pre + 1) builtinTasks)) ∧
    (∀ ls' u, Run Step t ls' u → .tick ∉ ls' → ls'.length ≤ 17) ∧
    ((∀ i, t.control ≠ .body i) → ∃ l u, Step t l u) := by
  have ht := Timed.run (s := ⟨k, .idle⟩) hboot.timed h
  refine ⟨?_, fun ls' u h' hl => ?_, ht.exists_step (Inv.run h hboot.spec.1).1.noHandlers⟩
  · rintro pre mid rfl hmid
    rw [clock_of_mid pre hmid] at ht
    obtain ⟨k', _ | j | j⟩ := t
    · have hall := ht.2.2.2 (Nat.succ_pos _)
      dsimp only at hall
      exact ⟨hall ▸ List.prefix_refl _, fun _ => hall⟩
    · have hsome := ht.2.2.2.2.2
      dsimp only at hsome
      exact ⟨hsome ▸ due_take_prefix _ j _, nofun⟩
    · have hsome := ht.2
      dsimp only at hsome
      exact ⟨hsome ▸ due_take_prefix _ j _, nofun⟩
  · have hle := left_of_run h' hl
    have hbound : left t.control ≤ 17 := by
      cases t.control with
      | idle => exact Nat.zero_le _
      | loop i => exact Nat.sub_le _ _
      | body i => exact Nat.zero_le _
    omega

end Runs

/-- The first tick. -/
theorem timetable_firstTick : ∃ boot k mid t, KernelMain zeroState boot k ∧
    Run Step ⟨k, .idle⟩ (.tick :: mid) t ∧ t.control = .idle ∧
    calls mid = [.kernelHeartbeat, .eventbusProcess, .keyboardPoll] := by
  obtain ⟨boot, k, hboot⟩ := exists_kernelMain zeroState
  have htick : Step ⟨k, .idle⟩ .tick ⟨{ k with sched := Scheduler.startTick k.sched }, .loop 0⟩ := .tick .tick
  have hs := hboot.timed.startTick
  obtain ⟨mid, k', hrun, hmid⟩ := hs.exists_run_end (hboot.spec.1.step htick).1
  have hall := Run.cons htick hrun
  exact ⟨boot, k, mid, _, hboot, hall, rfl, ((timetable hboot hall).1 [] mid rfl hmid).2 rfl⟩

end AuraOS.Kernel.System
