import AuraOS.Kernel.EventBus.Delivery
import AuraOS.Kernel.Scheduler.Removal
import AuraOS.Kernel.System.Defs

/-!
# What the tasks do

The part of a run in which tasks publish at most `n` events, all on the topics of the bus (`Adds`); each built-in
task but `event_drain` is such a part (`Body.adds`), and a call of `eventbus_process` empties the queue
(`Drains.spec`).  The task table holds the seven tasks in their order from the start on (`Table`).
-/

namespace AuraOS.Kernel.System

open AuraOS.Lib AuraOS.Kernel AuraOS.Env AuraOS.Modules

variable {H : Type}

/-! ### Publishing -/

/-- A call of `eventbus_publish` that did not return `AURA_OK`. -/
def Refused : EventBus.Act H → Prop
  | .publish _ _ _ res => res ≠ .ok
  | _ => False

/-- At most `n` events, each on one of the topics of the bus. -/
structure AtMost (n : ℕ) (es : List (UInt8 × UInt32)) : Prop where
  length_le : es.length ≤ n
  topics : ∀ e ∈ es, e.1.toNat < EventBus.eventbusMaxTopics

section AtMost

variable {n m : ℕ} {es es' : List (UInt8 × UInt32)}

theorem AtMost.nil (n : ℕ) : AtMost n [] := ⟨Nat.zero_le n, nofun⟩

theorem AtMost.single {topic : UInt8} {data : UInt32} (h : topic.toNat < EventBus.eventbusMaxTopics) :
    AtMost 1 [(topic, data)] := by
  refine ⟨Nat.le_refl 1, ?_⟩
  rintro e he
  rwa [List.mem_singleton.1 he]

theorem AtMost.append (h : AtMost n es) (h' : AtMost m es') : AtMost (n + m) (es ++ es') := by
  refine ⟨?_, fun e he => (List.mem_append.1 he).elim (h.topics e) (h'.topics e)⟩
  rw [List.length_append]
  exact Nat.add_le_add h.length_le h'.length_le

theorem AtMost.mono (h : AtMost n es) (hnm : n ≤ m) : AtMost m es := ⟨h.length_le.trans hnm, h.topics⟩

end AtMost

section Publishing

variable {b b' b'' : EventBus.Bus H} {k k' : State H} {acts acts' : List (EventBus.Act H)} {n m : ℕ}

theorem eventbusPublish_room {topic : UInt8} (ht : topic.toNat < EventBus.eventbusMaxTopics) (data now : UInt32)
    (b : EventBus.Bus H) :
    (EventBus.eventbusPublish topic data now b).2.qCount.toNat ≤ b.qCount.toNat + 1 ∧
      (EventBus.eventbusPublish topic data now b).2.handlers = b.handlers ∧
      (b.qCount.toNat < 64 → (EventBus.eventbusPublish topic data now b).1 = .ok) := by
  unfold EventBus.eventbusPublish
  rw [if_neg (Nat.not_le.2 ht)]
  split
  · rename_i hfull
    exact ⟨Nat.le_succ _, rfl, fun hlt => absurd hlt (Nat.not_lt.2 hfull)⟩
  · refine ⟨?_, rfl, fun _ => rfl⟩
    dsimp only
    rw [UInt32.toNat_add]
    exact Nat.mod_le _ _

variable [DecidableEq H]

/-- The part of a run in which the tasks publish at most `n` events. -/
structure Adds (n : ℕ) (b : EventBus.Bus H) (acts : List (EventBus.Act H)) (b' : EventBus.Bus H) : Prop where
  count_le : b'.qCount.toNat ≤ b.qCount.toNat + n
  handlers : b'.handlers = b.handlers
  accepted : b.qCount.toNat + n ≤ 64 → ∀ a ∈ acts, ¬Refused a
  run : Run EventBus.Step ⟨b, .idle⟩ acts ⟨b', .idle⟩

theorem Adds.refl (n : ℕ) (b : EventBus.Bus H) : Adds n b [] b :=
  ⟨Nat.le_add_right _ _, rfl, fun _ => nofun, Run.nil _⟩

theorem Adds.trans (h : Adds n b acts b') (h' : Adds m b' acts' b'') : Adds (n + m) b (acts ++ acts') b'' := by
  have hle := h.count_le
  have hle' := h'.count_le
  refine ⟨by omega, h'.handlers.trans h.handlers, ?_, h.run.append h'.run⟩
  intro hroom a ha
  rcases List.mem_append.1 ha with ha | ha
  · exact h.accepted (by omega) a ha
  · exact h'.accepted (by omega) a ha

theorem Adds.mono (h : Adds n b acts b') (hnm : n ≤ m) : Adds m b acts b' := by
  have hle := h.count_le
  exact ⟨by omega, h.handlers, fun hroom => h.accepted (by omega), h.run⟩

theorem Publishes.adds {es : List (UInt8 × UInt32)} (h : Publishes es b acts b') (he : AtMost n es) :
    Adds n b acts b' := by
  refine Adds.mono ?_ he.length_le
  have htopics := he.topics
  clear he
  induction h with
  | nil b => exact Adds.refl 0 b
  | @cons topic data now es b b' acts _ ih =>
    obtain ⟨ht, hrest⟩ := List.forall_mem_cons.1 htopics
    obtain ⟨hle, hhandlers, hok⟩ := eventbusPublish_room ht data now b
    have hone : Adds 1 b [.publish topic data now (EventBus.eventbusPublish topic data now b).1]
        (EventBus.eventbusPublish topic data now b).2 := by
      refine ⟨hle, hhandlers, fun hroom a ha => ?_, Run.cons (EventBus.Step.publish trivial rfl) (Run.nil _)⟩
      rw [List.mem_singleton.1 ha]
      exact not_not_intro (hok hroom)
    rw [List.length_cons, Nat.add_comm]
    exact hone.trans (ih hrest)

theorem Performs.adds {e : Effect H} (h : Performs e acts k') (he : AtMost n e.1) :
    Adds n e.2.bus acts k'.bus ∧ k'.sched = e.2.sched ∧ k'.loader = e.2.loader := by
  cases h with
  | intro h => exact ⟨h.adds he, rfl, rfl⟩

omit [DecidableEq H] in
theorem Performs.sched_eq {e : Effect H} (h : Performs e acts k') : k'.sched = e.2.sched := by
  cases h
  rfl

end Publishing

/-! ### What the functions publish -/

section Functions

theorem atMost_mirrorSync (c : Mirror.Counters) (m : Mirror.State) :
    AtMost 1 (Mirror.mirrorSync c m).1.toList := by
  unfold Mirror.mirrorSync
  dsimp only
  split
  · exact AtMost.single (by decide)
  · exact AtMost.nil 1

theorem atMost_mirrorCapture (slot : UInt8) (label : CStr) (r : Reads) (k : State H) :
    AtMost 1 (mirrorCapture slot label r k).1 := by
  have hevent : AtMost 1 (Mirror.mirrorCapture slot (some label) Mirror.mirrorFlagAll (k.counters r)
      k.mirror).2.1.toList := by
    unfold Mirror.mirrorCapture
    split
    · exact AtMost.nil 1
    · exact atMost_mirrorSync _ _
  exact hevent

theorem atMost_mirrorRestore (slot : UInt8) (m : Mirror.State) (env : EnvTable) :
    AtMost 1 (Mirror.mirrorRestore slot m env).2.1.toList := by
  unfold Mirror.mirrorRestore
  split
  · exact AtMost.nil 1
  · split
    · exact AtMost.nil 1
    · exact AtMost.single (by decide)

theorem atMost_pluginTick (f : Fn) (k : State H) : AtMost 1 (pluginTick f k).1 := by
  unfold pluginTick coreTick
  split
  · dsimp only
    split
    · exact AtMost.single (by decide)
    · exact AtMost.nil 1
  · exact AtMost.nil 1

theorem pluginTick_frame (f : Fn) (k : State H) : (pluginTick f k).2.bus = k.bus ∧
    (pluginTick f k).2.sched = k.sched ∧ (pluginTick f k).2.loader = k.loader := by
  unfold pluginTick
  split <;> exact ⟨rfl, rfl, rfl⟩

end Functions

/-! ### The tasks -/

section Tasks

variable [DecidableEq H] {k k' : State H} {b b' : EventBus.Bus H} {acts : List (EventBus.Act H)} {i : ℕ}

theorem pluginTick_adds {f : Fn} (h : Performs (pluginTick f k) acts k') :
    Adds 1 k.bus acts k'.bus ∧ k'.sched = k.sched ∧ k'.loader = k.loader := by
  obtain ⟨hadds, hsched, hloader⟩ := h.adds (atMost_pluginTick f k)
  obtain ⟨hbus, hsched', hloader'⟩ := pluginTick_frame f k
  rw [hbus] at hadds
  exact ⟨hadds, hsched.trans hsched', hloader.trans hloader'⟩

/-- **A round of `plugin_tick_all`** publishes at most one event for each slot. -/
theorem TickAll.adds (h : TickAll i k acts k') :
    Adds (Plugin.pluginMax - i) k.bus acts k'.bus ∧ k'.sched = k.sched := by
  induction h with
  | done k => exact ⟨Adds.refl _ _, rfl⟩
  | pass _ _ _ ih => exact ⟨ih.1.mono (by omega), ih.2⟩
  | tick hi _ _ hperf _ ih =>
    obtain ⟨hadds, hsched, -⟩ := pluginTick_adds hperf
    exact ⟨(hadds.trans ih.1).mono (by omega), ih.2.trans hsched⟩

/-- The round is one of the plugin manager. -/
theorem TickAll.run (h : TickAll i k acts k') :
    ∃ as, Run Plugin.Step ⟨k.plugins, [.loop i]⟩ as ⟨k'.plugins, []⟩ := by
  induction h with
  | done k => exact ⟨_, Run.cons Plugin.Step.tickEnd (Run.nil _)⟩
  | pass hi hdue _ ih =>
    obtain ⟨as, hrun⟩ := ih
    exact ⟨_, Run.cons (Plugin.Step.pass hi hdue) hrun⟩
  | @tick i f k k₁ k' acts acts' hi hactive htick hperf _ ih =>
    obtain ⟨as, hrun⟩ := ih
    have hplugins : k₁.plugins = k.plugins := congrArg Loader.plugins (pluginTick_adds hperf).2.2
    rw [hplugins] at hrun
    exact ⟨_, Run.cons (Plugin.Step.tick hi hactive htick) (Run.cons Plugin.Step.tickRet hrun)⟩

/-- The events that a task publishes at most. -/
def TaskFn.events : TaskFn → ℕ
  | mirrorSync => 1
  | pluginTickAll => Plugin.pluginMax
  | menuTick => 1
  | _ => 0

theorem menuTick_adds {c : UInt8} {r : Reads} {e : Effect H} (he : menuTick c r k = some e)
    (h : Performs e acts k') : Adds 1 k.bus acts k'.bus ∧ k'.sched = k.sched := by
  have hmost : AtMost 1 e.1 ∧ e.2.bus = k.bus ∧ e.2.sched = k.sched := by
    unfold menuTick at he
    split at he
    · cases he
      exact ⟨atMost_mirrorCapture _ _ _ _, rfl, rfl⟩
    · split at he
      · cases he
        exact ⟨atMost_mirrorRestore _ _ _, rfl, rfl⟩
      · split at he
        · cases he
        · cases he
          exact ⟨AtMost.nil 1, rfl, rfl⟩
  obtain ⟨hadds, hsched, -⟩ := h.adds hmost.1
  rw [hmost.2.1] at hadds
  exact ⟨hadds, hsched.trans hmost.2.2⟩

/-- **The tasks** other than `event_drain`. -/
theorem Body.adds {fn : TaskFn} (h : Body fn k acts k') (hfn : fn ≠ .eventbusProcess) :
    Adds fn.events k.bus acts k'.bus ∧ k'.sched = k.sched := by
  cases h with
  | kernelHeartbeat => exact ⟨Adds.refl _ _, rfl⟩
  | eventbusProcess => exact absurd rfl hfn
  | mirrorSync h =>
    obtain ⟨hadds, hsched, -⟩ := h.adds (atMost_mirrorSync _ _)
    exact ⟨hadds, hsched⟩
  | pluginTickAll h => exact h.adds
  | keyboardPoll => exact ⟨Adds.refl _ _, rfl⟩
  | menuTick he h => exact menuTick_adds he h
  | serialPoll => exact ⟨Adds.refl _ _, rfl⟩

end Tasks

/-! ### `event_drain` -/

section Drain

variable [DecidableEq H] {s t : EventBus.Sys H} {a : EventBus.Act H} {acts : List (EventBus.Act H)}
  {b b' : EventBus.Bus H}

/-- No handler is subscribed. -/
def NoHandlers (b : EventBus.Bus H) : Prop := ∀ topic h, b.handlers topic h = none

/-- `eventbus_process` is in its loops, and calls nobody. -/
structure Draining (s : EventBus.Sys H) : Prop where
  noHandlers : NoHandlers s.bus
  loops : ¬s.control.IsClient

theorem Draining.step (hs : Draining s) (h : EventBus.Step s a t) (ha : a ≠ .done) :
    Draining t ∧ ¬Refused a := by
  obtain ⟨hnone, hloops⟩ := hs
  cases h with
  | publish hc _ => exact absurd hc hloops
  | subscribe hc _ => exact absurd hc hloops
  | unsubscribe hc _ => exact absurd hc hloops
  | process => exact absurd trivial hloops
  | dispatch _ _ => exact ⟨⟨hnone, id⟩, id⟩
  | drop _ _ => exact ⟨⟨hnone, id⟩, id⟩
  | call _ hf => cases (hnone _ _).symm.trans hf
  | skip _ _ => exact ⟨⟨hnone, id⟩, id⟩
  | ret => exact absurd trivial hloops
  | next => exact ⟨⟨hnone, id⟩, id⟩
  | done _ => exact absurd rfl ha

theorem Draining.run (h : Run EventBus.Step s acts t) (hs : Draining s) (hdone : .done ∉ acts) :
    Draining t ∧ ∀ a ∈ acts, ¬Refused a := by
  induction h with
  | nil s => exact ⟨hs, nofun⟩
  | cons hstep _ ih =>
    rw [List.mem_cons, not_or] at hdone
    obtain ⟨hs', hone⟩ := hs.step hstep (Ne.symm hdone.1)
    obtain ⟨ht, hrest⟩ := ih hs' hdone.2
    exact ⟨ht, List.forall_mem_cons.2 ⟨hone, hrest⟩⟩

/-- **A call of `eventbus_process`** empties the queue, and nothing is published meanwhile. -/
theorem Drains.spec (h : Drains b acts b') (hb : NoHandlers b) :
    NoHandlers b' ∧ b'.qCount.toNat = 0 ∧ (∀ a ∈ acts, ¬Refused a) ∧
      Run EventBus.Step ⟨b, .idle⟩ acts ⟨b', .idle⟩ ∧ ∃ pre, acts = pre ++ [.done] := by
  cases h with
  | @intro _ acts hdone hrun hempty =>
    obtain ⟨ht, hacts⟩ := Draining.run hrun ⟨hb, id⟩ hdone
    refine ⟨ht.noHandlers, hempty, ?_, ?_, _, rfl⟩
    · intro a ha
      simp only [List.cons_append, List.mem_cons, List.mem_append, List.not_mem_nil, or_false] at ha
      rcases ha with rfl | ha | rfl
      · exact id
      · exact hacts a ha
      · exact id
    · exact Run.cons EventBus.Step.process (hrun.append (Run.cons (EventBus.Step.done hempty) (Run.nil _)))

/-- The inner loop passes the empty slots. -/
theorem exists_run_scan (hb : NoHandlers b) (evt : EventBus.AuraEvent) {h n : ℕ}
    (hn : h + n = EventBus.eventbusMaxHandlers) :
    ∃ acts, .done ∉ acts ∧ Run EventBus.Step ⟨b, .scan evt h⟩ acts ⟨b, .drain⟩ := by
  induction n generalizing h with
  | zero =>
    obtain rfl : h = EventBus.eventbusMaxHandlers := hn
    exact ⟨[.next], by simp, Run.cons EventBus.Step.next (Run.nil _)⟩
  | succ n ih =>
    obtain ⟨acts, hdone, hrun⟩ := ih (h := h + 1) (by omega)
    have hskip : EventBus.Step ⟨b, .scan evt h⟩ .skip ⟨b, .scan evt (h + 1)⟩ :=
      EventBus.Step.skip (by omega) (hb _ _)
    exact ⟨.skip :: acts, by simp [hdone], Run.cons hskip hrun⟩

/-- **`eventbus_process` returns.** -/
theorem exists_drains (hb : NoHandlers b) : ∃ acts b', Drains b acts b' := by
  have key : ∀ (n : ℕ) (b : EventBus.Bus H), NoHandlers b → b.qCount.toNat = n → ∃ acts b', .done ∉ acts ∧
      Run EventBus.Step ⟨b, .drain⟩ acts ⟨b', .drain⟩ ∧ b'.qCount.toNat = 0 := by
    intro n
    induction n with
    | zero => exact fun b _ h0 => ⟨[], b, nofun, Run.nil _, h0⟩
    | succ n ih =>
      intro b hb hn
      have hpos : 0 < b.qCount.toNat := by omega
      have hcount : (EventBus.dequeue b).qCount.toNat = n := by
        have hone : (1 : UInt32) ≤ b.qCount := hpos
        change (b.qCount - 1).toNat = n
        rw [UInt32.toNat_sub_of_le _ _ hone, hn]
        rfl
      obtain ⟨acts, b', hdone, hrun, hempty⟩ := ih (EventBus.dequeue b) hb hcount
      by_cases ht : (EventBus.nextEvent b).topic.toNat < EventBus.eventbusMaxTopics
      · obtain ⟨acts', hdone', hscan⟩ :=
          exists_run_scan (b := EventBus.dequeue b) hb (EventBus.nextEvent b) (h := 0) (Nat.zero_add _)
        refine ⟨.dispatch (EventBus.nextEvent b) :: (acts' ++ acts), b', by simp [hdone, hdone'], ?_, hempty⟩
        exact Run.cons (EventBus.Step.dispatch hpos ht) (hscan.append hrun)
      · refine ⟨.drop (EventBus.nextEvent b) :: acts, b', by simp [hdone], ?_, hempty⟩
        exact Run.cons (EventBus.Step.drop hpos (Nat.le_of_not_lt ht)) hrun
  obtain ⟨acts, b', hdone, hrun, hempty⟩ := key _ b hb rfl
  exact ⟨_, b', Drains.intro hdone hrun hempty⟩

end Drain

/-! ### The task table -/

section Table

variable {s s' : Scheduler.Sched TaskFn} {tasks : List (CStr × TaskFn × UInt32)}
  {task : CStr × TaskFn × UInt32} {i : ℕ}

/-- The tasks are ready, and the other slots are empty. -/
def Table (tasks : List (CStr × TaskFn × UInt32)) (s : Scheduler.Sched TaskFn) : Prop :=
  ∀ i < Scheduler.schedMaxTasks, match tasks[i]? with
    | some task => s.state i = .ready ∧ s.job i = (some task.2.1, task.2.2)
    | none => s.state i = .empty

theorem Table.of_some (h : Table tasks s) (hi : i < Scheduler.schedMaxTasks) (ht : tasks[i]? = some task) :
    s.state i = .ready ∧ s.job i = (some task.2.1, task.2.2) := by
  have := h i hi
  rwa [ht] at this

theorem Table.of_none (h : Table tasks s) (hi : i < Scheduler.schedMaxTasks) (ht : tasks[i]? = none) :
    s.state i = .empty := by
  have := h i hi
  rwa [ht] at this

theorem Table.congr (h : Table tasks s) (hs : ∀ i < Scheduler.schedMaxTasks, s'.state i = s.state i)
    (hj : ∀ i, s'.job i = s.job i) : Table tasks s' := by
  intro i hi
  rw [hs i hi, hj]
  exact h i hi

/-- No task is a zombie. -/
theorem Table.ne_zombie (h : Table tasks s) (hi : i < Scheduler.schedMaxTasks) : s.state i ≠ .zombie := by
  cases ht : tasks[i]? with
  | some task => simp [(h.of_some hi ht).1]
  | none => simp [h.of_none hi ht]

theorem Table.taskTable_startTick (h : Table tasks s) (hi : i < Scheduler.schedMaxTasks) :
    (Scheduler.startTick s).taskTable i = s.taskTable i := if_neg (h.ne_zombie hi)

theorem Table.startTick (h : Table tasks s) : Table tasks (Scheduler.startTick s) := by
  refine h.congr (fun i hi => ?_) fun i => Scheduler.job_startTick
  rw [Scheduler.state_startTick, if_neg (h.ne_zombie hi)]

/-- The table after the call of a task. -/
theorem Table.leaveTask (h : Table tasks s) (hi : s.state i = .ready) :
    Table tasks (Scheduler.leaveTask (Scheduler.enterTask s i) i) := by
  refine h.congr (fun j _ => ?_) fun j => Scheduler.job_leaveTask.trans Scheduler.job_enterTask
  unfold Scheduler.leaveTask Scheduler.enterTask
  simp only [Scheduler.state_setTask]
  split
  · rename_i hj
    rw [hj, hi]
  · rfl

/-- A table with these tasks, of which none has run. -/
structure Fresh (tasks : List (CStr × TaskFn × UInt32)) (s : Scheduler.Sched TaskFn) : Prop where
  table : Table tasks s
  count : s.taskCountVal.toInt = tasks.length
  lastRun : ∀ i < tasks.length, (s.taskTable i).lastRun = 0
  schedTick : s.schedTick = 0

theorem fresh_schedulerInit (s : Scheduler.Sched TaskFn) : Fresh [] (Scheduler.schedulerInit s) :=
  ⟨fun _ _ => rfl, rfl, nofun, rfl⟩

/-- **Adding a task** fills the slot behind the others. -/
theorem Fresh.add (h : Fresh tasks s) (hlt : tasks.length < Scheduler.schedMaxTasks)
    (task : CStr × TaskFn × UInt32) : Fresh (tasks ++ [task])
      (Scheduler.schedulerAddTask (some task.1) (some task.2.1) task.2.2 s).2 := by
  obtain ⟨htable, hcount, hlast, htick⟩ := h
  have hfree : Scheduler.freeSlot s = some tasks.length := by
    refine first_eq_some_iff.2 ⟨Nat.zero_le _, by omega, ?_, fun j _ hj => ?_⟩
    · exact decide_eq_true (htable.of_none hlt (List.getElem?_eq_none (Nat.le_refl _)))
    · apply decide_eq_false
      rw [(htable.of_some (hj.trans hlt) (List.getElem?_eq_getElem hj)).1]
      decide
  have hroom : ¬(Scheduler.schedMaxTasks : Int) ≤ s.taskCountVal.toInt := by omega
  unfold Scheduler.schedulerAddTask
  dsimp only
  rw [if_neg hroom, hfree]
  -- the new task is in the slot behind the others, and these stay as they are
  have hnew : ∀ (t : Scheduler.Task TaskFn) (i : ℕ), i ≠ tasks.length →
      Function.update s.taskTable tasks.length t i = s.taskTable i := fun t i hi => Function.update_of_ne hi _ _
  have hsucc : (s.taskCountVal + 1).toInt = (tasks ++ [task]).length := by
    rw [toInt_add_one (ne_maxValue_of_lt (Int.not_le.1 hroom) (by decide)), hcount, List.length_append]
    rfl
  refine ⟨fun i hi => ?_, hsucc, fun i hi => ?_, htick⟩
  · unfold Scheduler.Sched.state Scheduler.Sched.job Scheduler.Sched.setTask
    dsimp only
    by_cases hi' : i = tasks.length
    · rw [hi', List.getElem?_concat_length, Function.update_self]
      exact ⟨rfl, rfl⟩
    · have hget : (tasks ++ [task])[i]? = tasks[i]? := by
        rcases Nat.lt_or_ge i tasks.length with hi'' | hi''
        · exact List.getElem?_append_left hi''
        · rw [List.getElem?_eq_none hi'', List.getElem?_eq_none]
          simp
          omega
      rw [hget, hnew _ i hi']
      exact htable i hi
  · unfold Scheduler.Sched.setTask
    dsimp only
    by_cases hi' : i = tasks.length
    · rw [hi', Function.update_self]
    · rw [hnew _ i hi']
      apply hlast
      simp at hi
      omega

theorem Fresh.addTasks (h : Fresh tasks s) (more : List (CStr × TaskFn × UInt32))
    (hlen : (tasks ++ more).length ≤ Scheduler.schedMaxTasks) :
    Fresh (tasks ++ more) (System.addTasks more s) := by
  induction more generalizing tasks s with
  | nil =>
    rw [List.append_nil]
    exact h
  | cons task more ih =>
    have hlt : tasks.length < Scheduler.schedMaxTasks := by
      simp at hlen
      omega
    rw [List.append_cons] at hlen ⊢
    exact ih (h.add hlt task) hlen

theorem fresh_builtinTasks (s : Scheduler.Sched TaskFn) :
    Fresh builtinTasks (System.addTasks builtinTasks (Scheduler.schedulerInit s)) :=
  (fresh_schedulerInit s).addTasks builtinTasks (by decide)

end Table

end AuraOS.Kernel.System
