import AuraOS.Kernel.System.Tasks
import Mathlib.Tactic.IntervalCases

/-!
# No event is dropped

Every tick runs `event_drain` in slot 1, which empties the queue, and the other tasks of a tick publish a
bounded number of events; no handler is ever subscribed.  So the number of pending events has a bound at each
point of a tick (`bound`), far from the depth of the queue: every event is accepted, and those published before a
tick are dispatched in its second slot (`no_event_dropped`).
-/

namespace AuraOS.Kernel.System

open AuraOS.Lib AuraOS.Kernel AuraOS.Env AuraOS.Modules

variable {H : Type}

/-! ### The invariant -/

/-- The pending events before slot `i` of a tick. -/
def bound : ℕ → ℕ
  | 0 | 1 => 19
  | 2 => 0
  | 3 => 1
  | 4 | 5 => 17
  | _ => 18

/-- The slot of `event_drain`. -/
abbrev drainSlot : ℕ := 1

/-- What holds where the scheduler stands; nothing follows a halt. -/
def Scheduled (s : Scheduler.Sched TaskFn) (pending : ℕ) : Scheduler.Control → Prop
  | .idle => Table builtinTasks s ∧ (s.taskTable drainSlot).lastRun = s.schedTick ∧ pending ≤ 19
  | .loop i => Table builtinTasks s ∧ pending ≤ bound i ∧
      if i ≤ drainSlot then (s.taskTable drainSlot).lastRun + 1 = s.schedTick
      else (s.taskTable drainSlot).lastRun = s.schedTick
  | .body _ => True

structure Inv (s : Sys H) : Prop where
  noHandlers : NoHandlers s.state.bus
  scheduled : Scheduled s.state.sched s.state.bus.qCount.toNat s.control

/-- A step on the event bus: no event is refused, and in slot 1 the queue is drained. -/
structure OnBus [DecidableEq H] (s : Sys H) (l : Label H) (t : Sys H) : Prop where
  accepted : ∀ a ∈ l.acts, ¬Refused a
  run : Run EventBus.Step ⟨s.state.bus, .idle⟩ l.acts ⟨t.state.bus, .idle⟩
  drains : s.control = .loop drainSlot → ∃ pre, l.acts = pre ++ [.done]

section Schedule

variable {s s' : Scheduler.Sched TaskFn} {c : Scheduler.Control} {i : ℕ}

/-- A call of the scheduler. -/
theorem call_spec {fn : TaskFn} (h : Scheduler.Step ⟨s, .loop i⟩ (.call i (some fn)) ⟨s', c⟩) :
    i < Scheduler.schedMaxTasks ∧ Scheduler.Due s i ∧ (s.taskTable i).fn = some fn ∧
      s' = Scheduler.enterTask s i := by
  generalize ha : Scheduler.Act.call i (some fn) = a at h
  cases h with
  | call hi hdue =>
    injection ha with _ hfn
    exact ⟨hi, hdue, hfn.symm, rfl⟩
  | _ => cases ha

/-- `event_drain` is due in every tick. -/
theorem due_drain (h : Table builtinTasks s) (hlast : (s.taskTable drainSlot).lastRun + 1 = s.schedTick) :
    Scheduler.Due s drainSlot := by
  obtain ⟨hready, hjob⟩ := h.of_some (i := drainSlot) (by decide) rfl
  have hperiod : (s.taskTable drainSlot).period = 1 := congrArg Prod.snd hjob
  refine ⟨hready, Or.inr ?_⟩
  rw [hperiod, ← hlast, UInt32.add_comm, UInt32.add_sub_cancel]
  decide

/-- **The tasks in their slots**: `event_drain` is in slot 1, and the others keep to the bound. -/
theorem builtinTasks_bound {task : CStr × TaskFn × UInt32} (h : builtinTasks[i]? = some task) :
    i = drainSlot ∧ task.2.1 = .eventbusProcess ∨
      i ≠ drainSlot ∧ task.2.1 ≠ .eventbusProcess ∧ bound i + task.2.1.events ≤ bound (i + 1) := by
  have hi : i < 7 := (List.getElem?_eq_some_iff.1 h).1
  interval_cases i <;> cases h <;> decide

/-- A due slot holds one of the tasks. -/
theorem exists_task (h : Table builtinTasks s) (hi : i < Scheduler.schedMaxTasks) (hdue : Scheduler.Due s i) :
    ∃ task, builtinTasks[i]? = some task ∧ (s.taskTable i).fn = some task.2.1 := by
  cases ht : builtinTasks[i]? with
  | some task => exact ⟨task, rfl, congrArg Prod.fst (h.of_some hi ht).2⟩
  | none =>
    have hempty := h.of_none hi ht
    rw [hdue.1] at hempty
    cases hempty

theorem bound_le_depth (i : ℕ) : bound i ≤ 64 := by
  unfold bound
  split <;> decide

theorem bound_le (hi : drainSlot < i) : bound i ≤ bound (i + 1) := by
  rcases Nat.lt_or_ge i 6 with h6 | h6
  · interval_cases i <;> decide
  · obtain ⟨j, rfl⟩ := Nat.exists_eq_add_of_le' h6
    exact Nat.le_refl 18

end Schedule

section Steps

variable [DecidableEq H] {s t : Sys H} {l : Label H}

/-- A tick begins. -/
theorem Scheduled.startTick {s : Scheduler.Sched TaskFn} {n : ℕ} (h : Scheduled s n .idle) :
    Scheduled (Scheduler.startTick s) n (.loop 0) := by
  obtain ⟨htable, hlast, hle⟩ := h
  refine ⟨htable.startTick, hle, ?_⟩
  rw [if_pos (Nat.zero_le _)]
  rw [htable.taskTable_startTick (by decide), hlast]
  rfl

/-- A slot is passed; it is not the one of `event_drain`. -/
theorem Scheduled.pass {s : Scheduler.Sched TaskFn} {n i : ℕ} (h : Scheduled s n (.loop i))
    (hdue : ¬Scheduler.Due s i) : i ≠ drainSlot ∧ Scheduled s n (.loop (i + 1)) := by
  obtain ⟨htable, hle, hlast⟩ := h
  have hne : i ≠ drainSlot := by
    rintro rfl
    rw [if_pos (Nat.le_refl _)] at hlast
    exact hdue (due_drain htable hlast)
  refine ⟨hne, htable, ?_⟩
  rcases Nat.lt_or_gt_of_ne hne with hlt | hgt
  · obtain rfl : i = 0 := Nat.lt_one_iff.1 hlt
    exact ⟨hle, hlast⟩
  · rw [if_neg (Nat.not_le.2 hgt)] at hlast
    rw [if_neg (Nat.not_le.2 (Nat.lt_succ_of_lt hgt))]
    exact ⟨hle.trans (bound_le hgt), hlast⟩

/-- A task has run, and `m` events are pending. -/
theorem Scheduled.ran {s : Scheduler.Sched TaskFn} {n m i : ℕ} (h : Scheduled s n (.loop i))
    (hdue : Scheduler.Due s i) (hm : m ≤ bound (i + 1)) :
    Scheduled (Scheduler.leaveTask (Scheduler.enterTask s i) i) m (.loop (i + 1)) := by
  obtain ⟨htable, -, hlast⟩ := h
  refine ⟨htable.leaveTask hdue.1, hm, ?_⟩
  have hslot : ((Scheduler.leaveTask (Scheduler.enterTask s i) i).taskTable drainSlot).lastRun =
      if i = drainSlot then s.schedTick else (s.taskTable drainSlot).lastRun := by
    unfold Scheduler.leaveTask Scheduler.enterTask Scheduler.Sched.setTask
    dsimp only
    by_cases hi : i = drainSlot
    · subst hi
      simp
    · rw [if_neg hi, Function.update_of_ne (Ne.symm hi), Function.update_of_ne (Ne.symm hi)]
  rw [hslot]
  change if i + 1 ≤ drainSlot then _ + 1 = s.schedTick else _ = s.schedTick
  by_cases hi : i = drainSlot
  · rw [if_pos hi, hi, if_neg (by decide)]
  · rw [if_neg hi]
    split
    · rename_i hle
      rwa [if_pos (Nat.le_of_succ_le hle)] at hlast
    · rename_i hgt
      rwa [if_neg fun hle => hgt (Nat.lt_of_le_of_ne hle hi)] at hlast

/-- **The step lemma.** -/
theorem Inv.step (hi : Inv s) (h : Step s l t) : Inv t ∧ OnBus s l t := by
  obtain ⟨hnone, hsched⟩ := hi
  cases h with
  | @tick k s c h =>
    cases h with
    | tick => exact ⟨⟨hnone, hsched.startTick⟩, nofun, Run.nil _, nofun⟩
  | @pass k s c i h =>
    cases h with
    | pass hi hdue =>
      obtain ⟨hne, hnext⟩ := hsched.pass hdue
      exact ⟨⟨hnone, hnext⟩, nofun, Run.nil _, fun e => absurd (Scheduler.Control.loop.inj e) hne⟩
  | @ran k k' s s' c i fn acts hcall hbody hret =>
    obtain ⟨hi, hdue, hfn, rfl⟩ := call_spec hcall
    cases hret with
    | ret =>
      obtain ⟨task, htask, hfn'⟩ := exists_task hsched.1 hi hdue
      obtain rfl : fn = task.2.1 := Option.some.inj (hfn.symm.trans hfn')
      rcases builtinTasks_bound htask with ⟨rfl, hdrain⟩ | ⟨hne, hdrain, hbound⟩
      · rw [hdrain] at hbody
        cases hbody with
        | eventbusProcess hdrains =>
          obtain ⟨hnone', hempty, hacc, hrun, hlast⟩ := hdrains.spec hnone
          have hm : _ ≤ bound (drainSlot + 1) := Nat.le_of_eq hempty
          exact ⟨⟨hnone', hsched.ran hdue hm⟩, hacc, hrun, fun _ => hlast⟩
      · obtain ⟨hadds, hframe⟩ := hbody.adds hdrain
        have hle := hadds.count_le
        have hbefore := hsched.2.1
        have hdepth := bound_le_depth (i + 1)
        have hnone' : NoHandlers k'.bus := fun topic h => hadds.handlers ▸ hnone topic h
        dsimp only at hle hbefore hframe
        rw [hframe]
        have hm : k'.bus.qCount.toNat ≤ bound (i + 1) := by omega
        refine ⟨⟨hnone', hsched.ran hdue hm⟩, hadds.accepted ?_, hadds.run, ?_⟩
        · dsimp only
          omega
        · exact fun e => absurd (Scheduler.Control.loop.inj e) hne
  | @halt k s i ch r hcall hhalt =>
    obtain ⟨hi, hdue, hfn, rfl⟩ := call_spec hcall
    refine ⟨⟨hnone, trivial⟩, nofun, Run.nil _, fun e => ?_⟩
    obtain ⟨task, htask, hfn'⟩ := exists_task hsched.1 hi hdue
    have htask' := Option.some.inj (hfn.symm.trans hfn')
    rcases builtinTasks_bound htask with ⟨-, hdrain⟩ | ⟨hne, -⟩
    · rw [hdrain] at htask'
      cases htask'
    · exact absurd (Scheduler.Control.loop.inj e) hne
  | @switch k k' s c i topic data acts h hperf =>
    cases h with
    | publish =>
      obtain ⟨htable, hle, hlast⟩ := hsched
      obtain ⟨hadds, hframe, -⟩ := hperf.adds (AtMost.single (by decide))
      have hcount := hadds.count_le
      have hle' : k.bus.qCount.toNat ≤ 18 := hle
      dsimp only at hcount hframe
      have hnone' : NoHandlers k'.bus := fun topic h => hadds.handlers ▸ hnone topic h
      refine ⟨⟨hnone', ?_⟩, hadds.accepted ?_, hadds.run, nofun⟩
      · change Scheduled k'.sched k'.bus.qCount.toNat .idle
        rw [hframe]
        exact ⟨htable, hlast, by omega⟩
      · dsimp only
        omega

/-- Past the slot of `event_drain` in a tick. -/
def PastDrain : Scheduler.Control → Prop
  | .idle => True
  | .loop i => drainSlot < i
  | .body i => drainSlot < i

/-- Within a tick the scheduler gets past slot 1 only through it. -/
theorem Step.pastDrain (h : Step s l t) (hl : l ≠ .tick) (ht : PastDrain t.control) :
    PastDrain s.control ∨ s.control = .loop drainSlot := by
  have hloop : ∀ i, drainSlot < i + 1 → drainSlot < i ∨ i = drainSlot := fun i hi =>
    (Nat.lt_or_eq_of_le (Nat.le_of_lt_succ hi)).imp_right Eq.symm
  cases h with
  | tick => exact absurd rfl hl
  | pass h =>
    cases h with
    | pass _ _ => exact (hloop _ ht).imp_right fun e => congrArg _ e
  | ran _ _ h =>
    cases h with
    | ret => exact (hloop _ ht).imp_right fun e => congrArg _ e
  | halt => exact Or.inl ht
  | switch h _ =>
    cases h with
    | publish => exact Or.inl (Nat.lt_of_sub_pos (Nat.zero_lt_succ 14))

end Steps

/-! ### Runs -/

/-- What happens on the event bus. -/
def busActs (ls : List (Label H)) : List (EventBus.Act H) := ls.flatMap Label.acts

theorem busActs_append (ls ls' : List (Label H)) : busActs (ls ++ ls') = busActs ls ++ busActs ls' :=
  List.flatMap_append

section Runs

variable [DecidableEq H] {s t : Sys H} {ls : List (Label H)}

/-- **A run** keeps the invariant, and is a run of the event bus in which no event is refused. -/
theorem Inv.run (h : Run Step s ls t) (hs : Inv s) :
    Inv t ∧ (∀ a ∈ busActs ls, ¬Refused a) ∧
      Run EventBus.Step ⟨s.state.bus, .idle⟩ (busActs ls) ⟨t.state.bus, .idle⟩ := by
  induction h with
  | nil s => exact ⟨hs, nofun, Run.nil _⟩
  | cons hstep _ ih =>
    obtain ⟨hnext, hone⟩ := hs.step hstep
    obtain ⟨ht, hacc, hrun⟩ := ih hnext
    refine ⟨ht, fun a ha => ?_, hone.run.append hrun⟩
    exact (List.mem_append.1 ha).elim (hone.accepted a) (hacc a)

/-- **Within a tick**: past slot 1 the queue was drained. -/
theorem Inv.drained (h : Run Step s ls t) (hs : Inv s) (hstart : ¬PastDrain s.control) (hl : .tick ∉ ls)
    (ht : PastDrain t.control) : ∃ pre post, busActs ls = pre ++ .done :: post := by
  have hrun := h.and_invariant (fun s l t hs h => (hs.step h).1) hs
  refine hrun.history (I := fun ls t => .tick ∉ ls → PastDrain t.control →
    ∃ pre post, busActs ls = pre ++ .done :: post) (fun _ h => absurd h hstart) ?_ hl ht
  rintro ls s l t hI ⟨hstep, hs⟩ hl ht
  rw [List.mem_append, List.mem_singleton, not_or] at hl
  rw [busActs_append]
  rcases hstep.pastDrain (Ne.symm hl.2) ht with hpast | hslot
  · obtain ⟨pre, post, e⟩ := hI hl.1 hpast
    exact ⟨pre, post ++ busActs [l], by rw [e]; simp⟩
  · obtain ⟨pre, e⟩ := (hs.step hstep).2.drains hslot
    exact ⟨busActs ls ++ pre, [], by simp [busActs, e]⟩

end Runs

/-! ### The start -/

section Start

variable {k₀ k : State H} {acts : List (EventBus.Act H)} {l : Loader}

theorem publishes_finishActivate (i : ℕ) (r : AuraStatus) (p : Plugin.Plugins Fn) :
    (Plugin.finishActivate i r p).publishes = [] := by
  unfold Plugin.finishActivate
  split <;> rfl

/-- An activation is not announced. -/
theorem publishes_activate (name : CStr) (p : Plugin.Plugins Fn) : (activate name p).publishes = [] := by
  unfold activate
  split
  · rename_i reply h
    unfold Plugin.pluginActivate at h
    split at h
    · cases h
      rfl
    · split at h
      · cases h
        rfl
      · split at h
        · cases h
        · cases h
          exact publishes_finishActivate _ _ _
  · exact publishes_finishActivate _ _ _

/-- A plugin that is installed is announced at most once. -/
theorem atMost_install (name : CStr) (desc : Plugin.PluginDesc Fn) (now : UInt32) (p : Plugin.Plugins Fn) :
    AtMost 1 (install name desc now p).publishes := by
  have hregister : AtMost 1 (Plugin.pluginRegister (some desc) now p).publishes := by
    unfold Plugin.pluginRegister
    dsimp only
    split
    · exact AtMost.nil 1
    · split
      · exact AtMost.nil 1
      · split
        · exact AtMost.nil 1
        · exact AtMost.single (by decide)
  have hactivate : ∀ p, (activate name p).publishes = [] := fun p => publishes_activate name p
  unfold install
  dsimp only
  split
  · rw [hactivate, List.append_nil]
    exact hregister
  · exact hregister

theorem atMost_loaderLoad (name : CStr) (now : UInt32) (l : Loader) : AtMost 1 (loaderLoad name now l).2.1 := by
  unfold loaderLoad
  split
  · exact AtMost.nil 1
  · split
    · exact AtMost.nil 1
    · rename_i m _ _
      cases m <;> exact atMost_install _ _ _ _

theorem atMost_loadAllLoop (now : Module → UInt32) (ms : List Module) (l : Loader) :
    AtMost ms.length (loadAllLoop now ms l).1 := by
  induction ms generalizing l with
  | nil => exact AtMost.nil 0
  | cons m ms ih =>
    unfold loadAllLoop
    split
    · exact (ih l).mono (Nat.le_succ _)
    · rw [List.length_cons, Nat.add_comm]
      exact (atMost_loaderLoad m.name (now m) l).append (ih (loaderLoad m.name (now m) l).2.2)

theorem atMost_registerPlugins (now : Builtin → UInt32) (k : State H) : AtMost 4 (registerPlugins now k).1 := by
  have hmodules : ∀ now : Module → UInt32, AtMost 2 (loadAllLoop now moduleRegistry (loaderInit k.loader)).1 :=
    fun now => atMost_loadAllLoop now moduleRegistry _
  unfold registerPlugins loaderLoadAll
  dsimp only
  exact ((hmodules _).append (atMost_install _ _ _ _)).append (atMost_install _ _ _ _)

theorem registerPlugins_frame (now : Builtin → UInt32) (k : State H) :
    (registerPlugins now k).2.bus = k.bus ∧ (registerPlugins now k).2.sched = k.sched := ⟨rfl, rfl⟩

/-- The tasks are added, and have not run. -/
theorem KernelMain.fresh (h : KernelMain k₀ acts k) : Fresh builtinTasks k.sched := by
  cases h with
  | @intro now env r k₁ k₂ acts acts' hregister hcapture =>
    have hsame : k.sched = (kernelInit k₀).sched := by
      rw [hcapture.sched_eq, ← (registerPlugins_frame now (kernelInit k₀)).2, ← hregister.sched_eq]
      rfl
    have hinit : (kernelInit k₀).sched = addTasks builtinTasks (Scheduler.schedulerInit k₀.sched) := by
      unfold kernelInit
      dsimp only
    rw [hsame, hinit]
    exact fresh_builtinTasks k₀.sched

/-- **The start of the system.** -/
theorem KernelMain.spec [DecidableEq H] (h : KernelMain k₀ acts k) : Inv ⟨k, .idle⟩ ∧ (∀ a ∈ acts, ¬Refused a) ∧
    Run EventBus.Step (EventBus.boot k₀.bus) acts ⟨k.bus, .idle⟩ := by
  obtain ⟨htable, -, hlast, htick⟩ := h.fresh
  cases h with
  | @intro now env r k₁ k₂ acts acts' hregister hcapture =>
    obtain ⟨hadds, -, -⟩ := hregister.adds (atMost_registerPlugins now _)
    obtain ⟨hadds', -, -⟩ := hcapture.adds (atMost_mirrorCapture _ _ _ _)
    have hboth := hadds.trans hadds'
    have hle := hboth.count_le
    have hhandlers := hboth.handlers
    have hacc := hboth.accepted
    have hrun := hboth.run
    rw [(registerPlugins_frame now (kernelInit k₀)).1] at hle hhandlers hacc hrun
    have hempty : (kernelInit k₀).bus.qCount.toNat = 0 := rfl
    rw [hempty] at hle hacc
    refine ⟨⟨fun topic h => hhandlers ▸ rfl, ?_⟩, hacc (by decide), hrun⟩
    exact ⟨htable, (hlast drainSlot (by decide)).trans htick.symm, hle.trans (by decide)⟩

end Start

/-! ### The system -/

section System

variable [DecidableEq H] {k₀ k : State H} {boot : List (EventBus.Act H)} {ls : List (Label H)} {t : Sys H}

/-- **No event is dropped**: in every run of the system each call of `eventbus_publish` returns `AURA_OK`, past
slot 1 of a tick all events published before the tick are dispatched, in their order, and in slot 1
`event_drain` runs and returns. -/
theorem no_event_dropped (hboot : KernelMain k₀ boot k) (h : Run Step ⟨k, .idle⟩ ls t) :
    (∀ topic data now res, .publish topic data now res ∈ boot ++ busActs ls → res = .ok) ∧
    (∀ pre mid, ls = pre ++ .tick :: mid → .tick ∉ mid → PastDrain t.control →
      EventBus.accepted (boot ++ busActs pre) <+: EventBus.dispatched (boot ++ busActs ls)) ∧
    (t.control = .loop drainSlot → ∃ acts u, Step t (.ran drainSlot .eventbusProcess acts) u) := by
  obtain ⟨hk, hacc, hrun⟩ := hboot.spec
  obtain ⟨ht, hacc', hrun'⟩ := Inv.run h hk
  refine ⟨?_, ?_, ?_⟩
  · intro topic data now res ha
    exact not_not.1 ((List.mem_append.1 ha).elim (hacc _) (hacc' _))
  · rintro pre mid rfl hmid hpast
    obtain ⟨u, hpre, hrest⟩ := Run.append_iff.1 h
    obtain ⟨v, htick, hmid'⟩ := Run.cons_iff.1 hrest
    obtain ⟨hu, -, -⟩ := Inv.run hpre hk
    have hv := (hu.step htick).1
    have hstart : ¬PastDrain v.control := by
      cases htick with
      | tick h =>
        cases h with
        | tick => exact Nat.not_lt_zero drainSlot
    obtain ⟨as, bs, e⟩ := Inv.drained hmid' hv hstart hmid hpast
    -- the queue was empty when `eventbus_process` returned
    have hall : boot ++ busActs (pre ++ .tick :: mid) = (boot ++ busActs pre ++ as ++ [.done]) ++ bs := by
      rw [busActs_append]
      change boot ++ (busActs pre ++ busActs mid) = _
      rw [e]
      simp
    have hbus : Run EventBus.Step (EventBus.boot k₀.bus) _ _ := hrun.append hrun'
    rw [hall] at hbus ⊢
    obtain ⟨w, hdone, -⟩ := Run.append_iff.1 hbus
    have hdrained := (EventBus.run_delivers hdone).1.drained _ rfl
    have hlater : EventBus.dispatched (boot ++ busActs pre ++ as ++ [.done] ++ bs) =
        EventBus.accepted (boot ++ busActs pre ++ as ++ [.done]) ++ EventBus.dispatched bs := by
      rw [← hdrained]
      exact List.filterMap_append
    have hbefore : EventBus.accepted (boot ++ busActs pre ++ as ++ [.done]) =
        EventBus.accepted (boot ++ busActs pre) ++ EventBus.accepted (as ++ [.done]) := by
      rw [List.append_assoc _ as]
      exact List.filterMap_append
    rw [hlater, hbefore, List.append_assoc]
    exact List.prefix_append _ _
  · obtain ⟨k', c⟩ := t
    rintro rfl
    obtain ⟨htable, -, hlast⟩ := ht.scheduled
    have hdue := due_drain htable hlast
    have hfn : (k'.sched.taskTable drainSlot).fn = some .eventbusProcess :=
      congrArg Prod.fst (htable.of_some (i := drainSlot) (by decide) rfl).2
    have hcall : Scheduler.Step ⟨k'.sched, .loop drainSlot⟩ (.call drainSlot (some .eventbusProcess))
        ⟨Scheduler.enterTask k'.sched drainSlot, .body drainSlot⟩ :=
      hfn ▸ Scheduler.Step.call (by decide) hdue
    obtain ⟨acts, b, hdrains⟩ := exists_drains ht.noHandlers
    exact ⟨acts, _, Step.ran hcall (Body.eventbusProcess hdrains) Scheduler.Step.ret⟩

omit [DecidableEq H] in
theorem exists_performs (e : Effect H) : ∃ acts k, Performs e acts k := by
  have key : ∀ (es : List (UInt8 × UInt32)) (b : EventBus.Bus H), ∃ acts b', Publishes es b acts b' := by
    intro es
    induction es with
    | nil => exact fun b => ⟨[], b, Publishes.nil b⟩
    | cons e es ih =>
      intro b
      obtain ⟨acts, b', h⟩ := ih (EventBus.eventbusPublish e.1 e.2 0 b).2
      exact ⟨_, b', Publishes.cons h⟩
  obtain ⟨acts, b, h⟩ := key e.1 e.2.bus
  exact ⟨acts, _, Performs.intro h⟩

omit [DecidableEq H] in
/-- The system starts. -/
theorem exists_kernelMain (k₀ : State H) : ∃ boot k, KernelMain k₀ boot k := by
  obtain ⟨acts, k, hregister⟩ := exists_performs (registerPlugins (fun _ => 0) (kernelInit k₀))
  obtain ⟨acts', k', hcapture⟩ := exists_performs (mirrorCapture 1 (ascii "boot-snapshot") ⟨0, 0, 0⟩ k)
  exact ⟨_, k', KernelMain.intro hregister hcapture⟩

/-- Slot 0 of the first tick. -/
theorem exists_run_heartbeat (h : KernelMain k₀ boot k) : ∃ t, t.control = .loop drainSlot ∧
    Run Step ⟨k, .idle⟩ [.tick, .ran 0 .kernelHeartbeat []] t := by
  obtain ⟨htable, -, hlast, htick⟩ := h.fresh
  obtain ⟨hready, hjob⟩ := htable.startTick.of_some (i := 0) (by decide) rfl
  have hfn : ((Scheduler.startTick k.sched).taskTable 0).fn = some .kernelHeartbeat := congrArg Prod.fst hjob
  have hdue : Scheduler.Due (Scheduler.startTick k.sched) 0 := by
    have hperiod : ((Scheduler.startTick k.sched).taskTable 0).period = 1 := congrArg Prod.snd hjob
    have hnow : (Scheduler.startTick k.sched).schedTick = k.sched.schedTick + 1 := rfl
    refine ⟨hready, Or.inr ?_⟩
    rw [hperiod, hnow, htick, htable.taskTable_startTick (by decide), hlast 0 (by decide)]
    decide
  have hcall : Scheduler.Step ⟨Scheduler.startTick k.sched, .loop 0⟩ (.call 0 (some .kernelHeartbeat))
      ⟨Scheduler.enterTask (Scheduler.startTick k.sched) 0, .body 0⟩ :=
    hfn ▸ Scheduler.Step.call (by decide) hdue
  exact ⟨_, rfl, Run.cons (Step.tick Scheduler.Step.tick)
    (Run.cons (Step.ran hcall (Body.kernelHeartbeat _) Scheduler.Step.ret) (Run.nil _))⟩

end System

/-- The memory before the start. -/
def zeroState : State ℕ where
  bus := EventBus.zeroBus
  loader := ⟨fun _ => false, ⟨fun _ => ⟨pluginDesc [] none none none, .unloaded, 0, 0, 0⟩, 0⟩⟩
  coreTickCount := 0
  mirror := ⟨fun _ => ⟨.tab _ fun _ => 0, 0, 0, 0, 0, 0, 0, 0, 0, false⟩, 0⟩
  snapSlot := 0
  env := fun _ => ⟨.tab _ fun _ => 0, .tab _ fun _ => 0, false⟩
  sched := ⟨fun _ => ⟨.tab _ fun _ => 0, none, .empty, 0, 0, 0⟩, 0, 0⟩

/-- In the first tick the events of the start are dispatched. -/
theorem no_event_dropped_firstTick : ∃ boot k acts t, KernelMain zeroState boot k ∧
    Run Step ⟨k, .idle⟩ [.tick, .ran 0 .kernelHeartbeat [], .ran drainSlot .eventbusProcess acts] t ∧
    EventBus.accepted boot <+: EventBus.dispatched (boot ++ acts) := by
  obtain ⟨boot, k, hboot⟩ := exists_kernelMain zeroState
  obtain ⟨s, hs, hrun⟩ := exists_run_heartbeat hboot
  obtain ⟨acts, t, hdrain⟩ := (no_event_dropped hboot hrun).2.2 hs
  have hrun' := hrun.append (Run.cons hdrain (Run.nil _))
  have hpast : PastDrain t.control := by
    cases hdrain with
    | ran _ _ hret =>
      cases hret with
      | ret => exact Nat.lt_succ_self drainSlot
  have hpre := (no_event_dropped hboot hrun').2.1 [] _ rfl (by simp) hpast
  refine ⟨boot, k, acts, t, hboot, hrun', ?_⟩
  simpa [busActs, Label.acts] using hpre

end AuraOS.Kernel.System
