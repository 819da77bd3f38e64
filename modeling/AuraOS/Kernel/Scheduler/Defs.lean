import AuraOS.Kernel.Core
import AuraOS.Lib.Search
import AuraOS.Lib.Steps
import Mathlib.Logic.Function.Basic

/-!
# The task scheduler

The task table of `kernel/scheduler.c`.  The table is a function of the slot, `F` is the type of the
addresses of task functions, and `task_count_val` is an `int` of 32 bits that wraps around.

`scheduler_tick` calls the task functions, and these call back into the scheduler; so it is a transition
system (`Step`) whose control state says where its second loop is.  A call of `scheduler_add_task` or
`scheduler_remove_task` is one step: it may happen between two ticks, or while a task function runs.
The labels record the calls with their results, and the slot that a successful call affects.
-/

namespace AuraOS.Kernel.Scheduler

open AuraOS.Lib

abbrev schedMaxTasks : ℕ := 16
abbrev taskNameLen : ℕ := 16

/-- `TOPIC_SCHEDULER_SWITCH`. -/
abbrev topicSchedulerSwitch : UInt8 := 4

/-- `task_state_t`. -/
inductive TaskState where
  | empty | ready | running | blocked | zombie
  deriving DecidableEq, Repr

/-- `task_t`. -/
structure Task (F : Type) where
  name : Buf taskNameLen
  fn : Option F
  state : TaskState
  tickCount : UInt32
  period : UInt32
  lastRun : UInt32

/-- The static variables of the module. -/
structure Sched (F : Type) where
  taskTable : ℕ → Task F
  taskCountVal : Int32
  schedTick : UInt32

variable {F : Type}

/-- `task_table[i] = task`. -/
def Sched.setTask (s : Sched F) (i : ℕ) (task : Task F) : Sched F :=
  { s with taskTable := Function.update s.taskTable i task }

/-- The state of slot `i`. -/
def Sched.state (s : Sched F) (i : ℕ) : TaskState := (s.taskTable i).state

/-- `scheduler_init`. -/
def schedulerInit (s : Sched F) : Sched F where
  taskTable i := { s.taskTable i with state := .empty, tickCount := 0 }
  taskCountVal := 0
  schedTick := 0

/-! ### Adding and removing tasks -/

/-- The first empty slot. -/
def freeSlot (s : Sched F) : Option ℕ := first (fun i => s.state i = .empty) schedMaxTasks 0

/-- `scheduler_add_task`. -/
def schedulerAddTask (name : Option CStr) (fn : Option F) (period : UInt32) (s : Sched F) :
    AuraStatus × Sched F :=
  match name, fn with
  | some name, some fn =>
    if (schedMaxTasks : Int) ≤ s.taskCountVal.toInt then (.noslot, s)
    else
      match freeSlot s with
      | none => (.noslot, s)
      | some slot =>
        let task : Task F :=
          { name := strncpyK (s.taskTable slot).name name taskNameLen
            fn := some fn
            state := .ready
            period := period
            lastRun := 0
            tickCount := 0 }
        (.ok, { s.setTask slot task with taskCountVal := s.taskCountVal + 1 })
  | _, _ => (.err, s)

/-- The first slot in use whose name is `name`. -/
def findTask (name : CStr) (s : Sched F) : Option ℕ :=
  first (fun i => s.state i ≠ .empty ∧ strncmpK (s.taskTable i).name.rd name.chr taskNameLen = 0)
    schedMaxTasks 0

/-- `scheduler_remove_task`. -/
def schedulerRemoveTask (name : CStr) (s : Sched F) : AuraStatus × Sched F :=
  match findTask name s with
  | some i =>
    (.ok, { s.setTask i { s.taskTable i with state := .zombie } with
      taskCountVal := s.taskCountVal - 1 })
  | none => (.notfound, s)

/-- `scheduler_task_count`. -/
def schedulerTaskCount (s : Sched F) : Int := s.taskCountVal.toInt

/-! ### Ticks -/

/-- What `scheduler_tick` does before it runs tasks: it counts, and cleans up the zombies. -/
def startTick (s : Sched F) : Sched F :=
  { s with
    schedTick := s.schedTick + 1
    taskTable := fun i =>
      if s.state i = .zombie then { s.taskTable i with state := .empty } else s.taskTable i }

/-- The task in slot `i` is ready, and its period has elapsed. -/
def Due (s : Sched F) (i : ℕ) : Prop :=
  s.state i = .ready ∧ ((s.taskTable i).period = 0 ∨
    (s.taskTable i).period ≤ s.schedTick - (s.taskTable i).lastRun)

instance (s : Sched F) (i : ℕ) : Decidable (Due s i) := inferInstanceAs (Decidable (_ ∧ _))

/-- Before the call of the task function. -/
def enterTask (s : Sched F) (i : ℕ) : Sched F :=
  s.setTask i { s.taskTable i with state := .running, lastRun := s.schedTick }

/-- After the call of the task function. -/
def leaveTask (s : Sched F) (i : ℕ) : Sched F :=
  s.setTask i { s.taskTable i with tickCount := (s.taskTable i).tickCount + 1, state := .ready }

/-! ### Runs -/

/-- Where `scheduler_tick` is. -/
inductive Control where
  | idle
  /-- in its second loop, before slot `i` -/
  | loop (i : ℕ)
  /-- in the task function of slot `i` -/
  | body (i : ℕ)
  deriving DecidableEq

/-- Code outside the scheduler runs, and may call into it. -/
def Control.IsClient : Control → Prop
  | idle => True
  | loop _ => False
  | body _ => True

structure Sys (F : Type) where
  sched : Sched F
  control : Control

/-- The state after `scheduler_init`. -/
def boot (s₀ : Sched F) : Sys F := ⟨schedulerInit s₀, .idle⟩

inductive Act (F : Type) where
  /-- `slot` is the slot that a successful call fills -/
  | add (name : Option CStr) (fn : Option F) (period : UInt32) (res : AuraStatus) (slot : Option ℕ)
  /-- `slot` is the slot of the removed task -/
  | remove (name : CStr) (res : AuraStatus) (slot : Option ℕ)
  /-- `scheduler_tick` is called -/
  | tick
  /-- it calls the function of slot `i` -/
  | call (i : ℕ) (fn : Option F)
  /-- it passes slot `i` -/
  | pass (i : ℕ)
  /-- the function of slot `i` returns -/
  | ret (i : ℕ)
  /-- it calls `eventbus_publish`, and returns -/
  | publish (topic : UInt8) (data : UInt32)

inductive Step : Sys F → Act F → Sys F → Prop
  | add {s s' : Sched F} {c : Control} {name : Option CStr} {fn : Option F} {period : UInt32}
      {res : AuraStatus} : c.IsClient → schedulerAddTask name fn period s = (res, s') →
      Step ⟨s, c⟩ (.add name fn period res (if res = .ok then freeSlot s else none)) ⟨s', c⟩
  | remove {s s' : Sched F} {c : Control} {name : CStr} {res : AuraStatus} : c.IsClient →
      schedulerRemoveTask name s = (res, s') →
      Step ⟨s, c⟩ (.remove name res (findTask name s)) ⟨s', c⟩
  | tick {s : Sched F} : Step ⟨s, .idle⟩ .tick ⟨startTick s, .loop 0⟩
  | call {s : Sched F} {i : ℕ} : i < schedMaxTasks → Due s i →
      Step ⟨s, .loop i⟩ (.call i (s.taskTable i).fn) ⟨enterTask s i, .body i⟩
  | pass {s : Sched F} {i : ℕ} : i < schedMaxTasks → ¬Due s i →
      Step ⟨s, .loop i⟩ (.pass i) ⟨s, .loop (i + 1)⟩
  | ret {s : Sched F} {i : ℕ} : Step ⟨s, .body i⟩ (.ret i) ⟨leaveTask s i, .loop (i + 1)⟩
  | publish {s : Sched F} : Step ⟨s, .loop schedMaxTasks⟩
      (.publish topicSchedulerSwitch s.schedTick) ⟨s, .idle⟩

end AuraOS.Kernel.Scheduler
