import AuraOS.Kernel.Mirror.Defs
import AuraOS.Kernel.Scheduler.Defs
import AuraOS.Modules.Loader.Defs

/-!
# The running system

`kernel_main` puts the parts together: the event bus, the plugin manager with its four plugins, the snapshots,
and the scheduler with the seven built-in tasks.  A task function is a relation (`Body`) between the states
before and after it, labelled with what happens on the event bus; `Step` lets the scheduler call them.

What comes from outside is not part of the state and may be anything at each point where it is read:
`g_tick_count`, which the timer interrupt advances, the results of `memory_stats`, the table of variables that
`env_load` leaves behind, and the characters that the keyboard and the serial port put into the keyboard ring.
-/

namespace AuraOS.Kernel.System

open AuraOS.Lib AuraOS.Kernel AuraOS.Env AuraOS.Modules

/-- `TOPIC_KERNEL_TICK`. -/
abbrev topicKernelTick : UInt8 := 0

/-- A string literal. -/
def ascii (s : String) : CStr := s.toList.map Char.toUInt8

/-- The functions of the built-in tasks. -/
inductive TaskFn where
  | kernelHeartbeat | eventbusProcess | mirrorSync | pluginTickAll | keyboardPoll | menuTick | serialPoll
  deriving DecidableEq, Repr

/-- The static variables of the parts; `snapSlot` is `snap_slot` of `menu_tick`. -/
structure State (H : Type) where
  bus : EventBus.Bus H
  loader : Loader
  coreTickCount : UInt32
  mirror : Mirror.State
  snapSlot : UInt8
  env : EnvTable
  sched : Scheduler.Sched TaskFn

variable {H : Type}

/-- The plugin table. -/
abbrev State.plugins (k : State H) : Plugin.Plugins Fn := k.loader.plugins

/-- `g_tick_count` and the results of `memory_stats`, where they are read. -/
structure Reads where
  gTickCount : UInt32
  used : UInt32
  freeBytes : UInt32

/-- What `mirror_sync` reads. -/
def State.counters (k : State H) (r : Reads) : Mirror.Counters where
  gTickCount := r.gTickCount
  used := r.used
  freeBytes := r.freeBytes
  schedulerTaskCount := Scheduler.schedulerTaskCount k.sched
  pluginCount := Plugin.pluginCount k.plugins
  eventbusPending := EventBus.eventbusPending k.bus

/-! ### Functions that publish -/

/-- The events that a function publishes, and the state it leaves behind but for these. -/
abbrev Effect (H : Type) := List (UInt8 × UInt32) × State H

/-- `mirror_sync`. -/
def mirrorSync (r : Reads) (k : State H) : Effect H :=
  let (event, m) := Mirror.mirrorSync (k.counters r) k.mirror
  (event.toList, { k with mirror := m })

/-- `mirror_capture`. -/
def mirrorCapture (slot : UInt8) (label : CStr) (r : Reads) (k : State H) : Effect H :=
  let (_, event, m) := Mirror.mirrorCapture slot (some label) Mirror.mirrorFlagAll (k.counters r) k.mirror
  (event.toList, { k with mirror := m })

/-- `core_tick`. -/
def coreTick (k : State H) : Effect H :=
  let n := k.coreTickCount + 1
  (if n % 1000 = 0 then [(topicKernelTick, n)] else [], { k with coreTickCount := n })

/-- The `tick` of a plugin; those of the others print at most. -/
def pluginTick (f : Fn) (k : State H) : Effect H := if f = (.auraCore, .tick) then coreTick k else ([], k)

/-- `menu_tick` with the character `c`, none where `kernel_panic` or `kernel_shutdown` halts. -/
def menuTick (c : UInt8) (r : Reads) (k : State H) : Option (Effect H) :=
  if c = 0x34 then
    let slot := if Mirror.mirrorSlots ≤ k.snapSlot.toNat then 2 else k.snapSlot
    some (mirrorCapture slot (ascii "user-snap") r { k with snapSlot := slot + 1 })
  else if c = 0x72 ∨ c = 0x52 then
    let (_, event, env) := Mirror.mirrorRestore 1 k.mirror k.env
    some (event.toList, { k with env := env })
  else if c = 0x6B ∨ c = 0x4B ∨ c = 0x71 ∨ c = 0x51 then none
  -- the other keys print, and without a character nothing happens
  else some ([], k)

/-! ### On the event bus -/

/-- `eventbus_publish` of one event after the other. -/
inductive Publishes : List (UInt8 × UInt32) → EventBus.Bus H → List (EventBus.Act H) → EventBus.Bus H → Prop
  | nil (b : EventBus.Bus H) : Publishes [] b [] b
  | cons {topic : UInt8} {data now : UInt32} {es : List (UInt8 × UInt32)} {b b' : EventBus.Bus H}
      {acts : List (EventBus.Act H)} : Publishes es (EventBus.eventbusPublish topic data now b).2 acts b' →
      Publishes ((topic, data) :: es) b
        (.publish topic data now (EventBus.eventbusPublish topic data now b).1 :: acts) b'

/-- A function publishes its events. -/
inductive Performs : Effect H → List (EventBus.Act H) → State H → Prop
  | intro {es : List (UInt8 × UInt32)} {k : State H} {acts : List (EventBus.Act H)} {b : EventBus.Bus H} :
      Publishes es k.bus acts b → Performs (es, k) acts { k with bus := b }

/-- One call of `eventbus_process`. -/
inductive Drains [DecidableEq H] : EventBus.Bus H → List (EventBus.Act H) → EventBus.Bus H → Prop
  | intro {b b' : EventBus.Bus H} {acts : List (EventBus.Act H)} : .done ∉ acts →
      Run EventBus.Step ⟨b, .drain⟩ acts ⟨b', .drain⟩ → b'.qCount.toNat = 0 →
      Drains b (.process :: acts ++ [.done]) b'

/-- `plugin_tick_all` from slot `i` on; every callback returns `AURA_OK`. -/
inductive TickAll : ℕ → State H → List (EventBus.Act H) → State H → Prop
  | done (k : State H) : TickAll Plugin.pluginMax k [] k
  | pass {i : ℕ} {k k' : State H} {acts : List (EventBus.Act H)} : i < Plugin.pluginMax →
      ¬Plugin.Due k.plugins i → TickAll (i + 1) k acts k' → TickAll i k acts k'
  | tick {i : ℕ} {f : Fn} {k k₁ k' : State H} {acts acts' : List (EventBus.Act H)} : i < Plugin.pluginMax →
      k.plugins.state i = .active → (k.plugins.desc i).tick = some f → Performs (pluginTick f k) acts k₁ →
      TickAll (i + 1) { k₁ with loader := { k₁.loader with plugins := Plugin.leaveTick i .ok k₁.plugins } }
        acts' k' →
      TickAll i k (acts ++ acts') k'

/-! ### The tasks -/

/-- The task functions, when they return.  The heartbeat advances `g_tick_count`, and the two polling tasks
fill the keyboard ring. -/
inductive Body [DecidableEq H] : TaskFn → State H → List (EventBus.Act H) → State H → Prop
  | kernelHeartbeat (k : State H) : Body .kernelHeartbeat k [] k
  | eventbusProcess {k : State H} {acts : List (EventBus.Act H)} {b : EventBus.Bus H} : Drains k.bus acts b →
      Body .eventbusProcess k acts { k with bus := b }
  | mirrorSync {r : Reads} {k k' : State H} {acts : List (EventBus.Act H)} :
      Performs (System.mirrorSync r k) acts k' → Body .mirrorSync k acts k'
  | pluginTickAll {k k' : State H} {acts : List (EventBus.Act H)} : TickAll 0 k acts k' →
      Body .pluginTickAll k acts k'
  | keyboardPoll (k : State H) : Body .keyboardPoll k [] k
  | menuTick {c : UInt8} {r : Reads} {e : Effect H} {k k' : State H} {acts : List (EventBus.Act H)} :
      System.menuTick c r k = some e → Performs e acts k' → Body .menuTick k acts k'
  | serialPoll (k : State H) : Body .serialPoll k [] k

/-- The tasks that `kernel_main` adds: name, function, period. -/
def builtinTasks : List (CStr × TaskFn × UInt32) :=
  [(ascii "heartbeat", .kernelHeartbeat, 1),
   (ascii "event_drain", .eventbusProcess, 1),
   (ascii "mirror_sync", .mirrorSync, 10),
   (ascii "plugin_tick", .pluginTickAll, 5),
   (ascii "keyboard_poll", .keyboardPoll, 1),
   (ascii "menu_tick", .menuTick, 2),
   (ascii "serial_poll", .serialPoll, 5)]

/-- `scheduler_add_task` of one task after the other. -/
def addTasks (tasks : List (CStr × TaskFn × UInt32)) (s : Scheduler.Sched TaskFn) : Scheduler.Sched TaskFn :=
  tasks.foldl (fun s t => (Scheduler.schedulerAddTask (some t.1) (some t.2.1) t.2.2 s).2) s

/-! ### The start -/

/-- `adapter_serial_register`. -/
def adapterSerialRegister : UInt32 → Plugin.Plugins Fn → Plugin.Reply Fn :=
  install (ascii "serial-com1")
    (pluginDesc (ascii "serial-com1") (some (.serialCom1, .init)) none (some (.serialCom1, .shutdown)))

/-- `adapter_net_register`. -/
def adapterNetRegister : UInt32 → Plugin.Plugins Fn → Plugin.Reply Fn :=
  install (ascii "net")
    (pluginDesc (ascii "net") (some (.net, .init)) (some (.net, .tick)) (some (.net, .shutdown)))

/-- The modules and adapters; `now` is `g_tick_count` at each registration. -/
def registerPlugins (now : Builtin → UInt32) (k : State H) : Effect H :=
  let (es, l) := loaderLoadAll (fun | .hello => now .hello | .auraCore => now .auraCore) (loaderInit k.loader)
  let serial := adapterSerialRegister (now .serialCom1) l.plugins
  let net := adapterNetRegister (now .net) serial.plugins
  (es ++ serial.publishes ++ net.publishes, { k with loader := { l with plugins := net.plugins } })

/-- The initialisations, and the values that `core_tick_count` and `snap_slot` start with. -/
def kernelInit (k : State H) : State H where
  bus := EventBus.eventbusInit k.bus
  loader := { k.loader with plugins := Plugin.pluginManagerInit k.plugins }
  coreTickCount := 0
  mirror := Mirror.mirrorInit k.mirror
  snapSlot := 2
  env := envInit k.env
  sched := addTasks builtinTasks (Scheduler.schedulerInit k.sched)

/-- `kernel_main` up to its loop: the plugins, the variables that `env_load` finds, and `menu_run`. -/
inductive KernelMain (k₀ : State H) : List (EventBus.Act H) → State H → Prop
  | intro {now : Builtin → UInt32} {env : EnvTable} {r : Reads} {k k' : State H}
      {acts acts' : List (EventBus.Act H)} : Performs (registerPlugins now (kernelInit k₀)) acts k →
      Performs (mirrorCapture 1 (ascii "boot-snapshot") r { k with env := env }) acts' k' →
      KernelMain k₀ (acts ++ acts') k'

/-! ### The loop -/

structure Sys (H : Type) where
  state : State H
  control : Scheduler.Control

inductive Label (H : Type) where
  /-- `scheduler_tick` is called -/
  | tick
  /-- it passes slot `i` -/
  | pass (i : ℕ)
  /-- it calls the task in slot `i`, which returns -/
  | ran (i : ℕ) (fn : TaskFn) (acts : List (EventBus.Act H))
  /-- it calls the task in slot `i`, which halts the processor -/
  | halt (i : ℕ)
  /-- it publishes the switch, and returns -/
  | switch (acts : List (EventBus.Act H))

/-- What happens on the event bus. -/
def Label.acts : Label H → List (EventBus.Act H)
  | ran _ _ acts => acts
  | switch acts => acts
  | _ => []

/-- The loop of `kernel_main`: the steps of the scheduler, with the task functions at its calls. -/
inductive Step [DecidableEq H] : Sys H → Label H → Sys H → Prop
  | tick {k : State H} {s : Scheduler.Sched TaskFn} {c : Scheduler.Control} :
      Scheduler.Step ⟨k.sched, .idle⟩ .tick ⟨s, c⟩ → Step ⟨k, .idle⟩ .tick ⟨{ k with sched := s }, c⟩
  | pass {k : State H} {s : Scheduler.Sched TaskFn} {c : Scheduler.Control} {i : ℕ} :
      Scheduler.Step ⟨k.sched, .loop i⟩ (.pass i) ⟨s, c⟩ →
      Step ⟨k, .loop i⟩ (.pass i) ⟨{ k with sched := s }, c⟩
  | ran {k k' : State H} {s s' : Scheduler.Sched TaskFn} {c : Scheduler.Control} {i : ℕ} {fn : TaskFn}
      {acts : List (EventBus.Act H)} :
      Scheduler.Step ⟨k.sched, .loop i⟩ (.call i (some fn)) ⟨s, .body i⟩ →
      Body fn { k with sched := s } acts k' → Scheduler.Step ⟨k'.sched, .body i⟩ (.ret i) ⟨s', c⟩ →
      Step ⟨k, .loop i⟩ (.ran i fn acts) ⟨{ k' with sched := s' }, c⟩
  | halt {k : State H} {s : Scheduler.Sched TaskFn} {i : ℕ} {ch : UInt8} {r : Reads} :
      Scheduler.Step ⟨k.sched, .loop i⟩ (.call i (some .menuTick)) ⟨s, .body i⟩ →
      menuTick ch r { k with sched := s } = none →
      Step ⟨k, .loop i⟩ (.halt i) ⟨{ k with sched := s }, .body i⟩
  | switch {k k' : State H} {s : Scheduler.Sched TaskFn} {c : Scheduler.Control} {i : ℕ} {topic : UInt8}
      {data : UInt32} {acts : List (EventBus.Act H)} :
      Scheduler.Step ⟨k.sched, .loop i⟩ (.publish topic data) ⟨s, c⟩ →
      Performs ([(topic, data)], { k with sched := s }) acts k' → Step ⟨k, .loop i⟩ (.switch acts) ⟨k', c⟩

end AuraOS.Kernel.System
