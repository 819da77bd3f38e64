import AuraOS.Kernel.Core
import AuraOS.Lib.Search
import AuraOS.Lib.Steps
import Mathlib.Logic.Function.Basic

/-!
# The plugin manager

The plugin table of `kernel/plugin.c`.  The table is a function of the slot, `F` is the type of the
addresses of callbacks, and `plugin_count_val` is an `int` of 32 bits that wraps around.

Four of the operations call a callback half way, and the callbacks may call into the manager again, to
any depth.  So an operation is cut at its callback: the part before it either returns or says which
callback it calls (`Outcome`), and the part behind it takes the status that the callback returned.  The
system (`Step`) keeps the operations that wait for a callback on a stack.  The labels record the calls
with their results, and how deep a `plugin_tick_all` is nested.
-/

namespace AuraOS.Kernel.Plugin

open AuraOS.Lib

abbrev pluginMax : ℕ := 16
abbrev pluginNameLen : ℕ := 24

/-- `TOPIC_PLUGIN_LOADED`. -/
abbrev topicPluginLoaded : UInt8 := 1

/-- `TOPIC_PLUGIN_UNLOADED`. -/
abbrev topicPluginUnloaded : UInt8 := 2

/-- `plugin_state_t`. -/
inductive PluginState where
  | unloaded | loaded | active | error
  deriving DecidableEq, Repr

/-- `plugin_desc_t`, without the fields that the manager only copies. -/
structure PluginDesc (F : Type) where
  name : Buf pluginNameLen
  init : Option F
  tick : Option F
  shutdown : Option F

/-- `plugin_slot_t`. -/
structure PluginSlot (F : Type) where
  desc : PluginDesc F
  state : PluginState
  loadTick : UInt32
  tickCount : UInt32
  errorCount : UInt32

/-- The static variables of the module. -/
structure Plugins (F : Type) where
  pluginTable : ℕ → PluginSlot F
  pluginCountVal : Int32

variable {F : Type}

/-- `plugin_table[i] = slot`. -/
def Plugins.setSlot (p : Plugins F) (i : ℕ) (slot : PluginSlot F) : Plugins F :=
  { p with pluginTable := Function.update p.pluginTable i slot }

/-- The state of slot `i`. -/
def Plugins.state (p : Plugins F) (i : ℕ) : PluginState := (p.pluginTable i).state

/-- The descriptor in slot `i`. -/
def Plugins.desc (p : Plugins F) (i : ℕ) : PluginDesc F := (p.pluginTable i).desc

/-- `plugin_table[i].state = state`. -/
def Plugins.setState (p : Plugins F) (i : ℕ) (state : PluginState) : Plugins F :=
  p.setSlot i { p.pluginTable i with state := state }

/-- `plugin_manager_init`. -/
def pluginManagerInit (p : Plugins F) : Plugins F where
  pluginTable i := { p.pluginTable i with state := .unloaded, tickCount := 0, errorCount := 0 }
  pluginCountVal := 0

/-- `plugin_count`. -/
def pluginCount (p : Plugins F) : Int := p.pluginCountVal.toInt

/-- `plugin_find`, on the character function of the name: `strncmp_k` never finds a null pointer. -/
def pluginFind (name : Option (ℕ → UInt8)) (p : Plugins F) : Option ℕ :=
  match name with
  | none => none
  | some a =>
    first (fun i => p.state i ≠ .unloaded ∧ strncmpK (p.desc i).name.rd a pluginNameLen = 0)
      pluginMax 0

/-! ### Registering -/

/-- What an operation returns, the events it publishes, and what it leaves behind. -/
structure Reply (F : Type) where
  status : AuraStatus
  publishes : List (UInt8 × UInt32)
  plugins : Plugins F

/-- The first unloaded slot. -/
def freeSlot (p : Plugins F) : Option ℕ := first (fun i => p.state i = .unloaded) pluginMax 0

/-- The slot of a plugin that is registered at the time `now`. -/
def freshSlot (desc : PluginDesc F) (now : UInt32) : PluginSlot F where
  desc := desc
  state := .loaded
  tickCount := 0
  errorCount := 0
  loadTick := now

/-- `plugin_register`; `now` is what it reads from `g_tick_count`. -/
def pluginRegister (desc : Option (PluginDesc F)) (now : UInt32) (p : Plugins F) : Reply F :=
  match desc with
  | none => ⟨.err, [], p⟩
  | some desc =>
    if (pluginMax : Int) ≤ p.pluginCountVal.toInt then ⟨.noslot, [], p⟩
    else if (pluginFind (some desc.name.rd) p).isSome then ⟨.err, [], p⟩
    else
      match freeSlot p with
      | none => ⟨.noslot, [], p⟩
      | some slot =>
        ⟨.ok, [(topicPluginLoaded, UInt32.ofNat slot)],
          { p.setSlot slot (freshSlot desc now) with pluginCountVal := p.pluginCountVal + 1 }⟩

/-! ### The operations with a callback -/

/-- An operation before its callback: it returns, or calls the callback of slot `i`. -/
inductive Outcome (F : Type) where
  | done (reply : Reply F)
  | calls (i : ℕ) (f : F)

/-- `plugin_unregister` behind its callback, for the plugin in slot `i`. -/
def finishUnregister (i : ℕ) (p : Plugins F) : Reply F :=
  ⟨.ok, [(topicPluginUnloaded, 0)],
    { p.setState i .unloaded with pluginCountVal := p.pluginCountVal - 1 }⟩

/-- `plugin_unregister`. -/
def pluginUnregister (name : Option CStr) (p : Plugins F) : Outcome F :=
  match pluginFind (name.map CStr.chr) p with
  | none => .done ⟨.notfound, [], p⟩
  | some i =>
    if p.state i = .active then
      match (p.desc i).shutdown with
      | some f => .calls i f
      | none => .done (finishUnregister i p)
    else .done (finishUnregister i p)

/-- `plugin_activate` behind its callback, which returned `r`. -/
def finishActivate (i : ℕ) (r : AuraStatus) (p : Plugins F) : Reply F :=
  if r ≠ .ok then
    ⟨r, [], p.setSlot i { p.pluginTable i with
      state := .error
      errorCount := (p.pluginTable i).errorCount + 1 }⟩
  else ⟨.ok, [], p.setState i .active⟩

/-- `plugin_activate`. -/
def pluginActivate (name : Option CStr) (p : Plugins F) : Outcome F :=
  match pluginFind (name.map CStr.chr) p with
  | none => .done ⟨.notfound, [], p⟩
  | some i =>
    if p.state i ≠ .loaded then .done ⟨.err, [], p⟩
    else
      match (p.desc i).init with
      | some f => .calls i f
      | none => .done (finishActivate i .ok p)

/-- `plugin_deactivate` behind its callback. -/
def finishDeactivate (i : ℕ) (p : Plugins F) : Reply F := ⟨.ok, [], p.setState i .loaded⟩

/-- `plugin_deactivate`. -/
def pluginDeactivate (name : Option CStr) (p : Plugins F) : Outcome F :=
  match pluginFind (name.map CStr.chr) p with
  | none => .done ⟨.notfound, [], p⟩
  | some i =>
    if p.state i ≠ .active then .done ⟨.err, [], p⟩
    else
      match (p.desc i).shutdown with
      | some f => .calls i f
      | none => .done (finishDeactivate i p)

/-- The operations on a plugin of a given name. -/
inductive Op where
  | unregister | activate | deactivate
  deriving DecidableEq, Repr

/-- The operation up to its callback. -/
def Op.start : Op → Option CStr → Plugins F → Outcome F
  | unregister => pluginUnregister
  | activate => pluginActivate
  | deactivate => pluginDeactivate

/-- The operation behind its callback, which returned `r`. -/
def Op.finish : Op → ℕ → AuraStatus → Plugins F → Reply F
  | unregister, i, _, p => finishUnregister i p
  | activate, i, r, p => finishActivate i r p
  | deactivate, i, _, p => finishDeactivate i p

/-- `plugin_tick_all` calls the `tick` of slot `i`. -/
def Due (p : Plugins F) (i : ℕ) : Prop := p.state i = .active ∧ (p.desc i).tick.isSome

instance (p : Plugins F) (i : ℕ) : Decidable (Due p i) := inferInstanceAs (Decidable (_ ∧ _))

/-- `plugin_tick_all` behind the `tick` of slot `i`, which returned `r`. -/
def leaveTick (i : ℕ) (r : AuraStatus) (p : Plugins F) : Plugins F :=
  p.setSlot i { p.pluginTable i with
    tickCount := (p.pluginTable i).tickCount + 1
    errorCount :=
      if r ≠ .ok then (p.pluginTable i).errorCount + 1 else (p.pluginTable i).errorCount }

/-! ### Runs -/

/-- A call of the manager that has not returned yet. -/
inductive Frame where
  /-- the operation waits for the callback of slot `i` -/
  | op (o : Op) (i : ℕ)
  /-- `plugin_tick_all` is before slot `i` -/
  | loop (i : ℕ)
  /-- `plugin_tick_all` waits for the `tick` of slot `i` -/
  | ticking (i : ℕ)
  deriving DecidableEq

/-- Code outside the manager runs, and may call into it. -/
def IsClient : List Frame → Prop
  | .loop _ :: _ => False
  | _ => True

/-- The innermost call comes first in the stack. -/
structure Sys (F : Type) where
  plugins : Plugins F
  stack : List Frame

/-- The state after `plugin_manager_init`. -/
def boot (p₀ : Plugins F) : Sys F := ⟨pluginManagerInit p₀, []⟩

inductive Act (F : Type) where
  /-- `slot` is the slot that a successful call fills -/
  | register (desc : Option (PluginDesc F)) (now : UInt32) (res : AuraStatus)
      (publishes : List (UInt8 × UInt32)) (slot : Option ℕ)
  /-- the operation returns without a callback; `slot` is the slot that it found -/
  | done (o : Op) (name : Option CStr) (slot : Option ℕ) (res : AuraStatus)
      (publishes : List (UInt8 × UInt32))
  /-- the operation calls the callback `f` of slot `i` -/
  | call (o : Op) (name : Option CStr) (i : ℕ) (f : F)
  /-- the callback of slot `i` returns `r`, and the operation returns `res` -/
  | ret (o : Op) (i : ℕ) (r res : AuraStatus) (publishes : List (UInt8 × UInt32))
  /-- `plugin_tick_all` is called at this depth -/
  | tickAll (depth : ℕ)
  /-- it passes slot `i` -/
  | pass (depth i : ℕ)
  /-- it calls the `tick` of slot `i` -/
  | tick (depth i : ℕ) (f : F)
  /-- the `tick` of slot `i` returns `r` -/
  | tickRet (i : ℕ) (r : AuraStatus)
  /-- it returns -/
  | tickEnd (depth : ℕ)

inductive Step : Sys F → Act F → Sys F → Prop
  | register {p : Plugins F} {st : List Frame} {desc : Option (PluginDesc F)} {now : UInt32}
      {reply : Reply F} : IsClient st → pluginRegister desc now p = reply →
      Step ⟨p, st⟩ (.register desc now reply.status reply.publishes
        (if reply.status = .ok then freeSlot p else none)) ⟨reply.plugins, st⟩
  | done {p : Plugins F} {st : List Frame} {o : Op} {name : Option CStr} {reply : Reply F} :
      IsClient st → o.start name p = .done reply →
      Step ⟨p, st⟩ (.done o name (pluginFind (name.map CStr.chr) p) reply.status reply.publishes)
        ⟨reply.plugins, st⟩
  | call {p : Plugins F} {st : List Frame} {o : Op} {name : Option CStr} {i : ℕ} {f : F} :
      IsClient st → o.start name p = .calls i f →
      Step ⟨p, st⟩ (.call o name i f) ⟨p, .op o i :: st⟩
  | ret {p : Plugins F} {st : List Frame} {o : Op} {i : ℕ} {r : AuraStatus} :
      Step ⟨p, .op o i :: st⟩ (.ret o i r (o.finish i r p).status (o.finish i r p).publishes)
        ⟨(o.finish i r p).plugins, st⟩
  | tickAll {p : Plugins F} {st : List Frame} : IsClient st →
      Step ⟨p, st⟩ (.tickAll st.length) ⟨p, .loop 0 :: st⟩
  | pass {p : Plugins F} {st : List Frame} {i : ℕ} : i < pluginMax → ¬Due p i →
      Step ⟨p, .loop i :: st⟩ (.pass st.length i) ⟨p, .loop (i + 1) :: st⟩
  | tick {p : Plugins F} {st : List Frame} {i : ℕ} {f : F} : i < pluginMax → p.state i = .active →
      (p.desc i).tick = some f →
      Step ⟨p, .loop i :: st⟩ (.tick st.length i f) ⟨p, .ticking i :: st⟩
  | tickRet {p : Plugins F} {st : List Frame} {i : ℕ} {r : AuraStatus} :
      Step ⟨p, .ticking i :: st⟩ (.tickRet i r) ⟨leaveTick i r p, .loop (i + 1) :: st⟩
  | tickEnd {p : Plugins F} {st : List Frame} :
      Step ⟨p, .loop pluginMax :: st⟩ (.tickEnd st.length) ⟨p, st⟩

end AuraOS.Kernel.Plugin
