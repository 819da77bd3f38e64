import AuraOS.Kernel.Plugin.Defs

/-!
# Registering an adapter

The serial adapter of `adapters/adapter_serial.c` and `adapter_register`, over the plugin manager.  `A` is the
type of the addresses of the adapters that other files define.  Every function of a table of operations has a
name, and the calls of these functions are recorded.  The bytes on the port, the printed lines and the events
of the manager are left out.
-/

namespace AuraOS.Adapters

open AuraOS.Lib AuraOS.Kernel AuraOS.Kernel.Plugin

abbrev adapterNameLen : ℕ := 24

/-- The functions that open and close a device: those of the serial adapter, and others. -/
inductive OpFn where
  | serialOpen | serialClose | other (n : ℕ)
  deriving DecidableEq, Repr

/-- `adapter_ops_t`, the fields `open` and `close`. -/
structure AdapterOps where
  openOp : OpFn
  closeOp : OpFn

/-- `adapter_t`, without the flag `open`, which is a part of the state. -/
structure Adapter where
  name : Buf adapterNameLen
  ops : AdapterOps

/-- `"serial-com1"`. -/
def serialName : CStr := [115, 101, 114, 105, 97, 108, 45, 99, 111, 109, 49]

/-- `serial_adapter`. -/
def serialAdapter : Adapter := ⟨Buf.tab _ serialName.chr, ⟨.serialOpen, .serialClose⟩⟩

/-- The address of an adapter. -/
inductive Addr (A : Type) where
  | serialAdapter
  | other (a : A)

/-- The callbacks of this file. -/
inductive Fn where
  | serialPluginInit | serialPluginShutdown
  deriving DecidableEq, Repr

/-- The plugin manager with the field `priv` of its slots, the flags `open` of the adapters, and whether
`serial_mirror_char` is the hook of the screen. -/
structure System (A : Type) where
  plugins : Plugins Fn
  priv : ℕ → Option (Addr A)
  isOpen : Addr A → UInt8
  hook : Bool

/-- What a function returns, the functions of adapters that it calls, and what it leaves behind. -/
structure Effect (A : Type) where
  status : AuraStatus
  calls : List OpFn
  system : System A

variable {A : Type}

/-- The adapter at an address. -/
def adapterAt (adapters : A → Adapter) : Addr A → Adapter
  | .serialAdapter => serialAdapter
  | .other a => adapters a

/-- `serial_adapter.open = v`. -/
def setSerialOpen (v : UInt8) (isOpen : Addr A → UInt8) : Addr A → UInt8
  | .serialAdapter => v
  | .other a => isOpen (.other a)

/-! ### The serial adapter -/

/-- What `serial_open` returns. -/
def serialOpen : AuraStatus := .ok

/-- `serial_plugin_init`. -/
def serialPluginInit (s : System A) : Effect A :=
  let r := serialOpen
  if r = .ok then ⟨r, [.serialOpen], { s with isOpen := setSerialOpen 1 s.isOpen, hook := true }⟩
  else ⟨r, [.serialOpen], s⟩

/-- `serial_plugin_shutdown`. -/
def serialPluginShutdown (s : System A) : Effect A :=
  ⟨.ok, [.serialClose], { s with isOpen := setSerialOpen 0 s.isOpen, hook := false }⟩

/-- The call of a callback. -/
def Fn.call : Fn → System A → Effect A
  | serialPluginInit => Adapters.serialPluginInit
  | serialPluginShutdown => Adapters.serialPluginShutdown

/-- An operation of the plugin manager, with the callback that it calls. -/
def perform (o : Op) (name : CStr) (s : System A) : Effect A :=
  match o.start (some name) s.plugins with
  | .done reply => ⟨reply.status, [], { s with plugins := reply.plugins }⟩
  | .calls i f =>
    let e := f.call s
    let reply := o.finish i e.status e.system.plugins
    ⟨reply.status, e.calls, { e.system with plugins := reply.plugins }⟩

/-! ### Registering -/

/-- The descriptor in `adapter_register`: its callbacks are those of the serial adapter, whatever the adapter
is. -/
def adapterDesc (adp : Adapter) : PluginDesc Fn where
  name := strncpyK (Buf.tab _ fun _ => 0) adp.name.toList pluginNameLen
  init := some .serialPluginInit
  tick := none
  shutdown := some .serialPluginShutdown

/-- The descriptor of the adapter at `a` comes into the first free slot. -/
def setPriv (a : Addr A) (s : System A) : ℕ → Option (Addr A) :=
  match freeSlot s.plugins with
  | some i => Function.update s.priv i (some a)
  | none => s.priv

/-- `adapter_register`, at the time `now`. -/
def adapterRegister (adapters : A → Adapter) (a : Addr A) (now : UInt32) (s : System A) : Effect A :=
  let desc := adapterDesc (adapterAt adapters a)
  let r := pluginRegister (some desc) now s.plugins
  if r.status = .ok then
    let e := perform .activate desc.name.toList { s with plugins := r.plugins, priv := setPriv a s }
    { e with status := r.status }
  else ⟨r.status, [], { s with plugins := r.plugins }⟩

/-- `adapter_serial_register`. -/
def adapterSerialRegister (adapters : A → Adapter) (now : UInt32) (s : System A) : Effect A :=
  adapterRegister adapters .serialAdapter now s

/-! ### Runs -/

/-- The calls, with the functions of adapters that they call. -/
inductive Act (A : Type) where
  | register (a : Addr A) (calls : List OpFn)
  | op (o : Op) (name : CStr) (calls : List OpFn)

inductive Step (adapters : A → Adapter) : System A → Act A → System A → Prop
  | register {s : System A} {a : Addr A} {now : UInt32} : Step adapters s
      (.register a (adapterRegister adapters a now s).calls) (adapterRegister adapters a now s).system
  | op {s : System A} {o : Op} {name : CStr} :
      Step adapters s (.op o name (perform o name s).calls) (perform o name s).system

/-- After `plugin_manager_init`, when no device is open. -/
def start (p₀ : Plugins Fn) : System A where
  plugins := pluginManagerInit p₀
  priv := fun _ => none
  isOpen := fun _ => 0
  hook := false

end AuraOS.Adapters
