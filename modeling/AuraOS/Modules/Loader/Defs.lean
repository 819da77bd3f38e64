import AuraOS.Kernel.Plugin.Table

/-!
# The module loader

The registry of `modules/loader.c` with its two modules, over the plugin manager.  A module is loaded by
registering its plugin and activating it; the callbacks of the plugins only print and count.  The static
registry is a list, and its flags `loaded` are a function on the modules.
-/

namespace AuraOS.Modules

open AuraOS.Lib AuraOS.Kernel AuraOS.Kernel.Plugin

abbrev moduleNameLen : ℕ := 24

/-- The plugins that come with the kernel. -/
inductive Builtin where
  | hello | auraCore | serialCom1 | net
  deriving DecidableEq, Repr

/-- The address of a callback: `hello_init` is `(.hello, .init)`. -/
abbrev Fn := Builtin × Callback

/-- A `plugin_desc_t` with the given name. -/
def pluginDesc (name : CStr) (init tick shutdown : Option Fn) : PluginDesc Fn where
  name := Buf.tab pluginNameLen name.chr
  init := init
  tick := tick
  shutdown := shutdown

/-- What the callback `init` of a plugin returns; it prints, and `serial_open` sets up the port. -/
def Builtin.init : Builtin → AuraStatus
  | hello => .ok
  | auraCore => .ok
  | serialCom1 => .ok
  | net => .ok

/-- `plugin_activate`, with the callback that it calls. -/
def activate (name : CStr) (p : Plugins Fn) : Reply Fn :=
  match pluginActivate (some name) p with
  | .done reply => reply
  | .calls i f => finishActivate i f.1.init p

/-- Registering and activating: the status of the registration, and what both publish and leave behind. -/
def install (name : CStr) (desc : PluginDesc Fn) (now : UInt32) (p : Plugins Fn) : Reply Fn :=
  let r := pluginRegister (some desc) now p
  if r.status = .ok then
    let r' := activate name r.plugins
    ⟨r.status, r.publishes ++ r'.publishes, r'.plugins⟩
  else r

/-! ### The modules -/

/-- `"hello"`. -/
def helloName : CStr := [104, 101, 108, 108, 111]

/-- `"aura_core"`. -/
def auraCoreName : CStr := [97, 117, 114, 97, 95, 99, 111, 114, 101]

/-- The descriptor in `mod_hello_load`. -/
def helloDesc : PluginDesc Fn :=
  pluginDesc helloName (some (.hello, .init)) (some (.hello, .tick)) (some (.hello, .shutdown))

/-- The descriptor in `mod_aura_core_load`. -/
def auraCoreDesc : PluginDesc Fn :=
  pluginDesc auraCoreName (some (.auraCore, .init)) (some (.auraCore, .tick)) (some (.auraCore, .shutdown))

/-- A function of a module that loads it: what it returns, and the reply of the manager. -/
def modLoad (name : CStr) (desc : PluginDesc Fn) (now : UInt32) (p : Plugins Fn) : Int × Reply Fn :=
  let r := install name desc now p
  (if r.status = .ok then 0 else -1, r)

/-- `mod_hello_load`. -/
def modHelloLoad : UInt32 → Plugins Fn → Int × Reply Fn := modLoad helloName helloDesc

/-- `mod_aura_core_load`. -/
def modAuraCoreLoad : UInt32 → Plugins Fn → Int × Reply Fn := modLoad auraCoreName auraCoreDesc

/-- The entries of the registry. -/
inductive Module where
  | hello | auraCore
  deriving DecidableEq, Repr

/-- The field `name` of an entry. -/
def Module.name : Module → CStr
  | hello => helloName
  | auraCore => auraCoreName

/-- The field `load` of an entry. -/
def Module.load : Module → UInt32 → Plugins Fn → Int × Reply Fn
  | hello => modHelloLoad
  | auraCore => modAuraCoreLoad

/-! ### The loader -/

/-- `module_registry`, without the entry that ends it. -/
def moduleRegistry : List Module := [.hello, .auraCore]

/-- The flags of the registry, and the plugin manager. -/
structure Loader where
  loaded : Module → Bool
  plugins : Plugins Fn

/-- `loader_init`. -/
def loaderInit (s : Loader) : Loader := { s with loaded := fun _ => false }

/-- The entry that the search for a name finds. -/
def findModule (name : CStr) : Option Module :=
  moduleRegistry.find? fun m => strncmpK m.name.chr name.chr moduleNameLen = 0

/-- `loader_load`: the result, what is published, and the state. -/
def loaderLoad (name : CStr) (now : UInt32) (s : Loader) : Int × List (UInt8 × UInt32) × Loader :=
  match findModule name with
  | none => (-1, [], s)
  | some m =>
    if s.loaded m then (0, [], s)
    else
      let (r, reply) := m.load now s.plugins
      (r, reply.publishes,
        { loaded := if r = 0 then Function.update s.loaded m true else s.loaded, plugins := reply.plugins })

/-- `loader_unload`. -/
def loaderUnload (name : CStr) (s : Loader) : Int × Loader :=
  match findModule name with
  | none => (-1, s)
  | some m => (0, { s with loaded := Function.update s.loaded m false })

/-- The loop of `loaderLoadAll` over the entries; `now m` is what the load of `m` reads from
`g_tick_count`. -/
def loadAllLoop (now : Module → UInt32) : List Module → Loader → List (UInt8 × UInt32) × Loader
  | [], s => ([], s)
  | m :: ms, s =>
    if s.loaded m then loadAllLoop now ms s
    else
      let (_, publishes, s) := loaderLoad m.name (now m) s
      let (rest, s) := loadAllLoop now ms s
      (publishes ++ rest, s)

/-- `loader_load_all`. -/
def loaderLoadAll (now : Module → UInt32) (s : Loader) : List (UInt8 × UInt32) × Loader :=
  loadAllLoop now moduleRegistry s

/-! ### Runs -/

inductive Act where
  | init
  | load (name : CStr) (res : Int)
  | unload (name : CStr) (res : Int)
  | loadAll

/-- The calls of the loader, when nothing else uses the plugin manager. -/
inductive Step : Loader → Act → Loader → Prop
  | init {s : Loader} : Step s .init (loaderInit s)
  | load {s : Loader} {name : CStr} {now : UInt32} :
      Step s (.load name (loaderLoad name now s).1) (loaderLoad name now s).2.2
  | unload {s : Loader} {name : CStr} : Step s (.unload name (loaderUnload name s).1) (loaderUnload name s).2
  | loadAll {s : Loader} {now : Module → UInt32} : Step s .loadAll (loaderLoadAll now s).2

end AuraOS.Modules
