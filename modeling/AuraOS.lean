import AuraOS.Lib.Buffer
import AuraOS.Lib.Device
import AuraOS.Lib.Search
import AuraOS.Lib.Count
import AuraOS.Lib.Assoc
import AuraOS.Lib.KeyValue
import AuraOS.Lib.Linked
import AuraOS.Lib.Memory
import AuraOS.Lib.Tiling
import AuraOS.Lib.Steps
import AuraOS.Lib.Loop
import AuraOS.Lib.Execution
import AuraOS.Lib.Ring
import AuraOS.Kernel.Core
import AuraOS.Kernel.Strings
import AuraOS.Env.Fat12.Defs
import AuraOS.Env.Fat12.Cells
import AuraOS.Env.Fat12.Directory
import AuraOS.Env.Fat12.Scan
import AuraOS.Env.Fat12.Write
import AuraOS.Env.Fat12.Layout
import AuraOS.Env.Fat12.Capacity
import AuraOS.Env.Fat12.Store
import AuraOS.Env.Fat12.Names83
import AuraOS.Env.Fat12.Frame
import AuraOS.Env.Fat12.Crash
import AuraOS.Env.Fat12.Attributes
import AuraOS.Env.Fat12.Atomic
import AuraOS.Env.Fat12.Consistency
import AuraOS.Env.Registry.Defs
import AuraOS.Env.Registry.Map
import AuraOS.Env.Registry.File
import AuraOS.Env.Registry.Parse
import AuraOS.Env.Registry.Outcome
import AuraOS.Env.Registry.Reboot
import AuraOS.Env.Registry.PowerLoss
import AuraOS.Env.Registry.Forgery
import AuraOS.Kernel.Memory.Defs
import AuraOS.Kernel.Memory.Headers
import AuraOS.Kernel.Memory.Alloc
import AuraOS.Kernel.Memory.Invariant
import AuraOS.Kernel.Memory.BlockList
import AuraOS.Kernel.Memory.FirstFit
import AuraOS.Kernel.Memory.Undo
import AuraOS.Kernel.Memory.Alignment
import AuraOS.Kernel.Memory.DoubleFree
import AuraOS.Kernel.Paging.Defs
import AuraOS.Kernel.Paging.Walk
import AuraOS.Kernel.EventBus.Defs
import AuraOS.Kernel.EventBus.Delivery
import AuraOS.Kernel.EventBus.Tracking
import AuraOS.Kernel.EventBus.Dispatch
import AuraOS.Kernel.EventBus.Termination
import AuraOS.Kernel.Scheduler.Defs
import AuraOS.Kernel.Scheduler.Removal
import AuraOS.Kernel.Scheduler.Accounting
import AuraOS.Kernel.Scheduler.Names
import AuraOS.Kernel.Scheduler.Cadence
import AuraOS.Kernel.Vga.Defs
import AuraOS.Kernel.Vga.Screen
import AuraOS.Kernel.Vga.Terminal
import AuraOS.Kernel.Vga.Cursor
import AuraOS.Kernel.Vga.Print
import AuraOS.Kernel.Vga.Printf
import AuraOS.Kernel.Mirror.Defs
import AuraOS.Kernel.Mirror.Integrity
import AuraOS.Kernel.Mirror.Restore
import AuraOS.Kernel.Mirror.Damage
import AuraOS.Kernel.Plugin.Defs
import AuraOS.Kernel.Plugin.Slots
import AuraOS.Kernel.Plugin.Table
import AuraOS.Kernel.Plugin.Lifecycle
import AuraOS.Kernel.Plugin.Rounds
import AuraOS.Kernel.Plugin.Isolation
import AuraOS.Modules.Loader.Defs
import AuraOS.Modules.Loader.Agreement
import AuraOS.Kernel.Keyboard.Defs
import AuraOS.Kernel.Keyboard.Interrupts
import AuraOS.Kernel.Keyboard.Reference
import AuraOS.Adapters.Ata.Defs
import AuraOS.Adapters.Ata.Discipline
import AuraOS.Adapters.Registration.Defs
import AuraOS.Adapters.Registration.Isolation
import AuraOS.Env.Vfs.Defs
import AuraOS.Env.Vfs.Contents
import AuraOS.Env.Vfs.Names
import AuraOS.Kernel.System.Defs
import AuraOS.Kernel.System.Tasks
import AuraOS.Kernel.System.Drain
import AuraOS.Kernel.System.Snapshots
import AuraOS.Kernel.System.Timetable
import AuraOS.Lib.Stack
import AuraOS.Lib.Interaction
import AuraOS.Kernel.Io
import AuraOS.Kernel.Interrupts.Trampoline
import AuraOS.Kernel.Interrupts.Pic
import AuraOS.Kernel.Interrupts.Delivery
import AuraOS.Kernel.Interrupts.Gates
import AuraOS.Kernel.Interrupts.Ticks
import AuraOS.Adapters.Ata.Programs
import AuraOS.Adapters.Ata.Drive
import AuraOS.Adapters.Ata.Transfer
import AuraOS.Adapters.Ata.Storage
import AuraOS.Adapters.Ata.Cut
import AuraOS.Kernel.Vga.Hook
import AuraOS.Adapters.Serial.Programs
import AuraOS.Adapters.Serial.Uart
import AuraOS.Adapters.Serial.Line
import AuraOS.Adapters.Serial.Console
import AuraOS.Adapters.Serial.Session
import AuraOS.Env.Fat12.Programs
import AuraOS.Env.Fat12.Api
import AuraOS.Env.Fat12.Ports
import AuraOS.Env.Fat12.PowerLoss
