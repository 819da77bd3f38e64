import AuraOS.Kernel.Io
import AuraOS.Kernel.Keyboard.Defs
import AuraOS.Kernel.Vga.Defs

/-!
# The serial adapter as a program

The functions of `adapters/adapter_serial.c` that access the port.  The loop that waits for the transmitter has
no bound in the source; here it gives up after `fuel` reads of the status.  A function of the screen driver is
carried out in two steps: its effects are those of the model of the driver, and `perform` accesses the ports for
them, with `serial_mirror_char` as the hook.
-/

namespace AuraOS.Adapters.Serial

open AuraOS.Lib AuraOS.Kernel AuraOS.Kernel.Vga AuraOS.Kernel.Keyboard

abbrev com1Port : UInt16 := 0x3F8
abbrev com1Data : UInt16 := com1Port + 0
abbrev com1Ier : UInt16 := com1Port + 1
abbrev com1Fcr : UInt16 := com1Port + 2
abbrev com1Lcr : UInt16 := com1Port + 3
abbrev com1Mcr : UInt16 := com1Port + 4
abbrev com1Lsr : UInt16 := com1Port + 5

/-- A program that accesses ports and may give up. -/
abbrev SpinProg : Type → Type := OptionT (Prog PortReply)

/-! ### The port -/

/-- `serial_open`. -/
def serialOpen : PortProg AuraStatus := do
  Io.outb com1Ier 0x00
  Io.outb com1Lcr 0x80
  Io.outb com1Data 0x03
  Io.outb com1Ier 0x00
  Io.outb com1Lcr 0x03
  Io.outb com1Fcr 0xC7
  Io.outb com1Mcr 0x0B
  pure .ok

/-- `serial_close`. -/
def serialClose : PortProg AuraStatus := do
  Io.outb com1Ier 0x00
  pure .ok

/-- `serial_tx_ready`. -/
def serialTxReady : PortProg UInt8 := do
  let st ← Io.inb com1Lsr
  pure (st &&& 0x20)

/-- `while (!serial_tx_ready()) {}`. -/
def spin : ℕ → SpinProg Unit
  | 0 => failure
  | n + 1 => do
    let r ← liftM serialTxReady
    if r = 0 then spin n else pure ()

/-- `serial_write`; its callers do not use the result. -/
def serialWrite (fuel : ℕ) : List UInt8 → SpinProg Unit
  | [] => pure ()
  | x :: buf => do
    spin fuel
    liftM (Io.outb com1Data x)
    serialWrite fuel buf

/-- `serial_rx_ready`. -/
def serialRxReady : PortProg UInt8 := do
  let st ← Io.inb com1Lsr
  pure (st &&& 0x01)

/-- `serial_read` with room for `len` bytes: the bytes that it stores. -/
def serialRead : ℕ → PortProg (List UInt8)
  | 0 => pure []
  | len + 1 => do
    let r ← serialRxReady
    if r = 0 then pure []
    else
      let x ← Io.inb com1Data
      let rest ← serialRead len
      pure (x :: rest)

/-! ### The screen on the line -/

/-- `serial_mirror_char`. -/
def serialMirrorChar (fuel : ℕ) (c : UInt8) : SpinProg Unit := do
  let b := c
  if c = 10 then serialWrite fuel [13]
  serialWrite fuel [b]

/-- The accesses to ports among the effects of the screen driver, and the calls of its hook. -/
def perform (fuel : ℕ) : List Vga.Effect → SpinProg Unit
  | [] => pure ()
  | .outb port value :: es => do
    liftM (Io.outb port value)
    perform fuel es
  | .hook c :: es => do
    serialMirrorChar fuel c
    perform fuel es
  | .read _ :: es | .write _ _ :: es => perform fuel es

/-- The call of a function `f` of the screen driver. -/
def onScreen (fuel : ℕ) (f : Screen → Screen) (s : Screen) : SpinProg Screen := do
  let t := f { s with effects := [] }
  perform fuel t.effects
  pure t

/-- `"AI Aura OS serial console ready\r\n"`. -/
def banner : List UInt8 :=
  bytes ['A', 'I', ' ', 'A', 'u', 'r', 'a', ' ', 'O', 'S', ' ', 's', 'e', 'r', 'i', 'a', 'l', ' ',
    'c', 'o', 'n', 's', 'o', 'l', 'e', ' ', 'r', 'e', 'a', 'd', 'y', '\r', '\n']

/-- `"[serial] COM1 adapter initialized."`. -/
def initMessage : CStr :=
  bytes ['[', 's', 'e', 'r', 'i', 'a', 'l', ']', ' ', 'C', 'O', 'M', '1', ' ', 'a', 'd', 'a', 'p', 't', 'e', 'r', ' ',
    'i', 'n', 'i', 't', 'i', 'a', 'l', 'i', 'z', 'e', 'd', '.']

/-- `serial_plugin_init`; the flag of the adapter is left out. -/
def serialPluginInit (fuel : ℕ) (s : Screen) : SpinProg (AuraStatus × Screen) := do
  let r ← liftM serialOpen
  if r = .ok then
    serialWrite fuel banner
    let s ← onScreen fuel (fun s => vgaPrintln (some initMessage) (vgaSetSerialHook true s)) s
    pure (r, s)
  else pure (r, s)

/-- `serial_plugin_shutdown`; the flag of the adapter is left out. -/
def serialPluginShutdown (s : Screen) : PortProg (AuraStatus × Screen) := do
  let _ ← serialClose
  pure (.ok, vgaSetSerialHook false s)

/-! ### The line as a keyboard -/

/-- The body of the loop of `serial_poll`. -/
def pushReceived (s : State) (x : UInt8) : State := keyboardPush (if x = 13 then 10 else x) s

/-- `serial_poll`. -/
def serialPoll (s : State) : PortProg State := do
  let buf ← serialRead 16
  pure (buf.foldl pushReceived s)

end AuraOS.Adapters.Serial
