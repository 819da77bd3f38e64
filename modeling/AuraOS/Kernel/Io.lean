import AuraOS.Lib.Interaction
import Mathlib.Data.Nat.Notation

/-!
# Port input and output

The accesses of `kernel/io.h`, as the queries of a program.
-/

namespace AuraOS.Kernel

open AuraOS.Lib

/-- An access to a port. -/
inductive PortQuery where
  | inb (port : UInt16)
  | outb (port : UInt16) (value : UInt8)
  | inw (port : UInt16)
  | outw (port : UInt16) (value : UInt16)

/-- What the access returns. -/
abbrev PortReply : PortQuery → Type
  | .inb _ => UInt8
  | .outb _ _ => Unit
  | .inw _ => UInt16
  | .outw _ _ => Unit

/-- A program that accesses ports. -/
abbrev PortProg (α : Type) : Type := Prog PortReply α

namespace Io

/-- `inb`. -/
def inb (port : UInt16) : PortProg UInt8 := Prog.query (PortQuery.inb port)

/-- `outb`. -/
def outb (port : UInt16) (value : UInt8) : PortProg Unit := Prog.query (PortQuery.outb port value)

/-- `inw`. -/
def inw (port : UInt16) : PortProg UInt16 := Prog.query (PortQuery.inw port)

/-- `outw`. -/
def outw (port : UInt16) (value : UInt16) : PortProg Unit := Prog.query (PortQuery.outw port value)

/-- `io_wait`. -/
def ioWait : PortProg Unit := outb 0x80 0x00

end Io

end AuraOS.Kernel
