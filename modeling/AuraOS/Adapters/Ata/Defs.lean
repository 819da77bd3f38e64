import AuraOS.Kernel.Core
import AuraOS.Lib.Search

/-!
# The ATA driver

The sector functions of `adapters/ata.c`, with the accesses to the ports as their effect.  A device is given
by the bytes that it returns from the status register and the words that it returns from the data port, each
in the order of the reads; every sequence of status bytes is one of a device.
-/

namespace AuraOS.Adapters.Ata

open AuraOS.Lib AuraOS.Kernel

abbrev ataRegData : UInt16 := 0x1F0
abbrev ataRegFeatures : UInt16 := 0x1F1
abbrev ataRegSeccount : UInt16 := 0x1F2
abbrev ataRegLba0 : UInt16 := 0x1F3
abbrev ataRegLba1 : UInt16 := 0x1F4
abbrev ataRegLba2 : UInt16 := 0x1F5
abbrev ataRegHdsel : UInt16 := 0x1F6
abbrev ataRegStatus : UInt16 := 0x1F7
abbrev ataRegCommand : UInt16 := 0x1F7

abbrev ataSrErr : UInt8 := 0x01
abbrev ataSrDrq : UInt8 := 0x08
abbrev ataSrDf : UInt8 := 0x20
abbrev ataSrBsy : UInt8 := 0x80

abbrev ataCmdReadPio : UInt8 := 0x20
abbrev ataCmdWritePio : UInt8 := 0x30

/-- `FLUSH CACHE`. -/
abbrev ataCmdFlush : UInt8 := 0xE7

/-- The words of a sector. -/
abbrev sectorWords : ℕ := 256

/-- The turns of the polling loops. -/
abbrev pollTurns : ℕ := 0x100000

/-- An access to a port, with the value that is read or written. -/
inductive PortOp where
  | inb (port : UInt16) (value : UInt8)
  | outb (port : UInt16) (value : UInt8)
  | inw (port : UInt16) (value : UInt16)
  | outw (port : UInt16) (value : UInt16)
  deriving DecidableEq, Repr

/-- What the device returns. -/
structure Device where
  status : ℕ → UInt8
  data : ℕ → UInt16

/-- The numbers of the reads so far, and the accesses in their order. -/
structure Port where
  statusReads : ℕ
  dataReads : ℕ
  trace : List PortOp

/-- Before the first access. -/
def Port.start : Port := ⟨0, 0, []⟩

/-- The accesses `ops` follow. -/
def Port.add (s : Port) (ops : List PortOp) : Port := { s with trace := s.trace ++ ops }

/-- `outb`. -/
def outb (port : UInt16) (value : UInt8) (s : Port) : Port := s.add [.outb port value]

/-! ### Polling -/

section Polling

variable (d : Device)

/-- `inb(ATA_REG_STATUS)`. -/
def inStatus (s : Port) : UInt8 × Port :=
  let st := d.status s.statusReads
  (st, { s.add [.inb ataRegStatus st] with statusReads := s.statusReads + 1 })

/-- A polling loop with `n` turns to go: it reads the status until `verdict` is a result. -/
def pollLoop (verdict : UInt8 → Option AuraStatus) : ℕ → Port → AuraStatus × Port
  | 0, s => (.err, s)
  | n + 1, s =>
    let (st, s) := inStatus d s
    match verdict st with
    | some r => (r, s)
    | none => pollLoop verdict n s

/-- The test of `ataPollBsy`. -/
def bsyVerdict (st : UInt8) : Option AuraStatus := if st &&& ataSrBsy = 0 then some .ok else none

/-- The tests of `ataPollDrq`. -/
def drqVerdict (st : UInt8) : Option AuraStatus :=
  if st &&& ataSrErr ≠ 0 then some .err
  else if st &&& ataSrDf ≠ 0 then some .err
  else if st &&& ataSrDrq ≠ 0 then some .ok
  else none

/-- `ata_poll_bsy`. -/
def ataPollBsy : Port → AuraStatus × Port := pollLoop d bsyVerdict pollTurns

/-- `ata_poll_drq`. -/
def ataPollDrq : Port → AuraStatus × Port := pollLoop d drqVerdict pollTurns

end Polling

/-- `ata_setup_lba`. -/
def ataSetupLba (lba : UInt32) (count : UInt8) (s : Port) : Port :=
  let s := outb ataRegHdsel ((0xE0 : UInt32) ||| ((lba >>> 24) &&& 0x0F)).toUInt8 s
  let s := outb ataRegFeatures 0x00 s
  let s := outb ataRegSeccount count s
  let s := outb ataRegLba0 (lba &&& 0xFF).toUInt8 s
  let s := outb ataRegLba1 ((lba >>> 8) &&& 0xFF).toUInt8 s
  outb ataRegLba2 ((lba >>> 16) &&& 0xFF).toUInt8 s

/-! ### Reading -/

/-- `n` words are read from the data port. -/
def readWords (d : Device) : ℕ → Port → List UInt16 × Port
  | 0, s => ([], s)
  | n + 1, s =>
    let w := d.data s.dataReads
    let (ws, s) := readWords d n { s.add [.inw ataRegData w] with dataReads := s.dataReads + 1 }
    (w :: ws, s)

/-- The loop of `ataReadSectors` with `n` sectors to go: the result, and the words that it stores. -/
def readLoop (d : Device) : ℕ → Port → AuraStatus × List UInt16 × Port
  | 0, s => (.ok, [], s)
  | n + 1, s =>
    let bsy := ataPollBsy d s
    if bsy.1 ≠ .ok then (.err, [], bsy.2)
    else
      let drq := ataPollDrq d bsy.2
      if drq.1 ≠ .ok then (.err, [], drq.2)
      else
        let (ws, s) := readWords d sectorWords drq.2
        let (r, rest, s) := readLoop d n s
        (r, ws ++ rest, s)

/-- `ata_read_sectors`; `buf` says that the buffer is not null, and the list is what it receives. -/
def ataReadSectors (d : Device) (lba : UInt32) (count : UInt8) (buf : Bool) (s : Port) :
    AuraStatus × List UInt16 × Port :=
  if buf = false ∨ count = 0 then (.err, [], s)
  else
    let (r, s) := ataPollBsy d s
    if r ≠ .ok then (.err, [], s)
    else readLoop d count.toNat (outb ataRegCommand ataCmdReadPio (ataSetupLba lba count s))

/-! ### Writing -/

/-- The `n` words `buf i`, `buf (i + 1)`, … are written to the data port. -/
def writeWords (buf : ℕ → UInt16) : ℕ → ℕ → Port → Port
  | 0, _, s => s
  | n + 1, i, s => writeWords buf n (i + 1) (s.add [.outw ataRegData (buf i)])

/-- The loop of `ataWriteSectors` at word `i` of the buffer, with `n` sectors to go. -/
def writeLoop (d : Device) (buf : ℕ → UInt16) : ℕ → ℕ → Port → AuraStatus × Port
  | 0, _, s => (.ok, s)
  | n + 1, i, s =>
    let bsy := ataPollBsy d s
    if bsy.1 ≠ .ok then (.err, bsy.2)
    else
      let drq := ataPollDrq d bsy.2
      if drq.1 ≠ .ok then (.err, drq.2)
      else
        -- the flush command follows the last word at once
        let flushed := ataPollBsy d (outb ataRegCommand ataCmdFlush (writeWords buf sectorWords i drq.2))
        if flushed.1 ≠ .ok then (.err, flushed.2) else writeLoop d buf n (i + sectorWords) flushed.2

/-- `ata_write_sectors`; `buf` are the words of the buffer, `none` for a null pointer. -/
def ataWriteSectors (d : Device) (lba : UInt32) (count : UInt8) (buf : Option (ℕ → UInt16)) (s : Port) :
    AuraStatus × Port :=
  match buf with
  | none => (.err, s)
  | some buf =>
    if count = 0 then (.err, s)
    else
      let (r, s) := ataPollBsy d s
      if r ≠ .ok then (.err, s)
      else writeLoop d buf count.toNat 0 (outb ataRegCommand ataCmdWritePio (ataSetupLba lba count s))

end AuraOS.Adapters.Ata
