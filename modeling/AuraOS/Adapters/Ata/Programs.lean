import AuraOS.Adapters.Ata.Defs
import AuraOS.Kernel.Io

/-!
# The ATA driver as a program

The functions of `adapters/ata.c` as programs that access ports, `ata_init` among them.  On a device that is
given by its streams the two transfers are the functions of the model above (`run_ataReadSectors`,
`run_ataWriteSectors`), so what is known about these holds for the programs.
-/

namespace AuraOS.Adapters.Ata

open AuraOS.Lib AuraOS.Kernel

abbrev ataCmdIdentify : UInt8 := 0xEC

namespace Program

/-! ### The functions -/

/-- A polling loop with `n` turns to go. -/
def pollLoop (verdict : UInt8 → Option AuraStatus) : ℕ → PortProg AuraStatus
  | 0 => pure .err
  | n + 1 => do
    let st ← Io.inb ataRegStatus
    match verdict st with
    | some r => pure r
    | none => pollLoop verdict n

/-- `ata_poll_bsy`. -/
def ataPollBsy : PortProg AuraStatus := pollLoop bsyVerdict pollTurns

/-- `ata_poll_drq`. -/
def ataPollDrq : PortProg AuraStatus := pollLoop drqVerdict pollTurns

/-- `ata_setup_lba`. -/
def ataSetupLba (lba : UInt32) (count : UInt8) : PortProg Unit := do
  Io.outb ataRegHdsel ((0xE0 : UInt32) ||| ((lba >>> 24) &&& 0x0F)).toUInt8
  Io.outb ataRegFeatures 0x00
  Io.outb ataRegSeccount count
  Io.outb ataRegLba0 (lba &&& 0xFF).toUInt8
  Io.outb ataRegLba1 ((lba >>> 8) &&& 0xFF).toUInt8
  Io.outb ataRegLba2 ((lba >>> 16) &&& 0xFF).toUInt8

/-- `n` words are read from the data port. -/
def readWords : ℕ → PortProg (List UInt16)
  | 0 => pure []
  | n + 1 => do
    let w ← Io.inw ataRegData
    let ws ← readWords n
    pure (w :: ws)

/-- The loop of `ataReadSectors` with `n` sectors to go. -/
def readLoop : ℕ → PortProg (AuraStatus × List UInt16)
  | 0 => pure (.ok, [])
  | n + 1 => do
    let r ← ataPollBsy
    if r ≠ .ok then pure (.err, [])
    else
      let r ← ataPollDrq
      if r ≠ .ok then pure (.err, [])
      else
        let ws ← readWords sectorWords
        let rest ← readLoop n
        pure (rest.1, ws ++ rest.2)

/-- `ata_read_sectors`. -/
def ataReadSectors (lba : UInt32) (count : UInt8) (buf : Bool) : PortProg (AuraStatus × List UInt16) :=
  if buf = false ∨ count = 0 then pure (.err, [])
  else do
    let r ← ataPollBsy
    if r ≠ .ok then pure (.err, [])
    else
      ataSetupLba lba count
      Io.outb ataRegCommand ataCmdReadPio
      readLoop count.toNat

/-- The `n` words `buf i`, `buf (i + 1)`, … are written to the data port. -/
def writeWords (buf : ℕ → UInt16) : ℕ → ℕ → PortProg Unit
  | 0, _ => pure ()
  | n + 1, i => do
    Io.outw ataRegData (buf i)
    writeWords buf n (i + 1)

/-- The loop of `ataWriteSectors` at word `i` of the buffer, with `n` sectors to go. -/
def writeLoop (buf : ℕ → UInt16) : ℕ → ℕ → PortProg AuraStatus
  | 0, _ => pure .ok
  | n + 1, i => do
    let r ← ataPollBsy
    if r ≠ .ok then pure .err
    else
      let r ← ataPollDrq
      if r ≠ .ok then pure .err
      else
        writeWords buf sectorWords i
        Io.outb ataRegCommand ataCmdFlush
        let r ← ataPollBsy
        if r ≠ .ok then pure .err else writeLoop buf n (i + sectorWords)

/-- `ata_write_sectors`. -/
def ataWriteSectors (lba : UInt32) (count : UInt8) (buf : Option (ℕ → UInt16)) : PortProg AuraStatus :=
  match buf with
  | none => pure .err
  | some buf =>
    if count = 0 then pure .err
    else do
      let r ← ataPollBsy
      if r ≠ .ok then pure .err
      else
        ataSetupLba lba count
        Io.outb ataRegCommand ataCmdWritePio
        writeLoop buf count.toNat 0

/-- `ata_init` behind its command. -/
def identified : PortProg AuraStatus := do
  let st ← Io.inb ataRegStatus
  if st = 0 then pure .err
  else
    let r ← ataPollBsy
    if r ≠ .ok then pure .err
    else
      let cl ← Io.inb ataRegLba1
      let ch ← Io.inb ataRegLba2
      if cl ≠ 0 ∨ ch ≠ 0 then pure .err
      else
        let r ← ataPollDrq
        if r ≠ .ok then pure .err
        else
          let _ ← readWords 256
          pure .ok

/-- `ata_init`. -/
def ataInit : PortProg AuraStatus := do
  Io.outb ataRegHdsel 0xA0
  Io.outb ataRegCommand ataCmdIdentify
  identified

end Program

/-! ### On a device that is given by its streams -/

/-- How the device answers an access, with the accesses so far. -/
def Device.answer (d : Device) (s : Port) : (q : PortQuery) → PortReply q × Port
  | .inb port =>
    (d.status s.statusReads,
      { s.add [.inb port (d.status s.statusReads)] with statusReads := s.statusReads + 1 })
  | .outb port value => ((), s.add [.outb port value])
  | .inw port =>
    (d.data s.dataReads, { s.add [.inw port (d.data s.dataReads)] with dataReads := s.dataReads + 1 })
  | .outw port value => ((), s.add [.outw port value])

section Streams

variable (d : Device)

@[simp] theorem run_inb (port : UInt16) (s : Port) :
    (Io.inb port).run d.answer s = d.answer s (.inb port) := rfl

@[simp] theorem run_inw (port : UInt16) (s : Port) :
    (Io.inw port).run d.answer s = d.answer s (.inw port) := rfl

@[simp] theorem run_outb (port : UInt16) (value : UInt8) (s : Port) :
    (Io.outb port value).run d.answer s = ((), outb port value s) := rfl

@[simp] theorem run_outw (port value : UInt16) (s : Port) :
    (Io.outw port value).run d.answer s = ((), s.add [.outw port value]) := rfl

theorem run_pollLoop (verdict : UInt8 → Option AuraStatus) (n : ℕ) (s : Port) :
    (Program.pollLoop verdict n).run d.answer s = pollLoop d verdict n s := by
  induction n generalizing s with
  | zero => rfl
  | succ n ih =>
    unfold Program.pollLoop pollLoop
    rw [Prog.run_bind, run_inb]
    dsimp only [Device.answer, inStatus]
    cases verdict (d.status s.statusReads) with
    | some r => rfl
    | none => exact ih _

@[simp] theorem run_ataPollBsy (s : Port) : Program.ataPollBsy.run d.answer s = ataPollBsy d s :=
  run_pollLoop d bsyVerdict pollTurns s

@[simp] theorem run_ataPollDrq (s : Port) : Program.ataPollDrq.run d.answer s = ataPollDrq d s :=
  run_pollLoop d drqVerdict pollTurns s

@[simp] theorem run_ataSetupLba (lba : UInt32) (count : UInt8) (s : Port) :
    (Program.ataSetupLba lba count).run d.answer s = ((), ataSetupLba lba count s) := rfl

@[simp] theorem run_readWords (n : ℕ) (s : Port) :
    (Program.readWords n).run d.answer s = readWords d n s := by
  induction n generalizing s with
  | zero => rfl
  | succ n ih =>
    unfold Program.readWords readWords
    rw [Prog.run_bind, run_inw, Prog.run_bind, ih]
    rfl

@[simp] theorem run_writeWords (buf : ℕ → UInt16) (n i : ℕ) (s : Port) :
    (Program.writeWords buf n i).run d.answer s = ((), writeWords buf n i s) := by
  induction n generalizing i s with
  | zero => rfl
  | succ n ih =>
    unfold Program.writeWords writeWords
    rw [Prog.run_bind, run_outw, ih]

theorem run_readLoop (n : ℕ) (s : Port) :
    (Program.readLoop n).run d.answer s =
      (((readLoop d n s).1, (readLoop d n s).2.1), (readLoop d n s).2.2) := by
  induction n generalizing s with
  | zero => rfl
  | succ n ih =>
    unfold Program.readLoop readLoop
    rw [Prog.run_bind, run_ataPollBsy]
    dsimp only
    split
    · rfl
    · rw [Prog.run_bind, run_ataPollDrq]
      split
      · rfl
      · rw [Prog.run_bind, run_readWords, Prog.run_bind, ih]
        rfl

/-- **Reading** on a device that is given by its streams. -/
theorem run_ataReadSectors (lba : UInt32) (count : UInt8) (buf : Bool) (s : Port) :
    (Program.ataReadSectors lba count buf).run d.answer s =
      (((ataReadSectors d lba count buf s).1, (ataReadSectors d lba count buf s).2.1),
        (ataReadSectors d lba count buf s).2.2) := by
  unfold Program.ataReadSectors ataReadSectors
  split
  · rfl
  · rw [Prog.run_bind, run_ataPollBsy]
    dsimp only
    split
    · rfl
    · rw [Prog.run_bind, run_ataSetupLba, Prog.run_bind, run_outb, run_readLoop]

theorem run_writeLoop (buf : ℕ → UInt16) (n i : ℕ) (s : Port) :
    (Program.writeLoop buf n i).run d.answer s = writeLoop d buf n i s := by
  induction n generalizing i s with
  | zero => rfl
  | succ n ih =>
    unfold Program.writeLoop writeLoop
    rw [Prog.run_bind, run_ataPollBsy]
    dsimp only
    split
    · rfl
    · rw [Prog.run_bind, run_ataPollDrq]
      split
      · rfl
      · rw [Prog.run_bind, run_writeWords, Prog.run_bind, run_outb, Prog.run_bind, run_ataPollBsy]
        split
        · rfl
        · exact ih _ _

/-- **Writing** on a device that is given by its streams. -/
theorem run_ataWriteSectors (lba : UInt32) (count : UInt8) (buf : Option (ℕ → UInt16)) (s : Port) :
    (Program.ataWriteSectors lba count buf).run d.answer s = ataWriteSectors d lba count buf s := by
  cases buf with
  | none => rfl
  | some buf =>
    unfold Program.ataWriteSectors ataWriteSectors
    dsimp only
    split
    · rfl
    · rw [Prog.run_bind, run_ataPollBsy]
      split
      · rfl
      · rw [Prog.run_bind, run_ataSetupLba, Prog.run_bind, run_outb, run_writeLoop]

end Streams

end AuraOS.Adapters.Ata
