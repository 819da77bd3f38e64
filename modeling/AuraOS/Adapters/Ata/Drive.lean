import AuraOS.Adapters.Ata.Programs
import AuraOS.Lib.Buffer

/-!
# A drive behind the ports

The protocol of an ATA drive for the commands that the driver gives, as a relation on the states of the drive.
After each command and each sector the drive is busy for some reads of its status, at most `delay` of them.  It
ignores the registers and the commands that are written while it is busy or in the middle of a transfer, and while
it is busy the status shows nothing else.  A sector may be refused before its data is transferred; a sector that
is written may also be lost behind it, which the drive reports when it is no longer busy.
-/

namespace AuraOS.Adapters.Ata

open AuraOS.Lib AuraOS.Kernel

/-- The status bit of a drive that is ready. -/
abbrev ataSrRdy : UInt8 := 0x40

/-! ### Sectors and words -/

/-- The bytes of a sector. -/
abbrev Sector := Buf 512

/-- Word `i` of a sector. -/
def word (sec : Sector) (i : ℕ) : UInt16 := le16 (sec.rd (2 * i)) (sec.rd (2 * i + 1))

/-- The words of a sector. -/
def words (sec : Sector) : List UInt16 := (List.range sectorWords).map (word sec)

/-- The sector with the words `w 0`, `w 1`, …. -/
def ofWords (w : ℕ → UInt16) : Sector := .tab 512 fun i => byte (w (i / 2)).toNat (i % 2)

theorem ofWords_congr {w w' : ℕ → UInt16} (h : ∀ i < sectorWords, w i = w' i) : ofWords w = ofWords w' := by
  refine Buf.tab_congr fun i hi => ?_
  rw [h (i / 2) (show i / 2 < 256 by omega)]

theorem ofWords_word (sec : Sector) : ofWords (word sec) = sec := by
  refine Buf.ext_rd fun i hi => ?_
  unfold ofWords
  rw [Buf.rd_tab _ hi]
  apply UInt8.toNat.inj
  unfold word le16
  rw [toNat_byte, UInt16.toNat_ofNat']
  obtain ⟨j, rfl | rfl⟩ : ∃ j, i = 2 * j ∨ i = 2 * j + 1 := ⟨i / 2, by omega⟩
  · have hlo : (sec.rd (2 * j)).toNat < 256 := (sec.rd _).toNat_lt
    have hhi : (sec.rd (2 * j + 1)).toNat < 256 := (sec.rd _).toNat_lt
    rw [show 2 * j / 2 = j by omega, show 2 * j % 2 = 0 by omega]
    omega
  · have hlo : (sec.rd (2 * j)).toNat < 256 := (sec.rd _).toNat_lt
    have hhi : (sec.rd (2 * j + 1)).toNat < 256 := (sec.rd _).toNat_lt
    rw [show (2 * j + 1) / 2 = j by omega, show (2 * j + 1) % 2 = 1 by omega]
    omega

theorem ofWords_words (sec : Sector) : (ofWords fun i => (words sec).getD i 0) = sec := by
  refine (ofWords_congr fun i hi => ?_).trans (ofWords_word sec)
  unfold words
  rw [List.getD_eq_getElem?_getD, List.getElem?_map, List.getElem?_range hi]
  rfl

/-! ### The drive -/

/-- What the drive does: sector `lba` is transferred, with `left` sectors to go. -/
inductive Phase where
  | idle
  | identify (i : ℕ)
  | reading (lba left i : ℕ)
  | writing (lba left : ℕ) (got : List UInt16)
  deriving DecidableEq

/-- The state of a drive: `ops` counts the sectors of all commands, and `wait` the reads of the status that still
show `BSY`. -/
structure Drive where
  disk : ℕ → Sector
  ops : ℕ
  wait : ℕ
  err : Bool
  phase : Phase
  hdsel : UInt8
  seccount : UInt8
  lba0 : UInt8
  lba1 : UInt8
  lba2 : UInt8

/-- A kind of drive: how long it may be busy, and which sectors it refuses and which it loses, by their number
and their address. -/
structure Behaviour where
  delay : ℕ
  refuse : ℕ → ℕ → Bool
  lose : ℕ → ℕ → Bool

namespace Drive

/-- Registers and commands are accepted. -/
def accepts (v : Drive) : Prop := v.wait = 0 ∧ v.phase = .idle

instance (v : Drive) : Decidable v.accepts := by unfold accepts; infer_instance

/-- The address in the registers. -/
def addr (v : Drive) : ℕ :=
  v.lba0.toNat + 2 ^ 8 * v.lba1.toNat + 2 ^ 16 * v.lba2.toNat + 2 ^ 24 * (v.hdsel.toNat % 16)

/-- The number of sectors in the register; 0 stands for 256. -/
def count (v : Drive) : ℕ := if v.seccount = 0 then 256 else v.seccount.toNat

/-- A register is written. -/
def setReg (v : Drive) (port : UInt16) (x : UInt8) : Drive :=
  if port = ataRegHdsel then { v with hdsel := x }
  else if port = ataRegSeccount then { v with seccount := x }
  else if port = ataRegLba0 then { v with lba0 := x }
  else if port = ataRegLba1 then { v with lba1 := x }
  else if port = ataRegLba2 then { v with lba2 := x }
  else v

variable (b : Behaviour)

/-- The drive turns to the sector `lba`, and then to the phase `next` unless it refuses the sector. -/
def turn (next : Phase) (lba : ℕ) (v : Drive) : Drive :=
  if b.refuse v.ops lba then { v with ops := v.ops + 1, err := true, phase := .idle }
  else { v with ops := v.ops + 1, phase := next }

/-- A command is accepted. -/
def command (cmd : UInt8) (v : Drive) : Drive :=
  if cmd = ataCmdReadPio then turn b (.reading v.addr v.count 0) v.addr { v with err := false }
  else if cmd = ataCmdWritePio then turn b (.writing v.addr v.count []) v.addr { v with err := false }
  else if cmd = ataCmdIdentify then { v with err := false, phase := .identify 0 }
  else if cmd = ataCmdFlush then { v with err := false }
  else { v with err := true }

/-- The sector `lba` was read, with `left` sectors to go. -/
def endRead (lba left : ℕ) (v : Drive) : Drive :=
  if left ≤ 1 then { v with phase := .idle } else turn b (.reading (lba + 1) (left - 1) 0) (lba + 1) v

/-- The words of the sector `lba` were received, with `left` sectors to go; the sector has the number before `ops`. -/
def endWrite (lba left : ℕ) (got : List UInt16) (v : Drive) : Drive :=
  if b.lose (v.ops - 1) lba then { v with err := true, phase := .idle }
  else
    let v := { v with disk := Function.update v.disk lba (ofWords fun i => got.getD i 0) }
    if left ≤ 1 then { v with phase := .idle } else turn b (.writing (lba + 1) (left - 1) []) (lba + 1) v

/-- What the status may show. -/
def Shows (v : Drive) (st : UInt8) : Prop :=
  if v.wait = 0 then
    st &&& ataSrBsy = 0 ∧ st &&& ataSrRdy ≠ 0 ∧ (st &&& ataSrDrq ≠ 0 ↔ v.phase ≠ .idle) ∧
      (st &&& ataSrErr ≠ 0 ∨ st &&& ataSrDf ≠ 0 ↔ v.err)
  else st &&& ataSrBsy ≠ 0

/-- The drive may be busy again: `v'` is `v` with some reads to wait. -/
def Busy (v v' : Drive) : Prop := ∃ w ≤ b.delay, v' = { v with wait := w }

/-- A byte is read. -/
def InbStep (v : Drive) (port : UInt16) (r : UInt8) (v' : Drive) : Prop :=
  if port = ataRegStatus then v.Shows r ∧ v' = { v with wait := v.wait - 1 }
  else (port = ataRegLba1 → r = v.lba1) ∧ (port = ataRegLba2 → r = v.lba2) ∧ v' = v

/-- A byte is written. -/
def OutbStep (v : Drive) (port : UInt16) (x : UInt8) (v' : Drive) : Prop :=
  if v.accepts then
    if port = ataRegCommand then Busy b (v.command b x) v' else v' = v.setReg port x
  else v' = v

/-- A word is read. -/
def InwStep (v : Drive) (port : UInt16) (r : UInt16) (v' : Drive) : Prop :=
  if port = ataRegData ∧ v.wait = 0 then
    match v.phase with
    | .reading lba left i =>
      r = word (v.disk lba) i ∧
        if i + 1 < sectorWords then v' = { v with phase := .reading lba left (i + 1) }
        else Busy b (v.endRead b lba left) v'
    | .identify i => v' = { v with phase := if i + 1 < sectorWords then .identify (i + 1) else .idle }
    | _ => v' = v
  else v' = v

/-- A word is written. -/
def OutwStep (v : Drive) (port : UInt16) (x : UInt16) (v' : Drive) : Prop :=
  if port = ataRegData ∧ v.wait = 0 then
    match v.phase with
    | .writing lba left got =>
      if got.length + 1 < sectorWords then v' = { v with phase := .writing lba left (got ++ [x]) }
      else Busy b (v.endWrite b lba left (got ++ [x])) v'
    | _ => v' = v
  else v' = v

/-- **The protocol**: how the drive may answer an access. -/
def Step (v : Drive) : (q : PortQuery) → PortReply q → Drive → Prop
  | .inb port, r, v' => InbStep v port r v'
  | .outb port x, _, v' => OutbStep b v port x v'
  | .inw port, r, v' => InwStep b v port r v'
  | .outw port x, _, v' => OutwStep b v port x v'

/-- The drive is between two commands. -/
structure Rest (v : Drive) : Prop where
  phase : v.phase = .idle
  wait : v.wait ≤ b.delay

end Drive

/-- A drive with blank sectors that is still busy for two reads of its status. -/
def blankDrive : Drive where
  disk := fun _ => .tab 512 fun _ => 0
  ops := 0
  wait := 2
  err := false
  phase := .idle
  hdsel := 0
  seccount := 0
  lba0 := 0
  lba1 := 0
  lba2 := 0

/-- A behaviour that refuses nothing and loses the sectors with the numbers of a list. -/
def Behaviour.losing (os : List ℕ) : Behaviour := ⟨3, fun _ _ => false, fun o _ => decide (o ∈ os)⟩

end AuraOS.Adapters.Ata
