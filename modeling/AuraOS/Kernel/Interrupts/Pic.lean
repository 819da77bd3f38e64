import AuraOS.Kernel.Io
import Mathlib.Logic.Function.Basic

/-!
# The interrupt controllers

A pair of 8259A controllers, the second one on line 2 of the first, and the functions of `kernel/idt.c` and
`kernel/pit.c` that program them.  Requests are latched edges, and a controller holds back all that are not more
urgent than what is in service.  Of the commands there are the initialisation and the unspecific end of interrupt;
rotating priorities, the special modes, automatic end of interrupt and the registers that can be read back are left
out.
-/

namespace AuraOS.Kernel.Interrupts

open AuraOS.Lib AuraOS.Kernel

abbrev irqBase : UInt8 := 0x20
abbrev irqTimer : UInt8 := 0
abbrev irqKeyboard : UInt8 := 1
abbrev pic1Cmd : UInt16 := 0x20
abbrev pic1Data : UInt16 := 0x21
abbrev pic2Cmd : UInt16 := 0xA0
abbrev pic2Data : UInt16 := 0xA1
abbrev picEoi : UInt8 := 0x20
abbrev picIcw1Init : UInt8 := 0x11
abbrev picIcw48086 : UInt8 := 0x01

/-! ### The functions -/

namespace Program

/-- `pic_remap`. -/
def picRemap : PortProg Unit := do
  let m1 ← Io.inb pic1Data
  let m2 ← Io.inb pic2Data
  Io.outb pic1Cmd picIcw1Init
  Io.ioWait
  Io.outb pic2Cmd picIcw1Init
  Io.ioWait
  Io.outb pic1Data irqBase
  Io.ioWait
  Io.outb pic2Data (irqBase + 8)
  Io.ioWait
  Io.outb pic1Data 0x04
  Io.ioWait
  Io.outb pic2Data 0x02
  Io.ioWait
  Io.outb pic1Data picIcw48086
  Io.ioWait
  Io.outb pic2Data picIcw48086
  Io.ioWait
  Io.outb pic1Data m1
  Io.outb pic2Data m2

/-- `idt_init`, the accesses to ports. -/
def idtInit : PortProg Unit := do
  picRemap
  Io.outb pic1Data 0xFF
  Io.outb pic2Data 0xFF

/-- `irq_send_eoi`. -/
def irqSendEoi (irq : UInt8) : PortProg Unit := do
  if irq ≥ 8 then Io.outb pic2Cmd picEoi
  Io.outb pic1Cmd picEoi

/-- The port and the bit of a line. -/
def maskBit (irq : UInt8) : UInt16 × UInt8 := if irq < 8 then (pic1Data, irq) else (pic2Data, irq - 8)

/-- `irq_mask`. -/
def irqMask (irq : UInt8) : PortProg Unit := do
  let (port, bit) := maskBit irq
  let m ← Io.inb port
  Io.outb port (m.toUInt32 ||| 1 <<< bit.toUInt32).toUInt8

/-- `irq_unmask`. -/
def irqUnmask (irq : UInt8) : PortProg Unit := do
  let (port, bit) := maskBit irq
  let m ← Io.inb port
  Io.outb port (m.toUInt32 &&& ~~~(1 <<< bit.toUInt32)).toUInt8

end Program

/-! ### The controllers -/

/-- What the next byte of data is. -/
inductive Phase where
  | icw2 | icw3 | icw4 | mask
  deriving DecidableEq

/-- A controller: its first vector, its mask, and the lines with a request and in service. -/
structure Pic where
  phase : Phase
  icw1 : UInt8
  base : UInt8
  cascade : UInt8
  icw4 : UInt8
  imr : UInt8
  irr : ℕ → Bool
  isr : ℕ → Bool

namespace Pic

variable (p : Pic)

/-- What follows `ICW3`, or `ICW2` of a single controller. -/
def afterIcw3 : Phase := if p.icw1 &&& 0x01 ≠ 0 then .icw4 else .mask

/-- The most urgent line in service is done. -/
def endOfInterrupt : Pic :=
  { p with isr := fun i => p.isr i && (List.range i).any p.isr }

/-- A command: `ICW1`, or the end of an interrupt. -/
def writeCmd (x : UInt8) : Pic :=
  if x &&& 0x10 ≠ 0 then
    { p with
      phase := .icw2
      icw1 := x
      icw4 := 0
      imr := 0
      irr := fun _ => false
      isr := fun _ => false }
  else if x = picEoi then p.endOfInterrupt
  else p

/-- A byte of data. -/
def writeData (x : UInt8) : Pic :=
  match p.phase with
  | .icw2 => { p with base := x &&& 0xF8, phase := if p.icw1 &&& 0x02 = 0 then .icw3 else p.afterIcw3 }
  | .icw3 => { p with cascade := x, phase := p.afterIcw3 }
  | .icw4 => { p with icw4 := x, phase := .mask }
  | .mask => { p with imr := x }

/-- The line is masked. -/
def masked (i : ℕ) : Bool := p.imr.toBitVec.getLsbD i

/-- There is a request on line `i` that is not masked. -/
def waits (i : ℕ) : Bool := p.irr i && !p.masked i

/-- The controller requests an interrupt for line `i`. -/
def Requests (i : ℕ) : Prop :=
  i < 8 ∧ p.waits i = true ∧ (∀ j < i, p.waits j = false) ∧ ∀ j < i + 1, p.isr j = false

instance (i : ℕ) : Decidable (p.Requests i) := inferInstanceAs (Decidable (_ ∧ _))

/-- A request on line `i`. -/
def raise (i : ℕ) : Pic := { p with irr := Function.update p.irr i true }

/-- Line `i` comes into service. -/
def acknowledge (i : ℕ) : Pic :=
  { p with irr := Function.update p.irr i false, isr := Function.update p.isr i true }

end Pic

/-- Both controllers. -/
structure Pair where
  master : Pic
  slave : Pic

namespace Pair

variable (p : Pair)

/-- How the controllers answer an access. -/
def answer : (q : PortQuery) → PortReply q × Pair
  | .inb port => (if port = pic1Data then p.master.imr else if port = pic2Data then p.slave.imr else 0, p)
  | .outb port x =>
    ((),
      if port = pic1Cmd then { p with master := p.master.writeCmd x }
      else if port = pic1Data then { p with master := p.master.writeData x }
      else if port = pic2Cmd then { p with slave := p.slave.writeCmd x }
      else if port = pic2Data then { p with slave := p.slave.writeData x }
      else p)
  | .inw _ => (0, p)
  | .outw _ _ => ((), p)

/-- The controllers after a program. -/
def after (prog : PortProg Unit) : Pair := (prog.run answer p).2

/-- The first controller, with the request of the second one on its line 2. -/
def wired : Pic :=
  { p.master with irr := Function.update p.master.irr 2 ((List.range 8).any fun j => p.slave.Requests j) }

/-- The pair requests an interrupt for line `n`. -/
def Requests (n : ℕ) : Prop :=
  if n < 8 then n ≠ 2 ∧ p.wired.Requests n else p.wired.Requests 2 ∧ p.slave.Requests (n - 8)

instance (n : ℕ) : Decidable (p.Requests n) := by unfold Requests; infer_instance

/-- A request on line `n`. -/
def raise (n : ℕ) : Pair :=
  if n < 8 then { p with master := p.master.raise n } else { p with slave := p.slave.raise (n - 8) }

/-- There is a request on line `n`. -/
def pending (n : ℕ) : Bool := if n < 8 then p.master.irr n else p.slave.irr (n - 8)

/-- Line `n` is masked. -/
def masked (n : ℕ) : Bool := if n < 8 then p.master.masked n else p.slave.masked (n - 8)

/-- The processor takes the interrupt of line `n`. -/
def acknowledge (n : ℕ) : Pair :=
  if n < 8 then { p with master := p.master.acknowledge n }
  else ⟨p.master.acknowledge 2, p.slave.acknowledge (n - 8)⟩

/-- The vector that it is given. -/
def vector (n : ℕ) : UInt8 := if n < 8 then p.master.base + .ofNat n else p.slave.base + .ofNat (n - 8)

end Pair

/-! ### What the functions do -/

section Functions

variable {p : Pair}

/-- A controller after its four command words, and with all lines masked. -/
def initialised (base cascade : UInt8) : Pic :=
  ⟨.mask, picIcw1Init, base, cascade, picIcw48086, 0xFF, fun _ => false, fun _ => false⟩

theorem initialised_eq (c : Pic) (base cascade m : UInt8) :
    (((((c.writeCmd picIcw1Init).writeData base).writeData cascade).writeData picIcw48086).writeData m).writeData 0xFF =
      initialised (base &&& 0xF8) cascade := by
  have hinit : c.writeCmd picIcw1Init =
      ⟨.icw2, picIcw1Init, c.base, c.cascade, 0, 0, fun _ => false, fun _ => false⟩ := if_pos (by decide)
  have hcascade : picIcw1Init &&& 0x02 = 0 := by decide
  have hicw4 : picIcw1Init &&& 0x01 ≠ 0 := by decide
  rw [hinit]
  simp [Pic.writeData, Pic.afterIcw3, hcascade, hicw4, initialised]

/-- **`idt_init`** programs controllers in any state: the first vector of the lines 0 to 7 is 32, and that of the
lines 8 to 15 is 40. -/
theorem after_idtInit (p : Pair) : p.after Program.idtInit = ⟨initialised 0x20 0x04, initialised 0x28 0x02⟩ := by
  rw [show (0x20 : UInt8) = 0x20 &&& 0xF8 by decide, show (0x28 : UInt8) = 0x28 &&& 0xF8 by decide,
    ← initialised_eq p.master 0x20 0x04 p.master.imr, ← initialised_eq p.slave 0x28 0x02 p.slave.imr]
  rfl

theorem writeCmd_picEoi (c : Pic) : c.writeCmd picEoi = c.endOfInterrupt := by
  unfold Pic.writeCmd
  rw [if_neg (by decide), if_pos rfl]

/-- **`irq_send_eoi`** of a line of the second controller ends the interrupt in both. -/
theorem after_irqSendEoi (irq : UInt8) : p.after (Program.irqSendEoi irq) =
    ⟨p.master.endOfInterrupt, if irq ≥ 8 then p.slave.endOfInterrupt else p.slave⟩ := by
  rw [← writeCmd_picEoi, ← writeCmd_picEoi]
  unfold Pair.after Program.irqSendEoi
  split
  · rfl
  · rfl

theorem writeData_of_mask {c : Pic} (h : c.phase = .mask) (x : UInt8) : c.writeData x = { c with imr := x } := by
  obtain ⟨phase, icw1, base, cascade, icw4, imr, irr, isr⟩ := c
  obtain rfl : phase = .mask := h
  rfl

/-- The mask of the controller of line `n` becomes `f` of it. -/
def Pair.remask (f : UInt8 → UInt8) (n : ℕ) (p : Pair) : Pair :=
  if n < 8 then { p with master := { p.master with imr := f p.master.imr } }
  else { p with slave := { p.slave with imr := f p.slave.imr } }

theorem after_mask (f : UInt8 → UInt8) {n : ℕ} (hn : n < 16) (hm : p.master.phase = .mask)
    (hs : p.slave.phase = .mask) : p.after (do
      let m ← Io.inb (Program.maskBit (.ofNat n)).1
      Io.outb (Program.maskBit (.ofNat n)).1 (f m)) = p.remask f n := by
  have hbit : UInt8.ofNat n < 8 ↔ n < 8 := by
    rw [UInt8.lt_iff_toNat_lt, UInt8.toNat_ofNat', Nat.mod_eq_of_lt (show n < 2 ^ 8 by omega)]
    rfl
  unfold Program.maskBit Pair.remask
  by_cases h : n < 8
  · rw [if_pos (hbit.2 h), if_pos h]
    change ({ p with master := p.master.writeData (f p.master.imr) } : Pair) = _
    rw [writeData_of_mask hm]
  · rw [if_neg fun h' => h (hbit.1 h'), if_neg h]
    change ({ p with slave := p.slave.writeData (f p.slave.imr) } : Pair) = _
    rw [writeData_of_mask hs]

/-! ### Bits of the masks -/

/-- `irq_mask` writes the mask with one more bit. -/
def withBit (b : UInt8) (m : UInt8) : UInt8 := (m.toUInt32 ||| 1 <<< b.toUInt32).toUInt8

/-- `irq_unmask` writes it with one bit less. -/
def withoutBit (b : UInt8) (m : UInt8) : UInt8 := (m.toUInt32 &&& ~~~(1 <<< b.toUInt32)).toUInt8

theorem getLsbD_withBit (m : UInt8) {b i : ℕ} (hb : b < 8) (hi : i < 8) :
    (withBit (.ofNat b) m).toBitVec.getLsbD i = (m.toBitVec.getLsbD i || decide (i = b)) := by
  unfold withBit
  simp [UInt32.toBitVec_shiftLeft, hi, BitVec.shiftLeft_eq']
  congr 1
  rw [Bool.eq_iff_iff]
  simp
  omega

theorem getLsbD_withoutBit (m : UInt8) {b i : ℕ} (hb : b < 8) (hi : i < 8) :
    (withoutBit (.ofNat b) m).toBitVec.getLsbD i = (m.toBitVec.getLsbD i && !decide (i = b)) := by
  unfold withoutBit
  simp [UInt32.toBitVec_shiftLeft, hi, BitVec.shiftLeft_eq']
  congr 1
  rw [Bool.eq_iff_iff]
  simp
  omega

/-- The bit of a line in its controller. -/
theorem maskBit_snd : ∀ n < 16, (Program.maskBit (.ofNat n)).2 = .ofNat (if n < 8 then n else n - 8) := by decide

/-- A mask with one bit changed. -/
theorem masked_remask {f : UInt8 → UInt8} {v : Bool} {n i : ℕ} (hn : n < 16) (hi : i < 16)
    (hf : ∀ m : UInt8, ∀ j < 8, (f m).toBitVec.getLsbD j =
      if j = (if n < 8 then n else n - 8) then v else m.toBitVec.getLsbD j) :
    (p.remask f n).masked i = Function.update p.masked n v i := by
  rw [Function.update_apply]
  unfold Pair.remask Pair.masked Pic.masked
  by_cases hn8 : n < 8
  · rw [if_pos hn8] at hf ⊢
    by_cases hi8 : i < 8
    · rw [if_pos hi8, if_pos hi8]
      exact hf _ i hi8
    · rw [if_neg hi8, if_neg hi8, if_neg (by omega)]
  · rw [if_neg hn8] at hf ⊢
    by_cases hi8 : i < 8
    · rw [if_pos hi8, if_pos hi8, if_neg (by omega)]
    · rw [if_neg hi8, if_neg hi8]
      refine (hf _ (i - 8) (by omega)).trans (if_congr (by omega) rfl rfl)

/-- **`irq_mask`** masks its line and no other. -/
theorem after_irqMask {n : ℕ} (hn : n < 16) (hm : p.master.phase = .mask) (hs : p.slave.phase = .mask) :
    ∃ f, p.after (Program.irqMask (.ofNat n)) = p.remask f n ∧
      ∀ i < 16, (p.remask f n).masked i = Function.update p.masked n true i := by
  refine ⟨_, after_mask (withBit (Program.maskBit (.ofNat n)).2) hn hm hs, fun i hi => masked_remask hn hi ?_⟩
  intro m j hj
  rw [maskBit_snd n hn, getLsbD_withBit m (by split <;> omega) hj]
  by_cases h : j = if n < 8 then n else n - 8
  · rw [if_pos h, decide_eq_true h, Bool.or_true]
  · rw [if_neg h, decide_eq_false h, Bool.or_false]

/-- **`irq_unmask`** opens its line and no other. -/
theorem after_irqUnmask {n : ℕ} (hn : n < 16) (hm : p.master.phase = .mask) (hs : p.slave.phase = .mask) :
    ∃ f, p.after (Program.irqUnmask (.ofNat n)) = p.remask f n ∧
      ∀ i < 16, (p.remask f n).masked i = Function.update p.masked n false i := by
  refine ⟨_, after_mask (withoutBit (Program.maskBit (.ofNat n)).2) hn hm hs, fun i hi => masked_remask hn hi ?_⟩
  intro m j hj
  rw [maskBit_snd n hn, getLsbD_withoutBit m (by split <;> omega) hj]
  by_cases h : j = if n < 8 then n else n - 8
  · rw [if_pos h, decide_eq_true h, Bool.not_true, Bool.and_false]
  · rw [if_neg h, decide_eq_false h, Bool.not_false, Bool.and_true]

end Functions

end AuraOS.Kernel.Interrupts
