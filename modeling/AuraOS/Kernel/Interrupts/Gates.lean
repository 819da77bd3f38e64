import AuraOS.Lib.Loop
import AuraOS.Lib.Memory

/-!
# The gates

The table of gates that `idt_init` writes, the table of segments of `bootloader/boot.asm`, and the way of a 386 from
a vector through both of them to the first instruction of a stub.  Of the gates there are the two of 32 bits; those
of 16 bits and the task gates are faults here, as is a change of the privilege level.

After `idt_init` each of the 48 vectors leads to the stub of its number, in the flat segment and with interrupts
disabled, whatever the addresses of the stubs are and whatever was in the memory (`interrupt_entry`).
-/

namespace AuraOS.Kernel.Interrupts

open AuraOS.Lib

/-! ### The tables -/

abbrev idtEntries : ℕ := 256

/-- `GATE_INT32`. -/
abbrev gateInt32 : ℕ := 0x8E

/-- `KERNEL_CS`. -/
abbrev kernelCs : ℕ := 0x08

/-- `idt_set_gate`; the array `idt_table` is at the address `table`. -/
def idtSetGate (table : ℕ) (vector : UInt8) (handler : UInt32) (m : Mem) : Mem :=
  let e := table + 8 * vector.toNat
  let m := m.store16 e (handler &&& 0xFFFF).toNat
  let m := m.store16 (e + 2) kernelCs
  let m := m.store8 (e + 4) 0
  let m := m.store8 (e + 5) gateInt32
  m.store16 (e + 6) ((handler >>> 16) &&& 0xFFFF).toNat

/-- The stub of vector `i`, with the addresses of `isr0`, …, `isr31` and `irq0`, …, `irq15`. -/
def stubAt (isr irq : ℕ → UInt32) (i : ℕ) : UInt32 := if i < 32 then isr i else irq (i - 32)

/-- `idt_init`, the calls of `idt_set_gate`. -/
def setGates (table : ℕ) (isr irq : ℕ → UInt32) (m : Mem) : Mem :=
  upTo 48 (fun i m => idtSetGate table (.ofNat i) (stubAt isr irq i) m) m

/-- What `lidt` and `lgdt` load. -/
structure TableReg where
  limit : ℕ
  base : ℕ

/-- `ptr` of `idt_init`. -/
def idtPtr (table : ℕ) : TableReg := ⟨idtEntries * 8 - 1, table⟩

/-- The bytes from `gdt_start` to `gdt_end`. -/
def gdtBytes : List UInt8 :=
  [0x00, 0x00, 0x00, 0x00, 0x00, 0x00, 0x00, 0x00,
   0xFF, 0xFF, 0x00, 0x00, 0x00, 0x9A, 0xCF, 0x00,
   0xFF, 0xFF, 0x00, 0x00, 0x00, 0x92, 0xCF, 0x00]

/-- `gdt_descriptor`. -/
def gdtDescriptor (gdtStart : ℕ) : TableReg := ⟨gdtBytes.length - 1, gdtStart⟩

/-- The segments of the boot loader are at the address `gdtStart`. -/
def HasGdt (m : Mem) (gdtStart : ℕ) : Prop := ∀ i < gdtBytes.length, m (gdtStart + i) = gdtBytes.getD i 0

/-! ### The processor -/

/-- A gate of the table of interrupts. -/
structure Gate where
  offset : ℕ
  selector : ℕ
  attr : ℕ

/-- The gate in the eight bytes at the address `e`. -/
def gateAt (m : Mem) (e : ℕ) : Gate := ⟨m.load16 e + 65536 * m.load16 (e + 6), m.load16 (e + 2), m.load8 (e + 5)⟩

/-- A segment. -/
structure Segment where
  base : ℕ
  limit : ℕ
  access : ℕ

/-- The segment in the eight bytes at the address `a`; with bit 7 of byte 6 the limit counts pages. -/
def segmentAt (m : Mem) (a : ℕ) : Segment :=
  let flags := m.load8 (a + 6)
  let limit := m.load16 a + 65536 * (flags % 16)
  { base := m.load16 (a + 2) + 65536 * m.load8 (a + 4) + 16777216 * m.load8 (a + 7)
    limit := if flags.testBit 7 then limit * 4096 + 4095 else limit
    access := m.load8 (a + 5) }

/-- Where an interrupt begins: the code segment, the instruction pointer and its linear address, and whether
interrupts are disabled. -/
structure Entry where
  cs : ℕ
  eip : ℕ
  linear : ℕ
  disabled : Bool
  deriving DecidableEq

/-- The way through the tables at privilege level 0, `none` for a fault. -/
def interruptEntry (idtr gdtr : TableReg) (m : Mem) (vector : UInt8) : Option Entry :=
  if idtr.limit < 8 * vector.toNat + 7 then none
  else
    let g := gateAt m (idtr.base + 8 * vector.toNat)
    -- present, and an interrupt or a trap gate
    if ¬(g.attr.testBit 7 ∧ (g.attr % 32 = 0xE ∨ g.attr % 32 = 0xF)) then none
    -- not the null segment, in the global table, and within it
    else if g.selector / 8 = 0 ∨ g.selector.testBit 2 ∨ gdtr.limit < g.selector / 8 * 8 + 7 then none
    else
      let s := segmentAt m (gdtr.base + g.selector / 8 * 8)
      -- present code of level 0
      if ¬(s.access.testBit 7 ∧ s.access.testBit 4 ∧ s.access.testBit 3 ∧ s.access / 32 % 4 = 0) then none
      else if s.limit < g.offset then none
      else some ⟨g.selector, g.offset, (s.base + g.offset) % 2 ^ 32, decide (g.attr % 32 = 0xE)⟩

/-! ### Through the tables -/

section Gates

variable {table gdtStart : ℕ} {isr irq : ℕ → UInt32} {m m' : Mem}

theorem idtSetGate_apply {vector : UInt8} {handler : UInt32} {x : ℕ}
    (h : x < table + 8 * vector.toNat ∨ table + 8 * vector.toNat + 8 ≤ x) :
    idtSetGate table vector handler m x = m x := by
  unfold idtSetGate
  rw [Mem.store16_apply (by omega), Mem.store8_apply (by omega), Mem.store8_apply (by omega),
    Mem.store16_apply (by omega), Mem.store16_apply (by omega)]

/-- The halves of an address. -/
theorem halves (w : UInt32) : (w &&& 0xFFFF).toNat = w.toNat % 65536 ∧
    ((w >>> 16) &&& 0xFFFF).toNat = w.toNat / 65536 := by
  have hlt := w.toNat_lt
  constructor
  · rw [UInt32.toNat_and]
    exact Nat.and_two_pow_sub_one_eq_mod w.toNat 16
  · rw [UInt32.toNat_and, UInt32.toNat_shiftRight]
    change w.toNat >>> 16 &&& (2 ^ 16 - 1) = _
    rw [Nat.and_two_pow_sub_one_eq_mod, Nat.shiftRight_eq_div_pow]
    omega

/-- **A gate is read back** as it was set. -/
theorem gateAt_idtSetGate (vector : UInt8) (handler : UInt32) :
    gateAt (idtSetGate table vector handler m) (table + 8 * vector.toNat) = ⟨handler.toNat, 0x08, 0x8E⟩ := by
  obtain ⟨hlo, hhi⟩ := halves handler
  have hlt := handler.toNat_lt
  unfold gateAt idtSetGate
  generalize table + 8 * vector.toNat = e
  simp (disch := omega) only [Mem.load16_store16_of_ne, Mem.load16_store8_of_ne, Mem.load8_store16_of_ne,
    Mem.load16_store16, Mem.load8_store8, hlo, hhi]
  congr 1
  omega

theorem gateAt_congr {e : ℕ} (h : ∀ x, e ≤ x → x < e + 8 → m' x = m x) : gateAt m' e = gateAt m e := by
  unfold gateAt
  rw [Mem.load16_congr fun x h1 h2 => h x (by omega) (by omega),
    Mem.load16_congr fun x h1 h2 => h x (by omega) (by omega),
    Mem.load16_congr fun x h1 h2 => h x (by omega) (by omega),
    Mem.load8_congr (h (e + 5) (by omega) (by omega))]

/-- **All gates** are as they were set, and the rest of the memory is as it was. -/
theorem setGates_spec (table : ℕ) (isr irq : ℕ → UInt32) (m : Mem) :
    (∀ i < 48, gateAt (setGates table isr irq m) (table + 8 * i) = ⟨(stubAt isr irq i).toNat, 0x08, 0x8E⟩) ∧
      ∀ x, x < table ∨ table + 8 * 48 ≤ x → setGates table isr irq m x = m x := by
  refine upTo_induct (fun n m' =>
    (∀ i < n, gateAt m' (table + 8 * i) = ⟨(stubAt isr irq i).toNat, 0x08, 0x8E⟩) ∧
      ∀ x, x < table ∨ table + 8 * n ≤ x → m' x = m x) ⟨nofun, fun _ _ => rfl⟩ ?_
  rintro n hn m' ⟨hgates, hrest⟩
  have hnat : (UInt8.ofNat n).toNat = n := by
    rw [UInt8.toNat_ofNat']
    exact Nat.mod_eq_of_lt (by omega)
  have hother : ∀ x, x < table + 8 * n ∨ table + 8 * n + 8 ≤ x →
      idtSetGate table (.ofNat n) (stubAt isr irq n) m' x = m' x :=
    fun x hx => idtSetGate_apply (by rw [hnat]; exact hx)
  refine ⟨fun i hi => ?_, fun x hx => ?_⟩
  · rcases Nat.lt_or_eq_of_le (Nat.le_of_lt_succ hi) with hlt | rfl
    · rw [← hgates i hlt]
      exact gateAt_congr fun x h1 h2 => hother x (by omega)
    · have hset : gateAt (idtSetGate table (.ofNat i) (stubAt isr irq i) m') (table + 8 * (UInt8.ofNat i).toNat) = _ :=
        gateAt_idtSetGate _ _
      rwa [hnat] at hset
  · rw [hother x (by omega)]
    exact hrest x (by omega)

/-- The segments of the boot loader are flat: the code at 8 and the data at 16. -/
theorem HasGdt.segments (h : HasGdt m gdtStart) : segmentAt m (gdtStart + 8) = ⟨0, 2 ^ 32 - 1, 0x9A⟩ ∧
    segmentAt m (gdtStart + 16) = ⟨0, 2 ^ 32 - 1, 0x92⟩ := by
  have hb : ∀ i < 24, m (gdtStart + i) = gdtBytes.getD i 0 := h
  unfold segmentAt Mem.load16 Mem.load8
  simp only [Nat.add_assoc, Nat.reduceAdd, hb 8 (by decide), hb 9 (by decide), hb 10 (by decide), hb 11 (by decide),
    hb 12 (by decide), hb 13 (by decide), hb 14 (by decide), hb 15 (by decide), hb 16 (by decide), hb 17 (by decide),
    hb 18 (by decide), hb 19 (by decide), hb 20 (by decide), hb 21 (by decide), hb 22 (by decide), hb 23 (by decide)]
  exact ⟨rfl, rfl⟩

/-- **From a vector to its stub**: after `idt_init`, with the segments of the boot loader in the memory apart from
`idt_table`, each of the vectors up to 47 leads to the stub of its number, whatever its address is, with interrupts
disabled; a vector from 48 on is a fault where the table has held zeros; and the rest of the memory is as it was. -/
theorem interrupt_entry (hgdt : HasGdt m gdtStart)
    (hapart : gdtStart + gdtBytes.length ≤ table ∨ table + 8 * idtEntries ≤ gdtStart) (vector : UInt8) :
    let m' := setGates table isr irq m
    let handler := stubAt isr irq vector.toNat
    (vector.toNat < 48 → interruptEntry (idtPtr table) (gdtDescriptor gdtStart) m' vector =
      some ⟨kernelCs, handler.toNat, handler.toNat, true⟩) ∧
    (48 ≤ vector.toNat → (∀ j < 8, m (table + 8 * vector.toNat + j) = 0) →
      interruptEntry (idtPtr table) (gdtDescriptor gdtStart) m' vector = none) ∧
    ∀ x, x < table ∨ table + 8 * 48 ≤ x → m' x = m x := by
  intro m' handler
  obtain ⟨hgates, hrest⟩ := setGates_spec table isr irq m
  have hlt := vector.toNat_lt
  have hin : ¬(idtPtr table).limit < 8 * vector.toNat + 7 := by
    change ¬2047 < 8 * vector.toNat + 7
    omega
  refine ⟨fun h48 => ?_, fun h48 hzero => ?_, hrest⟩
  · have hgdt' : HasGdt m' gdtStart := by
      intro i hi
      rw [← hgdt i hi]
      apply hrest
      have : idtEntries = 256 := rfl
      omega
    have hgate : gateAt m' ((idtPtr table).base + 8 * vector.toNat) = ⟨handler.toNat, 0x08, 0x8E⟩ :=
      hgates vector.toNat h48
    have hsegment : segmentAt m' ((gdtDescriptor gdtStart).base + 8 / 8 * 8) = ⟨0, 2 ^ 32 - 1, 0x9A⟩ :=
      hgdt'.segments.1
    have hlimit : (gdtDescriptor gdtStart).limit = 23 := rfl
    have hword := handler.toNat_lt
    unfold interruptEntry
    rw [if_neg hin]
    rw [hgate]
    dsimp only
    rw [if_neg (by decide), if_neg (by rw [hlimit]; decide), hsegment]
    dsimp only
    rw [if_neg (by decide), if_neg (by omega), Nat.zero_add, Nat.mod_eq_of_lt hword, decide_eq_true (by decide)]
  · have hgate : (gateAt m' ((idtPtr table).base + 8 * vector.toNat)).attr = 0 := by
      change (setGates table isr irq m (table + 8 * vector.toNat + 5)).toNat = 0
      rw [hrest _ (by omega), hzero 5 (by decide)]
      rfl
    unfold interruptEntry
    rw [if_neg hin]
    dsimp only
    rw [hgate, if_pos (by decide)]

end Gates

/-- A memory with the segments of the boot loader at `0x7D00`. -/
def bootMemory : Mem := fun x => if 0x7D00 ≤ x then gdtBytes.getD (x - 0x7D00) 0 else 0

/-- The keyboard, with `irq1` at `0x10010`. -/
theorem interrupt_entry_keyboard :
    interruptEntry (idtPtr 0x20000) (gdtDescriptor 0x7D00)
      (setGates 0x20000 (fun _ => 0) (fun i => 0x10000 + 16 * .ofNat i) bootMemory) 33 =
      some ⟨0x08, 0x10010, 0x10010, true⟩ := by
  have hgdt : HasGdt bootMemory 0x7D00 := by
    intro i _
    unfold bootMemory
    rw [if_pos (Nat.le_add_right _ _), Nat.add_sub_cancel_left]
  exact (interrupt_entry hgdt (Or.inl (by decide)) 33).1 (by decide)

end AuraOS.Kernel.Interrupts
