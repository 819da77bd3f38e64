import AuraOS.Adapters.Serial.Programs

/-!
# A serial port

The protocol of the port as a relation on its states.  Bytes leave the transmitter and come in at any time, and
after a byte is written the status shows the transmitter as busy at most `b` times.  A byte that is written while
it is busy may be lost.  Modem lines, interrupts, the loopback mode and errors of reception are left out.
-/

namespace AuraOS.Adapters.Serial

open AuraOS.Lib AuraOS.Kernel

/-- The registers; the bit 7 of `lcr` shows the divisor, `dll` and `dlm`, in place of the data and of `ier`. -/
structure Regs where
  dll : UInt8
  dlm : UInt8
  ier : UInt8
  fcr : UInt8
  lcr : UInt8
  mcr : UInt8

/-- The divisor is shown. -/
def Regs.latched (g : Regs) : Prop := g.lcr &&& 0x80 ≠ 0

instance (g : Regs) : Decidable g.latched := inferInstanceAs (Decidable (_ ≠ _))

/-- A register is written. -/
def Regs.set (port : UInt16) (x : UInt8) (g : Regs) : Regs :=
  if port = com1Data then if g.latched then { g with dll := x } else g
  else if port = com1Ier then if g.latched then { g with dlm := x } else { g with ier := x }
  else if port = com1Fcr then { g with fcr := x }
  else if port = com1Lcr then { g with lcr := x }
  else if port = com1Mcr then { g with mcr := x }
  else g

/-- What is on the line, what is in the transmitter and for how many reads of the status, what was received and
not read, and all that was received. -/
structure Uart where
  regs : Regs
  line : List UInt8
  held : List UInt8
  wait : ℕ
  fifo : List UInt8
  came : List UInt8

namespace Uart

variable (b : ℕ) (u m : Uart) (port : UInt16) (x r : UInt8) (u' : Uart)

/-- The bytes that were given to the transmitter and not cleared. -/
def sent : List UInt8 := u.line ++ u.held

/-- Between two accesses bytes leave the transmitter, and as many as there is room for come in. -/
def Flows : Prop :=
  ∃ n w cs, w ≤ u.wait ∧ (w = 0 → u.held.drop n = []) ∧ (cs = [] ∨ u.fifo.length + cs.length ≤ 16) ∧
    m = { u with
      line := u.line ++ u.held.take n
      held := u.held.drop n
      wait := w
      fifo := u.fifo ++ cs
      came := u.came ++ cs }

/-- What the status may show. -/
def Shows : Prop := (x &&& 0x01 ≠ 0 ↔ u.fifo ≠ []) ∧ (x &&& 0x20 ≠ 0 ↔ u.held = [])

/-- A byte of data is read. -/
def DataIn : Prop :=
  if u.regs.latched then r = u.regs.dll ∧ u' = u
  else match u.fifo with
    | [] => u' = u
    | c :: cs => r = c ∧ u' = { u with fifo := cs }

/-- A byte of data is written. -/
def DataOut : Prop :=
  if u.regs.latched then u' = { u with regs := u.regs.set com1Data x }
  else u.held ≠ [] ∧ u' = u ∨ ∃ w ≤ b, u' = { u with held := u.held ++ [x], wait := w }

/-- The FIFOs are cleared as `x` says, and both if they are turned on or off. -/
def clear : Uart :=
  let turned := (x ^^^ u.regs.fcr) &&& 0x01 ≠ 0
  let u := if turned ∨ x &&& 0x02 ≠ 0 then { u with fifo := [] } else u
  if turned ∨ x &&& 0x04 ≠ 0 then { u with held := [], wait := 0 } else u

/-- Another port is written. -/
def setReg : Uart := { (if port = com1Fcr then u.clear x else u) with regs := u.regs.set port x }

/-- How the port may answer an access; the driver reads no other register. -/
def Access : (q : PortQuery) → PortReply q → Uart → Prop
  | .inb port, r, u' =>
    if port = com1Data then u.DataIn r u'
    else if port = com1Lsr then u.Shows r ∧ u' = { u with wait := u.wait - 1 }
    else u' = u
  | .outb port x, _, u' => if port = com1Data then u.DataOut b x u' else u' = u.setReg port x
  | .inw _, _, u' => u' = u
  | .outw _ _, _, u' => u' = u

/-- **The protocol.** -/
def Step (q : PortQuery) (r : PortReply q) (u' : Uart) : Prop := ∃ m, u.Flows m ∧ m.Access b q r u'

/-- What has happened to a port that is open: the bytes `out` were sent, and the bytes `got` read. -/
structure After (out got : List UInt8) (u' : Uart) : Prop where
  regs : u'.regs = u.regs
  sent : u'.sent = u.sent ++ out
  line : u.line <+: u'.line
  came : ∃ cs, u'.came = u.came ++ cs ∧ u.fifo ++ cs = got ++ u'.fifo
  wait : u.wait ≤ b → u'.wait ≤ b

/-- The port transfers data, and is never busy for long. -/
structure Open : Prop where
  latched : ¬u.regs.latched
  wait : u.wait ≤ b

end Uart

/-! ### What has happened -/

section After

variable {b : ℕ} {u v w m : Uart} {out out' got got' : List UInt8}

theorem Uart.After.refl (b : ℕ) (u : Uart) : u.After b [] [] u :=
  ⟨rfl, (List.append_nil _).symm, List.prefix_refl _, ⟨[], by simp, by simp⟩, id⟩

theorem Uart.After.trans (h : u.After b out got v) (h' : v.After b out' got' w) :
    u.After b (out ++ out') (got ++ got') w := by
  obtain ⟨cs, hcame, hfifo⟩ := h.came
  obtain ⟨cs', hcame', hfifo'⟩ := h'.came
  refine ⟨h'.regs.trans h.regs, ?_, h.line.trans h'.line, ⟨cs ++ cs', ?_, ?_⟩, fun hw => h'.wait (h.wait hw)⟩
  · rw [h'.sent, h.sent, List.append_assoc]
  · rw [hcame', hcame, List.append_assoc]
  · rw [← List.append_assoc, hfifo, List.append_assoc, hfifo', List.append_assoc]

theorem Uart.Flows.after (h : u.Flows m) : u.After b [] [] m := by
  obtain ⟨n, w, cs, hw, -, -, rfl⟩ := h
  refine ⟨rfl, ?_, List.prefix_append _ _, ⟨cs, rfl, rfl⟩, fun hb => Nat.le_trans hw hb⟩
  unfold Uart.sent
  dsimp only
  rw [List.append_assoc, List.take_append_drop, List.append_nil]

theorem Uart.After.isOpen (h : u.After b out got v) (hu : u.Open b) : v.Open b := by
  refine ⟨?_, h.wait hu.wait⟩
  rw [h.regs]
  exact hu.latched

/-- A read of the status. -/
theorem Uart.After.status (h : u.After b out got m) : u.After b out got { m with wait := m.wait - 1 } :=
  ⟨h.regs, h.sent, h.line, h.came, fun hw => Nat.le_trans (Nat.sub_le _ _) (h.wait hw)⟩

/-- Everything leaves the transmitter. -/
theorem exists_flows (u : Uart) : ∃ m, u.Flows m :=
  ⟨_, u.held.length, 0, [], Nat.zero_le _, fun _ => List.drop_length, Or.inl rfl, rfl⟩

/-- Once the status has shown the transmitter as busy often enough, it is not. -/
theorem Uart.Flows.wait (h : u.Flows m) : m.wait ≤ u.wait ∧ (m.wait = 0 → m.held = []) := by
  obtain ⟨n, w, cs, hw, h0, -, rfl⟩ := h
  exact ⟨hw, h0⟩

theorem Uart.Flows.held (h : u.Flows m) (hu : u.held = []) : m.held = [] := by
  obtain ⟨n, w, cs, -, -, -, rfl⟩ := h
  dsimp only
  rw [hu, List.drop_nil]

/-- What was received stays. -/
theorem Uart.Flows.fifo (h : u.Flows m) : ∃ cs, m.fifo = u.fifo ++ cs := by
  obtain ⟨n, w, cs, -, -, -, rfl⟩ := h
  exact ⟨cs, rfl⟩

end After

/-! ### The accesses -/

section Accesses

variable {b : ℕ} {u : Uart} {α : Type} {port : UInt16} {x : UInt8}

theorem exists_shows (u : Uart) : ∃ st, u.Shows st := by
  by_cases hf : u.fifo = []
  · by_cases hh : u.held = []
    · exact ⟨0x20, iff_of_false (by decide) (not_not.2 hf), iff_of_true (by decide) hh⟩
    · exact ⟨0x00, iff_of_false (by decide) (not_not.2 hf), iff_of_false (by decide) hh⟩
  · by_cases hh : u.held = []
    · exact ⟨0x21, iff_of_true (by decide) hf, iff_of_true (by decide) hh⟩
    · exact ⟨0x01, iff_of_true (by decide) hf, iff_of_false (by decide) hh⟩

/-- The status is read. -/
theorem wp_status {P : UInt8 → Uart → Prop}
    (h : ∀ m st, u.Flows m → m.Shows st → P st { m with wait := m.wait - 1 }) :
    (Io.inb com1Lsr).wp (Uart.Step b) P u := by
  refine Prog.wp_query.2 ⟨?_, fun r u' hstep => ?_⟩
  · obtain ⟨m, hm⟩ := exists_flows u
    obtain ⟨st, hst⟩ := exists_shows m
    exact ⟨st, _, m, hm, hst, rfl⟩
  · obtain ⟨m, hm, hst, rfl⟩ := hstep
    exact h m r hm hst

/-- A byte of data is read, and there is one. -/
theorem wp_dataIn {P : UInt8 → Uart → Prop} (hu : u.Open b) (hfifo : u.fifo ≠ [])
    (h : ∀ c u', u.After b [] [c] u' → P c u') :
    (Io.inb com1Data).wp (Uart.Step b) P u := by
  have hin : ∀ m, u.Flows m → ∃ c cs, m.fifo = c :: cs ∧
      ∀ r u', m.DataIn r u' ↔ r = c ∧ u' = { m with fifo := cs } := by
    intro m hm
    obtain ⟨cs, hcs⟩ := hm.fifo
    obtain ⟨c, rest, hc⟩ := List.exists_cons_of_ne_nil fun h0 : m.fifo = [] => hfifo (by simp_all)
    refine ⟨c, rest, hc, fun r u' => ?_⟩
    unfold Uart.DataIn
    rw [if_neg (hm.after.isOpen hu).latched, hc]
  refine Prog.wp_query.2 ⟨?_, fun r u' hstep => ?_⟩
  · obtain ⟨m, hm⟩ := exists_flows u
    obtain ⟨c, cs, -, hiff⟩ := hin m hm
    exact ⟨c, _, m, hm, (hiff _ _).2 ⟨rfl, rfl⟩⟩
  · obtain ⟨m, hm, hdata⟩ := hstep
    obtain ⟨c, rest, hc, hiff⟩ := hin m hm
    obtain ⟨rfl, rfl⟩ := (hiff r u').1 hdata
    have hafter : u.After b [] [] m := hm.after
    obtain ⟨cs, hcame, hcs⟩ := hafter.came
    rw [List.nil_append, hc] at hcs
    exact h r _ ⟨hafter.regs, hafter.sent, hafter.line, ⟨cs, hcame, hcs⟩, hafter.wait⟩

/-- A byte of data is written, and the transmitter is empty. -/
theorem wp_dataOut {P : Unit → Uart → Prop} (hu : u.Open b) (hheld : u.held = [])
    (h : ∀ u', u.After b [x] [] u' → P () u') : (Io.outb com1Data x).wp (Uart.Step b) P u := by
  have hout : ∀ m, u.Flows m → ∀ u', m.DataOut b x u' ↔
      ∃ w ≤ b, u' = { m with held := m.held ++ [x], wait := w } := by
    intro m hm u'
    unfold Uart.DataOut
    rw [if_neg (hm.after.isOpen hu).latched]
    exact or_iff_right fun h0 => h0.1 (hm.held hheld)
  refine Prog.wp_query.2 ⟨?_, fun r u' hstep => ?_⟩
  · obtain ⟨m, hm⟩ := exists_flows u
    exact ⟨(), _, m, hm, (hout m hm _).2 ⟨0, Nat.zero_le _, rfl⟩⟩
  · obtain ⟨m, hm, hdata⟩ := hstep
    obtain ⟨w, hw, rfl⟩ := (hout m hm u').1 hdata
    have hafter : u.After b [] [] m := hm.after
    refine h _ ⟨hafter.regs, ?_, hafter.line, hafter.came, fun _ => hw⟩
    have hsent := hafter.sent
    unfold Uart.sent at hsent ⊢
    dsimp only
    rw [← List.append_assoc, hsent, List.append_nil]

/-- Another port is written. -/
theorem wp_setReg {P : Unit → Uart → Prop} (hport : port ≠ com1Data)
    (h : ∀ m, u.Flows m → P () (m.setReg port x)) : (Io.outb port x).wp (Uart.Step b) P u := by
  have hiff : ∀ m u', Uart.Access b m (.outb port x) () u' ↔ u' = m.setReg port x := by
    intro m u'
    unfold Uart.Access
    dsimp only
    rw [if_neg hport]
  refine Prog.wp_query.2 ⟨?_, fun r u' hstep => ?_⟩
  · obtain ⟨m, hm⟩ := exists_flows u
    exact ⟨(), _, m, hm, (hiff m _).2 rfl⟩
  · obtain ⟨m, hm, haccess⟩ := hstep
    rw [(hiff m u').1 haccess]
    exact h m hm

end Accesses

end AuraOS.Adapters.Serial
