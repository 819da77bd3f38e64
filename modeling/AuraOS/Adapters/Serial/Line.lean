import AuraOS.Adapters.Serial.Uart

/-!
# Transfers over a serial port

On a port that follows the protocol and is open, waiting for the transmitter ends within the reads of the status
that the port may be busy for, writing sends every byte once and in order (`done_serialWrite`), and reading takes
the bytes in the order in which they came (`wp_serialRead`).  Opening the port sets it up for 38400 baud and eight
data bits; what is still in the transmitter is lost (`wp_serialOpen`).
-/

namespace AuraOS.Adapters.Serial

open AuraOS.Lib AuraOS.Kernel

section Line

variable {b fuel : ℕ} {u : Uart}

/-! ### Writing -/

/-- **Waiting ends**, and then the transmitter is empty. -/
theorem done_spin (hu : u.Open b) (hfuel : u.wait < fuel) :
    Prog.done (Uart.Step b) (spin fuel) (fun _ u' => u.After b [] [] u' ∧ u'.held = []) u := by
  induction fuel generalizing u with
  | zero => exact absurd hfuel (Nat.not_lt_zero _)
  | succ n ih =>
    unfold spin serialTxReady
    refine Prog.done_bind (Prog.done_lift (Prog.wp_bind.2 (wp_status fun m st hm hst => ?_)))
    have hafter : u.After b [] [] { m with wait := m.wait - 1 } := hm.after.status
    obtain ⟨hwait, hempty⟩ := hm.wait
    rw [Prog.wp_pure]
    by_cases hr : st &&& 0x20 = 0
    · rw [if_pos hr]
      have hheld : m.held ≠ [] := fun h => hst.2.2 h hr
      have hne : m.wait ≠ 0 := fun h => hheld (hempty h)
      refine (ih (hafter.isOpen hu) ?_).mono fun _ u' h => ⟨hafter.trans h.1, h.2⟩
      dsimp only
      omega
    · rw [if_neg hr]
      exact Prog.done_pure ⟨hafter, hst.2.1 hr⟩

/-- **Writing** sends the bytes. -/
theorem done_serialWrite (hfuel : b < fuel) (hu : u.Open b) (buf : List UInt8) :
    Prog.done (Uart.Step b) (serialWrite fuel buf) (fun _ u' => u.After b buf [] u') u := by
  induction buf generalizing u with
  | nil => exact Prog.done_pure (.refl b u)
  | cons x buf ih =>
    unfold serialWrite
    refine Prog.done_bind ((done_spin hu (Nat.lt_of_le_of_lt hu.wait hfuel)).mono fun _ v hv => ?_)
    have hopen := hv.1.isOpen hu
    refine Prog.done_bind (Prog.done_lift (wp_dataOut hopen hv.2 fun w hw => ?_))
    exact (ih (hw.isOpen hopen)).mono fun _ u' h => (hv.1.trans hw).trans h

/-! ### Reading -/

/-- **Reading** takes bytes in the order in which they came, at least those that are there, but no more than there
is room for. -/
theorem wp_serialRead (hu : u.Open b) (len : ℕ) :
    (serialRead len).wp (Uart.Step b) (fun buf u' =>
      u.After b [] buf u' ∧ buf.length ≤ len ∧ min len u.fifo.length ≤ buf.length) u := by
  induction len generalizing u with
  | zero => exact ⟨.refl b u, Nat.le_refl 0, Nat.min_le_left _ _⟩
  | succ len ih =>
    unfold serialRead serialRxReady
    refine Prog.wp_bind.2 (Prog.wp_bind.2 (wp_status fun m st hm hst => ?_))
    have hafter : u.After b [] [] { m with wait := m.wait - 1 } := hm.after.status
    obtain ⟨cs, hfifo⟩ := hm.fifo
    rw [Prog.wp_pure]
    by_cases hr : st &&& 0x01 = 0
    · have hnil : m.fifo = [] := not_not.1 fun h => hst.1.2 h hr
      rw [if_pos hr]
      rw [hnil, eq_comm, List.append_eq_nil_iff] at hfifo
      exact ⟨hafter, Nat.zero_le _, by simp [hfifo.1]⟩
    · rw [if_neg hr]
      have hopen := hafter.isOpen hu
      refine Prog.wp_bind.2 (wp_dataIn hopen (hst.1.1 hr) fun c v hv => ?_)
      refine Prog.wp_bind.2 ((ih (hv.isOpen hopen)).mono fun rest u' h => ?_)
      obtain ⟨hrest, hle, hmin⟩ := h
      refine ⟨(hafter.trans hv).trans hrest, Nat.succ_le_succ hle, ?_⟩
      obtain ⟨ds, -, hds⟩ := hv.came
      have hlen := congrArg List.length hds
      have hlen' := congrArg List.length hfifo
      simp only [List.length_append, List.length_cons, List.length_nil] at hlen hlen' ⊢
      omega

/-! ### Opening -/

/-- The registers are `g`, and otherwise bytes have left the transmitter and come in. -/
structure Drifts (u : Uart) (g : Regs) (u' : Uart) : Prop where
  regs : u'.regs = g
  sent : u'.sent = u.sent
  line : u.line <+: u'.line
  came : u.came <+: u'.came

theorem Drifts.flows {g : Regs} {v m : Uart} (h : Drifts u g v) (hm : v.Flows m) : Drifts u g m := by
  have hafter : v.After 0 [] [] m := hm.after
  obtain ⟨cs, hcame, -⟩ := hafter.came
  refine ⟨hafter.regs.trans h.regs, hafter.sent.trans ((List.append_nil _).trans h.sent), h.line.trans hafter.line, ?_⟩
  rw [hcame]
  exact h.came.trans (List.prefix_append _ _)

/-- A register is written, but for the one that clears the FIFOs. -/
theorem wp_drifts {g : Regs} {v : Uart} {port : UInt16} {x : UInt8} {P : Unit → Uart → Prop} (h : Drifts u g v)
    (hport : port ≠ com1Fcr) (hdata : port = com1Data → g.latched)
    (hnext : ∀ v', Drifts u (g.set port x) v' → P () v') : (Io.outb port x).wp (Uart.Step b) P v := by
  have hset : ∀ m, v.Flows m → Drifts u (g.set port x) { m with regs := m.regs.set port x } := by
    intro m hm
    have hm := h.flows hm
    exact ⟨congrArg (Regs.set port x) hm.regs, hm.sent, hm.line, hm.came⟩
  by_cases hp : port = com1Data
  · subst hp
    have hiff : ∀ m, v.Flows m → ∀ u', m.DataOut b x u' ↔ u' = { m with regs := m.regs.set com1Data x } := by
      intro m hm u'
      unfold Uart.DataOut
      rw [if_pos]
      rw [(h.flows hm).regs]
      exact hdata rfl
    refine Prog.wp_query.2 ⟨?_, fun r u' hstep => ?_⟩
    · obtain ⟨m, hm⟩ := exists_flows v
      exact ⟨(), _, m, hm, (hiff m hm _).2 rfl⟩
    · obtain ⟨m, hm, hout⟩ := hstep
      rw [(hiff m hm u').1 hout]
      exact hnext _ (hset m hm)
  · refine wp_setReg hp fun m hm => ?_
    unfold Uart.setReg
    rw [if_neg hport]
    exact hnext _ (hset m hm)

/-- The registers after `serial_open`: the divisor 3 of 38400 baud, eight data bits, no parity and one stop bit,
and no interrupts unless the divisor was shown. -/
def opened (g : Regs) : Regs := ⟨0x03, 0x00, if g.latched then g.ier else 0x00, 0xC7, 0x03, 0x0B⟩

theorem opened_eq (g : Regs) : opened g = ((((((g.set com1Ier 0x00).set com1Lcr 0x80).set com1Data 0x03).set
    com1Ier 0x00).set com1Lcr 0x03).set com1Fcr 0xC7).set com1Mcr 0x0B := by
  by_cases h : g.latched
  · have hier : g.set com1Ier 0x00 = { g with dlm := 0x00 } := if_pos h
    rw [opened, if_pos h, hier]
    simp [Regs.set, Regs.latched, com1Port]
  · have hier : g.set com1Ier 0x00 = { g with ier := 0x00 } := if_neg h
    rw [opened, if_neg h, hier]
    simp [Regs.set, Regs.latched, com1Port]

/-- What is left of a port when both FIFOs are cleared. -/
theorem setReg_clear (m : Uart) : m.setReg com1Fcr 0xC7 =
    { m with regs := m.regs.set com1Fcr 0xC7, held := [], wait := 0, fifo := [] } := by
  unfold Uart.setReg Uart.clear
  rw [if_pos rfl]
  dsimp only
  rw [if_pos (Or.inr (by decide)), if_pos (Or.inr (by decide))]

/-- **Opening** sets the port up with both FIFOs empty: of what was given to the transmitter, the part that has
not left it is lost, and of what was received till then, the part that was not read. -/
theorem wp_serialOpen (u : Uart) : serialOpen.wp (Uart.Step b) (fun r u' =>
    r = .ok ∧ u'.regs = opened u.regs ∧ u'.Open b ∧ u'.held = [] ∧ u.line <+: u'.line ∧ u'.line <+: u.sent ∧
      ∃ cs, u.came <+: cs ∧ u'.came = cs ++ u'.fifo) u := by
  have h₀ : Drifts u u.regs u := ⟨rfl, rfl, List.prefix_refl _, List.prefix_refl _⟩
  unfold serialOpen
  refine Prog.wp_bind.2 (wp_drifts h₀ (by decide) (absurd · (by decide)) fun v₁ h₁ => ?_)
  refine Prog.wp_bind.2 (wp_drifts h₁ (by decide) (absurd · (by decide)) fun v₂ h₂ => ?_)
  refine Prog.wp_bind.2 (wp_drifts h₂ (by decide) (fun _ => ?_) fun v₃ h₃ => ?_)
  · exact show (0x80 : UInt8) &&& 0x80 ≠ 0 by decide
  refine Prog.wp_bind.2 (wp_drifts h₃ (by decide) (absurd · (by decide)) fun v₄ h₄ => ?_)
  refine Prog.wp_bind.2 (wp_drifts h₄ (by decide) (absurd · (by decide)) fun v₅ h₅ => ?_)
  refine Prog.wp_bind.2 (wp_setReg (by decide) fun m hm => ?_)
  rw [setReg_clear]
  refine Prog.wp_bind.2 (wp_setReg (by decide) fun n hn => ?_)
  rw [Prog.wp_pure]
  have h₆ := h₅.flows hm
  have hafter : Uart.After b _ [] [] n := hn.after
  have hheld : n.held = [] := hn.held rfl
  have hregs : n.regs.set com1Mcr 0x0B = opened u.regs := by
    rw [hafter.regs, opened_eq, ← h₆.regs]
  have hline : n.line = m.line := by
    have hsent := hafter.sent
    unfold Uart.sent at hsent
    rwa [hheld, List.append_nil, List.append_nil, List.append_nil] at hsent
  obtain ⟨cs, hcame, hfifo⟩ := hafter.came
  refine ⟨rfl, hregs, ⟨?_, ?_⟩, hheld, ?_, ?_, ?_⟩
  · change ¬(n.regs.set com1Mcr 0x0B).latched
    rw [hregs]
    exact not_not.2 (show (0x03 : UInt8) &&& 0x80 = 0 by decide)
  · exact Nat.le_trans hn.wait.1 (Nat.zero_le b)
  · change u.line <+: n.line
    rw [hline]
    exact h₆.line
  · change n.line <+: u.sent
    rw [hline, ← h₆.sent]
    exact List.prefix_append _ _
  · refine ⟨m.came, h₆.came, ?_⟩
    rw [List.nil_append, List.nil_append] at hfifo
    change n.came = m.came ++ n.fifo
    rw [← hfifo]
    exact hcame

end Line

end AuraOS.Adapters.Serial
