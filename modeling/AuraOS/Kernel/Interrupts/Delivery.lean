import AuraOS.Kernel.Interrupts.Pic
import AuraOS.Lib.Steps

/-!
# From a line to its handler

The kernel with the two controllers: devices raise lines at any time, the main context masks lines and registers
handlers, and an interrupt comes when the processor takes one, from where `irq_dispatch` calls the handler and ends
the interrupt.

After `idt_init` this is a single controller with fifteen lines (`Abs`), of which a line is taken if it was raised
and is not masked, and none of the more urgent ones is (`traces_iff`).
-/

namespace AuraOS.Kernel.Interrupts

open AuraOS.Lib AuraOS.Kernel

variable {H : Type}

/-- What happens; a line is raised by a device, and `finish` is the rest of an interrupt with the handler that is
called. -/
inductive Act (H : Type) where
  | raise (n : ℕ)
  | mask (n : ℕ)
  | unmask (n : ℕ)
  | register (n : ℕ) (h : Option H)
  | accept (n : ℕ)
  | finish (called : Option H)

/-- A line that a device can raise: line 2 is that of the second controller. -/
def Line (n : ℕ) : Prop := n < 16 ∧ n ≠ 2

instance (n : ℕ) : Decidable (Line n) := inferInstanceAs (Decidable (_ ∧ _))

/-! ### The kernel -/

/-- The controllers, `irq_handlers`, the interrupt flag, and the vector of the interrupt that is served. -/
structure Sys (H : Type) where
  pics : Pair
  irqHandlers : ℕ → Option H
  ie : Bool
  serving : Option UInt8

/-- `irq_register_handler`. -/
def irqRegisterHandler (irq : ℕ) (h : Option H) (handlers : ℕ → Option H) : ℕ → Option H :=
  if irq < 16 then Function.update handlers irq h else handlers

/-- `irq_dispatch` on the vector of its frame: the handler that it calls, and the controllers. -/
def irqDispatch (vector : UInt8) (handlers : ℕ → Option H) (p : Pair) : Option H × Pair :=
  let irq := vector - irqBase
  (if irq < 16 then handlers irq.toNat else none, p.after (Program.irqSendEoi irq))

/-- The steps. -/
inductive Step : Sys H → Act H → Sys H → Prop
  | raise (s : Sys H) (n : ℕ) : Line n → Step s (.raise n) { s with pics := s.pics.raise n }
  | mask (s : Sys H) (n : ℕ) : n < 16 → s.serving = none →
    Step s (.mask n) { s with pics := s.pics.after (Program.irqMask (.ofNat n)) }
  | unmask (s : Sys H) (n : ℕ) : n < 16 → s.serving = none →
    Step s (.unmask n) { s with pics := s.pics.after (Program.irqUnmask (.ofNat n)) }
  | register (s : Sys H) (n : ℕ) (h : Option H) : s.serving = none →
    Step s (.register n h) { s with irqHandlers := irqRegisterHandler n h s.irqHandlers }
  | accept (s : Sys H) (n : ℕ) : s.ie = true → n < 16 → s.pics.Requests n →
    Step s (.accept n) { s with pics := s.pics.acknowledge n, ie := false, serving := some (s.pics.vector n) }
  | finish (s : Sys H) (v : UInt8) : s.serving = some v →
    Step s (.finish (irqDispatch v s.irqHandlers s.pics).1)
      { s with pics := (irqDispatch v s.irqHandlers s.pics).2, ie := true, serving := none }

/-- The kernel after `idt_init`, which has found the controllers in the state `p`. -/
def booted (p : Pair) : Sys H := ⟨p.after Program.idtInit, fun _ => none, true, none⟩

/-! ### What it should be -/

/-- A controller with fifteen lines, numbered 0 to 15 but for 2; masking line 2 holds back lines 8 to 15. -/
structure Abs (H : Type) where
  pending : ℕ → Bool
  masked : ℕ → Bool
  handler : ℕ → Option H
  serving : Option ℕ

namespace Abs

/-- The line was raised, and is not masked. -/
def Deliverable (a : Abs H) (n : ℕ) : Prop :=
  Line n ∧ a.pending n = true ∧ a.masked n = false ∧ (8 ≤ n → a.masked 2 = false)

/-- How urgent a line is: 0, 1, 8 to 15, and 3 to 7. -/
def rank (n : ℕ) : ℕ := if n < 2 then n else if 8 ≤ n then n - 6 else n + 7

/-- The steps. -/
inductive Step : Abs H → Act H → Abs H → Prop
  | raise (a : Abs H) (n : ℕ) : Line n →
    Step a (.raise n) { a with pending := Function.update a.pending n true }
  | mask (a : Abs H) (n : ℕ) : n < 16 → a.serving = none →
    Step a (.mask n) { a with masked := Function.update a.masked n true }
  | unmask (a : Abs H) (n : ℕ) : n < 16 → a.serving = none →
    Step a (.unmask n) { a with masked := Function.update a.masked n false }
  | register (a : Abs H) (n : ℕ) (h : Option H) : a.serving = none →
    Step a (.register n h) { a with handler := irqRegisterHandler n h a.handler }
  | accept (a : Abs H) (n : ℕ) : a.serving = none → a.Deliverable n →
    (∀ m, a.Deliverable m → rank n ≤ rank m) →
    Step a (.accept n) { a with pending := Function.update a.pending n false, serving := some n }
  | finish (a : Abs H) (n : ℕ) : a.serving = some n →
    Step a (.finish (a.handler n)) { a with serving := none }

/-- Nothing is raised, all lines are masked, and there are no handlers. -/
def start : Abs H := ⟨fun _ => false, fun _ => true, fun _ => none, none⟩

end Abs

/-! ### The most urgent line -/

section Requests

variable {p : Pair} {n : ℕ}

/-- The controllers hold nothing back. -/
structure Quiet (p : Pair) : Prop where
  master : p.master.isr = fun _ => false
  slave : p.slave.isr = fun _ => false

/-- The line was raised, and is not masked. -/
def Pair.Deliverable (p : Pair) (n : ℕ) : Prop :=
  Line n ∧ p.pending n = true ∧ p.masked n = false ∧ (8 ≤ n → p.masked 2 = false)

/-- A quiet controller requests an interrupt for the first line that waits. -/
theorem pic_requests_iff {c : Pic} (h : c.isr = fun _ => false) {i : ℕ} :
    c.Requests i ↔ i < 8 ∧ c.waits i = true ∧ ∀ j < i, c.waits j = false := by
  unfold Pic.Requests
  rw [h]
  simp

theorem exists_requests_iff {c : Pic} (h : c.isr = fun _ => false) :
    (List.range 8).any (fun j => c.Requests j) = true ↔ ∃ j < 8, c.waits j = true := by
  simp only [List.any_eq_true, List.mem_range, decide_eq_true_eq, pic_requests_iff h]
  constructor
  · rintro ⟨j, hj, -, hw, -⟩
    exact ⟨j, hj, hw⟩
  · rintro ⟨j, hj, hw⟩
    induction j using Nat.strongRecOn with
    | _ j ih =>
      by_cases hfirst : ∀ k < j, c.waits k = false
      · exact ⟨j, hj, hj, hw, hfirst⟩
      · push Not at hfirst
        obtain ⟨k, hk, hwk⟩ := hfirst
        exact ih k hk (by omega) (Bool.not_eq_false _ ▸ hwk)

/-- What waits at the first controller, but for line 2. -/
theorem wired_waits_iff {i : ℕ} (hi : i < 8) (h2 : i ≠ 2) : p.wired.waits i = true ↔ p.Deliverable i := by
  unfold Pair.wired Pic.waits Pair.Deliverable Pair.pending Pair.masked Line
  dsimp only
  rw [Function.update_of_ne h2, if_pos hi, if_pos hi]
  change (p.master.irr i && !p.master.masked i) = true ↔ _
  simp only [Bool.and_eq_true, Bool.not_eq_true']
  exact ⟨fun h => ⟨⟨by omega, h2⟩, h.1, h.2, fun h8 => absurd h8 (by omega)⟩, fun h => ⟨h.2.1, h.2.2.1⟩⟩

/-- What waits at the second one. -/
theorem slave_waits_iff {j : ℕ} (hj : j < 8) :
    p.slave.waits j = true ∧ p.masked 2 = false ↔ p.Deliverable (j + 8) := by
  unfold Pic.waits Pair.Deliverable Pair.pending Line
  rw [if_neg (by omega), Nat.add_sub_cancel]
  have hmask : p.masked (j + 8) = p.slave.masked j := by
    unfold Pair.masked
    rw [if_neg (by omega), Nat.add_sub_cancel]
  rw [hmask]
  simp only [Bool.and_eq_true, Bool.not_eq_true']
  exact ⟨fun h => ⟨⟨by omega, by omega⟩, h.1.1, h.1.2, fun _ => h.2⟩,
    fun h => ⟨⟨h.2.1, h.2.2.1⟩, h.2.2.2 (by omega)⟩⟩

/-- Line 2 of the first controller waits for any line of the second one. -/
theorem wired_waits_two_iff (hq : Quiet p) : p.wired.waits 2 = true ↔ ∃ n, 8 ≤ n ∧ p.Deliverable n := by
  have hwaits : p.wired.waits 2 = true ↔ (∃ j < 8, p.slave.waits j = true) ∧ p.masked 2 = false := by
    rw [← exists_requests_iff hq.slave]
    unfold Pair.wired Pic.waits
    dsimp only
    rw [Function.update_self, Bool.and_eq_true, Bool.not_eq_true']
    rfl
  rw [hwaits]
  constructor
  · rintro ⟨⟨j, hj, hw⟩, h2⟩
    exact ⟨j + 8, by omega, (slave_waits_iff hj).1 ⟨hw, h2⟩⟩
  · rintro ⟨n, hn, h⟩
    have hlt : n < 16 := h.1.1
    rw [show n = n - 8 + 8 by omega, ← slave_waits_iff (by omega)] at h
    exact ⟨⟨n - 8, by omega, h.1⟩, h.2⟩

/-- **The pair requests an interrupt** for the most urgent line that is deliverable. -/
theorem pair_requests_iff (hq : Quiet p) (hn : n < 16) :
    p.Requests n ↔ p.Deliverable n ∧ ∀ m, p.Deliverable m → Abs.rank n ≤ Abs.rank m := by
  have hwired : p.wired.isr = fun _ => false := hq.master
  unfold Pair.Requests
  by_cases h8 : n < 8
  · rw [if_pos h8, pic_requests_iff hwired]
    constructor
    · rintro ⟨h2, -, hw, hfirst⟩
      refine ⟨(wired_waits_iff h8 h2).1 hw, fun m hm => ?_⟩
      by_contra hrank
      have hcases : m < n ∨ 8 ≤ m ∧ 2 < n := by
        unfold Abs.rank at hrank
        split_ifs at hrank <;> omega
      rcases hcases with hlt | ⟨hm8, hn2⟩
      · rw [← wired_waits_iff (by omega) hm.1.2, hfirst m hlt] at hm
        cases hm
      · have := (wired_waits_two_iff hq).2 ⟨m, hm8, hm⟩
        rw [hfirst 2 hn2] at this
        cases this
    · rintro ⟨hd, hrank⟩
      refine ⟨hd.1.2, h8, (wired_waits_iff h8 hd.1.2).2 hd, fun j hj => ?_⟩
      by_contra hw
      rw [Bool.not_eq_false] at hw
      by_cases h2 : j = 2
      · subst h2
        obtain ⟨m, hm8, hm⟩ := (wired_waits_two_iff hq).1 hw
        have := hrank m hm
        have hlt : m < 16 := hm.1.1
        unfold Abs.rank at this
        split_ifs at this <;> omega
      · have := hrank j ((wired_waits_iff (by omega) h2).1 hw)
        have hne : n ≠ 2 := hd.1.2
        unfold Abs.rank at this
        split_ifs at this <;> omega
  · rw [if_neg h8, pic_requests_iff hwired, pic_requests_iff hq.slave]
    constructor
    · rintro ⟨⟨-, hw2, hfirst2⟩, -, hw, hfirst⟩
      obtain ⟨m₀, hm₀, hd₀⟩ := (wired_waits_two_iff hq).1 hw2
      have h2 : p.masked 2 = false := hd₀.2.2.2 hm₀
      have hd := (slave_waits_iff (by omega)).1 ⟨hw, h2⟩
      rw [Nat.sub_add_cancel (by omega)] at hd
      refine ⟨hd, fun m hm => ?_⟩
      by_contra hrank
      have hlt : m < 16 := hm.1.1
      have hcases : m < 2 ∨ 8 ≤ m ∧ m < n := by
        unfold Abs.rank at hrank
        split_ifs at hrank <;> omega
      rcases hcases with hm2 | ⟨hm8, hmn⟩
      · rw [← wired_waits_iff (by omega) (by omega), hfirst2 m hm2] at hm
        cases hm
      · rw [show m = m - 8 + 8 by omega, ← slave_waits_iff (by omega), hfirst (m - 8) (by omega)] at hm
        cases hm.1
    · rintro ⟨hd, hrank⟩
      have hw := hd
      rw [show n = n - 8 + 8 by omega, ← slave_waits_iff (by omega)] at hw
      refine ⟨⟨by omega, (wired_waits_two_iff hq).2 ⟨n, by omega, hd⟩, fun j hj => ?_⟩, by omega, hw.1,
        fun j hj => ?_⟩
      · by_contra hwj
        rw [Bool.not_eq_false, wired_waits_iff (by omega) (by omega)] at hwj
        have := hrank j hwj
        unfold Abs.rank at this
        split_ifs at this <;> omega
      · by_contra hwj
        rw [Bool.not_eq_false] at hwj
        have := hrank (j + 8) ((slave_waits_iff (by omega)).1 ⟨hwj, hw.2⟩)
        unfold Abs.rank at this
        split_ifs at this <;> omega

end Requests

/-! ### The refinement -/

/-- The line in service at the first controller. -/
def inMaster (serving : Option ℕ) (i : ℕ) : Bool := serving.any fun n => decide (i = if n < 8 then n else 2)

/-- The line in service at the second one. -/
def inSlave (serving : Option ℕ) (i : ℕ) : Bool := serving.any fun n => decide (8 ≤ n ∧ i = n - 8)

/-- The kernel is in a state of the controller with fifteen lines. -/
structure Refines (s : Sys H) (a : Abs H) : Prop where
  masterPhase : s.pics.master.phase = .mask
  slavePhase : s.pics.slave.phase = .mask
  masterBase : s.pics.master.base = irqBase
  slaveBase : s.pics.slave.base = irqBase + 8
  masterIsr : s.pics.master.isr = inMaster a.serving
  slaveIsr : s.pics.slave.isr = inSlave a.serving
  pending : ∀ n, Line n → s.pics.pending n = a.pending n
  masked : ∀ n < 16, s.pics.masked n = a.masked n
  handlers : s.irqHandlers = a.handler
  ie : s.ie = a.serving.isNone
  serving : s.serving = a.serving.map fun n => irqBase + UInt8.ofNat n
  line : ∀ n, a.serving = some n → Line n

section Refines

variable {s : Sys H} {a : Abs H} {n : ℕ}

theorem pending_raise (p : Pair) {n : ℕ} (m : ℕ) :
    (p.raise n).pending m = Function.update p.pending n true m := by
  rw [Function.update_apply]
  unfold Pair.raise Pair.pending Pic.raise
  by_cases hn : n < 8
  · rw [if_pos hn]
    by_cases hm : m < 8
    · rw [if_pos hm, if_pos hm]
      exact Function.update_apply _ _ _ _
    · rw [if_neg hm, if_neg hm, if_neg (by omega)]
  · rw [if_neg hn]
    by_cases hm : m < 8
    · rw [if_pos hm, if_pos hm, if_neg (by omega)]
    · rw [if_neg hm, if_neg hm]
      exact (Function.update_apply _ _ _ _).trans (if_congr (by omega) rfl rfl)

theorem pending_acknowledge (p : Pair) {n m : ℕ} (hm : m ≠ 2) :
    (p.acknowledge n).pending m = Function.update p.pending n false m := by
  rw [Function.update_apply]
  unfold Pair.acknowledge Pair.pending Pic.acknowledge
  by_cases hn : n < 8
  · rw [if_pos hn]
    by_cases hm8 : m < 8
    · rw [if_pos hm8, if_pos hm8]
      exact Function.update_apply _ _ _ _
    · rw [if_neg hm8, if_neg hm8, if_neg (by omega)]
  · rw [if_neg hn]
    by_cases hm8 : m < 8
    · rw [if_pos hm8, if_pos hm8, if_neg (by omega)]
      exact Function.update_of_ne hm _ _
    · rw [if_neg hm8, if_neg hm8]
      exact (Function.update_apply _ _ _ _).trans (if_congr (by omega) rfl rfl)

theorem masked_raise (p : Pair) (n m : ℕ) : (p.raise n).masked m = p.masked m := by
  unfold Pair.raise
  split
  · rfl
  · rfl

theorem masked_acknowledge (p : Pair) (n m : ℕ) : (p.acknowledge n).masked m = p.masked m := by
  unfold Pair.acknowledge
  split
  · rfl
  · rfl

theorem Refines.quiet (h : Refines s a) (ha : a.serving = none) : Quiet s.pics := by
  refine ⟨?_, ?_⟩
  · rw [h.masterIsr, ha]
    rfl
  · rw [h.slaveIsr, ha]
    rfl

theorem Refines.deliverable_iff (h : Refines s a) (n : ℕ) : s.pics.Deliverable n ↔ a.Deliverable n := by
  unfold Pair.Deliverable Abs.Deliverable
  refine and_congr_right fun hn => ?_
  rw [h.pending n hn, h.masked n hn.1, h.masked 2 (by omega)]

/-- **Taking an interrupt** is the same in both. -/
theorem Refines.requests_iff (h : Refines s a) (ha : a.serving = none) (hn : n < 16) :
    s.pics.Requests n ↔ a.Deliverable n ∧ ∀ m, a.Deliverable m → Abs.rank n ≤ Abs.rank m := by
  rw [pair_requests_iff (h.quiet ha) hn]
  simp only [h.deliverable_iff]

theorem Refines.raise (h : Refines s a) (n : ℕ) : Refines { s with pics := s.pics.raise n }
    { a with pending := Function.update a.pending n true } := by
  have hkeep : (s.pics.raise n).master.phase = s.pics.master.phase ∧ (s.pics.raise n).slave.phase = s.pics.slave.phase ∧
      (s.pics.raise n).master.base = s.pics.master.base ∧ (s.pics.raise n).slave.base = s.pics.slave.base ∧
      (s.pics.raise n).master.isr = s.pics.master.isr ∧ (s.pics.raise n).slave.isr = s.pics.slave.isr := by
    unfold Pair.raise
    split
    · exact ⟨rfl, rfl, rfl, rfl, rfl, rfl⟩
    · exact ⟨rfl, rfl, rfl, rfl, rfl, rfl⟩
  obtain ⟨h1, h2, h3, h4, h5, h6⟩ := hkeep
  refine ⟨h1.trans h.masterPhase, h2.trans h.slavePhase, h3.trans h.masterBase, h4.trans h.slaveBase,
    h5.trans h.masterIsr, h6.trans h.slaveIsr, fun m hm => ?_, fun m hm => ?_, h.handlers, h.ie, h.serving, h.line⟩
  · dsimp only
    rw [pending_raise, Function.update_apply, Function.update_apply, h.pending m hm]
  · dsimp only
    rw [masked_raise]
    exact h.masked m hm

theorem Refines.remask (h : Refines s a) {f : UInt8 → UInt8} {v : Bool}
    (hf : ∀ i < 16, (s.pics.remask f n).masked i = Function.update s.pics.masked n v i) :
    Refines { s with pics := s.pics.remask f n } { a with masked := Function.update a.masked n v } := by
  have hkeep : (s.pics.remask f n).master.phase = s.pics.master.phase ∧
      (s.pics.remask f n).slave.phase = s.pics.slave.phase ∧
      (s.pics.remask f n).master.base = s.pics.master.base ∧ (s.pics.remask f n).slave.base = s.pics.slave.base ∧
      (s.pics.remask f n).master.isr = s.pics.master.isr ∧ (s.pics.remask f n).slave.isr = s.pics.slave.isr ∧
      (s.pics.remask f n).pending = s.pics.pending := by
    unfold Pair.remask
    split
    · exact ⟨rfl, rfl, rfl, rfl, rfl, rfl, rfl⟩
    · exact ⟨rfl, rfl, rfl, rfl, rfl, rfl, rfl⟩
  obtain ⟨h1, h2, h3, h4, h5, h6, h7⟩ := hkeep
  refine ⟨h1.trans h.masterPhase, h2.trans h.slavePhase, h3.trans h.masterBase, h4.trans h.slaveBase,
    h5.trans h.masterIsr, h6.trans h.slaveIsr, fun m hm => ?_, fun m hm => ?_, h.handlers, h.ie, h.serving, h.line⟩
  · dsimp only
    rw [h7]
    exact h.pending m hm
  · dsimp only
    rw [hf m hm, Function.update_apply, Function.update_apply, h.masked m hm]

theorem Refines.accept (h : Refines s a) (ha : a.serving = none) (hn : Line n) :
    Refines { s with pics := s.pics.acknowledge n, ie := false, serving := some (s.pics.vector n) }
      { a with pending := Function.update a.pending n false, serving := some n } := by
  have hkeep : (s.pics.acknowledge n).master.phase = s.pics.master.phase ∧
      (s.pics.acknowledge n).slave.phase = s.pics.slave.phase ∧
      (s.pics.acknowledge n).master.base = s.pics.master.base ∧
      (s.pics.acknowledge n).slave.base = s.pics.slave.base := by
    unfold Pair.acknowledge
    split
    · exact ⟨rfl, rfl, rfl, rfl⟩
    · exact ⟨rfl, rfl, rfl, rfl⟩
  obtain ⟨h1, h2, h3, h4⟩ := hkeep
  obtain ⟨hm, hs⟩ := h.quiet ha
  refine ⟨h1.trans h.masterPhase, h2.trans h.slavePhase, h3.trans h.masterBase, h4.trans h.slaveBase, ?_, ?_,
    fun m hm => ?_, fun m hm => ?_, h.handlers, rfl, ?_, fun m hm => ?_⟩
  · funext i
    unfold Pair.acknowledge Pic.acknowledge inMaster
    by_cases h8 : n < 8
    · simp [h8, hm, Function.update_apply]
    · simp [h8, hm, Function.update_apply]
  · funext i
    unfold Pair.acknowledge Pic.acknowledge inSlave
    by_cases h8 : n < 8
    · have : ¬8 ≤ n := by omega
      simp [h8, hs, this]
    · have : 8 ≤ n := by omega
      simp [h8, hs, this, Function.update_apply]
  · dsimp only
    rw [pending_acknowledge _ hm.2, Function.update_apply, Function.update_apply, h.pending m hm]
  · dsimp only
    rw [masked_acknowledge]
    exact h.masked m hm
  · dsimp only
    unfold Pair.vector
    rw [h.masterBase, h.slaveBase, Option.map_some]
    split
    · rfl
    next h8 =>
      have hlt : n < 16 := hn.1
      congr 1
      apply UInt8.toNat.inj
      simp only [UInt8.toNat_add, UInt8.toNat_ofNat']
      change (40 + (n - 8) % 2 ^ 8) % 2 ^ 8 = (32 + n % 2 ^ 8) % 2 ^ 8
      omega
  · dsimp only at hm
    rwa [← Option.some.inj hm]

/-- An interrupt of which only the line `k` is in service ends. -/
theorem endOfInterrupt_isr {c : Pic} {k : ℕ} (h : ∀ i, c.isr i = true → i = k) :
    c.endOfInterrupt.isr = fun _ => false := by
  funext i
  unfold Pic.endOfInterrupt
  dsimp only
  cases hi : c.isr i with
  | false => rfl
  | true =>
    rw [Bool.true_and, List.any_eq_false]
    intro j hj hsj
    have hlt := List.mem_range.1 hj
    rw [h i hi, h j hsj] at hlt
    exact Nat.lt_irrefl k hlt

/-- **Ending an interrupt** calls the handler of its line, and nothing is in service any more. -/
theorem Refines.finish (h : Refines s a) {v : UInt8} (hv : s.serving = some v) (ha : a.serving = some n) :
    (irqDispatch v s.irqHandlers s.pics).1 = a.handler n ∧
      Refines { s with pics := (irqDispatch v s.irqHandlers s.pics).2, ie := true, serving := none }
        { a with serving := none } := by
  have hline := h.line n ha
  have hlt : n < 16 := hline.1
  have hvec : v = irqBase + UInt8.ofNat n := by
    have := h.serving
    rw [hv, ha, Option.map_some] at this
    exact Option.some.inj this
  have hirq : v - irqBase = UInt8.ofNat n := by
    rw [hvec]
    grind
  have hnat : (UInt8.ofNat n).toNat = n := by
    rw [UInt8.toNat_ofNat']
    exact Nat.mod_eq_of_lt (by omega)
  have hge : UInt8.ofNat n ≥ 8 ↔ 8 ≤ n := by
    rw [ge_iff_le, UInt8.le_iff_toNat_le, hnat]
    rfl
  have hcall : (irqDispatch v s.irqHandlers s.pics).1 = a.handler n := by
    unfold irqDispatch
    dsimp only
    rw [hirq, if_pos (by rw [UInt8.lt_iff_toNat_lt, hnat]; exact hlt), hnat, h.handlers]
  have hpics : (irqDispatch v s.irqHandlers s.pics).2 = ⟨s.pics.master.endOfInterrupt,
      if 8 ≤ n then s.pics.slave.endOfInterrupt else s.pics.slave⟩ := by
    unfold irqDispatch
    dsimp only
    rw [hirq, after_irqSendEoi, if_congr hge rfl rfl]
  refine ⟨hcall, ?_⟩
  rw [hpics]
  have hm : s.pics.master.endOfInterrupt.isr = fun _ => false := by
    refine endOfInterrupt_isr (k := if n < 8 then n else 2) fun i hi => ?_
    rw [h.masterIsr, ha] at hi
    simpa [inMaster] using hi
  have hs : (if 8 ≤ n then s.pics.slave.endOfInterrupt else s.pics.slave).isr = fun _ => false := by
    split
    next h8 =>
      refine endOfInterrupt_isr (k := n - 8) fun i hi => ?_
      rw [h.slaveIsr, ha] at hi
      simp only [inSlave, Option.any_some, decide_eq_true_eq] at hi
      exact hi.2
    next h8 =>
      funext i
      rw [h.slaveIsr, ha]
      simp [inSlave, h8]
  have hslave : ∀ {α : Type} (f : Pic → α), f s.pics.slave.endOfInterrupt = f s.pics.slave →
      f (if 8 ≤ n then s.pics.slave.endOfInterrupt else s.pics.slave) = f s.pics.slave := by
    intro α f hf
    split
    · exact hf
    · rfl
  refine ⟨h.masterPhase, (hslave Pic.phase rfl).trans h.slavePhase, h.masterBase,
    (hslave Pic.base rfl).trans h.slaveBase, hm, hs, fun m hm => ?_, fun m hm => ?_, h.handlers, rfl, rfl,
    fun _ hm => nomatch hm⟩
  · have hpend := h.pending m hm
    unfold Pair.pending at hpend ⊢
    dsimp only
    rw [hslave Pic.irr rfl]
    exact hpend
  · have hmask := h.masked m hm
    unfold Pair.masked at hmask ⊢
    dsimp only
    rw [hslave Pic.masked rfl]
    exact hmask

/-- **Every step of the kernel** is one of the controller. -/
theorem Refines.step (h : Refines s a) {l : Act H} {s' : Sys H} (hs : Step s l s') :
    ∃ a', Abs.Step a l a' ∧ Refines s' a' := by
  have hnone : s.serving = none → a.serving = none := by
    intro hs
    have := h.serving
    rw [hs] at this
    exact Option.map_eq_none_iff.1 this.symm
  cases hs with
  | raise n hn => exact ⟨_, .raise a n hn, h.raise n⟩
  | mask n hn hs =>
    obtain ⟨f, hf, hmask⟩ := after_irqMask hn h.masterPhase h.slavePhase
    rw [hf]
    exact ⟨_, .mask a n hn (hnone hs), h.remask hmask⟩
  | unmask n hn hs =>
    obtain ⟨f, hf, hmask⟩ := after_irqUnmask hn h.masterPhase h.slavePhase
    rw [hf]
    exact ⟨_, .unmask a n hn (hnone hs), h.remask hmask⟩
  | register n f hs =>
    refine ⟨_, .register a n f (hnone hs), { h with handlers := ?_ }⟩
    exact congrArg (irqRegisterHandler n f) h.handlers
  | accept n hie hn hreq =>
    have ha : a.serving = none := by
      have := h.ie
      rw [hie] at this
      exact Option.isNone_iff_eq_none.1 this.symm
    obtain ⟨hd, hrank⟩ := (h.requests_iff ha hn).1 hreq
    exact ⟨_, .accept a n ha hd hrank, h.accept ha hd.1⟩
  | finish v hv =>
    have ha : ∃ n, a.serving = some n := by
      have := h.serving
      rw [hv] at this
      obtain ⟨n, hn, -⟩ := Option.map_eq_some_iff.1 this.symm
      exact ⟨n, hn⟩
    obtain ⟨n, ha⟩ := ha
    obtain ⟨hcall, hnext⟩ := h.finish hv ha
    rw [hcall]
    exact ⟨_, .finish a n ha, hnext⟩

/-- **Every step of the controller** is one of the kernel. -/
theorem Refines.step_back (h : Refines s a) {l : Act H} {a' : Abs H} (hs : Abs.Step a l a') :
    ∃ s', Step s l s' ∧ Refines s' a' := by
  have hnone : a.serving = none → s.serving = none := by
    intro ha
    rw [h.serving, ha]
    rfl
  cases hs with
  | raise n hn => exact ⟨_, .raise s n hn, h.raise n⟩
  | mask n hn ha =>
    obtain ⟨f, hf, hmask⟩ := after_irqMask hn h.masterPhase h.slavePhase
    refine ⟨_, .mask s n hn (hnone ha), ?_⟩
    rw [hf]
    exact h.remask hmask
  | unmask n hn ha =>
    obtain ⟨f, hf, hmask⟩ := after_irqUnmask hn h.masterPhase h.slavePhase
    refine ⟨_, .unmask s n hn (hnone ha), ?_⟩
    rw [hf]
    exact h.remask hmask
  | register n f ha =>
    refine ⟨_, .register s n f (hnone ha), { h with handlers := ?_ }⟩
    exact congrArg (irqRegisterHandler n f) h.handlers
  | accept n ha hd hrank =>
    refine ⟨_, .accept s n ?_ hd.1.1 ((h.requests_iff ha hd.1.1).2 ⟨hd, hrank⟩), h.accept ha hd.1⟩
    rw [h.ie, ha]
    rfl
  | finish n ha =>
    have hv : s.serving = some (irqBase + UInt8.ofNat n) := by
      rw [h.serving, ha]
      rfl
    obtain ⟨hcall, hnext⟩ := h.finish hv ha
    rw [← hcall]
    exact ⟨_, .finish s _ hv, hnext⟩

/-- **After `idt_init`**, whatever the state of the controllers before. -/
theorem refines_booted (p : Pair) : Refines (booted (H := H) p) .start := by
  have hmask : ∀ n < 16, (⟨initialised 0x20 0x04, initialised 0x28 0x02⟩ : Pair).masked n = true := by decide
  unfold booted
  rw [after_idtInit]
  refine ⟨rfl, rfl, rfl, rfl, rfl, rfl, fun n _ => ?_, hmask, rfl, rfl, rfl, fun _ h => nomatch h⟩
  unfold Pair.pending
  split
  · rfl
  · rfl

/-- **The traces agree**: what can happen after `idt_init`, with the handlers that are called, is what can happen
with the controller with fifteen lines. -/
theorem traces_iff (p : Pair) (as : List (Act H)) :
    (∃ t, Run Step (booted p) as t) ↔ ∃ a, Run Abs.Step (.start : Abs H) as a := by
  have hforth : ∀ (s : Sys H) l t a, Refines s a → Step s l t → ∃ a', Abs.Step a l a' ∧ Refines t a' :=
    fun _ _ _ _ hR hs => hR.step hs
  have hback : ∀ (a : Abs H) l a' s, Refines s a → Abs.Step a l a' → ∃ t, Step s l t ∧ Refines t a' :=
    fun _ _ _ _ hR hs => hR.step_back hs
  constructor
  · rintro ⟨t, h⟩
    obtain ⟨a, hrun, -⟩ := h.simulate hforth (refines_booted p)
    exact ⟨a, hrun⟩
  · rintro ⟨a, h⟩
    obtain ⟨t, hrun, -⟩ := h.simulate (R := fun a s => Refines s a) hback (refines_booted p)
    exact ⟨t, hrun⟩

end Refines

end AuraOS.Kernel.Interrupts
