import AuraOS.Kernel.Interrupts.Delivery

/-!
# The tick counter

`g_tick_count` is incremented by the handler of the timer and, in the main context, by `kernel_heartbeat`, where the
increment of the `volatile` variable is a load and a store, between which interrupts may come.  An edge of the timer
is not counted if another one still waits in the controller, nor if its interrupt comes between such a load and its
store; and nothing else is lost (`tick_accounting`).
-/

namespace AuraOS.Kernel.Interrupts

open AuraOS.Lib AuraOS.Kernel

/-! ### The timer -/

abbrev pitChannel0 : UInt16 := 0x40
abbrev pitCommand : UInt16 := 0x43
abbrev pitCmdCh0 : UInt8 := 0x36
abbrev pitBaseHz : UInt32 := 1193182
abbrev pitFrequencyHz : UInt32 := 100

/-- The divisor that `pit_init` computes. -/
def pitDivisor : UInt32 :=
  let divisor := pitBaseHz / pitFrequencyHz
  if divisor > 0xFFFF then 0xFFFF else divisor

/-- `pit_init`, the accesses to the timer. -/
def Program.pitInit : PortProg Unit := do
  Io.outb pitCommand pitCmdCh0
  Io.outb pitChannel0 (pitDivisor &&& 0xFF).toUInt8
  Io.outb pitChannel0 ((pitDivisor >>> 8) &&& 0xFF).toUInt8

/-- Channel 0 of the 8254: the bytes that its counter takes (1 the low one, 2 the high one, 3 one after the other),
its mode, the low byte that waits for the high one, and the counter, of which 0 stands for 65536. -/
structure Pit where
  access : UInt8
  mode : UInt8
  low : Option UInt8
  reload : ℕ

/-- How the timer answers an access; reading it back is left out. -/
def Pit.answer (p : Pit) : (q : PortQuery) → PortReply q × Pit
  | .inb _ => (0, p)
  | .outb port x =>
    ((),
      if port = pitCommand then
        -- another channel, or the command that latches the counter
        if x >>> 6 ≠ 0 ∨ (x >>> 4) &&& 3 = 0 then p
        else { p with access := (x >>> 4) &&& 3, mode := (x >>> 1) &&& 7, low := none }
      else if port = pitChannel0 then
        if p.access = 1 then { p with reload := x.toNat }
        else if p.access = 2 then { p with reload := 256 * x.toNat }
        else
          match p.low with
          | none => { p with low := some x }
          | some l => { p with low := none, reload := l.toNat + 256 * x.toNat }
      else p)
  | .inw _ => (0, p)
  | .outw _ _ => ((), p)

/-- **`pit_init`** sets up a square wave of the timer's clock divided by 11931, which is as close to 100 Hz as a
divisor gets from above. -/
theorem run_pitInit (p : Pit) : (Program.pitInit.run Pit.answer p).2 = ⟨3, 3, none, 11931⟩ ∧
    11931 * pitFrequencyHz.toNat ≤ pitBaseHz.toNat ∧ pitBaseHz.toNat < (11931 + 1) * pitFrequencyHz.toNat :=
  ⟨rfl, by decide, by decide⟩

/-! ### The counter -/

/-- The handlers that the kernel registers. -/
inductive Handler where
  | pitIrqHandler | keyboardPoll
  deriving DecidableEq

/-- The kernel with `g_tick_count`, and the value that `kernel_heartbeat` has loaded and not stored yet. -/
structure Ticking where
  sys : Sys Handler
  gTickCount : UInt32
  loaded : Option UInt32

inductive TickAct where
  | kernel (a : Act Handler)
  /-- `kernel_heartbeat` loads the counter -/
  | load
  /-- and stores it -/
  | store

/-- The counter behind an interrupt. -/
def handled : Act Handler → UInt32 → UInt32
  | .finish (some .pitIrqHandler), n => n + 1
  | _, n => n

inductive TickStep : Ticking → TickAct → Ticking → Prop
  | kernel {s : Ticking} {a : Act Handler} {sys : Sys Handler} : Step s.sys a sys →
      TickStep s (.kernel a) { s with sys := sys, gTickCount := handled a s.gTickCount }
  | load {s : Ticking} : s.sys.serving = none → s.loaded = none →
      TickStep s .load { s with loaded := some s.gTickCount }
  | store {s : Ticking} {n : UInt32} : s.sys.serving = none → s.loaded = some n →
      TickStep s .store { s with gTickCount := n + 1, loaded := none }

/-! ### The account -/

/-- What the steps say: the edges of the timer, those that found another one waiting, the calls of
`kernel_heartbeat`, and the interrupts of the timer that a store has overwritten; and whether an edge waits, whether
its interrupt is served, and how many interrupts have come since the load. -/
structure Tally where
  edges : ℕ
  merged : ℕ
  beats : ℕ
  lost : ℕ
  waiting : Bool
  serving : Bool
  since : ℕ

/-- Before the first step. -/
def Tally.start (waiting : Bool) : Tally := ⟨waiting.toNat, 0, 0, 0, waiting, false, 0⟩

/-- One step. -/
def Tally.next (y : Tally) : TickAct → Tally
  | .kernel (.raise 0) => { y with edges := y.edges + 1, merged := y.merged + y.waiting.toNat, waiting := true }
  | .kernel (.accept 0) => { y with waiting := false, serving := true }
  | .kernel (.finish (some .pitIrqHandler)) => { y with serving := false, since := y.since + 1 }
  | .load => { y with since := 0 }
  | .store => { y with beats := y.beats + 1, lost := y.lost + y.since }
  | _ => y

/-- All steps. -/
def tally (waiting : Bool) (ls : List TickAct) : Tally := ls.foldl Tally.next (.start waiting)

/-- The edges that are neither counted nor lost yet. -/
def Tally.open (y : Tally) : ℕ := y.waiting.toNat + y.serving.toNat

/-- The account is right. -/
structure Accounts (c₀ : UInt32) (y : Tally) (t : Ticking) : Prop where
  lines : ∃ a, Refines t.sys a ∧ (∀ n, a.handler n = some .pitIrqHandler ↔ n = 0) ∧ a.pending 0 = y.waiting ∧
    (a.serving = some 0 ↔ y.serving = true)
  loaded : ∀ n, t.loaded = some n → t.gTickCount = n + .ofNat y.since
  count : t.gTickCount + .ofNat (y.merged + y.lost + y.open) = c₀ + .ofNat (y.edges + y.beats)

/-- The handler of the timer stays as it is, and is that of no other line. -/
def SparesTimer : TickAct → Prop
  | .kernel (.register n h) => n ≠ 0 ∧ h ≠ some .pitIrqHandler
  | _ => True

section Accounts

variable {c₀ : UInt32} {y : Tally} {t t' : Ticking} {l : TickAct}

theorem next_raise (y : Tally) {n : ℕ} (hn : n ≠ 0) : y.next (.kernel (.raise n)) = y := by
  cases n with
  | zero => exact absurd rfl hn
  | succ n => rfl

theorem next_accept (y : Tally) {n : ℕ} (hn : n ≠ 0) : y.next (.kernel (.accept n)) = y := by
  cases n with
  | zero => exact absurd rfl hn
  | succ n => rfl

theorem next_finish (y : Tally) {h : Option Handler} (hh : h ≠ some .pitIrqHandler) :
    y.next (.kernel (.finish h)) = y ∧ ∀ n, handled (.finish h) n = n := by
  rcases h with _ | _ | _
  · exact ⟨rfl, fun _ => rfl⟩
  · exact absurd rfl hh
  · exact ⟨rfl, fun _ => rfl⟩

theorem ofNat_succ (m : ℕ) : UInt32.ofNat (m + 1) = .ofNat m + 1 := UInt32.ofNat_add m 1

/-- One more on both sides. -/
theorem count_succ {x c : UInt32} {m e : ℕ} (h : x + .ofNat m = c + .ofNat e) :
    x + .ofNat (m + 1) = c + .ofNat (e + 1) := by
  rw [ofNat_succ, ofNat_succ, ← UInt32.add_assoc, h, UInt32.add_assoc]

/-- What was open is counted. -/
theorem count_close {x c : UInt32} {m : ℕ} (h : x + .ofNat (m + 1) = c) : x + 1 + .ofNat m = c := by
  rw [← h, ofNat_succ, UInt32.add_assoc, UInt32.add_comm 1]

/-- **A step of the kernel** keeps the account. -/
theorem Accounts.kernel (h : Accounts c₀ y t) {a : Act Handler} {sys : Sys Handler} (hs : Step t.sys a sys)
    (ha : SparesTimer (.kernel a)) :
    Accounts c₀ (y.next (.kernel a)) { t with sys := sys, gTickCount := handled a t.gTickCount } := by
  obtain ⟨⟨b, hb, hhandler, hwait, hserve⟩, hloaded, hcount⟩ := h
  obtain ⟨b', habs, hb'⟩ := hb.step hs
  cases habs with
  | raise n hn =>
    by_cases h0 : n = 0
    · subst h0
      have hset : Function.update b.pending 0 true 0 = true := Function.update_self _ _ _
      refine ⟨⟨_, hb', hhandler, hset, hserve⟩, hloaded, ?_⟩
      have hnext := count_succ hcount
      unfold Tally.open at hnext
      change t.gTickCount + .ofNat (y.merged + y.waiting.toNat + y.lost + (1 + y.serving.toNat)) =
        c₀ + .ofNat (y.edges + 1 + y.beats)
      rw [show y.merged + y.waiting.toNat + y.lost + (1 + y.serving.toNat) =
        y.merged + y.lost + (y.waiting.toNat + y.serving.toNat) + 1 by omega,
        show y.edges + 1 + y.beats = y.edges + y.beats + 1 by omega]
      exact hnext
    · rw [next_raise y h0]
      refine ⟨⟨_, hb', hhandler, ?_, hserve⟩, hloaded, hcount⟩
      rw [← hwait]
      exact Function.update_of_ne (Ne.symm h0) _ _
  | mask n hn hnone => exact ⟨⟨_, hb', hhandler, hwait, hserve⟩, hloaded, hcount⟩
  | unmask n hn hnone => exact ⟨⟨_, hb', hhandler, hwait, hserve⟩, hloaded, hcount⟩
  | register n f hnone =>
    refine ⟨⟨_, hb', fun m => ?_, hwait, hserve⟩, hloaded, hcount⟩
    obtain ⟨hn, hf⟩ := ha
    dsimp only
    unfold irqRegisterHandler
    split
    · rw [Function.update_apply]
      split
      next hm =>
        rw [hm]
        exact ⟨fun h => absurd h hf, fun h => absurd h hn⟩
      · exact hhandler m
    · exact hhandler m
  | accept n hnone hd hrank =>
    by_cases h0 : n = 0
    · subst h0
      have hpend : y.waiting = true := hwait ▸ hd.2.1
      have hidle : y.serving = false := by
        rw [← Bool.not_eq_true, ← hserve, hnone]
        nofun
      have hset : Function.update b.pending 0 false 0 = false := Function.update_self _ _ _
      refine ⟨⟨_, hb', hhandler, hset, fun _ => rfl, fun _ => rfl⟩, hloaded, ?_⟩
      unfold Tally.open at hcount
      rw [hpend, hidle] at hcount
      exact hcount
    · rw [next_accept y h0]
      refine ⟨⟨_, hb', hhandler, ?_, ?_⟩, hloaded, hcount⟩
      · rw [← hwait]
        exact Function.update_of_ne (Ne.symm h0) _ _
      · rw [← hserve, hnone]
        simp [h0]
  | finish n hn =>
    by_cases h0 : n = 0
    · subst h0
      have hpit : b.handler 0 = some .pitIrqHandler := (hhandler 0).2 rfl
      have hserving : y.serving = true := hserve.1 hn
      rw [hpit] at hs ⊢
      refine ⟨⟨_, hb', hhandler, hwait, nofun, nofun⟩, fun m hm => ?_, ?_⟩
      · change t.gTickCount + 1 = m + .ofNat (y.since + 1)
        rw [hloaded m hm, ofNat_succ, UInt32.add_assoc]
      · unfold Tally.open at hcount
        rw [hserving] at hcount
        exact count_close hcount
    · have hother : b.handler n ≠ some .pitIrqHandler := fun h => h0 ((hhandler n).1 h)
      obtain ⟨hnext, hsame⟩ := next_finish y hother
      rw [hnext, hsame]
      refine ⟨⟨_, hb', hhandler, hwait, ?_⟩, hloaded, hcount⟩
      rw [← hserve, hn]
      simp [h0]

/-- **The step lemma.** -/
theorem Accounts.step (h : Accounts c₀ y t) (hs : TickStep t l t') (hl : SparesTimer l) :
    Accounts c₀ (y.next l) t' := by
  cases hs with
  | kernel hs => exact h.kernel hs hl
  | load hserving hnone =>
    refine ⟨h.lines, fun n hn => ?_, h.count⟩
    rw [Option.some.inj hn]
    exact (UInt32.add_zero _).symm
  | @store n hserving hn =>
    refine ⟨h.lines, nofun, ?_⟩
    have hcount := h.count
    rw [h.loaded n hn] at hcount
    change n + 1 + .ofNat (y.merged + (y.lost + y.since) + y.open) = c₀ + .ofNat (y.edges + (y.beats + 1))
    rw [← Nat.add_assoc y.edges, ofNat_succ, ← UInt32.add_assoc, ← hcount,
      show y.merged + (y.lost + y.since) + y.open = y.since + (y.merged + y.lost + y.open) by omega, UInt32.ofNat_add]
    grind

theorem Accounts.run {ls : List TickAct} (h : Run TickStep t ls t') (hls : ∀ l ∈ ls, SparesTimer l)
    (ht : Accounts c₀ y t) : Accounts c₀ (ls.foldl Tally.next y) t' := by
  induction h generalizing y with
  | nil t => exact ht
  | cons hstep _ ih =>
    exact ih (fun l hl => hls l (List.mem_cons_of_mem _ hl)) (ht.step hstep (hls _ List.mem_cons_self))

/-- Before a handler is registered there is none. -/
theorem refines_unregistered {p : Pair} {pre : List (Act Handler)} {s : Sys Handler}
    (h : Run Step (booted p) pre s) (hpre : ∀ n f, .register n f ∉ pre) :
    ∃ a, Refines s a ∧ ∀ n, a.handler n = none := by
  refine h.invariant_of_labels (I := fun s => ∃ a, Refines s a ∧ ∀ n, a.handler n = none) ?_
    ⟨.start, refines_booted p, fun _ => rfl⟩
  rintro l hl s s' ⟨a, ha, hnone⟩ hstep
  obtain ⟨a', habs, ha'⟩ := ha.step hstep
  refine ⟨a', ha', ?_⟩
  cases habs with
  | register n f _ => exact absurd hl (hpre n f)
  | _ => exact hnone

/-- What `pit_init` leaves behind. -/
theorem accounts_pitInit {p : Pair} {pre : List (Act Handler)} {s : Sys Handler}
    (h : Run Step (booted p) (pre ++ [.register 0 (some .pitIrqHandler), .unmask 0]) s)
    (hpre : ∀ n f, .register n f ∉ pre) (c₀ : UInt32) :
    Accounts c₀ (.start (s.pics.pending 0)) ⟨s, c₀, none⟩ := by
  obtain ⟨u, hu, hlast⟩ := Run.append_iff.1 h
  obtain ⟨a, ha, hnone⟩ := refines_unregistered hu hpre
  obtain ⟨v, hregister, hlast⟩ := Run.cons_iff.1 hlast
  obtain ⟨w, hunmask, hnil⟩ := Run.cons_iff.1 hlast
  cases hnil with
  | nil =>
    obtain ⟨a₁, habs₁, ha₁⟩ := ha.step hregister
    obtain ⟨a₂, habs₂, ha₂⟩ := ha₁.step hunmask
    cases habs₁ with
    | register _ _ _ =>
      cases habs₂ with
      | unmask _ _ hidle =>
        refine ⟨⟨_, ha₂, fun n => ?_, (ha₂.pending 0 (by decide)).symm, ?_⟩, nofun, ?_⟩
        · change irqRegisterHandler 0 _ a.handler n = _ ↔ _
          unfold irqRegisterHandler
          rw [if_pos (by decide), Function.update_apply]
          split
          next hn => exact ⟨fun _ => hn, fun _ => rfl⟩
          next hn =>
            rw [hnone]
            exact ⟨nofun, fun h => absurd h hn⟩
        · rw [hidle]
          exact ⟨nofun, nofun⟩
        · unfold Tally.open Tally.start
          simp

/-- **The tick counter**: after `pit_init`, in every run in which the handler of the timer stays registered for it
alone, `g_tick_count` is the number of its edges and of the heartbeats, less the edges that found another one waiting,
the interrupts that a heartbeat has overwritten, and what waits or is served at the moment. -/
theorem tick_accounting {p : Pair} {pre : List (Act Handler)} {s : Sys Handler} {ls : List TickAct}
    (hinit : Run Step (booted p) (pre ++ [.register 0 (some .pitIrqHandler), .unmask 0]) s)
    (hpre : ∀ n h, .register n h ∉ pre) (h : Run TickStep ⟨s, c₀, none⟩ ls t) (hls : ∀ l ∈ ls, SparesTimer l) :
    let y := tally (s.pics.pending 0) ls
    t.gTickCount + .ofNat (y.merged + y.lost + y.open) = c₀ + .ofNat (y.edges + y.beats) :=
  ((accounts_pitInit hinit hpre c₀).run h hls).count

/-- One edge whose interrupt comes inside a heartbeat: of two increments one is left. -/
theorem tick_accounting_lost : ∃ s t,
    Run Step (booted ⟨initialised 0 0, initialised 0 0⟩) [.register 0 (some .pitIrqHandler), .unmask 0] s ∧
    Run TickStep ⟨s, 0, none⟩
      [.load, .kernel (.raise 0), .kernel (.accept 0), .kernel (.finish (some .pitIrqHandler)), .store] t ∧
    t.gTickCount = 1 := by
  have ha₀ := refines_booted (H := Handler) ⟨initialised 0 0, initialised 0 0⟩
  obtain ⟨s₁, hregister, ha₁⟩ := ha₀.step_back (.register _ 0 (some .pitIrqHandler) rfl)
  obtain ⟨s₂, hunmask, ha₂⟩ := ha₁.step_back (.unmask _ 0 (by decide) rfl)
  obtain ⟨s₃, hraise, ha₃⟩ := ha₂.step_back (.raise _ 0 (by decide))
  obtain ⟨s₄, haccept, ha₄⟩ := ha₃.step_back
    (.accept _ 0 rfl ⟨by decide, rfl, rfl, fun h => absurd h (by decide)⟩ fun _ _ => Nat.zero_le _)
  obtain ⟨s₅, hfinish, ha₅⟩ := ha₄.step_back (.finish _ 0 rfl)
  have hinit : Run Step _ ([] ++ [.register 0 (some .pitIrqHandler), .unmask 0]) s₂ :=
    .cons hregister (.cons hunmask (.nil s₂))
  obtain ⟨t, hrun⟩ : ∃ t, Run TickStep ⟨s₂, 0, none⟩
      [.load, .kernel (.raise 0), .kernel (.accept 0), .kernel (.finish (some .pitIrqHandler)), .store] t :=
    ⟨_, .cons (TickStep.load ha₂.serving rfl) (.cons (.kernel hraise) (.cons (.kernel haccept)
      (.cons (.kernel hfinish) (.cons (TickStep.store ha₅.serving rfl) (.nil _)))))⟩
  have hcount := tick_accounting hinit (fun _ _ => List.not_mem_nil) hrun (by simp [SparesTimer])
  rw [ha₂.pending 0 (by decide)] at hcount
  have hone : t.gTickCount + 1 = 0 + 2 := hcount
  exact ⟨s₂, t, hinit, hrun, by grind⟩

end Accounts

end AuraOS.Kernel.Interrupts
