import AuraOS.Adapters.Ata.Drive
import AuraOS.Lib.Device
import Mathlib.Data.List.Flatten

/-!
# Reading from a drive

What the driver does on a drive that follows the protocol, whatever the drive shows and however long it is busy,
as long as this is within the turns of the polling loops: the rules for its accesses and its polls, and reading,
which returns the sectors up to the first one that is refused (`wp_ataReadSectors`).
-/

namespace AuraOS.Adapters.Ata

open AuraOS.Lib AuraOS.Kernel

/-! ### The accesses -/

section Accesses

variable {b : Behaviour} {v : Drive} {α : Type} {P : α → Drive → Prop} {port : UInt16}

theorem wp_inb {f : UInt8 → PortProg α} (hans : ∃ r v', v.InbStep port r v')
    (h : ∀ r v', v.InbStep port r v' → (f r).wp (Drive.Step b) P v') :
    (Io.inb port >>= f).wp (Drive.Step b) P v := by
  rw [Prog.wp_bind]
  exact ⟨hans, h⟩

theorem wp_outb {x : UInt8} {f : Unit → PortProg α} (hans : ∃ v', v.OutbStep b port x v')
    (h : ∀ v', v.OutbStep b port x v' → (f ()).wp (Drive.Step b) P v') :
    (Io.outb port x >>= f).wp (Drive.Step b) P v := by
  rw [Prog.wp_bind]
  exact ⟨⟨(), hans⟩, fun _ v' => h v'⟩

theorem wp_inw {f : UInt16 → PortProg α} (hans : ∃ r v', v.InwStep b port r v')
    (h : ∀ r v', v.InwStep b port r v' → (f r).wp (Drive.Step b) P v') :
    (Io.inw port >>= f).wp (Drive.Step b) P v := by
  rw [Prog.wp_bind]
  exact ⟨hans, h⟩

theorem wp_outw {x : UInt16} {f : Unit → PortProg α} (hans : ∃ v', v.OutwStep b port x v')
    (h : ∀ v', v.OutwStep b port x v' → (f ()).wp (Drive.Step b) P v') :
    (Io.outw port x >>= f).wp (Drive.Step b) P v := by
  rw [Prog.wp_bind]
  exact ⟨⟨(), hans⟩, fun _ v' => h v'⟩

theorem shows_iff (hw : v.wait = 0) {st : UInt8} : v.Shows st ↔ st &&& ataSrBsy = 0 ∧ st &&& ataSrRdy ≠ 0 ∧
    (st &&& ataSrDrq ≠ 0 ↔ v.phase ≠ .idle) ∧ (st &&& ataSrErr ≠ 0 ∨ st &&& ataSrDf ≠ 0 ↔ v.err) := by
  unfold Drive.Shows
  rw [if_pos hw]

theorem shows_iff_of_wait (hw : v.wait ≠ 0) {st : UInt8} : v.Shows st ↔ st &&& ataSrBsy ≠ 0 := by
  unfold Drive.Shows
  rw [if_neg hw]

theorem exists_shows (v : Drive) : ∃ st, v.Shows st := by
  by_cases hw : v.wait = 0
  · simp only [shows_iff hw]
    by_cases hp : v.phase = .idle
    · cases v.err with
      | false => exact ⟨0x40, by decide, by decide, iff_of_false (by decide) (not_not.2 hp), by decide⟩
      | true => exact ⟨0x41, by decide, by decide, iff_of_false (by decide) (not_not.2 hp), by decide⟩
    · cases v.err with
      | false => exact ⟨0x48, by decide, by decide, iff_of_true (by decide) hp, by decide⟩
      | true => exact ⟨0x49, by decide, by decide, iff_of_true (by decide) hp, by decide⟩
  · simp only [shows_iff_of_wait hw]
    exact ⟨0x80, by decide⟩

/-- The status is read. -/
theorem wp_status {f : UInt8 → PortProg α}
    (h : ∀ st, v.Shows st → (f st).wp (Drive.Step b) P { v with wait := v.wait - 1 }) :
    (Io.inb ataRegStatus >>= f).wp (Drive.Step b) P v := by
  refine wp_inb ?_ fun st v' hstep => ?_
  · obtain ⟨st, hst⟩ := exists_shows v
    exact ⟨st, _, hst, rfl⟩
  · obtain ⟨hst, rfl⟩ := hstep
    exact h st hst

/-- A register is written. -/
theorem wp_setReg {x : UInt8} {f : Unit → PortProg α} (hv : v.accepts) (hport : port ≠ ataRegCommand)
    (h : (f ()).wp (Drive.Step b) P (v.setReg port x)) :
    (Io.outb port x >>= f).wp (Drive.Step b) P v := by
  have hstep : ∀ v', v.OutbStep b port x v' ↔ v' = v.setReg port x := by
    intro v'
    unfold Drive.OutbStep
    rw [if_pos hv, if_neg hport]
  refine wp_outb ⟨_, (hstep _).2 rfl⟩ fun v' hv' => ?_
  rw [(hstep v').1 hv']
  exact h

/-- A command is written to a drive that accepts it. -/
theorem wp_command {x : UInt8} {f : Unit → PortProg α} (hv : v.accepts)
    (h : ∀ w ≤ b.delay, (f ()).wp (Drive.Step b) P { v.command b x with wait := w }) :
    (Io.outb ataRegCommand x >>= f).wp (Drive.Step b) P v := by
  have hstep : ∀ v', v.OutbStep b ataRegCommand x v' ↔ Drive.Busy b (v.command b x) v' := by
    intro v'
    unfold Drive.OutbStep
    rw [if_pos hv, if_pos rfl]
  refine wp_outb ⟨_, (hstep _).2 ⟨0, Nat.zero_le _, rfl⟩⟩ fun v' hv' => ?_
  obtain ⟨w, hw, rfl⟩ := (hstep v').1 hv'
  exact h w hw

/-- What is written to a drive that does not accept it. -/
theorem wp_ignored {x : UInt8} {f : Unit → PortProg α} (hv : ¬v.accepts) (h : (f ()).wp (Drive.Step b) P v) :
    (Io.outb port x >>= f).wp (Drive.Step b) P v := by
  have hstep : ∀ v', v.OutbStep b port x v' ↔ v' = v := by
    intro v'
    unfold Drive.OutbStep
    rw [if_neg hv]
  refine wp_outb ⟨_, (hstep _).2 rfl⟩ fun v' hv' => ?_
  rw [(hstep v').1 hv']
  exact h

end Accesses

/-! ### Polling -/

section Polling

variable {b : Behaviour} {v : Drive} {α : Type} {P : α → Drive → Prop} {f : AuraStatus → PortProg α}

/-- **Polling `BSY`** waits until the drive is not busy. -/
theorem wp_ataPollBsy (hw : v.wait < pollTurns) (h : (f .ok).wp (Drive.Step b) P { v with wait := 0 }) :
    (Program.ataPollBsy >>= f).wp (Drive.Step b) P v := by
  rw [Prog.wp_bind]
  unfold Program.ataPollBsy
  generalize pollTurns = n at hw
  induction n generalizing v with
  | zero => exact absurd hw (Nat.not_lt_zero _)
  | succ n ih =>
    unfold Program.pollLoop
    refine wp_status fun st hst => ?_
    by_cases h0 : v.wait = 0
    · have hv : bsyVerdict st = some .ok := if_pos ((shows_iff h0).1 hst).1
      rw [hv, h0]
      exact h
    · have hv : bsyVerdict st = none := if_neg ((shows_iff_of_wait h0).1 hst)
      rw [hv]
      refine ih h ?_
      dsimp only
      omega

/-- Polling `DRQ` of a drive that transfers a sector. -/
theorem wp_ataPollDrq (hw : v.wait = 0) (hphase : v.phase ≠ .idle) (herr : v.err = false)
    (h : (f .ok).wp (Drive.Step b) P v) : (Program.ataPollDrq >>= f).wp (Drive.Step b) P v := by
  rw [Prog.wp_bind]
  unfold Program.ataPollDrq
  obtain ⟨n, hn⟩ : ∃ n, pollTurns = n + 1 := ⟨0xFFFFF, rfl⟩
  rw [hn]
  unfold Program.pollLoop
  refine wp_status fun st hst => ?_
  obtain ⟨-, -, hdrq, hst⟩ := (shows_iff hw).1 hst
  have hnone : ¬(st &&& ataSrErr ≠ 0 ∨ st &&& ataSrDf ≠ 0) := by
    rw [hst, herr]
    exact Bool.false_ne_true
  rw [not_or] at hnone
  have hv : drqVerdict st = some .ok := by
    unfold drqVerdict
    rw [if_neg hnone.1, if_neg hnone.2, if_pos (hdrq.2 hphase)]
  rw [hv, hw]
  have hself : ({ v with wait := 0 - 1 } : Drive) = v := by
    rw [Nat.zero_sub, ← hw]
  rw [hself]
  exact h

/-- Polling `DRQ` of a drive that transfers nothing, with an error or without. -/
theorem wp_ataPollDrq_idle (hw : v.wait = 0) (hphase : v.phase = .idle) (h : (f .err).wp (Drive.Step b) P v) :
    (Program.ataPollDrq >>= f).wp (Drive.Step b) P v := by
  rw [Prog.wp_bind]
  unfold Program.ataPollDrq
  have hself : ({ v with wait := v.wait - 1 } : Drive) = v := by
    conv_lhs => rw [hw, Nat.zero_sub, ← hw]
  induction pollTurns with
  | zero => exact h
  | succ n ih =>
    unfold Program.pollLoop
    refine wp_status fun st hst => ?_
    obtain ⟨-, -, hdrq, -⟩ := (shows_iff hw).1 hst
    have hclear : ¬st &&& ataSrDrq ≠ 0 := fun h => hdrq.1 h hphase
    rw [hself]
    unfold drqVerdict
    rw [if_neg hclear]
    by_cases herr : st &&& ataSrErr ≠ 0
    · rw [if_pos herr]
      exact h
    · rw [if_neg herr]
      by_cases hdf : st &&& ataSrDf ≠ 0
      · rw [if_pos hdf]
        exact h
      · rw [if_neg hdf]
        exact ih

end Polling

/-! ### The registers -/

section Registers

variable {b : Behaviour} {v : Drive} {lba : UInt32} {count : UInt8}

/-- The registers after `ataSetupLba`. -/
def located (lba : UInt32) (count : UInt8) (v : Drive) : Drive :=
  { v with hdsel := ((0xE0 : UInt32) ||| ((lba >>> 24) &&& 0x0F)).toUInt8, seccount := count,
           lba0 := (lba &&& 0xFF).toUInt8, lba1 := ((lba >>> 8) &&& 0xFF).toUInt8,
           lba2 := ((lba >>> 16) &&& 0xFF).toUInt8 }

theorem wp_ataSetupLba {P : Unit → Drive → Prop} (hv : v.accepts) (h : P () (located lba count v)) :
    (Program.ataSetupLba lba count).wp (Drive.Step b) P v := by
  unfold Program.ataSetupLba
  refine wp_setReg hv (by decide) ?_
  refine wp_setReg hv (by decide) ?_
  refine wp_setReg hv (by decide) ?_
  refine wp_setReg hv (by decide) ?_
  refine wp_setReg hv (by decide) ?_
  rw [← Prog.wp_bind_pure]
  exact wp_setReg hv (by decide) h

/-- The address that the registers give. -/
theorem located_addr : (located lba count v).addr = lba.toNat % 2 ^ 28 := by
  have hlba : lba.toNat < 2 ^ 32 := lba.toNat_lt
  have hmask : ∀ x : UInt32, (x &&& 0xFF).toUInt8.toNat = x.toNat % 2 ^ 8 := by
    intro x
    rw [UInt32.toNat_toUInt8, UInt32.toNat_and, show (0xFF : UInt32).toNat = 2 ^ 8 - 1 from rfl,
      Nat.and_two_pow_sub_one_eq_mod, Nat.mod_mod]
  have hshift : ∀ k : ℕ, k < 32 → (lba >>> UInt32.ofNat k).toNat = lba.toNat / 2 ^ k := by
    intro k hk
    rw [UInt32.toNat_shiftRight, UInt32.toNat_ofNat', Nat.mod_eq_of_lt (show k < 2 ^ 32 by omega),
      Nat.shiftRight_eq_div_pow, Nat.mod_eq_of_lt hk]
  have h8 : (lba >>> 8).toNat = lba.toNat / 2 ^ 8 := hshift 8 (by omega)
  have h16 : (lba >>> 16).toNat = lba.toNat / 2 ^ 16 := hshift 16 (by omega)
  have h24 : (lba >>> 24).toNat = lba.toNat / 2 ^ 24 := hshift 24 (by omega)
  have hhd : ((0xE0 : UInt32) ||| ((lba >>> 24) &&& 0x0F)).toUInt8.toNat % 16 = lba.toNat / 2 ^ 24 % 16 := by
    rw [UInt32.toNat_toUInt8, UInt32.toNat_or, UInt32.toNat_and, h24, show (0x0F : UInt32).toNat = 2 ^ 4 - 1 from rfl,
      Nat.and_two_pow_sub_one_eq_mod, Nat.or_comm, show (0xE0 : UInt32).toNat = 14 * 2 ^ 4 from rfl,
      or_shift (Nat.mod_lt _ (by decide))]
    omega
  unfold located Drive.addr
  dsimp only
  rw [hmask, hmask, hmask, h8, h16, hhd]
  omega

theorem located_count (hcount : count ≠ 0) : (located lba count v).count = count.toNat := if_neg hcount

end Registers

/-! ### The next sector -/

/-- The drive has turned to the sector `a`, the one with the number `o`, and then to `next` unless it refuses. -/
structure Facing (b : Behaviour) (next : Phase) (o a : ℕ) (d : ℕ → Sector) (v : Drive) : Prop where
  disk : v.disk = d
  ops : v.ops = o + 1
  wait : v.wait ≤ b.delay
  phase : v.phase = if b.refuse o a then .idle else next
  err : b.refuse o a = false → v.err = false

section Facing

variable {b : Behaviour} {u v : Drive} {next : Phase} {o a lba left w : ℕ} {d : ℕ → Sector} {p : Phase}

theorem facing_turn (next : Phase) (a : ℕ) (herr : u.err = false) (hops : u.ops = o) (hdisk : u.disk = d)
    (hw : u.wait ≤ b.delay) : Facing b next o a d (u.turn b next a) := by
  subst hops hdisk
  unfold Drive.turn
  split
  next h => exact ⟨rfl, rfl, hw, (if_pos h).symm, fun h' => absurd h (Bool.eq_false_iff.1 h')⟩
  next h => exact ⟨rfl, rfl, hw, (if_neg h).symm, fun _ => herr⟩

theorem Facing.busy (hv : Facing b next o a d v) (hw : w ≤ b.delay) :
    Facing b next o a d { v with wait := w } := ⟨hv.disk, hv.ops, hw, hv.phase, hv.err⟩

theorem turn_phase : ({ v with phase := p } : Drive).turn b next a = v.turn b next a := by
  unfold Drive.turn
  split
  · rfl
  · rfl

theorem endRead_phase : ({ v with phase := p } : Drive).endRead b lba left = v.endRead b lba left := by
  unfold Drive.endRead
  rw [turn_phase]

theorem endWrite_phase (got : List UInt16) :
    ({ v with phase := p } : Drive).endWrite b lba left got = v.endWrite b lba left got := by
  unfold Drive.endWrite
  split
  · rfl
  · dsimp only
    split
    · rfl
    · exact @turn_phase b { v with disk := Function.update v.disk lba (ofWords fun i => got.getD i 0) } _ _ p

end Facing

/-! ### Counting sectors -/

/-- How many of the `n` sectors from `a` on come before the first bad one, by their number and their address. -/
def ahead (bad : ℕ → ℕ → Bool) (o a n : ℕ) : ℕ := streak (fun j => bad (o + j) (a + j)) 0 n

theorem ahead_succ (bad : ℕ → ℕ → Bool) (o a n : ℕ) :
    ahead bad o a (n + 1) = if bad o a then 0 else ahead bad (o + 1) (a + 1) n + 1 := by
  have hnext : ahead bad (o + 1) (a + 1) n = streak (fun j => bad (o + j) (a + j)) 1 n := by
    rw [← Nat.zero_add 1, ← streak_shift]
    unfold ahead
    congr 1
    funext j
    rw [Nat.zero_add, Nat.add_right_comm o, Nat.add_right_comm a, Nat.add_assoc o, Nat.add_assoc a]
  rw [hnext]
  rfl

theorem ahead_le (bad : ℕ → ℕ → Bool) (o a n : ℕ) : ahead bad o a n ≤ n := streak_le 0 n

theorem le_ahead_iff {bad : ℕ → ℕ → Bool} {o a m n : ℕ} (hm : m ≤ n) :
    m ≤ ahead bad o a n ↔ ∀ j < m, bad (o + j) (a + j) = false := by
  unfold ahead
  rw [le_streak_iff 0 hm]
  simp only [Nat.zero_add]

theorem ahead_eq_iff {bad : ℕ → ℕ → Bool} {o a n : ℕ} :
    ahead bad o a n = n ↔ ∀ j < n, bad (o + j) (a + j) = false := by
  rw [← le_ahead_iff (Nat.le_refl n)]
  exact ⟨fun h => Nat.le_of_eq h.symm, fun h => Nat.le_antisymm (ahead_le _ _ _ _) h⟩

/-- The sectors before the first one that is refused. -/
def Behaviour.given (b : Behaviour) : ℕ → ℕ → ℕ → ℕ := ahead b.refuse

/-- The sectors before the first one that is refused or lost. -/
def Behaviour.kept (b : Behaviour) : ℕ → ℕ → ℕ → ℕ := ahead fun o a => b.refuse o a || b.lose o a

theorem given_succ (b : Behaviour) (o a n : ℕ) :
    b.given o a (n + 1) = if b.refuse o a then 0 else b.given (o + 1) (a + 1) n + 1 := ahead_succ _ o a n

theorem kept_succ (b : Behaviour) (o a n : ℕ) :
    b.kept o a (n + 1) = if b.refuse o a || b.lose o a then 0 else b.kept (o + 1) (a + 1) n + 1 :=
  ahead_succ _ o a n

/-! ### Reading -/

section Reading

variable {b : Behaviour} {v : Drive}

/-- **The effect of reading** `n` sectors from `a` on, the first one with the number `o`: those up to the first
one that is refused are returned, and the disk stays. -/
structure ReadDone (b : Behaviour) (o a n : ℕ) (d : ℕ → Sector) (r : AuraStatus × List UInt16) (v : Drive) :
    Prop where
  status : r.1 = if b.given o a n = n then .ok else .err
  words : r.2 = (List.range (b.given o a n)).flatMap fun j => words (d (a + j))
  disk : v.disk = d
  ops : v.ops = o + min (b.given o a n + 1) n
  rest : v.Rest b

theorem wp_readWords {P : List UInt16 → Drive → Prop} {lba left : ℕ} (hw : v.wait = 0) (m i : ℕ)
    (hphase : v.phase = .reading lba left i) (hm : i + (m + 1) = sectorWords)
    (h : ∀ w ≤ b.delay, P ((List.range' i (m + 1)).map (word (v.disk lba))) { v.endRead b lba left with wait := w }) :
    (Program.readWords (m + 1)).wp (Drive.Step b) P v := by
  have hstep : ∀ r v', v.InwStep b ataRegData r v' ↔ r = word (v.disk lba) i ∧
      if i + 1 < sectorWords then v' = { v with phase := .reading lba left (i + 1) }
      else Drive.Busy b (v.endRead b lba left) v' := by
    intro r v'
    unfold Drive.InwStep
    rw [if_pos ⟨rfl, hw⟩, hphase]
  unfold Program.readWords
  induction m generalizing v i P with
  | zero =>
    simp only [if_neg (show ¬i + 1 < sectorWords by omega)] at hstep
    refine wp_inw ⟨_, _, (hstep _ _).2 ⟨rfl, 0, Nat.zero_le _, rfl⟩⟩ fun r v' hv' => ?_
    obtain ⟨rfl, w, hwait, rfl⟩ := (hstep r v').1 hv'
    exact h w hwait
  | succ m ih =>
    simp only [if_pos (show i + 1 < sectorWords by omega)] at hstep
    refine wp_inw ⟨_, _, (hstep _ _).2 ⟨rfl, rfl⟩⟩ fun r v' hv' => ?_
    obtain ⟨rfl, rfl⟩ := (hstep r v').1 hv'
    rw [Prog.wp_bind]
    unfold Program.readWords
    refine ih hw (i + 1) rfl (by omega) (fun w hwait => ?_) fun r v' => ?_
    · rw [endRead_phase]
      exact h w hwait
    · unfold Drive.InwStep
      rw [if_pos ⟨rfl, hw⟩]

/-- One sector, and the drive behind it. -/
theorem wp_readSector {P : List UInt16 → Drive → Prop} {lba left : ℕ} (hw : v.wait = 0)
    (hphase : v.phase = .reading lba left 0)
    (h : ∀ w ≤ b.delay, P (words (v.disk lba)) { v.endRead b lba left with wait := w }) :
    (Program.readWords sectorWords).wp (Drive.Step b) P v := by
  refine wp_readWords hw 255 0 hphase rfl fun w hwait => ?_
  have := h w hwait
  unfold words at this
  rwa [List.range_eq_range'] at this

/-- One turn of the loop of reading. -/
theorem wp_readLoop_succ {P : AuraStatus × List UInt16 → Drive → Prop} {n o a left : ℕ} {d : ℕ → Sector}
    (hdelay : b.delay < pollTurns) (hv : Facing b (.reading a left 0) o a d v)
    (hrefuse : b.refuse o a = true → P (.err, []) { v with wait := 0 })
    (hread : b.refuse o a = false → ∀ w ≤ b.delay,
      (Program.readLoop n).wp (Drive.Step b) (fun rest v' => P (rest.1, words (d a) ++ rest.2) v')
        { ({ v with wait := 0 } : Drive).endRead b a left with wait := w }) :
    (Program.readLoop (n + 1)).wp (Drive.Step b) P v := by
  unfold Program.readLoop
  refine wp_ataPollBsy (Nat.lt_of_le_of_lt hv.wait hdelay) ?_
  rw [if_neg (by decide)]
  have hphase := hv.phase
  cases hr : b.refuse o a with
  | true =>
    rw [hr, if_pos rfl] at hphase
    refine wp_ataPollDrq_idle rfl hphase ?_
    rw [if_pos (by decide)]
    exact hrefuse hr
  | false =>
    rw [hr, if_neg (by decide)] at hphase
    refine wp_ataPollDrq rfl (fun h => ?_) (hv.err hr) ?_
    · cases hphase.symm.trans h
    rw [if_neg (by decide), Prog.wp_bind]
    refine wp_readSector rfl hphase fun w hw => ?_
    rw [Prog.wp_bind]
    have := hread hr w hw
    rw [← hv.disk] at this
    exact this

/-- **The loop of reading**. -/
theorem wp_readLoop (hdelay : b.delay < pollTurns) (n : ℕ) {o a : ℕ} {d : ℕ → Sector}
    (hv : Facing b (.reading a (n + 1) 0) o a d v) :
    (Program.readLoop (n + 1)).wp (Drive.Step b) (ReadDone b o a (n + 1) d) v := by
  induction n generalizing o a v with
  | zero =>
    refine wp_readLoop_succ hdelay hv (fun hr => ?_) fun hr w hw => ?_
    · have hgiven : b.given o a 1 = 0 := by rw [given_succ, hr, if_pos rfl]
      refine ⟨by rw [hgiven]; rfl, by rw [hgiven]; rfl, hv.disk, by rw [hgiven]; exact hv.ops, ?_, Nat.zero_le _⟩
      exact hv.phase.trans (if_pos hr)
    · have hgiven : b.given o a 1 = 1 := by
        rw [given_succ, hr, if_neg (by decide)]
        rfl
      unfold Drive.endRead
      rw [if_pos (Nat.le_refl 1)]
      refine ⟨by rw [hgiven]; rfl, ?_, hv.disk, by rw [hgiven]; exact hv.ops, rfl, hw⟩
      rw [hgiven]
      simp
  | succ n ih =>
    refine wp_readLoop_succ hdelay hv (fun hr => ?_) fun hr w hw => ?_
    · have hgiven : b.given o a (n + 2) = 0 := by rw [given_succ, hr, if_pos rfl]
      refine ⟨by rw [hgiven]; rfl, by rw [hgiven]; rfl, hv.disk, ?_, ?_, Nat.zero_le _⟩
      · rw [hgiven, Nat.min_eq_left (by omega)]
        exact hv.ops
      · exact hv.phase.trans (if_pos hr)
    · have hgiven : b.given o a (n + 2) = b.given (o + 1) (a + 1) (n + 1) + 1 := by
        rw [given_succ, hr, if_neg (by decide)]
      unfold Drive.endRead
      rw [if_neg (by omega)]
      have hface : Facing b (.reading (a + 1) (n + 1) 0) (o + 1) (a + 1) d _ :=
        facing_turn (u := { v with wait := 0 }) _ _ (hv.err hr) hv.ops hv.disk (Nat.zero_le _)
      refine (ih (hface.busy hw)).mono fun rest v' hdone => ?_
      refine ⟨?_, ?_, hdone.disk, ?_, hdone.rest⟩
      · rw [hdone.status, hgiven]
        exact if_congr (by omega) rfl rfl
      · rw [hdone.words, hgiven, List.range_succ_eq_map, List.flatMap_cons, List.flatMap_map]
        simp [Nat.add_right_comm, Nat.add_assoc]
      · rw [hdone.ops, hgiven]
        omega

/-- **Reading** a number of sectors on any drive that follows the protocol. -/
theorem wp_ataReadSectors (hdelay : b.delay < pollTurns) (hv : v.Rest b) (lba : UInt32) {count : UInt8}
    (hcount : count ≠ 0) : (Program.ataReadSectors lba count true).wp (Drive.Step b)
      (ReadDone b v.ops (lba.toNat % 2 ^ 28) count.toNat v.disk) v := by
  obtain ⟨n, hn⟩ : ∃ n, count.toNat = n + 1 :=
    Nat.exists_eq_succ_of_ne_zero fun h0 => hcount (UInt8.toNat.inj h0)
  unfold Program.ataReadSectors
  rw [if_neg (by simp [hcount])]
  refine wp_ataPollBsy (Nat.lt_of_le_of_lt hv.wait hdelay) ?_
  rw [if_neg (by decide), Prog.wp_bind]
  refine wp_ataSetupLba ⟨rfl, hv.phase⟩ (wp_command ⟨rfl, hv.phase⟩ fun w hw => ?_)
  unfold Drive.command
  rw [if_pos rfl, located_addr, located_count hcount, hn]
  have hface : Facing b (.reading (lba.toNat % 2 ^ 28) (n + 1) 0) v.ops (lba.toNat % 2 ^ 28) v.disk _ :=
    facing_turn (u := { located lba count { v with wait := 0 } with err := false }) _ _ rfl rfl rfl (Nat.zero_le _)
  exact wp_readLoop hdelay n (hface.busy hw)

/-- **Reading is correct**: on every drive that follows the protocol and is at rest, and is never busy for longer
than the polls wait, the result is `AURA_OK` exactly if no sector is refused.  In any case the buffer holds the words
of the sectors before the first one that is refused, and of no others, and the disk stays. -/
theorem ataReadSectors_correct (hdelay : b.delay < pollTurns) (hv : v.Rest b) (lba : UInt32) {count : UInt8}
    (hcount : count ≠ 0) :
    let a := lba.toNat % 2 ^ 28
    (Program.ataReadSectors lba count true).wp (Drive.Step b) (fun r v' =>
      (r.1 = .ok ↔ ∀ j < count.toNat, b.refuse (v.ops + j) (a + j) = false) ∧
        (r.2 = (List.range (b.given v.ops a count.toNat)).flatMap fun j => words (v.disk (a + j))) ∧
        (r.1 = .ok → r.2 = (List.range count.toNat).flatMap fun j => words (v.disk (a + j))) ∧
        v'.disk = v.disk ∧ v'.Rest b) v := by
  intro a
  refine (wp_ataReadSectors hdelay hv lba hcount).mono fun r v' hdone => ?_
  have hok : r.1 = .ok ↔ b.given v.ops a count.toNat = count.toNat := by
    rw [hdone.status]
    split
    next h => exact iff_of_true rfl h
    next h => exact iff_of_false (by decide) h
  refine ⟨hok.trans ahead_eq_iff, hdone.words, fun h => ?_, hdone.disk, hdone.rest⟩
  have hwords := hdone.words
  rwa [hok.1 h] at hwords

end Reading

/-- A drive that refuses the sector with the number `o`. -/
def Behaviour.refusing (o : ℕ) : Behaviour := ⟨3, fun o' _ => decide (o' = o), fun _ _ => false⟩

/-- The second of three sectors is refused, and the first one is read. -/
theorem ataReadSectors_correct_refused : ∃ r v', Prog.Exec (Drive.Step (.refusing 1)) blankDrive
    (Program.ataReadSectors 5 3 true) r v' ∧ r.1 ≠ .ok ∧ r.2 = words (blankDrive.disk 5) ∧
      v'.disk = blankDrive.disk := by
  obtain ⟨r, v', hexec, hok, hwords, -, hdisk, -⟩ :=
    (ataReadSectors_correct (b := .refusing 1) (v := blankDrive) (by decide) ⟨rfl, by decide⟩ 5
      (show (3 : UInt8) ≠ 0 by decide)).exists_exec
  have hgiven : (Behaviour.refusing 1).given blankDrive.ops ((5 : UInt32).toNat % 2 ^ 28) (3 : UInt8).toNat = 1 := by
    decide
  rw [hgiven] at hwords
  refine ⟨r, v', hexec, fun h => absurd (hok.1 h 1 (by decide)) (by decide), ?_, hdisk⟩
  rw [hwords]
  exact List.flatMap_singleton _ _

end AuraOS.Adapters.Ata
