import AuraOS.Adapters.Ata.Defs
import Mathlib.Data.List.Count

/-!
# The discipline of the command register

A command must not be written before the drive was seen not busy, with no data moved since, and all sectors
of the command before it were transferred.  Reading keeps to this whatever the drive answers.  Writing
issues the flush right behind the words of each sector, so it keeps to this only if no sector gets that far
(`ata_discipline`).
-/

namespace AuraOS.Adapters.Ata

open AuraOS.Lib AuraOS.Kernel

/-- The access writes the command register. -/
def PortOp.isCommand : PortOp → Bool
  | outb port _ => port = ataRegCommand
  | _ => false

/-- The access transfers a word of data. -/
def PortOp.isData : PortOp → Bool
  | inw port _ => port = ataRegData
  | outw port _ => port = ataRegData
  | _ => false

/-- The last accesses are a read of the status with `BSY` clear, and others without data. -/
def Idle (pre : List PortOp) : Prop :=
  ∃ p st q, pre = p ++ .inb ataRegStatus st :: q ∧ st &&& ataSrBsy = 0 ∧ ∀ op ∈ q, op.isData = false

/-- All words of `count` sectors were transferred since each command to read or to write. -/
def Complete (count : ℕ) (pre : List PortOp) : Prop :=
  ∀ p cmd q, pre = p ++ .outb ataRegCommand cmd :: q → cmd = ataCmdReadPio ∨ cmd = ataCmdWritePio →
    sectorWords * count ≤ q.countP PortOp.isData

/-- Every command is written to an idle drive, when the one before it is complete. -/
def Discipline (count : ℕ) (trace : List PortOp) : Prop :=
  ∀ pre cmd post, trace = pre ++ .outb ataRegCommand cmd :: post → Idle pre ∧ Complete count pre

/-- The drive becomes idle, becomes idle again after the command, and asks for the first sector: each within
the turns of its poll. -/
def FirstReady (status : ℕ → UInt8) : Prop :=
  ∃ i j k, first (fun n => (bsyVerdict (status n)).isSome) pollTurns 0 = some i ∧
    first (fun n => (bsyVerdict (status n)).isSome) pollTurns (i + 1) = some j ∧
    first (fun n => (drqVerdict (status n)).isSome) pollTurns (j + 1) = some k ∧
    drqVerdict (status k) = some .ok

section Trace

variable {pre post : List PortOp} {op : PortOp} {cmd : UInt8} {count : ℕ}

/-- The only command of a trace. -/
theorem eq_of_append {A B : List PortOp} (h : A ++ op :: B = pre ++ .outb ataRegCommand cmd :: post)
    (hA : ∀ op ∈ A, op.isCommand = false) (hB : ∀ op ∈ B, op.isCommand = false) : pre = A := by
  have hcmd : (PortOp.outb ataRegCommand cmd).isCommand = true := rfl
  rcases List.append_eq_append_iff.1 h with ⟨C, rfl, e⟩ | ⟨C, rfl, e⟩
  · cases C with
    | nil => rw [List.append_nil]
    | cons c C =>
      obtain ⟨-, rfl⟩ := List.cons.inj e
      rw [hB _ (by simp)] at hcmd
      cases hcmd
  · cases C with
    | nil => rw [List.append_nil]
    | cons c C =>
      obtain ⟨rfl, -⟩ := List.cons.inj e
      rw [hA _ (by simp)] at hcmd
      cases hcmd

theorem discipline_of_none {A : List PortOp} (hA : ∀ op ∈ A, op.isCommand = false) :
    Discipline count A := by
  rintro pre cmd post rfl
  have : (PortOp.outb ataRegCommand cmd).isCommand = false := hA _ (by simp)
  cases this

theorem discipline_of_one (cmd : UInt8) (count : ℕ) {A B : List PortOp} (hA : ∀ op ∈ A, op.isCommand = false)
    (hidle : Idle A) (hB : ∀ op ∈ B, op.isCommand = false) :
    Discipline count (A ++ .outb ataRegCommand cmd :: B) := by
  intro pre cmd' post h
  obtain rfl := eq_of_append h hA hB
  refine ⟨hidle, fun p c q e => ?_⟩
  have : (PortOp.outb ataRegCommand c).isCommand = false := hA _ (by rw [e]; simp)
  cases this

/-- A command right behind a word of data. -/
theorem not_discipline_of_data {A B : List PortOp} (hop : op.isData = true) :
    ¬Discipline count (A ++ op :: .outb ataRegCommand cmd :: B) := by
  intro h
  obtain ⟨⟨p, st, q, e, -, hq⟩, -⟩ := h (A ++ [op]) cmd B (by simp)
  rcases List.eq_nil_or_concat q with rfl | ⟨q, c, rfl⟩
  · have := List.append_inj_right' e rfl
    cases this
    cases hop
  · rw [List.concat_eq_append, ← List.cons_append, ← List.append_assoc] at e
    have := List.append_inj_right' e rfl
    cases this
    rw [hq op (by simp)] at hop
    cases hop

end Trace

/-! ### What the operations add to the trace -/

section Adds

variable {d : Device} {s t : Port} {lba : UInt32} {count : UInt8} {buf : ℕ → UInt16} {i n : ℕ}

/-- `t` is `s` after accesses that write no command. -/
def Silent (s t : Port) : Prop := ∃ ops, t.trace = s.trace ++ ops ∧ ∀ op ∈ ops, op.isCommand = false

theorem Silent.refl (s : Port) : Silent s s := ⟨[], (List.append_nil _).symm, nofun⟩

theorem Silent.trans {u : Port} (h : Silent s t) (h' : Silent t u) : Silent s u := by
  obtain ⟨ops, e, hops⟩ := h
  obtain ⟨ops', e', hops'⟩ := h'
  refine ⟨ops ++ ops', by rw [e', e, List.append_assoc], fun op hop => ?_⟩
  exact (List.mem_append.1 hop).elim (hops op) (hops' op)

/-- **A polling loop** stops at the first status with a verdict, and reads the status only. -/
theorem pollLoop_spec (verdict : UInt8 → Option AuraStatus) (n : ℕ) (s : Port) :
    (∃ i ops, first (fun k => (verdict (d.status k)).isSome) n s.statusReads = some i ∧
      (∀ op ∈ ops, op.isCommand = false) ∧ ∀ r, verdict (d.status i) = some r →
        pollLoop d verdict n s = (r, { s.add (ops ++ [.inb ataRegStatus (d.status i)]) with statusReads := i + 1 })) ∨
    first (fun k => (verdict (d.status k)).isSome) n s.statusReads = none ∧
      (pollLoop d verdict n s).1 = .err ∧ Silent s (pollLoop d verdict n s).2 := by
  induction n generalizing s with
  | zero => exact Or.inr ⟨rfl, rfl, Silent.refl s⟩
  | succ n ih =>
    have hread : (PortOp.inb ataRegStatus (d.status s.statusReads)).isCommand = false := rfl
    rw [first_succ]
    unfold pollLoop
    dsimp only [inStatus]
    cases hv : verdict (d.status s.statusReads) with
    | some r =>
      refine Or.inl ⟨s.statusReads, [], by simp, nofun, fun r' hr' => ?_⟩
      rw [← Option.some.inj (hv.symm.trans hr')]
      rfl
    | none =>
      dsimp only
      rw [if_neg (by simp)]
      rcases ih { s.add [.inb ataRegStatus (d.status s.statusReads)] with
        statusReads := s.statusReads + 1 } with ⟨i, ops, hf, hops, hrun⟩ | ⟨hf, hrun, ops, e, hops⟩
      · refine Or.inl ⟨i, .inb ataRegStatus (d.status s.statusReads) :: ops, hf,
          List.forall_mem_cons.2 ⟨hread, hops⟩, fun r hr => ?_⟩
        rw [hrun r hr]
        unfold Port.add
        simp
      · refine Or.inr ⟨hf, hrun, .inb ataRegStatus (d.status s.statusReads) :: ops, ?_,
          List.forall_mem_cons.2 ⟨hread, hops⟩⟩
        rw [e]
        unfold Port.add
        simp

/-- Polling `BSY`. -/
theorem ataPollBsy_cases (d : Device) (s : Port) :
    (∃ i ops, first (fun k => (bsyVerdict (d.status k)).isSome) pollTurns s.statusReads = some i ∧
      d.status i &&& ataSrBsy = 0 ∧ (∀ op ∈ ops, op.isCommand = false) ∧
      ataPollBsy d s = (.ok, { s.add (ops ++ [.inb ataRegStatus (d.status i)]) with statusReads := i + 1 })) ∨
    first (fun k => (bsyVerdict (d.status k)).isSome) pollTurns s.statusReads = none ∧
      (ataPollBsy d s).1 = .err ∧ Silent s (ataPollBsy d s).2 := by
  refine (pollLoop_spec bsyVerdict pollTurns s).imp_left ?_
  rintro ⟨i, ops, hf, hops, hrun⟩
  have hsome := (first_eq_some_iff.1 hf).2.2.1
  have hclear : d.status i &&& ataSrBsy = 0 := by
    by_contra h
    unfold bsyVerdict at hsome
    rw [if_neg h] at hsome
    cases hsome
  exact ⟨i, ops, hf, hclear, hops, hrun .ok (if_pos hclear)⟩

/-- Polling `DRQ`. -/
theorem ataPollDrq_cases (d : Device) (s : Port) :
    (∃ i, first (fun k => (drqVerdict (d.status k)).isSome) pollTurns s.statusReads = some i ∧
      drqVerdict (d.status i) = some .ok ∧ (ataPollDrq d s).1 = .ok) ∨
    (∀ i, first (fun k => (drqVerdict (d.status k)).isSome) pollTurns s.statusReads = some i →
      drqVerdict (d.status i) ≠ some .ok) ∧ (ataPollDrq d s).1 ≠ .ok := by
  rcases pollLoop_spec drqVerdict pollTurns s with ⟨i, ops, hf, hops, hrun⟩ | ⟨hf, hrun, -⟩
  · obtain ⟨r, hr⟩ := Option.isSome_iff_exists.1 (first_eq_some_iff.1 hf).2.2.1
    have hres : (ataPollDrq d s).1 = r := by
      unfold ataPollDrq
      rw [hrun r hr]
    by_cases hok : r = .ok
    · exact Or.inl ⟨i, hf, hok ▸ hr, hres.trans hok⟩
    · refine Or.inr ⟨fun j hj e => ?_, hres ▸ hok⟩
      rw [← Option.some.inj (hf.symm.trans hj), hr] at e
      exact hok (Option.some.inj e)
  · refine Or.inr ⟨fun j hj => ?_, fun e => ?_⟩
    · rw [hf] at hj
      cases hj
    · unfold ataPollDrq at e
      rw [hrun] at e
      cases e

theorem silent_pollLoop (verdict : UInt8 → Option AuraStatus) (n : ℕ) (s : Port) :
    Silent s (pollLoop d verdict n s).2 := by
  rcases pollLoop_spec (d := d) verdict n s with ⟨i, ops, hf, hops, hrun⟩ | ⟨-, -, h⟩
  · obtain ⟨r, hr⟩ := Option.isSome_iff_exists.1 (first_eq_some_iff.1 hf).2.2.1
    rw [hrun r hr]
    refine ⟨_, rfl, fun op hop => (List.mem_append.1 hop).elim (hops op) fun hop => ?_⟩
    rw [List.mem_singleton.1 hop]
    rfl
  · exact h

theorem silent_ataPollBsy (d : Device) (s : Port) : Silent s (ataPollBsy d s).2 :=
  silent_pollLoop bsyVerdict pollTurns s

theorem silent_ataPollDrq (d : Device) (s : Port) : Silent s (ataPollDrq d s).2 :=
  silent_pollLoop drqVerdict pollTurns s

theorem silent_readWords (d : Device) (n : ℕ) (s : Port) : Silent s (readWords d n s).2 := by
  induction n generalizing s with
  | zero => exact Silent.refl s
  | succ n ih =>
    refine Silent.trans ⟨[.inw ataRegData (d.data s.dataReads)], rfl, fun op hop => ?_⟩ (ih _)
    rw [List.mem_singleton.1 hop]
    rfl

theorem silent_readLoop : Silent s (readLoop d n s).2.2 := by
  induction n generalizing s with
  | zero => exact Silent.refl s
  | succ n ih =>
    unfold readLoop
    have hbsy := silent_ataPollBsy d s
    generalize ataPollBsy d s = bsy at hbsy ⊢
    dsimp only
    split
    · exact hbsy
    · have hdrq := hbsy.trans (silent_ataPollDrq d bsy.2)
      generalize ataPollDrq d bsy.2 = drq at hdrq ⊢
      split
      · exact hdrq
      · have hwords := hdrq.trans (silent_readWords d sectorWords drq.2)
        generalize readWords d sectorWords drq.2 = words at hwords ⊢
        exact hwords.trans ih

theorem writeWords_eq : writeWords buf n i s =
    s.add ((List.range' i n).map fun k => .outw ataRegData (buf k)) := by
  induction n generalizing i s with
  | zero =>
    unfold Port.add
    simp [writeWords]
  | succ n ih =>
    unfold writeWords
    rw [ih, List.range'_succ]
    unfold Port.add
    simp

/-- The accesses of `ataSetupLba`. -/
theorem ataSetupLba_spec (lba : UInt32) (count : UInt8) (s : Port) :
    ∃ ops, ataSetupLba lba count s = s.add ops ∧ ∀ op ∈ ops, op.isCommand = false ∧ op.isData = false := by
  refine ⟨[.outb ataRegHdsel ((0xE0 : UInt32) ||| ((lba >>> 24) &&& 0x0F)).toUInt8, .outb ataRegFeatures 0x00,
    .outb ataRegSeccount count, .outb ataRegLba0 (lba &&& 0xFF).toUInt8,
    .outb ataRegLba1 ((lba >>> 8) &&& 0xFF).toUInt8, .outb ataRegLba2 ((lba >>> 16) &&& 0xFF).toUInt8], ?_, ?_⟩
  · unfold ataSetupLba outb Port.add
    simp
  · simp [PortOp.isCommand, PortOp.isData, ataRegHdsel, ataRegFeatures, ataRegSeccount, ataRegLba0, ataRegLba1,
      ataRegLba2, ataRegCommand]

/-- The trace only grows. -/
def Extends (s t : Port) : Prop := ∃ ops, t.trace = s.trace ++ ops

theorem Silent.extends (h : Silent s t) : Extends s t := h.imp fun _ h => h.1

theorem Extends.trans {u : Port} (h : Extends s t) (h' : Extends t u) : Extends s u := by
  obtain ⟨ops, e⟩ := h
  obtain ⟨ops', e'⟩ := h'
  exact ⟨ops ++ ops', by rw [e', e, List.append_assoc]⟩

theorem extends_add (s : Port) (ops : List PortOp) : Extends s (s.add ops) := ⟨ops, rfl⟩

theorem extends_flush (buf : ℕ → UInt16) (n i : ℕ) (s : Port) :
    Extends s (outb ataRegCommand ataCmdFlush (writeWords buf n i s)) := by
  rw [writeWords_eq]
  exact (extends_add _ _).trans (extends_add _ _)

theorem extends_writeLoop : Extends s (writeLoop d buf n i s).2 := by
  induction n generalizing i s with
  | zero => exact (Silent.refl s).extends
  | succ n ih =>
    unfold writeLoop
    have hbsy := silent_ataPollBsy d s
    generalize ataPollBsy d s = bsy at hbsy ⊢
    dsimp only
    split
    · exact hbsy.extends
    · have hdrq := hbsy.trans (silent_ataPollDrq d bsy.2)
      generalize ataPollDrq d bsy.2 = drq at hdrq ⊢
      split
      · exact hdrq.extends
      · have hflush := hdrq.extends.trans (extends_flush buf sectorWords i drq.2)
        generalize outb ataRegCommand ataCmdFlush (writeWords buf sectorWords i drq.2) = t at hflush ⊢
        have hbsy' := hflush.trans (silent_ataPollBsy d t).extends
        generalize ataPollBsy d t = bsy' at hbsy' ⊢
        split
        · exact hbsy'
        · exact hbsy'.trans ih

/-- Behind the flush of a sector. -/
theorem extends_flushed (d : Device) (buf : ℕ → UInt16) (n i : ℕ) (s : Port) : Extends s
    (if (ataPollBsy d s).1 ≠ .ok then (AuraStatus.err, (ataPollBsy d s).2)
      else writeLoop d buf n i (ataPollBsy d s).2).2 := by
  have hbsy := (silent_ataPollBsy d s).extends
  generalize ataPollBsy d s = bsy at hbsy ⊢
  split
  · exact hbsy
  · exact hbsy.trans extends_writeLoop

/-- The last word of a sector, and its flush. -/
theorem trace_flush : (outb ataRegCommand ataCmdFlush (writeWords buf sectorWords i s)).trace =
    (s.trace ++ (List.range' i 255).map fun k => .outw ataRegData (buf k)) ++
      [.outw ataRegData (buf (i + 255)), .outb ataRegCommand ataCmdFlush] := by
  have hrange : List.range' i sectorWords = List.range' i 255 ++ [i + 255] := List.range'_1_concat
  rw [writeWords_eq, hrange]
  unfold outb Port.add
  simp

/-! ### Reading and writing -/

/-- The first poll, and the command behind it. -/
theorem start_cases (d : Device) (lba : UInt32) (count : UInt8) (cmd : UInt8) :
    (∃ i A, first (fun k => (bsyVerdict (d.status k)).isSome) pollTurns 0 = some i ∧
      (ataPollBsy d .start).1 = .ok ∧
      outb ataRegCommand cmd (ataSetupLba lba count (ataPollBsy d .start).2) =
        ⟨i + 1, 0, A ++ [.outb ataRegCommand cmd]⟩ ∧ Idle A ∧ ∀ op ∈ A, op.isCommand = false) ∨
    first (fun k => (bsyVerdict (d.status k)).isSome) pollTurns 0 = none ∧
      (ataPollBsy d .start).1 = .err ∧ ∀ op ∈ (ataPollBsy d .start).2.trace, op.isCommand = false := by
  rcases ataPollBsy_cases d .start with ⟨i, ops, hf, hclear, hops, hrun⟩ | ⟨hf, hrun, ops, e, hops⟩
  · obtain ⟨q, e, hq⟩ := ataSetupLba_spec lba count
      { Port.start.add (ops ++ [.inb ataRegStatus (d.status i)]) with statusReads := i + 1 }
    refine Or.inl ⟨i, ops ++ .inb ataRegStatus (d.status i) :: q, hf, by rw [hrun], ?_,
      ⟨ops, d.status i, q, rfl, hclear, fun op hop => (hq op hop).2⟩, fun op hop => ?_⟩
    · rw [hrun]
      dsimp only
      rw [e]
      unfold outb Port.add Port.start
      simp
    · rcases List.mem_append.1 hop with hop | hop
      · exact hops op hop
      · rcases List.mem_cons.1 hop with rfl | hop
        · rfl
        · exact (hq op hop).1
  · refine Or.inr ⟨hf, hrun, ?_⟩
    rw [e]
    exact hops

/-- **Reading** keeps to the discipline. -/
theorem read_discipline (d : Device) (lba : UInt32) (count : UInt8) (b : Bool) (n : ℕ) :
    Discipline n (ataReadSectors d lba count b .start).2.2.trace := by
  unfold ataReadSectors
  split
  · exact discipline_of_none nofun
  · dsimp only
    rcases start_cases d lba count ataCmdReadPio with ⟨i, A, -, hok, e, hidle, hA⟩ | ⟨-, herr, hA⟩
    · rw [if_neg (not_not.2 hok), e]
      obtain ⟨ops, e', hops⟩ := silent_readLoop (d := d) (n := count.toNat)
        (s := ⟨i + 1, 0, A ++ [.outb ataRegCommand ataCmdReadPio]⟩)
      rw [e']
      have := discipline_of_one ataCmdReadPio n hA hidle hops
      simpa using this
    · rw [if_pos (by rw [herr]; decide)]
      exact discipline_of_none hA

/-- **Writing** keeps to it exactly if no sector gets as far as its flush. -/
theorem write_discipline_iff (d : Device) (lba : UInt32) {count : UInt8} (hcount : count ≠ 0)
    (buf : ℕ → UInt16) (n : ℕ) :
    Discipline n (ataWriteSectors d lba count (some buf) .start).2.trace ↔ ¬FirstReady d.status := by
  unfold ataWriteSectors
  dsimp only
  rw [if_neg hcount]
  rcases start_cases d lba count ataCmdWritePio with ⟨i, A, hf, hok, e, hidle, hA⟩ | ⟨hf, herr, hA⟩
  swap
  · rw [if_pos (by rw [herr]; decide)]
    refine iff_of_true (discipline_of_none hA) ?_
    rintro ⟨i, -, -, hi, -⟩
    rw [hf] at hi
    cases hi
  rw [if_neg (not_not.2 hok), e]
  obtain ⟨k, hk⟩ : ∃ k, count.toNat = k + 1 := by
    refine Nat.exists_eq_succ_of_ne_zero fun h0 => hcount (UInt8.toNat.inj h0)
  rw [hk]
  obtain ⟨s, hs⟩ : ∃ s : Port, s = ⟨i + 1, 0, A ++ [.outb ataRegCommand ataCmdWritePio]⟩ := ⟨_, rfl⟩
  have hone : ∀ t, Silent s t → Discipline n t.trace := by
    rintro t ⟨ops, e', hops⟩
    rw [e', hs]
    have := discipline_of_one ataCmdWritePio n hA hidle hops
    simpa using this
  rw [← hs]
  unfold writeLoop
  dsimp only
  rcases ataPollBsy_cases d s with ⟨j, ops, hf', -, -, hrun⟩ | ⟨hf', herr, hsilent⟩
  swap
  · rw [if_pos (by rw [herr]; decide)]
    refine iff_of_true (hone _ hsilent) ?_
    rintro ⟨i', j, -, hi, hj, -⟩
    obtain rfl := Option.some.inj (hf.symm.trans hi)
    rw [hs, hj] at hf'
    cases hf'
  have hok' : (ataPollBsy d s).1 = .ok := by rw [hrun]
  have hreads : (ataPollBsy d s).2.statusReads = j + 1 := by rw [hrun]
  rw [if_neg (not_not.2 hok')]
  rcases ataPollDrq_cases d (ataPollBsy d s).2 with ⟨l, hf'', hl, hok''⟩ | ⟨hno, herr⟩
  swap
  · rw [if_pos herr]
    refine iff_of_true (hone _ ((silent_ataPollBsy d s).trans (silent_ataPollDrq d _))) ?_
    rintro ⟨i', j', l, hi, hj, hl, hv⟩
    obtain rfl := Option.some.inj (hf.symm.trans hi)
    rw [hs] at hf'
    obtain rfl := Option.some.inj (hf'.symm.trans hj)
    rw [hreads] at hno
    exact hno l hl hv
  rw [if_neg (not_not.2 hok'')]
  rw [hreads] at hf''
  rw [hs] at hf'
  refine iff_of_false ?_ (not_not.2 ⟨i, j, l, hf, hf', hf'', hl⟩)
  -- the last word of the first sector and its flush, whatever follows
  obtain ⟨B, e'⟩ := extends_flushed d buf k (0 + sectorWords)
    (outb ataRegCommand ataCmdFlush (writeWords buf sectorWords 0 (ataPollDrq d (ataPollBsy d s).2).2))
  rw [e', trace_flush, List.append_assoc]
  exact not_discipline_of_data rfl

end Adds

/-- **The discipline of the command register**: reading keeps to it, whatever the drive answers.  Writing
does exactly if there is nothing to write, or no sector gets as far as its flush. -/
theorem ata_discipline (d : Device) (lba : UInt32) (count : UInt8) :
    (∀ buf, Discipline count.toNat (ataReadSectors d lba count buf .start).2.2.trace) ∧
      ∀ buf, Discipline count.toNat (ataWriteSectors d lba count buf .start).2.trace ↔
        buf = none ∨ count = 0 ∨ ¬FirstReady d.status := by
  refine ⟨fun buf => read_discipline d lba count buf _, fun buf => ?_⟩
  cases buf with
  | none => exact iff_of_true (discipline_of_none nofun) (Or.inl rfl)
  | some buf =>
    by_cases hcount : count = 0
    · refine iff_of_true ?_ (Or.inr (Or.inl hcount))
      unfold ataWriteSectors
      dsimp only
      rw [if_pos hcount]
      exact discipline_of_none nofun
    · rw [write_discipline_iff d lba hcount buf]
      simp [hcount]

/-- A drive that is always ready: one sector is written, and the flush follows its last word. -/
theorem write_flushes_unpolled :
    ¬Discipline 1 (ataWriteSectors ⟨fun _ => 0x48, fun _ => 0⟩ 0 1 (some fun _ => 0) .start).2.trace := by
  rw [write_discipline_iff _ _ (by decide), not_not]
  have hfirst : ∀ k {p : ℕ → Bool}, p k = true → first p pollTurns k = some k :=
    fun k p hp => first_eq_some_iff.2 ⟨Nat.le_refl k, Nat.lt_add_of_pos_right (by decide), hp, by omega⟩
  exact ⟨0, 1, 2, hfirst 0 rfl, hfirst 1 rfl, hfirst 2 rfl, rfl⟩

end AuraOS.Adapters.Ata
