import AuraOS.Adapters.Ata.Transfer

/-!
# Writing to a drive

Writing stores the sectors up to the first one that is refused or lost (`wp_ataWriteSectors`).  The driver sees the
error when it asks for the next sector, so it reports every failure but one: it does not look at the status behind
the last sector, and so takes a write for done whose last sector is lost.
-/

namespace AuraOS.Adapters.Ata

open AuraOS.Lib AuraOS.Kernel

variable {b : Behaviour} {v : Drive}

/-- **The effect of writing** `n` sectors from `a` on, the first one with the number `o`. -/
structure WriteDone (b : Behaviour) (o a n : ℕ) (buf : ℕ → UInt16) (d : ℕ → Sector) (r : AuraStatus) (v : Drive) :
    Prop where
  status : r = if b.kept o a n = n ∨
    b.kept o a n + 1 = n ∧ b.refuse (o + b.kept o a n) (a + b.kept o a n) = false then .ok else .err
  disk : v.disk = replay ((List.range (b.kept o a n)).map fun j =>
    (a + j, ofWords fun i => buf (sectorWords * j + i))) d
  ops : v.ops = o + min (b.kept o a n + 1) n
  rest : v.Rest b

/-! ### One sector -/

theorem wp_writeWords {P : Unit → Drive → Prop} {lba left : ℕ} {buf : ℕ → UInt16} (hw : v.wait = 0) (m i : ℕ)
    {got : List UInt16} (hphase : v.phase = .writing lba left got) (hm : got.length + (m + 1) = sectorWords)
    (h : ∀ w ≤ b.delay,
      P () { v.endWrite b lba left (got ++ (List.range' i (m + 1)).map buf) with wait := w }) :
    (Program.writeWords buf (m + 1) i).wp (Drive.Step b) P v := by
  have hstep : ∀ v', v.OutwStep b ataRegData (buf i) v' ↔
      if got.length + 1 < sectorWords then v' = { v with phase := .writing lba left (got ++ [buf i]) }
      else Drive.Busy b (v.endWrite b lba left (got ++ [buf i])) v' := by
    intro v'
    unfold Drive.OutwStep
    rw [if_pos ⟨rfl, hw⟩, hphase]
  unfold Program.writeWords
  induction m generalizing v i got with
  | zero =>
    simp only [if_neg (show ¬got.length + 1 < sectorWords by omega)] at hstep
    refine wp_outw ⟨_, (hstep _).2 ⟨0, Nat.zero_le _, rfl⟩⟩ fun v' hv' => ?_
    obtain ⟨w, hwait, rfl⟩ := (hstep v').1 hv'
    exact h w hwait
  | succ m ih =>
    simp only [if_pos (show got.length + 1 < sectorWords by omega)] at hstep
    refine wp_outw ⟨_, (hstep _).2 rfl⟩ fun v' hv' => ?_
    obtain rfl := (hstep v').1 hv'
    have hlen : (got ++ [buf i]).length + (m + 1) = sectorWords := by
      rw [List.length_append, List.length_singleton]
      omega
    unfold Program.writeWords
    refine ih (v := { v with phase := .writing lba left (got ++ [buf i]) }) hw (i + 1) rfl hlen
      (fun w hwait => ?_) fun v' => ?_
    · have := h w hwait
      rw [List.range'_succ, List.map_cons] at this
      rw [endWrite_phase, List.append_assoc]
      exact this
    · unfold Drive.OutwStep
      rw [if_pos ⟨rfl, hw⟩]

/-- The words of one sector. -/
theorem wp_writeSector {P : Unit → Drive → Prop} {lba left i : ℕ} {buf : ℕ → UInt16} (hw : v.wait = 0)
    (hphase : v.phase = .writing lba left [])
    (h : ∀ w ≤ b.delay, P () { v.endWrite b lba left ((List.range' i sectorWords).map buf) with wait := w }) :
    (Program.writeWords buf sectorWords i).wp (Drive.Step b) P v :=
  wp_writeWords hw 255 i hphase rfl h

/-- The flush behind a sector: a drive that is idle takes it for a command, which clears an error. -/
theorem wp_flush {α : Type} {P : α → Drive → Prop} {f : AuraStatus → PortProg α} (hdelay : b.delay < pollTurns)
    (hw : v.wait ≤ b.delay)
    (h : ∀ e, e = v.err ∨ v.phase = .idle ∧ e = false →
      (f .ok).wp (Drive.Step b) P { v with err := e, wait := 0 }) :
    (Io.outb ataRegCommand ataCmdFlush >>= fun _ => Program.ataPollBsy >>= f).wp (Drive.Step b) P v := by
  by_cases hacc : v.accepts
  · refine wp_command hacc fun w hw => wp_ataPollBsy (Nat.lt_of_le_of_lt hw hdelay) ?_
    exact h false (Or.inr ⟨hacc.2, rfl⟩)
  · refine wp_ignored hacc (wp_ataPollBsy (Nat.lt_of_le_of_lt hw hdelay) ?_)
    exact h v.err (Or.inl rfl)

/-- One turn of the loop of writing. -/
theorem wp_writeLoop_succ {P : AuraStatus → Drive → Prop} {n o a left i : ℕ} {d : ℕ → Sector} {buf : ℕ → UInt16}
    (hdelay : b.delay < pollTurns) (hv : Facing b (.writing a left []) o a d v)
    (hrefuse : b.refuse o a = true → P .err { v with wait := 0 })
    (hwrite : b.refuse o a = false → ∀ w ≤ b.delay, ∀ e,
      let s := ({ v with wait := 0 } : Drive).endWrite b a left ((List.range' i sectorWords).map buf)
      e = s.err ∨ s.phase = .idle ∧ e = false →
        (Program.writeLoop buf n (i + sectorWords)).wp (Drive.Step b) P { s with err := e, wait := 0 }) :
    (Program.writeLoop buf (n + 1) i).wp (Drive.Step b) P v := by
  unfold Program.writeLoop
  refine wp_ataPollBsy (Nat.lt_of_le_of_lt hv.wait hdelay) ?_
  rw [if_neg (by decide)]
  have hphase := hv.phase
  cases hr : b.refuse o a with
  | true =>
    rw [hr, if_pos rfl] at hphase
    refine wp_ataPollDrq_idle rfl hphase ?_
    rw [if_pos (by decide)]
    exact hrefuse hr
  | false =>
    rw [hr, if_neg (by decide)] at hphase
    refine wp_ataPollDrq rfl (fun h => ?_) (hv.err hr) ?_
    · cases hphase.symm.trans h
    rw [if_neg (by decide), Prog.wp_bind]
    refine wp_writeSector rfl hphase fun w hw => ?_
    refine wp_flush hdelay hw fun e he => ?_
    rw [if_neg (by decide)]
    exact hwrite hr w hw e he

/-! ### All sectors -/

/-- The sector that the words of the buffer from `i` on give. -/
theorem ofWords_range' (buf : ℕ → UInt16) (i : ℕ) :
    (ofWords fun j => ((List.range' i sectorWords).map buf).getD j 0) = ofWords fun j => buf (i + j) := by
  refine ofWords_congr fun j hj => ?_
  rw [List.getD_eq_getElem?_getD, List.getElem?_map, List.getElem?_range' hj, Nat.one_mul]
  rfl

theorem facing_clear {next : Phase} {o a : ℕ} {d : ℕ → Sector} {e : Bool} (hv : Facing b next o a d v)
    (hnext : next ≠ .idle) (he : e = v.err ∨ v.phase = .idle ∧ e = false) :
    Facing b next o a d { v with err := e, wait := 0 } := by
  refine ⟨hv.disk, hv.ops, Nat.zero_le _, hv.phase, fun hr => ?_⟩
  rcases he with rfl | ⟨hidle, -⟩
  · exact hv.err hr
  · rw [hv.phase, hr, if_neg (by decide)] at hidle
    exact absurd hidle hnext

/-- The loop of writing on a drive that transfers nothing. -/
theorem wp_writeLoop_idle {P : AuraStatus → Drive → Prop} {buf : ℕ → UInt16} {n i : ℕ} (hw : v.wait = 0)
    (hphase : v.phase = .idle) (hok : n = 0 → P .ok v)
    (herr : n ≠ 0 → P .err v) : (Program.writeLoop buf n i).wp (Drive.Step b) P v := by
  cases n with
  | zero => exact hok rfl
  | succ n =>
    have hself : ({ v with wait := 0 } : Drive) = v := by rw [← hw]
    unfold Program.writeLoop
    refine wp_ataPollBsy (by rw [hw]; decide) ?_
    rw [if_neg (by decide), hself]
    refine wp_ataPollDrq_idle hw hphase ?_
    rw [if_pos (by decide)]
    exact herr (Nat.succ_ne_zero n)

section Loop

variable {o a n i w : ℕ} {d : ℕ → Sector} {buf : ℕ → UInt16}

/-- The first sector is bad. -/
theorem kept_eq_zero (hbad : b.refuse o a = true ∨ b.lose o a = true) (n : ℕ) : b.kept o a (n + 1) = 0 := by
  rw [kept_succ, if_pos (Bool.or_eq_true _ _ ▸ hbad)]

theorem kept_eq_succ (hr : b.refuse o a = false) (hl : b.lose o a = false) (n : ℕ) :
    b.kept o a (n + 1) = b.kept (o + 1) (a + 1) n + 1 := by
  rw [kept_succ, hr, hl, if_neg (by decide)]

theorem endWrite_of_lost {next : Phase} {left : ℕ} {got : List UInt16} (hv : Facing b next o a d v)
    (hl : b.lose o a = true) : ({ v with wait := 0 } : Drive).endWrite b a left got =
      { v with wait := 0, err := true, phase := .idle } := by
  unfold Drive.endWrite
  rw [if_pos]
  rw [show ({ v with wait := 0 } : Drive).ops = o + 1 from hv.ops]
  exact hl

theorem endWrite_of_stored {next : Phase} {left : ℕ} {got : List UInt16} (hv : Facing b next o a d v)
    (hl : b.lose o a = false) : ({ v with wait := 0 } : Drive).endWrite b a left got =
      let u := { v with wait := 0, disk := Function.update d a (ofWords fun i => got.getD i 0) }
      if left ≤ 1 then { u with phase := .idle } else u.turn b (.writing (a + 1) (left - 1) []) (a + 1) := by
  unfold Drive.endWrite
  rw [if_neg, hv.disk]
  rw [show ({ v with wait := 0 } : Drive).ops = o + 1 from hv.ops, Nat.add_sub_cancel, hl]
  decide

theorem writeDone_refused (hv : Facing b (.writing a (n + 1) []) o a d v) (hr : b.refuse o a = true) :
    WriteDone b o a (n + 1) buf d .err { v with wait := 0 } := by
  have hkept : b.kept o a (n + 1) = 0 := kept_eq_zero (Or.inl hr) n
  refine ⟨?_, by rw [hkept]; exact hv.disk, ?_, hv.phase.trans (if_pos hr), Nat.zero_le _⟩
  · rw [hkept, if_neg]
    rintro (h | ⟨-, h⟩)
    · cases h
    · rw [Nat.add_zero, Nat.add_zero, hr] at h
      cases h
  · rw [hkept, Nat.min_eq_left (by omega)]
    exact hv.ops

/-- The first sector is lost: the drive is idle, and the error is seen if there is a next sector. -/
theorem writeDone_lost {e : Bool} {buf' : ℕ → UInt16} (hv : Facing b (.writing a (n + 1) []) o a d v)
    (hr : b.refuse o a = false) (hl : b.lose o a = true) :
    (Program.writeLoop buf' n i).wp (Drive.Step b) (WriteDone b o a (n + 1) buf d)
      { v with phase := .idle, err := e, wait := 0 } := by
  have hkept : b.kept o a (n + 1) = 0 := kept_eq_zero (Or.inr hl) n
  have hops : v.ops = o + min (0 + 1) (n + 1) := by
    rw [Nat.min_eq_left (by omega)]
    exact hv.ops
  refine wp_writeLoop_idle rfl rfl (fun hn => ?_) fun hn => ?_
  · refine ⟨?_, by rw [hkept]; exact hv.disk, by rw [hkept]; exact hops, rfl, Nat.zero_le _⟩
    rw [hkept, if_pos]
    exact Or.inr ⟨by omega, hr⟩
  · refine ⟨?_, by rw [hkept]; exact hv.disk, by rw [hkept]; exact hops, rfl, Nat.zero_le _⟩
    rw [hkept, if_neg]
    rintro (h | ⟨h, -⟩)
    · cases h
    · omega

/-- The last sector is stored. -/
theorem writeDone_last {e : Bool} (hv : Facing b (.writing a 1 []) o a d v) (hr : b.refuse o a = false)
    (hl : b.lose o a = false) : WriteDone b o a 1 buf d .ok
      { v with disk := Function.update d a (ofWords buf), phase := .idle, err := e, wait := 0 } := by
  have hkept : b.kept o a 1 = 1 := kept_eq_succ hr hl 0
  refine ⟨by rw [hkept]; rfl, ?_, by rw [hkept]; exact hv.ops, rfl, Nat.zero_le _⟩
  rw [hkept]
  simp

/-- The first sector is stored, and then the others. -/
theorem writeDone_next {r : AuraStatus} {v' : Drive} (hr : b.refuse o a = false) (hl : b.lose o a = false)
    (h : WriteDone b (o + 1) (a + 1) n (fun j => buf (sectorWords + j)) (Function.update d a (ofWords buf)) r v') :
    WriteDone b o a (n + 1) buf d r v' := by
  have hkept : b.kept o a (n + 1) = b.kept (o + 1) (a + 1) n + 1 := kept_eq_succ hr hl n
  refine ⟨?_, ?_, ?_, h.rest⟩
  · rw [h.status, hkept]
    refine if_congr ?_ rfl rfl
    rw [Nat.add_right_cancel_iff, Nat.add_right_cancel_iff, Nat.add_right_comm o, Nat.add_right_comm a,
      Nat.add_assoc o, Nat.add_assoc a]
  · rw [h.disk, hkept, List.range_succ_eq_map, List.map_cons, List.map_map, replay_cons]
    simp only [Nat.mul_zero, Nat.zero_add, Nat.add_zero]
    congr 1
    refine List.map_congr_left fun j _ => ?_
    simp only [Function.comp, Nat.succ_eq_add_one, Nat.mul_add_one]
    rw [Nat.add_assoc a, Nat.add_comm 1 j]
    refine congrArg (Prod.mk _) (ofWords_congr fun x _ => ?_)
    rw [← Nat.add_assoc, Nat.add_comm sectorWords]
  · rw [h.ops, hkept]
    omega

/-- **The loop of writing**. -/
theorem wp_writeLoop (hdelay : b.delay < pollTurns) (buf : ℕ → UInt16) (n i : ℕ) {o a : ℕ} {d : ℕ → Sector}
    (hv : Facing b (.writing a (n + 1) []) o a d v) : (Program.writeLoop buf (n + 1) i).wp (Drive.Step b)
      (WriteDone b o a (n + 1) (fun j => buf (i + j)) d) v := by
  induction n generalizing o a i d v with
  | zero =>
    refine wp_writeLoop_succ hdelay hv (writeDone_refused hv) fun hr w hw e => ?_
    cases hl : b.lose o a with
    | true =>
      rw [endWrite_of_lost hv hl]
      exact fun _ => writeDone_lost (v := v) hv hr hl
    | false =>
      rw [endWrite_of_stored hv hl, if_pos (Nat.le_refl 1), ofWords_range']
      exact fun _ => writeDone_last (v := v) hv hr hl
  | succ n ih =>
    refine wp_writeLoop_succ hdelay hv (writeDone_refused hv) fun hr w hw e => ?_
    cases hl : b.lose o a with
    | true =>
      rw [endWrite_of_lost hv hl]
      exact fun _ => writeDone_lost (v := v) hv hr hl
    | false =>
      rw [endWrite_of_stored hv hl, if_neg (by omega), ofWords_range']
      intro s he
      have hface : Facing b (.writing (a + 1) (n + 1) []) (o + 1) (a + 1) _ s :=
        facing_turn _ _ (hv.err hr) hv.ops rfl (Nat.zero_le _)
      refine (ih _ (facing_clear hface (by simp) he)).mono fun r v' h => writeDone_next hr hl ?_
      simpa only [Nat.add_assoc] using h

end Loop

/-- **Writing** a number of sectors to any drive that follows the protocol. -/
theorem wp_ataWriteSectors (hdelay : b.delay < pollTurns) (hv : v.Rest b) (lba : UInt32) {count : UInt8}
    (hcount : count ≠ 0) (buf : ℕ → UInt16) : (Program.ataWriteSectors lba count (some buf)).wp (Drive.Step b)
      (WriteDone b v.ops (lba.toNat % 2 ^ 28) count.toNat buf v.disk) v := by
  obtain ⟨n, hn⟩ : ∃ n, count.toNat = n + 1 :=
    Nat.exists_eq_succ_of_ne_zero fun h0 => hcount (UInt8.toNat.inj h0)
  unfold Program.ataWriteSectors
  dsimp only
  rw [if_neg hcount]
  refine wp_ataPollBsy (Nat.lt_of_le_of_lt hv.wait hdelay) ?_
  rw [if_neg (by decide), Prog.wp_bind]
  refine wp_ataSetupLba ⟨rfl, hv.phase⟩ (wp_command ⟨rfl, hv.phase⟩ fun w hw => ?_)
  unfold Drive.command
  rw [if_neg (by decide), if_pos rfl, located_addr, located_count hcount, hn]
  have hface : Facing b (.writing (lba.toNat % 2 ^ 28) (n + 1) []) v.ops (lba.toNat % 2 ^ 28) v.disk _ :=
    facing_turn (u := { located lba count { v with wait := 0 } with err := false }) _ _ rfl rfl rfl (Nat.zero_le _)
  have h := wp_writeLoop hdelay buf n 0 (hface.busy hw)
  simpa only [Nat.zero_add] using h

/-- The sectors behind which the driver goes on, in terms of the single sectors. -/
theorem kept_iff {o a n : ℕ} : (b.kept o a n = n ∨
    b.kept o a n + 1 = n ∧ b.refuse (o + b.kept o a n) (a + b.kept o a n) = false) ↔
      (∀ j < n, b.refuse (o + j) (a + j) = false) ∧ ∀ j, j + 1 < n → b.lose (o + j) (a + j) = false := by
  have hgood : ∀ m ≤ n, m ≤ b.kept o a n ↔
      ∀ j < m, b.refuse (o + j) (a + j) = false ∧ b.lose (o + j) (a + j) = false := by
    intro m hm
    refine (le_ahead_iff hm).trans (forall₂_congr fun j _ => ?_)
    rw [Bool.or_eq_false_iff]
  have hle : b.kept o a n ≤ n := ahead_le _ _ _ _
  constructor
  · rintro (h | ⟨h, hlast⟩)
    · have hall := (hgood n (Nat.le_refl n)).1 (Nat.le_of_eq h.symm)
      exact ⟨fun j hj => (hall j hj).1, fun j hj => (hall j (by omega)).2⟩
    · have hall := (hgood _ hle).1 (Nat.le_refl _)
      refine ⟨fun j hj => ?_, fun j hj => (hall j (by omega)).2⟩
      rcases Nat.lt_or_eq_of_le (show j ≤ b.kept o a n by omega) with hj' | rfl
      · exact (hall j hj').1
      · exact hlast
  · rintro ⟨hr, hl⟩
    have h := (hgood (n - 1) (by omega)).2 fun j hj => ⟨hr j (by omega), hl j (by omega)⟩
    rcases Nat.lt_or_eq_of_le hle with hlt | heq
    · exact Or.inr ⟨by omega, hr _ hlt⟩
    · exact Or.inl heq

/-- **Writing is correct but for the last sector**: on every drive that follows the protocol and is at rest, and is
never busy for longer than the polls wait, the sectors before the first one that is refused or lost are stored, and
no others.  The result is `AURA_OK` exactly if no sector is refused, and none but perhaps the last one is lost. -/
theorem ataWriteSectors_correct (hdelay : b.delay < pollTurns) (hv : v.Rest b) (lba : UInt32) {count : UInt8}
    (hcount : count ≠ 0) (buf : ℕ → UInt16) :
    let a := lba.toNat % 2 ^ 28
    (Program.ataWriteSectors lba count (some buf)).wp (Drive.Step b) (fun r v' =>
      (r = .ok ↔ (∀ j < count.toNat, b.refuse (v.ops + j) (a + j) = false) ∧
        ∀ j, j + 1 < count.toNat → b.lose (v.ops + j) (a + j) = false) ∧
        v'.disk = replay ((List.range (b.kept v.ops a count.toNat)).map fun j =>
          (a + j, ofWords fun i => buf (sectorWords * j + i))) v.disk ∧ v'.Rest b) v := by
  intro a
  refine (wp_ataWriteSectors hdelay hv lba hcount buf).mono fun r v' hdone => ⟨?_, hdone.disk, hdone.rest⟩
  rw [← kept_iff, hdone.status]
  split
  next h => exact iff_of_true rfl h
  next h => exact iff_of_false (by decide) h

/-- The second of two sectors is lost, and the write is taken for done. -/
theorem ataWriteSectors_correct_lost : ∃ v', Prog.Exec (Drive.Step (.losing [1])) blankDrive
    (Program.ataWriteSectors 5 2 (some fun _ => 7)) .ok v' ∧ v'.disk 5 = ofWords (fun _ => 7) ∧
      v'.disk 6 = blankDrive.disk 6 := by
  obtain ⟨r, v', hexec, hok, hdisk, -⟩ :=
    (ataWriteSectors_correct (b := .losing [1]) (v := blankDrive) (by decide) ⟨rfl, by decide⟩ 5
      (show (2 : UInt8) ≠ 0 by decide) fun _ => 7).exists_exec
  obtain rfl : r = .ok := hok.2 ⟨fun _ _ => rfl, fun j hj => by
    obtain rfl : j = 0 := by
      have : j + 1 < 2 := hj
      omega
    rfl⟩
  have hkept : (Behaviour.losing [1]).kept blankDrive.ops ((5 : UInt32).toNat % 2 ^ 28) (2 : UInt8).toNat = 1 := by
    decide
  rw [hkept] at hdisk
  refine ⟨v', hexec, ?_, ?_⟩
  · rw [hdisk]
    rfl
  · rw [hdisk]
    rfl

/-! ### Detection -/

theorem wp_inb_idle {α : Type} {P : α → Drive → Prop} {port : UInt16} {f : UInt8 → PortProg α}
    (hport : port = ataRegLba1 ∨ port = ataRegLba2)
    (h : (f (if port = ataRegLba1 then v.lba1 else v.lba2)).wp (Drive.Step b) P v) :
    (Io.inb port >>= f).wp (Drive.Step b) P v := by
  have hstep : ∀ r v', v.InbStep port r v' ↔ r = (if port = ataRegLba1 then v.lba1 else v.lba2) ∧ v' = v := by
    intro r v'
    unfold Drive.InbStep
    rcases hport with rfl | rfl
    · rw [if_neg (by decide), if_pos rfl]
      exact ⟨fun h => ⟨h.1 rfl, h.2.2⟩, fun h => ⟨fun _ => h.1, fun h' => absurd h' (by decide), h.2⟩⟩
    · rw [if_neg (by decide), if_neg (by decide)]
      exact ⟨fun h => ⟨h.2.1 rfl, h.2.2⟩, fun h => ⟨fun h' => absurd h' (by decide), fun _ => h.1, h.2⟩⟩
  refine wp_inb ⟨_, _, (hstep _ _).2 ⟨rfl, rfl⟩⟩ fun r v' hv' => ?_
  obtain ⟨rfl, rfl⟩ := (hstep r v').1 hv'
  exact h

/-- The words of the answer to `IDENTIFY`. -/
theorem wp_readIdentify {P : List UInt16 → Drive → Prop} (hw : v.wait = 0) (m i : ℕ)
    (hphase : v.phase = .identify i) (hm : i + (m + 1) = sectorWords)
    (h : ∀ ws, P ws { v with phase := .idle }) : (Program.readWords (m + 1)).wp (Drive.Step b) P v := by
  have hstep : ∀ r v', v.InwStep b ataRegData r v' ↔
      v' = { v with phase := if i + 1 < sectorWords then .identify (i + 1) else .idle } := by
    intro r v'
    unfold Drive.InwStep
    rw [if_pos ⟨rfl, hw⟩, hphase]
  unfold Program.readWords
  induction m generalizing v i P with
  | zero =>
    rw [if_neg (show ¬i + 1 < sectorWords by omega)] at hstep
    refine wp_inw ⟨0, _, (hstep _ _).2 rfl⟩ fun r v' hv' => ?_
    rw [(hstep r v').1 hv']
    exact h _
  | succ m ih =>
    rw [if_pos (show i + 1 < sectorWords by omega)] at hstep
    refine wp_inw ⟨0, _, (hstep _ _).2 rfl⟩ fun r v' hv' => ?_
    rw [(hstep r v').1 hv', Prog.wp_bind]
    unfold Program.readWords
    refine ih (v := { v with phase := .identify (i + 1) }) hw (i + 1) rfl (by omega) (fun ws => h _) fun r v' => ?_
    unfold Drive.InwStep
    rw [if_pos ⟨rfl, hw⟩]

theorem ne_zero_of_shows {st : UInt8} (h : v.Shows st) : st ≠ 0 := by
  rintro rfl
  by_cases hw : v.wait = 0
  · exact absurd ((shows_iff hw).1 h).2.1 (by decide)
  · exact absurd ((shows_iff_of_wait hw).1 h) (by decide)

theorem wp_identified {P : AuraStatus → Drive → Prop} (hw : v.wait < pollTurns)
    (hsig : ¬(v.lba1 = 0 ∧ v.lba2 = 0) → P .err { v with wait := 0 })
    (hidle : v.phase = .idle → P .err { v with wait := 0 })
    (hident : v.phase = .identify 0 → v.err = false → v.lba1 = 0 ∧ v.lba2 = 0 →
      P .ok { v with wait := 0, phase := .idle })
    (hphase : v.phase = .idle ∨ v.phase = .identify 0 ∧ v.err = false) :
    Program.identified.wp (Drive.Step b) P v := by
  unfold Program.identified
  refine wp_status fun st hst => ?_
  rw [if_neg (ne_zero_of_shows hst)]
  refine wp_ataPollBsy (Nat.lt_of_le_of_lt (Nat.sub_le _ _) hw) ?_
  rw [if_neg (by simp)]
  refine wp_inb_idle (Or.inl rfl) (wp_inb_idle (Or.inr rfl) ?_)
  rw [if_pos rfl, if_neg (show ataRegLba2 ≠ ataRegLba1 by decide)]
  by_cases h : v.lba1 = 0 ∧ v.lba2 = 0
  · rw [if_neg (by simp [h])]
    rcases hphase with hp | ⟨hp, herr⟩
    · refine wp_ataPollDrq_idle rfl hp ?_
      rw [if_pos (by simp)]
      exact hidle hp
    · refine wp_ataPollDrq rfl (fun h' => ?_) herr ?_
      · cases hp.symm.trans h'
      rw [if_neg (by simp), Prog.wp_bind]
      refine wp_readIdentify rfl 255 0 hp rfl fun ws => ?_
      exact hident hp herr h
  · rw [if_pos (by rwa [not_and_or] at h)]
    exact hsig h

/-- **Detection**: `ata_init` finds a drive that is at rest exactly if the drive is not busy and two of its address
registers hold 0; then it leaves the drive at rest.  The disk stays in any case. -/
theorem ataInit_correct (hdelay : b.delay < pollTurns) (hv : v.Rest b) :
    Program.ataInit.wp (Drive.Step b) (fun r v' =>
      r = (if v.wait = 0 ∧ v.lba1 = 0 ∧ v.lba2 = 0 then .ok else .err) ∧ (r = .ok → v'.Rest b) ∧
        v'.disk = v.disk) v := by
  have herr : ∀ u : Drive, ¬(v.wait = 0 ∧ v.lba1 = 0 ∧ v.lba2 = 0) → u.disk = v.disk →
      AuraStatus.err = (if v.wait = 0 ∧ v.lba1 = 0 ∧ v.lba2 = 0 then .ok else .err) ∧
        (AuraStatus.err = .ok → u.Rest b) ∧ u.disk = v.disk := by
    intro u h hdisk
    exact ⟨(if_neg h).symm, fun h' => absurd h' (by decide), hdisk⟩
  unfold Program.ataInit
  by_cases hw : v.wait = 0
  · refine wp_setReg ⟨hw, hv.phase⟩ (by decide) (wp_command ⟨hw, hv.phase⟩ fun w hwait => ?_)
    refine wp_identified (Nat.lt_of_le_of_lt hwait hdelay) (fun hsig => ?_) (fun hp => ?_) (fun _ _ hsig => ?_)
      (Or.inr ⟨rfl, rfl⟩)
    · exact herr _ (fun h => hsig h.2) rfl
    · cases hp
    · exact ⟨(if_pos ⟨hw, hsig⟩).symm, fun _ => ⟨rfl, Nat.zero_le _⟩, rfl⟩
  · have hacc : ¬v.accepts := fun h => hw h.1
    refine wp_ignored hacc (wp_ignored hacc ?_)
    refine wp_identified (Nat.lt_of_le_of_lt hv.wait hdelay) (fun _ => ?_) (fun _ => ?_) (fun hp _ _ => ?_)
      (Or.inl hv.phase)
    · exact herr _ (fun h => hw h.1) rfl
    · exact herr _ (fun h => hw h.1) rfl
    · cases hv.phase.symm.trans hp

/-- The blank drive is still busy, and so it is not found. -/
theorem ataInit_correct_blank : ∃ v', Prog.Exec (Drive.Step (.losing [])) blankDrive Program.ataInit .err v' := by
  obtain ⟨r, v', hexec, hr, -, -⟩ :=
    (ataInit_correct (b := .losing []) (v := blankDrive) (by decide) ⟨rfl, by decide⟩).exists_exec
  rw [if_neg (by decide)] at hr
  exact ⟨v', hr ▸ hexec⟩

end AuraOS.Adapters.Ata
