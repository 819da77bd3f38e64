import AuraOS.Adapters.Ata.Storage

/-!
# Transfers that are cut off

When the power goes in the middle of a transfer, what counts is the disk.  A program that writes no word of data
leaves it as it was (`disk_of_reaches`), and one that writes the words of a single sector at most leaves it as it
was or as it is in the end (`disk_of_stopped`): the drive stores a sector when it has all of its words.
-/

namespace AuraOS.Adapters.Ata

open AuraOS.Lib AuraOS.Kernel

/-- The query writes a word. -/
def isOutw : PortQuery → Bool
  | .outw _ _ => true
  | _ => false

/-! ### What the functions write -/

section Queries

variable {n m : ℕ}

theorem atMost_bind_zero {α β : Type} {p : PortProg α} {f : α → PortProg β} (h : Prog.AtMost isOutw 0 p)
    (hf : ∀ a, Prog.AtMost isOutw n (f a)) : Prog.AtMost isOutw n (p >>= f) := by
  have hbind := Prog.atMost_bind h hf
  rwa [Nat.zero_add] at hbind

theorem atMost_inb (port : UInt16) : Prog.AtMost isOutw 0 (Io.inb port) := Prog.atMost_query (Nat.le_refl 0)

theorem atMost_inw (port : UInt16) : Prog.AtMost isOutw 0 (Io.inw port) := Prog.atMost_query (Nat.le_refl 0)

theorem atMost_outb (port : UInt16) (x : UInt8) : Prog.AtMost isOutw 0 (Io.outb port x) :=
  Prog.atMost_query (Nat.le_refl 0)

theorem atMost_pollLoop (verdict : UInt8 → Option AuraStatus) (n : ℕ) :
    Prog.AtMost isOutw 0 (Program.pollLoop verdict n) := by
  induction n with
  | zero => trivial
  | succ n ih =>
    refine atMost_bind_zero (atMost_inb _) fun st => ?_
    cases verdict st with
    | none => exact ih
    | some r => trivial

theorem atMost_ataSetupLba (lba : UInt32) (count : UInt8) : Prog.AtMost isOutw 0 (Program.ataSetupLba lba count) := by
  unfold Program.ataSetupLba
  iterate 5 refine atMost_bind_zero (atMost_outb _ _) fun _ => ?_
  exact atMost_outb _ _

theorem atMost_readWords (n : ℕ) : Prog.AtMost isOutw 0 (Program.readWords n) := by
  induction n with
  | zero => trivial
  | succ n ih => exact atMost_bind_zero (atMost_inw _) fun _ => atMost_bind_zero ih fun _ => trivial

theorem atMost_readLoop (n : ℕ) : Prog.AtMost isOutw 0 (Program.readLoop n) := by
  induction n with
  | zero => trivial
  | succ n ih =>
    refine atMost_bind_zero (atMost_pollLoop _ _) fun r => ?_
    split
    · trivial
    refine atMost_bind_zero (atMost_pollLoop _ _) fun r => ?_
    split
    · trivial
    exact atMost_bind_zero (atMost_readWords _) fun _ => atMost_bind_zero ih fun _ => trivial

/-- **Reading** writes no word. -/
theorem atMost_ataReadSectors (lba : UInt32) (count : UInt8) (buf : Bool) :
    Prog.AtMost isOutw 0 (Program.ataReadSectors lba count buf) := by
  unfold Program.ataReadSectors
  split
  · trivial
  refine atMost_bind_zero (atMost_pollLoop _ _) fun r => ?_
  split
  · trivial
  refine atMost_bind_zero (atMost_ataSetupLba _ _) fun _ => ?_
  exact atMost_bind_zero (atMost_outb _ _) fun _ => atMost_readLoop _

theorem atMost_ataInit : Prog.AtMost isOutw 0 Program.ataInit := by
  refine atMost_bind_zero (atMost_outb _ _) fun _ => atMost_bind_zero (atMost_outb _ _) fun _ => ?_
  refine atMost_bind_zero (atMost_inb _) fun st => ?_
  split
  · trivial
  refine atMost_bind_zero (atMost_pollLoop _ _) fun r => ?_
  split
  · trivial
  refine atMost_bind_zero (atMost_inb _) fun cl => atMost_bind_zero (atMost_inb _) fun ch => ?_
  split
  · trivial
  refine atMost_bind_zero (atMost_pollLoop _ _) fun r => ?_
  split
  · trivial
  exact atMost_bind_zero (atMost_readWords _) fun _ => trivial

theorem atMost_writeWords (buf : ℕ → UInt16) (n i : ℕ) : Prog.AtMost isOutw n (Program.writeWords buf n i) := by
  induction n generalizing i with
  | zero => trivial
  | succ n ih =>
    refine ⟨Nat.le_add_left 1 n, fun _ => ?_⟩
    rw [show n + 1 - (isOutw (.outw ataRegData (buf i))).toNat = n from rfl]
    exact ih (i + 1)

theorem atMost_writeLoop (buf : ℕ → UInt16) (n i : ℕ) :
    Prog.AtMost isOutw (sectorWords * n) (Program.writeLoop buf n i) := by
  induction n generalizing i with
  | zero => trivial
  | succ n ih =>
    refine atMost_bind_zero (atMost_pollLoop _ _) fun r => ?_
    split
    · trivial
    refine atMost_bind_zero (atMost_pollLoop _ _) fun r => ?_
    split
    · trivial
    rw [Nat.mul_succ, Nat.add_comm]
    refine Prog.atMost_bind (atMost_writeWords buf _ _) fun _ => ?_
    refine atMost_bind_zero (atMost_outb _ _) fun _ => atMost_bind_zero (atMost_pollLoop _ _) fun r => ?_
    split
    · trivial
    · exact ih _

/-- **Writing** writes the words of its sectors at most. -/
theorem atMost_ataWriteSectors (lba : UInt32) (count : UInt8) (buf : Option (ℕ → UInt16)) :
    Prog.AtMost isOutw (sectorWords * count.toNat) (Program.ataWriteSectors lba count buf) := by
  unfold Program.ataWriteSectors
  cases buf with
  | none => trivial
  | some buf =>
    dsimp only
    split
    · trivial
    refine atMost_bind_zero (atMost_pollLoop _ _) fun r => ?_
    split
    · trivial
    refine atMost_bind_zero (atMost_ataSetupLba _ _) fun _ => ?_
    exact atMost_bind_zero (atMost_outb _ _) fun _ => atMost_writeLoop _ _ _

end Queries

/-! ### What the drive stores -/

/-- How many words of a sector the drive has. -/
def Drive.received (v : Drive) : ℕ :=
  match v.phase with
  | .writing _ _ got => got.length
  | _ => 0

section Stored

variable {b : Behaviour} {v v' : Drive}

theorem received_of_idle (h : v.phase = .idle) : v.received = 0 := by
  unfold Drive.received
  rw [h]

/-- Turning to a sector. -/
theorem received_turn {next : Phase} (h : ∀ lba left got, next = .writing lba left got → got = []) (lba : ℕ)
    (u : Drive) :
    (u.turn b next lba).disk = u.disk ∧ (u.turn b next lba).received = 0 := by
  unfold Drive.turn
  split
  · exact ⟨rfl, rfl⟩
  · refine ⟨rfl, ?_⟩
    unfold Drive.received
    cases next with
    | writing lba left got =>
      rw [h lba left got rfl]
      rfl
    | _ => rfl

/-- A command. -/
theorem received_command (h : v.phase = .idle) (cmd : UInt8) :
    (v.command b cmd).disk = v.disk ∧ (v.command b cmd).received = 0 := by
  unfold Drive.command
  split
  · exact received_turn (fun _ _ _ e => Phase.noConfusion e) _ _
  split
  · exact received_turn (fun _ _ _ e => (Phase.writing.inj e).2.2.symm) _ _
  split
  · exact ⟨rfl, rfl⟩
  split
  · exact ⟨rfl, received_of_idle h⟩
  · exact ⟨rfl, received_of_idle h⟩

/-- **A step that writes no word** leaves the disk, and the drive has no more words of a sector than before. -/
theorem quiet_step {q : PortQuery} {r : PortReply q} (hq : isOutw q = false) (h : Drive.Step b v q r v') :
    v'.disk = v.disk ∧ v'.received ≤ v.received := by
  cases q with
  | inb port =>
    change Drive.InbStep v port r v' at h
    unfold Drive.InbStep at h
    split at h
    · rw [h.2]
      exact ⟨rfl, Nat.le_refl _⟩
    · rw [h.2.2]
      exact ⟨rfl, Nat.le_refl _⟩
  | outb port x =>
    change Drive.OutbStep b v port x v' at h
    unfold Drive.OutbStep at h
    split at h
    next hacc =>
      split at h
      · obtain ⟨w, -, rfl⟩ := h
        obtain ⟨hdisk, hgot⟩ := received_command (b := b) hacc.2 x
        exact ⟨hdisk, Nat.le_trans (Nat.le_of_eq hgot) (Nat.zero_le _)⟩
      · rw [h]
        have hset : (v.setReg port x).disk = v.disk ∧ (v.setReg port x).phase = v.phase := by
          unfold Drive.setReg
          split_ifs
          all_goals exact ⟨rfl, rfl⟩
        refine ⟨hset.1, Nat.le_of_eq ?_⟩
        unfold Drive.received
        rw [hset.2]
    next =>
      rw [h]
      exact ⟨rfl, Nat.le_refl _⟩
  | inw port =>
    change Drive.InwStep b v port r v' at h
    unfold Drive.InwStep at h
    split at h
    · split at h
      next lba left i hphase =>
        obtain ⟨-, h⟩ := h
        split at h
        · rw [h]
          exact ⟨rfl, Nat.zero_le _⟩
        · obtain ⟨w, -, rfl⟩ := h
          unfold Drive.endRead
          split
          · exact ⟨rfl, Nat.zero_le _⟩
          · have hnone : ∀ a m got, Phase.reading (lba + 1) (left - 1) 0 = .writing a m got → got = [] := nofun
            obtain ⟨hdisk, hgot⟩ := received_turn (b := b) hnone (lba + 1) v
            exact ⟨hdisk, Nat.le_trans (Nat.le_of_eq hgot) (Nat.zero_le _)⟩
      next i hphase =>
        rw [h]
        refine ⟨rfl, ?_⟩
        unfold Drive.received
        dsimp only
        split_ifs
        all_goals exact Nat.zero_le _
      next =>
        rw [h]
        exact ⟨rfl, Nat.le_refl _⟩
    · rw [h]
      exact ⟨rfl, Nat.le_refl _⟩
  | outw port x => cases hq

/-- **A word** leaves the disk, unless it is the last one of a sector. -/
theorem outw_step {q : PortQuery} {r : PortReply q} (hq : isOutw q = true) (h : Drive.Step b v q r v') :
    (v'.disk = v.disk ∧ v'.received ≤ v.received + 1) ∨ sectorWords ≤ v.received + 1 := by
  cases q with
  | outw port x =>
    change Drive.OutwStep b v port x v' at h
    unfold Drive.OutwStep at h
    split at h
    · split at h
      next lba left got hphase =>
        have hgot : v.received = got.length := by
          unfold Drive.received
          rw [hphase]
        split at h
        · rw [h]
          refine Or.inl ⟨rfl, ?_⟩
          rw [hgot]
          exact Nat.le_of_eq List.length_append
        · exact Or.inr (by omega)
      next =>
        rw [h]
        exact Or.inl ⟨rfl, Nat.le_add_right _ _⟩
    · rw [h]
      exact Or.inl ⟨rfl, Nat.le_add_right _ _⟩
  | inb port => cases hq
  | inw port => cases hq
  | outb port x => cases hq

variable {α : Type} {p p' : PortProg α}

/-- **A program that writes no word** leaves the disk as it was, wherever it is stopped. -/
theorem disk_of_reaches (hp : Prog.AtMost isOutw 0 p) (h : Prog.Reaches (Drive.Step b) v p v' p') :
    v'.disk = v.disk := by
  have hinv := h.invariant (I := fun u p => Prog.AtMost isOutw 0 p ∧ u.disk = v.disk) ?_ ⟨hp, rfl⟩
  · exact hinv.2
  rintro u q k r u' ⟨⟨hle, hk⟩, hdisk⟩ hstep
  have hq : isOutw q = false := by
    cases hq : isOutw q with
    | false => rfl
    | true =>
      rw [hq] at hle
      exact absurd hle (by decide)
  rw [hq] at hk
  exact ⟨hk r, (quiet_step hq hstep).1.trans hdisk⟩

/-- While words of one sector are to go at most, the disk is as it was or no words are to go. -/
theorem stopped_step {v₀ : Drive} {q : PortQuery} {k : PortReply q → PortProg α} {r : PortReply q} {u u' : Drive}
    (h : (u.disk = v₀.disk ∧ ∃ n, Prog.AtMost isOutw n (.ask q k) ∧ u.received + n ≤ sectorWords) ∨
      Prog.AtMost isOutw 0 (.ask q k)) (hstep : Drive.Step b u q r u') :
    (u'.disk = v₀.disk ∧ ∃ n, Prog.AtMost isOutw n (k r) ∧ u'.received + n ≤ sectorWords) ∨
      Prog.AtMost isOutw 0 (k r) := by
  rcases h with ⟨hdisk, n, ⟨hle, hk⟩, hroom⟩ | ⟨-, hk⟩
  · cases hq : isOutw q with
    | false =>
      rw [hq] at hk
      obtain ⟨hdisk', hgot⟩ := quiet_step hq hstep
      exact Or.inl ⟨hdisk'.trans hdisk, n, hk r, by omega⟩
    | true =>
      rw [hq, Bool.toNat_true] at hle hk
      rcases outw_step hq hstep with ⟨hdisk', hgot⟩ | hlast
      · exact Or.inl ⟨hdisk'.trans hdisk, n - 1, hk r, by omega⟩
      · have hn : n - 1 = 0 := by omega
        rw [hn] at hk
        exact Or.inr (hk r)
  · rw [Nat.zero_sub] at hk
    exact Or.inr (hk r)

/-- **A program that writes the words of one sector at most** leaves the disk as it was, or as it is in the end. -/
theorem disk_of_stopped {D : (ℕ → Sector) → Prop} (hv : v.received = 0) (hp : Prog.AtMost isOutw sectorWords p)
    (hend : p.wp (Drive.Step b) (fun _ u => D u.disk) v) (h : Prog.Reaches (Drive.Step b) v p v' p') :
    v'.disk = v.disk ∨ D v'.disk := by
  have hinv := h.invariant (I := fun u p => (u.disk = v.disk ∧
    ∃ n, Prog.AtMost isOutw n p ∧ u.received + n ≤ sectorWords) ∨ Prog.AtMost isOutw 0 p)
    (fun u q k r u' => stopped_step) (Or.inl ⟨rfl, sectorWords, hp, by omega⟩)
  rcases hinv with ⟨hdisk, -⟩ | hnone
  · exact Or.inl hdisk
  · obtain ⟨a, u, hexec, hD⟩ := (h.rest hend).exists_exec
    rw [disk_of_reaches hnone hexec.reaches] at hD
    exact Or.inr hD

end Stored

end AuraOS.Adapters.Ata
