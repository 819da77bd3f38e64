import AuraOS.Adapters.Ata.Cut
import AuraOS.Env.Fat12.Atomic
import AuraOS.Env.Fat12.Crash
import AuraOS.Env.Fat12.Ports

/-!
# Losing power over the ports

The power may go between any two accesses to the ports of the drive, while a sector is transferred, say.  What the
disk holds then is exactly what it holds behind some of the sector writes of the calls (`fat12_stopped_iff`), so that
what is known about these crash points holds for the driver as a whole.
-/

namespace AuraOS.Env.Fat12

open AuraOS.Lib AuraOS.Kernel AuraOS.Adapters

section Stopped

variable {b : Ata.Behaviour} {d : Device Sector} {v v' : Ata.Drive}

theorem received_of_rest (hv : v.Rest b) : v.received = 0 := Ata.received_of_idle hv.phase

/-- **One query that is stopped** leaves the disk before it or behind it. -/
theorem stopped_query (hdelay : b.delay < Ata.pollTurns) (hlose : ∀ n a, b.lose n a = false) {q : CellQuery Sector}
    (hq : InReach q) (hv : Behind b d v) {p' : PortProg (CellReply q)}
    (h : Prog.Reaches (Ata.Drive.Step b) v (atPorts q) v' p') :
    d.cell = v'.disk ∨ ∃ r d', d.answer q = (r, d') ∧ d'.cell = v'.disk := by
  cases q with
  | read lba =>
    have hnone : Prog.AtMost Ata.isOutw 0 (atPorts (.read lba)) :=
      Ata.atMost_bind_zero (Ata.atMost_ataReadSectors _ _ _) fun _ => trivial
    exact Or.inl (hv.disk.symm.trans (Ata.disk_of_reaches hnone h).symm)
  | write lba data =>
    have hone : Prog.AtMost Ata.isOutw Ata.sectorWords (atPorts (.write lba data)) :=
      Prog.atMost_bind (m := 0) (Ata.atMost_ataWriteSectors _ 1 _) fun _ => trivial
    have hlba : lba < 2 ^ 28 := hq
    have hend : (atPorts (.write lba data)).wp (Ata.Drive.Step b)
        (fun _ u => ∃ r d', d.answer (.write lba data) = (r, d') ∧ d'.cell = u.disk) v :=
      (wp_writeSector hdelay hlose hv hlba data).mono fun r u ⟨d', hans, hu⟩ => ⟨r, d', hans, hu.disk.symm⟩
    rcases Ata.disk_of_stopped (D := fun disk => ∃ r d', d.answer (.write lba data) = (r, d') ∧ d'.cell = disk)
      (received_of_rest hv.rest) hone hend h with hdisk | hdisk
    · exact Or.inl (hv.disk.symm.trans hdisk.symm)
    · exact Or.inr hdisk

/-- **Programs that are stopped**: the disks that they may leave are those behind some of their writes. -/
theorem stopped_atPorts (hdelay : b.delay < Ata.pollTurns) (hlose : ∀ n a, b.lose n a = false) (hv : Behind b d v)
    {α : Type} {post : α → Prop} {p : SectorProg α} (hp : Prog.Within InReach post p) {ws : List (ℕ × Sector)}
    (hlog : (p.run Device.answer d).2.log = d.log ++ ws) (disk : ℕ → Sector) :
    (∃ v' p', Prog.Reaches (Ata.Drive.Step b) v (p.translate atPorts) v' p' ∧ v'.disk = disk) ↔
      ∃ k ≤ ws.length, disk = replay (ws.take k) d.cell := by
  have hsim : ∀ (q : CellQuery Sector) d v, InReach q → Behind b d v → (atPorts q).wp (Ata.Drive.Step b)
      (fun r v' => ∃ d', Device.answer d q = (r, d') ∧ Behind b d' v') v := by
    intro q d v hq hv
    cases q with
    | read lba => exact wp_readSector hdelay hv hq
    | write lba data => exact wp_writeSector hdelay hlose hv hq data
  constructor
  · rintro ⟨v', p', h, rfl⟩
    have hnear : ∀ (d : Device Sector) (v : Ata.Drive), Behind b d v → d.cell = v.disk := fun _ _ hv => hv.disk.symm
    obtain ⟨d', p₁, hreach, hcell⟩ := Prog.Reaches.of_translate hsim hnear
      (fun q d v u p' hq hv => stopped_query hdelay hlose hq hv) hp hv h
    obtain ⟨ws₁, vs, n, hwrote, hlog'⟩ := Device.wrote_of_reaches hreach
    obtain rfl : ws = ws₁ ++ vs := List.append_cancel_left (hlog.symm.trans hlog')
    refine ⟨ws₁.length, by rw [List.length_append]; omega, ?_⟩
    rw [← hcell, hwrote.cell, List.take_left]
  · rintro ⟨k, hk, rfl⟩
    obtain ⟨d', p₁, hreach, hcell⟩ := Device.exists_reaches p d hlog hk
    obtain ⟨v', hreach', hv'⟩ := hreach.translate hsim (fun h h' => Prod.mk.inj (h.symm.trans h')) hp hv
    exact ⟨v', _, hreach', hv'.disk.trans hcell⟩

end Stopped

/-- The calls of the file system only add to the log. -/
theorem log_runApi (cs : List ApiCall) (s : Driver) :
    (runApi cs s).2.dev.log = s.dev.log ++ written s (runApi cs s).2 := by
  have h : onDevice (apiProgram cs s.statics) s.dev = runApi cs s := onDevice_apiProgram cs s.dev s.statics
  obtain ⟨ws, n, hwrote⟩ := Device.wrote_run (apiProgram cs s.statics) s.dev
  rw [← h]
  have hlog : (onDevice (apiProgram cs s.statics) s.dev).2.dev.log = s.dev.log ++ ws := hwrote.log
  rw [hlog, written_eq hlog]

/-- **Losing power over the ports**: on any drive that follows the protocol and loses no sector, the disks that a
sequence of calls may leave, when it is stopped at some access to a port, are exactly those at its crash points. -/
theorem fat12_stopped_iff {b : Ata.Behaviour} (hdelay : b.delay < Ata.pollTurns) (hlose : ∀ n a, b.lose n a = false)
    {s : Driver} {v : Ata.Drive} (hv : Behind b s.dev v) (cs : List ApiCall) (disk : ℕ → Sector) :
    (∃ v' p', Prog.Reaches (Ata.Drive.Step b) v ((apiProgram cs s.statics).translate atPorts) v' p' ∧ v'.disk = disk) ↔
      ∃ k ≤ (written s (runApi cs s).2).length, disk = crashDisk s (runApi cs s).2 k := by
  have h : onDevice (apiProgram cs s.statics) s.dev = runApi cs s := onDevice_apiProgram cs s.dev s.statics
  have hlog : ((apiProgram cs s.statics).run Device.answer s.dev).2.log =
      s.dev.log ++ written s (runApi cs s).2 := by
    rw [← log_runApi, ← h]
    rfl
  exact stopped_atPorts hdelay hlose hv (within_apiProgram cs s.statics) hlog disk

/-- The power goes behind the directory entry of a new file, and before its cluster is marked as taken. -/
theorem fat12_stopped_iff_entry :
    let s := Driver.mounted blankDisk fun _ => false
    let cs : List ApiCall := [.write (some [65]) (some fun _ => 0) 1]
    ∃ v' p', Prog.Reaches (Ata.Drive.Step (.losing [])) { blankVolume with ops := 9 }
      ((apiProgram cs s.statics).translate atPorts) v' p' ∧ v'.disk = crashDisk s (runApi cs s).2 2 := by
  intro s cs
  have hdev : s.dev = ⟨blankDisk, fun _ => false, 9, []⟩ := (mounted_spec blankDisk fun _ _ => rfl).2.2
  have hv : Behind (.losing []) s.dev { blankVolume with ops := 9 } := by
    rw [hdev]
    exact ⟨⟨rfl, by decide⟩, rfl, rfl, fun _ _ => rfl⟩
  have hrun : ∀ s, (runApi cs s).2 = (fat12WriteFile (some [65]) (some fun _ => 0) 1 s).2 := fun _ => rfl
  have hlen : (written s (runApi cs s).2).length = 20 := by
    rw [hrun]
    exact length_written_blankDisk [65] (fun _ => 0) 1
  exact (fat12_stopped_iff (by decide) (fun _ _ => rfl) hv cs _).2 ⟨2, by omega, rfl⟩

/-! ### Behind the data, before the directory entry -/

section First

variable {c c' : ℕ → Sector} {fat : FatBuf} {n : Name83} {buf : ℕ → UInt8} {len i cl : ℕ}

theorem freeSlot_congr (h : ∀ i < 224, rootEntry c' i = rootEntry c i) : freeSlot c' = freeSlot c := by
  have key : ∀ {a b : ℕ → Sector}, (∀ i < 224, rootEntry a i = rootEntry b i) →
      ∀ i, freeSlot b = some i → freeSlot a = some i := by
    intro a b hab i hi
    obtain ⟨h1, h2, h3⟩ := freeSlot_eq_some_iff.1 hi
    refine freeSlot_eq_some_iff.2 ⟨h1, by rwa [hab i h1], fun j hj => ?_⟩
    rw [hab j (by omega)]
    exact h3 j hj
  exact Option.ext fun i => ⟨key (fun i hi => (h i hi).symm) i, key h i⟩

theorem target_congr (h : ∀ i < 224, rootEntry c' i = rootEntry c i) : target c' fat n = target c fat n := by
  unfold target
  rw [lookup_congr h n, freeSlot_congr h]
  cases hl : lookup c n with
  | none => rfl
  | some j =>
    dsimp only
    rw [h j (lookup_eq_some_iff.1 hl).1]

/-- **The first write** of a file leaves the directory and the FAT. -/
theorem target_after_one (hi : i < 224) (hcl : DataCluster cl) :
    lookup (after c fat n buf len i cl 1) n = lookup c n ∧
      target (after c fat n buf len i cl 1) (diskFat (after c fat n buf len i cl 1)) n =
        target c (diskFat c) n := by
  have hroot : ∀ j < 224, rootEntry (after c fat n buf len i cl 1) j = rootEntry c j := fun j hj => by
    rw [rootEntry_after hi hcl.lba.2.1 hj, if_neg (by omega)]
  have hfat : diskFat (after c fat n buf len i cl 1) = diskFat c := Buf.ext_rd fun j hj => by
    rw [rd_diskFat_after hi hcl hj, if_neg (by omega)]
  rw [hfat]
  exact ⟨lookup_congr hroot n, target_congr hroot⟩

end First

end AuraOS.Env.Fat12
