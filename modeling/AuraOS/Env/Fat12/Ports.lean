import AuraOS.Adapters.Ata.Storage
import AuraOS.Env.Fat12.Api
import AuraOS.Env.Fat12.Programs

/-!
# The file system over the ports

The sectors that the FAT12 driver asks for are transferred by the ATA driver, port by port.  A drive that follows
the protocol stands for the device of the model (`Behind`): the transfer of one sector is one operation of the
device, and fails if the drive refuses the sector.  So every sequence of calls of the file system gives over the
ports what it gives on the device (`fat12_atPorts`), and what is proved there holds for the ports
(`store_atPorts`).
-/

namespace AuraOS.Env.Fat12

open AuraOS.Lib AuraOS.Kernel AuraOS.Adapters

/-! ### One sector -/

/-- `ata_read_sectors` and `ata_write_sectors` of one sector. -/
def atPorts : (q : CellQuery Sector) → PortProg (CellReply q)
  | .read lba => do
    let r ← Ata.Program.ataReadSectors (UInt32.ofNat lba) 1 true
    pure (if r.1 = .ok then some (Ata.ofWords fun i => r.2.getD i 0) else none)
  | .write lba data => do
    let r ← Ata.Program.ataWriteSectors (UInt32.ofNat lba) 1 (some (Ata.word data))
    pure (decide (r = .ok))

/-- The drive `v` stands for the device `d`. -/
structure Behind (b : Ata.Behaviour) (d : Device Sector) (v : Ata.Drive) : Prop where
  rest : v.Rest b
  disk : v.disk = d.cell
  ops : v.ops = d.ops
  fault : ∀ n a, b.refuse n a = d.fault n

section Sector

variable {b : Ata.Behaviour} {d : Device Sector} {v : Ata.Drive}

theorem toNat_ofNat_inReach {lba : ℕ} (h : lba < 2 ^ 28) : (UInt32.ofNat lba).toNat % 2 ^ 28 = lba := by
  rw [UInt32.toNat_ofNat', Nat.mod_eq_of_lt (show lba < 2 ^ 32 by omega), Nat.mod_eq_of_lt h]

/-- Reading a sector is one operation of the device. -/
theorem wp_readSector (hdelay : b.delay < Ata.pollTurns) (hv : Behind b d v) {lba : ℕ} (hlba : lba < 2 ^ 28) :
    (atPorts (.read lba)).wp (Ata.Drive.Step b)
      (fun r v' => ∃ d', d.answer (.read lba) = (r, d') ∧ Behind b d' v') v := by
  unfold atPorts
  rw [Prog.wp_bind]
  have hone : (1 : UInt8) ≠ 0 := by decide
  refine (Ata.wp_ataReadSectors hdelay hv.rest _ hone).mono fun r v' hdone => ?_
  rw [toNat_ofNat_inReach hlba, show (1 : UInt8).toNat = 1 from rfl] at hdone
  have hgiven : b.given v.ops lba 1 = if d.fault d.ops then 0 else 1 := by
    rw [Ata.given_succ, hv.fault, hv.ops]
    rfl
  have hops : v'.ops = d.ops + 1 := by
    rw [hdone.ops, hgiven, hv.ops]
    split
    · rfl
    · rfl
  refine ⟨(d.read lba).2, ?_, hdone.rest, hdone.disk.trans hv.disk, hops, hv.fault⟩
  refine Prod.ext ?_ rfl
  change (d.read lba).1 = if r.1 = .ok then some (Ata.ofWords fun i => r.2.getD i 0) else none
  cases hf : d.fault d.ops with
  | true =>
    rw [hf, if_pos rfl] at hgiven
    rw [Device.read_fst_of_fault hf, hdone.status, hgiven]
    rfl
  | false =>
    rw [hf, if_neg (by decide)] at hgiven
    have hwords : r.2 = Ata.words (d.cell lba) := by
      rw [hdone.words, hgiven, hv.disk]
      simp
    rw [Device.read_fst_of_ok hf, hdone.status, hgiven, if_pos rfl, if_pos rfl, hwords, Ata.ofWords_words]

/-- Writing a sector is one operation of the device, on a drive that loses no sector. -/
theorem wp_writeSector (hdelay : b.delay < Ata.pollTurns) (hlose : ∀ n a, b.lose n a = false) (hv : Behind b d v)
    {lba : ℕ} (hlba : lba < 2 ^ 28) (data : Sector) :
    (atPorts (.write lba data)).wp (Ata.Drive.Step b)
      (fun r v' => ∃ d', d.answer (.write lba data) = (r, d') ∧ Behind b d' v') v := by
  unfold atPorts
  rw [Prog.wp_bind]
  have hone : (1 : UInt8) ≠ 0 := by decide
  refine (Ata.wp_ataWriteSectors hdelay hv.rest _ hone _).mono fun r v' hdone => ?_
  rw [toNat_ofNat_inReach hlba, show (1 : UInt8).toNat = 1 from rfl] at hdone
  have hkept : b.kept v.ops lba 1 = if d.fault d.ops then 0 else 1 := by
    rw [Ata.kept_succ, hlose, hv.fault, hv.ops, Bool.or_false]
    rfl
  have hbehind : ∀ d', d'.fault = d.fault → d'.ops = d.ops + 1 → v'.disk = d'.cell → Behind b d' v' := by
    intro d' hfault hops hdisk
    refine ⟨hdone.rest, hdisk, ?_, fun n a => by rw [hv.fault, hfault]⟩
    rw [hdone.ops, hkept, hv.ops, hops]
    split
    · rfl
    · rfl
  refine ⟨(d.write lba data).2, ?_, ?_⟩
  · refine Prod.ext ?_ rfl
    change (d.write lba data).1 = decide (r = .ok)
    cases hf : d.fault d.ops with
    | true =>
      rw [hf, if_pos rfl] at hkept
      have hno : ¬((0 : ℕ) = 1 ∨ 0 + 1 = 1 ∧ b.refuse (v.ops + 0) (lba + 0) = false) := by
        rw [hv.fault, hv.ops, Nat.add_zero d.ops, hf]
        decide
      rw [(Device.write_of_fault hf lba data).1, hdone.status, hkept, if_neg hno]
      rfl
    | false =>
      rw [hf, if_neg (by decide)] at hkept
      rw [(Device.write_of_ok hf lba data).1, hdone.status, hkept, if_pos (Or.inl rfl)]
      rfl
  · cases hf : d.fault d.ops with
    | true =>
      have hw := (Device.write_of_fault hf lba data).2
      rw [hf, if_pos rfl] at hkept
      refine hbehind _ hw.fault hw.ops ?_
      rw [hdone.disk, hkept, hw.cell, hv.disk]
      rfl
    | false =>
      have hw := (Device.write_of_ok hf lba data).2
      rw [hf, if_neg (by decide)] at hkept
      refine hbehind _ hw.fault hw.ops ?_
      rw [hdone.disk, hkept, hw.cell, hv.disk]
      simp [Ata.ofWords_word]

/-- **Programs over the ports** do what they do on the device. -/
theorem wp_atPorts (hdelay : b.delay < Ata.pollTurns) (hlose : ∀ n a, b.lose n a = false) (hv : Behind b d v)
    {α : Type} {post : α → Prop} {p : SectorProg α} (hp : Prog.Within InReach post p) :
    (p.translate atPorts).wp (Ata.Drive.Step b)
      (fun r v' => r = (p.run Device.answer d).1 ∧ Behind b (p.run Device.answer d).2 v') v := by
  have hrun : p.wp (fun (d : Device Sector) q r d' => d.answer q = (r, d'))
      (fun a d' => (a, d') = p.run Device.answer d) d := Prog.wp_iff_run.2 rfl
  refine (Prog.wp_translate (fun q d v hq hv => ?_) hp hv hrun).mono ?_
  · cases q with
    | read lba => exact wp_readSector hdelay hv hq
    | write lba data => exact wp_writeSector hdelay hlose hv hq data
  · rintro r v' ⟨d', h, hv'⟩
    rw [← h]
    exact ⟨rfl, hv'⟩

end Sector

/-! ### The file system -/

/-- The call as a program. -/
def ApiCall.program : ApiCall → Statics → SectorProg (ApiResult × Statics)
  | reset, _ => pure (.reset, ⟨.tab 512 fun _ => 0, .tab 4608 fun _ => 0, false⟩)
  | init, s => Program.fat12Init s >>= fun r => pure (.init r.1, r.2)
  | write name buf len, s => Program.fat12WriteFile name buf len s >>= fun r => pure (.write r.1, r.2)
  | read name buf len, s => Program.fat12ReadFile name buf len s >>= fun r => pure (.read r.1, r.2)

/-- Calls one after the other as a program. -/
def apiProgram : List ApiCall → Statics → SectorProg (List ApiResult × Statics)
  | [], s => pure ([], s)
  | c :: cs, s => do
    let r ← c.program s
    let rest ← apiProgram cs r.2
    pure (r.1 :: rest.1, rest.2)

theorem onDevice_apiCall (c : ApiCall) (d : Device Sector) (s : Statics) :
    onDevice (c.program s) d = c.onDriver (s.driver d) := by
  cases c with
  | reset => rfl
  | init =>
    unfold ApiCall.program ApiCall.onDriver
    rw [onDevice_bind, onDevice_fat12Init]
    rfl
  | write name buf len =>
    unfold ApiCall.program ApiCall.onDriver
    rw [onDevice_bind, onDevice_fat12WriteFile]
    rfl
  | read name buf len =>
    unfold ApiCall.program ApiCall.onDriver
    rw [onDevice_bind, onDevice_fat12ReadFile]
    rfl

theorem onDevice_apiProgram (cs : List ApiCall) (d : Device Sector) (s : Statics) :
    onDevice (apiProgram cs s) d = runApi cs (s.driver d) := by
  induction cs generalizing d s with
  | nil => rfl
  | cons c cs ih =>
    unfold apiProgram runApi
    rw [onDevice_bind, onDevice_apiCall, onDevice_bind, ih]
    rfl

theorem within_apiCall (c : ApiCall) (s : Statics) : Prog.Within InReach (fun _ => True) (c.program s) := by
  cases c with
  | reset => trivial
  | init => exact Prog.within_bind (within_fat12Init.mono fun _ _ => trivial)
  | write name buf len => exact Prog.within_bind ((within_fat12WriteFile name buf len).mono fun _ _ => trivial)
  | read name buf len => exact Prog.within_bind ((within_fat12ReadFile name buf len).mono fun _ _ => trivial)

theorem within_apiProgram (cs : List ApiCall) (s : Statics) :
    Prog.Within InReach (fun _ => True) (apiProgram cs s) := by
  induction cs generalizing s with
  | nil => trivial
  | cons c cs ih =>
    refine Prog.within_bind ((within_apiCall c s).mono fun r _ => ?_)
    exact Prog.within_bind ((ih r.2).mono fun _ _ => trivial)

/-- The calls over the ports, and the driver that the model gives. -/
theorem wp_apiProgram {b : Ata.Behaviour} (hdelay : b.delay < Ata.pollTurns) (hlose : ∀ n a, b.lose n a = false)
    {s : Driver} {v : Ata.Drive} (hv : Behind b s.dev v) (cs : List ApiCall) :
    ((apiProgram cs s.statics).translate atPorts).wp (Ata.Drive.Step b) (fun r v' =>
      r = ((runApi cs s).1, (runApi cs s).2.statics) ∧ Behind b (runApi cs s).2.dev v') v := by
  refine (wp_atPorts hdelay hlose hv (within_apiProgram cs s.statics)).mono ?_
  rintro r v' ⟨rfl, hv'⟩
  have h : onDevice (apiProgram cs s.statics) s.dev = runApi cs s := onDevice_apiProgram cs s.dev s.statics
  rw [← h]
  exact ⟨rfl, hv'⟩

/-- **The file system over the ports**: every sequence of calls gives, port by port on any drive that follows the
protocol, stands for the device of the driver and loses no sector, the results, the static variables and the disk
that it gives on the device, faults included. -/
theorem fat12_atPorts {b : Ata.Behaviour} (hdelay : b.delay < Ata.pollTurns) (hlose : ∀ n a, b.lose n a = false)
    {s : Driver} {v : Ata.Drive} (hv : Behind b s.dev v) (cs : List ApiCall) :
    ((apiProgram cs s.statics).translate atPorts).wp (Ata.Drive.Step b) (fun r v' =>
      r.1 = (runApi cs s).1 ∧ r.2 = (runApi cs s).2.statics ∧ v'.disk = (runApi cs s).2.dev.cell ∧
        v'.Rest b) v := by
  refine (wp_apiProgram hdelay hlose hv cs).mono ?_
  rintro r v' ⟨rfl, hv'⟩
  exact ⟨rfl, rfl, hv'.disk, hv'.rest⟩

/-- The blank volume behind a drive that is still busy. -/
def blankVolume : Ata.Drive := { Ata.blankDrive with disk := blankDisk }

/-- A mount, a write and a read over the ports. -/
theorem fat12_atPorts_write :
    let cs : List ApiCall := [.init, .write (some [97]) (some fun _ => 7) 3, .read (some [65]) true 2]
    ∃ r v', Prog.Exec (Ata.Drive.Step (.losing [])) blankVolume
      ((apiProgram cs (Driver.boot blankDisk fun _ => false).statics).translate atPorts) r v' ∧
        r.1 = [.init .ok, .write (some 3), .read (some [7, 7])] := by
  intro cs
  have hv : Behind (.losing []) (Driver.boot blankDisk fun _ => false).dev blankVolume :=
    ⟨⟨rfl, by decide⟩, rfl, rfl, fun _ _ => rfl⟩
  have hreflects : Reflects .blank (Driver.boot blankDisk fun _ => false) :=
    Formatted.reflects formatted_blankDisk (fun _ => rfl) rfl
  obtain ⟨r, v', hexec, hres, -⟩ := (fat12_atPorts (by decide) (fun _ _ => rfl) hv cs).exists_exec
  refine ⟨r, v', hexec, hres.trans ?_⟩
  rw [hreflects.run (show ∀ c ∈ cs, c.Printable by decide)]
  decide

/-- **The file store over the ports**: on a formatted volume of a drive that follows the protocol, and refuses and
loses no sector, the results of every sequence of calls with printable names and power cycles are those of a map of
names to files with room for 224 names. -/
theorem store_atPorts {b : Ata.Behaviour} (hdelay : b.delay < Ata.pollTurns) (hrefuse : ∀ n a, b.refuse n a = false)
    (hlose : ∀ n a, b.lose n a = false) {v : Ata.Drive} (hv : v.Rest b) (hfmt : Formatted v.disk) {st : Statics}
    (hst : st.sFatLoaded = false) {cs : List ApiCall} (hcs : ∀ c ∈ cs, c.Printable) :
    ((apiProgram cs st).translate atPorts).wp (Ata.Drive.Step b) (fun r v' =>
      r.1 = Store.blank.run cs ∧ v'.Rest b) v := by
  obtain ⟨d, hd⟩ : ∃ d : Device Sector, d = ⟨v.disk, fun _ => false, v.ops, []⟩ := ⟨_, rfl⟩
  have hbehind : Behind b (st.driver d).dev v := by
    rw [hd]
    exact ⟨hv, rfl, rfl, hrefuse⟩
  have hreflects : Reflects .blank (st.driver d) := by
    refine Formatted.reflects ?_ (fun t => ?_) hst
    · rw [hd]
      exact hfmt
    · rw [hd]
      rfl
  refine (wp_apiProgram hdelay hlose hbehind cs).mono ?_
  rintro r v' ⟨rfl, hv'⟩
  exact ⟨hreflects.run hcs, hv'.rest⟩

/-- A write, a power cycle and a read of the same name and of another one, over the ports. -/
theorem store_atPorts_blank :
    let cs : List ApiCall := [.init, .write (some [97]) (some fun _ => 7) 3, .reset, .init,
      .read (some [65]) true 2, .read (some [66]) true 2]
    ∃ r v', Prog.Exec (Ata.Drive.Step (.losing [])) blankVolume
      ((apiProgram cs (Driver.boot blankDisk fun _ => false).statics).translate atPorts) r v' ∧
        r.1 = [.init .ok, .write (some 3), .reset, .init .ok, .read (some [7, 7]), .read none] := by
  intro cs
  have hcs : ∀ c ∈ cs, c.Printable := by decide
  obtain ⟨r, v', hexec, hres, -⟩ := (store_atPorts (b := .losing []) (by decide) (fun _ _ => rfl) (fun _ _ => rfl)
    (v := blankVolume) ⟨rfl, by decide⟩ formatted_blankDisk
    (show (Driver.boot blankDisk fun _ => false).statics.sFatLoaded = false from rfl) hcs).exists_exec
  exact ⟨r, v', hexec, hres.trans (by decide)⟩

end AuraOS.Env.Fat12
