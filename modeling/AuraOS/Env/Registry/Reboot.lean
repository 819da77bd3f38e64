import AuraOS.Env.Fat12.PowerLoss
import AuraOS.Env.Registry.File

/-!
# The registry across power cycles

What becomes of the environment variables from one start of the machine to the next, over the ports of the drive.
A life of the machine is any sequence of power cycles, of calls of `env_set`, of restores (which call `env_init`)
and of calls of `env_save` (in `kernel_shutdown` and `kernel_panic`).

* `registry_outlives`: on a formatted volume the registry is at each point what the text of the last save assigns,
  on top of the defaults, and what was set since the start.
* `variables_outlive`: if the keys and values are clean, the variables that fit in the file come back as they were.

At a start the memory may hold anything; the drive is ready and its address registers are 0.
-/

namespace AuraOS.Env

open AuraOS.Lib AuraOS.Kernel AuraOS.Env.Fat12 AuraOS.Adapters

/-! ### The programs -/

namespace Program

/-- `env_save`. -/
def envSave (t : EnvTable) (s : Statics) : SectorProg (Option ℕ × Statics) :=
  Fat12.Program.fat12WriteFile (some aiosEnv) (some fun i => (saveBytes t).getD i 0) (saveBytes t).length s

/-- `env_load`. -/
def envLoad (t : EnvTable) (s : Statics) : SectorProg (Int × EnvTable × Statics) := do
  match ← Fat12.Program.fat12ReadFile (some aiosEnv) true 511 s with
  | (some (c :: bytes), s) => pure (0, loadLoop (c :: bytes).length (c :: bytes) t, s)
  | (_, s) => pure (-1, t, s)

/-- The steps of `kernel_main` for the registry: `env_init`, and `env_load` if there is a drive with a volume. -/
def startEnv (t : EnvTable) (s : Statics) : PortProg (EnvTable × Statics) := do
  let t := envInit t
  match ← Ata.Program.ataInit with
  | .ok =>
    match ← (Fat12.Program.fat12Init s).translate atPorts with
    | (.ok, s) =>
      let r ← (envLoad t s).translate atPorts
      pure (r.2.1, r.2.2)
    | (_, s) => pure (t, s)
  | _ => pure (t, s)

end Program

/-! ### The lives of a machine -/

/-- What the registry is kept in. -/
structure Machine where
  env : EnvTable
  statics : Statics
  drive : Ata.Drive

/-- What happens to the registry. -/
inductive Event where
  /-- the power goes, and comes back -/
  | power
  | set (c : EnvCall)
  /-- `env_init`, from `mirror_restore` -/
  | restore
  /-- `env_save`, from `kernel_shutdown` or `kernel_panic` -/
  | save

/-- The drive `v` comes back as `v'`. -/
structure PowersOn (b : Ata.Behaviour) (v v' : Ata.Drive) : Prop where
  rest : v'.Rest b
  ready : v'.wait = 0
  lba1 : v'.lba1 = 0
  lba2 : v'.lba2 = 0
  disk : v'.disk = v.disk

/-- However the drive answers and whatever the memory holds at a start, the events go through and end with `P`. -/
def Machine.lives (b : Ata.Behaviour) : List Event → (Machine → Prop) → Machine → Prop
  | [], P, m => P m
  | .power :: es, P, m => ∀ t s v, PowersOn b m.drive v →
      (Program.startEnv t s).wp (Ata.Drive.Step b) (fun r v' => lives b es P ⟨r.1, r.2, v'⟩) v
  | .set c :: es, P, m => lives b es P { m with env := (envSet (some c.key) (some c.value) m.env).2 }
  | .restore :: es, P, m => lives b es P { m with env := envInit m.env }
  | .save :: es, P, m =>
      ((Program.envSave m.env m.statics).translate atPorts).wp (Ata.Drive.Step b)
        (fun r v' => lives b es P ⟨m.env, r.2, v'⟩) m.drive

/-- The variables, and the text of the file, behind an event. -/
def Event.next : Event → Vars × Option (List UInt8) → Vars × Option (List UInt8)
  | power, (_, text) => (setVars (assignments 61 10 (text.getD [])) bootVars, text)
  | set c, (l, text) => (setVar c.key.text c.value.text l, text)
  | restore, (_, text) => (bootVars, text)
  | save, (l, _) => (l, some (render 61 10 (fitting 0 l)))

/-! ### The file -/

/-- The file `AIOS.ENV`, of which `env_load` reads 511 bytes, has the bytes `text`, and a write of it finds a slot and
a data cluster. -/
structure Keeps (disk : ℕ → Sector) (text : Option (List UInt8)) : Prop where
  bytes : fileBytes disk (nameToFat83 aiosEnv) 511 = text
  place : ∃ i cl, target disk (diskFat disk) (nameToFat83 aiosEnv) = some (i, cl) ∧ DataCluster cl

/-- The file when the power goes behind `k` sector writes of a save: the data come first, and the directory entry
behind them has the new length. -/
def cutText (old : Option (List UInt8)) (new : List UInt8) : ℕ → Option (List UInt8)
  | 0 => old
  | 1 => old.map fun bytes => new.takeD bytes.length 0
  | _ + 2 => some new

section File

variable {t : EnvTable} {l : Vars} {s : Driver} {text : Option (List UInt8)} {disk : ℕ → Sector} {i cl : ℕ}
  {bytes : List UInt8}

theorem printable_aiosEnv : Printable aiosEnv := by decide

theorem Keeps.of_formatted (h : Formatted disk) : Keeps disk none := by
  have hr : Reflects .blank ((⟨.tab 512 fun _ => 0, .tab 4608 fun _ => 0, false⟩ : Statics).driver
    ⟨disk, fun _ => false, 0, []⟩) := h.reflects (fun _ => rfl) rfl
  refine ⟨?_, 0, 2, h.target _, by decide, by decide⟩
  have hnone : files disk (nameToFat83 aiosEnv) = none := hr.files _
  rw [fileBytes_eq, hnone]
  rfl

/-- A sector with new data, of which as many bytes are read as before. -/
theorem map_dataSector {n : ℕ} (hn : n ≤ 512) :
    (List.range n).map (dataSector (fun i => bytes.getD i 0) bytes.length).rd = bytes.takeD n 0 := by
  rw [takeD_eq_map]
  refine List.map_congr_left fun i hi => ?_
  rw [List.mem_range] at hi
  unfold dataSector
  rw [Buf.rd_tab _ (by omega)]
  split
  next => rfl
  next hlen =>
    rw [List.getD_eq_getElem?_getD, List.getElem?_eq_none (by omega)]
    rfl

/-- **The sector writes of a save**: wherever they end, the file can be written again. -/
theorem Keeps.after (h : Keeps disk text)
    (htg : target disk (diskFat disk) (nameToFat83 aiosEnv) = some (i, cl)) (hlen : bytes.length ≤ 511) (k : ℕ) :
    Keeps (after disk (fat12SetCluster (diskFat disk) cl 0xFFF) (nameToFat83 aiosEnv) (fun i => bytes.getD i 0)
      bytes.length i cl k) (cutText text bytes k) := by
  have hi := target_slot_lt htg
  have hcl : DataCluster cl := by
    obtain ⟨_, _, htg', hcl⟩ := h.place
    obtain ⟨-, rfl⟩ := Prod.mk.inj (Option.some.inj (htg.symm.trans htg'))
    exact hcl
  rcases k with _ | _ | k
  · exact h
  · obtain ⟨hlook, htarget⟩ := @target_after_one disk (fat12SetCluster (diskFat disk) cl 0xFFF)
      (nameToFat83 aiosEnv) (fun i => bytes.getD i 0) bytes.length i cl hi hcl
    refine ⟨?_, i, cl, htarget.trans htg, hcl⟩
    have hbytes := h.bytes
    unfold fileBytes at hbytes ⊢
    rw [hlook, ← hbytes]
    cases hl : lookup disk (nameToFat83 aiosEnv) with
    | none => rfl
    | some j =>
      rw [target_of_found hl] at htg
      obtain ⟨rfl, rfl⟩ := Prod.mk.inj (Option.some.inj htg)
      have hdata := hcl.lba
      rw [Option.map_some, Option.map_some, cutText, Option.map_some, rootEntry_after hi hdata.2.1 hi,
        if_neg (by omega), after_data hi hdata.2.1, if_pos ⟨Nat.le_refl 1, rfl⟩,
        map_dataSector (Nat.min_le_right _ _), List.length_map, List.length_range]
  · have hname := nameToFat83_ne_zero aiosEnv (show 0 < 11 by omega)
    have hE := nameToFat83_ne_E5 printable_aiosEnv (show 0 < 11 by omega)
    have hdata := hcl.lba
    refine ⟨?_, i, cl, ?_, hcl⟩
    · rw [fileBytes_after_self htg hdata.2.1 hname hE (by omega) (by omega), stored_getD (by omega),
        List.take_of_length_le hlen]
      rfl
    · rw [target_of_found (lookup_after_self htg hdata.2.1 hname hE (by omega)), rootEntry_after hi hdata.2.1 hi,
        if_pos ⟨by omega, rfl⟩, newDirent_cluster _ _ (target_cluster_lt htg)]

/-- **A save** performs all writes of its plan, and puts the text into the file. -/
theorem Keeps.save (h : Keeps s.dev.cell text) (hm : s.sFatLoaded = true) (hs : Coherent s) (ht : Represents t l) :
    let s' := (envSave t s).2
    s'.sFatLoaded = true ∧ Coherent s' ∧ Keeps s'.dev.cell (some (render 61 10 (fitting 0 l))) ∧
      ∃ ws : List (ℕ × Sector), ws.length = 20 ∧ s'.dev.log = s.dev.log ++ ws ∧
        s'.dev.cell = replay ws s.dev.cell ∧
        ∀ k, Keeps (replay (ws.take k) s.dev.cell) (cutText text (render 61 10 (fitting 0 l)) k) := by
  obtain ⟨hm', hs'⟩ := hs.write hm aiosEnv (fun i => (saveBytes t).getD i 0) (saveBytes t).length
  obtain ⟨i, cl, htg, -⟩ := h.place
  have htg' := htg
  rw [← hs.fat hm] at htg'
  have hok := scanOk_of_never hs.works (nameToFat83 aiosEnv)
  obtain ⟨-, j, hd⟩ := (fat12WriteFile_spec hm aiosEnv (fun i => (saveBytes t).getD i 0)
    (saveBytes t).length).2.2 hok i cl htg'
  have hlen := ht.length_saveBytes
  have hcap : capLen (saveBytes t).length = (saveBytes t).length := by
    rw [capLen_eq]
    omega
  rw [done_of_never hs.works, hcap, hs.fat hm] at hd
  have hafter := h.after htg hlen
  unfold Fat12.after at hafter
  have hplan := length_plan s.dev.cell (fat12SetCluster (diskFat s.dev.cell) cl 0xFFF) (nameToFat83 aiosEnv)
    (fun i => (saveBytes t).getD i 0) (saveBytes t).length i cl
  generalize plan s.dev.cell (fat12SetCluster (diskFat s.dev.cell) cl 0xFFF) (nameToFat83 aiosEnv)
    (fun i => (saveBytes t).getD i 0) (saveBytes t).length i cl = ws at hd hafter hplan
  rw [ht.saveBytes_eq] at hafter
  have hall := hafter 20
  rw [List.take_of_length_le (Nat.le_of_eq hplan)] at hd hall
  have hcell : (envSave t s).2.dev.cell = replay ws s.dev.cell := hd.dev.cell
  refine ⟨hm', hs', ?_, ws, hplan, hd.dev.log, hcell, hafter⟩
  rw [hcell]
  exact hall

/-- **A load** assigns what the text says. -/
theorem Keeps.load (h : Keeps s.dev.cell text) (hm : s.sFatLoaded = true) (hs : Coherent s)
    (ht : Represents t l) :
    let out := envLoad t s
    Represents out.2.1 (setVars (assignments 61 10 (text.getD [])) l) ∧ out.2.2.sFatLoaded = true ∧
      Coherent out.2.2 ∧ out.2.2.dev.cell = s.dev.cell := by
  obtain ⟨hm', -, hcell, hs'⟩ := hs.read (some aiosEnv) true 511
  have hfile : (fat12ReadFile (some aiosEnv) true 511 s).1 = text :=
    (fat12ReadFile_of_ok hm hs.works aiosEnv (by omega)).trans h.bytes
  unfold envLoad
  rcases hread : fat12ReadFile (some aiosEnv) true 511 s with ⟨res, s'⟩
  rw [hread] at hfile hm' hcell hs'
  obtain rfl : res = text := hfile
  rw [hm] at hm'
  rcases res with _ | _ | ⟨c, bytes⟩
  · exact ⟨ht, hm', hs', hcell⟩
  · exact ⟨ht, hm', hs', hcell⟩
  · refine ⟨?_, hm', hs', hcell⟩
    dsimp only [Option.getD_some]
    rw [loadLoop_eq (Nat.le_refl _)]
    exact ht.assignLines _

end File

/-! ### One event -/

/-- The machine is up: the registry holds the variables, and the volume is mounted and holds the text. -/
structure Up (b : Ata.Behaviour) (m : Machine) (p : Vars × Option (List UInt8)) : Prop where
  vars : Represents m.env p.1
  volume : ∃ d, Behind b d m.drive ∧ m.statics.sFatLoaded = true ∧ Coherent (m.statics.driver d) ∧ Keeps d.cell p.2

section Events

variable {b : Ata.Behaviour} {m : Machine} {l : Vars} {text : Option (List UInt8)}

theorem run_envSave (t : EnvTable) (s : Statics) (d : Device Sector) :
    ((Program.envSave t s).run Device.answer d).1.2.driver ((Program.envSave t s).run Device.answer d).2 =
      (envSave t (s.driver d)).2 :=
  congrArg Prod.snd (onDevice_fat12WriteFile d s (some aiosEnv) _ _)

theorem run_envLoad (t : EnvTable) (s : Statics) (d : Device Sector) :
    (Program.envLoad t s).run Device.answer d =
      (((envLoad t (s.driver d)).1, (envLoad t (s.driver d)).2.1, (envLoad t (s.driver d)).2.2.statics),
        (envLoad t (s.driver d)).2.2.dev) := by
  have h := onDevice_fat12ReadFile d s (some aiosEnv) true 511
  unfold Program.envLoad envLoad
  rw [Prog.run_bind, ← h]
  unfold onDevice
  rcases (Fat12.Program.fat12ReadFile (some aiosEnv) true 511 s).run Device.answer d with ⟨⟨_ | _ | _, s'⟩, d'⟩
  · rfl
  · rfl
  · rfl

theorem within_envLoad (t : EnvTable) (s : Statics) :
    Prog.Within InReach (fun _ => True) (Program.envLoad t s) := by
  refine Prog.within_bind ((within_fat12ReadFile (some aiosEnv) true 511).mono fun r _ => ?_)
  rcases r with ⟨_ | _ | _, s'⟩
  · trivial
  · trivial
  · trivial

/-- `ata_init` finds the drive. -/
theorem PowersOn.wp_ataInit (hdelay : b.delay < Ata.pollTurns) (hrefuse : ∀ n a, b.refuse n a = false)
    {v v' : Ata.Drive} (h : PowersOn b v v') : Ata.Program.ataInit.wp (Ata.Drive.Step b) (fun r u =>
      r = .ok ∧ ∃ d, Behind b d u ∧ (∀ i, d.fault i = false) ∧ d.cell = v.disk) v' := by
  refine (Ata.ataInit_correct hdelay h.rest).mono ?_
  rintro r u ⟨rfl, hrest, hdisk⟩
  rw [if_pos ⟨h.ready, h.lba1, h.lba2⟩] at hrest ⊢
  exact ⟨rfl, ⟨u.disk, fun _ => false, u.ops, []⟩, ⟨hrest rfl, rfl, rfl, hrefuse⟩, fun _ => rfl, hdisk.trans h.disk⟩

/-- Mounting the volume, whatever the memory holds. -/
theorem run_fat12Init {d : Device Sector} (hok : ∀ i, d.fault i = false) (s : Statics) : ∃ s' d',
    (Fat12.Program.fat12Init s).run Device.answer d = ((.ok, s'), d') ∧ s'.sFatLoaded = true ∧
      Coherent (s'.driver d') ∧ d'.cell = d.cell ∧ d'.log = d.log := by
  have hinit := onDevice_fat12Init d s
  unfold onDevice at hinit
  generalize (Fat12.Program.fat12Init s).run Device.answer d = out at hinit ⊢
  obtain ⟨⟨res, s'⟩, d'⟩ := out
  dsimp only at hinit
  have hres : (fat12Init (s.driver d)).1 = .ok := fat12Init_eq_ok_iff.2 (streak_of_never hok _ _)
  rw [← hinit] at hres
  obtain rfl : res = .ok := hres
  obtain ⟨hm, hfat, hdev⟩ := fat12Init_spec hinit.symm
  have hcell : d'.cell = d.cell := hdev.cell
  refine ⟨s', d', rfl, hm, ⟨fun i => ?_, fun _ => ?_⟩, hcell, hdev.log.trans (List.append_nil _)⟩
  · exact (congrFun hdev.fault i).trans (hok i)
  · exact hfat.trans (congrArg diskFat hcell.symm)

/-- **`env_save`** over the ports. -/
theorem Up.save (hdelay : b.delay < Ata.pollTurns) (hlose : ∀ n a, b.lose n a = false) (h : Up b m (l, text)) :
    ((Program.envSave m.env m.statics).translate atPorts).wp (Ata.Drive.Step b)
      (fun r v' => Up b ⟨m.env, r.2, v'⟩ (Event.save.next (l, text))) m.drive := by
  obtain ⟨d, hbehind, hm, hs, hkeeps⟩ := h.volume
  refine (wp_atPorts hdelay hlose hbehind ((within_fat12WriteFile _ _ _).mono fun _ _ => trivial)).mono ?_
  rintro r v' ⟨rfl, hv'⟩
  obtain ⟨hm', hs', hkeeps', -⟩ := hkeeps.save (s := m.statics.driver d) hm hs h.vars
  rw [← run_envSave] at hm' hs' hkeeps'
  exact ⟨h.vars, _, hv', hm', hs', hkeeps'⟩

/-- **The start**, over the ports. -/
theorem Keeps.start (hdelay : b.delay < Ata.pollTurns) (hrefuse : ∀ n a, b.refuse n a = false)
    (hlose : ∀ n a, b.lose n a = false) {v v' : Ata.Drive} (h : Keeps v.disk text) (hv : PowersOn b v v')
    (t : EnvTable) (s : Statics) :
    (Program.startEnv t s).wp (Ata.Drive.Step b)
      (fun r v' => Up b ⟨r.1, r.2, v'⟩ (Event.power.next (l, text))) v' := by
  unfold Program.startEnv
  rw [Prog.wp_bind]
  refine (hv.wp_ataInit hdelay hrefuse).mono ?_
  rintro r v₁ ⟨rfl, d, hbehind, hok, hcell⟩
  rw [← hcell] at h
  -- the volume is mounted
  dsimp only
  rw [Prog.wp_bind]
  refine (wp_atPorts hdelay hlose hbehind within_fat12Init).mono ?_
  rintro r v₂ ⟨rfl, hv₂⟩
  obtain ⟨s₁, d₁, hrun, hm, hs, hcell₁, -⟩ := run_fat12Init hok s
  rw [← hcell₁] at h
  rw [hrun] at hv₂ ⊢
  -- the file is read
  dsimp only
  rw [Prog.wp_bind]
  refine (wp_atPorts hdelay hlose hv₂ (within_envLoad (envInit t) s₁)).mono ?_
  rintro r v₃ ⟨rfl, hv₃⟩
  obtain ⟨hvars, hm', hs', hcell₂⟩ := h.load (s := s₁.driver d₁) hm hs (represents_envInit t)
  rw [run_envLoad] at hv₃ ⊢
  exact ⟨hvars, _, hv₃, hm', hs', hcell₂ ▸ h⟩

end Events

/-! ### Whole lives -/

section Lives

variable {b : Ata.Behaviour} {m : Machine}

/-- What a start finds on the disk it leaves there. -/
theorem Up.keeps {p : Vars × Option (List UInt8)} (h : Up b m p) : Keeps m.drive.disk p.2 := by
  obtain ⟨d, hbehind, -, -, hkeeps⟩ := h.volume
  rw [hbehind.disk]
  exact hkeeps

theorem Up.lives (hdelay : b.delay < Ata.pollTurns) (hrefuse : ∀ n a, b.refuse n a = false)
    (hlose : ∀ n a, b.lose n a = false) {p : Vars × Option (List UInt8)} (h : Up b m p) (es : List Event) :
    m.lives b es (fun m' => Up b m' (es.foldl (fun p e => e.next p) p)) := by
  induction es generalizing m p with
  | nil => exact h
  | cons e es ih =>
    obtain ⟨l, text⟩ := p
    rw [List.foldl_cons]
    cases e with
    | power => exact fun t s v hv => (h.keeps.start hdelay hrefuse hlose hv t s).mono fun r v' hup => ih hup
    | set c =>
      have hup : Up b { m with env := (envSet (some c.key) (some c.value) m.env).2 } ((Event.set c).next (l, text)) :=
        ⟨h.vars.envSet c.key c.value, h.volume⟩
      exact ih hup
    | restore =>
      have hvars := represents_envInit m.env
      rw [Machine.lives]
      generalize envInit m.env = t at hvars ⊢
      have hup : Up b { m with env := t } (bootVars, text) := ⟨hvars, h.volume⟩
      exact ih hup
    | save => exact (h.save hdelay hlose).mono fun r v' hup => ih hup

/-- A life that ends with `P` ends with what follows from it. -/
theorem Machine.lives.mono {es : List Event} {P P' : Machine → Prop} (h : m.lives b es P) (hle : ∀ m, P m → P' m) :
    m.lives b es P' := by
  induction es generalizing m with
  | nil => exact hle m h
  | cons e es ih =>
    cases e with
    | power => exact fun t s v hv => (h t s v hv).mono fun r v' hr => ih hr
    | set c => exact ih h
    | restore => exact ih h
    | save => exact Prog.wp.mono h fun r v' hr => ih hr

/-- **The registry outlives its memory**: on a drive that follows the protocol, and refuses and loses no sector, with
a formatted volume, in every life of the machine each variable is what the events say. -/
theorem registry_outlives (hdelay : b.delay < Ata.pollTurns) (hrefuse : ∀ n a, b.refuse n a = false)
    (hlose : ∀ n a, b.lose n a = false) (hfmt : Formatted m.drive.disk) (es : List Event) :
    m.lives b (.power :: es) (fun m' => ∀ key : CStr,
      envGet (some key) m'.env = (es.foldl (fun p e => e.next p) (bootVars, none)).1.lookup key.text) := by
  intro t s v hv
  refine ((Keeps.of_formatted hfmt).start (l := []) hdelay hrefuse hlose hv t s).mono fun r v' hup => ?_
  exact (hup.lives hdelay hrefuse hlose es).mono fun m' h key => h.vars.envGet_eq key

/-- A machine with a blank volume, switched off. -/
def blankMachine : Machine where
  env := zeroTable
  statics := ⟨.tab 512 fun _ => 0, .tab 4608 fun _ => 0, false⟩
  drive := blankVolume

/-- A value with a line end sets another variable at the next start. -/
theorem registry_outlives_forged :
    let es : List Event := [.set ⟨[65], [49, 10, 66, 61, 50]⟩, .save, .power]
    blankMachine.lives (.losing []) (.power :: es) (fun m' =>
      envGet (some [65]) m'.env = some [49] ∧ envGet (some [66]) m'.env = some [50]) := by
  intro es
  refine (registry_outlives (b := .losing []) (m := blankMachine) (by decide) (fun _ _ => rfl) (fun _ _ => rfl)
    formatted_blankDisk es).mono fun m' h => ?_
  rw [h, h]
  decide

end Lives

/-! ### Clean variables -/

/-- The variables, and those of the file, behind an event. -/
def Event.keep : Event → Vars × Vars → Vars × Vars
  | power, (_, saved) => (saved, saved)
  | set c, (l, saved) => (setVar c.key.text c.value.text l, saved)
  | restore, (_, saved) => (bootVars, saved)
  | save, (l, _) => (l, fitting 0 l)

/-- A variable that is set is clean. -/
def Event.Clean : Event → Prop
  | set c => c.Clean
  | _ => True

section Clean

variable {t : EnvTable} {l : Vars}

theorem prefix_fitting (pos : ℕ) (l : Vars) : fitting pos l <+: l := by
  induction l generalizing pos with
  | nil => exact List.prefix_refl _
  | cons e l ih =>
    unfold fitting
    split
    · exact List.cons_prefix_cons.2 ⟨rfl, ih _⟩
    · exact List.nil_prefix

/-- The variables of `env_init` always fit. -/
theorem Represents.boot_fitting (ht : Represents t l) (h : keys bootVars <+: keys l) :
    keys bootVars <+: keys (fitting 0 l) := by
  obtain ⟨rest, hrest⟩ := h
  rcases l with _ | ⟨⟨k₁, v₁⟩, _ | ⟨⟨k₂, v₂⟩, l⟩⟩
  · cases hrest
  · cases hrest
  · have hkeys : envKeyOsName = k₁ ∧ envKeyOsVersion = k₂ := by
      simpa [bootVars] using And.intro (List.cons.inj hrest).1 (List.cons.inj (List.cons.inj hrest).2).1
    obtain ⟨rfl, rfl⟩ := hkeys
    have h₁ := ht.value_le (envKeyOsName, v₁) (by simp)
    have h₂ := ht.value_le (envKeyOsVersion, v₂) (by simp)
    have hlen₁ : envKeyOsName.length = 7 := rfl
    have hlen₂ : envKeyOsVersion.length = 10 := rfl
    unfold fitting
    rw [length_entryLine, if_pos (by dsimp only at h₁ ⊢; omega)]
    unfold fitting
    rw [length_entryLine, if_pos (by dsimp only at h₁ h₂ ⊢; omega)]
    exact ⟨keys (fitting _ l), rfl⟩

theorem CleanVars.fitting (h : CleanVars l) (ht : Represents t l) : CleanVars (fitting 0 l) := by
  have hsub := (prefix_fitting 0 l).sublist
  exact ⟨h.nodup.sublist (hsub.map _), ht.boot_fitting h.boot, fun e he => h.clean e (hsub.subset he)⟩

/-- **Clean variables come back**: the text of a save assigns the variables that fit. -/
theorem CleanVars.reload (h : CleanVars l) (ht : Represents t l) :
    setVars (assignments 61 10 (render 61 10 (Env.fitting 0 l))) bootVars = Env.fitting 0 l := by
  have hfit := h.fitting ht
  have hpre := prefix_fitting 0 l
  have hfold := foldl_assign hfit.nodup hfit.boot
  rw [assignments_render hfit.clean (by decide), setVars_eq (fun e he => ?_) ?_, hfold]
  · rw [hfold]
    exact Nat.le_trans hpre.length_le ht.length_le
  · obtain ⟨h1, h2⟩ := ht.text_eq (hpre.subset he)
    exact ⟨h1, h2, ht.key_le e (hpre.subset he), ht.value_le e (hpre.subset he)⟩

/-- The two accounts of what happens agree: the file's text assigns what is saved. -/
structure Tracks (p : Vars × Option (List UInt8)) (q : Vars × Vars) : Prop where
  live : p.1 = q.1
  vars : ∃ t, Represents t q.1
  clean : CleanVars q.1
  saved : setVars (assignments 61 10 (p.2.getD [])) bootVars = q.2
  savedClean : CleanVars q.2

theorem tracks_boot : Tracks (bootVars, none) (bootVars, bootVars) :=
  ⟨rfl, ⟨_, represents_envInit zeroTable⟩, cleanVars_bootVars, rfl, cleanVars_bootVars⟩

theorem Tracks.next {p : Vars × Option (List UInt8)} {q : Vars × Vars} (h : Tracks p q) {e : Event} (he : e.Clean) :
    Tracks (e.next p) (e.keep q) := by
  obtain ⟨l, text⟩ := p
  obtain ⟨l', saved⟩ := q
  obtain rfl : l = l' := h.live
  obtain ⟨t, ht⟩ := h.vars
  cases e with
  | power =>
    have hload := (represents_envInit zeroTable).assignLines (text.getD [])
    rw [show setVars (assignments 61 10 (text.getD [])) bootVars = saved from h.saved] at hload
    exact ⟨h.saved, ⟨_, hload⟩, h.savedClean, h.saved, h.savedClean⟩
  | set c => exact ⟨rfl, ⟨_, ht.envSet c.key c.value⟩, h.clean.setVar he, h.saved, h.savedClean⟩
  | restore => exact ⟨rfl, ⟨_, represents_envInit zeroTable⟩, cleanVars_bootVars, h.saved, h.savedClean⟩
  | save => exact ⟨rfl, ⟨t, ht⟩, h.clean, h.clean.reload ht, h.clean.fitting ht⟩

theorem Tracks.run {es : List Event} (hes : ∀ e ∈ es, e.Clean) {p : Vars × Option (List UInt8)} {q : Vars × Vars}
    (h : Tracks p q) : Tracks (es.foldl (fun p e => e.next p) p) (es.foldl (fun q e => e.keep q) q) := by
  induction es generalizing p q with
  | nil => exact h
  | cons e es ih =>
    exact ih (fun e he => hes e (List.mem_cons_of_mem _ he)) (h.next (hes e List.mem_cons_self))

/-- **Clean variables outlive power cycles**: at a start the registry is the part of the variables of the last save,
in the order in which they were first set, that fits in the file. -/
theorem variables_outlive {b : Ata.Behaviour} {m : Machine} (hdelay : b.delay < Ata.pollTurns)
    (hrefuse : ∀ n a, b.refuse n a = false) (hlose : ∀ n a, b.lose n a = false) (hfmt : Formatted m.drive.disk)
    {es : List Event} (hes : ∀ e ∈ es, e.Clean) :
    m.lives b (.power :: es) (fun m' => ∀ key : CStr,
      envGet (some key) m'.env = (es.foldl (fun q e => e.keep q) (bootVars, bootVars)).1.lookup key.text) := by
  refine (registry_outlives hdelay hrefuse hlose hfmt es).mono fun m' h key => ?_
  rw [h key, (tracks_boot.run hes).live]

/-- A variable is set, saved and changed; then the power goes, and the change is lost. -/
theorem variables_outlive_unsaved :
    let es : List Event := [.set ⟨[65], [49]⟩, .save, .set ⟨[65], [50]⟩, .power]
    blankMachine.lives (.losing []) (.power :: es) (fun m' => envGet (some [65]) m'.env = some [49]) := by
  intro es
  have hclean : ∀ e ∈ es, e.Clean := by
    intro e he
    simp only [es, List.mem_cons, List.not_mem_nil, or_false] at he
    rcases he with rfl | rfl | rfl | rfl
    · exact ⟨by decide, by decide, by decide, by decide⟩
    · trivial
    · exact ⟨by decide, by decide, by decide, by decide⟩
    · trivial
  refine (variables_outlive (b := .losing []) (m := blankMachine) (by decide) (fun _ _ => rfl) (fun _ _ => rfl)
    formatted_blankDisk hclean).mono fun m' h => ?_
  rw [h]
  decide

end Clean

end AuraOS.Env
