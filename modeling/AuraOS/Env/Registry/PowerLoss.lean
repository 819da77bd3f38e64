import AuraOS.Env.Registry.Reboot

/-!
# The registry and power losses

The power may go at any access to a port, also in the middle of `env_save` or of a start.  A session is a start and
what is done with the registry behind it; `Losses` says how a drive may be left by sessions that are all stopped
somewhere.  A save sends the data sector before the directory entry, so behind the first of its sector writes the
file has the new bytes and the old length (`cutText`).  `registry_losses_iff` says exactly which registries the next
start may come up with, and `variables_losses_iff` what these are for clean variables: always those of one save.
-/

namespace AuraOS.Env

open AuraOS.Lib AuraOS.Kernel AuraOS.Env.Fat12 AuraOS.Adapters

/-! ### Sessions -/

/-- What is done with the registry while the machine is up. -/
inductive Action where
  | set (c : EnvCall)
  | restore
  | save

namespace Program

/-- Actions one after the other. -/
def actions : List Action → EnvTable → Statics → SectorProg (EnvTable × Statics)
  | [], t, s => pure (t, s)
  | .set c :: as, t, s => actions as (envSet (some c.key) (some c.value) t).2 s
  | .restore :: as, t, s => actions as (envInit t) s
  | .save :: as, t, s => do
    let r ← envSave t s
    actions as t r.2

/-- A start, and the actions behind it. -/
def session (as : List Action) (t : EnvTable) (s : Statics) : PortProg (EnvTable × Statics) := do
  let r ← startEnv t s
  (actions as r.1 r.2).translate atPorts

end Program

/-- The sessions may leave the drive `v` as `v'`: each is stopped at some access to a port, or behind the last one,
and the memory may hold anything at its start. -/
inductive Losses (b : Ata.Behaviour) : List (List Action) → Ata.Drive → Ata.Drive → Prop
  | nil (v : Ata.Drive) : Losses b [] v v
  | cons {as : List Action} {ss : List (List Action)} {v v₁ v₂ v' : Ata.Drive} {t : EnvTable} {s : Statics}
      {p : PortProg (EnvTable × Statics)} : PowersOn b v v₁ →
      Prog.Reaches (Ata.Drive.Step b) v₁ (Program.session as t s) v₂ p → Losses b ss v₂ v' →
      Losses b (as :: ss) v v'

/-! ### The file -/

section Files

variable {F : Type}

/-- The file when the power goes behind `k` sector writes of the actions.  A save is twenty of them, and `cut` says
what is left behind each. -/
def behind (cut : F → Vars → ℕ → F) : List Action → Vars → F → ℕ → F
  | [], _, f, _ => f
  | .set c :: as, l, f, k => behind cut as (setVar c.key.text c.value.text l) f k
  | .restore :: as, _, f, k => behind cut as bootVars f k
  | .save :: as, l, f, k =>
    if k < 20 then cut f (fitting 0 l) k else behind cut as l (cut f (fitting 0 l) 20) (k - 20)

/-- The sessions may leave the file `f` as `f'`; `start` says which variables a start comes up with. -/
inductive Outcomes (start : F → Vars) (cut : F → Vars → ℕ → F) : List (List Action) → F → F → Prop
  | nil (f : F) : Outcomes start cut [] f f
  | cons {as : List Action} {ss : List (List Action)} {f f' : F} (k : ℕ) :
      Outcomes start cut ss (behind cut as (start f) f k) f' → Outcomes start cut (as :: ss) f f'

end Files

/-- The variables behind a start that finds the text. -/
def startVars (text : Option (List UInt8)) : Vars := setVars (assignments 61 10 (text.getD [])) bootVars

/-- The text behind `k` sector writes of a save of the variables. -/
def cutSave (old : Option (List UInt8)) (l : Vars) (k : ℕ) : Option (List UInt8) := cutText old (render 61 10 l) k

/-! ### The actions on a device -/

section Actions

variable {t : EnvTable} {s : Statics} {d : Device Sector} {l : Vars} {text : Option (List UInt8)}

theorem within_actions (as : List Action) (t : EnvTable) (s : Statics) :
    Prog.Within InReach (fun _ => True) (Program.actions as t s) := by
  induction as generalizing t s with
  | nil => trivial
  | cons a as ih =>
    cases a with
    | set c => exact ih _ _
    | restore => exact ih _ _
    | save => exact Prog.within_bind ((within_fat12WriteFile _ _ _).mono fun r _ => ih t r.2)

/-- **The sector writes of actions**: wherever they end, the file is what `behind` says. -/
theorem Keeps.actions (h : Keeps d.cell text) (hm : s.sFatLoaded = true) (hs : Coherent (s.driver d))
    (ht : Represents t l) (as : List Action) : ∃ ws,
    ((Program.actions as t s).run Device.answer d).2.log = d.log ++ ws ∧
      ∀ k, Keeps (replay (ws.take k) d.cell) (behind cutSave as l text k) := by
  induction as generalizing t s d l text with
  | nil =>
    refine ⟨[], (List.append_nil _).symm, fun k => ?_⟩
    rw [List.take_nil]
    exact h
  | cons a as ih =>
    cases a with
    | set c => exact ih h hm hs (ht.envSet c.key c.value)
    | restore => exact ih h hm hs (represents_envInit t)
    | save =>
      obtain ⟨hm', hs', hsaved, ws, hlen, hlog, hcell, hkeeps⟩ := h.save (s := s.driver d) hm hs ht
      rw [← run_envSave] at hm' hs' hlog hcell hsaved
      obtain ⟨vs, hlog', hrest⟩ := ih hsaved hm' hs' ht
      refine ⟨ws ++ vs, ?_, fun k => ?_⟩
      · unfold Program.actions
        rw [Prog.run_bind]
        refine hlog'.trans ?_
        rw [← List.append_assoc]
        exact congrArg (· ++ vs) hlog
      · unfold behind
        by_cases hk : k < 20
        · rw [if_pos hk, List.take_append_of_le_length (by omega)]
          exact hkeeps k
        · rw [if_neg hk, List.take_append, List.take_of_length_le (by omega), replay_append, hlen]
          have hbehind := hrest (k - 20)
          rw [hcell] at hbehind
          exact hbehind

end Actions

/-! ### Sessions that are stopped -/

section Sessions

variable {b : Ata.Behaviour} {v v₁ v' : Ata.Drive} {t : EnvTable} {s : Statics} {text : Option (List UInt8)}
  {as : List Action}

/-- A program that writes no sector leaves the disk, wherever it is stopped. -/
theorem disk_of_reading (hdelay : b.delay < Ata.pollTurns) (hlose : ∀ n a, b.lose n a = false) {d : Device Sector}
    (hv : Behind b d v) {α : Type} {post : α → Prop} {p : SectorProg α} (hp : Prog.Within InReach post p)
    (hlog : (p.run Device.answer d).2.log = d.log) {p' : PortProg α}
    (h : Prog.Reaches (Ata.Drive.Step b) v (p.translate atPorts) v' p') : v'.disk = v.disk := by
  rw [← List.append_nil d.log] at hlog
  obtain ⟨k, -, hdisk⟩ := (stopped_atPorts hdelay hlose hv hp hlog v'.disk).1 ⟨v', p', h, rfl⟩
  rw [hdisk, List.take_nil, hv.disk]
  rfl

theorem log_envLoad (t : EnvTable) (s : Driver) : (envLoad t s).2.2.dev.log = s.dev.log := by
  obtain ⟨n, hd⟩ := fat12ReadFile_did (some aiosEnv) true 511 s
  have hlog : (fat12ReadFile (some aiosEnv) true 511 s).2.dev.log = s.dev.log :=
    hd.dev.log.trans (List.append_nil _)
  unfold envLoad
  rcases hread : fat12ReadFile (some aiosEnv) true 511 s with ⟨_ | _ | _, s'⟩
  all_goals
    rw [hread] at hlog
    exact hlog

/-- **A start that is stopped** leaves the disk. -/
theorem disk_of_start (hdelay : b.delay < Ata.pollTurns) (hrefuse : ∀ n a, b.refuse n a = false)
    (hlose : ∀ n a, b.lose n a = false) (hv : PowersOn b v v₁) {p : PortProg (EnvTable × Statics)}
    (h : Prog.Reaches (Ata.Drive.Step b) v₁ (Program.startEnv t s) v' p) : v'.disk = v.disk := by
  unfold Program.startEnv at h
  rcases Prog.Reaches.of_bind h with ⟨p₁, h⟩ | ⟨r, u, hexec, h⟩
  · exact (Ata.disk_of_reaches Ata.atMost_ataInit h).trans hv.disk
  obtain ⟨rfl, d, hbehind, hok, hcell⟩ := hexec.of_wp (hv.wp_ataInit hdelay hrefuse)
  rw [← hcell]
  -- the volume is mounted
  dsimp only at h
  obtain ⟨s₁, d₁, hrun, -, -, hcell₁, hlog⟩ := run_fat12Init hok s
  rcases Prog.Reaches.of_bind h with ⟨p₁, h⟩ | ⟨r, u₁, hexec, h⟩
  · rw [← hbehind.disk]
    refine disk_of_reading hdelay hlose hbehind within_fat12Init ?_ h
    rw [hrun]
    exact hlog
  obtain ⟨rfl, hv₁⟩ := hexec.of_wp (wp_atPorts hdelay hlose hbehind within_fat12Init)
  rw [hrun] at hv₁ h
  rw [← hcell₁, ← hv₁.disk]
  -- the file is read
  have hlog' : ((Program.envLoad (envInit t) s₁).run Device.answer d₁).2.log = d₁.log := by
    rw [run_envLoad]
    exact log_envLoad _ _
  dsimp only at h
  rcases Prog.Reaches.of_bind h with ⟨p₁, h⟩ | ⟨r, u₂, hexec, h⟩
  · exact disk_of_reading hdelay hlose hv₁ (within_envLoad _ _) hlog' h
  · cases h
    exact disk_of_reading hdelay hlose hv₁ (within_envLoad _ _) hlog' hexec.reaches

theorem behind_zero (as : List Action) (l : Vars) (text : Option (List UInt8)) : behind cutSave as l text 0 = text := by
  induction as generalizing l with
  | nil => rfl
  | cons a as ih =>
    cases a with
    | set c => exact ih _
    | restore => exact ih _
    | save => rfl

/-- **A session that is stopped** leaves the file as it is behind some number of sector writes. -/
theorem Keeps.session (hdelay : b.delay < Ata.pollTurns) (hrefuse : ∀ n a, b.refuse n a = false)
    (hlose : ∀ n a, b.lose n a = false) (h : Keeps v.disk text) (hv : PowersOn b v v₁)
    {p : PortProg (EnvTable × Statics)} (hreach : Prog.Reaches (Ata.Drive.Step b) v₁ (Program.session as t s) v' p) :
    ∃ k, Keeps v'.disk (behind cutSave as (startVars text) text k) := by
  rcases Prog.Reaches.of_bind hreach with ⟨p₁, hstart⟩ | ⟨r, u, hexec, hrest⟩
  · refine ⟨0, ?_⟩
    rw [behind_zero, disk_of_start hdelay hrefuse hlose hv hstart]
    exact h
  · obtain ⟨hvars, d, hbehind, hm, hs, hkeeps⟩ :=
      hexec.of_wp (h.start (l := []) hdelay hrefuse hlose hv t s)
    obtain ⟨ws, hlog, hall⟩ := hkeeps.actions hm hs hvars as
    obtain ⟨k, -, hdisk⟩ := (stopped_atPorts hdelay hlose hbehind (within_actions as _ _) hlog v'.disk).1
      ⟨v', p, hrest, rfl⟩
    rw [hdisk]
    exact ⟨k, hall k⟩

/-- It may be stopped behind each of them. -/
theorem Keeps.exists_session (hdelay : b.delay < Ata.pollTurns) (hrefuse : ∀ n a, b.refuse n a = false)
    (hlose : ∀ n a, b.lose n a = false) (h : Keeps v.disk text) (hv : PowersOn b v v₁) (t : EnvTable) (s : Statics)
    (as : List Action) (k : ℕ) : ∃ v' p, Prog.Reaches (Ata.Drive.Step b) v₁ (Program.session as t s) v' p ∧
      Keeps v'.disk (behind cutSave as (startVars text) text k) := by
  obtain ⟨r, u, hexec, hvars, d, hbehind, hm, hs, hkeeps⟩ :=
    (h.start (l := []) hdelay hrefuse hlose hv t s).exists_exec
  obtain ⟨ws, hlog, hall⟩ := hkeeps.actions hm hs hvars as
  obtain ⟨v', p, hreach, hdisk⟩ := (stopped_atPorts hdelay hlose hbehind (within_actions as _ _) hlog _).2
    ⟨min k ws.length, Nat.min_le_right _ _, rfl⟩
  refine ⟨v', p, hexec.reaches_bind hreach, ?_⟩
  have htake : ws.take (min k ws.length) = ws.take k := by
    rw [← List.take_take, List.take_length]
  rw [hdisk, htake]
  exact hall k

theorem exists_powersOn (b : Ata.Behaviour) (v : Ata.Drive) : ∃ v', PowersOn b v v' :=
  ⟨{ v with phase := .idle, wait := 0, lba1 := 0, lba2 := 0 }, ⟨rfl, Nat.zero_le _⟩, rfl, rfl, rfl, rfl⟩

variable {ss : List (List Action)} {text' : Option (List UInt8)}

theorem Keeps.losses (hdelay : b.delay < Ata.pollTurns) (hrefuse : ∀ n a, b.refuse n a = false)
    (hlose : ∀ n a, b.lose n a = false) (h : Keeps v.disk text) (hl : Losses b ss v v') :
    ∃ text', Outcomes startVars cutSave ss text text' ∧ Keeps v'.disk text' := by
  induction hl generalizing text with
  | nil v => exact ⟨text, .nil text, h⟩
  | cons hv hreach _ ih =>
    obtain ⟨k, hkeeps⟩ := h.session hdelay hrefuse hlose hv hreach
    obtain ⟨text', hout, hkeeps'⟩ := ih hkeeps
    exact ⟨text', .cons k hout, hkeeps'⟩

theorem Keeps.exists_losses (hdelay : b.delay < Ata.pollTurns) (hrefuse : ∀ n a, b.refuse n a = false)
    (hlose : ∀ n a, b.lose n a = false) (h : Keeps v.disk text) (ho : Outcomes startVars cutSave ss text text') :
    ∃ v', Losses b ss v v' ∧ Keeps v'.disk text' := by
  induction ho generalizing v with
  | nil text => exact ⟨v, .nil v, h⟩
  | @cons as ss text text' k _ ih =>
    obtain ⟨v₁, hv⟩ := exists_powersOn b v
    obtain ⟨v₂, p, hreach, hkeeps⟩ := h.exists_session hdelay hrefuse hlose hv zeroTable blankMachine.statics as k
    obtain ⟨v', hl, hkeeps'⟩ := ih hkeeps
    exact ⟨v', .cons hv hreach hl, hkeeps'⟩

/-- The registries that a start may come up with are those of the files that may be left. -/
theorem Keeps.starts_iff (hdelay : b.delay < Ata.pollTurns) (hrefuse : ∀ n a, b.refuse n a = false)
    (hlose : ∀ n a, b.lose n a = false) (h : Keeps v.disk text) (ss : List (List Action))
    (get : CStr → Option CStr) :
    (∃ v' v₁ t s r u, Losses b ss v v' ∧ PowersOn b v' v₁ ∧
        Prog.Exec (Ata.Drive.Step b) v₁ (Program.startEnv t s) r u ∧ ∀ key, envGet (some key) r.1 = get key) ↔
      ∃ text', Outcomes startVars cutSave ss text text' ∧
        ∀ key : CStr, (startVars text').lookup key.text = get key := by
  constructor
  · rintro ⟨v', v₁, t, s, r, u, hl, hv, hexec, hget⟩
    obtain ⟨text', hout, hkeeps'⟩ := h.losses hdelay hrefuse hlose hl
    have hup := hexec.of_wp (hkeeps'.start (l := []) hdelay hrefuse hlose hv t s)
    exact ⟨text', hout, fun key => (hup.vars.envGet_eq key).symm.trans (hget key)⟩
  · rintro ⟨text', hout, hget⟩
    obtain ⟨v', hl, hkeeps'⟩ := h.exists_losses hdelay hrefuse hlose hout
    obtain ⟨v₁, hv⟩ := exists_powersOn b v'
    obtain ⟨r, u, hexec, hup⟩ := (hkeeps'.start (l := []) hdelay hrefuse hlose hv zeroTable
      blankMachine.statics).exists_exec
    exact ⟨v', v₁, _, _, r, u, hl, hv, hexec, fun key => (hup.vars.envGet_eq key).trans (hget key)⟩

/-- **The registry behind power losses**: on a drive that follows the protocol, and refuses and loses no sector, with
a volume that has a place for the file, the registries that a start may come up with behind sessions that were all
stopped at some access to a port are exactly those of the files that the sector writes of the saves may leave. -/
theorem registry_losses_iff (hdelay : b.delay < Ata.pollTurns) (hrefuse : ∀ n a, b.refuse n a = false)
    (hlose : ∀ n a, b.lose n a = false) {i cl : ℕ}
    (hplace : target v.disk (diskFat v.disk) (nameToFat83 aiosEnv) = some (i, cl)) (hcl : DataCluster cl)
    (ss : List (List Action)) (get : CStr → Option CStr) :
    (∃ v' v₁ t s r u, Losses b ss v v' ∧ PowersOn b v' v₁ ∧
        Prog.Exec (Ata.Drive.Step b) v₁ (Program.startEnv t s) r u ∧ ∀ key, envGet (some key) r.1 = get key) ↔
      ∃ text, Outcomes startVars cutSave ss (fileBytes v.disk (nameToFat83 aiosEnv) 511) text ∧
        ∀ key : CStr, (startVars text).lookup key.text = get key := by
  have hkeeps : Keeps v.disk (fileBytes v.disk (nameToFat83 aiosEnv) 511) := ⟨rfl, i, cl, hplace, hcl⟩
  exact hkeeps.starts_iff hdelay hrefuse hlose ss get

/-- A variable is saved as `12`; then it is set to `3456`, and the power goes behind the first sector write of the
save.  The next start finds `345`. -/
theorem registry_losses_iff_torn :
    let ss : List (List Action) := [[.set ⟨[65], [49, 50]⟩, .save], [.set ⟨[65], [51, 52, 53, 54]⟩, .save]]
    ∃ v' v₁ t s r u, Losses (.losing []) ss blankVolume v' ∧ PowersOn (.losing []) v' v₁ ∧
      Prog.Exec (Ata.Drive.Step (.losing [])) v₁ (Program.startEnv t s) r u ∧
        envGet (some [65]) r.1 = some [51, 52, 53] := by
  intro ss
  have hfile : fileBytes blankVolume.disk (nameToFat83 aiosEnv) 511 = none :=
    (Keeps.of_formatted formatted_blankDisk).bytes
  obtain ⟨v', v₁, t, s, r, u, hl, hv, hexec, hget⟩ := (registry_losses_iff (b := .losing []) (v := blankVolume)
    (by decide) (fun _ _ => rfl) (fun _ _ => rfl) (formatted_blankDisk.target _) (by decide) ss _).2
    ⟨_, .cons 20 (.cons 1 (.nil _)), fun key => rfl⟩
  refine ⟨v', v₁, t, s, r, u, hl, hv, hexec, ?_⟩
  rw [hget, hfile]
  decide

end Sessions

/-! ### Clean variables -/

/-- The text of a file that is given by its length and the variables of the save that wrote its bytes. -/
def savedText (f : Option (ℕ × Vars)) : Option (List UInt8) := f.map fun p => (render 61 10 p.2).takeD p.1 0

/-- The variables behind a start: those in the first part of the save, on top of the defaults. -/
def savedVars : Option (ℕ × Vars) → Vars
  | none => bootVars
  | some (n, l) => setVars (cutEntries n l) bootVars

/-- The file behind `k` sector writes of a save: first the old length with the new variables, then the new length. -/
def cutSaved : Option (ℕ × Vars) → Vars → ℕ → Option (ℕ × Vars)
  | old, _, 0 => old
  | old, new, 1 => old.map fun p => (p.1, new)
  | _, new, _ + 2 => some ((render 61 10 new).length, new)

/-- A variable that is set is clean. -/
def Action.Clean : Action → Prop
  | set c => c.Clean
  | _ => True

/-- The entries are clean, and their keys fit. -/
def CleanEntries (as : Vars) : Prop := ∀ e ∈ as, CleanEntry 61 10 e ∧ e.1.length ≤ 15

/-- The registry holds clean variables. -/
structure CleanRegistry (l : Vars) : Prop where
  table : ∃ t, Represents t l
  clean : CleanVars l

section Clean

variable {l as : Vars} {f f' : Option (ℕ × Vars)} {k : ℕ}

theorem cleanRegistry_boot : CleanRegistry bootVars := ⟨⟨_, represents_envInit zeroTable⟩, cleanVars_bootVars⟩

theorem CleanRegistry.set (h : CleanRegistry l) {c : EnvCall} (hc : c.Clean) :
    CleanRegistry (setVar c.key.text c.value.text l) := by
  obtain ⟨t, ht⟩ := h.table
  exact ⟨⟨_, ht.envSet c.key c.value⟩, h.clean.setVar hc⟩

/-- What a save writes. -/
theorem CleanRegistry.fitting (h : CleanRegistry l) : CleanEntries (fitting 0 l) := by
  obtain ⟨t, ht⟩ := h.table
  intro e he
  have hmem := (prefix_fitting 0 l).subset he
  exact ⟨h.clean.clean e hmem, ht.key_le e hmem⟩

theorem CleanEntries.call (h : CleanEntries as) {e : List UInt8 × List UInt8} (he : e ∈ as) :
    (⟨e.1, e.2⟩ : EnvCall).Clean := by
  obtain ⟨⟨hkey, hnl, hvalue⟩, hlen⟩ := h e he
  have hsub : ∀ s : CStr, s.text <+: s := fun s => List.takeWhile_prefix _
  refine ⟨Nat.le_trans (hsub e.1).length_le hlen, ?_, ?_, ?_⟩
  · exact fun hmem => hkey ((hsub e.1).subset hmem)
  · exact fun hmem => hnl ((hsub e.1).subset hmem)
  · exact fun hmem => hvalue ((hsub e.2).subset hmem)

theorem CleanRegistry.setVars (h : CleanRegistry l) (has : CleanEntries as) : CleanRegistry (setVars as l) := by
  induction as generalizing l with
  | nil => exact h
  | cons e as ih =>
    exact ih (h.set (has.call List.mem_cons_self)) fun e' he => has e' (List.mem_cons_of_mem e he)

theorem CleanEntries.cut (h : CleanEntries as) (n : ℕ) : CleanEntries (cutEntries n as) := by
  intro e he
  obtain ⟨e', hmem, hkey, hvalue⟩ := mem_cutEntries he
  obtain ⟨⟨h1, h2, h3⟩, hlen⟩ := h e' hmem
  rw [← hkey] at h1 h2 hlen
  exact ⟨⟨h1, h2, fun hnl => h3 (hvalue.subset hnl)⟩, hlen⟩

/-- A save was of clean variables. -/
def CleanFile (f : Option (ℕ × Vars)) : Prop := ∀ p, f = some p → CleanEntries p.2

theorem CleanFile.vars (h : CleanFile f) : CleanRegistry (savedVars f) := by
  cases f with
  | none => exact cleanRegistry_boot
  | some p => exact cleanRegistry_boot.setVars ((h p rfl).cut p.1)

/-- **A start** reads the variables of the first part. -/
theorem CleanFile.start (h : CleanFile f) : startVars (savedText f) = savedVars f := by
  cases f with
  | none => rfl
  | some p =>
    have hread := assignments_takeD_render (fun e he => (h p rfl e he).1) (by decide) (by decide : (61 : UInt8) ≠ 0)
      (by decide) p.1
    exact congrArg (fun as => Env.setVars as bootVars) hread

/-- **A save that is cut off** writes the text of the file that `cutSaved` says. -/
theorem savedText_cut (f : Option (ℕ × Vars)) (l : Vars) (k : ℕ) :
    savedText (cutSaved f l k) = cutSave (savedText f) l k := by
  rcases k with _ | _ | k
  · rfl
  · cases f with
    | none => rfl
    | some p =>
      unfold savedText cutSaved cutSave cutText
      dsimp only [Option.map_some]
      rw [List.takeD_length]
  · change some ((render 61 10 l).takeD (render 61 10 l).length 0) = some (render 61 10 l)
    rw [List.takeD_eq_take _ (Nat.le_refl _), List.take_length]

theorem CleanFile.cut (h : CleanFile f) (hl : CleanEntries l) (k : ℕ) : CleanFile (cutSaved f l k) := by
  intro p hp
  rcases k with _ | _ | k
  · exact h p hp
  · cases f with
    | none => cases hp
    | some q =>
      obtain rfl := Option.some.inj hp
      exact hl
  · obtain rfl := Option.some.inj hp
    exact hl

theorem savedText_behind (as : List Action) (l : Vars) (f : Option (ℕ × Vars)) (k : ℕ) :
    savedText (behind cutSaved as l f k) = behind cutSave as l (savedText f) k := by
  induction as generalizing l f k with
  | nil => rfl
  | cons a as ih =>
    cases a with
    | set c => exact ih _ _ _
    | restore => exact ih _ _ _
    | save =>
      unfold behind
      by_cases hk : k < 20
      · rw [if_pos hk, if_pos hk, savedText_cut]
      · rw [if_neg hk, if_neg hk, ih, savedText_cut]

theorem CleanFile.behind {as : List Action} (has : ∀ a ∈ as, a.Clean) (h : CleanFile f) (hl : CleanRegistry l)
    (k : ℕ) : CleanFile (behind cutSaved as l f k) := by
  induction as generalizing l f k with
  | nil => exact h
  | cons a as ih =>
    have hrest : ∀ a ∈ as, a.Clean := fun a ha => has a (List.mem_cons_of_mem _ ha)
    cases a with
    | set c => exact ih hrest h (hl.set (has _ List.mem_cons_self)) k
    | restore => exact ih hrest h cleanRegistry_boot k
    | save =>
      unfold Env.behind
      split
      · exact h.cut hl.fitting k
      · exact ih hrest (h.cut hl.fitting 20) hl _

theorem CleanFile.outcomes {ss : List (List Action)} (hss : ∀ as ∈ ss, ∀ a ∈ as, a.Clean) (h : CleanFile f)
    (ho : Outcomes savedVars cutSaved ss f f') : CleanFile f' := by
  induction ho with
  | nil f => exact h
  | cons k _ ih =>
    exact ih (fun as has => hss as (List.mem_cons_of_mem _ has))
      (h.behind (hss _ List.mem_cons_self) h.vars k)

/-- **The two accounts** of what may be left agree. -/
theorem CleanFile.outcomes_iff {ss : List (List Action)} (hss : ∀ as ∈ ss, ∀ a ∈ as, a.Clean) (h : CleanFile f)
    (text : Option (List UInt8)) : Outcomes startVars cutSave ss (savedText f) text ↔
      ∃ f', Outcomes savedVars cutSaved ss f f' ∧ savedText f' = text := by
  induction ss generalizing f with
  | nil =>
    constructor
    · rintro ⟨⟩
      exact ⟨f, .nil f, rfl⟩
    · rintro ⟨f', hout, rfl⟩
      cases hout
      exact .nil _
  | cons as ss ih =>
    have hrest : ∀ as ∈ ss, ∀ a ∈ as, a.Clean := fun as has => hss as (List.mem_cons_of_mem _ has)
    have hbehind := h.behind (hss as List.mem_cons_self) h.vars
    constructor
    · rintro (_ | ⟨k, hout⟩)
      rw [h.start, ← savedText_behind] at hout
      obtain ⟨f', hout', htext⟩ := (ih hrest (hbehind k)).1 hout
      exact ⟨f', .cons k hout', htext⟩
    · rintro ⟨f', _ | ⟨k, hout⟩, htext⟩
      refine .cons k ?_
      rw [h.start, ← savedText_behind]
      exact (ih hrest (hbehind k)).2 ⟨f', hout, htext⟩

/-- **Clean variables behind power losses**: on a formatted volume, a start comes up with the variables of a single
save on top of the defaults: with those in the first part of its text that has the length of the file, of which the
last one may be cut short. -/
theorem variables_losses_iff {b : Ata.Behaviour} {v : Ata.Drive} (hdelay : b.delay < Ata.pollTurns)
    (hrefuse : ∀ n a, b.refuse n a = false) (hlose : ∀ n a, b.lose n a = false) (hfmt : Formatted v.disk)
    {ss : List (List Action)} (hss : ∀ as ∈ ss, ∀ a ∈ as, a.Clean) (get : CStr → Option CStr) :
    (∃ v' v₁ t s r u, Losses b ss v v' ∧ PowersOn b v' v₁ ∧
        Prog.Exec (Ata.Drive.Step b) v₁ (Program.startEnv t s) r u ∧ ∀ key, envGet (some key) r.1 = get key) ↔
      ∃ f, Outcomes savedVars cutSaved ss none f ∧ ∀ key : CStr, (savedVars f).lookup key.text = get key := by
  have hnone : CleanFile none := nofun
  rw [(Keeps.of_formatted hfmt).starts_iff hdelay hrefuse hlose]
  constructor
  · rintro ⟨text, hout, hget⟩
    obtain ⟨f, hout', rfl⟩ := (hnone.outcomes_iff hss text).1 hout
    rw [(hnone.outcomes hss hout').start] at hget
    exact ⟨f, hout', hget⟩
  · rintro ⟨f, hout, hget⟩
    rw [← (hnone.outcomes hss hout).start] at hget
    exact ⟨savedText f, (hnone.outcomes_iff hss _).2 ⟨f, hout, rfl⟩, hget⟩

/-- The defaults are saved; then a variable is set, and the power goes behind the first sector write of the save.  The
next start finds the defaults only: the file is too short for the variable. -/
theorem variables_losses_iff_lost :
    let ss : List (List Action) := [[.save], [.set ⟨[65], [49]⟩, .save]]
    ∃ v' v₁ t s r u, Losses (.losing []) ss blankVolume v' ∧ PowersOn (.losing []) v' v₁ ∧
      Prog.Exec (Ata.Drive.Step (.losing [])) v₁ (Program.startEnv t s) r u ∧
        envGet (some [65]) r.1 = none ∧ envGet (some envKeyOsName) r.1 = some osName := by
  intro ss
  have hss : ∀ as ∈ ss, ∀ a ∈ as, a.Clean := by
    intro as has a ha
    simp only [ss, List.mem_cons, List.not_mem_nil, or_false] at has
    rcases has with rfl | rfl
    · rw [List.mem_singleton.1 ha]
      trivial
    · simp only [List.mem_cons, List.not_mem_nil, or_false] at ha
      rcases ha with rfl | rfl
      · exact ⟨by decide, by decide, by decide, by decide⟩
      · trivial
  obtain ⟨v', v₁, t, s, r, u, hl, hv, hexec, hget⟩ := (variables_losses_iff (b := .losing []) (v := blankVolume)
    (by decide) (fun _ _ => rfl) (fun _ _ => rfl) formatted_blankDisk hss _).2
    ⟨_, .cons 20 (.cons 1 (.nil _)), fun key => rfl⟩
  refine ⟨v', v₁, t, s, r, u, hl, hv, hexec, ?_⟩
  rw [hget, hget]
  decide

end Clean

end AuraOS.Env
