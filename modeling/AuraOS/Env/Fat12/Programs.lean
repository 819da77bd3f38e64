import AuraOS.Env.Fat12.Layout

/-!
# The FAT12 driver as a program

The functions of `env/fat12.c` that use the disk, as programs which ask for sectors: what they do next depends on
the replies only.  On a device they are the functions of the model (`onDevice_fat12WriteFile` and its like), and
whatever the replies are, they ask for sectors of a small range only (`within_fat12WriteFile`).
-/

namespace AuraOS.Env.Fat12

open AuraOS.Lib AuraOS.Kernel

/-- The static variables of `fat12.c`. -/
structure Statics where
  sSectorBuf : Sector
  sFatBuf : FatBuf
  sFatLoaded : Bool

/-- A program that asks for sectors. -/
abbrev SectorProg (α : Type) : Type := Prog (@CellReply Sector) α

namespace Program

/-! ### The functions -/

/-- `ata_read_sectors(lba, 1, s_sector_buf)`. -/
def readSector (lba : ℕ) (s : Statics) : SectorProg (Bool × Statics) := do
  match ← Prog.query (CellQuery.read lba) with
  | some v => pure (true, { s with sSectorBuf := v })
  | none => pure (false, s)

/-- `ata_write_sectors(lba, 1, data)`. -/
def writeSector (lba : ℕ) (data : Sector) (s : Statics) : SectorProg (Bool × Statics) := do
  let b ← Prog.query (CellQuery.write lba data)
  pure (b, s)

/-- The inner loop of `fat12FlushFat`. -/
def flushLoop (baseLba : ℕ) : ℕ → ℕ → Statics → SectorProg (Bool × Statics)
  | 0, _, s => pure (true, s)
  | n + 1, i, s => do
    match ← writeSector (baseLba + i) (fatSector s.sFatBuf i) s with
    | (true, s) => flushLoop baseLba n (i + 1) s
    | (false, s) => pure (false, s)

/-- `fat12_flush_fat`. -/
def fat12FlushFat (s : Statics) : SectorProg (Bool × Statics) := do
  match ← flushLoop fat1Lba fatSizeSectors 0 s with
  | (true, s) => flushLoop fat2Lba fatSizeSectors 0 s
  | (false, s) => pure (false, s)

/-- The loop of `fat12Init`. -/
def initLoop : ℕ → ℕ → Statics → SectorProg (Bool × Statics)
  | 0, _, s => pure (true, s)
  | n + 1, i, s => do
    match ← Prog.query (CellQuery.read (fat1Lba + i)) with
    | some v => initLoop n (i + 1) { s with sFatBuf := s.sFatBuf.blit (i * bytesPerSector) 512 v.rd }
    | none => pure (false, s)

/-- `fat12_init`. -/
def fat12Init (s : Statics) : SectorProg (AuraStatus × Statics) := do
  match ← initLoop fatSizeSectors 0 s with
  | (true, s) => pure (.ok, { s with sFatLoaded := true })
  | (false, s) => pure (.err, s)

/-- The directory walk of `fat12ReadFile`. -/
def readLoop (fat83 : Name83) (len : ℕ) : ℕ → ℕ → Statics → SectorProg (Option (List UInt8) × Statics)
  | 0, _, s => pure (none, s)
  | n + 1, entry, s => do
    match ← readSector (entrySector entry) s with
    | (false, s) => pure (none, s)
    | (true, s) =>
      let de := direntAt s.sSectorBuf (entryOff entry)
      if de.name.rd 0 = 0x00 then pure (none, s)
      else if de.name.rd 0 = 0xE5 then readLoop fat83 len n (entry + 1) s
      else if skipAttr de.attr then readLoop fat83 len n (entry + 1) s
      else if de.name ≠ fat83 then readLoop fat83 len n (entry + 1) s
      else
        let toRead := if de.size.toNat < len then de.size.toNat else len
        match ← readSector (clusterToLba de.cluster.toNat) s with
        | (false, s) => pure (none, s)
        | (true, s) =>
          let copy := if toRead < bytesPerSector then toRead else bytesPerSector
          pure (some ((List.range copy).map s.sSectorBuf.rd), s)

/-- `fat12_read_file`. -/
def fat12ReadFile (name : Option CStr) (buf : Bool) (len : ℕ) (s : Statics) :
    SectorProg (Option (List UInt8) × Statics) :=
  match name with
  | none => pure (none, s)
  | some name =>
    if !s.sFatLoaded || !buf || len = 0 then pure (none, s)
    else readLoop (nameToFat83 name) len rootEntryCount 0 s

/-- Phase 1 of `fat12WriteFile`. -/
def scanLoop (fat83 : Name83) : ℕ → ℕ → Scan → Statics → SectorProg (Option Scan × Statics)
  | 0, _, r, s => pure (some r, s)
  | n + 1, entry, r, s => do
    match ← readSector (entrySector entry) s with
    | (false, s) => pure (none, s)
    | (true, s) =>
      let de := direntAt s.sSectorBuf (entryOff entry)
      if de.name.rd 0 = 0x00 then pure (some (r.free entry), s)
      else if de.name.rd 0 = 0xE5 then scanLoop fat83 n (entry + 1) (r.free entry) s
      else if skipAttr de.attr then scanLoop fat83 n (entry + 1) r s
      else if de.name ≠ fat83 then scanLoop fat83 n (entry + 1) r s
      else
        pure (some { r with foundEntrySector := entrySector entry, foundEntryOff := entryOff entry,
                            foundCluster := de.cluster.toNat, found := true }, s)

/-- Phases 3 to 5 of `fat12WriteFile`. -/
def commit (fat83 : Name83) (buf : ℕ → UInt8) (len cluster targetSector targetOff : ℕ) (s : Statics) :
    SectorProg (Option ℕ × Statics) := do
  let s := { s with sSectorBuf := dataSector buf len }
  match ← writeSector (clusterToLba cluster) s.sSectorBuf s with
  | (false, s) => pure (none, s)
  | (true, s) =>
    match ← readSector targetSector s with
    | (false, s) => pure (none, s)
    | (true, s) =>
      let s := { s with sSectorBuf := putDirent s.sSectorBuf targetOff (newDirent fat83 cluster len) }
      match ← writeSector targetSector s.sSectorBuf s with
      | (false, s) => pure (none, s)
      | (true, s) =>
        match ← fat12FlushFat s with
        | (false, s) => pure (none, s)
        | (true, s) => pure (some len, s)

/-- `fat12_write_file`. -/
def fat12WriteFile (name : Option CStr) (buf : Option (ℕ → UInt8)) (len : ℕ) (s : Statics) :
    SectorProg (Option ℕ × Statics) :=
  match name, buf with
  | some name, some buf =>
    if !s.sFatLoaded then pure (none, s)
    else do
      let len := if len > bytesPerSector then bytesPerSector else len
      let fat83 := nameToFat83 name
      match ← scanLoop fat83 rootEntryCount 0 {} s with
      | (none, s) => pure (none, s)
      | (some r, s) =>
        match chooseCluster r s.sFatBuf with
        | none => pure (none, s)
        | some cluster =>
          let s := { s with sFatBuf := fat12SetCluster s.sFatBuf cluster 0xFFF }
          let targetSector := if r.found then r.foundEntrySector else r.freeEntrySector
          let targetOff := if r.found then r.foundEntryOff else r.freeEntryOff
          commit fat83 buf len cluster targetSector targetOff s
  | _, _ => pure (none, s)

end Program

/-! ### On a device -/

/-- The static variables of a driver. -/
def Driver.statics (s : Driver) : Statics := ⟨s.sSectorBuf, s.sFatBuf, s.sFatLoaded⟩

/-- A driver with the given device. -/
def Statics.driver (s : Statics) (d : Device Sector) : Driver := ⟨d, s.sSectorBuf, s.sFatBuf, s.sFatLoaded⟩

@[simp] theorem Statics.driver_sFatLoaded (s : Statics) (d : Device Sector) :
    (s.driver d).sFatLoaded = s.sFatLoaded := rfl

/-- The run of a program on a device. -/
def onDevice {α : Type} (p : SectorProg (α × Statics)) (d : Device Sector) : α × Driver :=
  ((p.run Device.answer d).1.1, (p.run Device.answer d).1.2.driver (p.run Device.answer d).2)

section OnDevice

variable {α β : Type} (d : Device Sector) (s : Statics)

theorem onDevice_bind (p : SectorProg (α × Statics)) (f : α × Statics → SectorProg (β × Statics)) :
    onDevice (p >>= f) d =
      onDevice (f ((onDevice p d).1, (onDevice p d).2.statics)) (onDevice p d).2.dev := by
  unfold onDevice
  rw [Prog.run_bind]
  rfl

theorem onDevice_readSector (lba : ℕ) : onDevice (Program.readSector lba s) d = readSector lba (s.driver d) := by
  unfold onDevice Program.readSector readSector
  rw [Prog.run_bind, Prog.run_query]
  dsimp only [Device.answer, Statics.driver]
  rcases d.read lba with ⟨_ | v, d'⟩
  · rfl
  · rfl

theorem onDevice_writeSector (lba : ℕ) (data : Sector) :
    onDevice (Program.writeSector lba data s) d = writeSector lba data (s.driver d) := rfl

theorem onDevice_flushLoop (baseLba n i : ℕ) :
    onDevice (Program.flushLoop baseLba n i s) d = flushLoop baseLba n i (s.driver d) := by
  induction n generalizing i s d with
  | zero => rfl
  | succ n ih =>
    unfold Program.flushLoop flushLoop
    have hfat : (s.driver d).sFatBuf = s.sFatBuf := rfl
    rw [onDevice_bind, onDevice_writeSector, hfat]
    rcases writeSector (baseLba + i) (fatSector s.sFatBuf i) (s.driver d) with ⟨_ | _, s'⟩
    · rfl
    · exact ih s'.dev s'.statics (i + 1)

theorem onDevice_fat12FlushFat : onDevice (Program.fat12FlushFat s) d = fat12FlushFat (s.driver d) := by
  unfold Program.fat12FlushFat fat12FlushFat
  rw [onDevice_bind, onDevice_flushLoop]
  rcases flushLoop fat1Lba fatSizeSectors 0 (s.driver d) with ⟨_ | _, s'⟩
  · rfl
  · exact onDevice_flushLoop s'.dev s'.statics _ _ _

theorem onDevice_initLoop (n i : ℕ) : onDevice (Program.initLoop n i s) d = initLoop n i (s.driver d) := by
  induction n generalizing i s d with
  | zero => rfl
  | succ n ih =>
    have hdev : (s.driver d).dev = d := rfl
    unfold Program.initLoop initLoop onDevice
    rw [Prog.run_bind, Prog.run_query, hdev]
    dsimp only [Device.answer]
    rcases d.read (fat1Lba + i) with ⟨_ | v, d'⟩
    · rfl
    · exact ih d' _ (i + 1)

theorem onDevice_fat12Init : onDevice (Program.fat12Init s) d = fat12Init (s.driver d) := by
  unfold Program.fat12Init fat12Init
  rw [onDevice_bind, onDevice_initLoop]
  rcases initLoop fatSizeSectors 0 (s.driver d) with ⟨_ | _, s'⟩
  · rfl
  · rfl

theorem onDevice_readLoop (fat83 : Name83) (len n entry : ℕ) :
    onDevice (Program.readLoop fat83 len n entry s) d = readLoop fat83 len n entry (s.driver d) := by
  induction n generalizing entry s d with
  | zero => rfl
  | succ n ih =>
    unfold Program.readLoop readLoop
    rw [onDevice_bind, onDevice_readSector]
    rcases readSector (entrySector entry) (s.driver d) with ⟨_ | _, s'⟩
    · rfl
    · dsimp only [Driver.statics]
      by_cases h1 : (direntAt s'.sSectorBuf (entryOff entry)).name.rd 0 = 0x00
      · rw [if_pos h1, if_pos h1]
        rfl
      rw [if_neg h1, if_neg h1]
      by_cases h2 : (direntAt s'.sSectorBuf (entryOff entry)).name.rd 0 = 0xE5
      · rw [if_pos h2, if_pos h2]
        exact ih s'.dev s'.statics (entry + 1)
      rw [if_neg h2, if_neg h2]
      by_cases h3 : skipAttr (direntAt s'.sSectorBuf (entryOff entry)).attr = true
      · rw [if_pos h3, if_pos h3]
        exact ih s'.dev s'.statics (entry + 1)
      rw [if_neg h3, if_neg h3]
      by_cases h4 : (direntAt s'.sSectorBuf (entryOff entry)).name ≠ fat83
      · rw [if_pos h4, if_pos h4]
        exact ih s'.dev s'.statics (entry + 1)
      rw [if_neg h4, if_neg h4, onDevice_bind, onDevice_readSector]
      rw [show (⟨s'.sSectorBuf, s'.sFatBuf, s'.sFatLoaded⟩ : Statics).driver s'.dev = s' from rfl]
      rcases readSector _ s' with ⟨_ | _, s''⟩
      · rfl
      · rfl

theorem onDevice_fat12ReadFile (name : Option CStr) (buf : Bool) (len : ℕ) :
    onDevice (Program.fat12ReadFile name buf len s) d = fat12ReadFile name buf len (s.driver d) := by
  cases name with
  | none => rfl
  | some name =>
    unfold Program.fat12ReadFile fat12ReadFile
    rw [Statics.driver_sFatLoaded]
    dsimp only
    by_cases h : (!s.sFatLoaded || !buf || decide (len = 0)) = true
    · rw [if_pos h, if_pos h]
      rfl
    · rw [if_neg h, if_neg h]
      exact onDevice_readLoop d s _ _ _ _

theorem onDevice_scanLoop (fat83 : Name83) (n entry : ℕ) (r : Scan) :
    onDevice (Program.scanLoop fat83 n entry r s) d = scanLoop fat83 n entry r (s.driver d) := by
  induction n generalizing entry r s d with
  | zero => rfl
  | succ n ih =>
    unfold Program.scanLoop scanLoop
    rw [onDevice_bind, onDevice_readSector]
    rcases readSector (entrySector entry) (s.driver d) with ⟨_ | _, s'⟩
    · rfl
    · dsimp only [Driver.statics]
      by_cases h1 : (direntAt s'.sSectorBuf (entryOff entry)).name.rd 0 = 0x00
      · rw [if_pos h1, if_pos h1]
        rfl
      rw [if_neg h1, if_neg h1]
      by_cases h2 : (direntAt s'.sSectorBuf (entryOff entry)).name.rd 0 = 0xE5
      · rw [if_pos h2, if_pos h2]
        exact ih s'.dev s'.statics (entry + 1) _
      rw [if_neg h2, if_neg h2]
      by_cases h3 : skipAttr (direntAt s'.sSectorBuf (entryOff entry)).attr = true
      · rw [if_pos h3, if_pos h3]
        exact ih s'.dev s'.statics (entry + 1) _
      rw [if_neg h3, if_neg h3]
      by_cases h4 : (direntAt s'.sSectorBuf (entryOff entry)).name ≠ fat83
      · rw [if_pos h4, if_pos h4]
        exact ih s'.dev s'.statics (entry + 1) _
      rw [if_neg h4, if_neg h4]
      rfl

theorem onDevice_commit (fat83 : Name83) (buf : ℕ → UInt8) (len cluster targetSector targetOff : ℕ) :
    onDevice (Program.commit fat83 buf len cluster targetSector targetOff s) d =
      commit fat83 buf len cluster targetSector targetOff (s.driver d) := by
  unfold Program.commit commit
  rw [onDevice_bind, onDevice_writeSector]
  dsimp only [Statics.driver]
  rcases writeSector (clusterToLba cluster) (dataSector buf len)
    ⟨d, dataSector buf len, s.sFatBuf, s.sFatLoaded⟩ with ⟨_ | _, s₁⟩
  · rfl
  dsimp only
  rw [onDevice_bind, onDevice_readSector]
  rw [show s₁.statics.driver s₁.dev = s₁ from rfl]
  rcases readSector targetSector s₁ with ⟨_ | _, s₂⟩
  · rfl
  dsimp only [Driver.statics]
  rw [onDevice_bind, onDevice_writeSector]
  dsimp only [Statics.driver]
  rcases writeSector targetSector (putDirent s₂.sSectorBuf targetOff (newDirent fat83 cluster len))
    ⟨s₂.dev, putDirent s₂.sSectorBuf targetOff (newDirent fat83 cluster len), s₂.sFatBuf, s₂.sFatLoaded⟩
    with ⟨_ | _, s₃⟩
  · rfl
  dsimp only
  rw [onDevice_bind, onDevice_fat12FlushFat]
  rw [show s₃.statics.driver s₃.dev = s₃ from rfl]
  rcases fat12FlushFat s₃ with ⟨_ | _, s₄⟩
  · rfl
  · rfl

theorem onDevice_fat12WriteFile (name : Option CStr) (buf : Option (ℕ → UInt8)) (len : ℕ) :
    onDevice (Program.fat12WriteFile name buf len s) d = fat12WriteFile name buf len (s.driver d) := by
  cases name with
  | none => rfl
  | some name =>
    cases buf with
    | none => rfl
    | some buf =>
      unfold Program.fat12WriteFile fat12WriteFile
      rw [Statics.driver_sFatLoaded]
      dsimp only
      by_cases h : (!s.sFatLoaded) = true
      · rw [if_pos h, if_pos h]
        rfl
      rw [if_neg h, if_neg h, onDevice_bind, onDevice_scanLoop]
      rcases scanLoop (nameToFat83 name) rootEntryCount 0 {} (s.driver d) with ⟨_ | r, s'⟩
      · rfl
      dsimp only [Driver.statics]
      cases chooseCluster r s'.sFatBuf with
      | none => rfl
      | some cluster => exact onDevice_commit _ _ _ _ _ _ _ _

end OnDevice

/-! ### The sectors they ask for -/

/-- The query is for a sector that 28 bits address. -/
abbrev InReach (q : CellQuery Sector) : Prop := q.addr < 2 ^ 28

/-- The entries that a scan has found are in the root directory, and the cluster is one of 16 bits. -/
structure Scan.InRange (r : Scan) : Prop where
  foundEntry : r.foundEntrySector < 33
  freeEntry : r.freeEntrySector < 33
  cluster : r.foundCluster < 65536

section Within

variable {s : Statics}

theorem within_readSector {lba : ℕ} (h : lba < 2 ^ 28) :
    Prog.Within InReach (fun _ => True) (Program.readSector lba s) := by
  unfold Program.readSector
  refine Prog.within_bind (Prog.within_query.2 ⟨h, fun r => ?_⟩)
  cases r with
  | none => trivial
  | some v => trivial

theorem within_writeSector {lba : ℕ} (h : lba < 2 ^ 28) (data : Sector) :
    Prog.Within InReach (fun _ => True) (Program.writeSector lba data s) :=
  Prog.within_bind (Prog.within_query.2 ⟨h, fun _ => trivial⟩)

theorem within_flushLoop {baseLba n : ℕ} (i : ℕ) (h : baseLba + i + n ≤ 2 ^ 28) :
    Prog.Within InReach (fun _ => True) (Program.flushLoop baseLba n i s) := by
  induction n generalizing i s with
  | zero => trivial
  | succ n ih =>
    unfold Program.flushLoop
    refine Prog.within_bind ((within_writeSector (by omega) _).mono fun r _ => ?_)
    rcases r with ⟨_ | _, s'⟩
    · trivial
    · exact ih (i + 1) (by omega)

theorem within_fat12FlushFat : Prog.Within InReach (fun _ => True) (Program.fat12FlushFat s) := by
  unfold Program.fat12FlushFat
  refine Prog.within_bind ((within_flushLoop 0 (by decide)).mono fun r _ => ?_)
  rcases r with ⟨_ | _, s'⟩
  · trivial
  · exact within_flushLoop 0 (by decide)

theorem within_initLoop {n : ℕ} (i : ℕ) (h : fat1Lba + i + n ≤ 2 ^ 28) :
    Prog.Within InReach (fun _ => True) (Program.initLoop n i s) := by
  induction n generalizing i s with
  | zero => trivial
  | succ n ih =>
    unfold Program.initLoop
    refine Prog.within_bind (Prog.within_query.2 ⟨?_, fun r => ?_⟩)
    · change fat1Lba + i < 2 ^ 28
      omega
    · cases r with
      | none => trivial
      | some v => exact ih (i + 1) (by omega)

theorem within_fat12Init : Prog.Within InReach (fun _ => True) (Program.fat12Init s) := by
  unfold Program.fat12Init
  refine Prog.within_bind ((within_initLoop 0 (by decide)).mono fun r _ => ?_)
  rcases r with ⟨_ | _, s'⟩
  · trivial
  · trivial

theorem clusterToLba_inReach {cl : ℕ} (h : cl < 65536) : clusterToLba cl < 2 ^ 28 := by
  rw [clusterToLba_eq h]
  omega

theorem within_readLoop (fat83 : Name83) (len : ℕ) {n : ℕ} (entry : ℕ) (h : entry + n ≤ 224) :
    Prog.Within InReach (fun _ => True) (Program.readLoop fat83 len n entry s) := by
  induction n generalizing entry s with
  | zero => trivial
  | succ n ih =>
    unfold Program.readLoop
    have hlba := (entrySector_mem (t := entry) (by omega)).2
    refine Prog.within_bind ((within_readSector (by omega)).mono fun r _ => ?_)
    rcases r with ⟨_ | _, s'⟩
    · trivial
    dsimp only
    split
    · trivial
    split
    · exact ih (entry + 1) (by omega)
    split
    · exact ih (entry + 1) (by omega)
    split
    · exact ih (entry + 1) (by omega)
    have hcl := (direntAt s'.sSectorBuf (entryOff entry)).cluster.toNat_lt
    refine Prog.within_bind ((within_readSector (clusterToLba_inReach hcl)).mono fun r _ => ?_)
    rcases r with ⟨_ | _, s''⟩
    · trivial
    · trivial

theorem within_fat12ReadFile (name : Option CStr) (buf : Bool) (len : ℕ) :
    Prog.Within InReach (fun _ => True) (Program.fat12ReadFile name buf len s) := by
  cases name with
  | none => trivial
  | some name =>
    unfold Program.fat12ReadFile
    dsimp only
    split
    · trivial
    · exact within_readLoop _ _ 0 (by decide)

theorem Scan.InRange.free {r : Scan} (h : r.InRange) {entry : ℕ} (he : entry < 224) :
    (r.free entry).InRange := by
  unfold Scan.free
  split
  · exact h
  · exact ⟨h.foundEntry, (entrySector_mem he).2, h.cluster⟩

theorem within_scanLoop (fat83 : Name83) {n : ℕ} (entry : ℕ) (h : entry + n ≤ 224) {r : Scan} (hr : r.InRange) :
    Prog.Within InReach (fun out => ∀ r', out.1 = some r' → r'.InRange)
      (Program.scanLoop fat83 n entry r s) := by
  induction n generalizing entry r s with
  | zero =>
    intro r' h'
    rwa [← Option.some.inj h']
  | succ n ih =>
    unfold Program.scanLoop
    have hlba := (entrySector_mem (t := entry) (by omega)).2
    refine Prog.within_bind ((within_readSector (by omega)).mono fun out _ => ?_)
    rcases out with ⟨_ | _, s'⟩
    · exact nofun
    dsimp only
    split
    · intro r' h'
      rw [← Option.some.inj h']
      exact hr.free (by omega)
    split
    · exact ih (entry + 1) (by omega) (hr.free (by omega))
    split
    · exact ih (entry + 1) (by omega) hr
    split
    · exact ih (entry + 1) (by omega) hr
    · intro r' h'
      rw [← Option.some.inj h']
      exact ⟨hlba, hr.freeEntry, (direntAt s'.sSectorBuf (entryOff entry)).cluster.toNat_lt⟩

theorem chooseCluster_lt {r : Scan} {fat : FatBuf} {cl : ℕ} (hr : r.InRange) (h : chooseCluster r fat = some cl) :
    cl < 65536 := by
  unfold chooseCluster at h
  split at h
  · rw [← Option.some.inj h]
    exact hr.cluster
  · split at h
    · cases h
    · dsimp only at h
      split at h
      · cases h
      next hne =>
        have := (alloc_spec fat hne).2.1
        rw [← Option.some.inj h]
        omega

theorem within_commit (fat83 : Name83) (buf : ℕ → UInt8) (len : ℕ) {cluster targetSector : ℕ} (targetOff : ℕ)
    (hcl : cluster < 65536) (ht : targetSector < 33) :
    Prog.Within InReach (fun _ => True) (Program.commit fat83 buf len cluster targetSector targetOff s) := by
  unfold Program.commit
  refine Prog.within_bind ((within_writeSector (clusterToLba_inReach hcl) _).mono fun r _ => ?_)
  rcases r with ⟨_ | _, s₁⟩
  · trivial
  refine Prog.within_bind ((within_readSector (by omega)).mono fun r _ => ?_)
  rcases r with ⟨_ | _, s₂⟩
  · trivial
  refine Prog.within_bind ((within_writeSector (by omega) _).mono fun r _ => ?_)
  rcases r with ⟨_ | _, s₃⟩
  · trivial
  refine Prog.within_bind (within_fat12FlushFat.mono fun r _ => ?_)
  rcases r with ⟨_ | _, s₄⟩
  · trivial
  · trivial

theorem within_fat12WriteFile (name : Option CStr) (buf : Option (ℕ → UInt8)) (len : ℕ) :
    Prog.Within InReach (fun _ => True) (Program.fat12WriteFile name buf len s) := by
  cases name with
  | none => trivial
  | some name =>
    cases buf with
    | none => trivial
    | some buf =>
      unfold Program.fat12WriteFile
      dsimp only
      split
      · trivial
      have hstart : Scan.InRange {} := ⟨by decide, by decide, by decide⟩
      refine Prog.within_bind ((within_scanLoop _ 0 (by decide) hstart).mono fun out hout => ?_)
      rcases out with ⟨_ | r, s'⟩
      · trivial
      have hr := hout r rfl
      dsimp only
      cases hcl : chooseCluster r s'.sFatBuf with
      | none => trivial
      | some cluster =>
        refine within_commit _ _ _ _ (chooseCluster_lt hr hcl) ?_
        split
        · exact hr.foundEntry
        · exact hr.freeEntry

end Within

end AuraOS.Env.Fat12
