import AuraOS.Env.Fat12.Scan

/-!
# What a file write does to the disk

A write that finds a slot and a cluster issues the twenty sector writes of its `plan`: the data
sector, the directory sector, and the nine sectors of either FAT copy.  It gives up at the first
failing operation, so the writes that take effect are the first `progress` ones.
`fat12WriteFile_cases` is the whole specification: a call either is `Idle`, having written nothing,
or `Commits` to a prefix of its plan.
-/

namespace AuraOS.Env.Fat12

open AuraOS.Lib AuraOS.Kernel

/-! ### The plan of a write -/

/-- The sector writes that flush the FAT. -/
def flushPlan (fat : FatBuf) : List (ℕ × Sector) :=
  ((List.range 9).map fun i => (1 + i, fatSector fat i)) ++
    (List.range 9).map fun i => (10 + i, fatSector fat i)

/-- The directory sector of phase 4, on the disk contents `c`. -/
def entryWrite (c : ℕ → Sector) (n : Name83) (len t cl : ℕ) : ℕ × Sector :=
  (entrySector t, putDirent (c (entrySector t)) (entryOff t) (newDirent n cl len))

/-- **The sector writes of a file write**, into slot `t` and cluster `cl`; `fat` is the FAT with the
cluster taken. -/
def plan (c : ℕ → Sector) (fat : FatBuf) (n : Name83) (buf : ℕ → UInt8) (len t cl : ℕ) :
    List (ℕ × Sector) :=
  (clusterToLba cl, dataSector buf len) ::
    entryWrite (Function.update c (clusterToLba cl) (dataSector buf len)) n len t cl :: flushPlan fat

/-- How many of the twenty writes take effect, the first one being operation number `t`; operation
`t + 1` reads the directory sector back. -/
def progress (fault : ℕ → Bool) (t : ℕ) : ℕ :=
  if fault t then 0 else if fault (t + 1) || fault (t + 2) then 1 else 2 + streak fault (t + 3) 18

@[simp] theorem length_flushPlan (fat : FatBuf) : (flushPlan fat).length = 18 := by
  simp [flushPlan]

@[simp] theorem length_plan (c : ℕ → Sector) (fat : FatBuf) (n : Name83) (buf : ℕ → UInt8)
    (len t cl : ℕ) : (plan c fat n buf len t cl).length = 20 := by
  simp [plan]

theorem progress_of_never {fault : ℕ → Bool} (h : ∀ n, fault n = false) (t : ℕ) :
    progress fault t = 20 := by
  unfold progress
  rw [h, h, h, streak_of_never h]
  rfl

/-! ### The phases -/

theorem writeSector_eq (lba : ℕ) (v : Sector) (s : Driver) :
    writeSector lba v s = ((s.dev.write lba v).1, { s with dev := (s.dev.write lba v).2 }) := rfl

theorem writeSector_of_ok {s : Driver} (h : s.dev.fault s.dev.ops = false) (lba : ℕ) (v : Sector) :
    ∃ s', writeSector lba v s = (true, s') ∧ Did s [(lba, v)] 1 s' := by
  obtain ⟨h1, h2⟩ := Device.write_of_ok h lba v
  exact ⟨{ s with dev := (s.dev.write lba v).2 }, by rw [writeSector_eq, h1], h2, rfl, rfl⟩

theorem writeSector_of_fault {s : Driver} (h : s.dev.fault s.dev.ops = true) (lba : ℕ) (v : Sector) :
    ∃ s', writeSector lba v s = (false, s') ∧ Did s [] 1 s' := by
  obtain ⟨h1, h2⟩ := Device.write_of_fault h lba v
  exact ⟨{ s with dev := (s.dev.write lba v).2 }, by rw [writeSector_eq, h1], h2, rfl, rfl⟩

/-- The inner loop of the flush issues its sectors one after the other. -/
theorem flushLoop_eq (base : ℕ) : ∀ (m i : ℕ) (s : Driver),
    flushLoop base m i s =
      ((Device.issue ((List.range' i m).map fun j => (base + j, fatSector s.sFatBuf j)) s.dev).1,
        { s with dev := (Device.issue
            ((List.range' i m).map fun j => (base + j, fatSector s.sFatBuf j)) s.dev).2 }) := by
  intro m
  induction m with
  | zero => exact fun i s => rfl
  | succ m ih =>
    intro i s
    rw [List.range'_succ, List.map_cons]
    unfold flushLoop Device.issue
    rw [writeSector_eq]
    rcases hw : s.dev.write (base + i) (fatSector s.sFatBuf i) with ⟨_ | _, d⟩
    · rfl
    · exact ih (i + 1) { s with dev := d }

/-- **Phase 5** issues the flush plan. -/
theorem fat12FlushFat_eq (s : Driver) :
    fat12FlushFat s = ((Device.issue (flushPlan s.sFatBuf) s.dev).1,
      { s with dev := (Device.issue (flushPlan s.sFatBuf) s.dev).2 }) := by
  unfold fat12FlushFat flushPlan
  rw [Device.issue_append, List.range_eq_range', flushLoop_eq]
  rcases Device.issue ((List.range' 0 9).map fun i => (1 + i, fatSector s.sFatBuf i)) s.dev with
    ⟨_ | _, d⟩
  · rfl
  · exact flushLoop_eq fat2Lba 9 0 { s with dev := d }

theorem fat12FlushFat_spec (s : Driver) :
    (fat12FlushFat s).1 = decide (streak s.dev.fault s.dev.ops 18 = 18) ∧
      ∃ j, Did s ((flushPlan s.sFatBuf).take (streak s.dev.fault s.dev.ops 18)) j
        (fat12FlushFat s).2 := by
  have h := Device.issue_eq (flushPlan s.sFatBuf) s.dev
  rw [length_flushPlan] at h
  obtain ⟨h1, j, h2⟩ := h
  rw [fat12FlushFat_eq]
  exact ⟨h1, j, h2, rfl, rfl⟩

/-- **Phases 3 to 5** perform a prefix of the plan, and succeed when it is all of it. -/
theorem commit_spec (n : Name83) (buf : ℕ → UInt8) (len cl t : ℕ) (s : Driver) :
    let k := progress s.dev.fault s.dev.ops
    let out := commit n buf len cl (entrySector t) (entryOff t) s
    out.1 = (if k = 20 then some len else none) ∧
      ∃ j, Did s ((plan s.dev.cell s.sFatBuf n buf len t cl).take k) j out.2 := by
  unfold commit progress plan
  cases h0 : s.dev.fault s.dev.ops with
  | true =>
    obtain ⟨s1, e1, d1⟩ := writeSector_of_fault (s := { s with sSectorBuf := dataSector buf len })
      h0 (clusterToLba cl) (dataSector buf len)
    simp only [e1]
    exact ⟨rfl, 1, d1.dev, d1.fat, d1.loaded⟩
  | false =>
    obtain ⟨s1, e1, d1⟩ := writeSector_of_ok (s := { s with sSectorBuf := dataSector buf len })
      h0 (clusterToLba cl) (dataSector buf len)
    replace d1 : Did s [(clusterToLba cl, dataSector buf len)] 1 s1 := ⟨d1.dev, d1.fat, d1.loaded⟩
    have hf1 : s1.dev.fault s1.dev.ops = s.dev.fault (s.dev.ops + 1) := by
      rw [d1.dev.fault, d1.dev.ops]
    simp only [e1]
    cases h1 : s.dev.fault (s.dev.ops + 1) with
    | true =>
      rw [h1] at hf1
      obtain ⟨s2, e2, d2⟩ := readSector_of_fault hf1 (entrySector t)
      simp only [e2]
      exact ⟨rfl, _, d1.trans d2⟩
    | false =>
      rw [h1] at hf1
      obtain ⟨s2, e2, hb, d2⟩ := readSector_of_ok hf1 (entrySector t)
      -- the sector written back is the one just read, with the entry stored into it
      have hcell : s1.dev.cell =
          Function.update s.dev.cell (clusterToLba cl) (dataSector buf len) := d1.dev.cell
      have hbuf : putDirent s2.sSectorBuf (entryOff t) (newDirent n cl len) =
          (entryWrite (Function.update s.dev.cell (clusterToLba cl) (dataSector buf len))
            n len t cl).2 := by
        rw [hb, hcell]
        rfl
      have d12 : Did s [(clusterToLba cl, dataSector buf len)] 2 s2 := d1.trans d2
      have hf2 : s2.dev.fault s2.dev.ops = s.dev.fault (s.dev.ops + 2) := by
        rw [d12.dev.fault, d12.dev.ops]
      simp only [e2, hbuf]
      generalize hE : entryWrite _ n len t cl = E
      have hE1 : entrySector t = E.1 := by
        rw [← hE]
        rfl
      rw [hE1]
      cases h2 : s.dev.fault (s.dev.ops + 2) with
      | true =>
        rw [h2] at hf2
        obtain ⟨s3, e3, d3⟩ := writeSector_of_fault (s := { s2 with sSectorBuf := E.2 }) hf2 E.1 E.2
        simp only [e3]
        exact ⟨rfl, _, d12.trans ⟨d3.dev, d3.fat, d3.loaded⟩⟩
      | false =>
        rw [h2] at hf2
        obtain ⟨s3, e3, d3⟩ := writeSector_of_ok (s := { s2 with sSectorBuf := E.2 }) hf2 E.1 E.2
        have d123 : Did s ([(clusterToLba cl, dataSector buf len)] ++ [E]) 3 s3 :=
          d12.trans ⟨d3.dev, d3.fat, d3.loaded⟩
        obtain ⟨f1, j, f2⟩ := fat12FlushFat_spec s3
        rw [d123.dev.fault, d123.dev.ops] at f1 f2
        rw [d123.fat] at f2
        simp only [e3, Bool.false_eq_true, if_false, Bool.or_self]
        have hk : (2 + streak s.dev.fault (s.dev.ops + 3) 18 = 20) ↔
            (streak s.dev.fault (s.dev.ops + 3) 18 = 18) := by omega
        rw [← Prod.eta (fat12FlushFat s3), f1]
        refine ⟨?_, 3 + j, ?_⟩
        · by_cases h18 : streak s.dev.fault (s.dev.ops + 3) 18 = 18
          · simp [h18]
          · simp [h18, hk]
        · have htake : ((clusterToLba cl, dataSector buf len) :: E :: flushPlan s.sFatBuf).take
              (2 + streak s.dev.fault (s.dev.ops + 3) 18) =
              ([(clusterToLba cl, dataSector buf len)] ++ [E]) ++
                (flushPlan s.sFatBuf).take (streak s.dev.fault (s.dev.ops + 3) 18) := by
            rw [Nat.add_comm 2]
            rfl
          rw [htake]
          cases decide (streak s.dev.fault (s.dev.ops + 3) 18 = 18) <;> exact d123.trans f2

/-! ### The whole call -/

/-- None of the sector reads of the directory scan fails. -/
def ScanOk (s : Driver) (n : Name83) : Prop :=
  streak s.dev.fault s.dev.ops (scanReads s.dev.cell n rootEntryCount 0) =
    scanReads s.dev.cell n rootEntryCount 0

/-- The call got no further than phase 2: it fails, and has written nothing. -/
structure Idle (s : Driver) (out : Option ℕ × Driver) : Prop where
  result : out.1 = none
  effect : ∃ j, Did s [] j out.2

/-- The number of its twenty writes that a call from the state `s` performs. -/
def done (s : Driver) (n : Name83) : ℕ :=
  progress s.dev.fault (s.dev.ops + scanReads s.dev.cell n rootEntryCount 0)

/-- The call takes the cluster `cl` in the FAT cache, and performs the first `done` writes of its plan
for slot `t`; it succeeds when these are all twenty. -/
structure Commits (s : Driver) (n : Name83) (buf : ℕ → UInt8) (len t cl : ℕ)
    (out : Option ℕ × Driver) : Prop where
  result : out.1 = if done s n = 20 then some len else none
  effect : ∃ j, Did { s with sFatBuf := fat12SetCluster s.sFatBuf cl 0xFFF }
    ((plan s.dev.cell (fat12SetCluster s.sFatBuf cl 0xFFF) n buf len t cl).take (done s n)) j out.2

/-- The length that is written: the excess over a sector is cut off. -/
def capLen (len : ℕ) : ℕ := if len > 512 then 512 else len

theorem capLen_eq (len : ℕ) : capLen len = min len 512 := by
  unfold capLen
  split <;> omega

section Cases

variable {s : Driver} {name : CStr} {buf : ℕ → UInt8} {len cl : ℕ} {r : Scan}

/-- The scan fails on a read error. -/
theorem fat12WriteFile_of_scan_none (hm : s.sFatLoaded = true)
    (h : (scanLoop (nameToFat83 name) rootEntryCount 0 {} s).1 = none) :
    fat12WriteFile (some name) (some buf) len s =
      (none, (scanLoop (nameToFat83 name) rootEntryCount 0 {} s).2) := by
  unfold fat12WriteFile
  simp only [hm]
  generalize scanLoop (nameToFat83 name) rootEntryCount 0 {} s = out at h ⊢
  obtain ⟨_, s'⟩ := out
  subst h
  rfl

/-- There is no entry or no cluster for the file. -/
theorem fat12WriteFile_of_no_cluster (hm : s.sFatLoaded = true)
    (h : (scanLoop (nameToFat83 name) rootEntryCount 0 {} s).1 = some r)
    (hc : chooseCluster r (scanLoop (nameToFat83 name) rootEntryCount 0 {} s).2.sFatBuf = none) :
    fat12WriteFile (some name) (some buf) len s =
      (none, (scanLoop (nameToFat83 name) rootEntryCount 0 {} s).2) := by
  unfold fat12WriteFile
  simp only [hm]
  generalize scanLoop (nameToFat83 name) rootEntryCount 0 {} s = out at h hc ⊢
  obtain ⟨_, s'⟩ := out
  subst h
  change chooseCluster r s'.sFatBuf = none at hc
  simp only [hc]
  rfl

/-- The file is written to the cluster that was chosen. -/
theorem fat12WriteFile_of_cluster (hm : s.sFatLoaded = true)
    (h : (scanLoop (nameToFat83 name) rootEntryCount 0 {} s).1 = some r)
    (hc : chooseCluster r (scanLoop (nameToFat83 name) rootEntryCount 0 {} s).2.sFatBuf = some cl) :
    fat12WriteFile (some name) (some buf) len s =
      commit (nameToFat83 name) buf (capLen len) cl
        (if r.found then r.foundEntrySector else r.freeEntrySector)
        (if r.found then r.foundEntryOff else r.freeEntryOff)
        { (scanLoop (nameToFat83 name) rootEntryCount 0 {} s).2 with
          sFatBuf := fat12SetCluster
            (scanLoop (nameToFat83 name) rootEntryCount 0 {} s).2.sFatBuf cl 0xFFF } := by
  unfold fat12WriteFile
  simp only [hm]
  generalize scanLoop (nameToFat83 name) rootEntryCount 0 {} s = out at h hc ⊢
  obtain ⟨_, s'⟩ := out
  subst h
  change chooseCluster r s'.sFatBuf = some cl at hc
  simp only [hc]
  rfl

end Cases

/-- **The specification of `fat12WriteFile`** on a mounted volume. -/
theorem fat12WriteFile_spec {s : Driver} (hm : s.sFatLoaded = true) (name : CStr) (buf : ℕ → UInt8)
    (len : ℕ) :
    (¬ ScanOk s (nameToFat83 name) → Idle s (fat12WriteFile (some name) (some buf) len s)) ∧
    (target s.dev.cell s.sFatBuf (nameToFat83 name) = none →
      Idle s (fat12WriteFile (some name) (some buf) len s)) ∧
    (ScanOk s (nameToFat83 name) →
      ∀ t cl, target s.dev.cell s.sFatBuf (nameToFat83 name) = some (t, cl) →
        Commits s (nameToFat83 name) buf (capLen len) t cl
          (fat12WriteFile (some name) (some buf) len s)) := by
  have hscan := scanLoop_spec (nameToFat83 name) rootEntryCount 0 {} s
  have hfail : ¬ ScanOk s (nameToFat83 name) →
      Idle s (fat12WriteFile (some name) (some buf) len s) := by
    intro h
    obtain ⟨a, j, b⟩ := hscan.failed h
    rw [fat12WriteFile_of_scan_none hm a]
    exact ⟨rfl, j, b⟩
  obtain ⟨hc, ht⟩ := scanPure_target s.dev.cell s.sFatBuf (nameToFat83 name)
  refine ⟨hfail, fun htn => ?_, fun hok t cl htc => ?_⟩
  · by_cases hok : ScanOk s (nameToFat83 name)
    · obtain ⟨a, b⟩ := hscan.ok hok
      rw [htn, Option.map_none, ← b.fat] at hc
      rw [fat12WriteFile_of_no_cluster hm a hc]
      exact ⟨rfl, _, b⟩
    · exact hfail hok
  · obtain ⟨a, b⟩ := hscan.ok hok
    obtain ⟨e1, e2⟩ := ht t cl htc
    rw [htc, Option.map_some, ← b.fat] at hc
    rw [fat12WriteFile_of_cluster hm a hc, e1, e2, b.fat]
    have hcommit := commit_spec (nameToFat83 name) buf (capLen len) cl t
      { (scanLoop (nameToFat83 name) rootEntryCount 0 {} s).2 with
        sFatBuf := fat12SetCluster s.sFatBuf cl 0xFFF }
    simp only [b.dev.fault, b.dev.ops, b.cell] at hcommit
    obtain ⟨h1, j, h2⟩ := hcommit
    have h3 : Did { s with sFatBuf := fat12SetCluster s.sFatBuf cl 0xFFF } []
        (scanReads s.dev.cell (nameToFat83 name) rootEntryCount 0)
        { (scanLoop (nameToFat83 name) rootEntryCount 0 {} s).2 with
          sFatBuf := fat12SetCluster s.sFatBuf cl 0xFFF } := ⟨b.dev, rfl, b.loaded⟩
    exact ⟨h1, _, h3.trans h2⟩

/-- A call on an unmounted volume, or with a null pointer, does nothing. -/
theorem fat12WriteFile_of_guard {s : Driver} {name : Option CStr} {buf : Option (ℕ → UInt8)}
    (h : s.sFatLoaded = false ∨ name = none ∨ buf = none) (len : ℕ) :
    fat12WriteFile name buf len s = (none, s) := by
  rcases name with _ | name
  · rfl
  rcases buf with _ | buf
  · rfl
  have hm : s.sFatLoaded = false := by simpa using h
  unfold fat12WriteFile
  simp only [hm]
  rfl

end AuraOS.Env.Fat12
