import AuraOS.Env.Fat12.Crash

/-!
# Which entries are opened

`fat12_read_file` and phase 1 of `fat12_write_file` walk over the root directory in lockstep, and select the same
entry (`selectedByWrite_iff`).  Both skip an entry whose attribute byte is exactly that of a volume label, of a
directory or of a long name.  The bits of a foreign entry may be combined with others, and such an entry is opened
like a file, unless a regular entry of the same name stands in front of it (`opensRegular_iff`).
-/

namespace AuraOS.Env.Fat12

open AuraOS.Lib AuraOS.Kernel

/-! ### The two selections -/

/-- `fat12_read_file` of `name` takes entry `i`. -/
def SelectedByRead (s : Driver) (name : CStr) (i : ℕ) : Prop :=
  (readPick (nameToFat83 name) rootEntryCount 0 s).1 = some i

/-- Phase 1 of `fat12_write_file` of `name` finds entry `i`. -/
def SelectedByWrite (s : Driver) (name : CStr) (i : ℕ) : Prop :=
  i < rootEntryCount ∧ ∃ r, (scanLoop (nameToFat83 name) rootEntryCount 0 {} s).1 = some r ∧
    r.found = true ∧ r.foundEntrySector = entrySector i ∧ r.foundEntryOff = entryOff i

section Lockstep

variable {n : Name83} {s : Driver}

/-- An entry is determined by its place. -/
theorem entry_inj {i j : ℕ} (h1 : entrySector i = entrySector j) (h2 : entryOff i = entryOff j) : i = j := by
  rw [entrySector_eq, entrySector_eq] at h1
  rw [entryOff_eq, entryOff_eq] at h2
  omega

/-- The result `p` of the walk of a read, against the result `out` of phase 1 that has begun with the locals `r`. -/
structure Agree (r : Scan) (p : Option ℕ × Driver) (out : Option Scan × Driver) : Prop where
  state : p.2 = out.2
  found : ∀ i, p.1 = some i → ∃ r', out.1 = some r' ∧ r'.found = true ∧
    r'.foundEntrySector = entrySector i ∧ r'.foundEntryOff = entryOff i
  missed : p.1 = none → ∀ r', out.1 = some r' → r'.found = r.found

theorem Scan.free_found (r : Scan) (k : ℕ) : (r.free k).found = r.found := by
  unfold Scan.free
  split <;> rfl

theorem Agree.free {r : Scan} {k : ℕ} {p : Option ℕ × Driver} {out : Option Scan × Driver}
    (h : Agree (r.free k) p out) : Agree r p out := by
  refine ⟨h.state, h.found, ?_⟩
  rw [← r.free_found k]
  exact h.missed

/-- **The two scans run in lockstep.** -/
theorem scans_agree (n : Name83) : ∀ (m k : ℕ) (r : Scan) (s : Driver),
    Agree r (readPick n m k s) (scanLoop n m k r s) := by
  intro m
  induction m with
  | zero =>
    intro k r s
    refine ⟨rfl, nofun, ?_⟩
    rintro - r' hr'
    obtain rfl := Option.some.inj hr'
    rfl
  | succ m ih =>
    intro k r s
    cases hf : s.dev.fault s.dev.ops with
    | true =>
      obtain ⟨s', h1, -⟩ := readSector_of_fault hf (entrySector k)
      rw [readPick_succ_of_fault h1, scanLoop_succ_of_fault h1]
      exact ⟨rfl, nofun, nofun⟩
    | false =>
      obtain ⟨s', h1, hb, -⟩ := readSector_of_ok hf (entrySector k)
      rw [readPick_succ_of_read h1 hb, scanLoop_succ_of_read h1 hb]
      generalize rootEntry s.dev.cell k = de
      by_cases he : de.isEnd = true
      · simp only [he, if_true]
        refine ⟨rfl, nofun, ?_⟩
        rintro - r' hr'
        obtain rfl := Option.some.inj hr'
        exact r.free_found k
      by_cases hh : de.hits n = true
      · simp only [he, hh, if_true, if_false, Bool.false_eq_true]
        refine ⟨rfl, ?_, nofun⟩
        intro i hi
        obtain rfl := Option.some.inj hi
        exact ⟨_, rfl, rfl, rfl, rfl⟩
      by_cases hfree : de.isFree = true
      · simp only [he, hh, hfree, if_true, if_false, Bool.false_eq_true]
        exact (ih (k + 1) (r.free k) s').free
      · simp only [he, hh, hfree, if_false, Bool.false_eq_true]
        exact ih (k + 1) r s'

theorem selectedByRead_lookup {name : CStr} {i : ℕ} (h : SelectedByRead s name i) :
    lookup s.dev.cell (nameToFat83 name) = some i := by
  rcases (readPick_spec (nameToFat83 name) rootEntryCount 0 s).result with e | ⟨e, -⟩
  · exact e.symm.trans h
  · exact absurd (e.symm.trans h) nofun

/-- On a working disk the selection is that of `lookup`. -/
theorem selectedByRead_iff_of_ok (hok : ∀ t, s.dev.fault t = false) {name : CStr} {i : ℕ} :
    SelectedByRead s name i ↔ lookup s.dev.cell (nameToFat83 name) = some i := by
  refine ⟨selectedByRead_lookup, ?_⟩
  intro h
  rcases (readPick_spec (nameToFat83 name) rootEntryCount 0 s).result with e | ⟨-, t, ht⟩
  · exact e.trans h
  · rw [hok] at ht
    cases ht

/-- **A read and a write select the same entry**, whatever the disk does. -/
theorem selectedByWrite_iff {name : CStr} {i : ℕ} : SelectedByWrite s name i ↔ SelectedByRead s name i := by
  have hagree := scans_agree (nameToFat83 name) rootEntryCount 0 {} s
  constructor
  · rintro ⟨-, r, hr, hfound, hsec, hoff⟩
    cases hp : (readPick (nameToFat83 name) rootEntryCount 0 s).1 with
    | none =>
      rw [hagree.missed hp r hr] at hfound
      cases hfound
    | some j =>
      obtain ⟨r', hr', -, hsec', hoff'⟩ := hagree.found j hp
      obtain rfl := Option.some.inj (hr.symm.trans hr')
      rw [entry_inj (hsec.symm.trans hsec') (hoff.symm.trans hoff')]
      exact hp
  · intro h
    obtain ⟨r', hr', hfound, hsec, hoff⟩ := hagree.found i h
    exact ⟨(lookup_eq_some_iff.1 (selectedByRead_lookup h)).1, r', hr', hfound, hsec, hoff⟩

end Lockstep

/-! ### Directories and volume labels -/

/-- On a disk with the contents `c`, whatever sector operations fail, the two functions open regular files only,
and the same one. -/
structure OpensRegular (c : ℕ → Sector) (name : CStr) : Prop where
  read : ∀ s i, s.dev.cell = c → SelectedByRead s name i → (rootEntry c i).isRegular = true
  write : ∀ s i, s.dev.cell = c → SelectedByWrite s name i → (rootEntry c i).isRegular = true
  same : ∀ s i, s.dev.cell = c → (SelectedByRead s name i ↔ SelectedByWrite s name i)

/-- Entry `i` is in use and has the name `n`. -/
def Carries (c : ℕ → Sector) (n : Name83) (i : ℕ) : Prop := Live c i ∧ (rootEntry c i).name = n

/-- The directory or the volume label bit is set, but the byte is none of those that the scans skip. -/
def Dirent.isDisguised (de : Dirent) : Bool := !de.isRegular && !skipAttr de.attr

section Regular

variable {c : ℕ → Sector} {n : Name83} {i : ℕ}

/-- A regular entry is not skipped. -/
theorem skipAttr_of_isRegular {de : Dirent} (h : de.isRegular = true) : skipAttr de.attr = false := by
  unfold Dirent.isRegular at h
  unfold skipAttr
  by_contra hs
  rw [Bool.not_eq_false, Bool.or_eq_true, Bool.or_eq_true] at hs
  simp only [decide_eq_true_eq] at hs h
  rcases hs with (e | e) | e <;> rw [e] at h <;> exact absurd h (by decide)

theorem hits_of_carries (h : Carries c n i) (hs : skipAttr (rootEntry c i).attr = false) :
    (rootEntry c i).hits n = true := by
  obtain ⟨⟨-, hfree, -⟩, hname⟩ := h
  simp [Dirent.hits, hfree, hs, hname]

/-- Some entry of the name that the scans do not skip is the first. -/
theorem exists_lookup (h : Carries c n i) (hs : skipAttr (rootEntry c i).attr = false) :
    ∃ j ≤ i, lookup c n = some j := by
  have hhit := hits_of_carries h hs
  cases hl : lookup c n with
  | none =>
    have := lookup_eq_none_iff.1 hl i h.1.1 h.1.2.2
    rw [hhit] at this
    cases this
  | some j =>
    refine ⟨j, ?_, rfl⟩
    by_contra hlt
    have := ((lookup_eq_some_iff.1 hl).2.2 i (by omega)).2
    rw [hhit] at this
    cases this

/-- **Only regular files are opened** exactly if every disguised entry of the name stands behind a regular one. -/
theorem opensRegular_iff (c : ℕ → Sector) (name : CStr) :
    OpensRegular c name ↔
      ∀ i, Carries c (nameToFat83 name) i → (rootEntry c i).isDisguised = true →
        ∃ j < i, Carries c (nameToFat83 name) j ∧ (rootEntry c j).isRegular = true := by
  constructor
  · intro h i hi hdis
    unfold Dirent.isDisguised at hdis
    simp only [Bool.and_eq_true, Bool.not_eq_true'] at hdis
    obtain ⟨j, hle, hj⟩ := exists_lookup hi hdis.2
    -- on a working disk entry `j` is opened
    have hreg := h.read ⟨⟨c, fun _ => false, 0, []⟩, c 0, diskFat c, true⟩ j rfl
      ((selectedByRead_iff_of_ok fun _ => rfl).2 hj)
    obtain ⟨hlive, -, hname⟩ := lookup_live hj
    refine ⟨j, ?_, ⟨hlive, hname⟩, hreg⟩
    rcases Nat.eq_or_lt_of_le hle with rfl | hlt
    · rw [hdis.1] at hreg
      cases hreg
    · exact hlt
  · intro h
    have hread : ∀ s i, s.dev.cell = c → SelectedByRead s name i → (rootEntry c i).isRegular = true := by
      rintro s i rfl hsel
      have hl := selectedByRead_lookup hsel
      obtain ⟨hlive, hskip, hname⟩ := lookup_live hl
      by_contra hreg
      rw [Bool.not_eq_true] at hreg
      obtain ⟨j, hlt, hj, hjreg⟩ := h i ⟨hlive, hname⟩ (by simp [Dirent.isDisguised, hskip, hreg])
      have := ((lookup_eq_some_iff.1 hl).2.2 j hlt).2
      rw [hits_of_carries hj (skipAttr_of_isRegular hjreg)] at this
      cases this
    refine ⟨hread, ?_, ?_⟩
    · intro s i hs hsel
      exact hread s i hs (selectedByWrite_iff.1 hsel)
    · intro s i _
      exact selectedByWrite_iff.symm

end Regular

/-! ### A directory with the archive bit -/

section Archived

/-- The directory `A`, with the archive bit. -/
def archivedDir : Dirent := { newDirent (nameToFat83 [65]) 2 0 with attr := 0x30 }

/-- A volume with this directory. -/
def archivedDirDisk : ℕ → Sector := withEntry blankDisk 0 archivedDir

/-- **A directory is opened as a file** by a read of its name, and overwritten by a write. -/
theorem archivedDirDisk_not_opensRegular :
    let s := Driver.boot archivedDirDisk fun _ => false
    SelectedByRead s [65] 0 ∧ SelectedByWrite s [65] 0 ∧
      (rootEntry archivedDirDisk 0).attr &&& attrDir ≠ 0 ∧ ¬OpensRegular archivedDirDisk [65] := by
  intro s
  have hentry : rootEntry archivedDirDisk 0 = archivedDir := by
    unfold archivedDirDisk
    rw [rootEntry_withEntry, if_pos rfl]
  have hl : lookup archivedDirDisk (nameToFat83 [65]) = some 0 := by
    apply lookup_eq_some_iff.2
    refine ⟨by decide, ?_, nofun⟩
    rw [hentry]
    decide
  have hsel : SelectedByRead s [65] 0 := (selectedByRead_iff_of_ok fun _ => rfl).2 hl
  refine ⟨hsel, selectedByWrite_iff.2 hsel, ?_, ?_⟩
  · rw [hentry]
    decide
  · intro h
    have := h.read s 0 rfl hsel
    rw [hentry] at this
    revert this
    decide

end Archived

end AuraOS.Env.Fat12
