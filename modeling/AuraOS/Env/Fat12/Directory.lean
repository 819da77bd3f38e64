import AuraOS.Env.Fat12.Defs
import AuraOS.Lib.Search

/-!
# The root directory and its two scans

`rootEntry c i` is entry `i` of the root directory on a disk with contents `c`.  `lookup` finds the
entry that both scans select for a name and `freeSlot` the first slot a new file can take; these are
functions of the disk alone.  `scanLoop_spec` and `readLoop_spec` say that the driver's loops compute
them, as long as none of the `scanReads` sector reads fails, and that they change nothing but the
sector buffer.
-/

namespace AuraOS.Env.Fat12

open AuraOS.Lib AuraOS.Kernel

/-! ### Entries in a sector -/

theorem entrySector_eq (i : ℕ) : entrySector i = 19 + i / 16 := by
  change 19 + i * 32 / 512 = _
  omega

theorem entryOff_eq (i : ℕ) : entryOff i = i % 16 * 32 := by
  change i * 32 % 512 = _
  omega

/-- An entry is determined by its 32 bytes. -/
theorem direntAt_congr {sec sec' : Sector} {off off' : ℕ}
    (h : ∀ i < 32, sec.rd (off + i) = sec'.rd (off' + i)) : direntAt sec off = direntAt sec' off' := by
  unfold direntAt
  rw [Buf.tab_congr fun i hi => h i (by omega), h 11 (by omega), h 22 (by omega), h 23 (by omega),
    h 24 (by omega), h 25 (by omega), h 26 (by omega), h 27 (by omega), h 28 (by omega),
    h 29 (by omega), h 30 (by omega), h 31 (by omega),
    Buf.tab_congr (n := 10) (f := fun i => sec.rd (off + 12 + i))
      (g := fun i => sec'.rd (off' + 12 + i)) fun i hi => by
        rw [Nat.add_assoc, Nat.add_assoc]
        exact h (12 + i) (by omega)]

/-- **What is stored is read back.** -/
theorem direntAt_putDirent (sec : Sector) {off : ℕ} (hoff : off + 32 ≤ 512) (de : Dirent) :
    direntAt (putDirent sec off de) off = de := by
  have hrd : ∀ i < 32, (putDirent sec off de).rd (off + i) = de.bytes i := by
    intro i hi
    unfold putDirent
    rw [Buf.rd_blit _ _ _ _ (by omega), if_pos (by omega), Nat.add_sub_cancel_left]
  have hname : Buf.tab 11 (fun i => (putDirent sec off de).rd (off + i)) = de.name := by
    rw [Buf.tab_congr (g := de.name.rd) fun i hi => by
      rw [hrd i (by omega)]
      exact if_pos hi, Buf.tab_rd]
  have hres : Buf.tab 10 (fun i => (putDirent sec off de).rd (off + 12 + i)) = de.reserved := by
    rw [Buf.tab_congr (g := de.reserved.rd) fun i hi => by
      rw [Nat.add_assoc, hrd (12 + i) (by omega)]
      unfold Dirent.bytes
      rw [if_neg (by omega), if_neg (by omega), if_pos (by omega), Nat.add_sub_cancel_left],
      Buf.tab_rd]
  obtain ⟨name, attr, reserved, time, date, cluster, size⟩ := de
  unfold direntAt
  rw [hname, hres, hrd 11 (by omega), hrd 22 (by omega), hrd 23 (by omega), hrd 24 (by omega),
    hrd 25 (by omega), hrd 26 (by omega), hrd 27 (by omega), hrd 28 (by omega), hrd 29 (by omega),
    hrd 30 (by omega), hrd 31 (by omega)]
  simp [Dirent.bytes]

/-- An entry at another place of the sector is not touched. -/
theorem direntAt_putDirent_of_disjoint (sec : Sector) {off off' : ℕ} (de : Dirent) (h' : off' + 32 ≤ 512)
    (h : off + 32 ≤ off' ∨ off' + 32 ≤ off) :
    direntAt (putDirent sec off de) off' = direntAt sec off' :=
  direntAt_congr fun i hi => by
    unfold putDirent
    rw [Buf.rd_blit _ _ _ _ (by omega), if_neg (by omega)]

/-! ### The root directory -/

/-- Entry `i` of the root directory. -/
def rootEntry (c : ℕ → Sector) (i : ℕ) : Dirent := direntAt (c (entrySector i)) (entryOff i)

/-- The end marker: this entry and all behind it are unused. -/
def Dirent.isEnd (de : Dirent) : Bool := de.name.rd 0 = 0x00

/-- A slot a new file can take: the end marker or a deleted entry. -/
def Dirent.isFree (de : Dirent) : Bool := de.name.rd 0 = 0x00 || de.name.rd 0 = 0xE5

/-- The entry is selected by the scans for the name `n`. -/
def Dirent.hits (de : Dirent) (n : Name83) : Bool :=
  !de.isFree && !skipAttr de.attr && de.name = n

/-- The scan for `n` ends at entry `i`. -/
def stopsAt (c : ℕ → Sector) (n : Name83) (i : ℕ) : Bool :=
  (rootEntry c i).isEnd || (rootEntry c i).hits n

/-- The entry the scans select for `n`, among the `m` entries from `k` on. -/
def lookupFrom (c : ℕ → Sector) (n : Name83) (m k : ℕ) : Option ℕ :=
  (first (stopsAt c n) m k).filter fun i => (rootEntry c i).hits n

/-- **The existing file of the name `n`.** -/
def lookup (c : ℕ → Sector) (n : Name83) : Option ℕ := lookupFrom c n rootEntryCount 0

/-- The first slot a new file can take. -/
def freeSlot (c : ℕ → Sector) : Option ℕ := first (fun i => (rootEntry c i).isFree) rootEntryCount 0

/-- The number of sectors the scan for `n` reads, on the `m` entries from `k` on. -/
def scanReads (c : ℕ → Sector) (n : Name83) : ℕ → ℕ → ℕ
  | 0, _ => 0
  | m + 1, k => if stopsAt c n k then 1 else scanReads c n m (k + 1) + 1

theorem Dirent.hits_iff {de : Dirent} {n : Name83} :
    de.hits n = true ↔ de.name.rd 0 ≠ 0x00 ∧ de.name.rd 0 ≠ 0xE5 ∧ skipAttr de.attr = false ∧
      de.name = n := by
  simp [Dirent.hits, Dirent.isFree, and_assoc]

theorem Dirent.hits_eq_false_of_isFree {de : Dirent} (h : de.isFree = true) (n : Name83) :
    de.hits n = false := by
  simp [Dirent.hits, h]

theorem lookup_eq_some_iff {c : ℕ → Sector} {n : Name83} {i : ℕ} :
    lookup c n = some i ↔ i < 224 ∧ (rootEntry c i).hits n = true ∧
      ∀ j < i, (rootEntry c j).isEnd = false ∧ (rootEntry c j).hits n = false := by
  unfold lookup lookupFrom
  rw [Option.filter_eq_some_iff, first_eq_some_iff]
  simp only [stopsAt, Nat.zero_le, Nat.zero_add, true_and, forall_const, Bool.or_eq_true,
    Bool.or_eq_false_iff]
  constructor
  · rintro ⟨⟨h1, -, h3⟩, h4⟩
    exact ⟨h1, h4, h3⟩
  · rintro ⟨h1, h2, h3⟩
    exact ⟨⟨h1, Or.inr h2, h3⟩, h2⟩

theorem lookup_eq_none_iff {c : ℕ → Sector} {n : Name83} :
    lookup c n = none ↔ ∀ i < 224, (∀ j < i, (rootEntry c j).isEnd = false) →
      (rootEntry c i).hits n = false := by
  constructor
  · intro h i
    induction i using Nat.strongRecOn with
    | ind i ih =>
      intro hi hend
      by_contra hh
      have hhit : (rootEntry c i).hits n = true := by simpa using hh
      have hsome : lookup c n = some i := lookup_eq_some_iff.2 ⟨hi, hhit, fun j hj =>
        ⟨hend j hj, ih j hj (by omega) fun l hl => hend l (by omega)⟩⟩
      rw [h] at hsome
      cases hsome
  · intro h
    cases hl : lookup c n with
    | none => rfl
    | some i =>
      obtain ⟨h1, h2, h3⟩ := lookup_eq_some_iff.1 hl
      rw [h i h1 fun j hj => (h3 j hj).1] at h2
      cases h2

theorem freeSlot_eq_some_iff {c : ℕ → Sector} {i : ℕ} :
    freeSlot c = some i ↔ i < 224 ∧ (rootEntry c i).isFree = true ∧
      ∀ j < i, (rootEntry c j).isFree = false := by
  unfold freeSlot
  rw [first_eq_some_iff]
  simp

theorem Dirent.isFree_of_isEnd {de : Dirent} (h : de.isEnd = true) : de.isFree = true := by
  unfold Dirent.isEnd at h
  unfold Dirent.isFree
  rw [h, Bool.true_or]

/-- The slot a new file takes is in front of or at the end marker. -/
theorem not_isEnd_of_freeSlot {c : ℕ → Sector} {i j : ℕ} (h : freeSlot c = some i) (hj : j < i) :
    (rootEntry c j).isEnd = false := by
  have := (freeSlot_eq_some_iff.1 h).2.2 j hj
  by_contra hh
  rw [Dirent.isFree_of_isEnd (by simpa using hh)] at this
  cases this

/-! ### What a driver call does to the state -/

/-- `s'` is `s` after `n` sector operations, the writes `ws` among them having taken effect; the FAT
cache is the same, the sector buffer need not be. -/
structure Did (s : Driver) (ws : List (ℕ × Sector)) (n : ℕ) (s' : Driver) : Prop where
  dev : s.dev.Wrote ws n s'.dev
  fat : s'.sFatBuf = s.sFatBuf
  loaded : s'.sFatLoaded = s.sFatLoaded

theorem Did.refl (s : Driver) : Did s [] 0 s := ⟨Device.Wrote.refl s.dev, rfl, rfl⟩

theorem Did.trans {s s' s'' : Driver} {ws vs : List (ℕ × Sector)} {n m : ℕ} (h : Did s ws n s')
    (h' : Did s' vs m s'') : Did s (ws ++ vs) (n + m) s'' :=
  ⟨h.dev.trans h'.dev, h'.fat.trans h.fat, h'.loaded.trans h.loaded⟩

theorem Did.cell {s s' : Driver} {n : ℕ} (h : Did s [] n s') : s'.dev.cell = s.dev.cell := h.dev.cell

theorem readSector_of_ok {s : Driver} (h : s.dev.fault s.dev.ops = false) (lba : ℕ) :
    ∃ s', readSector lba s = (true, s') ∧ s'.sSectorBuf = s.dev.cell lba ∧ Did s [] 1 s' := by
  refine ⟨{ s with dev := (s.dev.read lba).2, sSectorBuf := s.dev.cell lba }, ?_, rfl,
    Device.wrote_read s.dev lba, rfl, rfl⟩
  unfold readSector
  rw [← Prod.eta (s.dev.read lba), Device.read_fst_of_ok h]

theorem readSector_of_fault {s : Driver} (h : s.dev.fault s.dev.ops = true) (lba : ℕ) :
    ∃ s', readSector lba s = (false, s') ∧ Did s [] 1 s' := by
  refine ⟨{ s with dev := (s.dev.read lba).2 }, ?_, Device.wrote_read s.dev lba, rfl, rfl⟩
  unfold readSector
  rw [← Prod.eta (s.dev.read lba), Device.read_fst_of_fault h]

end AuraOS.Env.Fat12
