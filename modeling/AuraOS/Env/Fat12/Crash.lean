import AuraOS.Env.Fat12.Frame

/-!
# Losing power during the creation of a file

`crashDisk s s' k` is the disk when the power goes after `k` of the sector writes that lead from `s` to
`s'`.  A write sends the directory entry before the FAT, so that between the two the disk has a file
whose cluster is free: `crashSafe_iff` says exactly at which `k` the disk is safe.  From a safe disk a
remount never gives the cluster of a file away again (`Taken.run`).
-/

namespace AuraOS.Env.Fat12

open AuraOS.Lib AuraOS.Kernel

/-- The disk when the power is lost after `k` of the sector writes between `s` and `s'`. -/
def crashDisk (s s' : Driver) (k : ℕ) : ℕ → Sector := replay ((written s s').take k) s.dev.cell

/-- An entry of a regular file: neither a directory nor a volume label. -/
def Dirent.isRegular (de : Dirent) : Bool := de.attr &&& 0x18 = 0

/-- Every live regular entry of non-zero size has a first cluster that the first FAT on the disk has
as taken. -/
def CrashSafe (c : ℕ → Sector) : Prop :=
  ∀ i, Live c i → (rootEntry c i).isRegular = true → (rootEntry c i).size ≠ 0 →
    fat12NextCluster (diskFat c) (rootEntry c i).cluster.toNat ≠ 0

/-- No slot of the root directory points to a cluster that is free in the table `fat`. -/
def Taken (c : ℕ → Sector) (fat : FatBuf) : Prop :=
  ∀ i < 224, (rootEntry c i).isFree = false → (rootEntry c i).isRegular = true →
    (rootEntry c i).size ≠ 0 → fat12NextCluster fat (rootEntry c i).cluster.toNat ≠ 0

/-- A mounted volume whose FAT copies agree and on which no entry points to a free cluster. -/
structure Synced (s : Driver) : Prop where
  mounted : s.sFatLoaded = true
  cache : s.sFatBuf = diskFat s.dev.cell
  copies : diskFat2 s.dev.cell = diskFat s.dev.cell
  taken : Taken s.dev.cell s.sFatBuf

theorem Taken.crashSafe {c : ℕ → Sector} (h : Taken c (diskFat c)) : CrashSafe c :=
  fun i hi hr hs => h i hi.1 hi.2.1 hr hs

/-! ### The FAT in the middle of a write -/

section Middle

variable {c : ℕ → Sector} {n : Name83} {buf : ℕ → UInt8} {len t cl k : ℕ}

/-- The entry of the new cluster is taken on the disk as soon as the sector of its first byte is
written. -/
theorem next_diskFat_after_self (ht : t < 224) (hcl : DataCluster cl)
    (hfree : fat12NextCluster (diskFat c) cl = 0) :
    fat12NextCluster
        (diskFat (after c (fat12SetCluster (diskFat c) cl 0xFFF) n buf len t cl k)) cl ≠ 0 ↔
      3 + cellOff cl / 512 ≤ k := by
  have hlt : cl < 3072 := by
    have := hcl.2
    omega
  have hoff : cellOff cl + 1 < 4608 := by
    unfold cellOff
    omega
  have hrd := @rd_diskFat_after c (fat12SetCluster (diskFat c) cl 0xFFF) n buf len t cl k ht hcl
  constructor
  · intro h
    by_contra hk
    -- neither byte has been written yet
    refine h ((next_congr ?_ ?_).trans hfree)
    · rw [hrd (by omega), if_neg (by omega)]
    · rw [hrd (by omega), if_neg (by omega)]
  · intro hk
    have h0 : (diskFat (after c (fat12SetCluster (diskFat c) cl 0xFFF) n buf len t cl k)).rd
        (cellOff cl) = (fat12SetCluster (diskFat c) cl 0xFFF).rd (cellOff cl) := by
      rw [hrd (by omega), if_pos (by omega)]
    rcases Nat.mod_two_eq_zero_or_one cl with h2 | h2
    · rw [next_even _ hlt h2, h0, set_even _ _ hlt h2, if_pos rfl]
      omega
    · rw [next_odd _ hlt h2, h0, set_odd _ _ hlt h2, if_pos rfl]
      omega

/-- The entries of the other clusters are right at any time. -/
theorem next_diskFat_after_of_ne (ht : t < 224) (hcl : DataCluster cl) {d : ℕ} (hd : d ≠ cl) :
    fat12NextCluster
        (diskFat (after c (fat12SetCluster (diskFat c) cl 0xFFF) n buf len t cl k)) d =
      fat12NextCluster (diskFat c) d := by
  refine next_of_partial_set (diskFat c) 0xFFF hd fun i => ?_
  by_cases hi : i < 4608
  · rw [rd_diskFat_after ht hcl hi]
    split
    · exact Or.inr rfl
    · exact Or.inl rfl
  · exact Or.inl (by rw [Buf.rd_of_le _ (by omega), Buf.rd_of_le _ (by omega)])

end Middle

/-! ### The crash points of a creation -/

theorem newDirent_isRegular (n : Name83) (cl len : ℕ) : (newDirent n cl len).isRegular = true := by
  change decide ((0x20 : UInt8) &&& 0x18 = 0) = true
  decide

theorem newDirent_size_ne_zero (n : Name83) (cl len : ℕ) :
    (newDirent n cl (capLen len)).size ≠ 0 ↔ len ≠ 0 := by
  have hsize := newDirent_size n cl (show capLen len ≤ 512 by rw [capLen_eq]; omega)
  have hcap := capLen_eq len
  rw [not_iff_not, ← UInt32.toNat_inj, hsize]
  change capLen len = 0 ↔ len = 0
  omega

section Points

variable {c : ℕ → Sector} {n : Name83} {buf : ℕ → UInt8} {len t cl k : ℕ}

/-- **Once the FAT sector of the new cluster is written, no entry points to a free cluster.**  Before
the directory entry is written, and when that entry is empty or looks deleted, there is no need to
wait. -/
theorem Taken.after (h : Taken c (diskFat c)) (ht : t < 224) (hcl : DataCluster cl)
    (hfree : fat12NextCluster (diskFat c) cl = 0)
    (hk : k ≤ 1 ∨ len = 0 ∨ n.rd 0 = 0xE5 ∨ 3 + cellOff cl / 512 ≤ k) :
    Taken (after c (fat12SetCluster (diskFat c) cl 0xFFF) n buf (capLen len) t cl k)
      (diskFat (after c (fat12SetCluster (diskFat c) cl 0xFFF) n buf (capLen len) t cl k)) := by
  intro i hi hfr hreg hsize
  rw [rootEntry_after ht hcl.lba.2.1 hi] at hfr hreg hsize ⊢
  by_cases hit : 2 ≤ k ∧ i = t
  · rw [if_pos hit] at hfr hsize ⊢
    rw [newDirent_cluster _ _ (by have := hcl.2; omega), next_diskFat_after_self ht hcl hfree]
    rcases hk with hk | hk | hk | hk
    · omega
    · exact absurd hk ((newDirent_size_ne_zero n cl len).1 hsize)
    · simp [Dirent.isFree, newDirent, hk] at hfr
    · exact hk
  · rw [if_neg hit] at hfr hreg hsize ⊢
    have hne := h i hi hfr hreg hsize
    rwa [next_diskFat_after_of_ne ht hcl fun e => hne (by rw [e, hfree])]

/-- **Between the directory entry and its FAT sector the disk is not safe.** -/
theorem not_crashSafe_after (hs : freeSlot c = some t) (hcl : DataCluster cl)
    (hfree : fat12NextCluster (diskFat c) cl = 0) (h0 : n.rd 0 ≠ 0x00) (hE : n.rd 0 ≠ 0xE5)
    (hlen : len ≠ 0) (hk : 2 ≤ k) (hk' : k < 3 + cellOff cl / 512) :
    ¬ CrashSafe (after c (fat12SetCluster (diskFat c) cl 0xFFF) n buf (capLen len) t cl k) := by
  intro h
  have ht := (freeSlot_eq_some_iff.1 hs).1
  have hself : rootEntry
      (Fat12.after c (fat12SetCluster (diskFat c) cl 0xFFF) n buf (capLen len) t cl k) t =
      newDirent n cl (capLen len) := by rw [rootEntry_after ht hcl.lba.2.1 ht, if_pos ⟨hk, rfl⟩]
  have hlive : Live
      (Fat12.after c (fat12SetCluster (diskFat c) cl 0xFFF) n buf (capLen len) t cl k) t := by
    refine ⟨ht, by rw [hself]; exact newDirent_isFree h0 hE cl _, fun j hj => ?_⟩
    rw [rootEntry_after ht hcl.lba.2.1 (by omega), if_neg (by omega)]
    exact not_isEnd_of_freeSlot hs hj
  have := h t hlive (by rw [hself, newDirent_isRegular]) (by
    rw [hself]
    exact (newDirent_size_ne_zero n cl len).2 hlen)
  rw [hself, newDirent_cluster _ _ (by have := hcl.2; omega),
    next_diskFat_after_self ht hcl hfree] at this
  omega

end Points

/-- What a write of a new file has written at a crash point. -/
theorem crashDisk_of_new {s : Driver} (hm : s.sFatLoaded = true) {name : CStr}
    (hnew : lookup s.dev.cell (nameToFat83 name) = none) (buf : ℕ → UInt8) (len : ℕ) {k : ℕ}
    (hk : k ≤ (written s (fat12WriteFile (some name) (some buf) len s).2).length) :
    (k = 0 ∧ crashDisk s (fat12WriteFile (some name) (some buf) len s).2 k = s.dev.cell) ∨
      ∃ t, freeSlot s.dev.cell = some t ∧ fat12AllocCluster s.sFatBuf ≠ 0 ∧
        crashDisk s (fat12WriteFile (some name) (some buf) len s).2 k =
          after s.dev.cell (fat12SetCluster s.sFatBuf (fat12AllocCluster s.sFatBuf) 0xFFF)
            (nameToFat83 name) buf (capLen len) t (fat12AllocCluster s.sFatBuf) k := by
  obtain ⟨hfail, hnone, hsome⟩ := fat12WriteFile_spec hm name buf len
  generalize fat12WriteFile (some name) (some buf) len s = out at *
  have hidle : Idle s out → k = 0 ∧ crashDisk s out.2 k = s.dev.cell := by
    rintro ⟨-, j, h⟩
    rw [written_eq h.dev.log] at hk
    obtain rfl := Nat.le_zero.1 hk
    exact ⟨rfl, rfl⟩
  by_cases hok : ScanOk s (nameToFat83 name)
  swap
  · exact Or.inl (hidle (hfail hok))
  rcases htg : target s.dev.cell s.sFatBuf (nameToFat83 name) with _ | ⟨t, cl⟩
  · exact Or.inl (hidle (hnone htg))
  obtain ⟨hs, rfl, h0⟩ := target_of_new hnew htg
  have hw := written_of_commits (hsome hok t _ htg)
  refine Or.inr ⟨t, hs, h0, ?_⟩
  rw [hw, List.length_take] at hk
  unfold crashDisk
  rw [hw, List.take_take, Nat.min_eq_left (by omega)]
  rfl

/-! ### After the remount -/

/-- Make the calls one after the other, whatever fails. -/
def writeAll : List WriteCall → Driver → Driver
  | [], s => s
  | w :: ws, s => writeAll ws (fat12WriteFile (some w.name) (some w.data) w.len s).2

/-- No call of the run overwrites a file that has no data cluster. -/
def InData : List WriteCall → Driver → Prop
  | [], _ => True
  | w :: ws, s =>
    (∀ t, lookup s.dev.cell (nameToFat83 w.name) = some t →
      DataCluster (rootEntry s.dev.cell t).cluster.toNat) ∧
    InData ws (fat12WriteFile (some w.name) (some w.data) w.len s).2

/-- **A write, also one that fails, makes no entry point to a free cluster of the cached FAT.** -/
theorem Taken.write {s : Driver} (h : Taken s.dev.cell s.sFatBuf) (w : WriteCall)
    (hdata : ∀ t, lookup s.dev.cell (nameToFat83 w.name) = some t →
      DataCluster (rootEntry s.dev.cell t).cluster.toNat) :
    let s' := (fat12WriteFile (some w.name) (some w.data) w.len s).2
    Taken s'.dev.cell s'.sFatBuf := by
  simp only
  cases hm : s.sFatLoaded with
  | false =>
    rw [fat12WriteFile_of_guard (Or.inl hm)]
    exact h
  | true =>
    obtain ⟨hfail, hnone, hsome⟩ := fat12WriteFile_spec hm w.name w.data w.len
    generalize fat12WriteFile (some w.name) (some w.data) w.len s = out at *
    have hidle : Idle s out → Taken out.2.dev.cell out.2.sFatBuf := by
      rintro ⟨-, j, hd⟩
      rw [hd.cell, hd.fat]
      exact h
    by_cases hok : ScanOk s (nameToFat83 w.name)
    swap
    · exact hidle (hfail hok)
    rcases htg : target s.dev.cell s.sFatBuf (nameToFat83 w.name) with _ | ⟨t, cl⟩
    · exact hidle (hnone htg)
    have ht := target_slot_lt htg
    have hcl : DataCluster cl := by
      rcases target_cluster htg with ⟨-, h1, -⟩ | ⟨hl, rfl⟩
      · exact h1
      · exact hdata t hl
    have hlt : cl < 3072 := by
      have := hcl.2
      omega
    obtain ⟨-, j, hd⟩ := hsome hok t cl htg
    have hcell : out.2.dev.cell = Fat12.after s.dev.cell (fat12SetCluster s.sFatBuf cl 0xFFF)
        (nameToFat83 w.name) w.data (capLen w.len) t cl (done s (nameToFat83 w.name)) := hd.dev.cell
    rw [hcell, hd.fat]
    intro i hi hfr hreg hsize
    change fat12NextCluster (fat12SetCluster s.sFatBuf cl 0xFFF) _ ≠ 0
    rw [next_set _ _ hlt]
    rw [rootEntry_after ht hcl.lba.2.1 hi] at hfr hreg hsize ⊢
    by_cases hit : 2 ≤ done s (nameToFat83 w.name) ∧ i = t
    · rw [if_pos hit, newDirent_cluster _ _ (by omega), if_pos rfl]
      decide
    · rw [if_neg hit] at hfr hreg hsize ⊢
      by_cases hx : (rootEntry s.dev.cell i).cluster.toNat = cl
      · rw [if_pos hx]
        decide
      · rw [if_neg hx]
        exact h i hi hfr hreg hsize

theorem Taken.writeAll {ws : List WriteCall} {s : Driver} (h : Taken s.dev.cell s.sFatBuf)
    (hdata : InData ws s) : Taken (writeAll ws s).dev.cell (writeAll ws s).sFatBuf := by
  induction ws generalizing s with
  | nil => exact h
  | cons w ws ih => exact ih (h.write w hdata.1) hdata.2

/-- A new file is not given a cluster that a file on the disk has. -/
theorem Taken.fresh {c : ℕ → Sector} {fat : FatBuf} (h : Taken c fat) {n : Name83} {t cl : ℕ}
    (hnew : lookup c n = none) (htg : target c fat n = some (t, cl)) {i : ℕ} (hi : Live c i)
    (hreg : (rootEntry c i).isRegular = true) (hsize : (rootEntry c i).size ≠ 0) :
    (rootEntry c i).cluster.toNat ≠ cl := by
  rintro rfl
  rcases target_cluster htg with ⟨-, -, h0⟩ | ⟨hl, -⟩
  · exact h i hi.1 hi.2.1 hreg hsize h0
  · rw [hnew] at hl
    cases hl

/-- **The crash points of a creation.**  When the power is lost after `k` sector writes of a write of a
new file, the disk is safe exactly when the directory entry has not been written, or is empty or looks
deleted, or the sector of the first FAT with the entry of the new cluster has been written.  After a
safe crash and a remount, writes never give a cluster of a file to another one. -/
theorem crashSafe_iff {s : Driver} (hs : Synced s) {name : CStr}
    (hnew : lookup s.dev.cell (nameToFat83 name) = none) (buf : ℕ → UInt8) (len : ℕ) {k : ℕ}
    (hk : k ≤ (written s (fat12WriteFile (some name) (some buf) len s).2).length) :
    let crashed := crashDisk s (fat12WriteFile (some name) (some buf) len s).2 k
    (CrashSafe crashed ↔ k ≤ 1 ∨ len = 0 ∨ (nameToFat83 name).rd 0 = 0xE5 ∨
      3 + cellOff (fat12AllocCluster s.sFatBuf) / 512 ≤ k) ∧
    (CrashSafe crashed → ∀ s₀ s₁, s₀.dev.cell = crashed → fat12Init s₀ = (.ok, s₁) →
      ∀ ws, InData ws s₁ → ∀ n t cl,
        lookup (writeAll ws s₁).dev.cell n = none →
        target (writeAll ws s₁).dev.cell (writeAll ws s₁).sFatBuf n = some (t, cl) →
        ∀ i, Live (writeAll ws s₁).dev.cell i →
          (rootEntry (writeAll ws s₁).dev.cell i).isRegular = true →
          (rootEntry (writeAll ws s₁).dev.cell i).size ≠ 0 →
          (rootEntry (writeAll ws s₁).dev.cell i).cluster.toNat ≠ cl) := by
  simp only
  have htaken := hs.taken
  rw [hs.cache] at htaken
  obtain ⟨h1, h2⟩ : (CrashSafe (crashDisk s (fat12WriteFile (some name) (some buf) len s).2 k) →
        k ≤ 1 ∨ len = 0 ∨ (nameToFat83 name).rd 0 = 0xE5 ∨
          3 + cellOff (fat12AllocCluster s.sFatBuf) / 512 ≤ k) ∧
      (k ≤ 1 ∨ len = 0 ∨ (nameToFat83 name).rd 0 = 0xE5 ∨
          3 + cellOff (fat12AllocCluster s.sFatBuf) / 512 ≤ k →
        Taken (crashDisk s (fat12WriteFile (some name) (some buf) len s).2 k)
          (diskFat (crashDisk s (fat12WriteFile (some name) (some buf) len s).2 k))) := by
    rcases crashDisk_of_new hs.mounted hnew buf len hk with ⟨hk0, he⟩ | ⟨t, hslot, h0, he⟩ <;>
      rw [he]
    · exact ⟨fun _ => Or.inl (by omega), fun _ => htaken⟩
    · obtain ⟨a1, a2, a3⟩ := alloc_spec s.sFatBuf h0
      generalize fat12AllocCluster s.sFatBuf = cl at *
      have hcl : DataCluster cl := ⟨a1, by omega⟩
      have ht := (freeSlot_eq_some_iff.1 hslot).1
      rw [hs.cache] at a3 ⊢
      refine ⟨fun h => ?_, htaken.after ht hcl a3⟩
      by_contra hno
      rw [not_or, not_or, not_or] at hno
      obtain ⟨n1, n2, n3, n4⟩ := hno
      exact not_crashSafe_after hslot hcl a3 (nameToFat83_ne_zero name (by omega)) n3 n2 (by omega)
        (by omega) h
  refine ⟨⟨h1, fun h => (h2 h).crashSafe⟩, ?_⟩
  intro hsafe s₀ s₁ hcell hinit ws hdata n t cl hl htg i hi hreg hsize
  obtain ⟨-, hfat, hw⟩ := fat12Init_spec hinit
  have htaken' := h2 (h1 hsafe)
  rw [← hcell, ← hfat, ← show s₁.dev.cell = s₀.dev.cell from hw.cell] at htaken'
  exact (htaken'.writeAll hdata).fresh hl htg hi hreg hsize

theorem synced_blankDisk : Synced (.mounted blankDisk fun _ => false) := by
  obtain ⟨h1, h2, h3⟩ := mounted_spec blankDisk (f := fun _ => false) fun _ _ => rfl
  refine ⟨h1, by rw [h2, h3], by rw [h3]; exact diskFat2_blankDisk, ?_⟩
  rw [h3]
  intro i hi hfr
  rw [Dirent.isFree_of_isEnd (formatted_blankDisk.isEnd hi)] at hfr
  cases hfr

theorem lookup_blankDisk (n : Name83) : lookup blankDisk n = none :=
  lookup_eq_none_iff.2 fun _ hi _ =>
    Dirent.hits_eq_false_of_isFree (Dirent.isFree_of_isEnd (formatted_blankDisk.isEnd hi)) n

/-- A first write to a blank volume sends all its twenty sectors. -/
theorem length_written_blankDisk (name : CStr) (buf : ℕ → UInt8) (len : ℕ) :
    (written (.mounted blankDisk fun _ => false)
      (fat12WriteFile (some name) (some buf) len (.mounted blankDisk fun _ => false)).2).length =
        20 := by
  obtain ⟨h1, h2, h3⟩ := mounted_spec blankDisk (f := fun _ => false) fun _ _ => rfl
  generalize (Driver.mounted blankDisk fun _ => false) = s at *
  have hok : ∀ t, s.dev.fault t = false := by
    rw [h3]
    exact fun _ => rfl
  have htg : target s.dev.cell s.sFatBuf (nameToFat83 name) = some (0, 2) := by
    rw [h2, h3]
    exact formatted_blankDisk.target _
  rw [written_of_commits ((fat12WriteFile_spec h1 name buf len).2.2 (scanOk_of_never hok _) 0 2 htg),
    done_of_never hok, List.length_take, length_plan, Nat.min_self]

theorem alloc_blankDisk : fat12AllocCluster (diskFat blankDisk) = 2 :=
  (target_of_new (lookup_blankDisk (nameToFat83 [65])) (formatted_blankDisk.target _)).2.1.symm

/-- A crash behind the first FAT sector is safe, one before it is not. -/
theorem crashSafe_blankDisk :
    let s := Driver.mounted blankDisk fun _ => false
    let s' := (fat12WriteFile (some [65]) (some fun _ => 0) 1 s).2
    CrashSafe (crashDisk s s' 3) ∧ ¬ CrashSafe (crashDisk s s' 2) := by
  simp only
  obtain ⟨-, h2, h3⟩ := mounted_spec blankDisk (f := fun _ => false) fun _ _ => rfl
  have hlen := length_written_blankDisk [65] (fun _ => 0) 1
  have hnew : lookup (Driver.mounted blankDisk fun _ => false).dev.cell (nameToFat83 [65]) = none := by
    rw [h3]
    exact lookup_blankDisk _
  have halloc : cellOff (fat12AllocCluster (Driver.mounted blankDisk fun _ => false).sFatBuf) = 3 := by
    rw [h2, alloc_blankDisk]
    rfl
  have hE : (nameToFat83 [65]).rd 0 ≠ 0xE5 := nameToFat83_ne_E5 (by decide) (by omega)
  constructor
  · refine (crashSafe_iff synced_blankDisk hnew _ 1 (k := 3) (by omega)).1.2 (Or.inr (Or.inr (Or.inr ?_)))
    omega
  · intro hsafe
    obtain hk | hk | hk | hk := (crashSafe_iff synced_blankDisk hnew _ 1 (k := 2) (by omega)).1.1 hsafe
    · omega
    · omega
    · exact hE hk
    · omega

/-- On a blank volume, a crash after the second sector write leaves a file with a free cluster. -/
theorem blankDisk_not_crashSafe :
    ¬ ∀ (s : Driver), Synced s → ∀ (name : CStr), lookup s.dev.cell (nameToFat83 name) = none →
      ∀ (buf : ℕ → UInt8) (len k : ℕ),
        k ≤ (written s (fat12WriteFile (some name) (some buf) len s).2).length →
          CrashSafe (crashDisk s (fat12WriteFile (some name) (some buf) len s).2 k) := by
  intro hall
  obtain ⟨h1, h2, h3⟩ := mounted_spec blankDisk (f := fun _ => false) fun _ _ => rfl
  have hk := length_written_blankDisk [65] (fun _ => 0) 1
  have hsync := synced_blankDisk
  generalize (Driver.mounted blankDisk fun _ => false) = s at *
  have hl : lookup s.dev.cell (nameToFat83 [65]) = none := by
    rw [h3]
    exact lookup_blankDisk _
  have hsafe := hall s hsync [65] hl (fun _ => 0) 1 2 (by omega)
  rcases crashDisk_of_new h1 hl (fun _ => 0) 1 (k := 2) (by omega) with ⟨h0, -⟩ | ⟨t, hs, h0, he⟩
  · cases h0
  · obtain ⟨a1, a2, a3⟩ := alloc_spec s.sFatBuf h0
    rw [he] at hsafe
    generalize fat12AllocCluster s.sFatBuf = cl at *
    rw [hsync.cache] at hsafe a3
    exact not_crashSafe_after hs ⟨a1, by omega⟩ a3 (nameToFat83_ne_zero _ (by omega))
      (nameToFat83_ne_E5 (by decide) (by omega)) (by decide) (by decide) (by omega) hsafe

end AuraOS.Env.Fat12
