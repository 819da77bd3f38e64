import AuraOS.Env.Fat12.Crash

/-!
# Failed writes

What a call of `fat12WriteFile` that returns `-1` leaves behind.  There is no rollback: the cluster is
taken in the cached FAT before the first sector is written, and sectors written before the failing
operation stay.  `fat12WriteFile_leaves` bounds the damage: the cache differs at one entry, and on a
well-formed volume no other file is affected (`fileBytes_after`).
-/

namespace AuraOS.Env.Fat12

open AuraOS.Lib AuraOS.Kernel

/-! ### Other files in the middle of a write -/

/-- The directory and the cluster `cl` of slot `t` are well formed: behind an end marker there are only
end markers, and every other file is empty or has a cluster of its own in the data area. -/
structure Separate (c : ℕ → Sector) (t cl : ℕ) : Prop where
  closed : ∀ i j, i < j → j < 224 → (rootEntry c i).isEnd = true → (rootEntry c j).isEnd = true
  data : DataCluster cl
  entries : ∀ i, Live c i → i ≠ t → skipAttr (rootEntry c i).attr = false →
    (rootEntry c i).size = 0 ∨
      2 ≤ (rootEntry c i).cluster.toNat ∧ (rootEntry c i).cluster.toNat ≠ cl

/-- In a tidy directory a slot and a cluster that fit are apart from the other files. -/
theorem Tidy.separate {c : ℕ → Sector} {fat : FatBuf} {k t cl : ℕ} {n : Name83} (h : Tidy c fat k)
    (hf : Fits c k n t cl) : Separate c t cl := by
  refine ⟨fun i j hij hj hend => ?_, hf.data, fun i hi hit _ => ?_⟩
  · have hki : k ≤ i := by
      by_contra hlt
      rw [h.isEnd_eq_false (by omega)] at hend
      cases hend
    exact h.unused j hj (by omega)
  · have hik := h.lt_of_not_isFree hi.1 hi.2.1
    exact Or.inr ⟨(h.data i hik).1, (hf.other i hik hit).2⟩

theorem lookup_congr {c c' : ℕ → Sector} (h : ∀ i < 224, rootEntry c' i = rootEntry c i)
    (n : Name83) : lookup c' n = lookup c n := by
  have key : ∀ {a b : ℕ → Sector}, (∀ i < 224, rootEntry a i = rootEntry b i) →
      ∀ i, lookup b n = some i → lookup a n = some i := by
    intro a b hab i hi
    obtain ⟨h1, h2, h3⟩ := lookup_eq_some_iff.1 hi
    refine lookup_eq_some_iff.2 ⟨h1, by rwa [hab i h1], fun j hj => ?_⟩
    rw [hab j (by omega)]
    exact h3 j hj
  exact Option.ext fun i => ⟨key (fun i hi => (h i hi).symm) i, key h i⟩

section Other

variable {c : ℕ → Sector} {fat fat' : FatBuf} {n : Name83} {buf : ℕ → UInt8} {len t cl k : ℕ}

/-- The target of a write does not carry another name. -/
theorem target_not_hits (htg : target c fat n = some (t, cl)) {n' : Name83} (hne : n' ≠ n) :
    (rootEntry c t).hits n' = false := by
  cases hl : lookup c n with
  | none =>
    obtain ⟨hs, -, -⟩ := target_of_new hl htg
    exact Dirent.hits_eq_false_of_isFree (freeSlot_eq_some_iff.1 hs).2.1 n'
  | some i =>
    rw [target_of_found hl fat] at htg
    obtain ⟨rfl, -⟩ := Prod.mk.inj (Option.some.inj htg)
    by_contra hh
    have h1 := (Dirent.hits_iff.1 (show (rootEntry c i).hits n' = true by simpa using hh)).2.2.2
    exact hne (h1.symm.trans (lookup_live hl).2.2)

/-- **Another file is found at its place at any time of the write.** -/
theorem lookup_after (htg : target c fat n = some (t, cl)) (hsep : Separate c t cl)
    (h0 : n.rd 0 ≠ 0x00) {n' : Name83} (hne : n' ≠ n) :
    lookup (after c fat' n buf len t cl k) n' = lookup c n' := by
  have ht := target_slot_lt htg
  have hhit := target_not_hits htg hne
  have hentry : ∀ i < 224, i ≠ t →
      rootEntry (after c fat' n buf len t cl k) i = rootEntry c i := fun i hi hit => by
    rw [rootEntry_after ht hsep.data.lba.2.1 hi, if_neg (by omega)]
  by_cases hk : 2 ≤ k
  swap
  · exact lookup_congr (fun i hi => by rw [rootEntry_after ht hsep.data.lba.2.1 hi, if_neg (by omega)]) n'
  have hself : rootEntry (after c fat' n buf len t cl k) t = newDirent n cl len := by
    rw [rootEntry_after ht hsep.data.lba.2.1 ht, if_pos ⟨hk, rfl⟩]
  have hnew : (newDirent n cl len).hits n' = false := by
    by_contra hh
    have := (Dirent.hits_iff.1 (show (newDirent n cl len).hits n' = true by simpa using hh)).2.2.2
    exact hne this.symm
  refine Option.ext fun i => ⟨fun hi => ?_, fun hi => ?_⟩
  · obtain ⟨h1, h2, h3⟩ := lookup_eq_some_iff.1 hi
    have hit : i ≠ t := by
      rintro rfl
      rw [hself, hnew] at h2
      cases h2
    rw [hentry i h1 hit] at h2
    refine lookup_eq_some_iff.2 ⟨h1, h2, fun j hj => ?_⟩
    by_cases hjt : j = t
    · -- an end marker in slot `t` would have hidden the entry
      subst hjt
      refine ⟨?_, hhit⟩
      by_contra hend
      have := hsep.closed j i hj h1 (by simpa using hend)
      rw [Dirent.hits_eq_false_of_isFree (Dirent.isFree_of_isEnd this)] at h2
      cases h2
    · rw [← hentry j (by omega) hjt]
      exact h3 j hj
  · obtain ⟨h1, h2, h3⟩ := lookup_eq_some_iff.1 hi
    have hit : i ≠ t := by
      rintro rfl
      rw [hhit] at h2
      cases h2
    refine lookup_eq_some_iff.2 ⟨h1, by rwa [hentry i h1 hit], fun j hj => ?_⟩
    by_cases hjt : j = t
    · subst hjt
      rw [hself]
      exact ⟨newDirent_isEnd h0 cl len, hnew⟩
    · rw [hentry j (by omega) hjt]
      exact h3 j hj

/-- **Another file has its bytes at any time of the write.** -/
theorem fileBytes_after (htg : target c fat n = some (t, cl)) (hsep : Separate c t cl)
    (h0 : n.rd 0 ≠ 0x00) {n' : Name83} (hne : n' ≠ n) (m : ℕ) :
    fileBytes (after c fat' n buf len t cl k) n' m = fileBytes c n' m := by
  have ht := target_slot_lt htg
  unfold fileBytes
  rw [lookup_after htg hsep h0 hne]
  cases hi : lookup c n' with
  | none => rw [Option.map_none, Option.map_none]
  | some i =>
    obtain ⟨hlive, hskip, hname⟩ := lookup_live hi
    have hit : i ≠ t := by
      rintro rfl
      have := target_not_hits htg hne
      rw [(lookup_eq_some_iff.1 hi).2.1] at this
      cases this
    rw [Option.map_some, Option.map_some, rootEntry_after ht hsep.data.lba.2.1 hlive.1, if_neg (by omega)]
    obtain hsz | ⟨hdata, hcl⟩ := hsep.entries i hlive hit hskip
    · -- an empty file has no bytes, wherever its cluster number points
      rw [hsz]
      change some ((List.range (min (min 0 m) 512)).map _) = some ((List.range (min (min 0 m) 512)).map _)
      rw [Nat.zero_min, Nat.zero_min]
      rfl
    · have hlba := clusterToLba_eq (UInt16.toNat_lt (rootEntry c i).cluster)
      have hlba' := hsep.data.lba.1
      rw [after_data ht (by omega), if_neg fun e => hcl (by omega)]

end Other

/-! ### The written file -/

section Self

variable {c : ℕ → Sector} {fat fat' : FatBuf} {n : Name83} {buf : ℕ → UInt8} {len t cl k : ℕ}

/-- The written file is found in its slot. -/
theorem lookup_after_self (htg : target c fat n = some (t, cl)) (hcl : 33 ≤ clusterToLba cl)
    (h0 : n.rd 0 ≠ 0x00) (hE : n.rd 0 ≠ 0xE5) (hk : 2 ≤ k) :
    lookup (after c fat' n buf len t cl k) n = some t := by
  have ht := target_slot_lt htg
  have hself : rootEntry (after c fat' n buf len t cl k) t = newDirent n cl len := by
    rw [rootEntry_after ht hcl ht, if_pos ⟨hk, rfl⟩]
  refine lookup_eq_some_iff.2 ⟨ht, ?_, fun j hj => ?_⟩
  · rw [hself]
    unfold Dirent.hits
    rw [newDirent_isFree h0 hE]
    simp [newDirent, skipAttr, attrVolumeId, attrDir, attrLfn]
  · rw [rootEntry_after ht hcl (by omega), if_neg (by omega)]
    cases hl : lookup c n with
    | none =>
      have hfree := (target_of_new hl htg).1
      refine ⟨not_isEnd_of_freeSlot hfree hj, ?_⟩
      exact lookup_eq_none_iff.1 hl j (by omega) fun i hi => not_isEnd_of_freeSlot hfree (by omega)
    | some i =>
      rw [target_of_found hl fat] at htg
      obtain ⟨rfl, -⟩ := Prod.mk.inj (Option.some.inj htg)
      exact (lookup_eq_some_iff.1 hl).2.2 j hj

/-- **It has the bytes that were written.** -/
theorem fileBytes_after_self (htg : target c fat n = some (t, cl)) (hcl : 33 ≤ clusterToLba cl)
    (h0 : n.rd 0 ≠ 0x00) (hE : n.rd 0 ≠ 0xE5) (hk : 2 ≤ k) (hlen : len ≤ 512) (m : ℕ) :
    fileBytes (after c fat' n buf len t cl k) n m = some ((stored buf len).take m) := by
  have ht := target_slot_lt htg
  unfold fileBytes
  rw [lookup_after_self htg hcl h0 hE hk, Option.map_some, rootEntry_after ht hcl ht, if_pos ⟨hk, rfl⟩,
    newDirent_size _ _ hlen, newDirent_cluster _ _ (target_cluster_lt htg),
    after_data ht hcl, if_pos ⟨by omega, rfl⟩, take_stored]
  have hmin : min (min len m) 512 = min (min m 512) len := by omega
  rw [hmin]
  refine congrArg some (List.map_congr_left fun i hi => ?_)
  rw [List.mem_range] at hi
  unfold dataSector
  rw [Buf.rd_tab _ (show i < 512 by omega), if_pos (by omega)]

/-- A write succeeds on a mounted volume only. -/
theorem loaded_of_write {s : Driver} {name : CStr} {buf : ℕ → UInt8} {len : ℕ}
    (h : (fat12WriteFile (some name) (some buf) len s).1 ≠ none) : s.sFatLoaded = true := by
  by_contra hm
  have hnot : s.sFatLoaded = false := by simpa using hm
  exact h (by simp [fat12WriteFile, hnot])

/-- **A read returns what was written**, on a working disk, if the data went to the data area. -/
theorem read_of_write {s : Driver} (hok : ∀ t, s.dev.fault t = false) (name : CStr)
    (buf : ℕ → UInt8) (len : ℕ) (hE : (nameToFat83 name).rd 0 ≠ 0xE5)
    (hdata : ∀ t cl, target s.dev.cell s.sFatBuf (nameToFat83 name) = some (t, cl) → 2 ≤ cl)
    (hres : (fat12WriteFile (some name) (some buf) len s).1 ≠ none) {m : ℕ} (h0 : 0 < m) :
    (fat12ReadFile (some name) true m (fat12WriteFile (some name) (some buf) len s).2).1 =
      some ((stored buf len).take m) := by
  obtain ⟨h1, h2, h3⟩ := fat12WriteFile_of_ok (loaded_of_write hres) hok name buf len
  rw [fat12ReadFile_of_ok h1 h2 name h0]
  rcases htg : target s.dev.cell s.sFatBuf (nameToFat83 name) with _ | ⟨t, cl⟩
  · rw [htg] at h3
    exact absurd h3.1 hres
  · rw [htg] at h3
    have hcap : stored buf (capLen len) = stored buf len := by
      unfold stored
      rw [capLen_eq, Nat.min_assoc, Nat.min_self]
    have hlba : 33 ≤ clusterToLba cl := by
      have := hdata t cl htg
      rw [clusterToLba_eq (target_cluster_lt htg)]
      omega
    rw [h3.2.2, fileBytes_after_self htg hlba (nameToFat83_ne_zero name (by omega)) hE (by omega)
      (by rw [capLen_eq]; omega), hcap]

end Self

/-! ### The state after a failed call -/

/-- The driver once the disk works again. -/
def Driver.repaired (s : Driver) : Driver := { s with dev := { s.dev with fault := fun _ => false } }

theorem read_repaired {s : Driver} (hm : s.sFatLoaded = true) (name : CStr) {len : ℕ}
    (hlen : 0 < len) :
    (fat12ReadFile (some name) true len s.repaired).1 =
      fileBytes s.dev.cell (nameToFat83 name) len :=
  fat12ReadFile_of_ok (s := s.repaired) hm (fun _ => rfl) name hlen

/-- **What a write leaves behind**, whether or not it has failed.  If no slot or cluster was found,
nothing has changed.  Otherwise the cached FAT differs at most in the entry of the target cluster, and
it does unless that was the end of a chain already.  If the data sector could not be written, every read
returns what it did.  If it was written, this holds of the files of another name, and while the directory
entry has not been written also of a new name. -/
theorem fat12WriteFile_leaves {s : Driver} (hm : s.sFatLoaded = true) (name : CStr)
    (buf : ℕ → UInt8) (len : ℕ) :
    let n := nameToFat83 name
    let s' := (fat12WriteFile (some name) (some buf) len s).2
    let op := s.dev.ops + scanReads s.dev.cell n rootEntryCount 0
    let Kept := fun name' : CStr => ∀ m, 0 < m →
      (fat12ReadFile (some name') true m s'.repaired).1 =
        (fat12ReadFile (some name') true m s.repaired).1
    (¬ ScanOk s n ∨ target s.dev.cell s.sFatBuf n = none →
      s'.sFatBuf = s.sFatBuf ∧ ∀ name', Kept name') ∧
    (ScanOk s n → ∀ t cl, target s.dev.cell s.sFatBuf n = some (t, cl) →
      (∀ d, d ≠ cl → fat12NextCluster s'.sFatBuf d = fat12NextCluster s.sFatBuf d) ∧
      (s'.sFatBuf = s.sFatBuf ↔ fat12NextCluster s.sFatBuf cl = 0xFFF) ∧
      (s.dev.fault op = true → ∀ name', Kept name') ∧
      (Separate s.dev.cell t cl →
        (∀ name', nameToFat83 name' ≠ n → Kept name') ∧
        (lookup s.dev.cell n = none → s.dev.fault (op + 1) = true ∨ s.dev.fault (op + 2) = true →
          ∀ name', Kept name'))) := by
  obtain ⟨hfail, hnone, hsome⟩ := fat12WriteFile_spec hm name buf len
  simp only
  have h0 := nameToFat83_ne_zero name (show 0 < 11 by omega)
  generalize nameToFat83 name = n at *
  generalize fat12WriteFile (some name) (some buf) len s = out at *
  refine ⟨fun h => ?_, fun hok t cl htg => ?_⟩
  · obtain ⟨-, j, hd⟩ : Idle s out := h.elim hfail hnone
    refine ⟨hd.fat, fun name' m hlen => ?_⟩
    rw [read_repaired hm name' hlen, read_repaired (hd.loaded.trans hm) name' hlen, hd.cell]
  · obtain ⟨-, j, hd⟩ := hsome hok t cl htg
    have ht := target_slot_lt htg
    have hm' : out.2.sFatLoaded = true := hd.loaded.trans hm
    have hfat : out.2.sFatBuf = fat12SetCluster s.sFatBuf cl 0xFFF := hd.fat
    have hcell : out.2.dev.cell = after s.dev.cell (fat12SetCluster s.sFatBuf cl 0xFFF) n buf
        (capLen len) t cl (done s n) := hd.dev.cell
    refine ⟨fun d hne => by rw [hfat, next_set_of_ne _ _ hne], ⟨fun he => ?_, fun he => ?_⟩,
      fun h name' m hlen => ?_, fun hsep => ⟨fun name' hne m hlen => ?_, fun hl h name' m hlen => ?_⟩⟩
    · by_cases hlt : cl < 3072
      · rw [← he, hfat, next_set_self _ _ hlt]
      · exact next_out _ (by omega)
    · rw [hfat]
      exact set_eq_self _ _ he
    · have hk : done s n = 0 := progress_eq_zero_iff.2 h
      rw [read_repaired hm name' hlen, read_repaired hm' name' hlen, hcell, hk, after_zero]
    · rw [read_repaired hm name' hlen, read_repaired hm' name' hlen, hcell,
        fileBytes_after htg hsep h0 hne]
    · rw [read_repaired hm name' hlen, read_repaired hm' name' hlen, hcell]
      by_cases hne : nameToFat83 name' = n
      · -- the directory has not been written: the new file is not there yet
        have hk : done s n ≤ 1 := progress_le_one_iff.2 (Or.inr h)
        have hl' : lookup (after s.dev.cell (fat12SetCluster s.sFatBuf cl 0xFFF) n buf (capLen len) t cl
            (done s n)) n = none := by
          rw [← hl]
          exact lookup_congr (fun i hi => by
            rw [rootEntry_after ht hsep.data.lba.2.1 hi, if_neg (by omega)]) n
        rw [hne]
        unfold fileBytes
        rw [hl, hl', Option.map_none, Option.map_none]
      · exact fileBytes_after htg hsep h0 hne m

section OneFile

/-- The FAT of a volume with one file, in cluster 2. -/
def oneFileFat : FatBuf := fat12SetCluster (diskFat blankDisk) 2 0xFFF

/-- A volume with one file `B` that holds the letter `M`. -/
def oneFileDisk : ℕ → Sector := after blankDisk oneFileFat (nameToFat83 [66]) (fun _ => 77) 1 0 2 20

theorem fits_blankDisk (n : Name83) : Fits blankDisk 0 n 0 2 :=
  (formatted_blankDisk.tidy _).fits (formatted_blankDisk.target n)

theorem tidy_oneFileDisk : Tidy oneFileDisk oneFileFat 1 :=
  (formatted_blankDisk.tidy _).after (fits_blankDisk _) (nameToFat83_ne_zero _ (by omega))
    (nameToFat83_ne_E5 (by decide) (by omega)) _ _

theorem owned_oneFileDisk : Owned oneFileDisk oneFileFat 1 :=
  formatted_blankDisk.owned.after (by omega) (fits_blankDisk _) (fun h => absurd h (by omega)) _ _

theorem lookup_oneFileDisk : lookup oneFileDisk (nameToFat83 [65]) = none := by
  cases hl : lookup oneFileDisk (nameToFat83 [65]) with
  | none => rfl
  | some i =>
    obtain ⟨hi, hname⟩ := tidy_oneFileDisk.lookup_eq_some_iff.1 hl
    obtain rfl : i = 0 := by omega
    unfold oneFileDisk at hname
    rw [rootEntry_after (by omega) (by decide) (by omega), if_pos ⟨by omega, rfl⟩] at hname
    exact absurd (show nameToFat83 [66] = nameToFat83 [65] from hname) (by decide)

theorem target_oneFileDisk :
    target oneFileDisk oneFileFat (nameToFat83 [65]) = some (1, fat12AllocCluster oneFileFat) := by
  rw [tidy_oneFileDisk.target_eq owned_oneFileDisk, lookup_oneFileDisk]
  rfl

/-- The scan for a new file reads the slot of `B` and the one behind it. -/
theorem scanReads_oneFileDisk : scanReads oneFileDisk (nameToFat83 [65]) rootEntryCount 0 = 2 := by
  have h0 : stopsAt oneFileDisk (nameToFat83 [65]) 0 = false := by
    unfold stopsAt
    rw [tidy_oneFileDisk.isEnd_eq_false (by omega), Bool.false_or]
    by_contra hh
    have hname := (tidy_oneFileDisk.hits_iff (i := 0) (by omega) _).1 (by simpa using hh)
    have := tidy_oneFileDisk.lookup_eq_some_iff.2 ⟨by omega, hname⟩
    rw [lookup_oneFileDisk] at this
    cases this
  have h1 : stopsAt oneFileDisk (nameToFat83 [65]) 1 = true := by
    unfold stopsAt
    rw [tidy_oneFileDisk.unused 1 (by omega) (Nat.le_refl 1), Bool.true_or]
  rw [show rootEntryCount = 222 + 1 + 1 from rfl]
  unfold scanReads
  rw [h0, if_neg (by decide)]
  unfold scanReads
  rw [h1, if_pos rfl]

/-- The write of the new directory entry fails: every file reads as before, and `B` as it was written. -/
theorem fat12WriteFile_leaves_oneFileDisk :
    let s := Driver.mounted oneFileDisk fun t => t = 13
    let s' := (fat12WriteFile (some [65]) (some fun _ => 0) 1 s).2
    (∀ name' : CStr, ∀ m, 0 < m →
      (fat12ReadFile (some name') true m s'.repaired).1 =
        (fat12ReadFile (some name') true m s.repaired).1) ∧
      (fat12ReadFile (some [66]) true 512 s'.repaired).1 = some [77] ∧ s'.sFatBuf ≠ s.sFatBuf := by
  obtain ⟨h1, h2, h3⟩ := mounted_spec oneFileDisk (f := fun t => t = 13) (by decide)
  have hfat : diskFat oneFileDisk = oneFileFat := diskFat_after_all _ _ _ _ _ _ _
  have htidy := tidy_oneFileDisk
  have htg := target_oneFileDisk
  have hreads := scanReads_oneFileDisk
  rw [hfat] at h2
  have hok : ScanOk (Driver.mounted oneFileDisk fun t => t = 13) (nameToFat83 [65]) := by
    unfold ScanOk
    rw [h3, hreads]
    decide
  have hfree := alloc_spec oneFileFat (owned_oneFileDisk.alloc_ne_zero (by omega))
  have hsep := htidy.separate (htidy.fits htg)
  obtain ⟨-, hsome⟩ := fat12WriteFile_leaves h1 [65] (fun _ => 0) 1
  obtain ⟨-, hsame, -, hkept⟩ := hsome hok 1 (fat12AllocCluster oneFileFat) (by rw [h2, h3]; exact htg)
  have hall := (hkept (by rw [h3]; exact hsep)).2 (by rw [h3]; exact lookup_oneFileDisk)
    (Or.inr (by
      rw [h3]
      simp only [hreads]
      rfl))
  refine ⟨hall, ?_, fun he => ?_⟩
  · rw [hall [66] 512 (by omega), read_repaired h1 [66] (by omega), h3]
    exact fileBytes_after_self (formatted_blankDisk.target _) (by decide)
      (nameToFat83_ne_zero _ (by omega)) (nameToFat83_ne_E5 (by decide) (by omega)) (by omega) (by omega) 512
  · have := hsame.1 he
    rw [h2, hfree.2.2] at this
    cases this

end OneFile

section Blank

/-- A disk whose only failing operation is the write of the data sector of a first file. -/
theorem scanOk_blankDisk (n : Name83) : ScanOk (.mounted blankDisk fun t => t = 10) n := by
  obtain ⟨-, -, h3⟩ := mounted_spec blankDisk (f := fun t => t = 10) (by decide)
  unfold ScanOk
  rw [h3, formatted_blankDisk.scanReads]
  decide

theorem target_blankDisk (f : ℕ → Bool) (h : ∀ t < 9, f t = false) (n : Name83) :
    target (Driver.mounted blankDisk f).dev.cell (Driver.mounted blankDisk f).sFatBuf n =
      some (0, 2) := by
  obtain ⟨-, h2, h3⟩ := mounted_spec blankDisk h
  rw [h2, h3]
  exact formatted_blankDisk.target n

theorem fault_blankDisk (n : Name83) :
    (Driver.mounted blankDisk fun t => t = 10).dev.fault
      ((Driver.mounted blankDisk fun t => t = 10).dev.ops +
        scanReads (Driver.mounted blankDisk fun t => t = 10).dev.cell n rootEntryCount 0) = true := by
  obtain ⟨-, -, h3⟩ := mounted_spec blankDisk (f := fun t => t = 10) (by decide)
  rw [h3]
  simp only [formatted_blankDisk.scanReads]
  rfl

/-- A failing data sector leaves the cluster taken in the cached FAT. -/
theorem blankDisk_not_atomic :
    ¬ ∀ (s : Driver), s.sFatLoaded = true → (∃ x, ∀ t, s.dev.fault t = decide (t = x)) →
      ∀ (name : CStr) (buf : ℕ → UInt8) (len : ℕ),
        (fat12WriteFile (some name) (some buf) len s).1 = none →
        (fat12WriteFile (some name) (some buf) len s).2.sFatBuf = s.sFatBuf ∧
        ∀ name' m, 0 < m →
          (fat12ReadFile (some name') true m
              (fat12WriteFile (some name) (some buf) len s).2.repaired).1 =
            (fat12ReadFile (some name') true m s.repaired).1 := by
  intro hall
  obtain ⟨h1, h2, h3⟩ := mounted_spec blankDisk (f := fun t => t = 10) (by decide)
  have hok := scanOk_blankDisk (nameToFat83 [65])
  have htg := target_blankDisk (fun t => t = 10) (by decide) (nameToFat83 [65])
  have hf := fault_blankDisk (nameToFat83 [65])
  generalize (Driver.mounted blankDisk fun t => t = 10) = s at *
  obtain ⟨hr, j, hd⟩ := (fat12WriteFile_spec h1 [65] (fun _ => 0) 1).2.2 hok 0 2 htg
  have hk : done s (nameToFat83 [65]) = 0 := progress_eq_zero_iff.2 hf
  rw [hk, if_neg (by decide)] at hr
  obtain ⟨hcache, -⟩ := hall s h1 ⟨10, fun t => by rw [h3]⟩ [65] (fun _ => 0) 1 hr
  -- cluster 2 was free
  have hself : fat12NextCluster (fat12SetCluster s.sFatBuf 2 0xFFF) 2 = 0xFFF % 4096 :=
    next_set_self _ _ (by decide)
  rw [show fat12SetCluster s.sFatBuf 2 0xFFF = s.sFatBuf from hd.fat.symm.trans hcache, h2,
    formatted_blankDisk.free 2 (by decide)] at hself
  cases hself

end Blank

end AuraOS.Env.Fat12
