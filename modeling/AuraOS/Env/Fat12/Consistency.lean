import AuraOS.Lib.Linked
import AuraOS.Env.Fat12.Frame

/-!
# Volume consistency

A FAT12 volume as a `Volume` with linked allocation: its objects are the regular files and directories
of the root directory and, by way of their clusters, of all subdirectories.  A successful write sets
one slot of the root directory to a file of one cluster (`sets_of_commits`), so that it keeps the
volume consistent exactly when `KeepsVolume` holds: the rest of a longer chain is not freed.
-/

namespace AuraOS.Env.Fat12

open AuraOS.Lib AuraOS.Kernel

/-! ### The objects of a volume -/

/-- A directory slot: of the root directory, or of the sector of cluster `x`. -/
inductive Loc where
  | root (i : ℕ)
  | sub (x i : ℕ)
  deriving DecidableEq

/-- The entry in a slot. -/
def entryAt (c : ℕ → Sector) : Loc → Dirent
  | .root i => rootEntry c i
  | .sub x i => direntAt (c (clusterToLba x)) (i * 32)

/-- The entry of a regular file or directory, and not of a volume label, a long name, or the directory
itself or its parent under the names `.` and `..`.  The format has only end markers behind an end
marker, so that a slot is in use when it is not free. -/
def Dirent.isObject (de : Dirent) : Bool :=
  !de.isFree && de.name.rd 0 ≠ 0x2E && de.attr &&& 0x08 = 0

def Dirent.isDirectory (de : Dirent) : Bool := de.attr &&& 0x10 ≠ 0

/-- What the FAT says of a cluster. -/
def fatLink (fat : FatBuf) (x : ℕ) : Link :=
  if fat12NextCluster fat x = 0 then .free
  else if 0xFF8 ≤ fat12NextCluster fat x then .last
  else .to (fat12NextCluster fat x)

/-- The volume of a mounted driver. -/
def volume (s : Driver) : Volume Loc where
  data := DataCluster
  next := fatLink s.sFatBuf
  root p := ∃ i < 224, p = .root i
  slot x p := DataCluster x ∧ ∃ i < 16, p = .sub x i
  obj p := (entryAt s.dev.cell p).isObject = true
  dir p := (entryAt s.dev.cell p).isDirectory = true
  head p :=
    if (entryAt s.dev.cell p).cluster = 0 then none else some (entryAt s.dev.cell p).cluster.toNat

/-- **A consistent mounted volume**: the FAT begins with the media descriptor, the root directory has
only end markers behind an end marker, volume labels and long names have no cluster, and the chains of
the files and directories are disjoint and cover all clusters in use. -/
structure ConsistentVolume (s : Driver) : Prop where
  media : fat12NextCluster s.sFatBuf 0 = 0xFF0
  closed : ∀ i j, i < j → j < 224 → (rootEntry s.dev.cell i).isEnd = true →
    (rootEntry s.dev.cell j).isEnd = true
  labels : ∀ i < 224, (rootEntry s.dev.cell i).isFree = false →
    (rootEntry s.dev.cell i).attr &&& 0x08 ≠ 0 → (rootEntry s.dev.cell i).cluster = 0
  chains : (volume s).Consistent

theorem fatLink_eq_free_iff {fat : FatBuf} {x : ℕ} :
    fatLink fat x = .free ↔ fat12NextCluster fat x = 0 := by
  unfold fatLink
  split
  · simpa
  · split <;> simpa

theorem fatLink_eq_last_iff {fat : FatBuf} {x : ℕ} :
    fatLink fat x = .last ↔ 0xFF8 ≤ fat12NextCluster fat x := by
  unfold fatLink
  split
  · rename_i h
    simp [h]
  · split
    · simpa
    · rename_i h
      simp only [reduceCtorEq, false_iff]
      exact h

theorem volume_layout (s : Driver) : (volume s).Layout := by
  constructor
  · rintro p x ⟨i, -, rfl⟩ ⟨-, j, -, h⟩
    cases h
  · rintro p x y ⟨-, i, -, rfl⟩ ⟨-, j, -, h⟩
    cases h
    rfl

theorem head_eq_none_iff {s : Driver} {p : Loc} :
    (volume s).head p = none ↔ (entryAt s.dev.cell p).cluster = 0 := by
  change (if (entryAt s.dev.cell p).cluster = 0 then none else _) = none ↔ _
  split <;> simpa

theorem head_of_ne_zero {s : Driver} {p : Loc} (h : (entryAt s.dev.cell p).cluster ≠ 0) :
    (volume s).head p = some (entryAt s.dev.cell p).cluster.toNat := if_neg h

/-! ### What a successful write does to the volume -/

/-- A write keeps the volume when it creates a file whose 8.3 form does not look deleted, or finds an
entry whose chain is a single cluster, which is not a directory of objects with clusters. -/
def KeepsVolume (s : Driver) (n : Name83) : Prop :=
  match lookup s.dev.cell n with
  | none => n.rd 0 ≠ 0xE5
  | some t =>
    let cl := (rootEntry s.dev.cell t).cluster.toNat
    2 ≤ cl ∧ 0xFF8 ≤ fat12NextCluster s.sFatBuf cl ∧
      ((rootEntry s.dev.cell t).isDirectory = true → ∀ i < 16,
        (entryAt s.dev.cell (.sub cl i)).isObject = true →
          (entryAt s.dev.cell (.sub cl i)).cluster = 0)

section Step

variable {s : Driver} {n : Name83} {buf : ℕ → UInt8} {len t cl : ℕ} {out : Option ℕ × Driver}

theorem newDirent_isObject (h0 : n.rd 0 ≠ 0x00) (hdot : n.rd 0 ≠ 0x2E) (cl len : ℕ) :
    (newDirent n cl len).isObject = true ↔ n.rd 0 ≠ 0xE5 := by
  have hattr : (0x20 : UInt8) &&& 0x08 = 0 := by decide
  unfold Dirent.isObject Dirent.isFree newDirent
  simp [h0, hdot, hattr]

/-- The state after a write that succeeds. -/
theorem commits_done (h : Commits s n buf len t cl out) (hres : out.1 ≠ none) :
    out.2.dev.cell = after s.dev.cell (fat12SetCluster s.sFatBuf cl 0xFFF) n buf len t cl 20 ∧
      out.2.sFatBuf = fat12SetCluster s.sFatBuf cl 0xFFF := by
  obtain ⟨hr, j, hd⟩ := h
  have hk : done s n = 20 := by
    by_contra hk
    rw [hr, if_neg hk] at hres
    exact hres rfl
  rw [hk] at hd
  exact ⟨hd.dev.cell, hd.fat⟩

/-- **A successful write sets its slot to a file of one cluster.** -/
theorem sets_of_commits (htg : target s.dev.cell s.sFatBuf n = some (t, cl)) (hcl : DataCluster cl)
    (h : Commits s n buf len t cl out) (hres : out.1 ≠ none) :
    Volume.Sets (volume s) (volume out.2) (.root t) cl := by
  obtain ⟨hcell, hfat⟩ := commits_done h hres
  have ht := target_slot_lt htg
  have hlt : cl < 3072 := by
    have := hcl.2
    omega
  have hself : entryAt out.2.dev.cell (.root t) = newDirent n cl len := by
    change rootEntry out.2.dev.cell t = _
    rw [hcell, rootEntry_after ht hcl.lba.2.1 ht, if_pos (by omega)]
  have hnum := newDirent_cluster n len (show cl < 65536 by omega)
  refine ⟨volume_layout s, ⟨t, ht, rfl⟩, hcl, rfl, rfl, rfl, fun x hx => ?_, ?_, ?_, ?_,
    fun q hq hloc => ?_⟩
  · change fatLink out.2.sFatBuf x = fatLink s.sFatBuf x
    unfold fatLink
    rw [hfat, next_set_of_ne _ _ hx]
  · change fatLink out.2.sFatBuf cl = .last
    rw [fatLink_eq_last_iff, hfat, next_set_self _ _ hlt]
    decide
  · have hne : (entryAt out.2.dev.cell (.root t)).cluster ≠ 0 := by
      rw [hself]
      intro e
      rw [e] at hnum
      have := hcl.1
      change 0 = cl at hnum
      omega
    rw [head_of_ne_zero hne, hself, hnum]
  · change ¬ (entryAt out.2.dev.cell (.root t)).isDirectory = true
    rw [hself]
    change ¬ decide ((0x20 : UInt8) &&& 0x10 ≠ 0) = true
    decide
  · have hsame : entryAt out.2.dev.cell q = entryAt s.dev.cell q := by
      rcases hloc with ⟨i, hi, rfl⟩ | ⟨x, hx, hxd, i, hi, rfl⟩
      · change rootEntry out.2.dev.cell i = rootEntry s.dev.cell i
        have hit : i ≠ t := fun e => hq (by rw [e])
        rw [hcell, rootEntry_after ht hcl.lba.2.1 hi, if_neg (by omega)]
      · change direntAt (out.2.dev.cell (clusterToLba x)) _ = direntAt (s.dev.cell (clusterToLba x)) _
        have h1 := hxd.lba
        have h2 := hcl.lba
        rw [hcell, after_data ht h1.2.1, if_neg (by omega)]
    change ((entryAt out.2.dev.cell q).isObject = true ↔ _) ∧
      ((entryAt out.2.dev.cell q).isDirectory = true ↔ _) ∧
      (if (entryAt out.2.dev.cell q).cluster = 0 then none else _) = _
    rw [hsame]
    exact ⟨Iff.rfl, Iff.rfl, rfl⟩

/-- The rest of a consistent volume is kept when the target is a data cluster. -/
theorem consistentVolume_iff_chains (hc : ConsistentVolume s)
    (htg : target s.dev.cell s.sFatBuf n = some (t, cl)) (hcl : DataCluster cl) (h0 : n.rd 0 ≠ 0x00)
    (h : Commits s n buf len t cl out) (hres : out.1 ≠ none) :
    ConsistentVolume out.2 ↔ (volume out.2).Consistent := by
  refine ⟨fun h => h.chains, fun hch => ?_⟩
  obtain ⟨hcell, hfat⟩ := commits_done h hres
  have ht := target_slot_lt htg
  have hentry : ∀ i < 224, rootEntry out.2.dev.cell i =
      if i = t then newDirent n cl len else rootEntry s.dev.cell i := fun i hi => by
    rw [hcell, rootEntry_after ht hcl.lba.2.1 hi]
    exact if_congr (by omega) rfl rfl
  refine ⟨?_, fun i j hij hj he => ?_, fun i hi hfr hattr => ?_, hch⟩
  · rw [hfat, next_set_of_ne _ _ (by have := hcl.1; omega), hc.media]
  · rw [hentry i (by omega)] at he
    rw [hentry j hj]
    by_cases hit : i = t
    · rw [if_pos hit, newDirent_isEnd h0] at he
      cases he
    rw [if_neg hit] at he
    have hend := hc.closed i j hij hj he
    -- the target lies before the end marker
    have hjt : j ≠ t := by
      rintro rfl
      cases hl : lookup s.dev.cell n with
      | none =>
        rw [not_isEnd_of_freeSlot (target_of_new hl htg).1 hij] at he
        cases he
      | some k =>
        rw [target_of_found hl s.sFatBuf] at htg
        obtain ⟨rfl, -⟩ := Prod.mk.inj (Option.some.inj htg)
        rw [(lookup_live hl).1.2.2 i hij] at he
        cases he
    rw [if_neg hjt]
    exact hend
  · rw [hentry i hi] at hfr hattr ⊢
    by_cases hit : i = t
    · rw [if_pos hit] at hattr
      exact absurd (show (newDirent n cl len).attr &&& 0x08 = 0 from by
        change (0x20 : UInt8) &&& 0x08 = 0
        decide) hattr
    · rw [if_neg hit] at hfr hattr ⊢
      exact hc.labels i hi hfr hattr

/-- A write to cluster 0 destroys the media descriptor. -/
theorem not_consistentVolume_of_zero (h : Commits s n buf len t 0 out) (hres : out.1 ≠ none) :
    ¬ ConsistentVolume out.2 := by
  intro hc
  have hm := hc.media
  rw [(commits_done h hres).2, next_set_self _ _ (by decide)] at hm
  exact absurd hm (by decide)

/-- An entry that the scan finds on a consistent volume has no cluster, or is an object with a chain in
the data area. -/
theorem ConsistentVolume.found (hc : ConsistentVolume s) (hdot : n.rd 0 ≠ 0x2E)
    (hl : lookup s.dev.cell n = some t) :
    (rootEntry s.dev.cell t).cluster = 0 ∨
      ((rootEntry s.dev.cell t).isObject = true ∧
        DataCluster (rootEntry s.dev.cell t).cluster.toNat) := by
  obtain ⟨⟨ht, hfr, -⟩, -, hname⟩ := lookup_live hl
  by_cases h0 : (rootEntry s.dev.cell t).cluster = 0
  · exact Or.inl h0
  have hattr : (rootEntry s.dev.cell t).attr &&& 0x08 = 0 := by
    by_contra hattr
    exact h0 (hc.labels t ht hfr hattr)
  have hobj : (rootEntry s.dev.cell t).isObject = true := by
    unfold Dirent.isObject
    rw [hfr, hname, hattr]
    simp [hdot]
  refine Or.inr ⟨hobj, ?_⟩
  obtain ⟨l, hch⟩ := hc.chains.chained (.root t) (.top ⟨t, ht, rfl⟩ hobj) _ (head_of_ne_zero h0)
  exact (hch.mem hch.head_mem).1

/-- **One successful write.** -/
theorem consistentVolume_commits_iff (hc : ConsistentVolume s)
    (htg : target s.dev.cell s.sFatBuf n = some (t, cl)) (h0 : n.rd 0 ≠ 0x00) (hdot : n.rd 0 ≠ 0x2E)
    (h : Commits s n buf len t cl out) (hres : out.1 ≠ none) :
    ConsistentVolume out.2 ↔ KeepsVolume s n := by
  have hself : DataCluster cl → entryAt out.2.dev.cell (.root t) = newDirent n cl len := by
    intro hcl
    have ht := target_slot_lt htg
    change rootEntry out.2.dev.cell t = _
    rw [(commits_done h hres).1, rootEntry_after ht hcl.lba.2.1 ht, if_pos (by omega)]
  unfold KeepsVolume
  rcases target_cluster htg with ⟨hl, hcl, hfree⟩ | ⟨hl, rfl⟩
  · -- a new file
    have hobj : ¬ (volume s).obj (.root t) := by
      change ¬ (rootEntry s.dev.cell t).isObject = true
      unfold Dirent.isObject
      rw [(freeSlot_eq_some_iff.1 (target_of_new hl htg).1).2.1]
      simp
    rw [hl, consistentVolume_iff_chains hc htg hcl h0 h hres,
      (sets_of_commits htg hcl h hres).consistent_iff_of_new hc.chains
        (fatLink_eq_free_iff.2 hfree) hobj]
    change (entryAt out.2.dev.cell (.root t)).isObject = true ↔ _
    rw [hself hcl, newDirent_isObject h0 hdot]
  · rw [hl]
    simp only
    rcases hc.found hdot hl with hzero | ⟨hobj, hcl⟩
    · -- an empty file
      rw [hzero] at h ⊢
      have h1 := not_consistentVolume_of_zero h hres
      exact ⟨fun h2 => absurd h2 h1, fun h2 => absurd h2.1 (by decide)⟩
    · have hE : n.rd 0 ≠ 0xE5 := by
        obtain ⟨⟨-, hfr, -⟩, -, hname⟩ := lookup_live hl
        rintro e
        unfold Dirent.isFree at hfr
        rw [hname, e] at hfr
        simp at hfr
      have hne : (entryAt s.dev.cell (.root t)).cluster ≠ 0 := by
        intro e
        have := hcl.1
        change (rootEntry s.dev.cell t).cluster = 0 at e
        rw [e] at this
        exact absurd this (by decide)
      have hobj' : (volume out.2).obj (.root t) := by
        change (entryAt out.2.dev.cell (.root t)).isObject = true
        rw [hself hcl]
        exact (newDirent_isObject h0 hdot _ _).2 hE
      rw [consistentVolume_iff_chains hc htg hcl h0 h hres,
        (sets_of_commits htg hcl h hres).consistent_iff_of_old hc.chains hobj (head_of_ne_zero hne)
          hobj']
      change fatLink s.sFatBuf _ = .last ∧ _ ↔ _
      rw [fatLink_eq_last_iff]
      constructor
      · rintro ⟨h1, h2⟩
        refine ⟨hcl.1, h1, fun hdir i hi hio => ?_⟩
        exact head_eq_none_iff.1 (h2 hdir (.sub _ i) ⟨hcl, i, hi, rfl⟩ hio)
      · rintro ⟨-, h1, h2⟩
        refine ⟨h1, fun hdir q hq hqo => head_eq_none_iff.2 ?_⟩
        obtain ⟨-, i, hi, rfl⟩ := hq
        exact h2 hdir i hi hqo

end Step

/-- The target that a successful write has used. -/
theorem target_of_ne_none {s : Driver} {name : Option CStr} {buf : Option (ℕ → UInt8)} {len : ℕ}
    (hres : (fat12WriteFile name buf len s).1 ≠ none) :
    ∃ name' buf' t cl, name = some name' ∧ buf = some buf' ∧
      target s.dev.cell s.sFatBuf (nameToFat83 name') = some (t, cl) ∧
      Commits s (nameToFat83 name') buf' (capLen len) t cl (fat12WriteFile name buf len s) := by
  by_cases hguard : s.sFatLoaded = false ∨ name = none ∨ buf = none
  · rw [fat12WriteFile_of_guard hguard] at hres
    exact absurd rfl hres
  rw [not_or, not_or] at hguard
  obtain ⟨hm, hn, hb⟩ := hguard
  obtain ⟨name', rfl⟩ := Option.ne_none_iff_exists'.1 hn
  obtain ⟨buf', rfl⟩ := Option.ne_none_iff_exists'.1 hb
  obtain ⟨hfail, hnone, hsome⟩ := fat12WriteFile_spec (by simpa using hm) name' buf' len
  by_cases hok : ScanOk s (nameToFat83 name')
  swap
  · exact absurd (hfail hok).result hres
  rcases htg : target s.dev.cell s.sFatBuf (nameToFat83 name') with _ | ⟨t, cl⟩
  · exact absurd (hnone htg).result hres
  · exact ⟨name', buf', t, cl, rfl, rfl, htg, hsome hok t cl htg⟩

/-- **A successful write keeps a volume consistent** exactly when it creates a file whose 8.3 form does
not look deleted, or overwrites an entry whose chain is a single cluster. -/
theorem fat12WriteFile_consistent_iff {s : Driver} (hc : ConsistentVolume s) (name : CStr)
    (buf : ℕ → UInt8) (len : ℕ) (hres : (fat12WriteFile (some name) (some buf) len s).1 ≠ none) :
    ConsistentVolume (fat12WriteFile (some name) (some buf) len s).2 ↔
      KeepsVolume s (nameToFat83 name) := by
  obtain ⟨name', buf', t, cl, hn, hb, htg, h⟩ := target_of_ne_none hres
  cases hn
  cases hb
  exact consistentVolume_commits_iff hc htg (nameToFat83_ne_zero name (by omega))
    (nameToFat83_ne_dot name (by omega)) h hres

/-! ### A file of two clusters -/

/-- The FAT of a volume with one file, in the clusters 2 and 3. -/
def twoClusterFat : FatBuf := fat12SetCluster (fat12SetCluster (diskFat blankDisk) 2 3) 3 0xFFF

/-- A volume with one file `A` of 600 bytes. -/
def twoClusterDisk : ℕ → Sector :=
  withEntry (withFat blankDisk twoClusterFat) 0 (newDirent (nameToFat83 [65]) 2 600)

/-- The driver that has mounted it, on a disk that works. -/
def twoClusterDriver : Driver := .mounted twoClusterDisk fun _ => false

theorem twoClusterDriver_spec : twoClusterDriver.sFatLoaded = true ∧
    twoClusterDriver.sFatBuf = twoClusterFat ∧ twoClusterDriver.dev.cell = twoClusterDisk ∧
    ∀ t, twoClusterDriver.dev.fault t = false := by
  obtain ⟨h1, h2, h3⟩ := mounted_spec twoClusterDisk (f := fun _ => false) fun _ _ => rfl
  refine ⟨h1, h2.trans ?_, congrArg Device.cell h3, fun t => ?_⟩
  · unfold twoClusterDisk
    rw [diskFat_withEntry, diskFat_withFat]
  · exact congrFun (congrArg Device.fault h3) t

theorem next_twoClusterFat (x : ℕ) : fat12NextCluster twoClusterFat x =
    if x = 3 then 0xFFF else if x = 2 then 3 else fat12NextCluster (diskFat blankDisk) x := by
  unfold twoClusterFat
  rw [next_set _ _ (by omega), next_set _ _ (by omega)]

theorem rootEntry_twoClusterDisk (i : ℕ) : rootEntry twoClusterDisk i =
    if i = 0 then newDirent (nameToFat83 [65]) 2 600 else rootEntry blankDisk i := by
  unfold twoClusterDisk
  rw [rootEntry_withEntry, rootEntry_withFat]

theorem consistentVolume_of_twoClusters {s : Driver} (hfat : s.sFatBuf = twoClusterFat)
    (hcell : s.dev.cell = twoClusterDisk) : ConsistentVolume s := by
  have hblank : ∀ i, i ≠ 0 → i < 224 → (rootEntry twoClusterDisk i).isEnd = true := by
    intro i hi hi'
    rw [rootEntry_twoClusterDisk, if_neg hi]
    exact formatted_blankDisk.isEnd hi'
  have hfile : rootEntry twoClusterDisk 0 = newDirent (nameToFat83 [65]) 2 600 := by
    rw [rootEntry_twoClusterDisk, if_pos rfl]
  have hname0 := nameToFat83_ne_zero [65] (show 0 < 11 by omega)
  have hlink2 : (volume s).next 2 = .to 3 := by
    change fatLink s.sFatBuf 2 = _
    unfold fatLink
    rw [hfat, show fat12NextCluster twoClusterFat 2 = 3 by
      rw [next_twoClusterFat, if_neg (by omega), if_pos rfl]]
    rfl
  have hlink3 : (volume s).next 3 = .last := by
    change fatLink s.sFatBuf 3 = _
    rw [fatLink_eq_last_iff, hfat, next_twoClusterFat, if_pos rfl]
    omega
  have hentry : entryAt s.dev.cell (.root 0) =
      newDirent (nameToFat83 [65]) 2 600 := by
    rw [hcell]
    exact hfile
  have hhead : (volume s).head (.root 0) = some 2 := by
    change (if (entryAt s.dev.cell (.root 0)).cluster = 0 then none
      else some (entryAt s.dev.cell (.root 0)).cluster.toNat) = some 2
    rw [hentry]
    rfl
  have hchain : (volume s).Chain 2 [2, 3] :=
    .step (show DataCluster 2 by decide) hlink2 (.last (show DataCluster 3 by decide) hlink3)
  -- the file is the only object
  have honly : ∀ p, (volume s).Reach p → p = .root 0 := by
    intro p hp
    induction hp with
    | @top p hr ho =>
      obtain ⟨i, hi, rfl⟩ := hr
      by_contra hne
      have hi0 : i ≠ 0 := fun e => hne (by rw [e])
      change (rootEntry s.dev.cell i).isObject = true at ho
      unfold Dirent.isObject at ho
      rw [hcell, Dirent.isFree_of_isEnd (hblank i hi0 hi)] at ho
      simp at ho
    | @sub p q x _ hd _ _ _ ih =>
      subst ih
      change (entryAt s.dev.cell (.root 0)).isDirectory = true at hd
      rw [hentry] at hd
      exact absurd hd (by
        change ¬ decide ((0x20 : UInt8) &&& 0x10 ≠ 0) = true
        decide)
  refine ⟨?_, fun i j hij hj _ => ?_, fun i hi hfr hattr => ?_, ?_, ?_, ?_⟩
  · rw [hfat, next_twoClusterFat, if_neg (by omega), if_neg (by omega)]
    exact media_blankDisk
  · rw [hcell]
    exact hblank j (by omega) hj
  · rw [hcell] at hfr hattr
    by_cases h0 : i = 0
    · rw [h0, hfile] at hattr
      exact absurd (show (0x20 : UInt8) &&& 0x08 = 0 by decide) hattr
    · rw [Dirent.isFree_of_isEnd (hblank i h0 hi)] at hfr
      cases hfr
  · intro p hp c hpc
    obtain rfl := honly p hp
    rw [hhead] at hpc
    cases hpc
    exact ⟨_, hchain⟩
  · intro p q x hp hq _ _
    rw [honly p hp, honly q hq]
  · intro x hx hne
    have hx23 : x = 2 ∨ x = 3 := by
      by_contra hno
      refine hne (fatLink_eq_free_iff.2 ?_)
      rw [hfat, next_twoClusterFat, if_neg (by omega), if_neg (by omega)]
      exact formatted_blankDisk.free x hx
    refine ⟨.root 0, .top ⟨0, by omega, rfl⟩ ?_, 2, _, hhead, hchain, ?_⟩
    · change (entryAt s.dev.cell (.root 0)).isObject = true
      rw [hentry, newDirent_isObject hname0 (nameToFat83_ne_dot [65] (by omega))]
      exact nameToFat83_ne_E5 (by decide) (by omega)
    · rcases hx23 with rfl | rfl <;> simp

theorem consistentVolume_twoClusterDriver : ConsistentVolume twoClusterDriver :=
  consistentVolume_of_twoClusters twoClusterDriver_spec.2.1 twoClusterDriver_spec.2.2.1

theorem target_twoClusterDriver : lookup twoClusterDriver.dev.cell (nameToFat83 [65]) = some 0 ∧
    target twoClusterDriver.dev.cell twoClusterDriver.sFatBuf (nameToFat83 [65]) = some (0, 2) := by
  obtain ⟨-, -, hcell, -⟩ := twoClusterDriver_spec
  have hfile : rootEntry twoClusterDriver.dev.cell 0 = newDirent (nameToFat83 [65]) 2 600 := by
    rw [hcell, rootEntry_twoClusterDisk, if_pos rfl]
  have hl : lookup twoClusterDriver.dev.cell (nameToFat83 [65]) = some 0 := by
    refine lookup_eq_some_iff.2 ⟨by omega, ?_, nofun⟩
    rw [hfile]
    exact Dirent.hits_iff.2 ⟨nameToFat83_ne_zero _ (by omega),
      nameToFat83_ne_E5 (by decide) (by omega), rfl, rfl⟩
  refine ⟨hl, ?_⟩
  rw [target_of_found hl, hfile]
  rfl

theorem write_twoClusterDriver (buf : ℕ → UInt8) (len : ℕ) :
    Commits twoClusterDriver (nameToFat83 [65]) buf (capLen len) 0 2
        (fat12WriteFile (some [65]) (some buf) len twoClusterDriver) ∧
      (fat12WriteFile (some [65]) (some buf) len twoClusterDriver).1 ≠ none := by
  obtain ⟨hm, -, -, hok⟩ := twoClusterDriver_spec
  have h := (fat12WriteFile_spec hm [65] buf len).2.2 (scanOk_of_never hok _) 0 2
    target_twoClusterDriver.2
  refine ⟨h, ?_⟩
  rw [h.result, done_of_never hok, if_pos rfl]
  exact nofun

theorem fat12WriteFile_consistent_twoClusterDriver :
    ConsistentVolume (fat12WriteFile (some [65]) (some fun _ => 0) 1 twoClusterDriver).2 ↔
      KeepsVolume twoClusterDriver (nameToFat83 [65]) :=
  fat12WriteFile_consistent_iff consistentVolume_twoClusterDriver [65] _ 1
    (write_twoClusterDriver _ 1).2

/-- Overwriting the file with one byte loses its second cluster. -/
theorem twoClusterDriver_loses_cluster :
    ¬ ∀ (s : Driver), ConsistentVolume s → ∀ (name : CStr) (buf : ℕ → UInt8) (len : ℕ),
      (fat12WriteFile (some name) (some buf) len s).1 ≠ none →
        ConsistentVolume (fat12WriteFile (some name) (some buf) len s).2 := by
  intro hall
  obtain ⟨h, hres⟩ := write_twoClusterDriver (fun _ => 0) 1
  obtain ⟨hl, htg⟩ := target_twoClusterDriver
  have hc := hall _ consistentVolume_twoClusterDriver [65] (fun _ => 0) 1 hres
  rw [consistentVolume_commits_iff consistentVolume_twoClusterDriver htg
    (nameToFat83_ne_zero _ (by omega)) (nameToFat83_ne_dot _ (by omega)) h hres] at hc
  unfold KeepsVolume at hc
  rw [hl] at hc
  have hnext := hc.2.1
  obtain ⟨-, hfat, hcell, -⟩ := twoClusterDriver_spec
  rw [hfat, hcell, rootEntry_twoClusterDisk, if_pos rfl, next_twoClusterFat] at hnext
  exact absurd hnext (by decide)

end AuraOS.Env.Fat12
