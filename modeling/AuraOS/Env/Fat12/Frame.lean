import AuraOS.Env.Fat12.Store

/-!
# The sectors a write touches

`mem_plan_take` lists the sectors a write can touch: its data sector, the directory sector of its
target entry, and the two FAT copies.  Two consequences are drawn.  The boot image: the volume starts
at sector 0 of the disk the machine boots from, so that a run of driver calls leaves the boot image
alone exactly when no write gets through (`runCalls_spares_iff`).  The other files: a write changes
nothing but what belongs to its file, exactly when the entry it finds does not have the cluster
number 0 of an empty file (`fat12WriteFile_frame_iff`).
-/

namespace AuraOS.Env.Fat12

open AuraOS.Lib AuraOS.Kernel

/-! ### The sectors of a plan -/

theorem mem_flushPlan {fat : FatBuf} {w : ℕ × Sector} (h : w ∈ flushPlan fat) :
    1 ≤ w.1 ∧ w.1 < 19 := by
  unfold flushPlan at h
  rcases List.mem_append.1 h with h | h <;> obtain ⟨i, hi, rfl⟩ := List.mem_map.1 h <;>
    rw [List.mem_range] at hi <;> simp only <;> omega

/-- **The sectors of the first `k` writes of a plan.** -/
theorem mem_plan_take {c : ℕ → Sector} {fat : FatBuf} {n : Name83} {buf : ℕ → UInt8}
    {len t cl k : ℕ} {w : ℕ × Sector} (h : w ∈ (plan c fat n buf len t cl).take k) :
    (1 ≤ k ∧ w.1 = clusterToLba cl) ∨ (2 ≤ k ∧ (w.1 = entrySector t ∨ (1 ≤ w.1 ∧ w.1 < 19))) := by
  unfold plan at h
  rcases k with _ | _ | j
  · cases h
  · rw [Nat.zero_add, List.take_succ_cons, List.take_zero, List.mem_singleton] at h
    exact Or.inl ⟨by omega, by rw [h]⟩
  · rw [List.take_succ_cons, List.take_succ_cons, List.mem_cons, List.mem_cons] at h
    rcases h with rfl | rfl | h
    · exact Or.inl ⟨by omega, rfl⟩
    · exact Or.inr ⟨by omega, Or.inl rfl⟩
    · exact Or.inr ⟨by omega, Or.inr (mem_flushPlan (List.mem_of_mem_take h))⟩

theorem data_mem_plan_take {c : ℕ → Sector} {fat : FatBuf} {n : Name83} {buf : ℕ → UInt8}
    {len t cl k : ℕ} (hk : 1 ≤ k) :
    (clusterToLba cl, dataSector buf len) ∈ (plan c fat n buf len t cl).take k := by
  obtain ⟨j, rfl⟩ : ∃ j, k = j + 1 := ⟨k - 1, by omega⟩
  exact List.mem_cons_self

theorem entry_mem_plan_take (c : ℕ → Sector) (fat : FatBuf) (n : Name83) (buf : ℕ → UInt8)
    (len t cl : ℕ) {k : ℕ} (hk : 2 ≤ k) :
    ∃ w ∈ (plan c fat n buf len t cl).take k, w.1 = entrySector t := by
  obtain ⟨j, rfl⟩ : ∃ j, k = j + 2 := ⟨k - 2, by omega⟩
  exact ⟨_, List.mem_cons_of_mem _ List.mem_cons_self, rfl⟩

/-! ### Calls that write nothing -/

theorem initLoop_log : ∀ (m i : ℕ) (s : Driver), (initLoop m i s).2.dev.log = s.dev.log := by
  intro m
  induction m with
  | zero => exact fun i s => rfl
  | succ m ih =>
    intro i s
    unfold initLoop
    rcases hr : s.dev.read (fat1Lba + i) with ⟨_ | v, d⟩
    · have : d = (s.dev.read (fat1Lba + i)).2 := by rw [hr]
      subst this
      rfl
    · have : d = (s.dev.read (fat1Lba + i)).2 := by rw [hr]
      subst this
      exact ih (i + 1) _

theorem fat12Init_log (s : Driver) : (fat12Init s).2.dev.log = s.dev.log := by
  have h := initLoop_log fatSizeSectors 0 s
  unfold fat12Init
  rcases hl : initLoop fatSizeSectors 0 s with ⟨_ | _, s'⟩ <;> rw [hl] at h <;> exact h

theorem readSector_did (lba : ℕ) (s : Driver) : Did s [] 1 (readSector lba s).2 := by
  cases hf : s.dev.fault s.dev.ops with
  | true =>
    obtain ⟨s', h1, h2⟩ := readSector_of_fault hf lba
    rw [h1]
    exact h2
  | false =>
    obtain ⟨s', h1, -, h2⟩ := readSector_of_ok hf lba
    rw [h1]
    exact h2

theorem readLoop_did (n : Name83) (len : ℕ) : ∀ (m k : ℕ) (s : Driver),
    ∃ j, Did s [] j (readLoop n len m k s).2 := by
  intro m
  induction m with
  | zero => exact fun k s => ⟨0, Did.refl s⟩
  | succ m ih =>
    intro k s
    have h1 := readSector_did (entrySector k) s
    unfold readLoop
    rcases hr : readSector (entrySector k) s with ⟨_ | _, s₁⟩ <;> rw [hr] at h1
    · exact ⟨1, h1⟩
    obtain ⟨j, h2⟩ := ih (k + 1) s₁
    have hnext : ∃ j, Did s [] j (readLoop n len m (k + 1) s₁).2 := ⟨_, h1.trans h2⟩
    simp only
    split
    · exact ⟨1, h1⟩
    split
    · exact hnext
    split
    · exact hnext
    split
    · exact hnext
    have h3 := readSector_did
      (clusterToLba (direntAt s₁.sSectorBuf (entryOff k)).cluster.toNat) s₁
    rcases hr' : readSector (clusterToLba (direntAt s₁.sSectorBuf (entryOff k)).cluster.toNat) s₁ with
      ⟨_ | _, s₂⟩ <;> rw [hr'] at h3 <;> exact ⟨_, h1.trans h3⟩

/-- A read of a file, whatever fails, writes nothing. -/
theorem fat12ReadFile_did (name : Option CStr) (buf : Bool) (len : ℕ) (s : Driver) :
    ∃ j, Did s [] j (fat12ReadFile name buf len s).2 := by
  unfold fat12ReadFile
  rcases name with _ | name
  · exact ⟨0, Did.refl s⟩
  simp only
  split
  · exact ⟨0, Did.refl s⟩
  · exact readLoop_did _ len rootEntryCount 0 s

/-! ### The boot image -/

/-- `KERNEL_SECTORS` of the boot loader. -/
def kernelSectors : ℕ := 64

/-- The boot sector and the sectors loaded as the kernel, which start right behind it. -/
def BootImage (lba : ℕ) : Prop := lba ≤ kernelSectors

instance : DecidablePred BootImage := fun lba => by unfold BootImage; infer_instance

/-- A call of the driver. -/
inductive Call where
  | init
  | read (name : Option CStr) (buf : Bool) (len : ℕ)
  | write (name : Option CStr) (buf : Option (ℕ → UInt8)) (len : ℕ)

/-- Make the call. -/
def Call.run : Call → Driver → Driver
  | init, s => (fat12Init s).2
  | read name buf len, s => (fat12ReadFile name buf len s).2
  | write name buf len, s => (fat12WriteFile name buf len s).2

/-- Make the calls one after the other. -/
def runCalls : List Call → Driver → Driver
  | [], s => s
  | call :: cs, s => runCalls cs (call.run s)

/-- The sector writes that took effect between two states of a run. -/
def written (s s' : Driver) : List (ℕ × Sector) := s'.dev.log.drop s.dev.log.length

theorem written_eq {s s' : Driver} {ws : List (ℕ × Sector)} (h : s'.dev.log = s.dev.log ++ ws) :
    written s s' = ws := by
  unfold written
  rw [h, List.drop_left]

theorem written_of_commits {s : Driver} {n : Name83} {buf : ℕ → UInt8} {len t cl : ℕ}
    {out : Option ℕ × Driver} (h : Commits s n buf len t cl out) :
    written s out.2 =
      (plan s.dev.cell (fat12SetCluster s.sFatBuf cl 0xFFF) n buf len t cl).take (done s n) := by
  obtain ⟨-, j, h⟩ := h
  exact written_eq h.dev.log

/-- A call that leaves the boot image alone: it is no write; or one that finds the volume unmounted, a
null pointer, an unreadable directory or no room; or its data sector cannot be written; or that
sector lies behind the boot image and the directory sector cannot be read back or written. -/
def Call.Spares : Call → Driver → Prop
  | write (some name) (some _) _, s =>
    let n := nameToFat83 name
    let op := s.dev.ops + scanReads s.dev.cell n rootEntryCount 0
    s.sFatLoaded = true → ScanOk s n → ∀ t cl, target s.dev.cell s.sFatBuf n = some (t, cl) →
      s.dev.fault op = true ∨ ¬ BootImage (clusterToLba cl) ∧
        (s.dev.fault (op + 1) = true ∨ s.dev.fault (op + 2) = true)
  | _, _ => True

/-- Every call of the run leaves the boot image alone. -/
def SparesAll : List Call → Driver → Prop
  | [], _ => True
  | call :: cs, s => call.Spares s ∧ SparesAll cs (call.run s)

theorem progress_eq_zero_iff {fault : ℕ → Bool} {t : ℕ} : progress fault t = 0 ↔ fault t = true := by
  unfold progress
  cases fault t with
  | true => simp
  | false =>
    simp only [Bool.false_eq_true, if_false, iff_false]
    split <;> omega

theorem progress_le_one_iff {fault : ℕ → Bool} {t : ℕ} :
    progress fault t ≤ 1 ↔ fault t = true ∨ fault (t + 1) = true ∨ fault (t + 2) = true := by
  unfold progress
  cases fault t <;> cases fault (t + 1) <;> cases fault (t + 2) <;> simp
  omega

theorem entrySector_bootImage {t : ℕ} (ht : t < 224) : BootImage (entrySector t) := by
  have := entrySector_mem ht
  unfold BootImage kernelSectors
  omega

/-- The first `k` writes of a plan spare the boot image if the data sector lies behind it and is the only
one of them. -/
theorem plan_spares_iff {c : ℕ → Sector} {fat : FatBuf} {n : Name83} {buf : ℕ → UInt8}
    {len t cl k : ℕ} (ht : t < 224) :
    (∀ w ∈ (plan c fat n buf len t cl).take k, ¬ BootImage w.1) ↔
      k = 0 ∨ ¬ BootImage (clusterToLba cl) ∧ k ≤ 1 := by
  constructor
  · intro hall
    by_cases h0 : k = 0
    · exact Or.inl h0
    have hdata := hall (clusterToLba cl, dataSector buf len) (data_mem_plan_take (by omega))
    refine Or.inr ⟨hdata, ?_⟩
    by_contra h1
    obtain ⟨w, hw, he⟩ := entry_mem_plan_take c fat n buf len t cl (show 2 ≤ k by omega)
    exact hall w hw (he ▸ entrySector_bootImage ht)
  · rintro (h0 | ⟨h1, h2⟩) w hw
    · rcases mem_plan_take hw with ⟨hk, -⟩ | ⟨hk, -⟩ <;> omega
    · rcases mem_plan_take hw with ⟨-, he⟩ | ⟨hk, -⟩
      · rwa [he]
      · omega

theorem Call.spares_write_iff {s : Driver} {name : CStr} {buf : ℕ → UInt8} {len t cl : ℕ}
    (hm : s.sFatLoaded = true) (hok : ScanOk s (nameToFat83 name))
    (htg : target s.dev.cell s.sFatBuf (nameToFat83 name) = some (t, cl)) :
    (Call.write (some name) (some buf) len).Spares s ↔
      done s (nameToFat83 name) = 0 ∨
        ¬ BootImage (clusterToLba cl) ∧ done s (nameToFat83 name) ≤ 1 := by
  unfold done
  rw [progress_eq_zero_iff, progress_le_one_iff]
  constructor
  · intro h
    rcases h hm hok t cl htg with h | ⟨h, h'⟩
    · exact Or.inl h
    · exact Or.inr ⟨h, Or.inr h'⟩
  · intro h _ _ t' cl' htg'
    rw [htg] at htg'
    obtain ⟨rfl, rfl⟩ := Prod.mk.inj (Option.some.inj htg')
    rcases h with h | ⟨h, h' | h'⟩
    · exact Or.inl h
    · exact Or.inl h'
    · exact Or.inr ⟨h, h'⟩

/-- What a single call writes to the boot image. -/
theorem Call.run_log (call : Call) (s : Driver) :
    ∃ ws, (call.run s).dev.log = s.dev.log ++ ws ∧
      ((∀ w ∈ ws, ¬ BootImage w.1) ↔ call.Spares s) := by
  have hnil : ∀ {s' : Driver} {j : ℕ}, Did s [] j s' → call.Spares s →
      ∃ ws, s'.dev.log = s.dev.log ++ ws ∧ ((∀ w ∈ ws, ¬ BootImage w.1) ↔ call.Spares s) :=
    fun h hs => ⟨[], h.dev.log, fun _ => hs, fun _ => nofun⟩
  cases call with
  | init => exact ⟨[], (fat12Init_log s).trans (List.append_nil _).symm, fun _ => trivial, fun _ => nofun⟩
  | read name buf len =>
    obtain ⟨j, h⟩ := fat12ReadFile_did name buf len s
    exact hnil h trivial
  | write name buf len =>
    rcases name with _ | name
    · exact hnil (Did.refl s) trivial
    rcases buf with _ | buf
    · exact hnil (Did.refl s) trivial
    change ∃ ws, (fat12WriteFile (some name) (some buf) len s).2.dev.log = s.dev.log ++ ws ∧ _
    cases hm : s.sFatLoaded with
    | false =>
      rw [fat12WriteFile_of_guard (Or.inl hm)]
      exact hnil (Did.refl s) fun h => by rw [hm] at h; cases h
    | true =>
      obtain ⟨hfail, hnone, hsome⟩ := fat12WriteFile_spec hm name buf len
      by_cases hok : ScanOk s (nameToFat83 name)
      swap
      · obtain ⟨-, j, h⟩ := hfail hok
        exact hnil h fun _ h' => absurd h' hok
      rcases htg : target s.dev.cell s.sFatBuf (nameToFat83 name) with _ | ⟨t, cl⟩
      · obtain ⟨-, j, h⟩ := hnone htg
        exact hnil h fun _ _ t cl h' => by rw [htg] at h'; cases h'
      obtain ⟨-, j, h⟩ := hsome hok t cl htg
      refine ⟨_, h.dev.log, ?_⟩
      rw [Call.spares_write_iff hm hok htg]
      exact plan_spares_iff (target_slot_lt htg)

/-- **A run of driver calls spares the boot image exactly when each of its calls does.** -/
theorem runCalls_spares_iff (cs : List Call) (s : Driver) :
    (∀ w ∈ written s (runCalls cs s), ¬ BootImage w.1) ↔ SparesAll cs s := by
  have key : ∀ (cs : List Call) (s : Driver), ∃ ws, (runCalls cs s).dev.log = s.dev.log ++ ws ∧
      ((∀ w ∈ ws, ¬ BootImage w.1) ↔ SparesAll cs s) := by
    intro cs
    induction cs with
    | nil => exact fun s => ⟨[], by simp [runCalls], fun _ => trivial, fun _ => nofun⟩
    | cons call cs ih =>
      intro s
      obtain ⟨ws, h1, h2⟩ := call.run_log s
      obtain ⟨vs, h3, h4⟩ := ih (call.run s)
      refine ⟨ws ++ vs, ?_, ?_⟩
      · change (runCalls cs (call.run s)).dev.log = _
        rw [h3, h1, List.append_assoc]
      · change _ ↔ call.Spares s ∧ SparesAll cs (call.run s)
        rw [← h2, ← h4, List.forall_mem_append]
  obtain ⟨ws, h1, h2⟩ := key cs s
  rw [written_eq h1, h2]

/-- A first write to a blank volume goes to sector 33, inside the kernel. -/
theorem blankDisk_overwrites_kernel :
    ¬ ∀ (cs : List Call) (s : Driver), ∀ w ∈ written s (runCalls cs s), ¬ BootImage w.1 := by
  intro hall
  obtain ⟨hm, hfat, hdev⟩ := mounted_spec blankDisk (f := fun _ => false) fun _ _ => rfl
  generalize (Driver.mounted blankDisk fun _ => false) = s at hm hfat hdev
  obtain ⟨ws, h1, h2⟩ := (Call.write (some [65]) (some fun _ => 0) 1).run_log s
  have hw : written s (runCalls [.write (some [65]) (some fun _ => 0) 1] s) = ws := written_eq h1
  have hspares := h2.1 fun w hmem => hall _ s w (hw ▸ hmem)
  have hok : ∀ t, s.dev.fault t = false := by
    rw [hdev]
    exact fun _ => rfl
  have htg : target s.dev.cell s.sFatBuf (nameToFat83 [65]) = some (0, 2) := by
    rw [hfat, hdev]
    exact formatted_blankDisk.target _
  rcases hspares hm (scanOk_of_never hok _) 0 2 htg with h | ⟨-, h | h⟩ <;> rw [hok] at h <;> cases h

/-! ### The other files -/

/-- Entry `i` is in use: it lies before the end marker and is not deleted. -/
def Live (c : ℕ → Sector) (i : ℕ) : Prop :=
  i < 224 ∧ (rootEntry c i).isFree = false ∧ ∀ j < i, (rootEntry c j).isEnd = false

/-- A valid mounted volume: the cache and the second FAT copy agree with the first, the FAT starts with
the media descriptor, and a file is empty without a cluster or begins at a data cluster. -/
structure Valid (s : Driver) : Prop where
  mounted : s.sFatLoaded = true
  cache : s.sFatBuf = diskFat s.dev.cell
  copies : diskFat2 s.dev.cell = diskFat s.dev.cell
  media : fat12NextCluster s.sFatBuf 0 = 0xFF0
  entries : ∀ i, Live s.dev.cell i → skipAttr (rootEntry s.dev.cell i).attr = false →
    ((rootEntry s.dev.cell i).cluster = 0 ∧ (rootEntry s.dev.cell i).size = 0) ∨
      DataCluster (rootEntry s.dev.cell i).cluster.toNat

/-- The slot that a write of the file `n` uses. -/
def targetSlot (c : ℕ → Sector) (n : Name83) : Option ℕ := (lookup c n).or (freeSlot c)

/-- The sector `x` is one a write of the file `n` may touch: of the FAT, of its directory entry, or of
the data cluster `cl`, which is free or its own. -/
def OwnSector (c : ℕ → Sector) (fat : FatBuf) (n : Name83) (cl x : ℕ) : Prop :=
  (1 ≤ x ∧ x < 19) ∨ (∃ t, targetSlot c n = some t ∧ x = entrySector t) ∨
    (DataCluster cl ∧ x = clusterToLba cl ∧
      (fat12NextCluster fat cl = 0 ∨
        ∃ t, lookup c n = some t ∧ (rootEntry c t).cluster.toNat = cl))

/-- From `s` to `s'` nothing has changed but what belongs to the file `n`. -/
structure Framed (s : Driver) (n : Name83) (s' : Driver) : Prop where
  sectors : ∃ cl, ∀ w ∈ written s s', OwnSector s.dev.cell s.sFatBuf n cl w.1
  bytes : ∀ x j, 19 ≤ x → x < 33 → j < 512 →
    (∀ t, targetSlot s.dev.cell n = some t → x = entrySector t →
      ¬ (entryOff t ≤ j ∧ j < entryOff t + 32)) →
    (s'.dev.cell x).rd j = (s.dev.cell x).rd j
  entries : ∀ i < 224, targetSlot s.dev.cell n ≠ some i →
    rootEntry s'.dev.cell i = rootEntry s.dev.cell i
  reserved : ∀ e < 2, fat12NextCluster s'.sFatBuf e = fat12NextCluster s.sFatBuf e ∧
    fat12NextCluster (diskFat s'.dev.cell) e = fat12NextCluster (diskFat s.dev.cell) e ∧
    fat12NextCluster (diskFat2 s'.dev.cell) e = fat12NextCluster (diskFat2 s.dev.cell) e

theorem lookup_live {c : ℕ → Sector} {n : Name83} {i : ℕ} (h : lookup c n = some i) :
    Live c i ∧ skipAttr (rootEntry c i).attr = false ∧ (rootEntry c i).name = n := by
  obtain ⟨h1, h2, h3⟩ := lookup_eq_some_iff.1 h
  obtain ⟨a, b, d, e⟩ := Dirent.hits_iff.1 h2
  refine ⟨⟨h1, ?_, fun j hj => (h3 j hj).1⟩, d, e⟩
  simp [Dirent.isFree, a, b]

theorem targetSlot_of_target {c : ℕ → Sector} {fat : FatBuf} {n : Name83} {t cl : ℕ}
    (h : target c fat n = some (t, cl)) : targetSlot c n = some t := by
  unfold targetSlot
  cases hl : lookup c n with
  | none => exact (target_of_new hl h).1
  | some i =>
    rw [target_of_found hl fat] at h
    rw [(Prod.mk.inj (Option.some.inj h)).1]
    rfl

/-- The cluster of a target is free, or that of the file. -/
theorem target_cluster {c : ℕ → Sector} {fat : FatBuf} {n : Name83} {t cl : ℕ}
    (h : target c fat n = some (t, cl)) :
    (lookup c n = none ∧ DataCluster cl ∧ fat12NextCluster fat cl = 0) ∨
      (lookup c n = some t ∧ (rootEntry c t).cluster.toNat = cl) := by
  cases hl : lookup c n with
  | none =>
    obtain ⟨-, hcl, h0⟩ := target_of_new hl h
    obtain ⟨a1, a2, a3⟩ := alloc_spec fat (hcl ▸ h0)
    rw [← hcl] at a1 a2 a3
    exact Or.inl ⟨rfl, ⟨a1, by omega⟩, a3⟩
  | some i =>
    rw [target_of_found hl fat] at h
    obtain ⟨rfl, rfl⟩ := Prod.mk.inj (Option.some.inj h)
    exact Or.inr ⟨rfl, rfl⟩

section Framed

variable {s s' : Driver} {n : Name83}

/-- A call that has written nothing changes nothing. -/
theorem Framed.of_did {j : ℕ} (h : Did s [] j s') : Framed s n s' := by
  have hcell := h.cell
  refine ⟨⟨0, by rw [written_eq h.dev.log]; exact nofun⟩, fun x j _ _ _ _ => by rw [hcell],
    fun i _ _ => by rw [hcell], fun e _ => ⟨by rw [h.fat], by rw [hcell], by rw [hcell]⟩⟩

/-- The cells of the two reserved clusters are not touched by taking a data cluster. -/
theorem set_rd_reserved (fat : FatBuf) {cl : ℕ} (h : DataCluster cl) (v : ℕ) {i : ℕ} (hi : i < 3) :
    (fat12SetCluster fat cl v).rd i = fat.rd i := by
  have := h.1
  have hoff : 3 ≤ cellOff cl := by
    unfold cellOff
    omega
  exact set_rd_of_ne fat v (by omega) (by omega)

/-- **A write into a data cluster stays within its file.** -/
theorem Framed.of_commits {buf : ℕ → UInt8} {len t cl : ℕ} {out : Option ℕ × Driver} (hv : Valid s)
    (ht : target s.dev.cell s.sFatBuf n = some (t, cl)) (hcl : DataCluster cl)
    (h : Commits s n buf len t cl out) : Framed s n out.2 := by
  have hslot := targetSlot_of_target ht
  have ht' := target_slot_lt ht
  have hw := written_of_commits h
  obtain ⟨-, j, hd⟩ := h
  generalize done s n = k at hd hw
  have hcell : out.2.dev.cell =
      after s.dev.cell (fat12SetCluster s.sFatBuf cl 0xFFF) n buf len t cl k := hd.dev.cell
  constructor
  · refine ⟨cl, fun w hmem => ?_⟩
    rw [hw] at hmem
    rcases mem_plan_take hmem with ⟨-, he⟩ | ⟨-, he | he⟩
    · refine Or.inr (Or.inr ⟨hcl, he, ?_⟩)
      rcases target_cluster ht with ⟨-, -, h0⟩ | h1
      · exact Or.inl h0
      · exact Or.inr ⟨t, h1⟩
    · exact Or.inr (Or.inl ⟨t, hslot, he⟩)
    · exact Or.inl he
  · intro x i hx hx' hi hout
    rw [hcell, after_root ht' hcl.lba.2.1 hx hx']
    by_cases hxt : 2 ≤ k ∧ x = entrySector t
    · rw [if_pos hxt]
      have := hout t hslot hxt.2
      unfold putDirent
      rw [Buf.rd_blit _ _ _ _ hi, if_neg this, hxt.2]
    · rw [if_neg hxt]
  · intro i hi hne
    have : i ≠ t := by
      rintro rfl
      exact hne hslot
    rw [hcell, rootEntry_after ht' hcl.lba.2.1 hi, if_neg (by omega)]
  · intro e he
    have hbyte : ∀ i < 3, (fat12SetCluster s.sFatBuf cl 0xFFF).rd i = (diskFat s.dev.cell).rd i :=
      fun i hi => by rw [set_rd_reserved _ hcl _ hi, hv.cache]
    have hoff : cellOff e < 3 ∧ cellOff e + 1 < 3 := by
      unfold cellOff
      omega
    have h1 : ∀ i < 3, (diskFat out.2.dev.cell).rd i = (diskFat s.dev.cell).rd i := by
      intro i hi
      rw [hcell, rd_diskFat_after ht' hcl (by omega), hbyte i hi, ite_self]
    have h2 : ∀ i < 3, (diskFat2 out.2.dev.cell).rd i = (diskFat2 s.dev.cell).rd i := by
      intro i hi
      rw [hcell, rd_diskFat2_after ht' hcl (by omega), hbyte i hi, hv.copies, ite_self]
    have hne : e ≠ cl := by
      have := hcl.1
      omega
    refine ⟨?_, next_congr (h1 _ hoff.1) (h1 _ hoff.2), next_congr (h2 _ hoff.1) (h2 _ hoff.2)⟩
    rw [hd.fat]
    exact next_set_of_ne _ _ hne

/-- A write that finds an entry with cluster 0 overwrites the first FAT entry. -/
theorem not_framed_of_commits {buf : ℕ → UInt8} {len t : ℕ} {out : Option ℕ × Driver} (hv : Valid s)
    (h : Commits s n buf len t 0 out) : ¬ Framed s n out.2 := by
  intro hfr
  obtain ⟨-, j, hd⟩ := h
  have h0 := (hfr.reserved 0 (by decide)).1
  rw [hd.fat, hv.media] at h0
  have h1 : fat12NextCluster (fat12SetCluster s.sFatBuf 0 0xFFF) 0 = 0xFFF % 4096 :=
    next_set_self _ _ (by decide)
  rw [h1] at h0
  exact absurd h0 (by decide)

end Framed

/-- **A write stays within its file** exactly when it does not find an entry that has the cluster
number 0. -/
theorem fat12WriteFile_frame_iff {s : Driver} (hv : Valid s) (name : CStr) (buf : ℕ → UInt8)
    (len : ℕ) :
    Framed s (nameToFat83 name) (fat12WriteFile (some name) (some buf) len s).2 ↔
      ¬ (ScanOk s (nameToFat83 name) ∧ ∃ t, lookup s.dev.cell (nameToFat83 name) = some t ∧
        (rootEntry s.dev.cell t).cluster = 0) := by
  obtain ⟨hfail, hnone, hsome⟩ := fat12WriteFile_spec hv.mounted name buf len
  generalize nameToFat83 name = n at *
  constructor
  · rintro hfr ⟨hok, t, hl, h0⟩
    have htg := target_of_found hl s.sFatBuf
    rw [h0] at htg
    exact not_framed_of_commits hv (hsome hok t 0 htg) hfr
  · intro hne
    by_cases hok : ScanOk s n
    swap
    · obtain ⟨-, j, h⟩ := hfail hok
      exact Framed.of_did h
    rcases htg : target s.dev.cell s.sFatBuf n with _ | ⟨t, cl⟩
    · obtain ⟨-, j, h⟩ := hnone htg
      exact Framed.of_did h
    refine Framed.of_commits hv htg ?_ (hsome hok t cl htg)
    rcases target_cluster htg with ⟨-, hcl, -⟩ | ⟨hl, rfl⟩
    · exact hcl
    · obtain ⟨h1, h2, -⟩ := lookup_live hl
      rcases hv.entries t h1 h2 with ⟨h3, -⟩ | h3
      · exact absurd ⟨hok, t, hl, h3⟩ hne
      · exact h3

/-- A volume with one empty file `A`. -/
def emptyFileDisk : ℕ → Sector := withEntry blankDisk 0 (newDirent (nameToFat83 [65]) 0 0)

theorem live_withEntry_blankDisk {de : Dirent} {i : ℕ} (h : Live (withEntry blankDisk 0 de) i) :
    i = 0 := by
  by_contra hi
  have := h.2.1
  rw [rootEntry_withEntry, if_neg hi,
    Dirent.isFree_of_isEnd (formatted_blankDisk.isEnd h.1)] at this
  cases this

theorem valid_emptyFileDisk (f : ℕ → Bool) (h : ∀ t < 9, f t = false) :
    Valid (.mounted emptyFileDisk f) := by
  obtain ⟨h1, h2, h3⟩ := mounted_spec emptyFileDisk h
  refine ⟨h1, by rw [h2, h3], ?_, ?_, ?_⟩
  · rw [h3]
    exact (diskFat2_withEntry _ _).trans (diskFat2_blankDisk.trans (diskFat_withEntry _ _).symm)
  · rw [h2]
    unfold emptyFileDisk
    rw [diskFat_withEntry, media_blankDisk]
  · rw [h3]
    intro i hi _
    obtain rfl := live_withEntry_blankDisk hi
    unfold emptyFileDisk
    rw [rootEntry_withEntry, if_pos rfl]
    exact Or.inl ⟨rfl, rfl⟩

theorem lookup_emptyFileDisk : lookup emptyFileDisk (nameToFat83 [65]) = some 0 := by
  refine lookup_eq_some_iff.2 ⟨by omega, ?_, nofun⟩
  unfold emptyFileDisk
  rw [rootEntry_withEntry, if_pos rfl]
  exact Dirent.hits_iff.2 ⟨nameToFat83_ne_zero _ (by omega), nameToFat83_ne_E5 (by decide) (by omega),
    rfl, rfl⟩

theorem fat12WriteFile_frame_emptyFileDisk :
    Framed (.mounted emptyFileDisk fun _ => false) (nameToFat83 [66])
        (fat12WriteFile (some [66]) (some fun _ => 0) 1 (.mounted emptyFileDisk fun _ => false)).2 ↔
      ¬ (ScanOk (.mounted emptyFileDisk fun _ => false) (nameToFat83 [66]) ∧
        ∃ t, lookup (Driver.mounted emptyFileDisk fun _ => false).dev.cell (nameToFat83 [66]) =
            some t ∧
          (rootEntry (Driver.mounted emptyFileDisk fun _ => false).dev.cell t).cluster = 0) :=
  fat12WriteFile_frame_iff (valid_emptyFileDisk _ fun _ _ => rfl) [66] _ 1

/-- Overwriting an empty file goes to the last but one sector of the root directory, and to the first
FAT entry. -/
theorem emptyFileDisk_not_framed :
    ¬ ∀ (s : Driver), Valid s → ∀ (name : CStr) (buf : ℕ → UInt8) (len : ℕ),
      Framed s (nameToFat83 name) (fat12WriteFile (some name) (some buf) len s).2 := by
  intro hall
  have hv := valid_emptyFileDisk (fun _ => false) fun _ _ => rfl
  obtain ⟨-, -, hdev⟩ := mounted_spec emptyFileDisk (f := fun _ => false) fun _ _ => rfl
  generalize (Driver.mounted emptyFileDisk fun _ => false) = s at hv hdev
  have hl : lookup s.dev.cell (nameToFat83 [65]) = some 0 := by rw [hdev, lookup_emptyFileDisk]
  have h0 : (rootEntry s.dev.cell 0).cluster.toNat = 0 := by
    rw [hdev]
    unfold emptyFileDisk
    rw [rootEntry_withEntry, if_pos rfl]
    rfl
  have htg := target_of_found hl s.sFatBuf
  rw [h0] at htg
  have hok : ScanOk s (nameToFat83 [65]) := scanOk_of_never (by rw [hdev]; exact fun _ => rfl) _
  have hf := hall s hv [65] (fun _ => 0) 1
  have hspec := (fat12WriteFile_spec hv.mounted [65] (fun _ => 0) 1).2.2 hok 0 0 htg
  exact not_framed_of_commits hv hspec hf

end AuraOS.Env.Fat12
