import AuraOS.Env.Fat12.Cells
import AuraOS.Env.Fat12.Write

/-!
# The disk after a prefix of a write

`after … k` is the disk when the first `k` of the twenty sector writes of a plan have taken effect.
For a data cluster the four areas of the volume do not overlap, and each is described by itself: the
FAT copies (`after_fat1`, `after_fat2`), the root directory (`rootEntry_after`) and the data area
(`after_data`).  `diskFat` is the first FAT as the disk has it, which is what `fat12Init` loads.
-/

namespace AuraOS.Env.Fat12

open AuraOS.Lib AuraOS.Kernel

/-! ### Clusters and sectors -/

/-- The subtraction of `clusterToLba` wraps for the two reserved cluster numbers, which fall on the
last two sectors of the root directory. -/
theorem clusterToLba_eq {cl : ℕ} (h : cl < 65536) : clusterToLba cl = 31 + cl := by
  change (33 + (cl + 2 ^ 32 - 2) % 2 ^ 32 * 1) % 2 ^ 32 = _
  omega

/-- A data cluster of the 2880-sector volume. -/
def DataCluster (cl : ℕ) : Prop := 2 ≤ cl ∧ cl < 2849

instance : DecidablePred DataCluster := fun cl => by unfold DataCluster; infer_instance

theorem DataCluster.lba {cl : ℕ} (h : DataCluster cl) :
    clusterToLba cl = 31 + cl ∧ 33 ≤ clusterToLba cl ∧ clusterToLba cl ≤ 2879 := by
  obtain ⟨h1, h2⟩ := h
  rw [clusterToLba_eq (by omega)]
  omega

/-- The allocator is a linear search. -/
theorem fat12AllocCluster_eq (fat : FatBuf) :
    fat12AllocCluster fat =
      (first (fun cl => fat12NextCluster fat cl = 0) (2848 - 2) 2).getD 0 := by
  have key : ∀ m k, allocLoop fat m k = (first (fun cl => fat12NextCluster fat cl = 0) m k).getD 0 := by
    intro m
    induction m with
    | zero => intro k; rfl
    | succ m ih =>
      intro k
      rw [first_succ]
      unfold allocLoop
      by_cases h0 : fat12NextCluster fat k = 0
      · simp [h0]
      · simp [h0, ih]
  exact key _ _

/-- The allocator returns a free data cluster. -/
theorem alloc_spec (fat : FatBuf) (h : fat12AllocCluster fat ≠ 0) :
    2 ≤ fat12AllocCluster fat ∧ fat12AllocCluster fat < 2848 ∧
      fat12NextCluster fat (fat12AllocCluster fat) = 0 := by
  rw [fat12AllocCluster_eq] at h ⊢
  cases hf : first (fun cl => fat12NextCluster fat cl = 0) (2848 - 2) 2 with
  | none => simp [hf] at h
  | some cl =>
    obtain ⟨h1, h2, h3, -⟩ := first_eq_some_iff.1 hf
    exact ⟨h1, by simpa using h2, by simpa using h3⟩

/-- The clusters below it are taken. -/
theorem alloc_lowest (fat : FatBuf) {cl : ℕ} (h : 2 ≤ cl) (hlt : cl < fat12AllocCluster fat) :
    fat12NextCluster fat cl ≠ 0 := by
  rw [fat12AllocCluster_eq] at hlt
  cases hf : first (fun cl => fat12NextCluster fat cl = 0) (2848 - 2) 2 with
  | none => simp [hf] at hlt
  | some d =>
    rw [hf, Option.getD_some] at hlt
    simpa using (first_eq_some_iff.1 hf).2.2.2 cl h hlt

/-- The allocator fails only when every cluster it looks at is taken. -/
theorem alloc_eq_zero_iff (fat : FatBuf) :
    fat12AllocCluster fat = 0 ↔ ∀ cl, 2 ≤ cl → cl < 2848 → fat12NextCluster fat cl ≠ 0 := by
  rw [fat12AllocCluster_eq]
  cases hf : first (fun cl => fat12NextCluster fat cl = 0) (2848 - 2) 2 with
  | none =>
    simp only [Option.getD_none, true_iff]
    intro cl h1 h2
    simpa using first_eq_none_iff.1 hf cl h1 (by omega)
  | some cl =>
    obtain ⟨h1, h2, h3, -⟩ := first_eq_some_iff.1 hf
    simp only [Option.getD_some]
    constructor
    · intro h
      omega
    · intro h
      exact absurd (by simpa using h3) (h cl h1 (by omega))

/-- The target of a write of a new file. -/
theorem target_of_new {c : ℕ → Sector} {fat : FatBuf} {n : Name83} {t cl : ℕ}
    (hnew : lookup c n = none) (h : target c fat n = some (t, cl)) :
    freeSlot c = some t ∧ cl = fat12AllocCluster fat ∧ cl ≠ 0 := by
  unfold target at h
  rw [hnew] at h
  cases hs : freeSlot c with
  | none => simp [hs] at h
  | some i =>
    simp only [hs] at h
    split at h
    · cases h
    · obtain ⟨rfl, rfl⟩ := Prod.mk.inj (Option.some.inj h)
      exact ⟨rfl, rfl, by assumption⟩

/-- The target of a write of an existing file. -/
theorem target_of_found {c : ℕ → Sector} {n : Name83} {i : ℕ} (h : lookup c n = some i)
    (fat : FatBuf) : target c fat n = some (i, (rootEntry c i).cluster.toNat) := by
  unfold target
  rw [h]

theorem target_slot_lt {c : ℕ → Sector} {fat : FatBuf} {n : Name83} {t cl : ℕ}
    (h : target c fat n = some (t, cl)) : t < 224 := by
  cases hl : lookup c n with
  | none => exact (freeSlot_eq_some_iff.1 (target_of_new hl h).1).1
  | some i =>
    rw [target_of_found hl fat] at h
    obtain ⟨rfl, rfl⟩ := Prod.mk.inj (Option.some.inj h)
    exact (lookup_eq_some_iff.1 hl).1

theorem target_cluster_lt {c : ℕ → Sector} {fat : FatBuf} {n : Name83} {t cl : ℕ}
    (h : target c fat n = some (t, cl)) : cl < 65536 := by
  cases hl : lookup c n with
  | none =>
    obtain ⟨-, rfl, hne⟩ := target_of_new hl h
    have := (alloc_spec fat hne).2.1
    omega
  | some i =>
    rw [target_of_found hl fat] at h
    obtain ⟨rfl, rfl⟩ := Prod.mk.inj (Option.some.inj h)
    exact UInt16.toNat_lt _

/-! ### The FAT flush -/

/-- A prefix of the flush. -/
theorem replay_flush_take (fat : FatBuf) (j : ℕ) (c : ℕ → Sector) (x : ℕ) :
    replay ((flushPlan fat).take j) c x =
      if 1 ≤ x ∧ x < 1 + min j 9 then fatSector fat (x - 1)
      else if 10 ≤ x ∧ x < 10 + min (j - 9) 9 then fatSector fat (x - 10)
      else c x := by
  unfold flushPlan
  rw [List.take_append, ← List.map_take, ← List.map_take, List.take_range, List.take_range,
    replay_append, replay_range, replay_range]
  simp only [List.length_map, List.length_range]
  by_cases h1 : 10 ≤ x ∧ x < 10 + min (j - 9) 9
  · rw [if_pos h1, if_neg (by omega), if_pos h1]
  · rw [if_neg h1, if_neg h1]

/-! ### A prefix of the plan -/

/-- The disk after the first `k` sector writes of a plan. -/
def after (c : ℕ → Sector) (fat : FatBuf) (n : Name83) (buf : ℕ → UInt8) (len t cl k : ℕ) :
    ℕ → Sector :=
  replay ((plan c fat n buf len t cl).take k) c

section After

variable {c : ℕ → Sector} {fat : FatBuf} {n : Name83} {buf : ℕ → UInt8} {len t cl k : ℕ}

@[simp] theorem after_zero : after c fat n buf len t cl 0 = c := rfl

theorem after_one : after c fat n buf len t cl 1 =
    Function.update c (clusterToLba cl) (dataSector buf len) := rfl

theorem after_add_two (j : ℕ) : after c fat n buf len t cl (j + 2) =
    replay ((flushPlan fat).take j)
      (Function.update (Function.update c (clusterToLba cl) (dataSector buf len)) (entrySector t)
        (entryWrite (Function.update c (clusterToLba cl) (dataSector buf len)) n len t cl).2) := rfl

theorem entrySector_mem (ht : t < 224) : 19 ≤ entrySector t ∧ entrySector t < 33 := by
  rw [entrySector_eq]
  omega

/-- **The data area** after `k` writes. -/
theorem after_data (ht : t < 224) {x : ℕ} (hx : 33 ≤ x) :
    after c fat n buf len t cl k x =
      if 1 ≤ k ∧ x = clusterToLba cl then dataSector buf len else c x := by
  have hT := entrySector_mem ht
  rcases k with _ | _ | j
  · rw [after_zero, if_neg (by omega)]
  · rw [after_one, Function.update_apply]
    exact if_congr (by omega) rfl rfl
  · rw [after_add_two, replay_flush_take, if_neg (by omega), if_neg (by omega),
      Function.update_of_ne (by omega), Function.update_apply]
    exact if_congr (by omega) rfl rfl

/-- **The root directory sectors** after `k` writes. -/
theorem after_root (ht : t < 224) (hL : 33 ≤ clusterToLba cl) {x : ℕ} (hx : 19 ≤ x) (hx' : x < 33) :
    after c fat n buf len t cl k x =
      if 2 ≤ k ∧ x = entrySector t then
        putDirent (c (entrySector t)) (entryOff t) (newDirent n cl len)
      else c x := by
  have hT := entrySector_mem ht
  rcases k with _ | _ | j
  · rw [after_zero, if_neg (by omega)]
  · rw [after_one, Function.update_of_ne (by omega), if_neg (by omega)]
  · rw [after_add_two, replay_flush_take, if_neg (by omega), if_neg (by omega)]
    by_cases h : x = entrySector t
    · subst h
      rw [Function.update_self, if_pos ⟨by omega, rfl⟩]
      unfold entryWrite
      rw [Function.update_of_ne (by omega)]
    · rw [Function.update_of_ne h, Function.update_of_ne (by omega), if_neg (by omega)]

/-- **The first FAT** after `k` writes. -/
theorem after_fat1 (ht : t < 224) (hcl : DataCluster cl) {i : ℕ} (hi : i < 9) :
    after c fat n buf len t cl k (1 + i) = if i + 3 ≤ k then fatSector fat i else c (1 + i) := by
  have hT := entrySector_mem ht
  have hL := hcl.lba
  rcases k with _ | _ | j
  · rw [after_zero, if_neg (by omega)]
  · rw [after_one, Function.update_of_ne (by omega), if_neg (by omega)]
  · rw [after_add_two, replay_flush_take, Function.update_of_ne (by omega),
      Function.update_of_ne (by omega)]
    by_cases h : i < j
    · rw [if_pos (by omega), if_pos (by omega), Nat.add_sub_cancel_left]
    · rw [if_neg (by omega), if_neg (by omega), if_neg (by omega)]

/-- **The second FAT** after `k` writes. -/
theorem after_fat2 (ht : t < 224) (hcl : DataCluster cl) {i : ℕ} (hi : i < 9) :
    after c fat n buf len t cl k (10 + i) = if i + 12 ≤ k then fatSector fat i else c (10 + i) := by
  have hT := entrySector_mem ht
  have hL := hcl.lba
  rcases k with _ | _ | j
  · rw [after_zero, if_neg (by omega)]
  · rw [after_one, Function.update_of_ne (by omega), if_neg (by omega)]
  · rw [after_add_two, replay_flush_take, if_neg (by omega), Function.update_of_ne (by omega),
      Function.update_of_ne (by omega)]
    by_cases h : i + 9 < j
    · rw [if_pos (by omega), if_pos (by omega), Nat.add_sub_cancel_left]
    · rw [if_neg (by omega), if_neg (by omega)]

/-- **The root directory** after `k` writes: from the second write on it has the new entry. -/
theorem rootEntry_after (ht : t < 224) (hL : 33 ≤ clusterToLba cl) {i : ℕ} (hi : i < 224) :
    rootEntry (after c fat n buf len t cl k) i =
      if 2 ≤ k ∧ i = t then newDirent n cl len else rootEntry c i := by
  have hI := entrySector_mem hi
  have hoff : entryOff i + 32 ≤ 512 ∧ entryOff t + 32 ≤ 512 := by
    rw [entryOff_eq, entryOff_eq]
    omega
  unfold rootEntry
  rw [after_root ht hL hI.1 hI.2]
  by_cases h : 2 ≤ k ∧ entrySector i = entrySector t
  · rw [if_pos h]
    by_cases hit : i = t
    · subst hit
      rw [if_pos ⟨h.1, rfl⟩, direntAt_putDirent _ hoff.2]
    · rw [if_neg fun e => hit e.2, ← h.2]
      refine direntAt_putDirent_of_disjoint _ _ hoff.1 ?_
      -- two slots of one sector
      have := h.2
      rw [entrySector_eq, entrySector_eq] at this
      rw [entryOff_eq, entryOff_eq]
      omega
  · rw [if_neg h, if_neg fun e => h ⟨e.1, by rw [e.2]⟩]

end After

/-! ### Mounting -/

/-- The first FAT as the disk has it. -/
def diskFat (c : ℕ → Sector) : FatBuf := .tab 4608 fun i => (c (1 + i / 512)).rd (i % 512)

/-- The second copy. -/
def diskFat2 (c : ℕ → Sector) : FatBuf := .tab 4608 fun i => (c (10 + i / 512)).rd (i % 512)

theorem rd_fatSector (fat : FatBuf) {i j : ℕ} (hj : j < 512) :
    (fatSector fat i).rd j = fat.rd (i * 512 + j) := Buf.rd_tab _ hj

section DiskFat

variable {c : ℕ → Sector} {fat : FatBuf} {n : Name83} {buf : ℕ → UInt8} {len t cl k : ℕ}

/-- **The first FAT on the disk** after `k` writes: the first `k - 2` sectors are new. -/
theorem rd_diskFat_after (ht : t < 224) (hcl : DataCluster cl) {i : ℕ} (hi : i < 4608) :
    (diskFat (after c fat n buf len t cl k)).rd i =
      if i / 512 + 3 ≤ k then fat.rd i else (diskFat c).rd i := by
  unfold diskFat
  rw [Buf.rd_tab _ hi, Buf.rd_tab _ hi, after_fat1 ht hcl (by omega)]
  split
  · rw [rd_fatSector fat (Nat.mod_lt _ (by decide)), Nat.div_add_mod']
  · rfl

theorem rd_diskFat2_after (ht : t < 224) (hcl : DataCluster cl) {i : ℕ} (hi : i < 4608) :
    (diskFat2 (after c fat n buf len t cl k)).rd i =
      if i / 512 + 12 ≤ k then fat.rd i else (diskFat2 c).rd i := by
  unfold diskFat2
  rw [Buf.rd_tab _ hi, Buf.rd_tab _ hi, after_fat2 ht hcl (by omega)]
  split
  · rw [rd_fatSector fat (Nat.mod_lt _ (by decide)), Nat.div_add_mod']
  · rfl

/-- All writes of a call leave the FAT that they flush on the disk. -/
theorem diskFat_after_all (c : ℕ → Sector) (fat : FatBuf) (n : Name83) (buf : ℕ → UInt8) (len t cl : ℕ) :
    diskFat (after c fat n buf len t cl 20) = fat := by
  refine Buf.ext_rd fun i hi => ?_
  unfold diskFat
  rw [Buf.rd_tab _ hi, after_add_two, replay_flush_take, if_pos (by omega), Nat.add_sub_cancel_left,
    rd_fatSector fat (Nat.mod_lt _ (by decide)), Nat.div_add_mod']

end DiskFat

/-- The loading loop copies the sectors of the first FAT, when none of its reads fails. -/
theorem initLoop_spec : ∀ (m i : ℕ) (s : Driver), i + m ≤ 9 →
    (initLoop m i s).1 = decide (streak s.dev.fault s.dev.ops m = m) ∧
      ((initLoop m i s).1 = true →
        s.dev.Wrote [] m (initLoop m i s).2.dev ∧
        ∀ x < 4608, (initLoop m i s).2.sFatBuf.rd x =
          if i ≤ x / 512 ∧ x / 512 < i + m then (s.dev.cell (1 + x / 512)).rd (x % 512)
          else s.sFatBuf.rd x) := by
  intro m
  induction m with
  | zero =>
    intro i s _
    refine ⟨rfl, fun _ => ⟨Device.Wrote.refl s.dev, fun x _ => ?_⟩⟩
    rw [if_neg (by omega)]
    rfl
  | succ m ih =>
    intro i s him
    have hw := Device.wrote_read s.dev (fat1Lba + i)
    unfold initLoop
    cases hf : s.dev.fault s.dev.ops with
    | true =>
      rw [← Prod.eta (s.dev.read (fat1Lba + i)), Device.read_fst_of_fault hf]
      refine ⟨?_, nofun⟩
      simp [streak, hf]
    | false =>
      rw [← Prod.eta (s.dev.read (fat1Lba + i)), Device.read_fst_of_ok hf]
      simp only
      obtain ⟨h1, h2⟩ := ih (i + 1)
        { s with dev := (s.dev.read (fat1Lba + i)).2
                 sFatBuf := s.sFatBuf.blit (i * bytesPerSector) 512
                   (s.dev.cell (fat1Lba + i)).rd } (by omega)
      refine ⟨?_, fun h => ?_⟩
      · rw [h1]
        simp only [hw.fault, hw.ops, streak, hf]
        simp
      · obtain ⟨w, hrd⟩ := h2 h
        refine ⟨Nat.add_comm m 1 ▸ hw.trans w, fun x hx => ?_⟩
        rw [hrd x hx, Buf.rd_blit _ _ _ _ hx]
        simp only [show (s.dev.read (fat1Lba + i)).2.cell = s.dev.cell from rfl]
        rw [show bytesPerSector = 512 from rfl]
        by_cases h1 : x / 512 = i
        · rw [if_neg (by omega), if_pos (by omega), if_pos (by omega), h1,
            show x - i * 512 = x % 512 by omega]
        · rw [if_neg (show ¬ (i * 512 ≤ x ∧ x < i * 512 + 512) by omega)]
          exact if_congr (by omega) rfl rfl

/-- A mount succeeds exactly when none of its nine reads fails. -/
theorem fat12Init_eq_ok_iff {s : Driver} :
    (fat12Init s).1 = .ok ↔ streak s.dev.fault s.dev.ops 9 = 9 := by
  have h := (initLoop_spec fatSizeSectors 0 s (Nat.le_refl 9)).1
  change (initLoop fatSizeSectors 0 s).1 = decide (streak s.dev.fault s.dev.ops 9 = 9) at h
  unfold fat12Init
  rw [← Prod.eta (initLoop fatSizeSectors 0 s), h]
  by_cases hk : streak s.dev.fault s.dev.ops 9 = 9 <;> simp [hk]

/-- **A successful mount** has the first FAT of the disk in the cache, and changes nothing else. -/
theorem fat12Init_spec {s s' : Driver} (h : fat12Init s = (.ok, s')) :
    s'.sFatLoaded = true ∧ s'.sFatBuf = diskFat s.dev.cell ∧ s.dev.Wrote [] 9 s'.dev := by
  obtain ⟨-, h2⟩ := initLoop_spec fatSizeSectors 0 s (Nat.le_refl 9)
  unfold fat12Init at h
  rcases hl : initLoop fatSizeSectors 0 s with ⟨_ | _, s₁⟩
  · rw [hl] at h
    cases h
  · rw [hl] at h h2
    obtain ⟨-, rfl⟩ := Prod.mk.inj h
    obtain ⟨hw, hrd⟩ := h2 rfl
    refine ⟨rfl, Buf.ext_rd fun x hx => ?_, hw⟩
    unfold diskFat
    rw [Buf.rd_tab _ hx]
    exact (hrd x hx).trans (if_pos ⟨Nat.zero_le _, by change x / 512 < 0 + 9; omega⟩)

/-- The driver at start-up, on a disk with contents `c`. -/
def Driver.boot (c : ℕ → Sector) (fault : ℕ → Bool) : Driver where
  dev := { cell := c, fault := fault, ops := 0, log := [] }
  sSectorBuf := .tab 512 fun _ => 0
  sFatBuf := .tab 4608 fun _ => 0
  sFatLoaded := false

/-- The driver after the mount. -/
def Driver.mounted (c : ℕ → Sector) (fault : ℕ → Bool) : Driver := (fat12Init (.boot c fault)).2

section Mounted

variable (c : ℕ → Sector) {f : ℕ → Bool}

theorem fat12Init_boot (h : ∀ t < 9, f t = false) :
    fat12Init (.boot c f) = (.ok, .mounted c f) := by
  refine Prod.ext (fat12Init_eq_ok_iff.2 ?_) rfl
  exact (streak_eq_iff 0 9).2 fun j hj => by rw [Nat.zero_add]; exact h j hj

theorem mounted_spec (h : ∀ t < 9, f t = false) :
    (Driver.mounted c f).sFatLoaded = true ∧ (Driver.mounted c f).sFatBuf = diskFat c ∧
      (Driver.mounted c f).dev = { cell := c, fault := f, ops := 9, log := [] } := by
  obtain ⟨h1, h2, h3⟩ := fat12Init_spec (fat12Init_boot c h)
  refine ⟨h1, h2, ?_⟩
  obtain ⟨e1, e2, e3, e4⟩ := h3
  generalize (Driver.mounted c f).dev = d at *
  obtain ⟨cell, fault, ops, log⟩ := d
  simp only at e1 e2 e3 e4
  subst e1 e2 e3 e4
  rfl

end Mounted

/-! ### A formatted volume -/

/-- A freshly formatted volume: every data cluster is free and the root directory is blank. -/
structure Formatted (c : ℕ → Sector) : Prop where
  free : ∀ cl, DataCluster cl → fat12NextCluster (diskFat c) cl = 0
  root : ∀ x, 19 ≤ x → x < 33 → ∀ j < 512, (c x).rd j = 0

/-- The disk that formatting leaves: the media descriptor in both FAT copies, zeros elsewhere. -/
def blankDisk (x : ℕ) : Sector :=
  .tab 512 fun j => if (x = 1 ∨ x = 10) ∧ j < 3 then (if j = 0 then 0xF0 else 0xFF) else 0

theorem rd_diskFat_blankDisk {i : ℕ} (hi : i < 4608) :
    (diskFat blankDisk).rd i = if i < 3 then (if i = 0 then 0xF0 else 0xFF) else 0 := by
  unfold diskFat blankDisk
  rw [Buf.rd_tab _ hi, Buf.rd_tab _ (Nat.mod_lt _ (by decide))]
  by_cases h : i < 3
  · rw [if_pos (by omega), if_pos h]
    exact if_congr (by omega) rfl rfl
  · rw [if_neg (by omega), if_neg h]

theorem diskFat2_blankDisk : diskFat2 blankDisk = diskFat blankDisk := by
  refine Buf.tab_congr fun i hi => congrFun (congrArg Buf.rd ?_) _
  unfold blankDisk
  refine Buf.tab_congr fun j _ => if_congr ?_ rfl rfl
  omega

theorem media_blankDisk : fat12NextCluster (diskFat blankDisk) 0 = 0xFF0 := by
  rw [next_even _ (by omega) rfl, rd_diskFat_blankDisk (by decide), rd_diskFat_blankDisk (by decide)]
  decide

theorem formatted_blankDisk : Formatted blankDisk := by
  constructor
  · rintro cl ⟨h1, h2⟩
    have h0 : ∀ i, 3 ≤ i → i < 4608 → (diskFat blankDisk).rd i = 0 := fun i hi hi' => by
      rw [rd_diskFat_blankDisk hi', if_neg (by omega)]
    have hoff : 3 ≤ cellOff cl ∧ cellOff cl + 1 < 4608 := by
      unfold cellOff
      omega
    rcases Nat.mod_two_eq_zero_or_one cl with h | h
    · rw [next_even _ (by omega) h, h0 _ hoff.1 (by omega), h0 _ (by omega) hoff.2]
      rfl
    · rw [next_odd _ (by omega) h, h0 _ hoff.1 (by omega), h0 _ (by omega) hoff.2]
      rfl
  · intro x h1 h2 j hj
    unfold blankDisk
    rw [Buf.rd_tab _ hj, if_neg (by omega)]

theorem Formatted.isEnd {c : ℕ → Sector} (h : Formatted c) {i : ℕ} (hi : i < 224) :
    (rootEntry c i).isEnd = true := by
  have hI := entrySector_mem hi
  have hoff : entryOff i + 0 < 512 := by
    rw [entryOff_eq]
    omega
  unfold Dirent.isEnd rootEntry direntAt
  simp only [decide_eq_true_eq]
  rw [Buf.rd_tab _ (by omega)]
  exact h.root _ hI.1 hI.2 _ hoff

theorem Formatted.scanReads {c : ℕ → Sector} (h : Formatted c) (n : Name83) :
    scanReads c n rootEntryCount 0 = 1 := by
  change Fat12.scanReads c n (223 + 1) 0 = 1
  unfold Fat12.scanReads stopsAt
  rw [h.isEnd (by omega), Bool.true_or, if_pos rfl]

/-- A write to a formatted volume uses its first slot and its first cluster. -/
theorem Formatted.target {c : ℕ → Sector} (h : Formatted c) (n : Name83) :
    target c (diskFat c) n = some (0, 2) := by
  have h0 := h.isEnd (show 0 < 224 by omega)
  have hl : lookup c n = none := lookup_eq_none_iff.2 fun i hi hend => by
    rcases Nat.eq_zero_or_pos i with rfl | hpos
    · exact Dirent.hits_eq_false_of_isFree (Dirent.isFree_of_isEnd h0) n
    · rw [hend 0 hpos] at h0
      cases h0
  have hs : freeSlot c = some 0 := freeSlot_eq_some_iff.2
    ⟨by omega, Dirent.isFree_of_isEnd h0, nofun⟩
  have ha : fat12AllocCluster (diskFat c) = 2 := by
    change allocLoop (diskFat c) (2845 + 1) 2 = 2
    unfold allocLoop
    rw [if_pos (h.free 2 (by decide))]
  unfold Fat12.target
  rw [hl]
  simp [hs, ha]

/-! ### Putting an entry on a disk -/

/-- The disk `c` with the entry `de` in slot `t` of the root directory. -/
def withEntry (c : ℕ → Sector) (t : ℕ) (de : Dirent) : ℕ → Sector :=
  Function.update c (entrySector t) (putDirent (c (entrySector t)) (entryOff t) de)

section WithEntry

variable (c : ℕ → Sector) {t : ℕ} (de : Dirent)

theorem rootEntry_withEntry {i : ℕ} :
    rootEntry (withEntry c t de) i = if i = t then de else rootEntry c i := by
  have hoff : entryOff i + 32 ≤ 512 ∧ entryOff t + 32 ≤ 512 := by
    rw [entryOff_eq, entryOff_eq]
    omega
  unfold rootEntry withEntry
  by_cases hit : i = t
  · rw [if_pos hit, hit, Function.update_self, direntAt_putDirent _ hoff.2]
  · rw [if_neg hit]
    by_cases hsec : entrySector i = entrySector t
    · rw [hsec, Function.update_self]
      refine direntAt_putDirent_of_disjoint _ _ hoff.1 ?_
      rw [entrySector_eq, entrySector_eq] at hsec
      rw [entryOff_eq, entryOff_eq]
      omega
    · rw [Function.update_of_ne hsec]

theorem withEntry_of_lt {x : ℕ} (hx : x < 19) : withEntry c t de x = c x := by
  refine Function.update_of_ne ?_ _ _
  rw [entrySector_eq]
  omega

theorem diskFat_withEntry : diskFat (withEntry c t de) = diskFat c :=
  Buf.tab_congr fun i hi => by rw [withEntry_of_lt c de (by omega)]

theorem diskFat2_withEntry : diskFat2 (withEntry c t de) = diskFat2 c :=
  Buf.tab_congr fun i hi => by rw [withEntry_of_lt c de (by omega)]

end WithEntry

/-- The disk `c` with the table `fat` in both FAT copies. -/
def withFat (c : ℕ → Sector) (fat : FatBuf) : ℕ → Sector := replay (flushPlan fat) c

section WithFat

variable (c : ℕ → Sector) (fat : FatBuf)

theorem withFat_apply (x : ℕ) : withFat c fat x =
    if 1 ≤ x ∧ x < 10 then fatSector fat (x - 1)
    else if 10 ≤ x ∧ x < 19 then fatSector fat (x - 10) else c x := by
  have h := replay_flush_take fat 18 c x
  rwa [List.take_of_length_le (Nat.le_of_eq (length_flushPlan fat))] at h

theorem diskFat_withFat : diskFat (withFat c fat) = fat := by
  refine Buf.ext_rd fun i hi => ?_
  unfold diskFat
  rw [Buf.rd_tab _ hi, withFat_apply, if_pos (by omega), Nat.add_sub_cancel_left,
    rd_fatSector _ (Nat.mod_lt _ (by decide)), Nat.div_add_mod']

theorem rootEntry_withFat (i : ℕ) : rootEntry (withFat c fat) i = rootEntry c i := by
  unfold rootEntry
  rw [withFat_apply, entrySector_eq, if_neg (by omega), if_neg (by omega)]

end WithFat

end AuraOS.Env.Fat12
