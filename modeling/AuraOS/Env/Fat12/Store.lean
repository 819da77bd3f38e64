import AuraOS.Env.Fat12.Layout
import Mathlib.Order.Interval.Finset.Nat

/-!
# The FAT12 store is a map

On a disk that works, the files of the root directory form a finite map from 8.3 forms to their bytes:
`files c`.  A write of a file is an update of this map at one form (`files_after`) as long as the
directory is `Tidy`: the used slots come first, with distinct names and distinct, taken data clusters.
Tidiness is what every write preserves (`Tidy.after`), so that a run of writes from a formatted volume
is a run of map updates (`Holds.run`).
-/

namespace AuraOS.Env.Fat12

open AuraOS.Lib AuraOS.Kernel

/-! ### Names -/

/-- A non-empty name of printable ASCII characters. -/
def Printable (name : CStr) : Prop := name ≠ [] ∧ ∀ ch ∈ name, 0x20 ≤ ch ∧ ch ≤ 0x7E

instance : DecidablePred Printable := fun name =>
  have := List.decidableBAll (fun ch : UInt8 => 0x20 ≤ ch ∧ ch ≤ 0x7E) name
  inferInstanceAs (Decidable (_ ∧ _))

theorem toUpper_cases (ch : UInt8) :
    toUpper ch = ch ∨ (65 ≤ (toUpper ch).toNat ∧ (toUpper ch).toNat ≤ 90) := by
  unfold toUpper
  split
  · rename_i h
    rw [UInt8.le_iff_toNat_le, UInt8.le_iff_toNat_le] at h
    rw [UInt8.toNat_add, UInt8.toNat_sub]
    simp only [UInt8.reduceToNat] at h ⊢
    omega
  · exact Or.inl rfl

theorem toUpper_ne_zero {ch : UInt8} (h : ch ≠ 0) : toUpper ch ≠ 0 := by
  rcases toUpper_cases ch with e | ⟨h1, -⟩
  · rwa [e]
  · intro e
    rw [e] at h1
    exact absurd h1 (by decide)

theorem toUpper_printable {ch : UInt8} (h : 0x20 ≤ ch ∧ ch ≤ 0x7E) : toUpper ch ≠ 0xE5 := by
  intro e
  rcases toUpper_cases ch with e' | ⟨-, h2⟩
  · rw [e'.symm.trans e] at h
    exact absurd h.2 (by decide)
  · rw [e] at h2
    exact absurd h2 (by decide)

theorem toUpper_ne_dot {ch : UInt8} (h : ch ≠ 46) : toUpper ch ≠ 46 := by
  rcases toUpper_cases ch with e | ⟨h1, -⟩
  · rwa [e]
  · intro e
    rw [e] at h1
    exact absurd h1 (by decide)

/-- What holds of the padding and of every character of a name holds of its whole 8.3 form. -/
theorem nameLoop_forall {p : UInt8 → Prop} : ∀ (src : CStr) (di : ℕ) (dst : Name83),
    (∀ ch ∈ src, ch ≠ 0 → ch ≠ 46 → p (toUpper ch)) → (∀ i < 11, p (dst.rd i)) →
      ∀ i < 11, p ((nameLoop src di dst).rd i) := by
  intro src
  induction src with
  | nil => exact fun di dst _ h => h
  | cons ch src ih =>
    intro di dst hsrc hdst
    have hrest := fun x hx => hsrc x (List.mem_cons_of_mem ch hx)
    unfold nameLoop
    by_cases hgo : ch ≠ 0 ∧ di < 11
    swap
    · rw [if_neg hgo]
      exact hdst
    rw [if_pos hgo]
    by_cases hdot : ch = 46
    · rw [if_pos hdot]
      exact ih 8 dst hrest hdst
    rw [if_neg hdot]
    refine ih (di + 1) _ hrest fun i hi => ?_
    rw [Buf.rd_wr _ hgo.2]
    by_cases hi' : i = di
    · rw [if_pos hi']
      exact hsrc ch List.mem_cons_self hgo.1 hdot
    · rw [if_neg hi']
      exact hdst i hi

/-- No character of an 8.3 form is NUL. -/
theorem nameToFat83_ne_zero (name : CStr) {i : ℕ} (hi : i < 11) : (nameToFat83 name).rd i ≠ 0 :=
  nameLoop_forall (p := fun x => x ≠ 0) name 0 _ (fun _ _ h _ => toUpper_ne_zero h)
    (fun i hi => by rw [Buf.rd_tab _ hi]; decide) i hi

/-- The dot of a name is not stored. -/
theorem nameToFat83_ne_dot (name : CStr) {i : ℕ} (hi : i < 11) : (nameToFat83 name).rd i ≠ 46 :=
  nameLoop_forall (p := fun x => x ≠ 46) name 0 _ (fun _ _ _ h => toUpper_ne_dot h)
    (fun i hi => by rw [Buf.rd_tab _ hi]; decide) i hi

/-- The 8.3 form of a printable name does not look like a deleted entry. -/
theorem nameToFat83_ne_E5 {name : CStr} (h : Printable name) {i : ℕ} (hi : i < 11) :
    (nameToFat83 name).rd i ≠ 0xE5 :=
  nameLoop_forall (p := fun x => x ≠ 0xE5) name 0 _ (fun ch hch _ _ => toUpper_printable (h.2 ch hch))
    (fun i hi => by rw [Buf.rd_tab _ hi]; decide) i hi

/-! ### Calls on a working disk -/

section Working

variable {s : Driver}

theorem scanOk_of_never (hok : ∀ t, s.dev.fault t = false) (n : Name83) : ScanOk s n :=
  streak_of_never hok _ _

theorem done_of_never (hok : ∀ t, s.dev.fault t = false) (n : Name83) : done s n = 20 :=
  progress_of_never hok _

/-- **A write on a working disk** performs all of its plan, or finds no room. -/
theorem fat12WriteFile_of_ok (hm : s.sFatLoaded = true) (hok : ∀ t, s.dev.fault t = false)
    (name : CStr) (buf : ℕ → UInt8) (len : ℕ) :
    let n := nameToFat83 name
    let out := fat12WriteFile (some name) (some buf) len s
    out.2.sFatLoaded = true ∧ (∀ t, out.2.dev.fault t = false) ∧
    match target s.dev.cell s.sFatBuf n with
    | none => out.1 = none ∧ out.2.dev.cell = s.dev.cell ∧ out.2.sFatBuf = s.sFatBuf
    | some (t, cl) =>
      out.1 = some (capLen len) ∧ out.2.sFatBuf = fat12SetCluster s.sFatBuf cl 0xFFF ∧
        out.2.dev.cell =
          after s.dev.cell (fat12SetCluster s.sFatBuf cl 0xFFF) n buf (capLen len) t cl 20 := by
  obtain ⟨-, hnone, hsome⟩ := fat12WriteFile_spec hm name buf len
  simp only
  rcases htg : target s.dev.cell s.sFatBuf (nameToFat83 name) with _ | ⟨t, cl⟩
  · obtain ⟨h1, j, h2⟩ := hnone htg
    exact ⟨h2.loaded.trans hm, fun t => by rw [h2.dev.fault, hok], h1, h2.cell, h2.fat⟩
  · obtain ⟨h1, j, h2⟩ := hsome (scanOk_of_never hok _) t cl htg
    rw [done_of_never hok] at h1 h2
    exact ⟨h2.loaded.trans hm, fun t => by rw [h2.dev.fault, hok], h1, h2.fat, h2.dev.cell⟩

end Working

/-! ### A tidy directory -/

/-- The root directory has its `k` used slots in front, all of regular files; names and clusters are
distinct, and the clusters are data clusters that the FAT `fat` has as taken. -/
structure Tidy (c : ℕ → Sector) (fat : FatBuf) (k : ℕ) : Prop where
  slots : k ≤ 224
  used : ∀ i < k, (rootEntry c i).isFree = false ∧ skipAttr (rootEntry c i).attr = false
  unused : ∀ i < 224, k ≤ i → (rootEntry c i).isEnd = true
  names : ∀ i < k, ∀ j < k, (rootEntry c i).name = (rootEntry c j).name → i = j
  data : ∀ i < k, DataCluster (rootEntry c i).cluster.toNat
  clusters : ∀ i < k, ∀ j < k,
    (rootEntry c i).cluster.toNat = (rootEntry c j).cluster.toNat → i = j
  taken : ∀ i < k, fat12NextCluster fat (rootEntry c i).cluster.toNat ≠ 0

/-- Slot `t` and cluster `cl` are fit for the file `n`: no other slot in use has either of them. -/
structure Fits (c : ℕ → Sector) (k : ℕ) (n : Name83) (t cl : ℕ) : Prop where
  slot : t < 224
  le : t ≤ k
  data : DataCluster cl
  same : t < k → (rootEntry c t).name = n
  other : ∀ i < k, i ≠ t → (rootEntry c i).name ≠ n ∧ (rootEntry c i).cluster.toNat ≠ cl

section Tidy

variable {c : ℕ → Sector} {fat : FatBuf} {k : ℕ}

/-- A formatted volume has no slot in use. -/
theorem Formatted.tidy (h : Formatted c) (fat : FatBuf) : Tidy c fat 0 :=
  ⟨Nat.zero_le _, nofun, fun _ hi _ => h.isEnd hi, nofun, nofun, nofun, nofun⟩

theorem Tidy.isEnd_eq_false (h : Tidy c fat k) {i : ℕ} (hi : i < k) :
    (rootEntry c i).isEnd = false := by
  by_contra hh
  have := Dirent.isFree_of_isEnd (show (rootEntry c i).isEnd = true by simpa using hh)
  rw [(h.used i hi).1] at this
  cases this

theorem Tidy.lt_of_not_isFree (h : Tidy c fat k) {i : ℕ} (hi : i < 224)
    (hf : (rootEntry c i).isFree = false) : i < k := by
  by_contra hk
  have := Dirent.isFree_of_isEnd (h.unused i hi (by omega))
  rw [hf] at this
  cases this

theorem Tidy.hits_iff (h : Tidy c fat k) {i : ℕ} (hi : i < k) (n : Name83) :
    (rootEntry c i).hits n = true ↔ (rootEntry c i).name = n := by
  obtain ⟨h1, h2⟩ := h.used i hi
  simp [Dirent.hits, h1, h2]

/-- In a tidy directory a file is found by its name alone. -/
theorem Tidy.lookup_eq_some_iff (h : Tidy c fat k) {n : Name83} {i : ℕ} :
    lookup c n = some i ↔ i < k ∧ (rootEntry c i).name = n := by
  have hk := h.slots
  rw [Fat12.lookup_eq_some_iff]
  constructor
  · rintro ⟨h1, h2, -⟩
    have hfree : (rootEntry c i).isFree = false := by
      simp [Dirent.hits] at h2
      exact h2.1.1
    have hi := h.lt_of_not_isFree h1 hfree
    exact ⟨hi, (h.hits_iff hi n).1 h2⟩
  · rintro ⟨hi, hn⟩
    refine ⟨by omega, (h.hits_iff hi n).2 hn, fun j hj => ⟨h.isEnd_eq_false (by omega), ?_⟩⟩
    by_contra hh
    have hj' : j < k := by omega
    have : (rootEntry c j).name = n := (h.hits_iff hj' n).1 (by simpa using hh)
    have := h.names j hj' i hi (this.trans hn.symm)
    omega

/-- **The target of a write into a tidy directory fits.** -/
theorem Tidy.fits (h : Tidy c fat k) {n : Name83} {t cl : ℕ}
    (ht : target c fat n = some (t, cl)) : Fits c k n t cl := by
  cases hl : lookup c n with
  | some i =>
    rw [target_of_found hl fat] at ht
    obtain ⟨rfl, rfl⟩ := Prod.mk.inj (Option.some.inj ht)
    obtain ⟨hi, hn⟩ := h.lookup_eq_some_iff.1 hl
    have hk := h.slots
    refine ⟨by omega, by omega, h.data i hi, fun _ => hn, fun j hj hne => ⟨fun e => ?_, fun e => ?_⟩⟩
    · exact hne (h.names j hj i hi (e.trans hn.symm))
    · exact hne (h.clusters j hj i hi e)
  | none =>
    obtain ⟨hs, hcl, h0⟩ := target_of_new hl ht
    obtain ⟨s1, s2, -⟩ := freeSlot_eq_some_iff.1 hs
    obtain ⟨a1, a2, a3⟩ := alloc_spec fat (hcl ▸ h0)
    rw [← hcl] at a1 a2 a3
    have htk : k ≤ t := by
      by_contra hlt
      rw [(h.used t (by omega)).1] at s2
      cases s2
    have hkt : t ≤ k := by
      by_contra hlt
      have := not_isEnd_of_freeSlot hs (show k < t by omega)
      rw [h.unused k (by omega) (by omega)] at this
      cases this
    refine ⟨s1, hkt, ⟨a1, by omega⟩, fun h' => by omega, fun i hi _ => ⟨fun e => ?_, fun e => ?_⟩⟩
    · rw [h.lookup_eq_some_iff.2 ⟨hi, e⟩] at hl
      cases hl
    · exact h.taken i hi (e ▸ a3)

end Tidy

/-! ### The new entry -/

theorem newDirent_cluster (n : Name83) {cl : ℕ} (len : ℕ) (h : cl < 65536) :
    (newDirent n cl len).cluster.toNat = cl := by
  change (UInt16.ofNat cl).toNat = cl
  rw [UInt16.toNat_ofNat']
  omega

theorem newDirent_size (n : Name83) (cl : ℕ) {len : ℕ} (h : len ≤ 512) :
    (newDirent n cl len).size.toNat = len := by
  change (UInt32.ofNat len).toNat = len
  rw [UInt32.toNat_ofNat']
  omega

theorem newDirent_isEnd {n : Name83} (h : n.rd 0 ≠ 0x00) (cl len : ℕ) :
    (newDirent n cl len).isEnd = false := by
  simp [Dirent.isEnd, newDirent, h]

theorem newDirent_isFree {n : Name83} (h : n.rd 0 ≠ 0x00) (h' : n.rd 0 ≠ 0xE5) (cl len : ℕ) :
    (newDirent n cl len).isFree = false := by
  simp [Dirent.isFree, newDirent, h, h']

section Step

variable {c : ℕ → Sector} {fat : FatBuf} {k : ℕ} {n : Name83} {t cl : ℕ}

/-- **A write keeps the directory tidy.** -/
theorem Tidy.after (h : Tidy c fat k) (hf : Fits c k n t cl) (h0 : n.rd 0 ≠ 0x00)
    (hE : n.rd 0 ≠ 0xE5) (buf : ℕ → UInt8) (len : ℕ) :
    Tidy (after c (fat12SetCluster fat cl 0xFFF) n buf len t cl 20) (fat12SetCluster fat cl 0xFFF)
      (max k (t + 1)) := by
  obtain ⟨ht, htk, hcl, -, hother⟩ := hf
  have hk := h.slots
  have hcl16 : cl < 65536 := by have := hcl.2; omega
  -- a used slot is the target, or was in use before
  have hcase : ∀ i < max k (t + 1), i = t ∨ (i ≠ t ∧ i < k) := fun i hi => by omega
  have hself : rootEntry (Fat12.after c (fat12SetCluster fat cl 0xFFF) n buf len t cl 20) t =
      newDirent n cl len := by rw [rootEntry_after ht hcl.lba.2.1 ht, if_pos (by omega)]
  have hne : ∀ i < 224, i ≠ t →
      rootEntry (Fat12.after c (fat12SetCluster fat cl 0xFFF) n buf len t cl 20) i =
        rootEntry c i := fun i hi hit => by rw [rootEntry_after ht hcl.lba.2.1 hi, if_neg (by omega)]
  have hnum := newDirent_cluster n len hcl16
  constructor
  · omega
  · intro i hi
    rcases hcase i hi with rfl | ⟨hit, hik⟩
    · rw [hself]
      exact ⟨newDirent_isFree h0 hE cl len, rfl⟩
    · rw [hne i (by omega) hit]
      exact h.used i hik
  · intro i hi hki
    rw [hne i hi (by omega)]
    exact h.unused i hi (by omega)
  · intro i hi j hj he
    rcases hcase i hi with rfl | ⟨hit, hik⟩ <;> rcases hcase j hj with rfl | ⟨hjt, hjk⟩
    · rfl
    · rw [hself, hne j (by omega) hjt] at he
      exact absurd he.symm (hother j hjk hjt).1
    · rw [hself, hne i (by omega) hit] at he
      exact absurd he (hother i hik hit).1
    · rw [hne i (by omega) hit, hne j (by omega) hjt] at he
      exact h.names i hik j hjk he
  · intro i hi
    rcases hcase i hi with rfl | ⟨hit, hik⟩
    · rw [hself, hnum]
      exact hcl
    · rw [hne i (by omega) hit]
      exact h.data i hik
  · intro i hi j hj he
    rcases hcase i hi with rfl | ⟨hit, hik⟩ <;> rcases hcase j hj with rfl | ⟨hjt, hjk⟩
    · rfl
    · rw [hself, hnum, hne j (by omega) hjt] at he
      exact absurd he.symm (hother j hjk hjt).2
    · rw [hself, hnum, hne i (by omega) hit] at he
      exact absurd he (hother i hik hit).2
    · rw [hne i (by omega) hit, hne j (by omega) hjt] at he
      exact h.clusters i hik j hjk he
  · intro i hi
    have hlt : cl < 3072 := by have := hcl.2; omega
    rcases hcase i hi with rfl | ⟨hit, hik⟩
    · rw [hself, hnum, next_set_self fat _ hlt]
      decide
    · rw [hne i (by omega) hit, next_set_of_ne fat _ (hother i hik hit).2]
      exact h.taken i hik

/-! ### The map of files -/

/-- The bytes of the file `n`: at most one sector of them. -/
def files (c : ℕ → Sector) (n : Name83) : Option (List UInt8) := fileBytes c n 512

/-- The bytes that a write of `len` bytes of `buf` stores. -/
def stored (buf : ℕ → UInt8) (len : ℕ) : List UInt8 := (List.range (min len 512)).map buf

theorem fileBytes_eq (c : ℕ → Sector) (n : Name83) (len : ℕ) :
    fileBytes c n len = (files c n).map (List.take len) := by
  unfold files fileBytes
  cases lookup c n with
  | none => rfl
  | some i =>
    simp only [Option.map_some, ← List.map_take, List.take_range]
    congr 3
    omega

theorem take_stored (buf : ℕ → UInt8) (len m : ℕ) :
    (stored buf len).take m = (List.range (min (min m 512) len)).map buf := by
  unfold stored
  rw [← List.map_take, List.take_range]
  congr 2
  omega

/-- **A write updates the map of files at its name, and nowhere else.** -/
theorem files_after (h : Tidy c fat k) (hf : Fits c k n t cl) (h0 : n.rd 0 ≠ 0x00)
    (hE : n.rd 0 ≠ 0xE5) (buf : ℕ → UInt8) (len : ℕ) :
    files (after c (fat12SetCluster fat cl 0xFFF) n buf (capLen len) t cl 20) =
      Function.update (files c) n (some (stored buf len)) := by
  have h' := h.after hf h0 hE buf (capLen len)
  obtain ⟨ht, htk, hcl, hsame, hother⟩ := hf
  have hlen : capLen len = min len 512 := capLen_eq len
  have hk := h.slots
  funext n'
  by_cases hn : n' = n
  · -- the file itself
    subst hn
    have hself : rootEntry (Fat12.after c (fat12SetCluster fat cl 0xFFF) n' buf (capLen len) t cl 20)
        t = newDirent n' cl (capLen len) := by rw [rootEntry_after ht hcl.lba.2.1 ht, if_pos (by omega)]
    have hl : lookup (Fat12.after c (fat12SetCluster fat cl 0xFFF) n' buf (capLen len) t cl 20) n' =
        some t := h'.lookup_eq_some_iff.2 ⟨by omega, by rw [hself]; rfl⟩
    rw [Function.update_self]
    unfold files fileBytes stored
    rw [hl, Option.map_some, hself, newDirent_size _ _ (by omega),
      newDirent_cluster _ _ (by have := hcl.2; omega), after_data ht hcl.lba.2.1,
      if_pos ⟨by omega, rfl⟩, hlen, Nat.min_assoc, Nat.min_self, Nat.min_assoc, Nat.min_self]
    refine congrArg some (List.map_congr_left fun i hi => ?_)
    rw [List.mem_range] at hi
    unfold dataSector
    rw [Buf.rd_tab _ (show i < 512 by omega), if_pos hi]
  · -- another file: its entry and its cluster are not touched
    rw [Function.update_of_ne hn]
    have hl : lookup (Fat12.after c (fat12SetCluster fat cl 0xFFF) n buf (capLen len) t cl 20) n' =
        lookup c n' := by
      refine Option.ext fun i => ?_
      rw [h'.lookup_eq_some_iff, h.lookup_eq_some_iff]
      by_cases hit : i = t
      · subst hit
        rw [rootEntry_after ht hcl.lba.2.1 ht, if_pos (by omega)]
        refine ⟨fun e => absurd e.2.symm hn, fun e => absurd ?_ hn⟩
        rw [← e.2, hsame e.1]
      · constructor
        · rintro ⟨a, b⟩
          rw [rootEntry_after ht hcl.lba.2.1 (by omega), if_neg (by omega)] at b
          exact ⟨by omega, b⟩
        · rintro ⟨a, b⟩
          rw [rootEntry_after ht hcl.lba.2.1 (by omega), if_neg (by omega)]
          exact ⟨by omega, b⟩
    unfold files fileBytes
    rw [hl]
    cases hi : lookup c n' with
    | none => rw [Option.map_none, Option.map_none]
    | some i =>
      obtain ⟨hik, hin⟩ := h.lookup_eq_some_iff.1 hi
      have hit : i ≠ t := by
        rintro rfl
        exact hn (hin.symm.trans (hsame hik))
      have hi' := (h.data i hik).lba
      have hne := (hother i hik hit).2
      rw [Option.map_some, Option.map_some, rootEntry_after ht hcl.lba.2.1 (by omega), if_neg (by omega),
        after_data ht hi'.2.1, if_neg fun e => hne (by have := e.2; rw [hi'.1, hcl.lba.1] at this; omega)]

end Step

/-! ### Room for a new file -/

/-- Every taken cluster that the allocator looks at is the one of a used slot. -/
def Owned (c : ℕ → Sector) (fat : FatBuf) (k : ℕ) : Prop :=
  ∀ cl, 2 ≤ cl → cl < 2848 → fat12NextCluster fat cl ≠ 0 → ∃ i < k, (rootEntry c i).cluster.toNat = cl

section Room

variable {c : ℕ → Sector} {fat : FatBuf} {k : ℕ} {n : Name83} {t cl : ℕ}

theorem Formatted.owned (h : Formatted c) : Owned c (diskFat c) 0 := fun cl h1 h2 htaken =>
  absurd (h.free cl ⟨h1, by omega⟩) htaken

/-- **The clusters cannot run out**: there are more of them than slots in the root directory. -/
theorem Owned.alloc_ne_zero (h : Owned c fat k) (hk : k ≤ 224) : fat12AllocCluster fat ≠ 0 := by
  intro h0
  have htaken := (alloc_eq_zero_iff fat).1 h0
  have hsub : Finset.Ico 2 2848 ⊆ (Finset.range k).image fun i => (rootEntry c i).cluster.toNat := by
    intro cl hcl
    rw [Finset.mem_Ico] at hcl
    obtain ⟨i, hi, e⟩ := h cl hcl.1 hcl.2 (htaken cl hcl.1 hcl.2)
    exact Finset.mem_image.2 ⟨i, Finset.mem_range.2 hi, e⟩
  have hcard := (Finset.card_le_card hsub).trans Finset.card_image_le
  rw [Nat.card_Ico, Finset.card_range] at hcard
  omega

/-- The first free slot is the one behind the used ones. -/
theorem Tidy.freeSlot_eq (h : Tidy c fat k) : freeSlot c = if k < 224 then some k else none := by
  have hk := h.slots
  split
  next hlt =>
    exact freeSlot_eq_some_iff.2 ⟨hlt, Dirent.isFree_of_isEnd (h.unused k hlt (Nat.le_refl k)),
      fun j hj => (h.used j hj).1⟩
  next hfull =>
    cases hs : freeSlot c with
    | none => rfl
    | some i =>
      obtain ⟨hi, hfree, -⟩ := freeSlot_eq_some_iff.1 hs
      rw [(h.used i (by omega)).1] at hfree
      cases hfree

/-- **Where a write puts a file**: in its own slot, or in the one behind the used ones if the directory is not full. -/
theorem Tidy.target_eq (h : Tidy c fat k) (ho : Owned c fat k) (n : Name83) :
    target c fat n = match lookup c n with
      | some i => some (i, (rootEntry c i).cluster.toNat)
      | none => if k < 224 then some (k, fat12AllocCluster fat) else none := by
  cases hl : lookup c n with
  | some i => exact target_of_found hl fat
  | none =>
    unfold target
    rw [hl, h.freeSlot_eq]
    by_cases hlt : k < 224
    · simp only [if_pos hlt]
      rw [if_neg (ho.alloc_ne_zero h.slots)]
    · simp only [if_neg hlt]

/-- A write keeps the owners of the clusters, and makes its slot the owner of its cluster. -/
theorem Owned.after (h : Owned c fat k) (hk : k ≤ 224) (hf : Fits c k n t cl)
    (hsame : t < k → (rootEntry c t).cluster.toNat = cl) (buf : ℕ → UInt8) (len : ℕ) :
    Owned (Fat12.after c (fat12SetCluster fat cl 0xFFF) n buf len t cl 20) (fat12SetCluster fat cl 0xFFF)
      (max k (t + 1)) := by
  obtain ⟨ht, -, hcl, -, -⟩ := hf
  intro cl' h2 hlt htaken
  by_cases he : cl' = cl
  · subst he
    refine ⟨t, by omega, ?_⟩
    rw [rootEntry_after ht hcl.lba.2.1 ht, if_pos (by omega)]
    exact newDirent_cluster n len (by omega)
  · rw [next_set_of_ne fat _ he] at htaken
    obtain ⟨i, hi, e⟩ := h cl' h2 hlt htaken
    have hit : i ≠ t := by
      rintro rfl
      exact he (e.symm.trans (hsame hi))
    refine ⟨i, by omega, ?_⟩
    rwa [rootEntry_after ht hcl.lba.2.1 (by omega), if_neg (by omega)]

end Room

/-! ### Runs of writes -/

/-- The arguments of a call of `fat12WriteFile`; `data` are the bytes `buf` points to. -/
structure WriteCall where
  name : CStr
  data : ℕ → UInt8
  len : ℕ

/-- A driver, and for each 8.3 form the call that last wrote it successfully. -/
structure Session where
  drv : Driver
  last : Name83 → Option WriteCall

/-- Make the call. -/
def WriteCall.run (w : WriteCall) (r : Session) : Session :=
  match fat12WriteFile (some w.name) (some w.data) w.len r.drv with
  | (some _, s) => { drv := s, last := Function.update r.last (nameToFat83 w.name) (some w) }
  | (none, s) => { r with drv := s }

/-- Make the calls one after the other, on the driver `s`. -/
def runWrites (ws : List WriteCall) (s : Driver) : Session :=
  ws.foldl (fun r w => w.run r) { drv := s, last := fun _ => none }

/-- The cluster that the file `n` has on the disk. -/
def owner (c : ℕ → Sector) (n : Name83) : Option ℕ :=
  (lookup c n).map fun i => (rootEntry c i).cluster.toNat

/-- The state is mounted on a working disk with a tidy directory, and the files are the ones last
written. -/
structure Holds (r : Session) : Prop where
  mounted : r.drv.sFatLoaded = true
  works : ∀ t, r.drv.dev.fault t = false
  tidy : ∃ k, Tidy r.drv.dev.cell r.drv.sFatBuf k
  files : ∀ n, files r.drv.dev.cell n = (r.last n).map fun w => stored w.data w.len

/-- **A write keeps the correspondence.** -/
theorem Holds.run {r : Session} (h : Holds r) {w : WriteCall} (hw : Printable w.name) :
    Holds (w.run r) := by
  obtain ⟨k, ht⟩ := h.tidy
  have h0 := nameToFat83_ne_zero w.name (show 0 < 11 by omega)
  have hE := nameToFat83_ne_E5 hw (show 0 < 11 by omega)
  have hspec := fat12WriteFile_of_ok h.mounted h.works w.name w.data w.len
  unfold WriteCall.run
  rcases hout : fat12WriteFile (some w.name) (some w.data) w.len r.drv with ⟨res, s⟩
  rw [hout] at hspec
  obtain ⟨h1, h2, h3⟩ := hspec
  rcases htg : target r.drv.dev.cell r.drv.sFatBuf (nameToFat83 w.name) with _ | ⟨t, cl⟩
  · rw [htg] at h3
    obtain ⟨rfl, h4, h5⟩ := h3
    replace h4 : s.dev.cell = r.drv.dev.cell := h4
    replace h5 : s.sFatBuf = r.drv.sFatBuf := h5
    refine ⟨h1, h2, ⟨k, ?_⟩, fun n => ?_⟩
    · rw [← h4, ← h5] at ht
      exact ht
    · rw [← h.files n, ← h4]
  · rw [htg] at h3
    obtain ⟨rfl, h4, h5⟩ := h3
    replace h4 : s.sFatBuf = _ := h4
    replace h5 : s.dev.cell = _ := h5
    refine ⟨h1, h2, ⟨max k (t + 1), ?_⟩, fun n => ?_⟩
    · have := ht.after (ht.fits htg) h0 hE w.data (capLen w.len)
      rw [← h5, ← h4] at this
      exact this
    · change Fat12.files s.dev.cell n =
        (Function.update r.last (nameToFat83 w.name) (some w) n).map fun w => stored w.data w.len
      rw [h5, files_after ht (ht.fits htg) h0 hE]
      by_cases hn : n = nameToFat83 w.name
      · subst hn
        rw [Function.update_self, Function.update_self]
        rfl
      · rw [Function.update_of_ne hn, Function.update_of_ne hn]
        exact h.files n

theorem Holds.runs {ws : List WriteCall} (hws : ∀ w ∈ ws, Printable w.name) {r : Session}
    (h : Holds r) : Holds (ws.foldl (fun r w => w.run r) r) := by
  induction ws generalizing r with
  | nil => exact h
  | cons w ws ih =>
    exact ih (fun v hv => hws v (List.mem_cons_of_mem w hv)) (h.run (hws w List.mem_cons_self))

/-- A formatted volume holds no file. -/
theorem Formatted.holds {s s₀ : Driver} (hfmt : Formatted s.dev.cell)
    (hok : ∀ t, s.dev.fault t = false) (hinit : fat12Init s = (.ok, s₀)) :
    Holds { drv := s₀, last := fun _ => none } := by
  obtain ⟨h1, -, h2⟩ := fat12Init_spec hinit
  have hcell : s₀.dev.cell = s.dev.cell := h2.cell
  have htidy : Tidy s₀.dev.cell s₀.sFatBuf 0 := by
    rw [hcell]
    exact hfmt.tidy _
  refine ⟨h1, fun t => by rw [h2.fault, hok], ⟨0, htidy⟩, fun n => ?_⟩
  have hnone : lookup s₀.dev.cell n = none := by
    cases hl : lookup s₀.dev.cell n with
    | none => rfl
    | some i =>
      have := (htidy.lookup_eq_some_iff.1 hl).1
      omega
  unfold Fat12.files fileBytes
  rw [hnone]
  rfl

theorem files_isSome_iff {c : ℕ → Sector} {n : Name83} :
    (files c n).isSome = true ↔ (owner c n).isSome = true := by
  unfold files fileBytes owner
  rw [Option.isSome_map, Option.isSome_map]

theorem target_eq_none {c : ℕ → Sector} {fat : FatBuf} {n : Name83} (h : target c fat n = none) :
    lookup c n = none ∧ (freeSlot c = none ∨ fat12AllocCluster fat = 0) := by
  unfold target at h
  cases hl : lookup c n with
  | some i => simp [hl] at h
  | none =>
    refine ⟨rfl, ?_⟩
    cases hs : freeSlot c with
    | none => exact Or.inl rfl
    | some i =>
      simp only [hl, hs] at h
      split at h
      · exact Or.inr (by assumption)
      · cases h

/-- **The FAT12 store is a map.**  After any run of writes of printable names on a freshly formatted
volume, a read returns the prefix of what was last written under the 8.3 form of its name, and
nothing if there was no such write; different forms have different data clusters; a write that fails
has found the directory or the disk full and changes neither disk nor FAT; and a write that succeeds
leaves both FAT copies of the disk equal to the cached FAT. -/
theorem runWrites_map {s s₀ : Driver} (hfmt : Formatted s.dev.cell)
    (hok : ∀ t, s.dev.fault t = false) (hinit : fat12Init s = (.ok, s₀)) {ws : List WriteCall}
    (hws : ∀ w ∈ ws, Printable w.name) :
    let r := runWrites ws s₀
    (∀ name len, 0 < len → (fat12ReadFile (some name) true len r.drv).1 =
      (r.last (nameToFat83 name)).map fun w =>
        (List.range (min (min len 512) w.len)).map w.data) ∧
    (∀ n, (r.last n).isSome = true → ∃ cl, owner r.drv.dev.cell n = some cl ∧
      33 ≤ clusterToLba cl ∧ clusterToLba cl ≤ 2879) ∧
    (∀ n n' cl, owner r.drv.dev.cell n = some cl → owner r.drv.dev.cell n' = some cl → n = n') ∧
    ∀ w : WriteCall, Printable w.name →
      let out := fat12WriteFile (some w.name) (some w.data) w.len r.drv
      (out.1 = none →
        lookup r.drv.dev.cell (nameToFat83 w.name) = none ∧
        (freeSlot r.drv.dev.cell = none ∨ fat12AllocCluster r.drv.sFatBuf = 0) ∧
        out.2.dev.cell = r.drv.dev.cell ∧ out.2.sFatBuf = r.drv.sFatBuf) ∧
      (out.1 ≠ none → ∀ i < 9, out.2.dev.cell (fat1Lba + i) = fatSector out.2.sFatBuf i ∧
        out.2.dev.cell (fat2Lba + i) = fatSector out.2.sFatBuf i) := by
  have h : Holds (runWrites ws s₀) := Holds.runs hws (hfmt.holds hok hinit)
  obtain ⟨k, ht⟩ := h.tidy
  simp only
  generalize runWrites ws s₀ = r at h ht ⊢
  refine ⟨fun name len hlen => ?_, fun n hn => ?_, fun n n' cl h1 h2 => ?_, fun w hw => ?_⟩
  · rw [fat12ReadFile_of_ok h.mounted h.works name hlen, fileBytes_eq, h.files, Option.map_map]
    refine congrArg (fun f => Option.map f _) (funext fun w => ?_)
    exact take_stored w.data w.len len
  · have hsome : (owner r.drv.dev.cell n).isSome = true := by
      rw [← files_isSome_iff, h.files, Option.isSome_map, hn]
    obtain ⟨cl, hcl⟩ := Option.isSome_iff_exists.1 hsome
    obtain ⟨i, hi, rfl⟩ := Option.map_eq_some_iff.1 hcl
    exact ⟨_, hcl, (ht.data i (ht.lookup_eq_some_iff.1 hi).1).lba.2⟩
  · obtain ⟨i, hi, rfl⟩ := Option.map_eq_some_iff.1 h1
    obtain ⟨j, hj, he⟩ := Option.map_eq_some_iff.1 h2
    obtain ⟨hik, hin⟩ := ht.lookup_eq_some_iff.1 hi
    obtain ⟨hjk, hjn⟩ := ht.lookup_eq_some_iff.1 hj
    rw [← hin, ← hjn, ht.clusters j hjk i hik he]
  · have hspec := fat12WriteFile_of_ok h.mounted h.works w.name w.data w.len
    generalize fat12WriteFile (some w.name) (some w.data) w.len r.drv = out at hspec ⊢
    obtain ⟨-, -, h3⟩ := hspec
    rcases htg : target r.drv.dev.cell r.drv.sFatBuf (nameToFat83 w.name) with _ | ⟨t, cl⟩
    · rw [htg] at h3
      obtain ⟨h3, h4, h5⟩ := h3
      obtain ⟨h6, h7⟩ := target_eq_none htg
      exact ⟨fun _ => ⟨h6, h7, h4, h5⟩, fun hne => absurd h3 hne⟩
    · rw [htg] at h3
      obtain ⟨h3, h4, h5⟩ := h3
      have hf := ht.fits htg
      refine ⟨fun hnone => ?_, fun _ i hi => ?_⟩
      · rw [h3] at hnone
        cases hnone
      · rw [h4, h5]
        constructor
        · exact (after_fat1 hf.slot hf.data hi).trans (if_pos (by omega))
        · exact (after_fat2 hf.slot hf.data hi).trans (if_pos (by omega))

/-- Two writes on a blank volume, the second one to the same 8.3 form. -/
theorem runWrites_map_blank :
    let ws : List WriteCall := [⟨[97], fun _ => 7, 600⟩, ⟨[65], fun i => UInt8.ofNat i, 3⟩]
    (fat12ReadFile (some [97]) true 2 (runWrites ws (.mounted blankDisk fun _ => false)).drv).1 =
      ((runWrites ws (.mounted blankDisk fun _ => false)).last (nameToFat83 [97])).map fun w =>
        (List.range (min (min 2 512) w.len)).map w.data :=
  (runWrites_map (s := .boot blankDisk fun _ => false) formatted_blankDisk (fun _ => rfl)
    (fat12Init_boot _ fun _ _ => rfl) (by decide)).1 [97] 2 (by decide)

end AuraOS.Env.Fat12
