import AuraOS.Env.Fat12.Layout

/-!
# The capacity of the volume

A volume of 2880 sectors has its data area in the sectors 33 to 2879, which are those of the clusters 2 to 2848.
The loop of `fat12_alloc_cluster` ends in front of cluster 2848, so that the last sector is never given out: the
allocator covers the volume unless that cluster is the only free one (`covers_iff`).
-/

namespace AuraOS.Env.Fat12

open AuraOS.Lib AuraOS.Kernel

/-- 18 sectors per track, 2 heads and 80 cylinders. -/
abbrev volumeSectors : ℕ := 18 * 2 * 80

/-- The first sector of the cluster lies in the data area. -/
def InDataArea (cl : ℕ) : Prop := dataLba ≤ clusterToLba cl ∧ clusterToLba cl < volumeSectors

/-- A cluster of the data area, and a free one.  Cluster numbers have 16 bits. -/
structure FreeCluster (fat : FatBuf) (cl : ℕ) : Prop where
  lt : cl < 2 ^ 16
  inside : InDataArea cl
  free : fat12NextCluster fat cl = 0

/-- **What allocation is for**: the lowest free cluster of the data area is given out, nothing outside of it, and
`0` is the result only if no cluster of the data area is free. -/
structure Covers (fat : FatBuf) : Prop where
  lowest : ∀ cl, FreeCluster fat cl → (∀ d < cl, ¬FreeCluster fat d) → fat12AllocCluster fat = cl
  inside : fat12AllocCluster fat ≠ 0 → InDataArea (fat12AllocCluster fat)
  full : fat12AllocCluster fat = 0 → ∀ cl, ¬FreeCluster fat cl

section Covers

variable {fat : FatBuf} {cl : ℕ}

/-- **The data area** consists of the clusters 2 to 2848. -/
theorem inDataArea_iff (h : cl < 2 ^ 16) : InDataArea cl ↔ DataCluster cl := by
  unfold InDataArea DataCluster
  rw [clusterToLba_eq h]
  constructor
  · rintro ⟨h1, h2⟩
    change 33 ≤ 31 + cl at h1
    change 31 + cl < 2880 at h2
    omega
  · rintro ⟨h1, h2⟩
    change 33 ≤ 31 + cl ∧ 31 + cl < 2880
    omega

theorem freeCluster_iff : FreeCluster fat cl ↔ DataCluster cl ∧ fat12NextCluster fat cl = 0 := by
  constructor
  · rintro ⟨h1, h2, h3⟩
    exact ⟨(inDataArea_iff h1).1 h2, h3⟩
  · rintro ⟨h1, h2⟩
    have hlt : cl < 2 ^ 16 := by
      have := h1.2
      omega
    exact ⟨hlt, (inDataArea_iff hlt).2 h1, h2⟩

/-- What is given out is the lowest free cluster. -/
theorem alloc_freeCluster (h : fat12AllocCluster fat ≠ 0) :
    FreeCluster fat (fat12AllocCluster fat) ∧ ∀ d < fat12AllocCluster fat, ¬FreeCluster fat d := by
  obtain ⟨h1, h2, h3⟩ := alloc_spec fat h
  constructor
  · apply freeCluster_iff.2
    exact ⟨⟨h1, by omega⟩, h3⟩
  · intro d hd hfree
    obtain ⟨hdata, h0⟩ := freeCluster_iff.1 hfree
    exact alloc_lowest fat hdata.1 hd h0

/-- **The allocator covers the volume** exactly if one of the clusters it looks at is free or the last one is
taken. -/
theorem covers_iff (fat : FatBuf) :
    Covers fat ↔
      (∃ cl, 2 ≤ cl ∧ cl < 2848 ∧ fat12NextCluster fat cl = 0) ∨ fat12NextCluster fat 2848 ≠ 0 := by
  constructor
  · intro hc
    by_contra hnot
    push Not at hnot
    obtain ⟨htaken, hlast⟩ := hnot
    have h0 : fat12AllocCluster fat = 0 := (alloc_eq_zero_iff fat).2 htaken
    apply hc.full h0 2848
    exact freeCluster_iff.2 ⟨by decide, hlast⟩
  · intro h
    have hfull : fat12AllocCluster fat = 0 → ∀ cl, ¬FreeCluster fat cl := by
      intro h0 cl hfree
      have htaken := (alloc_eq_zero_iff fat).1 h0
      obtain ⟨⟨h1, h2⟩, h3⟩ := freeCluster_iff.1 hfree
      rcases h with ⟨d, hd1, hd2, hd3⟩ | hlast
      · exact htaken d hd1 hd2 hd3
      · by_cases hcl : cl < 2848
        · exact htaken cl h1 hcl h3
        · obtain rfl : cl = 2848 := by omega
          exact hlast h3
    refine ⟨?_, ?_, hfull⟩
    · intro cl hfree hlow
      by_cases h0 : fat12AllocCluster fat = 0
      · exact absurd hfree (hfull h0 cl)
      · obtain ⟨hfree', hlow'⟩ := alloc_freeCluster h0
        rcases Nat.lt_trichotomy (fat12AllocCluster fat) cl with hlt | heq | hgt
        · exact absurd hfree' (hlow _ hlt)
        · exact heq
        · exact absurd hfree (hlow' cl hgt)
    · intro h0
      exact (alloc_freeCluster h0).1.inside

end Covers

/-! ### A full volume -/

section LastFree

/-- Every entry of this table is an end marker. -/
def takenFat : FatBuf := .tab 4608 fun _ => 0xFF

theorem next_takenFat {cl : ℕ} (h : cl < 3072) : fat12NextCluster takenFat cl = 0xFFF := by
  have hrd : ∀ i < 4608, takenFat.rd i = 0xFF := fun i hi => Buf.rd_tab _ hi
  have h0 := hrd (cellOff cl) (by unfold cellOff; omega)
  have h1 := hrd (cellOff cl + 1) (by unfold cellOff; omega)
  rcases Nat.mod_two_eq_zero_or_one cl with h2 | h2
  · rw [next_even takenFat h h2, h0, h1]
    rfl
  · rw [next_odd takenFat h h2, h0, h1]
    rfl

/-- All clusters are taken but the last one. -/
def lastFree : FatBuf := fat12SetCluster takenFat 2848 0

/-- **The last cluster is never given out**: its sector is 2879 and it is free, but the allocator reports a full
disk. -/
theorem lastFree_not_covers : fat12AllocCluster lastFree = 0 ∧ FreeCluster lastFree 2848 ∧
    clusterToLba 2848 = 2879 ∧ ¬Covers lastFree := by
  have hlast : fat12NextCluster lastFree 2848 = 0 := next_set_self _ _ (by decide)
  have htaken : ∀ cl, 2 ≤ cl → cl < 2848 → fat12NextCluster lastFree cl ≠ 0 := by
    intro cl _ hlt
    unfold lastFree
    rw [next_set_of_ne _ _ (by omega), next_takenFat (by omega)]
    decide
  refine ⟨(alloc_eq_zero_iff _).2 htaken, freeCluster_iff.2 ⟨by decide, hlast⟩, by decide, ?_⟩
  rw [covers_iff]
  push Not
  exact ⟨htaken, hlast⟩

end LastFree

end AuraOS.Env.Fat12
