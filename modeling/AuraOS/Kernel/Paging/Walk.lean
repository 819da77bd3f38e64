import AuraOS.Kernel.Paging.Defs

/-!
# What is mapped

The tables that `paging_init` builds, entry by entry, and from them the translation of every address:
the identity below 4 MB but for the two pages around the heap, and a fault everywhere else
(`translate_pagingInit`).  The page above the heap is also the one of the page directory, so the directory
is not mapped (`paging_protects_iff`).
-/

namespace AuraOS.Kernel.Paging

open AuraOS.Lib AuraOS.Kernel.Memory

/-- The page at `phys` is a guard page. -/
def Guard (phys : ℕ) : Prop := phys = heapGuardLo ∨ phys = heapGuardHi

instance (phys : ℕ) : Decidable (Guard phys) := inferInstanceAs (Decidable (_ ∨ _))

/-- Entry `i` of the page table. -/
def tableEntry (i : ℕ) : ℕ := if Guard (i * 4096) then i * 4096 else i * 4096 + 3

section Tables

variable (s : Machine) {i : ℕ}

/-- The flags are in bits that the address leaves free. -/
theorem or_flags (i : ℕ) : i * 4096 ||| ptePresent ||| pteWritable = i * 4096 + 3 := by
  have h := or_shift (show 3 < 2 ^ 12 by omega) i
  rw [Nat.or_assoc, Nat.or_comm, Nat.add_comm]
  exact h

theorem fillEntry_eq (i : ℕ) (m : Mem) : fillEntry i m = m.store32 (ptabAddr + 4 * i) (tableEntry i) := by
  have hg : Guard (i * 4096) ↔ i * 4096 = heapGuardLo ∨ i * 4096 = heapGuardHi := Iff.rfl
  unfold fillEntry tableEntry
  dsimp only
  rw [or_flags]
  by_cases hlo : i * 4096 = heapGuardLo
  · rw [if_pos hlo, if_pos (hg.2 (Or.inl hlo))]
  · rw [if_neg hlo]
    by_cases hhi : i * 4096 = heapGuardHi
    · rw [if_pos hhi, if_pos (hg.2 (Or.inr hhi))]
    · rw [if_neg hhi, if_neg fun h => (hg.1 h).elim hlo hhi]

/-- **The loop** fills the table and leaves the rest of the memory alone. -/
theorem fillLoop_spec (m : Mem) :
    (∀ i < 1024, (upTo pages4m fillEntry m).load32 (ptabAddr + 4 * i) = tableEntry i) ∧
      ∀ x, x < ptabAddr ∨ ptabAddr + 4096 ≤ x → upTo pages4m fillEntry m x = m x := by
  refine upTo_induct (fun k (t : Mem) => (∀ i < k, t.load32 (ptabAddr + 4 * i) = tableEntry i) ∧
    ∀ x, x < ptabAddr ∨ ptabAddr + 4096 ≤ x → t x = m x) ⟨by simp, fun _ _ => rfl⟩ ?_
  rintro k hk t ⟨hfilled, hrest⟩
  have hlt : tableEntry k < 2 ^ 32 := by
    unfold tableEntry
    split <;> omega
  rw [fillEntry_eq]
  refine ⟨fun i hi => ?_, fun x hx => ?_⟩
  · by_cases hik : i = k
    · rw [hik, Mem.load32_store32, Nat.mod_eq_of_lt hlt]
    · rw [Mem.load32_store32_of_ne (by omega), hfilled i (by omega)]
  · rw [Mem.store32_apply (by omega), hrest x hx]

/-- The table is the page behind the directory. -/
theorem ptabAddr_eq : ptabAddr = pdirAddr + 4096 := rfl

/-- The page table. -/
theorem load32_table (hi : i < 1024) : (pagingInit s).mem.load32 (ptabAddr + 4 * i) = tableEntry i := by
  have htab := ptabAddr_eq
  unfold pagingInit
  dsimp only
  rw [Mem.load32_store32_of_ne (by omega)]
  exact (fillLoop_spec _).1 i hi

theorem load32_dir_zero : (pagingInit s).mem.load32 pdirAddr = ptabAddr + 3 := by
  unfold pagingInit
  dsimp only
  rw [Mem.load32_store32]
  rfl

/-- The other entries of the page directory stay zero. -/
theorem load32_dir (h0 : 0 < i) (hi : i < 1024) : (pagingInit s).mem.load32 (pdirAddr + 4 * i) = 0 := by
  have htab := ptabAddr_eq
  have hzero : ∀ x, pdirAddr + 4 ≤ x → x < ptabAddr → (pagingInit s).mem x = 0 := by
    intro x hx hx'
    unfold pagingInit
    dsimp only
    rw [Mem.store32_apply (Or.inr hx), (fillLoop_spec _).2 x (Or.inl hx'), Mem.memsetK_apply _ _ _ (Or.inl hx'),
      Mem.memsetK_apply_of_mem _ _ _ (by omega)]
  unfold Mem.load32
  rw [hzero _ (by omega) (by omega), hzero _ (by omega) (by omega), hzero _ (by omega) (by omega),
    hzero _ (by omega) (by omega)]
  rfl

end Tables

/-! ### The translation -/

section Translate

variable (s : Machine) {v : ℕ}

theorem bit_cr0 : bit (pagingInit s).cr0 31 = true := by
  change (s.cr0 ||| 1 <<< 31).testBit 31 = true
  rw [Nat.testBit_or, Bool.or_eq_true]
  exact Or.inr rfl

/-- The flags of an entry. -/
theorem bit_tableEntry (i : ℕ) : bit (tableEntry i) 0 = !decide (Guard (i * 4096)) ∧
    (¬Guard (i * 4096) → bit (tableEntry i) 1 = true) ∧ tableEntry i / 4096 = i := by
  have h0 : ∀ w, bit w 0 = decide (w % 2 = 1) := fun w => Nat.testBit_zero w
  have h1 : ∀ w, bit w 1 = decide (w / 2 % 2 = 1) := fun w => (Nat.testBit_succ w 0).trans (Nat.testBit_zero _)
  unfold tableEntry
  by_cases hg : Guard (i * 4096)
  · rw [if_pos hg, h0]
    refine ⟨?_, fun h => absurd hg h, by omega⟩
    rw [decide_eq_true hg, decide_eq_false (by omega)]
    rfl
  · rw [if_neg hg, h0, h1]
    refine ⟨?_, fun _ => decide_eq_true (by omega), by omega⟩
    rw [decide_eq_false hg, decide_eq_true (by omega)]
    rfl

/-- **The translation of every address.** -/
theorem translate_pagingInit (hv : v < 2 ^ 32) : translate (pagingInit s) v =
    if v < 2 ^ 22 ∧ ¬Guard (v / 4096 * 4096) then some (v, true) else none := by
  unfold translate
  rw [bit_cr0, if_pos rfl]
  have hbase : (pagingInit s).cr3 / 4096 * 4096 = pdirAddr := by
    change pdirAddr / 4096 * 4096 = pdirAddr
    decide
  rw [hbase]
  by_cases hlow : v < 2 ^ 22
  · have hdir : v / 2 ^ 22 = 0 := Nat.div_eq_of_lt hlow
    have hpage : v / 4096 % 1024 = v / 4096 := Nat.mod_eq_of_lt (by omega)
    have hptab : (ptabAddr + 3) / 4096 * 4096 = ptabAddr := by decide
    obtain ⟨hp, hw, haddr⟩ := bit_tableEntry (v / 4096)
    rw [hdir, Nat.mul_zero, Nat.add_zero, load32_dir_zero, hpage]
    dsimp only
    rw [hptab, load32_table s (show v / 4096 < 1024 by omega)]
    simp only [show bit (ptabAddr + 3) 0 = true by decide, show bit (ptabAddr + 3) 7 = false by decide,
      show bit (ptabAddr + 3) 1 = true by decide, Bool.false_and, Bool.true_and, if_true, hp, haddr, hlow,
      true_and]
    by_cases hg : Guard (v / 4096 * 4096)
    · simp [hg]
    · simp only [hg, hw hg, decide_false, Bool.not_false, not_false_eq_true, if_true]
      rw [Nat.div_add_mod' v 4096]
      rfl
  · rw [load32_dir s (show 0 < v / 2 ^ 22 by omega) (by omega)]
    exact (if_neg fun h => hlow h.1).symm

end Translate

/-! ### What the kernel needs -/

/-- The address is in a region that the kernel occupies: low memory, the heap, and the pages of the
directory and of the table. -/
def Occupied (v : ℕ) : Prop :=
  v < 0x100000 ∨ heapStart ≤ v ∧ v < heapEnd ∨ pdirAddr ≤ v ∧ v < pdirAddr + pageSize ∨
    ptabAddr ≤ v ∧ v < ptabAddr + pageSize

/-- The address is next to the heap, or beyond the first 4 MB. -/
def Forbidden (v : ℕ) : Prop :=
  heapStart - pageSize ≤ v ∧ v < heapStart ∨ heapEnd ≤ v ∧ v < heapEnd + pageSize ∨ 0x400000 ≤ v

/-- What the kernel occupies is mapped to itself, present and writable, and what it must not touch
faults. -/
def Protects (s : Machine) (v : ℕ) : Prop :=
  (Occupied v → translate s v = some (v, true)) ∧ (Forbidden v → translate s v = none)

/-- **Paging protects the heap**: every 32 bit address is treated as it should, exactly if it is not in the
page directory. -/
theorem paging_protects_iff (s : Machine) {v : ℕ} (hv : v < 2 ^ 32) :
    Protects (pagingInit s) v ↔ ¬(0x280000 ≤ v ∧ v < 0x281000) := by
  have hguard : ∀ x, Guard x ↔ x = 0x1FF000 ∨ x = 0x280000 := fun _ => Iff.rfl
  have hoccupied : Occupied v ↔ v < 0x100000 ∨ 0x200000 ≤ v ∧ v < 0x280000 ∨ 0x280000 ≤ v ∧ v < 0x281000 ∨
    0x281000 ≤ v ∧ v < 0x282000 := Iff.rfl
  have hforbidden : Forbidden v ↔ 0x1FF000 ≤ v ∧ v < 0x200000 ∨ 0x280000 ≤ v ∧ v < 0x281000 ∨
    0x400000 ≤ v := Iff.rfl
  unfold Protects
  rw [translate_pagingInit s hv, hoccupied, hforbidden]
  constructor
  · rintro ⟨hocc, -⟩ hdir
    rw [if_neg (by rw [hguard]; omega)] at hocc
    cases hocc (by omega)
  · intro hdir
    refine ⟨fun hocc => if_pos ?_, fun hforb => if_neg ?_⟩
    · rw [hguard]
      omega
    · rw [hguard]
      omega

/-- The VGA buffer. -/
theorem paging_protects_iff_vga : Protects (pagingInit ⟨fun _ => 0, 1, 0, 0⟩) 0xB8000 ↔
    ¬(0x280000 ≤ 0xB8000 ∧ 0xB8000 < 0x281000) :=
  paging_protects_iff _ (by omega)

/-- **The page directory** faults. -/
theorem directory_faults : translate (pagingInit ⟨fun _ => 0, 1, 0, 0⟩) 0x280000 = none ∧
    ¬Protects (pagingInit ⟨fun _ => 0, 1, 0, 0⟩) 0x280000 := by
  have hnone : translate (pagingInit ⟨fun _ => 0, 1, 0, 0⟩) 0x280000 = none := by
    rw [translate_pagingInit _ (by omega)]
    exact if_neg (by decide)
  refine ⟨hnone, fun h => ?_⟩
  have hsome := h.1 (Or.inr (Or.inr (Or.inl (by decide))))
  cases hnone.symm.trans hsome

end AuraOS.Kernel.Paging
