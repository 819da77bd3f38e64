import AuraOS.Kernel.Memory.FirstFit

/-!
# The alignment of the pointers

`kmalloc` rounds sizes up to multiples of 8, but a header takes 20 bytes.  So all blocks have sizes that
are multiples of 4 only (`dvd_size_of_run`), and a block moves what is behind it by a multiple of 8
exactly if its size is not one.  Whether a pointer is a multiple of 8 depends on how many of the blocks in
front of it have a size that is (`kmalloc_dvd_iff`); the first pointer after `memory_init` is not.
-/

namespace AuraOS.Kernel.Memory

open AuraOS.Lib AuraOS.Lib.Tiling

/-- The block at `x` is one that `kmalloc` may take for `a` bytes. -/
def Fits (m : Mem) (a x : ℕ) : Prop := used m x = memFree ∧ a ≤ size m x

instance (m : Mem) (a x : ℕ) : Decidable (Fits m a x) := inferInstanceAs (Decidable (_ ∧ _))

/-- The blocks in front of the first one that fits, or all of them. -/
def blocksInFront (h : Heap) (a : ℕ) : List ℕ :=
  ((blockList h).getD []).takeWhile fun x => !decide (Fits h.mem a x)

/-- The number of those whose size is a multiple of 8. -/
def octetsInFront (h : Heap) (a : ℕ) : ℕ := (blocksInFront h a).countP fun x => decide (8 ∣ size h.mem x)

/-- The call returns no pointer that is not a multiple of 8. -/
def ReturnsAligned (h : Heap) : Call → Prop
  | .malloc n => ∀ p h', kmalloc n h = some (p, h') → p ≠ 0 → 8 ∣ p
  | _ => True

/-- The call allocates nothing, or behind an odd number of blocks whose size is a multiple of 8. -/
def OddInFront (h : Heap) : Call → Prop
  | .malloc n => n = 0 ∨ (∀ x ∈ (blockList h).getD [], ¬Fits h.mem (aligned n) x) ∨
      octetsInFront h (aligned n) % 2 = 1
  | _ => True

/-! ### Sizes are multiples of 4 -/

section Sizes

variable {s s' : State} {c : Call} {L : List Blk} {n : UInt32}

theorem dvd_align8 (n : UInt32) : 8 ∣ (align8 n).toNat := by
  rw [align8_toNat]
  exact Nat.dvd_mul_left 8 _

/-- The block that `kmalloc` takes, and its size. -/
theorem dvd_kmalloc (hi : Inv s L) (hL : ∀ b ∈ L, 4 ∣ b.size) {p : ℕ} {h' : Heap}
    (e : kmalloc n s.heap = some (p, h')) (hp : p ≠ 0) :
    ∃ x, p = x + 20 ∧ 4 ∣ x ∧ 4 ∣ size h'.mem x := by
  have hn : n ≠ 0 := by
    rintro rfl
    cases e
    exact hp rfl
  rcases kmalloc_first_fit hi.blocks hi.head hi.span hn with ⟨-, e'⟩ | ⟨P, b, S, rfl, -, hu, hfit, e'⟩
  · cases e.symm.trans e'
    exact absurd rfl hp
  cases e.symm.trans e'
  have hb := takeBlock_spec hi.blocks rfl hu hfit
  obtain ⟨t, R, hc, -⟩ := carve_spec (H := 20) (k := 8) (by omega) hfit
  have ht : 4 ∣ t := dvd_size_carve (by omega) (Nat.dvd_trans (by omega) (dvd_align8 n))
    (hL b (by simp)) ⟨t, true⟩ (hc ▸ List.mem_cons_self)
  rw [hc, List.append_assoc, List.cons_append] at hb
  have hsize := ((headers_cut rfl).1 hb.headers).2.1.size
  have hP : 4 ∣ Tiling.span 20 P := dvd_span (by omega) fun b hb => hL b (by simp [hb])
  exact ⟨_, rfl, (Nat.dvd_add_right (by decide)).2 hP, hsize.symm ▸ ht⟩

/-- **The step lemma**: a call keeps the sizes multiples of 4. -/
theorem Inv.dvd_step (hi : Inv s L) (hL : ∀ b ∈ L, 4 ∣ b.size) (h : Step s c s') :
    ∃ L', Inv s' L' ∧ ∀ b ∈ L', 4 ∣ b.size := by
  obtain ⟨L', hi', hkeep⟩ := hi.step h
  have hend : 4 ∣ heapStart + Tiling.span 20 L' := by
    rw [hi'.span]
    decide
  refine ⟨L', hi', hi'.blocks.settled.dvd_size (by omega) (by decide) hend fun x b hx hu => ?_⟩
  have hlive : x + 20 ∈ s'.live := (hi'.live _).2 ⟨x, b, hx, hu, rfl⟩
  -- a block that was there already has not changed
  have hold : x + 20 ∈ s.live → c ≠ Call.free (x + 20) → 4 ∣ x ∧ 4 ∣ b.size := by
    intro hmem hne
    obtain ⟨y, d, hy, hd, hxy⟩ := (hi.live _).1 hmem
    obtain rfl : x = y := by omega
    cases place_inj (by omega) hx (hkeep x d hd hy hne)
    obtain ⟨L₁, L₂, rfl, rfl⟩ := exists_append_of_mem_place hy
    have h₁ : 4 ∣ Tiling.span 20 L₁ := dvd_span (by omega) fun b hb => hL b (by simp [hb])
    exact ⟨(Nat.dvd_add_right (by decide)).2 h₁, hL b (by simp)⟩
  cases h with
  | @malloc h h' live n p e =>
    by_cases hp : p = 0
    · rw [if_pos hp] at hlive
      exact hold hlive (by simp)
    · rw [if_neg hp, List.mem_cons] at hlive
      rcases hlive with hnew | hlive
      · obtain ⟨y, rfl, hy, hsize⟩ := dvd_kmalloc hi hL e hp
        obtain rfl : x = y := by omega
        obtain ⟨q, r, hhdr⟩ := hi'.blocks.headers.of_mem hx
        exact ⟨hy, hhdr.size ▸ hsize⟩
      · exact hold hlive (by simp)
  | @free h live p hp =>
    obtain ⟨hne, hmem⟩ := (hi.nodup.mem_erase_iff).1 hlive
    exact hold hmem fun e => hne (Call.free.inj e).symm
  | @store h live p z v hp hz => exact hold hlive (by simp)

/-- After every run all sizes are multiples of 4. -/
theorem dvd_size_of_run {h₀ : Heap} {calls : List Call} (hr : Run Step (start h₀) calls s) :
    ∃ L, Inv s L ∧ ∀ b ∈ L, 4 ∣ b.size := by
  refine hr.invariant (I := fun s => ∃ L, Inv s L ∧ ∀ b ∈ L, 4 ∣ b.size) ?_
    ⟨_, inv_start h₀, by decide⟩
  rintro s c s' ⟨L, hi, hL⟩ hstep
  exact hi.dvd_step hL hstep

end Sizes

/-! ### Where a block begins -/

section Position

variable {s : State} {L P S : List Blk} {b : Blk} {a prv x : ℕ} {m : Mem}

/-- **The address behind some blocks**: those whose size is a multiple of 8 shift it by 4. -/
theorem span_mod_eight (hP : ∀ b ∈ P, 4 ∣ b.size) :
    span 20 P % 8 = 4 * (P.countP fun b => decide (8 ∣ b.size)) % 8 := by
  induction P with
  | nil => rfl
  | cons b P ih =>
    have hrest := ih fun c hc => hP c (List.mem_cons_of_mem b hc)
    have hb := hP b List.mem_cons_self
    rw [span_cons, List.countP_cons]
    by_cases h8 : 8 ∣ b.size
    · rw [if_pos (decide_eq_true h8)]
      omega
    · rw [if_neg (by simpa using h8)]
      omega

/-- A header says whether its block fits. -/
theorem fits_iff {sz p n : ℕ} (h : Hdr m x b p n) : Fits m sz x ↔ b.used = false ∧ sz ≤ b.size := by
  unfold Fits
  rw [h.size]
  exact and_congr_left fun _ => used_eq_zero_iff h

theorem not_fits_of_noneFits {sz nxt : ℕ} (h : Headers m prv a nxt L) (hnone : NoneFits sz L) :
    ∀ x ∈ (place 20 a L).map Prod.fst, ¬Fits m sz x := by
  intro x hx
  obtain ⟨⟨x, c⟩, hmem, rfl⟩ := List.mem_map.1 hx
  obtain ⟨p, n, hhdr⟩ := h.of_mem hmem
  obtain ⟨L₁, L₂, rfl, -⟩ := exists_append_of_mem_place hmem
  rw [fits_iff hhdr]
  rintro ⟨hfree, hle⟩
  exact absurd (hnone c (by simp) hfree) (Nat.not_lt.2 hle)

/-- The blocks in front of the first one that fits, by their sizes. -/
theorem octetsInFront_eq {sz : ℕ} (hi : Inv s (P ++ b :: S)) (hnone : NoneFits sz P)
    (hu : b.used = false) (hfit : sz ≤ b.size) :
    octetsInFront s.heap sz = P.countP fun b => decide (8 ∣ b.size) := by
  obtain ⟨h₁, hhdr, -⟩ := (headers_cut rfl).1 hi.blocks.headers
  have hfront : blocksInFront s.heap sz = (place 20 heapStart P).map Prod.fst := by
    have hall : ∀ x ∈ (place 20 heapStart P).map Prod.fst, (!decide (Fits s.heap.mem sz x)) = true := by
      simpa using not_fits_of_noneFits h₁ hnone
    have hstop : (!decide (Fits s.heap.mem sz (heapStart + Tiling.span 20 P))) = false := by
      simpa using (fits_iff hhdr).2 ⟨hu, hfit⟩
    unfold blocksInFront
    rw [hi.blockList, Option.getD_some, place_append, List.map_append, place_cons, List.map_cons,
      List.takeWhile_append_of_pos hall, List.takeWhile_cons, if_neg (by simp [hstop]), List.append_nil]
  have hsize : ∀ xb ∈ place 20 heapStart P,
      ((fun x => decide (8 ∣ size s.heap.mem x)) ∘ Prod.fst) xb =
        ((fun b : Blk => decide (8 ∣ b.size)) ∘ Prod.snd) xb := by
    rintro ⟨x, c⟩ hmem
    obtain ⟨p, n, hx⟩ := h₁.of_mem hmem
    simp only [Function.comp_apply, hx.size]
  unfold octetsInFront
  rw [hfront, List.countP_map, List.countP_congr fun xb hxb => by rw [hsize xb hxb], ← List.countP_map,
    map_snd_place]

/-- **One allocation** returns a multiple of 8 exactly if it returns `NULL` or the number of blocks in
front whose size is a multiple of 8 is odd. -/
theorem Inv.returnsAligned_iff (hi : Inv s L) (hL : ∀ b ∈ L, 4 ∣ b.size) (c : Call) :
    ReturnsAligned s.heap c ↔ OddInFront s.heap c := by
  rcases c with n | p | ⟨z, v⟩
  swap
  · exact Iff.rfl
  swap
  · exact Iff.rfl
  by_cases hn : n = 0
  · refine iff_of_true (fun p h' e hp => ?_) (Or.inl hn)
    cases (if_pos hn).symm.trans e
    exact absurd rfl hp
  rcases kmalloc_first_fit hi.blocks hi.head hi.span hn with ⟨hnone, e⟩ |
    ⟨P, b, S, rfl, hnone, hu, hfit, e⟩
  · refine iff_of_true (fun p h' e' hp => ?_) (Or.inr (Or.inl ?_))
    · cases e.symm.trans e'
      exact absurd rfl hp
    · rw [← align8_toNat, hi.blockList]
      exact not_fits_of_noneFits hi.blocks.headers hnone
  · have hP : Tiling.span 20 P % 8 = _ := span_mod_eight fun b hb => hL b (List.mem_append_left _ hb)
    have hcount := octetsInFront_eq hi hnone hu hfit
    have hhdr := ((headers_cut rfl).1 hi.blocks.headers).2.1
    have hsome : ¬∀ x ∈ (Memory.blockList s.heap).getD [], ¬Fits s.heap.mem (aligned n) x := by
      intro hall
      rw [hi.blockList, ← align8_toNat] at hall
      exact hall (heapStart + Tiling.span 20 P) (by simp) ((fits_iff hhdr).2 ⟨hu, hfit⟩)
    have hstart : heapStart % 8 = 0 := rfl
    change (∀ p h', kmalloc n s.heap = some (p, h') → p ≠ 0 → 8 ∣ p) ↔ _ ∨ _ ∨ _
    rw [or_iff_right hn, or_iff_right hsome, ← align8_toNat, hcount]
    constructor
    · intro h
      have := h _ _ e (by omega)
      omega
    · rintro h p h' e' -
      cases e.symm.trans e'
      omega

end Position

/-! ### Runs -/

/-- **`kmalloc` returns multiples of 8** in a run exactly if every allocation of the run finds an odd
number of blocks in front whose size is a multiple of 8, and after any run this decides the next call. -/
theorem run_kmalloc_aligned_iff (h₀ : Heap) (calls : List Call) (s : State) :
    (Run (fun s c s' => Step s c s' ∧ ReturnsAligned s.heap c) (start h₀) calls s ↔
      Run (fun s c s' => Step s c s' ∧ OddInFront s.heap c) (start h₀) calls s) ∧
    (Run Step (start h₀) calls s → ∀ c, ReturnsAligned s.heap c ↔ OddInFront s.heap c) := by
  constructor
  · refine Run.congr (I := fun s => ∃ L, Inv s L ∧ ∀ b ∈ L, 4 ∣ b.size) ?_ ?_
      ⟨_, inv_start h₀, by decide⟩
    · rintro s c s' ⟨L, hi, hL⟩ hstep
      exact hi.dvd_step hL hstep.1
    · rintro s c s' ⟨L, hi, hL⟩
      exact and_congr_right fun _ => hi.returnsAligned_iff hL c
  · intro hr c
    obtain ⟨L, hi, hL⟩ := dvd_size_of_run hr
    exact hi.returnsAligned_iff hL c

/-- After `memory_init`, for 8 bytes. -/
theorem run_kmalloc_aligned_iff_start :
    ReturnsAligned (start ⟨fun _ => 0, 0⟩).heap (Call.malloc 8) ↔
      OddInFront (start ⟨fun _ => 0, 0⟩).heap (Call.malloc 8) :=
  (run_kmalloc_aligned_iff ⟨fun _ => 0, 0⟩ [] (start ⟨fun _ => 0, 0⟩)).2 (Run.nil _) (Call.malloc 8)

/-- **The first pointer** that `kmalloc` returns after `memory_init` is not a multiple of 8. -/
theorem kmalloc_first_not_aligned : ∃ h', kmalloc 8 (start ⟨fun _ => 0, 0⟩).heap = some (0x200014, h') ∧
    Run Step (start ⟨fun _ => 0, 0⟩) [Call.malloc 8] ⟨h', [0x200014]⟩ ∧ ¬8 ∣ 0x200014 := by
  have hi := inv_start ⟨fun _ => 0, 0⟩
  rcases kmalloc_first_fit hi.blocks hi.head hi.span (n := 8) (by decide) with ⟨hnone, -⟩ |
    ⟨P, b, S, hL, -, -, -, e⟩
  · exact absurd (hnone ⟨heapSize - hdrSize, false⟩ (by simp) rfl) (by decide)
  · obtain rfl : P = [] := by
      rcases P with _ | ⟨d, P⟩
      · rfl
      · have := congrArg List.length hL
        simp at this
    exact ⟨_, e, Run.cons (Step.malloc e) (Run.nil _), by decide⟩

end AuraOS.Kernel.Memory
