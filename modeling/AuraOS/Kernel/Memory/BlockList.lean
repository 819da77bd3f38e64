import AuraOS.Kernel.Memory.Invariant

/-!
# The block list

What the invariant of the allocator means for the blocks found in memory, from `heap_head` on along
`next`.  After every run they tile the heap, `prev` is the inverse of `next`, the allocated payloads are
apart from each other and from the headers, and the next call moves none of them (`run_heap`).  No two
neighbours are free, so the heap is one free block again as soon as nothing is allocated
(`run_no_adjacent_free`).  The smallest heap on which `kmalloc` passes over a free block is reached by two
allocations and a `kfree` (`exists_gap`).
-/

namespace AuraOS.Kernel.Memory

open AuraOS.Lib AuraOS.Lib.Tiling

/-- The addresses of the blocks from `cur` on, along `next`. -/
def walk (m : Mem) : ℕ → ℕ → Option (List ℕ)
  | 0, _ => none
  | fuel + 1, cur => if cur = 0 then some [] else (walk m fuel (next m cur)).map (cur :: ·)

/-- The addresses of the blocks reached from `heap_head`. -/
def blockList (h : Heap) : Option (List ℕ) := walk h.mem heapFuel h.heapHead

/-- The blocks at the addresses `xs` are those of the heap, and they tile it. -/
structure Tiles (h : Heap) (xs : List ℕ) : Prop where
  list : blockList h = some xs
  first : xs.head? = some heapStart
  next : ∀ x ∈ xs, (next h.mem x ∈ xs ∧ next h.mem x = x + hdrSize + size h.mem x) ∨
    (next h.mem x = 0 ∧ x + hdrSize + size h.mem x = heapEnd)
  prev_first : prev h.mem heapStart = 0
  prev : ∀ x ∈ xs, ∀ y ∈ xs, Memory.next h.mem x = y ↔ prev h.mem y = x
  magic : ∀ x ∈ xs, magic h.mem x = blockMagic

/-- The allocated payloads are in use, inside the heap, and apart from the headers and each other. -/
structure Apart (s : State) (xs : List ℕ) : Prop where
  used : ∀ p ∈ s.live, p - hdrSize ∈ xs ∧ used s.heap.mem (p - hdrSize) = memUsed
  inside : ∀ p ∈ s.live, payload s.heap.mem p ⊆ Set.Ico heapStart heapEnd
  headers : ∀ p ∈ s.live, ∀ x ∈ xs, ∀ z ∈ payload s.heap.mem p, z ∉ Set.Ico x (x + hdrSize)
  nodup : s.live.Nodup
  disjoint : ∀ p ∈ s.live, ∀ q ∈ s.live, p ≠ q → ∀ z ∈ payload s.heap.mem p, z ∉ payload s.heap.mem q

/-- The block whose payload is at `p` has the same address, size and flag in both heaps. -/
structure Keeps (h h' : Heap) (p : ℕ) : Prop where
  mem : ∃ xs, blockList h' = some xs ∧ p - hdrSize ∈ xs
  size : size h'.mem (p - hdrSize) = size h.mem (p - hdrSize)
  used : used h'.mem (p - hdrSize) = used h.mem (p - hdrSize)

/-! ### Reading the headers -/

section Headers

variable {m : Mem} {a x y : ℕ} {b c : Blk} {L : List Blk}

/-- The links of the header at `x`: either it is the last one, or the block behind it links back. -/
theorem headers_next (h : Headers m 0 a 0 L) (hmem : (x, b) ∈ place 20 a L) :
    (next m x = 0 ∧ x + (20 + b.size) = a + span 20 L) ∨
      ∃ c, (x + (20 + b.size), c) ∈ place 20 a L ∧ next m x = x + (20 + b.size) ∧
        prev m (x + (20 + b.size)) = x := by
  obtain ⟨L₁, L₂, rfl, hx⟩ := exists_append_of_mem_place hmem
  obtain ⟨-, hhdr, h2⟩ := (headers_cut hx).1 h
  rcases L₂ with _ | ⟨c, L⟩
  · refine Or.inl ⟨hhdr.next, ?_⟩
    rw [span_append, span_cons, span_nil]
    omega
  · exact Or.inr ⟨c, by simp [hx], hhdr.next, h2.1.prev⟩

theorem headers_prev (h : Headers m 0 a 0 L) (hmem : (x, b) ∈ place 20 a L) :
    (prev m x = 0 ∧ x = a) ∨ ∃ y c, (y, c) ∈ place 20 a L ∧ prev m x = y ∧ next m y = x := by
  obtain ⟨L₁, L₂, rfl, hx⟩ := exists_append_of_mem_place hmem
  have hhdr := ((headers_cut hx).1 h).2.1
  rcases List.eq_nil_or_concat L₁ with rfl | ⟨L₀, d, rfl⟩
  · exact Or.inl ⟨hhdr.prev, hx⟩
  · have hd : (a + span 20 L₀, d) ∈ place 20 a (L₀.concat d ++ b :: L₂) := by simp
    have hxd : x = a + span 20 L₀ + (20 + d.size) := by
      rw [hx, List.concat_eq_append, span_append, span_cons, span_nil]
      omega
    refine Or.inr ⟨_, d, hd, ?_, ?_⟩
    · rw [hhdr.prev, List.concat_eq_append, lastOf_append_singleton]
    · rcases headers_next h hd with ⟨-, e⟩ | ⟨-, -, e, -⟩
      · rw [← hxd, span_append, span_cons] at e
        omega
      · rw [e, hxd]

/-- **`prev` is the inverse of `next`.** -/
theorem headers_next_iff (h : Headers m 0 a 0 L) (ha : a ≠ 0) (hx : (x, b) ∈ place 20 a L)
    (hy : (y, c) ∈ place 20 a L) : next m x = y ↔ prev m y = x := by
  have hx0 := place_bounds hx
  have hy0 := place_bounds hy
  constructor
  · intro e
    rcases headers_next h hx with ⟨e', -⟩ | ⟨-, -, e', hback⟩
    · omega
    · rwa [← e', e] at hback
  · intro e
    rcases headers_prev h hy with ⟨e', -⟩ | ⟨z, -, -, e', hback⟩
    · omega
    · rwa [← e', e] at hback

/-- The walk along `next` finds the blocks. -/
theorem walk_eq : ∀ (L : List Blk) (a prv fuel : ℕ), Headers m prv a 0 L → a ≠ 0 → L.length < fuel →
    walk m fuel (nextOf 0 a L) = some ((place 20 a L).map Prod.fst) := by
  intro L
  induction L with
  | nil =>
    intro a prv fuel _ _ hf
    obtain ⟨fuel, rfl⟩ : ∃ n, fuel = n + 1 := ⟨fuel - 1, by simp at hf; omega⟩
    rfl
  | cons b L ih =>
    intro a prv fuel h ha hf
    obtain ⟨fuel, rfl⟩ : ∃ n, fuel = n + 1 := ⟨fuel - 1, by simp at hf; omega⟩
    obtain ⟨hhdr, hrest⟩ := h
    rw [nextOf_cons, place_cons, List.map_cons]
    unfold walk
    rw [if_neg ha, hhdr.next, ih _ _ _ hrest (by omega) (by simpa using hf), Option.map_some]

/-- Settled blocks have no two free headers in a row. -/
theorem isChain_used : ∀ (L : List Blk) (a prv : ℕ), Headers m prv a 0 L → Settled L →
    ((place 20 a L).map Prod.fst).IsChain fun x y => used m x ≠ memFree ∨ used m y ≠ memFree := by
  have hused : ∀ {x p n : ℕ} {b : Blk}, Hdr m x b p n → b.used = true → used m x ≠ memFree := by
    intro x p n b hhdr hb e
    rw [used_eq_zero_iff hhdr, hb] at e
    cases e
  intro L
  induction L with
  | nil => exact fun _ _ _ _ => List.IsChain.nil
  | cons b L ih =>
    intro a prv h hs
    rcases L with _ | ⟨c, L⟩
    · exact List.IsChain.singleton _
    · obtain ⟨hb, hc, hrest⟩ := h
      obtain ⟨hbc, hs'⟩ := List.isChain_cons_cons.1 hs
      have := ih _ _ ⟨hc, hrest⟩ hs'
      exact List.isChain_cons_cons.2 ⟨hbc.imp (hused hb) (hused hc), this⟩

end Headers

/-! ### Runs -/

section Runs

variable {s s' : State} {c : Call} {L : List Blk} {p : ℕ}

theorem blockList_eq {h : Heap} (hb : Blocks h.mem heapStart L) (hhead : h.heapHead = heapStart)
    (hspan : Tiling.span 20 L = heapSize) :
    blockList h = some ((place 20 heapStart L).map Prod.fst) := by
  have hle : 20 * L.length ≤ Tiling.span 20 L := mul_length_le_span
  have hfuel : heapFuel = 26215 := rfl
  have hsize : heapSize = 524288 := rfl
  have hfirst : nextOf 0 heapStart L = h.heapHead := by
    rw [hhead]
    cases L with
    | nil => cases hspan
    | cons b L => rfl
  unfold blockList
  rw [← hfirst]
  exact walk_eq L heapStart 0 heapFuel hb.headers hb.pos (by omega)

theorem Inv.blockList (hi : Inv s L) :
    blockList s.heap = some ((place 20 heapStart L).map Prod.fst) :=
  blockList_eq hi.blocks hi.head hi.span

theorem Inv.tiles (hi : Inv s L) : Tiles s.heap ((place 20 heapStart L).map Prod.fst) := by
  have hend : heapStart + Tiling.span 20 L = heapEnd := by rw [hi.span]
  have hmem : ∀ x, x ∈ (place 20 heapStart L).map Prod.fst ↔ ∃ b, (x, b) ∈ place 20 heapStart L := by
    simp
  refine ⟨hi.blockList, ?_, fun x hx => ?_, ?_, fun x hx y hy => ?_, fun x hx => ?_⟩
  · cases L with
    | nil => cases hi.span
    | cons b L => rfl
  · obtain ⟨b, hx⟩ := (hmem x).1 hx
    obtain ⟨q, n, hhdr⟩ := hi.blocks.headers.of_mem hx
    rw [hhdr.size, hmem, Nat.add_assoc x]
    rcases headers_next hi.blocks.headers hx with ⟨e, hlast⟩ | ⟨c, hc, e, -⟩
    · exact Or.inr ⟨e, hlast.trans hend⟩
    · exact Or.inl ⟨⟨c, e ▸ hc⟩, e⟩
  · cases L with
    | nil => cases hi.span
    | cons b L => exact hi.blocks.headers.1.prev
  · obtain ⟨b, hx⟩ := (hmem x).1 hx
    obtain ⟨c, hy⟩ := (hmem y).1 hy
    exact headers_next_iff hi.blocks.headers hi.blocks.pos hx hy
  · obtain ⟨b, hx⟩ := (hmem x).1 hx
    obtain ⟨q, n, hhdr⟩ := hi.blocks.headers.of_mem hx
    exact hhdr.magic

theorem Inv.apart (hi : Inv s L) : Apart s ((place 20 heapStart L).map Prod.fst) := by
  have hend : heapStart + Tiling.span 20 L = heapEnd := by rw [hi.span]
  refine ⟨fun p hp => ?_, fun p hp => ?_, fun p hp x hx => ?_, hi.nodup, fun p hp q hq hne => ?_⟩
  · obtain ⟨x, b, hx, hu, rfl, -⟩ := hi.of_mem hp
    obtain ⟨q, n, hhdr⟩ := hi.blocks.headers.of_mem hx
    rw [Nat.add_sub_cancel, hhdr.used, if_pos hu]
    exact ⟨List.mem_map_of_mem hx, rfl⟩
  · obtain ⟨x, b, hx, -, rfl, hpay⟩ := hi.of_mem hp
    have := place_bounds hx
    rw [hpay]
    exact Set.Ico_subset_Ico (by omega) (by omega)
  · obtain ⟨y, b, hy, -, rfl, hpay⟩ := hi.of_mem hp
    obtain ⟨⟨z, c⟩, hz, rfl⟩ := List.mem_map.1 hx
    rw [hpay]
    rintro w ⟨h1, h2⟩ ⟨h3, h4⟩
    change z ≤ w at h3
    change w < z + 20 at h4
    rcases place_disjoint hy hz with e | e | e
    · cases e
      omega
    · omega
    · omega
  · obtain ⟨x, b, hx, -, rfl, hpx⟩ := hi.of_mem hp
    obtain ⟨y, c, hy, -, rfl, hpy⟩ := hi.of_mem hq
    rw [hpx, hpy]
    rintro w ⟨h1, h2⟩ ⟨h3, h4⟩
    rcases place_disjoint hx hy with e | e | e
    · cases e
      exact hne rfl
    · omega
    · omega

/-- A step keeps the blocks of the other allocated pointers. -/
theorem Inv.keeps (hi : Inv s L) (hstep : Step s c s') (hp : p ∈ s.live) (hne : c ≠ Call.free p) :
    Keeps s.heap s'.heap p := by
  obtain ⟨L', hi', hkeep⟩ := hi.step hstep
  obtain ⟨x, b, hx, hu, rfl, -⟩ := hi.of_mem hp
  have hx' := hkeep x b hu hx hne
  obtain ⟨q, n, hhdr⟩ := hi.blocks.headers.of_mem hx
  obtain ⟨q', n', hhdr'⟩ := hi'.blocks.headers.of_mem hx'
  refine ⟨⟨_, hi'.blockList, ?_⟩, ?_, ?_⟩
  · rw [Nat.add_sub_cancel]
    exact List.mem_map_of_mem hx'
  · rw [Nat.add_sub_cancel, hhdr.size, hhdr'.size]
  · rw [Nat.add_sub_cancel, hhdr.used, hhdr'.used]

/-- The two sums of `memoryStats` and the headers make up the heap. -/
theorem Inv.memoryStats (hi : Inv s L) : ∃ u f, memoryStats s.heap = some (u, f) ∧
    u + f + hdrSize * ((place 20 heapStart L).map Prod.fst).length = heapSize := by
  refine ⟨_, _, memoryStats_spec hi.blocks hi.head hi.span, ?_⟩
  rw [List.length_map, length_place, ← hi.span]
  exact bytes_add_bytes L

/-- The search of `kmalloc` ends. -/
theorem Inv.kmalloc_isSome (hi : Inv s L) (n : UInt32) : (kmalloc n s.heap).isSome := by
  rcases kmalloc_spec hi.blocks hi.head hi.span n with e | ⟨_, _, _, _, e, -⟩
  · rw [e]
    rfl
  · rw [e]
    rfl

/-- **The heap after any run**: its blocks tile it, what is allocated stays apart, the statistics add
up, and the next call returns and leaves every other allocated block as it is. -/
theorem run_heap {h₀ : Heap} {calls : List Call} (hr : Run Step (start h₀) calls s) :
    ∃ xs, Tiles s.heap xs ∧ Apart s xs ∧
      (∃ u f, memoryStats s.heap = some (u, f) ∧ u + f + hdrSize * xs.length = heapSize) ∧
      (∀ n, (kmalloc n s.heap).isSome) ∧
      ∀ c s', Step s c s' → ∀ p ∈ s.live, c ≠ Call.free p → Keeps s.heap s'.heap p := by
  obtain ⟨L, hi⟩ := inv_of_run hr
  exact ⟨_, hi.tiles, hi.apart, hi.memoryStats, hi.kmalloc_isSome, fun c s' hstep p hp hne =>
    hi.keeps hstep hp hne⟩

/-- A run that allocates: from zeroed memory, `kmalloc` of 16 bytes. -/
theorem exists_run_malloc : ∃ p h', kmalloc 16 (memoryInit ⟨fun _ => 0, 0⟩) = some (p, h') ∧
    Run Step (start ⟨fun _ => 0, 0⟩) [Call.malloc 16] ⟨h', if p = 0 then [] else [p]⟩ := by
  obtain ⟨⟨p, h'⟩, e⟩ := Option.isSome_iff_exists.1 ((inv_start ⟨fun _ => 0, 0⟩).kmalloc_isSome 16)
  exact ⟨p, h', e, Run.cons (Step.malloc e) (Run.nil _)⟩

theorem run_heap_malloc : ∃ s, Run Step (start ⟨fun _ => 0, 0⟩) [Call.malloc 16] s ∧
    ∃ xs, Tiles s.heap xs ∧ Apart s xs := by
  obtain ⟨p, h', -, hr⟩ := exists_run_malloc
  obtain ⟨xs, h1, h2, -⟩ := run_heap hr
  exact ⟨_, hr, xs, h1, h2⟩

/-- **No two neighbours are free** after any run; with nothing allocated, one free block is left. -/
theorem run_no_adjacent_free {h₀ : Heap} {calls : List Call} (hr : Run Step (start h₀) calls s) :
    ∃ xs, blockList s.heap = some xs ∧
      xs.IsChain (fun x y => used s.heap.mem x ≠ memFree ∨ used s.heap.mem y ≠ memFree) ∧
      (s.live = [] → xs = [heapStart] ∧ used s.heap.mem heapStart = memFree ∧
        size s.heap.mem heapStart = heapSize - hdrSize) := by
  obtain ⟨L, hi⟩ := inv_of_run hr
  refine ⟨_, hi.blockList, isChain_used L _ _ hi.blocks.headers hi.blocks.settled, fun hlive => ?_⟩
  -- a block in use would be allocated
  have hfree : ∀ b ∈ L, b.used = false := by
    intro b hb
    obtain ⟨L₁, L₂, rfl⟩ := List.append_of_mem hb
    have hx : (heapStart + Tiling.span 20 L₁, b) ∈ place 20 heapStart (L₁ ++ b :: L₂) := by simp
    refine Bool.eq_false_iff.2 fun hu => ?_
    have hmem := (hi.live _).2 ⟨_, b, hx, hu, rfl⟩
    rw [hlive] at hmem
    cases hmem
  have hne : L ≠ [] := by
    rintro rfl
    cases hi.span
  obtain ⟨b, rfl⟩ := hi.blocks.settled.eq_singleton hne hfree
  have hhdr := hi.blocks.headers.1
  have hspan := hi.span
  rw [span_cons, span_nil] at hspan
  refine ⟨rfl, (used_eq_zero_iff hhdr).2 (hfree b List.mem_cons_self), ?_⟩
  rw [hhdr.size]
  change b.size = 524268
  change 20 + b.size + 0 = 524288 at hspan
  omega

theorem run_no_adjacent_free_malloc_free : ∃ p s,
    Run Step (start ⟨fun _ => 0, 0⟩) [Call.malloc 16, Call.free p] s ∧
      blockList s.heap = some [heapStart] := by
  obtain ⟨p, h', -, hr⟩ := exists_run_malloc
  have hp : p = 0 ∨ p ∈ if p = 0 then [] else [p] := by
    by_cases h0 : p = 0
    · exact Or.inl h0
    · simp [h0]
  have hr' := hr.append (Run.cons (Step.free hp) (Run.nil _))
  obtain ⟨xs, hxs, -, hfree⟩ := run_no_adjacent_free hr'
  have hlive : (if p = 0 then [] else [p]).erase p = [] := by
    by_cases h0 : p = 0 <;> simp [h0]
  obtain ⟨rfl, -⟩ := hfree hlive
  exact ⟨p, _, hr', hxs⟩

end Runs

/-! ### A heap with a gap -/

section Gap

variable {m : Mem} {n x : ℕ} {b : Blk} {P S : List Blk}

/-- The blocks in front of the first one that fits. -/
theorem NoneFits.takeWhile_eq (hP : NoneFits n P) (hu : b.used = false) (hfit : n ≤ b.size) :
    (P ++ b :: S).takeWhile (fun c => decide (c.used = false → c.size < n)) = P := by
  have hb : ¬ (b.used = false → b.size < n) := fun h => Nat.not_lt.2 hfit (h hu)
  rw [List.takeWhile_append_of_pos fun c hc => decide_eq_true (hP c hc), List.takeWhile_cons_of_neg (by simpa using hb),
    List.append_nil]

/-- `kmalloc` takes a given free block, if it is large enough and no one in front of it is. -/
theorem kmalloc_eq {k : UInt32} (hb : Blocks m heapStart (P ++ b :: S))
    (hspan : span 20 (P ++ b :: S) = heapSize) (hk : k ≠ 0) (hn : (align8 k).toNat = n)
    (hP : NoneFits n P) (hu : b.used = false) (hfit : n ≤ b.size)
    (hx : x = heapStart + span 20 P) : ∃ m', kmalloc k ⟨m, heapStart⟩ = some (x + 20, ⟨m', heapStart⟩) ∧
      Blocks m' heapStart (P ++ carve 20 8 n b ++ S) := by
  subst hn
  refine ⟨_, ?_, takeBlock_spec hb hx hu hfit⟩
  rcases kmalloc_first_fit (h := ⟨m, heapStart⟩) hb rfl hspan hk with ⟨hnone, -⟩ |
    ⟨P', b', S', e, hnone, hu', hfit', e'⟩
  · exact absurd (hnone b (by simp) hu) (Nat.not_lt.2 hfit)
  · obtain rfl : P = P' := by
      rw [← hP.takeWhile_eq hu hfit, e, hnone.takeWhile_eq hu' hfit']
    rw [e', hx]

/-- The first block that is allocated is the first one of the heap. -/
theorem kmalloc_start (h₀ : Heap) (k : UInt32) (n : ℕ) (hk : k ≠ 0) (hn : (align8 k).toNat = n)
    (hfit : n ≤ heapSize - hdrSize) : ∃ m, Step (start h₀) (.malloc k) ⟨⟨m, heapStart⟩, [heapStart + 20]⟩ ∧
      Blocks m heapStart (carve 20 8 n ⟨heapSize - hdrSize, false⟩) := by
  obtain ⟨⟨m₀, head⟩, hstart⟩ : ∃ h, start h₀ = ⟨h, []⟩ := ⟨memoryInit h₀, rfl⟩
  have hi := hstart ▸ inv_start h₀
  obtain rfl : head = heapStart := hi.head
  obtain ⟨m, e, hb⟩ := kmalloc_eq (x := heapStart) (P := []) (S := []) hi.blocks hi.span hk hn nofun rfl
    hfit (by simp)
  refine ⟨m, ?_, by simpa using hb⟩
  have hstep : Step ⟨⟨m₀, heapStart⟩, []⟩ _ _ := Step.malloc e
  rw [if_neg (by omega)] at hstep
  rwa [hstart]

/-- Two blocks are allocated, and the first one is freed. -/
theorem exists_gap (h₀ : Heap) : ∃ m, Run Step (start h₀)
      [.malloc 8, .malloc 8, .free (heapStart + 20)] ⟨⟨m, heapStart⟩, [heapStart + 48]⟩ ∧
    Blocks m heapStart [⟨8, false⟩, ⟨8, true⟩, ⟨524212, false⟩] := by
  obtain ⟨m₁, h₁, hb₁⟩ := kmalloc_start h₀ 8 8 (by decide) rfl (by decide)
  obtain ⟨m₂, e₂, hb₂⟩ := kmalloc_eq (k := 8) (P := [⟨8, true⟩]) (b := ⟨524240, false⟩) (S := [])
    (n := 8) (x := heapStart + 28) hb₁ rfl (by decide) rfl (by unfold NoneFits; simp) rfl (by decide) rfl
  have h₂ : Step ⟨⟨m₁, heapStart⟩, [heapStart + 20]⟩ _ _ := Step.malloc e₂
  rw [if_neg (by omega)] at h₂
  have hb₂' : Blocks m₂ heapStart ([] ++ ⟨8, true⟩ :: [⟨8, true⟩, ⟨524212, false⟩]) := hb₂
  have h₃ : Step ⟨⟨m₂, heapStart⟩, [heapStart + 28 + 20, heapStart + 20]⟩ (.free (heapStart + 20)) _ :=
    Step.free (Or.inr (by simp))
  -- the second block keeps the first one from growing
  have hnext := headers_freeNext hb₂' rfl
  have hprev := mergePrev_of_used hnext rfl nofun
  have hfree := kfree_eq (h := ⟨m₂, heapStart⟩) (x := heapStart) (by decide) hb₂'.headers.1.magic
  rw [span_nil, Nat.add_zero] at hnext hprev
  rw [hfree, hprev] at h₃
  exact ⟨_, Run.cons h₁ (Run.cons h₂ (Run.cons h₃ (Run.nil _))), hnext, hb₂'.pos, hb₂'.small, by
    simp [Settled]⟩

/-- Behind the gap there is room for 16 bytes. -/
theorem kmalloc_gap (hb : Blocks m heapStart [⟨8, false⟩, ⟨8, true⟩, ⟨524212, false⟩]) :
    ∃ m', kmalloc 16 ⟨m, heapStart⟩ = some (heapStart + 76, ⟨m', heapStart⟩) := by
  obtain ⟨m', e, -⟩ := kmalloc_eq (k := 16) (P := [⟨8, false⟩, ⟨8, true⟩]) (b := ⟨524212, false⟩) (S := [])
    (n := 16) (x := heapStart + 56) hb rfl (by decide) rfl (by unfold NoneFits; simp) rfl (by decide) rfl
  exact ⟨m', e⟩

end Gap

end AuraOS.Kernel.Memory
