import AuraOS.Kernel.Memory.BlockList

/-!
# First fit

`kmalloc` takes the lowest free block that is large enough for the aligned size, and leaves the other
blocks as they are (`kmalloc_takes`).  The alignment is computed with 32 bits, so that the largest seven
sizes are aligned to `0`; for these `kmalloc` hands out any free block, and for all others never less than
was asked for (`kmalloc_enough_iff`).
-/

namespace AuraOS.Kernel.Memory

open AuraOS.Lib AuraOS.Lib.Tiling

/-- The size, plus 7 modulo `2 ^ 32`, rounded down to a multiple of 8. -/
def aligned (n : UInt32) : ℕ := (n.toNat + 7) % 2 ^ 32 / 8 * 8

/-- The block `y` is the same in both heaps, up to its link back. -/
structure SameBlock (h h' : Heap) (y : ℕ) : Prop where
  magic : magic h'.mem y = magic h.mem y
  size : size h'.mem y = size h.mem y
  used : used h'.mem y = used h.mem y
  next : next h'.mem y = next h.mem y
  contents : ∀ z ∈ payload h.mem (y + hdrSize), h'.mem z = h.mem z

/-- `h'` is the heap `h` after the block `x` was taken for `a` bytes. -/
structure Takes (h h' : Heap) (a x : ℕ) : Prop where
  free : used h.mem x = memFree
  fits : a ≤ size h.mem x
  used : used h'.mem x = memUsed
  enough : a ≤ size h'.mem x
  close : size h'.mem x < a + hdrSize + 8
  /-- the blocks in front of `x`, the rest of `x`, and the blocks behind it -/
  list : ∃ pre rest post, blockList h = some (pre ++ x :: post) ∧
    blockList h' = some (pre ++ x :: (rest ++ post)) ∧
    (∀ y ∈ pre, Memory.used h.mem y = memFree → size h.mem y < a) ∧
    (∀ y ∈ pre, y < x) ∧ (∀ y ∈ post, x < y) ∧
    (rest = [] ∧ size h'.mem x = size h.mem x ∨
      rest = [x + hdrSize + size h'.mem x] ∧
        Memory.used h'.mem (x + hdrSize + size h'.mem x) = memFree ∧
        size h'.mem x + hdrSize + size h'.mem (x + hdrSize + size h'.mem x) = size h.mem x) ∧
    ∀ y ∈ pre ++ post, SameBlock h h' y ∧ (prev h.mem y ≠ x → prev h'.mem y = prev h.mem y)

theorem align8_toNat (n : UInt32) : (align8 n).toNat = aligned n := by
  unfold align8 aligned
  rw [UInt32.toNat_and, UInt32.toNat_add]
  refine (and_mask _ 3 29).trans ?_
  change (n.toNat + 7) % 2 ^ 32 / 2 ^ 3 % 2 ^ 29 * 2 ^ 3 = _
  omega

section Takes

variable {h h' : Heap} {a sz x y prv prv' nxt : ℕ} {b c : Blk} {L P S : List Blk}

/-- Two heaps that have the same blocks in a region, with the same contents. -/
theorem sameBlock_of_headers (h₁ : Headers h.mem prv a nxt L) (h₂ : Headers h'.mem prv' a nxt L)
    (hcontents : ∀ z, a + 20 ≤ z → z < a + span 20 L → h'.mem z = h.mem z)
    (hy : (y, c) ∈ place 20 a L) :
    SameBlock h h' y ∧
      (prev h'.mem y = prev h.mem y ∨ prev h.mem y = prv ∧ prev h'.mem y = prv') := by
  obtain ⟨p, p', n, e, e', hp⟩ := h₁.link h₂ hy
  have hbounds := place_bounds hy
  refine ⟨⟨by rw [e.magic, e'.magic], by rw [e.size, e'.size], by rw [e.used, e'.used],
    by rw [e.next, e'.next], fun z hz => ?_⟩, ?_⟩
  · unfold payload at hz
    rw [Nat.add_sub_cancel, e.size] at hz
    obtain ⟨hz, hz'⟩ := hz
    change y + 20 ≤ z at hz
    change z < y + 20 + c.size at hz'
    exact hcontents z (by omega) (by omega)
  · rw [e.prev, e'.prev]
    exact hp.imp_left Eq.symm

/-- **Taking the first free block that is large enough.** -/
theorem takes_of_blocks (hb : Blocks h.mem heapStart (P ++ b :: S)) (hhead : h.heapHead = heapStart)
    (hspan : span 20 (P ++ b :: S) = heapSize) (hnone : NoneFits sz P) (hu : b.used = false)
    (hfit : sz ≤ b.size) (hx : x = heapStart + span 20 P)
    (hm : h'.mem = takeBlock h.mem x sz) (hhead' : h'.heapHead = heapStart) : Takes h h' sz x := by
  have hb' : Blocks h'.mem heapStart (P ++ carve 20 8 sz b ++ S) := hm ▸ takeBlock_spec hb hx hu hfit
  have hspan' : span 20 (P ++ carve 20 8 sz b ++ S) = heapSize := by
    rw [← hspan]
    simp only [span_append, span_carve, span_cons, Nat.add_assoc]
  have hlist := blockList_eq hb hhead hspan
  have hlist' := blockList_eq hb' hhead' hspan'
  obtain ⟨h₁, hhdr, h₂⟩ := (headers_cut hx).1 hb.headers
  obtain ⟨s, R, hc, hle, hlt, hR⟩ := carve_spec (H := 20) (k := 8) (by omega) hfit
  rw [hc, List.append_assoc, List.cons_append] at hb' hlist'
  obtain ⟨h₁', hhdr', hrest⟩ := (headers_cut hx).1 hb'.headers
  obtain ⟨y, hy⟩ : ∃ y, y = x + (20 + b.size) := ⟨_, rfl⟩
  rw [← hy] at h₂
  -- the rest of the block, and the headers behind it
  have htail : (R = [] ∧ s = b.size ∨ (∃ t, R = [⟨t, false⟩] ∧ s + 20 + t = b.size ∧
      used h'.mem (x + (20 + s)) = memFree ∧ size h'.mem (x + (20 + s)) = t)) ∧
      (∃ prv, Headers h'.mem prv y 0 S) ∧
      place 20 (x + (20 + s)) (R ++ S) = place 20 (x + (20 + s)) R ++ place 20 y S := by
    rcases hR with ⟨rfl, rfl⟩ | ⟨t, rfl, hsize⟩
    · rw [hy]
      exact ⟨Or.inl ⟨rfl, rfl⟩, ⟨x, hrest⟩, rfl⟩
    · obtain ⟨ht, hS⟩ := hrest
      have hend : x + (20 + s) + (20 + t) = y := by omega
      rw [hend] at hS
      refine ⟨Or.inr ⟨t, rfl, hsize, ht.used, ht.size⟩, ⟨_, hS⟩, ?_⟩
      rw [place_append, span_cons, span_nil, Nat.add_zero, hend]
  obtain ⟨htail, ⟨prv, h₂'⟩, hplace⟩ := htail
  have hsx : size h'.mem x = s := hhdr'.size
  have hbx : size h.mem x = b.size := hhdr.size
  refine ⟨(used_eq_zero_iff hhdr).2 hu, hbx ▸ hfit, hhdr'.used, hsx ▸ hle, hsx ▸ hlt,
    (place 20 heapStart P).map Prod.fst, (place 20 (x + (20 + s)) R).map Prod.fst,
    (place 20 y S).map Prod.fst, ?_, ?_, ?_, ?_, ?_, ?_, ?_⟩
  · rw [hlist, place_append, ← hx, place_cons, ← hy, List.map_append, List.map_cons]
  · rw [hlist', place_append, ← hx, place_cons, hplace, List.map_append, List.map_cons, List.map_append]
  · intro z hz hfree
    obtain ⟨⟨z, c⟩, hmem, rfl⟩ := List.mem_map.1 hz
    obtain ⟨p, n, hz'⟩ := h₁.of_mem hmem
    obtain ⟨L₁, L₂, rfl, -⟩ := exists_append_of_mem_place hmem
    rw [hz'.size]
    exact hnone c (by simp) ((used_eq_zero_iff hz').1 hfree)
  · intro z hz
    obtain ⟨⟨z, c⟩, hmem, rfl⟩ := List.mem_map.1 hz
    have := place_bounds hmem
    dsimp only
    omega
  · intro z hz
    obtain ⟨⟨z, c⟩, hmem, rfl⟩ := List.mem_map.1 hz
    have := place_bounds hmem
    dsimp only
    omega
  · rw [hsx, hbx, show x + hdrSize + s = x + (20 + s) from Nat.add_assoc x 20 s]
    rcases htail with ⟨rfl, e⟩ | ⟨t, rfl, e, hfree, ht⟩
    · exact Or.inl ⟨rfl, e⟩
    · exact Or.inr ⟨rfl, hfree, ht ▸ e⟩
  · intro z hz
    rcases List.mem_append.1 hz with hz | hz
    · obtain ⟨⟨z, c⟩, hmem, rfl⟩ := List.mem_map.1 hz
      obtain ⟨hsame, hprev⟩ := sameBlock_of_headers h₁ h₁' (fun w hw hw' => by
        rw [hm]
        exact takeBlock_apply hb hx hfit (by omega) (by omega)) hmem
      exact ⟨hsame, fun _ => hprev.elim id fun e => e.2.trans e.1.symm⟩
    · obtain ⟨⟨z, c⟩, hmem, rfl⟩ := List.mem_map.1 hz
      obtain ⟨hsame, hprev⟩ := sameBlock_of_headers h₂ h₂' (fun w hw hw' => by
        rw [hm]
        exact takeBlock_apply hb hx hfit (by omega) (by omega)) hmem
      exact ⟨hsame, fun hne => hprev.resolve_right fun e => hne e.1⟩

theorem Takes.mem {xs : List ℕ} {a : ℕ} (ht : Takes h h' a x) (hxs : blockList h = some xs) : x ∈ xs := by
  obtain ⟨pre, rest, post, e, -⟩ := ht.list
  cases hxs.symm.trans e
  simp

/-- What `kmalloc` does, in terms of the headers: it returns `NULL`, or takes a block. -/
theorem Inv.takes {s : State} (hi : Inv s L) {n : UInt32} (hn : n ≠ 0) :
    ((∀ xs, Memory.blockList s.heap = some xs → ∀ y ∈ xs, used s.heap.mem y = memFree →
        size s.heap.mem y < aligned n) ∧ kmalloc n s.heap = some (0, s.heap)) ∨
    ∃ x h', kmalloc n s.heap = some (x + hdrSize, h') ∧ Takes s.heap h' (aligned n) x := by
  rcases kmalloc_first_fit hi.blocks hi.head hi.span hn with ⟨hnone, e⟩ |
    ⟨P, b, S, rfl, hnone, hu, hfit, e⟩
  · refine Or.inl ⟨fun xs hxs y hy hfree => ?_, e⟩
    cases hi.blockList.symm.trans hxs
    obtain ⟨⟨y, c⟩, hmem, rfl⟩ := List.mem_map.1 hy
    obtain ⟨p, q, hhdr⟩ := hi.blocks.headers.of_mem hmem
    obtain ⟨L₁, L₂, rfl, -⟩ := exists_append_of_mem_place hmem
    rw [hhdr.size, ← align8_toNat]
    exact hnone c (by simp) ((used_eq_zero_iff hhdr).1 hfree)
  · have htakes : Takes s.heap
        { s.heap with mem := takeBlock s.heap.mem (heapStart + Tiling.span 20 P) (align8 n).toNat } _ _ :=
      takes_of_blocks hi.blocks hi.head hi.span hnone hu hfit rfl rfl hi.head
    rw [align8_toNat] at htakes e
    exact Or.inr ⟨_, _, e, htakes⟩

end Takes

/-! ### Runs -/

section Runs

variable {s : State} {h₀ : Heap} {calls : List Call} {n : UInt32}

/-- **`kmalloc` is first fit**: after any run it returns `NULL` and changes nothing exactly if no free
block has the aligned size, and takes the lowest one that has it otherwise. -/
theorem kmalloc_takes (hr : Run Step (start h₀) calls s) (hn : n ≠ 0) :
    ∃ xs, blockList s.heap = some xs ∧
      ((∃ h', kmalloc n s.heap = some (0, h')) ↔
        ∀ y ∈ xs, used s.heap.mem y = memFree → size s.heap.mem y < aligned n) ∧
      (∀ h', kmalloc n s.heap = some (0, h') → h' = s.heap) ∧
      ((∃ y ∈ xs, used s.heap.mem y = memFree ∧ aligned n ≤ size s.heap.mem y) →
        ∃ x h', kmalloc n s.heap = some (x + hdrSize, h') ∧ Takes s.heap h' (aligned n) x) := by
  obtain ⟨L, hi⟩ := inv_of_run hr
  refine ⟨_, hi.blockList, ?_⟩
  rcases hi.takes hn with ⟨hnone, e⟩ | ⟨x, h', e, ht⟩
  · have hlt := hnone _ hi.blockList
    refine ⟨⟨fun _ => hlt, fun _ => ⟨_, e⟩⟩, fun h' e' => ?_, ?_⟩
    · exact (Prod.mk.inj (Option.some.inj (e.symm.trans e'))).2.symm
    · rintro ⟨y, hy, hfree, hle⟩
      exact absurd (hlt y hy hfree) (Nat.not_lt.2 hle)
  · have hne : ∀ g, kmalloc n s.heap ≠ some (0, g) := by
      intro g e'
      have : x + 20 = 0 := (Prod.mk.inj (Option.some.inj (e.symm.trans e'))).1
      omega
    refine ⟨⟨fun ⟨g, e'⟩ => absurd e' (hne g), fun hlt => ?_⟩, fun g e' => absurd e' (hne g),
      fun _ => ⟨x, h', e, ht⟩⟩
    exact absurd ht.fits (Nat.not_le.2 (hlt x (ht.mem hi.blockList) ht.free))

/-- A free block that is too small is passed over. -/
theorem kmalloc_takes_gap : ∃ m h', Run Step (start ⟨fun _ => 0, 0⟩)
      [.malloc 8, .malloc 8, .free (heapStart + 20)] ⟨⟨m, heapStart⟩, [heapStart + 48]⟩ ∧
    used m heapStart = memFree ∧ size m heapStart = 8 ∧
    kmalloc 16 ⟨m, heapStart⟩ = some (heapStart + 56 + hdrSize, h') ∧
    Takes ⟨m, heapStart⟩ h' (aligned 16) (heapStart + 56) := by
  obtain ⟨m, hr, hb⟩ := exists_gap ⟨fun _ => 0, 0⟩
  obtain ⟨h₁, -, h₃, -⟩ := hb.headers
  obtain ⟨m', e⟩ := kmalloc_gap hb
  obtain ⟨xs, hxs, -, -, htakes⟩ := kmalloc_takes (n := 16) hr (by decide)
  cases (blockList_eq hb rfl (by decide)).symm.trans hxs
  have hsize : size m (heapStart + 56) = 524212 := h₃.size
  obtain ⟨x, h', e', ht⟩ := htakes ⟨heapStart + 56, by simp, h₃.used, hsize.symm ▸ by decide⟩
  have hx : heapStart + 76 = x + 20 := (Prod.mk.inj (Option.some.inj (e.symm.trans e'))).1
  obtain rfl : x = heapStart + 56 := by omega
  exact ⟨m, h', hr, h₁.used, h₁.size, e', ht⟩

/-! ### The sizes that wrap around -/

/-- `kmalloc` returns `NULL`, or a block in use of at least `n` bytes. -/
def Enough (h : Heap) (n : UInt32) : Prop :=
  ∃ p h', kmalloc n h = some (p, h') ∧ (p = 0 ∨ ∃ xs x, blockList h' = some xs ∧ x ∈ xs ∧
    p = x + hdrSize ∧ used h'.mem x = memUsed ∧ n.toNat ≤ size h'.mem x)

theorem aligned_of_le (h : n.toNat ≤ 2 ^ 32 - 8) : n.toNat ≤ aligned n := by
  unfold aligned
  omega

/-- The largest seven sizes are aligned to `0`. -/
theorem aligned_of_lt (h : 2 ^ 32 - 8 < n.toNat) : aligned n = 0 := by
  have : n.toNat < 2 ^ 32 := n.toNat_lt
  unfold aligned
  omega

theorem Takes.enough_of_le {h h' : Heap} {x : ℕ} (ht : Takes h h' (aligned n) x)
    (e : kmalloc n h = some (x + hdrSize, h')) (hn : n.toNat ≤ 2 ^ 32 - 8) : Enough h n := by
  obtain ⟨pre, rest, post, -, hlist, -⟩ := ht.list
  exact ⟨_, h', e, Or.inr ⟨_, x, hlist, by simp, rfl, ht.used, (aligned_of_le hn).trans ht.enough⟩⟩

/-- The block that is taken for such a size is too small. -/
theorem Takes.not_enough {h h' : Heap} {x : ℕ} (ht : Takes h h' (aligned n) x)
    (e : kmalloc n h = some (x + hdrSize, h')) (hn : 2 ^ 32 - 8 < n.toNat) : ¬Enough h n := by
  rintro ⟨p, g, e', hp⟩
  cases e.symm.trans e'
  rcases hp with h0 | ⟨xs, y, -, -, hy, -, hle⟩
  · exact absurd h0 (Nat.succ_ne_zero (x + 19))
  · obtain rfl : x = y := by omega
    have hclose := ht.close
    rw [aligned_of_lt hn] at hclose
    change size h'.mem x < 0 + 20 + 8 at hclose
    omega

/-- **`kmalloc` never hands out less than it was asked for**, exactly if the size does not wrap around or
no block is free. -/
theorem kmalloc_enough_iff (hr : Run Step (start h₀) calls s) (n : UInt32) : Enough s.heap n ↔
    n.toNat ≤ 2 ^ 32 - 8 ∨
      ∃ xs, blockList s.heap = some xs ∧ ∀ x ∈ xs, used s.heap.mem x ≠ memFree := by
  obtain ⟨L, hi⟩ := inv_of_run hr
  by_cases h0 : n = 0
  · subst h0
    exact iff_of_true ⟨0, s.heap, rfl, Or.inl rfl⟩ (Or.inl (by decide))
  rcases hi.takes h0 with ⟨hnone, e⟩ | ⟨x, h', e, ht⟩
  · refine iff_of_true ⟨0, s.heap, e, Or.inl rfl⟩ ?_
    by_cases hn : n.toNat ≤ 2 ^ 32 - 8
    · exact Or.inl hn
    · refine Or.inr ⟨_, hi.blockList, fun y hy hfree => ?_⟩
      have := hnone _ hi.blockList y hy hfree
      rw [aligned_of_lt (by omega)] at this
      omega
  · by_cases hn : n.toNat ≤ 2 ^ 32 - 8
    · exact iff_of_true (ht.enough_of_le e hn) (Or.inl hn)
    · refine iff_of_false (ht.not_enough e (by omega)) ?_
      rintro (hle | ⟨xs, hxs, hused⟩)
      · exact hn hle
      · exact hused x (ht.mem hxs) ht.free

/-- For 16 bytes, on a heap with a gap that is too small. -/
theorem kmalloc_enough_gap : ∃ m, Run Step (start ⟨fun _ => 0, 0⟩)
      [.malloc 8, .malloc 8, .free (heapStart + 20)] ⟨⟨m, heapStart⟩, [heapStart + 48]⟩ ∧
    used m heapStart = memFree ∧ size m heapStart < 16 ∧ Enough ⟨m, heapStart⟩ 16 := by
  obtain ⟨m, hr, hb⟩ := exists_gap ⟨fun _ => 0, 0⟩
  obtain ⟨h₁, -⟩ := hb.headers
  exact ⟨m, hr, h₁.used, by rw [h₁.size]; decide, (kmalloc_enough_iff hr 16).2 (Or.inl (by decide))⟩

/-- The block after `memory_init`. -/
theorem blockList_start (h₀ : Heap) : blockList (start h₀).heap = some [heapStart] ∧
    used (start h₀).heap.mem heapStart = memFree ∧
    size (start h₀).heap.mem heapStart = heapSize - hdrSize := by
  have hi := inv_start h₀
  have hhdr := hi.blocks.headers.1
  exact ⟨hi.blockList, hhdr.used, hhdr.size⟩

/-- **A request of `2 ^ 32 - 1` bytes** succeeds after `memory_init`, with a block that is too small. -/
theorem kmalloc_max_not_enough : (∃ p h', p ≠ 0 ∧
      kmalloc 0xFFFFFFFF (start ⟨fun _ => 0, 0⟩).heap = some (p, h')) ∧
    ¬Enough (start ⟨fun _ => 0, 0⟩).heap 0xFFFFFFFF := by
  obtain ⟨hlist, hfree, -⟩ := blockList_start ⟨fun _ => 0, 0⟩
  rcases (inv_start ⟨fun _ => 0, 0⟩).takes (n := 0xFFFFFFFF) (by decide) with ⟨hnone, -⟩ |
    ⟨x, h', e, ht⟩
  · have := hnone _ hlist heapStart (by simp) hfree
    rw [aligned_of_lt (by decide)] at this
    omega
  · exact ⟨⟨_, h', Nat.succ_ne_zero (x + 19), e⟩, ht.not_enough e (by decide)⟩

end Runs

end AuraOS.Kernel.Memory
