import AuraOS.Kernel.Memory.BlockList

/-!
# Freeing undoes allocating

The neighbours of a free block are in use.  So when a block that `kmalloc` took is freed right away, it
merges with what was split off from it and with nothing else, and the block list is what it was before
(`kfree_kmalloc`).
-/

namespace AuraOS.Kernel.Memory

open AuraOS.Lib AuraOS.Lib.Tiling

/-- Both heaps have the same block list. -/
structure SameList (h h' : Heap) : Prop where
  list : blockList h' = blockList h
  magic : ∀ xs, blockList h = some xs → ∀ x ∈ xs, magic h'.mem x = magic h.mem x
  size : ∀ xs, blockList h = some xs → ∀ x ∈ xs, size h'.mem x = size h.mem x
  used : ∀ xs, blockList h = some xs → ∀ x ∈ xs, used h'.mem x = used h.mem x
  next : ∀ xs, blockList h = some xs → ∀ x ∈ xs, next h'.mem x = next h.mem x
  prev : ∀ xs, blockList h = some xs → ∀ x ∈ xs, prev h'.mem x = prev h.mem x
  stats : memoryStats h' = memoryStats h

section Undo

variable {h h' : Heap} {m : Mem} {a x sz : ℕ} {b : Blk} {L P S : List Blk}

theorem SameList.refl (h : Heap) : SameList h h :=
  ⟨rfl, fun _ _ _ _ => rfl, fun _ _ _ _ => rfl, fun _ _ _ _ => rfl, fun _ _ _ _ => rfl,
    fun _ _ _ _ => rfl, rfl⟩

/-- Two heaps that consist of the same blocks have the same block list. -/
theorem sameList_of_blocks (hb : Blocks h.mem heapStart L) (hb' : Blocks h'.mem heapStart L)
    (hhead : h.heapHead = heapStart) (hhead' : h'.heapHead = heapStart) (hspan : span 20 L = heapSize) :
    SameList h h' := by
  have hlist := blockList_eq hb hhead hspan
  have hlink : ∀ xs, blockList h = some xs → ∀ x ∈ xs, ∃ b p n, Hdr h.mem x b p n ∧ Hdr h'.mem x b p n := by
    intro xs hxs x hx
    cases hlist.symm.trans hxs
    obtain ⟨⟨x, b⟩, hmem, rfl⟩ := List.mem_map.1 hx
    obtain ⟨p, p', n, e, e', hp⟩ := hb.headers.link hb'.headers hmem
    obtain rfl : p = p' := hp.elim id fun hp => hp.1.trans hp.2.symm
    exact ⟨b, p, n, e, e'⟩
  refine ⟨?_, fun xs hxs x hx => ?_, fun xs hxs x hx => ?_, fun xs hxs x hx => ?_, fun xs hxs x hx => ?_,
    fun xs hxs x hx => ?_, ?_⟩
  · rw [hlist, blockList_eq hb' hhead' hspan]
  · obtain ⟨b, p, n, e, e'⟩ := hlink xs hxs x hx
    rw [e.magic, e'.magic]
  · obtain ⟨b, p, n, e, e'⟩ := hlink xs hxs x hx
    rw [e.size, e'.size]
  · obtain ⟨b, p, n, e, e'⟩ := hlink xs hxs x hx
    rw [e.used, e'.used]
  · obtain ⟨b, p, n, e, e'⟩ := hlink xs hxs x hx
    rw [e.next, e'.next]
  · obtain ⟨b, p, n, e, e'⟩ := hlink xs hxs x hx
    rw [e.prev, e'.prev]
  · rw [memoryStats_spec hb hhead hspan, memoryStats_spec hb' hhead' hspan]

/-- Freeing the block that was just taken. -/
theorem kfree_takeBlock (hb : Blocks h.mem a (P ++ b :: S)) (hx : x = a + span 20 P) (hu : b.used = false)
    (hsz : sz ≤ b.size) : ∃ m, kfree (x + 20) { h with mem := takeBlock h.mem x sz } = { h with mem := m } ∧
      Blocks m a (P ++ b :: S) := by
  obtain ⟨-, hsmall, -⟩ := hb.cut hx
  obtain ⟨-, hS, hlast⟩ := (settled_append_cons_of_free hu).1 hb.settled
  obtain ⟨s, R, hc, -⟩ := carve_spec (H := 20) (k := 8) (by omega) hsz
  have hb' := takeBlock_spec hb hx hu hsz
  rw [hc, List.append_assoc, List.cons_append] at hb'
  have hhdr := ((headers_cut hx).1 hb'.headers).2.1
  -- the block merges with what was split off, and the block in front of it is in use
  have hnext := headers_freeNext hb' hx
  rw [absorb_carve hS hu hc hsz (by omega)] at hnext
  have hprev := mergePrev_of_used hnext hx hlast
  refine ⟨_, kfree_eq (by omega) hhdr.magic, ?_⟩
  rw [hprev]
  exact ⟨hnext, hb.pos, hb.small, hb.settled⟩

/-- **Freeing undoes allocating**: after any run and for every size. -/
theorem kfree_kmalloc {s : State} {h₀ : Heap} {calls : List Call} (hr : Run Step (start h₀) calls s)
    (n : UInt32) : ∃ p h', kmalloc n s.heap = some (p, h') ∧ SameList s.heap (kfree p h') := by
  obtain ⟨L, hi⟩ := inv_of_run hr
  have hnull : kfree 0 s.heap = s.heap := if_pos rfl
  by_cases hn : n = 0
  · exact ⟨0, s.heap, if_pos hn, hnull.symm ▸ SameList.refl s.heap⟩
  rcases kmalloc_first_fit hi.blocks hi.head hi.span hn with ⟨-, e⟩ | ⟨P, b, S, rfl, -, hu, hfit, e⟩
  · exact ⟨0, s.heap, e, hnull.symm ▸ SameList.refl s.heap⟩
  · obtain ⟨m, e', hb⟩ := kfree_takeBlock hi.blocks rfl hu hfit
    refine ⟨_, _, e, ?_⟩
    rw [e']
    exact sameList_of_blocks hi.blocks hb hi.head hi.head hi.span

/-- On a heap with a gap, a block is taken behind one in use and given back. -/
theorem kfree_kmalloc_gap : ∃ m h', Run Step (start ⟨fun _ => 0, 0⟩)
      [.malloc 8, .malloc 8, .free (heapStart + 20)] ⟨⟨m, heapStart⟩, [heapStart + 48]⟩ ∧
    blockList ⟨m, heapStart⟩ = some [heapStart, heapStart + 28, heapStart + 56] ∧
    kmalloc 16 ⟨m, heapStart⟩ = some (heapStart + 76, h') ∧
    SameList ⟨m, heapStart⟩ (kfree (heapStart + 76) h') := by
  obtain ⟨m, hr, hb⟩ := exists_gap ⟨fun _ => 0, 0⟩
  obtain ⟨m', e⟩ := kmalloc_gap hb
  obtain ⟨p, h', e', hsame⟩ := kfree_kmalloc hr 16
  obtain ⟨rfl, rfl⟩ := Prod.mk.inj (Option.some.inj (e.symm.trans e'))
  have hlist := blockList_eq (h := ⟨m, heapStart⟩) hb rfl (by decide)
  exact ⟨m, _, hr, hlist, e, hsame⟩

end Undo

end AuraOS.Kernel.Memory
