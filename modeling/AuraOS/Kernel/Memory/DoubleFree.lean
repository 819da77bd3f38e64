import AuraOS.Kernel.Memory.Undo

/-!
# Freeing twice

`kfree` accepts a pointer if the bytes in front of it hold the magic number, and these bytes stay when the
block is merged into the one in front of it.  So a pointer that is freed once more passes the guard; the
links of its stale header decide what happens.  If they lead to no free block, nothing does
(`again_unchanged`), else a block of the list may grow into its neighbours
(`freed_twice_grows`).
-/

namespace AuraOS.Kernel.Memory

open AuraOS.Lib AuraOS.Lib.Tiling

/-- The allocator and its client, with the pointers that were allocated at some time. -/
structure Client where
  state : State
  past : List ℕ

/-- A call as before, or a call of `kfree` with a pointer that was freed, and not handed out again. -/
inductive Client.Step : Client → Call → Client → Prop
  | call {s s' : State} {past : List ℕ} {c : Call} : Memory.Step s c s' →
      Client.Step ⟨s, past⟩ c ⟨s', s'.live ++ past⟩
  | again {s : State} {past : List ℕ} {p : ℕ} : p ∈ past → p ∉ s.live →
      Client.Step ⟨s, past⟩ (.free p) ⟨{ s with heap := kfree p s.heap }, past⟩

/-- The client after `memory_init`. -/
def Client.start (h₀ : Heap) : Client := ⟨Memory.start h₀, []⟩

/-- `kfree` finds nothing to do at the header `x`: it is marked free, and neither link leads to a free
block. -/
structure Inert (m : Mem) (x : ℕ) : Prop where
  used : used m x = memFree
  next : ¬(next m x ≠ 0 ∧ Memory.used m (Memory.next m x) = memFree)
  prev : ¬(prev m x ≠ 0 ∧ Memory.used m (Memory.prev m x) = memFree)

/-- The header of `p` is rejected by the guard, or inert. -/
def Harmless (h : Heap) (p : ℕ) : Prop :=
  magic h.mem (sub32 p hdrSize) ≠ blockMagic ∨ Inert h.mem (sub32 p hdrSize)

/-- The call frees the pointer `p` once more. -/
def Again (c : Client) (call : Call) (p : ℕ) : Prop := call = .free p ∧ p ∈ c.past ∧ p ∉ c.state.live

/-- If the call frees a pointer once more, then its header is harmless. -/
def Guarded (c : Client) (call : Call) : Prop := ∀ p, Again c call p → Harmless c.state.heap p

/-- The block list, its statistics and what is allocated are the same in the heap `h`. -/
structure Unchanged (s : State) (h : Heap) : Prop where
  same : SameList s.heap h
  contents : ∀ p ∈ s.live, ∀ z ∈ payload s.heap.mem p, h.mem z = s.heap.mem z

/-- If the call frees a pointer once more, then it changes nothing. -/
def Preserves (c : Client) (call : Call) (d : Client) : Prop :=
  ∀ p, Again c call p → Unchanged c.state d.state.heap

section Harmless

variable {m : Mem} {h : Heap} {s : State} {c d : Client} {call : Call} {x p a : ℕ} {b : Blk} {L : List Blk}

/-- Nothing happens at a harmless header. -/
theorem kfree_of_harmless (hp : Harmless h p) : kfree p h = h := by
  unfold kfree
  split
  · rfl
  · rcases hp with hmagic | hinert
    · exact if_pos hmagic
    · dsimp only
      split
      · rfl
      · rw [setUsed_eq_self hinert.used]
        unfold mergePrev mergeNext
        rw [if_neg hinert.next, if_neg hinert.prev]

theorem Unchanged.refl (s : State) : Unchanged s s.heap := ⟨SameList.refl s.heap, fun _ _ _ _ => rfl⟩

/-- A free block of the list is inert, for its neighbours are in use. -/
theorem inert_of_headers (hb : Headers m 0 a 0 L) (hs : Settled L) (hmem : (x, b) ∈ place 20 a L)
    (hu : b.used = false) : Inert m x := by
  obtain ⟨L₁, L₂, rfl, hx⟩ := exists_append_of_mem_place hmem
  obtain ⟨-, hS, hlast⟩ := (settled_append_cons_of_free hu).1 hs
  obtain ⟨-, hhdr, hrest⟩ := (headers_cut hx).1 hb
  refine ⟨(used_eq_zero_iff hhdr).2 hu, fun ⟨h0, hfree⟩ => ?_, fun ⟨h0, hfree⟩ => ?_⟩
  · rw [hhdr.next] at h0 hfree
    cases L₂ with
    | nil => exact h0 rfl
    | cons c L₂ =>
      have hc : c.used = true := ((settled_cons_of_free hu).1 hS).2 c (by simp)
      rw [nextOf_cons, used_eq_zero_iff hrest.1, hc] at hfree
      cases hfree
  · rcases List.eq_nil_or_concat L₁ with rfl | ⟨L₀, d, rfl⟩
    · exact h0 hhdr.prev
    · have hd : d.used = true := hlast d (by simp)
      have hheaders : Headers m 0 a 0 (L₀ ++ d :: b :: L₂) := by simpa using hb
      rw [hhdr.prev, List.concat_eq_append, lastOf_append_singleton,
        used_eq_zero_iff ((headers_cut rfl).1 hheaders).2.1, hd] at hfree
      cases hfree

/-- A pointer is harmless as long as its block is in the list. -/
theorem Inv.harmless (hi : Inv s L) (hp : p ∉ s.live) {xs : List ℕ} (hxs : Memory.blockList s.heap = some xs)
    (hmem : sub32 p hdrSize ∈ xs) (hp' : hdrSize ≤ p) (hlt : p < 2 ^ 32) : Harmless s.heap p := by
  cases hi.blockList.symm.trans hxs
  obtain ⟨⟨x, b⟩, hmem', hx⟩ := List.mem_map.1 hmem
  have hpx : p = x + 20 := by
    unfold sub32 at hx
    change 20 ≤ p at hp'
    change x = (p + 2 ^ 32 - 20) % 2 ^ 32 at hx
    omega
  have hu : b.used = false := by
    refine Bool.eq_false_iff.2 fun hu => hp ((hi.live p).2 ⟨x, b, hmem', hu, hpx⟩)
  change x = sub32 p hdrSize at hx
  unfold Harmless
  rw [← hx]
  exact Or.inr (inert_of_headers hi.blocks.headers hi.blocks.settled hmem' hu)

/-! ### Runs -/

theorem Guarded.preserves (hg : Guarded c call) (h : Client.Step c call d) : Preserves c call d := by
  rintro p ⟨rfl, hpast, hp⟩
  cases h with
  | call hstep =>
    cases hstep with
    | @free h live p hlive =>
      obtain rfl : p = 0 := hlive.resolve_right hp
      have hnull : kfree 0 h = h := if_pos rfl
      dsimp only
      rw [hnull]
      exact Unchanged.refl ⟨h, live⟩
  | @again s past p _ _ =>
    change Unchanged s (kfree p s.heap)
    rw [kfree_of_harmless (hg p ⟨rfl, hpast, hp⟩)]
    exact Unchanged.refl s

/-- The invariant of the allocator, and what is known about the pointers that it returned. -/
def Client.Inv (c : Client) : Prop := (∃ L, Memory.Inv c.state L) ∧ ∀ p ∈ c.past, hdrSize ≤ p ∧ p < 2 ^ 32

theorem inv_of_guarded {h₀ : Heap} {calls : List Call}
    (hr : Run (fun c call d => Client.Step c call d ∧ Guarded c call) (Client.start h₀) calls c) :
    c.Inv := by
  refine hr.invariant (I := Client.Inv) ?_ ⟨⟨_, inv_start h₀⟩, nofun⟩
  rintro c call d ⟨⟨L, hi⟩, hpast⟩ ⟨hstep, hg⟩
  cases hstep with
  | @call s s' past call hstep =>
    obtain ⟨L', hi', -⟩ := hi.step hstep
    refine ⟨⟨L', hi'⟩, fun p hp => ?_⟩
    rcases List.mem_append.1 hp with hp | hp
    · obtain ⟨x, b, hx, -, rfl, -⟩ := hi'.of_mem hp
      have := place_bounds hx
      have := hi'.blocks.small
      exact ⟨Nat.le_add_left 20 x, by omega⟩
    · exact hpast p hp
  | @again s past p hp hlive =>
    refine ⟨⟨L, ?_⟩, hpast⟩
    dsimp only
    rwa [kfree_of_harmless (hg p ⟨rfl, hp, hlive⟩)]

/-- **Freeing once more changes nothing**, in every run in which the header that is found is harmless; so
it is as long as the block is in the list. -/
theorem again_unchanged {h₀ : Heap} {calls : List Call}
    (hr : Run (fun c call d => Client.Step c call d ∧ Guarded c call) (Client.start h₀) calls c) :
    Run (fun c call d => Client.Step c call d ∧ Preserves c call d) (Client.start h₀) calls c ∧
      ∀ p ∈ c.past, p ∉ c.state.live →
        (Harmless c.state.heap p → Unchanged c.state (kfree p c.state.heap)) ∧
        ∀ xs, blockList c.state.heap = some xs → sub32 p hdrSize ∈ xs → Harmless c.state.heap p := by
  obtain ⟨⟨L, hi⟩, hpast⟩ := inv_of_guarded hr
  refine ⟨hr.mono fun c call d h => ⟨h.1, h.2.preserves h.1⟩, fun p hp hlive => ⟨fun hh => ?_,
    fun xs hxs hmem => hi.harmless hlive hxs hmem (hpast p hp).1 (hpast p hp).2⟩⟩
  rw [kfree_of_harmless hh]
  exact Unchanged.refl c.state

end Harmless

/-! ### Stale headers -/

section Stale

variable {h : Heap} {m : Mem} {a n q w x : ℕ} {b d : Blk} {P S : List Blk}

/-- **A block that was merged into the free one in front of it**, at `w`, is merged again when it is freed
once more. -/
theorem kfree_again_grows (hb : Blocks h.mem a (P ++ d :: b :: S)) (hw : w = a + span 20 P)
    (hx : x = w + (20 + d.size)) (hd : d.used = false) (hu : b.used = true) :
    ∃ s, size (kfree (x + 20) (kfree (x + 20) h)).mem w = size (kfree (x + 20) h).mem w + (20 + s) := by
  have hb' : Blocks h.mem a ((P ++ [d]) ++ b :: S) := by simpa using hb
  have hx' : x = a + span 20 (P ++ [d]) := by
    rw [span_append, span_cons, span_nil, Nat.add_zero, hx, hw, Nat.add_assoc]
  obtain ⟨hw0, -, -⟩ := hb.cut hw
  obtain ⟨-, hsmall, -⟩ := hb'.cut hx'
  obtain ⟨s, L', hS, h₁, hspan, -⟩ := freeNext_spec hb' hx' hu
  obtain ⟨m₁, hm₁⟩ : ∃ m₁, m₁ = mergeNext (setUsed h.mem x memFree) x := ⟨_, rfl⟩
  obtain ⟨n, hn⟩ : ∃ n, n = nextOf 0 (x + (20 + s)) L' := ⟨_, rfl⟩
  have hmagic := ((headers_cut hx').1 hb'.headers).2.1.magic
  rw [← hm₁] at h₁
  have hbx := ((headers_cut hx').1 h₁).2.1
  rw [lastOf_append_singleton, ← hw, ← hn] at hbx
  have hn0 : n ≠ 0 → x + (20 + s) ≤ n := by
    intro h0
    cases L' with
    | nil => exact absurd hn h0
    | cons c L' => exact hn.ge
  -- the first time, the block in front grows rightly
  rw [List.append_assoc, List.singleton_append] at h₁
  have hdw := ((headers_cut hw).1 h₁).2.1
  have h₂ := mergePrev_spec h₁ hb.pos (show x = a + span 20 P + (20 + d.size) by omega) hd
    (show x + (20 + s) ≤ 2 ^ 31 by omega)
  have hm₂ := mergePrev_eq hbx.prev hw0 ((used_eq_zero_iff hdw).2 hd) (by omega)
  obtain ⟨m₂, e₂⟩ : ∃ m₂, m₂ = mergePrev m₁ x := ⟨_, rfl⟩
  rw [hbx.next, ← e₂] at hm₂
  rw [← e₂] at h₂
  have hfree : kfree (x + 20) h = { h with mem := m₂ } := by
    rw [kfree_eq (by omega) hmagic, e₂, hm₁]
  -- and leaves the old header of the block as it was
  have hstale : Hdr m₂ x ⟨s, false⟩ w n := by
    rw [hm₂]
    exact hbx.congr fun z hz hz' => joinBlocks_apply (by omega) fun h0 => Or.inl (by
      have := hn0 h0
      omega)
  have hgrown := ((headers_cut hw).1 h₂).2.1
  have hlast : ¬(next m₂ x ≠ 0 ∧ used m₂ (next m₂ x) = memFree) := by
    rw [hstale.next]
    rintro ⟨h0, hfree⟩
    cases L' with
    | nil => exact h0 hn
    | cons c L' =>
      have hc : c.used = true := ((settled_cons_of_free rfl).1 hS).2 c (by simp)
      have hhdr := ((headers_cut hw).1 h₂).2.2.1
      rw [show w + (20 + (d.size + 20 + s)) = n by rw [hn, nextOf_cons]; omega] at hhdr
      rw [used_eq_zero_iff hhdr, hc] at hfree
      cases hfree
  have hmerge : mergeNext m₂ x = m₂ := if_neg hlast
  refine ⟨s, ?_⟩
  rw [hfree, kfree_eq (by omega) hstale.magic, setUsed_eq_self hstale.used, hmerge,
    mergePrev_eq hstale.prev hw0 hgrown.used (by omega), hstale.next, hstale.size]
  refine size_joinBlocks ?_ fun h0 => ?_
  · rw [hgrown.size]
    dsimp only
    omega
  · have := hn0 h0
    omega

/-- The runs of the allocator are runs of the client. -/
theorem Client.of_run {s s' : State} {calls : List Call} (hr : Run Memory.Step s calls s') :
    ∀ past, s.live ⊆ past → ∃ past', Run Client.Step ⟨s, past⟩ calls ⟨s', past'⟩ ∧ past ⊆ past' ∧
      s'.live ⊆ past' := by
  induction hr with
  | nil s => exact fun past hlive => ⟨past, Run.nil _, fun _ h => h, hlive⟩
  | @cons s t u c cs hstep _ ih =>
    intro past _
    obtain ⟨past', hr, hsub, hlive⟩ := ih (t.live ++ past) fun p hp => List.mem_append_left _ hp
    exact ⟨past', Run.cons (Client.Step.call hstep) hr, fun p hp => hsub (List.mem_append_right _ hp), hlive⟩

/-- **Freeing a merged block once more** corrupts the list: two blocks are allocated and freed, and the
free block that is left grows when the second one is freed again. -/
theorem freed_twice_grows : ∃ c, Run Client.Step (Client.start ⟨fun _ => 0, 0⟩)
      [.malloc 8, .malloc 8, .free (heapStart + 20), .free (heapStart + 48)] c ∧
    heapStart + 48 ∈ c.past ∧ heapStart + 48 ∉ c.state.live ∧
    size (kfree (heapStart + 48) c.state.heap).mem heapStart ≠ size c.state.heap.mem heapStart ∧
    ¬Unchanged c.state (kfree (heapStart + 48) c.state.heap) := by
  obtain ⟨m, hr, hb⟩ := exists_gap ⟨fun _ => 0, 0⟩
  obtain ⟨past, hc, -, hlive⟩ := Client.of_run hr [] fun _ h => h
  have hstep : Step ⟨⟨m, heapStart⟩, [heapStart + 48]⟩ (.free (heapStart + 48)) _ :=
    Step.free (Or.inr (by simp))
  have hr' := hr.append (Run.cons hstep (Run.nil _))
  have hc' := hc.append (Run.cons (Client.Step.call hstep) (Run.nil _))
  obtain ⟨s, hgrows⟩ := kfree_again_grows (h := ⟨m, heapStart⟩) (P := []) (x := heapStart + 28) hb rfl rfl rfl rfl
  have hne : size (kfree (heapStart + 48) (kfree (heapStart + 48) ⟨m, heapStart⟩)).mem heapStart ≠
      size (kfree (heapStart + 48) ⟨m, heapStart⟩).mem heapStart := by
    intro e
    have : size (kfree (heapStart + 48) ⟨m, heapStart⟩).mem heapStart + (20 + s) =
      size (kfree (heapStart + 48) ⟨m, heapStart⟩).mem heapStart := hgrows.symm.trans e
    omega
  refine ⟨_, hc', List.mem_append_right _ (hlive (by simp)), by simp, hne, fun hu => ?_⟩
  obtain ⟨xs, hxs, -, hempty⟩ := run_no_adjacent_free hr'
  obtain ⟨rfl, -⟩ := hempty (by simp)
  exact hne (hu.same.size _ hxs heapStart (by simp))

/-- A block is allocated and freed twice. -/
theorem again_unchanged_start : ∃ c, Run (fun c call d => Client.Step c call d ∧ Preserves c call d)
    (Client.start ⟨fun _ => 0, 0⟩) [.malloc 16, .free (heapStart + 20), .free (heapStart + 20)] c := by
  obtain ⟨m, h₁, -⟩ := kmalloc_start ⟨fun _ => 0, 0⟩ 16 16 (by decide) rfl (by decide)
  have h₂ : Step ⟨⟨m, heapStart⟩, [heapStart + 20]⟩ (.free (heapStart + 20)) _ :=
    Step.free (Or.inr (by simp))
  have hr := Run.cons h₁ (Run.cons h₂ (Run.nil _))
  obtain ⟨L, hi⟩ := inv_of_run hr
  obtain ⟨xs, hxs, -, hempty⟩ := run_no_adjacent_free hr
  obtain ⟨rfl, -⟩ := hempty (by simp)
  have hh := hi.harmless (p := heapStart + 20) (by simp) hxs (by decide) (by decide) (by decide)
  have h₃ : Client.Step ⟨⟨kfree (heapStart + 20) ⟨m, heapStart⟩, [heapStart + 20].erase (heapStart + 20)⟩,
      [heapStart + 20].erase (heapStart + 20) ++ ([heapStart + 20] ++ [])⟩ (.free (heapStart + 20)) _ :=
    Client.Step.again (by simp) (by simp)
  refine ⟨_, (again_unchanged (Run.cons ⟨Client.Step.call h₁, ?_⟩ (Run.cons ⟨Client.Step.call h₂, ?_⟩
    (Run.cons ⟨h₃, ?_⟩ (Run.nil _))))).1⟩
  · rintro p ⟨e, -⟩
    cases e
  · rintro p ⟨e, -, hp⟩
    exact absurd (List.mem_singleton.2 (Call.free.inj e).symm) hp
  · rintro p ⟨e, -⟩
    obtain rfl : heapStart + 20 = p := Call.free.inj e
    exact hh

end Stale

end AuraOS.Kernel.Memory
