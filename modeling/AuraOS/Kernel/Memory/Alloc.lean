import AuraOS.Kernel.Memory.Headers

/-!
# The operations of the allocator on the block list

`kmalloc_spec` and `kfree_spec` say what the two operations do to a heap whose headers describe the
block list `L`: they find a new list, with the same extent, settled again, in which exactly one block in
use has come or gone.  `memoryStats_spec` adds the list up.
-/

namespace AuraOS.Kernel.Memory

open AuraOS.Lib AuraOS.Lib.Tiling

/-- The heap at `a` consists of the blocks `L`, in settled order. -/
structure Blocks (m : Mem) (a : ℕ) (L : List Blk) : Prop where
  headers : Headers m 0 a 0 L
  pos : a ≠ 0
  small : a + span 20 L ≤ 2 ^ 31
  settled : Settled L

section Search

variable {m : Mem} {a x : ℕ} {b : Blk} {L L₁ L₂ : List Blk}

theorem used_eq_zero_iff {p n : ℕ} (h : Hdr m x b p n) : used m x = 0 ↔ b.used = false := by
  rw [h.used]
  cases b.used <;> simp

/-- The memory after the block at `x` was chosen for `sz` bytes. -/
def takeBlock (m : Mem) (x sz : ℕ) : Mem :=
  setUsed (if (sz + 20 + 8) % 2 ^ 32 ≤ size m x then splitBlock m x sz else m) x memUsed

/-- No free block among these is large enough. -/
def NoneFits (sz : ℕ) (L : List Blk) : Prop := ∀ c ∈ L, c.used = false → c.size < sz

/-- **The search finds the first free block that is large enough**, if there is one. -/
theorem mallocLoop_spec (sz : ℕ) (ha : a ≠ 0) : ∀ (L₂ L₁ : List Blk) (fuel : ℕ),
    Headers m 0 a 0 (L₁ ++ L₂) → L₂.length < fuel →
      (NoneFits sz L₂ ∧ mallocLoop sz fuel (nextOf 0 (a + span 20 L₁) L₂) m = some (0, m)) ∨
      ∃ P b S, L₂ = P ++ b :: S ∧ NoneFits sz P ∧ b.used = false ∧ sz ≤ b.size ∧
        mallocLoop sz fuel (nextOf 0 (a + span 20 L₁) L₂) m =
          some ((a + span 20 (L₁ ++ P) + hdrSize) % 2 ^ 32, takeBlock m (a + span 20 (L₁ ++ P)) sz) := by
  intro L₂
  induction L₂ with
  | nil =>
    intro L₁ fuel _ hf
    obtain ⟨fuel, rfl⟩ : ∃ f, fuel = f + 1 := ⟨fuel - 1, by simp at hf; omega⟩
    exact Or.inl ⟨nofun, rfl⟩
  | cons b L₂ ih =>
    intro L₁ fuel h hf
    obtain ⟨fuel, rfl⟩ : ∃ f, fuel = f + 1 := ⟨fuel - 1, by simp at hf; omega⟩
    have hhdr := ((headers_cut rfl).1 h).2.1
    rw [nextOf_cons]
    conv => enter [1, 2, 1]; unfold mallocLoop
    conv => enter [2, 1, P, 1, b, 1, S]; unfold mallocLoop
    rw [if_neg (by omega)]
    by_cases hfit : used m (a + span 20 L₁) = 0 ∧ sz ≤ size m (a + span 20 L₁)
    · rw [if_pos hfit]
      refine Or.inr ⟨[], b, L₂, rfl, nofun, (used_eq_zero_iff hhdr).1 hfit.1, hhdr.size ▸ hfit.2, ?_⟩
      rw [List.append_nil]
      rfl
    · rw [if_neg hfit]
      have hsmall : b.used = false → b.size < sz := by
        rw [used_eq_zero_iff hhdr, hhdr.size, not_and, Nat.not_le] at hfit
        exact hfit
      have hih := ih (L₁ ++ [b]) fuel (by simpa using h) (by simpa using hf)
      rw [span_append, span_cons, span_nil, Nat.add_zero, ← Nat.add_assoc, ← hhdr.next] at hih
      rcases hih with ⟨hnone, e⟩ | ⟨P, c, S, rfl, hnone, h1, h2, h3⟩
      · exact Or.inl ⟨List.forall_mem_cons.2 ⟨hsmall, hnone⟩, e⟩
      · refine Or.inr ⟨b :: P, c, S, rfl, List.forall_mem_cons.2 ⟨hsmall, hnone⟩, h1, h2, ?_⟩
        rw [h3, List.append_assoc]
        rfl

end Search

/-! ### Allocation -/

section Alloc

variable {m : Mem} {a x sz : ℕ} {b : Blk} {L L₁ L₂ : List Blk}

/-- The blocks `L'` cover what `L` covers, and have one more block in use, of `s` bytes at `x`. -/
structure Gains (a : ℕ) (L : List Blk) (x s : ℕ) (L' : List Blk) : Prop where
  span : span 20 L' = span 20 L
  free : ∀ c, (x, c) ∈ place 20 a L → c.used = false
  mem : ∀ y c, c.used = true →
    ((y, c) ∈ place 20 a L' ↔ (y, c) = (x, ⟨s, true⟩) ∨ (y, c) ∈ place 20 a L)

theorem Blocks.cut (h : Blocks m a (L₁ ++ b :: L₂)) (hx : x = a + span 20 L₁) :
    x ≠ 0 ∧ x + (20 + b.size) + span 20 L₂ ≤ 2 ^ 31 ∧ a + span 20 (L₁ ++ b :: L₂) =
      x + (20 + b.size) + span 20 L₂ := by
  have h1 := h.pos
  have h2 := h.small
  rw [span_append, span_cons] at h2 ⊢
  omega

/-- **The chosen block** is marked, after the rest of it was split off if that is worth a block. -/
theorem takeBlock_spec (h : Blocks m a (L₁ ++ b :: L₂)) (hx : x = a + span 20 L₁)
    (hb : b.used = false) (hsz : sz ≤ b.size) :
    Blocks (takeBlock m x sz) a (L₁ ++ carve 20 8 sz b ++ L₂) := by
  obtain ⟨-, hsmall, -⟩ := h.cut hx
  have hsize : size m x = b.size := ((headers_cut hx).1 h.headers).2.1.size
  have hspan : span 20 (L₁ ++ carve 20 8 sz b ++ L₂) = span 20 (L₁ ++ b :: L₂) := by
    simp only [span_append, span_carve, span_cons, Nat.add_assoc]
  refine ⟨?_, h.pos, by rw [hspan]; exact h.small, settled_carve h.settled hb⟩
  rw [List.append_assoc]
  unfold takeBlock carve
  rw [hsize, Nat.mod_eq_of_lt (by omega)]
  by_cases hsplit : sz + 20 + 8 ≤ b.size
  · rw [if_pos hsplit, if_pos hsplit]
    have h' := headers_mark (headers_split h.headers hx (show sz + 20 ≤ b.size by omega) (by omega))
      hx true
    rwa [if_pos rfl] at h'
  · rw [if_neg hsplit, if_neg hsplit]
    have h' := headers_mark h.headers hx true
    rwa [if_pos rfl] at h'

/-- Taking a free block gains one block in use. -/
theorem gains_carve {s : ℕ} {R : List Blk} (hx : x = a + span 20 L₁) (hb : b.used = false)
    (hc : carve 20 8 sz b = ⟨s, true⟩ :: R) (hR : ∀ c ∈ R, c.used = false) :
    Gains a (L₁ ++ b :: L₂) x s (L₁ ++ carve 20 8 sz b ++ L₂) := by
  refine ⟨?_, fun c hc => ?_, fun y c hcu => ?_⟩
  · simp only [span_append, span_carve, span_cons, Nat.add_assoc]
  · have hbx : (x, b) ∈ place 20 a (L₁ ++ b :: L₂) := by simp [hx]
    rw [place_inj (by omega) hc hbx, hb]
  · have hend : x + span 20 (carve 20 8 sz b) = x + (20 + b.size) := by rw [span_carve]
    have hrest : (y, c) ∉ place 20 (x + (20 + s)) R := by
      intro hmem
      obtain ⟨L, L', rfl, -⟩ := exists_append_of_mem_place hmem
      rw [hR c (by simp)] at hcu
      cases hcu
    rw [List.append_assoc, place_append, place_append, place_append, List.mem_append,
      List.mem_append, List.mem_append, ← hx, mem_place_cons_of_free hb hcu, hend, hc, place_cons,
      List.mem_cons]
    simp only [hrest, or_false]
    exact or_left_comm

/-- Taking the block at `x` changes its own bytes, and the back link in the header behind it. -/
theorem takeBlock_apply (h : Blocks m a (L₁ ++ b :: L₂)) (hx : x = a + span 20 L₁) (hsz : sz ≤ b.size)
    {z : ℕ} (hz : z < x ∨ x + (20 + b.size) ≤ z)
    (hz' : z < x + (20 + b.size) + 16 ∨ x + (20 + b.size) + 20 ≤ z) : takeBlock m x sz z = m z := by
  obtain ⟨-, hsmall, -⟩ := h.cut hx
  have hsize : size m x = b.size := ((headers_cut hx).1 h.headers).2.1.size
  unfold takeBlock setUsed
  rw [Mem.store8_apply (by omega), hsize, Nat.mod_eq_of_lt (by omega)]
  split
  · exact splitBlock_apply h.headers hx (by omega) (by omega) hz hz'
  · rfl

/-- **`kmalloc`** always returns: with `NULL` and an unchanged heap if no free block is large enough, and
else with the first one that is. -/
theorem kmalloc_first_fit {h : Heap} (hb : Blocks h.mem a L) (hhead : h.heapHead = a)
    (hspan : span 20 L = heapSize) {n : UInt32} (hn : n ≠ 0) :
    (NoneFits (align8 n).toNat L ∧ kmalloc n h = some (0, h)) ∨
    ∃ P b S, L = P ++ b :: S ∧ NoneFits (align8 n).toNat P ∧ b.used = false ∧
      (align8 n).toNat ≤ b.size ∧
      kmalloc n h = some (a + span 20 P + 20,
        { h with mem := takeBlock h.mem (a + span 20 P) (align8 n).toNat }) := by
  have hne : L ≠ [] := by
    rintro rfl
    cases hspan
  have hfuel : L.length < heapFuel := by
    have hle : 20 * L.length ≤ span 20 L := mul_length_le_span
    rw [hspan] at hle
    have : heapFuel = 26215 := rfl
    have : heapSize = 524288 := rfl
    omega
  have hfirst : nextOf 0 (a + span 20 []) L = h.heapHead := by
    cases L with
    | nil => exact absurd rfl hne
    | cons b L => simp [hhead]
  have hloop := mallocLoop_spec (align8 n).toNat hb.pos L [] heapFuel hb.headers hfuel
  rw [hfirst] at hloop
  unfold kmalloc
  rw [if_neg hn]
  rcases hloop with ⟨hnone, e⟩ | ⟨P, b, S, rfl, hnone, h1, h2, e⟩
  · rw [e]
    exact Or.inl ⟨hnone, rfl⟩
  · obtain ⟨-, hsmall, -⟩ := hb.cut rfl
    have hmod : (a + span 20 P + hdrSize) % 2 ^ 32 = a + span 20 P + 20 := by
      change (a + span 20 P + 20) % 2 ^ 32 = _
      omega
    rw [List.nil_append, hmod] at e
    rw [e]
    exact Or.inr ⟨P, b, S, rfl, hnone, h1, h2, rfl⟩

/-- What `kmalloc` does to the blocks in use. -/
theorem kmalloc_spec {h : Heap} (hb : Blocks h.mem a L) (hhead : h.heapHead = a)
    (hspan : span 20 L = heapSize) (n : UInt32) :
    kmalloc n h = some (0, h) ∨ ∃ x s m' L', kmalloc n h = some (x + 20, { h with mem := m' }) ∧
      (align8 n).toNat ≤ s ∧ Blocks m' a L' ∧ Gains a L x s L' := by
  by_cases hn : n = 0
  · exact Or.inl (if_pos hn)
  rcases kmalloc_first_fit hb hhead hspan hn with ⟨-, e⟩ | ⟨P, b, S, rfl, -, h1, h2, e⟩
  · exact Or.inl e
  · obtain ⟨s, R, hc, hle, -, hR⟩ := carve_spec (H := 20) (k := 8) (by omega) h2
    have hfree : ∀ c ∈ R, c.used = false := by
      rcases hR with ⟨rfl, -⟩ | ⟨t, rfl, -⟩ <;> simp
    exact Or.inr ⟨_, s, _, _, e, hle, takeBlock_spec hb rfl h1 h2, gains_carve rfl h1 hc hfree⟩

end Alloc

/-! ### Release -/

section Free

variable {m : Mem} {prv a x : ℕ} {b d : Blk} {L L₁ L₂ : List Blk}

/-- The blocks `L'` cover what `L` covers, and lack the block in use at `x`. -/
structure Loses (a : ℕ) (L : List Blk) (x : ℕ) (L' : List Blk) : Prop where
  span : span 20 L' = span 20 L
  mem : ∀ y c, c.used = true → ((y, c) ∈ place 20 a L' ↔ y ≠ x ∧ (y, c) ∈ place 20 a L)

/-- **Coalescing with the next block.** -/
theorem mergeNext_spec (h : Headers m prv a 0 (L₁ ++ b :: L₂)) (hx : x = a + span 20 L₁)
    (hsmall : x + (20 + b.size) + span 20 L₂ ≤ 2 ^ 31) :
    Headers (mergeNext m x) prv a 0 (L₁ ++ absorb 20 b L₂) := by
  obtain ⟨-, hhdr, h2⟩ := (headers_cut hx).1 h
  rcases L₂ with _ | ⟨c, L⟩
  · have hm : mergeNext m x = m := if_neg fun e => e.1 hhdr.next
    rw [hm]
    exact h
  obtain ⟨hc, -⟩ := h2
  have hn : next m x = x + (20 + b.size) := hhdr.next
  cases hu : c.used with
  | true =>
    have hm : mergeNext m x = m := by
      refine if_neg fun e => ?_
      rw [hn, used_eq_zero_iff hc, hu] at e
      cases e.2
    rw [hm]
    simpa [absorb, hu] using h
  | false =>
    rw [span_cons] at hsmall
    obtain ⟨z, hz⟩ : ∃ z, z = x + (20 + b.size) + (20 + c.size) := ⟨_, rfl⟩
    have hlt : nextOf 0 z L < 2 ^ 32 := by
      rw [hz, ← hc.next]
      exact Mem.load32_lt
    have hm : mergeNext m x = joinBlocks m x (b.size + 20 + c.size) (nextOf 0 z L) := by
      unfold mergeNext joinBlocks
      rw [if_pos ⟨by omega, by rw [hn]; exact (used_eq_zero_iff hc).2 hu⟩]
      have hsz : size m x + (hdrSize + size m (next m x)) = b.size + 20 + c.size := by
        rw [hn, hhdr.size, hc.size]
        change b.size + (20 + c.size) = _
        omega
      have hn1 : ∀ v, next (setSize m x v) x = x + (20 + b.size) := by
        intro v
        rw [← hn]
        exact Mem.load32_store32_of_ne (by omega)
      have hn2 : ∀ v, next (setSize m x v) (x + (20 + b.size)) = nextOf 0 z L := by
        intro v
        rw [hz, ← hc.next]
        exact Mem.load32_store32_of_ne (by omega)
      have hn3 : ∀ m' : Mem, next (setNext m' x (nextOf 0 z L)) x = nextOf 0 z L := by
        intro m'
        exact Mem.load32_store32.trans (Nat.mod_eq_of_lt hlt)
      simp only [hsz, hn1, hn2, hn3]
    rw [hm]
    simpa [absorb, hu] using headers_join h hx hz (by omega)

/-- What `mergePrev` does at any header behind a free one. -/
theorem mergePrev_eq {w : ℕ} (hp : prev m x = w) (hw : w ≠ 0) (hu : used m w = memFree) (hwx : w + 20 ≤ x) :
    mergePrev m x = joinBlocks m w (size m w + (20 + size m x)) (next m x) := by
  have hprev : ∀ m' : Mem, (∀ z, w + 20 ≤ z → m' z = m z) → prev m' x = w := fun m' heq =>
    (Mem.load32_congr fun z hz _ => heq z (by omega)).trans hp
  have hnext : ∀ m' : Mem, (∀ z, w + 20 ≤ z → m' z = m z) → next m' x = next m x := fun m' heq =>
    Mem.load32_congr fun z hz _ => heq z (by omega)
  have hsize : ∀ v z, w + 20 ≤ z → setSize m w v z = m z := fun v z hz =>
    Mem.store32_apply (by omega)
  have hlink : ∀ v u z, w + 20 ≤ z → setNext (setSize m w v) w u z = m z := fun v u z hz =>
    (Mem.store32_apply (by omega)).trans (hsize v z hz)
  unfold mergePrev joinBlocks
  rw [hp, if_pos ⟨hw, hu⟩]
  simp only [hprev _ (hsize _), hnext _ (hsize _), hprev _ (hlink _ _), hnext _ (hlink _ _)]

/-- Coalescing with a previous block in use, or none, does nothing. -/
theorem mergePrev_of_used (h : Headers m 0 a 0 (L₁ ++ b :: L₂)) (hx : x = a + span 20 L₁)
    (hused : ∀ d ∈ L₁.getLast?, d.used = true) : mergePrev m x = m := by
  have hhdr := ((headers_cut hx).1 h).2.1
  refine if_neg fun e => ?_
  rcases List.eq_nil_or_concat L₁ with rfl | ⟨L₀, d, rfl⟩
  · exact e.1 hhdr.prev
  · have hd : d.used = true := hused d (by simp)
    have hw : prev m x = a + span 20 L₀ := by
      rw [hhdr.prev]
      simp [lastOf_append_singleton]
    have hheaders : Headers m 0 a 0 (L₀ ++ d :: b :: L₂) := by simpa using h
    rw [hw, used_eq_zero_iff ((headers_cut rfl).1 hheaders).2.1, hd] at e
    cases e.2

/-- **Coalescing with a free previous block.** -/
theorem mergePrev_spec (h : Headers m 0 a 0 (L₁ ++ d :: b :: L₂)) (ha : a ≠ 0)
    (hx : x = a + span 20 L₁ + (20 + d.size)) (hd : d.used = false)
    (hsmall : x + (20 + b.size) ≤ 2 ^ 31) :
    Headers (mergePrev m x) 0 a 0 (L₁ ++ ⟨d.size + 20 + b.size, false⟩ :: L₂) := by
  obtain ⟨-, hdd, hbb, -⟩ := (headers_cut rfl).1 h
  rw [← hx] at hbb
  have hp : prev m x = a + span 20 L₁ := hbb.prev
  have hlt : nextOf 0 (x + (20 + b.size)) L₂ < 2 ^ 32 := by
    rw [← hbb.next]
    exact Mem.load32_lt
  have hm := mergePrev_eq hp (by omega) ((used_eq_zero_iff hdd).2 hd) (by omega)
  rw [hdd.size, hbb.size, hbb.next, ← Nat.add_assoc] at hm
  rw [hm]
  have hjoin := headers_join (y := x + (20 + b.size)) h rfl (by omega) hsmall
  rwa [hd] at hjoin

/-- `kfree` of a pointer whose header has the magic number. -/
theorem kfree_eq {h : Heap} (hx : x + 20 < 2 ^ 32) (hmagic : magic h.mem x = blockMagic) :
    kfree (x + 20) h = { h with mem := mergePrev (mergeNext (setUsed h.mem x memFree) x) x } := by
  have hsub : sub32 (x + 20) hdrSize = x := by
    change (x + 20 + 2 ^ 32 - 20) % 2 ^ 32 = x
    omega
  unfold kfree
  rw [if_neg (by omega)]
  simp only [hsub]
  exact if_neg fun hne => hne hmagic

/-- A block is marked as free and coalesced with the next one. -/
theorem headers_freeNext (hb : Blocks m a (L₁ ++ b :: L₂)) (hx : x = a + span 20 L₁) :
    Headers (mergeNext (setUsed m x memFree) x) 0 a 0 (L₁ ++ absorb 20 ⟨b.size, false⟩ L₂) := by
  obtain ⟨-, hsmall, -⟩ := hb.cut hx
  have h₁ := headers_mark hb.headers hx false
  rw [if_neg Bool.false_ne_true] at h₁
  exact mergeNext_spec h₁ hx hsmall

/-- A block in use is freed and coalesced with the next one. -/
theorem freeNext_spec (hb : Blocks m a (L₁ ++ b :: L₂)) (hx : x = a + span 20 L₁)
    (hu : b.used = true) : ∃ s L', Settled (⟨s, false⟩ :: L') ∧
      Headers (mergeNext (setUsed m x memFree) x) 0 a 0 (L₁ ++ ⟨s, false⟩ :: L') ∧
      20 + s + span 20 L' = 20 + b.size + span 20 L₂ ∧
      ∀ y c, c.used = true →
        ((y, c) ∈ place 20 (x + (20 + s)) L' ↔ (y, c) ∈ place 20 (x + (20 + b.size)) L₂) := by
  have hS₂ := ((settled_append_cons_of_used hu).1 hb.settled).2
  have h₂ := headers_freeNext hb hx
  obtain ⟨s, L', he, hS', hspan', hmem'⟩ := absorb_spec (H := 20) (b := ⟨b.size, false⟩) rfl hS₂
  rw [he] at h₂
  refine ⟨s, L', hS', h₂, hspan', fun y c hc => ?_⟩
  rw [← mem_place_cons_of_free (b := ⟨s, false⟩) rfl hc, hmem' x y c hc, mem_place_cons_of_free rfl hc]

/-- **`kfree`** of a block in use frees it, and no other. -/
theorem kfree_spec {h : Heap} (hb : Blocks h.mem a L) (hmem : (x, b) ∈ place 20 a L)
    (hu : b.used = true) :
    ∃ m' L', kfree (x + 20) h = { h with mem := m' } ∧ Blocks m' a L' ∧ Loses a L x L' := by
  obtain ⟨L₁, L₂, rfl, hx⟩ := exists_append_of_mem_place hmem
  obtain ⟨hx0, hsmall, hspan⟩ := hb.cut hx
  have hS₁ := ((settled_append_cons_of_used hu).1 hb.settled).1
  have hhdr := ((headers_cut hx).1 hb.headers).2.1
  have hrun := kfree_eq (h := h) (x := x) (by omega) hhdr.magic
  obtain ⟨s, L', hS', h₂, hspan', hmem'⟩ := freeNext_spec hb hx hu
  rw [hrun]
  by_cases hlast : ∀ d ∈ L₁.getLast?, d.used = true
  · rw [mergePrev_of_used h₂ hx hlast]
    have hsp : span 20 (L₁ ++ ⟨s, false⟩ :: L') = span 20 (L₁ ++ b :: L₂) := by
      simp only [span_append, span_cons]
      omega
    refine ⟨_, _, rfl, ⟨h₂, hb.pos, by rw [hsp]; exact hb.small, ?_⟩, hsp, fun y c hc => ?_⟩
    · rw [settled_append_cons_of_free rfl]
      exact ⟨hS₁, hS', hlast⟩
    · rw [mem_place_cut (by omega) hx, ← hmem' y c hc, place_append, List.mem_append, ← hx,
        mem_place_cons_of_free rfl hc]
  · rcases List.eq_nil_or_concat L₁ with rfl | ⟨L₀, d, rfl⟩
    · simp at hlast
    have hd : d.used = false := by simpa using hlast
    have hx' : x = a + span 20 L₀ + (20 + d.size) := by
      rw [hx, List.concat_eq_append, span_append, span_cons, span_nil]
      omega
    have h₃ := mergePrev_spec (b := ⟨s, false⟩) (by simpa using h₂) hb.pos hx' hd
      (show x + (20 + s) ≤ 2 ^ 31 by omega)
    have hsp : span 20 (L₀ ++ ⟨d.size + 20 + s, false⟩ :: L') =
        span 20 (L₀.concat d ++ b :: L₂) := by
      simp only [List.concat_eq_append, span_append, span_cons, span_nil]
      omega
    refine ⟨_, _, rfl, ⟨h₃, hb.pos, by rw [hsp]; exact hb.small, ?_⟩, hsp, fun y c hc => ?_⟩
    · obtain ⟨t, u⟩ := d
      obtain rfl : u = false := hd
      rw [List.concat_eq_append] at hS₁
      exact settled_join hS₁ hS'
    · rw [mem_place_cut (by omega) hx, ← hmem' y c hc, List.concat_eq_append, place_append,
        List.mem_append, place_append, List.mem_append, mem_place_cons_of_free rfl hc,
        mem_place_cons_of_free hd hc, place_nil,
        show a + span 20 L₀ + (20 + (d.size + 20 + s)) = x + (20 + s) by omega]
      simp

end Free

/-! ### Statistics -/

/-- **`memoryStats`** adds up the blocks. -/
theorem memoryStats_spec {a : ℕ} {L : List Blk} {h : Heap} (hb : Blocks h.mem a L)
    (hhead : h.heapHead = a) (hspan : span 20 L = heapSize) :
    memoryStats h = some (bytes true L, bytes false L) := by
  have key : ∀ (L₂ L₁ : List Blk) (fuel u f : ℕ), Headers h.mem 0 a 0 (L₁ ++ L₂) →
      L₂.length < fuel → u + f + span 20 L₂ ≤ 2 ^ 31 →
      statsLoop h.mem fuel (nextOf 0 (a + span 20 L₁) L₂) u f =
        some (u + bytes true L₂, f + bytes false L₂) := by
    intro L₂
    induction L₂ with
    | nil =>
      intro L₁ fuel u f _ hf _
      obtain ⟨fuel, rfl⟩ : ∃ n, fuel = n + 1 := ⟨fuel - 1, by simp at hf; omega⟩
      rfl
    | cons b L₂ ih =>
      intro L₁ fuel u f hh hf hlt
      obtain ⟨fuel, rfl⟩ : ∃ n, fuel = n + 1 := ⟨fuel - 1, by simp at hf; omega⟩
      have hhdr := ((headers_cut rfl).1 hh).2.1
      have hpos := hb.pos
      rw [span_cons] at hlt
      have hih := fun u f => ih (L₁ ++ [b]) fuel u f (by simpa using hh) (by simpa using hf)
      have hspan₁ : a + span 20 (L₁ ++ [b]) = a + span 20 L₁ + (20 + b.size) := by
        rw [span_append, span_cons, span_nil, Nat.add_zero, Nat.add_assoc]
      rw [hspan₁, ← hhdr.next] at hih
      rw [nextOf_cons]
      unfold statsLoop
      rw [if_neg (by omega), hhdr.used, hhdr.size]
      unfold bytes
      cases b.used with
      | true =>
        rw [if_pos rfl, if_pos (by decide), Nat.mod_eq_of_lt (by omega), hih _ _ (by omega), if_pos rfl,
          if_neg (by decide)]
        congr 2 <;> omega
      | false =>
        rw [if_neg Bool.false_ne_true, if_neg (by decide), Nat.mod_eq_of_lt (by omega),
          hih _ _ (by omega), if_neg (by decide), if_pos rfl]
        congr 2 <;> omega
  have hle : 20 * L.length ≤ span 20 L := mul_length_le_span
  have hsz : heapSize = 524288 := rfl
  have hfirst : nextOf 0 (a + span 20 []) L = h.heapHead := by
    cases L with
    | nil => cases hspan
    | cons b L => simp [hhead]
  have := key L [] heapFuel 0 0 hb.headers
    (by rw [show heapFuel = 26215 from rfl]; omega) (by omega)
  rw [hfirst, Nat.zero_add, Nat.zero_add] at this
  exact this

end AuraOS.Kernel.Memory
